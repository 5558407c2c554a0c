import SnesRecomp.Recompiler.StatusByte
import SnesRecomp.Tiers.StackOps
import SnesRecomp.Tiers.StraightLine

/-!
# Runs of stack instructions in the two tiers

Any sequence of pushes and pulls, executed where the interpreter reads the bytes the
instructions were decoded from, with the decoder's widths in the flags and the stack in low
WRAM.  `stackRun_agrees`: if each instruction is executed in a state `StackAlike` allows, the
tiers are in step at the end, `PLP` leaves `P` and its mirrors coherent, and a pull behind the
push of the same register restores `S` and the register.

`PER` is the one instruction whose bytes do not hold its operand, but the distance to it.
-/

namespace SnesRecomp.Tiers

open Recompiler Interp816 Runs

variable {M H : Type}

/-! ### The bytes of an instruction -/

/-- The interpreter is at the bytes `insn` was decoded from, and reading them changes
nothing. -/
structure FetchesRom (bus : Bus M) (rom : Rom) (offset pc : Nat) (insn : Insn) (i : Interp816 M) :
    Prop where
  pc : i.pc = BitVec.ofNat 16 pc
  bytes : ∀ n < insn.length,
    bus.read8 i.k (i.pc + BitVec.ofNat 16 n) i.mem = (rom.byte (offset + n), i.mem)

section Bytes

variable {bus : Bus M} {rom : Rom} {offset pc bank : Nat} {mF xF : Bool} {insn : Insn} {i : Interp816 M}

theorem byte_of_get? {n : Nat} {b : Byte} (h : rom.get? n = some b) : rom.byte n = b := by
  rw [Rom.get?] at h
  split at h
  · exact Option.some.inj h
  · cases h

theorem operand_of_decodeInsn (hdec : decodeInsn rom offset pc bank mF xF = some insn) :
    rom.byte offset = insn.opcode ∧
      decodeOperand rom offset pc insn.mode insn.length = some insn.operand := by
  simp only [decodeInsn, Option.bind_eq_bind, Option.bind_eq_some_iff, Option.pure_def,
    Option.some.injEq] at hdec
  obtain ⟨op, hop, operand, hoperand, rfl⟩ := hdec
  exact ⟨byte_of_get? hop, hoperand⟩

/-- The word behind an opcode. -/
def romWord (rom : Rom) (offset : Nat) : Word := mkWord (rom.byte (offset + 1)) (rom.byte (offset + 2))

theorem toNat_or_shiftLeft (lo hi : Byte) : lo.toNat ||| hi.toNat <<< 8 = (mkWord lo hi).toNat := by
  have hlo := lo.isLt
  rw [mkWord_toNat, Nat.or_comm]
  exact Bits.shiftLeft_or_eq_add hlo

theorem decodeOperand_abs {length operand : Nat}
    (h : decodeOperand rom offset pc .abs length = some operand) :
    operand = (romWord rom offset).toNat := by
  simp only [decodeOperand, Option.bind_eq_bind, Option.bind_eq_some_iff, Option.map_eq_some_iff,
    Option.pure_def, Option.some.injEq] at h
  obtain ⟨_, ⟨lo, hlo, rfl⟩, _, ⟨hi, hhi, rfl⟩, rfl⟩ := h
  rw [romWord, byte_of_get? hlo, byte_of_get? hhi, toNat_or_shiftLeft]

theorem decodeOperand_dp {length operand : Nat}
    (h : decodeOperand rom offset pc .dp length = some operand) :
    operand = (rom.byte (offset + 1)).toNat := by
  simp only [decodeOperand, Option.map_eq_some_iff] at h
  obtain ⟨b, hb, rfl⟩ := h
  rw [byte_of_get? hb]

theorem decodeOperand_rel16 {length operand : Nat}
    (h : decodeOperand rom offset pc .rel16 length = some operand) :
    operand = relTarget pc 3 (romWord rom offset).toNat 16 := by
  simp only [decodeOperand, Option.bind_eq_bind, Option.bind_eq_some_iff, Option.map_eq_some_iff,
    Option.pure_def, Option.some.injEq] at h
  obtain ⟨_, ⟨_, ⟨lo, hlo, rfl⟩, _, ⟨hi, hhi, rfl⟩, rfl⟩, rfl⟩ := h
  rw [romWord, byte_of_get? hlo, byte_of_get? hhi, toNat_or_shiftLeft]

/-- A 16-bit branch goes as far from its end as its bytes say. -/
theorem ofNat_relTarget (pc len : Nat) (raw : Word) :
    BitVec.ofNat 16 (relTarget pc len raw.toNat 16) = BitVec.ofNat 16 pc + BitVec.ofNat 16 len + raw := by
  have hraw := raw.isLt
  apply BitVec.eq_of_toNat_eq
  simp only [relTarget, BitVec.toNat_ofNat, BitVec.toNat_add]
  split <;> omega

theorem fetches_of_opcode (h : FetchesRom bus rom offset pc insn i) (hop : rom.byte offset = insn.opcode)
    (hlen : insn.length = 1) : Fetches bus insn i := by
  intro n hn
  obtain rfl : n = 0 := by omega
  rw [h.bytes 0 hn]
  exact congrArg (fun b => (b, i.mem)) hop

theorem fetches_of_byte (h : FetchesRom bus rom offset pc insn i) (hop : rom.byte offset = insn.opcode)
    (hlen : insn.length = 2) (hb : insn.operand = (rom.byte (offset + 1)).toNat) :
    Fetches bus insn i := by
  intro n hn
  rw [h.bytes n hn]
  match n, (by omega : n < 2) with
  | 0, _ => exact congrArg (fun b => (b, i.mem)) hop
  | 1, _ =>
    refine congrArg (fun b => (b, i.mem)) (BitVec.eq_of_toNat_eq ?_)
    simp only [insnByte, hb, BitVec.toNat_ofNat]
    omega

theorem fetches_of_word (h : FetchesRom bus rom offset pc insn i) (hop : rom.byte offset = insn.opcode)
    (hlen : insn.length = 3) :
    Fetches bus { insn with operand := (romWord rom offset).toNat } i := by
  intro n hn
  have hn' : n < insn.length := hn
  rw [h.bytes n hn']
  match n, (by omega : n < 3) with
  | 0, _ => exact congrArg (fun b => (b, i.mem)) hop
  | 1, _ =>
    refine congrArg (fun b => (b, i.mem)) (BitVec.eq_of_toNat_eq ?_)
    simp only [insnByte, romWord, BitVec.toNat_ofNat, mkWord_toNat]
    omega
  | 2, _ =>
    refine congrArg (fun b => (b, i.mem)) (BitVec.eq_of_toNat_eq ?_)
    simp only [insnByte, romWord, BitVec.toNat_ofNat, mkWord_toNat, Nat.shiftRight_eq_div_pow]
    omega

end Bytes

/-! ### One instruction -/

/-- A stack instruction, executed as it was decoded: its bytes are at the program counter, the
flags are the widths of the decoder, and the stack is in low WRAM. -/
structure StackStep (bus : Bus M) (l : Insn × Value) (s : Tandem M) : Prop where
  row : (stackRow l.1.mnem).isSome
  code : ∃ rom offset pc bank, decodeInsn rom offset pc bank l.1.mFlag l.1.xFlag = some l.1 ∧
    FetchesRom bus rom offset pc l.1 s.interp
  m_eq : l.1.mFlag = s.compiled.cpu.mFlag
  x_eq : l.1.xFlag = s.compiled.cpu.xFlag
  low : LowStack l.1.mnem s.compiled.cpu

/-- The state before a stack instruction in which the tiers do the same. -/
def StackAlike (cart : Cart) (io : RegIo H) (l : Insn × Value) (s : Tandem (Mem H)) : Prop :=
  let cpu := s.compiled.cpu
  match l.1.mnem with
  | .plp => hasBit (s.compiled.mem.ram (cpu.S + 1).toNat) cpuPX = true → Narrow cpu
  | .pea => l.1.operand = 0xC2AE → cpu.Y = 0
  | .pei => SplitsAt cart io (cpu.D + BitVec.ofNat 16 l.1.operand) s.compiled.mem
  | _ => True

/-- In step, in native mode, with no interrupt waiting. -/
structure InTandem (s : Tandem M) : Prop where
  inStep : InStep s
  native : s.compiled.cpu.emulation = false
  running : Uninterrupted s.interp

section Step

variable {cart : Cart} {io : RegIo H} {l : Insn × Value} {s : Tandem (Mem H)}

theorem mode_of_stackRow : ∀ opcode : Byte,
    ((opcodeRow opcode).mnem = .pea → (opcodeRow opcode).mode = .abs) ∧
      ((opcodeRow opcode).mnem = .pei → (opcodeRow opcode).mode = .dp) ∧
      ((opcodeRow opcode).mnem = .per → (opcodeRow opcode).mode = .rel16) := by decide +kernel

/-- What both tiers do, with the operand as it is encoded. -/
theorem sameStep_of_stackStep (hs : InTandem s) (h : StackStep (cpuBus cart io) l s)
    (halike : StackAlike cart io l s) :
    ∃ raw cpu' m', Fetches (cpuBus cart io) { l.1 with operand := raw } s.interp ∧
      0 < l.1.length ∧
      SameStep (cpuBus cart io) l.1 l.2 s.compiled.cpu s.interp s.compiled.mem s.compiled.vals cpu' m' ∧
      cpu'.emulation = false := by
  obtain ⟨rom, offset, pc, bank, hdec, hcode⟩ := h.code
  obtain ⟨⟨op, len⟩, hrow⟩ := Option.isSome_iff_exists.mp h.row
  obtain ⟨hop, hlen⟩ := stackRow_of_decodeInsn hdec hrow
  obtain ⟨hopcode, hoperand⟩ := operand_of_decodeInsn hdec
  obtain ⟨hmnem, hmode, -⟩ := row_of_decodeInsn hdec
  have hpos := length_pos_of_decodeInsn hdec
  have hmodes := mode_of_stackRow l.1.opcode
  rw [← hmnem, ← hmode] at hmodes
  have hidx : l.1.mnem = .plp → hasBit (popByte (cpuBus cart io)
      ⟨s.compiled.cpu, s.compiled.mem, s.compiled.vals⟩).1 cpuPX = true → Narrow s.compiled.cpu := by
    intro hm
    have hlow := h.low
    rw [StackAlike, hm] at halike
    rw [hm] at hlow
    rw [popByte, read8_low cart io (hlow (s.compiled.cpu.S + 1) (by simp [stackSlots, pullSlots]))]
    exact halike
  have hstep : ∀ raw, Fetches (cpuBus cart io) { l.1 with operand := raw } s.interp →
      Fetches (cpuBus cart io) { l.1 with operand := raw }
        (interpWith s.compiled.cpu s.interp s.compiled.mem) := fun raw hf => hs.inStep ▸ hf
  rw [StackAlike] at halike
  rcases stackRow_cases hrow with ⟨hpush, rfl⟩ | ⟨hpull, rfl⟩ | ⟨hm, rfl, rfl⟩ | ⟨hm, rfl, rfl⟩ |
    ⟨hm, rfl, rfl⟩
  · obtain ⟨cpu', m', hsame, he⟩ := sameStep_push cart io hop hlen hrow hpush h.m_eq h.x_eq
      hs.native h.low
    exact ⟨l.1.operand, cpu', m', fetches_of_opcode hcode hopcode hlen, hpos, hsame, he⟩
  · obtain ⟨cpu', m', hsame, he⟩ := sameStep_pull hop hlen hrow hpull h.m_eq h.x_eq hs.native h.low hidx
    exact ⟨l.1.operand, cpu', m', fetches_of_opcode hcode hopcode hlen, hpos, hsame, he⟩
  · rw [hmodes.1 hm] at hoperand
    have hword := decodeOperand_abs hoperand
    have hf : Fetches (cpuBus cart io) l.1 s.interp := by
      have hf := fetches_of_word hcode hopcode hlen
      rwa [← hword] at hf
    rw [hm] at halike
    have hY : BitVec.ofNat 16 l.1.operand = 0xC2AE → s.compiled.cpu.Y = 0 := by
      intro hv
      refine halike ?_
      rw [hword, BitVec.ofNat_toNat, BitVec.setWidth_eq] at hv
      rw [hword, hv]
      rfl
    obtain ⟨cpu', m', hsame, he⟩ := sameStep_pea hm hop hlen (hstep _ hf) hs.native h.low hY
    exact ⟨l.1.operand, cpu', m', hf, hpos, hsame, he⟩
  · rw [hmodes.2.1 hm] at hoperand
    have hbyte := decodeOperand_dp hoperand
    have hf := fetches_of_byte hcode hopcode hlen hbyte
    have hlt : l.1.operand < 256 := hbyte ▸ (rom.byte (offset + 1)).isLt
    rw [hm] at halike
    obtain ⟨cpu', m', hsame, he⟩ := sameStep_pei hm hop hlen hlt (hstep _ hf) hs.native h.low halike
    exact ⟨l.1.operand, cpu', m', hf, hpos, hsame, he⟩
  · rw [hmodes.2.2 hm] at hoperand
    have hf := fetches_of_word hcode hopcode hlen
    have hraw : BitVec.ofNat 16 l.1.operand =
        (advance s.interp 3).pc + BitVec.ofNat 16 (romWord rom offset).toNat := by
      rw [decodeOperand_rel16 hoperand, ofNat_relTarget, BitVec.ofNat_toNat, BitVec.setWidth_eq,
        ← hcode.pc]
      rfl
    obtain ⟨cpu', m', hsame, he⟩ := sameStep_per hm hop hlen (hstep _ hf) hraw hs.native h.low
    exact ⟨_, cpu', m', hf, hpos, hsame, he⟩

theorem inTandem_step (hs : InTandem s) (h : StackStep (cpuBus cart io) l s)
    (halike : StackAlike cart io l s) : InTandem (tandemStep (cpuBus cart io) l s) := by
  obtain ⟨raw, cpu', m', hcode, hlen, hstep, he⟩ := sameStep_of_stackStep hs h halike
  obtain ⟨hcpu, hmem, hinterp⟩ := tandemStep_of_fetched hs.inStep hs.running hcode hlen hstep
  refine ⟨?_, hcpu ▸ he, ?_⟩
  · rw [InStep, hcpu, hmem, hinterp]
    rfl
  · rw [hinterp]
    exact ⟨hs.running.stopped, hs.running.irq, hs.running.nmi⟩

/-- The tiers stay in step over every run whose instructions are executed in states that
allow it. -/
theorem inTandem_run {insns : List (Insn × Value)} {s : Tandem (Mem H)} (hs : InTandem s)
    (h : StepsMeet (tandemStep (cpuBus cart io)) (StackStep (cpuBus cart io)) insns s)
    (halike : StepsMeet (tandemStep (cpuBus cart io)) (StackAlike cart io) insns s) :
    InTandem (final (tandemStep (cpuBus cart io)) insns s) := by
  induction insns generalizing s with
  | nil => exact hs
  | cons l insns ih => exact ih (inTandem_step hs h.1 halike.1) h.2 halike.2

end Step

/-! ### A pull behind its push -/

/-- The register of a push and a pull that belong together. -/
def matchingReg : Mnem → Mnem → Option Reg
  | .pha, .pla => some .a
  | .phx, .plx => some .x
  | .phy, .ply => some .y
  | .php, .plp => some .p
  | .phb, .plb => some .db
  | .phd, .pld => some .d
  | _, _ => none

/-- What a register holds; `P` is its mirrors. -/
def stackValue (reg : Reg) (cpu : CpuState) : Word :=
  match reg with
  | .p => cpu.mirrors.pack.setWidth 16
  | reg => readRegField cpu reg

/-- 8-bit index registers have no high byte. -/
def FitsWidth (reg : Reg) (cpu : CpuState) : Prop :=
  (reg = .x ∨ reg = .y) → cpu.xFlag = true → (stackValue reg cpu).toNat < 256

section Restore

variable {cart : Cart} {io : RegIo H} {cpu : CpuState} {m : Mem H} {vals : Value → Word}

theorem popByte_pushByte (cart : Cart) (io : RegIo H) (cpu : CpuState) (m : Mem H) (vals : Value → Word)
    (hlow : cpu.S.toNat < 0x2000) (v : Byte) :
    popByte (cpuBus cart io) (Recompiler.pushByte (cpuBus cart io) v ⟨cpu, m, vals⟩) =
      (v, ⟨cpu, m.setRam cpu.S.toNat v, vals⟩) := by
  have hS : cpu.S - 1 + 1 = cpu.S := BitVec.sub_add_cancel cpu.S 1
  simp only [popByte, Recompiler.pushByte, hS, read8_low cart io hlow, write8_low cart io hlow,
    setRam_ram_self]

theorem popWord_pushWord (hhigh : cpu.S.toNat < 0x2000) (hlow : (cpu.S - 1).toNat < 0x2000) (v : Word) :
    popWord (cpuBus cart io) (Recompiler.pushWord (cpuBus cart io) v ⟨cpu, m, vals⟩) =
      (v, ⟨cpu, (m.setRam (cpu.S - 1).toNat (loByte v)).setRam cpu.S.toNat (hiByte v), vals⟩) := by
  have hone := toNat_sub_one hlow hhigh
  have hS : cpu.S - 1 - 1 + 1 = cpu.S - 1 := BitVec.sub_add_cancel (cpu.S - 1) 1
  have hS' : cpu.S - 1 + 1 = cpu.S := BitVec.sub_add_cancel cpu.S 1
  have hlo : ((m.setRam (cpu.S - 1).toNat (loByte v)).setRam ((cpu.S - 1).toNat + 1) (hiByte v)).ram
      (cpu.S - 1).toNat = loByte v := by
    rw [setRam_ram_of_ne (by omega), setRam_ram_self]
  simp only [popWord, Recompiler.pushWord, hS, hS', read16_low cart io hlow, write16_low cart io hlow,
    hlo, setRam_ram_self, mkWord_loByte_hiByte, hone]

theorem setWidth_loByte_iff (v : Word) : (loByte v).setWidth 16 = v ↔ v.toNat < 256 := by
  rw [← BitVec.toNat_inj, BitVec.toNat_setWidth, loByte_toNat]
  omega

/-- A value pushed and pulled at one width. -/
theorem pull_pushWide (cart : Cart) (io : RegIo H) (m : Mem H) (vals : Value → Word) {byte : Bool}
    (hlow : ∀ a ∈ pushSlots byte cpu.S, a.toNat < 0x2000) (v : Word) :
    (byte = true → ∃ m', popByte (cpuBus cart io) (pushWide (cpuBus cart io) byte v ⟨cpu, m, vals⟩) =
        (loByte v, ⟨cpu, m', vals⟩)) ∧
      (byte = false → ∃ m', popWord (cpuBus cart io) (pushWide (cpuBus cart io) byte v ⟨cpu, m, vals⟩) =
        (v, ⟨cpu, m', vals⟩)) := by
  cases byte with
  | true =>
    refine ⟨fun _ => ⟨_, popByte_pushByte cart io cpu m vals (hlow cpu.S ?_) (loByte v)⟩,
      fun h => by cases h⟩
    simp [pushSlots]
  | false =>
    refine ⟨(fun h => by cases h),
      fun _ => ⟨_, popWord_pushWord (hlow cpu.S ?_) (hlow (cpu.S - 1) ?_) v⟩⟩
    · simp [pushSlots]
    · simp [pushSlots]

/-- `S` and the register behind the emitted lines of a push and of its pull. -/
def RestoresReg (reg : Reg) (cpu cpu' : CpuState) : Prop :=
  cpu'.S = cpu.S ∧ (stackValue reg cpu' = stackValue reg cpu ↔ FitsWidth reg cpu)

theorem fitsWidth_of_ne {reg : Reg} (hx : reg ≠ .x) (hy : reg ≠ .y) (cpu : CpuState) :
    FitsWidth reg cpu := by
  rintro (h | h)
  · exact absurd h hx
  · exact absurd h hy

theorem restores_a {byte : Bool} (hlow : ∀ a ∈ pushSlots byte cpu.S, a.toNat < 0x2000) (xF : Option Bool) :
    RestoresReg .a cpu (emitPullReg (cpuBus cart io) .a (some byte) xF
      (emitPushReg (cpuBus cart io) .a (some byte) xF ⟨cpu, m, vals⟩)).cpu := by
  obtain ⟨hbyte, hword⟩ := pull_pushWide cart io m vals hlow cpu.A
  have hA : preserveHigh cpu.A (loByte cpu.A) = cpu.A :=
    (withLow_eq cpu.A (loByte cpu.A)).trans (mkWord_loByte_hiByte cpu.A)
  cases byte with
  | true =>
    obtain ⟨m', h⟩ := hbyte rfl
    simp only [emitPushReg, emitPullReg, Option.getD_some, if_true, h]
    exact ⟨rfl, iff_of_true hA (fitsWidth_of_ne (by decide) (by decide) cpu)⟩
  | false =>
    obtain ⟨m', h⟩ := hword rfl
    simp only [emitPushReg, emitPullReg, Option.getD_some, Bool.false_eq_true, if_false, h]
    exact ⟨rfl, iff_of_true rfl (fitsWidth_of_ne (by decide) (by decide) cpu)⟩

theorem restores_index (r : IdxReg) (hlow : ∀ a ∈ pushSlots cpu.xFlag cpu.S, a.toNat < 0x2000)
    (mF : Option Bool) :
    RestoresReg (indexReg r) cpu (emitPullReg (cpuBus cart io) (indexReg r) mF (some cpu.xFlag)
      (emitPushReg (cpuBus cart io) (indexReg r) mF (some cpu.xFlag) ⟨cpu, m, vals⟩)).cpu := by
  have hindex : indexReg r = .x ∨ indexReg r = .y := by cases r <;> decide
  obtain ⟨hbyte, hword⟩ := pull_pushWide cart io m vals hlow (stackValue (indexReg r) cpu)
  by_cases hx : cpu.xFlag = true
  · obtain ⟨m', h⟩ := hbyte hx
    have hfit : FitsWidth (indexReg r) cpu ↔ (stackValue (indexReg r) cpu).toNat < 256 :=
      ⟨fun hfit => hfit hindex hx, fun hlt _ _ => hlt⟩
    rw [RestoresReg, hfit]
    cases r <;>
    · simp only [indexReg, stackValue, readRegField] at h ⊢
      simp only [emitPushReg, emitPullReg, Recompiler.pullIndex, Option.getD_some, if_pos hx, h]
      exact ⟨rfl, setWidth_loByte_iff _⟩
  · obtain ⟨m', h⟩ := hword (by simpa using hx)
    have hfit : FitsWidth (indexReg r) cpu := fun _ hx' => absurd hx' hx
    cases r <;>
    · simp only [indexReg, stackValue, readRegField] at h ⊢
      simp only [emitPushReg, emitPullReg, Recompiler.pullIndex, Option.getD_some, if_neg hx, h]
      exact ⟨rfl, iff_of_true rfl hfit⟩

theorem restores_p (hlow : cpu.S.toNat < 0x2000) (mF xF : Option Bool) :
    RestoresReg .p cpu (emitPullReg (cpuBus cart io) .p mF xF
      (emitPushReg (cpuBus cart io) .p mF xF ⟨cpu, m, vals⟩)).cpu := by
  have h := popByte_pushByte cart io (cpuMirrorsToP cpu) m vals hlow (cpuMirrorsToP cpu).P
  simp only [emitPushReg, emitPullReg, h]
  refine ⟨rfl, iff_of_true ?_ (fitsWidth_of_ne (by decide) (by decide) cpu)⟩
  exact congrArg (fun f : Mirrors => f.pack.setWidth 16) (Mirrors.unpack_pack cpu.mirrors)

theorem restores_db (hlow : cpu.S.toNat < 0x2000) (mF xF : Option Bool) :
    RestoresReg .db cpu (emitPullReg (cpuBus cart io) .db mF xF
      (emitPushReg (cpuBus cart io) .db mF xF ⟨cpu, m, vals⟩)).cpu := by
  simp only [emitPushReg, emitPullReg, popByte_pushByte cart io cpu m vals hlow]
  exact ⟨rfl, iff_of_true rfl (fitsWidth_of_ne (by decide) (by decide) cpu)⟩

theorem restores_d (hlow : ∀ a ∈ pushSlots false cpu.S, a.toNat < 0x2000) (mF xF : Option Bool) :
    RestoresReg .d cpu (emitPullReg (cpuBus cart io) .d mF xF
      (emitPushReg (cpuBus cart io) .d mF xF ⟨cpu, m, vals⟩)).cpu := by
  obtain ⟨m', h⟩ := (pull_pushWide cart io m vals hlow cpu.D).2 rfl
  have h : popWord (cpuBus cart io) (Recompiler.pushWord (cpuBus cart io) cpu.D ⟨cpu, m, vals⟩) =
    (cpu.D, ⟨cpu, m', vals⟩) := h
  simp only [emitPushReg, emitPullReg, h]
  exact ⟨rfl, iff_of_true rfl (fitsWidth_of_ne (by decide) (by decide) cpu)⟩

theorem emitPushReg_keepsMode (bus : Bus M) (reg : Reg) (mF xF : Option Bool) (s : EmitState M) :
    KeepsMode s.cpu (emitPushReg bus reg mF xF s).cpu := by
  cases reg with
  | a => exact pushWide_cpu bus _ _ s
  | x => exact pushWide_cpu bus _ _ s
  | y => exact pushWide_cpu bus _ _ s
  | _ => exact ⟨rfl, rfl, rfl⟩

theorem matchingReg_cases {push pull : Mnem} {reg : Reg} (h : matchingReg push pull = some reg) :
    push = .pha ∧ pull = .pla ∧ reg = .a ∨ push = .phx ∧ pull = .plx ∧ reg = .x ∨
      push = .phy ∧ pull = .ply ∧ reg = .y ∨ push = .php ∧ pull = .plp ∧ reg = .p ∨
      push = .phb ∧ pull = .plb ∧ reg = .db ∨ push = .phd ∧ pull = .pld ∧ reg = .d := by
  unfold matchingReg at h
  split at h <;> cases h <;> simp

/-- The emitted lines of a push and of its pull. -/
theorem compiled_of_matching {bus : Bus M} {push pull : Insn × Value} {reg : Reg} {s : Tandem M}
    (hmatch : matchingReg push.1.mnem pull.1.mnem = some reg) (hpush : StackStep bus push s)
    (hpull : StackStep bus pull (tandemStep bus push s)) :
    (tandemStep bus pull (tandemStep bus push s)).compiled =
      emitPullReg bus reg (some s.compiled.cpu.mFlag) (some s.compiled.cpu.xFlag)
        (emitPushReg bus reg (some s.compiled.cpu.mFlag) (some s.compiled.cpu.xFlag) s.compiled) := by
  have hlower : lower push.1 push.2 = pushHandler reg push.1 ∧
      lower pull.1 pull.2 = pullHandler reg pull.1 := by
    rcases matchingReg_cases hmatch with ⟨h1, h2, rfl⟩ | ⟨h1, h2, rfl⟩ | ⟨h1, h2, rfl⟩ | ⟨h1, h2, rfl⟩ |
      ⟨h1, h2, rfl⟩ | ⟨h1, h2, rfl⟩ <;> exact ⟨by rw [lower, h1], by rw [lower, h2]⟩
  have hfirst : (tandemStep bus push s).compiled =
      emitPushReg bus reg (some s.compiled.cpu.mFlag) (some s.compiled.cpu.xFlag) s.compiled := by
    simp only [tandemStep, hlower.1, pushHandler, hpush.m_eq, hpush.x_eq]
    rfl
  obtain ⟨hm, hx, -⟩ := emitPushReg_keepsMode bus reg (some s.compiled.cpu.mFlag)
    (some s.compiled.cpu.xFlag) s.compiled
  have hpm := hpull.m_eq
  have hpx := hpull.x_eq
  rw [hfirst, hm] at hpm
  rw [hfirst, hx] at hpx
  rw [← hfirst]
  show execOps bus ((lower pull.1 pull.2).getD []) (tandemStep bus push s).compiled = _
  rw [hlower.2, pullHandler, hpm, hpx]
  rfl

theorem restoresReg_of_matching {push pull : Insn × Value} {reg : Reg} {s : Tandem (Mem H)}
    (hmatch : matchingReg push.1.mnem pull.1.mnem = some reg) (hpush : StackStep (cpuBus cart io) push s)
    (hpull : StackStep (cpuBus cart io) pull (tandemStep (cpuBus cart io) push s)) :
    RestoresReg reg s.compiled.cpu
      (tandemStep (cpuBus cart io) pull (tandemStep (cpuBus cart io) push s)).compiled.cpu := by
  have hlow := hpush.low
  rw [compiled_of_matching hmatch hpush hpull]
  rcases matchingReg_cases hmatch with ⟨h, -, rfl⟩ | ⟨h, -, rfl⟩ | ⟨h, -, rfl⟩ | ⟨h, -, rfl⟩ |
    ⟨h, -, rfl⟩ | ⟨h, -, rfl⟩ <;> rw [h] at hlow
  · exact restores_a hlow _
  · exact restores_index .x hlow _
  · exact restores_index .y hlow _
  · exact restores_p (hlow s.compiled.cpu.S (by simp [stackSlots, pushSlots])) _ _
  · exact restores_db (hlow s.compiled.cpu.S (by simp [stackSlots, pushSlots])) _ _
  · exact restores_d hlow _ _

end Restore

/-! ### Runs -/

/-- What a run of stack instructions has to leave: the tiers in step, `P` and its mirrors
coherent behind `PLP`, and behind a push and its pull `S` and the register. -/
structure StackAgrees (bus : Bus M) (insns : List (Insn × Value)) (s : Tandem M) : Prop where
  inStep : InStep (final (tandemStep bus) insns s)
  coherent : ∀ before pull, insns = before ++ [pull] → pull.1.mnem = .plp →
    (final (tandemStep bus) insns s).compiled.cpu.Coherent
  restores : ∀ before push pull reg, insns = before ++ [push, pull] →
    matchingReg push.1.mnem pull.1.mnem = some reg →
    RestoresReg reg (final (tandemStep bus) before s).compiled.cpu
      (final (tandemStep bus) insns s).compiled.cpu

theorem coherent_plp {bus : Bus M} {l : Insn × Value} (h : l.1.mnem = .plp) (s : Tandem M) :
    (tandemStep bus l s).compiled.cpu.Coherent := by
  have hlower : lower l.1 l.2 = pullHandler .p l.1 := by rw [lower, h]
  show (execOps bus ((lower l.1 l.2).getD []) s.compiled).cpu.Coherent
  rw [hlower]
  exact coherent_cpuPToMirrors _

/-- **Stack instructions agree.**  In a run of stack instructions, executed as they were
decoded and each in a state `StackAlike` allows, every prefix leaves the tiers in step, with
`P` and its mirrors coherent behind `PLP`, and a pull behind its push restores `S` and the
register (an 8-bit index register, if it had no high byte). -/
theorem stackRun_agrees (cart : Cart) (io : RegIo H) (insns : List (Insn × Value)) (s : Tandem (Mem H))
    (hs : InTandem s)
    (h : StepsMeet (tandemStep (cpuBus cart io)) (StackStep (cpuBus cart io)) insns s)
    (halike : StepsMeet (tandemStep (cpuBus cart io)) (StackAlike cart io) insns s) :
    ∀ run, run <+: insns → StackAgrees (cpuBus cart io) run s := by
  rintro run ⟨rest, rfl⟩
  have hrun := ((stepsMeet_append _ run rest s).mp h).1
  have hrunAlike := ((stepsMeet_append _ run rest s).mp halike).1
  refine ⟨(inTandem_run hs hrun hrunAlike).inStep, ?_, ?_⟩
  · rintro before pull rfl hplp
    rw [final_append]
    exact coherent_plp hplp _
  · rintro before push pull reg rfl hmatch
    obtain ⟨hpush, hpull, -⟩ := ((stepsMeet_append _ before [push, pull] s).mp hrun).2
    rw [final_append]
    exact restoresReg_of_matching hmatch hpush hpull

/-- Both tiers at `$8000` in native mode, with a byte for the next pull. -/
def tandemPulling (code : List Byte) (pulled : Byte) (cpu : CpuState) : Tandem (Mem Unit) where
  compiled := ⟨cpu, (romMem fun n => code.getD n 0).setRam 0x200 pulled, fun _ => 0⟩
  interp :=
    { interpOf cpu ((romMem fun n => code.getD n 0).setRam 0x200 pulled) with pc := 0x8000 }

theorem inTandem_tandemPulling (code : List Byte) (pulled : Byte) {cpu : CpuState}
    (he : cpu.emulation = false) : InTandem (tandemPulling code pulled cpu) :=
  ⟨rfl, he, rfl, rfl, rfl⟩

/-- `PLP`, decoded in the widths `m` and `x`. -/
def plpInsns (m x : Bool) : List (Insn × Value) :=
  [(⟨0x8000, 0x28, .plp, .imp, 0, 1, m, x, false, none⟩, 0)]

theorem stackStep_plp (m x : Bool) (pulled : Byte) {cpu : CpuState} (hS : cpu.S = 0x01FF)
    (hPB : cpu.PB = 0) (hm : m = cpu.mFlag) (hx : x = cpu.xFlag) :
    StepsMeet (tandemStep (cpuBus romOnlyCart silentIo)) (StackStep (cpuBus romOnlyCart silentIo))
      (plpInsns m x) (tandemPulling [0x28] pulled cpu) := by
  refine ⟨⟨rfl, ⟨.ofBytes [0x28], 0, 0x8000, 0, rfl, rfl, fun n hn => ?_⟩, hm, hx, ?_⟩, trivial⟩
  · obtain rfl : n = 0 := Nat.lt_one_iff.mp hn
    show (cpuBus romOnlyCart silentIo).read8 cpu.PB 0x8000
      ((romMem fun n => ([0x28] : List Byte).getD n 0).setRam 0x200 pulled) = _
    rw [hPB]
    rfl
  · intro a ha
    have ha : a = cpu.S + 1 := by simpa [stackSlots, pullSlots, tandemPulling] using ha
    rw [ha, hS]
    decide

/-- An instruction of one byte, decoded with narrow registers. -/
def narrowInsn (n : Nat) (opcode : Byte) (mnem : Mnem) : Insn × Value :=
  (⟨0x8000 + n, opcode, mnem, .imp, 0, 1, true, true, false, none⟩, 0)

/-- `PHA; PHX; PLX; PLP`. -/
def nestedInsns : List (Insn × Value) :=
  [narrowInsn 0 0x48 .pha, narrowInsn 1 0xDA .phx, narrowInsn 2 0xFA .plx, narrowInsn 3 0x28 .plp]

def nestedCode : List Byte := [0x48, 0xDA, 0xFA, 0x28]

/-- The compiled side with the given `S` and the values that were pushed; `A` holds the flags for the
`PLP`. -/
def saving (S : Word) (pushed : List (Nat × Byte)) : EmitState (Mem Unit) :=
  ⟨{ cpuStateInit with emulation := false, A := 0x1231, X := 0x56, S := S },
    pushed.foldl (fun m p => m.setRam p.1 p.2) (romMem fun n => nestedCode.getD n 0), fun _ => 0⟩

/-- In step at byte `n` of the code, with this compiled side. -/
structure SavingAt (n : Nat) (e : EmitState (Mem Unit)) (s : Tandem (Mem Unit)) : Prop where
  tandem : InTandem s
  pc : s.interp.pc = BitVec.ofNat 16 (0x8000 + n)
  compiled : s.compiled = e

/-- A stack that keeps off both ends of low WRAM is in it whatever is pushed or pulled. -/
theorem lowStack_of_lt {mnem : Mnem} {cpu : CpuState} (hpos : 1 ≤ cpu.S.toNat)
    (hlt : cpu.S.toNat < 0x1FFE) : LowStack mnem cpu := by
  have hone : (1 : Word).toNat = 1 := rfl
  have hpush : ∀ byte, ∀ a ∈ pushSlots byte cpu.S, a.toNat < 0x2000 := by
    intro byte a ha
    cases byte <;> simp only [pushSlots, Bool.false_eq_true, if_true, if_false, List.mem_cons,
      List.not_mem_nil, or_false] at ha
    · rcases ha with rfl | rfl
      · omega
      · rw [BitVec.toNat_sub, hone]
        omega
    · subst ha
      omega
  have hpull : ∀ byte, ∀ a ∈ pullSlots byte cpu.S, a.toNat < 0x2000 := by
    intro byte a ha
    cases byte <;> simp only [pullSlots, Bool.false_eq_true, if_true, if_false, List.mem_cons,
      List.not_mem_nil, or_false] at ha
    · rcases ha with rfl | rfl
      · rw [BitVec.toNat_add, hone]
        omega
      · rw [BitVec.toNat_add, BitVec.toNat_add, hone]
        omega
    · subst ha
      rw [BitVec.toNat_add, hone]
      omega
  intro a ha
  unfold stackSlots at ha
  split at ha <;> first | exact hpush _ a ha | exact hpull _ a ha | cases ha

/-- One instruction of the code, with what the compiled side decides. -/
theorem savingAt_step (opcode : Byte) (mnem : Mnem) {n : Nat} {e : EmitState (Mem Unit)}
    (e' : EmitState (Mem Unit)) {s : Tandem (Mem Unit)} (h : SavingAt n e s)
    (hrow : (stackRow mnem).isSome)
    (hdec : decodeInsn (.ofBytes nestedCode) n (0x8000 + n) 0 true true = some (narrowInsn n opcode mnem).1)
    (hread : (cpuBus romOnlyCart silentIo).read8 e.cpu.PB (BitVec.ofNat 16 (0x8000 + n) + 0) e.mem =
      (Rom.byte (.ofBytes nestedCode) n, e.mem))
    (hm : e.cpu.mFlag = true) (hx : e.cpu.xFlag = true)
    (hlow : 1 ≤ e.cpu.S.toNat ∧ e.cpu.S.toNat < 0x1FFE)
    (halike : ∀ i, StackAlike romOnlyCart silentIo (narrowInsn n opcode mnem) ⟨e, i⟩)
    (hnext : execOps (cpuBus romOnlyCart silentIo) ((lower (narrowInsn n opcode mnem).1 0).getD []) e = e') :
    let l := narrowInsn n opcode mnem
    StackStep (cpuBus romOnlyCart silentIo) l s ∧ StackAlike romOnlyCart silentIo l s ∧
      SavingAt (n + 1) e' (tandemStep (cpuBus romOnlyCart silentIo) l s) := by
  intro l
  obtain ⟨hs, hpc, rfl⟩ := h
  have hk : s.interp.k = s.compiled.cpu.PB := congrArg Interp816.k hs.inStep
  have hmem : s.interp.mem = s.compiled.mem := congrArg Interp816.mem hs.inStep
  have hstep : StackStep (cpuBus romOnlyCart silentIo) l s := by
    refine ⟨hrow, ⟨_, n, _, 0, hdec, hpc, fun k hlt => ?_⟩, hm.symm, hx.symm, lowStack_of_lt hlow.1 hlow.2⟩
    obtain rfl : k = 0 := Nat.lt_one_iff.mp hlt
    rw [hk, hmem, hpc]
    exact hread
  obtain ⟨raw, cpu', m', hcode, hpos, hsame, _⟩ := sameStep_of_stackStep hs hstep (halike s.interp)
  obtain ⟨_, _, hinterp⟩ := tandemStep_of_fetched hs.inStep hs.running hcode hpos hsame
  have hpc' : (tandemStep (cpuBus romOnlyCart silentIo) l s).interp.pc = s.interp.pc + 1 := by
    rw [hinterp]
    rfl
  refine ⟨hstep, halike s.interp, inTandem_step hs hstep (halike s.interp), ?_, hnext⟩
  rw [hpc', hpc, ← Nat.add_assoc, BitVec.ofNat_add (0x8000 + n) 1]
  rfl

theorem stepsMeet_saving {s : Tandem (Mem Unit)} (h : SavingAt 0 (saving 0x1FF []) s) :
    StepsMeet (tandemStep (cpuBus romOnlyCart silentIo)) (StackStep (cpuBus romOnlyCart silentIo))
        nestedInsns s ∧
      StepsMeet (tandemStep (cpuBus romOnlyCart silentIo)) (StackAlike romOnlyCart silentIo) nestedInsns s := by
  obtain ⟨hpha, hpha', h⟩ := savingAt_step 0x48 .pha (saving 0x1FE [(0x1FF, 0x31)]) h rfl rfl rfl rfl
    rfl (by decide) (fun _ => trivial) rfl
  obtain ⟨hphx, hphx', h⟩ := savingAt_step 0xDA .phx (saving 0x1FD [(0x1FF, 0x31), (0x1FE, 0x56)]) h
    rfl rfl rfl rfl rfl (by decide) (fun _ => trivial) rfl
  obtain ⟨hplx, hplx', h⟩ := savingAt_step 0xFA .plx (saving 0x1FE [(0x1FF, 0x31), (0x1FE, 0x56)]) h
    rfl rfl rfl rfl rfl (by decide) (fun _ => trivial) rfl
  have hnarrow : Narrow (saving 0x1FE [(0x1FF, 0x31), (0x1FE, 0x56)]).cpu := ⟨by decide, by decide⟩
  obtain ⟨hplp, hplp', h⟩ := savingAt_step 0x28 .plp _ h rfl rfl rfl rfl rfl (by decide)
    (fun _ _ => hnarrow) rfl
  exact ⟨⟨hpha, hphx, hplx, hplp, trivial⟩, hpha', hphx', hplx', hplp', trivial⟩

/-- Both tiers at the start of the code. -/
def savingStart : Tandem (Mem Unit) :=
  ⟨saving 0x1FF [], { interpOf (saving 0x1FF []).cpu (saving 0x1FF []).mem with pc := 0x8000 }⟩

theorem savingAt_start : SavingAt 0 (saving 0x1FF []) savingStart := ⟨⟨rfl, rfl, rfl, rfl, rfl⟩, rfl, rfl⟩

/-- The push of `X` and its pull stand between the push of `A` and the pull of it as `P`. -/
theorem stackRun_agrees_save : StackAgrees (cpuBus romOnlyCart silentIo) (nestedInsns.take 3) savingStart ∧
    StackAgrees (cpuBus romOnlyCart silentIo) nestedInsns savingStart := by
  obtain ⟨hstep, halike⟩ := stepsMeet_saving savingAt_start
  have hagrees := stackRun_agrees romOnlyCart silentIo nestedInsns savingStart savingAt_start.tandem hstep halike
  exact ⟨hagrees _ (List.take_prefix 3 nestedInsns), hagrees _ (List.prefix_refl nestedInsns)⟩

/-- `PLP` of `$30` with `X = $0100`: the interpreter clears the high byte of `X`, the compiled
code does not. -/
theorem not_stackRun_agrees_plp :
    let bus := cpuBus romOnlyCart silentIo
    let s := tandemPulling [0x28] 0x30 wideX
    InTandem s ∧ StepsMeet (tandemStep bus) (StackStep bus) (plpInsns true false) s ∧
      ¬ StackAgrees bus (plpInsns true false) s := by
  refine ⟨inTandem_tandemPulling [0x28] 0x30 (show wideX.emulation = false from rfl),
    stackStep_plp true false 0x30 rfl rfl rfl rfl, fun h => ?_⟩
  exact absurd (congrArg Interp816.x h.inStep) (by decide)

end SnesRecomp.Tiers
