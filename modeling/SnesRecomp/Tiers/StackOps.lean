import SnesRecomp.Tiers.DataMovement
import SnesRecomp.Tiers.ScannedCode

/-!
# The stack instructions of the two tiers

The emitted lines move a word with one access of `cpu_read16` or `cpu_write16` between two
steps of `S`; the interpreter moves it in two bytes, the high one first on a push.  In low
WRAM the two are one (`pushWord_agrees`, `pullWord_agrees`).

The emitted lines and the interpreter then do the same (`SameStep`), with three exceptions:

* `PLP` of a byte with the `X` bit clears the high bytes of `X` and `Y` in the interpreter
  only;
* `PEA $C2AE` clears `Y` in the interpreter only;
* `PEI` reads its word with `cpu_read16` in one tier and byte by byte in the other.
-/

namespace SnesRecomp.Tiers

open Recompiler Interp816

variable {M H : Type}

/-! ### Low WRAM -/

section LowRam

variable (cart : Cart) (io : RegIo H) {a : Word}

theorem cpuRamOffset_low (h : a.toNat < 0x2000) : cpuRamOffset 0x00 a = some a.toNat :=
  cpuRamOffset_eq_some.mpr (Or.inr (Or.inr ⟨by decide, h, rfl⟩))

theorem read8_low (h : a.toNat < 0x2000) (m : Mem H) :
    (cpuBus cart io).read8 0x00 a m = (m.ram a.toNat, m) := by
  show cpuRead8 cart io 0x00 a m = _
  simp only [cpuRead8, cpuRamOffset_low h]

theorem write8_low (h : a.toNat < 0x2000) (v : Byte) (m : Mem H) :
    (cpuBus cart io).write8 0x00 a v m = m.setRam a.toNat v := by
  show cpuWrite8 cart io 0x00 a v m = _
  simp only [cpuWrite8, cpuRamOffset_low h]

theorem read16_low (h : a.toNat < 0x2000) (m : Mem H) :
    (cpuBus cart io).read16 0x00 a m = (mkWord (m.ram a.toNat) (m.ram (a.toNat + 1)), m) := by
  show cpuRead16 cart io 0x00 a m = _
  simp only [cpuRead16, cpuRamOffset_low h]
  exact if_pos (by omega)

theorem write16_low (h : a.toNat < 0x2000) (v : Word) (m : Mem H) :
    (cpuBus cart io).write16 0x00 a v m =
      (m.setRam a.toNat (loByte v)).setRam (a.toNat + 1) (hiByte v) := by
  show cpuWrite16 cart io 0x00 a v m = _
  simp only [cpuWrite16, cpuRamOffset_low h]
  exact if_pos (by omega)

theorem setRam_comm {a b : Nat} (h : a ≠ b) (v w : Byte) (m : Mem H) :
    (m.setRam a v).setRam b w = (m.setRam b w).setRam a v := by
  simp only [Mem.setRam, Function.update_comm h.symm]

theorem setRam_ram_self (a : Nat) (v : Byte) (m : Mem H) : (m.setRam a v).ram a = v := by
  simp only [Mem.setRam, Function.update_self]

theorem setRam_ram_of_ne {a b : Nat} (h : b ≠ a) (v : Byte) (m : Mem H) :
    (m.setRam a v).ram b = m.ram b := by
  simp only [Mem.setRam, Function.update_of_ne h]

end LowRam

/-! ### Bytes and words on the stack -/

section Stack

variable {bus : Bus M} {cpu : CpuState} {i : Interp816 M} {m : M} {vals : Value → Word}

/-- The interpreter with the registers and the memory of an emitted state. -/
def interpAs (s : EmitState M) (i : Interp816 M) : Interp816 M := interpWith s.cpu i s.mem

theorem wrapSp_native (he : cpu.emulation = false) (sp : Word) :
    wrapSp (interpWith cpu i m) sp = sp :=
  if_neg (by rw [show (interpWith cpu i m).e = cpu.emulation from rfl, he]; decide)

theorem pushByte_agrees (bus : Bus M) (he : cpu.emulation = false) (v : Byte) (i : Interp816 M)
    (m : M) (vals : Value → Word) :
    Interp816.pushByte (bridgeBus bus) v (interpWith cpu i m) =
      interpAs (Recompiler.pushByte bus v ⟨cpu, m, vals⟩) i := by
  have hsp : (interpWith cpu i m).sp = cpu.S := rfl
  have hwrite : Interp816.write (bridgeBus bus) (cpu.S.setWidth 32) v (interpWith cpu i m) =
      interpWith cpu i (bus.write8 0x00 cpu.S v m) := by
    rw [Interp816.write, bridgeBus_write, splitAddr_setWidth]
    rfl
  rw [Interp816.pushByte, hsp, hwrite, wrapSp_native he]
  rfl

theorem pullByte_agrees (bus : Bus M) (he : cpu.emulation = false) (i : Interp816 M) (m : M)
    (vals : Value → Word) :
    Interp816.pullByte (bridgeBus bus) (interpWith cpu i m) =
      ((popByte bus ⟨cpu, m, vals⟩).1, interpAs (popByte bus ⟨cpu, m, vals⟩).2 i) := by
  have hsp : (interpWith cpu i m).sp = cpu.S := rfl
  rw [Interp816.pullByte, hsp, wrapSp_native he]
  show Interp816.read (bridgeBus bus) ((cpu.S + 1).setWidth 32)
    (interpWith { cpu with S := cpu.S + 1 } i m) = _
  rw [Interp816.read, bridgeBus_read, splitAddr_setWidth]
  rfl

end Stack

section Words

variable {cart : Cart} {io : RegIo H} {cpu : CpuState} {i : Interp816 (Mem H)} {m : Mem H}
  {vals : Value → Word}

theorem toNat_sub_one {a : Word} (h : (a - 1).toNat < 0x2000) (ha : a.toNat < 0x2000) :
    a.toNat = (a - 1).toNat + 1 := by
  bv_omega

theorem pushWord_agrees (he : cpu.emulation = false) (hhigh : cpu.S.toNat < 0x2000)
    (hlow : (cpu.S - 1).toNat < 0x2000) (v : Word) (i : Interp816 (Mem H)) (m : Mem H)
    (vals : Value → Word) :
    Interp816.pushWord (bridgeBus (cpuBus cart io)) v (interpWith cpu i m) =
      interpAs (Recompiler.pushWord (cpuBus cart io) v ⟨cpu, m, vals⟩) i := by
  have hone := toNat_sub_one hlow hhigh
  have hmem : (cpuBus cart io).write8 0x00 (cpu.S - 1) (loByte v)
        ((cpuBus cart io).write8 0x00 cpu.S (hiByte v) m) =
      (cpuBus cart io).write16 0x00 (cpu.S - 1) v m := by
    rw [write8_low cart io hhigh, write8_low cart io hlow, write16_low cart io hlow, hone,
      setRam_comm (by omega)]
  rw [Interp816.pushWord, pushByte_agrees _ he _ _ _ vals]
  show Interp816.pushByte _ _ (interpWith { cpu with S := cpu.S - 1 } i _) = _
  rw [pushByte_agrees _ (show ({ cpu with S := cpu.S - 1 } : CpuState).emulation = false from he) _ _ _
    vals]
  exact congrArg (interpWith { cpu with S := cpu.S - 1 - 1 } i) hmem

theorem pullWord_agrees (he : cpu.emulation = false) (hlow : (cpu.S + 1).toNat < 0x2000)
    (hhigh : (cpu.S + 1 + 1).toNat < 0x2000) (i : Interp816 (Mem H)) (m : Mem H)
    (vals : Value → Word) :
    Interp816.pullWord (bridgeBus (cpuBus cart io)) (interpWith cpu i m) =
      ((popWord (cpuBus cart io) ⟨cpu, m, vals⟩).1,
        interpAs (popWord (cpuBus cart io) ⟨cpu, m, vals⟩).2 i) := by
  have hone : (cpu.S + 1 + 1).toNat = (cpu.S + 1).toNat + 1 := toNat_add_one (by omega)
  rw [Interp816.pullWord, pullByte_agrees _ he _ _ vals]
  show (mkWord _ (Interp816.pullByte _ (interpWith { cpu with S := cpu.S + 1 } i _)).1,
    (Interp816.pullByte _ (interpWith { cpu with S := cpu.S + 1 } i _)).2) = _
  rw [pullByte_agrees _ (show ({ cpu with S := cpu.S + 1 } : CpuState).emulation = false from he) _ _
    vals]
  simp only [popByte, popWord, interpAs, read8_low cart io hlow, read8_low cart io hhigh,
    read16_low cart io hlow, hone]

end Words

/-! ### The instructions -/

/-- The operation and the length of a stack instruction. -/
def stackRow : Mnem → Option (Op × Nat)
  | .pha => some (.pha, 1)
  | .phx => some (.phx, 1)
  | .phy => some (.phy, 1)
  | .php => some (.php, 1)
  | .phb => some (.phb, 1)
  | .phk => some (.phk, 1)
  | .phd => some (.phd, 1)
  | .pea => some (.pea, 3)
  | .pei => some (.pei, 2)
  | .per => some (.per, 3)
  | .pla => some (.pla, 1)
  | .plx => some (.plx, 1)
  | .ply => some (.ply, 1)
  | .plp => some (.plp, 1)
  | .plb => some (.plb, 1)
  | .pld => some (.pld, 1)
  | _ => none

theorem stackRow_all : ∀ opcode : Byte, ∀ r ∈ stackRow (opcodeRow opcode).mnem,
    opOf opcode = r.1 ∧ (opcodeRow opcode).len = .fixed r.2 := by decide +kernel

theorem stackRow_of_decodeInsn {rom : Rom} {offset pc bank : Nat} {mF xF : Bool} {insn : Insn}
    (hdec : decodeInsn rom offset pc bank mF xF = some insn) {op : Op} {len : Nat}
    (hrow : stackRow insn.mnem = some (op, len)) :
    opOf insn.opcode = op ∧ insn.length = len := by
  obtain ⟨hmnem, -, hlen, -⟩ := row_of_decodeInsn hdec
  rw [hmnem] at hrow
  obtain ⟨hop, hfixed⟩ := stackRow_all insn.opcode _ hrow
  refine ⟨hop, ?_⟩
  rw [hlen, hfixed]
  rfl

/-- The pushes of a register. -/
def pushRegs : List Mnem := [.pha, .phx, .phy, .php, .phb, .phk, .phd]

/-- The pulls of a register. -/
def pullRegs : List Mnem := [.pla, .plx, .ply, .plp, .plb, .pld]

theorem stackRow_cases {mnem : Mnem} {op : Op} {len : Nat} (h : stackRow mnem = some (op, len)) :
    mnem ∈ pushRegs ∧ len = 1 ∨ mnem ∈ pullRegs ∧ len = 1 ∨ mnem = .pea ∧ op = .pea ∧ len = 3 ∨
      mnem = .pei ∧ op = .pei ∧ len = 2 ∨ mnem = .per ∧ op = .per ∧ len = 3 := by
  cases mnem <;> cases h <;> decide

/-- The addresses a push writes. -/
def pushSlots (byte : Bool) (sp : Word) : List Word := if byte then [sp] else [sp, sp - 1]

/-- The addresses a pull reads. -/
def pullSlots (byte : Bool) (sp : Word) : List Word := if byte then [sp + 1] else [sp + 1, sp + 1 + 1]

/-- The addresses of the stack an instruction uses. -/
def stackSlots (mnem : Mnem) (cpu : CpuState) : List Word :=
  match mnem with
  | .pha => pushSlots cpu.mFlag cpu.S
  | .phx | .phy => pushSlots cpu.xFlag cpu.S
  | .php | .phb | .phk => pushSlots true cpu.S
  | .phd | .pea | .pei | .per => pushSlots false cpu.S
  | .pla => pullSlots cpu.mFlag cpu.S
  | .plx | .ply => pullSlots cpu.xFlag cpu.S
  | .plp | .plb => pullSlots true cpu.S
  | .pld => pullSlots false cpu.S
  | _ => []

/-- The stack is in low WRAM where an instruction uses it. -/
def LowStack (mnem : Mnem) (cpu : CpuState) : Prop := ∀ a ∈ stackSlots mnem cpu, a.toNat < 0x2000

instance (mnem : Mnem) (cpu : CpuState) : Decidable (LowStack mnem cpu) :=
  inferInstanceAs (Decidable (∀ a ∈ stackSlots mnem cpu, a.toNat < 0x2000))

section Push

variable {cart : Cart} {io : RegIo H} {insn : Insn} {vid : Value} {cpu : CpuState}
  {i : Interp816 (Mem H)} {m : Mem H} {vals : Value → Word}

theorem push_agrees (byte : Bool) (v : Word) (he : cpu.emulation = false)
    (hlow : ∀ a ∈ pushSlots byte cpu.S, a.toNat < 0x2000) (i : Interp816 (Mem H)) (m : Mem H)
    (vals : Value → Word) :
    Interp816.pushReg (bridgeBus (cpuBus cart io)) byte v (interpWith cpu i m) =
      interpAs (pushWide (cpuBus cart io) byte v ⟨cpu, m, vals⟩) i := by
  cases byte with
  | true => exact pushByte_agrees _ he _ i m vals
  | false =>
    exact pushWord_agrees he (hlow cpu.S (by simp [pushSlots])) (hlow (cpu.S - 1) (by simp [pushSlots]))
      v i m vals

/-- A push changes `S` and memory. -/
theorem pushWide_cpu (bus : Bus M) (byte : Bool) (v : Word) (s : EmitState M) :
    KeepsMode s.cpu (pushWide bus byte v s).cpu := by
  cases byte <;> exact ⟨rfl, rfl, rfl⟩

/-- An instruction of one byte with one emitted operation. -/
theorem sameStep_stack {bus : Bus M} {cpu : CpuState} {i : Interp816 M} {m : M} (irop : IROp) {op : Op}
    (hop : opOf insn.opcode = op) (hlen : insn.length = 1) (hlower : lower insn vid = some [irop])
    (hexec : exec (bridgeBus bus) op (interpWith cpu (advance i 1) m) =
      interpAs (execOp bus irop ⟨cpu, m, vals⟩) (advance i 1)) :
    SameStep bus insn vid cpu i m vals (execOp bus irop ⟨cpu, m, vals⟩).cpu
      (execOp bus irop ⟨cpu, m, vals⟩).mem :=
  ⟨[irop], hlower, rfl, rfl, by rw [hop, hlen, hexec]; rfl⟩

theorem sameStep_push (cart : Cart) (io : RegIo H) {op : Op} (hop : opOf insn.opcode = op) (hlen : insn.length = 1)
    (hrow : stackRow insn.mnem = some (op, 1))
    (hpush : insn.mnem ∈ pushRegs) (hm : insn.mFlag = cpu.mFlag)
    (hx : insn.xFlag = cpu.xFlag) (he : cpu.emulation = false) (hlow : LowStack insn.mnem cpu) :
    ∃ cpu' m', SameStep (cpuBus cart io) insn vid cpu i m vals cpu' m' ∧ cpu'.emulation = false := by
  have hlower : ∀ reg, pushHandler reg insn = some [.pushReg reg (some cpu.mFlag) (some cpu.xFlag)] := by
    intro reg
    rw [pushHandler, hm, hx]
  have hmode : ∀ byte v, (pushWide (cpuBus cart io) byte v ⟨cpu, m, vals⟩).cpu.emulation = false :=
    fun byte v => (pushWide_cpu _ byte v _).2.2.trans he
  cases hmnem : insn.mnem <;> rw [hmnem] at hrow hpush hlow <;> try cases hrow
  case pha =>
    exact ⟨_, _, sameStep_stack (.pushReg .a (some cpu.mFlag) (some cpu.xFlag)) hop hlen
      (by rw [lower, hmnem]; exact hlower .a)
      (push_agrees cpu.mFlag cpu.A he hlow _ m vals), hmode _ _⟩
  case phx =>
    exact ⟨_, _, sameStep_stack (.pushReg .x (some cpu.mFlag) (some cpu.xFlag)) hop hlen
      (by rw [lower, hmnem]; exact hlower .x)
      (push_agrees cpu.xFlag cpu.X he hlow _ m vals), hmode _ _⟩
  case phy =>
    exact ⟨_, _, sameStep_stack (.pushReg .y (some cpu.mFlag) (some cpu.xFlag)) hop hlen
      (by rw [lower, hmnem]; exact hlower .y)
      (push_agrees cpu.xFlag cpu.Y he hlow _ m vals), hmode _ _⟩
  case php =>
    refine ⟨_, _, sameStep_stack (.pushReg .p (some cpu.mFlag) (some cpu.xFlag)) hop hlen
      (by rw [lower, hmnem]; exact hlower .p) ?_, he⟩
    rw [exec, getFlags_interpWith]
    exact pushByte_agrees _ he _ _ m vals
  case phb =>
    exact ⟨_, _, sameStep_stack (.pushReg .db (some cpu.mFlag) (some cpu.xFlag)) hop hlen
      (by rw [lower, hmnem]; exact hlower .db)
      (pushByte_agrees _ he cpu.DB _ m vals), he⟩
  case phk =>
    exact ⟨_, _, sameStep_stack (.pushReg .pb (some cpu.mFlag) (some cpu.xFlag)) hop hlen
      (by rw [lower, hmnem]; exact hlower .pb)
      (pushByte_agrees _ he cpu.PB _ m vals), he⟩
  case phd =>
    exact ⟨_, _, sameStep_stack (.pushReg .d (some cpu.mFlag) (some cpu.xFlag)) hop hlen
      (by rw [lower, hmnem]; exact hlower .d)
      (push_agrees false cpu.D he hlow _ m vals), he⟩
  all_goals simp [pushRegs] at hpush

end Push

/-! Pulls. -/

section Pull

variable {cart : Cart} {io : RegIo H} {insn : Insn} {vid : Value} {cpu : CpuState}
  {i : Interp816 (Mem H)} {m : Mem H} {vals : Value → Word}

theorem pullWord_of_lowStack (he : cpu.emulation = false)
    (hlow : ∀ a ∈ pullSlots false cpu.S, a.toNat < 0x2000) (i : Interp816 (Mem H)) (m : Mem H)
    (vals : Value → Word) :
    Interp816.pullWord (bridgeBus (cpuBus cart io)) (interpWith cpu i m) =
      ((popWord (cpuBus cart io) ⟨cpu, m, vals⟩).1,
        interpAs (popWord (cpuBus cart io) ⟨cpu, m, vals⟩).2 i) :=
  pullWord_agrees he (hlow (cpu.S + 1) (by simp [pullSlots]))
    (hlow (cpu.S + 1 + 1) (by simp [pullSlots])) i m vals

theorem pla_agrees {byte : Bool} (xF : Option Bool) (hm : cpu.mFlag = byte) (he : cpu.emulation = false)
    (hlow : ∀ a ∈ pullSlots byte cpu.S, a.toNat < 0x2000) :
    pla (bridgeBus (cpuBus cart io)) (interpWith cpu i m) =
      interpAs (emitPullReg (cpuBus cart io) .a (some byte) xF ⟨cpu, m, vals⟩) i := by
  have hmf : (interpWith cpu i m).mf = byte := hm
  cases byte with
  | true =>
    simp only [pla, hmf, if_true, pullByte_agrees _ he _ _ vals]
    refine (congrArg (fun byte => setZN _ byte _) hm).trans ?_
    show setZN (withLow cpu.A _) true
      (interpWith { cpu with S := cpu.S + 1, A := withLow cpu.A _ } i _) = _
    exact (setNz_byte _ _ _ (loByte_withLow _ _)).symm
  | false =>
    simp only [pla, hmf, Bool.false_eq_true, if_false, pullWord_of_lowStack he hlow _ _ vals]
    refine (congrArg (fun byte => setZN _ byte _) hm).trans ?_
    show setZN _ false (interpWith { cpu with S := cpu.S + 1 + 1, A := _ } i _) = _
    exact (setNz_word _ _ _ _).symm

def plIndex : IdxReg → ByteBus M → Interp816 M → Interp816 M
  | .x => plx
  | .y => ply

theorem plIndex_agrees (r : IdxReg) {byte : Bool} (mF : Option Bool) (hx : cpu.xFlag = byte)
    (he : cpu.emulation = false) (hlow : ∀ a ∈ pullSlots byte cpu.S, a.toNat < 0x2000) :
    plIndex r (bridgeBus (cpuBus cart io)) (interpWith cpu i m) =
      interpAs (emitPullReg (cpuBus cart io) (indexReg r) mF (some byte) ⟨cpu, m, vals⟩) i := by
  have hxf : (interpWith cpu i m).xf = byte := hx
  have hpull : ∀ bb : ByteBus (Mem H), ∀ s, plIndex r bb s = setZN (Interp816.pullIndex bb s).1
      (Interp816.pullIndex bb s).2.xf
      (putIndex r (Interp816.pullIndex bb s).1 (Interp816.pullIndex bb s).2) := by
    intro bb s
    cases r <;> rfl
  rw [hpull, Interp816.pullIndex, hxf]
  cases byte with
  | true =>
    simp only [if_true, pullByte_agrees _ he _ _ vals]
    refine (congrArg (fun byte => setZN _ byte _) hx).trans ?_
    rw [interpAs, putIndex_interpWith]
    refine (setNz_byte _ i _ (loByte_setWidth _)).symm.trans ?_
    cases r <;> rfl
  | false =>
    simp only [Bool.false_eq_true, if_false, pullWord_of_lowStack he hlow _ _ vals]
    refine (congrArg (fun byte => setZN _ byte _) hx).trans ?_
    rw [interpAs, putIndex_interpWith]
    refine (setNz_word _ i _ _).symm.trans ?_
    cases r <;> rfl

theorem plb_agrees (mF xF : Option Bool) (he : cpu.emulation = false) :
    plb (bridgeBus (cpuBus cart io)) (interpWith cpu i m) =
      interpAs (emitPullReg (cpuBus cart io) .db mF xF ⟨cpu, m, vals⟩) i := by
  rw [plb, pullByte_agrees _ he _ _ vals]
  show setZN _ true (interpWith { cpu with S := cpu.S + 1, DB := _ } i _) = _
  exact (setNz_byte _ _ _ (loByte_setWidth _)).symm

theorem pld_agrees (mF xF : Option Bool) (he : cpu.emulation = false)
    (hlow : ∀ a ∈ pullSlots false cpu.S, a.toNat < 0x2000) :
    pld (bridgeBus (cpuBus cart io)) (interpWith cpu i m) =
      interpAs (emitPullReg (cpuBus cart io) .d mF xF ⟨cpu, m, vals⟩) i := by
  rw [pld, pullWord_of_lowStack he hlow _ _ vals]
  show setZN _ false (interpWith { cpu with S := cpu.S + 1 + 1, D := _ } i _) = _
  exact (setNz_word _ _ _ _).symm

/-- `PLP` agrees exactly when no high byte of `X` or `Y` has to be cleared. -/
theorem plp_agrees_iff (mF xF : Option Bool) (he : cpu.emulation = false) :
    plp (bridgeBus (cpuBus cart io)) (interpWith cpu i m) =
        interpAs (emitPullReg (cpuBus cart io) .p mF xF ⟨cpu, m, vals⟩) i ↔
      (hasBit (popByte (cpuBus cart io) ⟨cpu, m, vals⟩).1 cpuPX = true → Narrow cpu) := by
  rw [plp, pullByte_agrees _ he _ _ vals]
  show setFlags _ (interpWith { cpu with S := cpu.S + 1 } i _) = _ ↔ _
  rw [setFlags_interpWith (show ({ cpu with S := cpu.S + 1 } : CpuState).emulation = false from he)]
  exact clearIndexHigh_interpWith_iff _ _ _

theorem sameStep_pull {op : Op} (hop : opOf insn.opcode = op) (hlen : insn.length = 1)
    (hrow : stackRow insn.mnem = some (op, 1))
    (hpull : insn.mnem ∈ pullRegs) (hm : insn.mFlag = cpu.mFlag)
    (hx : insn.xFlag = cpu.xFlag) (he : cpu.emulation = false) (hlow : LowStack insn.mnem cpu)
    (hidx : insn.mnem = .plp →
      hasBit (popByte (cpuBus cart io) ⟨cpu, m, vals⟩).1 cpuPX = true → Narrow cpu) :
    ∃ cpu' m', SameStep (cpuBus cart io) insn vid cpu i m vals cpu' m' ∧ cpu'.emulation = false := by
  have hlower : ∀ reg, pullHandler reg insn = some [.pullReg reg (some cpu.mFlag) (some cpu.xFlag)] := by
    intro reg
    rw [pullHandler, hm, hx]
  cases hmnem : insn.mnem <;> rw [hmnem] at hrow hpull hlow <;> try cases hrow
  case pla =>
    refine ⟨_, _, sameStep_stack (.pullReg .a (some cpu.mFlag) (some cpu.xFlag)) hop hlen
      (by rw [lower, hmnem]; exact hlower .a) (pla_agrees (some cpu.xFlag) rfl he hlow), ?_⟩
    simp only [execOp, emitPullReg, Option.getD_some]
    split <;> exact he
  case plx =>
    refine ⟨_, _, sameStep_stack (.pullReg .x (some cpu.mFlag) (some cpu.xFlag)) hop hlen
      (by rw [lower, hmnem]; exact hlower .x) (plIndex_agrees .x (some cpu.mFlag) rfl he hlow), ?_⟩
    simp only [execOp, emitPullReg, Recompiler.pullIndex, Option.getD_some]
    split <;> exact he
  case ply =>
    refine ⟨_, _, sameStep_stack (.pullReg .y (some cpu.mFlag) (some cpu.xFlag)) hop hlen
      (by rw [lower, hmnem]; exact hlower .y) (plIndex_agrees .y (some cpu.mFlag) rfl he hlow), ?_⟩
    simp only [execOp, emitPullReg, Recompiler.pullIndex, Option.getD_some]
    split <;> exact he
  case plp =>
    exact ⟨_, _, sameStep_stack (.pullReg .p (some cpu.mFlag) (some cpu.xFlag)) hop hlen
      (by rw [lower, hmnem]; exact hlower .p)
      ((plp_agrees_iff (some cpu.mFlag) (some cpu.xFlag) he).mpr (hidx hmnem)), he⟩
  case plb =>
    exact ⟨_, _, sameStep_stack (.pullReg .db (some cpu.mFlag) (some cpu.xFlag)) hop hlen
      (by rw [lower, hmnem]; exact hlower .db) (plb_agrees (some cpu.mFlag) (some cpu.xFlag) he), he⟩
  case pld =>
    exact ⟨_, _, sameStep_stack (.pullReg .d (some cpu.mFlag) (some cpu.xFlag)) hop hlen
      (by rw [lower, hmnem]; exact hlower .d)
      (pld_agrees (some cpu.mFlag) (some cpu.xFlag) he hlow), he⟩
  all_goals simp [pullRegs] at hpull

end Pull

/-! `PEA`, `PEI` and `PER`. -/

/-- A word of bank zero that `cpu_read16` reads as its byte and the next one of the bank. -/
def SplitsAt (cart : Cart) (io : RegIo H) (a : Word) (m : Mem H) : Prop :=
  helperLocs cart (0, a) = (selected cart (0, a), selected cart (0, a + 1)) ∧
    (isHwReg 0 a = true → RegisterWordSplits io none a m)

theorem read16_of_splitsAt {cart : Cart} {io : RegIo H} {a : Word} {m : Mem H}
    (h : SplitsAt cart io a m) :
    (cpuBus cart io).read16 0x00 a m = bytePointer (cpuBus cart io) a m := by
  refine (cpuRead16_eq_helperLocs cart io (0, a) m h.2).trans ?_
  rw [h.1]
  simp only [bytePointer, cpuBus, cpuRead8_eq_readLoc]
  rfl

section EffectiveAddress

variable {cart : Cart} {io : RegIo H} {insn : Insn} {vid : Value} {cpu : CpuState}
  {i : Interp816 (Mem H)} {m : Mem H} {vals : Value → Word}

theorem pushWord_of_lowStack (he : cpu.emulation = false)
    (hlow : ∀ a ∈ pushSlots false cpu.S, a.toNat < 0x2000) (v : Word) (i : Interp816 (Mem H))
    (m : Mem H) (vals : Value → Word) :
    Interp816.pushWord (bridgeBus (cpuBus cart io)) v (interpWith cpu i m) =
      interpAs (Recompiler.pushWord (cpuBus cart io) v ⟨cpu, m, vals⟩) i :=
  push_agrees false v he hlow i m vals

theorem keepsY_of_imp {p : Prop} [Decidable p] {s : Interp816 M} (h : p → s.y = 0) :
    (if p then { s with y := 0 } else s) = s := by
  by_cases hp : p
  · rw [if_pos hp, ← h hp]
  · rw [if_neg hp]

theorem sameStep_pea (hmnem : insn.mnem = .pea) (hop : opOf insn.opcode = .pea)
    (hlen : insn.length = 3) (hf : Fetches (cpuBus cart io) insn (interpWith cpu i m))
    (he : cpu.emulation = false) (hlow : LowStack insn.mnem cpu)
    (hY : BitVec.ofNat 16 insn.operand = 0xC2AE → cpu.Y = 0) :
    ∃ cpu' m', SameStep (cpuBus cart io) insn vid cpu i m vals cpu' m' ∧ cpu'.emulation = false := by
  rw [hmnem] at hlow
  refine ⟨_, _, ⟨[.pushEffectiveAddress ⟨.absBank, insn.operand, none, none⟩],
    by rw [lower, hmnem], rfl, rfl, ?_⟩, he⟩
  have hword := readOpcodeWord_advance hf (show 1 + 1 < insn.length by omega)
  rw [mkWord_insnBytes] at hword
  rw [hop, hlen]
  show pea _ (advance (interpWith cpu i m) 1) = _
  rw [pea, hword]
  rw [keepsY_of_imp (s := advance (interpWith cpu i m) (1 + 2)) hY]
  exact pushWord_of_lowStack he hlow _ (advance i 3) m vals

/-- The bytes of `PER` are the distance to its operand. -/
theorem sameStep_per (hmnem : insn.mnem = .per) (hop : opOf insn.opcode = .per)
    (hlen : insn.length = 3) {raw : Nat}
    (hf : Fetches (cpuBus cart io) { insn with operand := raw } (interpWith cpu i m))
    (hraw : BitVec.ofNat 16 insn.operand = (advance i 3).pc + BitVec.ofNat 16 raw)
    (he : cpu.emulation = false) (hlow : LowStack insn.mnem cpu) :
    ∃ cpu' m', SameStep (cpuBus cart io) insn vid cpu i m vals cpu' m' ∧ cpu'.emulation = false := by
  rw [hmnem] at hlow
  refine ⟨_, _, ⟨[.pushEffectiveAddress ⟨.absBank, insn.operand, none, none⟩],
    by rw [lower, hmnem], rfl, rfl, ?_⟩, he⟩
  have hword := readOpcodeWord_advance hf (show 1 + 1 < insn.length by omega)
  rw [mkWord_insnBytes] at hword
  rw [hop, hlen]
  show per _ (advance (interpWith cpu i m) 1) = _
  rw [per, hword]
  show Interp816.pushWord _ ((advance i 3).pc + BitVec.ofNat 16 raw) (interpWith cpu (advance i 3) m) = _
  rw [← hraw]
  exact pushWord_of_lowStack he hlow _ _ m vals

theorem sameStep_pei (hmnem : insn.mnem = .pei) (hop : opOf insn.opcode = .pei)
    (hlen : insn.length = 2) (hbyte : insn.operand < 256)
    (hf : Fetches (cpuBus cart io) insn (interpWith cpu i m))
    (he : cpu.emulation = false) (hlow : LowStack insn.mnem cpu)
    (hword : SplitsAt cart io (cpu.D + BitVec.ofNat 16 insn.operand) m) :
    ∃ cpu' m', SameStep (cpuBus cart io) insn vid cpu i m vals cpu' m' ∧ cpu'.emulation = false := by
  rw [hmnem] at hlow
  refine ⟨_, _, ⟨[.pushEffectiveAddress ⟨.dpIndirect, insn.operand, none, none⟩],
    by rw [lower, hmnem], rfl, rfl, ?_⟩, he⟩
  have hoff : mkWord (insnByte insn 1) 0 = BitVec.ofNat 16 insn.operand := by
    rw [mkWord_insnByte_zero, Bits.and_0xFF, Nat.mod_eq_of_lt hbyte]
  have hfetch := readOpcode_advance hf (show 1 < insn.length by omega)
  rw [hop, hlen]
  show pei _ (advance (interpWith cpu i m) 1) = _
  rw [pei, adrDp, hfetch]
  show Interp816.pushWord _ (readPointer (bridgeBus (cpuBus cart io)) cpu.D (insnByte insn 1) 0
      (interpWith cpu (advance i 2) m)).1 (readPointer (bridgeBus (cpuBus cart io)) cpu.D
      (insnByte insn 1) 0 (interpWith cpu (advance i 2) m)).2 = _
  rw [readPointer_bridgeBus, hoff, show cpu.D + BitVec.ofNat 16 insn.operand + 0 =
    cpu.D + BitVec.ofNat 16 insn.operand from BitVec.add_zero _]
  show Interp816.pushWord _ (bytePointer _ _ m).1 (interpWith cpu (advance i 2) (bytePointer _ _ m).2) = _
  rw [← read16_of_splitsAt hword]
  exact pushWord_of_lowStack he hlow _ _ _ vals

end EffectiveAddress

end SnesRecomp.Tiers
