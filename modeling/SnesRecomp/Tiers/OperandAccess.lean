import SnesRecomp.Tiers.MoveSteps
import SnesRecomp.Tiers.InstructionFetch

/-!
# Loads and stores at an operand in the two tiers

`sameByte_iff` compares the location of an operand's low byte.  Here the whole access is
compared: the bytes of a word, which the compiled code addresses through one word helper
and the interpreter through two byte accesses, and the memory the pointer reads leave.

`SameAccess` is a condition on the registers and the memory before the access.  It asks
that the pointer reads have one effect, that the low bytes are one (`Target.Agrees`) and,
for a word, that the helper's two bytes are those at the interpreter's two addresses; a
word in the register window has to be its two bytes, low one first.
-/

namespace SnesRecomp.Tiers

open Recompiler Interp816

variable {M H : Type}

/-! ### The interpreter's second address -/

/-- Direct-page and stack operands stay in bank zero. -/
def inBankZero : AdrMode → Bool
  | .dp | .dpx | .dpy | .sr => true
  | _ => false

/-- The interpreter's address of the high byte; outside bank zero it carries into the
bank. -/
def interpHigh (am : AdrMode) (t : Target) : Byte × Word :=
  if inBankZero am then (t.interp.1, t.interp.2 + 1) else nextAddr t.interp.1 t.interp.2

theorem splitAddr_succ (v : Addr) :
    splitAddr (mask24 (v + 1)) = nextAddr (splitAddr v).1 (splitAddr v).2 := by
  have h1 : (1 : Addr).toNat = 1 := rfl
  have hb := splitAddr_fst_toNat v
  have ha := splitAddr_snd_toNat v
  rw [splitAddr_mask24]
  by_cases hlast : (splitAddr v).2 = 0xFFFF
  · have h0 : (0 : Word).toNat = 0 := rfl
    have hF : (splitAddr v).2.toNat = 0xFFFF := by rw [hlast]; rfl
    rw [nextAddr, if_pos hlast]
    refine splitAddr_eq ?_
    rw [BitVec.toNat_add, BitVec.toNat_add, h0, h1, show (1 : Byte).toNat = 1 from rfl]
    omega
  · have hlt := (splitAddr v).2.isLt
    have hF : (splitAddr v).2.toNat ≠ 0xFFFF := fun h => hlast (BitVec.eq_of_toNat_eq h)
    rw [nextAddr, if_neg hlast]
    refine splitAddr_eq ?_
    rw [BitVec.toNat_add, h1, toNat_add_one (by omega)]
    omega

theorem splitAddr_bankZero_succ (base idx : Word) (adr : Byte) :
    splitAddr (mask16 (u32 base + adr.setWidth 32 + u32 idx + 1)) =
      (0, base + mkWord adr 0 + idx + 1) := by
  rw [BitVec.add_assoc, splitAddr_bankZero, BitVec.setWidth_add _ _ (by decide), setWidth_u32,
    ← BitVec.add_assoc]
  rfl

theorem mask24_mask24_succ (v : Addr) : mask24 (mask24 v + 1) = mask24 (v + 1) := by
  apply BitVec.eq_of_toNat_eq
  simp only [mask24_toNat, BitVec.toNat_add, show (1 : Addr).toNat = 1 from rfl]
  omega

/-- Outside bank zero the high byte is one 24-bit address further. -/
theorem resolve_high {am : AdrMode} (himm : ∀ x, am ≠ .imm x) (hwide : inBankZero am = false)
    (bb : ByteBus M) (b1 b2 b3 : Byte) (s : Interp816 M) :
    (resolve bb am b1 b2 b3 s).1.high = mask24 ((resolve bb am b1 b2 b3 s).1.low + 1) := by
  cases am with
  | imm x => exact absurd rfl (himm x)
  | dp | dpx | dpy | sr => cases hwide
  | idp | idx | idl | abs | abl => rfl
  | idy | isy | ily | abx | aby | alx => exact (mask24_mask24_succ _).symm

/-- The high byte of a memory operand is at the interpreter's second address of its
target. -/
theorem adr_high_eq_interp (bus : Bus M) (am : AdrMode) (himm : ∀ x, am ≠ .imm x)
    (cpu : CpuState) (i : Interp816 M) :
    let fetched := fetch (bridgeBus bus) am (syncCpuToInterp cpu i)
    splitAddr (adr (bridgeBus bus) am (syncCpuToInterp cpu i)).1.high =
      interpHigh am (target bus am (mkWord fetched.1.1 fetched.1.2.1) fetched.1.2.2 cpu
        fetched.2.mem) := by
  intro fetched
  have hlow := adr_low_eq_interp bus am himm cpu i
  by_cases hwide : inBankZero am = true
  · rw [interpHigh, if_pos hwide, adr_eq_resolve]
    cases am with
    | dp =>
      refine (splitAddr_bankZero_succ _ 0 _).trans ?_
      exact congrArg (fun a => ((0 : Byte), a + 1)) (BitVec.add_zero _)
    | dpx | dpy => exact splitAddr_bankZero_succ _ _ _
    | sr =>
      rw [target, interp_fixed_zero]
      exact splitAddr_bankZero _ _ 1
    | _ => cases hwide
  · rw [interpHigh, if_neg hwide, ← hlow, adr_eq_resolve]
    rw [resolve_high himm (by simpa using hwide), splitAddr_succ]

/-! ### The pointer reads -/

/-- What the compiled code's pointer reads leave; a long pointer's bank comes first. -/
def compiledPointerMem (bus : Bus M) (am : AdrMode) (off : Word) (cpu : CpuState) (m : M) : M :=
  let dp := cpu.D + off
  match am with
  | .idp | .idy => (bus.read16 0x00 dp m).2
  | .idx => (bus.read16 0x00 (dp + cpu.X) m).2
  | .isy => (bus.read16 0x00 (cpu.S + off) m).2
  | .idl | .ily => (bus.read16 0x00 dp (bus.read8 0x00 (dp + 2) m).2).2
  | _ => m

/-- What the interpreter's pointer reads leave. -/
def interpPointerMem (bus : Bus M) (am : AdrMode) (off : Word) (cpu : CpuState) (m : M) : M :=
  let dp := cpu.D + off
  match am with
  | .idp | .idy => (bytePointer bus dp m).2
  | .idx => (bytePointer bus (dp + cpu.X) m).2
  | .isy => (bytePointer bus (cpu.S + off) m).2
  | .idl | .ily => (bus.read8 0x00 (dp + 2) (bytePointer bus dp m).2).2
  | _ => m

theorem segrefAddr_mem (bus : Bus M) {mode : Mode} {am : AdrMode} (h : adrModeOf mode = some am)
    (b : Byte × Byte × Byte) (cpu : CpuState) (m : M) :
    ∃ seg, segrefFor mode (operandOf b) = some seg ∧
      (segrefAddr bus seg cpu m).2 = compiledPointerMem bus am (mkWord b.1 b.2.1) cpu m := by
  cases mode <;> cases h <;> refine ⟨_, rfl, ?_⟩ <;>
    simp only [segrefAddr, segOffset, compiledPointerMem, ofNat_operandOf, reduceCtorEq, if_true,
      if_false]

theorem readLongPointer_mem (bus : Bus M) (adr : Byte) (cpu : Interp816 M) :
    (readLongPointer (bridgeBus bus) adr cpu).2 =
      { cpu with mem := (bus.read8 0x00 (cpu.dp + mkWord adr 0 + 2)
          (bytePointer bus (cpu.dp + mkWord adr 0) cpu.mem).2).2 } := by
  have h2 : splitAddr (mask16 (u32 cpu.dp + adr.setWidth 32 + 2)) =
      (0, cpu.dp + mkWord adr 0 + 2) := splitAddr_bankZero cpu.dp adr 2
  have h0 : cpu.dp + mkWord adr 0 + 0 = cpu.dp + mkWord adr 0 := BitVec.add_zero _
  simp only [readLongPointer, readPointer_bridgeBus, Interp816.read, bridgeBus_read, h2, h0]

theorem adr_mem (bus : Bus M) (am : AdrMode) (himm : ∀ x, am ≠ .imm x) (cpu : CpuState)
    (i : Interp816 M) :
    let fetched := fetch (bridgeBus bus) am (syncCpuToInterp cpu i)
    let off := mkWord fetched.1.1 fetched.1.2.1
    (adr (bridgeBus bus) am (syncCpuToInterp cpu i)).2 =
      { fetched.2 with mem := interpPointerMem bus am off cpu fetched.2.mem } := by
  intro fetched off
  have h0 : ∀ a : Word, a + 0 = a := BitVec.add_zero
  rw [adr_eq_resolve]
  cases am with
  | imm x => exact absurd rfl (himm x)
  | idp | idy | isy =>
    refine (congrArg Prod.snd (readPointer_bridgeBus bus _ _ _ _)).trans ?_
    rw [h0]
    rfl
  | idx => exact congrArg Prod.snd (readPointer_bridgeBus bus _ _ _ _)
  | idl | ily => exact readLongPointer_mem bus _ _
  | _ => rfl

/-! ### Words -/

/-- The two bytes a word helper addresses. -/
def helperLocs (cart : Cart) (p : Byte × Word) : Loc × Loc :=
  if isHwReg p.1 p.2 then (.reg p.2, .reg (p.2 + 1)) else wordLocs cart p.1 p.2

/-- A register word is its two bytes, low one first: loaded, or stored as `v`. -/
def RegisterWordSplits (io : RegIo H) (store : Option Word) (reg : Word) (m : Mem H) : Prop :=
  match store with
  | none => readRegWord io reg m = readPair io (.reg reg, .reg (reg + 1)) m
  | some v => writeRegWord io reg v m = writePair io (.reg reg, .reg (reg + 1)) v m

theorem cpuRamOffset_of_hwReg {bank : Byte} {addr : Word} (hw : isHwReg bank addr = true) :
    cpuRamOffset bank addr = none := by
  obtain ⟨hl, h2, h6⟩ := isHwReg_iff.mp hw
  cases hr : cpuRamOffset bank addr with
  | none => rfl
  | some off =>
    rw [lowBank_iff] at hl
    rcases cpuRamOffset_eq_some.mp hr with ⟨rfl, -⟩ | ⟨rfl, -⟩ | ⟨-, hlt, -⟩
    · simp at hl
    · simp at hl
    · omega

theorem cpuRead16_eq_helperLocs (cart : Cart) (io : RegIo H) (p : Byte × Word) (m : Mem H)
    (hreg : isHwReg p.1 p.2 = true → RegisterWordSplits io none p.2 m) :
    cpuRead16 cart io p.1 p.2 m = readPair io (helperLocs cart p) m := by
  by_cases hw : isHwReg p.1 p.2 = true
  · rw [helperLocs, if_pos hw, ← hreg hw, cpuRead16, cpuRamOffset_of_hwReg hw]
    exact if_pos hw
  · rw [helperLocs, if_neg hw]
    exact cpuRead16_eq_readPair (by simpa using hw) m

theorem cpuWrite16_eq_helperLocs (cart : Cart) (io : RegIo H) (p : Byte × Word) (v : Word)
    (m : Mem H) (hreg : isHwReg p.1 p.2 = true → RegisterWordSplits io (some v) p.2 m) :
    cpuWrite16 cart io p.1 p.2 v m = writePair io (helperLocs cart p) v m := by
  by_cases hw : isHwReg p.1 p.2 = true
  · rw [helperLocs, if_pos hw, ← hreg hw, cpuWrite16, cpuRamOffset_of_hwReg hw]
    exact if_pos hw
  · rw [helperLocs, if_neg hw]
    exact cpuWrite16_eq_writePair (by simpa using hw) v m

/-! ### The whole access -/

/-- The tiers address the bytes of an operand of `w` alike.  `store` is the value of a
store. -/
def BytesAgree (cart : Cart) (io : RegIo H) (am : AdrMode) (t : Target) (w : Width)
    (store : Option Word) (m : Mem H) : Prop :=
  match w with
  | .byte => t.Agrees cart
  | .word =>
    helperLocs cart t.compiled = (selected cart t.interp, selected cart (interpHigh am t)) ∧
      (isHwReg t.compiled.1 t.compiled.2 = true → RegisterWordSplits io store t.compiled.2 m)

/-- The state before an access at a memory operand in which the tiers do the same. -/
structure SameAccess (cart : Cart) (io : RegIo H) (am : AdrMode) (w : Width) (store : Option Word)
    (operand : Nat) (cpu : CpuState) (m : Mem H) : Prop where
  pointer : compiledPointerMem (cpuBus cart io) am (BitVec.ofNat 16 operand) cpu m =
    interpPointerMem (cpuBus cart io) am (BitVec.ofNat 16 operand) cpu m
  bytes : BytesAgree cart io am
    (target (cpuBus cart io) am (BitVec.ofNat 16 operand) (BitVec.ofNat 8 (operand >>> 16)) cpu m) w
    store (interpPointerMem (cpuBus cart io) am (BitVec.ofNat 16 operand) cpu m)

/-- A load at the interpreter's addresses, by location. -/
theorem readAt_bridgeBus (cart : Cart) (io : RegIo H) (o : Operand) (m : Mem H) :
    readAt (bridgeBus (cpuBus cart io)) .byte o m =
        ((readLoc io (selected cart (splitAddr o.low)) m).1.setWidth 16,
          (readLoc io (selected cart (splitAddr o.low)) m).2) ∧
      readAt (bridgeBus (cpuBus cart io)) .word o m =
        readPair io (selected cart (splitAddr o.low), selected cart (splitAddr o.high)) m := by
  have h : ∀ adr m, (bridgeBus (cpuBus cart io)).read adr m =
      readLoc io (selected cart (splitAddr adr)) m := fun adr m => cpuRead8_eq_readLoc cart io _ _ m
  constructor
  · simp only [readAt, h]
  · simp only [readAt, h]
    rfl

theorem storeAt_bridgeBus (cart : Cart) (io : RegIo H) (o : Operand) (v : Word) (m : Mem H) :
    storeAt (bridgeBus (cpuBus cart io)) .byte o v m =
        writeLoc io (selected cart (splitAddr o.low)) (loByte v) m ∧
      storeAt (bridgeBus (cpuBus cart io)) .word o v m =
        writePair io (selected cart (splitAddr o.low), selected cart (splitAddr o.high)) v m := by
  have h : ∀ adr b m, (bridgeBus (cpuBus cart io)).write adr b m =
      writeLoc io (selected cart (splitAddr adr)) b m :=
    fun adr b m => cpuWrite8_eq_writeLoc cart io _ _ b m
  constructor
  · exact h _ _ _
  · simp only [storeAt, h]
    rfl

/-- The compiled reference and the interpreter's operand of one instruction, the
interpreter past the opcode. -/
structure OperandPair (cart : Cart) (io : RegIo H) (insn : Insn) (am : AdrMode) (cpu : CpuState)
    (i : Interp816 (Mem H)) (m : Mem H) (seg : SegRef) (o : Operand) : Prop where
  seg_eq : segrefFor insn.mode insn.operand = some seg
  adr_eq : adr (bridgeBus (cpuBus cart io)) am (interpWith cpu (advance i 1) m) =
    (o, interpWith cpu (advance i insn.length)
      (interpPointerMem (cpuBus cart io) am (BitVec.ofNat 16 insn.operand) cpu m))
  compiled : segrefAddr (cpuBus cart io) seg cpu m =
    ((target (cpuBus cart io) am (BitVec.ofNat 16 insn.operand)
        (BitVec.ofNat 8 (insn.operand >>> 16)) cpu m).compiled,
      compiledPointerMem (cpuBus cart io) am (BitVec.ofNat 16 insn.operand) cpu m)
  low : splitAddr o.low = (target (cpuBus cart io) am (BitVec.ofNat 16 insn.operand)
    (BitVec.ofNat 8 (insn.operand >>> 16)) cpu m).interp
  high : splitAddr o.high = interpHigh am (target (cpuBus cart io) am (BitVec.ofNat 16 insn.operand)
    (BitVec.ofNat 8 (insn.operand >>> 16)) cpu m)

/-- A decoded instruction with a memory operand at the program counter. -/
theorem operandPair_of_fetches (cart : Cart) (io : RegIo H) {rom : Rom} {offset pc bank : Nat}
    {mF xF : Bool} {insn : Insn} (hdec : decodeInsn rom offset pc bank mF xF = some insn)
    {op : MemOp} {am : AdrMode} (hop : opOf insn.opcode = .mem op am) (himm : ∀ x, am ≠ .imm x)
    {cpu : CpuState} {i : Interp816 (Mem H)} {m : Mem H}
    (hf : Fetches (cpuBus cart io) insn (interpWith cpu i m)) :
    ∃ seg o, OperandPair cart io insn am cpu i m seg o := by
  have hmode := adrModeOf_opcodeRow hop himm
  rw [← mode_of_decodeInsn hdec] at hmode
  have hlt : insn.operand < 256 ^ operandBytes am := by
    have hd := hdec
    simp only [decodeInsn, Option.bind_eq_bind, Option.bind_eq_some_iff, Option.pure_def,
      Option.some.injEq] at hd
    obtain ⟨opcode, -, operand, hoperand, rfl⟩ := hd
    exact operand_lt_of_decodeOperand hoperand hmode
  obtain ⟨hoperand, hnext⟩ := fetch_of_fetches hf himm (length_of_decodeInsn hdec hop himm) hlt
  -- the interpreter past the opcode, as a synchronised state
  let j : Interp816 (Mem H) := { advance i 1 with mem := m }
  have hlow := adr_low_eq_interp (cpuBus cart io) am himm cpu j
  have hhigh := adr_high_eq_interp (cpuBus cart io) am himm cpu j
  have hmem := adr_mem (cpuBus cart io) am himm cpu j
  have hj : syncCpuToInterp cpu j = advance (interpWith cpu i m) 1 := rfl
  dsimp only at hlow hhigh hmem
  rw [hj] at hlow hhigh hmem
  obtain ⟨seg, hseg, haddr⟩ := segrefAddr_eq_compiled (cpuBus cart io) hmode
    (fun h => fetch_bank (bridgeBus (cpuBus cart io)) h (advance (interpWith cpu i m) 1)) cpu m
  obtain ⟨seg', hseg', hsegMem⟩ := segrefAddr_mem (cpuBus cart io) hmode
    (fetch (bridgeBus (cpuBus cart io)) am (advance (interpWith cpu i m) 1)).1 cpu m
  obtain rfl : seg = seg' := Option.some.inj (hseg.symm.trans hseg')
  rw [hnext, ← ofNat_operandOf, ← ofNat_shiftRight, hoperand] at hlow hhigh
  rw [hnext, ← ofNat_operandOf, hoperand] at hmem
  rw [← ofNat_operandOf, ← ofNat_shiftRight, hoperand] at haddr
  rw [← ofNat_operandOf, hoperand] at hsegMem
  rw [hoperand] at hseg
  exact ⟨seg, _, hseg, Prod.ext rfl hmem, Prod.ext haddr hsegMem, hlow, hhigh⟩

section Access

variable {cart : Cart} {io : RegIo H} {insn : Insn} {am : AdrMode} {cpu : CpuState}
  {i : Interp816 (Mem H)} {m : Mem H} {seg : SegRef} {o : Operand} {w : Width}

theorem readSeg_of_sameAccess (hpair : OperandPair cart io insn am cpu i m seg o)
    (h : SameAccess cart io am w none insn.operand cpu m) :
    readSeg (cpuBus cart io) seg w cpu m = readAt (bridgeBus (cpuBus cart io)) w o
      (interpPointerMem (cpuBus cart io) am (BitVec.ofNat 16 insn.operand) cpu m) := by
  have hbytes := h.bytes
  cases w with
  | byte =>
    have hsel := (Target.selected_eq_iff cart _).mpr hbytes
    simp only [readSeg, hpair.compiled, h.pointer]
    rw [(readAt_bridgeBus cart io o _).1, hpair.low, ← hsel]
    simp only [cpuBus, cpuRead8_eq_readLoc]
    rfl
  | word =>
    obtain ⟨hlocs, hreg⟩ := hbytes
    simp only [readSeg, hpair.compiled, h.pointer]
    rw [(readAt_bridgeBus cart io o _).2, hpair.low, hpair.high, ← hlocs]
    exact cpuRead16_eq_helperLocs cart io _ _ hreg

theorem writeSeg_of_sameAccess (hpair : OperandPair cart io insn am cpu i m seg o) {v : Word}
    (h : SameAccess cart io am w (some v) insn.operand cpu m) :
    writeSeg (cpuBus cart io) seg w v cpu m = storeAt (bridgeBus (cpuBus cart io)) w o v
      (interpPointerMem (cpuBus cart io) am (BitVec.ofNat 16 insn.operand) cpu m) := by
  have hbytes := h.bytes
  cases w with
  | byte =>
    have hsel := (Target.selected_eq_iff cart _).mpr hbytes
    simp only [writeSeg, hpair.compiled, h.pointer]
    rw [(storeAt_bridgeBus cart io o _ _).1, hpair.low, ← hsel]
    exact cpuWrite8_eq_writeLoc cart io _ _ _ _
  | word =>
    obtain ⟨hlocs, hreg⟩ := hbytes
    simp only [writeSeg, hpair.compiled, h.pointer]
    rw [(storeAt_bridgeBus cart io o _ _).2, hpair.low, hpair.high, ← hlocs]
    exact cpuWrite16_eq_helperLocs cart io _ _ _ hreg

end Access

end SnesRecomp.Tiers
