import SnesRecomp.Tiers.AluValues

/-!
# Arithmetic of the two tiers, operation by operation

For each arithmetic function of `interp816.c`: run on the registers of a `CpuState` it
leaves the registers the emitted lines leave.  `interpWith cpu i m` is the interpreter's
state with the registers of `cpu` and the memory `m`, and each lemma is an equality of
whole states, so it also says that nothing else moved.

The functions have two shapes, `loadOp` and `rmwOp`; the shifts of memory and of `A` are
one definition each (`shiftMem`, `shiftA`) with the operation as a parameter.
-/

namespace SnesRecomp.Tiers

open Recompiler Interp816

variable {M : Type}

/-! ### Loads and stores at a width -/

/-- The interpreter's load of an operand. -/
def readAt (bb : ByteBus M) (w : Width) (o : Operand) (m : M) : Word × M :=
  match w with
  | .byte =>
    let r := bb.read o.low m
    (r.1.setWidth 16, r.2)
  | .word =>
    let lo := bb.read o.low m
    let hi := bb.read o.high lo.2
    (mkWord lo.1 hi.1, hi.2)

/-- The interpreter's store of a modified operand, high byte first. -/
def writeAt (bb : ByteBus M) (w : Width) (o : Operand) (v : Word) (m : M) : M :=
  match w with
  | .byte => bb.write o.low (loByte v) m
  | .word => bb.write o.low (loByte v) (bb.write o.high (hiByte v) m)

/-- The interpreter's state with the registers of `cpu` and the memory `m`. -/
def interpWith (cpu : CpuState) (i : Interp816 M) (m : M) : Interp816 M :=
  syncCpuToInterp cpu { i with mem := m }

/-! ### Results and their flags -/

theorem cint8_beq_zero (b : Byte) : (cint8 b == 0) = (b == 0) := by
  rw [Bool.eq_iff_iff, beq_iff_eq, beq_iff_eq]
  constructor
  · intro h
    have hb : loByte ((cint8 b).setWidth 16) = loByte ((0 : CInt).setWidth 16) := by rw [h]
    rw [cint8, BitVec.setWidth_setWidth_of_le _ (by decide)] at hb
    exact (loByte_setWidth b).symm.trans hb
  · rintro rfl
    rfl

/-- Zero under the low mask is a zero low byte. -/
theorem and_0xFF_beq_zero (v : Word) : (v &&& 0xFF == 0) = (loByte v == 0) := by
  have hv := v.isLt
  have h0 : (0 : Word).toNat = 0 := rfl
  have h0' : (0 : Byte).toNat = 0 := rfl
  have hmask : (v &&& 0xFF).toNat = v.toNat % 256 := by
    rw [BitVec.toNat_and]
    exact Bits.and_0xFF _
  rw [Bool.eq_iff_iff, beq_iff_eq, beq_iff_eq, ← BitVec.toNat_inj, ← BitVec.toNat_inj,
    loByte_toNat, hmask, h0, h0']

theorem cint8_sign {v : Word} {lo : Byte} (h : loByte v = lo) :
    (cint8 lo &&& 0x80 != 0) = (v &&& 0x80 != 0) := by
  subst h
  refine (Bits.and_twoPow_ne_zero (by decide : 7 < 32) _).trans ?_
  refine Eq.trans ?_ (Bits.and_twoPow_ne_zero (by decide : 7 < 16) v).symm
  simp [cint8, loByte]

theorem setNz_byte (cpu : CpuState) (i : Interp816 M) (m : M) {v : Word} {lo : Byte}
    (h : loByte v = lo) :
    interpWith (setNzNoP (cint8 lo) .byte cpu) i m = setZN v true (interpWith cpu i m) := by
  have hz : (cint8 lo == 0) = (v &&& 0xFF == 0) := by rw [cint8_beq_zero, and_0xFF_beq_zero, h]
  have hn := cint8_sign h
  simp only [setZN, if_true, ← hz, ← hn]
  rfl

theorem cint16_beq_zero (v : Word) : (cint16 v == 0) = (v == 0) := by
  rw [Bool.eq_iff_iff, beq_iff_eq, beq_iff_eq]
  constructor
  · intro h
    have hv : (cint16 v).setWidth 16 = (0 : CInt).setWidth 16 := by rw [h]
    rwa [cint16, BitVec.setWidth_setWidth_of_le _ (by decide), BitVec.setWidth_eq] at hv
  · rintro rfl
    rfl

/-- A test under a mask is the same before and after zero extension. -/
theorem cint8_and_bne (b n : Byte) : (cint8 b &&& cint8 n != 0) = (b &&& n != 0) := by
  rw [cint8, cint8, ← BitVec.setWidth_and]
  exact congrArg (!·) (cint8_beq_zero (b &&& n))

theorem cint16_and_bne (v n : Word) : (cint16 v &&& cint16 n != 0) = (v &&& n != 0) := by
  rw [cint16, cint16, ← BitVec.setWidth_and]
  exact congrArg (!·) (cint16_beq_zero (v &&& n))

theorem setNz_word (cpu : CpuState) (i : Interp816 M) (m : M) (v : Word) :
    interpWith (setNzNoP (cint16 v) .word cpu) i m = setZN v false (interpWith cpu i m) := by
  have hz := cint16_beq_zero v
  have hn : (cint16 v &&& 0x8000 != 0) = (v &&& 0x8000 != 0) := cint16_and_bne v 0x8000
  simp only [setZN, Bool.false_eq_true, if_false, ← hz, ← hn]
  rfl

theorem setNz_toCtype (w : Width) (t : CInt) (cpu : CpuState) (i : Interp816 M) (m : M) :
    interpWith (setNzNoP (cint16 (toCtype w t)) w cpu) i m =
      setZN (t.setWidth 16) (w = .byte) (interpWith cpu i m) := by
  cases w with
  | byte =>
    rw [toCtype, cint16_setWidth]
    exact setNz_byte cpu i m (BitVec.setWidth_setWidth_of_le t (by decide))
  | word => exact setNz_word cpu i m (t.setWidth 16)

/-- The write-back of an 8-bit result. -/
theorem writeA_byte (cpu : CpuState) (hm : cpu.mFlag = true) (i : Interp816 M) (m : M) (lo : Byte) :
    interpWith (emitWriteReg .a (lo.setWidth 16)
        (setNzNoP (cint16 (lo.setWidth 16)) .byte cpu)) i m =
      setZN (withLow cpu.A lo) true (interpWith { cpu with A := withLow cpu.A lo } i m) := by
  rw [cint16_setWidth, ← setNz_byte _ i m (loByte_withLow cpu.A lo)]
  simp only [emitWriteReg, cpuWriteAM, setNzNoP, hm, if_true, cpuWriteA8, loByte_setWidth]
  rfl

theorem writeA_word (cpu : CpuState) (hm : cpu.mFlag = false) (i : Interp816 M) (m : M) (v : Word) :
    interpWith (emitWriteReg .a v (setNzNoP (cint16 v) .word cpu)) i m =
      setZN v false (interpWith { cpu with A := v } i m) := by
  rw [← setNz_word _ i m v]
  simp only [emitWriteReg, cpuWriteAM, setNzNoP, hm, Bool.false_eq_true, if_false, cpuWriteA16]

/-! ### Two shapes of instruction

An instruction loads its operand and computes (`loadOp`), or it also stores a result
back (`rmwOp`).  In both the computation has an 8-bit and a 16-bit form. -/

def loadOp (byte : Bool) (f8 : Byte → Interp816 M → Interp816 M)
    (f16 : Word → Interp816 M → Interp816 M) (bb : ByteBus M) (o : Operand) (s : Interp816 M) :
    Interp816 M :=
  if byte then
    let value := Interp816.read bb o.low s
    f8 value.1 value.2
  else
    let value := readWord bb o.low o.high s
    f16 value.1 value.2

def rmwOp (byte : Bool) (f8 : Byte → Interp816 M → Byte × Interp816 M)
    (f16 : Word → Interp816 M → Word × Interp816 M) (bb : ByteBus M) (o : Operand)
    (s : Interp816 M) : Interp816 M :=
  if byte then
    let value := Interp816.read bb o.low s
    let result := f8 value.1 value.2
    write bb o.low result.1 result.2
  else
    let value := readWord bb o.low o.high s
    let result := f16 value.1 value.2
    writeWord bb o.low o.high result.1 true result.2

theorem loadOp_interpWith {byte : Bool} {f8 : Byte → Interp816 M → Interp816 M}
    {f16 : Word → Interp816 M → Interp816 M} (step : Width → Word → CpuState → CpuState)
    {cpu : CpuState} {i : Interp816 M}
    (h8 : byte = true → ∀ b m,
      f8 b (interpWith cpu i m) = interpWith (step .byte (b.setWidth 16) cpu) i m)
    (h16 : byte = false → ∀ v m, f16 v (interpWith cpu i m) = interpWith (step .word v cpu) i m)
    (bb : ByteBus M) (o : Operand) (m : M) :
    loadOp byte f8 f16 bb o (interpWith cpu i m) =
      interpWith (step (widthOf byte) (readAt bb (widthOf byte) o m).1 cpu) i
        (readAt bb (widthOf byte) o m).2 := by
  cases byte with
  | true => exact h8 rfl _ _
  | false => exact h16 rfl _ _

theorem rmwOp_interpWith {byte : Bool} {f8 : Byte → Interp816 M → Byte × Interp816 M}
    {f16 : Word → Interp816 M → Word × Interp816 M} (step : Width → Word → CpuState → Word × CpuState)
    {cpu : CpuState} {i : Interp816 M}
    (h8 : byte = true → ∀ b m, f8 b (interpWith cpu i m) =
      (loByte (step .byte (b.setWidth 16) cpu).1, interpWith (step .byte (b.setWidth 16) cpu).2 i m))
    (h16 : byte = false → ∀ v m, f16 v (interpWith cpu i m) =
      ((step .word v cpu).1, interpWith (step .word v cpu).2 i m))
    (bb : ByteBus M) (o : Operand) (m : M) :
    rmwOp byte f8 f16 bb o (interpWith cpu i m) =
      (let r := readAt bb (widthOf byte) o m
       let out := step (widthOf byte) r.1 cpu
       interpWith out.2 i (writeAt bb (widthOf byte) o out.1 r.2)) := by
  cases byte with
  | true =>
    have h := h8 rfl (bb.read o.low m).1 (bb.read o.low m).2
    refine (congrArg (fun r : Byte × Interp816 M => write bb o.low r.1 r.2) h).trans rfl
  | false =>
    have h := h16 rfl (readAt bb .word o m).1 (readAt bb .word o m).2
    refine (congrArg (fun r : Word × Interp816 M => writeWord bb o.low o.high r.1 true r.2) h).trans
      rfl

/-! ### Accumulator and operand -/

/-- The registers after the emitted arithmetic on `reg` and the operand `v`. -/
def aluStep (op : AluOp) (reg : Reg) (w : Width) (v : Word) (cpu : CpuState) : CpuState :=
  let r := emitAlu op (readRegField cpu reg) v w cpu
  if op = .cmp then r.2 else emitWriteReg reg r.1 r.2

/-- The flags of the accumulator, at its width. -/
def setZNA (s : Interp816 M) : Interp816 M := setZN s.a s.mf s

theorem setZNA_of_mf {s : Interp816 M} {byte : Bool} (h : s.mf = byte) :
    setZNA s = setZN s.a byte s := by
  rw [setZNA, h]

theorem adc8_eq (b : Byte) (s : Interp816 M) :
    adc8 b s = { s with
      v := (adc8 b s).v, c := (adc8 b s).c, a := withLow s.a (loByte (adc8 b s).a) } := by
  simp only [adc8, loByte_withLow]

theorem sbc8_eq (b : Byte) (s : Interp816 M) :
    sbc8 b s = { s with
      v := (sbc8 b s).v, c := (sbc8 b s).c, a := withLow s.a (loByte (sbc8 b s).a) } := by
  simp only [sbc8, loByte_withLow]

/-- An accumulator operation whose result and flags agree agrees with its write-back. -/
theorem aluStep_byte {op : AluOp} (hop : op ≠ .cmp) {cpu : CpuState} (hm : cpu.mFlag = true)
    {v : Word} {lo : Byte} (flagV flagC : Bool)
    (h : aluResult op cpu.A v .byte cpu =
      (lo.setWidth 16, { cpu with flagV := flagV, flagC := flagC })) (i : Interp816 M) (m : M) :
    interpWith (aluStep op .a .byte v cpu) i m =
      setZNA { interpWith cpu i m with v := flagV, c := flagC, a := withLow cpu.A lo } := by
  refine Eq.trans ?_ ((writeA_byte { cpu with flagV := flagV, flagC := flagC } hm i m
    lo).trans ?_)
  · rw [aluStep, if_neg hop, emitAlu, readRegField, h]
  · exact (setZNA_of_mf hm).symm

theorem aluStep_word {op : AluOp} (hop : op ≠ .cmp) {cpu : CpuState} (hm : cpu.mFlag = false)
    {v out : Word} (flagV flagC : Bool)
    (h : aluResult op cpu.A v .word cpu = (out, { cpu with flagV := flagV, flagC := flagC }))
    (i : Interp816 M) (m : M) :
    interpWith (aluStep op .a .word v cpu) i m =
      setZNA { interpWith cpu i m with v := flagV, c := flagC, a := out } := by
  refine Eq.trans ?_ ((writeA_word { cpu with flagV := flagV, flagC := flagC } hm i m
    out).trans ?_)
  · rw [aluStep, if_neg hop, emitAlu, readRegField, h]
  · exact (setZNA_of_mf hm).symm

theorem aluResult_add (w : Width) (v : Word) (cpu : CpuState) {r : Word × Bool × Bool}
    (h : (if cpu.flagD then bcdAdd (masked cpu.A w) (masked v w) w cpu.flagC
      else binAdd (masked cpu.A w) (masked v w) w cpu.flagC) = r) :
    aluResult .add cpu.A v w cpu = (r.1, { cpu with flagV := r.2.1, flagC := r.2.2 }) := by
  subst h
  rfl

theorem aluResult_sub (w : Width) (v : Word) (cpu : CpuState) {r : Word × Bool × Bool}
    (h : (if cpu.flagD then bcdSub (masked cpu.A w) (masked v w) w cpu.flagC
      else binSub (masked cpu.A w) (masked v w) w cpu.flagC) = r) :
    aluResult .sub cpu.A v w cpu = (r.1, { cpu with flagV := r.2.1, flagC := r.2.2 }) := by
  subst h
  rfl

theorem add_agrees (bb : ByteBus M) (o : Operand) (cpu : CpuState) (i : Interp816 M) (m : M) :
    adc bb o (interpWith cpu i m) =
      (let r := readAt bb (widthOf cpu.mFlag) o m
       interpWith (aluStep .add .a (widthOf cpu.mFlag) r.1 cpu) i r.2) := by
  have hform : ∀ s : Interp816 M, adc bb o s =
      loadOp s.mf (fun b s => setZNA (adc8 b s)) (fun v s => setZNA (adc16 v s)) bb o s := by
    intro s
    unfold adc loadOp
    cases s.mf <;> rfl
  rw [hform]
  refine loadOp_interpWith (aluStep .add .a) (fun hm b m => ?_) (fun hm v m => ?_) bb o m
  · have h := aluResult_add .byte (b.setWidth 16) cpu (add_byte b (interpWith cpu i m))
    exact (congrArg setZNA (adc8_eq _ _)).trans (aluStep_byte (by decide) hm _ _ h i m).symm
  · have h := aluResult_add .word v cpu (add_word v (interpWith cpu i m))
    exact (aluStep_word (by decide) hm _ _ h i m).symm

theorem sub_agrees (bb : ByteBus M) (o : Operand) (cpu : CpuState) (i : Interp816 M) (m : M) :
    sbc bb o (interpWith cpu i m) =
      (let r := readAt bb (widthOf cpu.mFlag) o m
       interpWith (aluStep .sub .a (widthOf cpu.mFlag) r.1 cpu) i r.2) := by
  have hform : ∀ s : Interp816 M, sbc bb o s =
      loadOp s.mf (fun b s => setZNA (sbc8 (b ^^^ 0xFF) s))
        (fun v s => setZNA (sbc16 (v ^^^ 0xFFFF) s)) bb o s := by
    intro s
    unfold sbc loadOp
    cases s.mf <;> rfl
  rw [hform]
  refine loadOp_interpWith (aluStep .sub .a) (fun hm b m => ?_) (fun hm v m => ?_) bb o m
  · have h := aluResult_sub .byte (b.setWidth 16) cpu (sub_byte b (interpWith cpu i m))
    exact (congrArg setZNA (sbc8_eq _ _)).trans (aluStep_byte (by decide) hm _ _ h i m).symm
  · have h := aluResult_sub .word v cpu (sub_word v (interpWith cpu i m))
    exact (aluStep_word (by decide) hm _ _ h i m).symm

theorem setWidth_cint16 (v : Word) : (cint16 v).setWidth 8 = loByte v :=
  BitVec.setWidth_setWidth_of_le v (by decide)

theorem setWidth_cint8 (b : Byte) : (cint8 b).setWidth 8 = b := by
  rw [cint8, BitVec.setWidth_setWidth_of_le _ (by decide), BitVec.setWidth_eq]

theorem toCtype_word_cint16 (v : Word) : toCtype .word (cint16 v) = v := by
  rw [toCtype, cint16, BitVec.setWidth_setWidth_of_le _ (by decide), BitVec.setWidth_eq]

/-- `AND`, `ORA` and `EOR`: one operation on bytes and on words. -/
theorem logic_agrees {op : AluOp} (g8 : Byte → Byte → Byte) (g16 : Word → Word → Word)
    (hop : op ≠ .cmp)
    (h8 : ∀ a b cpu, aluResult op a (b.setWidth 16) .byte cpu = ((g8 (loByte a) b).setWidth 16, cpu))
    (h16 : ∀ a v cpu, aluResult op a v .word cpu = (g16 a v, cpu))
    (bb : ByteBus M) (o : Operand) (cpu : CpuState) (i : Interp816 M) (m : M) :
    loadOp cpu.mFlag (fun b s => setZNA { s with a := withLow s.a (g8 (loByte s.a) b) })
        (fun v s => setZNA { s with a := g16 s.a v }) bb o (interpWith cpu i m) =
      (let r := readAt bb (widthOf cpu.mFlag) o m
       interpWith (aluStep op .a (widthOf cpu.mFlag) r.1 cpu) i r.2) := by
  refine loadOp_interpWith (aluStep op .a) (fun hm b m => ?_) (fun hm v m => ?_) bb o m
  · exact (aluStep_byte hop hm cpu.flagV cpu.flagC (h8 cpu.A b cpu) i m).symm
  · exact (aluStep_word hop hm cpu.flagV cpu.flagC (h16 cpu.A v cpu) i m).symm

theorem and_agrees (bb : ByteBus M) (o : Operand) (cpu : CpuState) (i : Interp816 M) (m : M) :
    Interp816.and bb o (interpWith cpu i m) =
      (let r := readAt bb (widthOf cpu.mFlag) o m
       interpWith (aluStep .and .a (widthOf cpu.mFlag) r.1 cpu) i r.2) := by
  refine Eq.trans ?_ (logic_agrees (· &&& ·) (· &&& ·) (by decide)
    (fun a b cpu => ?_) (fun a v cpu => ?_) bb o cpu i m)
  · unfold Interp816.and loadOp
    cases h : cpu.mFlag <;> simp only [show (interpWith cpu i m).mf = cpu.mFlag from rfl, h] <;> rfl
  · rw [aluResult, toCtype, BitVec.setWidth_and, setWidth_cint16, setWidth_cint16, loByte_setWidth]
  · rw [aluResult, toCtype, BitVec.setWidth_and]
    exact congrArg₂ (fun a b => (a &&& b, cpu)) (toCtype_word_cint16 a) (toCtype_word_cint16 v)

theorem or_agrees (bb : ByteBus M) (o : Operand) (cpu : CpuState) (i : Interp816 M) (m : M) :
    ora bb o (interpWith cpu i m) =
      (let r := readAt bb (widthOf cpu.mFlag) o m
       interpWith (aluStep .or .a (widthOf cpu.mFlag) r.1 cpu) i r.2) := by
  refine Eq.trans ?_ (logic_agrees (· ||| ·) (· ||| ·) (by decide)
    (fun a b cpu => ?_) (fun a v cpu => ?_) bb o cpu i m)
  · unfold ora loadOp
    cases h : cpu.mFlag <;> simp only [show (interpWith cpu i m).mf = cpu.mFlag from rfl, h] <;> rfl
  · rw [aluResult, toCtype, BitVec.setWidth_or, setWidth_cint16, setWidth_cint16, loByte_setWidth]
  · rw [aluResult, toCtype, BitVec.setWidth_or]
    exact congrArg₂ (fun a b => (a ||| b, cpu)) (toCtype_word_cint16 a) (toCtype_word_cint16 v)

theorem xor_agrees (bb : ByteBus M) (o : Operand) (cpu : CpuState) (i : Interp816 M) (m : M) :
    eor bb o (interpWith cpu i m) =
      (let r := readAt bb (widthOf cpu.mFlag) o m
       interpWith (aluStep .xor .a (widthOf cpu.mFlag) r.1 cpu) i r.2) := by
  refine Eq.trans ?_ (logic_agrees (· ^^^ ·) (· ^^^ ·) (by decide)
    (fun a b cpu => ?_) (fun a v cpu => ?_) bb o cpu i m)
  · unfold eor loadOp
    cases h : cpu.mFlag <;> simp only [show (interpWith cpu i m).mf = cpu.mFlag from rfl, h] <;> rfl
  · rw [aluResult, toCtype, BitVec.setWidth_xor, setWidth_cint16, setWidth_cint16, loByte_setWidth]
  · rw [aluResult, toCtype, BitVec.setWidth_xor]
    exact congrArg₂ (fun a b => (a ^^^ b, cpu)) (toCtype_word_cint16 a) (toCtype_word_cint16 v)

/-! ### Comparisons and bit tests -/

/-- `CMP`, `CPX` and `CPY`. -/
theorem cmp_agrees (byte : Bool) (reg : Reg) (bb : ByteBus M) (o : Operand) (cpu : CpuState)
    (i : Interp816 M) (m : M) :
    compare bb byte (readRegField cpu reg) o (interpWith cpu i m) =
      (let r := readAt bb (widthOf byte) o m
       interpWith (aluStep .cmp reg (widthOf byte) r.1 cpu) i r.2) := by
  have hstep : ∀ (w : Width) (v : Word) (m : M), interpWith (aluStep .cmp reg w v cpu) i m =
      (let t := masked (readRegField cpu reg) w + (masked v w ^^^ opMask w) + 1
       setZN (t.setWidth 16) (w = .byte) { interpWith cpu i m with c := cgt t (opMask w) }) := by
    intro w v m
    obtain ⟨hout, hc⟩ := compare_eq (masked_lt (readRegField cpu reg) w) v
    rw [aluStep, if_pos rfl, emitAlu, aluResult, hout, hc]
    exact setNz_toCtype w _ _ i m
  cases byte with
  | true =>
    have hx : cint8 ((bb.read o.low m).1 ^^^ 0xFF) =
        masked ((bb.read o.low m).1.setWidth 16) .byte ^^^ opMask .byte := by
      rw [cint8_xor, masked_byte, loByte_setWidth]
      rfl
    refine Eq.trans ?_ (hstep .byte ((bb.read o.low m).1.setWidth 16) (bb.read o.low m).2).symm
    rw [← hx]
    rfl
  | false =>
    have hx : cint16 ((readAt bb .word o m).1 ^^^ 0xFFFF) =
        masked (readAt bb .word o m).1 .word ^^^ opMask .word := by
      rw [cint16_xor, masked_word]
      rfl
    refine Eq.trans ?_ (hstep .word (readAt bb .word o m).1 (readAt bb .word o m).2).symm
    rw [← hx, masked_word]
    rfl

/-- What `BIT` computes from its operand; the immediate form sets `Z` only. -/
def bitFlags (imm byte : Bool) (v : Word) (s : Interp816 M) : Interp816 M :=
  let z := if byte then loByte s.a &&& loByte v == 0 else s.a &&& v == 0
  if imm then { s with z := z }
  else if byte then { s with z := z, n := loByte v &&& 0x80 != 0, v := loByte v &&& 0x40 != 0 }
  else { s with z := z, n := v &&& 0x8000 != 0, v := v &&& 0x4000 != 0 }

theorem setWidth_beq_zero (b : Byte) : ((b.setWidth 16 : Word) == 0) = (b == 0) := by
  rw [Bool.eq_iff_iff, beq_iff_eq, beq_iff_eq]
  constructor
  · intro h
    rw [← loByte_setWidth b, h]
    rfl
  · rintro rfl
    rfl

theorem bitTest_agrees (imm byte : Bool) (v : Word) (cpu : CpuState) (i : Interp816 M) (m : M) :
    interpWith (emitBitTest v (widthOf byte) imm cpu) i m =
      bitFlags imm byte v (interpWith cpu i m) := by
  cases byte with
  | true =>
    have hz : (toCtype .byte (masked cpu.A .byte &&& masked v .byte) == 0) =
        (loByte cpu.A &&& loByte v == 0) := by
      rw [masked_byte, masked_byte, toCtype, BitVec.setWidth_and, setWidth_cint8, setWidth_cint8]
      exact setWidth_beq_zero _
    have hn : (masked v .byte &&& signBit .byte != 0) = (loByte v &&& 0x80 != 0) := by
      rw [masked_byte]
      exact cint8_and_bne (loByte v) 0x80
    have hv : (masked v .byte &&& overflowBit .byte != 0) = (loByte v &&& 0x40 != 0) := by
      rw [masked_byte]
      exact cint8_and_bne (loByte v) 0x40
    simp only [show widthOf true = .byte from rfl, emitBitTest, bitFlags, hz, hn, hv, if_true]
    cases imm <;> rfl
  | false =>
    have hz : (toCtype .word (masked cpu.A .word &&& masked v .word) == 0) =
        (cpu.A &&& v == 0) := by
      rw [masked_word, masked_word, toCtype, BitVec.setWidth_and]
      exact congrArg₂ (fun a b : Word => a &&& b == 0) (toCtype_word_cint16 cpu.A)
        (toCtype_word_cint16 v)
    have hn : (masked v .word &&& signBit .word != 0) = (v &&& 0x8000 != 0) := by
      rw [masked_word]
      exact cint16_and_bne v 0x8000
    have hv : (masked v .word &&& overflowBit .word != 0) = (v &&& 0x4000 != 0) := by
      rw [masked_word]
      exact cint16_and_bne v 0x4000
    simp only [show widthOf false = .word from rfl, emitBitTest, bitFlags, hz, hn, hv,
      Bool.false_eq_true, if_false]
    cases imm <;> rfl

theorem bit_agrees (bb : ByteBus M) (o : Operand) (cpu : CpuState) (i : Interp816 M) (m : M) :
    bit bb o (interpWith cpu i m) =
      (let r := readAt bb (widthOf cpu.mFlag) o m
       interpWith (emitBitTest r.1 (widthOf cpu.mFlag) false cpu) i r.2) := by
  have hform : ∀ s : Interp816 M, bit bb o s =
      loadOp s.mf (fun b => bitFlags false true (b.setWidth 16)) (bitFlags false false) bb o s := by
    intro s
    unfold bit loadOp
    cases s.mf with
    | true => simp only [bitFlags, loByte_setWidth, if_true, Bool.false_eq_true, if_false]
    | false => rfl
  rw [hform]
  exact loadOp_interpWith (fun w v cpu => emitBitTest v w false cpu)
    (fun _ b m => (bitTest_agrees false true (b.setWidth 16) cpu i m).symm)
    (fun _ v m => (bitTest_agrees false false v cpu i m).symm) bb o m

/-- `BIT #imm` past the operand's fetch. -/
def bitImm (bb : ByteBus M) (o : Operand) (s : Interp816 M) : Interp816 M :=
  loadOp s.mf (fun b => bitFlags true true (b.setWidth 16)) (bitFlags true false) bb o s

theorem adrImm_byte {s : Interp816 M} (h : s.mf = true) :
    adrImm false s = (⟨bankAddr s.k s.pc, 0⟩, { s with pc := s.pc + 1 }) := by
  rw [adrImm, h]
  rfl

theorem adrImm_word {s : Interp816 M} (h : s.mf = false) :
    adrImm false s =
      (⟨bankAddr s.k s.pc, bankAddr s.k (s.pc + 1)⟩, { s with pc := s.pc + 1 + 1 }) := by
  rw [adrImm, h]
  rfl

theorem biti_eq (bb : ByteBus M) (s : Interp816 M) :
    biti bb s = bitImm bb (adrImm false s).1 (adrImm false s).2 := by
  unfold biti bitImm loadOp
  cases hm : s.mf with
  | true =>
    rw [adrImm_byte hm, if_pos rfl, if_pos hm]
    simp only [bitFlags, loByte_setWidth, if_true]
    rfl
  | false =>
    rw [adrImm_word hm, if_neg Bool.false_ne_true, if_neg (by simp [hm])]
    rfl

theorem bitImm_agrees (bb : ByteBus M) (o : Operand) (cpu : CpuState) (i : Interp816 M) (m : M) :
    bitImm bb o (interpWith cpu i m) =
      (let r := readAt bb (widthOf cpu.mFlag) o m
       interpWith (emitBitTest r.1 (widthOf cpu.mFlag) true cpu) i r.2) :=
  loadOp_interpWith (fun w v cpu => emitBitTest v w true cpu)
    (fun _ b m => (bitTest_agrees true true (b.setWidth 16) cpu i m).symm)
    (fun _ v m => (bitTest_agrees true false v cpu i m).symm) bb o m

/-! ### Shifts -/

/-- The shifted value, before it is cut to the width. -/
def shiftOut (op : ShiftOp) (v : CInt) (w : Width) (c : Bool) : CInt :=
  match op with
  | .asl => v <<< 1
  | .lsr => v >>> 1
  | .rol => (v <<< 1) ||| cintB c
  | .ror => (v >>> 1) ||| (cintB c <<< (bits w - 1))

/-- The bit shifted out. -/
def shiftCarry (op : ShiftOp) (v : CInt) (w : Width) : Bool :=
  match op with
  | .asl | .rol => v &&& signBit w != 0
  | .lsr | .ror => v &&& 1 != 0

theorem emitShift_eq (op : ShiftOp) (src : Word) (w : Width) (cpu : CpuState) :
    emitShift op src w cpu =
      (let out := toCtype w (shiftOut op (masked src w) w cpu.flagC)
       (out, setNzNoP (cint16 out) w { cpu with flagC := shiftCarry op (masked src w) w })) := by
  cases op <;> cases w <;> rfl

/-- Left shifts: the interpreter finds the carry above the result. -/
theorem carryBit_shiftLeft (v : CInt) (w : Width) :
    (v <<< 1 &&& carryBit w != 0) = (v &&& signBit w != 0) := by
  rw [and_carryBit, signBit_eq]
  refine Eq.trans ?_ (Bits.and_twoPow_ne_zero (by cases w <;> decide) v).symm
  cases w <;> simp [bits]

theorem carryBit_rol (v : CInt) (w : Width) (c : Bool) :
    (((v <<< 1) ||| cintB c) &&& carryBit w != 0) = (v &&& signBit w != 0) := by
  rw [← carryBit_shiftLeft, and_carryBit, and_carryBit, BitVec.getLsbD_or]
  cases c <;> cases w <;> simp [bits, cintB]

/-- A shift of a value `v` and its flags. -/
def shiftFlags (op : ShiftOp) (w : Width) (v : CInt) (s : Interp816 M) : CInt × Interp816 M :=
  let result := shiftOut op v w s.c
  (result, setZN (result.setWidth 16) (w = .byte) { s with c := shiftCarry op v w })

theorem shift_agrees (op : ShiftOp) (w : Width) (v : Word) (cpu : CpuState) (i : Interp816 M)
    (m : M) :
    shiftFlags op w (masked v w) (interpWith cpu i m) =
      (shiftOut op (masked v w) w cpu.flagC, interpWith (emitShift op v w cpu).2 i m) := by
  rw [emitShift_eq]
  exact Prod.ext rfl (setNz_toCtype w (shiftOut op (masked v w) w cpu.flagC)
    { cpu with flagC := shiftCarry op (masked v w) w } i m).symm

/-- The common shape of `ASL`, `LSR`, `ROL` and `ROR` on memory. -/
def shiftMem (op : ShiftOp) (bb : ByteBus M) (o : Operand) (s : Interp816 M) : Interp816 M :=
  rmwOp s.mf
    (fun b s =>
      let r := shiftFlags op .byte (cint8 b) s
      (r.1.setWidth 8, r.2))
    (fun v s =>
      let r := shiftFlags op .word (cint16 v) s
      (r.1.setWidth 16, r.2)) bb o s

theorem shiftMem_agrees (op : ShiftOp) (bb : ByteBus M) (o : Operand) (cpu : CpuState)
    (i : Interp816 M) (m : M) :
    shiftMem op bb o (interpWith cpu i m) =
      (let r := readAt bb (widthOf cpu.mFlag) o m
       let out := emitShift op r.1 (widthOf cpu.mFlag) cpu
       interpWith out.2 i (writeAt bb (widthOf cpu.mFlag) o out.1 r.2)) := by
  refine rmwOp_interpWith (fun w v cpu => emitShift op v w cpu) (fun _ b m => ?_)
    (fun _ v m => ?_) bb o m
  · have h := shift_agrees op .byte (b.setWidth 16) cpu i m
    rw [masked_byte, loByte_setWidth] at h
    rw [h, emitShift_eq, masked_byte, loByte_setWidth, toCtype, loByte_setWidth]
  · have h := shift_agrees op .word v cpu i m
    rw [masked_word] at h
    rw [h, emitShift_eq, masked_word]
    rfl

theorem read_mf (bb : ByteBus M) (adr : Addr) (s : Interp816 M) :
    (Interp816.read bb adr s).2.mf = s.mf := rfl

theorem readWord_mf (bb : ByteBus M) (low high : Addr) (s : Interp816 M) :
    (readWord bb low high s).2.mf = s.mf := rfl

theorem asl_eq (bb : ByteBus M) (o : Operand) (s : Interp816 M) :
    asl bb o s = shiftMem .asl bb o s := by
  have h8 := fun b => (carryBit_shiftLeft (cint8 b) .byte).symm
  have h16 := fun v => (carryBit_shiftLeft (cint16 v) .word).symm
  unfold asl shiftMem rmwOp
  cases hm : s.mf with
  | true =>
    simp only [if_true, shiftFlags, shiftCarry, h8, read_mf, hm]
    rfl
  | false =>
    simp only [Bool.false_eq_true, if_false, shiftFlags, shiftCarry, h16, readWord_mf, hm]
    rfl

theorem lsr_eq (bb : ByteBus M) (o : Operand) (s : Interp816 M) :
    lsr bb o s = shiftMem .lsr bb o s := by
  have h8 : ∀ b, (cint8 b &&& 1 != 0) = (b &&& 1 != 0) := fun b => cint8_and_bne b 1
  have h16 : ∀ v, (cint16 v &&& 1 != 0) = (v &&& 1 != 0) := fun v => cint16_and_bne v 1
  unfold lsr shiftMem rmwOp
  cases hm : s.mf with
  | true =>
    simp only [if_true, shiftFlags, shiftCarry, h8, read_mf, hm]
    rfl
  | false =>
    simp only [Bool.false_eq_true, if_false, shiftFlags, shiftCarry, h16, readWord_mf, hm]
    rfl

theorem rol_eq (bb : ByteBus M) (o : Operand) (s : Interp816 M) :
    rol bb o s = shiftMem .rol bb o s := by
  have h8 := fun b => (carryBit_rol (cint8 b) .byte s.c).symm
  have h16 := fun v => (carryBit_rol (cint16 v) .word s.c).symm
  unfold rol shiftMem rmwOp
  cases hm : s.mf with
  | true =>
    simp only [if_true, shiftFlags, shiftCarry, h8, read_mf, hm]
    rfl
  | false =>
    simp only [Bool.false_eq_true, if_false, shiftFlags, shiftCarry, h16, readWord_mf, hm]
    rfl

theorem ror_eq (bb : ByteBus M) (o : Operand) (s : Interp816 M) :
    ror bb o s = shiftMem .ror bb o s := by
  have h8 : ∀ b, (cint8 b &&& 1 != 0) = (b &&& 1 != 0) := fun b => cint8_and_bne b 1
  have h16 : ∀ v, (cint16 v &&& 1 != 0) = (v &&& 1 != 0) := fun v => cint16_and_bne v 1
  unfold ror shiftMem rmwOp
  cases hm : s.mf with
  | true =>
    simp only [if_true, read_mf, hm]
    simp only [shiftFlags, shiftCarry, h8]
    rfl
  | false =>
    simp only [Bool.false_eq_true, if_false, readWord_mf, hm]
    simp only [shiftFlags, shiftCarry, h16]
    rfl

/-! ### Increments and bit sets on memory -/

/-- The value `INC` or `DEC` stores, and the registers after it. -/
def incStep (delta : Delta) (w : Width) (v : Word) (cpu : CpuState) : Word × CpuState :=
  let im := toCtype w (cint16 v + delta.toCInt)
  (im, setNzNoP (cint16 im) w cpu)

theorem addMem_agrees (delta : Delta) (bb : ByteBus M) (o : Operand) (cpu : CpuState)
    (i : Interp816 M) (m : M) :
    addMem bb delta.toCInt o (interpWith cpu i m) =
      (let r := readAt bb (widthOf cpu.mFlag) o m
       let out := incStep delta (widthOf cpu.mFlag) r.1 cpu
       interpWith out.2 i (writeAt bb (widthOf cpu.mFlag) o out.1 r.2)) := by
  have hform : ∀ s : Interp816 M, addMem bb delta.toCInt o s =
      rmwOp s.mf
        (fun b s => ((cint8 b + delta.toCInt).setWidth 8,
          setZN ((cint8 b + delta.toCInt).setWidth 16) true s))
        (fun v s => ((cint16 v + delta.toCInt).setWidth 16,
          setZN ((cint16 v + delta.toCInt).setWidth 16) false s)) bb o s := by
    intro s
    unfold addMem rmwOp
    cases hm : s.mf with
    | true =>
      simp only [if_true, read_mf, hm]
      rfl
    | false =>
      simp only [Bool.false_eq_true, if_false, readWord_mf, hm]
      rfl
  rw [hform]
  refine rmwOp_interpWith (incStep delta) (fun _ b m => ?_) (fun _ v m => ?_) bb o m
  · have h := setNz_toCtype .byte (cint8 b + delta.toCInt) cpu i m
    rw [incStep, cint16_setWidth, h, toCtype, loByte_setWidth]
    rfl
  · have h := setNz_toCtype .word (cint16 v + delta.toCInt) cpu i m
    rw [incStep, h]
    rfl

/-- The value `TSB` (`clear = false`) or `TRB` stores, and the registers after it. -/
def bitMemStep (clear : Bool) (_w : Width) (v : Word) (cpu : CpuState) : Word × CpuState :=
  (if clear then v &&& ~~~ cpu.A else v ||| cpu.A, { cpu with flagZ := v &&& cpu.A == 0 })

theorem setWidth_and (b : Byte) (a : Word) :
    (b.setWidth 16 : Word) &&& a = (loByte a &&& b).setWidth 16 := by
  apply BitVec.eq_of_getLsbD_eq
  intro j hj
  simp only [BitVec.getLsbD_and, BitVec.getLsbD_setWidth, loByte, hj, decide_true, Bool.true_and]
  by_cases h8 : j < 8
  · simp only [h8, decide_true, Bool.true_and, Bool.and_comm]
  · rw [BitVec.getLsbD_of_ge b j (by omega), Bool.false_and, Bool.and_false]

theorem setWidth_and_beq_zero (b : Byte) (a : Word) :
    ((b.setWidth 16 : Word) &&& a == 0) = (loByte a &&& b == 0) := by
  rw [setWidth_and, setWidth_beq_zero]

theorem and_beq_zero_comm (v a : Word) : (v &&& a == 0) = (a &&& v == 0) := by
  rw [BitVec.and_comm]

theorem tsb_agrees (bb : ByteBus M) (o : Operand) (cpu : CpuState) (i : Interp816 M) (m : M) :
    tsb bb o (interpWith cpu i m) =
      (let r := readAt bb (widthOf cpu.mFlag) o m
       let out := bitMemStep false (widthOf cpu.mFlag) r.1 cpu
       interpWith out.2 i (writeAt bb (widthOf cpu.mFlag) o out.1 r.2)) := by
  have hform : ∀ s : Interp816 M, tsb bb o s =
      rmwOp s.mf
        (fun b s => (b ||| loByte s.a, { s with z := loByte s.a &&& b == 0 }))
        (fun v s => (v ||| s.a, { s with z := s.a &&& v == 0 })) bb o s := by
    intro s
    unfold tsb rmwOp
    cases s.mf <;> rfl
  rw [hform]
  refine rmwOp_interpWith (bitMemStep false) (fun _ b m => ?_) (fun _ v m => ?_) bb o m
  · have hout : loByte (b.setWidth 16 ||| cpu.A) = b ||| loByte cpu.A := by
      rw [loByte, BitVec.setWidth_or]
      exact congrArg (· ||| loByte cpu.A) (loByte_setWidth b)
    simp only [bitMemStep, setWidth_and_beq_zero, Bool.false_eq_true, if_false, hout]
    rfl
  · simp only [bitMemStep, and_beq_zero_comm v, Bool.false_eq_true, if_false]
    rfl

theorem trb_agrees (bb : ByteBus M) (o : Operand) (cpu : CpuState) (i : Interp816 M) (m : M) :
    trb bb o (interpWith cpu i m) =
      (let r := readAt bb (widthOf cpu.mFlag) o m
       let out := bitMemStep true (widthOf cpu.mFlag) r.1 cpu
       interpWith out.2 i (writeAt bb (widthOf cpu.mFlag) o out.1 r.2)) := by
  have hform : ∀ s : Interp816 M, trb bb o s =
      rmwOp s.mf
        (fun b s => (b &&& ~~~ (loByte s.a), { s with z := loByte s.a &&& b == 0 }))
        (fun v s => (v &&& ~~~ s.a, { s with z := s.a &&& v == 0 })) bb o s := by
    intro s
    unfold trb rmwOp
    cases s.mf <;> rfl
  rw [hform]
  refine rmwOp_interpWith (bitMemStep true) (fun _ b m => ?_) (fun _ v m => ?_) bb o m
  · have hnot : loByte (~~~ cpu.A) = ~~~ loByte cpu.A :=
      BitVec.setWidth_not (by decide)
    have hout : loByte (b.setWidth 16 &&& ~~~ cpu.A) = b &&& ~~~ loByte cpu.A := by
      rw [← hnot, loByte, BitVec.setWidth_and]
      exact congrArg (· &&& loByte (~~~ cpu.A)) (loByte_setWidth b)
    simp only [bitMemStep, setWidth_and_beq_zero, if_true, hout]
    rfl
  · simp only [bitMemStep, and_beq_zero_comm v, if_true]
    rfl

/-! ### The accumulator forms -/

/-- The common shape of the shifts of `A`. -/
def shiftA (op : ShiftOp) (s : Interp816 M) : Interp816 M :=
  if s.mf then
    setZNA { s with
      c := shiftCarry op (cint8 (loByte s.a)) .byte
      a := withLow s.a ((shiftOut op (cint8 (loByte s.a)) .byte s.c).setWidth 8) }
  else
    setZNA { s with
      c := shiftCarry op (cint16 s.a) .word
      a := (shiftOut op (cint16 s.a) .word s.c).setWidth 16 }

theorem shiftA_agrees (op : ShiftOp) (cpu : CpuState) (i : Interp816 M) (m : M) :
    shiftA op (interpWith cpu i m) =
      (let out := emitShift op cpu.A (widthOf cpu.mFlag) cpu
       interpWith (emitWriteReg .a out.1 out.2) i m) := by
  cases hm : cpu.mFlag with
  | true =>
    have h := writeA_byte { cpu with flagC := shiftCarry op (cint8 (loByte cpu.A)) .byte }
      hm i m ((shiftOut op (cint8 (loByte cpu.A)) .byte cpu.flagC).setWidth 8)
    have hmf : (interpWith cpu i m).mf = true := hm
    rw [show widthOf true = .byte from rfl, emitShift_eq, masked_byte]
    refine Eq.trans ?_ h.symm
    rw [shiftA, if_pos hmf]
    exact setZNA_of_mf hm
  | false =>
    have h := writeA_word { cpu with flagC := shiftCarry op (cint16 cpu.A) .word }
      hm i m ((shiftOut op (cint16 cpu.A) .word cpu.flagC).setWidth 16)
    have hmf : ¬ (interpWith cpu i m).mf = true := by
      rw [show (interpWith cpu i m).mf = false from hm]
      decide
    rw [show widthOf false = .word from rfl, emitShift_eq, masked_word]
    refine Eq.trans ?_ h.symm
    rw [shiftA, if_neg hmf]
    exact setZNA_of_mf hm

/-- Bits of the low byte of `A`, seen in `A`. -/
theorem loByte_shiftLeft (v : Word) : (cint8 (loByte v) <<< 1).setWidth 8 = loByte (v <<< 1) := by
  apply BitVec.eq_of_toNat_eq
  have hv := v.isLt
  simp only [cint8, loByte, BitVec.toNat_setWidth, BitVec.toNat_shiftLeft, Nat.shiftLeft_eq]
  omega

theorem cint16_shiftLeft_byte (v : Word) : (cint16 v <<< 1).setWidth 8 = loByte (v <<< 1) := by
  apply BitVec.eq_of_toNat_eq
  have hv := v.isLt
  simp only [cint16, loByte, BitVec.toNat_setWidth, BitVec.toNat_shiftLeft, Nat.shiftLeft_eq]
  omega

theorem cint16_shiftLeft (v : Word) : (cint16 v <<< 1).setWidth 16 = v <<< 1 := by
  apply BitVec.eq_of_toNat_eq
  have hv := v.isLt
  simp only [cint16, BitVec.toNat_setWidth, BitVec.toNat_shiftLeft, Nat.shiftLeft_eq]
  omega

theorem cint16_shiftRight (v : Word) : (cint16 v >>> 1).setWidth 16 = v >>> 1 := by
  apply BitVec.eq_of_toNat_eq
  have hv := v.isLt
  simp only [cint16, BitVec.toNat_setWidth, BitVec.toNat_ushiftRight, Nat.shiftRight_eq_div_pow]
  omega

theorem loByte_shiftRight (v : Word) :
    ((cint8 (loByte v) >>> 1).setWidth 8).setWidth 16 = (v >>> 1) &&& 0x7F := by
  apply BitVec.eq_of_toNat_eq
  have hv := v.isLt
  have hmask : ((v >>> 1) &&& 0x7F).toNat = v.toNat / 2 % 128 := by
    rw [BitVec.toNat_and, BitVec.toNat_ushiftRight, Nat.shiftRight_eq_div_pow]
    exact Nat.and_two_pow_sub_one_eq_mod _ 7
  rw [hmask]
  simp only [cint8, loByte, BitVec.toNat_setWidth, BitVec.toNat_ushiftRight,
    Nat.shiftRight_eq_div_pow]
  omega

/-- A test of the low byte of `A`, seen in `A`. -/
theorem cint8_loByte_bne (v : Word) {n : CInt} {n' : Word} (h : (0xFF : CInt) &&& n = n)
    (h' : n = cint16 n') : (cint8 (loByte v) &&& n != 0) = (v &&& n' != 0) := by
  rw [cint8_loByte_and v h, h', cint16_and_bne]

theorem asla_eq (s : Interp816 M) : asla s = shiftA .asl s := by
  have h8 : (cint8 (loByte s.a) &&& signBit .byte != 0) = (s.a &&& 0x80 != 0) :=
    cint8_loByte_bne s.a (by decide) (by decide)
  have h16 : (cint16 s.a &&& signBit .word != 0) = (s.a &&& 0x8000 != 0) := cint16_and_bne s.a 0x8000
  unfold asla shiftA
  simp only [shiftCarry, shiftOut, h8, h16, loByte_shiftLeft, cint16_shiftLeft]
  cases s.mf <;> rfl

theorem lsra_eq (s : Interp816 M) : lsra s = shiftA .lsr s := by
  have h8 : (cint8 (loByte s.a) &&& 1 != 0) = (s.a &&& 1 != 0) :=
    cint8_loByte_bne s.a (by decide) (by decide)
  have h16 : (cint16 s.a &&& 1 != 0) = (s.a &&& 1 != 0) := cint16_and_bne s.a 1
  unfold lsra shiftA withLow
  simp only [shiftCarry, shiftOut, h8, h16, loByte_shiftRight, cint16_shiftRight]
  cases s.mf <;> rfl

theorem rola_eq (s : Interp816 M) : rola s = shiftA .rol s := by
  have h8 : (((cint16 s.a <<< 1) ||| cintB s.c) &&& 0x100 != 0) =
      (cint8 (loByte s.a) &&& signBit .byte != 0) :=
    (carryBit_rol (cint16 s.a) .byte s.c).trans
      (congrArg (· != 0) (cint8_loByte_and s.a (by decide)).symm)
  have h16 : (((cint16 s.a <<< 1) ||| cintB s.c) &&& 0x10000 != 0) =
      (cint16 s.a &&& signBit .word != 0) := carryBit_rol (cint16 s.a) .word s.c
  unfold rola shiftA
  simp only [shiftCarry, shiftOut, h8, h16, BitVec.setWidth_or, loByte_shiftLeft,
    cint16_shiftLeft_byte]
  cases s.mf <;> rfl

theorem rora_eq (s : Interp816 M) : rora s = shiftA .ror s := by
  have h8 : (cint8 (loByte s.a) &&& 1 != 0) = (s.a &&& 1 != 0) :=
    cint8_loByte_bne s.a (by decide) (by decide)
  have h16 : (cint16 s.a &&& 1 != 0) = (s.a &&& 1 != 0) := cint16_and_bne s.a 1
  have hc : ((cintB s.c <<< (bits .byte - 1)).setWidth 8).setWidth 16 =
      (cintB s.c <<< 7).setWidth 16 := by cases s.c <;> decide
  unfold rora shiftA withLow
  simp only [shiftCarry, shiftOut, h8, h16, BitVec.setWidth_or, loByte_shiftRight,
    cint16_shiftRight, hc, BitVec.or_assoc]
  cases s.mf <;> rfl

theorem setWidth_incByte (delta : Delta) (v : Word) :
    (cint8 (loByte v) + delta.toCInt).setWidth 8 = loByte (v + delta.toCInt.setWidth 16) := by
  rw [BitVec.setWidth_add _ _ (by decide), setWidth_cint8, loByte, loByte,
    BitVec.setWidth_add _ _ (by decide), BitVec.setWidth_setWidth_of_le _ (by decide)]

theorem setWidth_incWord (delta : Delta) (v : Word) :
    (cint16 v + delta.toCInt).setWidth 16 = v + delta.toCInt.setWidth 16 := by
  rw [BitVec.setWidth_add _ _ (by decide), cint16, BitVec.setWidth_setWidth_of_le _ (by decide),
    BitVec.setWidth_eq]

theorem setA_byte {s : Interp816 M} (h : s.mf = true) (v : Word) :
    setA v s = setZN (withLow s.a (loByte v)) true { s with a := withLow s.a (loByte v) } := by
  simp only [setA, h, if_true]

theorem setA_word {s : Interp816 M} (h : s.mf = false) (v : Word) :
    setA v s = setZN v false { s with a := v } := by
  simp only [setA, h, Bool.false_eq_true, if_false]

theorem incA_agrees (delta : Delta) (cpu : CpuState) (i : Interp816 M) (m : M) :
    setA (cpu.A + delta.toCInt.setWidth 16) (interpWith cpu i m) =
      interpWith (emitIncReg .a delta cpu) i m := by
  cases hm : cpu.mFlag with
  | true =>
    have h := setNz_byte { cpu with
      A := withLow cpu.A ((cint8 (loByte cpu.A) + delta.toCInt).setWidth 8) } i m
      (loByte_withLow cpu.A ((cint8 (loByte cpu.A) + delta.toCInt).setWidth 8))
    rw [setA_byte hm, ← setWidth_incByte, emitIncReg, if_pos hm]
    exact h.symm
  | false =>
    have h := setNz_word { cpu with A := (cint16 cpu.A + delta.toCInt).setWidth 16 } i m
      ((cint16 cpu.A + delta.toCInt).setWidth 16)
    rw [setA_word hm, ← setWidth_incWord, emitIncReg, if_neg (by simp [hm])]
    exact h.symm

end SnesRecomp.Tiers
