import SnesRecomp.Recompiler.Graph
import SnesRecomp.Tiers.AluSteps
import SnesRecomp.Interp.Opcodes
import SnesRecomp.Recompiler.IndexHigh

/-!
# Data movement of the two tiers, operation by operation

The loads, transfers, increments and flag operations of `interp816.c` against the lines
emitted for them, as equalities of whole states (`interpWith`).  A value reaches a
register in one way, `transferWide`: at the width its flag has at run time, with `N` and
`Z` from it.  Loads and increments are brought to that form.

`REP`, `SEP` and `XCE` end in `interp816_setFlags`, which clears the high bytes of 8-bit
index registers and keeps `S` in page one in emulation mode.  The emitted lines do
neither, so their lemmas say when nothing was left to clear.
-/

namespace SnesRecomp.Tiers

open Recompiler Interp816

variable {M : Type}

/-! ### A value into a register -/

theorem toNat_and_0xFF (v : Word) : (v &&& 0xFF).toNat = v.toNat % 256 := by
  rw [BitVec.toNat_and]
  exact Bits.and_0xFF v.toNat

theorem and_0xFF_eq_loByte (v : Word) : v &&& 0xFF = (loByte v).setWidth 16 := by
  have hv := v.isLt
  apply BitVec.eq_of_toNat_eq
  rw [toNat_and_0xFF, BitVec.toNat_setWidth, loByte_toNat]
  omega

theorem setA_agrees (v : Word) (cpu : CpuState) (i : Interp816 M) (m : M) :
    setA v (interpWith cpu i m) = interpWith (transferWide cpu.mFlag v .a cpu) i m := by
  cases hm : cpu.mFlag with
  | true =>
    rw [setA_byte hm]
    exact (setNz_byte { cpu with A := withLow cpu.A (loByte v) } i m (loByte_withLow _ _)).symm
  | false =>
    rw [setA_word hm]
    exact (setNz_word { cpu with A := v } i m v).symm

/-! `setX` and `setY`, by the register. -/

def indexReg : IdxReg → Reg
  | .x => .x
  | .y => .y

def setIndex : IdxReg → Word → Interp816 M → Interp816 M
  | .x => setX
  | .y => setY

def putIndex : IdxReg → Word → Interp816 M → Interp816 M
  | .x, v, s => { s with x := v }
  | .y, v, s => { s with y := v }

theorem setIndex_byte (r : IdxReg) {s : Interp816 M} (h : s.xf = true) (v : Word) :
    setIndex r v s = setZN ((loByte v).setWidth 16) true (putIndex r ((loByte v).setWidth 16) s) := by
  cases r <;> simp only [setIndex, setX, setY, putIndex, h, if_true, and_0xFF_eq_loByte]

theorem setIndex_word (r : IdxReg) {s : Interp816 M} (h : s.xf = false) (v : Word) :
    setIndex r v s = setZN v false (putIndex r v s) := by
  cases r <;> simp only [setIndex, setX, setY, putIndex, h, Bool.false_eq_true, if_false]

theorem putIndex_interpWith (r : IdxReg) (v : Word) (cpu : CpuState) (i : Interp816 M) (m : M) :
    putIndex r v (interpWith cpu i m) = interpWith (writeRegField cpu v (indexReg r)) i m := by
  cases r <;> rfl

theorem setIndex_agrees (r : IdxReg) (v : Word) (cpu : CpuState) (i : Interp816 M) (m : M) :
    setIndex r v (interpWith cpu i m) = interpWith (transferWide cpu.xFlag v (indexReg r) cpu) i m := by
  cases hx : cpu.xFlag with
  | true =>
    have hwide : transferWide true v (indexReg r) cpu =
        setNz (cint8 (loByte v)) .byte (writeRegField cpu ((loByte v).setWidth 16) (indexReg r)) := by
      cases r <;> rfl
    rw [setIndex_byte r hx, putIndex_interpWith, hwide]
    exact (setNz_byte _ i m (loByte_setWidth (loByte v))).symm
  | false =>
    have hwide : transferWide false v (indexReg r) cpu =
        setNz (cint16 v) .word (writeRegField cpu v (indexReg r)) := by
      cases r <;> rfl
    rw [setIndex_word r hx, putIndex_interpWith, hwide]
    exact (setNz_word _ i m v).symm

/-! ### Loads and stores -/

/-- The registers after the emitted lines of a load of `v`. -/
def loadStep (reg : Reg) (w : Width) (v : Word) (cpu : CpuState) : CpuState :=
  setNz (masked v w) w (emitWriteReg reg v cpu)

theorem setNz_masked (w : Width) (v : Word) (cpu : CpuState) :
    setNz (masked v w) w cpu =
      match w with
      | .byte => setNz (cint8 (loByte v)) .byte cpu
      | .word => setNz (cint16 v) .word cpu := by
  cases w with
  | byte => rw [masked_byte]
  | word => rw [masked_word]

theorem loadStep_a (cpu : CpuState) (v : Word) :
    loadStep .a (widthOf cpu.mFlag) v cpu = transferWide cpu.mFlag v .a cpu := by
  rw [loadStep, setNz_masked]
  cases hm : cpu.mFlag with
  | true => simp only [widthOf, if_true, emitWriteReg, cpuWriteAM, hm]; rfl
  | false => simp only [widthOf, Bool.false_eq_true, if_false, emitWriteReg, cpuWriteAM, hm]; rfl

theorem loadStep_index (r : IdxReg) (cpu : CpuState) (v : Word) :
    loadStep (indexReg r) (widthOf cpu.xFlag) v cpu = transferWide cpu.xFlag v (indexReg r) cpu := by
  rw [loadStep, setNz_masked]
  cases hx : cpu.xFlag with
  | true => cases r <;> simp only [widthOf, if_true, indexReg, emitWriteReg, cpuWriteXX, cpuWriteYX, hx] <;> rfl
  | false =>
    cases r <;>
      simp only [widthOf, Bool.false_eq_true, if_false, indexReg, emitWriteReg, cpuWriteXX, cpuWriteYX, hx] <;>
      rfl

def ldIndex : IdxReg → ByteBus M → Operand → Interp816 M → Interp816 M
  | .x => ldx
  | .y => ldy

/-! A load reads at its width and writes the register as a transfer would. -/

theorem lda_eq (bb : ByteBus M) (o : Operand) (s : Interp816 M) :
    lda bb o s = loadOp s.mf (fun b s => setA (b.setWidth 16) s) setA bb o s := by
  cases hm : s.mf with
  | true =>
    have hr : (Interp816.read bb o.low s).2.mf = true := hm
    simp only [lda, loadOp, hm, hr, if_true, setA, loByte_setWidth]
  | false =>
    have hr : (readWord bb o.low o.high s).2.mf = false := hm
    simp only [lda, loadOp, hm, hr, Bool.false_eq_true, if_false, setA]

theorem ldIndex_eq (r : IdxReg) (bb : ByteBus M) (o : Operand) (s : Interp816 M) :
    ldIndex r bb o s = loadOp s.xf (fun b s => setIndex r (b.setWidth 16) s) (setIndex r) bb o s := by
  cases hx : s.xf with
  | true =>
    have hr : (Interp816.read bb o.low s).2.xf = true := hx
    cases r <;>
      simp only [ldIndex, ldx, ldy, readIndex, loadOp, hx, hr, if_true, setIndex_byte _ hr, putIndex,
        loByte_setWidth]
  | false =>
    have hr : (readWord bb o.low o.high s).2.xf = false := hx
    cases r <;>
      simp only [ldIndex, ldx, ldy, readIndex, loadOp, hx, hr, Bool.false_eq_true, if_false,
        setIndex_word _ hr, putIndex]

theorem lda_agrees (bb : ByteBus M) (o : Operand) (cpu : CpuState) (i : Interp816 M) (m : M) :
    lda bb o (interpWith cpu i m) =
      (let r := readAt bb (widthOf cpu.mFlag) o m
       interpWith (loadStep .a (widthOf cpu.mFlag) r.1 cpu) i r.2) := by
  rw [lda_eq]
  simp only [loadStep_a]
  exact loadOp_interpWith (fun _ v cpu => transferWide cpu.mFlag v .a cpu)
    (fun _ b m => setA_agrees _ cpu i m) (fun _ v m => setA_agrees v cpu i m) bb o m

theorem ldIndex_agrees (r : IdxReg) (bb : ByteBus M) (o : Operand) (cpu : CpuState) (i : Interp816 M)
    (m : M) : ldIndex r bb o (interpWith cpu i m) =
      (let v := readAt bb (widthOf cpu.xFlag) o m
       interpWith (loadStep (indexReg r) (widthOf cpu.xFlag) v.1 cpu) i v.2) := by
  rw [ldIndex_eq]
  simp only [loadStep_index]
  exact loadOp_interpWith (fun _ v cpu => transferWide cpu.xFlag v (indexReg r) cpu)
    (fun _ b m => setIndex_agrees r _ cpu i m) (fun _ v m => setIndex_agrees r v cpu i m) bb o m

/-- The interpreter's store of a register, low byte first. -/
def storeAt (bb : ByteBus M) (w : Width) (o : Operand) (v : Word) (m : M) : M :=
  match w with
  | .byte => bb.write o.low (loByte v) m
  | .word => bb.write o.high (hiByte v) (bb.write o.low (loByte v) m)

theorem store_agrees (byte : Bool) (v : Word) (bb : ByteBus M) (o : Operand) (cpu : CpuState)
    (i : Interp816 M) (m : M) :
    store bb byte v o (interpWith cpu i m) = interpWith cpu i (storeAt bb (widthOf byte) o v m) := by
  cases byte <;> rfl

/-! ### Transfers, increments and flags -/

/-- The interpreter's word transfers `TCD`, `TDC`, `TSC`. -/
theorem setZN_word_agrees (v : Word) (cpu : CpuState) (i : Interp816 M) (m : M) :
    setZN v false (interpWith cpu i m) = interpWith (setNz (cint16 v) .word cpu) i m :=
  (setNz_word cpu i m v).symm

/-- `INX`, `INY`, `DEX` and `DEY` write a sum back as a transfer would. -/
theorem emitIncReg_agrees (r : IdxReg) (delta : Delta) (cpu : CpuState) (i : Interp816 M) (m : M) :
    setIndex r (readRegField cpu (indexReg r) + delta.toCInt.setWidth 16) (interpWith cpu i m) =
      interpWith (emitIncReg (indexReg r) delta cpu) i m := by
  rw [setIndex_agrees]
  cases hx : cpu.xFlag with
  | true =>
    cases r <;> simp only [indexReg, transferWide, emitIncReg, readRegField, hx, if_true, ← setWidth_incByte] <;>
      rfl
  | false =>
    cases r <;>
      simp only [indexReg, transferWide, emitIncReg, readRegField, hx, Bool.false_eq_true, if_false,
        ← setWidth_incWord] <;>
      rfl

theorem xba_agrees (cpu : CpuState) (i : Interp816 M) (m : M) :
    xba (interpWith cpu i m) = interpWith (emitXba cpu) i m := by
  have hlow : loByte ((hiByte cpu.A).setWidth 16) = loByte (mkWord (hiByte cpu.A) (loByte cpu.A)) := by
    rw [loByte_setWidth, loByte_mkWord]
  have hz : ((hiByte cpu.A).setWidth 16 &&& 0xFF == (0 : Word)) =
      (mkWord (hiByte cpu.A) (loByte cpu.A) &&& 0xFF == 0) := by
    rw [and_0xFF_beq_zero, and_0xFF_beq_zero, hlow]
  have hn : ((hiByte cpu.A).setWidth 16 &&& 0x80 != (0 : Word)) =
      (mkWord (hiByte cpu.A) (loByte cpu.A) &&& 0x80 != 0) :=
    (cint8_sign hlow).symm.trans (cint8_sign rfl)
  have ha : (interpWith cpu i m).a = cpu.A := rfl
  simp only [xba, setZN, if_true, ha, hz, hn]
  rfl

/-! ### The packed flags -/

theorem getFlags_interpWith (cpu : CpuState) (i : Interp816 M) (m : M) :
    getFlags (interpWith cpu i m) = (cpuMirrorsToP cpu).P := by
  show bitIf cpu.flagN 0x80 ||| bitIf cpu.flagV 0x40 ||| bitIf cpu.mFlag 0x20 ||| bitIf cpu.xFlag 0x10 |||
      bitIf cpu.flagD 0x08 ||| bitIf cpu.flagI 0x04 ||| bitIf cpu.flagZ 0x02 ||| bitIf cpu.flagC 0x01 = _
  show _ = bitIf cpu.mFlag cpuPM ||| bitIf cpu.xFlag cpuPX ||| bitIf cpu.flagC cpuPC |||
      bitIf cpu.flagZ cpuPZ ||| bitIf cpu.flagI cpuPI ||| bitIf cpu.flagD cpuPD |||
      bitIf cpu.flagV cpuPV ||| bitIf cpu.flagN cpuPN
  generalize cpu.flagN = n, cpu.flagV = v, cpu.mFlag = fm, cpu.xFlag = fx, cpu.flagD = d,
    cpu.flagI = fi, cpu.flagZ = z, cpu.flagC = c
  revert n v fm fx d fi z c
  decide

/-- Narrow index registers have no high bytes to clear. -/
theorem clearIndexHigh_interpWith_iff (cpu : CpuState) (i : Interp816 M) (m : M) :
    clearIndexHigh (interpWith cpu i m) = interpWith cpu i m ↔ IndexHigh cpu := by
  have hmask : ∀ v : Word, v &&& 0xFF = v ↔ v.toNat < 256 := by
    intro v
    rw [← BitVec.toNat_inj, toNat_and_0xFF]
    omega
  have hxf : (interpWith cpu i m).xf = cpu.xFlag := rfl
  rw [clearIndexHigh, IndexHigh, Narrow, hxf, ← hmask, ← hmask]
  by_cases hx : cpu.xFlag = true
  · rw [if_pos hx]
    constructor
    · intro h _
      exact ⟨congrArg Interp816.x h, congrArg Interp816.y h⟩
    · intro h
      have hX : (interpWith cpu i m).x &&& 0xFF = cpu.X := (h hx).1
      have hY : (interpWith cpu i m).y &&& 0xFF = cpu.Y := (h hx).2
      rw [hX, hY]
      rfl
  · rw [if_neg hx]
    exact iff_of_true rfl fun h => absurd h hx

/-- `interp816_setFlags` in native mode. -/
theorem setFlags_interpWith {cpu : CpuState} (he : cpu.emulation = false) (p : Byte)
    (i : Interp816 M) (m : M) :
    setFlags p (interpWith cpu i m) =
      clearIndexHigh (interpWith (cpuPToMirrors { cpu with P := p }) i m) := by
  have hforce : ∀ s : Interp816 M, s.e = false → forceEmulation s = s := by
    intro s hs
    rw [forceEmulation, if_neg (by rw [hs]; decide)]
  rw [setFlags, hforce]
  · rfl
  · exact he

/-- `REP` and `SEP` on the interpreter's side: past the fetch of the mask. -/
theorem modifyP_agrees_iff {cpu : CpuState} (he : cpu.emulation = false) (op : Byte → Byte)
    (i : Interp816 M) (m : M) :
    setFlags (op (getFlags (interpWith cpu i m))) (interpWith cpu i m) =
      interpWith (modifyPViaMirrors op cpu) i m ↔ IndexHigh (modifyPViaMirrors op cpu) := by
  rw [getFlags_interpWith, setFlags_interpWith he]
  exact clearIndexHigh_interpWith_iff (modifyPViaMirrors op cpu) i m

/-- Packing the flags and unpacking them changes none. -/
theorem setFlags_getFlags (s : Interp816 M) :
    setFlags (getFlags s) s = clearIndexHigh (forceEmulation s) := by
  have h : hasBit (getFlags s) 0x80 = s.n ∧ hasBit (getFlags s) 0x40 = s.v ∧
      hasBit (getFlags s) 0x20 = s.mf ∧ hasBit (getFlags s) 0x10 = s.xf ∧
      hasBit (getFlags s) 0x08 = s.d ∧ hasBit (getFlags s) 0x04 = s.i ∧
      hasBit (getFlags s) 0x02 = s.z ∧ hasBit (getFlags s) 0x01 = s.c := by
    unfold getFlags
    generalize s.n = n, s.v = v, s.mf = fm, s.xf = fx, s.d = d, s.i = fi, s.z = z, s.c = c
    revert n v fm fx d fi z c
    decide
  obtain ⟨hn, hv, hm, hx, hd, hi, hz, hc⟩ := h
  rw [setFlags, hn, hv, hm, hx, hd, hi, hz, hc]

/-- Where `XCE` moves nothing but flags in the interpreter: entering emulation mode keeps
`S` in page one, and 8-bit index registers are narrow. -/
def XcePlain (cpu : CpuState) : Prop :=
  (cpu.flagC = true → pageOne cpu.S = cpu.S) ∧ (cpu.flagC = true ∨ cpu.xFlag = true → Narrow cpu)

theorem xce_agrees_iff (cpu : CpuState) (i : Interp816 M) (m : M) :
    xce (interpWith cpu i m) = interpWith (emitXce cpu) i m ↔ XcePlain cpu := by
  let cpu' : CpuState := { cpu with emulation := cpu.flagC, flagC := cpu.emulation }
  have hxce : xce (interpWith cpu i m) = clearIndexHigh (forceEmulation (interpWith cpu' i m)) :=
    setFlags_getFlags (interpWith cpu' i m)
  rw [hxce, XcePlain]
  cases hc : cpu.flagC with
  | false =>
    have hforce : forceEmulation (interpWith cpu' i m) = interpWith cpu' i m :=
      if_neg (by rw [show (interpWith cpu' i m).e = false from hc]; decide)
    have hemit : emitXce cpu = cpu' := if_neg (show ¬ cpu.flagC = true by rw [hc]; decide)
    rw [hforce, hemit, clearIndexHigh_interpWith_iff]
    simp [IndexHigh, Narrow, cpu']
  | true =>
    let wide : CpuState := { cpu' with mFlag := true, xFlag := true }
    have hforce : forceEmulation (interpWith cpu' i m) =
        interpWith { wide with S := pageOne cpu.S } i m :=
      if_pos (show (interpWith cpu' i m).e = true from hc)
    have hemit : interpWith (emitXce cpu) i m = interpWith wide i m := by
      rw [emitXce, if_pos (show cpu.flagC = true from hc)]
      rfl
    have hwide : clearIndexHigh (interpWith wide i m) = interpWith wide i m ↔ Narrow cpu :=
      (clearIndexHigh_interpWith_iff wide i m).trans ⟨fun h => h rfl, fun h _ => h⟩
    rw [hforce, hemit, ← hwide]
    constructor
    · intro h
      have hS : pageOne cpu.S = cpu.S := congrArg Interp816.sp h
      rw [hS] at h
      exact ⟨fun _ => hS, fun _ => h⟩
    · rintro ⟨hS, hN⟩
      rw [hS rfl]
      exact hN (Or.inl rfl)

end SnesRecomp.Tiers
