import SnesRecomp.Lib.Runs
import SnesRecomp.Recompiler.Calls
import Mathlib.Tactic.Ring
import Mathlib.Data.BitVec

/-!
# The high bytes of the index registers

With 8-bit index registers (`x_flag`) the high bytes of `X` and `Y` are zero on the
hardware, and `interp816_setFlags` clears them when the flag goes up.  In the compiled
code the flag and the registers are separate fields, and indexed addressing reads all of
`X` and `Y`.  `IndexHigh` is the invariant that ties them together.

The operations that write the registers under the flag keep it.  Those that raise the
flag do not clear anything: `Keeps` is the condition on the state before each step under
which the invariant survives, and `indexHigh_iff` carries it to runs.
-/

namespace SnesRecomp.Recompiler

variable {M : Type}

/-- Both index registers fit in a byte. -/
def Narrow (cpu : CpuState) : Prop := cpu.X.toNat < 256 ∧ cpu.Y.toNat < 256

/-- The invariant: 8-bit index registers hold bytes. -/
def IndexHigh (cpu : CpuState) : Prop := cpu.xFlag = true → Narrow cpu

instance (cpu : CpuState) : Decidable (Narrow cpu) := inferInstanceAs (Decidable (_ ∧ _))

instance (cpu : CpuState) : Decidable (IndexHigh cpu) := inferInstanceAs (Decidable (_ → _))

/-! ### Steps -/

/-- What emitted code does to the registers: an operation, an `RTI`, or the mode reset
of a dispatch. -/
inductive EmitStep
  | op (op : IROp)
  | rti
  | dispatch
  deriving DecidableEq, Repr

def emitStep (bus : Bus M) : EmitStep → EmitState M → EmitState M
  | .op op, s => execOp bus op s
  | .rti, s => emitRti bus s
  | .dispatch, s => { s with cpu := dispatchReset s.cpu }

/-- The `X` or `Y` a block move ends with: one step of `delta` for each of `A + 1` bytes. -/
def blockMoveEnd (direction : Direction) (reg a : Word) : Word :=
  match direction with
  | .mvn => reg + (a + 1)
  | .mvp => reg - (a + 1)

/-- Where a step keeps the invariant.  A step that raises the flag needs narrow registers
already; a step that loads a register whatever the flag is needs a narrow value. -/
def Keeps (bus : Bus M) : EmitStep → EmitState M → Prop
  | .op (.sepFlags mask), s => hasBit (BitVec.ofNat 8 mask) cpuPX = true → Narrow s.cpu
  | .op .xce, s => s.cpu.flagC = true → Narrow s.cpu
  | .op (.pullReg .p _ _), s => hasBit (popByte bus s).1 cpuPX = true → Narrow s.cpu
  | .rti, s => hasBit (popByte bus s).1 cpuPX = true → Narrow s.cpu
  | .dispatch, s => Narrow s.cpu
  | .op (.writeReg .xf src), s => loByte (s.vals src) ≠ 0 → Narrow s.cpu
  | .op (.transfer src .xf), s => loByte (readRegField s.cpu src) ≠ 0 → Narrow s.cpu
  | .op (.setFlag .xf value), s => value = true → Narrow s.cpu
  | .op (.incReg .xf _), s => s.cpu.xFlag = false → Narrow s.cpu
  | .op (.pullReg .x _ (some false)), s =>
    s.cpu.xFlag = true → (popWord bus s).1.toNat < 256
  | .op (.pullReg .y _ (some false)), s =>
    s.cpu.xFlag = true → (popWord bus s).1.toNat < 256
  | .op (.blockMove direction _ _), s =>
    s.cpu.xFlag = true →
      (blockMoveEnd direction s.cpu.X s.cpu.A).toNat < 256 ∧
        (blockMoveEnd direction s.cpu.Y s.cpu.A).toNat < 256
  | _, _ => True

/-! ### Steps that leave flag and registers alone, or write a register under the flag -/

theorem loByte_setWidth_lt (b : Byte) : (b.setWidth 16 : Word).toNat < 256 := by
  rw [BitVec.toNat_setWidth]
  exact lt_of_le_of_lt (Nat.mod_le _ _) b.isLt

theorem indexHigh_setX {cpu cpu' : CpuState} (h : IndexHigh cpu) (hx : cpu'.xFlag = cpu.xFlag)
    (hX : cpu.xFlag = true → cpu'.X.toNat < 256) (hY : cpu'.Y = cpu.Y) : IndexHigh cpu' := by
  intro hf
  have hf' := hx.symm.trans hf
  exact ⟨hX hf', hY ▸ (h hf').2⟩

theorem indexHigh_setY {cpu cpu' : CpuState} (h : IndexHigh cpu) (hx : cpu'.xFlag = cpu.xFlag)
    (hX : cpu'.X = cpu.X) (hY : cpu.xFlag = true → cpu'.Y.toNat < 256) : IndexHigh cpu' := by
  intro hf
  have hf' := hx.symm.trans hf
  exact ⟨hX ▸ (h hf').1, hY hf'⟩

/-- A step that may raise the flag and touches neither register. -/
theorem indexHigh_raise {cpu cpu' : CpuState} (h : IndexHigh cpu) {p : Prop}
    (hx : cpu'.xFlag = true ↔ cpu.xFlag = true ∨ p) (hX : cpu'.X = cpu.X) (hY : cpu'.Y = cpu.Y) :
    IndexHigh cpu' ↔ (p → Narrow cpu) := by
  unfold IndexHigh Narrow
  rw [hx, hX, hY]
  constructor
  · intro h' hp
    exact h' (Or.inr hp)
  · rintro h' (hf | hp)
    · exact h hf
    · exact h' hp

/-- A step that replaces the flag. -/
theorem indexHigh_replace {cpu cpu' : CpuState} {p : Prop} (hx : cpu'.xFlag = true ↔ p)
    (hX : cpu'.X = cpu.X) (hY : cpu'.Y = cpu.Y) : IndexHigh cpu' ↔ (p → Narrow cpu) := by
  unfold IndexHigh Narrow
  rw [hx, hX, hY]

/-! ### The flag after each kind of step -/

theorem modifyP_flags (op : Byte → Byte) (cpu : CpuState) :
    (modifyPViaMirrors op cpu).mFlag = (op (cpuMirrorsToP cpu).P).getLsbD 5 ∧
      (modifyPViaMirrors op cpu).xFlag = (op (cpuMirrorsToP cpu).P).getLsbD 4 :=
  ⟨hasBit_cpuPM _, hasBit_cpuPX _⟩

theorem emitSep_xFlag (mask : Byte) (cpu : CpuState) :
    (emitSep mask cpu).xFlag = true ↔ cpu.xFlag = true ∨ hasBit mask cpuPX = true := by
  rw [emitSep, (modifyP_flags _ cpu).2, BitVec.getLsbD_or, cpuMirrorsToP_x, Bool.or_eq_true, hasBit_cpuPX]

theorem emitRep_xFlag (mask : Byte) (cpu : CpuState) :
    (emitRep mask cpu).xFlag = true ↔ cpu.xFlag = true ∧ hasBit mask cpuPX = false := by
  rw [emitRep, (modifyP_flags _ cpu).2, BitVec.getLsbD_and, cpuMirrorsToP_x, Bool.and_eq_true, hasBit_cpuPX]
  simp

theorem emitRep_indexHigh (mask : Byte) {cpu : CpuState} (h : IndexHigh cpu) :
    IndexHigh (emitRep mask cpu) := by
  intro hf
  exact h ((emitRep_xFlag mask cpu).mp hf).1

theorem emitXce_indexHigh_iff {cpu : CpuState} (h : IndexHigh cpu) :
    IndexHigh (emitXce cpu) ↔ (cpu.flagC = true → Narrow cpu) := by
  unfold emitXce
  dsimp only
  cases hc : cpu.flagC with
  | true => exact indexHigh_replace (iff_of_true rfl rfl) rfl rfl
  | false => exact iff_of_true h (fun hf => by cases hf)

theorem writeRegField_xf_iff (cpu : CpuState) (v : Word) :
    IndexHigh (writeRegField cpu v .xf) ↔ (loByte v ≠ 0 → Narrow cpu) :=
  indexHigh_replace bne_iff_ne rfl rfl

theorem cpuWriteXX_indexHigh {cpu : CpuState} (h : IndexHigh cpu) (v : Word) :
    IndexHigh (cpuWriteXX cpu v) := by
  unfold cpuWriteXX
  cases hf : cpu.xFlag with
  | true => exact indexHigh_setX h rfl (fun _ => loByte_setWidth_lt _) rfl
  | false => exact indexHigh_setX h rfl (fun h' => by rw [hf] at h'; cases h') rfl

theorem cpuWriteYX_indexHigh {cpu : CpuState} (h : IndexHigh cpu) (v : Word) :
    IndexHigh (cpuWriteYX cpu v) := by
  unfold cpuWriteYX
  cases hf : cpu.xFlag with
  | true => exact indexHigh_setY h rfl rfl (fun _ => loByte_setWidth_lt _)
  | false => exact indexHigh_setY h rfl rfl (fun h' => by rw [hf] at h'; cases h')

theorem emitWriteReg_indexHigh {cpu : CpuState} (h : IndexHigh cpu) (v : Word) {reg : Reg}
    (hf : reg ≠ .xf) : IndexHigh (emitWriteReg reg v cpu) := by
  cases reg with
  | a =>
    simp only [emitWriteReg, cpuWriteAM]
    split <;> exact h
  | x => exact cpuWriteXX_indexHigh h v
  | y => exact cpuWriteYX_indexHigh h v
  | xf => exact absurd rfl hf
  | _ => exact h

theorem emitIncReg_indexHigh {cpu : CpuState} (h : IndexHigh cpu) (delta : Delta) {reg : Reg}
    (hf : reg ≠ .xf) : IndexHigh (emitIncReg reg delta cpu) := by
  cases reg with
  | a =>
    simp only [emitIncReg]
    split <;> exact h
  | x =>
    simp only [emitIncReg]
    split
    · exact indexHigh_setX h rfl (fun _ => loByte_setWidth_lt _) rfl
    · rename_i hx
      exact indexHigh_setX h rfl (fun hx' => absurd hx' hx) rfl
  | y =>
    simp only [emitIncReg]
    split
    · exact indexHigh_setY h rfl rfl (fun _ => loByte_setWidth_lt _)
    · rename_i hx
      exact indexHigh_setY h rfl rfl (fun hx' => absurd hx' hx)
  | xf => exact absurd rfl hf
  | _ => exact h

/-- Counting the flag itself: from `0` either way it becomes nonzero. -/
theorem emitIncReg_xf_iff {cpu : CpuState} (h : IndexHigh cpu) (delta : Delta) :
    IndexHigh (emitIncReg .xf delta cpu) ↔ (cpu.xFlag = false → Narrow cpu) := by
  cases hx : cpu.xFlag with
  | true =>
    refine iff_of_true (fun _ => h hx) (fun hf => by cases hf)
  | false =>
    refine indexHigh_replace (iff_of_true ?_ rfl) rfl rfl
    show (loByte ((cint16 (if cpu.xFlag = true then 1 else 0) + delta.toCInt).setWidth 16) != 0) = true
    rw [hx]
    cases delta <;> decide

theorem emitSetFlag_indexHigh {cpu : CpuState} (h : IndexHigh cpu) (value : Bool) {flag : Reg}
    (hf : flag ≠ .xf) : IndexHigh (emitSetFlag flag value cpu) := by
  have hbit : (if value then 1 else 0 : Word).toNat < 256 := by cases value <;> decide
  cases flag with
  | x => exact indexHigh_setX h rfl (fun _ => hbit) rfl
  | y => exact indexHigh_setY h rfl rfl (fun _ => hbit)
  | xf => exact absurd rfl hf
  | _ => exact h

theorem emitSetFlag_xf_iff (cpu : CpuState) (value : Bool) :
    IndexHigh (emitSetFlag .xf value cpu) ↔ (value = true → Narrow cpu) := by
  refine indexHigh_replace ?_ rfl rfl
  show (loByte (if value = true then 1 else 0) != 0) = true ↔ value = true
  cases value <;> decide

theorem transferWide_indexHigh {cpu : CpuState} (h : IndexHigh cpu) (v : Word) (dst : Reg)
    (hdst : dst = .x ∨ dst = .y) : IndexHigh (transferWide cpu.xFlag v dst cpu) := by
  unfold transferWide
  dsimp only
  rcases hdst with rfl | rfl
  · split
    · exact indexHigh_setX h rfl (fun _ => loByte_setWidth_lt _) rfl
    · rename_i hx
      exact indexHigh_setX h rfl (fun hx' => absurd hx' hx) rfl
  · split
    · exact indexHigh_setY h rfl rfl (fun _ => loByte_setWidth_lt _)
    · rename_i hx
      exact indexHigh_setY h rfl rfl (fun hx' => absurd hx' hx)

theorem emitTransfer_indexHigh {cpu : CpuState} (h : IndexHigh cpu) (src : Reg) {dst : Reg}
    (hf : dst ≠ .xf) : IndexHigh (emitTransfer src dst cpu) := by
  unfold emitTransfer
  dsimp only
  split
  · exact h
  split
  · exact h
  cases dst with
  | a =>
    simp only [transferWide]
    split <;> exact h
  | x => exact transferWide_indexHigh h _ .x (Or.inl rfl)
  | y => exact transferWide_indexHigh h _ .y (Or.inr rfl)
  | xf => exact absurd rfl hf
  | _ => exact h

theorem emitTransfer_xf_iff (src : Reg) (cpu : CpuState) :
    IndexHigh (emitTransfer src .xf cpu) ↔ (loByte (readRegField cpu src) ≠ 0 → Narrow cpu) :=
  writeRegField_xf_iff cpu (readRegField cpu src)

/-! ### Pushes and pulls -/

theorem emitPushReg_indexHigh (bus : Bus M) (reg : Reg) (staticM staticX : Option Bool)
    {s : EmitState M} (h : IndexHigh s.cpu) :
    IndexHigh (emitPushReg bus reg staticM staticX s).cpu := by
  cases reg with
  | a =>
    simp only [emitPushReg, pushWide]
    split <;> exact h
  | x =>
    simp only [emitPushReg, pushWide]
    split <;> exact h
  | y =>
    simp only [emitPushReg, pushWide]
    split <;> exact h
  | _ => exact h

/-- A pull of `X` as wide as `isByte` says, whatever the flag. -/
theorem pullIndex_x_iff (bus : Bus M) (isByte : Bool) {s : EmitState M} (h : IndexHigh s.cpu) :
    IndexHigh (pullIndex bus isByte .x s).cpu ↔
      (isByte = false → s.cpu.xFlag = true → (popWord bus s).1.toNat < 256) := by
  cases isByte with
  | true =>
    refine iff_of_true (indexHigh_setX h rfl (fun _ => loByte_setWidth_lt _) rfl) (fun hb => ?_)
    cases hb
  | false =>
    constructor
    · intro h' _ hx
      exact (h' hx).1
    · intro h'
      exact indexHigh_setX h rfl (h' rfl) rfl

theorem pullIndex_y_iff (bus : Bus M) (isByte : Bool) {s : EmitState M} (h : IndexHigh s.cpu) :
    IndexHigh (pullIndex bus isByte .y s).cpu ↔
      (isByte = false → s.cpu.xFlag = true → (popWord bus s).1.toNat < 256) := by
  cases isByte with
  | true =>
    refine iff_of_true (indexHigh_setY h rfl rfl (fun _ => loByte_setWidth_lt _)) (fun hb => ?_)
    cases hb
  | false =>
    constructor
    · intro h' _ hx
      exact (h' hx).2
    · intro h'
      exact indexHigh_setY h rfl rfl (h' rfl)

/-! ### Block moves -/

/-- The loop leaves the flag alone and moves both registers by one for each byte. -/
theorem blockMoveLoop_regs (bus : Bus M) (delta : Delta) (srcB dstB : Byte) (fuel : Nat) :
    ∀ s : EmitState M, (s.cpu.A + 1).toNat ≤ fuel →
      let t := blockMoveLoop bus delta srcB dstB fuel s
      t.cpu.xFlag = s.cpu.xFlag ∧
        t.cpu.X = s.cpu.X + (s.cpu.A + 1) * delta.toCInt.setWidth 16 ∧
        t.cpu.Y = s.cpu.Y + (s.cpu.A + 1) * delta.toCInt.setWidth 16 := by
  induction fuel with
  | zero =>
    intro s hs
    have h0 : s.cpu.A + 1 = 0#16 := BitVec.eq_of_toNat_eq (Nat.le_zero.mp hs)
    refine ⟨rfl, ?_, ?_⟩ <;>
    · rw [h0, BitVec.zero_mul, BitVec.add_zero]
      rfl
  | succ fuel ih =>
    intro s hs
    unfold blockMoveLoop
    by_cases hA : s.cpu.A = 0xFFFF
    · rw [if_pos hA, hA]
      refine ⟨rfl, ?_, ?_⟩ <;>
      · rw [show (0xFFFF + 1 : Word) = 0#16 from rfl, BitVec.zero_mul, BitVec.add_zero]
    · rw [if_neg hA]
      have hlt : (blockMoveStep bus delta srcB dstB s).cpu.A + 1 = s.cpu.A := by
        show s.cpu.A - 1 + 1 = s.cpu.A
        rw [BitVec.sub_add_cancel]
      have hle : s.cpu.A.toNat ≤ fuel := by
        have hne : s.cpu.A.toNat ≠ 0xFFFF := fun e => hA (BitVec.eq_of_toNat_eq e)
        have := s.cpu.A.isLt
        rw [BitVec.toNat_add] at hs
        have h1 : (1 : Word).toNat = 1 := rfl
        omega
      obtain ⟨hx, hX, hY⟩ := ih (blockMoveStep bus delta srcB dstB s) (by rw [hlt]; exact hle)
      refine ⟨hx, hX.trans ?_, hY.trans ?_⟩
      · rw [hlt]
        show s.cpu.X + delta.toCInt.setWidth 16 + s.cpu.A * delta.toCInt.setWidth 16 = _
        ring
      · rw [hlt]
        show s.cpu.Y + delta.toCInt.setWidth 16 + s.cpu.A * delta.toCInt.setWidth 16 = _
        ring

theorem emitBlockMove_regs (bus : Bus M) (direction : Direction) (srcBank dstBank : Nat)
    (s : EmitState M) :
    let t := emitBlockMove bus direction srcBank dstBank s
    t.cpu.xFlag = s.cpu.xFlag ∧ t.cpu.X = blockMoveEnd direction s.cpu.X s.cpu.A ∧
      t.cpu.Y = blockMoveEnd direction s.cpu.Y s.cpu.A := by
  have hle : (s.cpu.A + 1).toNat ≤ 0x10000 := Nat.le_of_lt (s.cpu.A + 1).isLt
  have hends : ∀ reg : Word, reg + (s.cpu.A + 1) *
      (if direction = .mvn then Delta.up else Delta.down).toCInt.setWidth 16 =
        blockMoveEnd direction reg s.cpu.A := by
    intro reg
    cases direction with
    | mvn =>
      show reg + (s.cpu.A + 1) * 1 = reg + (s.cpu.A + 1)
      ring
    | mvp =>
      show reg + (s.cpu.A + 1) * -1 = reg - (s.cpu.A + 1)
      ring
  obtain ⟨hx, hX, hY⟩ := blockMoveLoop_regs bus (if direction = .mvn then Delta.up else Delta.down)
    (BitVec.ofNat 8 srcBank) (BitVec.ofNat 8 dstBank) 0x10000 s hle
  exact ⟨hx, hX.trans (hends _), hY.trans (hends _)⟩

theorem emitBlockMove_iff (bus : Bus M) (direction : Direction) (srcBank dstBank : Nat)
    (s : EmitState M) :
    IndexHigh (emitBlockMove bus direction srcBank dstBank s).cpu ↔
      (s.cpu.xFlag = true → (blockMoveEnd direction s.cpu.X s.cpu.A).toNat < 256 ∧
        (blockMoveEnd direction s.cpu.Y s.cpu.A).toNat < 256) := by
  obtain ⟨hx, hX, hY⟩ := emitBlockMove_regs bus direction srcBank dstBank s
  unfold IndexHigh Narrow
  rw [hx, hX, hY]

/-! ### One step, and runs -/

theorem emitPullReg_iff (bus : Bus M) (reg : Reg) (staticM staticX : Option Bool)
    {s : EmitState M} (h : IndexHigh s.cpu) :
    IndexHigh (execOp bus (.pullReg reg staticM staticX) s).cpu ↔
      Keeps bus (.op (.pullReg reg staticM staticX)) s := by
  cases reg with
  | p => exact indexHigh_replace Iff.rfl rfl rfl
  | a =>
    refine iff_of_true ?_ trivial
    show IndexHigh (emitPullReg bus .a staticM staticX s).cpu
    simp only [emitPullReg]
    split <;> exact h
  | x =>
    rcases staticX with _ | _ | _
    · refine (pullIndex_x_iff bus s.cpu.xFlag h).trans (iff_of_true ?_ trivial)
      intro hb hx
      rw [hb] at hx
      cases hx
    · exact (pullIndex_x_iff bus false h).trans ⟨fun h' => h' rfl, fun h' _ => h'⟩
    · exact (pullIndex_x_iff bus true h).trans (iff_of_true (fun hb => by cases hb) trivial)
  | y =>
    rcases staticX with _ | _ | _
    · refine (pullIndex_y_iff bus s.cpu.xFlag h).trans (iff_of_true ?_ trivial)
      intro hb hx
      rw [hb] at hx
      cases hx
    · exact (pullIndex_y_iff bus false h).trans ⟨fun h' => h' rfl, fun h' _ => h'⟩
    · exact (pullIndex_y_iff bus true h).trans (iff_of_true (fun hb => by cases hb) trivial)
  | _ => exact iff_of_true h trivial

theorem execOp_indexHigh_iff (bus : Bus M) (op : IROp) {s : EmitState M} (h : IndexHigh s.cpu) :
    IndexHigh (execOp bus op s).cpu ↔ Keeps bus (.op op) s := by
  cases op with
  | writeReg reg src =>
    by_cases hf : reg = .xf
    · subst hf
      exact writeRegField_xf_iff s.cpu (s.vals src)
    · refine iff_of_true (emitWriteReg_indexHigh h (s.vals src) hf) ?_
      cases reg <;> trivial
  | incReg reg delta =>
    by_cases hf : reg = .xf
    · subst hf
      exact emitIncReg_xf_iff h delta
    · refine iff_of_true (emitIncReg_indexHigh h delta hf) ?_
      cases reg <;> trivial
  | setFlag flag value =>
    by_cases hf : flag = .xf
    · subst hf
      exact emitSetFlag_xf_iff s.cpu value
    · refine iff_of_true (emitSetFlag_indexHigh h value hf) ?_
      cases flag <;> trivial
  | transfer src dst =>
    by_cases hf : dst = .xf
    · subst hf
      exact emitTransfer_xf_iff src s.cpu
    · refine iff_of_true (emitTransfer_indexHigh h src hf) ?_
      cases dst <;> trivial
  | alu op lhs rhs width out =>
    refine iff_of_true ?_ trivial
    have hr : IndexHigh (emitAlu op (s.vals lhs) (s.vals rhs) width s.cpu).2 := by
      cases op <;> exact h
    cases out <;> exact hr
  | bitTest operand width imm =>
    refine iff_of_true ?_ trivial
    cases imm <;> exact h
  | repFlags mask => exact iff_of_true (emitRep_indexHigh _ h) trivial
  | sepFlags mask => exact indexHigh_raise h (emitSep_xFlag _ s.cpu) rfl rfl
  | xce => exact emitXce_indexHigh_iff h
  | push src width =>
    refine iff_of_true ?_ trivial
    cases width <;> exact h
  | pull width out =>
    refine iff_of_true ?_ trivial
    cases width <;> exact h
  | pushReg reg staticM staticX =>
    exact iff_of_true (emitPushReg_indexHigh bus reg staticM staticX h) trivial
  | pullReg reg staticM staticX => exact emitPullReg_iff bus reg staticM staticX h
  | blockMove direction srcBank dstBank => exact emitBlockMove_iff bus direction srcBank dstBank s
  | pushEffectiveAddress seg =>
    refine iff_of_true ?_ trivial
    show IndexHigh (emitPushEffectiveAddress bus seg s).cpu
    unfold emitPushEffectiveAddress
    cases seg.kind <;> exact h
  | _ => exact iff_of_true h trivial

theorem emitRti_iff (bus : Bus M) (s : EmitState M) :
    IndexHigh (emitRti bus s).cpu ↔ Keeps bus .rti s := by
  have hregs : (emitRti bus s).cpu.xFlag = hasBit (popByte bus s).1 cpuPX ∧
      (emitRti bus s).cpu.X = s.cpu.X ∧ (emitRti bus s).cpu.Y = s.cpu.Y := by
    unfold emitRti
    dsimp only
    split <;> exact ⟨rfl, rfl, rfl⟩
  obtain ⟨hx, hX, hY⟩ := hregs
  exact indexHigh_replace (by rw [hx]) hX hY

theorem emitStep_indexHigh_iff (bus : Bus M) (a : EmitStep) (s : EmitState M)
    (h : IndexHigh s.cpu) : IndexHigh (emitStep bus a s).cpu ↔ Keeps bus a s := by
  cases a with
  | op op => exact execOp_indexHigh_iff bus op h
  | rti => exact emitRti_iff bus s
  | dispatch =>
    have hflag : (dispatchReset s.cpu).xFlag = true := by
      exact (emitSep_xFlag 0x30 s.cpu).mpr (Or.inr (by decide))
    exact (indexHigh_replace (iff_true_intro hflag) rfl rfl).trans ⟨fun h => h trivial, fun h _ => h⟩

/-- **The invariant holds in every state of a run exactly when every step of the run is
taken where it keeps it.** -/
theorem indexHigh_iff (bus : Bus M) (prog : List EmitStep) (s : EmitState M)
    (h : IndexHigh s.cpu) :
    (∀ t ∈ Runs.states (emitStep bus) prog s, IndexHigh t.cpu) ↔
      Runs.StepsMeet (emitStep bus) (Keeps bus) prog s :=
  Runs.invariant_iff (emitStep bus) (fun a s hs => emitStep_indexHigh_iff bus a s hs) prog s h

def atReset : EmitState Unit := ⟨cpuStateInit, (), fun _ => 0⟩

/-- From reset, `SEP #$30` and a `PLX` of a byte. -/
theorem indexHigh_iff_plx :
    let prog : List EmitStep := [.op (.sepFlags 0x30), .op (.pullReg .x (some true) (some true))]
    (∀ t ∈ Runs.states (emitStep silentBus) prog atReset, IndexHigh t.cpu) ↔
      Runs.StepsMeet (emitStep silentBus) (Keeps silentBus) prog atReset :=
  indexHigh_iff silentBus _ atReset (by decide)

/-- From reset, `REP #$10`, `LDX #$1234`, `SEP #$10`: the flag is up and `X` is `$1234`. -/
theorem not_indexHigh_sep :
    let prog : List IROp := [.repFlags 0x10, .constI 0x1234 .word 0, .writeReg .x 0,
      .setNZ 0 .word, .sepFlags 0x10]
    lower ⟨0x8000, 0xC2, .rep, .imm, 0x10, 2, true, true, false, none⟩ 0 = some (prog.take 1) ∧
      lower ⟨0x8002, 0xA2, .ldx, .imm, 0x1234, 3, true, false, false, none⟩ 0 =
        some ((prog.drop 1).take 3) ∧
      lower ⟨0x8005, 0xE2, .sep, .imm, 0x10, 2, true, false, false, none⟩ 0 =
        some (prog.drop 4) ∧
      IndexHigh atReset.cpu ∧ ¬ IndexHigh (execOps silentBus prog atReset).cpu := by
  refine ⟨rfl, rfl, rfl, by decide, fun h => ?_⟩
  exact absurd (h rfl).1 (show ¬ (0x1234 : Word).toNat < 256 by decide)

end SnesRecomp.Recompiler
