import SnesRecomp.Lib.Runs
import SnesRecomp.Interp.Sync
import SnesRecomp.Recompiler.Calls
import Mathlib.Tactic.IntervalCases

/-!
# The packed status byte and its mirrors

The compiled code keeps the eight flags twice: in `P`, and one by one in the mirrors.  Most
operations write mirrors only, some both, and the two copies drift apart in between.  The mirrors
are the ones that count.  `statusByte_coherent`: whoever shows or changes `P` as a whole packs the
mirrors first, a byte loaded into `P` is unpacked into them, no other step stores in `P` anything
but what a mirror holds, and the `P` a run starts with has no effect at all.
-/

namespace SnesRecomp

/-! ### Packing -/

/-- The eight flags. -/
structure Mirrors where
  m : Bool
  x : Bool
  c : Bool
  z : Bool
  i : Bool
  d : Bool
  v : Bool
  n : Bool
  deriving DecidableEq, Repr

namespace Mirrors

def pack (f : Mirrors) : Byte :=
  bitIf f.m cpuPM ||| bitIf f.x cpuPX ||| bitIf f.c cpuPC ||| bitIf f.z cpuPZ |||
    bitIf f.i cpuPI ||| bitIf f.d cpuPD ||| bitIf f.v cpuPV ||| bitIf f.n cpuPN

def unpack (p : Byte) : Mirrors where
  m := hasBit p cpuPM
  x := hasBit p cpuPX
  c := hasBit p cpuPC
  z := hasBit p cpuPZ
  i := hasBit p cpuPI
  d := hasBit p cpuPD
  v := hasBit p cpuPV
  n := hasBit p cpuPN

/-- The flag at a bit of the status byte. -/
def flag (f : Mirrors) : Nat → Bool
  | 0 => f.c
  | 1 => f.z
  | 2 => f.i
  | 3 => f.d
  | 4 => f.x
  | 5 => f.m
  | 6 => f.v
  | 7 => f.n
  | _ => false

theorem getLsbD_pack (f : Mirrors) {k : Nat} (hk : k < 8) : f.pack.getLsbD k = f.flag k := by
  simp only [pack, BitVec.getLsbD_or, getLsbD_bitIf]
  interval_cases k <;>
    simp [flag, cpuPC, cpuPZ, cpuPI, cpuPD, cpuPX, cpuPM, cpuPV, cpuPN]

theorem flag_unpack (p : Byte) {k : Nat} (hk : k < 8) : (unpack p).flag k = p.getLsbD k := by
  have hbit (j : Nat) (hj : j < 8) : hasBit p (BitVec.twoPow 8 j) = p.getLsbD j :=
    Bits.and_twoPow_ne_zero hj p
  interval_cases k
  · exact hbit 0 (by decide)
  · exact hbit 1 (by decide)
  · exact hbit 2 (by decide)
  · exact hbit 3 (by decide)
  · exact hbit 4 (by decide)
  · exact hbit 5 (by decide)
  · exact hbit 6 (by decide)
  · exact hbit 7 (by decide)

theorem pack_unpack (p : Byte) : (unpack p).pack = p := by
  apply BitVec.eq_of_getLsbD_eq
  intro k hk
  rw [getLsbD_pack _ hk, flag_unpack p hk]

theorem ext_flag {f g : Mirrors} (h : ∀ k < 8, f.flag k = g.flag k) : f = g := by
  obtain ⟨⟩ := f
  obtain ⟨⟩ := g
  rw [Mirrors.mk.injEq]
  exact ⟨h 5 (by decide), h 4 (by decide), h 0 (by decide), h 1 (by decide), h 2 (by decide),
    h 3 (by decide), h 6 (by decide), h 7 (by decide)⟩

theorem unpack_pack (f : Mirrors) : unpack f.pack = f := by
  apply ext_flag
  intro k hk
  rw [flag_unpack _ hk, getLsbD_pack f hk]

end Mirrors

namespace CpuState

def mirrors (cpu : CpuState) : Mirrors :=
  ⟨cpu.mFlag, cpu.xFlag, cpu.flagC, cpu.flagZ, cpu.flagI, cpu.flagD, cpu.flagV, cpu.flagN⟩

/-- The state with another packed byte. -/
def setP (cpu : CpuState) (p : Byte) : CpuState := { cpu with P := p }

/-- `P` says what the mirrors say. -/
def Coherent (cpu : CpuState) : Prop := cpu.P = cpu.mirrors.pack

end CpuState

theorem coherent_cpuPToMirrors (cpu : CpuState) : (cpuPToMirrors cpu).Coherent :=
  (Mirrors.pack_unpack cpu.P).symm

/-- The interpreter packs its flags in another order. -/
theorem getFlags_interpOf {M : Type} (cpu : CpuState) (m : M) :
    (interpOf cpu m).getFlags = cpu.mirrors.pack := by
  apply BitVec.eq_of_getLsbD_eq
  intro k hk
  rw [Mirrors.getLsbD_pack _ hk]
  simp only [Interp816.getFlags, BitVec.getLsbD_or, getLsbD_bitIf]
  interval_cases k <;> simp [Mirrors.flag, CpuState.mirrors, interpOf, syncCpuToInterp]

end SnesRecomp

namespace SnesRecomp.Recompiler

variable {M : Type}

/-! ### Steps -/

/-- `cpu_push_interrupt_frame`; the program counter is a pair of zeros. -/
def cpuPushInterruptFrame (bus : Bus M) (s : EmitState M) : EmitState M :=
  let s := { s with cpu := cpuMirrorsToP s.cpu }
  let s := if s.cpu.emulation then s else pushByte bus s.cpu.PB s
  let s := pushByte bus 0x00 (pushByte bus 0x00 s)
  pushByte bus s.cpu.P s

/-- An operation that some instruction is lowered to. -/
def LoweredOp : Type := { op : IROp // ∃ insn vid ops, lower insn vid = some ops ∧ op ∈ ops }

theorem LoweredOp.sparesP (o : LoweredOp) : o.val.SparesP := by
  obtain ⟨insn, vid, ops, hlower, hop⟩ := o.property
  exact (lowered_of_lower hlower _ hop).2

/-- What happens to the flags: an operation, the entry and the end of an interrupt handler, the
mode reset of a dispatch, or a hand-over to the interpreter, which runs and hands back. -/
inductive StatusStep (M : Type)
  | op (o : LoweredOp)
  | interrupt
  | rti
  | dispatch
  | interp (run : Interp816 M → Interp816 M)

def statusStep (bus : Bus M) : StatusStep M → EmitState M → EmitState M
  | .op o, s => execOp bus o.val s
  | .interrupt, s => cpuPushInterruptFrame bus s
  | .rti, s => emitRti bus s
  | .dispatch, s => { s with cpu := dispatchReset s.cpu }
  | .interp run, s =>
    let i := run (interpOf s.cpu s.mem)
    { s with cpu := syncInterpToCpu i s.cpu, mem := i.mem }

/-- `P` and the mirrors after a byte is loaded. -/
def Loaded (p : Byte) (t : EmitState M) : Prop :=
  t.cpu.P = p ∧ t.cpu.mirrors = Mirrors.unpack p

/-- What the step from `s` to `t` does with the whole status byte. -/
def UsesPacked (bus : Bus M) (s t : EmitState M) : StatusStep M → Prop
  | .op ⟨.pushReg .p _ _, _⟩ => t.mem = bus.write8 0x00 s.cpu.S s.cpu.mirrors.pack s.mem
  | .op ⟨.repFlags mask, _⟩ => Loaded (s.cpu.mirrors.pack &&& ~~~ BitVec.ofNat 8 mask) t
  | .op ⟨.sepFlags mask, _⟩ => Loaded (s.cpu.mirrors.pack ||| BitVec.ofNat 8 mask) t
  | .op ⟨.pullReg .p _ _, _⟩ => Loaded (popByte bus s).1 t
  | .op _ => True
  | .interrupt => ∃ m, t.mem = bus.write8 0x00 (t.cpu.S + 1) s.cpu.mirrors.pack m
  | .rti => Loaded (popByte bus s).1 t
  | .dispatch => Loaded (s.cpu.mirrors.pack ||| 0x30) t
  | .interp _ => (interpOf s.cpu s.mem).getFlags = s.cpu.mirrors.pack ∧ t.cpu.Coherent

/-- Nothing is stored in `P` but what a mirror holds. -/
def OnlyMirrored (cpu cpu' : CpuState) : Prop :=
  ∀ k < 8, cpu'.P.getLsbD k = cpu.P.getLsbD k ∨ cpu'.P.getLsbD k = cpu'.mirrors.flag k

/-- The step keeps the two copies of the flags together. -/
def StatusCoherent (bus : Bus M) (a : StatusStep M) (s : EmitState M) : Prop :=
  UsesPacked bus s (statusStep bus a s) a ∧ OnlyMirrored s.cpu (statusStep bus a s).cpu

/-! ### Functions of the registers -/

/-- The function stores only mirrored bits in `P`, and looks at none. -/
structure CpuTame (f : CpuState → CpuState) : Prop where
  mirrored : ∀ cpu, OnlyMirrored cpu (f cpu)
  blind : ∀ cpu p, ∃ q, f (cpu.setP p) = (f cpu).setP q

theorem onlyMirrored_of_P {cpu cpu' : CpuState} (h : cpu'.P = cpu.P) : OnlyMirrored cpu cpu' :=
  fun _ _ => Or.inl (by rw [h])

theorem onlyMirrored_of_coherent {cpu cpu' : CpuState} (h : cpu'.Coherent) :
    OnlyMirrored cpu cpu' := by
  intro k hk
  refine Or.inr ?_
  rw [show cpu'.P = cpu'.mirrors.pack from h, Mirrors.getLsbD_pack _ hk]

theorem onlyMirrored_syncPNz {cpu cpu' : CpuState} (h : cpu'.P = cpu.P) :
    OnlyMirrored cpu (syncPNz cpu') := by
  intro k hk
  have hP : (syncPNz cpu').P =
      (cpu.P &&& ~~~ 0x82) ||| bitIf cpu'.flagZ 0x02 ||| bitIf cpu'.flagN 0x80 := by
    rw [← h]
    rfl
  rw [hP]
  simp only [BitVec.getLsbD_or, BitVec.getLsbD_and, getLsbD_bitIf]
  interval_cases k <;> simp [syncPNz, CpuState.mirrors, Mirrors.flag]

/-- A function that commutes with the change of `P` leaves `P` as it is. -/
theorem P_of_commutes {f : CpuState → CpuState} (h : ∀ cpu p, f (cpu.setP p) = (f cpu).setP p)
    (cpu : CpuState) : (f cpu).P = cpu.P := by
  have hself := h cpu cpu.P
  rw [show cpu.setP cpu.P = cpu from rfl] at hself
  rw [hself]
  rfl

theorem cpuTame_of_commutes {f : CpuState → CpuState}
    (h : ∀ cpu p, f (cpu.setP p) = (f cpu).setP p) : CpuTame f where
  mirrored cpu := onlyMirrored_of_P (P_of_commutes h cpu)
  blind cpu p := ⟨p, h cpu p⟩

/-- The refresh of the packed `N` and `Z` after such a function. -/
theorem cpuTame_syncPNz {f : CpuState → CpuState}
    (h : ∀ cpu p, f (cpu.setP p) = (f cpu).setP p) : CpuTame fun cpu => syncPNz (f cpu) where
  mirrored cpu := onlyMirrored_syncPNz (P_of_commutes h cpu)
  blind cpu p := by
    rw [h]
    exact ⟨_, rfl⟩

/-- A function that packs the mirrors first and is coherent in the end. -/
theorem cpuTame_of_packs {f : CpuState → CpuState} (hpack : ∀ cpu p, f (cpu.setP p) = f cpu)
    (hcoherent : ∀ cpu, (f cpu).Coherent) : CpuTame f where
  mirrored cpu := onlyMirrored_of_coherent (hcoherent cpu)
  blind cpu p := ⟨(f cpu).P, hpack cpu p⟩

theorem readRegField_setP (cpu : CpuState) (p : Byte) {reg : Reg} (h : reg ≠ .p) :
    readRegField (cpu.setP p) reg = readRegField cpu reg := by
  cases reg with
  | p => exact absurd rfl h
  | _ => rfl

theorem writeRegField_setP (cpu : CpuState) (p : Byte) (v : Word) {reg : Reg} (h : reg ≠ .p) :
    writeRegField (cpu.setP p) v reg = (writeRegField cpu v reg).setP p := by
  cases reg with
  | p => exact absurd rfl h
  | _ => rfl

theorem emitWriteReg_setP (v : Word) {reg : Reg} (h : reg = .a ∨ reg = .x ∨ reg = .y)
    (cpu : CpuState) (p : Byte) :
    emitWriteReg reg v (cpu.setP p) = (emitWriteReg reg v cpu).setP p := by
  rcases h with rfl | rfl | rfl
  · show ite (cpu.mFlag = true) _ _ = CpuState.setP (ite (cpu.mFlag = true) _ _) p
    cases cpu.mFlag <;> rfl
  · show ite (cpu.xFlag = true) _ _ = CpuState.setP (ite (cpu.xFlag = true) _ _) p
    cases cpu.xFlag <;> rfl
  · show ite (cpu.xFlag = true) _ _ = CpuState.setP (ite (cpu.xFlag = true) _ _) p
    cases cpu.xFlag <;> rfl

theorem emitAlu_setP (op : AluOp) (lhs rhs : Word) (width : Width) (cpu : CpuState) (p : Byte) :
    emitAlu op lhs rhs width (cpu.setP p) =
      ((emitAlu op lhs rhs width cpu).1, (emitAlu op lhs rhs width cpu).2.setP p) := by
  cases op <;> rfl

theorem emitIncReg_setP (delta : Delta) {reg : Reg} (h : reg = .a ∨ reg = .x ∨ reg = .y)
    (cpu : CpuState) (p : Byte) :
    emitIncReg reg delta (cpu.setP p) = (emitIncReg reg delta cpu).setP p := by
  rcases h with rfl | rfl | rfl
  · show ite (cpu.mFlag = true) _ _ = CpuState.setP (ite (cpu.mFlag = true) _ _) p
    cases cpu.mFlag <;> rfl
  · show ite (cpu.xFlag = true) _ _ = CpuState.setP (ite (cpu.xFlag = true) _ _) p
    cases cpu.xFlag <;> rfl
  · show ite (cpu.xFlag = true) _ _ = CpuState.setP (ite (cpu.xFlag = true) _ _) p
    cases cpu.xFlag <;> rfl

theorem cpuTame_emitSetFlag {flag : Reg} (value : Bool) (h : flag ≠ .p) :
    CpuTame (emitSetFlag flag value) where
  mirrored cpu := by
    intro k hk
    cases flag with
    | p => exact absurd rfl h
    | m | xf | n | v | zf | c | i | df => cases value <;> interval_cases k <;> simp [emitSetFlag, flagToPMask, writeRegField, CpuState.mirrors, Mirrors.flag, loByte]
    | _ => exact Or.inl rfl
  blind cpu p := by
    cases flag with
    | p => exact absurd rfl h
    | _ => exact ⟨_, rfl⟩

theorem cpuTame_modifyP (op : Byte → Byte) : CpuTame (modifyPViaMirrors op) :=
  cpuTame_of_packs (fun _ _ => rfl) (fun _ => coherent_cpuPToMirrors _)

theorem cpuTame_emitXce : CpuTame emitXce where
  mirrored cpu := by
    rw [emitXce]
    dsimp only
    split
    · exact onlyMirrored_of_coherent rfl
    · exact onlyMirrored_of_P rfl
  blind cpu p := by
    have hXce (cpu : CpuState) : emitXce cpu = if cpu.flagC then _ else _ := rfl
    rw [hXce, hXce cpu]
    by_cases hc : cpu.flagC = true
    · rw [if_pos hc, if_pos (show (cpu.setP p).flagC = true from hc)]
      exact ⟨_, rfl⟩
    · rw [if_neg hc, if_neg (show ¬ (cpu.setP p).flagC = true from hc)]
      exact ⟨p, rfl⟩

theorem cpuTame_transferWide {wide : CpuState → Bool} {v : CpuState → Word} {dst : Reg}
    (hwide : ∀ cpu p, wide (cpu.setP p) = wide cpu) (hv : ∀ cpu p, v (cpu.setP p) = v cpu)
    (hdst : dst = .a ∨ dst = .x ∨ dst = .y) :
    CpuTame fun cpu => transferWide (wide cpu) (v cpu) dst cpu := by
  have hp : dst ≠ .p := by
    rcases hdst with rfl | rfl | rfl <;> decide
  refine cpuTame_syncPNz fun cpu p => ?_
  dsimp only
  rw [hwide, hv, writeRegField_setP _ _ _ hp, writeRegField_setP _ _ _ hp]
  cases wide cpu <;> rfl

theorem cpuTame_emitTransfer {src dst : Reg} (hsrc : src ≠ .p) (hdst : dst ≠ .p) :
    CpuTame (emitTransfer src dst) := by
  have hv (cpu : CpuState) (p : Byte) := readRegField_setP cpu p hsrc
  by_cases hs : dst = .s
  · have hf : emitTransfer src dst = fun cpu => writeRegField cpu (readRegField cpu src) .s := by
      funext cpu
      simp only [emitTransfer, if_pos hs]
    rw [hf]
    refine cpuTame_of_commutes fun cpu p => ?_
    rw [hv, writeRegField_setP _ _ _ (by decide)]
  by_cases hwide : dst = .a ∧ (src = .d ∨ src = .s)
  · have hf : emitTransfer src dst = fun cpu =>
        setNz (cint16 (readRegField cpu src)) .word (writeRegField cpu (readRegField cpu src) .a) := by
      funext cpu
      simp only [emitTransfer, if_neg hs, if_pos hwide]
    rw [hf]
    refine cpuTame_syncPNz fun cpu p => ?_
    rw [hv, writeRegField_setP _ _ _ (by decide)]
    rfl
  cases dst with
  | p => exact absurd rfl hdst
  | s => exact absurd rfl hs
  | a =>
    have hf : emitTransfer src .a =
        fun cpu => transferWide cpu.mFlag (readRegField cpu src) .a cpu := by
      funext cpu
      rw [emitTransfer, if_neg hs, if_neg hwide]
    rw [hf]
    exact cpuTame_transferWide (fun _ _ => rfl) hv (by decide)
  | x | y => exact cpuTame_transferWide (fun _ _ => rfl) hv (by decide)
  | _ =>
    refine cpuTame_syncPNz fun cpu p => ?_
    rw [hv]
    rfl

/-! ### Operations -/

def EmitState.setP (s : EmitState M) (p : Byte) : EmitState M := { s with cpu := s.cpu.setP p }

/-- `CpuTame`, for what also works on memory and the C locals. -/
structure Tame (f : EmitState M → EmitState M) : Prop where
  mirrored : ∀ s, OnlyMirrored s.cpu (f s).cpu
  blind : ∀ s p, ∃ q, f (s.setP p) = (f s).setP q

theorem tame_of_commutes {f : EmitState M → EmitState M}
    (h : ∀ s p, f (s.setP p) = (f s).setP p) : Tame f where
  mirrored s := by
    have hself := h s s.cpu.P
    rw [show s.setP s.cpu.P = s from rfl] at hself
    refine onlyMirrored_of_P ?_
    rw [hself]
    rfl
  blind s p := ⟨p, h s p⟩

/-- A step of the registers alone, with an operand from the locals. -/
theorem tame_of_cpuTame {f : (Value → Word) → CpuState → CpuState} (h : ∀ vals, CpuTame (f vals)) :
    Tame fun s : EmitState M => { s with cpu := f s.vals s.cpu } where
  mirrored s := (h s.vals).mirrored s.cpu
  blind s p := by
    obtain ⟨q, hq⟩ := (h s.vals).blind s.cpu p
    exact ⟨q, congrArg (fun cpu => ({ s with cpu := cpu } : EmitState M)) hq⟩

theorem emitBitTest_setP (operand : Word) (width : Width) (imm : Bool) (cpu : CpuState) (p : Byte) :
    emitBitTest operand width imm (cpu.setP p) = (emitBitTest operand width imm cpu).setP p := by
  cases imm <;> rfl

theorem tame_alu (bus : Bus M) (op : AluOp) (lhs rhs : Value) (width : Width)
    (out : Option Value) : Tame (execOp bus (.alu op lhs rhs width out)) := by
  refine tame_of_commutes fun s p => ?_
  have hAlu : emitAlu op ((s.setP p).vals lhs) ((s.setP p).vals rhs) width (s.setP p).cpu = _ :=
    emitAlu_setP op (s.vals lhs) (s.vals rhs) width s.cpu p
  cases out with
  | none =>
    simp only [execOp, hAlu]
    rfl
  | some out =>
    simp only [execOp, hAlu]
    rfl

theorem pushWide_setP (bus : Bus M) (isByte : Bool) (v : Word) (s : EmitState M) (p : Byte) :
    pushWide bus isByte v (s.setP p) = (pushWide bus isByte v s).setP p := by
  cases isByte <;> rfl

/-- `PHP` packs the mirrors, and the other pushes leave `P` alone. -/
theorem tame_emitPushReg (bus : Bus M) (reg : Reg) (staticM staticX : Option Bool) :
    Tame (emitPushReg bus reg staticM staticX) := by
  cases reg with
  | p =>
    exact ⟨fun s => onlyMirrored_of_coherent rfl, fun s p => ⟨_, rfl⟩⟩
  | a => exact tame_of_commutes fun s p => pushWide_setP bus (staticM.getD s.cpu.mFlag) s.cpu.A s p
  | x => exact tame_of_commutes fun s p => pushWide_setP bus (staticX.getD s.cpu.xFlag) s.cpu.X s p
  | y => exact tame_of_commutes fun s p => pushWide_setP bus (staticX.getD s.cpu.xFlag) s.cpu.Y s p
  | _ => exact tame_of_commutes fun s p => rfl

/-- A pulled byte that goes to a register, then `N` and `Z`. -/
theorem tame_pullByte (bus : Bus M) {g : Byte → CpuState → CpuState}
    (h : ∀ b cpu p, g b (cpu.setP p) = (g b cpu).setP p) :
    Tame fun s : EmitState M =>
      { (popByte bus s).2 with cpu := syncPNz (g (popByte bus s).1 (popByte bus s).2.cpu) } where
  mirrored s := onlyMirrored_syncPNz (P_of_commutes (h (popByte bus s).1) (popByte bus s).2.cpu)
  blind s p := by
    obtain ⟨q, hq⟩ := (cpuTame_syncPNz (h (popByte bus s).1)).blind (popByte bus s).2.cpu p
    exact ⟨q, congrArg (fun cpu => ({ (popByte bus s).2 with cpu := cpu } : EmitState M)) hq⟩

theorem tame_pullWord (bus : Bus M) {g : Word → CpuState → CpuState}
    (h : ∀ w cpu p, g w (cpu.setP p) = (g w cpu).setP p) :
    Tame fun s : EmitState M =>
      { (popWord bus s).2 with cpu := syncPNz (g (popWord bus s).1 (popWord bus s).2.cpu) } where
  mirrored s := onlyMirrored_syncPNz (P_of_commutes (h (popWord bus s).1) (popWord bus s).2.cpu)
  blind s p := by
    obtain ⟨q, hq⟩ := (cpuTame_syncPNz (h (popWord bus s).1)).blind (popWord bus s).2.cpu p
    exact ⟨q, congrArg (fun cpu => ({ (popWord bus s).2 with cpu := cpu } : EmitState M)) hq⟩

/-- A step that is one of two, by a condition that does not look at `P`. -/
theorem tame_ite {c : EmitState M → Bool} {f g : EmitState M → EmitState M}
    (hc : ∀ s p, c (s.setP p) = c s) (hf : Tame f) (hg : Tame g) :
    Tame fun s => if c s then f s else g s where
  mirrored s := by
    cases hs : c s with
    | true => exact hf.mirrored s
    | false => exact hg.mirrored s
  blind s p := by
    rw [hc]
    cases hs : c s with
    | true => exact hf.blind s p
    | false => exact hg.blind s p

/-- `PLP` unpacks what it loads; the other pulls refresh the packed `N` and `Z`. -/
theorem tame_emitPullReg (bus : Bus M) (reg : Reg) (staticM staticX : Option Bool) :
    Tame (emitPullReg bus reg staticM staticX) := by
  cases reg with
  | p => exact ⟨fun s => onlyMirrored_of_coherent (coherent_cpuPToMirrors _), fun s p => ⟨_, rfl⟩⟩
  | db =>
    exact tame_pullByte bus (g := fun b cpu => setNzNoP (cint8 b) .byte { cpu with DB := b })
      fun _ _ _ => rfl
  | pb =>
    exact tame_pullByte bus (g := fun b cpu => setNzNoP (cint8 b) .byte { cpu with PB := b })
      fun _ _ _ => rfl
  | d =>
    exact tame_pullWord bus (g := fun w cpu => setNzNoP (cint16 w) .word { cpu with D := w })
      fun _ _ _ => rfl
  | a =>
    exact tame_ite (c := fun s => staticM.getD s.cpu.mFlag) (fun _ _ => rfl)
      (tame_pullByte bus (g := fun b cpu =>
        setNzNoP (cint8 b) .byte { cpu with A := preserveHigh cpu.A b }) fun _ _ _ => rfl)
      (tame_pullWord bus (g := fun w cpu => setNzNoP (cint16 w) .word { cpu with A := w })
        fun _ _ _ => rfl)
  | x =>
    exact tame_ite (c := fun s => staticX.getD s.cpu.xFlag) (fun _ _ => rfl)
      (tame_pullByte bus (g := fun b cpu =>
        setNzNoP (cint8 b) .byte { cpu with X := b.setWidth 16 }) fun _ _ _ => rfl)
      (tame_pullWord bus (g := fun w cpu => setNzNoP (cint16 w) .word { cpu with X := w })
        fun _ _ _ => rfl)
  | y =>
    exact tame_ite (c := fun s => staticX.getD s.cpu.xFlag) (fun _ _ => rfl)
      (tame_pullByte bus (g := fun b cpu =>
        setNzNoP (cint8 b) .byte { cpu with Y := b.setWidth 16 }) fun _ _ _ => rfl)
      (tame_pullWord bus (g := fun w cpu => setNzNoP (cint16 w) .word { cpu with Y := w })
        fun _ _ _ => rfl)
  | _ => exact tame_of_commutes fun s p => rfl

theorem blockMoveLoop_setP (bus : Bus M) (delta : Delta) (srcB dstB : Byte) (p : Byte) (fuel : Nat) :
    ∀ s : EmitState M, blockMoveLoop bus delta srcB dstB fuel (s.setP p) =
      (blockMoveLoop bus delta srcB dstB fuel s).setP p := by
  induction fuel with
  | zero => intro s; rfl
  | succ fuel ih =>
    intro s
    rw [blockMoveLoop, blockMoveLoop]
    by_cases hA : s.cpu.A = 0xFFFF
    · rw [if_pos hA, if_pos (show (s.setP p).cpu.A = 0xFFFF from hA)]
    · rw [if_neg hA, if_neg (show ¬ (s.setP p).cpu.A = 0xFFFF from hA)]
      exact ih (blockMoveStep bus delta srcB dstB s)

theorem tame_emitBlockMove (bus : Bus M) (direction : Direction) (srcBank dstBank : Nat) :
    Tame (emitBlockMove bus direction srcBank dstBank) := by
  refine tame_of_commutes fun s p => ?_
  rw [emitBlockMove, emitBlockMove, blockMoveLoop_setP]
  rfl

theorem tame_emitPushEffectiveAddress (bus : Bus M) (seg : SegRef) :
    Tame (emitPushEffectiveAddress bus seg) := by
  refine tame_of_commutes fun s p => ?_
  rw [emitPushEffectiveAddress, emitPushEffectiveAddress]
  cases seg.kind <;> rfl

theorem segrefAddr_setP (bus : Bus M) (seg : SegRef) (cpu : CpuState) (p : Byte) (m : M) :
    segrefAddr bus seg (cpu.setP p) m = segrefAddr bus seg cpu m := rfl

theorem readSeg_setP (bus : Bus M) (seg : SegRef) (width : Width) (cpu : CpuState) (p : Byte)
    (m : M) : readSeg bus seg width (cpu.setP p) m = readSeg bus seg width cpu m := by
  simp only [readSeg, segrefAddr_setP]

theorem writeSeg_setP (bus : Bus M) (seg : SegRef) (width : Width) (v : Word) (cpu : CpuState)
    (p : Byte) (m : M) :
    writeSeg bus seg width v (cpu.setP p) m = writeSeg bus seg width v cpu m := by
  simp only [writeSeg, segrefAddr_setP]

/-- The operations that change a place in memory. -/
theorem tame_incMem (bus : Bus M) (seg : SegRef) (width : Width) (delta : Delta) :
    Tame (execOp bus (.incMem seg width delta)) := by
  refine tame_of_commutes fun s p => ?_
  simp only [execOp, EmitState.setP, readSeg_setP, writeSeg_setP, setNzNoP]
  rfl

theorem tame_bitSetMem (bus : Bus M) (seg : SegRef) (width : Width) :
    Tame (execOp bus (.bitSetMem seg width)) := by
  refine tame_of_commutes fun s p => ?_
  simp only [execOp, EmitState.setP, readSeg_setP, writeSeg_setP]
  rfl

theorem tame_bitClearMem (bus : Bus M) (seg : SegRef) (width : Width) :
    Tame (execOp bus (.bitClearMem seg width)) := by
  refine tame_of_commutes fun s p => ?_
  simp only [execOp, EmitState.setP, readSeg_setP, writeSeg_setP]
  rfl

theorem tame_shift (bus : Bus M) (op : ShiftOp) (src : Value) (width : Width) (out : Value) :
    Tame (execOp bus (.shift op src width out)) :=
  tame_of_commutes fun _ _ => rfl

/-- Every operation of the lowering. -/
theorem tame_execOp (bus : Bus M) {op : IROp} {insn : Insn} (h : op.Lowered insn) :
    Tame (execOp bus op) := by
  obtain ⟨hfrom, hspare⟩ := h
  cases op with
  | alu op lhs rhs width out => exact tame_alu bus op lhs rhs width out
  | shift op src width out => exact tame_shift bus op src width out
  | incMem seg width delta => exact tame_incMem bus seg width delta
  | bitSetMem seg width => exact tame_bitSetMem bus seg width
  | bitClearMem seg width => exact tame_bitClearMem bus seg width
  | readReg reg out =>
    refine tame_of_commutes fun s p => ?_
    show EmitState.setVal _ out (readRegField (s.cpu.setP p) reg) = _
    rw [readRegField_setP s.cpu p hspare]
    rfl
  | writeReg reg src =>
    exact tame_of_cpuTame fun vals => cpuTame_of_commutes (emitWriteReg_setP (vals src) hfrom)
  | incReg reg delta =>
    exact tame_of_cpuTame fun _ => cpuTame_of_commutes (emitIncReg_setP delta hfrom)
  | bitTest operand width imm =>
    exact tame_of_cpuTame fun vals =>
      cpuTame_of_commutes (emitBitTest_setP (vals operand) width imm)
  | setFlag flag value => exact tame_of_cpuTame fun _ => cpuTame_emitSetFlag value hspare
  | setNZ src width =>
    exact tame_of_cpuTame (f := fun vals => setNz (masked (vals src) width) width)
      fun vals => cpuTame_syncPNz fun _ _ => rfl
  | repFlags mask => exact tame_of_cpuTame fun _ => cpuTame_modifyP _
  | sepFlags mask => exact tame_of_cpuTame fun _ => cpuTame_modifyP _
  | xce => exact tame_of_cpuTame fun _ => cpuTame_emitXce
  | push src width =>
    cases width with
    | byte => exact tame_of_commutes fun s p => rfl
    | word => exact tame_of_commutes fun s p => rfl
  | pull width out =>
    cases width with
    | byte => exact tame_of_commutes fun s p => rfl
    | word => exact tame_of_commutes fun s p => rfl
  | pushReg reg staticM staticX => exact tame_emitPushReg bus reg staticM staticX
  | pullReg reg staticM staticX => exact tame_emitPullReg bus reg staticM staticX
  | blockMove direction srcBank dstBank => exact tame_emitBlockMove bus direction srcBank dstBank
  | transfer src dst => exact tame_of_cpuTame fun _ => cpuTame_emitTransfer hspare.1 hspare.2
  | pushEffectiveAddress seg => exact tame_emitPushEffectiveAddress bus seg
  | _ => exact tame_of_commutes fun s p => rfl

/-! ### Steps and runs -/

theorem cpuPushInterruptFrame_setP (bus : Bus M) (s : EmitState M) (p : Byte) :
    cpuPushInterruptFrame bus (s.setP p) = cpuPushInterruptFrame bus s := rfl

/-- The frame ends with the packed mirrors, which the push leaves as they are. -/
theorem cpuPushInterruptFrame_coherent (bus : Bus M) (s : EmitState M) :
    (cpuPushInterruptFrame bus s).cpu.mirrors = s.cpu.mirrors ∧
      (cpuPushInterruptFrame bus s).cpu.Coherent ∧
        ∃ m, (cpuPushInterruptFrame bus s).mem =
          bus.write8 0x00 ((cpuPushInterruptFrame bus s).cpu.S + 1) s.cpu.mirrors.pack m := by
  have htop (r : EmitState M) (b : Byte) :
      (pushByte bus b r).mem = bus.write8 0x00 ((pushByte bus b r).cpu.S + 1) b r.mem := by
    show bus.write8 0x00 r.cpu.S b r.mem = bus.write8 0x00 (r.cpu.S - 1 + 1) b r.mem
    rw [BitVec.sub_add_cancel]
  cases he : s.cpu.emulation with
  | true =>
    have hframe : cpuPushInterruptFrame bus s = pushByte bus s.cpu.mirrors.pack
        (pushByte bus 0x00 (pushByte bus 0x00 { s with cpu := cpuMirrorsToP s.cpu })) := by
      simp only [cpuPushInterruptFrame, show (cpuMirrorsToP s.cpu).emulation = true from he, if_true]
      rfl
    rw [hframe]
    exact ⟨rfl, rfl, _, htop _ _⟩
  | false =>
    have hframe : cpuPushInterruptFrame bus s = pushByte bus s.cpu.mirrors.pack
        (pushByte bus 0x00 (pushByte bus 0x00
          (pushByte bus s.cpu.PB { s with cpu := cpuMirrorsToP s.cpu }))) := by
      simp only [cpuPushInterruptFrame, show (cpuMirrorsToP s.cpu).emulation = false from he]
      rfl
    rw [hframe]
    exact ⟨rfl, rfl, _, htop _ _⟩

theorem emitRti_loaded (bus : Bus M) (s : EmitState M) :
    Loaded (popByte bus s).1 (emitRti bus s) := by
  simp only [emitRti]
  split
  · exact ⟨rfl, rfl⟩
  · exact ⟨rfl, rfl⟩

theorem coherent_of_loaded {p : Byte} {t : EmitState M} (h : Loaded p t) : t.cpu.Coherent := by
  rw [CpuState.Coherent, h.2, Mirrors.pack_unpack]
  exact h.1

theorem tame_statusStep (bus : Bus M) (a : StatusStep M) : Tame (statusStep bus a) := by
  cases a with
  | op o =>
    obtain ⟨op, insn, vid, ops, hlower, hop⟩ := o
    exact tame_execOp bus (lowered_of_lower hlower op hop)
  | interrupt =>
    exact ⟨fun s => onlyMirrored_of_coherent (cpuPushInterruptFrame_coherent bus s).2.1,
      fun s p => ⟨_, cpuPushInterruptFrame_setP bus s p⟩⟩
  | rti =>
    exact ⟨fun s => onlyMirrored_of_coherent (coherent_of_loaded (emitRti_loaded bus s)),
      fun s p => ⟨_, rfl⟩⟩
  | dispatch => exact tame_of_cpuTame (f := fun _ => dispatchReset) fun _ =>
      cpuTame_of_packs (fun _ _ => rfl) (fun _ => coherent_cpuPToMirrors _)
  | interp run => exact ⟨fun s => onlyMirrored_of_coherent rfl, fun s p => ⟨_, rfl⟩⟩

theorem usesPacked_statusStep (bus : Bus M) (a : StatusStep M) (s : EmitState M) :
    UsesPacked bus s (statusStep bus a s) a := by
  cases a with
  | op o =>
    obtain ⟨op, _⟩ := o
    cases op with
    | pushReg reg staticM staticX =>
      cases reg with
      | p => rfl
      | _ => trivial
    | pullReg reg staticM staticX =>
      cases reg with
      | p => exact ⟨rfl, rfl⟩
      | _ => trivial
    | repFlags mask => exact ⟨rfl, rfl⟩
    | sepFlags mask => exact ⟨rfl, rfl⟩
    | _ => trivial
  | interrupt => exact (cpuPushInterruptFrame_coherent bus s).2.2
  | rti => exact emitRti_loaded bus s
  | dispatch => exact ⟨rfl, rfl⟩
  | interp run => exact ⟨getFlags_interpOf s.cpu s.mem, rfl⟩

/-- A run does not look at the `P` it starts with. -/
theorem final_statusStep_setP (bus : Bus M) : ∀ (steps : List (StatusStep M)) (s : EmitState M)
    (p : Byte), ∃ q, Runs.final (statusStep bus) steps (s.setP p) =
      (Runs.final (statusStep bus) steps s).setP q := by
  intro steps
  induction steps with
  | nil => intro s p; exact ⟨p, rfl⟩
  | cons a steps ih =>
    intro s p
    obtain ⟨q, hq⟩ := (tame_statusStep bus a).blind s p
    rw [Runs.final_cons, Runs.final_cons, hq]
    exact ih (statusStep bus a s) q

/-- **Whoever uses the status byte as a whole packs the mirrors first, whatever is loaded into it
is unpacked, and nothing else depends on it**, in every run and from every state. -/
theorem statusByte_coherent (bus : Bus M) (steps : List (StatusStep M)) (s : EmitState M) :
    Runs.StepsMeet (statusStep bus) (StatusCoherent bus) steps s ∧
      ∀ p, ∃ q, Runs.final (statusStep bus) steps (s.setP p) =
        (Runs.final (statusStep bus) steps s).setP q :=
  ⟨Runs.stepsMeet_of_forall (statusStep bus)
      (fun a s => ⟨usesPacked_statusStep bus a s, (tame_statusStep bus a).mirrored s⟩) steps s,
    final_statusStep_setP bus steps s⟩

end SnesRecomp.Recompiler
