import SnesRecomp.Tiers.BridgeRuns
import SnesRecomp.Tiers.TierReturn

/-!
# Bails at the step cap

At the cap `interp_bridge_run_ex` copies the interpreter's registers into the state of the
compiled code, whatever bank and mode the interpreted code is in.  Three of the entry points
then set the stack pointer, `interp_tier_dispatch` does not, and none sets anything else.  So
the caller's continuation finds the state it was compiled for exactly when the interpreted code
is back in its bank and mode at the cap (`capBail_contained_iff`).
-/

namespace SnesRecomp.Tiers

open Interp816

variable {M : Type} {bus : Bus M} {table : DispatchTable M} {sExit : Word}

/-! ### The cap -/

theorem bridgeLoop_of_cap {stepCap : Nat} {b c : BridgeState M}
    (h : bridgeAfter bus table sExit stepCap b = some c) :
    bridgeLoop bus table sExit stepCap b = (false, ⟨c.interp, syncInterpToCpu c.interp c.cpu⟩) := by
  have hrun := bridgeLoop_of_after stepCap h 0
  rw [Nat.add_zero] at hrun
  rw [hrun, bridgeLoop]

/-! ### What the caller goes on with -/

/-- The stack pointer once the caller's return frame is popped; `frame` is the size of the
frame `interp_tier_dispatch` inherits. -/
def TierEntry.callerS (frame : Byte) (cpu : CpuState) : TierEntry → Word
  | .dispatch => cpu.S + frame.setWidth 16
  | .balanced entryS hrv | .bankMiss entryS hrv => entryS + hrv.setWidth 16
  | .runCall => cpu.S + 2

/-- The state the caller's continuation was compiled for, with the status byte in step. -/
structure Contained (callerS : Word) (entry out : CpuState) : Prop where
  stack : out.S = callerS
  bank : out.PB = entry.PB
  emulation : out.emulation = entry.emulation
  mFlag : out.mFlag = entry.mFlag
  xFlag : out.xFlag = entry.xFlag
  mBit : hasBit out.P cpuPM = out.mFlag
  xBit : hasBit out.P cpuPX = out.xFlag

/-- The interpreted code is back in the bank and the mode it was entered in. -/
structure BackInContext (entry : CpuState) (i : Interp816 M) : Prop where
  bank : i.k = entry.PB
  emulation : i.e = entry.emulation
  mf : i.mf = entry.mFlag
  xf : i.xf = entry.xFlag

/-- `interp_tier_dispatch` leaves the stack to the interpreted code; the balanced forms need
the size of the frame, for which an `hrv` of 1 does not stand. -/
def TierEntry.PopsFrame (frame : Byte) (cpu : CpuState) (i : Interp816 M) : TierEntry → Prop
  | .dispatch => i.sp = cpu.S + frame.setWidth 16
  | .balanced _ hrv | .bankMiss _ hrv => hrv ≠ 1
  | .runCall => True

/-- What a bail hands back, but for the stack pointer. -/
theorem contained_iff (callerS s : Word) (entry cpu : CpuState) (i : Interp816 M) :
    Contained callerS entry { syncInterpToCpu i cpu with S := s } ↔
      s = callerS ∧ BackInContext entry i := by
  constructor
  · intro h
    exact ⟨h.stack, h.bank, h.emulation, h.mFlag, h.xFlag⟩
  · rintro ⟨hs, hi⟩
    refine ⟨hs, hi.bank, hi.emulation, hi.mf, hi.xf, ?_, ?_⟩
    · rw [hasBit_cpuPM]
      exact cpuMirrorsToP_m _
    · rw [hasBit_cpuPX]
      exact cpuMirrorsToP_x _

/-- The stack pointer a bail leaves. -/
def TierEntry.bailS (cpu : CpuState) (i : Interp816 M) : TierEntry → Word
  | .dispatch => i.sp
  | .balanced entryS hrv | .bankMiss entryS hrv =>
    entryS + (if hrv = 1 then 0 else hrv).setWidth 16
  | .runCall => cpu.S + 2

theorem tierDown_of_cap {stepCap : Nat} {targetPc24 : Addr} {cpu : CpuState} {m : M}
    {e : TierEntry} {b : BridgeState M}
    (hcap : bridgeAfter bus table (e.sExit cpu) stepCap
      (bridgeEnter (targetPc24 &&& 0xFFFFFF) cpu m) = some b) :
    (tierDown bus table stepCap targetPc24 cpu m e).2.1 =
      { syncInterpToCpu b.interp b.cpu with S := e.bailS cpu b.interp } := by
  have hrun : interpBridgeRunEx bus table stepCap (targetPc24 &&& 0xFFFFFF) (e.sExit cpu) cpu m =
      (false, syncInterpToCpu b.interp b.cpu, b.interp.mem) := by
    rw [interpBridgeRunEx, bridgeLoop_of_cap hcap]
  cases e with
  | dispatch => exact congrArg (fun r => r.2.1) hrun
  | balanced entryS hrv => exact congrArg (fun r => (orAbandon entryS hrv r).2.1) hrun
  | runCall =>
      exact congrArg (fun r => if r.1 then r.2.1 else { r.2.1 with S := cpu.S + 2 }) hrun
  | bankMiss entryS hrv => exact congrArg (fun r => (orAbandon entryS hrv r).2.1) hrun

theorem abandonS_eq_iff (entryS : Word) (hrv : Byte) :
    entryS + (if hrv = 1 then 0 else hrv).setWidth 16 = entryS + hrv.setWidth 16 ↔ hrv ≠ 1 := by
  by_cases hone : hrv = 1
  · rw [hone, if_pos rfl]
    refine ⟨fun h => ?_, fun h => absurd rfl h⟩
    exact absurd ((BitVec.add_right_inj entryS).mp h) (by decide)
  · rw [if_neg hone]
    exact ⟨fun _ => hone, fun _ => rfl⟩

theorem bailS_eq_iff (frame : Byte) (cpu : CpuState) (i : Interp816 M) (e : TierEntry) :
    e.bailS cpu i = e.callerS frame cpu ↔ e.PopsFrame frame cpu i := by
  cases e with
  | dispatch => exact Iff.rfl
  | balanced entryS hrv => exact abandonS_eq_iff entryS hrv
  | runCall => exact iff_of_true rfl True.intro
  | bankMiss entryS hrv => exact abandonS_eq_iff entryS hrv

/-- **A bail at the cap is contained exactly when the interpreted code is back in its bank and
mode**, and, for `interp_tier_dispatch`, has popped the frame itself, and otherwise was told
the size of the frame. -/
theorem capBail_contained_iff (bus : Bus M) (table : DispatchTable M) (stepCap : Nat)
    (targetPc24 : Addr) (cpu : CpuState) (m : M) (e : TierEntry) (frame : Byte)
    {b : BridgeState M}
    (hcap : bridgeAfter bus table (e.sExit cpu) stepCap
      (bridgeEnter (targetPc24 &&& 0xFFFFFF) cpu m) = some b) :
    Contained (e.callerS frame cpu) cpu
        (tierDown bus table stepCap targetPc24 cpu m e).2.1 ↔
      e.PopsFrame frame cpu b.interp ∧ BackInContext cpu b.interp := by
  rw [tierDown_of_cap hcap, contained_iff, bailS_eq_iff]

/-! ### A loop in eight-bit mode -/

/-- `SEP #$30` and then `BRA` to itself at `$00:8000`. -/
def sepThenSpin (_ : Byte) (addr : Word) : Byte :=
  if addr = 0x8000 then 0xE2 else if addr = 0x8001 then 0x30 else if addr = 0x8002 then 0x80
  else if addr = 0x8003 then 0xFE else 0

/-- Entered from code in 16-bit mode. -/
def wideCpu : CpuState := { cpuStateInit with emulation := false, mFlag := false, xFlag := false }

/-- At the branch. -/
def spinning : BridgeState Unit :=
  (bridgeAfter (codeBus sepThenSpin) noBodies 0x1FF 1 (bridgeEnter 0x8000 wideCpu ())).get
    (by decide)

theorem bridgeAfter_spinning (n : Nat) :
    bridgeAfter (codeBus sepThenSpin) noBodies 0x1FF n spinning = some spinning := by
  have hstep : bridgeStep (codeBus sepThenSpin) noBodies 0x1FF spinning = .again spinning := rfl
  induction n with
  | zero => rfl
  | succ n ih => exact (bridgeAfter_succ hstep n).trans ih

theorem bridgeAfter_sepThenSpin (n : Nat) :
    bridgeAfter (codeBus sepThenSpin) noBodies 0x1FF (n + 1) (bridgeEnter 0x8000 wideCpu ()) =
      some spinning := by
  have hstep : bridgeStep (codeBus sepThenSpin) noBodies 0x1FF (bridgeEnter 0x8000 wideCpu ()) =
      .again spinning := rfl
  exact (bridgeAfter_succ hstep n).trans (bridgeAfter_spinning n)

/-- The theorem on this run. -/
theorem capBail_contained_spin :
    Contained (TierEntry.runCall.callerS 2 wideCpu) wideCpu
        (tierDown (codeBus sepThenSpin) noBodies 2000000 0x8000 wideCpu () .runCall).2.1 ↔
      TierEntry.runCall.PopsFrame 2 wideCpu spinning.interp ∧
        BackInContext wideCpu spinning.interp :=
  capBail_contained_iff (codeBus sepThenSpin) noBodies 2000000 0x8000 wideCpu () .runCall 2
    (bridgeAfter_sepThenSpin 1999999)

/-- Every entry point hands the 8-bit mode to 16-bit code, and `interp_tier_dispatch` the stack
pointer with the frame still on the stack. -/
theorem capBail_not_contained_spin :
    (∀ e ∈ [TierEntry.dispatch, .balanced 0x1FF 2, .runCall, .bankMiss 0x1FF 3],
      (∃ b, bridgeAfter (codeBus sepThenSpin) noBodies (e.sExit wideCpu) 2000000
        (bridgeEnter 0x8000 wideCpu ()) = some b) ∧
      ¬Contained (e.callerS 2 wideCpu) wideCpu
        (tierDown (codeBus sepThenSpin) noBodies 2000000 0x8000 wideCpu () e).2.1) ∧
      (tierDown (codeBus sepThenSpin) noBodies 2000000 0x8000 wideCpu () .dispatch).2.1.S ≠
        TierEntry.dispatch.callerS 2 wideCpu := by
  have hcap : ∀ e ∈ [TierEntry.dispatch, .balanced 0x1FF 2, .runCall, .bankMiss 0x1FF 3],
      bridgeAfter (codeBus sepThenSpin) noBodies (e.sExit wideCpu) 2000000
        (bridgeEnter (0x8000 &&& 0xFFFFFF) wideCpu ()) = some spinning := by
    intro e he
    have hexit : e.sExit wideCpu = 0x1FF := by
      revert e
      decide
    rw [hexit]
    exact bridgeAfter_sepThenSpin 1999999
  refine ⟨fun e he => ⟨⟨spinning, hcap e he⟩, fun h => ?_⟩, ?_⟩
  · have hmode := h.mFlag
    rw [tierDown_of_cap (hcap e he)] at hmode
    change spinning.interp.mf = wideCpu.mFlag at hmode
    exact absurd hmode (by decide)
  · rw [tierDown_of_cap (hcap .dispatch List.mem_cons_self)]
    decide

end SnesRecomp.Tiers
