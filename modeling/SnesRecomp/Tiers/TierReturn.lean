import SnesRecomp.Recompiler.Unwind
import SnesRecomp.Tiers.Bridge

/-!
# What the interpreter tier answers

A compiled body that the bridge bounces into can return a count of frames to skip.  The
loop then ends with `return 1`, a boolean, and each of the four entry points turns that
into a normal return.  So a non-local return never gets past the bridge
(`not_nonLocalReturnSurvives`): the compiled function nearest to the bridge that is
suspended at a call goes on, instead of the ancestor's caller
(`unwind_normal_running`).
-/

namespace SnesRecomp.Tiers

open Interp816 Recompiler

variable {M : Type}

/-- The entry points, with the arguments that say how they start and how they bail. -/
inductive TierEntry
  | dispatch
  | balanced (entryS : Word) (hrv : Byte)
  | runCall
  | bankMiss (entryS : Word) (hrv : Byte)
  deriving DecidableEq, Repr

/-- The watermark an entry point runs the bridge with. -/
def TierEntry.sExit (cpu : CpuState) : TierEntry → Word
  | .dispatch | .runCall => cpu.S
  | .balanced entryS _ | .bankMiss entryS _ => entryS

/-- What an entry point returns to compiled code. -/
def tierDown (bus : Bus M) (table : DispatchTable M) (stepCap : Nat) (targetPc24 : Addr)
    (cpu : CpuState) (m : M) : TierEntry → RecompReturn × CpuState × M
  | .dispatch => interpTierDispatch bus table stepCap targetPc24 cpu m
  | .balanced entryS hrv => interpTierDispatchBalanced bus table stepCap targetPc24 entryS hrv cpu m
  | .runCall => interpTierRunCall bus table stepCap targetPc24 cpu m
  | .bankMiss entryS hrv => interpTierDispatchBankMiss bus table stepCap targetPc24 entryS hrv cpu m

/-- This turn of the loop runs a compiled body, and the body answers `r`. -/
def Bounced (bus : Bus M) (table : DispatchTable M) (b : BridgeState M) (r : RecompReturn) : Prop :=
  let op := (bridgeBus bus).read (pc24 b.interp) b.interp.mem
  let i := runOpcode (bridgeBus bus) { b.interp with mem := op.2 }
  let cpu := syncInterpToCpu i b.cpu
  isCall op.1 = true ∧ cpuDispatchHasEntry table cpu (pc24 i) = true ∧
    (cpuDispatchPcPaired table (pc24 i) (callFrameSize op.1) cpu i.mem).1 = r

/-- A non-local return ends the loop. -/
theorem bridgeStep_of_bounced {bus : Bus M} {table : DispatchTable M} (sExit : Word)
    {b : BridgeState M} {r : RecompReturn} (h : Bounced bus table b r)
    (hr : r ≠ recompReturnNormal) : ∃ d, bridgeStep bus table sExit b = .exit d := by
  obtain ⟨hcall, hentry, hair⟩ := h
  unfold bridgeStep
  dsimp only
  rw [if_pos hcall, if_pos hentry]
  unfold bounce
  dsimp only
  rw [if_pos (by rw [hair]; exact hr)]
  exact ⟨_, rfl⟩

/-- An entry point whose run ends by `return 1` answers normally. -/
theorem tierDown_of_exit (bus : Bus M) (table : DispatchTable M) (stepCap : Nat)
    (targetPc24 : Addr) (cpu : CpuState) (m : M) (e : TierEntry)
    (hrun : (interpBridgeRunEx bus table stepCap (targetPc24 &&& 0xFFFFFF) (e.sExit cpu) cpu m).1 =
      true) :
    (tierDown bus table stepCap targetPc24 cpu m e).1 = recompReturnNormal := by
  cases e with
  | dispatch => rfl
  | balanced entryS hrv => exact congrArg Prod.fst (if_pos hrun)
  | runCall => rfl
  | bankMiss entryS hrv => exact congrArg Prod.fst (if_pos hrun)

/-- The answer is still a non-local return, and with it the compiled functions from the
bridge out to the ancestor are abandoned and the ancestor returns normally. -/
def NonLocalReturnSurvives (inner : List Activation) (anc : Activation) (answer : RecompReturn) :
    Prop :=
  answer ≠ recompReturnNormal ∧ AncestorReturns inner anc answer

/-- **No non-local return of a bounced body survives**: whichever entry point started the
run, however long it ran before, and whatever functions wait below the bridge. -/
theorem not_nonLocalReturnSurvives (bus : Bus M) (table : DispatchTable M) (stepCap : Nat)
    (targetPc24 : Addr) (cpu : CpuState) (m : M) (e : TierEntry) {n : Nat} {c : BridgeState M}
    (hcap : n < stepCap)
    (hafter : bridgeAfter bus table (e.sExit cpu) n
      (bridgeEnter (targetPc24 &&& 0xFFFFFF) cpu m) = some c)
    {r : RecompReturn} (hbounced : Bounced bus table c r) (hr : r ≠ recompReturnNormal)
    (inner : List Activation) (anc : Activation) :
    ¬ NonLocalReturnSurvives inner anc (tierDown bus table stepCap targetPc24 cpu m e).1 := by
  obtain ⟨d, hexit⟩ := bridgeStep_of_bounced (e.sExit cpu) hbounced hr
  have hloop := bridgeLoop_of_exit hexit n stepCap _ hafter hcap
  have hrun : (interpBridgeRunEx bus table stepCap (targetPc24 &&& 0xFFFFFF) (e.sExit cpu) cpu
      m).1 = true := congrArg Prod.fst hloop
  intro hsurvives
  exact hsurvives.1 (tierDown_of_exit bus table stepCap targetPc24 cpu m e hrun)

/-- A normal answer lets the nearest function go on that is suspended at a call. -/
theorem unwind_normal_running {a : Activation} (ha : a.link = .call) (outer : List Activation) :
    ∀ (inner : List Activation) (st : HostStack), (∀ b ∈ inner, b.link ≠ .call) →
      (unwind (inner ++ a :: outer) recompReturnNormal st).running = some a.locals := by
  intro inner
  induction inner with
  | nil =>
    intro st _
    simp only [List.nil_append, unwind, ha, Link.passUp, ne_eq, not_true_eq_false, if_false]
  | cons b inner ih =>
    intro st h
    have hb := h b List.mem_cons_self
    have hpass : b.link.passUp recompReturnNormal = some recompReturnNormal := by
      cases hl : b.link with
      | call => exact absurd hl hb
      | _ => rfl
    rw [List.cons_append, unwind, hpass]
    exact ih _ fun b' hb' => h b' (List.mem_cons_of_mem b hb')

/-! ### One bounce -/

/-- `JSR $9000` at `$00:8000`. -/
def jsr9000 (_ : Byte) (addr : Word) : Byte :=
  if addr = 0x8000 then 0x20 else if addr = 0x8002 then 0x90 else 0

def codeBus (code : Byte → Word → Byte) : Bus Unit :=
  { silentBus with read8 := fun bank addr m => (code bank addr, m) }

/-- The body at `$9000` skips one frame. -/
def skipOne : DispatchTable Unit := fun pc24 _ _ =>
  if pc24 = 0x9000 then some fun cpu m => (1, cpu, m) else none

theorem bounced_skipOne :
    Bounced (codeBus jsr9000) skipOne (bridgeEnter 0x8000 cpuStateInit ()) 1 := by
  refine ⟨by decide, by decide, by decide⟩

/-- The body wants the function entered at `$01FD` to return normally. -/
theorem not_nonLocalReturnSurvives_skipOne :
    ¬ NonLocalReturnSurvives [] ⟨⟨0x1FD, 2⟩, .call⟩
      (tierDown (codeBus jsr9000) skipOne 2000000 0x8000 cpuStateInit () .dispatch).1 :=
  not_nonLocalReturnSurvives (codeBus jsr9000) skipOne 2000000 0x8000 cpuStateInit () .dispatch
    (show 0 < 2000000 by decide) rfl bounced_skipOne (by decide) [] _

/-- Its answer would do that; the answer of the tier lets that function itself go on. -/
theorem normal_of_skipOne :
    let anc : Activation := ⟨⟨0x1FD, 2⟩, .call⟩
    let answer := (tierDown (codeBus jsr9000) skipOne 2000000 0x8000 cpuStateInit () .dispatch).1
    AncestorReturns [] anc 1 ∧ Bounced (codeBus jsr9000) skipOne
        (bridgeEnter 0x8000 cpuStateInit ()) 1 ∧
      ¬ NonLocalReturnSurvives [] anc answer ∧
      (unwind [anc] answer ⟨1, fun _ => 0x1FD⟩).running = some anc.locals :=
  ⟨⟨by decide, rfl⟩, bounced_skipOne, fun h => h.1 rfl, rfl⟩

end SnesRecomp.Tiers
