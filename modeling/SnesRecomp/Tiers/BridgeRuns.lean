import SnesRecomp.Interp.Frame
import SnesRecomp.Tiers.Bridge

/-!
# Runs of the bridge

Facts about `bridgeStep` and its runs that do not depend on what the program does: what a
turn is for each kind of opcode, that no interrupt is ever taken, and that the result of
the loop is the first turn that exits, whatever the step cap is.
-/

namespace SnesRecomp.Tiers

open Interp816

variable {M : Type} {bus : Bus M} {table : DispatchTable M} {sExit : Word}

/-! ### One turn -/

/-- The loop's own look at the opcode. -/
def peek (bus : Bus M) (b : BridgeState M) : Byte × M :=
  (bridgeBus bus).read (pc24 b.interp) b.interp.mem

/-- The interpreter after the turn's instruction. -/
def executed (bus : Bus M) (b : BridgeState M) : Interp816 M :=
  runOpcode (bridgeBus bus) { b.interp with mem := (peek bus b).2 }

theorem bridgeStep_of_ret {b : BridgeState M} (h : isRet (peek bus b).1 = true) :
    bridgeStep bus table sExit b =
      if sExit < (executed bus b).sp then
        .exit ⟨executed bus b, syncInterpToCpu (executed bus b) b.cpu⟩
      else .again ⟨executed bus b, b.cpu⟩ := by
  have hcall : isCall (peek bus b).1 = false := by
    simp only [isRet, Bool.or_eq_true, beq_iff_eq] at h
    rcases h with h | h <;> rw [h] <;> rfl
  have hstep : bridgeStep bus table sExit b =
      if isRet (peek bus b).1 ∧ sExit < (executed bus b).sp then
        .exit ⟨executed bus b, syncInterpToCpu (executed bus b) b.cpu⟩
      else .again ⟨executed bus b, b.cpu⟩ :=
    if_neg fun h => Bool.false_ne_true (hcall.symm.trans h)
  rw [hstep]
  simp only [h, true_and]

theorem bridgeStep_of_other {b : BridgeState M} (hcall : isCall (peek bus b).1 = false)
    (hret : isRet (peek bus b).1 = false) :
    bridgeStep bus table sExit b = .again ⟨executed bus b, b.cpu⟩ := by
  refine (if_neg ?_).trans (if_neg ?_)
  · exact fun h => Bool.false_ne_true (hcall.symm.trans h)
  · exact fun h => Bool.false_ne_true (hret.symm.trans h.1)

/-- A call: into the routine, or a bounce. -/
theorem bridgeStep_of_call {b : BridgeState M} (h : isCall (peek bus b).1 = true) :
    bridgeStep bus table sExit b =
      if cpuDispatchHasEntry table (syncInterpToCpu (executed bus b) b.cpu)
          (pc24 (executed bus b)) then
        bounce table (peek bus b).1 (pc24 b.interp) (executed bus b)
          (syncInterpToCpu (executed bus b) b.cpu)
      else .again ⟨executed bus b, syncInterpToCpu (executed bus b) b.cpu⟩ := if_pos h

/-- A bounce changes the registers and the memory, not the interrupt lines. -/
theorem bounce_lines {op : Byte} {pcBefore : Addr} {i : Interp816 M} {cpu : CpuState}
    {c : BridgeState M} (h : bounce table op pcBefore i cpu = .again c) :
    SameLines c.interp i ∧ c.interp.stopped = i.stopped := by
  unfold bounce at h
  dsimp only at h
  split at h
  · cases h
  · obtain rfl := BridgeFlow.again.inj h
    exact ⟨⟨rfl, rfl⟩, rfl⟩

/-- A turn that goes on leaves the lines to the instruction. -/
theorem bridgeStep_lines {b c : BridgeState M} (h : bridgeStep bus table sExit b = .again c) :
    SameLines c.interp (executed bus b) ∧ c.interp.stopped = (executed bus b).stopped := by
  cases hcall : isCall (peek bus b).1 with
  | true =>
    rw [bridgeStep_of_call hcall] at h
    split at h
    · exact bounce_lines h
    · obtain rfl := BridgeFlow.again.inj h
      exact ⟨⟨rfl, rfl⟩, rfl⟩
  | false =>
    cases hret : isRet (peek bus b).1 with
    | true =>
      rw [bridgeStep_of_ret hret] at h
      split at h
      · cases h
      · obtain rfl := BridgeFlow.again.inj h
        exact ⟨⟨rfl, rfl⟩, rfl⟩
    | false =>
      rw [bridgeStep_of_other hcall hret] at h
      obtain rfl := BridgeFlow.again.inj h
      exact ⟨⟨rfl, rfl⟩, rfl⟩

theorem idle_executed {b : BridgeState M} (h : Idle b.interp) : Idle (executed bus b) := by
  have hpeeked : Idle { b.interp with mem := (peek bus b).2 } := h
  exact hpeeked.runOpcode (bridgeBus bus)

theorem idle_bridgeStep {b c : BridgeState M} (hb : Idle b.interp)
    (h : bridgeStep bus table sExit b = .again c) : Idle c.interp := by
  obtain ⟨⟨hirq, hnmi⟩, _⟩ := bridgeStep_lines h
  have hexec : Idle (executed bus b) := idle_executed hb
  exact ⟨hirq.trans hexec.1, hnmi.trans hexec.2⟩

/-- A core that ran into `STP` stays there. -/
theorem stopped_bridgeStep {b c : BridgeState M} (hb : b.interp.stopped = true)
    (h : bridgeStep bus table sExit b = .again c) : c.interp.stopped = true := by
  have hpeeked : { b.interp with mem := (peek bus b).2 }.stopped = true := hb
  have hexec : executed bus b = { b.interp with mem := (peek bus b).2 } :=
    runOpcode_of_stopped (bridgeBus bus) hpeeked
  rw [(bridgeStep_lines h).2, hexec]
  exact hb

/-! ### Runs -/

theorem bridgeAfter_succ {b c : BridgeState M} (h : bridgeStep bus table sExit b = .again c)
    (n : Nat) : bridgeAfter bus table sExit (n + 1) b = bridgeAfter bus table sExit n c := by
  rw [bridgeAfter, h]

/-- The first of at least one turns. -/
theorem bridgeAfter_succ_some {n : Nat} {b d : BridgeState M}
    (h : bridgeAfter bus table sExit (n + 1) b = some d) :
    ∃ c, bridgeStep bus table sExit b = .again c ∧ bridgeAfter bus table sExit n c = some d := by
  rw [bridgeAfter] at h
  cases hstep : bridgeStep bus table sExit b with
  | exit c =>
    rw [hstep] at h
    cases h
  | again c =>
    rw [hstep] at h
    exact ⟨c, rfl, h⟩

/-- What every turn preserves holds after `n` turns. -/
theorem bridgeAfter_induct {P : BridgeState M → Prop}
    (hstep : ∀ b c, P b → bridgeStep bus table sExit b = .again c → P c) :
    ∀ (n : Nat) (b c : BridgeState M), P b → bridgeAfter bus table sExit n b = some c → P c := by
  intro n
  induction n with
  | zero =>
    intro b c hb h
    obtain rfl := Option.some.inj h
    exact hb
  | succ n ih =>
    intro b d hb h
    obtain ⟨c, hbc, hcd⟩ := bridgeAfter_succ_some h
    exact ih c d (hstep b c hb hbc) hcd

theorem idle_bridgeEnter (entryPc24 : Addr) (cpu : CpuState) (m : M) :
    Idle (bridgeEnter entryPc24 cpu m).interp := ⟨rfl, rfl⟩

/-- **The bridge never takes an interrupt.** -/
theorem idle_bridgeAfter {n : Nat} {entryPc24 : Addr} {cpu : CpuState} {m : M}
    {b : BridgeState M}
    (h : bridgeAfter bus table sExit n (bridgeEnter entryPc24 cpu m) = some b) :
    Idle b.interp :=
  bridgeAfter_induct (fun _ _ => idle_bridgeStep) n _ b (idle_bridgeEnter entryPc24 cpu m) h

/-- As long as no turn exits, the cap only cuts the run short. -/
theorem bridgeLoop_of_after : ∀ (n : Nat) {b c : BridgeState M},
    bridgeAfter bus table sExit n b = some c → ∀ fuel,
      bridgeLoop bus table sExit (n + fuel) b = bridgeLoop bus table sExit fuel c := by
  intro n
  induction n with
  | zero =>
    intro b c h fuel
    obtain rfl := Option.some.inj h
    rw [Nat.zero_add]
  | succ n ih =>
    intro b c h fuel
    obtain ⟨d, hbd, hdc⟩ := bridgeAfter_succ_some h
    rw [Nat.add_right_comm, bridgeLoop, hbd]
    exact ih hdc fuel

/-- A loop that answers `1` reached a turn that exits. -/
theorem exit_of_bridgeLoop : ∀ (fuel : Nat) {b : BridgeState M},
    (bridgeLoop bus table sExit fuel b).1 = true →
      ∃ n c d, n < fuel ∧ bridgeAfter bus table sExit n b = some c ∧
        bridgeStep bus table sExit c = .exit d := by
  intro fuel
  induction fuel with
  | zero =>
    intro b h
    cases h
  | succ fuel ih =>
    intro b h
    rw [bridgeLoop] at h
    cases hstep : bridgeStep bus table sExit b with
    | exit d => exact ⟨0, b, d, Nat.succ_pos fuel, rfl, hstep⟩
    | again c =>
      rw [hstep] at h
      obtain ⟨n, e, d, hlt, hafter, hexit⟩ := ih h
      exact ⟨n + 1, e, d, Nat.succ_lt_succ hlt, (bridgeAfter_succ hstep n).trans hafter, hexit⟩

end SnesRecomp.Tiers
