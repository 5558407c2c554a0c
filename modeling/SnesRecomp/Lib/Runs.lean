import Mathlib.Data.List.Basic
import Mathlib.Tactic.Cases

/-!
# Runs of labelled steps

`step a s` is the state after the step `a`; a run is a list of labels.  An invariant
usually survives a step only under some condition on the state before it.  When that
condition is exact for one step, it is exact for a whole run: `invariant_iff`.
-/

namespace SnesRecomp.Runs

variable {α σ : Type*} (step : α → σ → σ)

/-- The states of a run, the first and the last included. -/
def states : List α → σ → List σ
  | [], s => [s]
  | a :: as, s => s :: states as (step a s)

/-- Every step of the run is taken where `ok` allows it. -/
def StepsMeet (ok : α → σ → Prop) : List α → σ → Prop
  | [], _ => True
  | a :: as, s => ok a s ∧ StepsMeet ok as (step a s)

instance decidableStepsMeet (ok : α → σ → Prop) [∀ a s, Decidable (ok a s)] :
    ∀ (as : List α) (s : σ), Decidable (StepsMeet step ok as s)
  | [], _ => inferInstanceAs (Decidable True)
  | a :: as, s =>
    have := decidableStepsMeet ok as (step a s)
    inferInstanceAs (Decidable (_ ∧ _))

/-- What holds of every step holds of the steps of every run. -/
theorem stepsMeet_of_forall {ok : α → σ → Prop} (h : ∀ a s, ok a s) :
    ∀ (as : List α) (s : σ), StepsMeet step ok as s := by
  intro as
  induction as with
  | nil => intro s; trivial
  | cons a as ih => intro s; exact ⟨h a s, ih (step a s)⟩

/-- The last state of a run. -/
def final (as : List α) (s : σ) : σ := as.foldl (fun s a => step a s) s

@[simp] theorem final_nil (s : σ) : final step [] s = s := rfl

@[simp] theorem final_cons (a : α) (as : List α) (s : σ) :
    final step (a :: as) s = final step as (step a s) := rfl

theorem final_append (as bs : List α) (s : σ) :
    final step (as ++ bs) s = final step bs (final step as s) := List.foldl_append

theorem stepsMeet_append {ok : α → σ → Prop} (as bs : List α) (s : σ) :
    StepsMeet step ok (as ++ bs) s ↔
      StepsMeet step ok as s ∧ StepsMeet step ok bs (final step as s) := by
  induction as generalizing s with
  | nil => exact (iff_of_eq (true_and _)).symm
  | cons a as ih => exact (and_congr_right fun _ => ih (step a s)).trans and_assoc.symm

/-- What every step preserves holds at the end of every run. -/
theorem final_of_step {inv : σ → Prop} (hstep : ∀ a s, inv s → inv (step a s)) :
    ∀ (as : List α) (s : σ), inv s → inv (final step as s) := by
  intro as
  induction as with
  | nil => intro s hs; exact hs
  | cons a as ih => intro s hs; exact ih _ (hstep a s hs)

/-- What every allowed step preserves holds at the end of an allowed run. -/
theorem final_of_stepsMeet {inv : σ → Prop} {ok : α → σ → Prop}
    (hstep : ∀ a s, inv s → ok a s → inv (step a s)) :
    ∀ (as : List α) (s : σ), inv s → StepsMeet step ok as s → inv (final step as s) := by
  intro as
  induction as with
  | nil => intro s hs _; exact hs
  | cons a as ih => intro s hs h; exact ih _ (hstep a s hs h.1) h.2

theorem self_mem_states (as : List α) (s : σ) : s ∈ states step as s := by
  cases as with
  | nil => exact List.mem_singleton_self s
  | cons a as => exact List.mem_cons_self

/-- What every allowed step preserves holds all along an allowed run. -/
theorem states_of_stepsMeet {inv : σ → Prop} {ok : α → σ → Prop}
    (hstep : ∀ a s, inv s → ok a s → inv (step a s)) :
    ∀ (as : List α) (s : σ), inv s → StepsMeet step ok as s → ∀ t ∈ states step as s, inv t := by
  intro as
  induction as with
  | nil =>
    intro s hs _ t ht
    exact List.mem_singleton.mp ht ▸ hs
  | cons a as ih =>
    intro s hs h t ht
    rcases List.mem_cons.mp ht with rfl | ht
    · exact hs
    · exact ih _ (hstep a s hs h.1) h.2 t ht

/-- **An invariant holds all along a run exactly when each of its steps is taken where
the invariant survives it.** -/
theorem invariant_iff {inv : σ → Prop} {ok : α → σ → Prop}
    (hstep : ∀ a s, inv s → (inv (step a s) ↔ ok a s)) :
    ∀ (as : List α) (s : σ), inv s → ((∀ t ∈ states step as s, inv t) ↔ StepsMeet step ok as s) := by
  intro as
  induction as with
  | nil =>
    intro s hs
    exact iff_of_true (fun t ht => List.mem_singleton.mp ht ▸ hs) trivial
  | cons a as ih =>
    intro s hs
    constructor
    · intro h
      have hnext := h _ (List.mem_cons_of_mem s (self_mem_states step as (step a s)))
      exact ⟨(hstep a s hs).mp hnext,
        (ih _ hnext).mp fun t ht => h t (List.mem_cons_of_mem s ht)⟩
    · rintro ⟨hok, hrest⟩ t ht
      rcases List.mem_cons.mp ht with rfl | ht
      · exact hs
      · exact (ih _ ((hstep a s hs).mpr hok)).mpr hrest t ht

/-- While an invariant makes `good` and `ok` the same and each allowed step keeps it, a run
is good all along exactly when it is allowed all along. -/
theorem stepsMeet_iff {inv : σ → Prop} {good ok : α → σ → Prop}
    (hiff : ∀ a s, inv s → (good a s ↔ ok a s))
    (hstep : ∀ a s, inv s → ok a s → inv (step a s)) :
    ∀ (as : List α) (s : σ), inv s → (StepsMeet step good as s ↔ StepsMeet step ok as s) := by
  intro as
  induction as with
  | nil => intro s _; exact Iff.rfl
  | cons a as ih =>
    intro s hs
    constructor
    · rintro ⟨hgood, hrest⟩
      have hok := (hiff a s hs).mp hgood
      exact ⟨hok, (ih _ (hstep a s hs hok)).mp hrest⟩
    · rintro ⟨hok, hrest⟩
      exact ⟨(hiff a s hs).mpr hok, (ih _ (hstep a s hs hok)).mpr hrest⟩

/-! ### Registers -/

/-- What the labels store last. -/
def latest {β : Type*} (stores : α → Option β) : List α → Option β
  | [] => none
  | a :: as => (latest stores as).or (stores a)

theorem latest_eq_none {β : Type*} {stores : α → Option β} :
    ∀ {as : List α}, (∀ a ∈ as, stores a = none) → latest stores as = none := by
  intro as
  induction as with
  | nil => exact fun _ => rfl
  | cons a as ih =>
    intro h
    rw [latest, ih fun b hb => h b (List.mem_cons_of_mem a hb), h a List.mem_cons_self]
    rfl

/-- A register holds what was stored last, or what it had. -/
theorem final_latest {β : Type*} {stores : α → Option β} (get : σ → β) :
    ∀ {as : List α} (s : σ), (∀ a ∈ as, ∀ s, get (step a s) = (stores a).getD (get s)) →
      get (final step as s) = (latest stores as).getD (get s) := by
  intro as
  induction as with
  | nil => exact fun s _ => rfl
  | cons a as ih =>
    intro s h
    rw [final_cons, ih _ fun b hb => h b (List.mem_cons_of_mem a hb), latest,
      h a List.mem_cons_self s]
    cases latest stores as <;> rfl

/-- What no step of the run changes is the same behind it. -/
theorem final_frame {β : Type*} (get : σ → β) :
    ∀ {as : List α} (s : σ), (∀ a ∈ as, ∀ s, get (step a s) = get s) →
      get (final step as s) = get s := by
  intro as
  induction as with
  | nil => exact fun s _ => rfl
  | cons a as ih =>
    intro s h
    rw [final_cons, ih _ fun b hb => h b (List.mem_cons_of_mem a hb), h a List.mem_cons_self s]

end SnesRecomp.Runs
