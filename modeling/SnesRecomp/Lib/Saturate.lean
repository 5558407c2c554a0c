import Mathlib.Data.List.Basic
import Mathlib.Tactic.Cases

/-!
# Saturation

`new t` is what a round adds to the list `t`, and `saturate new` goes on while a round adds
something, for as many rounds as it has.  When the rounds add members of a list `univ` that
were not there before, a round for each member of `univ` is enough: `saturate_stable`.
-/

namespace SnesRecomp

variable {α : Type*} (new : List α → List α)

def saturate : Nat → List α → List α
  | 0, t => t
  | n + 1, t => if (new t).isEmpty then t else saturate n (t ++ new t)

/-- What a round adds only when all of the list has `p` leaves `p` true of all of it. -/
theorem saturate_induct {p : α → Prop} (hnew : ∀ t, (∀ a ∈ t, p a) → ∀ a ∈ new t, p a) :
    ∀ (n : Nat) (t : List α), (∀ a ∈ t, p a) → ∀ a ∈ saturate new n t, p a := by
  intro n
  induction n with
  | zero => intro t ht; exact ht
  | succ n ih =>
    intro t ht
    rw [saturate]
    split
    · exact ht
    · refine ih _ fun a ha => ?_
      rcases List.mem_append.mp ha with ha | ha
      · exact ht a ha
      · exact hnew t ht a ha

theorem subset_saturate : ∀ (n : Nat) (t : List α), t ⊆ saturate new n t := by
  intro n
  induction n with
  | zero => intro t; exact fun _ h => h
  | succ n ih =>
    intro t
    rw [saturate]
    split
    · exact fun _ h => h
    · exact fun a ha => ih _ (List.mem_append_left _ ha)

variable [DecidableEq α]

/-- How many members of `univ` the list leaves out. -/
def missing (univ t : List α) : Nat := (univ.filter fun b => decide (b ∉ t)).length

theorem missing_le (univ t : List α) : missing univ t ≤ univ.length := List.length_filter_le _ _

/-- A list that has more leaves fewer members of `univ` out. -/
theorem missing_lt {univ t u : List α} {a : α} (hsub : t ⊆ u) (huniv : a ∈ univ) (ht : a ∉ t)
    (hu : a ∈ u) : missing univ u < missing univ t := by
  unfold missing
  have hfilter : univ.filter (fun b => decide (b ∉ u)) =
      (univ.filter fun b => decide (b ∉ t)).filter fun b => decide (b ∉ u) := by
    rw [List.filter_filter]
    refine List.filter_congr fun b _ => ?_
    by_cases h : b ∈ u
    · simp [h]
    · simp [h, show b ∉ t from fun hb => h (hsub hb)]
  rw [hfilter]
  refine List.length_filter_lt_length_iff_exists.mpr
    ⟨a, List.mem_filter.mpr ⟨huniv, decide_eq_true ht⟩, ?_⟩
  simpa using hu

/-- **With a round for each member of `univ`, no round adds anything more.** -/
theorem saturate_stable {univ : List α} (hnew : ∀ t, ∀ a ∈ new t, a ∈ univ ∧ a ∉ t) :
    ∀ (n : Nat) (t : List α), missing univ t ≤ n →
      new (saturate new n t) = [] := by
  intro n
  induction n with
  | zero =>
    intro t hn
    refine List.eq_nil_iff_forall_not_mem.mpr fun a ha => ?_
    obtain ⟨huniv, ht⟩ := hnew t a ha
    have hlt := missing_lt (List.subset_append_left t (new t)) huniv ht
      (List.mem_append_right t ha)
    omega
  | succ n ih =>
    intro t hn
    rw [saturate]
    split
    next hempty => exact List.isEmpty_iff.mp hempty
    next hempty =>
      obtain ⟨a, ha⟩ := List.exists_mem_of_ne_nil (new t) fun h => hempty (by rw [h]; rfl)
      obtain ⟨huniv, ht⟩ := hnew t a ha
      have hlt := missing_lt (List.subset_append_left t (new t)) huniv ht
        (List.mem_append_right t ha)
      exact ih _ (by omega)

end SnesRecomp
