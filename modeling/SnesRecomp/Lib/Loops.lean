import Mathlib.Logic.Basic

/-!
# Loops with a test in front

`while (go s) s = body s;` with fuel.  A loop leads from one state to another when it comes by the
second whatever fuel is left there (`Leads`), and it ends in a state when some fuel is enough
(`Ends`).  It ends in one state at most, and in none when the test stays true.
-/

namespace SnesRecomp.Loops

variable {σ : Type*} (go : σ → Bool) (body : σ → σ)

/-- `none` when the fuel is used up. -/
def loop : Nat → σ → Option σ
  | 0, _ => none
  | fuel + 1, s => if go s then loop fuel (body s) else some s

def Ends (s t : σ) : Prop := ∃ fuel, loop go body fuel s = some t

def Leads (s t : σ) : Prop := ∃ count, ∀ fuel, loop go body (count + fuel) s = loop go body fuel t

theorem loop_succ (fuel : Nat) (s : σ) :
    loop go body (fuel + 1) s = if go s then loop go body fuel (body s) else some s := rfl

variable {go body}

theorem Leads.refl (s : σ) : Leads go body s s := ⟨0, fun fuel => by rw [Nat.zero_add]⟩

theorem Leads.trans {s t u : σ} (h : Leads go body s t) (h' : Leads go body t u) :
    Leads go body s u := by
  obtain ⟨count, hs⟩ := h
  obtain ⟨count', ht⟩ := h'
  refine ⟨count + count', fun fuel => ?_⟩
  rw [Nat.add_assoc, hs, ht]

theorem Leads.step {s : σ} (h : go s = true) : Leads go body s (body s) :=
  ⟨1, fun fuel => by rw [Nat.add_comm, loop_succ, if_pos h]⟩

theorem Leads.ends {s t u : σ} (h : Leads go body s t) (h' : Ends go body t u) : Ends go body s u := by
  obtain ⟨count, hs⟩ := h
  obtain ⟨fuel, ht⟩ := h'
  exact ⟨count + fuel, (hs fuel).trans ht⟩

theorem ends_self {s : σ} (h : go s = false) : Ends go body s s :=
  ⟨1, by rw [loop_succ, h]; rfl⟩

/-- More fuel does not change the result. -/
theorem loop_add {fuel : Nat} {s t : σ} (h : loop go body fuel s = some t) (more : Nat) :
    loop go body (fuel + more) s = some t := by
  induction fuel generalizing s with
  | zero => cases h
  | succ fuel ih =>
    rw [Nat.succ_add, loop_succ]
    rw [loop_succ] at h
    cases hgo : go s with
    | true =>
      rw [hgo] at h
      exact ih h
    | false =>
      rw [hgo] at h
      exact h

theorem Ends.unique {s t u : σ} (h : Ends go body s t) (h' : Ends go body s u) : t = u := by
  obtain ⟨fuel, ht⟩ := h
  obtain ⟨fuel', hu⟩ := h'
  have hadd := loop_add ht fuel'
  rw [Nat.add_comm, loop_add hu fuel] at hadd
  exact (Option.some.inj hadd).symm

/-- A loop whose test is kept true does not end. -/
theorem not_ends (inv : σ → Prop) (hgo : ∀ s, inv s → go s = true) (hbody : ∀ s, inv s → inv (body s))
    {s : σ} (hs : inv s) (t : σ) : ¬ Ends go body s t := by
  rintro ⟨fuel, h⟩
  induction fuel generalizing s with
  | zero => cases h
  | succ fuel ih =>
    rw [loop_succ, if_pos (hgo s hs)] at h
    exact ih (hbody s hs) h

end SnesRecomp.Loops
