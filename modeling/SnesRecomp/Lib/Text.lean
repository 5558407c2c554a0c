import Mathlib.Data.List.Basic
import Mathlib.Tactic.Cases

/-!
# Function text with early returns

The text of a host function as a generator prints it, line by line: straight-line actions,
returns, jumps to labels and conditionals.  `onLine` marks a piece that continues a line
begun by other text, so that a pass over the lines does not see where it starts;
`Text.inject` is such a pass.  `acts` and `rets` list what is written, reached or not.

`Ends` describes the control paths through a text by the weight of the actions on them
and by how they end; conditions are free.  `run` is an execution, with meanings for the
actions and conditions, `Arrives` says what it comes to, and `Ensures` what holds where it
returns.  A `TextFn` is a list of labelled texts, one behind the other, and
`Leaves` and `Runs` are its paths and executions up to a return.
-/

namespace SnesRecomp

variable {α γ ρ κ σ : Type*}

inductive Text (α γ ρ κ : Type*)
  | skip
  | act (a : α)
  | ret (r : ρ)
  | goto (k : κ)
  | seq (t u : Text α γ ρ κ)
  | ite (c : γ) (t u : Text α γ ρ κ)
  | onLine (t : Text α γ ρ κ)
  deriving DecidableEq, Repr

/-- How control leaves a text. -/
inductive Ending (ρ κ : Type*)
  | next
  | jump (k : κ)
  | leave (r : ρ)
  deriving DecidableEq, Repr

namespace Text

/-- One text behind the other. -/
def seqs : List (Text α γ ρ κ) → Text α γ ρ κ
  | [] => skip
  | t :: ts => seq t (seqs ts)

/-- `a` in front of every return at the start of a line. -/
def inject (a : α) : Text α γ ρ κ → Text α γ ρ κ
  | ret r => seq (act a) (ret r)
  | seq t u => seq (inject a t) (inject a u)
  | ite c t u => ite c (inject a t) (inject a u)
  | skip => skip
  | act b => act b
  | goto k => goto k
  | onLine t => onLine t

/-- The actions of a text, in the order of its lines. -/
def acts : Text α γ ρ κ → List α
  | act a => [a]
  | seq t u => t.acts ++ u.acts
  | ite _ t u => t.acts ++ u.acts
  | onLine t => t.acts
  | _ => []

/-- The returns of a text. -/
def rets : Text α γ ρ κ → List ρ
  | ret r => [r]
  | seq t u => t.rets ++ u.rets
  | ite _ t u => t.rets ++ u.rets
  | onLine t => t.rets
  | _ => []

/-- A path through the text whose actions weigh `n` together ends with `e`. -/
def Ends (weight : α → Nat) : Text α γ ρ κ → Nat → Ending ρ κ → Prop
  | skip, n, e => n = 0 ∧ e = .next
  | act a, n, e => n = weight a ∧ e = .next
  | ret r, n, e => n = 0 ∧ e = .leave r
  | goto k, n, e => n = 0 ∧ e = .jump k
  | seq t u, n, e =>
    (t.Ends weight n e ∧ e ≠ .next) ∨
      ∃ i j, n = i + j ∧ t.Ends weight i .next ∧ u.Ends weight j e
  | ite _ t u, n, e => t.Ends weight n e ∨ u.Ends weight n e
  | onLine t, n, e => t.Ends weight n e

/-- The execution of a text. -/
def run (action : α → σ → σ) (test : γ → σ → Bool) : Text α γ ρ κ → σ → Ending ρ κ × σ
  | skip, s => (.next, s)
  | act a, s => (.next, action a s)
  | ret r, s => (.leave r, s)
  | goto k, s => (.jump k, s)
  | seq t u, s =>
    match t.run action test s with
    | (.next, s) => u.run action test s
    | (.jump k, s) => (.jump k, s)
    | (.leave r, s) => (.leave r, s)
  | ite c t u, s => if test c s then t.run action test s else u.run action test s
  | onLine t, s => t.run action test s

section Acts

@[simp] theorem acts_skip : (skip : Text α γ ρ κ).acts = [] := rfl

@[simp] theorem acts_act (a : α) : (act a : Text α γ ρ κ).acts = [a] := rfl

@[simp] theorem acts_ret (r : ρ) : (ret r : Text α γ ρ κ).acts = [] := rfl

@[simp] theorem acts_goto (k : κ) : (goto k : Text α γ ρ κ).acts = [] := rfl

@[simp] theorem acts_seq (t u : Text α γ ρ κ) : (seq t u).acts = t.acts ++ u.acts := rfl

@[simp] theorem acts_ite (c : γ) (t u : Text α γ ρ κ) :
    (ite c t u).acts = t.acts ++ u.acts := rfl

@[simp] theorem acts_onLine (t : Text α γ ρ κ) : (onLine t).acts = t.acts := rfl

@[simp] theorem acts_seqs (ts : List (Text α γ ρ κ)) : (seqs ts).acts = ts.flatMap acts := by
  induction ts with
  | nil => rfl
  | cons t ts ih => rw [seqs, acts_seq, ih, List.flatMap_cons]

theorem mem_acts_inject {a b : α} : ∀ {t : Text α γ ρ κ},
    b ∈ (t.inject a).acts → b = a ∨ b ∈ t.acts := by
  intro t
  induction t with
  | ret r => intro h; exact Or.inl (by simpa [inject] using h)
  | seq t u iht ihu =>
    intro h
    rw [inject, acts_seq] at h
    rw [acts_seq, List.mem_append]
    rcases List.mem_append.mp h with h | h
    · exact (iht h).imp_right Or.inl
    · exact (ihu h).imp_right Or.inr
  | ite c t u iht ihu =>
    intro h
    rw [inject, acts_ite] at h
    rw [acts_ite, List.mem_append]
    rcases List.mem_append.mp h with h | h
    · exact (iht h).imp_right Or.inl
    · exact (ihu h).imp_right Or.inr
  | _ => intro h; exact Or.inr h

end Acts

section MapActs

variable {β : Type*}

/-- The text with other actions in the same places. -/
@[simp] def mapActs (f : α → β) : Text α γ ρ κ → Text β γ ρ κ
  | skip => skip
  | act a => act (f a)
  | ret r => ret r
  | goto k => goto k
  | seq t u => seq (mapActs f t) (mapActs f u)
  | ite c t u => ite c (mapActs f t) (mapActs f u)
  | onLine t => onLine (mapActs f t)

theorem acts_mapActs (f : α → β) (t : Text α γ ρ κ) : (t.mapActs f).acts = t.acts.map f := by
  induction t with
  | seq t u iht ihu => rw [mapActs, acts_seq, acts_seq, iht, ihu, List.map_append]
  | ite c t u iht ihu => rw [mapActs, acts_ite, acts_ite, iht, ihu, List.map_append]
  | onLine t ih => rw [mapActs, acts_onLine, acts_onLine, ih]
  | _ => rfl

theorem mapActs_inject (f : α → β) (a : α) (t : Text α γ ρ κ) :
    (t.inject a).mapActs f = (t.mapActs f).inject (f a) := by
  induction t with
  | seq t u iht ihu => simp only [inject, mapActs, iht, ihu]
  | ite c t u iht ihu => simp only [inject, mapActs, iht, ihu]
  | _ => rfl

theorem mapActs_mapActs {δ : Type*} (f : α → β) (g : β → δ) (t : Text α γ ρ κ) :
    (t.mapActs f).mapActs g = t.mapActs (g ∘ f) := by
  induction t with
  | seq t u iht ihu => simp only [mapActs, iht, ihu]
  | ite c t u iht ihu => simp only [mapActs, iht, ihu]
  | onLine t ih => simp only [mapActs, ih]
  | _ => rfl

theorem mapActs_id (t : Text α γ ρ κ) : t.mapActs id = t := by
  induction t with
  | seq t u iht ihu => simp only [mapActs, iht, ihu]
  | ite c t u iht ihu => simp only [mapActs, iht, ihu]
  | onLine t ih => simp only [mapActs, ih]
  | _ => rfl

end MapActs

theorem run_act_seq (action : α → σ → σ) (test : γ → σ → Bool) (a : α) (t : Text α γ ρ κ) (s : σ) :
    (seq (act a) t).run action test s = t.run action test (action a s) := rfl

theorem run_seq (action : α → σ → σ) (test : γ → σ → Bool) (t u : Text α γ ρ κ) (s : σ) :
    (seq t u).run action test s = match t.run action test s with
      | (.next, s') => u.run action test s'
      | (.jump k, s') => (.jump k, s')
      | (.leave r, s') => (.leave r, s') := rfl

theorem run_ite (action : α → σ → σ) (test : γ → σ → Bool) (c : γ) (t u : Text α γ ρ κ) (s : σ) :
    (ite c t u).run action test s =
      if test c s then t.run action test s else u.run action test s := rfl

/-- What holds behind one text is what the next one starts from, or what the run ends with. -/
theorem run_seq_preserves {action : α → σ → σ} {test : γ → σ → Bool} {P Q : σ → Prop}
    {t u : Text α γ ρ κ} {s : σ} (ht : Q (t.run action test s).2) (hend : ∀ s, Q s → P s)
    (hu : ∀ s, Q s → P (u.run action test s).2) : P ((seq t u).run action test s).2 := by
  rw [run_seq]
  split
  next s' heq => rw [heq] at ht; exact hu s' ht
  next heq => rw [heq] at ht; exact hend _ ht
  next heq => rw [heq] at ht; exact hend _ ht

/-- What every action of a text preserves, its execution preserves. -/
theorem run_preserves {action : α → σ → σ} {test : γ → σ → Bool} {P : σ → Prop} :
    ∀ {t : Text α γ ρ κ}, (∀ a ∈ t.acts, ∀ s, P s → P (action a s)) →
      ∀ {s : σ}, P s → P (t.run action test s).2 := by
  intro t
  induction t with
  | skip => intro _ s hs; exact hs
  | act a => intro h s hs; exact h a (List.mem_singleton.mpr rfl) s hs
  | ret r => intro _ s hs; exact hs
  | goto k => intro _ s hs; exact hs
  | seq t u iht ihu =>
    intro h s hs
    rw [acts_seq] at h
    exact run_seq_preserves (iht (fun a ha => h a (List.mem_append_left _ ha)) hs) (fun _ hs' => hs')
      fun s' hs' => ihu (fun a ha => h a (List.mem_append_right _ ha)) hs'
  | ite c t u iht ihu =>
    intro h s hs
    rw [acts_ite] at h
    rw [run_ite]
    split
    · exact iht (fun a ha => h a (List.mem_append_left _ ha)) hs
    · exact ihu (fun a ha => h a (List.mem_append_right _ ha)) hs
  | onLine t ih => intro h s hs; exact ih h hs

/-! ### Where an execution comes to -/

/-- The execution of the text comes to the action `b`, in the state `u`. -/
def Arrives (action : α → σ → σ) (test : γ → σ → Bool) : Text α γ ρ κ → σ → α → σ → Prop
  | act a, s, b, u => b = a ∧ u = s
  | seq t r, s, b, u =>
    t.Arrives action test s b u ∨
      ((t.run action test s).1 = .next ∧ r.Arrives action test (t.run action test s).2 b u)
  | ite c t r, s, b, u => if test c s then t.Arrives action test s b u else r.Arrives action test s b u
  | onLine t, s, b, u => t.Arrives action test s b u
  | _, _, _, _ => False

section Arrives

variable {action : α → σ → σ} {test : γ → σ → Bool} {b : α} {s u : σ}

/-- What is not written is not come to. -/
theorem mem_acts_of_arrives {t : Text α γ ρ κ} (h : t.Arrives action test s b u) : b ∈ t.acts := by
  induction t generalizing s with
  | act a => exact List.mem_singleton.mpr h.1
  | seq t r iht ihr => exact List.mem_append.mpr (h.imp (iht ·) fun h => ihr h.2)
  | ite c t r iht ihr =>
    rw [Arrives] at h
    rw [acts_ite, List.mem_append]
    split at h
    · exact Or.inl (iht h)
    · exact Or.inr (ihr h)
  | onLine t ih => exact ih h
  | _ => exact h.elim

/-- Another action goes on with what is behind it. -/
theorem arrives_act_seq {a : α} (h : b ≠ a) (t : Text α γ ρ κ) :
    (seq (act a) t).Arrives action test s b u ↔ t.Arrives action test (action a s) b u :=
  ⟨fun hs => hs.elim (fun ha => absurd ha.1 h) And.right, fun ht => Or.inr ⟨rfl, ht⟩⟩

theorem arrives_skip_seq (t : Text α γ ρ κ) :
    (seq skip t).Arrives action test s b u ↔ t.Arrives action test s b u :=
  ⟨fun hs => hs.elim False.elim And.right, fun ht => Or.inr ⟨rfl, ht⟩⟩

/-- A text without the action behind it does not matter. -/
theorem arrives_seq_left {t r : Text α γ ρ κ} (h : b ∉ r.acts) :
    (seq t r).Arrives action test s b u ↔ t.Arrives action test s b u :=
  ⟨fun hs => hs.resolve_right fun hr => h (mem_acts_of_arrives hr.2), Or.inl⟩

end Arrives

section Ends

variable (weight : α → Nat)

@[simp] theorem ends_skip (n : Nat) (e : Ending ρ κ) :
    (skip : Text α γ ρ κ).Ends weight n e ↔ n = 0 ∧ e = .next := Iff.rfl

@[simp] theorem ends_act (a : α) (n : Nat) (e : Ending ρ κ) :
    (act a : Text α γ ρ κ).Ends weight n e ↔ n = weight a ∧ e = .next := Iff.rfl

@[simp] theorem ends_ret (r : ρ) (n : Nat) (e : Ending ρ κ) :
    (ret r : Text α γ ρ κ).Ends weight n e ↔ n = 0 ∧ e = .leave r := Iff.rfl

@[simp] theorem ends_goto (k : κ) (n : Nat) (e : Ending ρ κ) :
    (goto k : Text α γ ρ κ).Ends weight n e ↔ n = 0 ∧ e = .jump k := Iff.rfl

@[simp] theorem ends_ite (c : γ) (t u : Text α γ ρ κ) (n : Nat) (e : Ending ρ κ) :
    (ite c t u).Ends weight n e ↔ t.Ends weight n e ∨ u.Ends weight n e := Iff.rfl

@[simp] theorem ends_onLine (t : Text α γ ρ κ) (n : Nat) (e : Ending ρ κ) :
    (onLine t).Ends weight n e ↔ t.Ends weight n e := Iff.rfl

theorem ends_seq (t u : Text α γ ρ κ) (n : Nat) (e : Ending ρ κ) :
    (seq t u).Ends weight n e ↔ (t.Ends weight n e ∧ e ≠ .next) ∨
      ∃ i j, n = i + j ∧ t.Ends weight i .next ∧ u.Ends weight j e := Iff.rfl

variable {weight}

/-- A text that never falls through hides what follows it. -/
theorem ends_seq_of_stops {t : Text α γ ρ κ} (ht : ∀ n, ¬ t.Ends weight n .next)
    (u : Text α γ ρ κ) (n : Nat) (e : Ending ρ κ) :
    (seq t u).Ends weight n e ↔ t.Ends weight n e := by
  rw [ends_seq]
  constructor
  · rintro (⟨h, _⟩ | ⟨i, j, _, hi, _⟩)
    · exact h
    · exact absurd hi (ht i)
  · intro h
    refine Or.inl ⟨h, ?_⟩
    rintro rfl
    exact ht n h

end Ends

/-- An execution follows a path. -/
theorem ends_of_run (weight : α → Nat) (action : α → σ → σ) (test : γ → σ → Bool) :
    ∀ (t : Text α γ ρ κ) (s : σ), ∃ n, t.Ends weight n (t.run action test s).1 := by
  intro t
  induction t with
  | skip => intro s; exact ⟨0, rfl, rfl⟩
  | act a => intro s; exact ⟨weight a, rfl, rfl⟩
  | ret r => intro s; exact ⟨0, rfl, rfl⟩
  | goto k => intro s; exact ⟨0, rfl, rfl⟩
  | seq t u iht ihu =>
    intro s
    obtain ⟨i, hi⟩ := iht s
    rw [run_seq]
    cases hrun : t.run action test s with
    | mk e s' =>
      rw [hrun] at hi
      cases e with
      | next =>
        obtain ⟨j, hj⟩ := ihu s'
        exact ⟨i + j, Or.inr ⟨i, j, rfl, hi, hj⟩⟩
      | jump k => exact ⟨i, Or.inl ⟨hi, by simp⟩⟩
      | leave r => exact ⟨i, Or.inl ⟨hi, by simp⟩⟩
  | ite c t u iht ihu =>
    intro s
    rw [run_ite]
    by_cases hc : test c s = true
    · rw [if_pos hc]
      obtain ⟨i, hi⟩ := iht s
      exact ⟨i, Or.inl hi⟩
    · rw [if_neg hc]
      obtain ⟨i, hi⟩ := ihu s
      exact ⟨i, Or.inr hi⟩
  | onLine t ih => intro s; exact ih s

/-- The injected actions change neither the way an execution goes nor where it jumps to. -/
theorem run_inject (a : α) (action : α → σ → σ) (test : γ → σ → Bool) :
    ∀ (t : Text α γ ρ κ) (s : σ), ((t.inject a).run action test s).1 = (t.run action test s).1 ∧
      ((t.run action test s).1 = .next →
        ((t.inject a).run action test s).2 = (t.run action test s).2) := by
  intro t
  induction t with
  | ret r => intro s; exact ⟨rfl, fun h => by cases h⟩
  | seq t u iht ihu =>
    intro s
    obtain ⟨hend, hstate⟩ := iht s
    rw [inject, run_seq, run_seq]
    cases hrun : t.run action test s with
    | mk e s' =>
      cases hrun' : (t.inject a).run action test s with
      | mk e' s'' =>
        rw [hrun, hrun'] at hend hstate
        dsimp only at hend hstate
        subst hend
        cases e' with
        | next =>
          rw [hstate rfl]
          exact ihu s'
        | jump k => exact ⟨rfl, fun h => by cases h⟩
        | leave r => exact ⟨rfl, fun h => by cases h⟩
  | ite c t u iht ihu =>
    intro s
    rw [inject, run_ite, run_ite]
    by_cases hc : test c s = true
    · rw [if_pos hc, if_pos hc]
      exact iht s
    · rw [if_neg hc, if_neg hc]
      exact ihu s
  | _ => intro s; exact ⟨rfl, fun _ => rfl⟩

/-! ### What holds at a return -/

/-- The injected action preserves what the execution has established. -/
theorem run_inject_preserves {action : α → σ → σ} {test : γ → σ → Bool} {P : σ → Prop} {a : α}
    (ha : ∀ s, P s → P (action a s)) : ∀ {t : Text α γ ρ κ} {s : σ},
    P (t.run action test s).2 → P ((t.inject a).run action test s).2 := by
  intro t
  induction t with
  | ret r => intro s h; exact ha s h
  | seq t u iht ihu =>
    intro s h
    obtain ⟨hend, hnext⟩ := run_inject a action test t s
    rw [inject, run_seq]
    rw [run_seq] at h
    cases hrun : t.run action test s with
    | mk e s' =>
      have hi := @iht s
      rw [hrun] at h hend hnext hi
      cases hrun' : (t.inject a).run action test s with
      | mk e' s'' =>
        rw [hrun'] at hend hnext hi
        dsimp only at hend hnext
        subst hend
        cases e' with
        | next =>
          obtain rfl := hnext rfl
          exact ihu h
        | jump k => exact hi h
        | leave r => exact hi h
  | ite c t u iht ihu =>
    intro s h
    rw [inject, run_ite]
    rw [run_ite] at h
    split
    next hc => rw [if_pos hc] at h; exact iht h
    next hc => rw [if_neg hc] at h; exact ihu h
  | _ => intro s h; exact h


/-- Every execution of the text that returns does so in a state `post` allows. -/
def Ensures (action : α → σ → σ) (test : γ → σ → Bool) (post : ρ → σ → Prop)
    (t : Text α γ ρ κ) : Prop :=
  ∀ s r s', t.run action test s = (.leave r, s') → post r s'

section Ensures

variable {action : α → σ → σ} {test : γ → σ → Bool} {post : ρ → σ → Prop} {t u : Text α γ ρ κ}

theorem ensures_skip : (skip : Text α γ ρ κ).Ensures action test post := by
  intro s r s' h
  cases h

theorem ensures_act (a : α) : (act a : Text α γ ρ κ).Ensures action test post := by
  intro s r s' h
  cases h

theorem ensures_goto (k : κ) : (goto k : Text α γ ρ κ).Ensures action test post := by
  intro s r s' h
  cases h

theorem ensures_ret {r : ρ} (h : ∀ s, post r s) :
    (ret r : Text α γ ρ κ).Ensures action test post := by
  intro s r' s' hrun
  obtain ⟨hr, rfl⟩ := Prod.mk.inj hrun
  cases hr
  exact h s

theorem Ensures.seq (ht : t.Ensures action test post) (hu : u.Ensures action test post) :
    (seq t u).Ensures action test post := by
  intro s r s' h
  rw [run_seq] at h
  cases hrun : t.run action test s with
  | mk e s'' =>
    rw [hrun] at h
    cases e with
    | next => exact hu s'' r s' h
    | jump k => cases h
    | leave r' =>
      cases h
      exact ht s r s' hrun

theorem Ensures.ite (c : γ) (ht : t.Ensures action test post) (hu : u.Ensures action test post) :
    (ite c t u).Ensures action test post := by
  intro s r s' h
  rw [run_ite] at h
  split at h
  · exact ht s r s' h
  · exact hu s r s' h

theorem Ensures.onLine (ht : t.Ensures action test post) :
    (onLine t).Ensures action test post := ht

/-- An injected action may change the state, as long as the postcondition does not see it. -/
theorem Ensures.inject {a : α} (ha : ∀ r s, post r s → post r (action a s)) :
    ∀ {t : Text α γ ρ κ}, t.Ensures action test post → (t.inject a).Ensures action test post := by
  intro t
  suffices h : ∀ s r s', (t.inject a).run action test s = (.leave r, s') →
      ∃ s'', t.run action test s = (.leave r, s'') ∧ (s' = s'' ∨ s' = action a s'') by
    intro ht s r s' hrun
    obtain ⟨s'', hplain, rfl | rfl⟩ := h s r s' hrun
    · exact ht s r _ hplain
    · exact ha r s'' (ht s r s'' hplain)
  induction t with
  | ret r =>
    intro s r' s' h
    cases h
    exact ⟨s, rfl, Or.inr rfl⟩
  | seq t u iht ihu =>
    intro s r s' h
    have hsame := run_inject a action test t s
    rw [Text.inject, run_seq] at h
    rw [run_seq]
    cases hrun : (t.inject a).run action test s with
    | mk e s₁ =>
      cases hrun' : t.run action test s with
      | mk e' s₂ =>
        rw [hrun, hrun'] at hsame
        rw [hrun] at h
        obtain ⟨rfl, hnext⟩ := hsame
        cases e with
        | next =>
          obtain rfl : s₁ = s₂ := hnext rfl
          exact ihu s₁ r s' h
        | jump k => cases h
        | leave r' =>
          cases h
          obtain ⟨s'', hleave, hs⟩ := iht s r s' hrun
          rw [hrun'] at hleave
          obtain ⟨_, rfl⟩ := Prod.mk.inj hleave
          exact ⟨s₂, rfl, hs⟩
  | ite c t u iht ihu =>
    intro s r s' h
    rw [Text.inject, run_ite] at h
    rw [run_ite]
    split at h
    next hc =>
      rw [if_pos hc]
      exact iht s r s' h
    next hc =>
      rw [if_neg hc]
      exact ihu s r s' h
  | skip => intro s r s' h; cases h
  | act b => intro s r s' h; cases h
  | goto k => intro s r s' h; cases h
  | onLine t => intro s r s' h; exact ⟨s', h, Or.inl rfl⟩

end Ensures

end Text

/-! ### Functions -/

/-- Labelled texts, one behind the other, and the text behind the last of them. -/
structure TextFn (α γ ρ κ : Type*) where
  blocks : List (κ × Text α γ ρ κ)
  epilogue : Text α γ ρ κ

namespace TextFn

/-- The text of some blocks to the end of the function. -/
def textFrom (epilogue : Text α γ ρ κ) : List (κ × Text α γ ρ κ) → Text α γ ρ κ
  | [] => epilogue
  | b :: bs => .seq b.2 (textFrom epilogue bs)

/-- Where no block falls through, a path stays in a block until it jumps or leaves. -/
theorem ends_textFrom {weight : α → Nat} {b : κ × Text α γ ρ κ}
    (hb : ∀ n, ¬ b.2.Ends weight n .next) (epilogue : Text α γ ρ κ)
    (bs : List (κ × Text α γ ρ κ)) (n : Nat) (e : Ending ρ κ) :
    (textFrom epilogue (b :: bs)).Ends weight n e ↔ b.2.Ends weight n e :=
  Text.ends_seq_of_stops hb _ n e

theorem ensures_textFrom {action : α → σ → σ} {test : γ → σ → Bool} {post : ρ → σ → Prop}
    {epilogue : Text α γ ρ κ} (hepi : epilogue.Ensures action test post) :
    ∀ {bs : List (κ × Text α γ ρ κ)}, (∀ b ∈ bs, b.2.Ensures action test post) →
      (textFrom epilogue bs).Ensures action test post := by
  intro bs
  induction bs with
  | nil => intro _; exact hepi
  | cons b bs ih =>
    intro h
    exact (h b List.mem_cons_self).seq (ih fun c hc => h c (List.mem_cons_of_mem b hc))

/-- All actions of a function. -/
def acts (F : TextFn α γ ρ κ) : List α := F.blocks.flatMap (·.2.acts) ++ F.epilogue.acts

/-- All returns of a function. -/
def rets (F : TextFn α γ ρ κ) : List ρ := F.blocks.flatMap (·.2.rets) ++ F.epilogue.rets

variable [DecidableEq κ]

/-- The blocks from a label on. -/
def fromLabel (k : κ) : List (κ × Text α γ ρ κ) → Option (List (κ × Text α γ ρ κ))
  | [] => none
  | b :: bs => if b.1 = k then some (b :: bs) else fromLabel k bs

variable (F : TextFn α γ ρ κ)

def start : Text α γ ρ κ := textFrom F.epilogue F.blocks

/-- The text a jump to `k` goes on with. -/
def textAt (k : κ) : Option (Text α γ ρ κ) := (fromLabel k F.blocks).map (textFrom F.epilogue)

def blockAt (k : κ) : Option (κ × Text α γ ρ κ) := F.blocks.find? (·.1 = k)

variable (weight : α → Nat)

/-- A path from a position of the function to one of its returns. -/
inductive Leaves : Text α γ ρ κ → Nat → ρ → Prop
  | ret {t n r} : t.Ends weight n (.leave r) → Leaves t n r
  | jump {t u i j k r} : t.Ends weight i (.jump k) → F.textAt k = some u → Leaves u j r →
      Leaves t (i + j) r

/-- An execution from a position of the function to one of its returns. -/
inductive Runs (action : α → σ → σ) (test : γ → σ → Bool) : Text α γ ρ κ → σ → ρ → σ → Prop
  | ret {t s r s'} : t.run action test s = (.leave r, s') → Runs action test t s r s'
  | jump {t u s k r s' s''} : t.run action test s = (.jump k, s') → F.textAt k = some u →
      Runs action test u s' r s'' → Runs action test t s r s''

/-- An execution has jumped to a position of the function. -/
inductive Reaches (action : α → σ → σ) (test : γ → σ → Bool) (s₀ : σ) : Text α γ ρ κ → σ → Prop
  | start : Reaches action test s₀ F.start s₀
  | jump {t u s k s'} : Reaches action test s₀ t s → t.run action test s = (.jump k, s') →
      F.textAt k = some u → Reaches action test s₀ u s'

/-- The blocks a path from the start comes through. -/
inductive Reached : κ × Text α γ ρ κ → Prop
  | first {b} : F.blocks.head? = some b → Reached b
  | jump {b c n k} : Reached b → b.2.Ends weight n (.jump k) → F.blockAt k = some c → Reached c

variable {F weight}

theorem mem_of_fromLabel {k : κ} : ∀ {bs cs : List (κ × Text α γ ρ κ)},
    fromLabel k bs = some cs → ∀ c ∈ cs, c ∈ bs := by
  intro bs
  induction bs with
  | nil => intro cs h; cases h
  | cons b bs ih =>
    intro cs h c hc
    rw [fromLabel] at h
    split at h
    · obtain rfl := Option.some.inj h
      exact hc
    · exact List.mem_cons_of_mem b (ih h c hc)

/-- What all texts of a function ensure holds at the return of every execution. -/
theorem ensures_of_runs {action : α → σ → σ} {test : γ → σ → Bool} {post : ρ → σ → Prop}
    (hblocks : ∀ b ∈ F.blocks, b.2.Ensures action test post)
    (hepi : F.epilogue.Ensures action test post) {t : Text α γ ρ κ} {s s' : σ} {r : ρ}
    (h : F.Runs action test t s r s') (ht : t.Ensures action test post) : post r s' := by
  induction h with
  | ret hrun => exact ht _ _ _ hrun
  | jump _ hat _ ih =>
    obtain ⟨cs, hcs, rfl⟩ := Option.map_eq_some_iff.mp hat
    exact ih (ensures_textFrom hepi fun c hc => hblocks c (mem_of_fromLabel hcs c hc))

theorem fromLabel_eq_cons {k : κ} : ∀ {bs : List (κ × Text α γ ρ κ)} {cs},
    fromLabel k bs = some cs → ∃ c cs', cs = c :: cs' ∧ bs.find? (·.1 = k) = some c ∧ c ∈ bs := by
  intro bs
  induction bs with
  | nil => intro cs h; cases h
  | cons b bs ih =>
    intro cs h
    rw [fromLabel] at h
    by_cases hb : b.1 = k
    · rw [if_pos hb] at h
      obtain rfl := Option.some.inj h
      exact ⟨b, bs, rfl, List.find?_cons_of_pos (by simpa using hb), List.mem_cons_self⟩
    · rw [if_neg hb] at h
      obtain ⟨c, cs', rfl, hfind, hmem⟩ := ih h
      exact ⟨c, cs', rfl, by rw [List.find?_cons_of_neg (by simpa using hb)]; exact hfind,
        List.mem_cons_of_mem b hmem⟩

theorem fromLabel_of_find {k : κ} {c : κ × Text α γ ρ κ} : ∀ {bs : List (κ × Text α γ ρ κ)},
    bs.find? (·.1 = k) = some c → ∃ cs, fromLabel k bs = some (c :: cs) := by
  intro bs
  induction bs with
  | nil => intro h; cases h
  | cons b bs ih =>
    intro h
    rw [fromLabel]
    by_cases hb : b.1 = k
    · rw [List.find?_cons_of_pos (by simpa using hb)] at h
      obtain rfl := Option.some.inj h
      exact ⟨bs, if_pos hb⟩
    · rw [List.find?_cons_of_neg (by simpa using hb)] at h
      rw [if_neg hb]
      exact ih h

section Uniform

variable {w : Nat} (hnext : ∀ b ∈ F.blocks, ∀ n, ¬ b.2.Ends weight n .next)
  (hjump : ∀ b ∈ F.blocks, ∀ n k, b.2.Ends weight n (.jump k) → n = 0)

include hnext hjump

/-- Behind a reached block every path weighs what its last block does. -/
theorem weight_of_leaves (hreached : ∀ b, F.Reached weight b →
    ∀ n r, b.2.Ends weight n (.leave r) → n = w) {t : Text α γ ρ κ} {n : Nat} {r : ρ}
    (h : F.Leaves weight t n r) :
    ∀ b bs, t = textFrom F.epilogue (b :: bs) → b ∈ F.blocks → F.Reached weight b → n = w := by
  induction h with
  | ret hends =>
    rintro b bs rfl hmem hb
    exact hreached b hb _ _ ((ends_textFrom (hnext b hmem) F.epilogue bs _ _).mp hends)
  | @jump t u i j k r hends hat _ ih =>
    rintro b bs rfl hmem hb
    have hi := (ends_textFrom (hnext b hmem) F.epilogue bs _ _).mp hends
    obtain ⟨cs, hcs, rfl⟩ := Option.map_eq_some_iff.mp hat
    obtain ⟨c, cs', rfl, hfind, hcmem⟩ := fromLabel_eq_cons hcs
    have hj := ih c cs' rfl hcmem (.jump hb hi hfind)
    have hzero := hjump b hmem i k hi
    omega

/-- A path from a reached block is the end of a path from the start. -/
theorem leaves_of_reached {b : κ × Text α γ ρ κ} (h : F.Reached weight b) :
    b ∈ F.blocks ∧ ∀ n r, b.2.Ends weight n (.leave r) → F.Leaves weight F.start n r := by
  suffices hstart : b ∈ F.blocks ∧ ∃ bs, ∀ n r,
      F.Leaves weight (textFrom F.epilogue (b :: bs)) n r → F.Leaves weight F.start n r by
    obtain ⟨hmem, bs, hbs⟩ := hstart
    exact ⟨hmem, fun n r hends => hbs n r (.ret ((ends_textFrom (hnext b hmem) F.epilogue bs _ _).mpr hends))⟩
  induction h with
  | @first b hfirst =>
    obtain ⟨bs, hbs⟩ : ∃ bs, F.blocks = b :: bs := by
      cases hblocks : F.blocks with
      | nil => rw [hblocks] at hfirst; cases hfirst
      | cons c cs => rw [hblocks] at hfirst; exact ⟨cs, by rw [Option.some.inj hfirst]⟩
    refine ⟨by rw [hbs]; exact List.mem_cons_self, bs, fun n r h => ?_⟩
    unfold start
    rw [hbs]
    exact h
  | @jump b c i k _ hends hat ih =>
    obtain ⟨hmem, bs, hbs⟩ := ih
    obtain ⟨cs, hcs⟩ := fromLabel_of_find hat
    refine ⟨List.mem_of_find?_eq_some hat, cs, fun n r h => hbs n r ?_⟩
    have hzero := hjump b hmem i k hends
    subst hzero
    have hpath := Leaves.jump
      ((ends_textFrom (hnext b hmem) F.epilogue bs _ _).mpr hends)
      (by unfold textAt; rw [hcs]; rfl) h
    rwa [Nat.zero_add] at hpath

/-- **Every path to a return has weight `w` exactly when those of the reached blocks have.** -/
theorem leaves_weight_iff
    (hepi : ∀ n e, F.epilogue.Ends weight n e → n = w ∧ ∃ r, e = .leave r) :
    (∀ n r, F.Leaves weight F.start n r → n = w) ↔
      ∀ b, F.Reached weight b → ∀ n r, b.2.Ends weight n (.leave r) → n = w := by
  constructor
  · intro h b hb n r hends
    exact h n r ((leaves_of_reached hnext hjump hb).2 n r hends)
  · intro h n r hleaves
    cases hblocks : F.blocks with
    | nil =>
      have hstart : F.start = F.epilogue := by unfold start; rw [hblocks]; rfl
      rw [hstart] at hleaves
      cases hleaves with
      | ret hends => exact (hepi _ _ hends).1
      | jump hends _ _ => exact absurd (hepi _ _ hends).2 (by simp)
    | cons b bs =>
      have hstart : F.start = textFrom F.epilogue (b :: bs) := by unfold start; rw [hblocks]
      exact weight_of_leaves hnext hjump h hleaves b bs hstart (by rw [hblocks]; exact List.mem_cons_self)
        (.first (by rw [hblocks]; rfl))

end Uniform

end TextFn

end SnesRecomp
