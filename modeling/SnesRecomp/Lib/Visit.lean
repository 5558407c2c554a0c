import Mathlib.Data.List.Basic
import Mathlib.Data.List.Nodup
import Mathlib.Data.List.Perm.Subperm
import Mathlib.Tactic.Cases

/-!
# Depth-first visits

`out k` is the list of successors of `k`, if `k` is a node.  `visit` comes to the nodes
that can be reached from the nodes on its stack, each once and in preorder; a unit of
`room` is spent on each.  With room for all nodes it comes to all of them:
`mem_visit_iff`.
-/

namespace SnesRecomp.Visit

variable {κ : Type*}

/-- The nodes that can be reached from `root`, over edges between nodes. -/
inductive Reach (out : κ → Option (List κ)) (root : κ) : κ → Prop
  | root : (out root).isSome → Reach out root root
  | step {k s ss} : Reach out root k → out k = some ss → s ∈ ss → (out s).isSome → Reach out root s

theorem Reach.root_isSome {out : κ → Option (List κ)} {root k : κ} (h : Reach out root k) :
    (out root).isSome := by
  induction h with
  | root h => exact h
  | step _ _ _ _ ih => exact ih

/-- What a visit has come to, and what it still has to look at. -/
structure Visiting (out : κ → Option (List κ)) (root : κ) (stack seen : List κ) : Prop where
  reached : ∀ k ∈ seen, Reach out root k
  waiting : ∀ k ∈ stack, (out k).isSome → Reach out root k
  closed : ∀ k ∈ seen, ∀ ss, out k = some ss → ∀ s ∈ ss, (out s).isSome → s ∈ seen ∨ s ∈ stack
  root : root ∈ seen ∨ root ∈ stack
  nodup : seen.Nodup

/-- When no node waits, everything that can be reached has been seen. -/
theorem Visiting.complete {out : κ → Option (List κ)} {root : κ} {stack seen : List κ}
    (h : Visiting out root stack seen)
    (hdone : ∀ k ∈ stack, (out k).isSome → k ∈ seen) (k : κ) :
    k ∈ seen ↔ Reach out root k := by
  refine ⟨h.reached k, fun hk => ?_⟩
  induction hk with
  | root hroot => exact h.root.elim id fun hstack => hdone root hstack hroot
  | @step k s ss _ hss hs hsome ih =>
    exact (h.closed k ih ss hss s hs hsome).elim id fun hstack => hdone s hstack hsome

variable [DecidableEq κ] (out : κ → Option (List κ))

def visit : Nat → List κ → List κ → List κ
  | 0, _, seen => seen
  | room + 1, stack, seen =>
    match stack.dropWhile fun k => decide (k ∈ seen) || (out k).isNone with
    | [] => seen
    | k :: rest => visit room ((out k).getD [] ++ rest) (seen ++ [k])

/-- What is passed over on the stack is no node or has been seen. -/
theorem passed (seen : List κ) {stack : List κ} {k : κ} (h : k ∈ stack) :
    k ∈ seen ∨ (out k).isNone ∨
      k ∈ stack.dropWhile fun k => decide (k ∈ seen) || (out k).isNone := by
  induction stack with
  | nil => cases h
  | cons c stack ih =>
    rw [List.dropWhile_cons]
    by_cases hc : (decide (c ∈ seen) || (out c).isNone) = true
    · rw [if_pos hc]
      rcases List.mem_cons.mp h with rfl | h
      · rcases Bool.or_eq_true _ _ ▸ hc with hseen | hnone
        · exact Or.inl (of_decide_eq_true hseen)
        · exact Or.inr (Or.inl hnone)
      · exact ih h
    · rw [if_neg hc]
      exact Or.inr (Or.inr h)

variable {out}

theorem head_dropWhile {stack seen : List κ} {k : κ} {rest : List κ}
    (h : stack.dropWhile (fun k => decide (k ∈ seen) || (out k).isNone) = k :: rest) :
    k ∉ seen ∧ (out k).isSome ∧ k ∈ stack ∧ ∀ s ∈ rest, s ∈ stack := by
  induction stack with
  | nil => cases h
  | cons c stack ih =>
    rw [List.dropWhile_cons] at h
    by_cases hc : (decide (c ∈ seen) || (out c).isNone) = true
    · rw [if_pos hc] at h
      obtain ⟨hk, hnode, hmem, hrest⟩ := ih h
      exact ⟨hk, hnode, List.mem_cons_of_mem c hmem, fun s hs => List.mem_cons_of_mem c (hrest s hs)⟩
    · rw [if_neg hc] at h
      obtain ⟨rfl, rfl⟩ := List.cons.inj h
      rw [Bool.or_eq_true, not_or] at hc
      refine ⟨fun hseen => hc.1 (decide_eq_true hseen), ?_, List.mem_cons_self,
        fun s hs => List.mem_cons_of_mem c hs⟩
      cases hout : out c with
      | none => rw [hout] at hc; exact absurd rfl hc.2
      | some ss => rfl

/-- One node more. -/
theorem Visiting.step {root k : κ} {stack seen rest : List κ}
    (h : Visiting out root stack seen)
    (hdrop : stack.dropWhile (fun k => decide (k ∈ seen) || (out k).isNone) = k :: rest) :
    Visiting out root ((out k).getD [] ++ rest) (seen ++ [k]) := by
  obtain ⟨hk, hnode, hmem, hrest⟩ := head_dropWhile hdrop
  have hreach := h.waiting k hmem hnode
  obtain ⟨ss, hss⟩ := Option.isSome_iff_exists.mp hnode
  have hmove : ∀ s, (out s).isSome → s ∈ seen ∨ s ∈ stack →
      s ∈ seen ++ [k] ∨ s ∈ (out k).getD [] ++ rest := by
    intro s hs hor
    rcases hor with hseen | hstack
    · exact Or.inl (List.mem_append_left _ hseen)
    · rcases passed out seen hstack with hseen | hnone | hdropped
      · exact Or.inl (List.mem_append_left _ hseen)
      · rw [Option.isNone_iff_eq_none] at hnone
        rw [hnone] at hs
        cases hs
      · rw [hdrop] at hdropped
        rcases List.mem_cons.mp hdropped with rfl | hrest
        · exact Or.inl (List.mem_append_right _ (List.mem_singleton_self s))
        · exact Or.inr (List.mem_append_right _ hrest)
  constructor
  · intro s hs
    rcases List.mem_append.mp hs with hs | hs
    · exact h.reached s hs
    · rw [List.mem_singleton.mp hs]
      exact hreach
  · intro s hs hsome
    rw [hss, Option.getD_some] at hs
    rcases List.mem_append.mp hs with hs | hs
    · exact .step hreach hss hs hsome
    · exact h.waiting s (hrest s hs) hsome
  · intro c hc cs hcs s hs hsome
    rcases List.mem_append.mp hc with hc | hc
    · exact hmove s hsome (h.closed c hc cs hcs s hs hsome)
    · rw [List.mem_singleton.mp hc, hss] at hcs
      obtain rfl := Option.some.inj hcs
      rw [hss, Option.getD_some]
      exact Or.inr (List.mem_append_left _ hs)
  · exact hmove root hreach.root_isSome h.root
  · refine List.Nodup.append h.nodup (List.nodup_singleton k) ?_
    rw [List.disjoint_singleton]
    exact hk

theorem mem_visit_of_visiting {root : κ} {nodes : List κ} (hnodes : ∀ k, (out k).isSome → k ∈ nodes) :
    ∀ (room : Nat) (stack seen : List κ), Visiting out root stack seen →
      seen ⊆ nodes → nodes.length ≤ room + seen.length →
      ∀ k, k ∈ visit out room stack seen ↔ Reach out root k := by
  intro room
  induction room with
  | zero =>
    intro stack seen h hsub hroom
    refine h.complete fun k _ hk => ?_
    have hperm := (h.nodup.subperm hsub).perm_of_length_le (by omega)
    exact hperm.mem_iff.mpr (hnodes k hk)
  | succ room ih =>
    intro stack seen h hsub hroom
    rw [visit]
    cases hdrop : stack.dropWhile fun k => decide (k ∈ seen) || (out k).isNone with
    | nil =>
      refine h.complete fun k hk hsome => ?_
      rcases passed out seen hk with hseen | hnone | hdropped
      · exact hseen
      · rw [Option.isNone_iff_eq_none] at hnone
        rw [hnone] at hsome
        cases hsome
      · rw [hdrop] at hdropped
        cases hdropped
    | cons k rest =>
      refine ih _ _ (h.step hdrop) ?_ ?_
      · intro s hs
        rcases List.mem_append.mp hs with hs | hs
        · exact hsub hs
        · rw [List.mem_singleton.mp hs]
          exact hnodes k (head_dropWhile hdrop).2.1
      · rw [List.length_append, List.length_singleton]
        omega

/-- **A visit with room for all nodes comes to exactly those that can be reached.** -/
theorem mem_visit_iff {nodes : List κ} (hnodes : ∀ k, (out k).isSome → k ∈ nodes) {room : Nat}
    (hroom : nodes.length ≤ room) (root k : κ) : k ∈ visit out room [root] [] ↔ Reach out root k := by
  refine mem_visit_of_visiting hnodes room [root] [] ?_ (List.nil_subset nodes) (by simpa using hroom) k
  refine ⟨?_, ?_, ?_, Or.inr (List.mem_singleton_self root), List.nodup_nil⟩
  · intro c hc
    cases hc
  · intro c hc hsome
    rw [List.mem_singleton.mp hc] at hsome ⊢
    exact .root hsome
  · intro c hc
    cases hc

end SnesRecomp.Visit
