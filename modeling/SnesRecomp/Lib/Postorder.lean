import SnesRecomp.Lib.Visit
import Mathlib.Data.List.Nodup
import Mathlib.Data.List.Perm.Subperm
import Mathlib.Tactic.Cases

/-!
# Depth-first search in postorder

`dfs` marks a node as visited, goes through its successors and then puts the node behind the
order.  `out k` is the list of successors of `k`, if `k` is a node, as in `Visit`.

`postorder_spec`: with room for all nodes the order holds what the root reaches, each node once and
the root last, and behind every other node stands one that leads to it.
-/

namespace SnesRecomp.Postorder

open Visit (Reach)

variable {κ : Type*}

/-- Each node is a head or has a predecessor behind it. -/
def Led (out : κ → Option (List κ)) (head : κ → Prop) : List κ → Prop
  | [] => True
  | k :: l => (head k ∨ ∃ p ∈ l, ∃ ss, out p = some ss ∧ k ∈ ss) ∧ Led out head l

variable {out : κ → Option (List κ)} {root : κ}

theorem Led.append {head : κ → Prop} : ∀ {l l' : List κ}, Led out head l → Led out head l' →
    Led out head (l ++ l') := by
  intro l
  induction l with
  | nil => intro l' _ h; exact h
  | cons k l ih =>
    intro l' h h'
    refine ⟨h.1.imp_right fun ⟨p, hp, hss⟩ => ⟨p, List.mem_append_left _ hp, hss⟩, ih h.2 h'⟩

theorem Led.mono {head head' : κ → Prop} (hh : ∀ k, head k → head' k) : ∀ {l : List κ},
    Led out head l → Led out head' l := by
  intro l
  induction l with
  | nil => intro h; exact h
  | cons k l ih => intro h; exact ⟨h.1.imp_left (hh k), ih h.2⟩

/-- The node the heads are the successors of comes behind them. -/
theorem Led.close {node : κ} {ss : List κ} (hss : out node = some ss) : ∀ {l : List κ},
    Led out (· ∈ ss) l → Led out (· = node) (l ++ [node]) := by
  intro l
  induction l with
  | nil => intro _; exact ⟨Or.inl rfl, trivial⟩
  | cons k l ih =>
    intro h
    refine ⟨Or.inr ?_, ih h.2⟩
    rcases h.1 with hk | ⟨p, hp, hps⟩
    · exact ⟨node, by simp, ss, hss, hk⟩
    · exact ⟨p, List.mem_append_left _ hp, hps⟩

theorem Led.exists_behind {head : κ → Prop} : ∀ {l l' : List κ} {k : κ},
    Led out head (l ++ k :: l') → ¬ head k → ∃ p ∈ l', ∃ ss, out p = some ss ∧ k ∈ ss := by
  intro l
  induction l with
  | nil => intro l' k h hk; exact h.1.resolve_left hk
  | cons c l ih => intro l' k h hk; exact ih h.2 hk

/-- What a search from some heads adds to the visited nodes and to the order. -/
structure Searched (out : κ → Option (List κ)) (root : κ) (head : κ → Prop)
    (st st' : List κ × List κ) (new : List κ) : Prop where
  order : st'.2 = st.2 ++ new
  visited : ∀ k, k ∈ st'.1 ↔ k ∈ st.1 ∨ k ∈ new
  nodup : new.Nodup
  fresh : ∀ k ∈ new, k ∉ st.1
  led : Led out head new
  closed : ∀ k ∈ new, ∀ ss, out k = some ss → ∀ s ∈ ss, (out s).isSome → s ∈ st'.1
  reach : ∀ k ∈ new, Reach out root k

theorem Searched.nil {head : κ → Prop} (st : List κ × List κ) :
    Searched out root head st st [] := by
  refine ⟨by simp, by simp, List.nodup_nil, by simp, trivial, by simp, by simp⟩

/-- One search behind another. -/
theorem Searched.append {head : κ → Prop} {st st' st'' : List κ × List κ} {new new' : List κ}
    (h : Searched out root head st st' new) (h' : Searched out root head st' st'' new') :
    Searched out root head st st'' (new ++ new') := by
  constructor
  · rw [h'.order, h.order, List.append_assoc]
  · intro k
    rw [h'.visited, h.visited, List.mem_append, or_assoc]
  · refine List.Nodup.append h.nodup h'.nodup fun k hk hk' => ?_
    exact h'.fresh k hk' ((h.visited k).mpr (Or.inr hk))
  · intro k hk hvisited
    rcases List.mem_append.mp hk with hk | hk
    · exact h.fresh k hk hvisited
    · exact h'.fresh k hk ((h.visited k).mpr (Or.inl hvisited))
  · exact h.led.append h'.led
  · intro k hk ss hss s hs hsome
    rcases List.mem_append.mp hk with hk | hk
    · exact (h'.visited s).mpr (Or.inl (h.closed k hk ss hss s hs hsome))
    · exact h'.closed k hk ss hss s hs hsome
  · intro k hk
    exact (List.mem_append.mp hk).elim (h.reach k) (h'.reach k)

/-- The node behind what the search from its successors found. -/
theorem Searched.close {node : κ} {ss : List κ} {visited order : List κ} {st' : List κ × List κ}
    {new : List κ} (hss : out node = some ss) (hnode : node ∉ visited)
    (hreach : Reach out root node) (h : Searched out root (· ∈ ss) (node :: visited, order) st' new)
    (hheads : ∀ s ∈ ss, (out s).isSome → s ∈ st'.1) :
    Searched out root (· = node) (visited, order) (st'.1, st'.2 ++ [node]) (new ++ [node]) := by
  constructor
  · show st'.2 ++ [node] = order ++ (new ++ [node])
    rw [h.order, List.append_assoc]
  · intro k
    have hk := h.visited k
    simp only [List.mem_cons, List.mem_append, List.not_mem_nil, or_false] at hk ⊢
    rw [hk]
    constructor
    · rintro ((hk | hk) | hk)
      · exact Or.inr (Or.inr hk)
      · exact Or.inl hk
      · exact Or.inr (Or.inl hk)
    · rintro (hk | hk | hk)
      · exact Or.inl (Or.inr hk)
      · exact Or.inr hk
      · exact Or.inl (Or.inl hk)
  · refine List.Nodup.append h.nodup (List.nodup_singleton node) ?_
    rw [List.disjoint_singleton]
    exact fun hk => h.fresh node hk List.mem_cons_self
  · intro k hk
    rcases List.mem_append.mp hk with hk | hk
    · exact fun hvisited => h.fresh k hk (List.mem_cons_of_mem node hvisited)
    · rw [List.mem_singleton.mp hk]
      exact hnode
  · exact h.led.close hss
  · intro k hk ss' hss' s hs hsome
    rcases List.mem_append.mp hk with hk | hk
    · exact h.closed k hk ss' hss' s hs hsome
    · rw [List.mem_singleton.mp hk, hss] at hss'
      obtain rfl := Option.some.inj hss'
      exact hheads s hs hsome
  · intro k hk
    rcases List.mem_append.mp hk with hk | hk
    · exact h.reach k hk
    · rw [List.mem_singleton.mp hk]
      exact hreach

variable [DecidableEq κ] (out)

/-- The visited nodes and the order after a search from a node. -/
def dfs : Nat → List κ × List κ → κ → List κ × List κ
  | 0, st, _ => st
  | room + 1, st, node =>
    if node ∈ st.1 then st
    else
      match out node with
      | none => (node :: st.1, st.2)
      | some ss =>
        let st' := (ss.filter fun s => (out s).isSome).foldl (dfs room) (node :: st.1, st.2)
        (st'.1, st'.2 ++ [node])

def postorder (room : Nat) (root : κ) : List κ := (dfs out room ([], []) root).2

variable {out}

omit [DecidableEq κ] in
theorem Searched.heads {head head' : κ → Prop} {st st' : List κ × List κ} {new : List κ}
    (h : Searched out root head st st' new) (hh : ∀ k, head k → head' k) :
    Searched out root head' st st' new :=
  { h with led := h.led.mono hh }

/-- What is visited leaves so much room. -/
structure Fits (nodes : List κ) (room : Nat) (visited : List κ) : Prop where
  nodup : visited.Nodup
  subset : visited ⊆ nodes
  room : nodes.length < room + visited.length

/-- A search with that much room finds the node it is called for, and visits nothing twice. -/
def Finds (out : κ → Option (List κ)) (root : κ) (nodes : List κ) (room : Nat)
    (search : List κ × List κ → κ → List κ × List κ) : Prop :=
  ∀ st node, Fits nodes room st.1 → Reach out root node →
    ∃ new, Searched out root (· = node) st (search st node) new ∧ node ∈ (search st node).1 ∧
      (search st node).1.Nodup

omit [DecidableEq κ] in
theorem Reach.isSome {k : κ} (h : Reach out root k) : (out k).isSome := by
  cases h with
  | root h => exact h
  | step _ _ _ h => exact h

section

variable {nodes : List κ} (hnodes : ∀ k, (out k).isSome → k ∈ nodes)
include hnodes

omit [DecidableEq κ] in
/-- There is as much room after a search as before it. -/
theorem Fits.grow {room : Nat} {head : κ → Prop} {st st' : List κ × List κ} {new : List κ}
    (hfits : Fits nodes room st.1) (h : Searched out root head st st' new) (hnodup : st'.1.Nodup) :
    Fits nodes room st'.1 := by
  refine ⟨hnodup, fun k hk => ?_, ?_⟩
  · exact ((h.visited k).mp hk).elim (fun hk => hfits.subset hk) fun hk =>
      hnodes k (Reach.isSome (h.reach k hk))
  · have hle := (hfits.nodup.subperm fun k hk => (h.visited k).mpr (Or.inl hk)).length_le
    have hlt := hfits.room
    omega

omit [DecidableEq κ] in
theorem Finds.foldl {room : Nat} {search : List κ × List κ → κ → List κ × List κ}
    (hsearch : Finds out root nodes room search) : ∀ (l : List κ) (st : List κ × List κ),
    Fits nodes room st.1 → (∀ s ∈ l, Reach out root s) →
    ∃ new, Searched out root (· ∈ l) st (l.foldl search st) new ∧
      (∀ s ∈ l, s ∈ (l.foldl search st).1) ∧ (l.foldl search st).1.Nodup := by
  intro l
  induction l with
  | nil => intro st hfits _; exact ⟨[], .nil st, by simp, hfits.nodup⟩
  | cons s l ih =>
    intro st hfits hreach
    obtain ⟨new, hnew, hs, hnodup⟩ := hsearch st s hfits (hreach s List.mem_cons_self)
    obtain ⟨new', hnew', hl, hnodup'⟩ := ih (search st s) (hfits.grow hnodes hnew hnodup)
      fun s hs => hreach s (List.mem_cons_of_mem _ hs)
    refine ⟨new ++ new', ?_, fun t ht => ?_, hnodup'⟩
    · exact (hnew.heads fun k hk => hk ▸ List.mem_cons_self).append
        (hnew'.heads fun k hk => List.mem_cons_of_mem s hk)
    · rcases List.mem_cons.mp ht with rfl | ht
      · exact (hnew'.visited t).mpr (Or.inl hs)
      · exact hl t ht

/-- A search of a node that was not visited ends with it. -/
theorem dfs_last {room : Nat} (hsearch : Finds out root nodes room (dfs out room))
    {st : List κ × List κ} {node : κ} (hfits : Fits nodes (room + 1) st.1) (hnode : node ∉ st.1)
    (hreach : Reach out root node) :
    ∃ new, Searched out root (· = node) st (dfs out (room + 1) st node) (new ++ [node]) ∧
      node ∈ (dfs out (room + 1) st node).1 ∧ (dfs out (room + 1) st node).1.Nodup := by
  obtain ⟨ss, hss⟩ := Option.isSome_iff_exists.mp (Reach.isSome hreach)
  have hfits' : Fits nodes room (node :: st.1) := by
    refine ⟨List.nodup_cons.mpr ⟨hnode, hfits.nodup⟩, ?_, ?_⟩
    · exact List.cons_subset.mpr ⟨hnodes node (Reach.isSome hreach), hfits.subset⟩
    · have hlt := hfits.room
      simp only [List.length_cons]
      omega
  obtain ⟨new, hnew, hheads, hnodup⟩ := hsearch.foldl hnodes (ss.filter fun s => (out s).isSome)
    (node :: st.1, st.2) hfits' fun s hs => by
      obtain ⟨hs, hsome⟩ := List.mem_filter.mp hs
      exact .step hreach hss hs hsome
  refine ⟨new, ?_, ?_, ?_⟩
  · rw [dfs, if_neg hnode, hss]
    exact .close hss hnode hreach (hnew.heads fun k hk => (List.mem_filter.mp hk).1)
      fun s hs hsome => hheads s (List.mem_filter.mpr ⟨hs, hsome⟩)
  · rw [dfs, if_neg hnode, hss]
    exact (hnew.visited node).mpr (Or.inl List.mem_cons_self)
  · rw [dfs, if_neg hnode, hss]
    exact hnodup

theorem finds_dfs (room : Nat) : Finds out root nodes room (dfs out room) := by
  induction room with
  | zero =>
    intro st node hfits _
    have hle := (hfits.nodup.subperm hfits.subset).length_le
    have hlt := hfits.room
    omega
  | succ room ih =>
    intro st node hfits hreach
    by_cases hnode : node ∈ st.1
    · rw [dfs, if_pos hnode]
      exact ⟨[], .nil st, hnode, hfits.nodup⟩
    · obtain ⟨new, hnew⟩ := dfs_last hnodes ih hfits hnode hreach
      exact ⟨new ++ [node], hnew⟩

/-- **With room for all nodes, the postorder holds what the root reaches, each node once.  The
root is the last, and behind every other node stands one that leads to it.** -/
theorem postorder_spec (hroot : (out root).isSome) :
    (∃ l, postorder out (nodes.length + 1) root = l ++ [root]) ∧
      (postorder out (nodes.length + 1) root).Nodup ∧
      (∀ k, k ∈ postorder out (nodes.length + 1) root ↔ Reach out root k) ∧
      ∀ l k l', postorder out (nodes.length + 1) root = l ++ k :: l' → k ≠ root →
        ∃ p ∈ l', ∃ ss, out p = some ss ∧ k ∈ ss := by
  have hfits : Fits nodes (nodes.length + 1) (([], []) : List κ × List κ).1 :=
    ⟨List.nodup_nil, List.nil_subset nodes, by simp⟩
  obtain ⟨new, hnew, hmem, _⟩ := dfs_last hnodes (finds_dfs hnodes nodes.length)
    hfits List.not_mem_nil (.root hroot)
  have horder : postorder out (nodes.length + 1) root = new ++ [root] := hnew.order
  rw [horder]
  have hvisited : ∀ k, k ∈ (dfs out (nodes.length + 1) ([], []) root).1 ↔ k ∈ new ++ [root] := by
    intro k
    rw [hnew.visited]
    simp
  refine ⟨⟨new, rfl⟩, hnew.nodup, fun k => ⟨hnew.reach k, fun hk => ?_⟩, fun l k l' hl hk => ?_⟩
  · induction hk with
    | root _ => simp
    | @step k s ss _ hss hs hsome ih =>
      exact (hvisited s).mp (hnew.closed k ih ss hss s hs hsome)
  · exact (hl ▸ hnew.led).exists_behind hk

end

end SnesRecomp.Postorder
