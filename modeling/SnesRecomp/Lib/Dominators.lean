import Mathlib.Data.List.Nodup
import Mathlib.Data.List.Perm.Subperm
import Mathlib.Data.Nat.Find
import Mathlib.Logic.Function.Basic
import Mathlib.Logic.Relation
import Mathlib.Tactic.Cases

/-!
# Dominators and chains of parents

A node is dominated by those that every path from the root to it goes through.  `Avoids d n k` is
a path of `n` edges to `k` that does not go through `d`.

An iteration towards the immediate dominators keeps a parent for some of the nodes, and `Above` is
the chain of parents over a node.  Two facts hold while it goes on:

* `Sound`: what strictly dominates a node dominates its parent.  So the dominators of a node are in
  its chain, whatever parents have been found so far (`Sound.above`).
* `Within`: a node that a short path avoids is not in the chain.  A visit of a node whose
  predecessors all have parents makes the paths longer by one (`Within.update`).

With no path left out (`within_all`), the chain over a node is the dominators of it, and its
parent is its immediate dominator.
-/

namespace SnesRecomp.Dominators

variable {κ : Type*} (edge : κ → κ → Prop) (root : κ)

def Reach (k : κ) : Prop := Relation.ReflTransGen edge root k

/-- A path of so many edges from the root to a node that does not go through `d`. -/
inductive Avoids (d : κ) : Nat → κ → Prop
  | root : root ≠ d → Avoids d 0 root
  | step {n p s} : Avoids d n p → edge p s → s ≠ d → Avoids d (n + 1) s

/-- Every path from the root to the node goes through `d`, and there is one. -/
structure Dominates (d k : κ) : Prop where
  reach : Reach edge root k
  passes : ∀ n, ¬ Avoids edge root d n k

/-- The strict dominator that all the others dominate. -/
structure IDom (d k : κ) : Prop where
  dominates : Dominates edge root d k
  ne : d ≠ k
  last : ∀ e, Dominates edge root e k → e ≠ k → Dominates edge root e d

/-- The dominance frontier: where the dominance of a node ends. -/
def Frontier (b k : κ) : Prop :=
  (∃ p, edge p k ∧ Dominates edge root b p) ∧ ¬ (Dominates edge root b k ∧ b ≠ k)

variable {edge root}

/-! ### Paths -/

theorem Avoids.ne {d k : κ} {n : Nat} (h : Avoids edge root d n k) : k ≠ d := by
  cases h with
  | root h => exact h
  | step _ _ h => exact h

theorem Avoids.reach {d k : κ} {n : Nat} (h : Avoids edge root d n k) : Reach edge root k := by
  induction h with
  | root _ => exact .refl
  | step _ hedge _ ih => exact ih.tail hedge

/-- A path goes through a node or avoids it. -/
theorem Avoids.split {d k : κ} {n : Nat} (h : Avoids edge root d n k) (c : κ) :
    Avoids edge root c n k ∨ ∃ i ≤ n, Avoids edge root d i c := by
  induction h with
  | root hne =>
    by_cases hc : root = c
    · exact Or.inr ⟨0, Nat.le_refl 0, hc ▸ .root hne⟩
    · exact Or.inl (.root hc)
  | @step n p s hp hedge hne ih =>
    by_cases hc : s = c
    · exact Or.inr ⟨n + 1, Nat.le_refl _, hc ▸ .step hp hedge hne⟩
    · rcases ih with ih | ⟨i, hi, ih⟩
      · exact Or.inl (.step ih hedge hc)
      · exact Or.inr ⟨i, by omega, ih⟩

/-- The last edge of a path to another node than the root. -/
theorem Avoids.last {d k : κ} {n : Nat} (h : Avoids edge root d n k) (hk : k ≠ root) :
    ∃ i p, n = i + 1 ∧ Avoids edge root d i p ∧ edge p k := by
  cases h with
  | root _ => exact absurd rfl hk
  | @step i p _ hp hedge _ => exact ⟨i, p, rfl, hp, hedge⟩

/-- A shortest path goes through as many nodes as it has edges, and one more. -/
theorem exists_nodup {d : κ} : ∀ (n : Nat) (k : κ), Avoids edge root d n k →
    (∀ i < n, ¬ Avoids edge root d i k) →
    ∃ l : List κ, l.Nodup ∧ l.length = n + 1 ∧ (∀ c ∈ l, Reach edge root c) ∧
      ∀ c ∈ l, ∃ i ≤ n, Avoids edge root d i c := by
  intro n
  induction n with
  | zero =>
    intro k h _
    refine ⟨[k], List.nodup_singleton k, rfl, ?_, ?_⟩
    · simpa using h.reach
    · intro c hc
      rw [List.mem_singleton.mp hc]
      exact ⟨0, Nat.le_refl 0, h⟩
  | succ n ih =>
    intro k h hmin
    cases h with
    | @step _ p _ hp hedge hne =>
      have hpmin : ∀ i < n, ¬ Avoids edge root d i p := fun i hi hip =>
        hmin (i + 1) (by omega) (.step hip hedge hne)
      obtain ⟨l, hnodup, hlen, hreach, hshort⟩ := ih p hp hpmin
      refine ⟨k :: l, List.nodup_cons.mpr ⟨fun hk => ?_, hnodup⟩, by simp [hlen], ?_, ?_⟩
      · obtain ⟨i, hi, hik⟩ := hshort k hk
        exact hmin i (by omega) hik
      · intro c hc
        rcases List.mem_cons.mp hc with rfl | hc
        · exact hp.reach.tail hedge
        · exact hreach c hc
      · intro c hc
        rcases List.mem_cons.mp hc with rfl | hc
        · exact ⟨n + 1, Nat.le_refl _, .step hp hedge hne⟩
        · obtain ⟨i, hi, hic⟩ := hshort c hc
          exact ⟨i, by omega, hic⟩

/-- What can be avoided is avoided by a path with fewer edges than there are nodes. -/
theorem Avoids.short {nodes : List κ} (hnodes : ∀ k, Reach edge root k → k ∈ nodes) {d k : κ}
    {n : Nat} (h : Avoids edge root d n k) : ∃ i < nodes.length, Avoids edge root d i k := by
  classical
  have hex : ∃ n, Avoids edge root d n k := ⟨n, h⟩
  obtain ⟨l, hnodup, hlen, hreach, _⟩ := exists_nodup (Nat.find hex) k (Nat.find_spec hex)
    fun i hi => Nat.find_min hex hi
  have hle := (hnodup.subperm fun c hc => hnodes c (hreach c hc)).length_le
  exact ⟨Nat.find hex, by omega, Nat.find_spec hex⟩

/-! ### Dominance -/

theorem Dominates.self {k : κ} (h : Reach edge root k) : Dominates edge root k k :=
  ⟨h, fun _ hk => hk.ne rfl⟩

/-- A strict dominator dominates the predecessors. -/
theorem Dominates.pred {d p k : κ} (h : Dominates edge root d k) (hne : d ≠ k)
    (hp : Reach edge root p) (hedge : edge p k) : Dominates edge root d p :=
  ⟨hp, fun n hn => h.passes (n + 1) (.step hn hedge hne.symm)⟩

theorem Avoids.of_root {n : Nat} {k : κ} (h : Avoids edge root root n k) : False := by
  induction h with
  | root hne => exact hne rfl
  | step _ _ _ ih => exact ih

/-- The root dominates what it reaches. -/
theorem Dominates.entry {k : κ} (h : Reach edge root k) : Dominates edge root root k :=
  ⟨h, fun _ hk => hk.of_root⟩

theorem Dominates.eq_root {d : κ} (h : Dominates edge root d root) : d = root := by
  by_contra hne
  exact h.passes 0 (.root fun heq => hne heq.symm)

/-! ### Chains of parents -/

/-- The chain over a node: itself, its parent, and so on to the root. -/
inductive Above (root : κ) (par : κ → Option κ) (d : κ) : κ → Prop
  | self : Above root par d d
  | up {k a} : k ≠ root → par k = some a → Above root par d a → Above root par d k

/-- The parents lead down in rank, to nodes that have a parent; the root is its own. -/
structure Tree (root : κ) (rank : κ → Nat) (par : κ → Option κ) : Prop where
  entry : par root = some root
  parent : ∀ k a, k ≠ root → par k = some a → rank a < rank k ∧ (par a).isSome

variable {par : κ → Option κ} {rank : κ → Nat}

theorem Above.trans {d e k : κ} (h : Above root par d e) (g : Above root par e k) :
    Above root par d k := by
  induction g with
  | self => exact h
  | up hk ha _ ih => exact .up hk ha ih

theorem Above.eq_root {d : κ} (h : Above root par d root) : d = root := by
  cases h with
  | self => rfl
  | up hk _ _ => exact absurd rfl hk

theorem Above.rank_le (ht : Tree root rank par) {d k : κ} (h : Above root par d k) :
    rank d ≤ rank k := by
  induction h with
  | self => exact Nat.le_refl _
  | up hk ha _ ih =>
    have hlt := (ht.parent _ _ hk ha).1
    omega

theorem Above.isSome (ht : Tree root rank par) {d k : κ} (h : Above root par d k)
    (hk : (par k).isSome) : (par d).isSome := by
  induction h with
  | self => exact hk
  | up hne ha _ ih => exact ih (ht.parent _ _ hne ha).2

/-- The chain over a node with a parent has the root at its end. -/
theorem Tree.above_root (ht : Tree root rank par) : ∀ (n : Nat) {k : κ}, rank k < n →
    (par k).isSome → Above root par root k := by
  intro n
  induction n with
  | zero => intro k hk; omega
  | succ n ih =>
    intro k hk hsome
    by_cases hroot : k = root
    · rw [hroot]
      exact .self
    · obtain ⟨a, ha⟩ := Option.isSome_iff_exists.mp hsome
      obtain ⟨hlt, hasome⟩ := ht.parent k a hroot ha
      exact .up hroot ha (ih (by omega) hasome)

theorem Tree.update [DecidableEq κ] (ht : Tree root rank par) {k r : κ} (hk : k ≠ root)
    (hlt : rank r < rank k) (hr : (par r).isSome) : Tree root rank (Function.update par k (some r)) := by
  have hmono : ∀ c, (par c).isSome → (Function.update par k (some r) c).isSome := by
    intro c hc
    by_cases hck : c = k
    · simp [hck]
    · rwa [Function.update_of_ne hck]
  refine ⟨by rw [Function.update_of_ne hk.symm]; exact ht.entry, fun c a hc ha => ?_⟩
  by_cases hck : c = k
  · subst hck
    rw [Function.update_self] at ha
    obtain rfl := Option.some.inj ha
    exact ⟨hlt, hmono r hr⟩
  · rw [Function.update_of_ne hck] at ha
    exact (ht.parent c a hc ha).imp_right (hmono a)

/-- What a new parent puts over a node was over it before, or it is over the new parent. -/
theorem Above.of_update [DecidableEq κ] (ht : Tree root rank par) {k r d c : κ}
    (hlt : rank r < rank k) (h : Above root (Function.update par k (some r)) d c) :
    Above root par d c ∨ (Above root par k c ∧ Above root par d r) := by
  induction h with
  | self => exact Or.inl .self
  | @up c a hc ha _ ih =>
    by_cases hck : c = k
    · subst hck
      rw [Function.update_self] at ha
      obtain rfl := Option.some.inj ha
      refine Or.inr ⟨.self, ih.resolve_right fun hih => ?_⟩
      have hle := hih.1.rank_le ht
      omega
    · rw [Function.update_of_ne hck] at ha
      exact ih.imp (.up hc ha) fun hih => ⟨.up hc ha hih.1, hih.2⟩

/-- The nodes over all of some nodes are those over `r`. -/
structure Meets (root : κ) (par : κ → Option κ) (ps : List κ) (r : κ) : Prop where
  above : ∀ p ∈ ps, Above root par r p
  greatest : ∀ e, (∀ p ∈ ps, Above root par e p) → Above root par e r

theorem Meets.single (p : κ) : Meets root par [p] p :=
  ⟨fun _ hq => List.mem_singleton.mp hq ▸ .self, fun _ h => h p (List.mem_singleton_self p)⟩

/-- One node more. -/
theorem Meets.snoc {ps : List κ} {r p r' : κ} (h : Meets root par ps r)
    (h' : Meets root par [p, r] r') : Meets root par (ps ++ [p]) r' := by
  have hp := h'.above p (by simp)
  have hr := h'.above r (by simp)
  constructor
  · intro q hq
    rcases List.mem_append.mp hq with hq | hq
    · exact hr.trans (h.above q hq)
    · rw [List.mem_singleton.mp hq]
      exact hp
  · intro e he
    refine h'.greatest e fun q hq => ?_
    rcases List.mem_cons.mp hq with rfl | hq
    · exact he q (by simp)
    · rw [List.mem_singleton.mp hq]
      exact h.greatest e fun q hq => he q (List.mem_append_left _ hq)

/-! ### Parents that are dominated -/

/-- What strictly dominates a node dominates its parent. -/
def Sound (edge : κ → κ → Prop) (root : κ) (par : κ → Option κ) : Prop :=
  ∀ k a, k ≠ root → par k = some a → ∀ d, Dominates edge root d k → d ≠ k → Dominates edge root d a

/-- The dominators of a node are in the chain over it. -/
theorem Sound.above (ht : Tree root rank par) (hs : Sound edge root par) : ∀ (n : Nat) {k d : κ},
    rank k < n → (par k).isSome → Dominates edge root d k → Above root par d k := by
  intro n
  induction n with
  | zero => intro k d hk; omega
  | succ n ih =>
    intro k d hk hsome hd
    by_cases hdk : d = k
    · rw [hdk]
      exact .self
    · have hroot : k ≠ root := fun hroot => hdk (by rw [hroot] at hd ⊢; exact hd.eq_root)
      obtain ⟨a, ha⟩ := Option.isSome_iff_exists.mp hsome
      obtain ⟨hlt, hasome⟩ := ht.parent k a hroot ha
      exact .up hroot ha (ih (by omega) hasome (hs k a hroot ha d hd hdk))

/-- What dominates a node and is in the chain over `r` dominates `r`, if `r` is over the node. -/
theorem Sound.dominates (ht : Tree root rank par) (hs : Sound edge root par) {r p d : κ}
    (hr : Above root par r p) (hd : Dominates edge root d p) (hdr : Above root par d r) :
    Dominates edge root d r := by
  induction hr with
  | self => exact hd
  | @up k a hk ha hra ih =>
    refine ih (hs k a hk ha d hd fun hdk => ?_)
    have hle := (hdr.trans hra).rank_le ht
    have hlt := (ht.parent k a hk ha).1
    rw [hdk] at hle
    omega

/-- A visit: the new parent is where the chains over some predecessors meet. -/
theorem Sound.update [DecidableEq κ] (ht : Tree root rank par) (hs : Sound edge root par)
    {k r : κ} {ps : List κ}
    (hps : ∀ p ∈ ps, edge p k ∧ Reach edge root p ∧ (par p).isSome) (hne : ps ≠ [])
    (hr : Meets root par ps r) : Sound edge root (Function.update par k (some r)) := by
  intro c a hc ha d hd hdc
  by_cases hck : c = k
  · subst hck
    rw [Function.update_self] at ha
    obtain rfl := Option.some.inj ha
    have hpred : ∀ p ∈ ps, Dominates edge root d p := fun p hp =>
      hd.pred hdc (hps p hp).2.1 (hps p hp).1
    have hdr : Above root par d r := hr.greatest d fun p hp =>
      hs.above ht (rank p + 1) (by omega) (hps p hp).2.2 (hpred p hp)
    obtain ⟨p, hp⟩ := List.exists_mem_of_ne_nil ps hne
    exact hs.dominates ht (hr.above p hp) (hpred p hp) hdr
  · rw [Function.update_of_ne hck] at ha
    exact hs c a hc ha d hd hdc

/-! ### What short paths avoid -/

/-- The chain over a node leaves out what a path of so many edges avoids. -/
def Within (edge : κ → κ → Prop) (root : κ) (bound : κ → Nat) (par : κ → Option κ) : Prop :=
  ∀ k d n, n ≤ bound k → Avoids edge root d n k → ¬ Above root par d k

theorem within_zero : Within edge root (fun _ => 0) par := by
  intro k d n hn h habove
  obtain rfl : n = 0 := Nat.le_zero.mp hn
  cases h with
  | root hne => exact hne habove.eq_root.symm

/-- A visit after all predecessors have a parent. -/
theorem Within.update [DecidableEq κ] (ht : Tree root rank par) {bound : κ → Nat} {b : Nat}
    (hw : Within edge root bound par) (hlo : ∀ k, b ≤ bound k) (hhi : ∀ k, bound k ≤ b + 1)
    {k r : κ} (hk : k ≠ root) (hlt : rank r < rank k)
    (hr : ∀ p, edge p k → Reach edge root p → Above root par r p) :
    Within edge root (Function.update bound k (b + 1)) (Function.update par k (some r)) := by
  have hnot : ∀ {d n}, n ≤ b + 1 → Avoids edge root d n k → ¬ Above root par d r := by
    intro d n hn havoids hdr
    obtain ⟨i, p, rfl, hp, hedge⟩ := havoids.last hk
    have hlo := hlo p
    exact hw p d i (by omega) hp (hdr.trans (hr p hedge hp.reach))
  intro c d n hn havoids habove
  by_cases hck : c = k
  · subst hck
    rw [Function.update_self] at hn
    cases habove with
    | self => exact havoids.ne rfl
    | @up _ a _ ha habove =>
      rw [Function.update_self] at ha
      obtain rfl := Option.some.inj ha
      refine hnot hn havoids ((habove.of_update ht hlt).resolve_right fun h => ?_)
      have hle := h.1.rank_le ht
      omega
  · rw [Function.update_of_ne hck] at hn
    have hhi := hhi c
    rcases habove.of_update ht hlt with h | ⟨hkc, hdr⟩
    · exact hw c d n hn havoids h
    · rcases havoids.split k with h | ⟨i, hi, h⟩
      · exact hw c k n hn h hkc
      · exact hnot (by omega) h hdr

/-- Paths with fewer edges than there are nodes are all that is needed. -/
theorem within_all {nodes : List κ} (hnodes : ∀ k, Reach edge root k → k ∈ nodes) {bound : κ → Nat}
    (hw : Within edge root bound par) (hb : ∀ k, nodes.length ≤ bound k + 1) {d k : κ}
    (hk : Reach edge root k) (h : Above root par d k) : Dominates edge root d k := by
  refine ⟨hk, fun n hn => ?_⟩
  obtain ⟨i, hi, hn⟩ := hn.short hnodes
  have hb := hb k
  exact hw k d i (by omega) hn h

/-! ### Parents that dominate -/

/-- The parent map of the immediate dominators. -/
structure Exact (edge : κ → κ → Prop) (root : κ) (par : κ → Option κ) : Prop where
  entry : par root = some root
  isSome : ∀ k, (par k).isSome ↔ Reach edge root k
  idom : ∀ k a, k ≠ root → par k = some a → IDom edge root a k

theorem Sound.exact (ht : Tree root rank par) (hs : Sound edge root par)
    (hsome : ∀ k, (par k).isSome ↔ Reach edge root k)
    (hdom : ∀ {k d}, Reach edge root k → Above root par d k → Dominates edge root d k) :
    Exact edge root par := by
  refine ⟨ht.entry, hsome, fun k a hk ha => ?_⟩
  have hreach := (hsome k).mp (by rw [ha]; rfl)
  refine ⟨hdom hreach (.up hk ha .self), ?_, hs k a hk ha⟩
  rintro rfl
  have hlt := (ht.parent a a hk ha).1
  omega

/-- There is at most one immediate dominator. -/
theorem IDom.unique (ht : Tree root rank par) (hs : Sound edge root par) {a b k : κ}
    (ha : IDom edge root a k) (hb : IDom edge root b k) (hasome : (par a).isSome)
    (hbsome : (par b).isSome) : a = b := by
  have hab : Above root par a b :=
    hs.above ht (rank b + 1) (by omega) hbsome (hb.last a ha.dominates ha.ne)
  have hba : Above root par b a :=
    hs.above ht (rank a + 1) (by omega) hasome (ha.last b hb.dominates hb.ne)
  cases hab with
  | self => rfl
  | up hbr hpb hab =>
    have hle := (hba.trans hab).rank_le ht
    have hlt := (ht.parent _ _ hbr hpb).1
    omega

theorem Exact.sound (he : Exact edge root par) : Sound edge root par :=
  fun k a hk ha => (he.idom k a hk ha).last

theorem Exact.unique {par' : κ → Option κ} (ht : Tree root rank par) (he : Exact edge root par)
    (ht' : Tree root rank par') (he' : Exact edge root par') : par' = par := by
  funext k
  by_cases hk : k = root
  · rw [hk, he.entry, he'.entry]
  · have hiff : (par' k).isSome ↔ (par k).isSome := (he'.isSome k).trans (he.isSome k).symm
    cases ha : par k with
    | none =>
      rw [ha] at hiff
      exact Option.not_isSome_iff_eq_none.mp fun hs => by cases hiff.mp hs
    | some a =>
      rw [ha] at hiff
      obtain ⟨b, hb⟩ := Option.isSome_iff_exists.mp (hiff.mpr rfl)
      have hbsome := (he.isSome b).mpr ((he'.isSome b).mp (ht'.parent k b hk hb).2)
      rw [hb, (he'.idom k b hk hb).unique ht he.sound (he.idom k a hk ha) hbsome
        (ht.parent k a hk ha).2]

/-- The chain over a node is what dominates it. -/
theorem Exact.above_iff (ht : Tree root rank par) (he : Exact edge root par) {d k : κ}
    (hk : Reach edge root k) : Above root par d k ↔ Dominates edge root d k := by
  refine ⟨fun h => ?_, he.sound.above ht (rank k + 1) (by omega) ((he.isSome k).mpr hk)⟩
  induction h with
  | self => exact .self hk
  | @up k a hne ha _ ih =>
    have hidom := (he.idom k a hne ha).dominates
    have hareach : Reach edge root a := (he.isSome a).mp (ht.parent k a hne ha).2
    have hda := ih hareach
    refine ⟨hk, fun n hn => ?_⟩
    rcases hn.split a with h | ⟨i, _, h⟩
    · exact hidom.passes n h
    · exact hda.passes i h

end SnesRecomp.Dominators
