import Mathlib.Order.Lattice
import Mathlib.Order.Defs.LinearOrder
import Mathlib.Tactic.Cases

/-!
# Spans between increasing edges

The first `n + 1` entries of `e` cut the line from `e 0` to `e n` into `n` spans.  As long as
they increase, every point of the line is in one span (`Increasing.exists_span`) and in no
other (`Increasing.span_unique`), and a new edge can be put between two others
(`Increasing.insertAt`).
-/

namespace SnesRecomp.Spans

variable {α : Type}

/-- `x` is one of the first `n + 1` edges. -/
def Marked (e : Nat → α) (n : Nat) (x : α) : Prop := ∃ k ≤ n, e k = x

/-- The edges with `t` in place `i` and those from there on moved up. -/
def insertAt (e : Nat → α) (i : Nat) (t : α) (k : Nat) : α :=
  if k < i then e k else if k = i then t else e (k - 1)

theorem insertAt_of_lt (e : Nat → α) (t : α) {i k : Nat} (h : k < i) :
    insertAt e i t k = e k := by
  rw [insertAt, if_pos h]

@[simp] theorem insertAt_self (e : Nat → α) (i : Nat) (t : α) : insertAt e i t i = t := by
  rw [insertAt, if_neg (Nat.lt_irrefl i), if_pos rfl]

theorem insertAt_of_le (e : Nat → α) (t : α) {i k : Nat} (h : i ≤ k) :
    insertAt e i t (k + 1) = e k := by
  rw [insertAt, if_neg (by omega), if_neg (by omega), Nat.add_sub_cancel]

theorem marked_insertAt {e : Nat → α} {n i : Nat} {t x : α} (hi : i ≤ n + 1) :
    Marked (insertAt e i t) (n + 1) x ↔ Marked e n x ∨ x = t := by
  constructor
  · rintro ⟨k, hk, hx⟩
    by_cases hbelow : k < i
    · rw [insertAt_of_lt e t hbelow] at hx
      exact .inl ⟨k, by omega, hx⟩
    · by_cases hself : k = i
      · rw [hself, insertAt_self] at hx
        exact .inr hx.symm
      · obtain ⟨m, rfl⟩ : ∃ m, k = m + 1 := ⟨k - 1, by omega⟩
        rw [insertAt_of_le e t (by omega)] at hx
        exact .inl ⟨m, by omega, hx⟩
  · rintro (⟨k, hk, hx⟩ | hx)
    · by_cases hbelow : k < i
      · exact ⟨k, by omega, by rw [insertAt_of_lt e t hbelow, hx]⟩
      · exact ⟨k + 1, by omega, by rw [insertAt_of_le e t (by omega), hx]⟩
    · exact ⟨i, hi, by rw [insertAt_self, hx]⟩

theorem Marked.congr {e e' : Nat → α} {n : Nat} {x : α} (heq : ∀ k ≤ n, e' k = e k) :
    Marked e' n x ↔ Marked e n x := by
  constructor
  · rintro ⟨k, hk, hx⟩
    exact ⟨k, hk, by rw [← heq k hk, hx]⟩
  · rintro ⟨k, hk, hx⟩
    exact ⟨k, hk, by rw [heq k hk, hx]⟩

variable [LinearOrder α]

def Increasing (e : Nat → α) (n : Nat) : Prop := ∀ k < n, e k < e (k + 1)

theorem Increasing.lt {e : Nat → α} {n : Nat} (h : Increasing e n) {i j : Nat}
    (hij : i < j) (hj : j ≤ n) : e i < e j := by
  induction j with
  | zero => omega
  | succ j ih =>
      have hlast := h j (by omega)
      by_cases hi : i = j
      · rwa [hi]
      · exact lt_trans (ih (by omega) (by omega)) hlast

theorem Increasing.le {e : Nat → α} {n : Nat} (h : Increasing e n) {i j : Nat}
    (hij : i ≤ j) (hj : j ≤ n) : e i ≤ e j := by
  by_cases hi : i = j
  · rw [hi]
  · exact le_of_lt (h.lt (by omega) hj)

theorem Increasing.lt_iff {e : Nat → α} {n : Nat} (h : Increasing e n) {i j : Nat}
    (hi : i ≤ n) (hj : j ≤ n) : e i < e j ↔ i < j := by
  constructor
  · intro hlt
    by_contra hn
    exact absurd (h.le (by omega : j ≤ i) hi) (not_le_of_gt hlt)
  · intro hij
    exact h.lt hij hj

theorem Increasing.congr {e e' : Nat → α} {n : Nat} (h : Increasing e n)
    (heq : ∀ k ≤ n, e' k = e k) : Increasing e' n := by
  intro k hk
  rw [heq k (by omega), heq (k + 1) (by omega)]
  exact h k hk

/-- Where a point of span `k` lies to an edge. -/
theorem Increasing.edge_le_iff {e : Nat → α} {n : Nat} (h : Increasing e n) {x : α}
    {i k : Nat} (hi : i ≤ n) (hk : k < n) (hlo : e k ≤ x) (hhi : x < e (k + 1)) :
    e i ≤ x ↔ i ≤ k := by
  constructor
  · intro hle
    have hlt := (h.lt_iff hi (by omega)).mp (lt_of_le_of_lt hle hhi)
    omega
  · intro hik
    exact le_trans (h.le hik (by omega)) hlo

theorem Increasing.exists_span {e : Nat → α} {n : Nat} (h : Increasing e n) {x : α}
    (hx : e 0 ≤ x) (hn : x < e n) : ∃ k < n, e k ≤ x ∧ x < e (k + 1) := by
  induction n with
  | zero => exact absurd hn (not_lt_of_ge hx)
  | succ n ih =>
      by_cases hlast : e n ≤ x
      · exact ⟨n, by omega, hlast, hn⟩
      · obtain ⟨k, hk, hspan⟩ := ih (fun k hk => h k (by omega)) (not_le.mp hlast)
        exact ⟨k, by omega, hspan⟩

theorem Increasing.span_unique {e : Nat → α} {n : Nat} (h : Increasing e n) {x : α}
    {i j : Nat} (hi : i < n) (hj : j < n) (hxi : e i ≤ x ∧ x < e (i + 1))
    (hxj : e j ≤ x ∧ x < e (j + 1)) : i = j := by
  have hij : i < j + 1 := (h.lt_iff (by omega) (by omega)).mp (lt_of_le_of_lt hxi.1 hxj.2)
  have hji : j < i + 1 := (h.lt_iff (by omega) (by omega)).mp (lt_of_le_of_lt hxj.1 hxi.2)
  omega

theorem Increasing.insertAt {e : Nat → α} {n : Nat} (h : Increasing e n) {i : Nat} {t : α}
    (hi : i + 1 ≤ n) (hlo : e i < t) (hhi : t < e (i + 1)) :
    Increasing (insertAt e (i + 1) t) (n + 1) := by
  intro k hk
  by_cases hbelow : k < i
  · rw [insertAt_of_lt e t (by omega), insertAt_of_lt e t (by omega)]
    exact h k (by omega)
  · by_cases hleft : k = i
    · rw [hleft, insertAt_of_lt e t (by omega), insertAt_self]
      exact hlo
    · by_cases hright : k = i + 1
      · rw [hright, insertAt_self, insertAt_of_le e t (by omega)]
        exact hhi
      · obtain ⟨m, rfl⟩ : ∃ m, k = m + 1 := ⟨k - 1, by omega⟩
        rw [insertAt_of_le e t (by omega), insertAt_of_le e t (by omega)]
        exact h m (by omega)

end SnesRecomp.Spans
