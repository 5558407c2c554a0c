import Mathlib.Data.List.Basic
import Mathlib.Tactic.Cases

/-!
# Binary search

The loop halves the range from `lo` to `hi` until it meets the key or the range is empty.  On
rows with increasing keys it finds the row of a key if and only if the range has one
(`search_eq_some_iff`).
-/

namespace SnesRecomp.Search

variable {α : Type}

def search (key : α → Nat) (rows : List α) (k lo hi : Nat) : Option α :=
  if lo < hi then
    let mid := lo + (hi - lo) / 2
    match rows[mid]? with
    | none => none
    | some row =>
      if key row = k then some row
      else if key row < k then search key rows k (mid + 1) hi
      else search key rows k lo mid
  else none
  termination_by hi - lo
  decreasing_by all_goals omega

theorem key_lt {key : α → Nat} {rows : List α} (hsorted : (rows.map key).Pairwise (· < ·))
    {i j : Nat} (hij : i < j) {a b : α} (ha : rows[i]? = some a) (hb : rows[j]? = some b) :
    key a < key b := by
  obtain ⟨hi, rfl⟩ := List.getElem?_eq_some_iff.mp ha
  obtain ⟨hj, rfl⟩ := List.getElem?_eq_some_iff.mp hb
  have hlt := List.pairwise_iff_getElem.mp hsorted i j (by rwa [List.length_map])
    (by rwa [List.length_map]) hij
  rwa [List.getElem_map, List.getElem_map] at hlt

/-- The search of a range, on rows with increasing keys. -/
theorem search_eq_some_iff {key : α → Nat} {rows : List α}
    (hsorted : (rows.map key).Pairwise (· < ·)) (k lo : Nat) {hi : Nat}
    (hhi : hi ≤ rows.length) (row : α) :
    search key rows k lo hi = some row ↔
      ∃ i, lo ≤ i ∧ i < hi ∧ rows[i]? = some row ∧ key row = k := by
  obtain ⟨d, hd⟩ : ∃ d, hi - lo = d := ⟨_, rfl⟩
  induction d using Nat.strongRecOn generalizing lo hi with
  | ind d ih =>
      rw [search]
      by_cases hlt : lo < hi
      · obtain ⟨mid, hmid⟩ : ∃ mid, lo + (hi - lo) / 2 = mid := ⟨_, rfl⟩
        obtain ⟨a, ha⟩ : ∃ a, rows[mid]? = some a :=
          ⟨_, List.getElem?_eq_getElem (show mid < rows.length by omega)⟩
        rw [if_pos hlt]
        dsimp only
        rw [hmid, ha]
        dsimp only
        by_cases heq : key a = k
        · rw [if_pos heq]
          constructor
          · rintro rfl_row
            obtain rfl := Option.some.inj rfl_row
            exact ⟨mid, by omega, by omega, ha, heq⟩
          · rintro ⟨i, _, _, hrow, hkey⟩
            by_cases him : i = mid
            · rw [him, ha] at hrow
              exact hrow
            · rcases Nat.lt_or_gt_of_ne him with hless | hmore
              · have hcmp := key_lt hsorted hless hrow ha
                omega
              · have hcmp := key_lt hsorted hmore ha hrow
                omega
        · rw [if_neg heq]
          by_cases hless : key a < k
          · rw [if_pos hless, ih _ (by omega) (mid + 1) hhi rfl]
            constructor
            · rintro ⟨i, hlo, hi', hrow, hkey⟩
              exact ⟨i, by omega, hi', hrow, hkey⟩
            · rintro ⟨i, hlo, hi', hrow, hkey⟩
              refine ⟨i, ?_, hi', hrow, hkey⟩
              by_contra hle
              by_cases him : i = mid
              · rw [him, ha] at hrow
                obtain rfl := Option.some.inj hrow
                omega
              · have hcmp := key_lt hsorted (show i < mid by omega) hrow ha
                omega
          · rw [if_neg hless, ih _ (by omega) lo (by omega) rfl]
            constructor
            · rintro ⟨i, hlo, hi', hrow, hkey⟩
              exact ⟨i, hlo, by omega, hrow, hkey⟩
            · rintro ⟨i, hlo, hi', hrow, hkey⟩
              refine ⟨i, hlo, ?_, hrow, hkey⟩
              by_contra hle
              by_cases him : i = mid
              · rw [him, ha] at hrow
                obtain rfl := Option.some.inj hrow
                omega
              · have hcmp := key_lt hsorted (show mid < i by omega) ha hrow
                omega
      · rw [if_neg hlt]
        constructor
        · intro h
          cases h
        · rintro ⟨i, hlo, hi', _, _⟩
          omega

end SnesRecomp.Search
