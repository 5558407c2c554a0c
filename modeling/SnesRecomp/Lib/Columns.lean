import Mathlib.Algebra.Order.Ring.Int
import Mathlib.Logic.Function.Basic
import Mathlib.Tactic.Cases

/-!
# Lines of columns

A line is a function on the integers.  `paint f a b` puts `f` on the columns from `a` to `b`;
two neighbouring spans painted one after the other are one span (`paint_append`).
`blocks` cuts a span into a first block and blocks of one size after it, the last one clipped;
`blocks_spec` says what it does as long as the sizes are positive.
-/

namespace SnesRecomp.Columns

variable {α σ : Type}

/-! ### Painting -/

def paint (f : Int → α → α) (a b : Int) (line : Int → α) (c : Int) : α :=
  if a ≤ c ∧ c < b then f c (line c) else line c

theorem paint_of_mem {f : Int → α → α} {a b c : Int} (line : Int → α) (h : a ≤ c ∧ c < b) :
    paint f a b line c = f c (line c) := if_pos h

theorem paint_of_notMem {f : Int → α → α} {a b c : Int} (line : Int → α)
    (h : ¬(a ≤ c ∧ c < b)) : paint f a b line c = line c := if_neg h

theorem paint_empty (f : Int → α → α) (a : Int) (line : Int → α) : paint f a a line = line := by
  funext c
  exact paint_of_notMem line (by omega)

theorem paint_append (f : Int → α → α) {a b c : Int} (hab : a ≤ b) (hbc : b ≤ c)
    (line : Int → α) : paint f b c (paint f a b line) = paint f a c line := by
  funext k
  by_cases hleft : k < b
  · rw [paint_of_notMem _ (show ¬(b ≤ k ∧ k < c) by omega)]
    by_cases hin : a ≤ k
    · rw [paint_of_mem _ ⟨hin, hleft⟩, paint_of_mem _ ⟨hin, by omega⟩]
    · rw [paint_of_notMem _ (by omega), paint_of_notMem _ (by omega)]
  · by_cases hin : k < c
    · rw [paint_of_mem _ (show b ≤ k ∧ k < c by omega), paint_of_notMem _ (by omega),
        paint_of_mem _ (by omega)]
    · rw [paint_of_notMem _ (by omega), paint_of_notMem _ (by omega),
        paint_of_notMem _ (by omega)]

theorem paint_one (f : Int → α → α) (a : Int) (line : Int → α) :
    paint f a (a + 1) line = Function.update line a (f a (line a)) := by
  funext c
  by_cases hc : c = a
  · rw [hc, Function.update_self, paint_of_mem _ (by omega)]
  · rw [Function.update_of_ne hc, paint_of_notMem _ (by omega)]

theorem paint_id {f : Int → α → α} {a b : Int} {line : Int → α}
    (h : ∀ c, a ≤ c → c < b → f c (line c) = line c) : paint f a b line = line := by
  funext c
  by_cases hc : a ≤ c ∧ c < b
  · rw [paint_of_mem _ hc, h c hc.1 hc.2]
  · exact paint_of_notMem _ hc

/-! ### Blocks -/

/-- One turn of the loop: a block of `width` columns from `start` on. -/
structure Block (σ : Type) where
  start : Int
  width : Int
  state : σ

/-- Blocks from `start` to `last`; `none` when `draw` is, or when the fuel is not enough. -/
def blocks (draw : σ → Int → Int → (Int → α) → Option (Int → α)) (next : σ → Int → σ)
    (size last : Int) : Nat → Int → Int → σ → (Int → α) → Option (List (Block σ) × (Int → α))
  | 0, _, _, _, _ => none
  | fuel + 1, width, start, s, line => do
    let width := min width (last - start)
    let line ← draw s start width line
    if last - (start + width) ≠ 0 then
      let (bs, line) ← blocks draw next size last fuel size (start + width) (next s width) line
      return (⟨start, width, s⟩ :: bs, line)
    else return ([⟨start, width, s⟩], line)

/-- Where a block begins when no block is clipped. -/
def IsStart (start width size c : Int) : Prop := c = start ∨ ∃ k : Nat, c = start + width + k * size

theorem IsStart.of_next {start width size c : Int}
    (h : IsStart (start + width) size size c) : IsStart start width size c := by
  obtain rfl | ⟨k, rfl⟩ := h
  · exact .inr ⟨0, by omega⟩
  · refine .inr ⟨k + 1, ?_⟩
    rw [Int.natCast_add, Int.natCast_one, Int.add_mul, Int.one_mul]
    omega

theorem IsStart.next {start width size c : Int} (h : IsStart start width size c)
    (hc : c ≠ start) : IsStart (start + width) size size c := by
  obtain rfl | ⟨k, rfl⟩ := h
  · exact absurd rfl hc
  · cases k with
    | zero => exact .inl (by omega)
    | succ k =>
        refine .inr ⟨k, ?_⟩
        rw [Int.natCast_add, Int.natCast_one, Int.add_mul, Int.one_mul]
        omega

/-- What the loop leaves: blocks of at least one column in the span, one at every start, each
entered in the state that `at` gives for its start, and the columns outside as they were. -/
structure Cut (start width size last : Int) (stateAt : Int → σ) (line : Int → α)
    (bs : List (Block σ)) (line' : Int → α) : Prop where
  inside : ∀ b ∈ bs, start ≤ b.start ∧ 1 ≤ b.width ∧ b.start + b.width ≤ last
  state : ∀ b ∈ bs, b.state = stateAt b.start
  isStart : ∀ b ∈ bs, IsStart start width size b.start
  complete : ∀ c, IsStart start width size c → c < last → ∃ b ∈ bs, b.start = c
  outside : ∀ c, ¬(start ≤ c ∧ c < last) → line' c = line c

section
variable {draw : σ → Int → Int → (Int → α) → Option (Int → α)} {next : σ → Int → σ}
  {size last : Int}

/-- Every block of at least one column is drawn, and nothing beside it. -/
def DrawsInside (draw : σ → Int → Int → (Int → α) → Option (Int → α)) : Prop :=
  ∀ s start width line, 1 ≤ width → ∃ line', draw s start width line = some line' ∧
    ∀ c, ¬(start ≤ c ∧ c < start + width) → line' c = line c

theorem blocks_spec (fuel : Nat) (hdraw : DrawsInside draw) (hsize : 1 ≤ size)
    {stateAt : Int → σ} {width start lo : Int} (line : Int → α) (hwidth : 1 ≤ width) (hlo : lo ≤ start)
    (hlast : start < last) (hfuel : last - start ≤ fuel)
    (hnext : ∀ c w, lo ≤ c → 1 ≤ w → c + w ≤ last → next (stateAt c) w = stateAt (c + w)) :
    ∃ bs line', blocks draw next size last fuel width start (stateAt start) line =
      some (bs, line') ∧ Cut start width size last stateAt line bs line' := by
  induction fuel generalizing width start line with
  | zero => omega
  | succ fuel ih =>
      obtain ⟨w, hw⟩ : ∃ w, min width (last - start) = w := ⟨_, rfl⟩
      have hw1 : 1 ≤ w := by omega
      obtain ⟨line₁, hrun, hkeep⟩ := hdraw (stateAt start) start w line hw1
      rw [blocks]
      simp only [hw, hrun, Option.bind_eq_bind, Option.bind_some]
      by_cases hmore : last - (start + w) ≠ 0
      · have hwidth' : w = width := by omega
        rw [if_pos hmore, hnext start w hlo hw1 (by omega)]
        obtain ⟨bs, line₂, hrun₂, hcut⟩ := ih line₁ hsize (show lo ≤ start + w by omega)
          (by omega) (by omega)
        rw [hrun₂]
        refine ⟨_, _, rfl, ?_, ?_, ?_, ?_, ?_⟩
        · intro b hb
          rcases List.mem_cons.mp hb with rfl | hb
          · exact ⟨le_refl _, hw1, by dsimp only; omega⟩
          · have hin := hcut.inside b hb
            exact ⟨by omega, hin.2⟩
        · intro b hb
          rcases List.mem_cons.mp hb with rfl | hb
          · rfl
          · exact hcut.state b hb
        · intro b hb
          rcases List.mem_cons.mp hb with rfl | hb
          · exact .inl rfl
          · have hs := (hcut.isStart b hb).of_next
            rwa [hwidth'] at hs
        · intro c hc hlt
          by_cases heq : c = start
          · exact ⟨_, List.mem_cons_self, heq.symm⟩
          · have hs := hc.next heq
            rw [← hwidth'] at hs
            obtain ⟨b, hb, hbc⟩ := hcut.complete c hs hlt
            exact ⟨b, List.mem_cons_of_mem _ hb, hbc⟩
        · intro c hc
          change line₂ c = line c
          rw [hcut.outside c (by omega), hkeep c (by omega)]
      · rw [if_neg hmore]
        refine ⟨_, _, rfl, ?_, ?_, ?_, ?_, ?_⟩
        · intro b hb
          rw [List.mem_singleton.mp hb]
          exact ⟨le_refl _, hw1, by dsimp only; omega⟩
        · intro b hb
          rw [List.mem_singleton.mp hb]
        · intro b hb
          rw [List.mem_singleton.mp hb]
          exact .inl rfl
        · intro c hc hlt
          refine ⟨_, List.mem_singleton.mpr rfl, ?_⟩
          obtain rfl | ⟨k, rfl⟩ := hc
          · rfl
          · have hk : 0 ≤ (k : Int) * size := Int.mul_nonneg (by omega) (by omega)
            omega
        · intro c hc
          exact hkeep c (by omega)

theorem blocks_mono {fuel fuel' : Nat} (hle : fuel ≤ fuel') {width start : Int} {s : σ}
    {line : Int → α} {r : List (Block σ) × (Int → α)}
    (h : blocks draw next size last fuel width start s line = some r) :
    blocks draw next size last fuel' width start s line = some r := by
  induction fuel generalizing fuel' width start s line r with
  | zero => cases h
  | succ fuel ih =>
      obtain ⟨more, rfl⟩ : ∃ more, fuel' = more + 1 := ⟨fuel' - 1, by omega⟩
      rw [blocks] at h ⊢
      simp only [Option.bind_eq_bind] at h ⊢
      obtain ⟨line₁, hdraw, h⟩ := Option.bind_eq_some_iff.mp h
      rw [hdraw, Option.bind_some]
      split at h
      · rename_i hmore
        obtain ⟨r', hrest, h⟩ := Option.bind_eq_some_iff.mp h
        rw [if_pos hmore, ih (by omega) hrest]
        exact h
      · rename_i hmore
        rw [if_neg hmore]
        exact h

/-- A first block without columns is in the list, if there is one. -/
theorem blocks_first {fuel : Nat} {width start : Int} {s : σ} {line line' : Int → α}
    {bs : List (Block σ)}
    (h : blocks draw next size last fuel width start s line = some (bs, line')) :
    ∃ b ∈ bs, b.width = min width (last - start) := by
  cases fuel with
  | zero => cases h
  | succ fuel =>
      rw [blocks] at h
      simp only [Option.bind_eq_bind] at h
      obtain ⟨line₁, -, h⟩ := Option.bind_eq_some_iff.mp h
      split at h
      · obtain ⟨⟨bs', line₂⟩, -, h⟩ := Option.bind_eq_some_iff.mp h
        cases h
        exact ⟨_, List.mem_cons_self, rfl⟩
      · cases h
        exact ⟨_, List.mem_singleton.mpr rfl, rfl⟩

end

end SnesRecomp.Columns
