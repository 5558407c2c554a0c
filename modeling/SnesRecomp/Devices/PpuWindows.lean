import SnesRecomp.Lib.Bits
import SnesRecomp.Lib.Spans
import SnesRecomp.Runtime.CpuState
import Mathlib.Tactic.Cases

/-!
# The window spans of a scanline

`PpuWindows_Calc` of `ppu.c` cuts a scanline where the two windows of a layer begin and end.
The edges stand in an array of six, the new ones are put in at the end or shifted in, and the
ends of each window are then searched for by value.  An access outside the array is `none`
here; `ppuWindowsCalc_partition` says there is none, and that the spans are a partition of
the line on which the bits are the union of the windows.
-/

namespace SnesRecomp

open Bits Spans

/-! ### The source -/

/-- What `PpuWindows_Calc` reads of the `Ppu`. -/
structure PpuWindowRegs where
  windowsel : BitVec 32
  window1left : Byte
  window1right : Byte
  window2left : Byte
  window2right : Byte
  extraLeftCur : Byte
  extraRightCur : Byte
  wsBg3WidenY : Byte

def kWindow1Inversed : BitVec 32 := 1
def kWindow1Enabled : BitVec 32 := 2
def kWindow2Inversed : BitVec 32 := 4
def kWindow2Enabled : BitVec 32 := 8

/-- `GET_WINDOW_FLAGS`. -/
def windowFlags (ppu : PpuWindowRegs) (layer : Nat) : BitVec 32 := ppu.windowsel >>> (layer * 4)

def ppuLayerExtra (ppu : PpuWindowRegs) (layer : Nat) (y extra : Int) : Int :=
  if layer ≠ 2 then extra
  else if ppu.wsBg3WidenY ≠ 0 ∧ (ppu.wsBg3WidenY.toNat : Int) ≤ y then extra else 0

/-- `PpuWindows`; the array holds six edges. -/
structure PpuWindows where
  edges : Nat → Int
  nr : Nat
  bits : Byte

def readEdge (edges : Nat → Int) (i : Nat) : Option Int :=
  if i < 6 then some (edges i) else none

def writeEdge (edges : Nat → Int) (i : Nat) (v : Int) : Option (Nat → Int) :=
  if i < 6 then some (Function.update edges i v) else none

/-- `win->edges[nr] = t; win->edges[++nr] = window_right;`. -/
def appendEdge (windowRight t : Int) (edges : Nat → Int) (nr : Nat) :
    Option ((Nat → Int) × Nat) := do
  let edges ← writeEdge edges nr t
  let edges ← writeEdge edges (nr + 1) windowRight
  return (edges, nr + 1)

/-- `for (; j >= i; j--) win->edges[j + 1] = win->edges[j];`.  An unsigned `j` never gets
below an `i` of zero. -/
def shiftEdges (i : Nat) : Nat → (Nat → Int) → Option (Nat → Int)
  | 0, edges => if i = 0 then none else some edges
  | j + 1, edges =>
    if i ≤ j + 1 then do
      let v ← readEdge edges (j + 1)
      let edges ← writeEdge edges (j + 2) v
      shiftEdges i j edges
    else some edges

/-- The loop that looks for the place of `t` from `i` on; it takes `turns` turns at most.
The result has the `i` the loop is left with. -/
def insertEdge (t : Int) : Nat → Nat → (Nat → Int) → Nat → Option (Nat × (Nat → Int) × Nat)
  | 0, i, edges, nr => some (i, edges, nr)
  | turns + 1, i, edges, nr => do
    let edge ← readEdge edges i
    if t = edge then some (i, edges, nr)
    else if t < edge then
      let edges ← shiftEdges i nr edges
      let edges ← writeEdge edges i t
      some (i, edges, nr + 1)
    else insertEdge t turns (i + 1) edges nr

/-- `for (; win->edges[i] != x; i++);`, which ends outside the array at the latest. -/
def findEdge (edges : Nat → Int) (x : Int) : Nat → Nat → Option Nat
  | 0, _ => none
  | fuel + 1, i => do
    let edge ← readEdge edges i
    if edge ≠ x then findEdge edges x fuel (i + 1) else some i

/-- The spans from `left` to `right`: `((1 << (j - i)) - 1) << i` in eight bits. -/
def windowBits (edges : Nat → Int) (left right : Byte) : Option Byte := do
  let i ← findEdge edges left.toNat 7 0
  let j ← findEdge edges (right.toNat + 1) 7 i
  return (((1#32 <<< (j - i)) - 1#32) <<< i).setWidth 8

/-- `if ((winflags & both) == both) bits = ~bits;`. -/
def invertBits (winflags both : BitVec 32) (bits : Byte) : Byte :=
  if winflags &&& both = both then ~~~bits else bits

/-- `w1_ena` and `w2_ena`. -/
def WindowEna (winflags enabledMask : BitVec 32) (left right : Byte) : Prop :=
  winflags &&& enabledMask ≠ 0 ∧ left ≤ right

instance (winflags enabledMask : BitVec 32) (left right : Byte) :
    Decidable (WindowEna winflags enabledMask left right) :=
  inferInstanceAs (Decidable (_ ∧ _))

/-- The edges of the first window. -/
def window1Edges (ppu : PpuWindowRegs) (windowRight : Int) (edges : Nat → Int) (nr : Nat) :
    Option ((Nat → Int) × Nat) := do
  let (edges, nr) ← (if edges 0 < ppu.window1left.toNat
    then appendEdge windowRight ppu.window1left.toNat edges nr else some (edges, nr))
  if (ppu.window1right.toNat : Int) + 1 < windowRight
  then appendEdge windowRight (ppu.window1right.toNat + 1) edges nr else some (edges, nr)

/-- The edges of the second window. -/
def window2Edges (ppu : PpuWindowRegs) (edges : Nat → Int) (nr : Nat) :
    Option ((Nat → Int) × Nat) := do
  let (i, edges, nr) ← insertEdge ppu.window2left.toNat (nr + 1) 0 edges nr
  let (_, edges, nr) ← insertEdge (ppu.window2right.toNat + 1) (nr + 1 - i) i edges nr
  return (edges, nr)

/-- `win` comes uninitialised. -/
def ppuWindowsCalc (win : PpuWindows) (ppu : PpuWindowRegs) (layer : Nat) (y : Int) :
    Option PpuWindows := do
  let winflags := windowFlags ppu layer
  let windowRight := 256 + ppuLayerExtra ppu layer y ppu.extraRightCur.toNat
  let edges ← writeEdge win.edges 0 (-ppuLayerExtra ppu layer y ppu.extraLeftCur.toNat)
  let edges ← writeEdge edges 1 windowRight
  let (edges, nr) ← (if WindowEna winflags kWindow1Enabled ppu.window1left ppu.window1right
    then window1Edges ppu windowRight edges 1 else some (edges, 1))
  let (edges, nr) ← (if WindowEna winflags kWindow2Enabled ppu.window2left ppu.window2right
    then window2Edges ppu edges nr else some (edges, nr))
  let w1Bits ← (if WindowEna winflags kWindow1Enabled ppu.window1left ppu.window1right
    then windowBits edges ppu.window1left ppu.window1right else some 0)
  let w2Bits ← (if WindowEna winflags kWindow2Enabled ppu.window2left ppu.window2right
    then windowBits edges ppu.window2left ppu.window2right else some 0)
  return ⟨edges, nr, invertBits winflags (kWindow1Enabled ||| kWindow1Inversed) w1Bits |||
    invertBits winflags (kWindow2Enabled ||| kWindow2Inversed) w2Bits⟩

/-! ### Putting in an edge -/

/-- The first `nr + 1` edges cut the line from `lo` to `hi`. -/
structure Cuts (lo hi : Int) (edges : Nat → Int) (nr : Nat) : Prop where
  first : edges 0 = lo
  last : edges nr = hi
  increasing : Increasing edges nr

theorem writeEdge_of_lt {i : Nat} (h : i < 6) (edges : Nat → Int) (v : Int) :
    writeEdge edges i v = some (Function.update edges i v) := if_pos h

theorem readEdge_of_lt {i : Nat} (h : i < 6) (edges : Nat → Int) :
    readEdge edges i = some (edges i) := if_pos h

theorem shiftEdges_spec {i j : Nat} (hi : 0 < i) (hij : i ≤ j + 1) (hj : j + 1 < 6)
    (edges : Nat → Int) : ∃ edges', shiftEdges i j edges = some edges' ∧
      ∀ k, edges' k = if i < k ∧ k ≤ j + 1 then edges (k - 1) else edges k := by
  induction j generalizing edges with
  | zero =>
      refine ⟨edges, if_neg (by omega), fun k => ?_⟩
      rw [if_neg (by omega)]
  | succ j ih =>
      by_cases hle : i ≤ j + 1
      · obtain ⟨edges', hrun, hval⟩ :=
          ih hle (by omega) (Function.update edges (j + 2) (edges (j + 1)))
        refine ⟨edges', ?_, fun k => ?_⟩
        · rw [shiftEdges, if_pos hle, readEdge_of_lt (by omega)]
          simp only [Option.bind_eq_bind, Option.bind_some]
          rw [writeEdge_of_lt (by omega)]
          exact hrun
        · rw [hval k]
          by_cases hlast : k = j + 2
          · rw [hlast, if_neg (by omega), if_pos (by omega), Function.update_self]
            rfl
          · by_cases hin : i < k ∧ k ≤ j + 1
            · rw [if_pos hin, if_pos (by omega), Function.update_of_ne (by omega)]
            · rw [if_neg hin, if_neg (by omega), Function.update_of_ne hlast]
      · refine ⟨edges, ?_, fun k => ?_⟩
        · rw [shiftEdges, if_neg hle]
        · rw [if_neg (by omega)]

/-- `edges'` has `t` as an edge besides those of `edges`, at most one edge more. -/
structure Added (lo hi t : Int) (edges : Nat → Int) (nr : Nat) (edges' : Nat → Int)
    (nr' : Nat) : Prop where
  cuts : Cuts lo hi edges' nr'
  le : nr ≤ nr'
  le_succ : nr' ≤ nr + 1
  marked : ∀ x, Marked edges' nr' x ↔ Marked edges nr x ∨ x = t

/-- An edge that is there already. -/
theorem Cuts.added_self {lo hi t : Int} {edges : Nat → Int} {nr : Nat}
    (h : Cuts lo hi edges nr) (ht : Marked edges nr t) : Added lo hi t edges nr edges nr where
  cuts := h
  le := le_refl nr
  le_succ := Nat.le_succ nr
  marked := by
    intro x
    constructor
    · exact Or.inl
    · rintro (hx | rfl)
      · exact hx
      · exact ht

/-- An edge between two others. -/
theorem Cuts.added_insertAt {lo hi t : Int} {edges edges' : Nat → Int} {nr i : Nat}
    (h : Cuts lo hi edges nr) (hi' : i + 1 ≤ nr) (hlo : edges i < t) (hhi : t < edges (i + 1))
    (heq : ∀ k ≤ nr + 1, edges' k = insertAt edges (i + 1) t k) :
    Added lo hi t edges nr edges' (nr + 1) where
  cuts := {
    first := by rw [heq 0 (by omega), insertAt_of_lt edges t (by omega), h.first]
    last := by rw [heq (nr + 1) (le_refl _), insertAt_of_le edges t hi', h.last]
    increasing := (h.increasing.insertAt hi' hlo hhi).congr heq }
  le := Nat.le_succ nr
  le_succ := le_refl _
  marked := by
    intro x
    rw [Marked.congr heq, marked_insertAt (by omega)]

theorem appendEdge_spec {lo hi t : Int} {edges : Nat → Int} {n : Nat}
    (h : Cuts lo hi edges (n + 1)) (hn : n + 2 < 6) (hlo : edges n < t) (hhi : t < hi) :
    ∃ edges', appendEdge hi t edges (n + 1) = some (edges', n + 2) ∧ edges' (n + 1) = t ∧
      Added lo hi t edges (n + 1) edges' (n + 2) := by
  refine ⟨Function.update (Function.update edges (n + 1) t) (n + 2) hi, ?_, ?_, ?_⟩
  · simp only [appendEdge, writeEdge_of_lt (show n + 1 < 6 by omega),
      writeEdge_of_lt (show n + 1 + 1 < 6 by omega), Option.bind_eq_bind, Option.bind_some]
    rfl
  · rw [Function.update_of_ne (by omega), Function.update_self]
  · apply h.added_insertAt (i := n) (le_refl _) hlo (by rw [h.last]; exact hhi)
    intro k hk
    by_cases hlast : k = n + 2
    · rw [hlast, Function.update_self, insertAt_of_le edges t (le_refl _), h.last]
    · rw [Function.update_of_ne hlast]
      by_cases hself : k = n + 1
      · rw [hself, Function.update_self, insertAt_self]
      · rw [Function.update_of_ne hself, insertAt_of_lt edges t (by omega)]

theorem insertEdge_spec {lo hi t : Int} {edges : Nat → Int} {nr turns i : Nat}
    (h : Cuts lo hi edges nr) (hnr : nr + 1 < 6) (hlo : lo ≤ t) (hhi : t ≤ hi)
    (hturns : turns = nr + 1 - i) (hi' : i ≤ nr) (hbelow : ∀ k < i, edges k < t) :
    ∃ i' edges' nr', insertEdge t turns i edges nr = some (i', edges', nr') ∧ i' ≤ nr' ∧
      edges' i' = t ∧ Added lo hi t edges nr edges' nr' := by
  induction turns generalizing i with
  | zero => omega
  | succ turns ih =>
      rw [insertEdge, readEdge_of_lt (by omega), Option.bind_eq_bind, Option.bind_some]
      by_cases hself : t = edges i
      · rw [if_pos hself]
        exact ⟨i, edges, nr, rfl, hi', hself.symm, h.added_self ⟨i, hi', hself.symm⟩⟩
      · rw [if_neg hself]
        by_cases hlt : t < edges i
        · rw [if_pos hlt]
          obtain ⟨m, rfl⟩ : ∃ m, i = m + 1 := by
            refine ⟨i - 1, ?_⟩
            by_contra hzero
            have hi0 : i = 0 := by omega
            rw [hi0, h.first] at hlt
            omega
          obtain ⟨edges', hrun, hval⟩ :=
            shiftEdges_spec (Nat.succ_pos m) (show m + 1 ≤ nr + 1 by omega) hnr edges
          rw [hrun, Option.bind_eq_bind, Option.bind_some, writeEdge_of_lt (by omega),
            Option.bind_some]
          refine ⟨m + 1, _, nr + 1, rfl, by omega, Function.update_self .., ?_⟩
          apply h.added_insertAt hi' (hbelow m (by omega)) hlt
          intro k hk
          by_cases hk' : k = m + 1
          · rw [hk', Function.update_self, insertAt_self]
          · rw [Function.update_of_ne hk', hval k]
            by_cases hup : m + 1 < k
            · obtain ⟨l, rfl⟩ : ∃ l, k = l + 1 := ⟨k - 1, by omega⟩
              rw [if_pos ⟨hup, hk⟩, insertAt_of_le edges t (by omega)]
              rfl
            · rw [if_neg (by omega), insertAt_of_lt edges t (by omega)]
        · rw [if_neg hlt]
          have hlast : i ≠ nr := by
            intro heq
            rw [heq, h.last] at hself hlt
            omega
          apply ih (by omega) (by omega)
          intro k hk
          by_cases hk' : k = i
          · rw [hk']
            omega
          · exact hbelow k (by omega)

/-! ### The bits -/

theorem findEdge_spec {edges : Nat → Int} {nr : Nat} (h : Increasing edges nr) (hnr : nr < 6)
    {k : Nat} (hk : k ≤ nr) {fuel i : Nat} (hi : i ≤ k) (hfuel : k < i + fuel) :
    findEdge edges (edges k) fuel i = some k := by
  induction fuel generalizing i with
  | zero => omega
  | succ fuel ih =>
      rw [findEdge, readEdge_of_lt (by omega), Option.bind_eq_bind, Option.bind_some]
      by_cases heq : i = k
      · rw [heq, if_neg (by simp)]
      · have hlt := h.lt (show i < k by omega) hk
        rw [if_pos (ne_of_lt hlt)]
        exact ih (by omega) (by omega)

theorem spanMask_getLsbD : ∀ i j : Fin 6, ∀ k : Fin 5, i ≤ j →
    ((((1#32 <<< (j.val - i.val)) - 1#32) <<< i.val).setWidth 8).getLsbD k.val =
      (decide (i.val ≤ k.val) && decide (k.val < j.val)) := by
  decide

/-- Bit `k` says whether the columns of span `k` are in the window. -/
theorem windowBits_spec {edges : Nat → Int} {nr : Nat} (h : Increasing edges nr) (hnr : nr < 6)
    {left right : Byte} (hle : left ≤ right) (hleft : Marked edges nr left.toNat)
    (hright : Marked edges nr (right.toNat + 1)) :
    ∃ bits, windowBits edges left right = some bits ∧
      ∀ k < nr, ∀ c, edges k ≤ c → c < edges (k + 1) →
        bits.getLsbD k = (decide ((left.toNat : Int) ≤ c) && decide (c ≤ right.toNat)) := by
  obtain ⟨i, hi, hil⟩ := hleft
  obtain ⟨j, hj, hjr⟩ := hright
  have hnat : left.toNat ≤ right.toNat := hle
  have hij : i < j := (h.lt_iff hi hj).mp (by omega)
  refine ⟨(((1#32 <<< (j - i)) - 1#32) <<< i).setWidth 8, ?_, fun k hk c hlo hhi => ?_⟩
  · rw [windowBits, ← hil, findEdge_spec h hnr hi (Nat.zero_le i) (by omega), ← hjr]
    simp only [Option.bind_eq_bind, Option.bind_some]
    rw [findEdge_spec h hnr hj (by omega) (by omega)]
    rfl
  · rw [spanMask_getLsbD ⟨i, by omega⟩ ⟨j, by omega⟩ ⟨k, by omega⟩ (by
      rw [Fin.mk_le_mk]
      omega)]
    have hin := h.edge_le_iff hi hk hlo hhi
    have hout := h.edge_le_iff hj hk hlo hhi
    rw [hil] at hin
    rw [hjr] at hout
    congr 1
    · exact decide_eq_decide.mpr hin.symm
    · have hiff : k < j ↔ c ≤ right.toNat := by omega
      exact decide_eq_decide.mpr hiff

/-! ### The windows of the layer -/

/-- The edges of a window are there, when it is not empty. -/
def HasWindow (left right : Byte) (edges : Nat → Int) (nr : Nat) : Prop :=
  Marked edges nr left.toNat ∧ Marked edges nr (right.toNat + 1)

theorem window1Edges_spec {ppu : PpuWindowRegs} {lo hi : Int} {edges : Nat → Int}
    (hlo : lo ≤ 0) (hhi : 256 ≤ hi) (h : Cuts lo hi edges 1)
    (hw : ppu.window1left ≤ ppu.window1right) :
    ∃ edges' nr', window1Edges ppu hi edges 1 = some (edges', nr') ∧ Cuts lo hi edges' nr' ∧
      1 ≤ nr' ∧ nr' ≤ 3 ∧ HasWindow ppu.window1left ppu.window1right edges' nr' := by
  have hl := ppu.window1left.isLt
  have hr := ppu.window1right.isLt
  have hnat : ppu.window1left.toNat ≤ ppu.window1right.toNat := hw
  -- the left edge, unless the line begins there
  obtain ⟨edges₁, n, hrun₁, hadd₁, hprev⟩ : ∃ edges₁ n,
      (if edges 0 < ppu.window1left.toNat
        then appendEdge hi ppu.window1left.toNat edges 1 else some (edges, 1)) =
          some (edges₁, n + 1) ∧
      Added lo hi ppu.window1left.toNat edges 1 edges₁ (n + 1) ∧
      edges₁ n = ppu.window1left.toNat := by
    by_cases hleft : edges 0 < ppu.window1left.toNat
    · rw [if_pos hleft]
      obtain ⟨edges₁, hrun, hat, hadd⟩ :=
        appendEdge_spec h (by omega) hleft (show (ppu.window1left.toNat : Int) < hi by omega)
      exact ⟨edges₁, 1, hrun, hadd, hat⟩
    · rw [if_neg hleft]
      have hzero : edges 0 = ppu.window1left.toNat := by
        have hfirst := h.first
        omega
      exact ⟨edges, 0, rfl, h.added_self ⟨0, by omega, hzero⟩, hzero⟩
  have hmark : Marked edges₁ (n + 1) ppu.window1left.toNat := (hadd₁.marked _).mpr (.inr rfl)
  have hn := hadd₁.le_succ
  -- the right edge, unless the line ends there
  by_cases hright : (ppu.window1right.toNat : Int) + 1 < hi
  · obtain ⟨edges₂, hrun₂, _, hadd₂⟩ := appendEdge_spec hadd₁.cuts (by omega)
      (show edges₁ n < (ppu.window1right.toNat : Int) + 1 by omega) hright
    refine ⟨edges₂, n + 2, ?_, hadd₂.cuts, by omega, by omega, (hadd₂.marked _).mpr (.inl hmark),
      (hadd₂.marked _).mpr (.inr rfl)⟩
    rw [window1Edges, hrun₁]
    simp only [Option.bind_eq_bind, Option.bind_some]
    rw [if_pos hright]
    exact hrun₂
  · refine ⟨edges₁, n + 1, ?_, hadd₁.cuts, by omega, by omega, hmark, n + 1, le_refl _, ?_⟩
    · rw [window1Edges, hrun₁]
      simp only [Option.bind_eq_bind, Option.bind_some]
      rw [if_neg hright]
    · have hlast := hadd₁.cuts.last
      omega

theorem window2Edges_spec {ppu : PpuWindowRegs} {lo hi : Int} {edges : Nat → Int} {nr : Nat}
    (hlo : lo ≤ 0) (hhi : 256 ≤ hi) (h : Cuts lo hi edges nr) (hnr : nr ≤ 3)
    (hw : ppu.window2left ≤ ppu.window2right) :
    ∃ edges' nr', window2Edges ppu edges nr = some (edges', nr') ∧ Cuts lo hi edges' nr' ∧
      nr ≤ nr' ∧ nr' ≤ 5 ∧ HasWindow ppu.window2left ppu.window2right edges' nr' ∧
      ∀ x, Marked edges nr x → Marked edges' nr' x := by
  have hl := ppu.window2left.isLt
  have hr := ppu.window2right.isLt
  have hnat : ppu.window2left.toNat ≤ ppu.window2right.toNat := hw
  obtain ⟨i, edges₁, nr₁, hrun₁, hi, hat, hadd₁⟩ := insertEdge_spec h (by omega)
    (show lo ≤ (ppu.window2left.toNat : Int) by omega) (by omega) (Nat.sub_zero (nr + 1)).symm
    (Nat.zero_le nr) (fun k hk => absurd hk (Nat.not_lt_zero k))
  have hle₁ := hadd₁.le
  have hsucc₁ := hadd₁.le_succ
  obtain ⟨j, edges₂, nr₂, hrun₂, _, _, hadd₂⟩ := insertEdge_spec hadd₁.cuts (by omega)
    (show lo ≤ (ppu.window2right.toNat : Int) + 1 by omega) (by omega) rfl hi (by
      intro k hk
      have hlt := hadd₁.cuts.increasing.lt hk hi
      omega)
  have hle₂ := hadd₂.le
  have hsucc₂ := hadd₂.le_succ
  refine ⟨edges₂, nr₂, ?_, hadd₂.cuts, by omega, by omega, ⟨?_, ?_⟩, ?_⟩
  · rw [window2Edges, hrun₁]
    simp only [Option.bind_eq_bind, Option.bind_some]
    rw [hrun₂]
    rfl
  · exact (hadd₂.marked _).mpr (.inl ((hadd₁.marked _).mpr (.inr rfl)))
  · exact (hadd₂.marked _).mpr (.inr rfl)
  · intro x hx
    exact (hadd₂.marked x).mpr (.inl ((hadd₁.marked x).mpr (.inl hx)))

/-- Whether column `c` is in a window after its inversion. -/
def inWindow (enabled inversed : Bool) (left right : Byte) (c : Int) : Bool :=
  enabled && ((decide ((left.toNat : Int) ≤ c) && decide (c ≤ right.toNat)) != inversed)

/-- Whether column `c` is in one of the windows of the layer. -/
def inLayerWindows (ppu : PpuWindowRegs) (layer : Nat) (c : Int) : Bool :=
  inWindow ((windowFlags ppu layer).getLsbD 1) ((windowFlags ppu layer).getLsbD 0)
      ppu.window1left ppu.window1right c ||
    inWindow ((windowFlags ppu layer).getLsbD 3) ((windowFlags ppu layer).getLsbD 2)
      ppu.window2left ppu.window2right c

/-- The two flags of a window. -/
structure WindowFlags (flags enabledMask inversedMask : BitVec 32) (enabled inversed : Bool) :
    Prop where
  isEnabled : flags &&& enabledMask ≠ 0 ↔ enabled = true
  isBoth : flags &&& (enabledMask ||| inversedMask) = enabledMask ||| inversedMask ↔
    enabled = true ∧ inversed = true

theorem windowFlags_twoPow {j k : Nat} (hj : j < 32) (hk : k < 32) (flags : BitVec 32) :
    WindowFlags flags (BitVec.twoPow 32 j) (BitVec.twoPow 32 k) (flags.getLsbD j)
      (flags.getLsbD k) where
  isEnabled := by
    rw [← and_twoPow_ne_zero hj, bne_iff_ne]
    exact Iff.rfl
  isBoth := by
    constructor
    · intro h
      have hbit : ∀ i, (flags &&& (BitVec.twoPow 32 j ||| BitVec.twoPow 32 k)).getLsbD i =
          (BitVec.twoPow 32 j ||| BitVec.twoPow 32 k).getLsbD i := by
        intro i
        rw [h]
      have h1 := hbit j
      have h2 := hbit k
      simp only [BitVec.getLsbD_and, BitVec.getLsbD_or, getLsbD_twoPow_self hj,
        getLsbD_twoPow_self hk, Bool.true_or, Bool.or_true, Bool.and_true] at h1 h2
      exact ⟨h1, h2⟩
    · rintro ⟨h1, h2⟩
      apply BitVec.eq_of_getLsbD_eq
      intro i hi
      rw [BitVec.getLsbD_and]
      by_cases hij : i = j
      · rw [hij, h1, Bool.true_and]
      · by_cases hik : i = k
        · rw [hik, h2, Bool.true_and]
        · have hzero : (BitVec.twoPow 32 j ||| BitVec.twoPow 32 k).getLsbD i = false := by
            simp only [BitVec.getLsbD_or, BitVec.getLsbD_twoPow]
            simp [Ne.symm hij, Ne.symm hik]
          rw [hzero, Bool.and_false]

/-- The mask of one window, from the one of its edges. -/
theorem invertBits_spec {flags enabledMask inversedMask : BitVec 32} {enabled inversed : Bool}
    (hflags : WindowFlags flags enabledMask inversedMask enabled inversed) {left right : Byte}
    {edges : Nat → Int} {nr : Nat} (h : Increasing edges nr) (hnr : nr ≤ 5)
    (hmark : enabled = true → left ≤ right → HasWindow left right edges nr) :
    ∃ bits, (if WindowEna flags enabledMask left right then windowBits edges left right
        else some 0) = some bits ∧
      ∀ k < nr, ∀ c, edges k ≤ c → c < edges (k + 1) →
        (invertBits flags (enabledMask ||| inversedMask) bits).getLsbD k =
          inWindow enabled inversed left right c := by
  have hcalc : ∃ bits, (if WindowEna flags enabledMask left right then
        windowBits edges left right else some 0) = some bits ∧
      ∀ k < nr, ∀ c, edges k ≤ c → c < edges (k + 1) → bits.getLsbD k =
        (enabled && (decide ((left.toNat : Int) ≤ c) && decide (c ≤ right.toNat))) := by
    by_cases hena : enabled = true
    · by_cases hle : left ≤ right
      · rw [if_pos ⟨hflags.isEnabled.mpr hena, hle⟩]
        obtain ⟨hleft, hright⟩ := hmark hena hle
        obtain ⟨bits, hbits, hval⟩ := windowBits_spec h (by omega) hle hleft hright
        refine ⟨bits, hbits, fun k hk c hlo hhi => ?_⟩
        rw [hval k hk c hlo hhi, hena, Bool.true_and]
      · have hnat : right.toNat < left.toNat := Nat.lt_of_not_le hle
        rw [if_neg (fun hif => hle hif.2)]
        refine ⟨0#8, rfl, fun k _ c _ _ => ?_⟩
        rw [BitVec.getLsbD_zero]
        by_cases hin : (left.toNat : Int) ≤ c
        · rw [decide_eq_false (show ¬c ≤ right.toNat by omega), Bool.and_false, Bool.and_false]
        · rw [decide_eq_false hin, Bool.false_and, Bool.and_false]
    · rw [if_neg (fun hif => hena (hflags.isEnabled.mp hif.1))]
      refine ⟨0#8, rfl, fun k _ c _ _ => ?_⟩
      rw [BitVec.getLsbD_zero, Bool.eq_false_iff.mpr hena, Bool.false_and]
  obtain ⟨bits, hbits, hval⟩ := hcalc
  refine ⟨bits, hbits, fun k hk c hlo hhi => ?_⟩
  have hbit := hval k hk c hlo hhi
  rw [invertBits, inWindow]
  by_cases hinv : enabled = true ∧ inversed = true
  · rw [if_pos (hflags.isBoth.mpr hinv), BitVec.getLsbD_not, hbit, hinv.1, hinv.2,
      decide_eq_true (show k < 8 by omega)]
    simp
  · rw [if_neg (fun hif => hinv (hflags.isBoth.mp hif)), hbit]
    by_cases hena : enabled = true
    · rw [Bool.eq_false_iff.mpr (fun hi => hinv ⟨hena, hi⟩), Bool.bne_false]
    · rw [Bool.eq_false_iff.mpr hena, Bool.false_and, Bool.false_and]

/-! ### The partition -/

theorem ppuLayerExtra_nonneg (ppu : PpuWindowRegs) (layer : Nat) (y : Int) (extra : Byte) :
    0 ≤ ppuLayerExtra ppu layer y extra.toNat := by
  rw [ppuLayerExtra]
  split
  · omega
  · split
    · omega
    · omega

/-- The first window, when it is enabled. -/
theorem window1Stage_spec {ppu : PpuWindowRegs} {flags inversedMask : BitVec 32}
    {enabled inversed : Bool}
    (hflags : WindowFlags flags kWindow1Enabled inversedMask enabled inversed)
    {lo hi : Int} {edges : Nat → Int} (hlo : lo ≤ 0) (hhi : 256 ≤ hi) (h : Cuts lo hi edges 1) :
    ∃ edges' nr', (if WindowEna flags kWindow1Enabled ppu.window1left ppu.window1right then
        window1Edges ppu hi edges 1 else some (edges, 1)) = some (edges', nr') ∧
      Cuts lo hi edges' nr' ∧ 1 ≤ nr' ∧ nr' ≤ 3 ∧
      (enabled = true → ppu.window1left ≤ ppu.window1right →
        HasWindow ppu.window1left ppu.window1right edges' nr') := by
  by_cases hif : WindowEna flags kWindow1Enabled ppu.window1left ppu.window1right
  · rw [if_pos hif]
    obtain ⟨edges', nr', hrun, hcuts, hle, hthree, hmark⟩ := window1Edges_spec hlo hhi h hif.2
    exact ⟨edges', nr', hrun, hcuts, hle, hthree, fun _ _ => hmark⟩
  · rw [if_neg hif]
    refine ⟨edges, 1, rfl, h, le_refl 1, by omega, fun hena hw => ?_⟩
    exact absurd ⟨hflags.isEnabled.mpr hena, hw⟩ hif

/-- The second window, when it is enabled. -/
theorem window2Stage_spec {ppu : PpuWindowRegs} {flags inversedMask : BitVec 32}
    {enabled inversed : Bool}
    (hflags : WindowFlags flags kWindow2Enabled inversedMask enabled inversed)
    {lo hi : Int} {edges : Nat → Int} {nr : Nat} (hlo : lo ≤ 0) (hhi : 256 ≤ hi)
    (h : Cuts lo hi edges nr) (hnr : nr ≤ 3) :
    ∃ edges' nr', (if WindowEna flags kWindow2Enabled ppu.window2left ppu.window2right then
        window2Edges ppu edges nr else some (edges, nr)) = some (edges', nr') ∧
      Cuts lo hi edges' nr' ∧ nr ≤ nr' ∧ nr' ≤ 5 ∧
      (enabled = true → ppu.window2left ≤ ppu.window2right →
        HasWindow ppu.window2left ppu.window2right edges' nr') ∧
      ∀ x, Marked edges nr x → Marked edges' nr' x := by
  by_cases hif : WindowEna flags kWindow2Enabled ppu.window2left ppu.window2right
  · rw [if_pos hif]
    obtain ⟨edges', nr', hrun, hcuts, hle, hfive, hmark, hkeep⟩ :=
      window2Edges_spec hlo hhi h hnr hif.2
    exact ⟨edges', nr', hrun, hcuts, hle, hfive, fun _ _ => hmark, hkeep⟩
  · rw [if_neg hif]
    refine ⟨edges, nr, rfl, h, le_refl nr, by omega, fun hena hw => ?_, fun x hx => hx⟩
    exact absurd ⟨hflags.isEnabled.mpr hena, hw⟩ hif

/-- The spans that `PpuWindows_Calc` leaves, whatever the registers. -/
theorem ppuWindowsCalc_cuts (win : PpuWindows) (ppu : PpuWindowRegs) (layer : Nat) (y : Int) :
    ∃ w, ppuWindowsCalc win ppu layer y = some w ∧ 1 ≤ w.nr ∧ w.nr ≤ 5 ∧
      Cuts (-ppuLayerExtra ppu layer y ppu.extraLeftCur.toNat)
        (256 + ppuLayerExtra ppu layer y ppu.extraRightCur.toNat) w.edges w.nr ∧
      ∀ k < w.nr, ∀ c, w.edges k ≤ c → c < w.edges (k + 1) →
        w.bits.getLsbD k = inLayerWindows ppu layer c := by
  have hleft := ppuLayerExtra_nonneg ppu layer y ppu.extraLeftCur
  have hright := ppuLayerExtra_nonneg ppu layer y ppu.extraRightCur
  obtain ⟨lo, hlo⟩ : ∃ lo, -ppuLayerExtra ppu layer y ppu.extraLeftCur.toNat = lo := ⟨_, rfl⟩
  obtain ⟨hi, hhi⟩ : ∃ hi, 256 + ppuLayerExtra ppu layer y ppu.extraRightCur.toNat = hi :=
    ⟨_, rfl⟩
  rw [hlo, hhi]
  have hflags1 : WindowFlags (windowFlags ppu layer) kWindow1Enabled kWindow1Inversed _ _ :=
    windowFlags_twoPow (show 1 < 32 by omega) (show 0 < 32 by omega) _
  have hflags2 : WindowFlags (windowFlags ppu layer) kWindow2Enabled kWindow2Inversed _ _ :=
    windowFlags_twoPow (show 3 < 32 by omega) (show 2 < 32 by omega) _
  obtain ⟨edges₀, hedges₀⟩ : ∃ e, Function.update (Function.update win.edges 0 lo) 1 hi = e :=
    ⟨_, rfl⟩
  have hcuts₀ : Cuts lo hi edges₀ 1 := by
    rw [← hedges₀]
    refine ⟨by simp, by simp, fun k hk => ?_⟩
    rw [show k = 0 by omega]
    simp only [Nat.zero_add, Function.update_self, ne_eq, Nat.zero_ne_one, not_false_eq_true,
      Function.update_of_ne]
    omega
  obtain ⟨edges₁, nr₁, hrun₁, hcuts₁, hone, hthree, hmark₁⟩ := window1Stage_spec hflags1
    (show lo ≤ 0 by omega) (show 256 ≤ hi by omega) hcuts₀
  obtain ⟨edges₂, nr₂, hrun₂, hcuts₂, hle, hfive, hmark₂, hkeep⟩ := window2Stage_spec hflags2
    (show lo ≤ 0 by omega) (show 256 ≤ hi by omega) hcuts₁ hthree
  obtain ⟨bits1, hbits1, hval1⟩ := invertBits_spec hflags1 hcuts₂.increasing hfive
    (fun hena hw => ⟨hkeep _ (hmark₁ hena hw).1, hkeep _ (hmark₁ hena hw).2⟩)
  obtain ⟨bits2, hbits2, hval2⟩ := invertBits_spec hflags2 hcuts₂.increasing hfive hmark₂
  refine ⟨⟨edges₂, nr₂,
      invertBits (windowFlags ppu layer) (kWindow1Enabled ||| kWindow1Inversed) bits1 |||
        invertBits (windowFlags ppu layer) (kWindow2Enabled ||| kWindow2Inversed) bits2⟩,
    ?_, show 1 ≤ nr₂ by omega, hfive, hcuts₂, fun k hk c hkc hck => ?_⟩
  · simp only [ppuWindowsCalc, hlo, hhi, writeEdge_of_lt (show 0 < 6 by omega),
      writeEdge_of_lt (show 1 < 6 by omega), Option.bind_eq_bind, Option.bind_some, hedges₀]
    rw [hrun₁]
    simp only [Option.bind_some]
    rw [hrun₂]
    simp only [Option.bind_some]
    rw [hbits1, hbits2]
    rfl
  · rw [BitVec.getLsbD_or, hval1 k hk c hkc hck, hval2 k hk c hkc hck]
    rfl

/-- **The spans are a partition of the line on which the bits are the union of the windows**:
whatever the registers, no access leaves the array, there are at most five spans, their edges
increase from the left margin to the right one, and every column lies in exactly one span,
whose bit says whether the column is in one of the windows of the layer. -/
theorem ppuWindowsCalc_partition (win : PpuWindows) (ppu : PpuWindowRegs) (layer : Nat)
    (y : Int) :
    ∃ w, ppuWindowsCalc win ppu layer y = some w ∧ 1 ≤ w.nr ∧ w.nr ≤ 5 ∧
      w.edges 0 = -ppuLayerExtra ppu layer y ppu.extraLeftCur.toNat ∧
      w.edges w.nr = 256 + ppuLayerExtra ppu layer y ppu.extraRightCur.toNat ∧
      (∀ k < w.nr, w.edges k < w.edges (k + 1)) ∧
      (∀ k < w.nr, ∀ c, w.edges k ≤ c → c < w.edges (k + 1) →
        w.bits.getLsbD k = inLayerWindows ppu layer c) ∧
      ∀ c, -ppuLayerExtra ppu layer y ppu.extraLeftCur.toNat ≤ c →
        c < 256 + ppuLayerExtra ppu layer y ppu.extraRightCur.toNat →
        ∃! k, k < w.nr ∧ w.edges k ≤ c ∧ c < w.edges (k + 1) := by
  obtain ⟨w, hrun, hone, hfive, hcuts, hbits⟩ := ppuWindowsCalc_cuts win ppu layer y
  refine ⟨w, hrun, hone, hfive, hcuts.first, hcuts.last, hcuts.increasing, hbits, ?_⟩
  intro c hlo hhi
  rw [← hcuts.first] at hlo
  rw [← hcuts.last] at hhi
  obtain ⟨k, hk, hspan⟩ := hcuts.increasing.exists_span hlo hhi
  refine ⟨k, ⟨hk, hspan⟩, ?_⟩
  rintro j ⟨hj, hspan'⟩
  exact hcuts.increasing.span_unique hj hk hspan' hspan

end SnesRecomp
