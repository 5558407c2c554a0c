import Mathlib.Algebra.Ring.Nat
import Mathlib.Data.List.Basic
import Mathlib.Tactic.Cases

/-!
# Raw byte ranges

Objects are blocks of bytes.  A saver writes some ranges of them to a file one after the other,
and a loader reads the same ranges back, stopping at the first one the file is too short for.

* `load_save`: what is loaded is as it was saved where a range covers it, and as it was before
  the load elsewhere.
* `load_objs`: what a file of any length replaces.
* `Layout.offsetOf`: where the fields of a C struct are.
-/

namespace SnesRecomp.Regions

variable {κ β : Type}

abbrev Objects (κ β : Type) := κ → Nat → β

structure Region (κ : Type) where
  obj : κ
  start : Nat
  size : Nat
  deriving DecidableEq, Repr

/-- The range has the byte in it. -/
def Region.Covers (r : Region κ) (k : κ) (i : Nat) : Prop :=
  r.obj = k ∧ r.start ≤ i ∧ i < r.start + r.size

instance [DecidableEq κ] (r : Region κ) (k : κ) (i : Nat) : Decidable (r.Covers k i) :=
  inferInstanceAs (Decidable (_ ∧ _))

/-- All of `q` is in `r`. -/
def Region.Within (q r : Region κ) : Prop :=
  r.obj = q.obj ∧ r.start ≤ q.start ∧ q.start + q.size ≤ r.start + r.size

instance [DecidableEq κ] (q r : Region κ) : Decidable (q.Within r) :=
  inferInstanceAs (Decidable (_ ∧ _))

/-- The two have no byte in common. -/
def Region.Apart (q r : Region κ) : Prop :=
  r.obj ≠ q.obj ∨ r.start + r.size ≤ q.start ∨ q.start + q.size ≤ r.start

instance [DecidableEq κ] (q r : Region κ) : Decidable (q.Apart r) :=
  inferInstanceAs (Decidable (_ ∨ _))

theorem Region.Apart.symm {q r : Region κ} (h : q.Apart r) : r.Apart q := by
  rcases h with hne | hbelow | habove
  · exact Or.inl hne.symm
  · exact Or.inr (Or.inr hbelow)
  · exact Or.inr (Or.inl habove)

theorem Region.Apart.not_covers {q r : Region κ} (h : q.Apart r) {k : κ} {i : Nat}
    (hq : q.Covers k i) : ¬r.Covers k i := by
  obtain ⟨hobj, hlo, hhi⟩ := hq
  rintro ⟨hobj', hlo', hhi'⟩
  rcases h with hne | hbelow | habove
  · exact hne (hobj'.trans hobj.symm)
  · omega
  · omega

/-- The bytes of a range. -/
def read (m : Objects κ β) (r : Region κ) : List β :=
  (List.range r.size).map fun i => m r.obj (r.start + i)

@[simp] theorem length_read (m : Objects κ β) (r : Region κ) : (read m r).length = r.size := by
  simp [read]

/-- Two memories have the same bytes in a range. -/
def SameIn (m m' : Objects κ β) (r : Region κ) : Prop :=
  ∀ i, r.Covers r.obj i → m r.obj i = m' r.obj i

section Store

variable [DecidableEq κ]

/-- The bytes at the start of a range are replaced. -/
def store (m : Objects κ β) (r : Region κ) (bytes : List β) : Objects κ β := fun k i =>
  if r.Covers k i then (bytes[i - r.start]?).getD (m k i) else m k i

theorem store_read (s t : Objects κ β) (r : Region κ) (k : κ) (i : Nat) :
    store t r (read s r) k i = if r.Covers k i then s k i else t k i := by
  unfold store
  by_cases h : r.Covers k i
  · rw [if_pos h, if_pos h]
    obtain ⟨rfl, hstart, hend⟩ := h
    have hlt : i - r.start < r.size := by omega
    rw [read, List.getElem?_map, List.getElem?_range hlt, Option.map_some, Option.getD_some,
      Nat.add_sub_cancel' hstart]
  · rw [if_neg h, if_neg h]

/-! ### Saving and loading -/

def save (m : Objects κ β) (rs : List (Region κ)) : List β := rs.flatMap (read m)

/-- A loader: the objects, the rest of the file, and whether it was too short. -/
structure Loader (κ β : Type) where
  objs : Objects κ β
  rest : List β
  error : Bool

def loadRegion (l : Loader κ β) (r : Region κ) : Loader κ β :=
  if l.error then l
  else
    { objs := store l.objs r (l.rest.take r.size)
      rest := l.rest.drop r.size
      error := decide ((l.rest.take r.size).length ≠ r.size) }

def load (m : Objects κ β) (rs : List (Region κ)) (file : List β) : Loader κ β :=
  rs.foldl loadRegion ⟨m, file, false⟩

theorem loadRegion_read (s t : Objects κ β) (r : Region κ) (rest : List β) :
    loadRegion ⟨t, read s r ++ rest, false⟩ r = ⟨store t r (read s r), rest, false⟩ := by
  have htake : (read s r ++ rest).take r.size = read s r := by
    rw [← length_read s r, List.take_left]
  have hdrop : (read s r ++ rest).drop r.size = rest := by
    rw [← length_read s r, List.drop_left]
  simp [loadRegion, htake, hdrop]

/-- **What is loaded is as it was saved where a range covers it, and as before elsewhere.** -/
theorem load_save (s : Objects κ β) (rs : List (Region κ)) :
    ∀ (t : Objects κ β) (rest : List β), load t rs (save s rs ++ rest) =
      ⟨fun k i => if ∃ r ∈ rs, r.Covers k i then s k i else t k i, rest, false⟩ := by
  induction rs with
  | nil =>
    intro t rest
    simp [load, save]
  | cons r rs ih =>
    intro t rest
    have hstep : load t (r :: rs) (save s (r :: rs) ++ rest) =
        load (store t r (read s r)) rs (save s rs ++ rest) := by
      rw [load, save, List.flatMap_cons, List.append_assoc, List.foldl_cons, loadRegion_read]
      rfl
    rw [hstep, ih]
    congr 1
    funext k i
    rw [store_read]
    by_cases hrs : ∃ q ∈ rs, q.Covers k i
    · simp [hrs]
    · simp [hrs]

/-! ### Files of any length -/

/-- The byte of the file for a byte of an object, if there is one. -/
def incoming : List (Region κ) → List β → κ → Nat → Option β
  | [], _, _, _ => none
  | r :: rs, file, k, i =>
    if r.Covers k i then file[i - r.start]? else incoming rs (file.drop r.size) k i

theorem incoming_of_not_covers {rs : List (Region κ)} {k : κ} {i : Nat}
    (h : ∀ r ∈ rs, ¬r.Covers k i) (file : List β) : incoming rs file k i = none := by
  induction rs generalizing file with
  | nil => rfl
  | cons r rs ih =>
      rw [incoming, if_neg (h r List.mem_cons_self)]
      exact ih (fun q hq => h q (List.mem_cons_of_mem r hq)) _

theorem incoming_nil (rs : List (Region κ)) (k : κ) (i : Nat) :
    incoming rs ([] : List β) k i = none := by
  induction rs with
  | nil => rfl
  | cons r rs ih =>
      rw [incoming, List.drop_nil, ih]
      exact ite_self _

theorem store_take (t : Objects κ β) (r : Region κ) (file : List β) (k : κ) (i : Nat) :
    store t r (file.take r.size) k i =
      if r.Covers k i then (file[i - r.start]?).getD (t k i) else t k i := by
  rw [store]
  by_cases h : r.Covers k i
  · have hlt : i - r.start < r.size := by
      obtain ⟨_, hlo, hhi⟩ := h
      omega
    rw [if_pos h, if_pos h, List.getElem?_take_of_lt hlt]
  · rw [if_neg h, if_neg h]

theorem load_of_error (rs : List (Region κ)) {l : Loader κ β} (h : l.error = true) :
    rs.foldl loadRegion l = l := by
  induction rs with
  | nil => rfl
  | cons r rs ih =>
      rw [List.foldl_cons, loadRegion, if_pos h]
      exact ih

theorem load_cons (t : Objects κ β) (r : Region κ) (rs : List (Region κ)) (file : List β) :
    load t (r :: rs) file =
      if file.length < r.size then ⟨store t r (file.take r.size), [], true⟩
      else load (store t r (file.take r.size)) rs (file.drop r.size) := by
  have hfirst : loadRegion ⟨t, file, false⟩ r = ⟨store t r (file.take r.size), file.drop r.size,
      decide ((file.take r.size).length ≠ r.size)⟩ := by
    rw [loadRegion, if_neg Bool.false_ne_true]
  rw [load, List.foldl_cons, hfirst, List.length_take]
  by_cases hshort : file.length < r.size
  · rw [if_pos hshort, load_of_error rs (decide_eq_true (by omega)),
      List.drop_eq_nil_of_le (Nat.le_of_lt hshort), decide_eq_true (by omega)]
  · rw [if_neg hshort, load, decide_eq_false (by omega)]

/-- **A load of ranges that are apart replaces each byte the file has one for.** -/
theorem load_objs {rs : List (Region κ)} (hapart : rs.Pairwise Region.Apart) (t : Objects κ β)
    (file : List β) (k : κ) (i : Nat) :
    (load t rs file).objs k i = (incoming rs file k i).getD (t k i) := by
  induction rs generalizing t file with
  | nil => rfl
  | cons r rs ih =>
      obtain ⟨hr, hrs⟩ := List.pairwise_cons.mp hapart
      have hrest : (load t (r :: rs) file).objs k i =
          (incoming rs (file.drop r.size) k i).getD (store t r (file.take r.size) k i) := by
        rw [load_cons]
        by_cases hshort : file.length < r.size
        · rw [if_pos hshort, List.drop_eq_nil_of_le (Nat.le_of_lt hshort), incoming_nil]
          rfl
        · rw [if_neg hshort]
          exact ih hrs _ _
      rw [hrest, incoming, store_take]
      by_cases hcov : r.Covers k i
      · rw [if_pos hcov, if_pos hcov,
          incoming_of_not_covers (fun q hq => (hr q hq).not_covers hcov)]
        rfl
      · rw [if_neg hcov, if_neg hcov]

theorem load_error (rs : List (Region κ)) (t : Objects κ β) (file : List β) :
    (load t rs file).error = true ↔ file.length < (rs.map Region.size).sum := by
  induction rs generalizing t file with
  | nil => exact ⟨fun h => (by cases h), fun h => absurd h (Nat.not_lt_zero _)⟩
  | cons r rs ih =>
      rw [load_cons, List.map_cons, List.sum_cons]
      by_cases hshort : file.length < r.size
      · rw [if_pos hshort]
        exact ⟨fun _ => by omega, fun _ => rfl⟩
      · rw [if_neg hshort, ih, List.length_drop]
        omega

end Store

/-! ### Structs -/

/-- The fields of a struct in their order, each with its size and its alignment. -/
abbrev Layout (F : Type) := List (F × Nat × Nat)

namespace Layout

variable {F : Type} [DecidableEq F]

/-- The first offset from `offset` on that a field of this alignment may have. -/
def align (offset alignment : Nat) : Nat := (offset + alignment - 1) / alignment * alignment

/-- The offset of a field, the layout being the fields from `offset` on. -/
def offsetFrom : Nat → Layout F → F → Nat
  | offset, [], _ => offset
  | offset, (g, size, alignment) :: rest, f =>
    if g = f then align offset alignment else offsetFrom (align offset alignment + size) rest f

/-- `offsetof`. -/
def offsetOf (l : Layout F) (f : F) : Nat := offsetFrom 0 l f

def fieldSize (l : Layout F) (f : F) : Nat := ((l.find? fun g => decide (g.1 = f)).map (·.2.1)).getD 0

/-- `sizeof`. -/
def sizeOf (l : Layout F) : Nat :=
  align (l.foldl (fun offset g => align offset g.2.2 + g.2.1) 0)
    (l.foldl (fun alignment g => max alignment g.2.2) 1)

/-- Where a field of an object is. -/
def field (l : Layout F) (obj : κ) (f : F) : Region κ := ⟨obj, l.offsetOf f, l.fieldSize f⟩

end Layout

end SnesRecomp.Regions
