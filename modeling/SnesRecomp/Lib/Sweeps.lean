import Mathlib.Data.Set.Defs
import Mathlib.Logic.Function.Basic
import Mathlib.Tactic.Cases

/-!
# Sweeps over records that are derived from one another

A visit of `i` replaces the record at `key i` by what `derive` makes of all the records.  A
sweep visits a list, and `sweeps` goes on until a sweep changes no record, or until the limit
is hit.

When the keys have ranks such that a record is determined by the records of smaller rank,
every order of visits reaches the same records: after `n` sweeps, in whatever order, the
records of rank below `n` are fixed.
-/

namespace SnesRecomp.Sweeps

/-- A visit of `i` writes the record at `key i`. -/
structure System (ι κ ν : Type*) where
  key : ι → κ
  derive : (κ → ν) → ι → ν

variable {ι κ ν : Type*} [DecidableEq κ] (sys : System ι κ ν)

def visit (s : κ → ν) (i : ι) : κ → ν := Function.update s (sys.key i) (sys.derive s i)

theorem visit_of_eq {s : κ → ν} {i : ι} (h : s (sys.key i) = sys.derive s i) :
    visit sys s i = s := by
  unfold visit
  rw [← h, Function.update_eq_self]

theorem foldl_visit_of_eq {s : κ → ν} (order : List ι)
    (h : ∀ i ∈ order, s (sys.key i) = sys.derive s i) : order.foldl (visit sys) s = s := by
  induction order with
  | nil => rfl
  | cons i order ih =>
    rw [List.foldl_cons, visit_of_eq sys (h i List.mem_cons_self)]
    exact ih fun j hj => h j (List.mem_cons_of_mem i hj)

/-! ### The records that visits reach -/

variable (visits : Set ι) (start : κ → ν)

/-- What some visits, in some order, make of the first records. -/
inductive Reached : (κ → ν) → Prop
  | start : Reached start
  | visit {s : κ → ν} {i : ι} (hs : Reached s) (hi : i ∈ visits) : Reached (visit sys s i)

/-- A record that is never visited keeps its first value. -/
theorem Reached.unvisited {s : κ → ν} (hs : Reached sys visits start s) {k : κ}
    (hk : ∀ i ∈ visits, sys.key i ≠ k) : s k = start k := by
  induction hs with
  | start => rfl
  | @visit s i _ hi ih =>
    unfold Sweeps.visit
    rw [Function.update_of_ne (hk i hi).symm]
    exact ih

/-- Every record has been derived `n` times over: from records that had been derived `n - 1`
times over. -/
def After : Nat → (κ → ν) → Prop
  | 0, s => Reached sys visits start s
  | n + 1, s => Reached sys visits start s ∧ ∀ i ∈ visits, ∃ j ∈ visits, ∃ t,
      sys.key j = sys.key i ∧ After n t ∧ s (sys.key i) = sys.derive t j

/-- The record at the key has been derived from records that are `n` rounds old. -/
def DerivedAfter (n : Nat) (s : κ → ν) (k : κ) : Prop :=
  ∃ j ∈ visits, ∃ t, sys.key j = k ∧ After sys visits start n t ∧ s k = sys.derive t j

variable {sys visits start}

theorem After.reached {n : Nat} {s : κ → ν} (h : After sys visits start n s) :
    Reached sys visits start s := by
  cases n with
  | zero => exact h
  | succ n => exact h.1

theorem After.of_succ : ∀ {n : Nat} {s : κ → ν}, After sys visits start (n + 1) s →
    After sys visits start n s := by
  intro n
  induction n with
  | zero => intro s h; exact h.1
  | succ n ih =>
    intro s h
    refine ⟨h.1, fun i hi => ?_⟩
    obtain ⟨j, hj, t, hkey, ht, hs⟩ := h.2 i hi
    exact ⟨j, hj, t, hkey, ih ht, hs⟩

theorem After.of_le {n m : Nat} {s : κ → ν} (h : After sys visits start m s) (hle : n ≤ m) :
    After sys visits start n s := by
  induction hle with
  | refl => exact h
  | step _ ih => exact ih h.of_succ

theorem derivedAfter_visit_self {n : Nat} {s : κ → ν} (hs : After sys visits start n s) {i : ι}
    (hi : i ∈ visits) : DerivedAfter sys visits start n (visit sys s i) (sys.key i) :=
  ⟨i, hi, s, rfl, hs, Function.update_self ..⟩

theorem DerivedAfter.visit {n : Nat} {s : κ → ν} (hs : After sys visits start n s) {k : κ}
    (hk : DerivedAfter sys visits start n s k) {i : ι} (hi : i ∈ visits) :
    DerivedAfter sys visits start n (visit sys s i) k := by
  by_cases hkey : sys.key i = k
  · rw [← hkey]
    exact derivedAfter_visit_self hs hi
  · obtain ⟨j, hj, t, hjk, ht, hsk⟩ := hk
    refine ⟨j, hj, t, hjk, ht, ?_⟩
    unfold Sweeps.visit
    rw [Function.update_of_ne (Ne.symm hkey)]
    exact hsk

theorem After.visit {n : Nat} {s : κ → ν} (hs : After sys visits start n s) {i : ι}
    (hi : i ∈ visits) : After sys visits start n (visit sys s i) := by
  cases n with
  | zero => exact Reached.visit hs hi
  | succ n =>
    refine ⟨hs.1.visit hi, fun j hj => ?_⟩
    exact DerivedAfter.visit hs.of_succ (hs.2 j hj) hi

/-- Visits keep what is derived, and derive what they visit. -/
theorem After.foldl_visit {n : Nat} (order : List ι) : ∀ {s : κ → ν},
    After sys visits start n s → (∀ i ∈ order, i ∈ visits) →
    After sys visits start n (order.foldl (Sweeps.visit sys) s) ∧
      ∀ k, DerivedAfter sys visits start n s k ∨ (∃ i ∈ order, sys.key i = k) →
        DerivedAfter sys visits start n (order.foldl (Sweeps.visit sys) s) k := by
  induction order with
  | nil =>
    intro s hs _
    refine ⟨hs, fun k hk => hk.resolve_right ?_⟩
    rintro ⟨i, hi, _⟩
    cases hi
  | cons i order ih =>
    intro s hs horder
    have hi := horder i List.mem_cons_self
    obtain ⟨hafter, hderived⟩ := ih (hs.visit hi) fun j hj => horder j (List.mem_cons_of_mem i hj)
    rw [List.foldl_cons]
    refine ⟨hafter, fun k hk => hderived k ?_⟩
    rcases hk with hk | ⟨j, hj, rfl⟩
    · exact Or.inl (hk.visit hs hi)
    · rcases List.mem_cons.mp hj with rfl | hj
      · exact Or.inl (derivedAfter_visit_self hs hi)
      · exact Or.inr ⟨j, hj, rfl⟩

/-! ### Ranked records -/

variable (sys visits start)

/-- Of the records that visits reach, those of smaller rank determine what is derived. -/
def Ranked (rank : κ → Nat) : Prop :=
  ∀ i ∈ visits, ∀ j ∈ visits, sys.key i = sys.key j → ∀ s s', Reached sys visits start s →
    Reached sys visits start s' → (∀ k, rank k < rank (sys.key i) → s k = s' k) →
    sys.derive s i = sys.derive s' j

variable {sys visits start} {rank : κ → Nat}

/-- After `n` rounds, in whatever order, the records of rank below `n` are the same. -/
theorem Ranked.agree (h : Ranked sys visits start rank) : ∀ (n : Nat) {s s' : κ → ν},
    After sys visits start n s → After sys visits start n s' →
    ∀ k, rank k < n → s k = s' k := by
  intro n
  induction n with
  | zero => intro s s' _ _ k hk; omega
  | succ n ih =>
    intro s s' hs hs' k hk
    by_cases hvisited : ∃ i ∈ visits, sys.key i = k
    · obtain ⟨i, hi, rfl⟩ := hvisited
      obtain ⟨j, hj, t, hkey, ht, hsk⟩ := hs.2 i hi
      obtain ⟨j', hj', t', hkey', ht', hsk'⟩ := hs'.2 i hi
      calc s (sys.key i) = sys.derive t j := hsk
        _ = sys.derive t' j' := by
          refine h j hj j' hj' (hkey.trans hkey'.symm) t t' ht.reached ht'.reached fun k hk => ?_
          rw [hkey] at hk
          exact ih ht ht' k (by omega)
        _ = s' (sys.key i) := hsk'.symm
    · have hk : ∀ i ∈ visits, sys.key i ≠ k := fun i hi hkey => hvisited ⟨i, hi, hkey⟩
      rw [hs.reached.unvisited _ _ _ hk, hs'.reached.unvisited _ _ _ hk]

/-- When every visited rank is below `n`, all that `n` rounds reach is the same. -/
theorem Ranked.eq_of_after (h : Ranked sys visits start rank) {n : Nat}
    (hn : ∀ i ∈ visits, rank (sys.key i) < n) {s s' : κ → ν}
    (hs : After sys visits start n s) (hs' : After sys visits start n s') : s = s' := by
  funext k
  by_cases hvisited : ∃ i ∈ visits, sys.key i = k
  · obtain ⟨i, hi, rfl⟩ := hvisited
    exact h.agree n hs hs' _ (hn i hi)
  · have hk : ∀ i ∈ visits, sys.key i ≠ k := fun i hi hkey => hvisited ⟨i, hi, hkey⟩
    rw [hs.reached.unvisited _ _ _ hk, hs'.reached.unvisited _ _ _ hk]

/-- The records that `n` rounds reach are those that are derived for them. -/
theorem Ranked.derived_of_after (h : Ranked sys visits start rank) {n : Nat}
    (hn : ∀ i ∈ visits, rank (sys.key i) < n) {s : κ → ν} (hs : After sys visits start n s)
    {i : ι} (hi : i ∈ visits) : s (sys.key i) = sys.derive s i := by
  have hsame : visit sys s i = s := h.eq_of_after hn (hs.visit hi) hs
  calc s (sys.key i) = visit sys s i (sys.key i) := by rw [hsame]
    _ = sys.derive s i := Function.update_self ..

/-! ### Sweeps -/

variable [DecidableEq ν] (sys)

/-- A visit that derives the record that is there leaves the sweep clean. -/
def step (acc : (κ → ν) × Bool) (i : ι) : (κ → ν) × Bool :=
  let v := sys.derive acc.1 i
  if acc.1 (sys.key i) = v then acc else (Function.update acc.1 (sys.key i) v, true)

/-- The records after a sweep, and whether it was dirty. -/
def sweep (order : List ι) (s : κ → ν) : (κ → ν) × Bool := order.foldl (step sys) (s, false)

/-- The records in the end, and whether a sweep was clean before the limit was hit. -/
def sweeps (order : List ι) : Nat → (κ → ν) → (κ → ν) × Bool
  | 0, s => (s, false)
  | n + 1, s =>
    let after := sweep sys order s
    if after.2 then sweeps order n after.1 else (after.1, true)

theorem sweeps_add_one (order : List ι) (n : Nat) (s : κ → ν) :
    sweeps sys order (n + 1) s = if (sweep sys order s).2 then sweeps sys order n (sweep sys order s).1
      else ((sweep sys order s).1, true) := rfl

theorem step_fst (acc : (κ → ν) × Bool) (i : ι) : (step sys acc i).1 = visit sys acc.1 i := by
  unfold step
  dsimp only
  split
  next h => rw [visit_of_eq sys h]
  next => rfl

theorem foldl_step_fst (order : List ι) :
    ∀ acc : (κ → ν) × Bool, (order.foldl (step sys) acc).1 = order.foldl (visit sys) acc.1 := by
  induction order with
  | nil => intro acc; rfl
  | cons i order ih =>
    intro acc
    rw [List.foldl_cons, List.foldl_cons, ih, step_fst]

theorem sweep_fst (order : List ι) (s : κ → ν) :
    (sweep sys order s).1 = order.foldl (visit sys) s := foldl_step_fst sys order (s, false)

/-- A dirty sweep stays dirty. -/
theorem foldl_step_dirty (order : List ι) :
    ∀ s : κ → ν, (order.foldl (step sys) (s, true)).2 = true := by
  induction order with
  | nil => intro s; rfl
  | cons i order ih =>
    intro s
    rw [List.foldl_cons]
    have hstep : step sys (s, true) i = (visit sys s i, true) := by
      unfold step
      dsimp only
      split
      next h => rw [visit_of_eq sys h]
      next => rfl
    rw [hstep]
    exact ih _

theorem foldl_step_clean_iff {s : κ → ν} (order : List ι) :
    (order.foldl (step sys) (s, false)).2 = false ↔
      ∀ i ∈ order, s (sys.key i) = sys.derive s i := by
  induction order with
  | nil => exact iff_of_true rfl fun i hi => absurd hi List.not_mem_nil
  | cons i order ih =>
    rw [List.foldl_cons, List.forall_mem_cons]
    by_cases hi : s (sys.key i) = sys.derive s i
    · have hstep : step sys (s, false) i = (s, false) := if_pos hi
      rw [hstep, ih]
      exact (and_iff_right hi).symm
    · have hstep : step sys (s, false) i = (visit sys s i, true) := if_neg hi
      rw [hstep, foldl_step_dirty]
      exact iff_of_false (by decide) fun h => hi h.1

/-- A sweep is clean when every record it visits is what is derived for it. -/
theorem sweep_clean_iff {s : κ → ν} (order : List ι) :
    (sweep sys order s).2 = false ↔ ∀ i ∈ order, s (sys.key i) = sys.derive s i :=
  foldl_step_clean_iff sys order

/-- A clean sweep leaves all records as they are. -/
theorem sweep_fst_of_clean {s : κ → ν} {order : List ι} (h : (sweep sys order s).2 = false) :
    (sweep sys order s).1 = s := by
  rw [sweep_fst]
  exact foldl_visit_of_eq sys order ((sweep_clean_iff sys order).mp h)

/-- **When a sweep was clean, every record is what is derived for it.** -/
theorem derived_of_sweeps (order : List ι) : ∀ (n : Nat) (s : κ → ν),
    (sweeps sys order n s).2 = true → ∀ i ∈ order,
      (sweeps sys order n s).1 (sys.key i) = sys.derive (sweeps sys order n s).1 i := by
  intro n
  induction n with
  | zero => intro s h; cases h
  | succ n ih =>
    intro s h
    rw [sweeps_add_one] at h ⊢
    cases hdirty : (sweep sys order s).2 with
    | true =>
      rw [hdirty] at h
      exact ih _ h
    | false =>
      have hclean := (sweep_clean_iff sys order).mp hdirty
      have hsame := sweep_fst_of_clean sys hdirty
      simp only [Bool.false_eq_true, if_false]
      rw [hsame]
      exact hclean

variable {sys}

/-- A sweep is one more round, in whatever order. -/
theorem After.sweep {n : Nat} {s : κ → ν} (hs : After sys visits start n s) {order : List ι}
    (horder : ∀ i, i ∈ order ↔ i ∈ visits) :
    After sys visits start (n + 1) (sweep sys order s).1 := by
  obtain ⟨hafter, hderived⟩ := hs.foldl_visit order fun i hi => (horder i).mp hi
  rw [sweep_fst]
  exact ⟨hafter.reached, fun i hi => hderived _ (Or.inr ⟨i, (horder i).mpr hi, rfl⟩)⟩

/-- Where no records that visits reach are derived throughout, the sweeps do not end clean. -/
theorem not_clean_of_reached {order : List ι} (horder : ∀ i, i ∈ order ↔ i ∈ visits)
    (h : ∀ s, Reached sys visits start s → ∃ i ∈ visits, s (sys.key i) ≠ sys.derive s i) :
    ∀ (n : Nat) {s : κ → ν}, Reached sys visits start s → (sweeps sys order n s).2 = false := by
  intro n
  induction n with
  | zero => intro s _; rfl
  | succ n ih =>
    intro s hs
    rw [sweeps_add_one]
    cases hdirty : (Sweeps.sweep sys order s).2 with
    | true => exact ih (After.sweep (show After sys visits start 0 s from hs) horder).reached
    | false =>
      obtain ⟨i, hi, hne⟩ := h s hs
      exact absurd ((sweep_clean_iff sys order).mp hdirty i ((horder i).mpr hi)) hne

theorem After.sweeps {order : List ι} (horder : ∀ i, i ∈ order ↔ i ∈ visits) {k : Nat} :
    ∀ (n : Nat) {s : κ → ν}, After sys visits start k s →
      After sys visits start k (Sweeps.sweeps sys order n s).1 := by
  intro n
  induction n with
  | zero => intro s hs; exact hs
  | succ n ih =>
    intro s hs
    rw [sweeps_add_one]
    have hsweep := (hs.sweep horder).of_succ
    cases hdirty : (Sweeps.sweep sys order s).2 with
    | true => exact ih hsweep
    | false => exact hsweep

/-- The first sweep is a round. -/
theorem After.sweeps_succ {order : List ι} (horder : ∀ i, i ∈ order ↔ i ∈ visits) {k : Nat} (n : Nat)
    {s : κ → ν} (hs : After sys visits start k s) :
    After sys visits start (k + 1) (Sweeps.sweeps sys order (n + 1) s).1 := by
  rw [sweeps_add_one]
  have hsweep := hs.sweep horder
  cases hdirty : (Sweeps.sweep sys order s).2 with
  | true => exact hsweep.sweeps horder n
  | false => exact hsweep

/-- A clean sweep is as good as any number of rounds. -/
theorem After.of_clean {order : List ι} (horder : ∀ i, i ∈ order ↔ i ∈ visits) {s : κ → ν}
    (hs : Reached sys visits start s) (hclean : (Sweeps.sweep sys order s).2 = false) :
    ∀ n, After sys visits start n s := by
  have hsame := sweep_fst_of_clean sys hclean
  intro n
  induction n with
  | zero => exact hs
  | succ n ih => exact hsame ▸ ih.sweep horder

/-- With one sweep more than the ranks need, the sweeps end clean and with all rounds done. -/
theorem Ranked.sweeps_after (h : Ranked sys visits start rank) {n : Nat}
    (hn : ∀ i ∈ visits, rank (sys.key i) < n) {order : List ι}
    (horder : ∀ i, i ∈ order ↔ i ∈ visits) : ∀ (m done : Nat) {s : κ → ν}, n ≤ done + m →
    After sys visits start done s →
    (sweeps sys order (m + 1) s).2 = true ∧
      After sys visits start n (sweeps sys order (m + 1) s).1 := by
  intro m
  induction m with
  | zero =>
    intro done s hdone hs
    have hafter := hs.of_le (show n ≤ done by omega)
    have hclean : (Sweeps.sweep sys order s).2 = false :=
      (sweep_clean_iff sys order).mpr fun i hi => h.derived_of_after hn hafter ((horder i).mp hi)
    have hsame := sweep_fst_of_clean sys hclean
    rw [sweeps_add_one]
    simp only [hclean, Bool.false_eq_true, if_false, hsame]
    exact ⟨trivial, hafter⟩
  | succ m ih =>
    intro done s hdone hs
    rw [sweeps_add_one]
    cases hdirty : (Sweeps.sweep sys order s).2 with
    | true =>
      simp only [if_true]
      exact ih (done + 1) (by omega) (hs.sweep horder)
    | false =>
      have hsame := sweep_fst_of_clean sys hdirty
      simp only [Bool.false_eq_true, if_false, hsame]
      exact ⟨trivial, After.of_clean horder hs.reached hdirty n⟩

/-- **When the visited ranks are below `n`, `n + 1` sweeps end clean, with the same records
in every order.** -/
theorem Ranked.sweeps_eq (h : Ranked sys visits start rank) {n : Nat}
    (hn : ∀ i ∈ visits, rank (sys.key i) < n) {order order' : List ι}
    (horder : ∀ i, i ∈ order ↔ i ∈ visits) (horder' : ∀ i, i ∈ order' ↔ i ∈ visits) :
    (sweeps sys order (n + 1) start).2 = true ∧
      (sweeps sys order' (n + 1) start).1 = (sweeps sys order (n + 1) start).1 := by
  have hstart : After sys visits start 0 start := Reached.start
  obtain ⟨hclean, hafter⟩ := h.sweeps_after hn horder n 0 (by omega) hstart
  obtain ⟨_, hafter'⟩ := h.sweeps_after hn horder' n 0 (by omega) hstart
  exact ⟨hclean, h.eq_of_after hn hafter' hafter⟩

end SnesRecomp.Sweeps
