import SnesRecomp.Regen.Passes

/-!
# The taint of wrong-width callers

The loops of `_propagate_reference_taint` as they run: a sweep looks at the sources in the
order of the dictionary and taints them on the way, so a later source of the same sweep
already sees it, and the sweeps go on while one of them changes something.

`taintLoop_least`: the loop ends, with the least set that has the seed and is closed under
the rule.  The order of the dictionary and the order in the sets have no part in it.
`propagateReferenceTaint`, which taints a whole round at once, comes to the same set.
-/

namespace SnesRecomp.Regen

open Recompiler

variable (banks : List Nat) (refs : List (Variant × List Variant)) (live : List Variant)

/-- `dangling`: the target is in a bank of the cfg set and not emitted. -/
def dangling (t : Variant) : Bool := decide (bankOf t.1 ∈ banks ∧ t ∉ live)

/-- The targets taint their source. -/
def taints (tainted targets : List Variant) : Bool :=
  targets.any fun t => dangling banks live t || decide (t ∈ tainted)

/-- One source of the inner loop, with the tainted set and `changed`. -/
def taintVisit (st : List Variant × Bool) (r : Variant × List Variant) : List Variant × Bool :=
  if r.1 ∈ st.1 then st
  else if taints banks live st.1 r.2 then (st.1 ++ [r.1], true)
  else st

/-- The inner loop. -/
def taintSweep (tainted : List Variant) : List Variant × Bool :=
  refs.foldl (taintVisit banks live) (tainted, false)

/-- The `while` loop; `none` where the fuel does not last. -/
def taintLoop : Nat → List Variant → Option (List Variant)
  | 0, _ => none
  | fuel + 1, tainted =>
    let st := taintSweep banks refs live tainted
    if st.2 then taintLoop fuel st.1 else some st.1

/-- `_propagate_reference_taint`. -/
def propagateTaint (fuel : Nat) (dirty emitted pruned : List Variant) : Option (List Variant) :=
  taintLoop banks refs (emitted.filter (· ∉ pruned)) fuel dirty

/-! ### The rule -/

/-- A source with a target that dangles or is in the set is in the set. -/
def TaintClosed (s : Set Variant) : Prop :=
  ∀ r ∈ refs, ∀ t ∈ r.2, (dangling banks live t = true ∨ t ∈ s) → r.1 ∈ s

/-- The least set with the seed that is closed under the rule. -/
inductive Tainted (dirty : List Variant) : Variant → Prop
  | seed {v} : v ∈ dirty → Tainted dirty v
  | dangles {r t} : r ∈ refs → t ∈ r.2 → dangling banks live t = true → Tainted dirty r.1
  | calls {r t} : r ∈ refs → t ∈ r.2 → Tainted dirty t → Tainted dirty r.1

variable {banks refs live}

theorem Tainted.closed (dirty : List Variant) :
    TaintClosed banks refs live { v | Tainted banks refs live dirty v } := by
  rintro r hr t ht (hdangling | htainted)
  · exact .dangles hr ht hdangling
  · exact .calls hr ht htainted

theorem Tainted.least {dirty : List Variant} {s : Set Variant} (hclosed : TaintClosed banks refs live s)
    (hdirty : ∀ v ∈ dirty, v ∈ s) {v : Variant} (h : Tainted banks refs live dirty v) : v ∈ s := by
  induction h with
  | seed h => exact hdirty _ h
  | dangles hr ht hdangling => exact hclosed _ hr _ ht (Or.inl hdangling)
  | calls hr ht _ ih => exact hclosed _ hr _ ht (Or.inr ih)

/-- More seeds taint more. -/
theorem Tainted.mono {dirty dirty' : List Variant} (hsub : dirty ⊆ dirty') {v : Variant}
    (h : Tainted banks refs live dirty v) : Tainted banks refs live dirty' v := by
  induction h with
  | seed h => exact .seed (hsub h)
  | dangles hr ht hdangling => exact .dangles hr ht hdangling
  | calls hr ht _ ih => exact .calls hr ht ih

/-- Only what the lists have in them matters. -/
theorem Tainted.congr {refs' : List (Variant × List Variant)} {live' dirty dirty' : List Variant}
    (hrefs : ∀ r ∈ refs, ∃ r' ∈ refs', r'.1 = r.1 ∧ r.2 ⊆ r'.2) (hlive : live' ⊆ live)
    (hdirty : dirty ⊆ dirty') {v : Variant} (h : Tainted banks refs live dirty v) :
    Tainted banks refs' live' dirty' v := by
  induction h with
  | seed h => exact .seed (hdirty h)
  | @dangles r t hr ht hdangling =>
    obtain ⟨r', hr', heq, hsub⟩ := hrefs r hr
    have hbank := of_decide_eq_true hdangling
    rw [← heq]
    exact .dangles hr' (hsub ht) (decide_eq_true ⟨hbank.1, fun hmem => hbank.2 (hlive hmem)⟩)
  | @calls r t hr ht _ ih =>
    obtain ⟨r', hr', heq, hsub⟩ := hrefs r hr
    rw [← heq]
    exact .calls hr' (hsub ht) ih

theorem taints_iff {tainted targets : List Variant} : taints banks live tainted targets = true ↔
    ∃ t ∈ targets, dangling banks live t = true ∨ t ∈ tainted := by
  rw [taints, List.any_eq_true]
  simp only [Bool.or_eq_true, decide_eq_true_eq]

/-! ### Sweeps -/

variable (banks refs live) in
/-- What a sweep over the sources `rs` has done to the set it started from. -/
structure Swept (seed tainted : List Variant) (rs : List (Variant × List Variant))
    (st : List Variant × Bool) : Prop where
  grows : tainted ⊆ st.1
  sound : (∀ v ∈ tainted, Tainted banks refs live seed v) → ∀ v ∈ st.1, Tainted banks refs live seed v
  steady : st.2 = false → st.1 = tainted ∧
    ∀ r ∈ rs, taints banks live tainted r.2 = true → r.1 ∈ tainted
  adds : st.2 = true → ∃ v ∈ rs.map (·.1), v ∉ tainted ∧ v ∈ st.1

variable {seed tainted : List Variant} {rs : List (Variant × List Variant)}
  {st : List Variant × Bool} {r : Variant × List Variant}

theorem Swept.nil : Swept banks refs live seed tainted [] (tainted, false) where
  grows := fun _ h => h
  sound := fun h => h
  steady := fun _ => ⟨rfl, fun _ h => by cases h⟩
  adds := fun h => by cases h

theorem Swept.keep (h : Swept banks refs live seed tainted rs st)
    (hr : st.2 = false → taints banks live tainted r.2 = true → r.1 ∈ tainted) :
    Swept banks refs live seed tainted (rs ++ [r]) st where
  grows := h.grows
  sound := h.sound
  steady := by
    intro hst
    refine ⟨(h.steady hst).1, fun q hq htaints => ?_⟩
    rcases List.mem_append.mp hq with hq | hq
    · exact (h.steady hst).2 q hq htaints
    · obtain rfl := List.mem_singleton.mp hq
      exact hr hst htaints
  adds := by
    intro hst
    obtain ⟨v, hv, hnot, hin⟩ := h.adds hst
    exact ⟨v, by rw [List.map_append]; exact List.mem_append_left _ hv, hnot, hin⟩

/-- The visit of a source taints it, or has nothing to taint it for. -/
theorem Swept.visit (h : Swept banks refs live seed tainted rs st) (hr : r ∈ refs) :
    Swept banks refs live seed tainted (rs ++ [r]) (taintVisit banks live st r) := by
  rw [taintVisit]
  split
  next hmem =>
    exact h.keep fun hst _ => (h.steady hst).1 ▸ hmem
  next hmem =>
    split
    next htaints =>
      refine ⟨fun v hv => List.mem_append_left _ (h.grows hv), ?_, fun hst => (by cases hst), ?_⟩
      · intro hseed v hv
        rcases List.mem_append.mp hv with hv | hv
        · exact h.sound hseed v hv
        · obtain rfl := List.mem_singleton.mp hv
          obtain ⟨t, ht, hdangling | hin⟩ := taints_iff.mp htaints
          · exact .dangles hr ht hdangling
          · exact .calls hr ht (h.sound hseed t hin)
      · intro _
        refine ⟨r.1, ?_, fun hin => hmem (h.grows hin), List.mem_append_right _ (List.mem_singleton_self _)⟩
        rw [List.map_append]
        exact List.mem_append_right _ (List.mem_singleton_self _)
    next htaints =>
      refine h.keep fun hst ht => absurd ?_ htaints
      rw [(h.steady hst).1]
      exact ht

variable (banks refs live) in
theorem swept_taintSweep (seed tainted : List Variant) :
    Swept banks refs live seed tainted refs (taintSweep banks refs live tainted) := by
  have hfold : ∀ (rest done : List (Variant × List Variant)) (st : List Variant × Bool),
      rest ⊆ refs → Swept banks refs live seed tainted done st →
      Swept banks refs live seed tainted (done ++ rest) (rest.foldl (taintVisit banks live) st) := by
    intro rest
    induction rest with
    | nil =>
      intro done st _ h
      rw [List.append_nil]
      exact h
    | cons r rest ih =>
      intro done st hsub h
      rw [List.foldl_cons, ← List.append_cons done r rest |>.symm]
      have hnext := ih (done ++ [r]) _ (fun q hq => hsub (List.mem_cons_of_mem r hq))
        (h.visit (hsub List.mem_cons_self))
      exact hnext
  exact hfold refs [] (tainted, false) (fun _ h => h) .nil

variable (banks refs live seed) in
/-- With a sweep for each source that is left the loop ends: what it has is tainted, and the
rule adds nothing to it. -/
theorem taintLoop_spec : ∀ (fuel : Nat) (tainted : List Variant),
    missing (refs.map (·.1)) tainted < fuel →
    (∀ v ∈ tainted, Tainted banks refs live seed v) →
    ∃ out, taintLoop banks refs live fuel tainted = some out ∧ tainted ⊆ out ∧
      (∀ v ∈ out, Tainted banks refs live seed v) ∧ TaintClosed banks refs live { v | v ∈ out } := by
  intro fuel
  induction fuel with
  | zero =>
    intro tainted hfuel _
    omega
  | succ fuel ih =>
    intro tainted hfuel hsound
    have hsweep := swept_taintSweep banks refs live seed tainted
    rw [taintLoop]
    cases hst : (taintSweep banks refs live tainted).2 with
    | true =>
      obtain ⟨v, hv, hnot, hin⟩ := hsweep.adds hst
      have hlt := missing_lt hsweep.grows hv hnot hin
      obtain ⟨out, hout, hsub, hrest⟩ :=
        ih (taintSweep banks refs live tainted).1 (by omega) (hsweep.sound hsound)
      rw [if_pos rfl]
      exact ⟨out, hout, fun v hv => hsub (hsweep.grows hv), hrest⟩
    | false =>
      obtain ⟨heq, hclosed⟩ := hsweep.steady hst
      rw [if_neg Bool.false_ne_true, heq]
      refine ⟨tainted, rfl, fun _ h => h, hsound, ?_⟩
      rintro r hr t ht hor
      exact hclosed r hr (taints_iff.mpr ⟨t, ht, hor⟩)

variable (banks refs) in
/-- **The least fixpoint.** -/
theorem propagateTaint_spec (dirty emitted pruned : List Variant) {fuel : Nat}
    (hfuel : refs.length < fuel) :
    ∃ out, propagateTaint banks refs fuel dirty emitted pruned = some out ∧
      TaintClosed banks refs (emitted.filter (· ∉ pruned)) { v | v ∈ out } ∧
      ∀ v, v ∈ out ↔ Tainted banks refs (emitted.filter (· ∉ pruned)) dirty v := by
  have hroom : missing (refs.map (·.1)) dirty < fuel := by
    have hle := missing_le (refs.map (·.1)) dirty
    rw [List.length_map] at hle
    omega
  obtain ⟨out, hout, hsub, hsound, hclosed⟩ :=
    taintLoop_spec banks refs (emitted.filter (· ∉ pruned)) dirty fuel dirty hroom
      fun _ => .seed
  exact ⟨out, hout, hclosed, fun v => ⟨hsound v, fun h => h.least hclosed fun _ hv => hsub hv⟩⟩

/-- **The taint does not depend on how it is computed**: rounds come to the same set. -/
theorem mem_propagateReferenceTaint (cfg : RegenConfig) (dirty emitted pruned : List Variant)
    (v : Variant) : v ∈ propagateReferenceTaint cfg dirty refs emitted pruned ↔
      Tainted cfg.banks refs (emitted.filter (· ∉ pruned)) dirty v := by
  have hrule : ∀ {r t : _} {tainted : List Variant}, r ∈ refs → t ∈ r.2 →
      ((bankOf t.1 ∈ cfg.banks ∧ t ∉ emitted.filter (· ∉ pruned)) ∨ t ∈ tainted) →
      r.1 ∉ tainted → r.1 ∈ newlyTainted cfg refs (emitted.filter (· ∉ pruned)) tainted := by
    intro r t tainted hr ht hor hnot
    refine List.mem_map.mpr ⟨r, List.mem_filter.mpr ⟨hr, ?_⟩, rfl⟩
    rw [Bool.and_eq_true]
    exact ⟨decide_eq_true hnot, List.any_eq_true.mpr ⟨t, ht, decide_eq_true hor⟩⟩
  constructor
  · refine saturate_induct _ (fun t ht a ha => ?_) _ _ (fun a ha => .seed ha) v
    obtain ⟨r, hr, rfl⟩ := List.mem_map.mp ha
    obtain ⟨hmem, htest⟩ := List.mem_filter.mp hr
    obtain ⟨s, hs, hor⟩ := List.any_eq_true.mp (Bool.and_eq_true_iff.mp htest).2
    rcases of_decide_eq_true hor with hdangling | hin
    · exact .dangles hmem hs (decide_eq_true hdangling)
    · exact .calls hmem hs (ht s hin)
  · intro h
    refine h.least (s := { v | v ∈ propagateReferenceTaint cfg dirty refs emitted pruned }) ?_
      (subset_saturate _ _ _)
    rintro r hr t ht hor
    by_contra hnot
    have hnew := hrule hr ht (hor.imp_left fun h => of_decide_eq_true h) hnot
    rw [newlyTainted_propagate] at hnew
    cases hnew

/-- The loop ends, with the least set that has the seed and is closed under the rule; it is
the same set for dictionaries and sets that list the same things in another order, and a
larger one for a larger seed. -/
theorem taintLoop_least (banks : List Nat) (refs : List (Variant × List Variant))
    (dirty emitted pruned : List Variant) :
    ∃ room, ∀ fuel, room ≤ fuel → ∃ out,
      propagateTaint banks refs fuel dirty emitted pruned = some out ∧
      dirty ⊆ out ∧ TaintClosed banks refs (emitted.filter (· ∉ pruned)) { v | v ∈ out } ∧
      (∀ s : Set Variant, (∀ v ∈ dirty, v ∈ s) →
        TaintClosed banks refs (emitted.filter (· ∉ pruned)) s → ∀ v ∈ out, v ∈ s) ∧
      (∀ refs' dirty' emitted' pruned', List.Perm refs' refs → (∀ v, v ∈ dirty' ↔ v ∈ dirty) →
        (∀ v, v ∈ emitted' ↔ v ∈ emitted) → (∀ v, v ∈ pruned' ↔ v ∈ pruned) →
        ∃ out', propagateTaint banks refs' fuel dirty' emitted' pruned' = some out' ∧
          ∀ v, v ∈ out' ↔ v ∈ out) ∧
      (∀ dirty', dirty ⊆ dirty' → ∃ out',
        propagateTaint banks refs fuel dirty' emitted pruned = some out' ∧ out ⊆ out') := by
  refine ⟨refs.length + 1, fun fuel hfuel => ?_⟩
  obtain ⟨out, hout, hclosed, hmem⟩ := propagateTaint_spec banks refs dirty emitted pruned hfuel
  refine ⟨out, hout, fun v hv => (hmem v).mpr (.seed hv), hclosed,
    fun s hseed hs v hv => ((hmem v).mp hv).least hs hseed, ?_, ?_⟩
  · intro refs' dirty' emitted' pruned' hperm hdirty hemitted hpruned
    obtain ⟨out', hout', _, hmem'⟩ := propagateTaint_spec banks refs' dirty' emitted' pruned'
      (by rw [hperm.length_eq]; exact hfuel)
    have hlive : ∀ v, v ∈ emitted'.filter (· ∉ pruned') ↔ v ∈ emitted.filter (· ∉ pruned) := by
      intro v
      rw [List.mem_filter, List.mem_filter, hemitted, decide_eq_true_eq, decide_eq_true_eq, hpruned]
    refine ⟨out', hout', fun v => (hmem' v).trans (Iff.trans ?_ (hmem v).symm)⟩
    constructor
    · exact fun h => h.congr (fun r hr => ⟨r, hperm.mem_iff.mp hr, rfl, fun _ h => h⟩)
        (fun v hv => (hlive v).mpr hv) fun v hv => (hdirty v).mp hv
    · exact fun h => h.congr (fun r hr => ⟨r, hperm.mem_iff.mpr hr, rfl, fun _ h => h⟩)
        (fun v hv => (hlive v).mp hv) fun v hv => (hdirty v).mpr hv
  · intro dirty' hsub
    obtain ⟨out', hout', _, hmem'⟩ := propagateTaint_spec banks refs dirty' emitted pruned hfuel
    exact ⟨out', hout', fun v hv => (hmem' v).mpr (((hmem v).mp hv).mono hsub)⟩

end SnesRecomp.Regen
