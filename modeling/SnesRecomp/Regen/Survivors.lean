import SnesRecomp.Regen.Promotion

/-!
# Survivors

What `_compute_prunable` and `_apply_variant_prune` leave of an address, with any `--banks`
filter.  `PruneStep` has the parts of a pass the survivor sets depend on, and takes the rest
as it comes: which bodies are written, which of them have a stub marker, what is demanded and
what is protected.  The steps of `prunePass` are such steps, with every bank written.

A canonical variant of a pruned one stays an entry whatever the order of the steps, so an
address that has had an entry keeps one, and the survivor map never has an empty set.
-/

namespace SnesRecomp.Regen

open Recompiler

/-! ### `_compute_prunable` -/

theorem mem_computePrunable_iff {cfg : RegenConfig} {dirty emitted protect : List Variant}
    {v : Variant} : v ∈ computePrunable cfg dirty emitted protect ↔
      v ∈ dirty ∧ v ∉ protect ∧ v.2 ∉ cfg.canonical v.1 ∧
        ∃ c ∈ cfg.canonical v.1, (v.1, c) ∈ emitted ∧ (v.1, c) ∉ dirty := by
  simp [computePrunable, and_assoc]

/-- **What is selected is dirty, neither canonical nor protected, and leaves a clean variant
of its address that was emitted.** -/
theorem computePrunable_leaves_clean {cfg : RegenConfig} {dirty emitted protect : List Variant}
    {v : Variant} (h : v ∈ computePrunable cfg dirty emitted protect) :
    v ∈ dirty ∧ v ∉ protect ∧ v.2 ∉ cfg.canonical v.1 ∧
      ∃ c, (v.1, c) ∈ emitted ∧ (v.1, c) ∉ dirty ∧
        (v.1, c) ∉ computePrunable cfg dirty emitted protect := by
  obtain ⟨hdirty, hprotect, hcanon, c, _, hemit, hclean⟩ := mem_computePrunable_iff.mp h
  exact ⟨hdirty, hprotect, hcanon, c, hemit, hclean,
    fun hsel => hclean (mem_computePrunable_iff.mp hsel).1⟩

/-! ### Steps -/

/-- The `--banks` filter: the banks that are written, and of the others the variants their
sources define. -/
structure BankFilter where
  writes : Nat → Bool
  skippedEmitted : List Variant
  preserved : Nat → Option (List (Bool × Bool))
  skippedEmitted_ok : ∀ v ∈ skippedEmitted, writes (bankOf v.1) = false
  preserved_ok : ∀ addr ws, preserved addr = some ws → writes (bankOf addr) = false ∧ ws ≠ []

/-- No filter. -/
def BankFilter.all : BankFilter where
  writes _ := true
  skippedEmitted := []
  preserved _ := none
  skippedEmitted_ok _ h := absurd h List.not_mem_nil
  preserved_ok _ _ h := by cases h

/-- What the survivor sets depend on. -/
structure SurvivorState where
  entries : List Variant
  valid : Nat → Option (List (Bool × Bool))
  dirty : List Variant
  emitted : List Variant
  emittedNow : List Variant
  pruned : List Variant

def BankFilter.initial (flt : BankFilter) (entries : List Variant) : SurvivorState where
  entries := entries
  valid := flt.preserved
  dirty := []
  emitted := []
  emittedNow := []
  pruned := []

inductive PruneStep
  /-- Discovery or promotion appends entries. -/
  | add (vs : List Variant)
  /-- The survivor map is rebuilt after a discovery. -/
  | rebuild
  /-- Of the entries in the banks that are written, these get a body, and of these bodies
  those have a stub marker. -/
  | emit (written stub : Variant → Bool)
  /-- The emit-truth prune. -/
  | pruneDirty (protect : List Variant)
  /-- The reference-taint prune. -/
  | pruneRefs (refs : Variant → List Variant) (protect : List Variant)

section Steps

variable (cfg : RegenConfig) (flt : BankFilter)

namespace SurvivorState

variable (s : SurvivorState)

/-- `_apply_variant_prune`. -/
def applyVariantPrune : SurvivorState :=
  let entries := s.entries.filter (· ∉ s.pruned)
  { s with
    entries := entries
    valid := fun addr => (flt.preserved addr).or (survivorMap entries addr) }

def prune (vs : List Variant) : SurvivorState :=
  if vs = [] then s else { s with pruned := s.pruned ++ vs }.applyVariantPrune flt

/-- `newly_pruned`. -/
def newlyPruned (protect : List Variant) : List Variant :=
  (computePrunable cfg s.dirty s.emitted protect).filter (· ∉ s.pruned)

/-- `ref_prunable`. -/
def refPrunable (refs : Variant → List Variant) (protect : List Variant) : List Variant :=
  let graph := s.emittedNow.map fun v => (v, refs v)
  let emittedForRef := s.emittedNow ++ flt.skippedEmitted
  saturate (fun dropped =>
    (computePrunable cfg
      (propagateReferenceTaint cfg s.dirty graph emittedForRef (s.pruned ++ dropped))
      emittedForRef protect).filter fun v => decide (v ∉ s.pruned ∧ v ∉ dropped))
    (s.dirty.length + graph.length) []

end SurvivorState

def pruneStep : PruneStep → SurvivorState → SurvivorState
  | .add vs, s => { s with entries := s.entries ++ vs }
  | .rebuild, s => s.applyVariantPrune flt
  | .emit written stub, s =>
    let now := s.entries.filter fun v => flt.writes (bankOf v.1) && written v
    { s with dirty := s.dirty ++ now.filter stub, emitted := s.emitted ++ now, emittedNow := now }
  | .pruneDirty protect, s => s.prune flt (s.newlyPruned cfg protect)
  | .pruneRefs refs protect, s => s.prune flt (s.refPrunable cfg flt refs protect)

end Steps

/-! ### The invariant -/

/-- The entries of an address that are not pruned. -/
def HasSurvivor (s : SurvivorState) (addr : Nat) : Prop :=
  ∃ w, (addr, w) ∈ s.entries ∧ (addr, w) ∉ s.pruned

structure SurvivorSound (cfg : RegenConfig) (flt : BankFilter) (s : SurvivorState) : Prop where
  dirty_ok : ∀ v ∈ s.dirty, flt.writes (bankOf v.1) = true
  emitted_ok : ∀ v ∈ s.emitted, flt.writes (bankOf v.1) = true ∧ (v ∈ s.entries ∨ v ∈ s.pruned)
  now_ok : ∀ v ∈ s.emittedNow, v ∈ s.emitted
  pruned_ok : ∀ v ∈ s.pruned,
    flt.writes (bankOf v.1) = true ∧ Replaceable cfg s.entries v ∧ ∃ ws, s.valid v.1 = some ws
  preserved_ok : ∀ addr ws, flt.preserved addr = some ws → s.valid addr = some ws
  valid_ok : ∀ addr ws, s.valid addr = some ws →
    flt.preserved addr = some ws ∨
      ws ≠ [] ∧ ∀ w ∈ ws, (addr, w) ∈ s.entries ∧ (addr, w) ∉ s.pruned

section Invariant

variable {cfg : RegenConfig} {flt : BankFilter} {s : SurvivorState}

theorem survivorSound_initial (cfg : RegenConfig) (flt : BankFilter) (entries : List Variant) :
    SurvivorSound cfg flt (flt.initial entries) where
  dirty_ok _ h := absurd h List.not_mem_nil
  emitted_ok _ h := absurd h List.not_mem_nil
  now_ok _ h := h
  pruned_ok _ h := absurd h List.not_mem_nil
  preserved_ok _ _ h := h
  valid_ok _ _ h := Or.inl h

namespace SurvivorState

@[simp] theorem mem_applyVariantPrune {v : Variant} :
    v ∈ (s.applyVariantPrune flt).entries ↔ v ∈ s.entries ∧ v ∉ s.pruned := by
  simp [applyVariantPrune]

theorem valid_applyVariantPrune {addr : Nat} {ws : List (Bool × Bool)}
    (h : (s.applyVariantPrune flt).valid addr = some ws) :
    flt.preserved addr = some ws ∨
      ws ≠ [] ∧ ∀ w ∈ ws, (addr, w) ∈ (s.applyVariantPrune flt).entries := by
  rcases Option.or_eq_some_iff.mp h with h | ⟨_, h⟩
  · exact Or.inl h
  · exact Or.inr (survivorMap_eq_some h)

/-- An entry's address is known to a rebuilt map. -/
theorem isSome_valid_applyVariantPrune {addr : Nat} {w : Bool × Bool}
    (h : (addr, w) ∈ (s.applyVariantPrune flt).entries) :
    ∃ ws, (s.applyVariantPrune flt).valid addr = some ws := by
  obtain ⟨ws, hws⟩ := survivorMap_of_mem h
  refine Option.isSome_iff_exists.mp ?_
  show ((flt.preserved addr).or (survivorMap (s.applyVariantPrune flt).entries addr)).isSome = true
  rw [hws, Option.isSome_or, Option.isSome_some, Bool.or_true]

end SurvivorState

/-- A canonical variant is not pruned. -/
theorem SurvivorSound.not_pruned (h : SurvivorSound cfg flt s) {addr : Nat} {c : Bool × Bool}
    (hc : c ∈ cfg.canonical addr) : (addr, c) ∉ s.pruned :=
  fun hp => (h.pruned_ok _ hp).2.1.1 hc

/-- An entry that is pruned has a sibling that is not. -/
theorem SurvivorSound.hasSurvivor (h : SurvivorSound cfg flt s) {v : Variant} (hv : v ∈ s.entries) :
    HasSurvivor s v.1 := by
  by_cases hp : v ∈ s.pruned
  · obtain ⟨_, ⟨_, c, hc, hentry⟩, _⟩ := h.pruned_ok v hp
    exact ⟨c, hentry, h.not_pruned hc⟩
  · exact ⟨v.2, hv, hp⟩

/-! ### What a step keeps -/

theorem SurvivorSound.add (h : SurvivorSound cfg flt s) (vs : List Variant) :
    SurvivorSound cfg flt { s with entries := s.entries ++ vs } where
  dirty_ok := h.dirty_ok
  emitted_ok v hv := (h.emitted_ok v hv).imp_right (Or.imp_left (List.mem_append_left _))
  now_ok := h.now_ok
  pruned_ok v hv :=
    let ⟨hbank, ⟨hcanon, c, hc, hentry⟩, hvalid⟩ := h.pruned_ok v hv
    ⟨hbank, ⟨hcanon, c, hc, List.mem_append_left _ hentry⟩, hvalid⟩
  preserved_ok := h.preserved_ok
  valid_ok addr ws hws := (h.valid_ok addr ws hws).imp_right fun hok =>
    ⟨hok.1, fun w hw => (hok.2 w hw).imp_left (List.mem_append_left _)⟩

theorem SurvivorSound.emit (h : SurvivorSound cfg flt s) (written stub : Variant → Bool) :
    SurvivorSound cfg flt (pruneStep cfg flt (.emit written stub) s) := by
  have hnow : ∀ v ∈ s.entries.filter fun v => flt.writes (bankOf v.1) && written v,
      flt.writes (bankOf v.1) = true ∧ v ∈ s.entries := by
    intro v hv
    obtain ⟨hentry, hv⟩ := List.mem_filter.mp hv
    exact ⟨(Bool.and_eq_true_iff.mp hv).1, hentry⟩
  refine ⟨fun v hv => ?_, fun v hv => ?_, fun v hv => List.mem_append_right _ hv, h.pruned_ok,
    h.preserved_ok, h.valid_ok⟩
  · rcases List.mem_append.mp hv with hv | hv
    · exact h.dirty_ok v hv
    · exact (hnow v (List.mem_filter.mp hv).1).1
  · rcases List.mem_append.mp hv with hv | hv
    · exact h.emitted_ok v hv
    · exact (hnow v hv).imp_right Or.inl

/-- Variants of the written banks that have a canonical entry may be pruned. -/
theorem SurvivorSound.applyVariantPrune (h : SurvivorSound cfg flt s) {vs : List Variant}
    (hvs : ∀ v ∈ vs, flt.writes (bankOf v.1) = true ∧ Replaceable cfg s.entries v) :
    SurvivorSound cfg flt ({ s with pruned := s.pruned ++ vs }.applyVariantPrune flt) := by
  have hpruned : ∀ v ∈ s.pruned ++ vs,
      flt.writes (bankOf v.1) = true ∧ Replaceable cfg s.entries v := by
    intro v hv
    rcases List.mem_append.mp hv with hv | hv
    · exact ⟨(h.pruned_ok v hv).1, (h.pruned_ok v hv).2.1⟩
    · exact hvs v hv
  refine ⟨h.dirty_ok, fun v hv => ?_, h.now_ok, fun v hv => ?_, fun addr ws hws => ?_,
    fun addr ws hws => ?_⟩
  · obtain ⟨hbank, hkept⟩ := h.emitted_ok v hv
    refine ⟨hbank, ?_⟩
    by_cases hp : v ∈ s.pruned ++ vs
    · exact Or.inr hp
    · rcases hkept with hentry | hold
      · exact Or.inl (SurvivorState.mem_applyVariantPrune.mpr ⟨hentry, hp⟩)
      · exact absurd (List.mem_append_left _ hold) hp
  · -- the canonical sibling of a pruned variant is not pruned itself
    obtain ⟨hbank, hcanon, c, hc, hentry⟩ := hpruned v hv
    have hstays : (v.1, c) ∈
        ({ s with pruned := s.pruned ++ vs }.applyVariantPrune flt).entries :=
      SurvivorState.mem_applyVariantPrune.mpr ⟨hentry, fun hp => (hpruned _ hp).2.1 hc⟩
    exact ⟨hbank, ⟨hcanon, c, hc, hstays⟩, SurvivorState.isSome_valid_applyVariantPrune hstays⟩
  · show (flt.preserved addr).or (survivorMap _ addr) = some ws
    rw [hws, Option.some_or]
  · refine (SurvivorState.valid_applyVariantPrune hws).imp_right fun ⟨hne, hmem⟩ => ⟨hne, ?_⟩
    exact fun w hw => ⟨hmem w hw, (SurvivorState.mem_applyVariantPrune.mp (hmem w hw)).2⟩

theorem SurvivorSound.prune (h : SurvivorSound cfg flt s) {vs : List Variant}
    (hvs : ∀ v ∈ vs, flt.writes (bankOf v.1) = true ∧ Replaceable cfg s.entries v) :
    SurvivorSound cfg flt (s.prune flt vs) := by
  unfold SurvivorState.prune
  split
  · exact h
  · exact h.applyVariantPrune hvs

theorem SurvivorSound.newlyPruned (h : SurvivorSound cfg flt s) (protect : List Variant) :
    ∀ v ∈ s.newlyPruned cfg protect,
      flt.writes (bankOf v.1) = true ∧ Replaceable cfg s.entries v := by
  intro v hv
  obtain ⟨hdirty, _, hcanon, c, hc, hemit, _⟩ :=
    mem_computePrunable_iff.mp (List.mem_filter.mp hv).1
  refine ⟨h.dirty_ok v hdirty, hcanon, c, hc, ?_⟩
  exact (h.emitted_ok _ hemit).2.resolve_right (h.not_pruned hc)

/-- The taint stays in the banks that are written. -/
theorem SurvivorSound.refPrunable (h : SurvivorSound cfg flt s)
    (refs : Variant → List Variant) (protect : List Variant) :
    ∀ v ∈ s.refPrunable cfg flt refs protect,
      flt.writes (bankOf v.1) = true ∧ Replaceable cfg s.entries v := by
  refine saturate_induct _ (fun dropped _ v hv => ?_) _ _ (fun v hv => absurd hv List.not_mem_nil)
  obtain ⟨htaint, _, hcanon, c, hc, hemit, _⟩ :=
    mem_computePrunable_iff.mp (List.mem_filter.mp hv).1
  have hbank : flt.writes (bankOf v.1) = true := by
    rcases List.mem_append.mp (mem_propagate htaint) with hdirty | hsource
    · exact h.dirty_ok v hdirty
    · rw [List.map_map] at hsource
      obtain ⟨u, hu, rfl⟩ := List.mem_map.mp hsource
      exact (h.emitted_ok _ (h.now_ok u hu)).1
  refine ⟨hbank, hcanon, c, hc, ?_⟩
  rcases List.mem_append.mp hemit with hnow | hskip
  · exact (h.emitted_ok _ (h.now_ok _ hnow)).2.resolve_right (h.not_pruned hc)
  · have hoff := flt.skippedEmitted_ok _ hskip
    rw [hbank] at hoff
    cases hoff

theorem survivorSound_pruneStep (a : PruneStep) (h : SurvivorSound cfg flt s) :
    SurvivorSound cfg flt (pruneStep cfg flt a s) := by
  cases a with
  | add vs => exact h.add vs
  | rebuild =>
    have hprune := @SurvivorSound.applyVariantPrune cfg flt s h [] fun v hv =>
      absurd hv List.not_mem_nil
    simp only [List.append_nil] at hprune
    exact hprune
  | emit written stub => exact h.emit written stub
  | pruneDirty protect => exact h.prune (h.newlyPruned protect)
  | pruneRefs refs protect => exact h.prune (h.refPrunable refs protect)

/-! ### Addresses stay known -/

theorem hasSurvivor_prune {vs : List Variant} {addr : Nat} (h : SurvivorSound cfg flt s)
    (hvs : ∀ v ∈ vs, flt.writes (bankOf v.1) = true ∧ Replaceable cfg s.entries v)
    (hs : HasSurvivor s addr) : HasSurvivor (s.prune flt vs) addr := by
  obtain ⟨w, hentry, hp⟩ := hs
  by_cases hnil : vs = []
  · rw [SurvivorState.prune, if_pos hnil]
    exact ⟨w, hentry, hp⟩
  rw [SurvivorState.prune, if_neg hnil]
  by_cases hsel : (addr, w) ∈ vs
  · -- the variant goes, and the canonical one of its address stays
    obtain ⟨_, _, c, hc, hcanon⟩ := hvs _ hsel
    have hkept : (addr, c) ∉ s.pruned ++ vs := fun hmem =>
      (List.mem_append.mp hmem).elim (h.not_pruned hc) fun hmem => (hvs _ hmem).2.1 hc
    exact ⟨c, SurvivorState.mem_applyVariantPrune.mpr ⟨hcanon, hkept⟩, hkept⟩
  · have hkept : (addr, w) ∉ s.pruned ++ vs := fun hmem =>
      (List.mem_append.mp hmem).elim hp hsel
    exact ⟨w, SurvivorState.mem_applyVariantPrune.mpr ⟨hentry, hkept⟩, hkept⟩

theorem hasSurvivor_pruneStep (a : PruneStep) {addr : Nat} (h : SurvivorSound cfg flt s)
    (hs : HasSurvivor s addr) : HasSurvivor (pruneStep cfg flt a s) addr := by
  cases a with
  | add vs =>
    obtain ⟨w, hentry, hp⟩ := hs
    exact ⟨w, List.mem_append_left _ hentry, hp⟩
  | rebuild =>
    obtain ⟨w, hentry, hp⟩ := hs
    exact ⟨w, SurvivorState.mem_applyVariantPrune.mpr ⟨hentry, hp⟩, hp⟩
  | emit written stub => exact hs
  | pruneDirty protect => exact hasSurvivor_prune h (h.newlyPruned protect) hs
  | pruneRefs refs protect => exact hasSurvivor_prune h (h.refPrunable refs protect) hs

/-- An address in the survivor map has an entry left, or a preserved source. -/
theorem SurvivorSound.known (h : SurvivorSound cfg flt s) {addr : Nat} {ws : List (Bool × Bool)}
    (hws : s.valid addr = some ws) : flt.preserved addr = some ws ∨ HasSurvivor s addr := by
  refine (h.valid_ok addr ws hws).imp_right fun ⟨hne, hmem⟩ => ?_
  obtain ⟨w, hw⟩ := List.exists_mem_of_ne_nil ws hne
  exact ⟨w, hmem w hw⟩

/-- No survivor set is empty or has a pruned variant in it. -/
theorem SurvivorSound.survivors (h : SurvivorSound cfg flt s) {addr : Nat}
    {ws : List (Bool × Bool)} (hws : s.valid addr = some ws) :
    ws ≠ [] ∧ ∀ w ∈ ws, (addr, w) ∉ s.pruned ∧
      ((addr, w) ∈ s.entries ∨ flt.preserved addr = some ws) := by
  rcases h.valid_ok addr ws hws with hkept | ⟨hne, hmem⟩
  · obtain ⟨hoff, hne⟩ := flt.preserved_ok addr ws hkept
    refine ⟨hne, fun w _ => ⟨fun hp => ?_, Or.inr hkept⟩⟩
    rw [(h.pruned_ok _ hp).1] at hoff
    cases hoff
  · exact ⟨hne, fun w hw => ⟨(hmem w hw).2, Or.inl (hmem w hw).1⟩⟩

/-- The survivor map goes on knowing what it knows. -/
theorem isSome_valid_pruneStep (a : PruneStep) {addr : Nat} (h : SurvivorSound cfg flt s)
    (hs : (s.valid addr).isSome = true) : ((pruneStep cfg flt a s).valid addr).isSome = true := by
  obtain ⟨ws, hws⟩ := Option.isSome_iff_exists.mp hs
  have hnext := survivorSound_pruneStep a h
  rcases h.known hws with hkept | hleft
  · rw [hnext.preserved_ok addr ws hkept, Option.isSome_some]
  -- a step that makes the map anew makes it from the entries that are left
  have hrebuilt : ∀ t : SurvivorState, HasSurvivor (t.applyVariantPrune flt) addr →
      ((t.applyVariantPrune flt).valid addr).isSome = true := by
    rintro t ⟨w, hentry, _⟩
    exact Option.isSome_iff_exists.mpr (SurvivorState.isSome_valid_applyVariantPrune hentry)
  have hstep := hasSurvivor_pruneStep a h hleft
  have hprune : ∀ vs, HasSurvivor (s.prune flt vs) addr →
      ((s.prune flt vs).valid addr).isSome = true := by
    intro vs hvs
    unfold SurvivorState.prune at hvs ⊢
    split at hvs
    next hnil => rwa [if_pos hnil]
    next hnil => rw [if_neg hnil]; exact hrebuilt _ hvs
  cases a with
  | add vs => exact hs
  | rebuild => exact hrebuilt s hstep
  | emit written stub => exact hs
  | pruneDirty protect => exact hprune _ hstep
  | pruneRefs refs protect => exact hprune _ hstep

/-! ### What targets resolve to -/

/-- The survivor set `valid_variant_list` finds for a target, and the address it is of. -/
def survivorRecord (valid : Nat → Option (List (Bool × Bool))) (addr24 : Nat) :
    Option (Nat × List (Bool × Bool)) :=
  let a := addr24 &&& 0xFFFFFF
  match valid a with
  | some ws => some (a, ws)
  | none =>
    if isMirrored (bankOf a) then (valid (a ^^^ 0x800000)).map (a ^^^ 0x800000, ·) else none

/-- A surviving variant of a target: one of its survivor set, with an entry or a preserved
source and not pruned.  Of a target without a set, nothing was pruned. -/
def Survives (flt : BankFilter) (s : SurvivorState) (addr24 : Nat) (w : Bool × Bool) : Prop :=
  match survivorRecord s.valid addr24 with
  | some (a, ws) =>
    w ∈ ws ∧ (a, w) ∉ s.pruned ∧ ((a, w) ∈ s.entries ∨ flt.preserved a = some ws)
  | none => (addr24 &&& 0xFFFFFF, w) ∉ s.pruned

theorem validVariantList_eq (maps : Maps) (addr24 : Nat) :
    validVariantList maps addr24 =
      match survivorRecord maps.validVariants addr24 with
      | some (_, ws) => if ws = [] then mxVariants else mxVariants.filter (· ∈ ws)
      | none => mxVariants := by
  unfold validVariantList survivorRecord
  dsimp only
  cases maps.validVariants (addr24 &&& 0xFFFFFF) with
  | some ws => rfl
  | none =>
    have hbank : ((addr24 &&& 0xFFFFFF) >>> 16) &&& 0xFF = bankOf (addr24 &&& 0xFFFFFF) := rfl
    rw [hbank]
    by_cases hm : isMirrored (bankOf (addr24 &&& 0xFFFFFF)) = true
    · rw [if_pos (of_decide_eq_true hm), if_pos hm]
      cases maps.validVariants ((addr24 &&& 0xFFFFFF) ^^^ 0x800000) <;> rfl
    · rw [if_neg fun h => hm (decide_eq_true h), if_neg hm]

theorem survivorRecord_eq_some {valid : Nat → Option (List (Bool × Bool))} {addr24 a : Nat}
    {ws : List (Bool × Bool)} (h : survivorRecord valid addr24 = some (a, ws)) :
    valid a = some ws := by
  unfold survivorRecord at h
  dsimp only at h
  cases hvalid : valid (addr24 &&& 0xFFFFFF) with
  | some us =>
    rw [hvalid] at h
    cases h
    exact hvalid
  | none =>
    rw [hvalid] at h
    dsimp only at h
    split at h
    · obtain ⟨us, hus, heq⟩ := Option.map_eq_some_iff.mp h
      cases heq
      exact hus
    · cases h

/-- What `valid_variant_list` returns for a target survives. -/
theorem SurvivorSound.survives (h : SurvivorSound cfg flt s) {maps : Maps}
    (hmaps : maps.validVariants = s.valid) {addr24 : Nat} {w : Bool × Bool}
    (hw : w ∈ validVariantList maps addr24) : Survives flt s addr24 w := by
  rw [validVariantList_eq, hmaps] at hw
  unfold Survives
  cases hrec : survivorRecord s.valid addr24 with
  | some r =>
    obtain ⟨a, ws⟩ := r
    obtain ⟨hne, hmem⟩ := h.survivors (survivorRecord_eq_some hrec)
    rw [hrec] at hw
    dsimp only at hw ⊢
    rw [if_neg hne] at hw
    have hws : w ∈ ws := of_decide_eq_true (List.mem_filter.mp hw).2
    exact ⟨hws, hmem w hws⟩
  | none =>
    intro hp
    obtain ⟨_, _, ws, hws⟩ := h.pruned_ok _ hp
    unfold survivorRecord at hrec
    dsimp only at hrec hws
    rw [hws] at hrec
    cases hrec

end Invariant

/-! ### Runs -/

/-- What holds of the survivor sets after a run. -/
structure SurvivorsExist (flt : BankFilter) (s : SurvivorState) : Prop where
  nonempty : ∀ addr ws, s.valid addr = some ws → ws ≠ []
  entry : ∀ v ∈ s.entries, HasSurvivor s v.1
  resolved : ∀ ctx : EmitCtx, ctx.maps.validVariants = s.valid → ∀ addr24 m x,
    Survives flt s addr24 (ctx.resolveVariantForTarget addr24 m x)
  named : ∀ maps : Maps, maps.validVariants = s.valid → ∀ addr24,
    (∀ line ∈ variantDispatchCaseLines maps addr24,
      ∃ w, line.variant = some w ∧ Survives flt s addr24 w) ∧
    ∀ v, ∃ line ∈ variantDispatchCaseLines maps addr24, line.label = some v

theorem SurvivorSound.survivorsExist {cfg : RegenConfig} {flt : BankFilter} {s : SurvivorState}
    (h : SurvivorSound cfg flt s) : SurvivorsExist flt s where
  nonempty _ _ hws := (h.survivors hws).1
  entry _ hv := h.hasSurvivor hv
  resolved ctx hmaps addr24 m x := h.survives hmaps (ctx.resolveVariantForTarget_mem addr24 m x)
  named maps hmaps addr24 := by
    refine ⟨fun line hline => ?_, exists_caseLine maps addr24⟩
    obtain ⟨⟨w, hw, hvariant⟩, _⟩ := mem_variantDispatchCaseLines hline
    exact ⟨w, hvariant, h.survives hmaps hw⟩

/-- An address with an entry or a survivor set keeps what it has of them. -/
structure StaysKnown (s t : SurvivorState) : Prop where
  entry : ∀ addr, HasSurvivor s addr → HasSurvivor t addr
  valid : ∀ addr, (s.valid addr).isSome = true → (t.valid addr).isSome = true

theorem staysKnown_run {cfg : RegenConfig} {flt : BankFilter} :
    ∀ (steps : List PruneStep) (s : SurvivorState), SurvivorSound cfg flt s →
      SurvivorSound cfg flt (Runs.final (pruneStep cfg flt) steps s) ∧
        StaysKnown s (Runs.final (pruneStep cfg flt) steps s) := by
  intro steps
  induction steps with
  | nil => intro s h; exact ⟨h, fun _ h => h, fun _ h => h⟩
  | cons a steps ih =>
    intro s h
    obtain ⟨hsound, hknown⟩ := ih _ (survivorSound_pruneStep a h)
    exact ⟨hsound, fun addr hs => hknown.entry addr (hasSurvivor_pruneStep a h hs),
      fun addr hs => hknown.valid addr (isSome_valid_pruneStep a h hs)⟩

/-! ### The steps of a pass -/

/-- The part of the loop's state the survivor sets depend on, after the bodies `now`. -/
def RegenState.survivors (s : RegenState) (now : List Variant) : SurvivorState where
  entries := s.entries
  valid := s.valid
  dirty := s.dirty
  emitted := s.emitted
  emittedNow := now
  pruned := s.pruned

theorem survivors_prune (s : RegenState) (now vs : List Variant) :
    (s.prune vs).survivors now = (s.survivors now).prune .all vs := by
  by_cases h : vs = []
  · rw [h]
    rfl
  · rw [RegenState.prune_of_ne h, SurvivorState.prune, if_neg h]
    rfl

section Pass

variable (cfg : RegenConfig) (env : PassEnv) (s : RegenState)

/-- The entries that get a body. -/
def isWritten (v : Variant) : Bool :=
  bankOk (passEmits cfg env s) (bankOf v.1) && (emitVariant env (afterDiscovery cfg env s) v).isSome

def hasStub (v : Variant) : Bool :=
  (emitVariant env (afterDiscovery cfg env s) v).any (·.dirty)

/-- The bodies of a pass, as a walk over the entries. -/
theorem passBodies_eq : passBodies cfg env s =
    (afterDiscovery cfg env s).entries.filterMap fun v =>
      if bankOk (passEmits cfg env s) (bankOf v.1) then
        (emitVariant env (afterDiscovery cfg env s) v).map (v, ·) else none := by
  show List.filterMap _ (List.map _ _) = _
  rw [List.filterMap_map]
  rfl

theorem map_fst_passBodies : (passBodies cfg env s).map (·.1) =
    (afterDiscovery cfg env s).entries.filter (isWritten cfg env s) := by
  rw [passBodies_eq, List.map_filterMap, ← List.filterMap_eq_filter]
  refine List.filterMap_congr fun v _ => ?_
  by_cases hok : bankOk (passEmits cfg env s) (bankOf v.1) = true
  · rw [if_pos hok]
    cases hb : emitVariant env (afterDiscovery cfg env s) v <;>
      simp [Option.guard, isWritten, hok, hb]
  · rw [if_neg hok]
    simp [Option.guard, isWritten, hok]

theorem map_fst_dirtyBodies : ((passBodies cfg env s).filter (·.2.dirty)).map (·.1) =
    ((afterDiscovery cfg env s).entries.filter (isWritten cfg env s)).filter
      (hasStub cfg env s) := by
  rw [← map_fst_passBodies, List.filter_map]
  refine congrArg (List.map _) (List.filter_congr fun r hr => ?_)
  show r.2.dirty = (emitVariant env (afterDiscovery cfg env s) r.1).any (·.dirty)
  rw [(mem_passBodies env hr).2, Option.any_some]

theorem survivors_afterEmit (now : List Variant) :
    pruneStep cfg .all (.emit (isWritten cfg env s) (hasStub cfg env s))
        ((afterDiscovery cfg env s).survivors now) =
      (afterEmit cfg env s).survivors ((passBodies cfg env s).map (·.1)) := by
  have hnow : (afterDiscovery cfg env s).entries.filter (fun v =>
      BankFilter.all.writes (bankOf v.1) && isWritten cfg env s v) =
        (passBodies cfg env s).map (·.1) := (map_fst_passBodies cfg env s).symm
  simp only [pruneStep, RegenState.survivors, hnow, afterEmit]
  rw [map_fst_dirtyBodies, map_fst_passBodies]

/-- The references of an entry's body. -/
def bodyRefs (v : Variant) : List Variant :=
  match emitVariant env (afterDiscovery cfg env s) v with
  | none => []
  | some b =>
    ((((b.fn.blocks.map (·.2)) ++ [b.fn.epilogue]).flatMap directRefs).map
      (afterPromotion cfg env s).symbol).filter (· ≠ v)

theorem scanVariantRefs_passBodies :
    scanVariantRefs (afterPromotion cfg env s) (passBodies cfg env s) =
      ((passBodies cfg env s).map (·.1)).map fun v => (v, bodyRefs cfg env s v) := by
  rw [List.map_map]
  refine List.map_congr_left fun r hr => ?_
  show _ = (r.1, bodyRefs cfg env s r.1)
  unfold bodyRefs
  rw [(mem_passBodies env hr).2]

theorem refPrunable_survivors :
    ((afterPromotion cfg env s).survivors ((passBodies cfg env s).map (·.1))).refPrunable cfg .all
        (bodyRefs cfg env s) (protectedRefTargets cfg
          (scanVariantRefs (afterPromotion cfg env s) (passBodies cfg env s))
          (afterPromotion cfg env s).dirty) =
      droppedRefs cfg env s := by
  unfold droppedRefs refPrunable SurvivorState.refPrunable
  dsimp only [RegenState.survivors, BankFilter.all]
  rw [← scanVariantRefs_passBodies, List.append_nil]
  rfl

/-- **A pass is a run of these steps.** -/
theorem prunePass_steps (now : List Variant) :
    ∃ steps now', Runs.final (pruneStep cfg .all) steps (s.survivors now) =
      (prunePass cfg env s).survivors now' := by
  have hdiscover : ∃ steps, Runs.final (pruneStep cfg .all) steps (s.survivors now) =
      (afterDiscovery cfg env s).survivors now := by
    rcases afterDiscovery_cases cfg env s with h | h
    · exact ⟨[.add (discover cfg env s)], by rw [h]; rfl⟩
    · exact ⟨[.add (discover cfg env s), .rebuild], by rw [h]; rfl⟩
  obtain ⟨first, hfirst⟩ := hdiscover
  have hafter : ∃ steps, Runs.final (pruneStep cfg .all) steps (s.survivors now) =
      (afterPromotion cfg env s).survivors ((passBodies cfg env s).map (·.1)) := by
    refine ⟨first ++ [.emit (isWritten cfg env s) (hasStub cfg env s),
      .pruneDirty (protectedRefTargets cfg
        (scanVariantRefs (afterEmit cfg env s) (passBodies cfg env s)) (afterEmit cfg env s).dirty),
      .add (addedEntries cfg env s)], ?_⟩
    rw [Runs.final_append, hfirst]
    simp only [Runs.final_cons, Runs.final_nil]
    rw [survivors_afterEmit]
    have hprune := survivors_prune (afterEmit cfg env s) ((passBodies cfg env s).map (·.1))
      (newlyPruned cfg env s)
    exact congrArg (pruneStep cfg .all (.add (addedEntries cfg env s))) hprune.symm
  obtain ⟨steps, hsteps⟩ := hafter
  unfold prunePass
  split
  · split
    · exact ⟨steps, _, hsteps⟩
    · refine ⟨steps ++ [.pruneRefs (bodyRefs cfg env s) (protectedRefTargets cfg
        (scanVariantRefs (afterPromotion cfg env s) (passBodies cfg env s))
        (afterPromotion cfg env s).dirty)], (passBodies cfg env s).map (·.1), ?_⟩
      rw [Runs.final_append, hsteps]
      simp only [Runs.final_cons, Runs.final_nil, pruneStep]
      rw [refPrunable_survivors, ← survivors_prune]
      rfl
  · exact ⟨steps, _, hsteps⟩

end Pass

/-- **`_compute_prunable` selects no canonical, protected or clean variant and leaves a clean
one; and however many passes prune, no survivor set is empty, no address loses its last entry,
and what targets and switches resolve to survives.** -/
theorem survivors_exist (cfg : RegenConfig) (flt : BankFilter) :
    (∀ dirty emitted protect v, v ∈ computePrunable cfg dirty emitted protect →
      v.2 ∉ cfg.canonical v.1 ∧ v ∉ protect ∧ v ∈ dirty ∧
        ∃ c, (v.1, c) ∈ emitted ∧ (v.1, c) ∉ dirty ∧
          (v.1, c) ∉ computePrunable cfg dirty emitted protect) ∧
    ∀ (entries : List Variant) (before after : List PruneStep),
      let s := Runs.final (pruneStep cfg flt) before (flt.initial entries)
      let t := Runs.final (pruneStep cfg flt) after s
      SurvivorsExist flt t ∧ StaysKnown s t := by
  refine ⟨fun dirty emitted protect v hv => ?_, fun entries before after => ?_⟩
  · obtain ⟨hdirty, hprotect, hcanon, hclean⟩ := computePrunable_leaves_clean hv
    exact ⟨hcanon, hprotect, hdirty, hclean⟩
  · have hs := (staysKnown_run before _ (survivorSound_initial cfg flt entries)).1
    obtain ⟨ht, hknown⟩ := staysKnown_run after _ hs
    exact ⟨ht.survivorsExist, hknown⟩

end SnesRecomp.Regen
