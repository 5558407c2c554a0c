import SnesRecomp.Regen.Passes

/-!
# What every pass keeps

`Sound` is the invariant of the loop.  A pruned variant is no canonical one, and a canonical
variant of its address stays an entry; so the survivor map knows the address, and it never
lists a pruned variant.  `Named` says that every entry had its name in time for the emit.
-/

namespace SnesRecomp.Regen

open Recompiler

/-! ### Survivor maps -/

theorem mem_widthsAt {vs : List Variant} {addr : Nat} {w : Bool × Bool} :
    w ∈ widthsAt vs addr ↔ (addr, w) ∈ vs := by
  constructor
  · intro h
    obtain ⟨v, hv, rfl⟩ := List.mem_map.mp h
    obtain ⟨hmem, haddr⟩ := List.mem_filter.mp hv
    obtain rfl : v.1 = addr := of_decide_eq_true haddr
    exact hmem
  · intro h
    exact List.mem_map.mpr ⟨(addr, w), List.mem_filter.mpr ⟨h, decide_eq_true rfl⟩, rfl⟩

theorem survivorMap_eq_some {entries : List Variant} {addr : Nat} {ws : List (Bool × Bool)}
    (h : survivorMap entries addr = some ws) : ws ≠ [] ∧ ∀ w ∈ ws, (addr, w) ∈ entries := by
  unfold survivorMap at h
  split at h
  · cases h
  next hne =>
    obtain rfl := Option.some.inj h
    exact ⟨hne, fun w hw => mem_widthsAt.mp hw⟩

theorem survivorMap_of_mem {entries : List Variant} {addr : Nat} {w : Bool × Bool}
    (h : (addr, w) ∈ entries) : ∃ ws, survivorMap entries addr = some ws := by
  have hne : widthsAt entries addr ≠ [] := List.ne_nil_of_mem (mem_widthsAt.mpr h)
  exact ⟨_, if_neg hne⟩

namespace RegenState

variable {s : RegenState} {vs : List Variant} {v : Variant}

@[simp] theorem mem_applyPrune_entries :
    v ∈ s.applyPrune.entries ↔ v ∈ s.entries ∧ v ∉ s.pruned := by
  simp [applyPrune]

@[simp] theorem prune_nil : s.prune [] = s := rfl

theorem prune_of_ne (h : vs ≠ []) :
    s.prune vs = { s with pruned := s.pruned ++ vs }.applyPrune := if_neg h

@[simp] theorem mem_prune_pruned : v ∈ (s.prune vs).pruned ↔ v ∈ s.pruned ∨ v ∈ vs := by
  by_cases h : vs = []
  · rw [h, prune_nil]
    simp
  · rw [prune_of_ne h]
    exact List.mem_append

@[simp] theorem prune_names : (s.prune vs).names = s.names := by
  by_cases h : vs = []
  · rw [h, prune_nil]
  · rw [prune_of_ne h]
    rfl

theorem mem_prune_of_not_pruned (h : v ∈ s.entries) (hp : v ∉ (s.prune vs).pruned) :
    v ∈ (s.prune vs).entries := by
  by_cases hvs : vs = []
  · rwa [hvs, prune_nil]
  · rw [prune_of_ne hvs] at hp ⊢
    exact mem_applyPrune_entries.mpr ⟨h, hp⟩

theorem mem_of_mem_prune (h : v ∈ (s.prune vs).entries) : v ∈ s.entries := by
  by_cases hvs : vs = []
  · rwa [hvs, prune_nil] at h
  · rw [prune_of_ne hvs] at h
    exact (mem_applyPrune_entries.mp h).1

/-- No entry is a pruned variant. -/
def Clean (s : RegenState) : Prop := ∀ v ∈ s.entries, v ∉ s.pruned

theorem Clean.prune (h : s.Clean) (vs : List Variant) : (s.prune vs).Clean := by
  by_cases hvs : vs = []
  · rwa [hvs, prune_nil]
  · rw [prune_of_ne hvs]
    exact fun v hv => (mem_applyPrune_entries.mp hv).2

end RegenState

/-! ### The invariant -/

/-- A variant the prunes may drop: another width of its address is canonical and an entry. -/
def Replaceable (cfg : RegenConfig) (entries : List Variant) (v : Variant) : Prop :=
  v.2 ∉ cfg.canonical v.1 ∧ ∃ c ∈ cfg.canonical v.1, (v.1, c) ∈ entries

structure Sound (cfg : RegenConfig) (s : RegenState) : Prop where
  entry_ok : ∀ v ∈ s.entries, v.1 < 0x1000000 ∧ bankOf v.1 ∈ cfg.banks
  emitted_ok : ∀ v ∈ s.emitted, v ∈ s.entries ∨ v ∈ s.pruned
  pruned_ok : ∀ v ∈ s.pruned, Replaceable cfg s.entries v
  pruned_valid : ∀ v ∈ s.pruned, ∃ ws, s.valid v.1 = some ws
  valid_ok : ∀ addr ws, s.valid addr = some ws →
    ws ≠ [] ∧ ∀ w ∈ ws, (addr, w) ∈ s.entries ∧ (addr, w) ∉ s.pruned

/-- The entries are in `name_map`. -/
def Named (s : RegenState) : Prop := ∀ v ∈ s.entries, v.1 ∈ s.names

theorem sound_initial (cfg : RegenConfig) : Sound cfg cfg.initial where
  entry_ok := cfg.entry_ok
  emitted_ok _ h := absurd h List.not_mem_nil
  pruned_ok _ h := absurd h List.not_mem_nil
  pruned_valid _ h := absurd h List.not_mem_nil
  valid_ok addr ws h := by cases h

theorem named_initial (cfg : RegenConfig) : Named cfg.initial := fun _ h =>
  List.mem_append_left _ (List.mem_map_of_mem h)

section Stages

variable {cfg : RegenConfig} {s : RegenState}

/-- A canonical variant is not pruned. -/
theorem Sound.not_pruned (h : Sound cfg s) {addr : Nat} {c : Bool × Bool}
    (hc : c ∈ cfg.canonical addr) : (addr, c) ∉ s.pruned :=
  fun hp => (h.pruned_ok _ hp).1 hc

theorem Sound.addr_of_pruned (h : Sound cfg s) {v : Variant} (hv : v ∈ s.pruned) :
    v.1 < 0x1000000 ∧ bankOf v.1 ∈ cfg.banks := by
  obtain ⟨c, _, hc⟩ := (h.pruned_ok v hv).2
  exact h.entry_ok (v.1, c) hc

/-- Entries may be added. -/
theorem Sound.append (h : Sound cfg s) {vs : List Variant}
    (hvs : ∀ v ∈ vs, v.1 < 0x1000000 ∧ bankOf v.1 ∈ cfg.banks) :
    Sound cfg { s with entries := s.entries ++ vs } where
  entry_ok v hv := (List.mem_append.mp hv).elim (h.entry_ok v) (hvs v)
  emitted_ok v hv := (h.emitted_ok v hv).imp_left (List.mem_append_left _)
  pruned_ok v hv :=
    let ⟨hcanon, c, hc, hentry⟩ := h.pruned_ok v hv
    ⟨hcanon, c, hc, List.mem_append_left _ hentry⟩
  pruned_valid := h.pruned_valid
  valid_ok addr ws hws :=
    let ⟨hne, hmem⟩ := h.valid_ok addr ws hws
    ⟨hne, fun w hw => (hmem w hw).imp_left (List.mem_append_left _)⟩

/-- Replaceable variants may be pruned; the survivor map is made anew. -/
theorem Sound.applyPrune (h : Sound cfg s) {vs : List Variant}
    (hvs : ∀ v ∈ vs, Replaceable cfg s.entries v) :
    Sound cfg { s with pruned := s.pruned ++ vs }.applyPrune := by
  have hpruned : ∀ v ∈ s.pruned ++ vs, Replaceable cfg s.entries v := fun v hv =>
    (List.mem_append.mp hv).elim (h.pruned_ok v) (hvs v)
  -- the canonical sibling of a pruned variant is not pruned itself
  have hstays : ∀ v ∈ s.pruned ++ vs,
      Replaceable cfg { s with pruned := s.pruned ++ vs }.applyPrune.entries v := by
    intro v hv
    obtain ⟨hcanon, c, hc, hentry⟩ := hpruned v hv
    refine ⟨hcanon, c, hc, RegenState.mem_applyPrune_entries.mpr ⟨hentry, fun hp => ?_⟩⟩
    exact (hpruned _ hp).1 hc
  refine ⟨fun v hv => ?_, fun v hv => ?_, hstays, fun v hv => ?_, fun addr ws hws => ?_⟩
  · exact h.entry_ok v (RegenState.mem_applyPrune_entries.mp hv).1
  · by_cases hp : v ∈ s.pruned ++ vs
    · exact Or.inr hp
    · rcases h.emitted_ok v hv with hentry | hold
      · exact Or.inl (RegenState.mem_applyPrune_entries.mpr ⟨hentry, hp⟩)
      · exact absurd (List.mem_append_left _ hold) hp
  · obtain ⟨_, c, _, hentry⟩ := hstays v hv
    exact survivorMap_of_mem hentry
  · obtain ⟨hne, hmem⟩ := survivorMap_eq_some hws
    exact ⟨hne, fun w hw =>
      ⟨hmem w hw, (RegenState.mem_applyPrune_entries.mp (hmem w hw)).2⟩⟩

theorem Sound.prune (h : Sound cfg s) {vs : List Variant}
    (hvs : ∀ v ∈ vs, Replaceable cfg s.entries v) : Sound cfg (s.prune vs) := by
  by_cases hnil : vs = []
  · rwa [hnil, RegenState.prune_nil]
  · rw [RegenState.prune_of_ne hnil]
    exact h.applyPrune hvs

/-- Bodies of entries may be written. -/
theorem Sound.emit (h : Sound cfg s) {vs dirty disk : List Variant} (hvs : ∀ v ∈ vs, v ∈ s.entries) :
    Sound cfg { s with dirty := dirty, emitted := s.emitted ++ vs, disk := disk } where
  entry_ok := h.entry_ok
  emitted_ok v hv := (List.mem_append.mp hv).elim (h.emitted_ok v) fun hv => Or.inl (hvs v hv)
  pruned_ok := h.pruned_ok
  pruned_valid := h.pruned_valid
  valid_ok := h.valid_ok

/-! ### The stages of a pass -/

variable (env : PassEnv)

theorem mem_discover {v : Variant} (hv : v ∈ discover cfg env s) :
    bankOf v.1 ∈ cfg.banks ∧ v.1 ∈ s.entries.map (·.1) ∧ v ∉ s.pruned := by
  have hv := of_decide_eq_true (List.mem_filter.mp hv).2
  exact ⟨hv.1, hv.2.1, hv.2.2.2⟩

theorem afterDiscovery_cases (cfg : RegenConfig) (env : PassEnv) (s : RegenState) :
    afterDiscovery cfg env s = { s with entries := s.entries ++ discover cfg env s } ∨
      afterDiscovery cfg env s = { s with entries := s.entries ++ discover cfg env s }.applyPrune := by
  unfold afterDiscovery
  dsimp only
  split
  · exact Or.inr rfl
  · exact Or.inl rfl

theorem afterDiscovery_of_nil (h : discover cfg env s = []) : afterDiscovery cfg env s = s := by
  unfold afterDiscovery
  simp [h]

@[simp] theorem afterDiscovery_pruned : (afterDiscovery cfg env s).pruned = s.pruned := by
  rcases afterDiscovery_cases cfg env s with h | h
  · rw [h]
  · rw [h]
    rfl

@[simp] theorem afterDiscovery_names : (afterDiscovery cfg env s).names = s.names := by
  rcases afterDiscovery_cases cfg env s with h | h
  · rw [h]
  · rw [h]
    rfl

theorem mem_afterDiscovery {v : Variant} (hv : v ∈ (afterDiscovery cfg env s).entries) :
    v ∈ s.entries ∨ v ∈ discover cfg env s := by
  rcases afterDiscovery_cases cfg env s with h | h
  · rw [h] at hv
    exact List.mem_append.mp hv
  · rw [h] at hv
    exact List.mem_append.mp (RegenState.mem_applyPrune_entries.mp hv).1

theorem Sound.afterDiscovery (h : Sound cfg s) : Sound cfg (afterDiscovery cfg env s) := by
  have happend : Sound cfg { s with entries := s.entries ++ discover cfg env s } := by
    refine h.append fun v hv => ?_
    obtain ⟨hbank, haddr, _⟩ := mem_discover env hv
    obtain ⟨e, he, heq⟩ := List.mem_map.mp haddr
    exact ⟨heq ▸ (h.entry_ok e he).1, hbank⟩
  rcases afterDiscovery_cases cfg env s with hs | hs
  · rw [hs]
    exact happend
  · have hprune := @Sound.applyPrune cfg _ happend [] fun v hv => absurd hv List.not_mem_nil
    simp only [List.append_nil] at hprune
    rw [hs]
    exact hprune

theorem Named.afterDiscovery (h : Named s) : Named (afterDiscovery cfg env s) := by
  intro v hv
  rw [afterDiscovery_names]
  rcases mem_afterDiscovery env hv with hv | hv
  · exact h v hv
  · obtain ⟨_, haddr, _⟩ := mem_discover env hv
    obtain ⟨e, he, heq⟩ := List.mem_map.mp haddr
    exact heq ▸ h e he

theorem clean_afterDiscovery (h : s.Clean) : (afterDiscovery cfg env s).Clean := by
  intro v hv
  rw [afterDiscovery_pruned]
  rcases mem_afterDiscovery env hv with hv | hv
  · exact h v hv
  · exact (mem_discover env hv).2.2

/-- Only entries have bodies. -/
theorem mem_passBodies {r : Variant × EmittedBody} (hr : r ∈ passBodies cfg env s) :
    r.1 ∈ (afterDiscovery cfg env s).entries ∧
      emitVariant env (afterDiscovery cfg env s) r.1 = some r.2 := by
  obtain ⟨e, he, hr⟩ := List.mem_filterMap.mp hr
  obtain ⟨v, hv, rfl⟩ := List.mem_map.mp he
  split at hr
  · obtain ⟨b, hb, rfl⟩ := Option.map_eq_some_iff.mp hr
    exact ⟨hv, hb⟩
  · cases hr

theorem surviving_of_emitVariant {v : Variant} {b : EmittedBody} (h : emitVariant env s v = some b) :
    ∀ a ∈ b.fn.acts, a.Surviving (passMaps env s v) := by
  unfold emitVariant at h
  split at h
  · obtain ⟨F, hF, rfl⟩ := Option.map_eq_some_iff.mp h
    exact surviving_of_emitFunction hF
  · cases h

/-- Each entry of a bank that is written has a body. -/
theorem mem_bodies_of_bankOk {v : Variant} (hv : v ∈ (afterDiscovery cfg env s).entries)
    (hok : bankOk (passEmits cfg env s) (bankOf v.1) = true) :
    v ∈ (passBodies cfg env s).map (·.1) := by
  have hmem : (v, emitVariant env (afterDiscovery cfg env s) v) ∈ passEmits cfg env s :=
    List.mem_map.mpr ⟨v, hv, rfl⟩
  have hsome := List.all_eq_true.mp hok _ hmem
  obtain ⟨b, hb⟩ : ∃ b, emitVariant env (afterDiscovery cfg env s) v = some b := by
    rcases Bool.or_eq_true _ _ ▸ hsome with hne | hsome
    · exact absurd rfl (of_decide_eq_true hne)
    · exact Option.isSome_iff_exists.mp hsome
  refine List.mem_map.mpr ⟨(v, b), List.mem_filterMap.mpr ⟨_, hmem, ?_⟩, rfl⟩
  rw [if_pos hok, hb, Option.map_some]

theorem Sound.afterEmit (h : Sound cfg s) : Sound cfg (afterEmit cfg env s) := by
  refine (h.afterDiscovery env).emit fun v hv => ?_
  obtain ⟨r, hr, rfl⟩ := List.mem_map.mp hv
  exact (mem_passBodies env hr).1

/-- What `_compute_prunable` finds is replaceable. -/
theorem replaceable_newlyPruned (h : Sound cfg s) :
    ∀ v ∈ newlyPruned cfg env s, Replaceable cfg (afterEmit cfg env s).entries v := by
  intro v hv
  obtain ⟨_, hcanon, c, hc, hemit⟩ := mem_computePrunable (List.mem_filter.mp hv).1
  refine ⟨hcanon, c, hc, ?_⟩
  rcases (h.afterEmit env).emitted_ok _ hemit with hentry | hp
  · exact hentry
  · exact absurd hp ((h.afterEmit env).not_pruned hc)

theorem Sound.afterPrune (h : Sound cfg s) : Sound cfg (afterPrune cfg env s) :=
  (h.afterEmit env).prune (replaceable_newlyPruned env h)

theorem clean_afterPrune (h : s.Clean) : (afterPrune cfg env s).Clean := by
  have hemit : (afterEmit cfg env s).Clean := @clean_afterDiscovery cfg s env h
  exact hemit.prune _

theorem mem_afterPrune_pruned {v : Variant} :
    v ∈ (afterPrune cfg env s).pruned ↔ v ∈ s.pruned ∨ v ∈ newlyPruned cfg env s := by
  have hemit : (afterEmit cfg env s).pruned = s.pruned := afterDiscovery_pruned env
  unfold afterPrune
  rw [RegenState.mem_prune_pruned, hemit]

end Stages

end SnesRecomp.Regen
