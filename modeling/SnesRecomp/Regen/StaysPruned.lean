import SnesRecomp.Regen.Promotion

/-!
# Pruned variants

A demand for a pruned variant is dropped before promotion, under the address the demand
names.  Promotion then sends a demand for a bank without a cfg to its mirror, and there the
variant may be a pruned one: it gets an entry again and the next pass emits its body.  With
demands that are promoted where they point, or not to a pruned variant, what is pruned stays
pruned: `keepsPruned_iff`.
-/

namespace SnesRecomp.Regen

open Recompiler

variable (cfg : RegenConfig) (env : PassEnv) (s : RegenState)

/-- What a pass owes to the pruned variants: no body, no entry, no case in a switch and no
row in the dispatch table. -/
structure KeepsPruned : Prop where
  bodies : ∀ v ∈ s.pruned, v ∉ (passBodies cfg env s).map (·.1)
  entries : ∀ v ∈ (prunePass cfg env s).pruned, v ∉ (prunePass cfg env s).entries
  survivors : ∀ v ∈ s.pruned, ∀ addr, (afterDiscovery cfg env s).symbolAddr addr = v.1 →
    ∀ u, v.2 ∉ validVariantList (passMaps env (afterDiscovery cfg env s) u) addr
  rows : ∀ v ∈ (prunePass cfg env s).pruned, v ∉ dispatchTable (prunePass cfg env s)

/-- No demand that goes to another address than it names goes to a pruned variant. -/
def MirrorClear : Prop :=
  ∀ d ∈ passDemands cfg env s, ∀ k, cfg.promotionKey d = some k → k ≠ d →
    k ∉ s.pruned ∧ k ∉ newlyPruned cfg env s

variable {cfg s}

/-- Promotion makes an entry of a pruned variant only for a demand that is sent elsewhere. -/
theorem clean_afterPromotion (hclean : s.Clean) (h : MirrorClear cfg env s) :
    (afterPromotion cfg env s).Clean := by
  intro v hv hp
  rcases List.mem_append.mp hv with hv | hv
  · exact clean_afterPrune env hclean v hv hp
  · obtain ⟨⟨d, hd, hkey⟩, _⟩ := (mem_addedEntries env).mp hv
    obtain ⟨hdemand, hd⟩ := List.mem_filter.mp hd
    by_cases heq : v = d
    · exact of_decide_eq_true hd (heq ▸ hp)
    · obtain ⟨hold, hnew⟩ := h d hdemand v hkey heq
      exact ((mem_afterPrune_pruned env).mp hp).elim hold hnew

theorem clean_prunePass (hclean : s.Clean) (h : MirrorClear cfg env s) :
    (prunePass cfg env s).Clean := by
  have hpromoted := clean_afterPromotion env hclean h
  unfold prunePass
  split
  · split
    · exact hpromoted
    · exact hpromoted.prune _
  · exact hpromoted

/-- A demand that is sent to a pruned variant brings its entry back. -/
theorem mirrorClear_of_clean (hsound : Sound cfg s) (hclean : s.Clean)
    (h : (prunePass cfg env s).Clean) : MirrorClear cfg env s := by
  intro d hd k hkey hne
  rw [← not_or, ← mem_afterPrune_pruned env]
  intro hp
  have hkept : d ∉ (afterPrune cfg env s).pruned := by
    intro hdp
    obtain ⟨hlt, hbank⟩ := (hsound.afterPrune env).addr_of_pruned hdp
    exact hne (promotionKey_self hlt hbank hkey)
  have hadded : k ∈ addedEntries cfg env s := by
    refine (mem_addedEntries env).mpr
      ⟨⟨d, List.mem_filter.mpr ⟨hd, decide_eq_true hkept⟩, hkey⟩, fun hentry => ?_⟩
    exact clean_afterPrune env hclean k hentry hp
  have hunstable : ¬ isStable cfg env s = true := fun hstable =>
    List.ne_nil_of_mem hadded (of_decide_eq_true hstable).1
  unfold prunePass at h
  rw [if_neg hunstable] at h
  exact h k (List.mem_append_right _ hadded) hp

theorem keepsPruned_of_mirrorClear (hsound : Sound cfg s) (hnamed : Named s) (hclean : s.Clean)
    (h : MirrorClear cfg env s) : KeepsPruned cfg env s where
  bodies v hv hbody := by
    obtain ⟨r, hr, rfl⟩ := List.mem_map.mp hbody
    have hentry := (mem_passBodies env hr).1
    exact clean_afterDiscovery env hclean r.1 hentry ((afterDiscovery_pruned env).symm ▸ hv)
  entries v hp hentry := clean_prunePass env hclean h v hentry hp
  survivors v hv addr haddr u :=
    (hsound.afterDiscovery env).not_survivor (hnamed.afterDiscovery env) rfl
      ((afterDiscovery_pruned env).symm ▸ hv) haddr
  rows v hp hrow := of_decide_eq_true (List.mem_filter.mp hrow).2 hp

/-- **Over any number of passes, what is pruned stays pruned exactly when no pass sends a
demand through a mirror to a pruned variant.** -/
theorem keepsPruned_iff (cfg : RegenConfig) (envs : List PassEnv) :
    Runs.StepsMeet (prunePass cfg) (KeepsPruned cfg) envs cfg.initial ↔
      Runs.StepsMeet (prunePass cfg) (MirrorClear cfg) envs cfg.initial := by
  refine @Runs.stepsMeet_iff _ _ (prunePass cfg) (fun s => Sound cfg s ∧ Named s ∧ s.Clean) _ _
    ?_ ?_ envs cfg.initial ⟨sound_initial cfg, named_initial cfg, fun _ _ h => List.not_mem_nil h⟩
  · rintro env s ⟨hsound, hnamed, hclean⟩
    constructor
    · intro h
      exact mirrorClear_of_clean env hsound hclean fun v hentry hp => h.entries v hp hentry
    · exact keepsPruned_of_mirrorClear env hsound hnamed hclean
  · rintro env s ⟨hsound, hnamed, hclean⟩ h
    exact ⟨sound_prunePass env hsound, named_prunePass env hnamed, clean_prunePass env hclean h⟩

/-! ### A pruned variant that comes back -/

/-- One bank, with an entry at its start. -/
def RegenConfig.single (regions : List (Nat × Nat × Nat)) : RegenConfig where
  banks := [0]
  dataRegions := regions
  declared := [(0x8000, true, true)]
  clones := []
  named := []
  onDisk := []
  entry_ok := by decide

/-- Every function is decoded from the image, without annotations. -/
def PassEnv.plain (bytes : List Byte) : PassEnv := ⟨fun _ => .plain bytes, fun _ => .bare, [], []⟩

/-- `JSL $80:8010; RTS` and, at `$8010`, `LDA #$6B; RTL`, which a wide accumulator reads as
`LDA #$6B6B; JMP ($0012)`. -/
def mirrorCall : List Byte :=
  [0x22, 0x10, 0x80, 0x80, 0x60, 0, 0, 0, 0, 0, 0, 0, 0, 0, 0, 0, 0xA9, 0x6B, 0x6B, 0x6C, 0x12, 0x00]

/-- The second pass prunes the wide variants of `$00:8010`, and promotes them again for the
demands on `$80:8010`. -/
theorem not_keepsPruned_mirrorCall :
    ¬ Runs.StepsMeet (prunePass (.single [])) (KeepsPruned (.single []))
      [.plain mirrorCall, .plain mirrorCall, .plain mirrorCall] (RegenConfig.single []).initial := by
  rintro ⟨_, h, _⟩
  have hback : ∃ v ∈ (prunePass (.single []) (.plain mirrorCall)
      (prunePass (.single []) (.plain mirrorCall) (RegenConfig.single []).initial)).entries,
      v ∈ (prunePass (.single []) (.plain mirrorCall)
        (prunePass (.single []) (.plain mirrorCall) (RegenConfig.single []).initial)).pruned := by
    decide
  obtain ⟨v, hentry, hp⟩ := hback
  exact h.entries v hp hentry

end SnesRecomp.Regen
