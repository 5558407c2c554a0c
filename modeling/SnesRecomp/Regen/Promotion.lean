import SnesRecomp.Lib.Bits
import SnesRecomp.Regen.Invariant

/-!
# Where a demand goes

`_autopromote_targets` looks for a demand in the bank it names, or in the mirror of a bank
without a cfg; the name resolver looks a target up at its own address first and then at the
mirror.  Where both lead to an entry, they lead to the same one.
-/

namespace SnesRecomp.Regen

open Recompiler Bits

/-! ### Banks and mirrors -/

theorem bankOf_lt (addr : Nat) : bankOf addr < 0x100 := by
  unfold bankOf
  rw [and_0xFF]
  exact Nat.mod_lt _ (by decide)

theorem and_0xFFFFFF (addr : Nat) : addr &&& 0xFFFFFF = addr % 0x1000000 :=
  Nat.and_two_pow_sub_one_eq_mod addr 24

theorem bankOf_mask (addr : Nat) : bankOf (addr &&& 0xFFFFFF) = bankOf addr := by
  unfold bankOf
  rw [and_0xFFFFFF, and_0xFF, and_0xFF, Nat.shiftRight_eq_div_pow, Nat.shiftRight_eq_div_pow]
  omega

theorem mask_lt (addr : Nat) : addr &&& 0xFFFFFF < 0x1000000 :=
  Nat.and_lt_two_pow (n := 24) addr (by decide)

theorem mask_of_lt {addr : Nat} (h : addr < 0x1000000) : addr &&& 0xFFFFFF = addr := by
  rw [and_0xFFFFFF, Nat.mod_eq_of_lt h]

/-- A bank and an address in it. -/
theorem join_spec {bank : Nat} (hbank : bank < 0x100) (addr : Nat) :
    (bank <<< 16) ||| (addr &&& 0xFFFF) < 0x1000000 ∧
      bankOf ((bank <<< 16) ||| (addr &&& 0xFFFF)) = bank := by
  have hpc : addr &&& 0xFFFF < 2 ^ 16 := Nat.and_lt_two_pow addr (by decide)
  unfold bankOf
  rw [shiftLeft_or_eq_add hpc, and_0xFF, Nat.shiftRight_eq_div_pow]
  omega

theorem join_bankOf (addr : Nat) :
    (bankOf addr <<< 16) ||| (addr &&& 0xFFFF) = addr &&& 0xFFFFFF := by
  have hpc : addr &&& 0xFFFF < 2 ^ 16 := Nat.and_lt_two_pow addr (by decide)
  rw [shiftLeft_or_eq_add hpc, and_0xFFFFFF, and_0xFFFF]
  unfold bankOf
  rw [and_0xFF, Nat.shiftRight_eq_div_pow]
  omega

theorem bankOf_mirror (addr : Nat) : bankOf (addr ^^^ 0x800000) = bankOf addr ^^^ 0x80 := by
  unfold bankOf
  rw [Nat.shiftRight_xor_distrib, Nat.and_xor_distrib_right]
  rfl

/-- The mirror of an address is the same place in the mirror of its bank. -/
theorem join_mirror (addr : Nat) :
    ((bankOf addr ^^^ 0x80) <<< 16) ||| (addr &&& 0xFFFF) = (addr &&& 0xFFFFFF) ^^^ 0x800000 := by
  have hlow : ((addr &&& 0xFFFFFF) ^^^ 0x800000) &&& 0xFFFF = addr &&& 0xFFFF := by
    rw [Nat.and_xor_distrib_right, Nat.and_assoc]
    exact Nat.xor_zero _
  have hlt : (addr &&& 0xFFFFFF) ^^^ 0x800000 < 2 ^ 24 :=
    Nat.xor_lt_two_pow (mask_lt addr) (by decide)
  have hjoin := join_bankOf ((addr &&& 0xFFFFFF) ^^^ 0x800000)
  rwa [bankOf_mirror, bankOf_mask, hlow, mask_of_lt hlt] at hjoin

/-! ### Homes -/

section Home

variable (cfg : RegenConfig)

theorem homeBank_of_mem {addr : Nat} (h : bankOf addr ∈ cfg.banks) :
    cfg.homeBank addr = bankOf addr := by
  unfold RegenConfig.homeBank
  exact if_neg fun hmirror => hmirror.1 h

theorem homeBank_of_mirror {addr : Nat} (h : bankOf addr ∉ cfg.banks)
    (hmirrored : isMirrored (bankOf addr) = true) (hmem : bankOf addr ^^^ 0x80 ∈ cfg.banks) :
    cfg.homeBank addr = bankOf addr ^^^ 0x80 := if_pos ⟨h, hmirrored, hmem⟩

theorem homeBank_cases (addr : Nat) :
    cfg.homeBank addr = bankOf addr ∨
      (bankOf addr ∉ cfg.banks ∧ isMirrored (bankOf addr) = true ∧
        cfg.homeBank addr = bankOf addr ^^^ 0x80) := by
  unfold RegenConfig.homeBank
  dsimp only
  split
  next h => exact Or.inr ⟨h.1, h.2.1, rfl⟩
  · exact Or.inl rfl

theorem home_of_mem {addr : Nat} (h : bankOf addr ∈ cfg.banks) :
    cfg.home addr = addr &&& 0xFFFFFF := by
  unfold RegenConfig.home
  rw [homeBank_of_mem cfg h, join_bankOf]

theorem home_spec (addr : Nat) :
    cfg.home addr < 0x1000000 ∧ bankOf (cfg.home addr) = cfg.homeBank addr := by
  have hlt : cfg.homeBank addr < 0x100 := by
    rcases homeBank_cases cfg addr with h | ⟨_, _, h⟩
    · rw [h]
      exact bankOf_lt addr
    · rw [h]
      exact Nat.xor_lt_two_pow (n := 8) (bankOf_lt addr) (by decide)
  exact join_spec hlt addr

variable {cfg}

theorem promotionKey_eq_some {d k : Variant} (h : cfg.promotionKey d = some k) :
    cfg.homeBank d.1 ∈ cfg.banks ∧ k = (cfg.home d.1, d.2) := by
  unfold RegenConfig.promotionKey at h
  split at h
  · cases h
  split at h
  next hbank => exact ⟨hbank, (Option.some.inj h).symm⟩
  · cases h

theorem promotionKey_of_mem {d : Variant} (hbank : cfg.homeBank d.1 ∈ cfg.banks)
    (hregion : cfg.inDataRegion (cfg.homeBank d.1) (d.1 &&& 0xFFFF) = false) :
    cfg.promotionKey d = some (cfg.home d.1, d.2) := by
  unfold RegenConfig.promotionKey
  rw [hregion, if_neg Bool.false_ne_true, if_pos hbank]

/-- A promoted entry is one of a bank with a cfg. -/
theorem addr_of_promotionKey {d k : Variant} (h : cfg.promotionKey d = some k) :
    k.1 < 0x1000000 ∧ bankOf k.1 ∈ cfg.banks := by
  obtain ⟨hbank, rfl⟩ := promotionKey_eq_some h
  obtain ⟨hlt, hhome⟩ := home_spec cfg d.1
  exact ⟨hlt, hhome.symm ▸ hbank⟩

/-- What names an entry is promoted as it stands. -/
theorem promotionKey_self {d k : Variant} (hlt : d.1 < 0x1000000) (hbank : bankOf d.1 ∈ cfg.banks)
    (h : cfg.promotionKey d = some k) : k = d := by
  obtain ⟨_, rfl⟩ := promotionKey_eq_some h
  rw [home_of_mem cfg hbank, mask_of_lt hlt]

end Home

/-! ### Symbols -/

section Symbols

variable {cfg : RegenConfig} {s : RegenState}

theorem symbolAddr_cases (s : RegenState) (addr : Nat) :
    s.symbolAddr addr = addr &&& 0xFFFFFF ∨
      (addr &&& 0xFFFFFF ∉ s.names ∧ isMirrored (bankOf addr) = true ∧
        s.symbolAddr addr = (addr &&& 0xFFFFFF) ^^^ 0x800000) := by
  unfold RegenState.symbolAddr
  dsimp only
  split
  · exact Or.inl rfl
  next hname =>
    split
    next h => exact Or.inr ⟨hname, bankOf_mask addr ▸ h.1, rfl⟩
    · exact Or.inl rfl

/-- A target whose symbol is in a bank with a cfg is promoted to one. -/
theorem homeBank_of_symbol {addr : Nat} (h : bankOf (s.symbolAddr addr) ∈ cfg.banks) :
    cfg.homeBank addr ∈ cfg.banks := by
  by_cases hbank : bankOf addr ∈ cfg.banks
  · rwa [homeBank_of_mem cfg hbank]
  · rcases symbolAddr_cases s addr with hsym | ⟨_, hmirrored, hsym⟩
    · rw [hsym, bankOf_mask] at h
      exact absurd h hbank
    · rw [hsym, bankOf_mirror, bankOf_mask] at h
      rwa [homeBank_of_mirror cfg hbank hmirrored h]

/-- The symbol of a target is the one of the entry it is promoted to. -/
theorem symbol_eq_home {addr : Nat} (hname : cfg.home addr ∈ s.names)
    (hbank : cfg.homeBank addr ∈ cfg.banks) (h : bankOf (s.symbolAddr addr) ∈ cfg.banks) :
    s.symbolAddr addr = cfg.home addr := by
  by_cases hmem : bankOf addr ∈ cfg.banks
  · rw [home_of_mem cfg hmem] at hname ⊢
    unfold RegenState.symbolAddr
    exact if_pos hname
  · have hmirror : cfg.home addr = (addr &&& 0xFFFFFF) ^^^ 0x800000 := by
      rcases homeBank_cases cfg addr with hhome | ⟨_, _, hhome⟩
      · exact absurd (hhome ▸ hbank) hmem
      · unfold RegenConfig.home
        rw [hhome, join_mirror]
    rcases symbolAddr_cases s addr with hsym | ⟨_, _, hsym⟩
    · rw [hsym, bankOf_mask] at h
      exact absurd h hmem
    · rw [hsym, hmirror]

/-! ### Survivor lists -/

theorem mem_validVariantList {maps : Maps} {addr : Nat} {ws : List (Bool × Bool)}
    (h : maps.validVariants (addr &&& 0xFFFFFF) = some ws ∨
      (maps.validVariants (addr &&& 0xFFFFFF) = none ∧ isMirrored (bankOf addr) = true ∧
        maps.validVariants ((addr &&& 0xFFFFFF) ^^^ 0x800000) = some ws))
    (hne : ws ≠ []) {w : Bool × Bool} (hw : w ∈ validVariantList maps addr) : w ∈ ws := by
  unfold validVariantList at hw
  dsimp only at hw
  rcases h with h | ⟨hnone, hmirrored, h⟩
  · rw [h] at hw
    simpa [hne, mem_mxVariants] using hw
  · have hbank : ((addr &&& 0xFFFFFF) >>> 16) &&& 0xFF = bankOf addr := bankOf_mask addr
    rw [hnone, hbank] at hw
    dsimp only at hw
    rw [if_pos (of_decide_eq_true hmirrored), h] at hw
    simpa [hne, mem_mxVariants] using hw

/-- **No list of survivors has a pruned variant in it, whichever mirror a target names.** -/
theorem Sound.not_survivor (h : Sound cfg s) (hnamed : Named s) {maps : Maps}
    (hmaps : maps.validVariants = s.valid) {v : Variant} (hv : v ∈ s.pruned) {addr : Nat}
    (haddr : s.symbolAddr addr = v.1) : v.2 ∉ validVariantList maps addr := by
  intro hw
  obtain ⟨ws, hws⟩ := h.pruned_valid v hv
  obtain ⟨hne, hmem⟩ := h.valid_ok _ _ hws
  refine (hmem v.2 (mem_validVariantList ?_ hne hw)).2 hv
  rw [hmaps]
  rcases symbolAddr_cases s addr with hsym | ⟨hname, hmirrored, hsym⟩
  · exact Or.inl (by rw [← hsym, haddr, hws])
  · refine Or.inr ⟨?_, hmirrored, by rw [← hsym, haddr, hws]⟩
    -- a target that the survivor map knows has an entry, and so a name
    cases hvalid : s.valid (addr &&& 0xFFFFFF) with
    | none => rfl
    | some us =>
      obtain ⟨hus, hentry⟩ := h.valid_ok _ _ hvalid
      obtain ⟨u, hu⟩ := List.exists_mem_of_ne_nil us hus
      exact absurd (hnamed _ (hentry u hu).1) hname

end Symbols

/-! ### The rest of a pass -/

section Pass

variable {cfg : RegenConfig} {s : RegenState} (env : PassEnv)

theorem mem_addedEntries {k : Variant} : k ∈ addedEntries cfg env s ↔
    (∃ d ∈ unresolvedCalls cfg env s, cfg.promotionKey d = some k) ∧
      k ∉ (afterPrune cfg env s).entries := by
  simp [addedEntries, autopromote]

theorem Sound.afterPromotion (h : Sound cfg s) : Sound cfg (afterPromotion cfg env s) := by
  refine (h.afterPrune env).append fun k hk => ?_
  obtain ⟨⟨d, _, hd⟩, _⟩ := (mem_addedEntries env).mp hk
  exact addr_of_promotionKey hd

/-- What the reference-taint prune drops is replaceable. -/
theorem replaceable_droppedRefs (h : Sound cfg s) :
    ∀ v ∈ droppedRefs cfg env s, Replaceable cfg (Regen.afterPromotion cfg env s).entries v := by
  intro v hv
  obtain ⟨hcanon, c, hc, hbody⟩ := mem_refPrunable hv
  obtain ⟨r, hr, heq⟩ := List.mem_map.mp hbody
  have hentry : (v.1, c) ∈ (afterEmit cfg env s).entries := heq ▸ (mem_passBodies env hr).1
  refine ⟨hcanon, c, hc, List.mem_append_left _ ?_⟩
  exact RegenState.mem_prune_of_not_pruned hentry ((h.afterPrune env).not_pruned hc)

theorem sound_prunePass (h : Sound cfg s) : Sound cfg (prunePass cfg env s) := by
  have hpromoted := h.afterPromotion env
  have hrefresh : ∀ {t : RegenState}, Sound cfg t → Sound cfg t.refreshNames := fun ht =>
    ⟨ht.entry_ok, ht.emitted_ok, ht.pruned_ok, ht.pruned_valid, ht.valid_ok⟩
  unfold prunePass
  split
  · split
    · exact ⟨hpromoted.entry_ok, hpromoted.emitted_ok, hpromoted.pruned_ok, hpromoted.pruned_valid,
        hpromoted.valid_ok⟩
    · exact hrefresh (hpromoted.prune (replaceable_droppedRefs env h))
  · exact hrefresh hpromoted

/-- A stable pass emits from the state it started in, and adds nothing. -/
theorem entries_of_isStable (h : isStable cfg env s = true) :
    afterDiscovery cfg env s = s ∧ afterPrune cfg env s = afterEmit cfg env s ∧
      (afterPromotion cfg env s).entries = s.entries := by
  obtain ⟨hadded, hnewly, hfound⟩ := of_decide_eq_true h
  have hs : afterDiscovery cfg env s = s := afterDiscovery_of_nil env hfound
  have hprune : afterPrune cfg env s = afterEmit cfg env s := by
    unfold afterPrune
    rw [hnewly, RegenState.prune_nil]
  refine ⟨hs, hprune, ?_⟩
  have hentries : (afterEmit cfg env s).entries = s.entries := by
    show (afterDiscovery cfg env s).entries = s.entries
    rw [hs]
  show (afterPrune cfg env s).entries ++ addedEntries cfg env s = s.entries
  rw [hadded, List.append_nil, hprune, hentries]

/-- The loop ends with a stable pass that drops nothing. -/
theorem of_converged (h : (prunePass cfg env s).converged = true) :
    isStable cfg env s = true ∧ (prunePass cfg env s).entries = s.entries ∧
      (prunePass cfg env s).pruned = s.pruned := by
  unfold prunePass at h ⊢
  split at h
  next hstable =>
    rw [if_pos hstable]
    split at h
    next hdropped =>
      obtain ⟨hs, hprune, hentries⟩ := entries_of_isStable env hstable
      rw [if_pos hdropped]
      refine ⟨hstable, hentries, ?_⟩
      show (afterPrune cfg env s).pruned = s.pruned
      rw [hprune]
      exact afterDiscovery_pruned env
    · cases h
  · cases h

theorem afterPromotion_names : (afterPromotion cfg env s).names = s.names := by
  show (afterPrune cfg env s).names = s.names
  unfold afterPrune
  rw [RegenState.prune_names]
  exact afterDiscovery_names env

theorem named_prunePass (h : Named s) : Named (prunePass cfg env s) := by
  have hrefresh : ∀ t : RegenState, Named t.refreshNames := fun t v hv =>
    List.mem_append_right _ (List.mem_map_of_mem hv)
  unfold prunePass
  split
  next hstable =>
    split
    · intro v hv
      have hentry : v ∈ s.entries := (entries_of_isStable env hstable).2.2 ▸ hv
      exact (afterPromotion_names env).symm ▸ h v hentry
    · exact hrefresh _
  · exact hrefresh _

end Pass

end SnesRecomp.Regen
