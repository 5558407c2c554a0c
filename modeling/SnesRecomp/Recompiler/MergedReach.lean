import SnesRecomp.Recompiler.Successors

/-!
# What the merge of the save stacks reaches

`_dedupe_by_pcmx` keeps one instruction for each address and pair of widths, with the successors of
all of its copies.  `mergeKeeps`: what the entry reaches it still reaches, in the same widths, and it
reaches nothing new exactly if no copy of something reached leads to something that is not.  A copy
can that only the handlers of a pointer call have put on the worklist: its save stack is empty, and
its `PLP` keeps the widths.
-/

namespace SnesRecomp.Recompiler

/-- The entry reaches an instruction at the address in the widths. -/
def ReachesPcmx (entry : DecodeKey) (insns : List DecodedInsn) (p : Pcmx) : Prop :=
  ∃ k, Visit.Reach (outOf insns) entry k ∧ pcmx k = p

/-- What the merge has to keep. -/
structure MergeKeeps (entry : DecodeKey) (insns : List DecodedInsn) : Prop where
  unique : ((dedupe insns).map fun di => pcmx di.key).Nodup
  edges : ∀ di ∈ insns, ∀ s ∈ di.successors, s ∈ insns.map (·.key) → ∃ dj ∈ dedupe insns,
    pcmx dj.key = pcmx di.key ∧ ∃ s' ∈ dj.successors, s' ∈ (dedupe insns).map (·.key) ∧ pcmx s' = pcmx s
  reached : ∀ p, ReachesPcmx entry insns p → ReachesPcmx (remap insns entry) (dedupe insns) p

/-- What the merge reaches was reached before. -/
def NothingNew (entry : DecodeKey) (insns : List DecodedInsn) : Prop :=
  ∀ p, ReachesPcmx (remap insns entry) (dedupe insns) p → ReachesPcmx entry insns p

/-- The copies of what is reached lead to what is reached. -/
def CopiesReached (entry : DecodeKey) (insns : List DecodedInsn) : Prop :=
  ∀ di ∈ insns, ReachesPcmx entry insns (pcmx di.key) →
    ∀ s ∈ di.successors, s ∈ insns.map (·.key) → ReachesPcmx entry insns (pcmx s)

/-! ### Merged successors -/

theorem mem_appendNew {succs new : List DecodeKey} {s : DecodeKey} :
    s ∈ appendNew succs new ↔ s ∈ succs ∨ s ∈ new := by
  induction new generalizing succs with
  | nil => simp [appendNew]
  | cons k new ih =>
    have hcons : appendNew succs (k :: new) = appendNew (if k ∈ succs then succs else succs ++ [k]) new := rfl
    rw [hcons, ih, List.mem_cons]
    by_cases hk : k ∈ succs
    · rw [if_pos hk]
      constructor
      · exact fun h => h.imp_right Or.inr
      · rintro (h | rfl | h)
        · exact Or.inl h
        · exact Or.inl hk
        · exact Or.inr h
    · rw [if_neg hk, List.mem_append, List.mem_singleton, or_assoc]

theorem mem_foldl_appendNew {s : DecodeKey} {others : List (List DecodeKey)} {first : List DecodeKey} :
    s ∈ others.foldl appendNew first ↔ s ∈ first ∨ ∃ o ∈ others, s ∈ o := by
  induction others generalizing first with
  | nil => simp
  | cons o others ih =>
    rw [List.foldl_cons, ih, mem_appendNew, or_assoc]
    simp only [List.mem_cons, exists_eq_or_imp]

/-- The merged successors are those of the copies. -/
theorem mem_mergeSuccessors {insns : List DecodedInsn} {p : Pcmx} {s : DecodeKey} :
    s ∈ mergeSuccessors insns p ↔ ∃ di ∈ insns, pcmx di.key = p ∧ s ∈ di.successors.map (remap insns) := by
  have hmem : (∃ di ∈ insns, pcmx di.key = p ∧ s ∈ di.successors.map (remap insns)) ↔
      ∃ o ∈ (insns.filter fun di => pcmx di.key = p).map fun di => di.successors.map (remap insns), s ∈ o := by
    constructor
    · rintro ⟨di, hdi, hp, hs⟩
      exact ⟨_, List.mem_map.mpr ⟨di, List.mem_filter.mpr ⟨hdi, decide_eq_true hp⟩, rfl⟩, hs⟩
    · rintro ⟨o, ho, hs⟩
      obtain ⟨di, hdi, rfl⟩ := List.mem_map.mp ho
      obtain ⟨hin, hp⟩ := List.mem_filter.mp hdi
      exact ⟨di, hin, of_decide_eq_true hp, hs⟩
  rw [hmem]
  unfold mergeSuccessors
  split
  next h =>
    rw [h]
    simp
  next first others h =>
    rw [h, mem_foldl_appendNew]
    simp only [List.mem_cons, exists_eq_or_imp]

/-! ### Canonical keys -/

/-- The first copy is kept under its own key. -/
theorem canonical_mem {insns : List DecodedInsn} {k : DecodeKey} (hk : k ∈ insns.map (·.key)) :
    ∃ di ∈ insns, di.key = canonical insns k ∧ canonical insns di.key = di.key := by
  obtain ⟨dk, hdk, rfl⟩ := List.mem_map.mp hk
  have hcanon : ∃ di ∈ insns, di.key = canonical insns dk.key := by
    unfold canonical
    cases hfind : insns.find? fun di => decide (pcmx di.key = pcmx dk.key) with
    | none => exact absurd (decide_eq_true rfl) (List.find?_eq_none.mp hfind dk hdk)
    | some di => exact ⟨di, List.mem_of_find?_eq_some hfind, rfl⟩
  obtain ⟨di, hdi, hkey⟩ := hcanon
  refine ⟨di, hdi, hkey, ?_⟩
  rw [hkey, canonical_congr (pcmx_canonical insns dk.key) (hkey ▸ List.mem_map_of_mem hdi)]

/-- The node of a copy in the merged graph. -/
theorem outOf_dedupe {insns : List DecodedInsn} {k : DecodeKey} (hk : k ∈ insns.map (·.key)) :
    outOf (dedupe insns) (canonical insns k) = some (mergeSuccessors insns (pcmx k)) := by
  obtain ⟨di, hdi, hkey, hcanon⟩ := canonical_mem hk
  have hp : pcmx di.key = pcmx k := by rw [hkey, pcmx_canonical]
  have hmem : { di with successors := mergeSuccessors insns (pcmx di.key) } ∈ dedupe insns :=
    List.mem_map.mpr ⟨di, List.mem_filter.mpr ⟨hdi, decide_eq_true hcanon⟩, rfl⟩
  have hsome : (outOf (dedupe insns) (canonical insns k)).isSome :=
    outOf_isSome_iff.mpr ⟨_, hmem, hkey⟩
  unfold outOf at hsome ⊢
  cases hfind : (dedupe insns).find? fun di => decide (di.key = canonical insns k) with
  | none =>
    rw [hfind] at hsome
    cases hsome
  | some dj =>
    obtain ⟨dk, hdk, rfl⟩ := List.mem_map.mp (List.mem_of_find?_eq_some hfind)
    have hdkey : dk.key = canonical insns k := by simpa using List.find?_some hfind
    show some (mergeSuccessors insns (pcmx dk.key)) = _
    rw [hdkey, pcmx_canonical]

/-- The merged graph has canonical keys only. -/
theorem mem_keys_dedupe {insns : List DecodedInsn} {k : DecodeKey} :
    k ∈ (dedupe insns).map (·.key) ↔ k ∈ insns.map (·.key) ∧ canonical insns k = k := by
  unfold dedupe
  rw [List.map_map]
  constructor
  · intro h
    obtain ⟨di, hdi, rfl⟩ := List.mem_map.mp h
    obtain ⟨hin, hcanon⟩ := List.mem_filter.mp hdi
    exact ⟨List.mem_map.mpr ⟨di, hin, rfl⟩, of_decide_eq_true hcanon⟩
  · rintro ⟨h, hcanon⟩
    obtain ⟨di, hdi, rfl⟩ := List.mem_map.mp h
    exact List.mem_map.mpr ⟨di, List.mem_filter.mpr ⟨hdi, decide_eq_true hcanon⟩, rfl⟩

theorem canonical_mem_dedupe {insns : List DecodedInsn} {k : DecodeKey} (hk : k ∈ insns.map (·.key)) :
    canonical insns k ∈ (dedupe insns).map (·.key) := by
  obtain ⟨di, hdi, hkey, hcanon⟩ := canonical_mem hk
  rw [← hkey]
  exact mem_keys_dedupe.mpr ⟨List.mem_map_of_mem hdi, hcanon⟩

/-! ### Reachability -/

section Reach

variable {entry : DecodeKey} {insns : List DecodedInsn}

theorem merged_edge {di : DecodedInsn} {s : DecodeKey} (hdi : di ∈ insns) (hs : s ∈ di.successors)
    (hmem : s ∈ insns.map (·.key)) : canonical insns s ∈ mergeSuccessors insns (pcmx di.key) := by
  refine mem_mergeSuccessors.mpr ⟨di, hdi, rfl, List.mem_map.mpr ⟨s, hs, ?_⟩⟩
  rw [remap, if_pos hmem]

/-- What the entry has reached it still reaches. -/
theorem reach_dedupe {k : DecodeKey} (h : Visit.Reach (outOf insns) entry k) :
    Visit.Reach (outOf (dedupe insns)) (remap insns entry) (canonical insns k) := by
  induction h with
  | root h =>
    have hmem := outOf_isSome_iff_mem.mp h
    rw [remap, if_pos hmem]
    exact .root (outOf_isSome_iff_mem.mpr (canonical_mem_dedupe hmem))
  | @step k s ss hk hss hs hsome ih =>
    have hkmem : k ∈ insns.map (·.key) := outOf_isSome_iff_mem.mp (Option.isSome_of_eq_some hss)
    have hsmem := outOf_isSome_iff_mem.mp hsome
    refine .step ih (outOf_dedupe hkmem) ?_ (outOf_isSome_iff_mem.mpr (canonical_mem_dedupe hsmem))
    obtain ⟨di, hdi, hsucc⟩ := Option.map_eq_some_iff.mp hss
    have hkey : di.key = k := by simpa using List.find?_some hdi
    refine mem_mergeSuccessors.mpr ⟨di, List.mem_of_find?_eq_some hdi, by rw [hkey], ?_⟩
    rw [hsucc]
    refine List.mem_map.mpr ⟨s, hs, ?_⟩
    rw [remap, if_pos hsmem]

/-- A merged edge is the edge of a copy. -/
theorem copy_of_edge {k s : DecodeKey} {ss : List DecodeKey} (hss : outOf (dedupe insns) k = some ss)
    (hs : s ∈ ss) (hsome : (outOf (dedupe insns) s).isSome) : ∃ di ∈ insns, pcmx di.key = pcmx k ∧
      ∃ s' ∈ di.successors, s' ∈ insns.map (·.key) ∧ pcmx s' = pcmx s := by
  obtain ⟨hkmem, hkcanon⟩ := mem_keys_dedupe.mp (outOf_isSome_iff_mem.mp (Option.isSome_of_eq_some hss))
  have hout := outOf_dedupe hkmem
  rw [hkcanon, hss] at hout
  rw [Option.some.inj hout] at hs
  obtain ⟨di, hdi, hp, hsd⟩ := mem_mergeSuccessors.mp hs
  obtain ⟨s', hs', rfl⟩ := List.mem_map.mp hsd
  refine ⟨di, hdi, hp, s', hs', ?_, (pcmx_remap insns s').symm⟩
  by_contra hnot
  have hmem := (mem_keys_dedupe.mp (outOf_isSome_iff_mem.mp hsome)).1
  rw [remap, if_neg hnot] at hmem
  exact hnot hmem

theorem reached_of_dedupe (hcopies : CopiesReached entry insns) {k : DecodeKey}
    (h : Visit.Reach (outOf (dedupe insns)) (remap insns entry) k) : ReachesPcmx entry insns (pcmx k) := by
  induction h with
  | root h =>
    rw [pcmx_remap]
    refine ⟨entry, .root (outOf_isSome_iff_mem.mpr ?_), rfl⟩
    have hmem := (mem_keys_dedupe.mp (outOf_isSome_iff_mem.mp h)).1
    by_contra hnot
    rw [remap, if_neg hnot] at hmem
    exact hnot hmem
  | @step k s ss hk hss hs hsome ih =>
    obtain ⟨di, hdi, hp, s', hs', hmem, hps⟩ := copy_of_edge hss hs hsome
    rw [← hps]
    refine hcopies di hdi ?_ s' hs' hmem
    rw [hp]
    exact ih

theorem mergeKeeps_dedupe (hnodup : (insns.map (·.key)).Nodup) : MergeKeeps entry insns := by
  refine ⟨dedupe_nodup hnodup, fun di hdi s hs hmem => ?_, fun p => ?_⟩
  · obtain ⟨dj, hdj, hkey⟩ := List.mem_map.mp (canonical_mem_dedupe (List.mem_map_of_mem hdi : di.key ∈ _))
    refine ⟨dj, hdj, by rw [hkey, pcmx_canonical], canonical insns s, ?_, canonical_mem_dedupe hmem,
      pcmx_canonical insns s⟩
    obtain ⟨dk, hdk, rfl⟩ := List.mem_map.mp hdj
    have hp : pcmx dk.key = pcmx di.key := by
      have hkey : dk.key = canonical insns di.key := hkey
      rw [hkey, pcmx_canonical]
    show canonical insns s ∈ mergeSuccessors insns (pcmx dk.key)
    rw [hp]
    exact merged_edge hdi hs hmem
  · rintro ⟨k, hk, rfl⟩
    exact ⟨canonical insns k, reach_dedupe hk, pcmx_canonical insns k⟩

theorem nothingNew_iff : NothingNew entry insns ↔ CopiesReached entry insns := by
  constructor
  · rintro h di hdi ⟨k, hk, hp⟩ s hs hmem
    have hdimem : di.key ∈ insns.map (·.key) := List.mem_map_of_mem hdi
    have hkmem : k ∈ insns.map (·.key) := by
      refine outOf_isSome_iff_mem.mp ?_
      cases hk with
      | root h => exact h
      | step _ _ _ h => exact h
    have hnode := reach_dedupe hk
    rw [canonical_congr hp hkmem] at hnode
    refine h (pcmx s) ⟨canonical insns s, ?_, pcmx_canonical insns s⟩
    exact .step hnode (outOf_dedupe hdimem) (merged_edge hdi hs hmem)
      (outOf_isSome_iff_mem.mpr (canonical_mem_dedupe hmem))
  · rintro hcopies p ⟨k, hk, rfl⟩
    exact reached_of_dedupe hcopies hk

/-- **The merge keeps what the entry reaches, and adds nothing exactly if the copies of what is
reached lead to nothing else.** -/
theorem mergeKeeps (entry : DecodeKey) (hnodup : (insns.map (·.key)).Nodup) :
    MergeKeeps entry insns ∧ (NothingNew entry insns ↔ CopiesReached entry insns) :=
  ⟨mergeKeeps_dedupe hnodup, nothingNew_iff⟩

/-- Where every instruction is reached, so is every copy. -/
theorem copiesReached_of_reach (h : ∀ di ∈ insns, Visit.Reach (outOf insns) entry di.key) :
    CopiesReached entry insns := by
  intro _ _ _ s _ hmem
  obtain ⟨di, hdi, rfl⟩ := List.mem_map.mp hmem
  exact ⟨di.key, h di hdi, rfl⟩

end Reach

/-! ### The handler of a pointer call -/

/-- `JMP ($0010)`, a pointer call to `$8008`; behind it `REP #$20; PHP; SEP #$20; PLP; RTS`, with the
`PLP` at `$8008`. -/
def seededPlp : DecodeInput :=
  { DecodeInput.plain [0x6C, 0x10, 0x00, 0xC2, 0x20, 0x08, 0xE2, 0x20, 0x28, 0x60] with
    recovery := { Recovery.none with
      indirectJump := fun _ => some ⟨[0x8008], false, .x, [], true, false⟩ } }

/-- Its instructions, before the merge. -/
def seededInsns : List DecodedInsn :=
  (decodeLoop seededPlp seededPlp.maxInsns [⟨entryKey seededPlp, .entry, none⟩] []).getD []

theorem mergeKeeps_seeded : MergeKeeps (entryKey seededPlp) seededInsns ∧
    (NothingNew (entryKey seededPlp) seededInsns ↔ CopiesReached (entryKey seededPlp) seededInsns) :=
  mergeKeeps (entryKey seededPlp) (by decide)

/-- The copy of the handler adds the `RTS` in narrow widths, which nothing reaches. -/
theorem not_nothingNew_seeded : decodeLoop seededPlp seededPlp.maxInsns [⟨entryKey seededPlp, .entry, none⟩] [] =
      some seededInsns ∧ ¬ NothingNew (entryKey seededPlp) seededInsns := by
  refine ⟨by decide, fun h => ?_⟩
  have hafter : ReachesPcmx (remap seededInsns (entryKey seededPlp)) (dedupe seededInsns) (0x8009, true, true) := by
    have hvisit : ⟨0x8009, true, true, []⟩ ∈ Visit.visit (outOf (dedupe seededInsns)) 12
        [remap seededInsns (entryKey seededPlp)] [] := by decide
    exact ⟨_, (Visit.mem_visit_iff (fun _ => outOf_isSome_iff_mem.mp) (by decide) _ _).mp hvisit, rfl⟩
  obtain ⟨k, hk, hp⟩ := h _ hafter
  have hroom : (seededInsns.map (·.key)).length ≤ 12 := by decide
  have hvisit := (Visit.mem_visit_iff (fun _ => outOf_isSome_iff_mem.mp) hroom _ k).mpr hk
  have hnone : ∀ k ∈ Visit.visit (outOf seededInsns) 12 [entryKey seededPlp] [],
      pcmx k ≠ (0x8009, true, true) := by decide
  exact hnone k hvisit hp

end SnesRecomp.Recompiler
