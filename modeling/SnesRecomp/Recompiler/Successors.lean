import SnesRecomp.Recompiler.Graph

/-!
# Successors after the merge

What `_dedupe_by_pcmx` and the fold leave of the successors of an instruction.  The
variants of an instruction differ in the saved widths only, and without a `PLP` these do
not show in the labels of its successors (`decodeOne_labels`): the labels in a graph are
those of one decoding, in its order, and copies of them.
-/

namespace SnesRecomp.Recompiler

/-- The labels that the instruction at a key leads to. -/
def decodedLabels (inp : DecodeInput) (key : DecodeKey) (insn : Insn) : List Pcmx :=
  (decodeOne inp key insn).insn.successors.map pcmx

/-- Only a `PLP` takes widths from the saved ones. -/
theorem postState_widths {insn : Insn} (hplp : insn.mnem ≠ .plp) (m x : Bool)
    (saved saved' : List (Bool × Bool)) :
    (postState insn m x saved).1 = (postState insn m x saved').1 ∧
      (postState insn m x saved).2.1 = (postState insn m x saved').2.1 := by
  unfold postState
  split
  · exact ⟨rfl, rfl⟩
  · exact ⟨rfl, rfl⟩
  · constructor <;> split <;> split <;> rfl
  next h => exact absurd h hplp
  · exact ⟨rfl, rfl⟩

theorem labeledSuccessors_labels (maps : ExitMaps) (rom : Rom) {insn : Insn}
    (hplp : insn.mnem ≠ .plp) (bank : Nat) {k l : DecodeKey} (hkl : pcmx k = pcmx l) :
    (labeledSuccessors maps rom insn k bank).map (fun e => pcmx e.1) =
      (labeledSuccessors maps rom insn l bank).map (fun e => pcmx e.1) := by
  obtain ⟨kpc, km, kx, ks⟩ := k
  obtain ⟨lpc, lm, lx, ls⟩ := l
  obtain ⟨rfl, rfl, rfl⟩ : kpc = lpc ∧ km = lm ∧ kx = lx := by
    simpa only [pcmx, Prod.mk.injEq] using hkl
  obtain ⟨hm, hx⟩ := postState_widths hplp km kx ks ls
  unfold labeledSuccessors pcmx
  dsimp only
  rw [hm, hx]
  split
  · rfl
  · split
    · rfl
    · split
      · rfl
      · split
        · split <;> rfl
        · split
          · rw [List.map_map, List.map_map]
            rfl
          · rfl

theorem ofEdges_labels (key : DecodeKey) (insn : Insn) (es : List (DecodeKey × EdgeKind))
    (d : Option Dispatch) (runtime : Bool) :
    (Decoded.ofEdges key insn es d runtime).insn.successors.map pcmx = es.map fun e => pcmx e.1 := by
  unfold Decoded.ofEdges
  dsimp only
  rw [List.map_map]
  rfl

/-- The labels do not depend on the saved widths. -/
theorem decodeOne_labels (inp : DecodeInput) {insn : Insn} (hplp : insn.mnem ≠ .plp)
    {k l : DecodeKey} (hkl : pcmx k = pcmx l) : decodedLabels inp k insn = decodedLabels inp l insn := by
  have hback := labeledSuccessors_labels inp.maps inp.rom hplp inp.bank hkl
  have hedges : ∀ {key key' : DecodeKey} {es es' : List (DecodeKey × EdgeKind)}
      {d : Option Dispatch} {runtime : Bool},
      es.map (fun e => pcmx e.1) = es'.map (fun e => pcmx e.1) →
      (Decoded.ofEdges key insn es d runtime).insn.successors.map pcmx =
        (Decoded.ofEdges key' insn es' d runtime).insn.successors.map pcmx := by
    intro key key' es es' d runtime h
    rw [ofEdges_labels, ofEdges_labels]
    exact h
  have hjump : (decodeIndirectJump inp k insn).insn.successors.map pcmx =
      (decodeIndirectJump inp l insn).insn.successors.map pcmx := by
    unfold decodeIndirectJump
    cases inp.recovery.indirectJump insn with
    | none => rfl
    | some t =>
      dsimp only
      have hpc : k.pc = l.pc := congrArg Prod.fst hkl
      split
      · dsimp only
        rw [hpc]
      · exact hedges rfl
  have hcall : (decodeIndirectCall inp k insn).insn.successors.map pcmx =
      (decodeIndirectCall inp l insn).insn.successors.map pcmx := by
    unfold decodeIndirectCall
    dsimp only
    cases inp.recovery.indirectCall insn with
    | some t => exact hedges (by rw [List.map_append, List.map_append, hback])
    | none =>
      dsimp only
      cases inp.recovery.callTable insn with
      | some t => exact hedges (by rw [List.map_append, List.map_append, hback])
      | none =>
        dsimp only
        split
        · exact hedges hback
        · rfl
  unfold decodedLabels decodeOne
  cases (if isLongTransfer insn then inp.recovery.helperTable insn else none) with
  | some t => rfl
  | none =>
    dsimp only
    split
    · exact hjump
    · cases (if insn.mnem = .pha then inp.recovery.rtsStack insn else none) with
      | some t => exact hedges rfl
      | none =>
        dsimp only
        split
        · exact hcall
        · exact hedges hback

theorem labeledSuccessors_modes (maps : ExitMaps) (rom : Rom) {insn : Insn} (key : DecodeKey)
    (bank : Nat) (hcall : ¬ (insn.mnem = .jsr ∨ insn.mnem = .jsl)) :
    ∃ mode, ∀ e ∈ labeledSuccessors maps rom insn key bank, (pcmx e.1).2 = mode := by
  refine ⟨((postState insn key.m key.x key.pStack).1, (postState insn key.m key.x key.pStack).2.1),
    fun e he => ?_⟩
  unfold labeledSuccessors at he
  dsimp only at he
  rw [if_neg hcall] at he
  split at he
  · cases he
  · split at he
    · rw [List.mem_singleton.mp he]
      rfl
    · split at he
      · rcases List.mem_cons.mp he with rfl | he
        · rfl
        · rw [List.mem_singleton.mp he]
          rfl
      · split at he
        · split at he
          · rw [List.mem_singleton.mp he]
            rfl
          · cases he
        · rw [List.mem_singleton.mp he]
          rfl

theorem handlerKeys_modes {bank : Nat} {m x : Bool} {entries : List Nat} {k : DecodeKey}
    (hk : k ∈ handlerKeys bank m x entries) : (pcmx k).2 = (m, x) := by
  obtain ⟨e, _, rfl⟩ := List.mem_map.mp hk
  rfl

/-- But behind a call, the code an instruction leads to is decoded in one pair of widths. -/
theorem decodeOne_modes (inp : DecodeInput) (key : DecodeKey) {insn : Insn}
    (hcall : ¬ (insn.mnem = .jsr ∨ insn.mnem = .jsl)) :
    ∃ mode, ∀ p ∈ decodedLabels inp key insn, p.2 = mode := by
  have hedges : ∀ {es : List (DecodeKey × EdgeKind)} {d : Option Dispatch} {runtime : Bool},
      (∃ mode, ∀ e ∈ es, (pcmx e.1).2 = mode) →
      ∃ mode, ∀ p ∈ (Decoded.ofEdges key insn es d runtime).insn.successors.map pcmx, p.2 = mode := by
    rintro es d runtime ⟨mode, hmode⟩
    refine ⟨mode, fun p hp => ?_⟩
    obtain ⟨s, hs, rfl⟩ := List.mem_map.mp hp
    obtain ⟨e, he, rfl⟩ := List.mem_map.mp hs
    exact hmode e he
  have hhandlers : ∀ m x entries, ∃ mode,
      ∀ e ∈ (handlerKeys inp.bank m x entries).map (·, EdgeKind.jump), (pcmx e.1).2 = mode := by
    intro m x entries
    refine ⟨(m, x), fun e he => ?_⟩
    obtain ⟨k, hk, rfl⟩ := List.mem_map.mp he
    exact handlerKeys_modes hk
  have hnone : ∃ mode : Bool × Bool, ∀ e ∈ ([] : List (DecodeKey × EdgeKind)), (pcmx e.1).2 = mode :=
    ⟨(false, false), fun e he => by cases he⟩
  unfold decodedLabels decodeOne
  cases (if isLongTransfer insn then inp.recovery.helperTable insn else none) with
  | some t => exact hedges hnone
  | none =>
    dsimp only
    split
    · unfold decodeIndirectJump
      cases inp.recovery.indirectJump insn with
      | none => exact hedges hnone
      | some t =>
        dsimp only
        split
        · refine ⟨(insn.mFlag, insn.xFlag), fun p hp => ?_⟩
          rw [List.map_singleton] at hp
          rw [List.mem_singleton.mp hp]
          rfl
        · exact hedges (hhandlers _ _ _)
    · cases (if insn.mnem = .pha then inp.recovery.rtsStack insn else none) with
      | some t => exact hedges (hhandlers _ _ _)
      | none =>
        dsimp only
        split
        next hjsr => exact absurd (Or.inl hjsr.1) hcall
        next => exact hedges (labeledSuccessors_modes inp.maps inp.rom key inp.bank hcall)

/-- The labels behind a call. -/
def backLabels (inp : DecodeInput) (key : DecodeKey) (insn : Insn) : List Pcmx :=
  (returnModes inp.maps inp.rom insn inp.bank key.m key.x).map fun mode =>
    (addr24 inp.bank (nextPc inp.maps insn inp.bank), mode.1, mode.2)

theorem backLabels_ne_nil (inp : DecodeInput) (key : DecodeKey) (insn : Insn) :
    backLabels inp key insn ≠ [] := fun h => returnModes_ne_nil _ _ _ _ _ _ (List.map_eq_nil_iff.mp h)

theorem labeledSuccessors_back (inp : DecodeInput) (key : DecodeKey) {insn : Insn}
    (hcall : insn.mnem = .jsr ∨ insn.mnem = .jsl) :
    (labeledSuccessors inp.maps inp.rom insn key inp.bank).map (fun e => pcmx e.1) =
      backLabels inp key insn := by
  have hterm : ¬ isTerminator insn.mnem = true := by rcases hcall with h | h <;> rw [h] <;> decide
  have hcond : ¬ isCondBranch insn.mnem = true := by rcases hcall with h | h <;> rw [h] <;> decide
  have hbra : ¬ (insn.mnem = .bra ∨ insn.mnem = .brl) := by
    rcases hcall with h | h <;> rw [h] <;> decide
  have hjmp : ¬ insn.mnem = .jmp := by rcases hcall with h | h <;> rw [h] <;> decide
  have hpost : postState insn key.m key.x key.pStack = (key.m, key.x, key.pStack) := by
    unfold postState
    rcases hcall with h | h <;> rw [h]
  unfold labeledSuccessors backLabels
  dsimp only
  rw [if_neg hterm, if_neg hbra, if_neg hcond, if_neg hjmp, if_pos hcall, hpost, List.map_map]
  rfl

/-- What a call leads to: the code behind it and, where it is dispatched, the handlers in
the bank; nothing where a table replaces it or nobody authorises it. -/
theorem decodeOne_call (inp : DecodeInput) (key : DecodeKey) {insn : Insn}
    (hcall : insn.mnem = .jsr ∨ insn.mnem = .jsl) :
    (decodedLabels inp key insn = [] ∧
      ∀ d, (decodeOne inp key insn).insn.dispatch = some d → d.idxReg = none) ∨
      ∃ handlers : List DecodeKey,
        decodedLabels inp key insn = backLabels inp key insn ++ handlers.map pcmx ∧
        (∀ d, (decodeOne inp key insn).insn.dispatch = some d → d.idxReg.isSome →
          handlers = handlerKeys inp.bank insn.mFlag insn.xFlag d.entries) ∧
        (handlers ≠ [] → ∃ d, (decodeOne inp key insn).insn.dispatch = some d ∧ d.entries ≠ []) := by
  have hback := labeledSuccessors_back inp key hcall
  have hjump : ¬ isIndirectJump insn = true := by
    unfold isIndirectJump
    rcases hcall with h | h <;> rw [h] <;> simp
  have hpha : ¬ insn.mnem = .pha := by rcases hcall with h | h <;> rw [h] <;> decide
  have hplain : ∀ {d : Option Dispatch} {runtime : Bool},
      (Decoded.ofEdges key insn (labeledSuccessors inp.maps inp.rom insn key inp.bank) d
        runtime).insn.successors.map pcmx = backLabels inp key insn ++ ([] : List DecodeKey).map pcmx := by
    intro d runtime
    rw [ofEdges_labels, hback, List.map_nil, List.append_nil]
  have hdispatched : ∀ {d : Option Dispatch} (handlers : List DecodeKey),
      (Decoded.ofEdges key insn (labeledSuccessors inp.maps inp.rom insn key inp.bank ++
        handlers.map (·, EdgeKind.jump)) d false).insn.successors.map pcmx =
      backLabels inp key insn ++ handlers.map pcmx := by
    intro d handlers
    rw [ofEdges_labels, List.map_append, hback, List.map_map]
    rfl
  unfold decodedLabels decodeOne
  cases (if isLongTransfer insn then inp.recovery.helperTable insn else none) with
  | some t =>
    refine Or.inl ⟨rfl, fun d hd => ?_⟩
    obtain rfl := Option.some.inj hd
    rfl
  | none =>
    dsimp only
    rw [if_neg hjump, if_neg hpha]
    dsimp only
    by_cases hx : insn.mnem = .jsr ∧ insn.mode = .indirX
    · rw [if_pos hx]
      unfold decodeIndirectCall
      dsimp only
      cases inp.recovery.indirectCall insn with
      | some t =>
        refine Or.inr ⟨_, hdispatched _, fun d hd _ => ?_, fun hne => ⟨_, rfl, ?_⟩⟩
        · obtain rfl := Option.some.inj hd
          rfl
        · intro hentries
          have hnil : t.entries = [] := hentries
          rw [hnil] at hne
          exact hne rfl
      | none =>
        dsimp only
        cases inp.recovery.callTable insn with
        | some t =>
          refine Or.inr ⟨_, hdispatched _, fun d hd hidx => ?_, fun hne => ⟨_, rfl, ?_⟩⟩
          · obtain rfl := Option.some.inj hd
            cases hidx
          · intro hentries
            have hnil : t.1 = [] := hentries
            refine hne ?_
            rw [hnil]
            unfold tableEntries handlerKeys
            split <;> rfl
        | none =>
          dsimp only
          split
          · exact Or.inr ⟨[], hplain, fun d hd => (by cases hd), fun hne => absurd rfl hne⟩
          · exact Or.inl ⟨rfl, fun d hd => by cases hd⟩
    · rw [if_neg hx]
      exact Or.inr ⟨[], hplain, fun d hd => (by cases hd), fun hne => absurd rfl hne⟩

/-- A conditional branch leads to the code behind it and to its target. -/
theorem length_decodedLabels (inp : DecodeInput) (key : DecodeKey) {insn : Insn}
    (hbranch : isCondBranch insn.mnem = true) : (decodedLabels inp key insn).length = 2 := by
  have hlong : isLongTransfer insn = false := by
    unfold isLongTransfer
    cases hm : insn.mnem <;> first | rfl | (rw [hm] at hbranch; cases hbranch)
  have hjump : ¬ isIndirectJump insn = true := by
    unfold isIndirectJump
    cases hm : insn.mnem <;> first | (rw [hm] at hbranch; cases hbranch; done) | simp
  have hmnems : insn.mnem ≠ .pha ∧ insn.mnem ≠ .jsr ∧ isTerminator insn.mnem = false ∧
      ¬ (insn.mnem = .bra ∨ insn.mnem = .brl) := by
    cases hm : insn.mnem <;> first | (rw [hm] at hbranch; cases hbranch; done) | decide
  obtain ⟨hpha, hjsr, hterm, hbra⟩ := hmnems
  unfold decodedLabels decodeOne
  rw [hlong, if_neg (by decide), if_neg hjump, if_neg hpha]
  dsimp only
  rw [if_neg fun h => hjsr h.1, ofEdges_labels]
  unfold labeledSuccessors
  dsimp only
  rw [hterm, if_neg (by decide), if_neg hbra, if_pos hbranch]
  rfl

/-- A call that is dispatched at run time has no dispatch of its own. -/
theorem decodeOne_runtime (inp : DecodeInput) (key : DecodeKey) (insn : Insn)
    (h : (decodeOne inp key insn).insn.dispatchRuntime = true) :
    (decodeOne inp key insn).insn.dispatch = none := by
  unfold decodeOne at h ⊢
  revert h
  cases (if isLongTransfer insn then inp.recovery.helperTable insn else none) with
  | some t => intro h; cases h
  | none =>
    dsimp only
    split
    · unfold decodeIndirectJump
      cases inp.recovery.indirectJump insn with
      | none => intro h; cases h
      | some t =>
        dsimp only
        split <;> intro h <;> cases h
    · cases (if insn.mnem = .pha then inp.recovery.rtsStack insn else none) with
      | some t => intro h; cases h
      | none =>
        dsimp only
        split
        · unfold decodeIndirectCall
          dsimp only
          cases inp.recovery.indirectCall insn with
          | some t => intro h; cases h
          | none =>
            dsimp only
            cases inp.recovery.callTable insn with
            | some t => intro h; cases h
            | none =>
              dsimp only
              split <;> intro _ <;> rfl
        · intro h; cases h

/-- A jump that a `PEA` makes a call leads to the code behind the `PEA`'s frame. -/
theorem decodeOne_ptrcall (inp : DecodeInput) (key : DecodeKey) {insn : Insn} {d : Dispatch}
    (hjmp : insn.mnem = .jmp) (hd : (decodeOne inp key insn).insn.dispatch = some d)
    (hcall : d.call = true) : decodedLabels inp key insn =
      [(addr24 inp.bank (peaPtrcallReturnPc inp.rom inp.bank (key.pc &&& 0xFFFF)
        (((key.pc &&& 0xFFFF) + insn.length) % 0x10000)), insn.mFlag, insn.xFlag)] := by
  have hpha : ¬ insn.mnem = .pha := by rw [hjmp]; decide
  have hjsr : ¬ (insn.mnem = .jsr ∧ insn.mode = .indirX) := by
    rintro ⟨h, _⟩
    rw [hjmp] at h
    cases h
  unfold decodedLabels
  unfold decodeOne at hd ⊢
  revert hd
  cases (if isLongTransfer insn then inp.recovery.helperTable insn else none) with
  | some t =>
    intro hd
    obtain rfl := Option.some.inj hd
    cases hcall
  | none =>
    intro hd
    dsimp only at hd ⊢
    by_cases hjump : isIndirectJump insn = true
    · rw [if_pos hjump] at hd ⊢
      unfold decodeIndirectJump at hd ⊢
      revert hd
      cases inp.recovery.indirectJump insn with
      | none =>
        intro hd
        cases hd
      | some t =>
        intro hd
        dsimp only at hd ⊢
        by_cases hptr : t.ptrCall = true
        · rw [if_pos hptr]
          rfl
        · rw [if_neg hptr] at hd
          obtain rfl := Option.some.inj hd
          exact absurd hcall hptr
    · rw [if_neg hjump, if_neg hpha] at hd
      dsimp only at hd
      rw [if_neg hjsr] at hd
      cases hd

/-! ### The merge -/

/-- Merging adds successors of the others behind those of the first. -/
theorem appendNew_spec : ∀ (new succs : List DecodeKey), ∃ extra, appendNew succs new = succs ++ extra ∧
    extra ⊆ new := by
  intro new
  induction new with
  | nil => intro succs; exact ⟨[], (List.append_nil succs).symm, List.nil_subset _⟩
  | cons s new ih =>
    intro succs
    by_cases hs : s ∈ succs
    · obtain ⟨extra, heq, hsub⟩ := ih succs
      refine ⟨extra, ?_, fun k hk => List.mem_cons_of_mem s (hsub hk)⟩
      rw [← heq]
      unfold appendNew
      rw [List.foldl_cons, if_pos hs]
    · obtain ⟨extra, heq, hsub⟩ := ih (succs ++ [s])
      refine ⟨s :: extra, ?_, List.cons_subset_cons s hsub⟩
      rw [List.append_cons, ← heq]
      unfold appendNew
      rw [List.foldl_cons, if_neg hs]

theorem foldl_appendNew_spec : ∀ (others : List (List DecodeKey)) (first : List DecodeKey),
    ∃ extra, others.foldl appendNew first = first ++ extra ∧ ∀ s ∈ extra, ∃ o ∈ others, s ∈ o := by
  intro others
  induction others with
  | nil => intro first; exact ⟨[], (List.append_nil first).symm, fun s hs => by cases hs⟩
  | cons o others ih =>
    intro first
    obtain ⟨extra, heq, hsub⟩ := appendNew_spec o first
    obtain ⟨extra', heq', hsub'⟩ := ih (first ++ extra)
    refine ⟨extra ++ extra', by rw [List.foldl_cons, heq, heq', List.append_assoc], fun s hs => ?_⟩
    rcases List.mem_append.mp hs with hs | hs
    · exact ⟨o, List.mem_cons_self, hsub hs⟩
    · obtain ⟨o', ho', hs⟩ := hsub' s hs
      exact ⟨o', List.mem_cons_of_mem o ho', hs⟩

/-- The variants of an instruction are read from the same bytes and lead to the same labels. -/
theorem FreshAt.labels {inp : DecodeInput} {di : DecodedInsn} {insn insn' : Insn} {key : DecodeKey}
    (h : FreshAt inp di insn') (hkey : pcmx di.key = pcmx key)
    (hread : decodeAt inp.rom inp.bank (key.pc &&& 0xFFFF) key.m key.x = some insn)
    (hplp : insn.mnem ≠ .plp) : di.successors.map pcmx = decodedLabels inp key insn := by
  obtain ⟨hpc, hm, hx⟩ : di.key.pc = key.pc ∧ di.key.m = key.m ∧ di.key.x = key.x := by
    simpa only [pcmx, Prod.mk.injEq] using hkey
  have hinsn : insn' = insn := by
    have hread' := h.read
    rw [hpc, hm, hx, hread] at hread'
    exact (Option.some.inj hread').symm
  rw [congrArg DecodedInsn.successors h.fresh, hinsn]
  exact decodeOne_labels inp hplp hkey

/-- A merged instruction is the first of its variants, with the successors of its own decoding
in front of those of the others. -/
theorem dedupe_merge {insns : List DecodedInsn} (hnodup : (insns.map (·.key)).Nodup)
    {di : DecodedInsn} (hdi : di ∈ dedupe insns) :
    ∃ dj ∈ insns, ∃ extra,
      di = { dj with successors := dj.successors.map (remap insns) ++ extra } ∧
      ∀ s ∈ extra, ∃ d ∈ insns, pcmx d.key = pcmx dj.key ∧ s ∈ d.successors.map (remap insns) := by
  obtain ⟨dj, hdj, rfl⟩ := List.mem_map.mp hdi
  obtain ⟨hmem, hcanon⟩ := List.mem_filter.mp hdj
  have hhead : (insns.filter fun d => pcmx d.key = pcmx dj.key).head? = some dj := by
    rw [List.head?_filter]
    have hcanon := of_decide_eq_true hcanon
    unfold canonical at hcanon
    cases hfind : insns.find? fun d => decide (pcmx d.key = pcmx dj.key) with
    | none => exact absurd (decide_eq_true rfl) (List.find?_eq_none.mp hfind dj hmem)
    | some d =>
      rw [hfind] at hcanon
      rw [List.inj_on_of_nodup_map hnodup (List.mem_of_find?_eq_some hfind) hmem hcanon]
  obtain ⟨rest, hfilter⟩ := List.head?_eq_some_iff.mp hhead
  have hmerge : mergeSuccessors insns (pcmx dj.key) =
      (rest.map fun d => d.successors.map (remap insns)).foldl appendNew
        (dj.successors.map (remap insns)) := by
    unfold mergeSuccessors
    rw [hfilter]
    rfl
  obtain ⟨extra, hextra, hsub⟩ := foldl_appendNew_spec
    (rest.map fun d => d.successors.map (remap insns)) (dj.successors.map (remap insns))
  refine ⟨dj, hmem, extra, by rw [hmerge, hextra], fun s hs => ?_⟩
  obtain ⟨o, ho, hso⟩ := hsub s hs
  obtain ⟨d, hd, rfl⟩ := List.mem_map.mp ho
  have hdmem : d ∈ insns.filter fun d => pcmx d.key = pcmx dj.key := by
    rw [hfilter]
    exact List.mem_cons_of_mem dj hd
  obtain ⟨hdin, hdkey⟩ := List.mem_filter.mp hdmem
  exact ⟨d, hdin, of_decide_eq_true hdkey, hso⟩

/-- The labels that a merged instruction leads to are those of its own decoding and copies
of them. -/
theorem dedupe_labels {inp : DecodeInput} {insns : List DecodedInsn} (hnodup : (insns.map (·.key)).Nodup)
    (hfresh : ∀ di ∈ insns, ∃ insn, FreshAt inp di insn) {di : DecodedInsn} (hdi : di ∈ dedupe insns)
    {insn : Insn} (hread : decodeAt inp.rom inp.bank (di.key.pc &&& 0xFFFF) di.key.m di.key.x = some insn)
    (hplp : insn.mnem ≠ .plp) :
    ∃ extra, di.successors.map pcmx = decodedLabels inp di.key insn ++ extra ∧
      extra ⊆ decodedLabels inp di.key insn := by
  obtain ⟨dj, hmem, extra, rfl, hsub⟩ := dedupe_merge hnodup hdi
  have hremap : ∀ d : DecodedInsn, (d.successors.map (remap insns)).map pcmx = d.successors.map pcmx := by
    intro d
    rw [List.map_map]
    exact List.map_congr_left fun s _ => pcmx_remap insns s
  obtain ⟨_, hj⟩ := hfresh dj hmem
  refine ⟨extra.map pcmx, ?_, fun p hp => ?_⟩
  · dsimp only
    rw [List.map_append, hremap, hj.labels rfl hread hplp]
  · obtain ⟨s, hs, rfl⟩ := List.mem_map.mp hp
    obtain ⟨d, hdin, hdkey, hso⟩ := hsub s hs
    obtain ⟨_, hfd⟩ := hfresh d hdin
    rw [← hfd.labels hdkey hread hplp, ← hremap]
    exact List.mem_map_of_mem hso

theorem dedupe_read {inp : DecodeInput} {insns : List DecodedInsn}
    (hfresh : ∀ di ∈ insns, ∃ insn, FreshAt inp di insn) {di : DecodedInsn} (hdi : di ∈ dedupe insns) :
    decodeAt inp.rom inp.bank (di.key.pc &&& 0xFFFF) di.key.m di.key.x = some di.insn := by
  obtain ⟨dj, hdj, rfl⟩ := List.mem_map.mp hdi
  obtain ⟨insn, hj⟩ := hfresh dj (List.mem_of_mem_filter hdj)
  have hinsn : dj.insn = insn := (congrArg DecodedInsn.insn hj.fresh).trans (decodeOne_self inp dj.key insn).2
  dsimp only
  rw [hinsn]
  exact hj.read

/-! ### Graphs -/

theorem foldBranch_of_mnem (insns : List DecodedInsn) {di : DecodedInsn}
    (h : ¬ (di.insn.mnem = .beq ∨ di.insn.mnem = .bne)) : foldBranch insns di = di := by
  unfold foldBranch
  rw [if_neg h]

/-- The fold drops a successor at most. -/
theorem foldBranch_successors (insns : List DecodedInsn) (di : DecodedInsn) :
    (foldBranch insns di).successors ⊆ di.successors := by
  unfold foldBranch
  split
  · split
    · split
      next fall jump _ heq =>
        split
        · intro s hs
          rw [heq]
          rw [List.mem_singleton] at hs
          rw [hs]
          generalize (if di.insn.mnem = .beq then _ else _) = taken
          cases taken <;> simp
        · exact fun _ h => h
      · exact fun _ h => h
    · exact fun _ h => h
  · exact fun _ h => h

variable {inp : DecodeInput} {g : FunctionGraph} (h : decodeFunction inp = some g)

include h

/-- Without a `PLP` the labels an instruction of a graph leads to are among those of its
decoding. -/
theorem mem_decodedLabels {di : DecodedInsn} (hdi : di ∈ g.insns) {insn : Insn}
    (hread : decodeAt inp.rom inp.bank (di.key.pc &&& 0xFFFF) di.key.m di.key.x = some insn)
    (hplp : insn.mnem ≠ .plp) {s : DecodeKey} (hs : s ∈ di.successors) :
    pcmx s ∈ decodedLabels inp di.key insn := by
  obtain ⟨insns, hnodup, hfresh, hgraph⟩ := decodeFunction_eq_some h
  obtain ⟨dj, hdj, rfl⟩ := hgraph di hdi
  rw [foldBranch_key] at hread ⊢
  obtain ⟨extra, hlabels, hextra⟩ := dedupe_labels hnodup hfresh hdj hread hplp
  have hmem : pcmx s ∈ dj.successors.map pcmx :=
    List.mem_map_of_mem (foldBranch_successors (dedupe insns) dj hs)
  rw [hlabels] at hmem
  rcases List.mem_append.mp hmem with hmem | hmem
  · exact hmem
  · exact hextra hmem

/-- Behind a call the labels are those of its decoding, in its order, and copies of them. -/
theorem call_labels {di : DecodedInsn} (hdi : di ∈ g.insns)
    (hcall : di.insn.mnem = .jsr ∨ di.insn.mnem = .jsl) :
    decodeAt inp.rom inp.bank (di.key.pc &&& 0xFFFF) di.key.m di.key.x = some di.insn ∧ ∃ extra, di.successors.map pcmx = decodedLabels inp di.key di.insn ++ extra ∧
      extra ⊆ decodedLabels inp di.key di.insn := by
  obtain ⟨insns, hnodup, hfresh, hgraph⟩ := decodeFunction_eq_some h
  obtain ⟨dj, hdj, rfl⟩ := hgraph di hdi
  have hread := dedupe_read hfresh hdj
  have hmnem : (foldBranch (dedupe insns) dj).insn.mnem = dj.insn.mnem := by
    obtain ⟨insn, hfd⟩ : ∃ insn, DecodedAt inp dj insn :=
      DecodedAt.dedupe (fun d hd => (hfresh d hd).imp fun _ hf => hf.decodedAt) dj hdj
    rw [hfd.foldBranch.mnem, hfd.mnem]
  rw [hmnem] at hcall
  have hbranch : ¬ (dj.insn.mnem = .beq ∨ dj.insn.mnem = .bne) := by
    rcases hcall with hm | hm <;> rw [hm] <;> decide
  have hplp : dj.insn.mnem ≠ .plp := by rcases hcall with hm | hm <;> rw [hm] <;> decide
  rw [foldBranch_of_mnem _ hbranch]
  exact ⟨hread, dedupe_labels hnodup hfresh hdj hread hplp⟩

end SnesRecomp.Recompiler
