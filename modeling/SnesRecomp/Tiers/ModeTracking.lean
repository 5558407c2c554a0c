import SnesRecomp.Recompiler.Closure
import SnesRecomp.Tiers.IntraSteps

/-!
# Runs inside a function

The decoder against the interpreter.  `IntraRun` is a run from the entry of a function over
instructions that stay inside it, with at most eight status bytes pushed and not pulled, and only
along edges that the gates of the decoder let through.

`decodeFunction_tracks`: wherever such a run comes to, the graph has an instruction for that address
in the widths of the processor.  `decodeFunction_follows`: the run goes along the edges of the graph,
so the edges that the constant-Z fold drops are never taken.  Both need that the fold has not
touched the entry, which is come to with the flags of the caller.
-/

namespace SnesRecomp.Tiers

open Recompiler Interp816

variable {M : Type}

/-- No gate of the loop stops an edge between the two addresses. -/
def Passes (inp : DecodeInput) (kind : EdgeKind) (pc pc' : Nat) : Prop :=
  ∀ m x saved,
    skipped inp [] ⟨⟨Recompiler.addr24 inp.bank pc', m, x, saved⟩, kind, some pc⟩ = false

/-- A run from the entry, with the status bytes that wait to be pulled. -/
inductive IntraRun (bus : Bus M) (inp : DecodeInput) (i₀ : Interp816 M) : List Byte → Interp816 M → Prop
  | start : IntraRun bus inp i₀ [] i₀
  | step {saved saved' : List Byte} {i : Interp816 M} {insn : Insn} : IntraRun bus inp i₀ saved i →
      StepsOver bus inp saved i insn saved' →
      Passes inp (kindOf i insn.mnem) i.pc.toNat (runOpcode (bridgeBus bus) i).pc.toNat →
      IntraRun bus inp i₀ saved' (runOpcode (bridgeBus bus) i)

/-- A function with no declared end and no siblings is only stopped by the ends of the ROM. -/
theorem passes_of_open {inp : DecodeInput} {kind : EdgeKind} {pc pc' : Nat} (hend : inp.endPc = none)
    (hsiblings : inp.siblingEntryPcs = []) (hpc : 0x8000 ≤ pc' ∧ pc' < 0x10000)
    (hrom : loromOffset inp.bank pc' < inp.rom.size) : Passes inp kind pc pc' := by
  intro m x saved
  have hkey : Recompiler.addr24 inp.bank pc' &&& 0xFFFF = pc' := addr24_and inp.bank hpc.2
  rw [Bool.eq_false_iff]
  intro hs
  simp only [skipped, Bool.or_eq_true, decide_eq_true_eq, hkey, hend, hsiblings] at hs
  rcases hs with (((hs | hs) | hs) | hs) | hs
  · cases hs
  · cases hs
  · cases hs.2
  · omega
  · omega

/-- The processor at the entry of the function, in native mode. -/
structure AtEntry (inp : DecodeInput) (i : Interp816 M) : Prop where
  pc : i.pc.toNat = inp.start
  m : i.mf = inp.entryM
  x : i.xf = inp.entryX
  native : i.e = false
  runs : Uninterrupted i
  passes : skipped inp [] ⟨entryKey inp, .entry, none⟩ = false

/-- The fold has left the instruction at the entry alone. -/
def EntryKept (g : FunctionGraph) : Prop :=
  ∀ di ∈ g.insns, di.key = g.entry → di.insn.constZFoldUnconditional = false

instance (g : FunctionGraph) : Decidable (EntryKept g) :=
  inferInstanceAs (Decidable (∀ di ∈ g.insns, di.key = g.entry →
    di.insn.constZFoldUnconditional = false))

theorem uninterrupted_of_step {bus : Bus M} {inp : DecodeInput} {saved saved' : List Byte}
    {i : Interp816 M} {insn : Insn} (h : StepsOver bus inp saved i insn saved') (hr : Uninterrupted i)
    (hrun : Runs816 (runOpcode (bridgeBus bus) i)) : Uninterrupted (runOpcode (bridgeBus bus) i) := by
  have hlines := exec_lines (bridgeBus bus) (opOf insn.opcode) (advance i 1)
  rw [← h.run hr] at hlines
  exact ⟨hrun.2, hlines.1.trans hr.irq, hlines.2.trans hr.nmi⟩

/-! ### The decoded instruction -/

/-- An instruction that stays inside has the edges of `_labeled_successors`. -/
theorem decodeOne_intra {bus : Bus M} {inp : DecodeInput} {saved saved' : List Byte}
    {i : Interp816 M} {insn : Insn} (h : StepsOver bus inp saved i insn saved') (key : DecodeKey) :
    decodeOne inp key insn =
      .ofEdges key insn (labeledSuccessors inp.maps inp.rom insn key inp.bank) none false := by
  have hjsl : insn.mnem ≠ .jsl := fun hm => by
    have hin := h.intra.mnem
    rw [hm] at hin
    cases hin
  have hjsr : insn.mnem ≠ .jsr := fun hm => by
    have hin := h.intra.mnem
    rw [hm] at hin
    cases hin
  have hlong : isLongTransfer insn = false := by
    by_cases hm : insn.mnem = .jmp
    · obtain ⟨r, hr, hmnem, hmode, hlen, -⟩ := h.row
      have hthree : insn.length = 3 := by
        rw [hlen, jmp_rows r hr (hmnem ▸ hm) (hmode ▸ h.intra.jmp hm)]
        rfl
      simp [isLongTransfer, hm, hthree]
    · simp [isLongTransfer, hm, hjsl]
  have hindirect : isIndirectJump insn = false := by
    by_cases hm : insn.mnem = .jmp
    · simp [isIndirectJump, h.intra.jmp hm]
    · simp [isIndirectJump, hm]
  have hpha : (if insn.mnem = .pha then inp.recovery.rtsStack insn else none) = none := by
    split
    next hm => exact h.intra.pha hm
    next => rfl
  simp only [decodeOne, hlong, hindirect, hpha, Bool.false_eq_true, if_false, hjsr, false_and]

/-! ### The tracked state -/

section Tracked

variable {bus : Bus M} {inp : DecodeInput} {insns : List DecodedInsn}

/-- The graph behind the fold, in front of the prune. -/
def folded (insns : List DecodedInsn) : List DecodedInsn :=
  (dedupe insns).map (foldBranch (dedupe insns))

/-- What the run keeps: its key has been decoded, the first variant of it is reached behind the fold,
and unless that is the entry, the zero flag is the one that its predecessor has left. -/
structure Tracked (inp : DecodeInput) (insns : List DecodedInsn) (saved : List Byte)
    (i : Interp816 M) : Prop where
  mem : keyOf inp.bank saved i ∈ insns.map (·.key)
  reach : Visit.Reach (outOf (folded insns)) (remap insns (entryKey inp))
    (canonical insns (keyOf inp.bank saved i))
  came : canonical insns (keyOf inp.bank saved i) = remap insns (entryKey inp) ∨
    ∃ pred ∈ dedupe insns, canonical insns (keyOf inp.bank saved i) ∈ pred.successors ∧
      ∀ z, immediateLoadZ pred.insn = some z → i.z = z
  native : i.e = false
  runs : Uninterrupted i

/-- What the decoder has established when the worklist is done. -/
structure Decoding (inp : DecodeInput) (insns : List DecodedInsn) : Prop where
  nodup : (insns.map (·.key)).Nodup
  fresh : ∀ di ∈ insns, ∃ insn, FreshAt inp di insn
  closed : Closed inp insns []

theorem outOf_folded (hd : Decoding inp insns) {dc : DecodedInsn} (hdc : dc ∈ dedupe insns) :
    outOf (folded insns) dc.key = some (foldBranch (dedupe insns) dc).successors := by
  have hkeys : ((folded insns).map (·.key)).Nodup := by
    rw [folded, List.map_map]
    refine Eq.subst (motive := List.Nodup) (List.map_congr_left fun di _ => ?_)
      (List.Nodup.of_map pcmx (by rw [List.map_map]; exact dedupe_nodup hd.nodup))
    exact (foldBranch_key (dedupe insns) di).symm
  have hmem : foldBranch (dedupe insns) dc ∈ folded insns := List.mem_map_of_mem hdc
  rw [outOf]
  cases hfind : (folded insns).find? fun di => decide (di.key = dc.key) with
  | none => exact absurd (decide_eq_true (foldBranch_key _ dc)) (List.find?_eq_none.mp hfind _ hmem)
  | some di =>
    have hdi : di.key = dc.key := by simpa using List.find?_some hfind
    rw [List.inj_on_of_nodup_map hkeys (List.mem_of_find?_eq_some hfind) hmem
      (hdi.trans (foldBranch_key _ dc).symm)]
    rfl

/-- The first variant of a key is the instruction that the key is decoded to. -/
theorem insn_of_first (hd : Decoding inp insns) {key : DecodeKey} {insn : Insn}
    (hread : decodeAt inp.rom inp.bank (key.pc &&& 0xFFFF) key.m key.x = some insn)
    {dc : DecodedInsn} (hdc : dc ∈ dedupe insns) (hkey : dc.key = canonical insns key) :
    dc.insn = insn := by
  have hread' := dedupe_read hd.fresh hdc
  have hpcmx : pcmx dc.key = pcmx key := by rw [hkey, pcmx_canonical]
  obtain ⟨hpc, hm, hx⟩ : dc.key.pc = key.pc ∧ dc.key.m = key.m ∧ dc.key.x = key.x := by
    simpa only [pcmx, Prod.mk.injEq] using hpcmx
  rw [hpc, hm, hx, hread] at hread'
  exact (Option.some.inj hread').symm

/-- The two edges of a merged branch, as long as there are no more. -/
theorem branch_edges (hd : Decoding inp insns) {saved saved' : List Byte} {i : Interp816 M}
    {insn : Insn} (h : StepsOver bus inp saved i insn saved') (hcond : isCondBranch insn.mnem = true)
    {dc : DecodedInsn} (hdc : dc ∈ dedupe insns) (hinsn : dc.insn = insn) {fall jump : DecodeKey}
    (hsuccs : dc.successors = [fall, jump]) :
    pcmx fall = (Recompiler.addr24 inp.bank (((insn.addr &&& 0xFFFF) + insn.length) % 0x10000),
        dc.key.m, dc.key.x) ∧
      pcmx jump = (Recompiler.addr24 inp.bank insn.operand, dc.key.m, dc.key.x) ∧
      (pcmx fall = pcmx jump → fall = jump) := by
  obtain ⟨dj, hdj, extra, rfl, -⟩ := dedupe_merge hd.nodup hdc
  obtain ⟨insn', hfresh⟩ := hd.fresh dj hdj
  have hinsn' : insn' = insn := by
    rw [← hinsn]
    exact ((congrArg DecodedInsn.insn hfresh.fresh).trans (decodeOne_self inp dj.key insn').2).symm
  have hsucc := congrArg DecodedInsn.successors hfresh.fresh
  rw [hinsn', decodeOne_intra h, Decoded.ofEdges, labeledSuccessors_cond hcond] at hsucc
  simp only [hsucc, List.map_cons, List.map_nil, List.cons_append, List.nil_append, List.cons.injEq]
    at hsuccs
  obtain ⟨rfl, rfl, -⟩ := hsuccs
  rw [pcmx_remap, pcmx_remap]
  refine ⟨rfl, rfl, fun hsame => ?_⟩
  simp only [pcmx, Prod.mk.injEq, and_true] at hsame
  rw [hsame]

/-- The run takes the edge that the fold keeps. -/
theorem mem_foldBranch (hd : Decoding inp insns) {saved saved' : List Byte} {i : Interp816 M}
    {insn : Insn} (ht : Tracked inp insns saved i) (h : StepsOver bus inp saved i insn saved')
    {k : DecodeKey} (hedge : (k, kindOf i insn.mnem) ∈
      labeledSuccessors inp.maps inp.rom insn (keyOf inp.bank saved i) inp.bank)
    {dc : DecodedInsn} (hdc : dc ∈ dedupe insns) (hkept : dc.key = remap insns (entryKey inp) →
      (foldBranch (dedupe insns) dc).insn.constZFoldUnconditional = false)
    (hkey : dc.key = canonical insns (keyOf inp.bank saved i)) (hinsn : dc.insn = insn)
    (hk : canonical insns k ∈ dc.successors) :
    canonical insns k ∈ (foldBranch (dedupe insns) dc).successors := by
  rcases foldBranch_cases (dedupe insns) dc with hsame | ⟨pred, z, fall, jump, hmnem, hpred, hz, hsuccs, hfold, hflag⟩
  · rwa [hsame]
  · rw [hinsn] at hmnem
    have hcond : isCondBranch insn.mnem = true := by rcases hmnem with hm | hm <;> rw [hm] <;> rfl
    -- the zero flag is the one of the only predecessor
    have hzero : i.z = z := by
      rcases ht.came with hcame | ⟨dp, hdp, hsucc, hload⟩
      · have hkept := hkept (hkey.trans hcame)
        rw [hflag] at hkept
        cases hkept
      · have hmem : dp ∈ (dedupe insns).filter fun p => decide (dc.key ∈ p.successors) :=
          List.mem_filter.mpr ⟨hdp, decide_eq_true (hkey ▸ hsucc)⟩
        rw [hpred, List.mem_singleton] at hmem
        exact hload z (hmem ▸ hz)
    have htaken : jumps i insn.mnem = if insn.mnem = .beq then z else !z := by
      rcases hmnem with hm | hm <;> rw [hm, jumps, hzero] <;> rfl
    obtain ⟨hfall, hjump, hboth⟩ := branch_edges hd h hcond hdc hinsn hsuccs
    have hpcmx : pcmx dc.key = pcmx (keyOf inp.bank saved i) := by rw [hkey, pcmx_canonical]
    obtain ⟨-, hm, hx⟩ : dc.key.pc = _ ∧ dc.key.m = i.mf ∧ dc.key.x = i.xf := by
      simpa only [pcmx, keyOf, Prod.mk.injEq] using hpcmx
    rw [hm, hx] at hfall hjump
    have hcanon : pcmx (canonical insns k) = pcmx k := pcmx_canonical insns k
    rw [hfold, hinsn, ← htaken, List.mem_singleton]
    rw [hsuccs, List.mem_pair] at hk
    rw [labeledSuccessors_cond hcond, List.mem_pair, Prod.mk.injEq, Prod.mk.injEq, kindOf] at hedge
    cases hj : jumps i insn.mnem with
    | true =>
      rw [hj, if_pos rfl] at hedge
      obtain ⟨rfl, -⟩ := hedge.resolve_left fun he => by cases he.2
      rcases hk with hk | hk
      · rw [hk] at hcanon
        rw [hk, hboth (hcanon.trans hjump.symm)]
        rfl
      · exact hk
    | false =>
      rw [hj, if_neg (by decide)] at hedge
      obtain ⟨rfl, -⟩ := hedge.resolve_right fun he => by cases he.2
      rcases hk with hk | hk
      · exact hk
      · rw [hk] at hcanon
        rw [hk, hboth (hfall.trans hcanon.symm)]
        rfl

/-- A run starts tracked. -/
theorem tracked_start (hd : Decoding inp insns) {i : Interp816 M} (h : AtEntry inp i) :
    Tracked inp insns [] i := by
  have hkey : keyOf inp.bank [] i = entryKey inp := by
    rw [keyOf, h.pc, h.m, h.x]
    rfl
  have hmem : entryKey inp ∈ insns.map (·.key) := by
    rcases hd.closed.entry with (hmem | hgate) | hnil
    · exact hmem
    · rw [h.passes] at hgate
      cases hgate
    · cases hnil
  have hcanon : canonical insns (entryKey inp) = remap insns (entryKey inp) := by
    rw [remap, if_pos hmem]
  refine ⟨hkey ▸ hmem, ?_, .inl (hkey ▸ hcanon), h.native, h.runs⟩
  obtain ⟨dc, hdc, hdckey, -⟩ := mem_dedupe hmem
  rw [hkey, ← hcanon, ← hdckey]
  refine .root ?_
  rw [outOf_folded hd hdc]
  rfl

/-- The instruction at the entry, if the entry reaches it, is not folded. -/
def FirstKept (inp : DecodeInput) (insns : List DecodedInsn) : Prop :=
  ∀ dc ∈ dedupe insns, dc.key = remap insns (entryKey inp) →
    Visit.Reach (outOf (folded insns)) (remap insns (entryKey inp)) dc.key →
    (foldBranch (dedupe insns) dc).insn.constZFoldUnconditional = false

/-- The instruction at a key and its edge to another one, between first variants. -/
def EdgeTo (insns : List DecodedInsn) (key key' : DecodeKey) (insn : Insn) : Prop :=
  ∃ dc ∈ dedupe insns, dc.key = canonical insns key ∧ dc.insn = insn ∧
    (canonical insns key' ∈ (foldBranch (dedupe insns) dc).successors ∨
      (insn.mnem = .mvn ∨ insn.mnem = .mvp) ∧ key' = key)

/-- An edge that no gate stops and that the fold keeps is followed by the worklist, the merge and the
prune. -/
theorem tracked_edge (hd : Decoding inp insns) {saved saved' : List Byte} {i i' : Interp816 M}
    {insn : Insn} {edges : List (DecodeKey × EdgeKind)} {kind : EdgeKind} (ht : Tracked inp insns saved i)
    (hread : decodeAt inp.rom inp.bank i.pc.toNat i.mf i.xf = some insn)
    (hdec : decodeOne inp (keyOf inp.bank saved i) insn =
      .ofEdges (keyOf inp.bank saved i) insn edges none false)
    (hedge : (keyOf inp.bank saved' i', kind) ∈ edges) (hpasses : Passes inp kind i.pc.toNat i'.pc.toNat)
    (hfold : ∀ dc ∈ dedupe insns, dc.key = canonical insns (keyOf inp.bank saved i) → dc.insn = insn →
      canonical insns (keyOf inp.bank saved' i') ∈ dc.successors →
      canonical insns (keyOf inp.bank saved' i') ∈ (foldBranch (dedupe insns) dc).successors)
    (hload : ∀ z, immediateLoadZ insn = some z → i'.z = z) (he : i'.e = false)
    (hr : Uninterrupted i') :
    Tracked inp insns saved' i' ∧
      EdgeTo insns (keyOf inp.bank saved i) (keyOf inp.bank saved' i') insn := by
  have hpc : (keyOf inp.bank saved i).pc &&& 0xFFFF = i.pc.toNat := addr24_and inp.bank i.pc.isLt
  obtain ⟨di, hdi, hdikey⟩ := List.mem_map.mp ht.mem
  obtain ⟨insn', hfresh⟩ := hd.fresh di hdi
  have hinsn' : insn' = insn := by
    have hread' := hfresh.read
    rw [hdikey, hpc] at hread'
    exact Option.some.inj (hread'.symm.trans hread)
  rw [← hdikey] at hdec
  have hdi' : di = (decodeOne inp di.key insn).insn := hinsn' ▸ hfresh.fresh
  -- no gate stops the edge, so the worklist has followed it
  have hmem : keyOf inp.bank saved' i' ∈ insns.map (·.key) := by
    have hdiinsn : di.insn = insn := by
      rw [hdi']
      exact (decodeOne_self inp di.key insn).2
    have hcovered := hd.closed.edges di hdi (keyOf inp.bank saved' i', kind)
      (by rw [hdiinsn, hdec]; exact hedge)
    rw [hdikey, edgeItem, hpc] at hcovered
    rcases hcovered with (hmem | hgate) | hnil
    · exact hmem
    · have hpass := hpasses i'.mf i'.xf (saved'.map widths)
      exact absurd (hpass.symm.trans hgate) (by decide)
    · cases hnil
  have hsucc : keyOf inp.bank saved' i' ∈ di.successors := by
    rw [hdi', hdec]
    exact List.mem_map_of_mem hedge
  obtain ⟨dc, hdc, hdckey, hdcsucc⟩ := dedupe_edge hdi hsucc hmem
  rw [hdikey] at hdckey
  have hdcinsn := insn_of_first hd (hpc.symm ▸ hread) hdc hdckey
  have hreach : Visit.Reach (outOf (folded insns)) (remap insns (entryKey inp)) dc.key :=
    hdckey ▸ ht.reach
  have hfold := hfold dc hdc hdckey hdcinsn hdcsucc
  refine ⟨⟨hmem, .step hreach (outOf_folded hd hdc) hfold ?_, .inr ⟨dc, hdc, hdcsucc, fun z hz => ?_⟩,
    he, hr⟩, dc, hdc, hdckey, hdcinsn, .inl hfold⟩
  · obtain ⟨dn, hdn, hdnkey, -⟩ := mem_dedupe hmem
    rw [← hdnkey, outOf_folded hd hdn]
    rfl
  · rw [hdcinsn] at hz
    exact hload z hz

/-- **A step keeps the run tracked, and goes along an edge of the folded graph unless it stays.** -/
theorem tracked_step (hd : Decoding inp insns) (hfirst : FirstKept inp insns)
    {saved saved' : List Byte} {i : Interp816 M} {insn : Insn} (ht : Tracked inp insns saved i)
    (h : StepsOver bus inp saved i insn saved')
    (hpasses : Passes inp (kindOf i insn.mnem) i.pc.toNat (runOpcode (bridgeBus bus) i).pc.toNat) :
    Tracked inp insns saved' (runOpcode (bridgeBus bus) i) ∧
      EdgeTo insns (keyOf inp.bank saved i) (keyOf inp.bank saved' (runOpcode (bridgeBus bus) i)) insn := by
  obtain ⟨hedge, hrun⟩ := edge_of_step h ht.runs ht.native
  have hruns := uninterrupted_of_step h ht.runs hrun
  rcases hedge with hedge | ⟨hmove, hsame, hz⟩
  · refine tracked_edge hd ht h.read (decodeOne_intra h _) hedge hpasses
      (fun dc hdc hkey hinsn hsucc => mem_foldBranch hd ht h hedge hdc (fun hentry => ?_) hkey hinsn hsucc)
      (fun z hz => z_of_load h ht.runs hz) hrun.1 hruns
    exact hfirst dc hdc hentry (hkey ▸ ht.reach)
  · have hpc : (keyOf inp.bank saved i).pc &&& 0xFFFF = i.pc.toNat := addr24_and inp.bank i.pc.isLt
    obtain ⟨dc, hdc, hdckey, -⟩ := mem_dedupe ht.mem
    refine ⟨⟨hsame ▸ ht.mem, hsame ▸ ht.reach, ?_, hrun.1, hruns⟩,
      dc, hdc, hdckey, insn_of_first hd (hpc.symm ▸ h.read) hdc hdckey, .inr ⟨hmove, hsame⟩⟩
    rw [hsame, hz]
    exact ht.came

theorem tracked_of_run (hd : Decoding inp insns) (hfirst : FirstKept inp insns)
    {i₀ i : Interp816 M} {saved : List Byte} (hentry : AtEntry inp i₀)
    (hrun : IntraRun bus inp i₀ saved i) : Tracked inp insns saved i := by
  induction hrun with
  | start => exact tracked_start hd hentry
  | step _ hstep hpasses ih => exact (tracked_step hd hfirst ih hstep hpasses).1

end Tracked

/-! ### The graph -/

section Graph

variable {bus : Bus M} {inp : DecodeInput} {g : FunctionGraph}

/-- A reached first variant is an instruction of the graph. -/
theorem decoding_of_decodeFunction (h : decodeFunction inp = some g) (hkept : EntryKept g) :
    ∃ insns, Decoding inp insns ∧ FirstKept inp insns ∧
      ∀ dc ∈ dedupe insns, Visit.Reach (outOf (folded insns)) (remap insns (entryKey inp)) dc.key →
        foldBranch (dedupe insns) dc ∈ g.insns := by
  rw [decodeFunction] at h
  split at h
  next insns hloop =>
    have hd : Decoding inp insns := ⟨decodeLoop_nodup inp _ _ [] _ List.nodup_nil hloop,
      decodeLoop_freshAt inp _ _ [] insns (fun _ hdj => by cases hdj) hloop,
      decodeLoop_closed _ _ _ _ (closed_start inp) hloop⟩
    obtain rfl := Option.some.inj h
    have hgraph : ∀ dc ∈ dedupe insns,
        Visit.Reach (outOf (folded insns)) (remap insns (entryKey inp)) dc.key →
        foldBranch (dedupe insns) dc ∈
          prune (remap insns (entryKey inp)) (folded insns) := by
      intro dc hdc hreach
      refine List.mem_filter.mpr ⟨List.mem_map_of_mem hdc, decide_eq_true ?_⟩
      rw [foldBranch_key]
      exact (Visit.mem_visit_iff (fun _ => outOf_isSome_iff_mem.mp) (by rw [List.length_map]) _ _).mpr
        hreach
    refine ⟨insns, hd, fun dc hdc hkey hreach => ?_, hgraph⟩
    exact hkept _ (hgraph dc hdc hreach) ((foldBranch_key _ dc).trans hkey)
  next => cases h

/-- The instruction of the graph where a tracked run is. -/
theorem graph_of_tracked {insns : List DecodedInsn} (h : decodeFunction inp = some g)
    (hgraph : ∀ dc ∈ dedupe insns,
      Visit.Reach (outOf (folded insns)) (remap insns (entryKey inp)) dc.key →
      foldBranch (dedupe insns) dc ∈ g.insns)
    {saved : List Byte} {i : Interp816 M} (ht : Tracked inp insns saved i) :
    ∃ di ∈ g.insns, pcmx di.key = (Recompiler.addr24 inp.bank i.pc.toNat, i.mf, i.xf) ∧
      ∃ insn, decodeAt inp.rom inp.bank i.pc.toNat i.mf i.xf = some insn ∧
        di.insn.unfolded = insn.unfolded := by
  obtain ⟨dc, hdc, hdckey, -⟩ := mem_dedupe ht.mem
  have hmem := hgraph dc hdc (hdckey ▸ ht.reach)
  have hpcmx : pcmx (foldBranch (dedupe insns) dc).key =
      (Recompiler.addr24 inp.bank i.pc.toNat, i.mf, i.xf) := by
    rw [foldBranch_key, hdckey, pcmx_canonical]
    rfl
  refine ⟨_, hmem, hpcmx, ?_⟩
  obtain ⟨insn, hat⟩ := decodedAt_of_decodeFunction h _ hmem
  obtain ⟨hpc, hm, hx⟩ := by simpa only [pcmx, Prod.mk.injEq] using hpcmx
  have hread := hat.read
  rw [hpc, hm, hx, addr24_and inp.bank i.pc.isLt] at hread
  exact ⟨insn, hread, hat.same⟩

/-- **Wherever a run comes to, the graph has the instruction there in the widths of the processor,
decoded from the bytes that the processor executes.** -/
theorem decodeFunction_tracks (h : decodeFunction inp = some g) (hkept : EntryKept g)
    {i₀ i : Interp816 M} {saved : List Byte} (hentry : AtEntry inp i₀)
    (hrun : IntraRun bus inp i₀ saved i) :
    ∃ di ∈ g.insns, pcmx di.key = (Recompiler.addr24 inp.bank i.pc.toNat, i.mf, i.xf) ∧
      ∃ insn, decodeAt inp.rom inp.bank i.pc.toNat i.mf i.xf = some insn ∧
        di.insn.unfolded = insn.unfolded := by
  obtain ⟨insns, hd, hfirst, hgraph⟩ := decoding_of_decodeFunction h hkept
  exact graph_of_tracked h hgraph (tracked_of_run hd hfirst hentry hrun)

/-- **A run goes along the edges of the graph, or a block move repeats itself.**  The edge that the
fold drops from a branch is none of them. -/
theorem decodeFunction_follows (h : decodeFunction inp = some g) (hkept : EntryKept g)
    {i₀ i : Interp816 M} {saved saved' : List Byte} {insn : Insn} (hentry : AtEntry inp i₀)
    (hrun : IntraRun bus inp i₀ saved i) (hstep : StepsOver bus inp saved i insn saved')
    (hpasses : Passes inp (kindOf i insn.mnem) i.pc.toNat (runOpcode (bridgeBus bus) i).pc.toNat) :
    ∃ di ∈ g.insns, pcmx di.key = (Recompiler.addr24 inp.bank i.pc.toNat, i.mf, i.xf) ∧
      ((∃ s ∈ di.successors, pcmx s = (Recompiler.addr24 inp.bank
          (runOpcode (bridgeBus bus) i).pc.toNat, (runOpcode (bridgeBus bus) i).mf,
          (runOpcode (bridgeBus bus) i).xf)) ∨
        (insn.mnem = .mvn ∨ insn.mnem = .mvp) ∧ (runOpcode (bridgeBus bus) i).pc = i.pc) := by
  obtain ⟨insns, hd, hfirst, hgraph⟩ := decoding_of_decodeFunction h hkept
  have ht := tracked_of_run hd hfirst hentry hrun
  obtain ⟨-, dc, hdc, hdckey, -, hedge⟩ := tracked_step hd hfirst ht hstep hpasses
  refine ⟨_, hgraph dc hdc (hdckey ▸ ht.reach), ?_, hedge.imp (fun hs => ⟨_, hs, pcmx_canonical _ _⟩)
    fun hstays => ⟨hstays.1, BitVec.eq_of_toNat_eq ?_⟩⟩
  · rw [foldBranch_key, hdckey, pcmx_canonical]
    rfl
  · have hpc := congrArg (fun k => k.pc &&& 0xFFFF) hstays.2
    have hnow := addr24_and inp.bank i.pc.isLt
    have hnext := addr24_and inp.bank (runOpcode (bridgeBus bus) i).pc.isLt
    exact hnext.symm.trans (hpc.trans hnow)

end Graph

/-! ### A small function -/

/-- `PHP; REP #$20; PLP; LDA #$12; RTS`. -/
def saveCode : List Byte := [0x08, 0xC2, 0x20, 0x28, 0xA9, 0x12, 0x60]

def saveBus : Bus (Fin 8 → Byte) := ramBus 0x1FF0 (.ofBytes saveCode)

def saveStart : Interp816 (Fin 8 → Byte) := { atStart (fun _ => 0) true true with sp := 0x1FF7 }

/-- An instruction of the function, where the conditions can be evaluated. -/
theorem stepsOver_saveCode {saved saved' : List Byte} {i : Interp816 (Fin 8 → Byte)} (insn : Insn)
    (hread : decodeAt (.ofBytes saveCode) 0 i.pc.toNat i.mf i.xf = some insn)
    (hbytes : ∀ n < insn.length, saveBus.read8 i.k (i.pc + BitVec.ofNat 16 n) i.mem =
      ((Rom.ofBytes saveCode).byte (loromOffset 0 i.pc.toNat + n), i.mem))
    (hmnem : staysInside insn.mnem = true) (hjmp : insn.mnem ≠ .jmp) (hpha : insn.mnem ≠ .pha)
    (hsaves : Saves saveBus insn.mnem i saved saved') :
    StepsOver saveBus (.plain saveCode) saved i insn saved' :=
  ⟨⟨hread, ⟨by rw [BitVec.ofNat_toNat, BitVec.setWidth_eq], hbytes⟩⟩,
    ⟨hmnem, fun h => absurd h hjmp, fun h => absurd h hpha⟩, hsaves⟩

theorem intraRun_saveCode_plp : IntraRun saveBus (.plain saveCode) saveStart
    [getFlags saveStart] ((runOpcode (bridgeBus saveBus))^[2] saveStart) := by
  have hstart : IntraRun saveBus (.plain saveCode) saveStart [] saveStart := .start
  have hphp := hstart.step
    (stepsOver_saveCode ⟨0x8000, 0x08, .php, .imp, 0, 1, true, true, false, none⟩ (by decide)
      (by decide) (by decide) (by decide) (by decide) (.php rfl (by decide)))
    (passes_of_open rfl rfl (by decide) (by decide))
  exact hphp.step
    (stepsOver_saveCode ⟨0x8001, 0xC2, .rep, .imm, 0x20, 2, true, true, false, none⟩ (by decide)
      (by decide) (by decide) (by decide) (by decide) (.other (by decide) (by decide)))
    (passes_of_open rfl rfl (by decide) (by decide))

theorem stepsOver_saveCode_plp : StepsOver saveBus (.plain saveCode) [getFlags saveStart]
    ((runOpcode (bridgeBus saveBus))^[2] saveStart)
    ⟨0x8003, 0x28, .plp, .imp, 0, 1, false, true, false, none⟩ [] :=
  stepsOver_saveCode _ (by decide) (by decide) (by decide) (by decide) (by decide)
    (.plp rfl)

theorem intraRun_saveCode : IntraRun saveBus (.plain saveCode) saveStart []
    ((runOpcode (bridgeBus saveBus))^[3] saveStart) :=
  intraRun_saveCode_plp.step stepsOver_saveCode_plp
    (passes_of_open rfl rfl (by decide) (by decide))

theorem atEntry_saveCode : AtEntry (.plain saveCode) saveStart :=
  ⟨rfl, rfl, rfl, rfl, ⟨rfl, rfl, rfl⟩, by decide⟩

theorem entryKept_saveCode : ∀ g ∈ decodeFunction (.plain saveCode), EntryKept g := by
  decide

/-- From the `PLP`, decoded with a wide accumulator, the graph has an edge to the narrow load. -/
theorem decodeFunction_follows_saveCode : ∃ g, decodeFunction (.plain saveCode) = some g ∧
    ∃ di ∈ g.insns, pcmx di.key = (0x8003, false, true) ∧
      ∃ s ∈ di.successors, pcmx s = (0x8004, true, true) := by
  obtain ⟨g, hg⟩ := Option.isSome_iff_exists.mp
    (show (decodeFunction (.plain saveCode)).isSome by decide)
  obtain ⟨di, hdi, hkey, hsucc⟩ := decodeFunction_follows hg (entryKept_saveCode g hg)
    atEntry_saveCode intraRun_saveCode_plp stepsOver_saveCode_plp
    (passes_of_open rfl rfl (by decide) (by decide))
  have hplace : (Recompiler.addr24 (DecodeInput.plain saveCode).bank
      ((runOpcode (bridgeBus saveBus))^[2] saveStart).pc.toNat,
      ((runOpcode (bridgeBus saveBus))^[2] saveStart).mf,
      ((runOpcode (bridgeBus saveBus))^[2] saveStart).xf) = (0x8003, false, true) := by decide
  have hnext : (Recompiler.addr24 (DecodeInput.plain saveCode).bank
      ((runOpcode (bridgeBus saveBus))^[3] saveStart).pc.toNat,
      ((runOpcode (bridgeBus saveBus))^[3] saveStart).mf,
      ((runOpcode (bridgeBus saveBus))^[3] saveStart).xf) = (0x8004, true, true) := by decide
  rcases hsucc with ⟨s, hs, hskey⟩ | ⟨hmove, -⟩
  · exact ⟨g, hg, di, hdi, hkey.trans hplace, s, hs, hskey.trans hnext⟩
  · exact absurd hmove (by decide)

/-- Behind the `PLP` the load is decoded in the narrow width that the `PHP` has saved. -/
theorem decodeFunction_tracks_saveCode : ∃ g, decodeFunction (.plain saveCode) = some g ∧
    ∃ di ∈ g.insns, pcmx di.key = (0x8004, true, true) := by
  obtain ⟨g, hg⟩ := Option.isSome_iff_exists.mp
    (show (decodeFunction (.plain saveCode)).isSome by decide)
  obtain ⟨di, hdi, hkey, -⟩ := decodeFunction_tracks hg (entryKept_saveCode g hg) atEntry_saveCode
    intraRun_saveCode
  have hplace : (Recompiler.addr24 (DecodeInput.plain saveCode).bank
      ((runOpcode (bridgeBus saveBus))^[3] saveStart).pc.toNat,
      ((runOpcode (bridgeBus saveBus))^[3] saveStart).mf,
      ((runOpcode (bridgeBus saveBus))^[3] saveStart).xf) = (0x8004, true, true) := by decide
  exact ⟨g, hg, di, hdi, hkey.trans hplace⟩

end SnesRecomp.Tiers
