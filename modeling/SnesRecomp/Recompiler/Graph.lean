import SnesRecomp.Lib.Visit
import SnesRecomp.Recompiler.Decode
import Mathlib.Data.List.Nodup

/-!
# The decode graph of a function

`_decode_function_uncached` of `decoder.py`: the worklist over `DecodeKey`, then
`_dedupe_by_pcmx` and `_apply_constant_z_fold`.  A dictionary of the source is the list of
its values in insertion order.

What the decoder recovers about dispatches (helper tables, cfg lists, the walks over
tables in the ROM) is a function of the instruction and comes in through `Recovery`.  The
records for the build report are left out.

A `FunctionGraph` carries what the two passes establish: one instruction for each address
and pair of widths, and none that the entry does not reach.
-/

namespace SnesRecomp.Recompiler

inductive IdxReg
  | x | y
  deriving DecidableEq, Repr

/-- The `dispatch_*` attributes of an instruction; an entry `0` is a null entry. -/
structure Dispatch where
  entries : List Nat
  long : Bool
  idxReg : Option IdxReg
  tableBases : List Nat
  call : Bool
  terminal : Bool
  localGoto : Bool
  deriving DecidableEq, Repr

structure DecodedInsn where
  key : DecodeKey
  insn : Insn
  successors : List DecodeKey
  dispatch : Option Dispatch
  dispatchRuntime : Bool
  deriving DecidableEq, Repr

/-- The targets of a dispatch, and the form the cfg or the walk gives it. -/
structure Targets where
  entries : List Nat
  long : Bool
  idxReg : IdxReg
  tableBases : List Nat
  ptrCall : Bool
  localGoto : Bool
  deriving DecidableEq, Repr

/-- What the decoder recovers about the dispatch at an instruction. -/
structure Recovery where
  /-- The table behind a call of a dispatch helper, and whether its entries are long. -/
  helperTable : Insn → Option (List Nat × Bool)
  /-- `JMP (abs)`, `JML [abs]` and `JMP (abs,X)`. -/
  indirectJump : Insn → Option Targets
  /-- A `PHA` that feeds an `RTS`. -/
  rtsStack : Insn → Option Targets
  /-- `JSR (abs,X)`, from `indirect_dispatch` or the table walk. -/
  indirectCall : Insn → Option Targets
  /-- `JSR (abs,X)`, from `indirect_call_tables`. -/
  callTable : Insn → Option (List Nat × Bool)

/-- Nothing is recovered. -/
def Recovery.none : Recovery :=
  ⟨fun _ => .none, fun _ => .none, fun _ => .none, fun _ => .none, fun _ => .none⟩

/-- The arguments of `decode_function`. -/
structure DecodeInput where
  rom : Rom
  bank : Nat
  start : Nat
  entryM : Bool
  entryX : Bool
  endPc : Option Nat
  siblingEntryPcs : List Nat
  maps : ExitMaps
  recovery : Recovery
  maxInsns : Nat

/-- The function at the start of bank zero, in narrow widths; nothing is known about its
callees and nothing is recovered. -/
def DecodeInput.plain (bytes : List Byte) : DecodeInput where
  rom := .ofBytes bytes
  bank := 0
  start := 0x8000
  entryM := true
  entryX := true
  endPc := none
  siblingEntryPcs := []
  maps := .unknown
  recovery := .none
  maxInsns := 12000

/-- An edge on the worklist; the entry has no predecessor. -/
structure WorkItem where
  key : DecodeKey
  kind : EdgeKind
  pred : Option Nat
  deriving DecidableEq, Repr

/-! ### One instruction -/

/-- `_pea_ptrcall_return_pc`: where the frame pushed by a `PEA` before the jump returns. -/
def peaPtrcallReturnPc (rom : Rom) (bank pc fallbackNext : Nat) : Nat :=
  let prev := (pc + 0x10000 - 3) % 0x10000
  let off := loromOffset bank prev
  if prev < 0x8000 ∨ rom.size ≤ off + 2 ∨ rom.byte off ≠ 0xF4 then fallbackNext % 0x10000
  else ((rom.byte (off + 1)).toNat + ((rom.byte (off + 2)).toNat <<< 8) + 1) % 0x10000

/-- The keys of the entries that lie in the bank, in the given widths. -/
def handlerKeys (bank : Nat) (m x : Bool) (entries : List Nat) : List DecodeKey :=
  (entries.filter fun e => e ≠ 0 ∧ (e >>> 16) &&& 0xFF = bank ∧ 0x8000 ≤ e &&& 0xFFFF).map fun e =>
    ⟨addr24 ((e >>> 16) &&& 0xFF) (e &&& 0xFFFF), m, x, []⟩

/-- The 24-bit entries of a table; short entries are in the bank. -/
def tableEntries (bank : Nat) (long : Bool) (entries : List Nat) : List Nat :=
  if long then entries else entries.map fun e => addr24 bank e

/-- An instruction of the graph, and the edges the worklist is given for it. -/
structure Decoded where
  insn : DecodedInsn
  edges : List (DecodeKey × EdgeKind)
  deriving DecidableEq, Repr

/-- The successors of the instruction are the targets of its edges. -/
def Decoded.ofEdges (key : DecodeKey) (insn : Insn) (edges : List (DecodeKey × EdgeKind))
    (dispatch : Option Dispatch) (runtime : Bool) : Decoded :=
  ⟨⟨key, insn, edges.map (·.1), dispatch, runtime⟩, edges⟩

/-- The attributes of a table that names no index register. -/
def Dispatch.ofTable (t : List Nat × Bool) : Dispatch := ⟨t.1, t.2, none, [], false, false, false⟩

/-- The attributes of a jump or call: a switch on the loaded pointer has one table base. -/
def Targets.dispatch (t : Targets) (insn : Insn) (localGoto : Bool) : Dispatch :=
  ⟨t.entries, t.long, some t.idxReg,
    if t.ptrCall || localGoto then [insn.operand &&& 0xFFFF] else t.tableBases,
    t.ptrCall, false, localGoto⟩

/-- The attributes of the `PHA` of an RTS-stack dispatch. -/
def Targets.rtsStack (t : Targets) : Dispatch :=
  ⟨t.entries, t.long, some t.idxReg, t.tableBases, false, true, false⟩

/-- A `JSL` or `JML`. -/
def isLongTransfer (insn : Insn) : Bool :=
  insn.mnem = .jsl || (insn.mnem = .jmp && insn.length = 4)

def isIndirectJump (insn : Insn) : Bool :=
  insn.mnem = .jmp && (insn.mode = .indir || insn.mode = .indirX)

/-- An indirect jump.  The pointer-call form goes on where the `PEA`'s frame returns. -/
def decodeIndirectJump (inp : DecodeInput) (key : DecodeKey) (insn : Insn) : Decoded :=
  match inp.recovery.indirectJump insn with
  | none => .ofEdges key insn [] none false
  | some t =>
    let d := t.dispatch insn t.localGoto
    let handlers := (handlerKeys inp.bank insn.mFlag insn.xFlag t.entries).map (·, EdgeKind.jump)
    if t.ptrCall then
      let pc := key.pc &&& 0xFFFF
      let next : DecodeKey :=
        ⟨addr24 inp.bank (peaPtrcallReturnPc inp.rom inp.bank pc ((pc + insn.length) % 0x10000)),
          insn.mFlag, insn.xFlag, []⟩
      ⟨⟨key, insn, [next], some d, false⟩, handlers ++ [(next, .fall)]⟩
    else .ofEdges key insn handlers (some d) false

/-- `JSR (abs,X)`; one that nothing authorises gets no successors. -/
def decodeIndirectCall (inp : DecodeInput) (key : DecodeKey) (insn : Insn) : Decoded :=
  let back := labeledSuccessors inp.maps inp.rom insn key inp.bank
  match inp.recovery.indirectCall insn with
  | some t =>
    .ofEdges key insn
      (back ++ (handlerKeys inp.bank insn.mFlag insn.xFlag t.entries).map (·, EdgeKind.jump))
      (some (t.dispatch insn false)) false
  | none =>
    match inp.recovery.callTable insn with
    | some t =>
      .ofEdges key insn
        (back ++ (handlerKeys inp.bank insn.mFlag insn.xFlag
          (tableEntries inp.bank t.2 t.1)).map (·, EdgeKind.jump))
        (some (.ofTable t)) false
    | none =>
      if insn.operand &&& 0xFFFF < 0x2000 then .ofEdges key insn back none true
      else .ofEdges key insn [] none false

/-- The body of the loop behind the gates, for the instruction at the key. -/
def decodeOne (inp : DecodeInput) (key : DecodeKey) (insn : Insn) : Decoded :=
  match if isLongTransfer insn then inp.recovery.helperTable insn else none with
  | some t => .ofEdges key insn [] (some (.ofTable t)) false
  | none =>
    if isIndirectJump insn then decodeIndirectJump inp key insn
    else
      match if insn.mnem = .pha then inp.recovery.rtsStack insn else none with
      | some t =>
        .ofEdges key insn ((handlerKeys inp.bank true true t.entries).map (·, EdgeKind.jump))
          (some t.rtsStack) false
      | none =>
        if insn.mnem = .jsr ∧ insn.mode = .indirX then decodeIndirectCall inp key insn
        else
          .ofEdges key insn (labeledSuccessors inp.maps inp.rom insn key inp.bank) none false

/-! ### The worklist -/

/-- The gates of the loop: the item is dropped. -/
def skipped (inp : DecodeInput) (insns : List DecodedInsn) (item : WorkItem) : Bool :=
  let pc := item.key.pc &&& 0xFFFF
  decide (item.key ∈ insns.map (·.key)) ||
    (match inp.endPc, item.pred with
      | some e, some pred => decide (e ≤ pc ∧ item.kind = .fall ∧ pred < e)
      | _, _ => false) ||
    decide (item.kind = .jump ∧ pc ∈ inp.siblingEntryPcs) ||
    decide (pc < 0x8000) || decide (inp.rom.size ≤ loromOffset inp.bank pc)

/-- The loop, with `room` instructions left up to `max_insns`; `none` where the source
raises.  The last edge that was pushed is the first to be looked at. -/
def decodeLoop (inp : DecodeInput) : Nat → List WorkItem → List DecodedInsn →
    Option (List DecodedInsn)
  | 0, [], insns => some insns
  | 0, _ :: _, _ => none
  | room + 1, worklist, insns =>
    match worklist.dropWhile (skipped inp insns) with
    | [] => some insns
    | item :: rest =>
      match decodeAt inp.rom inp.bank (item.key.pc &&& 0xFFFF) item.key.m item.key.x with
      | none => none
      | some insn =>
        let d := decodeOne inp item.key insn
        let insns := insns ++ [d.insn]
        let pushed := (d.edges.filter fun e => e.1 ∉ insns.map (·.key)).map fun e =>
          ⟨e.1, e.2, some (item.key.pc &&& 0xFFFF)⟩
        decodeLoop inp room (pushed.reverse ++ rest) insns

def entryKey (inp : DecodeInput) : DecodeKey :=
  ⟨addr24 inp.bank inp.start, inp.entryM, inp.entryX, []⟩

/-! ### `_dedupe_by_pcmx` -/

/-- What a label names: the address and the widths, without the saved ones. -/
abbrev Pcmx := Nat × Bool × Bool

def pcmx (key : DecodeKey) : Pcmx := (key.pc, key.m, key.x)

/-- The first key at an address in given widths. -/
def canonical (insns : List DecodedInsn) (key : DecodeKey) : DecodeKey :=
  match insns.find? fun di => pcmx di.key = pcmx key with
  | some di => di.key
  | none => key

def remap (insns : List DecodedInsn) (key : DecodeKey) : DecodeKey :=
  if key ∈ insns.map (·.key) then canonical insns key else key

/-- The keys of `new` that are not there yet, behind the others. -/
def appendNew (succs new : List DecodeKey) : List DecodeKey :=
  new.foldl (fun acc s => if s ∈ acc then acc else acc ++ [s]) succs

/-- The successors of the first variant as they are, then the new ones of the others. -/
def mergeSuccessors (insns : List DecodedInsn) (p : Pcmx) : List DecodeKey :=
  match (insns.filter fun di => pcmx di.key = p).map fun di => di.successors.map (remap insns) with
  | [] => []
  | first :: others => others.foldl appendNew first

def dedupe (insns : List DecodedInsn) : List DecodedInsn :=
  (insns.filter fun di => canonical insns di.key = di.key).map fun di =>
    { di with successors := mergeSuccessors insns (pcmx di.key) }

/-! ### `_apply_constant_z_fold` -/

/-- The `Z` flag an immediate load leaves. -/
def immediateLoadZ (insn : Insn) : Option Bool :=
  if insn.mode = .imm then
    match insn.mnem with
    | .lda => some (insn.operand &&& (if insn.mFlag then 0xFF else 0xFFFF) = 0)
    | .ldx | .ldy => some (insn.operand &&& (if insn.xFlag then 0xFF else 0xFFFF) = 0)
    | _ => none
  else none

/-- The fold of one `BEQ` or `BNE` whose only predecessor is an immediate load. -/
def foldBranch (insns : List DecodedInsn) (di : DecodedInsn) : DecodedInsn :=
  if di.insn.mnem = .beq ∨ di.insn.mnem = .bne then
    match insns.filter fun pred => di.key ∈ pred.successors with
    | [pred] =>
      match immediateLoadZ pred.insn, di.successors with
      | some z, [fall, jump] =>
        if pred.successors = [di.key] then
          let taken := if di.insn.mnem = .beq then z else !z
          let live := if taken then jump else fall
          let dead := if taken then fall else jump
          { di with
            successors := [live]
            insn := { di.insn with
              constZFoldUnconditional := true
              constZFoldDeadPc24 := some (dead.pc &&& 0xFFFFFF) } }
        else di
      | _, _ => di
    | _ => di
  else di

/-- The successors of the instruction at a key. -/
def outOf (insns : List DecodedInsn) (key : DecodeKey) : Option (List DecodeKey) :=
  (insns.find? fun di => di.key = key).map (·.successors)

/-- The instructions that the entry still reaches. -/
def prune (entry : DecodeKey) (insns : List DecodedInsn) : List DecodedInsn :=
  let reachable := Visit.visit (outOf insns) insns.length [entry] []
  insns.filter fun di => di.key ∈ reachable

def applyConstantZFold (entry : DecodeKey) (insns : List DecodedInsn) : List DecodedInsn :=
  prune entry (insns.map (foldBranch insns))

/-! ### What the passes establish -/

theorem decodeOne_self (inp : DecodeInput) (key : DecodeKey) (insn : Insn) :
    (decodeOne inp key insn).insn.key = key ∧ (decodeOne inp key insn).insn.insn = insn := by
  unfold decodeOne
  split
  · exact ⟨rfl, rfl⟩
  · split
    · unfold decodeIndirectJump
      split
      · exact ⟨rfl, rfl⟩
      · dsimp only
        split <;> exact ⟨rfl, rfl⟩
    · split
      · exact ⟨rfl, rfl⟩
      · split
        · unfold decodeIndirectCall
          dsimp only
          split
          · exact ⟨rfl, rfl⟩
          · split
            · exact ⟨rfl, rfl⟩
            · split <;> exact ⟨rfl, rfl⟩
        · exact ⟨rfl, rfl⟩

theorem decodeOne_key (inp : DecodeInput) (key : DecodeKey) (insn : Insn) :
    (decodeOne inp key insn).insn.key = key := (decodeOne_self inp key insn).1

/-- A key is decoded once. -/
theorem decodeLoop_nodup (inp : DecodeInput) : ∀ (room : Nat) (worklist : List WorkItem)
    (insns out : List DecodedInsn), (insns.map (·.key)).Nodup →
    decodeLoop inp room worklist insns = some out → (out.map (·.key)).Nodup := by
  intro room
  induction room with
  | zero =>
    intro worklist insns out hnodup h
    cases worklist with
    | nil => exact Option.some.inj h ▸ hnodup
    | cons item rest => cases h
  | succ room ih =>
    intro worklist insns out hnodup h
    rw [decodeLoop] at h
    cases hdrop : worklist.dropWhile (skipped inp insns) with
    | nil =>
      rw [hdrop] at h
      exact Option.some.inj h ▸ hnodup
    | cons item rest =>
      rw [hdrop] at h
      have hnew : skipped inp insns item = false := by
        have hhead := List.head_dropWhile_not (skipped inp insns)
          (show worklist.dropWhile (skipped inp insns) ≠ [] by rw [hdrop]; simp)
        simpa only [hdrop, List.head_cons] using hhead
      cases hinsn : decodeAt inp.rom inp.bank (item.key.pc &&& 0xFFFF) item.key.m item.key.x with
      | none =>
        simp only [hinsn] at h
        cases h
      | some insn =>
        simp only [hinsn] at h
        refine ih _ _ _ ?_ h
        rw [List.map_append, List.map_singleton, decodeOne_key]
        refine List.Nodup.append hnodup (List.nodup_singleton _) ?_
        rw [List.disjoint_singleton]
        intro hmem
        unfold skipped at hnew
        rw [decide_eq_true hmem] at hnew
        cases hnew

theorem pcmx_canonical (insns : List DecodedInsn) (k : DecodeKey) :
    pcmx (canonical insns k) = pcmx k := by
  unfold canonical
  split
  next di hfind => simpa using List.find?_some hfind
  next => rfl

theorem pcmx_remap (insns : List DecodedInsn) (k : DecodeKey) : pcmx (remap insns k) = pcmx k := by
  unfold remap
  split
  · exact pcmx_canonical insns k
  · rfl

theorem canonical_congr {insns : List DecodedInsn} {k l : DecodeKey} (h : pcmx k = pcmx l)
    (hk : k ∈ insns.map (·.key)) : canonical insns k = canonical insns l := by
  unfold canonical
  rw [h]
  cases hfind : insns.find? fun di => decide (pcmx di.key = pcmx l) with
  | some di => rfl
  | none =>
    obtain ⟨di, hdi, rfl⟩ := List.mem_map.mp hk
    exact absurd h (by simpa using List.find?_eq_none.mp hfind di hdi)

/-- After the merge there is one instruction for each address and pair of widths. -/
theorem dedupe_nodup {insns : List DecodedInsn} (h : (insns.map (·.key)).Nodup) :
    ((dedupe insns).map fun di => pcmx di.key).Nodup := by
  unfold dedupe
  rw [List.map_map]
  have hkept : (insns.filter fun di => canonical insns di.key = di.key).Nodup :=
    (List.Nodup.of_map _ h).filter _
  refine hkept.map_on ?_
  intro di hdi dj hdj hpcmx
  obtain ⟨hmem, hcanon⟩ := List.mem_filter.mp hdi
  obtain ⟨hmem', hcanon'⟩ := List.mem_filter.mp hdj
  refine List.inj_on_of_nodup_map h hmem hmem' ?_
  calc di.key = canonical insns di.key := (of_decide_eq_true hcanon).symm
    _ = canonical insns dj.key := canonical_congr hpcmx (List.mem_map_of_mem hmem)
    _ = dj.key := of_decide_eq_true hcanon'

theorem foldBranch_key (insns : List DecodedInsn) (di : DecodedInsn) :
    (foldBranch insns di).key = di.key := by
  unfold foldBranch
  split
  · split
    · split
      · split <;> rfl
      · rfl
    · rfl
  · rfl

theorem outOf_isSome_iff {insns : List DecodedInsn} {k : DecodeKey} :
    (outOf insns k).isSome ↔ ∃ di ∈ insns, di.key = k := by
  unfold outOf
  rw [Option.isSome_map, List.find?_isSome]
  simp only [decide_eq_true_eq]

theorem outOf_isSome_iff_mem {insns : List DecodedInsn} {k : DecodeKey} :
    (outOf insns k).isSome ↔ k ∈ insns.map (·.key) := by
  rw [outOf_isSome_iff, List.mem_map]

/-- What the prune keeps, it keeps with its successors. -/
theorem outOf_prune {entry k : DecodeKey} {insns : List DecodedInsn}
    (hk : Visit.Reach (outOf insns) entry k) : outOf (prune entry insns) k = outOf insns k := by
  have hvisit := (Visit.mem_visit_iff (fun _ => outOf_isSome_iff_mem.mp) (by rw [List.length_map]) entry k).mpr hk
  unfold outOf prune
  dsimp only
  rw [List.find?_filter]
  congr 2
  funext di
  by_cases hdi : di.key = k
  · subst hdi
    simp [hvisit]
  · simp [hdi]

theorem mem_prune {entry : DecodeKey} {insns : List DecodedInsn} {di : DecodedInsn}
    (h : di ∈ prune entry insns) : di ∈ insns ∧ Visit.Reach (outOf insns) entry di.key := by
  obtain ⟨hmem, hvisit⟩ := List.mem_filter.mp h
  exact ⟨hmem, (Visit.mem_visit_iff (fun _ => outOf_isSome_iff_mem.mp) (by rw [List.length_map]) entry
    di.key).mp (of_decide_eq_true hvisit)⟩

/-- After the prune the entry reaches every instruction. -/
theorem reach_prune {entry k : DecodeKey} {insns : List DecodedInsn}
    (hk : Visit.Reach (outOf insns) entry k) : Visit.Reach (outOf (prune entry insns)) entry k := by
  induction hk with
  | root h => exact .root (by rw [outOf_prune (.root h)]; exact h)
  | @step k s ss hk hss hs hsome ih =>
    refine .step ih ?_ hs ?_
    · rw [outOf_prune hk]
      exact hss
    · rw [outOf_prune (.step hk hss hs hsome)]
      exact hsome

/-- `FunctionDecodeGraph`. -/
structure FunctionGraph where
  entry : DecodeKey
  insns : List DecodedInsn
  labelled : (insns.map fun di => pcmx di.key).Nodup
  reached : ∀ di ∈ insns, Visit.Reach (outOf insns) entry di.key

/-- The two passes, on the instructions of the worklist. -/
def FunctionGraph.ofInsns (entry : DecodeKey) (insns : List DecodedInsn)
    (h : (insns.map (·.key)).Nodup) : FunctionGraph where
  entry := remap insns entry
  insns := applyConstantZFold (remap insns entry) (dedupe insns)
  labelled := by
    refine List.Nodup.sublist (List.filter_sublist.map _) ?_
    rw [List.map_map]
    refine Eq.subst (motive := List.Nodup) (List.map_congr_left fun di _ => ?_) (dedupe_nodup h)
    rw [Function.comp_apply, foldBranch_key]
  reached := fun di hdi => reach_prune (mem_prune hdi).2

/-- `decode_function`; `none` where the source raises. -/
def decodeFunction (inp : DecodeInput) : Option FunctionGraph :=
  match h : decodeLoop inp inp.maxInsns [⟨entryKey inp, .entry, none⟩] [] with
  | some insns => some (.ofInsns (entryKey inp) insns (decodeLoop_nodup inp _ _ [] _ List.nodup_nil h))
  | none => none

/-! ### Where the instructions of a graph come from -/

/-- The instruction as it was decoded, without the marks of the fold. -/
def Insn.unfolded (insn : Insn) : Insn :=
  { insn with constZFoldUnconditional := false, constZFoldDeadPc24 := none }

/-- Up to its successors, the instruction is what `decodeOne` makes of the bytes at its key. -/
structure DecodedAt (inp : DecodeInput) (di : DecodedInsn) (insn : Insn) : Prop where
  read : decodeAt inp.rom inp.bank (di.key.pc &&& 0xFFFF) di.key.m di.key.x = some insn
  same : di.insn.unfolded = insn.unfolded
  dispatch : di.dispatch = (decodeOne inp di.key insn).insn.dispatch
  runtime : di.dispatchRuntime = (decodeOne inp di.key insn).insn.dispatchRuntime

theorem DecodedAt.mnem {inp : DecodeInput} {di : DecodedInsn} {insn : Insn}
    (h : DecodedAt inp di insn) : di.insn.mnem = insn.mnem := by
  have hmnem : di.insn.unfolded.mnem = insn.unfolded.mnem := congrArg Insn.mnem h.same
  exact hmnem

theorem DecodedAt.length {inp : DecodeInput} {di : DecodedInsn} {insn : Insn}
    (h : DecodedAt inp di insn) : di.insn.length = insn.length := by
  have hlength : di.insn.unfolded.length = insn.unfolded.length := congrArg Insn.length h.same
  exact hlength

/-- The worklist keeps an instruction as `decodeOne` makes it. -/
structure FreshAt (inp : DecodeInput) (di : DecodedInsn) (insn : Insn) : Prop where
  read : decodeAt inp.rom inp.bank (di.key.pc &&& 0xFFFF) di.key.m di.key.x = some insn
  fresh : di = (decodeOne inp di.key insn).insn

theorem FreshAt.decodedAt {inp : DecodeInput} {di : DecodedInsn} {insn : Insn}
    (h : FreshAt inp di insn) : DecodedAt inp di insn := by
  refine ⟨h.read, ?_, congrArg DecodedInsn.dispatch h.fresh, congrArg DecodedInsn.dispatchRuntime h.fresh⟩
  have hinsn := congrArg DecodedInsn.insn h.fresh
  rw [(decodeOne_self inp di.key insn).2] at hinsn
  rw [hinsn]

theorem decodeLoop_freshAt (inp : DecodeInput) : ∀ (room : Nat) (worklist : List WorkItem)
    (insns out : List DecodedInsn), (∀ di ∈ insns, ∃ insn, FreshAt inp di insn) →
    decodeLoop inp room worklist insns = some out → ∀ di ∈ out, ∃ insn, FreshAt inp di insn := by
  intro room
  induction room with
  | zero =>
    intro worklist insns out hinsns h
    cases worklist with
    | nil => exact Option.some.inj h ▸ hinsns
    | cons item rest => cases h
  | succ room ih =>
    intro worklist insns out hinsns h
    rw [decodeLoop] at h
    cases hdrop : worklist.dropWhile (skipped inp insns) with
    | nil =>
      rw [hdrop] at h
      exact Option.some.inj h ▸ hinsns
    | cons item rest =>
      rw [hdrop] at h
      cases hinsn : decodeAt inp.rom inp.bank (item.key.pc &&& 0xFFFF) item.key.m item.key.x with
      | none =>
        simp only [hinsn] at h
        cases h
      | some insn =>
        simp only [hinsn] at h
        refine ih _ _ _ (fun di hdi => ?_) h
        rcases List.mem_append.mp hdi with hdi | hdi
        · exact hinsns di hdi
        · obtain rfl := List.mem_singleton.mp hdi
          have hkey := decodeOne_key inp item.key insn
          exact ⟨insn, by rw [hkey]; exact hinsn, by rw [hkey]⟩

theorem DecodedAt.dedupe {inp : DecodeInput} {insns : List DecodedInsn}
    (h : ∀ di ∈ insns, ∃ insn, DecodedAt inp di insn) :
    ∀ di ∈ Recompiler.dedupe insns, ∃ insn, DecodedAt inp di insn := by
  intro di hdi
  obtain ⟨dj, hdj, rfl⟩ := List.mem_map.mp hdi
  obtain ⟨insn, hj⟩ := h dj (List.mem_of_mem_filter hdj)
  exact ⟨insn, hj.read, hj.same, hj.dispatch, hj.runtime⟩

theorem DecodedAt.foldBranch {inp : DecodeInput} {insns : List DecodedInsn} {di : DecodedInsn}
    {insn : Insn} (h : DecodedAt inp di insn) : DecodedAt inp (foldBranch insns di) insn := by
  unfold Recompiler.foldBranch
  split
  · split
    · split
      · split
        · exact ⟨h.read, h.same, h.dispatch, h.runtime⟩
        · exact h
      · exact h
    · exact h
  · exact h

/-- The instructions of a graph are those of the worklist, merged and folded. -/
theorem decodeFunction_eq_some {inp : DecodeInput} {g : FunctionGraph}
    (h : decodeFunction inp = some g) : ∃ insns, (insns.map (·.key)).Nodup ∧
      (∀ di ∈ insns, ∃ insn, FreshAt inp di insn) ∧
      ∀ di ∈ g.insns, ∃ dj ∈ dedupe insns, di = foldBranch (dedupe insns) dj := by
  unfold decodeFunction at h
  split at h
  next insns hloop =>
    obtain rfl := Option.some.inj h
    refine ⟨insns, decodeLoop_nodup inp _ _ [] _ List.nodup_nil hloop,
      decodeLoop_freshAt inp _ _ [] insns (fun _ hdj => by cases hdj) hloop, fun di hdi => ?_⟩
    obtain ⟨dj, hdj, rfl⟩ := List.mem_map.mp (mem_prune hdi).1
    exact ⟨dj, hdj, rfl⟩
  next => cases h

/-- Every instruction of a graph was read from the ROM at its key. -/
theorem decodedAt_of_decodeFunction {inp : DecodeInput} {g : FunctionGraph}
    (h : decodeFunction inp = some g) : ∀ di ∈ g.insns, ∃ insn, DecodedAt inp di insn := by
  obtain ⟨insns, _, hfresh, hgraph⟩ := decodeFunction_eq_some h
  intro di hdi
  obtain ⟨dj, hdj, rfl⟩ := hgraph di hdi
  have hdecoded : ∀ di ∈ insns, ∃ insn, DecodedAt inp di insn := fun di hdi =>
    (hfresh di hdi).imp fun _ hfresh => hfresh.decodedAt
  obtain ⟨insn, hj⟩ := DecodedAt.dedupe hdecoded dj hdj
  exact ⟨insn, hj.foldBranch⟩

/-- The forms of a dispatch. -/
theorem dispatch_forms {inp : DecodeInput} {key : DecodeKey} {insn : Insn} {d : Dispatch}
    (h : (decodeOne inp key insn).insn.dispatch = some d) :
    (isLongTransfer insn = true ∧ ∃ t, d = .ofTable t) ∨
      (insn.mnem = .jmp ∧ ∃ t : Targets, d = t.dispatch insn t.localGoto) ∨
      (insn.mnem = .pha ∧ ∃ t : Targets, d = t.rtsStack) ∨
      (insn.mnem = .jsr ∧ insn.mode = .indirX ∧
        ((∃ t : Targets, d = t.dispatch insn false) ∨ ∃ t, d = .ofTable t)) := by
  have hsome : ∀ {d' : Dispatch}, some d' = some d → d = d' := fun h => (Option.some.inj h).symm
  unfold decodeOne at h
  split at h
  next t ht =>
    split at ht
    next hlong => exact Or.inl ⟨hlong, t, hsome h⟩
    next => cases ht
  next =>
    split at h
    next hjump =>
      have hjmp : insn.mnem = .jmp := by
        unfold isIndirectJump at hjump
        rw [Bool.and_eq_true, decide_eq_true_eq] at hjump
        exact hjump.1
      refine Or.inr (Or.inl ⟨hjmp, ?_⟩)
      unfold decodeIndirectJump at h
      split at h
      · cases h
      next t _ =>
        dsimp only at h
        split at h <;> exact ⟨t, hsome h⟩
    next =>
      split at h
      next t ht =>
        split at ht
        next hpha => exact Or.inr (Or.inr (Or.inl ⟨hpha, t, hsome h⟩))
        next => cases ht
      next =>
        split at h
        next hjsr =>
          refine Or.inr (Or.inr (Or.inr ⟨hjsr.1, hjsr.2, ?_⟩))
          unfold decodeIndirectCall at h
          dsimp only at h
          split at h
          next t _ => exact Or.inl ⟨t, hsome h⟩
          next =>
            split at h
            next t _ => exact Or.inr ⟨t, hsome h⟩
            next => split at h <;> cases h
        next => cases h

/-- Only calls, jumps and the `PHA` of an RTS-stack dispatch are dispatched. -/
theorem mnem_of_dispatch {inp : DecodeInput} {key : DecodeKey} {insn : Insn} {d : Dispatch}
    (h : (decodeOne inp key insn).insn.dispatch = some d) :
    insn.mnem = .jsl ∨ insn.mnem = .jmp ∨ insn.mnem = .pha ∨ insn.mnem = .jsr := by
  rcases dispatch_forms h with ⟨hlong, _⟩ | ⟨hm, _⟩ | ⟨hm, _⟩ | ⟨hm, _⟩
  · unfold isLongTransfer at hlong
    rw [Bool.or_eq_true, Bool.and_eq_true, decide_eq_true_eq, decide_eq_true_eq] at hlong
    exact hlong.imp_right fun hm => Or.inl hm.1
  · exact Or.inr (Or.inl hm)
  · exact Or.inr (Or.inr (Or.inl hm))
  · exact Or.inr (Or.inr (Or.inr hm))

end SnesRecomp.Recompiler
