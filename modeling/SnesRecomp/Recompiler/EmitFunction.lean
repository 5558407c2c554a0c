import SnesRecomp.Lib.Text
import SnesRecomp.Recompiler.Calls
import SnesRecomp.Recompiler.Cfg

/-!
# The text of a compiled function

`emit_function` and the emitters of `codegen.py` that write returns, jumps and switches.
The lines of a function are a `Text` over `HostAct`, `HostCond` and `HostRet`; a `switch`
is a chain of tests, and a compound statement written on one line is an `onLine`.  The
line scanner that puts `RecompStackPop();` in front of lines beginning with `return` is
`Text.inject`.  Lines without effect on control (`emit_op`) carry their IR operation;
tracing and comments are left out, and cycle charges are one action.
-/

namespace SnesRecomp.Recompiler

/-! ### Lines -/

/-- Lines that go on with the next one. -/
inductive HostAct
  /-- `RecompStackPop();` -/
  | pop
  | charge
  /-- The lines of `emit_op`. -/
  | op (op : IROp)
  /-- The lines of `_emit_call` up to the test of `_r`. -/
  | call (code : CallCode)
  /-- `_disp_r = cpu_dispatch_call_pc(...)`. -/
  | runtimeCall (base site : Nat) (idxReg : IdxReg)
  /-- The pops of an `RTS` or `RTL`. -/
  | popReturn (long : Bool)
  /-- `_anc_skip = cpu_resolve_ancestor_skip(_ret_s)`. -/
  | resolveAncestor
  /-- The pops of an `RTI`. -/
  | popInterrupt
  /-- `cpu->PB = ...` of a `JML`. -/
  | setPb (bank : Nat)
  /-- `host_return_valid = _hrv; cpu_tailcall_inherit_return_context(_entry_s, _hrv);` -/
  | handOn
  /-- `_tc = X(cpu)`. -/
  | tailCall (target : Nat) (variant : Bool × Bool)
  /-- A host function named by the cfg. -/
  | helper (pc16 : Nat)
  /-- The first lines of `_emit_indirect_dispatch`: a pushed frame, or the size of the one
  that `PEA` pushed, or the caller's. -/
  | enterDispatch (jsr call : Bool) (site : Nat)
  | loadPointer (insn : Insn) (long indexed : Bool) (idxReg : IdxReg)
  | loadIndex (idxReg : IdxReg) (entrySize : Nat)
  | loadIndexA
  /-- The `SEP #$30` of an RTS-stack dispatch. -/
  | forceNarrow
  /-- The `SEP #$30` and `host_return_valid = 0` of `_emit_dispatch`. -/
  | dispatchReset
  /-- The bank envelope and the call of a handler; `survivors` is the list of a switch on
  the widths, without it the `M1X1` variant is named. -/
  | handler (target : Nat) (survivors : Option (List (Bool × Bool))) (inherit : Bool)
  /-- `cpu->S = cpu->S + 2`. -/
  | unpopFrame
  | trapGoto
  | trapOob
  deriving DecidableEq, Repr

/-- The tests in front of nested lines. -/
inductive HostCond
  | flag (reg : Reg) (takeIf : Bool)
  | mode (m x : Bool)
  /-- `_r != RECOMP_RETURN_NORMAL`. -/
  | skipping
  /-- `_hrv && _ret_s == _entry_s`. -/
  | balanced
  /-- `_ret_s != _entry_s`. -/
  | offEntry
  /-- `_ret_s != _entry_s && !cpu_dispatch_has_entry(cpu, _rpc24)`. -/
  | offEntryMiss
  /-- `_anc_skip >= 0`. -/
  | ancestorFound
  | idxOob (n : Nat)
  | caseIs (v : Nat)
  deriving DecidableEq, Repr

/-- The comments of `return RECOMP_RETURN_NORMAL;`. -/
inductive NormalExit
  | hostReturn (long : Bool)
  | hleReplaced
  | noTerminator
  | invalidJml
  | rti
  | dispatched
  | endOfText
  deriving DecidableEq, Repr

/-- What is returned. -/
inductive HostRet
  | normal (exit : NormalExit)
  /-- `_r - 1`. -/
  | propagate
  /-- `_anc_skip`. -/
  | ancestor
  /-- `_tc`, or the result of a host function. -/
  | result
  /-- `cpu_unresolved_abandon_balanced(cpu, site, _entry_s, _hrv)`. -/
  | abandon (site : Nat)
  /-- `interp_tier_dispatch_balanced`, on the loaded pointer or on the site itself. -/
  | interpTier (loaded : Bool) (site : Nat)
  /-- `cpu_dispatch_pc_from(cpu, _rpc24, _entry_s + frame, site)`. -/
  | dispatchFrom (long : Bool)
  deriving DecidableEq, Repr

/-- What `_label_for` prints. -/
abbrev Label := Nat × Bool × Bool

def labelFor (key : DecodeKey) : Label := (key.pc &&& 0xFFFF, key.m, key.x)

abbrev HostText := Text HostAct HostCond HostRet Label

/-- The instructions of a block with their operations. -/
abbrev Lowered := List (DecodedInsn × List IROp)

/-- The cfg of the function's bank, and the maps of `codegen.py`. -/
structure EmitCtx where
  bank : Nat
  maps : Maps
  excludeRanges : List (Nat × Nat)
  tailCallPc16 : Option Nat
  hleDispatch : List Nat
  hleSpcUpload : List Nat
  hleFunc : List Nat

/-- A cfg that says nothing. -/
def EmitCtx.bare : EmitCtx :=
  ⟨0, ⟨0x8000, fun _ => false, fun _ => none, fun _ => none⟩, [], none, [], [], []⟩

namespace EmitCtx

variable (ctx : EmitCtx)

/-- Inside an `exclude_range`. -/
def excluded (pc16 : Nat) : Bool :=
  ctx.excludeRanges.any fun r => decide (r.1 ≤ pc16 ∧ pc16 < r.2)

/-- `resolve_variant_for_target`. -/
def resolveVariantForTarget (addr24 : Nat) (m x : Bool) : Bool × Bool :=
  (dispatchVariant (validVariantList ctx.maps addr24) m x).getD (m, x)

/-! ### Edges -/

/-- `_tail_call_stmt`. -/
def tailCallStmt (addr24 : Nat) (m x : Bool) : HostText :=
  .onLine (.seqs [.act .handOn, .act (.tailCall addr24 (ctx.resolveVariantForTarget addr24 m x)),
    .act .pop, .ret .result])

/-- `_goto_or_return`. -/
def gotoOrReturn (labels : List Label) (source : Nat) (target : DecodeKey) : HostText :=
  let pc := target.pc &&& 0xFFFF
  let target24 := ((ctx.bank &&& 0xFF) <<< 16) ||| pc
  if labelFor target ∈ labels then .goto (labelFor target)
  else if ctx.excluded pc then .ret (.normal .hleReplaced)
  else if ctx.tailCallPc16.map (· &&& 0xFFFF) = some pc ∨ ctx.maps.nameResolver target24 = true then
    ctx.tailCallStmt target24 target.m target.x
  else .onLine (.seqs [.act .trapGoto, .act .pop, .ret (.abandon source)])

/-- The `Goto` of an instruction whose block has no successor. -/
def emitFarGoto (source : Nat) (insn : Insn) : HostText :=
  let unresolved : HostText := .seqs [.act .trapGoto, .ret (.abandon source)]
  if insn.mnem = .jmp ∧ insn.mode = .long then
    let target24 := insn.operand &&& 0xFFFFFF
    let bank := (target24 >>> 16) &&& 0xFF
    let tail : HostText :=
      .seqs [.act (.setPb bank), ctx.tailCallStmt target24 insn.mFlag insn.xFlag]
    if ctx.maps.nameResolver target24 then tail
    else if bank ≠ ctx.bank then
      if isInvalidLoromCallTarget ctx.maps target24 then .ret (.normal .invalidJml) else tail
    else unresolved
  else unresolved

/-! ### Calls, returns and dispatches -/

/-- `if (_r != RECOMP_RETURN_NORMAL) { return _r - 1; }`. -/
def propagateText : HostText := .ite .skipping (.ret .propagate) .skip

/-- `_emit_call`. -/
def emitCallText (op : CallOp) : HostText :=
  match emitCall ctx.maps op with
  | .skipped => .skip
  | code => .seqs [.act (.call code), propagateText]

/-- `_emit_runtime_dispatch`. -/
def emitRuntimeDispatch (insn : Insn) : HostText :=
  .seqs [.act (.runtimeCall (insn.operand &&& 0xFFFF) (insn.addr &&& 0xFFFFFF) .x), propagateText]

/-- `_emit_return`. -/
def emitReturnText (op : ReturnOp) : HostText :=
  if op.interrupt then .seqs [.act .popInterrupt, .ret (.normal .rti)]
  else
    .seqs [.act (.popReturn op.long),
      .ite .balanced (.ret (.normal (.hostReturn op.long))) .skip,
      .ite .offEntry
        (.seqs [.act .resolveAncestor, .ite .ancestorFound (.ret .ancestor) .skip]) .skip,
      .ret (.dispatchFrom op.long)]

/-- A `switch`, its `default` last. -/
def switchText : List (HostCond × HostText) → HostText → HostText
  | [], default => default
  | c :: cases, default => .ite c.1 c.2 (switchText cases default)

/-- Each value once, where it comes first. -/
def firstCases {α β : Type} [DecidableEq β] (value : α → β) : List α → List β → List α
  | [], _ => []
  | a :: as, seen =>
    if value a ∈ seen then firstCases value as seen
    else a :: firstCases value as (value a :: seen)

/-- The handler of a table entry: forced to `M1X1` behind an RTS-stack dispatch, else chosen
by the widths at run time. -/
def handlerAct (d : Dispatch) (inherit : Bool) (entry : Nat) : HostAct :=
  let addr := entry &&& 0xFFFFFF
  .handler addr (if d.terminal then none else some (validVariantList ctx.maps addr)) inherit

/-- A hit: the handler runs, and its return is passed on; a call then goes on behind the
switch. -/
def hitText (d : Dispatch) (falls inherit : Bool) (entry : Nat) : HostText :=
  .seqs [.act (ctx.handlerAct d inherit entry), propagateText,
    if falls then .skip else .ret (.normal .dispatched)]

/-- The call forms drop the frame nobody consumed, the others abandon. -/
def missText (falls : Bool) (site : Nat) : HostText :=
  if falls then .seqs [.act .trapOob, .act .unpopFrame]
  else .seqs [.act .trapOob, .ret (.abandon site)]

/-- The computed goto of `_emit_indirect_dispatch`. -/
def localGotoText (insn : Insn) (d : Dispatch) : HostText :=
  let bank := (insn.addr >>> 16) &&& 0xFF
  let site := insn.addr &&& 0xFFFFFF
  let local16 := d.entries.filter fun e => e ≠ 0 ∧ (e >>> 16) &&& 0xFF = bank
  .seqs [.act (.loadPointer insn false false .x),
    switchText ((firstCases (· &&& 0xFFFF) local16 []).map fun e =>
        (.caseIs (e &&& 0xFFFF), .goto (e &&& 0xFFFF, insn.mFlag, insn.xFlag)))
      (.seqs [.act .trapOob, .ret (.interpTier true site)])]

/-- The switch on the loaded pointer. -/
def pointerSwitchText (insn : Insn) (d : Dispatch) (indexed : Bool) : HostText :=
  let site := insn.addr &&& 0xFFFFFF
  let falls := insn.mnem = .jsr || d.call
  let value := fun e => if d.long then e &&& 0xFFFFFF else e &&& 0xFFFF
  .seqs [.act (.enterDispatch (insn.mnem = .jsr) d.call site),
    .act (.loadPointer insn d.long indexed (d.idxReg.getD .x)),
    if d.terminal then .act .forceNarrow else .skip,
    switchText ((firstCases value (d.entries.filter (· ≠ 0)) []).map fun e =>
        (.caseIs (value e), ctx.hitText d falls false e))
      (if falls then missText true site else .skip),
    if falls then .skip else .seqs [.act .trapOob, .ret (.interpTier true site)]]

/-- The switch on the table index. -/
def indexSwitchText (insn : Insn) (d : Dispatch) : HostText :=
  let site := insn.addr &&& 0xFFFFFF
  let falls := insn.mnem = .jsr || d.call
  let entrySize := if 2 ≤ d.tableBases.length then 1 else if d.long then 3 else 2
  .seqs [.act (.enterDispatch (insn.mnem = .jsr) d.call site),
    .act (.loadIndex (d.idxReg.getD .x) entrySize),
    if d.terminal then .act .forceNarrow else .skip,
    .ite (.idxOob d.entries.length) (missText falls site) .skip,
    switchText (d.entries.zipIdx.map fun e =>
        (.caseIs e.2, if e.1 = 0 then missText falls site else ctx.hitText d falls (!falls) e.1))
      .skip,
    if falls then .skip else .seqs [.act .trapOob, .ret (.abandon site)]]

/-- `_emit_indirect_dispatch`. -/
def emitIndirectDispatch (insn : Insn) (d : Dispatch) : HostText :=
  if d.localGoto then localGotoText insn d
  else if insn.mode = .indir ∧ d.tableBases.length = 1 then ctx.pointerSwitchText insn d false
  else if insn.mnem = .jsr ∧ d.call = true ∧ insn.mode = .indirX ∧ d.tableBases.length = 1 then
    ctx.pointerSwitchText insn d true
  else ctx.indexSwitchText insn d

/-- `_emit_dispatch`: every handler is entered as `M1X1`, with no caller to return to. -/
def emitDispatch (insn : Insn) (d : Dispatch) : HostText :=
  let site := insn.addr &&& 0xFFFFFF
  let bank := (insn.addr >>> 16) &&& 0xFF
  .seqs [.act .loadIndexA,
    .ite (.idxOob d.entries.length) (.seqs [.act .trapOob, .ret (.abandon site)]) .skip,
    .act .dispatchReset,
    switchText (d.entries.zipIdx.map fun e =>
        (.caseIs e.2,
          if e.1 = 0 then .seqs [.act .trapOob, .ret (.abandon site)]
          else .seqs [.act (.handler (if d.long then e.1 else addr24 bank e.1) none false),
            propagateText]))
      .skip,
    .ret (.normal .dispatched)]

/-! ### Blocks -/

/-- The dispatch of an instruction that has entries. -/
def dispatchOf (di : DecodedInsn) : Option Dispatch :=
  di.dispatch.filter fun d => !d.entries.isEmpty

/-- The lines of one operation, and what they say about `block_terminated`. -/
def emitOpLines (labels : List Label) (source : Nat) (succs : List DecodeKey) (di : DecodedInsn)
    (op : IROp) : HostText × Option Bool :=
  match op with
  | .condBranch flag takeIf =>
    let taken := match succs[1]? with
      | some taken =>
        .onLine (.ite (.flag flag takeIf)
          (.seqs [.act .charge, ctx.gotoOrReturn labels source taken]) .skip)
      | none => .skip
    match succs[0]? with
    | some fall => (.seqs [taken, ctx.gotoOrReturn labels source fall], some true)
    | none => (taken, none)
  | .goto =>
    match dispatchOf di with
    | some d => (emitDispatch di.insn d, some true)
    | none =>
      match succs with
      | s :: _ => (ctx.gotoOrReturn labels source s, some true)
      | [] => (ctx.emitFarGoto source di.insn, some true)
  | .ret op => (emitReturnText op, some true)
  | .indirectGoto _ =>
    match dispatchOf di with
    | some d => (ctx.emitIndirectDispatch di.insn d, some !d.call)
    | none =>
      let site := di.insn.addr &&& 0xFFFFFF
      if site &&& 0xFFFF ∈ ctx.hleDispatch then
        (.onLine (.seqs [.act (.helper (site &&& 0xFFFF)), .act .pop, .ret .result]), some true)
      else (.seqs [.act .trapOob, .ret (.interpTier false site)], some true)
  | .pushReg reg staticM staticX =>
    match dispatchOf di with
    | some d => (ctx.emitIndirectDispatch di.insn d, some true)
    | none => (.act (.op (.pushReg reg staticM staticX)), none)
  | .call op =>
    if di.dispatchRuntime then (emitRuntimeDispatch di.insn, none)
    else
      match dispatchOf di with
      | some d =>
        match d.idxReg with
        | some _ =>
          (ctx.emitIndirectDispatch di.insn d, if di.insn.mnem ≠ .jsr then some true else none)
        | none => (emitDispatch di.insn d, some true)
      | none => (ctx.emitCallText op, none)
  | op => (.act (.op op), none)

/-- A `JML` that was decoded as a dispatch. -/
def isJmlDispatch (di : DecodedInsn) : Bool :=
  di.insn.mnem = .jmp && di.insn.length = 4 && (dispatchOf di).isSome

/-- The pushes in front of a `JML` dispatch, which the switch makes superfluous. -/
def isTrampolineSetup (di : DecodedInsn) (rest : List DecodedInsn) : Bool :=
  let isSetup (di : DecodedInsn) : Bool :=
    di.insn.mnem = .phk || di.insn.mnem = .pea || di.insn.mnem = .per
  isSetup di && match rest.dropWhile isSetup with
    | j :: _ => isJmlDispatch j
    | [] => false

/-- The lines of an instruction's operations. -/
def emitOps (labels : List Label) (source : Nat) (succs : List DecodeKey) (di : DecodedInsn) :
    List IROp → Bool → HostText × Bool
  | [], terminated => (.skip, terminated)
  | op :: ops, terminated =>
    let here := ctx.emitOpLines labels source succs di op
    let rest := emitOps labels source succs di ops (here.2.getD terminated)
    (.seq here.1 rest.1, rest.2)

/-- The lines of the instructions of a block. -/
def emitInsns (labels : List Label) (source : Nat) (succs : List DecodeKey) :
    Lowered → Bool → HostText × Bool
  | [], terminated => (.skip, terminated)
  | p :: ps, terminated =>
    if isTrampolineSetup p.1 (ps.map (·.1)) then emitInsns labels source succs ps terminated
    else
      let here := ctx.emitOps labels source succs p.1 p.2 terminated
      let rest := emitInsns labels source succs ps here.2
      (.seqs [.act .charge, here.1, rest.1], rest.2)

/-- The edge of a block without a terminator: a call that returns in several widths is
followed by a switch on them, anything else by its first successor. -/
def implicitText (labels : List Label) (source : Nat) (lastMnem : Option Mnem) :
    List DecodeKey → HostText
  | [] => .ret (.normal .noTerminator)
  | [s] => ctx.gotoOrReturn labels source s
  | s :: t :: succs =>
    if lastMnem = some .jsr ∨ lastMnem = some .jsl then
      switchText ((firstCases (fun k => (k.m, k.x)) (s :: t :: succs) []).map fun k =>
          (.mode k.m k.x, .onLine (ctx.gotoOrReturn labels source k)))
        (.onLine (ctx.gotoOrReturn labels source s))
    else ctx.gotoOrReturn labels source s

/-- The lines of a block. -/
def emitBlock (labels : List Label) (b : Block) (lowered : Lowered) : HostText :=
  let source := (ctx.bank <<< 16) ||| (b.entry.pc &&& 0xFFFF)
  let insns := ctx.emitInsns labels source b.successors lowered false
  .seqs [.act .charge, insns.1,
    if insns.2 then .skip
    else ctx.implicitText labels source (lowered.getLast?.map (·.1.insn.mnem)) b.successors]

end EmitCtx

/-! ### Functions -/

/-- The values the factory hands out for an operation. -/
def IROp.values : IROp → Nat
  | .read _ _ _ | .readReg _ _ | .constI _ _ _ | .shift _ _ _ _ | .pull _ _ => 1
  | .alu _ _ _ _ out => if out.isSome then 1 else 0
  | _ => 0

/-- `lower` along the instructions, from the next free value on. -/
def lowerInsns : List DecodedInsn → Value → Option (Lowered × Value)
  | [], vid => some ([], vid)
  | di :: rest, vid => do
    let ops ← lower di.insn vid
    let tail ← lowerInsns rest (vid + (ops.map IROp.values).sum)
    return ((di, ops) :: tail.1, tail.2)

def lowerBlocks : List Block → Value → Option (List (Block × Lowered))
  | [], _ => some []
  | b :: bs, vid => do
    let here ← lowerInsns b.insns vid
    let rest ← lowerBlocks bs here.2
    return (b, here.1) :: rest

/-- `order_blocks`: depth first from the entry, then what is left. -/
def blockOrder (entry : DecodeKey) (blocks : List Block) : List Block :=
  let out (k : DecodeKey) := (blocks.find? fun b => b.entry = k).map (·.successors)
  let visited := Visit.visit out blocks.length [entry] []
  visited.filterMap (fun k => blocks.find? fun b => b.entry = k) ++
    blocks.filter fun b => b.entry ∉ visited

abbrev HostFn := TextFn HostAct HostCond HostRet Label

/-- The body of `hle_spc_upload`; its returns bring their own pop. -/
def hleSpcUploadText (pc16 : Nat) : HostText :=
  .seqs [.act (.helper pc16), .act (.popReturn false),
    .ite .balanced (.seqs [.act .pop, .ret (.normal (.hostReturn false))]) .skip,
    .ite .offEntryMiss
      (.seqs [.act .resolveAncestor,
        .ite .ancestorFound (.seqs [.act .pop, .ret .ancestor]) .skip]) .skip,
    .act .pop, .ret (.dispatchFrom false)]

/-- The forwarding stub of `hle_func`. -/
def hleFuncText (pc16 : Nat) : HostText := .seqs [.act (.helper pc16), .act .pop, .ret .result]

/-- The labelled blocks and the defensive return behind them. -/
def emitBlocks (ctx : EmitCtx) (lowered : List (Block × Lowered)) : HostFn :=
  let labels := lowered.map fun b => labelFor b.1.entry
  { blocks := lowered.map fun b =>
      (labelFor b.1.entry, (ctx.emitBlock labels b.1 b.2).inject .pop)
    epilogue := .seqs [.act .pop, .ret (.normal .endOfText)] }

/-- `emit_function`; `none` where the decoder or the lowering raises. -/
def emitFunction (ctx : EmitCtx) (inp : DecodeInput) : Option HostFn :=
  let pc16 := inp.start &&& 0xFFFF
  if pc16 ∈ ctx.hleSpcUpload then some ⟨[], hleSpcUploadText pc16⟩
  else if pc16 ∈ ctx.hleFunc then some ⟨[], hleFuncText pc16⟩
  else do
    let g ← decodeFunction inp
    let lowered ← lowerBlocks (blockOrder g.entry g.buildCfg) 1
    return emitBlocks ctx lowered

/-! ### The instructions of a function -/

theorem lowerInsns_spec : ∀ {insns : List DecodedInsn} {vid : Value} {out : Lowered × Value},
    lowerInsns insns vid = some out →
    out.1.map (·.1) = insns ∧ ∀ p ∈ out.1, ∃ vid, lower p.1.insn vid = some p.2 := by
  intro insns
  induction insns with
  | nil =>
    intro vid out h
    obtain rfl := Option.some.inj h
    exact ⟨rfl, fun p hp => by cases hp⟩
  | cons di rest ih =>
    intro vid out h
    obtain ⟨ops, hops, h⟩ := Option.bind_eq_some_iff.mp h
    obtain ⟨tail, htail, h⟩ := Option.bind_eq_some_iff.mp h
    obtain rfl := Option.some.inj h
    obtain ⟨hmap, hlower⟩ := ih htail
    refine ⟨by rw [List.map_cons, hmap], fun p hp => ?_⟩
    rcases List.mem_cons.mp hp with rfl | hp
    · exact ⟨vid, hops⟩
    · exact hlower p hp

/-- The blocks stay as they are, and each of their instructions is lowered. -/
theorem lowerBlocks_spec : ∀ {blocks : List Block} {vid : Value} {out : List (Block × Lowered)},
    lowerBlocks blocks vid = some out →
    out.map (·.1) = blocks ∧ ∀ b ∈ out, b.2.map (·.1) = b.1.insns ∧
      ∀ p ∈ b.2, ∃ vid, lower p.1.insn vid = some p.2 := by
  intro blocks
  induction blocks with
  | nil =>
    intro vid out h
    obtain rfl := Option.some.inj h
    exact ⟨rfl, fun b hb => by cases hb⟩
  | cons b bs ih =>
    intro vid out h
    obtain ⟨here, hhere, h⟩ := Option.bind_eq_some_iff.mp h
    obtain ⟨rest, hrest, h⟩ := Option.bind_eq_some_iff.mp h
    obtain rfl := Option.some.inj h
    obtain ⟨hmap, hlower⟩ := ih hrest
    refine ⟨by rw [List.map_cons, hmap], fun c hc => ?_⟩
    rcases List.mem_cons.mp hc with rfl | hc
    · exact lowerInsns_spec hhere
    · exact hlower c hc

theorem mem_of_mem_blockOrder {entry : DecodeKey} {blocks : List Block} {b : Block}
    (h : b ∈ blockOrder entry blocks) : b ∈ blocks := by
  unfold blockOrder at h
  rcases List.mem_append.mp h with h | h
  · obtain ⟨k, _, hk⟩ := List.mem_filterMap.mp h
    exact List.mem_of_find?_eq_some hk
  · exact List.mem_of_mem_filter h

/-- The graph of a function and the blocks in the order they are printed; a stub has none. -/
def compiledBlocks (ctx : EmitCtx) (inp : DecodeInput) :
    Option (FunctionGraph × List (Block × Lowered)) :=
  if inp.start &&& 0xFFFF ∈ ctx.hleSpcUpload ∨ inp.start &&& 0xFFFF ∈ ctx.hleFunc then none
  else do
    let g ← decodeFunction inp
    let lowered ← lowerBlocks (blockOrder g.entry g.buildCfg) 1
    return (g, lowered)

theorem compiledBlocks_eq_some {ctx : EmitCtx} {inp : DecodeInput} {g : FunctionGraph}
    {lowered : List (Block × Lowered)} (h : compiledBlocks ctx inp = some (g, lowered)) :
    decodeFunction inp = some g ∧ lowerBlocks (blockOrder g.entry g.buildCfg) 1 = some lowered := by
  unfold compiledBlocks at h
  split at h
  · cases h
  · obtain ⟨g', hg, h⟩ := Option.bind_eq_some_iff.mp h
    obtain ⟨lowered', hlowered, h⟩ := Option.bind_eq_some_iff.mp h
    obtain ⟨rfl, rfl⟩ := Prod.mk.inj (Option.some.inj h)
    exact ⟨hg, hlowered⟩

theorem emitFunction_of_compiledBlocks {ctx : EmitCtx} {inp : DecodeInput} {g : FunctionGraph}
    {lowered : List (Block × Lowered)} (h : compiledBlocks ctx inp = some (g, lowered)) :
    emitFunction ctx inp = some (emitBlocks ctx lowered) := by
  obtain ⟨hg, hlowered⟩ := compiledBlocks_eq_some h
  unfold compiledBlocks at h
  split at h
  · cases h
  next hstub =>
    rw [not_or] at hstub
    unfold emitFunction
    dsimp only
    rw [if_neg hstub.1, if_neg hstub.2, hg, Option.bind_eq_bind, Option.bind_some, hlowered]
    rfl

/-- A function is a stub or is printed from its blocks. -/
theorem emitFunction_cases {ctx : EmitCtx} {inp : DecodeInput} {F : HostFn}
    (h : emitFunction ctx inp = some F) :
    (compiledBlocks ctx inp = none ∧ (F = ⟨[], hleSpcUploadText (inp.start &&& 0xFFFF)⟩ ∨
      F = ⟨[], hleFuncText (inp.start &&& 0xFFFF)⟩)) ∨
      ∃ g lowered, compiledBlocks ctx inp = some (g, lowered) ∧ F = emitBlocks ctx lowered := by
  unfold emitFunction at h
  unfold compiledBlocks
  dsimp only at h
  split at h
  next hspc =>
    obtain rfl := Option.some.inj h
    exact Or.inl ⟨if_pos (Or.inl hspc), Or.inl rfl⟩
  next hspc =>
    split at h
    next hfunc =>
      obtain rfl := Option.some.inj h
      exact Or.inl ⟨if_pos (Or.inr hfunc), Or.inr rfl⟩
    next hfunc =>
      obtain ⟨g, hg, h⟩ := Option.bind_eq_some_iff.mp h
      obtain ⟨lowered, hlowered, h⟩ := Option.bind_eq_some_iff.mp h
      obtain rfl := Option.some.inj h
      refine Or.inr ⟨g, lowered, ?_, rfl⟩
      rw [if_neg (not_or.mpr ⟨hspc, hfunc⟩), hg, Option.bind_eq_bind, Option.bind_some, hlowered]
      rfl

/-- Every instruction that is printed is in the graph, and its operations are its own. -/
theorem mem_of_compiledBlocks {ctx : EmitCtx} {inp : DecodeInput} {g : FunctionGraph}
    {lowered : List (Block × Lowered)} (h : compiledBlocks ctx inp = some (g, lowered))
    {b : Block × Lowered} (hb : b ∈ lowered) :
    b.1 ∈ g.buildCfg ∧ b.2.map (·.1) = b.1.insns ∧
      ∀ p ∈ b.2, p.1 ∈ g.insns ∧ ∃ vid, lower p.1.insn vid = some p.2 := by
  obtain ⟨_, hlowered⟩ := compiledBlocks_eq_some h
  obtain ⟨hmap, hlower⟩ := lowerBlocks_spec hlowered
  have hcfg : b.1 ∈ g.buildCfg :=
    mem_of_mem_blockOrder (hmap ▸ List.mem_map.mpr ⟨b, hb, rfl⟩)
  obtain ⟨hinsns, hops⟩ := hlower b hb
  refine ⟨hcfg, hinsns, fun p hp => ⟨?_, hops p hp⟩⟩
  obtain ⟨_, _, _, _, _, _, hin, _⟩ := FunctionGraph.block_spec hcfg
  exact hin p.1 (hinsns ▸ List.mem_map.mpr ⟨p, hp, rfl⟩)

/-! ### Edges between blocks -/

/-- Every block is printed. -/
theorem exists_mem_blockOrder (entry : DecodeKey) {blocks : List Block} {b : Block}
    (hb : b ∈ blocks) : ∃ c ∈ blockOrder entry blocks, c.entry = b.entry := by
  unfold blockOrder
  dsimp only
  generalize Visit.visit _ blocks.length [entry] [] = visited
  by_cases hmem : b.entry ∈ visited
  · cases hfind : blocks.find? fun c => decide (c.entry = b.entry) with
    | none => exact absurd (decide_eq_true rfl) (List.find?_eq_none.mp hfind b hb)
    | some c =>
      refine ⟨c, List.mem_append_left _ (List.mem_filterMap.mpr ⟨b.entry, hmem, hfind⟩), ?_⟩
      simpa using List.find?_some hfind
  · refine ⟨b, List.mem_append_right _ (List.mem_filter.mpr ⟨hb, ?_⟩), rfl⟩
    exact decide_eq_true hmem

/-- The blocks of a graph are well formed, and each of their edges to an instruction of the
graph is printed as a goto, not as a trap. -/
structure FunctionGraph.WellFormed (g : FunctionGraph) : Prop extends g.BlocksOk where
  gotos : ∀ (ctx : EmitCtx) (bs : List (Block × Lowered)) (source : Nat),
    lowerBlocks (blockOrder g.entry g.buildCfg) 1 = some bs →
    ∀ b ∈ bs, ∀ s ∈ b.1.successors, (g.get? s).isSome →
      ctx.gotoOrReturn (bs.map fun b => labelFor b.1.entry) source s = .goto (labelFor s)

theorem FunctionGraph.BlocksOk.gotos {g : FunctionGraph} (h : g.BlocksOk) (ctx : EmitCtx)
    {bs : List (Block × Lowered)} (source : Nat)
    (hbs : lowerBlocks (blockOrder g.entry g.buildCfg) 1 = some bs) {b : Block × Lowered} (hb : b ∈ bs)
    {s : DecodeKey} (hs : s ∈ b.1.successors) (hsome : (g.get? s).isSome) :
    ctx.gotoOrReturn (bs.map fun b => labelFor b.1.entry) source s = .goto (labelFor s) := by
  obtain ⟨hmap, _⟩ := lowerBlocks_spec hbs
  have hcfg : b.1 ∈ g.buildCfg := mem_of_mem_blockOrder (hmap ▸ List.mem_map.mpr ⟨b, hb, rfl⟩)
  obtain ⟨c, hc, rfl⟩ := h.targets b.1 hcfg s hs hsome
  obtain ⟨d, hd, hentry⟩ := exists_mem_blockOrder g.entry hc
  obtain ⟨e, he, rfl⟩ := List.mem_map.mp (hmap ▸ hd)
  have hlabel : labelFor c.entry ∈ bs.map fun b => labelFor b.1.entry :=
    List.mem_map.mpr ⟨e, he, congrArg labelFor hentry⟩
  unfold EmitCtx.gotoOrReturn
  dsimp only
  rw [if_pos hlabel]

/-- **The block graph is well formed exactly when every instruction that ends no block and
has not exactly one successor, or dispatches, leads to the entry or to joins.** -/
theorem FunctionGraph.wellFormed_iff (g : FunctionGraph) : g.WellFormed ↔ g.SplitsAtJoins := by
  constructor
  · intro h
    exact blocksOk_iff.mp h.toBlocksOk
  · intro h
    have hok := blocksOk_iff.mpr h
    exact ⟨hok, fun ctx bs source hbs b hb s hs hsome => hok.gotos ctx source hbs hb hs hsome⟩

/-- Two paths save different widths and meet at a `PLP`, which then has two successors:
`BEQ $8009; REP #$20; PHP; SEP #$20; BRA $800A; PHP; PLP; NOP; RTS`. -/
def mergedPlp : DecodeInput :=
  .plain [0xF0, 0x07, 0xC2, 0x20, 0x08, 0xE2, 0x20, 0x80, 0x01, 0x08, 0x28, 0xEA, 0x60]

/-- The `NOP` and the `RTS` behind the `PLP` are in no block. -/
theorem not_wellFormed_mergedPlp : ∃ g, decodeFunction mergedPlp = some g ∧ ¬ g.WellFormed := by
  have hsome : (decodeFunction mergedPlp).isSome := by decide
  obtain ⟨g, hg⟩ := Option.isSome_iff_exists.mp hsome
  have hlost : (decodeFunction mergedPlp).all fun g =>
      g.insns.any fun di => g.buildCfg.all fun b => decide (di ∉ b.insns) := by decide
  rw [hg, Option.all_some, List.any_eq_true] at hlost
  obtain ⟨di, hdi, hlost⟩ := hlost
  refine ⟨g, hg, fun h => ?_⟩
  obtain ⟨b, ⟨hb, hmem⟩, _⟩ := h.covers di hdi
  exact of_decide_eq_true (List.all_eq_true.mp hlost b hb) hmem

end SnesRecomp.Recompiler
