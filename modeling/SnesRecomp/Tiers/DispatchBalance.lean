import SnesRecomp.Recompiler.ModeFlow
import SnesRecomp.Tiers.HandlerContext

/-!
# The stack behind an indirect dispatch

Every arm of `_emit_indirect_dispatch` has to leave the stack where the site found it: a hit through
the return of its handler, a miss by dropping the frame, through the interpreter or by abandoning the
function.  `stackExact_iff`: they do, but where a handler or the interpreter starts at another level
than the function did, and where a function is abandoned that cannot tell the size of its frame.  The
calls of `_emit_runtime_dispatch` always do.
-/

namespace SnesRecomp.Tiers

open Recompiler

variable {M : Type} (W : HostWorld M) (l : Locals)

/-- The interpreter, on a pointer that no case has. -/
def interpretedMiss (insn : Insn) (d : Dispatch) (t : HostState M) : Bool × CpuState × M :=
  let v := if d.localGoto then W.action l (.loadPointer insn false false .x) t
    else atSite W l insn d (.loadPointer insn d.long false (d.idxReg.getD .x)) t
  interpBridgeRunEx W.bus W.table W.stepCap (v.tierTarget true (insn.addr &&& 0xFFFFFF) &&& 0xFFFFFF)
    l.entryS v.s.cpu v.s.mem

/-- The miss of a site that ends its function is interpreted, and comes to a return. -/
def missReturns (insn : Insn) (d : Dispatch) (t : HostState M) : Bool :=
  (d.localGoto || pointerSite insn d = some false) && (interpretedMiss W l insn d t).1

/-- The handlers of a site return normally and leave the stack where their return context says; one
that is interpreted pops the frame of the caller. -/
structure BalancedHandlers (callee : Nat → Callee) (insn : Insn) (d : Dispatch) (t : HostState M) : Prop where
  normal : ∀ e ∈ d.entries, ∀ pending variant s,
    (W.bodies pending (e &&& 0xFFFFFF) variant s).1 = recompReturnNormal
  level : ∀ e ∈ d.entries, ∀ pending variant s, (W.bodies pending (e &&& 0xFFFFFF) variant s).2.cpu.S =
    ((callee (e &&& 0xFFFFFF)).prologue pending s).1.entryS +
      ((callee (e &&& 0xFFFFFF)).prologue pending s).1.hrv.setWidth 16
  interpreted : siteEntry W l insn d t = none → missReturns W l insn d t = true →
    (interpretedMiss W l insn d t).2.1.S = t.s.cpu.S + l.hrv.setWidth 16

/-- A site in call form goes on with the stack as it was in front of its frame, one that ends the
function returns with the frame of the caller popped; a computed goto goes on in the function. -/
def StackExact (ctx : EmitCtx) (insn : Insn) (d : Dispatch) (t : HostState M) : Prop :=
  let o := (ctx.emitIndirectDispatch insn d).run (W.action l) (W.test l) t
  if d.localGoto = true ∧ siteEntry W l insn d t ≠ none then
    (∃ label, o.1 = .jump label) ∧ o.2.s.cpu.S = t.s.cpu.S
  else if d.localGoto = false ∧ fallsThrough insn d = true then
    o.1 = .next ∧ o.2.s.cpu.S = if insn.mnem = .jsr then t.s.cpu.S else t.s.cpu.S + 2
  else ∃ r, o.1 = .leave r ∧ (W.leave l r o.2).1 = recompReturnNormal ∧
    (W.leave l r o.2).2.cpu.S = l.entryS + l.hrv.setWidth 16

/-- The handler's return takes the stack to where the site needs it. -/
def LandsExactly (callee : Nat → Callee) (insn : Insn) (d : Dispatch) (S : Word) (e : Nat) : Prop :=
  if d.localGoto then True
  else if fallsThrough insn d then BitVec.ofInt 16 (callee (e &&& 0xFFFFFF)).offset = 0
  else KeepsContext l callee insn d S e

/-- So does a miss: interpreted from the entry level, or abandoned with a known frame. -/
def MissLands (insn : Insn) (d : Dispatch) (t : HostState M) : Prop :=
  siteEntry W l insn d t = none → d.localGoto = true ∨ fallsThrough insn d = false →
    if missReturns W l insn d t then t.s.cpu.S = l.entryS else l.hrv ≠ 1

/-- What `cpu_dispatch_call_pc` enters for a pointer in RAM returns normally, behind its frame. -/
def RuntimeBalanced (insn : Insn) (t : HostState M) : Prop :=
  let ptr := W.bus.read16 t.s.cpu.PB (BitVec.ofNat 16 (insn.operand &&& 0xFFFF) + t.s.cpu.X) t.s.mem
  let pc24 := ((t.s.cpu.PB.setWidth 32 <<< 16) ||| ptr.1.setWidth 32) &&& 0xFFFFFF
  let s := pushDispatchFrame W.bus (BitVec.ofNat 32 (insn.addr &&& 0xFFFFFF)) t.s.cpu ptr.2
  (∀ fp, cpuDispatchFind W.table s.1 pc24 = some fp →
    (fp { s.1 with hostReturnValid := 2 } s.2).1 = recompReturnNormal ∧
      (fp { s.1 with hostReturnValid := 2 } s.2).2.1.S = s.1.S + 2) ∧
  (cpuDispatchFind W.table s.1 pc24 = none →
    (interpBridgeRunEx W.bus W.table W.stepCap (pc24 &&& 0xFFFFFF) s.1.S s.1 s.2).1 = true →
      (interpBridgeRunEx W.bus W.table W.stepCap (pc24 &&& 0xFFFFFF) s.1.S s.1 s.2).2.1.S = s.1.S + 2)

/-- The call through a pointer in RAM goes on with the stack as it was. -/
def RuntimeExact (insn : Insn) (t : HostState M) : Prop :=
  let o := (EmitCtx.emitRuntimeDispatch insn).run (W.action l) (W.test l) t
  o.1 = .next ∧ o.2.s.cpu.S = t.s.cpu.S

/-! ### Handlers -/

section Handlers

variable {W l} {callee : Nat → Callee}

theorem prologue_pb (c : Callee) (pending : Option Locals) (s : EmitState M) (pb : Byte) :
    (c.prologue pending { s with cpu := { s.cpu with PB := pb } }).1 = (c.prologue pending s).1 := by
  unfold Callee.prologue enter
  cases c.takes <;> cases pending <;> rfl

/-- A balanced handler, in its bank. -/
theorem runHandler_balanced {insn : Insn} {d : Dispatch} {t : HostState M}
    (hb : BalancedHandlers W l callee insn d t) {e : Nat} (he : e ∈ d.entries)
    {survivors : Option (List (Bool × Bool))} (hsurvivors : survivors ≠ some []) (inherit : Bool)
    (s : EmitState M) : (W.runHandler l (e &&& 0xFFFFFF) survivors inherit s).1 = recompReturnNormal ∧
      (W.runHandler l (e &&& 0xFFFFFF) survivors inherit s).2.cpu.S =
        (handlerContext l (callee (e &&& 0xFFFFFF)) inherit s).entryS +
          (handlerContext l (callee (e &&& 0xFFFFFF)) inherit s).hrv.setWidth 16 := by
  have hbody : ∀ variant, (W.bodies (if inherit then some l else none) (e &&& 0xFFFFFF) variant
      { s with cpu := { s.cpu with PB := targetBank (e &&& 0xFFFFFF) } }).2.cpu.S =
        (handlerContext l (callee (e &&& 0xFFFFFF)) inherit s).entryS +
          (handlerContext l (callee (e &&& 0xFFFFFF)) inherit s).hrv.setWidth 16 := by
    intro variant
    rw [hb.level e he, prologue_pb]
    rfl
  cases survivors with
  | none => exact ⟨hb.normal e he _ _ _, hbody _⟩
  | some vs =>
    obtain ⟨v, hv⟩ := dispatchVariant_isSome s.cpu.mFlag s.cpu.xFlag fun h => hsurvivors (congrArg some h)
    have hrun : W.runHandler l (e &&& 0xFFFFFF) (some vs) inherit s = withSavedPb (targetBank (e &&& 0xFFFFFF))
        (W.bodies (if inherit then some l else none) (e &&& 0xFFFFFF) v) s := by
      unfold HostWorld.runHandler withSavedPb
      simp only [hv]
    rw [hrun]
    exact ⟨hb.normal e he _ _ _, hbody _⟩

end Handlers

/-! ### Texts -/

section Texts

variable {W l} {t u : HostState M} {ctx : EmitCtx} {insn : Insn} {d : Dispatch}

theorem run_switch_some {α : Type} {value : α → Nat} {text : α → HostText} {default : HostText} {a : α} :
    ∀ as : List α, as.find? (fun a => decide (t.idx.toNat = value a)) = some a →
      (EmitCtx.switchText (as.map fun a => (.caseIs (value a), text a)) default).run (W.action l) (W.test l) t =
        (text a).run (W.action l) (W.test l) t := by
  intro as
  induction as with
  | nil => intro h; cases h
  | cons b as ih =>
    intro h
    rw [List.find?_cons] at h
    rw [List.map_cons, EmitCtx.switchText, Text.run]
    by_cases hb : t.idx.toNat = value b
    · rw [decide_eq_true hb] at h
      obtain rfl := Option.some.inj h
      exact if_pos (decide_eq_true hb)
    · rw [decide_eq_false hb] at h
      rw [if_neg (by rw [HostWorld.test, decide_eq_true_eq]; exact hb)]
      exact ih h

theorem run_switch_none {α : Type} {value : α → Nat} {text : α → HostText} {default : HostText} :
    ∀ as : List α, as.find? (fun a => decide (t.idx.toNat = value a)) = none →
      (EmitCtx.switchText (as.map fun a => (.caseIs (value a), text a)) default).run (W.action l) (W.test l) t =
        default.run (W.action l) (W.test l) t := by
  intro as
  induction as with
  | nil => intro _; rfl
  | cons b as ih =>
    intro h
    rw [List.find?_cons] at h
    rw [List.map_cons, EmitCtx.switchText, Text.run]
    by_cases hb : t.idx.toNat = value b
    · rw [decide_eq_true hb] at h
      cases h
    · rw [decide_eq_false hb] at h
      rw [if_neg (by rw [HostWorld.test, decide_eq_true_eq]; exact hb)]
      exact ih h

/-- The state behind the handler of an entry. -/
def handled (W : HostWorld M) (l : Locals) (ctx : EmitCtx) (d : Dispatch) (inherit : Bool) (e : Nat)
    (t : HostState M) : HostState M :=
  W.action l (ctx.handlerAct d inherit e) t

theorem handled_balanced {callee : Nat → Callee} (hb : BalancedHandlers W l callee insn d u) (inherit : Bool)
    {e : Nat} (he : e ∈ d.entries) :
    (handled W l ctx d inherit e t).r = recompReturnNormal ∧ (handled W l ctx d inherit e t).s.cpu.S =
      (handlerContext l (callee (e &&& 0xFFFFFF)) inherit t.s).entryS +
        (handlerContext l (callee (e &&& 0xFFFFFF)) inherit t.s).hrv.setWidth 16 := by
  refine runHandler_balanced hb he ?_ inherit t.s
  split
  · exact fun h => by cases h
  · exact fun h => validVariantList_ne_nil ctx.maps _ (Option.some.inj h)

theorem run_hit {falls inherit : Bool} {e : Nat} (h : (handled W l ctx d inherit e t).r = recompReturnNormal) :
    (ctx.hitText d falls inherit e).run (W.action l) (W.test l) t =
      (if falls then .next else .leave (.normal .dispatched), handled W l ctx d inherit e t) := by
  have htest : W.test l .skipping (handled W l ctx d inherit e t) = false := by
    rw [HostWorld.test, h]
    simp
  cases falls <;>
    simp only [EmitCtx.hitText, EmitCtx.propagateText, Text.seqs, Text.run] <;>
    rw [show W.action l (ctx.handlerAct d inherit e) t = handled W l ctx d inherit e t from rfl, htest] <;>
    rfl

theorem run_atSite (load : HostAct) (rest : HostText) :
    (Text.seq (.act (.enterDispatch (insn.mnem = .jsr) d.call (insn.addr &&& 0xFFFFFF))) (.seq (.act load)
        (.seq (if d.terminal then .act .forceNarrow else .skip) rest))).run (W.action l) (W.test l) t =
      rest.run (W.action l) (W.test l) (atSite W l insn d load t) := by
  unfold atSite framed
  cases d.terminal <;> rfl

/-- What the lines of a switch come to: the handler of the entry it selects, or the arm for a miss. -/
structure SiteRun (W : HostWorld M) (l : Locals) (ctx : EmitCtx) (d : Dispatch) (falls inherit : Bool)
    (entry : Option Nat) (last : HostRet) (v : HostState M) (o : Ending HostRet Label × HostState M) : Prop where
  mem : ∀ e, entry = some e → e ∈ d.entries
  hit : ∀ e, entry = some e → o = (if falls then .next else .leave (.normal .dispatched), handled W l ctx d inherit e v)
  missed : entry = none → falls = true → o = (.next, W.action l .unpopFrame v)
  left : entry = none → falls = false → o = (.leave last, v)

/-- Each value once is a choice of entries. -/
theorem mem_of_find?_firstCases {value : Nat → Nat} {v e : Nat} {es : List Nat}
    (h : (EmitCtx.firstCases value es []).find? (fun e => decide (v = value e)) = some e) : e ∈ es := by
  simp only [eq_comm (a := v)] at h
  rw [find?_firstCases value v es [] List.not_mem_nil] at h
  exact List.mem_of_find?_eq_some h

theorem siteRun_pointer {callee : Nat → Callee} (hb : BalancedHandlers W l callee insn d u) (indexed : Bool) :
    SiteRun W l ctx d (fallsThrough insn d) false
      ((EmitCtx.firstCases (caseValue d) (d.entries.filter (· ≠ 0)) []).find? fun e =>
        decide ((loadTarget W.bus insn d.long indexed (d.idxReg.getD .x) (framed W l insn d t).s.cpu
          (framed W l insn d t).s.mem).1.toNat = caseValue d e))
      (.interpTier true (insn.addr &&& 0xFFFFFF))
      (atSite W l insn d (.loadPointer insn d.long indexed (d.idxReg.getD .x)) t)
      ((ctx.pointerSwitchText insn d indexed).run (W.action l) (W.test l) t) := by
  have htext : ctx.pointerSwitchText insn d indexed =
      .seq (.act (.enterDispatch (insn.mnem = .jsr) d.call (insn.addr &&& 0xFFFFFF)))
        (.seq (.act (.loadPointer insn d.long indexed (d.idxReg.getD .x)))
          (.seq (if d.terminal then .act .forceNarrow else .skip)
            (.seq (EmitCtx.switchText ((EmitCtx.firstCases (caseValue d) (d.entries.filter (· ≠ 0)) []).map fun e =>
                (.caseIs (caseValue d e), ctx.hitText d (fallsThrough insn d) false e))
                (if fallsThrough insn d then EmitCtx.missText true (insn.addr &&& 0xFFFFFF) else .skip))
              (.seq (if fallsThrough insn d then .skip
                else .seqs [.act .trapOob, .ret (.interpTier true (insn.addr &&& 0xFFFFFF))]) .skip)))) := rfl
  have hidx := @atSite_idx M W l insn d t (.loadPointer insn d.long indexed (d.idxReg.getD .x))
  rw [htext, run_atSite]
  generalize atSite W l insn d (.loadPointer insn d.long indexed (d.idxReg.getD .x)) t = v at hidx ⊢
  have hload : v.idx = (loadTarget W.bus insn d.long indexed (d.idxReg.getD .x) (framed W l insn d t).s.cpu
    (framed W l insn d t).s.mem).1 := hidx
  rw [← hload]
  have hmem : ∀ e, (EmitCtx.firstCases (caseValue d) (d.entries.filter (· ≠ 0)) []).find? (fun e =>
      decide (v.idx.toNat = caseValue d e)) = some e → e ∈ d.entries :=
    fun e he => List.mem_of_mem_filter (mem_of_find?_firstCases he)
  constructor
  · exact hmem
  · intro e he
    rw [Text.run, run_switch_some _ he, run_hit (handled_balanced hb false (hmem e he)).1]
    cases fallsThrough insn d <;> rfl
  · intro he hfalls
    rw [Text.run, run_switch_none _ he, hfalls]
    rfl
  · intro he hfalls
    rw [Text.run, run_switch_none _ he, hfalls]
    rfl

theorem siteRun_index {callee : Nat → Callee} (hb : BalancedHandlers W l callee insn d u) :
    SiteRun W l ctx d (fallsThrough insn d) (!fallsThrough insn d)
      (d.entries[(idxField t.s.cpu (d.idxReg.getD .x)).toNat /
        (if 2 ≤ d.tableBases.length then 1 else if d.long then 3 else 2)]?.filter (· ≠ 0))
      (.abandon (insn.addr &&& 0xFFFFFF))
      (atSite W l insn d (.loadIndex (d.idxReg.getD .x)
        (if 2 ≤ d.tableBases.length then 1 else if d.long then 3 else 2)) t)
      ((ctx.indexSwitchText insn d).run (W.action l) (W.test l) t) := by
  generalize hsize : (if 2 ≤ d.tableBases.length then 1 else if d.long then 3 else 2) = size
  have htext : ctx.indexSwitchText insn d =
      .seq (.act (.enterDispatch (insn.mnem = .jsr) d.call (insn.addr &&& 0xFFFFFF)))
        (.seq (.act (.loadIndex (d.idxReg.getD .x) size))
          (.seq (if d.terminal then .act .forceNarrow else .skip)
            (.seq (.ite (.idxOob d.entries.length) (EmitCtx.missText (fallsThrough insn d) (insn.addr &&& 0xFFFFFF)) .skip)
              (.seq (EmitCtx.switchText (d.entries.zipIdx.map fun e => (.caseIs e.2,
                  if e.1 = 0 then EmitCtx.missText (fallsThrough insn d) (insn.addr &&& 0xFFFFFF)
                  else ctx.hitText d (fallsThrough insn d) (!fallsThrough insn d) e.1)) .skip)
                (.seq (if fallsThrough insn d then .skip
                  else .seqs [.act .trapOob, .ret (.abandon (insn.addr &&& 0xFFFFFF))]) .skip))))) := by
    rw [← hsize]
    rfl
  have hidx := @atSite_idx M W l insn d t (.loadIndex (d.idxReg.getD .x) size)
  rw [htext, run_atSite]
  generalize atSite W l insn d (.loadIndex (d.idxReg.getD .x) size) t = v at hidx ⊢
  have hto : v.idx.toNat = (idxField t.s.cpu (d.idxReg.getD .x)).toNat / size := by
    have hload : v.idx = BitVec.ofNat 32 ((idxField (framed W l insn d t).s.cpu (d.idxReg.getD .x)).toNat / size) :=
      hidx
    have hlt := (idxField t.s.cpu (d.idxReg.getD .x)).isLt
    have hle := Nat.div_le_self (idxField t.s.cpu (d.idxReg.getD .x)).toNat size
    rw [hload, framed_idxField, BitVec.toNat_ofNat]
    exact Nat.mod_eq_of_lt (Nat.lt_of_le_of_lt hle (by omega))
  rw [← hto]
  have hfind := find?_zipIdx v.idx.toNat d.entries 0
  rw [Nat.zero_add] at hfind
  by_cases hoob : d.entries.length ≤ v.idx.toNat
  · have htest : W.test l (.idxOob d.entries.length) v = true := decide_eq_true hoob
    have hnone := List.getElem?_eq_none hoob
    rw [hnone] at hfind ⊢
    constructor
    · intro e he
      cases he
    · intro e he
      cases he
    · intro _ hfalls
      have hunpop : (W.action l .unpopFrame v).idx = v.idx := rfl
      rw [← hunpop] at hfind
      rw [Text.run, Text.run, if_pos htest, hfalls]
      show (Text.seq _ _).run _ _ (W.action l .unpopFrame v) = _
      rw [Text.run, run_switch_none _ hfind]
      rfl
    · intro _ hfalls
      rw [Text.run, Text.run, if_pos htest, hfalls]
      rfl
  · have htest : ¬ W.test l (.idxOob d.entries.length) v = true := by
      rw [HostWorld.test, decide_eq_true_eq]
      exact hoob
    have hguard : ∀ (a rest : HostText), (Text.seq (.ite (.idxOob d.entries.length) a .skip) rest).run
        (W.action l) (W.test l) v = rest.run (W.action l) (W.test l) v := by
      intro a rest
      rw [Text.run, Text.run, if_neg htest]
      rfl
    have hsome : d.entries[v.idx.toNat]? = some d.entries[v.idx.toNat] :=
      List.getElem?_eq_getElem (by omega)
    have hmem := List.mem_of_getElem? hsome
    generalize d.entries[v.idx.toNat] = entry at hsome hmem
    rw [hsome] at hfind ⊢
    rw [hguard, Text.run, run_switch_some _ hfind]
    by_cases hnull : entry = 0
    · subst hnull
      constructor
      · intro e he
        cases he
      · intro e he
        cases he
      · intro _ hfalls
        rw [hfalls]
        rfl
      · intro _ hfalls
        rw [hfalls]
        rfl
    · have hfilter : (some entry).filter (fun x => decide (x ≠ 0)) = some entry := by simp [hnull]
      rw [hfilter]
      simp only [if_neg hnull]
      constructor
      · intro e he
        obtain rfl := Option.some.inj he
        exact hmem
      · intro e he
        obtain rfl := Option.some.inj he
        rw [run_hit (handled_balanced hb _ hmem).1]
        cases fallsThrough insn d <;> rfl
      · intro he
        cases he
      · intro he
        cases he

/-- Every site but a computed goto. -/
theorem siteRun_dispatch {callee : Nat → Callee} (hb : BalancedHandlers W l callee insn d u)
    (hlocal : d.localGoto = false) :
    ∃ (last : HostRet) (v : HostState M), v.s.cpu.S = (framed W l insn d t).s.cpu.S ∧
      v.s.cpu.hostReturnValid = (framed W l insn d t).s.cpu.hostReturnValid ∧
      (fallsThrough insn d = false →
        if pointerSite insn d = some false then last = .interpTier true (insn.addr &&& 0xFFFFFF) ∧
          v = atSite W l insn d (.loadPointer insn d.long false (d.idxReg.getD .x)) t
        else last = .abandon (insn.addr &&& 0xFFFFFF)) ∧
      SiteRun W l ctx d (fallsThrough insn d) (!fallsThrough insn d && (pointerSite insn d).isNone)
        (siteEntry W l insn d t) last v ((ctx.emitIndirectDispatch insn d).run (W.action l) (W.test l) t) := by
  have hnot : ¬ d.localGoto = true := by
    rw [hlocal]
    decide
  rw [EmitCtx.emitIndirectDispatch, if_neg hnot, siteEntry, if_neg hnot]
  by_cases hform : insn.mode = .indir ∧ d.tableBases.length = 1
  · have hsite : pointerSite insn d = some false := if_pos hform
    rw [if_pos hform, hsite, Option.isNone_some, Bool.and_false]
    refine ⟨_, _, (atSite_cpu fun _ => rfl).1, (atSite_cpu fun _ => rfl).2, fun _ => ?_, siteRun_pointer hb false⟩
    rw [if_pos rfl]
    exact ⟨rfl, rfl⟩
  · rw [if_neg hform]
    by_cases hindexed : insn.mnem = .jsr ∧ d.call = true ∧ insn.mode = .indirX ∧ d.tableBases.length = 1
    · have hsite : pointerSite insn d = some true := by
        rw [pointerSite, if_neg hform, if_pos hindexed]
      rw [if_pos hindexed, hsite, Option.isNone_some, Bool.and_false]
      refine ⟨_, _, (atSite_cpu fun _ => rfl).1, (atSite_cpu fun _ => rfl).2, fun h => ?_, siteRun_pointer hb true⟩
      rw [fallsThrough, decide_eq_true hindexed.1] at h
      cases h
    · have hsite : pointerSite insn d = none := by
        rw [pointerSite, if_neg hform, if_neg hindexed]
      rw [if_neg hindexed, hsite, Option.isNone_none, Bool.and_true]
      exact ⟨_, _, (atSite_cpu fun _ => rfl).1, (atSite_cpu fun _ => rfl).2, fun _ => rfl, siteRun_index hb⟩

/-- A computed goto. -/
theorem run_localGoto (hlocal : d.localGoto = true) :
    (∀ e, siteEntry W l insn d t = some e →
      (ctx.emitIndirectDispatch insn d).run (W.action l) (W.test l) t =
        (.jump (e &&& 0xFFFF, insn.mFlag, insn.xFlag), W.action l (.loadPointer insn false false .x) t)) ∧
    (siteEntry W l insn d t = none → (ctx.emitIndirectDispatch insn d).run (W.action l) (W.test l) t =
      (.leave (.interpTier true (insn.addr &&& 0xFFFFFF)), W.action l (.loadPointer insn false false .x) t)) := by
  have htext : ctx.emitIndirectDispatch insn d = .seq (.act (.loadPointer insn false false .x))
      (.seq (EmitCtx.switchText ((localEntries insn d).map fun e =>
          (.caseIs (e &&& 0xFFFF), .goto (e &&& 0xFFFF, insn.mFlag, insn.xFlag)))
        (.seqs [.act .trapOob, .ret (.interpTier true (insn.addr &&& 0xFFFFFF))])) .skip) := if_pos hlocal
  have hidx : (loadTarget W.bus insn false false .x t.s.cpu t.s.mem).1 =
    (W.action l (.loadPointer insn false false .x) t).idx := rfl
  rw [siteEntry, if_pos hlocal, htext, hidx]
  constructor
  · intro e he
    show (Text.seq (EmitCtx.switchText _ _) .skip).run _ _ (W.action l (.loadPointer insn false false .x) t) = _
    rw [Text.run, run_switch_some _ he]
    rfl
  · intro he
    show (Text.seq (EmitCtx.switchText _ _) .skip).run _ _ (W.action l (.loadPointer insn false false .x) t) = _
    rw [Text.run, run_switch_none _ he]
    rfl

end Texts

/-! ### Levels -/

section Levels

variable {l} {s : EmitState M}

/-- A handler that is called lands behind its frame of two bytes. -/
theorem called_lands_iff (c : Callee) (hhrv : s.cpu.hostReturnValid = 2) :
    (handlerContext l c false s).entryS + (handlerContext l c false s).hrv.setWidth 16 = s.cpu.S + 2 ↔
      BitVec.ofInt 16 c.offset = 0 := by
  have hcontext : handlerContext l c false s = ⟨s.cpu.S + BitVec.ofInt 16 c.offset, 2⟩ := by
    rw [handlerContext, if_neg Bool.false_ne_true, prologue_none, enter, hhrv]
  have htwo : ((2 : Byte).setWidth 16 : Word) = 2 := rfl
  rw [hcontext, htwo]
  generalize BitVec.ofInt 16 c.offset = off
  bv_omega

/-- A handler that ends the function lands behind the frame of the caller. -/
theorem left_lands_iff (c : Callee) (inherit : Bool) (hhrv : s.cpu.hostReturnValid = l.hrv) :
    (handlerContext l c inherit s).entryS + (handlerContext l c inherit s).hrv.setWidth 16 =
        l.entryS + l.hrv.setWidth 16 ↔
      (inherit = true ∧ c.takes = true) ∨ s.cpu.S + BitVec.ofInt 16 c.offset = l.entryS := by
  rw [← handlerContext_eq_iff l c inherit hhrv]
  have hlevel : (handlerContext l c inherit s).hrv = l.hrv := by
    unfold handlerContext
    cases htakes : c.takes with
    | false =>
      rw [prologue_of_not_takes htakes]
      exact hhrv
    | true =>
      rw [prologue_of_takes htakes]
      cases inherit with
      | false => exact hhrv
      | true => rfl
  rw [hlevel]
  constructor
  · intro h
    have hentry : (handlerContext l c inherit s).entryS = l.entryS := by bv_omega
    calc handlerContext l c inherit s = ⟨(handlerContext l c inherit s).entryS,
          (handlerContext l c inherit s).hrv⟩ := rfl
      _ = l := by rw [hentry, hlevel]
  · intro h
    rw [h]

end Levels

/-- An abandoned function lands behind a frame of a known size. -/
theorem abandon_lands_iff :
    l.entryS + (if l.hrv = 1 then 0 else l.hrv).setWidth 16 = l.entryS + l.hrv.setWidth 16 ↔ l.hrv ≠ 1 := by
  by_cases hhrv : l.hrv = 1
  · rw [if_pos hhrv, hhrv]
    refine iff_of_false ?_ fun h => h rfl
    have hone : ((1 : Byte).setWidth 16 : Word) = 1 := rfl
    have hzero : ((0 : Byte).setWidth 16 : Word) = 0 := rfl
    rw [hone, hzero]
    bv_omega
  · rw [if_neg hhrv]
    exact iff_of_true rfl hhrv

/-- A target that the interpreter is given lands where its return pops the frame, or is abandoned. -/
theorem interpTier_lands_iff {loaded : Bool} {site : Nat} {u : HostState M} {S : Word} {run : Bool × CpuState × M}
    (hrun : interpBridgeRunEx W.bus W.table W.stepCap (u.tierTarget loaded site &&& 0xFFFFFF) l.entryS
      u.s.cpu u.s.mem = run) (hlevel : run.1 = true → run.2.1.S = S + l.hrv.setWidth 16) :
    (W.leave l (.interpTier loaded site) u).1 = recompReturnNormal ∧
      ((W.leave l (.interpTier loaded site) u).2.cpu.S = l.entryS + l.hrv.setWidth 16 ↔
        if run.1 then S = l.entryS else l.hrv ≠ 1) := by
  simp only [HostWorld.leave, ofCompiled, interpTierDispatchBalanced, orAbandon, hrun]
  cases hreturns : run.1 with
  | true =>
    rw [if_pos rfl, if_pos rfl, hlevel hreturns]
    refine ⟨rfl, ?_⟩
    bv_omega
  | false =>
    rw [if_neg Bool.false_ne_true, if_neg Bool.false_ne_true]
    exact ⟨rfl, abandon_lands_iff l⟩

section Sites

variable {W l} {callee : Nat → Callee} {ctx : EmitCtx} {insn : Insn} {d : Dispatch} {t : HostState M}

theorem stackExact_goto (hb : BalancedHandlers W l callee insn d t) (hlocal : d.localGoto = true) :
    StackExact W l ctx insn d t ↔
      (∀ e, siteEntry W l insn d t = some e → LandsExactly l callee insn d t.s.cpu.S e) ∧
        MissLands W l insn d t := by
  obtain ⟨hgoto, hmiss⟩ := @run_localGoto M W l t ctx insn d hlocal
  unfold StackExact
  dsimp only
  cases hentry : siteEntry W l insn d t with
  | some e =>
    rw [hgoto e hentry, if_pos ⟨hlocal, by simp⟩]
    refine iff_of_true ⟨⟨_, rfl⟩, rfl⟩ ⟨fun _ _ => ?_, fun h => ?_⟩
    · rw [LandsExactly, if_pos hlocal]
      trivial
    · rw [hentry] at h
      cases h
  | none =>
    have hreturns : missReturns W l insn d t = (interpretedMiss W l insn d t).1 := by
      rw [missReturns, hlocal]
      rfl
    have hrun : interpretedMiss W l insn d t = interpBridgeRunEx W.bus W.table W.stepCap
        ((W.action l (.loadPointer insn false false .x) t).tierTarget true (insn.addr &&& 0xFFFFFF) &&& 0xFFFFFF)
        l.entryS (W.action l (.loadPointer insn false false .x) t).s.cpu
        (W.action l (.loadPointer insn false false .x) t).s.mem := by
      simp only [interpretedMiss, if_pos hlocal]
    obtain ⟨hnormal, hlands⟩ := interpTier_lands_iff W l hrun.symm
      fun h => hb.interpreted hentry (hreturns.trans h)
    have hnot : ¬ (d.localGoto = false ∧ fallsThrough insn d = true) := by
      rintro ⟨h, -⟩
      rw [hlocal] at h
      cases h
    rw [hmiss hentry, if_neg (fun h => h.2 rfl), if_neg hnot]
    constructor
    · rintro ⟨r, hr, -, h⟩
      obtain rfl := Ending.leave.inj hr
      refine ⟨fun e he => (by cases he), fun _ _ => ?_⟩
      rw [hreturns]
      exact hlands.mp h
    · rintro ⟨-, h⟩
      have hmissed := h hentry (Or.inl hlocal)
      rw [hreturns] at hmissed
      exact ⟨_, rfl, hnormal, hlands.mpr hmissed⟩

theorem stackExact_called (hb : BalancedHandlers W l callee insn d t) (hlocal : d.localGoto = false)
    (hfalls : fallsThrough insn d = true) :
    StackExact W l ctx insn d t ↔
      (∀ e, siteEntry W l insn d t = some e → LandsExactly l callee insn d t.s.cpu.S e) ∧
        MissLands W l insn d t := by
  obtain ⟨last, v, hS, hvalid, -, hrun⟩ := @siteRun_dispatch M W l t t ctx insn d callee hb hlocal
  obtain ⟨hframe, hframeHrv⟩ := @framed_cpu M W l insn d t
  have hnotGoto : ¬ (d.localGoto = true ∧ siteEntry W l insn d t ≠ none) := by
    rw [hlocal]
    exact fun h => Bool.false_ne_true h.1
  have hmiss : MissLands W l insn d t := by
    rintro - (h | h)
    · rw [hlocal] at h
      cases h
    · rw [hfalls] at h
      cases h
  have hlands : ∀ e, LandsExactly l callee insn d t.s.cpu.S e ↔
      BitVec.ofInt 16 (callee (e &&& 0xFFFFFF)).offset = 0 := by
    intro e
    rw [LandsExactly, hlocal, if_neg Bool.false_ne_true, hfalls, if_pos rfl]
  unfold StackExact
  generalize (ctx.emitIndirectDispatch insn d).run (W.action l) (W.test l) t = o at hrun ⊢
  dsimp only
  rw [hfalls] at hrun hframeHrv
  have hlevel : (if insn.mnem = .jsr then t.s.cpu.S else t.s.cpu.S + 2) = v.s.cpu.S + 2 := by
    rw [hS, hframe]
    split
    · exact (BitVec.sub_add_cancel _ _).symm
    · rfl
  rw [if_neg hnotGoto, if_pos ⟨hlocal, hfalls⟩, hlevel]
  simp only [hlands, and_iff_left hmiss]
  cases hentry : siteEntry W l insn d t with
  | none =>
    rw [hrun.missed hentry rfl]
    refine iff_of_true ⟨rfl, rfl⟩ fun e he => ?_
    cases he
  | some e =>
    obtain rfl := hrun.hit e hentry
    have hlevel' := (@handled_balanced M W l v t ctx insn d callee hb false e (hrun.mem e hentry)).2
    have hiff := @called_lands_iff M l v.s (callee (e &&& 0xFFFFFF)) (hvalid.trans (hframeHrv.trans (if_pos rfl)))
    constructor
    · rintro ⟨-, h⟩ e' he'
      obtain rfl := Option.some.inj he'
      exact hiff.mp (hlevel'.symm.trans h)
    · intro h
      exact ⟨rfl, hlevel'.trans (hiff.mpr (h e rfl))⟩

theorem stackExact_left (hb : BalancedHandlers W l callee insn d t) (hlocal : d.localGoto = false)
    (hfalls : fallsThrough insn d = false) :
    StackExact W l ctx insn d t ↔
      (∀ e, siteEntry W l insn d t = some e → LandsExactly l callee insn d t.s.cpu.S e) ∧
        MissLands W l insn d t := by
  obtain ⟨last, v, hS, hvalid, hlast, hrun⟩ := @siteRun_dispatch M W l t t ctx insn d callee hb hlocal
  obtain ⟨hframe, hframeHrv⟩ := @framed_cpu M W l insn d t
  have hjsr : ¬ insn.mnem = .jsr := by
    intro h
    rw [fallsThrough, decide_eq_true h] at hfalls
    cases hfalls
  have hnotGoto : ¬ (d.localGoto = true ∧ siteEntry W l insn d t ≠ none) := by
    rw [hlocal]
    exact fun h => Bool.false_ne_true h.1
  have hnotCalled : ¬ (d.localGoto = false ∧ fallsThrough insn d = true) := by
    rw [hfalls]
    exact fun h => Bool.false_ne_true h.2
  unfold StackExact
  generalize (ctx.emitIndirectDispatch insn d).run (W.action l) (W.test l) t = o at hrun ⊢
  dsimp only
  rw [hfalls] at hrun hframeHrv
  rw [if_neg hjsr] at hframe
  rw [if_neg hnotGoto, if_neg hnotCalled]
  cases hentry : siteEntry W l insn d t with
  | none =>
    have hmissed : MissLands W l insn d t ↔ if missReturns W l insn d t then t.s.cpu.S = l.entryS else l.hrv ≠ 1 :=
      ⟨fun h => h hentry (Or.inr hfalls), fun h _ _ => h⟩
    have hleave : (W.leave l last v).1 = recompReturnNormal ∧
        ((W.leave l last v).2.cpu.S = l.entryS + l.hrv.setWidth 16 ↔ MissLands W l insn d t) := by
      rw [hmissed]
      have hlast := hlast hfalls
      by_cases hsite : pointerSite insn d = some false
      · rw [if_pos hsite] at hlast
        obtain ⟨rfl, rfl⟩ := hlast
        have hreturns : missReturns W l insn d t = (interpretedMiss W l insn d t).1 := by
          rw [missReturns, decide_eq_true hsite, Bool.or_true, Bool.true_and]
        have hinterp : interpretedMiss W l insn d t = interpBridgeRunEx W.bus W.table W.stepCap
            ((atSite W l insn d (.loadPointer insn d.long false (d.idxReg.getD .x)) t).tierTarget true
              (insn.addr &&& 0xFFFFFF) &&& 0xFFFFFF)
            l.entryS (atSite W l insn d (.loadPointer insn d.long false (d.idxReg.getD .x)) t).s.cpu
            (atSite W l insn d (.loadPointer insn d.long false (d.idxReg.getD .x)) t).s.mem := by
          simp only [interpretedMiss, hlocal, Bool.false_eq_true, if_false]
        rw [hreturns]
        exact interpTier_lands_iff W l hinterp.symm fun h => hb.interpreted hentry (hreturns.trans h)
      · rw [if_neg hsite] at hlast
        subst hlast
        have hreturns : missReturns W l insn d t = false := by
          rw [missReturns, hlocal, decide_eq_false hsite]
          rfl
        rw [hreturns, if_neg Bool.false_ne_true]
        exact ⟨rfl, abandon_lands_iff l⟩
    rw [hrun.left hentry rfl]
    constructor
    · rintro ⟨r, hr, -, h⟩
      obtain rfl := Ending.leave.inj hr
      exact ⟨fun e he => (by cases he), hleave.2.mp h⟩
    · rintro ⟨-, h⟩
      exact ⟨_, rfl, hleave.1, hleave.2.mpr h⟩
  | some e =>
    have hmiss : MissLands W l insn d t := by
      intro h
      rw [hentry] at h
      cases h
    obtain rfl := hrun.hit e hentry
    have hlevel := (@handled_balanced M W l v t ctx insn d callee hb (pointerSite insn d).isNone e
      (hrun.mem e hentry)).2
    have hiff := left_lands_iff (callee (e &&& 0xFFFFFF)) (pointerSite insn d).isNone
      (hvalid.trans (hframeHrv.trans (if_neg Bool.false_ne_true)))
    rw [hS, hframe, Option.isNone_iff_eq_none] at hiff
    have hlands : LandsExactly l callee insn d t.s.cpu.S e ↔ KeepsContext l callee insn d t.s.cpu.S e := by
      rw [LandsExactly, hlocal, if_neg Bool.false_ne_true, hfalls, if_neg Bool.false_ne_true]
    constructor
    · rintro ⟨r, hr, -, h⟩
      obtain rfl := Ending.leave.inj hr
      refine ⟨fun e' he' => ?_, hmiss⟩
      obtain rfl := Option.some.inj he'
      exact hlands.mpr (hiff.mp (hlevel.symm.trans h))
    · rintro ⟨h, -⟩
      exact ⟨_, rfl, rfl, hlevel.trans (hiff.mpr (hlands.mp (h e rfl)))⟩

/-- Every site. -/
theorem stackExact_site (hb : BalancedHandlers W l callee insn d t) :
    StackExact W l ctx insn d t ↔
      (∀ e, siteEntry W l insn d t = some e → LandsExactly l callee insn d t.s.cpu.S e) ∧
        MissLands W l insn d t := by
  cases hlocal : d.localGoto with
  | true => exact stackExact_goto hb hlocal
  | false =>
    cases hfalls : fallsThrough insn d with
    | true => exact stackExact_called hb hlocal hfalls
    | false => exact stackExact_left hb hlocal hfalls

/-- The frame of `cpu_dispatch_call_pc` is popped by the body, by the interpreted return, or where
the interpreter has given up. -/
theorem runtime_exact (h : RuntimeBalanced W insn t) : RuntimeExact W l insn t := by
  obtain ⟨hfound, hnone⟩ := h
  have hanswer : (W.action l (.runtimeCall (insn.operand &&& 0xFFFF) (insn.addr &&& 0xFFFFFF) .x) t).r =
        recompReturnNormal ∧
      (W.action l (.runtimeCall (insn.operand &&& 0xFFFF) (insn.addr &&& 0xFFFFFF) .x) t).s.cpu.S = t.s.cpu.S := by
    simp only [HostWorld.action, HostState.answer, ofCompiled, cpuDispatchCallPc, idxField]
    generalize W.bus.read16 t.s.cpu.PB (BitVec.ofNat 16 (insn.operand &&& 0xFFFF) + t.s.cpu.X) t.s.mem = ptr
      at hfound hnone ⊢
    generalize ((t.s.cpu.PB.setWidth 32 <<< 16) ||| ptr.1.setWidth 32 : Addr) &&& 0xFFFFFF = pc24 at hfound hnone ⊢
    have hS : (pushDispatchFrame W.bus (BitVec.ofNat 32 (insn.addr &&& 0xFFFFFF)) t.s.cpu ptr.2).1.S + 2 =
        t.s.cpu.S := by
      show t.s.cpu.S - 1 - 1 + 2 = _
      bv_omega
    generalize pushDispatchFrame W.bus (BitVec.ofNat 32 (insn.addr &&& 0xFFFFFF)) t.s.cpu ptr.2 = s
      at hfound hnone hS ⊢
    cases hfind : cpuDispatchFind W.table s.1 pc24 with
    | some fp =>
      obtain ⟨hnormal, hlevel⟩ := hfound fp hfind
      exact ⟨hnormal, hlevel.trans hS⟩
    | none =>
      refine ⟨rfl, ?_⟩
      simp only [interpTierRunCall]
      split
      next hreturns => exact (hnone hfind hreturns).trans hS
      next => exact hS
  have htest : W.test l .skipping
      (W.action l (.runtimeCall (insn.operand &&& 0xFFFF) (insn.addr &&& 0xFFFFFF) .x) t) = false := by
    rw [HostWorld.test, hanswer.1]
    simp
  have hrun : (EmitCtx.emitRuntimeDispatch insn).run (W.action l) (W.test l) t =
      (.next, W.action l (.runtimeCall (insn.operand &&& 0xFFFF) (insn.addr &&& 0xFFFFFF) .x) t) := by
    simp only [EmitCtx.emitRuntimeDispatch, EmitCtx.propagateText, Text.seqs, Text.run, htest]
    rfl
  unfold RuntimeExact
  rw [hrun]
  exact ⟨rfl, hanswer.2⟩

end Sites

/-- **Every arm of a dispatch leaves the stack as it has to, exactly if the handler it selects
or the miss lands there.** -/
theorem stackExact_iff (callee : Nat → Callee) (ctx : EmitCtx) (insn : Insn) (t : HostState M) :
    (∀ d, BalancedHandlers W l callee insn d t →
      (StackExact W l ctx insn d t ↔
        (∀ e, siteEntry W l insn d t = some e → LandsExactly l callee insn d t.s.cpu.S e) ∧
          MissLands W l insn d t)) ∧
      (RuntimeBalanced W insn t → RuntimeExact W l insn t) :=
  ⟨fun _ => stackExact_site, runtime_exact⟩

/-! ### `JMP ($0010)` with the pointer `$9000` -/

/-- The handlers return behind the frame of their context. -/
def returningWorld : HostWorld Unit :=
  { pointerWorld with
    bodies := fun pending _ _ s =>
      let l := ((Callee.generated 0).prologue pending s).1
      (recompReturnNormal, { s with cpu := { s.cpu with S := l.entryS + l.hrv.setWidth 16 } }) }

theorem returningWorld_balanced (l : Locals) (insn : Insn) (d : Dispatch) (t : HostState Unit) :
    BalancedHandlers returningWorld l (fun _ => .generated 0) insn d t := by
  constructor
  · exact fun _ _ _ _ _ => rfl
  · exact fun _ _ _ _ _ => rfl
  · intro _ h
    have hcapped : (interpretedMiss returningWorld l insn d t).1 = false := rfl
    rw [missReturns, hcapped, Bool.and_false] at h
    cases h

/-- `JSR ($0010,X)`. -/
def jsrPointer : Insn := ⟨0x8001, 0xFC, .jsr, .indirX, 0x10, 3, true, true, false, none⟩

/-- Where the stack is back at its entry level, and through a pointer that the interpreter gives up. -/
theorem stackExact_iff_returned :
    StackExact returningWorld ⟨0x1FF, 2⟩ .bare jmpPointer (oneHandler [0xA000]) (enteredByJsr 0x1FF) ∧
      RuntimeExact returningWorld ⟨0x1FF, 2⟩ jsrPointer (enteredByJsr 0x1FE) := by
  constructor
  · refine ((stackExact_iff returningWorld ⟨0x1FF, 2⟩ (fun _ => .generated 0) .bare jmpPointer (enteredByJsr 0x1FF)).1
      (oneHandler [0xA000]) (returningWorld_balanced _ _ _ _)).mpr ⟨fun e _ => Or.inr ?_, fun _ _ => ?_⟩
    · rfl
    · decide
  · refine (stackExact_iff returningWorld ⟨0x1FF, 2⟩ (fun _ => .generated 0) .bare jsrPointer
      (enteredByJsr 0x1FE)).2 ⟨fun fp h => ?_, fun _ h => ?_⟩
    · cases h
    · cases h

/-- With one byte more on the stack, the handler of the loaded pointer returns below the frame of the
caller. -/
theorem not_stackExact_pushed :
    BalancedHandlers returningWorld ⟨0x1FF, 2⟩ (fun _ => .generated 0) jmpPointer (oneHandler [0xA000])
        (enteredByJsr 0x1FE) ∧
      ¬ StackExact returningWorld ⟨0x1FF, 2⟩ .bare jmpPointer (oneHandler [0xA000]) (enteredByJsr 0x1FE) := by
  refine ⟨returningWorld_balanced _ _ _ _, fun h => ?_⟩
  have hselected : siteEntry returningWorld ⟨0x1FF, 2⟩ jmpPointer (oneHandler [0xA000]) (enteredByJsr 0x1FE) =
    some 0x9000 := by decide
  have hlands := ((stackExact_site (returningWorld_balanced _ _ _ _)).mp h).1 _ hselected
  rcases hlands with ⟨hnone, -⟩ | hlevel
  · cases hnone
  · revert hlevel
    decide

end SnesRecomp.Tiers
