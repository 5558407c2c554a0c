import SnesRecomp.Recompiler.References
import SnesRecomp.Runtime.HostStack
import SnesRecomp.Tiers.ReturnFrames

/-!
# The stack level at a normal return

`HostWorld` gives the lines of a compiled function their meaning: the emitted operations
and calls, the dispatch tables, and at a return the functions of the runtime it calls.

A function that returns normally by itself, and not because a dispatch found a body, must
have popped the frame of its caller.  `exitLevel_of_own`: a return of `RTS` or `RTL` has
popped its own two or three bytes, also where its dispatch finds nothing, and an exit that
abandons has popped what `host_return_valid` says.  The two differ where the caller pushed
a frame of another size (`not_framePopped`).
-/

namespace SnesRecomp.Tiers

open Recompiler

variable {M : Type}

/-! ### What the lines do -/

/-- The variables that the lines of a function share, and what they reach.  Callees leave
the stack of recompiled functions as they found it. -/
structure HostState (M : Type) where
  s : EmitState M
  stack : HostStack
  /-- `_ret_s`, the level in front of the pops of a return. -/
  retS : Word
  rpc24 : BitVec 32
  ancSkip : Int
  /-- `_r`, `_disp_r` or `_tc`. -/
  r : RecompReturn
  /-- `_idx` or `_target`. -/
  idx : BitVec 32
  /-- The context that `cpu_tailcall_inherit_return_context` stored. -/
  pending : Option Locals

/-- What the functions of a program run on and call. -/
structure HostWorld (M : Type) where
  bus : Bus M
  table : DispatchTable M
  stepCap : Nat
  /-- The compiled functions, with the return context that a tail call hands on. -/
  bodies : Option Locals → Nat → Bool × Bool → Body M
  /-- The host functions that the cfg names. -/
  helpers : Nat → Body M

/-- The answer of the function that a call enters. -/
def callAnswer (bus : Bus M) (bodies : Nat → Bool × Bool → Body M) : CallCode → Body M
  | .skipped, s => (recompReturnNormal, s)
  | .pinned long target variant, s => invoke long target (bodies target variant) s
  | .switched long site target survivors, s =>
    invoke long target (fun s =>
      match dispatchVariant survivors s.cpu.mFlag s.cpu.xFlag with
      | some variant => bodies target variant s
      | none => (recompReturnNormal, s)) (emitReturnFramePush bus long site s)

theorem runCall_eq (bus : Bus M) (bodies : Nat → Bool × Bool → Body M) (code : CallCode)
    (s : EmitState M) : runCall bus bodies code s = propagate (callAnswer bus bodies code s) := by
  cases code <;> rfl

/-- A body of the dispatch table, which does not see the C locals of its caller. -/
def ofCompiled (f : Compiled M) : Body M := fun s =>
  let r := f s.cpu s.mem
  (r.1, { s with cpu := r.2.1, mem := r.2.2 })

def idxField (cpu : CpuState) : IdxReg → Word
  | .x => cpu.X
  | .y => cpu.Y

/-- The pointer that a dispatch switches on. -/
def loadTarget (bus : Bus M) (insn : Insn) (long indexed : Bool) (idxReg : IdxReg) (cpu : CpuState)
    (m : M) : BitVec 32 × M :=
  let ptr : Word := BitVec.ofNat 16 insn.operand + if indexed then idxField cpu idxReg else 0
  if long then
    let lo := bus.read16 0x00 ptr m
    let bank := bus.read8 0x00 (ptr + 2) lo.2
    ((bank.1.setWidth 32 <<< 16) ||| lo.1.setWidth 32, bank.2)
  else
    let lo := bus.read16 cpu.PB ptr m
    (lo.1.setWidth 32, lo.2)

namespace HostState

def setCpu (t : HostState M) (cpu : CpuState) : HostState M := { t with s := { t.s with cpu := cpu } }

/-- The state after a call, its answer in `_r`. -/
def answer (t : HostState M) (f : Body M) : HostState M :=
  let a := f t.s
  { t with s := a.2, r := a.1 }

/-- The target that an unresolved jump hands to the interpreter. -/
def tierTarget (t : HostState M) (loaded : Bool) (site : Nat) : BitVec 32 :=
  if loaded then (t.s.cpu.PB.setWidth 32 <<< 16) ||| t.idx else BitVec.ofNat 32 site

end HostState

namespace HostWorld

variable (W : HostWorld M) (l : Locals)

/-- A handler in its bank. -/
def runHandler (target : Nat) (survivors : Option (List (Bool × Bool))) (inherit : Bool) : Body M :=
  let bodies := W.bodies (if inherit then some l else none) target
  withSavedPb (targetBank target) fun s =>
    match survivors with
    | none => bodies (true, true) s
    | some survivors =>
      match dispatchVariant survivors s.cpu.mFlag s.cpu.xFlag with
      | some variant => bodies variant s
      | none => (recompReturnNormal, s)

/-- The lines that go on with the next one. -/
def action : HostAct → HostState M → HostState M
  | .pop, t => { t with stack := t.stack.pop }
  | .charge, t | .trapGoto, t | .trapOob, t => t
  | .op op, t => { t with s := execOp W.bus op t.s }
  | .call code, t => t.answer (callAnswer W.bus (W.bodies none) code)
  | .runtimeCall base site idxReg, t =>
    let ptr := W.bus.read16 t.s.cpu.PB (BitVec.ofNat 16 base + idxField t.s.cpu idxReg) t.s.mem
    let pc24 := (t.s.cpu.PB.setWidth 32 <<< 16) ||| ptr.1.setWidth 32
    { t with s := { t.s with mem := ptr.2 } }.answer
      (ofCompiled (cpuDispatchCallPc W.bus W.table W.stepCap pc24 (BitVec.ofNat 32 site)))
  | .popReturn long, t =>
    let popped := popReturn W.bus long t.s
    { t with s := popped.2, retS := t.s.cpu.S, rpc24 := popped.1 }
  | .resolveAncestor, t => { t with ancSkip := t.stack.cpuResolveAncestorSkip t.retS }
  | .popInterrupt, t => { t with s := emitRti W.bus t.s, retS := t.s.cpu.S }
  | .setPb bank, t => t.setCpu { t.s.cpu with PB := BitVec.ofNat 8 bank }
  | .handOn, t => { t.setCpu { t.s.cpu with hostReturnValid := l.hrv } with pending := some l }
  | .tailCall target variant, t =>
    { t with pending := none }.answer (W.bodies t.pending target variant)
  | .helper pc16, t => t.answer (W.helpers pc16)
  | .enterDispatch jsr call site, t =>
    if jsr then { t with s := emitIndirectCallPush W.bus site t.s }
    else t.setCpu { t.s.cpu with hostReturnValid := if call then 2 else l.hrv }
  | .loadPointer insn long indexed idxReg, t =>
    let target := loadTarget W.bus insn long indexed idxReg t.s.cpu t.s.mem
    { t with s := { t.s with mem := target.2 }, idx := target.1 }
  | .loadIndex idxReg entrySize, t =>
    { t with idx := BitVec.ofNat 32 ((idxField t.s.cpu idxReg).toNat / entrySize) }
  | .loadIndexA, t => { t with idx := (loByte t.s.cpu.A).setWidth 32 }
  | .forceNarrow, t => t.setCpu (emitSep 0x30 t.s.cpu)
  | .dispatchReset, t => t.setCpu (dispatchReset t.s.cpu)
  | .handler target survivors inherit, t => t.answer (W.runHandler l target survivors inherit)
  | .unpopFrame, t => t.setCpu { t.s.cpu with S := t.s.cpu.S + 2 }

def test : HostCond → HostState M → Bool
  | .flag reg takeIf, t => decide (readRegField t.s.cpu reg ≠ 0) == takeIf
  | .mode m x, t => decide ((t.s.cpu.mFlag, t.s.cpu.xFlag) = (m, x))
  | .skipping, t => decide (t.r ≠ recompReturnNormal)
  | .balanced, t => decide (l.hrv ≠ 0 ∧ t.retS = l.entryS)
  | .offEntry, t => decide (t.retS ≠ l.entryS)
  | .offEntryMiss, t =>
    decide (t.retS ≠ l.entryS) && !cpuDispatchHasEntry W.table t.s.cpu t.rpc24
  | .ancestorFound, t => decide (0 ≤ t.ancSkip)
  | .idxOob n, t => decide (n ≤ t.idx.toNat)
  | .caseIs v, t => decide (t.idx.toNat = v)

/-- What a return hands to the caller. -/
def leave : HostRet → HostState M → RecompReturn × EmitState M
  | .normal _, t => (recompReturnNormal, t.s)
  | .propagate, t => (t.r - 1, t.s)
  | .ancestor, t => (t.ancSkip, t.s)
  | .result, t => (t.r, t.s)
  | .abandon _, t =>
    ofCompiled (fun cpu m =>
      let a := cpuUnresolvedAbandonBalanced l.entryS l.hrv cpu
      (a.1, a.2, m)) t.s
  | .interpTier loaded site, t =>
    ofCompiled (interpTierDispatchBalanced W.bus W.table W.stepCap (t.tierTarget loaded site)
      l.entryS l.hrv) t.s
  | .dispatchFrom long, t =>
    ofCompiled (cpuDispatchPcFrom W.table t.rpc24 (l.entryS + frameSize long)) t.s

/-- An execution of a function, whatever its prologue made of the locals, up to the return
it is left by. -/
def Exits (F : HostFn) (t : HostState M) (e : HostRet) (u : HostState M) : Prop :=
  F.Runs (W.action l) (W.test l) F.start t e u

end HostWorld

/-! ### Exits -/

/-- The functions that a return falls back on, at a stack of recompiled functions. -/
def HostWorld.returnHost (W : HostWorld M) (stack : HostStack) : ReturnHost M where
  resolveAncestorSkip := stack.cpuResolveAncestorSkip
  dispatchPcFrom pc24 restore := ofCompiled (cpuDispatchPcFrom W.table pc24 restore)

/-- The function returns `RECOMP_RETURN_NORMAL` by itself: it does not hand on what another
function answered, and no dispatch has found a body. -/
def HostWorld.Own (W : HostWorld M) (l : Locals) : HostRet → HostState M → Prop
  | .normal exit, _ => exit ≠ .dispatched
  | .abandon _, _ => True
  | .interpTier loaded site, u =>
    (interpBridgeRunEx W.bus W.table W.stepCap (u.tierTarget loaded site &&& 0xFFFFFF) l.entryS
      u.s.cpu u.s.mem).1 = false
  | .dispatchFrom _, u => cpuDispatchFind W.table u.s.cpu u.rpc24 = none
  | .propagate, _ | .ancestor, _ | .result, _ => False

/-- Wherever the function returns normally by itself, the frame of the paired caller has
been popped. -/
def HostWorld.FramePopped (W : HostWorld M) (l : Locals) (F : HostFn) (t : HostState M) : Prop :=
  ∀ e u, W.Exits l F t e u → W.Own l e u →
    (W.leave l e u).2.cpu.S = l.entryS + l.hrv.setWidth 16

/-- The plain `return RECOMP_RETURN_NORMAL` of an edge or a function without code. -/
def Bare (e : HostRet) : Prop :=
  e = .normal .hleReplaced ∨ e = .normal .invalidJml ∨ e = .normal .noTerminator ∨
    e = .normal .endOfText

/-- `P` and the address, and outside emulation mode the bank. -/
def interruptFrame (cpu : CpuState) : Word := if cpu.emulation then 3 else 4

/-- Where an exit leaves the stack. -/
def exitLevel (l : Locals) (u : HostState M) : HostRet → Word
  | .normal (.hostReturn long) | .dispatchFrom long => l.entryS + frameSize long
  | .abandon _ | .interpTier _ _ => l.entryS + (if l.hrv = 1 then 0 else l.hrv).setWidth 16
  | .normal .rti => u.retS + interruptFrame u.s.cpu
  | _ => u.s.cpu.S

/-- The pops in front of a return have brought the stack to its level. -/
def AtLevel (l : Locals) : HostRet → HostState M → Prop
  | .normal (.hostReturn long), u => u.s.cpu.S = exitLevel l u (.normal (.hostReturn long))
  | .normal .rti, u => u.s.cpu.S = exitLevel l u (.normal .rti)
  | _, _ => True

theorem emitRti_frame (bus : Bus M) (s : EmitState M) :
    (emitRti bus s).cpu.S = s.cpu.S + interruptFrame (emitRti bus s).cpu := by
  rw [emitRti_S, interruptFrame, emitRti_emulation]
  split <;> rfl

/-! ### The texts -/

section Texts

variable (W : HostWorld M) (l : Locals) {ctx : EmitCtx} {labels : List Label}

/-- At its returns the text has popped what it should. -/
abbrev Levels (t : HostText) : Prop := t.Ensures (W.action l) (W.test l) (AtLevel l)

/-- A return that pops nothing, or whose pops are not its own. -/
theorem levels_ret {r : HostRet} (h : r.Plain) : Levels W l (.ret r) := by
  refine Text.ensures_ret fun u => ?_
  cases r with
  | normal exit => cases exit <;> first | exact h.elim | trivial
  | _ => trivial

/-- The pops of `RTS` and `RTL`, and the host return behind them. -/
theorem levels_popReturn (long : Bool) {t u : HostText}
    (ht : ∀ v r v', v.s.cpu.S = l.entryS + frameSize long →
      t.run (W.action l) (W.test l) v = (.leave r, v') → AtLevel l r v') (hu : Levels W l u) :
    Levels W l (.seq (.act (.popReturn long)) (.seq (.ite .balanced t .skip) u)) := by
  intro s r s' h
  let v := W.action l (.popReturn long) s
  have hrun : (Text.seq (.ite .balanced t .skip) u).run (W.action l) (W.test l) v = (.leave r, s') := h
  by_cases hbal : W.test l .balanced v = true
  · have hS : v.s.cpu.S = l.entryS + frameSize long := by
      have hentry : s.s.cpu.S = l.entryS := (of_decide_eq_true hbal).2
      rw [← hentry]
      exact popReturn_S W.bus long s.s
    rw [Text.run, Text.run, if_pos hbal] at hrun
    cases ht' : t.run (W.action l) (W.test l) v with
    | mk e v' =>
      rw [ht'] at hrun
      cases e with
      | next => exact hu v' r s' hrun
      | jump k => cases hrun
      | leave r' =>
        cases hrun
        exact ht v r s' hS ht'
  · rw [Text.run, Text.run, if_neg hbal] at hrun
    exact hu v r s' hrun

theorem levels_return (op : ReturnOp) : Levels W l (EmitCtx.emitReturnText op) := by
  unfold EmitCtx.emitReturnText
  split
  · intro s r s' h
    cases h
    exact emitRti_frame W.bus s.s
  · refine levels_popReturn W l op.long (fun v r v' hS h => ?_)
      (Text.Ensures.seq (Text.Ensures.ite _ ?_ Text.ensures_skip)
        ((levels_ret W l (by trivial)).seq Text.ensures_skip))
    · cases h
      exact hS
    · exact (Text.ensures_act _).seq (((levels_ret W l (by trivial)).ite _
        Text.ensures_skip).seq Text.ensures_skip)

theorem levels_hleSpcUpload (pc16 : Nat) : Levels W l (hleSpcUploadText pc16) := by
  have hleave : ∀ {r : HostRet}, r.Plain → Levels W l (.seqs [.act .pop, .ret r]) := fun h =>
    (Text.ensures_act _).seq ((levels_ret W l h).seq Text.ensures_skip)
  refine (Text.ensures_act _).seq (levels_popReturn W l false (fun v r v' hS h => ?_)
    (Text.Ensures.seq (Text.Ensures.ite _ ?_ Text.ensures_skip) (hleave (by trivial))))
  · cases h
    exact hS
  · exact (Text.ensures_act _).seq (((hleave (by trivial)).ite _
      Text.ensures_skip).seq Text.ensures_skip)

theorem composed_levels (ctx : EmitCtx) : Composed ctx (Levels W l) where
  skip := Text.ensures_skip
  goto := Text.ensures_goto
  act := fun _ => Text.ensures_act _
  ret := levels_ret W l
  returns := levels_return W l
  seq := Text.Ensures.seq
  ite := fun c _ _ => Text.Ensures.ite c
  onLine := Text.Ensures.onLine

/-- `RecompStackPop` does not touch the stack of the CPU. -/
theorem atLevel_pop (r : HostRet) (u : HostState M) (h : AtLevel l r u) :
    AtLevel l r (W.action l .pop u) := by
  cases r with
  | normal exit => cases exit <;> exact h
  | _ => trivial

/-- Wherever a compiled function returns, its pops have brought the stack to the level of
the exit. -/
theorem atLevel_of_exits {inp : DecodeInput} {F : HostFn} (h : emitFunction ctx inp = some F)
    {t u : HostState M} {e : HostRet} (hexit : W.Exits l F t e u) : AtLevel l e u := by
  have htexts : (∀ b ∈ F.blocks, Levels W l b.2) ∧ Levels W l F.epilogue := by
    rcases emitFunction_cases h with ⟨_, rfl | rfl⟩ | ⟨g, bs, _, rfl⟩
    · exact ⟨fun b hb => (by cases hb), levels_hleSpcUpload W l _⟩
    · exact ⟨fun b hb => (by cases hb), (composed_levels W l ctx).hleFunc _⟩
    · refine ⟨fun b hb => ?_, (Text.ensures_act _).seq
        ((levels_ret W l (by trivial)).seq Text.ensures_skip)⟩
      obtain ⟨c, _, rfl⟩ := List.mem_map.mp hb
      exact ((composed_levels W l ctx).block _ c.1 c.2).inject (atLevel_pop W l)
  exact TextFn.ensures_of_runs htexts.1 htexts.2 hexit (TextFn.ensures_textFrom htexts.2 htexts.1)

end Texts

/-! ### The level at a return -/

section Return

variable (W : HostWorld M) (l : Locals)

/-- An abandoned function leaves the level that `host_return_valid` asks for. -/
theorem leave_abandon (site : Nat) (u : HostState M) :
    (W.leave l (.abandon site) u).1 = recompReturnNormal ∧
      (W.leave l (.abandon site) u).2.cpu.S = exitLevel l u (.abandon site) := ⟨rfl, rfl⟩

/-- So does one whose target the interpreter gave up on. -/
theorem leave_interpTier {loaded : Bool} {site : Nat} {u : HostState M}
    (h : W.Own l (.interpTier loaded site) u) :
    (W.leave l (.interpTier loaded site) u).1 = recompReturnNormal ∧
      (W.leave l (.interpTier loaded site) u).2.cpu.S = exitLevel l u (.interpTier loaded site) := by
  have hbail : (interpBridgeRunEx W.bus W.table W.stepCap (u.tierTarget loaded site &&& 0xFFFFFF)
      l.entryS u.s.cpu u.s.mem).1 = false := h
  unfold HostWorld.leave ofCompiled interpTierDispatchBalanced orAbandon
  dsimp only
  rw [if_neg (by rw [hbail]; decide)]
  exact ⟨rfl, rfl⟩

/-- A dispatch that finds nothing leaves the level behind the return's own frame. -/
theorem leave_dispatchFrom {long : Bool} {u : HostState M} (h : W.Own l (.dispatchFrom long) u) :
    (W.leave l (.dispatchFrom long) u).1 = recompReturnNormal ∧
      (W.leave l (.dispatchFrom long) u).2.cpu.S = exitLevel l u (.dispatchFrom long) := by
  have hmiss : cpuDispatchFind W.table u.s.cpu u.rpc24 = none := h
  unfold HostWorld.leave ofCompiled cpuDispatchPcFrom
  dsimp only
  rw [hmiss]
  exact ⟨rfl, rfl⟩

/-- The lines of an `RTS` or `RTL` and the return they take are `emitReturn`. -/
theorem run_emitReturnText {op : ReturnOp} (h : op.interrupt = false) (t : HostState M) :
    ∃ e u, (EmitCtx.emitReturnText op : HostText).run (W.action l) (W.test l) t = (.leave e, u) ∧
      W.leave l e u = emitReturn W.bus (W.returnHost t.stack) op.long l t.s := by
  have htext : (EmitCtx.emitReturnText op : HostText) = .seqs [.act (.popReturn op.long),
      .ite .balanced (.ret (.normal (.hostReturn op.long))) .skip,
      .ite .offEntry (.seqs [.act .resolveAncestor, .ite .ancestorFound (.ret .ancestor) .skip]) .skip,
      .ret (.dispatchFrom op.long)] := by
    unfold EmitCtx.emitReturnText
    rw [h]
    rfl
  rw [htext]
  let v := W.action l (.popReturn op.long) t
  by_cases hbal : l.hrv ≠ 0 ∧ t.s.cpu.S = l.entryS
  · have htest : W.test l .balanced (W.action l (.popReturn op.long) t) = true := decide_eq_true hbal
    have hret : emitReturn W.bus (W.returnHost t.stack) op.long l t.s =
        W.leave l (.normal (.hostReturn op.long)) v := if_pos hbal
    refine ⟨_, v, ?_, hret.symm⟩
    simp only [Text.seqs, Text.run, htest, if_true]
    rfl
  have htest : W.test l .balanced (W.action l (.popReturn op.long) t) = false := decide_eq_false hbal
  by_cases hoff : t.s.cpu.S ≠ l.entryS
  · have htest' : W.test l .offEntry (W.action l (.popReturn op.long) t) = true := decide_eq_true hoff
    by_cases hfound : 0 ≤ t.stack.cpuResolveAncestorSkip t.s.cpu.S
    · have hskip : W.test l .ancestorFound
          (W.action l .resolveAncestor (W.action l (.popReturn op.long) t)) = true := decide_eq_true hfound
      have hret : emitReturn W.bus (W.returnHost t.stack) op.long l t.s =
          W.leave l .ancestor (W.action l .resolveAncestor v) :=
        (if_neg hbal).trans (if_pos ⟨hoff, hfound⟩)
      refine ⟨_, W.action l .resolveAncestor v, ?_, hret.symm⟩
      simp only [Text.seqs, Text.run, htest, htest', hskip, if_true, Bool.false_eq_true, if_false]
      rfl
    · have hskip : W.test l .ancestorFound
          (W.action l .resolveAncestor (W.action l (.popReturn op.long) t)) = false := decide_eq_false hfound
      have hret : emitReturn W.bus (W.returnHost t.stack) op.long l t.s =
          W.leave l (.dispatchFrom op.long) (W.action l .resolveAncestor v) :=
        (if_neg hbal).trans (if_neg fun h => hfound h.2)
      refine ⟨_, W.action l .resolveAncestor v, ?_, hret.symm⟩
      simp only [Text.seqs, Text.run, htest, htest', hskip, if_true, Bool.false_eq_true, if_false]
      rfl
  · have htest' : W.test l .offEntry (W.action l (.popReturn op.long) t) = false := decide_eq_false hoff
    have hret : emitReturn W.bus (W.returnHost t.stack) op.long l t.s =
        W.leave l (.dispatchFrom op.long) v := (if_neg hbal).trans (if_neg fun h => hoff h.1)
    refine ⟨_, v, ?_, hret.symm⟩
    simp only [Text.seqs, Text.run, htest, htest', Bool.false_eq_true, if_false]
    rfl

/-- **A compiled function that returns normally by itself, other than by a bare return, has
popped the frame of its exit**: the two or three bytes of its `RTS` or `RTL`, the frame of
an `RTI`, and where it abandons what `host_return_valid` says. -/
theorem exitLevel_of_own {ctx : EmitCtx} {inp : DecodeInput} {F : HostFn}
    (h : emitFunction ctx inp = some F) {t u : HostState M} {e : HostRet} (hexit : W.Exits l F t e u)
    (hown : W.Own l e u) (hbare : ¬ Bare e) :
    (W.leave l e u).1 = recompReturnNormal ∧ (W.leave l e u).2.cpu.S = exitLevel l u e := by
  have hlevel := atLevel_of_exits W l h hexit
  cases e with
  | normal exit =>
    cases exit with
    | hostReturn long => exact ⟨rfl, hlevel⟩
    | rti => exact ⟨rfl, hlevel⟩
    | dispatched => exact absurd rfl hown
    | _ => exact absurd (by simp [Bare]) hbare
  | abandon site => exact leave_abandon W l site u
  | interpTier loaded site => exact leave_interpTier W l hown
  | dispatchFrom long => exact leave_dispatchFrom W l hown
  | propagate => exact absurd hown id
  | ancestor => exact absurd hown id
  | result => exact absurd hown id

end Return

/-! ### Functions of one instruction -/

/-- No bodies, and no memory. -/
def idleWorld : HostWorld Unit where
  bus := silentBus
  table := noBodies
  stepCap := 0
  bodies _ _ _ s := (recompReturnNormal, s)
  helpers _ s := (recompReturnNormal, s)

/-- A function that `JSR` has entered at the stack level `S`. -/
def enteredByJsr (S : Word) : HostState Unit where
  s := ⟨{ cpuStateInit with S := S, hostReturnValid := 2 }, (), fun _ => 0⟩
  stack := ⟨1, fun _ => S⟩
  retS := 0
  rpc24 := 0
  ancSkip := 0
  r := 0
  idx := 0
  pending := none

/-- An execution without a jump, and the level it ends at. -/
theorem exists_exit {code : List Nat} {l : Locals} {t : HostState Unit} {e : HostRet} {S : Word}
    (h : ((emitFunction .bare (.plain code)).any fun F =>
      let o := F.start.run (idleWorld.action l) (idleWorld.test l) t
      decide (o.1 = .leave e ∧ o.2.s.cpu.S = S)) = true) :
    ∃ F u, emitFunction .bare (.plain code) = some F ∧ idleWorld.Exits l F t e u ∧ u.s.cpu.S = S := by
  obtain ⟨F, hF, hrun⟩ := (Option.any_eq_true _ _).mp h
  obtain ⟨hleave, hS⟩ := of_decide_eq_true hrun
  exact ⟨F, _, hF, .ret (Prod.ext hleave rfl), hS⟩

/-- `RTS`. -/
theorem exitLevel_of_own_rts : ∃ F u, emitFunction .bare (.plain [0x60]) = some F ∧
    idleWorld.Exits ⟨0x1FD, 2⟩ F (enteredByJsr 0x1FD) (.normal (.hostReturn false)) u ∧
    (idleWorld.leave ⟨0x1FD, 2⟩ (.normal (.hostReturn false)) u).1 = recompReturnNormal ∧
    (idleWorld.leave ⟨0x1FD, 2⟩ (.normal (.hostReturn false)) u).2.cpu.S = 0x1FD + 2 := by
  obtain ⟨F, u, hF, hexit, _⟩ := @exists_exit [0x60] ⟨0x1FD, 2⟩ (enteredByJsr 0x1FD)
    (.normal (.hostReturn false)) 0x1FF (by decide)
  exact ⟨F, u, hF, hexit, exitLevel_of_own idleWorld _ hF hexit (by simp [HostWorld.Own]) (by simp [Bare])⟩

/-- `RTL`, which pops a byte more than `JSR` has pushed, and `STP`, which pops nothing. -/
theorem not_framePopped :
    (∃ F, emitFunction .bare (.plain [0x6B]) = some F ∧
      ¬ idleWorld.FramePopped ⟨0x1FD, 2⟩ F (enteredByJsr 0x1FD)) ∧
    ∃ F, emitFunction .bare (.plain [0xDB]) = some F ∧
      ¬ idleWorld.FramePopped ⟨0x1FD, 2⟩ F (enteredByJsr 0x1FD) := by
  have hfalse : ∀ {F : HostFn} {exit : NormalExit} {u : HostState Unit}, exit ≠ .dispatched →
      idleWorld.Exits ⟨0x1FD, 2⟩ F (enteredByJsr 0x1FD) (.normal exit) u → u.s.cpu.S ≠ 0x1FF →
      ¬ idleWorld.FramePopped ⟨0x1FD, 2⟩ F (enteredByJsr 0x1FD) := by
    intro F exit u hown hexit hS h
    exact hS (h (.normal exit) u hexit hown)
  constructor
  · obtain ⟨F, u, hF, hexit, hS⟩ := @exists_exit [0x6B] ⟨0x1FD, 2⟩ (enteredByJsr 0x1FD)
      (.normal (.hostReturn true)) 0x200 (by decide)
    exact ⟨F, hF, hfalse (by simp) hexit (by rw [hS]; decide)⟩
  · obtain ⟨F, u, hF, hexit, hS⟩ := @exists_exit [0xDB] ⟨0x1FD, 2⟩ (enteredByJsr 0x1FD)
      (.normal .noTerminator) 0x1FD (by decide)
    exact ⟨F, hF, hfalse (by simp) hexit (by rw [hS]; decide)⟩

end SnesRecomp.Tiers
