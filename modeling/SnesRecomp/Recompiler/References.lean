import SnesRecomp.Recompiler.CallBalance
import SnesRecomp.Recompiler.EmitFunction

/-!
# The variants a compiled function names and demands

A variant is an address with the widths it is entered in.  The lines of a function name the
variants they call, and while they are written their demands go into
`_UNRESOLVED_CALL_TARGETS`.  A switch on the widths, a tail call and a forced `M1X1` handler
demand exactly what they name.  A call pinned by `force_variant_at` demands the survivors of
its target and names the pinned variant.
-/

namespace SnesRecomp.Recompiler

/-- The 24-bit entry address and the entry widths. -/
abbrev Variant := Nat × Bool × Bool

namespace HostAct

/-- The variants whose symbols are in the lines. -/
def refs : HostAct → List Variant
  | .call (.pinned _ target variant) => [(target, variant)]
  | .call (.switched _ _ target survivors) => survivors.map (target, ·)
  | .tailCall target variant => [(target, variant)]
  | .handler target (some survivors) _ => survivors.map (target, ·)
  | .handler target none _ => [(target, true, true)]
  | _ => []

/-- What goes into `_UNRESOLVED_CALL_TARGETS` for the action; `_emit_call` does that before it
looks for a pin. -/
def demands (maps : Maps) : HostAct → List Variant
  | .call (.pinned _ target _) => (validVariantList maps target).map (target, ·)
  | a => a.refs

/-- The references outside the cases of a switch on the widths. -/
def directRefs : HostAct → List Variant
  | .call (.pinned _ target variant) => [(target, variant)]
  | .tailCall target variant => [(target, variant)]
  | .handler target none _ => [(target, true, true)]
  | _ => []

/-- Switches have a case for each survivor of their target, and tail calls go to one. -/
def Surviving (maps : Maps) : HostAct → Prop
  | .call (.switched _ _ target survivors) => survivors = validVariantList maps target
  | .tailCall target variant => variant ∈ validVariantList maps target
  | .handler target (some survivors) _ => survivors = validVariantList maps target
  | _ => True

/-- A pinned call of a variant that is no survivor. -/
def PinnedOff (maps : Maps) : HostAct → Prop
  | .call (.pinned _ target variant) => variant ∉ validVariantList maps target
  | _ => False

/-- A handler that is entered as `M1X1` whatever survives. -/
def forced : HostAct → Option Nat
  | .handler target none _ => some target
  | _ => none

/-- What is named is demanded, a pinned variant that is no survivor apart. -/
theorem refs_subset_demands {maps : Maps} {a : HostAct} (h : ¬ a.PinnedOff maps) :
    a.refs ⊆ a.demands maps := by
  intro r hr
  cases a with
  | call code =>
    cases code with
    | skipped => exact hr
    | pinned long target variant =>
      obtain rfl := List.mem_singleton.mp hr
      exact List.mem_map.mpr ⟨variant, not_not.mp h, rfl⟩
    | switched long site target survivors => exact hr
  | handler target survivors inherit => cases survivors <;> exact hr
  | _ => exact hr

/-- A demand is for a survivor, or for the `M1X1` variant of a forced handler. -/
theorem demands_survive {maps : Maps} {a : HostAct} (h : a.Surviving maps) {d : Variant}
    (hd : d ∈ a.demands maps) :
    d.2 ∈ validVariantList maps d.1 ∨ a.forced = some d.1 ∧ d.2 = (true, true) := by
  cases a with
  | call code =>
    cases code with
    | skipped => cases hd
    | pinned long target variant =>
      obtain ⟨v, hv, rfl⟩ := List.mem_map.mp hd
      exact Or.inl hv
    | switched long site target survivors =>
      obtain ⟨v, hv, rfl⟩ := List.mem_map.mp hd
      have hsurv : survivors = validVariantList maps target := h
      exact Or.inl (hsurv ▸ hv)
  | tailCall target variant =>
    obtain rfl := List.mem_singleton.mp hd
    exact Or.inl h
  | handler target survivors inherit =>
    cases survivors with
    | none =>
      obtain rfl := List.mem_singleton.mp hd
      exact Or.inr ⟨rfl, rfl⟩
    | some survivors =>
      obtain ⟨v, hv, rfl⟩ := List.mem_map.mp hd
      have hsurv : survivors = validVariantList maps target := h
      exact Or.inl (hsurv ▸ hv)
  | _ => cases hd

end HostAct

/-- `_scan_variant_refs` on the lines of a function: a line that starts with a case of the
switch on the widths behind a call is passed over. -/
def directRefs : HostText → List Variant
  | .act a => a.directRefs
  | .seq t u => directRefs t ++ directRefs u
  | .ite (.mode _ _) _ _ => []
  | .ite _ t u => directRefs t ++ directRefs u
  | .onLine t => directRefs t
  | _ => []

/-! ### Stub markers -/

/-- Actions with one of `_STUB_MARKERS` in their lines. -/
def HostAct.isStub : HostAct → Bool
  | .trapGoto => true
  | .op (.brk _) => true
  | _ => false

def HostRet.isStub : HostRet → Bool
  | .interpTier false _ => true
  | _ => false

/-- A call of which `_emit_call` leaves a marked comment. -/
def isSuppressedCall (p : DecodedInsn × List IROp) : Bool :=
  !p.1.dispatchRuntime && (EmitCtx.dispatchOf p.1).isNone && p.2.any fun
    | .call op => op.indirect || op.target.isNone
    | _ => false

/-- A body that `_scan_dirty_variants` finds a marker in. -/
def isDirty (ctx : EmitCtx) (inp : DecodeInput) (F : HostFn) : Bool :=
  F.acts.any (·.isStub) || F.rets.any (·.isStub) ||
    (compiledBlocks ctx inp).any fun g => g.2.any fun b => b.2.any isSuppressedCall

/-! ### Every action names survivors -/

theorem nearestSurvivor_mem (m x : Bool) : ∀ {vs : List (Bool × Bool)} {v : Bool × Bool},
    nearestSurvivor m x vs = some v → v ∈ vs := by
  intro vs
  induction vs with
  | nil => intro v h; cases h
  | cons w ws ih =>
    intro v h
    rw [nearestSurvivor] at h
    cases hrest : nearestSurvivor m x ws with
    | none =>
      rw [hrest] at h
      exact Option.some.inj h ▸ List.mem_cons_self
    | some u =>
      rw [hrest] at h
      dsimp only at h
      split at h
      · exact Option.some.inj h ▸ List.mem_cons_self
      · exact Option.some.inj h ▸ List.mem_cons_of_mem w (ih hrest)

theorem dispatchVariant_mem {m x : Bool} {vs : List (Bool × Bool)} {v : Bool × Bool}
    (h : dispatchVariant vs m x = some v) : v ∈ vs := by
  unfold dispatchVariant at h
  by_cases hmem : (m, x) ∈ vs
  · rw [if_pos hmem] at h
    exact Option.some.inj h ▸ hmem
  · rw [if_neg hmem] at h
    exact nearestSurvivor_mem m x h

/-- **Each line of the switch on the widths names a survivor**, and the case of a mode the
variant a call in that mode enters. -/
theorem mem_variantDispatchCaseLines {maps : Maps} {addr24 : Nat} {line : CaseLine}
    (h : line ∈ variantDispatchCaseLines maps addr24) :
    (∃ v ∈ validVariantList maps addr24, line.variant = some v) ∧
      ∀ m x, line.label = some (m, x) →
        line.variant = dispatchVariant (validVariantList maps addr24) m x := by
  have hne := validVariantList_ne_nil maps addr24
  have hnearest : ∀ m x, ∃ v ∈ validVariantList maps addr24,
      nearestSurvivor m x (validVariantList maps addr24) = some v := by
    intro m x
    obtain ⟨v, hv⟩ := nearestSurvivor_isSome m x hne
    exact ⟨v, nearestSurvivor_mem m x hv, hv⟩
  unfold variantDispatchCaseLines at h
  dsimp only at h
  rcases List.mem_append.mp h with hcase | hdefault
  · obtain ⟨v, _, hv⟩ := List.mem_filterMap.mp hcase
    by_cases hmem : v ∈ validVariantList maps addr24
    · rw [if_pos hmem] at hv
      obtain rfl := Option.some.inj hv
      refine ⟨⟨v, hmem, rfl⟩, fun m x hlabel => ?_⟩
      obtain rfl := Option.some.inj hlabel
      exact (if_pos hmem).symm
    · rw [if_neg hmem, if_pos hne] at hv
      obtain rfl := Option.some.inj hv
      refine ⟨hnearest v.1 v.2, fun m x hlabel => ?_⟩
      obtain rfl := Option.some.inj hlabel
      exact (if_neg hmem).symm
  · obtain rfl := List.mem_singleton.mp hdefault
    refine ⟨?_, fun m x hlabel => by cases hlabel⟩
    rw [if_pos hne]
    exact hnearest false false

/-- Every mode has its case. -/
theorem exists_caseLine (maps : Maps) (addr24 : Nat) (v : Bool × Bool) :
    ∃ line ∈ variantDispatchCaseLines maps addr24, line.label = some v := by
  have hne := validVariantList_ne_nil maps addr24
  unfold variantDispatchCaseLines
  dsimp only
  by_cases hmem : v ∈ validVariantList maps addr24
  · refine ⟨⟨some v, some v⟩, List.mem_append_left _ (List.mem_filterMap.mpr ⟨v, mem_mxVariants v, ?_⟩), rfl⟩
    exact if_pos hmem
  · refine ⟨⟨some v, nearestSurvivor v.1 v.2 (validVariantList maps addr24)⟩,
      List.mem_append_left _ (List.mem_filterMap.mpr ⟨v, mem_mxVariants v, ?_⟩), rfl⟩
    rw [if_neg hmem, if_pos hne]

theorem HostAct.surviving_call (maps : Maps) (op : CallOp) :
    (HostAct.call (emitCall maps op)).Surviving maps := by
  by_cases hpin : PinnedSite maps op
  · obtain ⟨target, variant, h⟩ := emitCall_of_pinned hpin
    rw [h]
    trivial
  · by_cases hto : ∃ target, CallsTo maps op target
    · obtain ⟨target, hto⟩ := hto
      rw [emitCall_of_callsTo hto hpin]
      rfl
    · rw [emitCall_of_not_callsTo (not_exists.mp hto)]
      trivial

namespace EmitCtx

variable (ctx : EmitCtx)

theorem resolveVariantForTarget_mem (addr24 : Nat) (m x : Bool) :
    ctx.resolveVariantForTarget addr24 m x ∈ validVariantList ctx.maps addr24 := by
  obtain ⟨v, hv⟩ := dispatchVariant_isSome m x (validVariantList_ne_nil ctx.maps addr24)
  unfold resolveVariantForTarget
  rw [hv]
  exact dispatchVariant_mem hv

end EmitCtx

/-! ### Properties of the lines -/

/-- A return with no pop of the stack in front of it. -/
def HostRet.Plain : HostRet → Prop
  | .normal (.hostReturn _) | .normal .rti => False
  | _ => True

/-- A property that lines have together if each part has it.  Its actions are those of the emitters,
its returns those that are plain, and the lines of a return instruction. -/
structure Composed (ctx : EmitCtx) (P : HostText → Prop) : Prop where
  skip : P .skip
  goto (k : Label) : P (.goto k)
  act {a : HostAct} (ha : a.Surviving ctx.maps) : P (.act a)
  ret {r : HostRet} (hr : r.Plain) : P (.ret r)
  returns (op : ReturnOp) : P (EmitCtx.emitReturnText op)
  seq {t u : HostText} (ht : P t) (hu : P u) : P (.seq t u)
  ite (c : HostCond) {t u : HostText} (ht : P t) (hu : P u) : P (.ite c t u)
  onLine {t : HostText} (ht : P t) : P (.onLine t)

namespace Composed

open EmitCtx

variable {ctx : EmitCtx} {P : HostText → Prop} (h : Composed ctx P)

include h

theorem seqs {ts : List HostText} (hts : ∀ t ∈ ts, P t) : P (.seqs ts) := by
  induction ts with
  | nil => exact h.skip
  | cons t ts ih => exact h.seq (hts t List.mem_cons_self) (ih fun u hu => hts u (List.mem_cons_of_mem t hu))

/-- A `switch` with one text for each entry of a table. -/
theorem cases {α : Type} {as : List α} {c : α → HostCond} {t : α → HostText} {default : HostText}
    (ht : ∀ a, P (t a)) (hdefault : P default) : P (switchText (as.map fun a => (c a, t a)) default) := by
  induction as with
  | nil => exact hdefault
  | cons a as ih => exact h.ite (c a) (ht a) ih

theorem propagate : P propagateText := h.ite _ (h.ret (by trivial)) h.skip

/-- An action and the return behind it. -/
theorem leaves {a : HostAct} {r : HostRet} (ha : a.Surviving ctx.maps) (hr : r.Plain) :
    P (.seqs [.act a, .ret r]) :=
  h.seq (h.act ha) (h.seq (h.ret hr) h.skip)

theorem tailCall (addr24 : Nat) (m x : Bool) : P (ctx.tailCallStmt addr24 m x) := by
  have hcall : (HostAct.tailCall addr24 (ctx.resolveVariantForTarget addr24 m x)).Surviving ctx.maps :=
    ctx.resolveVariantForTarget_mem addr24 m x
  exact h.onLine (h.seq (h.act (by trivial)) (h.seq (h.act hcall) (h.leaves (by trivial) (by trivial))))

theorem gotoOrReturn (labels : List Label) (source : Nat) (k : DecodeKey) :
    P (ctx.gotoOrReturn labels source k) := by
  unfold EmitCtx.gotoOrReturn
  dsimp only
  split
  · exact h.goto _
  split
  · exact h.ret (by trivial)
  split
  · exact h.tailCall _ _ _
  · exact h.onLine (h.seq (h.act (by trivial)) (h.leaves (by trivial) (by trivial)))

theorem farGoto (source : Nat) (insn : Insn) : P (ctx.emitFarGoto source insn) := by
  have htail : ∀ bank addr24 m x, P (.seqs [.act (.setPb bank), ctx.tailCallStmt addr24 m x]) :=
    fun _ addr24 m x => h.seq (h.act (by trivial)) (h.seq (h.tailCall addr24 m x) h.skip)
  unfold EmitCtx.emitFarGoto
  dsimp only
  split
  · split
    · exact htail _ _ _ _
    split
    · split
      · exact h.ret (by trivial)
      · exact htail _ _ _ _
    · exact h.leaves (by trivial) (by trivial)
  · exact h.leaves (by trivial) (by trivial)

theorem call (op : CallOp) : P (ctx.emitCallText op) := by
  unfold emitCallText
  split
  · exact h.skip
  · exact h.seq (h.act (HostAct.surviving_call ctx.maps op)) (h.seq h.propagate h.skip)

theorem miss (falls : Bool) (site : Nat) : P (missText falls site) := by
  cases falls with
  | true => exact h.seq (h.act (by trivial)) (h.seq (h.act (by trivial)) h.skip)
  | false => exact h.leaves (by trivial) (by trivial)

theorem hit (d : Dispatch) (falls inherit : Bool) (entry : Nat) : P (ctx.hitText d falls inherit entry) := by
  have hact : (ctx.handlerAct d inherit entry).Surviving ctx.maps := by
    unfold handlerAct
    cases d.terminal with
    | true => trivial
    | false => exact rfl
  refine h.seq (h.act hact) (h.seq h.propagate (h.seq ?_ h.skip))
  split
  · exact h.skip
  · exact h.ret (by trivial)

/-- What comes behind the switch of a dispatch. -/
theorem dispatchEnd (falls : Bool) {r : HostRet} (hr : r.Plain) :
    P (if falls then .skip else .seqs [.act .trapOob, .ret r]) := by
  split
  · exact h.skip
  · exact h.leaves (by trivial) hr

theorem narrow (d : Dispatch) : P (if d.terminal then .act .forceNarrow else .skip) := by
  split
  · exact h.act (by trivial)
  · exact h.skip

theorem pointerSwitch (insn : Insn) (d : Dispatch) (indexed : Bool) :
    P (ctx.pointerSwitchText insn d indexed) := by
  refine h.seq (h.act (by trivial)) (h.seq (h.act (by trivial)) (h.seq (h.narrow d)
    (h.seq (h.cases (fun e => h.hit d _ _ e) ?_) (h.seq (h.dispatchEnd _ (by trivial)) h.skip))))
  split
  · exact h.miss _ _
  · exact h.skip

theorem indexSwitch (insn : Insn) (d : Dispatch) : P (ctx.indexSwitchText insn d) := by
  refine h.seq (h.act (by trivial)) (h.seq (h.act (by trivial)) (h.seq (h.narrow d)
    (h.seq (h.ite _ (h.miss _ _) h.skip) (h.seq (h.cases (fun e => ?_) h.skip)
      (h.seq (h.dispatchEnd _ (by trivial)) h.skip)))))
  split
  · exact h.miss _ _
  · exact h.hit d _ _ _

theorem indirectDispatch (insn : Insn) (d : Dispatch) : P (ctx.emitIndirectDispatch insn d) := by
  unfold emitIndirectDispatch
  split
  · exact h.seq (h.act (by trivial)) (h.seq (h.cases (fun e => h.goto _) (h.leaves (by trivial) (by trivial))) h.skip)
  split
  · exact h.pointerSwitch _ _ _
  split
  · exact h.pointerSwitch _ _ _
  · exact h.indexSwitch _ _

theorem dispatch (insn : Insn) (d : Dispatch) : P (emitDispatch insn d) := by
  have hmiss : P (.seqs [.act .trapOob, .ret (.abandon (insn.addr &&& 0xFFFFFF))]) :=
    h.leaves (by trivial) (by trivial)
  refine h.seq (h.act (by trivial)) (h.seq (h.ite _ hmiss h.skip) (h.seq (h.act (by trivial))
    (h.seq (h.cases (fun e => ?_) h.skip) (h.seq (h.ret (by trivial)) h.skip))))
  split
  · exact hmiss
  · exact h.seq (h.act (by trivial)) (h.seq h.propagate h.skip)

theorem hleFunc (pc16 : Nat) : P (hleFuncText pc16) := h.seq (h.act (by trivial)) (h.leaves (by trivial) (by trivial))

theorem opLines (labels : List Label) (source : Nat) (succs : List DecodeKey) (di : DecodedInsn)
    (op : IROp) : P (ctx.emitOpLines labels source succs di op).1 := by
  cases op with
  | condBranch flag takeIf =>
    have hgoto := h.gotoOrReturn labels source
    rcases succs with _ | ⟨fall, _ | ⟨taken, succs⟩⟩
    · exact h.skip
    · exact h.seq h.skip (h.seq (hgoto fall) h.skip)
    · exact h.seq (h.onLine (h.ite _ (h.seq (h.act (by trivial)) (h.seq (hgoto taken) h.skip)) h.skip))
        (h.seq (hgoto fall) h.skip)
  | goto =>
    unfold emitOpLines
    cases dispatchOf di with
    | some d => exact h.dispatch di.insn d
    | none =>
      cases succs with
      | nil => exact h.farGoto source di.insn
      | cons s succs => exact h.gotoOrReturn labels source s
  | ret op => exact h.returns op
  | indirectGoto seg =>
    unfold emitOpLines
    cases dispatchOf di with
    | some d => exact h.indirectDispatch di.insn d
    | none =>
      dsimp only
      split
      · exact h.onLine (h.hleFunc _)
      · exact h.leaves (by trivial) (by trivial)
  | pushReg reg staticM staticX =>
    unfold emitOpLines
    cases dispatchOf di with
    | some d => exact h.indirectDispatch di.insn d
    | none => exact h.act (by trivial)
  | call op =>
    unfold emitOpLines
    dsimp only
    split
    · exact h.seq (h.act (by trivial)) (h.seq h.propagate h.skip)
    split
    · split
      · exact h.indirectDispatch di.insn _
      · exact h.dispatch di.insn _
    · exact h.call op
  | _ => exact h.act (by trivial)

theorem ops (labels : List Label) (source : Nat) (succs : List DecodeKey) (di : DecodedInsn) :
    ∀ (ops : List IROp) (terminated : Bool), P (ctx.emitOps labels source succs di ops terminated).1 := by
  intro ops
  induction ops with
  | nil => intro _; exact h.skip
  | cons op ops ih => intro _; exact h.seq (h.opLines labels source succs di op) (ih _)

theorem insns (labels : List Label) (source : Nat) (succs : List DecodeKey) :
    ∀ (lowered : Lowered) (terminated : Bool), P (ctx.emitInsns labels source succs lowered terminated).1 := by
  intro lowered
  induction lowered with
  | nil => intro _; exact h.skip
  | cons p ps ih =>
    intro terminated
    rw [emitInsns]
    split
    · exact ih terminated
    · exact h.seq (h.act (by trivial)) (h.seq (h.ops labels source succs p.1 p.2 terminated)
        (h.seq (ih _) h.skip))

theorem implicit (labels : List Label) (source : Nat) (lastMnem : Option Mnem) (succs : List DecodeKey) :
    P (ctx.implicitText labels source lastMnem succs) := by
  have hgoto := h.gotoOrReturn labels source
  rcases succs with _ | ⟨s, _ | ⟨t, succs⟩⟩
  · exact h.ret (by trivial)
  · exact hgoto s
  · unfold implicitText
    dsimp only
    split
    · exact h.cases (fun k => h.onLine (hgoto k)) (h.onLine (hgoto s))
    · exact hgoto s

/-- **The lines of a block have the property.** -/
theorem block (labels : List Label) (b : Block) (lowered : Lowered) :
    P (ctx.emitBlock labels b lowered) := by
  refine h.seq (h.act (by trivial)) (h.seq (h.insns labels _ _ lowered false) (h.seq ?_ h.skip))
  split
  · exact h.skip
  · exact h.implicit labels _ _ _

end Composed

/-- The text has only surviving actions. -/
def EmitCtx.TextSurvives (ctx : EmitCtx) (t : HostText) : Prop := ∀ a ∈ t.acts, a.Surviving ctx.maps

theorem composed_survives (ctx : EmitCtx) : Composed ctx ctx.TextSurvives where
  skip := fun a ha => by cases ha
  goto := fun _ a ha => by cases ha
  act := fun h a ha => List.mem_singleton.mp ha ▸ h
  ret := fun _ a ha => by cases ha
  returns := by
    intro op
    unfold EmitCtx.emitReturnText
    split <;> simp [EmitCtx.TextSurvives, HostAct.Surviving]
  seq := fun ht hu a ha => (List.mem_append.mp ha).elim (ht a) (hu a)
  ite := fun _ _ _ ht hu a ha => (List.mem_append.mp ha).elim (ht a) (hu a)
  onLine := fun ht => ht

/-- **Every switch of a compiled function has a case for each survivor of its target, and
every tail call goes to a survivor.** -/
theorem surviving_of_emitFunction {ctx : EmitCtx} {inp : DecodeInput} {F : HostFn}
    (h : emitFunction ctx inp = some F) : ∀ a ∈ F.acts, a.Surviving ctx.maps := by
  intro a ha
  rcases emitFunction_cases h with ⟨_, rfl | rfl⟩ | ⟨g, lowered, _, rfl⟩
  · have hstub : ctx.TextSurvives (hleSpcUploadText (inp.start &&& 0xFFFF)) := by
      simp [EmitCtx.TextSurvives, hleSpcUploadText, HostAct.Surviving]
    exact hstub a ha
  · exact (composed_survives ctx).hleFunc _ a ha
  · rcases List.mem_append.mp ha with ha | ha
    · obtain ⟨b, hb, hab⟩ := List.mem_flatMap.mp ha
      obtain ⟨c, _, rfl⟩ := List.mem_map.mp hb
      rcases Text.mem_acts_inject hab with rfl | hab
      · trivial
      · exact (composed_survives ctx).block _ c.1 c.2 a hab
    · have hpop : a = .pop := by simpa [emitBlocks] using ha
      rw [hpop]
      trivial

end SnesRecomp.Recompiler
