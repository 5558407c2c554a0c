import SnesRecomp.Recompiler.EmitFunction

/-!
# Control flow through the emitted lines

`Edges` says what the lines of a piece can do to control, read off the instructions:
the edges of the graph it takes, those it takes from inside a line, where the scanner of
`emit_function` puts no pop, and whether it goes on behind itself.  `Summary` ties this to
the paths through the emitted text, piece by piece.
-/

namespace SnesRecomp.Recompiler

/-- Only `RecompStackPop` counts. -/
def popWeight : HostAct → Nat
  | .pop => 1
  | _ => 0

/-! ### Control flow of the instructions -/

/-- The edges a piece can take, at the start of a line or inside one, the labels of its
computed gotos, and whether it can go on behind itself. -/
structure Edges where
  plain : List DecodeKey
  guarded : List DecodeKey
  direct : List Label
  falls : Bool
  deriving DecidableEq, Repr

namespace Edges

/-- No edge to a label. -/
def quiet (falls : Bool) : Edges := ⟨[], [], [], falls⟩

def pass : Edges := quiet true

def stop : Edges := quiet false

/-- One piece behind the other. -/
def seq (f g : Edges) : Edges :=
  if f.falls then ⟨f.plain ++ g.plain, f.guarded ++ g.guarded, f.direct ++ g.direct, g.falls⟩ else f

/-- One piece or the other. -/
def or (f g : Edges) : Edges :=
  ⟨f.plain ++ g.plain, f.guarded ++ g.guarded, f.direct ++ g.direct, f.falls || g.falls⟩

/-- The labels control can jump to. -/
def Targets (labels : List Label) (f : Edges) (l : Label) : Prop :=
  l ∈ f.direct ∨ ∃ k ∈ f.plain ++ f.guarded, labelFor k ∈ labels ∧ labelFor k = l

end Edges

namespace EmitCtx

variable (ctx : EmitCtx)

/-- The edge leads out of the function into an `exclude_range`. -/
def BareReturn (labels : List Label) (k : DecodeKey) : Prop :=
  labelFor k ∉ labels ∧ ctx.excluded (k.pc &&& 0xFFFF) = true

instance (labels : List Label) (k : DecodeKey) : Decidable (ctx.BareReturn labels k) :=
  inferInstanceAs (Decidable (_ ∧ _))

/-- The dispatches that are no computed goto stay in the function only as calls. -/
def dispatchEdges (insn : Insn) (d : Dispatch) : Edges :=
  if d.localGoto then
    let local16 := d.entries.filter fun e => e ≠ 0 ∧ (e >>> 16) &&& 0xFF = (insn.addr >>> 16) &&& 0xFF
    ⟨[], [], (firstCases (· &&& 0xFFFF) local16 []).map fun e => (e &&& 0xFFFF, insn.mFlag, insn.xFlag),
      false⟩
  else .quiet (insn.mnem = .jsr || d.call)

/-- One operation. -/
def opEdges (succs : List DecodeKey) (di : DecodedInsn) : IROp → Edges
  | .condBranch _ _ => ⟨succs[0]?.toList, succs[1]?.toList, [], succs[0]?.isNone⟩
  | .goto => if (dispatchOf di).isSome then .stop else ⟨succs[0]?.toList, [], [], false⟩
  | .ret _ => .stop
  | .indirectGoto _ =>
    match dispatchOf di with
    | some d => dispatchEdges di.insn d
    | none => .stop
  | .pushReg _ _ _ =>
    match dispatchOf di with
    | some d => dispatchEdges di.insn d
    | none => .pass
  | .call _ =>
    if di.dispatchRuntime then .pass
    else
      match dispatchOf di with
      | some d => if d.idxReg.isSome then dispatchEdges di.insn d else .stop
      | none => .pass
  | _ => .pass

theorem falls_dispatchEdges (insn : Insn) (d : Dispatch) :
    (dispatchEdges insn d).falls = (!d.localGoto && (insn.mnem = .jsr || d.call)) := by
  unfold dispatchEdges
  cases d.localGoto <;> rfl

def opsEdges (succs : List DecodeKey) (di : DecodedInsn) : List IROp → Edges
  | [] => .pass
  | op :: ops => (opEdges succs di op).seq (opsEdges succs di ops)

def insnsEdges (succs : List DecodeKey) : Lowered → Edges
  | [] => .pass
  | p :: ps =>
    if isTrampolineSetup p.1 (ps.map (·.1)) then insnsEdges succs ps
    else (opsEdges succs p.1 p.2).seq (insnsEdges succs ps)

/-- The edge of a block without a terminator; behind a call it is nested in a switch. -/
def implicitEdges (lastMnem : Option Mnem) : List DecodeKey → Edges
  | [] => .stop
  | [s] => ⟨[s], [], [], false⟩
  | s :: t :: succs =>
    if lastMnem = some .jsr ∨ lastMnem = some .jsl then
      ⟨[], firstCases (fun k => (k.m, k.x)) (s :: t :: succs) [] ++ [s], [], false⟩
    else ⟨[s], [], [], false⟩

/-- What control can do in a block. -/
def blockEdges (b : Block × Lowered) : Edges :=
  (insnsEdges b.1.successors b.2).seq
    (implicitEdges (b.2.getLast?.map (·.1.insn.mnem)) b.1.successors)

end EmitCtx

/-! ### Summaries -/

variable {ctx : EmitCtx} {labels : List Label} {t u : HostText} {f g : Edges}

/-- What the edges say about the paths through a text. -/
structure Summary (ctx : EmitCtx) (labels : List Label) (t : HostText) (f : Edges) : Prop where
  next : ∀ n, t.Ends popWeight n .next ↔ n = 0 ∧ f.falls = true
  jump : ∀ n l, t.Ends popWeight n (.jump l) ↔ n = 0 ∧ f.Targets labels l
  leave : ∀ n r, t.Ends popWeight n (.leave r) → n = 1 ∨ ∃ k ∈ f.guarded, ctx.BareReturn labels k
  bare : ∀ k ∈ f.guarded, ctx.BareReturn labels k → ∃ r, t.Ends popWeight 0 (.leave r)

namespace Edges

theorem targets_quiet (b : Bool) (l : Label) : ¬ (quiet b).Targets labels l := by
  rintro (h | ⟨k, h, _⟩)
  · cases h
  · cases h

theorem pass_seq : pass.seq f = f := rfl

theorem seq_pass : f.seq pass = f := by
  unfold seq
  split
  next h => simp only [pass, quiet, List.append_nil, ← h]
  next => rfl

theorem falls_seq : (f.seq g).falls = (f.falls && g.falls) := by
  unfold seq
  by_cases h : f.falls = true
  · rw [if_pos h, h, Bool.true_and]
  · rw [if_neg h, Bool.eq_false_iff.mpr h, Bool.false_and]

theorem guarded_seq (h : f.falls = true) : (f.seq g).guarded = f.guarded ++ g.guarded := by
  unfold seq
  rw [if_pos h]

theorem targets_seq (h : f.falls = true) (l : Label) :
    (f.seq g).Targets labels l ↔ f.Targets labels l ∨ g.Targets labels l := by
  unfold seq Targets
  rw [if_pos h]
  simp only [List.mem_append]
  grind

theorem targets_or (l : Label) :
    (f.or g).Targets labels l ↔ f.Targets labels l ∨ g.Targets labels l := by
  unfold Edges.or Targets
  simp only [List.mem_append]
  grind

end Edges

namespace Summary

theorem onLine (h : Summary ctx labels t f) : Summary ctx labels (.onLine t) f :=
  ⟨h.next, h.jump, h.leave, h.bare⟩

theorem skip : Summary ctx labels .skip .pass := by
  refine ⟨fun n => ?_, fun n l => ?_, fun n r h => ?_, fun k hk => by cases hk⟩
  · simp [Edges.pass, Edges.quiet]
  · simp [Edges.pass, Edges.targets_quiet]
  · simp at h

theorem act {a : HostAct} (ha : popWeight a = 0) : Summary ctx labels (.act a) .pass := by
  refine ⟨fun n => ?_, fun n l => ?_, fun n r h => ?_, fun k hk => by cases hk⟩
  · simp [ha, Edges.pass, Edges.quiet]
  · simp [Edges.pass, Edges.targets_quiet]
  · simp at h

/-- A pop, a return, and anything behind it. -/
theorem popRet (r : HostRet) : Summary ctx labels (.seq (.act .pop) (.seq (.ret r) t)) .stop := by
  refine ⟨fun n => ?_, fun n l => ?_, fun n r h => ?_, fun k hk => by cases hk⟩
  · simp [Text.ends_seq, Edges.stop, Edges.quiet]
  · simp [Text.ends_seq, Edges.stop, Edges.targets_quiet]
  · simp [Text.ends_seq, popWeight] at h
    exact Or.inl h.1

/-- A return at the start of a line. -/
theorem ret (r : HostRet) : Summary ctx labels ((Text.ret r).inject .pop) .stop := by
  refine ⟨fun n => ?_, fun n l => ?_, fun n r h => ?_, fun k hk => by cases hk⟩
  · simp [Text.inject, Text.ends_seq, Edges.stop, Edges.quiet]
  · simp [Text.inject, Text.ends_seq, Edges.stop, Edges.targets_quiet]
  · simp [Text.inject, Text.ends_seq, popWeight] at h
    exact Or.inl h.1

theorem goto (l : Label) : Summary ctx labels (.goto l) ⟨[], [], [l], false⟩ := by
  refine ⟨fun n => ?_, fun n l' => ?_, fun n r h => ?_, fun k hk => by cases hk⟩
  · simp
  · simp [Edges.Targets, eq_comm]
  · simp at h

/-- The paths through two pieces, where the first can be passed. -/
theorem ends_seq (h : Summary ctx labels t f) (hf : f.falls = true) (n : Nat)
    (e : Ending HostRet Label) : (Text.seq t u).Ends popWeight n e ↔
      (t.Ends popWeight n e ∧ e ≠ .next) ∨ u.Ends popWeight n e := by
  rw [Text.ends_seq]
  constructor
  · rintro (h' | ⟨i, j, rfl, hi, hj⟩)
    · exact Or.inl h'
    · obtain ⟨rfl, _⟩ := (h.next i).mp hi
      rw [Nat.zero_add]
      exact Or.inr hj
  · rintro (h' | h')
    · exact Or.inl h'
    · exact Or.inr ⟨0, n, (Nat.zero_add n).symm, (h.next 0).mpr ⟨rfl, hf⟩, h'⟩

theorem seq_of_stops (h : Summary ctx labels t f) (hf : f.falls = false) :
    Summary ctx labels (.seq t u) f := by
  have hstop : ∀ n, ¬ t.Ends popWeight n .next := by
    intro n hn
    rw [h.next, hf] at hn
    cases hn.2
  refine ⟨fun n => ?_, fun n l => ?_, fun n r hn => ?_, fun k hk hbare => ?_⟩
  · rw [Text.ends_seq_of_stops hstop]
    exact h.next n
  · rw [Text.ends_seq_of_stops hstop]
    exact h.jump n l
  · exact h.leave n r ((Text.ends_seq_of_stops hstop u n _).mp hn)
  · obtain ⟨r, hr⟩ := h.bare k hk hbare
    exact ⟨r, (Text.ends_seq_of_stops hstop u 0 _).mpr hr⟩

theorem seq (ht : Summary ctx labels t f) (hu : Summary ctx labels u g) :
    Summary ctx labels (.seq t u) (f.seq g) := by
  by_cases hf : f.falls = true
  · refine ⟨fun n => ?_, fun n l => ?_, fun n r h => ?_, fun k hk hbare => ?_⟩
    · rw [ht.ends_seq hf, hu.next, Edges.falls_seq, hf, Bool.true_and]
      simp
    · rw [ht.ends_seq hf, ht.jump, hu.jump, Edges.targets_seq hf, and_or_left]
      simp
    · rw [Edges.guarded_seq hf]
      rcases (ht.ends_seq hf n _).mp h with ⟨h, _⟩ | h
      · exact (ht.leave n r h).imp_right fun ⟨k, hk, hb⟩ => ⟨k, List.mem_append_left _ hk, hb⟩
      · exact (hu.leave n r h).imp_right fun ⟨k, hk, hb⟩ => ⟨k, List.mem_append_right _ hk, hb⟩
    · rw [Edges.guarded_seq hf] at hk
      rcases List.mem_append.mp hk with hk | hk
      · obtain ⟨r, hr⟩ := ht.bare k hk hbare
        exact ⟨r, (ht.ends_seq hf 0 _).mpr (Or.inl ⟨hr, by simp⟩)⟩
      · obtain ⟨r, hr⟩ := hu.bare k hk hbare
        exact ⟨r, (ht.ends_seq hf 0 _).mpr (Or.inr hr)⟩
  · unfold Edges.seq
    rw [if_neg hf]
    exact ht.seq_of_stops (Bool.eq_false_iff.mpr hf)

theorem ite (c : HostCond) (ht : Summary ctx labels t f) (hu : Summary ctx labels u g) :
    Summary ctx labels (.ite c t u) (f.or g) := by
  refine ⟨fun n => ?_, fun n l => ?_, fun n r h => ?_, fun k hk hbare => ?_⟩
  · rw [Text.ends_ite, ht.next, hu.next, ← and_or_left]
    unfold Edges.or
    rw [Bool.or_eq_true]
  · rw [Text.ends_ite, ht.jump, hu.jump, Edges.targets_or, and_or_left]
  · rcases h with h | h
    · exact (ht.leave n r h).imp_right fun ⟨k, hk, hb⟩ => ⟨k, List.mem_append_left _ hk, hb⟩
    · exact (hu.leave n r h).imp_right fun ⟨k, hk, hb⟩ => ⟨k, List.mem_append_right _ hk, hb⟩
  · rcases List.mem_append.mp hk with hk | hk
    · obtain ⟨r, hr⟩ := ht.bare k hk hbare
      exact ⟨r, Or.inl hr⟩
    · obtain ⟨r, hr⟩ := hu.bare k hk hbare
      exact ⟨r, Or.inr hr⟩

/-! #### Pieces without an edge -/

section Quiet

variable {a b : Bool}

theorem quiet_seq (ht : Summary ctx labels t (.quiet a)) (hu : Summary ctx labels u (.quiet b)) :
    Summary ctx labels (.seq t u) (.quiet (a && b)) := by
  cases a with
  | true => exact ht.seq hu
  | false => exact ht.seq_of_stops rfl

theorem quiet_ite (c : HostCond) (ht : Summary ctx labels t (.quiet a))
    (hu : Summary ctx labels u (.quiet b)) : Summary ctx labels (.ite c t u) (.quiet (a || b)) :=
  ht.ite c hu

/-- A switch falls out of its default at least. -/
theorem quiet_switch {default : HostText}
    (hdefault : Summary ctx labels (default.inject .pop) (.quiet b)) :
    ∀ {cases : List (HostCond × HostText)},
      (∀ c ∈ cases, ∃ a, Summary ctx labels (c.2.inject .pop) (.quiet a) ∧ (a = true → b = true)) →
      Summary ctx labels ((EmitCtx.switchText cases default).inject .pop) (.quiet b) := by
  intro cases
  induction cases with
  | nil => intro _; exact hdefault
  | cons c cases ih =>
    intro h
    obtain ⟨a, hc, hab⟩ := h c List.mem_cons_self
    have hrest := ih fun c hc => h c (List.mem_cons_of_mem _ hc)
    have hor : (a || b) = b := by cases a <;> simp_all
    have hswitch := hc.quiet_ite c.1 hrest
    rw [hor] at hswitch
    exact hswitch

theorem actRet {a : HostAct} (ha : popWeight a = 0) (r : HostRet) :
    Summary ctx labels ((Text.seqs [.act a, .ret r] : HostText).inject .pop) .stop :=
  (act ha).quiet_seq ((ret r).quiet_seq skip)

theorem propagate : Summary ctx labels (EmitCtx.propagateText.inject .pop) .pass :=
  (ret .propagate).quiet_ite .skipping skip

theorem emitReturn (op : ReturnOp) :
    Summary ctx labels ((EmitCtx.emitReturnText op).inject .pop) .stop := by
  unfold EmitCtx.emitReturnText
  by_cases hop : op.interrupt = true
  · rw [if_pos hop]
    exact (act rfl).quiet_seq ((ret _).quiet_seq skip)
  · rw [if_neg hop]
    have hancestor : Summary ctx labels ((Text.seqs [.act .resolveAncestor,
        .ite .ancestorFound (.ret .ancestor) .skip] : HostText).inject .pop) .pass :=
      (act rfl).quiet_seq (((ret _).quiet_ite _ skip).quiet_seq skip)
    exact (act rfl).quiet_seq (((ret _).quiet_ite _ skip).quiet_seq
      ((hancestor.quiet_ite _ skip).quiet_seq ((ret _).quiet_seq skip)))

/-! #### Dispatches -/

theorem hit (d : Dispatch) (falls inherit : Bool) (entry : Nat) :
    Summary ctx labels ((ctx.hitText d falls inherit entry).inject .pop) (.quiet falls) := by
  unfold EmitCtx.hitText
  cases falls with
  | true => exact (act rfl).quiet_seq (propagate.quiet_seq (skip.quiet_seq skip))
  | false => exact (act rfl).quiet_seq (propagate.quiet_seq ((ret _).quiet_seq skip))

theorem miss (falls : Bool) (site : Nat) :
    Summary ctx labels ((EmitCtx.missText falls site).inject .pop) (.quiet falls) := by
  cases falls with
  | true => exact (act rfl).quiet_seq ((act rfl).quiet_seq skip)
  | false => exact actRet rfl _

/-- The end of a dispatch that is no call. -/
theorem dispatchEnd (falls : Bool) (r : HostRet) :
    Summary ctx labels ((if falls then .skip else .seqs [.act .trapOob, .ret r] : HostText).inject .pop)
      (.quiet falls) := by
  cases falls with
  | true => exact skip
  | false => exact actRet rfl r

theorem narrow (terminal : Bool) :
    Summary ctx labels ((if terminal then .act .forceNarrow else .skip : HostText).inject .pop) .pass := by
  cases terminal with
  | true => exact act rfl
  | false => exact skip

theorem localGoto (insn : Insn) (d : Dispatch) (hd : d.localGoto = true) :
    Summary ctx labels ((EmitCtx.localGotoText insn d).inject .pop) (EmitCtx.dispatchEdges insn d) := by
  have hswitch : ∀ (ks : List Nat) (label : Nat → Label) {default : HostText},
      Summary ctx labels (default.inject .pop) .stop →
      Summary ctx labels ((EmitCtx.switchText (ks.map fun e =>
        (HostCond.caseIs (e &&& 0xFFFF), Text.goto (label e))) default).inject .pop)
        ⟨[], [], ks.map label, false⟩ := by
    intro ks label default hdefault
    induction ks with
    | nil => exact hdefault
    | cons e ks ih => exact Summary.ite _ (goto (label e)) ih
  unfold EmitCtx.localGotoText EmitCtx.dispatchEdges
  rw [if_pos hd]
  exact (act rfl).seq ((hswitch _ _ (actRet rfl _)).seq skip)

theorem pointerSwitch (insn : Insn) (d : Dispatch) (indexed : Bool) :
    Summary ctx labels ((ctx.pointerSwitchText insn d indexed).inject .pop)
      (.quiet (insn.mnem = .jsr || d.call)) := by
  unfold EmitCtx.pointerSwitchText
  generalize (decide (insn.mnem = .jsr) || d.call) = falls
  have hswitch : ∀ (value : Nat → Nat) (es : List Nat),
      Summary ctx labels ((EmitCtx.switchText (es.map fun e =>
        (.caseIs (value e), ctx.hitText d falls false e))
        (if falls then EmitCtx.missText true (insn.addr &&& 0xFFFFFF) else .skip)).inject .pop) .pass := by
    intro value es
    refine quiet_switch ?_ fun c hc => ?_
    · cases falls with
      | true => exact miss true (insn.addr &&& 0xFFFFFF)
      | false => exact skip
    · obtain ⟨e, _, rfl⟩ := List.mem_map.mp hc
      exact ⟨falls, hit d falls false e, fun _ => rfl⟩
  have hend := @dispatchEnd ctx labels falls (.interpTier true (insn.addr &&& 0xFFFFFF))
  cases falls with
  | true =>
    exact (act rfl).quiet_seq ((act rfl).quiet_seq ((narrow _).quiet_seq
      ((hswitch _ _).quiet_seq (hend.quiet_seq skip))))
  | false =>
    exact (act rfl).quiet_seq ((act rfl).quiet_seq ((narrow _).quiet_seq
      ((hswitch _ _).quiet_seq (hend.quiet_seq skip))))

theorem indexSwitch (insn : Insn) (d : Dispatch) :
    Summary ctx labels ((ctx.indexSwitchText insn d).inject .pop)
      (.quiet (insn.mnem = .jsr || d.call)) := by
  unfold EmitCtx.indexSwitchText
  generalize (decide (insn.mnem = .jsr) || d.call) = falls
  have hswitch : Summary ctx labels ((EmitCtx.switchText (d.entries.zipIdx.map fun e =>
      (.caseIs e.2, if e.1 = 0 then EmitCtx.missText falls (insn.addr &&& 0xFFFFFF)
        else ctx.hitText d falls (!falls) e.1)) .skip).inject .pop) .pass := by
    refine quiet_switch skip fun c hc => ?_
    obtain ⟨e, _, rfl⟩ := List.mem_map.mp hc
    refine ⟨falls, ?_, fun _ => rfl⟩
    by_cases he : e.1 = 0
    · simp only [if_pos he]
      exact miss falls _
    · simp only [if_neg he]
      exact hit d falls _ e.1
  have hoob := (@miss ctx labels falls (insn.addr &&& 0xFFFFFF)).quiet_ite
    (.idxOob d.entries.length) skip
  have hend := @dispatchEnd ctx labels falls (.abandon (insn.addr &&& 0xFFFFFF))
  cases falls with
  | true =>
    exact (act rfl).quiet_seq ((act rfl).quiet_seq ((narrow _).quiet_seq
      (hoob.quiet_seq (hswitch.quiet_seq (hend.quiet_seq skip)))))
  | false =>
    exact (act rfl).quiet_seq ((act rfl).quiet_seq ((narrow _).quiet_seq
      (hoob.quiet_seq (hswitch.quiet_seq (hend.quiet_seq skip)))))

theorem indirectDispatch (insn : Insn) (d : Dispatch) :
    Summary ctx labels ((ctx.emitIndirectDispatch insn d).inject .pop)
      (EmitCtx.dispatchEdges insn d) := by
  unfold EmitCtx.emitIndirectDispatch
  by_cases hd : d.localGoto = true
  · rw [if_pos hd]
    exact localGoto insn d hd
  · have hedges : EmitCtx.dispatchEdges insn d = .quiet (insn.mnem = .jsr || d.call) := by
      unfold EmitCtx.dispatchEdges
      rw [if_neg hd]
    rw [if_neg hd, hedges]
    split
    · exact pointerSwitch insn d false
    · split
      · exact pointerSwitch insn d true
      · exact indexSwitch insn d

theorem dispatch (insn : Insn) (d : Dispatch) :
    Summary ctx labels ((EmitCtx.emitDispatch insn d).inject .pop) .stop := by
  unfold EmitCtx.emitDispatch
  have hoob := (@actRet ctx labels .trapOob rfl (.abandon (insn.addr &&& 0xFFFFFF))).quiet_ite (.idxOob d.entries.length) skip
  refine (act rfl).quiet_seq (hoob.quiet_seq ((act rfl).quiet_seq
    (quiet_seq (quiet_switch (b := true) skip fun c hc => ?_) ((ret _).quiet_seq skip))))
  obtain ⟨e, _, rfl⟩ := List.mem_map.mp hc
  by_cases he : e.1 = 0
  · simp only [if_pos he]
    exact ⟨false, actRet rfl _, fun h => by cases h⟩
  · simp only [if_neg he]
    exact ⟨true, (act rfl).quiet_seq (propagate.quiet_seq skip), fun _ => trivial⟩

end Quiet

/-! #### Edges -/

theorem plain_of_stop {k : DecodeKey} (h : Summary ctx labels t .stop) (hk : labelFor k ∉ labels) :
    Summary ctx labels t ⟨[k], [], [], false⟩ := by
  refine ⟨h.next, fun n l => (h.jump n l).trans (and_congr_right fun _ => ?_), h.leave, h.bare⟩
  refine ⟨fun hl => absurd hl (Edges.targets_quiet false l), ?_⟩
  rintro (hl | ⟨k', hk', hmem, _⟩)
  · cases hl
  · rw [List.mem_singleton.mp hk'] at hmem
    exact absurd hmem hk

theorem guarded_of_stop {k : DecodeKey} (h : Summary ctx labels t .stop) (hk : labelFor k ∉ labels)
    (hbare : ¬ ctx.BareReturn labels k) : Summary ctx labels t ⟨[], [k], [], false⟩ := by
  refine ⟨h.next, (plain_of_stop h hk).jump, fun n r hn => Or.inl ?_, fun k' hk' hb => ?_⟩
  · exact (h.leave n r hn).resolve_right fun ⟨k, hk, _⟩ => by cases hk
  · rw [List.mem_singleton.mp hk'] at hb
    exact absurd hb hbare

theorem jump_of_mem {k : DecodeKey} (hk : labelFor k ∈ labels) :
    Summary ctx labels (.goto (labelFor k)) ⟨[k], [], [], false⟩ ∧
      Summary ctx labels (.goto (labelFor k)) ⟨[], [k], [], false⟩ := by
  have htargets : ∀ l, (∃ k' ∈ [k], labelFor k' ∈ labels ∧ labelFor k' = l) ↔ labelFor k = l := by
    intro l
    simp [hk]
  refine ⟨⟨fun n => ?_, fun n l => ?_, fun n r h => ?_, fun k' hk' => by cases hk'⟩,
    ⟨fun n => ?_, fun n l => ?_, fun n r h => ?_, fun k' hk' hb => ?_⟩⟩
  · simp
  · simp [Edges.Targets, hk, eq_comm]
  · simp at h
  · simp
  · simp [Edges.Targets, hk, eq_comm]
  · simp at h
  · rw [List.mem_singleton.mp hk'] at hb
    exact absurd hk hb.1

theorem tailCall (addr24 : Nat) (m x : Bool) :
    Summary ctx labels (ctx.tailCallStmt addr24 m x) .stop :=
  onLine ((act rfl).quiet_seq ((act rfl).quiet_seq (popRet _)))

theorem trapGoto (source : Nat) : Summary ctx labels
    (.onLine (.seqs [.act .trapGoto, .act .pop, .ret (.abandon source)])) .stop :=
  onLine ((act rfl).quiet_seq (popRet _))

/-- An edge at the start of a line. -/
theorem gotoLine (source : Nat) (k : DecodeKey) :
    Summary ctx labels ((ctx.gotoOrReturn labels source k).inject .pop) ⟨[k], [], [], false⟩ := by
  unfold EmitCtx.gotoOrReturn
  dsimp only
  split
  next hk => exact (jump_of_mem hk).1
  next hk =>
    refine plain_of_stop ?_ hk
    split
    · exact ret _
    · split
      · exact tailCall _ _ _
      · exact trapGoto source

/-- An edge inside a line, where the bare return of an `exclude_range` gets no pop. -/
theorem gotoNested (source : Nat) (k : DecodeKey) :
    Summary ctx labels (ctx.gotoOrReturn labels source k) ⟨[], [k], [], false⟩ := by
  unfold EmitCtx.gotoOrReturn
  dsimp only
  split
  next hk => exact (jump_of_mem hk).2
  next hk =>
    split
    next hexcl =>
      refine ⟨fun n => by simp, fun n l => ?_, fun n r _ => Or.inr ?_, fun _ _ _ => ⟨_, rfl, rfl⟩⟩
      · simp [Edges.Targets, hk]
      · exact ⟨k, List.mem_singleton_self k, hk, hexcl⟩
    next hexcl =>
      refine guarded_of_stop ?_ hk fun hbare => hexcl hbare.2
      split
      · exact tailCall _ _ _
      · exact trapGoto source

theorem farGoto (source : Nat) (insn : Insn) :
    Summary ctx labels ((ctx.emitFarGoto source insn).inject .pop) .stop := by
  have hunresolved := @actRet ctx labels .trapGoto rfl (.abandon source)
  have htail : ∀ bank addr24 m x, Summary ctx labels
      ((Text.seqs [.act (.setPb bank), ctx.tailCallStmt addr24 m x]).inject .pop) .stop :=
    fun bank addr24 m x => (act rfl).quiet_seq (quiet_seq (tailCall addr24 m x) skip)
  unfold EmitCtx.emitFarGoto
  dsimp only
  split
  · split
    · exact htail _ _ _ _
    · split
      · split
        · exact ret _
        · exact htail _ _ _ _
      · exact hunresolved
  · exact hunresolved

theorem emitCall (op : CallOp) : Summary ctx labels ((ctx.emitCallText op).inject .pop) .pass := by
  unfold EmitCtx.emitCallText
  split
  · exact skip
  · exact (act rfl).quiet_seq (propagate.quiet_seq skip)

/-- The lines of an operation. -/
theorem opLines (source : Nat) (succs : List DecodeKey) (di : DecodedInsn) (op : IROp) :
    Summary ctx labels ((ctx.emitOpLines labels source succs di op).1.inject .pop)
      (EmitCtx.opEdges succs di op) := by
  cases op with
  | condBranch flag takeIf =>
    have htaken : ∀ k, Summary ctx labels (.onLine (.ite (.flag flag takeIf)
        (.seqs [.act .charge, ctx.gotoOrReturn labels source k]) .skip)) ⟨[], [k], [], true⟩ :=
      fun k => onLine (Summary.ite _ ((act rfl).seq ((gotoNested source k).seq skip)) skip)
    cases succs with
    | nil => exact skip
    | cons fall succs =>
      cases succs with
      | nil => exact skip.seq ((gotoLine source fall).seq skip)
      | cons taken succs => exact (htaken taken).seq ((gotoLine source fall).seq skip)
  | goto =>
    unfold EmitCtx.emitOpLines EmitCtx.opEdges
    cases hd : EmitCtx.dispatchOf di with
    | some d => exact dispatch di.insn d
    | none =>
      cases succs with
      | nil => exact farGoto source di.insn
      | cons s succs => exact gotoLine source s
  | ret op => exact emitReturn op
  | indirectGoto seg =>
    unfold EmitCtx.emitOpLines EmitCtx.opEdges
    cases hd : EmitCtx.dispatchOf di with
    | some d => exact indirectDispatch di.insn d
    | none =>
      dsimp only
      split
      · exact onLine ((act rfl).quiet_seq (popRet _))
      · exact actRet rfl _
  | pushReg reg staticM staticX =>
    unfold EmitCtx.emitOpLines EmitCtx.opEdges
    cases hd : EmitCtx.dispatchOf di with
    | some d => exact indirectDispatch di.insn d
    | none => exact act rfl
  | call op =>
    unfold EmitCtx.emitOpLines EmitCtx.opEdges
    dsimp only
    by_cases hrun : di.dispatchRuntime = true
    · rw [if_pos hrun, if_pos hrun]
      exact (act rfl).quiet_seq (propagate.quiet_seq skip)
    · rw [if_neg hrun, if_neg hrun]
      cases hd : EmitCtx.dispatchOf di with
      | none => exact emitCall op
      | some d =>
        cases hidx : d.idxReg with
        | some r =>
          simp only [hidx, Option.isSome_some, if_true]
          exact indirectDispatch di.insn d
        | none =>
          simp only [hidx, Option.isSome_none, Bool.false_eq_true, if_false]
          exact dispatch di.insn d
  | _ => exact act rfl

theorem ops (source : Nat) (succs : List DecodeKey) (di : DecodedInsn) :
    ∀ (ops : List IROp) (terminated : Bool), Summary ctx labels
      ((ctx.emitOps labels source succs di ops terminated).1.inject .pop)
      (EmitCtx.opsEdges succs di ops) := by
  intro ops
  induction ops with
  | nil => intro _; exact skip
  | cons op ops ih => intro _; exact (opLines source succs di op).seq (ih _)

theorem insns (source : Nat) (succs : List DecodeKey) :
    ∀ (lowered : Lowered) (terminated : Bool), Summary ctx labels
      ((ctx.emitInsns labels source succs lowered terminated).1.inject .pop)
      (EmitCtx.insnsEdges succs lowered) := by
  intro lowered
  induction lowered with
  | nil => intro _; exact skip
  | cons p ps ih =>
    intro terminated
    rw [EmitCtx.emitInsns, EmitCtx.insnsEdges]
    split
    · exact ih terminated
    · have hrest := (ih (ctx.emitOps labels source succs p.1 p.2 terminated).2).seq skip
      rw [Edges.seq_pass] at hrest
      have hcharge : Summary ctx labels (.act .charge) .pass := act rfl
      have hall := hcharge.seq ((ops source succs p.1 p.2 terminated).seq hrest)
      rw [Edges.pass_seq] at hall
      exact hall

theorem implicit (source : Nat) (lastMnem : Option Mnem) (succs : List DecodeKey) :
    Summary ctx labels ((ctx.implicitText labels source lastMnem succs).inject .pop)
      (EmitCtx.implicitEdges lastMnem succs) := by
  have hswitch : ∀ ks s, Summary ctx labels ((EmitCtx.switchText (ks.map fun k : DecodeKey =>
      (.mode k.m k.x, .onLine (ctx.gotoOrReturn labels source k)))
      (.onLine (ctx.gotoOrReturn labels source s))).inject .pop) ⟨[], ks ++ [s], [], false⟩ := by
    intro ks s
    induction ks with
    | nil => exact onLine (gotoNested source s)
    | cons k ks ih => exact Summary.ite _ (onLine (gotoNested source k)) ih
  rcases succs with _ | ⟨s, _ | ⟨t, succs⟩⟩
  · exact ret _
  · exact gotoLine source s
  · unfold EmitCtx.implicitText EmitCtx.implicitEdges
    dsimp only
    split
    · exact hswitch _ s
    · exact gotoLine source s

end Summary

end SnesRecomp.Recompiler
