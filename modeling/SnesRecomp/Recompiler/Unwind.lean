import SnesRecomp.Lib.Runs
import SnesRecomp.Runtime.HostStack
import SnesRecomp.Recompiler.Calls

/-!
# Returning to an ancestor

The compiled functions that are active at one time are C activations.  Each but the
innermost is suspended at the statement that entered the next one (`Link`), and most of
them are also on the stack of recompiled functions: a return that dispatches pops its
own frame before it enters the next function.

A return whose stack level is an ancestor's entry level answers with a count of frames
(`cpu_resolve_ancestor_skip`).  On the way out a call or a dispatch decrements it, a
tail call hands it on as it is.  `ancestorReturns_iff`: the ancestor is the one that
returns normally exactly when no tail call lies between it and the returning function.
-/

namespace SnesRecomp.Recompiler

variable {M : Type}

/-! ### Activations -/

/-- The statement a function is suspended at while the next one runs. -/
inductive Link
  /-- A call, or a dispatch in call form: goes on after a normal return. -/
  | call
  /-- A dispatch that ends the function; the index form hands its return context on. -/
  | dispatch (inherits : Bool)
  /-- `_tail_call_stmt`. -/
  | tail
  /-- An `RTS` or `RTL` that dispatches on the popped address. -/
  | rts
  deriving DecidableEq, Repr

/-- The return context left by `cpu_tailcall_inherit_return_context`. -/
def Link.pending (current : Locals) : Link → Option Locals
  | .tail | .dispatch true => some current
  | .call | .dispatch false | .rts => none

/-- What the statement returns when the function it entered answers `r`; `none` if the
function goes on. -/
def Link.passUp : Link → RecompReturn → Option RecompReturn
  | .call, r => if r ≠ recompReturnNormal then some (r - 1) else none
  | .dispatch _, r => if r ≠ recompReturnNormal then some (r - 1) else some recompReturnNormal
  | .tail, r => some r
  | .rts, r => some r

/-- A suspended function. -/
structure Activation where
  locals : Locals
  link : Link
  deriving DecidableEq, Repr

/-- The C stack and the stack of recompiled functions. -/
structure Host where
  stack : HostStack
  running : Option Locals
  callers : List Activation

/-- No compiled function is active; `entryS` is whatever earlier runs left behind. -/
def Host.idle (entryS : Nat → Word) : Host := ⟨⟨0, entryS⟩, none, []⟩

/-- The stack when the next prologue runs. -/
def Link.leave (link : Link) (st : HostStack) : HostStack := if link = .rts then st.pop else st

/-- The stack when the statement has returned. -/
def Link.unstack (link : Link) (st : HostStack) : HostStack := if link = .rts then st else st.pop

/-- A function has returned `r`: its callers return in turn, up to the one that goes on. -/
def unwind : List Activation → RecompReturn → HostStack → Host
  | [], _, st => ⟨st, none, []⟩
  | a :: callers, r, st =>
    match a.link.passUp r with
    | none => ⟨st, some a.locals, callers⟩
    | some r' => unwind callers r' (a.link.unstack st)

/-- The scheduler starts a function, the running function enters another, or it
returns. -/
inductive HostStep (M : Type)
  | start (entrySOffset : Int) (s : EmitState M)
  | enter (link : Link) (entrySOffset : Int) (s : EmitState M)
  | ret (r : RecompReturn)

def hostStep : HostStep M → Host → Host
  | .start offset s, h =>
    match h.running with
    | some _ => h
    | none =>
      let l := (enter offset none s).1
      ⟨h.stack.push.record l.entryS, some l, []⟩
  | .enter link offset s, h =>
    match h.running with
    | none => h
    | some current =>
      let l := (enter offset (link.pending current) s).1
      ⟨(link.leave h.stack).push.record l.entryS, some l, ⟨current, link⟩ :: h.callers⟩
  | .ret r, h =>
    match h.running with
    | none => h
    | some _ => unwind h.callers r h.stack.pop

/-- The step stays below the depth cap. -/
def Fits : HostStep M → Host → Prop
  | .start _ _, h => h.stack.top < recompStackDepth
  | .enter link _ _, h => (link.leave h.stack).top < recompStackDepth
  | .ret _, _ => True

instance (a : HostStep M) (h : Host) : Decidable (Fits a h) :=
  match a with
  | .start _ _ => inferInstanceAs (Decidable (_ < _))
  | .enter _ _ _ => inferInstanceAs (Decidable (_ < _))
  | .ret _ => inferInstanceAs (Decidable True)

/-! ### The stack mirrors the activations -/

/-- The entry levels of the suspended functions that are on the stack. -/
def liveWords (callers : List Activation) : List Word :=
  (callers.filter (·.link ≠ .rts)).map (·.locals.entryS)

theorem liveWords_rts {a : Activation} (h : a.link = .rts) (callers : List Activation) :
    liveWords (a :: callers) = liveWords callers := by
  simp [liveWords, h]

theorem liveWords_cons {a : Activation} (h : a.link ≠ .rts) (callers : List Activation) :
    liveWords (a :: callers) = a.locals.entryS :: liveWords callers := by
  simp [liveWords, h]

theorem liveWords_append (as bs : List Activation) :
    liveWords (as ++ bs) = liveWords as ++ liveWords bs := by
  simp [liveWords]

/-- The live part of the stack lists the entry levels, the running function first, and is
within the cap. -/
def Host.Linked (h : Host) : Prop :=
  h.stack.top ≤ recompStackDepth ∧
    match h.running with
    | none => h.stack.words = [] ∧ h.callers = []
    | some l => h.stack.words = l.entryS :: liveWords h.callers

theorem linked_idle (entryS : Nat → Word) : (Host.idle entryS).Linked :=
  ⟨Nat.zero_le _, rfl, rfl⟩

theorem pop_top_le (st : HostStack) : st.pop.top ≤ st.top := by
  unfold HostStack.pop
  dsimp only
  split <;> omega

theorem record_push_top_le (st : HostStack) (w : Word) (h : st.top < recompStackDepth) :
    (st.push.record w).top ≤ recompStackDepth := by
  have hlen : (st.push.record w).top = st.top + 1 := by
    rw [← HostStack.length_words, HostStack.words_record_push st w h, List.length_cons,
      HostStack.length_words]
  omega

theorem linked_unwind : ∀ (callers : List Activation) (r : RecompReturn) (st : HostStack),
    st.top ≤ recompStackDepth → st.words = liveWords callers → (unwind callers r st).Linked := by
  intro callers
  induction callers with
  | nil => intro r st htop hw; exact ⟨htop, hw, rfl⟩
  | cons a callers ih =>
    intro r st htop hw
    unfold unwind
    cases hr : a.link.passUp r with
    | none =>
      have hlink : a.link ≠ .rts := by
        intro e
        rw [e] at hr
        cases hr
      exact ⟨htop, hw.trans (liveWords_cons hlink callers)⟩
    | some r' =>
      by_cases hlink : a.link = .rts
      · rw [Link.unstack, if_pos hlink]
        exact ih r' st htop (hw.trans (liveWords_rts hlink callers))
      · rw [Link.unstack, if_neg hlink]
        refine ih r' st.pop (le_trans (pop_top_le st) htop) ?_
        rw [HostStack.words_pop, hw, liveWords_cons hlink, List.tail_cons]

theorem linked_hostStep (a : HostStep M) (h : Host) (hl : h.Linked) (hfit : Fits a h) :
    (hostStep a h).Linked := by
  obtain ⟨htop, hwords⟩ := id hl
  cases a with
  | start offset s =>
    cases hr : h.running with
    | some l =>
      simp only [hostStep, hr]
      exact hl
    | none =>
      simp only [hr] at hwords
      simp only [hostStep, hr]
      refine ⟨record_push_top_le h.stack _ hfit, ?_⟩
      show (h.stack.push.record _).words = _
      rw [HostStack.words_record_push h.stack _ hfit, hwords.1]
      rfl
  | enter link offset s =>
    cases hr : h.running with
    | none =>
      simp only [hostStep, hr]
      exact hl
    | some current =>
      simp only [hr] at hwords
      simp only [hostStep, hr]
      refine ⟨record_push_top_le (link.leave h.stack) _ hfit, ?_⟩
      show ((link.leave h.stack).push.record _).words = _ :: liveWords (⟨current, link⟩ :: h.callers)
      rw [HostStack.words_record_push (link.leave h.stack) _ hfit]
      congr 1
      by_cases hlink : link = .rts
      · rw [Link.leave, if_pos hlink, HostStack.words_pop, hwords, List.tail_cons,
          liveWords_rts hlink]
      · rw [Link.leave, if_neg hlink, hwords, liveWords_cons hlink]
  | ret r =>
    cases hr : h.running with
    | none =>
      simp only [hostStep, hr]
      exact hl
    | some l =>
      simp only [hr] at hwords
      simp only [hostStep, hr]
      refine linked_unwind h.callers r h.stack.pop (le_trans (pop_top_le h.stack) htop) ?_
      rw [HostStack.words_pop, hwords, List.tail_cons]

/-! ### Which activation returns normally -/

/-- Handed `r`, the functions of `inner` return one after another without going on, each
with a nonzero answer, and then `anc` returns normally. -/
def AncestorReturns : List Activation → Activation → RecompReturn → Prop
  | [], anc, r => r ≠ recompReturnNormal ∧ anc.link.passUp r = some recompReturnNormal
  | a :: inner, anc, r =>
    r ≠ recompReturnNormal ∧ ∃ r', a.link.passUp r = some r' ∧ AncestorReturns inner anc r'

/-- Then the unwinding goes on from there. -/
theorem unwind_of_ancestorReturns {anc : Activation} (outer : List Activation) :
    ∀ (inner : List Activation) (r : RecompReturn) (st : HostStack), AncestorReturns inner anc r →
      ∃ st', unwind (inner ++ anc :: outer) r st = unwind outer recompReturnNormal st' := by
  intro inner
  induction inner with
  | nil =>
    intro r st h
    exact ⟨anc.link.unstack st, by rw [List.nil_append, unwind, h.2]⟩
  | cons a inner ih =>
    intro r st h
    obtain ⟨_, r', hr', hrest⟩ := h
    obtain ⟨st', hst'⟩ := ih r' (a.link.unstack st) hrest
    exact ⟨st', by rw [List.cons_append, unwind, hr']; exact hst'⟩

/-- The nearest function on the stack that was entered at `retS`. -/
structure Nearest (retS : Word) (inner : List Activation) (anc : Activation) : Prop where
  onStack : anc.link ≠ .rts
  entered : anc.locals.entryS = retS
  nearer : ∀ a ∈ inner, a.link ≠ .rts → a.locals.entryS ≠ retS

/-- How many of the activations decrement, and how many hand a count on unchanged although
they are counted. -/
def decrements (as : List Activation) : Nat := as.countP fun a => a.link ≠ .rts ∧ a.link ≠ .tail

def tails (as : List Activation) : Nat := as.countP (·.link = .tail)

theorem length_liveWords (as : List Activation) :
    (liveWords as).length = decrements as + tails as := by
  induction as with
  | nil => rfl
  | cons a as ih =>
    obtain ⟨l, link⟩ := a
    cases link <;> simp [liveWords, decrements, tails] at ih ⊢ <;> omega

theorem tails_eq_zero {as : List Activation} : tails as = 0 ↔ ∀ a ∈ as, a.link ≠ .tail := by
  simp [tails, List.countP_eq_zero]

theorem cpuResolveAncestorSkip_nearest {h : Host} {l : Locals} (hl : h.Linked)
    (hrun : h.running = some l) {inner outer : List Activation} {anc : Activation}
    (hchain : h.callers = inner ++ anc :: outer) {retS : Word} (hnear : Nearest retS inner anc) :
    h.stack.cpuResolveAncestorSkip retS = (((liveWords inner).length + 1 : Nat) : Int) := by
  obtain ⟨htop, hwords⟩ := hl
  rw [hrun] at hwords
  have htail : h.stack.words.tail = liveWords inner ++ retS :: liveWords outer := by
    rw [hwords, List.tail_cons, hchain, liveWords_append, liveWords_cons hnear.onStack,
      hnear.entered]
  have hnone : (liveWords inner).findIdx? (· = retS) = none := by
    rw [List.findIdx?_eq_none_iff]
    intro w hw
    obtain ⟨a, ha, rfl⟩ := List.mem_map.mp hw
    obtain ⟨hmem, hlink⟩ := List.mem_filter.mp ha
    exact decide_eq_false (hnear.nearer a hmem (of_decide_eq_true hlink))
  rw [HostStack.cpuResolveAncestorSkip_eq h.stack retS htop, htail, List.findIdx?_append, hnone]
  simp [List.findIdx?_cons]

theorem decrements_cons (a : Activation) (as : List Activation) :
    decrements (a :: as) =
      decrements as + if a.link ≠ .rts ∧ a.link ≠ .tail then 1 else 0 := by
  simp [decrements, List.countP_cons]

/-- While the count lasts, only the decrements matter. -/
theorem ancestorReturns_iff_passUp {anc : Activation} :
    ∀ (inner : List Activation) (r : RecompReturn), (decrements inner : Int) < r →
      (AncestorReturns inner anc r ↔
        anc.link.passUp (r - decrements inner) = some recompReturnNormal) := by
  intro inner
  induction inner with
  | nil =>
    intro r hr
    have hz : r - (decrements [] : Nat) = r := Int.sub_zero r
    rw [hz]
    exact and_iff_right (Int.ne_of_gt hr)
  | cons a inner ih =>
    intro r hr
    have hne : r ≠ recompReturnNormal := by
      intro e
      rw [e] at hr
      exact absurd hr (by simp [recompReturnNormal])
    have hcons := decrements_cons a inner
    have hgo : ∀ r', a.link.passUp r = some r' → (decrements inner : Int) < r' →
        (r' - decrements inner : Int) = (r - decrements (a :: inner) : Int) →
        (AncestorReturns (a :: inner) anc r ↔
          anc.link.passUp (r - decrements (a :: inner)) = some recompReturnNormal) := by
      intro r' hr' hlt heq
      rw [← heq, ← ih r' hlt]
      constructor
      · rintro ⟨_, r'', hr'', hrest⟩
        obtain rfl := Option.some.inj (hr'.symm.trans hr'')
        exact hrest
      · intro hrest
        exact ⟨hne, r', hr', hrest⟩
    cases hlink : a.link with
    | call =>
      rw [hlink] at hcons hgo
      have h1 : decrements (a :: inner) = decrements inner + 1 := hcons
      exact hgo (r - 1) (if_pos hne) (by omega) (by rw [h1, Nat.cast_succ]; ring)
    | dispatch inherits =>
      rw [hlink] at hcons hgo
      have h1 : decrements (a :: inner) = decrements inner + 1 := hcons
      exact hgo (r - 1) (if_pos hne) (by omega) (by rw [h1, Nat.cast_succ]; ring)
    | tail =>
      rw [hlink] at hcons hgo
      have h1 : decrements (a :: inner) = decrements inner := hcons
      exact hgo r rfl (by omega) (by rw [h1])
    | rts =>
      rw [hlink] at hcons hgo
      have h1 : decrements (a :: inner) = decrements inner := hcons
      exact hgo r rfl (by omega) (by rw [h1])

/-- With the count of `cpu_resolve_ancestor_skip`, each tail call leaves one too many. -/
theorem ancestorReturns_skip_iff {inner : List Activation} {anc : Activation}
    (hanc : anc.link ≠ .rts) :
    AncestorReturns inner anc (((liveWords inner).length + 1 : Nat) : Int) ↔
      ∀ a ∈ inner ++ [anc], a.link ≠ .tail := by
  have hlen := length_liveWords inner
  rw [ancestorReturns_iff_passUp inner _ (by omega)]
  have hleft : (((liveWords inner).length + 1 : Nat) : Int) - decrements inner = tails inner + 1 := by
    omega
  have hne : (tails inner : Int) + 1 ≠ recompReturnNormal := by
    show (tails inner : Int) + 1 ≠ 0
    omega
  have hzero : (tails inner : Int) + 1 - 1 = recompReturnNormal ↔ tails inner = 0 := by
    show (tails inner : Int) + 1 - 1 = 0 ↔ tails inner = 0
    omega
  rw [hleft]
  simp only [List.mem_append, List.mem_singleton, or_imp, forall_and, forall_eq, ← tails_eq_zero]
  cases hlink : anc.link with
  | call => simp only [Link.passUp, if_pos hne, Option.some.injEq, hzero]; simp
  | dispatch inherits => simp only [Link.passUp, if_pos hne, Option.some.injEq, hzero]; simp
  | tail => simp only [Link.passUp, Option.some.injEq]; simp [hne]
  | rts => exact absurd hlink hanc

/-- **A return to an ancestor makes that ancestor return normally, in every run, exactly
when none of the activations down from it is suspended at a tail call.** -/
theorem ancestorReturns_iff (steps : List (HostStep M)) (entryS : Nat → Word)
    (hfits : Runs.StepsMeet hostStep Fits steps (Host.idle entryS)) {l : Locals}
    (hrun : (Runs.final hostStep steps (Host.idle entryS)).running = some l)
    {inner outer : List Activation} {anc : Activation}
    (hchain : (Runs.final hostStep steps (Host.idle entryS)).callers = inner ++ anc :: outer)
    (bus : Bus M) (dispatch : BitVec 32 → Word → EmitState M → RecompReturn × EmitState M)
    (long : Bool) (s : EmitState M) (hret : s.cpu.S ≠ l.entryS)
    (hnear : Nearest s.cpu.S inner anc) :
    let host : ReturnHost M :=
      ⟨(Runs.final hostStep steps (Host.idle entryS)).stack.cpuResolveAncestorSkip, dispatch⟩
    AncestorReturns inner anc (emitReturn bus host long l s).1 ↔
      ∀ a ∈ inner ++ [anc], a.link ≠ .tail := by
  intro host
  have hlinked := Runs.final_of_stepsMeet hostStep linked_hostStep steps _ (linked_idle entryS) hfits
  have hskip : host.resolveAncestorSkip s.cpu.S = (((liveWords inner).length + 1 : Nat) : Int) :=
    cpuResolveAncestorSkip_nearest hlinked hrun hchain hnear
  have hanswer : (emitReturn bus host long l s).1 = (((liveWords inner).length + 1 : Nat) : Int) := by
    unfold emitReturn
    dsimp only
    rw [if_neg (fun h => hret h.2), hskip, if_pos ⟨hret, by omega⟩]
  rw [hanswer]
  exact ancestorReturns_skip_iff hnear.onStack

/-! ### Three functions deep, and a tail call -/

def enteredAt (sp : Word) : EmitState Unit :=
  ⟨{ cpuStateInit with S := sp, hostReturnValid := 2 }, (), fun _ => 0⟩

/-- Two calls below a function entered at `$01FF`. -/
def twoCalls : List (HostStep Unit) :=
  [.start 0 (enteredAt 0x1FF), .enter .call 0 (enteredAt 0x1FD), .enter .call 0 (enteredAt 0x1FB)]

/-- The innermost returns to the outermost. -/
theorem ancestorReturns_twoCalls :
    let outermost : Activation := ⟨⟨0x1FF, 2⟩, .call⟩
    let middle : Activation := ⟨⟨0x1FD, 2⟩, .call⟩
    AncestorReturns [middle] outermost
      (emitReturn silentBus
        ⟨(Runs.final hostStep twoCalls (Host.idle 0)).stack.cpuResolveAncestorSkip,
          fun _ _ s => (0, s)⟩ false ⟨0x1FB, 2⟩ (enteredAt 0x1FF)).1 ↔
      ∀ a ∈ [middle] ++ [outermost], a.link ≠ .tail :=
  ancestorReturns_iff twoCalls 0 (by decide) rfl rfl silentBus
    (fun _ _ s => (0, s)) false (enteredAt 0x1FF) (by decide) ⟨by decide, rfl, by decide⟩

/-- Below a call from `$01FF` to `$01FD` and one to `$01FB`, a tail call. -/
def tailBelow : List (HostStep Unit) := twoCalls ++ [.enter .tail 0 (enteredAt 0x1FB)]

/-- The tail callee returns to the function entered at `$01FD`: that one is skipped as
well, so its caller, which should go on, is left too. -/
theorem not_ancestorReturns_tailBelow :
    let h := Runs.final hostStep tailBelow (Host.idle 0)
    let skip := (emitReturn silentBus ⟨h.stack.cpuResolveAncestorSkip, fun _ _ s => (0, s)⟩ false
      ⟨0x1FB, 2⟩ (enteredAt 0x1FD)).1
    h.callers = [⟨⟨0x1FB, 2⟩, .tail⟩] ++ ⟨⟨0x1FD, 2⟩, .call⟩ :: [⟨⟨0x1FF, 2⟩, .call⟩] ∧
      ¬ AncestorReturns [⟨⟨0x1FB, 2⟩, .tail⟩] ⟨⟨0x1FD, 2⟩, .call⟩ skip ∧
      (hostStep (.ret skip : HostStep Unit) h).running = none := by
  intro h skip
  have hskip : skip = 2 := by decide
  refine ⟨rfl, ?_, ?_⟩
  · rw [hskip]
    rintro ⟨_, r', hr', _, hanc⟩
    obtain rfl := Option.some.inj hr'
    exact absurd hanc (by decide)
  · rw [hskip]
    rfl

end SnesRecomp.Recompiler
