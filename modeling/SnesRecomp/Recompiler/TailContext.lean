import SnesRecomp.Recompiler.Unwind

/-!
# The return context of a tail call

A tail call stores the entry level and the host-return size of the running function in
one global slot (`cpu_tailcall_inherit_return_context`), and the next prologue that asks
for it takes it (`cpu_take_tailcall_return_context`).  The prologue of `emit_function`
and the stubs for unresolved targets ask; the stubs of `hle_spc_upload` and `hle_func`
do not.  `contextReachesTarget_iff`: the slot serves only its own tail call in exactly
the runs that never tail-call one of those two.

The stack of recompiled functions plays no part here.
-/

namespace SnesRecomp.Recompiler

variable {M : Type}

/-- What a function name stands for. -/
inductive Callee
  /-- A body of `emit_function`, with its `entry_s_offset`. -/
  | generated (entrySOffset : Int)
  /-- The stub of `v2_regen.py` for a target in a bank without cfg. -/
  | unresolvedStub
  /-- The stub for `hle_spc_upload`. -/
  | hleSpcUpload
  /-- The forwarding stub for `hle_func`; it has no locals of its own. -/
  | hleFunc
  deriving DecidableEq, Repr

namespace Callee

/-- The first lines call `cpu_take_tailcall_return_context`. -/
def takes : Callee → Bool
  | generated _ | unresolvedStub => true
  | hleSpcUpload | hleFunc => false

def offset : Callee → Int
  | generated entrySOffset => entrySOffset
  | _ => 0

/-- The locals the function starts with, and what is left in the slot. -/
def prologue (callee : Callee) (slot : Option Locals) (s : EmitState M) : Locals × Option Locals :=
  if callee.takes then ((enter callee.offset slot s).1, none)
  else ((enter callee.offset none s).1, slot)

end Callee

/-- The slot and the C activations. -/
structure SlotHost where
  slot : Option Locals
  running : Option Locals
  callers : List Activation
  deriving DecidableEq, Repr

def SlotHost.idle : SlotHost := ⟨none, none, []⟩

/-- The store of the statement, where it has one. -/
def Link.store (link : Link) (current : Locals) (slot : Option Locals) : Option Locals :=
  match link.pending current with
  | some context => some context
  | none => slot

/-- A function has returned `r`: the locals of the one that goes on, and its callers. -/
def resume : List Activation → RecompReturn → Option Locals × List Activation
  | [], _ => (none, [])
  | a :: callers, r =>
    match a.link.passUp r with
    | none => (some a.locals, callers)
    | some r' => resume callers r'

/-- The scheduler starts a function, the running function enters another or returns, or
the watchdog begins a frame. -/
inductive SlotStep (M : Type)
  | start (callee : Callee) (s : EmitState M)
  | enter (link : Link) (callee : Callee) (s : EmitState M)
  | ret (r : RecompReturn)
  | frameStart

def slotStep : SlotStep M → SlotHost → SlotHost
  | .start callee s, h =>
    match h.running with
    | some _ => h
    | none =>
      let p := callee.prologue h.slot s
      ⟨p.2, some p.1, []⟩
  | .enter link callee s, h =>
    match h.running with
    | none => h
    | some current =>
      let p := callee.prologue (link.store current h.slot) s
      ⟨p.2, some p.1, ⟨current, link⟩ :: h.callers⟩
  | .ret r, h =>
    match h.running with
    | none => h
    | some _ =>
      let rest := resume h.callers r
      ⟨h.slot, rest.1, rest.2⟩
  | .frameStart, _ => SlotHost.idle

/-- The context the entered function is due: the one its own tail call hands on, or else
the stack level and the host-return size it finds. -/
def due : SlotStep M → SlotHost → Option Locals
  | .start callee s, h =>
    match h.running with
    | some _ => none
    | none => some (enter callee.offset none s).1
  | .enter link callee s, h =>
    h.running.map fun current => (enter callee.offset (link.pending current) s).1
  | .ret _, _ | .frameStart, _ => none

/-- The step leaves no context behind for a later prologue, and a function it enters
starts with the context it is due. -/
def ContextReachesTarget (a : SlotStep M) (h : SlotHost) : Prop :=
  (slotStep a h).slot = none ∧ ∀ l ∈ due a h, (slotStep a h).running = some l

/-- No tail call enters a stub that leaves the context in the slot. -/
def TargetTakes : SlotStep M → SlotHost → Prop
  | .enter link callee _, h =>
    ∀ current ∈ h.running, (link.pending current).isSome → callee.takes = true
  | .start _ _, _ | .ret _, _ | .frameStart, _ => True

theorem prologue_none (callee : Callee) (s : EmitState M) :
    callee.prologue none s = ((enter callee.offset none s).1, none) := by
  unfold Callee.prologue
  split <;> rfl

theorem prologue_of_takes {callee : Callee} (h : callee.takes = true) (slot : Option Locals)
    (s : EmitState M) : callee.prologue slot s = ((enter callee.offset slot s).1, none) :=
  if_pos h

theorem prologue_of_not_takes {callee : Callee} (h : callee.takes = false) (slot : Option Locals)
    (s : EmitState M) : callee.prologue slot s = ((enter callee.offset none s).1, slot) :=
  if_neg (by rw [h]; decide)

theorem store_none (link : Link) (current : Locals) :
    link.store current none = link.pending current := by
  unfold Link.store
  cases link.pending current <;> rfl

/-- One step, from an empty slot. -/
theorem contextReachesTarget_step (a : SlotStep M) (h : SlotHost) (hslot : h.slot = none) :
    ContextReachesTarget a h ↔ TargetTakes a h := by
  obtain ⟨slot, running, callers⟩ := h
  obtain rfl : slot = none := hslot
  cases a with
  | start callee s =>
    refine iff_of_true ?_ trivial
    cases running with
    | some current => exact ⟨rfl, fun l hl => by cases hl⟩
    | none =>
      refine ⟨?_, fun l hl => ?_⟩
      · show (callee.prologue none s).2 = none
        rw [prologue_none]
      · obtain rfl := Option.some.inj hl
        show some (callee.prologue none s).1 = _
        rw [prologue_none]
  | enter link callee s =>
    cases running with
    | none => exact iff_of_true ⟨rfl, fun l hl => by cases hl⟩ (fun current hc => by cases hc)
    | some current =>
      constructor
      · rintro ⟨hleft, _⟩ c hc hpending
        obtain rfl := Option.some.inj hc
        by_contra htakes
        have hprologue := prologue_of_not_takes (Bool.eq_false_iff.mpr htakes)
          (link.store current none) s
        have hnone : (callee.prologue (link.store current none) s).2 = none := hleft
        rw [hprologue, store_none] at hnone
        have hpending : (link.pending current).isSome = true := hpending
        rw [show link.pending current = none from hnone] at hpending
        cases hpending
      · intro htakes
        have hprologue : callee.prologue (link.store current none) s =
            ((enter callee.offset (link.pending current) s).1, none) := by
          rw [store_none]
          cases hp : link.pending current with
          | none => exact prologue_none callee s
          | some context =>
            exact prologue_of_takes (htakes current rfl (by rw [hp]; rfl)) _ s
        refine ⟨?_, fun l hl => ?_⟩
        · show (callee.prologue (link.store current none) s).2 = none
          rw [hprologue]
        · obtain rfl := Option.some.inj hl
          show some (callee.prologue (link.store current none) s).1 = _
          rw [hprologue]
  | ret r =>
    refine iff_of_true ⟨?_, fun l hl => by cases hl⟩ trivial
    cases running with
    | none => rfl
    | some current => rfl
  | frameStart => exact iff_of_true ⟨rfl, fun l hl => by cases hl⟩ trivial

/-- **Each stored context is taken by the function its own tail call enters, and no
function starts with another's, in exactly the runs in which no tail call enters an HLE
stub.** -/
theorem contextReachesTarget_iff (steps : List (SlotStep M)) :
    Runs.StepsMeet slotStep ContextReachesTarget steps SlotHost.idle ↔
      Runs.StepsMeet slotStep TargetTakes steps SlotHost.idle := by
  refine Runs.stepsMeet_iff slotStep contextReachesTarget_step ?_ steps SlotHost.idle rfl
  intro a h hslot htakes
  exact ((contextReachesTarget_step a h hslot).mpr htakes).1

/-! ### A tail call into a forwarding stub -/

/-- A function entered at `$01FF` tail-calls an `hle_func` stub, which returns; then a
function is started at `$01EF`. -/
def tailIntoStub : List (SlotStep Unit) :=
  [.start (.generated 0) (enteredAt 0x1FF), .enter .tail .hleFunc (enteredAt 0x1FF), .ret 0,
    .start (.generated 0) (enteredAt 0x1EF)]

/-- The later function starts with the entry level of the earlier one. -/
theorem not_contextReachesTarget_tailIntoStub :
    ¬ Runs.StepsMeet slotStep ContextReachesTarget tailIntoStub SlotHost.idle ∧
      (Runs.final slotStep tailIntoStub SlotHost.idle).running = some ⟨0x1FF, 2⟩ := by
  refine ⟨fun h => ?_, rfl⟩
  have hstub := h.2.1.1
  revert hstub
  decide

end SnesRecomp.Recompiler
