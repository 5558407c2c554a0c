import SnesRecomp.Lib.Runs
import SnesRecomp.Runtime.HostStack

/-!
# The frames on the stack of recompiled functions

`RecompStackPush` and `RecompStackPop` with the names they keep (`g_recomp_stack`), over
well-nested sequences of prologues and pops.  `g_last_recomp_func`, the profiler and the
boundary auditor are left out.

The push is dropped at the depth cap, the pop is not.  `accounted_of_belowCap`: as long
as every prologue runs below the cap the stack lists the live frames.  Past it the pops
take away frames that are still live (`not_accounted_pastCap`).
-/

namespace SnesRecomp

/-- A compiled function between its prologue and its `RecompStackPop`. -/
structure Frame where
  name : String
  entryS : Word
  deriving DecidableEq, Repr

/-- `g_recomp_stack` beside the entry levels. -/
structure NamedStack where
  host : HostStack
  names : Nat → String

namespace NamedStack

/-- `RecompStackPush`. -/
def push (name : String) (st : NamedStack) : NamedStack where
  host := st.host.push
  names := if st.host.top < recompStackDepth then Function.update st.names st.host.top name
    else st.names

/-- The prologue: the push, then the record of the entry level. -/
def enter (f : Frame) (st : NamedStack) : NamedStack :=
  let st := st.push f.name
  { st with host := st.host.record f.entryS }

/-- `RecompStackPop`. -/
def pop (st : NamedStack) : NamedStack := { st with host := st.host.pop }

/-! ### The stack as a list of frames -/

/-- The entries below index `n`, the topmost first. -/
def below (names : Nat → String) (entryS : Nat → Word) : Nat → List Frame
  | 0 => []
  | n + 1 => ⟨names n, entryS n⟩ :: below names entryS n

def frames (st : NamedStack) : List Frame := below st.names st.host.entryS st.host.top

theorem length_below (names : Nat → String) (entryS : Nat → Word) (n : Nat) :
    (below names entryS n).length = n := by
  induction n with
  | zero => rfl
  | succ n ih => exact congrArg Nat.succ ih

theorem length_frames (st : NamedStack) : st.frames.length = st.host.top :=
  length_below st.names st.host.entryS st.host.top

theorem map_below (names : Nat → String) (entryS : Nat → Word) (n : Nat) :
    (below names entryS n).map Frame.entryS = HostStack.below entryS n := by
  induction n with
  | zero => rfl
  | succ n ih => exact congrArg (entryS n :: ·) ih

theorem map_frames (st : NamedStack) : st.frames.map Frame.entryS = st.host.words :=
  map_below st.names st.host.entryS st.host.top

theorem below_update (names : Nat → String) (entryS : Nat → Word) (f : Frame) {k : Nat} :
    ∀ n, n ≤ k → below (Function.update names k f.name) (Function.update entryS k f.entryS) n =
      below names entryS n := by
  intro n
  induction n with
  | zero => intro _; rfl
  | succ n ih =>
    intro hn
    rw [below, below, ih (by omega), Function.update_of_ne (by omega),
      Function.update_of_ne (by omega)]

/-- Entering a function below the cap. -/
theorem frames_enter (st : NamedStack) (f : Frame) (h : st.host.top < recompStackDepth) :
    (st.enter f).frames = f :: st.frames := by
  have htop : st.host.push.top = st.host.top + 1 := if_pos h
  have hidx : st.host.push.top - 1 = st.host.top := by omega
  have hnames : (st.enter f).names = Function.update st.names st.host.top f.name := if_pos h
  have hhost : (st.enter f).host =
      ⟨st.host.top + 1, Function.update st.host.entryS st.host.top f.entryS⟩ := by
    show st.host.push.record f.entryS = _
    rw [HostStack.record, if_pos (by omega), hidx, htop]
    rfl
  rw [frames, hnames, hhost]
  show below (Function.update st.names st.host.top f.name)
    (Function.update st.host.entryS st.host.top f.entryS) (st.host.top + 1) = _
  rw [below, Function.update_self, Function.update_self,
    below_update st.names st.host.entryS f _ (Nat.le_refl _)]
  rfl

theorem frames_pop (st : NamedStack) : st.pop.frames = st.frames.tail := by
  unfold frames pop HostStack.pop
  cases st.host.top with
  | zero => rfl
  | succ n => rfl

/-- What the topmost entry holds. -/
theorem top_of_frames {st : NamedStack} {f : Frame} {fs : List Frame} (h : st.frames = f :: fs) :
    st.names (st.host.top - 1) = f.name ∧ st.host.entryS (st.host.top - 1) = f.entryS := by
  unfold frames at h
  cases ht : st.host.top with
  | zero =>
    rw [ht] at h
    cases h
  | succ n =>
    rw [ht, below] at h
    obtain ⟨rfl, _⟩ := List.cons.inj h
    exact ⟨rfl, rfl⟩

end NamedStack

/-! ### Well-nested prologues and pops -/

/-- The frames that are live, the innermost first, and the stack that should list them. -/
structure Nest where
  live : List Frame
  stack : NamedStack

/-- No function is active; the arrays hold whatever earlier runs left behind. -/
def Nest.idle (names : Nat → String) (entryS : Nat → Word) : Nest := ⟨[], ⟨⟨0, entryS⟩, names⟩⟩

inductive NestStep
  | prologue (f : Frame)
  | pop
  deriving DecidableEq, Repr

def nestStep : NestStep → Nest → Nest
  | .prologue f, n => ⟨f :: n.live, n.stack.enter f⟩
  | .pop, n => ⟨n.live.tail, n.stack.pop⟩

/-- The pop belongs to a prologue that came before it. -/
def Paired : NestStep → Nest → Prop
  | .prologue _, _ => True
  | .pop, n => n.live ≠ []

instance (a : NestStep) (n : Nest) : Decidable (Paired a n) :=
  match a with
  | .prologue _ => inferInstanceAs (Decidable True)
  | .pop => inferInstanceAs (Decidable (_ ≠ _))

/-- The prologue runs below the depth cap. -/
def BelowCap : NestStep → Nest → Prop
  | .prologue _, n => n.live.length < recompStackDepth
  | .pop, _ => True

instance (a : NestStep) (n : Nest) : Decidable (BelowCap a n) :=
  match a with
  | .prologue _ => inferInstanceAs (Decidable (_ < _))
  | .pop => inferInstanceAs (Decidable True)

/-- How many returns away the nearest strict ancestor entered at `retS` is; `-1` if none. -/
def Nest.ancestorSkip (n : Nest) (retS : Word) : Int :=
  match (n.live.tail.map Frame.entryS).findIdx? (· = retS) with
  | some k => ((k + 1 : Nat) : Int)
  | none => -1

/-- The stack accounts for the live frames. -/
structure Nest.Accounted (n : Nest) : Prop where
  /-- The depth is right, or the ancestor search reports no wrong frame. -/
  depth : n.stack.host.top = n.live.length ∨
    ∀ retS, 0 ≤ n.stack.host.cpuResolveAncestorSkip retS →
      n.stack.host.cpuResolveAncestorSkip retS = n.ancestorSkip retS
  /-- The top entry names the active function. -/
  name : ∀ f ∈ n.live.head?, n.stack.names (n.stack.host.top - 1) = f.name
  /-- The entry level at the top is the one of the active function. -/
  entry : ∀ f ∈ n.live.head?, n.stack.host.entryS (n.stack.host.top - 1) = f.entryS

/-- The invariant below the cap. -/
def Nest.Listed (n : Nest) : Prop := n.live.length ≤ recompStackDepth ∧ n.stack.frames = n.live

theorem Nest.listed_idle (names : Nat → String) (entryS : Nat → Word) :
    (Nest.idle names entryS).Listed := ⟨Nat.zero_le _, rfl⟩

theorem listed_nestStep (a : NestStep) (n : Nest) (h : n.Listed) (hcap : BelowCap a n) :
    (nestStep a n).Listed := by
  obtain ⟨hle, hframes⟩ := h
  have htop : n.stack.host.top = n.live.length := by
    rw [← NamedStack.length_frames, hframes]
  cases a with
  | prologue f =>
    have hlt : n.live.length < recompStackDepth := hcap
    refine ⟨Nat.succ_le_of_lt hlt, ?_⟩
    show (n.stack.enter f).frames = f :: n.live
    rw [NamedStack.frames_enter n.stack f (by omega), hframes]
  | pop =>
    refine ⟨?_, ?_⟩
    · show n.live.tail.length ≤ recompStackDepth
      rw [List.length_tail]
      omega
    · show n.stack.pop.frames = n.live.tail
      rw [NamedStack.frames_pop, hframes]

/-- Then the ancestor search finds what it looks for. -/
theorem Nest.Listed.cpuResolveAncestorSkip {n : Nest} (h : n.Listed) (retS : Word) :
    n.stack.host.cpuResolveAncestorSkip retS = n.ancestorSkip retS := by
  obtain ⟨hle, hframes⟩ := h
  have htop : n.stack.host.top ≤ recompStackDepth := by
    rw [← NamedStack.length_frames, hframes]
    exact hle
  have hwords : n.stack.host.words.tail = n.live.tail.map Frame.entryS := by
    rw [← NamedStack.map_frames, hframes, List.map_tail]
  rw [HostStack.cpuResolveAncestorSkip_eq n.stack.host retS htop, hwords]
  rfl

theorem Nest.Listed.accounted {n : Nest} (h : n.Listed) : n.Accounted := by
  have hframes := h.2
  have hhead : ∀ f ∈ n.live.head?, n.stack.names (n.stack.host.top - 1) = f.name ∧
      n.stack.host.entryS (n.stack.host.top - 1) = f.entryS := by
    intro f hf
    obtain ⟨fs, hlive⟩ := List.head?_eq_some_iff.mp hf
    exact NamedStack.top_of_frames (hframes.trans hlive)
  refine ⟨Or.inl ?_, fun f hf => (hhead f hf).1, fun f hf => (hhead f hf).2⟩
  rw [← NamedStack.length_frames, hframes]

/-- **While every prologue of a run is entered below the depth cap, the stack accounts for
the live frames after each of its steps.** -/
theorem accounted_of_belowCap (steps : List NestStep) (names : Nat → String)
    (entryS : Nat → Word)
    (h : Runs.StepsMeet nestStep BelowCap steps (Nest.idle names entryS)) :
    ∀ n ∈ Runs.states nestStep steps (Nest.idle names entryS), n.Accounted := by
  intro n hn
  have hlisted := Runs.states_of_stepsMeet nestStep listed_nestStep steps _
    (Nest.listed_idle names entryS) h n hn
  exact hlisted.accounted

/-- Two functions entered, the inner one left. -/
def callAndReturn : List NestStep :=
  [.prologue ⟨"bank_00_8000_M1X1", 0x1FF⟩, .prologue ⟨"bank_00_9000_M1X1", 0x1FD⟩, .pop]

theorem accounted_callAndReturn :
    Runs.StepsMeet nestStep BelowCap callAndReturn (Nest.idle (fun _ => "") 0) ∧
      ∀ n ∈ Runs.states nestStep callAndReturn (Nest.idle (fun _ => "") 0), n.Accounted :=
  have hcap : Runs.StepsMeet nestStep BelowCap callAndReturn (Nest.idle (fun _ => "") 0) := by
    decide
  ⟨hcap, accounted_of_belowCap callAndReturn (fun _ => "") 0 hcap⟩

/-! ### A recursion past the cap -/

/-- The frame of the `k`-th level of a function that calls itself. -/
def recursiveFrame (k : Nat) : Frame := ⟨"bank_00_8000_M1X1", 0x1FF - BitVec.ofNat 16 (2 * k)⟩

/-- Sixty-five levels down and one up. -/
def pastCap : List NestStep :=
  (List.range 65).map (fun k => .prologue (recursiveFrame k)) ++ [.pop]

/-- Sixty-four frames are live and the stack shows sixty-three: the entry level at the top
is the caller's, and the way to the grandparent's is counted as one return instead of two. -/
theorem not_accounted_pastCap :
    let n := Runs.final nestStep pastCap (Nest.idle (fun _ => "") 0)
    Runs.StepsMeet nestStep Paired pastCap (Nest.idle (fun _ => "") 0) ∧ ¬ n.Accounted ∧
      n.stack.host.cpuResolveAncestorSkip (recursiveFrame 61).entryS = 1 ∧
      n.ancestorSkip (recursiveFrame 61).entryS = 2 := by
  intro n
  refine ⟨by decide +kernel, fun h => ?_, by decide +kernel, by decide +kernel⟩
  have hentry := h.entry (recursiveFrame 63) (by decide)
  revert hentry
  decide +kernel

end SnesRecomp
