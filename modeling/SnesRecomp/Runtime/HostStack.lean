import SnesRecomp.Runtime.CpuState

/-!
# The stack of recompiled functions

`g_recomp_stack_top` and `g_cpu_entry_s` of `runner/src/common_cpu_infra.c`.  Every
compiled function pushes itself on entry, records the stack level it was entered with,
and pops itself before each `return`.  The names on the stack are for diagnostics and
are left out.

`cpuResolveAncestorSkip` looks for an ancestor by its entry level.  Read from the top,
the live part of the array is a list (`words`), on which a push is `cons`, a pop is
`tail` and the search is `findIdx?`.
-/

namespace SnesRecomp

def recompStackDepth : Nat := 64

/-- `g_recomp_stack_top` and `g_cpu_entry_s`. -/
structure HostStack where
  top : Nat
  entryS : Nat → Word

namespace HostStack

/-- `RecompStackPush`: past the depth cap the push is dropped. -/
def push (st : HostStack) : HostStack :=
  { st with top := if st.top < recompStackDepth then st.top + 1 else st.top }

/-- `RecompStackPop`. -/
def pop (st : HostStack) : HostStack := { st with top := if 0 < st.top then st.top - 1 else st.top }

/-- The prologue's `g_cpu_entry_s[g_recomp_stack_top - 1] = _entry_s`. -/
def record (entryS : Word) (st : HostStack) : HostStack :=
  if 1 ≤ st.top then { st with entryS := Function.update st.entryS (st.top - 1) entryS } else st

/-- The loop of `cpu_resolve_ancestor_skip`, from index `n - 1` down. -/
def scan (st : HostStack) (retS : Word) : Nat → Int
  | 0 => -1
  | i + 1 => if st.entryS i = retS then ((st.top - 1 : Nat) : Int) - i else scan st retS i

/-- `cpu_resolve_ancestor_skip`. -/
def cpuResolveAncestorSkip (st : HostStack) (retS : Word) : Int :=
  if st.top < 2 ∨ recompStackDepth < st.top then -1 else scan st retS (st.top - 1)

/-! ### The stack as a list -/

/-- The entry levels below index `n`, the topmost first. -/
def below (entryS : Nat → Word) : Nat → List Word
  | 0 => []
  | n + 1 => entryS n :: below entryS n

/-- The entry levels of the live frames, the running function first. -/
def words (st : HostStack) : List Word := below st.entryS st.top

theorem length_below (entryS : Nat → Word) (n : Nat) : (below entryS n).length = n := by
  induction n with
  | zero => rfl
  | succ n ih => exact congrArg Nat.succ ih

theorem length_words (st : HostStack) : st.words.length = st.top := length_below st.entryS st.top

theorem below_update (entryS : Nat → Word) (w : Word) {k : Nat} :
    ∀ n, n ≤ k → below (Function.update entryS k w) n = below entryS n := by
  intro n
  induction n with
  | zero => intro _; rfl
  | succ n ih =>
    intro hn
    rw [below, below, ih (by omega), Function.update_of_ne (by omega)]

/-- Entering a function below the cap. -/
theorem words_record_push (st : HostStack) (w : Word) (h : st.top < recompStackDepth) :
    (st.push.record w).words = w :: st.words := by
  have htop : st.push.top = st.top + 1 := if_pos h
  have hrec : st.push.record w =
      { st.push with entryS := Function.update st.entryS st.top w } := by
    have hidx : st.push.top - 1 = st.top := by omega
    unfold record
    rw [if_pos (by omega), hidx]
    rfl
  rw [hrec, words]
  show below (Function.update st.entryS st.top w) st.push.top = _
  rw [htop, below, Function.update_self, below_update _ _ _ (Nat.le_refl _)]
  rfl

theorem words_pop (st : HostStack) : st.pop.words = st.words.tail := by
  unfold pop words
  cases st.top with
  | zero => rfl
  | succ n => rfl

theorem scan_eq (st : HostStack) (retS : Word) : ∀ n, n ≤ st.top - 1 →
    scan st retS n =
      match (below st.entryS n).findIdx? (· = retS) with
      | some k => ((st.top - 1 - n + k + 1 : Nat) : Int)
      | none => -1 := by
  intro n
  induction n with
  | zero => intro _; rfl
  | succ n ih =>
    intro hn
    rw [scan, below, List.findIdx?_cons]
    by_cases hw : st.entryS n = retS
    · rw [if_pos hw, if_pos (decide_eq_true hw)]
      show ((st.top - 1 : Nat) : Int) - n = ((st.top - 1 - (n + 1) + 0 + 1 : Nat) : Int)
      omega
    · rw [if_neg hw, if_neg (by simpa using hw), ih (by omega)]
      cases (below st.entryS n).findIdx? (· = retS) with
      | none => rfl
      | some k =>
        show ((st.top - 1 - n + k + 1 : Nat) : Int) = ((st.top - 1 - (n + 1) + (k + 1) + 1 : Nat) : Int)
        omega

/-- The skip count is one more than the position among the strict ancestors. -/
theorem cpuResolveAncestorSkip_eq (st : HostStack) (retS : Word) (h : st.top ≤ recompStackDepth) :
    st.cpuResolveAncestorSkip retS =
      match st.words.tail.findIdx? (· = retS) with
      | some k => ((k + 1 : Nat) : Int)
      | none => -1 := by
  have htail : st.words.tail = below st.entryS (st.top - 1) := by
    unfold words
    cases st.top <;> rfl
  unfold cpuResolveAncestorSkip
  rw [htail]
  by_cases htop : st.top < 2
  · rw [if_pos (Or.inl htop)]
    have hz : st.top - 1 = 0 := by omega
    rw [hz]
    rfl
  · rw [if_neg (by omega), scan_eq st retS _ (Nat.le_refl _)]
    cases (below st.entryS (st.top - 1)).findIdx? (· = retS) with
    | none => rfl
    | some k =>
      show ((st.top - 1 - (st.top - 1) + k + 1 : Nat) : Int) = ((k + 1 : Nat) : Int)
      omega

end HostStack

end SnesRecomp
