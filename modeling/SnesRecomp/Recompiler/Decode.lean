import SnesRecomp.Lib.Bits
import SnesRecomp.Recompiler.Insn

/-!
# Keys and successors of decoded instructions

`DecodeKey`, `post_state` and `_labeled_successors` of `decoder.py`.  An instruction is
decoded once for every address, pair of entry widths and stack of widths that `PHP` has
saved; the successors carry the state after it.

The maps the decoder is given are functions here.  Each of them is asked again at the
LoROM mirror of an address it does not know.
-/

namespace SnesRecomp.Recompiler

/-- `addr24`. -/
def addr24 (bank pc : Nat) : Nat := ((bank &&& 0xFF) <<< 16) ||| (pc &&& 0xFFFF)

/-- `DecodeKey`; the newest of the saved widths comes first. -/
structure DecodeKey where
  pc : Nat
  m : Bool
  x : Bool
  pStack : List (Bool × Bool)
  deriving DecidableEq, Repr

/-- How an edge is named by its instruction. -/
inductive EdgeKind
  | entry | jump | fall
  deriving DecidableEq, Repr

/-- `_TERMINATORS`. -/
def isTerminator : Mnem → Bool
  | .rts | .rtl | .rti | .stp | .wai | .brk => true
  | _ => false

/-- `_COND_BRANCHES`. -/
def isCondBranch : Mnem → Bool
  | .bpl | .bmi | .bvc | .bvs | .bcc | .bcs | .bne | .beq => true
  | _ => false

def phpStackMaxDepth : Nat := 8

/-- `post_state`: the widths after an instruction, and the saved ones. -/
def postState (insn : Insn) (m x : Bool) (pStack : List (Bool × Bool)) :
    Bool × Bool × List (Bool × Bool) :=
  match insn.mnem with
  | .rep =>
    (if insn.operand &&& 0x20 ≠ 0 then false else m, if insn.operand &&& 0x10 ≠ 0 then false else x,
      pStack)
  | .sep =>
    (if insn.operand &&& 0x20 ≠ 0 then true else m, if insn.operand &&& 0x10 ≠ 0 then true else x,
      pStack)
  | .php => if pStack.length < phpStackMaxDepth then (m, x, (m, x) :: pStack) else (m, x, pStack)
  | .plp =>
    match pStack with
    | [] => (m, x, [])
    | saved :: rest => (saved.1, saved.2, rest)
  | _ => (m, x, pStack)

/-- `callee_exit_mx`, `callee_exit_mx_modes` and `inline_arg_map`. -/
structure ExitMaps where
  calleeExitMx : Nat → Bool → Bool → Option (Option Bool × Option Bool)
  calleeExitMxModes : Nat → Bool → Bool → Option (List (Bool × Bool))
  inlineArgMap : Nat → Option Nat

/-- Nothing is known about any callee. -/
def ExitMaps.unknown : ExitMaps := ⟨fun _ _ _ => none, fun _ _ _ => none, fun _ => none⟩

/-- A lookup, retried at the mirror. -/
def getMirrored {α : Type} (get : Nat → Option α) (pc24 : Nat) : Option α :=
  match get pc24 with
  | some v => some v
  | none =>
    let bank := (pc24 >>> 16) &&& 0xFF
    if bank < 0x40 ∨ (0x80 ≤ bank ∧ bank < 0xC0) then get (pc24 ^^^ 0x800000) else none

/-- The target of a direct call. -/
def callTarget (insn : Insn) (bank : Nat) : Option Nat :=
  match insn.mnem with
  | .jsr => if insn.length = 3 then some (addr24 bank (insn.operand &&& 0xFFFF)) else none
  | .jsl => some (insn.operand &&& 0xFFFFFF)
  | _ => none

/-- The argument bytes the callee reads behind the call. -/
def inlineArgBytes (maps : ExitMaps) (insn : Insn) (bank : Nat) : Nat :=
  match (callTarget insn bank).bind (getMirrored maps.inlineArgMap) with
  | some nskip => nskip
  | none => 0

/-- `next_pc`, past the argument bytes of a call. -/
def nextPc (maps : ExitMaps) (insn : Insn) (bank : Nat) : Nat :=
  (((insn.addr &&& 0xFFFF) + insn.length) % 0x10000 + inlineArgBytes maps insn bank) % 0x10000

/-- The widths a call returns with, as far as the exit map has both of them. -/
def exitMx (maps : ExitMaps) (insn : Insn) (bank : Nat) (m x : Bool) : Bool × Bool :=
  match (callTarget insn bank).bind fun t => getMirrored (fun a => maps.calleeExitMx a m x) t with
  | some (some em, some ex) => (em, ex)
  | _ => (m, x)

/-- `decode_insn` at an address of the bank; `none` where `lorom_offset` or the decoding
raises. -/
def decodeAt (rom : Rom) (bank pc : Nat) (m x : Bool) : Option Insn :=
  if pc < 0x8000 then none else decodeInsn rom (loromOffset bank pc) pc bank m x

/-- The exit modes of a callee that returns in up to two, in front of a conditional
branch. -/
def exitModes (maps : ExitMaps) (rom : Rom) (insn : Insn) (bank : Nat) (m x : Bool) :
    List (Bool × Bool) :=
  match (callTarget insn bank).bind fun t =>
      getMirrored (fun a => maps.calleeExitMxModes a m x) t with
  | none => []
  | some modes =>
    let sorted := [(false, false), (false, true), (true, false), (true, true)].filter (· ∈ modes)
    if 2 < sorted.length then []
    else
      match decodeAt rom bank (nextPc maps insn bank) m x with
      | none => []
      | some next => if isCondBranch next.mnem then sorted else []

/-- The widths in which the code behind a call is decoded. -/
def returnModes (maps : ExitMaps) (rom : Rom) (insn : Insn) (bank : Nat) (m x : Bool) :
    List (Bool × Bool) :=
  let ret := exitMx maps insn bank m x
  let modes := if ret = (m, x) then exitModes maps rom insn bank m x else []
  if modes = [] then [ret] else modes

/-- `_labeled_successors`. -/
def labeledSuccessors (maps : ExitMaps) (rom : Rom) (insn : Insn) (key : DecodeKey) (bank : Nat) :
    List (DecodeKey × EdgeKind) :=
  let post := postState insn key.m key.x key.pStack
  let next := ((insn.addr &&& 0xFFFF) + insn.length) % 0x10000
  let keyAt (pc : Nat) : DecodeKey := ⟨addr24 bank pc, post.1, post.2.1, post.2.2⟩
  if isTerminator insn.mnem then []
  else if insn.mnem = .bra ∨ insn.mnem = .brl then [(keyAt insn.operand, .jump)]
  else if isCondBranch insn.mnem then [(keyAt next, .fall), (keyAt insn.operand, .jump)]
  else if insn.mnem = .jmp then
    if insn.mode = .abs then [(keyAt insn.operand, .jump)] else []
  else if insn.mnem = .jsr ∨ insn.mnem = .jsl then
    (returnModes maps rom insn bank post.1 post.2.1).map fun mode =>
      (⟨addr24 bank (nextPc maps insn bank), mode.1, mode.2, post.2.2⟩, .fall)
  else [(keyAt next, .fall)]

theorem addr24_and (bank : Nat) {pc : Nat} (hpc : pc < 0x10000) : addr24 bank pc &&& 0xFFFF = pc := by
  have hlow : pc &&& 0xFFFF < 2 ^ 16 := by
    rw [Bits.and_0xFFFF]
    omega
  unfold addr24
  rw [Bits.shiftLeft_or_eq_add hlow, Bits.and_0xFFFF, Bits.and_0xFFFF]
  omega

theorem returnModes_ne_nil (maps : ExitMaps) (rom : Rom) (insn : Insn) (bank : Nat) (m x : Bool) :
    returnModes maps rom insn bank m x ≠ [] := by
  unfold returnModes
  dsimp only
  intro h
  by_cases hmodes : (if exitMx maps insn bank m x = (m, x) then exitModes maps rom insn bank m x
      else []) = []
  · rw [if_pos hmodes] at h
    cases h
  · rw [if_neg hmodes] at h
    exact hmodes h

/-- The code behind a call is decoded at one address, in whatever widths. -/
theorem labeledSuccessors_call (maps : ExitMaps) (rom : Rom) {insn : Insn} (key : DecodeKey)
    (bank : Nat) (hcall : insn.mnem = .jsr ∨ insn.mnem = .jsl) :
    labeledSuccessors maps rom insn key bank ≠ [] ∧
      ∀ s ∈ labeledSuccessors maps rom insn key bank,
        s.1.pc = addr24 bank (nextPc maps insn bank) ∧ s.2 = .fall := by
  have hterm : ¬ isTerminator insn.mnem = true := by rcases hcall with h | h <;> rw [h] <;> decide
  have hcond : ¬ isCondBranch insn.mnem = true := by rcases hcall with h | h <;> rw [h] <;> decide
  have hbra : ¬ (insn.mnem = .bra ∨ insn.mnem = .brl) := by
    rcases hcall with h | h <;> rw [h] <;> decide
  have hjmp : ¬ insn.mnem = .jmp := by rcases hcall with h | h <;> rw [h] <;> decide
  unfold labeledSuccessors
  dsimp only
  rw [if_neg hterm, if_neg hbra, if_neg hcond, if_neg hjmp, if_pos hcall]
  refine ⟨fun h => returnModes_ne_nil _ _ _ _ _ _ (List.map_eq_nil_iff.mp h), fun s hs => ?_⟩
  obtain ⟨mode, _, rfl⟩ := List.mem_map.mp hs
  exact ⟨rfl, rfl⟩

end SnesRecomp.Recompiler
