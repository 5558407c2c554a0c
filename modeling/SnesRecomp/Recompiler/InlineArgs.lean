import SnesRecomp.Recompiler.Decode

/-!
# Inline argument bytes

`detect_inline_arg_bytes` of `decoder.py`: a routine that loads its return address from the stack,
adds a constant and stores it back to the same slot takes the bytes behind its call as arguments.
The scan goes through the code in one line and keeps track of the slot that `A` and `Y` come from.
-/

namespace SnesRecomp.Recompiler

/-- Opcodes are looked up in lists. -/
local instance lawfulByte : LawfulBEq Byte := inferInstance

/-- `A_PRESERVING`. -/
def aPreserving : List Byte :=
  [0x85, 0x8D, 0x8F, 0x95, 0x9D, 0x99, 0x92, 0x87, 0x97, 0x81, 0x91, 0x9C, 0x9E,
    0x86, 0x8E, 0x96, 0x84, 0x8C, 0x94,
    0x18, 0x38, 0xD8, 0xF8, 0x58, 0x78, 0xB8,
    0xAA, 0xA8,
    0xE8, 0xC8, 0xCA, 0x88,
    0xA2, 0xA6, 0xB6, 0xAE, 0xBE,
    0xA0, 0xA4, 0xB4, 0xAC, 0xBC,
    0xE0, 0xE4, 0xEC, 0xC0, 0xC4, 0xCC,
    0x48, 0xDA, 0x5A, 0x08, 0x8B, 0x4B, 0x0B,
    0xEA, 0x42]

/-- The instructions of the list that forget `Y`; `PLY` is named with them and is not in the
list. -/
def yChanging : List Byte := [0xA0, 0xA4, 0xB4, 0xAC, 0xBC, 0xC8, 0x88, 0x7A]

/-- The state of the scan: the slot a register was loaded from, and what was added since. -/
structure InlineScan where
  pc : Nat
  m : Bool
  x : Bool
  aSlot : Option Nat
  aAdded : Nat
  ySlot : Option Nat
  yAdded : Nat
  deriving DecidableEq, Repr

/-- How the scan treats an instruction. -/
inductive ScanKind
  | stop
  | rep | sep
  /-- `LDA $nn,S` -/
  | load
  | tay | tya
  /-- `ADC #imm` on a tracked value -/
  | add
  /-- `STA $nn,S` -/
  | store
  | preserve
  | clobber
  deriving DecidableEq, Repr

/-- The chain of tests of the loop. -/
def InlineScan.kind (sc : InlineScan) (ins : Insn) : ScanKind :=
  if isTerminator ins.mnem then .stop
  else if ins.mnem = .rep then .rep
  else if ins.mnem = .sep then .sep
  else if ins.mnem = .lda ∧ ins.mode = .stk then .load
  else if ins.opcode = 0xA8 then .tay
  else if ins.opcode = 0x98 then .tya
  else if ins.opcode = 0x69 ∧ sc.aSlot.isSome then .add
  else if ins.opcode = 0x83 ∧ ins.mode = .stk then .store
  else if ins.opcode ∈ aPreserving then .preserve
  else .clobber

/-- What the tests say of the instruction. -/
def ScanKind.Fits (sc : InlineScan) (ins : Insn) : ScanKind → Prop
  | .rep => ins.mnem = .rep
  | .sep => ins.mnem = .sep
  | .load => ins.mnem = .lda ∧ ins.mode = .stk
  | .tay => ins.opcode = 0xA8
  | .tya => ins.opcode = 0x98
  | .add => ins.opcode = 0x69 ∧ sc.aSlot.isSome
  | .store => ins.opcode = 0x83
  | .preserve => ins.opcode ∈ aPreserving ∧ ins.opcode ≠ 0xA8
  | .stop | .clobber => True

theorem fits_kind (sc : InlineScan) (ins : Insn) : (sc.kind ins).Fits sc ins := by
  unfold InlineScan.kind
  split_ifs with h1 h2 h3 h4 h5 h6 h7 h8 h9
  · trivial
  · exact h2
  · exact h3
  · exact h4
  · exact h5
  · exact h6
  · exact h7
  · exact h8.1
  · exact ⟨h9, h5⟩
  · trivial

/-- The slot and the sum of a register that is copied; a register without a slot has no sum. -/
def copySlot (slot : Option Nat) (added : Nat) : Option Nat × Nat :=
  match slot with
  | some s => (some s, added)
  | none => (none, 0)

/-- The scan behind an instruction that it does not stop at. -/
def InlineScan.track (sc : InlineScan) (ins : Insn) : InlineScan :=
  match sc.kind ins with
  | .rep =>
    { sc with
      m := if ins.operand &&& 0x20 ≠ 0 then false else sc.m
      x := if ins.operand &&& 0x10 ≠ 0 then false else sc.x }
  | .sep =>
    { sc with
      m := if ins.operand &&& 0x20 ≠ 0 then true else sc.m
      x := if ins.operand &&& 0x10 ≠ 0 then true else sc.x }
  | .load => { sc with aSlot := some (ins.operand &&& 0xFF), aAdded := 0 }
  | .tay =>
    let copy := copySlot sc.aSlot sc.aAdded
    { sc with ySlot := copy.1, yAdded := copy.2 }
  | .tya =>
    let copy := copySlot sc.ySlot sc.yAdded
    { sc with aSlot := copy.1, aAdded := copy.2 }
  | .add => { sc with aAdded := (sc.aAdded + ins.operand) &&& 0xFFFF }
  | .preserve => if ins.opcode ∈ yChanging then { sc with ySlot := none, yAdded := 0 } else sc
  | .clobber => { sc with aSlot := none, aAdded := 0 }
  | .stop | .store => sc

/-- The write-back that the scan looks for. -/
def InlineScan.writesBack (sc : InlineScan) (ins : Insn) : Bool :=
  sc.kind ins = .store && sc.aSlot = some (ins.operand &&& 0xFF) && sc.aAdded ≠ 0

/-- The scan at the next instruction. -/
def InlineScan.next (sc : InlineScan) (ins : Insn) : InlineScan :=
  { sc.track ins with pc := (sc.pc + ins.length) &&& 0xFFFF }

/-- The loop, for `budget` more instructions. -/
def scanInlineArgs (rom : Rom) (bank : Nat) : Nat → InlineScan → Option Nat
  | 0, _ => none
  | budget + 1, sc =>
    match decodeAt rom bank sc.pc sc.m sc.x with
    | none => none
    | some ins =>
      if sc.kind ins = .stop then none
      else if sc.writesBack ins then some (sc.aAdded &&& 0xFF)
      else scanInlineArgs rom bank budget (sc.next ins)

/-- The scan at the entry. -/
def InlineScan.entry (addr : Nat) (entryM entryX : Bool) : InlineScan :=
  ⟨addr &&& 0xFFFF, entryM, entryX, none, 0, none, 0⟩

/-- `detect_inline_arg_bytes`. -/
def detectInlineArgBytes (rom : Rom) (bank addr : Nat) (entryM entryX : Bool) : Option Nat :=
  scanInlineArgs rom bank 96 (.entry addr entryM entryX)

/-! ### The loop, one instruction further -/

section Scan

variable {rom : Rom} {bank budget n : Nat} {sc : InlineScan} {ins : Insn}

theorem kind_ne_stop (h : scanInlineArgs rom bank budget sc = some n)
    (hread : decodeAt rom bank sc.pc sc.m sc.x = some ins) : sc.kind ins ≠ .stop := by
  intro hstop
  cases budget with
  | zero => cases h
  | succ budget =>
    rw [scanInlineArgs, hread] at h
    dsimp only at h
    rw [if_pos hstop] at h
    cases h

theorem scan_next (h : scanInlineArgs rom bank (budget + 1) sc = some n)
    (hread : decodeAt rom bank sc.pc sc.m sc.x = some ins) (hback : sc.writesBack ins = false) :
    scanInlineArgs rom bank budget (sc.next ins) = some n := by
  have hstop := kind_ne_stop h hread
  rw [scanInlineArgs, hread] at h
  dsimp only at h
  rw [if_neg hstop, hback, if_neg Bool.false_ne_true] at h
  exact h

theorem scan_found (h : scanInlineArgs rom bank budget sc = some n)
    (hread : decodeAt rom bank sc.pc sc.m sc.x = some ins) (hback : sc.writesBack ins = true) :
    n = sc.aAdded &&& 0xFF := by
  cases budget with
  | zero => cases h
  | succ budget =>
    rw [scanInlineArgs, hread] at h
    dsimp only at h
    by_cases hstop : sc.kind ins = .stop
    · rw [if_pos hstop] at h
      cases h
    · rw [if_neg hstop, hback, if_pos rfl] at h
      exact (Option.some.inj h).symm

end Scan

end SnesRecomp.Recompiler
