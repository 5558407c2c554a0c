import SnesRecomp.Recompiler.Insn

/-!
# The cycle cost model

`snes_cycles.py`: the processor cycles of an opcode and its modifiers in native mode, and the
master clocks of an access by region.
-/

namespace SnesRecomp.Recompiler

/-! ### Master clocks -/

/-- `region_speed`. -/
def regionSpeed (addr24 : Nat) (memsel : Bool) : Nat :=
  let bank := (addr24 >>> 16) &&& 0xFF
  let addr := addr24 &&& 0xFFFF
  if 0x40 ≤ bank ∧ bank ≤ 0x7F then 8
  else if 0xC0 ≤ bank then if memsel then 6 else 8
  else if 0x8000 ≤ addr then
    if bank ≤ 0x3F then 8 else if memsel then 6 else 8
  else if addr < 0x2000 then 8
  else if addr < 0x4000 then 6
  else if addr < 0x4200 then 12
  else if addr < 0x6000 then 6
  else 8

/-! ### Processor cycles -/

/-- `_SPECIAL_BASE`. -/
def specialBase (op : Nat) : Option Nat :=
  match op with
  | 0x4C => some 3 | 0x5C => some 4 | 0x6C => some 5 | 0x7C => some 6 | 0xDC => some 6
  | 0x20 => some 6 | 0xFC => some 8 | 0x22 => some 8
  | 0x60 => some 6 | 0x6B => some 6 | 0x40 => some 6 | 0x00 => some 7 | 0x02 => some 7
  | 0x80 => some 3 | 0x82 => some 4
  | 0xF4 => some 5 | 0xD4 => some 6 | 0x62 => some 6
  | 0x48 => some 3 | 0x68 => some 4 | 0x08 => some 3 | 0x28 => some 4 | 0x8B => some 3
  | 0xAB => some 4 | 0x0B => some 4 | 0x2B => some 5 | 0x4B => some 3 | 0xDA => some 3
  | 0xFA => some 4 | 0x5A => some 3 | 0x7A => some 4
  | 0xEB => some 3 | 0xFB => some 2 | 0xDB => some 3 | 0xCB => some 3 | 0xEA => some 2
  | 0x42 => some 2 | 0xC2 => some 3 | 0xE2 => some 3
  | 0x44 => some 7 | 0x54 => some 7
  | _ => none

def isStoreMnem (m : Mnem) : Bool := m ∈ [.sta, .stx, .sty, .stz]

def isRmwMnem (m : Mnem) : Bool := m ∈ [.asl, .lsr, .rol, .ror, .inc, .dec, .tsb, .trb]

def isMWidthMnem (m : Mnem) : Bool :=
  m ∈ [.lda, .sta, .ora, .and, .eor, .adc, .sbc, .cmp, .bit, .stz]

def isXWidthMnem (m : Mnem) : Bool := m ∈ [.ldx, .ldy, .stx, .sty, .cpx, .cpy]

def isDpMode (mode : Mode) : Bool :=
  mode ∈ [.dp, .dpX, .dpY, .dpIndir, .indirDpx, .indirY, .indirL, .indirLY]

def isXcrossMode (mode : Mode) : Bool := mode ∈ [.absX, .absY, .indirY]

def isBlockMove (op : Byte) : Bool := op = 0x44 || op = 0x54

/-- `_mem_base`; `none` where the lookup raises. -/
def memBase (mode : Mode) (isStore isRmw : Bool) : Option Nat :=
  if isRmw then
    match mode with
    | .dp => some 5 | .dpX => some 6 | .abs => some 6 | .absX => some 7
    | _ => none
  else
    match mode with
    | .imm => some 2 | .dp => some 3 | .dpX => some 4 | .dpY => some 4 | .abs => some 4
    | .long => some 5 | .longX => some 5 | .dpIndir => some 5 | .indirDpx => some 6
    | .indirL => some 6 | .indirLY => some 6 | .stk => some 4 | .stkIY => some 7
    | .absX | .absY => some (if isStore then 5 else 4)
    | .indirY => some (if isStore then 6 else 5)
    | _ => none

/-- `base_cpu_cycles`. -/
def baseCpuCycles? (op : Byte) : Option Nat :=
  match specialBase op.toNat with
  | some n => some n
  | none =>
    let row := opcodeRow op
    if row.mode = .imp ∨ row.mode = .acc ∨ row.mode = .rel then some 2
    else memBase row.mode (isStoreMnem row.mnem) (isRmwMnem row.mnem)

/-- Every opcode has a base. -/
theorem baseCpuCycles?_isSome : ∀ op : Byte, (baseCpuCycles? op).isSome := by decide

def baseCpuCycles (op : Byte) : Nat := (baseCpuCycles? op).get (baseCpuCycles?_isSome op)

/-- `m_add`. -/
def mAdd (op : Byte) : Nat :=
  let row := opcodeRow op
  if op = 0x48 ∨ op = 0x68 then 1
  else if (specialBase op.toNat).isSome then 0
  else if row.mode ∈ [.imp, .acc, .rel, .rel16] then 0
  else if isRmwMnem row.mnem then 2
  else if isMWidthMnem row.mnem then 1
  else 0

/-- `x_add`. -/
def xAdd (op : Byte) : Nat :=
  if op = 0xDA ∨ op = 0xFA ∨ op = 0x5A ∨ op = 0x7A then 1
  else if (specialBase op.toNat).isSome then 0
  else if isXWidthMnem (opcodeRow op).mnem then 1
  else 0

/-- `dp_add`. -/
def dpAdd (op : Byte) : Nat :=
  if op = 0xD4 then 1
  else if (specialBase op.toNat).isSome then 0
  else if isDpMode (opcodeRow op).mode then 1
  else 0

/-- `xcross_add`. -/
def xcrossAdd (op : Byte) : Nat :=
  if (specialBase op.toNat).isSome then 0
  else if !isXcrossMode (opcodeRow op).mode then 0
  else if isStoreMnem (opcodeRow op).mnem then 0
  else 1

/-- `branch_class`. -/
def branchClass (op : Byte) : Nat :=
  if op = 0x80 then 2
  else if op ∈ [0x10, 0x30, 0xF0, 0xD0, 0x90, 0xB0, 0x50, 0x70] then 1
  else 0

/-- `e_add`, for native mode. -/
def eAdd (op : Byte) : Nat := if op = 0x40 ∨ op = 0x00 ∨ op = 0x02 then 1 else 0

/-- The modifiers of one execution that depend on run time. -/
structure Modifiers where
  dpLowNonzero : Bool
  indexPageCross : Bool
  branchTaken : Bool
  deriving DecidableEq, Repr

/-- `instr_cpu_cycles` with `e = 0`; a block move costs as much as one byte of it. -/
def instrCpuCycles (op : Byte) (m x : Bool) (mods : Modifiers) : Nat :=
  if isBlockMove op then 7
  else
    baseCpuCycles op + (if m then 0 else mAdd op) + (if x then 0 else xAdd op) +
      (if mods.dpLowNonzero then dpAdd op else 0) +
      (if mods.indexPageCross then xcrossAdd op else 0) +
      (if branchClass op = 1 ∧ mods.branchTaken then 1 else 0) + eAdd op

/-- `instr_static_cycles`. -/
def instrStaticCycles (op : Byte) (m x : Bool) : Nat :=
  baseCpuCycles op + (if m then 0 else mAdd op) + (if x then 0 else xAdd op) + eAdd op

/-! ### What the tables say -/

theorem blockMove_static : ∀ op : Byte, isBlockMove op = true → ∀ m x, instrStaticCycles op m x = 7 := by
  decide

theorem blockMove_adds : ∀ op : Byte, isBlockMove op = true →
    dpAdd op = 0 ∧ xcrossAdd op = 0 ∧ branchClass op = 0 := by
  decide

theorem dpAdd_le (op : Byte) : dpAdd op ≤ 1 := by
  rw [dpAdd]
  split_ifs <;> omega

theorem xcrossAdd_le (op : Byte) : xcrossAdd op ≤ 1 := by
  rw [xcrossAdd]
  split_ifs <;> omega

theorem mode_of_xcrossAdd (op : Byte) (h : xcrossAdd op ≠ 0) : isXcrossMode (opcodeRow op).mode = true := by
  rw [xcrossAdd] at h
  split_ifs at h with hspecial hmode hstore
  · exact absurd rfl h
  · exact absurd rfl h
  · exact absurd rfl h
  · simpa using hmode

theorem branchClass_of_mnem : ∀ op : Byte,
    (opcodeRow op).mnem ∈ [.bpl, .bmi, .bvc, .bvs, .bcc, .bcs, .bne, .beq] → branchClass op = 1 := by
  decide +kernel

/-- The pushes of a trampoline have no modifier. -/
theorem setup_adds : ∀ op : Byte, (opcodeRow op).mnem ∈ [Mnem.phk, .pea, .per] →
    dpAdd op = 0 ∧ xcrossAdd op = 0 ∧ branchClass op = 0 := by
  decide

/-- The static cycles and the modifiers make up the cost. -/
theorem instrCpuCycles_eq (op : Byte) (m x : Bool) (mods : Modifiers) :
    instrCpuCycles op m x mods = instrStaticCycles op m x +
      (if mods.dpLowNonzero then dpAdd op else 0) +
      (if mods.indexPageCross then xcrossAdd op else 0) +
      (if branchClass op = 1 ∧ mods.branchTaken then 1 else 0) := by
  unfold instrCpuCycles
  cases hmove : isBlockMove op with
  | true =>
    obtain ⟨hdp, hcross, hbranch⟩ := blockMove_adds op hmove
    rw [if_pos rfl, blockMove_static op hmove, hdp, hcross, hbranch]
    simp
  | false =>
    rw [if_neg (by decide), instrStaticCycles]
    omega

end SnesRecomp.Recompiler
