import SnesRecomp.Recompiler.Insn

/-!
# The stateful IR and the lowering to it

`ir.py` and `lowering.py`.  A decoded instruction is lowered to a short list of IR
operations over values (numbered handles), registers and memory references
(`SegRef`).  `vid` is the first number the value factory of the source would hand out;
the handlers take values in the order of its calls.
-/

namespace SnesRecomp.Recompiler

inductive Reg
  | a | b | x | y | s | d | db | pb | p | m | xf | e | n | v | zf | c | i | df
  deriving DecidableEq, Repr

inductive SegKind
  | direct | absBank | long | stack | dpIndirect | dpIndirectLong | absIndirect
  | absIndirectLong | absIndirectX | dpIndirectX | stackRelIndirectY
  deriving DecidableEq, Repr

/-- A resolved memory reference; `index` is `x` or `y` if there is one. -/
structure SegRef where
  kind : SegKind
  offset : Nat
  bank : Option Nat
  index : Option Reg
  deriving DecidableEq, Repr

/-- The operation widths `1` and `2`. -/
inductive Width
  | byte | word
  deriving DecidableEq, Repr

abbrev Value := Nat

inductive AluOp
  | add | sub | and | or | xor | cmp
  deriving DecidableEq, Repr

inductive ShiftOp
  | asl | lsr | rol | ror
  deriving DecidableEq, Repr

/-- The `delta` of increments: `+1` or `-1`. -/
inductive Delta
  | up | down
  deriving DecidableEq, Repr

inductive Direction
  | mvn | mvp
  deriving DecidableEq, Repr

/-- The fields of `Call`. -/
structure CallOp where
  target : Option Nat
  long : Bool
  indirect : Bool
  entryM : Bool
  entryX : Bool
  sourcePc24 : Option Nat
  tableBase : Option Nat
  deriving DecidableEq, Repr

/-- The fields of `Return`. -/
structure ReturnOp where
  long : Bool
  interrupt : Bool
  sourcePc24 : Option Nat
  deriving DecidableEq, Repr

inductive IROp
  | read (seg : SegRef) (width : Width) (out : Value)
  | write (seg : SegRef) (src : Value) (width : Width)
  | readReg (reg : Reg) (out : Value)
  | writeReg (reg : Reg) (src : Value)
  | constI (value : Nat) (width : Width) (out : Value)
  | alu (op : AluOp) (lhs rhs : Value) (width : Width) (out : Option Value)
  | shift (op : ShiftOp) (src : Value) (width : Width) (out : Value)
  | incReg (reg : Reg) (delta : Delta)
  | incMem (seg : SegRef) (width : Width) (delta : Delta)
  | bitTest (operand : Value) (width : Width) (imm : Bool)
  | bitSetMem (seg : SegRef) (width : Width)
  | bitClearMem (seg : SegRef) (width : Width)
  | setFlag (flag : Reg) (value : Bool)
  | setNZ (src : Value) (width : Width)
  | repFlags (mask : Nat)
  | sepFlags (mask : Nat)
  | xce
  | push (src : Value) (width : Width)
  | pull (width : Width) (out : Value)
  | pushReg (reg : Reg) (staticM staticX : Option Bool)
  | pullReg (reg : Reg) (staticM staticX : Option Bool)
  | blockMove (direction : Direction) (srcBank dstBank : Nat)
  | condBranch (flag : Reg) (takeIf : Bool)
  | goto
  | indirectGoto (seg : SegRef)
  | call (op : CallOp)
  | ret (op : ReturnOp)
  | transfer (src dst : Reg)
  | xba
  | nop
  | brk (cop : Bool)
  | stop (wait : Bool)
  | pushEffectiveAddress (seg : SegRef)
  deriving DecidableEq, Repr

/-! ### Addressing modes -/

/-- `_segref_for`; `none` where the source raises. -/
def segrefFor (mode : Mode) (op : Nat) : Option SegRef :=
  match mode with
  | .dp => some ⟨.direct, op, none, none⟩
  | .dpX => some ⟨.direct, op, none, some .x⟩
  | .dpY => some ⟨.direct, op, none, some .y⟩
  | .abs => some ⟨.absBank, op, none, none⟩
  | .absX => some ⟨.absBank, op, none, some .x⟩
  | .absY => some ⟨.absBank, op, none, some .y⟩
  | .long => some ⟨.long, op &&& 0xFFFF, some ((op >>> 16) &&& 0xFF), none⟩
  | .longX => some ⟨.long, op &&& 0xFFFF, some ((op >>> 16) &&& 0xFF), some .x⟩
  | .stk => some ⟨.stack, op, none, none⟩
  | .stkIY => some ⟨.stackRelIndirectY, op, none, none⟩
  | .indir => some ⟨.absIndirect, op, none, none⟩
  | .indirX => some ⟨.absIndirectX, op, none, none⟩
  | .dpIndir => some ⟨.dpIndirect, op, none, none⟩
  | .indirY => some ⟨.dpIndirect, op, none, some .y⟩
  | .indirDpx => some ⟨.dpIndirectX, op, none, none⟩
  | .indirL => some ⟨.dpIndirectLong, op, none, none⟩
  | .indirLY => some ⟨.dpIndirectLong, op, none, some .y⟩
  | .imp | .acc | .imm | .rel | .rel16 => none

def widthOf (flag : Bool) : Width := if flag then .byte else .word

def widthA (insn : Insn) : Width := widthOf insn.mFlag

def widthX (insn : Insn) : Width := widthOf insn.xFlag

/-! ### Handlers -/

/-- The operand of a load: an immediate or a read. -/
def operandOps (insn : Insn) (width : Width) (out : Value) : Option (List IROp) :=
  if insn.mode = .imm then some [.constI insn.operand width out]
  else do return [.read (← segrefFor insn.mode insn.operand) width out]

/-- `_h_lda`, `_h_ldx`, `_h_ldy`. -/
def loadHandler (reg : Reg) (width : Insn → Width) (insn : Insn) (vid : Value) :
    Option (List IROp) := do
  let pre ← operandOps insn (width insn) vid
  return pre ++ [.writeReg reg vid, .setNZ vid (width insn)]

/-- `_h_sta`, `_h_stx`, `_h_sty`. -/
def storeHandler (reg : Reg) (width : Insn → Width) (insn : Insn) (vid : Value) :
    Option (List IROp) := do
  let seg ← segrefFor insn.mode insn.operand
  return [.readReg reg vid, .write seg vid (width insn)]

def hStz (insn : Insn) (vid : Value) : Option (List IROp) := do
  let seg ← segrefFor insn.mode insn.operand
  return [.constI 0 (widthA insn) vid, .write seg vid (widthA insn)]

/-- `_alu_handler`: the right operand first, then the register, then the result. -/
def aluHandler (op : AluOp) (lhsReg : Reg) (width : Insn → Width) (insn : Insn) (vid : Value) :
    Option (List IROp) := do
  let pre ← operandOps insn (width insn) vid
  let out := if op = .cmp then none else some (vid + 2)
  let post := if op = .cmp then [] else [.writeReg lhsReg (vid + 2)]
  return pre ++ [.readReg lhsReg (vid + 1), .alu op (vid + 1) vid (width insn) out] ++ post

def shiftHandler (op : ShiftOp) (insn : Insn) (vid : Value) : Option (List IROp) :=
  let width := widthA insn
  if insn.mode = .acc then
    some [.readReg .a vid, .shift op vid width (vid + 1), .writeReg .a (vid + 1)]
  else do
    let seg ← segrefFor insn.mode insn.operand
    return [.read seg width vid, .shift op vid width (vid + 1), .write seg (vid + 1) width]

/-- `_h_inc` and `_h_dec`. -/
def incHandler (delta : Delta) (insn : Insn) : Option (List IROp) :=
  if insn.mode = .acc then some [.incReg .a delta]
  else do return [.incMem (← segrefFor insn.mode insn.operand) (widthA insn) delta]

def hBit (insn : Insn) (vid : Value) : Option (List IROp) := do
  let pre ← operandOps insn (widthA insn) vid
  return pre ++ [.bitTest vid (widthA insn) (insn.mode = .imm)]

/-- `BEQ` and its siblings; the constant-Z fold leaves a plain jump. -/
def condBranchHandler (flag : Reg) (takeIf : Bool) (insn : Insn) : Option (List IROp) :=
  some [if insn.constZFoldUnconditional then .goto else .condBranch flag takeIf]

def hJmp (insn : Insn) : Option (List IROp) :=
  if insn.mode = .indir ∧ insn.opcode = 0xDC then
    some [.indirectGoto ⟨.absIndirectLong, insn.operand &&& 0xFFFF, none, none⟩]
  else if insn.mode = .indir ∨ insn.mode = .indirX then do
    return [.indirectGoto (← segrefFor insn.mode insn.operand)]
  else some [.goto]

def hJsr (insn : Insn) : Option (List IROp) :=
  if insn.mode = .indirX then
    some [.call ⟨none, false, true, insn.mFlag, insn.xFlag, some (insn.addr &&& 0xFFFFFF),
      some (insn.operand &&& 0xFFFF)⟩]
  else
    let srcBank := (insn.addr >>> 16) &&& 0xFF
    some [.call ⟨some ((srcBank <<< 16) ||| (insn.operand &&& 0xFFFF)), false, false, insn.mFlag,
      insn.xFlag, some (insn.addr &&& 0xFFFFFF), none⟩]

def hJsl (insn : Insn) : Option (List IROp) :=
  some [.call ⟨some insn.operand, true, false, insn.mFlag, insn.xFlag,
    some (insn.addr &&& 0xFFFFFF), none⟩]

/-- `_h_rts`, `_h_rtl` and `_h_rti`. -/
def returnHandler (long interrupt : Bool) (insn : Insn) : Option (List IROp) :=
  some [.ret ⟨long, interrupt, some (insn.addr &&& 0xFFFFFF)⟩]

/-- `_push_reg` and `_pull_reg` stamp the decoder's widths. -/
def pushHandler (reg : Reg) (insn : Insn) : Option (List IROp) :=
  some [.pushReg reg (some insn.mFlag) (some insn.xFlag)]

def pullHandler (reg : Reg) (insn : Insn) : Option (List IROp) :=
  some [.pullReg reg (some insn.mFlag) (some insn.xFlag)]

/-- The first operand byte is the destination bank. -/
def blockMoveHandler (direction : Direction) (insn : Insn) : Option (List IROp) :=
  some [.blockMove direction ((insn.operand >>> 8) &&& 0xFF) (insn.operand &&& 0xFF)]

/-- `lower`; `none` where a handler of the source raises. -/
def lower (insn : Insn) (vid : Value) : Option (List IROp) :=
  match insn.mnem with
  | .lda => loadHandler .a widthA insn vid
  | .ldx => loadHandler .x widthX insn vid
  | .ldy => loadHandler .y widthX insn vid
  | .sta => storeHandler .a widthA insn vid
  | .stx => storeHandler .x widthX insn vid
  | .sty => storeHandler .y widthX insn vid
  | .stz => hStz insn vid
  | .adc => aluHandler .add .a widthA insn vid
  | .sbc => aluHandler .sub .a widthA insn vid
  | .and => aluHandler .and .a widthA insn vid
  | .ora => aluHandler .or .a widthA insn vid
  | .eor => aluHandler .xor .a widthA insn vid
  | .cmp => aluHandler .cmp .a widthA insn vid
  | .cpx => aluHandler .cmp .x widthX insn vid
  | .cpy => aluHandler .cmp .y widthX insn vid
  | .asl => shiftHandler .asl insn vid
  | .lsr => shiftHandler .lsr insn vid
  | .rol => shiftHandler .rol insn vid
  | .ror => shiftHandler .ror insn vid
  | .inc => incHandler .up insn
  | .dec => incHandler .down insn
  | .inx => some [.incReg .x .up]
  | .iny => some [.incReg .y .up]
  | .dex => some [.incReg .x .down]
  | .dey => some [.incReg .y .down]
  | .bit => hBit insn vid
  | .tsb => do return [.bitSetMem (← segrefFor insn.mode insn.operand) (widthA insn)]
  | .trb => do return [.bitClearMem (← segrefFor insn.mode insn.operand) (widthA insn)]
  | .tax => some [.transfer .a .x]
  | .txa => some [.transfer .x .a]
  | .tay => some [.transfer .a .y]
  | .tya => some [.transfer .y .a]
  | .txy => some [.transfer .x .y]
  | .tyx => some [.transfer .y .x]
  | .tsx => some [.transfer .s .x]
  | .txs => some [.transfer .x .s]
  | .tcd => some [.transfer .a .d]
  | .tdc => some [.transfer .d .a]
  | .tcs => some [.transfer .a .s]
  | .tsc => some [.transfer .s .a]
  | .clc => some [.setFlag .c false]
  | .sec => some [.setFlag .c true]
  | .cli => some [.setFlag .i false]
  | .sei => some [.setFlag .i true]
  | .cld => some [.setFlag .df false]
  | .sed => some [.setFlag .df true]
  | .clv => some [.setFlag .v false]
  | .rep => some [.repFlags insn.operand]
  | .sep => some [.sepFlags insn.operand]
  | .xce => some [.xce]
  | .xba => some [.xba]
  | .pha => pushHandler .a insn
  | .pla => pullHandler .a insn
  | .phx => pushHandler .x insn
  | .plx => pullHandler .x insn
  | .phy => pushHandler .y insn
  | .ply => pullHandler .y insn
  | .phb => pushHandler .db insn
  | .plb => pullHandler .db insn
  | .phd => pushHandler .d insn
  | .pld => pullHandler .d insn
  | .phk => pushHandler .pb insn
  | .php => pushHandler .p insn
  | .plp => pullHandler .p insn
  | .pea => some [.pushEffectiveAddress ⟨.absBank, insn.operand, none, none⟩]
  | .per => some [.pushEffectiveAddress ⟨.absBank, insn.operand, none, none⟩]
  | .pei => some [.pushEffectiveAddress ⟨.dpIndirect, insn.operand, none, none⟩]
  | .mvn => blockMoveHandler .mvn insn
  | .mvp => blockMoveHandler .mvp insn
  | .bpl => condBranchHandler .n false insn
  | .bmi => condBranchHandler .n true insn
  | .bvc => condBranchHandler .v false insn
  | .bvs => condBranchHandler .v true insn
  | .bcc => condBranchHandler .c false insn
  | .bcs => condBranchHandler .c true insn
  | .bne => condBranchHandler .zf false insn
  | .beq => condBranchHandler .zf true insn
  | .bra => some [.goto]
  | .brl => some [.goto]
  | .jmp => hJmp insn
  | .jsr => hJsr insn
  | .jsl => hJsl insn
  | .rts => returnHandler false false insn
  | .rtl => returnHandler true false insn
  | .rti => returnHandler true true insn
  | .nop => some [.nop]
  | .wdm => some [.nop]
  | .brk => some [.brk false]
  | .cop => some [.brk true]
  | .stp => some [.stop false]
  | .wai => some [.stop true]

/-! ### What the handlers produce -/

/-- How an operation is tied to the instruction it comes from: only the data registers and
`S`, `D`, `DB`, `P` are written, and transfers of control have their mnemonics. -/
@[simp] def IROp.From (insn : Insn) : IROp → Prop
  | .writeReg reg _ | .incReg reg _ => reg = .a ∨ reg = .x ∨ reg = .y
  | .setFlag reg _ | .pullReg reg _ _ | .transfer _ reg => reg ≠ .pb
  | .pushReg _ _ _ => insn.mnem ≠ .jmp ∧ insn.mnem ≠ .jsr ∧ insn.mnem ≠ .jsl
  | .indirectGoto _ => insn.mnem = .jmp
  | .call _ => insn.mnem = .jsr ∨ insn.mnem = .jsl
  | .ret _ => insn.mnem = .rts ∨ insn.mnem = .rtl ∨ insn.mnem = .rti
  | _ => True

/-- Only `PHP` and `PLP` name the packed status byte. -/
@[simp] def IROp.SparesP : IROp → Prop
  | .readReg reg _ | .setFlag reg _ => reg ≠ .p
  | .transfer src dst => src ≠ .p ∧ dst ≠ .p
  | _ => True

/-- What every operation of the lowering keeps to. -/
def IROp.Lowered (insn : Insn) (op : IROp) : Prop := op.From insn ∧ op.SparesP

/-- The shape of every handler that names memory. -/
theorem segref_lowered {insn : Insn} {mode : Mode} {operand : Nat} {f : SegRef → List IROp} {ops : List IROp}
    (h : (segrefFor mode operand).bind (fun seg => some (f seg)) = some ops)
    (hf : ∀ seg, ∀ op ∈ f seg, op.Lowered insn) : ∀ op ∈ ops, op.Lowered insn := by
  obtain ⟨seg, _, hseg⟩ := Option.bind_eq_some_iff.mp h
  obtain rfl := Option.some.inj hseg
  exact hf seg

theorem operandOps_lowered {insn : Insn} {width : Width} {out : Value} {ops : List IROp}
    (h : operandOps insn width out = some ops) : ∀ op ∈ ops, op.Lowered insn := by
  unfold operandOps at h
  split at h
  · obtain rfl := Option.some.inj h
    simp [IROp.Lowered, IROp.From, IROp.SparesP]
  · exact segref_lowered h (by simp [IROp.Lowered, IROp.From, IROp.SparesP])

theorem loadHandler_lowered {reg : Reg} {width : Insn → Width} {insn : Insn} {vid : Value}
    {ops : List IROp} (hreg : reg = .a ∨ reg = .x ∨ reg = .y) (h : loadHandler reg width insn vid = some ops) :
    ∀ op ∈ ops, op.Lowered insn := by
  obtain ⟨pre, hpre, hops⟩ := Option.bind_eq_some_iff.mp h
  obtain rfl := Option.some.inj hops
  intro op hop
  rcases List.mem_append.mp hop with hop | hop
  · exact operandOps_lowered hpre op hop
  · simp only [List.mem_cons, List.not_mem_nil, or_false] at hop
    rcases hop with rfl | rfl
    · exact ⟨hreg, trivial⟩
    · exact ⟨trivial, trivial⟩

theorem aluHandler_lowered {alu : AluOp} {reg : Reg} {width : Insn → Width} {insn : Insn}
    {vid : Value} {ops : List IROp} (hreg : reg = .a ∨ reg = .x ∨ reg = .y)
    (h : aluHandler alu reg width insn vid = some ops) : ∀ op ∈ ops, op.Lowered insn := by
  obtain ⟨pre, hpre, hops⟩ := Option.bind_eq_some_iff.mp h
  obtain rfl := Option.some.inj hops
  have hpost : ∀ op ∈ (if alu = .cmp then [] else [IROp.writeReg reg (vid + 2)]),
      op.Lowered insn := by
    intro op hop
    split at hop
    · cases hop
    · obtain rfl := List.mem_singleton.mp hop
      exact ⟨hreg, trivial⟩
  have hspare : reg ≠ .p := by
    rcases hreg with rfl | rfl | rfl <;> decide
  intro op hop
  simp only [List.append_assoc, List.mem_append, List.mem_cons, List.not_mem_nil, or_false] at hop
  rcases hop with hop | (rfl | rfl) | hop
  · exact operandOps_lowered hpre op hop
  · exact ⟨trivial, hspare⟩
  · exact ⟨trivial, trivial⟩
  · exact hpost op hop

theorem hBit_lowered {insn : Insn} {vid : Value} {ops : List IROp}
    (h : hBit insn vid = some ops) : ∀ op ∈ ops, op.Lowered insn := by
  obtain ⟨pre, hpre, hops⟩ := Option.bind_eq_some_iff.mp h
  obtain rfl := Option.some.inj hops
  intro op hop
  rcases List.mem_append.mp hop with hop | hop
  · exact operandOps_lowered hpre op hop
  · obtain rfl := List.mem_singleton.mp hop
    exact ⟨trivial, trivial⟩

theorem shiftHandler_lowered {shift : ShiftOp} {insn : Insn} {vid : Value} {ops : List IROp}
    (h : shiftHandler shift insn vid = some ops) : ∀ op ∈ ops, op.Lowered insn := by
  unfold shiftHandler at h
  dsimp only at h
  split at h
  · obtain rfl := Option.some.inj h
    simp [IROp.Lowered, IROp.From, IROp.SparesP]
  · exact segref_lowered h (by simp [IROp.Lowered, IROp.From, IROp.SparesP])

theorem incHandler_lowered {delta : Delta} {insn : Insn} {ops : List IROp}
    (h : incHandler delta insn = some ops) : ∀ op ∈ ops, op.Lowered insn := by
  unfold incHandler at h
  split at h
  · obtain rfl := Option.some.inj h
    simp [IROp.Lowered, IROp.From, IROp.SparesP]
  · exact segref_lowered h (by simp [IROp.Lowered, IROp.From, IROp.SparesP])

theorem hJmp_lowered {insn : Insn} {ops : List IROp} (hm : insn.mnem = .jmp) (h : hJmp insn = some ops) :
    ∀ op ∈ ops, op.Lowered insn := by
  unfold hJmp at h
  split at h
  · obtain rfl := Option.some.inj h
    simp [IROp.Lowered, IROp.From, IROp.SparesP, hm]
  split at h
  · exact segref_lowered h (by simp [IROp.Lowered, IROp.From, IROp.SparesP, hm])
  · obtain rfl := Option.some.inj h
    simp [IROp.Lowered, IROp.From, IROp.SparesP, hm]

theorem condBranchHandler_lowered {flag : Reg} {takeIf : Bool} {insn : Insn} {ops : List IROp}
    (h : condBranchHandler flag takeIf insn = some ops) : ∀ op ∈ ops, op.Lowered insn := by
  obtain rfl := Option.some.inj h
  intro op hop
  obtain rfl := List.mem_singleton.mp hop
  split <;> exact ⟨trivial, trivial⟩

theorem hJsr_lowered {insn : Insn} {ops : List IROp} (hm : insn.mnem = .jsr) (h : hJsr insn = some ops) :
    ∀ op ∈ ops, op.Lowered insn := by
  unfold hJsr at h
  split at h <;>
  · obtain rfl := Option.some.inj h
    simp [IROp.Lowered, IROp.From, IROp.SparesP, hm]

theorem lowered_of_lower {insn : Insn} {vid : Value} {ops : List IROp} (h : lower insn vid = some ops) :
    ∀ op ∈ ops, op.Lowered insn := by
  cases hm : insn.mnem with rw [lower, hm] at h
  | lda | ldx | ldy => exact loadHandler_lowered (by decide) h
  | sta | stx | sty | stz | tsb | trb =>
    exact segref_lowered h (by simp [IROp.Lowered, IROp.From, IROp.SparesP])
  | adc | sbc | and | ora | eor | cmp | cpx | cpy => exact aluHandler_lowered (by decide) h
  | asl | lsr | rol | ror => exact shiftHandler_lowered h
  | inc | dec => exact incHandler_lowered h
  | bit => exact hBit_lowered h
  | jmp => exact hJmp_lowered hm h
  | jsr => exact hJsr_lowered hm h
  | bpl | bmi | bvc | bvs | bcc | bcs | bne | beq => exact condBranchHandler_lowered h
  | _ =>
    obtain rfl := Option.some.inj h
    simp [IROp.Lowered, IROp.From, IROp.SparesP, hm]

theorem lower_from {insn : Insn} {vid : Value} {ops : List IROp} (h : lower insn vid = some ops) :
    ∀ op ∈ ops, op.From insn :=
  fun op hop => (lowered_of_lower h op hop).1

/-! ### Conditional branches -/

theorem segref_notMem {mode : Mode} {operand : Nat} {f : SegRef → List IROp} {ops : List IROp}
    {op : IROp} (h : (segrefFor mode operand).bind (fun seg => some (f seg)) = some ops)
    (hf : ∀ seg, op ∉ f seg) : op ∉ ops := by
  obtain ⟨seg, -, hseg⟩ := Option.bind_eq_some_iff.mp h
  obtain rfl := Option.some.inj hseg
  exact hf seg

theorem condBranch_notMem_operandOps {insn : Insn} {width : Width} {out : Value} {ops : List IROp}
    (h : operandOps insn width out = some ops) (flag : Reg) (takeIf : Bool) :
    IROp.condBranch flag takeIf ∉ ops := by
  unfold operandOps at h
  split at h
  · obtain rfl := Option.some.inj h
    simp
  · exact segref_notMem h (by simp)

theorem condBranch_notMem_hJmp {insn : Insn} {ops : List IROp} (h : hJmp insn = some ops) (flag : Reg)
    (takeIf : Bool) : IROp.condBranch flag takeIf ∉ ops := by
  unfold hJmp at h
  split at h
  · obtain rfl := Option.some.inj h
    simp
  split at h
  · exact segref_notMem h (by simp)
  · obtain rfl := Option.some.inj h
    simp

theorem condBranch_notMem_hJsr {insn : Insn} {ops : List IROp} (h : hJsr insn = some ops) (flag : Reg)
    (takeIf : Bool) : IROp.condBranch flag takeIf ∉ ops := by
  unfold hJsr at h
  split at h <;>
  · obtain rfl := Option.some.inj h
    simp

/-- Only a conditional branch is lowered to one. -/
theorem mnem_of_condBranch_mem {insn : Insn} {vid : Value} {ops : List IROp} {flag : Reg} {takeIf : Bool}
    (h : lower insn vid = some ops) (hop : IROp.condBranch flag takeIf ∈ ops) :
    insn.mnem ∈ [.bpl, .bmi, .bvc, .bvs, .bcc, .bcs, .bne, .beq] := by
  cases hm : insn.mnem with rw [lower, hm] at h
  | bpl | bmi | bvc | bvs | bcc | bcs | bne | beq => simp
  | lda | ldx | ldy | adc | sbc | and | ora | eor | cmp | cpx | cpy | bit =>
    obtain ⟨pre, hpre, hops⟩ := Option.bind_eq_some_iff.mp h
    obtain rfl := Option.some.inj hops
    have hspare := condBranch_notMem_operandOps hpre flag takeIf
    simp [hspare] at hop
  | sta | stx | sty | stz | tsb | trb => exact absurd hop (segref_notMem h (by simp))
  | asl | lsr | rol | ror | inc | dec =>
    simp only [shiftHandler, incHandler] at h
    split at h
    · obtain rfl := Option.some.inj h
      simp at hop
    · exact absurd hop (segref_notMem h (by simp))
  | jmp => exact absurd hop (condBranch_notMem_hJmp h flag takeIf)
  | jsr => exact absurd hop (condBranch_notMem_hJsr h flag takeIf)
  | _ =>
    obtain rfl := Option.some.inj h
    simp at hop

end SnesRecomp.Recompiler
