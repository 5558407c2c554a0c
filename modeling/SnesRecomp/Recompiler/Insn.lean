import SnesRecomp.Runtime.CpuState

/-!
# The opcode table and instruction decoder

`snes65816.py`: addressing modes, the canonical opcode table and `decode_insn`.  A
length is fixed or follows the `M` or `X` width (`LenSpec`).  Python integers are
`Nat`; `m` and `x` are `0` or `1` in the source and `Bool` here.

`decodeInsn` reads past the image as the source does, by failing.
-/

namespace SnesRecomp.Recompiler

/-- Pairs of widths, alone or behind an address, are looked up in lists by equality. -/
instance lawfulBEq_widths : LawfulBEq (Bool × Bool) := inferInstance

instance lawfulBEq_variant : LawfulBEq (Nat × Bool × Bool) := inferInstance

inductive Mode
  | imp | acc | imm | dp | dpX | dpY | abs | absX | absY | long | longX | rel | rel16 | stk
  | indir | indirX | indirY | indirLY | indirL | indirDpx | dpIndir | stkIY
  deriving DecidableEq, Repr

inductive Mnem
  | adc | and | asl | bcc | bcs | beq | bit | bmi | bne | bpl | bra | brk | brl | bvc | bvs
  | clc | cld | cli | clv | cmp | cop | cpx | cpy | dec | dex | dey | eor | inc | inx | iny
  | jmp | jsl | jsr | lda | ldx | ldy | lsr | mvn | mvp | nop | ora | pea | pei | per
  | pha | phb | phd | phk | php | phx | phy | pla | plb | pld | plp | plx | ply
  | rep | rol | ror | rti | rtl | rts | sbc | sec | sed | sei | sep | sta | stp | stx | sty | stz
  | tax | tay | tcd | tcs | tdc | trb | tsb | tsc | tsx | txa | txs | txy | tya | tyx
  | wai | wdm | xba | xce
  deriving DecidableEq, Repr

/-- The third entry of a row of the opcode table. -/
inductive LenSpec
  | fixed (length : Nat)
  | byM
  | byX
  deriving DecidableEq, Repr

def LenSpec.length : LenSpec → Bool → Bool → Nat
  | .fixed n, _, _ => n
  | .byM, m, _ => if m then 2 else 3
  | .byX, _, x => if x then 2 else 3

structure OpcodeRow where
  mnem : Mnem
  mode : Mode
  len : LenSpec
  deriving DecidableEq, Repr

/-- `_OPCODES`, in opcode order. -/
def opcodeTable : List OpcodeRow :=
  [
    -- $00
    ⟨.brk, .imm, .fixed 2⟩, ⟨.ora, .indirDpx, .fixed 2⟩, ⟨.cop, .imm, .fixed 2⟩,
    ⟨.ora, .stk, .fixed 2⟩, ⟨.tsb, .dp, .fixed 2⟩, ⟨.ora, .dp, .fixed 2⟩, ⟨.asl, .dp, .fixed 2⟩,
    ⟨.ora, .indirL, .fixed 2⟩, ⟨.php, .imp, .fixed 1⟩, ⟨.ora, .imm, .byM⟩, ⟨.asl, .acc, .fixed 1⟩,
    ⟨.phd, .imp, .fixed 1⟩, ⟨.tsb, .abs, .fixed 3⟩, ⟨.ora, .abs, .fixed 3⟩,
    ⟨.asl, .abs, .fixed 3⟩, ⟨.ora, .long, .fixed 4⟩,
    -- $10
    ⟨.bpl, .rel, .fixed 2⟩, ⟨.ora, .indirY, .fixed 2⟩, ⟨.ora, .dpIndir, .fixed 2⟩,
    ⟨.ora, .stkIY, .fixed 2⟩, ⟨.trb, .dp, .fixed 2⟩, ⟨.ora, .dpX, .fixed 2⟩,
    ⟨.asl, .dpX, .fixed 2⟩, ⟨.ora, .indirLY, .fixed 2⟩, ⟨.clc, .imp, .fixed 1⟩,
    ⟨.ora, .absY, .fixed 3⟩, ⟨.inc, .acc, .fixed 1⟩, ⟨.tcs, .imp, .fixed 1⟩,
    ⟨.trb, .abs, .fixed 3⟩, ⟨.ora, .absX, .fixed 3⟩, ⟨.asl, .absX, .fixed 3⟩,
    ⟨.ora, .longX, .fixed 4⟩,
    -- $20
    ⟨.jsr, .abs, .fixed 3⟩, ⟨.and, .indirDpx, .fixed 2⟩, ⟨.jsl, .long, .fixed 4⟩,
    ⟨.and, .stk, .fixed 2⟩, ⟨.bit, .dp, .fixed 2⟩, ⟨.and, .dp, .fixed 2⟩, ⟨.rol, .dp, .fixed 2⟩,
    ⟨.and, .indirL, .fixed 2⟩, ⟨.plp, .imp, .fixed 1⟩, ⟨.and, .imm, .byM⟩, ⟨.rol, .acc, .fixed 1⟩,
    ⟨.pld, .imp, .fixed 1⟩, ⟨.bit, .abs, .fixed 3⟩, ⟨.and, .abs, .fixed 3⟩,
    ⟨.rol, .abs, .fixed 3⟩, ⟨.and, .long, .fixed 4⟩,
    -- $30
    ⟨.bmi, .rel, .fixed 2⟩, ⟨.and, .indirY, .fixed 2⟩, ⟨.and, .dpIndir, .fixed 2⟩,
    ⟨.and, .stkIY, .fixed 2⟩, ⟨.bit, .dpX, .fixed 2⟩, ⟨.and, .dpX, .fixed 2⟩,
    ⟨.rol, .dpX, .fixed 2⟩, ⟨.and, .indirLY, .fixed 2⟩, ⟨.sec, .imp, .fixed 1⟩,
    ⟨.and, .absY, .fixed 3⟩, ⟨.dec, .acc, .fixed 1⟩, ⟨.tsc, .imp, .fixed 1⟩,
    ⟨.bit, .absX, .fixed 3⟩, ⟨.and, .absX, .fixed 3⟩, ⟨.rol, .absX, .fixed 3⟩,
    ⟨.and, .longX, .fixed 4⟩,
    -- $40
    ⟨.rti, .imp, .fixed 1⟩, ⟨.eor, .indirDpx, .fixed 2⟩, ⟨.wdm, .imm, .fixed 2⟩,
    ⟨.eor, .stk, .fixed 2⟩, ⟨.mvp, .imm, .fixed 3⟩, ⟨.eor, .dp, .fixed 2⟩, ⟨.lsr, .dp, .fixed 2⟩,
    ⟨.eor, .indirL, .fixed 2⟩, ⟨.pha, .imp, .fixed 1⟩, ⟨.eor, .imm, .byM⟩, ⟨.lsr, .acc, .fixed 1⟩,
    ⟨.phk, .imp, .fixed 1⟩, ⟨.jmp, .abs, .fixed 3⟩, ⟨.eor, .abs, .fixed 3⟩,
    ⟨.lsr, .abs, .fixed 3⟩, ⟨.eor, .long, .fixed 4⟩,
    -- $50
    ⟨.bvc, .rel, .fixed 2⟩, ⟨.eor, .indirY, .fixed 2⟩, ⟨.eor, .dpIndir, .fixed 2⟩,
    ⟨.eor, .stkIY, .fixed 2⟩, ⟨.mvn, .imm, .fixed 3⟩, ⟨.eor, .dpX, .fixed 2⟩,
    ⟨.lsr, .dpX, .fixed 2⟩, ⟨.eor, .indirLY, .fixed 2⟩, ⟨.cli, .imp, .fixed 1⟩,
    ⟨.eor, .absY, .fixed 3⟩, ⟨.phy, .imp, .fixed 1⟩, ⟨.tcd, .imp, .fixed 1⟩,
    ⟨.jmp, .long, .fixed 4⟩, ⟨.eor, .absX, .fixed 3⟩, ⟨.lsr, .absX, .fixed 3⟩,
    ⟨.eor, .longX, .fixed 4⟩,
    -- $60
    ⟨.rts, .imp, .fixed 1⟩, ⟨.adc, .indirDpx, .fixed 2⟩, ⟨.per, .rel16, .fixed 3⟩,
    ⟨.adc, .stk, .fixed 2⟩, ⟨.stz, .dp, .fixed 2⟩, ⟨.adc, .dp, .fixed 2⟩, ⟨.ror, .dp, .fixed 2⟩,
    ⟨.adc, .indirL, .fixed 2⟩, ⟨.pla, .imp, .fixed 1⟩, ⟨.adc, .imm, .byM⟩, ⟨.ror, .acc, .fixed 1⟩,
    ⟨.rtl, .imp, .fixed 1⟩, ⟨.jmp, .indir, .fixed 3⟩, ⟨.adc, .abs, .fixed 3⟩,
    ⟨.ror, .abs, .fixed 3⟩, ⟨.adc, .long, .fixed 4⟩,
    -- $70
    ⟨.bvs, .rel, .fixed 2⟩, ⟨.adc, .indirY, .fixed 2⟩, ⟨.adc, .dpIndir, .fixed 2⟩,
    ⟨.adc, .stkIY, .fixed 2⟩, ⟨.stz, .dpX, .fixed 2⟩, ⟨.adc, .dpX, .fixed 2⟩,
    ⟨.ror, .dpX, .fixed 2⟩, ⟨.adc, .indirLY, .fixed 2⟩, ⟨.sei, .imp, .fixed 1⟩,
    ⟨.adc, .absY, .fixed 3⟩, ⟨.ply, .imp, .fixed 1⟩, ⟨.tdc, .imp, .fixed 1⟩,
    ⟨.jmp, .indirX, .fixed 3⟩, ⟨.adc, .absX, .fixed 3⟩, ⟨.ror, .absX, .fixed 3⟩,
    ⟨.adc, .longX, .fixed 4⟩,
    -- $80
    ⟨.bra, .rel, .fixed 2⟩, ⟨.sta, .indirDpx, .fixed 2⟩, ⟨.brl, .rel16, .fixed 3⟩,
    ⟨.sta, .stk, .fixed 2⟩, ⟨.sty, .dp, .fixed 2⟩, ⟨.sta, .dp, .fixed 2⟩, ⟨.stx, .dp, .fixed 2⟩,
    ⟨.sta, .indirL, .fixed 2⟩, ⟨.dey, .imp, .fixed 1⟩, ⟨.bit, .imm, .byM⟩, ⟨.txa, .imp, .fixed 1⟩,
    ⟨.phb, .imp, .fixed 1⟩, ⟨.sty, .abs, .fixed 3⟩, ⟨.sta, .abs, .fixed 3⟩,
    ⟨.stx, .abs, .fixed 3⟩, ⟨.sta, .long, .fixed 4⟩,
    -- $90
    ⟨.bcc, .rel, .fixed 2⟩, ⟨.sta, .indirY, .fixed 2⟩, ⟨.sta, .dpIndir, .fixed 2⟩,
    ⟨.sta, .stkIY, .fixed 2⟩, ⟨.sty, .dpX, .fixed 2⟩, ⟨.sta, .dpX, .fixed 2⟩,
    ⟨.stx, .dpY, .fixed 2⟩, ⟨.sta, .indirLY, .fixed 2⟩, ⟨.tya, .imp, .fixed 1⟩,
    ⟨.sta, .absY, .fixed 3⟩, ⟨.txs, .imp, .fixed 1⟩, ⟨.txy, .imp, .fixed 1⟩,
    ⟨.stz, .abs, .fixed 3⟩, ⟨.sta, .absX, .fixed 3⟩, ⟨.stz, .absX, .fixed 3⟩,
    ⟨.sta, .longX, .fixed 4⟩,
    -- $A0
    ⟨.ldy, .imm, .byX⟩, ⟨.lda, .indirDpx, .fixed 2⟩, ⟨.ldx, .imm, .byX⟩, ⟨.lda, .stk, .fixed 2⟩,
    ⟨.ldy, .dp, .fixed 2⟩, ⟨.lda, .dp, .fixed 2⟩, ⟨.ldx, .dp, .fixed 2⟩,
    ⟨.lda, .indirL, .fixed 2⟩, ⟨.tay, .imp, .fixed 1⟩, ⟨.lda, .imm, .byM⟩, ⟨.tax, .imp, .fixed 1⟩,
    ⟨.plb, .imp, .fixed 1⟩, ⟨.ldy, .abs, .fixed 3⟩, ⟨.lda, .abs, .fixed 3⟩,
    ⟨.ldx, .abs, .fixed 3⟩, ⟨.lda, .long, .fixed 4⟩,
    -- $B0
    ⟨.bcs, .rel, .fixed 2⟩, ⟨.lda, .indirY, .fixed 2⟩, ⟨.lda, .dpIndir, .fixed 2⟩,
    ⟨.lda, .stkIY, .fixed 2⟩, ⟨.ldy, .dpX, .fixed 2⟩, ⟨.lda, .dpX, .fixed 2⟩,
    ⟨.ldx, .dpY, .fixed 2⟩, ⟨.lda, .indirLY, .fixed 2⟩, ⟨.clv, .imp, .fixed 1⟩,
    ⟨.lda, .absY, .fixed 3⟩, ⟨.tsx, .imp, .fixed 1⟩, ⟨.tyx, .imp, .fixed 1⟩,
    ⟨.ldy, .absX, .fixed 3⟩, ⟨.lda, .absX, .fixed 3⟩, ⟨.ldx, .absY, .fixed 3⟩,
    ⟨.lda, .longX, .fixed 4⟩,
    -- $C0
    ⟨.cpy, .imm, .byX⟩, ⟨.cmp, .indirDpx, .fixed 2⟩, ⟨.rep, .imm, .fixed 2⟩,
    ⟨.cmp, .stk, .fixed 2⟩, ⟨.cpy, .dp, .fixed 2⟩, ⟨.cmp, .dp, .fixed 2⟩, ⟨.dec, .dp, .fixed 2⟩,
    ⟨.cmp, .indirL, .fixed 2⟩, ⟨.iny, .imp, .fixed 1⟩, ⟨.cmp, .imm, .byM⟩, ⟨.dex, .imp, .fixed 1⟩,
    ⟨.wai, .imp, .fixed 1⟩, ⟨.cpy, .abs, .fixed 3⟩, ⟨.cmp, .abs, .fixed 3⟩,
    ⟨.dec, .abs, .fixed 3⟩, ⟨.cmp, .long, .fixed 4⟩,
    -- $D0
    ⟨.bne, .rel, .fixed 2⟩, ⟨.cmp, .indirY, .fixed 2⟩, ⟨.cmp, .dpIndir, .fixed 2⟩,
    ⟨.cmp, .stkIY, .fixed 2⟩, ⟨.pei, .dp, .fixed 2⟩, ⟨.cmp, .dpX, .fixed 2⟩,
    ⟨.dec, .dpX, .fixed 2⟩, ⟨.cmp, .indirLY, .fixed 2⟩, ⟨.cld, .imp, .fixed 1⟩,
    ⟨.cmp, .absY, .fixed 3⟩, ⟨.phx, .imp, .fixed 1⟩, ⟨.stp, .imp, .fixed 1⟩,
    ⟨.jmp, .indir, .fixed 3⟩, ⟨.cmp, .absX, .fixed 3⟩, ⟨.dec, .absX, .fixed 3⟩,
    ⟨.cmp, .longX, .fixed 4⟩,
    -- $E0
    ⟨.cpx, .imm, .byX⟩, ⟨.sbc, .indirDpx, .fixed 2⟩, ⟨.sep, .imm, .fixed 2⟩,
    ⟨.sbc, .stk, .fixed 2⟩, ⟨.cpx, .dp, .fixed 2⟩, ⟨.sbc, .dp, .fixed 2⟩, ⟨.inc, .dp, .fixed 2⟩,
    ⟨.sbc, .indirL, .fixed 2⟩, ⟨.inx, .imp, .fixed 1⟩, ⟨.sbc, .imm, .byM⟩, ⟨.nop, .imp, .fixed 1⟩,
    ⟨.xba, .imp, .fixed 1⟩, ⟨.cpx, .abs, .fixed 3⟩, ⟨.sbc, .abs, .fixed 3⟩,
    ⟨.inc, .abs, .fixed 3⟩, ⟨.sbc, .long, .fixed 4⟩,
    -- $F0
    ⟨.beq, .rel, .fixed 2⟩, ⟨.sbc, .indirY, .fixed 2⟩, ⟨.sbc, .dpIndir, .fixed 2⟩,
    ⟨.sbc, .stkIY, .fixed 2⟩, ⟨.pea, .abs, .fixed 3⟩, ⟨.sbc, .dpX, .fixed 2⟩,
    ⟨.inc, .dpX, .fixed 2⟩, ⟨.sbc, .indirLY, .fixed 2⟩, ⟨.sed, .imp, .fixed 1⟩,
    ⟨.sbc, .absY, .fixed 3⟩, ⟨.plx, .imp, .fixed 1⟩, ⟨.xce, .imp, .fixed 1⟩,
    ⟨.jsr, .indirX, .fixed 3⟩, ⟨.sbc, .absX, .fixed 3⟩, ⟨.inc, .absX, .fixed 3⟩,
    ⟨.sbc, .longX, .fixed 4⟩
  ]

def opcodeRow (op : Byte) : OpcodeRow := opcodeTable.getD op.toNat ⟨.nop, .imp, .fixed 1⟩

/-- A ROM image. -/
structure Rom where
  size : Nat
  byte : Nat → Byte

/-- A bank that starts with the bytes. -/
def Rom.ofBytes (bytes : List Byte) : Rom := ⟨0x8000, fun i => bytes.getD i 0⟩

/-- `data[i]`; an index past the image raises. -/
def Rom.get? (rom : Rom) (i : Nat) : Option Byte := if i < rom.size then some (rom.byte i) else none

/-- `lorom_offset` for an address in `$8000-$FFFF`. -/
def loromOffset (bank addr : Nat) : Nat := (bank &&& 0x7F) * 0x8000 + (addr - 0x8000)

/-- The instruction record the decoder fills in. -/
structure Insn where
  addr : Nat
  opcode : Byte
  mnem : Mnem
  mode : Mode
  operand : Nat
  length : Nat
  mFlag : Bool
  xFlag : Bool
  constZFoldUnconditional : Bool
  constZFoldDeadPc24 : Option Nat
  deriving DecidableEq, Repr

/-- The target of a branch: `pc + len + delta` on 16 bits. -/
def relTarget (pc len raw bits : Nat) : Nat :=
  let delta : Int := if 2 ^ (bits - 1) ≤ raw then (raw : Int) - 2 ^ bits else raw
  ((pc + len + delta) % 0x10000).toNat

/-- The operand of an instruction from the bytes after its opcode; a byte is read only
where the mode uses it. -/
def decodeOperand (rom : Rom) (offset pc : Nat) (mode : Mode) (length : Nat) : Option Nat :=
  let b (n : Nat) : Option Nat := (rom.get? (offset + n)).map BitVec.toNat
  let word : Option Nat := do return (← b 1) ||| ((← b 2) <<< 8)
  let long24 : Option Nat := do return (← b 1) ||| ((← b 2) <<< 8) ||| ((← b 3) <<< 16)
  match mode with
  | .rel => do return relTarget pc 2 (← b 1) 8
  | .rel16 => do return relTarget pc 3 (← word) 16
  | .long | .longX => long24
  | .abs | .absX | .absY | .indir | .indirX => word
  | .dp | .dpX | .dpY | .stk | .indirY | .indirLY | .indirL | .indirDpx | .dpIndir | .stkIY => b 1
  | .imm => if length = 2 then b 1 else word
  | .imp | .acc => some 0

/-- `decode_insn`; `none` where the source raises. -/
def decodeInsn (rom : Rom) (offset pc bank : Nat) (m x : Bool) : Option Insn := do
  let op ← rom.get? offset
  let row := opcodeRow op
  let length := row.len.length m x
  let operand ← decodeOperand rom offset pc row.mode length
  return {
    addr := (bank <<< 16) ||| pc, opcode := op, mnem := row.mnem, mode := row.mode,
    operand := operand, length := length, mFlag := m, xFlag := x,
    constZFoldUnconditional := false, constZFoldDeadPc24 := none }

section Decoded

variable {rom : Rom} {offset pc bank : Nat} {m x : Bool} {insn : Insn}

theorem row_of_decodeInsn (h : decodeInsn rom offset pc bank m x = some insn) :
    insn.mnem = (opcodeRow insn.opcode).mnem ∧ insn.mode = (opcodeRow insn.opcode).mode ∧
      insn.length = (opcodeRow insn.opcode).len.length m x ∧ insn.mFlag = m ∧ insn.xFlag = x := by
  simp only [decodeInsn, Option.bind_eq_bind, Option.bind_eq_some_iff, Option.pure_def,
    Option.some.injEq] at h
  obtain ⟨op, -, operand, -, rfl⟩ := h
  exact ⟨rfl, rfl, rfl, rfl, rfl⟩

theorem length_pos_of_decodeInsn (h : decodeInsn rom offset pc bank m x = some insn) :
    0 < insn.length := by
  have hall : ∀ opcode : Byte, ∀ m x, 0 < (opcodeRow opcode).len.length m x := by decide +kernel
  rw [(row_of_decodeInsn h).2.2.1]
  exact hall _ _ _

theorem length_le_of_decodeInsn (h : decodeInsn rom offset pc bank m x = some insn) :
    insn.length ≤ 4 := by
  have hall : ∀ opcode : Byte, ∀ m x, (opcodeRow opcode).len.length m x ≤ 4 := by decide +kernel
  rw [(row_of_decodeInsn h).2.2.1]
  exact hall _ _ _

theorem addr_of_decodeInsn (h : decodeInsn rom offset pc bank m x = some insn) :
    insn.addr = (bank <<< 16) ||| pc := by
  simp only [decodeInsn, Option.bind_eq_bind, Option.bind_eq_some_iff, Option.pure_def,
    Option.some.injEq] at h
  obtain ⟨op, -, operand, -, rfl⟩ := h
  rfl

end Decoded

end SnesRecomp.Recompiler
