import SnesRecomp.Interp.Sync
import SnesRecomp.Recompiler.Emit
import SnesRecomp.Runtime.WordAccess

/-!
# Effective addresses in the two tiers

The compiled code addresses a memory operand by the pair `segrefAddr` gives; the
interpreter computes the address of the low byte in its `adr*` functions and goes
through the same `cpu_read8` and `cpu_write8`.  Both select a location (`route`).

`sameByte_iff` says when the two locations are one.

* Absolute, long and stack-relative modes, indexed or not: always.
* Direct-page modes: exactly below `$2000`.  The compiled code addresses bank `$7E`,
  the interpreter bank `$00`, and only the low WRAM mirror is common to the two.
* Pointer modes: when the pointer reads alike as one word and as two bytes, and adding
  the index does not leave the bank (the compiled code drops the carry).  Otherwise the
  two addresses differ, and agree only if they happen to be mirrors of one byte.
-/

namespace SnesRecomp.Tiers

open Recompiler Interp816

variable {M : Type}

/-! ### The interpreter's operand, with the fetch split off -/

/-- The operand of an addressing mode from its instruction bytes. -/
def resolve (bus : ByteBus M) (mode : AdrMode) (b1 b2 b3 : Byte) (cpu : Interp816 M) :
    Operand × Interp816 M :=
  match mode with
  | .imm xFlag => adrImm xFlag cpu
  | .dp => (effDp b1 0 cpu, cpu)
  | .dpx => (effDp b1 cpu.x cpu, cpu)
  | .dpy => (effDp b1 cpu.y cpu, cpu)
  | .idp => effIdp bus b1 0 cpu
  | .idx => effIdp bus b1 cpu.x cpu
  | .idy => effIndirectY bus cpu.dp b1 cpu
  | .idl => effIdl bus b1 cpu
  | .ily => effIly bus b1 cpu
  | .sr => (effSr b1 cpu, cpu)
  | .isy => effIndirectY bus cpu.sp b1 cpu
  | .abs => (effAbs (mkWord b1 b2) cpu, cpu)
  | .abx => (effAbi (mkWord b1 b2) cpu.x cpu, cpu)
  | .aby => (effAbi (mkWord b1 b2) cpu.y cpu, cpu)
  | .abl => (effAbl (mkWord b1 b2) b3, cpu)
  | .alx => (effAlx (mkWord b1 b2) b3 cpu, cpu)

/-- The instruction bytes of an addressing mode, and the state after fetching them. -/
def fetch (bus : ByteBus M) (mode : AdrMode) (cpu : Interp816 M) :
    (Byte × Byte × Byte) × Interp816 M :=
  match mode with
  | .imm _ => ((0, 0, 0), cpu)
  | .abs | .abx | .aby =>
    let w := readOpcodeWord bus cpu
    ((loByte w.1, hiByte w.1, 0), w.2)
  | .abl | .alx =>
    let w := readOpcodeWord bus cpu
    let b := readOpcode bus w.2
    ((loByte w.1, hiByte w.1, b.1), b.2)
  | _ =>
    let b := readOpcode bus cpu
    ((b.1, 0, 0), b.2)

/-- Every addressing function is its fetch followed by `resolve`. -/
theorem adr_eq_resolve (bus : ByteBus M) (mode : AdrMode) (cpu : Interp816 M) :
    adr bus mode cpu =
      resolve bus mode (fetch bus mode cpu).1.1 (fetch bus mode cpu).1.2.1
        (fetch bus mode cpu).1.2.2 (fetch bus mode cpu).2 := by
  cases mode <;>
    simp only [adr, resolve, fetch, adrDp, adrDpx, adrDpy, adrIdp, adrIdx, adrIdy, adrIdl, adrIly,
      adrSr, adrIsy, adrAbs, adrAbx, adrAby, adrAbl, adrAlx, mkWord_loByte_hiByte]

/-! ### Addresses as a bank and an offset -/

/-- The bank and address `bridgeBus` passes on. -/
def splitAddr (adr : Addr) : Byte × Word := ((adr >>> 16).setWidth 8, adr.setWidth 16)

/-- `1` if adding `y` leaves the bank. -/
def carryOut (p y : Word) : Byte := if p.toNat + y.toNat < 0x10000 then 0 else 1

theorem splitAddr_fst_toNat (adr : Addr) : (splitAddr adr).1.toNat = adr.toNat / 65536 % 256 := by
  simp only [splitAddr, BitVec.toNat_setWidth, BitVec.toNat_ushiftRight, Nat.shiftRight_eq_div_pow]

theorem splitAddr_snd_toNat (adr : Addr) : (splitAddr adr).2.toNat = adr.toNat % 65536 := by
  simp only [splitAddr, BitVec.toNat_setWidth]

theorem splitAddr_eq {adr : Addr} {bank : Byte} {a : Word}
    (h : adr.toNat % 2 ^ 24 = bank.toNat * 65536 + a.toNat) : splitAddr adr = (bank, a) := by
  have hb := bank.isLt
  have ha := a.isLt
  refine Prod.ext (BitVec.eq_of_toNat_eq ?_) (BitVec.eq_of_toNat_eq ?_)
  · rw [splitAddr_fst_toNat]
    show _ = bank.toNat
    omega
  · rw [splitAddr_snd_toNat]
    show _ = a.toNat
    omega

theorem dataAddr_toNat (db : Byte) (adr : Word) :
    (dataAddr db adr).toNat = db.toNat * 65536 + adr.toNat := by
  have hb := db.isLt
  have ha := adr.isLt
  simp only [dataAddr, BitVec.toNat_add, BitVec.toNat_shiftLeft, BitVec.toNat_setWidth,
    Nat.shiftLeft_eq]
  omega

theorem longAddr_toNat (adr : Word) (bank : Byte) :
    (longAddr adr bank).toNat = bank.toNat * 65536 + adr.toNat := by
  have hb := bank.isLt
  have ha := adr.isLt
  have h1 : adr.toNat % 2 ^ 32 = adr.toNat := Nat.mod_eq_of_lt (by omega)
  have h2 : bank.toNat % 2 ^ 32 = bank.toNat := Nat.mod_eq_of_lt (by omega)
  have h3 : bank.toNat <<< 16 % 2 ^ 32 = bank.toNat <<< 16 := by
    rw [Nat.shiftLeft_eq]
    exact Nat.mod_eq_of_lt (by omega)
  simp only [longAddr, BitVec.toNat_or, BitVec.toNat_shiftLeft, BitVec.toNat_setWidth, h1, h2, h3]
  rw [Nat.or_comm, Bits.shiftLeft_or_eq_add ha]
  rfl

theorem mask24_toNat (v : Addr) : (mask24 v).toNat = v.toNat % 2 ^ 24 := by
  rw [mask24, BitVec.toNat_and]
  exact Nat.and_two_pow_sub_one_eq_mod v.toNat 24

theorem mask16_toNat (v : Addr) : (mask16 v).toNat = v.toNat % 2 ^ 16 := by
  rw [mask16, BitVec.toNat_and]
  exact Nat.and_two_pow_sub_one_eq_mod v.toNat 16

theorem splitAddr_dataAddr (db : Byte) (adr : Word) : splitAddr (dataAddr db adr) = (db, adr) := by
  refine splitAddr_eq ?_
  have hb := db.isLt
  have ha := adr.isLt
  rw [dataAddr_toNat]
  omega

theorem splitAddr_longAddr (adr : Word) (bank : Byte) :
    splitAddr (longAddr adr bank) = (bank, adr) := by
  refine splitAddr_eq ?_
  have hb := bank.isLt
  have ha := adr.isLt
  rw [longAddr_toNat]
  omega

theorem splitAddr_mask24 (v : Addr) : splitAddr (mask24 v) = splitAddr v := by
  refine splitAddr_eq ?_
  show _ = (splitAddr v).1.toNat * 65536 + (splitAddr v).2.toNat
  rw [mask24_toNat, splitAddr_fst_toNat, splitAddr_snd_toNat]
  omega

/-- Indexing a 24-bit address carries into the bank. -/
theorem splitAddr_indexed {base : Addr} {bank : Byte} {a : Word}
    (hbase : base.toNat = bank.toNat * 65536 + a.toNat) (y : Word) :
    splitAddr (base + u32 y) = (bank + carryOut a y, a + y) := by
  have hb := bank.isLt
  have ha := a.isLt
  have hy := y.isLt
  refine splitAddr_eq ?_
  have hu : (u32 y).toNat = y.toNat := by
    rw [u32, BitVec.toNat_setWidth]
    omega
  rw [BitVec.toNat_add, BitVec.toNat_add, BitVec.toNat_add, hu, hbase]
  by_cases h : a.toNat + y.toNat < 0x10000
  · rw [carryOut, if_pos h]
    show _ = (bank.toNat + 0) % 256 * 65536 + _
    omega
  · rw [carryOut, if_neg h]
    show _ = (bank.toNat + 1) % 256 * 65536 + _
    omega

theorem splitAddr_mask16 (v : Addr) : splitAddr (mask16 v) = (0, v.setWidth 16) := by
  refine splitAddr_eq ?_
  have h0 : (0 : Byte).toNat = 0 := rfl
  rw [mask16_toNat, BitVec.toNat_setWidth, h0]
  omega

/-! ### The decoded operand -/

/-- The interpreter's name of a decoder mode with a memory operand. -/
def adrModeOf : Mode → Option AdrMode
  | .dp => some .dp
  | .dpX => some .dpx
  | .dpY => some .dpy
  | .abs => some .abs
  | .absX => some .abx
  | .absY => some .aby
  | .long => some .abl
  | .longX => some .alx
  | .stk => some .sr
  | .stkIY => some .isy
  | .dpIndir => some .idp
  | .indirY => some .idy
  | .indirDpx => some .idx
  | .indirL => some .idl
  | .indirLY => some .ily
  | _ => none

/-- The decoder's mode of an opcode is the interpreter's, where that is a memory operand. -/
def sameMode (opcode : Byte) : Bool :=
  match opOf opcode with
  | .mem _ (.imm _) => true
  | .mem _ mode => adrModeOf (opcodeRow opcode).mode == some mode
  | _ => true

theorem sameMode_all : ∀ opcode : Byte, sameMode opcode = true := by decide +kernel

theorem adrModeOf_opcodeRow {opcode : Byte} {op : MemOp} {mode : AdrMode}
    (hop : opOf opcode = .mem op mode) (himm : ∀ x, mode ≠ .imm x) :
    adrModeOf (opcodeRow opcode).mode = some mode := by
  have h := sameMode_all opcode
  unfold sameMode at h
  rw [hop] at h
  cases mode with
  | imm x => exact absurd rfl (himm x)
  | _ => exact beq_iff_eq.mp h

theorem mode_of_decodeInsn {rom : Rom} {offset pc bank : Nat} {m x : Bool} {insn : Insn}
    (h : decodeInsn rom offset pc bank m x = some insn) :
    insn.mode = (opcodeRow insn.opcode).mode := by
  simp only [decodeInsn, Option.bind_eq_bind, Option.bind_eq_some_iff, Option.pure_def,
    Option.some.injEq] at h
  obtain ⟨op, -, operand, -, rfl⟩ := h
  rfl

/-- The operand with these instruction bytes. -/
def operandOf (b : Byte × Byte × Byte) : Nat :=
  b.1.toNat + b.2.1.toNat * 256 + b.2.2.toNat * 65536

theorem ofNat_operandOf (b : Byte × Byte × Byte) :
    BitVec.ofNat 16 (operandOf b) = mkWord b.1 b.2.1 := by
  apply BitVec.eq_of_toNat_eq
  have h1 := b.1.isLt
  have h2 := b.2.1.isLt
  rw [BitVec.toNat_ofNat, mkWord_toNat, operandOf]
  omega

theorem operandOf_and_0xFFFF (b : Byte × Byte × Byte) :
    operandOf b &&& 0xFFFF = (mkWord b.1 b.2.1).toNat := by
  have h1 := b.1.isLt
  have h2 := b.2.1.isLt
  rw [Bits.and_0xFFFF, mkWord_toNat, operandOf]
  omega

theorem operandOf_shiftRight (b : Byte × Byte × Byte) :
    (operandOf b >>> 16) &&& 0xFF = b.2.2.toNat := by
  have h1 := b.1.isLt
  have h2 := b.2.1.isLt
  have h3 := b.2.2.isLt
  rw [Bits.and_0xFF, Nat.shiftRight_eq_div_pow, operandOf]
  omega

theorem mkWord_zero (b : Byte) : mkWord b 0 = b.setWidth 16 := by
  apply BitVec.eq_of_toNat_eq
  have hb := b.isLt
  have h0 : (0 : Byte).toNat = 0 := rfl
  rw [mkWord_toNat, BitVec.toNat_setWidth, h0]
  omega

/-! ### The two addresses -/

/-- The pointer at `p` in bank zero as the compiled code reads it. -/
def wordPointer (bus : Bus M) (p : Word) (m : M) : Word := (bus.read16 0x00 p m).1

/-- The pointer at `p` in bank zero as the interpreter reads it. -/
def bytePointer (bus : Bus M) (p : Word) (m : M) : Word × M :=
  let lo := bus.read8 0x00 p m
  let hi := bus.read8 0x00 (p + 1) lo.2
  (mkWord lo.1 hi.1, hi.2)

/-- How an operand is addressed before the index is added. -/
inductive Target
  /-- Below `D`, in the page the tier takes for the direct page. -/
  | direct (addr : Word)
  /-- A 24-bit address both tiers form from the instruction and the registers. -/
  | fixed (bank : Byte) (addr index : Word)
  /-- An address whose bank and offset the tiers read from memory. -/
  | pointer (compiled interp : Byte × Word) (index : Word)

/-- The target of an operand `off` (and `bank`, for the long modes). -/
def target (bus : Bus M) (mode : AdrMode) (off : Word) (bank : Byte) (cpu : CpuState) (m : M) :
    Target :=
  let dp := cpu.D + off
  let short (p index : Word) : Target :=
    .pointer (cpu.DB, wordPointer bus p m) (cpu.DB, (bytePointer bus p m).1) index
  let long (index : Word) : Target :=
    let bankFirst := bus.read8 0x00 (dp + 2) m
    let wordFirst := bytePointer bus dp m
    .pointer (bankFirst.1, wordPointer bus dp bankFirst.2)
      ((bus.read8 0x00 (dp + 2) wordFirst.2).1, wordFirst.1) index
  match mode with
  | .imm _ => .fixed 0 0 0
  | .dp => .direct dp
  | .dpx => .direct (dp + cpu.X)
  | .dpy => .direct (dp + cpu.Y)
  | .idp => short dp 0
  | .idx => short (dp + cpu.X) 0
  | .idy => short dp cpu.Y
  | .idl => long 0
  | .ily => long cpu.Y
  | .sr => .fixed 0 (cpu.S + off) 0
  | .isy => short (cpu.S + off) cpu.Y
  | .abs => .fixed cpu.DB off 0
  | .abx => .fixed cpu.DB off cpu.X
  | .aby => .fixed cpu.DB off cpu.Y
  | .abl => .fixed bank off 0
  | .alx => .fixed bank off cpu.X

/-- The compiled code drops the carry out of a pointer's bank. -/
def Target.compiled : Target → Byte × Word
  | .direct addr => (0x7E, addr)
  | .fixed bank addr index => (bank + carryOut addr index, addr + index)
  | .pointer base _ index => (base.1, base.2 + index)

def Target.interp : Target → Byte × Word
  | .direct addr => (0, addr)
  | .fixed bank addr index => (bank + carryOut addr index, addr + index)
  | .pointer _ base index => (base.1 + carryOut base.2 index, base.2 + index)

theorem carryOut_zero (a : Word) : carryOut a 0 = 0 := by
  have ha := a.isLt
  rw [carryOut, if_pos]
  exact ha

theorem compiled_fixed_zero (bank : Byte) (a : Word) :
    Target.compiled (.fixed bank a 0) = (bank, a) := by
  rw [Target.compiled, carryOut_zero]
  exact Prod.ext (BitVec.add_zero bank) (BitVec.add_zero a)

theorem interp_fixed_zero (bank : Byte) (a : Word) :
    Target.interp (.fixed bank a 0) = (bank, a) := compiled_fixed_zero bank a

theorem interp_pointer_zero (c i : Byte × Word) : Target.interp (.pointer c i 0) = i :=
  compiled_fixed_zero i.1 i.2

/-! ### The compiled address -/

/-- The modes whose operand names a bank. -/
def hasBank : AdrMode → Bool
  | .abl | .alx => true
  | _ => false

theorem fetch_bank (bus : ByteBus M) {mode : AdrMode} (h : hasBank mode = false)
    (cpu : Interp816 M) : (fetch bus mode cpu).1.2.2 = 0 := by
  cases mode <;> first | rfl | cases h

theorem ofNat_operandOf_of_bank_zero {b : Byte × Byte × Byte} (hb : b.2.2 = 0) :
    BitVec.ofNat 32 (operandOf b) = u32 (mkWord b.1 b.2.1) := by
  have h0 : (0 : Byte).toNat = 0 := rfl
  have hw := (mkWord b.1 b.2.1).isLt
  apply BitVec.eq_of_toNat_eq
  rw [BitVec.toNat_ofNat, operandOf, hb, h0, u32, BitVec.toNat_setWidth, mkWord_toNat]
  omega

theorem splitEff24_abs (db : Byte) {b : Byte × Byte × Byte} (hb : b.2.2 = 0) (y : Word) :
    splitEff24 (db.setWidth 32 <<< 16 + BitVec.ofNat 32 (operandOf b) + cint16 y) =
      (db + carryOut (mkWord b.1 b.2.1) y, mkWord b.1 b.2.1 + y) := by
  rw [ofNat_operandOf_of_bank_zero hb]
  exact splitAddr_indexed (dataAddr_toNat db (mkWord b.1 b.2.1)) y

theorem splitEff24_long (b : Byte × Byte × Byte) (y : Word) :
    splitEff24 (BitVec.ofNat 32
        ((((operandOf b >>> 16) &&& 0xFF) <<< 16) ||| (operandOf b &&& 0xFFFF &&& 0xFFFF)) +
        cint16 y) =
      (b.2.2 + carryOut (mkWord b.1 b.2.1) y, mkWord b.1 b.2.1 + y) := by
  have hw := (mkWord b.1 b.2.1).isLt
  have hb := b.2.2.isLt
  refine splitAddr_indexed ?_ y
  rw [operandOf_shiftRight, operandOf_and_0xFFFF, Bits.and_0xFFFF, Nat.mod_eq_of_lt hw,
    Bits.shiftLeft_or_eq_add hw, BitVec.toNat_ofNat]
  omega

theorem ofNat_shiftRight (b : Byte × Byte × Byte) : BitVec.ofNat 8 (operandOf b >>> 16) = b.2.2 := by
  have h1 := b.1.isLt
  have h2 := b.2.1.isLt
  have h3 := b.2.2.isLt
  apply BitVec.eq_of_toNat_eq
  rw [BitVec.toNat_ofNat, Nat.shiftRight_eq_div_pow, operandOf]
  omega

theorem ofNat_bank (b : Byte × Byte × Byte) :
    BitVec.ofNat 8 ((operandOf b >>> 16) &&& 0xFF) = b.2.2 := by
  rw [operandOf_shiftRight, BitVec.ofNat_toNat, BitVec.setWidth_eq]

theorem ofNat_offset (b : Byte × Byte × Byte) :
    BitVec.ofNat 16 (operandOf b &&& 0xFFFF) = mkWord b.1 b.2.1 := by
  rw [operandOf_and_0xFFFF, BitVec.ofNat_toNat, BitVec.setWidth_eq]

/-- `segrefAddr` of a memory operand is the compiled address of its target. -/
theorem segrefAddr_eq_compiled (bus : Bus M) {mode : Mode} {am : AdrMode}
    (h : adrModeOf mode = some am) {b : Byte × Byte × Byte} (hb : hasBank am = false → b.2.2 = 0)
    (cpu : CpuState) (m : M) :
    ∃ seg, segrefFor mode (operandOf b) = some seg ∧
      (segrefAddr bus seg cpu m).1 =
        (target bus am (mkWord b.1 b.2.1) b.2.2 cpu m).compiled := by
  cases mode <;> cases h <;> refine ⟨_, rfl, ?_⟩ <;>
    simp only [segrefAddr, segOffset, segIndex, segIndexReg, target, ofNat_operandOf]
  case dp => exact congrArg _ (BitVec.add_zero _)
  case abs => exact (compiled_fixed_zero _ _).symm
  case absX => exact splitEff24_abs cpu.DB (hb rfl) cpu.X
  case absY => exact splitEff24_abs cpu.DB (hb rfl) cpu.Y
  case long =>
    rw [compiled_fixed_zero]
    exact Prod.ext (ofNat_bank b) (ofNat_offset b)
  case longX => exact splitEff24_long b cpu.X
  case stk => exact (compiled_fixed_zero _ _).symm
  case indirDpx => exact Prod.ext rfl (BitVec.add_zero _).symm
  all_goals rfl

/-! ### The interpreter's address -/

theorem bridgeBus_read (bus : Bus M) (adr : Addr) (m : M) :
    (bridgeBus bus).read adr m = bus.read8 (splitAddr adr).1 (splitAddr adr).2 m := rfl

theorem setWidth_u32 (v : Word) : (u32 v).setWidth 16 = v := by
  rw [u32, BitVec.setWidth_setWidth_of_le _ (by decide), BitVec.setWidth_eq]

/-- An address in bank zero, from the 32-bit sum the interpreter forms. -/
theorem splitAddr_bankZero (base : Word) (adr : Byte) (rest : Addr) :
    splitAddr (mask16 (u32 base + adr.setWidth 32 + rest)) =
      (0, base + mkWord adr 0 + rest.setWidth 16) := by
  rw [splitAddr_mask16, BitVec.setWidth_add _ _ (by decide), BitVec.setWidth_add _ _ (by decide),
    setWidth_u32, mkWord_zero, BitVec.setWidth_setWidth_of_le _ (by decide)]

theorem readPointer_bridgeBus (bus : Bus M) (base idx : Word) (adr : Byte) (cpu : Interp816 M) :
    readPointer (bridgeBus bus) base adr idx cpu =
      ((bytePointer bus (base + mkWord adr 0 + idx) cpu.mem).1,
        { cpu with mem := (bytePointer bus (base + mkWord adr 0 + idx) cpu.mem).2 }) := by
  have h0 : splitAddr (mask16 (u32 base + adr.setWidth 32 + u32 idx)) =
      (0, base + mkWord adr 0 + idx) := by
    rw [splitAddr_bankZero, setWidth_u32]
  have h1 : splitAddr (mask16 (u32 base + adr.setWidth 32 + u32 idx + 1)) =
      (0, base + mkWord adr 0 + idx + 1) := by
    rw [BitVec.add_assoc, splitAddr_bankZero, BitVec.setWidth_add _ _ (by decide), setWidth_u32,
      ← BitVec.add_assoc]
    rfl
  simp only [readPointer, readWord, Interp816.read, bridgeBus_read, h0, h1]
  rfl

theorem effIdp_low (bus : Bus M) (adr : Byte) (idx : Word) (cpu : Interp816 M) :
    splitAddr (effIdp (bridgeBus bus) adr idx cpu).1.low =
      (cpu.db, (bytePointer bus (cpu.dp + mkWord adr 0 + idx) cpu.mem).1) := by
  simp only [effIdp, readPointer_bridgeBus, splitAddr_dataAddr]

theorem effIndirectY_low (bus : Bus M) (base : Word) (adr : Byte) (cpu : Interp816 M) :
    splitAddr (effIndirectY (bridgeBus bus) base adr cpu).1.low =
      (let p := (bytePointer bus (base + mkWord adr 0) cpu.mem).1
       (cpu.db + carryOut p cpu.y, p + cpu.y)) := by
  simp only [effIndirectY, readPointer_bridgeBus, splitAddr_mask24, splitAddr_indexed
    (dataAddr_toNat _ _)]
  rw [show base + mkWord adr 0 + 0 = base + mkWord adr 0 from BitVec.add_zero _]

/-- The pointer of the long modes, as an address. -/
theorem readLongPointer_bridgeBus (bus : Bus M) (adr : Byte) (cpu : Interp816 M) :
    (readLongPointer (bridgeBus bus) adr cpu).1 =
      (let p := bytePointer bus (cpu.dp + mkWord adr 0) cpu.mem
       longAddr p.1 (bus.read8 0x00 (cpu.dp + mkWord adr 0 + 2) p.2).1) := by
  have h2 : splitAddr (mask16 (u32 cpu.dp + adr.setWidth 32 + 2)) =
      (0, cpu.dp + mkWord adr 0 + 2) := splitAddr_bankZero cpu.dp adr 2
  have h0 : cpu.dp + mkWord adr 0 + 0 = cpu.dp + mkWord adr 0 := BitVec.add_zero _
  simp only [readLongPointer, readPointer_bridgeBus, Interp816.read, bridgeBus_read, h2, h0]
  rfl

/-- The address of a memory operand's low byte is the interpreted address of its target. -/
theorem adr_low_eq_interp (bus : Bus M) (am : AdrMode) (himm : ∀ x, am ≠ .imm x)
    (cpu : CpuState) (i : Interp816 M) :
    let fetched := fetch (bridgeBus bus) am (syncCpuToInterp cpu i)
    splitAddr (adr (bridgeBus bus) am (syncCpuToInterp cpu i)).1.low =
      (target bus am (mkWord fetched.1.1 fetched.1.2.1) fetched.1.2.2 cpu fetched.2.mem).interp := by
  intro fetched
  rw [adr_eq_resolve]
  cases am with
  | imm x => exact absurd rfl (himm x)
  | dp =>
    refine (splitAddr_bankZero _ _ _).trans ?_
    exact congrArg _ (BitVec.add_zero _)
  | dpx =>
    refine (splitAddr_bankZero _ _ _).trans ?_
    rw [setWidth_u32]
    rfl
  | dpy =>
    refine (splitAddr_bankZero _ _ _).trans ?_
    rw [setWidth_u32]
    rfl
  | idp =>
    rw [target, interp_pointer_zero]
    refine (effIdp_low bus _ 0 _).trans ?_
    rw [show ∀ a : Word, a + 0 = a from BitVec.add_zero]
    rfl
  | idx =>
    rw [target, interp_pointer_zero]
    exact effIdp_low bus _ _ _
  | idy => exact effIndirectY_low bus _ _ _
  | idl =>
    rw [target, interp_pointer_zero]
    refine (congrArg splitAddr (readLongPointer_bridgeBus bus _ _)).trans ?_
    exact splitAddr_longAddr _ _
  | ily =>
    refine (splitAddr_mask24 _).trans ?_
    rw [readLongPointer_bridgeBus]
    exact splitAddr_indexed (longAddr_toNat _ _) _
  | sr =>
    rw [target, interp_fixed_zero]
    refine (splitAddr_mask16 _).trans ?_
    rw [BitVec.setWidth_add _ _ (by decide), setWidth_u32,
      BitVec.setWidth_setWidth_of_le _ (by decide), ← mkWord_zero]
    rfl
  | isy => exact effIndirectY_low bus _ _ _
  | abs =>
    rw [target, interp_fixed_zero]
    exact splitAddr_dataAddr _ _
  | abx => exact (splitAddr_mask24 _).trans (splitAddr_indexed (dataAddr_toNat _ _) _)
  | aby => exact (splitAddr_mask24 _).trans (splitAddr_indexed (dataAddr_toNat _ _) _)
  | abl =>
    rw [target, interp_fixed_zero]
    exact splitAddr_longAddr _ _
  | alx => exact (splitAddr_mask24 _).trans (splitAddr_indexed (longAddr_toNat _ _) _)

/-! ### One byte or two -/

variable {H : Type}

/-- The location `cpu_read8` and `cpu_write8` select (`cpuRead8_eq_readLoc`). -/
def selected (cart : Cart) (p : Byte × Word) : Loc := route cart p.1 p.2

/-- An address outside WRAM, the registers and SRAM. -/
def InImage (cart : Cart) (p : Byte × Word) : Prop :=
  cpuRamOffset p.1 p.2 = none ∧ isHwReg p.1 p.2 = false ∧ cpuSramOffset cart p.1 p.2 = none

/-- Mirrors in the memory map. -/
inductive Mirrored (cart : Cart) (p q : Byte × Word) : Prop
  /-- Bank `$7E` and each low bank show the first 8K of WRAM. -/
  | lowWram (hp : p.1 = 0x7E ∨ lowBank p.1 = true) (hq : q.1 = 0x7E ∨ lowBank q.1 = true)
      (hlow : p.2.toNat < 0x2000) (haddr : p.2 = q.2)
  /-- Each low bank has the registers. -/
  | registers (hp : isHwReg p.1 p.2 = true) (hq : isHwReg q.1 q.2 = true) (haddr : p.2 = q.2)
  | sram (off : Nat) (hp : cpuSramOffset cart p.1 p.2 = some off)
      (hq : cpuSramOffset cart q.1 q.2 = some off)
  | rom (hp : InImage cart p) (hq : InImage cart q)
      (hindex : romPtr cart (addr24 p.1 p.2) = romPtr cart (addr24 q.1 q.2))

/-- When the two tiers address one byte.  For a pointer: it reads alike in both, up to
the carry of the index into its bank. -/
def Target.Agrees (cart : Cart) : Target → Prop
  | .direct addr => addr.toNat < 0x2000
  | .fixed _ _ _ => True
  | .pointer compiled interp index =>
    compiled = (interp.1 + carryOut interp.2 index, interp.2) ∨
      Mirrored cart (Target.pointer compiled interp index).compiled
        (Target.pointer compiled interp index).interp

/-- A pointer below `$1FFF`, or anywhere outside the registers where words are two bytes,
reads alike in both tiers. -/
theorem wordPointer_eq_bytePointer {cart : Cart} (io : RegIo H) {p : Word} (hp : p.toNat < 0xFFFF)
    (hw : isHwReg 0 p = false) (hadj : wordAdjacent cart 0 p = true) (m : Mem H) :
    wordPointer (cpuBus cart io) p m = (bytePointer (cpuBus cart io) p m).1 := by
  show (cpuRead16 cart io 0 p m).1 = _
  rw [cpuRead16_eq_readPair hw, wordLocs_eq_byteLocs hw hadj, byteLocs, nextAddr_of_lt hp]
  simp only [bytePointer, cpuBus, cpuRead8_eq_readLoc]
  rfl

/-- A pointer that reads alike serves while the index stays in its bank. -/
theorem Target.agrees_of_no_carry (cart : Cart) {p : Byte × Word} {index : Word}
    (h : p.2.toNat + index.toNat < 0x10000) : (Target.pointer p p index).Agrees cart := by
  refine Or.inl ?_
  rw [carryOut, if_pos h]
  exact Prod.ext (BitVec.add_zero _).symm rfl

/-- A pointer that reads alike with a carry: the next bank has to be a mirror. -/
theorem Target.agrees_carry_iff (cart : Cart) {p : Byte × Word} {index : Word}
    (h : 0x10000 ≤ p.2.toNat + index.toNat) :
    (Target.pointer p p index).Agrees cart ↔
      Mirrored cart (p.1, p.2 + index) (p.1 + 1, p.2 + index) := by
  have hc : carryOut p.2 index = 1 := if_neg (by omega)
  have hne : p.1 ≠ p.1 + 1 := by
    intro e
    have he := congrArg BitVec.toNat e
    have hlt := p.1.isLt
    have h1 : (1 : Byte).toNat = 1 := rfl
    rw [BitVec.toNat_add, h1] at he
    omega
  simp only [Target.Agrees, Target.compiled, Target.interp, hc]
  constructor
  · rintro (h | h)
    · exact absurd (congrArg Prod.fst h) hne
    · exact h
  · exact Or.inr

theorem selected_7E (cart : Cart) (a : Word) : selected cart (0x7E, a) = .wram a.toNat := rfl

/-- Bank zero mirrors WRAM below `$2000` and nowhere else. -/
theorem selected_bankZero (cart : Cart) (a : Word) (off : Nat) :
    selected cart (0, a) = .wram off ↔ a.toNat < 0x2000 ∧ off = a.toNat := by
  have hne : (0 : Byte) ≠ 0x7E ∧ (0 : Byte) ≠ 0x7F ∧ lowBank 0 = true := by decide
  constructor
  · intro h
    have hr : cpuRamOffset 0 a = some off := by
      unfold selected route at h
      split at h
      · rename_i hr
        cases h
        exact hr
      · split at h
        · cases h
        · split at h <;> cases h
    rcases cpuRamOffset_eq_some.mp hr with ⟨h7, -⟩ | ⟨h7, -⟩ | ⟨-, hlt, hoff⟩
    · exact absurd h7 hne.1
    · exact absurd h7 hne.2.1
    · exact ⟨hlt, hoff⟩
  · rintro ⟨hlt, rfl⟩
    exact route_of_ram (cpuRamOffset_eq_some.mpr (Or.inr (Or.inr ⟨hne.2.2, hlt, rfl⟩)))

theorem selected_cases (cart : Cart) (p : Byte × Word) :
    (∃ off, cpuRamOffset p.1 p.2 = some off ∧ selected cart p = .wram off) ∨
      (isHwReg p.1 p.2 = true ∧ selected cart p = .reg p.2) ∨
      (∃ off, cpuSramOffset cart p.1 p.2 = some off ∧ selected cart p = .sram off) ∨
      (InImage cart p ∧ selected cart p = .rom (romPtr cart (addr24 p.1 p.2))) := by
  cases hr : cpuRamOffset p.1 p.2 with
  | some off => exact Or.inl ⟨off, rfl, route_of_ram hr⟩
  | none =>
    cases hw : isHwReg p.1 p.2 with
    | true => exact Or.inr (Or.inl ⟨rfl, route_of_reg hr hw⟩)
    | false =>
      cases hs : cpuSramOffset cart p.1 p.2 with
      | some off => exact Or.inr (Or.inr (Or.inl ⟨off, rfl, route_of_sram hr hw hs⟩))
      | none => exact Or.inr (Or.inr (Or.inr ⟨⟨hr, hw, hs⟩, route_of_rom hr hw hs⟩))

/-- The registers are outside WRAM. -/
theorem cpuRamOffset_of_isHwReg {bank : Byte} {addr : Word} (h : isHwReg bank addr = true) :
    cpuRamOffset bank addr = none := by
  obtain ⟨hbank, haddr, _⟩ := isHwReg_iff.mp h
  rw [lowBank_iff] at hbank
  refine Option.eq_none_iff_forall_ne_some.mpr fun off hr => ?_
  rcases cpuRamOffset_eq_some.mp hr with ⟨rfl, _⟩ | ⟨rfl, _⟩ | ⟨_, hlow, _⟩
  · simp at hbank
  · simp at hbank
  · omega

theorem selected_of_sram {cart : Cart} {p : Byte × Word} {off : Nat}
    (h : cpuSramOffset cart p.1 p.2 = some off) : selected cart p = .sram off := by
  obtain ⟨_, hbank⟩ := cpuSramOffset_some h
  rw [lowBank_iff] at hbank
  rcases selected_cases cart p with ⟨o, hr, _⟩ | ⟨hw, _⟩ | ⟨o, hs, hsel⟩ | ⟨hrom, _⟩
  · rcases cpuRamOffset_eq_some.mp hr with ⟨h7, _⟩ | ⟨h7, _⟩ | ⟨hlow, haddr, _⟩
    · rw [h7] at hbank
      simp at hbank
    · rw [h7] at hbank
      simp at hbank
    · rw [lowBank_iff] at hlow
      omega
  · obtain ⟨hlow, _, haddr⟩ := isHwReg_iff.mp hw
    rw [lowBank_iff] at hlow
    omega
  · rw [hsel, Option.some.inj (hs.symm.trans h)]
  · exact absurd (hrom.2.2.symm.trans h) (by simp)

theorem ramOffset_low {p : Byte × Word} (hbank : p.1 = 0x7E ∨ lowBank p.1 = true)
    (hlow : p.2.toNat < 0x2000) : cpuRamOffset p.1 p.2 = some p.2.toNat := by
  rw [cpuRamOffset_eq_some]
  rcases hbank with h | h
  · exact Or.inl ⟨h, rfl⟩
  · exact Or.inr (Or.inr ⟨h, hlow, rfl⟩)

/-- One byte of WRAM at two addresses is one of the first 8K. -/
theorem mirrored_of_ram {cart : Cart} {p q : Byte × Word} {off : Nat}
    (hp : cpuRamOffset p.1 p.2 = some off) (hq : cpuRamOffset q.1 q.2 = some off) :
    p = q ∨ Mirrored cart p q := by
  have hplt := p.2.isLt
  have hqlt := q.2.isLt
  rcases cpuRamOffset_eq_some.mp hp with ⟨hpb, hpo⟩ | ⟨hpb, hpo⟩ | ⟨hpb, hplow, hpo⟩ <;>
    rcases cpuRamOffset_eq_some.mp hq with ⟨hqb, hqo⟩ | ⟨hqb, hqo⟩ | ⟨hqb, hqlow, hqo⟩
  case inl.inl => exact Or.inl (Prod.ext (hpb.trans hqb.symm) (BitVec.eq_of_toNat_eq (by omega)))
  case inr.inl.inr.inl =>
    exact Or.inl (Prod.ext (hpb.trans hqb.symm) (BitVec.eq_of_toNat_eq (by omega)))
  case inl.inr.inr =>
    exact Or.inr (.lowWram (Or.inl hpb) (Or.inr hqb) (by omega) (BitVec.eq_of_toNat_eq (by omega)))
  case inr.inr.inl =>
    exact Or.inr (.lowWram (Or.inr hpb) (Or.inl hqb) hplow (BitVec.eq_of_toNat_eq (by omega)))
  case inr.inr.inr.inr =>
    exact Or.inr (.lowWram (Or.inr hpb) (Or.inr hqb) hplow (BitVec.eq_of_toNat_eq (by omega)))
  all_goals omega

/-- The locations of two addresses are one for the same address and for mirrors. -/
theorem selected_eq_iff (cart : Cart) (p q : Byte × Word) :
    selected cart p = selected cart q ↔ p = q ∨ Mirrored cart p q := by
  constructor
  · intro h
    rcases selected_cases cart p with ⟨o, hp, hsel⟩ | ⟨hp, hsel⟩ | ⟨o, hp, hsel⟩ | ⟨hp, hsel⟩ <;>
      rcases selected_cases cart q with ⟨o', hq, hsel'⟩ | ⟨hq, hsel'⟩ | ⟨o', hq, hsel'⟩ | ⟨hq, hsel'⟩ <;>
      rw [hsel, hsel'] at h <;> try simp only [reduceCtorEq] at h
    case inl.inl => exact mirrored_of_ram hp (Loc.wram.inj h ▸ hq)
    case inr.inl.inr.inl => exact Or.inr (.registers hp hq (Loc.reg.inj h))
    case inr.inr.inl.inr.inr.inl => exact Or.inr (.sram o hp (Loc.sram.inj h ▸ hq))
    case inr.inr.inr.inr.inr.inr => exact Or.inr (.rom hp hq (Loc.rom.inj h))
  · rintro (rfl | hmirror)
    · rfl
    · cases hmirror with
      | lowWram hp hq hlow haddr =>
        rw [selected, selected, route_of_ram (ramOffset_low hp hlow),
          route_of_ram (ramOffset_low hq (haddr ▸ hlow)), haddr]
      | registers hp hq haddr =>
        rw [selected, selected, route_of_reg (cpuRamOffset_of_isHwReg hp) hp,
          route_of_reg (cpuRamOffset_of_isHwReg hq) hq, haddr]
      | sram off hp hq => rw [selected_of_sram hp, selected_of_sram hq]
      | rom hp hq hindex =>
        rw [selected, selected, route_of_rom hp.1 hp.2.1 hp.2.2, route_of_rom hq.1 hq.2.1 hq.2.2, hindex]

theorem Target.selected_eq_iff (cart : Cart) (t : Target) :
    selected cart t.compiled = selected cart t.interp ↔ t.Agrees cart := by
  cases t with
  | direct addr =>
    simp only [Target.compiled, Target.interp, selected_7E, Target.Agrees]
    rw [eq_comm, selected_bankZero]
    exact ⟨fun h => h.1, fun h => ⟨h, rfl⟩⟩
  | fixed bank addr index => exact ⟨fun _ => trivial, fun _ => rfl⟩
  | pointer compiled interp index =>
    rw [Tiers.selected_eq_iff]
    refine or_congr_left ⟨fun heq => ?_, fun heq => heq ▸ rfl⟩
    have h1 := congrArg Prod.fst heq
    have h2 : compiled.2 + index = interp.2 + index := congrArg Prod.snd heq
    exact Prod.ext h1 (add_right_cancel h2)

/-- **One byte in both tiers.**  `hfetch`: the interpreter is about to fetch the operand
the decoder read. -/
theorem sameByte_iff (cart : Cart) (io : RegIo H) {rom : Rom} {offset pc bank : Nat} {m x : Bool}
    {insn : Insn} (hdec : decodeInsn rom offset pc bank m x = some insn) {op : MemOp}
    {am : AdrMode} (hop : opOf insn.opcode = .mem op am) (himm : ∀ x, am ≠ .imm x)
    (cpu : CpuState) (i : Interp816 (Mem H))
    (hfetch : operandOf (fetch (bridgeBus (cpuBus cart io)) am (syncCpuToInterp cpu i)).1 =
      insn.operand) :
    let bus := cpuBus cart io
    let fetched := fetch (bridgeBus bus) am (syncCpuToInterp cpu i)
    ∃ seg, segrefFor insn.mode insn.operand = some seg ∧
      (selected cart (segrefAddr bus seg cpu fetched.2.mem).1 =
          selected cart (splitAddr (adr (bridgeBus bus) am (syncCpuToInterp cpu i)).1.low) ↔
        (target bus am (BitVec.ofNat 16 insn.operand) (BitVec.ofNat 8 (insn.operand >>> 16)) cpu
          fetched.2.mem).Agrees cart) := by
  intro bus fetched
  have hmode := adrModeOf_opcodeRow hop himm
  rw [← mode_of_decodeInsn hdec] at hmode
  obtain ⟨seg, hseg, haddr⟩ := segrefAddr_eq_compiled bus hmode
    (fun h => fetch_bank (bridgeBus bus) h (syncCpuToInterp cpu i)) cpu fetched.2.mem
  rw [← hfetch]
  refine ⟨seg, hseg, ?_⟩
  rw [haddr, adr_low_eq_interp bus am himm cpu i, ofNat_operandOf, ofNat_shiftRight]
  exact Target.selected_eq_iff cart _

/-- `LDA $10` at the start of the image. -/
def loadDirect (n : Nat) : Byte := [0xA5, 0x10].getD n 0

/-- A native-mode state about to load from the direct page at `d`. -/
def directPageAt (d : Word) : CpuState := { cpuStateInit with emulation := false, D := d }

/-- The interpreter past the opcode of that load. -/
def pastOpcode : Interp816 (Mem Unit) :=
  { Interp816.zeroed ⟨fun _ => 0, fun _ => 0, loadDirect, ()⟩ with pc := 0x8001 }

/-- With `D` at zero the load is from WRAM in both tiers. -/
theorem sameByte_directPage_0000 :
    let bus := cpuBus ⟨0x80000, 0⟩ quietIo
    ∃ seg, segrefFor .dp 0x10 = some seg ∧
      (selected ⟨0x80000, 0⟩ (segrefAddr bus seg (directPageAt 0) pastOpcode.mem).1 =
          selected ⟨0x80000, 0⟩
            (splitAddr (adr (bridgeBus bus) .dp (syncCpuToInterp (directPageAt 0) pastOpcode)).1.low) ↔
        (target bus .dp 0x10 0 (directPageAt 0) pastOpcode.mem).Agrees ⟨0x80000, 0⟩) :=
  sameByte_iff ⟨0x80000, 0⟩ quietIo
    (show decodeInsn ⟨2, loadDirect⟩ 0 0x8000 0 true true =
      some ⟨0x8000, 0xA5, .lda, .dp, 0x10, 2, true, true, false, none⟩ from rfl)
    (show opOf 0xA5 = .mem .lda .dp from rfl) (fun _ => by rintro ⟨⟩) (directPageAt 0) pastOpcode rfl

/-- With `D` at `$2000` the compiled load is from WRAM, the interpreted one from a register. -/
theorem not_sameByte_directPage_2000 :
    let bus := cpuBus ⟨0x80000, 0⟩ quietIo
    decodeInsn ⟨2, loadDirect⟩ 0 0x8000 0 true true =
        some ⟨0x8000, 0xA5, .lda, .dp, 0x10, 2, true, true, false, none⟩ ∧
      ∃ seg, segrefFor .dp 0x10 = some seg ∧
        selected ⟨0x80000, 0⟩ (segrefAddr bus seg (directPageAt 0x2000) pastOpcode.mem).1 ≠
          selected ⟨0x80000, 0⟩ (splitAddr
            (adr (bridgeBus bus) .dp (syncCpuToInterp (directPageAt 0x2000) pastOpcode)).1.low) :=
  ⟨rfl, _, rfl, by decide⟩

end SnesRecomp.Tiers
