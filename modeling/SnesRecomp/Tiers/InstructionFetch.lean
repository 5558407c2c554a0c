import SnesRecomp.Tiers.AluSteps
import SnesRecomp.Tiers.EffectiveAddress

/-!
# The interpreter at a decoded instruction

`Fetches` says that the bytes at the interpreter's program counter are those of a decoded
instruction.  From there `interp816_runOpcode` executes that instruction: its operation
with the decoder's operand, past as many bytes as the decoder gave it.  For a memory
operand the two addresses and the memory after the pointer reads are read off the
`target` of the operand.
-/

namespace SnesRecomp.Tiers

open Recompiler Interp816

variable {M : Type}

/-- The bytes of an instruction, its opcode first. -/
def insnByte (insn : Insn) : Nat → Byte
  | 0 => insn.opcode
  | n + 1 => BitVec.ofNat 8 (insn.operand >>> (8 * n))

/-- The bytes at the program counter are those of `insn`, and reading them changes
nothing. -/
def Fetches (bus : Bus M) (insn : Insn) (i : Interp816 M) : Prop :=
  ∀ n < insn.length, bus.read8 i.k (i.pc + BitVec.ofNat 16 n) i.mem = (insnByte insn n, i.mem)

/-- The operand of an instruction of two bytes. -/
theorem mkWord_insnByte_zero (insn : Insn) :
    mkWord (insnByte insn 1) 0 = BitVec.ofNat 16 (insn.operand &&& 0xFF) := by
  apply BitVec.eq_of_toNat_eq
  rw [mkWord_toNat, Bits.and_0xFF]
  simp [insnByte]
  omega

/-- The operand of an instruction of three bytes. -/
theorem mkWord_insnBytes (insn : Insn) :
    mkWord (insnByte insn 1) (insnByte insn 2) = BitVec.ofNat 16 insn.operand := by
  apply BitVec.eq_of_toNat_eq
  simp only [mkWord_toNat, insnByte, BitVec.toNat_ofNat, Nat.shiftRight_eq_div_pow]
  omega

/-- The interpreter `n` code bytes further. -/
def advance (i : Interp816 M) (n : Nat) : Interp816 M := { i with pc := i.pc + BitVec.ofNat 16 n }

theorem advance_zero (i : Interp816 M) : advance i 0 = i := by
  have h : i.pc + BitVec.ofNat 16 0 = i.pc := BitVec.add_zero i.pc
  rw [advance, h]

theorem advance_pc_succ (i : Interp816 M) (n : Nat) : (advance i n).pc + 1 = (advance i (n + 1)).pc := by
  show i.pc + BitVec.ofNat 16 n + 1 = i.pc + BitVec.ofNat 16 (n + 1)
  rw [BitVec.ofNat_add, BitVec.add_assoc]
  rfl

theorem splitAddr_bankAddr (k : Byte) (pc : Word) : splitAddr (bankAddr k pc) = (k, pc) := by
  rw [show bankAddr k pc = longAddr pc k from BitVec.or_comm _ _]
  exact splitAddr_longAddr pc k

section Fetch

variable {bus : Bus M} {insn : Insn} {i : Interp816 M}

theorem readOpcode_advance (hf : Fetches bus insn i) {n : Nat} (hn : n < insn.length) :
    readOpcode (bridgeBus bus) (advance i n) = (insnByte insn n, advance i (n + 1)) := by
  have h := hf n hn
  simp only [readOpcode, Interp816.read, bridgeBus_read, splitAddr_bankAddr, advance_pc_succ]
  rw [show (advance i n).k = i.k from rfl, show (advance i n).pc = i.pc + BitVec.ofNat 16 n from rfl,
    show (advance i n).mem = i.mem from rfl, h]
  rfl

theorem readOpcodeWord_advance (hf : Fetches bus insn i) {n : Nat} (hn : n + 1 < insn.length) :
    readOpcodeWord (bridgeBus bus) (advance i n) =
      (mkWord (insnByte insn n) (insnByte insn (n + 1)), advance i (n + 2)) := by
  rw [readOpcodeWord, readOpcode_advance hf (by omega), readOpcode_advance hf hn]

/-- No interrupt is waiting and the processor runs: the interpreter of the bridge. -/
structure Uninterrupted (i : Interp816 M) : Prop where
  stopped : i.stopped = false
  irq : i.irqWanted = false
  nmi : i.nmiWanted = false

/-- Without an interrupt to take, the instruction is executed. -/
theorem runOpcode_of_running (hf : Fetches bus insn i) (hstopped : i.stopped = false)
    (hinterrupt : (!i.i && i.irqWanted || i.nmiWanted) = false) (hlen : 0 < insn.length) :
    runOpcode (bridgeBus bus) i = exec (bridgeBus bus) (opOf insn.opcode) (advance i 1) := by
  have htake : takeInterrupt (bridgeBus bus) i = i := by
    rw [takeInterrupt, hinterrupt, if_neg (by decide)]
  have hop := readOpcode_advance hf hlen
  rw [advance_zero] at hop
  rw [runOpcode, if_neg (by rw [hstopped]; decide), htake, hop]
  rfl

theorem runOpcode_of_fetches (hf : Fetches bus insn i) (hr : Uninterrupted i) (hlen : 0 < insn.length) :
    runOpcode (bridgeBus bus) i = exec (bridgeBus bus) (opOf insn.opcode) (advance i 1) :=
  runOpcode_of_running hf hr.stopped (by rw [hr.irq, hr.nmi, Bool.and_false, Bool.or_false]) hlen

/-! ### The operand -/

/-- How many bytes follow the opcode. -/
def operandBytes : AdrMode → Nat
  | .imm _ => 0
  | .abs | .abx | .aby => 2
  | .abl | .alx => 3
  | _ => 1

/-- The two opcode tables give an operand one size. -/
def sameLength (opcode : Byte) : Bool :=
  match opOf opcode with
  | .mem _ (.imm xFlag) => (opcodeRow opcode).len == if xFlag then .byX else .byM
  | .mem _ am => (opcodeRow opcode).len == .fixed (1 + operandBytes am)
  | _ => true

theorem sameLength_all : ∀ opcode : Byte, sameLength opcode = true := by decide +kernel

theorem length_of_decodeInsn {rom : Rom} {offset pc bank : Nat} {m x : Bool} {insn : Insn}
    (hdec : decodeInsn rom offset pc bank m x = some insn) {op : MemOp} {am : AdrMode}
    (hop : opOf insn.opcode = .mem op am) (himm : ∀ x, am ≠ .imm x) :
    insn.length = 1 + operandBytes am := by
  have h := sameLength_all insn.opcode
  rw [sameLength, hop] at h
  have hlen : (opcodeRow insn.opcode).len = .fixed (1 + operandBytes am) := by
    cases am with
    | imm x => exact absurd rfl (himm x)
    | _ => exact beq_iff_eq.mp h
  simp only [decodeInsn, Option.bind_eq_bind, Option.bind_eq_some_iff, Option.pure_def,
    Option.some.injEq] at hdec
  obtain ⟨op, -, operand, -, rfl⟩ := hdec
  exact congrArg (fun l : LenSpec => l.length m x) hlen

theorem operand_lt_of_decodeOperand {rom : Rom} {offset pc length operand : Nat} {mode : Mode}
    (h : decodeOperand rom offset pc mode length = some operand) {am : AdrMode}
    (hmode : adrModeOf mode = some am) : operand < 256 ^ operandBytes am := by
  have hbyte : ∀ n v, (rom.get? (offset + n)).map BitVec.toNat = some v → v < 256 := by
    intro n v hv
    obtain ⟨b, -, rfl⟩ := Option.map_eq_some_iff.mp hv
    exact b.isLt
  cases mode <;> cases hmode <;>
    simp only [decodeOperand, Option.bind_eq_bind, Option.bind_eq_some_iff, Option.pure_def,
      Option.some.injEq] at h
  case abs | absX | absY =>
    obtain ⟨b1, h1, b2, h2, rfl⟩ := h
    have hb1 := hbyte 1 b1 h1
    have hb2 := hbyte 2 b2 h2
    rw [Nat.or_comm, Bits.shiftLeft_or_eq_add (by omega : b1 < 2 ^ 8)]
    simp only [operandBytes]
    omega
  case long | longX =>
    obtain ⟨b1, h1, b2, h2, b3, h3, rfl⟩ := h
    have hb1 := hbyte 1 b1 h1
    have hb2 := hbyte 2 b2 h2
    have hb3 := hbyte 3 b3 h3
    have hw : b1 ||| b2 <<< 8 = b2 * 2 ^ 8 + b1 := by
      rw [Nat.or_comm, Bits.shiftLeft_or_eq_add (by omega : b1 < 2 ^ 8)]
    rw [Nat.or_comm, hw, Bits.shiftLeft_or_eq_add (by omega : b2 * 2 ^ 8 + b1 < 2 ^ 16)]
    simp only [operandBytes]
    omega
  all_goals exact hbyte 1 operand h

/-- The operand put together from its bytes. -/
theorem operandOf_insnBytes (insn : Insn) {n : Nat} (hn : n = 1 ∨ n = 2 ∨ n = 3)
    (hlt : insn.operand < 256 ^ n) :
    operandOf (insnByte insn 1, if 1 < n then insnByte insn 2 else 0,
      if 2 < n then insnByte insn 3 else 0) = insn.operand := by
  have h0 : (0 : Byte).toNat = 0 := rfl
  rcases hn with rfl | rfl | rfl <;>
    simp [operandOf, insnByte, Nat.shiftRight_eq_div_pow] at hlt ⊢ <;> omega

/-- The fetch of a memory operand. -/
theorem fetch_of_fetches (hf : Fetches bus insn i) {am : AdrMode} (himm : ∀ x, am ≠ .imm x)
    (hlen : insn.length = 1 + operandBytes am) (hlt : insn.operand < 256 ^ operandBytes am) :
    operandOf (fetch (bridgeBus bus) am (advance i 1)).1 = insn.operand ∧
      (fetch (bridgeBus bus) am (advance i 1)).2 = advance i insn.length := by
  have key : ∀ n, n = 1 ∨ n = 2 ∨ n = 3 → insn.length = 1 + n → insn.operand < 256 ^ n →
      ∀ f : (Byte × Byte × Byte) × Interp816 M,
      f = ((insnByte insn 1, if 1 < n then insnByte insn 2 else 0,
        if 2 < n then insnByte insn 3 else 0), advance i (1 + n)) →
      operandOf f.1 = insn.operand ∧ f.2 = advance i insn.length := by
    rintro n hn hl hb f rfl
    exact ⟨operandOf_insnBytes insn hn hb, by rw [hl]⟩
  cases am with
  | imm x => exact absurd rfl (himm x)
  | abs | abx | aby =>
    refine key 2 (by omega) hlen hlt _ ?_
    have hl : insn.length = 3 := hlen
    simp only [fetch, readOpcodeWord_advance hf (show 1 + 1 < insn.length by omega),
      loByte_mkWord, hiByte_mkWord]
    rfl
  | abl | alx =>
    refine key 3 (by omega) hlen hlt _ ?_
    have hl : insn.length = 4 := hlen
    simp only [fetch, readOpcodeWord_advance hf (show 1 + 1 < insn.length by omega),
      readOpcode_advance hf (show 3 < insn.length by omega), loByte_mkWord, hiByte_mkWord]
    rfl
  | _ =>
    refine key 1 (by omega) hlen hlt _ ?_
    have hl : insn.length = 2 := hlen
    simp only [fetch, readOpcode_advance hf (show 1 < insn.length by omega)]
    rfl

/-- An immediate operand is the decoder's, at the width its flag has. -/
theorem adrImm_of_fetches (hf : Fetches bus insn i) {xFlag byte : Bool}
    (hbyte : (if xFlag then i.xf else i.mf) = byte)
    (hlen : insn.length = if byte then 2 else 3) :
    (adrImm xFlag (advance i 1)).2 = advance i insn.length ∧
      readAt (bridgeBus bus) (widthOf byte) (adrImm xFlag (advance i 1)).1 i.mem =
        (toCtype (widthOf byte) (BitVec.ofNat 32 insn.operand), i.mem) := by
  have hcond : ((xFlag && (advance i 1).xf) || (!xFlag && (advance i 1).mf)) = byte := by
    subst hbyte
    cases xFlag <;> simp [advance]
  have hread : ∀ n, n < insn.length →
      (bridgeBus bus).read (bankAddr (advance i n).k (advance i n).pc) i.mem =
        (insnByte insn n, i.mem) := by
    intro n hn
    rw [bridgeBus_read, splitAddr_bankAddr]
    exact hf n hn
  rw [adrImm, hcond]
  cases byte with
  | true =>
    have hl : insn.length = 2 := hlen
    rw [if_pos rfl, hl]
    refine ⟨congrArg (fun pc => { i with pc := pc }) (advance_pc_succ i 1), ?_⟩
    simp only [widthOf, if_true, readAt, hread 1 (by omega)]
    rw [insnByte, toCtype, BitVec.setWidth_ofNat_of_le (by decide : 8 ≤ 32)]
    rfl
  | false =>
    have hl : insn.length = 3 := hlen
    have hnext : { advance i 1 with pc := (advance i 1).pc + 1 } = advance i 2 :=
      congrArg (fun pc => { i with pc := pc }) (advance_pc_succ i 1)
    rw [if_neg (by decide), hnext, hl]
    refine ⟨congrArg (fun pc => { i with pc := pc }) (advance_pc_succ i 2), ?_⟩
    simp only [widthOf, Bool.false_eq_true, if_false, readAt, hread 1 (by omega), hread 2 (by omega)]
    refine congrArg (fun v => (v, i.mem)) ?_
    rw [toCtype, BitVec.setWidth_ofNat_of_le (by decide : 16 ≤ 32)]
    apply BitVec.eq_of_toNat_eq
    simp only [mkWord_toNat, insnByte, BitVec.toNat_ofNat, Nat.shiftRight_eq_div_pow]
    omega

end Fetch

end SnesRecomp.Tiers
