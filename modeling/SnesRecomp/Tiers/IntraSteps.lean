import SnesRecomp.Interp.Modes
import SnesRecomp.Recompiler.Graph
import SnesRecomp.Tiers.StackRuns

/-!
# Steps inside a function

An instruction that neither calls, returns, halts nor exchanges the modes, and that jumps only to an
address it names.  `edge_of_step`: one step of the interpreter over the bytes of such an instruction
goes along an edge that `_labeled_successors` gives it, in the widths of that edge.  The status
bytes that `PHP` has pushed are kept beside the state; a `PLP` has to pull the newest.

A block move repeats itself until it is done (`RepeatsItself`).
-/

namespace SnesRecomp.Tiers

open Recompiler Interp816

variable {M : Type}

/-- Neither a call, a return, a halt nor the exchange of the modes. -/
def staysInside : Mnem → Bool
  | .jsr | .jsl | .rts | .rtl | .rti | .brk | .cop | .stp | .wai | .xce => false
  | _ => true

/-- The instruction goes to an address that it names, or to the one behind it. -/
structure Intra (inp : DecodeInput) (insn : Insn) : Prop where
  mnem : staysInside insn.mnem = true
  jmp : insn.mnem = .jmp → insn.mode = .abs
  pha : insn.mnem = .pha → inp.recovery.rtsStack insn = none

/-- Control goes to the address that the instruction names. -/
def jumps (i : Interp816 M) : Mnem → Bool
  | .bpl => !i.n
  | .bmi => i.n
  | .bvc => !i.v
  | .bvs => i.v
  | .bcc => !i.c
  | .bcs => i.c
  | .bne => !i.z
  | .beq => i.z
  | .bra | .brl | .jmp => true
  | _ => false

def kindOf (i : Interp816 M) (mnem : Mnem) : EdgeKind := if jumps i mnem then .jump else .fall

/-- The status bytes that wait to be pulled, the newest first. -/
inductive Saves (bus : Bus M) (mnem : Mnem) (i : Interp816 M) : List Byte → List Byte → Prop
  | php {saved : List Byte} : mnem = .php → saved.length < phpStackMaxDepth →
      Saves bus mnem i saved (getFlags i :: saved)
  | plp {saved : List Byte} : mnem = .plp →
      Saves bus mnem i ((pullByte (bridgeBus bus) i).1 :: saved) saved
  | other {saved : List Byte} : mnem ≠ .php → mnem ≠ .plp → Saves bus mnem i saved saved

/-- The widths in a status byte. -/
def widths (p : Byte) : Bool × Bool := (p.getLsbD 5, p.getLsbD 4)

/-- What the decoder has to know of a state. -/
def keyOf (bank : Nat) (saved : List Byte) (i : Interp816 M) : DecodeKey :=
  ⟨Recompiler.addr24 bank i.pc.toNat, i.mf, i.xf, saved.map widths⟩

/-- The instruction that the decoder reads where the interpreter reads the bytes of the ROM. -/
structure Fetched (bus : Bus M) (inp : DecodeInput) (i : Interp816 M) (insn : Insn) : Prop where
  read : decodeAt inp.rom inp.bank i.pc.toNat i.mf i.xf = some insn
  fetches : FetchesRom bus inp.rom (loromOffset inp.bank i.pc.toNat) i.pc.toNat insn i

/-- The next instruction, which stays inside the function. -/
structure StepsOver (bus : Bus M) (inp : DecodeInput) (saved : List Byte) (i : Interp816 M)
    (insn : Insn) (saved' : List Byte) : Prop extends Fetched bus inp i insn where
  intra : Intra inp insn
  saves : Saves bus insn.mnem i saved saved'

/-! ### The tables -/

/-- The instructions that do more than to go on behind themselves in the same widths. -/
def turnOp : Mnem → Option Op
  | .bpl => some .bpl
  | .bmi => some .bmi
  | .bvc => some .bvc
  | .bvs => some .bvs
  | .bcc => some .bcc
  | .bcs => some .bcs
  | .bne => some .bne
  | .beq => some .beq
  | .bra => some .bra
  | .brl => some .brl
  | .jmp => some .jmp
  | .rep => some .rep
  | .sep => some .sep
  | .plp => some .plp
  | .mvn => some .mvn
  | .mvp => some .mvp
  | _ => none

/-- The decoder has one edge for the instruction, to the one behind it. -/
def fallsOn : Mnem → Bool
  | .bra | .brl | .jmp | .jsr | .jsl => false
  | mnem => !isTerminator mnem && !isCondBranch mnem

/-- The rows of an opcode in the two tables. -/
theorem rows_mem (opcode : Byte) : (opcodeRow opcode, opOf opcode) ∈ opcodeTable.zip opTable := by
  have hrows : opcodeTable.length = 256 := by decide +kernel
  have hops : opTable.length = 256 := by decide +kernel
  have hlt : opcode.toNat < 256 := opcode.isLt
  rw [opcodeRow, opOf, List.getD_eq_getElem _ _ (by omega), List.getD_eq_getElem _ _ (by omega),
    ← List.getElem_zip (h := by simp [hrows, hops, hlt])]
  exact List.getElem_mem _

theorem turnOp_rows : ∀ r ∈ opcodeTable.zip opTable, ∀ op ∈ turnOp r.1.mnem,
    (r.1.mnem = .jmp → r.1.mode = .abs) → r.2 = op := by decide +kernel

theorem plain_rows : ∀ r ∈ opcodeTable.zip opTable, staysInside r.1.mnem = true →
    turnOp r.1.mnem = none → r.2.plain = true ∧ fallsOn r.1.mnem = true ∧
      ∀ m x, r.1.len.length m x = 1 + r.2.bytes m x := by decide +kernel

/-- Mode and length of the instructions that turn. -/
def turnShape : Mnem → Option (Mode × Nat)
  | .bpl | .bmi | .bvc | .bvs | .bcc | .bcs | .bne | .beq | .bra => some (.rel, 2)
  | .brl => some (.rel16, 3)
  | .rep | .sep => some (.imm, 2)
  | .plp => some (.imp, 1)
  | .mvn | .mvp => some (.imm, 3)
  | _ => none

theorem turnShape_rows : ∀ r ∈ opcodeTable.zip opTable, ∀ t ∈ turnShape r.1.mnem,
    r.1.mode = t.1 ∧ r.1.len = .fixed t.2 := by decide +kernel

theorem jmp_rows : ∀ r ∈ opcodeTable.zip opTable, r.1.mnem = .jmp → r.1.mode = .abs →
    r.1.len = .fixed 3 := by decide +kernel

/-! ### The bytes behind the opcode -/

/-- The three bytes behind an opcode. -/
def rawOperand (rom : Rom) (offset : Nat) : Nat :=
  (rom.byte (offset + 1)).toNat + (rom.byte (offset + 2)).toNat * 2 ^ 8 +
    (rom.byte (offset + 3)).toNat * 2 ^ 16

section Raw

variable {bus : Bus M} {rom : Rom} {offset pc bank : Nat} {m x : Bool} {insn : Insn}
  {i : Interp816 M}

/-- Also where the operand is a target, the interpreter reads the bytes it is computed from. -/
theorem fetches_raw (h : FetchesRom bus rom offset pc insn i)
    (hdec : decodeInsn rom offset pc bank m x = some insn) :
    Fetches bus { insn with operand := rawOperand rom offset } i := by
  have hlen := length_le_of_decodeInsn hdec
  have h1 := (rom.byte (offset + 1)).isLt
  have h2 := (rom.byte (offset + 2)).isLt
  have h3 := (rom.byte (offset + 3)).isLt
  intro n hn
  have hn : n < insn.length := hn
  rw [h.bytes n hn]
  match n, (by omega : n < 4) with
  | 0, _ => exact congrArg (fun b => (b, i.mem)) (operand_of_decodeInsn hdec).1
  | 1, _ | 2, _ | 3, _ =>
    refine congrArg (fun b => (b, i.mem)) (BitVec.eq_of_toNat_eq ?_)
    simp only [insnByte, rawOperand, BitVec.toNat_ofNat, Nat.shiftRight_eq_div_pow]
    omega

theorem insnByte_raw_one (insn : Insn) :
    insnByte { insn with operand := rawOperand rom offset } 1 = rom.byte (offset + 1) := by
  have h1 := (rom.byte (offset + 1)).isLt
  refine BitVec.eq_of_toNat_eq ?_
  simp only [insnByte, rawOperand, BitVec.toNat_ofNat, Nat.shiftRight_eq_div_pow]
  omega

theorem insnByte_raw_two (insn : Insn) :
    insnByte { insn with operand := rawOperand rom offset } 2 = rom.byte (offset + 2) := by
  have h1 := (rom.byte (offset + 1)).isLt
  have h2 := (rom.byte (offset + 2)).isLt
  refine BitVec.eq_of_toNat_eq ?_
  simp only [insnByte, rawOperand, BitVec.toNat_ofNat, Nat.shiftRight_eq_div_pow]
  omega

/-- An 8-bit branch goes as far from its end as its byte says. -/
theorem ofNat_relTarget_byte (pc len : Nat) (raw : Byte) :
    BitVec.ofNat 16 (relTarget pc len raw.toNat 8) =
      BitVec.ofNat 16 pc + BitVec.ofNat 16 len + raw.signExtend 16 := by
  have hraw := raw.isLt
  apply BitVec.eq_of_toNat_eq
  rw [BitVec.toNat_add, BitVec.toNat_add, BitVec.toNat_signExtend, BitVec.msb_eq_decide,
    BitVec.toNat_setWidth]
  simp only [relTarget, BitVec.toNat_ofNat, decide_eq_true_eq]
  split <;> omega

theorem relTarget_lt (pc len raw bits : Nat) : relTarget pc len raw bits < 0x10000 := by
  simp only [relTarget]
  split <;> omega

end Raw

/-! ### One step -/

section Step

variable {bus : Bus M} {inp : DecodeInput} {saved saved' : List Byte} {i : Interp816 M} {insn : Insn}

theorem Fetched.decoded (h : Fetched bus inp i insn) :
    decodeInsn inp.rom (loromOffset inp.bank i.pc.toNat) i.pc.toNat inp.bank i.mf i.xf = some insn := by
  have hread := h.read
  rw [decodeAt] at hread
  split at hread
  · cases hread
  · exact hread

theorem Fetched.row (h : Fetched bus inp i insn) :
    ∃ r ∈ opcodeTable.zip opTable, insn.mnem = r.1.mnem ∧ insn.mode = r.1.mode ∧
      insn.length = r.1.len.length i.mf i.xf ∧ opOf insn.opcode = r.2 := by
  obtain ⟨hmnem, hmode, hlen, -⟩ := row_of_decodeInsn h.decoded
  exact ⟨_, rows_mem insn.opcode, hmnem, hmode, hlen, rfl⟩

/-- The bytes behind the opcode, as the interpreter fetches them. -/
theorem Fetched.raw (h : Fetched bus inp i insn) :
    Fetches bus { insn with operand := rawOperand inp.rom (loromOffset inp.bank i.pc.toNat) } i :=
  fetches_raw h.fetches h.decoded

theorem Fetched.run (h : Fetched bus inp i insn) (hr : Uninterrupted i) :
    runOpcode (bridgeBus bus) i = exec (bridgeBus bus) (opOf insn.opcode) (advance i 1) := by
  have hlen : 0 < insn.length := length_pos_of_decodeInsn h.decoded
  have hrun := runOpcode_of_fetches h.raw hr hlen
  exact hrun

/-- The address behind the instruction. -/
theorem Fetched.next (h : Fetched bus inp i insn) :
    (i.pc + BitVec.ofNat 16 insn.length).toNat = ((insn.addr &&& 0xFFFF) + insn.length) % 0x10000 := by
  have hpc := i.pc.isLt
  have haddr : insn.addr &&& 0xFFFF = i.pc.toNat := by
    rw [addr_of_decodeInsn h.decoded, Bits.and_0xFFFF, Bits.shiftLeft_or_eq_add hpc]
    omega
  rw [haddr, BitVec.toNat_add, BitVec.toNat_ofNat]
  omega

theorem fallsOn_spec {mnem : Mnem} (h : fallsOn mnem = true) :
    ¬ isTerminator mnem = true ∧ ¬ isCondBranch mnem = true ∧ ¬ (mnem = .bra ∨ mnem = .brl) ∧
      ¬ mnem = .jmp ∧ ¬ (mnem = .jsr ∨ mnem = .jsl) := by
  cases mnem <;> first | exact absurd h (by decide) | decide

/-- The edge to the instruction behind. -/
theorem labeledSuccessors_fallsOn {maps : ExitMaps} {rom : Rom} {key : DecodeKey} {bank : Nat}
    (h : fallsOn insn.mnem = true) : labeledSuccessors maps rom insn key bank =
      [(⟨Recompiler.addr24 bank (((insn.addr &&& 0xFFFF) + insn.length) % 0x10000),
        (postState insn key.m key.x key.pStack).1, (postState insn key.m key.x key.pStack).2.1,
        (postState insn key.m key.x key.pStack).2.2⟩, .fall)] := by
  obtain ⟨hterm, hcond, hbra, hjmp, hcall⟩ := fallsOn_spec h
  simp only [labeledSuccessors, if_neg hterm, if_neg hcond, if_neg hbra, if_neg hjmp, if_neg hcall]

theorem postState_of_turnOp {m x : Bool} {pStack : List (Bool × Bool)} (h : turnOp insn.mnem = none)
    (hphp : insn.mnem ≠ .php) : postState insn m x pStack = (m, x, pStack) := by
  unfold postState
  split
  next hm => rw [hm] at h; cases h
  next hm => rw [hm] at h; cases h
  next hm => exact absurd hm hphp
  next hm => rw [hm] at h; cases h
  next => rfl

theorem not_jumps {mnem : Mnem} (h : fallsOn mnem = true) : jumps i mnem = false := by
  cases mnem <;> first | exact absurd h (by decide) | rfl

/-- An edge to the instruction behind is the one that is taken. -/
theorem edge_of_next (h : StepsOver bus inp saved i insn saved') {i' : Interp816 M}
    (hfalls : fallsOn insn.mnem = true) (hpc : i'.pc = i.pc + BitVec.ofNat 16 insn.length)
    (hpost : postState insn i.mf i.xf (saved.map widths) = (i'.mf, i'.xf, saved'.map widths)) :
    (keyOf inp.bank saved' i', kindOf i insn.mnem) ∈
      labeledSuccessors inp.maps inp.rom insn (keyOf inp.bank saved i) inp.bank := by
  rw [labeledSuccessors_fallsOn hfalls, kindOf, not_jumps hfalls, keyOf, keyOf, hpc, h.next, hpost]
  exact List.mem_singleton_self _

/-- What a step keeps apart from the widths. -/
abbrev Runs816 (i : Interp816 M) : Prop := i.e = false ∧ i.stopped = false

theorem step_plain (h : StepsOver bus inp saved i insn saved') (hr : Uninterrupted i)
    (he : i.e = false) (hturn : turnOp insn.mnem = none) :
    (keyOf inp.bank saved' (runOpcode (bridgeBus bus) i), kindOf i insn.mnem) ∈
      labeledSuccessors inp.maps inp.rom insn (keyOf inp.bank saved i) inp.bank ∧
      Runs816 (runOpcode (bridgeBus bus) i) := by
  obtain ⟨r, hr', hmnem, -, hlen, hop⟩ := h.row
  obtain ⟨hplain, hfalls, hbytes⟩ := plain_rows r hr' (hmnem ▸ h.intra.mnem) (hmnem ▸ hturn)
  rw [← hop] at hplain hbytes
  obtain ⟨hm, hx, he', -, hs⟩ := exec_modes (bridgeBus bus) hplain (advance i 1)
  have hpc := exec_pc (bridgeBus bus) hplain (advance i 1)
  rw [h.run hr]
  refine ⟨edge_of_next h (hmnem ▸ hfalls) ?_ ?_, he'.trans he, hs.trans hr.stopped⟩
  · rw [hpc, hlen, hbytes, BitVec.ofNat_add, ← BitVec.add_assoc]
    rfl
  · rw [hm, hx]
    cases h.saves with
    | php hphp hdepth =>
      obtain ⟨hgm, hgx⟩ := getFlags_widths i
      unfold postState
      rw [hphp]
      simp only [List.length_map, hdepth, if_true, List.map_cons, widths, hgm, hgx]
      rfl
    | plp hplp => rw [hplp] at hturn; cases hturn
    | other hphp _ => exact postState_of_turnOp hturn hphp

/-! ### Widths from a byte -/

theorem Fetched.byte (h : Fetched bus inp i insn) (hlen : 1 < insn.length) :
    readOpcode (bridgeBus bus) (advance i 1) =
      (inp.rom.byte (loromOffset inp.bank i.pc.toNat + 1), advance i 2) := by
  have hbyte := readOpcode_advance h.raw (n := 1) hlen
  rw [hbyte, insnByte_raw_one]

theorem Fetched.word (h : Fetched bus inp i insn) (hlen : 2 < insn.length) :
    readOpcodeWord (bridgeBus bus) (advance i 1) =
      (romWord inp.rom (loromOffset inp.bank i.pc.toNat), advance i 3) := by
  have hword := readOpcodeWord_advance h.raw (n := 1) hlen
  rw [hword, insnByte_raw_one, insnByte_raw_two]
  rfl

theorem StepsOver.shape (h : StepsOver bus inp saved i insn saved') {t : Mode × Nat}
    (ht : turnShape insn.mnem = some t) : insn.mode = t.1 ∧ insn.length = t.2 := by
  obtain ⟨r, hr, hmnem, hmode, hlen, -⟩ := h.row
  obtain ⟨hm, hl⟩ := turnShape_rows r hr t (hmnem ▸ ht)
  exact ⟨hmode.trans hm, by rw [hlen, hl]; rfl⟩

theorem StepsOver.op (h : StepsOver bus inp saved i insn saved') {op : Op}
    (hop : turnOp insn.mnem = some op) : opOf insn.opcode = op := by
  obtain ⟨r, hr, hmnem, hmode, -, hr'⟩ := h.row
  rw [hr']
  exact turnOp_rows r hr op (hmnem ▸ hop) fun hj => hmode ▸ h.intra.jmp (hmnem.trans hj)

theorem StepsOver.keeps (h : StepsOver bus inp saved i insn saved') (hphp : insn.mnem ≠ .php)
    (hplp : insn.mnem ≠ .plp) : saved' = saved := by
  cases h.saves with
  | php hm => exact absurd hm hphp
  | plp hm => exact absurd hm hplp
  | other => rfl

/-- The mask of `REP` and `SEP`. -/
theorem StepsOver.mask (h : StepsOver bus inp saved i insn saved') (hmode : insn.mode = .imm)
    (hlen : insn.length = 2) :
    insn.operand = (inp.rom.byte (loromOffset inp.bank i.pc.toNat + 1)).toNat := by
  have hoperand := (operand_of_decodeInsn h.decoded).2
  rw [hmode, hlen] at hoperand
  simp only [decodeOperand, if_true, Option.map_eq_some_iff] at hoperand
  obtain ⟨b, hb, hoperand⟩ := hoperand
  rw [← hoperand, byte_of_get? hb]

theorem testBit_and (n : Nat) : (n &&& 0x20 ≠ 0 ↔ n.testBit 5 = true) ∧
    (n &&& 0x10 ≠ 0 ↔ n.testBit 4 = true) := by
  have h5 : n &&& 0x20 = (n.testBit 5).toNat * 0x20 := Nat.and_two_pow n 5
  have h4 : n &&& 0x10 = (n.testBit 4).toNat * 0x10 := Nat.and_two_pow n 4
  rw [h5, h4]
  cases n.testBit 5 <;> cases n.testBit 4 <;> decide

theorem step_rep (h : StepsOver bus inp saved i insn saved') (hr : Uninterrupted i)
    (he : i.e = false) (hmnem : insn.mnem = .rep ∨ insn.mnem = .sep) :
    (keyOf inp.bank saved' (runOpcode (bridgeBus bus) i), kindOf i insn.mnem) ∈
      labeledSuccessors inp.maps inp.rom insn (keyOf inp.bank saved i) inp.bank ∧
      Runs816 (runOpcode (bridgeBus bus) i) := by
  have hshape : insn.mode = .imm ∧ insn.length = 2 := by
    rcases hmnem with hm | hm <;> exact h.shape (by rw [hm]; rfl)
  have hsaved : saved' = saved := by
    rcases hmnem with hm | hm <;> exact h.keeps (by rw [hm]; decide) (by rw [hm]; decide)
  have hfalls : fallsOn insn.mnem = true := by rcases hmnem with hm | hm <;> rw [hm] <;> rfl
  have hbyte := h.byte (by omega)
  obtain ⟨htm, htx⟩ := testBit_and insn.operand
  have hmask := h.mask hshape.1 hshape.2
  obtain ⟨hgm, hgx⟩ := getFlags_widths (advance i 2)
  generalize hb : inp.rom.byte (loromOffset inp.bank i.pc.toNat + 1) = b at hbyte hmask
  have hbm : b.getLsbD 5 = insn.operand.testBit 5 := by rw [hmask]; rfl
  have hbx : b.getLsbD 4 = insn.operand.testBit 4 := by rw [hmask]; rfl
  rw [h.run hr]
  rcases hmnem with hm | hm
  · have hexec : exec (bridgeBus bus) (opOf insn.opcode) (advance i 1) =
        setFlags (getFlags (advance i 2) &&& ~~~ b) (advance i 2) := by
      rw [h.op (by rw [hm]; rfl), exec, rep, hbyte]
    obtain ⟨hfm, hfx, hfe, -, hfs⟩ := @setFlags_modes _ (advance i 2) he
      (getFlags (advance i 2) &&& ~~~ b)
    rw [hexec]
    refine ⟨edge_of_next h hfalls ?_ ?_, hfe, hfs.trans hr.stopped⟩
    · rw [setFlags_pc, hshape.2]
      rfl
    · unfold postState
      rw [hm, hfm, hfx, hsaved, BitVec.getLsbD_and, BitVec.getLsbD_and, hgm, hgx, BitVec.getLsbD_not,
        BitVec.getLsbD_not, hbm, hbx]
      simp only [htm, htx]
      cases insn.operand.testBit 5 <;> cases insn.operand.testBit 4 <;> simp [advance]
  · have hexec : exec (bridgeBus bus) (opOf insn.opcode) (advance i 1) =
        setFlags (getFlags (advance i 2) ||| b) (advance i 2) := by
      rw [h.op (by rw [hm]; rfl), exec, sep, hbyte]
    obtain ⟨hfm, hfx, hfe, -, hfs⟩ := @setFlags_modes _ (advance i 2) he
      (getFlags (advance i 2) ||| b)
    rw [hexec]
    refine ⟨edge_of_next h hfalls ?_ ?_, hfe, hfs.trans hr.stopped⟩
    · rw [setFlags_pc, hshape.2]
      rfl
    · unfold postState
      rw [hm, hfm, hfx, hsaved, BitVec.getLsbD_or, BitVec.getLsbD_or, hgm, hgx, hbm, hbx]
      simp only [htm, htx]
      cases insn.operand.testBit 5 <;> cases insn.operand.testBit 4 <;> simp [advance]

theorem step_plp (h : StepsOver bus inp saved i insn saved') (hr : Uninterrupted i)
    (he : i.e = false) (hm : insn.mnem = .plp) :
    (keyOf inp.bank saved' (runOpcode (bridgeBus bus) i), kindOf i insn.mnem) ∈
      labeledSuccessors inp.maps inp.rom insn (keyOf inp.bank saved i) inp.bank ∧
      Runs816 (runOpcode (bridgeBus bus) i) := by
  have hlen : insn.length = 1 := (h.shape (by rw [hm]; rfl)).2
  have hexec : exec (bridgeBus bus) (opOf insn.opcode) (advance i 1) =
      setFlags (pullByte (bridgeBus bus) i).1 (pullByte (bridgeBus bus) (advance i 1)).2 := by
    rw [h.op (by rw [hm]; rfl), exec, plp]
    rfl
  obtain ⟨hfm, hfx, hfe, -, hfs⟩ := @setFlags_modes _
    (pullByte (bridgeBus bus) (advance i 1)).2 he (pullByte (bridgeBus bus) i).1
  rw [h.run hr, hexec]
  refine ⟨edge_of_next h (by rw [hm]; rfl) ?_ ?_, hfe, hfs.trans hr.stopped⟩
  · rw [setFlags_pc, pullByte_pc, hlen]
    rfl
  · unfold postState
    rw [hm, hfm, hfx]
    cases h.saves with
    | php hphp => rw [hm] at hphp; cases hphp
    | plp _ => rfl
    | other _ hplp => exact absurd hm hplp

/-! ### Branches and jumps -/

/-- The operation of a relative branch takes it where the run jumps. -/
theorem exec_branch {op : Op} {mnem : Mnem} (hmnem : isCondBranch mnem = true ∨ mnem = .bra)
    (hop : turnOp mnem = some op) (cpu : Interp816 M) :
    exec (bridgeBus bus) op cpu = branch (bridgeBus bus) (jumps cpu mnem) cpu := by
  cases mnem <;> first
    | (rcases hmnem with hm | hm <;> cases hm <;> done)
    | (cases hop; rfl)

theorem doBranch_eq (value : Byte) (check : Bool) (cpu : Interp816 M) :
    doBranch value check cpu =
      { cpu with pc := if check then cpu.pc + value.signExtend 16 else cpu.pc } := by
  cases check <;> rfl

theorem postState_of_jump {m x : Bool} {pStack : List (Bool × Bool)} {mnem : Mnem}
    (hmnem : insn.mnem = mnem) (h : isCondBranch mnem = true ∨ mnem = .bra ∨ mnem = .brl ∨ mnem = .jmp) :
    postState insn m x pStack = (m, x, pStack) := by
  unfold postState
  rw [hmnem]
  cases mnem <;> first | exact absurd h (by decide) | rfl

/-- The edges of a conditional branch. -/
theorem labeledSuccessors_cond {maps : ExitMaps} {rom : Rom} {key : DecodeKey} {bank : Nat}
    (h : isCondBranch insn.mnem = true) : labeledSuccessors maps rom insn key bank =
      [(⟨Recompiler.addr24 bank (((insn.addr &&& 0xFFFF) + insn.length) % 0x10000), key.m, key.x,
        key.pStack⟩, .fall), (⟨Recompiler.addr24 bank insn.operand, key.m, key.x, key.pStack⟩, .jump)] := by
  have hterm : ¬ isTerminator insn.mnem = true := by
    cases hmnem : insn.mnem <;> rw [hmnem] at h <;> first | exact absurd h (by decide) | decide
  have hbra : ¬ (insn.mnem = .bra ∨ insn.mnem = .brl) := by
    rintro (hm | hm) <;> rw [hm] at h <;> cases h
  simp only [labeledSuccessors, if_neg hterm, if_neg hbra, if_pos h, postState_of_jump rfl (Or.inl h)]

/-- The edge of a jump. -/
theorem labeledSuccessors_jump {maps : ExitMaps} {rom : Rom} {key : DecodeKey} {bank : Nat}
    (h : insn.mnem = .bra ∨ insn.mnem = .brl ∨ insn.mnem = .jmp ∧ insn.mode = .abs) :
    labeledSuccessors maps rom insn key bank =
      [(⟨Recompiler.addr24 bank insn.operand, key.m, key.x, key.pStack⟩, .jump)] := by
  have hpost : postState insn key.m key.x key.pStack = (key.m, key.x, key.pStack) :=
    postState_of_jump rfl (.inr (h.imp_right (Or.imp_right And.left)))
  rcases h with hm | hm | ⟨hm, hmode⟩
  · simp [labeledSuccessors, hpost, hm, isTerminator]
  · simp [labeledSuccessors, hpost, hm, isTerminator]
  · simp [labeledSuccessors, hpost, hm, hmode, isTerminator, isCondBranch]

/-- A relative branch, conditional or not. -/
theorem step_branch (h : StepsOver bus inp saved i insn saved') (hr : Uninterrupted i)
    (he : i.e = false) (hm : isCondBranch insn.mnem = true ∨ insn.mnem = .bra) :
    (keyOf inp.bank saved' (runOpcode (bridgeBus bus) i), kindOf i insn.mnem) ∈
      labeledSuccessors inp.maps inp.rom insn (keyOf inp.bank saved i) inp.bank ∧
      Runs816 (runOpcode (bridgeBus bus) i) := by
  obtain ⟨op, hop, hshape⟩ : ∃ op, turnOp insn.mnem = some op ∧
      turnShape insn.mnem = some (.rel, 2) := by
    cases hmnem : insn.mnem <;> rw [hmnem] at hm <;> first | exact absurd hm (by decide) | exact ⟨_, rfl, rfl⟩
  obtain ⟨hmode, hlen⟩ := h.shape hshape
  have hsaved : saved' = saved := h.keeps (fun hp => by rw [hp] at hm; exact absurd hm (by decide))
    fun hp => by rw [hp] at hm; exact absurd hm (by decide)
  have hoperand : insn.operand =
      relTarget i.pc.toNat 2 (inp.rom.byte (loromOffset inp.bank i.pc.toNat + 1)).toNat 8 := by
    have hoperand := (operand_of_decodeInsn h.decoded).2
    rw [hmode] at hoperand
    simp only [decodeOperand, Option.map_eq_some_iff, Option.bind_eq_bind, Option.bind_eq_some_iff,
      Option.pure_def, Option.some.injEq] at hoperand
    obtain ⟨_, ⟨b, hb, rfl⟩, hoperand⟩ := hoperand
    rw [← hoperand, byte_of_get? hb]
  have hbyte := h.byte (by omega)
  have htarget := ofNat_relTarget_byte i.pc.toNat 2
    (inp.rom.byte (loromOffset inp.bank i.pc.toNat + 1))
  rw [← hoperand, BitVec.ofNat_toNat, BitVec.setWidth_eq] at htarget
  have hlt : insn.operand < 2 ^ 16 := by rw [hoperand]; exact relTarget_lt _ _ _ _
  rw [h.run hr, h.op hop, exec_branch hm hop, branch, hbyte, doBranch_eq]
  refine ⟨?_, he, hr.stopped⟩
  have hjumps : jumps (advance i 1) insn.mnem = jumps i insn.mnem := by cases insn.mnem <;> rfl
  rw [hjumps, hsaved, kindOf]
  cases hj : jumps i insn.mnem with
  | true =>
    have hpc : (i.pc + BitVec.ofNat 16 2 +
        (inp.rom.byte (loromOffset inp.bank i.pc.toNat + 1)).signExtend 16).toNat = insn.operand := by
      rw [← htarget, BitVec.toNat_ofNat, Nat.mod_eq_of_lt hlt]
    show ((⟨Recompiler.addr24 inp.bank (i.pc + BitVec.ofNat 16 2 + (inp.rom.byte
      (loromOffset inp.bank i.pc.toNat + 1)).signExtend 16).toNat, i.mf, i.xf, saved.map widths⟩ :
      DecodeKey), EdgeKind.jump) ∈ _
    rw [hpc]
    rcases hm with hm | hm
    · rw [labeledSuccessors_cond hm]
      exact List.mem_cons_of_mem _ List.mem_cons_self
    · rw [labeledSuccessors_jump (.inl hm)]
      exact List.mem_cons_self
  | false =>
    have hcond : isCondBranch insn.mnem = true := hm.resolve_right fun hm => by
      rw [hm] at hj
      cases hj
    rw [labeledSuccessors_cond hcond, ← h.next, hlen]
    exact List.mem_cons_self

/-- `BRL` and `JMP`. -/
theorem step_jump (h : StepsOver bus inp saved i insn saved') (hr : Uninterrupted i)
    (he : i.e = false) (hm : insn.mnem = .brl ∨ insn.mnem = .jmp) :
    (keyOf inp.bank saved' (runOpcode (bridgeBus bus) i), kindOf i insn.mnem) ∈
      labeledSuccessors inp.maps inp.rom insn (keyOf inp.bank saved i) inp.bank ∧
      Runs816 (runOpcode (bridgeBus bus) i) := by
  have hsaved : saved' = saved := by
    rcases hm with hm | hm <;> exact h.keeps (by rw [hm]; decide) (by rw [hm]; decide)
  have hkind : kindOf i insn.mnem = .jump := by rcases hm with hm | hm <;> rw [hm] <;> rfl
  have hoperand := (operand_of_decodeInsn h.decoded).2
  have hedge : labeledSuccessors inp.maps inp.rom insn (keyOf inp.bank saved i) inp.bank =
      [(⟨Recompiler.addr24 inp.bank insn.operand, i.mf, i.xf, saved.map widths⟩, .jump)] :=
    labeledSuccessors_jump (.inr (hm.imp_right fun hm => ⟨hm, h.intra.jmp hm⟩))
  rw [h.run hr, hedge, hsaved, hkind, List.mem_singleton]
  rcases hm with hm | hm
  · obtain ⟨hmode, hlen⟩ := h.shape (show turnShape insn.mnem = some (.rel16, 3) by rw [hm]; rfl)
    rw [hmode] at hoperand
    have htarget := decodeOperand_rel16 hoperand
    have hpc := ofNat_relTarget i.pc.toNat 3 (romWord inp.rom (loromOffset inp.bank i.pc.toNat))
    have hlt : insn.operand < 2 ^ 16 := by rw [htarget]; exact relTarget_lt _ _ _ _
    rw [← htarget, BitVec.ofNat_toNat, BitVec.setWidth_eq] at hpc
    have hexec : exec (bridgeBus bus) (opOf insn.opcode) (advance i 1) =
        { i with pc := i.pc + BitVec.ofNat 16 3 + romWord inp.rom (loromOffset inp.bank i.pc.toNat) } := by
      rw [h.op (by rw [hm]; rfl), exec, brl, h.word (by omega)]
      rfl
    rw [hexec]
    refine ⟨?_, he, hr.stopped⟩
    rw [keyOf, ← hpc, BitVec.toNat_ofNat, Nat.mod_eq_of_lt hlt]
  · have hmode := h.intra.jmp hm
    rw [hmode] at hoperand
    have htarget := decodeOperand_abs hoperand
    have hlen : insn.length = 3 := by
      obtain ⟨r, hr', hmnem, hmode', hlen, -⟩ := h.row
      rw [hlen, jmp_rows r hr' (hmnem ▸ hm) (hmode' ▸ hmode)]
      rfl
    have hexec : exec (bridgeBus bus) (opOf insn.opcode) (advance i 1) =
        { i with pc := romWord inp.rom (loromOffset inp.bank i.pc.toNat) } := by
      rw [h.op (by rw [hm]; rfl), exec, jmp, h.word (by omega)]
      rfl
    rw [hexec]
    refine ⟨?_, he, hr.stopped⟩
    rw [keyOf, htarget]

/-! ### Block moves -/

/-- A block move is past its operand when `A` wraps, and else where it was. -/
theorem blockMove_spec (bus : ByteBus M) (delta : Word) (cpu : Interp816 M) :
    SameModes (blockMove bus delta cpu) cpu ∧ (blockMove bus delta cpu).z = cpu.z ∧
      ((blockMove bus delta cpu).pc = cpu.pc + 2 ∨ (blockMove bus delta cpu).pc = cpu.pc + 2 - 3) := by
  have hz : ∀ c : Interp816 M, (clearIndexHigh c).z = c.z := fun c => by
    rw [clearIndexHigh]
    split <;> rfl
  have hpc : ∀ c : Interp816 M, (clearIndexHigh c).pc = c.pc := fun c => by
    rw [clearIndexHigh]
    split <;> rfl
  have htwo : cpu.pc + 1 + 1 = cpu.pc + 2 := BitVec.add_assoc cpu.pc 1 1
  refine ⟨?_, ?_, ?_⟩
  · simp only [blockMove, SameModes, clearIndexHigh_modes]
    split <;> exact ⟨rfl, rfl, rfl, rfl, rfl⟩
  · simp only [blockMove, hz]
    split <;> rfl
  · simp only [blockMove, hpc]
    split
    · exact .inl htwo
    · exact .inr (congrArg (· - 3) htwo)

/-- A block move that is not done. -/
structure RepeatsItself (inp : DecodeInput) (saved : List Byte) (i : Interp816 M) (insn : Insn)
    (saved' : List Byte) (i' : Interp816 M) : Prop where
  mnem : insn.mnem = .mvn ∨ insn.mnem = .mvp
  key : keyOf inp.bank saved' i' = keyOf inp.bank saved i
  z : i'.z = i.z

/-- A block move goes on behind itself or repeats itself. -/
theorem step_move (h : StepsOver bus inp saved i insn saved') (hr : Uninterrupted i)
    (he : i.e = false) (hm : insn.mnem = .mvn ∨ insn.mnem = .mvp) :
    ((keyOf inp.bank saved' (runOpcode (bridgeBus bus) i), kindOf i insn.mnem) ∈
      labeledSuccessors inp.maps inp.rom insn (keyOf inp.bank saved i) inp.bank ∨
      RepeatsItself inp saved i insn saved' (runOpcode (bridgeBus bus) i)) ∧
      Runs816 (runOpcode (bridgeBus bus) i) := by
  have hsaved : saved' = saved := by
    rcases hm with hm | hm <;> exact h.keeps (by rw [hm]; decide) (by rw [hm]; decide)
  have hlen : insn.length = 3 := by
    rcases hm with hm | hm <;> exact (h.shape (show turnShape insn.mnem = some (.imm, 3) by rw [hm]; rfl)).2
  obtain ⟨delta, hexec⟩ : ∃ delta, exec (bridgeBus bus) (opOf insn.opcode) (advance i 1) =
      blockMove (bridgeBus bus) delta (advance i 1) := by
    rcases hm with hm | hm <;> exact ⟨_, by rw [h.op (by rw [hm]; rfl), exec]⟩
  obtain ⟨⟨hfm, hfx, hfe, -, hfs⟩, hz, hpc⟩ := blockMove_spec (bridgeBus bus) delta (advance i 1)
  have hpost : postState insn i.mf i.xf (saved.map widths) = (i.mf, i.xf, saved.map widths) := by
    unfold postState
    rcases hm with hm | hm <;> rw [hm]
  have hone : (advance i 1).pc + 2 = i.pc + BitVec.ofNat 16 3 := BitVec.add_assoc i.pc 1 2
  rw [h.run hr, hexec]
  refine ⟨?_, hfe.trans he, hfs.trans hr.stopped⟩
  rcases hpc with hpc | hpc
  · refine .inl (edge_of_next h (by rcases hm with hm | hm <;> rw [hm] <;> rfl) ?_ ?_)
    · rw [hpc, hone, hlen]
    · rw [hpost, hfm, hfx, hsaved]
      rfl
  · refine .inr ⟨hm, ?_, hz⟩
    have hback : i.pc + BitVec.ofNat 16 3 - 3 = i.pc := BitVec.add_sub_cancel i.pc 3
    rw [keyOf, keyOf, hpc, hone, hback, hfm, hfx, hsaved]
    rfl

/-! ### Every instruction -/

/-- **A step goes along an edge of the decoder, in the widths of that edge, or a block move repeats
itself.** -/
theorem edge_of_step (h : StepsOver bus inp saved i insn saved') (hr : Uninterrupted i)
    (he : i.e = false) :
    ((keyOf inp.bank saved' (runOpcode (bridgeBus bus) i), kindOf i insn.mnem) ∈
      labeledSuccessors inp.maps inp.rom insn (keyOf inp.bank saved i) inp.bank ∨
      RepeatsItself inp saved i insn saved' (runOpcode (bridgeBus bus) i)) ∧
      Runs816 (runOpcode (bridgeBus bus) i) := by
  cases hturn : turnOp insn.mnem with
  | none => exact (step_plain h hr he hturn).imp_left Or.inl
  | some op =>
    have hcases : (insn.mnem = .rep ∨ insn.mnem = .sep) ∨ insn.mnem = .plp ∨
        (isCondBranch insn.mnem = true ∨ insn.mnem = .bra) ∨
        (insn.mnem = .brl ∨ insn.mnem = .jmp) ∨ (insn.mnem = .mvn ∨ insn.mnem = .mvp) := by
      cases hmnem : insn.mnem <;> rw [hmnem] at hturn <;> first | cases hturn; done | decide
    rcases hcases with hm | hm | hm | hm | hm
    · exact (step_rep h hr he hm).imp_left Or.inl
    · exact (step_plp h hr he hm).imp_left Or.inl
    · exact (step_branch h hr he hm).imp_left Or.inl
    · exact (step_jump h hr he hm).imp_left Or.inl
    · exact step_move h hr he hm

/-! ### Immediate loads -/

/-- Whether the value behind the opcode is zero, in the width of the operand. -/
def zeroImm (rom : Rom) (offset : Nat) (byte : Bool) : Bool :=
  if byte then rom.byte (offset + 1) == 0 else romWord rom offset == 0

/-- The operations of the loads that the fold looks at, and the flag their operand is sized by. -/
def loadImm : Mnem → Option (MemOp × Bool)
  | .lda => some (.lda, false)
  | .ldx => some (.ldx, true)
  | .ldy => some (.ldy, true)
  | _ => none

theorem loadImm_rows : ∀ r ∈ opcodeTable.zip opTable, ∀ t ∈ loadImm r.1.mnem, r.1.mode = .imm →
    r.2 = .mem t.1 (.imm t.2) ∧ ∀ m x, r.1.len.length m x = if (if t.2 then x else m) then 2 else 3 := by
  decide +kernel

/-- The decoder's view of the operand. -/
theorem StepsOver.zero_operand (h : StepsOver bus inp saved i insn saved') (hmode : insn.mode = .imm)
    {byte : Bool} (hlen : insn.length = if byte then 2 else 3) :
    decide (insn.operand &&& (if byte then 0xFF else 0xFFFF) = 0) =
      zeroImm inp.rom (loromOffset inp.bank i.pc.toNat) byte := by
  cases byte with
  | true =>
    have hlt := (inp.rom.byte (loromOffset inp.bank i.pc.toNat + 1)).isLt
    rw [h.mask hmode hlen, zeroImm, if_pos rfl, if_pos rfl, Bits.and_0xFF, Nat.mod_eq_of_lt hlt,
      Bool.eq_iff_iff, decide_eq_true_eq, beq_iff_eq, ← BitVec.toNat_inj]
    rfl
  | false =>
    have hoperand := (operand_of_decodeInsn h.decoded).2
    rw [hmode, hlen] at hoperand
    have habs : decodeOperand inp.rom (loromOffset inp.bank i.pc.toNat) i.pc.toNat .abs 3 =
        some insn.operand := hoperand
    have hlt := (romWord inp.rom (loromOffset inp.bank i.pc.toNat)).isLt
    rw [decodeOperand_abs habs, zeroImm, if_neg (by decide), if_neg (by decide), Bits.and_0xFFFF,
      Nat.mod_eq_of_lt hlt, Bool.eq_iff_iff, decide_eq_true_eq, beq_iff_eq, ← BitVec.toNat_inj]
    rfl

/-- The interpreter's view of the operand. -/
theorem StepsOver.load (h : StepsOver bus inp saved i insn saved') {xFlag byte : Bool}
    (hbyte : (if xFlag then i.xf else i.mf) = byte) (hlen : insn.length = if byte then 2 else 3) :
    let o := adrImm xFlag (advance i 1)
    if byte then
      Interp816.read (bridgeBus bus) o.1.low o.2 =
        (inp.rom.byte (loromOffset inp.bank i.pc.toNat + 1), advance i 2)
    else
      readWord (bridgeBus bus) o.1.low o.1.high o.2 =
        (romWord inp.rom (loromOffset inp.bank i.pc.toNat), advance i 3) := by
  have hcond : ((xFlag && (advance i 1).xf) || (!xFlag && (advance i 1).mf)) = byte := by
    rw [← hbyte]
    cases xFlag <;> simp [advance]
  dsimp only
  rw [adrImm, hcond]
  cases byte with
  | true =>
    have hlen : insn.length = 2 := hlen
    exact h.byte (by omega)
  | false =>
    have hlen : insn.length = 3 := hlen
    exact h.word (by omega)

theorem setZN_z (value : Word) (byte : Bool) (cpu : Interp816 M) :
    (setZN value byte cpu).z = if byte then loByte value == 0 else value == 0 := by
  cases byte with
  | true => exact and_0xFF_beq_zero value
  | false => rfl

theorem exec_load_z (h : StepsOver bus inp saved i insn saved') {op : MemOp} {xFlag byte : Bool}
    (hload : loadImm insn.mnem = some (op, xFlag)) (hbyte : (if xFlag then i.xf else i.mf) = byte)
    (hlen : insn.length = if byte then 2 else 3) :
    (exec (bridgeBus bus) (.mem op (.imm xFlag)) (advance i 1)).z =
      zeroImm inp.rom (loromOffset inp.bank i.pc.toNat) byte := by
  have hread := h.load hbyte hlen
  have hflags := adr_modes (bridgeBus bus) (.imm xFlag) (advance i 1)
  rw [show adr (bridgeBus bus) (.imm xFlag) (advance i 1) = adrImm xFlag (advance i 1) from rfl] at hflags
  obtain ⟨hm, hx, -⟩ := hflags
  rw [show (advance i 1).mf = i.mf from rfl] at hm
  rw [show (advance i 1).xf = i.xf from rfl] at hx
  dsimp only at hread
  cases hmnem : insn.mnem <;> rw [hmnem] at hload <;> cases hload
  case lda =>
    have hbyte : i.mf = byte := hbyte
    rw [exec, adr, memOp, lda, hm, hbyte, setZN_z]
    cases byte with
    | true =>
      rw [if_pos rfl] at hread
      simp only [hread, if_true, zeroImm, loByte_withLow]
      rw [show (advance i 2).mf = true from hbyte, if_pos rfl]
    | false =>
      rw [if_neg (by decide)] at hread
      simp only [hread, Bool.false_eq_true, if_false, zeroImm]
      rw [show (advance i 3).mf = false from hbyte, if_neg (by decide)]
  all_goals
    have hbyte : i.xf = byte := hbyte
    cases byte with
    | true =>
      rw [if_pos rfl] at hread
      simp only [exec, adr, memOp, ldx, ldy, readIndex, hx, hbyte, if_true, hread, setZN_z, zeroImm]
      rw [show (advance i 2).xf = true from hbyte, if_pos rfl, loByte_setWidth]
    | false =>
      rw [if_neg (by decide)] at hread
      simp only [exec, adr, memOp, ldx, ldy, readIndex, hx, hbyte, Bool.false_eq_true, if_false,
        hread, setZN_z, zeroImm]
      rw [show (advance i 3).xf = false from hbyte, if_neg (by decide)]

/-- The flag that an immediate load leaves is the one the decoder folds branches by. -/
theorem z_of_load (h : StepsOver bus inp saved i insn saved') (hr : Uninterrupted i) {z : Bool}
    (hz : immediateLoadZ insn = some z) : (runOpcode (bridgeBus bus) i).z = z := by
  obtain ⟨-, -, -, hmf, hxf⟩ := row_of_decodeInsn h.decoded
  obtain ⟨r, hrow, hmnem, hmode, hlen, hop⟩ := h.row
  rw [immediateLoadZ] at hz
  split at hz
  next himm =>
    have hload : ∀ op xFlag, loadImm insn.mnem = some (op, xFlag) →
        (runOpcode (bridgeBus bus) i).z =
          decide (insn.operand &&& (if (if xFlag then i.xf else i.mf) then 0xFF else 0xFFFF) = 0) := by
      intro op xFlag hop'
      obtain ⟨hr2, hlen'⟩ := loadImm_rows r hrow (op, xFlag) (hmnem ▸ hop') (hmode ▸ himm)
      have hlength := hlen.trans (hlen' i.mf i.xf)
      rw [h.run hr, hop, hr2, exec_load_z h hop' rfl hlength, h.zero_operand himm hlength]
    split at hz
    next hm => rw [hload .lda false (by rw [hm]; rfl), ← Option.some.inj hz, hmf]; rfl
    next hm => rw [hload .ldx true (by rw [hm]; rfl), ← Option.some.inj hz, hxf]; rfl
    next hm => rw [hload .ldy true (by rw [hm]; rfl), ← Option.some.inj hz, hxf]; rfl
    next => cases hz
  next => cases hz

end Step

end SnesRecomp.Tiers
