import SnesRecomp.Interp.Registers
import SnesRecomp.Recompiler.PointerTables
import SnesRecomp.Tiers.DataMovement
import SnesRecomp.Tiers.ScannedCode

/-!
# Jumps through a pointer that was stored from tables

What the processor does in a function whose `JMP ($dp)` or `JML [$dp]` was given tables by
`_autorecover_indirect_dp`.  `Builds` is a run along the walk.  A pair of a load and a store matters
only where it wins: `wins` goes through the walk from its end and says which.  On the run the bytes
of the pointer are those of the tables at the index the register has at the jump
(`built_of_builds`), so that the jump goes to the entry of that index.
-/

namespace SnesRecomp.Tiers

open Recompiler Interp816

variable {M : Type}

/-- What was recovered for a jump, and the index its register has there. -/
structure Pointer where
  rom : Rom
  bank : Nat
  dp : Nat
  bases : List Nat
  reg : IndexReg
  index : Nat

namespace Pointer

variable (p : Pointer)

/-- One table of words, not tables of bytes. -/
def wide : Bool := p.bases.length = 1

/-- The byte of a table at the index. -/
def table (base k : Nat) : Byte := BitVec.ofNat 8 (tableByte p.rom p.bank base (p.index + k))

/-- A register holds the entry of a table. -/
def Loaded (base : Nat) (a : Word) : Prop :=
  loByte a = p.table base 0 ∧ (p.wide = true → hiByte a = p.table base 1)

/-- A byte of the pointer. -/
def cell (bus : Bus M) (k : Nat) (m : M) : Byte := (bus.read8 0 (BitVec.ofNat 16 (p.dp + k)) m).1

/-- The pointer holds the entry of a table in its bytes from `k` on. -/
def Stored (bus : Bus M) (base k : Nat) (m : M) : Prop :=
  p.cell bus k m = p.table base 0 ∧ (p.wide = true → p.cell bus (k + 1) m = p.table base 1)

end Pointer

/-- The bytes of the pointer are memory, and the one behind them is another byte. -/
structure PointerRam (bus : Bus M) (p : Pointer) : Prop where
  pure : ∀ k < 3, ∀ m, (bus.read8 0 (BitVec.ofNat 16 (p.dp + k)) m).2 = m
  stored : ∀ k < 3, ∀ v m, p.cell bus k (bus.write8 0 (BitVec.ofNat 16 (p.dp + k)) v m) = v
  apart : ∀ j < 3, ∀ k < 4, j ≠ k → ∀ v m,
    p.cell bus j (bus.write8 0 (BitVec.ofNat 16 (p.dp + k)) v m) = p.cell bus j m

/-- The address a table load reads. -/
def tableAddr (ins : Insn) (i : Interp816 M) : Byte × Word :=
  let bank := if ins.mode = .longX then BitVec.ofNat 8 (ins.operand >>> 16) else i.db
  let index := if ins.mode = .absY then i.y else i.x
  (bank + carryOut (BitVec.ofNat 16 ins.operand) index, BitVec.ofNat 16 ins.operand + index)

/-! ### The pairs that win -/

/-- What of the walk's state gets to its end. -/
structure Wins where
  /-- The slot that the last load is going to be stored to. -/
  last : Option (Fin 3)
  /-- The slots whose pair stays. -/
  cell : Fin 3 → Bool

/-- In front of an instruction, from behind it. -/
def Wins.before (w : Wins) (dp : Nat) (sc : PointerScan) (ins : Insn) : Wins :=
  match tableLoad ins, pairedAt dp sc ins with
  | some _, _ => { w with last := none }
  | none, some q => ⟨if w.cell q.1 then some q.1 else none, Function.update w.cell q.1 false⟩
  | none, none => w

/-- At the end the slots with a base have won. -/
def Pointer.winners (p : Pointer) : Wins := ⟨none, fun s => decide (s.val < p.bases.length)⟩

/-- For a walk with `room` instructions left. -/
def Pointer.wins (p : Pointer) (site : Nat) : Nat → PointerScan → Wins
  | 0, _ => p.winners
  | room + 1, sc =>
    if sc.pc < site then
      match decodeAt p.rom p.bank sc.pc sc.m sc.x with
      | none => p.winners
      | some ins => (Pointer.wins p site room (sc.next p.dp ins)).before p.dp sc ins
    else p.winners

theorem Pointer.wins_step {p : Pointer} {site room : Nat} {sc : PointerScan} {ins : Insn}
    (hpc : sc.pc < site) (hread : decodeAt p.rom p.bank sc.pc sc.m sc.x = some ins) :
    p.wins site (room + 1) sc = (p.wins site room (sc.next p.dp ins)).before p.dp sc ins := by
  rw [Pointer.wins, if_pos hpc, hread]

theorem Pointer.wins_site {p : Pointer} {site room : Nat} {sc : PointerScan} (hpc : sc.pc = site) :
    p.wins site room sc = p.winners := by
  cases room with
  | zero => rfl
  | succ room => rw [Pointer.wins, if_neg (by omega)]

/-- The loads behind what wins are those of the recovered tables. -/
structure Recovered (p : Pointer) (w : Wins) (sc : PointerScan) : Prop where
  last : ∀ s, w.last = some s → ∃ b, p.bases[s.val]? = some b ∧ sc.last = some (b, p.reg)
  cells : ∀ s, w.cell s = true → ∃ b, p.bases[s.val]? = some b ∧ sc.winner s = some (b, p.reg)

theorem Recovered.before {p : Pointer} {w : Wins} {sc : PointerScan} {ins : Insn}
    (h : Recovered p w (sc.next p.dp ins)) : Recovered p (w.before p.dp sc ins) sc := by
  cases hload : tableLoad ins with
  | some load =>
    have hbefore : w.before p.dp sc ins = { w with last := none } := by
      simp only [Wins.before, hload]
    have hwinner : (sc.next p.dp ins).winner = sc.winner := by
      simp only [PointerScan.next, PointerScan.pair, hload]
    rw [hbefore]
    exact ⟨fun s hs => (by cases hs), fun s hs => hwinner ▸ h.cells s hs⟩
  | none =>
    cases hpair : pairedAt p.dp sc ins with
    | none =>
      have hbefore : w.before p.dp sc ins = w := by
        simp only [Wins.before, hload, hpair]
      rw [hbefore]
      refine ⟨fun s hs => ?_, fun s hs => ?_⟩
      · obtain ⟨b, hb, hlast⟩ := h.last s hs
        exact ⟨b, hb, last_of_pair hload hlast⟩
      · obtain ⟨b, hb, hwinner⟩ := h.cells s hs
        exact ⟨b, hb, winner_of_pair hpair hwinner⟩
    | some q =>
      obtain ⟨slot, load⟩ := q
      obtain ⟨-, -, hlast, -, hnext⟩ := pair_of_pairedAt hpair
      have hbefore : w.before p.dp sc ins =
          ⟨if w.cell slot then some slot else none, Function.update w.cell slot false⟩ := by
        simp only [Wins.before, hload, hpair]
      have hwinner : (sc.next p.dp ins).winner = Function.update sc.winner slot (some load) := by
        simp only [PointerScan.next, hnext]
      rw [hbefore]
      refine ⟨fun s hs => ?_, fun s hs => ?_⟩
      · dsimp only at hs
        split at hs
        next hcell =>
          obtain rfl := Option.some.inj hs
          obtain ⟨b, hb, hw⟩ := h.cells slot hcell
          rw [hwinner, Function.update_self] at hw
          exact ⟨b, hb, hlast.trans hw⟩
        next => cases hs
      · dsimp only at hs
        by_cases hslot : s = slot
        · subst hslot
          rw [Function.update_self] at hs
          cases hs
        · rw [Function.update_of_ne hslot] at hs
          obtain ⟨b, hb, hw⟩ := h.cells s hs
          rw [hwinner, Function.update_of_ne hslot] at hw
          exact ⟨b, hb, hw⟩

/-- What wins at the end are the tables that were recovered. -/
theorem recovered_winners {p : Pointer} {fin : PointerScan} (h : fin.tables = some (p.bases, p.reg)) :
    Recovered p p.winners fin := by
  refine ⟨fun s hs => (by cases hs), fun s hs => ?_⟩
  have hlt : s.val < p.bases.length := of_decide_eq_true (p := s.val < p.bases.length) hs
  have hb := List.getElem?_eq_getElem hlt
  exact ⟨_, hb, winner_of_tables h hb⟩

theorem recovered_of_pointerLoop {p : Pointer} {site : Nat} {fin : PointerScan}
    (htables : fin.tables = some (p.bases, p.reg)) : ∀ {room : Nat} {sc : PointerScan},
    pointerLoop p.rom p.bank site p.dp room sc = some fin → Recovered p (p.wins site room sc) sc := by
  intro room
  induction room with
  | zero =>
    intro sc h
    obtain rfl := Option.some.inj h
    exact recovered_winners htables
  | succ room ih =>
    intro sc h
    by_cases hpc : sc.pc < site
    · cases hread : decodeAt p.rom p.bank sc.pc sc.m sc.x with
      | none =>
        rw [pointerLoop, if_pos hpc, hread] at h
        cases h
      | some ins =>
        rw [Pointer.wins_step hpc hread]
        exact (ih (pointerLoop_next h hpc hread)).before
    · rw [pointerLoop, if_neg hpc] at h
      obtain rfl := Option.some.inj h
      rw [Pointer.wins, if_neg hpc]
      exact recovered_winners htables

/-! ### The run -/

/-- What has to hold where an instruction runs; `w` is what wins behind it, and `j` is the state at the
next instruction of the walk. -/
@[mk_iff]
structure PointerStep (bus : Bus M) (p : Pointer) (w : Wins) (sc : PointerScan) (ins : Insn)
    (i j : Interp816 M) : Prop where
  /-- A load that wins reads its table at the index of the jump. -/
  load : ∀ l ∈ tableLoad ins, w.last ≠ none → (p.wide = true → i.mf = false) ∧
    bus.read8 (tableAddr ins i).1 (tableAddr ins i).2 i.mem = (p.table l.1 0, i.mem) ∧
    (p.wide = true → bus.read8 (nextAddr (tableAddr ins i).1 (tableAddr ins i).2).1
      (nextAddr (tableAddr ins i).1 (tableAddr ins i).2).2 i.mem = (p.table l.1 1, i.mem))
  /-- It is stored where the jump looks. -/
  store : ∀ q ∈ pairedAt p.dp sc ins, w.cell q.1 = true → (p.wide = true → i.mf = false) ∧ i.dp = 0
  /-- Between the two `A` stays. -/
  keepsA : tableLoad ins = none → w.last ≠ none →
    loByte j.a = loByte i.a ∧ (p.wide = true → hiByte j.a = hiByte i.a)
  /-- Nothing else writes to a byte of the pointer that has won. -/
  keepsCells : ∀ s : Fin 3, (pairedAt p.dp sc ins).map (·.1) ≠ some s → w.cell s = true →
    p.cell bus s j.mem = p.cell bus s i.mem ∧
      (p.wide = true → p.cell bus (s + 1) j.mem = p.cell bus (s + 1) i.mem)
  /-- What runs before the next instruction leaves what was loaded or stored alone. -/
  restA : tableLoad ins ≠ none → w.last ≠ none → loByte j.a = loByte (runOpcode (bridgeBus bus) i).a ∧
    (p.wide = true → hiByte j.a = hiByte (runOpcode (bridgeBus bus) i).a)
  restCells : ∀ q ∈ pairedAt p.dp sc ins, w.cell q.1 = true →
    p.cell bus q.1 j.mem = p.cell bus q.1 (runOpcode (bridgeBus bus) i).mem ∧
      (p.wide = true → p.cell bus (q.1 + 1) j.mem = p.cell bus (q.1 + 1) (runOpcode (bridgeBus bus) i).mem)

/-- A run along the walk to the site, with the room its loop has left. Behind an instruction others may
run first: an interrupt, a call, or the turns of a loop. -/
inductive Builds (bus : Bus M) (p : Pointer) (funcStart site : Nat) (i₀ : Interp816 M) :
    Nat → PointerScan → Interp816 M → Prop
  | entry (k : Nat) : Builds bus p funcStart site i₀ 256 (.entry funcStart) ((runOpcode (bridgeBus bus))^[k] i₀)
  | step {room sc i ins} (k : Nat) : Builds bus p funcStart site i₀ (room + 1) sc i → sc.pc < site →
      AtCode bus p.rom p.bank sc.pc sc.m sc.x ins i →
      PointerStep bus p (p.wins site room (sc.next p.dp ins)) sc ins i
        ((runOpcode (bridgeBus bus))^[k + 1] i) →
      Builds bus p funcStart site i₀ room (sc.next p.dp ins) ((runOpcode (bridgeBus bus))^[k + 1] i)

/-- The load that wins is in `A`, and the pointer holds the entries of the slots that have won. -/
structure Built (bus : Bus M) (p : Pointer) (w : Wins) (sc : PointerScan) (i : Interp816 M) : Prop where
  last : ∀ b, w.last ≠ none → sc.last = some (b, p.reg) → p.Loaded b i.a
  cells : ∀ (s : Fin 3) b, w.cell s = true → p.bases[s.val]? = some b → p.Stored bus b s i.mem

/-! ### Loads and stores -/

section Step

variable {bus : Bus M} {rom : Rom} {bank pc : Nat} {m x : Bool} {ins : Insn} {i : Interp816 M}

/-- The two addresses of an indexed operand. -/
theorem split_indexed {base : Addr} {b : Byte} {a : Word} (hbase : base.toNat = b.toNat * 65536 + a.toNat)
    (y : Word) : splitAddr (mask24 (base + u32 y)) = (b + carryOut a y, a + y) ∧
      splitAddr (mask24 (base + u32 y + 1)) = nextAddr (b + carryOut a y) (a + y) := by
  have hlow := splitAddr_indexed hbase y
  exact ⟨(splitAddr_mask24 _).trans hlow, by rw [splitAddr_succ, hlow]⟩

theorem mode_of_tableLoad {load : TableLoad} (h : tableLoad ins = some load) :
    ins.mnem = .lda ∧ (ins.mode = .absX ∨ ins.mode = .longX ∨ ins.mode = .absY) ∧
      load.1 = ins.operand &&& 0xFFFF := by
  unfold tableLoad at h
  split_ifs at h with hx hy
  · obtain rfl := Option.some.inj h
    exact ⟨hx.1, hx.2.elim Or.inl fun hl => Or.inr (Or.inl hl), rfl⟩
  · obtain rfl := Option.some.inj h
    exact ⟨hy.1, Or.inr (Or.inr hy.2), rfl⟩

/-- The operand of a table load. -/
theorem adr_tableLoad (h : AtCode bus rom bank pc m x ins i) {load : TableLoad}
    (hload : tableLoad ins = some load) : ∃ am o, opOf ins.opcode = .mem .lda am ∧
      adr (bridgeBus bus) am (advance i 1) = (o, advance i ins.length) ∧
      splitAddr o.low = tableAddr ins i ∧
      splitAddr o.high = nextAddr (tableAddr ins i).1 (tableAddr ins i).2 := by
  obtain ⟨hmnem, hmode, -⟩ := mode_of_tableLoad hload
  have hmove : moveMemOp ins.mnem = some .lda := by
    rw [hmnem]
    rfl
  rcases hmode with hmode | hmode | hmode
  · have hop : opOf ins.opcode = .mem .lda .abx := opOf_of_mode h.decoded hmove (by rw [hmode]; rfl)
    have hlen : ins.length = 3 := length_of_decodeInsn h.decoded hop fun _ he => by cases he
    have hread := readOpcodeWord_advance h.fetches (n := 1) (by omega)
    rw [mkWord_insnBytes] at hread
    have hsplit := split_indexed (dataAddr_toNat i.db (BitVec.ofNat 16 ins.operand)) i.x
    have haddr : tableAddr ins i =
        (i.db + carryOut (BitVec.ofNat 16 ins.operand) i.x, BitVec.ofNat 16 ins.operand + i.x) := by
      simp [tableAddr, hmode]
    refine ⟨.abx, effAbi (BitVec.ofNat 16 ins.operand) i.x (advance i 3), hop, ?_, ?_, ?_⟩
    · simp only [adr, adrAbx, hread, hlen]
      rfl
    · rw [haddr]
      exact hsplit.1
    · rw [haddr]
      exact hsplit.2
  · have hop : opOf ins.opcode = .mem .lda .alx := opOf_of_mode h.decoded hmove (by rw [hmode]; rfl)
    have hlen : ins.length = 4 := length_of_decodeInsn h.decoded hop fun _ he => by cases he
    have hread := readOpcodeWord_advance h.fetches (n := 1) (by omega)
    have hbank := readOpcode_advance h.fetches (n := 3) (by omega)
    rw [mkWord_insnBytes] at hread
    have hsplit := split_indexed (longAddr_toNat (BitVec.ofNat 16 ins.operand) (insnByte ins 3)) i.x
    have haddr : tableAddr ins i =
        (insnByte ins 3 + carryOut (BitVec.ofNat 16 ins.operand) i.x, BitVec.ofNat 16 ins.operand + i.x) := by
      simp [tableAddr, hmode, insnByte]
    refine ⟨.alx, effAlx (BitVec.ofNat 16 ins.operand) (insnByte ins 3) (advance i 4), hop, ?_, ?_, ?_⟩
    · simp only [adr, adrAlx, hread, hbank, hlen]
    · rw [haddr]
      exact hsplit.1
    · rw [haddr]
      exact hsplit.2
  · have hop : opOf ins.opcode = .mem .lda .aby := opOf_of_mode h.decoded hmove (by rw [hmode]; rfl)
    have hlen : ins.length = 3 := length_of_decodeInsn h.decoded hop fun _ he => by cases he
    have hread := readOpcodeWord_advance h.fetches (n := 1) (by omega)
    rw [mkWord_insnBytes] at hread
    have hsplit := split_indexed (dataAddr_toNat i.db (BitVec.ofNat 16 ins.operand)) i.y
    have haddr : tableAddr ins i =
        (i.db + carryOut (BitVec.ofNat 16 ins.operand) i.y, BitVec.ofNat 16 ins.operand + i.y) := by
      simp [tableAddr, hmode]
    refine ⟨.aby, effAbi (BitVec.ofNat 16 ins.operand) i.y (advance i 3), hop, ?_, ?_, ?_⟩
    · simp only [adr, adrAby, hread, hlen]
      rfl
    · rw [haddr]
      exact hsplit.1
    · rw [haddr]
      exact hsplit.2

/-- A table load puts the entry into `A`; the low byte is there in both widths. -/
theorem loaded_of_tableLoad {p : Pointer} (h : AtCode bus rom bank pc m x ins i) {load : TableLoad}
    (hload : tableLoad ins = some load) {b : Nat} (hm : p.wide = true → i.mf = false)
    (hlow : bus.read8 (tableAddr ins i).1 (tableAddr ins i).2 i.mem = (p.table b 0, i.mem))
    (hhigh : p.wide = true → bus.read8 (nextAddr (tableAddr ins i).1 (tableAddr ins i).2).1
      (nextAddr (tableAddr ins i).1 (tableAddr ins i).2).2 i.mem = (p.table b 1, i.mem)) :
    p.Loaded b (runOpcode (bridgeBus bus) i).a := by
  obtain ⟨am, o, hop, hadr, ho, ho'⟩ := adr_tableLoad h hload
  have hmem : (advance i ins.length).mem = i.mem := rfl
  rw [h.run, hop]
  cases hmf : i.mf with
  | true =>
    have hmf' : (advance i ins.length).mf = true := hmf
    simp only [exec, hadr, memOp, lda, hmf', if_true, setZN_a]
    simp only [Interp816.read, bridgeBus_read, ho, hmem, hlow]
    exact ⟨loByte_withLow _ _, fun hw => absurd (hmf.symm.trans (hm hw)) (by decide)⟩
  | false =>
    have hmf' : (advance i ins.length).mf = false := hmf
    simp only [exec, hadr, memOp, lda, hmf', Bool.false_eq_true, if_false, setZN_a]
    simp only [readWord, Interp816.read, bridgeBus_read, ho, ho', hmem, hlow]
    refine ⟨loByte_mkWord _ _, fun hw => ?_⟩
    rw [hhigh hw]
    exact hiByte_mkWord _ _

theorem operand_lt_of_dp {offset : Nat} (h : decodeInsn rom offset pc bank m x = some ins)
    (hmode : ins.mode = .dp) : ins.operand < 256 := by
  simp only [decodeInsn, Option.bind_eq_bind, Option.bind_eq_some_iff, Option.pure_def,
    Option.some.injEq] at h
  obtain ⟨op, -, operand, hoperand, rfl⟩ := h
  exact operand_lt_of_decodeOperand hoperand (congrArg adrModeOf hmode)

/-- The memory behind `STA $dp` with `D` zero. -/
theorem mem_staDp (h : AtCode bus rom bank pc m x ins i) (hmnem : ins.mnem = .sta) (hmode : ins.mode = .dp)
    (hdp : i.dp = 0) : (runOpcode (bridgeBus bus) i).mem =
      if i.mf then bus.write8 0 (BitVec.ofNat 16 ins.operand) (loByte i.a) i.mem
      else bus.write8 0 (BitVec.ofNat 16 (ins.operand + 1)) (hiByte i.a)
        (bus.write8 0 (BitVec.ofNat 16 ins.operand) (loByte i.a) i.mem) := by
  have hop : opOf ins.opcode = .mem .sta .dp :=
    opOf_of_mode h.decoded (by rw [hmnem]; rfl) (by rw [hmode]; rfl)
  have hlen : ins.length = 2 := length_of_decodeInsn h.decoded hop fun _ he => by cases he
  have hlt : ins.operand < 256 := operand_lt_of_dp h.decoded hmode
  have hread := readOpcode_advance h.fetches (n := 1) (by omega)
  have hword : mkWord (insnByte ins 1) 0 = BitVec.ofNat 16 ins.operand := by
    rw [mkWord_insnByte_zero, Bits.and_0xFF, Nat.mod_eq_of_lt hlt]
  have hzero : i.dp + BitVec.ofNat 16 ins.operand + 0 = BitVec.ofNat 16 ins.operand := by
    rw [hdp]
    exact (BitVec.add_zero _).trans (BitVec.zero_add _)
  have hlow : splitAddr (effDp (insnByte ins 1) 0 (advance i 2)).low = (0, BitVec.ofNat 16 ins.operand) := by
    have hsplit := splitAddr_bankZero i.dp (insnByte ins 1) (u32 0)
    rw [setWidth_u32, hword, hzero] at hsplit
    exact hsplit
  have hhigh : splitAddr (effDp (insnByte ins 1) 0 (advance i 2)).high =
      (0, BitVec.ofNat 16 (ins.operand + 1)) := by
    have hsplit := splitAddr_bankZero_succ i.dp 0 (insnByte ins 1)
    rw [hword, hzero] at hsplit
    rw [BitVec.ofNat_add]
    exact hsplit
  rw [h.run, hop]
  have hadr : adr (bridgeBus bus) .dp (advance i 1) = (effDp (insnByte ins 1) 0 (advance i 2), advance i 2) := by
    simp only [adr, adrDp, hread]
  simp only [exec, hadr, memOp, sta, store]
  cases hmf : i.mf with
  | true =>
    have hmf' : (advance i 2).mf = true := hmf
    simp only [hmf', if_true, Interp816.write, bridgeBus_write, hlow]
    rfl
  | false =>
    have hmf' : (advance i 2).mf = false := hmf
    simp only [hmf', Bool.false_eq_true, if_false, writeWord, Interp816.write, bridgeBus_write, hlow, hhigh]
    rfl

end Step

/-! ### One instruction -/

section Run

variable {bus : Bus M} {p : Pointer} {sc : PointerScan} {ins : Insn} {i j : Interp816 M}

/-- A paired store puts the entry of its load into the pointer. -/
theorem stored_of_staDp (hram : PointerRam bus p) (hdp : p.dp < 0x100)
    (h : AtCode bus p.rom p.bank sc.pc sc.m sc.x ins i) {s : Fin 3} {b : Nat}
    (hpair : pairedAt p.dp sc ins = some (s, (b, p.reg))) (hbase : p.bases[s.val]? = some b)
    (hm : p.wide = true → i.mf = false) (hd : i.dp = 0) (ha : p.Loaded b i.a) :
    p.Stored bus b s (runOpcode (bridgeBus bus) i).mem := by
  obtain ⟨⟨hmnem, hmode⟩, hslot, -⟩ := pair_of_pairedAt hpair
  have hoperand := operand_of_pointerSlot hslot hdp (operand_lt_of_dp h.decoded hmode)
  rw [mem_staDp h hmnem hmode hd, hoperand]
  cases hmf : i.mf with
  | true =>
    refine ⟨?_, fun hw => absurd (hmf.symm.trans (hm hw)) (by decide)⟩
    rw [if_pos rfl, hram.stored s (by omega), ha.1]
  | false =>
    rw [if_neg (by decide), Nat.add_assoc]
    refine ⟨?_, fun hwide => ?_⟩
    · rw [hram.apart s (by omega) (s + 1) (by omega) (by omega), hram.stored s (by omega), ha.1]
    · have hlen : p.bases.length = 1 := of_decide_eq_true hwide
      have hlt := (List.getElem?_eq_some_iff.mp hbase).1
      rw [hram.stored (s + 1) (by omega), ha.2 hwide]

/-- One instruction of the walk. -/
theorem built_step (hram : PointerRam bus p) (hdp : p.dp < 0x100)
    (h : AtCode bus p.rom p.bank sc.pc sc.m sc.x ins i) {w : Wins}
    (hok : PointerStep bus p w sc ins i j) (hrec : Recovered p w (sc.next p.dp ins))
    (hb : Built bus p (w.before p.dp sc ins) sc i) : Built bus p w (sc.next p.dp ins) j := by
  constructor
  · intro b hwins hlast
    cases hload : tableLoad ins with
    | some load =>
      have hnext : (sc.next p.dp ins).last = some load := by
        simp only [PointerScan.next, PointerScan.pair, hload]
      obtain rfl := Option.some.inj (hnext.symm.trans hlast)
      obtain ⟨hm, hlow, hhigh⟩ := hok.load (b, p.reg) hload hwins
      obtain ⟨hlow', hhigh'⟩ := hok.restA (by rw [hload]; exact Option.some_ne_none _) hwins
      have hloaded := loaded_of_tableLoad h hload hm hlow hhigh
      exact ⟨hlow'.trans hloaded.1, fun hw => (hhigh' hw).trans (hloaded.2 hw)⟩
    | none =>
      have hbefore : (w.before p.dp sc ins).last ≠ none := by
        cases hpair : pairedAt p.dp sc ins with
        | none =>
          simp only [Wins.before, hload, hpair]
          exact hwins
        | some q =>
          -- a store uses the load up, so that none is left to win behind it
          obtain ⟨-, -, -, -, hpaired⟩ := pair_of_pairedAt hpair
          simp only [PointerScan.next, hpaired] at hlast
          cases hlast
      obtain ⟨hlow, hhigh⟩ := hok.keepsA hload hwins
      have hloaded := hb.last b hbefore (last_of_pair hload hlast)
      exact ⟨hlow.trans hloaded.1, fun hw => (hhigh hw).trans (hloaded.2 hw)⟩
  · intro s b hcell hbase
    by_cases hpair : (pairedAt p.dp sc ins).map (·.1) = some s
    · obtain ⟨⟨slot, load⟩, hq, hslot⟩ := Option.map_eq_some_iff.mp hpair
      obtain rfl : slot = s := hslot
      obtain ⟨-, -, hlast, hload, hnext⟩ := pair_of_pairedAt hq
      obtain ⟨b', hbase', hwinner⟩ := hrec.cells slot hcell
      obtain rfl := Option.some.inj (hbase'.symm.trans hbase)
      simp only [PointerScan.next, hnext, Function.update_self] at hwinner
      obtain rfl := Option.some.inj hwinner
      have hbefore : (w.before p.dp sc ins).last ≠ none := by
        simp only [Wins.before, hload, hq, if_pos hcell]
        exact Option.some_ne_none _
      obtain ⟨hm, hd⟩ := hok.store _ hq hcell
      obtain ⟨hlow, hhigh⟩ := hok.restCells _ hq hcell
      have hstored := stored_of_staDp hram hdp h hq hbase hm hd (hb.last b' hbefore hlast)
      exact ⟨hlow.trans hstored.1, fun hw => (hhigh hw).trans (hstored.2 hw)⟩
    · have hbefore : (w.before p.dp sc ins).cell s = true := by
        cases hload : tableLoad ins with
        | some load =>
          simp only [Wins.before, hload]
          exact hcell
        | none =>
          cases hq : pairedAt p.dp sc ins with
          | none =>
            simp only [Wins.before, hload, hq]
            exact hcell
          | some q =>
            have hne : s ≠ q.1 := fun he => hpair (by rw [hq, he]; rfl)
            simp only [Wins.before, hload, hq]
            rw [Function.update_of_ne hne]
            exact hcell
      obtain ⟨hlow, hhigh⟩ := hok.keepsCells s hpair hcell
      have hstored := hb.cells s b hbefore hbase
      exact ⟨hlow.trans hstored.1, fun hw => (hhigh hw).trans (hstored.2 hw)⟩

/-- Along the run the pointer is built from the tables, and the walk is on its way to the same
end. -/
theorem built_of_builds (hram : PointerRam bus p) (hdp : p.dp < 0x100) {funcStart site room : Nat}
    {i₀ : Interp816 M} {fin : PointerScan}
    (hloop : pointerLoop p.rom p.bank site p.dp 256 (.entry funcStart) = some fin)
    (htables : fin.tables = some (p.bases, p.reg)) (h : Builds bus p funcStart site i₀ room sc i) :
    Built bus p (p.wins site room sc) sc i ∧ pointerLoop p.rom p.bank site p.dp room sc = some fin := by
  induction h with
  | entry k =>
    have hrec := recovered_of_pointerLoop htables hloop
    refine ⟨⟨fun b _ hlast => (by cases hlast), fun s b hcell _ => ?_⟩, hloop⟩
    obtain ⟨_, -, hwinner⟩ := hrec.cells s hcell
    cases hwinner
  | @step room sc i ins k _ hpc hat hok ih =>
    obtain ⟨hbuilt, hrest⟩ := ih
    have hnext := pointerLoop_next hrest hpc hat.read
    rw [Pointer.wins_step hpc hat.read] at hbuilt
    exact ⟨built_step hram hdp hat hok (recovered_of_pointerLoop htables hnext) hbuilt, hnext⟩

end Run

/-! ### The jump -/

section Jump

variable {bus : Bus M} {p : Pointer} {pc : Nat} {m x : Bool} {ins : Insn} {i : Interp816 M}

/-- The address of a jump and the pointer's low word. -/
theorem read_pointer (hram : PointerRam bus p) (h : AtCode bus p.rom p.bank pc m x ins i)
    (hlen : ins.length = 3) (hoperand : ins.operand = p.dp) :
    readOpcodeWord (bridgeBus bus) (advance i 1) = (BitVec.ofNat 16 p.dp, advance i 3) ∧
      readWord (bridgeBus bus) (u32 (BitVec.ofNat 16 p.dp)) (u32 (BitVec.ofNat 16 p.dp + 1)) (advance i 3) =
        (mkWord (p.cell bus 0 i.mem) (p.cell bus 1 i.mem), advance i 3) := by
  have hread := readOpcodeWord_advance h.fetches (n := 1) (by omega)
  rw [mkWord_insnBytes, hoperand] at hread
  refine ⟨hread, ?_⟩
  have hone : BitVec.ofNat 16 p.dp + 1 = BitVec.ofNat 16 (p.dp + 1) := (BitVec.ofNat_add p.dp 1).symm
  have hlow := hram.pure 0 (by decide) i.mem
  have hhigh := hram.pure 1 (by decide) i.mem
  have hmem : (advance i 3).mem = i.mem := rfl
  rw [Nat.add_zero] at hlow
  simp only [readWord, Interp816.read, bridgeBus_read, u32, splitAddr_setWidth, hone, hmem, hlow, hhigh,
    Pointer.cell, Nat.add_zero]
  rfl

/-- `JMP ($dp)` stays in its bank. -/
theorem run_jmp (hram : PointerRam bus p) (h : AtCode bus p.rom p.bank pc m x ins i)
    (hop : ins.opcode = 0x6C) (hoperand : ins.operand = p.dp) :
    (runOpcode (bridgeBus bus) i).pc = mkWord (p.cell bus 0 i.mem) (p.cell bus 1 i.mem) ∧
      (runOpcode (bridgeBus bus) i).k = i.k := by
  have hlen : ins.length = 3 := by
    rw [(row_of_decodeInsn h.decoded).2.2.1, hop]
    rfl
  have hop' : opOf ins.opcode = .jmpInd := by
    rw [hop]
    rfl
  obtain ⟨hread, hword⟩ := read_pointer hram h hlen hoperand
  rw [h.run, hop']
  simp only [exec, jmpInd, hread, hword]
  exact ⟨trivial, rfl⟩

/-- `JML [$dp]` has the bank from the third byte; the interpreter drops its top bit. -/
theorem run_jml (hram : PointerRam bus p) (h : AtCode bus p.rom p.bank pc m x ins i)
    (hop : ins.opcode = 0xDC) (hoperand : ins.operand = p.dp) :
    (runOpcode (bridgeBus bus) i).pc = mkWord (p.cell bus 0 i.mem) (p.cell bus 1 i.mem) ∧
      (runOpcode (bridgeBus bus) i).k = p.cell bus 2 i.mem &&& 0x7F := by
  have hlen : ins.length = 3 := by
    rw [(row_of_decodeInsn h.decoded).2.2.1, hop]
    rfl
  have hop' : opOf ins.opcode = .jmlIal := by
    rw [hop]
    rfl
  obtain ⟨hread, hword⟩ := read_pointer hram h hlen hoperand
  have htwo : BitVec.ofNat 16 p.dp + 2 = BitVec.ofNat 16 (p.dp + 2) := (BitVec.ofNat_add p.dp 2).symm
  rw [h.run, hop']
  simp only [exec, jmlIal, hread, hword]
  simp only [Interp816.read, bridgeBus_read, u32, splitAddr_setWidth, htwo]
  exact ⟨trivial, rfl⟩

/-- The register at the jump. -/
def indexAt (i : Interp816 M) : IndexReg → Word
  | .x => i.x
  | .y => i.y

/-- The index is that of the register at the jump; a table of words is indexed by bytes. -/
def Pointer.EntryAt (p : Pointer) (n : Nat) (i : Interp816 M) : Prop :=
  p.index = (indexAt i p.reg).toNat ∧ p.index = if p.wide then 2 * n else n

/-- The tables suit the jump: a bank byte for `JML`, none for `JMP`. -/
def Pointer.Suits (p : Pointer) (long : Bool) : Prop :=
  if long then p.bases.length = 3 else p.bases.length = 1 ∨ p.bases.length = 2

theorem mkWord_ofNat (lo hi : Nat) :
    mkWord (BitVec.ofNat 8 lo) (BitVec.ofNat 8 hi) = BitVec.ofNat 16 (hi % 256 * 256 + lo % 256) := by
  apply BitVec.eq_of_toNat_eq
  simp only [mkWord_toNat, BitVec.toNat_ofNat]
  omega

theorem tableByte_lt (rom : Rom) (bank base n : Nat) : tableByte rom bank base n < 256 := BitVec.isLt _

theorem parallelAddr_eq (rom : Rom) (bank lo hi n : Nat) : parallelAddr rom bank lo hi n =
    tableByte rom bank hi n * 256 + tableByte rom bank lo n :=
  Bits.shiftLeft_or_eq_add (tableByte_lt rom bank lo n)

theorem parallelAddr_lt (rom : Rom) (bank lo hi n : Nat) : parallelAddr rom bank lo hi n < 2 ^ 16 := by
  have h1 := tableByte_lt rom bank lo n
  have h2 := tableByte_lt rom bank hi n
  rw [parallelAddr_eq]
  omega

/-- The parts of an entry. -/
theorem entry_parts {bankByte addr16 : Nat} (h : addr16 < 2 ^ 16) :
    BitVec.ofNat 16 ((bankByte <<< 16) ||| addr16) = BitVec.ofNat 16 addr16 ∧
      ((bankByte <<< 16) ||| addr16) >>> 16 = bankByte := by
  rw [Bits.shiftLeft_or_eq_add h]
  constructor
  · apply BitVec.eq_of_toNat_eq
    simp only [BitVec.toNat_ofNat]
    omega
  · rw [Nat.shiftRight_eq_div_pow]
    omega

theorem table_eq (base k : Nat) : p.table base k = BitVec.ofNat 8 (tableByte p.rom p.bank base (p.index + k)) := rfl

/-- The word that two tables of bytes put into the pointer. -/
theorem parallel_word {lo hi : Nat} {mem : M} (hlo : p.Stored bus lo 0 mem) (hhi : p.Stored bus hi 1 mem) :
    mkWord (p.cell bus 0 mem) (p.cell bus 1 mem) =
      BitVec.ofNat 16 (parallelAddr p.rom p.bank lo hi p.index) := by
  have h1 := tableByte_lt p.rom p.bank lo p.index
  have h2 := tableByte_lt p.rom p.bank hi p.index
  rw [hlo.1, hhi.1, table_eq, table_eq, mkWord_ofNat, parallelAddr_eq, Nat.add_zero,
    Nat.mod_eq_of_lt h1, Nat.mod_eq_of_lt h2]

/-- The word that a table of words puts into the pointer. -/
theorem row_word {base n : Nat} {mem : M} (hstored : p.Stored bus base 0 mem) (hwide : p.wide = true)
    (hindex : p.index = 2 * n) (hrow : rowOk p.rom p.bank ((base &&& 0xFFFF) + 2 * n) 2 = true) :
    mkWord (p.cell bus 0 mem) (p.cell bus 1 mem) =
      BitVec.ofNat 16 (rowAddr p.rom p.bank ((base &&& 0xFFFF) + 2 * n)) := by
  simp only [rowOk, Bool.and_eq_true, decide_eq_true_eq] at hrow
  obtain ⟨⟨hend, hstart⟩, -⟩ := hrow
  have hlow : tablePc base (p.index + 0) = (base &&& 0xFFFF) + 2 * n := by
    rw [tablePc, hindex]
    rw [Bits.and_0xFFFF] at hend hstart ⊢
    rw [Bits.and_0xFFFF]
    omega
  have hhigh : tablePc base (p.index + 1) = (base &&& 0xFFFF) + 2 * n + 1 := by
    rw [tablePc, hindex]
    rw [Bits.and_0xFFFF] at hend hstart ⊢
    rw [Bits.and_0xFFFF]
    omega
  have hoffset : loromOffset p.bank ((base &&& 0xFFFF) + 2 * n + 1) =
      loromOffset p.bank ((base &&& 0xFFFF) + 2 * n) + 1 := by
    unfold loromOffset
    omega
  have h1 := (p.rom.byte (loromOffset p.bank ((base &&& 0xFFFF) + 2 * n))).isLt
  have h2 := (p.rom.byte (loromOffset p.bank ((base &&& 0xFFFF) + 2 * n) + 1)).isLt
  rw [hstored.1, hstored.2 hwide, table_eq, table_eq, mkWord_ofNat, tableByte, tableByte, hlow, hhigh,
    hoffset, rowAddr, Nat.or_comm, Bits.shiftLeft_or_eq_add h1, Nat.mod_eq_of_lt h1, Nat.mod_eq_of_lt h2]
  rfl

theorem rowAddr_lt (rom : Rom) (bank pc : Nat) : rowAddr rom bank pc < 2 ^ 16 := by
  have h1 := (rom.byte (loromOffset bank pc)).isLt
  have h2 := (rom.byte (loromOffset bank pc + 1)).isLt
  rw [rowAddr, Nat.or_comm, Bits.shiftLeft_or_eq_add h1]
  omega

/-- The pointer and the entry of its index have the same word, and where there is a table of banks
the same bank. -/
theorem pointer_of_resolveEntry {size n e : Nat} {mem : M}
    (hstored : ∀ (s : Fin 3) b, p.bases[s.val]? = some b → p.Stored bus b s mem)
    (hindex : p.index = if p.wide then 2 * n else n) (hlen : p.bases.length ≤ 3)
    (hsize : p.bases.length = 1 → size = 2) (h : resolveEntry p.rom p.bank size p.bases n = some e) :
    mkWord (p.cell bus 0 mem) (p.cell bus 1 mem) = BitVec.ofNat 16 e ∧
      (p.bases.length ≠ 3 → e >>> 16 = p.bank) ∧
      (p.bases.length = 3 → p.cell bus 2 mem = BitVec.ofNat 8 (e >>> 16)) := by
  cases hb : p.bases with
  | nil =>
    rw [hb] at h
    cases h
  | cons lo rest =>
    have hlo := hstored 0 lo (by rw [hb]; rfl)
    rw [hb] at h
    cases rest with
    | nil =>
      obtain rfl := hsize (by rw [hb]; rfl)
      have hwide : p.wide = true := decide_eq_true (by rw [hb]; rfl)
      rw [hwide, if_pos rfl] at hindex
      simp only [resolveEntry] at h
      split at h
      next hrow =>
        obtain rfl := Option.some.inj h
        obtain ⟨haddr, hshift⟩ := @entry_parts p.bank _ (rowAddr_lt p.rom p.bank ((lo &&& 0xFFFF) + 2 * n))
        exact ⟨(row_word hlo hwide hindex hrow).trans haddr.symm, fun _ => hshift, fun h => (by cases h)⟩
      next => cases h
    | cons hi bk =>
      have hwide : p.wide = false := decide_eq_false (by rw [hb]; simp)
      rw [hwide, if_neg Bool.false_ne_true] at hindex
      have hhi := hstored 1 hi (by rw [hb]; rfl)
      simp only [resolveEntry] at h
      split at h
      next =>
        obtain rfl := Option.some.inj h
        obtain ⟨haddr, hshift⟩ := @entry_parts (parallelBank p.rom p.bank bk.head? n) _
          (parallelAddr_lt p.rom p.bank lo hi n)
        have hword := parallel_word hlo hhi
        rw [hindex] at hword
        refine ⟨hword.trans haddr.symm, fun hne => ?_, fun hthree => ?_⟩
        · have hnil : bk = [] := by
            refine List.eq_nil_of_length_eq_zero ?_
            simp only [hb, List.length_cons] at hlen hne
            omega
          rw [hshift, hnil]
          rfl
        · obtain ⟨bank, rfl⟩ : ∃ bank, bk = [bank] :=
            List.length_eq_one_iff.mp (by simpa using hthree)
          have hbank := (hstored 2 bank (by rw [hb]; rfl)).1
          rw [table_eq, Nat.add_zero, hindex] at hbank
          rw [hshift]
          exact hbank
      next => cases h

/-- **The jump goes to the entry of the index register.** -/
theorem jumpsTo_of_builds (hram : PointerRam bus p) (hdp : p.dp < 0x100) {funcStart site room n : Nat}
    {long : Bool} {dataRegions : List (Nat × Nat × Nat)} {entries : List Nat} {sc : PointerScan}
    {i₀ : Interp816 M} (hbases : autorecoverIndirectDp p.rom p.bank funcStart site p.dp = some (p.bases, p.reg))
    (hentries : pointerEntries p.rom p.bank funcStart site p.dp long dataRegions = some (entries, p.reg))
    (h : Builds bus p funcStart site i₀ room sc i) (hsite : sc.pc = site)
    (hat : AtCode bus p.rom p.bank site m x ins i) (hop : ins.opcode = if long then 0xDC else 0x6C)
    (hoperand : ins.operand = p.dp) (hsuits : p.Suits long) (hindex : p.EntryAt n i)
    (hlt : n < entries.length) : ∃ e, entries[n]? = some e ∧
      (runOpcode (bridgeBus bus) i).pc = BitVec.ofNat 16 e ∧
      (runOpcode (bridgeBus bus) i).k =
        if long then BitVec.ofNat 8 (e >>> 16) &&& 0x7F else BitVec.ofNat 8 (e >>> 16) := by
  obtain ⟨fin, hloop, htables⟩ := Option.bind_eq_some_iff.mp hbases
  obtain ⟨hbuilt, -⟩ := built_of_builds hram hdp hloop htables h
  have hstored : ∀ (s : Fin 3) b, p.bases[s.val]? = some b → p.Stored bus b s i.mem := by
    intro s b hb
    refine hbuilt.cells s b ?_ hb
    rw [Pointer.wins_site hsite]
    exact decide_eq_true (List.getElem?_eq_some_iff.mp hb).1
  obtain ⟨bases, hbases', hresolve⟩ := getElem?_of_pointerEntries hentries
  obtain ⟨rfl, -⟩ := Prod.mk.inj (Option.some.inj (hbases'.symm.trans hbases))
  obtain ⟨e, he⟩ : ∃ e, entries[n]? = some e := ⟨_, List.getElem?_eq_getElem hlt⟩
  have hresolved := (hresolve n hlt).symm.trans he
  refine ⟨e, he, ?_⟩
  cases long with
  | false =>
    have hlen : p.bases.length = 1 ∨ p.bases.length = 2 := hsuits
    obtain ⟨hpc, hk⟩ := run_jmp hram hat hop hoperand
    obtain ⟨hword, hshift, -⟩ :=
      pointer_of_resolveEntry hstored hindex.2 (by omega) (fun _ => rfl) hresolved
    refine ⟨hpc.trans hword, ?_⟩
    rw [hshift (by omega), hk, hat.k]
    rfl
  | true =>
    have hlen : p.bases.length = 3 := hsuits
    obtain ⟨hpc, hk⟩ := run_jml hram hat hop hoperand
    obtain ⟨hword, -, hbank⟩ :=
      pointer_of_resolveEntry hstored hindex.2 (by omega) (by omega) hresolved
    refine ⟨hpc.trans hword, ?_⟩
    rw [hk, hbank hlen]
    rfl

end Jump

/-! ### Two functions -/

set_option synthInstance.maxSize 1024 in
instance [DecidableEq M] (bus : Bus M) (p : Pointer) (w : Wins) (sc : PointerScan) (ins : Insn)
    (i j : Interp816 M) : Decidable (PointerStep bus p w sc ins i j) :=
  decidable_of_iff _ (pointerStep_iff ..).symm

/-- Code at `$8000`, returns at `$8020` and `$8030`, and their addresses at `$8040` and `$8044`. -/
def handlersRom (code : List Byte) : Rom :=
  .ofBytes (code ++ List.replicate (0x20 - code.length) 0 ++ (0x60 :: List.replicate 15 0) ++
    (0x60 :: List.replicate 15 0) ++ [0x20, 0x30, 0, 0, 0x80, 0x80])

/-- `LDA $8040,X; STA $00; LDA $8044,X; STA $01; JMP ($0000)`. -/
def plainPointer : Rom :=
  handlersRom [0xBD, 0x40, 0x80, 0x85, 0x00, 0xBD, 0x44, 0x80, 0x85, 0x01, 0x6C, 0x00, 0x00]

/-- The same with an `INC A` behind the first load. -/
def movedPointer : Rom :=
  handlersRom [0xBD, 0x40, 0x80, 0x1A, 0x85, 0x00, 0xBD, 0x44, 0x80, 0x85, 0x01, 0x6C, 0x00, 0x00]

/-- A narrow accumulator and wide index registers, and the second handler selected. -/
def selecting : Interp816 (Fin 8 → Byte) := { atStart (fun _ => 0) true false with x := 1 }

def secondHandler : Pointer := ⟨plainPointer, 0, 0, [0x8040, 0x8044], .x, 1⟩

theorem ramBus_read {rom : Rom} {k : Nat} (hk : k < 8) (m : Fin 8 → Byte) :
    (ramBus 0 rom).read8 0 (BitVec.ofNat 16 k) m = (m ⟨k, hk⟩, m) := by
  have hmod : k % 65536 = k := by omega
  simp [ramBus, hmod, hk]

theorem ramBus_write {rom : Rom} {k : Nat} (hk : k < 8) (v : Byte) (m : Fin 8 → Byte) :
    (ramBus 0 rom).write8 0 (BitVec.ofNat 16 k) v m = Function.update m ⟨k, hk⟩ v := by
  have hmod : k % 65536 = k := by omega
  simp [ramBus, hmod, hk]

theorem pointerRam_ramBus (rom : Rom) : PointerRam (ramBus 0 rom) secondHandler := by
  have hadd : ∀ k, secondHandler.dp + k = k := Nat.zero_add
  refine ⟨fun k hk m => ?_, fun k hk v m => ?_, fun j hj k hk hne v m => ?_⟩
  · rw [hadd, ramBus_read (by omega)]
  · rw [Pointer.cell, hadd, ramBus_write (by omega), ramBus_read (by omega), Function.update_self]
  · have hfin : (⟨j, by omega⟩ : Fin 8) ≠ ⟨k, by omega⟩ := fun he => hne (congrArg Fin.val he)
    rw [Pointer.cell, Pointer.cell, hadd, hadd, ramBus_write (by omega), ramBus_read (by omega),
      ramBus_read (by omega), Function.update_of_ne hfin]

/-- The index selects the second handler. -/
theorem jumpsTo_of_builds_plainPointer : ∃ e, [0x8020, 0x8030][1]? = some e ∧
    ((runOpcode (bridgeBus (ramBus 0 plainPointer)))^[5] selecting).pc = BitVec.ofNat 16 e ∧
      ((runOpcode (bridgeBus (ramBus 0 plainPointer)))^[5] selecting).k = BitVec.ofNat 8 (e >>> 16) := by
  have hlow := Builds.step 0
    (@Builds.entry _ (ramBus 0 plainPointer) secondHandler 0x8000 0x800A selecting 0) (by decide)
    (show AtCode _ _ _ _ _ _ ⟨0x8000, 0xBD, .lda, .absX, 0x8040, 3, true, true, false, none⟩ _ by
      decide) (by decide)
  have hfirst := Builds.step 0 hlow (by decide)
    (show AtCode _ _ _ _ _ _ ⟨0x8003, 0x85, .sta, .dp, 0, 2, true, true, false, none⟩ _ by
      decide) (by decide)
  have hhigh := Builds.step 0 hfirst (by decide)
    (show AtCode _ _ _ _ _ _ ⟨0x8005, 0xBD, .lda, .absX, 0x8044, 3, true, true, false, none⟩ _ by
      decide) (by decide)
  have hsecond := Builds.step 0 hhigh (by decide)
    (show AtCode _ _ _ _ _ _ ⟨0x8008, 0x85, .sta, .dp, 1, 2, true, true, false, none⟩ _ by
      decide) (by decide)
  have hjump := @jumpsTo_of_builds _ _ secondHandler true true
    ⟨0x800A, 0x6C, .jmp, .indir, 0, 3, true, true, false, none⟩ _
    (pointerRam_ramBus plainPointer) (by decide) 0x8000 0x800A _ 1 false [] [0x8020, 0x8030] _ _
    (by decide) (by decide) hsecond (by decide) (by decide) rfl rfl
    (Or.inr rfl) ⟨by decide, rfl⟩ (by decide)
  simp only [Function.iterate_succ_apply', Function.iterate_zero, id_eq] at hjump ⊢
  exact hjump

/-- The value that was loaded is stored one higher, and the jump goes to none of the entries. -/
theorem not_jumpsTo_movedPointer :
    pointerEntries movedPointer 0 0x8000 0x800B 0 false [] = some ([0x8020, 0x8030], .x) ∧
      ((runOpcode (bridgeBus (ramBus 0 movedPointer)))^[5] selecting).pc = 0x800B ∧
      ((runOpcode (bridgeBus (ramBus 0 movedPointer)))^[5] selecting).x = 1 ∧
      ((runOpcode (bridgeBus (ramBus 0 movedPointer)))^[6] selecting).pc = 0x8031 := by
  refine ⟨?_, ?_, ?_, ?_⟩ <;> decide

end SnesRecomp.Tiers
