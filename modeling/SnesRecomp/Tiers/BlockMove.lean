import SnesRecomp.Tiers.DataMovement
import SnesRecomp.Tiers.ScannedCode

/-!
# Block moves in the two tiers

`_emit_blockmove` moves all bytes of an `MVN` or `MVP` in one loop, the interpreter one byte each time
it executes the opcode.  `blockMove_agrees`: the two come to the same state if there is a byte count
below `$10000` and no index of eight bits is stepped out of them (`inPage_iff`).
-/

namespace SnesRecomp.Tiers

open Recompiler Interp816

variable {M : Type}

/-- The mnemonic of a block move. -/
def moveMnem : Direction → Mnem
  | .mvn => .mvn
  | .mvp => .mvp

/-- What the interpreter adds to the index registers. -/
def moveDelta : Direction → Word
  | .mvn => 1
  | .mvp => -1

/-- What `_emit_blockmove` adds. -/
def emitDelta (direction : Direction) : Delta := if direction = .mvn then .up else .down

/-- The register behind `k` bytes, with no mask. -/
def stepped (direction : Direction) (reg : Word) (k : Nat) : Word :=
  match direction with
  | .mvn => reg + BitVec.ofNat 16 k
  | .mvp => reg - BitVec.ofNat 16 k

/-- None of the `n` values the register is stepped to has more than eight bits. -/
def InPage (direction : Direction) (reg : Word) (n : Nat) : Prop :=
  match direction with
  | .mvn => (reg + 1).toNat + n ≤ 256
  | .mvp => n ≤ reg.toNat ∧ reg.toNat ≤ 256

/-- Memory and the registers of a move are the same in both tiers. -/
structure MovesAlike (s : EmitState M) (i : Interp816 M) : Prop where
  mem : i.mem = s.mem
  a : i.a = s.cpu.A
  x : i.x = s.cpu.X
  y : i.y = s.cpu.Y

/-! ### One byte -/

theorem toCInt_emitDelta (direction : Direction) :
    ((emitDelta direction).toCInt.setWidth 16 : Word) = moveDelta direction := by
  cases direction <;> rfl

/-- The condition is that the mask behind a byte never acts. -/
theorem inPage_iff (direction : Direction) (reg : Word) {n : Nat} (hn : 0 < n) :
    InPage direction reg n ↔ ∀ k < n, (stepped direction reg (k + 1)).toNat < 256 := by
  have hreg := reg.isLt
  cases direction with
  | mvn =>
    have hfirst : (reg + 1).toNat = (reg.toNat + 1) % 65536 := BitVec.toNat_add reg 1
    have hval : ∀ k, (stepped .mvn reg (k + 1)).toNat = ((reg + 1).toNat + k) % 65536 := by
      intro k
      rw [stepped, BitVec.toNat_add, BitVec.toNat_ofNat, hfirst]
      omega
    simp only [InPage, hval]
    constructor
    · intro h k hk
      omega
    · intro h
      -- the first value that is too large is 256
      by_contra hlarge
      have hstart := h 0 hn
      have hend := h (256 - (reg + 1).toNat) (by omega)
      omega
  | mvp =>
    have hval : ∀ k, (stepped .mvp reg (k + 1)).toNat = (reg.toNat + 65536 - (k + 1) % 65536) % 65536 := by
      intro k
      rw [stepped, BitVec.toNat_sub, BitVec.toNat_ofNat]
      omega
    simp only [InPage, hval]
    constructor
    · intro h k hk
      omega
    · intro h
      have hstart := h 0 hn
      refine ⟨?_, by omega⟩
      by_contra hmore
      have hend := h reg.toNat (by omega)
      omega

theorem stepped_one (direction : Direction) (reg : Word) :
    stepped direction reg 1 = reg + moveDelta direction := by
  cases direction with
  | mvn => rfl
  | mvp => exact BitVec.sub_eq_add_neg reg 1

theorem inPage_first {direction : Direction} {reg : Word} {n : Nat} (h : InPage direction reg (n + 1)) :
    (reg + moveDelta direction).toNat < 256 := by
  rw [← stepped_one]
  exact (inPage_iff direction reg (Nat.succ_pos n)).mp h 0 (Nat.succ_pos n)

theorem inPage_step {direction : Direction} {reg : Word} {n : Nat} (h : InPage direction reg (n + 2)) :
    InPage direction (reg + moveDelta direction) (n + 1) := by
  have hfirst := inPage_first h
  cases direction with
  | mvn =>
    have hlt : (reg + 1).toNat + (n + 2) ≤ 256 := h
    have hnext : (reg + 1 + 1).toNat = (reg + 1).toNat + 1 := by
      rw [BitVec.toNat_add (reg + 1)]
      exact Nat.mod_eq_of_lt (show (reg + 1).toNat + 1 < 65536 by omega)
    show (reg + 1 + 1).toNat + (n + 1) ≤ 256
    omega
  | mvp =>
    obtain ⟨hle, hlt⟩ : n + 2 ≤ reg.toNat ∧ reg.toNat ≤ 256 := h
    have hreg : (reg + moveDelta .mvp).toNat = reg.toNat - 1 := by
      rw [moveDelta]
      bv_omega
    rw [InPage, hreg]
    omega

theorem clearIndexHigh_of_lt {i : Interp816 M} (h : i.xf = true → i.x.toNat < 256 ∧ i.y.toNat < 256) :
    clearIndexHigh i = i := by
  have hmask : ∀ v : Word, v.toNat < 256 → v &&& 0xFF = v := by
    intro v hv
    rw [← BitVec.toNat_inj, toNat_and_0xFF]
    omega
  rw [clearIndexHigh]
  split
  next hxf =>
    obtain ⟨hx, hy⟩ := h hxf
    rw [hmask _ hx, hmask _ hy]
  next => rfl

section Step

variable {bus : Bus M} {insn : Insn} {direction : Direction} {i : Interp816 M}

/-- The interpreter moves one byte, and stays at the instruction until the last. -/
theorem runOpcode_blockMove (hf : Fetches bus insn i) (hr : Uninterrupted i) (hlen : insn.length = 3)
    (hop : opOf insn.opcode = if direction = .mvn then .mvn else .mvp) :
    let v := bus.read8 (insnByte insn 2) i.x i.mem
    runOpcode (bridgeBus bus) i = clearIndexHigh
      { i with
        mem := bus.write8 (insnByte insn 1) i.y v.1 v.2
        a := i.a - 1
        x := i.x + moveDelta direction
        y := i.y + moveDelta direction
        db := insnByte insn 1
        pc := if i.a = 0 then i.pc + 3 else i.pc } := by
  have hdest := readOpcode_advance hf (n := 1) (by omega)
  have hsrc := readOpcode_advance hf (n := 2) (by omega)
  have hexec : exec (bridgeBus bus) (if direction = .mvn then .mvn else .mvp) (advance i 1) =
      blockMove (bridgeBus bus) (moveDelta direction) (advance i 1) := by
    cases direction <;> rfl
  rw [runOpcode_of_fetches hf hr (by omega), hop, hexec]
  simp only [blockMove, hdest, hsrc, Interp816.read, Interp816.write, bridgeBus_read, bridgeBus_write,
    splitAddr_bankAddr]
  refine congrArg clearIndexHigh ?_
  by_cases ha : i.a = 0
  · have hlast : (advance i 3).a - 1 = 0xFFFF := by
      show i.a - 1 = _
      rw [ha]
      rfl
    rw [if_pos hlast, if_pos ha]
    rfl
  · have hmore : ¬ (advance i 3).a - 1 = 0xFFFF := by
      show ¬ i.a - 1 = _
      bv_omega
    have hpc : (advance i 3).pc - 3 = i.pc := BitVec.add_sub_cancel i.pc 3
    rw [if_neg hmore, if_neg ha, hpc]
    rfl

/-- One byte in both tiers. -/
theorem movesAlike_step {s : EmitState M} (hf : Fetches bus insn i) (hr : Uninterrupted i)
    (hlen : insn.length = 3) (hop : opOf insn.opcode = if direction = .mvn then .mvn else .mvp)
    (hs : MovesAlike s i) (hpage : i.xf = true → (s.cpu.X + moveDelta direction).toNat < 256 ∧
      (s.cpu.Y + moveDelta direction).toNat < 256) :
    MovesAlike (blockMoveStep bus (emitDelta direction) (insnByte insn 2) (insnByte insn 1) s)
        (runOpcode (bridgeBus bus) i) ∧
      Uninterrupted (runOpcode (bridgeBus bus) i) ∧ (runOpcode (bridgeBus bus) i).xf = i.xf ∧
      (runOpcode (bridgeBus bus) i).db = insnByte insn 1 ∧
      (runOpcode (bridgeBus bus) i).pc = if s.cpu.A = 0 then i.pc + 3 else i.pc := by
  have hrun := runOpcode_blockMove hf hr hlen hop
  rw [← hs.x, ← hs.y] at hpage
  dsimp only at hrun
  rw [clearIndexHigh_of_lt hpage] at hrun
  rw [hrun]
  refine ⟨⟨?_, ?_, ?_, ?_⟩, ⟨hr.stopped, hr.irq, hr.nmi⟩, rfl, rfl, ?_⟩
  · simp only [blockMoveStep, hs.mem, hs.x, hs.y]
  · simp only [blockMoveStep, hs.a]
  · simp only [blockMoveStep, hs.x, toCInt_emitDelta]
  · simp only [blockMoveStep, hs.y, toCInt_emitDelta]
  · rw [← hs.a]

end Step

/-! ### All bytes -/

section Run

variable {bus : Bus M} {insn : Insn} {direction : Direction}

theorem blockMoveLoop_done {delta : Delta} {srcB dstB : Byte} {s : EmitState M} (h : s.cpu.A = 0xFFFF)
    (fuel : Nat) : blockMoveLoop bus delta srcB dstB fuel s = s := by
  cases fuel with
  | zero => rfl
  | succ fuel => rw [blockMoveLoop, if_pos h]

/-- The loop has counted down. -/
theorem blockMoveLoop_a {delta : Delta} {srcB dstB : Byte} : ∀ (n fuel : Nat) (s : EmitState M),
    s.cpu.A.toNat = n → n < fuel → (blockMoveLoop bus delta srcB dstB fuel s).cpu.A = 0xFFFF := by
  intro n
  induction n with
  | zero =>
    intro fuel s hn hfuel
    obtain ⟨fuel, rfl⟩ : ∃ f, fuel = f + 1 := ⟨fuel - 1, by omega⟩
    have hA : s.cpu.A = 0 := BitVec.eq_of_toNat_eq hn
    have hdone : (blockMoveStep bus delta srcB dstB s).cpu.A = 0xFFFF := by
      show s.cpu.A - 1 = _
      rw [hA]
      rfl
    rw [blockMoveLoop, if_neg (by rw [hA]; decide), blockMoveLoop_done hdone]
    exact hdone
  | succ n ih =>
    intro fuel s hn hfuel
    obtain ⟨fuel, rfl⟩ : ∃ f, fuel = f + 1 := ⟨fuel - 1, by omega⟩
    rw [blockMoveLoop]
    split
    next hdone => exact hdone
    next =>
      refine ih fuel _ ?_ (by omega)
      show (s.cpu.A - 1).toNat = n
      bv_omega

/-- The turns of the loop and the executions of the opcode. -/
theorem movesAlike_run (hlen : insn.length = 3)
    (hop : opOf insn.opcode = if direction = .mvn then .mvn else .mvp) :
    ∀ (n fuel : Nat) (s : EmitState M) (i : Interp816 M), s.cpu.A.toNat = n → n < 0xFFFF → n < fuel →
      MovesAlike s i → Uninterrupted i →
      (∀ k ≤ n, Fetches bus insn ((runOpcode (bridgeBus bus))^[k] i)) →
      (i.xf = true → InPage direction s.cpu.X (n + 1) ∧ InPage direction s.cpu.Y (n + 1)) →
      MovesAlike (blockMoveLoop bus (emitDelta direction) (insnByte insn 2) (insnByte insn 1) fuel s)
          ((runOpcode (bridgeBus bus))^[n + 1] i) ∧
        ((runOpcode (bridgeBus bus))^[n + 1] i).db = insnByte insn 1 ∧
        ((runOpcode (bridgeBus bus))^[n + 1] i).pc = i.pc + 3 ∧
        ∀ k ≤ n, ((runOpcode (bridgeBus bus))^[k] i).pc = i.pc := by
  intro n
  induction n with
  | zero =>
    intro fuel s i hn _ hfuel hs hr hcode hpage
    have hA : s.cpu.A = 0 := BitVec.eq_of_toNat_eq hn
    obtain ⟨hstep, -, -, hdb, hpc⟩ := movesAlike_step (hcode 0 (Nat.le_refl 0)) hr hlen hop hs fun hxf =>
      ⟨inPage_first (hpage hxf).1, inPage_first (hpage hxf).2⟩
    rw [if_pos hA] at hpc
    refine ⟨?_, hdb, hpc, fun k hk => ?_⟩
    · obtain ⟨fuel, rfl⟩ : ∃ f, fuel = f + 1 := ⟨fuel - 1, by omega⟩
      have hne : ¬ s.cpu.A = 0xFFFF := by
        rw [hA]
        decide
      have hdone : (blockMoveStep bus (emitDelta direction) (insnByte insn 2) (insnByte insn 1) s).cpu.A =
          0xFFFF := by
        show s.cpu.A - 1 = _
        rw [hA]
        rfl
      rw [blockMoveLoop, if_neg hne, blockMoveLoop_done hdone]
      exact hstep
    · obtain rfl := Nat.le_zero.mp hk
      rfl
  | succ n ih =>
    intro fuel s i hn hcount hfuel hs hr hcode hpage
    obtain ⟨hstep, hr', hxf', -, hpc⟩ := movesAlike_step (hcode 0 (Nat.zero_le _)) hr hlen hop hs fun hxf =>
      ⟨inPage_first (hpage hxf).1, inPage_first (hpage hxf).2⟩
    have hne : ¬ s.cpu.A = 0 := by
      intro hA
      rw [hA] at hn
      exact absurd hn (Nat.succ_ne_zero n).symm
    rw [if_neg hne] at hpc
    obtain ⟨fuel, rfl⟩ : ∃ f, fuel = f + 1 := ⟨fuel - 1, by omega⟩
    have hmore : ¬ s.cpu.A = 0xFFFF := by
      intro hA
      rw [hA] at hn
      have hn : 0xFFFF = n + 1 := hn
      omega
    have hcountdown : (blockMoveStep bus (emitDelta direction) (insnByte insn 2) (insnByte insn 1) s).cpu.A.toNat
        = n := by
      show (s.cpu.A - 1).toNat = n
      bv_omega
    obtain ⟨hrest, hdb, hlast, hstay⟩ := ih fuel _ _ hcountdown (by omega) (by omega) hstep hr'
      (fun k hk => hcode (k + 1) (by omega)) fun hxf => by
        rw [hxf'] at hxf
        have hX := inPage_step (hpage hxf).1
        have hY := inPage_step (hpage hxf).2
        rw [← toCInt_emitDelta] at hX hY
        exact ⟨hX, hY⟩
    rw [blockMoveLoop, if_neg hmore]
    refine ⟨hrest, hdb, hlast.trans (congrArg (· + 3) hpc), fun k hk => ?_⟩
    cases k with
    | zero => rfl
    | succ k => exact (hstay k (by omega)).trans hpc

/-- The two bank bytes. -/
theorem insnByte_banks (insn : Insn) : insnByte insn 1 = BitVec.ofNat 8 (insn.operand &&& 0xFF) ∧
    insnByte insn 2 = BitVec.ofNat 8 ((insn.operand >>> 8) &&& 0xFF) := by
  constructor
  · apply BitVec.eq_of_toNat_eq
    rw [Bits.and_0xFF]
    simp [insnByte]
  · apply BitVec.eq_of_toNat_eq
    rw [Bits.and_0xFF]
    simp [insnByte]

theorem opOf_moveMnem : ∀ op : Byte,
    ((opcodeRow op).mnem = .mvn → opOf op = .mvn ∧ ((opcodeRow op).len == .fixed 3) = true) ∧
      ((opcodeRow op).mnem = .mvp → opOf op = .mvp ∧ ((opcodeRow op).len == .fixed 3) = true) := by
  decide +kernel

/-- **The emitted loop ends, and leaves what the interpreter leaves when its program counter passes
the instruction**, where the count is below `$10000`, no index of eight bits is stepped out of
them and the move leaves its own instruction alone. -/
theorem blockMove_agrees {rom : Rom} {offset pc bank : Nat} {m x : Bool}
    (hdec : decodeInsn rom offset pc bank m x = some insn) (hmnem : insn.mnem = moveMnem direction)
    {s : EmitState M} {i : Interp816 M} (hs : MovesAlike s i) (hr : Uninterrupted i)
    (hcount : s.cpu.A ≠ 0xFFFF)
    (hpage : i.xf = true → InPage direction s.cpu.X (s.cpu.A.toNat + 1) ∧
      InPage direction s.cpu.Y (s.cpu.A.toNat + 1))
    (hcode : ∀ k ≤ s.cpu.A.toNat, Fetches bus insn ((runOpcode (bridgeBus bus))^[k] i)) :
    ∀ ops ∈ blockMoveHandler direction insn,
      MovesAlike (execOps bus ops s) ((runOpcode (bridgeBus bus))^[s.cpu.A.toNat + 1] i) ∧
        ((runOpcode (bridgeBus bus))^[s.cpu.A.toNat + 1] i).db = (execOps bus ops s).cpu.DB ∧
        (execOps bus ops s).cpu.A = 0xFFFF ∧
        ((runOpcode (bridgeBus bus))^[s.cpu.A.toNat + 1] i).pc = i.pc + 3 ∧
        ∀ k ≤ s.cpu.A.toNat, ((runOpcode (bridgeBus bus))^[k] i).pc = i.pc := by
  intro ops hops
  obtain rfl := Option.some.inj hops
  obtain ⟨hrow, -, hlength, -⟩ := row_of_decodeInsn hdec
  obtain ⟨hmvn, hmvp⟩ := opOf_moveMnem insn.opcode
  have hlen : insn.length = 3 ∧ opOf insn.opcode = if direction = .mvn then .mvn else .mvp := by
    cases direction with
    | mvn =>
      obtain ⟨hop, hfixed⟩ := hmvn (hrow ▸ hmnem)
      refine ⟨?_, hop⟩
      rw [hlength, beq_iff_eq.mp hfixed]
      rfl
    | mvp =>
      obtain ⟨hop, hfixed⟩ := hmvp (hrow ▸ hmnem)
      refine ⟨?_, hop⟩
      rw [hlength, beq_iff_eq.mp hfixed]
      rfl
  have hlt := s.cpu.A.isLt
  have hne : s.cpu.A.toNat ≠ 0xFFFF := fun h => hcount (BitVec.eq_of_toNat_eq h)
  obtain ⟨hrun, hdb, hpc, hstay⟩ := movesAlike_run hlen.1 hlen.2 s.cpu.A.toNat 0x10000 s i rfl (by omega)
    hlt hs hr hcode hpage
  obtain ⟨hdst, hsrc⟩ := insnByte_banks insn
  rw [hdst, hsrc] at hrun
  rw [hdst] at hdb
  have hdone := @blockMoveLoop_a M bus (emitDelta direction) (BitVec.ofNat 8 ((insn.operand >>> 8) &&& 0xFF))
    (BitVec.ofNat 8 (insn.operand &&& 0xFF)) _ _ s rfl hlt
  have hexec : execOps bus [.blockMove direction ((insn.operand >>> 8) &&& 0xFF) (insn.operand &&& 0xFF)] s =
      emitBlockMove bus direction ((insn.operand >>> 8) &&& 0xFF) (insn.operand &&& 0xFF) s := rfl
  rw [hexec, emitBlockMove]
  -- The fuel is not to be unfolded.
  generalize hloop : blockMoveLoop bus _ _ _ 0x10000 s = t at hrun hdone
  rw [emitDelta] at hloop
  simp only [hloop]
  exact ⟨⟨hrun.mem, hrun.a, hrun.x, hrun.y⟩, hdb, hdone, hpc, hstay⟩

end Run

/-! ### `MVN $00,$00` -/

def mvnRom : Rom := .ofBytes [0x54, 0x00, 0x00]

def mvnInsn : Insn := ⟨0x8000, 0x54, .mvn, .imm, 0, 3, true, true, false, none⟩

/-- Two bytes are to be moved, in both tiers. -/
def compiledMove (X Y : Word) (mem : Fin 8 → Byte) : EmitState (Fin 8 → Byte) :=
  ⟨{ cpuStateInit with A := 1, X := X, Y := Y }, mem, fun _ => 0⟩

def interpretedMove (X Y : Word) (mem : Fin 8 → Byte) (xf : Bool) : Interp816 (Fin 8 → Byte) :=
  { atStart mem true xf with a := 1, x := X, y := Y }

/-- An overlapping move with 16-bit index registers. -/
theorem blockMove_agrees_overlapping :
    MovesAlike (execOps (ramBus 0 mvnRom) [.blockMove .mvn 0 0] (compiledMove 2 3 fun n => BitVec.ofNat 8 n))
      ((runOpcode (bridgeBus (ramBus 0 mvnRom)))^[2]
        (interpretedMove 2 3 (fun n => BitVec.ofNat 8 n) false)) :=
  (@blockMove_agrees _ (ramBus 0 mvnRom) mvnInsn .mvn mvnRom 0 0x8000 0 true true (by decide) rfl
    (compiledMove 2 3 fun n => BitVec.ofNat 8 n) (interpretedMove 2 3 (fun n => BitVec.ofNat 8 n) false)
    ⟨rfl, rfl, rfl, rfl⟩ ⟨rfl, rfl, rfl⟩ (by decide) (fun h => by cases h) (by decide) _ rfl).1

/-- With 8-bit index registers the interpreter goes on at the start of the page. -/
theorem not_blockMove_agrees_pageEnd :
    MovesAlike (compiledMove 0xFF 0xFC fun n => if n = 4 then 0xAA else 0)
        (interpretedMove 0xFF 0xFC (fun n => if n = 4 then 0xAA else 0) true) ∧
      ((runOpcode (bridgeBus (ramBus 0xFC mvnRom)))^[2]
        (interpretedMove 0xFF 0xFC (fun n => if n = 4 then 0xAA else 0) true)).pc = 0x8003 ∧
      ¬ MovesAlike (execOps (ramBus 0xFC mvnRom) [.blockMove .mvn 0 0]
          (compiledMove 0xFF 0xFC fun n => if n = 4 then 0xAA else 0))
        ((runOpcode (bridgeBus (ramBus 0xFC mvnRom)))^[2]
          (interpretedMove 0xFF 0xFC (fun n => if n = 4 then 0xAA else 0) true)) := by
  refine ⟨⟨rfl, rfl, rfl, rfl⟩, by decide, fun h => ?_⟩
  have hx := h.x
  revert hx
  decide

end SnesRecomp.Tiers
