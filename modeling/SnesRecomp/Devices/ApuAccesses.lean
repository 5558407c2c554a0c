import SnesRecomp.Devices.Spc
import SnesRecomp.Devices.DspRuns
import SnesRecomp.Lib.Runs

/-!
# Accesses to the sound unit

The processor of the sound unit works on its registers and reaches everything else by reads and
writes.  So a run of the unit, of any cycles and any writes of the main processor, is a run of single
accesses (`apuRun_accesses`), and what holds of every run of accesses holds of every program.  The DSP
of the unit goes through a run of its own, with a cycle in every 32 of the unit (`apuRun_dsp`).
-/

namespace SnesRecomp

open Apu

/-! ### Inputs and accesses -/

inductive ApuInput
  /-- `apu_cycle`. -/
  | cycle (produced : BitVec 64) (shadow : Int → Int → Int × Int)
  /-- A write of the main processor. -/
  | portWrite (w : ApuPortWrite)

def apuInput : ApuInput → Apu → Apu
  | .cycle produced shadow, apu => apu.cycle produced shadow
  | .portWrite w, apu => { apu with ports := apu.ports.schedulePortWrite w }

/-- The state behind a reset and a run. -/
def apuRun (es : List ApuInput) : Apu := Runs.final apuInput es Apu.reset

inductive ApuAccess
  | read (adr : Word)
  | write (adr : Word) (val : Byte)
  /-- What `apu_cycle` does behind the processor's part. -/
  | cycle (produced : BitVec 64) (shadow : Int → Int → Int × Int)
  | portWrite (w : ApuPortWrite)

def Apu.cycleTimers (apu : Apu) : Apu :=
  { apu with timer := fun i => cycleTimer i (apu.timer i), cycles := apu.cycles + 1 }

theorem Apu.cycle_eq (produced : BitVec 64) (shadow : Int → Int → Int × Int) (apu : Apu) :
    apu.cycle produced shadow = (apu.cycleSpc.cycleSample produced shadow).cycleTimers := rfl

/-- The access, whatever is read. -/
def ApuAccess.run : ApuAccess → Apu → Apu
  | .read adr, apu => (apu.cpuRead adr).2
  | .write adr val, apu => apu.cpuWrite adr val
  | .cycle produced shadow, apu => (apu.cycleSample produced shadow).cycleTimers
  | .portWrite w, apu => { apu with ports := apu.ports.schedulePortWrite w }

/-- The input that an access stands for, unless it is one of the processor. -/
def ApuAccess.inputs : ApuAccess → List ApuInput
  | .cycle produced shadow => [.cycle produced shadow]
  | .portWrite w => [.portWrite w]
  | _ => []

/-! ### The registers of the processor -/

/-- The unit with other registers of its processor. -/
def Apu.withSpc (spc : Spc) (left : Byte) (apu : Apu) : Apu :=
  { apu with spc := spc, cpuCyclesLeft := left }

theorem cpuRead_withSpc (adr : Word) (spc : Spc) (left : Byte) (apu : Apu) :
    ((apu.withSpc spc left).cpuRead adr).2 = (apu.cpuRead adr).2.withSpc spc left := by
  unfold cpuRead
  dsimp only
  split <;> rfl

theorem cpuWrite_withSpc (adr : Word) (val : Byte) (spc : Spc) (left : Byte) (apu : Apu) :
    (apu.withSpc spc left).cpuWrite adr val = (apu.cpuWrite adr val).withSpc spc left := by
  unfold cpuWrite writeRegister
  dsimp only
  split
  case h_3 =>
    by_cases hadr : apu.dspAdr.toNat < 128
    · have hadr' : (apu.withSpc spc left).dspAdr.toNat < 128 := hadr
      rw [dif_pos hadr, dif_pos hadr']
      rfl
    · have hadr' : ¬ (apu.withSpc spc left).dspAdr.toNat < 128 := hadr
      rw [dif_neg hadr, dif_neg hadr']
      rfl
  all_goals rfl

theorem ApuAccess.run_withSpc (a : ApuAccess) (spc : Spc) (left : Byte) (apu : Apu) :
    a.run (apu.withSpc spc left) = (a.run apu).withSpc spc left := by
  cases a with
  | read adr => exact cpuRead_withSpc adr spc left apu
  | write adr val => exact cpuWrite_withSpc adr val spc left apu
  | cycle produced shadow =>
    unfold run cycleSample
    dsimp only [withSpc]
    split <;> rfl
  | portWrite w => rfl

/-- The two differ in the registers of the processor only. -/
def SameUnit (apu apu' : Apu) : Prop := ∃ spc left, apu' = apu.withSpc spc left

theorem SameUnit.trans {a b c : Apu} (hab : SameUnit a b) (hbc : SameUnit b c) : SameUnit a c := by
  obtain ⟨_, _, rfl⟩ := hab
  obtain ⟨spc, left, rfl⟩ := hbc
  exact ⟨spc, left, rfl⟩

theorem SameUnit.run {apu apu' : Apu} (h : SameUnit apu apu') (accs : List ApuAccess) :
    SameUnit (Runs.final ApuAccess.run accs apu) (Runs.final ApuAccess.run accs apu') := by
  induction accs generalizing apu apu' with
  | nil => exact h
  | cons a accs ih =>
      obtain ⟨spc, left, rfl⟩ := h
      exact ih ⟨spc, left, a.run_withSpc spc left apu⟩

/-! ### Operations of the processor -/

/-- Reads and writes lead from the first unit to the second. -/
def Via (apu apu' : Apu) : Prop :=
  ∃ accs : List ApuAccess, accs.flatMap ApuAccess.inputs = [] ∧
    SameUnit (Runs.final ApuAccess.run accs apu) apu'

namespace Via

variable {apu x : Apu}

theorem refl (apu : Apu) : Via apu apu := ⟨[], rfl, _, _, rfl⟩

theorem set (h : Via apu x) (f : Spc → Spc) : Via apu (Spc.set f x) := by
  obtain ⟨accs, hinputs, hsame⟩ := h
  exact ⟨accs, hinputs, hsame.trans ⟨_, _, rfl⟩⟩

/-- One more read or write. -/
theorem snoc (h : Via apu x) {a : ApuAccess} (ha : a.inputs = []) : Via apu (a.run x) := by
  obtain ⟨accs, hinputs, hsame⟩ := h
  refine ⟨accs ++ [a], ?_, ?_⟩
  · rw [List.flatMap_append, hinputs, List.flatMap_singleton, ha]
    rfl
  · rw [Runs.final_append]
    exact hsame.run [a]

theorem read (h : Via apu x) (adr : Word) : Via apu (Spc.read adr x).2 := h.snoc (a := .read adr) rfl

theorem write (h : Via apu x) (adr : Word) (val : Byte) : Via apu (Spc.write adr val x) :=
  h.snoc (a := .write adr val) rfl

theorem readOpcode (h : Via apu x) : Via apu (Spc.readOpcode x).2 := (h.set _).read _

theorem readOpcodeWord (h : Via apu x) : Via apu (Spc.readOpcodeWord x).2 := h.readOpcode.readOpcode

theorem pullByte (h : Via apu x) : Via apu (Spc.pullByte x).2 := (h.set _).read _

theorem pushByte (h : Via apu x) (value : Byte) : Via apu (Spc.pushByte value x) := (h.write _ _).set _

theorem pullWord (h : Via apu x) : Via apu (Spc.pullWord x).2 := h.pullByte.pullByte

theorem pushWord (h : Via apu x) (value : Word) : Via apu (Spc.pushWord value x) :=
  (h.pushByte _).pushByte _

theorem readWord (h : Via apu x) (adrl adrh : Word) : Via apu (Spc.readWord adrl adrh x).2 :=
  (h.read _).read _

theorem writeWord (h : Via apu x) (adrl adrh value : Word) : Via apu (Spc.writeWord adrl adrh value x) :=
  (h.write _ _).write _ _

theorem adr (h : Via apu x) (mode : Spc.AdrMode) : Via apu (Spc.adr mode x).2 := by
  cases mode with
  | dp | dpx | dpy => exact h.readOpcode
  | abs | abx | aby => exact h.readOpcodeWord
  | ind => exact h
  | idx | idy => exact h.readOpcode.readWord _ _
  | imm | indP =>
    dsimp only [Spc.adr]
    exact h.set _

theorem adrPair (h : Via apu x) (mode : Spc.PairMode) : Via apu (Spc.adrPair mode x).2.2 := by
  cases mode with
  | dpDp => exact (h.adr .dp).adr .dp
  | dpImm => exact (h.adr .imm).adr .dp
  | indInd => exact h

theorem memOp (h : Via apu x) (op : Spc.MemOp) (adr : Word) : Via apu (Spc.memOp op adr x) := by
  have hread := h.read adr
  cases op with
  | or | and | eor =>
    dsimp only [Spc.memOp, Spc.logic]
    exact hread.set _
  | adc | sbc =>
    dsimp only [Spc.memOp, Spc.addTo]
    exact hread.set _
  | cmp | cmpx | cmpy =>
    dsimp only [Spc.memOp, Spc.compareWith]
    exact hread.set _
  | mov | movx | movy =>
    dsimp only [Spc.memOp, Spc.load]
    exact hread.set _
  | movs | movsx | movsy => exact hread.write adr _
  | asl | lsr | rol | ror | inc | dec =>
    dsimp only [Spc.memOp, Spc.change]
    exact ((hread.set _).write adr _).set _

theorem pairOp (h : Via apu x) (op : Spc.PairOp) (dst src : Word) : Via apu (Spc.pairOp op dst src x) := by
  have hread := (h.read src).read dst
  cases op with
  | orm | andm | eorm =>
    dsimp only [Spc.pairOp, Spc.logicPair]
    exact (hread.write dst _).set _
  | adcm | sbcm =>
    dsimp only [Spc.pairOp, Spc.addPair]
    exact ((hread.set _).write dst _).set _
  | cmpm =>
    dsimp only [Spc.pairOp, Spc.comparePair]
    exact hread.set _

theorem adrAbsBit (h : Via apu x) : Via apu (Spc.adrAbsBit x).2.2 := h.readOpcodeWord

theorem adrDpWord (h : Via apu x) : Via apu (Spc.adrDpWord x).2.2 := h.readOpcode

theorem carryBit (h : Via apu x) (f : Bool → Bool → Bool) : Via apu (Spc.carryBit f x) := by
  unfold Spc.carryBit
  exact (h.adrAbsBit.read _).set _

theorem storeBit (h : Via apu x) (f : Bool → Nat → Byte → Byte) : Via apu (Spc.storeBit f x) := by
  unfold Spc.storeBit
  exact (h.adrAbsBit.read _).write _ _

theorem testAnd (h : Via apu x) (f : Byte → Byte → Byte) : Via apu (Spc.testAnd f x) := by
  unfold Spc.testAnd
  exact (((h.adr .abs).read _).set _).write _ _

theorem changeWord (h : Via apu x) (f : Word → Word) : Via apu (Spc.changeWord f x) := by
  unfold Spc.changeWord
  exact ((h.adrDpWord.readWord _ _).set _).writeWord _ _ _

theorem wordOp (h : Via apu x) (f : Word → Spc → Spc) : Via apu (Spc.wordOp f x) := by
  unfold Spc.wordOp
  exact (h.adrDpWord.readWord _ _).set _

theorem pop (h : Via apu x) (f : Byte → Spc → Spc) : Via apu (Spc.pop f x) := by
  unfold Spc.pop
  exact h.pullByte.set _

theorem branchOn (h : Via apu x) (mode : Spc.AdrMode) (check : Byte → Spc → Bool) :
    Via apu (Spc.branchOn mode check x) := by
  unfold Spc.branchOn
  exact ((h.adr mode).read _).readOpcode.set _

/-- An operation of the processor is a sequence of reads and writes. -/
theorem exec (h : Via apu x) (op : Spc.Op) : Via apu (Spc.exec op x) := by
  cases op <;> dsimp only [Spc.exec]
  case mem op mode => exact (h.adr mode).memOp op _
  case pair op mode => exact (h.adrPair mode).pairOp op _ _
  case branch | bra => exact h.readOpcode.set _
  case tcall => exact ((h.pushWord _).readWord _ _).set _
  case set1 | clr1 => exact ((h.adr .dp).read _).write _ _
  case bbs | bbc | cbne => exact h.branchOn _ _
  case dbnz => exact (((h.adr .dp).read _).write _ _).readOpcode.set _
  case dbnzy => exact (h.set _).readOpcode.set _
  case jmp => exact h.readOpcodeWord.set _
  case jmpIax => exact (h.readOpcodeWord.readWord _ _).set _
  case call => exact (h.readOpcodeWord.pushWord _).set _
  case pcall => exact (h.readOpcode.pushWord _).set _
  case ret => exact h.pullWord.set _
  case reti => exact (h.pullByte.set _).pullWord.set _
  case brk => exact ((((h.pushWord _).pushByte _).set _).readWord _ _).set _
  case or1 | or1n | and1 | and1n | eor1 | mov1 => exact h.carryBit _
  case mov1s | not1 => exact h.storeBit _
  case tset1 | tclr1 => exact h.testAnd _
  case decw | incw => exact h.changeWord _
  case cmpw | addw | subw | movw => exact h.wordOp _
  case movws => exact ((h.adrDpWord.read _).write _ _).write _ _
  case movm => exact ((h.adrPair .dpDp).read _).write _ _
  case movmImm => exact (((h.adrPair .dpImm).read _).read _).write _ _
  case movsIndP => exact (h.adr .indP).write _ _
  case pushp | pusha | pushx | pushy => exact h.pushByte _
  case popp | popa | popx | popy => exact h.pop _
  case nop => exact h
  all_goals exact h.set _

theorem runOpcode (h : Via apu x) : Via apu (Spc.runOpcode x).2 := by
  unfold Spc.runOpcode
  dsimp only
  split
  · exact h.set fun spc => { spc with cyclesUsed := 0 }
  · exact ((h.set _).readOpcode.set _).exec _

/-- The processor's part of a cycle. -/
theorem cycleSpc (apu : Apu) : Via apu apu.cycleSpc := by
  have hleft : ∀ {x : Apu} (left : Byte), Via apu x → Via apu { x with cpuCyclesLeft := left } := by
    rintro x left ⟨accs, hinputs, hsame⟩
    exact ⟨accs, hinputs, hsame.trans ⟨_, _, rfl⟩⟩
  unfold Apu.cycleSpc
  dsimp only
  split
  · exact hleft _ (hleft _ (refl apu).runOpcode)
  · exact hleft _ (refl apu)

end Via

/-! ### Runs -/

/-- **The processor reaches the sound unit by reads and writes only**: a run of the unit is, but for the
registers of the processor, a run of accesses with the same inputs. -/
theorem apuRun_accesses (es : List ApuInput) :
    ∃ accs : List ApuAccess, accs.flatMap ApuAccess.inputs = es ∧
      SameUnit (Runs.final ApuAccess.run accs Apu.reset) (apuRun es) := by
  induction es using List.reverseRecOn with
  | nil => exact ⟨[], rfl, _, _, rfl⟩
  | append_singleton es e ih =>
      obtain ⟨accs, hinputs, hsame⟩ := ih
      cases e with
      | cycle produced shadow =>
          obtain ⟨more, hmore, hspc⟩ := Via.cycleSpc (apuRun es)
          refine ⟨accs ++ more ++ [.cycle produced shadow], ?_, ?_⟩
          · rw [List.flatMap_append, List.flatMap_append, hinputs, hmore, List.append_nil]
            rfl
          · rw [apuRun, Runs.final_append, Runs.final_append, Runs.final_append]
            exact ((hsame.run more).trans hspc).run [.cycle produced shadow]
      | portWrite w =>
          refine ⟨accs ++ [.portWrite w], ?_, ?_⟩
          · rw [List.flatMap_append, hinputs]
            rfl
          · rw [apuRun, Runs.final_append, Runs.final_append]
            exact hsame.run [.portWrite w]

/-! ### The DSP -/

def ApuInput.isCycle : ApuInput → Bool
  | .cycle .. => true
  | .portWrite _ => false

theorem writeRegister_dsp (adr : Nat) (val : Byte) (apu : Apu) :
    (apu.writeRegister adr val).dsp = apu.dsp ∨
      ∃ h, (apu.writeRegister adr val).dsp = dspWrite ⟨apu.dspAdr.toNat, h⟩ val apu.dsp := by
  unfold writeRegister
  dsimp only
  split
  case h_3 =>
    split
    next h => exact .inr ⟨h, rfl⟩
    next => exact .inl rfl
  all_goals exact .inl rfl

/-- What an access does to the DSP, which makes a cycle where the clock of the unit is a multiple of 32. -/
theorem run_dsp (a : ApuAccess) (apu : Apu) : ∃ des, (a.run apu).dsp = Runs.final dspAccess des apu.dsp ∧
    cycles des = if apu.cycles &&& 0x1F = 0 then a.inputs.countP ApuInput.isCycle else 0 := by
  cases a with
  | read adr =>
    refine ⟨[], ?_, (ite_self _).symm⟩
    change (apu.cpuRead adr).2.dsp = apu.dsp
    unfold cpuRead
    dsimp only
    split <;> rfl
  | write adr val =>
    have hstore : (apu.cpuWrite adr val).dsp =
      dspAccess (.store adr.toNat val) (apu.writeRegister adr.toNat val).dsp := rfl
    rcases writeRegister_dsp adr.toNat val apu with hdsp | ⟨h, hdsp⟩
    · exact ⟨[.store adr.toNat val], hstore.trans (by rw [hdsp]; rfl), (ite_self _).symm⟩
    · exact ⟨[.write ⟨apu.dspAdr.toNat, h⟩ val, .store adr.toNat val], hstore.trans (by rw [hdsp]; rfl),
        (ite_self _).symm⟩
  | cycle produced shadow =>
    by_cases hclock : apu.cycles &&& 0x1F = 0
    · refine ⟨[.cycle shadow], ?_, ?_⟩
      · simp only [ApuAccess.run, cycleSample, if_pos hclock]
        rfl
      · rw [if_pos hclock]
        rfl
    · refine ⟨[], ?_, ?_⟩
      · simp only [ApuAccess.run, cycleSample, if_neg hclock]
        rfl
      · rw [if_neg hclock]
        rfl
  | portWrite w => exact ⟨[], rfl, (ite_self _).symm⟩

theorem run_clock (a : ApuAccess) (apu : Apu) :
    (a.run apu).cycles = apu.cycles + BitVec.ofNat 32 (a.inputs.countP ApuInput.isCycle) := by
  cases a with
  | read adr =>
    refine Eq.trans ?_ (BitVec.add_zero _).symm
    change (apu.cpuRead adr).2.cycles = apu.cycles
    unfold cpuRead
    dsimp only
    split <;> rfl
  | write adr val =>
    refine Eq.trans ?_ (BitVec.add_zero _).symm
    change (apu.writeRegister adr.toNat val).cycles = apu.cycles
    unfold writeRegister
    dsimp only
    split
    case h_3 => split <;> rfl
    all_goals rfl
  | cycle produced shadow =>
    unfold ApuAccess.run cycleSample
    dsimp only
    split <;> rfl
  | portWrite w => exact (BitVec.add_zero _).symm

theorem clock_and (n : Nat) : BitVec.ofNat 32 n &&& 0x1F = 0 ↔ n % 32 = 0 := by
  have hmask := Nat.and_two_pow_sub_one_eq_mod (n % 2 ^ 32) 5
  have hmod := Nat.mod_mod_of_dvd n (by decide : 2 ^ 5 ∣ 2 ^ 32)
  rw [← BitVec.toNat_inj, BitVec.toNat_and, BitVec.toNat_ofNat]
  change (n % 2 ^ 32 &&& 2 ^ 5 - 1) = 0 ↔ _
  rw [hmask, hmod]
  exact Iff.rfl

/-- The DSP and the clock behind a run of accesses from the reset on. -/
theorem accesses_dsp (accs : List ApuAccess) :
    (Runs.final ApuAccess.run accs Apu.reset).cycles =
        BitVec.ofNat 32 ((accs.flatMap ApuAccess.inputs).countP ApuInput.isCycle) ∧
      ∃ des, (Runs.final ApuAccess.run accs Apu.reset).dsp = dspRun (fun _ => 0) des ∧
        cycles des = ((accs.flatMap ApuAccess.inputs).countP ApuInput.isCycle + 31) / 32 := by
  induction accs using List.reverseRecOn with
  | nil => exact ⟨rfl, [], rfl, rfl⟩
  | append_singleton accs a ih =>
      obtain ⟨hclock, des, hdsp, hcount⟩ := ih
      have hle : a.inputs.countP ApuInput.isCycle ≤ 1 := by
        cases a with
        | read | write | portWrite => exact Nat.zero_le 1
        | cycle => exact le_rfl
      obtain ⟨more, hmore, hcycles⟩ := run_dsp a (Runs.final ApuAccess.run accs Apu.reset)
      rw [Runs.final_append, List.flatMap_append, List.countP_append, List.flatMap_singleton]
      refine ⟨?_, des ++ more, ?_, ?_⟩
      · refine (run_clock a _).trans ?_
        rw [hclock, BitVec.ofNat_add]
      · rw [dspRun, Runs.final_append]
        exact hmore.trans (by rw [hdsp]; rfl)
      · rw [hclock] at hcycles
        simp only [clock_and] at hcycles
        rw [cycles, List.countP_append]
        change cycles des + cycles more = _
        rw [hcount, hcycles]
        split <;> omega

/-- **The DSP of the unit goes through a run of its own**, whatever the program and the main processor do,
with a cycle in every 32 of the unit. -/
theorem apuRun_dsp (es : List ApuInput) :
    ∃ des, (apuRun es).dsp = dspRun (fun _ => 0) des ∧
      cycles des = (es.countP ApuInput.isCycle + 31) / 32 := by
  obtain ⟨accs, rfl, spc, left, hsame⟩ := apuRun_accesses es
  obtain ⟨-, des, hdsp, hcount⟩ := accesses_dsp accs
  refine ⟨des, ?_, hcount⟩
  rw [hsame]
  exact hdsp

end SnesRecomp
