import SnesRecomp.Devices.Dma

/-!
# The internal registers

`snes_readReg`, `snes_writeReg` and the B-bus of `snes.c`: the status register that synthesizes the
beam, the multiplier and divider, the joypads and the port to WRAM.  The results are about every order
of accesses in which no DMA is started.

`polls_edges`: a program that waits for an edge of `$4212` sees it after a bounded number of reads.
`multiply_reads` and `divide_reads`: what the arithmetic unit answers is the product, the quotient and
the remainder of what was stored last.  `wramPort_reads`: what is stored through the WRAM port is
read back from it.
-/

namespace SnesRecomp

/-! ### The source -/

/-- The registers of `Snes`; the clock of the sound unit is left out. -/
structure SnesRegs where
  input1 : Word
  input2 : Word
  ramAdr : BitVec 32
  hPos : Nat
  vPos : Nat
  hIrqEnabled : Bool
  vIrqEnabled : Bool
  nmiEnabled : Bool
  hTimer : Word
  vTimer : Word
  inNmi : Bool
  inIrq : Bool
  inVblank : Bool
  autoJoyRead : Bool
  autoJoyTimer : Word
  ppuLatch : Bool
  multiplyA : Byte
  multiplyResult : Word
  divideA : Word
  divideResult : Word
  deriving DecidableEq, Repr

/-- `snes_reset`; the joypads stay. -/
def SnesRegs.reset (s : SnesRegs) : SnesRegs where
  input1 := s.input1
  input2 := s.input2
  ramAdr := 0
  hPos := 0
  vPos := 0
  hIrqEnabled := false
  vIrqEnabled := false
  nmiEnabled := false
  hTimer := 0x1FF
  vTimer := 0x1FF
  inNmi := false
  inIrq := false
  inVblank := false
  autoJoyRead := false
  autoJoyTimer := 0
  ppuLatch := false
  multiplyA := 0xFF
  multiplyResult := 0xFE01
  divideA := 0xFFFF
  divideResult := 0x101

/-- One turn of the loop of `SwapInputBits`. -/
def swapTurn (r : Word × Word) : Word × Word := (r.1 * 2 + (r.2 &&& 1), r.2 >>> 1)

/-- `SwapInputBits`. -/
def swapInputBits (x : Word) : Word := (swapTurn^[16] (0, x)).1

/-- The beam one poll further on: a step of 64 in the line, and a line where that wraps. -/
def SnesRegs.advance (s : SnesRegs) : SnesRegs :=
  let h := (s.hPos + 64) % 1364
  { s with hPos := h, vPos := if h < s.hPos then (s.vPos + 1) % 262 else s.vPos }

/-- `$4212`. -/
def SnesRegs.hvbjoy (s : SnesRegs) : Byte :=
  bitAt (decide (0 < s.autoJoyTimer)) 0 ||| bitAt (decide (1024 ≤ s.hPos)) 6 |||
    bitAt (s.inVblank || decide (225 ≤ s.vPos)) 7

/-- `snes_readReg`. -/
def SnesRegs.readReg (s : SnesRegs) (adr : Word) : Byte × SnesRegs :=
  match adr.toNat with
  | 0x4210 => (0x02 ||| bitAt s.inNmi 7, { s with inNmi := false })
  | 0x4211 => (bitAt s.inIrq 7, { s with inIrq := false })
  | 0x4212 => (s.advance.hvbjoy, s.advance)
  | 0x4213 => (bitAt s.ppuLatch 7, s)
  | 0x4214 => (loByte s.divideResult, s)
  | 0x4215 => (hiByte s.divideResult, s)
  | 0x4216 => (loByte s.multiplyResult, s)
  | 0x4217 => (hiByte s.multiplyResult, s)
  | 0x4016 | 0x4017 => (1, s)
  | 0x4218 => (loByte (swapInputBits s.input1), s)
  | 0x4219 => (hiByte (swapInputBits s.input1), s)
  | 0x421A => (loByte (swapInputBits s.input2), s)
  | 0x421B => (hiByte (swapInputBits s.input2), s)
  | _ => (0, s)

/-- The timers hold nine bits. -/
def setTimerLow (w : Word) (val : Byte) : Word := (w &&& 0x100) ||| val.setWidth 16

def setTimerHigh (w : Word) (val : Byte) : Word := (w &&& 0xFF) ||| ((val &&& 1).setWidth 16 <<< 8)

/-- `snes_writeReg`, as far as it stores to `Snes`. -/
def SnesRegs.writeReg (s : SnesRegs) (adr : Word) (val : Byte) : SnesRegs :=
  match adr.toNat with
  | 0x4200 =>
    let h := hasBit val 0x10
    let v := hasBit val 0x20
    { s with
      autoJoyRead := hasBit val 0x01
      autoJoyTimer := if hasBit val 0x01 then s.autoJoyTimer else 0
      hIrqEnabled := h
      vIrqEnabled := v
      nmiEnabled := hasBit val 0x80
      inIrq := if !h && !v then false else s.inIrq }
  | 0x4201 => { s with ppuLatch := hasBit val 0x80 }
  | 0x4202 => { s with multiplyA := val }
  | 0x4203 => { s with multiplyResult := s.multiplyA.setWidth 16 * val.setWidth 16 }
  | 0x4204 => { s with divideA := setLow s.divideA val }
  | 0x4205 => { s with divideA := setHigh s.divideA val }
  | 0x4206 =>
    if val = 0 then { s with divideResult := 0xFFFF, multiplyResult := s.divideA }
    else
      { s with
        divideResult := s.divideA / val.setWidth 16, multiplyResult := s.divideA % val.setWidth 16 }
  | 0x4207 => { s with hTimer := setTimerLow s.hTimer val }
  | 0x4208 => { s with hTimer := setTimerHigh s.hTimer val }
  | 0x4209 => { s with vTimer := setTimerLow s.vTimer val }
  | 0x420A => { s with vTimer := setTimerHigh s.vTimer val }
  | _ => s

/-- The other devices: the ports of the picture and sound units, the beam latch and the DMA. -/
structure SnesDevices (D : Type) where
  readPort : Byte → D → Byte × D
  writePort : Byte → Byte → D → D
  latch : D → D
  mdmaen : Byte → Mem (SnesRegs × D) → Mem (SnesRegs × D)
  hdmaen : Byte → D → D

variable {D : Type}

def setRegs (s : SnesRegs) (m : Mem (SnesRegs × D)) : Mem (SnesRegs × D) :=
  { m with hw := (s, m.hw.2) }

def setDevices (d : D) (m : Mem (SnesRegs × D)) : Mem (SnesRegs × D) := { m with hw := (m.hw.1, d) }

variable (dev : SnesDevices D)

def snesReadReg (adr : Word) (m : Mem (SnesRegs × D)) : Byte × Mem (SnesRegs × D) :=
  ((m.hw.1.readReg adr).1, setRegs (m.hw.1.readReg adr).2 m)

def snesWriteReg (adr : Word) (val : Byte) (m : Mem (SnesRegs × D)) : Mem (SnesRegs × D) :=
  if adr = 0x420B then dev.mdmaen val m
  else if adr = 0x420C then setDevices (dev.hdmaen val m.hw.2) m
  else
    -- a falling edge of the top bit of `$4201` latches the beam
    let d := if adr = 0x4201 ∧ !hasBit val 0x80 ∧ m.hw.1.ppuLatch then dev.latch m.hw.2 else m.hw.2
    { m with hw := (m.hw.1.writeReg adr val, d) }

/-- `snes_readBBus`. -/
def snesReadBBus (adr : Byte) (m : Mem (SnesRegs × D)) : Byte × Mem (SnesRegs × D) :=
  if adr < 0x80 then
    let r := dev.readPort adr m.hw.2
    (r.1, setDevices r.2 m)
  else if adr = 0x80 then
    (m.ram m.hw.1.ramAdr.toNat,
      setRegs { m.hw.1 with ramAdr := (m.hw.1.ramAdr + 1) &&& 0x1FFFF } m)
  else (0, m)

/-- `snes_writeBBus`. -/
def snesWriteBBus (adr val : Byte) (m : Mem (SnesRegs × D)) : Mem (SnesRegs × D) :=
  let s := m.hw.1
  if adr < 0x80 then setDevices (dev.writePort adr val m.hw.2) m
  else
    match adr.toNat with
    | 0x80 =>
      let wa := s.ramAdr &&& 0x1FFFF
      setRegs { s with ramAdr := (wa + 1) &&& 0x1FFFF } (m.setRam wa.toNat val)
    | 0x81 => setRegs { s with ramAdr := (s.ramAdr &&& 0x1FF00) ||| val.setWidth 32 } m
    | 0x82 => setRegs { s with ramAdr := (s.ramAdr &&& 0x100FF) ||| (val.setWidth 32 <<< 8) } m
    | 0x83 => setRegs { s with ramAdr := (s.ramAdr &&& 0x0FFFF) ||| ((val &&& 1).setWidth 32 <<< 16) } m
    | _ => m

/-- Both bits of a mask are dropped if both are set. -/
def dropBoth (mask inputs : BitVec 32) : BitVec 32 :=
  if inputs &&& mask = mask then inputs ^^^ mask else inputs

/-- The start of `RtlRunFrame`: opposite directions cancel, then each joypad takes twelve bits. -/
def runFrameInputs (inputs : BitVec 32) (s : SnesRegs) : SnesRegs :=
  let inputs := dropBoth 0xC0000 (dropBoth 0x30000 (dropBoth 0xC0 (dropBoth 0x30 inputs)))
  { s with
    input1 := (inputs &&& 0xFFF).setWidth 16, input2 := ((inputs >>> 12) &&& 0xFFF).setWidth 16 }

/-! ### Runs -/

/-- What the program does with the registers, and the host before a frame. -/
inductive SnesAccess
  | readReg (adr : Word)
  | writeReg (adr : Word) (val : Byte)
  | readBBus (adr : Byte)
  | writeBBus (adr val : Byte)
  | frame (inputs : BitVec 32)
  deriving DecidableEq, Repr

def snesAccess : SnesAccess → Mem (SnesRegs × D) → Byte × Mem (SnesRegs × D)
  | .readReg adr, m => snesReadReg adr m
  | .writeReg adr val, m => (0, snesWriteReg dev adr val m)
  | .readBBus adr, m => snesReadBBus dev adr m
  | .writeBBus adr val, m => (0, snesWriteBBus dev adr val m)
  | .frame inputs, m => (0, setRegs (runFrameInputs inputs m.hw.1) m)

def snesStep (e : SnesAccess) (m : Mem (SnesRegs × D)) : Mem (SnesRegs × D) := (snesAccess dev e m).2

/-- The access starts no DMA. -/
def SnesAccess.Quiet : SnesAccess → Prop
  | .writeReg adr _ => adr ≠ 0x420B
  | _ => True

/-- What the accesses of a kind answer, in order. -/
def answers (kind : SnesAccess) : List SnesAccess → Mem (SnesRegs × D) → List Byte
  | [], _ => []
  | e :: es, m =>
    (if e = kind then [(snesAccess dev e m).1] else []) ++ answers kind es (snesStep dev e m)

@[simp] theorem setRegs_fst (s : SnesRegs) (m : Mem (SnesRegs × D)) : (setRegs s m).hw.1 = s := rfl

@[simp] theorem setDevices_fst (d : D) (m : Mem (SnesRegs × D)) : (setDevices d m).hw.1 = m.hw.1 := rfl

@[simp] theorem setRegs_ram (s : SnesRegs) (m : Mem (SnesRegs × D)) : (setRegs s m).ram = m.ram := rfl

@[simp] theorem setDevices_ram (d : D) (m : Mem (SnesRegs × D)) : (setDevices d m).ram = m.ram := rfl

/-- Stores to the internal registers, as far as they are in `SnesRegs`. -/
theorem snesWriteReg_regs {adr : Word} (h : adr ≠ 0x420B) (val : Byte) (m : Mem (SnesRegs × D)) :
    (snesWriteReg dev adr val m).hw.1 = m.hw.1.writeReg adr val := by
  rw [snesWriteReg, if_neg h]
  split
  next hc => rw [hc]; rfl
  next => rfl

theorem snesWriteReg_ram {adr : Word} (h : adr ≠ 0x420B) (val : Byte) (m : Mem (SnesRegs × D)) :
    (snesWriteReg dev adr val m).ram = m.ram := by
  rw [snesWriteReg, if_neg h]
  split <;> rfl

/-- The B-bus only moves the WRAM port. -/
theorem snesReadBBus_regs (adr : Byte) (m : Mem (SnesRegs × D)) :
    ∃ a, (snesReadBBus dev adr m).2.hw.1 = { m.hw.1 with ramAdr := a } := by
  rw [snesReadBBus]
  split
  next => exact ⟨_, rfl⟩
  next => split <;> exact ⟨_, rfl⟩

theorem snesWriteBBus_regs (adr val : Byte) (m : Mem (SnesRegs × D)) :
    ∃ a, (snesWriteBBus dev adr val m).hw.1 = { m.hw.1 with ramAdr := a } := by
  simp only [snesWriteBBus]
  split
  next => exact ⟨_, rfl⟩
  next => split <;> exact ⟨_, rfl⟩

/-! ### The beam -/

/-- The beam is in the frame. -/
structure SnesRegs.Beam (s : SnesRegs) : Prop where
  hPos : s.hPos < 1364
  vPos : s.vPos < 262

/-- The beam `n` polls further on. -/
def SnesRegs.beamAfter (s : SnesRegs) (n : Nat) : Nat × Nat :=
  ((s.hPos + 64 * n) % 1364, (s.vPos + (s.hPos + 64 * n) / 1364) % 262)

/-- Two states with the same beam. -/
def SnesRegs.SameBeam (s t : SnesRegs) : Prop :=
  s.hPos = t.hPos ∧ s.vPos = t.vPos ∧ s.inVblank = t.inVblank

theorem readReg_beam {adr : Word} (h : adr ≠ 0x4212) (s : SnesRegs) : (s.readReg adr).2.SameBeam s := by
  unfold SnesRegs.readReg
  split
  next => exact ⟨rfl, rfl, rfl⟩
  next => exact ⟨rfl, rfl, rfl⟩
  next hadr => exact absurd (BitVec.eq_of_toNat_eq hadr) h
  all_goals exact ⟨rfl, rfl, rfl⟩

theorem writeReg_beam (adr : Word) (val : Byte) (s : SnesRegs) : (s.writeReg adr val).SameBeam s := by
  unfold SnesRegs.writeReg
  split
  all_goals first
    | exact ⟨rfl, rfl, rfl⟩
    | (split <;> exact ⟨rfl, rfl, rfl⟩)

/-- Only a poll moves the beam. -/
theorem snesStep_beam {e : SnesAccess} (hquiet : e.Quiet) (hpoll : e ≠ .readReg 0x4212)
    (m : Mem (SnesRegs × D)) : (snesStep dev e m).hw.1.SameBeam m.hw.1 := by
  cases e with
  | readReg adr => exact readReg_beam (fun h => hpoll (congrArg _ h)) _
  | writeReg adr val =>
    rw [snesStep, snesAccess, snesWriteReg_regs dev hquiet]
    exact writeReg_beam adr val _
  | readBBus adr =>
    obtain ⟨a, ha⟩ := snesReadBBus_regs dev adr m
    rw [snesStep, snesAccess, ha]
    exact ⟨rfl, rfl, rfl⟩
  | writeBBus adr val =>
    obtain ⟨a, ha⟩ := snesWriteBBus_regs dev adr val m
    rw [snesStep, snesAccess, ha]
    exact ⟨rfl, rfl, rfl⟩
  | frame inputs => exact ⟨rfl, rfl, rfl⟩

theorem SnesRegs.Beam.of_same {s t : SnesRegs} (h : t.Beam) (hsame : s.SameBeam t) : s.Beam :=
  ⟨hsame.1 ▸ h.hPos, hsame.2.1 ▸ h.vPos⟩

theorem SnesRegs.SameBeam.beamAfter {s t : SnesRegs} (h : s.SameBeam t) (n : Nat) :
    s.beamAfter n = t.beamAfter n := by
  rw [SnesRegs.beamAfter, h.1, h.2.1]
  rfl

theorem advance_beam {s : SnesRegs} (h : s.Beam) :
    s.advance.Beam ∧ (s.advance.hPos, s.advance.vPos) = s.beamAfter 1 := by
  have hh := h.hPos
  have hv := h.vPos
  have hline : s.advance.vPos = (s.vPos + (s.hPos + 64) / 1364) % 262 := by
    simp only [SnesRegs.advance]
    split <;> omega
  refine ⟨⟨Nat.mod_lt _ (by decide), by omega⟩, ?_⟩
  rw [hline]
  rfl

/-- A poll further on, and then the rest. -/
theorem advance_beamAfter {s : SnesRegs} (h : s.Beam) (n : Nat) :
    s.advance.beamAfter n = s.beamAfter (n + 1) := by
  obtain ⟨-, hone⟩ := advance_beam h
  obtain ⟨hh, hv⟩ := Prod.mk.inj hone
  rw [SnesRegs.beamAfter, hh, hv, SnesRegs.beamAfter]
  exact Prod.ext (by dsimp only; omega) (by dsimp only; omega)

/-- What a poll shows of a beam: the horizontal and the vertical blank. -/
def beamBits (vblank : Bool) (beam : Nat × Nat) : Bool × Bool :=
  (decide (1024 ≤ beam.1), vblank || decide (225 ≤ beam.2))

theorem hvbjoy_bits (s : SnesRegs) :
    (s.hvbjoy.getLsbD 6, s.hvbjoy.getLsbD 7) = beamBits s.inVblank (s.hPos, s.vPos) := by
  simp [SnesRegs.hvbjoy, bitAt, beamBits]

/-- **The answers of `$4212`**: in every order of accesses the beam moves with the polls alone, and the
poll `k` shows where it is then. -/
theorem polls_bits {es : List SnesAccess} (hquiet : ∀ e ∈ es, e.Quiet) {m : Mem (SnesRegs × D)}
    (h : m.hw.1.Beam) :
    (answers dev (.readReg 0x4212) es m).map (fun b => (b.getLsbD 6, b.getLsbD 7)) =
      (List.range (es.count (.readReg 0x4212))).map fun k =>
        beamBits m.hw.1.inVblank (m.hw.1.beamAfter (k + 1)) := by
  induction es generalizing m with
  | nil => rfl
  | cons e es ih =>
    have hrest : ∀ e ∈ es, e.Quiet := fun f hf => hquiet f (List.mem_cons_of_mem e hf)
    rw [answers, List.map_append]
    by_cases hpoll : e = .readReg 0x4212
    · subst hpoll
      have hnext : (snesStep dev (.readReg 0x4212) m).hw.1 = m.hw.1.advance := rfl
      have hone : (snesAccess dev (.readReg 0x4212) m).1 = m.hw.1.advance.hvbjoy := rfl
      obtain ⟨hbeam, hfirst⟩ := advance_beam h
      rw [ih hrest (hnext ▸ hbeam), List.count_cons_self, List.range_succ_eq_map, List.map_cons,
        List.map_map, if_pos rfl, List.map_singleton, hone, hvbjoy_bits, hfirst, hnext]
      refine congrArg (beamBits m.hw.1.inVblank (m.hw.1.beamAfter 1) :: ·) (List.map_congr_left ?_)
      intro k _
      rw [advance_beamAfter h]
      rfl
    · have hsame := snesStep_beam dev (hquiet e List.mem_cons_self) hpoll m
      rw [if_neg hpoll, List.map_nil, List.nil_append, ih hrest (h.of_same hsame),
        List.count_cons_of_ne hpoll]
      refine List.map_congr_left fun k _ => ?_
      rw [hsame.beamAfter, hsame.2.2]

/-- Within 22 polls a line has both kinds of dots. -/
theorem exists_hblank {s : SnesRegs} (h : s.Beam) (b : Bool) :
    ∃ k < 22, decide (1024 ≤ (s.beamAfter (k + 1)).1) = b := by
  have hh := h.hPos
  simp only [SnesRegs.beamAfter]
  cases b with
  | false =>
    -- the first poll, or the first one of the next line
    by_cases hlow : s.hPos < 960
    · exact ⟨0, by omega, decide_eq_false (by omega)⟩
    · exact ⟨(1363 - s.hPos) / 64, by omega, decide_eq_false (by omega)⟩
  | true =>
    by_cases hlow : s.hPos < 1024
    · exact ⟨(1023 - s.hPos) / 64, by omega, decide_eq_true (by omega)⟩
    · exact ⟨(2387 - s.hPos) / 64, by omega, decide_eq_true (by omega)⟩

/-- Within 5584 polls the beam comes to every line. -/
theorem exists_line {s : SnesRegs} (h : s.Beam) {line : Nat} (hline : line < 262) :
    ∃ k < 5584, (s.beamAfter (k + 1)).2 = line := by
  have hh := h.hPos
  have hv := h.vPos
  -- the poll that enters the line, when it is `turns` lines on
  obtain ⟨turns, hpos, hle, hturns⟩ : ∃ turns, 1 ≤ turns ∧ turns ≤ 262 ∧ (s.vPos + turns) % 262 = line := by
    by_cases hlt : s.vPos < line
    · exact ⟨line - s.vPos, by omega, by omega, by omega⟩
    · exact ⟨line + 262 - s.vPos, by omega, by omega, by omega⟩
  refine ⟨(1364 * turns - 1 - s.hPos) / 64, by omega, ?_⟩
  have hlines : (s.hPos + 64 * ((1364 * turns - 1 - s.hPos) / 64 + 1)) / 1364 = turns := by omega
  rw [SnesRegs.beamAfter, hlines, hturns]

/-- The beam of a machine that was reset is in the frame. -/
theorem beam_of_reset {es : List SnesAccess} (hquiet : ∀ e ∈ es, e.Quiet) :
    ∀ {m : Mem (SnesRegs × D)}, m.hw.1.Beam → m.hw.1.inVblank = false →
      (Runs.final (snesStep dev) es m).hw.1.Beam ∧
        (Runs.final (snesStep dev) es m).hw.1.inVblank = false := by
  induction es with
  | nil => exact fun h hblank => ⟨h, hblank⟩
  | cons e es ih =>
    intro m h hblank
    refine ih (fun f hf => hquiet f (List.mem_cons_of_mem e hf)) ?_ ?_
    · by_cases hpoll : e = .readReg 0x4212
      · exact hpoll ▸ (advance_beam h).1
      · exact h.of_same (snesStep_beam dev (hquiet e List.mem_cons_self) hpoll m)
    · by_cases hpoll : e = .readReg 0x4212
      · exact hpoll ▸ hblank
      · exact (snesStep_beam dev (hquiet e List.mem_cons_self) hpoll m).2.2.trans hblank

/-- **A wait for the beam ends**: from a reset on, in every order of accesses, 22 polls of `$4212` show
the horizontal blank both on and off, and 5584 polls the vertical blank, wherever they start. -/
theorem polls_edges {es es' : List SnesAccess} (hquiet : ∀ e ∈ es ++ es', e.Quiet)
    {m : Mem (SnesRegs × D)} (hreset : m.hw.1 = m.hw.1.reset) (b : Bool) :
    let polls := answers dev (.readReg 0x4212) es' (Runs.final (snesStep dev) es m)
    (22 ≤ es'.count (.readReg 0x4212) → ∃ r ∈ polls, r.getLsbD 6 = b) ∧
      (5584 ≤ es'.count (.readReg 0x4212) → ∃ r ∈ polls, r.getLsbD 7 = b) := by
  intro polls
  have hstart : m.hw.1.Beam ∧ m.hw.1.inVblank = false := by
    rw [hreset]
    exact ⟨⟨Nat.zero_lt_succ 1363, Nat.zero_lt_succ 261⟩, rfl⟩
  obtain ⟨hbeam, hblank⟩ := beam_of_reset dev (fun e he => hquiet e (List.mem_append_left es' he))
    hstart.1 hstart.2
  have hbits := polls_bits dev (fun e he => hquiet e (List.mem_append_right es he)) hbeam
  -- the poll with a number shows the beam at that number
  have hpoll : ∀ k < es'.count (.readReg 0x4212), ∃ r ∈ polls, (r.getLsbD 6, r.getLsbD 7) =
      beamBits false ((Runs.final (snesStep dev) es m).hw.1.beamAfter (k + 1)) := by
    intro k hk
    have hmem : beamBits false ((Runs.final (snesStep dev) es m).hw.1.beamAfter (k + 1)) ∈
        polls.map fun b => (b.getLsbD 6, b.getLsbD 7) := by
      rw [hbits, hblank]
      exact List.mem_map.mpr ⟨k, List.mem_range.mpr hk, rfl⟩
    exact List.mem_map.mp hmem
  refine ⟨fun hmany => ?_, fun hmany => ?_⟩
  · obtain ⟨k, hk, hbit⟩ := exists_hblank hbeam b
    obtain ⟨r, hr, hshow⟩ := hpoll k (by omega)
    exact ⟨r, hr, (congrArg Prod.fst hshow).trans hbit⟩
  · obtain ⟨k, hk, hbit⟩ := exists_line hbeam (show (if b then 225 else 0) < 262 by cases b <;> decide)
    obtain ⟨r, hr, hshow⟩ := hpoll k (by omega)
    refine ⟨r, hr, (congrArg Prod.snd hshow).trans ?_⟩
    rw [beamBits, hbit]
    cases b <;> rfl

/-- Devices that do nothing, and a machine that was reset. -/
def stillDevices : SnesDevices Unit where
  readPort _ d := (0, d)
  writePort _ _ d := d
  latch d := d
  mdmaen _ m := m
  hdmaen _ d := d

def resetRegs : SnesRegs :=
  SnesRegs.reset ⟨0, 0, 0, 0, 0, false, false, false, 0, 0, false, false, false, false, 0, false, 0, 0, 0, 0⟩

def resetMachine : Mem (SnesRegs × Unit) := ⟨fun _ => 0, fun _ => 0, fun _ => 0, (resetRegs, ())⟩

/-- The wait for the vertical blank behind a reset. -/
theorem polls_edges_reset : ∃ r ∈ answers stillDevices (.readReg 0x4212)
    (List.replicate 5584 (.readReg 0x4212)) resetMachine, r.getLsbD 7 = true := by
  have hquiet : ∀ e ∈ [] ++ List.replicate 5584 (.readReg 0x4212), SnesAccess.Quiet e := by
    intro e he
    rw [List.eq_of_mem_replicate he]
    trivial
  refine (polls_edges stillDevices hquiet (m := resetMachine) rfl true).2 ?_
  rw [List.count_replicate_self]

/-! ### The multiplier and the divider -/

/-- What an access stores to a register. -/
def SnesAccess.stores (adr : Word) : SnesAccess → Option Byte
  | .writeReg a val => if a = adr then some val else none
  | _ => none

/-- The fields of the arithmetic unit. -/
def SnesRegs.arithmetic (s : SnesRegs) : Byte × Word × Word × Word :=
  (s.multiplyA, s.multiplyResult, s.divideA, s.divideResult)

theorem readReg_arithmetic (adr : Word) (s : SnesRegs) :
    (s.readReg adr).2.arithmetic = s.arithmetic := by
  unfold SnesRegs.readReg
  split <;> rfl

theorem writeReg_multiplyA (adr : Word) (val : Byte) (s : SnesRegs) :
    (s.writeReg adr val).multiplyA = if adr = 0x4202 then val else s.multiplyA := by
  by_cases h : adr = 0x4202
  · rw [h]
    rfl
  · rw [if_neg h, SnesRegs.writeReg]
    split
    all_goals first
      | rfl
      | exact absurd (BitVec.eq_of_toNat_eq ‹_›) h
      | (split <;> rfl)

theorem writeReg_divideA (adr : Word) (val : Byte) (s : SnesRegs) :
    (s.writeReg adr val).divideA =
      if adr = 0x4204 then setLow s.divideA val
      else if adr = 0x4205 then setHigh s.divideA val else s.divideA := by
  by_cases hlow : adr = 0x4204
  · rw [hlow]
    rfl
  by_cases hhigh : adr = 0x4205
  · rw [hhigh]
    rfl
  rw [if_neg hlow, if_neg hhigh, SnesRegs.writeReg]
  split
  all_goals first
    | rfl
    | exact absurd (BitVec.eq_of_toNat_eq ‹_›) hlow
    | exact absurd (BitVec.eq_of_toNat_eq ‹_›) hhigh
    | (split <;> rfl)

/-- The results only change where one of the two operations starts. -/
theorem writeReg_results {adr : Word} (hmul : adr ≠ 0x4203) (hdiv : adr ≠ 0x4206) (val : Byte)
    (s : SnesRegs) :
    (s.writeReg adr val).multiplyResult = s.multiplyResult ∧
      (s.writeReg adr val).divideResult = s.divideResult := by
  unfold SnesRegs.writeReg
  split
  all_goals first
    | exact ⟨rfl, rfl⟩
    | exact absurd (BitVec.eq_of_toNat_eq ‹_›) hmul
    | exact absurd (BitVec.eq_of_toNat_eq ‹_›) hdiv

theorem writeReg_divide {val : Byte} (h : val ≠ 0) (s : SnesRegs) :
    s.writeReg 0x4206 val = { s with
      divideResult := s.divideA / val.setWidth 16, multiplyResult := s.divideA % val.setWidth 16 } :=
  if_neg h

/-- Only stores to the internal registers reach the unit. -/
theorem snesStep_arithmetic {e : SnesAccess} (hquiet : e.Quiet) (m : Mem (SnesRegs × D)) :
    (snesStep dev e m).hw.1.arithmetic =
      match e with
      | .writeReg adr val => (m.hw.1.writeReg adr val).arithmetic
      | _ => m.hw.1.arithmetic := by
  cases e with
  | readReg adr => exact readReg_arithmetic adr _
  | writeReg adr val => rw [snesStep, snesAccess, snesWriteReg_regs dev hquiet]
  | readBBus adr =>
    obtain ⟨a, ha⟩ := snesReadBBus_regs dev adr m
    rw [snesStep, snesAccess, ha]
    rfl
  | writeBBus adr val =>
    obtain ⟨a, ha⟩ := snesWriteBBus_regs dev adr val m
    rw [snesStep, snesAccess, ha]
    rfl
  | frame inputs => rfl

theorem snesStep_multiplyA {e : SnesAccess} (hquiet : e.Quiet) (m : Mem (SnesRegs × D)) :
    (snesStep dev e m).hw.1.multiplyA = (e.stores 0x4202).getD m.hw.1.multiplyA := by
  refine (congrArg Prod.fst (snesStep_arithmetic dev hquiet m)).trans ?_
  cases e with
  | writeReg adr val =>
    refine (writeReg_multiplyA adr val _).trans ?_
    rw [SnesAccess.stores]
    split <;> rfl
  | _ => rfl

theorem snesStep_divideA {e : SnesAccess} (hquiet : e.Quiet) (m : Mem (SnesRegs × D)) :
    loByte (snesStep dev e m).hw.1.divideA = (e.stores 0x4204).getD (loByte m.hw.1.divideA) ∧
      hiByte (snesStep dev e m).hw.1.divideA = (e.stores 0x4205).getD (hiByte m.hw.1.divideA) := by
  have hunit := congrArg (fun a => a.2.2.1) (snesStep_arithmetic dev hquiet m)
  dsimp only [SnesRegs.arithmetic] at hunit
  rw [hunit]
  cases e with
  | writeReg adr val =>
    have hstore := writeReg_divideA adr val m.hw.1
    simp only [hstore, SnesAccess.stores]
    by_cases hlow : adr = 0x4204
    · simp [hlow]
    · by_cases hhigh : adr = 0x4205
      · simp [hhigh]
      · rw [if_neg hlow, if_neg hhigh, if_neg hlow, if_neg hhigh]
        exact ⟨rfl, rfl⟩
  | _ => exact ⟨rfl, rfl⟩

/-- The access starts no operation of the unit. -/
def SnesAccess.Leaves (e : SnesAccess) : Prop := e.stores 0x4203 = none ∧ e.stores 0x4206 = none

theorem snesStep_results {e : SnesAccess} (hquiet : e.Quiet) (hleaves : e.Leaves)
    (m : Mem (SnesRegs × D)) :
    ((snesStep dev e m).hw.1.multiplyResult, (snesStep dev e m).hw.1.divideResult) =
      (m.hw.1.multiplyResult, m.hw.1.divideResult) := by
  have hunit := congrArg (fun a => (a.2.1, a.2.2.2)) (snesStep_arithmetic dev hquiet m)
  refine hunit.trans ?_
  cases e with
  | writeReg adr val =>
    have hmul : adr ≠ 0x4203 := fun h => by simp [SnesAccess.Leaves, SnesAccess.stores, h] at hleaves
    have hdiv : adr ≠ 0x4206 := fun h => by simp [SnesAccess.Leaves, SnesAccess.stores, h] at hleaves
    obtain ⟨hresult, hquotient⟩ := writeReg_results hmul hdiv val m.hw.1
    exact Prod.ext hresult hquotient
  | _ => rfl

section Unit

variable {es fs : List SnesAccess} {m : Mem (SnesRegs × D)}

/-- Behind the operation the results stay until the next one. -/
theorem results_behind (hquiet : ∀ e ∈ fs, e.Quiet) (hleaves : ∀ e ∈ fs, e.Leaves) :
    (Runs.final (snesStep dev) fs m).hw.1.multiplyResult = m.hw.1.multiplyResult ∧
      (Runs.final (snesStep dev) fs m).hw.1.divideResult = m.hw.1.divideResult :=
  Prod.mk.inj (Runs.final_frame (snesStep dev)
    (fun m : Mem (SnesRegs × D) => (m.hw.1.multiplyResult, m.hw.1.divideResult)) m
    fun e he => snesStep_results dev (hquiet e he) (hleaves e he))

/-- The dividend is made of what was stored last. -/
theorem divideA_of_stores (hquiet : ∀ e ∈ es, e.Quiet) :
    (Runs.final (snesStep dev) es m).hw.1.divideA =
      mkWord ((Runs.latest (SnesAccess.stores 0x4204) es).getD (loByte m.hw.1.divideA))
        ((Runs.latest (SnesAccess.stores 0x4205) es).getD (hiByte m.hw.1.divideA)) := by
  rw [← mkWord_loByte_hiByte (Runs.final (snesStep dev) es m).hw.1.divideA]
  congr 1
  · exact Runs.final_latest (snesStep dev) (fun m : Mem (SnesRegs × D) => loByte m.hw.1.divideA) m
      fun e he m => (snesStep_divideA dev (hquiet e he) m).1
  · exact Runs.final_latest (snesStep dev) (fun m : Mem (SnesRegs × D) => hiByte m.hw.1.divideA) m
      fun e he m => (snesStep_divideA dev (hquiet e he) m).2

theorem toNat_wide (b : Byte) : (b.setWidth 16 : Word).toNat = b.toNat := by
  rw [BitVec.toNat_setWidth]
  exact Nat.mod_eq_of_lt (by omega)

/-- The word behind two registers. -/
def SnesRegs.readPair (s : SnesRegs) (adr : Word) : Word :=
  mkWord (s.readReg adr).1 (s.readReg (adr + 1)).1

theorem readPair_multiply (s : SnesRegs) : s.readPair 0x4216 = s.multiplyResult :=
  mkWord_loByte_hiByte s.multiplyResult

theorem readPair_divide (s : SnesRegs) : s.readPair 0x4214 = s.divideResult :=
  mkWord_loByte_hiByte s.divideResult

/-- **Products**: in every order of accesses, `$4216` answers the product of what was stored last to
`$4202` and of the store that started the operation. -/
theorem multiply_reads (hquiet : ∀ e ∈ es ++ fs, e.Quiet) (hleaves : ∀ e ∈ fs, e.Leaves) (b : Byte) :
    ((Runs.final (snesStep dev) (es ++ .writeReg 0x4203 b :: fs) m).hw.1.readPair 0x4216).toNat =
      ((Runs.latest (SnesAccess.stores 0x4202) es).getD m.hw.1.multiplyA).toNat * b.toNat := by
  have hes : ∀ e ∈ es, e.Quiet := fun e he => hquiet e (List.mem_append_left fs he)
  have hfs : ∀ e ∈ fs, e.Quiet := fun e he => hquiet e (List.mem_append_right es he)
  have ha := Runs.final_latest (snesStep dev) (fun m : Mem (SnesRegs × D) => m.hw.1.multiplyA) m
    fun e he m => snesStep_multiplyA dev (hes e he) m
  rw [Runs.final_append, Runs.final_cons, readPair_multiply, (results_behind dev hfs hleaves).1, ← ha]
  have hstart : (snesStep dev (.writeReg 0x4203 b) (Runs.final (snesStep dev) es m)).hw.1.multiplyResult =
      (Runs.final (snesStep dev) es m).hw.1.multiplyA.setWidth 16 * b.setWidth 16 := rfl
  -- the product of two bytes has no more than sixteen bits
  have hbound : (Runs.final (snesStep dev) es m).hw.1.multiplyA.toNat * b.toNat ≤ 255 * 255 :=
    Nat.mul_le_mul (by omega) (by omega)
  rw [hstart, BitVec.toNat_mul, toNat_wide, toNat_wide]
  exact Nat.mod_eq_of_lt (by omega)

/-- **Quotients**: in every order of accesses, `$4214` and `$4216` answer the quotient and the remainder
of the dividend that was stored last, and for a divisor of zero all ones and the dividend. -/
theorem divide_reads (hquiet : ∀ e ∈ es ++ fs, e.Quiet) (hleaves : ∀ e ∈ fs, e.Leaves) (b : Byte) :
    let s := (Runs.final (snesStep dev) (es ++ .writeReg 0x4206 b :: fs) m).hw.1
    let dividend := mkWord ((Runs.latest (SnesAccess.stores 0x4204) es).getD (loByte m.hw.1.divideA))
      ((Runs.latest (SnesAccess.stores 0x4205) es).getD (hiByte m.hw.1.divideA))
    (b = 0 → s.readPair 0x4214 = 0xFFFF ∧ s.readPair 0x4216 = dividend) ∧
      (b ≠ 0 → (s.readPair 0x4214).toNat * b.toNat + (s.readPair 0x4216).toNat = dividend.toNat ∧
        (s.readPair 0x4216).toNat < b.toNat) := by
  intro s dividend
  have hes : ∀ e ∈ es, e.Quiet := fun e he => hquiet e (List.mem_append_left fs he)
  have hfs : ∀ e ∈ fs, e.Quiet := fun e he => hquiet e (List.mem_append_right es he)
  obtain ⟨hresult, hquotient⟩ := results_behind dev (m := snesStep dev (.writeReg 0x4206 b)
    (Runs.final (snesStep dev) es m)) hfs hleaves
  have hs : s = (Runs.final (snesStep dev) fs
      (snesStep dev (.writeReg 0x4206 b) (Runs.final (snesStep dev) es m))).hw.1 := by
    rw [← Runs.final_cons, ← Runs.final_append]
  have hdividend : (Runs.final (snesStep dev) es m).hw.1.divideA = dividend := divideA_of_stores dev hes
  have hstart : (snesStep dev (.writeReg 0x4206 b) (Runs.final (snesStep dev) es m)).hw.1 =
      (Runs.final (snesStep dev) es m).hw.1.writeReg 0x4206 b := rfl
  rw [readPair_multiply, readPair_divide, hs, hresult, hquotient, ← hdividend, hstart]
  refine ⟨fun hzero => ?_, fun hb => ?_⟩
  · rw [hzero]
    exact ⟨rfl, rfl⟩
  · have hpos : 0 < b.toNat := Nat.pos_of_ne_zero fun h => hb (BitVec.eq_of_toNat_eq h)
    rw [writeReg_divide hb]
    dsimp only
    rw [BitVec.toNat_udiv, BitVec.toNat_umod, toNat_wide]
    exact ⟨Nat.div_add_mod' _ _, Nat.mod_lt _ hpos⟩

/-- `1000 / 7`, with a product started and read in between. -/
theorem divide_reads_thousand :
    let s := (Runs.final (snesStep stillDevices) ([.writeReg 0x4204 0xE8, .writeReg 0x4203 9,
      .writeReg 0x4205 0x03] ++ .writeReg 0x4206 7 :: [.readReg 0x4210, .readReg 0x4212]) resetMachine).hw.1
    (s.readPair 0x4214).toNat * 7 + (s.readPair 0x4216).toNat = 1000 ∧ (s.readPair 0x4216).toNat < 7 :=
  (divide_reads stillDevices (by simp [SnesAccess.Quiet])
    (by simp [SnesAccess.Leaves, SnesAccess.stores]) 7).2 (by decide)

end Unit

/-! ### The joypads -/

/-- A bit shifted in from below. -/
theorem getLsbD_shiftIn (r : Word) (x : Word) {i : Nat} (hi : i < 16) :
    (r * 2 + (x &&& 1)).getLsbD i = if i = 0 then x.getLsbD 0 else r.getLsbD (i - 1) := by
  have hbit : (x &&& 1).toNat = x.toNat % 2 := Nat.and_one_is_mod x.toNat
  have hsum : (r * 2 + (x &&& 1)).toNat = (2 * r.toNat + x.toNat % 2) % 2 ^ 16 := by
    have htwo : (2 : Word).toNat = 2 := rfl
    rw [BitVec.toNat_add, BitVec.toNat_mul, hbit, htwo]
    omega
  rw [BitVec.getLsbD, hsum, Nat.testBit_mod_two_pow, decide_eq_true hi, Bool.true_and]
  cases i with
  | zero =>
    rw [if_pos rfl, Nat.testBit_zero, BitVec.getLsbD, Nat.testBit_zero]
    congr 1
    exact propext (by omega)
  | succ i =>
    have hhalf : (2 * r.toNat + x.toNat % 2) / 2 = r.toNat := by omega
    rw [if_neg (Nat.succ_ne_zero i), Nat.testBit_succ, hhalf, Nat.add_sub_cancel]
    rfl

/-- The two sides of the loop after some turns. -/
theorem swapTurn_iterate (x : Word) (k : Nat) (hk : k ≤ 16) :
    (swapTurn^[k] (0, x)).2 = x >>> k ∧
      ∀ i < 16, (swapTurn^[k] (0, x)).1.getLsbD i = (decide (i < k) && x.getLsbD (k - 1 - i)) := by
  induction k with
  | zero => exact ⟨by simp, fun i _ => by simp⟩
  | succ k ih =>
    obtain ⟨hx, hr⟩ := ih (by omega)
    rw [Function.iterate_succ_apply']
    refine ⟨by rw [swapTurn, hx, BitVec.shiftRight_add], fun i hi => ?_⟩
    rw [swapTurn, getLsbD_shiftIn _ _ hi, hx, hr (i - 1) (by omega)]
    cases i with
    | zero => simp
    | succ i =>
      simp only [Nat.add_sub_cancel, Nat.add_one_ne_zero, if_false, Nat.add_lt_add_iff_right]
      congr 2
      omega

/-- The bits the other way round. -/
theorem getLsbD_swapInputBits (x : Word) {i : Nat} (hi : i < 16) :
    (swapInputBits x).getLsbD i = x.getLsbD (15 - i) := by
  rw [swapInputBits, (swapTurn_iterate x 16 le_rfl).2 i hi]
  rw [decide_eq_true hi, Bool.true_and]

/-- A mask of two bits next to each other. -/
def PairMask (n : Nat) (mask : BitVec 32) : Prop :=
  ∀ i < 32, mask.getLsbD i = (decide (i = n) || decide (i = n + 1))

instance (n : Nat) (mask : BitVec 32) : Decidable (PairMask n mask) :=
  inferInstanceAs (Decidable (∀ i < 32, _))

theorem and_eq_pairMask {n : Nat} (hn : n + 1 < 32) {mask : BitVec 32} (hmask : PairMask n mask)
    (inputs : BitVec 32) :
    decide (inputs &&& mask = mask) = (inputs.getLsbD n && inputs.getLsbD (n + 1)) := by
  rw [Bool.eq_iff_iff, decide_eq_true_iff, Bool.and_eq_true]
  constructor
  · intro hboth
    have hset : ∀ i < 32, mask.getLsbD i = true → inputs.getLsbD i = true := by
      intro i _ hi
      rw [← hboth, BitVec.getLsbD_and, Bool.and_eq_true] at hi
      exact hi.1
    exact ⟨hset n (by omega) (by simp [hmask n (by omega)]), hset (n + 1) hn (by simp [hmask _ hn])⟩
  · rintro ⟨hlow, hhigh⟩
    apply BitVec.eq_of_getLsbD_eq
    intro i hi
    rw [BitVec.getLsbD_and, hmask i hi]
    by_cases hin : i = n
    · rw [hin, hlow, Bool.true_and]
    by_cases hin' : i = n + 1
    · rw [hin', hhigh, Bool.true_and]
    simp [hin, hin']

theorem and_or_not_left (a b : Bool) : (a && (!a || !b)) = (a && !b) := by
  cases a <;> cases b <;> rfl

theorem and_or_not_right (a b : Bool) : (b && (!a || !b)) = (b && !a) := by
  cases a <;> cases b <;> rfl

/-- Both bits of a pair are dropped if both are set. -/
theorem getLsbD_dropBoth {n : Nat} (hn : n + 1 < 32) {mask : BitVec 32} (hmask : PairMask n mask)
    (inputs : BitVec 32) {i : Nat} (hi : i < 32) :
    (dropBoth mask inputs).getLsbD i = (inputs.getLsbD i &&
      !((decide (i = n) || decide (i = n + 1)) && (inputs.getLsbD n && inputs.getLsbD (n + 1)))) := by
  rw [← hmask i hi, ← and_eq_pairMask hn hmask, dropBoth]
  by_cases hboth : inputs &&& mask = mask
  · have hbit : mask.getLsbD i = true → inputs.getLsbD i = true := by
      intro hi
      rw [← hboth, BitVec.getLsbD_and, Bool.and_eq_true] at hi
      exact hi.1
    rw [if_pos hboth, BitVec.getLsbD_xor, decide_eq_true hboth]
    cases hm : mask.getLsbD i with
    | false => simp
    | true => simp [hbit hm]
  · rw [if_neg hboth, decide_eq_false hboth]
    simp

/-- A button of a joypad, unless it is a direction that is pressed together with its opposite. -/
def pressed (inputs : BitVec 32) (pad i : Nat) : Bool :=
  inputs.getLsbD (12 * pad + i) && !(decide (4 ≤ i ∧ i < 8) && inputs.getLsbD (12 * pad + (i ^^^ 1)))

theorem getLsbD_joypad (x : BitVec 32) {i : Nat} (hi : i < 12) :
    ((x &&& 0xFFF).setWidth 16).getLsbD i = x.getLsbD i := by
  have hmask : ∀ i < 12, (0xFFF : BitVec 32).getLsbD i = true := by decide
  rw [BitVec.getLsbD_setWidth, BitVec.getLsbD_and, hmask i hi, decide_eq_true (by omega : i < 16)]
  simp

theorem getLsbD_runFrameInputs (inputs : BitVec 32) (s : SnesRegs) {i : Nat} (hi : i < 12) :
    (runFrameInputs inputs s).input1.getLsbD i = pressed inputs 0 i ∧
      (runFrameInputs inputs s).input2.getLsbD i = pressed inputs 1 i := by
  have h30 : PairMask 4 0x30 := by decide
  have hC0 : PairMask 6 0xC0 := by decide
  have h30000 : PairMask 16 0x30000 := by decide
  have hC0000 : PairMask 18 0xC0000 := by decide
  have hbits : ∀ j < 32, (dropBoth 0xC0000 (dropBoth 0x30000 (dropBoth 0xC0 (dropBoth 0x30 inputs)))).getLsbD j =
      (inputs.getLsbD j && !((decide (4 ≤ j ∧ j < 8) || decide (16 ≤ j ∧ j < 20)) &&
        inputs.getLsbD (j ^^^ 1))) := by
    intro j hj
    simp (disch := omega) only [getLsbD_dropBoth (by decide) h30, getLsbD_dropBoth (by decide) hC0,
      getLsbD_dropBoth (by decide) h30000, getLsbD_dropBoth (by decide) hC0000]
    interval_cases j <;> simp [and_or_not_left, and_or_not_right]
  have hfirst : (runFrameInputs inputs s).input1.getLsbD i = (dropBoth 0xC0000
      (dropBoth 0x30000 (dropBoth 0xC0 (dropBoth 0x30 inputs)))).getLsbD i :=
    getLsbD_joypad _ hi
  have hsecond : (runFrameInputs inputs s).input2.getLsbD i = (dropBoth 0xC0000
      (dropBoth 0x30000 (dropBoth 0xC0 (dropBoth 0x30 inputs)))).getLsbD (12 + i) :=
    (getLsbD_joypad _ hi).trans (BitVec.getLsbD_ushiftRight _ _ _)
  rw [hfirst, hsecond, hbits i (by omega), hbits (12 + i) (by omega)]
  constructor
  · interval_cases i <;> simp [pressed]
  · interval_cases i <;> simp [pressed]

/-- The joypads are what the last frame began with. -/
theorem snesStep_inputs {e : SnesAccess} (hquiet : e.Quiet) (hframe : ∀ inputs, e ≠ .frame inputs)
    (m : Mem (SnesRegs × D)) :
    ((snesStep dev e m).hw.1.input1, (snesStep dev e m).hw.1.input2) =
      (m.hw.1.input1, m.hw.1.input2) := by
  cases e with
  | readReg adr =>
    rw [snesStep, snesAccess, snesReadReg, setRegs_fst, SnesRegs.readReg]
    split <;> rfl
  | writeReg adr val =>
    rw [snesStep, snesAccess, snesWriteReg_regs dev hquiet, SnesRegs.writeReg]
    split
    all_goals first
      | rfl
      | (split <;> rfl)
  | readBBus adr =>
    obtain ⟨a, ha⟩ := snesReadBBus_regs dev adr m
    rw [snesStep, snesAccess, ha]
  | writeBBus adr val =>
    obtain ⟨a, ha⟩ := snesWriteBBus_regs dev adr val m
    rw [snesStep, snesAccess, ha]
  | frame inputs => exact absurd rfl (hframe inputs)

theorem readPair_joypads (s : SnesRegs) :
    s.readPair 0x4218 = swapInputBits s.input1 ∧ s.readPair 0x421A = swapInputBits s.input2 :=
  ⟨mkWord_loByte_hiByte _, mkWord_loByte_hiByte _⟩

/-- **The joypad registers**: until the next frame begins, and in every order of accesses, they show the
buttons of the host from the top bit down, each direction only without its opposite. -/
theorem joypad_reads {es es' : List SnesAccess} {inputs : BitVec 32} (hquiet : ∀ e ∈ es', e.Quiet)
    (hframe : ∀ e ∈ es', ∀ inputs, e ≠ .frame inputs) {m : Mem (SnesRegs × D)} {i : Nat} (hi : i < 12) :
    let s := (Runs.final (snesStep dev) (es ++ .frame inputs :: es') m).hw.1
    (s.readPair 0x4218).getLsbD (15 - i) = pressed inputs 0 i ∧
      (s.readPair 0x421A).getLsbD (15 - i) = pressed inputs 1 i := by
  intro s
  have hkept := Runs.final_frame (snesStep dev)
    (fun m : Mem (SnesRegs × D) => (m.hw.1.input1, m.hw.1.input2))
    (snesStep dev (.frame inputs) (Runs.final (snesStep dev) es m))
    fun e he => snesStep_inputs dev (hquiet e he) (hframe e he)
  rw [← Runs.final_cons, ← Runs.final_append] at hkept
  obtain ⟨hfirst, hsecond⟩ := Prod.mk.inj hkept
  obtain ⟨hbit, hbit'⟩ := getLsbD_runFrameInputs inputs (Runs.final (snesStep dev) es m).hw.1 hi
  obtain ⟨hpad, hpad'⟩ := readPair_joypads s
  have hi' : 15 - (15 - i) = i := by omega
  rw [hpad, hpad', getLsbD_swapInputBits _ (by omega), getLsbD_swapInputBits _ (by omega), hi', hfirst,
    hsecond]
  exact ⟨hbit, hbit'⟩

/-- Up, Down and a button, and Left alone for the second player. -/
theorem joypad_reads_frame : (((Runs.final (snesStep stillDevices) ([] ++ .frame 0x40031 ::
    [.readReg 0x4212, .writeReg 0x4200 1]) resetMachine).hw.1.readPair 0x421A).getLsbD (15 - 6)) = true :=
  (joypad_reads stillDevices (by simp [SnesAccess.Quiet]) (by simp) (show 6 < 12 by decide)).2.trans
    (by decide)

/-! ### The port to WRAM -/

/-- The access reaches the port. -/
def SnesAccess.MovesPort : SnesAccess → Prop
  | .readBBus adr => adr = 0x80
  | .writeBBus adr _ => 0x80 ≤ adr.toNat ∧ adr.toNat ≤ 0x83
  | _ => False

/-- The bytes that are stored through the port. -/
def portStores (es : List SnesAccess) : List Byte :=
  es.filterMap fun
    | .writeBBus adr val => if adr = 0x80 then some val else none
    | _ => none

/-- Bytes one after the other, round the end of WRAM. -/
def portFill : List Byte → Nat → (Nat → Byte) → Nat → Byte
  | [], _, ram => ram
  | v :: vs, a, ram => portFill vs (a + 1) (Function.update ram (a % 0x20000) v)

theorem portFill_of_notMem {vs : List Byte} {a n : Nat} {ram : Nat → Byte}
    (h : ∀ k < vs.length, n ≠ (a + k) % 0x20000) : portFill vs a ram n = ram n := by
  induction vs generalizing a ram with
  | nil => rfl
  | cons v vs ih =>
    have hfirst : n ≠ a % 0x20000 := h 0 (Nat.zero_lt_succ _)
    rw [portFill, ih, Function.update_of_ne hfirst]
    intro k hk
    rw [Nat.add_assoc, Nat.add_comm 1 k]
    exact h (k + 1) (Nat.succ_lt_succ hk)

theorem portFill_getElem {vs : List Byte} (hlen : vs.length ≤ 0x20000) (a : Nat) (ram : Nat → Byte) {k : Nat}
    (hk : k < vs.length) : portFill vs a ram ((a + k) % 0x20000) = vs[k] := by
  induction vs generalizing a ram k with
  | nil => exact absurd hk (Nat.not_lt_zero k)
  | cons v vs ih =>
    rw [List.length_cons] at hlen hk
    cases k with
    | zero =>
      rw [portFill, portFill_of_notMem (fun j hj => by omega), Nat.add_zero, Function.update_self]
      rfl
    | succ k =>
      have hcell : a + (k + 1) = a + 1 + k := by omega
      rw [portFill, hcell, ih (by omega) (a + 1) _ (by omega)]
      exact (List.getElem_cons_succ ..).symm

/-- The address of the port, where its three registers were stored. -/
def portAddress (lo mid hi : Byte) : Nat := lo.toNat + 256 * mid.toNat + 65536 * (hi.toNat % 2)

/-- The three stores. -/
def setPort (lo mid hi : Byte) : List SnesAccess := [.writeBBus 0x81 lo, .writeBBus 0x82 mid, .writeBBus 0x83 hi]

theorem runFrameInputs_ramAdr (inputs : BitVec 32) (s : SnesRegs) :
    (runFrameInputs inputs s).ramAdr = s.ramAdr := rfl

/-- An access that does not reach the port leaves it and WRAM alone. -/
theorem snesStep_port {e : SnesAccess} (hquiet : e.Quiet) (hport : ¬ e.MovesPort) (m : Mem (SnesRegs × D)) :
    (snesStep dev e m).hw.1.ramAdr = m.hw.1.ramAdr ∧ (snesStep dev e m).ram = m.ram := by
  cases e with
  | readReg adr =>
    rw [snesStep, snesAccess, snesReadReg, setRegs_fst, SnesRegs.readReg]
    split <;> exact ⟨rfl, rfl⟩
  | writeReg adr val =>
    rw [snesStep, snesAccess, snesWriteReg_regs dev hquiet, snesWriteReg_ram dev hquiet,
      SnesRegs.writeReg]
    split
    all_goals first
      | exact ⟨rfl, rfl⟩
      | (split <;> exact ⟨rfl, rfl⟩)
  | readBBus adr =>
    have hadr : adr ≠ 0x80 := hport
    rw [snesStep, snesAccess, snesReadBBus, if_neg hadr]
    split <;> exact ⟨rfl, rfl⟩
  | writeBBus adr val =>
    have hadr : ¬ (0x80 ≤ adr.toNat ∧ adr.toNat ≤ 0x83) := hport
    simp only [snesStep, snesAccess, snesWriteBBus]
    split
    next => exact ⟨rfl, rfl⟩
    next =>
      split
      all_goals first
        | exact ⟨rfl, rfl⟩
        | (exfalso; omega)
  | frame inputs => exact ⟨rfl, rfl⟩

/-- Masked counters. -/
theorem and_wram (a : BitVec 32) : (a &&& 0x1FFFF).toNat = a.toNat % 0x20000 := by
  rw [BitVec.toNat_and]
  exact Nat.and_two_pow_sub_one_eq_mod a.toNat 17

theorem and_wram_of_lt {a : BitVec 32} (h : a.toNat < 0x20000) : a &&& 0x1FFFF = a :=
  BitVec.eq_of_toNat_eq ((and_wram a).trans (Nat.mod_eq_of_lt h))

theorem wram_succ {a : BitVec 32} (h : a.toNat < 0x20000) :
    ((a + 1) &&& 0x1FFFF).toNat = (a.toNat + 1) % 0x20000 := by
  rw [and_wram, BitVec.toNat_add]
  exact congrArg (· % 0x20000) (Nat.mod_eq_of_lt (show a.toNat + 1 < 2 ^ 32 by omega))

/-- A read through the port. -/
theorem snesStep_readPort {m : Mem (SnesRegs × D)} (h : m.hw.1.ramAdr.toNat < 0x20000) :
    (snesAccess dev (.readBBus 0x80) m).1 = m.ram m.hw.1.ramAdr.toNat ∧
      (snesStep dev (.readBBus 0x80) m).hw.1.ramAdr.toNat = (m.hw.1.ramAdr.toNat + 1) % 0x20000 ∧
      (snesStep dev (.readBBus 0x80) m).ram = m.ram :=
  ⟨rfl, wram_succ h, rfl⟩

/-- A store through the port. -/
theorem snesStep_writePort {m : Mem (SnesRegs × D)} (h : m.hw.1.ramAdr.toNat < 0x20000) (val : Byte) :
    (snesStep dev (.writeBBus 0x80 val) m).hw.1.ramAdr.toNat = (m.hw.1.ramAdr.toNat + 1) % 0x20000 ∧
      (snesStep dev (.writeBBus 0x80 val) m).ram = Function.update m.ram m.hw.1.ramAdr.toNat val := by
  have hstep : snesStep dev (.writeBBus 0x80 val) m =
      setRegs { m.hw.1 with ramAdr := ((m.hw.1.ramAdr &&& 0x1FFFF) + 1) &&& 0x1FFFF }
        (m.setRam (m.hw.1.ramAdr &&& 0x1FFFF).toNat val) := rfl
  rw [hstep, and_wram_of_lt h]
  exact ⟨wram_succ h, rfl⟩

theorem portFill_mod (vs : List Byte) (a : Nat) (ram : Nat → Byte) :
    portFill vs (a % 0x20000) ram = portFill vs a ram := by
  induction vs generalizing a ram with
  | nil => rfl
  | cons v vs ih =>
    have hnext : (a % 0x20000 + 1) % 0x20000 = (a + 1) % 0x20000 := by omega
    rw [portFill, portFill, Nat.mod_mod, ← ih, hnext, ih]

/-- The stores of a run fill WRAM, whatever is in between. -/
theorem port_stores {es : List SnesAccess}
    (hes : ∀ e ∈ es, e.Quiet ∧ (e.MovesPort → ∃ val, e = .writeBBus 0x80 val)) :
    ∀ {m : Mem (SnesRegs × D)}, m.hw.1.ramAdr.toNat < 0x20000 →
      (Runs.final (snesStep dev) es m).ram = portFill (portStores es) m.hw.1.ramAdr.toNat m.ram := by
  induction es with
  | nil => exact fun _ => rfl
  | cons e es ih =>
    intro m h
    have hrest := fun f hf => hes f (List.mem_cons_of_mem e hf)
    obtain ⟨hquiet, hport⟩ := hes e List.mem_cons_self
    rw [Runs.final_cons]
    by_cases hmoves : e.MovesPort
    · obtain ⟨val, rfl⟩ := hport hmoves
      obtain ⟨hadr, hram⟩ := snesStep_writePort dev h val
      have hstores : portStores (.writeBBus 0x80 val :: es) = val :: portStores es := rfl
      rw [ih hrest (by omega), hadr, hram, hstores, portFill, portFill_mod, Nat.mod_eq_of_lt h]
    · obtain ⟨hadr, hram⟩ := snesStep_port dev hquiet hmoves m
      have hstores : portStores (e :: es) = portStores es := by
        cases e with
        | writeBBus adr val =>
          have hadr : adr ≠ 0x80 := fun hadr => hmoves (by simp [SnesAccess.MovesPort, hadr])
          exact List.filterMap_cons_none (if_neg hadr)
        | _ => rfl
      rw [ih hrest (by rw [hadr]; exact h), hadr, hram, hstores]

/-- The reads of a run follow each other, and leave WRAM alone. -/
theorem port_reads {es : List SnesAccess}
    (hes : ∀ e ∈ es, e.Quiet ∧ (e.MovesPort → e = .readBBus 0x80)) :
    ∀ {m : Mem (SnesRegs × D)}, m.hw.1.ramAdr.toNat < 0x20000 →
      answers dev (.readBBus 0x80) es m = (List.range (es.count (.readBBus 0x80))).map fun k =>
        m.ram ((m.hw.1.ramAdr.toNat + k) % 0x20000) := by
  induction es with
  | nil => exact fun _ => rfl
  | cons e es ih =>
    intro m h
    have hrest := fun f hf => hes f (List.mem_cons_of_mem e hf)
    obtain ⟨hquiet, hport⟩ := hes e List.mem_cons_self
    rw [answers]
    by_cases hread : e = .readBBus 0x80
    · subst hread
      obtain ⟨hval, hadr, hram⟩ := snesStep_readPort dev h
      rw [if_pos rfl, hval, ih hrest (by omega), hadr, hram, List.count_cons_self,
        List.range_succ_eq_map, List.map_cons, List.map_map]
      have hfirst : (m.hw.1.ramAdr.toNat + 0) % 0x20000 = m.hw.1.ramAdr.toNat := Nat.mod_eq_of_lt h
      rw [hfirst]
      refine congrArg (m.ram m.hw.1.ramAdr.toNat :: ·) (List.map_congr_left fun k _ => ?_)
      have hcell : ((m.hw.1.ramAdr.toNat + 1) % 0x20000 + k) % 0x20000 =
          (m.hw.1.ramAdr.toNat + (k + 1)) % 0x20000 := by omega
      exact congrArg m.ram hcell
    · obtain ⟨hadr, hram⟩ := snesStep_port dev hquiet (fun hmoves => hread (hport hmoves)) m
      rw [if_neg hread, List.nil_append, ih hrest (by rw [hadr]; exact h), hadr, hram,
        List.count_cons_of_ne hread]

/-- The address behind the three stores. -/
def portFields (a : BitVec 32) (lo mid hi : Byte) : BitVec 32 :=
  let low := (a &&& 0x1FF00) ||| lo.setWidth 32
  let middle := (low &&& 0x100FF) ||| (mid.setWidth 32 <<< 8)
  (middle &&& 0x0FFFF) ||| ((hi &&& 1).setWidth 32 <<< 16)

/-- The three fields are next to each other. -/
theorem portFields_toNat (a : BitVec 32) (lo mid hi : Byte) :
    (portFields a lo mid hi).toNat = portAddress lo mid hi := by
  have hfields : portFields a lo mid hi =
      ((hi &&& 1).setWidth 32 <<< 16) ||| (mkWord lo mid).setWidth 32 := by
    apply BitVec.eq_of_getLsbD_eq
    intro i hi
    interval_cases i <;> simp [portFields, mkWord]
  have hword := (mkWord lo mid).isLt
  have hlow : ((mkWord lo mid).setWidth 32).toNat = (mkWord lo mid).toNat := by
    rw [BitVec.toNat_setWidth]
    exact Nat.mod_eq_of_lt (by omega)
  have hhigh : ((hi &&& 1).setWidth 32 <<< 16).toNat = (hi.toNat % 2) <<< 16 := by
    have hbit : (hi &&& 1).toNat = hi.toNat % 2 := Nat.and_one_is_mod hi.toNat
    rw [BitVec.toNat_shiftLeft, BitVec.toNat_setWidth, hbit, Nat.shiftLeft_eq, Nat.shiftLeft_eq]
    omega
  rw [hfields, BitVec.toNat_or, hlow, hhigh, ← Nat.shiftLeft_add_eq_or_of_lt hword, mkWord_toNat,
    Nat.shiftLeft_eq, portAddress]
  omega

/-- The three stores set the address, whatever it was. -/
theorem final_setPort (lo mid hi : Byte) (m : Mem (SnesRegs × D)) :
    (Runs.final (snesStep dev) (setPort lo mid hi) m).hw.1.ramAdr.toNat = portAddress lo mid hi ∧
      (Runs.final (snesStep dev) (setPort lo mid hi) m).ram = m.ram :=
  ⟨portFields_toNat m.hw.1.ramAdr lo mid hi, rfl⟩

theorem portAddress_lt (lo mid hi : Byte) : portAddress lo mid hi < 0x20000 := by
  rw [portAddress]
  omega

/-- **What is stored through the port is read back from it**, in every order of accesses with nothing
else at the port, and no other byte of WRAM changes. -/
theorem wramPort_reads {es fs : List SnesAccess} (lo mid hi : Byte) {m : Mem (SnesRegs × D)}
    (hes : ∀ e ∈ es, e.Quiet ∧ (e.MovesPort → ∃ val, e = .writeBBus 0x80 val))
    (hfs : ∀ e ∈ fs, e.Quiet ∧ (e.MovesPort → e = .readBBus 0x80))
    (hlen : (portStores es).length ≤ 0x20000)
    (hcount : fs.count (.readBBus 0x80) ≤ (portStores es).length) :
    let stored := Runs.final (snesStep dev) (setPort lo mid hi ++ es) m
    answers dev (.readBBus 0x80) fs (Runs.final (snesStep dev) (setPort lo mid hi) stored) =
        (portStores es).take (fs.count (.readBBus 0x80)) ∧
      ∀ n, (∀ k < (portStores es).length, n ≠ (portAddress lo mid hi + k) % 0x20000) →
        stored.ram n = m.ram n := by
  intro stored
  obtain ⟨hadr, hram⟩ := final_setPort dev lo mid hi m
  obtain ⟨hadr', hram'⟩ := final_setPort dev lo mid hi stored
  have hlt := portAddress_lt lo mid hi
  have hfill : stored.ram = portFill (portStores es) (portAddress lo mid hi) m.ram := by
    rw [← hram, ← hadr, ← port_stores dev hes (by rw [hadr]; exact hlt), ← Runs.final_append]
  refine ⟨?_, fun n hn => by rw [hfill, portFill_of_notMem hn]⟩
  rw [port_reads dev hfs (by rw [hadr']; exact hlt), hadr', hram', hfill]
  apply List.ext_getElem
  · rw [List.length_map, List.length_range, List.length_take, Nat.min_eq_left hcount]
  · intro k hk hk'
    rw [List.length_map, List.length_range] at hk
    rw [List.getElem_map, List.getElem_range, List.getElem_take]
    exact portFill_getElem hlen _ _ (by omega)

/-- Three bytes across the end of WRAM. -/
theorem wramPort_reads_end :
    let es : List SnesAccess := [.writeBBus 0x80 1, .readReg 0x4212, .writeBBus 0x80 2, .writeBBus 0x80 3]
    let stored := Runs.final (snesStep stillDevices) (setPort 0xFF 0xFF 1 ++ es) resetMachine
    answers stillDevices (.readBBus 0x80) [.readBBus 0x80, .readBBus 0x80, .readBBus 0x80]
      (Runs.final (snesStep stillDevices) (setPort 0xFF 0xFF 1) stored) = [1, 2, 3] :=
  (wramPort_reads stillDevices 0xFF 0xFF 1 (by simp [SnesAccess.Quiet, SnesAccess.MovesPort])
    (by simp [SnesAccess.Quiet, SnesAccess.MovesPort]) (by decide) (by decide)).1

end SnesRecomp
