import SnesRecomp.Runtime.Bus
import Mathlib.Tactic.IntervalCases

/-!
# Words through the register window

`ReadReg` and `WriteReg` of `common_rtl.c` over the devices a word access treats specially: the
VRAM port of `snes/ppu.c`, the APU ports with the write scheduler of `RtlApuWrite`, and the WRAM
data port.  Every other register is `RestIo`.

`writeRegWord` stores to `$2118` past the port and to the APU ports in the other order.  A word
store to `$2118` is the two byte stores, whatever the value and the VRAM hold, exactly when the
port steps on the high byte and the remap leaves the address alone (`writeVramWord_iff`).
-/

namespace SnesRecomp

/-! ### The VRAM port -/

/-- The fields of `Ppu` behind `$2115-$2119`, `$2139` and `$213A`. -/
structure VramPort where
  vram : BitVec 15 → Word
  vramPointer : Word
  vramIncrementOnHigh : Bool
  vramRemapMode : BitVec 2
  vramIncrement : Byte
  vramReadBuffer : Word

/-- `adr & 0x7fff`. -/
def vramIndex (adr : Word) : BitVec 15 := adr.setWidth 15

def vramRemap (vramRemapMode : BitVec 2) (adr : Word) : Word :=
  if vramRemapMode = 1 then (adr &&& 0xFF00) ||| ((adr &&& 0xE0) >>> 5) ||| ((adr &&& 0x1F) <<< 3)
  else if vramRemapMode = 2 then
    (adr &&& 0xFE00) ||| ((adr &&& 0x1C0) >>> 6) ||| ((adr &&& 0x3F) <<< 3)
  else if vramRemapMode = 3 then
    (adr &&& 0xFC00) ||| ((adr &&& 0x380) >>> 7) ||| ((adr &&& 0x7F) <<< 3)
  else adr

namespace VramPort

/-- `ppu_getVramRemap`. -/
def getVramRemap (ppu : VramPort) : Word := vramRemap ppu.vramRemapMode ppu.vramPointer

def step (ppu : VramPort) : VramPort :=
  { ppu with vramPointer := ppu.vramPointer + ppu.vramIncrement.setWidth 16 }

def stepIf (c : Bool) (ppu : VramPort) : VramPort := if c then ppu.step else ppu

def prefetch (ppu : VramPort) : VramPort :=
  { ppu with vramReadBuffer := ppu.vram (vramIndex ppu.getVramRemap) }

def setVram (ppu : VramPort) (i : BitVec 15) (v : Word) : VramPort :=
  { ppu with vram := Function.update ppu.vram i v }

/-- `ppu_write` for `$2115`. -/
def writeVmain (val : Byte) (ppu : VramPort) : VramPort :=
  { ppu with
    vramIncrement := if val &&& 3 = 0 then 1 else if val &&& 3 = 1 then 32 else 128
    vramRemapMode := (val >>> 2).setWidth 2
    vramIncrementOnHigh := val.getLsbD 7 }

/-- `ppu_write` for `$2116`. -/
def writeVmaddl (val : Byte) (ppu : VramPort) : VramPort :=
  { ppu with vramPointer := (ppu.vramPointer &&& 0xFF00) ||| val.setWidth 16 }.prefetch

/-- `ppu_write` for `$2117`. -/
def writeVmaddh (val : Byte) (ppu : VramPort) : VramPort :=
  { ppu with vramPointer := (ppu.vramPointer &&& 0x00FF) ||| (val.setWidth 16 <<< 8) }.prefetch

/-- `ppu_write` for `$2118`. -/
def writeVmdatal (val : Byte) (ppu : VramPort) : VramPort :=
  let i := vramIndex ppu.getVramRemap
  (ppu.setVram i (mkWord val (hiByte (ppu.vram i)))).stepIf !ppu.vramIncrementOnHigh

/-- `ppu_write` for `$2119`. -/
def writeVmdatah (val : Byte) (ppu : VramPort) : VramPort :=
  let i := vramIndex ppu.getVramRemap
  (ppu.setVram i (mkWord (loByte (ppu.vram i)) val)).stepIf ppu.vramIncrementOnHigh

/-- `ppu_read` for `$2139`. -/
def readVmdatal (ppu : VramPort) : Byte × VramPort :=
  (loByte ppu.vramReadBuffer, if ppu.vramIncrementOnHigh then ppu else ppu.prefetch.step)

/-- `ppu_read` for `$213A`. -/
def readVmdatah (ppu : VramPort) : Byte × VramPort :=
  (hiByte ppu.vramReadBuffer, if ppu.vramIncrementOnHigh then ppu.prefetch.step else ppu)

/-- `WriteVramWord`: no remap, and always one step. -/
def writeVramWord (value : Word) (ppu : VramPort) : VramPort :=
  (ppu.setVram (vramIndex ppu.vramPointer) value).step

/-- The two byte stores of the interpreter. -/
def writeVramBytes (value : Word) (ppu : VramPort) : VramPort :=
  (ppu.writeVmdatal (loByte value)).writeVmdatah (hiByte value)

/-- The settings under which `WriteVramWord` does what the port does. -/
def Plain (ppu : VramPort) : Prop :=
  ppu.vramIncrementOnHigh = true ∧ vramIndex ppu.getVramRemap = vramIndex ppu.vramPointer

instance (ppu : VramPort) : Decidable ppu.Plain := inferInstanceAs (Decidable (_ ∧ _))

@[simp]
theorem getVramRemap_setVram (ppu : VramPort) (i : BitVec 15) (v : Word) :
    (ppu.setVram i v).getVramRemap = ppu.getVramRemap := rfl

@[simp]
theorem setVram_vram_self (ppu : VramPort) (i : BitVec 15) (v : Word) :
    (ppu.setVram i v).vram i = v := by
  simp only [setVram, Function.update_self]

@[simp]
theorem setVram_setVram (ppu : VramPort) (i : BitVec 15) (v w : Word) :
    (ppu.setVram i v).setVram i w = ppu.setVram i w := by
  simp only [setVram, Function.update_idem]

theorem writeVmdatal_of_onHigh {ppu : VramPort} (h : ppu.vramIncrementOnHigh = true) (val : Byte) :
    ppu.writeVmdatal val =
      ppu.setVram (vramIndex ppu.getVramRemap)
        (mkWord val (hiByte (ppu.vram (vramIndex ppu.getVramRemap)))) := by
  simp [writeVmdatal, stepIf, h]

/-- With the step on the high byte both bytes land in the word the remap names. -/
theorem writeVramBytes_of_onHigh {ppu : VramPort} (h : ppu.vramIncrementOnHigh = true)
    (value : Word) :
    ppu.writeVramBytes value = (ppu.setVram (vramIndex ppu.getVramRemap) value).step := by
  have hHigh (i : BitVec 15) (v : Word) : (ppu.setVram i v).vramIncrementOnHigh = true := h
  rw [writeVramBytes, writeVmdatal_of_onHigh h, writeVmdatah]
  simp only [getVramRemap_setVram, setVram_vram_self, setVram_setVram, loByte_mkWord,
    mkWord_loByte_hiByte, stepIf, hHigh, if_true]

/-- With the step on the low byte the high byte lands one step further. -/
theorem writeVramBytes_of_onLow {ppu : VramPort} (h : ppu.vramIncrementOnHigh = false)
    (value : Word) :
    ppu.writeVramBytes value =
      let i := vramIndex ppu.getVramRemap
      let next := (ppu.setVram i (mkWord (loByte value) (hiByte (ppu.vram i)))).step
      let j := vramIndex next.getVramRemap
      next.setVram j (mkWord (loByte (next.vram j)) (hiByte value)) := by
  simp [writeVramBytes, writeVmdatal, writeVmdatah, stepIf, step, setVram, h]

theorem writeVramWord_eq_writeVramBytes {ppu : VramPort} (h : ppu.Plain) (value : Word) :
    ppu.writeVramWord value = ppu.writeVramBytes value := by
  rw [writeVramBytes_of_onHigh h.1, writeVramWord, h.2]

/-! ### The remap permutes VRAM -/

/-- A remap rotates the low `7 + vramRemapMode` bits left by three. -/
theorem getLsbD_vramRemap {mode : BitVec 2} (hMode : mode ≠ 0) (adr : Word) {k : Nat}
    (hk : k < 16) :
    (vramRemap mode adr).getLsbD k =
      adr.getLsbD (if 7 + mode.toNat ≤ k then k else if k < 3 then k + 4 + mode.toNat else k - 3) := by
  have hModes : mode = 1 ∨ mode = 2 ∨ mode = 3 := by
    have := mode.isLt
    have hne : mode.toNat ≠ 0 := fun h => hMode (BitVec.eq_of_toNat_eq h)
    rcases (by omega : mode.toNat = 1 ∨ mode.toNat = 2 ∨ mode.toNat = 3) with h | h | h
    · exact Or.inl (BitVec.eq_of_toNat_eq h)
    · exact Or.inr (Or.inl (BitVec.eq_of_toNat_eq h))
    · exact Or.inr (Or.inr (BitVec.eq_of_toNat_eq h))
  rcases hModes with rfl | rfl | rfl
  · interval_cases k <;> simp [vramRemap]
  · interval_cases k <;> simp [vramRemap]
  · interval_cases k <;> simp [vramRemap]

theorem vramIndex_eq_iff (adr adr' : Word) :
    vramIndex adr = vramIndex adr' ↔ ∀ k < 15, adr.getLsbD k = adr'.getLsbD k := by
  constructor
  · intro h k hk
    have hbit := congrArg (fun i => i.getLsbD k) h
    simpa [vramIndex, hk] using hbit
  · intro h
    apply BitVec.eq_of_getLsbD_eq
    intro k hk
    simp [vramIndex, hk, h k hk]

/-- Two addresses that remap to one word of VRAM are one word of VRAM. -/
theorem vramIndex_of_vramRemap {mode : BitVec 2} {adr adr' : Word}
    (h : vramIndex (vramRemap mode adr) = vramIndex (vramRemap mode adr')) :
    vramIndex adr = vramIndex adr' := by
  by_cases hMode : mode = 0
  · subst hMode
    exact h
  rw [vramIndex_eq_iff] at h ⊢
  intro k hk
  have hModeLt := mode.isLt
  -- the bit of the remapped address that holds bit `k`
  obtain ⟨j, hj, hjk⟩ : ∃ j < 15, (if 7 + mode.toNat ≤ j then j
      else if j < 3 then j + 4 + mode.toNat else j - 3) = k := by
    by_cases hHigh : 7 + mode.toNat ≤ k
    · exact ⟨k, hk, if_pos hHigh⟩
    · by_cases hLow : k < 4 + mode.toNat
      · refine ⟨k + 3, by omega, ?_⟩
        rw [if_neg (by omega), if_neg (by omega)]
        omega
      · refine ⟨k - (4 + mode.toNat), by omega, ?_⟩
        rw [if_neg (by omega), if_pos (by omega)]
        omega
  have hbit := h j hj
  rwa [getLsbD_vramRemap hMode adr (by omega), getLsbD_vramRemap hMode adr' (by omega), hjk] at hbit

theorem vramIndex_add_ne {adr : Word} {n : Byte} (h : n ≠ 0) :
    vramIndex (adr + n.setWidth 16) ≠ vramIndex adr := by
  intro e
  have hn := n.isLt
  have hne : n.toNat ≠ 0 := fun e => h (BitVec.eq_of_toNat_eq e)
  have hNat := congrArg BitVec.toNat e
  simp only [vramIndex, BitVec.toNat_setWidth, BitVec.toNat_add, Nat.reducePow] at hNat
  omega

/-- The port with other contents. -/
def withVram (ppu : VramPort) (vram : BitVec 15 → Word) : VramPort := { ppu with vram := vram }

/-- Over cleared VRAM the word store and the two byte stores only agree when the port is plain. -/
theorem plain_of_clear {ppu : VramPort} (hStep : ppu.vramIncrement ≠ 0)
    (h : (ppu.withVram fun _ => 0).writeVramWord 0x0101 =
      (ppu.withVram fun _ => 0).writeVramBytes 0x0101) : ppu.Plain := by
  cases hHigh : ppu.vramIncrementOnHigh with
  | true =>
    refine ⟨hHigh, ?_⟩
    rw [writeVramBytes_of_onHigh
      (show (ppu.withVram fun _ => 0).vramIncrementOnHigh = true from hHigh)] at h
    have hWord := congrFun (congrArg vram h) (vramIndex ppu.getVramRemap)
    by_contra hne
    have hLeft : Function.update (fun _ => (0 : Word)) (vramIndex ppu.vramPointer) 0x0101
        (vramIndex ppu.getVramRemap) = 0 := Function.update_of_ne hne _ _
    have hRight : Function.update (fun _ => (0 : Word)) (vramIndex ppu.getVramRemap) 0x0101
        (vramIndex ppu.getVramRemap) = 0x0101 := Function.update_self _ _ _
    have : (0 : Word) = 0x0101 := hLeft.symm.trans (hWord.trans hRight)
    exact absurd this (by decide)
  | false =>
    exfalso
    rw [writeVramBytes_of_onLow
      (show (ppu.withVram fun _ => 0).vramIncrementOnHigh = false from hHigh)] at h
    have hNext : vramIndex (vramRemap ppu.vramRemapMode
        (ppu.vramPointer + ppu.vramIncrement.setWidth 16)) ≠
        vramIndex (vramRemap ppu.vramRemapMode ppu.vramPointer) :=
      fun e => vramIndex_add_ne hStep (vramIndex_of_vramRemap e)
    -- the word the high byte lands in: the word store leaves it cleared or fills both bytes
    have hWord := congrFun (congrArg vram h) (vramIndex (vramRemap ppu.vramRemapMode
        (ppu.vramPointer + ppu.vramIncrement.setWidth 16)))
    simp only [writeVramWord, withVram, step, setVram, getVramRemap, Function.update_self] at hWord
    rw [Function.update_of_ne hNext, Function.update_apply] at hWord
    split at hWord
    · exact absurd hWord (by decide)
    · exact absurd hWord (by decide)

theorem writeVramWord_iff {ppu : VramPort} (hStep : ppu.vramIncrement ≠ 0) :
    (∀ vram value, (ppu.withVram vram).writeVramWord value =
      (ppu.withVram vram).writeVramBytes value) ↔ ppu.Plain :=
  ⟨fun h => plain_of_clear hStep (h _ _), fun h vram value =>
    writeVramWord_eq_writeVramBytes (show (ppu.withVram vram).Plain from h) value⟩

end VramPort

/-! ### The APU ports -/

structure ApuPortWrite where
  targetSample : BitVec 64
  port : BitVec 2
  val : Byte
  deriving DecidableEq

def apuPortQueueLen : Nat := 128

def apuPortMinDwell : BitVec 64 := 128

/-- The ports of `Apu`; the ring between `portQHead` and `portQTail` is a list, oldest first. -/
structure ApuPorts where
  inPorts : BitVec 2 → Byte
  outPorts : BitVec 2 → Byte
  portQueue : List ApuPortWrite

namespace ApuPorts

/-- `apu_applyPortWrite`. -/
def applyPortWrite (w : ApuPortWrite) (apu : ApuPorts) : ApuPorts :=
  { apu with inPorts := Function.update apu.inPorts w.port w.val }

/-- A full queue gives up its oldest write. -/
def makeRoom (apu : ApuPorts) : ApuPorts :=
  match apu.portQueue with
  | [] => apu
  | w :: ws =>
    if apuPortQueueLen ≤ apu.portQueue.length then { apu.applyPortWrite w with portQueue := ws }
    else apu

/-- `apu_schedulePortWrite`. -/
def schedulePortWrite (w : ApuPortWrite) (apu : ApuPorts) : ApuPorts :=
  { apu.makeRoom with portQueue := apu.makeRoom.portQueue ++ [w] }

end ApuPorts

/-- What `RtlApuWrite` asks of the audio side. -/
structure AudioClocks where
  quantum : BitVec 64
  nowNs : BitVec 64
  produced : BitVec 64

/-- The statics of `RtlApuWrite`. -/
structure PortClock where
  portClock : BitVec 64
  portClockNs : BitVec 64
  lastTarget : BitVec 2 → BitVec 64
  lastVal : BitVec 2 → Byte
  lastValid : BitVec 2 → Bool

namespace PortClock

/-- The target before the dwell floor: the previous target moved on by the wall-time gap, kept
between `produced` and three quanta past it. -/
def spacedTarget (c : AudioClocks) (s : PortClock) : BitVec 64 :=
  let delta := if s.portClockNs = 0 then 0 else (c.nowNs - s.portClockNs) * 32040 / 1000000000
  let delta := if 4 * c.quantum < delta then 4 * c.quantum else delta
  let target := s.portClock + delta
  let target := if target < c.produced then c.produced else target
  if c.produced + 3 * c.quantum < target then c.produced + 3 * c.quantum else target

def target (c : AudioClocks) (p : BitVec 2) (val : Byte) (s : PortClock) : BitVec 64 :=
  let target := s.spacedTarget c
  let floor := s.lastTarget p + apuPortMinDwell
  let ceil := c.produced + 8 * c.quantum
  if s.lastValid p ∧ val ≠ s.lastVal p ∧ target < floor then (if floor < ceil then floor else ceil)
  else target

def record (c : AudioClocks) (p : BitVec 2) (val : Byte) (s : PortClock) : PortClock where
  portClock := s.target c p val
  portClockNs := c.nowNs
  lastTarget := Function.update s.lastTarget p (s.target c p val)
  lastVal := Function.update s.lastVal p val
  lastValid := Function.update s.lastValid p true

end PortClock

/-! ### The register file -/

/-- `ramAdr` is the address of the WRAM data port; `R` is every other device. -/
structure Devices (R : Type) where
  ppu : VramPort
  apu : ApuPorts
  portClock : PortClock
  ramAdr : BitVec 17
  rest : R

/-- The other registers, which may reach every device (a DMA start stores to the PPU), what
catches the APU up (`rtl_accumulate_apu_catchup`, `snes_catchupApu`), and the audio clocks. -/
structure RestIo (R : Type) where
  readReg : Word → Mem (Devices R) → Byte × Mem (Devices R)
  writeReg : Word → Byte → Mem (Devices R) → Mem (Devices R)
  catchupApu : Mem (Devices R) → Mem (Devices R)
  clocks : Mem (Devices R) → AudioClocks

variable {R : Type}

/-- `adr & 0x3`. -/
def apuPort (reg : Word) : BitVec 2 := reg.setWidth 2

def Mem.mapPpu (f : VramPort → VramPort) (m : Mem (Devices R)) : Mem (Devices R) :=
  { m with hw := { m.hw with ppu := f m.hw.ppu } }

/-- A register read of the VRAM port. -/
def readPpu (f : VramPort → Byte × VramPort) (m : Mem (Devices R)) : Byte × Mem (Devices R) :=
  ((f m.hw.ppu).1, m.mapPpu fun ppu => (f ppu).2)

def rtlApuWrite (io : RestIo R) (adr : Word) (val : Byte) (m : Mem (Devices R)) :
    Mem (Devices R) :=
  let m := io.catchupApu m
  let c := io.clocks m
  let p := apuPort adr
  let w : ApuPortWrite := ⟨m.hw.portClock.target c p val, p, val⟩
  { m with
    hw := { m.hw with
      portClock := m.hw.portClock.record c p val
      apu := m.hw.apu.schedulePortWrite w } }

/-- `$2180` of `snes_readBBus`. -/
def readWmdata (m : Mem (Devices R)) : Byte × Mem (Devices R) :=
  (m.ram m.hw.ramAdr.toNat, { m with hw := { m.hw with ramAdr := m.hw.ramAdr + 1 } })

/-- `$2180` of `snes_writeBBus`. -/
def writeWmdata (val : Byte) (m : Mem (Devices R)) : Mem (Devices R) :=
  { m.setRam m.hw.ramAdr.toNat val with hw := { m.hw with ramAdr := m.hw.ramAdr + 1 } }

/-- `$2181-$2183` of `snes_writeBBus`. -/
def writeWmadd (f : BitVec 17 → BitVec 17) (m : Mem (Devices R)) : Mem (Devices R) :=
  { m with hw := { m.hw with ramAdr := f m.hw.ramAdr } }

def readReg (io : RestIo R) (reg : Word) (m : Mem (Devices R)) : Byte × Mem (Devices R) :=
  if reg = 0x2139 then readPpu VramPort.readVmdatal m
  else if reg = 0x213A then readPpu VramPort.readVmdatah m
  else if isApuPort reg then
    let m := io.catchupApu m
    (m.hw.apu.outPorts (apuPort reg), m)
  else if reg = 0x2180 then readWmdata m
  else io.readReg reg m

def writeReg (io : RestIo R) (reg : Word) (value : Byte) (m : Mem (Devices R)) :
    Mem (Devices R) :=
  if reg = 0x2115 then m.mapPpu (VramPort.writeVmain value)
  else if reg = 0x2116 then m.mapPpu (VramPort.writeVmaddl value)
  else if reg = 0x2117 then m.mapPpu (VramPort.writeVmaddh value)
  else if reg = 0x2118 then m.mapPpu (VramPort.writeVmdatal value)
  else if reg = 0x2119 then m.mapPpu (VramPort.writeVmdatah value)
  else if isApuPort reg then rtlApuWrite io reg value m
  else if reg = 0x2180 then writeWmdata value m
  else if reg = 0x2181 then writeWmadd (fun a => (a &&& 0x1FF00) ||| value.setWidth 17) m
  else if reg = 0x2182 then
    writeWmadd (fun a => (a &&& 0x100FF) ||| (value.setWidth 17 <<< 8)) m
  else if reg = 0x2183 then
    writeWmadd (fun a => (a &&& 0x0FFFF) ||| ((value &&& 1).setWidth 17 <<< 16)) m
  else io.writeReg reg value m

/-- The locked double read of `ReadRegWord`: one catch-up, two ports. -/
def readApuPorts (io : RestIo R) (reg : Word) (m : Mem (Devices R)) : Word × Mem (Devices R) :=
  let m := io.catchupApu m
  (mkWord (m.hw.apu.outPorts (apuPort reg)) (m.hw.apu.outPorts (apuPort (reg + 1))), m)

def regIo (io : RestIo R) : RegIo (Devices R) where
  readReg := readReg io
  writeReg := writeReg io
  apuPorts := readApuPorts io
  writeVramWord value m := m.mapPpu (VramPort.writeVramWord value)

/-! ### Words and pairs of bytes -/

section Pairs

variable {H : Type}

/-- `reg` and `reg + 1` are registers. -/
def RegisterPair (reg : Word) : Prop := 0x2000 ≤ reg.toNat ∧ reg.toNat + 1 < 0x6000

/-- `interp816_writeWord`: the low byte to `reg`, then the high byte to `reg + 1`. -/
def storeBytes (io : RegIo H) (reg value : Word) (m : Mem H) : Mem H :=
  io.writeReg (reg + 1) (hiByte value) (io.writeReg reg (loByte value) m)

def storeBytesHighFirst (io : RegIo H) (reg value : Word) (m : Mem H) : Mem H :=
  io.writeReg reg (loByte value) (io.writeReg (reg + 1) (hiByte value) m)

/-- `interp816_readWord`. -/
def loadBytes (io : RegIo H) (reg : Word) (m : Mem H) : Word :=
  mkWord (io.readReg reg m).1 (io.readReg (reg + 1) (io.readReg reg m).2).1

theorem writeRegWord_of_other (io : RegIo H) {reg : Word} (hVram : reg ≠ 0x2118)
    (hApu : isApuPort reg = false) (value : Word) (m : Mem H) :
    writeRegWord io reg value m = storeBytes io reg value m := by
  rw [writeRegWord, if_neg hVram, hApu]
  rfl

theorem writeRegWord_of_apuPort (io : RegIo H) {reg : Word} (hApu : isApuPort reg = true)
    (value : Word) (m : Mem H) :
    writeRegWord io reg value m = storeBytesHighFirst io reg value m := by
  have hVram : reg ≠ 0x2118 := by
    rintro rfl
    exact absurd hApu (by decide)
  rw [writeRegWord, if_neg hVram, if_pos hApu]
  rfl

theorem readRegWord_of_other (io : RegIo H) {reg : Word} (hApu : isApuPort reg = false)
    (m : Mem H) : (readRegWord io reg m).1 = loadBytes io reg m := by
  simp [readRegWord, loadBytes, hApu]

end Pairs

/-- The second catch-up of a double read changes no port. -/
def PortsRest (io : RestIo R) (m : Mem (Devices R)) : Prop :=
  (io.catchupApu (io.catchupApu m)).hw.apu.outPorts = (io.catchupApu m).hw.apu.outPorts

theorem isApuPort_iff (reg : Word) :
    isApuPort reg = true ↔ 0x2140 ≤ reg.toNat ∧ reg.toNat ≤ 0x217F := by
  simp [isApuPort, BitVec.le_def]

theorem isApuPort_succ {reg : Word} (h : isApuPort reg = true) (hLast : reg ≠ 0x217F) :
    isApuPort (reg + 1) = true := by
  rw [isApuPort_iff] at h ⊢
  have hne : reg.toNat ≠ 0x217F := fun e => hLast (BitVec.eq_of_toNat_eq e)
  rw [BitVec.toNat_add, show (1 : Word).toNat = 1 from rfl]
  omega

theorem readReg_of_apuPort (io : RestIo R) {reg : Word} (h : isApuPort reg = true)
    (m : Mem (Devices R)) :
    readReg io reg m =
      ((io.catchupApu m).hw.apu.outPorts (apuPort reg), io.catchupApu m) := by
  have hLow : reg ≠ 0x2139 := by
    rintro rfl
    exact absurd h (by decide)
  have hHigh : reg ≠ 0x213A := by
    rintro rfl
    exact absurd h (by decide)
  rw [readReg, if_neg hLow, if_neg hHigh, if_pos h]

theorem readRegWord_of_apuPorts (io : RestIo R) {reg : Word} (hReg : isApuPort reg = true)
    (hNext : isApuPort (reg + 1) = true) {m : Mem (Devices R)} (hRest : PortsRest io m) :
    (readRegWord (regIo io) reg m).1 = loadBytes (regIo io) reg m := by
  have hWord : (readRegWord (regIo io) reg m).1 = (readApuPorts io reg m).1 := by
    simp [readRegWord, hReg, regIo]
  rw [hWord, loadBytes]
  simp only [regIo, readReg_of_apuPort io hReg, readReg_of_apuPort io hNext, readApuPorts]
  rw [show (io.catchupApu (io.catchupApu m)).hw.apu.outPorts = _ from hRest]

theorem writeRegWord_of_plain (io : RestIo R) (value : Word) {m : Mem (Devices R)}
    (h : m.hw.ppu.Plain) :
    writeRegWord (regIo io) 0x2118 value m = storeBytes (regIo io) 0x2118 value m := by
  have hBytes : storeBytes (regIo io) 0x2118 value m = m.mapPpu (VramPort.writeVramBytes value) :=
    rfl
  have hWord : writeRegWord (regIo io) 0x2118 value m = m.mapPpu (VramPort.writeVramWord value) :=
    rfl
  rw [hBytes, hWord, Mem.mapPpu, Mem.mapPpu, VramPort.writeVramWord_eq_writeVramBytes h]

/-- Every word access is the two byte accesses, low byte first. -/
def RegisterWordsAgree (io : RestIo R) : Prop :=
  ∀ reg, RegisterPair reg →
    (∀ value m, writeRegWord (regIo io) reg value m = storeBytes (regIo io) reg value m) ∧
    ∀ m, PortsRest io m → (readRegWord (regIo io) reg m).1 = loadBytes (regIo io) reg m

/-- **A word access is the two byte accesses, low byte first**; a store to the APU ports puts the
high byte first, one to `$2118` needs a plain port, and a read must not straddle `$217F`. -/
theorem registerWords_agree (io : RestIo R) (reg : Word) :
    (reg ≠ 0x2118 → isApuPort reg = false →
      ∀ value m, writeRegWord (regIo io) reg value m = storeBytes (regIo io) reg value m) ∧
    (reg = 0x2118 → ∀ value m, m.hw.ppu.Plain →
      writeRegWord (regIo io) reg value m = storeBytes (regIo io) reg value m) ∧
    (isApuPort reg = true → ∀ value m,
      writeRegWord (regIo io) reg value m = storeBytesHighFirst (regIo io) reg value m) ∧
    (reg ≠ 0x217F → ∀ m, PortsRest io m →
      (readRegWord (regIo io) reg m).1 = loadBytes (regIo io) reg m) := by
  refine ⟨fun hVram hApu => writeRegWord_of_other _ hVram hApu, ?_,
    fun hApu => writeRegWord_of_apuPort _ hApu, ?_⟩
  · rintro rfl value m hPlain
    exact writeRegWord_of_plain io value hPlain
  · intro hLast m hRest
    cases hApu : isApuPort reg with
    | true => exact readRegWord_of_apuPorts io hApu (isApuPort_succ hApu hLast) hRest
    | false => exact readRegWord_of_other _ hApu m

/-- No other device, and audio clocks that stand still. -/
def quietRestIo : RestIo Unit where
  readReg _ m := (0, m)
  writeReg _ _ m := m
  catchupApu m := m
  clocks _ := ⟨0, 0, 0⟩

def clearedDevices : Devices Unit where
  ppu := ⟨fun _ => 0, 0, true, 0, 1, 0⟩
  apu := ⟨fun _ => 0, fun _ => 0, []⟩
  portClock := ⟨0, 0, fun _ => 0, fun _ => 0, fun _ => false⟩
  ramAdr := 0
  rest := ()

/-- `STA $2140` queues port 1 before port 0. -/
theorem not_registerWordsAgree : ¬ RegisterWordsAgree quietRestIo := by
  intro h
  have hStore := (h 0x2140 ⟨by decide, by decide⟩).1 0x0100
    ⟨fun _ => 0, fun _ => 0, fun _ => 0, clearedDevices⟩
  have hQueue := congrArg (fun m => m.hw.apu.portQueue) hStore
  exact absurd hQueue (by decide)

end SnesRecomp
