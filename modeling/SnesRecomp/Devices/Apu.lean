import SnesRecomp.Devices.ApuPorts
import SnesRecomp.Devices.Dsp

/-!
# The sound unit

`Apu` of `runner/src/snes/apu.h` and the memory map of `apu.c`: the registers of page zero, the
boot ROM at the end of memory, and sound RAM, which every store also reaches.  Sound RAM is that of
the DSP, which holds a pointer to it.  The registers of the sound processor are `Spc` of `spc.h`.
`inPorts[4]` and `inPorts[5]` are the field `auxPorts`.  The counters for diagnosis are left out.
-/

namespace SnesRecomp

/-- `struct Timer`. -/
structure Timer where
  cycles : Nat
  divider : Byte
  target : Byte
  counter : Byte
  enabled : Bool

/-- `struct Spc`. -/
structure Spc where
  a : Byte
  x : Byte
  y : Byte
  sp : Byte
  pc : Word
  c : Bool
  z : Bool
  v : Bool
  n : Bool
  i : Bool
  h : Bool
  p : Bool
  b : Bool
  stopped : Bool
  cyclesUsed : Byte

/-- `struct Apu`. -/
structure Apu where
  spc : Spc
  dsp : Dsp
  romReadable : Bool
  dspAdr : Byte
  cycles : BitVec 32
  ports : ApuPorts
  auxPorts : Nat → Byte
  timer : Nat → Timer
  cpuCyclesLeft : Byte

/-- `bootRom`. -/
def bootRom : List Byte :=
  [
    0xCD, 0xEF, 0xBD, 0xE8, 0x00, 0xC6, 0x1D, 0xD0, 0xFC, 0x8F, 0xAA, 0xF4, 0x8F, 0xBB, 0xF5, 0x78,
    0xCC, 0xF4, 0xD0, 0xFB, 0x2F, 0x19, 0xEB, 0xF4, 0xD0, 0xFC, 0x7E, 0xF4, 0xD0, 0x0B, 0xE4, 0xF5,
    0xCB, 0xF4, 0xD7, 0x00, 0xFC, 0xD0, 0xF3, 0xAB, 0x01, 0x10, 0xEF, 0x7E, 0xF4, 0x10, 0xEB, 0xBA,
    0xF6, 0xDA, 0x00, 0xBA, 0xF4, 0xC4, 0xF4, 0xDD, 0x5D, 0xD0, 0xDB, 0x1F, 0x00, 0x00, 0xC0, 0xFF
  ]

namespace Apu

/-- Sound RAM, which the DSP sees too. -/
def ram (apu : Apu) : Nat → Byte := apu.dsp.apuRam

def setRam (adr : Nat) (val : Byte) (apu : Apu) : Apu :=
  { apu with dsp := { apu.dsp with apuRam := Function.update apu.dsp.apuRam adr val } }

def setTimer (i : Nat) (t : Timer) (apu : Apu) : Apu :=
  { apu with timer := Function.update apu.timer i t }

/-! ### Reading -/

/-- `apu_cpuRead`; a counter is cleared by its read. -/
def cpuRead (adr : Word) (apu : Apu) : Byte × Apu :=
  let count (i : Nat) : Byte × Apu :=
    ((apu.timer i).counter, apu.setTimer i { apu.timer i with counter := 0 })
  match adr.toNat with
  | 0xF0 | 0xF1 | 0xFA | 0xFB | 0xFC => (0, apu)
  | 0xF2 => (apu.dspAdr, apu)
  | 0xF3 => (dspRead apu.dsp ⟨apu.dspAdr.toNat % 128, by omega⟩, apu)
  | 0xF4 => (apu.ports.inPorts 0, apu)
  | 0xF5 => (apu.ports.inPorts 1, apu)
  | 0xF6 => (apu.ports.inPorts 2, apu)
  | 0xF7 => (apu.ports.inPorts 3, apu)
  | 0xF8 => (apu.auxPorts 0, apu)
  | 0xF9 => (apu.auxPorts 1, apu)
  | 0xFD => count 0
  | 0xFE => count 1
  | 0xFF => count 2
  | n => (if apu.romReadable ∧ 0xFFC0 ≤ n then bootRom.getD (n - 0xFFC0) 0 else apu.ram n, apu)

/-! ### Writing -/

/-- The enable bit of a timer; a timer that is switched on starts from zero. -/
def enableTimer (on : Bool) (t : Timer) : Timer :=
  let t := if !t.enabled && on then { t with divider := 0, counter := 0 } else t
  { t with enabled := on }

/-- `$F1`. -/
def writeControl (val : Byte) (apu : Apu) : Apu :=
  { apu with
    timer := fun i => enableTimer (val.getLsbD i) (apu.timer i)
    ports :=
      { apu.ports with
        inPorts := fun p =>
          if val.getLsbD (if p.toNat < 2 then 4 else 5) then 0 else apu.ports.inPorts p }
    romReadable := val.getLsbD 7 }

def writePort (p : BitVec 2) (val : Byte) (apu : Apu) : Apu :=
  { apu with ports := { apu.ports with outPorts := Function.update apu.ports.outPorts p val } }

/-- The switch of `apu_cpuWrite`. -/
def writeRegister (adr : Nat) (val : Byte) (apu : Apu) : Apu :=
  let target (i : Nat) : Apu := apu.setTimer i { apu.timer i with target := val }
  match adr with
  | 0xF1 => apu.writeControl val
  | 0xF2 => { apu with dspAdr := val }
  | 0xF3 =>
    if h : apu.dspAdr.toNat < 128 then { apu with dsp := dspWrite ⟨apu.dspAdr.toNat, h⟩ val apu.dsp }
    else apu
  | 0xF4 => apu.writePort 0 val
  | 0xF5 => apu.writePort 1 val
  | 0xF6 => apu.writePort 2 val
  | 0xF7 => apu.writePort 3 val
  | 0xF8 => { apu with auxPorts := Function.update apu.auxPorts 0 val }
  | 0xF9 => { apu with auxPorts := Function.update apu.auxPorts 1 val }
  | 0xFA => target 0
  | 0xFB => target 1
  | 0xFC => target 2
  | _ => apu

/-- `apu_cpuWrite`; the byte goes to sound RAM whatever register it is for. -/
def cpuWrite (adr : Word) (val : Byte) (apu : Apu) : Apu :=
  (apu.writeRegister adr.toNat val).setRam adr.toNat val

/-! ### Timers -/

/-- The prescaler of a timer. -/
def timerPeriod (i : Nat) : Nat := if i = 2 then 16 else 128

/-- A tick behind the prescaler. -/
def tickTimer (t : Timer) : Timer :=
  if t.divider + 1 = t.target then { t with divider := 0, counter := (t.counter + 1) &&& 0xF }
  else { t with divider := t.divider + 1 }

/-- The loop of `apu_cycle`. -/
def cycleTimer (i : Nat) (t : Timer) : Timer :=
  let t :=
    if t.cycles = 0 then
      let t := { t with cycles := timerPeriod i }
      if t.enabled then tickTimer t else t
    else t
  { t with cycles := t.cycles - 1 }

end Apu

end SnesRecomp
