import SnesRecomp.Runtime.Bus

/-!
# The interpreter core: state, flags, stack

`Interp816` of `runner/src/snes/interp816.h` and the primitives every opcode of
`interp816.c` is written with: the byte bus, opcode fetches, the packed flags, the
stack and word accesses.  The struct's `mem` pointer is the field `mem`, of any type;
its two handlers are a `ByteBus`.  The cycle counter is left out, since the bridge
ignores what `interp816_runOpcode` returns, and so are the cycle-only branches and the
flag `waiting`, which is written and never read.

Stack pointers wrap to page one in emulation mode after every push and pull.
-/

namespace SnesRecomp

/-- `uint32_t` addresses. -/
abbrev Addr := BitVec 32

/-- `Interp816ReadHandler` and `Interp816WriteHandler`. -/
structure ByteBus (M : Type) where
  read : Addr → M → Byte × M
  write : Addr → Byte → M → M

/-- `struct Interp816`. -/
structure Interp816 (M : Type) where
  mem : M
  a : Word
  x : Word
  y : Word
  sp : Word
  pc : Word
  dp : Word
  k : Byte
  db : Byte
  c : Bool
  z : Bool
  v : Bool
  n : Bool
  i : Bool
  d : Bool
  xf : Bool
  mf : Bool
  e : Bool
  irqWanted : Bool
  nmiWanted : Bool
  stopped : Bool

namespace Interp816

variable {M : Type} (bus : ByteBus M)

/-! ### Memory -/

def read (adr : Addr) (cpu : Interp816 M) : Byte × Interp816 M :=
  let r := bus.read adr cpu.mem
  (r.1, { cpu with mem := r.2 })

def write (adr : Addr) (val : Byte) (cpu : Interp816 M) : Interp816 M :=
  { cpu with mem := bus.write adr val cpu.mem }

/-- `(k << 16) | adr`. -/
def bankAddr (k : Byte) (adr : Word) : Addr := (k.setWidth 32 <<< 16) ||| adr.setWidth 32

def readOpcode (cpu : Interp816 M) : Byte × Interp816 M :=
  read bus (bankAddr cpu.k cpu.pc) { cpu with pc := cpu.pc + 1 }

def readOpcodeWord (cpu : Interp816 M) : Word × Interp816 M :=
  let low := readOpcode bus cpu
  let high := readOpcode bus low.2
  (mkWord low.1 high.1, high.2)

def readWord (adrl adrh : Addr) (cpu : Interp816 M) : Word × Interp816 M :=
  let low := read bus adrl cpu
  let high := read bus adrh low.2
  (mkWord low.1 high.1, high.2)

def writeWord (adrl adrh : Addr) (value : Word) (reversed : Bool) (cpu : Interp816 M) :
    Interp816 M :=
  if reversed then write bus adrl (loByte value) (write bus adrh (hiByte value) cpu)
  else write bus adrh (hiByte value) (write bus adrl (loByte value) cpu)

/-! ### Flags -/

def getFlags (cpu : Interp816 M) : Byte :=
  bitIf cpu.n 0x80 ||| bitIf cpu.v 0x40 ||| bitIf cpu.mf 0x20 ||| bitIf cpu.xf 0x10 |||
    bitIf cpu.d 0x08 ||| bitIf cpu.i 0x04 ||| bitIf cpu.z 0x02 ||| bitIf cpu.c 0x01

/-- `sp = (sp & 0xff) | 0x100`. -/
def pageOne (sp : Word) : Word := (sp &&& 0xFF) ||| 0x100

/-- Emulation mode keeps 8-bit widths and the stack in page one. -/
def forceEmulation (cpu : Interp816 M) : Interp816 M :=
  if cpu.e then { cpu with mf := true, xf := true, sp := pageOne cpu.sp } else cpu

/-- 8-bit index registers have no high byte. -/
def clearIndexHigh (cpu : Interp816 M) : Interp816 M :=
  if cpu.xf then { cpu with x := cpu.x &&& 0xFF, y := cpu.y &&& 0xFF } else cpu

def setFlags (val : Byte) (cpu : Interp816 M) : Interp816 M :=
  clearIndexHigh (forceEmulation
    { cpu with
      n := hasBit val 0x80
      v := hasBit val 0x40
      mf := hasBit val 0x20
      xf := hasBit val 0x10
      d := hasBit val 0x08
      i := hasBit val 0x04
      z := hasBit val 0x02
      c := hasBit val 0x01 })

def setZN (value : Word) (byte : Bool) (cpu : Interp816 M) : Interp816 M :=
  if byte then { cpu with z := value &&& 0xFF == 0, n := value &&& 0x80 != 0 }
  else { cpu with z := value == 0, n := value &&& 0x8000 != 0 }

/-! ### Branches and stack -/

def doBranch (value : Byte) (check : Bool) (cpu : Interp816 M) : Interp816 M :=
  if check then { cpu with pc := cpu.pc + value.signExtend 16 } else cpu

/-- The stack pointer one step up or down, in page one in emulation mode. -/
def wrapSp (cpu : Interp816 M) (sp : Word) : Word := if cpu.e then pageOne sp else sp

def pullByte (cpu : Interp816 M) : Byte × Interp816 M :=
  let cpu := { cpu with sp := wrapSp cpu (cpu.sp + 1) }
  read bus (cpu.sp.setWidth 32) cpu

def pushByte (value : Byte) (cpu : Interp816 M) : Interp816 M :=
  let cpu := write bus (cpu.sp.setWidth 32) value cpu
  { cpu with sp := wrapSp cpu (cpu.sp - 1) }

def pullWord (cpu : Interp816 M) : Word × Interp816 M :=
  let low := pullByte bus cpu
  let high := pullByte bus low.2
  (mkWord low.1 high.1, high.2)

def pushWord (value : Word) (cpu : Interp816 M) : Interp816 M :=
  pushByte bus (loByte value) (pushByte bus (hiByte value) cpu)

/-- The vector of an interrupt, `COP` or `NMI`/`IRQ`. -/
def enterVector (vecl vech : Addr) (cpu : Interp816 M) : Interp816 M :=
  let cpu := pushByte bus cpu.k cpu
  let cpu := pushWord bus cpu.pc cpu
  let cpu := pushByte bus (getFlags cpu) cpu
  let r := readWord bus vecl vech { cpu with i := true, d := false, k := 0 }
  { r.2 with pc := r.1 }

def doInterrupt (irq : Bool) (cpu : Interp816 M) : Interp816 M :=
  if irq then enterVector bus 0xFFEE 0xFFEF cpu else enterVector bus 0xFFEA 0xFFEB cpu

end Interp816

end SnesRecomp
