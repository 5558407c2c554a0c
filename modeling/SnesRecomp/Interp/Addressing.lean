import SnesRecomp.Interp.State

/-!
# The interpreter's addressing modes

The `interp816_adr*` functions.  Each fetches its operand and returns the addresses of
the low and the high byte of the memory operand (the C functions return the high one
and store the low one through a pointer).  What happens after the fetch is a function
of its own, `effDp` and so on, so that it can be compared with the compiled code's
address expressions operand by operand.
-/

namespace SnesRecomp.Interp816

variable {M : Type} (bus : ByteBus M)

/-- The low and high byte addresses of a memory operand. -/
structure Operand where
  low : Addr
  high : Addr
  deriving DecidableEq, Repr

/-- `(db << 16) + adr`. -/
def dataAddr (db : Byte) (adr : Word) : Addr := (db.setWidth 32 <<< 16) + adr.setWidth 32

/-- Zero extension to `uint32_t`. -/
def u32 (v : Word) : Addr := v.setWidth 32

/-- `v & 0xffff`. -/
def mask16 (v : Addr) : Addr := v &&& 0xFFFF

/-- `v & 0xffffff`. -/
def mask24 (v : Addr) : Addr := v &&& 0xFFFFFF

/-- A direct-page operand at `dp + adr + idx`. -/
def effDp (adr : Byte) (idx : Word) (cpu : Interp816 M) : Operand :=
  { low := mask16 (u32 cpu.dp + adr.setWidth 32 + u32 idx)
    high := mask16 (u32 cpu.dp + adr.setWidth 32 + u32 idx + 1) }

/-- The pointer word at `base + adr + idx` in bank zero. -/
def readPointer (base : Word) (adr : Byte) (idx : Word) (cpu : Interp816 M) :
    Word × Interp816 M :=
  readWord bus (mask16 (u32 base + adr.setWidth 32 + u32 idx))
    (mask16 (u32 base + adr.setWidth 32 + u32 idx + 1)) cpu

/-- `(db << 16) + pointer`, not masked for the low byte. -/
def effIdp (adr : Byte) (idx : Word) (cpu : Interp816 M) : Operand × Interp816 M :=
  let p := readPointer bus cpu.dp adr idx cpu
  ({ low := dataAddr p.2.db p.1, high := mask24 (dataAddr p.2.db p.1 + 1) }, p.2)

/-- `((db << 16) + pointer + y) & 0xffffff` for a pointer relative to `base`. -/
def effIndirectY (base : Word) (adr : Byte) (cpu : Interp816 M) : Operand × Interp816 M :=
  let p := readPointer bus base adr 0 cpu
  ({ low := mask24 (dataAddr p.2.db p.1 + u32 p.2.y)
     high := mask24 (dataAddr p.2.db p.1 + u32 p.2.y + 1) }, p.2)

/-- The 24-bit pointer at `dp + adr` in bank zero. -/
def readLongPointer (adr : Byte) (cpu : Interp816 M) : Addr × Interp816 M :=
  let p := readPointer bus cpu.dp adr 0 cpu
  let b := read bus (mask16 (u32 cpu.dp + adr.setWidth 32 + 2)) p.2
  (p.1.setWidth 32 ||| (b.1.setWidth 32 <<< 16), b.2)

def effIdl (adr : Byte) (cpu : Interp816 M) : Operand × Interp816 M :=
  let p := readLongPointer bus adr cpu
  ({ low := p.1, high := mask24 (p.1 + 1) }, p.2)

def effIly (adr : Byte) (cpu : Interp816 M) : Operand × Interp816 M :=
  let p := readLongPointer bus adr cpu
  ({ low := mask24 (p.1 + u32 p.2.y), high := mask24 (p.1 + u32 p.2.y + 1) }, p.2)

def effSr (adr : Byte) (cpu : Interp816 M) : Operand :=
  { low := mask16 (u32 cpu.sp + adr.setWidth 32)
    high := mask16 (u32 cpu.sp + adr.setWidth 32 + 1) }

/-- `(db << 16) + adr`, not masked for the low byte. -/
def effAbs (adr : Word) (cpu : Interp816 M) : Operand :=
  { low := dataAddr cpu.db adr, high := mask24 (dataAddr cpu.db adr + 1) }

def effAbi (adr idx : Word) (cpu : Interp816 M) : Operand :=
  { low := mask24 (dataAddr cpu.db adr + u32 idx)
    high := mask24 (dataAddr cpu.db adr + u32 idx + 1) }

/-- `adr | (bank << 16)`. -/
def longAddr (adr : Word) (bank : Byte) : Addr := adr.setWidth 32 ||| (bank.setWidth 32 <<< 16)

def effAbl (adr : Word) (bank : Byte) : Operand :=
  { low := longAddr adr bank, high := mask24 (longAddr adr bank + 1) }

def effAlx (adr : Word) (bank : Byte) (cpu : Interp816 M) : Operand :=
  { low := mask24 (longAddr adr bank + u32 cpu.x)
    high := mask24 (longAddr adr bank + u32 cpu.x + 1) }

/-! ### With the operand fetch -/

/-- An immediate of the width of `M` or `X`; an 8-bit one has no high byte. -/
def adrImm (xFlag : Bool) (cpu : Interp816 M) : Operand × Interp816 M :=
  let low := bankAddr cpu.k cpu.pc
  let next := { cpu with pc := cpu.pc + 1 }
  if (xFlag && cpu.xf) || (!xFlag && cpu.mf) then ({ low := low, high := 0 }, next)
  else ({ low := low, high := bankAddr next.k next.pc }, { next with pc := next.pc + 1 })

def adrDp (cpu : Interp816 M) : Operand × Interp816 M :=
  let adr := readOpcode bus cpu
  (effDp adr.1 0 adr.2, adr.2)

def adrDpx (cpu : Interp816 M) : Operand × Interp816 M :=
  let adr := readOpcode bus cpu
  (effDp adr.1 adr.2.x adr.2, adr.2)

def adrDpy (cpu : Interp816 M) : Operand × Interp816 M :=
  let adr := readOpcode bus cpu
  (effDp adr.1 adr.2.y adr.2, adr.2)

def adrIdp (cpu : Interp816 M) : Operand × Interp816 M :=
  let adr := readOpcode bus cpu
  effIdp bus adr.1 0 adr.2

def adrIdx (cpu : Interp816 M) : Operand × Interp816 M :=
  let adr := readOpcode bus cpu
  effIdp bus adr.1 adr.2.x adr.2

def adrIdy (cpu : Interp816 M) : Operand × Interp816 M :=
  let adr := readOpcode bus cpu
  effIndirectY bus adr.2.dp adr.1 adr.2

def adrIdl (cpu : Interp816 M) : Operand × Interp816 M :=
  let adr := readOpcode bus cpu
  effIdl bus adr.1 adr.2

def adrIly (cpu : Interp816 M) : Operand × Interp816 M :=
  let adr := readOpcode bus cpu
  effIly bus adr.1 adr.2

def adrSr (cpu : Interp816 M) : Operand × Interp816 M :=
  let adr := readOpcode bus cpu
  (effSr adr.1 adr.2, adr.2)

def adrIsy (cpu : Interp816 M) : Operand × Interp816 M :=
  let adr := readOpcode bus cpu
  effIndirectY bus adr.2.sp adr.1 adr.2

def adrAbs (cpu : Interp816 M) : Operand × Interp816 M :=
  let adr := readOpcodeWord bus cpu
  (effAbs adr.1 adr.2, adr.2)

def adrAbx (cpu : Interp816 M) : Operand × Interp816 M :=
  let adr := readOpcodeWord bus cpu
  (effAbi adr.1 adr.2.x adr.2, adr.2)

def adrAby (cpu : Interp816 M) : Operand × Interp816 M :=
  let adr := readOpcodeWord bus cpu
  (effAbi adr.1 adr.2.y adr.2, adr.2)

def adrAbl (cpu : Interp816 M) : Operand × Interp816 M :=
  let adr := readOpcodeWord bus cpu
  let bank := readOpcode bus adr.2
  (effAbl adr.1 bank.1, bank.2)

def adrAlx (cpu : Interp816 M) : Operand × Interp816 M :=
  let adr := readOpcodeWord bus cpu
  let bank := readOpcode bus adr.2
  (effAlx adr.1 bank.1 bank.2, bank.2)

/-- The target word of `JMP (abs,X)` and `JSR (abs,X)`. -/
def adrIax (cpu : Interp816 M) : Word × Interp816 M :=
  let adr := readOpcodeWord bus cpu
  let s := adr.2
  readWord bus (bankAddr s.k (adr.1 + s.x)) (bankAddr s.k (adr.1 + s.x + 1)) s

end SnesRecomp.Interp816
