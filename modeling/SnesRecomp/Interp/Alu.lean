import SnesRecomp.Interp.Addressing

/-!
# The interpreter's opcode functions

The functions of `interp816.c` that take the two addresses of a memory operand:
`interp816_and` to `interp816_trb`.  C `int` is `CInt`, 32 bits, so that the decimal
chains can go below zero as they do in the source.  A function with an 8-bit and a
16-bit branch reads its operand in that branch; what it then computes from the value
has a name of its own where it is more than a line.
-/

namespace SnesRecomp

/-- C `int` and `uint32_t`. -/
abbrev CInt := BitVec 32

def cint8 (v : Byte) : CInt := v.setWidth 32

def cint16 (v : Word) : CInt := v.setWidth 32

def cintB (b : Bool) : CInt := if b then 1 else 0

/-- `a > b` on `int`. -/
def cgt (a b : CInt) : Bool := b.slt a

/-- `a < b` on `int`. -/
def clt (a b : CInt) : Bool := a.slt b

namespace Interp816

variable {M : Type} (bus : ByteBus M)

/-- `(a & 0xff00) | lo`. -/
def withLow (a : Word) (lo : Byte) : Word := (a &&& 0xFF00) ||| lo.setWidth 16

/-! ### Logic -/

def and (o : Operand) (cpu : Interp816 M) : Interp816 M :=
  let cpu :=
    if cpu.mf then
      let value := read bus o.low cpu
      { value.2 with a := withLow value.2.a (loByte value.2.a &&& value.1) }
    else
      let value := readWord bus o.low o.high cpu
      { value.2 with a := value.2.a &&& value.1 }
  setZN cpu.a cpu.mf cpu

def ora (o : Operand) (cpu : Interp816 M) : Interp816 M :=
  let cpu :=
    if cpu.mf then
      let value := read bus o.low cpu
      { value.2 with a := withLow value.2.a (loByte value.2.a ||| value.1) }
    else
      let value := readWord bus o.low o.high cpu
      { value.2 with a := value.2.a ||| value.1 }
  setZN cpu.a cpu.mf cpu

def eor (o : Operand) (cpu : Interp816 M) : Interp816 M :=
  let cpu :=
    if cpu.mf then
      let value := read bus o.low cpu
      { value.2 with a := withLow value.2.a (loByte value.2.a ^^^ value.1) }
    else
      let value := readWord bus o.low o.high cpu
      { value.2 with a := value.2.a ^^^ value.1 }
  setZN cpu.a cpu.mf cpu

/-! ### Addition and subtraction -/

/-- The sign test of `adc` and `sbc`, on operands and result before the last fix-up. -/
def overflow (sign a value result : CInt) : Bool :=
  (a &&& sign == value &&& sign) && (value &&& sign != result &&& sign)

def adc8 (value : Byte) (cpu : Interp816 M) : Interp816 M :=
  let a := cint16 cpu.a
  let v := cint8 value
  let result :=
    if cpu.d then
      let result := (a &&& 0xF) + (v &&& 0xF) + cintB cpu.c
      let result := if cgt result 0x9 then ((result + 0x6) &&& 0xF) + 0x10 else result
      (a &&& 0xF0) + (v &&& 0xF0) + result
    else (a &&& 0xFF) + v + cintB cpu.c
  let ovf := overflow 0x80 a v result
  let result := if cpu.d && cgt result 0x9F then result + 0x60 else result
  { cpu with v := ovf, c := cgt result 0xFF, a := withLow cpu.a (result.setWidth 8) }

def adc16 (value : Word) (cpu : Interp816 M) : Interp816 M :=
  let a := cint16 cpu.a
  let v := cint16 value
  let result :=
    if cpu.d then
      let result := (a &&& 0xF) + (v &&& 0xF) + cintB cpu.c
      let result := if cgt result 0x9 then ((result + 0x6) &&& 0xF) + 0x10 else result
      let result := (a &&& 0xF0) + (v &&& 0xF0) + result
      let result := if cgt result 0x9F then ((result + 0x60) &&& 0xFF) + 0x100 else result
      let result := (a &&& 0xF00) + (v &&& 0xF00) + result
      let result := if cgt result 0x9FF then ((result + 0x600) &&& 0xFFF) + 0x1000 else result
      (a &&& 0xF000) + (v &&& 0xF000) + result
    else a + v + cintB cpu.c
  let ovf := overflow 0x8000 a v result
  let result := if cpu.d && cgt result 0x9FFF then result + 0x6000 else result
  { cpu with v := ovf, c := cgt result 0xFFFF, a := result.setWidth 16 }

def adc (o : Operand) (cpu : Interp816 M) : Interp816 M :=
  let cpu :=
    if cpu.mf then
      let value := read bus o.low cpu
      adc8 value.1 value.2
    else
      let value := readWord bus o.low o.high cpu
      adc16 value.1 value.2
  setZN cpu.a cpu.mf cpu

/-- `value` is already complemented. -/
def sbc8 (value : Byte) (cpu : Interp816 M) : Interp816 M :=
  let a := cint16 cpu.a
  let v := cint8 value
  let result :=
    if cpu.d then
      let result := (a &&& 0xF) + (v &&& 0xF) + cintB cpu.c
      let result :=
        if clt result 0x10 then (result - 0x6) &&& (if clt (result - 0x6) 0 then 0xF else 0x1F)
        else result
      (a &&& 0xF0) + (v &&& 0xF0) + result
    else (a &&& 0xFF) + v + cintB cpu.c
  let ovf := overflow 0x80 a v result
  let result := if cpu.d && clt result 0x100 then result - 0x60 else result
  { cpu with v := ovf, c := cgt result 0xFF, a := withLow cpu.a (result.setWidth 8) }

/-- `value` is already complemented. -/
def sbc16 (value : Word) (cpu : Interp816 M) : Interp816 M :=
  let a := cint16 cpu.a
  let v := cint16 value
  let result :=
    if cpu.d then
      let result := (a &&& 0xF) + (v &&& 0xF) + cintB cpu.c
      let result :=
        if clt result 0x10 then (result - 0x6) &&& (if clt (result - 0x6) 0 then 0xF else 0x1F)
        else result
      let result := (a &&& 0xF0) + (v &&& 0xF0) + result
      let result :=
        if clt result 0x100 then (result - 0x60) &&& (if clt (result - 0x60) 0 then 0xFF else 0x1FF)
        else result
      let result := (a &&& 0xF00) + (v &&& 0xF00) + result
      let result :=
        if clt result 0x1000 then
          (result - 0x600) &&& (if clt (result - 0x600) 0 then 0xFFF else 0x1FFF)
        else result
      (a &&& 0xF000) + (v &&& 0xF000) + result
    else a + v + cintB cpu.c
  let ovf := overflow 0x8000 a v result
  let result := if cpu.d && clt result 0x10000 then result - 0x6000 else result
  { cpu with v := ovf, c := cgt result 0xFFFF, a := result.setWidth 16 }

def sbc (o : Operand) (cpu : Interp816 M) : Interp816 M :=
  let cpu :=
    if cpu.mf then
      let value := read bus o.low cpu
      sbc8 (value.1 ^^^ 0xFF) value.2
    else
      let value := readWord bus o.low o.high cpu
      sbc16 (value.1 ^^^ 0xFFFF) value.2
  setZN cpu.a cpu.mf cpu

/-- `cmp`, `cpx` and `cpy`: a register compared at the width `byte`. -/
def compare (byte : Bool) (reg : Word) (o : Operand) (cpu : Interp816 M) : Interp816 M :=
  if byte then
    let value := read bus o.low cpu
    let result := (cint16 reg &&& 0xFF) + cint8 (value.1 ^^^ 0xFF) + 1
    setZN (result.setWidth 16) byte { value.2 with c := cgt result 0xFF }
  else
    let value := readWord bus o.low o.high cpu
    let result := cint16 reg + cint16 (value.1 ^^^ 0xFFFF) + 1
    setZN (result.setWidth 16) byte { value.2 with c := cgt result 0xFFFF }

def cmp (o : Operand) (cpu : Interp816 M) : Interp816 M := compare bus cpu.mf cpu.a o cpu

def cpx (o : Operand) (cpu : Interp816 M) : Interp816 M := compare bus cpu.xf cpu.x o cpu

def cpy (o : Operand) (cpu : Interp816 M) : Interp816 M := compare bus cpu.xf cpu.y o cpu

def bit (o : Operand) (cpu : Interp816 M) : Interp816 M :=
  if cpu.mf then
    let value := read bus o.low cpu
    { value.2 with
      z := loByte value.2.a &&& value.1 == 0
      n := value.1 &&& 0x80 != 0
      v := value.1 &&& 0x40 != 0 }
  else
    let value := readWord bus o.low o.high cpu
    { value.2 with
      z := value.2.a &&& value.1 == 0
      n := value.1 &&& 0x8000 != 0
      v := value.1 &&& 0x4000 != 0 }

/-! ### Loads and stores -/

def lda (o : Operand) (cpu : Interp816 M) : Interp816 M :=
  let cpu :=
    if cpu.mf then
      let value := read bus o.low cpu
      { value.2 with a := withLow value.2.a value.1 }
    else
      let value := readWord bus o.low o.high cpu
      { value.2 with a := value.1 }
  setZN cpu.a cpu.mf cpu

/-- The operand of `ldx` and `ldy`, zero-extended when it is a byte. -/
def readIndex (o : Operand) (cpu : Interp816 M) : Word × Interp816 M :=
  if cpu.xf then
    let value := read bus o.low cpu
    (value.1.setWidth 16, value.2)
  else readWord bus o.low o.high cpu

def ldx (o : Operand) (cpu : Interp816 M) : Interp816 M :=
  let value := readIndex bus o cpu
  setZN value.1 value.2.xf { value.2 with x := value.1 }

def ldy (o : Operand) (cpu : Interp816 M) : Interp816 M :=
  let value := readIndex bus o cpu
  setZN value.1 value.2.xf { value.2 with y := value.1 }

/-- The stores: `value` at the width `byte`, low byte first. -/
def store (byte : Bool) (value : Word) (o : Operand) (cpu : Interp816 M) : Interp816 M :=
  if byte then write bus o.low (loByte value) cpu
  else writeWord bus o.low o.high value false cpu

def sta (o : Operand) (cpu : Interp816 M) : Interp816 M := store bus cpu.mf cpu.a o cpu

def stx (o : Operand) (cpu : Interp816 M) : Interp816 M := store bus cpu.xf cpu.x o cpu

def sty (o : Operand) (cpu : Interp816 M) : Interp816 M := store bus cpu.xf cpu.y o cpu

def stz (o : Operand) (cpu : Interp816 M) : Interp816 M := store bus cpu.mf 0 o cpu

/-! ### Read, modify, write -/

def ror (o : Operand) (cpu : Interp816 M) : Interp816 M :=
  if cpu.mf then
    let value := read bus o.low cpu
    let result := (cint8 value.1 >>> 1) ||| (cintB value.2.c <<< 7)
    { setZN (result.setWidth 16) value.2.mf (write bus o.low (result.setWidth 8) value.2) with
      c := value.1 &&& 1 != 0 }
  else
    let value := readWord bus o.low o.high cpu
    let result := (cint16 value.1 >>> 1) ||| (cintB value.2.c <<< 15)
    { setZN (result.setWidth 16) value.2.mf
        (writeWord bus o.low o.high (result.setWidth 16) true value.2) with
      c := value.1 &&& 1 != 0 }

def rol (o : Operand) (cpu : Interp816 M) : Interp816 M :=
  if cpu.mf then
    let value := read bus o.low cpu
    let result := (cint8 value.1 <<< 1) ||| cintB value.2.c
    setZN (result.setWidth 16) value.2.mf
      (write bus o.low (result.setWidth 8) { value.2 with c := result &&& 0x100 != 0 })
  else
    let value := readWord bus o.low o.high cpu
    let result := (cint16 value.1 <<< 1) ||| cintB value.2.c
    setZN (result.setWidth 16) value.2.mf
      (writeWord bus o.low o.high (result.setWidth 16) true
        { value.2 with c := result &&& 0x10000 != 0 })

def lsr (o : Operand) (cpu : Interp816 M) : Interp816 M :=
  if cpu.mf then
    let value := read bus o.low cpu
    let result := cint8 value.1 >>> 1
    setZN (result.setWidth 16) value.2.mf
      (write bus o.low (result.setWidth 8) { value.2 with c := value.1 &&& 1 != 0 })
  else
    let value := readWord bus o.low o.high cpu
    let result := cint16 value.1 >>> 1
    setZN (result.setWidth 16) value.2.mf
      (writeWord bus o.low o.high (result.setWidth 16) true
        { value.2 with c := value.1 &&& 1 != 0 })

def asl (o : Operand) (cpu : Interp816 M) : Interp816 M :=
  if cpu.mf then
    let value := read bus o.low cpu
    let result := cint8 value.1 <<< 1
    setZN (result.setWidth 16) value.2.mf
      (write bus o.low (result.setWidth 8) { value.2 with c := result &&& 0x100 != 0 })
  else
    let value := readWord bus o.low o.high cpu
    let result := cint16 value.1 <<< 1
    setZN (result.setWidth 16) value.2.mf
      (writeWord bus o.low o.high (result.setWidth 16) true
        { value.2 with c := result &&& 0x10000 != 0 })

/-- `inc` and `dec`: `delta` is `1` or `-1`. -/
def addMem (delta : CInt) (o : Operand) (cpu : Interp816 M) : Interp816 M :=
  if cpu.mf then
    let value := read bus o.low cpu
    let result := cint8 value.1 + delta
    setZN (result.setWidth 16) value.2.mf (write bus o.low (result.setWidth 8) value.2)
  else
    let value := readWord bus o.low o.high cpu
    let result := cint16 value.1 + delta
    setZN (result.setWidth 16) value.2.mf
      (writeWord bus o.low o.high (result.setWidth 16) true value.2)

def inc (o : Operand) (cpu : Interp816 M) : Interp816 M := addMem bus 1 o cpu

def dec (o : Operand) (cpu : Interp816 M) : Interp816 M := addMem bus (-1) o cpu

def tsb (o : Operand) (cpu : Interp816 M) : Interp816 M :=
  if cpu.mf then
    let value := read bus o.low cpu
    write bus o.low (value.1 ||| loByte value.2.a)
      { value.2 with z := loByte value.2.a &&& value.1 == 0 }
  else
    let value := readWord bus o.low o.high cpu
    writeWord bus o.low o.high (value.1 ||| value.2.a) true
      { value.2 with z := value.2.a &&& value.1 == 0 }

def trb (o : Operand) (cpu : Interp816 M) : Interp816 M :=
  if cpu.mf then
    let value := read bus o.low cpu
    write bus o.low (value.1 &&& ~~~ (loByte value.2.a))
      { value.2 with z := loByte value.2.a &&& value.1 == 0 }
  else
    let value := readWord bus o.low o.high cpu
    writeWord bus o.low o.high (value.1 &&& ~~~ value.2.a) true
      { value.2 with z := value.2.a &&& value.1 == 0 }

end Interp816

end SnesRecomp
