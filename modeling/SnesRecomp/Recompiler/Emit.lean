import SnesRecomp.Recompiler.IR
import SnesRecomp.Interp.Alu

/-!
# What the emitted C does

`codegen.py` turns an IR operation into lines of C; `widths.py` and
`emitter_helpers.py` hold the shared fragments.  `execOp` is the effect of the lines of
one operation on `CpuState`, on memory and on the C locals (`_v0`, `_v1`, and so on,
each as wide as its type).  Arithmetic is on `CInt`, after the promotions of C.

Operations that only transfer control (branches, jumps, calls, returns) move no state
here; calls and returns are the subject of `Recompiler.Calls`.  Trace lines are left
out.

`segrefAddr` is the pair `_segref_addr_expr` returns.  Both parts of a long pointer
read memory; C leaves their order open, and the bank is taken first.
-/

namespace SnesRecomp.Recompiler

variable {M : Type}

/-- The state the emitted lines of one function work on. -/
structure EmitState (M : Type) where
  cpu : CpuState
  mem : M
  vals : Value → Word

def EmitState.setVal (s : EmitState M) (v : Value) (x : Word) : EmitState M :=
  { s with vals := Function.update s.vals v x }

/-! ### `widths.py` -/

def opMask : Width → CInt
  | .byte => 0xFF
  | .word => 0xFFFF

def signBit : Width → CInt
  | .byte => 0x80
  | .word => 0x8000

def carryBit : Width → CInt
  | .byte => 0x100
  | .word => 0x10000

def overflowBit : Width → CInt
  | .byte => 0x40
  | .word => 0x4000

/-- A conversion to `ctype(width)`, kept in 16 bits. -/
def toCtype : Width → CInt → Word
  | .byte, v => (v.setWidth 8).setWidth 16
  | .word, v => v.setWidth 16

/-- `masked(expr, width)`. -/
def masked (v : Word) (width : Width) : CInt := cint16 v &&& opMask width

/-- `set_nz_no_p`. -/
def setNzNoP (src : CInt) (width : Width) (cpu : CpuState) : CpuState :=
  { cpu with flagZ := src == 0, flagN := src &&& signBit width != 0 }

/-- The refresh of the packed `N` and `Z`. -/
def syncPNz (cpu : CpuState) : CpuState :=
  { cpu with P := (cpu.P &&& ~~~ 0x82) ||| bitIf cpu.flagZ 0x02 ||| bitIf cpu.flagN 0x80 }

/-- `set_nz`. -/
def setNz (src : CInt) (width : Width) (cpu : CpuState) : CpuState :=
  syncPNz (setNzNoP src width cpu)

/-- `preserve_high(field, lo)`. -/
def preserveHigh (field : Word) (lo : Byte) : Word := (field &&& 0xFF00) ||| lo.setWidth 16

/-- `set_v_adc`. -/
def setVAdc (lhs rhs : CInt) (out : Word) (width : Width) : Bool :=
  (lhs ^^^ cint16 out) &&& (rhs ^^^ cint16 out) &&& signBit width != 0

/-- `set_v_sbc`. -/
def setVSbc (lhs rhs : CInt) (out : Word) (width : Width) : Bool :=
  (lhs ^^^ rhs) &&& (lhs ^^^ cint16 out) &&& signBit width != 0

/-! ### Registers -/

/-- `_REG_FIELD`, read as an integer. -/
def readRegField (cpu : CpuState) : Reg → Word
  | .a => cpu.A
  | .b => (hiByte cpu.A).setWidth 16
  | .x => cpu.X
  | .y => cpu.Y
  | .s => cpu.S
  | .d => cpu.D
  | .db => cpu.DB.setWidth 16
  | .pb => cpu.PB.setWidth 16
  | .p => cpu.P.setWidth 16
  | .m => if cpu.mFlag then 1 else 0
  | .xf => if cpu.xFlag then 1 else 0
  | .e => if cpu.emulation then 1 else 0
  | .n => if cpu.flagN then 1 else 0
  | .v => if cpu.flagV then 1 else 0
  | .zf => if cpu.flagZ then 1 else 0
  | .c => if cpu.flagC then 1 else 0
  | .i => if cpu.flagI then 1 else 0
  | .df => if cpu.flagD then 1 else 0

/-- An assignment to `_REG_FIELD`.  Flags hold `0` or `1`; `B` is an expression and
cannot be assigned. -/
def writeRegField (cpu : CpuState) (v : Word) : Reg → CpuState
  | .a => { cpu with A := v }
  | .b => cpu
  | .x => { cpu with X := v }
  | .y => { cpu with Y := v }
  | .s => { cpu with S := v }
  | .d => { cpu with D := v }
  | .db => { cpu with DB := loByte v }
  | .pb => { cpu with PB := loByte v }
  | .p => { cpu with P := loByte v }
  | .m => { cpu with mFlag := loByte v != 0 }
  | .xf => { cpu with xFlag := loByte v != 0 }
  | .e => { cpu with emulation := loByte v != 0 }
  | .n => { cpu with flagN := loByte v != 0 }
  | .v => { cpu with flagV := loByte v != 0 }
  | .zf => { cpu with flagZ := loByte v != 0 }
  | .c => { cpu with flagC := loByte v != 0 }
  | .i => { cpu with flagI := loByte v != 0 }
  | .df => { cpu with flagD := loByte v != 0 }

/-- `_emit_writereg`. -/
def emitWriteReg (reg : Reg) (v : Word) (cpu : CpuState) : CpuState :=
  match reg with
  | .a => cpuWriteAM cpu v
  | .x => cpuWriteXX cpu v
  | .y => cpuWriteYX cpu v
  | reg => writeRegField cpu v reg

/-! ### Memory references -/

/-- The `idx` of `_segref_addr_expr`. -/
def segIndex (seg : SegRef) (cpu : CpuState) : Word :=
  match seg.index with
  | some .x => cpu.X
  | some .y => cpu.Y
  | _ => 0

/-- The `idx_reg` of the indexed absolute and long modes: `X`, else `Y`. -/
def segIndexReg (seg : SegRef) (cpu : CpuState) : Word :=
  if seg.index = some .x then cpu.X else cpu.Y

/-- `(uint8)(eff24 >> 16)` and `(uint16)eff24`. -/
def splitEff24 (eff24 : CInt) : Byte × Word := ((eff24 >>> 16).setWidth 8, eff24.setWidth 16)

/-- The 16-bit offset of a reference. -/
def segOffset (seg : SegRef) : Word := BitVec.ofNat 16 seg.offset

/-- `_segref_addr_expr`: the bank and address, after the pointer reads they make. -/
def segrefAddr (bus : Bus M) (seg : SegRef) (cpu : CpuState) (m : M) : (Byte × Word) × M :=
  let off := segOffset seg
  let idx := segIndex seg cpu
  match seg.kind with
  | .direct => ((0x7E, cpu.D + off + idx), m)
  | .absBank =>
    if seg.index = none then ((cpu.DB, off), m)
    else
      (splitEff24 ((cpu.DB.setWidth 32 <<< 16) + BitVec.ofNat 32 seg.offset +
        cint16 (segIndexReg seg cpu)), m)
  | .long =>
    let bank := seg.bank.getD 0
    if seg.index = none then ((BitVec.ofNat 8 bank, off), m)
    else
      let base24 := (bank <<< 16) ||| (seg.offset &&& 0xFFFF)
      (splitEff24 (BitVec.ofNat 32 base24 + cint16 (segIndexReg seg cpu)), m)
  | .stack => ((0x00, cpu.S + off), m)
  | .dpIndirect =>
    let ptr := bus.read16 0x00 (cpu.D + off) m
    ((cpu.DB, ptr.1 + idx), ptr.2)
  | .dpIndirectLong =>
    let bank := bus.read8 0x00 (cpu.D + off + 2) m
    let ptr := bus.read16 0x00 (cpu.D + off) bank.2
    ((bank.1, ptr.1 + idx), ptr.2)
  | .absIndirect =>
    let ptr := bus.read16 cpu.PB off m
    ((cpu.PB, ptr.1), ptr.2)
  | .absIndirectX =>
    let ptr := bus.read16 cpu.PB (off + cpu.X) m
    ((cpu.PB, ptr.1), ptr.2)
  | .absIndirectLong =>
    let bank := bus.read8 0x00 (off + 2) m
    let ptr := bus.read16 0x00 off bank.2
    ((bank.1, ptr.1), ptr.2)
  | .dpIndirectX =>
    let ptr := bus.read16 0x00 (cpu.D + off + cpu.X) m
    ((cpu.DB, ptr.1), ptr.2)
  | .stackRelIndirectY =>
    let ptr := bus.read16 0x00 (cpu.S + off) m
    ((cpu.DB, ptr.1 + cpu.Y), ptr.2)

/-- `cpu_read8` or `cpu_read16` of a reference, as wide as the operation. -/
def readSeg (bus : Bus M) (seg : SegRef) (width : Width) (cpu : CpuState) (m : M) : Word × M :=
  let a := segrefAddr bus seg cpu m
  match width with
  | .byte =>
    let r := bus.read8 a.1.1 a.1.2 a.2
    (r.1.setWidth 16, r.2)
  | .word => bus.read16 a.1.1 a.1.2 a.2

/-- `cpu_write8` or `cpu_write16` of a reference. -/
def writeSeg (bus : Bus M) (seg : SegRef) (width : Width) (v : Word) (cpu : CpuState) (m : M) : M :=
  let a := segrefAddr bus seg cpu m
  match width with
  | .byte => bus.write8 a.1.1 a.1.2 (loByte v) a.2
  | .word => bus.write16 a.1.1 a.1.2 v a.2

/-! ### Arithmetic -/

/-- The decimal branch of `_emit_addsub`: the result, `V` and `C`. -/
def bcdAdd (l r : CInt) (width : Width) (c : Bool) : Word × Bool × Bool :=
  let bcd := (l &&& 0xF) + (r &&& 0xF) + cintB c
  let bcd := if cgt bcd 0x9 then ((bcd + 0x6) &&& 0xF) + 0x10 else bcd
  let bcd := (l &&& 0xF0) + (r &&& 0xF0) + bcd
  match width with
  | .byte =>
    let v := (l &&& 0x80 == r &&& 0x80) && (r &&& 0x80 != bcd &&& 0x80)
    let bcd := if cgt bcd 0x9F then bcd + 0x60 else bcd
    (toCtype .byte (bcd &&& 0xFF), v, cgt bcd 0xFF)
  | .word =>
    let bcd := if cgt bcd 0x9F then ((bcd + 0x60) &&& 0xFF) + 0x100 else bcd
    let bcd := (l &&& 0xF00) + (r &&& 0xF00) + bcd
    let bcd := if cgt bcd 0x9FF then ((bcd + 0x600) &&& 0xFFF) + 0x1000 else bcd
    let bcd := (l &&& 0xF000) + (r &&& 0xF000) + bcd
    let v := (l &&& 0x8000 == r &&& 0x8000) && (r &&& 0x8000 != bcd &&& 0x8000)
    let bcd := if cgt bcd 0x9FFF then bcd + 0x6000 else bcd
    (toCtype .word bcd, v, cgt bcd 0xFFFF)

/-- The decimal branch of `_emit_addsub` for `SBC`. -/
def bcdSub (l r : CInt) (width : Width) (c : Bool) : Word × Bool × Bool :=
  let bcv := (r ^^^ opMask width) &&& opMask width
  let bcd := (l &&& 0xF) + (bcv &&& 0xF) + cintB c
  let bcd :=
    if clt bcd 0x10 then (bcd - 0x6) &&& (if clt (bcd - 0x6) 0 then 0xF else 0x1F) else bcd
  let bcd := (l &&& 0xF0) + (bcv &&& 0xF0) + bcd
  match width with
  | .byte =>
    let v := (l &&& 0x80 == bcv &&& 0x80) && (bcv &&& 0x80 != bcd &&& 0x80)
    let bcd := if clt bcd 0x100 then bcd - 0x60 else bcd
    (toCtype .byte (bcd &&& 0xFF), v, cgt bcd 0xFF)
  | .word =>
    let bcd :=
      if clt bcd 0x100 then (bcd - 0x60) &&& (if clt (bcd - 0x60) 0 then 0xFF else 0x1FF) else bcd
    let bcd := (l &&& 0xF00) + (bcv &&& 0xF00) + bcd
    let bcd :=
      if clt bcd 0x1000 then (bcd - 0x600) &&& (if clt (bcd - 0x600) 0 then 0xFFF else 0x1FFF)
      else bcd
    let bcd := (l &&& 0xF000) + (bcv &&& 0xF000) + bcd
    let v := (l &&& 0x8000 == bcv &&& 0x8000) && (bcv &&& 0x8000 != bcd &&& 0x8000)
    let bcd := if clt bcd 0x10000 then bcd - 0x6000 else bcd
    (toCtype .word bcd, v, cgt bcd 0xFFFF)

/-- The binary branch of `_emit_addsub` for `ADC`. -/
def binAdd (l r : CInt) (width : Width) (c : Bool) : Word × Bool × Bool :=
  let t := l + r + cintB c
  let out := toCtype width t
  (out, setVAdc l r out width, t &&& carryBit width != 0)

/-- The binary branch of `_emit_addsub` for `SBC`. -/
def binSub (l r : CInt) (width : Width) (c : Bool) : Word × Bool × Bool :=
  let t := l - r - (1 - cintB c)
  let out := toCtype width t
  (out, setVSbc l r out width, !(t &&& carryBit width != 0))

/-- `_emit_addsub`: the result, and the state with `V` and `C`. -/
def emitAddSub (isSub : Bool) (l r : CInt) (width : Width) (cpu : CpuState) : Word × CpuState :=
  let res :=
    if cpu.flagD then
      if isSub then bcdSub l r width cpu.flagC else bcdAdd l r width cpu.flagC
    else
      if isSub then binSub l r width cpu.flagC else binAdd l r width cpu.flagC
  (res.1, { cpu with flagV := res.2.1, flagC := res.2.2 })

/-- The result of an ALU operation before its flags; `none` for `CMP`. -/
def aluResult (op : AluOp) (lhs rhs : Word) (width : Width) (cpu : CpuState) : Word × CpuState :=
  match op with
  | .add => emitAddSub false (masked lhs width) (masked rhs width) width cpu
  | .sub => emitAddSub true (masked lhs width) (masked rhs width) width cpu
  | .and => (toCtype width (cint16 lhs &&& cint16 rhs), cpu)
  | .or => (toCtype width (cint16 lhs ||| cint16 rhs), cpu)
  | .xor => (toCtype width (cint16 lhs ^^^ cint16 rhs), cpu)
  | .cmp =>
    (toCtype width (masked lhs width - masked rhs width),
      { cpu with flagC := !clt (masked lhs width) (masked rhs width) })

/-- `_emit_alu`: every operation sets `N` and `Z` from its result. -/
def emitAlu (op : AluOp) (lhs rhs : Word) (width : Width) (cpu : CpuState) : Word × CpuState :=
  let res := aluResult op lhs rhs width cpu
  (res.1, setNzNoP (cint16 res.1) width res.2)

/-- `_emit_shift`. -/
def emitShift (op : ShiftOp) (src : Word) (width : Width) (cpu : CpuState) : Word × CpuState :=
  let v := masked src width
  let carry := match op with
    | .asl | .rol => v &&& signBit width != 0
    | .lsr | .ror => v &&& 1 != 0
  let out := match op with
    | .asl => toCtype width (v <<< 1)
    | .lsr => toCtype width (v >>> 1)
    | .rol => toCtype width ((v <<< 1) ||| cintB cpu.flagC)
    | .ror =>
      match width with
      | .byte => toCtype .byte ((v >>> 1) ||| (cintB cpu.flagC <<< 7))
      | .word => toCtype .word ((v >>> 1) ||| (cintB cpu.flagC <<< 15))
  (out, setNzNoP (cint16 out) width { cpu with flagC := carry })

/-- `+1` or `-1`. -/
def Delta.toCInt : Delta → CInt
  | .up => 1
  | .down => -1

/-- `_emit_increg`. -/
def emitIncReg (reg : Reg) (delta : Delta) (cpu : CpuState) : CpuState :=
  let field := readRegField cpu reg
  let lo8 : Byte := (cint8 (loByte field) + delta.toCInt).setWidth 8
  let wide : Word := (cint16 field + delta.toCInt).setWidth 16
  match reg with
  | .a =>
    if cpu.mFlag then
      setNzNoP (cint8 lo8) .byte (writeRegField cpu (preserveHigh field lo8) .a)
    else setNzNoP (cint16 wide) .word (writeRegField cpu wide .a)
  | .x | .y =>
    if cpu.xFlag then setNzNoP (cint8 lo8) .byte (writeRegField cpu (lo8.setWidth 16) reg)
    else setNzNoP (cint16 wide) .word (writeRegField cpu wide reg)
  | reg =>
    let cpu := writeRegField cpu wide reg
    setNzNoP (cint16 (readRegField cpu reg)) .word cpu

/-- `_emit_bittest`. -/
def emitBitTest (operand : Word) (width : Width) (imm : Bool) (cpu : CpuState) : CpuState :=
  let bt := toCtype width (masked cpu.A width &&& masked operand width)
  let cpu := { cpu with flagZ := bt == 0 }
  if imm then cpu
  else
    { cpu with
      flagN := masked operand width &&& signBit width != 0
      flagV := masked operand width &&& overflowBit width != 0 }

/-! ### Flags -/

/-- `flag_to_p_mask`. -/
def flagToPMask : Reg → Option Byte
  | .c => some 0x01
  | .zf => some 0x02
  | .i => some 0x04
  | .df => some 0x08
  | .xf => some 0x10
  | .m => some 0x20
  | .v => some 0x40
  | .n => some 0x80
  | _ => none

/-- `_emit_setflag`. -/
def emitSetFlag (flag : Reg) (value : Bool) (cpu : CpuState) : CpuState :=
  let cpu := writeRegField cpu (if value then 1 else 0) flag
  match flagToPMask flag with
  | some mask => { cpu with P := if value then cpu.P ||| mask else cpu.P &&& ~~~ mask }
  | none => cpu

/-- `modify_p_via_mirrors`, with what the mask does to `P`. -/
def modifyPViaMirrors (op : Byte → Byte) (cpu : CpuState) : CpuState :=
  let cpu := cpuMirrorsToP cpu
  cpuPToMirrors { cpu with P := op cpu.P }

/-- `modify_p_via_mirrors(mask, "rep")`. -/
def emitRep (mask : Byte) (cpu : CpuState) : CpuState := modifyPViaMirrors (· &&& ~~~ mask) cpu

/-- `modify_p_via_mirrors(mask, "sep")`. -/
def emitSep (mask : Byte) (cpu : CpuState) : CpuState := modifyPViaMirrors (· ||| mask) cpu

/-- `_emit_xce`. -/
def emitXce (cpu : CpuState) : CpuState :=
  let cpu := { cpu with emulation := cpu.flagC, flagC := cpu.emulation }
  if cpu.emulation then cpuMirrorsToP { cpu with mFlag := true, xFlag := true } else cpu

/-- `_emit_xba`. -/
def emitXba (cpu : CpuState) : CpuState :=
  let a := mkWord (hiByte cpu.A) (loByte cpu.A)
  { cpu with A := a, flagZ := a &&& 0xFF == 0, flagN := a &&& 0x80 != 0 }

/-! ### Stack -/

/-- `push_byte`. -/
def pushByte (bus : Bus M) (v : Byte) (s : EmitState M) : EmitState M :=
  { s with mem := bus.write8 0x00 s.cpu.S v s.mem, cpu := { s.cpu with S := s.cpu.S - 1 } }

/-- `push_word`: one word store between the two decrements. -/
def pushWord (bus : Bus M) (v : Word) (s : EmitState M) : EmitState M :=
  { s with
    mem := bus.write16 0x00 (s.cpu.S - 1) v s.mem
    cpu := { s.cpu with S := s.cpu.S - 1 - 1 } }

/-- `pop_byte_assign`. -/
def popByte (bus : Bus M) (s : EmitState M) : Byte × EmitState M :=
  let r := bus.read8 0x00 (s.cpu.S + 1) s.mem
  (r.1, { s with mem := r.2, cpu := { s.cpu with S := s.cpu.S + 1 } })

/-- `pop_word_assign`: one word load between the two increments. -/
def popWord (bus : Bus M) (s : EmitState M) : Word × EmitState M :=
  let r := bus.read16 0x00 (s.cpu.S + 1) s.mem
  (r.1, { s with mem := r.2, cpu := { s.cpu with S := s.cpu.S + 1 + 1 } })

/-- A push of `A`, `X` or `Y` as wide as the static width, or the flag without one. -/
def pushWide (bus : Bus M) (isByte : Bool) (v : Word) (s : EmitState M) : EmitState M :=
  if isByte then pushByte bus (loByte v) s else pushWord bus v s

/-- `_emit_pushreg`. -/
def emitPushReg (bus : Bus M) (reg : Reg) (staticM staticX : Option Bool) (s : EmitState M) :
    EmitState M :=
  match reg with
  | .p =>
    let s := { s with cpu := cpuMirrorsToP s.cpu }
    pushByte bus s.cpu.P s
  | .db => pushByte bus s.cpu.DB s
  | .pb => pushByte bus s.cpu.PB s
  | .d => pushWord bus s.cpu.D s
  | .a => pushWide bus (staticM.getD s.cpu.mFlag) s.cpu.A s
  | .x => pushWide bus (staticX.getD s.cpu.xFlag) s.cpu.X s
  | .y => pushWide bus (staticX.getD s.cpu.xFlag) s.cpu.Y s
  | _ => s

/-- A pull of `X` or `Y`: a byte is zero-extended, a word is taken whole. -/
def pullIndex (bus : Bus M) (isByte : Bool) (reg : Reg) (s : EmitState M) : EmitState M :=
  if isByte then
    let v := popByte bus s
    { v.2 with
      cpu := syncPNz (setNzNoP (cint8 v.1) .byte (writeRegField v.2.cpu (v.1.setWidth 16) reg)) }
  else
    let v := popWord bus s
    { v.2 with cpu := syncPNz (setNzNoP (cint16 v.1) .word (writeRegField v.2.cpu v.1 reg)) }

/-- `_emit_pullreg`. -/
def emitPullReg (bus : Bus M) (reg : Reg) (staticM staticX : Option Bool) (s : EmitState M) :
    EmitState M :=
  match reg with
  | .p =>
    let v := popByte bus s
    { v.2 with cpu := cpuPToMirrors { v.2.cpu with P := v.1 } }
  | .db =>
    let v := popByte bus s
    { v.2 with cpu := setNz (cint8 v.1) .byte { v.2.cpu with DB := v.1 } }
  | .pb =>
    let v := popByte bus s
    { v.2 with cpu := setNz (cint8 v.1) .byte { v.2.cpu with PB := v.1 } }
  | .d =>
    let v := popWord bus s
    { v.2 with cpu := setNz (cint16 v.1) .word { v.2.cpu with D := v.1 } }
  | .a =>
    if staticM.getD s.cpu.mFlag then
      let v := popByte bus s
      { v.2 with
        cpu := syncPNz (setNzNoP (cint8 v.1) .byte
          { v.2.cpu with A := preserveHigh v.2.cpu.A v.1 }) }
    else
      let v := popWord bus s
      { v.2 with cpu := syncPNz (setNzNoP (cint16 v.1) .word { v.2.cpu with A := v.1 }) }
  | .x => pullIndex bus (staticX.getD s.cpu.xFlag) .x s
  | .y => pullIndex bus (staticX.getD s.cpu.xFlag) .y s
  | _ => s

/-- `_emit_pea_per_pei`. -/
def emitPushEffectiveAddress (bus : Bus M) (seg : SegRef) (s : EmitState M) : EmitState M :=
  match seg.kind with
  | .absBank => pushWord bus (segOffset seg) s
  | .dpIndirect =>
    let v := bus.read16 0x00 (s.cpu.D + segOffset seg) s.mem
    pushWord bus v.1 { s with mem := v.2 }
  | _ => s

/-! ### Transfers and block moves -/

/-- A transfer into `A`, `X` or `Y` under a width flag. -/
def transferWide (isByte : Bool) (src : Word) (dst : Reg) (cpu : CpuState) : CpuState :=
  let lo := loByte src
  let cpu :=
    if isByte then
      let v := if dst = .a then preserveHigh cpu.A lo else lo.setWidth 16
      setNzNoP (cint8 lo) .byte (writeRegField cpu v dst)
    else setNzNoP (cint16 src) .word (writeRegField cpu src dst)
  syncPNz cpu

/-- `_emit_transfer`. -/
def emitTransfer (src dst : Reg) (cpu : CpuState) : CpuState :=
  let v := readRegField cpu src
  if dst = .s then writeRegField cpu v .s
  else if dst = .a ∧ (src = .d ∨ src = .s) then setNz (cint16 v) .word (writeRegField cpu v .a)
  else
    match dst with
    | .a => transferWide cpu.mFlag v .a cpu
    | .x => transferWide cpu.xFlag v .x cpu
    | .y => transferWide cpu.xFlag v .y cpu
    | dst =>
      let cpu := writeRegField cpu v dst
      setNz (cint16 (readRegField cpu dst)) .word cpu

/-- One turn of the loop of `_emit_blockmove`. -/
def blockMoveStep (bus : Bus M) (delta : Delta) (srcB dstB : Byte) (s : EmitState M) :
    EmitState M :=
  let b := bus.read8 srcB s.cpu.X s.mem
  let d : Word := delta.toCInt.setWidth 16
  { s with
    mem := bus.write8 dstB s.cpu.Y b.1 b.2
    cpu := { s.cpu with X := s.cpu.X + d, Y := s.cpu.Y + d, A := s.cpu.A - 1 } }

/-- `while (cpu->A != 0xFFFF)`, for at most `fuel` turns. -/
def blockMoveLoop (bus : Bus M) (delta : Delta) (srcB dstB : Byte) :
    Nat → EmitState M → EmitState M
  | 0, s => s
  | fuel + 1, s =>
    if s.cpu.A = 0xFFFF then s
    else blockMoveLoop bus delta srcB dstB fuel (blockMoveStep bus delta srcB dstB s)

/-- `_emit_blockmove`.  The loop counts `A` down to `0xFFFF`, so 65536 turns of fuel
suffice. -/
def emitBlockMove (bus : Bus M) (direction : Direction) (srcBank dstBank : Nat)
    (s : EmitState M) : EmitState M :=
  let delta := if direction = .mvn then Delta.up else Delta.down
  let s := blockMoveLoop bus delta (BitVec.ofNat 8 srcBank) (BitVec.ofNat 8 dstBank) 0x10000 s
  { s with cpu := { s.cpu with DB := BitVec.ofNat 8 dstBank } }

/-! ### One operation -/

def execOp (bus : Bus M) : IROp → EmitState M → EmitState M
  | .read seg width out, s =>
    let r := readSeg bus seg width s.cpu s.mem
    { s with mem := r.2 }.setVal out r.1
  | .write seg src width, s => { s with mem := writeSeg bus seg width (s.vals src) s.cpu s.mem }
  | .readReg reg out, s => s.setVal out (readRegField s.cpu reg)
  | .writeReg reg src, s => { s with cpu := emitWriteReg reg (s.vals src) s.cpu }
  | .constI value width out, s => s.setVal out (toCtype width (BitVec.ofNat 32 value))
  | .alu op lhs rhs width out, s =>
    let r := emitAlu op (s.vals lhs) (s.vals rhs) width s.cpu
    let s := { s with cpu := r.2 }
    match out with
    | some out => s.setVal out r.1
    | none => s
  | .shift op src width out, s =>
    let r := emitShift op (s.vals src) width s.cpu
    { s with cpu := r.2 }.setVal out r.1
  | .incReg reg delta, s => { s with cpu := emitIncReg reg delta s.cpu }
  | .incMem seg width delta, s =>
    let r := readSeg bus seg width s.cpu s.mem
    let im := toCtype width (cint16 r.1 + delta.toCInt)
    { s with
      mem := writeSeg bus seg width im s.cpu r.2
      cpu := setNzNoP (cint16 im) width s.cpu }
  | .bitTest operand width imm, s =>
    { s with cpu := emitBitTest (s.vals operand) width imm s.cpu }
  | .bitSetMem seg width, s =>
    let r := readSeg bus seg width s.cpu s.mem
    { s with
      mem := writeSeg bus seg width (r.1 ||| s.cpu.A) s.cpu r.2
      cpu := { s.cpu with flagZ := r.1 &&& s.cpu.A == 0 } }
  | .bitClearMem seg width, s =>
    let r := readSeg bus seg width s.cpu s.mem
    { s with
      mem := writeSeg bus seg width (r.1 &&& ~~~ s.cpu.A) s.cpu r.2
      cpu := { s.cpu with flagZ := r.1 &&& s.cpu.A == 0 } }
  | .setFlag flag value, s => { s with cpu := emitSetFlag flag value s.cpu }
  | .setNZ src width, s => { s with cpu := setNz (masked (s.vals src) width) width s.cpu }
  | .repFlags mask, s => { s with cpu := emitRep (BitVec.ofNat 8 mask) s.cpu }
  | .sepFlags mask, s => { s with cpu := emitSep (BitVec.ofNat 8 mask) s.cpu }
  | .xce, s => { s with cpu := emitXce s.cpu }
  | .push src width, s =>
    match width with
    | .byte => pushByte bus (loByte (s.vals src)) s
    | .word => pushWord bus (s.vals src) s
  | .pull width out, s =>
    match width with
    | .byte =>
      let v := popByte bus s
      v.2.setVal out (v.1.setWidth 16)
    | .word =>
      let v := popWord bus s
      v.2.setVal out v.1
  | .pushReg reg staticM staticX, s => emitPushReg bus reg staticM staticX s
  | .pullReg reg staticM staticX, s => emitPullReg bus reg staticM staticX s
  | .blockMove direction srcBank dstBank, s => emitBlockMove bus direction srcBank dstBank s
  | .transfer src dst, s => { s with cpu := emitTransfer src dst s.cpu }
  | .xba, s => { s with cpu := emitXba s.cpu }
  | .pushEffectiveAddress seg, s => emitPushEffectiveAddress bus seg s
  | .condBranch _ _, s => s
  | .goto, s => s
  | .indirectGoto _, s => s
  | .call _, s => s
  | .ret _, s => s
  | .nop, s => s
  | .brk _, s => s
  | .stop _, s => s

def execOps (bus : Bus M) (ops : List IROp) (s : EmitState M) : EmitState M :=
  ops.foldl (fun s op => execOp bus op s) s

@[simp] theorem execOps_nil (bus : Bus M) (s : EmitState M) : execOps bus [] s = s := rfl

@[simp] theorem execOps_cons (bus : Bus M) (op : IROp) (ops : List IROp) (s : EmitState M) :
    execOps bus (op :: ops) s = execOps bus ops (execOp bus op s) := rfl

end SnesRecomp.Recompiler
