import SnesRecomp.Interp.Alu

/-!
# The interpreter's opcodes

`interp816_doOpcode` and `interp816_runOpcode`.  The switch of the source has 256
cases; most of them are an addressing mode followed by an opcode function.  Here a
table of 256 entries gives the operation of each opcode (`Op`), and `exec` is what one
operation does.  `BRK` calls the hook of the bridge, which always answers `0`
(continue), so it is an operation without effect; so is `WAI`, which only sets a flag
that nothing reads.
-/

namespace SnesRecomp.Interp816

/-- The addressing modes of the operations that go through an operand's addresses. -/
inductive AdrMode
  | imm (xFlag : Bool)
  | dp | dpx | dpy | idp | idx | idy | idl | ily | sr | isy | abs | abx | aby | abl | alx
  deriving DecidableEq, Repr

/-- The operations that go through an operand's addresses. -/
inductive MemOp
  | ora | and | eor | adc | sbc | cmp | cpx | cpy | bit | lda | ldx | ldy | sta | stx | sty | stz
  | ror | rol | lsr | asl | inc | dec | tsb | trb
  deriving DecidableEq, Repr

/-- The operations of the switch. -/
inductive Op
  | mem (op : MemOp) (mode : AdrMode)
  | bpl | bmi | bvc | bvs | bcc | bcs | bne | beq | bra | brl
  | jmp | jml | jmpInd | jmlIal | jmpIax | jsr | jsl | jsrIax | rts | rtl | rti | brk | cop
  | php | plp | pha | pla | phx | plx | phy | ply | phb | plb | phd | pld | phk | pea | pei | per
  | asla | lsra | rola | rora | inca | deca | inx | iny | dex | dey | biti
  | tax | tay | txa | tya | txy | tyx | tsx | txs | tcd | tdc | tcs | tsc | xba
  | clc | sec | cli | sei | cld | sed | clv | rep | sep | xce
  | mvp | mvn | nop | wdm | wai | stp
  deriving DecidableEq, Repr

/-- The switch of `interp816_doOpcode`, one row for each high digit. -/
def opTable : List Op :=
  [
    -- $00
    .brk, .mem .ora .idx, .cop, .mem .ora .sr, .mem .tsb .dp, .mem .ora .dp, .mem .asl .dp,
    .mem .ora .idl, .php, .mem .ora (.imm false), .asla, .phd, .mem .tsb .abs, .mem .ora .abs,
    .mem .asl .abs, .mem .ora .abl,
    -- $10
    .bpl, .mem .ora .idy, .mem .ora .idp, .mem .ora .isy, .mem .trb .dp, .mem .ora .dpx,
    .mem .asl .dpx, .mem .ora .ily, .clc, .mem .ora .aby, .inca, .tcs, .mem .trb .abs,
    .mem .ora .abx, .mem .asl .abx, .mem .ora .alx,
    -- $20
    .jsr, .mem .and .idx, .jsl, .mem .and .sr, .mem .bit .dp, .mem .and .dp, .mem .rol .dp,
    .mem .and .idl, .plp, .mem .and (.imm false), .rola, .pld, .mem .bit .abs, .mem .and .abs,
    .mem .rol .abs, .mem .and .abl,
    -- $30
    .bmi, .mem .and .idy, .mem .and .idp, .mem .and .isy, .mem .bit .dpx, .mem .and .dpx,
    .mem .rol .dpx, .mem .and .ily, .sec, .mem .and .aby, .deca, .tsc, .mem .bit .abx,
    .mem .and .abx, .mem .rol .abx, .mem .and .alx,
    -- $40
    .rti, .mem .eor .idx, .wdm, .mem .eor .sr, .mvp, .mem .eor .dp, .mem .lsr .dp, .mem .eor .idl,
    .pha, .mem .eor (.imm false), .lsra, .phk, .jmp, .mem .eor .abs, .mem .lsr .abs,
    .mem .eor .abl,
    -- $50
    .bvc, .mem .eor .idy, .mem .eor .idp, .mem .eor .isy, .mvn, .mem .eor .dpx, .mem .lsr .dpx,
    .mem .eor .ily, .cli, .mem .eor .aby, .phy, .tcd, .jml, .mem .eor .abx, .mem .lsr .abx,
    .mem .eor .alx,
    -- $60
    .rts, .mem .adc .idx, .per, .mem .adc .sr, .mem .stz .dp, .mem .adc .dp, .mem .ror .dp,
    .mem .adc .idl, .pla, .mem .adc (.imm false), .rora, .rtl, .jmpInd, .mem .adc .abs,
    .mem .ror .abs, .mem .adc .abl,
    -- $70
    .bvs, .mem .adc .idy, .mem .adc .idp, .mem .adc .isy, .mem .stz .dpx, .mem .adc .dpx,
    .mem .ror .dpx, .mem .adc .ily, .sei, .mem .adc .aby, .ply, .tdc, .jmpIax, .mem .adc .abx,
    .mem .ror .abx, .mem .adc .alx,
    -- $80
    .bra, .mem .sta .idx, .brl, .mem .sta .sr, .mem .sty .dp, .mem .sta .dp, .mem .stx .dp,
    .mem .sta .idl, .dey, .biti, .txa, .phb, .mem .sty .abs, .mem .sta .abs, .mem .stx .abs,
    .mem .sta .abl,
    -- $90
    .bcc, .mem .sta .idy, .mem .sta .idp, .mem .sta .isy, .mem .sty .dpx, .mem .sta .dpx,
    .mem .stx .dpy, .mem .sta .ily, .tya, .mem .sta .aby, .txs, .txy, .mem .stz .abs,
    .mem .sta .abx, .mem .stz .abx, .mem .sta .alx,
    -- $A0
    .mem .ldy (.imm true), .mem .lda .idx, .mem .ldx (.imm true), .mem .lda .sr, .mem .ldy .dp,
    .mem .lda .dp, .mem .ldx .dp, .mem .lda .idl, .tay, .mem .lda (.imm false), .tax, .plb,
    .mem .ldy .abs, .mem .lda .abs, .mem .ldx .abs, .mem .lda .abl,
    -- $B0
    .bcs, .mem .lda .idy, .mem .lda .idp, .mem .lda .isy, .mem .ldy .dpx, .mem .lda .dpx,
    .mem .ldx .dpy, .mem .lda .ily, .clv, .mem .lda .aby, .tsx, .tyx, .mem .ldy .abx,
    .mem .lda .abx, .mem .ldx .aby, .mem .lda .alx,
    -- $C0
    .mem .cpy (.imm true), .mem .cmp .idx, .rep, .mem .cmp .sr, .mem .cpy .dp, .mem .cmp .dp,
    .mem .dec .dp, .mem .cmp .idl, .iny, .mem .cmp (.imm false), .dex, .wai, .mem .cpy .abs,
    .mem .cmp .abs, .mem .dec .abs, .mem .cmp .abl,
    -- $D0
    .bne, .mem .cmp .idy, .mem .cmp .idp, .mem .cmp .isy, .pei, .mem .cmp .dpx, .mem .dec .dpx,
    .mem .cmp .ily, .cld, .mem .cmp .aby, .phx, .stp, .jmlIal, .mem .cmp .abx, .mem .dec .abx,
    .mem .cmp .alx,
    -- $E0
    .mem .cpx (.imm true), .mem .sbc .idx, .sep, .mem .sbc .sr, .mem .cpx .dp, .mem .sbc .dp,
    .mem .inc .dp, .mem .sbc .idl, .inx, .mem .sbc (.imm false), .nop, .xba, .mem .cpx .abs,
    .mem .sbc .abs, .mem .inc .abs, .mem .sbc .abl,
    -- $F0
    .beq, .mem .sbc .idy, .mem .sbc .idp, .mem .sbc .isy, .pea, .mem .sbc .dpx, .mem .inc .dpx,
    .mem .sbc .ily, .sed, .mem .sbc .aby, .plx, .xce, .jsrIax, .mem .sbc .abx, .mem .inc .abx,
    .mem .sbc .alx
  ]

def opOf (opcode : Byte) : Op := opTable.getD opcode.toNat .nop

variable {M : Type} (bus : ByteBus M)

/-- The operand of an operation, fetched and resolved. -/
def adr : AdrMode → Interp816 M → Operand × Interp816 M
  | .imm xFlag => adrImm xFlag
  | .dp => adrDp bus
  | .dpx => adrDpx bus
  | .dpy => adrDpy bus
  | .idp => adrIdp bus
  | .idx => adrIdx bus
  | .idy => adrIdy bus
  | .idl => adrIdl bus
  | .ily => adrIly bus
  | .sr => adrSr bus
  | .isy => adrIsy bus
  | .abs => adrAbs bus
  | .abx => adrAbx bus
  | .aby => adrAby bus
  | .abl => adrAbl bus
  | .alx => adrAlx bus

def memOp : MemOp → Operand → Interp816 M → Interp816 M
  | .ora => ora bus
  | .and => and bus
  | .eor => eor bus
  | .adc => adc bus
  | .sbc => sbc bus
  | .cmp => cmp bus
  | .cpx => cpx bus
  | .cpy => cpy bus
  | .bit => bit bus
  | .lda => lda bus
  | .ldx => ldx bus
  | .ldy => ldy bus
  | .sta => sta bus
  | .stx => stx bus
  | .sty => sty bus
  | .stz => stz bus
  | .ror => ror bus
  | .rol => rol bus
  | .lsr => lsr bus
  | .asl => asl bus
  | .inc => inc bus
  | .dec => dec bus
  | .tsb => tsb bus
  | .trb => trb bus

/-! ### Registers -/

/-- `A` gets `value` at the width of `M`, with the flags. -/
def setA (value : Word) (cpu : Interp816 M) : Interp816 M :=
  let a := if cpu.mf then withLow cpu.a (loByte value) else value
  setZN a cpu.mf { cpu with a := a }

/-- `X` gets `value` at the width of `X`, with the flags. -/
def setX (value : Word) (cpu : Interp816 M) : Interp816 M :=
  let x := if cpu.xf then value &&& 0xFF else value
  setZN x cpu.xf { cpu with x := x }

def setY (value : Word) (cpu : Interp816 M) : Interp816 M :=
  let y := if cpu.xf then value &&& 0xFF else value
  setZN y cpu.xf { cpu with y := y }

def asla (cpu : Interp816 M) : Interp816 M :=
  let cpu :=
    if cpu.mf then
      { cpu with c := cpu.a &&& 0x80 != 0, a := withLow cpu.a (loByte (cpu.a <<< 1)) }
    else { cpu with c := cpu.a &&& 0x8000 != 0, a := cpu.a <<< 1 }
  setZN cpu.a cpu.mf cpu

def lsra (cpu : Interp816 M) : Interp816 M :=
  let c := cpu.a &&& 1 != 0
  let a :=
    if cpu.mf then (cpu.a &&& 0xFF00) ||| ((cpu.a >>> 1) &&& 0x7F)
    else cpu.a >>> 1
  setZN a cpu.mf { cpu with c := c, a := a }

def rola (cpu : Interp816 M) : Interp816 M :=
  let result := (cint16 cpu.a <<< 1) ||| cintB cpu.c
  let cpu :=
    if cpu.mf then
      { cpu with c := result &&& 0x100 != 0, a := withLow cpu.a (result.setWidth 8) }
    else { cpu with c := result &&& 0x10000 != 0, a := result.setWidth 16 }
  setZN cpu.a cpu.mf cpu

def rora (cpu : Interp816 M) : Interp816 M :=
  let carry := cpu.a &&& 1 != 0
  let a : Word :=
    if cpu.mf then
      (cpu.a &&& 0xFF00) ||| ((cpu.a >>> 1) &&& 0x7F) ||| ((cintB cpu.c <<< 7).setWidth 16)
    else (cpu.a >>> 1) ||| ((cintB cpu.c <<< 15).setWidth 16)
  setZN a cpu.mf { cpu with c := carry, a := a }

/-- `BIT #imm`: only `Z`. -/
def biti (cpu : Interp816 M) : Interp816 M :=
  if cpu.mf then
    let value := readOpcode bus cpu
    { value.2 with z := loByte value.2.a &&& value.1 == 0 }
  else
    let value := readOpcodeWord bus cpu
    { value.2 with z := value.2.a &&& value.1 == 0 }

def xba (cpu : Interp816 M) : Interp816 M :=
  let low := loByte cpu.a
  let high := hiByte cpu.a
  setZN (high.setWidth 16) true { cpu with a := mkWord high low }

def xce (cpu : Interp816 M) : Interp816 M :=
  let cpu := { cpu with c := cpu.e, e := cpu.c }
  setFlags (getFlags cpu) cpu

def rep (cpu : Interp816 M) : Interp816 M :=
  let value := readOpcode bus cpu
  setFlags (getFlags value.2 &&& ~~~ value.1) value.2

def sep (cpu : Interp816 M) : Interp816 M :=
  let value := readOpcode bus cpu
  setFlags (getFlags value.2 ||| value.1) value.2

/-! ### Stack -/

/-- A register pushed at the width `byte`. -/
def pushReg (byte : Bool) (value : Word) (cpu : Interp816 M) : Interp816 M :=
  if byte then pushByte bus (loByte value) cpu else pushWord bus value cpu

def pla (cpu : Interp816 M) : Interp816 M :=
  let cpu :=
    if cpu.mf then
      let value := pullByte bus cpu
      { value.2 with a := withLow value.2.a value.1 }
    else
      let value := pullWord bus cpu
      { value.2 with a := value.1 }
  setZN cpu.a cpu.mf cpu

/-- The value `plx` and `ply` pull, zero-extended when it is a byte. -/
def pullIndex (cpu : Interp816 M) : Word × Interp816 M :=
  if cpu.xf then
    let value := pullByte bus cpu
    (value.1.setWidth 16, value.2)
  else pullWord bus cpu

def plx (cpu : Interp816 M) : Interp816 M :=
  let value := pullIndex bus cpu
  setZN value.1 value.2.xf { value.2 with x := value.1 }

def ply (cpu : Interp816 M) : Interp816 M :=
  let value := pullIndex bus cpu
  setZN value.1 value.2.xf { value.2 with y := value.1 }

def plb (cpu : Interp816 M) : Interp816 M :=
  let value := pullByte bus cpu
  setZN (value.1.setWidth 16) true { value.2 with db := value.1 }

def pld (cpu : Interp816 M) : Interp816 M :=
  let value := pullWord bus cpu
  setZN value.1 false { value.2 with dp := value.1 }

def plp (cpu : Interp816 M) : Interp816 M :=
  let value := pullByte bus cpu
  setFlags value.1 value.2

/-- The source clears `Y` for one particular operand. -/
def pea (cpu : Interp816 M) : Interp816 M :=
  let w := readOpcodeWord bus cpu
  pushWord bus w.1 (if w.1 = 0xC2AE then { w.2 with y := 0 } else w.2)

def pei (cpu : Interp816 M) : Interp816 M :=
  let o := adrDp bus cpu
  let value := readWord bus o.1.low o.1.high o.2
  pushWord bus value.1 value.2

def per (cpu : Interp816 M) : Interp816 M :=
  let value := readOpcodeWord bus cpu
  pushWord bus (value.2.pc + value.1) value.2

/-! ### Control flow -/

def branch (check : Bool) (cpu : Interp816 M) : Interp816 M :=
  let value := readOpcode bus cpu
  doBranch value.1 check value.2

def brl (cpu : Interp816 M) : Interp816 M :=
  let value := readOpcodeWord bus cpu
  { value.2 with pc := value.2.pc + value.1 }

def jmp (cpu : Interp816 M) : Interp816 M :=
  let value := readOpcodeWord bus cpu
  { value.2 with pc := value.1 }

def jml (cpu : Interp816 M) : Interp816 M :=
  let value := readOpcodeWord bus cpu
  let newK := readOpcode bus value.2
  { newK.2 with k := newK.1 &&& 0x7F, pc := value.1 }

def jmpInd (cpu : Interp816 M) : Interp816 M :=
  let adr := readOpcodeWord bus cpu
  let value := readWord bus (u32 adr.1) (u32 (adr.1 + 1)) adr.2
  { value.2 with pc := value.1 }

def jmlIal (cpu : Interp816 M) : Interp816 M :=
  let adr := readOpcodeWord bus cpu
  let value := readWord bus (u32 adr.1) (u32 (adr.1 + 1)) adr.2
  let bank := read bus (u32 (adr.1 + 2)) { value.2 with pc := value.1 }
  { bank.2 with k := bank.1 &&& 0x7F }

def jmpIax (cpu : Interp816 M) : Interp816 M :=
  let value := adrIax bus cpu
  { value.2 with pc := value.1 }

def jsr (cpu : Interp816 M) : Interp816 M :=
  let value := readOpcodeWord bus cpu
  { pushWord bus (value.2.pc - 1) value.2 with pc := value.1 }

def jsl (cpu : Interp816 M) : Interp816 M :=
  let value := readOpcodeWord bus cpu
  let newK := readOpcode bus value.2
  let cpu := pushByte bus newK.2.k newK.2
  { pushWord bus (cpu.pc - 1) cpu with pc := value.1, k := newK.1 &&& 0x7F }

def jsrIax (cpu : Interp816 M) : Interp816 M :=
  let value := adrIax bus cpu
  { pushWord bus (value.2.pc - 1) value.2 with pc := value.1 }

def rts (cpu : Interp816 M) : Interp816 M :=
  let value := pullWord bus cpu
  { value.2 with pc := value.1 + 1 }

def rtl (cpu : Interp816 M) : Interp816 M :=
  let value := pullWord bus cpu
  let bank := pullByte bus { value.2 with pc := value.1 + 1 }
  { bank.2 with k := bank.1 &&& 0x7F }

def rti (cpu : Interp816 M) : Interp816 M :=
  let flags := pullByte bus cpu
  let value := pullWord bus (setFlags flags.1 flags.2)
  let bank := pullByte bus { value.2 with pc := value.1 }
  { bank.2 with k := bank.1 }

def cop (cpu : Interp816 M) : Interp816 M :=
  enterVector bus 0xFFE4 0xFFE5 (readOpcode bus cpu).2

/-- One byte of `MVN` (`delta` is `1`) or `MVP` (`-1`); the instruction repeats itself
until `A` wraps. -/
def blockMove (delta : Word) (cpu : Interp816 M) : Interp816 M :=
  let dest := readOpcode bus cpu
  let src := readOpcode bus dest.2
  let cpu := { src.2 with db := dest.1 }
  let value := read bus (bankAddr src.1 cpu.x) cpu
  let cpu := write bus (bankAddr dest.1 value.2.y) value.1 value.2
  let cpu : Interp816 M := { cpu with a := cpu.a - 1, x := cpu.x + delta, y := cpu.y + delta }
  clearIndexHigh (if cpu.a = 0xFFFF then cpu else { cpu with pc := cpu.pc - 3 })

/-! ### The switch -/

def exec : Op → Interp816 M → Interp816 M
  | .mem op mode, cpu =>
    let o := adr bus mode cpu
    memOp bus op o.1 o.2
  | .bpl, cpu => branch bus (!cpu.n) cpu
  | .bmi, cpu => branch bus cpu.n cpu
  | .bvc, cpu => branch bus (!cpu.v) cpu
  | .bvs, cpu => branch bus cpu.v cpu
  | .bcc, cpu => branch bus (!cpu.c) cpu
  | .bcs, cpu => branch bus cpu.c cpu
  | .bne, cpu => branch bus (!cpu.z) cpu
  | .beq, cpu => branch bus cpu.z cpu
  | .bra, cpu => branch bus true cpu
  | .brl, cpu => brl bus cpu
  | .jmp, cpu => jmp bus cpu
  | .jml, cpu => jml bus cpu
  | .jmpInd, cpu => jmpInd bus cpu
  | .jmlIal, cpu => jmlIal bus cpu
  | .jmpIax, cpu => jmpIax bus cpu
  | .jsr, cpu => jsr bus cpu
  | .jsl, cpu => jsl bus cpu
  | .jsrIax, cpu => jsrIax bus cpu
  | .rts, cpu => rts bus cpu
  | .rtl, cpu => rtl bus cpu
  | .rti, cpu => rti bus cpu
  | .brk, cpu => cpu
  | .cop, cpu => cop bus cpu
  | .php, cpu => pushByte bus (getFlags cpu) cpu
  | .plp, cpu => plp bus cpu
  | .pha, cpu => pushReg bus cpu.mf cpu.a cpu
  | .pla, cpu => pla bus cpu
  | .phx, cpu => pushReg bus cpu.xf cpu.x cpu
  | .plx, cpu => plx bus cpu
  | .phy, cpu => pushReg bus cpu.xf cpu.y cpu
  | .ply, cpu => ply bus cpu
  | .phb, cpu => pushByte bus cpu.db cpu
  | .plb, cpu => plb bus cpu
  | .phd, cpu => pushWord bus cpu.dp cpu
  | .pld, cpu => pld bus cpu
  | .phk, cpu => pushByte bus cpu.k cpu
  | .pea, cpu => pea bus cpu
  | .pei, cpu => pei bus cpu
  | .per, cpu => per bus cpu
  | .asla, cpu => asla cpu
  | .lsra, cpu => lsra cpu
  | .rola, cpu => rola cpu
  | .rora, cpu => rora cpu
  | .inca, cpu => setA (cpu.a + 1) cpu
  | .deca, cpu => setA (cpu.a - 1) cpu
  | .inx, cpu => setX (cpu.x + 1) cpu
  | .iny, cpu => setY (cpu.y + 1) cpu
  | .dex, cpu => setX (cpu.x - 1) cpu
  | .dey, cpu => setY (cpu.y - 1) cpu
  | .biti, cpu => biti bus cpu
  | .tax, cpu => setX cpu.a cpu
  | .tay, cpu => setY cpu.a cpu
  | .txa, cpu => setA cpu.x cpu
  | .tya, cpu => setA cpu.y cpu
  | .txy, cpu => setY cpu.x cpu
  | .tyx, cpu => setX cpu.y cpu
  | .tsx, cpu => setX cpu.sp cpu
  | .txs, cpu => { cpu with sp := cpu.x }
  | .tcd, cpu => setZN cpu.a false { cpu with dp := cpu.a }
  | .tdc, cpu => setZN cpu.dp false { cpu with a := cpu.dp }
  | .tcs, cpu => { cpu with sp := cpu.a }
  | .tsc, cpu => setZN cpu.sp false { cpu with a := cpu.sp }
  | .xba, cpu => xba cpu
  | .clc, cpu => { cpu with c := false }
  | .sec, cpu => { cpu with c := true }
  | .cli, cpu => { cpu with i := false }
  | .sei, cpu => { cpu with i := true }
  | .cld, cpu => { cpu with d := false }
  | .sed, cpu => { cpu with d := true }
  | .clv, cpu => { cpu with v := false }
  | .rep, cpu => rep bus cpu
  | .sep, cpu => sep bus cpu
  | .xce, cpu => xce cpu
  | .mvp, cpu => blockMove bus (-1) cpu
  | .mvn, cpu => blockMove bus 1 cpu
  | .nop, cpu => cpu
  | .wdm, cpu => (readOpcode bus cpu).2
  | .wai, cpu => cpu
  | .stp, cpu => { cpu with stopped := true }

def doOpcode (opcode : Byte) (cpu : Interp816 M) : Interp816 M := exec bus (opOf opcode) cpu

/-- The interrupt a step starts with, if one is pending. -/
def takeInterrupt (cpu : Interp816 M) : Interp816 M :=
  if (!cpu.i && cpu.irqWanted) || cpu.nmiWanted then
    if cpu.nmiWanted then doInterrupt bus false { cpu with nmiWanted := false }
    else doInterrupt bus true cpu
  else cpu

def runOpcode (cpu : Interp816 M) : Interp816 M :=
  if cpu.stopped then cpu
  else
    let opcode := readOpcode bus (takeInterrupt bus cpu)
    doOpcode bus opcode.1 opcode.2

end SnesRecomp.Interp816
