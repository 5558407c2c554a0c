import SnesRecomp.Devices.Apu

/-!
# The sound processor

`spc.c`: the addressing modes, the opcode functions and `spc_runOpcode`.  As for the main processor
a table gives the operation of each of the 256 opcodes.  Reads go through `apu_cpuRead`, which may
clear a counter, so that a read gives the state behind it.  `BRA` fetches its operand before it adds
to the program counter.
-/

namespace SnesRecomp.Spc

/-! ### Memory and flags -/

def read (adr : Word) (apu : Apu) : Byte × Apu := apu.cpuRead adr

def write (adr : Word) (val : Byte) (apu : Apu) : Apu := apu.cpuWrite adr val

/-- An update of the registers. -/
def set (f : Spc → Spc) (apu : Apu) : Apu := { apu with spc := f apu.spc }

def readOpcode (apu : Apu) : Byte × Apu :=
  read apu.spc.pc (set (fun spc => { spc with pc := spc.pc + 1 }) apu)

def readOpcodeWord (apu : Apu) : Word × Apu :=
  let low := readOpcode apu
  let high := readOpcode low.2
  (mkWord low.1 high.1, high.2)

def getFlags (spc : Spc) : Byte :=
  BitVec.ofBool spc.n ++ BitVec.ofBool spc.v ++ BitVec.ofBool spc.p ++ BitVec.ofBool spc.b ++
    BitVec.ofBool spc.h ++ BitVec.ofBool spc.i ++ BitVec.ofBool spc.z ++ BitVec.ofBool spc.c

def setFlags (val : Byte) (spc : Spc) : Spc :=
  { spc with
    n := val.getLsbD 7, v := val.getLsbD 6, p := val.getLsbD 5, b := val.getLsbD 4
    h := val.getLsbD 3, i := val.getLsbD 2, z := val.getLsbD 1, c := val.getLsbD 0 }

def setZN (value : Byte) (spc : Spc) : Spc := { spc with z := value == 0, n := value.getLsbD 7 }

/-- The flags of a word. -/
def setZNWord (value : Word) (spc : Spc) : Spc :=
  { spc with z := value == 0, n := value.getLsbD 15 }

/-- `pc += (int8_t)value`. -/
def jumpBy (value : Byte) (spc : Spc) : Spc := { spc with pc := spc.pc + value.signExtend 16 }

def doBranch (value : Byte) (check : Bool) (spc : Spc) : Spc :=
  if check then jumpBy value { spc with cyclesUsed := spc.cyclesUsed + 2 } else spc

/-- `0x100 | sp`. -/
def stackAdr (sp : Byte) : Word := mkWord sp 1

def pullByte (apu : Apu) : Byte × Apu :=
  let apu := set (fun spc => { spc with sp := spc.sp + 1 }) apu
  read (stackAdr apu.spc.sp) apu

def pushByte (value : Byte) (apu : Apu) : Apu :=
  set (fun spc => { spc with sp := spc.sp - 1 }) (write (stackAdr apu.spc.sp) value apu)

def pullWord (apu : Apu) : Word × Apu :=
  let low := pullByte apu
  let high := pullByte low.2
  (mkWord low.1 high.1, high.2)

def pushWord (value : Word) (apu : Apu) : Apu :=
  pushByte (loByte value) (pushByte (hiByte value) apu)

def readWord (adrl adrh : Word) (apu : Apu) : Word × Apu :=
  let low := read adrl apu
  let high := read adrh low.2
  (mkWord low.1 high.1, high.2)

def writeWord (adrl adrh : Word) (value : Word) (apu : Apu) : Apu :=
  write adrh (hiByte value) (write adrl (loByte value) apu)

/-! ### Addressing modes -/

/-- `low | (p << 8)`. -/
def page (spc : Spc) (low : Byte) : Word := mkWord low (if spc.p then 1 else 0)

/-- The addressing modes with one address. -/
inductive AdrMode
  | dp | abs | ind | idx | imm | dpx | dpy | abx | aby | idy | indP
  deriving DecidableEq, Repr

def adr : AdrMode → Apu → Word × Apu
  | .dp, apu =>
    let low := readOpcode apu
    (page low.2.spc low.1, low.2)
  | .abs, apu => readOpcodeWord apu
  | .ind, apu => (page apu.spc apu.spc.x, apu)
  | .idx, apu =>
    let low := readOpcode apu
    let pointer := low.1 + low.2.spc.x
    readWord (page low.2.spc pointer) (page low.2.spc (pointer + 1)) low.2
  | .imm, apu => (apu.spc.pc, set (fun spc => { spc with pc := spc.pc + 1 }) apu)
  | .dpx, apu =>
    let low := readOpcode apu
    (page low.2.spc (low.1 + low.2.spc.x), low.2)
  | .dpy, apu =>
    let low := readOpcode apu
    (page low.2.spc (low.1 + low.2.spc.y), low.2)
  | .abx, apu =>
    let word := readOpcodeWord apu
    (word.1 + word.2.spc.x.setWidth 16, word.2)
  | .aby, apu =>
    let word := readOpcodeWord apu
    (word.1 + word.2.spc.y.setWidth 16, word.2)
  | .idy, apu =>
    let low := readOpcode apu
    let word := readWord (page low.2.spc low.1) (page low.2.spc (low.1 + 1)) low.2
    (word.1 + word.2.spc.y.setWidth 16, word.2)
  | .indP, apu => (page apu.spc apu.spc.x, set (fun spc => { spc with x := spc.x + 1 }) apu)

/-- The addressing modes with a source and a destination. -/
inductive PairMode
  | dpDp | dpImm | indInd
  deriving DecidableEq, Repr

/-- The source, the destination and the state behind them. -/
def adrPair : PairMode → Apu → Word × Word × Apu
  | .dpDp, apu =>
    let src := adr .dp apu
    let dst := adr .dp src.2
    (src.1, dst.1, dst.2)
  | .dpImm, apu =>
    let src := adr .imm apu
    let dst := adr .dp src.2
    (src.1, dst.1, dst.2)
  | .indInd, apu => (page apu.spc apu.spc.y, page apu.spc apu.spc.x, apu)

/-- `spc_adrAbsBit`: the address and the number of the bit. -/
def adrAbsBit (apu : Apu) : Word × Nat × Apu :=
  let word := readOpcodeWord apu
  (word.1 &&& 0x1FFF, (word.1 >>> 13).toNat, word.2)

/-- `spc_adrDpWord`: the addresses of the low and the high byte. -/
def adrDpWord (apu : Apu) : Word × Word × Apu :=
  let low := readOpcode apu
  (page low.2.spc low.1, page low.2.spc (low.1 + 1), low.2)

/-! ### Opcode functions -/

/-- The sum of `adc` and `sbc` with its flags. -/
def sum (value other : Byte) (spc : Spc) : Byte × Spc :=
  let result := value.toNat + other.toNat + spc.c.toNat
  let low := BitVec.ofNat 8 result
  (low,
    { spc with
      v := value.getLsbD 7 == other.getLsbD 7 && other.getLsbD 7 != low.getLsbD 7
      h := decide (0xF < value.toNat % 16 + other.toNat % 16 + spc.c.toNat)
      c := decide (0xFF < result) })

/-- The flags of `cmp`; `other` is the operand with its bits turned. -/
def compare (value other : Byte) (spc : Spc) : Spc :=
  let result := value.toNat + other.toNat + 1
  setZN (BitVec.ofNat 8 result) { spc with c := decide (0xFF < result) }

/-- The operations on one address. -/
inductive MemOp
  | or | and | eor | adc | sbc | cmp | cmpx | cmpy
  | mov | movx | movy | movs | movsx | movsy | asl | lsr | rol | ror | inc | dec
  deriving DecidableEq, Repr

/-- A logic function of the accumulator. -/
def logic (f : Byte → Byte → Byte) (adr : Word) (apu : Apu) : Apu :=
  let value := read adr apu
  set (fun spc => let result := f spc.a value.1; setZN result { spc with a := result }) value.2

/-- `spc_adc`, and `spc_sbc` with the operand's bits turned. -/
def addTo (f : Byte → Byte) (adr : Word) (apu : Apu) : Apu :=
  let value := read adr apu
  set (fun spc => let r := sum spc.a (f value.1) spc; setZN r.1 { r.2 with a := r.1 }) value.2

def compareWith (register : Spc → Byte) (adr : Word) (apu : Apu) : Apu :=
  let value := read adr apu
  set (fun spc => compare (register spc) (~~~value.1) spc) value.2

def load (store : Byte → Spc → Spc) (adr : Word) (apu : Apu) : Apu :=
  let value := read adr apu
  set (fun spc => setZN value.1 (store value.1 spc)) value.2

/-- A store reads its address first. -/
def store (register : Spc → Byte) (adr : Word) (apu : Apu) : Apu :=
  let apu := (read adr apu).2
  write adr (register apu.spc) apu

/-- A function of the carry and a value, with the carry behind it. -/
abbrev Shift := Bool → Byte → Bool × Byte

def aslOf : Shift := fun _ val => (val.getLsbD 7, val <<< 1)

def lsrOf : Shift := fun _ val => (val.getLsbD 0, val >>> 1)

def rolOf : Shift := fun c val => (val.getLsbD 7, val <<< 1 ||| (BitVec.ofBool c).setWidth 8)

def rorOf : Shift := fun c val => (val.getLsbD 0, val >>> 1 ||| (BitVec.ofBool c).setWidth 8 <<< 7)

def incOf : Shift := fun c val => (c, val + 1)

def decOf : Shift := fun c val => (c, val - 1)

/-- Read, change and write back. -/
def change (f : Shift) (adr : Word) (apu : Apu) : Apu :=
  let value := read adr apu
  let r := f value.2.spc.c value.1
  set (setZN r.2) (write adr r.2 (set (fun spc => { spc with c := r.1 }) value.2))

/-- The same of the accumulator. -/
def changeA (f : Shift) (spc : Spc) : Spc :=
  let r := f spc.c spc.a
  setZN r.2 { spc with c := r.1, a := r.2 }

def memOp : MemOp → Word → Apu → Apu
  | .or => logic (· ||| ·)
  | .and => logic (· &&& ·)
  | .eor => logic (· ^^^ ·)
  | .adc => addTo id
  | .sbc => addTo (~~~·)
  | .cmp => compareWith Spc.a
  | .cmpx => compareWith Spc.x
  | .cmpy => compareWith Spc.y
  | .mov => load fun value spc => { spc with a := value }
  | .movx => load fun value spc => { spc with x := value }
  | .movy => load fun value spc => { spc with y := value }
  | .movs => store Spc.a
  | .movsx => store Spc.x
  | .movsy => store Spc.y
  | .asl => change aslOf
  | .lsr => change lsrOf
  | .rol => change rolOf
  | .ror => change rorOf
  | .inc => change incOf
  | .dec => change decOf

/-- The operations on a source and a destination. -/
inductive PairOp
  | orm | andm | eorm | adcm | sbcm | cmpm
  deriving DecidableEq, Repr

def logicPair (f : Byte → Byte → Byte) (dst src : Word) (apu : Apu) : Apu :=
  let value := read src apu
  let applyOn := read dst value.2
  let result := f applyOn.1 value.1
  set (setZN result) (write dst result applyOn.2)

def addPair (f : Byte → Byte) (dst src : Word) (apu : Apu) : Apu :=
  let value := read src apu
  let applyOn := read dst value.2
  let r := sum applyOn.1 (f value.1) applyOn.2.spc
  set (setZN r.1) (write dst r.1 (set (fun _ => r.2) applyOn.2))

def comparePair (dst src : Word) (apu : Apu) : Apu :=
  let value := read src apu
  let applyOn := read dst value.2
  set (compare applyOn.1 (~~~value.1)) applyOn.2

def pairOp : PairOp → Word → Word → Apu → Apu
  | .orm => logicPair (· ||| ·)
  | .andm => logicPair (· &&& ·)
  | .eorm => logicPair (· ^^^ ·)
  | .adcm => addPair id
  | .sbcm => addPair (~~~·)
  | .cmpm => comparePair

/-- The operations of the carry and a bit. -/
def carryBit (f : Bool → Bool → Bool) (apu : Apu) : Apu :=
  let bit := adrAbsBit apu
  let value := read bit.1 bit.2.2
  set (fun spc => { spc with c := f spc.c (value.1.getLsbD bit.2.1) }) value.2

/-- A bit of memory, changed by `f` of the carry and the byte. -/
def storeBit (f : Bool → Nat → Byte → Byte) (apu : Apu) : Apu :=
  let bit := adrAbsBit apu
  let value := read bit.1 bit.2.2
  write bit.1 (f value.2.spc.c bit.2.1 value.1) value.2

/-- `tset1` and `tclr1`. -/
def testAnd (f : Byte → Byte → Byte) (apu : Apu) : Apu :=
  let adr := adr .abs apu
  let value := read adr.1 adr.2
  let apu := set (fun spc => setZN (spc.a - value.1) spc) value.2
  write adr.1 (f value.1 apu.spc.a) apu

/-- `incw` and `decw`. -/
def changeWord (f : Word → Word) (apu : Apu) : Apu :=
  let adr := adrDpWord apu
  let value := readWord adr.1 adr.2.1 adr.2.2
  writeWord adr.1 adr.2.1 (f value.1) (set (setZNWord (f value.1)) value.2)

def ya (spc : Spc) : Word := mkWord spc.a spc.y

/-- `cmpw`, with the operand's bits turned. -/
def compareWord (other : Word) (spc : Spc) : Spc :=
  let result := (ya spc).toNat + other.toNat + 1
  setZNWord (BitVec.ofNat 16 result) { spc with c := decide (0xFFFF < result) }

/-- `addw` with no carry in, and `subw` with one and the operand's bits turned; both set the half
carry as if there was one. -/
def sumWord (carry : Nat) (other : Word) (spc : Spc) : Spc :=
  let value := ya spc
  let result := value.toNat + other.toNat + carry
  let low := BitVec.ofNat 16 result
  setZNWord low
    { spc with
      v := value.getLsbD 15 == other.getLsbD 15 && other.getLsbD 15 != low.getLsbD 15
      h := decide (0xFFF < value.toNat % 0x1000 + other.toNat % 0x1000 + 1)
      c := decide (0xFFFF < result)
      a := loByte low
      y := hiByte low }

def wordOp (f : Word → Spc → Spc) (apu : Apu) : Apu :=
  let adr := adrDpWord apu
  let value := readWord adr.1 adr.2.1 adr.2.2
  set (f value.1) value.2

def mul (spc : Spc) : Spc :=
  let result := BitVec.ofNat 16 (spc.a.toNat * spc.y.toNat)
  setZN (hiByte result) { spc with a := loByte result, y := hiByte result }

def div (spc : Spc) : Spc :=
  let value := (ya spc).toNat
  let result := if spc.x = 0 then 0xFFFF else value / spc.x.toNat
  let mod := if spc.x = 0 then spc.a.toNat else value % spc.x.toNat
  setZN (BitVec.ofNat 8 result)
    { spc with
      v := decide (0xFF < result)
      h := decide (spc.x.toNat % 16 ≤ spc.y.toNat % 16)
      a := BitVec.ofNat 8 result
      y := BitVec.ofNat 8 mod }

def daa (spc : Spc) : Spc :=
  let spc :=
    if 0x99 < spc.a ∨ spc.c = true then { spc with a := spc.a + 0x60, c := true } else spc
  let spc := if 9 < spc.a &&& 0xF ∨ spc.h = true then { spc with a := spc.a + 6 } else spc
  setZN spc.a spc

def das (spc : Spc) : Spc :=
  let spc :=
    if 0x99 < spc.a ∨ spc.c = false then { spc with a := spc.a - 0x60, c := false } else spc
  let spc := if 9 < spc.a &&& 0xF ∨ spc.h = false then { spc with a := spc.a - 6 } else spc
  setZN spc.a spc

/-! ### Opcodes -/

/-- The conditions of the branches. -/
inductive Flag
  | n | v | c | z
  deriving DecidableEq, Repr

def Flag.of : Flag → Spc → Bool
  | .n => Spc.n
  | .v => Spc.v
  | .c => Spc.c
  | .z => Spc.z

/-- The operations of the switch. -/
inductive Op
  | mem (op : MemOp) (mode : AdrMode)
  | pair (op : PairOp) (mode : PairMode)
  | branch (flag : Flag) (value : Bool)
  | tcall (n : Nat) | set1 (bit : Nat) | clr1 (bit : Nat) | bbs (bit : Nat) | bbc (bit : Nat)
  | cbne (mode : AdrMode) | dbnz | dbnzy | bra | jmp | jmpIax | call | pcall | ret | reti | brk
  | or1 | or1n | and1 | and1n | eor1 | mov1 | mov1s | not1 | tset1 | tclr1
  | decw | incw | cmpw | addw | subw | movw | movws | movm | movmImm | movsIndP
  | asla | lsra | rola | rora | inca | deca | incx | decx | incy | decy
  | movxa | movax | movxp | movpx | movay | movya
  | pushp | pusha | pushx | pushy | popp | popa | popx | popy
  | clrp | setp | clrc | setc | notc | clrv | ei | di | mul | div | daa | das | xcn
  | nop | sleep | stop
  deriving DecidableEq, Repr

/-- The switch of `spc_doOpcode`, one row for each high digit. -/
def opTable : List Op :=
  [
    -- $00
    .nop, .tcall 0, .set1 0, .bbs 0, .mem .or .dp, .mem .or .abs, .mem .or .ind, .mem .or .idx,
    .mem .or .imm, .pair .orm .dpDp, .or1, .mem .asl .dp, .mem .asl .abs, .pushp, .tset1, .brk,
    -- $10
    .branch .n false, .tcall 1, .clr1 0, .bbc 0, .mem .or .dpx, .mem .or .abx, .mem .or .aby,
    .mem .or .idy, .pair .orm .dpImm, .pair .orm .indInd, .decw, .mem .asl .dpx, .asla, .decx,
    .mem .cmpx .abs, .jmpIax,
    -- $20
    .clrp, .tcall 2, .set1 1, .bbs 1, .mem .and .dp, .mem .and .abs, .mem .and .ind,
    .mem .and .idx, .mem .and .imm, .pair .andm .dpDp, .or1n, .mem .rol .dp, .mem .rol .abs,
    .pusha, .cbne .dp, .bra,
    -- $30
    .branch .n true, .tcall 3, .clr1 1, .bbc 1, .mem .and .dpx, .mem .and .abx, .mem .and .aby,
    .mem .and .idy, .pair .andm .dpImm, .pair .andm .indInd, .incw, .mem .rol .dpx, .rola, .incx,
    .mem .cmpx .dp, .call,
    -- $40
    .setp, .tcall 4, .set1 2, .bbs 2, .mem .eor .dp, .mem .eor .abs, .mem .eor .ind,
    .mem .eor .idx, .mem .eor .imm, .pair .eorm .dpDp, .and1, .mem .lsr .dp, .mem .lsr .abs,
    .pushx, .tclr1, .pcall,
    -- $50
    .branch .v false, .tcall 5, .clr1 2, .bbc 2, .mem .eor .dpx, .mem .eor .abx, .mem .eor .aby,
    .mem .eor .idy, .pair .eorm .dpImm, .pair .eorm .indInd, .cmpw, .mem .lsr .dpx, .lsra, .movxa,
    .mem .cmpy .abs, .jmp,
    -- $60
    .clrc, .tcall 6, .set1 3, .bbs 3, .mem .cmp .dp, .mem .cmp .abs, .mem .cmp .ind,
    .mem .cmp .idx, .mem .cmp .imm, .pair .cmpm .dpDp, .and1n, .mem .ror .dp, .mem .ror .abs,
    .pushy, .dbnz, .ret,
    -- $70
    .branch .v true, .tcall 7, .clr1 3, .bbc 3, .mem .cmp .dpx, .mem .cmp .abx, .mem .cmp .aby,
    .mem .cmp .idy, .pair .cmpm .dpImm, .pair .cmpm .indInd, .addw, .mem .ror .dpx, .rora, .movax,
    .mem .cmpy .dp, .reti,
    -- $80
    .setc, .tcall 8, .set1 4, .bbs 4, .mem .adc .dp, .mem .adc .abs, .mem .adc .ind,
    .mem .adc .idx, .mem .adc .imm, .pair .adcm .dpDp, .eor1, .mem .dec .dp, .mem .dec .abs,
    .mem .movy .imm, .popp, .movmImm,
    -- $90
    .branch .c false, .tcall 9, .clr1 4, .bbc 4, .mem .adc .dpx, .mem .adc .abx, .mem .adc .aby,
    .mem .adc .idy, .pair .adcm .dpImm, .pair .adcm .indInd, .subw, .mem .dec .dpx, .deca, .movxp,
    .div, .xcn,
    -- $A0
    .ei, .tcall 10, .set1 5, .bbs 5, .mem .sbc .dp, .mem .sbc .abs, .mem .sbc .ind,
    .mem .sbc .idx, .mem .sbc .imm, .pair .sbcm .dpDp, .mov1, .mem .inc .dp, .mem .inc .abs,
    .mem .cmpy .imm, .popa, .movsIndP,
    -- $B0
    .branch .c true, .tcall 11, .clr1 5, .bbc 5, .mem .sbc .dpx, .mem .sbc .abx, .mem .sbc .aby,
    .mem .sbc .idy, .pair .sbcm .dpImm, .pair .sbcm .indInd, .movw, .mem .inc .dpx, .inca, .movpx,
    .das, .mem .mov .indP,
    -- $C0
    .di, .tcall 12, .set1 6, .bbs 6, .mem .movs .dp, .mem .movs .abs, .mem .movs .ind,
    .mem .movs .idx, .mem .cmpx .imm, .mem .movsx .abs, .mov1s, .mem .movsy .dp, .mem .movsy .abs,
    .mem .movx .imm, .popx, .mul,
    -- $D0
    .branch .z false, .tcall 13, .clr1 6, .bbc 6, .mem .movs .dpx, .mem .movs .abx,
    .mem .movs .aby, .mem .movs .idy, .mem .movsx .dp, .mem .movsx .dpy, .movws, .mem .movsy .dpx,
    .decy, .movay, .cbne .dpx, .daa,
    -- $E0
    .clrv, .tcall 14, .set1 7, .bbs 7, .mem .mov .dp, .mem .mov .abs, .mem .mov .ind,
    .mem .mov .idx, .mem .mov .imm, .mem .movx .abs, .not1, .mem .movy .dp, .mem .movy .abs,
    .notc, .popy, .sleep,
    -- $F0
    .branch .z true, .tcall 15, .clr1 7, .bbc 7, .mem .mov .dpx, .mem .mov .abx, .mem .mov .aby,
    .mem .mov .idy, .mem .movx .dp, .mem .movx .dpy, .movm, .mem .movy .dpx, .incy, .movya,
    .dbnzy, .stop
  ]

def opOf (opcode : Byte) : Op := opTable.getD opcode.toNat .nop

/-- A pull into a register. -/
def pop (f : Byte → Spc → Spc) (apu : Apu) : Apu :=
  let value := pullByte apu
  set (f value.1) value.2

/-- A branch on the value at an address. -/
def branchOn (mode : AdrMode) (check : Byte → Spc → Bool) (apu : Apu) : Apu :=
  let adr := adr mode apu
  let value := read adr.1 adr.2
  let offset := readOpcode value.2
  set (fun spc => doBranch offset.1 (check value.1 spc) spc) offset.2

/-- The move of a register into another one. -/
def transfer (register : Spc → Byte) (store : Byte → Spc → Spc) (spc : Spc) : Spc :=
  setZN (register spc) (store (register spc) spc)

/-- One operation of `spc_doOpcode`. -/
def exec : Op → Apu → Apu
  | .mem op mode, apu =>
    let adr := adr mode apu
    memOp op adr.1 adr.2
  | .pair op mode, apu =>
    let adr := adrPair mode apu
    pairOp op adr.2.1 adr.1 adr.2.2
  | .branch flag value, apu =>
    let offset := readOpcode apu
    set (fun spc => doBranch offset.1 (flag.of spc == value) spc) offset.2
  | .tcall n, apu =>
    let adr := 0xFFDE - 2 * BitVec.ofNat 16 n
    let target := readWord adr (adr + 1) (pushWord apu.spc.pc apu)
    set (fun spc => { spc with pc := target.1 }) target.2
  | .set1 bit, apu =>
    let adr := adr .dp apu
    let value := read adr.1 adr.2
    write adr.1 (value.1 ||| BitVec.twoPow 8 bit) value.2
  | .clr1 bit, apu =>
    let adr := adr .dp apu
    let value := read adr.1 adr.2
    write adr.1 (value.1 &&& ~~~(BitVec.twoPow 8 bit)) value.2
  | .bbs bit, apu => branchOn .dp (fun value _ => value.getLsbD bit) apu
  | .bbc bit, apu => branchOn .dp (fun value _ => !value.getLsbD bit) apu
  | .cbne mode, apu => branchOn mode (fun value spc => spc.a - value != 0) apu
  | .dbnz, apu =>
    let adr := adr .dp apu
    let value := read adr.1 adr.2
    let offset := readOpcode (write adr.1 (value.1 - 1) value.2)
    set (doBranch offset.1 (value.1 - 1 != 0)) offset.2
  | .dbnzy, apu =>
    let offset := readOpcode (set (fun spc => { spc with y := spc.y - 1 }) apu)
    set (fun spc => doBranch offset.1 (spc.y != 0) spc) offset.2
  | .bra, apu =>
    let offset := readOpcode apu
    set (jumpBy offset.1) offset.2
  | .jmp, apu =>
    let target := readOpcodeWord apu
    set (fun spc => { spc with pc := target.1 }) target.2
  | .jmpIax, apu =>
    let pointer := readOpcodeWord apu
    let adr := pointer.1 + pointer.2.spc.x.setWidth 16
    let target := readWord adr (adr + 1) pointer.2
    set (fun spc => { spc with pc := target.1 }) target.2
  | .call, apu =>
    let target := readOpcodeWord apu
    set (fun spc => { spc with pc := target.1 }) (pushWord target.2.spc.pc target.2)
  | .pcall, apu =>
    let target := readOpcode apu
    set (fun spc => { spc with pc := mkWord target.1 0xFF }) (pushWord target.2.spc.pc target.2)
  | .ret, apu =>
    let target := pullWord apu
    set (fun spc => { spc with pc := target.1 }) target.2
  | .reti, apu =>
    let flags := pullByte apu
    let target := pullWord (set (setFlags flags.1) flags.2)
    set (fun spc => { spc with pc := target.1 }) target.2
  | .brk, apu =>
    let apu := pushWord apu.spc.pc apu
    let apu := pushByte (getFlags apu.spc) apu
    let target := readWord 0xFFDE 0xFFDF (set (fun spc => { spc with i := false, b := true }) apu)
    set (fun spc => { spc with pc := target.1 }) target.2
  | .or1, apu => carryBit (fun c bit => c || bit) apu
  | .or1n, apu => carryBit (fun c bit => c || !bit) apu
  | .and1, apu => carryBit (fun c bit => c && bit) apu
  | .and1n, apu => carryBit (fun c bit => c && !bit) apu
  | .eor1, apu => carryBit (fun c bit => c ^^ bit) apu
  | .mov1, apu => carryBit (fun _ bit => bit) apu
  | .mov1s, apu =>
    storeBit (fun c bit value =>
      value &&& ~~~(BitVec.twoPow 8 bit) ||| (BitVec.ofBool c).setWidth 8 <<< bit) apu
  | .not1, apu => storeBit (fun _ bit value => value ^^^ BitVec.twoPow 8 bit) apu
  | .tset1, apu => testAnd (fun value a => value ||| a) apu
  | .tclr1, apu => testAnd (fun value a => value &&& ~~~a) apu
  | .decw, apu => changeWord (· - 1) apu
  | .incw, apu => changeWord (· + 1) apu
  | .cmpw, apu => wordOp (fun value => compareWord (~~~value)) apu
  | .addw, apu => wordOp (sumWord 0) apu
  | .subw, apu => wordOp (fun value => sumWord 1 (~~~value)) apu
  | .movw, apu =>
    wordOp (fun value spc => setZNWord value { spc with a := loByte value, y := hiByte value }) apu
  | .movws, apu =>
    let adr := adrDpWord apu
    let apu := (read adr.1 adr.2.2).2
    write adr.2.1 apu.spc.y (write adr.1 apu.spc.a apu)
  | .movm, apu =>
    let adr := adrPair .dpDp apu
    let value := read adr.1 adr.2.2
    write adr.2.1 value.1 value.2
  | .movmImm, apu =>
    let adr := adrPair .dpImm apu
    let value := read adr.1 adr.2.2
    write adr.2.1 value.1 (read adr.2.1 value.2).2
  | .movsIndP, apu =>
    let adr := adr .indP apu
    write adr.1 adr.2.spc.a adr.2
  | .asla, apu => set (changeA aslOf) apu
  | .lsra, apu => set (changeA lsrOf) apu
  | .rola, apu => set (changeA rolOf) apu
  | .rora, apu => set (changeA rorOf) apu
  | .inca, apu => set (changeA incOf) apu
  | .deca, apu => set (changeA decOf) apu
  | .incx, apu => set (fun spc => setZN (spc.x + 1) { spc with x := spc.x + 1 }) apu
  | .decx, apu => set (fun spc => setZN (spc.x - 1) { spc with x := spc.x - 1 }) apu
  | .incy, apu => set (fun spc => setZN (spc.y + 1) { spc with y := spc.y + 1 }) apu
  | .decy, apu => set (fun spc => setZN (spc.y - 1) { spc with y := spc.y - 1 }) apu
  | .movxa, apu => set (transfer Spc.a fun value spc => { spc with x := value }) apu
  | .movax, apu => set (transfer Spc.x fun value spc => { spc with a := value }) apu
  | .movxp, apu => set (transfer Spc.sp fun value spc => { spc with x := value }) apu
  | .movpx, apu => set (fun spc => { spc with sp := spc.x }) apu
  | .movay, apu => set (transfer Spc.y fun value spc => { spc with a := value }) apu
  | .movya, apu => set (transfer Spc.a fun value spc => { spc with y := value }) apu
  | .pushp, apu => pushByte (getFlags apu.spc) apu
  | .pusha, apu => pushByte apu.spc.a apu
  | .pushx, apu => pushByte apu.spc.x apu
  | .pushy, apu => pushByte apu.spc.y apu
  | .popp, apu => pop setFlags apu
  | .popa, apu => pop (fun value spc => { spc with a := value }) apu
  | .popx, apu => pop (fun value spc => { spc with x := value }) apu
  | .popy, apu => pop (fun value spc => { spc with y := value }) apu
  | .clrp, apu => set (fun spc => { spc with p := false }) apu
  | .setp, apu => set (fun spc => { spc with p := true }) apu
  | .clrc, apu => set (fun spc => { spc with c := false }) apu
  | .setc, apu => set (fun spc => { spc with c := true }) apu
  | .notc, apu => set (fun spc => { spc with c := !spc.c }) apu
  | .clrv, apu => set (fun spc => { spc with v := false, h := false }) apu
  | .ei, apu => set (fun spc => { spc with i := true }) apu
  | .di, apu => set (fun spc => { spc with i := false }) apu
  | .mul, apu => set mul apu
  | .div, apu => set div apu
  | .daa, apu => set daa apu
  | .das, apu => set das apu
  | .xcn, apu =>
    set (fun spc => let a := spc.a >>> 4 ||| spc.a <<< 4; setZN a { spc with a := a }) apu
  | .nop, apu => apu
  | .sleep, apu => set (fun spc => { spc with stopped := true }) apu
  | .stop, apu => set (fun spc => { spc with stopped := true }) apu

/-- `cyclesPerOpcode`. -/
def cyclesPerOpcode : List Byte :=
  [
    2, 8, 4, 5, 3, 4, 3, 6, 2, 6, 5, 4, 5, 4, 6, 8,
    2, 8, 4, 5, 4, 5, 5, 6, 5, 5, 6, 5, 2, 2, 4, 6,
    2, 8, 4, 5, 3, 4, 3, 6, 2, 6, 5, 4, 5, 4, 5, 4,
    2, 8, 4, 5, 4, 5, 5, 6, 5, 5, 6, 5, 2, 2, 3, 8,
    2, 8, 4, 5, 3, 4, 3, 6, 2, 6, 4, 4, 5, 4, 6, 6,
    2, 8, 4, 5, 4, 5, 5, 6, 5, 5, 4, 5, 2, 2, 4, 3,
    2, 8, 4, 5, 3, 4, 3, 6, 2, 6, 4, 4, 5, 4, 5, 5,
    2, 8, 4, 5, 4, 5, 5, 6, 5, 5, 5, 5, 2, 2, 3, 6,
    2, 8, 4, 5, 3, 4, 3, 6, 2, 6, 5, 4, 5, 2, 4, 5,
    2, 8, 4, 5, 4, 5, 5, 6, 5, 5, 5, 5, 2, 2, 12, 5,
    2, 8, 4, 5, 3, 4, 3, 6, 2, 6, 4, 4, 5, 2, 4, 4,
    2, 8, 4, 5, 4, 5, 5, 6, 5, 5, 5, 5, 2, 2, 3, 4,
    2, 8, 4, 5, 4, 5, 4, 7, 2, 5, 6, 4, 5, 2, 4, 9,
    2, 8, 4, 5, 5, 6, 6, 7, 4, 5, 5, 5, 2, 2, 6, 3,
    2, 8, 4, 5, 3, 4, 3, 6, 2, 4, 5, 3, 4, 3, 4, 3,
    2, 8, 4, 5, 4, 5, 5, 6, 3, 4, 5, 4, 2, 2, 4, 3
  ]

/-- `spc_runOpcode`, with the cycles it used. -/
def runOpcode (apu : Apu) : Byte × Apu :=
  let apu := set (fun spc => { spc with cyclesUsed := 0 }) apu
  if apu.spc.stopped then (1, apu)
  else
    let opcode := readOpcode apu
    let apu :=
      set (fun spc => { spc with cyclesUsed := cyclesPerOpcode.getD opcode.1.toNat 0 }) opcode.2
    let apu := exec (opOf opcode.1) apu
    (apu.spc.cyclesUsed, apu)

end SnesRecomp.Spc

namespace SnesRecomp.Apu

/-! ### Cycles -/

/-- The processor's part of `apu_cycle`. -/
def cycleSpc (apu : Apu) : Apu :=
  let apu :=
    if apu.cpuCyclesLeft = 0 then
      let r := Spc.runOpcode apu
      { r.2 with cpuCyclesLeft := r.1 }
    else apu
  { apu with cpuCyclesLeft := apu.cpuCyclesLeft - 1 }

/-- Every 32 cycles the writes that are due go to the ports, and the DSP makes a sample. -/
def cycleSample (produced : BitVec 64) (shadow : Int → Int → Int × Int) (apu : Apu) : Apu :=
  if apu.cycles &&& 0x1F = 0 then
    { apu with ports := apu.ports.drainPortQueue produced, dsp := dspCycle shadow apu.dsp }
  else apu

/-- `apu_cycle`, with the clock of produced samples and the mix of the shadow. -/
def cycle (produced : BitVec 64) (shadow : Int → Int → Int × Int) (apu : Apu) : Apu :=
  let apu := cycleSample produced shadow apu.cycleSpc
  { apu with timer := fun i => cycleTimer i (apu.timer i), cycles := apu.cycles + 1 }

/-- `spc_reset`, which reads the vector at the end of the boot ROM. -/
def resetSpc (pc : Word) : Spc where
  a := 0
  x := 0
  y := 0
  sp := 0
  pc := pc
  c := false
  z := false
  v := false
  n := false
  i := false
  h := false
  p := false
  b := false
  stopped := false
  cyclesUsed := 0

/-- `apu_reset`. -/
def reset : Apu where
  spc := resetSpc (mkWord (bootRom.getD 0x3E 0) (bootRom.getD 0x3F 0))
  dsp := dspReset fun _ => 0
  romReadable := true
  dspAdr := 0
  cycles := 0
  ports := ⟨fun _ => 0, fun _ => 0, []⟩
  auxPorts _ := 0
  timer _ := ⟨0, 0, 0, 0, false⟩
  cpuCyclesLeft := 7

end SnesRecomp.Apu
