import SnesRecomp.Lib.Bits

/-!
# The CPU state of the compiled code

`CpuState` of `runner/src/cpu_state.h`: the 65816 registers, the packed status byte
`P`, its mirrors (one flag each, which the generated code reads and writes instead of
`P`) and `host_return_valid`, the size of the return frame a paired caller pushed.
The cycle counters are left out: no modelled function reads them.

The typed accessors follow the header.  An 8-bit write to `A` keeps the high byte, an
8-bit write to `X` or `Y` clears it.  `cpuPToMirrors` moves flags only; it leaves
`X` and `Y` alone.
-/

namespace SnesRecomp

abbrev Byte := BitVec 8

abbrev Word := BitVec 16

/-- `lo | (hi << 8)`. -/
def mkWord (lo hi : Byte) : Word := lo.setWidth 16 ||| (hi.setWidth 16 <<< 8)

/-- `(uint8)(v & 0xFF)`. -/
def loByte (v : Word) : Byte := v.setWidth 8

/-- `(uint8)(v >> 8)`. -/
def hiByte (v : Word) : Byte := (v >>> 8).setWidth 8

/-- `CpuState` of `cpu_state.h`; the fields with a leading underscore in the source
(`_flag_N` and so on) drop it. -/
structure CpuState where
  A : Word
  X : Word
  Y : Word
  S : Word
  D : Word
  DB : Byte
  PB : Byte
  hostReturnValid : Byte
  P : Byte
  mFlag : Bool
  xFlag : Bool
  emulation : Bool
  flagN : Bool
  flagV : Bool
  flagZ : Bool
  flagC : Bool
  flagI : Bool
  flagD : Bool
  deriving DecidableEq, Repr

/-- `RecompReturn`: `0` is `RECOMP_RETURN_NORMAL`, `n` skips `n` more frames. -/
abbrev RecompReturn := Int

def recompReturnNormal : RecompReturn := 0

/-! ### Words and their bytes -/

theorem mkWord_toNat (lo hi : Byte) : (mkWord lo hi).toNat = hi.toNat * 256 + lo.toNat := by
  have hlo := lo.isLt
  have hhi := hi.isLt
  have hl : lo.toNat % 65536 = lo.toNat := Nat.mod_eq_of_lt (by omega)
  have hh : hi.toNat % 65536 = hi.toNat := Nat.mod_eq_of_lt (by omega)
  have hs : hi.toNat <<< 8 % 65536 = hi.toNat <<< 8 := by
    rw [Nat.shiftLeft_eq]
    exact Nat.mod_eq_of_lt (by omega)
  simp only [mkWord, BitVec.toNat_or, BitVec.toNat_setWidth, BitVec.toNat_shiftLeft,
    Nat.reducePow, hl, hh, hs]
  rw [Nat.or_comm, Bits.shiftLeft_or_eq_add (by omega : lo.toNat < 2 ^ 8)]
  omega

theorem loByte_toNat (v : Word) : (loByte v).toNat = v.toNat % 256 := by
  simp [loByte]

theorem hiByte_toNat (v : Word) : (hiByte v).toNat = v.toNat / 256 := by
  have := v.isLt
  rw [hiByte, BitVec.toNat_setWidth, BitVec.toNat_ushiftRight, Nat.shiftRight_eq_div_pow]
  exact Nat.mod_eq_of_lt (by omega)

@[simp] theorem loByte_mkWord (lo hi : Byte) : loByte (mkWord lo hi) = lo := by
  apply BitVec.eq_of_toNat_eq
  rw [loByte_toNat, mkWord_toNat]
  have := lo.isLt
  omega

@[simp] theorem hiByte_mkWord (lo hi : Byte) : hiByte (mkWord lo hi) = hi := by
  apply BitVec.eq_of_toNat_eq
  rw [hiByte_toNat, mkWord_toNat]
  have := lo.isLt
  omega

@[simp] theorem mkWord_loByte_hiByte (v : Word) : mkWord (loByte v) (hiByte v) = v := by
  apply BitVec.eq_of_toNat_eq
  rw [mkWord_toNat, loByte_toNat, hiByte_toNat]
  omega

theorem mkWord_inj {lo hi lo' hi' : Byte} :
    mkWord lo hi = mkWord lo' hi' ↔ lo = lo' ∧ hi = hi' := by
  constructor
  · intro h
    have hl := congrArg loByte h
    have hh := congrArg hiByte h
    simp only [loByte_mkWord, hiByte_mkWord] at hl hh
    exact ⟨hl, hh⟩
  · rintro ⟨rfl, rfl⟩
    rfl

/-! ### Typed register access -/

def cpuReadB (cpu : CpuState) : Byte := hiByte cpu.A

def cpuReadA8 (cpu : CpuState) : Byte := loByte cpu.A

def cpuReadAM (cpu : CpuState) : Word :=
  if cpu.mFlag then (cpuReadA8 cpu).setWidth 16 else cpu.A

/-- The high byte (`B`) stays. -/
def cpuWriteA8 (cpu : CpuState) (v : Byte) : CpuState :=
  { cpu with A := (cpu.A &&& 0xFF00) ||| v.setWidth 16 }

def cpuWriteA16 (cpu : CpuState) (v : Word) : CpuState := { cpu with A := v }

def cpuWriteAM (cpu : CpuState) (v : Word) : CpuState :=
  if cpu.mFlag then cpuWriteA8 cpu (loByte v) else cpuWriteA16 cpu v

def cpuReadX8 (cpu : CpuState) : Byte := loByte cpu.X

def cpuReadXX (cpu : CpuState) : Word :=
  if cpu.xFlag then (cpuReadX8 cpu).setWidth 16 else cpu.X

/-- The high byte becomes zero. -/
def cpuWriteX8 (cpu : CpuState) (v : Byte) : CpuState := { cpu with X := v.setWidth 16 }

def cpuWriteX16 (cpu : CpuState) (v : Word) : CpuState := { cpu with X := v }

def cpuWriteXX (cpu : CpuState) (v : Word) : CpuState :=
  if cpu.xFlag then cpuWriteX8 cpu (loByte v) else cpuWriteX16 cpu v

def cpuReadY8 (cpu : CpuState) : Byte := loByte cpu.Y

def cpuReadYX (cpu : CpuState) : Word :=
  if cpu.xFlag then (cpuReadY8 cpu).setWidth 16 else cpu.Y

def cpuWriteY8 (cpu : CpuState) (v : Byte) : CpuState := { cpu with Y := v.setWidth 16 }

def cpuWriteY16 (cpu : CpuState) (v : Word) : CpuState := { cpu with Y := v }

def cpuWriteYX (cpu : CpuState) (v : Word) : CpuState :=
  if cpu.xFlag then cpuWriteY8 cpu (loByte v) else cpuWriteY16 cpu v

/-! ### The packed status byte and its mirrors -/

def cpuPC : Byte := 0x01
def cpuPZ : Byte := 0x02
def cpuPI : Byte := 0x04
def cpuPD : Byte := 0x08
def cpuPX : Byte := 0x10
def cpuPM : Byte := 0x20
def cpuPV : Byte := 0x40
def cpuPN : Byte := 0x80

/-- `p & bit` as a C condition. -/
def hasBit (p bit : Byte) : Bool := p &&& bit != 0

def cpuPToMirrors (cpu : CpuState) : CpuState :=
  { cpu with
    mFlag := hasBit cpu.P cpuPM
    xFlag := hasBit cpu.P cpuPX
    flagC := hasBit cpu.P cpuPC
    flagZ := hasBit cpu.P cpuPZ
    flagI := hasBit cpu.P cpuPI
    flagD := hasBit cpu.P cpuPD
    flagV := hasBit cpu.P cpuPV
    flagN := hasBit cpu.P cpuPN }

/-- `flag ? bit : 0`. -/
def bitIf (flag : Bool) (bit : Byte) : Byte := if flag then bit else 0

def cpuMirrorsToP (cpu : CpuState) : CpuState :=
  { cpu with
    P := bitIf cpu.mFlag cpuPM ||| bitIf cpu.xFlag cpuPX ||| bitIf cpu.flagC cpuPC |||
      bitIf cpu.flagZ cpuPZ ||| bitIf cpu.flagI cpuPI ||| bitIf cpu.flagD cpuPD |||
      bitIf cpu.flagV cpuPV ||| bitIf cpu.flagN cpuPN }

theorem hasBit_cpuPX (p : Byte) : hasBit p cpuPX = p.getLsbD 4 :=
  Bits.and_twoPow_ne_zero (by decide : 4 < 8) p

theorem hasBit_cpuPM (p : Byte) : hasBit p cpuPM = p.getLsbD 5 :=
  Bits.and_twoPow_ne_zero (by decide : 5 < 8) p

theorem getLsbD_bitIf (flag : Bool) (bit : Byte) (k : Nat) :
    (bitIf flag bit).getLsbD k = (flag && bit.getLsbD k) := by
  cases flag <;> simp [bitIf]

theorem cpuMirrorsToP_x (cpu : CpuState) : (cpuMirrorsToP cpu).P.getLsbD 4 = cpu.xFlag := by
  simp only [cpuMirrorsToP, BitVec.getLsbD_or, getLsbD_bitIf]
  simp [cpuPC, cpuPZ, cpuPI, cpuPD, cpuPX, cpuPM, cpuPV, cpuPN]

theorem cpuMirrorsToP_m (cpu : CpuState) : (cpuMirrorsToP cpu).P.getLsbD 5 = cpu.mFlag := by
  simp only [cpuMirrorsToP, BitVec.getLsbD_or, getLsbD_bitIf]
  simp [cpuPC, cpuPZ, cpuPI, cpuPD, cpuPX, cpuPM, cpuPV, cpuPN]

/-- `cpu_state_init`: the reset state. -/
def cpuStateInit : CpuState where
  A := 0
  X := 0
  Y := 0
  S := 0x01FF
  D := 0
  DB := 0
  PB := 0
  hostReturnValid := 0
  P := cpuPM ||| cpuPX ||| cpuPI
  mFlag := true
  xFlag := true
  emulation := true
  flagN := false
  flagV := false
  flagZ := false
  flagC := false
  flagI := true
  flagD := false

end SnesRecomp
