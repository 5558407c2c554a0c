import SnesRecomp.Runtime.CpuState

/-!
# The memory helpers of the compiled code

`cpu_read8`, `cpu_read16`, `cpu_write8` and `cpu_write16` of `runner/src/cpu_state.c`,
with the address maps they share: `cpuRamOffset` (WRAM and its low mirror), `isHwReg`
(the register window), `cpuSramOffset` (battery SRAM) and `romPtr` (everything else).
The word helpers choose a region by the low byte alone.

`Mem` holds what the helpers reach: `g_ram`, `g_sram`, the ROM image and the devices
behind the registers.  The devices are a type parameter `H`; `RegIo` is how `ReadReg`
and `WriteReg` act on them, and the word forms are built from it as in `common_rtl.c`.
Pacing, tracing and logging change nothing the helpers read and are left out.

`Bus` is the interface the rest of the development uses: emitted code and the
interpreter bridge see memory through these four operations only.
-/

namespace SnesRecomp

/-- Sizes fixed when a cartridge is loaded: `g_snes->cart->romSize` and `g_sram_size`. -/
structure Cart where
  romSize : Nat
  sramSize : Nat
  deriving DecidableEq, Repr

/-- Everything behind the memory helpers. -/
structure Mem (H : Type) where
  ram : Nat → Byte
  sram : Nat → Byte
  rom : Nat → Byte
  hw : H

/-- The register file of the devices: `ReadReg`, `WriteReg`, the locked double read of
two APU ports in `ReadRegWord`, and `WriteVramWord`. -/
structure RegIo (H : Type) where
  readReg : Word → Mem H → Byte × Mem H
  writeReg : Word → Byte → Mem H → Mem H
  apuPorts : Word → Mem H → Word × Mem H
  writeVramWord : Word → Mem H → Mem H

/-- What emitted code and the interpreter bridge see of memory. -/
structure Bus (M : Type) where
  read8 : Byte → Word → M → Byte × M
  read16 : Byte → Word → M → Word × M
  write8 : Byte → Word → Byte → M → M
  write16 : Byte → Word → Word → M → M

/-- A bus with nothing on it. -/
def silentBus : Bus Unit where
  read8 _ _ m := (0, m)
  read16 _ _ m := (0, m)
  write8 _ _ _ m := m
  write16 _ _ _ m := m

variable {H : Type}

/-! ### Address maps -/

/-- The banks that mirror low WRAM and the register window: `$00-$3F`, `$80-$BF`. -/
def lowBank (bank : Byte) : Bool := bank ≤ 0x3F || (0x80 ≤ bank && bank ≤ 0xBF)

def cpuRamOffset (bank : Byte) (addr : Word) : Option Nat :=
  if bank = 0x7E then some addr.toNat
  else if bank = 0x7F then some (0x10000 + addr.toNat)
  else if addr < 0x2000 && lowBank bank then some addr.toNat
  else none

def isHwReg (bank : Byte) (addr : Word) : Bool :=
  if addr < 0x2000 || 0x6000 ≤ addr then false
  else lowBank bank

def cpuSramOffset (cart : Cart) (bank : Byte) (addr : Word) : Option Nat :=
  if cart.sramSize = 0 then none
  else if ((0x70 ≤ bank && bank < 0x7E) || (0xF0 ≤ bank && bank < 0xFE)) && addr < 0x8000 then
    some ((((bank.toNat &&& 0xF) <<< 15) ||| addr.toNat) &&& (cart.sramSize - 1))
  else if (bank < 0x40 || (0x80 ≤ bank && bank < 0xC0)) && 0x6000 ≤ addr && addr < 0x8000 then
    some ((((bank.toNat &&& 0x3F) <<< 13) ||| (addr.toNat &&& 0x1FFF)) &&& (cart.sramSize - 1))
  else none

/-- `RomPtr`: the index into `g_rom`.  A missing cartridge size counts as 512 KB. -/
def romPtr (cart : Cart) (addr : BitVec 32) : Nat :=
  let off := ((addr >>> 16) <<< 15) ||| (addr &&& 0x7FFF)
  let romSize := if cart.romSize = 0 then 0x80000 else cart.romSize
  off.toNat % romSize

/-- `((uint32)bank << 16) | addr`. -/
def addr24 (bank : Byte) (addr : Word) : BitVec 32 :=
  (bank.setWidth 32 <<< 16) ||| addr.setWidth 32

/-! ### Register words -/

def isApuPort (reg : Word) : Bool := 0x2140 ≤ reg && reg ≤ 0x217F

def readRegWord (io : RegIo H) (reg : Word) (m : Mem H) : Word × Mem H :=
  if isApuPort reg then io.apuPorts reg m
  else
    let lo := io.readReg reg m
    let hi := io.readReg (reg + 1) lo.2
    (mkWord lo.1 hi.1, hi.2)

def writeRegWord (io : RegIo H) (reg value : Word) (m : Mem H) : Mem H :=
  if reg = 0x2118 then io.writeVramWord value m
  else if isApuPort reg then
    io.writeReg reg (loByte value) (io.writeReg (reg + 1) (hiByte value) m)
  else
    io.writeReg (reg + 1) (hiByte value) (io.writeReg reg (loByte value) m)

/-! ### The helpers -/

def Mem.setRam (m : Mem H) (off : Nat) (v : Byte) : Mem H :=
  { m with ram := Function.update m.ram off v }

def Mem.setSram (m : Mem H) (off : Nat) (v : Byte) : Mem H :=
  { m with sram := Function.update m.sram off v }

def cpuRead8 (cart : Cart) (io : RegIo H) (bank : Byte) (addr : Word) (m : Mem H) :
    Byte × Mem H :=
  match cpuRamOffset bank addr with
  | some off => (m.ram off, m)
  | none =>
    if isHwReg bank addr then io.readReg addr m
    else
      match cpuSramOffset cart bank addr with
      | some off => (m.sram off, m)
      | none => (m.rom (romPtr cart (addr24 bank addr)), m)

/-- The part of `cpu_read16` past the WRAM test. -/
def cpuRead16NotRam (cart : Cart) (io : RegIo H) (bank : Byte) (addr : Word) (m : Mem H) :
    Word × Mem H :=
  if isHwReg bank addr then readRegWord io addr m
  else
    match cpuSramOffset cart bank addr with
    | some lo =>
      match cpuSramOffset cart bank (addr + 1) with
      | some hi => (mkWord (m.sram lo) (m.sram hi), m)
      | none =>
        let hi := cpuRead8 cart io bank (addr + 1) m
        (mkWord (m.sram lo) hi.1, hi.2)
    | none =>
      let p := romPtr cart (addr24 bank addr)
      (mkWord (m.rom p) (m.rom (p + 1)), m)

def cpuRead16 (cart : Cart) (io : RegIo H) (bank : Byte) (addr : Word) (m : Mem H) :
    Word × Mem H :=
  match cpuRamOffset bank addr with
  | some off =>
    if off + 1 < 0x20000 then (mkWord (m.ram off) (m.ram (off + 1)), m)
    else cpuRead16NotRam cart io bank addr m
  | none => cpuRead16NotRam cart io bank addr m

/-- Stores to ROM are dropped. -/
def cpuWrite8 (cart : Cart) (io : RegIo H) (bank : Byte) (addr : Word) (v : Byte) (m : Mem H) :
    Mem H :=
  match cpuRamOffset bank addr with
  | some off => m.setRam off v
  | none =>
    if isHwReg bank addr then io.writeReg addr v m
    else
      match cpuSramOffset cart bank addr with
      | some off => m.setSram off v
      | none => m

/-- The part of `cpu_write16` past the WRAM test. -/
def cpuWrite16NotRam (cart : Cart) (io : RegIo H) (bank : Byte) (addr v : Word) (m : Mem H) :
    Mem H :=
  if isHwReg bank addr then writeRegWord io addr v m
  else
    match cpuSramOffset cart bank addr with
    | some lo =>
      let m' := m.setSram lo (loByte v)
      match cpuSramOffset cart bank (addr + 1) with
      | some hi => m'.setSram hi (hiByte v)
      | none => cpuWrite8 cart io bank (addr + 1) (hiByte v) m'
    | none => m

def cpuWrite16 (cart : Cart) (io : RegIo H) (bank : Byte) (addr v : Word) (m : Mem H) : Mem H :=
  match cpuRamOffset bank addr with
  | some off =>
    if off + 1 < 0x20000 then (m.setRam off (loByte v)).setRam (off + 1) (hiByte v)
    else cpuWrite16NotRam cart io bank addr v m
  | none => cpuWrite16NotRam cart io bank addr v m

/-- Only a register read can change something. -/
theorem cpuRead8_mem (cart : Cart) (io : RegIo H) {bank : Byte} {addr : Word} (m : Mem H)
    (h : isHwReg bank addr = true → ∀ reg m, (io.readReg reg m).2 = m) :
    (cpuRead8 cart io bank addr m).2 = m := by
  unfold cpuRead8
  cases cpuRamOffset bank addr with
  | some off => rfl
  | none =>
    by_cases hreg : isHwReg bank addr = true
    · exact (congrArg Prod.snd (if_pos hreg)).trans (h hreg addr m)
    · refine (congrArg Prod.snd (if_neg hreg)).trans ?_
      cases cpuSramOffset cart bank addr with
      | some off => rfl
      | none => rfl

/-- The bus of the running program. -/
def cpuBus (cart : Cart) (io : RegIo H) : Bus (Mem H) where
  read8 := cpuRead8 cart io
  read16 := cpuRead16 cart io
  write8 := cpuWrite8 cart io
  write16 := cpuWrite16 cart io

/-- Devices that answer zero. -/
def silentIo : RegIo Unit where
  readReg _ m := (0, m)
  writeReg _ _ m := m
  apuPorts _ m := (0, m)
  writeVramWord _ m := m

/-- A 512 KB cartridge without SRAM. -/
def romOnlyCart : Cart := ⟨0x80000, 0⟩

/-- Cleared memory behind a ROM image. -/
def romMem (rom : Nat → Byte) : Mem Unit := ⟨fun _ => 0, fun _ => 0, rom, ()⟩

end SnesRecomp
