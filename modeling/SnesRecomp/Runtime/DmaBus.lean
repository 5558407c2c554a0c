import SnesRecomp.Lib.Runs
import SnesRecomp.Runtime.WordAccess

/-!
# The DMA bus

`snes_read` and `snes_write` of `snes/snes.c` over the LoROM mapper of `snes/cart.c`, next to
`cpu_read8` and `cpu_write8`.  `busesAgree_iff`: outside the register window the two see one
memory at an address exactly when it is not

* in `$6000-$7FFF` of a low bank, where only `cpu_sram_offset` maps SRAM, as HiROM does;
* in the lower half of `$F0`, which `cart_writeLorom` leaves out and `cart_readLorom` does not;
* in the lower half of `$FE` or `$FF`, which are SRAM on the DMA bus and ROM on the other.

The last two only matter with SRAM.
-/

namespace SnesRecomp

variable {H : Type}

/-! ### The mapper -/

/-- A cartridge as it is loaded: the image is padded to a power of two. -/
structure LoromCart where
  cart : Cart
  rom_pow : ∃ k ≤ 22, cart.romSize = 2 ^ k
  sram_pow : cart.sramSize = 0 ∨ ∃ k, cart.sramSize = 2 ^ k

/-- The SRAM windows of `cart_readLorom`. -/
def LoromSramRead (cart : Cart) (bank : Byte) (adr : Word) : Prop :=
  ((0x70 ≤ bank.toNat ∧ bank.toNat < 0x7E) ∨ 0xF0 ≤ bank.toNat) ∧ adr.toNat < 0x8000 ∧
    0 < cart.sramSize

instance (cart : Cart) (bank : Byte) (adr : Word) : Decidable (LoromSramRead cart bank adr) :=
  inferInstanceAs (Decidable (_ ∧ _))

/-- The SRAM windows of `cart_writeLorom`. -/
def LoromSramWrite (cart : Cart) (bank : Byte) (adr : Word) : Prop :=
  ((0x70 ≤ bank.toNat ∧ bank.toNat < 0x7E) ∨ 0xF0 < bank.toNat) ∧ adr.toNat < 0x8000 ∧
    0 < cart.sramSize

instance (cart : Cart) (bank : Byte) (adr : Word) : Decidable (LoromSramWrite cart bank adr) :=
  inferInstanceAs (Decidable (_ ∧ _))

def loromSramOffset (cart : Cart) (bank : Byte) (adr : Word) : Nat :=
  (((bank.toNat &&& 0xF) <<< 15) ||| adr.toNat) &&& (cart.sramSize - 1)

def loromRomOffset (cart : Cart) (bank : Byte) (adr : Word) : Nat :=
  (((bank.toNat &&& 0x7F) <<< 15) ||| (adr.toNat &&& 0x7FFF)) &&& (cart.romSize - 1)

def cartReadLorom (cart : Cart) (bank : Byte) (adr : Word) (m : Mem H) : Byte :=
  if LoromSramRead cart bank adr then m.sram (loromSramOffset cart bank adr)
  else if 0x8000 ≤ adr.toNat ∨ 0x40 ≤ bank.toNat &&& 0x7F then m.rom (loromRomOffset cart bank adr)
  else 0

def cartWriteLorom (cart : Cart) (bank : Byte) (adr : Word) (val : Byte) (m : Mem H) : Mem H :=
  if LoromSramWrite cart bank adr then m.setSram (loromSramOffset cart bank adr) val else m

/-! ### The bus -/

/-- The devices of the emulator core: the B-bus, the internal registers and those of the DMA. -/
structure SnesIo (H : Type) where
  readBBus : Byte → Mem H → Byte × Mem H
  writeBBus : Byte → Byte → Mem H → Mem H
  readReg : Word → Mem H → Byte × Mem H
  writeReg : Word → Byte → Mem H → Mem H
  dmaRead : Word → Mem H → Byte × Mem H
  dmaWrite : Word → Byte → Mem H → Mem H

def WramBank (bank : Byte) : Prop := bank.toNat = 0x7E ∨ bank.toNat = 0x7F

instance (bank : Byte) : Decidable (WramBank bank) := inferInstanceAs (Decidable (_ ∨ _))

def wramBankOffset (bank : Byte) (adr : Word) : Nat := ((bank.toNat &&& 1) <<< 16) ||| adr.toNat

def snesRead (cart : Cart) (io : SnesIo H) (bank : Byte) (adr : Word) (m : Mem H) : Byte × Mem H :=
  let a := adr.toNat
  if WramBank bank then (m.ram (wramBankOffset bank adr), m)
  else if lowBank bank then
    if a < 0x2000 then (m.ram a, m)
    else if 0x2100 ≤ a ∧ a < 0x2200 then io.readBBus (loByte adr) m
    else if a = 0x4016 ∨ a = 0x4017 then (0, m)
    else if 0x4200 ≤ a ∧ a < 0x4220 then io.readReg adr m
    else if 0x4300 ≤ a ∧ a < 0x4380 then io.dmaRead adr m
    else (cartReadLorom cart bank adr m, m)
  else (cartReadLorom cart bank adr m, m)

/-- Every store reaches the cartridge, whatever else it does. -/
def snesWrite (cart : Cart) (io : SnesIo H) (bank : Byte) (adr : Word) (val : Byte) (m : Mem H) :
    Mem H :=
  let a := adr.toNat
  let m := if WramBank bank then m.setRam (wramBankOffset bank adr) val else m
  let m :=
    if lowBank bank then
      let m := if a < 0x2000 then m.setRam a val else m
      let m := if 0x2100 ≤ a ∧ a < 0x2200 then io.writeBBus (loByte adr) val m else m
      let m := if 0x4200 ≤ a ∧ a < 0x4220 then io.writeReg adr val m else m
      if 0x4300 ≤ a ∧ a < 0x4380 then io.dmaWrite adr val m else m
    else m
  cartWriteLorom cart bank adr val m

/-! ### Locations -/

/-- Where a read outside the register window goes; `none` is open bus. -/
def snesReadLoc (cart : Cart) (bank : Byte) (adr : Word) : Option Loc :=
  if WramBank bank then some (.wram (wramBankOffset bank adr))
  else if lowBank bank = true ∧ adr.toNat < 0x2000 then some (.wram adr.toNat)
  else if LoromSramRead cart bank adr then some (.sram (loromSramOffset cart bank adr))
  else if 0x8000 ≤ adr.toNat ∨ 0x40 ≤ bank.toNat &&& 0x7F then
    some (.rom (loromRomOffset cart bank adr))
  else none

/-- Where a store outside the register window goes; `none` drops it. -/
def snesWriteLoc (cart : Cart) (bank : Byte) (adr : Word) : Option Loc :=
  if WramBank bank then some (.wram (wramBankOffset bank adr))
  else if lowBank bank = true ∧ adr.toNat < 0x2000 then some (.wram adr.toNat)
  else if LoromSramWrite cart bank adr then some (.sram (loromSramOffset cart bank adr))
  else none

section Locations

variable {cart : Cart} {bank : Byte} {adr : Word}

/-- A low bank is not a bank of WRAM, and no LoROM SRAM is in either. -/
theorem not_wramBank_of_lowBank (h : lowBank bank = true) : ¬ WramBank bank := by
  rw [lowBank_iff] at h
  unfold WramBank
  omega

theorem not_sramWrite_of_lowBank (h : lowBank bank = true) : ¬ LoromSramWrite cart bank adr := by
  rw [lowBank_iff] at h
  unfold LoromSramWrite
  omega

theorem not_sramWrite_of_wramBank (h : WramBank bank) : ¬ LoromSramWrite cart bank adr := by
  unfold WramBank at h
  unfold LoromSramWrite
  omega

/-- Outside the window no register of a low bank is selected. -/
theorem not_register (hw : isHwReg bank adr = false) (hlow : lowBank bank = true)
    (hadr : ¬ adr.toNat < 0x2000) : 0x6000 ≤ adr.toNat := by
  by_contra hlt
  rw [isHwReg_iff.mpr ⟨hlow, by omega, by omega⟩] at hw
  cases hw

theorem snesRead_eq (io : RegIo H) (sio : SnesIo H) (hw : isHwReg bank adr = false) (m : Mem H) :
    snesRead cart sio bank adr m =
      match snesReadLoc cart bank adr with
      | some l => readLoc io l m
      | none => (0, m) := by
  have hcart : ¬ WramBank bank → ¬ (lowBank bank = true ∧ adr.toNat < 0x2000) →
      (cartReadLorom cart bank adr m, m) =
        match snesReadLoc cart bank adr with
        | some l => readLoc io l m
        | none => (0, m) := by
    intro hwram hmirror
    unfold snesReadLoc cartReadLorom
    rw [if_neg hwram, if_neg hmirror]
    split
    · rfl
    · split <;> rfl
  unfold snesRead
  dsimp only
  by_cases hwram : WramBank bank
  · rw [if_pos hwram, snesReadLoc, if_pos hwram]
    rfl
  rw [if_neg hwram]
  by_cases hlow : lowBank bank = true
  · rw [if_pos hlow]
    by_cases hadr : adr.toNat < 0x2000
    · rw [if_pos hadr, snesReadLoc, if_neg hwram, if_pos ⟨hlow, hadr⟩]
      rfl
    · have hge := not_register hw hlow hadr
      rw [if_neg hadr, if_neg (by omega), if_neg (by omega), if_neg (by omega), if_neg (by omega)]
      exact hcart hwram fun h => hadr h.2
  · rw [if_neg hlow]
    exact hcart hwram fun h => hlow h.1

theorem snesWrite_eq (io : RegIo H) (sio : SnesIo H) (hw : isHwReg bank adr = false) (v : Byte)
    (m : Mem H) :
    snesWrite cart sio bank adr v m =
      match snesWriteLoc cart bank adr with
      | some l => writeLoc io l v m
      | none => m := by
  unfold snesWrite snesWriteLoc cartWriteLorom
  dsimp only
  by_cases hwram : WramBank bank
  · have hlow : ¬ lowBank bank = true := fun h => not_wramBank_of_lowBank h hwram
    rw [if_neg (not_sramWrite_of_wramBank hwram), if_neg hlow, if_pos hwram, if_pos hwram]
    rfl
  rw [if_neg hwram, if_neg hwram]
  by_cases hlow : lowBank bank = true
  · rw [if_neg (not_sramWrite_of_lowBank hlow), if_neg (not_sramWrite_of_lowBank hlow), if_pos hlow]
    by_cases hadr : adr.toNat < 0x2000
    · rw [if_neg (by omega), if_neg (by omega), if_neg (by omega), if_pos hadr,
        if_pos ⟨hlow, hadr⟩]
      rfl
    · have hge := not_register hw hlow hadr
      rw [if_neg (by omega), if_neg (by omega), if_neg (by omega), if_neg hadr,
        if_neg fun h => hadr h.2]
  · have hmirror : ¬ (lowBank bank = true ∧ adr.toNat < 0x2000) := fun h => hlow h.1
    rw [if_neg hlow, if_neg hmirror]
    split <;> rfl

/-! ### The two maps -/

theorem wramBankOffset_eq (hwram : WramBank bank) :
    cpuRamOffset bank adr = some (wramBankOffset bank adr) := by
  have hadr : adr.toNat < 2 ^ 16 := adr.isLt
  rw [cpuRamOffset_eq_some, wramBankOffset, Bits.shiftLeft_or_eq_add hadr]
  rcases hwram with h | h
  · exact Or.inl ⟨BitVec.eq_of_toNat_eq h, by rw [h]; simp⟩
  · exact Or.inr (Or.inl ⟨BitVec.eq_of_toNat_eq h, by rw [h]; simp⟩)

theorem cpuRamOffset_mirror (hlow : lowBank bank = true) (hadr : adr.toNat < 0x2000) :
    cpuRamOffset bank adr = some adr.toNat :=
  cpuRamOffset_eq_some.mpr (Or.inr (Or.inr ⟨hlow, hadr, rfl⟩))

theorem cpuRamOffset_none (hwram : ¬ WramBank bank)
    (hmirror : ¬ (lowBank bank = true ∧ adr.toNat < 0x2000)) : cpuRamOffset bank adr = none := by
  rw [Option.eq_none_iff_forall_not_mem]
  intro off hoff
  rcases cpuRamOffset_eq_some.mp hoff with ⟨rfl, -⟩ | ⟨rfl, -⟩ | ⟨hlow, hlt, -⟩
  · exact hwram (Or.inl rfl)
  · exact hwram (Or.inr rfl)
  · exact hmirror ⟨hlow, hlt⟩

/-- Both buses mirror an image whose size is a power of two the same way: bank `$80` is a
multiple of it. -/
theorem romPtr_eq (c : LoromCart) (bank : Byte) (adr : Word) :
    romPtr c.cart (addr24 bank adr) = loromRomOffset c.cart bank adr := by
  obtain ⟨k, hk, hsize⟩ := c.rom_pow
  have hadr := adr.isLt
  have hbank := bank.isLt
  have hlow15 : ∀ n, n &&& 0x7FFF = n % 2 ^ 15 := fun n => Nat.and_two_pow_sub_one_eq_mod n 15
  have hlow7 : ∀ n, n &&& 0x7F = n % 2 ^ 7 := fun n => Nat.and_two_pow_sub_one_eq_mod n 7
  have haddr : (addr24 bank adr).toNat = bank.toNat * 2 ^ 16 + adr.toNat := by
    have hshift : bank.toNat <<< 16 % 2 ^ 32 = bank.toNat <<< 16 :=
      Nat.mod_eq_of_lt (by rw [Nat.shiftLeft_eq]; omega)
    simp only [addr24, BitVec.toNat_or, BitVec.toNat_shiftLeft, BitVec.toNat_setWidth]
    rw [Nat.mod_eq_of_lt (by omega : bank.toNat < 2 ^ 32),
      Nat.mod_eq_of_lt (by omega : adr.toNat < 2 ^ 32), hshift,
      Bits.shiftLeft_or_eq_add (by omega : adr.toNat < 2 ^ 16)]
  have hoff : (((addr24 bank adr) >>> 16) <<< 15 ||| (addr24 bank adr &&& 0x7FFF)).toNat =
      bank.toNat * 2 ^ 15 + adr.toNat % 2 ^ 15 := by
    simp only [BitVec.toNat_or, BitVec.toNat_shiftLeft, BitVec.toNat_ushiftRight, BitVec.toNat_and,
      haddr]
    have hmask : (0x7FFF : BitVec 32).toNat = 0x7FFF := rfl
    rw [hmask, hlow15, Nat.shiftRight_eq_div_pow,
      (by omega : (bank.toNat * 2 ^ 16 + adr.toNat) / 2 ^ 16 = bank.toNat),
      Nat.mod_eq_of_lt (by rw [Nat.shiftLeft_eq]; omega),
      Bits.shiftLeft_or_eq_add (Nat.mod_lt _ (by decide))]
    omega
  have hdvd : (2 : Nat) ^ k ∣ 2 ^ 22 := Nat.pow_dvd_pow 2 hk
  have hpos : c.cart.romSize ≠ 0 := by
    rw [hsize]
    exact Nat.ne_of_gt (Nat.two_pow_pos k)
  unfold romPtr loromRomOffset
  dsimp only
  rw [if_neg hpos, hsize, hoff, hlow7, hlow15, Nat.and_two_pow_sub_one_eq_mod,
    Bits.shiftLeft_or_eq_add (Nat.mod_lt _ (by decide))]
  have hsplit : bank.toNat * 2 ^ 15 + adr.toNat % 2 ^ 15 =
      (bank.toNat % 2 ^ 7 * 2 ^ 15 + adr.toNat % 2 ^ 15) + 2 ^ 22 * (bank.toNat / 2 ^ 7) := by
    omega
  rw [hsplit, Nat.add_mod, Nat.mod_eq_zero_of_dvd (Dvd.dvd.mul_right hdvd _), Nat.add_zero,
    Nat.mod_mod]

/-- The addresses outside the register window at which the two maps are the same. -/
def MappedAlike (cart : Cart) (bank : Byte) (adr : Word) : Prop :=
  ¬ (lowBank bank = true ∧ 0x6000 ≤ adr.toNat ∧ adr.toNat < 0x8000) ∧
    ¬ ((bank.toNat = 0xF0 ∨ 0xFE ≤ bank.toNat) ∧ adr.toNat < 0x8000 ∧ 0 < cart.sramSize)

instance (cart : Cart) (bank : Byte) (adr : Word) : Decidable (MappedAlike cart bank adr) :=
  inferInstanceAs (Decidable (_ ∧ _))

theorem cpuSramOffset_lorom (h : LoromSramRead cart bank adr) (hbank : ¬ 0xFE ≤ bank.toNat) :
    cpuSramOffset cart bank adr = some (loromSramOffset cart bank adr) := by
  obtain ⟨hwindow, hadr, hsize⟩ := h
  unfold cpuSramOffset
  rw [if_neg (Nat.ne_of_gt hsize), if_pos]
  · rfl
  · simp [BitVec.le_def, BitVec.lt_def]
    omega

/-- Without a window of its own an address outside the low banks is ROM. -/
theorem cpuSramOffset_none (h : ¬ LoromSramRead cart bank adr)
    (hlow : ¬ (lowBank bank = true ∧ 0x6000 ≤ adr.toNat ∧ adr.toNat < 0x8000)) :
    cpuSramOffset cart bank adr = none := by
  rw [lowBank_iff] at hlow
  unfold LoromSramRead at h
  unfold cpuSramOffset
  split
  · rfl
  · rw [if_neg, if_neg]
    · simp [BitVec.le_def, BitVec.lt_def]
      omega
    · simp [BitVec.le_def, BitVec.lt_def]
      omega

theorem route_of_mappedAlike (c : LoromCart) (hw : isHwReg bank adr = false)
    (h : MappedAlike c.cart bank adr) :
    snesReadLoc c.cart bank adr = some (route c.cart bank adr) ∧
      (snesWriteLoc c.cart bank adr = some (route c.cart bank adr) ∨
        snesWriteLoc c.cart bank adr = none ∧ ∃ off, route c.cart bank adr = .rom off) := by
  unfold snesReadLoc snesWriteLoc
  by_cases hwram : WramBank bank
  · rw [if_pos hwram, if_pos hwram, route_of_ram (wramBankOffset_eq hwram)]
    exact ⟨rfl, Or.inl rfl⟩
  rw [if_neg hwram, if_neg hwram]
  by_cases hmirror : lowBank bank = true ∧ adr.toNat < 0x2000
  · rw [if_pos hmirror, if_pos hmirror, route_of_ram (cpuRamOffset_mirror hmirror.1 hmirror.2)]
    exact ⟨rfl, Or.inl rfl⟩
  rw [if_neg hmirror, if_neg hmirror]
  have hram := cpuRamOffset_none hwram hmirror
  by_cases hsram : LoromSramRead c.cart bank adr
  · have hbank : ¬ (bank.toNat = 0xF0 ∨ 0xFE ≤ bank.toNat) := fun hb => h.2 ⟨hb, hsram.2⟩
    have hwrite : LoromSramWrite c.cart bank adr := by
      obtain ⟨hwindow, hrest⟩ := hsram
      exact ⟨by omega, hrest⟩
    rw [if_pos hsram, if_pos hwrite,
      route_of_sram hram hw (cpuSramOffset_lorom hsram fun hb => hbank (Or.inr hb))]
    exact ⟨rfl, Or.inl rfl⟩
  · have hwrite : ¬ LoromSramWrite c.cart bank adr := by
      intro hwrite
      obtain ⟨hwindow, hrest⟩ := hwrite
      exact hsram ⟨by omega, hrest⟩
    have hrom : 0x8000 ≤ adr.toNat ∨ 0x40 ≤ bank.toNat &&& 0x7F := by
      by_contra hnot
      have hlow7 : bank.toNat &&& 0x7F = bank.toNat % 2 ^ 7 := Nat.and_two_pow_sub_one_eq_mod _ 7
      rw [hlow7] at hnot
      have hbank := bank.isLt
      have hlow : lowBank bank = true := by
        rw [lowBank_iff]
        omega
      have hge := not_register hw hlow fun hlt => hmirror ⟨hlow, hlt⟩
      exact h.1 ⟨hlow, hge, by omega⟩
    rw [if_neg hsram, if_neg hwrite, if_pos hrom,
      route_of_rom hram hw (cpuSramOffset_none hsram h.1), romPtr_eq]
    exact ⟨rfl, Or.inr ⟨rfl, _, rfl⟩⟩

/-- In `$6000-$7FFF` of a low bank the DMA bus is open, and the other has SRAM or ROM. -/
theorem hirom_window (hlow : lowBank bank = true) (hge : 0x6000 ≤ adr.toNat)
    (hlt : adr.toNat < 0x8000) :
    snesReadLoc cart bank adr = none ∧
      ((∃ off, route cart bank adr = .sram off) ∨ ∃ off, route cart bank adr = .rom off) := by
  have hwram := not_wramBank_of_lowBank hlow
  have hmirror : ¬ (lowBank bank = true ∧ adr.toNat < 0x2000) := by omega
  have hw : isHwReg bank adr = false := by
    rw [Bool.eq_false_iff, Ne, isHwReg_iff]
    omega
  have hbank := lowBank_iff.mp hlow
  have hlow7 : bank.toNat &&& 0x7F = bank.toNat % 2 ^ 7 := Nat.and_two_pow_sub_one_eq_mod _ 7
  have hsram : ¬ LoromSramRead cart bank adr := by
    unfold LoromSramRead
    omega
  refine ⟨?_, ?_⟩
  · unfold snesReadLoc
    rw [if_neg hwram, if_neg hmirror, if_neg hsram, if_neg (by omega)]
  · have hram := cpuRamOffset_none hwram hmirror
    cases hs : cpuSramOffset cart bank adr with
    | some off => exact Or.inl ⟨off, route_of_sram hram hw hs⟩
    | none => exact Or.inr ⟨_, route_of_rom hram hw hs⟩

/-- Stores to the SRAM in bank `$F0` are dropped. -/
theorem sram_bank_F0 (hbank : bank.toNat = 0xF0) (hadr : adr.toNat < 0x8000)
    (hsize : 0 < cart.sramSize) :
    snesWriteLoc cart bank adr = none ∧ ∃ off, route cart bank adr = .sram off := by
  have hwram : ¬ WramBank bank := by
    unfold WramBank
    omega
  have hlow : lowBank bank ≠ true := by
    rw [Ne, lowBank_iff]
    omega
  have hw : isHwReg bank adr = false := by
    rw [Bool.eq_false_iff, Ne, isHwReg_iff]
    exact fun h => hlow h.1
  have hmirror : ¬ (lowBank bank = true ∧ adr.toNat < 0x2000) := fun h => hlow h.1
  have hwrite : ¬ LoromSramWrite cart bank adr := by
    unfold LoromSramWrite
    omega
  have hread : LoromSramRead cart bank adr := ⟨by omega, hadr, hsize⟩
  refine ⟨?_, _, route_of_sram (cpuRamOffset_none hwram hmirror) hw
    (cpuSramOffset_lorom hread (by omega))⟩
  unfold snesWriteLoc
  rw [if_neg hwram, if_neg hmirror, if_neg hwrite]

/-- Banks `$FE` and `$FF` are SRAM on the DMA bus and ROM on the other. -/
theorem sram_bank_FE (hbank : 0xFE ≤ bank.toNat) (hadr : adr.toNat < 0x8000)
    (hsize : 0 < cart.sramSize) :
    (∃ off, snesReadLoc cart bank adr = some (.sram off)) ∧
      ∃ off, route cart bank adr = .rom off := by
  have hwram : ¬ WramBank bank := by
    unfold WramBank
    omega
  have hlow : lowBank bank ≠ true := by
    rw [Ne, lowBank_iff]
    omega
  have hw : isHwReg bank adr = false := by
    rw [Bool.eq_false_iff, Ne, isHwReg_iff]
    exact fun h => hlow h.1
  have hmirror : ¬ (lowBank bank = true ∧ adr.toNat < 0x2000) := fun h => hlow h.1
  have hread : LoromSramRead cart bank adr := ⟨by omega, hadr, hsize⟩
  have hsram : cpuSramOffset cart bank adr = none := by
    unfold cpuSramOffset
    rw [if_neg (Nat.ne_of_gt hsize), if_neg, if_neg]
    · simp [BitVec.le_def, BitVec.lt_def]
      omega
    · simp [BitVec.le_def, BitVec.lt_def]
      omega
  refine ⟨⟨loromSramOffset cart bank adr, ?_⟩, _,
    route_of_rom (cpuRamOffset_none hwram hmirror) hw hsram⟩
  unfold snesReadLoc
  rw [if_neg hwram, if_neg hmirror, if_pos hread]

end Locations

/-! ### Stores through both buses -/

/-- A store of the CPU or of the DMA. -/
inductive BusStore
  | cpu (bank : Byte) (addr : Word) (v : Byte)
  | dma (bank : Byte) (adr : Word) (v : Byte)

section Stores

variable (cart : Cart) (io : RegIo H) (sio : SnesIo H)

def busStore : BusStore → Mem H → Mem H
  | .cpu bank addr v, m => cpuWrite8 cart io bank addr v m
  | .dma bank adr v, m => snesWrite cart sio bank adr v m

/-- After any stores through either bus, the two read the same byte at the address, and a
further store there has the same effect through both. -/
def BusesAgree (bank : Byte) (addr : Word) : Prop :=
  ∀ (stores : List BusStore) (m : Mem H),
    let m' := Runs.final (busStore cart io sio) stores m
    (cpuRead8 cart io bank addr m').1 = (snesRead cart sio bank addr m').1 ∧
      ∀ v, cpuWrite8 cart io bank addr v m' = snesWrite cart sio bank addr v m'

theorem busesAgree_of_mappedAlike (c : LoromCart) {bank : Byte} {addr : Word}
    (hw : isHwReg bank addr = false) (h : MappedAlike c.cart bank addr) :
    BusesAgree c.cart io sio bank addr := by
  obtain ⟨hread, hwrite⟩ := route_of_mappedAlike c hw h
  intro stores m m'
  refine ⟨?_, fun v => ?_⟩
  · rw [cpuRead8_eq_readLoc, snesRead_eq io sio hw, hread]
  · rw [cpuWrite8_eq_writeLoc, snesWrite_eq io sio hw]
    rcases hwrite with hwrite | ⟨hwrite, off, hrom⟩
    · rw [hwrite]
    · rw [hwrite, hrom]
      rfl

theorem mappedAlike_of_busesAgree [Inhabited H] {bank : Byte} {addr : Word}
    (hw : isHwReg bank addr = false) (h : BusesAgree cart io sio bank addr) :
    MappedAlike cart bank addr := by
  have hread : ∀ m : Mem H, (cpuRead8 cart io bank addr m).1 = (snesRead cart sio bank addr m).1 :=
    fun m => (h [] m).1
  refine ⟨fun ⟨hlow, hge, hlt⟩ => ?_, fun ⟨hbank, hadr, hsize⟩ => ?_⟩
  · obtain ⟨hopen, hroute⟩ := @hirom_window cart _ _ hlow hge hlt
    have hprobe := hread (probe default (route cart bank addr))
    rw [cpuRead8_eq_readLoc, snesRead_eq io sio hw, hopen] at hprobe
    rcases hroute with ⟨off, hroute⟩ | ⟨off, hroute⟩
    · rw [hroute] at hprobe
      simp [readLoc, probe] at hprobe
    · rw [hroute] at hprobe
      simp [readLoc, probe] at hprobe
  rcases hbank with hbank | hbank
  · obtain ⟨hdrop, off, hroute⟩ := sram_bank_F0 hbank hadr hsize
    have hstore := (h [] ⟨fun _ => 0, fun _ => 0, fun _ => 0, default⟩).2 1
    rw [cpuWrite8_eq_writeLoc, snesWrite_eq io sio hw, hdrop, hroute] at hstore
    have hbyte := congrFun (congrArg Mem.sram hstore) off
    simp [writeLoc, Mem.setSram, Runs.final] at hbyte
  · obtain ⟨⟨off, hloc⟩, off', hroute⟩ := sram_bank_FE hbank hadr hsize
    have hprobe := hread (probe default (.sram off))
    rw [cpuRead8_eq_readLoc, snesRead_eq io sio hw, hloc, hroute] at hprobe
    simp [readLoc, probe] at hprobe

/-- **The two buses see one memory exactly where their maps are the same.** -/
theorem busesAgree_iff [Inhabited H] (c : LoromCart) (io : RegIo H) (sio : SnesIo H) (bank : Byte)
    (addr : Word) (hw : isHwReg bank addr = false) :
    BusesAgree c.cart io sio bank addr ↔ MappedAlike c.cart bank addr :=
  ⟨mappedAlike_of_busesAgree c.cart io sio hw, busesAgree_of_mappedAlike io sio c hw⟩

end Stores

/-- Devices of the emulator core that ignore every store and read as zero. -/
def quietSnesIo : SnesIo Unit where
  readBBus _ m := (0, m)
  writeBBus _ _ m := m
  readReg _ m := (0, m)
  writeReg _ _ m := m
  dmaRead _ m := (0, m)
  dmaWrite _ _ m := m

/-- 512 KB of ROM and 8 KB of SRAM. -/
def smallCart : LoromCart where
  cart := ⟨0x80000, 0x2000⟩
  rom_pow := ⟨19, by decide, rfl⟩
  sram_pow := Or.inr ⟨13, rfl⟩

theorem busesAgree_700000 : BusesAgree smallCart.cart quietIo quietSnesIo 0x70 0x0000 :=
  (busesAgree_iff smallCart quietIo quietSnesIo 0x70 0x0000 (by decide)).mpr (by decide)

/-- Stored by the CPU at `$F0:0000`, a byte is not stored by the DMA there; the windows of the
two buses differ in bank `$FE` and at `$00:6000`, too. -/
theorem not_busesAgree_F00000 :
    (isHwReg 0xF0 0x0000 = false ∧ ¬ BusesAgree smallCart.cart quietIo quietSnesIo 0xF0 0x0000) ∧
      (isHwReg 0xFE 0x0000 = false ∧ ¬ BusesAgree smallCart.cart quietIo quietSnesIo 0xFE 0x0000) ∧
      isHwReg 0x00 0x6000 = false ∧ ¬ BusesAgree smallCart.cart quietIo quietSnesIo 0x00 0x6000 := by
  refine ⟨⟨by decide, fun h => ?_⟩, ⟨by decide, fun h => ?_⟩, by decide, fun h => ?_⟩
  · exact absurd (mappedAlike_of_busesAgree _ _ _ (by decide) h) (by decide)
  · exact absurd (mappedAlike_of_busesAgree _ _ _ (by decide) h) (by decide)
  · exact absurd (mappedAlike_of_busesAgree _ _ _ (by decide) h) (by decide)

end SnesRecomp
