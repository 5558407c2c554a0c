import SnesRecomp.Lib.Loops
import SnesRecomp.Runtime.DmaBus
import Mathlib.Tactic.FinCases
import Mathlib.Tactic.IntervalCases

/-!
# DMA transfers

`dma.c` over the bus of the emulator core.  A store to `$420B` starts the channels of its bits, and
the loop of `snes_writeReg` runs `dma_cycle` until none is left.

`dmaLoop_ends`: the loop ends, and it has transferred what `schedule` lists: the channels in order, of
each as many bytes as its counter says, where zero stands for 65536, and every byte with the
addresses of its place.  It rests on the timer being even, which is also necessary (`dmaLoop_iff`).
-/

namespace SnesRecomp

/-! ### Registers -/

/-- `DmaChannel`, without what no function reads. -/
structure DmaChannel where
  bAdr : Byte
  aAdr : Word
  aBank : Byte
  size : Word
  indBank : Byte
  tableAdr : Word
  repCount : Byte
  unusedByte : Byte
  dmaActive : Bool
  hdmaActive : Bool
  mode : BitVec 3
  fixed : Bool
  decrement : Bool
  indirect : Bool
  fromB : Bool
  unusedBit : Bool
  offIndex : BitVec 2
  deriving DecidableEq, Repr

structure Dma where
  channel : Fin 8 → DmaChannel
  dmaTimer : BitVec 32
  dmaBusy : Bool
  deriving DecidableEq

/-- `dma_reset`. -/
def dmaReset : Dma where
  channel _ :=
    { bAdr := 0xFF, aAdr := 0xFFFF, aBank := 0xFF, size := 0xFFFF, indBank := 0xFF
      tableAdr := 0xFFFF, repCount := 0xFF, unusedByte := 0xFF, dmaActive := false
      hdmaActive := false, mode := 7, fixed := true, decrement := true, indirect := true
      fromB := true, unusedBit := true, offIndex := 0 }
  dmaTimer := 0
  dmaBusy := false

/-- A bit of a register byte. -/
def bitAt (b : Bool) (n : Nat) : Byte := (BitVec.ofBool b).setWidth 8 <<< n

def setLow (w : Word) (v : Byte) : Word := (w &&& 0xFF00) ||| v.setWidth 16

def setHigh (w : Word) (v : Byte) : Word := (w &&& 0xFF) ||| (v.setWidth 16 <<< 8)

/-- The switch of `dma_read`. -/
def DmaChannel.read (c : DmaChannel) : Fin 16 → Byte
  | 0x0 => c.mode.setWidth 8 ||| bitAt c.fixed 3 ||| bitAt c.decrement 4 ||| bitAt c.unusedBit 5 |||
      bitAt c.indirect 6 ||| bitAt c.fromB 7
  | 0x1 => c.bAdr
  | 0x2 => loByte c.aAdr
  | 0x3 => hiByte c.aAdr
  | 0x4 => c.aBank
  | 0x5 => loByte c.size
  | 0x6 => hiByte c.size
  | 0x7 => c.indBank
  | 0x8 => loByte c.tableAdr
  | 0x9 => hiByte c.tableAdr
  | 0xA => c.repCount
  | 0xB | 0xF => c.unusedByte
  | _ => 0

/-- The switch of `dma_write`. -/
def DmaChannel.write (c : DmaChannel) (val : Byte) : Fin 16 → DmaChannel
  | 0x0 =>
    { c with
      mode := val.setWidth 3, fixed := val.getLsbD 3, decrement := val.getLsbD 4
      unusedBit := val.getLsbD 5, indirect := val.getLsbD 6, fromB := val.getLsbD 7 }
  | 0x1 => { c with bAdr := val }
  | 0x2 => { c with aAdr := setLow c.aAdr val }
  | 0x3 => { c with aAdr := setHigh c.aAdr val }
  | 0x4 => { c with aBank := val }
  | 0x5 => { c with size := setLow c.size val }
  | 0x6 => { c with size := setHigh c.size val }
  | 0x7 => { c with indBank := val }
  | 0x8 => { c with tableAdr := setLow c.tableAdr val }
  | 0x9 => { c with tableAdr := setHigh c.tableAdr val }
  | 0xA => { c with repCount := val }
  | 0xB | 0xF => { c with unusedByte := val }
  | _ => c

/-- `(adr & 0x70) >> 4`. -/
def dmaChannelOf (adr : Word) : Fin 8 := ⟨adr.toNat / 16 % 8, Nat.mod_lt _ (by decide)⟩

/-- `adr & 0xf`. -/
def dmaOffset (adr : Word) : Fin 16 := ⟨adr.toNat % 16, Nat.mod_lt _ (by decide)⟩

/-- `dma_read`. -/
def dmaRead (d : Dma) (adr : Word) : Byte := (d.channel (dmaChannelOf adr)).read (dmaOffset adr)

/-- `dma_write`. -/
def dmaWrite (d : Dma) (adr : Word) (val : Byte) : Dma :=
  { d with
    channel := Function.update d.channel (dmaChannelOf adr)
      ((d.channel (dmaChannelOf adr)).write val (dmaOffset adr)) }

/-- `dma_startDma`. -/
def dmaStartDma (d : Dma) (val : Byte) (hdma : Bool) : Dma :=
  if hdma then { d with channel := fun i => { d.channel i with hdmaActive := val.getLsbD i } }
  else
    { channel := fun i => { d.channel i with dmaActive := val.getLsbD i }
      dmaBusy := val != 0
      dmaTimer := d.dmaTimer + if val != 0 then 16 else 0 }

/-- The byte of the register file behind an offset: `$43xF` is `$43xB`, and three offsets are
nothing. -/
def dmaRegister : Fin 16 → Option (Fin 16)
  | 0xC | 0xD | 0xE => none
  | 0xF => some 0xB
  | r => some r

@[simp] theorem loByte_setLow (w : Word) (v : Byte) : loByte (setLow w v) = v := by
  simp only [loByte, setLow]
  ext i hi
  simp

@[simp] theorem hiByte_setLow (w : Word) (v : Byte) : hiByte (setLow w v) = hiByte w := by
  simp only [hiByte, setLow]
  ext i hi
  have hcases : i < 8 := hi
  interval_cases i <;> simp

@[simp] theorem loByte_setHigh (w : Word) (v : Byte) : loByte (setHigh w v) = loByte w := by
  simp only [loByte, setHigh]
  ext i hi
  have hcases : i < 8 := hi
  interval_cases i <;> simp

@[simp] theorem hiByte_setHigh (w : Word) (v : Byte) : hiByte (setHigh w v) = v := by
  simp only [hiByte, setHigh]
  ext i hi
  have hcases : i < 8 := hi
  interval_cases i <;> simp

/-- The eight bits of the mode register. -/
theorem mode_bits : ∀ val : Byte, (val.setWidth 3).setWidth 8 ||| bitAt (val.getLsbD 3) 3 |||
    bitAt (val.getLsbD 4) 4 ||| bitAt (val.getLsbD 5) 5 ||| bitAt (val.getLsbD 6) 6 |||
    bitAt (val.getLsbD 7) 7 = val := by decide

theorem read_write_of_ne (c : DmaChannel) (val : Byte) {r r' : Fin 16}
    (h : dmaRegister r ≠ dmaRegister r') : (c.write val r).read r' = c.read r' := by
  fin_cases r <;> fin_cases r' <;> first
    | exact absurd rfl h
    | rfl
    | exact hiByte_setLow _ _
    | exact loByte_setHigh _ _

theorem read_write_self (c : DmaChannel) (val : Byte) {r r' : Fin 16}
    (h : dmaRegister r = dmaRegister r') :
    (c.write val r).read r' = if dmaRegister r' = none then c.read r' else val := by
  fin_cases r <;> fin_cases r' <;> first
    | exact absurd h (by decide)
    | rfl
    | exact mode_bits val
    | exact loByte_setLow _ _
    | exact hiByte_setHigh _ _

/-- **What is written to a register is read back from it**, and from no other. -/
theorem dmaRead_dmaWrite (d : Dma) (adr adr' : Word) (val : Byte) :
    dmaRead (dmaWrite d adr val) adr' =
      if dmaChannelOf adr = dmaChannelOf adr' ∧
          dmaRegister (dmaOffset adr) = dmaRegister (dmaOffset adr') ∧
          dmaRegister (dmaOffset adr') ≠ none then val
      else dmaRead d adr' := by
  simp only [dmaRead, dmaWrite]
  by_cases hc : dmaChannelOf adr = dmaChannelOf adr'
  · rw [hc, Function.update_self]
    by_cases hr : dmaRegister (dmaOffset adr) = dmaRegister (dmaOffset adr')
    · rw [read_write_self _ _ hr]
      by_cases hnone : dmaRegister (dmaOffset adr') = none
      · simp [hnone]
      · simp [hr, hnone]
    · rw [read_write_of_ne _ _ hr, if_neg fun h => hr h.2.1]
  · rw [Function.update_of_ne (Ne.symm hc), if_neg fun h => hc h.1]

/-! ### Transfers -/

/-- `bAdrOffsets`. -/
def bAdrOffsets : List (List Byte) :=
  [[0, 0, 0, 0], [0, 1, 0, 1], [0, 0, 0, 0], [0, 0, 1, 1], [0, 1, 2, 3], [0, 1, 0, 1], [0, 0, 0, 0],
    [0, 0, 1, 1]]

def bAdrOffset (mode : BitVec 3) (offIndex : BitVec 2) : Byte :=
  (bAdrOffsets.getD mode.toNat []).getD offIndex.toNat 0

/-- The arguments of `dma_transferByte`. -/
structure Transfer where
  aAdr : Word
  aBank : Byte
  bAdr : Byte
  fromB : Bool
  deriving DecidableEq, Repr

variable {D : Type}

/-- The devices beside the DMA: the B-bus and the internal registers. -/
structure DmaIo (D : Type) where
  readBBus : Byte → Mem (Dma × D) → Byte × Mem (Dma × D)
  writeBBus : Byte → Byte → Mem (Dma × D) → Mem (Dma × D)
  readReg : Word → Mem (Dma × D) → Byte × Mem (Dma × D)
  writeReg : Word → Byte → Mem (Dma × D) → Mem (Dma × D)

def withDma (d : Dma) (m : Mem (Dma × D)) : Mem (Dma × D) := { m with hw := (d, m.hw.2) }

/-- The bus with the registers of the DMA on it. -/
def DmaIo.snesIo (io : DmaIo D) : SnesIo (Dma × D) where
  readBBus := io.readBBus
  writeBBus := io.writeBBus
  readReg := io.readReg
  writeReg := io.writeReg
  dmaRead adr m := (dmaRead m.hw.1 adr, m)
  dmaWrite adr val m := withDma (dmaWrite m.hw.1 adr val) m

section Loop

variable (cart : Cart) (io : DmaIo D)

/-- `dma_transferByte`. -/
def dmaTransferByte (t : Transfer) (m : Mem (Dma × D)) : Mem (Dma × D) :=
  if t.fromB then
    let val := io.readBBus t.bAdr m
    snesWrite cart io.snesIo t.aBank t.aAdr val.1 val.2
  else
    let val := snesRead cart io.snesIo t.aBank t.aAdr m
    io.writeBBus t.bAdr val.1 val.2

/-- The first channel that is active. -/
def firstActive (d : Dma) : Option (Fin 8) := (List.finRange 8).find? fun i => (d.channel i).dmaActive

def Dma.setChannel (d : Dma) (i : Fin 8) (c : DmaChannel) : Dma :=
  { d with channel := Function.update d.channel i c }

def DmaChannel.stride (c : DmaChannel) : Word := if c.fixed then 0 else if c.decrement then -1 else 1

/-- The registers of a channel when its byte has been transferred. -/
def DmaChannel.next (c : DmaChannel) : DmaChannel :=
  { c with
    aAdr := c.aAdr + c.stride
    size := c.size - 1
    offIndex := if c.size - 1 = 0 then 0 else c.offIndex
    dmaActive := c.dmaActive && c.size - 1 != 0 }

/-- The arguments of the call for a channel. -/
def DmaChannel.current (c : DmaChannel) : Transfer :=
  ⟨c.aAdr, c.aBank, c.bAdr + bAdrOffset c.mode c.offIndex, c.fromB⟩

/-- `offIndex` is stepped before the call. -/
def DmaChannel.stepped (c : DmaChannel) : DmaChannel := { c with offIndex := c.offIndex + 1 }

/-- `dma_doDma` behind the call. -/
def dmaByteDone (i : Fin 8) (m : Mem (Dma × D)) : Mem (Dma × D) :=
  let d := m.hw.1
  let c := d.channel i
  withDma { d.setChannel i c.next with
    dmaTimer := d.dmaTimer + 6 + if c.size - 1 = 0 then 8 else 0 } m

/-- `dma_doDma`. -/
def dmaDoDma (m : Mem (Dma × D)) : Mem (Dma × D) :=
  let d := m.hw.1
  if 0 < d.dmaTimer then withDma { d with dmaTimer := d.dmaTimer - 2 } m
  else
    match firstActive d with
    | none => withDma { d with dmaBusy := false } m
    | some i =>
      let c := d.channel i
      dmaByteDone i (dmaTransferByte cart io c.current (withDma (d.setChannel i c.stepped) m))

/-- What `dma_cycle` returns. -/
def dmaCycles (m : Mem (Dma × D)) : Bool := m.hw.1.dmaBusy

/-- `while (dma_cycle(snes->dma)) {}` ends in the state. -/
def DmaEnds (m m' : Mem (Dma × D)) : Prop := Loops.Ends dmaCycles (dmaDoDma cart io) m m'

/-! ### What is transferred -/

/-- The bytes a channel has left. -/
def DmaChannel.count (c : DmaChannel) : Nat := if c.size = 0 then 0x10000 else c.size.toNat

/-- A channel after some of its bytes. -/
def DmaChannel.after (c : DmaChannel) (k : Nat) : DmaChannel :=
  { c with
    aAdr := c.aAdr + BitVec.ofNat 16 k * c.stride
    size := c.size - BitVec.ofNat 16 k
    offIndex := c.offIndex + BitVec.ofNat 2 k }

/-- A channel after all of them. -/
def DmaChannel.done (c : DmaChannel) : DmaChannel :=
  { c with
    aAdr := c.aAdr + BitVec.ofNat 16 c.count * c.stride, size := 0, offIndex := 0, dmaActive := false }

/-- The addresses of a byte. -/
def DmaChannel.transfer (c : DmaChannel) (k : Nat) : Transfer where
  aAdr := c.aAdr + BitVec.ofNat 16 k * c.stride
  aBank := c.aBank
  bAdr := c.bAdr + bAdrOffset c.mode (c.offIndex + BitVec.ofNat 2 k)
  fromB := c.fromB

/-- The DMA when the active channels in front of `n` are done. -/
def Dma.before (d : Dma) (n : Nat) : Dma where
  channel j := if j < n ∧ (d.channel j).dmaActive then (d.channel j).done else d.channel j
  dmaTimer := 0
  dmaBusy := true

/-- The DMA while a byte of a channel is transferred. -/
def Dma.during (d : Dma) (i : Fin 8) (k : Nat) : Dma :=
  (d.before i).setChannel i ((d.channel i).after k).stepped

/-- The bytes of a channel, each with the registers the bus finds. -/
def Dma.channelSchedule (d : Dma) (i : Fin 8) : List (Dma × Transfer) :=
  if (d.channel i).dmaActive then
    (List.range (d.channel i).count).map fun k => (d.during i k, (d.channel i).transfer k)
  else []

/-- Everything a started DMA transfers, in order. -/
def Dma.schedule (d : Dma) : List (Dma × Transfer) := (List.finRange 8).flatMap d.channelSchedule

/-- The DMA behind it. -/
def Dma.finished (d : Dma) : Dma := { d.before 8 with dmaBusy := false }

def playTransfer (m : Mem (Dma × D)) (e : Dma × Transfer) : Mem (Dma × D) :=
  dmaTransferByte cart io e.2 (withDma e.1 m)

/-! ### The devices leave the DMA alone -/

/-- No device but the DMA itself, and the two registers that start it, changes its registers. -/
structure DmaIo.KeepsDma (io : DmaIo D) : Prop where
  readBBus : ∀ adr m, (io.readBBus adr m).2.hw.1 = m.hw.1
  writeBBus : ∀ adr val m, (io.writeBBus adr val m).hw.1 = m.hw.1
  readReg : ∀ adr m, (io.readReg adr m).2.hw.1 = m.hw.1
  writeReg : ∀ adr val m, adr ≠ 0x420B → adr ≠ 0x420C → (io.writeReg adr val m).hw.1 = m.hw.1

/-- The transfer does not store to the DMA's own registers. -/
def Transfer.Quiet (t : Transfer) : Prop :=
  t.fromB = true → lowBank t.aBank = true →
    t.aAdr ≠ 0x420B ∧ t.aAdr ≠ 0x420C ∧ ¬ (0x4300 ≤ t.aAdr.toNat ∧ t.aAdr.toNat < 0x4380)

instance (t : Transfer) : Decidable t.Quiet := inferInstanceAs (Decidable (_ → _ → _))

section Keeps

variable {io} {t : Transfer} {m : Mem (Dma × D)}

theorem snesRead_dma (hio : io.KeepsDma) (bank : Byte) (adr : Word) :
    (snesRead cart io.snesIo bank adr m).2.hw.1 = m.hw.1 := by
  simp only [snesRead]
  split
  next => rfl
  next =>
    split
    next =>
      split
      next => rfl
      next =>
        split
        next => exact hio.readBBus _ _
        next =>
          split
          next => rfl
          next =>
            split
            next => exact hio.readReg _ _
            next => split <;> rfl
    next => rfl

theorem snesWrite_dma (hio : io.KeepsDma) {bank : Byte} {adr : Word} (val : Byte)
    (hquiet : lowBank bank = true → adr ≠ 0x420B ∧ adr ≠ 0x420C ∧
      ¬ (0x4300 ≤ adr.toNat ∧ adr.toNat < 0x4380)) :
    (snesWrite cart io.snesIo bank adr val m).hw.1 = m.hw.1 := by
  have hcart : ∀ m : Mem (Dma × D), (cartWriteLorom cart bank adr val m).hw = m.hw := fun m => by
    rw [cartWriteLorom]
    split <;> rfl
  have hram : ∀ (P : Prop) [Decidable P] (n : Nat) (m : Mem (Dma × D)),
      (if P then m.setRam n val else m).hw = m.hw := fun P _ n m => by
    split <;> rfl
  simp only [snesWrite, hcart]
  cases hlow : lowBank bank with
  | false => simp only [Bool.false_eq_true, if_false, hram]
  | true =>
    obtain ⟨hb, hc, hregs⟩ := hquiet hlow
    simp only [if_true, if_neg hregs]
    have hbus : ∀ m : Mem (Dma × D), (if 0x2100 ≤ adr.toNat ∧ adr.toNat < 0x2200 then
        io.snesIo.writeBBus (loByte adr) val m else m).hw.1 = m.hw.1 := fun m => by
      split
      next => exact hio.writeBBus _ _ _
      next => rfl
    split
    next => rw [show io.snesIo.writeReg = io.writeReg from rfl, hio.writeReg _ _ _ hb hc, hbus, hram, hram]
    next => rw [hbus, hram, hram]

/-- A quiet transfer leaves the registers of the DMA as it finds them. -/
theorem dmaTransferByte_dma (hio : io.KeepsDma) (hquiet : t.Quiet) :
    (dmaTransferByte cart io t m).hw.1 = m.hw.1 := by
  rw [dmaTransferByte]
  cases hb : t.fromB with
  | true => exact (snesWrite_dma cart hio _ (hquiet hb)).trans (hio.readBBus _ _)
  | false => exact (hio.writeBBus _ _ _).trans (snesRead_dma cart hio _ _)

end Keeps

/-! ### One byte -/

theorem firstActive_eq_some {d : Dma} {i : Fin 8} :
    firstActive d = some i ↔ (d.channel i).dmaActive = true ∧ ∀ j < i, (d.channel j).dmaActive = false := by
  rw [firstActive, ← Fin.find?_eq_find?_finRange, Fin.find?_eq_some_iff]

/-- The DMA with some bytes of a channel done. -/
def Dma.midway (d : Dma) (i : Fin 8) (k : Nat) : Dma :=
  (d.before i).setChannel i ((d.channel i).after k)

section Channel

variable (c : DmaChannel) {k : Nat}

theorem after_zero : c.after 0 = c := by
  simp [DmaChannel.after]

theorem size_after_succ : c.size - BitVec.ofNat 16 k - 1 = c.size - BitVec.ofNat 16 (k + 1) := by
  rw [BitVec.ofNat_add, BitVec.sub_sub]
  rfl

theorem offIndex_after_succ : c.offIndex + BitVec.ofNat 2 k + 1 = c.offIndex + BitVec.ofNat 2 (k + 1) := by
  rw [BitVec.ofNat_add, BitVec.add_assoc]
  rfl

theorem size_eq_zero_iff (hk : k < c.count) :
    c.size - BitVec.ofNat 16 (k + 1) = 0 ↔ k + 1 = c.count := by
  have hlt := c.size.isLt
  have hzero : c.size = 0 ↔ c.size.toNat = 0 := BitVec.toNat_inj.symm
  have hcount : c.count = if c.size.toNat = 0 then 0x10000 else c.size.toNat := by
    rw [DmaChannel.count]
    simp only [hzero]
  rw [hcount] at hk ⊢
  rw [← BitVec.toNat_inj, BitVec.toNat_sub, BitVec.toNat_ofNat, show (0 : Word).toNat = 0 from rfl]
  split at hk
  next hz =>
    rw [if_pos hz]
    omega
  next hz =>
    rw [if_neg hz]
    omega

theorem aAdr_after_succ : c.aAdr + BitVec.ofNat 16 k * c.stride + c.stride =
    c.aAdr + BitVec.ofNat 16 (k + 1) * c.stride := by
  rw [BitVec.ofNat_add, BitVec.add_mul, BitVec.add_assoc]
  simp

theorem current_after : (c.after k).current = c.transfer k := rfl

/-- A byte that is not the last. -/
theorem next_after (hk : k < c.count) (hmore : k + 1 ≠ c.count) :
    (c.after k).stepped.next = c.after (k + 1) := by
  have hsize := (not_congr (size_eq_zero_iff c hk)).mpr hmore
  have hstride : (c.after k).stepped.stride = c.stride := rfl
  have hne : (c.size - BitVec.ofNat 16 (k + 1) != 0) = true := bne_iff_ne.mpr hsize
  simp only [DmaChannel.next, hstride]
  simp only [DmaChannel.stepped, DmaChannel.after, size_after_succ, aAdr_after_succ,
    offIndex_after_succ, if_neg hsize, hne, Bool.and_true]

/-- The last byte. -/
theorem next_last (hk : k < c.count) (hlast : k + 1 = c.count) : (c.after k).stepped.next = c.done := by
  have hsize := (size_eq_zero_iff c hk).mpr hlast
  have hstride : (c.after k).stepped.stride = c.stride := rfl
  have hne : (c.size - BitVec.ofNat 16 (k + 1) != 0) = false := by rw [hsize]; rfl
  simp only [DmaChannel.next, hstride]
  simp only [DmaChannel.stepped, DmaChannel.after, size_after_succ, aAdr_after_succ, if_pos hsize, hne,
    Bool.and_false]
  rw [DmaChannel.done, ← hlast, hsize]

end Channel

/-! ### The loop -/

section Run

variable {cart io} {d : Dma} {m : Mem (Dma × D)}

abbrev DmaLeads (cart : Cart) (io : DmaIo D) (m m' : Mem (Dma × D)) : Prop :=
  Loops.Leads dmaCycles (dmaDoDma cart io) m m'

theorem leads_step (h : m.hw.1.dmaBusy = true) : DmaLeads cart io m (dmaDoDma cart io m) :=
  Loops.Leads.step h

/-- The timer runs down without a transfer. -/
theorem leads_drained (hbusy : d.dmaBusy = true) (heven : d.dmaTimer.toNat % 2 = 0) :
    DmaLeads cart io (withDma d m) (withDma { d with dmaTimer := 0 } m) := by
  obtain ⟨n, hn⟩ : ∃ n, d.dmaTimer.toNat = 2 * n := ⟨d.dmaTimer.toNat / 2, by omega⟩
  clear heven
  induction n generalizing d with
  | zero =>
    have hzero : d.dmaTimer = 0 := BitVec.eq_of_toNat_eq hn
    rw [← hzero]
    exact .refl _
  | succ n ih =>
    have hpos : 0 < d.dmaTimer := by
      rw [BitVec.lt_def, hn]
      exact Nat.succ_pos _
    have hstep : dmaDoDma cart io (withDma d m) =
        withDma { d with dmaTimer := d.dmaTimer - 2 } m := by
      rw [dmaDoDma]
      exact if_pos hpos
    have hless : (d.dmaTimer - 2).toNat = 2 * n := by
      have hlt := d.dmaTimer.isLt
      rw [BitVec.toNat_sub, hn, show (2 : BitVec 32).toNat = 2 from rfl]
      omega
    have hfirst : DmaLeads cart io (withDma d m) (dmaDoDma cart io (withDma d m)) := leads_step hbusy
    rw [hstep] at hfirst
    exact hfirst.trans (ih (d := { d with dmaTimer := d.dmaTimer - 2 }) hbusy hless)

/-- A byte of the first active channel, and the time it takes. -/
theorem leads_byte (hio : io.KeepsDma) (hbusy : d.dmaBusy = true) (hzero : d.dmaTimer = 0) {i : Fin 8}
    (hi : firstActive d = some i) (hquiet : (d.channel i).current.Quiet) :
    DmaLeads cart io (withDma d m) (withDma (d.setChannel i (d.channel i).stepped.next)
      (playTransfer cart io m (d.setChannel i (d.channel i).stepped, (d.channel i).current))) := by
  have hkept : (playTransfer cart io m (d.setChannel i (d.channel i).stepped,
      (d.channel i).current)).hw.1 = d.setChannel i (d.channel i).stepped :=
    dmaTransferByte_dma cart hio hquiet
  have hnext : (d.setChannel i (d.channel i).stepped).channel i = (d.channel i).stepped :=
    Function.update_self ..
  have hagain : (d.setChannel i (d.channel i).stepped).setChannel i (d.channel i).stepped.next =
      d.setChannel i (d.channel i).stepped.next := by
    simp only [Dma.setChannel, Function.update_idem]
  generalize hlater : playTransfer cart io m (d.setChannel i (d.channel i).stepped,
    (d.channel i).current) = later at hkept ⊢
  have hstep : dmaDoDma cart io (withDma d m) =
      withDma { d.setChannel i (d.channel i).stepped.next with
        dmaTimer := 6 + if (d.channel i).stepped.size - 1 = 0 then 8 else 0 } later := by
    have hnot : ¬ 0 < (withDma d m).hw.1.dmaTimer := by
      show ¬ 0 < d.dmaTimer
      rw [hzero]
      decide
    have htimer : (d.setChannel i (d.channel i).stepped).dmaTimer = 0 := hzero
    rw [dmaDoDma, if_neg hnot, show firstActive (withDma d m).hw.1 = some i from hi]
    show dmaByteDone i (playTransfer cart io m (d.setChannel i (d.channel i).stepped,
      (d.channel i).current)) = _
    simp only [hlater, dmaByteDone, hkept, hnext, hagain, htimer]
    rfl
  have hfirst : DmaLeads cart io (withDma d m) (dmaDoDma cart io (withDma d m)) := leads_step hbusy
  have hback : { d.setChannel i (d.channel i).stepped.next with dmaTimer := 0 } =
      d.setChannel i (d.channel i).stepped.next := by
    rw [← hzero]
    rfl
  rw [hstep] at hfirst
  refine hfirst.trans ?_
  rw [← hback]
  refine leads_drained (d := { d.setChannel i (d.channel i).stepped.next with dmaTimer := _ }) hbusy ?_
  show (6 + if (d.channel i).stepped.size - 1 = 0 then 8 else 0 : BitVec 32).toNat % 2 = 0
  split <;> rfl

/-! ### A channel -/

theorem before_channel_of_le {i : Nat} {j : Fin 8} (h : i ≤ j) : (d.before i).channel j = d.channel j :=
  if_neg fun hj => absurd hj.1 (Nat.not_lt.mpr h)

/-- Channels in front are done, or were never active. -/
theorem before_inactive {i : Nat} {j : Fin 8} (h : j < i) : ((d.before i).channel j).dmaActive = false := by
  show DmaChannel.dmaActive (if _ then _ else _) = false
  cases ha : (d.channel j).dmaActive with
  | true => rw [if_pos ⟨h, rfl⟩]; rfl
  | false => rw [if_neg fun hj => Bool.false_ne_true hj.2]; exact ha

theorem midway_channel (i : Fin 8) (k : Nat) : (d.midway i k).channel i = (d.channel i).after k :=
  Function.update_self ..

theorem midway_setChannel (i : Fin 8) (k : Nat) (c : DmaChannel) :
    (d.midway i k).setChannel i c = (d.before i).setChannel i c := by
  simp only [Dma.midway, Dma.setChannel, Function.update_idem]

theorem midway_zero (i : Fin 8) : d.midway i 0 = d.before i := by
  rw [Dma.midway, after_zero, ← before_channel_of_le (Nat.le_refl (i : Nat))]
  simp only [Dma.setChannel, Function.update_eq_self]

theorem firstActive_midway {i : Fin 8} {k : Nat} (hactive : (d.channel i).dmaActive = true) :
    firstActive (d.midway i k) = some i := by
  refine firstActive_eq_some.mpr ⟨?_, fun j hj => ?_⟩
  · rw [midway_channel]
    exact hactive
  · have hother : (d.midway i k).channel j = (d.before i).channel j :=
      Function.update_of_ne (ne_of_lt hj) ..
    rw [hother]
    exact before_inactive hj

/-- The channel behind the last byte stands as done. -/
theorem before_succ {i : Fin 8} (hactive : (d.channel i).dmaActive = true) :
    (d.before i).setChannel i (d.channel i).done = d.before (i + 1) := by
  have hchannel : ((d.before i).setChannel i (d.channel i).done).channel = (d.before (i + 1)).channel := by
    funext j
    by_cases hj : j = i
    · subst hj
      show Function.update _ j _ j = if _ then _ else _
      rw [Function.update_self, if_pos ⟨Nat.lt_succ_self _, hactive⟩]
    · have hval : (j : Nat) ≠ i := fun h => hj (Fin.ext h)
      have hiff : ((j : Nat) < i ∧ (d.channel j).dmaActive = true) ↔
          ((j : Nat) < i + 1 ∧ (d.channel j).dmaActive = true) :=
        and_congr_left fun _ => by omega
      show Function.update _ i _ j = if _ then _ else _
      rw [Function.update_of_ne hj]
      exact if_congr hiff rfl rfl
  exact congrArg (fun c => { channel := c, dmaTimer := 0, dmaBusy := true : Dma }) hchannel

/-- Some bytes of a channel. -/
theorem leads_bytes (hio : io.KeepsDma) {i : Fin 8} (hactive : (d.channel i).dmaActive = true)
    (hquiet : ∀ k < (d.channel i).count, ((d.channel i).transfer k).Quiet) {k : Nat}
    (hk : k < (d.channel i).count) :
    DmaLeads cart io (withDma (d.before i) m) (withDma (d.midway i k)
      (((List.range k).map fun k => (d.during i k, (d.channel i).transfer k)).foldl
        (playTransfer cart io) m)) := by
  induction k with
  | zero =>
    rw [midway_zero]
    exact .refl _
  | succ k ih =>
    have hless : k < (d.channel i).count := by omega
    refine (ih hless).trans ?_
    rw [List.range_succ, List.map_append, List.foldl_append]
    have hbyte : DmaLeads cart io (withDma (d.midway i k) (((List.range k).map fun k =>
        (d.during i k, (d.channel i).transfer k)).foldl (playTransfer cart io) m)) _ :=
      leads_byte hio rfl rfl (firstActive_midway hactive)
      (by rw [midway_channel]; exact hquiet k hless)
    rw [midway_channel, next_after _ hless (by omega), midway_setChannel, midway_setChannel] at hbyte
    exact hbyte

theorem before_succ_inactive {i : Fin 8} (hactive : (d.channel i).dmaActive = false) :
    d.before i = d.before (i + 1) := by
  have hchannel : (d.before i).channel = (d.before (i + 1)).channel := by
    funext j
    have hiff : ((j : Nat) < i ∧ (d.channel j).dmaActive = true) ↔
        ((j : Nat) < i + 1 ∧ (d.channel j).dmaActive = true) := by
      refine and_congr_left fun ha => ?_
      have hj : (j : Nat) ≠ i := fun h => by
        rw [Fin.ext h, hactive] at ha
        cases ha
      omega
    exact if_congr hiff rfl rfl
  exact congrArg (fun c => { channel := c, dmaTimer := 0, dmaBusy := true : Dma }) hchannel

/-- A channel, from its first byte to its last. -/
theorem leads_channel (hio : io.KeepsDma) (i : Fin 8)
    (hquiet : ∀ e ∈ d.channelSchedule i, e.2.Quiet) :
    DmaLeads cart io (withDma (d.before i) m)
      (withDma (d.before (i + 1)) ((d.channelSchedule i).foldl (playTransfer cart io) m)) := by
  rw [Dma.channelSchedule] at hquiet ⊢
  cases hactive : (d.channel i).dmaActive with
  | false =>
    rw [if_neg (by decide), before_succ_inactive hactive]
    exact .refl _
  | true =>
    rw [hactive, if_pos rfl] at hquiet
    rw [if_pos rfl]
    have hall : ∀ k < (d.channel i).count, ((d.channel i).transfer k).Quiet := fun k hk =>
      hquiet _ (List.mem_map.mpr ⟨k, List.mem_range.mpr hk, rfl⟩)
    obtain ⟨last, hlast⟩ : ∃ last, (d.channel i).count = last + 1 := by
      refine Nat.exists_eq_succ_of_ne_zero ?_
      rw [DmaChannel.count]
      split
      next => decide
      next hz => exact fun h => hz (BitVec.eq_of_toNat_eq h)
    refine (leads_bytes hio hactive hall (by omega : last < _)).trans ?_
    have hbyte : DmaLeads cart io (withDma (d.midway i last) (((List.range last).map fun k =>
        (d.during i k, (d.channel i).transfer k)).foldl (playTransfer cart io) m)) _ :=
      leads_byte hio rfl rfl (firstActive_midway hactive)
      (by rw [midway_channel]; exact hall last (by omega))
    rw [midway_channel, next_last _ (by omega) hlast.symm, midway_setChannel, midway_setChannel,
      before_succ hactive] at hbyte
    rw [hlast, List.range_succ, List.map_append, List.foldl_append]
    exact hbyte

/-! ### A whole DMA -/

/-- The channels in front of `n`. -/
theorem leads_channels (hio : io.KeepsDma) (hquiet : ∀ e ∈ d.schedule, e.2.Quiet) {n : Nat} (hn : n ≤ 8) :
    DmaLeads cart io (withDma (d.before 0) m)
      (withDma (d.before n) ((((List.finRange 8).take n).flatMap d.channelSchedule).foldl
        (playTransfer cart io) m)) := by
  induction n with
  | zero => exact .refl _
  | succ n ih =>
    have hlen : n < (List.finRange 8).length := by
      rw [List.length_finRange]
      omega
    have htake : (List.finRange 8).take (n + 1) = (List.finRange 8).take n ++ [⟨n, by omega⟩] := by
      rw [List.take_succ_eq_append_getElem hlen, List.getElem_finRange]
      rfl
    rw [htake, List.flatMap_append, List.foldl_append, List.flatMap_singleton]
    refine (ih (by omega)).trans (leads_channel hio ⟨n, by omega⟩ fun e he => hquiet e ?_)
    exact List.mem_flatMap.mpr ⟨_, List.mem_finRange _, he⟩

/-- **A started DMA ends, and has transferred what the schedule lists.** -/
theorem dmaLoop_ends (hio : io.KeepsDma) (hbusy : d.dmaBusy = true) (heven : d.dmaTimer.toNat % 2 = 0)
    (hquiet : ∀ e ∈ d.schedule, e.2.Quiet) :
    DmaEnds cart io (withDma d m) (withDma d.finished (d.schedule.foldl (playTransfer cart io) m)) := by
  have hstart : { d with dmaTimer := 0 } = d.before 0 := by
    have hchannel : d.channel = (d.before 0).channel := funext fun j =>
      (before_channel_of_le (Nat.zero_le _)).symm
    rw [hbusy, hchannel]
    rfl
  have hdrained : DmaLeads cart io (withDma d m) (withDma (d.before 0) m) :=
    hstart ▸ leads_drained hbusy heven
  have hall : DmaLeads cart io (withDma (d.before 0) m)
      (withDma (d.before 8) (d.schedule.foldl (playTransfer cart io) m)) :=
    leads_channels hio hquiet (Nat.le_refl 8)
  have hnone : firstActive (d.before 8) = none := by
    refine List.find?_eq_none.mpr fun j _ => ?_
    rw [before_inactive j.isLt]
    decide
  have hlast : dmaDoDma cart io (withDma (d.before 8) (d.schedule.foldl (playTransfer cart io) m)) =
      withDma d.finished (d.schedule.foldl (playTransfer cart io) m) := by
    have hnot : ¬ 0 < (withDma (d.before 8)
        (d.schedule.foldl (playTransfer cart io) m)).hw.1.dmaTimer := by
      show ¬ (0 : BitVec 32) < 0
      decide
    rw [dmaDoDma, if_neg hnot, show firstActive (withDma (d.before 8) _).hw.1 = none from hnone]
    rfl
  refine (hdrained.trans hall).ends (Loops.Leads.ends (leads_step rfl) ?_)
  rw [hlast]
  exact Loops.ends_self rfl

/-- With an odd timer all that an iteration does is to lower the timer, past zero. -/
theorem iterate_dmaDoDma_odd (hodd : d.dmaTimer.toNat % 2 = 1) (n : Nat) :
    (dmaDoDma cart io)^[n] (withDma d m) = withDma { d with dmaTimer := d.dmaTimer - 2 * BitVec.ofNat 32 n } m := by
  induction n with
  | zero =>
    have hzero : d.dmaTimer - 2 * BitVec.ofNat 32 0 = d.dmaTimer := by bv_omega
    rw [hzero]
    rfl
  | succ n ih =>
    have hpos : 0 < (withDma { d with dmaTimer := d.dmaTimer - 2 * BitVec.ofNat 32 n } m).hw.1.dmaTimer := by
      show 0 < d.dmaTimer - 2 * BitVec.ofNat 32 n
      bv_omega
    have htimer : d.dmaTimer - 2 * BitVec.ofNat 32 n - 2 = d.dmaTimer - 2 * BitVec.ofNat 32 (n + 1) := by
      bv_omega
    rw [Function.iterate_succ_apply', ih, dmaDoDma, if_pos hpos]
    exact congrArg (fun timer => withDma { d with dmaTimer := timer } m) htimer

/-- An odd timer keeps the loop from its end. -/
theorem not_dmaEnds_odd (hbusy : d.dmaBusy = true) (hodd : d.dmaTimer.toNat % 2 = 1) (m' : Mem (Dma × D)) :
    ¬ DmaEnds cart io (withDma d m) m' := by
  refine Loops.not_ends (fun u => ∃ n, u = (dmaDoDma cart io)^[n] (withDma d m)) ?_ ?_ ⟨0, rfl⟩ m'
  · rintro u ⟨n, rfl⟩
    rw [iterate_dmaDoDma_odd hodd]
    exact hbusy
  · rintro u ⟨n, rfl⟩
    exact ⟨n + 1, (Function.iterate_succ_apply' ..).symm⟩

/-- **The loop ends exactly when the timer is even**; an odd one goes past zero for ever, and no
iteration transfers a byte. -/
theorem dmaLoop_iff (hio : io.KeepsDma) (hbusy : d.dmaBusy = true)
    (hquiet : ∀ e ∈ d.schedule, e.2.Quiet) :
    ((∃ m', DmaEnds cart io (withDma d m) m') ↔ d.dmaTimer.toNat % 2 = 0) ∧
      (d.dmaTimer.toNat % 2 = 1 → ∀ n, (dmaDoDma cart io)^[n] (withDma d m) =
        withDma { d with dmaTimer := d.dmaTimer - 2 * BitVec.ofNat 32 n } m) := by
  refine ⟨⟨fun ⟨m', hends⟩ => ?_, fun heven => ⟨_, dmaLoop_ends hio hbusy heven hquiet⟩⟩,
    fun hodd n => iterate_dmaDoDma_odd hodd n⟩
  by_contra hodd
  exact not_dmaEnds_odd hbusy (by omega) m' hends

end Run

/-! ### Runs -/

/-- The states between two stores to `$420B`: registers are written, HDMA is enabled, the other
devices go on, and each started DMA runs to its end. -/
inductive DmaReached : Mem (Dma × D) → Prop
  | reset {m : Mem (Dma × D)} : m.hw.1 = dmaReset → DmaReached m
  | other {m m' : Mem (Dma × D)} : DmaReached m → m'.hw.1 = m.hw.1 → DmaReached m'
  | write {m : Mem (Dma × D)} (adr : Word) (val : Byte) : DmaReached m →
      DmaReached (withDma (dmaWrite m.hw.1 adr val) m)
  | hdmaen {m : Mem (Dma × D)} (val : Byte) : DmaReached m →
      DmaReached (withDma (dmaStartDma m.hw.1 val true) m)
  | mdmaen {m m' : Mem (Dma × D)} (val : Byte) : DmaReached m →
      (∀ e ∈ (dmaStartDma m.hw.1 val false).schedule, e.2.Quiet) →
      DmaEnds cart io (withDma (dmaStartDma m.hw.1 val false) m) m' → DmaReached m'

/-- No DMA is left running. -/
def Dma.Idle (d : Dma) : Prop := d.dmaBusy = false ∧ d.dmaTimer = 0

variable {cart io}

/-- A started DMA from an idle one. -/
theorem mdmaen_ends (hio : io.KeepsDma) {m : Mem (Dma × D)} (hidle : m.hw.1.Idle) (val : Byte)
    (hquiet : ∀ e ∈ (dmaStartDma m.hw.1 val false).schedule, e.2.Quiet) :
    DmaEnds cart io (withDma (dmaStartDma m.hw.1 val false) m)
      (withDma (dmaStartDma m.hw.1 val false).finished
        ((dmaStartDma m.hw.1 val false).schedule.foldl (playTransfer cart io) m)) := by
  by_cases hval : val = 0
  · subst hval
    have hnone : ∀ i, ((dmaStartDma m.hw.1 0 false).channel i).dmaActive = false := fun i =>
      BitVec.getLsbD_zero
    have hschedule : (dmaStartDma m.hw.1 0 false).schedule = [] := by
      refine List.flatMap_eq_nil_iff.mpr fun i _ => ?_
      rw [Dma.channelSchedule, hnone]
      rfl
    have hfinished : (dmaStartDma m.hw.1 0 false).finished = dmaStartDma m.hw.1 0 false := by
      have hchannel : ((dmaStartDma m.hw.1 0 false).before 8).channel =
          (dmaStartDma m.hw.1 0 false).channel := by
        funext i
        refine if_neg fun h => ?_
        rw [hnone] at h
        cases h.2
      have htimer : (dmaStartDma m.hw.1 0 false).dmaTimer = 0 := by
        show m.hw.1.dmaTimer + 0 = 0
        rw [hidle.2]
        rfl
      rw [Dma.finished, hchannel, show ((dmaStartDma m.hw.1 0 false).before 8).dmaTimer = 0 from rfl,
        ← htimer]
      rfl
    rw [hschedule, hfinished]
    exact Loops.ends_self rfl
  · have hne : (val != 0) = true := bne_iff_ne.mpr hval
    refine dmaLoop_ends hio hne ?_ hquiet
    show (m.hw.1.dmaTimer + if val != 0 then 16 else 0).toNat % 2 = 0
    rw [hidle.2, hne]
    rfl

theorem idle_of_reached (hio : io.KeepsDma) {m : Mem (Dma × D)} (h : DmaReached cart io m) :
    m.hw.1.Idle := by
  induction h with
  | reset h => rw [h]; exact ⟨rfl, rfl⟩
  | other _ hkept ih => rw [hkept]; exact ih
  | write adr val _ ih => exact ih
  | hdmaen val _ ih => exact ih
  | mdmaen val _ hquiet hends ih =>
    rw [hends.unique (mdmaen_ends hio ih val hquiet)]
    exact ⟨rfl, rfl⟩

/-- **From reset on, every DMA ends and transfers what its registers say**, channel after channel
and byte after byte. -/
theorem mdmaen_exact (hio : io.KeepsDma) {m : Mem (Dma × D)} (hreached : DmaReached cart io m)
    (val : Byte) (hquiet : ∀ e ∈ (dmaStartDma m.hw.1 val false).schedule, e.2.Quiet) (m' : Mem (Dma × D)) :
    DmaEnds cart io (withDma (dmaStartDma m.hw.1 val false) m) m' ↔
      m' = withDma (dmaStartDma m.hw.1 val false).finished
        ((dmaStartDma m.hw.1 val false).schedule.foldl (playTransfer cart io) m) := by
  have hends : DmaEnds cart io (withDma (dmaStartDma m.hw.1 val false) m) _ :=
    mdmaen_ends hio (idle_of_reached hio hreached) val hquiet
  constructor
  · exact fun h => h.unique hends
  · rintro rfl
    exact hends

end Loop

/-! ### Two bytes to a pair of registers -/

/-- A B-bus that keeps what is stored to it in memory. -/
def pairIo : DmaIo Unit where
  readBBus _ m := (0, m)
  writeBBus adr val m := m.setRam adr.toNat val
  readReg _ m := (0, m)
  writeReg _ _ m := m

theorem pairIo_keepsDma : pairIo.KeepsDma :=
  ⟨fun _ _ => rfl, fun _ _ _ => rfl, fun _ _ => rfl, fun _ _ _ _ _ => rfl⟩

/-- Mode 1, from `$00:8000` to `$2118`, two bytes. -/
def pairWrites : List (Word × Byte) :=
  [(0x4300, 0x01), (0x4301, 0x18), (0x4302, 0x00), (0x4303, 0x80), (0x4304, 0x00), (0x4305, 0x02),
    (0x4306, 0x00)]

def pairStart : Mem (Dma × Unit) where
  ram _ := 0
  sram _ := 0
  rom n := if n = 0 then 0xAB else 0xCD
  hw := (pairWrites.foldl (fun d w => dmaWrite d w.1 w.2) dmaReset, ())

theorem reached_pairStart : DmaReached smallCart.cart pairIo pairStart := by
  have hreset : DmaReached smallCart.cart pairIo (withDma dmaReset pairStart) := .reset rfl
  exact ((((((hreset.write 0x4300 0x01).write 0x4301 0x18).write 0x4302 0x00).write 0x4303 0x80).write
    0x4304 0x00).write 0x4305 0x02).write 0x4306 0x00

theorem quiet_pairStart : ∀ e ∈ (dmaStartDma pairStart.hw.1 1 false).schedule, e.2.Quiet := by
  decide

theorem mdmaen_exact_pair : ∃ m', DmaEnds smallCart.cart pairIo
    (withDma (dmaStartDma pairStart.hw.1 1 false) pairStart) m' ∧
      m'.ram 0x18 = 0xAB ∧ m'.ram 0x19 = 0xCD :=
  ⟨_, (mdmaen_exact pairIo_keepsDma reached_pairStart 1 quiet_pairStart _).mpr rfl, by decide,
    by decide⟩

theorem dmaLoop_iff_odd : (¬ ∃ m', DmaEnds smallCart.cart pairIo
    (withDma { dmaStartDma pairStart.hw.1 1 false with dmaTimer := 1 } pairStart) m') ∧
      ((dmaDoDma smallCart.cart pairIo)^[1]
        (withDma { dmaStartDma pairStart.hw.1 1 false with dmaTimer := 1 } pairStart)).hw.1.dmaTimer =
          0xFFFFFFFF := by
  have hlaw := @dmaLoop_iff _ smallCart.cart _
    { dmaStartDma pairStart.hw.1 1 false with dmaTimer := 1 } pairStart pairIo_keepsDma rfl
    (by decide)
  refine ⟨fun h => absurd (hlaw.1.mp h) (by decide), ?_⟩
  rw [hlaw.2 rfl 1]
  decide

end SnesRecomp
