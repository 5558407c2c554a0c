import SnesRecomp.Lib.Regions
import SnesRecomp.Runtime.CpuState

/-!
# Snapshots

`RtlSaveSnapshot` and `RtlLoadSnapshot` of `common_rtl.c` with the `*_saveload` functions under
them.  Each component is a C struct, and what is saved are ranges of its bytes, from one field
to another: a field is restored when its bytes are in one of the ranges.  Pointers have eight
bytes, and a struct is laid out as the ABI of a 64-bit host does it.

The CPU state of the compiled code (`g_cpu`) and the FastROM bit (`g_memsel`) are globals of
their own, next to the `Snes` that is saved.
-/

namespace SnesRecomp.Snapshot

open Regions

/-! ### The structs -/

/-- `struct Cpu` of `snes/cpu.h`. -/
inductive CpuField
  | a | x | y | sp | pc | dp | k | db | c | z | v | n | i | d | xf | mf | e
  deriving DecidableEq, Repr

def cpuLayout : Layout CpuField :=
  [(.a, 2, 2), (.x, 2, 2), (.y, 2, 2), (.sp, 2, 2), (.pc, 2, 2), (.dp, 2, 2), (.k, 1, 1), (.db, 1, 1),
    (.c, 1, 1), (.z, 1, 1), (.v, 1, 1), (.n, 1, 1), (.i, 1, 1), (.d, 1, 1), (.xf, 1, 1), (.mf, 1, 1),
    (.e, 1, 1)]

inductive SpcField
  | apu | a | x | y | sp | pc | c | z | v | n | i | h | p | b | stopped | cyclesUsed
  deriving DecidableEq, Repr

def spcLayout : Layout SpcField :=
  [(.apu, 8, 8), (.a, 1, 1), (.x, 1, 1), (.y, 1, 1), (.sp, 1, 1), (.pc, 2, 2), (.c, 1, 1), (.z, 1, 1),
    (.v, 1, 1), (.n, 1, 1), (.i, 1, 1), (.h, 1, 1), (.p, 1, 1), (.b, 1, 1), (.stopped, 1, 1),
    (.cyclesUsed, 1, 1)]

/-- `struct Apu`; a `Timer` has five bytes, an `ApuPortWrite` sixteen. -/
inductive ApuField
  | spc | dsp | ram | romReadable | dspAdr | cycles | inPorts | outPorts | timer | cpuCyclesLeft
  | pad | portQueue | portQHead | portQTail
  deriving DecidableEq, Repr

def apuLayout : Layout ApuField :=
  [(.spc, 8, 8), (.dsp, 8, 8), (.ram, 0x10000, 1), (.romReadable, 1, 1), (.dspAdr, 1, 1),
    (.cycles, 4, 4), (.inPorts, 6, 1), (.outPorts, 4, 1), (.timer, 15, 1), (.cpuCyclesLeft, 1, 1),
    (.pad, 6, 1), (.portQueue, 128 * 16, 8), (.portQHead, 4, 4), (.portQTail, 4, 4)]

/-- `struct Dsp`; a `DspChannel` has 86 bytes. -/
inductive DspField
  | apuRam | shadow | ram | channel | dirPage | evenCycle | mute | reset | masterVolumeL
  | masterVolumeR | noiseSample | noiseRate | noiseCounter | echoWrites | echoVolumeL | echoVolumeR
  | feedbackVolume | echoBufferAdr | echoDelay | echoRemain | echoBufferIndex | firBufferIndex
  | firValues | firBufferL | firBufferR | sampleBuffer | sampleWrite | sampleRead
  deriving DecidableEq, Repr

def dspLayout : Layout DspField :=
  [(.apuRam, 8, 8), (.shadow, 8, 8), (.ram, 0x80, 1), (.channel, 8 * 86, 2), (.dirPage, 2, 2),
    (.evenCycle, 1, 1), (.mute, 1, 1), (.reset, 1, 1), (.masterVolumeL, 1, 1), (.masterVolumeR, 1, 1),
    (.noiseSample, 2, 2), (.noiseRate, 2, 2), (.noiseCounter, 2, 2), (.echoWrites, 1, 1),
    (.echoVolumeL, 1, 1), (.echoVolumeR, 1, 1), (.feedbackVolume, 1, 1), (.echoBufferAdr, 2, 2),
    (.echoDelay, 2, 2), (.echoRemain, 2, 2), (.echoBufferIndex, 2, 2), (.firBufferIndex, 1, 1),
    (.firValues, 8, 1), (.firBufferL, 16, 2), (.firBufferR, 16, 2), (.sampleBuffer, 2 * 2 * 8192, 2),
    (.sampleWrite, 4, 4), (.sampleRead, 4, 4)]

/-- `struct Dma`; a `DmaChannel` has 26 bytes. -/
inductive DmaField
  | snes | channel | dmaTimer | dmaBusy
  deriving DecidableEq, Repr

def dmaLayout : Layout DmaField :=
  [(.snes, 8, 8), (.channel, 8 * 26, 2), (.dmaTimer, 4, 4), (.dmaBusy, 1, 1)]

/-- `struct Ppu` of `snes/ppu.h`. -/
inductive PpuField
  | inidisp | obsel | oamaddl | oamaddh | bgmode | mosaic | bgXsc | bgTileAdr | m7sel | setini
  | hScroll | vScroll | m7matrix | fixedColor | windowsel | window1left | window1right | window2left
  | window2right | wbgobjlog | screenEnabled | screenWindowed | cgadsub | cgwsel
  | vramPointer | vramIncrementOnHigh | vramRemapMode | vramIncrement | vramReadBuffer
  | cgramPointer | cgramSecondWrite | cgramBuffer
  | oamAdr | oamInHigh | oamSecondWrite | oamBuffer | timeOver | rangeOver
  | scrollPrev | scrollPrev2 | mosaicStartLine | m7prev | m7startX | m7startY
  | evenFrame | frameOverscan | frameInterlace | hCount | vCount | hCountSecond | vCountSecond
  | countersLatched | extra | wsHudSplit | wsBg3WidenY | lastMosaicModulo | lastBrightnessMult
  | lineHasSprites | bgBuffers | objBuffer | renderPitch | renderBuffer | brightnessMult
  | brightnessMultHalf | mosaicModulo | pad2 | cgram | oam | highOam | vram
  deriving DecidableEq, Repr

def ppuLayout : Layout PpuField :=
  [(.inidisp, 1, 1), (.obsel, 1, 1), (.oamaddl, 1, 1), (.oamaddh, 1, 1), (.bgmode, 1, 1),
    (.mosaic, 1, 1), (.bgXsc, 4, 1), (.bgTileAdr, 2, 2), (.m7sel, 1, 1), (.setini, 1, 1),
    (.hScroll, 8, 2), (.vScroll, 8, 2), (.m7matrix, 16, 2), (.fixedColor, 2, 2), (.windowsel, 4, 4),
    (.window1left, 1, 1), (.window1right, 1, 1), (.window2left, 1, 1), (.window2right, 1, 1),
    (.wbgobjlog, 2, 2), (.screenEnabled, 2, 1), (.screenWindowed, 2, 1), (.cgadsub, 1, 1),
    (.cgwsel, 1, 1),
    (.vramPointer, 2, 2), (.vramIncrementOnHigh, 1, 1), (.vramRemapMode, 1, 1), (.vramIncrement, 1, 1),
    (.vramReadBuffer, 2, 2), (.cgramPointer, 1, 1), (.cgramSecondWrite, 1, 1), (.cgramBuffer, 1, 1),
    (.oamAdr, 1, 1), (.oamInHigh, 1, 1), (.oamSecondWrite, 1, 1), (.oamBuffer, 1, 1), (.timeOver, 1, 1),
    (.rangeOver, 1, 1), (.scrollPrev, 1, 1), (.scrollPrev2, 1, 1), (.mosaicStartLine, 1, 1),
    (.m7prev, 1, 1), (.m7startX, 4, 4), (.m7startY, 4, 4), (.evenFrame, 1, 1), (.frameOverscan, 1, 1),
    (.frameInterlace, 1, 1), (.hCount, 2, 2), (.vCount, 2, 2), (.hCountSecond, 1, 1),
    (.vCountSecond, 1, 1), (.countersLatched, 1, 1), (.extra, 4, 1), (.wsHudSplit, 3, 1),
    (.wsBg3WidenY, 1, 1), (.lastMosaicModulo, 1, 1), (.lastBrightnessMult, 1, 1),
    (.lineHasSprites, 1, 1), (.bgBuffers, 2 * 2 * 448, 2), (.objBuffer, 2 * 448, 2),
    (.renderPitch, 4, 4), (.renderBuffer, 8, 8), (.brightnessMult, 63, 1), (.brightnessMultHalf, 64, 1),
    (.mosaicModulo, 256, 1), (.pad2, 8, 8),
    (.cgram, 0x200, 2), (.oam, 0x200, 2), (.highOam, 0x20, 1), (.vram, 0x10000, 2)]

/-- `struct Snes` of `snes/snes.h`. -/
inductive SnesField
  | cpu | apu | ppu | dma | cart | input1CurrentState | input2CurrentState | disableRender | ramAdr
  | ram | hPos | vPos | apuCatchupCycles | hIrqEnabled | vIrqEnabled | nmiEnabled | hTimer | vTimer
  | inNmi | inIrq | inVblank | autoJoyRead | autoJoyTimer | ppuLatch | multiplyA | multiplyResult
  | divideA | divideResult
  deriving DecidableEq, Repr

def snesLayout : Layout SnesField :=
  [(.cpu, 8, 8), (.apu, 8, 8), (.ppu, 8, 8), (.dma, 8, 8), (.cart, 8, 8), (.input1CurrentState, 2, 2),
    (.input2CurrentState, 2, 2), (.disableRender, 1, 1), (.ramAdr, 4, 4), (.ram, 8, 8), (.hPos, 2, 2),
    (.vPos, 2, 2), (.apuCatchupCycles, 8, 8), (.hIrqEnabled, 1, 1), (.vIrqEnabled, 1, 1),
    (.nmiEnabled, 1, 1), (.hTimer, 2, 2), (.vTimer, 2, 2), (.inNmi, 1, 1), (.inIrq, 1, 1),
    (.inVblank, 1, 1), (.autoJoyRead, 1, 1), (.autoJoyTimer, 2, 2), (.ppuLatch, 1, 1),
    (.multiplyA, 1, 1), (.multiplyResult, 2, 2), (.divideA, 2, 2), (.divideResult, 2, 2)]

/-! ### The machine -/

/-- The blocks of bytes; `version` is the local array of `ppu_saveload`. -/
inductive Block
  | cpu | apu | dsp | spc | dma | version | ppu | cartRam | snes | wram
  deriving DecidableEq, Repr

/-- What a program runs on. -/
structure Machine where
  objs : Objects Block Byte
  gCpu : CpuState
  gMemsel : Byte

/-! ### The ranges -/

/-- From one field to the end of the struct. -/
def fromField {F : Type} [DecidableEq F] (l : Layout F) (obj : Block) (f : F) : Region Block :=
  ⟨obj, l.offsetOf f, l.sizeOf - l.offsetOf f⟩

def cpuSaveload : List (Region Block) := [fromField cpuLayout .cpu .a]

def dspSaveload : List (Region Block) := [fromField dspLayout .dsp .ram]

def spcSaveload : List (Region Block) :=
  [⟨.spc, spcLayout.offsetOf .a, spcLayout.offsetOf .cyclesUsed - spcLayout.offsetOf .a⟩]

def apuSaveload : List (Region Block) :=
  [⟨.apu, apuLayout.offsetOf .ram, apuLayout.offsetOf .pad + 6 - apuLayout.offsetOf .ram⟩] ++
    dspSaveload ++ spcSaveload

def dmaSaveload : List (Region Block) := [fromField dmaLayout .dma .channel]

/-- `PPU_SAVESTATE_REGS_SIZE`. -/
def ppuSavestateRegsSize : Nat := 0x40

/-- `PPU_SAVESTATE_MEM_SIZE`. -/
def ppuSavestateMemSize : Nat := 0x10420

def ppuSaveload : List (Region Block) :=
  [⟨.version, 0, 8⟩, ⟨.ppu, ppuLayout.offsetOf .inidisp, ppuSavestateRegsSize⟩,
    ⟨.ppu, ppuLayout.offsetOf .cgram, ppuSavestateMemSize⟩]

def cartSaveload (ramSize : Nat) : List (Region Block) := [⟨.cartRam, 0, ramSize⟩]

/-- The ranges of `snes_saveload`, in its order. -/
def snesSaveload (ramSize : Nat) : List (Region Block) :=
  cpuSaveload ++ apuSaveload ++ dmaSaveload ++ ppuSaveload ++ cartSaveload ramSize ++
    [fromField snesLayout .snes .hPos, ⟨.wram, 0, 0x20000⟩, ⟨.snes, snesLayout.offsetOf .ramAdr, 4⟩]

/-- The assertions of `ppu_saveload`. -/
theorem ppuSaveload_sizes :
    ppuLayout.offsetOf .cgwsel + 1 - ppuLayout.offsetOf .inidisp = ppuSavestateRegsSize ∧
      ppuLayout.offsetOf .vram + 0x10000 - ppuLayout.offsetOf .cgram = ppuSavestateMemSize := by
  decide +kernel

/-! ### Saving and loading -/

/-- `RTL_SAV_MAGIC` and `RTL_SAV_VERSION`. -/
def header : List Byte := [0x53, 0x4c, 0x54, 0x52, 0x04, 0x00, 0x00, 0x00]

/-- `version` of `ppu_saveload`. -/
def ppuVersion : List Byte := [0x50, 0x50, 0x55, 0x30, 0x60, 0x04, 0x01, 0x00]

/-- The blocks while `ppu_saveload` has its local array. -/
def withVersion (objs : Objects Block Byte) : Objects Block Byte := fun k i =>
  if k = .version then (ppuVersion[i]?).getD 0 else objs k i

/-- `snes->cpu->e = 0;`. -/
def Machine.clearE (m : Machine) : Machine :=
  { m with objs := fun k i => if k = .cpu ∧ i = cpuLayout.offsetOf .e then 0 else m.objs k i }

section SaveLoad

variable (ramSize : Nat)

def rtlSaveSnapshot (m : Machine) : List Byte :=
  header ++ save (withVersion m.objs) (snesSaveload ramSize)

/-- Whether the file was loaded, and the machine afterwards; `none` is a file that does not
open. -/
def rtlLoadSnapshot (file : Option (List Byte)) (m : Machine) : Bool × Machine :=
  match file with
  | none => (false, m)
  | some file =>
    if file.take 8 ≠ header then (false, m)
    else
      let l := load (withVersion m.objs) (snesSaveload ramSize) (file.drop 8)
      let objs : Objects Block Byte := fun k i => if k = .version then m.objs k i else l.objs k i
      (!l.error, { m with objs := objs }.clearE)

/-- A byte that is saved. -/
def Saved (k : Block) (i : Nat) : Prop := ∃ r ∈ snesSaveload ramSize, r.Covers k i

instance (k : Block) (i : Nat) : Decidable (Saved ramSize k i) :=
  inferInstanceAs (Decidable (∃ r ∈ snesSaveload ramSize, r.Covers k i))

/-- The machine after the load of a snapshot: the saved bytes are those of `s`. -/
theorem load_save_snapshot (s t : Machine) :
    rtlLoadSnapshot ramSize (some (rtlSaveSnapshot ramSize s)) t =
      (true, { t with
        objs := fun k i =>
          if k ≠ Block.version ∧ Saved ramSize k i then s.objs k i else t.objs k i }.clearE) := by
  have htake : (rtlSaveSnapshot ramSize s).take 8 = header := List.take_left' rfl
  have hdrop : (rtlSaveSnapshot ramSize s).drop 8 =
      save (withVersion s.objs) (snesSaveload ramSize) ++ [] := by
    rw [List.append_nil]
    exact List.drop_left' rfl
  unfold rtlLoadSnapshot
  dsimp only
  rw [if_neg (not_not.mpr htake), hdrop, load_save]
  congr 3
  funext k i
  by_cases hk : k = .version
  · simp [hk]
  · by_cases hs : Saved ramSize k i
    · have hs' : ∃ r ∈ snesSaveload ramSize, r.Covers k i := hs
      simp [hk, hs, hs', withVersion]
    · have hs' : ¬ ∃ r ∈ snesSaveload ramSize, r.Covers k i := hs
      simp [hk, hs, hs', withVersion]

/-! ### Components -/

/-- The fields from one on. -/
def fieldsFrom {F : Type} [DecidableEq F] (l : Layout F) (obj : Block) (f : F) :
    List (Region Block) :=
  ((l.map (·.1)).dropWhile (· ≠ f)).map fun g => l.field obj g

/-- WRAM; the DMA channels; the registers of the PPU, CGRAM, OAM and VRAM; the APU with its
RAM and ports, the SPC and the DSP; the timing and arithmetic registers; and the CPU struct of
the framework, the emulation flag apart. -/
def fixedComponents : List (Region Block) :=
  [⟨.wram, 0, 0x20000⟩] ++ fieldsFrom dmaLayout .dma .channel ++
    ((fieldsFrom ppuLayout .ppu .inidisp).take 24 ++ fieldsFrom ppuLayout .ppu .cgram) ++
    ((fieldsFrom apuLayout .apu .ram).take 9 ++ (fieldsFrom spcLayout .spc .a).dropLast ++
      fieldsFrom dspLayout .dsp .ram) ++
    (snesLayout.field .snes .ramAdr :: fieldsFrom snesLayout .snes .hPos) ++
    (fieldsFrom cpuLayout .cpu .a).dropLast

/-- The components a load restores: these and the SRAM of the cartridge. -/
def components : List (Region Block) :=
  ⟨.cartRam, 0, ramSize⟩ :: fixedComponents

/-- The pending port writes of the APU, which are deliberately left out. -/
def pendingPortWrites : List (Region Block) := fieldsFrom apuLayout .apu .portQueue

/-- A byte `clearE` leaves alone. -/
def Unforced (q : Region Block) : Prop :=
  q.obj ≠ .version ∧ (q.obj ≠ .cpu ∨ q.start + q.size ≤ cpuLayout.offsetOf .e)

instance (q : Region Block) : Decidable (Unforced q) := inferInstanceAs (Decidable (_ ∧ _))

/-- The ranges of a cartridge without SRAM. -/
def fixedRanges : List (Region Block) :=
  cpuSaveload ++ apuSaveload ++ dmaSaveload ++ ppuSaveload ++
    [fromField snesLayout .snes .hPos, ⟨.wram, 0, 0x20000⟩, ⟨.snes, snesLayout.offsetOf .ramAdr, 4⟩]

variable {ramSize}

theorem mem_snesSaveload {r : Region Block} :
    r ∈ snesSaveload ramSize ↔ r = ⟨.cartRam, 0, ramSize⟩ ∨ r ∈ fixedRanges := by
  simp only [snesSaveload, fixedRanges, cartSaveload, List.mem_append, List.mem_singleton]
  tauto

theorem within_of_mem_components {q : Region Block} (hq : q ∈ components ramSize) :
    Unforced q ∧ ∃ r ∈ snesSaveload ramSize, q.Within r := by
  have hfixed : ∀ q ∈ fixedComponents, Unforced q ∧ ∃ r ∈ fixedRanges, q.Within r := by
    decide +kernel
  rcases List.mem_cons.mp hq with rfl | hq
  · exact ⟨⟨Block.noConfusion, Or.inl Block.noConfusion⟩, _, mem_snesSaveload.mpr (Or.inl rfl), rfl,
      Nat.le_refl _, Nat.le_refl _⟩
  · obtain ⟨hunforced, r, hr, hwithin⟩ := hfixed q hq
    exact ⟨hunforced, r, mem_snesSaveload.mpr (Or.inr hr), hwithin⟩

theorem apart_of_mem_pendingPortWrites {q : Region Block} (hq : q ∈ pendingPortWrites) :
    Unforced q ∧ ∀ r ∈ snesSaveload ramSize, q.Apart r := by
  have hfixed : ∀ q ∈ pendingPortWrites,
      Unforced q ∧ q.obj ≠ .cartRam ∧ ∀ r ∈ fixedRanges, q.Apart r := by
    decide
  obtain ⟨hunforced, hobj, hapart⟩ := hfixed q hq
  refine ⟨hunforced, fun r hr => ?_⟩
  rcases mem_snesSaveload.mp hr with rfl | hr
  · exact Or.inl hobj.symm
  · exact hapart r hr

theorem clearE_of_unforced {q : Region Block} (h : Unforced q) (m : Machine) :
    SameIn m.clearE.objs m.objs q := by
  intro i hi
  refine if_neg fun hforced => ?_
  rcases h.2 with hobj | hend
  · exact hobj hforced.1
  · have hi := hi.2.2
    omega

/-- **A snapshot loads, and restores every component it has in its ranges.**  The pending port
writes stay as they were, and where nothing else but what is restored had changed, the machine
is the one that was saved. -/
theorem snapshot_restores (ramSize : Nat) (s t : Machine) :
    let r := rtlLoadSnapshot ramSize (some (rtlSaveSnapshot ramSize s)) t
    r.1 = true ∧ (∀ q ∈ components ramSize, SameIn r.2.objs s.objs q) ∧
      (∀ q ∈ pendingPortWrites, SameIn r.2.objs t.objs q) ∧
      (t.gCpu = s.gCpu → t.gMemsel = s.gMemsel →
        (∀ k i, ¬ Saved ramSize k i → t.objs k i = s.objs k i) →
        (∀ i, t.objs .version i = s.objs .version i) → r.2 = s.clearE) := by
  intro r
  have hr : r = (true, _) := load_save_snapshot ramSize s t
  rw [hr]
  refine ⟨rfl, fun q hq => ?_, fun q hq => ?_, fun hcpu hmemsel hrest hversion => ?_⟩
  · obtain ⟨hunforced, p, hp, hobj, hstart, hend⟩ := within_of_mem_components hq
    intro i hi
    rw [clearE_of_unforced hunforced _ i hi]
    have hi := hi.2
    exact if_pos ⟨hunforced.1, p, hp, hobj, by omega, by omega⟩
  · obtain ⟨hunforced, hapart⟩ := @apart_of_mem_pendingPortWrites ramSize q hq
    intro i hi
    rw [clearE_of_unforced hunforced _ i hi]
    refine if_neg fun hsaved => ?_
    obtain ⟨_, p, hp, hobj, hstart, hend⟩ := hsaved
    have hi := hi.2
    rcases hapart p hp with hne | hbelow | habove
    · exact hne hobj
    · omega
    · omega
  · have hobjs : (fun k i => if k ≠ Block.version ∧ Saved ramSize k i then s.objs k i
        else t.objs k i) = s.objs := by
      funext k i
      by_cases hsaved : Saved ramSize k i
      · by_cases hk : k = .version
        · rw [if_neg fun h => h.1 hk, hk, hversion]
        · rw [if_pos ⟨hk, hsaved⟩]
      · rw [if_neg fun h => hsaved h.2, hrest k i hsaved]
    rw [hobjs, hcpu, hmemsel]

end SaveLoad

/-! ### What is not restored -/

/-- A machine all of whose bytes are the same. -/
def filled (b : Byte) (stack : Word) : Machine := ⟨fun _ _ => b, { cpuStateInit with S := stack }, b⟩

/-- A snapshot of a machine full of zeros, loaded in one full of ones. -/
def reloaded : Machine :=
  (rtlLoadSnapshot 0x2000 (some (rtlSaveSnapshot 0x2000 (filled 0 0x1FF))) (filled 1 0x1F0)).2

/-- A byte that is not saved is that of the machine the snapshot is loaded in. -/
theorem not_sameIn_reloaded {q : Region Block} (hobj : q.obj ≠ .cpu) (hsize : 0 < q.size)
    (hsaved : ¬ Saved 0x2000 q.obj q.start) : ¬ SameIn reloaded.objs (filled 0 0x1FF).objs q := by
  intro h
  have hbyte := h q.start ⟨rfl, Nat.le_refl _, by omega⟩
  rw [reloaded, load_save_snapshot] at hbyte
  simp [Machine.clearE, filled, hobj, hsaved] at hbyte

/-- The registers of the compiled code, the FastROM bit, the VRAM address and the queue of
port writes are those of the machine the snapshot was loaded in. -/
theorem not_restored_reloaded :
    reloaded.gCpu ≠ (filled 0 0x1FF).gCpu ∧ reloaded.gMemsel ≠ (filled 0 0x1FF).gMemsel ∧
      ¬ SameIn reloaded.objs (filled 0 0x1FF).objs (ppuLayout.field .ppu .vramPointer) ∧
      ¬ SameIn reloaded.objs (filled 0 0x1FF).objs (apuLayout.field .apu .portQTail) := by
  have hcpu : reloaded.gCpu = (filled 1 0x1F0).gCpu := by
    rw [reloaded, load_save_snapshot]
    rfl
  have hmemsel : reloaded.gMemsel = (filled 1 0x1F0).gMemsel := by
    rw [reloaded, load_save_snapshot]
    rfl
  rw [hcpu, hmemsel]
  exact ⟨by decide, by decide,
    not_sameIn_reloaded (by decide) (by decide +kernel) (by decide +kernel),
    not_sameIn_reloaded (by decide) (by decide) (by decide)⟩

end SnesRecomp.Snapshot
