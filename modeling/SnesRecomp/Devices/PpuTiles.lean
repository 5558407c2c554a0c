import SnesRecomp.Lib.Columns
import SnesRecomp.Devices.PpuWindows
import Mathlib.Data.BitVec

/-!
# Tiles of a background line

The background renderers of `ppu.c` keep two pointers into the tilemap, one for each half of
the row of tiles, and step through the row with them.  A tile comes as a word of bit planes,
and the macros take a pixel out of it while the word is shifted.  Here are the tilemap, the
planes and what a pixel of the background is, looked up for its coordinates alone.
-/

namespace SnesRecomp

open Columns

abbrev PpuZbufType := BitVec 16

/-- One of the `bgBuffers`; column `x` is `data[x + kPpuExtraLeftRight]`. -/
abbrev Zbuf := Int → PpuZbufType

/-- What the background renderers read of the `Ppu`. -/
structure PpuBgRegs extends PpuWindowRegs where
  vram : Nat → Word
  hScroll : Nat → Word
  vScroll : Nat → Word
  bgXsc : Nat → Byte
  bgTileAdr : Word
  mosaic : Byte
  mosaicModulo : Nat → Byte
  m7matrix : Nat → Word
  m7sel : Byte
  wsHudSplitHeight : Byte
  wsHudLeftEnd : Byte
  wsHudRightStart : Byte
  screenEnabled : Bool → Byte
  screenWindowed : Bool → Byte
  /-- `PpuSetWidescreenHudSplit` turns the split off otherwise. -/
  hudOrdered : wsHudSplitHeight ≠ 0 → 0 < wsHudLeftEnd.toNat ∧
    wsHudLeftEnd.toNat < wsHudRightStart.toNat

/-- `PpuSetWidescreenHudSplit`. -/
def ppuSetWidescreenHudSplit (ppu : PpuBgRegs) (height leftEnd rightStart : Byte) : PpuBgRegs :=
  { ppu with
    wsHudSplitHeight := if leftEnd = 0 ∨ rightStart ≤ leftEnd then 0 else height
    wsHudLeftEnd := leftEnd
    wsHudRightStart := rightStart
    hudOrdered := by
      intro h
      by_cases hoff : leftEnd = 0 ∨ rightStart ≤ leftEnd
      · exact absurd (if_pos hoff) h
      · rw [not_or] at hoff
        exact ⟨Nat.pos_of_ne_zero (fun hz => hoff.1 (BitVec.eq_of_toNat_eq hz)), Nat.lt_of_not_le hoff.2⟩ }

namespace PpuBgRegs

variable (ppu : PpuBgRegs) (layer : Nat)

def isScreenEnabled (sub : Bool) : Bool := (ppu.screenEnabled sub).getLsbD layer
def isScreenWindowed (sub : Bool) : Bool := (ppu.screenWindowed sub).getLsbD layer

def bgTilemapWider : Bool := (ppu.bgXsc layer).getLsbD 0
def bgTilemapHigher : Bool := (ppu.bgXsc layer).getLsbD 1
def bgTilemapAdr : Nat := (ppu.bgXsc layer &&& 0xfc).toNat * 256
def tileAdr : Nat := ((ppu.bgTileAdr >>> (layer * 4)) &&& 0xf).toNat * 4096

theorem bgTilemapAdr_mod : bgTilemapAdr ppu layer % 1024 = 0 := by
  have hfour : ∀ n : Fin 256, (n.val &&& 0xfc) % 4 = 0 := by decide +kernel
  have hadr : ((ppu.bgXsc layer).toNat &&& 0xfc) % 4 = 0 :=
    hfour ⟨(ppu.bgXsc layer).toNat, (ppu.bgXsc layer).isLt⟩
  rw [bgTilemapAdr, BitVec.toNat_and]
  change ((ppu.bgXsc layer).toNat &&& 0xfc) * 256 % 1024 = 0
  omega

end PpuBgRegs

open PpuBgRegs

/-! ### The tilemap -/

/-- What the renderers work out for a line: `tps` and the two tile addresses. -/
structure BgRow where
  tps : Nat → Nat
  tileadr0 : Nat
  tileadr1 : Nat

/-- `y` has the scroll in it. -/
def bgRow (ppu : PpuBgRegs) (layer y : Nat) : BgRow :=
  let scOffs := ppu.bgTilemapAdr layer + y / 8 % 32 * 32 +
    (if y / 256 % 2 ≠ 0 ∧ ppu.bgTilemapHigher layer then
      (if ppu.bgTilemapWider layer then 0x800 else 0x400) else 0)
  { tps := fun i =>
      if i = 0 then scOffs % 0x8000
      else (scOffs + (if ppu.bgTilemapWider layer then 0x400 else 0)) % 0x8000
    tileadr0 := ppu.tileAdr layer + y % 8
    tileadr1 := ppu.tileAdr layer + 7 - y % 8 }

/-- The entry of the tile that pixel `(px, y)` of the background lies in: one, two or four
screens of 32 by 32 tiles, repeated in both directions. -/
def mapEntry (ppu : PpuBgRegs) (layer : Nat) (px : Int) (y : Nat) : Nat :=
  let x := (px % (if ppu.bgTilemapWider layer then 512 else 256)).toNat
  let y := y % (if ppu.bgTilemapHigher layer then 512 else 256)
  let screen := x / 256 + y / 256 * (if ppu.bgTilemapWider layer then 2 else 1)
  (ppu.bgTilemapAdr layer + screen * 0x400 + y % 256 / 8 * 32 + x % 256 / 8) % 0x8000

/-- The entry `n` tiles into the row, half after half. -/
def BgRow.entry (row : BgRow) (n : Nat) : Nat := row.tps (n / 32 % 2) + n % 32

/-- A tile inside its row does not carry into the address of the row. -/
theorem screen_entry {adr : Nat} (hadr : adr % 1024 = 0) (screen r : Nat) {c : Nat}
    (hc : c < 32) : (adr + screen * 0x400 + r * 32 + c) % 0x8000 =
      (adr + r * 32 + screen * 0x400) % 0x8000 + c := by
  omega

theorem mapEntry_eq (ppu : PpuBgRegs) (layer y : Nat) {px : Int} {x : Nat}
    (h : px % 512 = (x : Int) % 512) :
    mapEntry ppu layer px y = (bgRow ppu layer y).entry (x / 8) := by
  have hcol : (px % (if ppu.bgTilemapWider layer then 512 else 256)).toNat % 256 / 8 =
      x / 8 % 32 := by
    split <;> omega
  have hrow : y % (if ppu.bgTilemapHigher layer then 512 else 256) % 256 / 8 = y / 8 % 32 := by
    split <;> omega
  have hright : (px % (if ppu.bgTilemapWider layer then 512 else 256)).toNat / 256 =
      if ppu.bgTilemapWider layer then x / 256 % 2 else 0 := by
    split <;> omega
  have hlower : y % (if ppu.bgTilemapHigher layer then 512 else 256) / 256 =
      if ppu.bgTilemapHigher layer then y / 256 % 2 else 0 := by
    split <;> omega
  rw [mapEntry]
  rw [hcol, hrow, hright, hlower, screen_entry (bgTilemapAdr_mod ppu layer) _ _
    (Nat.mod_lt _ (by omega)), BgRow.entry, show x / 8 / 32 % 2 = x / 256 % 2 by omega]
  congr 1
  have hx : x / 256 % 2 = 0 ∨ x / 256 % 2 = 1 := by omega
  have hy : y / 256 % 2 = 0 ∨ y / 256 % 2 = 1 := by omega
  simp only [bgRow]
  cases ppu.bgTilemapWider layer with
  | false => rcases hx with hx | hx <;> rcases hy with hy | hy <;> simp [hx, hy]
  | true =>
      cases ppu.bgTilemapHigher layer with
      | false => rcases hx with hx | hx <;> simp [hx]
      | true => rcases hx with hx | hx <;> rcases hy with hy | hy <;> simp [hx, hy]

/-! ### Planes -/

/-- The bit of plane `p` at position `k`. -/
def planeBit (bits : BitVec 32) (k p : Nat) : BitVec 32 :=
  if bits.getLsbD (8 * p + k) then BitVec.twoPow 32 p else 0#32

/-- The pixel at position `k` of a row of a tile, one bit from each plane. -/
def tilePixel (bits : BitVec 32) (k : Nat) : Nat → BitVec 32
  | 0 => 0#32
  | p + 1 => tilePixel bits k p ||| planeBit bits k p

theorem shift_and_plane (bits : BitVec 32) (k p : Nat) :
    (bits >>> (7 * p + k)) &&& BitVec.twoPow 32 p = planeBit bits k p := by
  rw [BitVec.and_twoPow, BitVec.getLsbD_ushiftRight, planeBit,
    show 7 * p + k + p = 8 * p + k by omega]

theorem planeBit_shiftRight (bits : BitVec 32) (a k p : Nat) :
    planeBit (bits >>> a) k p = planeBit bits (a + k) p := by
  rw [planeBit, planeBit, BitVec.getLsbD_ushiftRight,
    show a + (8 * p + k) = 8 * p + (a + k) by omega]

theorem planeBit_shiftLeft (bits : BitVec 32) {a k p : Nat} (ha : a ≤ k) (hk : k < 8)
    (hp : p < 4) : planeBit (bits <<< a) k p = planeBit bits (k - a) p := by
  rw [planeBit, planeBit, BitVec.getLsbD_shiftLeft, decide_eq_true (by omega),
    decide_eq_false (by omega), show 8 * p + k - a = 8 * p + (k - a) by omega]
  rfl

theorem tilePixel_shiftRight (bits : BitVec 32) (a k planes : Nat) :
    tilePixel (bits >>> a) k planes = tilePixel bits (a + k) planes := by
  induction planes with
  | zero => rfl
  | succ p ih => rw [tilePixel, tilePixel, ih, planeBit_shiftRight]

theorem tilePixel_shiftLeft (bits : BitVec 32) {a k planes : Nat} (ha : a ≤ k) (hk : k < 8)
    (hp : planes ≤ 4) : tilePixel (bits <<< a) k planes = tilePixel bits (k - a) planes := by
  induction planes with
  | zero => rfl
  | succ p ih => rw [tilePixel, tilePixel, ih (by omega), planeBit_shiftLeft bits ha hk (by omega)]

theorem tilePixel_zero (k planes : Nat) : tilePixel 0#32 k planes = 0#32 := by
  induction planes with
  | zero => rfl
  | succ p ih =>
      rw [tilePixel, ih, planeBit, BitVec.getLsbD_zero, if_neg Bool.false_ne_true, BitVec.or_self]

theorem planeBit_eq_zero (bits : BitVec 32) {k p : Nat} (hp : p < 32) :
    planeBit bits k p = 0#32 ↔ bits.getLsbD (8 * p + k) = false := by
  rw [planeBit]
  by_cases hbit : bits.getLsbD (8 * p + k) = true
  · rw [if_pos hbit, hbit]
    exact ⟨fun h => absurd h (Bits.twoPow_ne_zero hp), fun h => by cases h⟩
  · rw [if_neg hbit]
    exact ⟨fun _ => Bool.eq_false_iff.mpr hbit, fun _ => rfl⟩

/-! ### The pixel macros -/

/-- `DO_PIXEL` or `DO_PIXEL_HFLIP`: the pixel, the test that it is shown, and the shift that
goes with it. -/
structure PixelMacro where
  pixel : BitVec 32 → Nat → BitVec 32
  shown : BitVec 32 → Nat → Bool
  shift : BitVec 32 → Nat → BitVec 32

/-- The macro takes the pixels of a row in the order of `pos`. -/
structure PixelMacro.Takes (m : PixelMacro) (planes : Nat) (pos : Nat → Nat) : Prop where
  pixel_eq : ∀ bits, ∀ j < 8, m.pixel bits j = tilePixel bits (pos j) planes
  shown_eq : ∀ bits, ∀ j < 8, m.shown bits j = true ↔ tilePixel bits (pos j) planes ≠ 0#32
  shift_eq : ∀ bits a j, a + j < 8 →
    tilePixel (m.shift bits a) (pos j) planes = tilePixel bits (pos (a + j)) planes

/-- A depth of tiles: how a row of a tile is read, the palette, and the two macros.  A flipped
tile is taken from position 0 on, another one from position 7 down. -/
structure TileDepth where
  planes : Nat
  kPaletteShift : Nat
  readBits : (Nat → Word) → Nat → Nat → BitVec 32
  doPixel : PixelMacro
  doPixelHflip : PixelMacro
  takes : doPixel.Takes planes (fun j => j)
  takesHflip : doPixelHflip.Takes planes (fun j => 7 - j)

/-- The macros of a tile with this flip bit. -/
def TileDepth.macros (d : TileDepth) (hflip : Bool) : PixelMacro :=
  if hflip then d.doPixel else d.doPixelHflip

/-- The position of column `j` of a tile. -/
def tilePos (hflip : Bool) (j : Nat) : Nat := if hflip then j else 7 - j

theorem TileDepth.macros_takes (d : TileDepth) (hflip : Bool) :
    (d.macros hflip).Takes d.planes (tilePos hflip) := by
  cases hflip with
  | true => exact d.takes
  | false => exact d.takesHflip

theorem pixel4_eq (bits : BitVec 32) (k : Nat) :
    (bits >>> k) &&& 1 ||| (bits >>> (7 + k)) &&& 2 ||| (bits >>> (14 + k)) &&& 4 |||
      (bits >>> (21 + k)) &&& 8 = tilePixel bits k 4 := by
  have h0 := shift_and_plane bits k 0
  have h1 := shift_and_plane bits k 1
  have h2 := shift_and_plane bits k 2
  have h3 := shift_and_plane bits k 3
  rw [Nat.mul_zero, Nat.zero_add] at h0
  simp only [tilePixel, BitVec.zero_or, ← h0, ← h1, ← h2, ← h3]
  rfl

theorem pixel2_eq (bits : BitVec 32) (k : Nat) :
    (bits >>> k) &&& 1 ||| (bits >>> (7 + k)) &&& 2 = tilePixel bits k 2 := by
  have h0 := shift_and_plane bits k 0
  have h1 := shift_and_plane bits k 1
  rw [Nat.mul_zero, Nat.zero_add] at h0
  simp only [tilePixel, BitVec.zero_or, ← h0, ← h1]
  rfl

/-- A mask with the bit of every plane tests for a pixel. -/
theorem planeMask_ne_zero {mask : BitVec 32} {k : Nat} (bits : BitVec 32) (hk : k < 8)
    (hmask : mask = BitVec.twoPow 32 k ||| BitVec.twoPow 32 (8 + k) |||
      BitVec.twoPow 32 (16 + k) ||| BitVec.twoPow 32 (24 + k)) :
    (bits &&& mask != 0#32) = true ↔ tilePixel bits k 4 ≠ 0#32 := by
  have hzero : ∀ i < 32, bits &&& BitVec.twoPow 32 i = 0#32 ↔ bits.getLsbD i = false := by
    intro i hi
    have hbit := Bits.and_twoPow_ne_zero hi bits
    constructor
    · intro h
      rw [← hbit, h]
      rfl
    · intro h
      rw [h] at hbit
      exact bne_eq_false_iff_eq.mp hbit
  rw [bne_iff_ne, not_iff_not, hmask, BitVec.and_or_distrib_left, BitVec.and_or_distrib_left,
    BitVec.and_or_distrib_left]
  simp only [tilePixel, BitVec.zero_or]
  rw [BitVec.or_eq_zero_iff, BitVec.or_eq_zero_iff, BitVec.or_eq_zero_iff,
    BitVec.or_eq_zero_iff, BitVec.or_eq_zero_iff, BitVec.or_eq_zero_iff]
  have h0 := planeBit_eq_zero bits (k := k) (show 0 < 32 by omega)
  have h1 := planeBit_eq_zero bits (k := k) (show 1 < 32 by omega)
  have h2 := planeBit_eq_zero bits (k := k) (show 2 < 32 by omega)
  have h3 := planeBit_eq_zero bits (k := k) (show 3 < 32 by omega)
  rw [Nat.mul_zero, Nat.zero_add] at h0
  have m0 := hzero k (by omega)
  have m1 := hzero (8 + k) (by omega)
  have m2 := hzero (16 + k) (by omega)
  have m3 := hzero (24 + k) (by omega)
  rw [h0, h1, h2, h3]
  exact and_congr (and_congr (and_congr m0 m1) m2) m3

theorem doPixelMask : ∀ i : Fin 8, 0x01010101#32 <<< i.val =
    BitVec.twoPow 32 i.val ||| BitVec.twoPow 32 (8 + i.val) ||| BitVec.twoPow 32 (16 + i.val) |||
      BitVec.twoPow 32 (24 + i.val) := by
  decide

theorem doPixelHflipMask : ∀ i : Fin 8, 0x80808080#32 >>> i.val =
    BitVec.twoPow 32 (7 - i.val) ||| BitVec.twoPow 32 (8 + (7 - i.val)) |||
      BitVec.twoPow 32 (16 + (7 - i.val)) ||| BitVec.twoPow 32 (24 + (7 - i.val)) := by
  decide

/-- The macros of `PpuDrawBackground_4bpp`. -/
def depth4bpp : TileDepth where
  planes := 4
  kPaletteShift := 6
  readBits vram ta tile :=
    let addr := (ta + tile * 16) % 0x8000
    (vram addr).setWidth 32 ||| (vram (addr + 8)).setWidth 32 <<< 16
  doPixel :=
    { pixel := fun bits i =>
        (bits >>> i) &&& 1 ||| (bits >>> (7 + i)) &&& 2 ||| (bits >>> (14 + i)) &&& 4 |||
          (bits >>> (21 + i)) &&& 8
      shown := fun bits i => bits &&& (0x01010101#32 <<< i) != 0#32
      shift := fun bits n => bits >>> n }
  doPixelHflip :=
    { pixel := fun bits i =>
        (bits >>> (7 - i)) &&& 1 ||| (bits >>> (14 - i)) &&& 2 ||| (bits >>> (21 - i)) &&& 4 |||
          (bits >>> (28 - i)) &&& 8
      shown := fun bits i => bits &&& (0x80808080#32 >>> i) != 0#32
      shift := fun bits n => bits <<< n }
  takes :=
    { pixel_eq := fun bits j _ => pixel4_eq bits j
      shown_eq := fun bits j hj => planeMask_ne_zero bits hj (doPixelMask ⟨j, hj⟩)
      shift_eq := fun bits a j _ => tilePixel_shiftRight bits a j 4 }
  takesHflip :=
    { pixel_eq := by
        intro bits j hj
        have heq := pixel4_eq bits (7 - j)
        rw [show 7 + (7 - j) = 14 - j by omega, show 14 + (7 - j) = 21 - j by omega,
          show 21 + (7 - j) = 28 - j by omega] at heq
        exact heq
      shown_eq := fun bits j hj =>
        planeMask_ne_zero bits (show 7 - j < 8 by omega) (doPixelHflipMask ⟨j, hj⟩)
      shift_eq := by
        intro bits a j h
        dsimp only
        rw [tilePixel_shiftLeft bits (by omega) (by omega) (le_refl 4),
          show 7 - j - a = 7 - (a + j) by omega] }

/-- The macros of `PpuDrawBackground_2bpp`. -/
def depth2bpp : TileDepth where
  planes := 2
  kPaletteShift := 8
  readBits vram ta tile := (vram ((ta + tile * 8) % 0x8000)).setWidth 32
  doPixel :=
    { pixel := fun bits i => (bits >>> i) &&& 1 ||| (bits >>> (7 + i)) &&& 2
      shown := fun bits i => ((bits >>> i) &&& 1 ||| (bits >>> (7 + i)) &&& 2) != 0#32
      shift := fun bits n => bits >>> n }
  doPixelHflip :=
    { pixel := fun bits i => (bits >>> (7 - i)) &&& 1 ||| (bits >>> (14 - i)) &&& 2
      shown := fun bits i => ((bits >>> (7 - i)) &&& 1 ||| (bits >>> (14 - i)) &&& 2) != 0#32
      shift := fun bits n => bits <<< n }
  takes :=
    { pixel_eq := fun bits j _ => pixel2_eq bits j
      shown_eq := by
        intro bits j _
        dsimp only
        rw [pixel2_eq, bne_iff_ne]
      shift_eq := fun bits a j _ => tilePixel_shiftRight bits a j 2 }
  takesHflip :=
    { pixel_eq := by
        intro bits j hj
        have heq := pixel2_eq bits (7 - j)
        rw [show 7 + (7 - j) = 14 - j by omega] at heq
        exact heq
      shown_eq := by
        intro bits j hj
        have heq := pixel2_eq bits (7 - j)
        rw [show 7 + (7 - j) = 14 - j by omega] at heq
        dsimp only
        rw [heq, bne_iff_ne]
      shift_eq := by
        intro bits a j h
        dsimp only
        rw [tilePixel_shiftLeft bits (by omega) (by omega) (by omega),
          show 7 - j - a = 7 - (a + j) by omega] }

/-! ### A tile -/

/-- What is read for a tile: `bits`, `z` with the palette, and the flip bit. -/
structure TileRead where
  bits : BitVec 32
  z : PpuZbufType
  hflip : Bool

def readTile (d : TileDepth) (vram : Nat → Word) (row : BgRow) (zhi zlo : PpuZbufType)
    (tp : Nat) : TileRead :=
  let tile := vram tp
  let ta := if tile.getLsbD 15 then row.tileadr1 else row.tileadr0
  { bits := d.readBits vram ta (tile.toNat % 0x400)
    z := (if tile.getLsbD 13 then zhi else zlo) + ((tile &&& 0x1c00) >>> d.kPaletteShift)
    hflip := tile.getLsbD 14 }

/-- `if (shown && z > dstz[i]) dstz[i] = z + pixel;` with a shown pixel. -/
def mergePixel (z : PpuZbufType) (pixel : BitVec 32) (old : PpuZbufType) : PpuZbufType :=
  if pixel ≠ 0#32 ∧ old < z then z + pixel.setWidth 16 else old

theorem mergePixel_zero (z old : PpuZbufType) : mergePixel z 0#32 old = old :=
  if_neg (fun h => h.1 rfl)

/-- What pixel `(px, y)` of the background does to a column: the tile, its flip bits, its
priority and palette looked up for the pixel itself. -/
def bgPixel (d : TileDepth) (ppu : PpuBgRegs) (layer : Nat) (zhi zlo : PpuZbufType) (px : Int)
    (y : Nat) (old : PpuZbufType) : PpuZbufType :=
  let tile := ppu.vram (mapEntry ppu layer px y)
  let line := if tile.getLsbD 15 then 7 - y % 8 else y % 8
  let bits := d.readBits ppu.vram (ppu.tileAdr layer + line) (tile.toNat % 0x400)
  let z := (if tile.getLsbD 13 then zhi else zlo) + ((tile &&& 0x1c00) >>> d.kPaletteShift)
  let column := (px % 8).toNat
  mergePixel z (tilePixel bits (if tile.getLsbD 14 then column else 7 - column) d.planes) old

theorem bgRow_tileadr (ppu : PpuBgRegs) (layer y : Nat) (vflip : Bool) :
    (if vflip then (bgRow ppu layer y).tileadr1 else (bgRow ppu layer y).tileadr0) =
      ppu.tileAdr layer + (if vflip then 7 - y % 8 else y % 8) := by
  cases vflip with
  | true =>
      change ppu.tileAdr layer + 7 - y % 8 = ppu.tileAdr layer + (7 - y % 8)
      omega
  | false => rfl

/-- The same pixel out of the tile that is read at its entry. -/
theorem bgPixel_eq (d : TileDepth) (ppu : PpuBgRegs) (layer y : Nat) (zhi zlo : PpuZbufType)
    {px : Int} {x : Nat} (h : px % 512 = (x : Int) % 512) {t : TileRead}
    (ht : readTile d ppu.vram (bgRow ppu layer y) zhi zlo ((bgRow ppu layer y).entry (x / 8)) = t) :
    bgPixel d ppu layer zhi zlo px y =
      mergePixel t.z (tilePixel t.bits (tilePos t.hflip (x % 8)) d.planes) := by
  have hcol : (px % 8).toNat = x % 8 := by omega
  funext old
  rw [← ht, bgPixel, mapEntry_eq ppu layer y h, hcol]
  simp only [readTile, tilePos, bgRow_tileadr]

end SnesRecomp
