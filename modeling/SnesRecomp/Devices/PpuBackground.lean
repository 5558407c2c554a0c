import SnesRecomp.Devices.PpuTiles

/-!
# Background lines without mosaic

`PpuDrawBackground_4bpp` and `PpuDrawBackground_2bpp` draw a span as a clipped tile, whole
tiles and a clipped tile.  The two bodies are the same but for the macros.  `drawSpan_eq` says
that a span is painted with the pixel that its column and the scroll select, however often the
span crosses from one half of the tilemap to the other.
-/

namespace SnesRecomp

open Columns Spans PpuBgRegs

/-! ### The source -/

/-- `tp`, `tp_last` and `tp_next`. -/
structure TilePtr where
  tp : Nat
  tpLast : Nat
  tpNext : Nat

/-- `NEXT_TP()`. -/
def TilePtr.nextTp (p : TilePtr) : TilePtr :=
  if p.tp ≠ p.tpLast then { p with tp := p.tp + 1 }
  else { tp := p.tpNext, tpLast := p.tpNext + 31, tpNext := p.tpLast - 31 }

/-- The pointers for `x`. -/
def BgRow.start (row : BgRow) (x : Nat) : TilePtr where
  tp := row.tps (x / 256 % 2) + x / 8 % 32
  tpLast := row.tps (x / 256 % 2) + 31
  tpNext := row.tps ((x / 256 + 1) % 2)

/-- `if (shown && z > dstz[i]) dstz[i] = z + pixel;`. -/
def putPixel (m : PixelMacro) (bits : BitVec 32) (z : PpuZbufType) (i : Nat) (dst : Int)
    (buf : Zbuf) : Zbuf :=
  if m.shown bits i = true ∧ buf dst < z then
    Function.update buf dst (z + (m.pixel bits i).setWidth 16)
  else buf

/-- `do DO_PIXEL(0); while (bits >>= 1, dstz++, --curw);`, which has `curw` turns. -/
def clippedPixels (m : PixelMacro) (z : PpuZbufType) : Nat → BitVec 32 → Int → Zbuf → Zbuf
  | 0, _, _, buf => buf
  | curw + 1, bits, dst, buf =>
    clippedPixels m z curw (m.shift bits 1) (dst + 1) (putPixel m bits z 0 dst buf)

/-- `DO_PIXEL(0); … DO_PIXEL(n - 1);`. -/
def tilePixels (m : PixelMacro) (bits : BitVec 32) (z : PpuZbufType) (dst : Int) :
    Nat → Zbuf → Zbuf
  | 0, buf => buf
  | n + 1, buf => putPixel m bits z n (dst + n) (tilePixels m bits z dst n buf)

/-- What the parts of a span share. -/
structure SpanState where
  w : Nat
  dstz : Int
  ptr : TilePtr
  buf : Zbuf

section
variable (d : TileDepth) (vram : Nat → Word) (row : BgRow) (zhi zlo : PpuZbufType)

/-- The clipped pixels on the left side. -/
def leftPart (x : Nat) (s : SpanState) : SpanState :=
  if x % 8 ≠ 0 then
    let curw := min (8 - x % 8) s.w
    let t := readTile d vram row zhi zlo s.ptr.tp
    { w := s.w - curw
      dstz := s.dstz + curw
      ptr := s.ptr.nextTp
      buf := if t.bits ≠ 0#32 then
          clippedPixels (d.macros t.hflip) t.z curw ((d.macros t.hflip).shift t.bits (x % 8))
            s.dstz s.buf
        else s.buf }
  else s

/-- The full tiles in the middle. -/
def fullTiles (w : Nat) (dstz : Int) (ptr : TilePtr) (buf : Zbuf) : SpanState :=
  if 8 ≤ w then
    let t := readTile d vram row zhi zlo ptr.tp
    fullTiles (w - 8) (dstz + 8) ptr.nextTp
      (if t.bits ≠ 0#32 then tilePixels (d.macros t.hflip) t.bits t.z dstz 8 buf else buf)
  else { w := w, dstz := dstz, ptr := ptr, buf := buf }
  termination_by w
  decreasing_by omega

/-- The remaining clipped part. -/
def rightPart (s : SpanState) : Zbuf :=
  if s.w ≠ 0 then
    let t := readTile d vram row zhi zlo s.ptr.tp
    if t.bits ≠ 0#32 then clippedPixels (d.macros t.hflip) t.z s.w t.bits s.dstz s.buf else s.buf
  else s.buf

/-- The body of the loop over the windows. -/
def drawSpan (x w : Nat) (dstz : Int) (buf : Zbuf) : Zbuf :=
  let s := leftPart d vram row zhi zlo x { w := w, dstz := dstz, ptr := row.start x, buf := buf }
  rightPart d vram row zhi zlo (fullTiles d vram row zhi zlo s.w s.dstz s.ptr s.buf)

end

/-- `for (windex = 0; windex < n; windex++) { if (bits & (1 << windex)) continue; … }`. -/
def overSpans {β : Type} (bits : Byte) (draw : Nat → β → β) : Nat → β → β
  | 0, b => b
  | n + 1, b =>
    if bits.getLsbD n then overSpans bits draw n b else draw n (overSpans bits draw n b)

/-- `PpuWindows_Clear`. -/
def ppuWindowsClear (win : PpuWindows) (ppu : PpuWindowRegs) (layer : Nat) (y : Int) :
    PpuWindows where
  edges := Function.update (Function.update win.edges 0
    (-ppuLayerExtra ppu layer y ppu.extraLeftCur.toNat)) 1
    (256 + ppuLayerExtra ppu layer y ppu.extraRightCur.toNat)
  nr := 1
  bits := 0

/-- The windows of the layer on the line; `win` comes uninitialised. -/
def bgWindows (win : PpuWindows) (ppu : PpuBgRegs) (sub : Bool) (layer y : Nat) :
    Option PpuWindows :=
  if ppu.isScreenWindowed layer sub then ppuWindowsCalc win ppu.toPpuWindowRegs layer y
  else some (ppuWindowsClear win ppu.toPpuWindowRegs layer y)

/-- The unsigned difference or sum of edges and scroll. -/
def toUint (x : Int) : Nat := (x % 4294967296).toNat

/-- The loop of both renderers; `bias` is `ws_bias`, zero in the first. -/
def drawSpans (d : TileDepth) (ppu : PpuBgRegs) (layer y : Nat) (zhi zlo : PpuZbufType)
    (win : PpuWindows) (bias : Nat → Int) (buf : Zbuf) : Zbuf :=
  overSpans win.bits (fun windex =>
    drawSpan d ppu.vram (bgRow ppu layer (y + (ppu.vScroll layer).toNat)) zhi zlo
      (toUint (win.edges windex + (ppu.hScroll layer).toNat + bias windex))
      (toUint (win.edges (windex + 1) - win.edges windex)) (win.edges windex)) win.nr buf

def ppuDrawBackground4bpp (win : PpuWindows) (ppu : PpuBgRegs) (y : Nat) (sub : Bool)
    (layer : Nat) (zhi zlo : PpuZbufType) (buf : Zbuf) : Option Zbuf := do
  if ppu.isScreenEnabled layer sub = false then return buf
  let win ← bgWindows win ppu sub layer y
  return drawSpans depth4bpp ppu layer y zhi zlo win (fun _ => 0) buf

/-- The lines on which the HUD is split. -/
def HudSplit (ppu : PpuBgRegs) (layer y : Nat) (win : PpuWindows) : Prop :=
  layer = 2 ∧ y < ppu.wsHudSplitHeight.toNat ∧ ppu.extraLeftCur ≠ 0 ∧ ppu.extraRightCur ≠ 0 ∧
    win.nr = 1 ∧ win.bits = 0

instance (ppu : PpuBgRegs) (layer y : Nat) (win : PpuWindows) :
    Decidable (HudSplit ppu layer y win) :=
  inferInstanceAs (Decidable (_ ∧ _))

/-- The five spans of the split: the chunks and the gaps between them. -/
def hudWindows (ppu : PpuBgRegs) : PpuWindows where
  edges
    | 0 => -ppu.extraLeftCur.toNat
    | 1 => ppu.wsHudLeftEnd.toNat - ppu.extraLeftCur.toNat
    | 2 => ppu.wsHudLeftEnd.toNat
    | 3 => ppu.wsHudRightStart.toNat
    | 4 => ppu.wsHudRightStart.toNat + ppu.extraRightCur.toNat
    | _ => 256 + ppu.extraRightCur.toNat
  nr := 5
  bits := 0x0A

def hudBias (ppu : PpuBgRegs) : Nat → Int
  | 0 => ppu.extraLeftCur.toNat
  | 4 => -ppu.extraRightCur.toNat
  | _ => 0

/-- The spans and `ws_bias` of a line of the 2bpp renderer. -/
def splitWindows (ppu : PpuBgRegs) (layer y : Nat) (win : PpuWindows) :
    PpuWindows × (Nat → Int) :=
  if HudSplit ppu layer y win then (hudWindows ppu, hudBias ppu) else (win, fun _ => 0)

def ppuDrawBackground2bpp (win : PpuWindows) (ppu : PpuBgRegs) (y : Nat) (sub : Bool)
    (layer : Nat) (zhi zlo : PpuZbufType) (buf : Zbuf) : Option Zbuf := do
  if ppu.isScreenEnabled layer sub = false then return buf
  let win ← bgWindows win ppu sub layer y
  let (win, wsBias) := splitWindows ppu layer y win
  return drawSpans depth2bpp ppu layer y zhi zlo win wsBias buf

/-! ### The pointers -/

/-- The pointers `n` tiles into the row. -/
def BgRow.ptr (row : BgRow) (n : Nat) : TilePtr where
  tp := row.entry n
  tpLast := row.tps (n / 32 % 2) + 31
  tpNext := row.tps ((n / 32 + 1) % 2)

theorem BgRow.start_eq (row : BgRow) (x : Nat) : row.start x = row.ptr (x / 8) := by
  rw [start, ptr, entry, show x / 8 / 32 = x / 256 by omega]

theorem BgRow.nextTp_ptr (row : BgRow) (n : Nat) : (row.ptr n).nextTp = row.ptr (n + 1) := by
  have htp : (row.ptr n).tp = row.tps (n / 32 % 2) + n % 32 := rfl
  have htpLast : (row.ptr n).tpLast = row.tps (n / 32 % 2) + 31 := rfl
  rw [TilePtr.nextTp, htp, htpLast]
  by_cases hlast : n % 32 = 31
  · have hhalf : (n + 1) / 32 = n / 32 + 1 := by omega
    rw [if_neg (by rw [not_not, hlast]), Nat.add_sub_cancel]
    simp only [ptr, entry, hhalf, show (n + 1) % 32 = 0 by omega, Nat.add_zero,
      show (n / 32 + 1 + 1) % 2 = n / 32 % 2 by omega]
  · have hhalf : (n + 1) / 32 = n / 32 := by omega
    rw [if_pos (by omega)]
    simp only [ptr, entry, hhalf, show (n + 1) % 32 = n % 32 + 1 by omega, Nat.add_assoc]

/-! ### A tile -/

theorem putPixel_eq {m : PixelMacro} {planes : Nat} {pos : Nat → Nat} (hm : m.Takes planes pos)
    (bits : BitVec 32) (z : PpuZbufType) {i : Nat} (hi : i < 8) (dst : Int) (buf : Zbuf) :
    putPixel m bits z i dst buf =
      Function.update buf dst (mergePixel z (tilePixel bits (pos i) planes) (buf dst)) := by
  rw [putPixel, mergePixel]
  by_cases hput : tilePixel bits (pos i) planes ≠ 0#32 ∧ buf dst < z
  · rw [if_pos hput, if_pos ⟨(hm.shown_eq bits i hi).mpr hput.1, hput.2⟩, hm.pixel_eq bits i hi]
  · rw [if_neg hput, if_neg (fun h => hput ⟨(hm.shown_eq bits i hi).mp h.1, h.2⟩),
      Function.update_eq_self]

theorem clippedPixels_eq {m : PixelMacro} {planes : Nat} {pos : Nat → Nat}
    (hm : m.Takes planes pos) {f : Int → PpuZbufType → PpuZbufType} (z : PpuZbufType) {n : Nat}
    (hn : n ≤ 8) {bits : BitVec 32} {dst : Int} (buf : Zbuf)
    (hf : ∀ j < n, f (dst + j) = mergePixel z (tilePixel bits (pos j) planes)) :
    clippedPixels m z n bits dst buf = paint f dst (dst + n) buf := by
  induction n generalizing bits dst buf with
  | zero => rw [clippedPixels, Int.natCast_zero, Int.add_zero, paint_empty]
  | succ n ih =>
      have hfirst := hf 0 (Nat.succ_pos n)
      rw [Int.natCast_zero, Int.add_zero] at hfirst
      rw [clippedPixels, putPixel_eq hm bits z (by omega), ← hfirst, ← paint_one,
        ih (by omega), paint_append f (by omega) (by omega), Int.natCast_add, Int.natCast_one,
        Int.add_assoc, Int.add_comm 1]
      intro j hj
      rw [hm.shift_eq bits 1 j (by omega), Nat.add_comm 1 j, ← hf (j + 1) (by omega),
        Int.natCast_add, Int.natCast_one, Int.add_assoc, Int.add_comm 1]

theorem tilePixels_eq {m : PixelMacro} {planes : Nat} {pos : Nat → Nat}
    (hm : m.Takes planes pos) {f : Int → PpuZbufType → PpuZbufType} (z : PpuZbufType)
    {bits : BitVec 32} {dst : Int} (buf : Zbuf) {n : Nat} (hn : n ≤ 8)
    (hf : ∀ j < n, f (dst + j) = mergePixel z (tilePixel bits (pos j) planes)) :
    tilePixels m bits z dst n buf = paint f dst (dst + n) buf := by
  induction n with
  | zero => rw [tilePixels, Int.natCast_zero, Int.add_zero, paint_empty]
  | succ n ih =>
      rw [tilePixels, ih (by omega) (fun j hj => hf j (by omega)), putPixel_eq hm bits z (by omega),
        ← hf n (Nat.lt_succ_self n), ← paint_one, paint_append f (by omega) (by omega),
        Int.natCast_add, Int.natCast_one, Int.add_assoc]

/-- An empty tile leaves its columns as they are. -/
theorem paint_empty_tile {f : Int → PpuZbufType → PpuZbufType} {z : PpuZbufType}
    {k : Nat → Nat} {planes n : Nat} {dst : Int} (buf : Zbuf)
    (hf : ∀ j < n, f (dst + j) = mergePixel z (tilePixel 0#32 (k j) planes)) :
    paint f dst (dst + n) buf = buf := by
  apply paint_id
  intro c hlo hhi
  have hj := hf (c - dst).toNat (by omega)
  rw [show dst + ((c - dst).toNat : Int) = c by omega] at hj
  rw [hj, tilePixel_zero, mergePixel_zero]

/-! ### A span -/

section
variable {d : TileDepth} {vram : Nat → Word} {row : BgRow} {zhi zlo : PpuZbufType}

/-- The pixel `x` of the row, out of the tile at its entry. -/
def rowPixel (d : TileDepth) (vram : Nat → Word) (row : BgRow) (zhi zlo : PpuZbufType) (x : Nat) :
    PpuZbufType → PpuZbufType :=
  let t := readTile d vram row zhi zlo (row.entry (x / 8))
  mergePixel t.z (tilePixel t.bits (tilePos t.hflip (x % 8)) d.planes)

/-- `f` draws the pixels of the row from `x` on at the columns from `dst` on. -/
def FollowsRow (d : TileDepth) (vram : Nat → Word) (row : BgRow) (zhi zlo : PpuZbufType)
    (f : Int → PpuZbufType → PpuZbufType) (x : Nat) (dst : Int) : Prop :=
  ∀ j : Nat, f (dst + j) = rowPixel d vram row zhi zlo (x + j)

variable {f : Int → PpuZbufType → PpuZbufType} {x w : Nat} {dst : Int}

theorem FollowsRow.add (h : FollowsRow d vram row zhi zlo f x dst) (k : Nat) :
    FollowsRow d vram row zhi zlo f (x + k) (dst + k) := by
  intro j
  rw [Int.add_assoc, ← Int.natCast_add, h (k + j), Nat.add_assoc]

/-- Within a tile the entry stays the same. -/
theorem FollowsRow.tile (h : FollowsRow d vram row zhi zlo f x dst) {t : TileRead}
    (ht : readTile d vram row zhi zlo (row.entry (x / 8)) = t) {j : Nat} (hj : x % 8 + j < 8) :
    f (dst + j) =
      mergePixel t.z (tilePixel t.bits (tilePos t.hflip (x % 8 + j)) d.planes) := by
  rw [h j, rowPixel, show (x + j) / 8 = x / 8 by omega, show (x + j) % 8 = x % 8 + j by omega, ht]

/-- A part of a tile, drawn from bits that are shifted to its first column. -/
theorem clippedTile_eq (h : FollowsRow d vram row zhi zlo f x dst) {t : TileRead}
    (ht : readTile d vram row zhi zlo (row.entry (x / 8)) = t) {n : Nat} (hn : x % 8 + n ≤ 8)
    {bits : BitVec 32} (hbits : ∀ j < n, tilePixel bits (tilePos t.hflip j) d.planes =
      tilePixel t.bits (tilePos t.hflip (x % 8 + j)) d.planes) (buf : Zbuf) :
    (if t.bits ≠ 0#32 then clippedPixels (d.macros t.hflip) t.z n bits dst buf else buf) =
      paint f dst (dst + n) buf := by
  by_cases hzero : t.bits = 0#32
  · have hempty : ∀ j : Nat, j < n → f (dst + j) =
        mergePixel t.z (tilePixel 0#32 (tilePos t.hflip (x % 8 + j)) d.planes) := by
      intro j hj
      rw [h.tile ht (by omega), hzero]
    rw [if_neg (not_not.mpr hzero), paint_empty_tile buf hempty]
  · rw [if_pos hzero]
    apply clippedPixels_eq (d.macros_takes t.hflip) t.z (by omega) buf
    intro j hj
    rw [h.tile ht (by omega), hbits j hj]

theorem leftPart_eq (h : FollowsRow d vram row zhi zlo f x dst) (buf : Zbuf) :
    ∃ k ≤ w, ∃ ptr, leftPart d vram row zhi zlo x ⟨w, dst, row.ptr (x / 8), buf⟩ =
        ⟨w - k, dst + k, ptr, paint f dst (dst + k) buf⟩ ∧
      (w - k ≠ 0 → (x + k) % 8 = 0 ∧ ptr = row.ptr ((x + k) / 8)) := by
  by_cases hclip : x % 8 ≠ 0
  · obtain ⟨k, hk⟩ : ∃ k, min (8 - x % 8) w = k := ⟨_, rfl⟩
    refine ⟨k, by omega, (row.ptr (x / 8)).nextTp, ?_, ?_⟩
    · obtain ⟨t, ht⟩ : ∃ t, readTile d vram row zhi zlo (row.ptr (x / 8)).tp = t := ⟨_, rfl⟩
      have htile := clippedTile_eq h ht (show x % 8 + k ≤ 8 by omega)
        (fun j hj => (d.macros_takes t.hflip).shift_eq t.bits (x % 8) j (by omega)) buf
      rw [leftPart, if_pos hclip]
      simp only [ht, hk]
      rw [htile]
    · intro hmore
      refine ⟨by omega, ?_⟩
      rw [BgRow.nextTp_ptr, show x / 8 + 1 = (x + k) / 8 by omega]
  · refine ⟨0, Nat.zero_le w, row.ptr (x / 8), ?_, ?_⟩
    · rw [leftPart, if_neg hclip, Int.natCast_zero, Int.add_zero, paint_empty]
      rfl
    · intro _
      exact ⟨by omega, rfl⟩

theorem fullTiles_eq (h : FollowsRow d vram row zhi zlo f x dst) (hx : x % 8 = 0) (buf : Zbuf) :
    ∃ k, k ≤ w ∧ k % 8 = 0 ∧ w - k < 8 ∧
      fullTiles d vram row zhi zlo w dst (row.ptr (x / 8)) buf =
        ⟨w - k, dst + k, row.ptr ((x + k) / 8), paint f dst (dst + k) buf⟩ := by
  induction w using Nat.strongRecOn generalizing x dst buf with
  | ind w ih =>
      rw [fullTiles]
      by_cases hw : 8 ≤ w
      · rw [if_pos hw]
        obtain ⟨t, ht⟩ : ∃ t, readTile d vram row zhi zlo (row.ptr (x / 8)).tp = t := ⟨_, rfl⟩
        have htile : (if t.bits ≠ 0#32 then
            tilePixels (d.macros t.hflip) t.bits t.z dst 8 buf else buf) =
              paint f dst (dst + (8 : Nat)) buf := by
          have hcol : ∀ j : Nat, j < 8 → f (dst + j) =
              mergePixel t.z (tilePixel t.bits (tilePos t.hflip j) d.planes) := by
            intro j hj
            rw [h.tile ht (by omega), hx, Nat.zero_add]
          by_cases hzero : t.bits = 0#32
          · rw [hzero] at hcol
            rw [if_neg (not_not.mpr hzero), paint_empty_tile buf hcol]
          · rw [if_pos hzero]
            exact tilePixels_eq (d.macros_takes t.hflip) t.z buf (le_refl 8) hcol
        simp only [ht]
        rw [htile, BgRow.nextTp_ptr, show x / 8 + 1 = (x + 8) / 8 by omega]
        obtain ⟨k, hk, hk8, hlast, hrun⟩ := ih (w - 8) (by omega) (h.add 8) (by omega)
          (paint f dst (dst + (8 : Nat)) buf)
        refine ⟨8 + k, by omega, by omega, by omega, ?_⟩
        change fullTiles d vram row zhi zlo (w - 8) (dst + (8 : Nat)) _ _ = _
        rw [hrun, paint_append f (by omega) (by omega), Int.natCast_add, Int.add_assoc,
          Nat.add_assoc, show w - 8 - k = w - (8 + k) by omega]
      · rw [if_neg hw]
        refine ⟨0, Nat.zero_le w, rfl, by omega, ?_⟩
        rw [Int.natCast_zero, Int.add_zero, paint_empty]
        rfl

theorem rightPart_eq (h : FollowsRow d vram row zhi zlo f x dst) (hx : x % 8 = 0) (hw : w < 8)
    (buf : Zbuf) :
    rightPart d vram row zhi zlo ⟨w, dst, row.ptr (x / 8), buf⟩ = paint f dst (dst + w) buf := by
  rw [rightPart]
  dsimp only
  by_cases hzero : w = 0
  · rw [if_neg (not_not.mpr hzero), hzero, Int.natCast_zero, Int.add_zero, paint_empty]
  · rw [if_pos hzero]
    apply clippedTile_eq h rfl (by omega) _ buf
    intro j _
    rw [hx, Nat.zero_add]
    rfl

/-- A span is painted with the pixels of the row, over any number of tiles and seams. -/
theorem drawSpan_eq (h : FollowsRow d vram row zhi zlo f x dst) (buf : Zbuf) :
    drawSpan d vram row zhi zlo x w dst buf = paint f dst (dst + w) buf := by
  obtain ⟨k, hk, ptr, hleft, hmore⟩ := leftPart_eq (w := w) h buf
  rw [drawSpan, BgRow.start_eq, hleft]
  dsimp only
  by_cases hdone : w - k = 0
  · rw [hdone, fullTiles, if_neg (by omega), rightPart, if_neg (not_not.mpr rfl),
      show k = w by omega]
  · obtain ⟨hx, rfl⟩ := hmore hdone
    obtain ⟨k', hk', hk8, hlast, hfull⟩ := fullTiles_eq (w := w - k) (h.add k) hx
      (paint f dst (dst + k) buf)
    rw [hfull, rightPart_eq ((h.add k).add k') (by omega) hlast,
      paint_append f (by omega) (by omega), paint_append f (by omega) (by omega),
      show dst + (k : Int) + k' + ((w - k - k' : Nat) : Int) = dst + w by omega]

end

/-! ### The windows of a line -/

/-- Spans of at least one column, between the ends of the buffers. -/
structure WindowsFit (win : PpuWindows) : Prop where
  increasing : Increasing win.edges win.nr
  first : -255 ≤ win.edges 0
  last : win.edges win.nr ≤ 511

theorem WindowsFit.edge_bounds {win : PpuWindows} (h : WindowsFit win) {k : Nat}
    (hk : k ≤ win.nr) : -255 ≤ win.edges k ∧ win.edges k ≤ 511 := by
  have hlo := h.increasing.le (Nat.zero_le k) hk
  have hhi := h.increasing.le hk (le_refl win.nr)
  exact ⟨le_trans h.first hlo, le_trans hhi h.last⟩

theorem ppuLayerExtra_le (ppu : PpuWindowRegs) (layer : Nat) (y : Int) (extra : Byte) :
    ppuLayerExtra ppu layer y extra.toNat ≤ 255 := by
  have hlt := extra.isLt
  rw [ppuLayerExtra]
  split
  · omega
  · split
    · omega
    · omega

theorem ppuWindowsClear_first (win : PpuWindows) (ppu : PpuWindowRegs) (layer : Nat) (y : Int) :
    (ppuWindowsClear win ppu layer y).edges 0 =
      -ppuLayerExtra ppu layer y ppu.extraLeftCur.toNat := by
  simp [ppuWindowsClear]

theorem ppuWindowsClear_last (win : PpuWindows) (ppu : PpuWindowRegs) (layer : Nat) (y : Int) :
    (ppuWindowsClear win ppu layer y).edges 1 =
      256 + ppuLayerExtra ppu layer y ppu.extraRightCur.toNat := by
  simp [ppuWindowsClear]

theorem bgWindows_fit (win : PpuWindows) (ppu : PpuBgRegs) (sub : Bool) (layer y : Nat) :
    ∃ w, bgWindows win ppu sub layer y = some w ∧ WindowsFit w := by
  have hl := ppuLayerExtra_nonneg ppu.toPpuWindowRegs layer y ppu.extraLeftCur
  have hr := ppuLayerExtra_nonneg ppu.toPpuWindowRegs layer y ppu.extraRightCur
  have hl' := ppuLayerExtra_le ppu.toPpuWindowRegs layer y ppu.extraLeftCur
  have hr' := ppuLayerExtra_le ppu.toPpuWindowRegs layer y ppu.extraRightCur
  rw [bgWindows]
  split
  · obtain ⟨w, hrun, _, _, hcuts, _⟩ := ppuWindowsCalc_cuts win ppu.toPpuWindowRegs layer y
    have hfirst := hcuts.first
    have hlast := hcuts.last
    exact ⟨w, hrun, hcuts.increasing, by omega, by omega⟩
  · refine ⟨_, rfl, ?_, ?_, ?_⟩
    · intro k hk
      have hzero : k = 0 := Nat.lt_one_iff.mp hk
      rw [hzero, ppuWindowsClear_first, ppuWindowsClear_last]
      omega
    · rw [ppuWindowsClear_first]
      omega
    · change (ppuWindowsClear win ppu.toPpuWindowRegs layer y).edges 1 ≤ 511
      rw [ppuWindowsClear_last]
      omega

theorem splitWindows_fit (ppu : PpuBgRegs) (layer y : Nat) {win : PpuWindows}
    (h : WindowsFit win) : WindowsFit (splitWindows ppu layer y win).1 := by
  rw [splitWindows]
  split
  · rename_i hsplit
    have hheight : ppu.wsHudSplitHeight ≠ 0 := by
      intro hzero
      have hlt := hsplit.2.1
      rw [hzero] at hlt
      exact absurd hlt (Nat.not_lt_zero y)
    obtain ⟨hpos, hlt⟩ := ppu.hudOrdered hheight
    have hl := ppu.extraLeftCur.isLt
    have hr := ppu.extraRightCur.isLt
    have hs := ppu.wsHudRightStart.isLt
    have hl0 : 0 < ppu.extraLeftCur.toNat :=
      Nat.pos_of_ne_zero (fun hz => hsplit.2.2.1 (BitVec.eq_of_toNat_eq hz))
    have hr0 : 0 < ppu.extraRightCur.toNat :=
      Nat.pos_of_ne_zero (fun hz => hsplit.2.2.2.1 (BitVec.eq_of_toNat_eq hz))
    refine ⟨?_, ?_, ?_⟩
    · intro k hk
      have hcases : k = 0 ∨ k = 1 ∨ k = 2 ∨ k = 3 ∨ k = 4 := by
        change k < 5 at hk
        omega
      rcases hcases with rfl | rfl | rfl | rfl | rfl <;> simp only [hudWindows] <;> omega
    · simp only [hudWindows]
      omega
    · simp only [hudWindows]
      omega
  · exact h

/-! ### A line -/

/-- `buf'` has `f k` on the columns of every drawn span `k`, and `buf` everywhere else. -/
structure DrawsWindows (win : PpuWindows) (f : Nat → Int → PpuZbufType → PpuZbufType)
    (buf buf' : Zbuf) : Prop where
  drawn : ∀ k < win.nr, win.bits.getLsbD k = false → ∀ c, win.edges k ≤ c →
    c < win.edges (k + 1) → buf' c = f k c (buf c)
  kept : ∀ c, (∀ k < win.nr, win.bits.getLsbD k = false →
    ¬(win.edges k ≤ c ∧ c < win.edges (k + 1))) → buf' c = buf c

theorem overSpans_draws {win : PpuWindows} (hinc : Increasing win.edges win.nr)
    {f : Nat → Int → PpuZbufType → PpuZbufType} {draw : Nat → Zbuf → Zbuf}
    (hdraw : ∀ k < win.nr, ∀ buf,
      draw k buf = paint (f k) (win.edges k) (win.edges (k + 1)) buf) (buf : Zbuf) :
    DrawsWindows win f buf (overSpans win.bits draw win.nr buf) := by
  have hstep : ∀ n ≤ win.nr,
      (∀ k < n, win.bits.getLsbD k = false → ∀ c, win.edges k ≤ c → c < win.edges (k + 1) →
        overSpans win.bits draw n buf c = f k c (buf c)) ∧
      ∀ c, (∀ k < n, win.bits.getLsbD k = false →
        ¬(win.edges k ≤ c ∧ c < win.edges (k + 1))) → overSpans win.bits draw n buf c = buf c := by
    intro n
    induction n with
    | zero => exact fun _ => ⟨fun k hk => absurd hk (Nat.not_lt_zero k), fun _ _ => rfl⟩
    | succ n ih =>
        intro hn
        obtain ⟨hdrawn, hkept⟩ := ih (by omega)
        rw [overSpans]
        by_cases hbit : win.bits.getLsbD n = true
        · rw [if_pos hbit]
          refine ⟨fun k hk hk0 => ?_, fun c hc => hkept c (fun k hk => hc k (by omega))⟩
          have hne : k ≠ n := by
            rintro rfl
            rw [hbit] at hk0
            cases hk0
          exact hdrawn k (by omega) hk0
        · rw [if_neg hbit, hdraw n (by omega)]
          refine ⟨fun k hk hk0 c hlo hhi => ?_, fun c hc => ?_⟩
          · by_cases hkn : k = n
            · rw [hkn] at hlo hhi ⊢
              rw [paint_of_mem _ ⟨hlo, hhi⟩, hkept c]
              intro j hj _ hin
              exact absurd (hinc.span_unique (by omega) (by omega) hin ⟨hlo, hhi⟩) (by omega)
            · rw [paint_of_notMem, hdrawn k (by omega) hk0 c hlo hhi]
              intro hin
              exact hkn (hinc.span_unique (by omega) (by omega) ⟨hlo, hhi⟩ hin)
          · rw [paint_of_notMem _ (hc n (Nat.lt_succ_self n) (Bool.eq_false_iff.mpr hbit)),
              hkept c (fun k hk => hc k (by omega))]
  exact ⟨(hstep win.nr (le_refl _)).1, (hstep win.nr (le_refl _)).2⟩

/-- The pixel of a column: that of the background `scroll` columns and `vScroll` lines on. -/
def columnPixel (d : TileDepth) (ppu : PpuBgRegs) (layer y : Nat) (zhi zlo : PpuZbufType)
    (bias : Nat → Int) (k : Nat) (c : Int) : PpuZbufType → PpuZbufType :=
  bgPixel d ppu layer zhi zlo (c + (ppu.hScroll layer).toNat + bias k)
    (y + (ppu.vScroll layer).toNat)

theorem drawSpans_draws (d : TileDepth) (ppu : PpuBgRegs) (layer y : Nat)
    (zhi zlo : PpuZbufType) {win : PpuWindows} (hwin : WindowsFit win) (bias : Nat → Int)
    (buf : Zbuf) :
    DrawsWindows win (columnPixel d ppu layer y zhi zlo bias) buf
      (drawSpans d ppu layer y zhi zlo win bias buf) := by
  apply overSpans_draws hwin.increasing
  intro k hk buf
  have hlt := hwin.increasing k hk
  have hlo := hwin.edge_bounds (show k ≤ win.nr by omega)
  have hhi := hwin.edge_bounds (show k + 1 ≤ win.nr by omega)
  have hfollows : FollowsRow d ppu.vram (bgRow ppu layer (y + (ppu.vScroll layer).toNat)) zhi zlo
      (columnPixel d ppu layer y zhi zlo bias k)
      (toUint (win.edges k + (ppu.hScroll layer).toNat + bias k)) (win.edges k) := by
    intro j
    refine bgPixel_eq d ppu layer _ zhi zlo ?_ rfl
    rw [toUint]
    omega
  rw [drawSpan_eq hfollows, show win.edges k +
    (toUint (win.edges (k + 1) - win.edges k) : Int) = win.edges (k + 1) by
      rw [toUint]
      omega]

end SnesRecomp
