import SnesRecomp.Devices.PpuBackground
import Mathlib.Tactic.IntervalCases

/-!
# Background lines with mosaic

The mosaic renderers of `ppu.c` draw a span in blocks of one pixel each.  The first block ends
where the next multiple of the size lies, and its width comes from `mosaicModulo`, a table for
the columns 0 to 255; a span of the right margin starts at column 256.  The tile pointer goes to
the other half of the tilemap at the end of the first half and is not told that the other half
ends.  `backgroundLine_iff` says for which spans that matters.
-/

namespace SnesRecomp

open Columns Spans PpuBgRegs

/-! ### The source -/

def mosaicSize (ppu : PpuBgRegs) : Int := (ppu.mosaic >>> 4).toNat + 1

def ppuMosaicAt (ppu : PpuBgRegs) (i : Int) : Int :=
  (ppu.mosaicModulo (if 0 ≤ i ∧ i < 256 then i.toNat else if i < 0 then 0 else 255)).toNat

/-- `w` before the first turn. -/
def firstWidth (ppu : PpuBgRegs) (sx : Int) : Int := mosaicSize ppu - (sx - ppuMosaicAt ppu sx)

/-- The table that `ppu_runLine` makes for a size, from entry `i` with the counter at `j`. -/
def fillMosaicModulo (mod : Nat) : Nat → Nat → Nat → (Nat → Byte) → Nat → Byte
  | 0, _, _, table => table
  | left + 1, i, j, table =>
    fillMosaicModulo mod left (i + 1) (if j + 1 = mod then 0 else j + 1)
      (Function.update table i (BitVec.ofNat 8 (i - j)))

/-- The length of the table; irreducible, or the loop is unrolled when a table is compared. -/
@[irreducible] def kPpuXPixels : Nat := 256

/-- `mosaicModulo` after `ppu_runLine` has seen the size. -/
def mosaicTable (mod : Nat) : Nat → Byte := fillMosaicModulo mod kPpuXPixels 0 0 (fun _ => 0)

def fillPixels (put : PpuZbufType → PpuZbufType) : Nat → Int → Zbuf → Zbuf
  | 0, _, buf => buf
  | w + 1, dst, buf => fillPixels put w (dst + 1) (Function.update buf dst (put (buf dst)))

/-- `i = 0; do … while (++i != w);`, which without a column runs out of the buffer. -/
def fillBlock (put : PpuZbufType → PpuZbufType) (dst w : Int) (buf : Zbuf) : Option Zbuf :=
  if 1 ≤ w then some (fillPixels put w.toNat dst buf) else none

/-- `tp` and `x` of the tile renderers. -/
structure MosaicState where
  tp : Nat
  x : Nat

/-- `for (; x >= 8; x -= 8) tp = (tp != tp_last) ? tp + 1 : tp_next;`. -/
def advanceTp (tpLast tpNext : Nat) (x tp : Nat) : MosaicState :=
  if 8 ≤ x then advanceTp tpLast tpNext (x - 8) (if tp ≠ tpLast then tp + 1 else tpNext)
  else { tp := tp, x := x }
  termination_by x
  decreasing_by omega

def mosaicNext (tpLast tpNext : Nat) (s : MosaicState) (w : Int) : MosaicState :=
  advanceTp tpLast tpNext (toUint (s.x + w)) s.tp

def mosaicBlock (d : TileDepth) (vram : Nat → Word) (row : BgRow) (zhi zlo : PpuZbufType)
    (s : MosaicState) (dst w : Int) (buf : Zbuf) : Option Zbuf :=
  let tile := vram s.tp
  let ta := if tile.getLsbD 15 then row.tileadr1 else row.tileadr0
  let z := if tile.getLsbD 13 then zhi else zlo
  let m := d.macros (tile.getLsbD 14)
  let pixel := m.pixel (m.shift (d.readBits vram ta (tile.toNat % 0x400)) s.x) 0
  if pixel ≠ 0#32 then
    let pixel := pixel.setWidth 16 + ((tile &&& 0x1c00) >>> d.kPaletteShift)
    fillBlock (fun old => if old < z then pixel + z else old) dst w buf
  else some buf

/-- The body of the loop over the windows. -/
def mosaicSpan (d : TileDepth) (ppu : PpuBgRegs) (layer y : Nat) (zhi zlo : PpuZbufType)
    (fuel : Nat) (sx last : Int) (buf : Zbuf) : Option (List (Block MosaicState) × Zbuf) :=
  let row := bgRow ppu layer y
  let x := toUint (sx + (ppu.hScroll layer).toNat)
  blocks (mosaicBlock d ppu.vram row zhi zlo) (mosaicNext (row.start x).tpLast (row.start x).tpNext)
    (mosaicSize ppu) last fuel (firstWidth ppu sx) sx { tp := (row.start x).tp, x := x % 8 } buf

/-- The loop over the windows; a block is kept with its window. -/
def overBlocks {σ : Type} (win : PpuWindows) (span : Nat → Zbuf → Option (List (Block σ) × Zbuf))
    (n : Nat) (buf : Zbuf) : Option (List (Nat × Block σ) × Zbuf) :=
  overSpans win.bits (fun windex r => r.bind fun p =>
    (span windex p.2).map fun q => (p.1 ++ q.1.map (Prod.mk windex), q.2)) n (some ([], buf))

/-- Both tile renderers. -/
def ppuDrawBackgroundMosaic (d : TileDepth) (fuel : Nat) (win : PpuWindows) (ppu : PpuBgRegs)
    (y : Nat) (sub : Bool) (layer : Nat) (zhi zlo : PpuZbufType) (buf : Zbuf) :
    Option (List (Nat × Block MosaicState) × Zbuf) := do
  if ppu.isScreenEnabled layer sub = false then return ([], buf)
  let win ← bgWindows win ppu sub layer y
  let y := (ppu.mosaicModulo y).toNat + (ppu.vScroll layer).toNat
  overBlocks win (fun k => mosaicSpan d ppu layer y zhi zlo fuel (win.edges k) (win.edges (k + 1)))
    win.nr buf

def ppuDrawBackground4bppMosaic := ppuDrawBackgroundMosaic depth4bpp

def ppuDrawBackground2bppMosaic := ppuDrawBackgroundMosaic depth2bpp

/-! ### Mode 7 -/

/-- `xpos` and `ypos`. -/
structure Mode7State where
  xpos : BitVec 32
  ypos : BitVec 32

namespace Mode7

variable (ppu : PpuBgRegs)

/-- `m7matrix[i]` as an `int`. -/
def m7 (i : Nat) : BitVec 32 := (ppu.m7matrix i).signExtend 32

/-- `((int16_t)(m7matrix[i] << 3)) >> 3`. -/
def m7Signed13 (i : Nat) : BitVec 32 := ((ppu.m7matrix i <<< 3).sshiftRight 3).signExtend 32

def m7Clip (v : BitVec 32) : BitVec 32 :=
  if v &&& 0x2000 ≠ 0 then v ||| ~~~1023#32 else v &&& 1023

def m7xFlip : Bool := ppu.m7sel.getLsbD 0
def m7yFlip : Bool := ppu.m7sel.getLsbD 1
def m7charFill : Bool := ppu.m7sel.getLsbD 6
def m7largeField : Bool := ppu.m7sel.getLsbD 7
def mosaicEnabled0 : Bool := ppu.mosaic.getLsbD 0

def m7outsideValue : BitVec 32 := if m7largeField ppu then 0x3ffff else 0xffffffff

/-- `m7startX` and `m7startY`; `a` and `b` are the two entries of the row. -/
def m7start (a b center : BitVec 32) (ry : BitVec 32) : BitVec 32 :=
  (a * m7Clip (m7Signed13 ppu 6 - m7Signed13 ppu 4) &&& ~~~63#32) + (b * ry &&& ~~~63#32) +
    (b * m7Clip (m7Signed13 ppu 7 - m7Signed13 ppu 5) &&& ~~~63#32) + (center <<< 8)

/-- The line, through the mosaic and the flip. -/
def m7ry (y : Nat) : BitVec 32 :=
  let y := BitVec.ofNat 32 (if mosaicEnabled0 ppu then (ppu.mosaicModulo y).toNat else y)
  if m7yFlip ppu then 255 - y else y

/-- `xpos` and `ypos` at the first column of a span. -/
def m7enter (y : Nat) (x : Int) : Mode7State :=
  let rx := if m7xFlip ppu then 255 - BitVec.ofInt 32 x else BitVec.ofInt 32 x
  { xpos := m7start ppu (m7 ppu 0) (m7 ppu 1) (m7Signed13 ppu 4) (m7ry ppu y) + m7 ppu 0 * rx
    ypos := m7start ppu (m7 ppu 2) (m7 ppu 3) (m7Signed13 ppu 5) (m7ry ppu y) + m7 ppu 2 * rx }

def m7next (s : Mode7State) (w : Int) : Mode7State where
  xpos := s.xpos + (if m7xFlip ppu then -m7 ppu 0 else m7 ppu 0) * BitVec.ofInt 32 w
  ypos := s.ypos + (if m7xFlip ppu then -m7 ppu 2 else m7 ppu 2) * BitVec.ofInt 32 w

/-- `vram[tile * 64 + …] >> 8`. -/
def m7pixel (s : Mode7State) (tile : Nat) : Word :=
  ppu.vram (tile * 64 + ((s.ypos >>> 8) &&& 7).toNat * 8 + ((s.xpos >>> 8) &&& 7).toNat) >>> 8

def m7draw (z : PpuZbufType) (pixel : Word) (dst w : Int) (buf : Zbuf) : Option Zbuf :=
  if pixel ≠ 0#16 then fillBlock (fun _ => pixel + z) dst w buf else some buf

def m7block (z : PpuZbufType) (s : Mode7State) (dst w : Int) (buf : Zbuf) : Option Zbuf :=
  if m7outsideValue ppu < s.xpos ||| s.ypos then
    if m7charFill ppu then m7draw z (m7pixel ppu s 0) dst w buf else some buf
  else
    let entry := ((s.ypos >>> 11) &&& 0x7f).toNat * 128 + ((s.xpos >>> 11) &&& 0x7f).toNat
    m7draw z (m7pixel ppu s (ppu.vram entry &&& 0xff).toNat) dst w buf

/-- Without mosaic every turn of the loop is one column. -/
def m7size : Int := if mosaicEnabled0 ppu then mosaicSize ppu else 1

/-- The width before the first turn. -/
def m7first (x : Int) : Int := if mosaicEnabled0 ppu then firstWidth ppu x else 1

def m7span (y : Nat) (z : PpuZbufType) (fuel : Nat) (x x2 : Int) (buf : Zbuf) :
    Option (List (Block Mode7State) × Zbuf) :=
  blocks (m7block ppu z) (m7next ppu) (m7size ppu) x2 fuel (m7first ppu x) x (m7enter ppu y x) buf

end Mode7

def ppuDrawBackgroundMode7 (fuel : Nat) (win : PpuWindows) (ppu : PpuBgRegs) (y : Nat)
    (sub : Bool) (z : PpuZbufType) (buf : Zbuf) :
    Option (List (Nat × Block Mode7State) × Zbuf) := do
  if ppu.isScreenEnabled 0 sub = false then return ([], buf)
  let win ← bgWindows win ppu sub 0 y
  overBlocks win (fun k => Mode7.m7span ppu y z fuel (win.edges k) (win.edges (k + 1))) win.nr buf

/-! ### The first width -/

theorem mosaicSize_pos (ppu : PpuBgRegs) : 1 ≤ mosaicSize ppu := by
  rw [mosaicSize]
  omega

theorem mosaicSize_le (ppu : PpuBgRegs) : mosaicSize ppu ≤ 16 := by
  have hlt := ppu.mosaic.isLt
  rw [mosaicSize, BitVec.toNat_ushiftRight, Nat.shiftRight_eq_div_pow]
  omega

theorem fillMosaicModulo_apply {mod left i j : Nat} (hmod : 0 < mod) (hj : j = i % mod)
    (hi : i + left ≤ 256) (table : Nat → Byte) (k : Nat) :
    fillMosaicModulo mod left i j table k =
      if i ≤ k ∧ k < i + left then BitVec.ofNat 8 (k - k % mod) else table k := by
  induction left generalizing i j table with
  | zero => rw [fillMosaicModulo, if_neg (by omega)]
  | succ left ih =>
      have hnext : (if j + 1 = mod then 0 else j + 1) = (i + 1) % mod := by
        have hlt := Nat.mod_lt i hmod
        rw [Nat.add_mod, ← hj]
        split
        · rename_i hwrap
          by_cases hone : mod = 1
          · rw [hone]
            omega
          · rw [Nat.mod_eq_of_lt (show 1 < mod by omega), hwrap, Nat.mod_self]
        · rw [Nat.mod_eq_of_lt (show 1 < mod by omega), Nat.mod_eq_of_lt (by omega)]
      rw [fillMosaicModulo, ih hnext (by omega)]
      by_cases hk : k = i
      · rw [hk, if_neg (by omega), if_pos (by omega), Function.update_self, hj]
      · rw [Function.update_of_ne hk]
        by_cases hin : i + 1 ≤ k ∧ k < i + 1 + left
        · rw [if_pos hin, if_pos (by omega)]
        · rw [if_neg hin, if_neg (by omega)]

theorem mosaicTable_toNat {mod : Nat} (hmod : 0 < mod) :
    ∀ i < 256, (mosaicTable mod i).toNat = i - i % mod := by
  have hlen : kPpuXPixels = 256 := by rw [kPpuXPixels]
  intro i hi
  rw [mosaicTable, fillMosaicModulo_apply hmod (Nat.zero_mod mod).symm (by omega),
    if_pos (by omega), BitVec.toNat_ofNat]
  omega

/-- With the table of the current size, the first block has a column unless the span starts
at column 256 and a block ends there. -/
theorem firstWidth_pos_iff {ppu : PpuBgRegs} {sx : Int} (hsx : sx ≤ 256)
    (htable : ∀ i < 256, (ppu.mosaicModulo i).toNat = i - i % (mosaicSize ppu).toNat) :
    1 ≤ firstWidth ppu sx ↔ ¬(sx = 256 ∧ 256 % (mosaicSize ppu).toNat = 0) := by
  have hpos := mosaicSize_pos ppu
  have hle := mosaicSize_le ppu
  obtain ⟨n, hn⟩ : ∃ n : Nat, mosaicSize ppu = n := ⟨(mosaicSize ppu).toNat, by omega⟩
  rw [hn, Int.toNat_natCast] at htable ⊢
  rw [firstWidth, hn, ppuMosaicAt]
  by_cases hin : 0 ≤ sx ∧ sx < 256
  · have hlt := Nat.mod_lt sx.toNat (show 0 < n by omega)
    rw [if_pos hin, htable _ (by omega)]
    omega
  · rw [if_neg hin]
    by_cases hneg : sx < 0
    · rw [if_pos hneg, htable 0 (by omega)]
      omega
    · rw [if_neg hneg, htable 255 (by omega)]
      have hn16 : n ≤ 16 := by omega
      have hn1 : 1 ≤ n := by omega
      interval_cases n <;> omega

/-! ### Drawing a block -/

theorem fillPixels_eq (put : PpuZbufType → PpuZbufType) (w : Nat) (dst : Int) (buf : Zbuf) :
    fillPixels put w dst buf = paint (fun _ => put) dst (dst + w) buf := by
  induction w generalizing dst buf with
  | zero => rw [fillPixels, Int.natCast_zero, Int.add_zero, paint_empty]
  | succ w ih =>
      rw [fillPixels, ← paint_one (fun _ => put), ih, paint_append _ (by omega) (by omega),
        Int.natCast_add, Int.natCast_one, Int.add_assoc, Int.add_comm 1]

theorem fillBlock_inside (put : PpuZbufType → PpuZbufType) {dst w : Int} (hw : 1 ≤ w)
    (buf : Zbuf) : ∃ buf', fillBlock put dst w buf = some buf' ∧
      ∀ c, ¬(dst ≤ c ∧ c < dst + w) → buf' c = buf c := by
  refine ⟨_, if_pos hw, fun c hc => ?_⟩
  rw [fillPixels_eq, paint_of_notMem]
  omega

/-- A block whose pixel is not shown draws nothing. -/
theorem shownBlock_inside {p : Prop} [Decidable p] (put : PpuZbufType → PpuZbufType)
    {dst w : Int} (hw : 1 ≤ w) (buf : Zbuf) :
    ∃ buf', (if p then fillBlock put dst w buf else some buf) = some buf' ∧
      ∀ c, ¬(dst ≤ c ∧ c < dst + w) → buf' c = buf c := by
  split
  · exact fillBlock_inside put hw buf
  · exact ⟨buf, rfl, fun _ _ => rfl⟩

theorem mosaicBlock_inside (d : TileDepth) (vram : Nat → Word) (row : BgRow)
    (zhi zlo : PpuZbufType) : DrawsInside (mosaicBlock d vram row zhi zlo) := by
  intro s dst w buf hw
  exact shownBlock_inside _ hw buf

theorem m7block_inside (ppu : PpuBgRegs) (z : PpuZbufType) :
    DrawsInside (Mode7.m7block ppu z) := by
  intro s dst w buf hw
  rw [Mode7.m7block]
  by_cases hout : Mode7.m7outsideValue ppu < s.xpos ||| s.ypos
  · rw [if_pos hout]
    by_cases hfill : Mode7.m7charFill ppu = true
    · rw [if_pos hfill]
      exact shownBlock_inside _ hw buf
    · rw [if_neg hfill]
      exact ⟨buf, rfl, fun _ _ => rfl⟩
  · rw [if_neg hout]
    exact shownBlock_inside _ hw buf

/-! ### The walk of the tile pointer -/

/-- Where `tp` is `n` tiles into a row that begins in the half at `a`; `b` is the other half. -/
def walk (a b n : Nat) : Nat :=
  if a = b then a + n % 32 else if n < 32 then a + n else b + (n - 32)

/-- Two halves that are the same or a screen apart. -/
def Halves (a b : Nat) : Prop :=
  a = b ∨ a + 0x400 = b ∨ b + 0x400 = a ∨ a + 0x7c00 = b ∨ b + 0x7c00 = a

theorem walk_succ {a b n : Nat} (h : Halves a b) (hn : n < 1000) :
    (if walk a b n ≠ a + 31 then walk a b n + 1 else b) = walk a b (n + 1) := by
  rw [Halves] at h
  by_cases hab : a = b
  · rw [walk, walk, if_pos hab, if_pos hab]
    split <;> omega
  · rw [walk, walk, if_neg hab, if_neg hab]
    split <;> split <;> split <;> omega

theorem advanceTp_walk {a b : Nat} (h : Halves a b) {x n : Nat} (hn : n + x / 8 < 1000) :
    advanceTp (a + 31) b x (walk a b n) = { tp := walk a b (n + x / 8), x := x % 8 } := by
  induction x using Nat.strongRecOn generalizing n with
  | ind x ih =>
      rw [advanceTp]
      by_cases hx : 8 ≤ x
      · rw [if_pos hx, walk_succ h (by omega), ih (x - 8) (by omega) (by omega),
          show n + 1 + (x - 8) / 8 = n + x / 8 by omega, show (x - 8) % 8 = x % 8 by omega]
      · rw [if_neg hx, show n + x / 8 = n by omega, Nat.mod_eq_of_lt (by omega)]

theorem bgRow_halves (ppu : PpuBgRegs) (layer y : Nat) {i : Nat} (hi : i < 2) :
    Halves ((bgRow ppu layer y).tps i) ((bgRow ppu layer y).tps ((i + 1) % 2)) ∧
      ((bgRow ppu layer y).tps i = (bgRow ppu layer y).tps ((i + 1) % 2) ↔
        ppu.bgTilemapWider layer = false) := by
  have hcases : i = 0 ∨ i = 1 := by omega
  simp only [Halves, bgRow]
  generalize ppu.bgTilemapAdr layer + y / 8 % 32 * 32 + _ = offs
  cases ppu.bgTilemapWider layer with
  | false => rcases hcases with rfl | rfl <;> simp
  | true => rcases hcases with rfl | rfl <;> simp <;> omega

/-- The walk is at the entry of the row as long as it does not come back to the first half. -/
theorem walk_eq_entry_iff (ppu : PpuBgRegs) (layer y : Nat) {x j : Nat} (hj : j < 1000) :
    walk ((bgRow ppu layer y).tps (x / 256 % 2)) ((bgRow ppu layer y).tps ((x / 256 + 1) % 2))
        ((x % 256 + j) / 8) = (bgRow ppu layer y).entry ((x + j) / 8) ↔
      ppu.bgTilemapWider layer = false ∨ x % 256 + j < 512 := by
  obtain ⟨hhalves, hsame⟩ := bgRow_halves ppu layer y (show x / 256 % 2 < 2 by omega)
  rw [show (x / 256 % 2 + 1) % 2 = (x / 256 + 1) % 2 by omega] at hhalves hsame
  rw [BgRow.entry, ← hsame]
  have hmod : (x + j) / 8 % 32 = (x % 256 + j) / 8 % 32 := by omega
  have hhalf : (x + j) / 8 / 32 % 2 = x / 256 % 2 ∧ (x % 256 + j) / 256 % 2 = 0 ∨
      (x + j) / 8 / 32 % 2 = (x / 256 + 1) % 2 ∧ (x % 256 + j) / 256 % 2 = 1 := by omega
  rw [hmod, Halves] at *
  obtain ⟨n, hn⟩ : ∃ n, (x % 256 + j) / 8 = n := ⟨_, rfl⟩
  obtain ⟨a, ha⟩ : ∃ a, (bgRow ppu layer y).tps (x / 256 % 2) = a := ⟨_, rfl⟩
  obtain ⟨b, hb⟩ : ∃ b, (bgRow ppu layer y).tps ((x / 256 + 1) % 2) = b := ⟨_, rfl⟩
  rw [ha, hb] at hhalves ⊢
  rw [hn, walk]
  by_cases hab : a = b
  · rcases hhalf with ⟨hpos, _⟩ | ⟨hpos, _⟩
    · rw [hpos, ha, if_pos hab]
      omega
    · rw [hpos, hb, if_pos hab]
      omega
  · rw [if_neg hab]
    rcases hhalf with ⟨hpos, hat⟩ | ⟨hpos, hat⟩
    · rw [hpos, ha]
      split <;> omega
    · rw [hpos, hb]
      split <;> omega

/-! ### The blocks of a span -/

/-- `tp` and `x` at column `c` of a span that begins at `sx`. -/
def mosaicStateAt (row : BgRow) (x : Nat) (sx c : Int) : MosaicState where
  tp := walk (row.tps (x / 256 % 2)) (row.tps ((x / 256 + 1) % 2)) ((x % 256 + (c - sx).toNat) / 8)
  x := (x % 256 + (c - sx).toNat) % 8

/-- The `x` of a span. -/
def spanX (ppu : PpuBgRegs) (layer : Nat) (sx : Int) : Nat :=
  toUint (sx + (ppu.hScroll layer).toNat)

theorem mosaicStateAt_start (row : BgRow) (x : Nat) (sx : Int) :
    mosaicStateAt row x sx sx = { tp := (row.start x).tp, x := x % 8 } := by
  simp only [mosaicStateAt, Int.sub_self, Int.toNat_zero, Nat.add_zero, walk, BgRow.start]
  rw [show x % 256 / 8 = x / 8 % 32 by omega, show x % 256 % 8 = x % 8 by omega, Nat.mod_mod]
  split
  · rfl
  · rw [if_pos (Nat.mod_lt _ (by omega))]

theorem mosaicNext_stateAt (ppu : PpuBgRegs) (layer y x : Nat) {sx last c w : Int}
    (hlast : last - sx ≤ 766) (hc : sx ≤ c) (hw : 1 ≤ w) (hcw : c + w ≤ last) :
    mosaicNext ((bgRow ppu layer y).start x).tpLast ((bgRow ppu layer y).start x).tpNext
        (mosaicStateAt (bgRow ppu layer y) x sx c) w =
      mosaicStateAt (bgRow ppu layer y) x sx (c + w) := by
  have hhalves := (bgRow_halves ppu layer y (show x / 256 % 2 < 2 by omega)).1
  rw [show (x / 256 % 2 + 1) % 2 = (x / 256 + 1) % 2 by omega] at hhalves
  obtain ⟨j, hj⟩ : ∃ j, x % 256 + (c - sx).toNat = j := ⟨_, rfl⟩
  have huint : toUint (((j % 8 : Nat) : Int) + w) = j % 8 + w.toNat := by
    rw [toUint]
    omega
  rw [mosaicNext, mosaicStateAt, mosaicStateAt, hj]
  dsimp only
  rw [huint]
  change advanceTp ((bgRow ppu layer y).tps (x / 256 % 2) + 31) _ _ _ = _
  rw [BgRow.start, advanceTp_walk hhalves (by omega),
    show x % 256 + (c + w - sx).toNat = j + w.toNat by omega,
    show j / 8 + (j % 8 + w.toNat) / 8 = (j + w.toNat) / 8 by omega,
    show (j % 8 + w.toNat) % 8 = (j + w.toNat) % 8 by omega]

theorem mosaicSpan_cut (d : TileDepth) (ppu : PpuBgRegs) (layer y : Nat) (zhi zlo : PpuZbufType)
    {sx last : Int} (hspan : sx < last) (hlast : last - sx ≤ 766)
    (hfirst : 1 ≤ firstWidth ppu sx) (buf : Zbuf) :
    ∃ bs buf', mosaicSpan d ppu layer y zhi zlo 766 sx last buf = some (bs, buf') ∧
      Cut sx (firstWidth ppu sx) (mosaicSize ppu) last
        (mosaicStateAt (bgRow ppu layer y) (spanX ppu layer sx) sx) buf bs buf' := by
  have hrun := blocks_spec 766
    (mosaicBlock_inside d ppu.vram (bgRow ppu layer y) zhi zlo) (mosaicSize_pos ppu) buf hfirst
    (le_refl sx) hspan (by omega)
    (fun c w hc hw hcw => mosaicNext_stateAt ppu layer y (spanX ppu layer sx) hlast hc hw hcw)
  rw [mosaicStateAt_start] at hrun
  exact hrun

/-- The tile entry that is read for a block is the one of its first column. -/
def ReadsOwnTile (ppu : PpuBgRegs) (layer y : Nat) (b : Block MosaicState) : Prop :=
  b.state.tp = mapEntry ppu layer (b.start + (ppu.hScroll layer).toNat) y

/-- A block of at least one column in span `k`. -/
def BlockFits {σ : Type} (win : PpuWindows) (k : Nat) (b : Block σ) : Prop :=
  win.edges k ≤ b.start ∧ 1 ≤ b.width ∧ b.start + b.width ≤ win.edges (k + 1)

/-- No block of the span begins 512 columns or more after the half it starts in. -/
def StaysInMap (ppu : PpuBgRegs) (layer : Nat) (sx last : Int) : Prop :=
  ppu.bgTilemapWider layer = false ∨
    ∀ c, IsStart sx (firstWidth ppu sx) (mosaicSize ppu) c → c < last →
      (sx + (ppu.hScroll layer).toNat) % 256 + (c - sx) < 512

/-- The columns of a block with the first column `c` in the row of the tilemap. -/
theorem mosaicStateAt_tp_iff (ppu : PpuBgRegs) (layer y : Nat) {sx c : Int} (hc : sx ≤ c)
    (hlt : c - sx < 766) :
    (mosaicStateAt (bgRow ppu layer y) (spanX ppu layer sx) sx c).tp =
        mapEntry ppu layer (c + (ppu.hScroll layer).toNat) y ↔
      ppu.bgTilemapWider layer = false ∨
        (sx + (ppu.hScroll layer).toNat) % 256 + (c - sx) < 512 := by
  have hx : (c + (ppu.hScroll layer).toNat) % 512 =
      ((spanX ppu layer sx + (c - sx).toNat : Nat) : Int) % 512 := by
    rw [spanX, toUint]
    omega
  rw [mapEntry_eq ppu layer y hx, mosaicStateAt]
  dsimp only
  rw [walk_eq_entry_iff ppu layer y (by omega)]
  have hpos : ((spanX ppu layer sx % 256 : Nat) : Int) =
      (sx + (ppu.hScroll layer).toNat) % 256 := by
    rw [spanX, toUint]
    omega
  exact or_congr Iff.rfl (by omega)

/-- A span with both conditions is drawn in blocks that fit and read their own tiles. -/
theorem mosaicSpan_fits (d : TileDepth) (ppu : PpuBgRegs) (layer y : Nat)
    (zhi zlo : PpuZbufType) {win : PpuWindows} (hwin : WindowsFit win) {k : Nat} (hk : k < win.nr)
    (hfirst : 1 ≤ firstWidth ppu (win.edges k))
    (hmap : StaysInMap ppu layer (win.edges k) (win.edges (k + 1))) (buf : Zbuf) :
    ∃ r, mosaicSpan d ppu layer y zhi zlo 766 (win.edges k) (win.edges (k + 1)) buf = some r ∧
      (∀ b ∈ r.1, BlockFits win k b ∧ ReadsOwnTile ppu layer y b) ∧
      ∀ c, ¬(win.edges k ≤ c ∧ c < win.edges (k + 1)) → r.2 c = buf c := by
  have hspan := hwin.increasing k hk
  have hlo := hwin.edge_bounds (show k ≤ win.nr by omega)
  have hhi := hwin.edge_bounds (show k + 1 ≤ win.nr by omega)
  obtain ⟨bs, buf', hrun, hcut⟩ := mosaicSpan_cut d ppu layer y zhi zlo hspan (by omega) hfirst buf
  refine ⟨(bs, buf'), hrun, fun b hb => ?_, hcut.outside⟩
  have hin := hcut.inside b hb
  refine ⟨hin, ?_⟩
  rw [ReadsOwnTile, hcut.state b hb, mosaicStateAt_tp_iff ppu layer y hin.1 (by omega)]
  rcases hmap with hmap | hmap
  · exact .inl hmap
  · exact .inr (hmap _ (hcut.isStart b hb) (by omega))

/-- A span without one of the conditions, if it is drawn at all, has a block that does not. -/
theorem mosaicSpan_not_fits (d : TileDepth) (ppu : PpuBgRegs) (layer y : Nat)
    (zhi zlo : PpuZbufType) {win : PpuWindows} (hwin : WindowsFit win) {k : Nat} (hk : k < win.nr)
    (hbad : ¬(1 ≤ firstWidth ppu (win.edges k) ∧
      StaysInMap ppu layer (win.edges k) (win.edges (k + 1)))) {fuel : Nat} {buf : Zbuf}
    {r : List (Block MosaicState) × Zbuf}
    (hrun : mosaicSpan d ppu layer y zhi zlo fuel (win.edges k) (win.edges (k + 1)) buf = some r) :
    ∃ b ∈ r.1, ¬(BlockFits win k b ∧ ReadsOwnTile ppu layer y b) := by
  have hspan := hwin.increasing k hk
  have hlo := hwin.edge_bounds (show k ≤ win.nr by omega)
  have hhi := hwin.edge_bounds (show k + 1 ≤ win.nr by omega)
  by_cases hfirst : 1 ≤ firstWidth ppu (win.edges k)
  · -- the first block has columns, so the run is the one that `mosaicSpan_cut` describes
    have hmap : ¬StaysInMap ppu layer (win.edges k) (win.edges (k + 1)) :=
      fun hmap => hbad ⟨hfirst, hmap⟩
    rw [StaysInMap, not_or, not_forall] at hmap
    obtain ⟨hwide, c, hc⟩ := hmap
    rw [Classical.not_imp, Classical.not_imp] at hc
    obtain ⟨hstart, hlt, hfar⟩ := hc
    obtain ⟨bs, buf', hrun', hcut⟩ :=
      mosaicSpan_cut d ppu layer y zhi zlo hspan (by omega) hfirst buf
    have heq : r = (bs, buf') := by
      have h1 := blocks_mono (le_max_left fuel 766) hrun
      have h2 := blocks_mono (le_max_right fuel 766) hrun'
      rw [h1] at h2
      exact Option.some.inj h2
    obtain ⟨b, hb, hbc⟩ := hcut.complete c hstart hlt
    rw [heq]
    refine ⟨b, hb, fun hfits => ?_⟩
    have hin := hcut.inside b hb
    have htile := hfits.2
    rw [ReadsOwnTile, hcut.state b hb, mosaicStateAt_tp_iff ppu layer y hin.1 (by omega),
      hbc] at htile
    rcases htile with hnarrow | hnear
    · exact hwide hnarrow
    · exact hfar hnear
  · obtain ⟨bs, buf'⟩ := r
    obtain ⟨b, hb, hwidth⟩ := blocks_first hrun
    refine ⟨b, hb, fun hfits => ?_⟩
    have hone := hfits.1.2.1
    omega

/-! ### The blocks of a line -/

/-- The blocks of a line have `P`, and the columns outside the drawn spans are as before. -/
structure LineOf {σ : Type} (win : PpuWindows) (P : Nat → Block σ → Prop) (buf : Zbuf)
    (r : List (Nat × Block σ) × Zbuf) : Prop where
  blocks : ∀ p ∈ r.1, P p.1 p.2
  kept : ∀ c, (∀ k < win.nr, win.bits.getLsbD k = false →
    ¬(win.edges k ≤ c ∧ c < win.edges (k + 1))) → r.2 c = buf c

section
variable {σ : Type} {win : PpuWindows} {P : Nat → Block σ → Prop} {good : Nat → Prop}

theorem overBlocks_succ (span : Nat → Zbuf → Option (List (Block σ) × Zbuf)) (n : Nat)
    (buf : Zbuf) : overBlocks win span (n + 1) buf =
      if win.bits.getLsbD n then overBlocks win span n buf
      else (overBlocks win span n buf).bind fun p =>
        (span n p.2).map fun q => (p.1 ++ q.1.map (Prod.mk n), q.2) := rfl

theorem overBlocks_good {span : Nat → Zbuf → Option (List (Block σ) × Zbuf)}
    (hspan : ∀ k < win.nr, win.bits.getLsbD k = false → ∀ buf, ∃ r, span k buf = some r ∧
      (∀ b ∈ r.1, P k b) ∧ ∀ c, ¬(win.edges k ≤ c ∧ c < win.edges (k + 1)) → r.2 c = buf c)
    (buf : Zbuf) : ∃ r, overBlocks win span win.nr buf = some r ∧ LineOf win P buf r := by
  have hstep : ∀ n ≤ win.nr, ∃ r, overBlocks win span n buf = some r ∧ (∀ p ∈ r.1, P p.1 p.2) ∧
      ∀ c, (∀ k < n, win.bits.getLsbD k = false →
        ¬(win.edges k ≤ c ∧ c < win.edges (k + 1))) → r.2 c = buf c := by
    intro n
    induction n with
    | zero => exact fun _ => ⟨([], buf), rfl, fun p hp => absurd hp List.not_mem_nil, fun _ _ => rfl⟩
    | succ n ih =>
        intro hn
        obtain ⟨r, hrun, hblocks, hkept⟩ := ih (by omega)
        rw [overBlocks_succ]
        by_cases hbit : win.bits.getLsbD n = true
        · rw [if_pos hbit]
          exact ⟨r, hrun, hblocks, fun c hc => hkept c (fun k hk => hc k (by omega))⟩
        · have hbit := Bool.eq_false_iff.mpr hbit
          obtain ⟨q, hq, hqblocks, hqkept⟩ := hspan n (by omega) hbit r.2
          rw [hbit, if_neg Bool.false_ne_true, hrun, Option.bind_some, hq, Option.map_some]
          refine ⟨_, rfl, fun p hp => ?_, fun c hc => ?_⟩
          · rcases List.mem_append.mp hp with hp | hp
            · exact hblocks p hp
            · obtain ⟨b, hb, rfl⟩ := List.mem_map.mp hp
              exact hqblocks b hb
          · change q.2 c = buf c
            rw [hqkept c (hc n (Nat.lt_succ_self n) hbit),
              hkept c (fun k hk => hc k (by omega))]
  obtain ⟨r, hrun, hblocks, hkept⟩ := hstep win.nr (le_refl _)
  exact ⟨r, hrun, hblocks, hkept⟩

/-- The blocks of every drawn span are among those of the line. -/
theorem overBlocks_mem {span : Nat → Zbuf → Option (List (Block σ) × Zbuf)} {n : Nat}
    {buf : Zbuf} {r : List (Nat × Block σ) × Zbuf} (hrun : overBlocks win span n buf = some r)
    {k : Nat} (hk : k < n) (hbit : win.bits.getLsbD k = false) :
    ∃ buf' q, span k buf' = some q ∧ ∀ b ∈ q.1, (k, b) ∈ r.1 := by
  induction n generalizing r with
  | zero => omega
  | succ n ih =>
      rw [overBlocks_succ] at hrun
      by_cases hskip : win.bits.getLsbD n = true
      · rw [if_pos hskip] at hrun
        have hne : k ≠ n := by
          rintro rfl
          rw [hbit] at hskip
          cases hskip
        exact ih hrun (by omega)
      · rw [if_neg hskip] at hrun
        obtain ⟨p, hp, hrun⟩ := Option.bind_eq_some_iff.mp hrun
        obtain ⟨q, hq, rfl⟩ := Option.map_eq_some_iff.mp hrun
        by_cases hkn : k = n
        · rw [hkn]
          exact ⟨p.2, q, hq, fun b hb =>
            List.mem_append.mpr (.inr (List.mem_map.mpr ⟨b, hb, rfl⟩))⟩
        · obtain ⟨buf', q', hq', hmem⟩ := ih hp (by omega)
          exact ⟨buf', q', hq', fun b hb => List.mem_append.mpr (.inl (hmem b hb))⟩

/-- A line is drawn in blocks that have `P` if and only if its drawn spans are good, when that
holds for each span. -/
theorem overBlocks_iff {span : Nat → Nat → Zbuf → Option (List (Block σ) × Zbuf)}
    (hgood : ∀ k < win.nr, good k → ∀ buf, ∃ r, span 766 k buf = some r ∧
      (∀ b ∈ r.1, P k b) ∧ ∀ c, ¬(win.edges k ≤ c ∧ c < win.edges (k + 1)) → r.2 c = buf c)
    (hbad : ∀ k < win.nr, ¬good k → ∀ fuel buf r, span fuel k buf = some r →
      ∃ b ∈ r.1, ¬P k b) (buf : Zbuf) :
    (∃ fuel r, overBlocks win (span fuel) win.nr buf = some r ∧ LineOf win P buf r) ↔
      ∀ k < win.nr, win.bits.getLsbD k = false → good k := by
  constructor
  · rintro ⟨fuel, r, hrun, hline⟩ k hk hbit
    by_contra hn
    obtain ⟨buf', q, hq, hmem⟩ := overBlocks_mem hrun hk hbit
    obtain ⟨b, hb, hP⟩ := hbad k hk hn fuel buf' q hq
    exact hP (hline.blocks (k, b) (hmem b hb))
  · intro hall
    exact ⟨766, overBlocks_good (fun k hk hbit => hgood k hk (hall k hk hbit)) buf⟩

end

/-! ### Mode 7 -/

theorem affine_flip (p a x w : BitVec 32) :
    p + a * (255 - x) + -a * w = p + a * (255 - (x + w)) := by ring

theorem affine_add (p a x w : BitVec 32) : p + a * x + a * w = p + a * (x + w) := by ring

theorem m7next_enter (ppu : PpuBgRegs) (y : Nat) (c w : Int) :
    Mode7.m7next ppu (Mode7.m7enter ppu y c) w = Mode7.m7enter ppu y (c + w) := by
  rw [Mode7.m7next, Mode7.m7enter, Mode7.m7enter, BitVec.ofInt_add]
  cases Mode7.m7xFlip ppu with
  | true =>
      simp only [if_true]
      rw [affine_flip, affine_flip]
  | false =>
      simp only [Bool.false_eq_true, if_false]
      rw [affine_add, affine_add]

theorem m7size_pos (ppu : PpuBgRegs) : 1 ≤ Mode7.m7size ppu := by
  rw [Mode7.m7size]
  split
  · exact mosaicSize_pos ppu
  · exact le_refl 1

theorem m7span_fits (ppu : PpuBgRegs) (y : Nat) (z : PpuZbufType) {win : PpuWindows}
    (hwin : WindowsFit win) {k : Nat} (hk : k < win.nr)
    (hfirst : 1 ≤ Mode7.m7first ppu (win.edges k)) (buf : Zbuf) :
    ∃ r, Mode7.m7span ppu y z 766 (win.edges k) (win.edges (k + 1)) buf = some r ∧
      (∀ b ∈ r.1, BlockFits win k b ∧ b.state = Mode7.m7enter ppu y b.start) ∧
      ∀ c, ¬(win.edges k ≤ c ∧ c < win.edges (k + 1)) → r.2 c = buf c := by
  have hspan := hwin.increasing k hk
  have hlo := hwin.edge_bounds (show k ≤ win.nr by omega)
  have hhi := hwin.edge_bounds (show k + 1 ≤ win.nr by omega)
  obtain ⟨bs, buf', hrun, hcut⟩ := blocks_spec 766 (m7block_inside ppu z)
    (m7size_pos ppu) buf hfirst (le_refl (win.edges k)) hspan (by omega) (fun c w _ _ _ => m7next_enter ppu y c w)
  exact ⟨(bs, buf'), hrun, fun b hb => ⟨hcut.inside b hb, hcut.state b hb⟩, hcut.outside⟩

theorem m7span_not_fits (ppu : PpuBgRegs) (y : Nat) (z : PpuZbufType) {win : PpuWindows} {k : Nat}
    (hfirst : ¬1 ≤ Mode7.m7first ppu (win.edges k)) {fuel : Nat} {buf : Zbuf}
    {r : List (Block Mode7State) × Zbuf}
    (hrun : Mode7.m7span ppu y z fuel (win.edges k) (win.edges (k + 1)) buf = some r) :
    ∃ b ∈ r.1, ¬(BlockFits win k b ∧ b.state = Mode7.m7enter ppu y b.start) := by
  obtain ⟨bs, buf'⟩ := r
  rw [Mode7.m7span] at hrun
  obtain ⟨b, hb, hwidth⟩ := blocks_first hrun
  refine ⟨b, hb, fun hfits => ?_⟩
  have hone := hfits.1.2.1
  omega

/-! ### The renderers -/

/-- A call of a renderer; mode 7 has layer 0 and the one priority `zhi`. -/
structure BgCall where
  win : PpuWindows
  ppu : PpuBgRegs
  y : Nat
  sub : Bool
  layer : Nat
  zhi : PpuZbufType
  zlo : PpuZbufType
  buf : Zbuf

inductive BgRenderer where
  | plain4bpp
  | plain2bpp
  | mosaic4bpp
  | mosaic2bpp
  | mode7

namespace BgCall

variable (call : BgCall)

/-- The spans of an enabled layer. -/
def HasWindows (layer : Nat) (w : PpuWindows) : Prop :=
  call.ppu.isScreenEnabled layer call.sub = true ∧
    bgWindows call.win call.ppu call.sub layer call.y = some w

/-- Every column of the drawn spans gets its own pixel, and no other column changes. -/
def PlainRight (d : TileDepth) (spans : PpuWindows → PpuWindows × (Nat → Int))
    (out : Option Zbuf) : Prop :=
  ∃ buf', out = some buf' ∧
    (call.ppu.isScreenEnabled call.layer call.sub = false → buf' = call.buf) ∧
    ∀ w, call.HasWindows call.layer w → DrawsWindows (spans w).1
      (columnPixel d call.ppu call.layer call.y call.zhi call.zlo (spans w).2) call.buf buf'

/-- The loop ends, its blocks have `P`, and no column outside the drawn spans changes. -/
def BlocksRight {σ : Type} (layer : Nat) (P : PpuWindows → Nat → Block σ → Prop)
    (run : Nat → Option (List (Nat × Block σ) × Zbuf)) : Prop :=
  ∃ fuel r, run fuel = some r ∧
    (call.ppu.isScreenEnabled layer call.sub = false → r = ([], call.buf)) ∧
    ∀ w, call.HasWindows layer w → LineOf w (P w) call.buf r

/-- The line of a tile layer with mosaic, with the scroll. -/
def mosaicY : Nat := (call.ppu.mosaicModulo call.y).toNat + (call.ppu.vScroll call.layer).toNat

def MosaicRight (draw : Nat → PpuWindows → PpuBgRegs → Nat → Bool → Nat → PpuZbufType →
    PpuZbufType → Zbuf → Option (List (Nat × Block MosaicState) × Zbuf)) : Prop :=
  call.BlocksRight call.layer
    (fun w k b => BlockFits w k b ∧ ReadsOwnTile call.ppu call.layer call.mosaicY b)
    (fun fuel => draw fuel call.win call.ppu call.y call.sub call.layer call.zhi call.zlo call.buf)

def Mode7Right : Prop :=
  call.BlocksRight 0
    (fun w k b => BlockFits w k b ∧ b.state = Mode7.m7enter call.ppu call.y b.start)
    (fun fuel => ppuDrawBackgroundMode7 fuel call.win call.ppu call.y call.sub call.zhi call.buf)

/-- The renderer draws exactly the spans of the line. -/
def LineRight : BgRenderer → Prop
  | .plain4bpp => call.PlainRight depth4bpp (fun w => (w, fun _ => 0))
      (ppuDrawBackground4bpp call.win call.ppu call.y call.sub call.layer call.zhi call.zlo call.buf)
  | .plain2bpp => call.PlainRight depth2bpp (splitWindows call.ppu call.layer call.y)
      (ppuDrawBackground2bpp call.win call.ppu call.y call.sub call.layer call.zhi call.zlo call.buf)
  | .mosaic4bpp => call.MosaicRight ppuDrawBackground4bppMosaic
  | .mosaic2bpp => call.MosaicRight ppuDrawBackground2bppMosaic
  | .mode7 => call.Mode7Right

/-- Every drawn span of the layer has `good` edges. -/
def SpansGood (layer : Nat) (good : Int → Int → Prop) : Prop :=
  ∀ w, call.HasWindows layer w → ∀ k < w.nr, w.bits.getLsbD k = false →
    good (w.edges k) (w.edges (k + 1))

/-- The first block has a column, and the span does not come back to the half of the tilemap
it starts in. -/
def SpansFit : BgRenderer → Prop
  | .plain4bpp | .plain2bpp => True
  | .mosaic4bpp | .mosaic2bpp => call.SpansGood call.layer (fun sx last =>
      1 ≤ firstWidth call.ppu sx ∧ StaysInMap call.ppu call.layer sx last)
  | .mode7 => call.SpansGood 0 (fun sx _ => 1 ≤ Mode7.m7first call.ppu sx)

theorem plainRight_of_draws {d : TileDepth} {spans : PpuWindows → PpuWindows × (Nat → Int)}
    (hspans : ∀ w, WindowsFit w → WindowsFit (spans w).1) {out : Option Zbuf}
    (hout : out = if call.ppu.isScreenEnabled call.layer call.sub = false then some call.buf
      else (bgWindows call.win call.ppu call.sub call.layer call.y).bind fun w =>
        some (drawSpans d call.ppu call.layer call.y call.zhi call.zlo (spans w).1 (spans w).2
          call.buf)) : call.PlainRight d spans out := by
  by_cases hoff : call.ppu.isScreenEnabled call.layer call.sub = false
  · rw [if_pos hoff] at hout
    refine ⟨call.buf, hout, fun _ => rfl, fun w hw => ?_⟩
    rw [hw.1] at hoff
    cases hoff
  · obtain ⟨w, hrun, hfit⟩ := bgWindows_fit call.win call.ppu call.sub call.layer call.y
    rw [if_neg hoff, hrun, Option.bind_some] at hout
    refine ⟨_, hout, fun h => absurd h hoff, fun w' hw' => ?_⟩
    have heq : w' = w := Option.some.inj (hw'.2.symm.trans hrun)
    rw [heq]
    exact drawSpans_draws d call.ppu call.layer call.y call.zhi call.zlo (hspans w hfit)
      (spans w).2 call.buf

theorem blocksRight_iff {σ : Type} {layer : Nat} {P : PpuWindows → Nat → Block σ → Prop}
    {run : Nat → Option (List (Nat × Block σ) × Zbuf)} {good : Int → Int → Prop}
    (span : Nat → Int → Int → Zbuf → Option (List (Block σ) × Zbuf))
    (hrun : ∀ fuel, run fuel = if call.ppu.isScreenEnabled layer call.sub = false then
        some ([], call.buf)
      else (bgWindows call.win call.ppu call.sub layer call.y).bind fun w =>
        overBlocks w (fun k => span fuel (w.edges k) (w.edges (k + 1))) w.nr call.buf)
    (hgood : ∀ w, WindowsFit w → ∀ k < w.nr, good (w.edges k) (w.edges (k + 1)) → ∀ buf,
      ∃ r, span 766 (w.edges k) (w.edges (k + 1)) buf = some r ∧ (∀ b ∈ r.1, P w k b) ∧
        ∀ c, ¬(w.edges k ≤ c ∧ c < w.edges (k + 1)) → r.2 c = buf c)
    (hbad : ∀ w, WindowsFit w → ∀ k < w.nr, ¬good (w.edges k) (w.edges (k + 1)) →
      ∀ fuel buf r, span fuel (w.edges k) (w.edges (k + 1)) buf = some r → ∃ b ∈ r.1, ¬P w k b) :
    call.BlocksRight layer P run ↔ call.SpansGood layer good := by
  obtain ⟨w, hw, hfit⟩ := bgWindows_fit call.win call.ppu call.sub layer call.y
  by_cases hoff : call.ppu.isScreenEnabled layer call.sub = false
  · have hnone : ∀ w', ¬call.HasWindows layer w' := by
      intro w' hw'
      rw [hw'.1] at hoff
      cases hoff
    constructor
    · exact fun _ w' hw' => absurd hw' (hnone w')
    · intro _
      exact ⟨0, ([], call.buf), by rw [hrun, if_pos hoff], fun _ => rfl,
        fun w' hw' => absurd hw' (hnone w')⟩
  · have hon : call.ppu.isScreenEnabled layer call.sub = true := by
      cases hval : call.ppu.isScreenEnabled layer call.sub with
      | true => rfl
      | false => exact absurd hval hoff
    have hline := overBlocks_iff (hgood w hfit) (hbad w hfit) call.buf
    have heq : ∀ w', call.HasWindows layer w' → w' = w :=
      fun w' hw' => Option.some.inj (hw'.2.symm.trans hw)
    constructor
    · rintro ⟨fuel, r, hr, -, hall⟩ w' hw'
      rw [heq w' hw']
      rw [hrun, if_neg hoff, hw, Option.bind_some] at hr
      exact hline.mp ⟨fuel, r, hr, hall w ⟨hon, hw⟩⟩
    · intro hall
      obtain ⟨fuel, r, hr, hof⟩ := hline.mpr (hall w ⟨hon, hw⟩)
      refine ⟨fuel, r, ?_, fun h => absurd h hoff, fun w' hw' => ?_⟩
      · rw [hrun, if_neg hoff, hw, Option.bind_some]
        exact hr
      · rw [heq w' hw']
        exact hof

theorem mosaicRight_iff (d : TileDepth) :
    call.MosaicRight (ppuDrawBackgroundMosaic d) ↔ call.SpansGood call.layer (fun sx last =>
      1 ≤ firstWidth call.ppu sx ∧ StaysInMap call.ppu call.layer sx last) := by
  apply call.blocksRight_iff (mosaicSpan d call.ppu call.layer call.mosaicY call.zhi call.zlo)
  · intro fuel
    rw [ppuDrawBackgroundMosaic]
    split <;> rfl
  · intro w hfit k hk hgood buf
    exact mosaicSpan_fits d call.ppu call.layer call.mosaicY call.zhi call.zlo hfit hk hgood.1
      hgood.2 buf
  · intro w hfit k hk hbad fuel buf r hr
    exact mosaicSpan_not_fits d call.ppu call.layer call.mosaicY call.zhi call.zlo hfit hk hbad hr

theorem mode7Right_iff :
    call.Mode7Right ↔ call.SpansGood 0 (fun sx _ => 1 ≤ Mode7.m7first call.ppu sx) := by
  apply call.blocksRight_iff (Mode7.m7span call.ppu call.y call.zhi)
  · intro fuel
    rw [ppuDrawBackgroundMode7]
    split <;> rfl
  · intro w hfit k hk hgood buf
    exact m7span_fits call.ppu call.y call.zhi hfit hk hgood buf
  · intro w hfit k hk hbad fuel buf r hr
    exact m7span_not_fits call.ppu call.y call.zhi hbad hr

end BgCall

/-- **The renderers draw exactly their spans when the spans fit**: without mosaic always, on
every column the pixel that the tilemap has for it; with mosaic, in blocks of at least one
column of the span that read the tile of their first column, if and only if every drawn span
begins with a block that is not empty and, on a wide tilemap, no block begins after the half
that the span starts in has come round again. -/
theorem backgroundLine_iff (call : BgCall) (r : BgRenderer) :
    call.LineRight r ↔ call.SpansFit r := by
  cases r with
  | plain4bpp =>
      refine ⟨fun _ => trivial, fun _ => ?_⟩
      apply call.plainRight_of_draws (fun _ hfit => hfit)
      rw [ppuDrawBackground4bpp]
      split <;> rfl
  | plain2bpp =>
      refine ⟨fun _ => trivial, fun _ => ?_⟩
      apply call.plainRight_of_draws (fun _ hfit => splitWindows_fit _ _ _ hfit)
      rw [ppuDrawBackground2bpp]
      split <;> rfl
  | mosaic4bpp => exact call.mosaicRight_iff depth4bpp
  | mosaic2bpp => exact call.mosaicRight_iff depth2bpp
  | mode7 => exact call.mode7Right_iff

/-- Margins of 96 columns, mosaic of size 2, and a window over the 256 columns of the screen:
the right margin is a span of its own. -/
def marginCall : BgCall where
  win := { edges := fun _ => 0, nr := 0, bits := 0 }
  ppu :=
    { windowsel := 0x2
      window1left := 0
      window1right := 255
      window2left := 0
      window2right := 0
      extraLeftCur := 96
      extraRightCur := 96
      wsBg3WidenY := 0
      vram := fun _ => 0xffff
      hScroll := fun _ => 0
      vScroll := fun _ => 0
      bgXsc := fun _ => 0
      bgTileAdr := 0
      mosaic := 0x11
      mosaicModulo := mosaicTable 2
      m7matrix := fun _ => 0
      m7sel := 0
      wsHudSplitHeight := 0
      wsHudLeftEnd := 0
      wsHudRightStart := 0
      screenEnabled := fun _ => 1
      screenWindowed := fun _ => 1
      hudOrdered := fun h => absurd rfl h }
  y := 1
  sub := false
  layer := 0
  zhi := 0xc000
  zlo := 0x8000
  buf := fun _ => 0x0500

/-- The span at 256 begins with a block of no column. -/
theorem marginCall_not_lineRight : ¬marginCall.LineRight .mosaic4bpp := by
  intro hright
  obtain ⟨w, hw, hspan⟩ : ∃ w, bgWindows marginCall.win marginCall.ppu false 0 1 = some w ∧
      2 < w.nr ∧ w.bits.getLsbD 2 = false ∧ w.edges 2 = 256 := by
    refine ⟨_, rfl, ?_⟩
    decide
  have hgood := ((marginCall.mosaicRight_iff depth4bpp).mp hright) w ⟨rfl, hw⟩ 2 hspan.1 hspan.2.1
  have hfirst := hgood.1
  have hsize : (mosaicSize marginCall.ppu).toNat = 2 := rfl
  have htable : ∀ i < 256, (marginCall.ppu.mosaicModulo i).toNat =
      i - i % (mosaicSize marginCall.ppu).toNat := by
    rw [hsize]
    exact mosaicTable_toNat (by omega)
  rw [hspan.2.2, firstWidth_pos_iff (le_refl 256) htable, hsize] at hfirst
  exact hfirst ⟨rfl, rfl⟩

end SnesRecomp
