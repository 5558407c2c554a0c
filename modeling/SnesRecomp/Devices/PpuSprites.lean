import SnesRecomp.Devices.PpuBackground

/-!
# The sprites of a line

`ppu_evaluateSprites` of `ppu.c` goes through the 128 sprites from the first one on, draws the slivers
of those on the line, and stops at the 33rd sprite or the 35th sliver.  `evaluateSprites_eq` says what is
drawn and which flags are set from the lists of sprites and slivers alone: on a column the first sliver
with a pixel there wins (`drawAll_at`), the 35th sliver sets `timeOver`, and the 33rd sprite sets
`rangeOver` only where the slivers did not run out before it.  `drawSprites_line` says what
`PpuDrawSprites` then brings into a screen buffer.
-/

namespace SnesRecomp

open Bits Spans Columns

/-- What `ppu_evaluateSprites` reads of the `Ppu`. -/
structure PpuObjRegs where
  oam : Nat → Word
  highOam : Nat → Byte
  vram : Nat → Word
  obsel : Byte
  oamaddl : Byte
  oamaddh : Byte
  setini : Byte
  evenFrame : Bool
  extraLeftCur : Byte
  extraRightCur : Byte

namespace PpuObjRegs

def objSize (ppu : PpuObjRegs) : Nat := ppu.obsel.toNat / 32

def objTileAdr1 (ppu : PpuObjRegs) : Nat := ppu.obsel.toNat % 8 * 0x2000

def objTileAdr2 (ppu : PpuObjRegs) : Nat := ppu.objTileAdr1 + ((ppu.obsel &&& 0x18).toNat + 8) * 512

def objPriority (ppu : PpuObjRegs) : Bool := ppu.oamaddh.getLsbD 7

def objInterlace (ppu : PpuObjRegs) : Bool := ppu.setini.getLsbD 1

end PpuObjRegs

/-! ### Sprites -/

def spriteSizes : List (Nat × Nat) :=
  [(8, 16), (8, 32), (8, 64), (16, 32), (16, 64), (32, 64), (16, 32), (16, 32)]

/-- A sprite on the line; `attr` is `oam1`, and `row` is the row of it, before a flip. -/
structure Sprite where
  x : Int
  size : Nat
  row : Byte
  attr : Word

def spriteSize (ppu : PpuObjRegs) (index : Byte) : Nat :=
  let sizes := spriteSizes.getD ppu.objSize (0, 0)
  if (ppu.highOam (index.toNat / 8)).getLsbD (index.toNat % 8 + 1) then sizes.2 else sizes.1

/-- The column of the left edge; it wraps behind the right margin. -/
def spriteX (ppu : PpuObjRegs) (index : Byte) : Int :=
  let x : Int := (loByte (ppu.oam index.toNat)).toNat +
    (if (ppu.highOam (index.toNat / 8)).getLsbD (index.toNat % 8) then 256 else 0)
  if 256 + (ppu.extraRightCur.toNat : Int) ≤ x then x - 512 else x

/-- The sprite at an index, if it is on the line. -/
def spriteAt (ppu : PpuObjRegs) (line : Nat) (index : Byte) : Option Sprite :=
  let row := BitVec.ofNat 8 line - hiByte (ppu.oam index.toNat)
  let size := spriteSize ppu index
  if row.toNat < (if ppu.objInterlace then size / 2 else size) then
    let x := spriteX ppu index
    if -(ppu.extraLeftCur.toNat : Int) < x + size then
      some
        { x := x, size := size
          row := if ppu.objInterlace then row * 2 + (if ppu.evenFrame then 0 else 1) else row
          attr := ppu.oam (index.toNat + 1) }
    else none
  else none

/-- The indices in the order of the loop. -/
def spriteOrder (ppu : PpuObjRegs) : List Byte :=
  let first := if ppu.objPriority then ppu.oamaddl &&& 0xFE else 0
  (List.range 128).map fun i => first + BitVec.ofNat 8 (2 * i)

/-! ### Slivers -/

/-- Eight pixels of a sprite. -/
structure Sliver where
  sprite : Sprite
  col : Nat

namespace Sliver

variable (ppu : PpuObjRegs) (s : Sliver)

/-- The column of its first pixel. -/
def left : Int := s.col + s.sprite.x

def inRange : Bool :=
  decide (-8 - (ppu.extraLeftCur.toNat : Int) < s.left ∧ s.left < 256 + ppu.extraRightCur.toNat)

/-- The word of bit planes; the second half is eight words on, behind `vram` at its end. -/
def plane : BitVec 32 :=
  let attr := s.sprite.attr
  let row := if attr.getLsbD 15 then BitVec.ofNat 8 s.sprite.size - 1 - s.sprite.row else s.sprite.row
  let usedCol := if attr.getLsbD 14 then s.sprite.size - 1 - s.col else s.col
  let usedTile := ((attr.toNat % 256 / 16 + row.toNat / 8) * 16) ||| (attr.toNat % 16 + usedCol / 8) % 16
  let objAdr := if attr.getLsbD 8 then ppu.objTileAdr2 else ppu.objTileAdr1
  let adr := (objAdr + usedTile * 16 + row.toNat % 8) % 0x8000
  ppu.vram (adr + 8) ++ ppu.vram adr

/-- The pixel `px` columns into it. -/
def pixel (px : Nat) : Nat :=
  let bits := s.plane ppu >>> (if s.sprite.attr.getLsbD 14 then px else 7 - px)
  (bits.getLsbD 0).toNat + (bits.getLsbD 8).toNat * 2 + (bits.getLsbD 16).toNat * 4 +
    (bits.getLsbD 24).toNat * 8

/-- `z`: the palette, and the priority above it. -/
def zBase : Nat :=
  let attr := s.sprite.attr.toNat
  let prio := (attr / 0x1000 % 4 * 4 + 2) * 16 + 4 + (if attr / 0x800 % 2 = 0 then 2 else 0)
  0x80 + 16 * (attr / 0x200 % 8) + prio * 256

/-- The value at a column, if there is a pixel. -/
def valueAt (c : Int) : Option PpuZbufType :=
  let px := (c - s.left).toNat
  if max (-(s.left + 96)) 0 ≤ c - s.left ∧ c - s.left < min (256 + 96 - s.left) 8 ∧ s.pixel ppu px ≠ 0 then
    some (BitVec.ofNat 16 (s.zBase + s.pixel ppu px))
  else none

/-- The loop over the pixels: one goes where the buffer is still empty. -/
def draw (buffer : Zbuf) : Zbuf :=
  paint (fun c z => if s.pixel ppu (c - s.left).toNat ≠ 0 ∧ z &&& 0xFF = 0 then
      BitVec.ofNat 16 (s.zBase + s.pixel ppu (c - s.left).toNat) else z)
    (s.left + max (-(s.left + 96)) 0) (s.left + min (256 + 96 - s.left) 8) buffer

end Sliver

/-- The slivers of a sprite that are in range. -/
def Sprite.slivers (ppu : PpuObjRegs) (sp : Sprite) : List Sliver :=
  ((List.range (sp.size / 8)).map fun i => ⟨sp, 8 * i⟩).filter (Sliver.inRange ppu)

/-! ### The loops -/

structure SpriteState where
  spritesFound : Nat
  tilesFound : Nat
  rangeOver : Bool
  timeOver : Bool
  objBuffer : Zbuf

/-- The loop over the columns of a sprite. -/
def drawSlivers (ppu : PpuObjRegs) : List Sliver → SpriteState → SpriteState
  | [], st => st
  | s :: ss, st =>
    if s.inRange ppu then
      let st := { st with tilesFound := st.tilesFound + 1 }
      if 34 < st.tilesFound then { st with timeOver := true }
      else drawSlivers ppu ss { st with objBuffer := s.draw ppu st.objBuffer }
    else drawSlivers ppu ss st

/-- The loop over the sprites. -/
def spriteLoop (ppu : PpuObjRegs) (line : Nat) : List Byte → SpriteState → SpriteState
  | [], st => st
  | index :: rest, st =>
    match spriteAt ppu line index with
    | none => spriteLoop ppu line rest st
    | some sp =>
      let st := { st with spritesFound := st.spritesFound + 1 }
      if 32 < st.spritesFound then { st with rangeOver := true }
      else
        let st := drawSlivers ppu ((List.range (sp.size / 8)).map fun i => ⟨sp, 8 * i⟩) st
        if 34 < st.tilesFound then st else spriteLoop ppu line rest st

/-- `ppu_evaluateSprites`, with the flags and the buffer behind it. -/
def ppuEvaluateSprites (ppu : PpuObjRegs) (line : Nat) (rangeOver timeOver : Bool) (objBuffer : Zbuf) :
    Bool × SpriteState :=
  let st := spriteLoop ppu line (spriteOrder ppu) ⟨0, 0, rangeOver, timeOver, objBuffer⟩
  (st.tilesFound != 0, st)

/-! ### What is drawn -/

/-- The sprites on the line, in order. -/
def spritesOn (ppu : PpuObjRegs) (line : Nat) : List Sprite := (spriteOrder ppu).filterMap (spriteAt ppu line)

/-- The slivers of the first 32 sprites. -/
def sliversOn (ppu : PpuObjRegs) (line : Nat) : List Sliver :=
  ((spritesOn ppu line).take 32).flatMap (Sprite.slivers ppu)

def drawAll (ppu : PpuObjRegs) (ss : List Sliver) (buffer : Zbuf) : Zbuf :=
  ss.foldl (fun b s => s.draw ppu b) buffer

theorem drawAll_append (ppu : PpuObjRegs) (ss ss' : List Sliver) (buffer : Zbuf) :
    drawAll ppu (ss ++ ss') buffer = drawAll ppu ss' (drawAll ppu ss buffer) := List.foldl_append

/-- The state behind some slivers: no more than 34 of them are drawn. -/
structure Drawn (ppu : PpuObjRegs) (seen : List Sliver) (st st' : SpriteState) : Prop where
  tiles : st'.tilesFound = min 35 (st.tilesFound + seen.length)
  time : st'.timeOver = true ↔ st.timeOver = true ∨ 34 < st.tilesFound + seen.length
  buffer : st'.objBuffer = drawAll ppu (seen.take (34 - st.tilesFound)) st.objBuffer

theorem drawSlivers_keeps (ppu : PpuObjRegs) (ss : List Sliver) (st : SpriteState) :
    (drawSlivers ppu ss st).spritesFound = st.spritesFound ∧
      (drawSlivers ppu ss st).rangeOver = st.rangeOver := by
  induction ss generalizing st with
  | nil => exact ⟨rfl, rfl⟩
  | cons s ss ih =>
      rw [drawSlivers]
      dsimp only
      split
      · split
        · exact ⟨rfl, rfl⟩
        · exact ih _
      · exact ih st

theorem drawn_nil (ppu : PpuObjRegs) {st : SpriteState} (h : st.tilesFound ≤ 34) : Drawn ppu [] st st := by
  refine ⟨?_, ?_, ?_⟩
  · rw [List.length_nil]
    omega
  · rw [List.length_nil]
    exact ⟨.inl, fun ht => ht.resolve_right (by omega)⟩
  · rw [List.take_nil]
    rfl

theorem Drawn.append {ppu : PpuObjRegs} {a b : List Sliver} {st st' st'' : SpriteState}
    (h : Drawn ppu a st st') (h' : Drawn ppu b st' st'') (hroom : st.tilesFound + a.length ≤ 34) :
    Drawn ppu (a ++ b) st st'' := by
  have htiles : st'.tilesFound = st.tilesFound + a.length := by
    rw [h.tiles]
    omega
  refine ⟨?_, ?_, ?_⟩
  · rw [h'.tiles, htiles, List.length_append, Nat.add_assoc]
  · rw [h'.time, h.time, htiles, List.length_append, Nat.add_assoc]
    exact ⟨fun ht => ht.imp_left fun ht => ht.resolve_right (by omega), fun ht => ht.imp_left .inl⟩
  · rw [h'.buffer, h.buffer, htiles, List.take_append,
      List.take_of_length_le (show a.length ≤ 34 - st.tilesFound by omega), drawAll_append, Nat.sub_sub]

/-- What comes behind the 34th sliver does not count. -/
theorem Drawn.append_of_full {ppu : PpuObjRegs} {a : List Sliver} {st st' : SpriteState}
    (h : Drawn ppu a st st') (hfull : 34 < st.tilesFound + a.length) (b : List Sliver) :
    Drawn ppu (a ++ b) st st' := by
  refine ⟨?_, ?_, ?_⟩
  · rw [h.tiles, List.length_append]
    omega
  · rw [h.time, List.length_append]
    exact ⟨fun _ => .inr (by omega), fun _ => .inr hfull⟩
  · rw [h.buffer, List.take_append_of_le_length (by omega)]

theorem drawSlivers_drawn (ppu : PpuObjRegs) (ss : List Sliver) {st : SpriteState} (h : st.tilesFound ≤ 34) :
    Drawn ppu (ss.filter (Sliver.inRange ppu)) st (drawSlivers ppu ss st) := by
  induction ss generalizing st with
  | nil => exact drawn_nil ppu h
  | cons s ss ih =>
      rw [drawSlivers]
      dsimp only
      by_cases hin : s.inRange ppu = true
      · rw [if_pos hin, List.filter_cons_of_pos hin]
        by_cases hfull : 34 < st.tilesFound + 1
        · rw [if_pos hfull]
          refine ⟨?_, ?_, ?_⟩
          · rw [List.length_cons]
            dsimp only
            omega
          · rw [List.length_cons]
            exact ⟨fun _ => .inr (by omega), fun _ => rfl⟩
          · rw [show 34 - st.tilesFound = 0 by omega]
            rfl
        · rw [if_neg hfull]
          obtain ⟨htiles, htime, hbuffer⟩ :=
            @ih { st with tilesFound := st.tilesFound + 1, objBuffer := s.draw ppu st.objBuffer }
              (by dsimp only; omega)
          dsimp only at htiles htime hbuffer
          refine ⟨?_, ?_, ?_⟩
          · rw [htiles, List.length_cons, Nat.add_right_comm, Nat.add_assoc]
          · rw [htime, List.length_cons, Nat.add_right_comm, Nat.add_assoc]
          · rw [hbuffer, show 34 - st.tilesFound = 34 - (st.tilesFound + 1) + 1 by omega, List.take_succ_cons]
            rfl
      · rw [if_neg hin, List.filter_cons_of_neg hin]
        exact ih h

/-- The state behind some sprites: with `n` found before, up to the 32nd are drawn. -/
theorem spriteLoop_drawn (ppu : PpuObjRegs) (line : Nat) (order : List Byte) {st : SpriteState}
    (hsprites : st.spritesFound ≤ 32) (htiles : st.tilesFound ≤ 34) :
    let found := order.filterMap (spriteAt ppu line)
    let seen := (found.take (32 - st.spritesFound)).flatMap (Sprite.slivers ppu)
    Drawn ppu seen st (spriteLoop ppu line order st) ∧
      ((spriteLoop ppu line order st).rangeOver = true ↔ st.rangeOver = true ∨
        32 < st.spritesFound + found.length ∧ st.tilesFound + seen.length ≤ 34) := by
  induction order generalizing st with
  | nil =>
      refine ⟨?_, ?_⟩
      · rw [List.filterMap_nil, List.take_nil]
        exact drawn_nil ppu htiles
      · rw [List.filterMap_nil, List.length_nil]
        exact ⟨.inl, fun h => h.resolve_right (by omega)⟩
  | cons index rest ih =>
      rw [spriteLoop]
      cases hat : spriteAt ppu line index with
      | none =>
          rw [List.filterMap_cons_none hat]
          exact ih hsprites htiles
      | some sp =>
          rw [List.filterMap_cons_some hat]
          dsimp only
          by_cases hover : 32 < st.spritesFound + 1
          · -- the 33rd sprite: none of its slivers is looked at
            rw [if_pos hover, show 32 - st.spritesFound = 0 by omega, List.take_zero, List.flatMap_nil]
            refine ⟨⟨?_, ?_, ?_⟩, ?_⟩
            · exact (drawn_nil ppu htiles).tiles
            · exact (drawn_nil ppu htiles).time
            · exact (drawn_nil ppu htiles).buffer
            · rw [List.length_cons, List.length_nil]
              exact ⟨fun _ => .inr ⟨by omega, by omega⟩, fun _ => rfl⟩
          · rw [if_neg hover, show 32 - st.spritesFound = 32 - (st.spritesFound + 1) + 1 by omega,
              List.take_succ_cons, List.flatMap_cons]
            generalize hst : drawSlivers ppu ((List.range (sp.size / 8)).map fun i => ⟨sp, 8 * i⟩)
              { st with spritesFound := st.spritesFound + 1 } = st'
            obtain ⟨hfound, hrange⟩ : st'.spritesFound = st.spritesFound + 1 ∧ st'.rangeOver = st.rangeOver :=
              hst ▸ drawSlivers_keeps ppu _ _
            have hdrawn : Drawn ppu (sp.slivers ppu) st st' :=
              let h := @drawSlivers_drawn ppu _ { st with spritesFound := st.spritesFound + 1 } htiles
              hst ▸ ⟨h.tiles, h.time, h.buffer⟩
            have htiles' := hdrawn.tiles
            by_cases hfull : 34 < st'.tilesFound
            · rw [if_pos hfull]
              refine ⟨hdrawn.append_of_full (by omega) _, ?_⟩
              rw [hrange, List.length_append]
              exact ⟨.inl, fun h => h.resolve_right (by omega)⟩
            · rw [if_neg hfull]
              obtain ⟨hrest, hover'⟩ := @ih st' (by omega) (by omega)
              rw [hfound] at hrest hover'
              refine ⟨hdrawn.append hrest (by omega), ?_⟩
              rw [hover', hrange, List.length_append, List.length_cons]
              have hsum : st'.tilesFound = st.tilesFound + (sp.slivers ppu).length := by omega
              rw [hsum, Nat.add_right_comm, Nat.add_assoc st.spritesFound, Nat.add_assoc st.tilesFound]

/-! ### Which sliver wins -/

theorem Sliver.pixel_lt (ppu : PpuObjRegs) (s : Sliver) (px : Nat) : s.pixel ppu px < 16 := by
  simp only [Sliver.pixel]
  generalize s.plane ppu >>> (if s.sprite.attr.getLsbD 14 then px else 7 - px) = bits
  have h0 := (bits.getLsbD 0).toNat_lt
  have h8 := (bits.getLsbD 8).toNat_lt
  have h16 := (bits.getLsbD 16).toNat_lt
  have h24 := (bits.getLsbD 24).toNat_lt
  omega

/-- A pixel that is drawn is not taken for an empty one. -/
theorem Sliver.value_ne_zero (ppu : PpuObjRegs) (s : Sliver) (px : Nat) :
    BitVec.ofNat 16 (s.zBase + s.pixel ppu px) &&& 0xFF ≠ 0 := by
  have hpixel := s.pixel_lt ppu px
  intro hzero
  have hlow := congrArg BitVec.toNat hzero
  rw [BitVec.toNat_and, BitVec.toNat_ofNat, show (0xFF : Word).toNat = 0xFF from rfl, and_0xFF] at hlow
  simp only [Sliver.zBase] at hlow
  change _ = 0 at hlow
  omega

theorem Sliver.draw_at (ppu : PpuObjRegs) (s : Sliver) (buffer : Zbuf) (c : Int) :
    s.draw ppu buffer c = if buffer c &&& 0xFF = 0 then (s.valueAt ppu c).getD (buffer c) else buffer c := by
  simp only [Sliver.draw, Sliver.valueAt, paint]
  by_cases hin : max (-(s.left + 96)) 0 ≤ c - s.left ∧ c - s.left < min (256 + 96 - s.left) 8
  · rw [if_pos (by omega)]
    by_cases hpixel : s.pixel ppu (c - s.left).toNat ≠ 0
    · rw [if_pos (show _ ∧ _ ∧ _ from ⟨hin.1, hin.2, hpixel⟩), Option.getD_some]
      simp only [hpixel, ne_eq, not_false_eq_true, true_and]
    · rw [if_neg (show ¬(_ ∧ _) from fun h => hpixel h.1), if_neg (show ¬(_ ∧ _ ∧ _) from fun h => hpixel h.2.2),
        Option.getD_none, ite_self]
  · rw [if_neg (by omega), if_neg (show ¬(_ ∧ _ ∧ _) from fun h => hin ⟨h.1, h.2.1⟩), Option.getD_none, ite_self]

theorem Sliver.valueAt_ne_zero {ppu : PpuObjRegs} {s : Sliver} {c : Int} {z : PpuZbufType}
    (h : s.valueAt ppu c = some z) : z &&& 0xFF ≠ 0 := by
  simp only [Sliver.valueAt] at h
  split at h
  · cases h
    exact s.value_ne_zero ppu _
  · cases h

/-- On an empty column the first sliver with a pixel there wins, and no other column changes. -/
theorem drawAll_at (ppu : PpuObjRegs) (ss : List Sliver) (buffer : Zbuf) (c : Int) :
    drawAll ppu ss buffer c =
      if buffer c &&& 0xFF = 0 then (ss.findSome? fun s => s.valueAt ppu c).getD (buffer c)
      else buffer c := by
  induction ss generalizing buffer with
  | nil => exact (ite_self _).symm
  | cons s ss ih =>
      rw [show drawAll ppu (s :: ss) buffer = drawAll ppu ss (s.draw ppu buffer) from rfl, ih, s.draw_at,
        List.findSome?_cons]
      by_cases hempty : buffer c &&& 0xFF = 0
      · rw [if_pos hempty, if_pos hempty]
        cases hvalue : s.valueAt ppu c with
        | none => rw [Option.getD_none, if_pos hempty]
        | some z => rw [Option.getD_some, if_neg (Sliver.valueAt_ne_zero hvalue)]
      · rw [if_neg hempty, if_neg hempty, if_neg hempty]

/-- `ppu_evaluateSprites` on a line: from the slivers of the first 32 sprites it draws the first 34. -/
theorem evaluateSprites_eq (ppu : PpuObjRegs) (line : Nat) (rangeOver timeOver : Bool) (objBuffer : Zbuf) :
    let slivers := sliversOn ppu line
    let out := ppuEvaluateSprites ppu line rangeOver timeOver objBuffer
    (out.1 = true ↔ slivers ≠ []) ∧
      (out.2.rangeOver = true ↔ rangeOver = true ∨
        32 < (spritesOn ppu line).length ∧ slivers.length ≤ 34) ∧
      (out.2.timeOver = true ↔ timeOver = true ∨ 34 < slivers.length) ∧
      ∀ c, out.2.objBuffer c =
        if objBuffer c &&& 0xFF = 0 then
          ((slivers.take 34).findSome? fun s => s.valueAt ppu c).getD (objBuffer c)
        else objBuffer c := by
  obtain ⟨⟨htiles, htime, hbuffer⟩, hrange⟩ := @spriteLoop_drawn ppu line (spriteOrder ppu)
    ⟨0, 0, rangeOver, timeOver, objBuffer⟩ (Nat.zero_le 32) (Nat.zero_le 34)
  simp only [Nat.zero_add, Nat.sub_zero] at htiles htime hbuffer hrange
  refine ⟨?_, hrange, htime, fun c => ?_⟩
  · show (_ != 0) = true ↔ _
    rw [htiles, bne_iff_ne, ← List.length_pos_iff]
    change min 35 (sliversOn ppu line).length ≠ 0 ↔ _
    omega
  · rw [← drawAll_at]
    exact congrFun hbuffer c

/-! ### Into the screen buffer -/

/-- `do { if (src[0] > dst[0]) dst[0] = src[0]; } while (src++, dst++, --width);`. -/
def mergeSprites (src : Zbuf) : Nat → Int → Zbuf → Zbuf
  | 0, _, buf => buf
  | w + 1, c, buf =>
    mergeSprites src w (c + 1) (Function.update buf c (if buf c < src c then src c else buf c))

/-- A span: the `memcpy`, or the loop, which without a column does not end in the buffer. -/
def spriteSpan (src : Zbuf) (clearBackdrop : Bool) (left right : Int) (buf : Zbuf) : Option Zbuf :=
  if clearBackdrop then if left ≤ right then some (paint (fun c _ => src c) left right buf) else none
  else if left < right then some (mergeSprites src (right - left).toNat left buf) else none

def ppuDrawSprites (win : PpuWindows) (ppu : PpuBgRegs) (y : Nat) (sub clearBackdrop : Bool)
    (objBuffer buf : Zbuf) : Option Zbuf := do
  if ppu.isScreenEnabled 4 sub then
    let win ← bgWindows win ppu sub 4 y
    overSpans win.bits (fun windex out =>
      out.bind (spriteSpan objBuffer clearBackdrop (win.edges windex) (win.edges (windex + 1)))) win.nr (some buf)
  else some buf

/-- What a column gets. -/
def spriteOver (src : Zbuf) (clearBackdrop : Bool) (c : Int) (z : PpuZbufType) : PpuZbufType :=
  if clearBackdrop then src c else if z < src c then src c else z

theorem mergeSprites_eq (src : Zbuf) (w : Nat) (c : Int) (buf : Zbuf) :
    mergeSprites src w c buf = paint (spriteOver src false) c (c + w) buf := by
  induction w generalizing c buf with
  | zero => rw [mergeSprites, Int.natCast_zero, Int.add_zero, paint_empty]
  | succ w ih =>
      have hone : Function.update buf c (if buf c < src c then src c else buf c) =
          paint (spriteOver src false) c (c + 1) buf := (paint_one (spriteOver src false) c buf).symm
      rw [mergeSprites, hone, ih, paint_append _ (by omega) (by omega), Int.natCast_add, Int.natCast_one,
        Int.add_assoc, Int.add_comm 1]

theorem spriteSpan_eq (src : Zbuf) (clearBackdrop : Bool) {left right : Int} (h : left < right) (buf : Zbuf) :
    spriteSpan src clearBackdrop left right buf = some (paint (spriteOver src clearBackdrop) left right buf) := by
  rw [spriteSpan]
  cases clearBackdrop with
  | true => exact if_pos h.le
  | false =>
      rw [if_neg Bool.false_ne_true, if_pos h, mergeSprites_eq,
        show left + ((right - left).toNat : Int) = right by omega]

theorem overSpans_some {β : Type} {bits : Byte} {draw : Nat → β → β} {draw' : Nat → β → Option β} {n : Nat}
    (h : ∀ k < n, ∀ b, draw' k b = some (draw k b)) (b : β) :
    overSpans bits (fun k out => out.bind (draw' k)) n (some b) = some (overSpans bits draw n b) := by
  induction n with
  | zero => rfl
  | succ n ih =>
      rw [overSpans, overSpans, ih (fun k hk => h k (by omega))]
      split
      · rfl
      · exact h n (by omega) _

/-- The spans of a layer whose margins are not clamped: they are the line, and a span is left out where the
column is in a window of the layer. -/
theorem bgWindows_cuts (win : PpuWindows) (ppu : PpuBgRegs) (sub : Bool) {layer : Nat} (hlayer : layer ≠ 2)
    (y : Nat) :
    ∃ w, bgWindows win ppu sub layer y = some w ∧
      Cuts (-(ppu.extraLeftCur.toNat : Int)) (256 + ppu.extraRightCur.toNat) w.edges w.nr ∧
      ∀ k < w.nr, ∀ c, w.edges k ≤ c → c < w.edges (k + 1) →
        w.bits.getLsbD k = (ppu.isScreenWindowed layer sub && inLayerWindows ppu.toPpuWindowRegs layer c) := by
  have hextra (extra : Int) : ppuLayerExtra ppu.toPpuWindowRegs layer y extra = extra := if_pos hlayer
  rw [bgWindows]
  by_cases hwindowed : ppu.isScreenWindowed layer sub = true
  · rw [if_pos hwindowed, hwindowed]
    obtain ⟨w, hrun, _, _, hcuts, hbits⟩ := ppuWindowsCalc_cuts win ppu.toPpuWindowRegs layer y
    rw [hextra, hextra] at hcuts
    exact ⟨w, hrun, hcuts, hbits⟩
  · rw [if_neg hwindowed, Bool.eq_false_iff.mpr hwindowed]
    have hfirst := ppuWindowsClear_first win ppu.toPpuWindowRegs layer y
    have hlast := ppuWindowsClear_last win ppu.toPpuWindowRegs layer y
    rw [hextra] at hfirst hlast
    refine ⟨_, rfl, ⟨hfirst, hlast, ?_⟩, ?_⟩
    · intro k hk
      rw [Nat.lt_one_iff.mp hk, hfirst, hlast]
      omega
    · intro k _ c _ _
      exact BitVec.getLsbD_zero

/-- `PpuDrawSprites` on a line: every column of it that is not in a window of the sprites is drawn, and no
other one changes. -/
theorem drawSprites_line (win : PpuWindows) (ppu : PpuBgRegs) (y : Nat) (sub clearBackdrop : Bool)
    (objBuffer buf : Zbuf) :
    ∃ buf', ppuDrawSprites win ppu y sub clearBackdrop objBuffer buf = some buf' ∧
      ∀ c, buf' c =
        if ppu.isScreenEnabled 4 sub = true ∧ -(ppu.extraLeftCur.toNat : Int) ≤ c ∧
            c < 256 + ppu.extraRightCur.toNat ∧
            (ppu.isScreenWindowed 4 sub && inLayerWindows ppu.toPpuWindowRegs 4 c) = false then
          if clearBackdrop then objBuffer c else if buf c < objBuffer c then objBuffer c else buf c
        else buf c := by
  rw [ppuDrawSprites]
  by_cases henabled : ppu.isScreenEnabled 4 sub = true
  · obtain ⟨w, hrun, hcuts, hbits⟩ := bgWindows_cuts win ppu sub (show 4 ≠ 2 by omega) y
    rw [if_pos henabled, hrun]
    have hspan : ∀ k < w.nr, ∀ b, spriteSpan objBuffer clearBackdrop (w.edges k) (w.edges (k + 1)) b =
        some (paint (spriteOver objBuffer clearBackdrop) (w.edges k) (w.edges (k + 1)) b) := by
      intro k hk b
      exact spriteSpan_eq objBuffer clearBackdrop (hcuts.increasing k hk) b
    obtain ⟨hdrawn, hkept⟩ := overSpans_draws hcuts.increasing (fun _ _ _ => rfl) buf
    refine ⟨_, overSpans_some hspan buf, fun c => ?_⟩
    split
    · rename_i hin
      obtain ⟨k, hk, hlo, hhi⟩ := hcuts.increasing.exists_span
        (hcuts.first.le.trans hin.2.1) (hin.2.2.1.trans_le hcuts.last.ge)
      exact hdrawn k hk ((hbits k hk c hlo hhi).trans hin.2.2.2) c hlo hhi
    · rename_i hout
      -- a drawn span with the column in it would be on the line and outside the windows
      refine hkept c fun k hk hbit hspan => hout ⟨henabled, ?_, ?_, ?_⟩
      · exact hcuts.first.ge.trans ((hcuts.increasing.le (Nat.zero_le k) (by omega)).trans hspan.1)
      · exact hspan.2.trans_le ((hcuts.increasing.le (by omega) (le_refl w.nr)).trans hcuts.last.le)
      · exact (hbits k hk c hspan.1 hspan.2).symm.trans hbit
  · rw [if_neg henabled]
    refine ⟨buf, rfl, fun c => ?_⟩
    rw [if_neg (fun h => henabled h.1)]

end SnesRecomp
