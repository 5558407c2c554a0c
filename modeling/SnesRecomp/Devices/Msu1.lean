import SnesRecomp.Runtime.CpuState
import Mathlib.Data.List.Basic
import Mathlib.Tactic.Cases

/-!
# Looping of MSU-1 tracks

`msu_load_track` and `msu_read_frames` of `msu1.c`.  A block that runs into the end of the
track goes on at the loop point, but only once: `looped`, which is to end a block on an empty
loop region, also ends one that would have to loop a second time.  So playback is seamless as
long as every block fits into the rest of the track and one loop region
(`playback_seamless_iff`).
-/

namespace SnesRecomp

/-! ### The source -/

/-- An open file: its bytes and the position in it. -/
structure Stream where
  bytes : List Byte
  pos : Nat

/-- `g` of `msu1.c`, as far as the audio track goes. -/
structure Msu1 where
  track : Option Stream
  playing : Bool
  repeats : Bool
  audioError : Bool
  loopPoint : BitVec 32
  dataStart : Nat

/-- `fread(dst, 4, count, f)`: what it reads whole items of. -/
def Stream.readItems (f : Stream) (count : Nat) : List Byte × Stream :=
  let bytes := (f.bytes.drop f.pos).take (4 * count)
  (bytes.take (bytes.length / 4 * 4), { f with pos := f.pos + bytes.length })

/-- The file `fopen` finds; the first sample is where the file is left. -/
def msuLoadTrack (file : Option (List Byte)) (g : Msu1) : Msu1 :=
  match file with
  | none => { g with track := none, playing := false, audioError := true }
  | some bytes =>
    match bytes with
    | 0x4D :: 0x53 :: 0x55 :: 0x31 :: h4 :: h5 :: h6 :: h7 :: _ =>
      { g with
          track := some ⟨bytes, 8⟩, playing := false, audioError := false, dataStart := 8
          loopPoint := h4.setWidth 32 ||| h5.setWidth 32 <<< 8 ||| h6.setWidth 32 <<< 16 |||
            h7.setWidth 32 <<< 24 }
    | _ =>
      { g with
          track := some ⟨bytes, 0⟩, playing := false, audioError := false, dataStart := 0
          loopPoint := 0 }

/-- `msu1_write` of register 7. -/
def msuControl (val : Byte) (g : Msu1) : Msu1 :=
  { g with
      repeats := val &&& 2 != 0
      playing := val &&& 1 != 0 && g.track.isSome && !g.audioError }

/-- `g.data_start + (long)g.loop_point * 4`. -/
def Msu1.loopOffset (g : Msu1) : Nat := g.dataStart + g.loopPoint.toNat * 4

/-- The loop of `msu_read_frames`; `dst` holds what was read so far.  A seek to a place in an
open file succeeds, and `looped` leaves the loop two turns. -/
def msuReadLoop (frames : Nat) : Nat → Bool → Stream → Msu1 → List Byte → List Byte × Msu1
  | 0, _, f, g, dst => (dst, { g with track := some f })
  | turns + 1, looped, f, g, dst =>
    if frames ≤ dst.length / 4 then (dst, { g with track := some f })
    else
      let (items, f) := f.readItems (frames - dst.length / 4)
      let dst := dst ++ items
      if frames ≤ dst.length / 4 then (dst, { g with track := some f })
      else if g.repeats && !looped then
        msuReadLoop frames turns true { f with pos := g.loopOffset } g dst
      else (dst, { g with track := some f, playing := false })

/-- The block, with silence after what was read, and how many frames were read. -/
def msuReadFrames (frames : Nat) (f : Stream) (g : Msu1) : List Byte × Nat × Msu1 :=
  let (dst, g) := msuReadLoop frames 2 false f g []
  (dst ++ List.replicate ((frames - dst.length / 4) * 4) 0, dst.length / 4, g)

/-! ### Playback -/

/-- One call of `msu1_mix`: nothing is read unless a track plays.  What is delivered are the
frames backed by audio. -/
def playBlock (frames : Nat) (g : Msu1) : List Byte × Msu1 :=
  match g.track with
  | none => ([], g)
  | some f =>
    if g.playing then
      let (dst, filled, g) := msuReadFrames frames f g
      (dst.take (filled * 4), g)
    else ([], g)

/-- A sequence of blocks, and all they deliver. -/
def playBlocks : List Nat → Msu1 → List Byte × Msu1
  | [], g => ([], g)
  | frames :: sizes, g =>
    let (out, g) := playBlock frames g
    let (rest, g) := playBlocks sizes g
    (out ++ rest, g)

/-- A track was selected and then play and repeat were set. -/
def startTrack (bytes : List Byte) (g : Msu1) : Msu1 :=
  msuControl 3 (msuLoadTrack (some bytes) g)

/-- The data of the track and the part of it that is repeated. -/
def Msu1.data (bytes : List Byte) (g : Msu1) : List Byte := bytes.drop g.dataStart

def Msu1.loopRegion (bytes : List Byte) (g : Msu1) : List Byte := bytes.drop g.loopOffset

/-- All that was asked for was delivered, it is the beginning of the track and of repetitions
of its loop region, and the track plays on. -/
def Seamless (bytes : List Byte) (sizes : List Nat) (g : Msu1) : Prop :=
  (playBlocks sizes g).2.playing = true ∧
    (playBlocks sizes g).1.length = 4 * sizes.sum ∧
    ∃ k, (playBlocks sizes g).1 <+:
      g.data bytes ++ (List.replicate k (g.loopRegion bytes)).flatten

/-- The block fits into the rest of the track and one loop region. -/
def Fits (frames : Nat) (g : Msu1) : Prop :=
  match g.track with
  | none => False
  | some f => frames * 4 ≤ (f.bytes.length - f.pos) + (f.bytes.length - g.loopOffset)

/-- Every block fits where it is asked for. -/
def AllFit : List Nat → Msu1 → Prop
  | [], _ => True
  | frames :: sizes, g => Fits frames g ∧ AllFit sizes (playBlock frames g).2

/-! ### One block -/

/-- A track of whole frames plays and is repeated, and stands at `pos`. -/
structure PlaysAt (bytes : List Byte) (off pos : Nat) (g : Msu1) : Prop where
  track : g.track = some ⟨bytes, pos⟩
  playing : g.playing = true
  repeats : g.repeats = true
  loopOffset : g.loopOffset = off
  pos_le : pos ≤ bytes.length
  whole : 4 ∣ bytes.length - pos

/-- The track has whole frames from the loop point on, at least one. -/
structure LoopsAt (bytes : List Byte) (off : Nat) : Prop where
  lt : off < bytes.length
  whole : 4 ∣ bytes.length - off

theorem readItems_eq {bytes : List Byte} {pos : Nat}
    (hwhole : 4 ∣ bytes.length - pos) (count : Nat) :
    Stream.readItems ⟨bytes, pos⟩ count = ((bytes.drop pos).take (4 * count),
      ⟨bytes, pos + min (4 * count) (bytes.length - pos)⟩) := by
  have hlen : ((bytes.drop pos).take (4 * count)).length =
      min (4 * count) (bytes.length - pos) := by
    rw [List.length_take, List.length_drop]
  have hfour : 4 ∣ min (4 * count) (bytes.length - pos) := by
    obtain h | h := min_choice (4 * count) (bytes.length - pos)
    · rw [h]
      exact Nat.dvd_mul_right 4 count
    · rw [h]
      exact hwhole
  simp only [Stream.readItems, hlen]
  rw [Nat.div_mul_cancel hfour, List.take_of_length_le (by rw [hlen])]

/-- What is left of the block is there. -/
theorem msuReadLoop_rest {bytes : List Byte} {pos frames : Nat}
    (hwhole : 4 ∣ bytes.length - pos) {dst : List Byte} (hdst : 4 ∣ dst.length)
    (hlt : dst.length < 4 * frames) (hfit : 4 * frames - dst.length ≤ bytes.length - pos)
    (turns : Nat) (looped : Bool) (g : Msu1) :
    msuReadLoop frames (turns + 1) looped ⟨bytes, pos⟩ g dst =
      (dst ++ (bytes.drop pos).take (4 * frames - dst.length),
        { g with track := some ⟨bytes, pos + (4 * frames - dst.length)⟩ }) := by
  obtain ⟨m, hm⟩ := hdst
  have hneed : 4 * (frames - dst.length / 4) = 4 * frames - dst.length := by omega
  have hmin : min (4 * frames - dst.length) (bytes.length - pos) = 4 * frames - dst.length :=
    min_eq_left hfit
  have hfull : frames ≤ (dst ++ (bytes.drop pos).take (4 * frames - dst.length)).length / 4 := by
    rw [List.length_append, List.length_take, List.length_drop, hmin]
    omega
  rw [msuReadLoop, if_neg (by omega), readItems_eq hwhole, hneed, hmin]
  simp only [if_pos hfull]

/-- The track ends before the block does. -/
theorem msuReadLoop_end {bytes : List Byte} {pos frames : Nat} (hle : pos ≤ bytes.length)
    (hwhole : 4 ∣ bytes.length - pos) {dst : List Byte} (hdst : 4 ∣ dst.length)
    (hlt : dst.length < 4 * frames) (hshort : bytes.length - pos < 4 * frames - dst.length)
    (turns : Nat) (looped : Bool) (g : Msu1) :
    msuReadLoop frames (turns + 1) looped ⟨bytes, pos⟩ g dst =
      if g.repeats && !looped then
        msuReadLoop frames turns true ⟨bytes, g.loopOffset⟩ g (dst ++ bytes.drop pos)
      else (dst ++ bytes.drop pos,
        { g with track := some ⟨bytes, bytes.length⟩, playing := false }) := by
  obtain ⟨m, hm⟩ := hdst
  obtain ⟨l, hl⟩ := hwhole
  have hneed : 4 * (frames - dst.length / 4) = 4 * frames - dst.length := by omega
  have hmin : min (4 * frames - dst.length) (bytes.length - pos) = bytes.length - pos :=
    min_eq_right (le_of_lt hshort)
  have htake : (bytes.drop pos).take (4 * frames - dst.length) = bytes.drop pos := by
    apply List.take_of_length_le
    rw [List.length_drop]
    omega
  have hmore : ¬frames ≤ (dst ++ bytes.drop pos).length / 4 := by
    rw [List.length_append, List.length_drop]
    omega
  rw [msuReadLoop, if_neg (by omega), readItems_eq ⟨l, hl⟩, hneed, hmin, htake]
  simp only [if_neg hmore]
  rw [show pos + (bytes.length - pos) = bytes.length by omega]

theorem playBlock_of_read {frames : Nat} {g g' : Msu1} {f : Stream} {dst : List Byte}
    (htrack : g.track = some f) (hplaying : g.playing = true) (hdst : 4 ∣ dst.length)
    (hread : msuReadLoop frames 2 false f g [] = (dst, g')) : playBlock frames g = (dst, g') := by
  simp only [playBlock, htrack, hplaying, if_true, msuReadFrames, hread]
  rw [Nat.div_mul_cancel hdst, List.take_left]

/-- A block that fits is read in full; the track stands where its data go on, behind one more
loop region when the block went round. -/
theorem playBlock_of_fits {bytes : List Byte} {off pos frames : Nat} {g : Msu1}
    (hloop : LoopsAt bytes off) (h : PlaysAt bytes off pos g) (hfit : Fits frames g) :
    ∃ pos' k, PlaysAt bytes off pos' (playBlock frames g).2 ∧
      (playBlock frames g).1.length = 4 * frames ∧
      (playBlock frames g).1 ++ bytes.drop pos' =
        bytes.drop pos ++ (List.replicate k (bytes.drop off)).flatten := by
  obtain ⟨l, hl⟩ := h.whole
  obtain ⟨m, hm⟩ := hloop.whole
  have hpos := h.pos_le
  have hofflt := hloop.lt
  have hroom : frames * 4 ≤ (bytes.length - pos) + (bytes.length - off) := by
    rw [Fits, h.track] at hfit
    simp only [h.loopOffset] at hfit
    exact hfit
  have hnil : 4 ∣ ([] : List Byte).length := Nat.dvd_zero 4
  by_cases hzero : frames = 0
  · have hread : playBlock frames g = ([], { g with track := some ⟨bytes, pos⟩ }) := by
      rw [hzero]
      exact playBlock_of_read h.track h.playing (Nat.dvd_zero 4) rfl
    rw [hread, hzero]
    exact ⟨pos, 0, { h with track := rfl }, rfl, (List.append_nil _).symm⟩
  · by_cases hrest : 4 * frames ≤ bytes.length - pos
    · have hloop' := msuReadLoop_rest h.whole hnil (show 0 < 4 * frames by omega) hrest 1 false g
      have hlen : ((bytes.drop pos).take (4 * frames)).length = 4 * frames := by
        rw [List.length_take, List.length_drop]
        omega
      have hread := playBlock_of_read h.track h.playing (by
        rw [List.nil_append, List.length_nil, Nat.sub_zero, hlen]
        exact Nat.dvd_mul_right 4 frames) hloop'
      simp only [List.nil_append, List.length_nil, Nat.sub_zero] at hread
      rw [hread]
      refine ⟨pos + 4 * frames, 0, ⟨rfl, h.playing, h.repeats, h.loopOffset, by omega, ?_⟩,
        hlen, ?_⟩
      · exact ⟨l - frames, by omega⟩
      · simp only [List.replicate_zero, List.flatten_nil, List.append_nil]
        rw [← List.drop_drop, List.take_append_drop]
    · have hend := msuReadLoop_end hpos h.whole hnil (show 0 < 4 * frames by omega)
        (Nat.lt_of_not_le hrest) 1 false g
      have hround : (g.repeats && !false) = true := by
        rw [h.repeats]
        rfl
      have hdrop : (bytes.drop pos).length = bytes.length - pos := List.length_drop
      have hmore := msuReadLoop_rest hloop.whole
        (show 4 ∣ ([] ++ bytes.drop pos).length by
          rw [List.nil_append, hdrop]
          exact h.whole)
        (show ([] ++ bytes.drop pos).length < 4 * frames by
          rw [List.nil_append, hdrop]
          omega)
        (show 4 * frames - ([] ++ bytes.drop pos).length ≤ bytes.length - off by
          rw [List.nil_append, hdrop]
          omega) 0 true g
      rw [if_pos hround, h.loopOffset, hmore, List.nil_append, hdrop] at hend
      obtain ⟨extra, hextra⟩ : ∃ extra, 4 * frames - (bytes.length - pos) = extra := ⟨_, rfl⟩
      rw [hextra] at hend
      have hlen : (bytes.drop pos ++ (bytes.drop off).take extra).length = 4 * frames := by
        rw [List.length_append, List.length_take, hdrop, List.length_drop]
        omega
      have hread := playBlock_of_read h.track h.playing (by
        rw [hlen]
        exact Nat.dvd_mul_right 4 frames) hend
      rw [hread]
      refine ⟨off + extra, 1, ⟨rfl, h.playing, h.repeats, h.loopOffset, by omega, ?_⟩, hlen, ?_⟩
      · exact ⟨m + l - frames, by omega⟩
      · rw [List.append_assoc, ← List.drop_drop, List.take_append_drop]
        simp

/-- A block that does not fit stops the track. -/
theorem playBlock_of_not_fits {bytes : List Byte} {off pos frames : Nat} {g : Msu1}
    (hloop : LoopsAt bytes off) (h : PlaysAt bytes off pos g) (hfit : ¬Fits frames g) :
    (playBlock frames g).2.playing = false := by
  have hpos := h.pos_le
  have hofflt := hloop.lt
  have hroom : (bytes.length - pos) + (bytes.length - off) < frames * 4 := by
    rw [Fits, h.track] at hfit
    simp only [h.loopOffset] at hfit
    exact Nat.lt_of_not_le hfit
  have hnil : 4 ∣ ([] : List Byte).length := Nat.dvd_zero 4
  have hend := msuReadLoop_end hpos h.whole hnil
    (show 0 < 4 * frames by omega) (show bytes.length - pos < 4 * frames by omega) 1 false g
  have hround : (g.repeats && !false) = true := by
    rw [h.repeats]
    rfl
  have hdrop : (bytes.drop pos).length = bytes.length - pos := List.length_drop
  have hstop := msuReadLoop_end (le_of_lt hofflt) hloop.whole
    (show 4 ∣ ([] ++ bytes.drop pos).length by
      rw [List.nil_append, hdrop]
      exact h.whole)
    (show ([] ++ bytes.drop pos).length < 4 * frames by
      rw [List.nil_append, hdrop]
      omega)
    (show bytes.length - off < 4 * frames - ([] ++ bytes.drop pos).length by
      rw [List.nil_append, hdrop]
      omega) 0 true g
  rw [Bool.not_true, Bool.and_false, if_neg Bool.false_ne_true] at hstop
  rw [if_pos hround, h.loopOffset, hstop] at hend
  have hwhole : 4 ∣ ([] ++ bytes.drop pos ++ bytes.drop off).length := by
    rw [List.nil_append, List.length_append, hdrop, List.length_drop]
    exact Nat.dvd_add h.whole hloop.whole
  rw [playBlock_of_read h.track h.playing hwhole hend]

/-! ### Sequences of blocks -/

theorem playBlocks_of_stopped (sizes : List Nat) {g : Msu1} (hstop : g.playing = false) :
    (playBlocks sizes g).2.playing = false := by
  induction sizes generalizing g with
  | nil => exact hstop
  | cons frames sizes ih =>
      have hstay : (playBlock frames g).2.playing = false := by
        rw [playBlock]
        cases g.track with
        | none => exact hstop
        | some f => simp [hstop]
      exact ih hstay

theorem allFit_of_playing {bytes : List Byte} {off pos : Nat} {g : Msu1}
    (hloop : LoopsAt bytes off) (h : PlaysAt bytes off pos g) {sizes : List Nat}
    (hplaying : (playBlocks sizes g).2.playing = true) : AllFit sizes g := by
  induction sizes generalizing g pos with
  | nil => exact True.intro
  | cons frames sizes ih =>
      by_cases hfit : Fits frames g
      · obtain ⟨pos', k, hnext, _⟩ := playBlock_of_fits hloop h hfit
        exact ⟨hfit, ih hnext hplaying⟩
      · have hstop := playBlocks_of_stopped sizes (playBlock_of_not_fits hloop h hfit)
        rw [playBlocks] at hplaying
        exact absurd (hplaying.symm.trans hstop) (by decide)

/-- What blocks that fit deliver, one after the other. -/
theorem playBlocks_of_allFit {bytes : List Byte} {off pos : Nat} {g : Msu1}
    (hloop : LoopsAt bytes off) (h : PlaysAt bytes off pos g) {sizes : List Nat}
    (hfit : AllFit sizes g) :
    ∃ pos' k, PlaysAt bytes off pos' (playBlocks sizes g).2 ∧
      (playBlocks sizes g).1.length = 4 * sizes.sum ∧
      (playBlocks sizes g).1 ++ bytes.drop pos' =
        bytes.drop pos ++ (List.replicate k (bytes.drop off)).flatten := by
  induction sizes generalizing g pos with
  | nil => exact ⟨pos, 0, h, rfl, (List.append_nil _).symm⟩
  | cons frames sizes ih =>
      obtain ⟨pos₁, k₁, hnext, hlen₁, hout₁⟩ := playBlock_of_fits hloop h hfit.1
      obtain ⟨pos₂, k₂, hlast, hlen₂, hout₂⟩ := ih hnext hfit.2
      refine ⟨pos₂, k₁ + k₂, hlast, ?_, ?_⟩
      · rw [playBlocks, List.length_append, hlen₁, hlen₂, List.sum_cons]
        omega
      · rw [playBlocks, List.append_assoc, hout₂, ← List.append_assoc, hout₁, List.append_assoc,
          ← List.flatten_append, List.replicate_append_replicate]

theorem msuLoadTrack_some (bytes : List Byte) (g : Msu1) :
    (msuLoadTrack (some bytes) g).track =
        some ⟨bytes, (msuLoadTrack (some bytes) g).dataStart⟩ ∧
      (msuLoadTrack (some bytes) g).audioError = false := by
  dsimp only [msuLoadTrack]
  split
  · exact ⟨rfl, rfl⟩
  · exact ⟨rfl, rfl⟩

theorem startTrack_playsAt (bytes : List Byte) (g : Msu1)
    (hwhole : 4 ∣ ((startTrack bytes g).data bytes).length)
    (hloop : (startTrack bytes g).loopOffset < bytes.length) :
    PlaysAt bytes (startTrack bytes g).loopOffset (startTrack bytes g).dataStart
      (startTrack bytes g) := by
  obtain ⟨htrack, herror⟩ := msuLoadTrack_some bytes g
  have hplaying : (startTrack bytes g).playing = true := by
    rw [startTrack, msuControl, htrack, herror]
    rfl
  refine ⟨htrack, hplaying, rfl, rfl, ?_, ?_⟩
  · exact le_trans (Nat.le_add_right _ _) (le_of_lt hloop)
  · rw [Msu1.data, List.length_drop] at hwhole
    exact hwhole

theorem startTrack_loopsAt (bytes : List Byte) (g : Msu1)
    (hwhole : 4 ∣ ((startTrack bytes g).data bytes).length)
    (hloop : (startTrack bytes g).loopOffset < bytes.length) :
    LoopsAt bytes (startTrack bytes g).loopOffset := by
  refine ⟨hloop, ?_⟩
  rw [Msu1.data, List.length_drop] at hwhole
  obtain ⟨n, hn⟩ := hwhole
  rw [Msu1.loopOffset] at hloop ⊢
  exact ⟨n - (startTrack bytes g).loopPoint.toNat, by omega⟩

/-- **Playback is seamless exactly when every block fits**: the blocks deliver what they ask
for, the track and then its loop region over and over, and the track plays on, if and only if
each block fits into what is left of the track where it is asked for and one loop region. -/
theorem playback_seamless_iff (bytes : List Byte) (g : Msu1) (sizes : List Nat)
    (hwhole : 4 ∣ ((startTrack bytes g).data bytes).length)
    (hloop : (startTrack bytes g).loopOffset < bytes.length) :
    Seamless bytes sizes (startTrack bytes g) ↔ AllFit sizes (startTrack bytes g) := by
  have hplays := startTrack_playsAt bytes g hwhole hloop
  have hloops := startTrack_loopsAt bytes g hwhole hloop
  constructor
  · intro hseamless
    exact allFit_of_playing hloops hplays hseamless.1
  · intro hfit
    obtain ⟨pos', k, hlast, hlen, hout⟩ := playBlocks_of_allFit hloops hplays hfit
    exact ⟨hlast.playing, hlen, k, _, hout⟩

/-- A track of three frames that loops at the last one, and blocks of two. -/
def shortLoop : List Byte :=
  [0x4D, 0x53, 0x55, 0x31, 2, 0, 0, 0, 1, 1, 1, 1, 2, 2, 2, 2, 3, 3, 3, 3]

def msuOff : Msu1 := ⟨none, false, false, false, 0, 0⟩

theorem playback_seamless_shortLoop :
    Seamless shortLoop [2, 2, 1] (startTrack shortLoop msuOff) ↔
      AllFit [2, 2, 1] (startTrack shortLoop msuOff) :=
  playback_seamless_iff shortLoop msuOff [2, 2, 1] (by decide) (by decide)

/-- A block of the size `msu1_mix` asks for has to go round the loop many times; the track
stops after one. -/
theorem playback_stops_in_block :
    4 ∣ ((startTrack shortLoop msuOff).data shortLoop).length ∧
      (startTrack shortLoop msuOff).loopOffset < shortLoop.length ∧
      ¬Seamless shortLoop [735] (startTrack shortLoop msuOff) := by
  refine ⟨by decide, by decide, ?_⟩
  rintro ⟨hplaying, _⟩
  revert hplaying
  decide

end SnesRecomp
