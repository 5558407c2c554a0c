import SnesRecomp.Lib.Ring
import SnesRecomp.Lib.Runs
import Mathlib.Data.Rat.Floor

/-!
# The output ring of the sound DSP

`dsp_cycle` writes each sample into a ring of 8192 unless it is full, `dsp_getSamples` reads a
block of 534 from it and resamples the block.  Both counters wrap round at `2 ^ 32`.  Whatever
the order of the two, the blocks that were read and what is left in the ring are the samples
that were not dropped (`dspRun_fifo`).
-/

namespace SnesRecomp

/-! ### The source -/

/-- `DSP_SAMPLE_RING`. -/
def dspSampleRing : Nat := 8192

/-- The ring of `Dsp`; a sample is both channels. -/
structure DspRing (α : Type) where
  sampleBuffer : Nat → α
  sampleWrite : BitVec 32
  sampleRead : BitVec 32

variable {α : Type}

/-- The end of `dsp_cycle`, with the sample and whether it is dropped. -/
def dspCycleWrite (total : α) (dsp : DspRing α) : DspRing α × Bool :=
  let fill := dsp.sampleWrite - dsp.sampleRead
  let dropped := decide (dspSampleRing ≤ fill.toNat)
  if dropped then (dsp, true)
  else
    let w := dsp.sampleWrite &&& 8191#32
    ({ dsp with
        sampleBuffer := Function.update dsp.sampleBuffer w.toNat total
        sampleWrite := dsp.sampleWrite + 1 }, false)

/-- The loop of `dsp_getSamples`, with `turns` turns to go. -/
def resample (sampleBuffer : Nat → α) (base : BitVec 32) (adder : ℚ) : Nat → ℚ → List α
  | 0, _ => []
  | turns + 1, location =>
    let idx := (base + BitVec.ofNat 32 ⌊location⌋.toNat) &&& 8191#32
    sampleBuffer idx.toNat :: resample sampleBuffer base adder turns (location + adder)

/-- What it puts out, and the ring it leaves. -/
def dspGetSamples (samplesPerFrame : Nat) (dsp : DspRing α) : List α × DspRing α :=
  (resample dsp.sampleBuffer dsp.sampleRead (534 / samplesPerFrame) samplesPerFrame 0,
    { dsp with sampleRead := dsp.sampleRead + 534 })

/-- `DSP_AVAIL`. -/
def dspAvail (dsp : DspRing α) : BitVec 32 := dsp.sampleWrite - dsp.sampleRead

/-! ### Runs -/

/-- The two threads, each holding the lock. -/
inductive DspEvent (α : Type)
  /-- `dsp_cycle` of either thread makes this sample. -/
  | cycle (total : α)
  /-- `dsp_getSamples`, once there is a block. -/
  | getSamples (samplesPerFrame : Nat)

/-- The ring, the samples that were not dropped, the blocks that were read and what was made
of each. -/
structure DspRun (α : Type) where
  dsp : DspRing α
  kept : List α
  blocks : List (List α)
  outputs : List (List α)

/-- The 534 samples from the read counter on. -/
def dspBlock (dsp : DspRing α) : List α :=
  (List.range 534).map fun i =>
    dsp.sampleBuffer ((dsp.sampleRead + BitVec.ofNat 32 i) &&& 8191#32).toNat

def dspStep : DspEvent α → DspRun α → DspRun α
  | .cycle total, t =>
    let (dsp, dropped) := dspCycleWrite total t.dsp
    { t with dsp := dsp, kept := if dropped then t.kept else t.kept ++ [total] }
  -- `RtlRenderAudio` makes samples until there is a block
  | .getSamples samplesPerFrame, t =>
    if (dspAvail t.dsp).toNat < 534 then t
    else
      let (out, dsp) := dspGetSamples samplesPerFrame t.dsp
      { t with dsp := dsp, blocks := t.blocks ++ [dspBlock t.dsp], outputs := t.outputs ++ [out] }

/-- A ring that is empty, its counters anywhere. -/
def dspStart (sampleBuffer : Nat → α) (count : BitVec 32) : DspRun α :=
  ⟨⟨sampleBuffer, count, count⟩, [], [], []⟩

/-! ### The ring as a queue -/

def DspRing.toRing (dsp : DspRing α) : Ring 32 α :=
  ⟨dsp.sampleBuffer, dsp.sampleWrite, dsp.sampleRead⟩

theorem dspSampleRing_dvd : dspSampleRing ∣ 2 ^ 32 := ⟨2 ^ 19, by decide⟩

/-- `& (DSP_SAMPLE_RING - 1)`. -/
theorem and_ringMask (c : BitVec 32) : (c &&& 8191#32).toNat = c.toNat % dspSampleRing := by
  rw [BitVec.toNat_and]
  exact Nat.and_two_pow_sub_one_eq_mod c.toNat 13

theorem dspCycleWrite_full {dsp : DspRing α} (h : dspSampleRing ≤ dsp.toRing.fill) (total : α) :
    dspCycleWrite total dsp = (dsp, true) := by
  have hdrop : decide (dspSampleRing ≤ (dsp.sampleWrite - dsp.sampleRead).toNat) = true :=
    decide_eq_true h
  rw [dspCycleWrite]
  simp only [hdrop, if_true]

theorem dspCycleWrite_room {dsp : DspRing α} (h : dsp.toRing.fill < dspSampleRing) (total : α) :
    ∃ dsp', dspCycleWrite total dsp = (dsp', false) ∧
      dsp'.toRing = dsp.toRing.push dspSampleRing total := by
  have hdrop : decide (dspSampleRing ≤ (dsp.sampleWrite - dsp.sampleRead).toNat) = false :=
    decide_eq_false (Nat.not_le_of_lt h)
  refine ⟨{ dsp with
      sampleBuffer := Function.update dsp.sampleBuffer (dsp.sampleWrite &&& 8191#32).toNat total
      sampleWrite := dsp.sampleWrite + 1 }, ?_, ?_⟩
  · rw [dspCycleWrite]
    simp only [hdrop]
    rfl
  · rw [and_ringMask]
    rfl

theorem dspBlock_eq (dsp : DspRing α) :
    dspBlock dsp = (List.range 534).map (dsp.toRing.entry dspSampleRing) := by
  apply List.map_congr_left
  intro i _
  rw [and_ringMask]
  rfl

theorem dspBlock_length (dsp : DspRing α) : (dspBlock dsp).length = 534 := by
  rw [dspBlock, List.length_map, List.length_range]

theorem dspBlock_getElem? (dsp : DspRing α) {i : Nat} (hi : i < 534) :
    (dspBlock dsp)[i]? =
      some (dsp.sampleBuffer ((dsp.sampleRead + BitVec.ofNat 32 i) &&& 8191#32).toNat) := by
  rw [dspBlock, List.getElem?_map, List.getElem?_range hi, Option.map_some]

/-! ### Resampling -/

theorem resample_length (sampleBuffer : Nat → α) (base : BitVec 32) (adder : ℚ) (turns : Nat)
    (location : ℚ) : (resample sampleBuffer base adder turns location).length = turns := by
  induction turns generalizing location with
  | zero => rfl
  | succ turns ih => rw [resample, List.length_cons, ih]

theorem resample_getElem? (sampleBuffer : Nat → α) (base : BitVec 32) (adder : ℚ)
    {turns k : Nat} (hk : k < turns) (location : ℚ) :
    (resample sampleBuffer base adder turns location)[k]? = some (sampleBuffer
      ((base + BitVec.ofNat 32 ⌊location + k * adder⌋.toNat) &&& 8191#32).toNat) := by
  induction turns generalizing k location with
  | zero => omega
  | succ turns ih =>
      cases k with
      | zero => simp [resample]
      | succ k =>
          rw [resample, List.getElem?_cons_succ, ih (by omega)]
          have hloc : location + adder + k * adder = location + (k + 1 : ℕ) * adder := by
            push_cast
            ring
          rw [hloc]

/-- Where the loop is on its turn `k`. -/
theorem floor_location (samplesPerFrame k : Nat) :
    ⌊(0 : ℚ) + k * (534 / samplesPerFrame)⌋.toNat = k * 534 / samplesPerFrame := by
  have hloc : (0 : ℚ) + k * (534 / samplesPerFrame) = ((k * 534 : ℕ) : ℚ) / samplesPerFrame := by
    push_cast
    ring
  rw [hloc, Rat.floor_natCast_div_natCast]
  exact Int.toNat_natCast _

/-- An output sample is taken from inside the block. -/
theorem dspGetSamples_getElem? (dsp : DspRing α) {samplesPerFrame k : Nat}
    (hk : k < samplesPerFrame) :
    k * 534 / samplesPerFrame < 534 ∧ (dspGetSamples samplesPerFrame dsp).1[k]? =
      (dspBlock dsp)[k * 534 / samplesPerFrame]? := by
  have hin : k * 534 / samplesPerFrame < 534 := by
    apply Nat.div_lt_of_lt_mul
    exact (Nat.mul_lt_mul_right (by omega)).mpr hk
  refine ⟨hin, ?_⟩
  rw [dspBlock_getElem? dsp hin, dspGetSamples, resample_getElem? _ _ _ hk, floor_location]

/-! ### The invariant -/

/-- `out` is made of samples of `block`. -/
def ResampledFrom (block out : List α) : Prop :=
  block.length = 534 ∧ ∀ k < out.length, k * 534 / out.length < 534 ∧
    out[k]? = block[k * 534 / out.length]?

structure DspRun.Inv (t : DspRun α) : Prop where
  fill_le : t.dsp.toRing.fill ≤ dspSampleRing
  fifo : t.blocks.flatten ++ t.dsp.toRing.contents dspSampleRing = t.kept
  outputs : List.Forall₂ ResampledFrom t.blocks t.outputs

theorem dspStart_inv (sampleBuffer : Nat → α) (count : BitVec 32) :
    (dspStart sampleBuffer count).Inv := by
  have hfill : (dspStart sampleBuffer count).dsp.toRing.fill = 0 := by
    change (count - count).toNat = 0
    rw [BitVec.sub_self]
    rfl
  refine ⟨by omega, ?_, List.Forall₂.nil⟩
  rw [Ring.contents, hfill]
  rfl

theorem dspStep_inv (event : DspEvent α) (t : DspRun α) (h : t.Inv) : (dspStep event t).Inv := by
  cases event with
  | cycle total =>
      by_cases hfull : dspSampleRing ≤ t.dsp.toRing.fill
      · rw [dspStep, dspCycleWrite_full hfull]
        exact h
      · obtain ⟨dsp', hrun, hring⟩ := dspCycleWrite_room (Nat.lt_of_not_le hfull) total
        have hroom : t.dsp.toRing.fill < 8192 := Nat.lt_of_not_le hfull
        rw [dspStep, hrun]
        refine ⟨?_, ?_, h.outputs⟩
        · change dsp'.toRing.fill ≤ 8192
          rw [hring, Ring.fill_push (by omega)]
          omega
        · change t.blocks.flatten ++ dsp'.toRing.contents dspSampleRing = t.kept ++ [total]
          rw [hring, Ring.contents_push dspSampleRing_dvd hroom (by omega), ← List.append_assoc,
            h.fifo]
  | getSamples samplesPerFrame =>
      by_cases hfew : (dspAvail t.dsp).toNat < 534
      · rw [dspStep, if_pos hfew]
        exact h
      · have hn : 534 ≤ t.dsp.toRing.fill := Nat.le_of_not_lt hfew
        have hring : (dspGetSamples samplesPerFrame t.dsp).2.toRing = t.dsp.toRing.pop 534 := rfl
        rw [dspStep, if_neg hfew]
        refine ⟨?_, ?_, ?_⟩
        · change (dspGetSamples samplesPerFrame t.dsp).2.toRing.fill ≤ dspSampleRing
          have hle := h.fill_le
          rw [hring, Ring.fill_pop hn]
          omega
        · change (t.blocks ++ [dspBlock t.dsp]).flatten ++
            (dspGetSamples samplesPerFrame t.dsp).2.toRing.contents dspSampleRing = t.kept
          rw [hring, List.flatten_append, List.flatten_singleton, List.append_assoc, dspBlock_eq,
            ← Ring.contents_pop dspSampleRing_dvd hn]
          exact h.fifo
        · apply List.rel_append h.outputs
          refine List.Forall₂.cons ⟨dspBlock_length t.dsp, ?_⟩ List.Forall₂.nil
          have hlen : (dspGetSamples samplesPerFrame t.dsp).1.length = samplesPerFrame :=
            resample_length ..
          rw [hlen]
          intro k hk
          exact dspGetSamples_getElem? t.dsp hk

/-- **The output ring is a queue**: whatever the order of the samples that are made and the
blocks that are read, and wherever the counters are, the ring never holds more than 8192
samples and drops one exactly when it holds that many; the blocks that were read, one after
the other, and then what is left are the samples that were not dropped; and each output sample
is taken from inside its block. -/
theorem dspRun_fifo (sampleBuffer : Nat → α) (count : BitVec 32) (events : List (DspEvent α)) :
    let t := Runs.final dspStep events (dspStart sampleBuffer count)
    (dspAvail t.dsp).toNat ≤ dspSampleRing ∧
      (∀ total, (dspCycleWrite total t.dsp).2 = true ↔
        (dspAvail t.dsp).toNat = dspSampleRing) ∧
      (∃ left, left.length = (dspAvail t.dsp).toNat ∧ t.blocks.flatten ++ left = t.kept) ∧
      List.Forall₂ ResampledFrom t.blocks t.outputs := by
  intro t
  have hinv : t.Inv :=
    Runs.final_of_step dspStep dspStep_inv events _ (dspStart_inv sampleBuffer count)
  refine ⟨hinv.fill_le, fun total => ?_, ⟨_, Ring.contents_length _, hinv.fifo⟩, hinv.outputs⟩
  have hle : (dspAvail t.dsp).toNat ≤ dspSampleRing := hinv.fill_le
  have hdrop : (dspCycleWrite total t.dsp).2 = true ↔
      dspSampleRing ≤ (dspAvail t.dsp).toNat := by
    by_cases hfull : dspSampleRing ≤ t.dsp.toRing.fill
    · rw [dspCycleWrite_full hfull]
      exact ⟨fun _ => hfull, fun _ => rfl⟩
    · obtain ⟨dsp', hrun, _⟩ := dspCycleWrite_room (Nat.lt_of_not_le hfull) total
      rw [hrun]
      exact ⟨fun hdropped => (by cases hdropped), fun hfull' => absurd hfull' hfull⟩
  rw [hdrop]
  omega

end SnesRecomp
