import SnesRecomp.Devices.Dsp
import Mathlib.Dynamics.PeriodicPts.Lemmas
import Mathlib.NumberTheory.Divisors
import Mathlib.Tactic.Linarith

/-!
# Runs of the sound DSP

The sound processor stores to the registers and to sound RAM, and the DSP makes its cycles, in any
order.  From a reset on:

* `dspRun_wellFormed`: envelopes, samples, decoder positions and echo indices stay in their ranges, so
  that a voice, modulated or not, reads inside its buffer and takes at most one block a cycle;
* `dspRun_noise`: the noise is the shift register of period 32767, and never stops;
* `dspRun_silent`: a voice whose key is held off is silent after 257 cycles;
* `dspRun_echo`: sound RAM only changes inside the echo buffer.
-/

namespace SnesRecomp

/-! ### Ranges -/

/-- The 15-bit samples of a voice. -/
def InRange15 (x : Int) : Prop := -0x4000 ≤ x ∧ x ≤ 0x3FFF

instance (x : Int) : Decidable (InRange15 x) := inferInstanceAs (Decidable (_ ∧ _))

theorem clamp16_range (x : Int) : -0x8000 ≤ clamp16 x ∧ clamp16 x ≤ 0x7FFF := by
  unfold clamp16
  split
  · omega
  · split <;> omega

theorem clip15_range (x : Int) : InRange15 (clip15 x) := by
  unfold InRange15 clip15 int16
  omega

theorem int16_of_range {x : Int} (h : InRange15 x) : int16 x = x := by
  obtain ⟨hlow, hhigh⟩ := h
  unfold int16
  omega

theorem getSample_range (c : DspChannel) (sampleNum offset : Nat) :
    InRange15 (getSample c sampleNum offset) := by
  obtain ⟨hlow, hhigh⟩ := clamp16_range (int16 (gauss (0xFF - offset) * c.decodeBuffer sampleNum / 1024 +
    gauss (0x1FF - offset) * c.decodeBuffer (sampleNum + 1) / 1024 +
    gauss (0x100 + offset) * c.decodeBuffer (sampleNum + 2) / 1024) +
      gauss offset * c.decodeBuffer (sampleNum + 3) / 1024)
  unfold getSample InRange15
  dsimp only
  omega

/-- An envelope makes a sample smaller. -/
theorem scaled_range {sample : Int} (h : InRange15 sample) {gain : Nat} (hgain : gain ≤ 0x7FF) :
    InRange15 (sample * gain / 2048) := by
  obtain ⟨hlow, hhigh⟩ := h
  have hg : (0 : Int) ≤ gain ∧ (gain : Int) ≤ 0x7FF := by omega
  have hbelow : -0x4000 * 2048 ≤ sample * (gain : Int) := by nlinarith
  have habove : sample * (gain : Int) ≤ 0x3FFF * 2048 := by nlinarith
  unfold InRange15
  omega

/-! ### Well-formed states -/

/-- What holds of a voice. -/
structure DspChannel.Wf (c : DspChannel) : Prop where
  pitch : c.pitch ≤ 0x3FFF
  pitchCounter : c.pitchCounter ≤ 0xFFFF
  decodeBuffer : ∀ i, InRange15 (c.decodeBuffer i)
  old : InRange15 c.old
  older : InRange15 c.older
  decodeOffset : c.decodeOffset ≤ 0xFFFF
  previousFlags : c.previousFlags ≤ 3
  adsrRates : ∀ state, c.adsrRates state ≤ 2048
  rateCounter : c.rateCounter < 2048
  gainMode : c.gainMode ≤ 3
  gainValue : c.gainValue ≤ 0x7F0
  gain : c.gain ≤ 0x7FF
  sampleOut : InRange15 c.sampleOut

/-- What holds of the echo: the sample `echoBufferIndex` is in a buffer of the length that was in force
when it began. -/
structure Dsp.EchoWf (dsp : Dsp) : Prop where
  delay_pos : 1 ≤ dsp.echoDelay
  delay_le : dsp.echoDelay ≤ 7680
  remain_pos : 1 ≤ dsp.echoRemain
  index_le : dsp.echoBufferIndex + dsp.echoRemain ≤ 7680
  fir : dsp.firBufferIndex ≤ 7

structure Dsp.Wf (dsp : Dsp) : Prop where
  channel : ∀ ch, (dsp.channel ch).Wf
  noise : InRange15 dsp.noiseSample
  echo : dsp.EchoWf

@[simp] theorem setChannel_channel (dsp : Dsp) (ch : Fin 8) (c : DspChannel) :
    (dsp.setChannel ch c).channel ch = c := Function.update_self ..

theorem setChannel_channel_ne (dsp : Dsp) {ch i : Fin 8} (h : i ≠ ch) (c : DspChannel) :
    (dsp.setChannel ch c).channel i = dsp.channel i := Function.update_of_ne h ..

theorem Dsp.Wf.setChannel {dsp : Dsp} (h : dsp.Wf) (ch : Fin 8) {c : DspChannel} (hc : c.Wf) :
    (dsp.setChannel ch c).Wf where
  channel i := by
    by_cases hi : i = ch
    · rw [hi, setChannel_channel]
      exact hc
    · rw [setChannel_channel_ne dsp hi]
      exact h.channel i
  noise := h.noise
  echo := ⟨h.echo.delay_pos, h.echo.delay_le, h.echo.remain_pos, h.echo.index_le, h.echo.fir⟩

theorem Dsp.Wf.setRam {dsp : Dsp} (h : dsp.Wf) (ram : Nat → Byte) : ({ dsp with ram := ram } : Dsp).Wf :=
  ⟨h.channel, h.noise, ⟨h.echo.delay_pos, h.echo.delay_le, h.echo.remain_pos, h.echo.index_le, h.echo.fir⟩⟩

theorem reset_wf : DspChannel.reset.Wf where
  pitch := Nat.zero_le _
  pitchCounter := Nat.zero_le _
  decodeBuffer _ := (by decide : InRange15 0)
  old := by decide
  older := by decide
  decodeOffset := Nat.zero_le _
  previousFlags := Nat.zero_le _
  adsrRates _ := Nat.zero_le _
  rateCounter := by decide
  gainMode := Nat.zero_le _
  gainValue := Nat.zero_le _
  gain := Nat.zero_le _
  sampleOut := by decide

theorem dspReset_wf (apuRam : Nat → Byte) : (dspReset apuRam).Wf :=
  ⟨fun _ => reset_wf, (by decide : InRange15 (-0x4000)), ⟨(by decide : 1 ≤ 1), (by decide : 1 ≤ 7680),
    (by decide : 1 ≤ 1), (by decide : 0 + 1 ≤ 7680), Nat.zero_le _⟩⟩

/-! ### Blocks -/

theorem ramWord_le (dsp : Dsp) (adr : Nat) : dsp.ramWord adr ≤ 0xFFFF := by
  unfold Dsp.ramWord
  omega

theorem brrEnd_wf (ch : Fin 8) {dsp : Dsp} (h : dsp.Wf) : (brrEnd ch dsp).Wf := by
  have hc := h.channel ch
  unfold brrEnd
  dsimp only
  split
  next =>
    refine (h.setChannel ch ?_).setRam _
    split
    next => exact { hc with decodeOffset := ramWord_le _ _, gain := Nat.zero_le _ }
    next => exact { hc with decodeOffset := ramWord_le _ _ }
  next => exact h

/-- What holds of the loop of the decoder. -/
structure BrrState.Wf (b : BrrState) : Prop where
  decodeOffset : b.decodeOffset ≤ 0xFFFF
  old : InRange15 b.old
  older : InRange15 b.older
  decodeBuffer : ∀ i, InRange15 (b.decodeBuffer i)

theorem brrTurn_wf (apuRam : Nat → Byte) (shift filter : Nat) {b : BrrState} (h : b.Wf) (i : Nat) :
    (brrTurn apuRam shift filter b i).Wf where
  decodeOffset := by
    unfold brrTurn
    dsimp only
    have hle := h.decodeOffset
    split <;> omega
  old := clip15_range _
  older := h.old
  decodeBuffer j := by
    unfold brrTurn
    dsimp only
    by_cases hj : j = i + 3
    · rw [hj, Function.update_self]
      exact clip15_range _
    · rw [Function.update_of_ne hj]
      exact h.decodeBuffer j

theorem brrTurns_wf (apuRam : Nat → Byte) (shift filter : Nat) (turns : List Nat) {b : BrrState}
    (h : b.Wf) : (turns.foldl (brrTurn apuRam shift filter) b).Wf := by
  induction turns generalizing b with
  | nil => exact h
  | cons i turns ih => exact ih (brrTurn_wf apuRam shift filter h i)

theorem decodeBrr_wf (ch : Fin 8) {dsp : Dsp} (h : dsp.Wf) : (decodeBrr ch dsp).Wf := by
  have hc := h.channel ch
  have hkept : ({ dsp.channel ch with decodeBuffer := keepLast (dsp.channel ch).decodeBuffer } :
      DspChannel).Wf := by
    refine { hc with decodeBuffer := fun i => ?_ }
    dsimp only [keepLast]
    split
    next => exact hc.decodeBuffer _
    next => exact hc.decodeBuffer _
  have hend := brrEnd_wf ch (h.setChannel ch hkept)
  have hstart := hend.channel ch
  unfold decodeBrr
  dsimp only
  generalize brrEnd ch (dsp.setChannel ch
    { dsp.channel ch with decodeBuffer := keepLast (dsp.channel ch).decodeBuffer }) = dsp' at *
  have hloop := brrTurns_wf dsp'.apuRam ((dsp'.apuRam (dsp'.channel ch).decodeOffset).toNat / 16)
    ((dsp'.apuRam (dsp'.channel ch).decodeOffset).toNat % 16 / 4) (List.range 16)
    (b := ⟨((dsp'.channel ch).decodeOffset + 1) % 0x10000, 0, (dsp'.channel ch).old,
      (dsp'.channel ch).older, (dsp'.channel ch).decodeBuffer⟩)
    ⟨by dsimp only; omega, hstart.old, hstart.older, hstart.decodeBuffer⟩
  exact hend.setChannel ch
    { hstart with
      decodeOffset := hloop.decodeOffset, previousFlags := by dsimp only; omega
      decodeBuffer := hloop.decodeBuffer, old := hloop.old, older := hloop.older }

/-! ### Envelopes -/

theorem linearUp_le (gain step : Nat) : linearUp gain step ≤ 0x7FF := by
  unfold linearUp
  dsimp only
  split <;> omega

theorem linearDown_le (gain step : Nat) : linearDown gain step ≤ 0x7FF := by
  unfold linearDown
  dsimp only
  split <;> omega

/-- The exponential decrease does not wrap. -/
theorem expStep_le {gain : Nat} (h : gain ≤ 0x7FF) : expStep gain ≤ gain := by
  have hstep : 0 ≤ (gain : Int) - (((gain : Int) - 1) / 256 + 1) := by omega
  unfold expStep toU16
  rw [Int.emod_eq_of_lt hstep (by omega)]
  omega

theorem handleGain_wf {c : DspChannel} (h : c.Wf) : (handleGain c).Wf := by
  have hexp : expStep c.gain ≤ 0x7FF := (expStep_le h.gain).trans h.gain
  unfold handleGain
  split
  next => exact { h with gain := linearUp_le _ _ }
  next => exact { h with gain := hexp }
  next => exact { h with gain := hexp }
  next =>
    split
    next => exact { h with gain := linearDown_le _ _ }
    next => exact { h with gain := hexp }
    next => exact { h with gain := linearUp_le _ _ }
    next => exact { h with gain := linearUp_le _ _ }
    next => exact h
  next => exact { h with gain := linearDown_le _ _ }

/-- The counter stays below the rate that resets it. -/
theorem envelope_wf {c : DspChannel} (h : c.Wf) : (envelope c).Wf := by
  have hdirect : ∀ (direct : Bool) {c : DspChannel}, c.Wf →
      (if direct then { c with gain := c.gainValue } else c).Wf := by
    intro direct c hc
    cases direct with
    | false => exact hc
    | true => exact { hc with gain := hc.gainValue.trans (by decide) }
  have hcount := h.rateCounter
  have hrate := h.adsrRates c.adsrState
  by_cases hrel : c.adsrState = .release
  · simp only [envelope, hrel, decide_true, Bool.not_true, Bool.false_and, Bool.false_eq_true,
      if_false, Bool.true_or, if_true]
    exact handleGain_wf h
  · simp only [envelope, hrel, decide_false, Bool.not_false, Bool.true_and, Bool.false_or,
      Bool.false_eq_true, if_false]
    cases hcounts : !(c.useGain && c.directGain) && decide (c.adsrRates c.adsrState ≠ 0) with
    | false =>
      simp only [Bool.false_eq_true, if_false, Bool.false_and]
      exact hdirect _ h
    | true =>
      simp only [if_true, Bool.true_and]
      by_cases hdue : c.adsrRates c.adsrState ≤ (c.rateCounter + 1) % 0x10000
      · simp only [hdue, decide_true, if_true]
        exact hdirect _ (handleGain_wf { h with rateCounter := Nat.zero_lt_succ _ })
      · simp only [hdue, decide_false, Bool.false_eq_true, if_false]
        exact hdirect _ { h with rateCounter := by dsimp only; omega }

theorem pollKeys_wf {dsp : Dsp} {c : DspChannel} (h : c.Wf) : (pollKeys dsp c).Wf := by
  unfold pollKeys
  split
  next => exact { h with }
  next =>
    split
    next =>
      exact
        { h with
          previousFlags := Nat.zero_le _, decodeOffset := ramWord_le _ _
          decodeBuffer := fun _ => (by decide : InRange15 0), gain := Nat.zero_le _ }
    next => exact h

theorem voiceEnvelope_wf {dsp : Dsp} {c : DspChannel} (h : c.Wf) : (voiceEnvelope dsp c).Wf := by
  have hpoll : (if dsp.evenCycle then pollKeys dsp c else c).Wf := by
    split
    next => exact pollKeys_wf h
    next => exact h
  unfold voiceEnvelope
  dsimp only
  generalize (if dsp.evenCycle then pollKeys dsp c else c) = c' at *
  split
  next => exact envelope_wf { hpoll with gain := Nat.zero_le _ }
  next => exact envelope_wf hpoll

/-! ### Voices -/

theorem pitch_le {dsp : Dsp} (h : dsp.Wf) (ch : Fin 8) : dsp.pitch ch ≤ 0x3FFF := by
  unfold Dsp.pitch
  dsimp only
  split
  next => split <;> omega
  next => exact (h.channel ch).pitch

theorem voiceSample_wf (ch : Fin 8) {dsp : Dsp} (h : dsp.Wf) :
    (voiceSample ch dsp).1.Wf ∧ InRange15 (voiceSample ch dsp).2 := by
  have hdecoded : (if 0xFFFF < (dsp.channel ch).pitchCounter + dsp.pitch ch then decodeBrr ch dsp else dsp).Wf := by
    split
    next => exact decodeBrr_wf ch h
    next => exact h
  unfold voiceSample
  dsimp only
  generalize (if 0xFFFF < (dsp.channel ch).pitchCounter + dsp.pitch ch then decodeBrr ch dsp else dsp) = dsp' at *
  refine ⟨hdecoded.setChannel ch { hdecoded.channel ch with pitchCounter := by dsimp only; omega }, ?_⟩
  split
  next => exact hdecoded.noise
  next => exact getSample_range _ _ _

theorem DspChannel.Wf.setOut {c : DspChannel} (h : c.Wf) {out : Int} (hout : InRange15 out) :
    ({ c with sampleOut := out } : DspChannel).Wf := { h with sampleOut := hout }

theorem cycleChannel_wf (ch : Fin 8) {dsp : Dsp} (h : dsp.Wf) : (cycleChannel ch dsp).Wf := by
  obtain ⟨hsample, hrange⟩ := voiceSample_wf ch h
  have hc : (voiceEnvelope (voiceSample ch dsp).1 ((voiceSample ch dsp).1.channel ch)).Wf :=
    voiceEnvelope_wf (hsample.channel ch)
  have hout := scaled_range hrange hc.gain
  rw [← int16_of_range hout] at hout
  exact (hsample.setChannel ch (hc.setOut hout)).setRam _

theorem voices_wf (voices : List (Fin 8)) {t : Dsp × Int × Int} (h : t.1.Wf) :
    (voices.foldl mixVoice t).1.Wf := by
  induction voices generalizing t with
  | nil => exact h
  | cons ch voices ih => exact ih (cycleChannel_wf ch h)

theorem mixVoices_wf {dsp : Dsp} (h : dsp.Wf) : (mixVoices dsp).1.Wf := voices_wf _ h

/-! ### A cycle and a store -/

theorem handleEcho_wf {dsp : Dsp} (h : dsp.Wf) (l r : Int) : (handleEcho dsp l r).1.Wf := by
  refine ⟨h.channel, h.noise, ?_⟩
  have hdelay := h.echo.delay_le
  have hpos := h.echo.delay_pos
  have hremain := h.echo.remain_pos
  have hindex := h.echo.index_le
  have hfir := h.echo.fir
  have hlast : toU16 ((dsp.echoRemain : Int) - 1) = dsp.echoRemain - 1 := by
    unfold toU16
    omega
  refine ⟨hpos, hdelay, ?_, ?_, ?_⟩
  · simp only [handleEcho, stepEcho, hlast]
    split <;> omega
  · simp only [handleEcho, stepEcho, hlast]
    split <;> omega
  · simp only [handleEcho, stepEcho]
    omega

theorem handleNoise_wf {dsp : Dsp} (h : dsp.Wf) : (handleNoise dsp).Wf := by
  have hcount : (if dsp.noiseRate ≠ 0 then { dsp with noiseCounter := (dsp.noiseCounter + 1) % 0x10000 }
      else dsp).Wf := by
    split
    next => exact ⟨h.channel, h.noise, { h.echo with }⟩
    next => exact h
  unfold handleNoise
  dsimp only
  generalize (if dsp.noiseRate ≠ 0 then { dsp with noiseCounter := (dsp.noiseCounter + 1) % 0x10000 }
      else dsp) = dsp' at *
  split
  next => exact ⟨hcount.channel, clip15_range _, { hcount.echo with }⟩
  next => exact hcount

theorem endCycle_wf (total : Int × Int) {dsp : Dsp} (h : dsp.Wf) : (endCycle total dsp).Wf :=
  ⟨h.channel, h.noise, { h.echo with }⟩

/-- A cycle is its four parts. -/
theorem dspCycle_parts (shadow : Int → Int → Int × Int) (dsp : Dsp) : ∃ l r total,
    dspCycle shadow dsp = endCycle total (handleNoise (handleEcho (mixVoices dsp).1 l r).1) :=
  ⟨_, _, _, rfl⟩

theorem dspCycle_wf (shadow : Int → Int → Int × Int) {dsp : Dsp} (h : dsp.Wf) : (dspCycle shadow dsp).Wf := by
  obtain ⟨l, r, total, hparts⟩ := dspCycle_parts shadow dsp
  rw [hparts]
  exact endCycle_wf total (handleNoise_wf (handleEcho_wf (mixVoices_wf h) l r))

theorem rateValue_le (n : Nat) : rateValue n ≤ 2048 := by
  have hall : ∀ r ∈ rateValues, r ≤ 2048 := by decide
  unfold rateValue
  rw [List.getD_eq_getElem?_getD]
  cases hget : rateValues[n]? with
  | none => exact Nat.zero_le _
  | some r => exact hall r (List.mem_of_getElem? hget)

theorem update_le {rates : AdsrState → Nat} (h : ∀ state, rates state ≤ 2048) (state : AdsrState) (n : Nat) :
    ∀ s, Function.update rates state (rateValue n) s ≤ 2048 := by
  intro s
  by_cases hs : s = state
  · rw [hs, Function.update_self]
    exact rateValue_le n
  · rw [Function.update_of_ne hs]
    exact h s

theorem write_wf {c : DspChannel} (h : c.Wf) (reg : Nat) (val : Byte) : (c.write reg val).Wf := by
  unfold DspChannel.write
  dsimp only
  split
  next => exact { h with }
  next => exact { h with }
  next => exact { h with pitch := by dsimp only; omega }
  next => exact { h with pitch := by dsimp only; omega }
  next => exact { h with }
  next => exact { h with adsrRates := update_le (update_le h.adsrRates _ _) _ _ }
  next => exact { h with adsrRates := update_le h.adsrRates _ _ }
  next =>
    split
    next => exact { h with gainMode := by dsimp only; omega, adsrRates := update_le h.adsrRates _ _ }
    next => exact { h with gainValue := by dsimp only; omega }
  next => exact h

theorem writeGlobal_wf {dsp : Dsp} (h : dsp.Wf) (adr : Nat) (val : Byte) : (dsp.writeGlobal adr val).Wf := by
  unfold Dsp.writeGlobal
  dsimp only
  split
  all_goals first
    | exact h
    | exact ⟨h.channel, h.noise, { h.echo with }⟩
    | exact ⟨fun ch => { h.channel ch with }, h.noise, { h.echo with }⟩
    | skip
  refine ⟨h.channel, h.noise, { h.echo with delay_pos := ?_, delay_le := ?_ }⟩
  · dsimp only
    split <;> omega
  · dsimp only
    split <;> omega

theorem dspWrite_wf (adr : Fin 128) (val : Byte) {dsp : Dsp} (h : dsp.Wf) : (dspWrite adr val dsp).Wf := by
  unfold dspWrite
  dsimp only
  refine Dsp.Wf.setRam ?_ _
  split
  next => exact h.setChannel _ (write_wf (h.channel _) _ _)
  next =>
    split
    next => exact ⟨h.channel, h.noise, { h.echo with }⟩
    next => exact writeGlobal_wf h _ _

/-! ### Runs -/

/-- What happens to the DSP: the sound processor stores to a register or to sound RAM, or a cycle is
made, with what the shadow mixer does to it. -/
inductive DspAccess
  | write (adr : Fin 128) (val : Byte)
  | store (adr : Nat) (val : Byte)
  | cycle (shadow : Int → Int → Int × Int)

def dspAccess : DspAccess → Dsp → Dsp
  | .write adr val, dsp => dspWrite adr val dsp
  | .store adr val, dsp => { dsp with apuRam := Function.update dsp.apuRam adr val }
  | .cycle shadow, dsp => dspCycle shadow dsp

theorem dspAccess_wf (e : DspAccess) (dsp : Dsp) (h : dsp.Wf) : (dspAccess e dsp).Wf := by
  cases e with
  | write adr val => exact dspWrite_wf adr val h
  | store adr val => exact ⟨h.channel, h.noise, { h.echo with }⟩
  | cycle shadow => exact dspCycle_wf shadow h

/-- The state behind a reset and a run. -/
def dspRun (apuRam : Nat → Byte) (es : List DspAccess) : Dsp := Runs.final dspAccess es (dspReset apuRam)

theorem dspRun_wf (apuRam : Nat → Byte) (es : List DspAccess) : (dspRun apuRam es).Wf :=
  Runs.final_of_step dspAccess dspAccess_wf es _ (dspReset_wf apuRam)

/-- The state in a cycle when the first `k` voices have been mixed. -/
def mixedVoices (k : Nat) (dsp : Dsp) : Dsp := (((List.finRange 8).take k).foldl mixVoice (dsp, 0, 0)).1

/-- **Every reachable state is well formed**, and so, wherever the next cycle is, the interpolation
reads inside the buffer of 19 samples and the pitch takes a voice at most into the next block. -/
theorem dspRun_wellFormed (apuRam : Nat → Byte) (es : List DspAccess) :
    (dspRun apuRam es).Wf ∧ ∀ (k : Nat) (ch : Fin 8),
      let dsp := mixedVoices k (dspRun apuRam es)
      (dsp.channel ch).pitchCounter / 0x1000 + 3 < 19 ∧
        (dsp.channel ch).pitchCounter + dsp.pitch ch < 2 * 0x10000 := by
  have h := dspRun_wf apuRam es
  refine ⟨h, fun k ch => ?_⟩
  intro dsp
  have hmixed : dsp.Wf := voices_wf _ h
  have hcounter := (hmixed.channel ch).pitchCounter
  have hpitch := pitch_le hmixed ch
  omega

/-! ### What a voice touches -/

/-- The two states differ in one voice and the register file. -/
def OnlyVoice (ch : Fin 8) (dsp dsp' : Dsp) : Prop :=
  ∃ c ram, dsp' = { dsp.setChannel ch c with ram := ram }

theorem OnlyVoice.refl (ch : Fin 8) (dsp : Dsp) : OnlyVoice ch dsp dsp :=
  ⟨dsp.channel ch, dsp.ram, by rw [Dsp.setChannel, Function.update_eq_self]⟩

theorem OnlyVoice.trans {ch : Fin 8} {a b c : Dsp} (h : OnlyVoice ch a b) (h' : OnlyVoice ch b c) :
    OnlyVoice ch a c := by
  obtain ⟨x, ram, rfl⟩ := h
  obtain ⟨x', ram', rfl⟩ := h'
  exact ⟨x', ram', by simp only [Dsp.setChannel, Function.update_idem]⟩

theorem onlyVoice_setChannel (ch : Fin 8) (dsp : Dsp) (c : DspChannel) :
    OnlyVoice ch dsp (dsp.setChannel ch c) := ⟨c, dsp.ram, rfl⟩

theorem OnlyVoice.channel {ch : Fin 8} {dsp dsp' : Dsp} (h : OnlyVoice ch dsp dsp') {i : Fin 8} (hi : i ≠ ch) :
    dsp'.channel i = dsp.channel i := by
  obtain ⟨c, ram, rfl⟩ := h
  exact setChannel_channel_ne dsp hi c

theorem brrEnd_only (ch : Fin 8) (dsp : Dsp) : OnlyVoice ch dsp (brrEnd ch dsp) := by
  unfold brrEnd
  dsimp only
  split
  next => exact ⟨_, _, rfl⟩
  next => exact .refl ch dsp

theorem decodeBrr_only (ch : Fin 8) (dsp : Dsp) : OnlyVoice ch dsp (decodeBrr ch dsp) := by
  unfold decodeBrr
  exact ((onlyVoice_setChannel ch dsp _).trans (brrEnd_only ch _)).trans (onlyVoice_setChannel ch _ _)

theorem voiceSample_only (ch : Fin 8) (dsp : Dsp) : OnlyVoice ch dsp (voiceSample ch dsp).1 := by
  have hdecoded : OnlyVoice ch dsp
      (if 0xFFFF < (dsp.channel ch).pitchCounter + dsp.pitch ch then decodeBrr ch dsp else dsp) := by
    split
    next => exact decodeBrr_only ch dsp
    next => exact .refl ch dsp
  exact hdecoded.trans (onlyVoice_setChannel ch _ _)

theorem cycleChannel_only (ch : Fin 8) (dsp : Dsp) : OnlyVoice ch dsp (cycleChannel ch dsp) :=
  (voiceSample_only ch dsp).trans ⟨_, _, rfl⟩

/-- The two states differ in the voices and the register file. -/
def OnlyVoices (dsp dsp' : Dsp) : Prop := ∃ channel ram, dsp' = { dsp with channel := channel, ram := ram }

theorem voices_only (voices : List (Fin 8)) (t : Dsp × Int × Int) :
    OnlyVoices t.1 (voices.foldl mixVoice t).1 := by
  induction voices generalizing t with
  | nil => exact ⟨t.1.channel, t.1.ram, rfl⟩
  | cons ch voices ih =>
    obtain ⟨c, ram, hone⟩ := cycleChannel_only ch t.1
    obtain ⟨channel, ram', hrest⟩ := ih (mixVoice t ch)
    refine ⟨channel, ram', hrest.trans ?_⟩
    rw [show (mixVoice t ch).1 = cycleChannel ch t.1 from rfl, hone]
    rfl

theorem mixVoices_only (dsp : Dsp) : OnlyVoices dsp (mixVoices dsp).1 := voices_only _ _

/-- A voice is its own cycle away, from a state that differs in other voices. -/
theorem voices_channel {ch : Fin 8} : ∀ {voices : List (Fin 8)} (_ : voices.Nodup) (_ : ch ∈ voices)
    (t : Dsp × Int × Int), ∃ dsp', dsp'.channel ch = t.1.channel ch ∧ dsp'.evenCycle = t.1.evenCycle ∧
      (t.1.Wf → dsp'.Wf) ∧ (voices.foldl mixVoice t).1.channel ch = (cycleChannel ch dsp').channel ch := by
  intro voices
  induction voices with
  | nil => exact fun _ hmem => absurd hmem List.not_mem_nil
  | cons i voices ih =>
    intro hnodup hmem t
    obtain ⟨hi, hrest⟩ := List.nodup_cons.mp hnodup
    by_cases hch : ch = i
    · subst hch
      refine ⟨t.1, rfl, rfl, id, ?_⟩
      -- the voices behind it leave it alone
      have hkeep : ∀ (vs : List (Fin 8)) (u : Dsp × Int × Int), ch ∉ vs →
          (vs.foldl mixVoice u).1.channel ch = u.1.channel ch := by
        intro vs
        induction vs with
        | nil => exact fun u _ => rfl
        | cons j vs ihvs =>
          intro u hnot
          have hj : ch ≠ j := fun hj => hnot (hj ▸ List.mem_cons_self)
          have hvs : ch ∉ vs := fun hvs => hnot (List.mem_cons_of_mem j hvs)
          exact (ihvs (mixVoice u j) hvs).trans ((cycleChannel_only j u.1).channel hj)
      exact hkeep voices (mixVoice t ch) hi
    · obtain ⟨dsp', hsame, heven, hwf, hcycle⟩ :=
        ih hrest ((List.mem_cons.mp hmem).resolve_left hch) (mixVoice t i)
      obtain ⟨c, ram, hone⟩ := cycleChannel_only i t.1
      refine ⟨dsp', hsame.trans ((cycleChannel_only i t.1).channel hch), heven.trans ?_,
        fun h => hwf (cycleChannel_wf i h), hcycle⟩
      rw [show (mixVoice t i).1 = cycleChannel i t.1 from rfl, hone]
      rfl

theorem mixVoices_channel (ch : Fin 8) (dsp : Dsp) : ∃ dsp', dsp'.channel ch = dsp.channel ch ∧
    dsp'.evenCycle = dsp.evenCycle ∧ (dsp.Wf → dsp'.Wf) ∧
      (mixVoices dsp).1.channel ch = (cycleChannel ch dsp').channel ch :=
  voices_channel (List.nodup_finRange 8) (List.mem_finRange ch) (dsp, 0, 0)

/-! ### The noise -/

/-- The shift register of 15 bits. -/
def lfsr (r : Nat) : Nat := r / 2 + (r + r / 2) % 2 * 0x4000

/-- The bits of a sample of the noise. -/
def noiseBits (noiseSample : Int) : Nat := (noiseSample % 0x8000).toNat

theorem noiseBits_clip15 {x : Int} (h : 0 ≤ x ∧ x < 0x8000) : noiseBits (clip15 x) = x.toNat := by
  have hclip : clip15 x = x ∨ clip15 x = x - 0x8000 := by
    unfold clip15 int16
    omega
  unfold noiseBits
  omega

theorem noiseBits_noiseStep (n : Int) : noiseBits (noiseStep n) = lfsr (noiseBits n) := by
  -- only the low 15 bits are read
  obtain ⟨q, r, hn, hr⟩ : ∃ (q : Int) (r : Nat), n = 0x8000 * q + r ∧ r < 0x8000 :=
    ⟨n / 0x8000, (n % 0x8000).toNat, by omega, by omega⟩
  have hhalf : n / 2 % 0x4000 = (r : Int) / 2 := by omega
  have hbit : (if n % 2 = n / 2 % 2 then (0 : Int) else 1) = ((r : Int) + r / 2) % 2 := by
    split <;> omega
  have hbits : noiseBits n = r := by
    unfold noiseBits
    omega
  have hcast : (r : Int) / 2 + ((r : Int) + r / 2) % 2 * 0x4000 = (lfsr r : Nat) := by
    rw [lfsr]
    push_cast
    rfl
  have hlt : lfsr r < 0x8000 := by
    rw [lfsr]
    omega
  rw [noiseStep, hbit, hhalf, hcast, noiseBits_clip15 (by omega), hbits, Int.toNat_natCast]

theorem lfsr_pos {r : Nat} (h : 0 < r) : 0 < lfsr r := by
  unfold lfsr
  rcases Nat.lt_or_ge r 2 with hone | htwo
  · have hr : r = 1 := by omega
    rw [hr]
    decide
  · omega

/-- `32767 = 7 * 31 * 151`, and no proper divisor is a period. -/
theorem lfsr_period : Function.minimalPeriod lfsr 0x4000 = 32767 := by
  have hperiod : Function.IsPeriodicPt lfsr (151 * 31 * 7) 0x4000 := by
    rw [Function.IsPeriodicPt, Function.iterate_mul, Function.iterate_mul]
    decide +kernel
  have hnot : ∀ a b : Nat, (lfsr^[a])^[b] 0x4000 ≠ 0x4000 → ¬ Function.minimalPeriod lfsr 0x4000 ∣ a * b := by
    intro a b hne hdvd
    refine hne ?_
    rw [← Function.iterate_mul]
    exact (Function.isPeriodicPt_iff_minimalPeriod_dvd).mpr hdvd
  have hfirst := hnot 151 31 (by decide +kernel)
  have hsecond := hnot 151 7 (by decide +kernel)
  have hthird := hnot 31 7 (by decide +kernel)
  have hdvd := hperiod.minimalPeriod_dvd
  have hmem : Function.minimalPeriod lfsr 0x4000 ∈ Nat.divisors (151 * 31 * 7) :=
    Nat.mem_divisors.mpr ⟨hdvd, by decide⟩
  have hdivisors : Nat.divisors (151 * 31 * 7) = {1, 7, 31, 151, 217, 1057, 4681, 32767} := by decide +kernel
  rw [hdivisors] at hmem
  simp only [Finset.mem_insert, Finset.mem_singleton] at hmem
  rcases hmem with h | h | h | h | h | h | h | h
  all_goals first
    | exact h
    | (rw [h] at hfirst hsecond hthird; revert hfirst hsecond hthird; decide)

theorem handleNoise_noise (dsp : Dsp) : (handleNoise dsp).noiseSample = dsp.noiseSample ∨
    (handleNoise dsp).noiseSample = noiseStep dsp.noiseSample := by
  unfold handleNoise
  dsimp only
  by_cases hrate : dsp.noiseRate ≠ 0
  · simp only [if_pos hrate]
    split
    next => exact .inr rfl
    next => exact .inl rfl
  · simp only [if_neg hrate]
    split
    next => exact .inr rfl
    next => exact .inl rfl

theorem handleEcho_noise (dsp : Dsp) (l r : Int) :
    (handleEcho dsp l r).1.noiseSample = dsp.noiseSample := rfl

theorem endCycle_noise (total : Int × Int) (dsp : Dsp) :
    (endCycle total dsp).noiseSample = dsp.noiseSample := rfl

/-- A cycle steps the register once or not at all. -/
theorem dspCycle_noise (shadow : Int → Int → Int × Int) (dsp : Dsp) :
    (dspCycle shadow dsp).noiseSample = dsp.noiseSample ∨
      (dspCycle shadow dsp).noiseSample = noiseStep dsp.noiseSample := by
  obtain ⟨channel, ram, hmix⟩ := mixVoices_only dsp
  obtain ⟨l, r, total, hparts⟩ := dspCycle_parts shadow dsp
  have hwet : (handleEcho (mixVoices dsp).1 l r).1.noiseSample = dsp.noiseSample := by
    rw [handleEcho_noise, hmix]
  rw [hparts, endCycle_noise, ← hwet]
  exact handleNoise_noise _

/-- The cycles of a run. -/
def cycles (es : List DspAccess) : Nat := es.countP fun | .cycle _ => true | _ => false

theorem dspWrite_noise (adr : Fin 128) (val : Byte) (dsp : Dsp) :
    (dspWrite adr val dsp).noiseSample = dsp.noiseSample := by
  unfold dspWrite
  dsimp only
  split
  next => rfl
  next =>
    split
    next => rfl
    next =>
      unfold Dsp.writeGlobal
      dsimp only
      split <;> rfl

theorem noise_run (es : List DspAccess) (dsp : Dsp) :
    ∃ k ≤ cycles es, noiseBits (Runs.final dspAccess es dsp).noiseSample =
      lfsr^[k] (noiseBits dsp.noiseSample) := by
  induction es generalizing dsp with
  | nil => exact ⟨0, le_rfl, rfl⟩
  | cons e es ih =>
    obtain ⟨k, hk, hrun⟩ := ih (dspAccess e dsp)
    cases e with
    | write adr val =>
      refine ⟨k, hk, hrun.trans ?_⟩
      rw [dspAccess, dspWrite_noise]
    | store adr val => exact ⟨k, hk, hrun⟩
    | cycle shadow =>
      have hcount : cycles (.cycle shadow :: es) = cycles es + 1 := List.countP_cons_of_pos rfl
      rcases dspCycle_noise shadow dsp with hsame | hstep
      · refine ⟨k, by omega, ?_⟩
        rw [Runs.final_cons, hrun, dspAccess, hsame]
      · refine ⟨k + 1, by omega, ?_⟩
        rw [Runs.final_cons, hrun, dspAccess, hstep, noiseBits_noiseStep, Function.iterate_succ_apply]

/-- **The noise does not stop**: whatever is stored and whenever a cycle is made, it is the shift register
of period 32767, no further than a step a cycle, and never zero. -/
theorem dspRun_noise (apuRam : Nat → Byte) (es : List DspAccess) :
    Function.minimalPeriod lfsr 0x4000 = 32767 ∧
      noiseBits (dspRun apuRam es).noiseSample ≠ 0 ∧
      ∃ k ≤ cycles es, noiseBits (dspRun apuRam es).noiseSample = lfsr^[k] 0x4000 := by
  obtain ⟨k, hk, hrun⟩ := noise_run es (dspReset apuRam)
  have hstart : noiseBits (dspReset apuRam).noiseSample = 0x4000 := rfl
  rw [hstart] at hrun
  have hpos : ∀ k, 0 < lfsr^[k] 0x4000 := by
    intro k
    induction k with
    | zero => decide
    | succ k ih =>
      rw [Function.iterate_succ_apply']
      exact lfsr_pos ih
  refine ⟨lfsr_period, ?_, k, hk, hrun⟩
  exact (hrun.trans_ne (hpos k).ne')

/-! ### A key that is held off -/

/-- What a voice keeps until its envelope: a release stays, and the envelope does not rise. -/
structure Fades (c c' : DspChannel) : Prop where
  keyOff : c'.keyOff = c.keyOff
  gain : c'.gain ≤ c.gain
  release : c.adsrState = .release → c'.adsrState = .release

theorem Fades.refl (c : DspChannel) : Fades c c := ⟨rfl, le_rfl, id⟩

theorem brrEnd_fades (ch : Fin 8) (dsp : Dsp) : Fades (dsp.channel ch) ((brrEnd ch dsp).channel ch) := by
  unfold brrEnd
  dsimp only
  split
  next =>
    rw [setChannel_channel]
    split
    next => exact ⟨rfl, Nat.zero_le _, fun _ => rfl⟩
    next => exact ⟨rfl, le_rfl, id⟩
  next => exact .refl _

theorem decodeBrr_fades (ch : Fin 8) (dsp : Dsp) : Fades (dsp.channel ch) ((decodeBrr ch dsp).channel ch) := by
  have hend := brrEnd_fades ch (dsp.setChannel ch
    { dsp.channel ch with decodeBuffer := keepLast (dsp.channel ch).decodeBuffer })
  rw [setChannel_channel] at hend
  unfold decodeBrr
  dsimp only
  rw [setChannel_channel]
  exact ⟨hend.keyOff, hend.gain, hend.release⟩

theorem voiceSample_fades (ch : Fin 8) (dsp : Dsp) :
    Fades (dsp.channel ch) ((voiceSample ch dsp).1.channel ch) := by
  unfold voiceSample
  dsimp only
  rw [setChannel_channel]
  split
  next =>
    have hdecoded := decodeBrr_fades ch dsp
    exact ⟨hdecoded.keyOff, hdecoded.gain, hdecoded.release⟩
  next => exact ⟨rfl, le_rfl, id⟩

theorem envelope_release {c : DspChannel} (h : c.adsrState = .release) :
    envelope c = { c with gain := linearDown c.gain 8 } := by
  have hgain : handleGain c = { c with gain := linearDown c.gain 8 } := by
    rw [handleGain, h]
  simp only [envelope, h, decide_true, Bool.not_true, Bool.false_and, Bool.false_eq_true, if_false,
    Bool.true_or, if_true, hgain]

theorem linearDown_le_sub {gain : Nat} (h : gain ≤ 0x7FF) : linearDown gain 8 ≤ gain - 8 := by
  unfold linearDown toU16
  dsimp only
  split <;> omega

theorem handleGain_keyOff (c : DspChannel) : (handleGain c).keyOff = c.keyOff := by
  unfold handleGain
  split
  all_goals first
    | rfl
    | (split <;> rfl)

theorem envelope_keyOff (c : DspChannel) : (envelope c).keyOff = c.keyOff := by
  have hkey := @apply_ite _ _ DspChannel.keyOff
  simp only [envelope, hkey, handleGain_keyOff, ite_self]

theorem voiceEnvelope_keyOff (dsp : Dsp) (c : DspChannel) : (voiceEnvelope dsp c).keyOff = c.keyOff := by
  have hkey := @apply_ite _ _ DspChannel.keyOff
  simp only [voiceEnvelope, envelope_keyOff, pollKeys, hkey, ite_self]

/-- A voice that is polled, or released already, goes down. -/
theorem voiceEnvelope_release (dsp : Dsp) {c : DspChannel} (hkey : c.keyOff = true)
    (hrelease : dsp.evenCycle = true ∨ c.adsrState = .release) (hgain : c.gain ≤ 0x7FF) :
    (voiceEnvelope dsp c).adsrState = .release ∧ (voiceEnvelope dsp c).gain ≤ c.gain - 8 := by
  have hpoll : ∃ c', (if dsp.evenCycle then pollKeys dsp c else c) = c' ∧ c'.adsrState = .release ∧
      c'.gain = c.gain := by
    cases heven : dsp.evenCycle with
    | true => exact ⟨{ c with adsrState := .release }, if_pos hkey, rfl, rfl⟩
    | false => exact ⟨c, rfl, hrelease.resolve_left (by rw [heven]; decide), rfl⟩
  obtain ⟨c', hc', hstate, hsame⟩ := hpoll
  have hdown := linearDown_le_sub hgain
  unfold voiceEnvelope
  dsimp only
  rw [hc']
  cases dsp.reset with
  | true =>
    rw [if_pos rfl, envelope_release rfl]
    exact ⟨rfl, Nat.le_trans (linearDown_le_sub (Nat.zero_le _)) (Nat.zero_le _)⟩
  | false =>
    rw [if_neg Bool.false_ne_true, envelope_release hstate, hsame]
    exact ⟨hstate, hdown⟩

/-- A cycle of a voice is its envelope and the sample it puts out. -/
theorem cycleChannel_channel (ch : Fin 8) (dsp : Dsp) : (cycleChannel ch dsp).channel ch =
    { voiceEnvelope (voiceSample ch dsp).1 ((voiceSample ch dsp).1.channel ch) with
      sampleOut := int16 ((voiceSample ch dsp).2 *
        (voiceEnvelope (voiceSample ch dsp).1 ((voiceSample ch dsp).1.channel ch)).gain / 2048) } :=
  setChannel_channel ..

theorem cycleChannel_keyOff (ch : Fin 8) (dsp : Dsp) :
    ((cycleChannel ch dsp).channel ch).keyOff = (dsp.channel ch).keyOff := by
  rw [cycleChannel_channel]
  exact (voiceEnvelope_keyOff _ _).trans (voiceSample_fades ch dsp).keyOff

/-- The cycle of such a voice; without an envelope it puts out nothing. -/
theorem cycleChannel_release {ch : Fin 8} {dsp : Dsp} (h : dsp.Wf) (hkey : (dsp.channel ch).keyOff = true)
    (hrelease : dsp.evenCycle = true ∨ (dsp.channel ch).adsrState = .release) :
    let c := (cycleChannel ch dsp).channel ch
    c.adsrState = .release ∧ c.gain ≤ (dsp.channel ch).gain - 8 ∧ (c.gain = 0 → c.sampleOut = 0) := by
  have hfades := voiceSample_fades ch dsp
  obtain ⟨x, ram, honly⟩ := voiceSample_only ch dsp
  have heven : (voiceSample ch dsp).1.evenCycle = dsp.evenCycle := by rw [honly]; rfl
  have hle := (h.channel ch).gain
  obtain ⟨hstate, hdown⟩ := voiceEnvelope_release (voiceSample ch dsp).1
    (hfades.keyOff.trans hkey) (hrelease.imp heven.trans hfades.release) (hfades.gain.trans hle)
  have hgain := hfades.gain
  dsimp only
  rw [cycleChannel_channel]
  refine ⟨hstate, by dsimp only; omega, fun hzero => ?_⟩
  dsimp only at hzero ⊢
  rw [hzero]
  simp [int16]

theorem handleEcho_channel (dsp : Dsp) (l r : Int) : (handleEcho dsp l r).1.channel = dsp.channel := rfl

theorem endCycle_channel (total : Int × Int) (dsp : Dsp) : (endCycle total dsp).channel = dsp.channel := rfl

/-- The noise leaves everything else alone. -/
theorem handleNoise_only (dsp : Dsp) : ∃ sample counter,
    handleNoise dsp = { dsp with noiseSample := sample, noiseCounter := counter } := by
  unfold handleNoise
  dsimp only
  by_cases hrate : dsp.noiseRate ≠ 0
  · simp only [if_pos hrate]
    split
    next => exact ⟨_, _, rfl⟩
    next => exact ⟨_, _, rfl⟩
  · simp only [if_neg hrate]
    split
    next => exact ⟨_, _, rfl⟩
    next => exact ⟨_, _, rfl⟩

/-- Behind a cycle the voices are as the mix has left them, and the poll is due if it was not. -/
theorem dspCycle_voices (shadow : Int → Int → Int × Int) (dsp : Dsp) :
    (dspCycle shadow dsp).channel = (mixVoices dsp).1.channel ∧
      (dspCycle shadow dsp).evenCycle = !dsp.evenCycle := by
  obtain ⟨l, r, total, hparts⟩ := dspCycle_parts shadow dsp
  obtain ⟨sample, counter, hnoise⟩ := handleNoise_only (handleEcho (mixVoices dsp).1 l r).1
  obtain ⟨channel, ram, hmix⟩ := mixVoices_only dsp
  refine ⟨?_, ?_⟩
  · rw [hparts, endCycle_channel, hnoise, handleEcho_channel]
  · rw [hparts, hnoise, hmix]
    rfl

/-- The store does not release the key of the voice. -/
def DspAccess.Holds (ch : Fin 8) : DspAccess → Prop
  | .write adr val => adr = 0x5C → val.getLsbD ch = true
  | _ => True

/-- What a store leaves alone in a voice. -/
def DspChannel.SameSound (c c' : DspChannel) : Prop :=
  c'.adsrState = c.adsrState ∧ c'.gain = c.gain ∧ c'.sampleOut = c.sampleOut

theorem write_sound (c : DspChannel) (reg : Nat) (val : Byte) :
    c.SameSound (c.write reg val) ∧ (c.write reg val).keyOff = c.keyOff := by
  unfold DspChannel.write
  dsimp only
  split
  all_goals first
    | exact ⟨⟨rfl, rfl, rfl⟩, rfl⟩
    | (split <;> exact ⟨⟨rfl, rfl, rfl⟩, rfl⟩)

theorem writeGlobal_sound {adr : Nat} {val : Byte} (ch : Fin 8) (h : adr = 0x5C → val.getLsbD ch = true)
    {dsp : Dsp} (hkey : (dsp.channel ch).keyOff = true) :
    (dsp.channel ch).SameSound ((dsp.writeGlobal adr val).channel ch) ∧
      ((dsp.writeGlobal adr val).channel ch).keyOff = true ∧
      (dsp.writeGlobal adr val).evenCycle = dsp.evenCycle := by
  unfold Dsp.writeGlobal
  dsimp only
  split
  all_goals first
    | exact ⟨⟨rfl, rfl, rfl⟩, hkey, rfl⟩
    | exact ⟨⟨rfl, rfl, rfl⟩, h rfl, rfl⟩

theorem dspWrite_sound {adr : Fin 128} {val : Byte} (ch : Fin 8) (h : adr = 0x5C → val.getLsbD ch = true)
    {dsp : Dsp} (hkey : (dsp.channel ch).keyOff = true) :
    (dsp.channel ch).SameSound ((dspWrite adr val dsp).channel ch) ∧
      ((dspWrite adr val dsp).channel ch).keyOff = true ∧
      (dspWrite adr val dsp).evenCycle = dsp.evenCycle := by
  unfold dspWrite
  dsimp only
  split
  next =>
    by_cases hch : ch = ⟨adr / 16, by omega⟩
    · rw [← hch, setChannel_channel]
      obtain ⟨hsound, hoff⟩ := write_sound (dsp.channel ch) (adr % 16) val
      exact ⟨hsound, hoff.trans hkey, rfl⟩
    · rw [setChannel_channel_ne dsp hch]
      exact ⟨⟨rfl, rfl, rfl⟩, hkey, rfl⟩
  next =>
    split
    next => exact ⟨⟨rfl, rfl, rfl⟩, hkey, rfl⟩
    next => exact writeGlobal_sound ch (fun hadr => h (Fin.ext hadr)) hkey

/-- A voice released for `n` cycles. -/
def Fading (ch : Fin 8) (n : Nat) (dsp : Dsp) : Prop :=
  (dsp.channel ch).adsrState = .release ∧ (dsp.channel ch).gain ≤ 2048 - 8 * n ∧
    (256 ≤ n → (dsp.channel ch).sampleOut = 0)

/-- The key of the voice has been held off for `n` cycles. -/
structure HeldOff (ch : Fin 8) (n : Nat) (dsp : Dsp) : Prop where
  wf : dsp.Wf
  keyOff : (dsp.channel ch).keyOff = true
  -- the poll may wait for the second cycle
  stage : n = 0 ∨ (n = 1 ∧ dsp.evenCycle = true) ∨ (1 ≤ n ∧ Fading ch (n - 1) dsp)

theorem heldOff_cycle {ch : Fin 8} {n : Nat} {dsp : Dsp} (h : HeldOff ch n dsp)
    (shadow : Int → Int → Int × Int) : HeldOff ch (n + 1) (dspCycle shadow dsp) := by
  obtain ⟨hvoices, heven⟩ := dspCycle_voices shadow dsp
  obtain ⟨dsp', hsame, heven', hwf, hcycle⟩ := mixVoices_channel ch dsp
  have hkey : (dsp'.channel ch).keyOff = true := by rw [hsame]; exact h.keyOff
  have hle := (h.wf.channel ch).gain
  -- one cycle of a voice that is polled or released
  have hdown : dsp.evenCycle = true ∨ (dsp.channel ch).adsrState = .release →
      let c := (dspCycle shadow dsp).channel ch
      c.adsrState = .release ∧ c.gain ≤ (dsp.channel ch).gain - 8 ∧ (c.gain = 0 → c.sampleOut = 0) := by
    intro hrelease
    obtain ⟨hstate, hgain, hout⟩ := cycleChannel_release (hwf h.wf) hkey
      (by rw [heven', hsame]; exact hrelease)
    dsimp only
    rw [hvoices, hcycle]
    rw [hsame] at hgain
    exact ⟨hstate, hgain, hout⟩
  have hoff : ((dspCycle shadow dsp).channel ch).keyOff = true := by
    rw [hvoices, hcycle, cycleChannel_keyOff, hkey]
  refine ⟨dspCycle_wf shadow h.wf, hoff, ?_⟩
  rcases h.stage with hzero | ⟨hone, heven⟩ | ⟨hpos, hfading⟩
  · cases hpoll : dsp.evenCycle with
    | true =>
      obtain ⟨hstate, hgain, -⟩ := hdown (.inl hpoll)
      exact .inr (.inr ⟨by omega, hstate, by omega, fun hmany => by omega⟩)
    | false => exact .inr (.inl ⟨by omega, by rw [heven, hpoll]; rfl⟩)
  · obtain ⟨hstate, hgain, -⟩ := hdown (.inl heven)
    exact .inr (.inr ⟨by omega, hstate, by omega, fun hmany => by omega⟩)
  · obtain ⟨hstate, hgain, hout⟩ := hdown (.inr hfading.1)
    have hbound := hfading.2.1
    exact .inr (.inr ⟨by omega, hstate, by omega, fun hmany => hout (by omega)⟩)

theorem heldOff_run {ch : Fin 8} {es : List DspAccess} (hes : ∀ e ∈ es, e.Holds ch) :
    ∀ {n : Nat} {dsp : Dsp}, HeldOff ch n dsp → HeldOff ch (n + cycles es) (Runs.final dspAccess es dsp) := by
  induction es with
  | nil => exact fun h => h
  | cons e es ih =>
    intro n dsp h
    have hrest := fun f hf => hes f (List.mem_cons_of_mem e hf)
    have hhold := hes e List.mem_cons_self
    rw [Runs.final_cons]
    cases e with
    | write adr val =>
      obtain ⟨⟨hstate, hgain, hout⟩, hoff, heven⟩ := dspWrite_sound ch hhold h.keyOff
      refine ih hrest ⟨dspWrite_wf adr val h.wf, hoff, ?_⟩
      rw [dspAccess, heven, Fading, hstate, hgain, hout]
      exact h.stage
    | store adr val => exact ih hrest ⟨dspAccess_wf _ _ h.wf, h.keyOff, h.stage⟩
    | cycle shadow =>
      have hcount : cycles (.cycle shadow :: es) = cycles es + 1 := List.countP_cons_of_pos rfl
      have hsum : n + (cycles es + 1) = n + 1 + cycles es := by omega
      rw [hcount, hsum]
      exact ih hrest (heldOff_cycle h shadow)

/-- **A voice whose key is held off falls silent**: from the store to `$5C` on, and whatever else is
stored, its envelope is zero after 257 cycles, and its output with it. -/
theorem dspRun_silent (apuRam : Nat → Byte) {es es' : List DspAccess} {ch : Fin 8} {val : Byte}
    (hkey : val.getLsbD ch = true) (hes' : ∀ e ∈ es', e.Holds ch) (hcycles : 257 ≤ cycles es') :
    let c := (dspRun apuRam (es ++ .write 0x5C val :: es')).channel ch
    c.gain = 0 ∧ c.sampleOut = 0 := by
  intro c
  have hstart : HeldOff ch 0 (dspAccess (.write 0x5C val) (dspRun apuRam es)) :=
    ⟨dspAccess_wf _ _ (dspRun_wf apuRam es), hkey, .inl rfl⟩
  have hend := heldOff_run hes' hstart
  have hrun : dspRun apuRam (es ++ .write 0x5C val :: es') =
      Runs.final dspAccess es' (dspAccess (.write 0x5C val) (dspRun apuRam es)) := by
    rw [dspRun, Runs.final_append, Runs.final_cons]
    rfl
  rw [← hrun] at hend
  rcases hend.stage with hnone | ⟨hone, -⟩ | ⟨-, -, hgain, hout⟩
  · omega
  · omega
  · have hzero : c.gain ≤ 0 := hgain.trans (by omega)
    exact ⟨Nat.le_zero.mp hzero, hout (by omega)⟩

/-- A mixer that leaves the dry mix alone. -/
def plainMix (l r : Int) : Int × Int := (l, r)

/-- The first voice, out of reset and keyed on, with the noise at full gain. -/
def firstOn : List DspAccess :=
  [.write 0x6C 0, .write 0x05 0, .write 0x07 0x7F, .write 0x3D 1, .write 0x4C 1, .cycle plainMix,
    .cycle plainMix]

/-- The first voice sounds until its key is held off. -/
theorem dspRun_silent_first :
    ((dspRun (fun _ => 0) firstOn).channel 0).sampleOut = -16256 ∧
      let c := (dspRun (fun _ => 0) (firstOn ++ .write 0x5C 1 :: List.replicate 257 (.cycle plainMix))).channel 0
      c.gain = 0 ∧ c.sampleOut = 0 := by
  refine ⟨by decide +kernel, ?_⟩
  have hheld : ∀ e ∈ List.replicate 257 (DspAccess.cycle plainMix), e.Holds 0 := by
    intro e he
    rw [List.eq_of_mem_replicate he]
    trivial
  have hcount : cycles (List.replicate 257 (.cycle plainMix)) = 257 := by
    rw [cycles, List.countP_replicate]
    rfl
  exact dspRun_silent (fun _ => 0) rfl hheld hcount.ge

/-! ### The echo in sound RAM -/

/-- The bytes of the echo buffer from a base on. -/
def InEcho (base samples a : Nat) : Prop := ∃ j < 4 * samples, a = (base + j) % 0x10000

theorem writeEcho_of_notIn {base index samples a : Nat} (h : ¬ InEcho base samples a)
    (hindex : index < samples) (l r : Int) (apuRam : Nat → Byte) :
    writeEcho ((base + index * 4) % 0x10000) l r apuRam a = apuRam a := by
  have hne : ∀ k < 4, a ≠ ((base + index * 4) % 0x10000 + k) % 0x10000 := by
    intro k hk ha
    exact h ⟨index * 4 + k, by omega, by omega⟩
  have hfirst : a ≠ (base + index * 4) % 0x10000 := by
    have hzero := hne 0 (by omega)
    omega
  unfold writeEcho
  rw [Function.update_of_ne (hne 3 (by omega)), Function.update_of_ne (hne 2 (by omega)),
    Function.update_of_ne (hne 1 (by omega)), Function.update_of_ne hfirst]

/-- What the echo is made of. -/
structure SameEcho (dsp dsp' : Dsp) : Prop where
  base : dsp'.echoBufferAdr = dsp.echoBufferAdr
  delay : dsp'.echoDelay = dsp.echoDelay

/-- Sound RAM and the echo behind a cycle. -/
theorem dspCycle_echo (shadow : Int → Int → Int × Int) {dsp : Dsp} (h : dsp.Wf) :
    SameEcho dsp (dspCycle shadow dsp) ∧
      (dspCycle shadow dsp).echoBufferIndex + (dspCycle shadow dsp).echoRemain ≤
        max (dsp.echoBufferIndex + dsp.echoRemain) dsp.echoDelay ∧
      ∃ l r, (dspCycle shadow dsp).apuRam =
        if dsp.echoWrites then writeEcho dsp.echoAdr l r dsp.apuRam else dsp.apuRam := by
  obtain ⟨outL, outR, total, hparts⟩ := dspCycle_parts shadow dsp
  obtain ⟨sample, counter, hnoise⟩ := handleNoise_only (handleEcho (mixVoices dsp).1 outL outR).1
  obtain ⟨channel, ram, hmix⟩ := mixVoices_only dsp
  have hpos := h.echo.remain_pos
  have hle := h.echo.index_le
  have hlast : toU16 ((dsp.echoRemain : Int) - 1) = dsp.echoRemain - 1 := by
    unfold toU16
    omega
  rw [hparts, hnoise, hmix]
  refine ⟨⟨rfl, rfl⟩, ?_, _, _, rfl⟩
  simp only [endCycle, handleEcho, stepEcho, hlast]
  split <;> omega

/-- The access does not move the echo. -/
def DspAccess.KeepsEcho : DspAccess → Prop
  | .write adr _ => adr ≠ 0x6D ∧ adr ≠ 0x7D
  | _ => True

/-- What the sound processor stores to a byte. -/
def DspAccess.storesTo (a : Nat) : DspAccess → Option Byte
  | .store adr val => if adr = a then some val else none
  | _ => none

theorem dspWrite_echo {adr : Fin 128} (hbase : adr ≠ 0x6D) (hdelay : adr ≠ 0x7D) (val : Byte) (dsp : Dsp) :
    SameEcho dsp (dspWrite adr val dsp) ∧
      (dspWrite adr val dsp).echoBufferIndex = dsp.echoBufferIndex ∧
      (dspWrite adr val dsp).echoRemain = dsp.echoRemain ∧ (dspWrite adr val dsp).apuRam = dsp.apuRam := by
  unfold dspWrite
  dsimp only
  split
  next => exact ⟨⟨rfl, rfl⟩, rfl, rfl, rfl⟩
  next =>
    split
    next => exact ⟨⟨rfl, rfl⟩, rfl, rfl, rfl⟩
    next =>
      unfold Dsp.writeGlobal
      dsimp only
      split
      all_goals first
        | exact ⟨⟨rfl, rfl⟩, rfl, rfl, rfl⟩
        | exact absurd (Fin.ext ‹_›) hbase
        | exact absurd (Fin.ext ‹_›) hdelay

/-- The echo stays in a buffer of `samples` samples from the base on. -/
structure EchoIn (base samples : Nat) (dsp : Dsp) : Prop where
  wf : dsp.Wf
  base : dsp.echoBufferAdr = base
  delay : dsp.echoDelay ≤ samples
  index : dsp.echoBufferIndex + dsp.echoRemain ≤ samples

theorem dspAccess_echo {base samples : Nat} {e : DspAccess} (he : e.KeepsEcho) {dsp : Dsp}
    (h : EchoIn base samples dsp) :
    EchoIn base samples (dspAccess e dsp) ∧ ∀ a, ¬ InEcho base samples a →
      (dspAccess e dsp).apuRam a = (e.storesTo a).getD (dsp.apuRam a) := by
  cases e with
  | write adr val =>
    obtain ⟨⟨hbase, hdelay⟩, hindex, hremain, hram⟩ := dspWrite_echo he.1 he.2 val dsp
    refine ⟨⟨dspWrite_wf adr val h.wf, hbase.trans h.base, hdelay.le.trans h.delay, ?_⟩, fun a _ => ?_⟩
    · rw [dspAccess, hindex, hremain]
      exact h.index
    · rw [dspAccess, hram]
      rfl
  | store adr val =>
    refine ⟨⟨dspAccess_wf _ _ h.wf, h.base, h.delay, h.index⟩, fun a _ => ?_⟩
    by_cases ha : adr = a
    · rw [DspAccess.storesTo, if_pos ha, ← ha]
      exact Function.update_self ..
    · rw [DspAccess.storesTo, if_neg ha]
      exact Function.update_of_ne (Ne.symm ha) ..
  | cycle shadow =>
    obtain ⟨⟨hbase, hdelay⟩, hindex, l, r, hram⟩ := dspCycle_echo shadow h.wf
    have hpos := h.wf.echo.remain_pos
    have hin := h.index
    refine ⟨⟨dspCycle_wf shadow h.wf, hbase.trans h.base, hdelay.le.trans h.delay,
      hindex.trans (max_le h.index h.delay)⟩, fun a ha => ?_⟩
    change _ = dsp.apuRam a
    rw [dspAccess, hram]
    split
    next =>
      rw [Dsp.echoAdr, h.base]
      exact writeEcho_of_notIn ha (by omega) l r dsp.apuRam
    next => rfl

/-- **The echo stays in its buffer**: while its base and its length are not stored to, a byte of sound RAM
outside of it holds what the sound processor stored there last. -/
theorem dspRun_echo (apuRam : Nat → Byte) {es es' : List DspAccess} (hes' : ∀ e ∈ es', e.KeepsEcho) {a : Nat}
    (ha : let dsp := dspRun apuRam es
      ¬ InEcho dsp.echoBufferAdr (max (dsp.echoBufferIndex + dsp.echoRemain) dsp.echoDelay) a) :
    (dspRun apuRam (es ++ es')).apuRam a =
      (Runs.latest (DspAccess.storesTo a) es').getD ((dspRun apuRam es).apuRam a) := by
  have hrun : ∀ {es' : List DspAccess} {dsp : Dsp} {base samples : Nat}, (∀ e ∈ es', e.KeepsEcho) →
      EchoIn base samples dsp → ¬ InEcho base samples a →
      (Runs.final dspAccess es' dsp).apuRam a =
        (Runs.latest (DspAccess.storesTo a) es').getD (dsp.apuRam a) := by
    intro es'
    induction es' with
    | nil => exact fun _ _ _ => rfl
    | cons e es' ih =>
      intro dsp base samples hes h ha
      obtain ⟨hnext, hram⟩ := dspAccess_echo (hes e List.mem_cons_self) h
      rw [Runs.final_cons, ih (fun f hf => hes f (List.mem_cons_of_mem e hf)) hnext ha, hram a ha,
        Runs.latest]
      cases Runs.latest (DspAccess.storesTo a) es' <;> rfl
  rw [dspRun, Runs.final_append]
  exact hrun hes' ⟨dspRun_wf apuRam es, rfl, le_max_right _ _, le_max_left _ _⟩ ha

/-- The echo of a delay of one step at `$8000`, with a store next to it. -/
theorem dspRun_echo_below : (dspRun (fun _ => 0) ([.write 0x6D 0x80, .write 0x7D 1, .write 0x6C 0x20] ++
    [.write 0x6C 0, .cycle plainMix, .store 0x7FFF 5, .cycle plainMix])).apuRam 0x7FFF = 5 := by
  refine dspRun_echo (fun _ => 0) ?_ ?_
  · simp [DspAccess.KeepsEcho]
  · have hbase : (dspRun (fun _ => 0) [.write 0x6D 0x80, .write 0x7D 1, .write 0x6C 0x20]).echoBufferAdr =
        0x8000 := rfl
    have hsamples : max ((dspRun (fun _ => 0) [.write 0x6D 0x80, .write 0x7D 1,
        .write 0x6C 0x20]).echoBufferIndex + (dspRun (fun _ => 0) [.write 0x6D 0x80, .write 0x7D 1,
        .write 0x6C 0x20]).echoRemain) (dspRun (fun _ => 0) [.write 0x6D 0x80, .write 0x7D 1,
        .write 0x6C 0x20]).echoDelay = 512 := by decide +kernel
    intro dsp hin
    change InEcho _ _ _ at hin
    rw [hbase, hsamples] at hin
    obtain ⟨j, hj, ha⟩ := hin
    omega

end SnesRecomp
