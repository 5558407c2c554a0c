import SnesRecomp.Devices.DspRing
import SnesRecomp.Runtime.CpuState

/-!
# The sound DSP

`dsp.c`: eight voices that decode blocks of BRR samples, interpolate them and shape them with an
envelope, their mix, the echo through sound RAM, and the noise.  Unsigned fields are `Nat` and signed
ones `Int`; a store to a field of 16 bits goes through `toU16` or `int16`.

`dsp_shadow_process` may put another mix in the place of the dry one; what it makes of the totals of a
cycle is the parameter `shadow`.
-/

namespace SnesRecomp

/-! ### Numbers -/

def toU16 (x : Int) : Nat := (x % 0x10000).toNat

def int16 (x : Int) : Int := (x + 0x8000) % 0x10000 - 0x8000

/-- "clamp 16-bit". -/
def clamp16 (x : Int) : Int := if x < -0x8000 then -0x8000 else if 0x7FFF < x then 0x7FFF else x

/-- "clip 15-bit". -/
def clip15 (x : Int) : Int := int16 (x % 0x8000 * 2) / 2

def rateValues : List Nat :=
  [0, 2048, 1536, 1280, 1024, 768, 640, 512, 384, 320, 256, 192, 160, 128, 96, 80, 64, 48, 40, 32, 24, 20,
    16, 12, 10, 8, 6, 5, 4, 3, 2, 1]

def rateValue (n : Nat) : Nat := rateValues.getD n 0

def gaussValues : List Nat :=
  [
    0x000, 0x000, 0x000, 0x000, 0x000, 0x000, 0x000, 0x000, 0x000, 0x000, 0x000, 0x000, 0x000, 0x000, 0x000, 0x000,
    0x001, 0x001, 0x001, 0x001, 0x001, 0x001, 0x001, 0x001, 0x001, 0x001, 0x001, 0x002, 0x002, 0x002, 0x002, 0x002,
    0x002, 0x002, 0x003, 0x003, 0x003, 0x003, 0x003, 0x004, 0x004, 0x004, 0x004, 0x004, 0x005, 0x005, 0x005, 0x005,
    0x006, 0x006, 0x006, 0x006, 0x007, 0x007, 0x007, 0x008, 0x008, 0x008, 0x009, 0x009, 0x009, 0x00A, 0x00A, 0x00A,
    0x00B, 0x00B, 0x00B, 0x00C, 0x00C, 0x00D, 0x00D, 0x00E, 0x00E, 0x00F, 0x00F, 0x00F, 0x010, 0x010, 0x011, 0x011,
    0x012, 0x013, 0x013, 0x014, 0x014, 0x015, 0x015, 0x016, 0x017, 0x017, 0x018, 0x018, 0x019, 0x01A, 0x01B, 0x01B,
    0x01C, 0x01D, 0x01D, 0x01E, 0x01F, 0x020, 0x020, 0x021, 0x022, 0x023, 0x024, 0x024, 0x025, 0x026, 0x027, 0x028,
    0x029, 0x02A, 0x02B, 0x02C, 0x02D, 0x02E, 0x02F, 0x030, 0x031, 0x032, 0x033, 0x034, 0x035, 0x036, 0x037, 0x038,
    0x03A, 0x03B, 0x03C, 0x03D, 0x03E, 0x040, 0x041, 0x042, 0x043, 0x045, 0x046, 0x047, 0x049, 0x04A, 0x04C, 0x04D,
    0x04E, 0x050, 0x051, 0x053, 0x054, 0x056, 0x057, 0x059, 0x05A, 0x05C, 0x05E, 0x05F, 0x061, 0x063, 0x064, 0x066,
    0x068, 0x06A, 0x06B, 0x06D, 0x06F, 0x071, 0x073, 0x075, 0x076, 0x078, 0x07A, 0x07C, 0x07E, 0x080, 0x082, 0x084,
    0x086, 0x089, 0x08B, 0x08D, 0x08F, 0x091, 0x093, 0x096, 0x098, 0x09A, 0x09C, 0x09F, 0x0A1, 0x0A3, 0x0A6, 0x0A8,
    0x0AB, 0x0AD, 0x0AF, 0x0B2, 0x0B4, 0x0B7, 0x0BA, 0x0BC, 0x0BF, 0x0C1, 0x0C4, 0x0C7, 0x0C9, 0x0CC, 0x0CF, 0x0D2,
    0x0D4, 0x0D7, 0x0DA, 0x0DD, 0x0E0, 0x0E3, 0x0E6, 0x0E9, 0x0EC, 0x0EF, 0x0F2, 0x0F5, 0x0F8, 0x0FB, 0x0FE, 0x101,
    0x104, 0x107, 0x10B, 0x10E, 0x111, 0x114, 0x118, 0x11B, 0x11E, 0x122, 0x125, 0x129, 0x12C, 0x130, 0x133, 0x137,
    0x13A, 0x13E, 0x141, 0x145, 0x148, 0x14C, 0x150, 0x153, 0x157, 0x15B, 0x15F, 0x162, 0x166, 0x16A, 0x16E, 0x172,
    0x176, 0x17A, 0x17D, 0x181, 0x185, 0x189, 0x18D, 0x191, 0x195, 0x19A, 0x19E, 0x1A2, 0x1A6, 0x1AA, 0x1AE, 0x1B2,
    0x1B7, 0x1BB, 0x1BF, 0x1C3, 0x1C8, 0x1CC, 0x1D0, 0x1D5, 0x1D9, 0x1DD, 0x1E2, 0x1E6, 0x1EB, 0x1EF, 0x1F3, 0x1F8,
    0x1FC, 0x201, 0x205, 0x20A, 0x20F, 0x213, 0x218, 0x21C, 0x221, 0x226, 0x22A, 0x22F, 0x233, 0x238, 0x23D, 0x241,
    0x246, 0x24B, 0x250, 0x254, 0x259, 0x25E, 0x263, 0x267, 0x26C, 0x271, 0x276, 0x27B, 0x280, 0x284, 0x289, 0x28E,
    0x293, 0x298, 0x29D, 0x2A2, 0x2A6, 0x2AB, 0x2B0, 0x2B5, 0x2BA, 0x2BF, 0x2C4, 0x2C9, 0x2CE, 0x2D3, 0x2D8, 0x2DC,
    0x2E1, 0x2E6, 0x2EB, 0x2F0, 0x2F5, 0x2FA, 0x2FF, 0x304, 0x309, 0x30E, 0x313, 0x318, 0x31D, 0x322, 0x326, 0x32B,
    0x330, 0x335, 0x33A, 0x33F, 0x344, 0x349, 0x34E, 0x353, 0x357, 0x35C, 0x361, 0x366, 0x36B, 0x370, 0x374, 0x379,
    0x37E, 0x383, 0x388, 0x38C, 0x391, 0x396, 0x39B, 0x39F, 0x3A4, 0x3A9, 0x3AD, 0x3B2, 0x3B7, 0x3BB, 0x3C0, 0x3C5,
    0x3C9, 0x3CE, 0x3D2, 0x3D7, 0x3DC, 0x3E0, 0x3E5, 0x3E9, 0x3ED, 0x3F2, 0x3F6, 0x3FB, 0x3FF, 0x403, 0x408, 0x40C,
    0x410, 0x415, 0x419, 0x41D, 0x421, 0x425, 0x42A, 0x42E, 0x432, 0x436, 0x43A, 0x43E, 0x442, 0x446, 0x44A, 0x44E,
    0x452, 0x455, 0x459, 0x45D, 0x461, 0x465, 0x468, 0x46C, 0x470, 0x473, 0x477, 0x47A, 0x47E, 0x481, 0x485, 0x488,
    0x48C, 0x48F, 0x492, 0x496, 0x499, 0x49C, 0x49F, 0x4A2, 0x4A6, 0x4A9, 0x4AC, 0x4AF, 0x4B2, 0x4B5, 0x4B7, 0x4BA,
    0x4BD, 0x4C0, 0x4C3, 0x4C5, 0x4C8, 0x4CB, 0x4CD, 0x4D0, 0x4D2, 0x4D5, 0x4D7, 0x4D9, 0x4DC, 0x4DE, 0x4E0, 0x4E3,
    0x4E5, 0x4E7, 0x4E9, 0x4EB, 0x4ED, 0x4EF, 0x4F1, 0x4F3, 0x4F5, 0x4F6, 0x4F8, 0x4FA, 0x4FB, 0x4FD, 0x4FF, 0x500,
    0x502, 0x503, 0x504, 0x506, 0x507, 0x508, 0x50A, 0x50B, 0x50C, 0x50D, 0x50E, 0x50F, 0x510, 0x511, 0x511, 0x512,
    0x513, 0x514, 0x514, 0x515, 0x516, 0x516, 0x517, 0x517, 0x517, 0x518, 0x518, 0x518, 0x518, 0x518, 0x519, 0x519
  ]

def gauss (n : Nat) : Int := gaussValues.getD n 0

/-! ### State -/

inductive AdsrState
  | attack | decay | sustain | gain | release
  deriving DecidableEq, Repr

structure DspChannel where
  pitch : Nat
  pitchCounter : Nat
  pitchModulation : Bool
  decodeBuffer : Nat → Int
  srcn : Nat
  decodeOffset : Nat
  previousFlags : Nat
  old : Int
  older : Int
  useNoise : Bool
  adsrRates : AdsrState → Nat
  rateCounter : Nat
  adsrState : AdsrState
  sustainLevel : Nat
  useGain : Bool
  gainMode : Nat
  directGain : Bool
  gainValue : Nat
  gain : Nat
  keyOn : Bool
  keyOff : Bool
  sampleOut : Int
  volumeL : Int
  volumeR : Int
  echoEnable : Bool

structure Dsp where
  apuRam : Nat → Byte
  ram : Nat → Byte
  channel : Fin 8 → DspChannel
  dirPage : Nat
  evenCycle : Bool
  mute : Bool
  reset : Bool
  masterVolumeL : Int
  masterVolumeR : Int
  noiseSample : Int
  noiseRate : Nat
  noiseCounter : Nat
  echoWrites : Bool
  echoVolumeL : Int
  echoVolumeR : Int
  feedbackVolume : Int
  echoBufferAdr : Nat
  echoDelay : Nat
  echoRemain : Nat
  echoBufferIndex : Nat
  firBufferIndex : Nat
  firValues : Nat → Int
  firBufferL : Nat → Int
  firBufferR : Nat → Int
  ring : DspRing (Int × Int)

def DspChannel.reset : DspChannel where
  pitch := 0
  pitchCounter := 0
  pitchModulation := false
  decodeBuffer _ := 0
  srcn := 0
  decodeOffset := 0
  previousFlags := 0
  old := 0
  older := 0
  useNoise := false
  adsrRates _ := 0
  rateCounter := 0
  adsrState := .attack
  sustainLevel := 0
  useGain := false
  gainMode := 0
  directGain := false
  gainValue := 0
  gain := 0
  keyOn := false
  keyOff := false
  sampleOut := 0
  volumeL := 0
  volumeR := 0
  echoEnable := false

/-- `dsp_reset`, with the sound RAM it is in front of. -/
def dspReset (apuRam : Nat → Byte) : Dsp where
  apuRam := apuRam
  ram n := if n = 0x7C then 0xFF else 0
  channel _ := .reset
  dirPage := 0
  evenCycle := false
  mute := true
  reset := true
  masterVolumeL := 0
  masterVolumeR := 0
  noiseSample := -0x4000
  noiseRate := 0
  noiseCounter := 0
  echoWrites := false
  echoVolumeL := 0
  echoVolumeR := 0
  feedbackVolume := 0
  echoBufferAdr := 0
  echoDelay := 1
  echoRemain := 1
  echoBufferIndex := 0
  firBufferIndex := 0
  firValues _ := 0
  firBufferL _ := 0
  firBufferR _ := 0
  ring := ⟨fun _ => (0, 0), 0, 0⟩

def Dsp.setChannel (dsp : Dsp) (ch : Fin 8) (c : DspChannel) : Dsp :=
  { dsp with channel := Function.update dsp.channel ch c }

/-- A word of sound RAM, low byte first, round its end. -/
def Dsp.ramWord (dsp : Dsp) (adr : Nat) : Nat :=
  (dsp.apuRam (adr % 0x10000)).toNat + 256 * (dsp.apuRam ((adr + 1) % 0x10000)).toNat

/-! ### BRR blocks -/

/-- `samplePointer`. -/
def Dsp.samplePointer (dsp : Dsp) (c : DspChannel) : Nat := (dsp.dirPage + 4 * c.srcn) % 0x10000

/-- The state of the loop of `dsp_decodeBrr`. -/
structure BrrState where
  decodeOffset : Nat
  curByte : Nat
  old : Int
  older : Int
  decodeBuffer : Nat → Int

/-- A nibble of the block, shifted. -/
def brrShift (shift nibble : Nat) : Int :=
  let s : Int := if 7 < nibble then (nibble : Int) - 16 else nibble
  if shift ≤ 0xC then s * 2 ^ shift / 2 else s / 8 * 0x1000

def brrFilter (filter : Nat) (s old older : Int) : Int :=
  match filter with
  | 1 => s + (old + -old / 16)
  | 2 => s + (2 * old + 3 * -old / 32 - older + older / 16)
  | 3 => s + (2 * old + 13 * -old / 64 - older + 3 * older / 16)
  | _ => s

/-- Turn `i` of the loop: the high nibble of a byte, then the low one. -/
def brrTurn (apuRam : Nat → Byte) (shift filter : Nat) (b : BrrState) (i : Nat) : BrrState :=
  let fetch := i % 2 = 0
  let curByte := if fetch then (apuRam b.decodeOffset).toNat else b.curByte
  let nibble := if fetch then curByte / 16 else curByte % 16
  let s := clip15 (clamp16 (brrFilter filter (brrShift shift nibble) b.old b.older))
  { decodeOffset := if fetch then (b.decodeOffset + 1) % 0x10000 else b.decodeOffset
    curByte := curByte
    old := s
    older := b.old
    decodeBuffer := Function.update b.decodeBuffer (i + 3) s }

/-- The end of the block before: a loop goes on at the loop address, the end releases the voice. -/
def brrEnd (ch : Fin 8) (dsp : Dsp) : Dsp :=
  let c := dsp.channel ch
  if c.previousFlags = 1 ∨ c.previousFlags = 3 then
    let c := { c with decodeOffset := dsp.ramWord (dsp.samplePointer c + 2) }
    let c := if c.previousFlags = 1 then { c with adsrState := .release, gain := 0 } else c
    { dsp.setChannel ch c with
      ram := Function.update dsp.ram 0x7C (dsp.ram 0x7C ||| BitVec.twoPow 8 ch) }
  else dsp

/-- The last three samples are kept for the interpolation. -/
def keepLast (buffer : Nat → Int) : Nat → Int := fun i => if i < 3 then buffer (i + 16) else buffer i

/-- `dsp_decodeBrr`. -/
def decodeBrr (ch : Fin 8) (dsp : Dsp) : Dsp :=
  let c := dsp.channel ch
  let dsp := brrEnd ch (dsp.setChannel ch { c with decodeBuffer := keepLast c.decodeBuffer })
  let c := dsp.channel ch
  let header := (dsp.apuRam c.decodeOffset).toNat
  let b := (List.range 16).foldl (brrTurn dsp.apuRam (header / 16) (header % 16 / 4))
    ⟨(c.decodeOffset + 1) % 0x10000, 0, c.old, c.older, c.decodeBuffer⟩
  dsp.setChannel ch
    { c with
      decodeOffset := b.decodeOffset, previousFlags := header % 4, decodeBuffer := b.decodeBuffer
      old := b.old, older := b.older }

/-- `dsp_getSample`. -/
def getSample (c : DspChannel) (sampleNum offset : Nat) : Int :=
  let out := gauss (0xFF - offset) * c.decodeBuffer sampleNum / 1024 +
    gauss (0x1FF - offset) * c.decodeBuffer (sampleNum + 1) / 1024 +
    gauss (0x100 + offset) * c.decodeBuffer (sampleNum + 2) / 1024
  clamp16 (int16 out + gauss offset * c.decodeBuffer (sampleNum + 3) / 1024) / 2

/-! ### Envelopes -/

/-- The exponential decrease. -/
def expStep (gain : Nat) : Nat := toU16 (gain - (((gain : Int) - 1) / 256 + 1))

/-- A decrease that goes below zero wraps to above `0x7FF`. -/
def linearDown (gain step : Nat) : Nat :=
  let gain := toU16 ((gain : Int) - step)
  if 0x7FF < gain then 0 else gain

def linearUp (gain step : Nat) : Nat :=
  let gain := (gain + step) % 0x10000
  if 0x7FF < gain then 0x7FF else gain

/-- `dsp_handleGain`. -/
def handleGain (c : DspChannel) : DspChannel :=
  match c.adsrState with
  | .attack =>
    let step := if c.adsrRates .attack = 1 then 1024 else 32
    { c with
      adsrState := if 0x7E0 ≤ (c.gain + step) % 0x10000 then .decay else .attack
      gain := linearUp c.gain step }
  | .decay =>
    { c with
      gain := expStep c.gain
      adsrState := if expStep c.gain < c.sustainLevel then .sustain else .decay }
  | .sustain => { c with gain := expStep c.gain }
  | .gain =>
    match c.gainMode with
    | 0 => { c with gain := linearDown c.gain 32 }
    | 1 => { c with gain := expStep c.gain }
    | 2 => { c with gain := linearUp c.gain 32 }
    | 3 => { c with gain := linearUp c.gain (if c.gain < 0x600 then 32 else 8) }
    | _ => c
  | .release => { c with gain := linearDown c.gain 8 }

/-- The envelope of `dsp_cycleChannel`. -/
def envelope (c : DspChannel) : DspChannel :=
  let released := decide (c.adsrState = .release)
  let direct := !released && c.useGain && c.directGain
  let rate := if released then 0 else c.adsrRates c.adsrState
  let counts := !released && !direct && decide (rate ≠ 0)
  let c := if counts then { c with rateCounter := (c.rateCounter + 1) % 0x10000 } else c
  let c :=
    if released || (counts && decide (rate ≤ c.rateCounter)) then
      handleGain (if released then c else { c with rateCounter := 0 })
    else c
  if direct then { c with gain := c.gainValue } else c

/-- The keys, polled every other cycle; a key that is off has priority. -/
def pollKeys (dsp : Dsp) (c : DspChannel) : DspChannel :=
  if c.keyOff then { c with adsrState := .release }
  else if c.keyOn then
    { c with
      keyOn := false, previousFlags := 0, decodeOffset := dsp.ramWord (dsp.samplePointer c)
      decodeBuffer := fun _ => 0, gain := 0, adsrState := if c.useGain then .gain else .attack }
  else c

/-! ### Voices -/

/-- The pitch of a voice, modulated by the voice in front of it. -/
def Dsp.pitch (dsp : Dsp) (ch : Fin 8) : Nat :=
  let c := dsp.channel ch
  if 0 < ch.val ∧ c.pitchModulation then
    let factor := (dsp.channel ⟨ch.val - 1, by omega⟩).sampleOut / 16 + 0x400
    let pitch := toU16 (c.pitch * factor / 1024)
    if 0x3FFF < pitch then 0x3FFF else pitch
  else c.pitch

/-- The voice until its envelope, and the sample it reads. -/
def voiceSample (ch : Fin 8) (dsp : Dsp) : Dsp × Int :=
  let newCounter := (dsp.channel ch).pitchCounter + dsp.pitch ch
  let dsp := if 0xFFFF < newCounter then decodeBrr ch dsp else dsp
  let c := { dsp.channel ch with pitchCounter := newCounter % 0x10000 }
  (dsp.setChannel ch c,
    if c.useNoise then dsp.noiseSample
    else getSample c (c.pitchCounter / 0x1000) (c.pitchCounter / 16 % 256))

/-- The keys, the reset flag and the envelope. -/
def voiceEnvelope (dsp : Dsp) (c : DspChannel) : DspChannel :=
  let c := if dsp.evenCycle then pollKeys dsp c else c
  let c := if dsp.reset then { c with adsrState := .release, gain := 0 } else c
  envelope c

/-- `dsp_cycleChannel`. -/
def cycleChannel (ch : Fin 8) (dsp : Dsp) : Dsp :=
  let (dsp, sample) := voiceSample ch dsp
  let c := voiceEnvelope dsp (dsp.channel ch)
  let out := int16 (sample * c.gain / 2048)
  { dsp.setChannel ch { c with sampleOut := out } with
    ram := Function.update (Function.update dsp.ram (16 * ch + 8) (BitVec.ofNat 8 (c.gain / 16)))
      (16 * ch + 9) (BitVec.ofInt 8 (out / 128)) }

/-! ### The mix -/

/-- The loop of `dsp_cycle`. -/
def mixVoice (t : Dsp × Int × Int) (ch : Fin 8) : Dsp × Int × Int :=
  let dsp := cycleChannel ch t.1
  let c := dsp.channel ch
  (dsp, clamp16 (t.2.1 + c.sampleOut * c.volumeL / 64), clamp16 (t.2.2 + c.sampleOut * c.volumeR / 64))

def mixVoices (dsp : Dsp) : Dsp × Int × Int := (List.finRange 8).foldl mixVoice (dsp, 0, 0)

/-- The sum of the FIR filter, cut to 16 bits in front of the last tap. -/
def firSum (values buffer : Nat → Int) (index : Nat) : Int :=
  clamp16 ((List.range 8).foldl (fun sum i =>
    let sum := sum + buffer ((index + i + 1) % 8) * values i / 64
    if i = 6 then int16 sum else sum) 0)

/-- What the voices send to the echo. -/
def echoInput (dsp : Dsp) (volume : DspChannel → Int) : Int :=
  (List.finRange 8).foldl (fun sum ch =>
    let c := dsp.channel ch
    if c.echoEnable then clamp16 (sum + c.sampleOut * volume c / 64) else sum) 0

/-- Where the echo reads and writes. -/
def Dsp.echoAdr (dsp : Dsp) : Nat := (dsp.echoBufferAdr + dsp.echoBufferIndex * 4) % 0x10000

/-- Four bytes of the echo, round the end of sound RAM. -/
def writeEcho (adr : Nat) (l r : Int) (apuRam : Nat → Byte) : Nat → Byte :=
  let l := (l % 0x10000).toNat / 2 * 2
  let r := (r % 0x10000).toNat / 2 * 2
  let apuRam := Function.update apuRam adr (BitVec.ofNat 8 l)
  let apuRam := Function.update apuRam ((adr + 1) % 0x10000) (BitVec.ofNat 8 (l / 256))
  let apuRam := Function.update apuRam ((adr + 2) % 0x10000) (BitVec.ofNat 8 r)
  Function.update apuRam ((adr + 3) % 0x10000) (BitVec.ofNat 8 (r / 256))

/-- The indices of the echo one sample on. -/
def stepEcho (dsp : Dsp) : Dsp :=
  let remain := toU16 (dsp.echoRemain - 1)
  { dsp with
    firBufferIndex := (dsp.firBufferIndex + 1) % 8
    echoBufferIndex := if remain = 0 then 0 else (dsp.echoBufferIndex + 1) % 0x10000
    echoRemain := if remain = 0 then dsp.echoDelay else remain }

/-- `dsp_handleEcho`, with the outputs. -/
def handleEcho (dsp : Dsp) (outputL outputR : Int) : Dsp × Int × Int :=
  let adr := dsp.echoAdr
  let bufferL := Function.update dsp.firBufferL dsp.firBufferIndex (int16 (dsp.ramWord adr) / 2)
  let bufferR := Function.update dsp.firBufferR dsp.firBufferIndex (int16 (dsp.ramWord (adr + 2)) / 2)
  let sumL := firSum dsp.firValues bufferL dsp.firBufferIndex
  let sumR := firSum dsp.firValues bufferR dsp.firBufferIndex
  let inL := clamp16 (echoInput dsp DspChannel.volumeL + sumL * dsp.feedbackVolume / 128)
  let inR := clamp16 (echoInput dsp DspChannel.volumeR + sumR * dsp.feedbackVolume / 128)
  (stepEcho { dsp with
      firBufferL := bufferL
      firBufferR := bufferR
      apuRam := if dsp.echoWrites then writeEcho adr inL inR dsp.apuRam else dsp.apuRam },
    clamp16 (outputL + sumL * dsp.echoVolumeL / 128), clamp16 (outputR + sumR * dsp.echoVolumeR / 128))

/-! ### Noise -/

/-- The shift register. -/
def noiseStep (noiseSample : Int) : Int :=
  let bit := if noiseSample % 2 = noiseSample / 2 % 2 then 0 else 1
  clip15 (noiseSample / 2 % 0x4000 + bit * 0x4000)

/-- `dsp_handleNoise`. -/
def handleNoise (dsp : Dsp) : Dsp :=
  let dsp := if dsp.noiseRate ≠ 0 then { dsp with noiseCounter := (dsp.noiseCounter + 1) % 0x10000 } else dsp
  if dsp.noiseRate ≤ dsp.noiseCounter ∧ dsp.noiseRate ≠ 0 then
    { dsp with noiseSample := noiseStep dsp.noiseSample, noiseCounter := 0 }
  else dsp

/-! ### A cycle -/

/-- The end of `dsp_cycle`: a sample for the ring. -/
def endCycle (total : Int × Int) (dsp : Dsp) : Dsp :=
  { dsp with ring := (dspCycleWrite total dsp.ring).1, evenCycle := !dsp.evenCycle }

/-- `dsp_cycle`. -/
def dspCycle (shadow : Int → Int → Int × Int) (dsp : Dsp) : Dsp :=
  let mix := mixVoices dsp
  let dry := shadow (clamp16 (mix.2.1 * dsp.masterVolumeL / 128)) (clamp16 (mix.2.2 * dsp.masterVolumeR / 128))
  let wet := handleEcho mix.1 dry.1 dry.2
  endCycle (if dsp.mute then (0, 0) else wet.2) (handleNoise wet.1)

/-! ### Registers -/

/-- The registers of a voice. -/
def DspChannel.write (c : DspChannel) (reg : Nat) (val : Byte) : DspChannel :=
  let n := val.toNat
  match reg with
  | 0 => { c with volumeL := val.toInt }
  | 1 => { c with volumeR := val.toInt }
  | 2 => { c with pitch := c.pitch / 0x100 % 0x40 * 0x100 + n }
  | 3 => { c with pitch := (c.pitch % 0x100 + n * 0x100) % 0x4000 }
  | 4 => { c with srcn := n }
  | 5 =>
    { c with
      adsrRates := Function.update (Function.update c.adsrRates .attack (rateValue (n % 16 * 2 + 1))) .decay
        (rateValue (n / 16 % 8 * 2 + 16))
      useGain := !val.getLsbD 7 }
  | 6 =>
    { c with
      adsrRates := Function.update c.adsrRates .sustain (rateValue (n % 32))
      sustainLevel := (n / 32 + 1) * 0x100 }
  | 7 =>
    if val.getLsbD 7 then
      { c with
        directGain := false
        gainMode := n / 32 % 4
        adsrRates := Function.update c.adsrRates .gain (rateValue (n % 32)) }
    else { c with directGain := true, gainValue := n % 128 * 16 }
  | _ => c

/-- One bit of a register for each voice. -/
def Dsp.eachVoice (dsp : Dsp) (set : DspChannel → Bool → DspChannel) (val : Byte) : Dsp :=
  { dsp with channel := fun ch => set (dsp.channel ch) (val.getLsbD ch) }

/-- The registers of the whole DSP. -/
def Dsp.writeGlobal (dsp : Dsp) (adr : Nat) (val : Byte) : Dsp :=
  let n := val.toNat
  match adr with
  | 0x0C => { dsp with masterVolumeL := val.toInt }
  | 0x1C => { dsp with masterVolumeR := val.toInt }
  | 0x2C => { dsp with echoVolumeL := val.toInt }
  | 0x3C => { dsp with echoVolumeR := val.toInt }
  | 0x4C => dsp.eachVoice (fun c on => { c with keyOn := on }) val
  | 0x5C => dsp.eachVoice (fun c on => { c with keyOff := on }) val
  | 0x6C =>
    { dsp with
      reset := val.getLsbD 7, mute := val.getLsbD 6, echoWrites := !val.getLsbD 5
      noiseRate := rateValue (n % 32) }
  | 0x0D => { dsp with feedbackVolume := val.toInt }
  | 0x2D => dsp.eachVoice (fun c on => { c with pitchModulation := on }) val
  | 0x3D => dsp.eachVoice (fun c on => { c with useNoise := on }) val
  | 0x4D => dsp.eachVoice (fun c on => { c with echoEnable := on }) val
  | 0x5D => { dsp with dirPage := n * 0x100 }
  | 0x6D => { dsp with echoBufferAdr := n * 0x100 }
  | 0x7D => { dsp with echoDelay := if n % 16 * 512 = 0 then 1 else n % 16 * 512 }
  | _ => dsp

/-- `dsp_read`. -/
def dspRead (dsp : Dsp) (adr : Fin 128) : Byte := dsp.ram adr

/-- `dsp_write`; any store to `$7C` clears it. -/
def dspWrite (adr : Fin 128) (val : Byte) (dsp : Dsp) : Dsp :=
  let ch : Fin 8 := ⟨adr / 16, by omega⟩
  let reg : Nat := adr % 16
  let dsp :=
    if reg < 8 then dsp.setChannel ch ((dsp.channel ch).write reg val)
    else if reg = 15 then { dsp with firValues := Function.update dsp.firValues ch val.toInt }
    else dsp.writeGlobal adr val
  { dsp with ram := Function.update dsp.ram adr (if adr.val = 0x7C then 0 else val) }

end SnesRecomp
