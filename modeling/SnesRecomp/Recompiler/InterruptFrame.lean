import SnesRecomp.Recompiler.StatusByte
import SnesRecomp.Runtime.WordAccess

/-!
# Interrupt frames

`cpu_push_interrupt_frame` and the emitted `RTI` around a handler.  Both ends agree on the size of
the frame in both modes, and the status byte at its lower end is the packing of the mirrors.
`RTI` discards the bank the frame holds: the host call returns to the interrupted code, and `PB`
stays as the handler left it.
-/

namespace SnesRecomp.Recompiler

variable {H : Type}

/-- The address of the status byte: the last byte of a frame of three, or four in native mode. -/
def statusSlot (cpu : CpuState) : Word := if cpu.emulation then cpu.S - 2 else cpu.S - 3

/-- The handler's own pushes and pulls are balanced and spare the status byte of the frame above
them, and it leaves the emulation flag as it was. -/
structure KeepsFrame (handler : EmitState (Mem H) → EmitState (Mem H)) (s : EmitState (Mem H)) :
    Prop where
  stack : (handler s).cpu.S = s.cpu.S
  mode : (handler s).cpu.emulation = s.cpu.emulation
  status : (handler s).mem.ram (s.cpu.S + 1).toNat = s.mem.ram (s.cpu.S + 1).toNat

/-- An interrupt: the frame, the handler, and the `RTI` it ends with. -/
def interruptRun (bus : Bus (Mem H)) (handler : EmitState (Mem H) → EmitState (Mem H))
    (s : EmitState (Mem H)) : EmitState (Mem H) :=
  emitRti bus (handler (cpuPushInterruptFrame bus s))

theorem cpuPushInterruptFrame_S (bus : Bus (Mem H)) (s : EmitState (Mem H)) :
    (cpuPushInterruptFrame bus s).cpu.S + 1 = statusSlot s.cpu := by
  cases he : s.cpu.emulation with
  | true =>
    have hS : (cpuPushInterruptFrame bus s).cpu.S = s.cpu.S - 1 - 1 - 1 := by
      simp only [cpuPushInterruptFrame, show (cpuMirrorsToP s.cpu).emulation = true from he, if_true]
      rfl
    rw [hS, statusSlot, if_pos he]
    bv_omega
  | false =>
    have hS : (cpuPushInterruptFrame bus s).cpu.S = s.cpu.S - 1 - 1 - 1 - 1 := by
      simp only [cpuPushInterruptFrame, show (cpuMirrorsToP s.cpu).emulation = false from he]
      rfl
    rw [hS, statusSlot, he]
    simp only [Bool.false_eq_true, if_false]
    bv_omega

theorem cpuPushInterruptFrame_emulation (bus : Bus (Mem H)) (s : EmitState (Mem H)) :
    (cpuPushInterruptFrame bus s).cpu.emulation = s.cpu.emulation := by
  simp only [cpuPushInterruptFrame]
  split <;> rfl

/-- Low WRAM through bank zero. -/
theorem cpuRead8_lowRam (cart : Cart) (io : RegIo H) {addr : Word} (h : addr.toNat < 0x2000)
    (m : Mem H) : (cpuRead8 cart io 0x00 addr m).1 = m.ram addr.toNat := by
  have hroute : cpuRamOffset 0x00 addr = some addr.toNat :=
    cpuRamOffset_eq_some.mpr (Or.inr (Or.inr ⟨by decide, h, rfl⟩))
  simp only [cpuRead8, hroute]

theorem cpuWrite8_lowRam (cart : Cart) (io : RegIo H) {addr : Word} (h : addr.toNat < 0x2000)
    (v : Byte) (m : Mem H) : (cpuWrite8 cart io 0x00 addr v m).ram addr.toNat = v := by
  have hroute : cpuRamOffset 0x00 addr = some addr.toNat :=
    cpuRamOffset_eq_some.mpr (Or.inr (Or.inr ⟨by decide, h, rfl⟩))
  simp only [cpuWrite8, hroute, Mem.setRam, Function.update_self]

/-- The frame holds the packed mirrors. -/
theorem cpuPushInterruptFrame_status (cart : Cart) (io : RegIo H) {s : EmitState (Mem H)}
    (h : (statusSlot s.cpu).toNat < 0x2000) :
    (cpuPushInterruptFrame (cpuBus cart io) s).mem.ram (statusSlot s.cpu).toNat =
      s.cpu.mirrors.pack := by
  obtain ⟨-, -, m, hm⟩ := cpuPushInterruptFrame_coherent (cpuBus cart io) s
  rw [hm, cpuPushInterruptFrame_S]
  exact cpuWrite8_lowRam cart io h s.cpu.mirrors.pack m

/-- What `RTI` takes from the frame, in either mode. -/
theorem interruptRun_state (cart : Cart) (io : RegIo H)
    {handler : EmitState (Mem H) → EmitState (Mem H)} {s : EmitState (Mem H)}
    (hSlot : (statusSlot s.cpu).toNat < 0x2000)
    (hKeeps : KeepsFrame handler (cpuPushInterruptFrame (cpuBus cart io) s)) :
    (interruptRun (cpuBus cart io) handler s).cpu.S = s.cpu.S ∧
      (interruptRun (cpuBus cart io) handler s).cpu.mirrors = s.cpu.mirrors ∧
      (interruptRun (cpuBus cart io) handler s).cpu.P = s.cpu.mirrors.pack := by
  have hPop : (popByte (cpuBus cart io)
      (handler (cpuPushInterruptFrame (cpuBus cart io) s))).1 = s.cpu.mirrors.pack := by
    show (cpuRead8 cart io 0x00 (_ + 1) _).1 = _
    rw [hKeeps.stack, cpuPushInterruptFrame_S, cpuRead8_lowRam cart io hSlot,
      ← cpuPushInterruptFrame_status cart io hSlot, ← cpuPushInterruptFrame_S]
    exact hKeeps.status
  obtain ⟨hP, hMirrors⟩ := emitRti_loaded (cpuBus cart io)
    (handler (cpuPushInterruptFrame (cpuBus cart io) s))
  rw [hPop] at hP hMirrors
  refine ⟨?_, hMirrors.trans (Mirrors.unpack_pack s.cpu.mirrors), hP⟩
  have hS := cpuPushInterruptFrame_S (cpuBus cart io) s
  rw [interruptRun, emitRti_S, hKeeps.mode, cpuPushInterruptFrame_emulation, hKeeps.stack]
  cases he : s.cpu.emulation with
  | true =>
    rw [statusSlot, if_pos he] at hS
    rw [if_pos rfl]
    bv_omega
  | false =>
    rw [statusSlot, he, if_neg (by decide)] at hS
    rw [if_neg (by decide)]
    bv_omega

/-- **An interrupt leaves `S`, the flags and `P` as they were**, whatever its handler does with
them, and `PB` as the handler left it. -/
theorem interruptRun_restores (cart : Cart) (io : RegIo H)
    (handler : EmitState (Mem H) → EmitState (Mem H)) (s : EmitState (Mem H))
    (hSlot : (statusSlot s.cpu).toNat < 0x2000)
    (hKeeps : KeepsFrame handler (cpuPushInterruptFrame (cpuBus cart io) s)) :
    (interruptRun (cpuBus cart io) handler s).cpu.S = s.cpu.S ∧
      (interruptRun (cpuBus cart io) handler s).cpu.mirrors = s.cpu.mirrors ∧
      (interruptRun (cpuBus cart io) handler s).cpu.P = s.cpu.mirrors.pack ∧
      (interruptRun (cpuBus cart io) handler s).cpu.PB =
        (handler (cpuPushInterruptFrame (cpuBus cart io) s)).cpu.PB := by
  obtain ⟨hS, hMirrors, hP⟩ := interruptRun_state cart io hSlot hKeeps
  exact ⟨hS, hMirrors, hP, emitRti_PB _ _⟩

/-- `SEP #$31; RTI` behind native code with wide registers and the carry clear: in the handler the
flags are others. -/
theorem interruptRun_restores_sep :
    let handler (s : EmitState (Mem Unit)) : EmitState (Mem Unit) :=
      { s with cpu := emitSep 0x31 s.cpu }
    let cpu := { cpuStateInit with emulation := false, mFlag := false, xFlag := false, flagC := false }
    let s : EmitState (Mem Unit) := ⟨cpu, romMem fun _ => 0, fun _ => 0⟩
    let pushed := cpuPushInterruptFrame (cpuBus romOnlyCart silentIo) s
    (handler pushed).cpu.mirrors ≠ s.cpu.mirrors ∧
      (interruptRun (cpuBus romOnlyCart silentIo) handler s).cpu.S = 0x01FF ∧
      (interruptRun (cpuBus romOnlyCart silentIo) handler s).cpu.mirrors = s.cpu.mirrors := by
  intro handler cpu s pushed
  obtain ⟨hS, hMirrors, _⟩ :=
    interruptRun_restores romOnlyCart silentIo handler s (by decide) ⟨rfl, rfl, rfl⟩
  exact ⟨by decide, hS, hMirrors⟩

/-- The interrupted code goes on in its own bank, with its own flags. -/
def RoundTrips (bus : Bus (Mem H)) (handler : EmitState (Mem H) → EmitState (Mem H))
    (s : EmitState (Mem H)) : Prop :=
  (interruptRun bus handler s).cpu.S = s.cpu.S ∧ (interruptRun bus handler s).cpu.PB = s.cpu.PB ∧
    (interruptRun bus handler s).cpu.mirrors = s.cpu.mirrors ∧
    (interruptRun bus handler s).cpu.P = s.cpu.mirrors.pack

/-- All that can be missing is the bank. -/
theorem roundTrips_iff (cart : Cart) (io : RegIo H)
    {handler : EmitState (Mem H) → EmitState (Mem H)} {s : EmitState (Mem H)}
    (hSlot : (statusSlot s.cpu).toNat < 0x2000)
    (hKeeps : KeepsFrame handler (cpuPushInterruptFrame (cpuBus cart io) s)) :
    RoundTrips (cpuBus cart io) handler s ↔
      (handler (cpuPushInterruptFrame (cpuBus cart io) s)).cpu.PB = s.cpu.PB := by
  obtain ⟨hS, hMirrors, hP⟩ := interruptRun_state cart io hSlot hKeeps
  have hPB : (interruptRun (cpuBus cart io) handler s).cpu.PB =
      (handler (cpuPushInterruptFrame (cpuBus cart io) s)).cpu.PB := emitRti_PB _ _
  rw [RoundTrips, hPB]
  exact ⟨fun h => h.2.1, fun h => ⟨hS, h, hMirrors, hP⟩⟩

/-- Native code in bank `$03`. -/
def inBank3 : EmitState (Mem Unit) where
  cpu := { cpuStateInit with PB := 0x03, emulation := false }
  mem := romMem fun _ => 0
  vals _ := 0

/-- The `cpu->PB = 0x80` of a `JML $80xxxx`, with the `RTI` in the body it goes to. -/
def jmlHandler (s : EmitState (Mem Unit)) : EmitState (Mem Unit) :=
  { s with cpu := { s.cpu with PB := 0x80 } }

/-- After a handler that jumps to bank `$80`, code of bank `$03` goes on with `PB = $80`. -/
theorem not_roundTrips_jml :
    (statusSlot inBank3.cpu).toNat < 0x2000 ∧
      KeepsFrame jmlHandler (cpuPushInterruptFrame (cpuBus romOnlyCart silentIo) inBank3) ∧
      ¬ RoundTrips (cpuBus romOnlyCart silentIo) jmlHandler inBank3 := by
  refine ⟨by decide, ⟨rfl, rfl, rfl⟩, ?_⟩
  rintro ⟨-, hPB, -⟩
  exact absurd hPB (by decide)

end SnesRecomp.Recompiler
