import SnesRecomp.Lib.Runs
import SnesRecomp.Runtime.RegisterWords

/-!
# Writes to the APU ports

`RtlApuWrite` gives each port write a time on the clock of produced samples and puts it into a
queue; `apu_cycle` applies what is due before it makes a sample.  The time goes on from that
of the write before, may not be more than three quanta ahead, and is put off until the port has
held its last value for 128 samples.  The two limits do not agree: after a write that was put
off further than three quanta, the next one to another port gets an earlier time than a write
it stands behind.  As long as that does not happen, every value stays on its port for 128
samples (`apuRun_portsKept`).
-/

namespace SnesRecomp

/-! ### The drain -/

/-- The writes the loop of `apu_drainPortQueue` applies, and those it leaves. -/
def drainQueue (produced : BitVec 64) :
    List ApuPortWrite → List ApuPortWrite × List ApuPortWrite
  | [] => ([], [])
  | w :: ws =>
    if produced < w.targetSample then ([], w :: ws)
    else (w :: (drainQueue produced ws).1, (drainQueue produced ws).2)

/-- `apu_drainPortQueue`. -/
def ApuPorts.drainPortQueue (produced : BitVec 64) (apu : ApuPorts) : ApuPorts :=
  { (drainQueue produced apu.portQueue).1.foldl (fun apu w => apu.applyPortWrite w) apu with
      portQueue := (drainQueue produced apu.portQueue).2 }

/-- The writes a full queue gives up. -/
def ApuPorts.forced (apu : ApuPorts) : List ApuPortWrite :=
  if apuPortQueueLen ≤ apu.portQueue.length then apu.portQueue.take 1 else []

/-! ### Runs -/

inductive ApuEvent
  /-- `RtlApuWrite`, with the wall clock and the quantum there is. -/
  | write (port : BitVec 2) (val : Byte) (nowNs quantum : BitVec 64)
  /-- `apu_cycle` comes to a sample: the queue is drained, then the sample is produced. -/
  | sample
  deriving DecidableEq

/-- The machine, the writes in program order, and those that were applied, each with the
sample it was applied at for its time. -/
structure ApuRun where
  apu : ApuPorts
  clock : PortClock
  produced : BitVec 64
  written : List (BitVec 2 × Byte)
  applied : List ApuPortWrite

def ApuRun.clocks (nowNs quantum : BitVec 64) (t : ApuRun) : AudioClocks :=
  ⟨quantum, nowNs, t.produced⟩

/-- The writes as they are applied now. -/
def ApuRun.stamp (ws : List ApuPortWrite) (t : ApuRun) : List ApuPortWrite :=
  ws.map fun w => { w with targetSample := t.produced }

def apuStep : ApuEvent → ApuRun → ApuRun
  | .write p val nowNs quantum, t =>
    let c := t.clocks nowNs quantum
    { t with
        apu := t.apu.schedulePortWrite ⟨t.clock.target c p val, p, val⟩
        clock := t.clock.record c p val
        written := t.written ++ [(p, val)]
        applied := t.applied ++ t.stamp t.apu.forced }
  | .sample, t =>
    { t with
        apu := t.apu.drainPortQueue t.produced
        produced := t.produced + 1
        applied := t.applied ++ t.stamp (drainQueue t.produced t.apu.portQueue).1 }

/-- The process starts: the statics are zero and nothing is queued. -/
def apuStart (inPorts outPorts : BitVec 2 → Byte) (produced : BitVec 64) : ApuRun :=
  ⟨⟨inPorts, outPorts, []⟩, ⟨0, 0, fun _ => 0, fun _ => 0, fun _ => false⟩, produced, [], []⟩

/-! ### What is to be kept -/

/-- The port and the value of a write. -/
def ApuPortWrite.command (w : ApuPortWrite) : BitVec 2 × Byte := (w.port, w.val)

/-- When `a` and `b` go to one port with different values, `a` is there for 128 samples. -/
def Dwells (a b : ApuPortWrite) : Prop :=
  a.port = b.port → a.val ≠ b.val → a.targetSample.toNat + 128 ≤ b.targetSample.toNat

instance (a b : ApuPortWrite) : Decidable (Dwells a b) := inferInstanceAs (Decidable (_ → _ → _))

/-- The writes are applied in program order, each once, the ports hold what was applied last,
and a value stays on its port for 128 samples before another one replaces it. -/
structure PortsKept (inPorts : BitVec 2 → Byte) (t : ApuRun) : Prop where
  order : t.applied.map ApuPortWrite.command ++ t.apu.portQueue.map ApuPortWrite.command =
    t.written
  ports : t.apu.inPorts = t.applied.foldl (fun f w => Function.update f w.port w.val) inPorts
  dwell : t.applied.Pairwise Dwells

/-- Whether the write has to wait until the port has held its last value long enough. -/
def PortClock.Distinct (p : BitVec 2) (val : Byte) (s : PortClock) : Prop :=
  s.lastValid p = true ∧ val ≠ s.lastVal p

instance (p : BitVec 2) (val : Byte) (s : PortClock) : Decidable (s.Distinct p val) :=
  inferInstanceAs (Decidable (_ ∧ _))

/-- There is room in the queue, the dwell floor is within its ceiling, and the clock of samples
does not wrap round. -/
def WithinLimits : ApuEvent → ApuRun → Prop
  | .write p val _ quantum, t =>
    t.apu.portQueue.length < apuPortQueueLen ∧
      (t.clock.Distinct p val →
        (t.clock.lastTarget p).toNat + 128 ≤ t.produced.toNat + 8 * quantum.toNat)
  | .sample, t => t.produced.toNat + 1 < 2 ^ 64

/-- The target of the write before is at most three quanta ahead, or the dwell floor of the
port reaches it; and the ceilings are numbers of 64 bits. -/
def TargetAdvances : ApuEvent → ApuRun → Prop
  | .write p val _ quantum, t =>
    t.produced.toNat + 8 * quantum.toNat < 2 ^ 64 ∧
      (t.clock.portClock.toNat ≤ t.produced.toNat + 3 * quantum.toNat ∨
        t.clock.Distinct p val ∧
          t.clock.portClock.toNat ≤ (t.clock.lastTarget p).toNat + 128)
  | .sample, _ => True

instance : ∀ (e : ApuEvent) (t : ApuRun), Decidable (WithinLimits e t)
  | .write .., _ => inferInstanceAs (Decidable (_ ∧ (_ → _)))
  | .sample, _ => inferInstanceAs (Decidable (_ < _))

instance : ∀ (e : ApuEvent) (t : ApuRun), Decidable (TargetAdvances e t)
  | .write .., _ => inferInstanceAs (Decidable (_ ∧ (_ ∨ _ ∧ _)))
  | .sample, _ => inferInstanceAs (Decidable True)

/-! ### The target of a write -/

variable {c : AudioClocks} {p : BitVec 2} {val : Byte} {s : PortClock}

theorem toNat_mul_quantum (hwrap : c.produced.toNat + 8 * c.quantum.toNat < 2 ^ 64) {n : Nat}
    (hn : n ≤ 8) : (BitVec.ofNat 64 n * c.quantum).toNat = n * c.quantum.toNat := by
  have hle : n * c.quantum.toNat ≤ 8 * c.quantum.toNat := Nat.mul_le_mul_right _ hn
  rw [BitVec.toNat_mul, BitVec.toNat_ofNat, Nat.mod_eq_of_lt (show n < 2 ^ 64 by omega)]
  exact Nat.mod_eq_of_lt (by omega)

theorem toNat_produced_add (hwrap : c.produced.toNat + 8 * c.quantum.toNat < 2 ^ 64) {n : Nat}
    (hn : n ≤ 8) : (c.produced + BitVec.ofNat 64 n * c.quantum).toNat =
      c.produced.toNat + n * c.quantum.toNat := by
  have hle : n * c.quantum.toNat ≤ 8 * c.quantum.toNat := Nat.mul_le_mul_right _ hn
  rw [BitVec.toNat_add, toNat_mul_quantum hwrap hn]
  exact Nat.mod_eq_of_lt (by omega)

theorem clamp_bounds {lo hi : BitVec 64} (h : lo ≤ hi) (x : BitVec 64) :
    let y := if x < lo then lo else x
    lo ≤ (if hi < y then hi else y) ∧ (if hi < y then hi else y) ≤ hi := by
  intro y
  have hlo : lo ≤ y := by
    by_cases hx : x < lo
    · exact le_of_le_of_eq (BitVec.le_refl lo) (if_pos hx).symm
    · exact le_of_le_of_eq (BitVec.not_lt.mp hx) (if_neg hx).symm
  by_cases hy : hi < y
  · rw [if_pos hy]
    exact ⟨h, BitVec.le_refl hi⟩
  · rw [if_neg hy]
    exact ⟨hlo, BitVec.not_lt.mp hy⟩

theorem spacedTarget_bounds (hwrap : c.produced.toNat + 8 * c.quantum.toNat < 2 ^ 64) :
    c.produced.toNat ≤ (s.spacedTarget c).toNat ∧
      (s.spacedTarget c).toNat ≤ c.produced.toNat + 3 * c.quantum.toNat := by
  have hceil := toNat_produced_add hwrap (show 3 ≤ 8 by omega)
  have hle : c.produced ≤ c.produced + 3 * c.quantum := by
    rw [BitVec.le_def]
    exact le_of_le_of_eq (Nat.le_add_right _ _) hceil.symm
  have hbounds := clamp_bounds hle (s.portClock + (
    let delta := if s.portClockNs = 0 then 0 else (c.nowNs - s.portClockNs) * 32040 / 1000000000
    if 4 * c.quantum < delta then 4 * c.quantum else delta))
  exact ⟨hbounds.1, le_of_le_of_eq hbounds.2 hceil⟩

theorem ite_le_cap (cap x : BitVec 64) : (if cap < x then cap else x) ≤ cap := by
  by_cases h : cap < x
  · rw [if_pos h]
    exact BitVec.le_refl cap
  · rw [if_neg h]
    exact BitVec.not_lt.mp h

theorem le_clamp {lo hi x k : BitVec 64} (hkx : k ≤ x) (hkhi : k ≤ hi) :
    let y := if x < lo then lo else x
    k ≤ if hi < y then hi else y := by
  intro y
  have hy : k ≤ y := by
    by_cases hx : x < lo
    · exact le_of_le_of_eq (BitVec.le_trans hkx (BitVec.le_of_lt hx)) (if_pos hx).symm
    · exact le_of_le_of_eq hkx (if_neg hx).symm
  by_cases hhi : hi < y
  · rw [if_pos hhi]
    exact hkhi
  · rw [if_neg hhi]
    exact hy

theorem portClock_le_spacedTarget (hwrap : c.produced.toNat + 8 * c.quantum.toNat < 2 ^ 64)
    (hclock : s.portClock.toNat ≤ c.produced.toNat + 3 * c.quantum.toNat) :
    s.portClock.toNat ≤ (s.spacedTarget c).toNat := by
  obtain ⟨delta, hdelta⟩ : ∃ delta : BitVec 64, delta =
      let delta := if s.portClockNs = 0 then 0 else (c.nowNs - s.portClockNs) * 32040 / 1000000000
      if 4 * c.quantum < delta then 4 * c.quantum else delta := ⟨_, rfl⟩
  have hfour : (4 * c.quantum).toNat = 4 * c.quantum.toNat :=
    toNat_mul_quantum hwrap (show 4 ≤ 8 by omega)
  have hle : delta.toNat ≤ 4 * c.quantum.toNat := by
    rw [← hfour, hdelta]
    exact BitVec.le_def.mp (ite_le_cap _ _)
  have hsum : s.portClock ≤ s.portClock + delta := by
    rw [BitVec.le_def, BitVec.toNat_add, Nat.mod_eq_of_lt (by omega)]
    omega
  have hceil : s.portClock ≤ c.produced + 3 * c.quantum := by
    rw [BitVec.le_def]
    exact le_of_le_of_eq hclock (toNat_produced_add hwrap (show 3 ≤ 8 by omega)).symm
  rw [hdelta] at hsum
  exact BitVec.le_def.mp (le_clamp hsum hceil)

/-- Where the target of a write lies. -/
structure TargetBounds (c : AudioClocks) (p : BitVec 2) (val : Byte) (s : PortClock) : Prop where
  produced_le : c.produced.toNat ≤ (s.target c p val).toNat
  clock_le : s.portClock.toNat ≤ (s.target c p val).toNat
  floor_le : s.Distinct p val → (s.lastTarget p).toNat + 128 ≤ (s.target c p val).toNat

theorem target_bounds (hwrap : c.produced.toNat + 8 * c.quantum.toNat < 2 ^ 64)
    (hfloor : s.Distinct p val →
      (s.lastTarget p).toNat + 128 ≤ c.produced.toNat + 8 * c.quantum.toNat)
    (hclock : s.portClock.toNat ≤ c.produced.toNat + 3 * c.quantum.toNat ∨
      s.Distinct p val ∧ s.portClock.toNat ≤ (s.lastTarget p).toNat + 128) :
    TargetBounds c p val s := by
  have hspaced := spacedTarget_bounds (s := s) hwrap
  by_cases hdist : s.Distinct p val
  · have hlimit := hfloor hdist
    have hfloorNat : (s.lastTarget p + apuPortMinDwell).toNat = (s.lastTarget p).toNat + 128 := by
      rw [BitVec.toNat_add]
      exact Nat.mod_eq_of_lt (by
        change (s.lastTarget p).toNat + 128 < 2 ^ 64
        omega)
    have hceilNat : (c.produced + 8 * c.quantum).toNat =
        c.produced.toNat + 8 * c.quantum.toNat := toNat_produced_add hwrap (le_refl 8)
    have htarget : (s.target c p val).toNat =
        max (s.spacedTarget c).toNat ((s.lastTarget p).toNat + 128) := by
      by_cases hlow : s.spacedTarget c < s.lastTarget p + apuPortMinDwell
      · have hlowNat := BitVec.lt_def.mp hlow
        rw [PortClock.target, if_pos ⟨hdist.1, hdist.2, hlow⟩, max_eq_right (by omega)]
        by_cases hceil : s.lastTarget p + apuPortMinDwell < c.produced + 8 * c.quantum
        · rw [if_pos hceil, hfloorNat]
        · have hceil' := BitVec.le_def.mp (BitVec.not_lt.mp hceil)
          rw [if_neg hceil, hceilNat]
          omega
      · have hhigh := BitVec.le_def.mp (BitVec.not_lt.mp hlow)
        rw [PortClock.target, if_neg (fun h => hlow h.2.2), max_eq_left (by omega)]
    refine ⟨?_, ?_, fun _ => ?_⟩
    · rw [htarget]
      exact le_trans hspaced.1 (le_max_left _ _)
    · rw [htarget]
      cases hclock with
      | inl hle =>
          exact le_trans (portClock_le_spacedTarget hwrap hle) (le_max_left _ _)
      | inr h => exact le_trans h.2 (le_max_right _ _)
    · rw [htarget]
      exact le_max_right _ _
  · have htarget : s.target c p val = s.spacedTarget c := by
      rw [PortClock.target]
      exact if_neg (fun h => hdist ⟨h.1, h.2.1⟩)
    have hle : s.portClock.toNat ≤ c.produced.toNat + 3 * c.quantum.toNat := by
      cases hclock with
      | inl h => exact h
      | inr h => exact absurd h.1 hdist
    refine ⟨?_, ?_, fun h => absurd h hdist⟩
    · rw [htarget]
      exact hspaced.1
    · rw [htarget]
      exact portClock_le_spacedTarget hwrap hle

/-! ### The queue -/

theorem drainQueue_append (produced : BitVec 64) (ws : List ApuPortWrite) :
    (drainQueue produced ws).1 ++ (drainQueue produced ws).2 = ws := by
  induction ws with
  | nil => rfl
  | cons w ws ih =>
      rw [drainQueue]
      by_cases hdue : produced < w.targetSample
      · rw [if_pos hdue]
        rfl
      · rw [if_neg hdue, List.cons_append, ih]

theorem drainQueue_due (produced : BitVec 64) (ws : List ApuPortWrite) :
    ∀ w ∈ (drainQueue produced ws).1, w.targetSample ≤ produced := by
  induction ws with
  | nil => exact fun w hw => absurd hw List.not_mem_nil
  | cons v ws ih =>
      intro w hw
      rw [drainQueue] at hw
      by_cases hdue : produced < v.targetSample
      · rw [if_pos hdue] at hw
        exact absurd hw List.not_mem_nil
      · rw [if_neg hdue] at hw
        rcases List.mem_cons.mp hw with rfl | hw
        · exact BitVec.not_lt.mp hdue
        · exact ih w hw

/-- The queue is in the order of its targets. -/
def InOrder (ws : List ApuPortWrite) : Prop :=
  ws.Pairwise fun a b => a.targetSample.toNat ≤ b.targetSample.toNat

theorem drainQueue_left {produced : BitVec 64} {ws : List ApuPortWrite} (h : InOrder ws) :
    ∀ w ∈ (drainQueue produced ws).2, produced.toNat < w.targetSample.toNat := by
  induction ws with
  | nil => exact fun w hw => absurd hw List.not_mem_nil
  | cons v ws ih =>
      intro w hw
      obtain ⟨hv, hws⟩ := List.pairwise_cons.mp h
      rw [drainQueue] at hw
      by_cases hdue : produced < v.targetSample
      · rw [if_pos hdue] at hw
        have hlt := BitVec.lt_def.mp hdue
        rcases List.mem_cons.mp hw with rfl | hw
        · exact hlt
        · exact lt_of_lt_of_le hlt (hv w hw)
      · rw [if_neg hdue] at hw
        exact ih hws w hw

theorem foldl_applyPortWrite_inPorts (ws : List ApuPortWrite) (apu : ApuPorts) :
    (ws.foldl (fun apu w => apu.applyPortWrite w) apu).inPorts =
      ws.foldl (fun f w => Function.update f w.port w.val) apu.inPorts := by
  induction ws generalizing apu with
  | nil => rfl
  | cons w ws ih => exact ih (apu.applyPortWrite w)

theorem schedulePortWrite_of_room {apu : ApuPorts} (h : apu.portQueue.length < apuPortQueueLen)
    (w : ApuPortWrite) :
    apu.schedulePortWrite w = { apu with portQueue := apu.portQueue ++ [w] } ∧
      apu.forced = [] := by
  have hroom : apu.makeRoom = apu := by
    rw [ApuPorts.makeRoom]
    cases hq : apu.portQueue with
    | nil => rfl
    | cons v ws =>
        dsimp only
        rw [hq] at h
        rw [if_neg (by omega)]
  rw [ApuPorts.schedulePortWrite, hroom, ApuPorts.forced, if_neg (by omega)]
  exact ⟨rfl, rfl⟩

/-! ### The invariant -/

/-- The writes that were applied and then those that will be, at their targets. -/
def ApuRun.timeline (t : ApuRun) : List ApuPortWrite := t.applied ++ t.apu.portQueue

/-- What the statics say of an earlier write. -/
def Recorded (s : PortClock) (w : ApuPortWrite) : Prop :=
  s.lastValid w.port = true ∧ w.targetSample.toNat ≤ (s.lastTarget w.port).toNat ∧
    (w.val ≠ s.lastVal w.port → w.targetSample.toNat + 128 ≤ (s.lastTarget w.port).toNat)

structure ApuInv (inPorts : BitVec 2 → Byte) (t : ApuRun) : Prop where
  order : t.timeline.map ApuPortWrite.command = t.written
  ports : t.apu.inPorts = t.applied.foldl (fun f w => Function.update f w.port w.val) inPorts
  dwell : t.timeline.Pairwise Dwells
  inOrder : InOrder t.apu.portQueue
  due : ∀ w ∈ t.apu.portQueue, t.produced.toNat ≤ w.targetSample.toNat
  recorded : ∀ w ∈ t.timeline, Recorded t.clock w
  clock : ∀ p, (t.clock.lastTarget p).toNat ≤ t.clock.portClock.toNat

theorem apuStart_inv (inPorts outPorts : BitVec 2 → Byte) (produced : BitVec 64) :
    ApuInv inPorts (apuStart inPorts outPorts produced) where
  order := rfl
  ports := rfl
  dwell := List.Pairwise.nil
  inOrder := List.Pairwise.nil
  due := fun _ hw => absurd hw List.not_mem_nil
  recorded := fun _ hw => absurd hw List.not_mem_nil
  clock := fun _ => le_refl _

/-- What is applied at a sample is applied at its target, so the timeline stays. -/
theorem sample_timeline {inPorts : BitVec 2 → Byte} {t : ApuRun} (h : ApuInv inPorts t) :
    (apuStep .sample t).timeline = t.timeline ∧
      t.stamp (drainQueue t.produced t.apu.portQueue).1 =
        (drainQueue t.produced t.apu.portQueue).1 := by
  have hstamp : t.stamp (drainQueue t.produced t.apu.portQueue).1 =
      (drainQueue t.produced t.apu.portQueue).1 := by
    rw [ApuRun.stamp]
    conv => rhs; rw [← List.map_id (drainQueue t.produced t.apu.portQueue).1]
    apply List.map_congr_left
    intro w hw
    have hle := BitVec.le_def.mp (drainQueue_due t.produced t.apu.portQueue w hw)
    have hmem : w ∈ t.apu.portQueue := by
      rw [← drainQueue_append t.produced t.apu.portQueue]
      exact List.mem_append_left _ hw
    have heq : t.produced = w.targetSample :=
      BitVec.eq_of_toNat_eq (le_antisymm (h.due w hmem) hle)
    rw [heq]
    rfl
  refine ⟨?_, hstamp⟩
  change (t.applied ++ t.stamp (drainQueue t.produced t.apu.portQueue).1) ++
    (drainQueue t.produced t.apu.portQueue).2 = t.applied ++ t.apu.portQueue
  rw [hstamp, List.append_assoc, drainQueue_append]

theorem sample_inv {inPorts : BitVec 2 → Byte} {t : ApuRun} (h : ApuInv inPorts t)
    (hlimit : WithinLimits .sample t) : ApuInv inPorts (apuStep .sample t) := by
  obtain ⟨hline, hstamp⟩ := sample_timeline h
  have hsplit := drainQueue_append t.produced t.apu.portQueue
  refine ⟨?_, ?_, ?_, ?_, ?_, ?_, h.clock⟩
  · rw [hline]
    exact h.order
  · change ((drainQueue t.produced t.apu.portQueue).1.foldl
      (fun apu w => apu.applyPortWrite w) t.apu).inPorts =
        (t.applied ++ t.stamp (drainQueue t.produced t.apu.portQueue).1).foldl _ inPorts
    rw [foldl_applyPortWrite_inPorts, hstamp, List.foldl_append, h.ports]
  · rw [hline]
    exact h.dwell
  · have hall := h.inOrder
    rw [← hsplit] at hall
    exact (List.pairwise_append.mp hall).2.1
  · intro w hw
    have hlt := drainQueue_left h.inOrder w hw
    change (t.produced + 1#64).toNat ≤ w.targetSample.toNat
    have hnext : (t.produced + 1#64).toNat = t.produced.toNat + 1 := by
      rw [BitVec.toNat_add]
      exact Nat.mod_eq_of_lt hlimit
    rw [hnext]
    exact hlt
  · rw [hline]
    exact h.recorded

theorem write_inv {inPorts : BitVec 2 → Byte} {t : ApuRun} (h : ApuInv inPorts t)
    {p : BitVec 2} {val : Byte} {nowNs quantum : BitVec 64}
    (hlimit : WithinLimits (.write p val nowNs quantum) t)
    (hadv : TargetAdvances (.write p val nowNs quantum) t) :
    ApuInv inPorts (apuStep (.write p val nowNs quantum) t) := by
  obtain ⟨c, hc⟩ : ∃ c, t.clocks nowNs quantum = c := ⟨_, rfl⟩
  obtain ⟨target, htarget⟩ : ∃ target, t.clock.target c p val = target := ⟨_, rfl⟩
  have hbounds : TargetBounds c p val t.clock := by
    rw [← hc]
    exact target_bounds hadv.1 hlimit.2 hadv.2
  have hclock : t.clock.portClock.toNat ≤ target.toNat := htarget ▸ hbounds.clock_le
  have hstep : apuStep (.write p val nowNs quantum) t =
      { t with
          apu := { t.apu with portQueue := t.apu.portQueue ++ [⟨target, p, val⟩] }
          clock := t.clock.record c p val
          written := t.written ++ [(p, val)] } := by
    obtain ⟨hqueue, hforced⟩ := schedulePortWrite_of_room hlimit.1 ⟨target, p, val⟩
    simp only [apuStep, hc, htarget, hqueue, hforced, ApuRun.stamp, List.map_nil, List.append_nil]
  have hline : (apuStep (.write p val nowNs quantum) t).timeline =
      t.timeline ++ [⟨target, p, val⟩] := by
    rw [hstep, ApuRun.timeline, ApuRun.timeline, List.append_assoc]
  -- an earlier write is before the target, by the dwell when it has another value
  have hbefore : ∀ w ∈ t.timeline, w.targetSample.toNat ≤ target.toNat := by
    intro w hw
    exact le_trans (h.recorded w hw).2.1 (le_trans (h.clock w.port) hclock)
  have hdwell : ∀ w ∈ t.timeline, Dwells w ⟨target, p, val⟩ := by
    intro w hw hport hval
    obtain ⟨hvalid, hle, hother⟩ := h.recorded w hw
    change w.port = p at hport
    rw [hport] at hvalid hle hother
    by_cases hsame : val = t.clock.lastVal p
    · exact le_trans (hother (fun he => hval (he.trans hsame.symm)))
        (le_trans (h.clock p) hclock)
    · have hfloor := hbounds.floor_le ⟨hvalid, hsame⟩
      rw [htarget] at hfloor
      exact le_trans (Nat.add_le_add_right hle 128) hfloor
  have hrecord : t.clock.record c p val = ⟨target, c.nowNs,
      Function.update t.clock.lastTarget p target, Function.update t.clock.lastVal p val,
      Function.update t.clock.lastValid p true⟩ := by
    rw [PortClock.record, htarget]
  refine ⟨?_, ?_, ?_, ?_, ?_, ?_, ?_⟩
  · rw [hline, List.map_append, h.order, hstep]
    rfl
  · rw [hstep]
    exact h.ports
  · rw [hline]
    exact List.pairwise_append.mpr ⟨h.dwell, List.pairwise_singleton _ _, fun w hw v hv =>
      List.mem_singleton.mp hv ▸ hdwell w hw⟩
  · rw [hstep]
    exact List.pairwise_append.mpr ⟨h.inOrder, List.pairwise_singleton _ _, fun w hw v hv =>
      List.mem_singleton.mp hv ▸ hbefore w (List.mem_append_right _ hw)⟩
  · rw [hstep]
    intro w hw
    rcases List.mem_append.mp hw with hw | hw
    · exact h.due w hw
    · rw [List.mem_singleton.mp hw, ← htarget, ← hc]
      exact (hc ▸ hbounds).produced_le
  · rw [hline, hstep, hrecord]
    intro w hw
    rcases List.mem_append.mp hw with hw | hw
    · by_cases hport : w.port = p
      · have hd := hdwell w hw hport
        rw [Recorded, hport]
        simp only [Function.update_self]
        exact ⟨trivial, hbefore w hw, hd⟩
      · rw [Recorded]
        simp only [Function.update_of_ne hport]
        exact h.recorded w hw
    · rw [List.mem_singleton.mp hw, Recorded]
      simp only [Function.update_self]
      exact ⟨trivial, le_refl _, fun hne => absurd rfl hne⟩
  · rw [hstep, hrecord]
    intro q
    by_cases hq : q = p
    · rw [hq]
      simp only [Function.update_self]
      exact le_refl _
    · simp only [Function.update_of_ne hq]
      exact le_trans (h.clock q) hclock

theorem ApuInv.portsKept {inPorts : BitVec 2 → Byte} {t : ApuRun} (h : ApuInv inPorts t) :
    PortsKept inPorts t where
  order := by
    rw [← List.map_append]
    exact h.order
  ports := h.ports
  dwell := (List.pairwise_append.mp h.dwell).1

/-- **A value stays on its port**: in a run within its limits, in which no write gets an earlier
target than the one before, the writes are applied in program order, each once, and a value
stays on its port for 128 samples before another one replaces it. -/
theorem apuRun_portsKept (inPorts outPorts : BitVec 2 → Byte) (produced : BitVec 64)
    (events : List ApuEvent)
    (h : Runs.StepsMeet apuStep (fun e t => WithinLimits e t ∧ TargetAdvances e t) events
      (apuStart inPorts outPorts produced)) :
    PortsKept inPorts (Runs.final apuStep events (apuStart inPorts outPorts produced)) := by
  have hinv : ApuInv inPorts (Runs.final apuStep events (apuStart inPorts outPorts produced)) := by
    apply Runs.final_of_stepsMeet apuStep _ events _ (apuStart_inv inPorts outPorts produced) h
    intro e t ht hok
    cases e with
    | write p val nowNs quantum => exact write_inv ht hok.1 hok.2
    | sample => exact sample_inv ht hok.1
  exact hinv.portsKept

/-- Two values for one port, a third for another, and samples. -/
def fewWrites : List ApuEvent :=
  [.write 0 1 1 534, .write 0 2 1 534, .write 1 7 1 534, .sample, .sample]

theorem apuRun_portsKept_fewWrites :
    PortsKept (fun _ => 0)
      (Runs.final apuStep fewWrites (apuStart (fun _ => 0) (fun _ => 0) 0)) :=
  apuRun_portsKept (fun _ => 0) (fun _ => 0) 0 fewWrites (by decide)

/-- Sixteen values for one port, and then two for another. -/
def burst : List ApuEvent :=
  (List.range 16).map (fun i => .write 0 (BitVec.ofNat 8 i) 1 534) ++
    [.write 1 1 1 534, .write 1 2 1 534]

/-- The samples up to the one that applies the oldest write. -/
def skipToHead (t : ApuRun) : ApuRun :=
  match t.apu.portQueue with
  | [] => t
  | w :: _ =>
    if t.produced ≤ w.targetSample ∧ w.targetSample.toNat + 1 < 2 ^ 64 then
      apuStep .sample { t with produced := w.targetSample }
    else t

theorem sample_of_not_due {t : ApuRun} {w : ApuPortWrite} {ws : List ApuPortWrite}
    (hq : t.apu.portQueue = w :: ws) (hlt : t.produced < w.targetSample) :
    apuStep .sample t = { t with produced := t.produced + 1 } := by
  have hdrain : drainQueue t.produced t.apu.portQueue = ([], t.apu.portQueue) := by
    rw [hq, drainQueue, if_pos hlt]
  simp only [apuStep, ApuPorts.drainPortQueue, hdrain, ApuRun.stamp, List.map_nil,
    List.append_nil, List.foldl_nil]

theorem samples_until {n : Nat} {t : ApuRun} {w : ApuPortWrite} {ws : List ApuPortWrite}
    (hq : t.apu.portQueue = w :: ws) (hn : t.produced.toNat + n = w.targetSample.toNat) :
    Runs.StepsMeet apuStep WithinLimits (List.replicate n .sample) t ∧
      Runs.final apuStep (List.replicate n .sample) t = { t with produced := w.targetSample } := by
  induction n generalizing t with
  | zero =>
      have heq : t.produced = w.targetSample := BitVec.eq_of_toNat_eq hn
      exact ⟨True.intro, by rw [← heq]; rfl⟩
  | succ n ih =>
      have hbound := w.targetSample.isLt
      have hlt : t.produced < w.targetSample := by
        rw [BitVec.lt_def]
        omega
      have hnext : (t.produced + 1).toNat = t.produced.toNat + 1 := by
        rw [BitVec.toNat_add]
        exact Nat.mod_eq_of_lt (show t.produced.toNat + 1 < 2 ^ 64 by omega)
      have hstep := sample_of_not_due hq hlt
      have hrest := ih (t := { t with produced := t.produced + 1 }) hq (by
        rw [hnext]
        omega)
      rw [List.replicate_succ, Runs.StepsMeet, Runs.final_cons, hstep]
      exact ⟨⟨by change t.produced.toNat + 1 < 2 ^ 64; omega, hrest.1⟩, hrest.2⟩

theorem exists_samples_skipToHead (t : ApuRun) :
    ∃ n, Runs.StepsMeet apuStep WithinLimits (List.replicate n .sample) t ∧
      Runs.final apuStep (List.replicate n .sample) t = skipToHead t := by
  rw [skipToHead]
  cases hq : t.apu.portQueue with
  | nil => exact ⟨0, True.intro, rfl⟩
  | cons w ws =>
      dsimp only
      by_cases hdue : t.produced ≤ w.targetSample ∧ w.targetSample.toNat + 1 < 2 ^ 64
      · rw [if_pos hdue]
        have hle := BitVec.le_def.mp hdue.1
        obtain ⟨hmeet, hfinal⟩ := samples_until hq (show t.produced.toNat +
          (w.targetSample.toNat - t.produced.toNat) = w.targetSample.toNat by omega)
        refine ⟨w.targetSample.toNat - t.produced.toNat + 1, ?_, ?_⟩
        · rw [List.replicate_succ', Runs.stepsMeet_append, hfinal]
          exact ⟨hmeet, hdue.2, True.intro⟩
        · rw [List.replicate_succ', Runs.final_append, hfinal]
          rfl
      · rw [if_neg hdue]
        exact ⟨0, True.intro, rfl⟩

theorem exists_samples_iterate (k : Nat) (t : ApuRun) :
    ∃ n, Runs.StepsMeet apuStep WithinLimits (List.replicate n .sample) t ∧
      Runs.final apuStep (List.replicate n .sample) t = skipToHead^[k] t := by
  induction k generalizing t with
  | zero => exact ⟨0, True.intro, rfl⟩
  | succ k ih =>
      obtain ⟨m, hmeet, hfinal⟩ := exists_samples_skipToHead t
      obtain ⟨n, hmeet', hfinal'⟩ := ih (skipToHead t)
      refine ⟨m + n, ?_, ?_⟩
      · rw [List.replicate_add, Runs.stepsMeet_append, hfinal]
        exact ⟨hmeet, hmeet'⟩
      · rw [List.replicate_add, Runs.final_append, hfinal, hfinal']
        rfl

/-- Both values of port 1 wait for the last one of port 0 and are applied at one sample. -/
theorem burst_not_portsKept :
    ∃ n, Runs.StepsMeet apuStep WithinLimits (burst ++ List.replicate n .sample)
        (apuStart (fun _ => 0) (fun _ => 0) 0) ∧
      ¬PortsKept (fun _ => 0) (Runs.final apuStep (burst ++ List.replicate n .sample)
        (apuStart (fun _ => 0) (fun _ => 0) 0)) := by
  obtain ⟨n, hmeet, hfinal⟩ := exists_samples_iterate 16
    (Runs.final apuStep burst (apuStart (fun _ => 0) (fun _ => 0) 0))
  refine ⟨n, (Runs.stepsMeet_append ..).mpr ⟨by decide, hmeet⟩, fun h => ?_⟩
  have hdwell := h.dwell
  rw [Runs.final_append, hfinal] at hdwell
  exact absurd hdwell (by decide)

end SnesRecomp
