import SnesRecomp.Devices.ApuAccesses

/-!
# Ticks of the timers

The sound processor reaches the timers by reads and writes, which may come in any order between the
cycles.  A read of a counter clears it, and a counter has four bits.  `timer_counts`: each tick of a
timer is in a value that was read, or still in the counter, or one of the sixteen of an overflow.
-/

namespace SnesRecomp

open Apu

/-! ### The log of a timer -/

theorem cycle_timer (i : Nat) (produced : BitVec 64) (shadow : Int → Int → Int × Int) (apu : Apu) :
    (apu.cycleSample produced shadow).cycleTimers.timer i = cycleTimer i (apu.timer i) := by
  unfold cycleSample
  split <;> rfl

/-- The sum of what was read from the counter, the overflows of the counter, and the cycles. -/
structure TimerLog where
  seen : Nat
  overflows : Nat
  cycles : Nat
  apu : Apu

/-- An access, with what it adds to the log of a timer. -/
def timerStep (i : Nat) (a : ApuAccess) (log : TimerLog) : TimerLog :=
  let apu := a.run log.apu
  match a with
  | .read adr =>
    let read := (log.apu.cpuRead adr).1.toNat
    { log with seen := if adr.toNat = 0xFD + i then log.seen + read else log.seen, apu := apu }
  | .cycle .. =>
    let overflow := (log.apu.timer i).counter = 15 ∧ (apu.timer i).counter = 0
    { log with
      overflows := if overflow then log.overflows + 1 else log.overflows
      cycles := log.cycles + 1
      apu := apu }
  | _ => { log with apu := apu }

/-- The access leaves the timer switched on, with its target. -/
def ApuAccess.KeepsTimer (i : Nat) : ApuAccess → Prop
  | .write adr val => adr.toNat ≠ 0xFA + i ∧ (adr = 0xF1 → val.getLsbD i = true)
  | _ => True

/-! ### The prescaler and the divider -/

/-- Where the divider starts again. -/
def Timer.modulus (t : Timer) : Nat := if t.target = 0 then 256 else t.target.toNat

theorem Timer.modulus_pos (t : Timer) : 0 < t.modulus := by
  unfold modulus
  split
  next => decide
  next h => exact Nat.pos_of_ne_zero fun h0 => h (BitVec.eq_of_toNat_eq h0)

/-- The ticks behind the prescaler in the first `n` cycles from `t` on. -/
def Timer.ticks (i n : Nat) (t : Timer) : Nat := (n + (timerPeriod i - 1 - t.cycles)) / timerPeriod i

/-- The timer behind the accesses of the log, which started as `start`. -/
structure Timer.Ran (i : Nat) (start : Timer) (log : TimerLog) : Prop where
  enabled : (log.apu.timer i).enabled = true
  target : (log.apu.timer i).target = start.target
  cycles : (log.apu.timer i).cycles =
    timerPeriod i - 1 - (log.cycles + (timerPeriod i - 1 - start.cycles)) % timerPeriod i
  divider : (log.apu.timer i).divider.toNat = start.ticks i log.cycles % start.modulus
  counter : (log.apu.timer i).counter.toNat < 16
  total : log.seen + (log.apu.timer i).counter.toNat + 16 * log.overflows =
    start.ticks i log.cycles / start.modulus

theorem succ_div_mod (d : Nat) {m : Nat} (hm : 0 < m) :
    (d % m + 1 = m → (d + 1) / m = d / m + 1 ∧ (d + 1) % m = 0) ∧
      (d % m + 1 ≠ m → (d + 1) / m = d / m ∧ (d + 1) % m = d % m + 1) := by
  have hd := Nat.div_add_mod d m
  have hlt := Nat.mod_lt d hm
  constructor
  · intro h
    refine (Nat.div_mod_unique hm).mpr ⟨?_, hm⟩
    rw [Nat.mul_add, Nat.mul_one]
    omega
  · intro h
    refine (Nat.div_mod_unique hm).mpr ⟨?_, ?_⟩ <;> omega

theorem timerPeriod_pos (i : Nat) : 0 < timerPeriod i := by
  unfold timerPeriod
  split <;> decide

/-- The divider is a byte, and is compared with the target after it has wrapped. -/
theorem divider_full {t : Timer} (hlt : t.divider.toNat < t.modulus) :
    t.divider + 1 = t.target ↔ t.divider.toNat + 1 = t.modulus := by
  have hbyte := t.divider.isLt
  have htarget := t.target.isLt
  rw [← BitVec.toNat_inj, BitVec.toNat_add]
  unfold Timer.modulus at hlt ⊢
  split at hlt
  next h =>
    rw [if_pos h, h]
    change (t.divider.toNat + 1) % 256 = 0 ↔ _
    omega
  next h =>
    rw [if_neg h]
    change (t.divider.toNat + 1) % 256 = _ ↔ _
    omega

theorem counter_succ (c : Byte) : ((c + 1) &&& 0xF).toNat = (c.toNat + 1) % 16 := by
  rw [BitVec.toNat_and, BitVec.toNat_add]
  have hmask := Nat.and_two_pow_sub_one_eq_mod ((c.toNat + 1) % 256) 4
  have hmod := Nat.mod_mod_of_dvd (c.toNat + 1) (by decide : 16 ∣ 256)
  exact hmask.trans hmod

/-- A tick behind the prescaler goes on with the division. -/
theorem tickTimer_spec {t : Timer} {d : Nat} (hd : t.divider.toNat = d % t.modulus) :
    (tickTimer t).divider.toNat = (d + 1) % t.modulus ∧
      ((d + 1) / t.modulus = d / t.modulus ∧ (tickTimer t).counter = t.counter ∨
        (d + 1) / t.modulus = d / t.modulus + 1 ∧
          (tickTimer t).counter.toNat = (t.counter.toNat + 1) % 16) := by
  have hpos := t.modulus_pos
  have hlt : t.divider.toNat < t.modulus := hd ▸ Nat.mod_lt d hpos
  have hfull := divider_full hlt
  obtain ⟨hend, hon⟩ := succ_div_mod d hpos
  unfold tickTimer
  split
  next h =>
    obtain ⟨hdiv, hmod⟩ := hend (hd ▸ hfull.mp h)
    exact ⟨hmod.symm, .inr ⟨hdiv, counter_succ t.counter⟩⟩
  next h =>
    have hne : d % t.modulus + 1 ≠ t.modulus := fun he => h (hfull.mpr (hd ▸ he))
    obtain ⟨hdiv, hmod⟩ := hon hne
    refine ⟨?_, .inl ⟨hdiv, rfl⟩⟩
    have hbyte : t.divider.toNat + 1 < 256 := by
      have hmax : t.modulus ≤ 256 := by
        unfold Timer.modulus
        split
        · exact le_rfl
        · exact t.target.isLt.le
      rw [hd] at hlt ⊢
      omega
    rw [hmod, ← hd, BitVec.toNat_add]
    exact Nat.mod_eq_of_lt hbyte

theorem tickTimer_keeps (t : Timer) :
    (tickTimer t).cycles = t.cycles ∧ (tickTimer t).target = t.target ∧ (tickTimer t).enabled = t.enabled := by
  unfold tickTimer
  split <;> exact ⟨rfl, rfl, rfl⟩

/-- A cycle of the timer. -/
theorem cycleTimer_spec {i n : Nat} {start t : Timer} (htarget : t.target = start.target)
    (hon : t.enabled = true)
    (hcycles : t.cycles = timerPeriod i - 1 - (n + (timerPeriod i - 1 - start.cycles)) % timerPeriod i)
    (hdivider : t.divider.toNat = start.ticks i n % start.modulus) :
    (cycleTimer i t).target = start.target ∧ (cycleTimer i t).enabled = true ∧
      (cycleTimer i t).cycles =
        timerPeriod i - 1 - (n + 1 + (timerPeriod i - 1 - start.cycles)) % timerPeriod i ∧
      (cycleTimer i t).divider.toNat = start.ticks i (n + 1) % start.modulus ∧
      (start.ticks i (n + 1) / start.modulus = start.ticks i n / start.modulus ∧
          (cycleTimer i t).counter = t.counter ∨
        start.ticks i (n + 1) / start.modulus = start.ticks i n / start.modulus + 1 ∧
          (cycleTimer i t).counter.toNat = (t.counter.toNat + 1) % 16) := by
  have hmodulus : t.modulus = start.modulus := by
    unfold Timer.modulus
    rw [htarget]
  have hpos := timerPeriod_pos i
  obtain ⟨hend, hgo⟩ := succ_div_mod (n + (timerPeriod i - 1 - start.cycles)) hpos
  have hnext : n + 1 + (timerPeriod i - 1 - start.cycles) = n + (timerPeriod i - 1 - start.cycles) + 1 := by
    omega
  have hlt := Nat.mod_lt (n + (timerPeriod i - 1 - start.cycles)) hpos
  rw [Timer.ticks, hnext]
  unfold cycleTimer
  by_cases hzero : t.cycles = 0
  · obtain ⟨hdiv, hmod⟩ := hend (by omega)
    have hspec := tickTimer_spec (d := start.ticks i n) (t := { t with cycles := timerPeriod i })
    rw [show Timer.modulus { t with cycles := timerPeriod i } = start.modulus from hmodulus] at hspec
    obtain ⟨hdivider', hcount⟩ := hspec hdivider
    simp only [if_pos hzero, if_pos hon]
    obtain ⟨hkept, htarget', hon'⟩ := tickTimer_keeps { t with cycles := timerPeriod i }
    rw [hkept, htarget', hon', hdiv, hmod]
    exact ⟨htarget, hon, rfl, hdivider', hcount⟩
  · obtain ⟨hdiv, hmod⟩ := hgo (by omega)
    simp only [if_neg hzero]
    rw [hdiv, hmod]
    exact ⟨htarget, hon, by omega, hdivider, .inl ⟨rfl, trivial⟩⟩

/-! ### Reads and writes -/

theorem setTimer_self (i : Nat) (t : Timer) (apu : Apu) : (apu.setTimer i t).timer i = t :=
  Function.update_self ..

theorem setTimer_of_ne {i j : Nat} (h : i ≠ j) (t : Timer) (apu : Apu) :
    (apu.setTimer j t).timer i = apu.timer i := Function.update_of_ne h ..

/-- A read of the counter gives it and clears it; other reads leave the timer alone. -/
theorem cpuRead_timer {i : Nat} (hi : i < 3) (adr : Word) (apu : Apu) :
    (adr.toNat = 0xFD + i ∧ apu.cpuRead adr =
        ((apu.timer i).counter, apu.setTimer i { apu.timer i with counter := 0 })) ∨
      adr.toNat ≠ 0xFD + i ∧ (apu.cpuRead adr).2.timer i = apu.timer i := by
  unfold cpuRead
  dsimp only
  split
  case h_14 h =>
    rcases Nat.lt_or_ge 0 i with hpos | hzero
    · exact .inr ⟨by omega, setTimer_of_ne (by omega) ..⟩
    · obtain rfl : i = 0 := by omega
      exact .inl ⟨h, rfl⟩
  case h_15 h =>
    by_cases hone : i = 1
    · subst hone
      exact .inl ⟨h, rfl⟩
    · exact .inr ⟨by omega, setTimer_of_ne (by omega) ..⟩
  case h_16 h =>
    by_cases htwo : i = 2
    · subst htwo
      exact .inl ⟨h, rfl⟩
    · exact .inr ⟨by omega, setTimer_of_ne (by omega) ..⟩
  case h_17 h0 h1 h2 =>
    refine .inr ⟨fun hadr => ?_, rfl⟩
    obtain rfl | rfl | rfl : i = 0 ∨ i = 1 ∨ i = 2 := by omega
    · exact h0 hadr
    · exact h1 hadr
    · exact h2 hadr
  all_goals exact .inr ⟨by omega, rfl⟩

theorem enableTimer_on {t : Timer} (h : t.enabled = true) : enableTimer true t = t := by
  obtain ⟨cycles, divider, target, counter, enabled⟩ := t
  obtain rfl : enabled = true := h
  rfl

theorem enableTimer_off {t : Timer} (h : t.enabled = false) :
    enableTimer true t = { t with divider := 0, counter := 0, enabled := true } := by
  obtain ⟨cycles, divider, target, counter, enabled⟩ := t
  obtain rfl : enabled = false := h
  rfl

theorem cpuWrite_timer {i : Nat} {adr : Word} {val : Byte} {apu : Apu}
    (hkeeps : (ApuAccess.write adr val).KeepsTimer i) (hon : (apu.timer i).enabled = true) :
    (apu.cpuWrite adr val).timer i = apu.timer i := by
  obtain ⟨hadr, hbit⟩ := hkeeps
  change (apu.writeRegister adr.toNat val).timer i = apu.timer i
  unfold writeRegister
  dsimp only
  split
  case h_1 h =>
    have hcontrol : adr = 0xF1 := BitVec.eq_of_toNat_eq h
    change enableTimer (val.getLsbD i) (apu.timer i) = apu.timer i
    rw [hbit hcontrol]
    exact enableTimer_on hon
  case h_3 =>
    split <;> rfl
  case h_10 h => exact setTimer_of_ne (by omega) ..
  case h_11 h => exact setTimer_of_ne (by omega) ..
  case h_12 h => exact setTimer_of_ne (by omega) ..
  all_goals rfl

/-! ### Runs -/

/-- An access that leaves the timer alone. -/
theorem Timer.Ran.of_timer {i : Nat} {start : Timer} {log : TimerLog} (h : start.Ran i log) {apu : Apu}
    (htimer : apu.timer i = log.apu.timer i) : start.Ran i { log with apu := apu } := by
  obtain ⟨hon, htarget, hcycles, hdivider, hcounter, htotal⟩ := h
  rw [← htimer] at hon htarget hcycles hdivider hcounter htotal
  exact ⟨hon, htarget, hcycles, hdivider, hcounter, htotal⟩

theorem Timer.Ran.step {i : Nat} (hi : i < 3) {start : Timer} {log : TimerLog} (h : start.Ran i log)
    {a : ApuAccess} (hkeeps : a.KeepsTimer i) : start.Ran i (timerStep i a log) := by
  have ⟨hon, htarget, hcycles, hdivider, hcounter, htotal⟩ := h
  cases a with
  | read adr =>
    rcases cpuRead_timer hi adr log.apu with ⟨hadr, hread⟩ | ⟨hadr, htimer⟩
    · simp only [timerStep, ApuAccess.run, hread, if_pos hadr]
      constructor <;> simp only [setTimer_self]
      · exact hon
      · exact htarget
      · exact hcycles
      · exact hdivider
      · decide
      · rw [← htotal]
        rfl
    · simp only [timerStep, ApuAccess.run, if_neg hadr]
      exact h.of_timer htimer
  | write adr val => exact h.of_timer (cpuWrite_timer hkeeps hon)
  | portWrite w => exact h.of_timer rfl
  | cycle produced shadow =>
    obtain ⟨htarget', hon', hcycles', hdivider', hcount⟩ := cycleTimer_spec htarget hon hcycles hdivider
    have htimer := cycle_timer i produced shadow log.apu
    have hoverflow := and_congr (BitVec.toNat_inj (x := (log.apu.timer i).counter) (y := 15))
      (BitVec.toNat_inj (x := (cycleTimer i (log.apu.timer i)).counter) (y := 0))
    constructor <;> simp only [timerStep, ApuAccess.run, htimer]
    · exact hon'
    · exact htarget'
    · exact hcycles'
    · exact hdivider'
    · rcases hcount with ⟨-, hc⟩ | ⟨-, hc⟩
      · rw [hc]
        exact hcounter
      · rw [hc]
        exact Nat.mod_lt _ (by decide)
    · simp only [← hoverflow]
      change log.seen + _ + 16 * (if (log.apu.timer i).counter.toNat = 15 ∧
        (cycleTimer i (log.apu.timer i)).counter.toNat = 0 then _ else _) = _
      rcases hcount with ⟨hdiv, hc⟩ | ⟨hdiv, hc⟩
      · rw [hdiv, hc, if_neg (by omega)]
        exact htotal
      · rw [hdiv, hc]
        split
        next h => omega
        next h => omega

theorem Timer.Ran.run {i : Nat} (hi : i < 3) {start : Timer} {log : TimerLog} (h : start.Ran i log)
    {run : List ApuAccess} (hkeeps : ∀ a ∈ run, a.KeepsTimer i) :
    start.Ran i (Runs.final (timerStep i) run log) := by
  induction run generalizing log with
  | nil => exact h
  | cons a run ih =>
      exact ih (h.step hi (hkeeps a List.mem_cons_self)) fun b hb => hkeeps b (List.mem_cons_of_mem a hb)

theorem cpuWrite_cycles (i : Nat) (adr : Word) (val : Byte) (apu : Apu) :
    ((apu.cpuWrite adr val).timer i).cycles = (apu.timer i).cycles := by
  have hset : ∀ (j : Nat) (t : Timer), t.cycles = (apu.timer j).cycles →
      ((apu.setTimer j t).timer i).cycles = (apu.timer i).cycles := by
    intro j t ht
    by_cases hij : i = j
    · subst hij
      rw [setTimer_self]
      exact ht
    · rw [setTimer_of_ne hij]
  change ((apu.writeRegister adr.toNat val).timer i).cycles = (apu.timer i).cycles
  unfold writeRegister
  dsimp only
  split
  case h_1 =>
    change (enableTimer (val.getLsbD i) (apu.timer i)).cycles = _
    unfold enableTimer
    dsimp only
    split <;> rfl
  case h_3 =>
    split <;> rfl
  case h_10 => exact hset 0 _ rfl
  case h_11 => exact hset 1 _ rfl
  case h_12 => exact hset 2 _ rfl
  all_goals rfl

/-- The prescaler stays in its period. -/
theorem timerStep_cycles {i : Nat} (hi : i < 3) (a : ApuAccess) {log : TimerLog}
    (h : (log.apu.timer i).cycles < timerPeriod i) :
    ((timerStep i a log).apu.timer i).cycles < timerPeriod i := by
  cases a with
  | read adr =>
    change ((log.apu.cpuRead adr).2.timer i).cycles < timerPeriod i
    rcases cpuRead_timer hi adr log.apu with ⟨-, hread⟩ | ⟨-, htimer⟩
    · rw [hread, setTimer_self]
      exact h
    · rw [htimer]
      exact h
  | write adr val => exact (cpuWrite_cycles i adr val log.apu).trans_lt h
  | portWrite w => exact h
  | cycle produced shadow =>
    have hpos := timerPeriod_pos i
    simp only [timerStep, ApuAccess.run, cycle_timer]
    unfold cycleTimer
    dsimp only
    split
    · split
      · rw [(tickTimer_keeps _).1]
        exact Nat.sub_lt hpos Nat.one_pos
      · exact Nat.sub_lt hpos Nat.one_pos
    · omega

/-- The log of a timer, from a state on. -/
def timerRun (i : Nat) (run : List ApuAccess) (apu : Apu) : TimerLog :=
  Runs.final (timerStep i) run ⟨0, 0, 0, apu⟩

/-- **No tick of a timer is lost**: from where it is switched on, after any accesses from the reset on,
the values that were read, the counter and sixteen for each overflow are the ticks. -/
theorem timer_counts {i : Nat} (hi : i < 3) (before : List ApuAccess) {val : Byte}
    (hoff : ((timerRun i before Apu.reset).apu.timer i).enabled = false) (hbit : val.getLsbD i = true)
    {run : List ApuAccess} (hkeeps : ∀ a ∈ run, a.KeepsTimer i) :
    let apu := (timerRun i before Apu.reset).apu.cpuWrite 0xF1 val
    let log := timerRun i run apu
    log.seen + (log.apu.timer i).counter.toNat + 16 * log.overflows =
      (apu.timer i).ticks i log.cycles / (apu.timer i).modulus := by
  intro apu log
  have hcycles : (apu.timer i).cycles < timerPeriod i := by
    have hstart : (Apu.reset.timer i).cycles < timerPeriod i := timerPeriod_pos i
    have hstep : ∀ a (log : TimerLog), (log.apu.timer i).cycles < timerPeriod i →
        ((timerStep i a log).apu.timer i).cycles < timerPeriod i := fun a _ h => timerStep_cycles hi a h
    have hrun := Runs.final_of_step (timerStep i) hstep before ⟨0, 0, 0, Apu.reset⟩ hstart
    exact (cpuWrite_cycles ..).trans_lt hrun
  have hstart : apu.timer i = { (timerRun i before Apu.reset).apu.timer i with
      divider := 0, counter := 0, enabled := true } := by
    rw [← enableTimer_off hoff, ← hbit]
    rfl
  have hticks : (apu.timer i).ticks i 0 = 0 := by
    rw [Timer.ticks]
    exact Nat.div_eq_of_lt (by omega)
  have hran : (apu.timer i).Ran i ⟨0, 0, 0, apu⟩ := by
    constructor <;> dsimp only
    · rw [hstart]
    · rw [Nat.mod_eq_of_lt (by omega)]
      omega
    · rw [hticks, Nat.zero_mod, hstart]
      rfl
    · rw [hstart]
      exact Nat.zero_lt_succ 15
    · rw [hticks, Nat.zero_div, hstart]
      rfl
  exact (hran.run hi hkeeps).total

/-- Timer 2 with the target 1, switched on. -/
def timerOn : Apu := (timerRun 2 [.write 0xFC 1] Apu.reset).apu.cpuWrite 0xF1 0x84

/-- Cycles for two ticks, a read of the counter, and cycles for one more. -/
def tickEvents : List ApuAccess :=
  List.replicate 17 (.cycle 0 fun l r => (l, r)) ++
    .read 0xFF :: List.replicate 17 (.cycle 0 fun l r => (l, r))

def timerOnLog : TimerLog := timerRun 2 tickEvents timerOn

theorem timer_counts_first :
    timerOnLog.seen = 2 ∧ (timerOnLog.apu.timer 2).counter = 1 ∧
      timerOnLog.seen + (timerOnLog.apu.timer 2).counter.toNat + 16 * timerOnLog.overflows =
        (timerOn.timer 2).ticks 2 timerOnLog.cycles / (timerOn.timer 2).modulus := by
  have hkeeps : ∀ a ∈ tickEvents, a.KeepsTimer 2 := by
    intro a ha
    rcases List.mem_append.mp ha with ha | ha
    · obtain rfl := List.eq_of_mem_replicate ha
      trivial
    · rcases List.mem_cons.mp ha with rfl | ha
      · trivial
      · obtain rfl := List.eq_of_mem_replicate ha
        trivial
  have hoff : ((timerRun 2 [.write 0xFC 1] Apu.reset).apu.timer 2).enabled = false := by decide
  have hbit : (0x84 : Byte).getLsbD 2 = true := by decide
  refine ⟨by decide +kernel, by decide +kernel, ?_⟩
  unfold timerOnLog timerOn
  exact timer_counts (by decide) [.write 0xFC 1] hoff hbit hkeeps

end SnesRecomp
