import SnesRecomp.Lib.Bits
import SnesRecomp.Recompiler.Closure
import SnesRecomp.Recompiler.Cycles
import SnesRecomp.Recompiler.EmitFunction
import Mathlib.Tactic.Linarith

/-!
# Cycle charges of the emitted text

`emit_function` charges `cpu->cycles` in three places: a constant for the static cycles of a
block in front of it, the modifiers of an instruction in front of its lines, and one cycle where
a conditional branch is taken. `cpu->master_cycles` is charged the same, weighted by the speed of
the block's region.

`cycleBlocks` is the text of a function with these charges (`mapActs_cycleBlocks`). A `Meter` runs
along it and adds up both what is charged and what the executed instructions cost. The cost is
added where an instruction runs, a branch's with the outcome of its test; the cycle of a taken
branch is charged later, so that the sums differ by it in between (`Meter.Owes`).
-/

namespace SnesRecomp.Recompiler

open Bits

/-! ### The text -/

/-- The lines of a function, with what its charges are made from. -/
inductive CycleAct
  | line (a : HostAct)
  /-- The constant of a block. -/
  | block (pc24 : Nat) (insns : List DecodedInsn)
  /-- The modifiers of an instruction, and the skipped pushes of a trampoline before it. -/
  | insn (pc24 : Nat) (setups : List DecodedInsn) (di : DecodedInsn)
  /-- The cycle of a taken branch. -/
  | taken (pc24 : Nat) (di : DecodedInsn)

/-- The line as it is printed. -/
def CycleAct.plain : CycleAct → HostAct
  | .line a => a
  | _ => .charge

abbrev CycleText := Text CycleAct HostCond HostRet Label

namespace EmitCtx

variable (ctx : EmitCtx)

/-- The lines of one operation: only a conditional branch charges. -/
def cycleOpLines (labels : List Label) (source pc24 : Nat) (succs : List DecodeKey)
    (di : DecodedInsn) (op : IROp) : CycleText × Option Bool :=
  match op with
  | .condBranch flag takeIf =>
    let taken : CycleText := match succs[1]? with
      | some taken =>
        .onLine (.ite (.flag flag takeIf)
          (.seqs [.act (.taken pc24 di), (ctx.gotoOrReturn labels source taken).mapActs .line]) .skip)
      | none => .skip
    match succs[0]? with
    | some fall => (.seqs [taken, (ctx.gotoOrReturn labels source fall).mapActs .line], some true)
    | none => (taken, none)
  | op =>
    let lines := ctx.emitOpLines labels source succs di op
    (lines.1.mapActs .line, lines.2)

def cycleOps (labels : List Label) (source pc24 : Nat) (succs : List DecodeKey) (di : DecodedInsn) :
    List IROp → Bool → CycleText × Bool
  | [], terminated => (.skip, terminated)
  | op :: ops, terminated =>
    let here := ctx.cycleOpLines labels source pc24 succs di op
    let rest := cycleOps labels source pc24 succs di ops (here.2.getD terminated)
    (.seq here.1 rest.1, rest.2)

/-- The lines of the instructions; `setups` are the pushes skipped so far. -/
def cycleInsns (labels : List Label) (source pc24 : Nat) (succs : List DecodeKey) :
    Lowered → List DecodedInsn → Bool → CycleText × Bool
  | [], _, terminated => (.skip, terminated)
  | p :: ps, setups, terminated =>
    if isTrampolineSetup p.1 (ps.map (·.1)) then
      cycleInsns labels source pc24 succs ps (setups ++ [p.1]) terminated
    else
      let here := ctx.cycleOps labels source pc24 succs p.1 p.2 terminated
      let rest := cycleInsns labels source pc24 succs ps [] here.2
      (.seqs [.act (.insn pc24 setups p.1), here.1, rest.1], rest.2)

def cycleBlock (labels : List Label) (b : Block) (lowered : Lowered) : CycleText :=
  let source := (ctx.bank <<< 16) ||| (b.entry.pc &&& 0xFFFF)
  let pc24 := addr24 ctx.bank b.entry.pc
  let insns := ctx.cycleInsns labels source pc24 b.successors lowered [] false
  .seqs [.act (.block pc24 (lowered.map (·.1))), insns.1,
    if insns.2 then .skip
    else (ctx.implicitText labels source (lowered.getLast?.map (·.1.insn.mnem))
      b.successors).mapActs .line]

/-- The text of a function with its charges. -/
def cycleBlocks (lowered : List (Block × Lowered)) : TextFn CycleAct HostCond HostRet Label :=
  let labels := lowered.map fun b => labelFor b.1.entry
  { blocks := lowered.map fun b =>
      (labelFor b.1.entry, (ctx.cycleBlock labels b.1 b.2).inject (.line .pop))
    epilogue := .seqs [.act (.line .pop), .ret (.normal .endOfText)] }

/-! ### It is the emitted text -/

theorem mapActs_line (t : HostText) : (t.mapActs CycleAct.line).mapActs CycleAct.plain = t := by
  rw [Text.mapActs_mapActs]
  exact Text.mapActs_id t

theorem mapActs_cycleOpLines (labels : List Label) (source pc24 : Nat) (succs : List DecodeKey)
    (di : DecodedInsn) (op : IROp) :
    (ctx.cycleOpLines labels source pc24 succs di op).1.mapActs CycleAct.plain =
        (ctx.emitOpLines labels source succs di op).1 ∧
      (ctx.cycleOpLines labels source pc24 succs di op).2 =
        (ctx.emitOpLines labels source succs di op).2 := by
  cases op with
  | condBranch flag takeIf =>
    unfold cycleOpLines emitOpLines
    dsimp only
    cases succs[0]? with
    | none => cases succs[1]? <;> exact ⟨by simp only [Text.mapActs, Text.seqs, mapActs_line, CycleAct.plain], rfl⟩
    | some fall => cases succs[1]? <;> exact ⟨by simp only [Text.mapActs, Text.seqs, mapActs_line, CycleAct.plain], rfl⟩
  | _ => exact ⟨mapActs_line _, rfl⟩

theorem mapActs_cycleOps (labels : List Label) (source pc24 : Nat) (succs : List DecodeKey)
    (di : DecodedInsn) : ∀ (ops : List IROp) (terminated : Bool),
    (ctx.cycleOps labels source pc24 succs di ops terminated).1.mapActs CycleAct.plain =
        (ctx.emitOps labels source succs di ops terminated).1 ∧
      (ctx.cycleOps labels source pc24 succs di ops terminated).2 =
        (ctx.emitOps labels source succs di ops terminated).2 := by
  intro ops
  induction ops with
  | nil => intro _; exact ⟨rfl, rfl⟩
  | cons op ops ih =>
    intro terminated
    obtain ⟨hlines, hflag⟩ := ctx.mapActs_cycleOpLines labels source pc24 succs di op
    simp only [cycleOps, emitOps, Text.mapActs, hlines, hflag]
    exact ⟨by rw [(ih _).1], (ih _).2⟩

theorem mapActs_cycleInsns (labels : List Label) (source pc24 : Nat) (succs : List DecodeKey) :
    ∀ (ps : Lowered) (setups : List DecodedInsn) (terminated : Bool),
    (ctx.cycleInsns labels source pc24 succs ps setups terminated).1.mapActs CycleAct.plain =
        (ctx.emitInsns labels source succs ps terminated).1 ∧
      (ctx.cycleInsns labels source pc24 succs ps setups terminated).2 =
        (ctx.emitInsns labels source succs ps terminated).2 := by
  intro ps
  induction ps with
  | nil => intro _ _; exact ⟨rfl, rfl⟩
  | cons p ps ih =>
    intro setups terminated
    rw [cycleInsns, emitInsns]
    by_cases hsetup : isTrampolineSetup p.1 (ps.map (·.1)) = true
    · rw [if_pos hsetup, if_pos hsetup]
      exact ih _ _
    · rw [if_neg hsetup, if_neg hsetup]
      obtain ⟨hlines, hflag⟩ := ctx.mapActs_cycleOps labels source pc24 succs p.1 p.2 terminated
      simp only [Text.mapActs, Text.seqs, CycleAct.plain, hlines, hflag]
      exact ⟨by rw [(ih _ _).1], (ih _ _).2⟩

theorem mapActs_cycleBlock (labels : List Label) (b : Block) (lowered : Lowered) :
    (ctx.cycleBlock labels b lowered).mapActs CycleAct.plain = ctx.emitBlock labels b lowered := by
  obtain ⟨hlines, hflag⟩ := ctx.mapActs_cycleInsns labels
    ((ctx.bank <<< 16) ||| (b.entry.pc &&& 0xFFFF)) (addr24 ctx.bank b.entry.pc) b.successors lowered []
    false
  unfold cycleBlock emitBlock
  simp only [Text.mapActs, Text.seqs, CycleAct.plain, hlines, hflag]
  split
  · rfl
  · rw [mapActs_line]

/-- Without what the charges are made from it is the text `emit_function` prints. -/
theorem mapActs_cycleBlocks (lowered : List (Block × Lowered)) :
    ((ctx.cycleBlocks lowered).blocks.map fun b => (b.1, b.2.mapActs CycleAct.plain)) =
        (emitBlocks ctx lowered).blocks ∧
      (ctx.cycleBlocks lowered).epilogue.mapActs CycleAct.plain = (emitBlocks ctx lowered).epilogue := by
  refine ⟨?_, rfl⟩
  unfold cycleBlocks emitBlocks
  rw [List.map_map]
  refine List.map_congr_left fun b _ => ?_
  rw [Function.comp_apply, Text.mapActs_inject, mapActs_cycleBlock]
  rfl

end EmitCtx

/-! ### The meter -/

/-- What the charges read of the machine, and what the other lines do to it. -/
structure Machine (M : Type*) where
  d : M → Word
  x : M → Word
  y : M → Word
  memsel : M → Bool
  /-- The pointer that a `(dp),Y` access of the instruction loads. -/
  pointer : DecodedInsn → M → Nat
  exec : HostAct → M → M
  test : HostCond → M → Bool

/-- The sums along a run, and how far it has come in the block. -/
structure Meter (M : Type*) where
  machine : M
  /-- What is added to `cpu->cycles` and `cpu->master_cycles`. -/
  cycles : Nat
  master : Nat
  /-- What the executed instructions cost. -/
  spent : Nat
  spentMaster : Nat
  /-- The instructions of the block that have not run. -/
  left : List DecodedInsn
  /-- The speed of the block's region when it was entered. -/
  speed : Nat
  /-- Every step so far met the condition. -/
  met : Bool

/-- At the entry of the function. -/
def Meter.start {M : Type*} (s₀ : M) : Meter M := ⟨s₀, 0, 0, 0, 0, [], 0, true⟩

section Meter

variable {M : Type*} (mc : Machine M)

/-- `D.l != 0`. -/
def dpLowNonzero (s : M) : Bool := mc.d s &&& 0xFF ≠ 0

/-- The base and the index of an access that can cross a page. -/
def indexed (di : DecodedInsn) (s : M) : Option (Nat × Nat) :=
  match di.insn.mode with
  | .absX => some (di.insn.operand &&& 0xFFFF, (mc.x s).toNat)
  | .absY => some (di.insn.operand &&& 0xFFFF, (mc.y s).toNat)
  | .indirY => some (mc.pointer di s, (mc.y s).toNat)
  | _ => none

/-- The effective address is in another page than its base. -/
def crossesPage (di : DecodedInsn) (s : M) : Bool :=
  (indexed mc di s).any fun p => (p.1 + p.2) / 0x100 ≠ p.1 / 0x100

/-- The test that is printed, for the two absolute modes. -/
def testsCross (di : DecodedInsn) (s : M) : Bool :=
  (di.insn.mode = .absX || di.insn.mode = .absY) &&
    (indexed mc di s).any fun p => p.1 &&& 0xFF00 ≠ (p.1 + p.2) &&& 0xFF00

/-- The flag of a conditional branch, and its value where the branch is taken. -/
def branchFlag : Mnem → Option (Reg × Bool)
  | .bpl => some (.n, false)
  | .bmi => some (.n, true)
  | .bvc => some (.v, false)
  | .bvs => some (.v, true)
  | .bcc => some (.c, false)
  | .bcs => some (.c, true)
  | .bne => some (.zf, false)
  | .beq => some (.zf, true)
  | _ => none

/-- The test decides that the branch is taken. -/
def branchTaken (di : DecodedInsn) (s : M) : Bool :=
  (branchFlag di.insn.mnem).any fun f => mc.test (.flag f.1 f.2) s

def modifiers (di : DecodedInsn) (s : M) : Modifiers :=
  ⟨dpLowNonzero mc s, crossesPage mc di s, branchTaken mc di s⟩

/-- What an execution of the instruction costs. -/
def insnCost (di : DecodedInsn) (s : M) : Nat :=
  instrCpuCycles di.insn.opcode di.insn.mFlag di.insn.xFlag (modifiers mc di s)

/-- `_block_cycle_const`. -/
def blockCycleConst (insns : List DecodedInsn) : Nat :=
  (insns.map fun di => instrStaticCycles di.insn.opcode di.insn.mFlag di.insn.xFlag).sum

/-- `_dynamic_charge_lines`. -/
def dynamicCharge (di : DecodedInsn) (s : M) : Nat :=
  (if dpAdd di.insn.opcode ≠ 0 ∧ dpLowNonzero mc s then 1 else 0) +
    (if xcrossAdd di.insn.opcode ≠ 0 ∧ testsCross mc di s then 1 else 0)

/-- An indexed read that ends in the same page of the next bank. -/
def wraps (di : DecodedInsn) (s : M) : Bool :=
  (indexed mc di s).any fun p =>
    0x10000 ≤ p.1 + p.2 && (p.1 + p.2 - 0x10000) / 0x100 = p.1 / 0x100

/-- What has to hold where an instruction runs. -/
structure Charged (di : DecodedInsn) (s : Meter M) (speed : Nat) : Prop where
  /-- The residuals: no block move, and no `(dp),Y` read across a page. -/
  moves : isBlockMove di.insn.opcode = false
  pointers : di.insn.mode = .indirY → xcrossAdd di.insn.opcode ≠ 0 →
    crossesPage mc di s.machine = false
  banks : di.insn.mode = .absX ∨ di.insn.mode = .absY → xcrossAdd di.insn.opcode ≠ 0 →
    wraps mc di s.machine = false
  /-- A branch that was folded to a plain jump is not taken. -/
  folds : di.insn.constZFoldUnconditional = true → branchTaken mc di s.machine = false
  /-- The region is as fast as it was where the block was entered. -/
  speeds : dynamicCharge mc di s.machine ≠ 0 → speed = s.speed

theorem charged_iff (di : DecodedInsn) (s : Meter M) (speed : Nat) :
    (isBlockMove di.insn.opcode = false ∧
      (di.insn.mode = .indirY → xcrossAdd di.insn.opcode ≠ 0 → crossesPage mc di s.machine = false) ∧
      (di.insn.mode = .absX ∨ di.insn.mode = .absY → xcrossAdd di.insn.opcode ≠ 0 →
        wraps mc di s.machine = false) ∧
      (di.insn.constZFoldUnconditional = true → branchTaken mc di s.machine = false) ∧
      (dynamicCharge mc di s.machine ≠ 0 → speed = s.speed)) ↔ Charged mc di s speed :=
  ⟨fun ⟨hm, hp, hb, hf, hs⟩ => ⟨hm, hp, hb, hf, hs⟩, fun ⟨hm, hp, hb, hf, hs⟩ => ⟨hm, hp, hb, hf, hs⟩⟩

instance (di : DecodedInsn) (s : Meter M) (speed : Nat) : Decidable (Charged mc di s speed) :=
  decidable_of_iff _ (charged_iff mc di s speed)

/-- The speed of a block's region now. -/
def speedNow (pc24 : Nat) (s : Meter M) : Nat := regionSpeed pc24 (mc.memsel s.machine)

def meterAct : CycleAct → Meter M → Meter M
  | .line a, s => { s with machine := mc.exec a s.machine }
  | .block pc24 insns, s =>
    { s with
      cycles := s.cycles + blockCycleConst insns
      master := s.master + blockCycleConst insns * speedNow mc pc24 s
      left := insns
      speed := speedNow mc pc24 s
      met := s.met && s.left.isEmpty }
  | .insn pc24 setups di, s =>
    let cost := (setups.map fun di => insnCost mc di s.machine).sum + insnCost mc di s.machine
    { s with
      cycles := s.cycles + dynamicCharge mc di s.machine
      master := s.master + dynamicCharge mc di s.machine * speedNow mc pc24 s
      spent := s.spent + cost
      spentMaster := s.spentMaster + cost * s.speed
      left := s.left.drop (setups.length + 1)
      met := s.met && decide (Charged mc di s (speedNow mc pc24 s)) }
  | .taken pc24 _, s =>
    { s with
      cycles := s.cycles + 1
      master := s.master + speedNow mc pc24 s
      met := s.met && speedNow mc pc24 s = s.speed }

def meterTest (c : HostCond) (s : Meter M) : Bool := mc.test c s.machine

/-! ### What a step preserves -/

/-- As long as the condition was met, the charges are ahead by the static cycles of what is left
of the block, but for `n` cycles that the last instruction still owes. -/
def Meter.Owes (n : Nat) (s : Meter M) : Prop :=
  s.met = true → s.cycles + n = s.spent + blockCycleConst s.left ∧
    s.master + n * s.speed = s.spentMaster + blockCycleConst s.left * s.speed

/-- Nothing is owed. -/
def Meter.Ahead (s : Meter M) : Prop := s.Owes 0

/-- The cycle of a taken branch. -/
def takenCycle (di : DecodedInsn) (s : M) : Nat := if branchTaken mc di s then 1 else 0

/-- The instruction has the mnemonic and mode of its opcode. -/
structure OfTable (di : DecodedInsn) : Prop where
  mnem : di.insn.mnem = (opcodeRow di.insn.opcode).mnem
  mode : di.insn.mode = (opcodeRow di.insn.opcode).mode

/-- The printed test finds a crossing unless the access wraps to the same page. -/
theorem and_0xFF00_eq {base i : Nat} (hbase : base < 0x10000) (hi : i < 0x10000)
    (hwrap : ¬ (0x10000 ≤ base + i ∧ (base + i - 0x10000) / 0x100 = base / 0x100)) :
    base &&& 0xFF00 ≠ (base + i) &&& 0xFF00 ↔ (base + i) / 0x100 ≠ base / 0x100 := by
  rw [and_0xFF00, and_0xFF00]
  omega

theorem testsCross_eq {di : DecodedInsn} {s : M} (hmode : di.insn.mode = .absX ∨ di.insn.mode = .absY)
    (hwrap : wraps mc di s = false) : testsCross mc di s = crossesPage mc di s := by
  have hbase : di.insn.operand &&& 0xFFFF < 0x10000 := by
    rw [and_0xFFFF]
    omega
  rcases hmode with hmode | hmode
  all_goals
    simp only [wraps, indexed, hmode, Option.any_some, Bool.and_eq_false_iff, decide_eq_false_iff_not,
      ← not_and_or] at hwrap
    simp only [testsCross, crossesPage, indexed, hmode, Option.any_some]
    have hiff := and_0xFF00_eq hbase (BitVec.isLt _) hwrap
    simp only [hiff]
    simp

theorem branchFlag_isSome (mnem : Mnem) : (branchFlag mnem).isSome = isCondBranch mnem := by
  cases mnem <;> rfl

theorem mem_branches_iff (mnem : Mnem) :
    mnem ∈ [.bpl, .bmi, .bvc, .bvs, .bcc, .bcs, .bne, .beq] ↔ isCondBranch mnem = true := by
  cases mnem <;> decide

theorem isCondBranch_of_branchFlag {mnem : Mnem} {f : Reg × Bool} (h : branchFlag mnem = some f) :
    isCondBranch mnem = true := by
  rw [← branchFlag_isSome, h]
  rfl

theorem branchClass_of_branchTaken {di : DecodedInsn} {s : M} (hrow : OfTable di)
    (h : branchTaken mc di s = true) : branchClass di.insn.opcode = 1 := by
  obtain ⟨f, hf, -⟩ := (Option.any_eq_true _ _).mp h
  exact branchClass_of_mnem _ (hrow.mnem ▸ (mem_branches_iff _).mpr (isCondBranch_of_branchFlag hf))

/-- The static cycles, the charged modifiers and the cycle of a taken branch are the cost. -/
theorem insnCost_eq {di : DecodedInsn} {s : Meter M} {speed : Nat} (hrow : OfTable di)
    (h : Charged mc di s speed) : insnCost mc di s.machine =
      instrStaticCycles di.insn.opcode di.insn.mFlag di.insn.xFlag + dynamicCharge mc di s.machine +
        takenCycle mc di s.machine := by
  have hcross : (if crossesPage mc di s.machine then xcrossAdd di.insn.opcode else 0) =
      if xcrossAdd di.insn.opcode ≠ 0 ∧ testsCross mc di s.machine then 1 else 0 := by
    by_cases hadd : xcrossAdd di.insn.opcode = 0
    · simp [hadd]
    · have hone : xcrossAdd di.insn.opcode = 1 := by
        have := xcrossAdd_le di.insn.opcode
        omega
      have hmode := mode_of_xcrossAdd di.insn.opcode hadd
      rw [← hrow.mode] at hmode
      have hmodes : di.insn.mode = .absX ∨ di.insn.mode = .absY ∨ di.insn.mode = .indirY := by
        simpa [isXcrossMode] using hmode
      rw [hone]
      rcases hmodes with hm | hm | hm
      · rw [testsCross_eq mc (Or.inl hm) (h.banks (Or.inl hm) hadd)]
        simp
      · rw [testsCross_eq mc (Or.inr hm) (h.banks (Or.inr hm) hadd)]
        simp
      · rw [h.pointers hm hadd]
        simp [testsCross, hm]
  have hdp : (if dpLowNonzero mc s.machine then dpAdd di.insn.opcode else 0) =
      if dpAdd di.insn.opcode ≠ 0 ∧ dpLowNonzero mc s.machine then 1 else 0 := by
    have hle := dpAdd_le di.insn.opcode
    by_cases hadd : dpAdd di.insn.opcode = 0
    · simp [hadd]
    · have hone : dpAdd di.insn.opcode = 1 := by omega
      rw [hone]
      simp
  have htaken : (if branchClass di.insn.opcode = 1 ∧ branchTaken mc di s.machine = true then 1 else 0) =
      takenCycle mc di s.machine :=
    if_congr (and_iff_right_of_imp (branchClass_of_branchTaken mc hrow)) rfl rfl
  rw [insnCost, instrCpuCycles_eq, modifiers, hcross, hdp, htaken, dynamicCharge]
  omega

/-- A skipped push costs its static cycles. -/
theorem setupCost_eq {di : DecodedInsn} (hrow : OfTable di)
    (hsetup : di.insn.mnem = .phk ∨ di.insn.mnem = .pea ∨ di.insn.mnem = .per) (s : M) :
    insnCost mc di s = instrStaticCycles di.insn.opcode di.insn.mFlag di.insn.xFlag := by
  obtain ⟨hdp, hcross, hbranch⟩ := setup_adds di.insn.opcode (by
    rw [← hrow.mnem]
    simpa using hsetup)
  rw [insnCost, instrCpuCycles_eq, hdp, hcross, hbranch]
  simp

theorem owes_line (a : HostAct) {n : Nat} {s : Meter M} (h : s.Owes n) :
    (meterAct mc (.line a) s).Owes n := h

theorem ahead_block (pc24 : Nat) (insns : List DecodedInsn) {s : Meter M} (h : s.Ahead) :
    (meterAct mc (.block pc24 insns) s).Ahead := by
  intro hall
  obtain ⟨hmet, hempty⟩ := Bool.and_eq_true_iff.mp hall
  have hleft := List.isEmpty_iff.mp hempty
  obtain ⟨hcycles, hmaster⟩ := h hmet
  rw [hleft] at hcycles hmaster
  simp only [blockCycleConst, List.map_nil, List.sum_nil, Nat.zero_mul, Nat.add_zero] at hcycles hmaster
  simp only [meterAct, hcycles, hmaster, Nat.zero_mul, Nat.add_zero]
  exact ⟨trivial, trivial⟩

/-- The charge of a taken branch pays what is owed for it. -/
theorem ahead_taken (pc24 : Nat) (di : DecodedInsn) {s : Meter M} (h : s.Owes 1) :
    (meterAct mc (.taken pc24 di) s).Ahead := by
  intro hall
  obtain ⟨hmet, hdecide⟩ := Bool.and_eq_true_iff.mp hall
  have hspeed := of_decide_eq_true hdecide
  obtain ⟨hcycles, hmaster⟩ := h hmet
  rw [Nat.one_mul, ← hspeed] at hmaster
  simp only [meterAct, Nat.zero_mul, Nat.add_zero]
  exact ⟨hcycles, hspeed ▸ hmaster⟩

theorem owes_insn (pc24 : Nat) {setups rest : List DecodedInsn} {di : DecodedInsn}
    (hsetups : ∀ d ∈ setups, OfTable d ∧
      (d.insn.mnem = .phk ∨ d.insn.mnem = .pea ∨ d.insn.mnem = .per))
    (hrow : OfTable di) {s : Meter M} (hleft : s.left = setups ++ di :: rest) (h : s.Ahead) :
    (meterAct mc (.insn pc24 setups di) s).Owes (takenCycle mc di s.machine) ∧
      (meterAct mc (.insn pc24 setups di) s).left = rest := by
  have hrest : s.left.drop (setups.length + 1) = rest := by
    rw [hleft, List.drop_append]
    simp
  refine ⟨?_, hrest⟩
  intro hall
  obtain ⟨hmet, hdecide⟩ := Bool.and_eq_true_iff.mp hall
  have hcharged := of_decide_eq_true hdecide
  obtain ⟨hcycles, hmaster⟩ := h hmet
  have hsum : (setups.map fun d => insnCost mc d s.machine).sum = blockCycleConst setups := by
    rw [blockCycleConst]
    exact congrArg List.sum (List.map_congr_left fun d hd =>
      setupCost_eq mc (hsetups d hd).1 (hsetups d hd).2 s.machine)
  have hconst : blockCycleConst s.left = blockCycleConst setups +
      instrStaticCycles di.insn.opcode di.insn.mFlag di.insn.xFlag + blockCycleConst rest := by
    rw [hleft]
    simp only [blockCycleConst, List.map_append, List.map_cons, List.sum_append, List.sum_cons]
    omega
  have hcost := insnCost_eq mc hrow hcharged
  have hdyn : dynamicCharge mc di s.machine * speedNow mc pc24 s =
      dynamicCharge mc di s.machine * s.speed := by
    by_cases hzero : dynamicCharge mc di s.machine = 0
    · rw [hzero, Nat.zero_mul, Nat.zero_mul]
    · rw [hcharged.speeds hzero]
  rw [hconst] at hcycles hmaster
  simp only [meterAct, hrest, hsum, hcost, hdyn]
  constructor
  · omega
  · linarith

/-! ### Runs -/

/-- The instructions are of the table and lowered one by one, and a branch that is still conditional
has both successors. -/
structure FromTable (succs : List DecodeKey) (lowered : Lowered) : Prop where
  rows : ∀ p ∈ lowered, OfTable p.1
  lowers : ∀ p ∈ lowered, ∃ vid, lower p.1.insn vid = some p.2
  edges : ∀ p ∈ lowered, isCondBranch p.1.insn.mnem = true → p.1.insn.constZFoldUnconditional = false →
    2 ≤ succs.length

/-- A branch is lowered to its test, or to a jump where it was folded. -/
theorem lower_branch {insn : Insn} {vid : Value} {ops : List IROp} {f : Reg × Bool}
    (h : lower insn vid = some ops) (hf : branchFlag insn.mnem = some f) :
    ops = [if insn.constZFoldUnconditional then .goto else .condBranch f.1 f.2] := by
  unfold lower at h
  cases hm : insn.mnem with rw [hm] at h hf
  | bpl | bmi | bvc | bvs | bcc | bcs | bne | beq =>
    obtain rfl := Option.some.inj hf
    exact (Option.some.inj h).symm
  | _ => exact absurd hf (Option.some_ne_none f).symm

variable {mc} {ctx : EmitCtx} {labels : List Label} {source pc24 : Nat} {succs : List DecodeKey}

/-- Without a branch the lines of the operations are as they were. -/
theorem cycleOps_plain {di : DecodedInsn} : ∀ {ops : List IROp} (terminated : Bool),
    (∀ flag takeIf, IROp.condBranch flag takeIf ∉ ops) →
    ctx.cycleOps labels source pc24 succs di ops terminated =
      ((ctx.emitOps labels source succs di ops terminated).1.mapActs .line,
        (ctx.emitOps labels source succs di ops terminated).2) := by
  intro ops
  induction ops with
  | nil => intro _ _; rfl
  | cons op ops ih =>
    intro terminated hops
    have hhere : ctx.cycleOpLines labels source pc24 succs di op =
        ((ctx.emitOpLines labels source succs di op).1.mapActs .line,
          (ctx.emitOpLines labels source succs di op).2) := by
      cases op with
      | condBranch flag takeIf => exact absurd List.mem_cons_self (hops flag takeIf)
      | _ => rfl
    have hrest := fun terminated => ih terminated fun flag takeIf hop =>
      hops flag takeIf (List.mem_cons_of_mem op hop)
    simp only [EmitCtx.cycleOps, EmitCtx.emitOps, hhere, hrest, Text.mapActs]

/-- The lines themselves neither run an instruction nor charge. -/
theorem run_lines {n : Nat} {left : List DecodedInsn} (t : HostText) {s : Meter M} (h : s.Owes n)
    (hleft : s.left = left) :
    ((t.mapActs CycleAct.line).run (meterAct mc) (meterTest mc) s).2.Owes n ∧
      ((t.mapActs CycleAct.line).run (meterAct mc) (meterTest mc) s).2.left = left := by
  refine Text.run_preserves (P := fun s : Meter M => s.Owes n ∧ s.left = left) (fun a ha s hs => ?_)
    ⟨h, hleft⟩
  rw [Text.acts_mapActs] at ha
  obtain ⟨line, -, rfl⟩ := List.mem_map.mp ha
  exact ⟨owes_line mc line hs.1, hs.2⟩

theorem mnem_of_isTrampolineSetup {di : DecodedInsn} {rest : List DecodedInsn}
    (h : EmitCtx.isTrampolineSetup di rest = true) :
    di.insn.mnem = .phk ∨ di.insn.mnem = .pea ∨ di.insn.mnem = .per := by
  unfold EmitCtx.isTrampolineSetup at h
  simp only [Bool.and_eq_true, Bool.or_eq_true, decide_eq_true_eq] at h
  rcases h.1 with (h | h) | h
  · exact Or.inl h
  · exact Or.inr (Or.inl h)
  · exact Or.inr (Or.inr h)

/-- The lines of a branch with both edges pay its cycle where it is taken. -/
theorem ahead_branch {di : DecodedInsn} {f : Reg × Bool} (hf : branchFlag di.insn.mnem = some f)
    (hedges : 2 ≤ succs.length) (terminated : Bool) {s : Meter M} {left : List DecodedInsn}
    (h : s.Owes (takenCycle mc di s.machine)) (hleft : s.left = left) :
    ((ctx.cycleOps labels source pc24 succs di [.condBranch f.1 f.2] terminated).1.run (meterAct mc)
        (meterTest mc) s).2.Ahead ∧
      ((ctx.cycleOps labels source pc24 succs di [.condBranch f.1 f.2] terminated).1.run (meterAct mc)
        (meterTest mc) s).2.left = left := by
  obtain ⟨fall, jump, rest, rfl⟩ : ∃ fall jump rest, succs = fall :: jump :: rest := by
    match succs, hedges with
    | fall :: jump :: rest, _ => exact ⟨fall, jump, rest, rfl⟩
  have htest : meterTest mc (.flag f.1 f.2) s = branchTaken mc di s.machine := by
    rw [branchTaken, hf]
    rfl
  have hdecided : ((Text.onLine (.ite (HostCond.flag f.1 f.2) (.seqs [.act (CycleAct.taken pc24 di),
      (ctx.gotoOrReturn labels source jump).mapActs .line]) .skip) : CycleText).run (meterAct mc)
      (meterTest mc) s).2.Ahead ∧ ((Text.onLine (.ite (HostCond.flag f.1 f.2)
        (.seqs [.act (CycleAct.taken pc24 di), (ctx.gotoOrReturn labels source jump).mapActs .line])
        .skip) : CycleText).run (meterAct mc) (meterTest mc) s).2.left = left := by
    rw [Text.run, Text.run, htest]
    rw [takenCycle] at h
    by_cases htaken : branchTaken mc di s.machine = true
    · rw [if_pos htaken] at h ⊢
      rw [Text.seqs, Text.run_act_seq]
      exact Text.run_seq_preserves (Q := fun s : Meter M => s.Ahead ∧ s.left = left)
        (run_lines _ (ahead_taken mc pc24 di h) hleft) (fun _ hs => hs) fun _ hs => hs
    · rw [if_neg htaken] at h ⊢
      exact ⟨h, hleft⟩
  refine Text.run_seq_preserves (P := fun s : Meter M => s.Ahead ∧ s.left = left)
    (Q := fun s : Meter M => s.Ahead ∧ s.left = left) ?_ (fun _ hs => hs) fun _ hs => hs
  refine Text.run_seq_preserves (P := fun s : Meter M => s.Ahead ∧ s.left = left)
    (Q := fun s : Meter M => s.Ahead ∧ s.left = left) hdecided (fun _ hs => hs) fun s' hs' => ?_
  exact Text.run_seq_preserves (P := fun s : Meter M => s.Ahead ∧ s.left = left)
    (Q := fun s : Meter M => s.Ahead ∧ s.left = left) (run_lines _ hs'.1 hs'.2) (fun _ hs => hs) fun _ hs => hs

/-- Behind the lines of an instruction nothing is owed for it. -/
theorem ahead_cycleOps {p : DecodedInsn × List IROp} (hlower : ∃ vid, lower p.1.insn vid = some p.2)
    (hedges : isCondBranch p.1.insn.mnem = true → p.1.insn.constZFoldUnconditional = false →
      2 ≤ succs.length)
    (terminated : Bool) {s : Meter M} {left : List DecodedInsn}
    (h : s.Owes (takenCycle mc p.1 s.machine))
    (hfolds : s.met = true → p.1.insn.constZFoldUnconditional = true →
      branchTaken mc p.1 s.machine = false) (hleft : s.left = left) :
    ((ctx.cycleOps labels source pc24 succs p.1 p.2 terminated).1.run (meterAct mc)
        (meterTest mc) s).2.Ahead ∧
      ((ctx.cycleOps labels source pc24 succs p.1 p.2 terminated).1.run (meterAct mc)
        (meterTest mc) s).2.left = left := by
  obtain ⟨vid, hlower⟩ := hlower
  cases hf : branchFlag p.1.insn.mnem with
  | none =>
    have hplain : ∀ flag takeIf, IROp.condBranch flag takeIf ∉ p.2 := by
      intro flag takeIf hop
      have hbranch := (mem_branches_iff _).mp (mnem_of_condBranch_mem hlower hop)
      rw [← branchFlag_isSome, hf] at hbranch
      cases hbranch
    have hnone : takenCycle mc p.1 s.machine = 0 := by
      rw [takenCycle, branchTaken, hf]
      rfl
    rw [hnone] at h
    rw [cycleOps_plain terminated hplain]
    exact run_lines _ h hleft
  | some f =>
    rw [lower_branch hlower hf]
    cases hfold : p.1.insn.constZFoldUnconditional with
    | false => exact ahead_branch hf (hedges (isCondBranch_of_branchFlag hf) hfold) terminated h hleft
    | true =>
      have hahead : s.Ahead := fun hmet => by
        have hpaid := h hmet
        rw [takenCycle, hfolds hmet hfold] at hpaid
        exact hpaid
      rw [if_pos rfl, cycleOps_plain terminated (by simp)]
      exact run_lines _ hahead hleft

theorem ahead_cycleInsns : ∀ {ps : Lowered} {setups : List DecodedInsn} {terminated : Bool}
    {s : Meter M}, FromTable succs ps → (∀ d ∈ setups, OfTable d ∧
      (d.insn.mnem = .phk ∨ d.insn.mnem = .pea ∨ d.insn.mnem = .per)) →
    s.left = setups ++ ps.map (·.1) → s.Ahead →
    ((ctx.cycleInsns labels source pc24 succs ps setups terminated).1.run (meterAct mc)
      (meterTest mc) s).2.Ahead := by
  intro ps
  induction ps with
  | nil => intro setups terminated s _ _ _ h; exact h
  | cons p ps ih =>
    intro setups terminated s hps hsetups hleft h
    have hrest : FromTable succs ps := ⟨fun q hq => hps.rows q (List.mem_cons_of_mem p hq),
      fun q hq => hps.lowers q (List.mem_cons_of_mem p hq),
      fun q hq => hps.edges q (List.mem_cons_of_mem p hq)⟩
    have hrow := hps.rows p List.mem_cons_self
    rw [EmitCtx.cycleInsns]
    by_cases hsetup : EmitCtx.isTrampolineSetup p.1 (ps.map (·.1)) = true
    · rw [if_pos hsetup]
      refine ih hrest (fun d hd => ?_) (by rw [hleft]; simp) h
      rcases List.mem_append.mp hd with hd | hd
      · exact hsetups d hd
      · rw [List.mem_singleton.mp hd]
        exact ⟨hrow, mnem_of_isTrampolineSetup hsetup⟩
    · rw [if_neg hsetup]
      obtain ⟨howes, hleft'⟩ := owes_insn mc pc24 hsetups hrow hleft h
      have hfolds : (meterAct mc (.insn pc24 setups p.1) s).met = true →
          p.1.insn.constZFoldUnconditional = true → branchTaken mc p.1 s.machine = false := fun hmet =>
        (of_decide_eq_true (Bool.and_eq_true_iff.mp hmet).2).folds
      obtain ⟨hops, hops'⟩ := @ahead_cycleOps M mc ctx labels source pc24 succs p
        (hps.lowers p List.mem_cons_self) (hps.edges p List.mem_cons_self) terminated _ _ howes hfolds hleft'
      simp only [Text.seqs, Text.run_act_seq]
      refine Text.run_seq_preserves (Q := fun s : Meter M => s.Ahead ∧ s.left = ps.map (·.1))
        ⟨hops, hops'⟩ (fun _ hs => hs.1) fun s' hs => ?_
      exact Text.run_seq_preserves (ih hrest (fun d hd => by cases hd) hs.2 hs.1) (fun _ hs => hs)
        fun _ hs => hs

theorem ahead_cycleBlock {b : Block} {lowered : Lowered} (hb : FromTable b.successors lowered) {s : Meter M}
    (h : s.Ahead) : (((ctx.cycleBlock labels b lowered).inject (.line .pop)).run (meterAct mc)
      (meterTest mc) s).2.Ahead := by
  refine Text.run_inject_preserves (fun s hs => owes_line mc .pop hs) ?_
  have hblock := ahead_block mc (addr24 ctx.bank b.entry.pc) (lowered.map (·.1)) h
  have hinsns := @ahead_cycleInsns M mc ctx labels ((ctx.bank <<< 16) ||| (b.entry.pc &&& 0xFFFF))
    (addr24 ctx.bank b.entry.pc) b.successors lowered [] false _ hb (fun d hd => by cases hd) rfl hblock
  unfold EmitCtx.cycleBlock
  simp only [Text.seqs, Text.run_act_seq]
  refine Text.run_seq_preserves hinsns (fun _ hs => hs) fun s' hs' => ?_
  refine Text.run_seq_preserves ?_ (fun _ hs => hs) fun _ hs => hs
  split
  · exact hs'
  · exact (run_lines _ hs' rfl).1

/-- A branch that was not folded has both of its edges. -/
theorem length_successors_of_branch {inp : DecodeInput} {g : FunctionGraph} (h : decodeFunction inp = some g)
    {di : DecodedInsn} (hdi : di ∈ g.insns) (hbranch : isCondBranch di.insn.mnem = true)
    (hfold : di.insn.constZFoldUnconditional = false) : 2 ≤ di.successors.length := by
  obtain ⟨insns, hnodup, hfresh, hgraph⟩ := decodeFunction_eq_some h
  obtain ⟨dj, hdj, rfl⟩ := hgraph di hdi
  rcases foldBranch_cases (dedupe insns) dj with hsame | ⟨_, _, _, _, _, _, _, _, _, hfolded⟩
  · rw [hsame] at hbranch ⊢
    have hplp : dj.insn.mnem ≠ .plp := fun hm => by rw [hm] at hbranch; cases hbranch
    obtain ⟨extra, hlabels, -⟩ := dedupe_labels hnodup hfresh hdj (dedupe_read hfresh hdj) hplp
    have hlength := congrArg List.length hlabels
    rw [List.length_map, List.length_append, length_decodedLabels inp dj.key hbranch] at hlength
    rw [hlength]
    exact Nat.le_add_right 2 _
  · rw [hfolded] at hfold
    cases hfold

/-- A branch ends its block. -/
theorem length_successors_of_block {inp : DecodeInput} {g : FunctionGraph}
    (h : decodeFunction inp = some g) {b : Block} (hb : b ∈ g.buildCfg) {di : DecodedInsn}
    (hdi : di ∈ b.insns) (hbranch : isCondBranch di.insn.mnem = true)
    (hfold : di.insn.constZFoldUnconditional = false) : 2 ≤ b.successors.length := by
  obtain ⟨d, rest, -, -, hinsns, hchain, hin, last, hlast, hsuccs, -⟩ := FunctionGraph.block_spec hb
  have hmem := hdi
  rw [hinsns] at hdi hlast
  rcases FunctionGraph.last_or_rel_of_isChain hchain hdi with hlast' | ⟨dj, -, hfollows⟩
  · obtain rfl := Option.some.inj (hlast.symm.trans hlast')
    rw [hsuccs]
    exact length_successors_of_branch h (hin _ hmem) hbranch hfold
  · have hender := hfollows.ender
    rw [isBlockEnder_of_isCondBranch hbranch] at hender
    cases hender

/-- What a function is printed from is of the table. -/
theorem fromTable_of_compiledBlocks {ctx : EmitCtx} {inp : DecodeInput} {g : FunctionGraph}
    {lowered : List (Block × Lowered)} (h : compiledBlocks ctx inp = some (g, lowered))
    {b : Block × Lowered} (hb : b ∈ lowered) : FromTable b.1.successors b.2 := by
  obtain ⟨hcfg, hinsns, hmem⟩ := mem_of_compiledBlocks h hb
  have hdecode := (compiledBlocks_eq_some h).1
  refine ⟨fun p hp => ?_, fun p hp => (hmem p hp).2, fun p hp => ?_⟩
  · obtain ⟨insn, hdec⟩ := decodedAt_of_decodeFunction hdecode p.1 (hmem p hp).1
    have hread := hdec.read
    rw [decodeAt] at hread
    split at hread
    · cases hread
    obtain ⟨hmnem, hmode, -⟩ := row_of_decodeInsn hread
    have hop : p.1.insn.unfolded.opcode = insn.unfolded.opcode := congrArg Insn.opcode hdec.same
    have hopcode : p.1.insn.opcode = insn.opcode := hop
    have hm : p.1.insn.unfolded.mode = insn.unfolded.mode := congrArg Insn.mode hdec.same
    have hpmode : p.1.insn.mode = insn.mode := hm
    exact ⟨by rw [hdec.mnem, hopcode, hmnem], by rw [hpmode, hopcode, hmode]⟩
  · have hin : p.1 ∈ b.1.insns := hinsns ▸ List.mem_map.mpr ⟨p, hp, rfl⟩
    exact length_successors_of_block hdecode hcfg hin

theorem ahead_textFrom {blocks : List (Label × CycleText)} {epilogue : CycleText}
    (hblocks : ∀ b ∈ blocks, ∀ s : Meter M, s.Ahead → (b.2.run (meterAct mc) (meterTest mc) s).2.Ahead)
    (hepilogue : ∀ s : Meter M, s.Ahead → (epilogue.run (meterAct mc) (meterTest mc) s).2.Ahead) :
    ∀ s : Meter M, s.Ahead →
      ((TextFn.textFrom epilogue blocks).run (meterAct mc) (meterTest mc) s).2.Ahead := by
  induction blocks with
  | nil => exact hepilogue
  | cons b bs ih =>
    intro s hs
    exact Text.run_seq_preserves (hblocks b List.mem_cons_self s hs) (fun _ hs => hs)
      (ih fun c hc => hblocks c (List.mem_cons_of_mem b hc))

/-- The positions of a run of the function, and the meter there. -/
def Visits (mc : Machine M) (F : TextFn CycleAct HostCond HostRet Label) (s₀ : M) : CycleText → Meter M → Prop :=
  F.Reaches (meterAct mc) (meterTest mc) (.start s₀)

/-- The meter where the text hands over. -/
def Meter.after (mc : Machine M) (t : CycleText) (s : Meter M) : Meter M :=
  (t.run (meterAct mc) (meterTest mc) s).2

theorem Visits.jump {F : TextFn CycleAct HostCond HostRet Label} {s₀ : M} {t u : CycleText} {s : Meter M}
    {k : Label} (h : Visits mc F s₀ t s) (hrun : (t.run (meterAct mc) (meterTest mc) s).1 = .jump k)
    (hat : F.textAt k = some u) : Visits mc F s₀ u (s.after mc t) :=
  TextFn.Reaches.jump h (Prod.ext hrun rfl) hat

theorem ahead_of_visits {lowered : List (Block × Lowered)}
    (hl : ∀ b ∈ lowered, FromTable b.1.successors b.2) {s₀ : M}
    {t : CycleText} {s : Meter M} (h : Visits mc (ctx.cycleBlocks lowered) s₀ t s) :
    s.Ahead ∧ (s.after mc t).Ahead := by
  have hblocks : ∀ b ∈ (ctx.cycleBlocks lowered).blocks, ∀ s : Meter M, s.Ahead →
      (b.2.run (meterAct mc) (meterTest mc) s).2.Ahead := by
    intro b hb s hs
    obtain ⟨c, hc, rfl⟩ := List.mem_map.mp hb
    exact ahead_cycleBlock (hl c hc) hs
  have hepilogue : ∀ s : Meter M, s.Ahead →
      ((ctx.cycleBlocks lowered).epilogue.run (meterAct mc) (meterTest mc) s).2.Ahead :=
    fun s hs => hs
  induction h with
  | start =>
    have hstart : (Meter.start s₀).Ahead := fun _ => ⟨rfl, rfl⟩
    exact ⟨hstart, ahead_textFrom hblocks hepilogue _ hstart⟩
  | @jump t u s k s' _ hrun hat ih =>
    rw [Meter.after, hrun] at ih
    obtain ⟨bs, hbs, rfl⟩ := Option.map_eq_some_iff.mp hat
    refine ⟨ih.2, ahead_textFrom (fun b hb => hblocks b (TextFn.mem_of_fromLabel hbs b hb)) hepilogue _ ih.2⟩

/-- What was charged is what the executed instructions cost. -/
structure Meter.AddsUp (s : Meter M) : Prop where
  cycles : s.cycles = s.spent
  master : s.master = s.spentMaster

/-- The charges of a path add up to the cost of its instructions, as long as every step met the
condition and no block was left before its last instruction. -/
theorem addsUp_of_visits {inp : DecodeInput} {g : FunctionGraph} {lowered : List (Block × Lowered)}
    (h : compiledBlocks ctx inp = some (g, lowered)) {s₀ : M} {t : CycleText} {s : Meter M}
    (hv : Visits mc (ctx.cycleBlocks lowered) s₀ t s) (hmet : (s.after mc t).met = true)
    (hleft : (s.after mc t).left = []) : (s.after mc t).AddsUp := by
  have hahead : (s.after mc t).Ahead :=
    (ahead_of_visits (fun b hb => fromTable_of_compiledBlocks h hb) hv).2
  obtain ⟨hcycles, hmaster⟩ := hahead hmet
  rw [hleft] at hcycles hmaster
  simp only [blockCycleConst, List.map_nil, List.sum_nil, Nat.zero_mul, Nat.add_zero] at hcycles hmaster
  exact ⟨hcycles, hmaster⟩

end Meter

/-- A machine that stands still. -/
def still (d x : Word) : Machine Unit where
  d := fun _ => d
  x := fun _ => x
  y := fun _ => 0
  memsel := fun _ => false
  pointer := fun _ _ => 0
  exec := fun _ s => s
  test := fun _ _ => true

/-- `LDA $10` with a low byte in `D`, and a `BEQ` that is taken over a return. -/
theorem addsUp_of_visits_dpLoad : ∃ s : Meter Unit, s.AddsUp ∧ s.cycles = 7 := by
  have hsome : (compiledBlocks .bare (.plain [0xA5, 0x10, 0xF0, 0x01, 0x60, 0x60])).isSome := by
    decide
  refine ⟨_, @addsUp_of_visits Unit (still 1 0) .bare _ _ _ (Option.some_get hsome).symm () _ _ .start
    ?_ ?_, ?_⟩
  all_goals decide

/-- `LDA #$00` and a `BEQ` over a return. -/
def foldedBeq : DecodeInput := .plain [0xA9, 0x00, 0xF0, 0x01, 0x60, 0x60]

theorem isSome_foldedBeq : (compiledBlocks .bare foldedBeq).isSome := by decide

/-- Its text. -/
def foldedBeqText : TextFn CycleAct HostCond HostRet Label :=
  EmitCtx.bare.cycleBlocks ((compiledBlocks .bare foldedBeq).get isSome_foldedBeq).2

theorem isSome_foldedBeqText : (foldedBeqText.textAt (labelFor ⟨0x8005, true, true, []⟩)).isSome := by
  decide

/-- The branch is always taken and printed as a plain jump, without its cycle. -/
theorem not_addsUp_foldedBeq : ∃ g lowered t, ∃ s : Meter Unit,
    compiledBlocks .bare foldedBeq = some (g, lowered) ∧
      Visits (still 0 0) (EmitCtx.bare.cycleBlocks lowered) () t s ∧
      (∀ b ∈ lowered, ∀ p ∈ b.2, p.1.insn.mode ≠ .indirY ∧ isBlockMove p.1.insn.opcode = false) ∧
      (s.after (still 0 0) t).left = [] ∧ (s.after (still 0 0) t).cycles = 10 ∧
      (s.after (still 0 0) t).spent = 11 := by
  have hjump : (foldedBeqText.start.run (meterAct (still 0 0)) (meterTest (still 0 0)) (.start ())).1 =
      .jump (labelFor ⟨0x8005, true, true, []⟩) := by
    decide
  have hvisits : Visits (still 0 0) foldedBeqText () ((foldedBeqText.textAt _).get isSome_foldedBeqText)
      ((Meter.start ()).after (still 0 0) foldedBeqText.start) :=
    Visits.jump .start hjump (Option.some_get isSome_foldedBeqText).symm
  refine ⟨_, _, _, _, (Option.some_get isSome_foldedBeq).symm, hvisits, ?_, ?_, ?_, ?_⟩
  all_goals decide

end SnesRecomp.Recompiler
