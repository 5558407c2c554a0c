import SnesRecomp.Recompiler.ExitFixpoint
import SnesRecomp.Tiers.ModeTracking

/-!
# Runs through calls

The exit modes of `detect_and_route` against the interpreter.  `CallRun` is a run of a function from
its entry that follows direct calls: the run of a callee, in the variant that the call is recorded
with, stands inside the run of its caller, and comes back to the instruction behind the call.

`callRun_tracked`: the decoder tracks the widths through all of it, when every record is what is
derived from the callee's own graph.  So a function returns in the widths of its record
(`exitMap_returns`), and the code behind every call is decoded in the widths it is executed in
(`exitMap_tracks`).
-/

namespace SnesRecomp.Tiers

open Recompiler Interp816

variable {M : Type}

/-! ### What the analysis lists -/

/-- The widths are among those that have been accumulated. -/
def Covers (acc : ExitMeet) (mode : Bool × Bool) : Prop :=
  ∃ exit, acc.exit = some exit ∧ (acc.mAmbig = false → mode.1 = exit.1) ∧
    (acc.xAmbig = false → mode.2 = exit.2)

theorem covers_accumulate_self (acc : ExitMeet) (mode : Bool × Bool) :
    Covers (acc.accumulate mode) mode := by
  rw [ExitMeet.accumulate]
  split
  next => exact ⟨mode, rfl, fun _ => rfl, fun _ => rfl⟩
  next exitM exitX h =>
    refine ⟨(exitM, exitX), h, fun hm => ?_, fun hx => ?_⟩
    · simp only [Bool.or_eq_false_iff, decide_eq_false_iff_not, not_not] at hm
      exact hm.2.symm
    · simp only [Bool.or_eq_false_iff, decide_eq_false_iff_not, not_not] at hx
      exact hx.2.symm

theorem Covers.accumulate {acc : ExitMeet} {mode : Bool × Bool} (h : Covers acc mode)
    (other : Bool × Bool) : Covers (acc.accumulate other) mode := by
  obtain ⟨⟨exitM, exitX⟩, hexit, hm, hx⟩ := h
  rw [ExitMeet.accumulate, hexit]
  exact ⟨(exitM, exitX), rfl, fun h => hm (Bool.or_eq_false_iff.mp h).1, fun h => hx (Bool.or_eq_false_iff.mp h).1⟩

theorem Covers.handlers {callees : ExitMap} {mode : Bool × Bool} : ∀ {keys : List ExitKey}
    {acc acc' : ExitMeet}, Covers acc mode → accumulateHandlers callees keys acc = some acc' →
    Covers acc' mode := by
  intro keys
  induction keys with
  | nil => intro acc acc' h hacc; exact Option.some.inj hacc ▸ h
  | cons key keys ih =>
    intro acc acc' h hacc
    rw [accumulateHandlers] at hacc
    cases hkey : callees key with
    | none => rw [hkey] at hacc; cases hacc
    | some other =>
      rw [hkey] at hacc
      exact ih (h.accumulate other) hacc

/-- The loop keeps what is covered, and covers its own returns. -/
theorem covers_accumulateExits {callees : ExitMap} : ∀ {insns : List DecodedInsn} {acc acc' : ExitMeet},
    accumulateExits callees insns acc = some acc' →
    (∀ mode, Covers acc mode → Covers acc' mode) ∧
      ∀ di ∈ insns, (di.insn.mnem = .rts ∨ di.insn.mnem = .rtl) →
        Covers acc' (di.insn.mFlag, di.insn.xFlag) := by
  intro insns
  induction insns with
  | nil =>
    intro acc acc' h
    exact ⟨fun _ hc => Option.some.inj h ▸ hc, fun _ hdi => by cases hdi⟩
  | cons di insns ih =>
    intro acc acc' h
    rw [accumulateExits] at h
    split at h
    next hret =>
      obtain ⟨hkeep, hall⟩ := ih h
      refine ⟨fun mode hc => hkeep mode (hc.accumulate _), fun dj hdj hmnem => ?_⟩
      rcases List.mem_cons.mp hdj with rfl | hdj
      · exact hkeep _ (covers_accumulate_self _ _)
      · exact hall dj hdj hmnem
    next hret =>
      have hrest : ∀ acc₁, accumulateExits callees insns acc₁ = some acc' →
          (∀ mode, Covers acc mode → Covers acc₁ mode) →
          (∀ mode, Covers acc mode → Covers acc' mode) ∧
            ∀ dj ∈ di :: insns, (dj.insn.mnem = .rts ∨ dj.insn.mnem = .rtl) →
              Covers acc' (dj.insn.mFlag, dj.insn.xFlag) := by
        intro acc₁ h₁ hacc
        obtain ⟨hkeep, hall⟩ := ih h₁
        refine ⟨fun mode hc => hkeep mode (hacc mode hc), fun dj hdj hmnem => ?_⟩
        rcases List.mem_cons.mp hdj with rfl | hdj
        · exact absurd (hmnem.imp_right Or.inl) hret
        · exact hall dj hdj hmnem
      split at h
      next =>
        split at h
        next => exact hrest acc h fun _ hc => hc
        next d _ =>
          split at h
          next => cases h
          next acc₁ hacc => exact hrest acc₁ h fun _ hc => hc.handlers hacc
      next => exact hrest acc h fun _ hc => hc

/-- An exit mode that is committed is the one of every `RTS` and `RTL` of the graph. -/
theorem mode_of_graphExit {insns : List DecodedInsn} {callees : ExitMap} {mode : Bool × Bool}
    (h : graphExit insns callees = some mode) {di : DecodedInsn} (hdi : di ∈ insns)
    (hmnem : di.insn.mnem = .rts ∨ di.insn.mnem = .rtl) : (di.insn.mFlag, di.insn.xFlag) = mode := by
  rw [graphExit] at h
  split at h
  next => cases h
  next =>
    rw [analyzeFunctionExitMx] at h
    cases hacc : accumulateExits callees insns .empty with
    | none => rw [hacc] at h; cases h
    | some acc =>
      rw [hacc] at h
      obtain ⟨exit, hexit, hm, hx⟩ := (covers_accumulateExits hacc).2 di hdi hmnem
      simp only [ExitMeet.result, hexit] at h
      cases hma : acc.mAmbig <;> cases hxa : acc.xAmbig <;> rw [hma, hxa] at h <;> first
        | cases h; done
        | exact (Prod.ext (hm hma) (hx hxa)).trans (Option.some.inj h)

/-! ### Calls and returns -/

/-- A `JSR` to an address it names, or a `JSL` that is no dispatch. -/
structure CallsOver (bus : Bus M) (inp : DecodeInput) (i : Interp816 M) (insn : Insn) : Prop
    extends Fetched bus inp i insn where
  direct : insn.mnem = .jsr ∧ insn.mode = .abs ∨ insn.mnem = .jsl ∧ inp.recovery.helperTable insn = none

/-- An `RTS` or `RTL`. -/
structure ReturnsAt (bus : Bus M) (inp : DecodeInput) (i : Interp816 M) (insn : Insn) : Prop
    extends Fetched bus inp i insn where
  mnem : insn.mnem = .rts ∨ insn.mnem = .rtl

/-- The variant that the decoder takes the call to enter: the target in the widths of the call, or
its mirror where the target has no record. -/
structure Enters (callees : ExitMap) (insn : Insn) (bank : Nat) (i : Interp816 M) (w : RouteVisit) :
    Prop where
  m : w.em = i.mf
  x : w.ex = i.xf
  found : (callTarget insn bank).bind
    (getMirrored fun a => (callees (a, i.mf, i.xf)).map fun _ => a) = some w.key.1

/-- The start of a function of the cfgs that the decoder has a graph for. -/
structure Starts (rt : RouteInput) (visits : List RouteVisit) (callees : ExitMap) (v : RouteVisit)
    (i : Interp816 M) : Prop where
  visit : v ∈ visits
  graph : ∃ g, decodeFunction (rt.decodeInput callees v) = some g ∧ EntryKept g
  entry : AtEntry (rt.decodeInput callees v) i

/-- A run of a function from its entry, with the runs of the functions it calls inside it. -/
inductive CallRun (bus : Bus M) (rt : RouteInput) (visits : List RouteVisit) (callees : ExitMap) :
    RouteVisit → Interp816 M → List Byte → Interp816 M → Prop
  | enter {v : RouteVisit} {i : Interp816 M} : Starts rt visits callees v i →
      CallRun bus rt visits callees v i [] i
  | step {v : RouteVisit} {i₀ i : Interp816 M} {saved saved' : List Byte} {insn : Insn} :
      CallRun bus rt visits callees v i₀ saved i →
      StepsOver bus (rt.decodeInput callees v) saved i insn saved' →
      Passes (rt.decodeInput callees v) (kindOf i insn.mnem) i.pc.toNat
        (runOpcode (bridgeBus bus) i).pc.toNat →
      CallRun bus rt visits callees v i₀ saved' (runOpcode (bridgeBus bus) i)
  | call {v w : RouteVisit} {i₀ i j : Interp816 M} {saved savedW : List Byte} {insn ret : Insn} :
      CallRun bus rt visits callees v i₀ saved i →
      CallsOver bus (rt.decodeInput callees v) i insn → Enters callees insn v.bank i w →
      CallRun bus rt visits callees w (runOpcode (bridgeBus bus) i) savedW j →
      ReturnsAt bus (rt.decodeInput callees w) j ret →
      (runOpcode (bridgeBus bus) j).pc.toNat = nextPc (rt.maps callees) insn v.bank →
      Passes (rt.decodeInput callees v) .fall i.pc.toNat (runOpcode (bridgeBus bus) j).pc.toNat →
      CallRun bus rt visits callees v i₀ saved (runOpcode (bridgeBus bus) j)

/-! ### One call, one return -/

section Step

variable {bus : Bus M} {inp : DecodeInput} {i : Interp816 M} {insn : Insn}

theorem return_rows : ∀ r ∈ opcodeTable.zip opTable,
    (r.1.mnem = .rts → r.2 = .rts) ∧ (r.1.mnem = .rtl → r.2 = .rtl) := by decide +kernel

/-- A return keeps the widths. -/
theorem ReturnsAt.modes (h : ReturnsAt bus inp i insn) (hr : Uninterrupted i) :
    SameModes { runOpcode (bridgeBus bus) i with k := i.k } i ∧
      Uninterrupted (runOpcode (bridgeBus bus) i) := by
  obtain ⟨r, hrow, hmnem, -, -, hop⟩ := h.row
  obtain ⟨hrts, hrtl⟩ := return_rows r hrow
  have hlines := exec_lines (bridgeBus bus) (opOf insn.opcode) (advance i 1)
  have hmodes : SameModes { exec (bridgeBus bus) (opOf insn.opcode) (advance i 1) with k := i.k } i := by
    rcases h.mnem with hm | hm
    · rw [hop, hrts (hmnem ▸ hm)]
      exact ⟨rfl, rfl, rfl, rfl, rfl⟩
    · rw [hop, hrtl (hmnem ▸ hm)]
      exact ⟨rfl, rfl, rfl, rfl, rfl⟩
  rw [h.run hr]
  exact ⟨hmodes, hmodes.2.2.2.2.trans hr.stopped, hlines.1.trans hr.irq, hlines.2.trans hr.nmi⟩

/-- A call has the edges of `_labeled_successors`. -/
theorem CallsOver.decodeOne (h : CallsOver bus inp i insn) (key : DecodeKey) :
    decodeOne inp key insn =
      .ofEdges key insn (labeledSuccessors inp.maps inp.rom insn key inp.bank) none false := by
  rcases h.direct with ⟨hm, hmode⟩ | ⟨hm, htable⟩
  · simp [Recompiler.decodeOne, isLongTransfer, isIndirectJump, hm, hmode]
  · simp [Recompiler.decodeOne, isLongTransfer, isIndirectJump, hm, htable]

theorem CallsOver.mnem (h : CallsOver bus inp i insn) : insn.mnem = .jsr ∨ insn.mnem = .jsl :=
  h.direct.imp And.left And.left

/-- The record is found where the address is. -/
theorem getMirrored_map {α β : Type} (get : Nat → Option α) (f : α → β) {t a : Nat}
    (h : getMirrored (fun a => (get a).map fun _ => a) t = some a) :
    ∃ v, get a = some v ∧ getMirrored (fun a => (get a).map f) t = some (f v) := by
  simp only [getMirrored] at h ⊢
  cases ht : get t with
  | some v =>
    rw [ht] at h
    obtain rfl : t = a := Option.some.inj h
    exact ⟨v, ht, rfl⟩
  | none =>
    rw [ht] at h
    simp only [Option.map_none] at h ⊢
    split at h
    next hbank =>
      rw [if_pos hbank]
      cases hmirror : get (t ^^^ 0x800000) with
      | none => rw [hmirror] at h; cases h
      | some v =>
        rw [hmirror] at h
        obtain rfl : t ^^^ 0x800000 = a := Option.some.inj h
        exact ⟨v, hmirror, rfl⟩
    next => cases h

/-- The edge behind a call is drawn in the widths of the record. -/
theorem edge_of_record (rt : RouteInput) {callees : ExitMap} (rom : Rom) {bank : Nat} {w : RouteVisit}
    (hcall : insn.mnem = .jsr ∨ insn.mnem = .jsl) (h : Enters callees insn bank i w)
    (key : DecodeKey) (hm : key.m = i.mf) (hx : key.x = i.xf) :
    ∃ mode, callees w.key = some mode ∧
      labeledSuccessors (rt.maps callees) rom insn key bank =
        [(⟨Recompiler.addr24 bank (nextPc (rt.maps callees) insn bank), mode.1, mode.2, key.pStack⟩, .fall)] := by
  obtain ⟨t, htarget, hfound⟩ := Option.bind_eq_some_iff.mp h.found
  obtain ⟨mode, hmode, hrecord⟩ := getMirrored_map (fun a => callees (a, i.mf, i.xf))
    (fun mode => (some mode.1, some mode.2)) hfound
  have hkey : callees w.key = some mode := by
    rw [← hmode, ← h.m, ← h.x]
    rfl
  refine ⟨mode, hkey, ?_⟩
  have hexit : exitMx (rt.maps callees) insn bank i.mf i.xf = mode := by
    rw [exitMx, htarget, Option.bind_some]
    simp only [RouteInput.maps, hrecord]
  have hmodes : exitModes (rt.maps callees) rom insn bank i.mf i.xf = [] := by
    rw [exitModes, htarget, Option.bind_some]
    simp [RouteInput.maps, getMirrored]
  have hreturn : returnModes (rt.maps callees) rom insn bank i.mf i.xf = [mode] := by
    simp [returnModes, hexit, hmodes]
  have hterm : ¬ isTerminator insn.mnem = true := by rcases hcall with h | h <;> rw [h] <;> decide
  have hcond : ¬ isCondBranch insn.mnem = true := by rcases hcall with h | h <;> rw [h] <;> decide
  have hbra : ¬ (insn.mnem = .bra ∨ insn.mnem = .brl) := by
    rcases hcall with h | h <;> rw [h] <;> decide
  have hjmp : ¬ insn.mnem = .jmp := by rcases hcall with h | h <;> rw [h] <;> decide
  simp only [labeledSuccessors, if_neg hterm, if_neg hbra, if_neg hcond, if_neg hjmp, if_pos hcall,
    postState_call hcall, hm, hx, hreturn, List.map_cons, List.map_nil]

end Step

/-! ### Runs -/

section Run

variable {bus : Bus M} {rt : RouteInput} {visits : List RouteVisit} {callees : ExitMap}

/-- What a run keeps: the decoder of its function tracks it. -/
structure TrackedRun (rt : RouteInput) (visits : List RouteVisit) (callees : ExitMap) (v : RouteVisit)
    (saved : List Byte) (i : Interp816 M) : Prop where
  visit : v ∈ visits
  tracked : ∃ g insns, decodeFunction (rt.decodeInput callees v) = some g ∧
    Decoding (rt.decodeInput callees v) insns ∧ FirstKept (rt.decodeInput callees v) insns ∧
    (∀ dc ∈ dedupe insns, Visit.Reach (outOf (folded insns))
      (remap insns (entryKey (rt.decodeInput callees v))) dc.key →
      foldBranch (dedupe insns) dc ∈ g.insns) ∧
    Tracked (rt.decodeInput callees v) insns saved i

/-- A tracked run returns in the widths of the record. -/
theorem TrackedRun.returns {v : RouteVisit} {saved : List Byte} {i : Interp816 M} {insn : Insn}
    {mode : Bool × Bool} (h : TrackedRun rt visits callees v saved i)
    (hfix : ∀ v ∈ visits, callees v.key = decodeVariantExit rt callees v)
    (hret : ReturnsAt bus (rt.decodeInput callees v) i insn) (hmode : callees v.key = some mode) :
    (i.mf, i.xf) = mode := by
  obtain ⟨g, insns, hg, -, -, hgraph, ht⟩ := h.tracked
  obtain ⟨di, hdi, hkey, insn', hread, hsame⟩ := graph_of_tracked hg hgraph ht
  obtain rfl : insn' = insn := Option.some.inj (hread.symm.trans hret.read)
  have hexit : graphExit g.insns callees = some mode := by
    have hvariant := hfix v h.visit
    rw [hmode, decodeVariantExit, hg] at hvariant
    exact hvariant.symm
  have hmnem : di.insn.unfolded.mnem = insn'.unfolded.mnem := congrArg Insn.mnem hsame
  have hm : di.insn.unfolded.mFlag = insn'.unfolded.mFlag := congrArg Insn.mFlag hsame
  have hx : di.insn.unfolded.xFlag = insn'.unfolded.xFlag := congrArg Insn.xFlag hsame
  simp only [Insn.unfolded] at hmnem hm hx
  obtain ⟨-, -, -, hmf, hxf⟩ := row_of_decodeInsn hret.decoded
  rw [← mode_of_graphExit hexit hdi (hmnem ▸ hret.mnem), hm, hx, hmf, hxf]

/-- **The decoder tracks a run through all its calls.** -/
theorem callRun_tracked (hfix : ∀ v ∈ visits, callees v.key = decodeVariantExit rt callees v)
    {v : RouteVisit} {i₀ i : Interp816 M} {saved : List Byte}
    (h : CallRun bus rt visits callees v i₀ saved i) : TrackedRun rt visits callees v saved i := by
  induction h with
  | enter hstart =>
    obtain ⟨g, hg, hkept⟩ := hstart.graph
    obtain ⟨insns, hd, hfirst, hgraph⟩ := decoding_of_decodeFunction hg hkept
    exact ⟨hstart.visit, g, insns, hg, hd, hfirst, hgraph, tracked_start hd hstart.entry⟩
  | step _ hstep hpasses ih =>
    obtain ⟨g, insns, hg, hd, hfirst, hgraph, ht⟩ := ih.tracked
    exact ⟨ih.visit, g, insns, hg, hd, hfirst, hgraph, (tracked_step hd hfirst ht hstep hpasses).1⟩
  | @call v w i₀ i j saved savedW insn ret _ hcall henters _ hret hback hpasses ihv ihw =>
    obtain ⟨g, insns, hg, hd, hfirst, hgraph, ht⟩ := ihv.tracked
    obtain ⟨_, _, _, _, _, _, htw⟩ := ihw.tracked
    refine ⟨ihv.visit, g, insns, hg, hd, hfirst, hgraph, ?_⟩
    obtain ⟨mode, hrecord, hsuccs⟩ :=
      edge_of_record rt rt.rom hcall.mnem henters (keyOf v.bank saved i) rfl rfl
    -- the callee is back in the widths of its record
    obtain ⟨⟨hm, hx, he, -, -⟩, hruns⟩ := hret.modes htw.runs
    have hmode : ((runOpcode (bridgeBus bus) j).mf, (runOpcode (bridgeBus bus) j).xf) = mode :=
      (Prod.ext hm hx).trans (ihw.returns hfix hret hrecord)
    have hkey : keyOf v.bank saved (runOpcode (bridgeBus bus) j) =
        ⟨Recompiler.addr24 v.bank (nextPc (rt.maps callees) insn v.bank), mode.1, mode.2,
          saved.map widths⟩ := by
      rw [keyOf, hback, ← hmode]
    have hedge : (keyOf v.bank saved (runOpcode (bridgeBus bus) j), EdgeKind.fall) ∈
        labeledSuccessors (rt.maps callees) rt.rom insn (keyOf v.bank saved i) v.bank := by
      rw [hsuccs, hkey]
      exact List.mem_cons_self
    refine (tracked_edge hd ht hcall.read (hcall.decodeOne _) hedge hpasses ?_ ?_
      (he.trans htw.native) hruns).1
    · intro dc _ _ hinsn hsucc
      rcases foldBranch_cases (dedupe insns) dc with hsame | ⟨_, _, _, _, hmnem, -⟩
      · rwa [hsame]
      · rw [hinsn] at hmnem
        rcases hcall.mnem with hm | hm <;> rw [hm] at hmnem <;> exact absurd hmnem (by decide)
    · intro z hz
      rw [immediateLoadZ] at hz
      rcases hcall.mnem with hm | hm <;> rw [hm] at hz <;> split at hz <;> cases hz

/-- **A function returns in the widths of its record**, through whatever calls. -/
theorem exitMap_returns {parsed : List BankCfg} (hconv : converged rt parsed = true) {v : RouteVisit}
    {i₀ i : Interp816 M} {saved : List Byte} {insn : Insn} {mode : Bool × Bool}
    (hrun : CallRun bus rt (routeVisits parsed) (exitMap rt parsed) v i₀ saved i)
    (hret : ReturnsAt bus (rt.decodeInput (exitMap rt parsed) v) i insn)
    (hmode : exitMap rt parsed v.key = some mode) :
    ((runOpcode (bridgeBus bus) i).mf, (runOpcode (bridgeBus bus) i).xf) = mode := by
  have hfix := exitMap_fixed rt parsed hconv
  have ht := callRun_tracked hfix hrun
  obtain ⟨_, _, _, _, _, _, htracked⟩ := ht.tracked
  obtain ⟨⟨hm, hx, -⟩, -⟩ := hret.modes htracked.runs
  exact (Prod.ext hm hx).trans (ht.returns hfix hret hmode)

/-- **Wherever a run comes to through its calls, the graph of its function has the instruction there
in the widths of the processor.** -/
theorem exitMap_tracks {parsed : List BankCfg} (hconv : converged rt parsed = true) {v : RouteVisit}
    {i₀ i : Interp816 M} {saved : List Byte}
    (hrun : CallRun bus rt (routeVisits parsed) (exitMap rt parsed) v i₀ saved i) :
    ∃ g, decodeFunction (rt.decodeInput (exitMap rt parsed) v) = some g ∧
      ∃ di ∈ g.insns, pcmx di.key = (Recompiler.addr24 v.bank i.pc.toNat, i.mf, i.xf) ∧
        ∃ insn, decodeAt rt.rom v.bank i.pc.toNat i.mf i.xf = some insn ∧
          di.insn.unfolded = insn.unfolded := by
  obtain ⟨g, insns, hg, -, -, hgraph, ht⟩ := (callRun_tracked (exitMap_fixed rt parsed hconv) hrun).tracked
  exact ⟨g, hg, graph_of_tracked hg hgraph ht⟩

end Run

/-! ### A function that widens the accumulator of its caller -/

/-- `JSR $8007; LDA #$1234; RTS` and `REP #$20; RTS`. -/
def widenCode : List Byte := [0x20, 0x07, 0x80, 0xA9, 0x34, 0x12, 0x60, 0xC2, 0x20, 0x60]

def widenRoute : RouteInput := ⟨.ofBytes widenCode, fun _ _ _ => .none, fun _ => none⟩

def widenCfg : List BankCfg :=
  [⟨0, [⟨some "Main", 0x8000, none⟩, ⟨some "Widen", 0x8007, none⟩], []⟩]

def mainVisit : RouteVisit := ⟨0, 0x8000, none, true, true⟩

def widenVisit : RouteVisit := ⟨0, 0x8007, none, true, true⟩

def widenBus : Bus (Fin 8 → Byte) := ramBus 0x1FF0 (.ofBytes widenCode)

def widenStart : Interp816 (Fin 8 → Byte) := { atStart (fun _ => 0) true true with sp := 0x1FF7 }

abbrev widenInput (v : RouteVisit) : DecodeInput :=
  widenRoute.decodeInput (exitMap widenRoute widenCfg) v

theorem fetched_widen {v : RouteVisit} {i : Interp816 (Fin 8 → Byte)} {insn : Insn}
    (hread : decodeAt (.ofBytes widenCode) v.bank i.pc.toNat i.mf i.xf = some insn)
    (hbytes : ∀ n < insn.length, widenBus.read8 i.k (i.pc + BitVec.ofNat 16 n) i.mem =
      ((Rom.ofBytes widenCode).byte (loromOffset v.bank i.pc.toNat + n), i.mem)) :
    Fetched widenBus (widenInput v) i insn :=
  ⟨hread, ⟨by rw [BitVec.ofNat_toNat, BitVec.setWidth_eq], hbytes⟩⟩

theorem converged_widen : converged widenRoute widenCfg = true := by decide

theorem entryKept_widen : ∀ v ∈ [mainVisit, widenVisit],
    ∀ g ∈ decodeFunction (widenInput v), EntryKept g := by decide

theorem starts_widen {v : RouteVisit} {i : Interp816 (Fin 8 → Byte)} (hv : v ∈ [mainVisit, widenVisit])
    (hvisit : v ∈ routeVisits widenCfg) (hsome : (decodeFunction (widenInput v)).isSome)
    (hentry : AtEntry (widenInput v) i) :
    Starts widenRoute (routeVisits widenCfg) (exitMap widenRoute widenCfg) v i := by
  obtain ⟨g, hg⟩ := Option.isSome_iff_exists.mp hsome
  exact ⟨hvisit, ⟨g, hg, entryKept_widen v hv g hg⟩, hentry⟩

/-- The run up to the load behind the call. -/
theorem callRun_widen_load : CallRun widenBus widenRoute (routeVisits widenCfg)
    (exitMap widenRoute widenCfg) mainVisit widenStart [] ((runOpcode (bridgeBus widenBus))^[3] widenStart) := by
  have hmain : CallRun widenBus widenRoute (routeVisits widenCfg) (exitMap widenRoute widenCfg)
      mainVisit widenStart [] widenStart :=
    .enter (starts_widen (by decide) (by decide) (by decide)
      ⟨rfl, rfl, rfl, rfl, ⟨rfl, rfl, rfl⟩, by decide⟩)
  have hsub : CallRun widenBus widenRoute (routeVisits widenCfg) (exitMap widenRoute widenCfg)
      widenVisit (runOpcode (bridgeBus widenBus) widenStart) []
      (runOpcode (bridgeBus widenBus) widenStart) :=
    .enter (starts_widen (by decide) (by decide) (by decide)
      ⟨by decide, by decide, by decide, by decide,
        ⟨by decide, by decide, by decide⟩, by decide⟩)
  have hrep : StepsOver widenBus (widenInput widenVisit) [] (runOpcode (bridgeBus widenBus) widenStart)
      ⟨0x8007, 0xC2, .rep, .imm, 0x20, 2, true, true, false, none⟩ [] :=
    ⟨fetched_widen (by decide) (by decide),
      ⟨by decide, fun h => absurd h (by decide), fun h => absurd h (by decide)⟩,
      .other (by decide) (by decide)⟩
  have hcall : CallsOver widenBus (widenInput mainVisit) widenStart
      ⟨0x8000, 0x20, .jsr, .abs, 0x8007, 3, true, true, false, none⟩ :=
    ⟨fetched_widen (by decide) (by decide), .inl ⟨rfl, rfl⟩⟩
  have hret : ReturnsAt widenBus (widenInput widenVisit) ((runOpcode (bridgeBus widenBus))^[2] widenStart)
      ⟨0x8009, 0x60, .rts, .imp, 0, 1, false, true, false, none⟩ :=
    ⟨fetched_widen (by decide) (by decide), .inl rfl⟩
  exact hmain.call hcall ⟨rfl, rfl, by decide⟩
    (hsub.step hrep (passes_of_open rfl rfl (by decide) (by decide))) hret
    (by decide) (passes_of_open rfl rfl (by decide) (by decide))

/-- Behind the call the load is decoded in the wide accumulator that the callee leaves. -/
theorem exitMap_tracks_widen : ∃ g, decodeFunction (widenInput mainVisit) = some g ∧
    ∃ di ∈ g.insns, pcmx di.key = (0x8003, false, true) := by
  obtain ⟨g, hg, di, hdi, hkey, -⟩ := exitMap_tracks converged_widen callRun_widen_load
  have hplace : (Recompiler.addr24 mainVisit.bank
      ((runOpcode (bridgeBus widenBus))^[3] widenStart).pc.toNat,
      ((runOpcode (bridgeBus widenBus))^[3] widenStart).mf,
      ((runOpcode (bridgeBus widenBus))^[3] widenStart).xf) = (0x8003, false, true) := by decide
  exact ⟨g, hg, di, hdi, hkey.trans hplace⟩

/-- The caller returns in the widths of its own record. -/
theorem exitMap_returns_widen : exitMap widenRoute widenCfg mainVisit.key = some (false, true) ∧
    (((runOpcode (bridgeBus widenBus))^[5] widenStart).mf,
      ((runOpcode (bridgeBus widenBus))^[5] widenStart).xf) = (false, true) := by
  have hload : StepsOver widenBus (widenInput mainVisit) []
      ((runOpcode (bridgeBus widenBus))^[3] widenStart)
      ⟨0x8003, 0xA9, .lda, .imm, 0x1234, 3, false, true, false, none⟩ [] :=
    ⟨fetched_widen (by decide) (by decide),
      ⟨by decide, fun h => absurd h (by decide), fun h => absurd h (by decide)⟩,
      .other (by decide) (by decide)⟩
  have hrun := callRun_widen_load.step hload
    (passes_of_open rfl rfl (by decide) (by decide))
  rw [← Function.iterate_succ_apply' (runOpcode (bridgeBus widenBus)) 3 widenStart] at hrun
  have hret : ReturnsAt widenBus (widenInput mainVisit) ((runOpcode (bridgeBus widenBus))^[4] widenStart)
      ⟨0x8006, 0x60, .rts, .imp, 0, 1, false, true, false, none⟩ :=
    ⟨fetched_widen (by decide) (by decide), .inl rfl⟩
  have hmode : exitMap widenRoute widenCfg mainVisit.key = some (false, true) := by decide
  rw [Function.iterate_succ_apply']
  exact ⟨hmode, exitMap_returns converged_widen hrun hret hmode⟩

end SnesRecomp.Tiers
