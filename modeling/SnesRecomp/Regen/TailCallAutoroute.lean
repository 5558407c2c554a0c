import SnesRecomp.Lib.Bits
import SnesRecomp.Recompiler.ExitModes
import SnesRecomp.Recompiler.Successors
import SnesRecomp.Regen.CfgLoader
import Mathlib.Data.List.MinMax

/-!
# Automatic tail calls

`detect_and_route` of `tail_call_autoroute.py` gives an entry a tail call to the entry that
starts at its end, if the instruction with the highest address ends there and is none of seven
mnemonics. It runs before the inline-argument map is set and hands no cfg table to the decoder.
-/

namespace SnesRecomp.Regen.TailCall

open CfgLoader
open Recompiler hiding BankEntry BankCfg

/-- `_TERMINAL_MNEMS`; the table names a `JML` `JMP`. -/
def isTerminalMnem : Mnem → Bool
  | .rts | .rtl | .rti | .jmp | .bra | .brl => true
  | _ => false

structure FixRecord where
  bank : Nat
  srcPc16 : Nat
  srcName : Token
  dstPc16 : Nat
  dstName : Token
  lastInsnPc16 : Nat
  lastInsnMnem : Mnem
  deriving DecidableEq, Repr

/-- `by_start.get(pc)`: the last named entry that starts there, under its index. -/
def byStart (entries : List BankEntry) (pc : Int) : Option (BankEntry × Nat) :=
  (entries.zipIdx.filter fun p => p.1.name ≠ [] ∧ pc16 p.1.start = pc).getLast?

section Route

variable (rt : RouteInput) (bank : Nat)

/-- `entry.start & 0xFFFF`. -/
def startPc (e : BankEntry) : Nat := (pc16 e.start).toNat

/-- How `detect_and_route` has an entry decoded. -/
def entryInput (e : BankEntry) : DecodeInput where
  rom := rt.rom
  bank := bank
  start := startPc e
  entryM := e.entryM
  entryX := e.entryX
  endPc := e.endPc.map Int.toNat
  siblingEntryPcs := []
  maps := .unknown
  recovery := rt.recovery bank (startPc e) (e.endPc.map Int.toNat)
  maxInsns := 12000

/-- `last_di`: of several instructions at the highest address the first. -/
def lastInsn (g : FunctionGraph) : Option DecodedInsn := g.insns.argmax fun di => di.insn.addr

/-- The instruction ends at the boundary. -/
def EndsAt (di : DecodedInsn) (endPc : Nat) : Prop :=
  (di.insn.addr &&& 0xFFFF) + di.insn.length = endPc

instance (di : DecodedInsn) (endPc : Nat) : Decidable (EndsAt di endPc) :=
  inferInstanceAs (Decidable (_ = _))

/-- The body of the inner loop, for the entry at an index. -/
def detectFix (entries : List BankEntry) (p : BankEntry × Nat) : Option FixRecord :=
  let entry := p.1
  if entry.name = [] ∨ entry.tailCallPc16.isSome then none
  else
    match entry.endPc with
    | none => none
    | some e =>
      let endPc := (pc16 e).toNat
      match byStart entries (pc16 e) with
      | none => none
      | some sibling =>
        if sibling.2 = p.2 then none
        else
          match (decodeFunction (entryInput rt bank entry)).bind lastInsn with
          | none => none
          | some last =>
            if ¬ EndsAt last endPc ∨ isTerminalMnem last.insn.mnem then none
            else some ⟨bank, startPc entry, entry.name, endPc, sibling.1.name,
              last.insn.addr &&& 0xFFFF, last.insn.mnem⟩

/-- `entry.tail_call_pc16 = end_pc`. -/
def routed (entries : List BankEntry) (p : BankEntry × Nat) : BankEntry :=
  match detectFix rt bank entries p with
  | some fix => { p.1 with tailCallPc16 := some (fix.dstPc16 : Int) }
  | none => p.1

def routeBank (entries : List BankEntry) : List BankEntry :=
  entries.zipIdx.map (routed rt bank entries)

def bankFixes (entries : List BankEntry) : List FixRecord :=
  entries.zipIdx.filterMap (detectFix rt bank entries)

end Route

/-- `detect_and_route`: the configurations behind it, and `fixes`. -/
def detectAndRoute (rt : RouteInput) (parsed : List (Nat × List BankEntry)) :
    List (Nat × List BankEntry) × List FixRecord :=
  (parsed.map fun cfg => (cfg.1, routeBank rt cfg.1 cfg.2),
    parsed.flatMap fun cfg => bankFixes rt cfg.1 cfg.2)

/-! ### Falling through -/

/-- The decoder gives the instruction a fall-through edge to the address, and the graph still
has it. -/
structure FallsTo (inp : DecodeInput) (di : DecodedInsn) (pc : Nat) : Prop where
  edge : ∃ insn, decodeAt inp.rom inp.bank (di.key.pc &&& 0xFFFF) di.key.m di.key.x = some insn ∧
    ∃ e ∈ (decodeOne inp di.key insn).edges, e.2 = .fall ∧ e.1.pc &&& 0xFFFF = pc
  kept : ∃ s ∈ di.successors, s.pc &&& 0xFFFF = pc

instance (inp : DecodeInput) (di : DecodedInsn) (pc : Nat) : Decidable (FallsTo inp di pc) :=
  decidable_of_iff
    ((decodeAt inp.rom inp.bank (di.key.pc &&& 0xFFFF) di.key.m di.key.x).any (fun insn =>
      (decodeOne inp di.key insn).edges.any fun e => e.2 = .fall ∧ e.1.pc &&& 0xFFFF = pc) ∧
      ∃ s ∈ di.successors, s.pc &&& 0xFFFF = pc)
    ⟨fun ⟨hedge, hkept⟩ => ⟨by simpa [Option.any_eq_true] using hedge, hkept⟩,
      fun h => ⟨by simpa [Option.any_eq_true] using h.edge, h.kept⟩⟩

/-- The instruction does not run on, though its mnemonic is not in the list. -/
def halts (di : DecodedInsn) : Bool :=
  di.insn.mnem ∈ [.stp, .wai, .brk] || di.insn.constZFoldUnconditional ||
    (di.insn.mnem = .pha && di.dispatch.isSome) ||
    ((di.insn.mnem = .jsr || di.insn.mnem = .jsl) && di.successors.isEmpty)

section Falls

variable {inp : DecodeInput} {key : DecodeKey} {insn : Insn}

/-- Where an instruction runs on to. -/
def nextAddr (insn : Insn) : Nat := ((insn.addr &&& 0xFFFF) + insn.length) % 0x10000

theorem nextPc_unknown (insn : Insn) (bank : Nat) : nextPc .unknown insn bank = nextAddr insn := by
  have hargs : inlineArgBytes .unknown insn bank = 0 := by
    unfold inlineArgBytes
    cases callTarget insn bank with
    | none => rfl
    | some t =>
      have hmirror : getMirrored ExitMaps.unknown.inlineArgMap t = none := by
        unfold getMirrored
        dsimp only [ExitMaps.unknown]
        split <;> rfl
      rw [Option.bind_some, hmirror]
  unfold nextPc nextAddr
  rw [hargs]
  omega

theorem labeledSuccessors_falls (rom : Rom) (key : DecodeKey) (bank : Nat)
    (hterm : isTerminalMnem insn.mnem = false) (hhalt : insn.mnem ∉ [Mnem.stp, .wai, .brk]) :
    ∃ e ∈ labeledSuccessors .unknown rom insn key bank,
      e.2 = .fall ∧ e.1.pc &&& 0xFFFF = nextAddr insn := by
  have hlt : nextAddr insn < 0x10000 := Nat.mod_lt _ (by decide)
  have hcont : isTerminator insn.mnem = false := by
    cases hm : insn.mnem <;> simp_all [isTerminalMnem, isTerminator]
  have hbra : ¬ (insn.mnem = .bra ∨ insn.mnem = .brl) := by
    rintro (hm | hm) <;> rw [hm] at hterm <;> cases hterm
  have hjmp : insn.mnem ≠ .jmp := by
    intro hm
    rw [hm] at hterm
    cases hterm
  unfold labeledSuccessors
  dsimp only
  rw [hcont, if_neg (by decide), if_neg hbra]
  split
  · exact ⟨_, List.mem_cons_self, rfl, addr24_and bank hlt⟩
  · split
    · obtain ⟨mode, hmode⟩ := List.exists_mem_of_ne_nil _ (returnModes_ne_nil .unknown rom insn bank
        (postState insn key.m key.x key.pStack).1 (postState insn key.m key.x key.pStack).2.1)
      refine ⟨_, List.mem_map_of_mem hmode, rfl, ?_⟩
      rw [nextPc_unknown]
      exact addr24_and bank hlt
    · exact ⟨_, List.mem_cons_self, rfl, addr24_and bank hlt⟩

/-- An instruction that does not halt has a fall-through edge behind itself. -/
theorem decodeOne_falls (hmaps : inp.maps = .unknown) (hterm : isTerminalMnem insn.mnem = false)
    (hhalt : insn.mnem ∉ [Mnem.stp, .wai, .brk])
    (hpha : insn.mnem = .pha → (decodeOne inp key insn).insn.dispatch = none)
    (hcall : insn.mnem = .jsr ∨ insn.mnem = .jsl → (decodeOne inp key insn).insn.successors ≠ []) :
    ∃ e ∈ (decodeOne inp key insn).edges, e.2 = .fall ∧ e.1.pc &&& 0xFFFF = nextAddr insn ∧
      e.1 ∈ (decodeOne inp key insn).insn.successors := by
  have hjmp : insn.mnem ≠ .jmp := by
    intro hm
    rw [hm] at hterm
    cases hterm
  obtain ⟨e, he, hfall, hpc⟩ := labeledSuccessors_falls inp.rom key inp.bank hterm hhalt
  rw [← hmaps] at he
  have hedges : ∀ (es : List (DecodeKey × EdgeKind)) (d : Option Dispatch) (runtime : Bool), e ∈ es →
      ∃ e ∈ (Decoded.ofEdges key insn es d runtime).edges, e.2 = .fall ∧
        e.1.pc &&& 0xFFFF = nextAddr insn ∧
        e.1 ∈ (Decoded.ofEdges key insn es d runtime).insn.successors :=
    fun es _ _ hmem => ⟨e, hmem, hfall, hpc, List.mem_map_of_mem hmem⟩
  unfold decodeOne at hpha hcall ⊢
  cases hhelper : if isLongTransfer insn then inp.recovery.helperTable insn else none with
  | some t =>
    have hlong : isLongTransfer insn = true := by
      by_contra hlong
      rw [if_neg hlong] at hhelper
      cases hhelper
    have hjsl : insn.mnem = .jsl := by simpa [isLongTransfer, hjmp] using hlong
    simp only [hhelper] at hcall
    exact absurd rfl (hcall (Or.inr hjsl))
  | none =>
    have hjump : isIndirectJump insn = false := by simp [isIndirectJump, hjmp]
    simp only [hhelper, hjump, Bool.false_eq_true, if_false] at hpha hcall ⊢
    cases hrts : if insn.mnem = .pha then inp.recovery.rtsStack insn else none with
    | some t =>
      have hm : insn.mnem = .pha := by
        by_contra hm
        rw [if_neg hm] at hrts
        cases hrts
      simp only [hrts] at hpha
      cases hpha hm
    | none =>
      simp only [hrts] at hcall ⊢
      by_cases hind : insn.mnem = .jsr ∧ insn.mode = .indirX
      · simp only [if_pos hind] at hcall ⊢
        replace hcall := hcall (Or.inl hind.1)
        unfold decodeIndirectCall at hcall ⊢
        dsimp only at hcall ⊢
        split
        · exact hedges _ _ _ (List.mem_append_left _ he)
        next hnone =>
          rw [hnone] at hcall
          dsimp only at hcall
          split
          · exact hedges _ _ _ (List.mem_append_left _ he)
          next hnone =>
            rw [hnone] at hcall
            dsimp only at hcall
            split
            · exact hedges _ _ _ he
            next hrom =>
              rw [if_neg hrom] at hcall
              exact absurd rfl hcall
      · simp only [if_neg hind]
        exact hedges _ _ _ he

/-- A fall-through edge leads behind the instruction. -/
theorem labeledSuccessors_fall (rom : Rom) (key : DecodeKey) (bank : Nat) {e : DecodeKey × EdgeKind}
    (he : e ∈ labeledSuccessors .unknown rom insn key bank) (hfall : e.2 = .fall) :
    isTerminalMnem insn.mnem = false ∧ e.1.pc &&& 0xFFFF = nextAddr insn := by
  have hlt : nextAddr insn < 0x10000 := Nat.mod_lt _ (by decide)
  unfold labeledSuccessors at he
  dsimp only at he
  split at he
  · cases he
  next hterm =>
    split at he
    · obtain rfl := List.mem_singleton.mp he
      cases hfall
    next hbra =>
      split at he
      next hcond =>
        rcases List.mem_cons.mp he with rfl | he
        · exact ⟨by cases hm : insn.mnem <;> simp_all [isTerminalMnem, isCondBranch],
            addr24_and bank hlt⟩
        · obtain rfl := List.mem_singleton.mp he
          cases hfall
      · split at he
        · split at he
          · obtain rfl := List.mem_singleton.mp he
            cases hfall
          · cases he
        next hjmp =>
          have hgoes : isTerminalMnem insn.mnem = false := by
            cases hm : insn.mnem <;> simp_all [isTerminalMnem, isTerminator]
          split at he
          · obtain ⟨mode, _, rfl⟩ := List.mem_map.mp he
            rw [nextPc_unknown]
            exact ⟨hgoes, addr24_and bank hlt⟩
          · obtain rfl := List.mem_singleton.mp he
            exact ⟨hgoes, addr24_and bank hlt⟩

/-- Only a pointer call falls through to somewhere else. -/
theorem decodeOne_fall (hmaps : inp.maps = .unknown) (hjmp : insn.mnem ≠ .jmp)
    {e : DecodeKey × EdgeKind} (he : e ∈ (decodeOne inp key insn).edges) (hfall : e.2 = .fall) :
    isTerminalMnem insn.mnem = false ∧ e.1.pc &&& 0xFFFF = nextAddr insn := by
  have hback : ∀ e ∈ labeledSuccessors inp.maps inp.rom insn key inp.bank, e.2 = .fall →
      isTerminalMnem insn.mnem = false ∧ e.1.pc &&& 0xFFFF = nextAddr insn := by
    rw [hmaps]
    exact fun e he hfall => labeledSuccessors_fall _ _ _ he hfall
  have hhandlers : ∀ keys : List DecodeKey, e ∉ keys.map (·, EdgeKind.jump) := by
    intro keys hmem
    obtain ⟨k, _, rfl⟩ := List.mem_map.mp hmem
    cases hfall
  have hjump : isIndirectJump insn = false := by simp [isIndirectJump, hjmp]
  unfold decodeOne at he
  cases hhelper : if isLongTransfer insn then inp.recovery.helperTable insn else none with
  | some t =>
    rw [hhelper] at he
    cases he
  | none =>
    simp only [hhelper, hjump, Bool.false_eq_true, if_false] at he
    cases hrts : if insn.mnem = .pha then inp.recovery.rtsStack insn else none with
    | some t =>
      rw [hrts] at he
      exact absurd he (hhandlers _)
    | none =>
      simp only [hrts] at he
      split at he
      · unfold decodeIndirectCall at he
        dsimp only at he
        split at he
        · exact hback e ((List.mem_append.mp he).resolve_right (hhandlers _)) hfall
        · split at he
          · exact hback e ((List.mem_append.mp he).resolve_right (hhandlers _)) hfall
          · split at he
            · exact hback e he hfall
            · cases he
      · exact hback e he hfall

theorem foldBranch_marks (insns : List DecodedInsn) (di : DecodedInsn) :
    foldBranch insns di = di ∨ (foldBranch insns di).insn.constZFoldUnconditional = true := by
  unfold foldBranch
  split
  · split
    · split
      · split
        · exact Or.inr rfl
        · exact Or.inl rfl
      · exact Or.inl rfl
    · exact Or.inl rfl
  · exact Or.inl rfl

/-- An instruction of a graph that does not halt falls through to the byte behind it. -/
theorem fallsTo_next {g : FunctionGraph} (h : decodeFunction inp = some g)
    (hmaps : inp.maps = .unknown) {di : DecodedInsn} (hdi : di ∈ g.insns)
    (hterm : isTerminalMnem di.insn.mnem = false) (hhalts : halts di = false) :
    FallsTo inp di (nextAddr di.insn) := by
  unfold halts at hhalts
  simp only [Bool.or_eq_false_iff, Bool.and_eq_false_iff, decide_eq_false_iff_not] at hhalts
  obtain ⟨⟨⟨hhalt, hfold⟩, hpha⟩, hcall⟩ := hhalts
  obtain ⟨insns, hnodup, hfresh, hgraph⟩ := decodeFunction_eq_some h
  obtain ⟨dj, hdj, rfl⟩ := hgraph di hdi
  have hsame : foldBranch (dedupe insns) dj = dj :=
    (foldBranch_marks (dedupe insns) dj).resolve_right (by rw [hfold]; decide)
  rw [hsame] at hterm hhalt hpha hcall ⊢
  have hlabels := @dedupe_labels inp insns hnodup hfresh dj hdj
  obtain ⟨dk, hdk, extra, rfl, -⟩ := dedupe_merge hnodup hdj
  obtain ⟨insn, hread, hk⟩ := hfresh dk hdk
  dsimp only at hterm hhalt hpha hcall ⊢
  have hinsn : dk.insn = insn :=
    (congrArg DecodedInsn.insn hk).trans (decodeOne_self inp dk.key insn).2
  rw [hinsn] at hterm hhalt hpha hcall ⊢
  obtain ⟨e, he, hfall, hpc, hmem⟩ := @decodeOne_falls inp dk.key insn hmaps hterm hhalt
    (by
      intro hm
      have hnone := hpha.resolve_left (not_not.mpr hm)
      rw [congrArg DecodedInsn.dispatch hk] at hnone
      simpa using hnone)
    (by
      intro hm hnil
      obtain ⟨more, heq, hsub⟩ := @hlabels insn hread (by rcases hm with hm | hm <;> rw [hm] <;> decide)
      have hempty : decodedLabels inp dk.key insn = [] := by rw [decodedLabels, hnil]; rfl
      rw [hempty] at heq hsub
      rw [List.eq_nil_of_subset_nil hsub, List.append_nil, List.map_eq_nil_iff] at heq
      dsimp only at heq
      rw [heq] at hcall
      rcases hm with hm | hm <;> simp [hm] at hcall)
  rw [← congrArg DecodedInsn.successors hk] at hmem
  refine ⟨⟨insn, hread, e, he, hfall, hpc⟩, remap insns e.1, List.mem_append_left _
    (List.mem_map_of_mem hmem), ?_⟩
  have hpcmx : (remap insns e.1).pc = e.1.pc := congrArg Prod.fst (pcmx_remap insns e.1)
  rw [hpcmx]
  exact hpc

end Falls

/-! ### Which entries are routed -/

section Exact

variable (rt : RouteInput) (bank : Nat)

/-- A named entry without a tail call whose end is where another named entry starts. -/
structure AtSibling (entries : List BankEntry) (i : Nat) (entry : BankEntry) (endRaw : Int) : Prop where
  listed : entries[i]? = some entry
  named : entry.name ≠ []
  unrouted : entry.tailCallPc16 = none
  ended : entry.endPc = some endRaw
  sibling : ∃ j other, j ≠ i ∧ entries[j]? = some other ∧ other.name ≠ [] ∧
    pc16 other.start = pc16 endRaw

/-- The instruction lies in the entry's range and falls through to the end of it. -/
structure RunsOff (entry : BankEntry) (endRaw : Int) (di : DecodedInsn) : Prop where
  above : startPc entry ≤ di.insn.addr &&& 0xFFFF
  below : di.insn.addr &&& 0xFFFF < (pc16 endRaw).toNat
  falls : FallsTo (entryInput rt bank entry) di (pc16 endRaw).toNat

instance (entry : BankEntry) (endRaw : Int) (di : DecodedInsn) :
    Decidable (RunsOff rt bank entry endRaw di) :=
  decidable_of_iff
    (startPc entry ≤ di.insn.addr &&& 0xFFFF ∧ di.insn.addr &&& 0xFFFF < (pc16 endRaw).toNat ∧
      FallsTo (entryInput rt bank entry) di (pc16 endRaw).toNat)
    ⟨fun ⟨habove, hbelow, hfalls⟩ => ⟨habove, hbelow, hfalls⟩,
      fun h => ⟨h.above, h.below, h.falls⟩⟩

/-- Some instruction that the entry reaches runs off its end. -/
def CanRunOff (entry : BankEntry) (endRaw : Int) : Prop :=
  ∃ g, decodeFunction (entryInput rt bank entry) = some g ∧
    ∃ di ∈ g.insns, RunsOff rt bank entry endRaw di

/-- The entry is given the tail call exactly if it can run off its end. -/
def RoutedExactly (entries : List BankEntry) (i : Nat) (entry : BankEntry) (endRaw : Int) : Prop :=
  (∃ e, (routeBank rt bank entries)[i]? = some e ∧ e.tailCallPc16 = some (pc16 endRaw)) ↔
    CanRunOff rt bank entry endRaw

/-- What the highest instruction must tell of the others. -/
structure LastDecides (entry : BankEntry) (endRaw : Int) (g : FunctionGraph) (last : DecodedInsn) :
    Prop where
  /-- Where an instruction runs off, no other block lies at or behind the boundary. -/
  inside : ∀ di ∈ g.insns, RunsOff rt bank entry endRaw di →
    last.insn.addr &&& 0xFFFF < (pc16 endRaw).toNat
  /-- In front of it, code that overlaps the instruction, or lies behind a pointer call that returns
  to the boundary, ends there and is not listed. -/
  overlap : ∀ di ∈ g.insns, RunsOff rt bank entry endRaw di → last ≠ di ∨ di.insn.mnem = .jmp →
    last.insn.addr &&& 0xFFFF < (pc16 endRaw).toNat →
    EndsAt last (pc16 endRaw).toNat ∧ isTerminalMnem last.insn.mnem = false
  /-- Where the highest one ends there and halts without being listed, another runs off. -/
  halted : EndsAt last (pc16 endRaw).toNat → isTerminalMnem last.insn.mnem = false →
    halts last = true → ∃ di ∈ g.insns, RunsOff rt bank entry endRaw di

variable {rt bank}

theorem pc16_nonneg (n : Int) : 0 ≤ pc16 n := Int.emod_nonneg n (by decide)

theorem pc16_lt (n : Int) : (pc16 n).toNat < 0x10000 := by
  have h : pc16 n < 0x10000 := Int.emod_lt_of_pos n (by decide)
  have := pc16_nonneg n
  omega

theorem addr_eq {inp : DecodeInput} {g : FunctionGraph} (h : decodeFunction inp = some g)
    {di : DecodedInsn} (hdi : di ∈ g.insns) :
    di.insn.addr = (inp.bank <<< 16) ||| (di.key.pc &&& 0xFFFF) ∧ 0 < di.insn.length := by
  obtain ⟨insn, hdec⟩ := decodedAt_of_decodeFunction h di hdi
  have hread := hdec.read
  have hsame : di.insn.unfolded.addr = insn.unfolded.addr := congrArg Insn.addr hdec.same
  have haddr : di.insn.addr = insn.addr := hsame
  unfold decodeAt at hread
  split at hread
  · cases hread
  · exact ⟨haddr.trans (addr_of_decodeInsn hread), hdec.length ▸ length_pos_of_decodeInsn hread⟩

theorem addr_low {inp : DecodeInput} {g : FunctionGraph} (h : decodeFunction inp = some g)
    {di : DecodedInsn} (hdi : di ∈ g.insns) :
    di.insn.addr = inp.bank * 0x10000 + (di.insn.addr &&& 0xFFFF) ∧
      di.insn.addr &&& 0xFFFF = di.key.pc &&& 0xFFFF := by
  obtain ⟨haddr, -⟩ := addr_eq h hdi
  have hlt : di.key.pc &&& 0xFFFF < 2 ^ 16 := by
    rw [Bits.and_0xFFFF]
    omega
  rw [haddr, Bits.shiftLeft_or_eq_add hlt, Bits.and_0xFFFF (inp.bank * 2 ^ 16 + _)]
  omega

/-- No instruction is above the highest one, and the entry is not. -/
theorem startPc_le_last {entry : BankEntry} {g : FunctionGraph}
    (h : decodeFunction (entryInput rt bank entry) = some g) {last : DecodedInsn}
    (hlast : lastInsn g = some last) : startPc entry ≤ last.insn.addr &&& 0xFFFF := by
  have hmem : last ∈ g.insns := List.argmax_mem hlast
  obtain ⟨first, hfirst, hkey⟩ := outOf_isSome_iff.mp (g.reached last hmem).root_isSome
  have hentry : g.entry.pc = addr24 bank (startPc entry) := by
    unfold decodeFunction at h
    split at h
    · obtain rfl := Option.some.inj h
      exact congrArg Prod.fst (pcmx_remap _ (entryKey (entryInput rt bank entry)))
    · cases h
  have hstart : first.insn.addr &&& 0xFFFF = startPc entry := by
    rw [(addr_low h hfirst).2, hkey, hentry]
    exact addr24_and bank (pc16_lt entry.start)
  have hle := List.le_of_mem_argmax hfirst hlast
  rw [(addr_low h hfirst).1, (addr_low h hmem).1, hstart] at hle
  omega

/-- An instruction that runs off ends at the boundary. -/
theorem RunsOff.endsAt {entry : BankEntry} {endRaw : Int} {g : FunctionGraph}
    (h : decodeFunction (entryInput rt bank entry) = some g) {di : DecodedInsn} (hdi : di ∈ g.insns)
    (hoff : RunsOff rt bank entry endRaw di) (hjmp : di.insn.mnem ≠ .jmp) :
    EndsAt di (pc16 endRaw).toNat ∧ isTerminalMnem di.insn.mnem = false := by
  obtain ⟨insn, hread, e, he, hfall, hpc⟩ := hoff.falls.edge
  obtain ⟨insn', hdec⟩ := decodedAt_of_decodeFunction h di hdi
  obtain rfl := Option.some.inj (hread.symm.trans hdec.read)
  have hsame : di.insn.unfolded.addr = insn.unfolded.addr := congrArg Insn.addr hdec.same
  have haddr : di.insn.addr = insn.addr := hsame
  rw [hdec.mnem] at hjmp ⊢
  obtain ⟨hterm, hnext⟩ := decodeOne_fall rfl hjmp he hfall
  have hlen : insn.length ≤ 4 := by
    unfold decodeAt at hread
    split at hread
    · cases hread
    · exact length_le_of_decodeInsn hread
  have hbelow := hoff.below
  rw [hpc, nextAddr, ← haddr] at hnext
  have hlt := pc16_lt endRaw
  refine ⟨?_, hterm⟩
  unfold EndsAt
  rw [hdec.length]
  omega

theorem byStart_isSome {entries : List BankEntry} {j : Nat} {other : BankEntry} {pc : Int}
    (hj : entries[j]? = some other) (hname : other.name ≠ []) (hpc : pc16 other.start = pc) :
    ∃ sibling, byStart entries pc = some sibling := by
  have hmem : (other, j) ∈ entries.zipIdx.filter fun p => p.1.name ≠ [] ∧ pc16 p.1.start = pc := by
    refine List.mem_filter.mpr ⟨List.mem_zipIdx_iff_getElem?.mpr (by simpa using hj), ?_⟩
    exact decide_eq_true ⟨hname, hpc⟩
  unfold byStart
  cases hlast : (entries.zipIdx.filter fun p => p.1.name ≠ [] ∧ pc16 p.1.start = pc).getLast? with
  | none => rw [List.getLast?_eq_none_iff.mp hlast] at hmem; cases hmem
  | some sibling => exact ⟨sibling, rfl⟩

theorem byStart_spec {entries : List BankEntry} {pc : Int} {sibling : BankEntry × Nat}
    (h : byStart entries pc = some sibling) :
    entries[sibling.2]? = some sibling.1 ∧ pc16 sibling.1.start = pc := by
  obtain ⟨hmem, hdec⟩ := List.mem_filter.mp (List.mem_of_getLast? h)
  exact ⟨by simpa using List.mem_zipIdx_iff_getElem?.mp hmem, (of_decide_eq_true hdec).2⟩

theorem getElem?_routeBank {entries : List BankEntry} {i : Nat} {entry : BankEntry}
    (h : entries[i]? = some entry) :
    (routeBank rt bank entries)[i]? = some (routed rt bank entries (entry, i)) := by
  rw [routeBank, List.getElem?_map, List.getElem?_zipIdx, h]
  simp

theorem routed_eq {entries : List BankEntry} {p : BankEntry × Nat} (hopen : p.1.tailCallPc16 = none)
    {pc : Int} (h : ∀ fix, detectFix rt bank entries p = some fix → (fix.dstPc16 : Int) = pc) :
    (routed rt bank entries p).tailCallPc16 = some pc ↔ (detectFix rt bank entries p).isSome := by
  unfold routed
  cases hfix : detectFix rt bank entries p with
  | none => simp [hopen]
  | some fix => simp [h fix hfix]

/-- An instruction of the entry's graph that ends at the boundary is not below its start. -/
theorem fix_isSome_iff {entries : List BankEntry} {i : Nat} {entry : BankEntry} {endRaw : Int}
    (hat : AtSibling entries i entry endRaw) :
    (detectFix rt bank entries (entry, i)).isSome ↔
      ∃ g last, decodeFunction (entryInput rt bank entry) = some g ∧ lastInsn g = some last ∧
        EndsAt last (pc16 endRaw).toNat ∧ isTerminalMnem last.insn.mnem = false := by
  obtain ⟨j, other, -, hj, hname, hpc⟩ := hat.sibling
  obtain ⟨sibling, hsib⟩ := byStart_isSome hj hname hpc
  have hopen : ¬ (entry.name = [] ∨ entry.tailCallPc16.isSome = true) := by
    rw [hat.unrouted]
    simp [hat.named]
  unfold detectFix
  dsimp only
  rw [if_neg hopen, hat.ended]
  dsimp only
  rw [hsib]
  dsimp only
  cases hdec : decodeFunction (entryInput rt bank entry) with
  | none => by_cases hi : sibling.2 = i <;> simp [hi]
  | some g =>
    cases hlast : lastInsn g with
    | none => by_cases hi : sibling.2 = i <;> simp [hi, hlast]
    | some last =>
      have hother : EndsAt last (pc16 endRaw).toNat → sibling.2 ≠ i := by
        rintro hends rfl
        obtain ⟨hget, hstart⟩ := byStart_spec hsib
        have hself : sibling.1 = entry := Option.some.inj (hget.symm.trans hat.listed)
        have hle := startPc_le_last hdec hlast
        have hpos := (addr_eq hdec (List.argmax_mem hlast)).2
        rw [startPc, ← hself, hstart] at hle
        unfold EndsAt at hends
        omega
      by_cases hends : EndsAt last (pc16 endRaw).toNat
      · have hi := hother hends
        cases hterm : isTerminalMnem last.insn.mnem <;> simp [hi, hlast, hends, hterm]
      · by_cases hi : sibling.2 = i <;> simp [hi, hlast, hends]

theorem dstPc16_of_fix {entries : List BankEntry} {i : Nat} {entry : BankEntry} {endRaw : Int}
    (hat : AtSibling entries i entry endRaw) {fix : FixRecord}
    (h : detectFix rt bank entries (entry, i) = some fix) : (fix.dstPc16 : Int) = pc16 endRaw := by
  have hnonneg := pc16_nonneg endRaw
  unfold detectFix at h
  dsimp only at h
  split at h
  · cases h
  · rw [hat.ended] at h
    dsimp only at h
    split at h
    · cases h
    · split at h
      · cases h
      · split at h
        · cases h
        · split at h
          · cases h
          · obtain rfl := Option.some.inj h
            exact Int.toNat_of_nonneg hnonneg

/-- The entry is routed exactly if the highest instruction of its graph decides for the others. -/
theorem routedExactly_iff {entries : List BankEntry} {i : Nat} {entry : BankEntry} {endRaw : Int}
    (hat : AtSibling entries i entry endRaw) :
    RoutedExactly rt bank entries i entry endRaw ↔
      ∀ g last, decodeFunction (entryInput rt bank entry) = some g → lastInsn g = some last →
        LastDecides rt bank entry endRaw g last := by
  have hrouted : (∃ e, (routeBank rt bank entries)[i]? = some e ∧
      e.tailCallPc16 = some (pc16 endRaw)) ↔
      (detectFix rt bank entries (entry, i)).isSome := by
    rw [getElem?_routeBank hat.listed, ← routed_eq hat.unrouted fun fix => dstPc16_of_fix hat]
    simp
  rw [RoutedExactly, hrouted, fix_isSome_iff hat]
  constructor
  · intro hexact g last hg hlast
    have hfound : ∀ di ∈ g.insns, RunsOff rt bank entry endRaw di →
        EndsAt last (pc16 endRaw).toNat ∧ isTerminalMnem last.insn.mnem = false := by
      intro di hdi hoff
      obtain ⟨g', last', hg', hlast', hends⟩ := hexact.mpr ⟨g, hg, di, hdi, hoff⟩
      obtain rfl := Option.some.inj (hg.symm.trans hg')
      obtain rfl := Option.some.inj (hlast.symm.trans hlast')
      exact hends
    refine ⟨fun di hdi hoff => ?_, fun di hdi hoff _ _ => hfound di hdi hoff, ?_⟩
    · have hends := (hfound di hdi hoff).1
      have hpos := (addr_eq hg (List.argmax_mem hlast)).2
      unfold EndsAt at hends
      omega
    · intro hends hterm _
      obtain ⟨g', hg', hoff⟩ := hexact.mp ⟨g, last, hg, hlast, hends, hterm⟩
      obtain rfl := Option.some.inj (hg.symm.trans hg')
      exact hoff
  · intro hdecides
    constructor
    · rintro ⟨g, last, hg, hlast, hends, hterm⟩
      refine ⟨g, hg, ?_⟩
      cases hhalts : halts last with
      | true => exact (hdecides g last hg hlast).halted hends hterm hhalts
      | false =>
        have hmem : last ∈ g.insns := List.argmax_mem hlast
        have hpos := (addr_eq hg hmem).2
        have hfalls := fallsTo_next hg rfl hmem hterm hhalts
        have hnext : nextAddr last.insn = (pc16 endRaw).toNat := by
          unfold nextAddr
          rw [hends]
          exact Nat.mod_eq_of_lt (pc16_lt endRaw)
        unfold EndsAt at hends
        exact ⟨last, hmem, startPc_le_last hg hlast, by omega, hnext ▸ hfalls⟩
    · rintro ⟨g, hg, di, hdi, hoff⟩
      cases hlast : lastInsn g with
      | none =>
        rw [List.argmax_eq_none.mp hlast] at hdi
        cases hdi
      | some last =>
        have hdec := hdecides g last hg hlast
        by_cases hother : last ≠ di ∨ di.insn.mnem = .jmp
        · obtain ⟨hends, hterm⟩ := hdec.overlap di hdi hoff hother (hdec.inside di hdi hoff)
          exact ⟨g, last, hg, hlast, hends, hterm⟩
        · rw [not_or, not_not] at hother
          obtain ⟨rfl, hjmp⟩ := hother
          obtain ⟨hends, hterm⟩ := hoff.endsAt hg hdi hjmp
          exact ⟨g, last, hg, hlast, hends, hterm⟩

end Exact

/-! ### A block behind the end -/

section Imported

/-- `BNE $8007; INX` up to the end at `$8003`, with an `RTS` at both targets. -/
def importedRom : RouteInput where
  rom := .ofBytes [0xD0, 0x05, 0xE8, 0x60, 0x00, 0x00, 0x00, 0x60]
  recovery _ _ _ := .none
  inlineArgMap _ := none

def importedEntry : BankEntry := { name := "Preamble".toList, start := 0x8000, endPc := some 0x8003 }

def importedEntries : List BankEntry :=
  [importedEntry, { name := "Body".toList, start := 0x8003 }]

theorem importedEntry_atSibling : AtSibling importedEntries 0 importedEntry 0x8003 where
  listed := rfl
  named := by decide
  unrouted := rfl
  ended := rfl
  sibling := ⟨1, _, by decide, rfl, by decide, by decide⟩

/-- The highest instruction is the `RTS` at `$8007`, but the `INX` runs off the end. -/
theorem not_routedExactly_imported :
    AtSibling importedEntries 0 importedEntry 0x8003 ∧
      ¬ RoutedExactly importedRom 0 importedEntries 0 importedEntry 0x8003 := by
  refine ⟨importedEntry_atSibling, fun hexact => ?_⟩
  have hunrouted : routeBank importedRom 0 importedEntries = importedEntries := by decide
  have hoff : (decodeFunction (entryInput importedRom 0 importedEntry)).any fun g =>
      g.insns.any fun di => RunsOff importedRom 0 importedEntry 0x8003 di := by decide
  cases hg : decodeFunction (entryInput importedRom 0 importedEntry) with
  | none => rw [hg] at hoff; cases hoff
  | some g =>
    rw [hg] at hoff
    obtain ⟨di, hdi, hdec⟩ := List.any_eq_true.mp hoff
    obtain ⟨e, he, hcall⟩ := hexact.mpr ⟨g, hg, di, hdi, of_decide_eq_true hdec⟩
    rw [hunrouted] at he
    obtain rfl := Option.some.inj he
    cases hcall

/-- The theorem at that entry. -/
theorem routedExactly_iff_imported :
    RoutedExactly importedRom 0 importedEntries 0 importedEntry 0x8003 ↔
      ∀ g last, decodeFunction (entryInput importedRom 0 importedEntry) = some g →
        lastInsn g = some last → LastDecides importedRom 0 importedEntry 0x8003 g last :=
  routedExactly_iff importedEntry_atSibling

end Imported

end SnesRecomp.Regen.TailCall
