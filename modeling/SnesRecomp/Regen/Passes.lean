import Mathlib.Data.List.Dedup
import SnesRecomp.Lib.Runs
import SnesRecomp.Lib.Saturate
import SnesRecomp.Recompiler.References

/-!
# The passes of a regeneration

The loop of `v2_regen.py` that emits the banks, drops wrong-width variants and promotes
demanded targets until nothing changes, without a `--banks` filter.  `prunePass` is one
turn of it, on the state the loop keeps: the entries of the banks, the survivor map of
`codegen.py` and the cumulative sets.

A variant stands for its symbol, and an address for its base name; `Names` relates the two.
What a pass takes from elsewhere is a `PassEnv`: the settings of each function, which differ
from pass to pass as exit widths are learned, what the scan before the emit finds, and what is
left over in the set of demands.
-/

namespace SnesRecomp.Regen

open Recompiler

/-! ### Configuration -/

def bankOf (addr : Nat) : Nat := (addr >>> 16) &&& 0xFF

/-- The banks `$00-$3F` and `$80-$BF`, which hold the same bytes. -/
def isMirrored (bank : Nat) : Bool := decide (bank < 0x40 ∨ (0x80 ≤ bank ∧ bank < 0xC0))

/-- The widths of the variants at an address. -/
def widthsAt (vs : List Variant) (addr : Nat) : List (Bool × Bool) :=
  (vs.filter fun v => v.1 = addr).map (·.2)

/-- The bank cfgs when the loop starts: the declared entries, their clones in the other
widths that were discovered, the addresses that only a `name` line names, and the
definitions an earlier run left in the output directory. -/
structure RegenConfig where
  banks : List Nat
  dataRegions : List (Nat × Nat × Nat)
  declared : List Variant
  clones : List Variant
  named : List Nat
  onDisk : List Variant
  entry_ok : ∀ v ∈ declared ++ clones, v.1 < 0x1000000 ∧ bankOf v.1 ∈ banks

namespace RegenConfig

variable (cfg : RegenConfig)

/-- The effective canonical widths of an address. -/
def canonical (addr : Nat) : List (Bool × Bool) :=
  if widthsAt cfg.declared addr = [] then [(true, true)] else widthsAt cfg.declared addr

def inDataRegion (bank pc : Nat) : Bool :=
  cfg.dataRegions.any fun r =>
    decide (r.1 &&& 0xFF = bank ∧ r.2.1 &&& 0xFFFF ≤ pc ∧ pc < r.2.2 &&& 0xFFFF)

/-- The bank a demand goes to: the mirror of one that has no cfg, where that has one. -/
def homeBank (addr : Nat) : Nat :=
  let bank := bankOf addr
  if bank ∉ cfg.banks ∧ isMirrored bank = true ∧ bank ^^^ 0x80 ∈ cfg.banks then bank ^^^ 0x80
  else bank

def home (addr : Nat) : Nat := (cfg.homeBank addr <<< 16) ||| (addr &&& 0xFFFF)

/-- The entry `_autopromote_targets` sees to for a demand. -/
def promotionKey (d : Variant) : Option Variant :=
  if cfg.inDataRegion (cfg.homeBank d.1) (d.1 &&& 0xFFFF) then none
  else if cfg.homeBank d.1 ∈ cfg.banks then some (cfg.home d.1, d.2)
  else none

end RegenConfig

/-! ### State -/

/-- What the loop keeps from pass to pass: the entries of all banks, the addresses in
`name_map`, the survivor map, the cumulative sets and the definitions on disk. -/
structure RegenState where
  entries : List Variant
  names : List Nat
  valid : Nat → Option (List (Bool × Bool))
  dirty : List Variant
  emitted : List Variant
  pruned : List Variant
  disk : List Variant
  converged : Bool

def RegenConfig.initial (cfg : RegenConfig) : RegenState where
  entries := cfg.declared ++ cfg.clones
  names := (cfg.declared ++ cfg.clones).map (·.1) ++ cfg.named
  valid _ := none
  dirty := []
  emitted := []
  pruned := []
  disk := cfg.onDisk
  converged := false

/-- What a pass takes from elsewhere. -/
structure PassEnv where
  input : Variant → DecodeInput
  ctx : Variant → EmitCtx
  discovered : List Variant
  leaked : List Variant

/-- The survivor map of some entries. -/
def survivorMap (entries : List Variant) (addr : Nat) : Option (List (Bool × Bool)) :=
  if widthsAt entries addr = [] then none else some (widthsAt entries addr)

namespace RegenState

variable (s : RegenState)

/-- An address in `_NAME_RESOLVER`, with the aliases at the mirror. -/
def hasName (addr : Nat) : Bool :=
  decide (addr ∈ s.names ∨ (isMirrored (bankOf addr) = true ∧ addr ^^^ 0x800000 ∈ s.names))

/-- The address whose base name the resolver has for a target. -/
def symbolAddr (addr : Nat) : Nat :=
  let a := addr &&& 0xFFFFFF
  if a ∈ s.names then a
  else if isMirrored (bankOf a) = true ∧ a ^^^ 0x800000 ∈ s.names then a ^^^ 0x800000
  else a

def symbol (v : Variant) : Variant := (s.symbolAddr v.1, v.2)

/-- `_apply_variant_prune`. -/
def applyPrune : RegenState :=
  let entries := s.entries.filter (· ∉ s.pruned)
  { s with entries := entries, valid := survivorMap entries }

/-- Some more variants are pruned. -/
def prune (vs : List Variant) : RegenState :=
  if vs = [] then s else { s with pruned := s.pruned ++ vs }.applyPrune

/-- The end of a pass that is not the last: the entries get into `name_map`. -/
def refreshNames : RegenState :=
  { s with names := s.names ++ s.entries.map (·.1), converged := false }

end RegenState

/-! ### Discovery -/

/-- The clones `_discover_variants_from_current_entries` appends. -/
def discover (cfg : RegenConfig) (env : PassEnv) (s : RegenState) : List Variant :=
  env.discovered.filter fun v =>
    decide (bankOf v.1 ∈ cfg.banks ∧ v.1 ∈ s.entries.map (·.1) ∧ v ∉ s.entries ∧ v ∉ s.pruned)

/-- The state the banks are emitted from. -/
def afterDiscovery (cfg : RegenConfig) (env : PassEnv) (s : RegenState) : RegenState :=
  let found := discover cfg env s
  let s' := { s with entries := s.entries ++ found }
  if found ≠ [] ∧ s.pruned ≠ [] then s'.applyPrune else s'

/-! ### Emit -/

/-- A body and whether a stub marker is in it. -/
structure EmittedBody where
  fn : HostFn
  dirty : Bool

section Emit

variable (env : PassEnv) (s : RegenState)

/-- The maps of `codegen.py` while a variant is emitted. -/
def passMaps (v : Variant) : Maps :=
  { (env.ctx v).maps with nameResolver := s.hasName, validVariants := s.valid }

def passCtx (v : Variant) : EmitCtx :=
  { env.ctx v with bank := bankOf v.1, maps := passMaps env s v }

/-- The other entries of the bank, less those within the function's own range. -/
def siblingPcs (v : Variant) (endPc : Option Nat) : List Nat :=
  let start := v.1 &&& 0xFFFF
  let inside (pc : Nat) : Bool :=
    match endPc with
    | none => false
    | some e =>
      let e := e &&& 0xFFFF
      if start ≤ e then decide (start ≤ pc ∧ pc < e) else decide (start ≤ pc ∨ pc < e)
  ((s.entries.filter fun e => bankOf e.1 = bankOf v.1).map (·.1 &&& 0xFFFF)).filter
    fun pc => decide (pc ≠ start) && !inside pc

def passInput (v : Variant) : DecodeInput :=
  { env.input v with
    bank := bankOf v.1
    start := v.1 &&& 0xFFFF
    entryM := v.2.1
    entryX := v.2.2
    siblingEntryPcs := siblingPcs s v (env.input v).endPc }

/-- The sibling a `tail_call` names is an entry of the bank, or `emit_bank` raises. -/
def tailCallOk (v : Variant) : Bool :=
  match (env.ctx v).tailCallPc16 with
  | none => true
  | some pc => s.entries.any fun e => decide (bankOf e.1 = bankOf v.1 ∧ e.1 &&& 0xFFFF = pc &&& 0xFFFF)

/-- An entry as `emit_bank` has it written. -/
def emitVariant (v : Variant) : Option EmittedBody :=
  if tailCallOk env s v then
    (emitFunction (passCtx env s v) (passInput env s v)).map fun F =>
      ⟨F, isDirty (passCtx env s v) (passInput env s v) F⟩
  else none

def emitEntries : List (Variant × Option EmittedBody) := s.entries.map fun v => (v, emitVariant env s v)

end Emit

/-- No entry of the bank raises. -/
def bankOk (emits : List (Variant × Option EmittedBody)) (bank : Nat) : Bool :=
  emits.all fun e => decide (bankOf e.1.1 ≠ bank) || e.2.isSome

/-- The bodies of the banks that are written. -/
def bodies (emits : List (Variant × Option EmittedBody)) : List (Variant × EmittedBody) :=
  emits.filterMap fun e => if bankOk emits (bankOf e.1.1) then e.2.map (e.1, ·) else none

/-! ### Prunes -/

/-- `_compute_prunable`. -/
def computePrunable (cfg : RegenConfig) (dirty emitted protect : List Variant) : List Variant :=
  dirty.filter fun v =>
    decide (v ∉ protect ∧ v.2 ∉ cfg.canonical v.1) &&
      (cfg.canonical v.1).any fun c => decide ((v.1, c) ∈ emitted ∧ (v.1, c) ∉ dirty)

/-- `_scan_variant_refs`, by source. -/
def scanVariantRefs (s : RegenState) (results : List (Variant × EmittedBody)) :
    List (Variant × List Variant) :=
  results.map fun r =>
    (r.1, ((((r.2.fn.blocks.map (·.2)) ++ [r.2.fn.epilogue]).flatMap directRefs).map s.symbol).filter
      (· ≠ r.1))

/-- `_protected_ref_targets`. -/
def protectedRefTargets (cfg : RegenConfig) (refs : List (Variant × List Variant))
    (dirty : List Variant) : List Variant :=
  (refs.filter fun r => decide (r.1.2 ∈ cfg.canonical r.1.1 ∨ r.1 ∉ dirty)).flatMap (·.2)

/-- The sources a round of `_propagate_reference_taint` adds: they name a variant that is
missing from its bank, or a tainted one. -/
def newlyTainted (cfg : RegenConfig) (refs : List (Variant × List Variant))
    (live tainted : List Variant) : List Variant :=
  (refs.filter fun r => decide (r.1 ∉ tainted) &&
    r.2.any fun t => decide ((bankOf t.1 ∈ cfg.banks ∧ t ∉ live) ∨ t ∈ tainted)).map (·.1)

/-- `_propagate_reference_taint`; a round for each source is enough. -/
def propagateReferenceTaint (cfg : RegenConfig) (dirty : List Variant)
    (refs : List (Variant × List Variant)) (emitted pruned : List Variant) : List Variant :=
  saturate (newlyTainted cfg refs (emitted.filter (· ∉ pruned))) refs.length dirty

/-- `next_ref_prunable`. -/
def nextRefPrunable (cfg : RegenConfig) (s : RegenState) (refs : List (Variant × List Variant))
    (emittedNow dropped : List Variant) : List Variant :=
  let tainted := propagateReferenceTaint cfg s.dirty refs emittedNow (s.pruned ++ dropped)
  (computePrunable cfg tainted emittedNow (protectedRefTargets cfg refs s.dirty)).filter fun v =>
    decide (v ∉ s.pruned ∧ v ∉ dropped)

/-- `ref_prunable`; each turn of its loop drops a dirty variant or a source. -/
def refPrunable (cfg : RegenConfig) (s : RegenState) (results : List (Variant × EmittedBody)) :
    List Variant :=
  let refs := scanVariantRefs s results
  saturate (nextRefPrunable cfg s refs (results.map (·.1))) (s.dirty.length + refs.length) []

theorem mem_computePrunable {cfg : RegenConfig} {dirty emitted protect : List Variant} {v : Variant}
    (h : v ∈ computePrunable cfg dirty emitted protect) :
    v ∈ dirty ∧ v.2 ∉ cfg.canonical v.1 ∧ ∃ c ∈ cfg.canonical v.1, (v.1, c) ∈ emitted := by
  obtain ⟨hdirty, h⟩ := List.mem_filter.mp h
  obtain ⟨hcanon, hclean⟩ := Bool.and_eq_true_iff.mp h
  obtain ⟨c, hc, hemit⟩ := List.any_eq_true.mp hclean
  exact ⟨hdirty, (of_decide_eq_true hcanon).2, c, hc, (of_decide_eq_true hemit).1⟩

theorem mem_newlyTainted {cfg : RegenConfig} {refs : List (Variant × List Variant)}
    {live tainted : List Variant} {v : Variant} (h : v ∈ newlyTainted cfg refs live tainted) :
    v ∈ refs.map (·.1) ∧ v ∉ tainted := by
  obtain ⟨r, hr, rfl⟩ := List.mem_map.mp h
  obtain ⟨hmem, hr⟩ := List.mem_filter.mp hr
  exact ⟨List.mem_map.mpr ⟨r, hmem, rfl⟩, of_decide_eq_true (Bool.and_eq_true_iff.mp hr).1⟩

/-- The taint has spread as far as it can. -/
theorem newlyTainted_propagate (cfg : RegenConfig) (dirty : List Variant)
    (refs : List (Variant × List Variant)) (emitted pruned : List Variant) :
    newlyTainted cfg refs (emitted.filter (· ∉ pruned))
      (propagateReferenceTaint cfg dirty refs emitted pruned) = [] := by
  refine saturate_stable _ (fun t v hv => mem_newlyTainted hv) _ _ ?_
  calc missing (refs.map (·.1)) dirty
      ≤ (refs.map (·.1)).length := missing_le _ _
    _ = refs.length := List.length_map _

theorem mem_propagate {cfg : RegenConfig} {dirty : List Variant}
    {refs : List (Variant × List Variant)} {emitted pruned : List Variant} {v : Variant}
    (h : v ∈ propagateReferenceTaint cfg dirty refs emitted pruned) :
    v ∈ dirty ++ refs.map (·.1) :=
  saturate_induct _ (fun _ _ _ ha => List.mem_append_right _ (mem_newlyTainted ha).1) _ _
    (fun _ ha => List.mem_append_left _ ha) v h

theorem mem_nextRefPrunable {cfg : RegenConfig} {s : RegenState}
    {refs : List (Variant × List Variant)} {emittedNow dropped : List Variant} {v : Variant}
    (h : v ∈ nextRefPrunable cfg s refs emittedNow dropped) :
    v ∈ s.dirty ++ refs.map (·.1) ∧ v ∉ dropped ∧ v.2 ∉ cfg.canonical v.1 ∧
      ∃ c ∈ cfg.canonical v.1, (v.1, c) ∈ emittedNow := by
  obtain ⟨hmem, hnew⟩ := List.mem_filter.mp h
  obtain ⟨htainted, hcanon, hclean⟩ := mem_computePrunable hmem
  exact ⟨mem_propagate htainted, (of_decide_eq_true hnew).2, hcanon, hclean⟩

/-- The reference-taint prune drops all it finds. -/
theorem nextRefPrunable_refPrunable (cfg : RegenConfig) (s : RegenState)
    (results : List (Variant × EmittedBody)) :
    nextRefPrunable cfg s (scanVariantRefs s results) (results.map (·.1))
      (refPrunable cfg s results) = [] := by
  refine saturate_stable _ (fun t v hv => ⟨(mem_nextRefPrunable hv).1, (mem_nextRefPrunable hv).2.1⟩)
    _ _ ?_
  calc missing (s.dirty ++ (scanVariantRefs s results).map (·.1)) []
      ≤ (s.dirty ++ (scanVariantRefs s results).map (·.1)).length := missing_le _ _
    _ = s.dirty.length + (scanVariantRefs s results).length := by
      rw [List.length_append, List.length_map]

theorem mem_refPrunable {cfg : RegenConfig} {s : RegenState}
    {results : List (Variant × EmittedBody)} {v : Variant} (h : v ∈ refPrunable cfg s results) :
    v.2 ∉ cfg.canonical v.1 ∧ ∃ c ∈ cfg.canonical v.1, (v.1, c) ∈ results.map (·.1) :=
  saturate_induct _ (p := fun v : Variant =>
      v.2 ∉ cfg.canonical v.1 ∧ ∃ c ∈ cfg.canonical v.1, (v.1, c) ∈ results.map (·.1))
    (fun _ _ _ ha => (mem_nextRefPrunable ha).2.2) _ _ (fun _ ha => absurd ha List.not_mem_nil) v h

/-! ### Promotion -/

/-- `_autopromote_targets`: the entries it adds. -/
def autopromote (cfg : RegenConfig) (demands entries : List Variant) : List Variant :=
  ((demands.filterMap cfg.promotionKey).filter (· ∉ entries)).dedup

/-! ### One pass -/

section Pass

variable (cfg : RegenConfig) (env : PassEnv) (s : RegenState)

def passEmits : List (Variant × Option EmittedBody) := emitEntries env (afterDiscovery cfg env s)

/-- The bodies the pass writes. -/
def passBodies : List (Variant × EmittedBody) := bodies (passEmits cfg env s)

/-- What the bodies of the pass demand, and what was left over. -/
def passDemands : List Variant :=
  (passBodies cfg env s).flatMap (fun r =>
    r.2.fn.acts.flatMap (·.demands (passMaps env (afterDiscovery cfg env s) r.1))) ++ env.leaked

/-- The cumulative sets after the emit. -/
def afterEmit : RegenState :=
  let s' := afterDiscovery cfg env s
  let results := passBodies cfg env s
  { s' with
    dirty := s'.dirty ++ (results.filter (·.2.dirty)).map (·.1)
    emitted := s'.emitted ++ results.map (·.1)
    disk := s'.disk.filter (fun v =>
      decide (bankOf v.1 ∉ cfg.banks) || !bankOk (passEmits cfg env s) (bankOf v.1)) ++
      results.map (·.1) }

/-- `newly_pruned`. -/
def newlyPruned : List Variant :=
  let s' := afterEmit cfg env s
  let refs := scanVariantRefs s' (passBodies cfg env s)
  (computePrunable cfg s'.dirty s'.emitted (protectedRefTargets cfg refs s'.dirty)).filter
    (· ∉ s'.pruned)

/-- The state demands are promoted in. -/
def afterPrune : RegenState := (afterEmit cfg env s).prune (newlyPruned cfg env s)

/-- `unresolved_calls`. -/
def unresolvedCalls : List Variant :=
  (passDemands cfg env s).filter (· ∉ (afterPrune cfg env s).pruned)

/-- `added_entries`. -/
def addedEntries : List Variant :=
  autopromote cfg (unresolvedCalls cfg env s) (afterPrune cfg env s).entries

def afterPromotion : RegenState :=
  { afterPrune cfg env s with entries := (afterPrune cfg env s).entries ++ addedEntries cfg env s }

/-- Nothing was added or pruned, so the pass looks for references that dangle. -/
def isStable : Bool :=
  decide (addedEntries cfg env s = [] ∧ newlyPruned cfg env s = [] ∧ discover cfg env s = [])

/-- The variants the reference-taint prune drops. -/
def droppedRefs : List Variant := refPrunable cfg (afterPromotion cfg env s) (passBodies cfg env s)

/-- One turn of the loop; a stable pass that drops nothing is the last. -/
def prunePass : RegenState :=
  if isStable cfg env s then
    if droppedRefs cfg env s = [] then { afterPromotion cfg env s with converged := true }
    else ((afterPromotion cfg env s).prune (droppedRefs cfg env s)).refreshNames
  else (afterPromotion cfg env s).refreshNames

end Pass

/-- The rows of `dispatch_v2.c`. -/
def dispatchTable (s : RegenState) : List Variant := s.disk.filter (· ∉ s.pruned)

end SnesRecomp.Regen
