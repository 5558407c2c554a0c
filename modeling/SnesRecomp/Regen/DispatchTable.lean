import SnesRecomp.Lib.Search
import SnesRecomp.Regen.WrapperAutoroute
import SnesRecomp.Runtime.Dispatch
import Mathlib.Data.Finset.Sort

/-!
# The table of the address dispatch

`_emit_dispatch_table` of `v2_regen.py` scans the definitions in the generated sources, takes
the address of each from its name, and writes a row for every address.  The symbols of a row are
made again from the address, with the last name that the configuration has for it, where the scan
goes from a name to the first address that it has.  `dispatchRight_iff` says for which definitions
the lookups of the runtime find exactly the bodies that are there.
-/

namespace SnesRecomp.Regen.DispatchTable

open CfgLoader Wrapper

/-! ### The source -/

/-- The base name of a definition and its two widths. -/
abbrev Symbol := Token × Bool × Bool

/-- `_SYNTHETIC_BASE_RE`. -/
def syntheticBase : Token → Option Nat
  | ['b', 'a', 'n', 'k', '_', a, b, '_', c, d, e, f] => do
    let a ← hexVal a
    let b ← hexVal b
    let c ← hexVal c
    let d ← hexVal d
    let e ← hexVal e
    let f ← hexVal f
    return (a * 16 + b) * 0x10000 + (((c * 16 + d) * 16 + e) * 16 + f)
  | _ => none

/-- `_variant_base_pc24` with the map of `_build_name_to_pc24`. -/
def variantBasePc24 (parsed : Parsed) (name : Token) : Option Nat :=
  match syntheticBase name with
  | some pc24 => some pc24
  | none => nameToFuncPc parsed name

/-- `name_for_pc24`: the last declaration goes over the others. -/
def nameForPc24 (parsed : Parsed) (pc24 : Nat) : Option Token :=
  ((funcDecls parsed).reverse.find? fun d => d.2 = pc24).map (·.1)

/-- `_disp_name`. -/
def dispName (parsed : Parsed) (pc24 : Nat) : Token :=
  (nameForPc24 parsed pc24).getD
    ("bank_".toList ++ hexUpper 2 (pc24 / 0x10000 % 256) ++ ['_'] ++ hexUpper 4 (pc24 % 0x10000))

/-- What the table is made from: the configuration, the definitions in the generated sources in
the order of the scan, and the variants pruned so far. -/
structure Sources where
  parsed : Parsed
  defs : List Symbol
  cumulativePruned : List (Nat × Bool × Bool)

/-- `disp_variants`, with the pruned ones discarded. -/
def dispVariants (src : Sources) : List (Nat × Bool × Bool) :=
  (src.defs.filterMap fun d => (variantBasePc24 src.parsed d.1).map fun pc24 => (pc24, d.2)).filter
    fun v => v ∉ src.cumulativePruned

/-- `DispatchEntry`, its variants by the two widths. -/
structure DispatchEntry where
  pc24 : Nat
  variant : Bool → Bool → Option Symbol

def sentinel : DispatchEntry := ⟨0xFFFFFF, fun _ _ => none⟩

/-- The row of an address. -/
def dispatchRow (src : Sources) (pc24 : Nat) : DispatchEntry where
  pc24 := pc24
  variant m x :=
    if (pc24, m, x) ∈ dispVariants src then some (dispName src.parsed pc24, m, x) else none

/-- `sorted_pc24s`. -/
def sortedPc24s (src : Sources) : List Nat := ((dispVariants src).map (·.1)).toFinset.sort (· ≤ ·)

/-- `_emit_dispatch_table`. -/
def emitDispatchTable (src : Sources) : List DispatchEntry :=
  if sortedPc24s src = [] then [sentinel] else (sortedPc24s src).map (dispatchRow src)

/-- `_cpu_dispatch_lookup`. -/
def lookupSymbol (table : List DispatchEntry) (pc24 : Nat) (m x : Bool) : Option Symbol :=
  (Search.search DispatchEntry.pc24 table pc24 0 table.length).bind fun e => e.variant m x

/-- The linked table. -/
def linkTable {M : Type} (link : Symbol → Compiled M) (table : List DispatchEntry) :
    DispatchTable M :=
  fun pc24 m x => (lookupSymbol table pc24.toNat m x).map link

/-- The symbol that the dispatchers enter: the mirror is tried after a miss. -/
def dispatchSymbol (table : List DispatchEntry) (m x : Bool) (pc24 : BitVec 32) : Option Symbol :=
  let pc24 := pc24 &&& 0xFFFFFF
  match lookupSymbol table pc24.toNat m x with
  | some s => some s
  | none =>
    if hasMirror pc24 then lookupSymbol table (pc24 ^^^ 0x800000).toNat m x else none

/-! ### Rows -/

section
variable {src : Sources}

theorem mem_dispVariants {pc24 : Nat} {mx : Bool × Bool} :
    (pc24, mx) ∈ dispVariants src ↔
      (∃ name, (name, mx) ∈ src.defs ∧ variantBasePc24 src.parsed name = some pc24) ∧
        (pc24, mx) ∉ src.cumulativePruned := by
  rw [dispVariants, List.mem_filter, decide_eq_true_iff, List.mem_filterMap]
  constructor
  · rintro ⟨⟨⟨name, mx'⟩, hdef, hbase⟩, hkept⟩
    obtain ⟨pc, hpc, heq⟩ := Option.map_eq_some_iff.mp hbase
    cases heq
    exact ⟨⟨name, hdef, hpc⟩, hkept⟩
  · rintro ⟨⟨name, hdef, hbase⟩, hkept⟩
    exact ⟨⟨(name, mx), hdef, by rw [hbase]; rfl⟩, hkept⟩

theorem mem_sortedPc24s {pc24 : Nat} :
    pc24 ∈ sortedPc24s src ↔ ∃ mx, (pc24, mx) ∈ dispVariants src := by
  rw [sortedPc24s, Finset.mem_sort, List.mem_toFinset, List.mem_map]
  constructor
  · rintro ⟨⟨pc, mx⟩, hmem, rfl⟩
    exact ⟨mx, hmem⟩
  · rintro ⟨mx, hmem⟩
    exact ⟨(pc24, mx), hmem, rfl⟩

/-- The rows are strictly increasing, the sentinel included. -/
theorem emitDispatchTable_sorted (src : Sources) :
    ((emitDispatchTable src).map DispatchEntry.pc24).Pairwise (· < ·) := by
  rw [emitDispatchTable]
  split
  · exact List.pairwise_singleton _ _
  · rw [List.map_map]
    have hid : (sortedPc24s src).map (DispatchEntry.pc24 ∘ dispatchRow src) = sortedPc24s src :=
      List.map_id _
    rw [hid, sortedPc24s]
    exact (Finset.sortedLT_sort _).pairwise

/-- A row of the table. -/
theorem mem_emitDispatchTable {e : DispatchEntry} (he : e ∈ emitDispatchTable src) :
    e = sentinel ∨ ∃ pc24 ∈ sortedPc24s src, e = dispatchRow src pc24 := by
  rw [emitDispatchTable] at he
  split at he
  · exact .inl (List.mem_singleton.mp he)
  · obtain ⟨pc24, hmem, rfl⟩ := List.mem_map.mp he
    exact .inr ⟨pc24, hmem, rfl⟩

/-- What the lookup finds for an address. -/
theorem lookupSymbol_emitDispatchTable (src : Sources) (pc24 : Nat) (m x : Bool) :
    lookupSymbol (emitDispatchTable src) pc24 m x =
      if (pc24, m, x) ∈ dispVariants src then some (dispName src.parsed pc24, m, x) else none := by
  have hsearch := Search.search_eq_some_iff (emitDispatchTable_sorted src) pc24 0
    (le_refl (emitDispatchTable src).length)
  rw [lookupSymbol]
  by_cases hmem : (pc24, m, x) ∈ dispVariants src
  · have hpc : pc24 ∈ sortedPc24s src := mem_sortedPc24s.mpr ⟨(m, x), hmem⟩
    have hrow : dispatchRow src pc24 ∈ emitDispatchTable src := by
      rw [emitDispatchTable, if_neg (List.ne_nil_of_mem hpc)]
      exact List.mem_map.mpr ⟨pc24, hpc, rfl⟩
    obtain ⟨i, hi, hget⟩ := List.mem_iff_getElem.mp hrow
    have hfound := (hsearch (dispatchRow src pc24)).mpr
      ⟨i, Nat.zero_le i, hi, List.getElem?_eq_some_iff.mpr ⟨hi, hget⟩, rfl⟩
    rw [hfound, Option.bind_some, if_pos hmem]
    exact if_pos hmem
  · rw [if_neg hmem]
    cases hrun : Search.search DispatchEntry.pc24 (emitDispatchTable src) pc24 0
        (emitDispatchTable src).length with
    | none => rfl
    | some e =>
        obtain ⟨i, _, _, hget, hkey⟩ := (hsearch e).mp hrun
        rw [Option.bind_some]
        rcases mem_emitDispatchTable (List.mem_of_getElem? hget) with rfl | ⟨pc, _, rfl⟩
        · rfl
        · have hpc : pc = pc24 := hkey
          rw [hpc]
          exact if_neg hmem

end

/-! ### The dispatchers -/

theorem cpuDispatchFind_linkTable {M : Type} (link : Symbol → Compiled M)
    (table : List DispatchEntry) (cpu : CpuState) (pc24 : BitVec 32) :
    cpuDispatchFind (linkTable link table) cpu pc24 =
      (dispatchSymbol table cpu.mFlag cpu.xFlag pc24).map link := by
  rw [cpuDispatchFind, dispatchSymbol]
  simp only [cpuDispatchLookup, linkTable]
  cases lookupSymbol table (pc24 &&& 0xFFFFFF).toNat cpu.mFlag cpu.xFlag with
  | some s => rfl
  | none =>
      simp only [Option.map_none]
      split <;> rfl

theorem cpuDispatchHasEntry_linkTable {M : Type} (link : Symbol → Compiled M)
    (table : List DispatchEntry) (cpu : CpuState) (pc24 : BitVec 32) :
    cpuDispatchHasEntry (linkTable link table) cpu pc24 =
      (dispatchSymbol table cpu.mFlag cpu.xFlag pc24).isSome := by
  rw [cpuDispatchHasEntry, cpuDispatchFind_linkTable, Option.isSome_map]

/-- The body of a symbol is defined, in this mode and with this entry address. -/
def BodyAt (src : Sources) (pc24 : Nat) (m x : Bool) (s : Symbol) : Prop :=
  s ∈ src.defs ∧ s.2 = (m, x) ∧ variantBasePc24 src.parsed s.1 = some pc24

/-- What a dispatch to `pc24` has to enter: a body there, else one at the mirror, and nothing
only when there is neither. -/
def FindsBody (src : Sources) (m x : Bool) (pc24 : BitVec 32) : Option Symbol → Prop
  | some s => BodyAt src pc24.toNat m x s ∨
      (∀ s', ¬BodyAt src pc24.toNat m x s') ∧ hasMirror pc24 = true ∧
        BodyAt src (pc24 ^^^ 0x800000).toNat m x s
  | none => (∀ s, ¬BodyAt src pc24.toNat m x s) ∧
      (hasMirror pc24 = true → ∀ s, ¬BodyAt src (pc24 ^^^ 0x800000).toNat m x s)

/-- The table is in order and names defined symbols, and the dispatchers find the bodies. -/
structure DispatchRight (src : Sources) : Prop where
  increasing : ((emitDispatchTable src).map DispatchEntry.pc24).Pairwise (· < ·)
  defined : ∀ e ∈ emitDispatchTable src, ∀ m x s, e.variant m x = some s → s ∈ src.defs
  finds : ∀ (pc24 : BitVec 32) (m x : Bool), FindsBody src m x (pc24 &&& 0xFFFFFF)
    (dispatchSymbol (emitDispatchTable src) m x pc24)
  enters : ∀ {M : Type} (link : Symbol → Compiled M) (cpu : CpuState) (pc24 : BitVec 32),
    cpuDispatchFind (linkTable link (emitDispatchTable src)) cpu pc24 =
      (dispatchSymbol (emitDispatchTable src) cpu.mFlag cpu.xFlag pc24).map link
  probes : ∀ {M : Type} (link : Symbol → Compiled M) (cpu : CpuState) (pc24 : BitVec 32),
    cpuDispatchHasEntry (linkTable link (emitDispatchTable src)) cpu pc24 =
      (dispatchSymbol (emitDispatchTable src) cpu.mFlag cpu.xFlag pc24).isSome

/-- For every definition at a 24-bit address that is not pruned away, the name that the
configuration gives the address last has a definition in the same mode, and the scan takes that
name back to the address. -/
def NamesGoBack (src : Sources) : Prop :=
  ∀ name m x pc24, (name, m, x) ∈ src.defs → variantBasePc24 src.parsed name = some pc24 →
    ((pc24, m, x) ∉ src.cumulativePruned → (dispName src.parsed pc24, m, x) ∈ src.defs) ∧
    (pc24 < 2 ^ 24 → (pc24, m, x) ∉ src.cumulativePruned ∧
      variantBasePc24 src.parsed (dispName src.parsed pc24) = some pc24)

section
variable {src : Sources}

theorem dispatchSymbol_emitDispatchTable (src : Sources) (m x : Bool) (pc24 : BitVec 32) :
    dispatchSymbol (emitDispatchTable src) m x pc24 =
      if ((pc24 &&& 0xFFFFFF).toNat, m, x) ∈ dispVariants src then
        some (dispName src.parsed (pc24 &&& 0xFFFFFF).toNat, m, x)
      else if hasMirror (pc24 &&& 0xFFFFFF) = true ∧
          (((pc24 &&& 0xFFFFFF) ^^^ 0x800000).toNat, m, x) ∈ dispVariants src then
        some (dispName src.parsed ((pc24 &&& 0xFFFFFF) ^^^ 0x800000).toNat, m, x)
      else none := by
  simp only [dispatchSymbol, lookupSymbol_emitDispatchTable]
  by_cases hown : ((pc24 &&& 0xFFFFFF).toNat, m, x) ∈ dispVariants src
  · rw [if_pos hown, if_pos hown]
  · rw [if_neg hown, if_neg hown]
    dsimp only
    by_cases hmirror : hasMirror (pc24 &&& 0xFFFFFF) = true
    · rw [if_pos hmirror]
      by_cases hother : (((pc24 &&& 0xFFFFFF) ^^^ 0x800000).toNat, m, x) ∈ dispVariants src
      · rw [if_pos hother, if_pos ⟨hmirror, hother⟩]
      · rw [if_neg hother, if_neg (fun h => hother h.2)]
    · rw [if_neg hmirror, if_neg (fun h => hmirror h.1)]

theorem masked_toNat_lt (pc24 : BitVec 32) : (pc24 &&& 0xFFFFFF).toNat < 2 ^ 24 := by
  rw [BitVec.toNat_and]
  exact lt_of_le_of_lt Nat.and_le_right (by decide)

theorem mirror_toNat_lt (pc24 : BitVec 32) :
    ((pc24 &&& 0xFFFFFF) ^^^ 0x800000).toNat < 2 ^ 24 := by
  rw [BitVec.toNat_xor]
  exact Nat.xor_lt_two_pow (masked_toNat_lt pc24) (by decide)

/-- Under the condition the variants of the table are those with a body. -/
theorem NamesGoBack.mem_dispVariants_iff (h : NamesGoBack src) {pc24 : Nat} (hpc : pc24 < 2 ^ 24)
    {m x : Bool} : (pc24, m, x) ∈ dispVariants src ↔ ∃ s, BodyAt src pc24 m x s := by
  rw [mem_dispVariants]
  constructor
  · rintro ⟨⟨name, hdef, hbase⟩, -⟩
    exact ⟨(name, m, x), hdef, rfl, hbase⟩
  · rintro ⟨⟨name, mx⟩, hdef, rfl, hbase⟩
    exact ⟨⟨name, hdef, hbase⟩, ((h name m x pc24 hdef hbase).2 hpc).1⟩

/-- Under the condition the symbol of a row is a body of its address. -/
theorem NamesGoBack.bodyAt_dispName (h : NamesGoBack src) {pc24 : Nat} (hpc : pc24 < 2 ^ 24)
    {m x : Bool} (hmem : (pc24, m, x) ∈ dispVariants src) :
    BodyAt src pc24 m x (dispName src.parsed pc24, m, x) := by
  obtain ⟨⟨name, hdef, hbase⟩, hkept⟩ := mem_dispVariants.mp hmem
  obtain ⟨hsym, hback⟩ := h name m x pc24 hdef hbase
  exact ⟨hsym hkept, rfl, (hback hpc).2⟩

theorem NamesGoBack.finds (h : NamesGoBack src) (pc24 : BitVec 32) (m x : Bool) :
    FindsBody src m x (pc24 &&& 0xFFFFFF) (dispatchSymbol (emitDispatchTable src) m x pc24) := by
  have hown := h.mem_dispVariants_iff (masked_toNat_lt pc24) (m := m) (x := x)
  have hother := h.mem_dispVariants_iff (mirror_toNat_lt pc24) (m := m) (x := x)
  rw [dispatchSymbol_emitDispatchTable]
  split
  · rename_i hmem
    exact .inl (h.bodyAt_dispName (masked_toNat_lt pc24) hmem)
  · rename_i hnot
    have hnone : ∀ s, ¬BodyAt src (pc24 &&& 0xFFFFFF).toNat m x s :=
      fun s hs => hnot (hown.mpr ⟨s, hs⟩)
    split
    · rename_i hmem
      exact .inr ⟨hnone, hmem.1, h.bodyAt_dispName (mirror_toNat_lt pc24) hmem.2⟩
    · rename_i hmiss
      exact ⟨hnone, fun hmirror s hs => hmiss ⟨hmirror, hother.mpr ⟨s, hs⟩⟩⟩

/-- A row that the dispatchers meet names a body of its own address. -/
theorem DispatchRight.own (h : DispatchRight src) {pc24 : Nat} (hpc : pc24 < 2 ^ 24) {m x : Bool}
    (hmem : (pc24, m, x) ∈ dispVariants src) :
    variantBasePc24 src.parsed (dispName src.parsed pc24) = some pc24 := by
  obtain ⟨⟨name, hdef, hbase⟩, -⟩ := mem_dispVariants.mp hmem
  have hmask : ((BitVec.ofNat 32 pc24) &&& 0xFFFFFF).toNat = pc24 := by
    rw [BitVec.toNat_and, BitVec.toNat_ofNat, Nat.mod_eq_of_lt (by omega)]
    exact Nat.and_two_pow_sub_one_of_lt_two_pow hpc
  have hfinds := h.finds (BitVec.ofNat 32 pc24) m x
  rw [dispatchSymbol_emitDispatchTable, hmask, if_pos hmem] at hfinds
  rcases hfinds with hbody | ⟨hnone, -⟩
  · rw [hmask] at hbody
    exact hbody.2.2
  · rw [hmask] at hnone
    exact absurd ⟨hdef, rfl, hbase⟩ (hnone (name, m, x))

theorem DispatchRight.namesGoBack (h : DispatchRight src) : NamesGoBack src := by
  intro name m x pc24 hdef hbase
  have hrow : (pc24, m, x) ∉ src.cumulativePruned → (pc24, m, x) ∈ dispVariants src :=
    fun hkept => mem_dispVariants.mpr ⟨⟨name, hdef, hbase⟩, hkept⟩
  refine ⟨fun hkept => ?_, fun hpc => ?_⟩
  · have hmem := hrow hkept
    have hpcs : pc24 ∈ sortedPc24s src := mem_sortedPc24s.mpr ⟨(m, x), hmem⟩
    refine h.defined (dispatchRow src pc24) ?_ m x _ (if_pos hmem)
    rw [emitDispatchTable, if_neg (List.ne_nil_of_mem hpcs)]
    exact List.mem_map.mpr ⟨pc24, hpcs, rfl⟩
  · have hkept : (pc24, m, x) ∉ src.cumulativePruned := by
      intro hpruned
      -- the row has no such variant, and that of the mirror names a body of the mirror
      have hmask : ((BitVec.ofNat 32 pc24) &&& 0xFFFFFF).toNat = pc24 := by
        rw [BitVec.toNat_and, BitVec.toNat_ofNat, Nat.mod_eq_of_lt (by omega)]
        exact Nat.and_two_pow_sub_one_of_lt_two_pow hpc
      have hfinds := h.finds (BitVec.ofNat 32 pc24) m x
      have hbody : BodyAt src pc24 m x (name, m, x) := ⟨hdef, rfl, hbase⟩
      have hnot : (pc24, m, x) ∉ dispVariants src := fun hmem => (mem_dispVariants.mp hmem).2 hpruned
      rw [dispatchSymbol_emitDispatchTable, hmask, if_neg hnot] at hfinds
      split at hfinds
      · rename_i hmem
        have hown := h.own (mirror_toNat_lt _) hmem.2
        rcases hfinds with hat | ⟨hnone, -⟩
        · rw [hmask] at hat
          have heq := hown.symm.trans hat.2.2
          have hsame := Option.some.inj heq
          rw [BitVec.toNat_xor, hmask] at hsame
          have hbit := congrArg (fun n => n.testBit 23) hsame
          simp only [Nat.testBit_xor] at hbit
          revert hbit
          cases pc24.testBit 23 <;> decide
        · rw [hmask] at hnone
          exact hnone _ hbody
      · rw [FindsBody, hmask] at hfinds
        exact hfinds.1 _ hbody
    exact ⟨hkept, h.own hpc (hrow hkept)⟩

end

/-- `func Foo 8000` and `func Bar 8000`, and a definition of `Foo` for one mode only. -/
def twoNames : Sources where
  parsed := [(0, { entries := [⟨"Foo".toList, 0x8000, none, true, true, none, 0, none⟩,
    ⟨"Bar".toList, 0x8000, none, false, false, none, 0, none⟩] })]
  defs := [("Foo".toList, true, true), ("Bar".toList, false, false)]
  cumulativePruned := []

end SnesRecomp.Regen.DispatchTable
