import SnesRecomp.Regen.Promotion

/-!
# Names

The lines name a function by its base name, which the resolver has from `name_map`, and the
body is written under the name of its entry.  Behind each pass that is not the last the names
of the entries are put into `name_map`.  `OneName` is what the cfgs owe to this: one name for
each address, and one address for each name.  Then the resolver has for a target the name of
the entry at its symbol's address (`baseName_symbol`), and a scan by names finds that address
(`resolve_entryName`); so the passes may do with addresses.
-/

namespace SnesRecomp.Regen

open Recompiler

/-- A base name: `bank_BB_AAAA`, or another one. -/
inductive BaseName where
  | synthetic (addr : Nat)
  | given (name : String)
  deriving DecidableEq

/-- The names when the loop starts: those of the entries, and `name_map`. -/
structure Naming (cfg : RegenConfig) where
  entry : Variant → BaseName
  nameMap : Nat → Option BaseName
  keys : ∀ addr, (nameMap addr).isSome = true ↔ addr ∈ cfg.initial.names

/-- The state of the loop with the names of its entries and `name_map`. -/
structure NamedState where
  state : RegenState
  entryName : Variant → BaseName
  nameMap : Nat → Option BaseName

def Naming.initial {cfg : RegenConfig} (nm : Naming cfg) : NamedState :=
  ⟨cfg.initial, nm.entry, nm.nameMap⟩

/-- The name of an entry, where new ones have that of the first entry at their address. -/
def promotedName (entries : List Variant) (name : Variant → BaseName) (v : Variant) : BaseName :=
  if v ∈ entries then name v
  else ((entries.find? fun e => e.1 = v.1).map name).getD (.synthetic v.1)

/-- The refresh of `name_map`; the last entry at an address decides. -/
def refreshMap (entries : List Variant) (name : Variant → BaseName)
    (map : Nat → Option BaseName) (addr : Nat) : Option BaseName :=
  ((entries.reverse.find? fun e => e.1 = addr).map name).or (map addr)

namespace NamedState

variable (cfg : RegenConfig) (env : PassEnv) (s : NamedState)

/-- The names the bodies of a pass are written under. -/
def bodyName : Variant → BaseName := promotedName s.state.entries s.entryName

/-- The names of the entries behind a pass. -/
def nextName : Variant → BaseName :=
  promotedName (afterPrune cfg env s.state).entries s.bodyName

end NamedState

/-- One turn of the loop, with the names. -/
def namedPass (cfg : RegenConfig) (env : PassEnv) (s : NamedState) : NamedState :=
  let s' := prunePass cfg env s.state
  let name := s.nextName cfg env
  ⟨s', name, if s'.converged then s.nameMap else refreshMap s'.entries name s.nameMap⟩

namespace NamedState

variable (s : NamedState)

/-- The base name in the lines for a target: `_NAME_RESOLVER.get`, or the synthetic one. -/
def baseName (addr : Nat) : BaseName :=
  let a := addr &&& 0xFFFFFF
  let mirror := if isMirrored (bankOf a) then s.nameMap (a ^^^ 0x800000) else none
  ((s.nameMap a).or mirror).getD (.synthetic a)

/-- `_resolve` of `_scan_variant_refs`. -/
def resolve : BaseName → Option Nat
  | .synthetic addr => some addr
  | name => (s.state.entries.reverse.find? fun e => s.entryName e = name).map (·.1)

/-- The symbol of a target is defined by a body the pass writes. -/
def Defined (cfg : RegenConfig) (env : PassEnv) (t : Variant) : Prop :=
  (s.baseName t.1, t.2) ∈ (passBodies cfg env s.state).map fun r => (s.bodyName r.1, r.1.2)

instance (cfg : RegenConfig) (env : PassEnv) (t : Variant) : Decidable (s.Defined cfg env t) :=
  inferInstanceAs (Decidable (_ ∈ _))

end NamedState

/-! ### One name, one address -/

/-- No name is given to two addresses. -/
structure Apart (map : Nat → Option BaseName) : Prop where
  one : ∀ a b n, map a = some n → map b = some n → a = b
  synthetic : ∀ a b, map a = some (.synthetic b) → a = b

/-- Every address has one name, and every name one address. -/
structure Naming.OneName {cfg : RegenConfig} (nm : Naming cfg) : Prop where
  same : ∀ v ∈ cfg.initial.entries, nm.nameMap v.1 = some (nm.entry v)
  apart : Apart nm.nameMap

/-- The entries have the names that are in `name_map`. -/
structure NamesFit (s : NamedState) : Prop where
  keys : ∀ addr, (s.nameMap addr).isSome = true ↔ addr ∈ s.state.names
  same : ∀ v ∈ s.state.entries, s.nameMap v.1 = some (s.entryName v)
  apart : Apart s.nameMap

theorem namesFit_initial {cfg : RegenConfig} {nm : Naming cfg} (h : nm.OneName) :
    NamesFit nm.initial := ⟨nm.keys, h.same, h.apart⟩

theorem mem_of_find {entries : List Variant} {addr : Nat} {e : Variant}
    (h : (entries.find? fun e => e.1 = addr) = some e) : e ∈ entries ∧ e.1 = addr :=
  ⟨List.mem_of_find?_eq_some h, by simpa using List.find?_some h⟩

theorem promotedName_of_mem {entries : List Variant} {name : Variant → BaseName} {v : Variant}
    (h : v ∈ entries) : promotedName entries name v = name v := if_pos h

/-- A new entry is named as the others at its address. -/
theorem promotedName_of_addr {entries : List Variant} {name : Variant → BaseName}
    {map : Nat → Option BaseName} (h : ∀ v ∈ entries, map v.1 = some (name v)) {v : Variant}
    (haddr : v.1 ∈ entries.map (·.1)) : map v.1 = some (promotedName entries name v) := by
  unfold promotedName
  split
  next hmem => exact h v hmem
  · cases hfind : entries.find? fun e => e.1 = v.1 with
    | none =>
      obtain ⟨e, he, heq⟩ := List.mem_map.mp haddr
      exact absurd (decide_eq_true heq) (List.find?_eq_none.mp hfind e he)
    | some e =>
      obtain ⟨he, heq⟩ := mem_of_find hfind
      rw [← heq, h e he]
      rfl

/-- The first entry at an address is named for it. -/
theorem promotedName_of_new {entries : List Variant} {name : Variant → BaseName} {v : Variant}
    (haddr : v.1 ∉ entries.map (·.1)) : promotedName entries name v = .synthetic v.1 := by
  have hfind : (entries.find? fun e => e.1 = v.1) = none := by
    refine List.find?_eq_none.mpr fun e he heq => haddr ?_
    exact List.mem_map.mpr ⟨e, he, of_decide_eq_true heq⟩
  unfold promotedName
  rw [if_neg fun hmem => haddr (List.mem_map_of_mem hmem), hfind]
  rfl

/-- What is in the map behind a refresh. -/
theorem refreshMap_eq_some {entries : List Variant} {name : Variant → BaseName}
    {map : Nat → Option BaseName} {addr : Nat} {n : BaseName}
    (h : refreshMap entries name map addr = some n) :
    map addr = some n ∨ ∃ e ∈ entries, e.1 = addr ∧ name e = n := by
  unfold refreshMap at h
  cases hfind : entries.reverse.find? fun e => e.1 = addr with
  | none =>
    rw [hfind] at h
    exact Or.inl h
  | some e =>
    rw [hfind] at h
    obtain ⟨he, heq⟩ := mem_of_find hfind
    exact Or.inr ⟨e, List.mem_reverse.mp he, heq, Option.some.inj h⟩

/-- The name of an entry at an address whose entries have one name. -/
theorem refreshMap_of_mem {entries : List Variant} {name : Variant → BaseName}
    {map : Nat → Option BaseName} {v : Variant} (hv : v ∈ entries)
    (h : ∀ e ∈ entries, e.1 = v.1 → name e = name v) :
    refreshMap entries name map v.1 = some (name v) := by
  unfold refreshMap
  cases hfind : entries.reverse.find? fun e => e.1 = v.1 with
  | none => exact absurd (decide_eq_true rfl) (List.find?_eq_none.mp hfind v (List.mem_reverse.mpr hv))
  | some e =>
    obtain ⟨he, heq⟩ := mem_of_find hfind
    rw [Option.map_some, Option.some_or, h e (List.mem_reverse.mp he) heq]

theorem isSome_refreshMap {entries : List Variant} {name : Variant → BaseName}
    {map : Nat → Option BaseName} {addr : Nat} :
    (refreshMap entries name map addr).isSome = true ↔
      (map addr).isSome = true ∨ addr ∈ entries.map (·.1) := by
  unfold refreshMap
  rw [Option.isSome_or, Option.isSome_map, Bool.or_eq_true, List.find?_isSome]
  simp [or_comm]

/-! ### What every pass keeps -/

section Pass

variable (cfg : RegenConfig) (env : PassEnv) {s : NamedState}

theorem prunePass_names (s : RegenState) : (prunePass cfg env s).names =
    if (prunePass cfg env s).converged then s.names
    else s.names ++ (prunePass cfg env s).entries.map (·.1) := by
  have hnames := @afterPromotion_names cfg s env
  unfold prunePass
  split
  · split
    · exact hnames
    · show ((afterPromotion cfg env s).prune _).names ++ _ = _
      rw [RegenState.prune_names, hnames]
      rfl
  · show (afterPromotion cfg env s).names ++ _ = _
    rw [hnames]
    rfl

/-- The names of the bodies are those in `name_map`. -/
theorem NamesFit.bodyName (h : NamesFit s) {v : Variant}
    (hv : v ∈ (afterDiscovery cfg env s.state).entries) : s.nameMap v.1 = some (s.bodyName v) := by
  refine promotedName_of_addr h.same ?_
  rcases mem_afterDiscovery env hv with hv | hv
  · exact List.mem_map_of_mem hv
  · exact (mem_discover env hv).2.1

/-- An address whose entries are new has a synthetic name, another the one in `name_map`. -/
theorem NamesFit.nextName (h : NamesFit s) (v : Variant) :
    if v.1 ∈ (afterPrune cfg env s.state).entries.map (·.1) then
      s.nameMap v.1 = some (s.nextName cfg env v)
    else s.nextName cfg env v = .synthetic v.1 := by
  split
  next haddr =>
    refine promotedName_of_addr (fun e he => h.bodyName cfg env ?_) haddr
    have hemit : e ∈ (afterEmit cfg env s.state).entries := RegenState.mem_of_mem_prune he
    exact hemit
  next haddr => exact promotedName_of_new haddr

/-- The entries at an address have one name. -/
theorem NamesFit.nextName_congr (h : NamesFit s) {v w : Variant} (heq : v.1 = w.1) :
    s.nextName cfg env v = s.nextName cfg env w := by
  have hv := h.nextName cfg env v
  have hw := h.nextName cfg env w
  rw [heq] at hv
  split at hw
  next haddr =>
    rw [if_pos haddr, hw] at hv
    exact (Option.some.inj hv).symm
  next haddr =>
    rw [if_neg haddr] at hv
    rw [hv, hw]

/-- What `name_map` gains is synthetic. -/
theorem NamesFit.refreshMap (h : NamesFit s) {entries : List Variant} {addr : Nat} {n : BaseName}
    (hn : refreshMap entries (s.nextName cfg env) s.nameMap addr = some n) :
    s.nameMap addr = some n ∨ n = .synthetic addr := by
  rcases refreshMap_eq_some hn with hn | ⟨e, _, rfl, rfl⟩
  · exact Or.inl hn
  · have he := h.nextName cfg env e
    split at he
    · exact Or.inl he
    · exact Or.inr he

theorem Apart.of_synthetic {map map' : Nat → Option BaseName} (h : Apart map)
    (hmap : ∀ a n, map' a = some n → map a = some n ∨ n = .synthetic a) : Apart map' where
  one a b n ha hb := by
    rcases hmap a n ha with ha | rfl
    · rcases hmap b n hb with hb | rfl
      · exact h.one a b n ha hb
      · exact h.synthetic a b ha
    · rcases hmap b _ hb with hb | hb
      · exact (h.synthetic b a hb).symm
      · exact BaseName.synthetic.inj hb
  synthetic a b ha := by
    rcases hmap a _ ha with ha | hb
    · exact h.synthetic a b ha
    · exact (BaseName.synthetic.inj hb).symm

/-- **A pass keeps one name for each address, and one address for each name.** -/
theorem namesFit_namedPass (h : NamesFit s) : NamesFit (namedPass cfg env s) := by
  have hnames := prunePass_names cfg env s.state
  cases hconv : (prunePass cfg env s.state).converged with
  | true =>
    obtain ⟨hstable, hentries, _⟩ := of_converged env hconv
    obtain ⟨hs, hprune, _⟩ := entries_of_isStable env hstable
    rw [hconv, if_pos rfl] at hnames
    have hmap : (namedPass cfg env s).nameMap = s.nameMap := if_pos hconv
    refine ⟨?_, ?_, hmap ▸ h.apart⟩
    · intro addr
      show ((namedPass cfg env s).nameMap addr).isSome = true ↔ addr ∈ (prunePass cfg env s.state).names
      rw [hmap, hnames]
      exact h.keys addr
    · intro v hv
      have hmem : v ∈ s.state.entries := hentries ▸ hv
      have hkept : v ∈ (afterPrune cfg env s.state).entries := by
        rw [hprune]
        show v ∈ (afterDiscovery cfg env s.state).entries
        rwa [hs]
      have hnext := h.nextName cfg env v
      rw [if_pos (List.mem_map_of_mem hkept)] at hnext
      rw [hmap]
      exact hnext
  | false =>
    rw [hconv, if_neg Bool.false_ne_true] at hnames
    have hmap : (namedPass cfg env s).nameMap =
        Regen.refreshMap (prunePass cfg env s.state).entries (s.nextName cfg env) s.nameMap :=
      if_neg (hconv ▸ Bool.false_ne_true)
    refine ⟨?_, ?_, ?_⟩
    · intro addr
      show ((namedPass cfg env s).nameMap addr).isSome = true ↔ addr ∈ (prunePass cfg env s.state).names
      rw [hmap, hnames, isSome_refreshMap, h.keys, List.mem_append]
    · intro v hv
      rw [hmap]
      exact refreshMap_of_mem hv fun e _ heq => h.nextName_congr cfg env heq
    · rw [hmap]
      exact h.apart.of_synthetic fun a n hn => h.refreshMap cfg env hn

end Pass

/-! ### What the names lead to -/

section Lookup

variable {s : NamedState}

/-- **The resolver has the name of the entry at the symbol's address.** -/
theorem NamesFit.baseName_symbol (h : NamesFit s) {t : Variant}
    (ht : s.state.symbol t ∈ s.state.entries) : s.baseName t.1 = s.entryName (s.state.symbol t) := by
  have hname : s.nameMap (s.state.symbolAddr t.1) = some (s.entryName (s.state.symbol t)) :=
    h.same _ ht
  unfold NamedState.baseName
  dsimp only
  rcases symbolAddr_cases s.state t.1 with hsym | ⟨hown, hmirrored, hsym⟩
  · rw [hsym] at hname
    rw [hname, Option.some_or, Option.getD_some]
  · have hnone : s.nameMap (t.1 &&& 0xFFFFFF) = none := by
      rw [← Option.not_isSome_iff_eq_none, h.keys]
      exact hown
    rw [hsym] at hname
    rw [hnone, bankOf_mask, if_pos hmirrored, hname, Option.none_or, Option.getD_some]

/-- A target is defined when the entry at its symbol's address has a body. -/
theorem NamesFit.defined {cfg : RegenConfig} {env : PassEnv} (h : NamesFit s) {t : Variant}
    (ht : s.state.symbol t ∈ s.state.entries)
    (hbody : s.state.symbol t ∈ (passBodies cfg env s.state).map (·.1)) : s.Defined cfg env t := by
  obtain ⟨r, hr, heq⟩ := List.mem_map.mp hbody
  have hname : s.baseName t.1 = s.bodyName r.1 := by
    rw [h.baseName_symbol ht, heq]
    exact (promotedName_of_mem ht).symm
  refine List.mem_map.mpr ⟨r, hr, Prod.ext hname.symm ?_⟩
  rw [heq]
  rfl

/-- **A scan by names finds the address of the entry.** -/
theorem NamesFit.resolve_entryName (h : NamesFit s) {v : Variant} (hv : v ∈ s.state.entries) :
    s.resolve (s.entryName v) = some v.1 := by
  have hname := h.same v hv
  cases hentry : s.entryName v with
  | synthetic addr =>
    rw [hentry] at hname
    rw [h.apart.synthetic _ _ hname]
    rfl
  | given n =>
    unfold NamedState.resolve
    dsimp only
    cases hfind : s.state.entries.reverse.find? fun e => s.entryName e = .given n with
    | none =>
      exact absurd (decide_eq_true hentry) (List.find?_eq_none.mp hfind v (List.mem_reverse.mpr hv))
    | some e =>
      have he : s.entryName e = .given n := by simpa using List.find?_some hfind
      have hmem := List.mem_reverse.mp (List.mem_of_find?_eq_some hfind)
      have heq : e.1 = v.1 := h.apart.one _ _ _ (h.same e hmem) (by rw [hname, hentry, he])
      rw [Option.map_some, heq]

end Lookup

end SnesRecomp.Regen
