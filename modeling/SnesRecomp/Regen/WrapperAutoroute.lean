import SnesRecomp.Recompiler.Insn
import SnesRecomp.Regen.CfgLoader
import Mathlib.Data.Nat.Digits.Defs

/-!
# Wrapper routing

`detect_and_route` of `wrapper_autoroute.py` looks for stubs that set the data bank before a
call, and gives a stub a name of its own when the name it has is declared elsewhere.  Where a
name is declared is where it is declared first, and of the name declarations of a stub only
those are renamed that have its name in `name_map`.  `namesAttached_iff` says for which
configurations every stub ends up with one name and that name with one function.
-/

namespace SnesRecomp.Regen.Wrapper

open CfgLoader
open Recompiler (Rom loromOffset)

/-! ### Scanning a bank -/

/-- The bytes of the signature at an offset, the operand of the `JSR` apart. -/
def signatureAt (rom : Rom) (off : Nat) : Bool :=
  rom.byte off == 0x8B && rom.byte (off + 1) == 0x4B && rom.byte (off + 2) == 0xAB &&
    rom.byte (off + 3) == 0x20 && rom.byte (off + 6) == 0xAB && rom.byte (off + 7) == 0x6B

/-- A wrapper and the body it calls. -/
structure Hit where
  bank : Nat
  wrapperPc16 : Nat
  bodyPc16 : Nat
  deriving DecidableEq, Repr

def Hit.addr (h : Hit) : Nat := h.bank * 0x10000 + h.wrapperPc16

/-- The loop of `_scan_bank_for_wrappers`, `left` bytes before the end of the bank; hits are
disjoint. -/
def scanFrom (rom : Rom) (bank : Nat) : Nat → List Hit
  | 0 => []
  | left + 1 =>
    if left + 1 < 8 then []
    else
      let pc := 0x10000 - (left + 1)
      let off := loromOffset bank pc
      if signatureAt rom off then
        let body := (rom.byte (off + 4)).toNat + (rom.byte (off + 5)).toNat * 256
        let rest := scanFrom rom bank (left + 1 - 8)
        if 0x8000 ≤ body ∧ body ≤ 0xFFFF ∧ body ≠ pc then ⟨bank, pc, body⟩ :: rest else rest
      else scanFrom rom bank left
  termination_by left => left
  decreasing_by all_goals omega

/-- `_scan_bank_for_wrappers`. -/
def scanBankForWrappers (rom : Rom) (bank : Nat) : List Hit :=
  if rom.size < loromOffset bank 0x8000 + 0x8000 then [] else scanFrom rom bank 0x8000

/-! ### Names -/

/-- A digit of `X` in a format. -/
def hexDigit (d : Nat) : Char := "0123456789ABCDEF".toList.getD d '?'

/-- `{n:0wX}`. -/
def hexUpper (w n : Nat) : Token :=
  ((Nat.digits 16 n ++ List.replicate (w - (Nat.digits 16 n).length) 0).map hexDigit).reverse

def autoWrap : Token := "_AutoWrap_".toList

/-- `_build_synthetic_name`. -/
def buildSyntheticName (orig : Token) (bank wrapperPc16 : Nat) : Token :=
  autoWrap ++ orig ++ ['_', '_'] ++ hexUpper 2 bank ++ ['_'] ++ hexUpper 4 wrapperPc16

abbrev NameMap := Nat → Option Token

/-- The banks in the order of their files. -/
abbrev Parsed := List (Nat × BankCfg)

/-- The names `func` declares, with their addresses. -/
def funcDecls (parsed : Parsed) : List (Token × Nat) :=
  parsed.flatMap fun p => (p.2.entries.filter fun e => e.name ≠ []).map fun e =>
    (e.name, p.1 * 0x10000 + (pc16 e.start).toNat)

/-- `name_to_func_pc`: the first declaration. -/
def nameToFuncPc (parsed : Parsed) (name : Token) : Option Nat :=
  ((funcDecls parsed).find? fun d => d.1 = name).map (·.2)

/-- `nd.addr_24 & 0xFFFFFF`. -/
def declAddr (nd : NameDecl) : Nat := (nd.addr24 % 0x1000000).toNat

/-- `cross_bank_names` of `v2_regen.py`: the declarations for a bank, from every file. -/
def crossBankNames (parsed : Parsed) (bank : Nat) : List NameDecl :=
  (parsed.flatMap fun p => p.2.names).filter fun nd => declAddr nd / 0x10000 = bank

/-- `name_map` of `v2_regen.py`; a later file goes over an earlier one. -/
def collectNames (parsed : Parsed) : NameMap :=
  parsed.foldl (fun nameMap p =>
    p.2.names.foldl (fun nameMap nd => Function.update nameMap (declAddr nd) (some nd.name))
      (p.2.entries.foldl (fun nameMap e =>
        if e.name = [] then nameMap
        else Function.update nameMap (p.1 * 0x10000 + (pc16 e.start).toNat) (some e.name))
        nameMap)) fun _ => none

/-! ### Routing -/

structure FixRecord where
  hit : Hit
  origName : Token
  syntheticName : Token
  deriving DecidableEq, Repr

structure RouteState where
  nameMap : NameMap
  crossBank : Nat → List NameDecl
  seen : List Nat
  fixes : List FixRecord

/-- A name the wrapper gets in place of one that is declared elsewhere. -/
def bypassed (parsed : Parsed) (nameMap : NameMap) (h : Hit) : Option FixRecord :=
  match nameMap h.addr with
  | none => none
  | some name =>
    match nameToFuncPc parsed name with
    | none => none
    | some declared =>
      if declared = h.addr then none
      else some ⟨h, name, buildSyntheticName name h.bank h.wrapperPc16⟩

def renameDecl (addr : Nat) (fix : FixRecord) (nd : NameDecl) : NameDecl :=
  if declAddr nd = addr ∧ nd.name = fix.origName then { nd with name := fix.syntheticName } else nd

/-- One turn of the loop over the wrappers. -/
def routeHit (parsed : Parsed) (st : RouteState) (h : Hit) : RouteState :=
  if h.addr ∈ st.seen then st
  else
    match bypassed parsed st.nameMap h with
    | none => st
    | some fix =>
      { nameMap := Function.update st.nameMap h.addr (some fix.syntheticName)
        crossBank := Function.update st.crossBank h.bank
          ((st.crossBank h.bank).map (renameDecl h.addr fix))
        seen := st.seen ++ [h.addr]
        fixes := st.fixes ++ [fix] }

/-- The wrappers of all banks. -/
def allHits (rom : Rom) (parsed : Parsed) : List Hit :=
  parsed.flatMap fun p => scanBankForWrappers rom p.1

def detectAndRoute (rom : Rom) (parsed : Parsed) (nameMap : NameMap) : RouteState :=
  (allHits rom parsed).foldl (routeHit parsed) ⟨nameMap, crossBankNames parsed, [], []⟩

/-! ### Synthetic names -/

/-- The digit a character stands for. -/
def hexVal (c : Char) : Option Nat :=
  let n := c.toNat
  if 48 ≤ n ∧ n ≤ 57 then some (n - 48)
  else if 65 ≤ n ∧ n ≤ 70 then some (n - 55)
  else if 97 ≤ n ∧ n ≤ 102 then some (n - 87)
  else none

theorem hexVal_hexDigit : ∀ d < 16, hexVal (hexDigit d) = some d := by
  decide

theorem hexDigit_ne_underscore : ∀ d < 16, hexDigit d ≠ '_' := by
  decide

theorem digit_lt {w n d : Nat}
    (hd : d ∈ Nat.digits 16 n ++ List.replicate (w - (Nat.digits 16 n).length) 0) : d < 16 := by
  rcases List.mem_append.mp hd with hd | hd
  · exact Nat.digits_lt_base (by omega) hd
  · rw [(List.mem_replicate.mp hd).2]
    omega

theorem hexUpper_injective (w : Nat) {m n : Nat} (h : hexUpper w m = hexUpper w n) : m = n := by
  have hread : ∀ n, Nat.ofDigits 16 ((hexUpper w n).reverse.map fun c => (hexVal c).getD 0) = n := by
    intro n
    have hvals : ((Nat.digits 16 n ++ List.replicate (w - (Nat.digits 16 n).length) 0).map
        hexDigit).map (fun c => (hexVal c).getD 0) =
          Nat.digits 16 n ++ List.replicate (w - (Nat.digits 16 n).length) 0 := by
      rw [List.map_map]
      conv => rhs; rw [← List.map_id (_ ++ _)]
      apply List.map_congr_left
      intro d hd
      exact congrArg (Option.getD · 0) (hexVal_hexDigit d (digit_lt hd))
    rw [hexUpper, List.reverse_reverse, hvals, Nat.ofDigits_append_replicate_zero,
      Nat.ofDigits_digits]
  rw [← hread m, h, hread]

theorem underscore_notMem_hexUpper (w n : Nat) : '_' ∉ hexUpper w n := by
  intro hmem
  obtain ⟨d, hd, heq⟩ := List.mem_map.mp (List.mem_reverse.mp hmem)
  exact hexDigit_ne_underscore d (digit_lt hd) heq

/-- Behind the last underscore the two texts are the same, and before it. -/
theorem append_underscore_inj {l l' r r' : Token} (hr : '_' ∉ r) (hr' : '_' ∉ r')
    (h : l ++ '_' :: r = l' ++ '_' :: r') : l = l' ∧ r = r' := by
  induction l generalizing l' with
  | nil =>
      cases l' with
      | nil => exact ⟨rfl, (List.cons.inj h).2⟩
      | cons c l' =>
          refine absurd ?_ hr
          rw [(List.cons.inj h).2]
          exact List.mem_append_right _ List.mem_cons_self
  | cons c l ih =>
      cases l' with
      | nil =>
          refine absurd ?_ hr'
          rw [← (List.cons.inj h).2]
          exact List.mem_append_right _ List.mem_cons_self
      | cons c' l' =>
          obtain ⟨hc, hrest⟩ := List.cons.inj h
          obtain ⟨hl, hr''⟩ := ih hrest
          exact ⟨by rw [hc, hl], hr''⟩

/-- A synthetic name says which wrapper it is for. -/
theorem buildSyntheticName_inj {orig orig' : Token} {bank bank' pc pc' : Nat}
    (h : buildSyntheticName orig bank pc = buildSyntheticName orig' bank' pc') :
    bank = bank' ∧ pc = pc' := by
  have hsplit : ∀ orig bank pc, buildSyntheticName orig bank pc =
      (autoWrap ++ orig ++ ['_'] ++ '_' :: hexUpper 2 bank) ++ '_' :: hexUpper 4 pc := by
    intro orig bank pc
    simp only [buildSyntheticName, List.append_assoc, List.cons_append, List.nil_append]
  rw [hsplit, hsplit] at h
  obtain ⟨hfirst, hpc⟩ := append_underscore_inj (underscore_notMem_hexUpper 4 pc)
    (underscore_notMem_hexUpper 4 pc') h
  obtain ⟨_, hbank⟩ := append_underscore_inj (underscore_notMem_hexUpper 2 bank)
    (underscore_notMem_hexUpper 2 bank') hfirst
  exact ⟨hexUpper_injective 2 hbank, hexUpper_injective 4 hpc⟩

/-! ### What a run of the routing leaves -/

theorem scanFrom_pc {rom : Rom} {bank left : Nat} (hleft : left ≤ 0x8000) :
    ∀ h ∈ scanFrom rom bank left, h.bank = bank ∧ h.wrapperPc16 < 0x10000 := by
  induction left using Nat.strongRecOn with
  | ind left ih =>
      intro h hh
      cases left with
      | zero =>
          rw [scanFrom] at hh
          exact absurd hh List.not_mem_nil
      | succ left =>
          rw [scanFrom] at hh
          split at hh
          · exact absurd hh List.not_mem_nil
          · dsimp only at hh
            split at hh
            · split at hh
              · rcases List.mem_cons.mp hh with rfl | hh
                · exact ⟨rfl, by change 0x10000 - (left + 1) < 0x10000; omega⟩
                · exact ih _ (by omega) (by omega) h hh
              · exact ih _ (by omega) (by omega) h hh
            · exact ih _ (by omega) (by omega) h hh

theorem allHits_pc {rom : Rom} {parsed : Parsed} {h : Hit} (hh : h ∈ allHits rom parsed) :
    h.wrapperPc16 < 0x10000 := by
  obtain ⟨p, _, hp⟩ := List.mem_flatMap.mp hh
  rw [scanBankForWrappers] at hp
  split at hp
  · exact absurd hp List.not_mem_nil
  · exact (scanFrom_pc (le_refl _) h hp).2

theorem Hit.eq_of_addr {h h' : Hit} (hpc : h.wrapperPc16 < 0x10000)
    (hpc' : h'.wrapperPc16 < 0x10000) (heq : h.addr = h'.addr) :
    h.bank = h'.bank ∧ h.wrapperPc16 = h'.wrapperPc16 := by
  rw [Hit.addr, Hit.addr] at heq
  omega

section Runs

variable {parsed : Parsed} {nameMap : NameMap}

/-- Only the name of the wrapper itself matters. -/
theorem bypassed_congr {nameMap' : NameMap} {h : Hit} (heq : nameMap h.addr = nameMap' h.addr) :
    bypassed parsed nameMap h = bypassed parsed nameMap' h := by
  rw [bypassed, bypassed, heq]

/-- A wrapper is bypassed when it has a name that is declared at another address. -/
theorem bypassed_eq_some_iff {h : Hit} {fix : FixRecord} :
    bypassed parsed nameMap h = some fix ↔ ∃ name declared, nameMap h.addr = some name ∧
      nameToFuncPc parsed name = some declared ∧ declared ≠ h.addr ∧
      fix = ⟨h, name, buildSyntheticName name h.bank h.wrapperPc16⟩ := by
  rw [bypassed]
  constructor
  · intro hfix
    cases hname : nameMap h.addr with
    | none =>
        rw [hname] at hfix
        cases hfix
    | some name =>
        rw [hname] at hfix
        dsimp only at hfix
        cases hdecl : nameToFuncPc parsed name with
        | none =>
            rw [hdecl] at hfix
            cases hfix
        | some declared =>
            rw [hdecl] at hfix
            dsimp only at hfix
            by_cases hself : declared = h.addr
            · rw [if_pos hself] at hfix
              cases hfix
            · rw [if_neg hself] at hfix
              exact ⟨name, declared, rfl, hdecl, hself, (Option.some.inj hfix).symm⟩
  · rintro ⟨name, declared, hname, hdecl, hself, rfl⟩
    rw [hname]
    dsimp only
    rw [hdecl]
    dsimp only
    rw [if_neg hself]

theorem bypassed_eq_some {h : Hit} {fix : FixRecord} (hfix : bypassed parsed nameMap h = some fix) :
    nameMap h.addr = some fix.origName ∧ fix.hit = h ∧
      fix.syntheticName = buildSyntheticName fix.origName h.bank h.wrapperPc16 := by
  obtain ⟨name, declared, hname, -, -, rfl⟩ := bypassed_eq_some_iff.mp hfix
  exact ⟨hname, rfl, rfl⟩

theorem bypassed_eq_none {h : Hit} {name : Token} (hfix : bypassed parsed nameMap h = none)
    (hname : nameMap h.addr = some name) {declared : Nat}
    (hdecl : nameToFuncPc parsed name = some declared) : declared = h.addr := by
  by_contra hne
  have hsome := bypassed_eq_some_iff.mpr ⟨name, declared, hname, hdecl, hne, rfl⟩
  rw [hfix] at hsome
  cases hsome

/-- Two finds of one wrapper get the same name. -/
theorem bypassed_same {h h' : Hit} (hpc : h.wrapperPc16 < 0x10000)
    (hpc' : h'.wrapperPc16 < 0x10000) (heq : h.addr = h'.addr) {fix : FixRecord}
    (hfix : bypassed parsed nameMap h = some fix) :
    ∃ fix', bypassed parsed nameMap h' = some fix' ∧ fix'.syntheticName = fix.syntheticName := by
  obtain ⟨hbank, hwrapper⟩ := Hit.eq_of_addr hpc hpc' heq
  obtain ⟨name, declared, hname, hdecl, hself, rfl⟩ := bypassed_eq_some_iff.mp hfix
  rw [heq] at hname hself
  refine ⟨_, bypassed_eq_some_iff.mpr ⟨name, declared, hname, hdecl, hself, rfl⟩, ?_⟩
  rw [hbank, hwrapper]

/-- The name of a declaration once the names of the map are `current`. -/
def currentName (nameMap current : NameMap) (nd : NameDecl) : Token :=
  if nameMap (declAddr nd) = some nd.name then (current (declAddr nd)).getD nd.name else nd.name

/-- What the turns for the wrappers `done` have made of the names. -/
structure Routed (parsed : Parsed) (nameMap : NameMap) (done : List Hit) (st : RouteState) :
    Prop where
  seen : ∀ a, a ∈ st.seen ↔ ∃ h ∈ done, h.addr = a ∧ (bypassed parsed nameMap h).isSome
  renamed : ∀ h ∈ done, ∀ fix, bypassed parsed nameMap h = some fix →
    st.nameMap h.addr = some fix.syntheticName
  kept : ∀ a, a ∉ st.seen → st.nameMap a = nameMap a
  crossBank : ∀ b, st.crossBank b = (crossBankNames parsed b).map fun nd =>
    { nd with name := currentName nameMap st.nameMap nd }
  fixes : st.fixes.map (fun f => f.hit.addr) = st.seen
  nodup : st.seen.Nodup
  fix : ∀ f ∈ st.fixes, f.hit ∈ done ∧ bypassed parsed nameMap f.hit = some f

theorem currentName_self (nd : NameDecl) : currentName nameMap nameMap nd = nd.name := by
  rw [currentName]
  by_cases h : nameMap (declAddr nd) = some nd.name
  · rw [if_pos h, h]
    rfl
  · rw [if_neg h]

theorem routed_nil : Routed parsed nameMap [] ⟨nameMap, crossBankNames parsed, [], []⟩ where
  seen := fun a => ⟨fun h => absurd h List.not_mem_nil, fun h => by
    obtain ⟨h, hh, _⟩ := h
    exact absurd hh List.not_mem_nil⟩
  renamed := fun h hh => absurd hh List.not_mem_nil
  kept := fun _ _ => rfl
  crossBank := by
    intro b
    simp only [currentName_self]
    exact (List.map_id _).symm
  fixes := rfl
  nodup := List.nodup_nil
  fix := fun f hf => absurd hf List.not_mem_nil

/-- A turn that changes nothing. -/
theorem Routed.skip {done : List Hit} {st : RouteState} (hst : Routed parsed nameMap done st)
    {h : Hit} (hseen : (bypassed parsed nameMap h).isSome → h.addr ∈ st.seen)
    (hrenamed : ∀ fix, bypassed parsed nameMap h = some fix →
      st.nameMap h.addr = some fix.syntheticName) :
    Routed parsed nameMap (done ++ [h]) st where
  seen := by
    intro a
    rw [hst.seen]
    constructor
    · rintro ⟨h', hh', hrest⟩
      exact ⟨h', List.mem_append_left _ hh', hrest⟩
    · rintro ⟨h', hh', haddr, hsome⟩
      rcases List.mem_append.mp hh' with hh' | hh'
      · exact ⟨h', hh', haddr, hsome⟩
      · rw [List.mem_singleton.mp hh'] at haddr hsome
        rw [← haddr, ← hst.seen]
        exact hseen hsome
  renamed := by
    intro h' hh' fix hfix
    rcases List.mem_append.mp hh' with hh' | hh'
    · exact hst.renamed h' hh' fix hfix
    · rw [List.mem_singleton.mp hh'] at hfix ⊢
      exact hrenamed fix hfix
  kept := hst.kept
  crossBank := hst.crossBank
  fixes := hst.fixes
  nodup := hst.nodup
  fix := fun f hf => ⟨List.mem_append_left _ (hst.fix f hf).1, (hst.fix f hf).2⟩

/-- What renaming the declarations of one wrapper makes of the current names. -/
theorem currentName_update {current : NameMap} {a : Nat} {fix : FixRecord}
    (hname : nameMap a = some fix.origName) (hcur : current a = nameMap a) (nd : NameDecl) :
    renameDecl a fix { nd with name := currentName nameMap current nd } =
      { nd with name :=
          currentName nameMap (Function.update current a (some fix.syntheticName)) nd } := by
  rw [renameDecl]
  change (if declAddr nd = a ∧ currentName nameMap current nd = fix.origName then
    { nd with name := fix.syntheticName }
      else { nd with name := currentName nameMap current nd }) = _
  by_cases haddr : declAddr nd = a
  · have hold : currentName nameMap current nd = nd.name := by
      rw [currentName, haddr, hcur]
      by_cases hsame : nameMap a = some nd.name
      · rw [if_pos hsame, hsame]
        rfl
      · rw [if_neg hsame]
    rw [hold, currentName, haddr, Function.update_self, hname]
    by_cases hsame : nd.name = fix.origName
    · rw [if_pos ⟨rfl, hsame⟩, if_pos (by rw [hsame])]
      rfl
    · rw [if_neg (fun h => hsame h.2), if_neg (fun h => hsame (Option.some.inj h).symm)]
  · rw [if_neg (fun h => haddr h.1), currentName, currentName, Function.update_of_ne haddr]

theorem mem_crossBankNames {b : Nat} {nd : NameDecl} :
    nd ∈ crossBankNames parsed b ↔ (∃ p ∈ parsed, nd ∈ p.2.names) ∧ declAddr nd / 0x10000 = b := by
  rw [crossBankNames, List.mem_filter, List.mem_flatMap, decide_eq_true_iff]

/-- A turn that gives the wrapper a name. -/
theorem Routed.apply {done : List Hit} {st : RouteState} (hst : Routed parsed nameMap done st)
    {h : Hit} (hpc : h.wrapperPc16 < 0x10000)
    (hnew : h.addr ∉ st.seen) {fix : FixRecord} (hfix : bypassed parsed nameMap h = some fix) :
    Routed parsed nameMap (done ++ [h])
      { nameMap := Function.update st.nameMap h.addr (some fix.syntheticName)
        crossBank := Function.update st.crossBank h.bank
          ((st.crossBank h.bank).map (renameDecl h.addr fix))
        seen := st.seen ++ [h.addr]
        fixes := st.fixes ++ [fix] } := by
  obtain ⟨hname, hhit, _⟩ := bypassed_eq_some hfix
  refine ⟨?_, ?_, ?_, ?_, ?_, ?_, ?_⟩
  · intro a
    rw [List.mem_append, List.mem_singleton, hst.seen]
    constructor
    · rintro (⟨h', hh', hrest⟩ | rfl)
      · exact ⟨h', List.mem_append_left _ hh', hrest⟩
      · exact ⟨h, List.mem_append_right _ (List.mem_singleton_self h), rfl, by rw [hfix]; rfl⟩
    · rintro ⟨h', hh', haddr, hsome⟩
      rcases List.mem_append.mp hh' with hh' | hh'
      · exact .inl ⟨h', hh', haddr, hsome⟩
      · rw [List.mem_singleton.mp hh'] at haddr
        exact .inr haddr.symm
  · intro h' hh' fix' hfix'
    rcases List.mem_append.mp hh' with hh' | hh'
    · by_cases haddr : h'.addr = h.addr
      · have hsome : h.addr ∈ st.seen :=
          (hst.seen _).mpr ⟨h', hh', haddr, by rw [hfix']; rfl⟩
        exact absurd hsome hnew
      · change Function.update st.nameMap h.addr (some fix.syntheticName) h'.addr = _
        rw [Function.update_of_ne haddr]
        exact hst.renamed h' hh' fix' hfix'
    · rw [List.mem_singleton.mp hh'] at hfix' ⊢
      rw [hfix] at hfix'
      rw [← Option.some.inj hfix']
      exact Function.update_self ..
  · intro a ha
    have hne : a ≠ h.addr := fun heq => ha (List.mem_append_right _ (by rw [heq]; simp))
    change Function.update st.nameMap h.addr (some fix.syntheticName) a = nameMap a
    rw [Function.update_of_ne hne]
    exact hst.kept a fun hmem => ha (List.mem_append_left _ hmem)
  · intro b
    by_cases hb : b = h.bank
    · rw [hb]
      change Function.update st.crossBank h.bank _ h.bank = _
      rw [Function.update_self, hst.crossBank, List.map_map]
      apply List.map_congr_left
      intro nd _
      exact currentName_update hname (hst.kept _ hnew) nd
    · change Function.update st.crossBank h.bank _ b = _
      rw [Function.update_of_ne hb, hst.crossBank]
      apply List.map_congr_left
      intro nd hnd
      have haddr : declAddr nd ≠ h.addr := by
        intro heq
        have hbank := (mem_crossBankNames.mp hnd).2
        rw [heq, Hit.addr] at hbank
        omega
      have hsame : currentName nameMap st.nameMap nd = currentName nameMap
          (Function.update st.nameMap h.addr (some fix.syntheticName)) nd := by
        rw [currentName, currentName, Function.update_of_ne haddr]
      rw [hsame]
  · change (st.fixes ++ [fix]).map _ = st.seen ++ [h.addr]
    rw [List.map_append, hst.fixes, List.map_singleton, hhit]
  · refine List.nodup_append.mpr ⟨hst.nodup, List.nodup_singleton _, ?_⟩
    intro a ha b hb heq
    rw [List.mem_singleton.mp hb] at heq
    exact hnew (heq ▸ ha)
  · intro f hf
    rcases List.mem_append.mp hf with hf | hf
    · exact ⟨List.mem_append_left _ (hst.fix f hf).1, (hst.fix f hf).2⟩
    · rw [List.mem_singleton.mp hf, hhit]
      exact ⟨List.mem_append_right _ (List.mem_singleton_self h), hfix⟩

theorem Routed.routeHit {done : List Hit} {st : RouteState} (hst : Routed parsed nameMap done st)
    (hpcs : ∀ h ∈ done, h.wrapperPc16 < 0x10000) {h : Hit} (hpc : h.wrapperPc16 < 0x10000) :
    Routed parsed nameMap (done ++ [h]) (routeHit parsed st h) := by
  rw [Wrapper.routeHit]
  by_cases hseen : h.addr ∈ st.seen
  · rw [if_pos hseen]
    refine hst.skip (fun _ => hseen) fun fix hfix => ?_
    obtain ⟨h', hh', haddr, hsome⟩ := (hst.seen _).mp hseen
    obtain ⟨fix', hfix', hsame⟩ := bypassed_same hpc (hpcs h' hh') haddr.symm hfix
    rw [← haddr, ← hsame]
    exact hst.renamed h' hh' fix' hfix'
  · rw [if_neg hseen, bypassed_congr (hst.kept _ hseen)]
    cases hfix : bypassed parsed nameMap h with
    | none =>
        refine hst.skip (fun hsome => ?_) fun fix hfix' => ?_
        · rw [hfix] at hsome
          cases hsome
        · rw [hfix] at hfix'
          cases hfix'
    | some fix => exact hst.apply hpc hseen hfix

theorem routed_foldl (hits : List Hit) {done : List Hit} {st : RouteState}
    (hst : Routed parsed nameMap done st)
    (hpcs : ∀ h ∈ done ++ hits, h.wrapperPc16 < 0x10000) :
    Routed parsed nameMap (done ++ hits) (hits.foldl (Wrapper.routeHit parsed) st) := by
  induction hits generalizing done st with
  | nil =>
      rw [List.append_nil]
      exact hst
  | cons h hits ih =>
      have hnext := hst.routeHit (fun h' hh' => hpcs h' (List.mem_append_left _ hh'))
        (hpcs h (List.mem_append_right _ List.mem_cons_self))
      have hall := ih hnext (by
        rw [List.append_assoc]
        exact hpcs)
      rw [List.append_assoc] at hall
      exact hall

theorem routed_detectAndRoute (rom : Rom) :
    Routed parsed nameMap (allHits rom parsed) (detectAndRoute rom parsed nameMap) := by
  exact routed_foldl (allHits rom parsed) routed_nil fun h hh => allHits_pc hh

/-! ### Names attached to one function -/

/-- A name some `func` or `name` line declares. -/
def Declared (parsed : Parsed) (name : Token) : Prop :=
  (∃ d ∈ funcDecls parsed, d.1 = name) ∨ ∃ p ∈ parsed, ∃ nd ∈ p.2.names, nd.name = name

/-- The name of a wrapper is declared as a function nowhere else, synthetic names are new and
different, and every declaration for a wrapper has the name of the map. -/
structure NamesAttached (parsed : Parsed) (hits : List Hit) (st : RouteState) : Prop where
  oneFunction : ∀ h ∈ hits, ∀ name, st.nameMap h.addr = some name →
    ∀ d ∈ funcDecls parsed, d.1 = name → d.2 = h.addr
  distinct : (st.fixes.map (·.syntheticName)).Nodup
  fresh : ∀ f ∈ st.fixes, ¬Declared parsed f.syntheticName
  agree : ∀ h ∈ hits, ∀ name, st.nameMap h.addr = some name →
    ∀ b, ∀ nd ∈ st.crossBank b, declAddr nd = h.addr → nd.name = name

/-- A name declared first at the wrapper that has it is declared there only, no synthetic name
is a declared one, and the declarations for a wrapper have one name. -/
structure NoClash (parsed : Parsed) (nameMap : NameMap) (hits : List Hit) : Prop where
  once : ∀ h ∈ hits, ∀ name, nameMap h.addr = some name →
    nameToFuncPc parsed name = some h.addr → ∀ d ∈ funcDecls parsed, d.1 = name → d.2 = h.addr
  fresh : ∀ h ∈ hits, ∀ fix, bypassed parsed nameMap h = some fix →
    ¬Declared parsed fix.syntheticName
  agree : ∀ h ∈ hits, ∀ name, nameMap h.addr = some name →
    ∀ p ∈ parsed, ∀ nd ∈ p.2.names, declAddr nd = h.addr → nd.name = name

theorem nameToFuncPc_isSome {d : Token × Nat} (hd : d ∈ funcDecls parsed) :
    ∃ a, nameToFuncPc parsed d.1 = some a := by
  cases hfind : (funcDecls parsed).find? fun e => e.1 = d.1 with
  | none =>
      have hnot := List.find?_eq_none.mp hfind d hd
      simp at hnot
  | some e => exact ⟨e.2, by rw [nameToFuncPc, hfind]; rfl⟩

variable {hits : List Hit} {st : RouteState}

theorem Routed.nameMap_of_none (hst : Routed parsed nameMap hits st)
    (hpcs : ∀ h ∈ hits, h.wrapperPc16 < 0x10000) {h : Hit} (hh : h ∈ hits)
    (hfix : bypassed parsed nameMap h = none) : st.nameMap h.addr = nameMap h.addr := by
  apply hst.kept
  intro hseen
  obtain ⟨h', hh', haddr, hsome⟩ := (hst.seen _).mp hseen
  obtain ⟨fix', hfix'⟩ := Option.isSome_iff_exists.mp hsome
  obtain ⟨fix, hfix'', _⟩ := bypassed_same (hpcs h' hh') (hpcs h hh) haddr hfix'
  rw [hfix] at hfix''
  cases hfix''

/-- The synthetic names differ, whatever the configuration. -/
theorem Routed.distinct (hst : Routed parsed nameMap hits st) :
    (st.fixes.map (·.syntheticName)).Nodup := by
  have haddrs : (st.fixes.map fun f => f.hit.addr).Nodup := by
    rw [hst.fixes]
    exact hst.nodup
  rw [List.nodup_map_iff_inj_on (List.Nodup.of_map _ haddrs)]
  intro f hf g hg heq
  obtain ⟨hfd, hfix⟩ := hst.fix f hf
  obtain ⟨hgd, hgix⟩ := hst.fix g hg
  rw [(bypassed_eq_some hfix).2.2, (bypassed_eq_some hgix).2.2] at heq
  obtain ⟨hbank, hpc⟩ := buildSyntheticName_inj heq
  apply List.inj_on_of_nodup_map haddrs hf hg
  rw [Hit.addr, Hit.addr, hbank, hpc]

theorem Routed.attached_iff (hst : Routed parsed nameMap hits st)
    (hpcs : ∀ h ∈ hits, h.wrapperPc16 < 0x10000) :
    NamesAttached parsed hits st ↔ NoClash parsed nameMap hits := by
  constructor
  · intro hatt
    have hfresh : ∀ h ∈ hits, ∀ fix, bypassed parsed nameMap h = some fix →
        ¬Declared parsed fix.syntheticName := by
      intro h hh fix hfix
      have hseen : h.addr ∈ st.seen := (hst.seen _).mpr ⟨h, hh, rfl, by rw [hfix]; rfl⟩
      rw [← hst.fixes] at hseen
      obtain ⟨f, hf, haddr⟩ := List.mem_map.mp hseen
      obtain ⟨hfd, hffix⟩ := hst.fix f hf
      obtain ⟨fix', hfix', hsame⟩ := bypassed_same (hpcs _ hfd) (hpcs h hh) haddr hffix
      rw [hfix] at hfix'
      rw [Option.some.inj hfix', hsame]
      exact hatt.fresh f hf
    refine ⟨fun h hh name hname hdecl d hd hdname => ?_, hfresh,
      fun h hh name hname p hp nd hnd haddr => ?_⟩
    · have hnone : bypassed parsed nameMap h = none := by
        rw [bypassed, hname]
        dsimp only
        rw [hdecl]
        exact if_pos rfl
      have hkept := hst.nameMap_of_none hpcs hh hnone
      exact hatt.oneFunction h hh name (hkept.trans hname) d hd hdname
    · by_contra hne
      have hcur : currentName nameMap st.nameMap nd = nd.name := by
        rw [currentName, if_neg]
        rw [haddr, hname]
        exact fun h => hne (Option.some.inj h).symm
      have hmem : nd ∈ st.crossBank (declAddr nd / 0x10000) := by
        rw [hst.crossBank]
        refine List.mem_map.mpr ⟨nd, mem_crossBankNames.mpr ⟨⟨p, hp, hnd⟩, rfl⟩, ?_⟩
        rw [hcur]
      cases hfix : bypassed parsed nameMap h with
      | none =>
          have hkept := hst.nameMap_of_none hpcs hh hfix
          exact hne (hatt.agree h hh name (hkept.trans hname) _ nd hmem haddr)
      | some fix =>
          have hname' := hatt.agree h hh _ (hst.renamed h hh fix hfix) _ nd hmem haddr
          exact hfresh h hh fix hfix (.inr ⟨p, hp, nd, hnd, hname'⟩)
  · intro hclear
    refine ⟨fun h hh name hname d hd hdname => ?_, hst.distinct,
      fun f hf => hclear.fresh _ (hst.fix f hf).1 f (hst.fix f hf).2,
      fun h hh name hname b nd' hnd' haddr => ?_⟩
    · cases hfix : bypassed parsed nameMap h with
      | none =>
          rw [hst.nameMap_of_none hpcs hh hfix] at hname
          obtain ⟨a, ha⟩ := nameToFuncPc_isSome hd
          rw [hdname] at ha
          rw [bypassed_eq_none hfix hname ha] at ha
          exact hclear.once h hh name hname ha d hd hdname
      | some fix =>
          rw [hst.renamed h hh fix hfix] at hname
          rw [← Option.some.inj hname] at hdname
          exact absurd (.inl ⟨d, hd, hdname⟩) (hclear.fresh h hh fix hfix)
    · rw [hst.crossBank] at hnd'
      obtain ⟨nd, hnd, rfl⟩ := List.mem_map.mp hnd'
      obtain ⟨⟨p, hp, hndp⟩, _⟩ := mem_crossBankNames.mp hnd
      change declAddr nd = h.addr at haddr
      change currentName nameMap st.nameMap nd = name
      obtain ⟨old, hold⟩ : ∃ old, nameMap h.addr = some old := by
        cases hfix : bypassed parsed nameMap h with
        | none => exact ⟨name, (hst.nameMap_of_none hpcs hh hfix).symm.trans hname⟩
        | some fix => exact ⟨_, (bypassed_eq_some hfix).1⟩
      have hsame := hclear.agree h hh old hold p hp nd hndp haddr
      rw [currentName, haddr, if_pos (by rw [hold, hsame]), hname]
      rfl

/-- **A wrapper ends up with one name and that name with one function exactly when the
configuration does not clash**, whatever the ROM and the map. -/
theorem namesAttached_iff (rom : Rom) (parsed : Parsed) (nameMap : NameMap) :
    NamesAttached parsed (allHits rom parsed) (detectAndRoute rom parsed nameMap) ↔
      NoClash parsed nameMap (allHits rom parsed) :=
  (routed_detectAndRoute rom).attached_iff fun _ hh => allHits_pc hh

end Runs

/-! ### A name declared twice -/

/-- Bank `$01` begins with a wrapper of `$01:9000`. -/
def wrapperRom : Rom :=
  ⟨0x18000, fun off => ([0x8B, 0x4B, 0xAB, 0x20, 0x00, 0x90, 0xAB, 0x6B] : List Byte).getD
    (off - 0x8000) 0⟩

/-- The wrapper and a function of bank `$02` have one name. -/
def twiceDeclared : Parsed :=
  [(1, { entries := [{ name := ['f'], start := 0x8000 }] }),
    (2, { entries := [{ name := ['f'], start := 0x9000 }] })]

theorem mem_allHits_wrapperRom : ⟨1, 0x8000, 0x9000⟩ ∈ allHits wrapperRom twiceDeclared := by
  refine List.mem_flatMap.mpr ⟨_, List.mem_cons_self, ?_⟩
  rw [scanBankForWrappers, if_neg (by decide), scanFrom, if_neg (by decide)]
  dsimp only
  rw [if_pos (by decide), if_pos (by decide)]
  exact List.mem_cons_self

/-- Its name stays declared at two addresses. -/
theorem not_namesAttached_twiceDeclared :
    ¬NamesAttached twiceDeclared (allHits wrapperRom twiceDeclared)
      (detectAndRoute wrapperRom twiceDeclared (collectNames twiceDeclared)) := by
  intro h
  have hclash := ((routed_detectAndRoute wrapperRom).attached_iff fun _ hh => allHits_pc hh).mp h
  have honce := hclash.once _ mem_allHits_wrapperRom ['f'] (by decide) (by decide)
    (['f'], 0x29000) (by decide) rfl
  exact absurd honce (by decide)

end SnesRecomp.Regen.Wrapper
