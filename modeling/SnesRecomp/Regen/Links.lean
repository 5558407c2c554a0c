import SnesRecomp.Regen.Names
import SnesRecomp.Regen.StaysPruned

/-!
# References after convergence

In the last pass nothing is promoted or pruned, so each demand that could be promoted is an
entry already, and its body is written with the others of its bank.  What the lines name is
demanded; so it is defined under its name, and it has not been pruned.  A data region is left
alone by promotion: a reference into one stays as it is.
-/

namespace SnesRecomp.Regen

open Recompiler

/-- The target is one the loop answers for: its symbol is in a bank with a cfg, and the
variant is an entry already or may become one. -/
def Answerable (cfg : RegenConfig) (s : RegenState) (t : Variant) : Prop :=
  bankOf (s.symbolAddr t.1) ∈ cfg.banks ∧
    (cfg.inDataRegion (cfg.homeBank t.1) (t.1 &&& 0xFFFF) = false ∨ s.symbol t ∈ s.entries)

/-- A handler forced to `M1X1` whose `M1X1` variant is pruned. -/
def ForcedOff (s : RegenState) (a : HostAct) : Prop :=
  ∃ t, a.forced = some t ∧ s.symbol (t, true, true) ∈ s.pruned

section Demands

variable {cfg : RegenConfig} {s : RegenState} (env : PassEnv)

/-- The symbol of a demand is not a pruned variant's. -/
theorem symbol_not_pruned (hsound : Sound cfg s) (hnamed : Named s) {maps : Maps}
    (hmaps : maps.validVariants = s.valid) {a : HostAct} (ha : a.Surviving maps)
    (hforced : ¬ ForcedOff s a) {d : Variant} (hd : d ∈ a.demands maps) : s.symbol d ∉ s.pruned := by
  intro hp
  rcases HostAct.demands_survive ha hd with hsurv | ⟨hforce, hm1x1⟩
  · exact hsound.not_survivor hnamed hmaps hp rfl hsurv
  · refine hforced ⟨d.1, hforce, ?_⟩
    rwa [← hm1x1]

/-- In a stable pass every demand that can be promoted is an entry. -/
theorem mem_entries_of_isStable (hstable : isStable cfg env s = true) {d k : Variant}
    (hd : d ∈ passDemands cfg env s) (hp : d ∉ s.pruned) (hkey : cfg.promotionKey d = some k) :
    k ∈ s.entries := by
  obtain ⟨hadded, hnewly, _⟩ := of_decide_eq_true hstable
  obtain ⟨hs, hprune, _⟩ := entries_of_isStable env hstable
  by_contra hentry
  have hkept : d ∉ (afterPrune cfg env s).pruned := by
    rw [mem_afterPrune_pruned env, hnewly]
    simpa using hp
  have hnew : k ∉ (afterPrune cfg env s).entries := by
    rw [hprune]
    show k ∉ (afterDiscovery cfg env s).entries
    rwa [hs]
  have hmem : k ∈ addedEntries cfg env s := (mem_addedEntries env).mpr
    ⟨⟨d, List.mem_filter.mpr ⟨hd, decide_eq_true hkept⟩, hkey⟩, hnew⟩
  rw [hadded] at hmem
  cases hmem

/-- In a stable pass every demand the loop answers for is for an entry. -/
theorem symbol_mem_entries (hsound : Sound cfg s) (hnamed : Named s)
    (hstable : isStable cfg env s = true) {d : Variant} (hd : d ∈ passDemands cfg env s)
    (hpruned : s.symbol d ∉ s.pruned) (h : Answerable cfg s d) : s.symbol d ∈ s.entries := by
  obtain ⟨hbank, hregion | hentry⟩ := h
  · have hhome := homeBank_of_symbol hbank
    have hkept : d ∉ s.pruned := by
      intro hp
      -- a pruned variant names itself
      obtain ⟨c, _, hc⟩ := (hsound.pruned_ok d hp).2
      obtain ⟨hlt, _⟩ := hsound.addr_of_pruned hp
      have hname : d.1 &&& 0xFFFFFF ∈ s.names := (mask_of_lt hlt).symm ▸ hnamed (d.1, c) hc
      have hsym : s.symbolAddr d.1 = d.1 &&& 0xFFFFFF := by
        unfold RegenState.symbolAddr
        exact if_pos hname
      refine hpruned ?_
      unfold RegenState.symbol
      rw [hsym, mask_of_lt hlt]
      exact hp
    have hkey := mem_entries_of_isStable env hstable hd hkept (promotionKey_of_mem hhome hregion)
    have hsym : s.symbolAddr d.1 = cfg.home d.1 := symbol_eq_home (hnamed _ hkey) hhome hbank
    unfold RegenState.symbol
    rwa [hsym]
  · exact hentry

end Demands

/-- The references and demands of what a pass writes lead to bodies it writes. -/
structure NothingDangles (cfg : RegenConfig) (env : PassEnv) (s : NamedState) : Prop where
  demands : ∀ r ∈ passBodies cfg env s.state, ∀ a ∈ r.2.fn.acts, ¬ ForcedOff s.state a →
    ∀ d ∈ a.demands (passMaps env s.state r.1), Answerable cfg s.state d →
      s.state.symbol d ∈ (prunePass cfg env s.state).entries ∧
        s.state.symbol d ∉ (prunePass cfg env s.state).pruned ∧
        (bankOk (passEmits cfg env s.state) (bankOf (s.state.symbolAddr d.1)) = true →
          s.Defined cfg env d)
  refs : ∀ r ∈ passBodies cfg env s.state, ∀ a ∈ r.2.fn.acts, ¬ ForcedOff s.state a →
    ¬ a.PinnedOff (passMaps env s.state r.1) → ∀ t ∈ a.refs, Answerable cfg s.state t →
      s.state.symbol t ∉ (prunePass cfg env s.state).pruned ∧
        (bankOk (passEmits cfg env s.state) (bankOf (s.state.symbolAddr t.1)) = true →
          s.Defined cfg env t)
  rows : ∀ v ∈ dispatchTable (prunePass cfg env s.state),
    v ∈ (prunePass cfg env s.state).disk ∧ v ∉ (prunePass cfg env s.state).pruned

/-- The names of the one entry. -/
def Naming.single (regions : List (Nat × Nat × Nat)) (entry named : String) :
    Naming (.single regions) where
  entry _ := .given entry
  nameMap addr := if addr = 0x8000 then some (.given named) else none
  keys addr := by
    show _ ↔ addr ∈ [0x8000]
    split <;> simp [*]

theorem oneName_single (regions : List (Nat × Nat × Nat)) (name : String) :
    (Naming.single regions name name).OneName := by
  have hmap : ∀ {a : Nat} {n : BaseName}, (Naming.single regions name name).nameMap a = some n →
      a = 0x8000 ∧ n = .given name := by
    intro a n h
    simpa [Naming.single, eq_comm] using h
  refine ⟨fun v hv => ?_, fun a b n ha hb => ?_, fun a b ha => ?_⟩
  · obtain rfl := List.mem_singleton.mp hv
    rfl
  · rw [(hmap ha).1, (hmap hb).1]
  · cases (hmap ha).2

/-- `JSR $8010; RTS` and, at `$8010`, `RTS`. -/
def nearCall : List Byte :=
  [0x20, 0x10, 0x80, 0x60, 0, 0, 0, 0, 0, 0, 0, 0, 0, 0, 0, 0, 0x60]

/-- `func Main 8000`, `func Foo 8010` and `name 008010 Bar`, and a jump from the first to the
second: the loop ends in its first pass, with a tail call of `Bar` and a body `Foo`. -/
example :
    let cfg : RegenConfig := ⟨[0], [], [(0x8000, true, true), (0x8010, true, true)], [], [], [],
      by decide⟩
    let env : PassEnv := .plain ([0x4C, 0x10, 0x80] ++ List.replicate 13 0 ++ [0x60])
    let names (main foo : String) (addr : Nat) : Option BaseName :=
      if addr = 0x8000 then some (.given main) else if addr = 0x8010 then some (.given foo) else none
    let s : NamedState := ⟨cfg.initial, fun v => (names "Main" "Foo" v.1).getD (.synthetic v.1),
      names "Main" "Bar"⟩
    (prunePass cfg env s.state).converged = true ∧
      (∃ r ∈ passBodies cfg env s.state, ∃ a ∈ r.2.fn.acts, (0x8010, true, true) ∈ a.refs) ∧
      ¬ s.Defined cfg env (0x8010, true, true) := by
  decide

end SnesRecomp.Regen
