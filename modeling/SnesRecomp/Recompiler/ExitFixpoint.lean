import SnesRecomp.Recompiler.ExitModes
import Mathlib.Data.Fintype.Option
import Mathlib.Data.Fintype.Prod

/-!
# When the exit modes do not depend on the order

A clean pass leaves every record equal to what is derived for its variant: `exitMap_fixed`.
The passes need not end with one, and what they end with may depend on the order of the
visits: two functions that call one another can each be the one that has a record.

`Ranked` is the condition under which nothing of this happens.  It holds of functions whose
calls go down in rank: a variant is decoded and analysed under the records of the variants it
calls or dispatches to, and under no others (`decodeVariantExit_congr`).
-/

namespace SnesRecomp.Recompiler

/-- The same visits and the same directives, in any order. -/
structure Reordered (parsed parsed' : List BankCfg) : Prop where
  visits : (routeVisits parsed').Perm (routeVisits parsed)
  directives : (directives parsed').Perm (directives parsed)

/-- The exit modes are an order-independent fixpoint. -/
structure OrderIndependentFixpoint (rt : RouteInput) (parsed : List BankCfg) : Prop where
  /-- The order of banks, entries and directives does not matter. -/
  order : ∀ parsed', Reordered parsed parsed' → exitMap rt parsed' = exitMap rt parsed
  /-- What a converged run has recorded is what is derived under it. -/
  fixed : converged rt parsed = true → ∀ v ∈ routeVisits parsed,
    exitMap rt parsed v.key = decodeVariantExit rt (exitMap rt parsed) v
  /-- What is left when the limit is hit is not used. -/
  limit : converged rt parsed = false → detectAndRoute rt parsed = []

/-- `exit_mx_at` does not contradict itself. -/
def SeedsAgree (parsed : List BankCfg) : Prop :=
  ∀ d ∈ directives parsed, ∀ d' ∈ directives parsed, d.target = d'.target →
    (d.exitM, d.exitX) = (d'.exitM, d'.exitX)

instance (parsed : List BankCfg) : Decidable (SeedsAgree parsed) :=
  inferInstanceAs (Decidable (∀ d ∈ directives parsed, ∀ d' ∈ directives parsed,
    d.target = d'.target → (d.exitM, d.exitX) = (d'.exitM, d'.exitX)))

/-- Ranks below `n`, such that the exit of a variant is determined by the records of smaller
rank: it is the same under any two maps with these records that visits lead to. -/
def RankedBelow (rt : RouteInput) (parsed : List BankCfg) (n : Nat) (rank : ExitKey → Nat) : Prop :=
  (∀ v ∈ routeVisits parsed, rank v.key < n) ∧
    Sweeps.Ranked (routeSystem rt) {v | v ∈ routeVisits parsed} (seeds parsed) rank

/-- An exit in other widths than those of entry is emitted. -/
theorem mutating_eq_some {callees : ExitMap} {v : RouteVisit} {mode : Bool × Bool}
    (h : callees v.key = some mode) (hmode : mode.1 ≠ v.em ∨ mode.2 ≠ v.ex) :
    mutating callees v = some (v, mode) := by
  unfold mutating
  rw [h]
  exact if_pos hmode

/-! ### Seeds -/

theorem foldl_seed_none {k : ExitKey} : ∀ (ds : List ExitMxAt) (s : ExitMap),
    (∀ d ∈ ds, d.target ≠ k.1) → ds.foldl seed s k = s k := by
  intro ds
  induction ds with
  | nil => intro s _; rfl
  | cons d ds ih =>
    intro s h
    rw [List.foldl_cons, ih _ fun e he => h e (List.mem_cons_of_mem d he)]
    exact if_neg (h d List.mem_cons_self).symm

/-- A record that all directives for the target give is the seed, when there is one. -/
theorem foldl_seed_of_forall {k : ExitKey} {mode : Bool × Bool} : ∀ (ds : List ExitMxAt)
    (s : ExitMap), (∀ d ∈ ds, d.target = k.1 → (d.exitM, d.exitX) = mode) →
    s k = some mode ∨ (∃ d ∈ ds, d.target = k.1) → ds.foldl seed s k = some mode := by
  intro ds
  induction ds with
  | nil =>
    intro s _ h
    refine h.resolve_right ?_
    rintro ⟨d, hd, _⟩
    cases hd
  | cons d ds ih =>
    intro s hall h
    rw [List.foldl_cons]
    refine ih _ (fun e he => hall e (List.mem_cons_of_mem d he)) ?_
    by_cases hd : d.target = k.1
    · left
      have hmode : some (d.exitM, d.exitX) = some mode := by rw [hall d List.mem_cons_self hd]
      exact (if_pos hd.symm).trans hmode
    · rcases h with h | ⟨e, he, hek⟩
      · exact Or.inl ((if_neg fun hk => hd hk.symm).trans h)
      · rcases List.mem_cons.mp he with rfl | he
        · exact absurd hek hd
        · exact Or.inr ⟨e, he, hek⟩

theorem seeds_eq_none {parsed : List BankCfg} {k : ExitKey}
    (h : ∀ d ∈ directives parsed, d.target ≠ k.1) : seeds parsed k = none :=
  foldl_seed_none _ _ h

/-- Directives that agree give the same seeds in every order. -/
theorem seeds_eq {parsed parsed' : List BankCfg} (h : SeedsAgree parsed)
    (hperm : (directives parsed').Perm (directives parsed)) : seeds parsed' = seeds parsed := by
  funext k
  by_cases hk : ∃ d ∈ directives parsed, d.target = k.1
  · obtain ⟨d, hd, hdk⟩ := hk
    have hall : ∀ e ∈ directives parsed, e.target = k.1 →
        (e.exitM, e.exitX) = (d.exitM, d.exitX) := fun e he hek => h e he d hd (hek.trans hdk.symm)
    calc seeds parsed' k = some (d.exitM, d.exitX) :=
          foldl_seed_of_forall _ _ (fun e he => hall e (hperm.mem_iff.mp he))
            (Or.inr ⟨d, hperm.mem_iff.mpr hd, hdk⟩)
      _ = seeds parsed k := (foldl_seed_of_forall _ _ hall (Or.inr ⟨d, hd, hdk⟩)).symm
  · have hnone : ∀ d ∈ directives parsed, d.target ≠ k.1 := fun d hd hdk => hk ⟨d, hd, hdk⟩
    calc seeds parsed' k = none := seeds_eq_none fun d hd => hnone d (hperm.mem_iff.mp hd)
      _ = seeds parsed k := (seeds_eq_none hnone).symm

/-! ### The records an analysis asks for -/

/-- The records that the edge behind a call is looked up in. -/
def callKeys (bank : Nat) (key : DecodeKey) (insn : Insn) : List ExitKey :=
  match callTarget insn bank with
  | none => []
  | some t => [(t, key.m, key.x), (t ^^^ 0x800000, key.m, key.x)]

/-- The records of the handlers that a graph ends in. -/
def handlerKeysAt (di : DecodedInsn) : List ExitKey :=
  if isDispatchTerm di then
    match di.dispatch with
    | none => []
    | some d => handlerExitKeys di.insn d
  else []

section Congruence

variable (rt : RouteInput) {s s' : ExitMap}

theorem exitMx_congr {insn : Insn} {bank : Nat} {key : DecodeKey}
    (h : ∀ k ∈ callKeys bank key insn, s k = s' k) :
    exitMx (rt.maps s) insn bank key.m key.x = exitMx (rt.maps s') insn bank key.m key.x := by
  unfold exitMx
  unfold callKeys at h
  cases htarget : callTarget insn bank with
  | none => rfl
  | some t =>
    rw [htarget] at h
    have ht := h (t, key.m, key.x) List.mem_cons_self
    have hmirror := h (t ^^^ 0x800000, key.m, key.x) (List.mem_cons_of_mem _ List.mem_cons_self)
    have hget : getMirrored (fun a => (rt.maps s).calleeExitMx a key.m key.x) t =
        getMirrored (fun a => (rt.maps s').calleeExitMx a key.m key.x) t := by
      unfold getMirrored RouteInput.maps
      dsimp only
      rw [ht, hmirror]
    simp only [Option.bind_some, hget]

theorem postState_call {insn : Insn} (h : insn.mnem = .jsr ∨ insn.mnem = .jsl) (m x : Bool)
    (pStack : List (Bool × Bool)) : postState insn m x pStack = (m, x, pStack) := by
  unfold postState
  rcases h with h | h <;> rw [h]

theorem returnModes_congr {insn : Insn} {bank : Nat} {key : DecodeKey} (rom : Rom)
    (h : ∀ k ∈ callKeys bank key insn, s k = s' k) :
    returnModes (rt.maps s) rom insn bank key.m key.x = returnModes (rt.maps s') rom insn bank key.m key.x := by
  unfold returnModes
  rw [exitMx_congr rt h]
  rfl

theorem labeledSuccessors_congr {insn : Insn} {bank : Nat} {key : DecodeKey} (rom : Rom)
    (h : ∀ k ∈ callKeys bank key insn, s k = s' k) :
    labeledSuccessors (rt.maps s) rom insn key bank = labeledSuccessors (rt.maps s') rom insn key bank := by
  by_cases hcall : insn.mnem = .jsr ∨ insn.mnem = .jsl
  · unfold labeledSuccessors
    rw [postState_call hcall]
    dsimp only
    rw [returnModes_congr rt rom h]
    rfl
  · unfold labeledSuccessors
    dsimp only
    rw [if_neg hcall, if_neg hcall]

variable (v : RouteVisit)

theorem decodeOne_congr {key : DecodeKey} {insn : Insn}
    (h : ∀ k ∈ callKeys v.bank key insn, s k = s' k) :
    decodeOne (rt.decodeInput s v) key insn = decodeOne (rt.decodeInput s' v) key insn := by
  have hsuccs : labeledSuccessors (rt.decodeInput s v).maps (rt.decodeInput s v).rom insn key
      (rt.decodeInput s v).bank =
      labeledSuccessors (rt.decodeInput s' v).maps (rt.decodeInput s' v).rom insn key
        (rt.decodeInput s' v).bank := labeledSuccessors_congr rt rt.rom h
  unfold decodeOne decodeIndirectCall
  rw [hsuccs]
  rfl

theorem mem_of_decodeLoop (inp : DecodeInput) : ∀ (room : Nat) (worklist : List WorkItem)
    (insns out : List DecodedInsn), decodeLoop inp room worklist insns = some out →
    ∀ di ∈ insns, di ∈ out := by
  intro room
  induction room with
  | zero =>
    intro worklist insns out h di hdi
    cases worklist with
    | nil => exact Option.some.inj h ▸ hdi
    | cons item rest => cases h
  | succ room ih =>
    intro worklist insns out h di hdi
    rw [decodeLoop] at h
    cases hdrop : worklist.dropWhile (skipped inp insns) with
    | nil =>
      rw [hdrop] at h
      exact Option.some.inj h ▸ hdi
    | cons item rest =>
      rw [hdrop] at h
      cases hinsn : decodeAt inp.rom inp.bank (item.key.pc &&& 0xFFFF) item.key.m item.key.x with
      | none =>
        simp only [hinsn] at h
        cases h
      | some insn =>
        simp only [hinsn] at h
        exact ih _ _ _ h di (List.mem_append_left _ hdi)

/-- A decode asks for the records of the calls it finds, and for no others. -/
theorem decodeLoop_congr : ∀ (room : Nat) (worklist : List WorkItem)
    (insns out : List DecodedInsn),
    decodeLoop (rt.decodeInput s v) room worklist insns = some out →
    (∀ di ∈ out, ∀ k ∈ callKeys v.bank di.key di.insn, s k = s' k) →
    decodeLoop (rt.decodeInput s' v) room worklist insns = some out := by
  intro room
  induction room with
  | zero =>
    intro worklist insns out h _
    cases worklist with
    | nil => exact h
    | cons item rest => cases h
  | succ room ih =>
    intro worklist insns out h hasks
    rw [decodeLoop] at h ⊢
    have hskip : skipped (rt.decodeInput s' v) insns = skipped (rt.decodeInput s v) insns := rfl
    rw [hskip]
    cases hdrop : worklist.dropWhile (skipped (rt.decodeInput s v) insns) with
    | nil =>
      rw [hdrop] at h
      exact h
    | cons item rest =>
      rw [hdrop] at h
      have hrom : decodeAt (rt.decodeInput s' v).rom (rt.decodeInput s' v).bank
          (item.key.pc &&& 0xFFFF) item.key.m item.key.x =
          decodeAt (rt.decodeInput s v).rom (rt.decodeInput s v).bank (item.key.pc &&& 0xFFFF)
            item.key.m item.key.x := rfl
      cases hinsn : decodeAt (rt.decodeInput s v).rom (rt.decodeInput s v).bank
          (item.key.pc &&& 0xFFFF) item.key.m item.key.x with
      | none =>
        simp only [hinsn] at h
        cases h
      | some insn =>
        simp only [hrom, hinsn] at h ⊢
        have hmem := mem_of_decodeLoop _ room _ _ out h
          (decodeOne (rt.decodeInput s v) item.key insn).insn
          (List.mem_append_right _ (List.mem_singleton_self _))
        have hself := decodeOne_self (rt.decodeInput s v) item.key insn
        have hone : decodeOne (rt.decodeInput s' v) item.key insn =
            decodeOne (rt.decodeInput s v) item.key insn := by
          refine (decodeOne_congr rt v fun k hk => hasks _ hmem k ?_).symm
          rw [hself.1, hself.2]
          exact hk
        rw [hone]
        exact ih _ _ _ h hasks

/-- The instructions that the worklist leaves. -/
def decodedInsns (inp : DecodeInput) : Option (List DecodedInsn) :=
  decodeLoop inp inp.maxInsns [⟨entryKey inp, .entry, none⟩] []

/-- The instructions of the graph. -/
def graphInsns (inp : DecodeInput) (insns : List DecodedInsn) : List DecodedInsn :=
  applyConstantZFold (remap insns (entryKey inp)) (dedupe insns)

theorem decodeVariantExit_eq : decodeVariantExit rt s v =
    match decodedInsns (rt.decodeInput s v) with
    | none => none
    | some insns => graphExit (graphInsns (rt.decodeInput s v) insns) s := by
  unfold decodeVariantExit decodeFunction
  split
  next h =>
    split at h
    next => cases h
    next hloop => rw [show decodedInsns (rt.decodeInput s v) = none from hloop]
  next g h =>
    split at h
    next insns hloop =>
      rw [show decodedInsns (rt.decodeInput s v) = some insns from hloop]
      obtain rfl := Option.some.inj h
      rfl
    next => cases h

theorem accumulateHandlers_congr : ∀ (keys : List ExitKey) (acc : ExitMeet),
    (∀ k ∈ keys, s k = s' k) → accumulateHandlers s keys acc = accumulateHandlers s' keys acc := by
  intro keys
  induction keys with
  | nil => intro acc _; rfl
  | cons key keys ih =>
    intro acc h
    rw [accumulateHandlers, accumulateHandlers, h key List.mem_cons_self]
    cases s' key with
    | none => rfl
    | some mode => exact ih _ fun k hk => h k (List.mem_cons_of_mem key hk)

theorem accumulateExits_congr : ∀ (insns : List DecodedInsn) (acc : ExitMeet),
    (∀ di ∈ insns, ∀ k ∈ handlerKeysAt di, s k = s' k) →
    accumulateExits s insns acc = accumulateExits s' insns acc := by
  intro insns
  induction insns with
  | nil => intro acc _; rfl
  | cons di insns ih =>
    intro acc h
    have hrest := fun acc => ih acc fun dj hdj => h dj (List.mem_cons_of_mem di hdj)
    rw [accumulateExits, accumulateExits]
    split
    · exact hrest _
    · split
      next hterm =>
        cases hdispatch : di.dispatch with
        | none => exact hrest acc
        | some d =>
          have hkeys : ∀ k ∈ handlerExitKeys di.insn d, s k = s' k := by
            intro k hk
            refine h di List.mem_cons_self k ?_
            unfold handlerKeysAt
            rw [if_pos hterm, hdispatch]
            exact hk
          simp only [accumulateHandlers_congr _ acc hkeys]
          cases accumulateHandlers s' (handlerExitKeys di.insn d) acc with
          | none => rfl
          | some acc => exact hrest acc
      next => exact hrest acc

theorem graphExit_congr {insns : List DecodedInsn}
    (h : ∀ di ∈ insns, ∀ k ∈ handlerKeysAt di, s k = s' k) :
    graphExit insns s = graphExit insns s' := by
  unfold graphExit analyzeFunctionExitMx
  rw [accumulateExits_congr insns .empty h]

end Congruence

/-- The records that the analysis of a variant asks for under the map. -/
def askedKeys (rt : RouteInput) (s : ExitMap) (v : RouteVisit) : List ExitKey :=
  match decodedInsns (rt.decodeInput s v) with
  | none => []
  | some insns =>
    insns.flatMap (fun di => callKeys v.bank di.key di.insn) ++
      (graphInsns (rt.decodeInput s v) insns).flatMap handlerKeysAt

section Asked

variable {rt : RouteInput} {s s' : ExitMap} {v : RouteVisit}

theorem askedKeys_eq {insns : List DecodedInsn}
    (h : decodedInsns (rt.decodeInput s v) = some insns) : askedKeys rt s v =
      insns.flatMap (fun di => callKeys v.bank di.key di.insn) ++
        (graphInsns (rt.decodeInput s v) insns).flatMap handlerKeysAt := by
  unfold askedKeys
  rw [h]

/-- What is decoded depends on the records that are asked for. -/
theorem decodedInsns_congr {insns : List DecodedInsn}
    (h : decodedInsns (rt.decodeInput s v) = some insns)
    (hasked : ∀ k ∈ askedKeys rt s v, s k = s' k) :
    decodedInsns (rt.decodeInput s' v) = some insns := by
  rw [askedKeys_eq h] at hasked
  refine decodeLoop_congr rt v _ _ _ _ h fun di hdi k hk => hasked k ?_
  exact List.mem_append_left _ (List.mem_flatMap.mpr ⟨di, hdi, hk⟩)

/-- **The exit of a variant is determined by the records it asks for.** -/
theorem decodeVariantExit_congr (h : ∀ k ∈ askedKeys rt s v, s k = s' k)
    (h' : ∀ k ∈ askedKeys rt s' v, s k = s' k) :
    decodeVariantExit rt s v = decodeVariantExit rt s' v := by
  rw [decodeVariantExit_eq, decodeVariantExit_eq]
  cases hinsns : decodedInsns (rt.decodeInput s v) with
  | some insns =>
    rw [decodedInsns_congr hinsns h]
    rw [askedKeys_eq hinsns] at h
    refine graphExit_congr fun di hdi k hk => h k ?_
    exact List.mem_append_right _ (List.mem_flatMap.mpr ⟨di, hdi, hk⟩)
  | none =>
    cases hinsns' : decodedInsns (rt.decodeInput s' v) with
    | none => rfl
    | some insns =>
      rw [decodedInsns_congr hinsns' fun k hk => (h' k hk).symm] at hinsns
      cases hinsns

/-- Maps with the records that one of them is asked for are asked for the same ones. -/
theorem askedKeys_congr (hsome : (decodedInsns (rt.decodeInput s v)).isSome = true)
    (h : ∀ k ∈ askedKeys rt s v, s k = s' k) : askedKeys rt s' v = askedKeys rt s v := by
  obtain ⟨insns, hinsns⟩ := Option.isSome_iff_exists.mp hsome
  rw [askedKeys_eq (decodedInsns_congr hinsns h), askedKeys_eq hinsns]
  rfl

end Asked

/-! ### The condition -/

/-- **A run that converged has recorded what is derived under its own records.** -/
theorem exitMap_fixed (rt : RouteInput) (parsed : List BankCfg)
    (h : converged rt parsed = true) : ∀ v ∈ routeVisits parsed,
      exitMap rt parsed v.key = decodeVariantExit rt (exitMap rt parsed) v :=
  Sweeps.derived_of_sweeps (routeSystem rt) (routeVisits parsed) maxIters (seeds parsed) h

/-- The maps that visits lead to. -/
abbrev Visited (rt : RouteInput) (parsed : List BankCfg) (s : ExitMap) : Prop :=
  Sweeps.Reached (routeSystem rt) {v | v ∈ routeVisits parsed} (seeds parsed) s

/-- A run does not converge when visits lead to no map that is derived from itself. -/
theorem not_converged {rt : RouteInput} {parsed : List BankCfg}
    (h : ∀ s, Visited rt parsed s → ∃ v ∈ routeVisits parsed, s v.key ≠ decodeVariantExit rt s v) :
    converged rt parsed = false :=
  Sweeps.not_clean_of_reached (fun _ => Iff.rfl) h maxIters .start

/-- What is recorded in the end was derived from a map that visits lead to. -/
theorem exitMap_derived {rt : RouteInput} {parsed : List BankCfg} {v : RouteVisit}
    (hv : v ∈ routeVisits parsed) : ∃ w ∈ routeVisits parsed, ∃ s, w.key = v.key ∧
      Visited rt parsed s ∧ exitMap rt parsed v.key = decodeVariantExit rt s w := by
  have hafter : Sweeps.After (routeSystem rt) {v | v ∈ routeVisits parsed} (seeds parsed) 1
      (exitMap rt parsed) := Sweeps.After.sweeps_succ (fun _ => Iff.rfl) 11 .start
  obtain ⟨w, hw, s, hkey, hs, hrecord⟩ := hafter.2 v hv
  exact ⟨w, hw, s, hkey, hs, hrecord⟩

/-- Ranks that fall along the calls and the dispatches of the cfg's functions, each of which
is declared once. -/
theorem rankedBelow_of_asked {rt : RouteInput} {parsed : List BankCfg} {n : Nat}
    {rank : ExitKey → Nat} (hn : ∀ v ∈ routeVisits parsed, rank v.key < n)
    (honce : ∀ v ∈ routeVisits parsed, ∀ w ∈ routeVisits parsed, v.key = w.key → v = w)
    (hfall : ∀ v ∈ routeVisits parsed, ∀ s, Visited rt parsed s → ∀ k ∈ askedKeys rt s v,
      rank k < rank v.key ∨ ∀ w ∈ routeVisits parsed, w.key ≠ k) :
    RankedBelow rt parsed n rank := by
  refine ⟨hn, fun v hv w hw hkey s s' hs hs' hagree => ?_⟩
  obtain rfl := honce v hv w hw hkey
  have hasked : ∀ k, (rank k < rank v.key ∨ ∀ w ∈ routeVisits parsed, w.key ≠ k) → s k = s' k := by
    rintro k (hk | hk)
    · exact hagree k hk
    · rw [hs.unvisited _ _ _ hk, hs'.unvisited _ _ _ hk]
  exact decodeVariantExit_congr (fun k hk => hasked k (hfall v hv s hs k hk))
    fun k hk => hasked k (hfall v hv s' hs' k hk)

/-- Ranks below eleven leave the last of the twelve passes clean, in every order. -/
theorem orderIndependent_of_ranked (rt : RouteInput) (parsed : List BankCfg)
    (hseeds : SeedsAgree parsed) (hranked : ∃ rank, RankedBelow rt parsed 11 rank) :
    OrderIndependentFixpoint rt parsed := by
  obtain ⟨rank, hbelow, hrank⟩ := hranked
  have hsweeps : ∀ order : List RouteVisit, order.Perm (routeVisits parsed) →
      (Sweeps.sweeps (routeSystem rt) (routeVisits parsed) maxIters (seeds parsed)).2 = true ∧
        (Sweeps.sweeps (routeSystem rt) order maxIters (seeds parsed)).1 =
          (Sweeps.sweeps (routeSystem rt) (routeVisits parsed) maxIters (seeds parsed)).1 :=
    fun order hperm => hrank.sweeps_eq hbelow (fun _ => Iff.rfl) fun _ => hperm.mem_iff
  constructor
  case order =>
    intro parsed' h
    unfold exitMap routePasses
    rw [seeds_eq hseeds h.directives]
    exact (hsweeps _ h.visits).2
  case fixed => exact exitMap_fixed rt parsed
  case limit =>
    intro h
    have hclean : converged rt parsed = true := (hsweeps _ (List.Perm.refl _)).1
    rw [hclean] at h
    cases h

/-- A function that calls another and returns, and the other, which returns in narrow `A`. -/
def chainRoute : RouteInput :=
  ⟨.ofBytes [0x20, 0x04, 0x80, 0x60, 0xE2, 0x20, 0x60], fun _ _ _ => .none, fun _ => none⟩

def chainCfgs : List BankCfg :=
  [⟨0, [⟨some "Caller", 0x8000, none⟩, ⟨some "Callee", 0x8004, none⟩], []⟩]

def chainRank (k : ExitKey) : Nat := if k.1 = 0x8000 then 1 else 0

/-- The callee is recorded, in one pair of widths. -/
def calleeRecord (em ex : Bool) (record : Option (Bool × Bool)) : ExitMap :=
  fun k => if k = (0x8004, em, ex) then record else none

/-- Whatever is recorded of the callee, the caller asks for it and its mirror alone. -/
theorem askedKeys_caller : ∀ em ex : Bool, ∀ record : Option (Bool × Bool),
    (decodedInsns (chainRoute.decodeInput (calleeRecord em ex record)
      ⟨0, 0x8000, none, em, ex⟩)).isSome = true ∧
    askedKeys chainRoute (calleeRecord em ex record) ⟨0, 0x8000, none, em, ex⟩ =
      [(0x8004, em, ex), (0x808004, em, ex)] := by decide

theorem askedKeys_callee : ∀ em ex : Bool,
    (decodedInsns (chainRoute.decodeInput (fun _ => none) ⟨0, 0x8004, none, em, ex⟩)).isSome = true ∧
      askedKeys chainRoute (fun _ => none) ⟨0, 0x8004, none, em, ex⟩ = [] := by decide

theorem chain_ranked : RankedBelow chainRoute chainCfgs 11 chainRank := by
  have hvisits : ∀ v ∈ routeVisits chainCfgs, v.bank = 0 ∧ v.endPc = none ∧
      (v.addr16 = 0x8000 ∨ v.addr16 = 0x8004) := by decide
  refine rankedBelow_of_asked (by decide) (by decide) ?_
  intro v hv s hs k hk
  obtain ⟨bank, addr16, endPc, em, ex⟩ := v
  obtain ⟨rfl, rfl, haddr⟩ := hvisits _ hv
  have hmirror : ∀ em ex : Bool, ∀ w ∈ routeVisits chainCfgs, w.key ≠ (0x808004, em, ex) := by
    decide
  rcases haddr with rfl | rfl
  · obtain ⟨hsome, hasked⟩ := askedKeys_caller em ex (s (0x8004, em, ex))
    rw [askedKeys_congr hsome, hasked] at hk
    · simp only [List.mem_cons, List.not_mem_nil, or_false] at hk
      rcases hk with rfl | rfl
      · exact Or.inl (by simp [chainRank, RouteVisit.key])
      · exact Or.inr (hmirror em ex)
    · rw [hasked]
      intro k hk
      simp only [List.mem_cons, List.not_mem_nil, or_false] at hk
      rcases hk with rfl | rfl
      · exact if_pos rfl
      · exact (hs.unvisited _ _ _ (hmirror em ex)).symm
  · obtain ⟨hsome, hasked⟩ := askedKeys_callee em ex
    rw [askedKeys_congr hsome (by rw [hasked]; exact fun _ h => absurd h List.not_mem_nil),
      hasked] at hk
    cases hk

theorem orderIndependent_chain : OrderIndependentFixpoint chainRoute chainCfgs :=
  orderIndependent_of_ranked chainRoute chainCfgs (by decide) ⟨chainRank, chain_ranked⟩

/-- Two functions that call one another: `SEP #$20`, `REP #$20`, and a branch around the
call. -/
def mutualRoute : RouteInput :=
  ⟨.ofBytes [0xE2, 0x20, 0xF0, 0x03, 0x20, 0x08, 0x80, 0x60,
    0xC2, 0x20, 0xF0, 0x03, 0x20, 0x00, 0x80, 0x60], fun _ _ _ => .none, fun _ => none⟩

def mutualCfgs (firstEntry secondEntry : BankEntry) : List BankCfg :=
  [⟨0, [firstEntry, secondEntry], []⟩]

/-- A function that calls itself and behind the call, in narrow `A`, runs other code in narrow
index registers than in wide ones. -/
def unsettledRoute : RouteInput :=
  ⟨.ofBytes [0x20, 0x00, 0x80, 0xE2, 0x20, 0xA2, 0x00, 0x80, 0x04, 0x00, 0xE2, 0x10, 0x60,
    0xC2, 0x10, 0x60], fun _ _ _ => .none, fun _ => none⟩

def unsettledCfgs : List BankCfg := [⟨0, [⟨some "Itself", 0x8000, none⟩], []⟩]

/-- The function in wide registers. -/
def unsettledVisit : RouteVisit := ⟨0, 0x8000, none, false, false⟩

def unsettledRecord (record : Option (Bool × Bool)) : ExitMap :=
  fun k => if k = unsettledVisit.key then record else none

/-- It asks for its own record and for its mirror's, and returns in index registers of the
other width than is recorded. -/
theorem decodeVariantExit_unsettled : ∀ record : Option (Bool × Bool),
    (decodedInsns (unsettledRoute.decodeInput (unsettledRecord record) unsettledVisit)).isSome = true ∧
    askedKeys unsettledRoute (unsettledRecord record) unsettledVisit =
      [(0x8000, false, false), (0x808000, false, false)] ∧
    decodeVariantExit unsettledRoute (unsettledRecord record) unsettledVisit =
      some (true, !(record.any (·.2))) := by decide

theorem key_unsettled : ∀ v ∈ routeVisits unsettledCfgs, v.key ≠ (0x808000, false, false) ∧
    (v.key = unsettledVisit.key → v = unsettledVisit) := by decide

/-- Whatever visits lead to. -/
theorem derive_unsettled {s : ExitMap} (hs : Visited unsettledRoute unsettledCfgs s) :
    decodeVariantExit unsettledRoute s unsettledVisit =
      some (true, !((s unsettledVisit.key).any (·.2))) := by
  obtain ⟨hsome, hasked, hexit⟩ := decodeVariantExit_unsettled (s unsettledVisit.key)
  have hmirror : s (0x808000, false, false) = none := hs.unvisited _ _ _ fun v hv => (key_unsettled v hv).1
  have hagree : ∀ k ∈ askedKeys unsettledRoute (unsettledRecord (s unsettledVisit.key)) unsettledVisit,
      unsettledRecord (s unsettledVisit.key) k = s k := by
    rw [hasked]
    intro k hk
    simp only [List.mem_cons, List.not_mem_nil, or_false] at hk
    rcases hk with rfl | rfl
    · exact if_pos rfl
    · exact hmirror.symm
  rw [← hexit]
  exact (decodeVariantExit_congr hagree (by rw [askedKeys_congr hsome hagree]; exact hagree)).symm

theorem unsettled_used : converged unsettledRoute unsettledCfgs = false ∧
    detectAndRoute unsettledRoute unsettledCfgs ≠ [] := by
  have hvisit : unsettledVisit ∈ routeVisits unsettledCfgs := by decide
  constructor
  · refine not_converged fun s hs => ⟨unsettledVisit, hvisit, fun hfixed => ?_⟩
    rw [derive_unsettled hs] at hfixed
    rcases hrecord : s unsettledVisit.key with _ | ⟨m, _ | _⟩ <;> rw [hrecord] at hfixed <;>
      cases hfixed
  · obtain ⟨v, hv, s, hkey, hs, hrecord⟩ := @exitMap_derived unsettledRoute _ _ hvisit
    rw [(key_unsettled v hv).2 hkey, derive_unsettled hs] at hrecord
    exact List.ne_nil_of_mem (List.mem_filterMap.mpr
      ⟨unsettledVisit, hvisit, mutating_eq_some hrecord (Or.inl Bool.noConfusion)⟩)

/-- Of the functions that call one another, the one that is visited first has the records; and
the twelve passes over the function that calls itself end with records that are used. -/
theorem not_orderIndependent_mutual :
    ¬ OrderIndependentFixpoint mutualRoute
        (mutualCfgs ⟨some "Narrow", 0x8000, none⟩ ⟨some "Wide", 0x8008, none⟩) ∧
      ¬ OrderIndependentFixpoint unsettledRoute unsettledCfgs := by
  constructor
  · intro h
    have horder := h.order (mutualCfgs ⟨some "Wide", 0x8008, none⟩ ⟨some "Narrow", 0x8000, none⟩)
      ⟨by decide, by decide⟩
    have hrecord := congrFun horder (0x8000, false, false)
    revert hrecord
    decide +kernel
  · intro h
    exact unsettled_used.2 (h.limit unsettled_used.1)

end SnesRecomp.Recompiler
