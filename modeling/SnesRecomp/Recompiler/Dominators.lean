import SnesRecomp.Lib.Dominators
import SnesRecomp.Lib.Postorder
import SnesRecomp.Recompiler.Cfg

/-!
# Dominators and dominance frontiers of the blocks

`_compute_dominators` and `_compute_dominance_frontier` of `cfg.py`.  The first sweeps over the
blocks in reverse postorder and gives each the place where the chains over its predecessors meet,
until a sweep changes nothing.  `computeDominators_exact`: that always happens, and the parents are
then the immediate dominators, also where loops have several entries.

The second walks up from the predecessors of each block with at least two.  `frontier_iff`: the
frontiers are right for every block exactly when no reachable block leads back to the entry.  The
entry is its own parent, so a walk stops in front of it, and an edge back to the entry may well be
the only one into it.  `dominanceRight_iff` says the same of the two together.

The dictionary of blocks is filled from a set, so its order is open: a `V2Cfg` may have its blocks
in any order.
-/

namespace SnesRecomp.Recompiler

open Dominators

/-- `V2CFG.entry` and `V2CFG.blocks`. -/
structure V2Cfg where
  entry : DecodeKey
  blocks : List Block
  nodup : (blocks.map (·.entry)).Nodup

/-- What `build_cfg` makes of a graph, with the blocks as they come out of the set of leaders. -/
def FunctionGraph.v2Cfg (g : FunctionGraph) {blocks : List Block} (h : blocks.Perm g.buildCfg) :
    V2Cfg where
  entry := g.entry
  blocks := blocks
  nodup := by
    refine ((h.map (·.entry)).nodup_iff).mpr ?_
    have hkeys : (g.insns.map (·.key)).Nodup :=
      List.Nodup.of_map pcmx (by rw [List.map_map]; exact g.labelled)
    rw [FunctionGraph.buildCfg, List.map_map]
    exact hkeys.sublist (List.filter_sublist.map _)

/-- `V2CFG.dominators`, as far as it has been filled. -/
abbrev IdomMap := DecodeKey → Option DecodeKey

/-! ### The code -/

section

variable (rpo : List DecodeKey) (idom : IdomMap)

/-- `while rpo_index[finger] > bound: finger = idom[finger]`; `none` for a `KeyError`, or when the
loop goes on. -/
def climb (bound : Nat) : Nat → DecodeKey → Option DecodeKey
  | 0, _ => none
  | room + 1, finger => do
    let i ← rpo.idxOf? finger
    if bound < i then climb bound room (← idom finger) else some finger

/-- `intersect`. -/
def intersect : Nat → DecodeKey → DecodeKey → Option DecodeKey
  | 0, _, _ => none
  | room + 1, finger1, finger2 =>
    if finger1 = finger2 then some finger1
    else do
      let finger1 ← climb rpo idom (← rpo.idxOf? finger2) rpo.length finger1
      let finger2 ← climb rpo idom (← rpo.idxOf? finger1) rpo.length finger2
      intersect room finger1 finger2

/-- `runner` on its way up from a predecessor of `node`. -/
def runners (node : DecodeKey) : Nat → DecodeKey → Option (List DecodeKey)
  | 0, _ => none
  | room + 1, runner =>
    if idom node = some runner then some []
    else
      match idom runner with
      | none => some []
      | some next =>
        if next = runner then some [runner] else (runners node room next).map (runner :: ·)

end

namespace V2Cfg

variable (cfg : V2Cfg)

/-- The successors of the block at a key. -/
def successors (key : DecodeKey) : Option (List DecodeKey) :=
  (cfg.blocks.find? fun b => b.entry = key).map (·.successors)

/-- `V2Block.predecessors`: one for each edge. -/
def predecessors (key : DecodeKey) : List DecodeKey :=
  cfg.blocks.flatMap fun b => (b.successors.filter (· = key)).map fun _ => b.entry

/-- `rpo`. -/
def rpo : List DecodeKey :=
  (Postorder.postorder cfg.successors (cfg.blocks.length + 1) cfg.entry).reverse

/-- One turn of `for node in rpo[1:]`. -/
def visitNode (st : IdomMap × Bool) (node : DecodeKey) : Option (IdomMap × Bool) :=
  match (cfg.predecessors node).filter fun p => (st.1 p).isSome with
  | [] => some st
  | p :: ps => do
    let newIdom ←
      ps.foldlM (fun newIdom p => intersect cfg.rpo st.1 (2 * cfg.rpo.length) p newIdom) p
    if st.1 node ≠ some newIdom then some (Function.update st.1 node (some newIdom), true)
    else some st

/-- One turn of `while changed`. -/
def pass (idom : IdomMap) : Option (IdomMap × Bool) :=
  cfg.rpo.tail.foldlM cfg.visitNode (idom, false)

def whileChanged : Nat → IdomMap → Option IdomMap
  | 0, _ => none
  | room + 1, idom => do
    let after ← cfg.pass idom
    if after.2 then whileChanged room after.1 else some after.1

/-- `_compute_dominators`. -/
def computeDominators : Option IdomMap :=
  if (cfg.successors cfg.entry).isNone then some fun _ => none
  else
    cfg.whileChanged (cfg.rpo.length + 1)
      (Function.update (fun _ => none) cfg.entry (some cfg.entry))

/-- The runners that one block is added to. -/
def nodeRunners (idom : IdomMap) (node : DecodeKey) : Option (List DecodeKey) :=
  if (cfg.predecessors node).length < 2 then some []
  else do
    let runs ← ((cfg.predecessors node).filter fun p => (idom p).isSome).mapM
      (runners idom node (cfg.blocks.length + 1))
    some runs.flatten

/-- `_compute_dominance_frontier`. -/
def computeDominanceFrontier (idom : IdomMap) : Option (DecodeKey → List DecodeKey) := do
  let added ← (cfg.blocks.map (·.entry)).mapM fun node =>
    (cfg.nodeRunners idom node).map fun runs => (node, runs)
  some fun key => (added.filter fun e => key ∈ e.2).map (·.1)

/-! ### Edges -/

def Edge (p key : DecodeKey) : Prop :=
  ∃ ss, cfg.successors p = some ss ∧ key ∈ ss ∧ (cfg.successors key).isSome

variable {cfg}

theorem successors_eq_some {key : DecodeKey} {ss : List DecodeKey} :
    cfg.successors key = some ss ↔ ∃ b ∈ cfg.blocks, b.entry = key ∧ b.successors = ss := by
  unfold successors
  constructor
  · intro h
    obtain ⟨b, hb, rfl⟩ := Option.map_eq_some_iff.mp h
    exact ⟨b, List.mem_of_find?_eq_some hb, by simpa using List.find?_some hb, rfl⟩
  · rintro ⟨b, hb, rfl, rfl⟩
    cases hfind : cfg.blocks.find? fun c => decide (c.entry = b.entry) with
    | none => exact absurd (decide_eq_true rfl) (List.find?_eq_none.mp hfind b hb)
    | some c =>
      have hc : c.entry = b.entry := by simpa using List.find?_some hfind
      rw [List.inj_on_of_nodup_map cfg.nodup (List.mem_of_find?_eq_some hfind) hb hc]
      rfl

theorem successors_isSome {key : DecodeKey} :
    (cfg.successors key).isSome ↔ key ∈ cfg.blocks.map (·.entry) := by
  unfold successors
  simp only [Option.isSome_map, List.find?_isSome, decide_eq_true_eq, List.mem_map]

theorem mem_predecessors {p key : DecodeKey} (hkey : (cfg.successors key).isSome) :
    p ∈ cfg.predecessors key ↔ cfg.Edge p key := by
  unfold predecessors Edge
  simp only [List.mem_flatMap, List.mem_map, List.mem_filter, decide_eq_true_eq, successors_eq_some]
  constructor
  · rintro ⟨b, hb, s, ⟨hs, rfl⟩, rfl⟩
    exact ⟨_, ⟨b, hb, rfl, rfl⟩, hs, hkey⟩
  · rintro ⟨_, ⟨b, hb, rfl, rfl⟩, hs, _⟩
    exact ⟨b, hb, key, ⟨hs, rfl⟩, rfl⟩

theorem reach_iff {key : DecodeKey} (hentry : (cfg.successors cfg.entry).isSome) :
    Visit.Reach cfg.successors cfg.entry key ↔ Reach cfg.Edge cfg.entry key := by
  constructor
  · intro h
    induction h with
    | root _ => exact .refl
    | step _ hss hs hsome ih => exact ih.tail ⟨_, hss, hs, hsome⟩
  · intro h
    induction h with
    | refl => exact .root hentry
    | tail _ hedge ih =>
      obtain ⟨ss, hss, hs, hsome⟩ := hedge
      exact .step ih hss hs hsome

/-! ### The order -/

/-- What the reverse postorder is good for. -/
structure Order (cfg : V2Cfg) : Prop where
  nodup : cfg.rpo.Nodup
  mem : ∀ k, k ∈ cfg.rpo ↔ Reach cfg.Edge cfg.entry k
  cons : cfg.rpo = cfg.entry :: cfg.rpo.tail
  led : ∀ l k l', cfg.rpo = l ++ k :: l' → k ≠ cfg.entry → ∃ p ∈ l, cfg.Edge p k

theorem order (hentry : (cfg.successors cfg.entry).isSome) : cfg.Order := by
  have hblocks : ∀ k, (cfg.successors k).isSome → k ∈ cfg.blocks.map (·.entry) :=
    fun _ => successors_isSome.mp
  obtain ⟨⟨l, hl⟩, hnodup, hmem, hled⟩ := Postorder.postorder_spec hblocks hentry
  rw [List.length_map] at hl hnodup hmem hled
  have hrpo : cfg.rpo = cfg.entry :: l.reverse := by
    unfold rpo
    rw [hl, List.reverse_append]
    rfl
  refine ⟨List.nodup_reverse.mpr hnodup, fun k => ?_, by rw [hrpo]; rfl, fun l₁ k l₂ h hk => ?_⟩
  · rw [← reach_iff hentry, ← hmem]
    exact List.mem_reverse
  · have h : Postorder.postorder cfg.successors (cfg.blocks.length + 1) cfg.entry =
        l₂.reverse ++ k :: l₁.reverse := by
      rw [← List.reverse_reverse (Postorder.postorder _ _ _)]
      show cfg.rpo.reverse = _
      rw [h, List.reverse_append, List.reverse_cons, List.append_assoc]
      rfl
    obtain ⟨p, hp, ss, hss, hs⟩ := hled _ _ _ h hk
    have hsome : (cfg.successors k).isSome := by
      have hk : k ∈ Postorder.postorder cfg.successors (cfg.blocks.length + 1) cfg.entry := by
        rw [h]
        simp
      exact Postorder.Reach.isSome ((hmem k).mp hk)
    exact ⟨p, List.mem_reverse.mp hp, ss, hss, hs, hsome⟩

end V2Cfg

/-! ### Two fingers -/

section

variable {edge : DecodeKey → DecodeKey → Prop} {entry : DecodeKey} {rpo : List DecodeKey}
  {idom : IdomMap}

/-- The parents lead to the front of the order, which starts with the entry. -/
structure Climbs (entry : DecodeKey) (rpo : List DecodeKey) (idom : IdomMap) : Prop where
  tree : Tree entry rpo.idxOf idom
  mem : ∀ k, (idom k).isSome → k ∈ rpo
  head : rpo.idxOf entry = 0

theorem idxOf?_of_mem {k : DecodeKey} (h : k ∈ rpo) : rpo.idxOf? k = some (rpo.idxOf k) := by
  cases hi : rpo.idxOf? k with
  | none => exact absurd h (List.idxOf?_eq_none_iff.mp hi)
  | some i => rw [List.idxOf_eq_getD_idxOf?, hi]; rfl

theorem climb_spec (hc : Climbs entry rpo idom) (bound : Nat) : ∀ (room : Nat) {k : DecodeKey},
    rpo.idxOf k < room → (idom k).isSome →
    ∃ a, climb rpo idom bound room k = some a ∧ Above entry idom a k ∧ rpo.idxOf a ≤ bound ∧
      ∀ e, Above entry idom e k → rpo.idxOf e ≤ bound → Above entry idom e a := by
  intro room
  induction room with
  | zero => intro k hk; omega
  | succ room ih =>
    intro k hk hsome
    rw [climb, idxOf?_of_mem (hc.mem k hsome)]
    simp only [Option.bind_eq_bind, Option.bind_some]
    by_cases hbound : bound < rpo.idxOf k
    · have hne : k ≠ entry := by
        rintro rfl
        have hhead := hc.head
        omega
      obtain ⟨a, ha⟩ := Option.isSome_iff_exists.mp hsome
      obtain ⟨hlt, hasome⟩ := hc.tree.parent k a hne ha
      obtain ⟨b, hb, hba, hle, hgreatest⟩ := ih (k := a) (by omega) hasome
      rw [if_pos hbound, ha]
      refine ⟨b, hb, .up hne ha hba, hle, fun e he hebound => ?_⟩
      cases he with
      | self => omega
      | up _ ha' he =>
        rw [ha] at ha'
        obtain rfl := Option.some.inj ha'
        exact hgreatest e he hebound
    · rw [if_neg hbound]
      exact ⟨k, rfl, .self, by omega, fun e he _ => he⟩

theorem intersect_spec (hc : Climbs entry rpo idom) : ∀ (room : Nat) {k k' : DecodeKey},
    rpo.idxOf k + rpo.idxOf k' < room → (idom k).isSome → (idom k').isSome →
    ∃ a, intersect rpo idom room k k' = some a ∧ Meets entry idom [k, k'] a := by
  intro room
  induction room with
  | zero => intro k k' hlt; omega
  | succ room ih =>
    intro k k' hlt hk hk'
    rw [intersect]
    by_cases heq : k = k'
    · subst heq
      rw [if_pos rfl]
      exact ⟨k, rfl, fun p hp => by simp_all [Above.self], fun e he => he k (by simp)⟩
    · rw [if_neg heq, idxOf?_of_mem (hc.mem k' hk')]
      obtain ⟨a, ha, hak, hale, hagreatest⟩ := climb_spec hc (rpo.idxOf k') rpo.length
        (List.idxOf_lt_length_of_mem (hc.mem k hk)) hk
      have hasome := hak.isSome hc.tree hk
      simp only [Option.bind_eq_bind, Option.bind_some, ha, idxOf?_of_mem (hc.mem a hasome)]
      obtain ⟨b, hb, hbk, hble, hbgreatest⟩ := climb_spec hc (rpo.idxOf a) rpo.length
        (List.idxOf_lt_length_of_mem (hc.mem k' hk')) hk'
      have hbsome := hbk.isSome hc.tree hk'
      have hlt' : rpo.idxOf a + rpo.idxOf b < room := by
        have hne : rpo.idxOf k ≠ rpo.idxOf k' := fun h =>
          heq ((List.idxOf_inj (hc.mem k hk)).mp h)
        have hak := hak.rank_le hc.tree
        have hbk := hbk.rank_le hc.tree
        omega
      obtain ⟨c, hc', hmeets⟩ := ih hlt' hasome hbsome
      rw [hb]
      refine ⟨c, hc', fun p hp => ?_, fun e he => ?_⟩
      · rcases List.mem_cons.mp hp with rfl | hp
        · exact (hmeets.above a (by simp)).trans hak
        · rw [List.mem_singleton.mp hp]
          exact (hmeets.above b (by simp)).trans hbk
      · have hek' := he k' (by simp)
        have hea := hagreatest e (he k (by simp)) (hek'.rank_le hc.tree)
        have heb := hbgreatest e hek' (hea.rank_le hc.tree)
        refine hmeets.greatest e fun p hp => ?_
        rcases List.mem_cons.mp hp with rfl | hp
        · exact hea
        · rw [List.mem_singleton.mp hp]
          exact heb

/-- `new_idom` after the processed predecessors. -/
theorem foldlM_intersect (hc : Climbs entry rpo idom) : ∀ (ps qs : List DecodeKey) {r : DecodeKey},
    (∀ p ∈ ps, (idom p).isSome) → (idom r).isSome → Meets entry idom qs r →
    ∃ a, ps.foldlM (fun r p => intersect rpo idom (2 * rpo.length) p r) r = some a ∧
      Meets entry idom (qs ++ ps) a := by
  intro ps
  induction ps with
  | nil => intro qs r _ _ hr; exact ⟨r, rfl, by rwa [List.append_nil]⟩
  | cons p ps ih =>
    intro qs r hps hrsome hr
    have hp := hps p List.mem_cons_self
    have hproom := List.idxOf_lt_length_of_mem (hc.mem p hp)
    have hrroom := List.idxOf_lt_length_of_mem (hc.mem r hrsome)
    have hroom : rpo.idxOf p + rpo.idxOf r < 2 * rpo.length := by omega
    obtain ⟨a, ha, hmeets⟩ := intersect_spec hc (2 * rpo.length) hroom hp hrsome
    obtain ⟨b, hb, hmeets'⟩ := ih (qs ++ [p]) (r := a)
      (fun q hq => hps q (List.mem_cons_of_mem p hq))
      ((hmeets.above p (by simp)).isSome hc.tree hp) (hr.snoc hmeets)
    refine ⟨b, ?_, by rwa [List.append_assoc] at hmeets'⟩
    simp only [List.foldlM_cons, ha, Option.bind_eq_bind, Option.bind_some]
    exact hb

end

namespace V2Cfg

variable {cfg : V2Cfg} {idom : IdomMap}

/-! ### One sweep -/

/-- What holds of the parents all the time. -/
structure Inv (cfg : V2Cfg) (idom : IdomMap) : Prop where
  tree : Tree cfg.entry cfg.rpo.idxOf idom
  mem : ∀ k, (idom k).isSome → k ∈ cfg.rpo
  sound : Sound cfg.Edge cfg.entry idom

/-- The predecessors that have a parent. -/
def processed (cfg : V2Cfg) (idom : IdomMap) (node : DecodeKey) : List DecodeKey :=
  (cfg.predecessors node).filter fun p => (idom p).isSome

theorem Order.idxOf_entry (ho : cfg.Order) : cfg.rpo.idxOf cfg.entry = 0 := by
  rw [ho.cons, List.idxOf_cons_self]

theorem Inv.climbs (ho : cfg.Order) (hi : cfg.Inv idom) : Climbs cfg.entry cfg.rpo idom :=
  ⟨hi.tree, hi.mem, ho.idxOf_entry⟩

theorem Order.successors_isSome (ho : cfg.Order) {k : DecodeKey} (hk : k ∈ cfg.rpo)
    (hne : k ≠ cfg.entry) : (cfg.successors k).isSome := by
  cases (ho.mem k).mp hk with
  | refl => exact absurd rfl hne
  | tail _ hedge => exact hedge.choose_spec.2.2

theorem mem_processed (ho : cfg.Order) (hi : cfg.Inv idom) {p node : DecodeKey}
    (hnode : node ∈ cfg.rpo) (hne : node ≠ cfg.entry) (hp : p ∈ cfg.processed idom node) :
    cfg.Edge p node ∧ Reach cfg.Edge cfg.entry p ∧ (idom p).isSome := by
  obtain ⟨hpred, hsome⟩ := List.mem_filter.mp hp
  exact ⟨(mem_predecessors (ho.successors_isSome hnode hne)).mp hpred,
    (ho.mem p).mp (hi.mem p hsome), hsome⟩

/-- A turn of the loop, for a node with a predecessor in front of it that has a parent. -/
theorem visitNode_spec (ho : cfg.Order) (hi : cfg.Inv idom) (changed : Bool) {node p : DecodeKey}
    (hnode : node ∈ cfg.rpo) (hne : node ≠ cfg.entry) (hp : p ∈ cfg.processed idom node)
    (hlt : cfg.rpo.idxOf p < cfg.rpo.idxOf node) :
    ∃ r, cfg.visitNode (idom, changed) node =
        some (Function.update idom node (some r), changed || decide (idom node ≠ some r)) ∧
      Meets cfg.entry idom (cfg.processed idom node) r ∧ (idom r).isSome ∧
      cfg.rpo.idxOf r < cfg.rpo.idxOf node ∧ cfg.Inv (Function.update idom node (some r)) := by
  have hps : ∀ q ∈ cfg.processed idom node, (idom q).isSome := fun q hq => (List.mem_filter.mp hq).2
  obtain ⟨q, qs, hcons⟩ := List.exists_cons_of_ne_nil (List.ne_nil_of_mem hp)
  rw [hcons] at hps
  obtain ⟨r, hr, hmeets⟩ := foldlM_intersect (hi.climbs ho) qs [q]
    (fun q' hq' => hps q' (List.mem_cons_of_mem q hq')) (hps q List.mem_cons_self) (.single q)
  rw [List.singleton_append, ← hcons] at hmeets
  have hrsome := (hmeets.above p hp).isSome hi.tree (List.mem_filter.mp hp).2
  have hrlt := (hmeets.above p hp).rank_le hi.tree
  refine ⟨r, ?_, hmeets, hrsome, by omega, hi.tree.update hne (by omega) hrsome, fun k hk => ?_, ?_⟩
  · have hfilter : (cfg.predecessors node).filter (fun p => (idom p).isSome) = q :: qs := hcons
    rw [visitNode]
    simp only [hfilter, hr, Option.bind_eq_bind, Option.bind_some]
    by_cases hsame : idom node = some r
    · rw [if_neg (fun h => h hsame), ← hsame, Function.update_eq_self]
      simp
    · rw [if_pos hsame]
      simp [hsame]
  · by_cases hkn : k = node
    · rw [hkn]
      exact hnode
    · rw [Function.update_of_ne hkn] at hk
      exact hi.mem k hk
  · exact hi.sound.update hi.tree (fun q hq => mem_processed ho hi hnode hne hq)
      (List.ne_nil_of_mem hp) hmeets

/-- `changed` is set in a turn that gives the node another parent. -/
theorem visitNode_changed {st st' : IdomMap × Bool} {node : DecodeKey}
    (h : cfg.visitNode st node = some st') :
    st' = st ∨ ∃ r, st.1 node ≠ some r ∧ st' = (Function.update st.1 node (some r), true) := by
  rw [visitNode] at h
  split at h
  · exact .inl (Option.some.inj h).symm
  · rename_i p ps _
    obtain ⟨r, _, hr⟩ := Option.bind_eq_some_iff.mp h
    by_cases hsame : st.1 node = some r
    · rw [if_neg (fun h => h hsame)] at hr
      exact .inl (Option.some.inj hr).symm
    · rw [if_pos hsame] at hr
      exact .inr ⟨r, hsame, (Option.some.inj hr).symm⟩

theorem foldlM_changed : ∀ (todo : List DecodeKey) {st st' : IdomMap × Bool}, todo.Nodup →
    todo.foldlM cfg.visitNode st = some st' →
    (∀ k ∉ todo, st'.1 k = st.1 k) ∧ (st'.2 = false → st'.1 = st.1) ∧
      (st'.1 = st.1 → st'.2 = st.2) := by
  intro todo
  induction todo with
  | nil =>
    intro st st' _ h
    obtain rfl := Option.some.inj h
    simp
  | cons node todo ih =>
    intro st st' hnodup h
    obtain ⟨hnot, hnodup⟩ := List.nodup_cons.mp hnodup
    rw [List.foldlM_cons] at h
    obtain ⟨mid, hmid, h⟩ := Option.bind_eq_some_iff.mp h
    obtain ⟨hframe, hclean, hsame⟩ := ih hnodup h
    rcases visitNode_changed hmid with rfl | ⟨r, hr, rfl⟩
    · exact ⟨fun k hk => hframe k fun h => hk (List.mem_cons_of_mem node h), hclean, hsame⟩
    · have hnode : st'.1 node = some r := by simpa using hframe node hnot
      have hne : st'.1 ≠ st.1 := fun h => hr (by rw [← h, hnode])
      refine ⟨fun k hk => ?_, fun hfalse => ?_, fun h => absurd h hne⟩
      · rw [List.mem_cons, not_or] at hk
        simpa [Function.update_of_ne hk.1] using hframe k hk.2
      · rw [hsame (hclean hfalse)] at hfalse
        cases hfalse

/-- `changed` is set by a sweep that changes the parents, and by no other. -/
theorem pass_changed (ho : cfg.Order) {st : IdomMap × Bool} (h : cfg.pass idom = some st) :
    st.2 = false ↔ st.1 = idom := by
  have hnodup := ho.nodup
  rw [ho.cons] at hnodup
  obtain ⟨_, hclean, hsame⟩ := foldlM_changed _ (List.nodup_cons.mp hnodup).2 h
  exact ⟨hclean, hsame⟩

/-- A node behind the entry has a predecessor in front of it. -/
theorem Order.exists_before (ho : cfg.Order) {done todo : List DecodeKey} {node : DecodeKey}
    (h : cfg.rpo = cfg.entry :: (done ++ node :: todo)) :
    node ∈ cfg.rpo ∧ node ≠ cfg.entry ∧ ∃ p ∈ cfg.entry :: done, p ∈ cfg.predecessors node ∧
      cfg.rpo.idxOf p < cfg.rpo.idxOf node := by
  have hmem : node ∈ cfg.rpo := by rw [h]; simp
  have hnodup := ho.nodup
  rw [h] at hnodup
  have hne : node ≠ cfg.entry := by
    rintro rfl
    exact (List.nodup_cons.mp hnodup).1 (by simp)
  obtain ⟨p, hp, hedge⟩ := ho.led (cfg.entry :: done) node todo (by rw [h]; rfl) hne
  refine ⟨hmem, hne, p, hp, (mem_predecessors (ho.successors_isSome hmem hne)).mpr hedge, ?_⟩
  have hnot : node ∉ cfg.entry :: done := by
    intro hn
    rw [← List.cons_append] at hnodup
    exact (List.nodup_append.mp hnodup).2.2 node hn node List.mem_cons_self rfl
  rw [h, ← List.cons_append, List.idxOf_append_of_mem hp, List.idxOf_append_of_notMem hnot]
  have hlt := List.idxOf_lt_length_of_mem hp
  omega

/-- The first sweep: every node has a parent when its turn is over. -/
theorem foldlM_first (ho : cfg.Order) : ∀ (todo done : List DecodeKey) (idom : IdomMap)
    (changed : Bool), cfg.rpo = cfg.entry :: (done ++ todo) → cfg.Inv idom →
    (∀ k ∈ cfg.entry :: done, (idom k).isSome) →
    ∃ st, todo.foldlM cfg.visitNode (idom, changed) = some st ∧ cfg.Inv st.1 ∧
      ∀ k ∈ cfg.rpo, (st.1 k).isSome := by
  intro todo
  induction todo with
  | nil =>
    intro done idom changed hrpo hi hsome
    refine ⟨_, rfl, hi, ?_⟩
    rw [List.append_nil] at hrpo
    rwa [hrpo]
  | cons node todo ih =>
    intro done idom changed hrpo hi hsome
    obtain ⟨hmem, hne, p, hp, hpred, hlt⟩ := ho.exists_before hrpo
    obtain ⟨r, hr, _, _, _, hi'⟩ := visitNode_spec ho hi changed hmem hne
      (List.mem_filter.mpr ⟨hpred, hsome p hp⟩) hlt
    obtain ⟨st, hst, hinv, hall⟩ := ih (done ++ [node]) _
      (changed || decide (idom node ≠ some r)) (by simp [hrpo]) hi' fun k hk => by
        by_cases hkn : k = node
        · simp [hkn]
        · rw [Function.update_of_ne hkn]
          refine hsome k ?_
          simpa [hkn] using hk
    refine ⟨st, ?_, hinv, hall⟩
    simp only [List.foldlM_cons, hr, Option.bind_eq_bind, Option.bind_some]
    exact hst

/-- What holds after the first sweep and `n` others. -/
structure After (cfg : V2Cfg) (n : Nat) (idom : IdomMap) : Prop where
  inv : cfg.Inv idom
  isSome : ∀ k ∈ cfg.rpo, (idom k).isSome
  within : Within cfg.Edge cfg.entry (fun _ => n) idom

/-- A later sweep: behind its turn, the chain over a node leaves out what longer paths avoid. -/
theorem foldlM_next (ho : cfg.Order) {n : Nat} : ∀ (todo done : List DecodeKey) (idom : IdomMap)
    (changed : Bool) (bound : DecodeKey → Nat), cfg.rpo = cfg.entry :: (done ++ todo) →
    cfg.Inv idom → (∀ k ∈ cfg.rpo, (idom k).isSome) → Within cfg.Edge cfg.entry bound idom →
    (∀ k, n ≤ bound k ∧ bound k ≤ n + 1) → (∀ k ∈ done, bound k = n + 1) →
    ∃ st, todo.foldlM cfg.visitNode (idom, changed) = some st ∧ cfg.After (n + 1) st.1 := by
  intro todo
  induction todo with
  | nil =>
    intro done idom changed bound hrpo hi hsome hw hbound hdone
    refine ⟨_, rfl, hi, hsome, ?_⟩
    intro k d i hle havoids habove
    by_cases hk : k = cfg.entry
    · subst hk
      exact havoids.ne habove.eq_root.symm
    · have hmem := (ho.mem k).mpr havoids.reach
      rw [hrpo, List.append_nil] at hmem
      have hkdone := hdone k ((List.mem_cons.mp hmem).resolve_left hk)
      exact hw k d i (hkdone ▸ hle) havoids habove
  | cons node todo ih =>
    intro done idom changed bound hrpo hi hsome hw hbound hdone
    obtain ⟨hmem, hne, p, hp, hpred, hlt⟩ := ho.exists_before hrpo
    have hall : ∀ q, cfg.Edge q node → Reach cfg.Edge cfg.entry q → q ∈ cfg.processed idom node :=
      fun q hedge hq => List.mem_filter.mpr
        ⟨(mem_predecessors (ho.successors_isSome hmem hne)).mpr hedge, hsome q ((ho.mem q).mpr hq)⟩
    have hprpo : p ∈ cfg.rpo := by
      rw [hrpo, ← List.cons_append]
      exact List.mem_append_left _ hp
    obtain ⟨r, hr, hmeets, _, hrlt, hi'⟩ := visitNode_spec ho hi changed hmem hne
      (List.mem_filter.mpr ⟨hpred, hsome p hprpo⟩) hlt
    have hw' := hw.update hi.tree (fun k => (hbound k).1) (fun k => (hbound k).2) hne hrlt
      fun q hedge hq => hmeets.above q (hall q hedge hq)
    have hsome' : ∀ k ∈ cfg.rpo, (Function.update idom node (some r) k).isSome := fun k hk => by
      by_cases hkn : k = node
      · simp [hkn]
      · rw [Function.update_of_ne hkn]
        exact hsome k hk
    have hbound' : ∀ k, n ≤ Function.update bound node (n + 1) k ∧
        Function.update bound node (n + 1) k ≤ n + 1 := fun k => by
      by_cases hkn : k = node
      · simp [hkn]
      · rw [Function.update_of_ne hkn]
        exact hbound k
    have hdone' : ∀ k ∈ done ++ [node], Function.update bound node (n + 1) k = n + 1 :=
      fun k hk => by
        by_cases hkn : k = node
        · rw [hkn, Function.update_self]
        · rw [Function.update_of_ne hkn]
          refine hdone k ?_
          simpa [hkn] using hk
    obtain ⟨st, hst, hafter⟩ := ih (done ++ [node]) _ (changed || decide (idom node ≠ some r))
      _ (by simp [hrpo]) hi' hsome' hw' hbound' hdone'
    refine ⟨st, ?_, hafter⟩
    simp only [List.foldlM_cons, hr, Option.bind_eq_bind, Option.bind_some]
    exact hst

/-! ### The sweeps -/

theorem pass_next (ho : cfg.Order) {n : Nat} (h : cfg.After n idom) :
    ∃ st, cfg.pass idom = some st ∧ cfg.After (n + 1) st.1 :=
  foldlM_next ho cfg.rpo.tail [] idom false (fun _ => n) ho.cons h.inv h.isSome h.within
    (fun _ => ⟨Nat.le_refl n, Nat.le_succ n⟩) (by simp)

/-- With as many sweeps as there are nodes, the parents are exact. -/
theorem After.exact (ho : cfg.Order) {n : Nat} (h : cfg.After n idom)
    (hn : cfg.rpo.length ≤ n + 1) : Exact cfg.Edge cfg.entry idom :=
  h.inv.sound.exact h.inv.tree (fun k => ⟨fun hk => (ho.mem k).mp (h.inv.mem k hk), fun hk =>
    h.isSome k ((ho.mem k).mpr hk)⟩) fun hk habove =>
      within_all (fun k => (ho.mem k).mpr) h.within (fun _ => hn) hk habove

/-- A sweep that changes nothing stands for any number of sweeps. -/
theorem After.of_clean (ho : cfg.Order) {n : Nat} (h : cfg.After n idom)
    (hclean : cfg.pass idom = some (idom, false)) : ∀ m, n ≤ m → cfg.After m idom := by
  intro m hm
  induction hm with
  | refl => exact h
  | step _ ih =>
    obtain ⟨st, hst, hafter⟩ := pass_next ho ih
    obtain rfl := Option.some.inj (hclean.symm.trans hst)
    exact hafter

/-- A sweep over exact parents changes nothing. -/
theorem After.clean (ho : cfg.Order) {n : Nat} (h : cfg.After n idom)
    (hn : cfg.rpo.length ≤ n + 1) : cfg.pass idom = some (idom, false) := by
  obtain ⟨st, hst, hafter⟩ := pass_next ho h
  have hsame : st.1 = idom := (h.exact ho hn).unique h.inv.tree hafter.inv.tree
    (hafter.exact ho (by omega))
  rw [hst, ← (pass_changed ho hst).mpr hsame, ← hsame]

theorem After.whileChanged (ho : cfg.Order) : ∀ (room : Nat) {n : Nat} {idom : IdomMap},
    cfg.After n idom → cfg.rpo.length ≤ n + room + 1 →
    ∃ idom', cfg.whileChanged (room + 1) idom = some idom' ∧ cfg.Inv idom' ∧
      Exact cfg.Edge cfg.entry idom' := by
  intro room
  induction room with
  | zero =>
    intro n idom h hn
    refine ⟨idom, ?_, h.inv, h.exact ho hn⟩
    rw [V2Cfg.whileChanged, h.clean ho hn]
    rfl
  | succ room ih =>
    intro n idom h hn
    obtain ⟨st, hst, hafter⟩ := pass_next ho h
    cases hchanged : st.2 with
    | true =>
      obtain ⟨idom', hidom', hexact⟩ := ih hafter (by omega)
      refine ⟨idom', ?_, hexact⟩
      rw [V2Cfg.whileChanged, hst, Option.bind_eq_bind, Option.bind_some, if_pos hchanged]
      exact hidom'
    | false =>
      have hsame := (pass_changed ho hst).mp hchanged
      have hclean : cfg.pass idom = some (idom, false) := by rw [hst, ← hchanged, ← hsame]
      refine ⟨idom, ?_, h.inv, (h.of_clean ho hclean (n + cfg.rpo.length) (by omega)).exact ho
        (by omega)⟩
      rw [V2Cfg.whileChanged, hclean]
      rfl

theorem inv_start (ho : cfg.Order) :
    cfg.Inv (Function.update (fun _ => none) cfg.entry (some cfg.entry)) := by
  have hentry : ∀ k a, Function.update (fun _ => none) cfg.entry (some cfg.entry) k = some a →
      k = cfg.entry := fun k a ha => by
    by_contra hk
    rw [Function.update_of_ne hk] at ha
    cases ha
  refine ⟨⟨Function.update_self .., fun k a hk ha => absurd (hentry k a ha) hk⟩, fun k hk => ?_,
    fun k a hk ha => absurd (hentry k a ha) hk⟩
  obtain ⟨a, ha⟩ := Option.isSome_iff_exists.mp hk
  rw [hentry k a ha, ho.cons]
  exact List.mem_cons_self

theorem whileChanged_exact (ho : cfg.Order) : ∃ idom,
    cfg.whileChanged (cfg.rpo.length + 1)
      (Function.update (fun _ => none) cfg.entry (some cfg.entry)) = some idom ∧ cfg.Inv idom ∧
      Exact cfg.Edge cfg.entry idom := by
  obtain ⟨st, hst, hinv, hall⟩ := foldlM_first ho cfg.rpo.tail [] _ false ho.cons (inv_start ho)
    (by simp)
  have hafter : cfg.After 0 st.1 := ⟨hinv, hall, within_zero⟩
  have hlength : cfg.rpo.length = cfg.rpo.tail.length + 1 := by
    rw [ho.cons]
    rfl
  cases hchanged : st.2 with
  | true =>
    obtain ⟨idom, hidom, hexact⟩ := hafter.whileChanged ho (cfg.rpo.tail.length) (by omega)
    refine ⟨idom, ?_, hexact⟩
    rw [whileChanged, pass, hst, Option.bind_eq_bind, Option.bind_some, if_pos hchanged, hlength]
    exact hidom
  | false =>
    have hsame := (pass_changed ho hst).mp hchanged
    have hclean : cfg.pass st.1 = some (st.1, false) := by
      rw [← hchanged]
      nth_rewrite 1 [hsame]
      exact hst
    refine ⟨st.1, ?_, hinv, (hafter.of_clean ho hclean cfg.rpo.length (Nat.zero_le _)).exact ho
      (Nat.le_succ _)⟩
    rw [whileChanged, pass, hst, Option.bind_eq_bind, Option.bind_some, hchanged]
    rfl

/-! ### The dominators -/

/-- The entry is no block, or the sweeps have come to an end. -/
theorem computeDominators_cases (cfg : V2Cfg) : ∃ idom, cfg.computeDominators = some idom ∧
    ((cfg.successors cfg.entry = none ∧ idom = fun _ => none) ∨
      (cfg.Order ∧ (cfg.successors cfg.entry).isSome ∧ cfg.Inv idom ∧
        Exact cfg.Edge cfg.entry idom)) := by
  rw [computeDominators]
  cases hentry : cfg.successors cfg.entry with
  | none => exact ⟨_, rfl, .inl ⟨rfl, rfl⟩⟩
  | some ss =>
    have hsome : (cfg.successors cfg.entry).isSome := by rw [hentry]; rfl
    obtain ⟨idom, hidom, hinv, hexact⟩ := whileChanged_exact (order hsome)
    exact ⟨idom, hidom, .inr ⟨order hsome, rfl, hinv, hexact⟩⟩

theorem reach_of_none (hentry : cfg.successors cfg.entry = none) {k : DecodeKey}
    (h : Reach cfg.Edge cfg.entry k) : k = cfg.entry := by
  induction h with
  | refl => rfl
  | tail _ hedge ih =>
    obtain ⟨ss, hss, _⟩ := hedge
    rw [ih, hentry] at hss
    cases hss

theorem idom_iff {idom : IdomMap} (h : cfg.computeDominators = some idom) :
    (∀ k, (idom k).isSome ↔ Visit.Reach cfg.successors cfg.entry k) ∧
      ∀ k, k ≠ cfg.entry → ∀ d, idom k = some d ↔ IDom cfg.Edge cfg.entry d k := by
  obtain ⟨idom', hidom, hcases⟩ := computeDominators_cases cfg
  obtain rfl := Option.some.inj (hidom.symm.trans h)
  obtain ⟨hentry, rfl⟩ | ⟨_, hentry, hinv, hexact⟩ := hcases
  · refine ⟨fun k => iff_of_false (by simp) fun h => ?_, fun k hk d =>
      iff_of_false (by simp) fun h => hk (reach_of_none hentry h.dominates.reach)⟩
    have hsome := h.root_isSome
    rw [hentry] at hsome
    cases hsome
  · refine ⟨fun k => (hexact.isSome k).trans (reach_iff hentry).symm,
      fun k hk d => ⟨hexact.idom k d hk, fun h => ?_⟩⟩
    obtain ⟨a, ha⟩ := Option.isSome_iff_exists.mp ((hexact.isSome k).mpr h.dominates.reach)
    have habove := (hexact.above_iff hinv.tree h.dominates.reach).mpr h.dominates
    have hdsome := habove.isSome hinv.tree (by rw [ha]; rfl)
    rw [ha, (hexact.idom k a hk ha).unique hinv.tree hexact.sound h
      (hinv.tree.parent k a hk ha).2 hdsome]

/-- **The sweeps end, with a parent for the blocks that the entry reaches, and the parent of each
but the entry is its immediate dominator.** -/
theorem computeDominators_exact (cfg : V2Cfg) : ∃ idom, cfg.computeDominators = some idom ∧
    (∀ k, (idom k).isSome ↔ Visit.Reach cfg.successors cfg.entry k) ∧
    ∀ k, k ≠ cfg.entry → ∀ d, idom k = some d ↔ IDom cfg.Edge cfg.entry d k := by
  obtain ⟨idom, hidom, _⟩ := computeDominators_cases cfg
  exact ⟨idom, hidom, idom_iff hidom⟩

/-! ### The walks of the frontier -/

/-- The walk from a node under the parent of another takes the chain in between. -/
theorem runners_spec (hc : Climbs cfg.entry cfg.rpo idom) {node a : DecodeKey}
    (hnode : idom node = some a) : ∀ (room : Nat) {runner : DecodeKey},
    cfg.rpo.idxOf runner < room → (idom runner).isSome → Above cfg.entry idom a runner →
    ∃ l, runners idom node room runner = some l ∧
      ∀ b, b ∈ l ↔ Above cfg.entry idom b runner ∧ ¬ Above cfg.entry idom b a := by
  intro room
  induction room with
  | zero => intro runner hlt; omega
  | succ room ih =>
    intro runner hlt hsome habove
    rw [runners]
    by_cases hstop : runner = a
    · subst hstop
      rw [if_pos hnode]
      exact ⟨[], rfl, fun b => by simp⟩
    · have hne : runner ≠ cfg.entry := by
        rintro rfl
        exact hstop habove.eq_root.symm
      obtain ⟨next, hnext⟩ := Option.isSome_iff_exists.mp hsome
      obtain ⟨hrank, hnsome⟩ := hc.tree.parent runner next hne hnext
      have habove' : Above cfg.entry idom a next := by
        cases habove with
        | self => exact absurd rfl hstop
        | up _ h habove =>
          rw [hnext] at h
          obtain rfl := Option.some.inj h
          exact habove
      obtain ⟨l, hl, hmem⟩ := ih (by omega) hnsome habove'
      have hself : next ≠ runner := by
        rintro rfl
        omega
      have hnot : ¬ Above cfg.entry idom runner a := fun h => by
        have hle := h.rank_le hc.tree
        have hle' := habove'.rank_le hc.tree
        omega
      rw [if_neg (by rw [hnode]; exact fun h => hstop (Option.some.inj h).symm)]
      simp only [hnext, if_neg hself, hl, Option.map_some]
      refine ⟨_, rfl, fun b => ?_⟩
      rw [List.mem_cons, hmem]
      constructor
      · rintro (rfl | ⟨hb, hba⟩)
        · exact ⟨.self, hnot⟩
        · exact ⟨.up hne hnext hb, hba⟩
      · rintro ⟨hb, hba⟩
        cases hb with
        | self => exact .inl rfl
        | up _ h hb =>
          rw [hnext] at h
          obtain rfl := Option.some.inj h
          exact .inr ⟨hb, hba⟩

theorem mapM_eq_map {α β : Type} {f : α → Option β} {g : α → β} {l : List α}
    (h : ∀ a ∈ l, f a = some (g a)) : l.mapM f = some (l.map g) := by
  induction l with
  | nil => rfl
  | cons a l ih =>
    rw [List.mapM_cons, h a List.mem_cons_self, ih fun b hb => h b (List.mem_cons_of_mem a hb)]
    rfl

theorem Order.length_le (ho : cfg.Order) (hentry : (cfg.successors cfg.entry).isSome) :
    cfg.rpo.length ≤ cfg.blocks.length := by
  rw [← List.length_map (fun b : Block => b.entry)]
  refine (ho.nodup.subperm fun k hk => V2Cfg.successors_isSome.mp ?_).length_le
  by_cases hk' : k = cfg.entry
  · rwa [hk']
  · exact ho.successors_isSome hk hk'

/-- All walks for one block. -/
theorem nodeRunners_spec (ho : cfg.Order) (hentry : (cfg.successors cfg.entry).isSome)
    (hi : cfg.Inv idom) {node : DecodeKey} (habove : ∀ p ∈ cfg.processed idom node,
      ∃ a, idom node = some a ∧ Above cfg.entry idom a p) :
    ∃ l, cfg.nodeRunners idom node = some l ∧ ∀ b, b ∈ l ↔ 2 ≤ (cfg.predecessors node).length ∧
      ∃ p ∈ cfg.processed idom node, Above cfg.entry idom b p ∧
        ∀ a, idom node = some a → ¬ Above cfg.entry idom b a := by
  rw [nodeRunners]
  by_cases hlen : (cfg.predecessors node).length < 2
  · rw [if_pos hlen]
    exact ⟨[], rfl, fun b => iff_of_false List.not_mem_nil fun h => by omega⟩
  · have hwalk : ∀ p ∈ cfg.processed idom node,
        ∃ l, runners idom node (cfg.blocks.length + 1) p = some l ∧
          ∀ b, b ∈ l ↔ Above cfg.entry idom b p ∧
            ∀ a, idom node = some a → ¬ Above cfg.entry idom b a := fun p hp => by
      obtain ⟨a, ha, hap⟩ := habove p hp
      have hsome := (List.mem_filter.mp hp).2
      have hlt := List.idxOf_lt_length_of_mem (hi.mem p hsome)
      have hle := ho.length_le hentry
      obtain ⟨l, hl, hmem⟩ := runners_spec (hi.climbs ho) ha (cfg.blocks.length + 1) (by omega)
        hsome hap
      exact ⟨l, hl, fun b => by simp [hmem, ha]⟩
    choose! walk hwalk using hwalk
    rw [if_neg hlen, Option.bind_eq_bind]
    refine ⟨((cfg.processed idom node).map walk).flatten, ?_, fun b => ?_⟩
    · show Option.bind ((cfg.processed idom node).mapM _) _ = _
      rw [mapM_eq_map fun p hp => (hwalk p hp).1]
      rfl
    · rw [List.mem_flatten]
      constructor
      · rintro ⟨l, hl, hb⟩
        obtain ⟨p, hp, rfl⟩ := List.mem_map.mp hl
        exact ⟨by omega, p, hp, ((hwalk p hp).2 b).mp hb⟩
      · rintro ⟨_, p, hp, hb⟩
        exact ⟨_, List.mem_map_of_mem hp, ((hwalk p hp).2 b).mpr hb⟩

/-- The frontiers, as far as the walks for each block come to an end. -/
theorem mem_frontier {runs : DecodeKey → List DecodeKey} (h : ∀ node,
    (cfg.successors node).isSome → cfg.nodeRunners idom node = some (runs node)) :
    ∃ df, cfg.computeDominanceFrontier idom = some df ∧
      ∀ b node, node ∈ df b ↔ (cfg.successors node).isSome ∧ b ∈ runs node := by
  rw [computeDominanceFrontier, mapM_eq_map (g := fun node => (node, runs node))]
  · refine ⟨_, rfl, fun b node => ?_⟩
    simp only [List.mem_map, List.mem_filter, decide_eq_true_eq, successors_isSome]
    constructor
    · rintro ⟨e, ⟨⟨_, hk, rfl⟩, hb⟩, rfl⟩
      exact ⟨hk, hb⟩
    · rintro ⟨hk, hb⟩
      exact ⟨_, ⟨⟨node, hk, rfl⟩, hb⟩, rfl⟩
  · intro node hnode
    rw [h node (successors_isSome.mpr hnode), Option.map_some]

/-! ### The frontiers -/

/-- Where the walks stop: at the immediate dominator, or in front of the entry. -/
theorem parent_above (hi : cfg.Inv idom) (he : Exact cfg.Edge cfg.entry idom)
    {p node : DecodeKey} (hnode : (cfg.successors node).isSome)
    (hp : p ∈ cfg.processed idom node) : ∃ a, idom node = some a ∧ Above cfg.entry idom a p := by
  obtain ⟨hpred, hsome⟩ := List.mem_filter.mp hp
  have hedge := (mem_predecessors hnode).mp hpred
  by_cases hentry : node = cfg.entry
  · subst hentry
    exact ⟨_, he.entry, hi.tree.above_root (cfg.rpo.idxOf p + 1) (by omega) hsome⟩
  · have hreach := (he.isSome p).mp hsome
    obtain ⟨a, ha⟩ := Option.isSome_iff_exists.mp ((he.isSome node).mpr (hreach.tail hedge))
    have hidom := he.idom node a hentry ha
    exact ⟨a, ha, (he.above_iff hi.tree hreach).mpr (hidom.dominates.pred hidom.ne hreach hedge)⟩

/-- A single edge into a block is no place where a frontier runs. -/
theorem two_le_predecessors (hi : cfg.Inv idom) (he : Exact cfg.Edge cfg.entry idom)
    (ho : cfg.Order) {b p node : DecodeKey} (hne : node ≠ cfg.entry) (hedge : cfg.Edge p node)
    (hb : Dominates cfg.Edge cfg.entry b p)
    (hnot : ¬ (Dominates cfg.Edge cfg.entry b node ∧ b ≠ node)) : 2 ≤ (cfg.predecessors node).length := by
  by_contra hlen
  obtain ⟨_, _, _, hsome⟩ := id hedge
  have hreach := hb.reach.tail hedge
  have honly : ∀ q, cfg.Edge q node → q = p := fun q hq => by
    have hq := (mem_predecessors hsome).mpr hq
    have hp := (mem_predecessors hsome).mpr hedge
    obtain ⟨r, hr⟩ := List.length_eq_one_iff.mp (Nat.le_antisymm (Nat.not_lt.mp hlen)
      (List.length_pos_of_mem hp))
    rw [hr, List.mem_singleton] at hp hq
    rw [hq, hp]
  refine hnot ⟨⟨hreach, fun n hn => ?_⟩, fun hbn => ?_⟩
  · cases hn with
    | root => exact hne rfl
    | step hn hq _ => exact hb.passes _ (honly _ hq ▸ hn)
  · -- the predecessor comes first, so the block is not over it
    obtain ⟨done, todo, hsplit⟩ := List.append_of_mem (List.mem_of_ne_of_mem hne
      (ho.cons ▸ (ho.mem node).mpr hreach))
    obtain ⟨_, _, q, _, hq, hlt⟩ := ho.exists_before (hsplit ▸ ho.cons)
    rw [honly q ((mem_predecessors hsome).mp hq)] at hlt
    have hle := ((he.above_iff hi.tree hb.reach).mpr hb).rank_le hi.tree
    rw [hbn] at hle
    omega

theorem mem_walk_iff (hi : cfg.Inv idom) (he : Exact cfg.Edge cfg.entry idom) (ho : cfg.Order)
    {b node : DecodeKey} (hnode : (cfg.successors node).isSome) :
    (2 ≤ (cfg.predecessors node).length ∧ ∃ p ∈ cfg.processed idom node,
      Above cfg.entry idom b p ∧ ∀ a, idom node = some a → ¬ Above cfg.entry idom b a) ↔
    Frontier cfg.Edge cfg.entry b node ∧
      (node = cfg.entry → b ≠ cfg.entry ∧ 2 ≤ (cfg.predecessors cfg.entry).length) := by
  constructor
  · rintro ⟨hlen, p, hp, hbp, hba⟩
    obtain ⟨hpred, hsome⟩ := List.mem_filter.mp hp
    have hedge := (mem_predecessors hnode).mp hpred
    have hreach := (he.isSome p).mp hsome
    have hentry : node = cfg.entry → b ≠ cfg.entry := by
      rintro rfl rfl
      exact hba _ he.entry .self
    refine ⟨⟨⟨p, hedge, (he.above_iff hi.tree hreach).mp hbp⟩, fun hdom => ?_⟩, fun h => ⟨hentry h,
      h ▸ hlen⟩⟩
    by_cases hne : node = cfg.entry
    · subst hne
      exact hdom.2 hdom.1.eq_root
    · obtain ⟨a, ha⟩ := Option.isSome_iff_exists.mp ((he.isSome node).mpr hdom.1.reach)
      have hda := (he.idom node a hne ha).last b hdom.1 hdom.2
      exact hba a ha ((he.above_iff hi.tree hda.reach).mpr hda)
  · rintro ⟨⟨⟨p, hedge, hbp⟩, hnot⟩, hentry⟩
    have hsome := (he.isSome p).mpr hbp.reach
    have hp : p ∈ cfg.processed idom node :=
      List.mem_filter.mpr ⟨(mem_predecessors hnode).mpr hedge, hsome⟩
    have hbabove := (he.above_iff hi.tree hbp.reach).mpr hbp
    by_cases hne : node = cfg.entry
    · obtain ⟨hb, hlen⟩ := hentry hne
      refine ⟨hne ▸ hlen, p, hp, hbabove, fun a ha habove => ?_⟩
      rw [hne, he.entry] at ha
      obtain rfl := Option.some.inj ha
      exact hb habove.eq_root
    · have hlen := two_le_predecessors hi he ho hne hedge hbp hnot
      refine ⟨hlen, p, hp, hbabove, fun a ha habove => ?_⟩
      have hreach := hbp.reach.tail hedge
      have hab : Above cfg.entry idom b node := .up hne ha habove
      refine hnot ⟨(he.above_iff hi.tree hreach).mp hab, ?_⟩
      rintro rfl
      have hlt := (hi.tree.parent _ a hne ha).1
      have hle := habove.rank_le hi.tree
      omega

/-- The walks come to an end and go as far as they should. -/
theorem computeDominanceFrontier_cases (cfg : V2Cfg) : ∃ idom df,
    cfg.computeDominators = some idom ∧ cfg.computeDominanceFrontier idom = some df ∧ ∀ b node, node ∈ df b ↔
      Frontier cfg.Edge cfg.entry b node ∧
        (node = cfg.entry → b ≠ cfg.entry ∧ 2 ≤ (cfg.predecessors cfg.entry).length) := by
  obtain ⟨idom, hidom, ⟨hentry, rfl⟩ | ⟨ho, hentry, hi, he⟩⟩ := computeDominators_cases cfg
  · have hruns : ∀ node, (cfg.successors node).isSome →
        cfg.nodeRunners (fun _ => none) node = some [] := fun node _ => by simp [nodeRunners]
    obtain ⟨df, hdf, hmem⟩ := mem_frontier hruns
    refine ⟨_, df, hidom, hdf, fun b node => iff_of_false (by simp [hmem]) fun h => ?_⟩
    obtain ⟨⟨p, ⟨ss, hss, _⟩, hdom⟩, _⟩ := h.1
    rw [reach_of_none hentry hdom.reach, hentry] at hss
    cases hss
  · have hruns : ∀ node, (cfg.successors node).isSome → ∃ l, cfg.nodeRunners idom node = some l ∧
        ∀ b, b ∈ l ↔ Frontier cfg.Edge cfg.entry b node ∧
          (node = cfg.entry → b ≠ cfg.entry ∧ 2 ≤ (cfg.predecessors cfg.entry).length) := by
      intro node hnode
      obtain ⟨l, hl, hmem⟩ := nodeRunners_spec ho hentry hi fun p => parent_above hi he hnode
      exact ⟨l, hl, fun b => (hmem b).trans (mem_walk_iff hi he ho hnode)⟩
    choose! runs hruns using hruns
    obtain ⟨df, hdf, hmem⟩ := mem_frontier fun node hnode => (hruns node hnode).1
    refine ⟨idom, df, hidom, hdf, fun b node => ?_⟩
    rw [hmem]
    refine ⟨fun h => ((hruns node h.1).2 b).mp h.2, fun h => ?_⟩
    obtain ⟨p, ⟨_, _, _, hnode⟩, _⟩ := h.1.1
    exact ⟨hnode, ((hruns node hnode).2 b).mpr h⟩

/-- The entry is all that the frontiers lack. -/
theorem frontiers_iff {df : DecodeKey → List DecodeKey}
    (hmem : ∀ b node, node ∈ df b ↔ Frontier cfg.Edge cfg.entry b node ∧
      (node = cfg.entry → b ≠ cfg.entry ∧ 2 ≤ (cfg.predecessors cfg.entry).length)) :
    (∀ b node, node ∈ df b ↔ Frontier cfg.Edge cfg.entry b node) ↔
      ∀ p, Reach cfg.Edge cfg.entry p → ¬ cfg.Edge p cfg.entry := by
  constructor
  · intro h p hp hedge
    have hfrontier : Frontier cfg.Edge cfg.entry cfg.entry cfg.entry :=
      ⟨⟨p, hedge, .entry hp⟩, fun h => h.2 rfl⟩
    exact (((hmem _ _).mp ((h _ _).mpr hfrontier)).2 rfl).1 rfl
  · intro h b node
    rw [hmem]
    refine ⟨fun h => h.1, fun hf => ⟨hf, fun hnode => ?_⟩⟩
    obtain ⟨p, hedge, hdom⟩ := hf.1
    exact absurd (hnode ▸ hedge) (h p hdom.reach)

/-- **The frontiers are right at every block if and only if no block that the entry reaches leads
back to it.  They are wrong at the entry alone, where its own frontier always lacks it and, with one
edge into it, those of all blocks do.** -/
theorem frontier_iff (cfg : V2Cfg) : ∃ idom df, cfg.computeDominators = some idom ∧
    cfg.computeDominanceFrontier idom = some df ∧
    (∀ b node, node ∈ df b ↔ Frontier cfg.Edge cfg.entry b node ∧
      (node = cfg.entry → b ≠ cfg.entry ∧ 2 ≤ (cfg.predecessors cfg.entry).length)) ∧
    ((∀ b node, node ∈ df b ↔ Frontier cfg.Edge cfg.entry b node) ↔
      ∀ p, Reach cfg.Edge cfg.entry p → ¬ cfg.Edge p cfg.entry) := by
  obtain ⟨idom, df, hidom, hdf, hmem⟩ := computeDominanceFrontier_cases cfg
  exact ⟨idom, df, hidom, hdf, hmem, frontiers_iff hmem⟩

/-- `build_cfg` ends, every block that the entry reaches has its immediate dominator, and every block
its dominance frontier. -/
def DominanceRight (cfg : V2Cfg) : Prop :=
  ∃ idom df, cfg.computeDominators = some idom ∧ cfg.computeDominanceFrontier idom = some df ∧
    (∀ k, Reach cfg.Edge cfg.entry k → k ≠ cfg.entry → ∀ d, idom k = some d ↔ IDom cfg.Edge cfg.entry d k) ∧
    ∀ b node, node ∈ df b ↔ Frontier cfg.Edge cfg.entry b node

theorem DominanceRight.no_loop (h : cfg.DominanceRight) :
    ∀ p, Reach cfg.Edge cfg.entry p → ¬ cfg.Edge p cfg.entry := by
  obtain ⟨idom, df, hidom, hdf, -, hright⟩ := h
  obtain ⟨idom', df', hidom', hdf', hmem⟩ := computeDominanceFrontier_cases cfg
  obtain rfl := Option.some.inj (hidom.symm.trans hidom')
  obtain rfl := Option.some.inj (hdf.symm.trans hdf')
  exact (frontiers_iff hmem).mp hright

/-- **Dominators and frontiers are both right exactly where no loop goes through the entry.** -/
theorem dominanceRight_iff (cfg : V2Cfg) :
    cfg.DominanceRight ↔ ∀ p, Reach cfg.Edge cfg.entry p → ¬ cfg.Edge p cfg.entry := by
  refine ⟨DominanceRight.no_loop, fun h => ?_⟩
  obtain ⟨idom, df, hidom, hdf, hmem⟩ := computeDominanceFrontier_cases cfg
  exact ⟨idom, df, hidom, hdf, fun k _ hk => (idom_iff hidom).2 k hk, (frontiers_iff hmem).mpr h⟩

/-- `DEX`, `BNE` back to it, and `RTS`. -/
def countdown : DecodeInput := .plain [0xCA, 0xD0, 0xFD, 0x60]

theorem loop_countdown : ∃ g, decodeFunction countdown = some g ∧
    (g.v2Cfg (List.Perm.refl g.buildCfg)).Edge g.entry g.entry := by
  have hdecoded : (decodeFunction countdown).any (fun g =>
      ((g.v2Cfg (List.Perm.refl g.buildCfg)).successors g.entry).any fun ss => decide (g.entry ∈ ss)) := by
    decide
  obtain ⟨g, hg, hloop⟩ := (Option.any_eq_true _ _).mp hdecoded
  obtain ⟨ss, hss, hmem⟩ := (Option.any_eq_true _ _).mp hloop
  exact ⟨g, hg, ss, hss, of_decide_eq_true hmem, by rw [hss]; rfl⟩

/-- The loop is one block with one edge into it, and its frontier lacks the block itself. -/
theorem not_dominanceRight_countdown : ∃ g, decodeFunction countdown = some g ∧
    ¬ (g.v2Cfg (List.Perm.refl g.buildCfg)).DominanceRight := by
  obtain ⟨g, hg, hedge⟩ := loop_countdown
  exact ⟨g, hg, fun h => h.no_loop g.entry .refl hedge⟩

end V2Cfg

end SnesRecomp.Recompiler
