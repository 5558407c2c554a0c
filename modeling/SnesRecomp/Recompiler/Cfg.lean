import SnesRecomp.Recompiler.Graph
import Mathlib.Algebra.Order.BigOperators.Group.List
import Mathlib.Data.List.Chain

/-!
# Basic blocks

`build_cfg` of `cfg.py`, as far as the emitter reads it: the leaders and the walks from
them.  Dominators and frontiers are computed apart from it.

Leaders come from a fixed list of mnemonics that end a block and from keys with several
edges into them.  `leader_iff_edges`: another mnemonic makes a leader only where a second
edge arrives.
-/

namespace SnesRecomp.Recompiler

/-- `_BLOCK_ENDERS`. -/
def isBlockEnder : Mnem → Bool
  | .rts | .rtl | .rti | .stp | .wai | .brk | .bra | .brl => true
  | .jmp | .jsr | .jsl => true
  | mnem => isCondBranch mnem

theorem isBlockEnder_of_isCondBranch {mnem : Mnem} (h : isCondBranch mnem = true) :
    isBlockEnder mnem = true := by
  cases mnem <;> first | rfl | cases h

/-- `V2Block`. -/
structure Block where
  entry : DecodeKey
  insns : List DecodedInsn
  successors : List DecodeKey
  deriving DecidableEq, Repr

namespace FunctionGraph

variable (g : FunctionGraph)

/-- `graph.insns.get`. -/
def get? (key : DecodeKey) : Option DecodedInsn := g.insns.find? fun di => di.key = key

/-- `len(preds[key])`: an edge for each entry in a list of successors. -/
def edgesInto (key : DecodeKey) : Nat := (g.insns.map fun di => di.successors.count key).sum

/-- `_identify_leaders`, for a key of the graph. -/
def isLeader (key : DecodeKey) : Bool :=
  decide (key = g.entry) ||
    (g.insns.any fun di => isBlockEnder di.insn.mnem && decide (key ∈ di.successors)) ||
    decide (1 < g.edgesInto key)

/-- The walk of `_build_blocks`, for at most `room` instructions. -/
def walk (leader : DecodeKey) : Nat → DecodeKey → List DecodeKey → List DecodedInsn
  | 0, _, _ => []
  | room + 1, cur, seen =>
    match g.get? cur with
    | none => []
    | some di =>
      if cur ∈ seen then []
      else
        di ::
          (if isBlockEnder di.insn.mnem then []
          else
            match di.successors with
            | [nxt] => if g.isLeader nxt ∧ nxt ≠ leader then [] else walk leader room nxt (cur :: seen)
            | _ => [])

def blockInsns (leader : DecodeKey) : List DecodedInsn := g.walk leader (g.insns.length + 1) leader []

/-- `build_cfg`. -/
def buildCfg : List Block :=
  (g.insns.filter fun di => g.isLeader di.key).map fun di =>
    let insns := g.blockInsns di.key
    ⟨di.key, insns, (insns.getLast?.map (·.successors)).getD []⟩

variable {g}

/-! ### Edges -/

theorem eq_of_key {di dj : DecodedInsn} (hi : di ∈ g.insns) (hj : dj ∈ g.insns)
    (h : di.key = dj.key) : di = dj :=
  List.inj_on_of_nodup_map g.labelled hi hj (by rw [h])

theorem get?_eq_some {key : DecodeKey} {di : DecodedInsn} :
    g.get? key = some di ↔ di ∈ g.insns ∧ di.key = key := by
  unfold get?
  constructor
  · intro h
    exact ⟨List.mem_of_find?_eq_some h, by simpa using List.find?_some h⟩
  · rintro ⟨hmem, rfl⟩
    cases hfind : g.insns.find? fun dj => decide (dj.key = di.key) with
    | none => exact absurd (decide_eq_true rfl) (List.find?_eq_none.mp hfind di hmem)
    | some dj =>
      rw [eq_of_key (List.mem_of_find?_eq_some hfind) hmem (by simpa using List.find?_some hfind)]

theorem add_le_sum {α : Type} (f : α → Nat) {a b : α} (hne : a ≠ b) :
    ∀ {l : List α}, a ∈ l → b ∈ l → f a + f b ≤ (l.map f).sum := by
  intro l
  induction l with
  | nil => intro ha; cases ha
  | cons c l ih =>
    intro ha hb
    rw [List.map_cons, List.sum_cons]
    rcases List.mem_cons.mp ha with rfl | hal
    · have hmem := (List.mem_cons.mp hb).resolve_left fun h => hne h.symm
      have hle := List.single_le_sum (fun _ _ => Nat.zero_le _) _
        (List.mem_map_of_mem hmem : f b ∈ l.map f)
      omega
    · rcases List.mem_cons.mp hb with rfl | hbl
      · have hle := List.single_le_sum (fun _ _ => Nat.zero_le _) _
          (List.mem_map_of_mem hal : f a ∈ l.map f)
        omega
      · have hle := ih hal hbl
        omega

/-- Two instructions with an edge to one key make two edges. -/
theorem eq_of_edges {di dj : DecodedInsn} {s : DecodeKey} (hi : di ∈ g.insns) (hj : dj ∈ g.insns)
    (hs : s ∈ di.successors) (hs' : s ∈ dj.successors) (hle : g.edgesInto s ≤ 1) : di = dj := by
  by_contra hne
  have hsum := add_le_sum (fun di : DecodedInsn => di.successors.count s) hne hi hj
  have hpos := List.count_pos_iff.mpr hs
  have hpos' := List.count_pos_iff.mpr hs'
  unfold edgesInto at hle
  omega

theorem leader_of_ender {di : DecodedInsn} {s : DecodeKey} (hi : di ∈ g.insns)
    (hender : isBlockEnder di.insn.mnem = true) (hs : s ∈ di.successors) : g.isLeader s = true := by
  unfold isLeader
  rw [Bool.or_eq_true, Bool.or_eq_true]
  refine Or.inl (Or.inr (List.any_eq_true.mpr ⟨di, hi, ?_⟩))
  rw [hender, decide_eq_true hs]
  rfl

theorem edgesInto_le {s : DecodeKey} (h : ¬ g.isLeader s = true) : g.edgesInto s ≤ 1 := by
  unfold isLeader at h
  rw [Bool.or_eq_true, not_or] at h
  have h := h.2
  rw [decide_eq_true_eq] at h
  omega

theorem isLeader_entry : g.isLeader g.entry = true := by
  unfold isLeader
  rw [decide_eq_true rfl]
  rfl

/-- Behind an instruction that ends no block there is a leader exactly where the entry is
or a second edge arrives. -/
theorem leader_iff_edges {di : DecodedInsn} {s : DecodeKey} (hi : di ∈ g.insns)
    (hender : isBlockEnder di.insn.mnem = false) (hs : s ∈ di.successors) :
    g.isLeader s = true ↔ s = g.entry ∨ 1 < g.edgesInto s := by
  constructor
  · intro h
    by_contra hnot
    rw [not_or] at hnot
    unfold isLeader at h
    rw [Bool.or_eq_true, Bool.or_eq_true, decide_eq_true_eq, decide_eq_true_eq] at h
    rcases h with (h | h) | h
    · exact hnot.1 h
    · obtain ⟨dj, hj, hdj⟩ := List.any_eq_true.mp h
      rw [Bool.and_eq_true, decide_eq_true_eq] at hdj
      obtain rfl := eq_of_edges hi hj hs hdj.2 (by omega)
      rw [hender] at hdj
      cases hdj.1
    · exact hnot.2 h
  · intro h
    unfold isLeader
    rw [Bool.or_eq_true, Bool.or_eq_true, decide_eq_true_eq, decide_eq_true_eq]
    exact h.elim (fun h => Or.inl (Or.inl h)) Or.inr

/-! ### Walks -/

theorem exists_rel_of_isChain {α : Type} {R : α → α → Prop} : ∀ {l : List α} {a : α},
    List.IsChain R (a :: l) → ∀ {x}, x ∈ l → ∃ y ∈ a :: l, R y x := by
  intro l
  induction l with
  | nil => intro a _ x hx; cases hx
  | cons b l ih =>
    intro a h x hx
    obtain ⟨hab, hrest⟩ := List.isChain_cons_cons.mp h
    rcases List.mem_cons.mp hx with rfl | hx
    · exact ⟨a, List.mem_cons_self, hab⟩
    · obtain ⟨y, hy, hyx⟩ := ih hrest hx
      exact ⟨y, List.mem_cons_of_mem a hy, hyx⟩

variable (g)

theorem last_or_rel_of_isChain {α : Type} {R : α → α → Prop} : ∀ {l : List α},
    List.IsChain R l → ∀ {x}, x ∈ l → l.getLast? = some x ∨ ∃ y ∈ l, R x y := by
  intro l
  induction l with
  | nil => intro _ x hx; cases hx
  | cons a l ih =>
    intro h x hx
    cases l with
    | nil => exact Or.inl (by rw [List.mem_singleton.mp hx]; rfl)
    | cons b l =>
      obtain ⟨hab, hrest⟩ := List.isChain_cons_cons.mp h
      rcases List.mem_cons.mp hx with rfl | hx
      · exact Or.inr ⟨b, List.mem_cons_of_mem x List.mem_cons_self, hab⟩
      · rw [List.getLast?_cons_cons]
        exact (ih hrest hx).imp_right fun ⟨y, hy, hxy⟩ => ⟨y, List.mem_cons_of_mem a hy, hxy⟩

/-- The instruction is followed by the other one in a block. -/
structure Follows (di dj : DecodedInsn) : Prop where
  ender : isBlockEnder di.insn.mnem = false
  successors : di.successors = [dj.key]
  leader : ¬ g.isLeader dj.key = true

/-- The last instruction of a block: it ends blocks, or its only successor in the graph is a
leader, or it has not exactly one successor. -/
def Stops (di : DecodedInsn) : Prop :=
  isBlockEnder di.insn.mnem = false →
    ∀ dj ∈ g.insns, di.successors = [dj.key] → g.isLeader dj.key = true

/-- The second key's instruction has the first key as its only successor. -/
def Steps (k k' : DecodeKey) : Prop := ∃ di ∈ g.insns, di.key = k' ∧ di.successors = [k]

/-- A walk has come from the leader through the keys in `seen`, the last of them first, and
goes on at `cur`. -/
structure Walking (leader cur : DecodeKey) (seen : List DecodeKey) : Prop where
  leads : g.isLeader leader = true
  chain : List.IsChain g.Steps (cur :: seen)
  first : (cur :: seen).getLast? = some leader
  nodup : seen.Nodup

variable {g}

theorem Steps.unique {k a b : DecodeKey} (ha : g.Steps k a) (hb : g.Steps k b)
    (hk : ¬ g.isLeader k = true) : a = b := by
  obtain ⟨di, hi, rfl, hs⟩ := ha
  obtain ⟨dj, hj, rfl, hs'⟩ := hb
  rw [eq_of_edges hi hj (by rw [hs]; exact List.mem_singleton_self k)
    (by rw [hs']; exact List.mem_singleton_self k) (edgesInto_le hk)]

/-- A key that is no leader has not been seen when the walk comes to it: the step before it
would have been taken twice. -/
theorem Walking.not_mem {leader cur : DecodeKey} {seen : List DecodeKey}
    (h : g.Walking leader cur seen) (hcur : ¬ g.isLeader cur = true) : cur ∉ seen := by
  intro hmem
  obtain ⟨hleads, hchain, hfirst, hnodup⟩ := h
  obtain ⟨pre, post, rfl⟩ := List.append_of_mem hmem
  cases post with
  | nil =>
    rw [← List.cons_append, List.getLast?_concat] at hfirst
    rw [Option.some.inj hfirst] at hcur
    exact hcur hleads
  | cons p post =>
    have hp : g.Steps cur p := by
      rw [← List.cons_append] at hchain
      exact List.rel_of_isChain_cons_cons hchain.right_of_append
    cases pre with
    | nil =>
      have hq : g.Steps cur cur := List.rel_of_isChain_cons_cons hchain
      rw [hq.unique hp hcur] at hnodup
      exact (List.nodup_cons.mp hnodup).1 List.mem_cons_self
    | cons q pre =>
      have hq : g.Steps cur q := List.rel_of_isChain_cons_cons hchain
      rw [hq.unique hp hcur] at hnodup
      refine (List.nodup_cons.mp hnodup).1 (List.mem_append_right _ ?_)
      exact List.mem_cons_of_mem cur List.mem_cons_self

theorem Walking.length_le {leader cur : DecodeKey} {seen : List DecodeKey} {di : DecodedInsn}
    (h : g.Walking leader cur seen) (hcur : cur ∉ seen) (hget : g.get? cur = some di) :
    seen.length < g.insns.length := by
  have hsub : cur :: seen ⊆ g.insns.map (·.key) := by
    intro k hk
    rcases List.mem_cons.mp hk with rfl | hk
    · obtain ⟨hmem, rfl⟩ := get?_eq_some.mp hget
      exact List.mem_map_of_mem hmem
    · obtain ⟨_, _, di, hi, rfl, _⟩ := exists_rel_of_isChain h.chain hk
      exact List.mem_map_of_mem hi
  have hlen := (List.nodup_cons.mpr ⟨hcur, h.nodup⟩).subperm hsub |>.length_le
  rw [List.length_map, List.length_cons] at hlen
  omega

theorem walk_eq_nil_of_get? {leader cur : DecodeKey} (hget : g.get? cur = none) (room : Nat)
    (seen : List DecodeKey) : g.walk leader room cur seen = [] := by
  cases room with
  | zero => rfl
  | succ room => rw [walk, hget]

theorem walk_eq_nil_of_mem {leader cur : DecodeKey} {seen : List DecodeKey} (hcur : cur ∈ seen)
    (room : Nat) : g.walk leader room cur seen = [] := by
  cases room with
  | zero => rfl
  | succ room =>
    rw [walk]
    cases hget : g.get? cur with
    | none => rfl
    | some di => exact if_pos hcur

theorem leader_mem {leader cur : DecodeKey} {seen : List DecodeKey}
    (h : g.Walking leader cur seen) : leader ∈ cur :: seen :=
  List.mem_of_getLast? h.first

/-- **A walk is a chain of instructions that each have the next as only successor, and ends
where that stops.** -/
theorem walk_spec {leader : DecodeKey} : ∀ (room : Nat) (cur : DecodeKey) (seen : List DecodeKey)
    (di : DecodedInsn), g.Walking leader cur seen → cur ∉ seen → g.get? cur = some di →
    g.insns.length ≤ room + seen.length →
    ∃ rest, g.walk leader room cur seen = di :: rest ∧ List.IsChain g.Follows (di :: rest) ∧
      (∀ dj ∈ di :: rest, dj ∈ g.insns) ∧ ∀ last ∈ (di :: rest).getLast?, g.Stops last := by
  intro room
  induction room with
  | zero =>
    intro cur seen di h hcur hget hroom
    have hlt := h.length_le hcur hget
    omega
  | succ room ih =>
    intro cur seen di h hcur hget hroom
    obtain ⟨hmem, hkey⟩ := get?_eq_some.mp hget
    have hstop : ∀ {t}, t = [] → g.Stops di → ∃ rest, di :: t = di :: rest ∧
        List.IsChain g.Follows (di :: rest) ∧ (∀ dj ∈ di :: rest, dj ∈ g.insns) ∧
        ∀ last ∈ (di :: rest).getLast?, g.Stops last := by
      rintro t rfl hstops
      refine ⟨[], rfl, List.isChain_singleton di, fun dj hj => ?_, fun last hlast => ?_⟩
      · rw [List.mem_singleton.mp hj]
        exact hmem
      · rw [List.getLast?_singleton] at hlast
        rw [← Option.some.inj hlast]
        exact hstops
    rw [walk, hget]
    dsimp only
    rw [if_neg hcur]
    by_cases hender : isBlockEnder di.insn.mnem = true
    · rw [if_pos hender]
      exact hstop rfl fun h => by rw [hender] at h; cases h
    · rw [if_neg hender]
      cases hsucc : di.successors with
      | nil => exact hstop rfl fun _ dj _ h => by rw [hsucc] at h; cases h
      | cons nxt others =>
        cases others with
        | cons s ss => exact hstop rfl fun _ dj _ h => by rw [hsucc] at h; cases h
        | nil =>
          dsimp only
          by_cases hleader : g.isLeader nxt = true
          · refine hstop ?_ fun _ dj _ h => ?_
            · by_cases hne : nxt = leader
              · rw [if_neg fun h => h.2 hne]
                exact walk_eq_nil_of_mem (hne ▸ leader_mem h) room
              · exact if_pos ⟨hleader, hne⟩
            · rw [hsucc] at h
              rw [← (List.cons.inj h).1]
              exact hleader
          · rw [if_neg fun h => hleader h.1]
            cases hnext : g.get? nxt with
            | none =>
              refine hstop (walk_eq_nil_of_get? hnext room _) fun _ dj hj h => ?_
              rw [hsucc] at h
              rw [get?_eq_some.mpr ⟨hj, (List.cons.inj h).1.symm⟩] at hnext
              cases hnext
            | some dj =>
              have hwalk : g.Walking leader nxt (cur :: seen) := by
                refine ⟨h.leads, List.IsChain.cons_cons ⟨di, hmem, hkey, hsucc⟩ h.chain, ?_,
                  List.nodup_cons.mpr ⟨hcur, h.nodup⟩⟩
                rw [List.getLast?_cons_cons]
                exact h.first
              obtain ⟨hjmem, rfl⟩ := get?_eq_some.mp hnext
              obtain ⟨rest, hrest, hchain, hin, hlast⟩ := ih dj.key (cur :: seen) dj hwalk
                (hwalk.not_mem hleader) hnext (by rw [List.length_cons]; omega)
              refine ⟨dj :: rest, by rw [hrest], ?_, ?_, ?_⟩
              · exact List.IsChain.cons_cons
                  ⟨Bool.eq_false_iff.mpr hender, hsucc, hleader⟩ hchain
              · intro d hd
                rcases List.mem_cons.mp hd with rfl | hd
                · exact hmem
                · exact hin d hd
              · intro last hl
                rw [List.getLast?_cons_cons] at hl
                exact hlast last hl

/-! ### Blocks -/

/-- A block starts at a leader, goes on as long as it can, and has the successors of its
last instruction. -/
theorem block_spec {b : Block} (hb : b ∈ g.buildCfg) :
    ∃ di rest, b.entry = di.key ∧ g.isLeader di.key = true ∧ b.insns = di :: rest ∧
      List.IsChain g.Follows (di :: rest) ∧ (∀ dj ∈ b.insns, dj ∈ g.insns) ∧
      ∃ last, b.insns.getLast? = some last ∧ b.successors = last.successors ∧ g.Stops last := by
  obtain ⟨di, hdi, rfl⟩ := List.mem_map.mp hb
  obtain ⟨hmem, hleader⟩ := List.mem_filter.mp hdi
  have hwalk : g.Walking di.key di.key [] :=
    ⟨hleader, List.isChain_singleton _, rfl, List.nodup_nil⟩
  obtain ⟨rest, hrest, hchain, hin, hlast⟩ := walk_spec (g.insns.length + 1) di.key [] di hwalk
    List.not_mem_nil (get?_eq_some.mpr ⟨hmem, rfl⟩) (by rw [List.length_nil]; omega)
  have hinsns : g.blockInsns di.key = di :: rest := hrest
  obtain ⟨last, hlast?⟩ : ∃ last, (di :: rest).getLast? = some last :=
    ⟨_, List.getLast?_eq_some_getLast (List.cons_ne_nil di rest)⟩
  refine ⟨di, rest, rfl, hleader, hinsns, hchain, ?_, last, ?_, ?_, hlast last hlast?⟩
  · dsimp only
    rw [hinsns]
    exact hin
  · dsimp only
    rw [hinsns]
    exact hlast?
  · dsimp only
    rw [hinsns, hlast?]
    rfl

theorem exists_block {di : DecodedInsn} (hdi : di ∈ g.insns) (hleader : g.isLeader di.key = true) :
    ∃ b ∈ g.buildCfg, b.entry = di.key :=
  ⟨_, List.mem_map_of_mem (List.mem_filter.mpr ⟨hdi, hleader⟩), rfl⟩

theorem block_eq_of_entry {b c : Block} (hb : b ∈ g.buildCfg) (hc : c ∈ g.buildCfg)
    (h : b.entry = c.entry) : b = c := by
  obtain ⟨di, _, rfl⟩ := List.mem_map.mp hb
  obtain ⟨dj, _, rfl⟩ := List.mem_map.mp hc
  dsimp only at h ⊢
  rw [h]

/-- Only the first instruction of a block is a leader; the others have their predecessor in
the block. -/
theorem mem_block {b : Block} {di : DecodedInsn} (hb : b ∈ g.buildCfg) (hdi : di ∈ b.insns) :
    (b.entry = di.key ∧ g.isLeader di.key = true) ∨
      (¬ g.isLeader di.key = true ∧ ∃ dj ∈ b.insns, g.Follows dj di) := by
  obtain ⟨d, rest, hentry, hleader, hinsns, hchain, _⟩ := block_spec hb
  rw [hinsns] at hdi
  rcases List.mem_cons.mp hdi with rfl | hrest
  · exact Or.inl ⟨hentry, hleader⟩
  · obtain ⟨dj, hdj, hfollows⟩ := exists_rel_of_isChain hchain hrest
    exact Or.inr ⟨hfollows.leader, dj, by rw [hinsns]; exact hdj, hfollows⟩

/-- Two blocks with a common instruction have the same first one. -/
theorem head_mem_of_mem {b c : Block} (hb : b ∈ g.buildCfg) (hc : c ∈ g.buildCfg) :
    ∀ (rest : List DecodedInsn) (di : DecodedInsn), List.IsChain g.Follows (di :: rest) →
      (∀ dj ∈ di :: rest, dj ∈ b.insns) → ∀ dj ∈ di :: rest, dj ∈ c.insns → di ∈ c.insns := by
  intro rest
  induction rest with
  | nil =>
    intro di _ _ dj hdj hmem
    rw [List.mem_singleton.mp hdj] at hmem
    exact hmem
  | cons e rest ih =>
    intro di hchain hin dj hdj hmem
    obtain ⟨hfollows, hrest⟩ := List.isChain_cons_cons.mp hchain
    rcases List.mem_cons.mp hdj with rfl | hdj
    · exact hmem
    · have he := ih e hrest (fun d hd => hin d (List.mem_cons_of_mem di hd)) dj hdj hmem
      rcases mem_block hc he with ⟨_, hleader⟩ | ⟨_, p, hp, hpe⟩
      · exact absurd hleader hfollows.leader
      · obtain ⟨_, _, _, _, _, _, hbin, _⟩ := block_spec hb
        obtain ⟨_, _, _, _, _, _, hcin, _⟩ := block_spec hc
        have hdi : di = p := by
          refine eq_of_edges (hbin di (hin di List.mem_cons_self)) (hcin p hp) ?_ ?_
            (edgesInto_le hfollows.leader)
          · rw [hfollows.successors]
            exact List.mem_singleton_self e.key
          · rw [hpe.successors]
            exact List.mem_singleton_self e.key
        rw [hdi]
        exact hp

/-- An instruction is in at most one block. -/
theorem block_unique {b c : Block} {di : DecodedInsn} (hb : b ∈ g.buildCfg) (hc : c ∈ g.buildCfg)
    (hbi : di ∈ b.insns) (hci : di ∈ c.insns) : b = c := by
  obtain ⟨d, rest, hentry, hleader, hinsns, hchain, _⟩ := block_spec hb
  have hd := head_mem_of_mem hb hc rest d hchain (by rw [hinsns]; exact fun _ h => h) di
    (by rw [← hinsns]; exact hbi) hci
  rcases mem_block hc hd with ⟨hcentry, _⟩ | ⟨hnot, _⟩
  · exact block_eq_of_entry hb hc (hentry.trans hcentry.symm)
  · exact absurd hleader hnot

end FunctionGraph

/-- The `PHA` of an RTS-stack dispatch: the emitter replaces it by a switch that leaves. -/
def DecodedInsn.rtsDispatch (di : DecodedInsn) : Bool :=
  di.insn.mnem = .pha && match di.dispatch with
    | some d => !d.entries.isEmpty
    | none => false

/-- Inside a block control goes from an instruction to the next one and nowhere else. -/
structure HandsOn (di dj : DecodedInsn) : Prop where
  ender : isBlockEnder di.insn.mnem = false
  dispatch : di.rtsDispatch = false
  successors : di.successors = [dj.key]

namespace FunctionGraph

variable (g : FunctionGraph)

/-- The blocks partition the instructions, blocks lead to blocks, and a block is left only
at its end. -/
structure BlocksOk : Prop where
  covers : ∀ di ∈ g.insns, ∃! b, b ∈ g.buildCfg ∧ di ∈ b.insns
  targets : ∀ b ∈ g.buildCfg, ∀ s ∈ b.successors, (g.get? s).isSome → ∃ c ∈ g.buildCfg, c.entry = s
  handsOn : ∀ b ∈ g.buildCfg, List.IsChain HandsOn b.insns

/-- Where an instruction that ends no block has not exactly one successor, or dispatches,
each of its successors in the graph is the entry or has a second edge into it. -/
def SplitsAtJoins : Prop :=
  ∀ di ∈ g.insns, isBlockEnder di.insn.mnem = false →
    (di.successors.length ≠ 1 ∨ di.rtsDispatch = true) →
    ∀ s ∈ di.successors, (g.get? s).isSome → s = g.entry ∨ 1 < g.edgesInto s

variable {g}

theorem SplitsAtJoins.leader (h : g.SplitsAtJoins) {di dj : DecodedInsn} (hi : di ∈ g.insns)
    (hj : dj ∈ g.insns) (hs : dj.key ∈ di.successors)
    (hdi : isBlockEnder di.insn.mnem = true ∨ di.successors.length ≠ 1 ∨ di.rtsDispatch = true) :
    g.isLeader dj.key = true := by
  by_cases hender : isBlockEnder di.insn.mnem = true
  · exact leader_of_ender hi hender hs
  · have hsome : (g.get? dj.key).isSome := by rw [get?_eq_some.mpr ⟨hj, rfl⟩]; rfl
    exact (leader_iff_edges hi (Bool.eq_false_iff.mpr hender) hs).mpr
      (h di hi (Bool.eq_false_iff.mpr hender) (hdi.resolve_left hender) dj.key hs hsome)

theorem SplitsAtJoins.covers (h : g.SplitsAtJoins) {k : DecodeKey}
    (hk : Visit.Reach (outOf g.insns) g.entry k) :
    ∀ di ∈ g.insns, di.key = k → ∃ b ∈ g.buildCfg, di ∈ b.insns := by
  have hown : ∀ di ∈ g.insns, g.isLeader di.key = true → ∃ b ∈ g.buildCfg, di ∈ b.insns := by
    intro di hdi hleader
    obtain ⟨b, hb, hentry⟩ := exists_block hdi hleader
    obtain ⟨d, rest, hd, _, hinsns, _, hin, _⟩ := block_spec hb
    have hdi' : di = d := by
      refine eq_of_key hdi (hin d (by rw [hinsns]; exact List.mem_cons_self)) ?_
      rw [← hentry, hd]
    exact ⟨b, hb, by rw [hinsns, hdi']; exact List.mem_cons_self⟩
  induction hk with
  | root _ =>
    intro di hdi hkey
    exact hown di hdi (by rw [hkey]; exact isLeader_entry)
  | @step k s ss hk hss hs _ ih =>
    intro dj hdj hkey
    by_cases hleader : g.isLeader dj.key = true
    · exact hown dj hdj hleader
    · obtain ⟨di, hfind, rfl⟩ := Option.map_eq_some_iff.mp hss
      obtain ⟨hdi, hkeyi⟩ := get?_eq_some.mp hfind
      obtain ⟨b, hb, hmem⟩ := ih di hdi hkeyi
      have hs : dj.key ∈ di.successors := by rw [hkey]; exact hs
      have hone : di.successors = [dj.key] := by
        by_contra hne
        refine hleader (h.leader hdi hdj hs (Or.inr (Or.inl fun hlen => hne ?_)))
        obtain ⟨t, ht⟩ := List.length_eq_one_iff.mp hlen
        rw [ht] at hs ⊢
        rw [List.mem_singleton.mp hs]
      refine ⟨b, hb, ?_⟩
      obtain ⟨d, rest, _, _, hinsns, hchain, hin, last, hlast, _, hstops⟩ := block_spec hb
      have hender : isBlockEnder di.insn.mnem = false := by
        by_contra hnot
        exact hleader (leader_of_ender hdi (Bool.not_eq_false _ ▸ hnot) hs)
      rw [← hinsns] at hchain
      rcases last_or_rel_of_isChain hchain hmem with hdlast | ⟨dk, hdk, hfollows⟩
      · rw [hdlast] at hlast
        rw [← Option.some.inj hlast] at hstops
        exact absurd (hstops hender dj hdj hone) hleader
      · have hkeys := hfollows.successors.symm.trans hone
        rw [← eq_of_key (hin dk hdk) hdj (List.cons.inj hkeys).1]
        exact hdk

/-- **The blocks are well formed exactly when every instruction that ends no block and has
not exactly one successor, or dispatches, leads to the entry or to keys with a second edge
into them.** -/
theorem blocksOk_iff : g.BlocksOk ↔ g.SplitsAtJoins := by
  constructor
  · intro h di hdi hender hsplit s hs hsome
    obtain ⟨dj, hget⟩ := Option.isSome_iff_exists.mp hsome
    obtain ⟨hdj, rfl⟩ := get?_eq_some.mp hget
    refine (leader_iff_edges hdi hender hs).mp ?_
    by_contra hleader
    obtain ⟨b, ⟨hb, hmem⟩, _⟩ := h.covers dj hdj
    obtain ⟨d, rest, _, hd, hinsns, _, hin, _⟩ := block_spec hb
    have hhands := h.handsOn b hb
    rw [hinsns] at hmem hhands
    rcases List.mem_cons.mp hmem with rfl | hrest
    · exact hleader hd
    · obtain ⟨dp, hdp, hnext⟩ := exists_rel_of_isChain hhands hrest
      obtain rfl : di = dp := by
        refine eq_of_edges hdi (hin dp (by rw [hinsns]; exact hdp)) hs ?_ (edgesInto_le hleader)
        rw [hnext.successors]
        exact List.mem_singleton_self dj.key
      rcases hsplit with hlen | hdispatch
      · exact hlen (by rw [hnext.successors]; rfl)
      · rw [hnext.dispatch] at hdispatch
        cases hdispatch
  · intro h
    refine ⟨?_, ?_, ?_⟩
    · intro di hdi
      obtain ⟨b, hb, hmem⟩ := h.covers (g.reached di hdi) di hdi rfl
      exact ⟨b, ⟨hb, hmem⟩, fun c hc => block_unique hc.1 hb hc.2 hmem⟩
    · intro b hb s hs hsome
      obtain ⟨dj, hget⟩ := Option.isSome_iff_exists.mp hsome
      obtain ⟨hdj, rfl⟩ := get?_eq_some.mp hget
      obtain ⟨_, _, _, _, _, _, hin, last, hlast, hsucc, hstops⟩ := block_spec hb
      have hmem := hin last (List.mem_of_getLast? hlast)
      rw [hsucc] at hs
      have hleader : g.isLeader dj.key = true := by
        by_cases hsplit : isBlockEnder last.insn.mnem = true ∨ last.successors.length ≠ 1
        · exact h.leader hmem hdj hs (hsplit.imp_right Or.inl)
        · rw [not_or, not_not] at hsplit
          obtain ⟨t, ht⟩ := List.length_eq_one_iff.mp hsplit.2
          rw [ht] at hs
          exact hstops (Bool.eq_false_iff.mpr hsplit.1) dj hdj (by rw [ht, List.mem_singleton.mp hs])
      exact exists_block hdj hleader
    · intro b hb
      obtain ⟨_, _, _, _, hinsns, hchain, hin, _⟩ := block_spec hb
      rw [← hinsns] at hchain
      refine List.IsChain.imp_of_mem_imp (fun di dj hdi hdj hfollows => ?_) hchain
      refine ⟨hfollows.ender, ?_, hfollows.successors⟩
      by_contra hdispatch
      refine hfollows.leader (h.leader (hin di hdi) (hin dj hdj) ?_
        (Or.inr (Or.inr (Bool.not_eq_false _ ▸ hdispatch))))
      rw [hfollows.successors]
      exact List.mem_singleton_self dj.key

end FunctionGraph

end SnesRecomp.Recompiler
