import SnesRecomp.Recompiler.TailContext
import SnesRecomp.Tiers.NormalExit

/-!
# The return context of a dispatched handler

A dispatch that ends its function hands the handler the return context of the function: the index
form of `_emit_indirect_dispatch` calls `cpu_tailcall_inherit_return_context` in front of the
handler, the form that switches on the loaded pointer does not.  `handsContextOn_iff`: there the
handler has the context only if the stack is where it was at the entry.
-/

namespace SnesRecomp.Tiers

open Recompiler

variable {M : Type} (W : HostWorld M) (l : Locals)

/-! ### Sites -/

/-- The site goes on behind its dispatch. -/
def fallsThrough (insn : Insn) (d : Dispatch) : Bool := decide (insn.mnem = .jsr) || d.call

/-- The switch is on the loaded pointer; of a `JSR (abs,X)` it is an indexed one. -/
def pointerSite (insn : Insn) (d : Dispatch) : Option Bool :=
  if insn.mode = .indir ∧ d.tableBases.length = 1 then some false
  else if insn.mnem = .jsr ∧ d.call = true ∧ insn.mode = .indirX ∧ d.tableBases.length = 1 then some true
  else none

/-- The state behind the frame of the site. -/
def framed (insn : Insn) (d : Dispatch) (t : HostState M) : HostState M :=
  W.action l (.enterDispatch (insn.mnem = .jsr) d.call (insn.addr &&& 0xFFFFFF)) t

/-- The state at the switch of a site. -/
def atSite (insn : Insn) (d : Dispatch) (load : HostAct) (t : HostState M) : HostState M :=
  let t := W.action l load (framed W l insn d t)
  if d.terminal then W.action l .forceNarrow t else t

/-- What the switch on the loaded pointer compares. -/
def caseValue (d : Dispatch) (e : Nat) : Nat := if d.long then e &&& 0xFFFFFF else e &&& 0xFFFF

/-- The entries that a computed goto has a label for. -/
def localEntries (insn : Insn) (d : Dispatch) : List Nat :=
  EmitCtx.firstCases (· &&& 0xFFFF)
    (d.entries.filter fun e => e ≠ 0 ∧ (e >>> 16) &&& 0xFF = (insn.addr >>> 16) &&& 0xFF) []

/-- The entry that the site selects. -/
def siteEntry (insn : Insn) (d : Dispatch) (t : HostState M) : Option Nat :=
  if d.localGoto then
    (localEntries insn d).find? fun e =>
      decide ((loadTarget W.bus insn false false .x t.s.cpu t.s.mem).1.toNat = e &&& 0xFFFF)
  else match pointerSite insn d with
  | some indexed =>
    (EmitCtx.firstCases (caseValue d) (d.entries.filter (· ≠ 0)) []).find? fun e =>
      decide ((loadTarget W.bus insn d.long indexed (d.idxReg.getD .x) (framed W l insn d t).s.cpu
        (framed W l insn d t).s.mem).1.toNat = caseValue d e)
  | none =>
    d.entries[(idxField t.s.cpu (d.idxReg.getD .x)).toNat /
      (if 2 ≤ d.tableBases.length then 1 else if d.long then 3 else 2)]?.filter (· ≠ 0)

/-- The context a handler starts with where its call is come to. The bank that the call is wrapped
in plays no part in it. -/
def handlerContext (callee : Callee) (inherit : Bool) (s : EmitState M) : Locals :=
  (callee.prologue (if inherit then some l else none) s).1

/-- Every handler that the text enters starts with the context of the function. -/
def HandsContextOn (callee : Nat → Callee) (text : HostText) (t : HostState M) : Prop :=
  ∀ target survivors inherit u,
    text.Arrives (W.action l) (W.test l) t (.handler target survivors inherit) u →
      handlerContext l (callee target) inherit u.s = l

/-- The handler of an entry takes the context, or the stack is where its own prologue puts the
entry level of the function. -/
def KeepsContext (callee : Nat → Callee) (insn : Insn) (d : Dispatch) (S : Word) (e : Nat) : Prop :=
  (pointerSite insn d = none ∧ (callee (e &&& 0xFFFFFF)).takes = true) ∨
    S + BitVec.ofInt 16 (callee (e &&& 0xFFFFFF)).offset = l.entryS

/-! ### Prologues -/

theorem handlerContext_eq_iff (callee : Callee) (inherit : Bool) {s : EmitState M}
    (hhrv : s.cpu.hostReturnValid = l.hrv) : handlerContext l callee inherit s = l ↔
      (inherit = true ∧ callee.takes = true) ∨ s.cpu.S + BitVec.ofInt 16 callee.offset = l.entryS := by
  have hown : (enter callee.offset none s).1 = l ↔ s.cpu.S + BitVec.ofInt 16 callee.offset = l.entryS := by
    rw [enter, hhrv]
    exact ⟨fun h => congrArg Locals.entryS h, fun h => by rw [h]⟩
  unfold handlerContext
  cases htakes : callee.takes with
  | false =>
    rw [prologue_of_not_takes htakes, hown]
    simp
  | true =>
    rw [prologue_of_takes htakes]
    cases inherit with
    | false =>
      rw [if_neg Bool.false_ne_true, hown]
      simp
    | true => exact iff_of_true rfl (Or.inl ⟨rfl, rfl⟩)

/-! ### Switches -/

section Switch

variable {W l} {b : HostAct} {t u : HostState M}

/-- A switch comes to what the first matching case comes to. -/
theorem arrives_switch {α : Type} {value : α → Nat} {text : α → HostText} {default : HostText}
    (hdefault : b ∉ default.acts) (as : List α) :
    (EmitCtx.switchText (as.map fun a => (.caseIs (value a), text a)) default).Arrives
        (W.action l) (W.test l) t b u ↔
      ∃ a, as.find? (fun a => decide (t.idx.toNat = value a)) = some a ∧
        (text a).Arrives (W.action l) (W.test l) t b u := by
  induction as with
  | nil =>
    refine iff_of_false (fun h => hdefault (Text.mem_acts_of_arrives h)) ?_
    rintro ⟨a, ha, -⟩
    cases ha
  | cons a as ih =>
    rw [List.map_cons, EmitCtx.switchText, List.find?_cons]
    by_cases h : t.idx.toNat = value a
    · have htest : W.test l (.caseIs (value a)) t = true := decide_eq_true h
      rw [Text.Arrives, if_pos htest, decide_eq_true h]
      constructor
      · intro h
        exact ⟨a, rfl, h⟩
      · rintro ⟨a', ha', h⟩
        obtain rfl := Option.some.inj ha'
        exact h
    · have htest : ¬ W.test l (.caseIs (value a)) t = true := by
        rw [HostWorld.test, decide_eq_true_eq]
        exact h
      rw [Text.Arrives, if_neg htest, decide_eq_false h]
      exact ih

/-- A hit comes to its handler and to no other one. -/
theorem arrives_hit {ctx : EmitCtx} (d : Dispatch) (falls inherit : Bool) (e : Nat) {target : Nat}
    {survivors : Option (List (Bool × Bool))} {inherits : Bool} :
    (ctx.hitText d falls inherit e).Arrives (W.action l) (W.test l) t (.handler target survivors inherits) u ↔
      .handler target survivors inherits = ctx.handlerAct d inherit e ∧ u = t := by
  have hrest : HostAct.handler target survivors inherits ∉
      (Text.seqs [EmitCtx.propagateText, if falls then .skip else .ret (.normal .dispatched)]).acts := by
    cases falls <;> simp [EmitCtx.propagateText]
  exact Text.arrives_seq_left hrest

/-- A miss comes to no handler. -/
theorem not_arrives_miss (falls : Bool) (site : Nat) {target : Nat}
    {survivors : Option (List (Bool × Bool))} {inherits : Bool} :
    ¬ (EmitCtx.missText falls site).Arrives (W.action l) (W.test l) t (.handler target survivors inherits) u := by
  intro h
  have hmem := Text.mem_acts_of_arrives h
  cases falls <;> simp [EmitCtx.missText] at hmem

end Switch

/-! ### The two forms -/

section Forms

variable {W l} {ctx : EmitCtx} {insn : Insn} {d : Dispatch} {t u : HostState M} {target : Nat}
  {survivors : Option (List (Bool × Bool))} {inherits : Bool}

/-- In front of the switch there is no handler. -/
theorem arrives_atSite {load : HostAct} (hload : .handler target survivors inherits ≠ load) (rest : HostText) :
    (Text.seq (.act (.enterDispatch (insn.mnem = .jsr) d.call (insn.addr &&& 0xFFFFFF))) (.seq (.act load)
        (.seq (if d.terminal then .act .forceNarrow else .skip) rest))).Arrives
        (W.action l) (W.test l) t (.handler target survivors inherits) u ↔
      rest.Arrives (W.action l) (W.test l) (atSite W l insn d load t) (.handler target survivors inherits) u := by
  rw [Text.arrives_act_seq (by simp), Text.arrives_act_seq hload, atSite, framed]
  cases d.terminal with
  | true => exact Text.arrives_act_seq (by simp) rest
  | false => exact Text.arrives_skip_seq rest

/-- Neither load moves the stack or the size of the frame. -/
theorem atSite_cpu {load : HostAct} (hload : ∀ t : HostState M, (W.action l load t).s.cpu = t.s.cpu) :
    (atSite W l insn d load t).s.cpu.S = (framed W l insn d t).s.cpu.S ∧
      (atSite W l insn d load t).s.cpu.hostReturnValid = (framed W l insn d t).s.cpu.hostReturnValid := by
  have hcpu := hload (framed W l insn d t)
  unfold atSite
  cases d.terminal with
  | true =>
    constructor
    · show (emitSep 0x30 _).S = _
      rw [hcpu]
      rfl
    · show (emitSep 0x30 _).hostReturnValid = _
      rw [hcpu]
      rfl
  | false =>
    rw [if_neg Bool.false_ne_true, hcpu]
    exact ⟨rfl, rfl⟩

theorem atSite_idx (load : HostAct) :
    (atSite W l insn d load t).idx = (W.action l load (framed W l insn d t)).idx := by
  unfold atSite
  cases d.terminal <;> rfl

theorem framed_idxField (reg : IdxReg) : idxField (framed W l insn d t).s.cpu reg = idxField t.s.cpu reg := by
  unfold framed
  cases decide (insn.mnem = .jsr) <;> cases reg <;> rfl

/-- The frame of the site. -/
theorem framed_cpu :
    (framed W l insn d t).s.cpu.S = (if insn.mnem = .jsr then t.s.cpu.S - 2 else t.s.cpu.S) ∧
      (framed W l insn d t).s.cpu.hostReturnValid = if fallsThrough insn d then 2 else l.hrv := by
  unfold framed fallsThrough
  by_cases hjsr : insn.mnem = .jsr
  · rw [decide_eq_true hjsr, if_pos hjsr]
    refine ⟨?_, rfl⟩
    show t.s.cpu.S - 1 - 1 = _
    bv_omega
  · rw [decide_eq_false hjsr, if_neg hjsr]
    cases d.call <;> exact ⟨rfl, rfl⟩

/-- The entries of a case list by their index. -/
theorem find?_zipIdx (k : Nat) : ∀ (as : List Nat) (n : Nat),
    (as.zipIdx n).find? (fun a => decide (n + k = a.2)) = as[k]?.map fun a => (a, n + k) := by
  induction k with
  | zero =>
    intro as n
    cases as with
    | nil => rfl
    | cons a as => simp
  | succ k ih =>
    intro as n
    cases as with
    | nil => rfl
    | cons a as =>
      have hne : ¬ n + (k + 1) = n := by omega
      have htail := ih as (n + 1)
      rw [show n + 1 + k = n + (k + 1) by omega] at htail
      simp only [List.zipIdx_cons, List.find?_cons, hne, decide_false, List.getElem?_cons_succ]
      exact htail

/-- The handler that the switch on the loaded pointer enters. -/
theorem arrives_pointerSwitch (hleaves : fallsThrough insn d = false) :
    (ctx.pointerSwitchText insn d false).Arrives (W.action l) (W.test l) t
        (.handler target survivors inherits) u ↔
      ∃ e, (EmitCtx.firstCases (caseValue d) (d.entries.filter (· ≠ 0)) []).find? (fun e =>
          decide ((loadTarget W.bus insn d.long false (d.idxReg.getD .x) (framed W l insn d t).s.cpu
            (framed W l insn d t).s.mem).1.toNat = caseValue d e)) = some e ∧
        .handler target survivors inherits = ctx.handlerAct d false e ∧
        u = atSite W l insn d (.loadPointer insn d.long false (d.idxReg.getD .x)) t := by
  have hfalls : (decide (insn.mnem = .jsr) || d.call) = false := hleaves
  rw [EmitCtx.pointerSwitchText]
  simp only [hfalls, Text.seqs]
  rw [arrives_atSite (by simp), Text.arrives_seq_left (by simp)]
  refine (arrives_switch (by simp) _).trans ?_
  simp only [arrives_hit, atSite_idx]
  rfl

/-- The handler that the switch on the index enters. -/
theorem arrives_indexSwitch (hleaves : fallsThrough insn d = false) :
    (ctx.indexSwitchText insn d).Arrives (W.action l) (W.test l) t
        (.handler target survivors inherits) u ↔
      ∃ e, d.entries[(idxField t.s.cpu (d.idxReg.getD .x)).toNat /
          (if 2 ≤ d.tableBases.length then 1 else if d.long then 3 else 2)]?.filter (· ≠ 0) = some e ∧
        .handler target survivors inherits = ctx.handlerAct d true e ∧
        u = atSite W l insn d (.loadIndex (d.idxReg.getD .x)
          (if 2 ≤ d.tableBases.length then 1 else if d.long then 3 else 2)) t := by
  have hfalls : (decide (insn.mnem = .jsr) || d.call) = false := hleaves
  rw [EmitCtx.indexSwitchText]
  simp only [hfalls, Text.seqs]
  rw [arrives_atSite (by simp)]
  generalize hsize : (if 2 ≤ d.tableBases.length then 1 else if d.long then 3 else 2) = size
  generalize hv : atSite W l insn d (.loadIndex (d.idxReg.getD .x) size) t = v
  have hidx : v.idx.toNat = (idxField t.s.cpu (d.idxReg.getD .x)).toNat / size := by
    have hload : v.idx = BitVec.ofNat 32 ((idxField t.s.cpu (d.idxReg.getD .x)).toNat / size) := by
      rw [← hv, atSite_idx, ← framed_idxField (d.idxReg.getD .x)]
      rfl
    have hlt := (idxField t.s.cpu (d.idxReg.getD .x)).isLt
    have hle := Nat.div_le_self (idxField t.s.cpu (d.idxReg.getD .x)).toNat size
    rw [hload, BitVec.toNat_ofNat]
    exact Nat.mod_eq_of_lt (Nat.lt_of_le_of_lt hle (by omega))
  rw [← hidx]
  by_cases hoob : d.entries.length ≤ v.idx.toNat
  · -- The guard leaves the function.
    have htest : W.test l (.idxOob d.entries.length) v = true := decide_eq_true hoob
    refine iff_of_false (fun h => ?_) ?_
    · rcases h with h | ⟨h, -⟩
      · rw [Text.Arrives, if_pos htest] at h
        exact not_arrives_miss false _ h
      · rw [Text.run, if_pos htest] at h
        cases h
    · rintro ⟨e, he, -⟩
      rw [List.getElem?_eq_none hoob] at he
      cases he
  · have htest : ¬ W.test l (.idxOob d.entries.length) v = true := by
      rw [HostWorld.test, decide_eq_true_eq]
      exact hoob
    have hguard : ∀ rest : HostText, (Text.seq (.ite (.idxOob d.entries.length)
        (EmitCtx.missText false (insn.addr &&& 0xFFFFFF)) .skip) rest).Arrives (W.action l) (W.test l) v
          (.handler target survivors inherits) u ↔
        rest.Arrives (W.action l) (W.test l) v (.handler target survivors inherits) u := by
      intro rest
      rw [Text.Arrives, Text.Arrives, if_neg htest, Text.run, if_neg htest]
      exact ⟨fun h => h.elim False.elim And.right, fun h => Or.inr ⟨rfl, h⟩⟩
    rw [hguard, Text.arrives_seq_left (by simp)]
    refine (arrives_switch (by simp) _).trans ?_
    have hfind := find?_zipIdx v.idx.toNat d.entries 0
    rw [Nat.zero_add] at hfind
    rw [hfind]
    cases hentry : d.entries[v.idx.toNat]? with
    | none => simp
    | some e =>
      by_cases hnull : e = 0
      · simp [hnull, not_arrives_miss]
      · simp [hnull, arrives_hit]

/-- A computed goto enters no handler. -/
theorem not_arrives_localGoto : ¬ (EmitCtx.localGotoText insn d).Arrives (W.action l) (W.test l) t
    (.handler target survivors inherits) u := by
  have hcases : ∀ (es : List Nat) (default : HostText),
      HostAct.handler target survivors inherits ∉ default.acts →
      HostAct.handler target survivors inherits ∉ (EmitCtx.switchText (es.map fun e =>
        (.caseIs (e &&& 0xFFFF), .goto (e &&& 0xFFFF, insn.mFlag, insn.xFlag))) default).acts := by
    intro es default hdefault
    induction es with
    | nil => exact hdefault
    | cons e es ih =>
      rw [List.map_cons, EmitCtx.switchText, Text.acts_ite, Text.acts_goto, List.nil_append]
      exact ih
  intro h
  have hmem := Text.mem_acts_of_arrives h
  rw [EmitCtx.localGotoText] at hmem
  simp only [Text.acts_seqs, List.flatMap_cons, List.flatMap_nil, List.append_nil, Text.acts_act,
    List.mem_append, List.mem_singleton, reduceCtorEq, false_or] at hmem
  exact hcases _ _ (by simp) hmem

/-- A dispatch enters the handler of the entry it selects, with the stack where it was. -/
theorem arrives_dispatch (hjsr : insn.mnem ≠ .jsr) (hcall : d.call = false) :
    ∃ v : HostState M, v.s.cpu.S = t.s.cpu.S ∧ v.s.cpu.hostReturnValid = l.hrv ∧
      ∀ target survivors inherits u, (ctx.emitIndirectDispatch insn d).Arrives (W.action l) (W.test l) t
          (.handler target survivors inherits) u ↔
        d.localGoto = false ∧ ∃ e, siteEntry W l insn d t = some e ∧
          .handler target survivors inherits = ctx.handlerAct d (pointerSite insn d).isNone e ∧ u = v := by
  have hleaves : fallsThrough insn d = false := by
    rw [fallsThrough, decide_eq_false hjsr, hcall]
    rfl
  obtain ⟨hframeS, hframe⟩ := @framed_cpu M W l insn d t
  rw [if_neg hjsr] at hframeS
  rw [hleaves, if_neg Bool.false_ne_true] at hframe
  have hsite : ∀ {load : HostAct}, (∀ t : HostState M, (W.action l load t).s.cpu = t.s.cpu) →
      (atSite W l insn d load t).s.cpu.S = t.s.cpu.S ∧
        (atSite W l insn d load t).s.cpu.hostReturnValid = l.hrv := by
    intro load hload
    obtain ⟨hS, hhrv⟩ := @atSite_cpu M W l insn d t load hload
    exact ⟨hS.trans hframeS, hhrv.trans hframe⟩
  have hnot : ¬ (insn.mnem = .jsr ∧ d.call = true ∧ insn.mode = .indirX ∧ d.tableBases.length = 1) :=
    fun h => hjsr h.1
  rw [EmitCtx.emitIndirectDispatch, if_neg hnot, siteEntry]
  by_cases hlocal : d.localGoto = true
  · refine ⟨framed W l insn d t, hframeS, hframe, fun target survivors inherits u => ?_⟩
    rw [if_pos hlocal]
    refine iff_of_false not_arrives_localGoto ?_
    rintro ⟨hgoto, -⟩
    rw [hlocal] at hgoto
    cases hgoto
  · rw [if_neg hlocal, if_neg hlocal]
    simp only [Bool.eq_false_iff.mpr hlocal, true_and]
    by_cases hform : insn.mode = .indir ∧ d.tableBases.length = 1
    · have hpointer : pointerSite insn d = some false := if_pos hform
      rw [if_pos hform, hpointer]
      obtain ⟨hS, hhrv⟩ := @hsite (.loadPointer insn d.long false (d.idxReg.getD .x)) fun _ => rfl
      exact ⟨_, hS, hhrv, fun target survivors inherits u => arrives_pointerSwitch hleaves⟩
    · have hpointer : pointerSite insn d = none := by
        rw [pointerSite, if_neg hform, if_neg hnot]
      rw [if_neg hform, hpointer]
      exact ⟨_, (hsite fun _ => rfl).1, (hsite fun _ => rfl).2,
        fun target survivors inherits u => arrives_indexSwitch hleaves⟩

end Forms

/-- **A dispatch that ends its function hands on its context exactly if the entry it selects keeps
it.** A computed goto stays in the function. -/
theorem handsContextOn_iff (callee : Nat → Callee) {ctx : EmitCtx} {insn : Insn} {d : Dispatch}
    (hjsr : insn.mnem ≠ .jsr) (hcall : d.call = false) (t : HostState M) :
    HandsContextOn W l callee (ctx.emitIndirectDispatch insn d) t ↔
      (d.localGoto = false → ∀ e ∈ siteEntry W l insn d t, KeepsContext l callee insn d t.s.cpu.S e) := by
  obtain ⟨v, hS, hhrv, harrives⟩ := @arrives_dispatch M W l ctx insn d t hjsr hcall
  have hkeeps : ∀ e, handlerContext l (callee (e &&& 0xFFFFFF)) (pointerSite insn d).isNone v.s = l ↔
      KeepsContext l callee insn d t.s.cpu.S e := by
    intro e
    rw [handlerContext_eq_iff l _ _ hhrv, hS, Option.isNone_iff_eq_none]
    exact Iff.rfl
  constructor
  · intro h hlocal e he
    refine (hkeeps e).mp ?_
    exact h _ _ _ v ((harrives _ _ _ v).mpr ⟨hlocal, e, he, rfl, rfl⟩)
  · intro h target survivors inherit u hu
    obtain ⟨hlocal, e, he, hact, rfl⟩ := (harrives _ _ _ u).mp hu
    obtain ⟨rfl, -, rfl⟩ := HostAct.handler.inj hact
    exact (hkeeps e).mpr (h hlocal e he)

/-! ### `JMP ($0010)` with the pointer `$9000` -/

/-- Every pointer is `$9000`. -/
def pointerWorld : HostWorld Unit :=
  { idleWorld with bus := { silentBus with read16 := fun _ _ m => (0x9000, m) } }

def jmpPointer : Insn := ⟨0x8001, 0x6C, .jmp, .indir, 0x10, 3, true, true, false, none⟩

/-- One handler, in one table of words or in two tables of bytes. -/
def oneHandler (tableBases : List Nat) : Dispatch := ⟨[0x9000], false, some .x, tableBases, false, false, false⟩

/-- Where the stack is back at its entry level, the switch on the pointer hands the context on. -/
theorem handsContextOn_iff_balanced : HandsContextOn pointerWorld ⟨0x1FF, 2⟩ (fun _ => .generated 0)
    (EmitCtx.bare.emitIndirectDispatch jmpPointer (oneHandler [0xA000])) (enteredByJsr 0x1FF) := by
  refine (handsContextOn_iff pointerWorld ⟨0x1FF, 2⟩ _ (by decide) rfl _).mpr fun _ e _ => Or.inr ?_
  rfl

/-- With one byte more on the stack the handler takes the level at the jump for its entry level; the
switch on the index hands the context on. -/
theorem not_handsContextOn_pushed :
    ¬ HandsContextOn pointerWorld ⟨0x1FF, 2⟩ (fun _ => .generated 0)
        (EmitCtx.bare.emitIndirectDispatch jmpPointer (oneHandler [0xA000])) (enteredByJsr 0x1FE) ∧
      HandsContextOn pointerWorld ⟨0x1FF, 2⟩ (fun _ => .generated 0)
        (EmitCtx.bare.emitIndirectDispatch jmpPointer (oneHandler [0xA000, 0xA100])) (enteredByJsr 0x1FE) := by
  constructor
  · intro h
    obtain ⟨v, hS, hhrv, harrives⟩ := @arrives_dispatch Unit pointerWorld ⟨0x1FF, 2⟩ .bare jmpPointer
      (oneHandler [0xA000]) (enteredByJsr 0x1FE) (by decide) rfl
    have hselected : siteEntry pointerWorld ⟨0x1FF, 2⟩ jmpPointer (oneHandler [0xA000])
      (enteredByJsr 0x1FE) = some 0x9000 := by decide
    have hcontext := h _ _ _ v ((harrives _ _ _ v).mpr ⟨rfl, _, hselected, rfl, rfl⟩)
    rw [handlerContext_eq_iff _ _ _ hhrv, hS] at hcontext
    revert hcontext
    decide
  · intro target survivors inherit u hu
    obtain ⟨v, -, -, harrives⟩ := @arrives_dispatch Unit pointerWorld ⟨0x1FF, 2⟩ .bare jmpPointer
      (oneHandler [0xA000, 0xA100]) (enteredByJsr 0x1FE) (by decide) rfl
    obtain ⟨-, e, -, hact, -⟩ := (harrives _ _ _ u).mp hu
    obtain ⟨-, -, rfl⟩ := HostAct.handler.inj hact
    rfl

end SnesRecomp.Tiers
