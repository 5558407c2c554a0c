import SnesRecomp.Lib.Bits
import SnesRecomp.Recompiler.PopPairing
import SnesRecomp.Recompiler.Successors

/-!
# Control flow at the end of a block

A block whose last instruction has successors in several widths must go on in the widths
that the flags have at run time, and a block that ends in a call must go on behind it.
Behind a `JSR` or `JSL` the emitter prints a switch on the widths; at the end of any other
block it takes the first successor.

`modeFollowed_iff` and `goesBehind_iff` say for each block when that is right;
`controlFollows_iff` says it for a function.
-/

namespace SnesRecomp.Recompiler

open Bits

/-- A meaning for the actions and tests of the host text.  Nothing is assumed but that the
`switch` on the widths reads them. -/
structure HostSem (σ : Type) where
  action : HostAct → σ → σ
  test : HostCond → σ → Bool
  mode : σ → Bool × Bool
  test_mode : ∀ m x s, test (.mode m x) s = decide (mode s = (m, x))

def HostSem.run {σ : Type} (S : HostSem σ) (t : HostText) (s : σ) : Ending HostRet Label × σ :=
  t.run S.action S.test s

/-- The meaning in which only the widths matter. -/
def HostSem.widths : HostSem (Bool × Bool) where
  action _ s := s
  test c s :=
    match c with
    | .mode m x => decide (s = (m, x))
    | _ => false
  mode s := s
  test_mode _ _ _ := rfl

namespace EmitCtx

variable (ctx : EmitCtx) (labels : List Label) (b : Block × Lowered)

def blockSource : Nat := (ctx.bank <<< 16) ||| (b.1.entry.pc &&& 0xFFFF)

/-- The lines of some instructions of a block. -/
def linesOf (insns : Lowered) : HostText × Bool :=
  ctx.emitInsns labels (ctx.blockSource b) b.1.successors insns false

/-- What is printed behind the lines of its instructions. -/
def endLines : HostText :=
  if (ctx.linesOf labels b b.2).2 then .skip
  else ctx.implicitText labels (ctx.blockSource b) (b.2.getLast?.map (·.1.insn.mnem)) b.1.successors

end EmitCtx

/-- Some path goes on behind the text. -/
def Passes (t : HostText) : Prop := ∃ n, (t.inject .pop).Ends popWeight n .next

/-- Successors at one address in several widths. -/
def SeveralModes (succs : List DecodeKey) : Prop :=
  (∀ s ∈ succs, ∀ t ∈ succs, s.pc = t.pc) ∧ ∃ s ∈ succs, ∃ t ∈ succs, (s.m, s.x) ≠ (t.m, t.x)

/-- The successors of the block are in several widths: its last instruction, when control
comes to it, does not leave the function, and the lines behind it jump to the successor of
the graph that has the widths of the flags. -/
def ModeFollowed (ctx : EmitCtx) (g : FunctionGraph) (labels : List Label) (b : Block × Lowered) : Prop :=
  SeveralModes b.1.successors → Passes (ctx.linesOf labels b b.2.dropLast).1 →
    Passes (ctx.linesOf labels b b.2).1 ∧
      ∀ {σ : Type} (S : HostSem σ) (s : σ), ∀ k ∈ b.1.successors, (g.get? k).isSome →
        S.mode s = (k.m, k.x) →
        (S.run ((ctx.endLines labels b).inject .pop) s).1 = .jump (labelFor k)

/-- The address a call returns to: behind its argument bytes, or behind the `PEA` that
pushed the frame of a jump. -/
def returnPc (inp : DecodeInput) (di : DecodedInsn) : Option Nat :=
  if di.insn.mnem = .jsr ∨ di.insn.mnem = .jsl then some (nextPc inp.maps di.insn inp.bank)
  else
    match di.dispatch with
    | some d =>
      if di.insn.mnem = .jmp ∧ d.call = true then
        some (peaPtrcallReturnPc inp.rom inp.bank (di.key.pc &&& 0xFFFF)
          (((di.key.pc &&& 0xFFFF) + di.insn.length) % 0x10000))
      else none
    | none => none

/-- Behind a call that comes back, the block goes on at the address it returns to. -/
def GoesBehind (ctx : EmitCtx) (inp : DecodeInput) (labels : List Label) (b : Block × Lowered) : Prop :=
  ∀ last ∈ b.1.insns.getLast?, ∀ pc ∈ returnPc inp last, Passes (ctx.linesOf labels b b.2).1 →
    ∀ {σ : Type} (S : HostSem σ) (s : σ) (l : Label),
      (S.run ((ctx.endLines labels b).inject .pop) s).1 = .jump l → l.1 = pc

/-! ### The conditions -/

/-- Control comes to the last instruction. -/
def ReachesLast (b : Block × Lowered) : Prop :=
  (EmitCtx.insnsEdges b.1.successors b.2.dropLast).falls = true

/-- A block with successors in several widths ends in no dispatch without an index
register, and if it ends in a `PLP`, those of its successors that are in the graph have
the widths of the first and start blocks. -/
def PlpAgrees (g : FunctionGraph) (labels : List Label) (b : Block × Lowered) : Prop :=
  ∀ last ∈ b.1.insns.getLast?, SeveralModes b.1.successors → ReachesLast b →
    (∀ d ∈ EmitCtx.dispatchOf last, d.idxReg.isSome) ∧
    (last.insn.mnem = .plp → ∀ k ∈ b.1.successors, (g.get? k).isSome →
      labelFor k ∈ labels ∧ ∀ s ∈ b.1.successors.head?, labelFor s = labelFor k)

/-- A block that ends in a dispatched call: the widths of the call are among those it
returns in, or its first handler in the bank is at the address behind it or in no block. -/
def HandlersApart (inp : DecodeInput) (labels : List Label) (b : Block × Lowered) : Prop :=
  ∀ last ∈ b.1.insns.getLast?, last.insn.mnem = .jsr → ReachesLast b →
    ∀ d ∈ last.dispatch, d.idxReg.isSome →
      (last.insn.mFlag, last.insn.xFlag) ∈
          returnModes inp.maps inp.rom last.insn inp.bank last.key.m last.key.x ∨
        ∀ h ∈ (handlerKeys inp.bank last.insn.mFlag last.insn.xFlag d.entries).head?,
          labelFor h ∉ labels ∨ h.pc &&& 0xFFFF = nextPc inp.maps last.insn inp.bank

/-! ### Runs of the last lines -/

section Runs

variable {σ : Type} (S : HostSem σ) {ctx : EmitCtx} {labels : List Label} (source : Nat)

theorem run_gotoOrReturn (k : DecodeKey) (s : σ) (l : Label) :
    (S.run (ctx.gotoOrReturn labels source k) s).1 = .jump l ↔
      labelFor k ∈ labels ∧ labelFor k = l := by
  unfold EmitCtx.gotoOrReturn
  dsimp only
  split
  next hk =>
    refine ⟨fun h => ⟨hk, ?_⟩, fun h => congrArg _ h.2⟩
    simpa [HostSem.run, Text.run] using h
  next hk =>
    refine ⟨fun h => ?_, fun h => absurd h.1 hk⟩
    split at h
    · cases h
    · split at h <;> cases h

/-- The first successor in the widths, if there is one and the block ends in a call, else
the first. -/
def nextOf (lastMnem : Option Mnem) (succs : List DecodeKey) (mode : Bool × Bool) : Option DecodeKey :=
  if lastMnem = some .jsr ∨ lastMnem = some .jsl then
    (succs.find? fun k => (k.m, k.x) = mode).or succs.head?
  else succs.head?

/-- The switch on the widths takes the first of its cases that has them. -/
theorem run_switch (default : DecodeKey) (s : σ) : ∀ ks : List DecodeKey,
    (S.run (EmitCtx.switchText (ks.map fun k => (.mode k.m k.x,
      .onLine (ctx.gotoOrReturn labels source k))) (.onLine (ctx.gotoOrReturn labels source default))) s).1 =
    (S.run (ctx.gotoOrReturn labels source
      ((ks.find? fun k => (k.m, k.x) = S.mode s).getD default)) s).1 := by
  intro ks
  induction ks with
  | nil => rfl
  | cons k ks ih =>
    rw [List.map_cons, EmitCtx.switchText]
    unfold HostSem.run at ih ⊢
    rw [Text.run, S.test_mode]
    by_cases hk : (k.m, k.x) = S.mode s
    · rw [List.find?_cons_of_pos (by simpa using hk), if_pos (by simpa using hk.symm)]
      rfl
    · rw [List.find?_cons_of_neg (by simpa using hk),
        if_neg (by simpa using fun h => hk h.symm)]
      exact ih

theorem find?_firstCases {α β : Type} [DecidableEq β] (value : α → β) (v : β) :
    ∀ (l : List α) (seen : List β), v ∉ seen →
      (EmitCtx.firstCases value l seen).find? (fun a => value a = v) = l.find? fun a => value a = v := by
  intro l
  induction l with
  | nil => intro seen _; rfl
  | cons a l ih =>
    intro seen hv
    rw [EmitCtx.firstCases]
    by_cases ha : value a = v
    · rw [if_neg (by rw [ha]; exact hv), List.find?_cons_of_pos (by simpa using ha),
        List.find?_cons_of_pos (by simpa using ha)]
    · rw [List.find?_cons_of_neg (by simpa using ha)]
      split
      · exact ih seen hv
      · rw [List.find?_cons_of_neg (by simpa using ha)]
        refine ih _ ?_
        rw [List.mem_cons, not_or]
        exact ⟨fun h => ha h.symm, hv⟩

/-- Behind the lines of a block control jumps to the successor of `nextOf`, if that starts a
block. -/
theorem run_implicit (lastMnem : Option Mnem) (succs : List DecodeKey) (s : σ) (l : Label) :
    (S.run ((ctx.implicitText labels source lastMnem succs).inject .pop) s).1 = .jump l ↔
      ∃ k ∈ nextOf lastMnem succs (S.mode s), labelFor k ∈ labels ∧ labelFor k = l := by
  have hinject : (S.run ((ctx.implicitText labels source lastMnem succs).inject .pop) s).1 =
      (S.run (ctx.implicitText labels source lastMnem succs) s).1 := by
    unfold HostSem.run
    exact (Text.run_inject _ _ _ _ s).1
  rw [hinject]
  unfold nextOf
  rcases succs with _ | ⟨t, _ | ⟨u, succs⟩⟩
  · refine ⟨fun h => (by cases h), fun ⟨k, hk, _⟩ => ?_⟩
    split at hk <;> cases hk
  · have hnext : (if lastMnem = some .jsr ∨ lastMnem = some .jsl then
        ([t].find? fun k => (k.m, k.x) = S.mode s).or [t].head? else [t].head?) = some t := by
      split
      · rw [List.find?_singleton]
        split <;> rfl
      · rfl
    rw [hnext]
    simp only [Option.mem_some, exists_eq_left']
    exact run_gotoOrReturn S source t s l
  · unfold EmitCtx.implicitText
    dsimp only
    split
    · rw [run_switch, find?_firstCases _ _ _ _ (List.not_mem_nil), run_gotoOrReturn]
      cases (t :: u :: succs).find? fun k => (k.m, k.x) = S.mode s <;> simp
    · rw [run_gotoOrReturn]
      simp

end Runs

/-! ### Lines that can be passed -/

variable {ctx : EmitCtx} {labels : List Label}

theorem passes_linesOf (b : Block × Lowered) (insns : Lowered) :
    Passes (ctx.linesOf labels b insns).1 ↔ (EmitCtx.insnsEdges b.1.successors insns).falls = true := by
  have hsummary : Summary ctx labels ((ctx.linesOf labels b insns).1.inject .pop)
      (EmitCtx.insnsEdges b.1.successors insns) := Summary.insns _ _ _ _
  unfold Passes
  constructor
  · rintro ⟨n, hn⟩
    exact ((hsummary.next n).mp hn).2
  · intro h
    exact ⟨0, (hsummary.next 0).mpr ⟨rfl, h⟩⟩

/-- Where the lines can be passed, nothing has terminated the block. -/
theorem endLines_of_passes {b : Block × Lowered} (hb : ∀ p ∈ b.2, Formed p)
    (h : Passes (ctx.linesOf labels b b.2).1) : ctx.endLines labels b =
      ctx.implicitText labels (ctx.blockSource b) (b.2.getLast?.map (·.1.insn.mnem)) b.1.successors := by
  unfold EmitCtx.endLines
  refine if_neg fun hterm => ?_
  have hfalls := (EmitCtx.falls_of_insnsTerminate hb hterm).resolve_left (by decide)
  rw [(passes_linesOf b b.2).mp h] at hfalls
  cases hfalls

/-- The instruction is no part of the setup of a `JML` dispatch. -/
def PlainEnd (di : DecodedInsn) : Prop :=
  di.insn.mnem = .jsr ∨ di.insn.mnem = .jsl ∨ di.insn.mnem = .plp

theorem PlainEnd.not_jmlDispatch {di : DecodedInsn} (h : PlainEnd di) :
    EmitCtx.isJmlDispatch di = false := by
  unfold EmitCtx.isJmlDispatch
  rcases h with h | h | h <;> rw [h] <;> rfl

theorem head?_dropWhile_append {α : Type} (p q : α → Bool) {a : α} (hp : p a = false)
    (hq : q a = false) (l : List α) :
    ((l ++ [a]).dropWhile p).head?.any q = (l.dropWhile p).head?.any q := by
  induction l with
  | nil =>
    rw [List.nil_append, List.dropWhile_cons, hp]
    exact hq
  | cons b l ih =>
    rw [List.cons_append, List.dropWhile_cons, List.dropWhile_cons]
    by_cases hb : p b = true
    · rw [if_pos hb, if_pos hb]
      exact ih
    · rw [if_neg hb, if_neg hb]
      rfl

theorem isTrampolineSetup_append {last : DecodedInsn} (hlast : PlainEnd last) (di : DecodedInsn)
    (rest : List DecodedInsn) :
    EmitCtx.isTrampolineSetup di (rest ++ [last]) = EmitCtx.isTrampolineSetup di rest := by
  obtain ⟨p, hp, heq⟩ : ∃ p : DecodedInsn → Bool, p last = false ∧ ∀ rest,
      EmitCtx.isTrampolineSetup di rest = (p di && (rest.dropWhile p).head?.any EmitCtx.isJmlDispatch) := by
    refine ⟨fun di => di.insn.mnem = .phk || di.insn.mnem = .pea || di.insn.mnem = .per, ?_,
      fun rest => ?_⟩
    · dsimp only
      rcases hlast with h | h | h <;> rw [h] <;> rfl
    · unfold EmitCtx.isTrampolineSetup
      dsimp only
      cases rest.dropWhile _ <;> rfl
  rw [heq, heq, head?_dropWhile_append p _ hp hlast.not_jmlDispatch]

/-- The lines of a block can be passed if those in front of its last instruction can and the
last ones too. -/
theorem falls_append {last : DecodedInsn × List IROp} (hlast : PlainEnd last.1)
    (succs : List DecodeKey) : ∀ init : Lowered,
      (EmitCtx.insnsEdges succs (init ++ [last])).falls =
        ((EmitCtx.insnsEdges succs init).falls && (EmitCtx.opsEdges succs last.1 last.2).falls) := by
  intro init
  induction init with
  | nil =>
    have hsetup : EmitCtx.isTrampolineSetup last.1 [] = false := by
      unfold EmitCtx.isTrampolineSetup
      dsimp only
      rcases hlast with h | h | h <;> rw [h] <;> rfl
    rw [List.nil_append]
    conv_lhs => rw [EmitCtx.insnsEdges, List.map_nil, hsetup]
    rw [if_neg (by decide),
      Edges.falls_seq, EmitCtx.insnsEdges, Bool.and_comm]
  | cons p init ih =>
    rw [List.cons_append, EmitCtx.insnsEdges, EmitCtx.insnsEdges, List.map_append, List.map_singleton,
      isTrampolineSetup_append hlast]
    split
    · exact ih
    · rw [Edges.falls_seq, Edges.falls_seq, ih, Bool.and_assoc]

/-! ### The last instruction -/

section Last

variable {inp : DecodeInput} {g : FunctionGraph} {bs : List (Block × Lowered)}
  (h : compiledBlocks ctx inp = some (g, bs)) {b : Block × Lowered} (hb : b ∈ bs)

include h hb

theorem exists_last : ∃ last ops vid, b.1.insns.getLast? = some last ∧ last ∈ g.insns ∧
    b.1.successors = last.successors ∧ b.2 = b.2.dropLast ++ [(last, ops)] ∧
    lower last.insn vid = some ops := by
  obtain ⟨hcfg, hmap, hin⟩ := mem_of_compiledBlocks h hb
  obtain ⟨_, _, _, _, _, _, hmem, last, hlast, hsuccs, _⟩ := FunctionGraph.block_spec hcfg
  rw [← hmap, List.getLast?_map] at hlast
  obtain ⟨⟨di, ops⟩, hp, rfl⟩ := Option.map_eq_some_iff.mp hlast
  obtain ⟨vid, hlower⟩ := (hin (di, ops) (List.mem_of_getLast? hp)).2
  refine ⟨di, ops, vid, ?_, (hin _ (List.mem_of_getLast? hp)).1, hsuccs, ?_, hlower⟩
  · rw [← hmap, List.getLast?_map, hp]
    rfl
  · exact (List.dropLast_append_getLast? _ hp).symm

theorem formed_printed : ∀ p ∈ b.2, Formed p := fun _ hp => formed_of_compiledBlocks h hb hp

end Last

/-- A `PLP` is passed. -/
theorem falls_plp (succs : List DecodeKey) {di : DecodedInsn} {ops : List IROp} {vid : Value}
    (hplp : di.insn.mnem = .plp) (hlower : lower di.insn vid = some ops) :
    (EmitCtx.opsEdges succs di ops).falls = true := by
  unfold lower at hlower
  rw [hplp] at hlower
  obtain rfl := Option.some.inj hlower
  rfl

/-- A call is passed unless a table without an index register replaces it. -/
theorem falls_call (succs : List DecodeKey) {inp : DecodeInput} {di : DecodedInsn} {insn : Insn}
    {ops : List IROp} {vid : Value} (hdec : DecodedAt inp di insn)
    (hcall : di.insn.mnem = .jsr ∨ di.insn.mnem = .jsl) (hlower : lower di.insn vid = some ops) :
    (EmitCtx.opsEdges succs di ops).falls = true ↔ ∀ d ∈ EmitCtx.dispatchOf di, d.idxReg.isSome := by
  have hops : ∃ op, ops = [.call op] := by
    unfold lower at hlower
    rcases hcall with hm | hm
    · rw [hm] at hlower
      unfold hJsr at hlower
      dsimp only at hlower
      split at hlower <;> exact ⟨_, (Option.some.inj hlower).symm⟩
    · rw [hm] at hlower
      exact ⟨_, (Option.some.inj hlower).symm⟩
  obtain ⟨op, rfl⟩ := hops
  have hfalls : (EmitCtx.opsEdges succs di [.call op]).falls = (EmitCtx.opEdges succs di (.call op)).falls := by
    rw [EmitCtx.opsEdges, EmitCtx.opsEdges, Edges.seq_pass]
  rw [hfalls]
  unfold EmitCtx.opEdges
  dsimp only
  by_cases hrun : di.dispatchRuntime = true
  · have hnone : di.dispatch = none := by
      rw [hdec.runtime] at hrun
      rw [hdec.dispatch, decodeOne_runtime inp di.key insn hrun]
    have hof : EmitCtx.dispatchOf di = none := by
      unfold EmitCtx.dispatchOf
      rw [hnone]
      rfl
    rw [if_pos hrun, hof]
    exact ⟨fun _ d hd => (by cases hd), fun _ => rfl⟩
  · rw [if_neg hrun]
    cases hd : EmitCtx.dispatchOf di with
    | none => exact ⟨fun _ d hd => (by cases hd), fun _ => rfl⟩
    | some d =>
      simp only [Option.mem_some, forall_eq']
      cases hidx : d.idxReg with
      | none => simp [Edges.stop, Edges.quiet]
      | some r =>
        have hd' : (decodeOne inp di.key insn).insn.dispatch = some d := by
          rw [← hdec.dispatch]
          exact (Option.filter_eq_some_iff.mp hd).1
        have hpass : (EmitCtx.dispatchEdges di.insn d).falls = true := by
          rw [EmitCtx.falls_dispatchEdges]
          rw [hdec.mnem] at hcall ⊢
          rcases dispatch_forms hd' with ⟨_, t, rfl⟩ | ⟨hm, _⟩ | ⟨hm, _⟩ | ⟨hm, _, ⟨t, rfl⟩ | ⟨t, rfl⟩⟩
          · cases hidx
          · rw [hm] at hcall
            exact absurd hcall (by decide)
          · rw [hm] at hcall
            exact absurd hcall (by decide)
          · rw [hm]
            rfl
          · cases hidx
        simpa using hpass

/-- Only calls and `PLP`s have successors in several widths. -/
theorem plainEnd_of_severalModes {inp : DecodeInput} {g : FunctionGraph}
    (h : decodeFunction inp = some g) {di : DecodedInsn} (hdi : di ∈ g.insns)
    (hseveral : SeveralModes di.successors) : PlainEnd di := by
  by_contra hplain
  unfold PlainEnd at hplain
  rw [not_or, not_or] at hplain
  obtain ⟨insn, hdec⟩ := decodedAt_of_decodeFunction h di hdi
  rw [hdec.mnem] at hplain
  obtain ⟨mode, hmode⟩ := decodeOne_modes inp di.key
    (not_or.mpr ⟨hplain.1, hplain.2.1⟩)
  obtain ⟨_, s, hs, t, ht, hne⟩ := hseveral
  refine hne ?_
  calc (s.m, s.x) = mode := hmode _ (mem_decodedLabels h hdi hdec.read hplain.2.2 hs)
    _ = (t.m, t.x) := (hmode _ (mem_decodedLabels h hdi hdec.read hplain.2.2 ht)).symm

/-! ### Behind a call -/

theorem nextPc_lt (maps : ExitMaps) (insn : Insn) (bank : Nat) : nextPc maps insn bank < 0x10000 :=
  Nat.mod_lt _ (by decide)

theorem peaPtrcallReturnPc_lt (rom : Rom) (bank pc next : Nat) :
    peaPtrcallReturnPc rom bank pc next < 0x10000 := by
  unfold peaPtrcallReturnPc
  dsimp only
  split <;> exact Nat.mod_lt _ (by decide)

theorem find?_append_of_subset {α : Type} (p : α → Bool) {l extra : List α} (h : extra ⊆ l) :
    (l ++ extra).find? p = l.find? p := by
  rw [List.find?_append]
  cases hl : l.find? p with
  | some a => rfl
  | none =>
    rw [Option.none_or]
    refine List.find?_eq_none.mpr fun a ha => ?_
    exact List.find?_eq_none.mp hl a (h ha)

/-- The successor that control takes behind a call, by its label: the first in the widths
among those behind it, else the first handler in them, else the first behind it. -/
theorem nextOf_labels {mnem : Mnem} (hcall : mnem = .jsr ∨ mnem = .jsl) {succs : List DecodeKey}
    {back handlers extra : List Pcmx} (hlabels : succs.map pcmx = back ++ handlers ++ extra)
    (hextra : extra ⊆ back ++ handlers) (hback : back ≠ []) (mode : Bool × Bool) :
    (nextOf (some mnem) succs mode).map pcmx =
      ((back.find? fun p => p.2 = mode).or (handlers.find? fun p => p.2 = mode)).or back.head? := by
  have hfind : (succs.find? fun k => (k.m, k.x) = mode).map pcmx =
      (succs.map pcmx).find? fun p => p.2 = mode := by
    rw [List.find?_map]
    rfl
  have hhead : succs.head?.map pcmx = back.head? := by
    rw [← List.head?_map, hlabels, List.append_assoc]
    obtain ⟨p, rest, rfl⟩ := List.exists_cons_of_ne_nil hback
    rfl
  unfold nextOf
  rw [if_pos (by simpa using hcall), Option.map_or, hfind, hhead, hlabels,
    find?_append_of_subset _ hextra, List.find?_append]

/-- The lines of a block can be passed if control comes to its last instruction and passes it. -/
theorem passes_iff {b : Block × Lowered} {last : DecodedInsn} {ops : List IROp}
    (hlast : b.2 = b.2.dropLast ++ [(last, ops)]) (hplain : PlainEnd last) :
    Passes (ctx.linesOf labels b b.2).1 ↔
      ReachesLast b ∧ (EmitCtx.opsEdges b.1.successors last ops).falls = true := by
  rw [passes_linesOf]
  conv_lhs => rw [hlast, @falls_append (last, ops) hplain, Bool.and_eq_true]
  rfl

theorem labelFor_congr {k l : DecodeKey} (h : pcmx k = pcmx l) : labelFor k = labelFor l :=
  congrArg (fun p : Pcmx => (p.1 &&& 0xFFFF, p.2)) h

theorem pc_of_mem_back {inp : DecodeInput} {key c : DecodeKey} {insn : Insn}
    (h : pcmx c ∈ backLabels inp key insn) : (labelFor c).1 = nextPc inp.maps insn inp.bank := by
  obtain ⟨mode, _, hmode⟩ := List.mem_map.mp h
  have hpc : c.pc = addr24 inp.bank (nextPc inp.maps insn inp.bank) :=
    (congrArg Prod.fst hmode).symm
  unfold labelFor
  rw [hpc]
  exact addr24_and _ (nextPc_lt _ _ _)

theorem find?_back_eq_none (inp : DecodeInput) (key : DecodeKey) (insn : Insn) (mode : Bool × Bool) :
    (backLabels inp key insn).find? (fun p => p.2 = mode) = none ↔
      mode ∉ returnModes inp.maps inp.rom insn inp.bank key.m key.x := by
  rw [List.find?_eq_none]
  unfold backLabels
  simp only [List.mem_map, decide_eq_true_eq, forall_exists_index, and_imp]
  constructor
  · intro h hmem
    exact h _ mode hmem rfl rfl
  · rintro h _ mode' hmem rfl rfl
    exact h hmem

/-- The successors of a call are the code behind it, in the widths it returns in, and
handlers in the widths of the call. -/
structure CallSuccessors (inp : DecodeInput) (di : DecodedInsn) (handlers : List DecodeKey) : Prop where
  call : di.insn.mnem = .jsr ∨ di.insn.mnem = .jsl
  labels : ∃ extra, di.successors.map pcmx = backLabels inp di.key di.insn ++ handlers.map pcmx ++ extra ∧
    extra ⊆ backLabels inp di.key di.insn ++ handlers.map pcmx
  modes : ∀ k ∈ handlers, (pcmx k).2 = (di.insn.mFlag, di.insn.xFlag)

namespace CallSuccessors

variable {inp : DecodeInput} {di : DecodedInsn} {handlers : List DecodeKey}

/-- Control goes on behind the call or, in the widths of the call when it does not return
in them, in the first handler. -/
theorem nextOf_cases (h : CallSuccessors inp di handlers) {mode : Bool × Bool} {c : DecodeKey}
    (hc : c ∈ nextOf (some di.insn.mnem) di.successors mode) :
    (labelFor c).1 = nextPc inp.maps di.insn inp.bank ∨
      ((di.insn.mFlag, di.insn.xFlag) ∉ returnModes inp.maps inp.rom di.insn inp.bank di.key.m di.key.x ∧
        ∃ k ∈ handlers.head?, labelFor c = labelFor k) := by
  obtain ⟨extra, hlabels, hextra⟩ := h.labels
  have hnext := nextOf_labels h.call hlabels hextra (backLabels_ne_nil inp di.key di.insn) mode
  rw [Option.mem_def.mp hc, Option.map_some] at hnext
  cases hfind : (backLabels inp di.key di.insn).find? fun p => p.2 = mode with
  | some p =>
    rw [hfind, Option.some_or, Option.some_or] at hnext
    exact Or.inl (pc_of_mem_back (Option.some.inj hnext ▸ List.mem_of_find?_eq_some hfind))
  | none =>
    rw [hfind, Option.none_or] at hnext
    cases hhandler : (handlers.map pcmx).find? fun p => p.2 = mode with
    | none =>
      rw [hhandler, Option.none_or] at hnext
      exact Or.inl (pc_of_mem_back (List.mem_of_head? hnext.symm))
    | some p =>
      rw [hhandler, Option.some_or] at hnext
      obtain ⟨k, rest, rfl⟩ : ∃ k rest, handlers = k :: rest := by
        cases handlers with
        | nil => cases hhandler
        | cons k rest => exact ⟨k, rest, rfl⟩
      obtain ⟨k', hk', rfl⟩ := List.mem_map.mp (List.mem_of_find?_eq_some hhandler)
      have hmode : mode = (di.insn.mFlag, di.insn.xFlag) := by
        rw [← h.modes k' hk']
        simpa [eq_comm] using List.find?_some hhandler
      rw [hmode] at hfind hhandler
      rw [List.map_cons, List.find?_cons_of_pos (by simpa using h.modes k List.mem_cons_self)] at hhandler
      refine Or.inr ⟨(find?_back_eq_none _ _ _ _).mp hfind, k, rfl, ?_⟩
      exact labelFor_congr ((Option.some.inj hnext).trans (Option.some.inj hhandler).symm)

/-- The first handler is taken when the call does not return in its own widths. -/
theorem nextOf_handler (h : CallSuccessors inp di handlers)
    (hmodes : (di.insn.mFlag, di.insn.xFlag) ∉
      returnModes inp.maps inp.rom di.insn inp.bank di.key.m di.key.x)
    {k : DecodeKey} (hk : k ∈ handlers.head?) :
    ∃ c ∈ nextOf (some di.insn.mnem) di.successors (di.insn.mFlag, di.insn.xFlag),
      labelFor c = labelFor k := by
  obtain ⟨extra, hlabels, hextra⟩ := h.labels
  have hnext := nextOf_labels h.call hlabels hextra (backLabels_ne_nil inp di.key di.insn)
    (di.insn.mFlag, di.insn.xFlag)
  obtain ⟨rest, rfl⟩ := List.head?_eq_some_iff.mp hk
  rw [(find?_back_eq_none _ _ _ _).mpr hmodes, Option.none_or, List.map_cons,
    List.find?_cons_of_pos (by simpa using h.modes k List.mem_cons_self), Option.some_or] at hnext
  obtain ⟨c, hc, hck⟩ := Option.map_eq_some_iff.mp hnext
  exact ⟨c, hc, labelFor_congr hck⟩

end CallSuccessors

section Blocks

variable {inp : DecodeInput} {g : FunctionGraph} {bs : List (Block × Lowered)}
  (h : compiledBlocks ctx inp = some (g, bs))

include h

/-- A leader has a label. -/
theorem mem_labels_of_leader {di : DecodedInsn} (hdi : di ∈ g.insns)
    (hleader : g.isLeader di.key = true) :
    labelFor di.key ∈ bs.map fun b => labelFor b.1.entry := by
  obtain ⟨c, hc, hentry⟩ := FunctionGraph.exists_block hdi hleader
  obtain ⟨d, hd, hdentry⟩ := exists_mem_blockOrder g.entry hc
  obtain ⟨hmap, _⟩ := lowerBlocks_spec (compiledBlocks_eq_some h).2
  obtain ⟨e, he, rfl⟩ := List.mem_map.mp (hmap ▸ hd)
  exact List.mem_map.mpr ⟨e, he, by rw [hdentry, hentry]⟩

variable {b : Block × Lowered} (hb : b ∈ bs)

include hb

/-- Where the lines of the block can be passed, control jumps to `nextOf`. -/
theorem run_endLines {last : DecodedInsn} (hget : b.1.insns.getLast? = some last)
    (hpass : Passes (ctx.linesOf labels b b.2).1) {σ : Type} (S : HostSem σ) (s : σ) (l : Label) :
    (S.run ((ctx.endLines labels b).inject .pop) s).1 = .jump l ↔
      ∃ k ∈ nextOf (some last.insn.mnem) b.1.successors (S.mode s),
        labelFor k ∈ labels ∧ labelFor k = l := by
  have hmnem : b.2.getLast?.map (·.1.insn.mnem) = some last.insn.mnem := by
    rw [← (mem_of_compiledBlocks h hb).2.1, List.getLast?_map] at hget
    obtain ⟨p, hp, rfl⟩ := Option.map_eq_some_iff.mp hget
    rw [hp]
    rfl
  rw [endLines_of_passes (formed_printed h hb) hpass, hmnem]
  exact run_implicit S _ _ _ s l

/-- **A block goes on in the widths of the flags exactly when `PlpAgrees` holds.** -/
theorem modeFollowed_iff : ModeFollowed ctx g (bs.map fun b => labelFor b.1.entry) b ↔
    PlpAgrees g (bs.map fun b => labelFor b.1.entry) b := by
  obtain ⟨last, ops, vid, hget, hmem, hsuccs, hlast, hlower⟩ := exists_last h hb
  have hdecode := (compiledBlocks_eq_some h).1
  obtain ⟨insn, hdec⟩ := decodedAt_of_decodeFunction hdecode last hmem
  unfold ModeFollowed PlpAgrees
  rw [hget]
  simp only [Option.mem_some, forall_eq']
  refine forall_congr' fun hseveral => ?_
  have hplain := plainEnd_of_severalModes hdecode hmem (hsuccs ▸ hseveral)
  rw [passes_linesOf]
  refine forall_congr' fun hreach => ?_
  have hpasses := @passes_iff ctx (bs.map fun b => labelFor b.1.entry) b last ops hlast hplain
  rcases or_assoc.mpr hplain with hcall | hplp
  · have hfalls := falls_call b.1.successors hdec hcall hlower
    constructor
    · rintro ⟨hpass, _⟩
      refine ⟨hfalls.mp (hpasses.mp hpass).2, fun hm => ?_⟩
      rw [hm] at hcall
      exact absurd hcall (by decide)
    · rintro ⟨hidx, _⟩
      have hpass := hpasses.mpr ⟨hreach, hfalls.mpr hidx⟩
      refine ⟨hpass, fun S s k hk hsome hmode => ?_⟩
      rw [run_endLines h hb hget hpass]
      have hmode' : (k.m, k.x) = S.mode s := hmode.symm
      obtain ⟨c, hfind⟩ := Option.isSome_iff_exists.mp (List.find?_isSome.mpr
        ⟨k, hk, decide_eq_true hmode'⟩ :
          (b.1.successors.find? fun k => decide ((k.m, k.x) = S.mode s)).isSome)
      have hc : (c.m, c.x) = (k.m, k.x) := by
        rw [hmode']
        simpa using List.find?_some hfind
      have hlabel : labelFor c = labelFor k := by
        unfold labelFor
        rw [hseveral.1 c (List.mem_of_find?_eq_some hfind) k hk, (Prod.mk.inj hc).1, (Prod.mk.inj hc).2]
      obtain ⟨dj, hdj⟩ := Option.isSome_iff_exists.mp hsome
      obtain ⟨hdjmem, rfl⟩ := FunctionGraph.get?_eq_some.mp hdj
      have hender : isBlockEnder last.insn.mnem = true := by
        rcases hcall with hm | hm <;> rw [hm] <;> rfl
      refine ⟨c, ?_, ?_, hlabel⟩
      · unfold nextOf
        rw [if_pos (by simpa using hcall), hfind]
        rfl
      · rw [hlabel]
        exact mem_labels_of_leader h hdjmem
          (FunctionGraph.leader_of_ender hmem hender (hsuccs ▸ hk))
  · have hfalls := falls_plp b.1.successors hplp hlower
    have hpass := hpasses.mpr ⟨hreach, hfalls⟩
    have hnext : ∀ mode, nextOf (some last.insn.mnem) b.1.successors mode = b.1.successors.head? := by
      intro mode
      unfold nextOf
      rw [hplp]
      exact if_neg (by decide)
    constructor
    · rintro ⟨_, hrun⟩
      refine ⟨fun d hd => ?_, fun _ k hk hsome => ?_⟩
      · have hdispatch := (Option.filter_eq_some_iff.mp hd).1
        rw [hdec.dispatch] at hdispatch
        have hm := mnem_of_dispatch hdispatch
        rw [← hdec.mnem, hplp] at hm
        exact absurd hm (by decide)
      · have hjump := hrun .widths (k.m, k.x) k hk hsome rfl
        rw [run_endLines h hb hget hpass, hnext] at hjump
        obtain ⟨t, ht, hlabel, heq⟩ := hjump
        refine ⟨heq ▸ hlabel, fun s hs => ?_⟩
        rw [Option.mem_unique hs ht]
        exact heq
    · rintro ⟨_, hagree⟩
      refine ⟨hpass, fun S s k hk hsome _ => ?_⟩
      rw [run_endLines h hb hget hpass, hnext]
      obtain ⟨t, _, hsuccs⟩ := List.exists_cons_of_ne_nil (List.ne_nil_of_mem hk)
      have ht : t ∈ b.1.successors.head? := by rw [hsuccs]; rfl
      obtain ⟨hlabel, heq⟩ := hagree hplp k hk hsome
      exact ⟨t, ht, by rw [heq t ht]; exact hlabel, heq t ht⟩

/-- A block that ends in a call. -/
theorem goesBehind_call {last : DecodedInsn} {ops : List IROp} {vid : Value}
    (hget : b.1.insns.getLast? = some last) (hmem : last ∈ g.insns)
    (hsuccs : b.1.successors = last.successors) (hlast : b.2 = b.2.dropLast ++ [(last, ops)])
    (hlower : lower last.insn vid = some ops) (hcall : last.insn.mnem = .jsr ∨ last.insn.mnem = .jsl) :
    GoesBehind ctx inp (bs.map fun b => labelFor b.1.entry) b ↔
      HandlersApart inp (bs.map fun b => labelFor b.1.entry) b := by
  obtain ⟨hread, extra, hlabels, hextra⟩ := call_labels (compiledBlocks_eq_some h).1 hmem hcall
  have hdec : DecodedAt inp last last.insn := by
    obtain ⟨insn, hdec⟩ := decodedAt_of_decodeFunction (compiledBlocks_eq_some h).1 last hmem
    have hsame := hdec.read
    rw [hread] at hsame
    exact Option.some.inj hsame ▸ hdec
  have hpasses := @passes_iff ctx (bs.map fun b => labelFor b.1.entry) b last ops hlast
    (or_assoc.mp (Or.inl hcall))
  have hfalls := falls_call b.1.successors hdec hcall hlower
  have hpc : returnPc inp last = some (nextPc inp.maps last.insn inp.bank) := if_pos hcall
  unfold GoesBehind HandlersApart
  rw [hget]
  simp only [Option.mem_some, forall_eq', hpc]
  rcases decodeOne_call inp last.key hcall with ⟨hnil, hidx⟩ | ⟨handlers, hdecoded, hform, hsome⟩
  · have hempty : b.1.successors = [] := by
      rw [hnil] at hlabels hextra
      rw [List.subset_nil.mp hextra] at hlabels
      exact hsuccs.trans (List.map_eq_nil_iff.mp hlabels)
    constructor
    · intro _ _ _ d hd hr
      rw [hidx d (hdec.dispatch ▸ hd)] at hr
      cases hr
    · intro _ hpass σ S s l hjump
      obtain ⟨k, hk, _⟩ := (run_endLines h hb hget hpass S s l).mp hjump
      rw [hempty] at hk
      unfold nextOf at hk
      split at hk <;> cases hk
  · have hentries : ∀ d ∈ last.dispatch, d.idxReg.isSome → handlers =
        handlerKeys inp.bank last.insn.mFlag last.insn.xFlag d.entries :=
      fun d hd hr => hform d (hdec.dispatch ▸ hd) hr
    have hkeys : ∀ d ∈ last.dispatch, d.idxReg.isSome → ∀ k ∈ handlers,
        (pcmx k).2 = (last.insn.mFlag, last.insn.xFlag) := by
      intro d hd hr k hk
      rw [hentries d hd hr] at hk
      exact handlerKeys_modes hk
    have hends : (∀ k ∈ handlers, (pcmx k).2 = (last.insn.mFlag, last.insn.xFlag)) →
        CallSuccessors inp last handlers := fun hmodes =>
      ⟨hcall, ⟨extra, by rw [← hdecoded]; exact hlabels, by rw [← hdecoded]; exact hextra⟩, hmodes⟩
    constructor
    · intro hbehind hjsr hreach d hd hr
      have hpass := hpasses.mpr ⟨hreach, hfalls.mpr fun d' hd' => by
        rw [Option.mem_unique (Option.filter_eq_some_iff.mp hd').1 hd]
        exact hr⟩
      rw [← hentries d hd hr]
      refine or_iff_not_imp_left.mpr fun hmodes k hk => or_iff_not_imp_left.mpr fun hlabel => ?_
      obtain ⟨c, hc, hck⟩ := (hends (hkeys d hd hr)).nextOf_handler hmodes hk
      rw [not_not] at hlabel
      refine hbehind hpass .widths (last.insn.mFlag, last.insn.xFlag) (labelFor k)
        ((run_endLines h hb hget hpass _ _ _).mpr ⟨c, ?_, ?_, hck⟩)
      · rw [hsuccs]
        exact hc
      · rw [hck]
        exact hlabel
    · intro hapart hpass σ S s l hjump
      obtain ⟨c, hc, hlabel, rfl⟩ := (run_endLines h hb hget hpass S s l).mp hjump
      obtain ⟨hreach, hlastFalls⟩ := hpasses.mp hpass
      rw [hsuccs] at hc
      by_cases hnone : handlers = []
      · rcases (hends fun k hk => by rw [hnone] at hk; cases hk).nextOf_cases hc with hpc | ⟨_, k, hk, _⟩
        · exact hpc
        · rw [hnone] at hk
          cases hk
      · obtain ⟨d, hd, hne⟩ := hsome hnone
        rw [← hdec.dispatch] at hd
        have hr := hfalls.mp hlastFalls d (Option.filter_eq_some_iff.mpr ⟨hd, by simpa using hne⟩)
        rcases (hends (hkeys d hd hr)).nextOf_cases hc with hpc | ⟨hmodes, k, hk, hck⟩
        · exact hpc
        · have hjsr : last.insn.mnem = .jsr := by
            refine hcall.resolve_right fun hjsl => ?_
            have hformed := formed_printed h hb (last, ops) (by rw [hlast]; simp)
            rw [hformed.jsl d (Option.filter_eq_some_iff.mpr ⟨hd, by simpa using hne⟩) hjsl] at hr
            cases hr
          rw [hentries d hd hr] at hk
          rw [hck] at hlabel ⊢
          exact (((hapart hjsr hreach d hd hr).resolve_left hmodes) k hk).resolve_left (not_not.mpr hlabel)

/-- **A block goes on behind its call exactly when `HandlersApart` holds.** -/
theorem goesBehind_iff : GoesBehind ctx inp (bs.map fun b => labelFor b.1.entry) b ↔
    HandlersApart inp (bs.map fun b => labelFor b.1.entry) b := by
  obtain ⟨last, ops, vid, hget, hmem, hsuccs, hlast, hlower⟩ := exists_last h hb
  by_cases hcall : last.insn.mnem = .jsr ∨ last.insn.mnem = .jsl
  · exact goesBehind_call h hb hget hmem hsuccs hlast hlower hcall
  · unfold GoesBehind HandlersApart
    rw [hget]
    simp only [Option.mem_some, forall_eq']
    refine ⟨fun _ hjsr => absurd (Or.inl hjsr) hcall, fun _ pc hpc hpass σ S s l hjump => ?_⟩
    obtain ⟨c, hc, _, rfl⟩ := (run_endLines h hb hget hpass S s l).mp hjump
    have hmemc : c ∈ last.successors := by
      unfold nextOf at hc
      rw [if_neg (by simpa using hcall), hsuccs] at hc
      exact List.mem_of_head? hc
    obtain ⟨insn, hdec⟩ := decodedAt_of_decodeFunction (compiledBlocks_eq_some h).1 last hmem
    unfold returnPc at hpc
    rw [if_neg hcall] at hpc
    cases hd : last.dispatch with
    | none =>
      rw [hd] at hpc
      cases hpc
    | some d =>
      rw [hd] at hpc
      dsimp only at hpc
      by_cases hjmp : last.insn.mnem = .jmp ∧ d.call = true
      · rw [if_pos hjmp] at hpc
        have hinsn : insn.mnem = .jmp := hdec.mnem ▸ hjmp.1
        have hlabel := mem_decodedLabels (compiledBlocks_eq_some h).1 hmem hdec.read
          (by rw [hinsn]; decide) hmemc
        rw [decodeOne_ptrcall inp last.key hinsn (hdec.dispatch ▸ hd) hjmp.2] at hlabel
        have hcpc : c.pc = _ := congrArg Prod.fst (List.mem_singleton.mp hlabel)
        unfold labelFor
        rw [hcpc, addr24_and _ (peaPtrcallReturnPc_lt _ _ _ _), ← Option.some.inj hpc, hdec.length]
      · rw [if_neg hjmp] at hpc
        cases hpc

end Blocks

/-! ### Functions -/

/-- Every block of the function goes on in the widths of the flags, and behind its call. -/
def ControlFollows (ctx : EmitCtx) (inp : DecodeInput) : Prop :=
  ∀ p ∈ compiledBlocks ctx inp, ∀ b ∈ p.2,
    ModeFollowed ctx p.1 (p.2.map fun b => labelFor b.1.entry) b ∧
      GoesBehind ctx inp (p.2.map fun b => labelFor b.1.entry) b

/-- **Control follows the widths at run time exactly when the successors of the `PLP`s agree,
no table without an index register replaces a call that returns in several widths, and the
handlers of the dispatched calls stay apart from the code behind them.** -/
theorem controlFollows_iff (ctx : EmitCtx) (inp : DecodeInput) :
    ControlFollows ctx inp ↔ ∀ p ∈ compiledBlocks ctx inp, ∀ b ∈ p.2,
      PlpAgrees p.1 (p.2.map fun b => labelFor b.1.entry) b ∧
        HandlersApart inp (p.2.map fun b => labelFor b.1.entry) b := by
  unfold ControlFollows
  refine forall_congr' fun p => forall_congr' fun hp => forall_congr' fun b => forall_congr' fun hb => ?_
  obtain ⟨g, bs⟩ := p
  have h : compiledBlocks ctx inp = some (g, bs) := hp
  rw [modeFollowed_iff h hb, goesBehind_iff h hb]

/-- Two paths save different widths and meet at a `PLP`; branches make both of its
successors blocks.  `BCS $800F; BEQ $800D; REP #$20; BCS $800F; PHP; SEP #$20; BRA $800E; PHP;
PLP; NOP; RTS`. -/
def joinedPlp : DecodeInput :=
  .plain [0xB0, 0x0D, 0xF0, 0x09, 0xC2, 0x20, 0xB0, 0x07, 0x08, 0xE2, 0x20, 0x80, 0x01, 0x08, 0x28, 0xEA,
    0x60]

/-- Behind the `PLP` control goes to the block of the first widths, whatever it pulled. -/
theorem not_controlFollows_joinedPlp : ¬ ControlFollows .bare joinedPlp := by
  intro hfollows
  have hsome : (compiledBlocks .bare joinedPlp).isSome := by decide
  obtain ⟨⟨g, bs⟩, h⟩ := Option.isSome_iff_exists.mp hsome
  have hplp : (compiledBlocks .bare joinedPlp).all fun p => p.2.any fun b =>
      b.1.insns.getLast?.any fun last => decide (last.insn.mnem = .plp ∧
        ((∀ s ∈ b.1.successors, ∀ t ∈ b.1.successors, s.pc = t.pc) ∧
          ∃ s ∈ b.1.successors, ∃ t ∈ b.1.successors, (s.m, s.x) ≠ (t.m, t.x)) ∧
        (EmitCtx.insnsEdges b.1.successors b.2.dropLast).falls = true ∧
        ∃ k ∈ b.1.successors, (p.1.get? k).isSome ∧
          ∃ s ∈ b.1.successors.head?.toList, labelFor s ≠ labelFor k) := by
    decide
  rw [h, Option.all_some, List.any_eq_true] at hplp
  obtain ⟨b, hb, hplp⟩ := hplp
  obtain ⟨last, hlast, hplp⟩ := (Option.any_eq_true _ _).mp hplp
  obtain ⟨hmnem, hseveral, hreach, k, hk, hin, s, hs, hne⟩ := of_decide_eq_true hplp
  have hagrees := (modeFollowed_iff h hb).mp (hfollows (g, bs) h b hb).1
  exact hne (((hagrees last hlast hseveral hreach).2 hmnem k hk hin).2 s (Option.mem_toList.mp hs))

end SnesRecomp.Recompiler
