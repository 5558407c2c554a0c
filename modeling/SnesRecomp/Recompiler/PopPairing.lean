import SnesRecomp.Recompiler.Edges
import SnesRecomp.Runtime.HostStack

/-!
# Pushes and pops of the recomp stack

The prologue pushes, and the line scanner of `emit_function` puts a pop in front of every
line that begins with `return`; statements written on one line bring their own pop.
`popsOnce_iff`: every path of a function pops exactly once unless an edge nested in a line
(the taken edge of a conditional branch, a case behind a call) is the bare return of an
`exclude_range`.
-/

namespace SnesRecomp.Recompiler

variable {ctx : EmitCtx} {labels : List Label} {t u : HostText}

/-- Every path to a return pops once; below the depth cap the stack is then as deep as
before the prologue's push. -/
def PopsOnce (F : HostFn) : Prop :=
  ∀ n r, F.Leaves popWeight F.start n r →
    n = 1 ∧ ∀ st : HostStack, st.top < recompStackDepth → (HostStack.pop^[n] st.push).top = st.top

/-! ### Terminated blocks -/

/-- What decoding and lowering say about the instruction of a line. -/
structure Formed (p : DecodedInsn × List IROp) : Prop where
  from_ : ∀ op ∈ p.2, op.From p.1.insn
  call : ∀ d ∈ EmitCtx.dispatchOf p.1, d.call = true → p.1.insn.mnem = .jmp ∨ p.1.insn.mnem = .jsr
  jsl : ∀ d ∈ EmitCtx.dispatchOf p.1, p.1.insn.mnem = .jsl → d.idxReg = none

theorem formed_of_compiledBlocks {inp : DecodeInput} {g : FunctionGraph}
    {lowered : List (Block × Lowered)} (h : compiledBlocks ctx inp = some (g, lowered))
    {b : Block × Lowered} (hb : b ∈ lowered) {p : DecodedInsn × List IROp} (hp : p ∈ b.2) :
    Formed p := by
  obtain ⟨hmem, vid, hlower⟩ := (mem_of_compiledBlocks h hb).2.2 p hp
  obtain ⟨insn, hdec⟩ := decodedAt_of_decodeFunction (compiledBlocks_eq_some h).1 p.1 hmem
  have hmnem := hdec.mnem
  have hforms : ∀ d ∈ EmitCtx.dispatchOf p.1, (decodeOne inp p.1.key insn).insn.dispatch = some d := by
    intro d hd
    rw [← hdec.dispatch]
    exact (Option.filter_eq_some_iff.mp hd).1
  refine ⟨lower_from hlower, fun d hd hcall => ?_, fun d hd hjsl => ?_⟩
  · rw [hmnem]
    rcases dispatch_forms (hforms d hd) with ⟨_, t, rfl⟩ | ⟨hjmp, _⟩ | ⟨_, t, rfl⟩ | ⟨hjsr, _⟩
    · cases hcall
    · exact Or.inl hjmp
    · cases hcall
    · exact Or.inr hjsr
  · rw [hmnem] at hjsl
    rcases dispatch_forms (hforms d hd) with ⟨_, t, rfl⟩ | ⟨h, _⟩ | ⟨h, _⟩ | ⟨h, _⟩
    · rfl
    all_goals rw [h] at hjsl; cases hjsl

namespace EmitCtx

/-- An operation that terminates its block does not fall through. -/
theorem falls_of_terminates {source : Nat} {succs : List DecodeKey} {p : DecodedInsn × List IROp}
    (hp : Formed p) {op : IROp} (hop : op ∈ p.2)
    (h : (ctx.emitOpLines labels source succs p.1 op).2 = some true) :
    (opEdges succs p.1 op).falls = false := by
  have hfrom := hp.from_ op hop
  cases op with
  | condBranch flag takeIf =>
    cases succs with
    | nil => cases h
    | cons fall succs => rfl
  | goto =>
    unfold opEdges
    dsimp only
    split <;> rfl
  | ret op => rfl
  | indirectGoto seg =>
    have hjmp : p.1.insn.mnem = .jmp := hfrom
    unfold emitOpLines at h
    unfold opEdges
    cases hd : dispatchOf p.1 with
    | none => rfl
    | some d =>
      simp only [hd, Option.some.injEq, Bool.not_eq_true'] at h
      dsimp only
      rw [falls_dispatchEdges, hjmp, h]
      exact Bool.and_false _
  | pushReg reg staticM staticX =>
    obtain ⟨hjmp, hjsr, _⟩ : p.1.insn.mnem ≠ .jmp ∧ p.1.insn.mnem ≠ .jsr ∧ p.1.insn.mnem ≠ .jsl := hfrom
    unfold emitOpLines at h
    unfold opEdges
    cases hd : dispatchOf p.1 with
    | none =>
      simp only [hd] at h
      cases h
    | some d =>
      have hcall : d.call = false := by
        by_contra hcall
        exact (hp.call d hd (Bool.not_eq_false _ ▸ hcall)).elim hjmp hjsr
      dsimp only
      rw [falls_dispatchEdges, decide_eq_false hjsr, hcall]
      exact Bool.and_false _
  | call op =>
    have hcall : p.1.insn.mnem = .jsr ∨ p.1.insn.mnem = .jsl := hfrom
    unfold emitOpLines at h
    unfold opEdges
    dsimp only at h ⊢
    by_cases hrun : p.1.dispatchRuntime = true
    · rw [if_pos hrun] at h
      cases h
    · rw [if_neg hrun] at h ⊢
      cases hd : dispatchOf p.1 with
      | none =>
        simp only [hd] at h
        cases h
      | some d =>
        cases hidx : d.idxReg with
        | none =>
          simp only [hidx, Option.isSome_none, Bool.false_eq_true, if_false]
          rfl
        | some r =>
          simp only [hd, hidx] at h
          rcases hcall with hjsr | hjsl
          · rw [if_neg (not_not.mpr hjsr)] at h
            cases h
          · rw [hp.jsl d hd hjsl] at hidx
            cases hidx
  | _ => cases h

theorem falls_of_opsTerminate {source : Nat} {succs : List DecodeKey}
    {p : DecodedInsn × List IROp} (hp : Formed p) :
    ∀ {ops : List IROp} {terminated : Bool}, (∀ op ∈ ops, op ∈ p.2) →
      (ctx.emitOps labels source succs p.1 ops terminated).2 = true →
      terminated = true ∨ (opsEdges succs p.1 ops).falls = false := by
  intro ops
  induction ops with
  | nil => intro terminated _ h; exact Or.inl h
  | cons op ops ih =>
    intro terminated hops h
    rw [opsEdges, Edges.falls_seq, Bool.and_eq_false_iff]
    rcases ih (fun op hop => hops op (List.mem_cons_of_mem _ hop)) h with h | h
    · cases hhere : (ctx.emitOpLines labels source succs p.1 op).2 with
      | none =>
        rw [hhere] at h
        exact Or.inl h
      | some t =>
        rw [hhere, Option.getD_some] at h
        rw [h] at hhere
        exact Or.inr (Or.inl (falls_of_terminates hp (hops op List.mem_cons_self) hhere))
    · exact Or.inr (Or.inr h)

theorem falls_of_insnsTerminate {source : Nat} {succs : List DecodeKey} :
    ∀ {lowered : Lowered} {terminated : Bool}, (∀ p ∈ lowered, Formed p) →
      (ctx.emitInsns labels source succs lowered terminated).2 = true →
      terminated = true ∨ (insnsEdges succs lowered).falls = false := by
  intro lowered
  induction lowered with
  | nil => intro terminated _ h; exact Or.inl h
  | cons p ps ih =>
    intro terminated hformed h
    have hrest := fun terminated =>
      @ih terminated fun p hp => hformed p (List.mem_cons_of_mem _ hp)
    rw [emitInsns] at h
    rw [insnsEdges]
    by_cases hsetup : isTrampolineSetup p.1 (ps.map (·.1)) = true
    · rw [if_pos hsetup] at h ⊢
      exact hrest _ h
    · rw [if_neg hsetup] at h ⊢
      rw [Edges.falls_seq, Bool.and_eq_false_iff]
      rcases hrest _ h with h | h
      · exact (falls_of_opsTerminate (hformed p List.mem_cons_self) (fun _ hop => hop) h).imp_right
          Or.inl
      · exact Or.inr (Or.inr h)

end EmitCtx

theorem implicitEdges_falls (lastMnem : Option Mnem) (succs : List DecodeKey) :
    (EmitCtx.implicitEdges lastMnem succs).falls = false := by
  rcases succs with _ | ⟨s, _ | ⟨t, succs⟩⟩
  · rfl
  · rfl
  · unfold EmitCtx.implicitEdges
    dsimp only
    split <;> rfl

theorem blockEdges_falls (b : Block × Lowered) : (EmitCtx.blockEdges b).falls = false := by
  unfold EmitCtx.blockEdges
  rw [Edges.falls_seq, implicitEdges_falls, Bool.and_false]

/-- **The paths through the lines of a block are those of its instructions.** -/
theorem summary_block {b : Block × Lowered} (hb : ∀ p ∈ b.2, Formed p) :
    Summary ctx labels ((ctx.emitBlock labels b.1 b.2).inject .pop) (EmitCtx.blockEdges b) := by
  have hcharge : Summary ctx labels (.act .charge) .pass := .act rfl
  have hblock : ∀ {source : Nat} {lastMnem : Option Mnem}, Summary ctx labels
      ((Text.seqs [.act .charge, (ctx.emitInsns labels source b.1.successors b.2 false).1,
        if (ctx.emitInsns labels source b.1.successors b.2 false).2 then .skip
        else ctx.implicitText labels source lastMnem b.1.successors]).inject .pop)
      ((EmitCtx.insnsEdges b.1.successors b.2).seq
        (EmitCtx.implicitEdges lastMnem b.1.successors)) := by
    intro source lastMnem
    have hinsns := @Summary.insns ctx labels source b.1.successors b.2 false
    by_cases hterm : (ctx.emitInsns labels source b.1.successors b.2 false).2 = true
    · have hfalls := (EmitCtx.falls_of_insnsTerminate hb hterm).resolve_left (by decide)
      have hseq : (EmitCtx.insnsEdges b.1.successors b.2).seq
          (EmitCtx.implicitEdges lastMnem b.1.successors) = EmitCtx.insnsEdges b.1.successors b.2 := by
        unfold Edges.seq
        rw [hfalls]
        rfl
      rw [hseq]
      exact hcharge.seq (hinsns.seq_of_stops hfalls)
    · rw [if_neg hterm]
      have himplicit := (@Summary.implicit ctx labels source lastMnem b.1.successors).seq .skip
      rw [Edges.seq_pass] at himplicit
      exact hcharge.seq (hinsns.seq himplicit)
  exact hblock

/-! ### Functions -/

/-- The blocks that control comes to from the first one. -/
inductive Reaches (bs : List (Block × Lowered)) : Block × Lowered → Prop
  | first {b} : bs.head? = some b → Reaches bs b
  | jump {b c l} : Reaches bs b →
      (EmitCtx.blockEdges b).Targets (bs.map fun b => labelFor b.1.entry) l →
      bs.find? (fun b => labelFor b.1.entry = l) = some c → Reaches bs c

/-- No edge of a reached block that is nested in a line leads into an `exclude_range`. -/
def NoBareReturn (ctx : EmitCtx) (bs : List (Block × Lowered)) : Prop :=
  ∀ b, Reaches bs b → ∀ k ∈ (EmitCtx.blockEdges b).guarded,
    ¬ ctx.BareReturn (bs.map fun b => labelFor b.1.entry) k

theorem popsOnce_iff_weight (F : HostFn) :
    PopsOnce F ↔ ∀ n r, F.Leaves popWeight F.start n r → n = 1 := by
  refine ⟨fun h n r hn => (h n r hn).1, fun h n r hn => ⟨h n r hn, fun st hst => ?_⟩⟩
  rw [h n r hn, Function.iterate_one]
  unfold HostStack.pop HostStack.push
  simp [hst]

/-- A stub is its last text. -/
theorem popsOnce_of_summary (h : Summary ctx labels t .stop) : PopsOnce ⟨[], t⟩ := by
  rw [popsOnce_iff_weight, TextFn.leaves_weight_iff (w := 1) (fun b hb => by cases hb)
    (fun b hb => by cases hb)]
  · intro b hb
    induction hb with
    | first h => cases h
    | jump _ _ h _ => cases h
  · intro n e hn
    cases e with
    | next => cases ((h.next n).mp hn).2
    | jump l => exact absurd ((h.jump n l).mp hn).2 (Edges.targets_quiet false l)
    | leave r => exact ⟨(h.leave n r hn).resolve_right fun ⟨k, hk, _⟩ => (by cases hk), r, rfl⟩

theorem summary_hleSpcUpload (pc16 : Nat) : Summary ctx labels (hleSpcUploadText pc16) .stop := by
  have hpop : ∀ r, Summary ctx labels (.seqs [.act .pop, .ret r]) .stop := fun r => .popRet r
  have hancestor : Summary ctx labels (.seqs [.act .resolveAncestor,
      .ite .ancestorFound (.seqs [.act .pop, .ret .ancestor]) .skip]) .pass :=
    (Summary.act rfl).quiet_seq (((hpop _).quiet_ite _ .skip).quiet_seq .skip)
  exact (Summary.act rfl).quiet_seq ((Summary.act rfl).quiet_seq (((hpop _).quiet_ite _ .skip).quiet_seq
    ((hancestor.quiet_ite _ .skip).quiet_seq (.popRet _))))

theorem summary_hleFunc (pc16 : Nat) : Summary ctx labels (hleFuncText pc16) .stop :=
  (Summary.act rfl).quiet_seq (.popRet _)

section Blocks

variable {inp : DecodeInput} {graph : FunctionGraph} {bs : List (Block × Lowered)}

theorem mem_of_reaches {b : Block × Lowered} (hb : Reaches bs b) : b ∈ bs := by
  cases hb with
  | first hfirst => exact List.mem_of_head? hfirst
  | jump _ _ hfind => exact List.mem_of_find?_eq_some hfind

theorem find?_printed (l : Label) : (emitBlocks ctx bs).blockAt l =
    (bs.find? fun b => labelFor b.1.entry = l).map fun b => (labelFor b.1.entry,
      (ctx.emitBlock (bs.map fun b => labelFor b.1.entry) b.1 b.2).inject .pop) := by
  unfold TextFn.blockAt emitBlocks
  dsimp only
  rw [List.find?_map]
  rfl

variable (h : compiledBlocks ctx inp = some (graph, bs))

include h

/-- The block as it is printed. -/
theorem summary_printed {b : Block × Lowered} (hb : b ∈ bs) :
    Summary ctx (bs.map fun b => labelFor b.1.entry)
      ((ctx.emitBlock (bs.map fun b => labelFor b.1.entry) b.1 b.2).inject .pop)
      (EmitCtx.blockEdges b) :=
  summary_block fun _ hp => formed_of_compiledBlocks h hb hp

/-- The text comes through the blocks that the instructions come through. -/
theorem reached_iff (p : Label × HostText) : (emitBlocks ctx bs).Reached popWeight p ↔
    ∃ b, Reaches bs b ∧ p = (labelFor b.1.entry,
      (ctx.emitBlock (bs.map fun b => labelFor b.1.entry) b.1 b.2).inject .pop) := by
  constructor
  · intro hp
    induction hp with
    | @first p hfirst =>
      unfold emitBlocks at hfirst
      dsimp only at hfirst
      rw [List.head?_map] at hfirst
      obtain ⟨b, hb, rfl⟩ := Option.map_eq_some_iff.mp hfirst
      exact ⟨b, .first hb, rfl⟩
    | @jump p q n l _ hends hat ih =>
      obtain ⟨b, hb, rfl⟩ := ih
      have htargets := (((summary_printed h (mem_of_reaches hb)).jump n l).mp hends).2
      rw [find?_printed] at hat
      obtain ⟨c, hc, rfl⟩ := Option.map_eq_some_iff.mp hat
      exact ⟨c, .jump hb htargets hc, rfl⟩
  · rintro ⟨b, hb, rfl⟩
    induction hb with
    | @first b hfirst =>
      refine .first ?_
      unfold emitBlocks
      dsimp only
      rw [List.head?_map, hfirst]
      rfl
    | @jump b c l hb htargets hc ih =>
      have hends := ((summary_printed h (mem_of_reaches hb)).jump 0 l).mpr ⟨rfl, htargets⟩
      exact .jump ih hends (by rw [find?_printed, hc]; rfl)

theorem popsOnce_blocks_iff : PopsOnce (emitBlocks ctx bs) ↔ NoBareReturn ctx bs := by
  have hprinted : ∀ p ∈ (emitBlocks ctx bs).blocks, ∃ b ∈ bs, p = (labelFor b.1.entry,
      (ctx.emitBlock (bs.map fun b => labelFor b.1.entry) b.1 b.2).inject .pop) := by
    intro p hp
    obtain ⟨b, hb, rfl⟩ := List.mem_map.mp hp
    exact ⟨b, hb, rfl⟩
  rw [popsOnce_iff_weight, TextFn.leaves_weight_iff]
  · constructor
    · intro hall b hb k hk hbare
      obtain ⟨r, hr⟩ := (summary_printed h (mem_of_reaches hb)).bare k hk hbare
      cases hall _ ((reached_iff h _).mpr ⟨b, hb, rfl⟩) 0 r hr
    · intro hno p hp n r hn
      obtain ⟨b, hb, rfl⟩ := (reached_iff h p).mp hp
      refine ((summary_printed h (mem_of_reaches hb)).leave n r hn).resolve_right ?_
      rintro ⟨k, hk, hbare⟩
      exact hno b hb k hk hbare
  · intro p hp n hn
    obtain ⟨b, hb, rfl⟩ := hprinted p hp
    have hfalls := (((summary_printed h hb).next n).mp hn).2
    rw [blockEdges_falls] at hfalls
    cases hfalls
  · intro p hp n l hn
    obtain ⟨b, hb, rfl⟩ := hprinted p hp
    exact (((summary_printed h hb).jump n l).mp hn).1
  · intro n e hn
    have hepi : Summary ctx [] (emitBlocks ctx bs).epilogue .stop := .popRet _
    cases e with
    | next => cases ((hepi.next n).mp hn).2
    | jump l => exact absurd ((hepi.jump n l).mp hn).2 (Edges.targets_quiet false l)
    | leave r => exact ⟨(hepi.leave n r hn).resolve_right fun ⟨k, hk, _⟩ => (by cases hk), r, rfl⟩

end Blocks

/-- **Every path of a function pops once exactly when no nested edge of a reached block is a
bare return.** -/
theorem popsOnce_iff (ctx : EmitCtx) (inp : DecodeInput) :
    (∀ F ∈ emitFunction ctx inp, PopsOnce F) ↔
      ∀ p ∈ compiledBlocks ctx inp, NoBareReturn ctx p.2 := by
  constructor
  · rintro hF ⟨g, bs⟩ h
    exact (popsOnce_blocks_iff h).mp (hF _ (emitFunction_of_compiledBlocks h))
  · intro hno F hF
    rcases emitFunction_cases hF with ⟨_, rfl | rfl⟩ | ⟨g, bs, h, rfl⟩
    · exact popsOnce_of_summary (@summary_hleSpcUpload ctx [] _)
    · exact popsOnce_of_summary (@summary_hleFunc ctx [] _)
    · exact (popsOnce_blocks_iff h).mpr (hno _ h)

/-- `BEQ $8005; RTS`, where `$8005` is the entry of another function. -/
def excludedBranch : DecodeInput :=
  { DecodeInput.plain [0xF0, 0x03, 0x60] with siblingEntryPcs := [0x8005] }

/-- `exclude_range 8005 8006`. -/
def excludedCtx : EmitCtx := { EmitCtx.bare with excludeRanges := [(0x8005, 0x8006)] }

/-- The taken edge of the branch is `if (...) { ... return RECOMP_RETURN_NORMAL; }` on one
line, without a pop. -/
theorem not_popsOnce_excludedBranch :
    ∃ F, emitFunction excludedCtx excludedBranch = some F ∧ ¬ PopsOnce F := by
  have hsome : (compiledBlocks excludedCtx excludedBranch).isSome := by decide
  obtain ⟨⟨g, bs⟩, h⟩ := Option.isSome_iff_exists.mp hsome
  have hbare : (compiledBlocks excludedCtx excludedBranch).all fun p => p.2.head?.any fun b =>
      (EmitCtx.blockEdges b).guarded.any fun k => excludedCtx.BareReturn (p.2.map fun b => labelFor b.1.entry) k := by
    decide
  refine ⟨_, emitFunction_of_compiledBlocks h, fun hpops => ?_⟩
  rw [h, Option.all_some, Option.any_eq_true] at hbare
  obtain ⟨b, hfirst, hb⟩ := hbare
  obtain ⟨k, hk, hbare⟩ := List.any_eq_true.mp hb
  exact (popsOnce_blocks_iff h).mp hpops b (.first hfirst) k hk (of_decide_eq_true hbare)

end SnesRecomp.Recompiler
