import SnesRecomp.Recompiler.EmitFunction

/-!
# The values of a function

Every value of the IR becomes a local variable of the emitted C function.  `lowerBlocks_assigned`: over
all blocks of a function, in the order of emission, the definitions are the numbers from the first one
on, each exactly once, and an operation only uses what an earlier operation of its own instruction has
defined.  So a jump to a label, which stands in front of an instruction, passes no definition that is
used behind it.
-/

namespace SnesRecomp.Recompiler

/-- The value an operation defines. -/
@[simp] def IROp.defines : IROp → Option Value
  | .read _ _ out | .readReg _ out | .constI _ _ out | .shift _ _ _ out | .pull _ out => some out
  | .alu _ _ _ _ out => out
  | _ => none

/-- The values an operation uses. -/
@[simp] def IROp.uses : IROp → List Value
  | .write _ src _ | .writeReg _ src | .shift _ src _ _ | .bitTest src _ _ | .setNZ src _ |
    .push src _ => [src]
  | .alu _ lhs rhs _ _ => [lhs, rhs]
  | _ => []

/-- Every operation uses what is defined in front of it. -/
def DefinedBefore : List Value → List IROp → Prop
  | _, [] => True
  | seen, op :: ops => (∀ v ∈ op.uses, v ∈ seen) ∧ DefinedBefore (seen ++ op.defines.toList) ops

/-- What the operations of one instruction define. -/
def definitions (ops : List IROp) : List Value := ops.filterMap IROp.defines

/-- The operations define the values from `vid` on, one after the other, and use no others. -/
structure Assigned (vid : Value) (ops : List IROp) : Prop where
  defines : definitions ops = List.range' vid (ops.map IROp.values).sum
  uses : DefinedBefore [] ops

theorem definitions_append (xs ys : List IROp) :
    definitions (xs ++ ys) = definitions xs ++ definitions ys :=
  List.filterMap_append

/-! ### The handlers -/

/-- Operations without values. -/
theorem assigned_of_none {vid : Value} {ops : List IROp}
    (h : ∀ op ∈ ops, op.values = 0 ∧ op.defines = none ∧ op.uses = []) : Assigned vid ops := by
  have huses : ∀ seen, DefinedBefore seen ops := by
    induction ops with
    | nil => exact fun _ => trivial
    | cons op ops ih =>
      obtain ⟨-, -, hnone⟩ := h op List.mem_cons_self
      refine fun seen => ⟨?_, ih (fun p hp => h p (List.mem_cons_of_mem _ hp)) _⟩
      rw [hnone]
      exact List.forall_mem_nil _
  have hdefs : definitions ops = [] := by
    refine List.filterMap_eq_nil_iff.mpr fun op hop => (h op hop).2.1
  have hsum : (ops.map IROp.values).sum = 0 := by
    refine List.sum_eq_zero fun n hn => ?_
    obtain ⟨op, hop, rfl⟩ := List.mem_map.mp hn
    exact (h op hop).1
  exact ⟨by rw [hdefs, hsum]; rfl, huses []⟩

/-- The shape of every handler that names memory. -/
theorem segref_assigned {vid : Value} {mode : Mode} {operand : Nat} {f : SegRef → List IROp}
    {ops : List IROp} (h : (segrefFor mode operand).bind (fun seg => some (f seg)) = some ops)
    (hf : ∀ seg, Assigned vid (f seg)) : Assigned vid ops := by
  obtain ⟨seg, -, hseg⟩ := Option.bind_eq_some_iff.mp h
  obtain rfl := Option.some.inj hseg
  exact hf seg

/-- The operand is one operation, and the value it defines is the one it was given. -/
theorem operandOps_spec {insn : Insn} {width : Width} {out : Value} {ops : List IROp}
    (h : operandOps insn width out = some ops) :
    ∃ op, ops = [op] ∧ op.values = 1 ∧ op.defines = some out ∧ op.uses = [] := by
  unfold operandOps at h
  split at h
  · obtain rfl := Option.some.inj h
    exact ⟨_, rfl, rfl, rfl, rfl⟩
  · obtain ⟨seg, -, hseg⟩ := Option.bind_eq_some_iff.mp h
    obtain rfl := Option.some.inj hseg
    exact ⟨_, rfl, rfl, rfl, rfl⟩

/-- The operand comes first, so what follows may use `vid` and defines the values behind it. -/
theorem assigned_of_operand {insn : Insn} {width : Width} {vid : Value} {pre post : List IROp}
    (h : operandOps insn width vid = some pre)
    (hdefs : definitions post = List.range' (vid + 1) (post.map IROp.values).sum)
    (huses : DefinedBefore [vid] post) : Assigned vid (pre ++ post) := by
  obtain ⟨op, rfl, hvalues, hdefines, hnone⟩ := operandOps_spec h
  constructor
  · rw [definitions_append, hdefs]
    simp only [definitions, List.filterMap_cons, hdefines, List.filterMap_nil, List.map_append,
      List.map_cons, List.map_nil, List.sum_append, List.sum_cons, hvalues, List.sum_nil]
    rw [add_zero, add_comm 1 (List.sum _), List.range'_succ]
    rfl
  · refine ⟨by rw [hnone]; exact List.forall_mem_nil _, ?_⟩
    rw [hdefines]
    exact huses

theorem loadHandler_assigned {reg : Reg} {width : Insn → Width} {insn : Insn} {vid : Value}
    {ops : List IROp} (h : loadHandler reg width insn vid = some ops) : Assigned vid ops := by
  obtain ⟨pre, hpre, hops⟩ := Option.bind_eq_some_iff.mp h
  obtain rfl := Option.some.inj hops
  exact assigned_of_operand hpre rfl (by simp [DefinedBefore, IROp.uses, IROp.defines])

theorem aluHandler_assigned {alu : AluOp} {reg : Reg} {width : Insn → Width} {insn : Insn}
    {vid : Value} {ops : List IROp} (h : aluHandler alu reg width insn vid = some ops) :
    Assigned vid ops := by
  obtain ⟨pre, hpre, hops⟩ := Option.bind_eq_some_iff.mp h
  obtain rfl := Option.some.inj hops
  rw [List.append_assoc]
  by_cases hcmp : alu = .cmp
  · refine assigned_of_operand hpre ?_ ?_
    · simp [hcmp, definitions, IROp.defines, IROp.values, List.range'_succ]
    · simp [hcmp, DefinedBefore, IROp.uses, IROp.defines]
  · refine assigned_of_operand hpre ?_ ?_
    · simp [hcmp, definitions, IROp.defines, IROp.values, List.range'_succ]
    · simp [hcmp, DefinedBefore, IROp.uses, IROp.defines]

theorem hBit_assigned {insn : Insn} {vid : Value} {ops : List IROp} (h : hBit insn vid = some ops) :
    Assigned vid ops := by
  obtain ⟨pre, hpre, hops⟩ := Option.bind_eq_some_iff.mp h
  obtain rfl := Option.some.inj hops
  exact assigned_of_operand hpre rfl (by simp [DefinedBefore, IROp.uses])

theorem shiftHandler_assigned {shift : ShiftOp} {insn : Insn} {vid : Value} {ops : List IROp}
    (h : shiftHandler shift insn vid = some ops) : Assigned vid ops := by
  unfold shiftHandler at h
  dsimp only at h
  split at h
  · obtain rfl := Option.some.inj h
    exact ⟨rfl, by simp [DefinedBefore, IROp.uses, IROp.defines]⟩
  · exact segref_assigned h fun seg =>
      ⟨rfl, by simp [DefinedBefore, IROp.uses, IROp.defines]⟩

theorem incHandler_assigned {delta : Delta} {insn : Insn} {vid : Value} {ops : List IROp}
    (h : incHandler delta insn = some ops) : Assigned vid ops := by
  unfold incHandler at h
  split at h
  · obtain rfl := Option.some.inj h
    exact assigned_of_none (by simp [IROp.values, IROp.defines, IROp.uses])
  · exact segref_assigned h fun seg =>
      assigned_of_none (by simp [IROp.values, IROp.defines, IROp.uses])

theorem hJmp_assigned {insn : Insn} {vid : Value} {ops : List IROp} (h : hJmp insn = some ops) :
    Assigned vid ops := by
  unfold hJmp at h
  split at h
  · obtain rfl := Option.some.inj h
    exact assigned_of_none (by simp [IROp.values, IROp.defines, IROp.uses])
  split at h
  · exact segref_assigned h fun seg =>
      assigned_of_none (by simp [IROp.values, IROp.defines, IROp.uses])
  · obtain rfl := Option.some.inj h
    exact assigned_of_none (by simp [IROp.values, IROp.defines, IROp.uses])

theorem condBranchHandler_assigned {flag : Reg} {takeIf : Bool} {insn : Insn} {vid : Value}
    {ops : List IROp} (h : condBranchHandler flag takeIf insn = some ops) : Assigned vid ops := by
  obtain rfl := Option.some.inj h
  refine assigned_of_none fun op hop => ?_
  obtain rfl := List.mem_singleton.mp hop
  split <;> exact ⟨rfl, rfl, rfl⟩

theorem hJsr_assigned {insn : Insn} {vid : Value} {ops : List IROp} (h : hJsr insn = some ops) :
    Assigned vid ops := by
  unfold hJsr at h
  split at h <;>
  · obtain rfl := Option.some.inj h
    exact assigned_of_none (by simp [IROp.values, IROp.defines, IROp.uses])

/-- One instruction takes the next free values in order. -/
theorem lower_assigned {insn : Insn} {vid : Value} {ops : List IROp}
    (h : lower insn vid = some ops) : Assigned vid ops := by
  cases hm : insn.mnem with rw [lower, hm] at h
  | lda | ldx | ldy => exact loadHandler_assigned h
  | sta | stx | sty | stz =>
    exact segref_assigned h fun seg =>
      ⟨rfl, by simp [DefinedBefore, IROp.uses, IROp.defines]⟩
  | tsb | trb =>
    exact segref_assigned h fun seg =>
      assigned_of_none (by simp [IROp.values, IROp.defines, IROp.uses])
  | adc | sbc | and | ora | eor | cmp | cpx | cpy => exact aluHandler_assigned h
  | asl | lsr | rol | ror => exact shiftHandler_assigned h
  | inc | dec => exact incHandler_assigned h
  | bit => exact hBit_assigned h
  | jmp => exact hJmp_assigned h
  | jsr => exact hJsr_assigned h
  | bpl | bmi | bvc | bvs | bcc | bcs | bne | beq => exact condBranchHandler_assigned h
  | _ =>
    obtain rfl := Option.some.inj h
    exact assigned_of_none (by simp [IROp.values, IROp.defines, IROp.uses])

/-! ### Instructions and blocks -/

/-- What lowered instructions define, in order. -/
def Lowered.definitions (lowered : Lowered) : List Value :=
  lowered.flatMap fun p => Recompiler.definitions p.2

/-- What the blocks of a function define, in order. -/
def blockDefinitions (blocks : List (Block × Lowered)) : List Value :=
  blocks.flatMap fun b => b.2.definitions

/-- Two runs of numbers, one behind the other. -/
theorem range'_append_of_le {a b c : Nat} (hab : a ≤ b) (hbc : b ≤ c) :
    List.range' a (b - a) ++ List.range' b (c - b) = List.range' a (c - a) := by
  have hb : b = a + 1 * (b - a) := by omega
  have hlen : (c - b) + (b - a) = c - a := by omega
  rw [← hlen, Nat.add_comm]
  conv_lhs => rw [hb]
  rw [show a + 1 * (b - a) - a = b - a by omega, show c - (a + 1 * (b - a)) = c - b by omega]
  exact List.range'_append

/-- The instructions of a block take the values from `vid` up to the one handed on. -/
theorem lowerInsns_assigned : ∀ {insns : List DecodedInsn} {vid : Value} {out : Lowered × Value},
    lowerInsns insns vid = some out →
    vid ≤ out.2 ∧ out.1.definitions = List.range' vid (out.2 - vid) ∧
      ∀ p ∈ out.1, DefinedBefore [] p.2 := by
  intro insns
  induction insns with
  | nil =>
    intro vid out h
    obtain rfl := Option.some.inj h
    exact ⟨le_rfl, by simp [Lowered.definitions], fun p hp => by cases hp⟩
  | cons di rest ih =>
    intro vid out h
    obtain ⟨ops, hops, h⟩ := Option.bind_eq_some_iff.mp h
    obtain ⟨tail, htail, h⟩ := Option.bind_eq_some_iff.mp h
    obtain rfl := Option.some.inj h
    obtain ⟨hle, hdefs, huses⟩ := ih htail
    have hone := lower_assigned hops
    refine ⟨le_trans (Nat.le_add_right _ _) hle, ?_, fun p hp => ?_⟩
    · have hcons : Lowered.definitions ((di, ops) :: tail.1) =
          definitions ops ++ tail.1.definitions := rfl
      have hjoin := range'_append_of_le (Nat.le_add_right vid (ops.map IROp.values).sum) hle
      rw [Nat.add_sub_cancel_left] at hjoin
      rw [hcons, hone.defines, hdefs, hjoin]
    · rcases List.mem_cons.mp hp with rfl | hp
      · exact hone.uses
      · exact huses p hp

/-- The counter of the values runs through all the blocks of a function. -/
theorem blocks_assigned : ∀ {blocks : List Block} {vid : Value} {out : List (Block × Lowered)},
    lowerBlocks blocks vid = some out →
    ∃ count, blockDefinitions out = List.range' vid count ∧
      ∀ b ∈ out, ∀ p ∈ b.2, DefinedBefore [] p.2 := by
  intro blocks
  induction blocks with
  | nil =>
    intro vid out h
    obtain rfl := Option.some.inj h
    exact ⟨0, rfl, fun b hb => by cases hb⟩
  | cons b bs ih =>
    intro vid out h
    obtain ⟨here, hhere, h⟩ := Option.bind_eq_some_iff.mp h
    obtain ⟨rest, hrest, h⟩ := Option.bind_eq_some_iff.mp h
    obtain rfl := Option.some.inj h
    obtain ⟨hle, hdefs, huses⟩ := lowerInsns_assigned hhere
    obtain ⟨count, hcount, hrestUses⟩ := ih hrest
    refine ⟨here.2 - vid + count, ?_, fun c hc => ?_⟩
    · have hcons : blockDefinitions ((b, here.1) :: rest) =
          here.1.definitions ++ blockDefinitions rest := rfl
      have hjoin := range'_append_of_le hle (Nat.le_add_right here.2 count)
      rw [Nat.add_sub_cancel_left] at hjoin
      rw [hcons, hdefs, hcount, hjoin, Nat.sub_add_comm hle]
    · rcases List.mem_cons.mp hc with rfl | hc
      · exact huses
      · exact hrestUses c hc

/-- Every compiled function defines each of its values exactly once, from `1` on without a gap, and an
instruction uses no value that its own operations have not defined before. -/
theorem compiledBlocks_assigned {ctx : EmitCtx} {inp : DecodeInput} {g : FunctionGraph}
    {lowered : List (Block × Lowered)} (h : compiledBlocks ctx inp = some (g, lowered)) :
    (∃ count, blockDefinitions lowered = List.range' 1 count) ∧ (blockDefinitions lowered).Nodup ∧
      ∀ b ∈ lowered, ∀ p ∈ b.2, DefinedBefore [] p.2 := by
  obtain ⟨_, hblocks⟩ := compiledBlocks_eq_some h
  obtain ⟨count, hcount, huses⟩ := blocks_assigned hblocks
  exact ⟨⟨count, hcount⟩, hcount ▸ List.nodup_range', huses⟩

/-- `LDA #$12; ADC #$01; RTS`: four values, each of them once. -/
theorem compiledBlocks_assigned_add : ∃ g lowered,
    compiledBlocks .bare (.plain [0xA9, 0x12, 0x69, 0x01, 0x60]) = some (g, lowered) ∧
      (blockDefinitions lowered).Nodup ∧ blockDefinitions lowered = [1, 2, 3, 4] := by
  obtain ⟨⟨g, lowered⟩, hout⟩ := Option.isSome_iff_exists.mp
    (show (compiledBlocks .bare (.plain [0xA9, 0x12, 0x69, 0x01, 0x60])).isSome by decide)
  have hdefs : (compiledBlocks .bare (.plain [0xA9, 0x12, 0x69, 0x01, 0x60])).map
      (fun r => blockDefinitions r.2) = some [1, 2, 3, 4] := by decide
  rw [hout] at hdefs
  exact ⟨g, lowered, hout, (compiledBlocks_assigned hout).2.1, Option.some.inj hdefs⟩

end SnesRecomp.Recompiler
