import SnesRecomp.Tiers.AluSteps
import SnesRecomp.Tiers.EffectiveAddress

/-!
# The arithmetic instructions in the two tiers

The emitted C of an arithmetic instruction leaves the state the interpreter leaves:
`syncCpuToInterp` of the result is the interpreter's result.  This is equality of whole
states, so besides `A`, `X`, `Y` and the flags it says that nothing else moved.

Both tiers are run on one operand.  `SameOperand` is what that means: the load and the
store of the compiled code's reference are the interpreter's loads and stores at its two
addresses.  A single memory cell (`cellBus`, `cellBytes`) that holds the operand is the
instance for one operand value.
-/

namespace SnesRecomp.Tiers

open Recompiler Interp816

variable {M : Type}

/-! ### The emitted instructions -/

/-- The width of an arithmetic instruction. -/
def aluWidth (insn : Insn) : Width :=
  if insn.mnem = .cpx ∨ insn.mnem = .cpy then widthX insn else widthA insn

/-- Operations that store their result in memory. -/
def isRmw : Op → Bool
  | .mem .ror _ | .mem .rol _ | .mem .lsr _ | .mem .asl _ | .mem .inc _ | .mem .dec _
  | .mem .tsb _ | .mem .trb _ => true
  | _ => false

/-- The operand of `insn` in the compiled code is the operand at `o` in the interpreter. -/
structure SameOperand (bus : Bus M) (bb : ByteBus M) (insn : Insn) (o : Operand) (cpu : CpuState)
    (m : M) : Prop where
  imm : insn.mode = .imm →
    (toCtype (aluWidth insn) (BitVec.ofNat 32 insn.operand), m) = readAt bb (aluWidth insn) o m
  load : ∀ seg, segrefFor insn.mode insn.operand = some seg →
    readSeg bus seg (aluWidth insn) cpu m = readAt bb (aluWidth insn) o m
  store : isRmw (opOf insn.opcode) = true → ∀ seg, segrefFor insn.mode insn.operand = some seg →
    ∀ v m', writeSeg bus seg (aluWidth insn) v cpu m' = writeAt bb (aluWidth insn) o v m'

/-- A reference is addressed through registers, not through flags. -/
theorem writeSeg_flags (bus : Bus M) (seg : SegRef) (w : Width) (v : Word) (cpu : CpuState)
    (n z c : Bool) (m : M) :
    writeSeg bus seg w v { cpu with flagN := n, flagZ := z, flagC := c } m =
      writeSeg bus seg w v cpu m := rfl

section Emitted

variable {bus : Bus M} {bb : ByteBus M} {insn : Insn} {o : Operand} {cpu : CpuState} {m : M}

/-- The operand a load finds. -/
def loaded (bb : ByteBus M) (insn : Insn) (o : Operand) (m : M) : Word × M :=
  readAt bb (aluWidth insn) o m

theorem segrefFor_of_adrModeOf {mode : Mode} {am : AdrMode} (h : adrModeOf mode = some am)
    (operand : Nat) : ∃ seg, segrefFor mode operand = some seg := by
  cases mode <;> first | exact ⟨_, rfl⟩ | cases h

/-- The first operation of an arithmetic instruction loads the operand. -/
theorem operandOps_exec (hsame : SameOperand bus bb insn o cpu m) {am : AdrMode}
    (hmode : insn.mode = .imm ∨ adrModeOf insn.mode = some am) (vid : Value) :
    ∃ load, operandOps insn (aluWidth insn) vid = some [load] ∧
      ∀ vals, execOp bus load ⟨cpu, m, vals⟩ =
        ⟨cpu, (loaded bb insn o m).2, Function.update vals vid (loaded bb insn o m).1⟩ := by
  by_cases himm : insn.mode = .imm
  · refine ⟨.constI insn.operand (aluWidth insn) vid, if_pos himm, fun vals => ?_⟩
    rw [loaded, ← hsame.imm himm]
    rfl
  · obtain ⟨seg, hseg⟩ := segrefFor_of_adrModeOf (hmode.resolve_left himm) insn.operand
    refine ⟨.read seg (aluWidth insn) vid, ?_, fun vals => ?_⟩
    · rw [operandOps, if_neg himm, hseg]
      rfl
    · rw [execOp, hsame.load seg hseg]
      rfl

theorem update_succ (vals : Value → Word) (vid : Value) (v w : Word) :
    Function.update (Function.update vals vid v) (vid + 1) w vid = v := by
  rw [Function.update_of_ne (Nat.succ_ne_self vid).symm, Function.update_self]

/-- The operand, then the register, then the operation and its write-back. -/
theorem aluHandler_exec (hsame : SameOperand bus bb insn o cpu m) {am : AdrMode}
    (hmode : insn.mode = .imm ∨ adrModeOf insn.mode = some am) (op : AluOp) (reg : Reg)
    (width : Insn → Width) (hw : width insn = aluWidth insn) (vid : Value) (vals : Value → Word) :
    ∃ ops, aluHandler op reg width insn vid = some ops ∧
      (execOps bus ops ⟨cpu, m, vals⟩).cpu =
        aluStep op reg (aluWidth insn) (loaded bb insn o m).1 cpu ∧
      (execOps bus ops ⟨cpu, m, vals⟩).mem = (loaded bb insn o m).2 := by
  obtain ⟨load, hload, hexec⟩ := operandOps_exec hsame hmode vid
  by_cases hop : op = .cmp
  · refine ⟨_, by rw [aluHandler, hw, hload, if_pos hop]; rfl, ?_⟩
    simp only [if_pos hop, List.cons_append, List.nil_append, execOps_cons, execOps_nil, hexec]
    simp only [execOp, EmitState.setVal, update_succ, Function.update_self, if_pos hop, aluStep,
      and_self]
  · refine ⟨_, by rw [aluHandler, hw, hload, if_neg hop]; rfl, ?_⟩
    simp only [if_neg hop, List.cons_append, List.nil_append, execOps_cons, execOps_nil, hexec]
    simp only [execOp, EmitState.setVal, update_succ, Function.update_self, if_neg hop, aluStep,
      and_self]

theorem hBit_exec (hsame : SameOperand bus bb insn o cpu m) {am : AdrMode}
    (hmode : insn.mode = .imm ∨ adrModeOf insn.mode = some am) (hw : widthA insn = aluWidth insn)
    (vid : Value) (vals : Value → Word) :
    ∃ ops, hBit insn vid = some ops ∧
      (execOps bus ops ⟨cpu, m, vals⟩).cpu =
        emitBitTest (loaded bb insn o m).1 (aluWidth insn) (insn.mode = .imm) cpu ∧
      (execOps bus ops ⟨cpu, m, vals⟩).mem = (loaded bb insn o m).2 := by
  obtain ⟨load, hload, hexec⟩ := operandOps_exec hsame hmode vid
  refine ⟨_, by rw [hBit, hw, hload]; rfl, ?_⟩
  simp only [List.cons_append, List.nil_append, execOps_cons, execOps_nil, hexec]
  simp only [execOp, Function.update_self, and_self]

/-- Past this point the operand is in memory and the result goes back to it. -/
theorem rmw_segref (hsame : SameOperand bus bb insn o cpu m) {am : AdrMode}
    (hmode : adrModeOf insn.mode = some am) (hrmw : isRmw (opOf insn.opcode) = true) :
    ∃ seg, segrefFor insn.mode insn.operand = some seg ∧ insn.mode ≠ .acc ∧
      readSeg bus seg (aluWidth insn) cpu m = loaded bb insn o m ∧
      ∀ n z c v m', writeSeg bus seg (aluWidth insn) v
        { cpu with flagN := n, flagZ := z, flagC := c } m' = writeAt bb (aluWidth insn) o v m' := by
  obtain ⟨seg, hseg⟩ := segrefFor_of_adrModeOf hmode insn.operand
  refine ⟨seg, hseg, ?_, hsame.load seg hseg, fun n z c v m' => ?_⟩
  · intro hacc
    rw [hacc] at hmode
    cases hmode
  · exact (writeSeg_flags bus seg _ v cpu n z c m').trans (hsame.store hrmw seg hseg v m')

theorem shiftHandler_exec (hsame : SameOperand bus bb insn o cpu m) {am : AdrMode}
    (hmode : adrModeOf insn.mode = some am) (hrmw : isRmw (opOf insn.opcode) = true)
    (op : ShiftOp) (hw : widthA insn = aluWidth insn) (vid : Value) (vals : Value → Word) :
    let r := loaded bb insn o m
    let out := emitShift op r.1 (aluWidth insn) cpu
    ∃ ops, shiftHandler op insn vid = some ops ∧
      (execOps bus ops ⟨cpu, m, vals⟩).cpu = out.2 ∧
      (execOps bus ops ⟨cpu, m, vals⟩).mem = writeAt bb (aluWidth insn) o out.1 r.2 := by
  obtain ⟨seg, hseg, hacc, hload, hstore⟩ := rmw_segref hsame hmode hrmw
  refine ⟨_, by rw [shiftHandler, hw, if_neg hacc, hseg]; rfl, ?_⟩
  simp only [execOps_cons, execOps_nil, execOp, EmitState.setVal, Function.update_self, hload,
    true_and]
  rw [emitShift_eq]
  exact hstore _ _ _ _ _

theorem shiftHandlerA_exec (hmode : insn.mode = .acc) (op : ShiftOp) (vid : Value)
    (vals : Value → Word) :
    let out := emitShift op cpu.A (widthA insn) cpu
    ∃ ops, shiftHandler op insn vid = some ops ∧
      (execOps bus ops ⟨cpu, m, vals⟩).cpu = emitWriteReg .a out.1 out.2 ∧
      (execOps bus ops ⟨cpu, m, vals⟩).mem = m := by
  refine ⟨_, by rw [shiftHandler, if_pos hmode], ?_⟩
  simp only [execOps_cons, execOps_nil, execOp, EmitState.setVal, Function.update_self,
    readRegField, and_self]

theorem incHandler_exec (hsame : SameOperand bus bb insn o cpu m) {am : AdrMode}
    (hmode : adrModeOf insn.mode = some am) (hrmw : isRmw (opOf insn.opcode) = true)
    (delta : Delta) (hw : widthA insn = aluWidth insn) (vals : Value → Word) :
    let r := loaded bb insn o m
    let out := incStep delta (aluWidth insn) r.1 cpu
    ∃ ops, incHandler delta insn = some ops ∧
      (execOps bus ops ⟨cpu, m, vals⟩).cpu = out.2 ∧
      (execOps bus ops ⟨cpu, m, vals⟩).mem = writeAt bb (aluWidth insn) o out.1 r.2 := by
  obtain ⟨seg, hseg, hacc, hload, hstore⟩ := rmw_segref hsame hmode hrmw
  refine ⟨_, by rw [incHandler, hw, if_neg hacc, hseg]; rfl, ?_⟩
  simp only [execOps_cons, execOps_nil, execOp, hload, incStep, true_and]
  exact hstore cpu.flagN cpu.flagZ cpu.flagC _ _

theorem incHandlerA_exec (hmode : insn.mode = .acc) (delta : Delta) (vals : Value → Word) :
    ∃ ops, incHandler delta insn = some ops ∧
      (execOps bus ops ⟨cpu, m, vals⟩).cpu = emitIncReg .a delta cpu ∧
      (execOps bus ops ⟨cpu, m, vals⟩).mem = m :=
  ⟨_, if_pos hmode, rfl, rfl⟩

/-- `TSB` and `TRB`. -/
def bitMemHandler (clear : Bool) (insn : Insn) : Option (List IROp) :=
  (segrefFor insn.mode insn.operand).bind fun seg =>
    some [(if clear then IROp.bitClearMem else IROp.bitSetMem) seg (widthA insn)]

theorem bitMem_exec (hsame : SameOperand bus bb insn o cpu m) {am : AdrMode}
    (hmode : adrModeOf insn.mode = some am) (hrmw : isRmw (opOf insn.opcode) = true) (clear : Bool)
    (hw : widthA insn = aluWidth insn) (vals : Value → Word) :
    let r := loaded bb insn o m
    let out := bitMemStep clear (aluWidth insn) r.1 cpu
    ∃ ops, bitMemHandler clear insn = some ops ∧
      (execOps bus ops ⟨cpu, m, vals⟩).cpu = out.2 ∧
      (execOps bus ops ⟨cpu, m, vals⟩).mem = writeAt bb (aluWidth insn) o out.1 r.2 := by
  obtain ⟨seg, hseg, -, hload, hstore⟩ := rmw_segref hsame hmode hrmw
  refine ⟨_, by rw [bitMemHandler, hseg, hw]; rfl, ?_⟩
  cases clear <;>
    simp only [execOps_cons, execOps_nil, execOp, hload, bitMemStep, if_true, Bool.false_eq_true,
      if_false, true_and] <;>
    exact hstore cpu.flagN cpu.flagZ cpu.flagC _ _

end Emitted

/-! ### The opcodes -/

def isAlu : Op → Bool
  | .mem .lda _ | .mem .ldx _ | .mem .ldy _ | .mem .sta _ | .mem .stx _ | .mem .sty _
  | .mem .stz _ => false
  | .mem _ _ | .asla | .lsra | .rola | .rora | .inca | .deca | .biti => true
  | _ => false

/-- The operand of an operation, fetched; the accumulator forms have none. -/
def fetchOperand (bb : ByteBus M) : Op → Interp816 M → Operand × Interp816 M
  | .mem _ mode, s => adr bb mode s
  | .biti, s => adrImm false s
  | _, s => (⟨0, 0⟩, s)

/-- An operation past the fetch of its operand. -/
def onOperand (bb : ByteBus M) : Op → Operand → Interp816 M → Interp816 M
  | .mem op _, o, s => memOp bb op o s
  | .biti, o, s => bitImm bb o s
  | op, _, s => exec bb op s

theorem exec_eq_onOperand (bb : ByteBus M) (op : Op) (s : Interp816 M) :
    exec bb op s = onOperand bb op (fetchOperand bb op s).1 (fetchOperand bb op s).2 := by
  cases op with
  | biti => exact biti_eq bb s
  | _ => rfl

def mnemOf : MemOp → Mnem
  | .ora => .ora
  | .and => .and
  | .eor => .eor
  | .adc => .adc
  | .sbc => .sbc
  | .cmp => .cmp
  | .cpx => .cpx
  | .cpy => .cpy
  | .bit => .bit
  | .lda => .lda
  | .ldx => .ldx
  | .ldy => .ldy
  | .sta => .sta
  | .stx => .stx
  | .sty => .sty
  | .stz => .stz
  | .ror => .ror
  | .rol => .rol
  | .lsr => .lsr
  | .asl => .asl
  | .inc => .inc
  | .dec => .dec
  | .tsb => .tsb
  | .trb => .trb

/-- The two opcode tables name one operation, in an addressing mode it has. -/
def sameRow (mnem : Mnem) (mode : Mode) : Op → Bool
  | .mem op am =>
    decide (mnem = mnemOf op ∧ (mode = .imm ∨ adrModeOf mode = some am) ∧
      (mode = .imm → isRmw (.mem op am) = false ∧ op ≠ .bit))
  | .asla => decide (mnem = .asl ∧ mode = .acc)
  | .lsra => decide (mnem = .lsr ∧ mode = .acc)
  | .rola => decide (mnem = .rol ∧ mode = .acc)
  | .rora => decide (mnem = .ror ∧ mode = .acc)
  | .inca => decide (mnem = .inc ∧ mode = .acc)
  | .deca => decide (mnem = .dec ∧ mode = .acc)
  | .biti => decide (mnem = .bit ∧ mode = .imm)
  | _ => true

theorem sameRow_all : ∀ opcode : Byte,
    sameRow (opcodeRow opcode).mnem (opcodeRow opcode).mode (opOf opcode) = true := by
  decide +kernel

theorem sameRow_of_decodeInsn {rom : Rom} {offset pc bank : Nat} {m x : Bool} {insn : Insn}
    (h : decodeInsn rom offset pc bank m x = some insn) :
    sameRow insn.mnem insn.mode (opOf insn.opcode) = true ∧ insn.mFlag = m ∧ insn.xFlag = x := by
  simp only [decodeInsn, Option.bind_eq_bind, Option.bind_eq_some_iff, Option.pure_def,
    Option.some.injEq] at h
  obtain ⟨op, -, operand, -, rfl⟩ := h
  exact ⟨sameRow_all op, rfl, rfl⟩

/-! ### Agreement -/

section Agreement

variable {bus : Bus M} {bb : ByteBus M} {insn : Insn} {o : Operand} {cpu : CpuState} {m : M}
  {i : Interp816 M} {vid : Value} {vals : Value → Word}

/-- The emitted lines of `insn` leave what `f` leaves in the interpreter. -/
def EmitsAs (bus : Bus M) (insn : Insn) (cpu : CpuState) (m : M) (i : Interp816 M) (vid : Value)
    (vals : Value → Word) (f : Interp816 M → Interp816 M) : Prop :=
  ∃ ops, lower insn vid = some ops ∧
    f (interpWith cpu i m) =
      interpWith (execOps bus ops ⟨cpu, m, vals⟩).cpu i (execOps bus ops ⟨cpu, m, vals⟩).mem

theorem emitsAs_of {f : Interp816 M → Interp816 M} {cpu' : CpuState} {m' : M}
    {handler : Option (List IROp)} (hlower : lower insn vid = handler)
    (hexec : ∃ ops, handler = some ops ∧ (execOps bus ops ⟨cpu, m, vals⟩).cpu = cpu' ∧
      (execOps bus ops ⟨cpu, m, vals⟩).mem = m')
    (hf : f (interpWith cpu i m) = interpWith cpu' i m') : EmitsAs bus insn cpu m i vid vals f := by
  obtain ⟨ops, hops, hc, hm⟩ := hexec
  exact ⟨ops, hlower.trans hops, by rw [hf, hc, hm]⟩

theorem aluWidth_of_widthA (h : insn.mnem ≠ .cpx ∧ insn.mnem ≠ .cpy) :
    widthA insn = aluWidth insn := by
  rw [aluWidth, if_neg (not_or.mpr h)]

theorem aluWidth_of_widthX (h : insn.mnem = .cpx ∨ insn.mnem = .cpy) :
    widthX insn = aluWidth insn := by
  rw [aluWidth, if_pos h]

theorem emitsAs_alu (hsame : SameOperand bus bb insn o cpu m) {am : AdrMode}
    (hmode : insn.mode = .imm ∨ adrModeOf insn.mode = some am) {op : AluOp} {reg : Reg}
    {width : Insn → Width} (hlower : lower insn vid = aluHandler op reg width insn vid)
    (hw : width insn = aluWidth insn) {byte : Bool} (hbyte : width insn = widthOf byte)
    {f : Interp816 M → Interp816 M}
    (hf : f (interpWith cpu i m) =
      (let r := readAt bb (widthOf byte) o m
       interpWith (aluStep op reg (widthOf byte) r.1 cpu) i r.2)) :
    EmitsAs bus insn cpu m i vid vals f := by
  refine emitsAs_of hlower (aluHandler_exec hsame hmode op reg width hw vid vals) ?_
  rw [loaded, ← hw, hbyte]
  exact hf

theorem emitsAs_shift (hsame : SameOperand bus bb insn o cpu m) {am : AdrMode}
    (hmode : adrModeOf insn.mode = some am) (hrmw : isRmw (opOf insn.opcode) = true) {op : ShiftOp}
    (hlower : lower insn vid = shiftHandler op insn vid) (hw : widthA insn = aluWidth insn)
    (hm : cpu.mFlag = insn.mFlag) {f : Interp816 M → Interp816 M}
    (hf : f (interpWith cpu i m) = shiftMem op bb o (interpWith cpu i m)) :
    EmitsAs bus insn cpu m i vid vals f := by
  refine emitsAs_of hlower (shiftHandler_exec hsame hmode hrmw op hw vid vals) ?_
  rw [hf, loaded, ← hw, widthA, ← hm]
  exact shiftMem_agrees op bb o cpu i m

theorem emitsAs_inc (hsame : SameOperand bus bb insn o cpu m) {am : AdrMode}
    (hmode : adrModeOf insn.mode = some am) (hrmw : isRmw (opOf insn.opcode) = true)
    (delta : Delta) (hlower : lower insn vid = incHandler delta insn)
    (hw : widthA insn = aluWidth insn) (hm : cpu.mFlag = insn.mFlag) :
    EmitsAs bus insn cpu m i vid vals (addMem bb delta.toCInt o) := by
  refine emitsAs_of hlower (incHandler_exec hsame hmode hrmw delta hw vals) ?_
  rw [loaded, ← hw, widthA, ← hm]
  exact addMem_agrees delta bb o cpu i m

theorem emitsAs_bitMem (hsame : SameOperand bus bb insn o cpu m) {am : AdrMode}
    (hmode : adrModeOf insn.mode = some am) (hrmw : isRmw (opOf insn.opcode) = true) (clear : Bool)
    (hlower : lower insn vid = bitMemHandler clear insn)
    (hw : widthA insn = aluWidth insn) {f : Interp816 M → Interp816 M}
    (hf : f (interpWith cpu i m) =
      (let r := readAt bb (widthOf cpu.mFlag) o m
       let out := bitMemStep clear (widthOf cpu.mFlag) r.1 cpu
       interpWith out.2 i (writeAt bb (widthOf cpu.mFlag) o out.1 r.2)))
    (hm : cpu.mFlag = insn.mFlag) : EmitsAs bus insn cpu m i vid vals f := by
  refine emitsAs_of hlower (bitMem_exec hsame hmode hrmw clear hw vals) ?_
  rw [hf, loaded, ← hw, widthA, ← hm]

theorem emitsAs_memOp (hsame : SameOperand bus bb insn o cpu m) (hm : cpu.mFlag = insn.mFlag)
    (hx : cpu.xFlag = insn.xFlag) {op : MemOp} {am : AdrMode} (hop : opOf insn.opcode = .mem op am)
    (hrow : sameRow insn.mnem insn.mode (.mem op am) = true) (halu : isAlu (.mem op am) = true) :
    EmitsAs bus insn cpu m i vid vals (memOp bb op o) := by
  obtain ⟨hmnem, hmode, himm⟩ := of_decide_eq_true hrow
  have hA : widthA insn = widthOf cpu.mFlag := by rw [widthA, hm]
  have hX : widthX insn = widthOf cpu.xFlag := by rw [widthX, hx]
  -- an operation that stores has its operand in memory
  have hmem : isRmw (.mem op am) = true ∨ op = .bit → adrModeOf insn.mode = some am := by
    intro h
    refine hmode.resolve_left fun hi => ?_
    rcases h with h | h
    · rw [(himm hi).1] at h
      cases h
    · exact (himm hi).2 h
  have hw : insn.mnem ≠ .cpx ∧ insn.mnem ≠ .cpy → widthA insn = aluWidth insn := aluWidth_of_widthA
  cases op with
  | lda | ldx | ldy | sta | stx | sty | stz => cases halu
  | ora =>
    exact emitsAs_alu hsame hmode (by rw [lower, hmnem]; rfl) (hw (by rw [hmnem]; decide)) hA
      (or_agrees bb o cpu i m)
  | and =>
    exact emitsAs_alu hsame hmode (by rw [lower, hmnem]; rfl) (hw (by rw [hmnem]; decide)) hA
      (and_agrees bb o cpu i m)
  | eor =>
    exact emitsAs_alu hsame hmode (by rw [lower, hmnem]; rfl) (hw (by rw [hmnem]; decide)) hA
      (xor_agrees bb o cpu i m)
  | adc =>
    exact emitsAs_alu hsame hmode (by rw [lower, hmnem]; rfl) (hw (by rw [hmnem]; decide)) hA
      (add_agrees bb o cpu i m)
  | sbc =>
    exact emitsAs_alu hsame hmode (by rw [lower, hmnem]; rfl) (hw (by rw [hmnem]; decide)) hA
      (sub_agrees bb o cpu i m)
  | cmp =>
    exact emitsAs_alu hsame hmode (by rw [lower, hmnem]; rfl) (hw (by rw [hmnem]; decide)) hA
      (cmp_agrees cpu.mFlag .a bb o cpu i m)
  | cpx =>
    exact emitsAs_alu hsame hmode (by rw [lower, hmnem]; rfl) (aluWidth_of_widthX (Or.inl hmnem)) hX
      (cmp_agrees cpu.xFlag .x bb o cpu i m)
  | cpy =>
    exact emitsAs_alu hsame hmode (by rw [lower, hmnem]; rfl) (aluWidth_of_widthX (Or.inr hmnem)) hX
      (cmp_agrees cpu.xFlag .y bb o cpu i m)
  | bit =>
    have hdp := hmem (Or.inr rfl)
    refine emitsAs_of (by rw [lower, hmnem]; rfl)
      (hBit_exec hsame hmode (hw (by rw [hmnem]; decide)) vid vals) ?_
    have hne : insn.mode ≠ .imm := by
      rintro hi
      rw [hi] at hdp
      cases hdp
    rw [loaded, ← hw (by rw [hmnem]; decide), hA, decide_eq_false hne]
    exact bit_agrees bb o cpu i m
  | asl =>
    exact emitsAs_shift hsame (hmem (Or.inl rfl)) (by rw [hop]; rfl) (by rw [lower, hmnem]; rfl)
      (hw (by rw [hmnem]; decide)) hm (asl_eq bb o _)
  | lsr =>
    exact emitsAs_shift hsame (hmem (Or.inl rfl)) (by rw [hop]; rfl) (by rw [lower, hmnem]; rfl)
      (hw (by rw [hmnem]; decide)) hm (lsr_eq bb o _)
  | rol =>
    exact emitsAs_shift hsame (hmem (Or.inl rfl)) (by rw [hop]; rfl) (by rw [lower, hmnem]; rfl)
      (hw (by rw [hmnem]; decide)) hm (rol_eq bb o _)
  | ror =>
    exact emitsAs_shift hsame (hmem (Or.inl rfl)) (by rw [hop]; rfl) (by rw [lower, hmnem]; rfl)
      (hw (by rw [hmnem]; decide)) hm (ror_eq bb o _)
  | inc =>
    exact emitsAs_inc hsame (hmem (Or.inl rfl)) (by rw [hop]; rfl) .up
      (by rw [lower, hmnem]; rfl) (hw (by rw [hmnem]; decide)) hm
  | dec =>
    exact emitsAs_inc hsame (hmem (Or.inl rfl)) (by rw [hop]; rfl) .down
      (by rw [lower, hmnem]; rfl) (hw (by rw [hmnem]; decide)) hm
  | tsb =>
    exact emitsAs_bitMem hsame (hmem (Or.inl rfl)) (by rw [hop]; rfl) false
      (by rw [lower, hmnem]; rfl) (hw (by rw [hmnem]; decide)) (tsb_agrees bb o cpu i m) hm
  | trb =>
    exact emitsAs_bitMem hsame (hmem (Or.inl rfl)) (by rw [hop]; rfl) true
      (by rw [lower, hmnem]; rfl) (hw (by rw [hmnem]; decide)) (trb_agrees bb o cpu i m) hm

theorem emitsAs_shiftA (hmode : insn.mode = .acc) {op : ShiftOp}
    (hlower : lower insn vid = shiftHandler op insn vid) (hm : cpu.mFlag = insn.mFlag)
    {f : Interp816 M → Interp816 M} (hf : f (interpWith cpu i m) = shiftA op (interpWith cpu i m)) :
    EmitsAs bus insn cpu m i vid vals f := by
  refine emitsAs_of hlower (shiftHandlerA_exec hmode op vid vals) ?_
  rw [hf, widthA, ← hm]
  exact shiftA_agrees op cpu i m

/-- **An arithmetic instruction on one operand.**  The emitted lines and the interpreter
leave one state. -/
theorem emitsAs_onOperand (hsame : SameOperand bus bb insn o cpu m) (hm : cpu.mFlag = insn.mFlag)
    (hx : cpu.xFlag = insn.xFlag)
    (hrow : sameRow insn.mnem insn.mode (opOf insn.opcode) = true)
    (halu : isAlu (opOf insn.opcode) = true) :
    EmitsAs bus insn cpu m i vid vals (onOperand bb (opOf insn.opcode) o) := by
  cases hop : opOf insn.opcode with
  | mem op am => exact emitsAs_memOp hsame hm hx hop (hop ▸ hrow) (hop ▸ halu)
  | asla =>
    obtain ⟨hmnem, hmode⟩ := of_decide_eq_true (hop ▸ hrow)
    exact emitsAs_shiftA hmode (by rw [lower, hmnem]) hm (asla_eq _)
  | lsra =>
    obtain ⟨hmnem, hmode⟩ := of_decide_eq_true (hop ▸ hrow)
    exact emitsAs_shiftA hmode (by rw [lower, hmnem]) hm (lsra_eq _)
  | rola =>
    obtain ⟨hmnem, hmode⟩ := of_decide_eq_true (hop ▸ hrow)
    exact emitsAs_shiftA hmode (by rw [lower, hmnem]) hm (rola_eq _)
  | rora =>
    obtain ⟨hmnem, hmode⟩ := of_decide_eq_true (hop ▸ hrow)
    exact emitsAs_shiftA hmode (by rw [lower, hmnem]) hm (rora_eq _)
  | inca =>
    obtain ⟨hmnem, hmode⟩ := of_decide_eq_true (hop ▸ hrow)
    exact emitsAs_of (by rw [lower, hmnem]) (incHandlerA_exec hmode .up vals)
      (incA_agrees .up cpu i m)
  | deca =>
    obtain ⟨hmnem, hmode⟩ := of_decide_eq_true (hop ▸ hrow)
    refine emitsAs_of (by rw [lower, hmnem]) (incHandlerA_exec hmode .down vals) ?_
    refine Eq.trans ?_ (incA_agrees .down cpu i m)
    exact congrArg (fun a => setA a (interpWith cpu i m)) (BitVec.sub_eq_add_neg cpu.A 1)
  | biti =>
    obtain ⟨hmnem, hmode⟩ := of_decide_eq_true (hop ▸ hrow)
    have hw : widthA insn = aluWidth insn := aluWidth_of_widthA (by rw [hmnem]; decide)
    have himm : insn.mode = .imm ∨ adrModeOf insn.mode = some .dp := Or.inl hmode
    refine emitsAs_of (by rw [lower, hmnem]) (hBit_exec hsame himm hw vid vals) ?_
    rw [loaded, ← hw, widthA, ← hm, decide_eq_true hmode]
    exact bitImm_agrees bb o cpu i m
  | _ => rw [hop] at halu; cases halu

end Agreement

/-! ### One operand value

A memory of a single word: every reference of the compiled code is that word, and the
two addresses of the interpreter's operand are its two bytes. -/

def cellBus : Bus Word where
  read8 _ _ m := (loByte m, m)
  read16 _ _ m := (m, m)
  write8 _ _ v m := mkWord v (hiByte m)
  write16 _ _ v _ := v

def cellBytes (o : Operand) : ByteBus Word where
  read adr m := (if adr = o.low then loByte m else hiByte m, m)
  write adr v m := if adr = o.low then mkWord v (hiByte m) else mkWord (loByte m) v

theorem segrefAddr_cellBus (seg : SegRef) (cpu : CpuState) (m : Word) :
    (segrefAddr cellBus seg cpu m).2 = m := by
  unfold segrefAddr
  cases seg.kind with
  | absBank | long => dsimp only; split <;> rfl
  | _ => rfl

theorem readSeg_cellBus (seg : SegRef) (w : Width) (cpu : CpuState) {o : Operand}
    (ho : o.low ≠ o.high) (m : Word) :
    readSeg cellBus seg w cpu m = readAt (cellBytes o) w o m := by
  have hm := segrefAddr_cellBus seg cpu m
  cases w with
  | byte =>
    simp only [readAt, cellBytes, if_true]
    exact congrArg (fun m => ((loByte m).setWidth 16, m)) hm
  | word =>
    simp only [readAt, cellBytes, if_true, if_neg ho.symm, mkWord_loByte_hiByte]
    exact congrArg (fun m => (m, m)) hm

theorem writeSeg_cellBus (seg : SegRef) (w : Width) (v : Word) (cpu : CpuState) {o : Operand}
    (ho : o.low ≠ o.high) (m : Word) :
    writeSeg cellBus seg w v cpu m = writeAt (cellBytes o) w o v m := by
  cases w with
  | byte =>
    simp only [writeAt, cellBytes, if_true]
    exact congrArg (fun m => mkWord (loByte v) (hiByte m)) (segrefAddr_cellBus seg cpu m)
  | word =>
    simp only [writeSeg, cellBus, writeAt, cellBytes, if_true, if_neg ho.symm, hiByte_mkWord,
      mkWord_loByte_hiByte]

/-- The cell of an instruction: its immediate, or any value. -/
def operandCell (insn : Insn) (v : Word) : Word :=
  if insn.mode = .imm then BitVec.ofNat 16 insn.operand else v

theorem sameOperand_cell (insn : Insn) {o : Operand} (ho : o.low ≠ o.high) (cpu : CpuState)
    (v : Word) : SameOperand cellBus (cellBytes o) insn o cpu (operandCell insn v) where
  imm hmode := by
    rw [operandCell, if_pos hmode]
    cases aluWidth insn with
    | byte =>
      simp only [toCtype, readAt, cellBytes, if_true, loByte,
        BitVec.setWidth_ofNat_of_le (by decide : 8 ≤ 32), BitVec.setWidth_ofNat_of_le (by decide : 8 ≤ 16)]
    | word =>
      simp only [toCtype, readAt, cellBytes, if_true, if_neg ho.symm, mkWord_loByte_hiByte,
        BitVec.setWidth_ofNat_of_le (by decide : 16 ≤ 32)]
  load seg _ := readSeg_cellBus seg _ cpu ho _
  store _ seg _ v m := writeSeg_cellBus seg _ v cpu ho m

/-- **The arithmetic instructions agree** on every operand value, at both widths, in both
decimal modes and in every register and flag state whose widths are the decoder's. -/
theorem emitsAs_cell {rom : Rom} {offset pc bank : Nat} {m x : Bool} {insn : Insn}
    (hdec : decodeInsn rom offset pc bank m x = some insn)
    (halu : isAlu (opOf insn.opcode) = true) {o : Operand} (ho : o.low ≠ o.high) (v : Word)
    (cpu : CpuState) (hm : cpu.mFlag = m) (hx : cpu.xFlag = x) (i : Interp816 Word) (vid : Value)
    (vals : Value → Word) :
    EmitsAs cellBus insn cpu (operandCell insn v) i vid vals
      (onOperand (cellBytes o) (opOf insn.opcode) o) := by
  obtain ⟨hrow, hmF, hxF⟩ := sameRow_of_decodeInsn hdec
  exact emitsAs_onOperand (sameOperand_cell insn ho cpu v) (hm.trans hmF.symm)
    (hx.trans hxF.symm) hrow halu

/-- `SBC #$01` from zero with a borrow, in decimal mode. -/
theorem emitsAs_cell_sbc :
    EmitsAs cellBus ⟨0x8000, 0xE9, .sbc, .imm, 0x01, 2, true, true, false, none⟩
      { cpuStateInit with flagD := true }
      (operandCell ⟨0x8000, 0xE9, .sbc, .imm, 0x01, 2, true, true, false, none⟩ 0)
      (Interp816.zeroed 0) 0 (fun _ => 0)
      (onOperand (cellBytes ⟨0, 1⟩) (.mem .sbc (.imm false)) ⟨0, 1⟩) :=
  emitsAs_cell
    (show decodeInsn ⟨2, fun n => [0xE9, 0x01].getD n 0⟩ 0 0x8000 0 true true =
      some ⟨0x8000, 0xE9, .sbc, .imm, 0x01, 2, true, true, false, none⟩ from rfl)
    rfl (show (⟨0, 1⟩ : Operand).low ≠ (⟨0, 1⟩ : Operand).high by decide) 0
    { cpuStateInit with flagD := true } rfl rfl (Interp816.zeroed 0) 0 (fun _ => 0)

end SnesRecomp.Tiers
