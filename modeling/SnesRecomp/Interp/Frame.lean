import SnesRecomp.Interp.Opcodes

/-!
# What an instruction leaves alone

No instruction of the interpreter raises an interrupt line, so a run that starts without
a pending interrupt never takes one.  The calls and returns, and `PEA`, move the stack
pointer by the size of their frame; in emulation mode it stays in page one on the way.
-/

namespace SnesRecomp.Interp816

variable {M : Type} (bus : ByteBus M)

/-! ### Interrupt lines -/

/-- The two states have the same interrupts pending. -/
abbrev SameLines (a b : Interp816 M) : Prop :=
  a.irqWanted = b.irqWanted ∧ a.nmiWanted = b.nmiWanted

@[simp] theorem read_lines (adr : Addr) (cpu : Interp816 M) :
    SameLines (read bus adr cpu).2 cpu := ⟨rfl, rfl⟩

@[simp] theorem write_lines (adr : Addr) (val : Byte) (cpu : Interp816 M) :
    SameLines (write bus adr val cpu) cpu := ⟨rfl, rfl⟩

@[simp] theorem readOpcode_lines (cpu : Interp816 M) :
    SameLines (readOpcode bus cpu).2 cpu := ⟨rfl, rfl⟩

@[simp] theorem readOpcodeWord_lines (cpu : Interp816 M) :
    SameLines (readOpcodeWord bus cpu).2 cpu := ⟨rfl, rfl⟩

@[simp] theorem readWord_lines (adrl adrh : Addr) (cpu : Interp816 M) :
    SameLines (readWord bus adrl adrh cpu).2 cpu := ⟨rfl, rfl⟩

@[simp] theorem writeWord_lines (adrl adrh : Addr) (value : Word) (reversed : Bool)
    (cpu : Interp816 M) : SameLines (writeWord bus adrl adrh value reversed cpu) cpu := by
  cases reversed <;> exact ⟨rfl, rfl⟩

@[simp] theorem setZN_lines (value : Word) (byte : Bool) (cpu : Interp816 M) :
    SameLines (setZN value byte cpu) cpu := by
  cases byte <;> exact ⟨rfl, rfl⟩

@[simp] theorem clearIndexHigh_lines (cpu : Interp816 M) :
    SameLines (clearIndexHigh cpu) cpu := by
  unfold clearIndexHigh
  split <;> exact ⟨rfl, rfl⟩

@[simp] theorem forceEmulation_lines (cpu : Interp816 M) :
    SameLines (forceEmulation cpu) cpu := by
  unfold forceEmulation
  split <;> exact ⟨rfl, rfl⟩

@[simp] theorem setFlags_lines (val : Byte) (cpu : Interp816 M) :
    SameLines (setFlags val cpu) cpu := by
  simp [SameLines, setFlags]

@[simp] theorem doBranch_lines (value : Byte) (check : Bool) (cpu : Interp816 M) :
    SameLines (doBranch value check cpu) cpu := by
  cases check <;> exact ⟨rfl, rfl⟩

@[simp] theorem pullByte_lines (cpu : Interp816 M) :
    SameLines (pullByte bus cpu).2 cpu := ⟨rfl, rfl⟩

@[simp] theorem pushByte_lines (value : Byte) (cpu : Interp816 M) :
    SameLines (pushByte bus value cpu) cpu := ⟨rfl, rfl⟩

@[simp] theorem pullWord_lines (cpu : Interp816 M) :
    SameLines (pullWord bus cpu).2 cpu := ⟨rfl, rfl⟩

@[simp] theorem pushWord_lines (value : Word) (cpu : Interp816 M) :
    SameLines (pushWord bus value cpu) cpu := ⟨rfl, rfl⟩

@[simp] theorem adr_lines (mode : AdrMode) (cpu : Interp816 M) :
    SameLines (adr bus mode cpu).2 cpu := by
  cases mode with
  | imm xFlag =>
    simp only [adr, adrImm]
    split <;> exact ⟨rfl, rfl⟩
  | _ => exact ⟨rfl, rfl⟩

@[simp] theorem memOp_lines (op : MemOp) (o : Operand) (cpu : Interp816 M) :
    SameLines (memOp bus op o cpu) cpu := by
  have hirq := @apply_ite _ _ (Interp816.irqWanted (M := M))
  have hnmi := @apply_ite _ _ (Interp816.nmiWanted (M := M))
  cases op <;>
    simp [SameLines, memOp, ora, and, eor, adc, adc8, adc16, sbc, sbc8, sbc16, cmp, cpx, cpy,
      compare, bit, lda, ldx, ldy, readIndex, sta, stx, sty, stz, store, ror, rol, lsr, asl, inc,
      dec, addMem, tsb, trb, hirq, hnmi, apply_ite Prod.snd]

/-- **No opcode touches the interrupt lines.** -/
theorem exec_lines (op : Op) (cpu : Interp816 M) : SameLines (exec bus op cpu) cpu := by
  have hirq := @apply_ite _ _ (Interp816.irqWanted (M := M))
  have hnmi := @apply_ite _ _ (Interp816.nmiWanted (M := M))
  cases op <;>
    simp [SameLines, exec, branch, brl, jmp, jml, jmpInd, jmlIal, jmpIax, adrIax, jsr, jsl,
      jsrIax, rts, rtl, rti, cop, enterVector, pushReg, pla, plx, ply, pullIndex, plb, pld, plp,
      pea, pei, adrDp, per, setA, setX, setY, asla, lsra, rola, rora, biti, xba, xce, rep, sep,
      blockMove, hirq, hnmi, apply_ite Prod.snd]

/-- No interrupt is pending. -/
def Idle (cpu : Interp816 M) : Prop := cpu.irqWanted = false ∧ cpu.nmiWanted = false

theorem takeInterrupt_of_idle {cpu : Interp816 M} (h : Idle cpu) :
    takeInterrupt bus cpu = cpu := by
  unfold takeInterrupt
  rw [h.1, h.2, Bool.and_false, Bool.or_false]
  exact if_neg Bool.false_ne_true

/-- An instruction, when the core runs and nothing interrupts it. -/
theorem runOpcode_eq {cpu : Interp816 M} (h : Idle cpu) (hrun : cpu.stopped = false) :
    runOpcode bus cpu = doOpcode bus (readOpcode bus cpu).1 (readOpcode bus cpu).2 := by
  unfold runOpcode
  rw [hrun, takeInterrupt_of_idle bus h]
  exact if_neg Bool.false_ne_true

theorem runOpcode_of_stopped {cpu : Interp816 M} (h : cpu.stopped = true) :
    runOpcode bus cpu = cpu := if_pos h

theorem runOpcode_lines {cpu : Interp816 M} (h : Idle cpu) :
    SameLines (runOpcode bus cpu) cpu := by
  cases hs : cpu.stopped with
  | true =>
    rw [runOpcode_of_stopped bus hs]
    exact ⟨rfl, rfl⟩
  | false =>
    rw [runOpcode_eq bus h hs]
    exact exec_lines bus _ (readOpcode bus cpu).2

theorem Idle.runOpcode {cpu : Interp816 M} (h : Idle cpu) : Idle (runOpcode bus cpu) :=
  ⟨(runOpcode_lines bus h).1.trans h.1, (runOpcode_lines bus h).2.trans h.2⟩

/-! ### The stack pointer -/

theorem pageOne_toNat (s : Word) : (pageOne s).toNat = s.toNat % 256 + 256 := by
  have h : (pageOne s).toNat = 2 ^ 8 * 1 ||| s.toNat % 256 := by
    rw [pageOne, BitVec.toNat_or, Nat.or_comm]
    congr 1
    exact Bits.and_0xFF s.toNat
  rw [h, ← Nat.two_pow_add_eq_or_of_lt (by omega) 1]
  omega

theorem pageOne_add (s n : Word) : pageOne (pageOne s + n) = pageOne (s + n) := by
  apply BitVec.eq_of_toNat_eq
  simp only [pageOne_toNat, BitVec.toNat_add]
  omega

theorem pageOne_sub (s n : Word) : pageOne (pageOne s - n) = pageOne (s - n) := by
  apply BitVec.eq_of_toNat_eq
  simp only [pageOne_toNat, BitVec.toNat_sub]
  omega

/-- The stack pointer after pulling `n` bytes. -/
def spUp (e : Bool) (sp n : Word) : Word := if e then pageOne (sp + n) else sp + n

/-- The stack pointer after pushing `n` bytes. -/
def spDown (e : Bool) (sp n : Word) : Word := if e then pageOne (sp - n) else sp - n

theorem spUp_spUp (e : Bool) (sp n k : Word) : spUp e (spUp e sp n) k = spUp e sp (n + k) := by
  cases e with
  | false => exact BitVec.add_assoc sp n k
  | true => exact (pageOne_add (sp + n) k).trans (congrArg pageOne (BitVec.add_assoc sp n k))

theorem spDown_spDown (e : Bool) (sp n k : Word) :
    spDown e (spDown e sp n) k = spDown e sp (n + k) := by
  have hsub : sp - n - k = sp - (n + k) := by
    apply BitVec.eq_of_toNat_eq
    simp only [BitVec.toNat_sub, BitVec.toNat_add]
    omega
  cases e with
  | false => exact hsub
  | true => exact (pageOne_sub (sp - n) k).trans (congrArg pageOne hsub)

/-- Pulling what was pushed in native mode. -/
theorem spUp_spDown_native (sp n : Word) : spUp false (spDown false sp n) n = sp :=
  BitVec.sub_add_cancel sp n

/-- Pulling what was pushed in emulation mode, where `S` is in page one. -/
theorem spUp_spDown_emulation {sp : Word} (h : pageOne sp = sp) (n : Word) :
    spUp true (spDown true sp n) n = sp := by
  refine (pageOne_add (sp - n) n).trans ?_
  rw [BitVec.sub_add_cancel, h]

theorem pullWord_sp (cpu : Interp816 M) : (pullWord bus cpu).2.sp = spUp cpu.e cpu.sp 2 :=
  spUp_spUp cpu.e cpu.sp 1 1

theorem pushWord_sp (value : Word) (cpu : Interp816 M) :
    (pushWord bus value cpu).sp = spDown cpu.e cpu.sp 2 :=
  spDown_spDown cpu.e cpu.sp 1 1

theorem jsr_sp (cpu : Interp816 M) : (jsr bus cpu).sp = spDown cpu.e cpu.sp 2 :=
  pushWord_sp bus _ (readOpcodeWord bus cpu).2

theorem jsrIax_sp (cpu : Interp816 M) : (jsrIax bus cpu).sp = spDown cpu.e cpu.sp 2 :=
  pushWord_sp bus _ (adrIax bus cpu).2

theorem jsl_sp (cpu : Interp816 M) : (jsl bus cpu).sp = spDown cpu.e cpu.sp 3 :=
  (pushWord_sp bus _ _).trans (spDown_spDown cpu.e cpu.sp 1 2)

theorem pea_sp (cpu : Interp816 M) : (pea bus cpu).sp = spDown cpu.e cpu.sp 2 := by
  unfold pea
  dsimp only
  rw [pushWord_sp]
  split <;> rfl

theorem rts_sp (cpu : Interp816 M) : (rts bus cpu).sp = spUp cpu.e cpu.sp 2 := pullWord_sp bus cpu

theorem rtl_sp (cpu : Interp816 M) : (rtl bus cpu).sp = spUp cpu.e cpu.sp 3 := by
  refine Eq.trans ?_ (spUp_spUp cpu.e cpu.sp 2 1)
  exact congrArg (fun sp => spUp cpu.e sp 1) (pullWord_sp bus cpu)

end SnesRecomp.Interp816
