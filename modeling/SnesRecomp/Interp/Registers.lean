import SnesRecomp.Interp.Frame

/-!
# Registers an operation leaves alone

`A` and `Y` across the operations that do not write them.  Packing and unpacking the flags touches
`Y` only where the index registers are narrow, so `REP` and `SEP` keep `A` alone.
-/

namespace SnesRecomp.Interp816

variable {M : Type} (bus : ByteBus M)

/-- Memory operations that do not write `A`. -/
def memKeepsA : MemOp → Bool
  | .ora | .and | .eor | .adc | .sbc | .lda => false
  | _ => true

/-- Operations that do not write `A`; the pulls, the calls and the block moves are left out. -/
def keepsA : Op → Bool
  | .mem op _ => memKeepsA op
  | .clc | .sec | .cld | .sed | .cli | .sei | .clv | .tax | .tay | .inx | .iny | .dex | .dey
  | .pha | .phx | .phy | .php | .phb | .phk | .phd | .nop | .wdm | .rep | .sep => true
  | _ => false

/-- Operations that write neither `Y` nor the index width. -/
def keepsY : Op → Bool
  | .mem .ldy _ => false
  | .mem _ _ => true
  | .clc | .sec | .cld | .sed | .cli | .sei | .clv | .tax | .inx | .dex
  | .pha | .phx | .phy | .php | .phb | .phk | .phd | .nop | .wdm | .tya => true
  | _ => false

@[simp] theorem setZN_a (value : Word) (byte : Bool) (cpu : Interp816 M) : (setZN value byte cpu).a = cpu.a := by
  cases byte <;> rfl

@[simp] theorem setZN_y (value : Word) (byte : Bool) (cpu : Interp816 M) : (setZN value byte cpu).y = cpu.y := by
  cases byte <;> rfl

@[simp] theorem setFlags_a (val : Byte) (cpu : Interp816 M) : (setFlags val cpu).a = cpu.a := by
  simp [setFlags, clearIndexHigh, forceEmulation, apply_ite Interp816.a]

@[simp] theorem adr_a (mode : AdrMode) (cpu : Interp816 M) : (adr bus mode cpu).2.a = cpu.a := by
  cases mode with
  | imm xFlag =>
    simp only [adr, adrImm]
    split <;> rfl
  | _ => rfl

@[simp] theorem adr_y (mode : AdrMode) (cpu : Interp816 M) : (adr bus mode cpu).2.y = cpu.y := by
  cases mode with
  | imm xFlag =>
    simp only [adr, adrImm]
    split <;> rfl
  | _ => rfl

theorem memOp_a {op : MemOp} (h : memKeepsA op = true) (o : Operand) (cpu : Interp816 M) :
    (memOp bus op o cpu).a = cpu.a := by
  have ha := @apply_ite _ _ (Interp816.a (M := M))
  cases op <;> simp [memKeepsA] at h <;>
    simp [memOp, cmp, cpx, cpy, compare, bit, ldx, ldy, readIndex, sta, stx, sty, stz, store, ror,
      rol, lsr, asl, inc, dec, addMem, tsb, trb, ha, apply_ite Prod.snd, writeWord, readWord, read, write]

theorem memOp_y {op : MemOp} (h : op ≠ .ldy) (o : Operand) (cpu : Interp816 M) :
    (memOp bus op o cpu).y = cpu.y := by
  have hy := @apply_ite _ _ (Interp816.y (M := M))
  cases op <;> simp at h <;>
    simp [memOp, ora, and, eor, adc, adc8, adc16, sbc, sbc8, sbc16, lda, cmp, cpx, cpy, compare, bit,
      ldx, readIndex, sta, stx, sty, stz, store, ror, rol, lsr, asl, inc, dec, addMem, tsb, trb, hy,
      apply_ite Prod.snd, writeWord, readWord, read, write]

theorem exec_a {op : Op} (h : keepsA op = true) (cpu : Interp816 M) : (exec bus op cpu).a = cpu.a := by
  cases op with
  | mem op mode => exact (memOp_a bus h _ _).trans (adr_a bus mode cpu)
  | pha | phx | phy =>
    simp only [exec, pushReg]
    split <;> rfl
  | rep => exact setFlags_a _ _
  | sep => exact setFlags_a _ _
  | _ => first | exact absurd h Bool.false_ne_true | rfl | exact setZN_a _ _ _

theorem exec_y {op : Op} (h : keepsY op = true) (cpu : Interp816 M) : (exec bus op cpu).y = cpu.y := by
  cases op with
  | mem op mode =>
    refine (memOp_y bus (fun hop => ?_) _ _).trans (adr_y bus mode cpu)
    rw [hop] at h
    cases h
  | pha | phx | phy =>
    simp only [exec, pushReg]
    split <;> rfl
  | _ => first | exact absurd h Bool.false_ne_true | rfl | exact setZN_y _ _ _

end SnesRecomp.Interp816
