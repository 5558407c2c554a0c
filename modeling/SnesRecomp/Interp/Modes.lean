import SnesRecomp.Interp.Frame

/-!
# Widths and the program counter

`Op.plain` are the operations that go on behind themselves: `exec_modes` says that they leave the
widths, the emulation flag and the program bank alone, `exec_pc` that they go past their operand and
no further.
-/

namespace SnesRecomp.Interp816

variable {M : Type} (bus : ByteBus M)

/-- An operation that changes no width and does not jump. -/
def Op.plain : Op → Bool
  | .bpl | .bmi | .bvc | .bvs | .bcc | .bcs | .bne | .beq | .bra | .brl => false
  | .jmp | .jml | .jmpInd | .jmlIal | .jmpIax | .jsr | .jsl | .jsrIax => false
  | .rts | .rtl | .rti | .brk | .cop | .plp | .rep | .sep | .xce | .mvp | .mvn | .wai | .stp => false
  | _ => true

def AdrMode.bytes (m x : Bool) : AdrMode → Nat
  | .imm xFlag => if (xFlag && x) || (!xFlag && m) then 1 else 2
  | .abs | .abx | .aby => 2
  | .abl | .alx => 3
  | _ => 1

/-- The bytes behind the opcode of a plain operation. -/
def Op.bytes (m x : Bool) : Op → Nat
  | .mem _ mode => mode.bytes m x
  | .biti => if m then 1 else 2
  | .pea | .per => 2
  | .pei | .wdm => 1
  | _ => 0

/-! ### Widths -/

/-- The two states have the same widths, and are in one bank. -/
abbrev SameModes (a b : Interp816 M) : Prop :=
  a.mf = b.mf ∧ a.xf = b.xf ∧ a.e = b.e ∧ a.k = b.k ∧ a.stopped = b.stopped

@[simp] theorem read_modes (adr : Addr) (cpu : Interp816 M) :
    SameModes (read bus adr cpu).2 cpu := ⟨rfl, rfl, rfl, rfl, rfl⟩

@[simp] theorem write_modes (adr : Addr) (val : Byte) (cpu : Interp816 M) :
    SameModes (write bus adr val cpu) cpu := ⟨rfl, rfl, rfl, rfl, rfl⟩

@[simp] theorem readOpcode_modes (cpu : Interp816 M) :
    SameModes (readOpcode bus cpu).2 cpu := ⟨rfl, rfl, rfl, rfl, rfl⟩

@[simp] theorem readOpcodeWord_modes (cpu : Interp816 M) :
    SameModes (readOpcodeWord bus cpu).2 cpu := ⟨rfl, rfl, rfl, rfl, rfl⟩

@[simp] theorem readWord_modes (adrl adrh : Addr) (cpu : Interp816 M) :
    SameModes (readWord bus adrl adrh cpu).2 cpu := ⟨rfl, rfl, rfl, rfl, rfl⟩

@[simp] theorem writeWord_modes (adrl adrh : Addr) (value : Word) (reversed : Bool)
    (cpu : Interp816 M) : SameModes (writeWord bus adrl adrh value reversed cpu) cpu := by
  cases reversed <;> exact ⟨rfl, rfl, rfl, rfl, rfl⟩

@[simp] theorem setZN_modes (value : Word) (byte : Bool) (cpu : Interp816 M) :
    SameModes (setZN value byte cpu) cpu := by
  cases byte <;> exact ⟨rfl, rfl, rfl, rfl, rfl⟩

@[simp] theorem clearIndexHigh_modes (cpu : Interp816 M) :
    SameModes (clearIndexHigh cpu) cpu := by
  unfold clearIndexHigh
  split <;> exact ⟨rfl, rfl, rfl, rfl, rfl⟩

@[simp] theorem pullByte_modes (cpu : Interp816 M) :
    SameModes (pullByte bus cpu).2 cpu := ⟨rfl, rfl, rfl, rfl, rfl⟩

@[simp] theorem pushByte_modes (value : Byte) (cpu : Interp816 M) :
    SameModes (pushByte bus value cpu) cpu := ⟨rfl, rfl, rfl, rfl, rfl⟩

@[simp] theorem pullWord_modes (cpu : Interp816 M) :
    SameModes (pullWord bus cpu).2 cpu := ⟨rfl, rfl, rfl, rfl, rfl⟩

@[simp] theorem pushWord_modes (value : Word) (cpu : Interp816 M) :
    SameModes (pushWord bus value cpu) cpu := ⟨rfl, rfl, rfl, rfl, rfl⟩

@[simp] theorem adr_modes (mode : AdrMode) (cpu : Interp816 M) :
    SameModes (adr bus mode cpu).2 cpu := by
  cases mode with
  | imm xFlag =>
    simp only [adr, adrImm]
    split <;> exact ⟨rfl, rfl, rfl, rfl, rfl⟩
  | _ => exact ⟨rfl, rfl, rfl, rfl, rfl⟩

@[simp] theorem memOp_modes (op : MemOp) (o : Operand) (cpu : Interp816 M) :
    SameModes (memOp bus op o cpu) cpu := by
  have hm := @apply_ite _ _ (Interp816.mf (M := M))
  have hx := @apply_ite _ _ (Interp816.xf (M := M))
  have he := @apply_ite _ _ (Interp816.e (M := M))
  have hk := @apply_ite _ _ (Interp816.k (M := M))
  have hs := @apply_ite _ _ (Interp816.stopped (M := M))
  cases op <;>
    simp [SameModes, memOp, ora, and, eor, adc, adc8, adc16, sbc, sbc8, sbc16, cmp, cpx, cpy,
      compare, bit, lda, ldx, ldy, readIndex, sta, stx, sty, stz, store, ror, rol, lsr, asl, inc,
      dec, addMem, tsb, trb, hm, hx, he, hk, hs, apply_ite Prod.snd]

/-- **A plain operation leaves the widths alone.** -/
theorem exec_modes {op : Op} (h : op.plain = true) (cpu : Interp816 M) :
    SameModes (exec bus op cpu) cpu := by
  have hm := @apply_ite _ _ (Interp816.mf (M := M))
  have hx := @apply_ite _ _ (Interp816.xf (M := M))
  have he := @apply_ite _ _ (Interp816.e (M := M))
  have hk := @apply_ite _ _ (Interp816.k (M := M))
  have hs := @apply_ite _ _ (Interp816.stopped (M := M))
  cases op <;> first
    | exact absurd h (by decide)
    | simp [SameModes, exec, pushReg, pla, plx, ply, pullIndex, plb, pld, pea, pei, adrDp, per, setA,
        setX, setY, asla, lsra, rola, rora, biti, xba, hm, hx, he, hk, hs, apply_ite Prod.snd]

/-! ### The program counter -/

@[simp] theorem read_pc (adr : Addr) (cpu : Interp816 M) : (read bus adr cpu).2.pc = cpu.pc := rfl

@[simp] theorem write_pc (adr : Addr) (val : Byte) (cpu : Interp816 M) :
    (write bus adr val cpu).pc = cpu.pc := rfl

@[simp] theorem readOpcode_pc (cpu : Interp816 M) : (readOpcode bus cpu).2.pc = cpu.pc + 1 := rfl

@[simp] theorem readOpcodeWord_pc (cpu : Interp816 M) :
    (readOpcodeWord bus cpu).2.pc = cpu.pc + 2 := BitVec.add_assoc cpu.pc 1 1

@[simp] theorem readWord_pc (adrl adrh : Addr) (cpu : Interp816 M) :
    (readWord bus adrl adrh cpu).2.pc = cpu.pc := rfl

@[simp] theorem writeWord_pc (adrl adrh : Addr) (value : Word) (reversed : Bool)
    (cpu : Interp816 M) : (writeWord bus adrl adrh value reversed cpu).pc = cpu.pc := by
  cases reversed <;> rfl

@[simp] theorem setZN_pc (value : Word) (byte : Bool) (cpu : Interp816 M) :
    (setZN value byte cpu).pc = cpu.pc := by
  cases byte <;> rfl

@[simp] theorem setFlags_pc (val : Byte) (cpu : Interp816 M) : (setFlags val cpu).pc = cpu.pc := by
  simp [setFlags, clearIndexHigh, forceEmulation, apply_ite Interp816.pc]

@[simp] theorem pullByte_pc (cpu : Interp816 M) : (pullByte bus cpu).2.pc = cpu.pc := rfl

@[simp] theorem pushByte_pc (value : Byte) (cpu : Interp816 M) :
    (pushByte bus value cpu).pc = cpu.pc := rfl

@[simp] theorem pullWord_pc (cpu : Interp816 M) : (pullWord bus cpu).2.pc = cpu.pc := rfl

@[simp] theorem pushWord_pc (value : Word) (cpu : Interp816 M) :
    (pushWord bus value cpu).pc = cpu.pc := rfl

/-- An operand is fetched from the bytes behind the opcode. -/
theorem adr_pc (mode : AdrMode) (cpu : Interp816 M) :
    (adr bus mode cpu).2.pc = cpu.pc + BitVec.ofNat 16 (mode.bytes cpu.mf cpu.xf) := by
  cases mode with
  | imm xFlag =>
    simp only [adr, adrImm, AdrMode.bytes]
    split
    · rfl
    · exact BitVec.add_assoc cpu.pc 1 1
  | abs | abx | aby => exact BitVec.add_assoc cpu.pc 1 1
  | abl | alx => exact (BitVec.add_assoc (cpu.pc + 1) 1 1).trans (BitVec.add_assoc cpu.pc 1 2)
  | _ => rfl

@[simp] theorem memOp_pc (op : MemOp) (o : Operand) (cpu : Interp816 M) :
    (memOp bus op o cpu).pc = cpu.pc := by
  have hpc := @apply_ite _ _ (Interp816.pc (M := M))
  cases op <;>
    simp [memOp, ora, and, eor, adc, adc8, adc16, sbc, sbc8, sbc16, cmp, cpx, cpy, compare, bit, lda,
      ldx, ldy, readIndex, sta, stx, sty, stz, store, ror, rol, lsr, asl, inc, dec, addMem, tsb, trb,
      hpc, apply_ite Prod.snd]

/-- **A plain operation goes past its operand.** -/
theorem exec_pc {op : Op} (h : op.plain = true) (cpu : Interp816 M) :
    (exec bus op cpu).pc = cpu.pc + BitVec.ofNat 16 (op.bytes cpu.mf cpu.xf) := by
  have hpc := @apply_ite _ _ (Interp816.pc (M := M))
  cases op with
  | mem op mode => rw [exec, memOp_pc, adr_pc, Op.bytes]
  | biti =>
    rw [exec, biti, Op.bytes]
    split <;> simp
  | _ => first
    | exact absurd h (by decide)
    | simp [exec, Op.bytes, pushReg, pla, plx, ply, pullIndex, plb, pld, pea, pei, adrDp, per, setA,
        setX, setY, asla, lsra, rola, rora, xba, hpc, apply_ite Prod.snd]

/-! ### Flags -/

/-- The packed flags hold the widths. -/
theorem getFlags_widths (cpu : Interp816 M) :
    (getFlags cpu).getLsbD 5 = cpu.mf ∧ (getFlags cpu).getLsbD 4 = cpu.xf := by
  simp only [getFlags, BitVec.getLsbD_or, getLsbD_bitIf]
  simp

/-- In native mode unpacking takes the widths from the byte, and no more of the modes. -/
theorem setFlags_modes {cpu : Interp816 M} (he : cpu.e = false) (val : Byte) :
    (setFlags val cpu).mf = val.getLsbD 5 ∧ (setFlags val cpu).xf = val.getLsbD 4 ∧
      (setFlags val cpu).e = false ∧ (setFlags val cpu).k = cpu.k ∧
      (setFlags val cpu).stopped = cpu.stopped := by
  obtain ⟨hm, hx, he', hk, hs⟩ := clearIndexHigh_modes
    { cpu with
      n := hasBit val 0x80
      v := hasBit val 0x40
      mf := hasBit val 0x20
      xf := hasBit val 0x10
      d := hasBit val 0x08
      i := hasBit val 0x04
      z := hasBit val 0x02
      c := hasBit val 0x01 }
  rw [setFlags, forceEmulation, if_neg (by simp [he]), hm, hx, he', hk, hs]
  exact ⟨hasBit_cpuPM val, hasBit_cpuPX val, he, rfl, rfl⟩

end SnesRecomp.Interp816
