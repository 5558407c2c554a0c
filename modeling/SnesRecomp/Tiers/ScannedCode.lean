import SnesRecomp.Recompiler.Decode
import SnesRecomp.Tiers.InstructionFetch
import Mathlib.Tactic.MkIffOfInductiveProp

/-!
# The interpreter in scanned code

Several analyses of the decoder go through the code of a routine in one line, with widths of their
own.  `AtCode` says that the interpreter is at an instruction of such a scan, which may be in other
widths as long as the instruction is as long in them; its next step is the operation of that
instruction.
-/

namespace SnesRecomp.Tiers

open Recompiler Interp816

variable {M : Type}

/-- The processor is at the instruction a scan decodes at `pc` in the widths `m` and `x`, and is not
about to take an interrupt. -/
@[mk_iff]
structure AtCode (bus : Bus M) (rom : Rom) (bank pc : Nat) (m x : Bool) (ins : Insn) (i : Interp816 M) :
    Prop where
  read : decodeAt rom bank pc m x = some ins
  fetches : Fetches bus ins i
  pc : i.pc = BitVec.ofNat 16 pc
  k : i.k = BitVec.ofNat 8 bank
  /-- In its own widths it takes the same bytes. -/
  length : ins.length = (opcodeRow ins.opcode).len.length i.mf i.xf
  running : i.stopped = false
  interrupt : (!i.i && i.irqWanted || i.nmiWanted) = false

section AtCode

variable {bus : Bus M} {rom : Rom} {bank pc : Nat} {m x : Bool} {ins : Insn} {i : Interp816 M}

theorem AtCode.decoded (h : AtCode bus rom bank pc m x ins i) :
    decodeInsn rom (loromOffset bank pc) pc bank m x = some ins := by
  have hread := h.read
  rw [decodeAt] at hread
  split at hread
  · cases hread
  · exact hread

theorem AtCode.run (h : AtCode bus rom bank pc m x ins i) :
    runOpcode (bridgeBus bus) i = exec (bridgeBus bus) (opOf ins.opcode) (advance i 1) :=
  runOpcode_of_running h.fetches h.running h.interrupt (length_pos_of_decodeInsn h.decoded)

end AtCode

theorem bridgeBus_write (bus : Bus M) (adr : Addr) (val : Byte) (m : M) :
    (bridgeBus bus).write adr val m = bus.write8 (splitAddr adr).1 (splitAddr adr).2 val m := rfl

/-- A 16-bit address is one of bank zero. -/
theorem splitAddr_setWidth (v : Word) : splitAddr (v.setWidth 32) = (0, v) := by
  refine splitAddr_eq ?_
  have hv := v.isLt
  have h0 : (0 : Byte).toNat = 0 := rfl
  rw [h0, BitVec.toNat_setWidth]
  omega

/-! ### The conditions can be evaluated -/

section Decidable

variable [DecidableEq M] (bus : Bus M) (rom : Rom) (bank pc : Nat) (m x : Bool) (ins : Insn)
  (i : Interp816 M)

instance : Decidable (Fetches bus ins i) :=
  inferInstanceAs (Decidable (∀ n < ins.length,
    bus.read8 i.k (i.pc + BitVec.ofNat 16 n) i.mem = (insnByte ins n, i.mem)))

instance : Decidable (AtCode bus rom bank pc m x ins i) := decidable_of_iff _ (atCode_iff ..).symm

end Decidable

/-! ### A small machine -/

/-- Eight bytes of memory from `base` on in bank zero, beside a cartridge. -/
def ramBus (base : Word) (rom : Rom) : Bus (Fin 8 → Byte) where
  read8 k a m :=
    if h : k = 0 ∧ (a - base).toNat < 8 then (m ⟨(a - base).toNat, h.2⟩, m)
    else (rom.byte (loromOffset k.toNat a.toNat), m)
  read16 _ _ m := (0, m)
  write8 k a v m :=
    if h : k = 0 ∧ (a - base).toNat < 8 then Function.update m ⟨(a - base).toNat, h.2⟩ v else m
  write16 _ _ _ m := m

/-- The processor at `$00:8000` in native mode, with every register zero. -/
def atStart (mem : M) (mf xf : Bool) : Interp816 M where
  mem := mem
  a := 0
  x := 0
  y := 0
  sp := 0
  pc := 0x8000
  dp := 0
  k := 0
  db := 0
  c := false
  z := false
  v := false
  n := false
  i := false
  d := false
  xf := xf
  mf := mf
  e := false
  irqWanted := false
  nmiWanted := false
  stopped := false

end SnesRecomp.Tiers
