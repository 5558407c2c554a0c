import SnesRecomp.Runtime.CpuState

/-!
# The address dispatch table

The lookups of `runner/src/cpu_state.c` over `g_dispatch_table`.  A table gives, for an
address and the two width flags, the compiled body registered there, if there is one.
Banks `$00-$3F` and `$80-$BF` show the same ROM, so a miss in one is retried in the
other.  The dispatch log is left out.
-/

namespace SnesRecomp

variable {M : Type}

/-- A compiled body, called from the runtime. -/
abbrev Compiled (M : Type) := CpuState → M → RecompReturn × CpuState × M

/-- `g_dispatch_table`: the variant of an address for `m_flag` and `x_flag`. -/
abbrev DispatchTable (M : Type) := BitVec 32 → Bool → Bool → Option (Compiled M)

/-- `_cpu_dispatch_lookup`. -/
def cpuDispatchLookup (table : DispatchTable M) (cpu : CpuState) (pc24 : BitVec 32) :
    Option (Compiled M) :=
  table pc24 cpu.mFlag cpu.xFlag

/-- The banks with a LoROM mirror. -/
def hasMirror (pc24 : BitVec 32) : Bool :=
  let bank : Byte := (pc24 >>> 16).setWidth 8
  decide (bank < 0x40 ∨ (0x80 ≤ bank ∧ bank < 0xC0))

/-- The lookup with the mirror fallback all dispatchers share. -/
def cpuDispatchFind (table : DispatchTable M) (cpu : CpuState) (pc24 : BitVec 32) :
    Option (Compiled M) :=
  let pc24 := pc24 &&& 0xFFFFFF
  match cpuDispatchLookup table cpu pc24 with
  | some fp => some fp
  | none => if hasMirror pc24 then cpuDispatchLookup table cpu (pc24 ^^^ 0x800000) else none

/-- `cpu_dispatch_has_entry`. -/
def cpuDispatchHasEntry (table : DispatchTable M) (cpu : CpuState) (pc24 : BitVec 32) : Bool :=
  (cpuDispatchFind table cpu pc24).isSome

/-- `cpu_dispatch_pc_from`: a miss restores `S`. -/
def cpuDispatchPcFrom (table : DispatchTable M) (pc24 : BitVec 32) (entrySForMissRestore : Word)
    (cpu : CpuState) (m : M) : RecompReturn × CpuState × M :=
  match cpuDispatchFind table cpu pc24 with
  | none => (recompReturnNormal, { cpu with S := entrySForMissRestore }, m)
  | some fp => fp { cpu with hostReturnValid := 0 } m

/-- `cpu_dispatch_pc_paired`. -/
def cpuDispatchPcPaired (table : DispatchTable M) (pc24 : BitVec 32) (frameSize : Byte)
    (cpu : CpuState) (m : M) : RecompReturn × CpuState × M :=
  match cpuDispatchFind table cpu pc24 with
  | none => (recompReturnNormal, cpu, m)
  | some fp => fp { cpu with hostReturnValid := frameSize } m

/-- The table without any body. -/
def noBodies : DispatchTable M := fun _ _ _ => none

theorem cpuDispatchFind_noBodies (cpu : CpuState) (pc24 : BitVec 32) :
    cpuDispatchFind (noBodies : DispatchTable M) cpu pc24 = none := by
  unfold cpuDispatchFind
  dsimp only [cpuDispatchLookup, noBodies]
  split <;> rfl

end SnesRecomp
