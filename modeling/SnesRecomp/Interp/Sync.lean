import SnesRecomp.Interp.Opcodes

/-!
# The interpreter on the compiled code's state

The first part of `runner/src/snes/interp_bridge.c`: the interpreter's byte bus goes
through `cpu_read8` and `cpu_write8`, and the two register files are copied into each
other field by field.  The program counter lives in the interpreter only, and
`host_return_valid` in `CpuState` only.
-/

namespace SnesRecomp

variable {M : Type}

/-- `bridge_bus_read` and `bridge_bus_write`. -/
def bridgeBus (bus : Bus M) : ByteBus M where
  read adr m := bus.read8 ((adr >>> 16).setWidth 8) (adr.setWidth 16) m
  write adr val m := bus.write8 ((adr >>> 16).setWidth 8) (adr.setWidth 16) val m

/-- `sync_cpu_to_interp`. -/
def syncCpuToInterp (c : CpuState) (i : Interp816 M) : Interp816 M :=
  { i with
    a := c.A, x := c.X, y := c.Y, sp := c.S, dp := c.D, db := c.DB, k := c.PB
    c := c.flagC, z := c.flagZ, v := c.flagV, n := c.flagN, i := c.flagI, d := c.flagD
    mf := c.mFlag, xf := c.xFlag, e := c.emulation }

/-- `sync_interp_to_cpu`. -/
def syncInterpToCpu (i : Interp816 M) (c : CpuState) : CpuState :=
  cpuMirrorsToP
    { c with
      A := i.a, X := i.x, Y := i.y, S := i.sp, D := i.dp, DB := i.db, PB := i.k
      flagC := i.c, flagZ := i.z, flagV := i.v, flagN := i.n, flagI := i.i, flagD := i.d
      mFlag := i.mf, xFlag := i.xf, emulation := i.e }

/-- `memset(&in, 0, sizeof in)`, with the memory in place. -/
def Interp816.zeroed (m : M) : Interp816 M where
  mem := m
  a := 0
  x := 0
  y := 0
  sp := 0
  pc := 0
  dp := 0
  k := 0
  db := 0
  c := false
  z := false
  v := false
  n := false
  i := false
  d := false
  xf := false
  mf := false
  e := false
  irqWanted := false
  nmiWanted := false
  stopped := false

/-- The interpreter a compiled state hands over to. -/
def interpOf (c : CpuState) (m : M) : Interp816 M := syncCpuToInterp c (Interp816.zeroed m)

end SnesRecomp
