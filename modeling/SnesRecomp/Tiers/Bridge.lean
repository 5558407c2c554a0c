import SnesRecomp.Interp.Sync
import SnesRecomp.Runtime.Dispatch

/-!
# The interpreter tier

`interp_bridge_run_ex` of `runner/src/snes/interp_bridge.c` and the entry points that
compiled code falls back on.  The loop reads the opcode, lets the core execute it, and
then looks at two kinds of opcode: after a call whose target has a compiled body it
*bounces*, running the body and resuming behind the call; after a return that leaves the
stack pointer above the watermark `sExit` it ends.  Tracing and the coverage manifest are
left out, and with them the landing address, which only the manifest uses.
-/

namespace SnesRecomp.Tiers

open Interp816

variable {M : Type}

/-- The loop's local interpreter, and the state it shares with compiled code. -/
structure BridgeState (M : Type) where
  interp : Interp816 M
  cpu : CpuState

/-- One turn of the loop: on, or `return 1`. -/
inductive BridgeFlow (M : Type)
  | again (b : BridgeState M)
  | exit (b : BridgeState M)

def isCall (op : Byte) : Bool := op == 0x20 || op == 0x22 || op == 0xFC

def callLen (op : Byte) : Addr := if op = 0x22 then 4 else 3

def isRet (op : Byte) : Bool := op == 0x60 || op == 0x6B

/-- `_fs`: the frame a call pushes. -/
def callFrameSize (op : Byte) : Byte := if op = 0x22 then 3 else 2

/-- `(k << 16) | pc`. -/
def pc24 (i : Interp816 M) : Addr := bankAddr i.k i.pc

/-- The bounce into a compiled body, from the state after the call opcode. -/
def bounce (table : DispatchTable M) (op : Byte) (pcBefore : Addr) (i : Interp816 M)
    (cpu : CpuState) : BridgeFlow M :=
  let air := cpuDispatchPcPaired table (pc24 i) (callFrameSize op) cpu i.mem
  let i := syncCpuToInterp air.2.1 { i with mem := air.2.2 }
  if air.1 ≠ recompReturnNormal then .exit ⟨i, syncInterpToCpu i air.2.1⟩
  else
    let ret := (pcBefore + callLen op) &&& 0xFFFFFF
    .again ⟨{ i with k := (ret >>> 16).setWidth 8, pc := ret.setWidth 16 }, air.2.1⟩

/-- The body of the loop of `interp_bridge_run_ex`. -/
def bridgeStep (bus : Bus M) (table : DispatchTable M) (sExit : Word) (b : BridgeState M) :
    BridgeFlow M :=
  let pcBefore := pc24 b.interp
  let op := (bridgeBus bus).read pcBefore b.interp.mem
  let i := runOpcode (bridgeBus bus) { b.interp with mem := op.2 }
  if isCall op.1 then
    let cpu := syncInterpToCpu i b.cpu
    if cpuDispatchHasEntry table cpu (pc24 i) then bounce table op.1 pcBefore i cpu
    else .again ⟨i, cpu⟩
  else if isRet op.1 ∧ sExit < i.sp then .exit ⟨i, syncInterpToCpu i b.cpu⟩
  else .again ⟨i, b.cpu⟩

/-- The loop, for at most `fuel` turns; the flag is the C function's result. -/
def bridgeLoop (bus : Bus M) (table : DispatchTable M) (sExit : Word) :
    Nat → BridgeState M → Bool × BridgeState M
  | 0, b => (false, ⟨b.interp, syncInterpToCpu b.interp b.cpu⟩)
  | fuel + 1, b =>
    match bridgeStep bus table sExit b with
    | .exit b => (true, b)
    | .again b => bridgeLoop bus table sExit fuel b

/-- The state after `n` turns, if none of them ends the loop. -/
def bridgeAfter (bus : Bus M) (table : DispatchTable M) (sExit : Word) :
    Nat → BridgeState M → Option (BridgeState M)
  | 0, b => some b
  | n + 1, b =>
    match bridgeStep bus table sExit b with
    | .exit _ => none
    | .again b => bridgeAfter bus table sExit n b

/-- The loop ends with the first turn that exits, if the fuel lasts until then. -/
theorem bridgeLoop_of_exit {bus : Bus M} {table : DispatchTable M} {sExit : Word}
    {c d : BridgeState M} (hexit : bridgeStep bus table sExit c = .exit d) :
    ∀ (n fuel : Nat) (b : BridgeState M), bridgeAfter bus table sExit n b = some c → n < fuel →
      bridgeLoop bus table sExit fuel b = (true, d) := by
  intro n
  induction n with
  | zero =>
    intro fuel b hafter hlt
    obtain rfl := Option.some.inj hafter
    obtain ⟨fuel, rfl⟩ := Nat.exists_eq_succ_of_ne_zero (Nat.ne_of_gt hlt)
    rw [bridgeLoop, hexit]
  | succ n ih =>
    intro fuel b hafter hlt
    obtain ⟨fuel, rfl⟩ := Nat.exists_eq_succ_of_ne_zero (show fuel ≠ 0 by omega)
    rw [bridgeAfter] at hafter
    rw [bridgeLoop]
    cases hstep : bridgeStep bus table sExit b with
    | exit e =>
      rw [hstep] at hafter
      cases hafter
    | again e =>
      rw [hstep] at hafter
      exact ih fuel e hafter (by omega)

/-- The state the loop starts in. -/
def bridgeEnter (entryPc24 : Addr) (cpu : CpuState) (m : M) : BridgeState M :=
  ⟨{ interpOf cpu m with k := (entryPc24 >>> 16).setWidth 8, pc := entryPc24.setWidth 16 }, cpu⟩

/-- `interp_bridge_run_ex`. -/
def interpBridgeRunEx (bus : Bus M) (table : DispatchTable M) (stepCap : Nat) (entryPc24 : Addr)
    (sExit : Word) (cpu : CpuState) (m : M) : Bool × CpuState × M :=
  let r := bridgeLoop bus table sExit stepCap (bridgeEnter entryPc24 cpu m)
  (r.1, r.2.cpu, r.2.interp.mem)

/-- `interp_bridge_run`: the watermark is the current stack level. -/
def interpBridgeRun (bus : Bus M) (table : DispatchTable M) (stepCap : Nat) (entryPc24 : Addr)
    (cpu : CpuState) (m : M) : Bool × CpuState × M :=
  interpBridgeRunEx bus table stepCap entryPc24 cpu.S cpu m

/-! ### Entry points -/

/-- `cpu_unresolved_abandon_balanced`. -/
def cpuUnresolvedAbandonBalanced (entryS : Word) (hrv : Byte) (cpu : CpuState) :
    RecompReturn × CpuState :=
  let hrv := if hrv = 1 then 0 else hrv
  (recompReturnNormal, { cpu with S := entryS + hrv.setWidth 16 })

/-- A run that ended by a return answers normally, one that hit the cap abandons. -/
def orAbandon (entryS : Word) (hrv : Byte) (r : Bool × CpuState × M) :
    RecompReturn × CpuState × M :=
  if r.1 then (recompReturnNormal, r.2)
  else
    let a := cpuUnresolvedAbandonBalanced entryS hrv r.2.1
    (a.1, a.2, r.2.2)

/-- `interp_tier_dispatch`. -/
def interpTierDispatch (bus : Bus M) (table : DispatchTable M) (stepCap : Nat) (targetPc24 : Addr)
    (cpu : CpuState) (m : M) : RecompReturn × CpuState × M :=
  let r := interpBridgeRun bus table stepCap (targetPc24 &&& 0xFFFFFF) cpu m
  (recompReturnNormal, r.2)

/-- `interp_tier_dispatch_balanced`. -/
def interpTierDispatchBalanced (bus : Bus M) (table : DispatchTable M) (stepCap : Nat)
    (targetPc24 : Addr) (entryS : Word) (hrv : Byte) (cpu : CpuState) (m : M) :
    RecompReturn × CpuState × M :=
  orAbandon entryS hrv
    (interpBridgeRunEx bus table stepCap (targetPc24 &&& 0xFFFFFF) entryS cpu m)

/-- `interp_tier_run_call`: at the cap the unconsumed frame is discarded. -/
def interpTierRunCall (bus : Bus M) (table : DispatchTable M) (stepCap : Nat) (targetPc24 : Addr)
    (cpu : CpuState) (m : M) : RecompReturn × CpuState × M :=
  let postCall := cpu.S + 2
  let r := interpBridgeRunEx bus table stepCap (targetPc24 &&& 0xFFFFFF) cpu.S cpu m
  (recompReturnNormal, if r.1 then r.2.1 else { r.2.1 with S := postCall }, r.2.2)

/-- `interp_tier_dispatch_bank_miss`. -/
def interpTierDispatchBankMiss (bus : Bus M) (table : DispatchTable M) (stepCap : Nat)
    (addrPc24 : Addr) (entryS : Word) (hrv : Byte) (cpu : CpuState) (m : M) :
    RecompReturn × CpuState × M :=
  orAbandon entryS hrv
    (interpBridgeRunEx bus table stepCap (addrPc24 &&& 0xFFFFFF) entryS cpu m)

end SnesRecomp.Tiers
