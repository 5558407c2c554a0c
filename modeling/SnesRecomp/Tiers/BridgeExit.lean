import SnesRecomp.Tiers.BridgeRuns

/-!
# Where a run of the bridge ends

The loop tells the return of its own routine from the returns inside by one comparison:
`S` above the watermark.  Two kinds of frames matter.  The routine's own frame lies just
above the watermark; the others are pushed during the run, by a call or by `PEA`.  The
comparison is right exactly when pulling the own frame raises `S` and no return pulls a
frame that reaches above the watermark (`stopsAtOwnReturn_iff`).  A routine that drops its
return address and then calls something pushes such a frame.
-/

namespace SnesRecomp.Tiers

open Interp816

variable {M : Type}

/-! ### Frames -/

/-- The calls and `PEA`. -/
def pushesFrame (op : Byte) : Bool := isCall op || op == 0xF4

def pushSize (op : Byte) : Word := if op = 0x22 then 3 else 2

def pullSize (op : Byte) : Word := if op = 0x6B then 3 else 2

/-- The opcode the core fetches, after the loop has looked at it. -/
def fetched (bus : Bus M) (b : BridgeState M) : Byte :=
  ((bridgeBus bus).read (pc24 b.interp) (peek bus b).2).1

/-- The loop and the core read the same opcode. -/
def SteadyFetch (bus : Bus M) (b : BridgeState M) : Prop := (peek bus b).1 = fetched bus b

def Executes (bus : Bus M) (b : BridgeState M) (op : Byte) : Prop :=
  b.interp.stopped = false ∧ fetched bus b = op

theorem executed_eq {bus : Bus M} {b : BridgeState M} {op : Byte} (hidle : Idle b.interp)
    (h : Executes bus b op) :
    executed bus b = doOpcode (bridgeBus bus) op
      (readOpcode (bridgeBus bus) { b.interp with mem := (peek bus b).2 }).2 := by
  obtain ⟨hrun, rfl⟩ := h
  have hidle' : Idle { b.interp with mem := (peek bus b).2 } := hidle
  exact runOpcode_eq (bridgeBus bus) hidle' hrun

/-- A push leaves `S` below the frame. -/
theorem sp_of_pushesFrame {bus : Bus M} {b : BridgeState M} {op : Byte} (hidle : Idle b.interp)
    (h : Executes bus b op) (hop : pushesFrame op = true) :
    (executed bus b).sp = spDown b.interp.e b.interp.sp (pushSize op) := by
  rw [executed_eq hidle h]
  simp only [pushesFrame, isCall, Bool.or_eq_true, beq_iff_eq] at hop
  rcases hop with ((rfl | rfl) | rfl) | rfl
  · exact jsr_sp (bridgeBus bus) _
  · exact jsl_sp (bridgeBus bus) _
  · exact jsrIax_sp (bridgeBus bus) _
  · exact pea_sp (bridgeBus bus) _

/-- A return leaves `S` above what it pulls. -/
theorem sp_of_isRet {bus : Bus M} {b : BridgeState M} {op : Byte} (hidle : Idle b.interp)
    (h : Executes bus b op) (hop : isRet op = true) :
    (executed bus b).sp = spUp b.interp.e b.interp.sp (pullSize op) := by
  rw [executed_eq hidle h]
  simp only [isRet, Bool.or_eq_true, beq_iff_eq] at hop
  rcases hop with rfl | rfl
  · exact rts_sp (bridgeBus bus) _
  · exact rtl_sp (bridgeBus bus) _

/-- The top of a frame that is pulled the way it was pushed is `S` before the push. -/
theorem top_of_fits {b c : BridgeState M} {op p : Byte} (hmode : b.interp.e = c.interp.e)
    (hsize : pullSize op = pushSize p)
    (hpage : c.interp.e = true → pageOne c.interp.sp = c.interp.sp) :
    spUp b.interp.e (spDown c.interp.e c.interp.sp (pushSize p)) (pullSize op) = c.interp.sp := by
  rw [hmode, hsize]
  cases he : c.interp.e with
  | false => exact spUp_spDown_native c.interp.sp (pushSize p)
  | true => exact spUp_spDown_emulation (hpage he) (pushSize p)

/-! ### Runs -/

/-- The arguments of `interp_bridge_run_ex`. -/
structure BridgeRun (M : Type) where
  bus : Bus M
  table : DispatchTable M
  sExit : Word
  entryPc24 : Addr
  cpu : CpuState
  mem : M

namespace BridgeRun

variable (r : BridgeRun M)

/-- The state before turn `n`. -/
def before (n : Nat) : Option (BridgeState M) :=
  bridgeAfter r.bus r.table r.sExit n (bridgeEnter r.entryPc24 r.cpu r.mem)

/-- The result under a step cap. -/
def result (stepCap : Nat) : Bool :=
  (interpBridgeRunEx r.bus r.table stepCap r.entryPc24 r.sExit r.cpu r.mem).1

/-- `return 1` in turn `n`. -/
def EndsAt (n : Nat) : Prop := r.result n = false ∧ r.result (n + 1) = true

instance (n : Nat) : Decidable (r.EndsAt n) := inferInstanceAs (Decidable (_ ∧ _))

theorem endsAt_iff {n : Nat} {b : BridgeState M} (h : r.before n = some b) :
    r.EndsAt n ↔ ∃ d, bridgeStep r.bus r.table r.sExit b = .exit d := by
  have hn : r.result n = false :=
    congrArg Prod.fst (bridgeLoop_of_after n h 0)
  have hsucc : r.result (n + 1) = (bridgeLoop r.bus r.table r.sExit 1 b).1 :=
    congrArg Prod.fst (bridgeLoop_of_after n h 1)
  rw [EndsAt, hsucc]
  constructor
  · rintro ⟨_, h1⟩
    obtain ⟨k, c, d, hk, hafter, hexit⟩ := exit_of_bridgeLoop 1 h1
    obtain rfl : k = 0 := by omega
    obtain rfl := Option.some.inj hafter
    exact ⟨d, hexit⟩
  · rintro ⟨d, hexit⟩
    exact ⟨hn, congrArg Prod.fst (bridgeLoop_of_exit hexit 0 1 b rfl Nat.one_pos)⟩

/-- Turn `n` would pull the frame above the watermark, and `S` has not been above it. -/
def OwnFrame (n : Nat) (b : BridgeState M) : Prop :=
  b.interp.sp = r.sExit ∧ ∀ j ≤ n, ∀ c, r.before j = some c → c.interp.sp ≤ r.sExit

/-- Turn `n` would pull the frame that `op` pushed in turn `i`, and `S` has not been above
it since. -/
def PushedFrame (i : Nat) (c : BridgeState M) (op : Byte) (n : Nat) (b : BridgeState M) : Prop :=
  i < n ∧ r.before i = some c ∧ Executes r.bus c op ∧ pushesFrame op = true ∧
    (executed r.bus c).sp = b.interp.sp ∧
      ∀ j, i < j → j ≤ n → ∀ d, r.before j = some d → d.interp.sp ≤ b.interp.sp

/-- The run ends at the return that pulls its own frame, and at no return that pulls a
frame pushed on the way. -/
def StopsAtOwnReturn : Prop :=
  ∀ n b op, r.before n = some b → Executes r.bus b op → isRet op = true →
    (r.OwnFrame n b → r.EndsAt n) ∧ ∀ i c p, r.PushedFrame i c p n b → ¬ r.EndsAt n

/-- Pulling the own frame raises `S`, and a frame pushed on the way that is pulled by a
return has its top at or below the watermark. -/
def FramesBelow : Prop :=
  ∀ n b op, r.before n = some b → Executes r.bus b op → isRet op = true →
    (r.OwnFrame n b → r.sExit < spUp b.interp.e r.sExit (pullSize op)) ∧
      ∀ i c p, r.PushedFrame i c p n b →
        spUp b.interp.e (spDown c.interp.e c.interp.sp (pushSize p)) (pullSize op) ≤ r.sExit

/-- A return ends the run if it leaves `S` above the watermark. -/
theorem endsAt_iff_sp {n : Nat} {b : BridgeState M} {op : Byte} (h : r.before n = some b)
    (hsteady : SteadyFetch r.bus b) (hexec : Executes r.bus b op) (hop : isRet op = true) :
    r.EndsAt n ↔ r.sExit < spUp b.interp.e b.interp.sp (pullSize op) := by
  have hpeek : isRet (peek r.bus b).1 = true := by
    rw [hsteady, hexec.2]
    exact hop
  rw [endsAt_iff r h, bridgeStep_of_ret hpeek, ← sp_of_isRet (idle_bridgeAfter h) hexec hop]
  split
  · rename_i hlt
    exact ⟨fun _ => hlt, fun _ => ⟨_, rfl⟩⟩
  · rename_i hle
    exact ⟨fun ⟨_, hd⟩ => (nomatch hd), fun hlt => absurd hlt hle⟩

/-- The frame's place is known from the state before its push. -/
theorem PushedFrame.sp {r : BridgeRun M} {i n : Nat} {b c : BridgeState M} {p : Byte}
    (h : r.PushedFrame i c p n b) :
    b.interp.sp = spDown c.interp.e c.interp.sp (pushSize p) := by
  obtain ⟨_, hc, hexec, hp, hsp, _⟩ := h
  rw [← hsp, sp_of_pushesFrame (idle_bridgeAfter hc) hexec hp]

/-- **The bridge stops at its own return exactly when no frame is pulled that reaches
above the watermark.** -/
theorem stopsAtOwnReturn_iff (hsteady : ∀ n b, r.before n = some b → SteadyFetch r.bus b) :
    r.StopsAtOwnReturn ↔ r.FramesBelow := by
  constructor
  · intro h n b op hb hexec hop
    obtain ⟨hown, hpushed⟩ := h n b op hb hexec hop
    have hends := endsAt_iff_sp r hb (hsteady n b hb) hexec hop
    refine ⟨fun ho => ?_, fun i c p hp => ?_⟩
    · have hlt := hends.mp (hown ho)
      rw [ho.1] at hlt
      exact hlt
    · rw [← hp.sp]
      exact BitVec.not_lt.mp fun hlt => hpushed i c p hp (hends.mpr hlt)
  · intro h n b op hb hexec hop
    obtain ⟨hown, hpushed⟩ := h n b op hb hexec hop
    have hends := endsAt_iff_sp r hb (hsteady n b hb) hexec hop
    refine ⟨fun ho => ?_, fun i c p hp hend => ?_⟩
    · rw [hends, ho.1]
      exact hown ho
    · have hle := hpushed i c p hp
      rw [← hp.sp] at hle
      exact BitVec.not_lt.mpr hle (hends.mp hend)

/-- Where a read has no effect, loop and core read the same. -/
theorem steadyFetch_of_mem {bus : Bus M} {b : BridgeState M}
    (h : (peek bus b).2 = b.interp.mem) : SteadyFetch bus b := by
  unfold SteadyFetch fetched
  rw [h]
  rfl

/-- On the real bus: outside the register window, or if the registers are plain. -/
theorem steadyFetch_cpuBus {H : Type} (cart : Cart) (io : RegIo H) (b : BridgeState (Mem H))
    (h : isHwReg ((pc24 b.interp >>> 16).setWidth 8) ((pc24 b.interp).setWidth 16) = true →
      ∀ addr m, (io.readReg addr m).2 = m) : SteadyFetch (cpuBus cart io) b :=
  steadyFetch_of_mem (cpuRead8_mem cart io b.interp.mem h)

end BridgeRun

/-! ### A routine that drops its return address -/

/-- `PLA`, `JSR $9000`; `RTS` at `$9000`. -/
def dropThenCall (n : Nat) : Byte :=
  if n = 0 then 0x68 else if n = 1 then 0x20 else if n = 3 then 0x90
  else if n = 0x1000 then 0x60 else 0

/-- Entered as a subroutine, in native mode with a 16-bit accumulator. -/
def dropRun : BridgeRun (Mem Unit) where
  bus := cpuBus romOnlyCart silentIo
  table := noBodies
  sExit := 0x1FD
  entryPc24 := 0x8000
  cpu := { cpuStateInit with emulation := false, mFlag := false, S := 0x1FD }
  mem := romMem dropThenCall

/-- On this run the theorem applies. -/
theorem stopsAtOwnReturn_iff_dropRun : dropRun.StopsAtOwnReturn ↔ dropRun.FramesBelow :=
  BridgeRun.stopsAtOwnReturn_iff dropRun fun _ b _ =>
    BridgeRun.steadyFetch_cpuBus romOnlyCart silentIo b fun _ _ _ => rfl

/-- Before the `JSR` and before the inner `RTS`. -/
def dropCall : BridgeState (Mem Unit) := (dropRun.before 1).get (by decide)

def dropReturn : BridgeState (Mem Unit) := (dropRun.before 2).get (by decide)

theorem before_dropCall : dropRun.before 1 = some dropCall := (Option.some_get _).symm

theorem before_dropReturn : dropRun.before 2 = some dropReturn := (Option.some_get _).symm

/-- The inner `RTS` pulls the frame of the `JSR`. -/
theorem pushedFrame_dropRun : dropRun.PushedFrame 1 dropCall 0x20 2 dropReturn := by
  refine ⟨by decide, before_dropCall, ⟨by decide, by decide⟩, rfl, by decide, ?_⟩
  intro j h1 h2 d hd
  obtain rfl : j = 2 := by omega
  obtain rfl := Option.some.inj (before_dropReturn.symm.trans hd)
  exact BitVec.le_refl _

/-- It ends the run. -/
theorem not_stopsAtOwnReturn_dropRun : ¬ dropRun.StopsAtOwnReturn := by
  intro h
  have hexec : Executes dropRun.bus dropReturn 0x60 := ⟨by decide, by decide⟩
  exact (h 2 dropReturn 0x60 before_dropReturn hexec rfl).2 1 dropCall 0x20 pushedFrame_dropRun
    (by decide)

end SnesRecomp.Tiers
