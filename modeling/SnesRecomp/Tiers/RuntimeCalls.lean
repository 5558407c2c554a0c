import SnesRecomp.Tiers.BridgeExit
import SnesRecomp.Tiers.ReturnFrames

/-!
# Calls through a pointer in RAM

`cpu_dispatch_call_pc` pushes one frame of two bytes, which the compiled body, the interpreted routine
or the bail of `interp_tier_run_call` takes off again.  `neutral_iff`: `S` comes back to its level
exactly if the `RTS` of an interpreted routine raises it there.  It does not where the frame reaches
around the end of the bank, so that the bridge goes on behind the return, nor in emulation mode
outside page one, where the push does not wrap and the `RTS` does.
-/

namespace SnesRecomp.Tiers

open Interp816

variable {M : Type}

/-- The arguments of `cpu_dispatch_call_pc`, and what it runs on. -/
structure RuntimeCall (M : Type) where
  bus : Bus M
  table : DispatchTable M
  stepCap : Nat
  pc24 : Addr
  sourcePc24 : Addr
  cpu : CpuState
  mem : M

/-- In this mode the pull of a frame of two bytes raises `S` to the level before its push. -/
def frameSeen (e : Bool) (S : Word) : Prop := if e then pageOne S = S else 2 ≤ S

theorem frameSeen_iff (e : Bool) (S : Word) :
    frameSeen e S ↔ S - 2 < spUp e (S - 2) 2 ∧ spUp e (S - 2) 2 = S := by
  have hback : S - 2 + 2 = S := BitVec.sub_add_cancel S 2
  cases e with
  | false =>
    rw [show spUp false (S - 2) 2 = S from hback, and_iff_left rfl]
    show 2 ≤ S ↔ S - 2 < S
    bv_omega
  | true =>
    have hup : spUp true (S - 2) 2 = pageOne S := congrArg pageOne hback
    rw [hup]
    show pageOne S = S ↔ _
    refine ⟨fun h => ⟨?_, h⟩, And.right⟩
    have hnat := congrArg BitVec.toNat h
    rw [pageOne_toNat] at hnat
    rw [h]
    bv_omega

namespace RuntimeCall

variable (r : RuntimeCall M)

def result : RecompReturn × CpuState × M :=
  cpuDispatchCallPc r.bus r.table r.stepCap r.pc24 r.sourcePc24 r.cpu r.mem

/-- The state behind the push. -/
def pushed : CpuState × M := pushDispatchFrame r.bus r.sourcePc24 r.cpu r.mem

/-- The compiled body, at its address or in the mirrored bank. -/
def body : Option (Compiled M) := cpuDispatchFind r.table r.pushed.1 (r.pc24 &&& 0xFFFFFF)

/-- The run of the bridge, if there is no body. -/
def run : BridgeRun M where
  bus := r.bus
  table := r.table
  sExit := r.pushed.1.S
  entryPc24 := (r.pc24 &&& 0xFFFFFF) &&& 0xFFFFFF
  cpu := r.pushed.1
  mem := r.pushed.2

/-- Turn `n` is the `RTS` of the routine: it pulls the pushed frame, and `S` has not been above it.
The loop and the core read the same opcode. -/
def ReturnsAt (n : Nat) (b : BridgeState M) : Prop :=
  n < r.stepCap ∧ r.run.before n = some b ∧ SteadyFetch r.bus b ∧ Executes r.bus b 0x60 ∧ r.run.OwnFrame n b

/-- A body that returns normally has taken off the frame; an interpreted routine comes to its return,
or hits the cap. -/
structure Balanced : Prop where
  compiled : ∀ fp, r.body = some fp →
    (fp { r.pushed.1 with hostReturnValid := 2 } r.pushed.2).1 = recompReturnNormal →
      (fp { r.pushed.1 with hostReturnValid := 2 } r.pushed.2).2.1.S = r.pushed.1.S + 2
  interpreted : r.body = none → r.run.result r.stepCap = true → ∃ n b, r.ReturnsAt n b

/-- A normal answer finds `S` at its level, and an interpreted routine has ended with its return. -/
def Neutral : Prop :=
  (r.result.1 = recompReturnNormal → r.result.2.1.S = r.cpu.S) ∧
    (r.body = none → ∀ n b, r.ReturnsAt n b → r.run.EndsAt n)

/-! ### Outcomes -/

section Outcomes

variable {r}

theorem pushed_S : r.pushed.1.S = r.cpu.S - 2 := by
  show r.cpu.S - 1 - 1 = _
  bv_omega

theorem result_of_body {fp : Compiled M} (h : r.body = some fp) :
    r.result = fp { r.pushed.1 with hostReturnValid := 2 } r.pushed.2 := by
  have hfind : cpuDispatchFind r.table (pushDispatchFrame r.bus r.sourcePc24 r.cpu r.mem).1
    (r.pc24 &&& 0xFFFFFF) = some fp := h
  unfold result cpuDispatchCallPc
  simp only [hfind]
  rfl

/-- Without a body: the run of the bridge, or the bail. -/
theorem level_of_run (h : r.body = none) :
    r.result.2.1.S = if r.run.result r.stepCap then
      (interpBridgeRunEx r.bus r.table r.stepCap r.run.entryPc24 r.run.sExit r.run.cpu r.run.mem).2.1.S
      else r.cpu.S := by
  have hfind : cpuDispatchFind r.table (pushDispatchFrame r.bus r.sourcePc24 r.cpu r.mem).1
    (r.pc24 &&& 0xFFFFFF) = none := h
  have hpost : r.pushed.1.S + 2 = r.cpu.S := by
    rw [pushed_S]
    exact BitVec.sub_add_cancel _ _
  have hresult : r.result = interpTierRunCall r.bus r.table r.stepCap (r.pc24 &&& 0xFFFFFF)
      r.pushed.1 r.pushed.2 := by
    unfold result cpuDispatchCallPc
    simp only [hfind]
    rfl
  rw [hresult, ← hpost]
  show (ite (r.run.result r.stepCap = true) _ _ : CpuState).S = _
  split <;> rfl

theorem endsAt_iff {n : Nat} {b : BridgeState M} (h : r.ReturnsAt n b) :
    r.run.EndsAt n ↔ r.run.sExit < spUp b.interp.e r.run.sExit 2 := by
  obtain ⟨-, hbefore, hsteady, hexec, hown⟩ := h
  have hends := r.run.endsAt_iff_sp hbefore hsteady hexec rfl
  rw [hown.1] at hends
  exact hends

/-- Where the bridge sees the return, it leaves `S` to it. -/
theorem level_of_return {n : Nat} {b : BridgeState M} (h : r.ReturnsAt n b)
    (hseen : r.run.sExit < spUp b.interp.e r.run.sExit 2) :
    r.run.result r.stepCap = true ∧
      (interpBridgeRunEx r.bus r.table r.stepCap r.run.entryPc24 r.run.sExit r.run.cpu r.run.mem).2.1.S =
        spUp b.interp.e r.run.sExit 2 := by
  obtain ⟨hlt, hbefore, hsteady, hexec, hown⟩ := h
  have hsp : (executed r.bus b).sp = spUp b.interp.e r.run.sExit 2 := by
    rw [sp_of_isRet (idle_bridgeAfter hbefore) hexec rfl, hown.1]
    rfl
  have hpeek : isRet (peek r.bus b).1 = true := by
    rw [hsteady, hexec.2]
    rfl
  have hstep : bridgeStep r.bus r.table r.run.sExit b =
      .exit ⟨executed r.bus b, syncInterpToCpu (executed r.bus b) b.cpu⟩ := by
    rw [bridgeStep_of_ret hpeek, hsp, if_pos hseen]
  have hloop := bridgeLoop_of_exit hstep n r.stepCap _ hbefore hlt
  have hrun : interpBridgeRunEx r.bus r.table r.stepCap r.run.entryPc24 r.run.sExit r.run.cpu r.run.mem =
      (true, syncInterpToCpu (executed r.bus b) b.cpu, (executed r.bus b).mem) := by
    unfold interpBridgeRunEx
    exact congrArg (fun o => (o.1, o.2.cpu, o.2.interp.mem)) hloop
  rw [hrun]
  exact ⟨congrArg Prod.fst hrun, hsp⟩

end Outcomes

/-- **A call through a pointer in RAM is neutral exactly if the return of an interpreted routine
raises `S` to the level before the push.** -/
theorem neutral_iff (hb : r.Balanced) :
    r.Neutral ↔ (r.body = none → ∀ n b, r.ReturnsAt n b → frameSeen b.interp.e r.cpu.S) := by
  have hexit : r.run.sExit = r.cpu.S - 2 := pushed_S
  constructor
  · rintro ⟨hlevel, hends⟩ hbody n b h
    have hseen := (endsAt_iff h).mp (hends hbody n b h)
    obtain ⟨hreturned, hS⟩ := level_of_return h hseen
    have hnormal : r.result.1 = recompReturnNormal := by
      have hfind : cpuDispatchFind r.table (pushDispatchFrame r.bus r.sourcePc24 r.cpu r.mem).1
        (r.pc24 &&& 0xFFFFFF) = none := hbody
      unfold result cpuDispatchCallPc
      simp only [hfind]
      rfl
    have hkept := hlevel hnormal
    rw [level_of_run hbody, if_pos hreturned, hS] at hkept
    rw [hexit] at hseen hkept
    exact (frameSeen_iff _ _).mpr ⟨hseen, hkept⟩
  · intro h
    have hlands : r.body = none → ∀ n b, r.ReturnsAt n b →
        r.run.sExit < spUp b.interp.e r.run.sExit 2 ∧ spUp b.interp.e r.run.sExit 2 = r.cpu.S := by
      intro hbody n b hret
      rw [hexit]
      exact (frameSeen_iff _ _).mp (h hbody n b hret)
    constructor
    · intro hnormal
      cases hbody : r.body with
      | some fp =>
        rw [result_of_body hbody] at hnormal ⊢
        rw [hb.compiled fp hbody hnormal, pushed_S]
        exact BitVec.sub_add_cancel _ _
      | none =>
        rw [level_of_run hbody]
        split
        next hreturned =>
          obtain ⟨n, b, hret⟩ := hb.interpreted hbody hreturned
          obtain ⟨hseen, hkept⟩ := hlands hbody n b hret
          exact (level_of_return hret hseen).2.trans hkept
        next => rfl
    · intro hbody n b hret
      exact (endsAt_iff hret).mpr (hlands hbody n b hret).1

end RuntimeCall

/-! ### A routine that returns at once -/

/-- A pointer to `RTS`, in the mode and at the level that the call finds. -/
def callRts (emulation : Bool) (S : Word) : RuntimeCall (Mem Unit) where
  bus := cpuBus romOnlyCart silentIo
  table := noBodies
  stepCap := 1
  pc24 := 0x8000
  sourcePc24 := 0x8100
  cpu := { cpuStateInit with emulation := emulation, S := S }
  mem := romMem fun _ => 0x60

/-- The state that the bridge starts in. -/
def callRtsEntered (emulation : Bool) (S : Word) : BridgeState (Mem Unit) :=
  bridgeEnter (callRts emulation S).run.entryPc24 (callRts emulation S).pushed.1 (callRts emulation S).pushed.2

theorem returnsAt_callRts {emulation : Bool} {S : Word}
    (hfetch : fetched (callRts emulation S).bus (callRtsEntered emulation S) = 0x60) :
    (callRts emulation S).ReturnsAt 0 (callRtsEntered emulation S) := by
  refine ⟨Nat.one_pos, rfl, BridgeRun.steadyFetch_cpuBus romOnlyCart silentIo _ fun _ _ _ => rfl,
    ⟨rfl, hfetch⟩, rfl, fun j hj c hc => ?_⟩
  obtain rfl := Nat.le_zero.mp hj
  obtain rfl := Option.some.inj hc
  exact BitVec.le_refl _

theorem balanced_callRts {emulation : Bool} {S : Word}
    (hfetch : fetched (callRts emulation S).bus (callRtsEntered emulation S) = 0x60) :
    (callRts emulation S).Balanced := by
  constructor
  · intro fp h
    have hnone : (callRts emulation S).body = none := cpuDispatchFind_noBodies _ _
    rw [hnone] at h
    cases h
  · exact fun _ _ => ⟨0, _, returnsAt_callRts hfetch⟩

theorem neutral_iff_callRts : (callRts false 0x1FF).Neutral := by
  refine (RuntimeCall.neutral_iff _ (balanced_callRts (by decide))).mpr fun _ _ b _ => ?_
  cases b.interp.e with
  | false =>
    show (2 : Word) ≤ 0x1FF
    decide
  | true =>
    show pageOne 0x1FF = 0x1FF
    decide

/-- In emulation mode at `$0080` the frame is pushed below page one, and the `RTS` ends in it. -/
theorem not_neutral_callRts : (callRts true 0x80).Balanced ∧
    (callRts true 0x80).result.1 = recompReturnNormal ∧ (callRts true 0x80).result.2.1.S = 0x180 :=
  ⟨balanced_callRts (by decide), by decide, by decide⟩

end SnesRecomp.Tiers
