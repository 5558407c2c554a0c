import SnesRecomp.Tiers.DataMovement

/-!
# Straight-line data movement in the two tiers

The compiled lines of a straight-line sequence and the interpreter on the same
instructions leave one state, as long as each instruction is executed in a state that
`StaysInStep` allows:

* `REP`, `SEP` and `XCE` leave 8-bit index registers without high bytes only if they had
  none, and `XCE` into emulation mode needs `S` in page one: the interpreter clears and
  moves these registers, the emitted lines do not;
* a load or store in memory has to be the same access in both tiers (`SameAccess`).

The widths take care of themselves: those the decoder gives each instruction are the
flags at run time.
-/

namespace SnesRecomp.Tiers

open Recompiler Interp816 Runs

variable {M H : Type}

/-! ### What the decoder found -/

section Decoded

variable {rom : Rom} {offset pc bank : Nat} {mF xF : Bool} {insn : Insn}

theorem postState_of_moveMemOp {op : MemOp} (h : moveMemOp insn.mnem = some op) (m x : Bool) :
    postState insn m x [] = (m, x, []) := by
  cases hmnem : insn.mnem <;> rw [hmnem] at h <;> cases h <;> rw [postState, hmnem]

theorem postState_of_moveRegOp {op : Op} (h : moveRegOp insn.mnem = some op) (m x : Bool) :
    postState insn m x [] = (m, x, []) := by
  cases hmnem : insn.mnem <;> rw [hmnem] at h <;> cases h <;> rw [postState, hmnem]

theorem storeValue_none {op : MemOp} (h : storeValue op cpuStateInit = none) (cpu : CpuState) :
    storeValue op cpu = none := by
  cases op <;> first | rfl | cases h

/-- An immediate operand is as wide as the flag of its operation. -/
theorem length_imm (hdec : decodeInsn rom offset pc bank mF xF = some insn) {op : MemOp}
    {xFlag : Bool} (hop : opOf insn.opcode = .mem op (.imm xFlag)) :
    insn.length = if (if xFlag then xF else mF) then 2 else 3 := by
  obtain ⟨-, -, hlen, -⟩ := row_of_decodeInsn hdec
  have h := sameLength_all insn.opcode
  rw [sameLength, hop] at h
  rw [hlen, beq_iff_eq.mp h]
  cases xFlag <;> rfl

end Decoded

/-! ### Runs -/

section Runs

variable {cart : Cart} {io : RegIo H} {rom : Rom} {offset pc bank : Nat} {mF xF : Bool} {insn : Insn}
  {vid : Value} {s : Tandem (Mem H)}

/-- A load or store, in a state that allows it. -/
theorem sameStep_of_memOp (hdec : decodeInsn rom offset pc bank mF xF = some insn) {op : MemOp}
    (hmove : moveMemOp insn.mnem = some op) (hs : Matched mF xF s)
    (hcode : Fetches (cpuBus cart io) insn s.interp) (hstays : StaysInStep cart io (insn, vid) s) :
    ∃ cpu' m', SameStep (cpuBus cart io) insn vid s.compiled.cpu s.interp s.compiled.mem
      s.compiled.vals cpu' m' ∧ KeepsMode s.compiled.cpu cpu' := by
  obtain ⟨hmnem, -, -, hmF, hxF⟩ := row_of_decodeInsn hdec
  have hm : s.compiled.cpu.mFlag = insn.mFlag := hs.m_eq.trans hmF.symm
  have hx : s.compiled.cpu.xFlag = insn.xFlag := hs.x_eq.trans hxF.symm
  obtain ⟨am, hop, himm⟩ := opOf_of_moveMemOp hdec hmove
  rw [hs.inStep] at hcode
  by_cases hisImm : ∃ xFlag, am = .imm xFlag
  · obtain ⟨xFlag, rfl⟩ := hisImm
    obtain ⟨hmode, hflag, hload⟩ := himm xFlag rfl
    have hlen := length_imm hdec hop
    rw [← hs.m_eq, ← hs.x_eq] at hlen
    subst hflag
    exact sameStep_loadOp hmove (storeValue_none hload _) hop hm hx
      (sameLoad_imm hcode hmode rfl hlen)
  · have hmem : ∀ x, am ≠ .imm x := fun x h => hisImm ⟨x, h⟩
    have hmode := adrModeOf_opcodeRow hop hmem
    rw [← mode_of_decodeInsn hdec] at hmode
    have hne : insn.mode ≠ .imm := by
      intro h
      rw [h] at hmode
      cases hmode
    have haccess : SameAccess cart io am (widthOf (widthFlag op s.compiled.cpu))
        (storeValue op s.compiled.cpu) insn.operand s.compiled.cpu s.compiled.mem := by
      rw [StaysInStep] at hstays
      cases h : insn.mnem <;> rw [h] at hmove <;> cases hmove <;> rw [h] at hstays <;>
        exact hstays _ rfl am hmode
    obtain ⟨seg, o, hpair⟩ := operandPair_of_fetches cart io hdec hop hmem hcode
    cases hvalue : storeValue op s.compiled.cpu with
    | none =>
      rw [hvalue] at haccess
      exact sameStep_loadOp hmove hvalue hop hm hx (sameLoad_of_sameAccess hpair hne haccess)
    | some v =>
      rw [hvalue] at haccess
      obtain ⟨m', hstep⟩ := sameStep_storeOp hmove hvalue hop hm hx hpair haccess
      exact ⟨_, m', hstep, rfl, rfl, rfl⟩

/-- Any instruction but `XCE`, in a state that allows it: one step of both tiers, behind
which the flags are the decoder's widths. -/
theorem sameStep_of_move (hdec : decodeInsn rom offset pc bank mF xF = some insn)
    (hmove : isMove insn.mnem = true) (hs : Matched mF xF s)
    (hcode : Fetches (cpuBus cart io) insn s.interp) (hstays : StaysInStep cart io (insn, vid) s) :
    ∃ cpu' m', SameStep (cpuBus cart io) insn vid s.compiled.cpu s.interp s.compiled.mem
      s.compiled.vals cpu' m' ∧ cpu'.emulation = false ∧
      cpu'.mFlag = (postState insn mF xF []).1 ∧ cpu'.xFlag = (postState insn mF xF []).2.1 := by
  cases hmem : moveMemOp insn.mnem with
  | some op =>
    obtain ⟨cpu', m', hstep, hm, hx, he⟩ := sameStep_of_memOp hdec hmem hs hcode hstays
    rw [postState_of_moveMemOp hmem]
    exact ⟨cpu', m', hstep, he.trans hs.native, hm.trans hs.m_eq, hx.trans hs.x_eq⟩
  | none =>
    cases hreg : moveRegOp insn.mnem with
    | some op =>
      obtain ⟨hop, hlen⟩ := opOf_of_moveRegOp hdec hmem hreg
      obtain ⟨cpu', hstep, hm, hx, he⟩ := sameStep_moveRegOp hreg hop hlen
      rw [postState_of_moveRegOp hreg]
      exact ⟨cpu', _, hstep, he.trans hs.native, hm.trans hs.m_eq, hx.trans hs.x_eq⟩
    | none =>
      have hflags : insn.mnem = .rep ∨ insn.mnem = .sep := by
        rw [isMove, hmem, hreg] at hmove
        simpa using hmove
      rw [hs.inStep] at hcode
      rw [StaysInStep] at hstays
      rcases hflags with hmnem | hmnem
      · obtain ⟨hop, hlen⟩ := (opOf_of_flags hdec).1 hmnem
        rw [hmnem] at hstays
        obtain ⟨hm, hx⟩ := modifyP_postState.1 hmnem
        rw [← hs.m_eq, ← hs.x_eq]
        exact ⟨_, _, sameStep_rep hmnem hop hlen hcode hs.native hstays, hs.native, hm, hx⟩
      · obtain ⟨hop, hlen⟩ := (opOf_of_flags hdec).2.1 hmnem
        rw [hmnem] at hstays
        obtain ⟨hm, hx⟩ := modifyP_postState.2 hmnem
        rw [← hs.m_eq, ← hs.x_eq]
        exact ⟨_, _, sameStep_sep hmnem hop hlen hcode hs.native hstays, hs.native, hm, hx⟩

/-- The step of both tiers, from what the instruction does in each; its operand may be encoded
as another number. -/
theorem tandemStep_of_fetched {bus : Bus M} {insn : Insn} {vid : Value} {s : Tandem M} {raw : Nat}
    {cpu' : CpuState} {m' : M} (hs : InStep s) (hr : Uninterrupted s.interp)
    (hcode : Fetches bus { insn with operand := raw } s.interp) (hlen : 0 < insn.length)
    (hstep : SameStep bus insn vid s.compiled.cpu s.interp s.compiled.mem s.compiled.vals cpu' m') :
    (tandemStep bus (insn, vid) s).compiled.cpu = cpu' ∧
      (tandemStep bus (insn, vid) s).compiled.mem = m' ∧
      (tandemStep bus (insn, vid) s).interp = interpWith cpu' (advance s.interp insn.length) m' := by
  obtain ⟨ops, hlower, hcpu, hmem, hexec⟩ := hstep
  have hrun := runOpcode_of_fetches hcode hr hlen
  have hpast : advance s.interp 1 = interpWith s.compiled.cpu (advance s.interp 1) s.compiled.mem :=
    congrArg (fun j => advance j 1) hs
  rw [hpast, hexec] at hrun
  have hcompiled : (tandemStep bus (insn, vid) s).compiled = execOps bus ops s.compiled := by
    simp only [tandemStep, hlower, Option.getD_some]
  exact ⟨hcompiled ▸ hcpu, hcompiled ▸ hmem, hrun⟩

theorem tandemStep_of_sameStep {bus : Bus (Mem H)} {cpu' : CpuState} {m' : Mem H}
    (hs : Matched mF xF s) (hcode : Fetches bus insn s.interp) (hlen : 0 < insn.length)
    (hstep : SameStep bus insn vid s.compiled.cpu s.interp s.compiled.mem s.compiled.vals cpu' m') :
    (tandemStep bus (insn, vid) s).compiled.cpu = cpu' ∧
      (tandemStep bus (insn, vid) s).compiled.mem = m' ∧
      (tandemStep bus (insn, vid) s).interp = interpWith cpu' (advance s.interp insn.length) m' :=
  tandemStep_of_fetched hs.inStep hs.running hcode hlen hstep

theorem matched_step (hdec : decodeInsn rom offset pc bank mF xF = some insn)
    (hmove : isMove insn.mnem = true) (hs : Matched mF xF s)
    (hcode : Fetches (cpuBus cart io) insn s.interp) (hstays : StaysInStep cart io (insn, vid) s) :
    Matched (postState insn mF xF []).1 (postState insn mF xF []).2.1
      (tandemStep (cpuBus cart io) (insn, vid) s) := by
  obtain ⟨cpu', m', hstep, he, hm, hx⟩ := sameStep_of_move hdec hmove hs hcode hstays
  obtain ⟨hcpu, hmem, hinterp⟩ :=
    tandemStep_of_sameStep hs hcode (length_pos_of_decodeInsn hdec) hstep
  refine ⟨?_, hcpu ▸ he, hcpu ▸ hm, hcpu ▸ hx, ?_⟩
  · rw [InStep, hcpu, hmem, hinterp]
    rfl
  · rw [hinterp]
    exact ⟨hs.running.stopped, hs.running.irq, hs.running.nmi⟩

theorem inStep_xce (hdec : decodeInsn rom offset pc bank mF xF = some insn)
    (hxce : insn.mnem = .xce) (hs : Matched mF xF s)
    (hcode : Fetches (cpuBus cart io) insn s.interp) (hstays : StaysInStep cart io (insn, vid) s) :
    InStep (tandemStep (cpuBus cart io) (insn, vid) s) := by
  obtain ⟨hop, hlen⟩ := (opOf_of_flags hdec).2.2 hxce
  rw [StaysInStep, hxce] at hstays
  obtain ⟨hcpu, hmem, hinterp⟩ := tandemStep_of_sameStep hs hcode (length_pos_of_decodeInsn hdec)
    (sameStep_xce hxce hop hlen hstays)
  rw [InStep, hcpu, hmem, hinterp]
  rfl

/-- The tiers are in step at the end of every run whose instructions are executed in states
that allow them. -/
theorem inStep_of_straight {m x : Bool} {insns : List (Insn × Value)}
    (h : Straight rom bank m x insns) (s : Tandem (Mem H)) (hs : Matched m x s)
    (hcode : StepsMeet (tandemStep (cpuBus cart io))
      (fun l s => Fetches (cpuBus cart io) l.1 s.interp) insns s)
    (hstays : StepsMeet (tandemStep (cpuBus cart io)) (StaysInStep cart io) insns s) :
    InStep (final (tandemStep (cpuBus cart io)) insns s) := by
  induction h generalizing s with
  | nil m x => exact hs.inStep
  | cons decoded move tail ih =>
    exact ih _ (matched_step decoded move hs hcode.1 hstays.1) hcode.2 hstays.2
  | xce decoded last => exact inStep_xce decoded last hs hcode.1 hstays.1

end Runs

/-! ### Branches behind a sequence -/

/-- The operation of a conditional branch. -/
def branchOp : Mnem → Option Op
  | .bpl => some .bpl
  | .bmi => some .bmi
  | .bvc => some .bvc
  | .bvs => some .bvs
  | .bcc => some .bcc
  | .bcs => some .bcs
  | .bne => some .bne
  | .beq => some .beq
  | _ => none

theorem branchOp_all : ∀ opcode : Byte, ∀ op ∈ branchOp (opcodeRow opcode).mnem,
    opOf opcode = op := by decide +kernel

/-- Every conditional branch is decided alike: the interpreter branches when the flag the
compiled code tests has the value it jumps on. -/
def BranchesAlike (bus : Bus M) (s : Tandem M) : Prop :=
  ∀ (rom : Rom) (offset pc bank : Nat) (m x : Bool) (insn : Insn) (vid : Value),
    decodeInsn rom offset pc bank m x = some insn → isCondBranch insn.mnem = true →
    ∃ flag takeIf, lower insn vid = some [.condBranch flag takeIf] ∧
      exec (bridgeBus bus) (opOf insn.opcode) s.interp =
        branch (bridgeBus bus) ((readRegField s.compiled.cpu flag != 0) == takeIf) s.interp

theorem branchesAlike_of_inStep (bus : Bus M) {s : Tandem M} (hs : InStep s) :
    BranchesAlike bus s := by
  intro rom offset pc bank m x insn vid hdec hcond
  have hn : s.interp.n = s.compiled.cpu.flagN := congrArg Interp816.n hs
  have hv : s.interp.v = s.compiled.cpu.flagV := congrArg Interp816.v hs
  have hz : s.interp.z = s.compiled.cpu.flagZ := congrArg Interp816.z hs
  have hc : s.interp.c = s.compiled.cpu.flagC := congrArg Interp816.c hs
  have hfold : insn.constZFoldUnconditional = false := by
    simp only [decodeInsn, Option.bind_eq_bind, Option.bind_eq_some_iff, Option.pure_def,
      Option.some.injEq] at hdec
    obtain ⟨op, -, operand, -, rfl⟩ := hdec
    rfl
  have hlower : ∀ flag takeIf, condBranchHandler flag takeIf insn = some [.condBranch flag takeIf] := by
    intro flag takeIf
    rw [condBranchHandler, hfold]
    rfl
  have htest : ∀ f takeIf : Bool, (((if f then (1 : Word) else 0) != 0) == takeIf) = (f == takeIf) := by
    decide
  have hop := branchOp_all insn.opcode
  rw [← (row_of_decodeInsn hdec).1] at hop
  cases hmnem : insn.mnem <;> rw [hmnem] at hcond hop <;> cases hcond
  case bpl =>
    refine ⟨.n, false, by rw [lower, hmnem]; exact hlower _ _, ?_⟩
    rw [hop _ rfl, readRegField, htest, ← hn, exec, beq_false]
  case bmi =>
    refine ⟨.n, true, by rw [lower, hmnem]; exact hlower _ _, ?_⟩
    rw [hop _ rfl, readRegField, htest, ← hn, exec, beq_true]
  case bvc =>
    refine ⟨.v, false, by rw [lower, hmnem]; exact hlower _ _, ?_⟩
    rw [hop _ rfl, readRegField, htest, ← hv, exec, beq_false]
  case bvs =>
    refine ⟨.v, true, by rw [lower, hmnem]; exact hlower _ _, ?_⟩
    rw [hop _ rfl, readRegField, htest, ← hv, exec, beq_true]
  case bcc =>
    refine ⟨.c, false, by rw [lower, hmnem]; exact hlower _ _, ?_⟩
    rw [hop _ rfl, readRegField, htest, ← hc, exec, beq_false]
  case bcs =>
    refine ⟨.c, true, by rw [lower, hmnem]; exact hlower _ _, ?_⟩
    rw [hop _ rfl, readRegField, htest, ← hc, exec, beq_true]
  case bne =>
    refine ⟨.zf, false, by rw [lower, hmnem]; exact hlower _ _, ?_⟩
    rw [hop _ rfl, readRegField, htest, ← hz, exec, beq_false]
  case beq =>
    refine ⟨.zf, true, by rw [lower, hmnem]; exact hlower _ _, ?_⟩
    rw [hop _ rfl, readRegField, htest, ← hz, exec, beq_true]

/-- **Straight-line data movement agrees.**  From matched states the compiled lines and the
interpreter on the same instructions (`hcode`) end in step, and decide every branch alike,
if each instruction is executed in a state that allows it. -/
theorem straightLine_agrees (cart : Cart) (io : RegIo H) {rom : Rom} {bank : Nat} {m x : Bool}
    {insns : List (Insn × Value)} (h : Straight rom bank m x insns) (s : Tandem (Mem H))
    (hs : Matched m x s)
    (hcode : StepsMeet (tandemStep (cpuBus cart io))
      (fun l s => Fetches (cpuBus cart io) l.1 s.interp) insns s)
    (hstays : StepsMeet (tandemStep (cpuBus cart io)) (StaysInStep cart io) insns s) :
    let t := final (tandemStep (cpuBus cart io)) insns s
    InStep t ∧ BranchesAlike (cpuBus cart io) t :=
  have h := inStep_of_straight h s hs hcode hstays
  ⟨h, branchesAlike_of_inStep _ h⟩

/-- `LDA #$34`, `STA $10`, `SEP #$10`, `TAX`. -/
def moveCode : List Byte := [0xA9, 0x34, 0x85, 0x10, 0xE2, 0x10, 0xAA]

def moveInsns : List (Insn × Value) :=
  [(⟨0x8000, 0xA9, .lda, .imm, 0x34, 2, true, true, false, none⟩, 0),
    (⟨0x8002, 0x85, .sta, .dp, 0x10, 2, true, true, false, none⟩, 1),
    (⟨0x8004, 0xE2, .sep, .imm, 0x10, 2, true, true, false, none⟩, 2),
    (⟨0x8006, 0xAA, .tax, .imp, 0, 1, true, true, false, none⟩, 2)]

/-- Both tiers at `$8000`, in native mode. -/
def tandemAt (code : List Byte) (cpu : CpuState) : Tandem (Mem Unit) where
  compiled := ⟨cpu, romMem fun n => code.getD n 0, fun _ => 0⟩
  interp := { interpOf cpu (romMem fun n => code.getD n 0) with pc := 0x8000 }

theorem matched_tandemAt (code : List Byte) {cpu : CpuState} (he : cpu.emulation = false) :
    Matched cpu.mFlag cpu.xFlag (tandemAt code cpu) where
  inStep := rfl
  native := he
  m_eq := rfl
  x_eq := rfl
  running := ⟨rfl, rfl, rfl⟩

theorem straight_moveCode : Straight (.ofBytes moveCode) 0 true true moveInsns :=
  .cons (show decodeInsn (.ofBytes moveCode) 0 0x8000 0 true true = some _ from rfl) rfl
    (.cons (show decodeInsn (.ofBytes moveCode) 2 0x8002 0 true true = some _ from rfl) rfl
      (.cons (show decodeInsn (.ofBytes moveCode) 4 0x8004 0 true true = some _ from rfl) rfl
        (.cons (show decodeInsn (.ofBytes moveCode) 6 0x8006 0 true true = some _ from rfl) rfl
          (.nil true true))))

theorem fetches_moveCode :
    StepsMeet (tandemStep (cpuBus romOnlyCart silentIo))
      (fun l s => Fetches (cpuBus romOnlyCart silentIo) l.1 s.interp) moveInsns
      (tandemAt moveCode { cpuStateInit with emulation := false }) := by
  refine ⟨?_, ?_, ?_, ?_, trivial⟩ <;>
  · intro n hn
    match n, hn with
    | 0, _ => rfl
    | 1, _ => rfl

theorem staysInStep_moveCode :
    StepsMeet (tandemStep (cpuBus romOnlyCart silentIo)) (StaysInStep romOnlyCart silentIo)
      moveInsns (tandemAt moveCode { cpuStateInit with emulation := false }) := by
  refine ⟨?_, ?_, ?_, ?_, trivial⟩
  · intro op hop am ham
    cases ham
  · intro op hop am ham
    cases hop
    cases ham
    exact ⟨rfl, show (0x10 : Nat) < 0x2000 by decide⟩
  · exact fun _ => ⟨by decide, by decide⟩
  · intro op hop
    cases hop

/-- The sequence from the reset registers. -/
theorem straightLine_agrees_moveCode :
    let bus := cpuBus romOnlyCart silentIo
    let t := final (tandemStep bus) moveInsns (tandemAt moveCode { cpuStateInit with emulation := false })
    InStep t ∧ BranchesAlike bus t :=
  straightLine_agrees romOnlyCart silentIo straight_moveCode
    (tandemAt moveCode { cpuStateInit with emulation := false })
    (matched_tandemAt moveCode (show ({ cpuStateInit with emulation := false } : CpuState).emulation =
      false from rfl))
    fetches_moveCode staysInStep_moveCode

/-- `SEP #$10`. -/
def sepInsns : List (Insn × Value) :=
  [(⟨0x8000, 0xE2, .sep, .imm, 0x10, 2, true, false, false, none⟩, 0)]

/-- Native mode with a 16-bit `X` of `$0100`. -/
def wideX : CpuState := { cpuStateInit with emulation := false, xFlag := false, X := 0x0100 }

/-- `SEP #$10` clears the high byte of `X` in the interpreter and leaves it in the compiled
code. -/
theorem not_straightLine_agrees_sep :
    let bus := cpuBus romOnlyCart silentIo
    let s := tandemAt [0xE2, 0x10] wideX
    Straight (.ofBytes [0xE2, 0x10]) 0 true false sepInsns ∧ Matched true false s ∧
      StepsMeet (tandemStep bus) (fun l s => Fetches bus l.1 s.interp) sepInsns s ∧
      ¬ InStep (final (tandemStep bus) sepInsns s) := by
  refine ⟨?_, matched_tandemAt [0xE2, 0x10] (show wideX.emulation = false from rfl), ⟨?_, trivial⟩,
    fun h => ?_⟩
  · exact .cons (show decodeInsn (.ofBytes [0xE2, 0x10]) 0 0x8000 0 true false = some _ from rfl) rfl
      (.nil true true)
  · intro n hn
    match n, hn with
    | 0, _ => rfl
    | 1, _ => rfl
  · exact absurd (congrArg Interp816.x h) (by decide)

end SnesRecomp.Tiers
