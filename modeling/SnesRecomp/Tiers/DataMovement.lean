import SnesRecomp.Lib.Runs
import SnesRecomp.Recompiler.Decode
import SnesRecomp.Tiers.OperandAccess
import SnesRecomp.Tiers.AluAgreement

/-!
# The instructions of straight-line data movement

Loads, stores, transfers, `XBA`, increments of the index registers, flag operations, `REP`,
`SEP` and `XCE`, each as a step of both tiers at once: `SameStep` says that the emitted
lines and the interpreter go from one state to one state.  `StaysInStep` is the condition
on the state before an instruction under which they do.
-/

namespace SnesRecomp.Tiers

open Recompiler Interp816 Runs

/-! ### The instructions -/

/-- The loads and stores. -/
def moveMemOp : Mnem → Option MemOp
  | .lda => some .lda
  | .ldx => some .ldx
  | .ldy => some .ldy
  | .sta => some .sta
  | .stx => some .stx
  | .sty => some .sty
  | .stz => some .stz
  | _ => none

/-- The operations on registers and flags. -/
def moveRegOp : Mnem → Option Op
  | .tax => some .tax
  | .tay => some .tay
  | .txa => some .txa
  | .tya => some .tya
  | .txy => some .txy
  | .tyx => some .tyx
  | .tsx => some .tsx
  | .txs => some .txs
  | .tcd => some .tcd
  | .tdc => some .tdc
  | .tcs => some .tcs
  | .tsc => some .tsc
  | .xba => some .xba
  | .inx => some .inx
  | .iny => some .iny
  | .dex => some .dex
  | .dey => some .dey
  | .clc => some .clc
  | .sec => some .sec
  | .cli => some .cli
  | .sei => some .sei
  | .cld => some .cld
  | .sed => some .sed
  | .clv => some .clv
  | _ => none

/-- The instructions of a sequence, up to its last. -/
def isMove (mnem : Mnem) : Bool :=
  (moveMemOp mnem).isSome || (moveRegOp mnem).isSome || mnem == .rep || mnem == .sep

/-- Loads and stores as wide as the `X` flag says. -/
def isIndexOp : MemOp → Bool
  | .ldx | .ldy | .stx | .sty => true
  | _ => false

/-- The value a store stores. -/
def storeValue (op : MemOp) (cpu : CpuState) : Option Word :=
  match op with
  | .sta => some cpu.A
  | .stx => some cpu.X
  | .sty => some cpu.Y
  | .stz => some 0
  | _ => none

/-- The flag that gives the width. -/
def widthFlag (op : MemOp) (cpu : CpuState) : Bool := if isIndexOp op then cpu.xFlag else cpu.mFlag

/-- The two opcode tables give an instruction of a sequence one operation. -/
def sameMove (opcode : Byte) : Bool :=
  let row := opcodeRow opcode
  match moveMemOp row.mnem with
  | some op =>
    match opOf opcode with
    | .mem op' (.imm xFlag) =>
      op' == op && row.mode == .imm && xFlag == isIndexOp op && storeValue op cpuStateInit == none
    | .mem op' _ => op' == op
    | _ => false
  | none =>
    match moveRegOp row.mnem with
    | some op => opOf opcode == op && row.len == .fixed 1
    | none =>
      match row.mnem with
      | .rep => opOf opcode == .rep && row.len == .fixed 2
      | .sep => opOf opcode == .sep && row.len == .fixed 2
      | .xce => opOf opcode == .xce && row.len == .fixed 1
      | _ => true

theorem sameMove_all : ∀ opcode : Byte, sameMove opcode = true := by decide +kernel

section Decoded

variable {rom : Rom} {offset pc bank : Nat} {mF xF : Bool} {insn : Insn}

theorem opOf_of_moveMemOp (hdec : decodeInsn rom offset pc bank mF xF = some insn) {op : MemOp}
    (hmove : moveMemOp insn.mnem = some op) :
    ∃ am, opOf insn.opcode = .mem op am ∧ ∀ xFlag, am = .imm xFlag →
      insn.mode = .imm ∧ xFlag = isIndexOp op ∧ storeValue op cpuStateInit = none := by
  obtain ⟨hmnem, hmode, -⟩ := row_of_decodeInsn hdec
  have h := sameMove_all insn.opcode
  simp only [sameMove, ← hmnem, ← hmode, hmove] at h
  cases hop : opOf insn.opcode with
  | mem op' am =>
    rw [hop] at h
    cases am with
    | imm xFlag =>
      simp only [Bool.and_eq_true, beq_iff_eq] at h
      obtain ⟨⟨⟨rfl, himm⟩, hflag⟩, hload⟩ := h
      refine ⟨_, rfl, fun x hx => ?_⟩
      cases hx
      exact ⟨himm, hflag, hload⟩
    | _ =>
      obtain rfl := beq_iff_eq.mp h
      exact ⟨_, rfl, fun x hx => by cases hx⟩
  | _ =>
    rw [hop] at h
    cases h

/-- A load or store of memory in the interpreter's table. -/
theorem opOf_of_mode (hdec : decodeInsn rom offset pc bank mF xF = some insn) {op : MemOp} {am : AdrMode}
    (hmove : moveMemOp insn.mnem = some op) (hmode : adrModeOf insn.mode = some am) :
    opOf insn.opcode = .mem op am := by
  obtain ⟨am', hop, himm⟩ := opOf_of_moveMemOp hdec hmove
  have hne : ∀ x, am' ≠ .imm x := by
    intro x hx
    rw [(himm x hx).1] at hmode
    cases hmode
  have h := adrModeOf_opcodeRow hop hne
  rw [← mode_of_decodeInsn hdec, hmode] at h
  obtain rfl := Option.some.inj h
  exact hop

theorem opOf_of_moveRegOp (hdec : decodeInsn rom offset pc bank mF xF = some insn) {op : Op}
    (hmem : moveMemOp insn.mnem = none) (hmove : moveRegOp insn.mnem = some op) :
    opOf insn.opcode = op ∧ insn.length = 1 := by
  obtain ⟨hmnem, -, hlen, -⟩ := row_of_decodeInsn hdec
  have h := sameMove_all insn.opcode
  simp only [sameMove, ← hmnem, hmem, hmove, Bool.and_eq_true, beq_iff_eq] at h
  refine ⟨h.1, ?_⟩
  rw [hlen, h.2]
  rfl

/-- `REP`, `SEP` and `XCE` in the interpreter's table. -/
theorem opOf_of_flags (hdec : decodeInsn rom offset pc bank mF xF = some insn) :
    (insn.mnem = .rep → opOf insn.opcode = .rep ∧ insn.length = 2) ∧
      (insn.mnem = .sep → opOf insn.opcode = .sep ∧ insn.length = 2) ∧
      (insn.mnem = .xce → opOf insn.opcode = .xce ∧ insn.length = 1) := by
  obtain ⟨hmnem, -, hlen, -⟩ := row_of_decodeInsn hdec
  have h := sameMove_all insn.opcode
  refine ⟨fun hm => ?_, fun hm => ?_, fun hm => ?_⟩ <;>
  · simp only [sameMove, ← hmnem, hm, moveMemOp, moveRegOp, Bool.and_eq_true, beq_iff_eq] at h
    refine ⟨h.1, ?_⟩
    rw [hlen, h.2]
    rfl

end Decoded

/-- Code in a straight line, decoded in the widths `m` and `x` at its start and in those
the decoder has after each instruction. -/
inductive Straight (rom : Rom) (bank : Nat) : Bool → Bool → List (Insn × Value) → Prop
  | nil (m x : Bool) : Straight rom bank m x []
  | cons {offset pc : Nat} {m x : Bool} {insn : Insn} {vid : Value} {rest : List (Insn × Value)}
      (decoded : decodeInsn rom offset pc bank m x = some insn) (move : isMove insn.mnem = true)
      (tail : Straight rom bank (postState insn m x []).1 (postState insn m x []).2.1 rest) :
      Straight rom bank m x ((insn, vid) :: rest)
  | xce {offset pc : Nat} {m x : Bool} {insn : Insn} {vid : Value}
      (decoded : decodeInsn rom offset pc bank m x = some insn) (last : insn.mnem = .xce) :
      Straight rom bank m x [(insn, vid)]

/-! ### The two tiers side by side -/

/-- The state of the compiled code and the interpreter beside it. -/
structure Tandem (M : Type) where
  compiled : EmitState M
  interp : Interp816 M

variable {M H : Type}

/-- One instruction in both tiers; its values are numbered from the second component. -/
def tandemStep (bus : Bus M) (l : Insn × Value) (s : Tandem M) : Tandem M where
  compiled := execOps bus ((lower l.1 l.2).getD []) s.compiled
  interp := runOpcode (bridgeBus bus) s.interp

/-- The interpreter has the registers, the flags and the memory of the compiled code. -/
def InStep (s : Tandem M) : Prop := s.interp = interpWith s.compiled.cpu s.interp s.compiled.mem

/-- In step, in native mode and in the widths of the decoder. -/
structure Matched (m x : Bool) (s : Tandem M) : Prop where
  inStep : InStep s
  native : s.compiled.cpu.emulation = false
  m_eq : s.compiled.cpu.mFlag = m
  x_eq : s.compiled.cpu.xFlag = x
  running : Uninterrupted s.interp

/-- The state before an instruction in which the tiers stay in step. -/
def StaysInStep (cart : Cart) (io : RegIo H) (l : Insn × Value) (s : Tandem (Mem H)) : Prop :=
  let cpu := s.compiled.cpu
  match l.1.mnem with
  | .rep => cpu.xFlag = true → hasBit (BitVec.ofNat 8 l.1.operand) cpuPX = false → Narrow cpu
  | .sep => cpu.xFlag = true ∨ hasBit (BitVec.ofNat 8 l.1.operand) cpuPX = true → Narrow cpu
  | .xce => XcePlain cpu
  | mnem =>
    ∀ op, moveMemOp mnem = some op → ∀ am, adrModeOf l.1.mode = some am →
      SameAccess cart io am (widthOf (widthFlag op cpu)) (storeValue op cpu) l.1.operand cpu
        s.compiled.mem

/-! ### One instruction -/

section Step

variable {bus : Bus M} {insn : Insn} {vid : Value} {cpu cpu' : CpuState} {i : Interp816 M} {m m' : M}
  {vals : Value → Word}

/-- Both tiers go from `cpu` and `m` to `cpu'` and `m'`, the interpreter past the
instruction. -/
def SameStep (bus : Bus M) (insn : Insn) (vid : Value) (cpu : CpuState) (i : Interp816 M) (m : M)
    (vals : Value → Word) (cpu' : CpuState) (m' : M) : Prop :=
  ∃ ops, lower insn vid = some ops ∧ (execOps bus ops ⟨cpu, m, vals⟩).cpu = cpu' ∧
    (execOps bus ops ⟨cpu, m, vals⟩).mem = m' ∧
    exec (bridgeBus bus) (opOf insn.opcode) (interpWith cpu (advance i 1) m) =
      interpWith cpu' (advance i insn.length) m'

/-- The widths and the mode a step leaves alone. -/
def KeepsMode (cpu cpu' : CpuState) : Prop :=
  cpu'.mFlag = cpu.mFlag ∧ cpu'.xFlag = cpu.xFlag ∧ cpu'.emulation = cpu.emulation

theorem transferWide_keepsMode (isByte : Bool) (v : Word) {reg : Reg}
    (hreg : reg = .a ∨ reg = .x ∨ reg = .y) (cpu : CpuState) :
    KeepsMode cpu (transferWide isByte v reg cpu) := by
  rcases hreg with rfl | rfl | rfl <;> cases isByte <;> exact ⟨rfl, rfl, rfl⟩

theorem loadStep_keepsMode (w : Width) (v : Word) {reg : Reg} (hreg : reg = .a ∨ reg = .x ∨ reg = .y)
    (cpu : CpuState) : KeepsMode cpu (loadStep reg w v cpu) := by
  rcases hreg with rfl | rfl | rfl
  · simp only [loadStep, emitWriteReg, cpuWriteAM]
    split <;> exact ⟨rfl, rfl, rfl⟩
  · simp only [loadStep, emitWriteReg, cpuWriteXX]
    split <;> exact ⟨rfl, rfl, rfl⟩
  · simp only [loadStep, emitWriteReg, cpuWriteYX]
    split <;> exact ⟨rfl, rfl, rfl⟩

theorem emitIncReg_keepsMode (delta : Delta) {reg : Reg} (hreg : reg = .x ∨ reg = .y)
    (cpu : CpuState) : KeepsMode cpu (emitIncReg reg delta cpu) := by
  rcases hreg with rfl | rfl <;>
  · simp only [emitIncReg]
    split <;> exact ⟨rfl, rfl, rfl⟩

/-- An instruction of one byte that lowers to one operation on the registers. -/
theorem sameStep_reg (irop : IROp) {op : Op} (hop : opOf insn.opcode = op) (hlen : insn.length = 1)
    (hlower : lower insn vid = some [irop]) (hmem : (execOp bus irop ⟨cpu, m, vals⟩).mem = m)
    (hexec : exec (bridgeBus bus) op (interpWith cpu (advance i 1) m) =
      interpWith (execOp bus irop ⟨cpu, m, vals⟩).cpu (advance i 1) m) :
    SameStep bus insn vid cpu i m vals (execOp bus irop ⟨cpu, m, vals⟩).cpu m :=
  ⟨[irop], hlower, rfl, hmem, by rw [hop, hlen, hexec]⟩

theorem sub_one_eq_add_down (v : Word) : v - 1 = v + Delta.down.toCInt.setWidth 16 :=
  BitVec.sub_eq_add_neg v 1

/-- The transfers, `XBA`, the increments and the flag operations. -/
theorem sameStep_moveRegOp {op : Op} (hmove : moveRegOp insn.mnem = some op)
    (hop : opOf insn.opcode = op) (hlen : insn.length = 1) :
    ∃ cpu', SameStep bus insn vid cpu i m vals cpu' m ∧ KeepsMode cpu cpu' := by
  cases hmnem : insn.mnem <;> rw [hmnem] at hmove <;> cases hmove
  case tax =>
    exact ⟨_, sameStep_reg (.transfer .a .x) hop hlen (by rw [lower, hmnem]) rfl
      (setIndex_agrees .x cpu.A cpu _ m), transferWide_keepsMode _ _ (by decide) cpu⟩
  case tay =>
    exact ⟨_, sameStep_reg (.transfer .a .y) hop hlen (by rw [lower, hmnem]) rfl
      (setIndex_agrees .y cpu.A cpu _ m), transferWide_keepsMode _ _ (by decide) cpu⟩
  case txa =>
    exact ⟨_, sameStep_reg (.transfer .x .a) hop hlen (by rw [lower, hmnem]) rfl
      (setA_agrees cpu.X cpu _ m), transferWide_keepsMode _ _ (by decide) cpu⟩
  case tya =>
    exact ⟨_, sameStep_reg (.transfer .y .a) hop hlen (by rw [lower, hmnem]) rfl
      (setA_agrees cpu.Y cpu _ m), transferWide_keepsMode _ _ (by decide) cpu⟩
  case txy =>
    exact ⟨_, sameStep_reg (.transfer .x .y) hop hlen (by rw [lower, hmnem]) rfl
      (setIndex_agrees .y cpu.X cpu _ m), transferWide_keepsMode _ _ (by decide) cpu⟩
  case tyx =>
    exact ⟨_, sameStep_reg (.transfer .y .x) hop hlen (by rw [lower, hmnem]) rfl
      (setIndex_agrees .x cpu.Y cpu _ m), transferWide_keepsMode _ _ (by decide) cpu⟩
  case tsx =>
    exact ⟨_, sameStep_reg (.transfer .s .x) hop hlen (by rw [lower, hmnem]) rfl
      (setIndex_agrees .x cpu.S cpu _ m), transferWide_keepsMode _ _ (by decide) cpu⟩
  case inx =>
    exact ⟨_, sameStep_reg (.incReg .x .up) hop hlen (by rw [lower, hmnem]) rfl
      (emitIncReg_agrees .x .up cpu _ m), emitIncReg_keepsMode _ (by decide) cpu⟩
  case iny =>
    exact ⟨_, sameStep_reg (.incReg .y .up) hop hlen (by rw [lower, hmnem]) rfl
      (emitIncReg_agrees .y .up cpu _ m), emitIncReg_keepsMode _ (by decide) cpu⟩
  case dex =>
    have h := emitIncReg_agrees .x .down cpu (advance i 1) m
    rw [← sub_one_eq_add_down] at h
    exact ⟨_, sameStep_reg (.incReg .x .down) hop hlen (by rw [lower, hmnem]) rfl h,
      emitIncReg_keepsMode _ (by decide) cpu⟩
  case dey =>
    have h := emitIncReg_agrees .y .down cpu (advance i 1) m
    rw [← sub_one_eq_add_down] at h
    exact ⟨_, sameStep_reg (.incReg .y .down) hop hlen (by rw [lower, hmnem]) rfl h,
      emitIncReg_keepsMode _ (by decide) cpu⟩
  case xba =>
    exact ⟨_, sameStep_reg .xba hop hlen (by rw [lower, hmnem]) rfl (xba_agrees cpu _ m),
      rfl, rfl, rfl⟩
  case tcd =>
    exact ⟨_, sameStep_reg (.transfer .a .d) hop hlen (by rw [lower, hmnem]) rfl
      (setZN_word_agrees cpu.A { cpu with D := cpu.A } _ m), rfl, rfl, rfl⟩
  case tdc =>
    exact ⟨_, sameStep_reg (.transfer .d .a) hop hlen (by rw [lower, hmnem]) rfl
      (setZN_word_agrees cpu.D { cpu with A := cpu.D } _ m), rfl, rfl, rfl⟩
  case tsc =>
    exact ⟨_, sameStep_reg (.transfer .s .a) hop hlen (by rw [lower, hmnem]) rfl
      (setZN_word_agrees cpu.S { cpu with A := cpu.S } _ m), rfl, rfl, rfl⟩
  -- the moves to `S` and the flag operations set one field
  case txs =>
    exact ⟨_, sameStep_reg (.transfer .x .s) hop hlen (by rw [lower, hmnem]) rfl rfl,
      rfl, rfl, rfl⟩
  case tcs =>
    exact ⟨_, sameStep_reg (.transfer .a .s) hop hlen (by rw [lower, hmnem]) rfl rfl,
      rfl, rfl, rfl⟩
  case clc =>
    exact ⟨_, sameStep_reg (.setFlag .c false) hop hlen (by rw [lower, hmnem]) rfl rfl,
      rfl, rfl, rfl⟩
  case sec =>
    exact ⟨_, sameStep_reg (.setFlag .c true) hop hlen (by rw [lower, hmnem]) rfl rfl,
      rfl, rfl, rfl⟩
  case cli =>
    exact ⟨_, sameStep_reg (.setFlag .i false) hop hlen (by rw [lower, hmnem]) rfl rfl,
      rfl, rfl, rfl⟩
  case sei =>
    exact ⟨_, sameStep_reg (.setFlag .i true) hop hlen (by rw [lower, hmnem]) rfl rfl,
      rfl, rfl, rfl⟩
  case cld =>
    exact ⟨_, sameStep_reg (.setFlag .df false) hop hlen (by rw [lower, hmnem]) rfl rfl,
      rfl, rfl, rfl⟩
  case sed =>
    exact ⟨_, sameStep_reg (.setFlag .df true) hop hlen (by rw [lower, hmnem]) rfl rfl,
      rfl, rfl, rfl⟩
  case clv =>
    exact ⟨_, sameStep_reg (.setFlag .v false) hop hlen (by rw [lower, hmnem]) rfl rfl,
      rfl, rfl, rfl⟩

/-! `REP`, `SEP` and `XCE`. -/

theorem hasBit_ofNat (n : Nat) :
    hasBit (BitVec.ofNat 8 n) cpuPM = decide (n &&& 0x20 ≠ 0) ∧
      hasBit (BitVec.ofNat 8 n) cpuPX = decide (n &&& 0x10 ≠ 0) := by
  have h5 : n &&& 0x20 = (n.testBit 5).toNat * 0x20 := Nat.and_two_pow n 5
  have h4 : n &&& 0x10 = (n.testBit 4).toNat * 0x10 := Nat.and_two_pow n 4
  rw [hasBit_cpuPM, hasBit_cpuPX, BitVec.getLsbD_ofNat, BitVec.getLsbD_ofNat, h5, h4]
  cases n.testBit 5 <;> cases n.testBit 4 <;> decide

/-- The decoder's widths behind `REP` and `SEP` are the flags. -/
theorem modifyP_postState :
    (insn.mnem = .rep → (emitRep (BitVec.ofNat 8 insn.operand) cpu).mFlag =
        (postState insn cpu.mFlag cpu.xFlag []).1 ∧
      (emitRep (BitVec.ofNat 8 insn.operand) cpu).xFlag = (postState insn cpu.mFlag cpu.xFlag []).2.1) ∧
    (insn.mnem = .sep → (emitSep (BitVec.ofNat 8 insn.operand) cpu).mFlag =
        (postState insn cpu.mFlag cpu.xFlag []).1 ∧
      (emitSep (BitVec.ofNat 8 insn.operand) cpu).xFlag = (postState insn cpu.mFlag cpu.xFlag []).2.1) := by
  obtain ⟨hbm, hbx⟩ := hasBit_ofNat insn.operand
  rw [hasBit_cpuPM] at hbm
  rw [hasBit_cpuPX] at hbx
  constructor <;>
  · intro hmnem
    first | rw [emitRep] | rw [emitSep]
    rw [(modifyP_flags _ cpu).1, (modifyP_flags _ cpu).2, postState, hmnem]
    simp only [BitVec.getLsbD_and, BitVec.getLsbD_or, BitVec.getLsbD_not, cpuMirrorsToP_m, cpuMirrorsToP_x,
      hbm, hbx]
    constructor <;> split <;> simp_all

/-- `REP` and `SEP`, by what the mask does to `P`. -/
theorem sameStep_modifyP {irop : IROp} {op : Op} (f : Byte → Byte → Byte)
    (hlower : lower insn vid = some [irop])
    (hcompiled : ∀ s : EmitState M, execOp bus irop s =
      { s with cpu := modifyPViaMirrors (f (BitVec.ofNat 8 insn.operand)) s.cpu })
    (hinterp : ∀ s : Interp816 M, exec (bridgeBus bus) op s =
      setFlags (f (readOpcode (bridgeBus bus) s).1 (getFlags (readOpcode (bridgeBus bus) s).2))
        (readOpcode (bridgeBus bus) s).2)
    (hop : opOf insn.opcode = op) (hlen : insn.length = 2) (hf : Fetches bus insn (interpWith cpu i m))
    (he : cpu.emulation = false)
    (hnarrow : IndexHigh (modifyPViaMirrors (f (BitVec.ofNat 8 insn.operand)) cpu)) :
    SameStep bus insn vid cpu i m vals (modifyPViaMirrors (f (BitVec.ofNat 8 insn.operand)) cpu) m := by
  have hbyte : readOpcode (bridgeBus bus) (interpWith cpu (advance i 1) m) =
      (BitVec.ofNat 8 insn.operand, interpWith cpu (advance i 2) m) :=
    readOpcode_advance hf (show 1 < insn.length by omega)
  refine ⟨[irop], hlower, congrArg EmitState.cpu (hcompiled _), congrArg EmitState.mem (hcompiled _), ?_⟩
  rw [hop, hlen, hinterp, hbyte]
  exact (modifyP_agrees_iff he _ (advance i 2) m).mpr hnarrow

theorem sameStep_rep (hmnem : insn.mnem = .rep) (hop : opOf insn.opcode = .rep)
    (hlen : insn.length = 2) (hf : Fetches bus insn (interpWith cpu i m))
    (he : cpu.emulation = false)
    (hidx : cpu.xFlag = true → hasBit (BitVec.ofNat 8 insn.operand) cpuPX = false → Narrow cpu) :
    SameStep bus insn vid cpu i m vals (emitRep (BitVec.ofNat 8 insn.operand) cpu) m := by
  refine sameStep_modifyP (fun mask p => p &&& ~~~ mask) (by rw [lower, hmnem]) (fun _ => rfl) (fun _ => rfl)
    hop hlen hf he fun hx => ?_
  have hx := (emitRep_xFlag _ cpu).mp hx
  exact hidx hx.1 hx.2

theorem sameStep_sep (hmnem : insn.mnem = .sep) (hop : opOf insn.opcode = .sep)
    (hlen : insn.length = 2) (hf : Fetches bus insn (interpWith cpu i m))
    (he : cpu.emulation = false)
    (hidx : cpu.xFlag = true ∨ hasBit (BitVec.ofNat 8 insn.operand) cpuPX = true → Narrow cpu) :
    SameStep bus insn vid cpu i m vals (emitSep (BitVec.ofNat 8 insn.operand) cpu) m :=
  sameStep_modifyP (fun mask p => p ||| mask) (by rw [lower, hmnem]) (fun _ => rfl) (fun _ => rfl)
    hop hlen hf he fun hx => hidx ((emitSep_xFlag _ cpu).mp hx)

theorem sameStep_xce (hmnem : insn.mnem = .xce) (hop : opOf insn.opcode = .xce)
    (hlen : insn.length = 1) (h : XcePlain cpu) :
    SameStep bus insn vid cpu i m vals (emitXce cpu) m :=
  sameStep_reg .xce hop hlen (by rw [lower, hmnem]) rfl ((xce_agrees_iff cpu (advance i 1) m).mpr h)

/-! Loads. -/

/-- Both tiers fetch one value, as wide as the operation: the compiled code into the C
local `vid`, the interpreter from the addresses it forms past the opcode. -/
def SameLoad (bus : Bus M) (insn : Insn) (am : AdrMode) (w : Width) (vid : Value) (cpu : CpuState)
    (i : Interp816 M) (m : M) : Prop :=
  ∃ o m', adr (bridgeBus bus) am (interpWith cpu (advance i 1) m) =
      (o, interpWith cpu (advance i insn.length) m') ∧
    ∃ load, operandOps insn w vid = some [load] ∧ ∀ vals, execOp bus load ⟨cpu, m, vals⟩ =
      ⟨cpu, (readAt (bridgeBus bus) w o m').2,
        Function.update vals vid (readAt (bridgeBus bus) w o m').1⟩

theorem sameLoad_imm (hf : Fetches bus insn (interpWith cpu i m)) (himm : insn.mode = .imm)
    {xFlag byte : Bool} (hbyte : (if xFlag then cpu.xFlag else cpu.mFlag) = byte)
    (hlen : insn.length = if byte then 2 else 3) :
    SameLoad bus insn (.imm xFlag) (widthOf byte) vid cpu i m := by
  obtain ⟨hnext, hread⟩ := adrImm_of_fetches hf hbyte hlen
  refine ⟨(adrImm xFlag (advance (interpWith cpu i m) 1)).1, m, Prod.ext rfl hnext,
    .constI insn.operand (widthOf byte) vid, if_pos himm, fun vals => ?_⟩
  have hr : readAt (bridgeBus bus) (widthOf byte) (adrImm xFlag (advance (interpWith cpu i m) 1)).1 m =
      (toCtype (widthOf byte) (BitVec.ofNat 32 insn.operand), m) := hread
  rw [hr]
  rfl

theorem sameStep_load {reg : Reg} {width : Insn → Width} {am : AdrMode} {flag : Bool} {op : MemOp}
    (hlower : lower insn vid = loadHandler reg width insn vid) (hw : width insn = widthOf flag)
    (hop : opOf insn.opcode = .mem op am) (hreg : reg = .a ∨ reg = .x ∨ reg = .y)
    (hagree : ∀ o j m, memOp (bridgeBus bus) op o (interpWith cpu j m) =
      (let r := readAt (bridgeBus bus) (widthOf flag) o m
       interpWith (loadStep reg (widthOf flag) r.1 cpu) j r.2))
    (hsame : SameLoad bus insn am (widthOf flag) vid cpu i m) :
    ∃ cpu' m', SameStep bus insn vid cpu i m vals cpu' m' ∧ KeepsMode cpu cpu' := by
  obtain ⟨o, m', hadr, load, hops, hexec⟩ := hsame
  refine ⟨_, _, ⟨[load, .writeReg reg vid, .setNZ vid (widthOf flag)], ?_, rfl, rfl, ?_⟩, ?_⟩
  · rw [hlower, loadHandler, hw, hops]
    rfl
  · simp only [execOps_cons, execOps_nil, hexec]
    rw [hop]
    show memOp (bridgeBus bus) op (adr (bridgeBus bus) am (interpWith cpu (advance i 1) m)).1
      (adr (bridgeBus bus) am (interpWith cpu (advance i 1) m)).2 = _
    rw [hadr, hagree]
    simp only [execOp, Function.update_self]
    rfl
  · simp only [execOps_cons, execOps_nil, hexec]
    simp only [execOp, Function.update_self]
    exact loadStep_keepsMode _ _ hreg cpu

/-- The two ways to get the value of a store: a register, or zero. -/
theorem sameStep_store {seg : SegRef} {o : Operand} {w : Width} {irop : IROp} {v : Word}
    {am : AdrMode} {op : MemOp} (hop : opOf insn.opcode = .mem op am)
    (hlower : lower insn vid = some [irop, .write seg vid w])
    (hvalue : execOp bus irop ⟨cpu, m, vals⟩ = ⟨cpu, m, Function.update vals vid v⟩)
    (hadr : adr (bridgeBus bus) am (interpWith cpu (advance i 1) m) =
      (o, interpWith cpu (advance i insn.length) m'))
    (hstore : ∀ j m, memOp (bridgeBus bus) op o (interpWith cpu j m) =
      interpWith cpu j (storeAt (bridgeBus bus) w o v m))
    (hsame : writeSeg bus seg w v cpu m = storeAt (bridgeBus bus) w o v m') :
    SameStep bus insn vid cpu i m vals cpu (storeAt (bridgeBus bus) w o v m') := by
  refine ⟨[irop, .write seg vid w], hlower, ?_, ?_, ?_⟩
  · simp only [execOps_cons, execOps_nil, hvalue]
    rfl
  · simp only [execOps_cons, execOps_nil, hvalue]
    simp only [execOp, Function.update_self, hsame]
  · rw [hop]
    show memOp (bridgeBus bus) op (adr (bridgeBus bus) am (interpWith cpu (advance i 1) m)).1
      (adr (bridgeBus bus) am (interpWith cpu (advance i 1) m)).2 = _
    rw [hadr, hstore]

theorem sameStep_loadOp {op : MemOp} {am : AdrMode} (hmove : moveMemOp insn.mnem = some op)
    (hload : storeValue op cpu = none) (hop : opOf insn.opcode = .mem op am)
    (hm : cpu.mFlag = insn.mFlag) (hx : cpu.xFlag = insn.xFlag)
    (hsame : SameLoad bus insn am (widthOf (widthFlag op cpu)) vid cpu i m) :
    ∃ cpu' m', SameStep bus insn vid cpu i m vals cpu' m' ∧ KeepsMode cpu cpu' := by
  cases hmnem : insn.mnem <;> rw [hmnem] at hmove <;> cases hmove
  case lda =>
    exact sameStep_load (by rw [lower, hmnem]) (by rw [widthA, hm]) hop (by decide)
      (fun o j m => lda_agrees _ o cpu j m) hsame
  case ldx =>
    exact sameStep_load (show lower insn vid = loadHandler .x widthX insn vid by rw [lower, hmnem]) (by rw [widthX, hx]) hop (by decide)
      (fun o j m => ldIndex_agrees .x _ o cpu j m) hsame
  case ldy =>
    exact sameStep_load (show lower insn vid = loadHandler .y widthX insn vid by rw [lower, hmnem]) (by rw [widthX, hx]) hop (by decide)
      (fun o j m => ldIndex_agrees .y _ o cpu j m) hsame
  all_goals cases hload

end Step

section Memory

variable {cart : Cart} {io : RegIo H} {insn : Insn} {vid : Value} {cpu : CpuState}
  {i : Interp816 (Mem H)} {m : Mem H} {vals : Value → Word} {am : AdrMode} {seg : SegRef} {o : Operand}

theorem sameLoad_of_sameAccess (hpair : OperandPair cart io insn am cpu i m seg o)
    (himm : insn.mode ≠ .imm) {w : Width} (h : SameAccess cart io am w none insn.operand cpu m) :
    SameLoad (cpuBus cart io) insn am w vid cpu i m := by
  refine ⟨o, _, hpair.adr_eq, .read seg w vid, ?_, fun vals => ?_⟩
  · rw [operandOps, if_neg himm, hpair.seg_eq]
    rfl
  · simp only [execOp, readSeg_of_sameAccess hpair h]
    rfl

theorem sameStep_storeOp {op : MemOp} {v : Word} (hmove : moveMemOp insn.mnem = some op)
    (hvalue : storeValue op cpu = some v) (hop : opOf insn.opcode = .mem op am)
    (hm : cpu.mFlag = insn.mFlag) (hx : cpu.xFlag = insn.xFlag)
    (hpair : OperandPair cart io insn am cpu i m seg o)
    (h : SameAccess cart io am (widthOf (widthFlag op cpu)) (some v) insn.operand cpu m) :
    ∃ m', SameStep (cpuBus cart io) insn vid cpu i m vals cpu m' := by
  have hwrite := writeSeg_of_sameAccess hpair h
  have hA : widthOf cpu.mFlag = widthA insn := by rw [widthA, hm]
  have hX : widthOf cpu.xFlag = widthX insn := by rw [widthX, hx]
  have hlow : ∀ reg width, storeHandler reg width insn vid =
      some [.readReg reg vid, .write seg vid (width insn)] := by
    intro reg width
    rw [storeHandler, hpair.seg_eq]
    rfl
  have hlowZ : hStz insn vid = some [.constI 0 (widthA insn) vid, .write seg vid (widthA insn)] := by
    rw [hStz, hpair.seg_eq]
    rfl
  cases hmnem : insn.mnem <;> rw [hmnem] at hmove <;> cases hmove <;> cases hvalue
  case sta =>
    exact ⟨_, sameStep_store hop (by rw [lower, hmnem]; exact hA ▸ hlow .a widthA) rfl
      hpair.adr_eq (fun j m => store_agrees cpu.mFlag cpu.A _ o cpu j m) hwrite⟩
  case stx =>
    exact ⟨_, sameStep_store hop (by rw [lower, hmnem]; exact hX ▸ hlow .x widthX) rfl
      hpair.adr_eq (fun j m => store_agrees cpu.xFlag cpu.X _ o cpu j m) hwrite⟩
  case sty =>
    exact ⟨_, sameStep_store hop (by rw [lower, hmnem]; exact hX ▸ hlow .y widthX) rfl
      hpair.adr_eq (fun j m => store_agrees cpu.xFlag cpu.Y _ o cpu j m) hwrite⟩
  case stz =>
    refine ⟨_, sameStep_store hop (by rw [lower, hmnem]; exact hA ▸ hlowZ) ?_
      hpair.adr_eq (fun j m => store_agrees cpu.mFlag 0 _ o cpu j m) hwrite⟩
    cases cpu.mFlag <;> rfl

end Memory

end SnesRecomp.Tiers
