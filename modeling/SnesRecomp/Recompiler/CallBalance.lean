import SnesRecomp.Recompiler.Calls

/-!
# The stack around a direct call

`_emit_return` always pops a return frame, so a call must push one.  `BalancedBody` is a
function body that leaves `S` as it found it and then returns; sequences of lowered
instructions and nested calls make such bodies.  `callBalanced_iff` says which calls of
`_emit_call` leave `S` and `PB` as they were.  Where the cfg pins the variant, the emitted
lines enter the callee without a frame and its return pops two or three bytes of the caller's
own.  A `JSL` puts `PB` back behind the callee; a `JSR` has it from the callee, which loses it
when it goes to another bank by a `JML`.
-/

namespace SnesRecomp.Recompiler

variable {M : Type}

/-! ### Bodies with balanced stack use -/

/-- What a function does between its prologue and its return, when that keeps the stack. -/
structure BalancedBody (M : Type) where
  work : EmitState M → EmitState M
  work_S : ∀ s, (work s).cpu.S = s.cpu.S

namespace BalancedBody

/-- The compiled function: prologue, work, and the emitted `RTS` or `RTL`. -/
def body (bus : Bus M) (host : ReturnHost M) (long : Bool) (b : BalancedBody M) : Body M := fun s =>
  let entry := enter 0 none s
  emitReturn bus host long entry.1 (b.work entry.2)

def comp (b c : BalancedBody M) : BalancedBody M where
  work s := c.work (b.work s)
  work_S s := (c.work_S _).trans (b.work_S s)

instance : Inhabited (BalancedBody M) := ⟨⟨id, fun _ => rfl⟩⟩

/-- The body does not leave its bank. -/
def KeepsPb (b : BalancedBody M) : Prop := ∀ s, (b.work s).cpu.PB = s.cpu.PB

theorem KeepsPb.comp {b c : BalancedBody M} (hb : b.KeepsPb) (hc : c.KeepsPb) : (b.comp c).KeepsPb :=
  fun s => (hc _).trans (hb s)

end BalancedBody

/-! ### `PB` in straight-line code -/

/-- The operations with the program bank as their destination. -/
def writesPb : IROp → Bool
  | .writeReg .pb _ | .incReg .pb _ | .setFlag .pb _ | .pullReg .pb _ _ | .transfer _ .pb => true
  | _ => false

theorem writeRegField_PB (cpu : CpuState) (v : Word) {reg : Reg} (h : reg ≠ .pb) :
    (writeRegField cpu v reg).PB = cpu.PB := by
  cases reg with
  | pb => exact absurd rfl h
  | _ => rfl

theorem emitWriteReg_PB (cpu : CpuState) (v : Word) {reg : Reg} (h : reg ≠ .pb) :
    (emitWriteReg reg v cpu).PB = cpu.PB := by
  cases reg with
  | a => simp only [emitWriteReg, cpuWriteAM]; split <;> rfl
  | x => simp only [emitWriteReg, cpuWriteXX]; split <;> rfl
  | y => simp only [emitWriteReg, cpuWriteYX]; split <;> rfl
  | pb => exact absurd rfl h
  | _ => rfl

theorem emitIncReg_PB (cpu : CpuState) (delta : Delta) {reg : Reg} (h : reg ≠ .pb) :
    (emitIncReg reg delta cpu).PB = cpu.PB := by
  cases reg with
  | a => simp only [emitIncReg]; split <;> rfl
  | x => simp only [emitIncReg]; split <;> rfl
  | y => simp only [emitIncReg]; split <;> rfl
  | pb => exact absurd rfl h
  | _ => rfl

theorem emitSetFlag_PB (cpu : CpuState) (value : Bool) {flag : Reg} (h : flag ≠ .pb) :
    (emitSetFlag flag value cpu).PB = cpu.PB := by
  cases flag with
  | pb => exact absurd rfl h
  | _ => rfl

theorem transferWide_PB (isByte : Bool) (src : Word) (cpu : CpuState) {dst : Reg} (h : dst ≠ .pb) :
    (transferWide isByte src dst cpu).PB = cpu.PB := by
  unfold transferWide
  dsimp only
  split
  · exact writeRegField_PB cpu _ h
  · exact writeRegField_PB cpu _ h

theorem emitTransfer_PB (cpu : CpuState) (src : Reg) {dst : Reg} (h : dst ≠ .pb) :
    (emitTransfer src dst cpu).PB = cpu.PB := by
  unfold emitTransfer
  dsimp only
  split
  · rfl
  split
  · rfl
  cases dst with
  | a => exact transferWide_PB _ _ _ h
  | x => exact transferWide_PB _ _ _ h
  | y => exact transferWide_PB _ _ _ h
  | pb => exact absurd rfl h
  | _ => rfl

theorem emitPushReg_PB (bus : Bus M) (reg : Reg) (staticM staticX : Option Bool) (s : EmitState M) :
    (emitPushReg bus reg staticM staticX s).cpu.PB = s.cpu.PB := by
  cases reg with
  | a => simp only [emitPushReg, pushWide]; split <;> rfl
  | x => simp only [emitPushReg, pushWide]; split <;> rfl
  | y => simp only [emitPushReg, pushWide]; split <;> rfl
  | _ => rfl

theorem emitPullReg_PB (bus : Bus M) {reg : Reg} (staticM staticX : Option Bool) (s : EmitState M)
    (h : reg ≠ .pb) : (emitPullReg bus reg staticM staticX s).cpu.PB = s.cpu.PB := by
  cases reg with
  | a => simp only [emitPullReg]; split <;> rfl
  | x => simp only [emitPullReg, pullIndex]; split <;> rfl
  | y => simp only [emitPullReg, pullIndex]; split <;> rfl
  | pb => exact absurd rfl h
  | _ => rfl

theorem blockMoveLoop_PB (bus : Bus M) (delta : Delta) (srcB dstB : Byte) (fuel : Nat) :
    ∀ s : EmitState M, (blockMoveLoop bus delta srcB dstB fuel s).cpu.PB = s.cpu.PB := by
  induction fuel with
  | zero => intro s; rfl
  | succ fuel ih =>
    intro s
    unfold blockMoveLoop
    split
    · rfl
    · exact ih _

/-- Only the operations of `writesPb` write the program bank. -/
theorem execOp_PB (bus : Bus M) {op : IROp} (h : writesPb op = false) (s : EmitState M) :
    (execOp bus op s).cpu.PB = s.cpu.PB := by
  cases op with
  | writeReg reg src =>
    exact emitWriteReg_PB s.cpu _ (by rintro rfl; cases h)
  | alu op lhs rhs width out =>
    have hr : (emitAlu op (s.vals lhs) (s.vals rhs) width s.cpu).2.PB = s.cpu.PB := by
      cases op <;> rfl
    cases out <;> exact hr
  | incReg reg delta => exact emitIncReg_PB s.cpu delta (by rintro rfl; cases h)
  | bitTest operand width imm => cases imm <;> rfl
  | setFlag flag value => exact emitSetFlag_PB s.cpu value (by rintro rfl; cases h)
  | xce =>
    show (emitXce s.cpu).PB = s.cpu.PB
    unfold emitXce
    dsimp only
    split <;> rfl
  | push src width => cases width <;> rfl
  | pull width out => cases width <;> rfl
  | pushReg reg staticM staticX => exact emitPushReg_PB bus reg staticM staticX s
  | pullReg reg staticM staticX =>
    exact emitPullReg_PB bus staticM staticX s (by rintro rfl; cases h)
  | blockMove direction srcBank dstBank => exact blockMoveLoop_PB bus _ _ _ _ s
  | transfer src dst =>
    exact emitTransfer_PB s.cpu src (by rintro rfl; cases h)
  | pushEffectiveAddress seg =>
    show (emitPushEffectiveAddress bus seg s).cpu.PB = s.cpu.PB
    unfold emitPushEffectiveAddress
    cases seg.kind <;> rfl
  | _ => rfl

theorem execOps_PB (bus : Bus M) (ops : List IROp) (h : ∀ op ∈ ops, writesPb op = false) :
    ∀ s : EmitState M, (execOps bus ops s).cpu.PB = s.cpu.PB := by
  induction ops with
  | nil => intro s; rfl
  | cons op ops ih =>
    intro s
    rw [execOps_cons, ih fun op' hop' => h op' (List.mem_cons_of_mem _ hop')]
    exact execOp_PB bus (h op List.mem_cons_self) s

/-- No instruction is lowered to a write of the program bank. -/
theorem lower_writesPb {insn : Insn} {vid : Value} {ops : List IROp} (h : lower insn vid = some ops) :
    ∀ op ∈ ops, writesPb op = false := by
  intro op hop
  have hfrom := lower_from h op hop
  cases op with
  | writeReg reg src | incReg reg delta => rcases hfrom with rfl | rfl | rfl <;> rfl
  | setFlag reg value | pullReg reg staticM staticX | transfer src reg =>
    cases reg <;> first | rfl | exact absurd rfl hfrom
  | _ => rfl

/-- Lowered instructions that keep `S` are a balanced body. -/
def BalancedBody.ofInsns (bus : Bus M) (ops : List (List IROp))
    (hS : ∀ s : EmitState M, (execOps bus ops.flatten s).cpu.S = s.cpu.S) : BalancedBody M :=
  ⟨execOps bus ops.flatten, hS⟩

theorem BalancedBody.keepsPb_ofInsns (bus : Bus M) {insns : List (Insn × Value)} {ops : List (List IROp)}
    (hlower : insns.map (fun i => lower i.1 i.2) = ops.map some)
    (hS : ∀ s : EmitState M, (execOps bus ops.flatten s).cpu.S = s.cpu.S) :
    (BalancedBody.ofInsns bus ops hS).KeepsPb := by
  refine execOps_PB bus _ fun op hop => ?_
  obtain ⟨l, hl, hopl⟩ := List.mem_flatten.mp hop
  have hmem : some l ∈ insns.map fun i => lower i.1 i.2 := hlower ▸ List.mem_map_of_mem hl
  obtain ⟨i, _, hi⟩ := List.mem_map.mp hmem
  exact lower_writesPb hi op hopl

/-! ### The variants a call can enter -/

theorem mem_mxVariants (v : Bool × Bool) : v ∈ mxVariants := by
  obtain ⟨m, x⟩ := v
  cases m <;> cases x <;> decide

/-- At least one variant of every target survives. -/
theorem validVariantList_ne_nil (maps : Maps) (addr : Nat) : validVariantList maps addr ≠ [] := by
  have hmx : mxVariants ≠ [] := by decide
  unfold validVariantList
  dsimp only
  split
  · rename_i s _
    split
    · exact hmx
    · rename_i hs
      obtain ⟨v, hv⟩ := List.exists_mem_of_ne_nil s hs
      exact List.ne_nil_of_mem (List.mem_filter.mpr ⟨mem_mxVariants v, decide_eq_true hv⟩)
  · exact hmx

theorem nearestSurvivor_isSome (m x : Bool) {vs : List (Bool × Bool)} (h : vs ≠ []) :
    ∃ v, nearestSurvivor m x vs = some v := by
  cases vs with
  | nil => exact absurd rfl h
  | cons v vs =>
    unfold nearestSurvivor
    cases nearestSurvivor m x vs with
    | none => exact ⟨v, rfl⟩
    | some w =>
      by_cases hle : variantCost m x v ≤ variantCost m x w
      · exact ⟨v, if_pos hle⟩
      · exact ⟨w, if_neg hle⟩

theorem dispatchVariant_isSome (m x : Bool) {vs : List (Bool × Bool)} (h : vs ≠ []) :
    ∃ v, dispatchVariant vs m x = some v := by
  unfold dispatchVariant
  by_cases hm : (m, x) ∈ vs
  · exact ⟨(m, x), if_pos hm⟩
  · rw [if_neg hm]
    exact nearestSurvivor_isSome m x h

/-! ### Frames pushed and popped -/

theorem popReturn_S (bus : Bus M) (long : Bool) (s : EmitState M) :
    (popReturn bus long s).2.cpu.S = s.cpu.S + frameSize long := by
  cases long with
  | false => exact BitVec.add_assoc s.cpu.S 1 1
  | true =>
    show s.cpu.S + 1 + 1 + 1 = s.cpu.S + 3
    rw [BitVec.add_assoc, BitVec.add_assoc]
    rfl

theorem popReturn_PB (bus : Bus M) (long : Bool) (s : EmitState M) :
    (popReturn bus long s).2.cpu.PB = s.cpu.PB := by
  cases long <;> rfl

theorem emitReturnFramePush_S (bus : Bus M) (long : Bool) (site : Option Nat) (s : EmitState M) :
    (emitReturnFramePush bus long site s).cpu.S = s.cpu.S - frameSize long := by
  cases long with
  | false =>
    show s.cpu.S - 1 - 1 = s.cpu.S - 2
    rw [BitVec.sub_sub]
    rfl
  | true =>
    show s.cpu.S - 1 - 1 - 1 = s.cpu.S - 3
    rw [BitVec.sub_sub, BitVec.sub_sub]
    rfl

theorem emitReturnFramePush_PB (bus : Bus M) (long : Bool) (site : Option Nat) (s : EmitState M) :
    (emitReturnFramePush bus long site s).cpu.PB = s.cpu.PB := by
  cases long <;> rfl

theorem emitReturnFramePush_hrv (bus : Bus M) (long : Bool) (site : Option Nat) (s : EmitState M) :
    (emitReturnFramePush bus long site s).cpu.hostReturnValid = if long then 3 else 2 := by
  cases long <;> rfl

theorem enter_zero (s : EmitState M) :
    enter 0 none s = (⟨s.cpu.S, s.cpu.hostReturnValid⟩, s) := by
  have hS : s.cpu.S + BitVec.ofInt 16 0 = s.cpu.S := BitVec.add_zero _
  exact congrArg (fun S => ((⟨S, s.cpu.hostReturnValid⟩ : Locals), s)) hS

/-- Entered with a frame size, the function returns normally behind its own return's pops. -/
theorem BalancedBody.body_eq (bus : Bus M) (host : ReturnHost M) (long : Bool) (b : BalancedBody M)
    {s : EmitState M} (h : s.cpu.hostReturnValid ≠ 0) :
    b.body bus host long s = (recompReturnNormal, (popReturn bus long (b.work s)).2) := by
  unfold body
  rw [enter_zero]
  exact if_pos ⟨h, b.work_S s⟩

/-- So does the call of it: one frame is popped, and a `JSL` has its bank back. -/
theorem BalancedBody.invoke_spec (bus : Bus M) (host : ReturnHost M) (long : Bool) (target : Nat)
    (b : BalancedBody M) {s : EmitState M} (h : s.cpu.hostReturnValid ≠ 0) :
    ∃ s', invoke long target (b.body bus host long) s = (recompReturnNormal, s') ∧
      s'.cpu.S = s.cpu.S + frameSize long ∧
      s'.cpu.PB = if long then s.cpu.PB else (b.work s).cpu.PB := by
  cases long with
  | false =>
    refine ⟨_, b.body_eq bus host false h, ?_, popReturn_PB bus false _⟩
    rw [popReturn_S, b.work_S]
  | true =>
    obtain ⟨t, ht⟩ : ∃ t, { s with cpu := { s.cpu with PB := targetBank target } } = t := ⟨_, rfl⟩
    have hbody := b.body_eq bus host true (show t.cpu.hostReturnValid ≠ 0 by rw [← ht]; exact h)
    refine ⟨{ (popReturn bus true (b.work t)).2 with
      cpu := { (popReturn bus true (b.work t)).2.cpu with PB := s.cpu.PB } }, ?_, ?_, rfl⟩
    · simp only [Recompiler.invoke, if_true, withSavedPb, ht, hbody]
    · show (popReturn bus true (b.work t)).2.cpu.S = _
      rw [popReturn_S, b.work_S, ← ht]

/-! ### Which calls keep the stack -/

/-- The call has this target and is not left out. -/
def CallsTo (maps : Maps) (op : CallOp) (target : Nat) : Prop :=
  op.indirect = false ∧ target ∈ op.target ∧
    ¬ (isInvalidLoromCallTarget maps (target &&& 0xFFFFFF) ∧ ¬ maps.nameResolver (target &&& 0xFFFFFF))

/-- The cfg names the variant for this call site, and the call is not left out. -/
def PinnedSite (maps : Maps) (op : CallOp) : Prop :=
  (∃ target, CallsTo maps op target) ∧
    ∃ site ∈ op.sourcePc24, (maps.forceVariantAt (site &&& 0xFFFFFF)).isSome

theorem emitCall_of_pinned {maps : Maps} {op : CallOp} (h : PinnedSite maps op) :
    ∃ target variant, emitCall maps op = .pinned op.long target variant := by
  obtain ⟨⟨target, hind, htarget, hvalid⟩, site, hsite, hforce⟩ := h
  obtain ⟨variant, hvariant⟩ := Option.isSome_iff_exists.mp hforce
  refine ⟨target &&& 0xFFFFFF, variant, ?_⟩
  unfold emitCall
  rw [hind, Option.mem_def.mp htarget, Option.mem_def.mp hsite]
  simp only [Bool.false_eq_true, if_false, if_neg hvalid, Option.bind_some, hvariant]

theorem emitCall_of_callsTo {maps : Maps} {op : CallOp} {target : Nat} (h : CallsTo maps op target)
    (hpin : ¬ PinnedSite maps op) : emitCall maps op =
      .switched op.long (op.sourcePc24.map (· &&& 0xFFFFFF)) (target &&& 0xFFFFFF)
        (validVariantList maps (target &&& 0xFFFFFF)) := by
  have hforce : (op.sourcePc24.bind fun site => maps.forceVariantAt (site &&& 0xFFFFFF)) = none := by
    cases hsite : op.sourcePc24 with
    | none => rfl
    | some site =>
      exact Option.not_isSome_iff_eq_none.mp fun hsome => hpin ⟨⟨target, h⟩, site, hsite, hsome⟩
  obtain ⟨hind, htarget, hvalid⟩ := h
  unfold emitCall
  rw [hind, Option.mem_def.mp htarget, hforce]
  simp only [Bool.false_eq_true, if_false, if_neg hvalid]

theorem emitCall_of_not_callsTo {maps : Maps} {op : CallOp} (h : ∀ target, ¬ CallsTo maps op target) :
    emitCall maps op = .skipped := by
  unfold emitCall
  cases hind : op.indirect with
  | true => rfl
  | false =>
    cases htarget : op.target with
    | none => rfl
    | some target => exact if_pos (by_contra fun hvalid => h target ⟨hind, htarget, hvalid⟩)

/-- The bodies of the program, compiled to return like the call. -/
def compileAll (bus : Bus M) (host : ReturnHost M) (long : Bool)
    (bodies : Nat → Bool × Bool → BalancedBody M) : Nat → Bool × Bool → Body M :=
  fun target variant => (bodies target variant).body bus host long

/-- The switched lines: the frame pushed is the frame popped. -/
theorem runCall_switched (bus : Bus M) (host : ReturnHost M) (long : Bool) (site : Option Nat) (target : Nat)
    {survivors : List (Bool × Bool)} (hne : survivors ≠ []) (bodies : Nat → Bool × Bool → BalancedBody M)
    (s : EmitState M) :
    ∃ v s', dispatchVariant survivors s.cpu.mFlag s.cpu.xFlag = some v ∧
      runCall bus (compileAll bus host long bodies) (.switched long site target survivors) s = .next s' ∧
      s'.cpu.S = s.cpu.S ∧ s'.cpu.PB = if long then s.cpu.PB
        else ((bodies target v).work (emitReturnFramePush bus long site s)).cpu.PB := by
  have hhrv : (emitReturnFramePush bus long site s).cpu.hostReturnValid ≠ 0 := by
    rw [emitReturnFramePush_hrv]
    cases long <;> decide
  obtain ⟨v, hv⟩ := dispatchVariant_isSome s.cpu.mFlag s.cpu.xFlag hne
  obtain ⟨s', hcall, hS, hPB⟩ := (bodies target v).invoke_spec bus host long target hhrv
  have hswitch : runCall bus (compileAll bus host long bodies) (.switched long site target survivors) s =
      propagate (invoke long target (compileAll bus host long bodies target v)
        (emitReturnFramePush bus long site s)) := by
    cases long <;> simp only [runCall, invoke, withSavedPb, emitReturnFramePush, pushByte, if_true,
      Bool.false_eq_true, if_false, hv]
  refine ⟨v, s', hv, hswitch.trans ((congrArg propagate hcall).trans (if_pos rfl)), ?_, ?_⟩
  · rw [hS, emitReturnFramePush_S, BitVec.sub_add_cancel]
  · rw [hPB, emitReturnFramePush_PB]

theorem frameSize_ne_zero (long : Bool) (S : Word) : S + frameSize long ≠ S := by
  have hne : frameSize long ≠ 0#16 := by cases long <;> decide
  intro h
  have h0 : S + frameSize long = S + 0#16 := h.trans (BitVec.add_zero S).symm
  exact hne ((BitVec.add_right_inj S).mp h0)

/-- The pinned lines pop a frame that was never pushed. -/
theorem runCall_pinned (bus : Bus M) (host : ReturnHost M) (long : Bool) (target : Nat) (variant : Bool × Bool)
    (bodies : Nat → Bool × Bool → BalancedBody M) {s : EmitState M} (hs : s.cpu.hostReturnValid ≠ 0) :
    ∃ s', runCall bus (compileAll bus host long bodies) (.pinned long target variant) s = .next s' ∧
      s'.cpu.S = s.cpu.S + frameSize long := by
  obtain ⟨s', hcall, hS, _⟩ := (bodies target variant).invoke_spec bus host long target hs
  exact ⟨s', (congrArg propagate hcall).trans (if_pos rfl), hS⟩

/-- The body that a `JSR` enters, with the frame on the stack, comes to its return in the bank
of the caller. -/
def JsrKeepsPb (bus : Bus M) (maps : Maps) (op : CallOp) (bodies : Nat → Bool × Bool → BalancedBody M) :
    Prop :=
  op.long = false → ∀ target, CallsTo maps op target → ∀ (s : EmitState M),
    ∀ v ∈ dispatchVariant (validVariantList maps (target &&& 0xFFFFFF)) s.cpu.mFlag s.cpu.xFlag,
      ((bodies (target &&& 0xFFFFFF) v).work
        (emitReturnFramePush bus false (op.sourcePc24.map (· &&& 0xFFFFFF)) s)).cpu.PB = s.cpu.PB

theorem jsrKeepsPb_of_keepsPb {bus : Bus M} {maps : Maps} {op : CallOp}
    {bodies : Nat → Bool × Bool → BalancedBody M} (h : ∀ target v, (bodies target v).KeepsPb) :
    JsrKeepsPb bus maps op bodies :=
  fun _ _ _ s _ _ => (h _ _ _).trans (emitReturnFramePush_PB bus false _ s)

/-- A call that is not pinned goes on with `S` as it was, and with `PB` where the callee keeps it. -/
theorem runCall_of_not_pinned (bus : Bus M) (host : ReturnHost M) {maps : Maps} {op : CallOp}
    (hpin : ¬ PinnedSite maps op) (bodies : Nat → Bool × Bool → BalancedBody M) (s : EmitState M) :
    ∃ s', runCall bus (compileAll bus host op.long bodies) (emitCall maps op) s = .next s' ∧
      s'.cpu.S = s.cpu.S ∧ (JsrKeepsPb bus maps op bodies → s'.cpu.PB = s.cpu.PB) := by
  by_cases hto : ∃ target, CallsTo maps op target
  · obtain ⟨target, hto⟩ := hto
    obtain ⟨v, s', hv, hrun, hS, hPB⟩ := runCall_switched bus host op.long
      (op.sourcePc24.map (· &&& 0xFFFFFF)) (target &&& 0xFFFFFF)
      (validVariantList_ne_nil maps (target &&& 0xFFFFFF)) bodies s
    refine ⟨s', (emitCall_of_callsTo hto hpin).symm ▸ hrun, hS, fun hkeeps => ?_⟩
    rw [hPB]
    cases hlong : op.long with
    | true => rfl
    | false => exact hkeeps hlong target hto s v hv
  · rw [emitCall_of_not_callsTo (not_exists.mp hto)]
    exact ⟨s, rfl, rfl, fun _ => rfl⟩

/-- Such a call is itself balanced work, so bodies may nest calls. -/
def BalancedBody.ofCall (bus : Bus M) (host : ReturnHost M) (maps : Maps) (op : CallOp)
    (hpin : ¬ PinnedSite maps op) (bodies : Nat → Bool × Bool → BalancedBody M) :
    BalancedBody M where
  work s :=
    match runCall bus (compileAll bus host op.long bodies) (emitCall maps op) s with
    | .next s' => s'
    | .ret _ _ => s
  work_S s := by
    obtain ⟨s', hrun, hS, _⟩ := runCall_of_not_pinned bus host hpin bodies s
    rw [hrun]
    exact hS

theorem BalancedBody.keepsPb_ofCall (bus : Bus M) (host : ReturnHost M) {maps : Maps} {op : CallOp}
    (hpin : ¬ PinnedSite maps op) {bodies : Nat → Bool × Bool → BalancedBody M}
    (h : JsrKeepsPb bus maps op bodies) : (BalancedBody.ofCall bus host maps op hpin bodies).KeepsPb := by
  intro s
  obtain ⟨s', hrun, _, hPB⟩ := runCall_of_not_pinned bus host hpin bodies s
  unfold BalancedBody.ofCall
  simp only [hrun]
  exact hPB h

/-- With these balanced bodies of the program, the call comes back with `S` and `PB`. -/
def CallBalanced (bus : Bus M) (host : ReturnHost M) (maps : Maps) (op : CallOp)
    (bodies : Nat → Bool × Bool → BalancedBody M) : Prop :=
  ∀ s s' : EmitState M,
    runCall bus (compileAll bus host op.long bodies) (emitCall maps op) s = .next s' →
      s'.cpu.S = s.cpu.S ∧ s'.cpu.PB = s.cpu.PB

/-- **A call keeps `S` and `PB` exactly when the cfg does not pin its variant and, for a `JSR`, the
callee keeps the bank.** -/
theorem callBalanced_iff [Inhabited M] (bus : Bus M) (host : ReturnHost M) (maps : Maps)
    (op : CallOp) (bodies : Nat → Bool × Bool → BalancedBody M) :
    CallBalanced bus host maps op bodies ↔ ¬ PinnedSite maps op ∧ JsrKeepsPb bus maps op bodies := by
  constructor
  · intro h
    have hpin : ¬ PinnedSite maps op := by
      intro hpin
      obtain ⟨target, variant, hcode⟩ := emitCall_of_pinned hpin
      let s : EmitState M := ⟨{ cpuStateInit with hostReturnValid := 2 }, default, fun _ => 0⟩
      obtain ⟨s', hrun, hS⟩ := runCall_pinned bus host op.long target variant bodies
        (show s.cpu.hostReturnValid ≠ 0 from show (2 : Byte) ≠ 0 by decide)
      exact frameSize_ne_zero op.long s.cpu.S (hS.symm.trans (h s s' (hcode ▸ hrun)).1)
    refine ⟨hpin, fun hlong target hto s v hv => ?_⟩
    obtain ⟨v', s', hv', hrun, _, hPB⟩ := runCall_switched bus host op.long
      (op.sourcePc24.map (· &&& 0xFFFFFF)) (target &&& 0xFFFFFF)
      (validVariantList_ne_nil maps (target &&& 0xFFFFFF)) bodies s
    obtain rfl := Option.some.inj (hv'.symm.trans hv)
    have hkept := (h s s' ((emitCall_of_callsTo hto hpin).symm ▸ hrun)).2
    rw [hlong] at hPB
    exact hPB.symm.trans hkept
  · rintro ⟨hpin, hkeeps⟩ s s' hrun
    obtain ⟨t, ht, hS, hPB⟩ := runCall_of_not_pinned bus host hpin bodies s
    obtain rfl := Flow.next.inj (ht.symm.trans hrun)
    exact ⟨hS, hPB hkeeps⟩

/-- A cfg with `force_variant_at 008000 1 1` and nothing else. -/
def pinnedMaps : Maps where
  romSize := 0x10000
  nameResolver _ := false
  validVariants _ := none
  forceVariantAt site := if site = 0x8000 then some (true, true) else none

/-- `JSR $9000` at that site: the callee returns at once, and `S` is two too high. -/
theorem not_callBalanced_pinned :
    let op : CallOp := ⟨some 0x9000, false, false, true, true, some 0x8000, none⟩
    lower ⟨0x8000, 0x20, .jsr, .abs, 0x9000, 3, true, true, false, none⟩ 0 = some [.call op] ∧
      ∀ host : ReturnHost Unit, ¬ CallBalanced silentBus host pinnedMaps op fun _ _ => default := by
  intro op
  refine ⟨rfl, fun host h => ?_⟩
  let s : EmitState Unit := ⟨{ cpuStateInit with hostReturnValid := 2 }, (), fun _ => 0⟩
  have hS := (h s _ rfl).1
  exact absurd hS (show ¬ (0x01FF + 0 + 1 + 1 : Word) = 0x01FF by decide)

end SnesRecomp.Recompiler
