import SnesRecomp.Recompiler.Emit

/-!
# Calls and returns of the compiled code

The lines of `_emit_call`, `_emit_return` and the prologue of `emit_function.py`.  A
compiled function is a host function on `CpuState` that answers with a `RecompReturn`.
A direct call pushes the return frame of `JSR` or `JSL` on the simulated stack and tells
the callee its size through `host_return_valid`; the callee's `RTS` or `RTL` always pops
a frame, and host-returns when it is the one it was entered with.

What `_emit_call` writes is a `CallCode`; running it is `runCall`.  The functions a
return falls back on (`cpu_resolve_ancestor_skip`, `cpu_dispatch_pc_from`) come in
through `ReturnHost`.
-/

namespace SnesRecomp.Recompiler

variable {M : Type}

/-- A compiled function. -/
abbrev Body (M : Type) := EmitState M → RecompReturn × EmitState M

/-- What the lines of one instruction do: go on, or leave the function. -/
inductive Flow (M : Type)
  | next (s : EmitState M)
  | ret (r : RecompReturn) (s : EmitState M)

/-! ### Which body a call enters -/

/-- The cfg and prune maps of `codegen.py`. -/
structure Maps where
  romSize : Nat
  nameResolver : Nat → Bool
  validVariants : Nat → Option (List (Bool × Bool))
  forceVariantAt : Nat → Option (Bool × Bool)

/-- `_is_invalid_lorom_call_target`. -/
def isInvalidLoromCallTarget (maps : Maps) (addr24 : Nat) : Bool :=
  let pc := addr24 &&& 0xFFFF
  if pc < 0x8000 then true
  else
    let offset := ((addr24 >>> 16) &&& 0x7F) * 0x8000 + (pc - 0x8000)
    decide (0 < maps.romSize ∧ maps.romSize ≤ offset)

/-- `_MX_VARIANTS`. -/
def mxVariants : List (Bool × Bool) := [(false, false), (false, true), (true, false), (true, true)]

/-- `valid_variant_list`. -/
def validVariantList (maps : Maps) (addr24 : Nat) : List (Bool × Bool) :=
  let a := addr24 &&& 0xFFFFFF
  let bank := (a >>> 16) &&& 0xFF
  let s :=
    match maps.validVariants a with
    | some s => some s
    | none =>
      if bank < 0x40 ∨ (0x80 ≤ bank ∧ bank < 0xC0) then maps.validVariants (a ^^^ 0x800000)
      else none
  match s with
  | some s => if s = [] then mxVariants else mxVariants.filter (· ∈ s)
  | none => mxVariants

/-- The cost of `_nearest_survivor`: the accumulator width counts double. -/
def variantCost (m x : Bool) (v : Bool × Bool) : Nat :=
  (if v.1 = m then 0 else 2) + (if v.2 = x then 0 else 1)

/-- `_nearest_survivor`: the first of least cost. -/
def nearestSurvivor (m x : Bool) : List (Bool × Bool) → Option (Bool × Bool)
  | [] => none
  | v :: vs =>
    match nearestSurvivor m x vs with
    | none => some v
    | some w => if variantCost m x v ≤ variantCost m x w then some v else some w

/-- The variant a case of the switch enters. -/
def dispatchVariant (survivors : List (Bool × Bool)) (m x : Bool) : Option (Bool × Bool) :=
  if (m, x) ∈ survivors then some (m, x) else nearestSurvivor m x survivors

/-- A line of the switch on the widths: `none` labels the default, and a line without a
variant is `_r = RECOMP_RETURN_NORMAL; break;`. -/
structure CaseLine where
  label : Option (Bool × Bool)
  variant : Option (Bool × Bool)
  deriving DecidableEq, Repr

/-- `variant_dispatch_case_lines`. -/
def variantDispatchCaseLines (maps : Maps) (addr24 : Nat) : List CaseLine :=
  let survivors := validVariantList maps addr24
  let cases := mxVariants.filterMap fun v =>
    if v ∈ survivors then some ⟨some v, some v⟩
    else if survivors ≠ [] then some ⟨some v, nearestSurvivor v.1 v.2 survivors⟩
    else none
  cases ++ [⟨none, if survivors ≠ [] then nearestSurvivor false false survivors else none⟩]

/-! ### `_emit_call` -/

/-- The lines of one call. -/
inductive CallCode
  /-- Only a comment. -/
  | skipped
  /-- The cfg names the variant: no frame is pushed. -/
  | pinned (long : Bool) (target : Nat) (variant : Bool × Bool)
  /-- A frame for the call site, then a switch on the widths. -/
  | switched (long : Bool) (site : Option Nat) (target : Nat) (survivors : List (Bool × Bool))
  deriving DecidableEq, Repr

/-- `_emit_call`. -/
def emitCall (maps : Maps) (op : CallOp) : CallCode :=
  if op.indirect then .skipped
  else
    match op.target with
    | none => .skipped
    | some target =>
      let addr := target &&& 0xFFFFFF
      if isInvalidLoromCallTarget maps addr ∧ ¬ maps.nameResolver addr then .skipped
      else
        match op.sourcePc24.bind fun site => maps.forceVariantAt (site &&& 0xFFFFFF) with
        | some variant => .pinned op.long addr variant
        | none =>
          .switched op.long (op.sourcePc24.map (· &&& 0xFFFFFF)) addr (validVariantList maps addr)

/-- `_emit_return_frame_push`: the bank for `JSL`, then the address the return adds one to. -/
def emitReturnFramePush (bus : Bus M) (long : Bool) (site : Option Nat) (s : EmitState M) :
    EmitState M :=
  let ret16 : Word :=
    match site with
    | some site => BitVec.ofNat 16 (if long then site + 3 else site + 2)
    | none => 0xFFFF
  let pbr : Byte :=
    match site with
    | some site => BitVec.ofNat 8 ((site >>> 16) &&& 0xFF)
    | none => 0xFF
  let s := if long then pushByte bus pbr s else s
  let s := pushByte bus (loByte ret16) (pushByte bus (hiByte ret16) s)
  { s with cpu := { s.cpu with hostReturnValid := if long then 3 else 2 } }

def targetBank (target : Nat) : Byte := BitVec.ofNat 8 ((target >>> 16) &&& 0xFF)

/-- `cpu->PB` set for the callee and put back after it. -/
def withSavedPb (bank : Byte) (call : Body M) : Body M := fun s =>
  let saved := s.cpu.PB
  let r := call { s with cpu := { s.cpu with PB := bank } }
  (r.1, { r.2 with cpu := { r.2.cpu with PB := saved } })

/-- `if (_r != RECOMP_RETURN_NORMAL) return _r - 1;`. -/
def propagate (r : RecompReturn × EmitState M) : Flow M :=
  if r.1 = recompReturnNormal then .next r.2 else .ret (r.1 - 1) r.2

/-- The callee, in its bank for `JSL`. -/
def invoke (long : Bool) (target : Nat) (callee : Body M) : Body M :=
  if long then withSavedPb (targetBank target) callee else callee

/-- The effect of the lines of a call, given the bodies of the program. -/
def runCall (bus : Bus M) (bodies : Nat → Bool × Bool → Body M) : CallCode → EmitState M → Flow M
  | .skipped, s => .next s
  | .pinned long target variant, s => propagate (invoke long target (bodies target variant) s)
  | .switched long site target survivors, s =>
    let s := emitReturnFramePush bus long site s
    let callee : Body M := fun s =>
      match dispatchVariant survivors s.cpu.mFlag s.cpu.xFlag with
      | some variant => bodies target variant s
      | none => (recompReturnNormal, s)
    propagate (invoke long target callee s)

/-! ### Entering and leaving a function -/

/-- The locals of a compiled function that its return reads. -/
structure Locals where
  entryS : Word
  hrv : Byte
  deriving DecidableEq, Repr

/-- The prologue: `pending` is the return context a tail call hands over. -/
def enter (entrySOffset : Int) (pending : Option Locals) (s : EmitState M) :
    Locals × EmitState M :=
  match pending with
  | none => (⟨s.cpu.S + BitVec.ofInt 16 entrySOffset, s.cpu.hostReturnValid⟩, s)
  | some l => (l, { s with cpu := { s.cpu with hostReturnValid := l.hrv } })

/-- What a return that is not a host return falls back on. -/
structure ReturnHost (M : Type) where
  resolveAncestorSkip : Word → Int
  dispatchPcFrom : BitVec 32 → Word → EmitState M → RecompReturn × EmitState M

/-- The size of the frame `RTS` or `RTL` pops. -/
def frameSize (long : Bool) : Word := if long then 3 else 2

/-- The pops of `RTS` and `RTL`: the 24-bit address they return to. -/
def popReturn (bus : Bus M) (long : Bool) (s : EmitState M) : BitVec 32 × EmitState M :=
  let lo := popByte bus s
  let hi := popByte bus lo.2
  let bank := if long then popByte bus hi.2 else (hi.2.cpu.PB, hi.2)
  ((bank.1.setWidth 32 <<< 16) ||| (mkWord lo.1 hi.1 + 1).setWidth 32, bank.2)

/-- `_emit_return` of `RTS` and `RTL`. -/
def emitReturn (bus : Bus M) (host : ReturnHost M) (long : Bool) (l : Locals) (s : EmitState M) :
    RecompReturn × EmitState M :=
  let retS := s.cpu.S
  let popped := popReturn bus long s
  if l.hrv ≠ 0 ∧ retS = l.entryS then (recompReturnNormal, popped.2)
  else if retS ≠ l.entryS ∧ 0 ≤ host.resolveAncestorSkip retS then
    (host.resolveAncestorSkip retS, popped.2)
  else host.dispatchPcFrom popped.1 (l.entryS + frameSize long) popped.2

/-- `_emit_return` of `RTI`: `P` from the interrupt frame, the rest discarded. -/
def emitRti (bus : Bus M) (s : EmitState M) : EmitState M :=
  let p := popByte bus s
  let s := { p.2 with cpu := cpuPToMirrors { p.2.cpu with P := p.1 } }
  let s := { s with cpu := { s.cpu with S := s.cpu.S + 2 } }
  if s.cpu.emulation then s else { s with cpu := { s.cpu with S := s.cpu.S + 1 } }

/-- `RTI` pops three bytes, and a fourth in native mode. -/
theorem emitRti_S (bus : Bus M) (s : EmitState M) :
    (emitRti bus s).cpu.S = if s.cpu.emulation then s.cpu.S + 3 else s.cpu.S + 4 := by
  cases he : s.cpu.emulation with
  | true =>
    have hS : (emitRti bus s).cpu.S = s.cpu.S + 1 + 2 := by
      simp only [emitRti]
      rw [if_pos (by exact he)]
      rfl
    rw [hS, if_pos rfl]
    bv_omega
  | false =>
    have hS : (emitRti bus s).cpu.S = s.cpu.S + 1 + 2 + 1 := by
      simp only [emitRti]
      rw [if_neg (by rw [Bool.not_eq_true]; exact he)]
      rfl
    rw [hS]
    simp only [Bool.false_eq_true, if_false]
    bv_omega

theorem emitRti_emulation (bus : Bus M) (s : EmitState M) :
    (emitRti bus s).cpu.emulation = s.cpu.emulation := by
  simp only [emitRti]
  split <;> rfl

theorem emitRti_PB (bus : Bus M) (s : EmitState M) :
    (emitRti bus s).cpu.PB = s.cpu.PB := by
  simp only [emitRti]
  split <;> rfl

/-- The `SEP #$30` and `host_return_valid = 0` of `_emit_dispatch`. -/
def dispatchReset (cpu : CpuState) : CpuState := { emitSep 0x30 cpu with hostReturnValid := 0 }

end SnesRecomp.Recompiler
