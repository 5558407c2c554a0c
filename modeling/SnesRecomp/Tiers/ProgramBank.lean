import SnesRecomp.Recompiler.CallBalance
import SnesRecomp.Recompiler.Unwind
import SnesRecomp.Tiers.Bridge

/-!
# The program bank

Compiled code keeps the bank it runs in only in `PB`.  A transfer inside the bank leaves
it alone; `JSL`, `JML` and the dispatch tables set it; `JSL` and the tables put it back
after the callee, a `JSR` does not.  The interpreter has its own `k`, copied to `PB`
when it enters a compiled body or ends.

`pbNamesBank_iff`: `PB` names the running bank all along in exactly the runs in which no
`RTL` dispatches into another bank, no near table entry lies in another bank, and no
function returns from another bank to a `JSR`.
-/

namespace SnesRecomp.Tiers

open Recompiler

variable {M : Type}

/-! ### Transfers into a compiled body -/

/-- How a compiled function enters another one. -/
inductive Transfer
  /-- `_emit_call` of a `JSR`. -/
  | jsr
  /-- `_emit_call` of a `JSL`. -/
  | jsl (bank : Byte)
  /-- A hit of `cpu_dispatch_call_pc` on the pointer read in the running bank. -/
  | runtime
  /-- A case of a dispatch table: its entry has a bank of its own, and a `far` one is
  a 24-bit pointer. -/
  | table (call far : Bool) (bank : Byte)
  /-- `_tail_call_stmt` inside the bank. -/
  | tail
  /-- The tail call of a `JML`. -/
  | jml (bank : Byte)
  /-- The dispatch of a popped `RTS` address. -/
  | rts
  /-- The dispatch of a popped `RTL` address. -/
  | rtl (bank : Byte)
  deriving DecidableEq, Repr

namespace Transfer

/-- The bank of the address control goes to, for a function running in `bank`. -/
def bankAt (bank : Byte) : Transfer → Byte
  | jsr | runtime | tail | rts => bank
  | jsl target | jml target | rtl target => target
  | table _ far target => if far then target else bank

/-- `PB` when the body is entered. -/
def pbAt (pb : Byte) : Transfer → Byte
  | jsr | runtime | tail | rts | rtl _ => pb
  | jsl target | jml target | table _ _ target => target

/-- `_saved_pb`. -/
def saves : Transfer → Bool
  | jsl _ | table _ _ _ => true
  | _ => false

/-- The statement the function is suspended at. -/
def link : Transfer → Link
  | jsr | jsl _ | runtime => .call
  | table call _ _ => if call then .call else .dispatch false
  | tail | jml _ => .tail
  | rts | rtl _ => .rts

end Transfer

/-! ### The transfers in the code -/

/-- A call enters its callee with this `PB`. -/
theorem invoke_pbAt (long : Bool) (target : Nat) (callee : Body M) (s : EmitState M) :
    let t : Transfer := if long then .jsl (targetBank target) else .jsr
    (invoke long target callee s).1 =
      (callee { s with cpu := { s.cpu with PB := t.pbAt s.cpu.PB } }).1 := by
  cases long <;> rfl

/-- A `JSL` puts `PB` back. -/
theorem invoke_saved (target : Nat) (callee : Body M) (s : EmitState M) :
    (invoke true target callee s).2.cpu.PB = s.cpu.PB := rfl

/-- The bank of the address `RTS` and `RTL` dispatch on. -/
theorem popReturn_bank (bus : Bus M) (long : Bool) (s : EmitState M) :
    let hi := popByte bus (popByte bus s).2
    let t : Transfer := if long then .rtl (popByte bus hi.2).1 else .rts
    ((popReturn bus long s).1 >>> 16).setWidth 8 = t.bankAt s.cpu.PB ∧
      (popReturn bus long s).2.cpu.PB = t.pbAt s.cpu.PB := by
  intro hi t
  have hbyte : ∀ (b : Byte) (a : Word),
      (((b.setWidth 32 <<< 16) ||| a.setWidth 32 : BitVec 32) >>> 16).setWidth 8 = b := by
    intro b a
    apply BitVec.eq_of_toNat_eq
    have hb := b.isLt
    have ha := a.isLt
    have hshift : b.toNat <<< 16 < 2 ^ 32 := by
      rw [Nat.shiftLeft_eq]
      omega
    rw [BitVec.toNat_setWidth, BitVec.toNat_ushiftRight, BitVec.toNat_or, BitVec.toNat_shiftLeft,
      BitVec.toNat_setWidth, BitVec.toNat_setWidth, Nat.mod_eq_of_lt (by omega : b.toNat < 2 ^ 32),
      Nat.mod_eq_of_lt hshift, Nat.mod_eq_of_lt (by omega : a.toNat < 2 ^ 32),
      Bits.shiftLeft_or_eq_add ha, Nat.shiftRight_eq_div_pow]
    omega
  cases long with
  | false => exact ⟨hbyte _ _, rfl⟩
  | true => exact ⟨hbyte _ _, rfl⟩

/-- A dispatch that hits enters the body with `PB` as it is. -/
theorem cpuDispatchPcFrom_hit {table : DispatchTable M} {pc24 : BitVec 32} {cpu : CpuState}
    {fp : Compiled M} (h : cpuDispatchFind table cpu pc24 = some fp) (entryS : Word) (m : M) :
    cpuDispatchPcFrom table pc24 entryS cpu m = fp { cpu with hostReturnValid := 0 } m := by
  unfold cpuDispatchPcFrom
  rw [h]

/-- A bounce enters it with the interpreter's bank. -/
theorem syncInterpToCpu_PB (i : Interp816 M) (cpu : CpuState) :
    (syncInterpToCpu i cpu).PB = i.k := rfl

/-! ### Runs -/

/-- Who executes: a compiled function, whose body was entered in `bank`, or the
interpreter. -/
inductive Running
  | compiled (bank : Byte)
  | interp (k : Byte)
  deriving DecidableEq, Repr

/-- Who waits for a callee: a compiled function, or the interpreter at a bounce, with the
bank it goes on in. -/
inductive Waiting
  | compiled (bank : Byte) (saved : Option Byte) (link : Link)
  | interp (resume : Byte)
  deriving DecidableEq, Repr

structure PbHost where
  pb : Byte
  running : Option Running
  callers : List Waiting
  deriving DecidableEq, Repr

/-- The entry function runs in its bank. -/
def PbHost.start (bank : Byte) : PbHost := ⟨bank, some (.compiled bank), []⟩

/-- The return `r` on its way out, with `pb` in the register.  An interpreter run that a
nonzero answer ends returns normally. -/
def pbReturn : List Waiting → RecompReturn → Byte → PbHost
  | [], _, pb => ⟨pb, none, []⟩
  | .compiled bank saved link :: callers, r, pb =>
    match link.passUp r with
    | none => ⟨saved.getD pb, some (.compiled bank), callers⟩
    | some r' => pbReturn callers r' (saved.getD pb)
  | .interp resume :: callers, r, pb =>
    if r = recompReturnNormal then ⟨pb, some (.interp resume), callers⟩
    else pbReturn callers recompReturnNormal pb

inductive PbStep
  | enter (t : Transfer)
  /-- The interpreter runs an address without a compiled body. -/
  | tierDown (call : Bool) (bank : Byte)
  /-- It executes an instruction. -/
  | interpret (k : Byte)
  /-- It enters a compiled body, to go on in `resume`. -/
  | bounce (resume : Byte)
  /-- A compiled function returns. -/
  | ret (r : RecompReturn)
  /-- The interpreter run ends. -/
  | leave
  deriving DecidableEq, Repr

def pbStep : PbStep → PbHost → PbHost
  | .enter t, h =>
    match h.running with
    | some (.compiled bank) =>
      ⟨t.pbAt h.pb, some (.compiled (t.bankAt bank)),
        .compiled bank (if t.saves then some h.pb else none) t.link :: h.callers⟩
    | _ => h
  | .tierDown call target, h =>
    match h.running with
    | some (.compiled bank) =>
      ⟨h.pb, some (.interp target),
        .compiled bank none (if call then .call else .tail) :: h.callers⟩
    | _ => h
  | .interpret k, h =>
    match h.running with
    | some (.interp _) => { h with running := some (.interp k) }
    | _ => h
  | .bounce resume, h =>
    match h.running with
    | some (.interp k) => ⟨k, some (.compiled k), .interp resume :: h.callers⟩
    | _ => h
  | .ret r, h =>
    match h.running with
    | some (.compiled _) => pbReturn h.callers r h.pb
    | _ => h
  | .leave, h =>
    match h.running with
    | some (.interp k) => pbReturn h.callers recompReturnNormal k
    | _ => h

/-- `PB` is the bank of the address at which the running body was entered. -/
def PbHost.Named (h : PbHost) : Prop := ∀ bank, h.running = some (.compiled bank) → h.pb = bank

/-- After the step, in particular when it enters a body, `PB` names the running bank. -/
def PbNamesBank (a : PbStep) (h : PbHost) : Prop := (pbStep a h).Named

/-- The function that goes on put `PB` back itself, or finds its own bank there. -/
def ReturnsToOwnBank : List Waiting → RecompReturn → Byte → Prop
  | [], _, _ => True
  | .compiled bank saved link :: callers, r, pb =>
    match link.passUp r with
    | none => saved.isSome ∨ pb = bank
    | some r' => ReturnsToOwnBank callers r' (saved.getD pb)
  | .interp _ :: callers, r, pb =>
    r = recompReturnNormal ∨ ReturnsToOwnBank callers recompReturnNormal pb

/-- The step keeps to the running bank where the code relies on it. -/
def KeepsBank : PbStep → PbHost → Prop
  | .enter t, h => ∀ bank, h.running = some (.compiled bank) →
    match t with
    | .rtl target | .table _ false target => target = bank
    | _ => True
  | .ret r, h => ∀ bank, h.running = some (.compiled bank) → ReturnsToOwnBank h.callers r bank
  | .leave, h => ∀ k, h.running = some (.interp k) →
    ReturnsToOwnBank h.callers recompReturnNormal k
  | .tierDown _ _, _ | .interpret _, _ | .bounce _, _ => True

/-! ### The invariant -/

/-- What a waiting function saved is its bank. -/
def SavedOwn (callers : List Waiting) : Prop :=
  ∀ bank saved link, .compiled bank (some saved) link ∈ callers → saved = bank

theorem SavedOwn.tail {w : Waiting} {callers : List Waiting} (h : SavedOwn (w :: callers)) :
    SavedOwn callers :=
  fun bank saved link hmem => h bank saved link (List.mem_cons_of_mem w hmem)

theorem savedOwn_compiled {bank : Byte} {saved : Option Byte} {callers : List Waiting}
    (hsaved : ∀ pb ∈ saved, pb = bank) (h : SavedOwn callers) (link : Link) :
    SavedOwn (.compiled bank saved link :: callers) := by
  intro bank' pb link' hmem
  rcases List.mem_cons.mp hmem with heq | hmem
  · obtain ⟨rfl, rfl, rfl⟩ := Waiting.compiled.inj heq
    exact hsaved pb rfl
  · exact h bank' pb link' hmem

theorem savedOwn_interp {callers : List Waiting} (h : SavedOwn callers) (resume : Byte) :
    SavedOwn (.interp resume :: callers) := by
  intro bank pb link hmem
  rcases List.mem_cons.mp hmem with heq | hmem
  · cases heq
  · exact h bank pb link hmem

theorem savedOwn_pbReturn : ∀ (callers : List Waiting) (r : RecompReturn) (pb : Byte),
    SavedOwn callers → SavedOwn (pbReturn callers r pb).callers := by
  intro callers
  induction callers with
  | nil => intro r pb h; exact h
  | cons w callers ih =>
    intro r pb h
    cases w with
    | compiled bank saved link =>
      rw [pbReturn]
      cases link.passUp r with
      | none => exact h.tail
      | some r' => exact ih r' _ h.tail
    | interp resume =>
      rw [pbReturn]
      split
      · exact h.tail
      · exact ih _ pb h.tail

theorem named_pbReturn_iff : ∀ (callers : List Waiting) (r : RecompReturn) (pb : Byte),
    SavedOwn callers → ((pbReturn callers r pb).Named ↔ ReturnsToOwnBank callers r pb) := by
  intro callers
  induction callers with
  | nil =>
    intro r pb _
    exact iff_of_true (fun bank h => by cases h) trivial
  | cons w callers ih =>
    intro r pb h
    cases w with
    | compiled bank saved link =>
      rw [pbReturn, ReturnsToOwnBank]
      cases link.passUp r with
      | some r' => exact ih r' _ h.tail
      | none =>
        have hgoesOn : (⟨saved.getD pb, some (.compiled bank), callers⟩ : PbHost).Named ↔
            saved.getD pb = bank := by
          constructor
          · intro hnamed
            exact hnamed bank rfl
          · intro hpb bank' hrun
            rw [← Running.compiled.inj (Option.some.inj hrun)]
            exact hpb
        rw [hgoesOn]
        cases saved with
        | none =>
          show pb = bank ↔ _
          simp
        | some pb' => exact iff_of_true (h bank pb' link List.mem_cons_self) (Or.inl rfl)
    | interp resume =>
      rw [pbReturn, ReturnsToOwnBank]
      by_cases hr : r = recompReturnNormal
      · rw [if_pos hr]
        exact iff_of_true (fun bank hrun => by cases hrun) (Or.inl hr)
      · rw [if_neg hr, ih _ pb h.tail]
        exact ⟨Or.inr, fun hor => hor.resolve_left hr⟩

/-- The invariant of a run. -/
def PbHost.Inv (h : PbHost) : Prop := h.Named ∧ SavedOwn h.callers

theorem named_compiled_iff {pb bank : Byte} {callers : List Waiting} :
    (⟨pb, some (.compiled bank), callers⟩ : PbHost).Named ↔ pb = bank := by
  constructor
  · intro h
    exact h bank rfl
  · intro h bank' hrun
    rw [← Running.compiled.inj (Option.some.inj hrun)]
    exact h

/-- The banks in which a transfer leaves the register right. -/
theorem pbAt_eq_bankAt_iff (t : Transfer) (bank : Byte) :
    t.pbAt bank = t.bankAt bank ↔
      match t with
      | .rtl target | .table _ false target => target = bank
      | _ => True := by
  cases t with
  | table call far target => cases far <;> simp [Transfer.pbAt, Transfer.bankAt]
  | rtl target => exact eq_comm
  | _ => exact iff_of_true rfl trivial

/-- One step, from a state of the invariant. -/
theorem pbNamesBank_step (a : PbStep) (h : PbHost) (hinv : h.Inv) :
    PbNamesBank a h ↔ KeepsBank a h := by
  obtain ⟨pb, running, callers⟩ := h
  obtain ⟨hnamed, hsaved⟩ := hinv
  rcases running with _ | ⟨bank⟩ | ⟨k⟩
  · have hidle : (⟨pb, none, callers⟩ : PbHost).Named := fun bank hrun => by cases hrun
    cases a <;> refine iff_of_true hidle ?_ <;> first | trivial | exact fun _ hrun => by cases hrun
  · obtain rfl : pb = bank := hnamed bank rfl
    cases a with
    | enter t =>
      refine named_compiled_iff.trans ((pbAt_eq_bankAt_iff t pb).trans ?_)
      constructor
      · intro h bank hrun
        rw [← Running.compiled.inj (Option.some.inj hrun)]
        exact h
      · intro h
        exact h pb rfl
    | tierDown call target => exact iff_of_true (fun bank hrun => by cases hrun) trivial
    | interpret k => exact iff_of_true hnamed trivial
    | bounce resume => exact iff_of_true hnamed trivial
    | ret r =>
      refine (named_pbReturn_iff callers r pb hsaved).trans ?_
      constructor
      · intro h bank hrun
        rw [← Running.compiled.inj (Option.some.inj hrun)]
        exact h
      · intro h
        exact h pb rfl
    | leave => exact iff_of_true hnamed (fun k hrun => by cases hrun)
  · cases a with
    | enter t => exact iff_of_true hnamed (fun bank hrun => by cases hrun)
    | tierDown call target => exact iff_of_true hnamed trivial
    | interpret k' => exact iff_of_true (fun bank hrun => by cases hrun) trivial
    | bounce resume => exact iff_of_true (named_compiled_iff.mpr rfl) trivial
    | ret r => exact iff_of_true hnamed (fun bank hrun => by cases hrun)
    | leave =>
      refine (named_pbReturn_iff callers recompReturnNormal k hsaved).trans ?_
      constructor
      · intro h k' hrun
        rw [← Running.interp.inj (Option.some.inj hrun)]
        exact h
      · intro h
        exact h k rfl

theorem savedOwn_pbStep (a : PbStep) (h : PbHost) (hinv : h.Inv) :
    SavedOwn (pbStep a h).callers := by
  obtain ⟨pb, running, callers⟩ := h
  obtain ⟨hnamed, hsaved⟩ := hinv
  rcases running with _ | ⟨bank⟩ | ⟨k⟩
  · cases a <;> exact hsaved
  · obtain rfl : pb = bank := hnamed bank rfl
    cases a with
    | enter t =>
      refine savedOwn_compiled ?_ hsaved t.link
      intro pb' hmem
      cases hs : t.saves with
      | false =>
        rw [hs] at hmem
        cases hmem
      | true =>
        rw [hs] at hmem
        exact (Option.some.inj hmem).symm
    | tierDown call target => exact savedOwn_compiled (fun pb' hmem => by cases hmem) hsaved _
    | interpret k => exact hsaved
    | bounce resume => exact hsaved
    | ret r => exact savedOwn_pbReturn callers r pb hsaved
    | leave => exact hsaved
  · cases a with
    | bounce resume => exact savedOwn_interp hsaved resume
    | leave => exact savedOwn_pbReturn callers _ k hsaved
    | _ => exact hsaved

/-- **`PB` names the running bank after every step of a run, and so whenever it enters a
body, in exactly the runs whose steps all keep to the running bank.** -/
theorem pbNamesBank_iff (bank : Byte) (steps : List PbStep) :
    Runs.StepsMeet pbStep PbNamesBank steps (PbHost.start bank) ↔
      Runs.StepsMeet pbStep KeepsBank steps (PbHost.start bank) := by
  have hstart : (PbHost.start bank).Inv :=
    ⟨named_compiled_iff.mpr rfl, fun _ _ _ hmem => by cases hmem⟩
  refine Runs.stepsMeet_iff pbStep pbNamesBank_step ?_ steps _ hstart
  intro a h hinv hkeeps
  exact ⟨(pbNamesBank_step a h hinv).mpr hkeeps, savedOwn_pbStep a h hinv⟩

/-! ### An `RTL` into another bank -/

/-- Bank zero as plain memory. -/
def pageBus : Bus (Word → Byte) where
  read8 _ a m := (m a, m)
  read16 _ a m := (mkWord (m a) (m (a + 1)), m)
  write8 _ a v m := Function.update m a v
  write16 _ a v m := Function.update (Function.update m a (loByte v)) (a + 1) (hiByte v)

/-- A body registered at `$819000`; it answers `1` where `PB` is its bank, and `2` elsewhere. -/
def bankProbe : DispatchTable (Word → Byte) := fun pc24 _ _ =>
  if pc24 = 0x819000 then some fun cpu m => (if cpu.PB = 0x81 then 1 else 2, cpu, m) else none

/-- The dispatch behind a return of the compiled code. -/
def probeHost : ReturnHost (Word → Byte) where
  resolveAncestorSkip _ := -1
  dispatchPcFrom pc24 entryS s :=
    let r := cpuDispatchPcFrom bankProbe pc24 entryS s.cpu s.mem
    (r.1, { s with cpu := r.2.1, mem := r.2.2 })

/-- Running in bank zero, with the frame of `$818FFF` on the stack. -/
def beforeRtl : EmitState (Word → Byte) where
  cpu := { cpuStateInit with S := 0x1F0 }
  mem a := if a = 0x1F1 then 0xFF else if a = 0x1F2 then 0x8F else 0x81
  vals _ := 0

/-- An `RTL` in bank `$00` that pops `$819000` enters the body there with `PB` still zero. -/
theorem not_pbNamesBank_rtl :
    ¬ Runs.StepsMeet pbStep PbNamesBank [.enter (.rtl 0x81)] (PbHost.start 0) ∧
      (popReturn pageBus true beforeRtl).1 = 0x819000 ∧
      (emitReturn pageBus probeHost true ⟨0x1F0, 0⟩ beforeRtl).1 = 2 := by
  refine ⟨?_, by decide, by decide⟩
  rintro ⟨hnamed, _⟩
  exact absurd (hnamed 0x81 rfl) (by decide)

end SnesRecomp.Tiers
