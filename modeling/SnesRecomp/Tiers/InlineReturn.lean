import SnesRecomp.Interp.Registers
import SnesRecomp.Recompiler.InlineArgs
import SnesRecomp.Tiers.DataMovement
import SnesRecomp.Tiers.ScannedCode

/-!
# Returns past inline arguments

What the processor does in a routine that `detect_inline_arg_bytes` finds.  `Follows` is a run
that comes through the scanned instructions in order.  Only some of them matter: `needs` goes
through the scan from its end and says where the value that is written back is in `A` or `Y`.
There the registers hold the return address and what was added to it (`tracks_of_follows`), so
that the write-back leaves the return address advanced by the bytes that were found.
-/

namespace SnesRecomp.Tiers

open Recompiler Interp816

variable {M : Type}

/-! ### The instructions between the load and the write-back -/

theorem keepsA_of_mem : ∀ op ∈ aPreserving, keepsA (opOf op) = true := by decide +kernel

theorem keepsY_of_mem : ∀ op ∈ aPreserving, op ∉ yChanging → op ≠ 0xA8 → keepsY (opOf op) = true := by
  decide +kernel

/-! ### The return address -/

/-- The word in two bytes of bank zero. -/
def stackWord (bus : Bus M) (adr : Word) (m : M) : Word :=
  mkWord (bus.read8 0 adr m).1 (bus.read8 0 (adr + 1) m).1

/-- The two bytes are memory: reading changes nothing, and what is written is read back. -/
structure IsRam (bus : Bus M) (adr : Word) : Prop where
  low : ∀ m, (bus.read8 0 adr m).2 = m
  high : ∀ m, (bus.read8 0 (adr + 1) m).2 = m
  stored : ∀ lo hi m, stackWord bus adr (bus.write8 0 (adr + 1) hi (bus.write8 0 adr lo m)) = mkWord lo hi

/-- The processor is at the instruction the scan is at. -/
abbrev AtScan (bus : Bus M) (rom : Rom) (bank : Nat) (sc : InlineScan) (ins : Insn) (i : Interp816 M) :
    Prop :=
  AtCode bus rom bank sc.pc sc.m sc.x ins i

/-! ### What is written back -/

/-- Whether the register holds what the write-back is going to store. -/
structure Needs where
  a : Bool
  y : Bool
  deriving DecidableEq

/-- In front of an instruction, from behind it. -/
def Needs.before (n : Needs) : ScanKind → Needs
  | .load => ⟨false, n.y⟩
  | .tay => ⟨n.a || n.y, false⟩
  | .tya => ⟨false, n.a || n.y⟩
  | _ => n

/-- For a scan with `budget` instructions left. -/
def needs (rom : Rom) (bank : Nat) : Nat → InlineScan → Needs
  | 0, _ => ⟨false, false⟩
  | budget + 1, sc =>
    match decodeAt rom bank sc.pc sc.m sc.x with
    | none => ⟨false, false⟩
    | some ins =>
      if sc.writesBack ins then ⟨true, false⟩ else (needs rom bank budget (sc.next ins)).before (sc.kind ins)

theorem needs_step {rom : Rom} {bank budget : Nat} {sc : InlineScan} {ins : Insn}
    (hread : decodeAt rom bank sc.pc sc.m sc.x = some ins) (hback : sc.writesBack ins = false) :
    needs rom bank (budget + 1) sc = (needs rom bank budget (sc.next ins)).before (sc.kind ins) := by
  rw [needs, hread]
  dsimp only
  rw [hback, if_neg Bool.false_ne_true]

theorem copySlot_isSome {s : Option Nat} {added : Nat} (h : (copySlot s added).1.isSome = true) :
    s.isSome = true := by
  cases s with
  | none => cases h
  | some s => rfl

theorem isSome_aSlot_of_next {sc : InlineScan} {ins : Insn} (hload : sc.kind ins ≠ .load)
    (htya : sc.kind ins ≠ .tya) (h : (sc.next ins).aSlot.isSome = true) : sc.aSlot.isSome = true := by
  simp only [InlineScan.next, InlineScan.track] at h
  cases hkind : sc.kind ins with simp only [hkind] at h
  | load => exact absurd hkind hload
  | tya => exact absurd hkind htya
  | preserve =>
    split at h
    · exact h
    · exact h
  | clobber => cases h
  | _ => exact h

theorem isSome_ySlot_of_next {sc : InlineScan} {ins : Insn} (htay : sc.kind ins ≠ .tay)
    (h : (sc.next ins).ySlot.isSome = true) : sc.ySlot.isSome = true := by
  simp only [InlineScan.next, InlineScan.track] at h
  cases hkind : sc.kind ins with simp only [hkind] at h
  | tay => exact absurd hkind htay
  | preserve =>
    split at h
    · cases h
    · exact h
  | _ => exact h

/-- What is going to be stored was loaded from a slot. -/
theorem isSome_of_needs {rom : Rom} {bank n : Nat} : ∀ {budget : Nat} {sc : InlineScan},
    scanInlineArgs rom bank budget sc = some n →
    ((needs rom bank budget sc).a = true → sc.aSlot.isSome = true) ∧
      ((needs rom bank budget sc).y = true → sc.ySlot.isSome = true) := by
  intro budget
  induction budget with
  | zero => intro sc h; cases h
  | succ budget ih =>
    intro sc h
    cases hread : decodeAt rom bank sc.pc sc.m sc.x with
    | none =>
      rw [scanInlineArgs, hread] at h
      cases h
    | some ins =>
      by_cases hback : sc.writesBack ins = true
      · rw [needs, hread]
        dsimp only
        rw [if_pos hback]
        simp only [InlineScan.writesBack, Bool.and_eq_true, decide_eq_true_eq] at hback
        exact ⟨fun _ => Option.isSome_iff_exists.mpr ⟨_, hback.1.2⟩, fun hy => by cases hy⟩
      · have hback := Bool.eq_false_iff.mpr hback
        rw [needs_step hread hback]
        obtain ⟨ha, hy⟩ := ih (scan_next h hread hback)
        cases hkind : sc.kind ins with
        | load =>
          exact ⟨fun hneeds => (by cases hneeds),
            fun hneeds => isSome_ySlot_of_next (by rw [hkind]; decide) (hy hneeds)⟩
        | tay =>
          refine ⟨fun hneeds => ?_, fun hneeds => by cases hneeds⟩
          rcases Bool.or_eq_true_iff.mp hneeds with hneeds | hneeds
          · exact isSome_aSlot_of_next (by rw [hkind]; decide) (by rw [hkind]; decide) (ha hneeds)
          · have hslot := hy hneeds
            simp only [InlineScan.next, InlineScan.track, hkind] at hslot
            exact copySlot_isSome hslot
        | tya =>
          refine ⟨fun hneeds => (by cases hneeds), fun hneeds => ?_⟩
          rcases Bool.or_eq_true_iff.mp hneeds with hneeds | hneeds
          · have hslot := ha hneeds
            simp only [InlineScan.next, InlineScan.track, hkind] at hslot
            exact copySlot_isSome hslot
          · exact isSome_ySlot_of_next (by rw [hkind]; decide) (hy hneeds)
        | _ =>
          exact ⟨fun hneeds => isSome_aSlot_of_next (by rw [hkind]; decide) (by rw [hkind]; decide) (ha hneeds),
            fun hneeds => isSome_ySlot_of_next (by rw [hkind]; decide) (hy hneeds)⟩

/-- What has to hold where an instruction runs. `ret` is the address of the return address and
`pushed` its value at the entry, `n` is what is needed behind the instruction, and `j` is the state at
the next one of the scan. -/
@[mk_iff]
structure InlineStep (bus : Bus M) (ret pushed : Word) (n : Needs) (sc : InlineScan) (ins : Insn)
    (i j : Interp816 M) : Prop where
  /-- The slot is that of the return address, and the whole of it is loaded, as it was pushed. -/
  load : sc.kind ins = .load → n.a = true → i.mf = false ∧
    i.sp + BitVec.ofNat 16 (ins.operand &&& 0xFF) = ret ∧ stackWord bus ret i.mem = pushed
  tay : sc.kind ins = .tay → n.y = true → i.xf = false
  tya : sc.kind ins = .tya → n.a = true → i.mf = false
  add : sc.kind ins = .add → n.a = true → i.mf = false ∧ i.c = false ∧ i.d = false
  /-- What the scan does not know to change `Y` keeps it. -/
  y : sc.kind ins = .rep ∨ sc.kind ins = .sep ∨ sc.kind ins = .clobber → n.y = true →
    (runOpcode (bridgeBus bus) i).y = i.y
  /-- What runs before the next one leaves the registers alone. -/
  restA : n.a = true → j.a = (runOpcode (bridgeBus bus) i).a
  restY : n.y = true → j.y = (runOpcode (bridgeBus bus) i).y

/-- A run that comes through the instructions of the scan in order, with the budget its loop has left.
Behind each of them others may run first: an interrupt, a call, or the turns of a loop. -/
inductive Follows (bus : Bus M) (rom : Rom) (bank : Nat) (ret : Word) (sc₀ : InlineScan)
    (i₀ : Interp816 M) : Nat → InlineScan → Interp816 M → Prop
  | entry (k : Nat) : Follows bus rom bank ret sc₀ i₀ 96 sc₀ ((runOpcode (bridgeBus bus))^[k] i₀)
  | step {budget sc i ins} (k : Nat) : Follows bus rom bank ret sc₀ i₀ (budget + 1) sc i →
      AtScan bus rom bank sc ins i → sc.writesBack ins = false →
      InlineStep bus ret (stackWord bus ret i₀.mem) (needs rom bank budget (sc.next ins)) sc ins i
        ((runOpcode (bridgeBus bus))^[k + 1] i) →
      Follows bus rom bank ret sc₀ i₀ budget (sc.next ins) ((runOpcode (bridgeBus bus))^[k + 1] i)

/-- The registers that are needed hold the return address and what was added to it. -/
structure Tracks (n : Needs) (pushed : Word) (sc : InlineScan) (i : Interp816 M) : Prop where
  a : n.a = true → i.a = pushed + BitVec.ofNat 16 sc.aAdded
  y : n.y = true → i.y = pushed + BitVec.ofNat 16 sc.yAdded

/-! ### One instruction -/

section Step

variable {bus : Bus M} {rom : Rom} {bank budget : Nat} {ret pushed : Word} {sc : InlineScan}
  {ins : Insn} {i : Interp816 M}

/-- The operand of a stack-relative access. -/
theorem adr_sr (h : AtScan bus rom bank sc ins i) {op : MemOp} (hop : opOf ins.opcode = .mem op .sr)
    (hslot : i.sp + BitVec.ofNat 16 (ins.operand &&& 0xFF) = ret) :
    ∃ o, adr (bridgeBus bus) .sr (advance i 1) = (o, advance i ins.length) ∧
      splitAddr o.low = (0, ret) ∧ splitAddr o.high = (0, ret + 1) := by
  have hlen : ins.length = 2 := length_of_decodeInsn h.decoded hop fun _ he => by cases he
  have hread := readOpcode_advance h.fetches (n := 1) (by omega)
  have hword := mkWord_insnByte_zero ins
  refine ⟨effSr (insnByte ins 1) (advance i 2), ?_, ?_, ?_⟩
  · rw [hlen]
    simp only [adr, adrSr, hread]
  · have hlow := splitAddr_bankZero i.sp (insnByte ins 1) 0
    have hzero : ∀ v : Addr, v + 0 = v := BitVec.add_zero
    rw [hzero, hword, hslot] at hlow
    exact hlow.trans (congrArg _ (BitVec.add_zero ret))
  · have hhigh := splitAddr_bankZero i.sp (insnByte ins 1) 1
    rw [hword, hslot] at hhigh
    exact hhigh

/-- `LDA $nn,S` loads the return address. -/
theorem exec_load (hram : IsRam bus ret) (h : AtScan bus rom bank sc ins i)
    (hop : opOf ins.opcode = .mem .lda .sr) (hm : i.mf = false)
    (hslot : i.sp + BitVec.ofNat 16 (ins.operand &&& 0xFF) = ret) :
    (runOpcode (bridgeBus bus) i).a = stackWord bus ret i.mem := by
  obtain ⟨o, ho, hlow, hhigh⟩ := adr_sr h hop hslot
  have hmf : (advance i ins.length).mf = false := hm
  rw [h.run, hop]
  simp only [exec, ho, memOp, lda, hmf, Bool.false_eq_true, if_false, setZN_a]
  simp only [readWord, Interp816.read, bridgeBus_read, hlow, hhigh, hram.low]
  rfl

theorem adc16_a {i : Interp816 M} (hc : i.c = false) (hd : i.d = false) (v : Word) :
    (adc16 v i).a = i.a + v := by
  simp only [adc16, hc, hd, Bool.false_and, Bool.false_eq_true, if_false, cintB]
  apply BitVec.eq_of_toNat_eq
  simp only [cint16, BitVec.toNat_setWidth, BitVec.toNat_add]
  have ha := i.a.isLt
  have hv := v.isLt
  have h0 : (0 : CInt).toNat = 0 := rfl
  omega

theorem exec_add (h : AtScan bus rom bank sc ins i) (hop : ins.opcode = 0x69) (hm : i.mf = false)
    (hc : i.c = false) (hd : i.d = false) :
    (runOpcode (bridgeBus bus) i).a = i.a + BitVec.ofNat 16 ins.operand := by
  have hlen : ins.length = if i.mf then 2 else 3 := by
    rw [h.length, hop, hm]
    rfl
  obtain ⟨hnext, hread⟩ := @adrImm_of_fetches M bus ins i h.fetches false i.mf rfl hlen
  have hw : widthOf i.mf = .word := by
    rw [hm]
    rfl
  rw [hw] at hread
  have hword : readWord (bridgeBus bus) (adrImm false (advance i 1)).1.low
      (adrImm false (advance i 1)).1.high (advance i ins.length) =
      (BitVec.ofNat 16 ins.operand, advance i ins.length) := by
    have hpair : readWord (bridgeBus bus) (adrImm false (advance i 1)).1.low
        (adrImm false (advance i 1)).1.high (advance i ins.length) =
        ((readAt (bridgeBus bus) .word (adrImm false (advance i 1)).1 i.mem).1,
          { advance i ins.length with
            mem := (readAt (bridgeBus bus) .word (adrImm false (advance i 1)).1 i.mem).2 }) := rfl
    rw [hpair, hread, toCtype, BitVec.setWidth_ofNat_of_le (by decide : 16 ≤ 32)]
    rfl
  have hmf : (advance i ins.length).mf = false := hm
  have hop' : opOf ins.opcode = .mem .adc (.imm false) := by
    rw [hop]
    rfl
  rw [h.run, hop']
  simp only [exec, adr, memOp, adc, hnext, hmf, hword, Bool.false_eq_true, if_false, setZN_a]
  exact adc16_a hc hd _

theorem exec_tay (h : AtScan bus rom bank sc ins i) (hop : ins.opcode = 0xA8) (hx : i.xf = false) :
    (runOpcode (bridgeBus bus) i).y = i.a := by
  have hxf : (advance i 1).xf = false := hx
  rw [h.run, hop]
  show (setY (advance i 1).a (advance i 1)).y = i.a
  simp only [setY, hxf, Bool.false_eq_true, if_false, setZN_y]
  rfl

theorem exec_tya (h : AtScan bus rom bank sc ins i) (hop : ins.opcode = 0x98) (hm : i.mf = false) :
    (runOpcode (bridgeBus bus) i).a = i.y := by
  have hmf : (advance i 1).mf = false := hm
  rw [h.run, hop]
  show (setA (advance i 1).y (advance i 1)).a = i.y
  simp only [setA, hmf, Bool.false_eq_true, if_false, setZN_a]
  rfl

/-- The write-back stores what `A` holds. -/
theorem exec_store (hram : IsRam bus ret) (h : AtScan bus rom bank sc ins i) (hop : ins.opcode = 0x83)
    (hm : i.mf = false) (hslot : i.sp + BitVec.ofNat 16 (ins.operand &&& 0xFF) = ret) :
    stackWord bus ret (runOpcode (bridgeBus bus) i).mem = i.a := by
  have hsr : opOf ins.opcode = .mem .sta .sr := by
    rw [hop]
    rfl
  obtain ⟨o, ho, hlow, hhigh⟩ := adr_sr h hsr hslot
  have hmf : (advance i ins.length).mf = false := hm
  rw [h.run, hsr]
  simp only [exec, ho, memOp, sta, hmf, store, writeWord, Bool.false_eq_true, if_false]
  have hstored := hram.stored (loByte i.a) (hiByte i.a) i.mem
  rw [mkWord_loByte_hiByte] at hstored
  refine Eq.trans ?_ hstored
  simp only [Interp816.write, bridgeBus_write, hlow, hhigh]
  rfl

/-! ### The run -/

/-- An instruction of the scan that is run by itself. -/
theorem keeps_a (h : AtScan bus rom bank sc ins i) (hop : keepsA (opOf ins.opcode) = true) :
    (runOpcode (bridgeBus bus) i).a = i.a := by
  rw [h.run]
  exact exec_a (bridgeBus bus) hop (advance i 1)

theorem keeps_y (h : AtScan bus rom bank sc ins i) (hop : keepsY (opOf ins.opcode) = true) :
    (runOpcode (bridgeBus bus) i).y = i.y := by
  rw [h.run]
  exact exec_y (bridgeBus bus) hop (advance i 1)

theorem copySlot_added {s : Option Nat} {added : Nat} (h : s.isSome = true) :
    (copySlot s added).2 = added := by
  cases s with
  | none => cases h
  | some s => rfl

/-- One instruction of the scan. -/
theorem tracks_step (hram : IsRam bus ret) (h : AtScan bus rom bank sc ins i)
    (hstop : sc.kind ins ≠ .stop) {n : Needs} {j : Interp816 M}
    (hok : InlineStep bus ret pushed n sc ins i j)
    (hslots : ((n.before (sc.kind ins)).a = true → sc.aSlot.isSome = true) ∧
      ((n.before (sc.kind ins)).y = true → sc.ySlot.isSome = true))
    (hnext : (n.a = true → (sc.next ins).aSlot.isSome = true) ∧
      (n.y = true → (sc.next ins).ySlot.isSome = true))
    (ht : Tracks (n.before (sc.kind ins)) pushed sc i) : Tracks n pushed (sc.next ins) j := by
  have hfits := fits_kind sc ins
  cases hkind : sc.kind ins with
  | stop => exact absurd hkind hstop
  | rep =>
    rw [hkind] at hfits ht
    have hop : opOf ins.opcode = .rep := ((opOf_of_flags h.decoded).1 hfits).1
    refine ⟨fun hn => ?_, fun hn => ?_⟩ <;> simp only [InlineScan.next, InlineScan.track, hkind]
    · rw [hok.restA hn, keeps_a h (by rw [hop]; rfl)]
      exact ht.a hn
    · rw [hok.restY hn, hok.y (Or.inl hkind) hn]
      exact ht.y hn
  | sep =>
    rw [hkind] at hfits ht
    have hop : opOf ins.opcode = .sep := ((opOf_of_flags h.decoded).2.1 hfits).1
    refine ⟨fun hn => ?_, fun hn => ?_⟩ <;> simp only [InlineScan.next, InlineScan.track, hkind]
    · rw [hok.restA hn, keeps_a h (by rw [hop]; rfl)]
      exact ht.a hn
    · rw [hok.restY hn, hok.y (Or.inr (Or.inl hkind)) hn]
      exact ht.y hn
  | load =>
    rw [hkind] at hfits ht
    have hop : opOf ins.opcode = .mem .lda .sr :=
      opOf_of_mode h.decoded (by rw [hfits.1]; rfl) (by rw [hfits.2]; rfl)
    refine ⟨fun hn => ?_, fun hn => ?_⟩ <;> simp only [InlineScan.next, InlineScan.track, hkind]
    · obtain ⟨hm, hret, hword⟩ := hok.load hkind hn
      rw [hok.restA hn, exec_load hram h hop hm hret, hword]
      exact (BitVec.add_zero pushed).symm
    · rw [hok.restY hn, keeps_y h (by rw [hop]; rfl)]
      exact ht.y hn
  | tay =>
    rw [hkind] at hfits ht hslots
    have hop : opOf ins.opcode = .tay := by
      rw [show ins.opcode = 0xA8 from hfits]
      rfl
    refine ⟨fun hn => ?_, fun hn => ?_⟩ <;> simp only [InlineScan.next, InlineScan.track, hkind]
    · rw [hok.restA hn, keeps_a h (by rw [hop]; rfl)]
      exact ht.a (Bool.or_eq_true_iff.mpr (Or.inl hn))
    · have hneeds : (n.before .tay).a = true := Bool.or_eq_true_iff.mpr (Or.inr hn)
      rw [hok.restY hn, exec_tay h hfits (hok.tay hkind hn), copySlot_added (hslots.1 hneeds)]
      exact ht.a hneeds
  | tya =>
    rw [hkind] at hfits ht hslots
    have hop : opOf ins.opcode = .tya := by
      rw [show ins.opcode = 0x98 from hfits]
      rfl
    refine ⟨fun hn => ?_, fun hn => ?_⟩ <;> simp only [InlineScan.next, InlineScan.track, hkind]
    · have hneeds : (n.before .tya).y = true := Bool.or_eq_true_iff.mpr (Or.inl hn)
      rw [hok.restA hn, exec_tya h hfits (hok.tya hkind hn), copySlot_added (hslots.2 hneeds)]
      exact ht.y hneeds
    · rw [hok.restY hn, keeps_y h (by rw [hop]; rfl)]
      exact ht.y (Bool.or_eq_true_iff.mpr (Or.inr hn))
  | add =>
    rw [hkind] at hfits ht
    have hop : opOf ins.opcode = .mem .adc (.imm false) := by
      rw [hfits.1]
      rfl
    refine ⟨fun hn => ?_, fun hn => ?_⟩ <;> simp only [InlineScan.next, InlineScan.track, hkind]
    · obtain ⟨hm, hc, hd⟩ := hok.add hkind hn
      rw [hok.restA hn, exec_add h hfits.1 hm hc hd, ht.a hn, Bits.ofNat_and_0xFFFF, BitVec.ofNat_add,
        BitVec.add_assoc]
    · rw [hok.restY hn, keeps_y h (by rw [hop]; rfl)]
      exact ht.y hn
  | store =>
    rw [hkind] at hfits ht
    have hop : opOf ins.opcode = .mem .sta .sr := by
      rw [show ins.opcode = 0x83 from hfits]
      rfl
    refine ⟨fun hn => ?_, fun hn => ?_⟩ <;> simp only [InlineScan.next, InlineScan.track, hkind]
    · rw [hok.restA hn, keeps_a h (by rw [hop]; rfl)]
      exact ht.a hn
    · rw [hok.restY hn, keeps_y h (by rw [hop]; rfl)]
      exact ht.y hn
  | preserve =>
    rw [hkind] at hfits ht
    refine ⟨fun hn => ?_, fun hn => ?_⟩
    · have hadded : (sc.next ins).aAdded = sc.aAdded := by
        simp only [InlineScan.next, InlineScan.track, hkind]
        split <;> rfl
      rw [hok.restA hn, keeps_a h (keepsA_of_mem _ hfits.1), hadded]
      exact ht.a hn
    · have hy := hnext.2 hn
      simp only [InlineScan.next, InlineScan.track, hkind] at hy ⊢
      by_cases hchange : ins.opcode ∈ yChanging
      · rw [if_pos hchange] at hy
        cases hy
      · rw [if_neg hchange, hok.restY hn, keeps_y h (keepsY_of_mem _ hfits.1 hchange hfits.2)]
        exact ht.y hn
  | clobber =>
    rw [hkind] at ht
    refine ⟨fun hn => ?_, fun hn => ?_⟩
    · have ha := hnext.1 hn
      simp only [InlineScan.next, InlineScan.track, hkind] at ha
      cases ha
    · simp only [InlineScan.next, InlineScan.track, hkind]
      rw [hok.restY hn, hok.y (Or.inr (Or.inr hkind)) hn]
      exact ht.y hn

/-- Along the run the registers that are needed hold the return address and what was added, and the
scan is on its way to the same count. -/
theorem tracks_of_follows (hram : IsRam bus ret) {addr n : Nat} {m x : Bool} {i₀ : Interp816 M}
    (hdetect : detectInlineArgBytes rom bank addr m x = some n)
    (h : Follows bus rom bank ret (.entry addr m x) i₀ budget sc i) :
    Tracks (needs rom bank budget sc) (stackWord bus ret i₀.mem) sc i ∧
      scanInlineArgs rom bank budget sc = some n := by
  induction h with
  | entry k =>
    have hslots := isSome_of_needs hdetect
    exact ⟨⟨fun hn => (by cases hslots.1 hn), fun hn => (by cases hslots.2 hn)⟩, hdetect⟩
  | @step budget sc i ins k _ hat hback hok ih =>
    obtain ⟨ht, hscan⟩ := ih
    have hslots := isSome_of_needs hscan
    have hrest := scan_next hscan hat.read hback
    rw [needs_step hat.read hback] at ht hslots
    exact ⟨tracks_step hram hat (kind_ne_stop hscan hat.read) hok hslots (isSome_of_needs hrest) ht, hrest⟩

/-- What has to hold where the write-back runs. -/
@[mk_iff]
structure WritesBack (ret : Word) (sc : InlineScan) (ins : Insn) (i : Interp816 M) : Prop where
  back : sc.writesBack ins = true
  wide : i.mf = false
  slot : i.sp + BitVec.ofNat 16 (ins.operand &&& 0xFF) = ret
  /-- The sum is a count of bytes. -/
  byte : sc.aAdded < 0x100

/-- **The return address is advanced by the bytes that were found.** -/
theorem advances_of_follows (hram : IsRam bus ret) {addr n : Nat} {m x : Bool} {i₀ : Interp816 M}
    (hdetect : detectInlineArgBytes rom bank addr m x = some n)
    (h : Follows bus rom bank ret (.entry addr m x) i₀ budget sc i)
    (hat : AtScan bus rom bank sc ins i) (hback : WritesBack ret sc ins i) :
    stackWord bus ret (runOpcode (bridgeBus bus) i).mem =
      stackWord bus ret i₀.mem + BitVec.ofNat 16 n := by
  obtain ⟨ht, hscan⟩ := tracks_of_follows hram hdetect h
  have hback' := hback.back
  simp only [InlineScan.writesBack, Bool.and_eq_true, decide_eq_true_eq] at hback'
  have hfits := fits_kind sc ins
  rw [hback'.1.1] at hfits
  have hn : n = sc.aAdded := by
    rw [scan_found hscan hat.read hback.back, Bits.and_0xFF]
    have := hback.byte
    omega
  have hneeds : (needs rom bank budget sc).a = true := by
    cases budget with
    | zero => cases hscan
    | succ budget =>
      rw [needs, hat.read]
      dsimp only
      rw [if_pos hback.back]
  rw [exec_store hram hat hfits hback.wide hback.slot, hn]
  exact ht.a hneeds

/-! ### The return -/

/-- The stack pointer goes up two bytes without a wrap, as it always does in native mode. -/
def PullsOn (i : Interp816 M) : Prop := wrapSp i (i.sp + 1) = i.sp + 1 ∧ wrapSp i (i.sp + 1 + 1) = i.sp + 1 + 1

/-- A pull of the return address. -/
theorem pullWord_eq (hram : IsRam bus ret) (hwrap : PullsOn i) (hsp : i.sp + 1 = ret) :
    pullWord (bridgeBus bus) i = (stackWord bus ret i.mem, { i with sp := i.sp + 1 + 1 }) := by
  obtain ⟨hfirst, hsecond⟩ := hwrap
  rw [hsp] at hfirst hsecond ⊢
  have hsecond' : wrapSp { i with sp := ret } (ret + 1) = ret + 1 := hsecond
  have hlow : pullByte (bridgeBus bus) i = ((bus.read8 0 ret i.mem).1, { i with sp := ret }) := by
    simp only [pullByte, hsp, hfirst, Interp816.read, bridgeBus_read, splitAddr_setWidth, hram.low]
  have hhigh : pullByte (bridgeBus bus) { i with sp := ret } =
      ((bus.read8 0 (ret + 1) i.mem).1, { i with sp := ret + 1 }) := by
    simp only [pullByte, hsecond', Interp816.read, bridgeBus_read, splitAddr_setWidth, hram.high]
  rw [pullWord, hlow, hhigh, stackWord]

/-- `RTS` and `RTL` go on behind the return address. -/
theorem return_pc (hram : IsRam bus ret) (hwrap : PullsOn i) (hsp : i.sp + 1 = ret) {op : Op}
    (hop : op = .rts ∨ op = .rtl) : (exec (bridgeBus bus) op i).pc = stackWord bus ret i.mem + 1 := by
  rcases hop with rfl | rfl
  · rw [exec, rts, pullWord_eq hram hwrap hsp]
  · rw [exec, rtl, pullWord_eq hram hwrap hsp]
    rfl

/-- **A routine returns past as many bytes as were found**, when it keeps the return address from
the write-back on. -/
theorem returnsPast_of_follows {addr n : Nat} {m x : Bool} {i₀ : Interp816 M}
    (hram : IsRam bus (i₀.sp + 1)) (hdetect : detectInlineArgBytes rom bank addr m x = some n)
    (h : Follows bus rom bank (i₀.sp + 1) (.entry addr m x) i₀ budget sc i)
    (hat : AtScan bus rom bank sc ins i) (hback : WritesBack (i₀.sp + 1) sc ins i) (k : Nat)
    (hkept : stackWord bus (i₀.sp + 1) ((runOpcode (bridgeBus bus))^[k + 1] i).mem =
      stackWord bus (i₀.sp + 1) (runOpcode (bridgeBus bus) i).mem)
    (hwrap : PullsOn ((runOpcode (bridgeBus bus))^[k + 1] i))
    (hsp : ((runOpcode (bridgeBus bus))^[k + 1] i).sp = i₀.sp) {op : Op} (hop : op = .rts ∨ op = .rtl) :
    stackWord bus (i₀.sp + 1) ((runOpcode (bridgeBus bus))^[k + 1] i).mem =
        stackWord bus (i₀.sp + 1) i₀.mem + BitVec.ofNat 16 n ∧
      (exec (bridgeBus bus) op ((runOpcode (bridgeBus bus))^[k + 1] i)).pc =
        stackWord bus (i₀.sp + 1) i₀.mem + BitVec.ofNat 16 n + 1 := by
  have hword := hkept.trans (advances_of_follows hram hdetect h hat hback)
  refine ⟨hword, ?_⟩
  rw [return_pc hram hwrap (by rw [hsp]) hop, hword]

end Step

/-! ### Two routines -/

/-- The stack from `$1FF0` on. -/
def stackBus (rom : Rom) : Bus (Fin 8 → Byte) := ramBus 0x1FF0 rom

/-- A routine that was called from `$8FFD`, with a wide accumulator. -/
def callee : Interp816 (Fin 8 → Byte) :=
  { atStart (fun n => if n = 0 then 0xFF else if n = 1 then 0x8F else 0) false true with sp := 0x1FEF }

/-- `LDA $01,S; CLC; ADC #$0003; STA $01,S; RTS`. -/
def ownSlot : Rom := .ofBytes [0xA3, 0x01, 0x18, 0x69, 0x03, 0x00, 0x83, 0x01, 0x60]

/-- The same with the slot above the return address. -/
def otherSlot : Rom := .ofBytes [0xA3, 0x03, 0x18, 0x69, 0x03, 0x00, 0x83, 0x03, 0x60]

theorem isRam_stackBus (rom : Rom) : IsRam (stackBus rom) (callee.sp + 1) := by
  refine ⟨fun m => rfl, fun m => rfl, fun lo hi m => ?_⟩
  simp [stackWord, stackBus, ramBus, callee]

/-! ### The conditions can be evaluated -/

section Decidable

variable (bus : Bus M) (ret pushed : Word) (n : Needs) (sc : InlineScan) (ins : Insn) (i j : Interp816 M)

instance : Decidable (InlineStep bus ret pushed n sc ins i j) := decidable_of_iff _ (inlineStep_iff ..).symm

instance : Decidable (WritesBack ret sc ins i) := decidable_of_iff _ (writesBack_iff ..).symm

end Decidable

/-- The load and the write-back of its own return address, in narrow index registers where the scan has
wide ones. -/
theorem returnsPast_of_follows_ownSlot : ∃ i : Interp816 (Fin 8 → Byte),
    stackWord (stackBus ownSlot) (callee.sp + 1) i.mem =
        stackWord (stackBus ownSlot) (callee.sp + 1) callee.mem + 3 ∧
      (exec (bridgeBus (stackBus ownSlot)) .rts i).pc =
        stackWord (stackBus ownSlot) (callee.sp + 1) callee.mem + 3 + 1 := by
  have hload := Follows.step 0 (@Follows.entry _ _ _ _ (callee.sp + 1) (.entry 0x8000 false false) callee 0)
    (show AtScan (stackBus ownSlot) ownSlot 0 _
      ⟨0x8000, 0xA3, .lda, .stk, 1, 2, false, false, false, none⟩ _ by decide)
    (by decide) (by decide)
  have hclc := Follows.step 0 hload
    (show AtScan _ _ _ _ ⟨0x8002, 0x18, .clc, .imp, 0, 1, false, false, false, none⟩ _ by decide)
    (by decide) (by decide)
  have hadd := Follows.step 0 hclc
    (show AtScan _ _ _ _ ⟨0x8003, 0x69, .adc, .imm, 3, 3, false, false, false, none⟩ _ by decide)
    (by decide) (by decide)
  exact ⟨_, returnsPast_of_follows (isRam_stackBus ownSlot) (by decide) hadd
    (show AtScan _ _ _ _ ⟨0x8006, 0x83, .sta, .stk, 1, 2, false, false, false, none⟩ _ by decide)
    (by decide) 0 rfl ⟨rfl, rfl⟩ rfl (Or.inl rfl)⟩

/-- The slot is not that of the return address, which stays as it was pushed. -/
theorem not_returnsPast_otherSlot : detectInlineArgBytes otherSlot 0 0x8000 false false = some 3 ∧
    stackWord (stackBus otherSlot) (callee.sp + 1) callee.mem = 0x8FFF ∧
    ((runOpcode (bridgeBus (stackBus otherSlot)))^[4] callee).pc = 0x8008 ∧
    ((runOpcode (bridgeBus (stackBus otherSlot)))^[5] callee).pc = 0x9000 := by
  refine ⟨?_, ?_, ?_, ?_⟩ <;> decide

end SnesRecomp.Tiers
