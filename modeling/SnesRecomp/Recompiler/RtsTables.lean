import SnesRecomp.Recompiler.Insn

/-!
# The length of an RTS-stack table

`_infer_table_count` of `pha_rts_autoroute.py` walks a table of words until a slot looks
invalid.  An entry is compared with the table as far as it has been walked: up to its own
slot.  `accepted_iff` says which slots the walk takes without running it, and from that
`outsideTable_iff`: no entry points into the table exactly when none points forward into
a slot that the walk goes on to take.
-/

namespace SnesRecomp.Recompiler

def maxTableEntries : Nat := 256

/-- `_rom_offset_lorom`. -/
def romOffsetLorom (bank addr16 : Nat) : Nat := ((bank &&& 0x7F) <<< 15) ||| (addr16 &&& 0x7FFF)

/-- `next_label`: the first function behind the start of the table. -/
def nextLabel (tablePc16 : Nat) (funcStarts : List Nat) : Nat :=
  funcStarts.foldl (fun next s => if tablePc16 < s ∧ s < next then s else next) 0x10000

/-- The word in a slot of the table. -/
def tableWord (rom : Rom) (bank tablePc16 slot : Nat) : Nat :=
  let off := romOffsetLorom bank (tablePc16 + 2 * slot)
  (rom.byte off).toNat ||| ((rom.byte (off + 1)).toNat <<< 8)

/-- `hi` of the word in a slot. -/
def tableHi (rom : Rom) (bank tablePc16 slot : Nat) : Byte :=
  rom.byte (romOffsetLorom bank (tablePc16 + 2 * slot) + 1)

/-- The tests of the loop for one slot. -/
def slotLooksValid (rom : Rom) (bank tablePc16 next slot : Nat) : Bool :=
  let cur := tablePc16 + 2 * slot
  let entry := tableWord rom bank tablePc16 slot
  decide (cur + 2 ≤ next) && decide (romOffsetLorom bank cur + 2 ≤ rom.size) &&
    (decide (entry = 0) ||
      (decide (0x80 ≤ tableHi rom bank tablePc16 slot) &&
        !decide (tablePc16 ≤ entry ∧ entry < tablePc16 + (slot + 1) * 2)))

/-- The loop, from a slot on and for at most `room` slots. -/
def inferLoop (rom : Rom) (bank tablePc16 next : Nat) : Nat → Nat → Nat
  | 0, count => count
  | room + 1, count =>
    if slotLooksValid rom bank tablePc16 next count then
      inferLoop rom bank tablePc16 next room (count + 1)
    else count

/-- `_infer_table_count`. -/
def inferTableCount (rom : Rom) (bank tablePc16 : Nat) (funcStarts : List Nat) : Nat :=
  inferLoop rom bank tablePc16 (nextLabel tablePc16 funcStarts) maxTableEntries 0

variable {rom : Rom} {bank tablePc16 next : Nat}

/-- The loop stops at the first slot that looks invalid. -/
theorem inferLoop_spec : ∀ (room count : Nat),
    count ≤ inferLoop rom bank tablePc16 next room count ∧
      ∀ slot, count ≤ slot → (slot < inferLoop rom bank tablePc16 next room count ↔
        slot < count + room ∧
          ∀ k, count ≤ k → k ≤ slot → slotLooksValid rom bank tablePc16 next k = true) := by
  intro room
  induction room with
  | zero =>
    intro count
    refine ⟨Nat.le_refl count, fun slot hslot => ⟨fun h => ?_, fun h => ?_⟩⟩
    · exact absurd h (Nat.not_lt.mpr hslot)
    · exact absurd h.1 (Nat.not_lt.mpr hslot)
  | succ room ih =>
    intro count
    obtain ⟨hle, hiff⟩ := ih (count + 1)
    rw [inferLoop]
    by_cases hvalid : slotLooksValid rom bank tablePc16 next count = true
    · rw [if_pos hvalid]
      refine ⟨by omega, fun slot hslot => ?_⟩
      rcases Nat.eq_or_lt_of_le hslot with rfl | hlt
      · refine ⟨fun _ => ⟨by omega, fun k hk hk' => ?_⟩, fun _ => by omega⟩
        rw [Nat.le_antisymm hk' hk]
        exact hvalid
      · rw [hiff slot hlt]
        constructor
        · rintro ⟨hroom, hall⟩
          refine ⟨by omega, fun k hk hk' => ?_⟩
          rcases Nat.eq_or_lt_of_le hk with rfl | hk
          · exact hvalid
          · exact hall k hk hk'
        · rintro ⟨hroom, hall⟩
          exact ⟨by omega, fun k hk hk' => hall k (by omega) hk'⟩
    · rw [if_neg hvalid]
      refine ⟨Nat.le_refl count, fun slot hslot => ⟨fun h => ?_, fun h => ?_⟩⟩
      · exact absurd h (Nat.not_lt.mpr hslot)
      · exact absurd (h.2 count (Nat.le_refl count) hslot) hvalid

/-- A slot is taken if it and all before it look valid. -/
def Accepted (rom : Rom) (bank tablePc16 : Nat) (funcStarts : List Nat) (slot : Nat) : Prop :=
  slot < maxTableEntries ∧
    ∀ k ≤ slot, slotLooksValid rom bank tablePc16 (nextLabel tablePc16 funcStarts) k = true

theorem accepted_iff {funcStarts : List Nat} {slot : Nat} :
    slot < inferTableCount rom bank tablePc16 funcStarts ↔
      Accepted rom bank tablePc16 funcStarts slot := by
  rw [inferTableCount, (inferLoop_spec maxTableEntries 0).2 slot (Nat.zero_le slot), Nat.zero_add]
  exact and_congr_right fun _ => ⟨fun h k hk => h k (Nat.zero_le k) hk, fun h k _ hk => h k hk⟩

/-- No entry of the inferred table points into it. -/
def OutsideTable (rom : Rom) (bank tablePc16 : Nat) (funcStarts : List Nat) : Prop :=
  let count := inferTableCount rom bank tablePc16 funcStarts
  ∀ slot < count, tableWord rom bank tablePc16 slot ≠ 0 →
    ¬ (tablePc16 ≤ tableWord rom bank tablePc16 slot ∧
      tableWord rom bank tablePc16 slot < tablePc16 + 2 * count)

/-- An entry that looks valid does not point at its own slot or one before it. -/
theorem not_mem_walked {slot : Nat} (h : slotLooksValid rom bank tablePc16 next slot = true)
    (hne : tableWord rom bank tablePc16 slot ≠ 0) (hle : tablePc16 ≤ tableWord rom bank tablePc16 slot) :
    tablePc16 + 2 * (slot + 1) ≤ tableWord rom bank tablePc16 slot := by
  rw [slotLooksValid] at h
  simp only [Bool.and_eq_true, Bool.or_eq_true, Bool.not_eq_true', decide_eq_true_eq,
    decide_eq_false_iff_not] at h
  have houtside := (h.2.resolve_left hne).2
  omega

/-- **Exactly an entry that points forward into a slot still to be taken is inside the
table.** -/
theorem outsideTable_iff (rom : Rom) (bank tablePc16 : Nat) (funcStarts : List Nat) :
    OutsideTable rom bank tablePc16 funcStarts ↔
      ∀ slot later, slot < later → Accepted rom bank tablePc16 funcStarts later →
        tableWord rom bank tablePc16 slot ≠ 0 →
        tableWord rom bank tablePc16 slot ≠ tablePc16 + 2 * later ∧
          tableWord rom bank tablePc16 slot ≠ tablePc16 + 2 * later + 1 := by
  constructor
  · intro h slot later hlt haccepted hne
    have hlater := accepted_iff.mpr haccepted
    have houtside := h slot (by omega) hne
    omega
  · intro h slot hslot hne hinside
    have hvalid := (accepted_iff.mp hslot).2 slot (Nat.le_refl slot)
    have hforward := not_mem_walked hvalid hne hinside.1
    have hlater : (tableWord rom bank tablePc16 slot - tablePc16) / 2 <
        inferTableCount rom bank tablePc16 funcStarts := by omega
    have hmiss := h slot _ (by omega) (accepted_iff.mp hlater) hne
    omega

/-- The words `$8004`, `$9000` and `$9000`, with a function behind them: the first one points
at the third slot. -/
theorem not_outsideTable_forward :
    inferTableCount (.ofBytes [0x04, 0x80, 0x00, 0x90, 0x00, 0x90]) 0 0x8000 [0x8006] = 3 ∧
      ¬ OutsideTable (.ofBytes [0x04, 0x80, 0x00, 0x90, 0x00, 0x90]) 0 0x8000 [0x8006] := by
  have hcount : inferTableCount (.ofBytes [0x04, 0x80, 0x00, 0x90, 0x00, 0x90]) 0 0x8000 [0x8006] = 3 := by
    decide
  refine ⟨hcount, fun h => ?_⟩
  have hfirst := h 0 (by rw [hcount]; decide) (by decide)
  rw [hcount] at hfirst
  exact hfirst (by decide)

end SnesRecomp.Recompiler
