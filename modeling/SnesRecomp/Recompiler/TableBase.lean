import SnesRecomp.Lib.Bits
import SnesRecomp.Recompiler.Decode
import Mathlib.Logic.Function.Basic

/-!
# The table base of an indirect call

`_labeled_successors` takes the operand of every three-byte `JSR` for the address of its
callee.  The operand of a `JSR (abs,X)` is the address of a table, and what the maps have
for that address moves the code behind the call.
-/

namespace SnesRecomp.Recompiler

/-- A `JSR (abs,X)`. -/
structure IsIndirectCall (insn : Insn) : Prop where
  mnem : insn.mnem = .jsr
  mode : insn.mode = .indirX
  length : insn.length = 3

/-- The maps differ at most in what they have for one address. -/
structure ExitMaps.AgreeOff (a : Nat) (maps maps' : ExitMaps) : Prop where
  exitMx : ∀ b ≠ a, maps'.calleeExitMx b = maps.calleeExitMx b
  exitMxModes : ∀ b ≠ a, maps'.calleeExitMxModes b = maps.calleeExitMxModes b
  inlineArgs : ∀ b ≠ a, maps'.inlineArgMap b = maps.inlineArgMap b

/-- What the maps have for the address of the table of a `JSR (abs,X)` has no part in its
successors. -/
def IgnoresTableBase (maps : ExitMaps) (rom : Rom) (insn : Insn) (key : DecodeKey) (bank : Nat) : Prop :=
  ∀ maps', maps.AgreeOff (addr24 bank (insn.operand &&& 0xFFFF)) maps' →
    (labeledSuccessors maps' rom insn key bank).map (·.1) =
      (labeledSuccessors maps rom insn key bank).map (·.1)

/-- The maps, with argument bytes for one address. -/
def ExitMaps.withInlineArgs (maps : ExitMaps) (a n : Nat) : ExitMaps :=
  { maps with inlineArgMap := Function.update maps.inlineArgMap a (some n) }

theorem agreeOff_withInlineArgs (maps : ExitMaps) (a n : Nat) : maps.AgreeOff a (maps.withInlineArgs a n) :=
  by
  refine ⟨fun _ _ => rfl, fun _ _ => rfl, fun b hb => ?_⟩
  rw [ExitMaps.withInlineArgs]
  exact Function.update_of_ne hb _ _

theorem addr24_lt_inj {bank p q : Nat} (hp : p < 0x10000) (hq : q < 0x10000)
    (h : addr24 bank p = addr24 bank q) : p = q := by
  unfold addr24 at h
  rw [Bits.and_0xFFFF, Bits.and_0xFFFF, Nat.mod_eq_of_lt hp, Nat.mod_eq_of_lt hq,
    Bits.shiftLeft_or_eq_add (show p < 2 ^ 16 from hp),
    Bits.shiftLeft_or_eq_add (show q < 2 ^ 16 from hq)] at h
  omega

/-- The code behind a call with as many argument bytes for its target as `n` says. -/
theorem nextPc_withInlineArgs {maps : ExitMaps} {insn : Insn} {bank t : Nat} (n : Nat)
    (ht : callTarget insn bank = some t) : nextPc (maps.withInlineArgs t n) insn bank =
      (((insn.addr &&& 0xFFFF) + insn.length) % 0x10000 + n) % 0x10000 := by
  unfold nextPc inlineArgBytes
  have hn : (maps.withInlineArgs t n).inlineArgMap t = some n := by
    rw [ExitMaps.withInlineArgs]
    exact Function.update_self _ _ _
  rw [ht, Option.bind_some, getMirrored, hn]

/-- **The table base is looked up as if it were the callee**: whatever the maps have, other
argument bytes for that address move the code behind the call. -/
theorem not_ignoresTableBase (maps : ExitMaps) (rom : Rom) (insn : Insn) (key : DecodeKey) (bank : Nat)
    (hcall : IsIndirectCall insn) : ¬ IgnoresTableBase maps rom insn key bank := by
  intro h
  have ht : callTarget insn bank = some (addr24 bank (insn.operand &&& 0xFFFF)) := by
    rw [callTarget, hcall.mnem]
    exact if_pos hcall.length
  -- The code behind the call lies where one more byte would not put it.
  let next := ((insn.addr &&& 0xFFFF) + insn.length) % 0x10000
  let n := nextPc maps insn bank + 1 + (0x10000 - next)
  have hagree := agreeOff_withInlineArgs maps (addr24 bank (insn.operand &&& 0xFFFF)) n
  obtain ⟨hne, hpcs⟩ := labeledSuccessors_call maps rom key bank (Or.inl hcall.mnem)
  obtain ⟨hne', hpcs'⟩ := labeledSuccessors_call
    (maps.withInlineArgs (addr24 bank (insn.operand &&& 0xFFFF)) n) rom key bank (Or.inl hcall.mnem)
  obtain ⟨s, hs⟩ := List.exists_mem_of_ne_nil _ hne
  have hmem : s.1 ∈ (labeledSuccessors
      (maps.withInlineArgs (addr24 bank (insn.operand &&& 0xFFFF)) n) rom insn key bank).map (·.1) := by
    rw [h _ hagree]
    exact List.mem_map_of_mem hs
  obtain ⟨s', hs', heq⟩ := List.mem_map.mp hmem
  have hpc := (hpcs s hs).1
  rw [← heq, (hpcs' s' hs').1, nextPc_withInlineArgs n ht] at hpc
  have hlt : nextPc maps insn bank < 0x10000 := Nat.mod_lt _ (by decide)
  have hnext : next < 0x10000 := Nat.mod_lt _ (by decide)
  have hpc := addr24_lt_inj (Nat.mod_lt _ (by decide)) hlt hpc
  have hpc : (next + n) % 0x10000 = nextPc maps insn bank := hpc
  have hn : n = nextPc maps insn bank + 1 + (0x10000 - next) := rfl
  omega

/-- `JSR ($9000,X)` at the start of bank zero. -/
def tableCall : Insn :=
  ⟨0x8000, 0xFC, .jsr, .indirX, 0x9000, 3, true, true, false, none⟩

/-- A map that has three argument bytes for the table moves the code behind the call from
`$8003` to `$8006`. -/
theorem not_ignoresTableBase_tableCall :
    decodeInsn (.ofBytes [0xFC, 0x00, 0x90]) 0 0x8000 0 true true = some tableCall ∧
      ¬ IgnoresTableBase .unknown (.ofBytes [0xFC, 0x00, 0x90]) tableCall
        ⟨0x8000, true, true, []⟩ 0 := by
  refine ⟨by decide, fun h => ?_⟩
  have hsame := h _ (agreeOff_withInlineArgs .unknown (addr24 0 (tableCall.operand &&& 0xFFFF)) 3)
  revert hsame
  decide

theorem not_ignoresTableBase_at9000 : ¬ IgnoresTableBase .unknown (.ofBytes [0xFC, 0x00, 0x90])
    tableCall ⟨0x8000, true, true, []⟩ 0 :=
  not_ignoresTableBase .unknown _ tableCall _ 0 ⟨rfl, rfl, rfl⟩

end SnesRecomp.Recompiler
