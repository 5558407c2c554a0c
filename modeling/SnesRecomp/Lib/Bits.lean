import Mathlib.Data.BitVec
import Mathlib.Tactic.Ring
import Mathlib.Data.Nat.Bitwise

/-!
# Masks, shifts and concatenation as arithmetic

C code spells a byte of a word `x & 0xFF`, its high half `x >> 8`, and a word put
together from two bytes `lo | (hi << 8)`.  The lemmas here read these spellings as
arithmetic on `Nat` (`%`, `/` and `+`), where `omega` decides what is left, and
relate the two ways of naming one bit of a word: a mask that is not zero, and
`getLsbD`.  Nothing here mentions a machine.
-/

namespace SnesRecomp.Bits

/-! ### Low masks and disjoint unions on `Nat` -/

theorem and_0xFF (n : Nat) : n &&& 0xFF = n % 256 := Nat.and_two_pow_sub_one_eq_mod n 8

theorem and_0xFFFF (n : Nat) : n &&& 0xFFFF = n % 65536 := Nat.and_two_pow_sub_one_eq_mod n 16

theorem ofNat_and_0xFFFF (n : Nat) : BitVec.ofNat 16 (n &&& 0xFFFF) = BitVec.ofNat 16 n := by
  apply BitVec.eq_of_toNat_eq
  rw [BitVec.toNat_ofNat, BitVec.toNat_ofNat, and_0xFFFF]
  omega

/-- The high byte of a word, in its place. -/
theorem and_0xFF00 (n : Nat) : n &&& 0xFF00 = n / 256 % 256 * 256 := by
  have hshift : n &&& 0xFF00 = ((n >>> 8) &&& 0xFF) <<< 8 := by
    apply Nat.eq_of_testBit_eq
    intro k
    rw [show (0xFF00 : Nat) = 0xFF <<< 8 from rfl, Nat.testBit_and, Nat.testBit_shiftLeft,
      Nat.testBit_shiftLeft, Nat.testBit_and, Nat.testBit_shiftRight]
    by_cases hk : 8 ≤ k
    · simp [hk, Nat.add_sub_cancel' hk]
    · simp [hk]
  rw [hshift, Nat.shiftLeft_eq, and_0xFF, Nat.shiftRight_eq_div_pow]

/-- A field shifted above a smaller one: the union is the sum. -/
theorem shiftLeft_or_eq_add {a b k : Nat} (h : b < 2 ^ k) : a <<< k ||| b = a * 2 ^ k + b := by
  rw [← Nat.shiftLeft_add_eq_or_of_lt h, Nat.shiftLeft_eq]

/-! ### One bit of a word -/

variable {w k : Nat}

theorem getLsbD_twoPow_self (h : k < w) : (BitVec.twoPow w k).getLsbD k = true := by
  rw [BitVec.getLsbD_twoPow]
  simp [h]

theorem twoPow_ne_zero (h : k < w) : BitVec.twoPow w k ≠ 0#w := by
  intro e
  have hbit := getLsbD_twoPow_self h
  rw [e, BitVec.getLsbD_zero] at hbit
  cases hbit

/-- `x & (1 << k)` as a condition. -/
theorem and_twoPow_ne_zero (h : k < w) (x : BitVec w) :
    (x &&& BitVec.twoPow w k != 0#w) = x.getLsbD k := by
  rw [BitVec.and_twoPow]
  cases x.getLsbD k with
  | true => simpa using twoPow_ne_zero h
  | false => simp

/-- Equality under a one-bit mask. -/
theorem and_twoPow_beq (h : k < w) (x y : BitVec w) :
    (x &&& BitVec.twoPow w k == y &&& BitVec.twoPow w k) = (x.getLsbD k == y.getLsbD k) := by
  have hne := twoPow_ne_zero h
  rw [BitVec.and_twoPow, BitVec.and_twoPow]
  cases x.getLsbD k <;> cases y.getLsbD k <;> simp [hne, hne.symm]

/-- A bit as a digit in base two. -/
theorem getLsbD_eq_decide (x : BitVec w) (k : Nat) :
    x.getLsbD k = decide (x.toNat / 2 ^ k % 2 = 1) := by
  rw [← BitVec.testBit_toNat, Nat.testBit_eq_decide_div_mod_eq]

/-- The sign test of two small numbers compares them. -/
theorem slt_eq_decide_toNat {x y : BitVec w} (hx : 2 * x.toNat < 2 ^ w) (hy : 2 * y.toNat < 2 ^ w) :
    x.slt y = decide (x.toNat < y.toNat) := by
  rw [BitVec.slt_eq_decide, BitVec.toInt_eq_toNat_of_lt hx, BitVec.toInt_eq_toNat_of_lt hy]
  simp

end SnesRecomp.Bits
