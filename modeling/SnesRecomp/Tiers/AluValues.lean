import SnesRecomp.Interp.Sync
import SnesRecomp.Recompiler.Emit

/-!
# Arithmetic of the two tiers, value by value

The compiled code masks its operands to the operation width and works on the masked
values; the interpreter works on the whole accumulator and masks as it goes.  Each
lemma here says that one computation of `codegen.py` and one of `interp816.c` give the
same result, overflow and carry on the same operand.

Binary sums are compared through the sum itself: its bit above the width is the carry,
and the overflow is read off three sign bits.  Decimal sums are the same chain of
nibbles in both, once the masks are brought to the same place.
-/

namespace SnesRecomp.Tiers

open Recompiler Interp816

variable {M : Type}

/-! ### Widths -/

/-- The number of bits of a width. -/
def bits : Width → Nat
  | .byte => 8
  | .word => 16

theorem signBit_eq (w : Width) : signBit w = BitVec.twoPow 32 (bits w - 1) := by
  cases w <;> decide

theorem carryBit_eq (w : Width) : carryBit w = BitVec.twoPow 32 (bits w) := by
  cases w <;> decide

theorem masked_byte (v : Word) : masked v .byte = cint8 (loByte v) := by
  have hv := v.isLt
  apply BitVec.eq_of_toNat_eq
  simp only [masked, opMask, cint16, cint8, loByte, BitVec.toNat_and, BitVec.toNat_setWidth]
  rw [show (0xFF : CInt).toNat = 0xFF from rfl, Bits.and_0xFF]
  omega

theorem masked_word (v : Word) : masked v .word = cint16 v := by
  have hv := v.isLt
  apply BitVec.eq_of_toNat_eq
  simp only [masked, opMask, cint16, BitVec.toNat_and, BitVec.toNat_setWidth]
  rw [show (0xFFFF : CInt).toNat = 0xFFFF from rfl, Bits.and_0xFFFF]
  omega

theorem masked_lt (v : Word) (w : Width) : (masked v w).toNat < 2 ^ bits w := by
  cases w with
  | byte =>
    have hb := (loByte v).isLt
    rw [masked_byte, cint8, BitVec.toNat_setWidth]
    exact Nat.lt_of_le_of_lt (Nat.mod_le _ _) hb
  | word =>
    have hv := v.isLt
    rw [masked_word, cint16, BitVec.toNat_setWidth]
    exact Nat.lt_of_le_of_lt (Nat.mod_le _ _) hv

/-- A mask inside the width sees the low byte alone. -/
theorem cint8_loByte_and (v : Word) {n : CInt} (h : (0xFF : CInt) &&& n = n) :
    cint8 (loByte v) &&& n = cint16 v &&& n := by
  rw [← masked_byte, masked, BitVec.and_assoc]
  exact congrArg _ h

theorem cint8_xor (b : Byte) : cint8 (b ^^^ 0xFF) = cint8 b ^^^ 0xFF := by
  rw [cint8, BitVec.setWidth_xor]
  rfl

theorem cint16_xor (v : Word) : cint16 (v ^^^ 0xFFFF) = cint16 v ^^^ 0xFFFF := by
  rw [cint16, BitVec.setWidth_xor]
  rfl

theorem loByte_setWidth (b : Byte) : loByte (b.setWidth 16) = b := by
  rw [loByte, BitVec.setWidth_setWidth_of_le _ (by decide), BitVec.setWidth_eq]

theorem cint16_setWidth (b : Byte) : cint16 (b.setWidth 16) = cint8 b := by
  have hb := b.isLt
  apply BitVec.eq_of_toNat_eq
  simp only [cint16, cint8, BitVec.toNat_setWidth]
  omega

theorem getLsbD_toCtype (w : Width) (v : CInt) :
    (cint16 (toCtype w v)).getLsbD (bits w - 1) = v.getLsbD (bits w - 1) := by
  cases w <;> simp [toCtype, cint16, bits]

/-! ### Overflow -/

theorem overflow_eq (w : Width) (a v r : CInt) :
    overflow (signBit w) a v r =
      (a.getLsbD (bits w - 1) == v.getLsbD (bits w - 1) &&
        v.getLsbD (bits w - 1) != r.getLsbD (bits w - 1)) := by
  have h : bits w - 1 < 32 := by cases w <;> decide
  rw [overflow, signBit_eq, Bits.and_twoPow_beq h]
  exact congrArg _ (congrArg _ (Bits.and_twoPow_beq h v r))

theorem setVAdc_eq (w : Width) (l r t : CInt) :
    setVAdc l r (toCtype w t) w = overflow (signBit w) l r t := by
  have h : bits w - 1 < 32 := by cases w <;> decide
  rw [overflow_eq, setVAdc, signBit_eq]
  refine (Bits.and_twoPow_ne_zero h _).trans ?_
  rw [BitVec.getLsbD_and, BitVec.getLsbD_xor, BitVec.getLsbD_xor, getLsbD_toCtype]
  cases l.getLsbD (bits w - 1) <;> cases r.getLsbD (bits w - 1) <;>
    cases t.getLsbD (bits w - 1) <;> rfl

/-- Subtraction is addition of the complement, whose sign bit is the other one. -/
theorem setVSbc_eq (w : Width) (l r t : CInt) :
    setVSbc l r (toCtype w t) w = overflow (signBit w) l (r ^^^ opMask w) t := by
  have h : bits w - 1 < 32 := by cases w <;> decide
  have hmask : (opMask w).getLsbD (bits w - 1) = true := by cases w <;> decide
  rw [overflow_eq, setVSbc, signBit_eq]
  refine (Bits.and_twoPow_ne_zero h _).trans ?_
  rw [BitVec.getLsbD_and, BitVec.getLsbD_xor, BitVec.getLsbD_xor, BitVec.getLsbD_xor, hmask,
    getLsbD_toCtype]
  cases l.getLsbD (bits w - 1) <;> cases r.getLsbD (bits w - 1) <;>
    cases t.getLsbD (bits w - 1) <;> rfl

/-- The overflow test sees the low byte alone. -/
theorem overflow_loByte (a : Word) (v t : CInt) :
    overflow 0x80 (cint8 (loByte a)) v t = overflow 0x80 (cint16 a) v t := by
  rw [overflow, overflow, cint8_loByte_and a (by decide)]

/-! ### Carry -/

theorem cgt_opMask {w : Width} {t : CInt} (h : t.toNat < 2 ^ (bits w + 1)) :
    cgt t (opMask w) = decide (2 ^ bits w ≤ t.toNat) := by
  cases w with
  | byte =>
    rw [cgt, Bits.slt_eq_decide_toNat (by decide) (by simp only [bits] at h; omega)]
    exact decide_eq_decide.mpr Iff.rfl
  | word =>
    rw [cgt, Bits.slt_eq_decide_toNat (by decide) (by simp only [bits] at h; omega)]
    exact decide_eq_decide.mpr Iff.rfl

theorem and_carryBit (w : Width) (t : CInt) : (t &&& carryBit w != 0) = t.getLsbD (bits w) := by
  rw [carryBit_eq]
  exact Bits.and_twoPow_ne_zero (by cases w <;> decide) t

theorem cintB_toNat (c : Bool) : (cintB c).toNat = c.toNat := by cases c <;> rfl

/-- The bit above the width of a sum is its carry. -/
theorem carryBit_of_lt {w : Width} {t : CInt} (h : t.toNat < 2 ^ (bits w + 1)) :
    (t &&& carryBit w != 0) = cgt t (opMask w) := by
  rw [cgt_opMask h, and_carryBit, Bits.getLsbD_eq_decide]
  refine decide_eq_decide.mpr ?_
  cases w <;> simp only [bits] at h ⊢ <;> omega

theorem sum_lt {w : Width} {l r : CInt} (hl : l.toNat < 2 ^ bits w) (hr : r.toNat < 2 ^ bits w)
    (c : Bool) : (l + r + cintB c).toNat = l.toNat + r.toNat + c.toNat ∧
      (l + r + cintB c).toNat < 2 ^ (bits w + 1) := by
  have hc := c.toNat_le
  rw [BitVec.toNat_add, BitVec.toNat_add, cintB_toNat]
  cases w <;> simp only [bits] at hl hr ⊢ <;> omega

theorem binAdd_eq {w : Width} {l r : CInt} (hl : l.toNat < 2 ^ bits w) (hr : r.toNat < 2 ^ bits w)
    (c : Bool) :
    binAdd l r w c =
      (toCtype w (l + r + cintB c), overflow (signBit w) l r (l + r + cintB c),
        cgt (l + r + cintB c) (opMask w)) := by
  rw [binAdd, setVAdc_eq, carryBit_of_lt (sum_lt hl hr c).2]

theorem masked_xor_toNat (v : Word) (w : Width) :
    (masked v w ^^^ opMask w).toNat = 2 ^ bits w - 1 - (masked v w).toNat := by
  cases w with
  | byte =>
    have hb := (loByte v).isLt
    have hnot : loByte v ^^^ 0xFF = ~~~ loByte v := BitVec.xor_allOnes
    rw [masked_byte, show opMask .byte = 0xFF from rfl, ← cint8_xor, hnot, cint8, cint8,
      BitVec.toNat_setWidth, BitVec.toNat_setWidth, BitVec.toNat_not]
    simp only [bits]
    omega
  | word =>
    have hv := v.isLt
    have hnot : v ^^^ 0xFFFF = ~~~ v := BitVec.xor_allOnes
    rw [masked_word, show opMask .word = 0xFFFF from rfl, ← cint16_xor, hnot, cint16, cint16,
      BitVec.toNat_setWidth, BitVec.toNat_setWidth, BitVec.toNat_not]
    simp only [bits]
    omega

/-- A difference and the sum with the complement are `2 ^ bits` apart. -/
theorem sub_add_carryBit (l : CInt) (v : Word) (w : Width) (c : Bool) :
    l - masked v w - (1 - cintB c) + carryBit w =
      l + (masked v w ^^^ opMask w) + cintB c := by
  have hv := masked_lt v w
  have hx := masked_xor_toNat v w
  have hl := l.isLt
  have h1 : (1 : CInt).toNat = 1 := rfl
  have hc : (carryBit w).toNat = 2 ^ bits w := by cases w <;> rfl
  have hle := c.toNat_le
  apply BitVec.eq_of_toNat_eq
  simp only [BitVec.toNat_add, BitVec.toNat_sub, cintB_toNat, h1, hc, hx]
  cases w <;> simp only [bits] at hv ⊢ <;> omega

theorem toCtype_add_carryBit (t : CInt) (w : Width) : toCtype w (t + carryBit w) = toCtype w t := by
  cases w with
  | byte =>
    rw [toCtype, toCtype, BitVec.setWidth_add _ _ (by decide)]
    exact congrArg _ (BitVec.add_zero _)
  | word =>
    rw [toCtype, toCtype, BitVec.setWidth_add _ _ (by decide)]
    exact BitVec.add_zero _

/-- The borrow of a difference is the missing carry of the sum. -/
theorem borrow_eq {w : Width} {l : CInt} (hl : l.toNat < 2 ^ bits w) (v : Word) (c : Bool) :
    (!(l - masked v w - (1 - cintB c) &&& carryBit w != 0)) =
      cgt (l + (masked v w ^^^ opMask w) + cintB c) (opMask w) := by
  have hv := masked_lt v w
  have hx := masked_xor_toNat v w
  have hsum := sum_lt hl (by omega : (masked v w ^^^ opMask w).toNat < 2 ^ bits w) c
  have h1 : (1 : CInt).toNat = 1 := rfl
  have hle := c.toNat_le
  rw [cgt_opMask hsum.2, and_carryBit, Bits.getLsbD_eq_decide, hsum.1, hx, ← decide_not]
  refine decide_eq_decide.mpr ?_
  rw [BitVec.toNat_sub, BitVec.toNat_sub, BitVec.toNat_sub, cintB_toNat, h1]
  cases w <;> simp only [bits] at hl hv ⊢ <;> omega

theorem binSub_eq {w : Width} {l : CInt} (hl : l.toNat < 2 ^ bits w) (v : Word) (c : Bool) :
    binSub l (masked v w) w c =
      (let t := l + (masked v w ^^^ opMask w) + cintB c
       (toCtype w t, overflow (signBit w) l (masked v w ^^^ opMask w) t, cgt t (opMask w))) := by
  have ht := toCtype_add_carryBit (l - masked v w - (1 - cintB c)) w
  rw [sub_add_carryBit] at ht
  simp only [binSub, borrow_eq hl, setVSbc_eq, ← ht]

/-- A comparison is a subtraction without borrow. -/
theorem compare_eq {w : Width} {l : CInt} (hl : l.toNat < 2 ^ bits w) (v : Word) :
    toCtype w (l - masked v w) = toCtype w (l + (masked v w ^^^ opMask w) + 1) ∧
      (!clt l (masked v w)) = cgt (l + (masked v w ^^^ opMask w) + 1) (opMask w) := by
  have hv := masked_lt v w
  have hx := masked_xor_toNat v w
  have hsum := sum_lt hl (by omega : (masked v w ^^^ opMask w).toNat < 2 ^ bits w) true
  constructor
  · have h := sub_add_carryBit l v w true
    rw [show (1 : CInt) - cintB true = 0 from rfl, show ∀ x : CInt, x - 0 = x from BitVec.sub_zero]
      at h
    rw [← toCtype_add_carryBit, h]
    rfl
  · have hw : bits w ≤ 16 := by cases w <;> decide
    have hpow : 2 ^ bits w ≤ 2 ^ 16 := Nat.pow_le_pow_right (by decide) hw
    refine Eq.trans ?_ (cgt_opMask hsum.2).symm
    rw [clt, Bits.slt_eq_decide_toNat (by omega) (by omega), hsum.1, hx, ← decide_not]
    refine decide_eq_decide.mpr ?_
    have h1 : true.toNat = 1 := rfl
    omega

/-! ### Decimal chains -/

theorem and_opMask {w : Width} {x : CInt} (h : x.toNat < 2 ^ bits w) : x &&& opMask w = x := by
  apply BitVec.eq_of_toNat_eq
  rw [BitVec.toNat_and]
  cases w with
  | byte => exact (Bits.and_0xFF _).trans (Nat.mod_eq_of_lt h)
  | word => exact (Bits.and_0xFFFF _).trans (Nat.mod_eq_of_lt h)

theorem masked_xor_and (v : Word) (w : Width) :
    (masked v w ^^^ opMask w) &&& opMask w = masked v w ^^^ opMask w := by
  have hx := masked_xor_toNat v w
  have hpos : 0 < 2 ^ bits w := Nat.two_pow_pos _
  exact and_opMask (by omega)

theorem toCtype_byte_and (v : CInt) : toCtype .byte (v &&& 0xFF) = toCtype .byte v := by
  rw [toCtype, toCtype, BitVec.setWidth_and]
  exact congrArg _ BitVec.and_allOnes

/-- Replacing the low byte keeps the high one. -/
theorem withLow_eq (a : Word) (lo : Byte) : withLow a lo = mkWord lo (hiByte a) := by
  have h : (0xFF00 : Word) = BitVec.allOnes 16 <<< 8 := by decide
  apply BitVec.eq_of_getLsbD_eq
  intro i hi
  rw [withLow, mkWord, hiByte, h]
  simp only [BitVec.getLsbD_or, BitVec.getLsbD_and, BitVec.getLsbD_shiftLeft,
    BitVec.getLsbD_allOnes, BitVec.getLsbD_setWidth, BitVec.getLsbD_ushiftRight]
  by_cases h8 : i < 8
  · simp [h8]
  · have e : 8 + (i - 8) = i := by omega
    have h2 : i - 8 < 8 := by omega
    have h3 : i - 8 < 16 := by omega
    simp [h8, hi, e, h2, h3, Bool.or_comm]

@[simp] theorem loByte_withLow (a : Word) (lo : Byte) : loByte (withLow a lo) = lo := by
  rw [withLow_eq, loByte_mkWord]

/-! ### Addition and subtraction

What `emitAddSub` computes from the masked operands is what the interpreter leaves in
its registers. -/

theorem add_byte (b : Byte) (s : Interp816 M) :
    (if s.d then bcdAdd (masked s.a .byte) (masked (b.setWidth 16) .byte) .byte s.c
      else binAdd (masked s.a .byte) (masked (b.setWidth 16) .byte) .byte s.c) =
      ((loByte (adc8 b s).a).setWidth 16, (adc8 b s).v, (adc8 b s).c) := by
  cases hd : s.d with
  | true =>
    have h0 : cint8 (loByte s.a) &&& 0xF = cint16 s.a &&& 0xF := cint8_loByte_and _ (by decide)
    have h1 : cint8 (loByte s.a) &&& 0xF0 = cint16 s.a &&& 0xF0 := cint8_loByte_and _ (by decide)
    have h2 : cint8 (loByte s.a) &&& 0x80 = cint16 s.a &&& 0x80 := cint8_loByte_and _ (by decide)
    simp only [masked_byte, loByte_setWidth, bcdAdd, adc8, hd, overflow, h0, h1, h2, if_true,
      Bool.true_and, toCtype_byte_and, loByte_withLow]
    rfl
  | false =>
    have h3 : cint16 s.a &&& 0xFF = masked s.a .byte := rfl
    have h4 : cint8 b = masked (b.setWidth 16) .byte := by rw [masked_byte, loByte_setWidth]
    simp only [Bool.false_eq_true, if_false, adc8, hd, Bool.false_and, loByte_withLow, h3, h4,
      binAdd_eq (masked_lt _ _) (masked_lt _ _), ← overflow_loByte s.a, ← masked_byte]
    rfl

theorem add_word (v : Word) (s : Interp816 M) :
    (if s.d then bcdAdd (masked s.a .word) (masked v .word) .word s.c
      else binAdd (masked s.a .word) (masked v .word) .word s.c) =
      ((adc16 v s).a, (adc16 v s).v, (adc16 v s).c) := by
  cases hd : s.d with
  | true =>
    simp only [masked_word, bcdAdd, adc16, hd, overflow, if_true, Bool.true_and]
    rfl
  | false =>
    simp only [Bool.false_eq_true, if_false, binAdd_eq (masked_lt _ _) (masked_lt _ _)]
    simp only [adc16, hd, Bool.false_eq_true, if_false, Bool.false_and, masked_word]
    rfl

/-- The interpreter complements the operand of `SBC` first. -/
theorem sub_byte (b : Byte) (s : Interp816 M) :
    (if s.d then bcdSub (masked s.a .byte) (masked (b.setWidth 16) .byte) .byte s.c
      else binSub (masked s.a .byte) (masked (b.setWidth 16) .byte) .byte s.c) =
      ((loByte (sbc8 (b ^^^ 0xFF) s).a).setWidth 16, (sbc8 (b ^^^ 0xFF) s).v,
        (sbc8 (b ^^^ 0xFF) s).c) := by
  have hx : cint8 (b ^^^ 0xFF) = masked (b.setWidth 16) .byte ^^^ opMask .byte := by
    rw [cint8_xor, masked_byte, loByte_setWidth]
    rfl
  cases hd : s.d with
  | true =>
    have h0 : masked s.a .byte &&& 0xF = cint16 s.a &&& 0xF :=
      masked_byte s.a ▸ cint8_loByte_and _ (by decide)
    have h1 : masked s.a .byte &&& 0xF0 = cint16 s.a &&& 0xF0 :=
      masked_byte s.a ▸ cint8_loByte_and _ (by decide)
    have h2 : masked s.a .byte &&& 0x80 = cint16 s.a &&& 0x80 :=
      masked_byte s.a ▸ cint8_loByte_and _ (by decide)
    simp only [bcdSub, masked_xor_and, sbc8, hx, hd, overflow, h0, h1, h2, if_true, Bool.true_and,
      toCtype_byte_and, loByte_withLow]
    rfl
  | false =>
    have h3 : cint16 s.a &&& 0xFF = masked s.a .byte := rfl
    simp only [Bool.false_eq_true, if_false, sbc8, hd, Bool.false_and, loByte_withLow, h3, hx,
      binSub_eq (masked_lt _ _), ← overflow_loByte s.a, ← masked_byte]
    rfl

theorem sub_word (v : Word) (s : Interp816 M) :
    (if s.d then bcdSub (masked s.a .word) (masked v .word) .word s.c
      else binSub (masked s.a .word) (masked v .word) .word s.c) =
      ((sbc16 (v ^^^ 0xFFFF) s).a, (sbc16 (v ^^^ 0xFFFF) s).v, (sbc16 (v ^^^ 0xFFFF) s).c) := by
  have hx : cint16 (v ^^^ 0xFFFF) = masked v .word ^^^ opMask .word := by
    rw [cint16_xor, masked_word]
    rfl
  cases hd : s.d with
  | true =>
    simp only [bcdSub, masked_xor_and, sbc16, hx, hd, overflow, masked_word s.a, if_true,
      Bool.true_and]
    rfl
  | false =>
    simp only [Bool.false_eq_true, if_false, binSub_eq (masked_lt _ _)]
    simp only [sbc16, hd, Bool.false_eq_true, if_false, Bool.false_and, hx, masked_word s.a]
    rfl

end SnesRecomp.Tiers
