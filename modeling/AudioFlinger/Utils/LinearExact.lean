import AudioFlinger.Utils.LinearTransform
import Mathlib.Data.Int.DivMod

/-!
# Where a linear transform is exact

The magnitude of a difference is scaled and rounded, and its sign is put back, so
that what comes out is the quotient rounded down. The tests for overflow accept
the sums that fit, but for the least word and for the offset that is the least
word.
-/

namespace AudioFlinger.Utils

open Mixer (I32 I64)

/-- A whole number as a word, where it fits. -/
def represent (x : ℤ) : Option I64 :=
  if -2 ^ 63 ≤ x ∧ x < 2 ^ 63 then some (BitVec.ofInt 64 x) else none

/-- The scaled difference and the offset that the tests refuse although the sum fits. -/
def Refused (q offset : ℤ) : Prop :=
  q ≤ -2 ^ 63 ∧ q + offset = -2 ^ 63 ∨ offset = -2 ^ 63 ∧ 2 ^ 63 ≤ q ∧ q < 2 ^ 64

instance (q offset : ℤ) : Decidable (Refused q offset) := inferInstanceAs (Decidable (_ ∨ _))

namespace LinearTransform

/-- `(a - a_zero) * a_to_b_numer / a_to_b_denom`, rounded down. -/
def scaledForward (t : LinearTransform) (a_in : I64) : ℤ :=
  ((a_in.toInt - t.a_zero.toInt) * t.a_to_b_numer.toInt).fdiv t.a_to_b_denom.toNat

/-- `(b - b_zero) * a_to_b_denom / a_to_b_numer`, rounded down. -/
def scaledReverse (t : LinearTransform) (b_in : I64) : ℤ :=
  ((b_in.toInt - t.b_zero.toInt) * t.a_to_b_denom.toNat).fdiv t.a_to_b_numer.toInt

end LinearTransform

/-! ## Magnitudes and signs -/

theorem toNat_distance (val basis1 : I64) :
    (if val.slt basis1 then basis1 - val else val - basis1).toNat =
      (val.toInt - basis1.toInt).natAbs := by
  have hval := BitVec.toInt_eq_toNat_cond val
  have hbasis := BitVec.toInt_eq_toNat_cond basis1
  have hlt : val.slt basis1 = true ↔ val.toInt < basis1.toInt := BitVec.slt_iff_toInt_lt
  split_ifs with h
  · have := hlt.mp h
    rw [BitVec.toNat_sub]
    split_ifs at hval hbasis <;> omega
  · have := mt hlt.mpr h
    rw [BitVec.toNat_sub]
    split_ifs at hval hbasis <;> omega

theorem toNat_ABS (N : I32) : (ABS N).toNat = N.toInt.natAbs := by
  have hN := BitVec.toInt_eq_toNat_cond N
  have hlt : N.slt 0#32 = true ↔ N.toInt < 0 := by
    rw [BitVec.slt_iff_toInt_lt, BitVec.toInt_zero]
  unfold ABS
  split_ifs with h
  · have := hlt.mp h
    rw [BitVec.toNat_neg]
    split_ifs at hN <;> omega
  · have := mt hlt.mpr h
    split_ifs at hN <;> omega

/-- Rounding a magnitude up is rounding its negative down. -/
theorem fdiv_signed (p : ℕ) {d : ℕ} (hd : 0 < d) (neg : Bool) :
    (if neg then -(p : ℤ) else p).fdiv d =
      if neg then -(roundedDiv p d true : ℤ) else roundedDiv p d false := by
  have hsplit : (p : ℤ) = p / d * d + p % d := by rw [Int.ediv_mul_add_emod]
  have hd' : (0 : ℤ) < d := by exact_mod_cast hd
  have hlt := Int.emod_lt_of_pos (p : ℤ) hd'
  have hnonneg := Int.emod_nonneg (p : ℤ) hd'.ne'
  rw [Int.fdiv_eq_ediv_of_nonneg _ (Int.natCast_nonneg d)]
  cases neg with
  | false => simp [roundedDiv]
  | true =>
    have hneg (c : ℤ) : -((p : ℤ) / d + c) * d = -(p / d * d) - c * d := by ring
    rw [if_pos rfl, if_pos rfl, roundedDiv, Int.ediv_eq_iff_of_pos hd', Nat.cast_add, Int.natCast_div, hneg]
    have hmod : ((p % d : ℕ) : ℤ) = (p : ℤ) % d := Int.natCast_mod p d
    by_cases hzero : p % d = 0
    · rw [if_neg (by simp [hzero]), Nat.cast_zero, zero_mul]
      omega
    · rw [if_pos ⟨hzero, rfl⟩, Nat.cast_one, one_mul]
      omega

/-! ## The last sum -/

theorem and_INT64_MIN_ne (x : BitVec 64) : x &&& INT64_MIN ≠ 0#64 ↔ x.msb = true := by
  have hmin : INT64_MIN = BitVec.twoPow 64 63 := rfl
  have hmsb : x.msb = x.getLsbD 63 := BitVec.msb_eq_getLsbD_last x
  rw [hmin, BitVec.and_twoPow, hmsb]
  cases x.getLsbD 63 <;> decide

theorem msb_overflow (x y : BitVec 64) :
    (x ^^^ y ^^^ INT64_MIN) &&& (x ^^^ (x + y)) &&& INT64_MIN ≠ 0#64 ↔ x.saddOverflow y = true := by
  have hmin : INT64_MIN.msb = true := rfl
  rw [and_INT64_MIN_ne, BitVec.saddOverflow_eq]
  simp only [BitVec.msb_and, BitVec.msb_xor, hmin]
  cases x.msb <;> cases y.msb <;> cases (x + y).msb <;> decide

theorem toNat_and_INT64_MAX (x : BitVec 64) : (x &&& INT64_MAX).toNat = x.toNat % 2 ^ 63 := by
  have hmask : INT64_MAX.toNat = 2 ^ 63 - 1 := rfl
  rw [BitVec.toNat_and, hmask, Nat.and_two_pow_sub_one_eq_mod]

/-- The scaled difference with its sign. -/
def signed (scaled : BitVec 64) (is_neg : Bool) : ℤ := if is_neg then -(scaled.toNat : ℤ) else scaled.toNat

theorem ofInt_signed (scaled basis2 : BitVec 64) (is_neg : Bool) :
    (if is_neg then -scaled else scaled) + basis2 = BitVec.ofInt 64 (signed scaled is_neg + basis2.toInt) := by
  rw [BitVec.ofInt_add, BitVec.ofInt_toInt, signed]
  cases is_neg with
  | false => simp
  | true => simp [BitVec.ofInt_neg]

/-- The tests on a scaled difference of which the highest bit is set. -/
theorem wide_eq {scaled basis2 : BitVec 64} {is_neg : Bool} (hwide : scaled.msb = true) :
    (if is_neg && basis2.slt 0#64 then none
      else if !is_neg && !basis2.slt 0#64 then none
      else if (ABS basis2).sle (scaled &&& INT64_MAX) then none
      else some ((if is_neg then -scaled else scaled) + basis2)) =
    if Refused (signed scaled is_neg) basis2.toInt then none
    else represent (signed scaled is_neg + basis2.toInt) := by
  have hge := BitVec.msb_eq_true_iff_two_mul_ge.mp hwide
  have hlt := scaled.isLt
  have hbasis := BitVec.toInt_eq_toNat_cond basis2
  have hbasisLt := basis2.isLt
  have hslt : basis2.slt 0#64 = decide (basis2.toInt < 0) := by
    rw [BitVec.slt_eq_decide, BitVec.toInt_zero]
  have hlow : (scaled &&& INT64_MAX).toInt = scaled.toNat - 2 ^ 63 := by
    have hand := toNat_and_INT64_MAX scaled
    rw [BitVec.toInt_eq_toNat_cond]
    lia
  have habs : (ABS basis2).toInt = if basis2.toInt < 0 ∧ basis2.toInt ≠ -2 ^ 63 then -basis2.toInt
      else basis2.toInt := by
    rw [ABS, hslt]
    by_cases hneg : basis2.toInt < 0
    · rw [if_pos (decide_eq_true hneg), BitVec.toInt_neg, Int.bmod_def]
      split_ifs <;> lia
    · rw [if_neg (by simpa using hneg), if_neg fun h => hneg h.1]
  have hsle : (ABS basis2).sle (scaled &&& INT64_MAX) =
      decide ((ABS basis2).toInt ≤ scaled.toNat - 2 ^ 63) := by
    rw [BitVec.sle_eq_decide, hlow]
  have hmag : (ABS basis2).toInt = -basis2.toInt ∧ basis2.toInt < 0 ∧ basis2.toInt ≠ -2 ^ 63 ∨
      (ABS basis2).toInt = basis2.toInt ∧ (0 ≤ basis2.toInt ∨ basis2.toInt = -2 ^ 63) := by
    split_ifs at habs with h
    · exact .inl ⟨habs, h⟩
    · exact .inr ⟨habs, by lia⟩
  rw [hslt, hsle, ofInt_signed, signed, represent]
  cases is_neg with
  | true =>
    simp only [Refused, Bool.true_and, Bool.not_true, Bool.false_and, decide_eq_true_eq, if_true]
    split_ifs <;> first | rfl | lia
  | false =>
    simp only [Refused, Bool.false_and, Bool.not_false, Bool.true_and, decide_eq_true_eq,
      Bool.not_eq_true', decide_eq_false_iff_not]
    split_ifs <;> first | rfl | lia

/-- The tests on a scaled difference that is a signed word. -/
theorem narrow_eq {scaled basis2 : BitVec 64} {is_neg : Bool} (hnarrow : scaled.msb = false) :
    (if ((if is_neg then -scaled else scaled) ^^^ basis2 ^^^ INT64_MIN) &&&
        ((if is_neg then -scaled else scaled) ^^^ ((if is_neg then -scaled else scaled) + basis2)) &&&
          INT64_MIN ≠ 0#64 then none
      else some ((if is_neg then -scaled else scaled) + basis2)) =
    if Refused (signed scaled is_neg) basis2.toInt then none
    else represent (signed scaled is_neg + basis2.toInt) := by
  have hlt := BitVec.msb_eq_false_iff_two_mul_lt.mp hnarrow
  have hlow := BitVec.le_toInt basis2
  have hhigh := BitVec.toInt_lt (x := basis2)
  have hvalue : (if is_neg then -scaled else scaled).toInt = signed scaled is_neg := by
    have hscaled := BitVec.toInt_eq_toNat_of_msb hnarrow
    cases is_neg with
    | false => exact hscaled
    | true =>
      rw [if_pos rfl, BitVec.toInt_neg, hscaled, Int.bmod_def, signed, if_pos rfl]
      split_ifs <;> omega
  have hrange : -2 ^ 63 < signed scaled is_neg ∧ signed scaled is_neg < 2 ^ 63 := by
    rw [signed]
    split_ifs <;> omega
  have hnot : ¬ Refused (signed scaled is_neg) basis2.toInt := by
    rintro (⟨h, -⟩ | ⟨-, h, -⟩) <;> omega
  have hover : (if is_neg then -scaled else scaled).saddOverflow basis2 = true ↔
      ¬ (-2 ^ 63 ≤ signed scaled is_neg + basis2.toInt ∧ signed scaled is_neg + basis2.toInt < 2 ^ 63) := by
    rw [BitVec.saddOverflow, hvalue, Bool.or_eq_true, decide_eq_true_eq, decide_eq_true_eq]
    omega
  simp only [msb_overflow, hover]
  rw [ite_not, if_neg hnot, represent, ofInt_signed]

/-- The transform of one line to the other: `n` over `d`, and the sign of the product. -/
theorem linear_transform_eq {val basis1 : I64} {N : I32} {D : U32} {invert_frac : Bool} (basis2 : I64)
    {n d : U32} (hn : (if invert_frac then D else ABS N) = n) (hd : (if invert_frac then ABS N else D) = d)
    (hpos : d ≠ 0#32) {is_neg : Bool}
    (hneg : (if N.slt 0#32 then !val.slt basis1 else val.slt basis1) = is_neg) {q : ℤ}
    (hq : (if is_neg then -(((val.toInt - basis1.toInt).natAbs * n.toNat : ℕ) : ℤ)
      else ((val.toInt - basis1.toInt).natAbs * n.toNat : ℕ)).fdiv d.toNat = q) :
    linear_transform_s64_to_s64 val basis1 N D invert_frac basis2 =
      if Refused q basis2.toInt then none else represent (q + basis2.toInt) := by
  have hdpos : 0 < d.toNat := Nat.pos_of_ne_zero fun hzero => hpos (BitVec.eq_of_toNat_eq hzero)
  rw [fdiv_signed _ hdpos] at hq
  unfold linear_transform_s64_to_s64
  extract_lets below abs_val neg
  have habs : abs_val.toNat = (val.toInt - basis1.toInt).natAbs := toNat_distance val basis1
  have hneg' : neg = is_neg := hneg
  rw [hn, hd, hneg', scale_u64_to_u64_eq hpos, habs]
  generalize hm : (val.toInt - basis1.toInt).natAbs * n.toNat = m at *
  by_cases hfits : roundedDiv m d.toNat is_neg < 2 ^ 64
  · have hsigned : signed (BitVec.ofNat 64 (roundedDiv m d.toNat is_neg)) is_neg = q := by
      rw [← hq, signed, BitVec.toNat_ofNat, Nat.mod_eq_of_lt hfits]
      cases is_neg <;> rfl
    rw [if_pos hfits, ← hsigned]
    simp only
    cases hmsb : (BitVec.ofNat 64 (roundedDiv m d.toNat is_neg)).msb with
    | true =>
      rw [if_pos ((and_INT64_MIN_ne _).mpr hmsb)]
      exact wide_eq hmsb
    | false =>
      rw [if_neg (mt (and_INT64_MIN_ne _).mp (by simp [hmsb]))]
      exact narrow_eq hmsb
  · have hlow := BitVec.le_toInt basis2
    have hhigh := BitVec.toInt_lt (x := basis2)
    rw [if_neg hfits, represent]
    cases is_neg with
    | true =>
      rw [if_pos rfl] at hq
      split_ifs <;> first | rfl | lia
    | false =>
      rw [if_neg Bool.false_ne_true] at hq
      split_ifs <;> first | rfl | lia

/-! ## Both directions -/

theorem slt_eq_toInt_lt {w : ℕ} (x y : BitVec w) : x.slt y = decide (x.toInt < y.toInt) := BitVec.slt_eq_decide ..

theorem signed_mul (x : ℤ) (m : ℕ) :
    (if decide (x < 0) = true then -((x.natAbs * m : ℕ) : ℤ) else (x.natAbs * m : ℕ)) = x * m := by
  rw [Nat.cast_mul, Int.natCast_natAbs]
  rcases lt_or_ge x 0 with hx | hx
  · simp [hx, abs_of_neg]
  · simp [hx.not_gt, abs_of_nonneg hx]

/-- A sign that is taken twice. -/
theorem signed_flip (b : Bool) (p : ℤ) : (if (!b) = true then -p else p) = -(if b = true then -p else p) := by
  cases b <;> simp

/-- The sign of a product is that of its factors. -/
theorem signed_product (x y : ℤ) :
    (if (if y < 0 then !decide (x < 0) else decide (x < 0)) = true then -((x.natAbs * y.natAbs : ℕ) : ℤ)
      else (x.natAbs * y.natAbs : ℕ)) = x * y := by
  rcases lt_or_ge y 0 with hy | hy
  · rw [if_pos hy, signed_flip, signed_mul, Int.ofNat_natAbs_of_nonpos hy.le, mul_neg, neg_neg]
  · rw [if_neg hy.not_gt, signed_mul, Int.natAbs_of_nonneg hy]

namespace LinearTransform

variable {t : LinearTransform}

theorem doForwardTransform_exact (hdenom : t.a_to_b_denom ≠ 0#32) (a_in : I64) :
    t.doForwardTransform a_in =
      if Refused (t.scaledForward a_in) t.b_zero.toInt then none
      else represent (t.scaledForward a_in + t.b_zero.toInt) := by
  rw [doForwardTransform, if_neg hdenom]
  refine linear_transform_eq t.b_zero rfl rfl (by simpa using hdenom) rfl ?_
  rw [scaledForward, ← signed_product]
  simp only [Bool.false_eq_true, if_false, toNat_ABS, slt_eq_toInt_lt, BitVec.toInt_zero, sub_neg, decide_eq_true_eq]

theorem ABS_ne_zero {N : I32} (hN : N ≠ 0#32) : ABS N ≠ 0#32 := by
  intro hzero
  have habs := toNat_ABS N
  rw [hzero, BitVec.toNat_zero] at habs
  exact hN (BitVec.eq_of_toInt_eq (by rw [BitVec.toInt_zero]; omega))

theorem doReverseTransform_exact (hnumer : t.a_to_b_numer ≠ 0#32) (b_in : I64) :
    t.doReverseTransform b_in =
      if Refused (t.scaledReverse b_in) t.a_zero.toInt then none
      else represent (t.scaledReverse b_in + t.a_zero.toInt) := by
  rw [doReverseTransform, if_neg hnumer]
  refine linear_transform_eq t.a_zero rfl rfl (by simpa using ABS_ne_zero hnumer) rfl ?_
  rw [scaledReverse, if_pos rfl, if_pos rfl, toNat_ABS]
  simp only [slt_eq_toInt_lt, BitVec.toInt_zero, ← sub_neg (a := b_in.toInt), decide_eq_true_eq]
  rcases lt_or_ge t.a_to_b_numer.toInt 0 with hN | hN
  · rw [if_pos hN, signed_flip, signed_mul, Int.ofNat_natAbs_of_nonpos hN.le, Int.neg_fdiv_neg]
  · rw [if_neg hN.not_gt, signed_mul, Int.natAbs_of_nonneg hN]

/-- A sum that is refused fits. -/
theorem represent_of_refused {q offset : ℤ} (h : Refused q offset) :
    represent (q + offset) ≠ none := by
  rw [represent, if_pos]
  · exact Option.some_ne_none _
  · rcases h with ⟨hlow, hsum⟩ | ⟨hleast, hlow, hhigh⟩ <;> omega

theorem exact_iff {r : Option I64} {q : ℤ} (offset : I64)
    (hr : r = if Refused q offset.toInt then none else represent (q + offset.toInt)) :
    r = represent (q + offset.toInt) ↔ ¬ Refused q offset.toInt := by
  constructor
  · rintro heq hrefused
    rw [if_pos hrefused] at hr
    exact represent_of_refused hrefused (heq.symm.trans hr)
  · intro hnot
    rw [hr, if_neg hnot]

/-- Both transforms give the sum that is rounded down, exactly where it fits, unless it is the least
word and the scaled difference alone is at most that, or the offset is the least word and the scaled
difference is one of the unsigned words above the signed ones. -/
theorem linearTransform_exact_iff (t : LinearTransform) (hdenom : t.a_to_b_denom ≠ 0#32) :
    (∀ a_in : I64, t.doForwardTransform a_in = represent (t.scaledForward a_in + t.b_zero.toInt) ↔
      ¬ Refused (t.scaledForward a_in) t.b_zero.toInt) ∧
    (t.a_to_b_numer ≠ 0#32 → ∀ b_in : I64,
      t.doReverseTransform b_in = represent (t.scaledReverse b_in + t.a_zero.toInt) ↔
        ¬ Refused (t.scaledReverse b_in) t.a_zero.toInt) :=
  ⟨fun a_in => exact_iff t.b_zero (doForwardTransform_exact hdenom a_in),
    fun hnumer b_in => exact_iff t.a_zero (doReverseTransform_exact hnumer b_in)⟩

/-- A line that runs backwards at twice the speed from the offset 5. -/
def backwards : LinearTransform := ⟨3#64, 5#64, -2#32, 1#32⟩

theorem linearTransform_exact_iff_backwards :
    backwards.doForwardTransform 4#64 = represent (backwards.scaledForward 4#64 + 5) ∧
      backwards.doReverseTransform 4#64 = represent (backwards.scaledReverse 4#64 + 3) :=
  ⟨((linearTransform_exact_iff backwards (by decide)).1 4#64).mpr (by decide),
    ((linearTransform_exact_iff backwards (by decide)).2 (by decide) 4#64).mpr (by decide)⟩

/-- The least word itself, where a line is only shifted. -/
def shifted : LinearTransform := ⟨0#64, 0#64, 1#32, 1#32⟩

/-- The image of the least word is itself, and it is refused; and so is that of the greatest one,
shifted by one, under an offset that is the least word. -/
theorem shifted_refuses :
    shifted.doForwardTransform INT64_MIN = none ∧
      represent (shifted.scaledForward INT64_MIN + shifted.b_zero.toInt) = some INT64_MIN ∧
    { shifted with a_zero := -1#64, b_zero := INT64_MIN }.doForwardTransform INT64_MAX = none ∧
      represent ({ shifted with a_zero := -1#64, b_zero := INT64_MIN }.scaledForward INT64_MAX +
        INT64_MIN.toInt) = some 0#64 := by
  decide

end LinearTransform

end AudioFlinger.Utils
