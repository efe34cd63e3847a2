import Mathlib.Data.Nat.Bitwise
import AudioFlinger.Mixer.Primitives

/-!
# Linear transforms

A transform of time lines in 64-bit words. It refuses, with `none`, where the
result would not fit.
-/

namespace AudioFlinger.Utils

open Mixer (I32 I64)

def UINT32_MAX : BitVec 64 := 0xFFFFFFFF#64

def INT64_MIN : BitVec 64 := 0x8000000000000000#64

def INT64_MAX : BitVec 64 := 0x7FFFFFFFFFFFFFFF#64

/-- `ABS`; the lowest word is its own. -/
def ABS {w : ℕ} (x : BitVec w) : BitVec w := if x.slt 0#w then -x else x

/-- `val * N / D` over the 96 bits of the product. -/
def scale_u64_to_u64 (val : BitVec 64) (N D : U32) (round_up_not_down : Bool) :
    Option (BitVec 64) :=
  let tmp2 := (val >>> 32) * N.setWidth 64
  let tmp1 := (val &&& UINT32_MAX) * N.setWidth 64
  let tmp2 := tmp2 + (tmp1 >>> 32)
  if D.setWidth 64 ≤ tmp2 >>> 32 then none
  else
    let r := tmp2 % D.setWidth 64
    let tmp2 := tmp2 / D.setWidth 64
    let tmp1 := (tmp1 &&& UINT32_MAX) ||| (r <<< 32)
    let r := tmp1 % D.setWidth 64
    let tmp1 := tmp1 / D.setWidth 64
    let res := (tmp2 <<< 32) ||| tmp1
    if r ≠ 0#64 ∧ round_up_not_down then
      if res + 1#64 = 0#64 then none else some (res + 1#64)
    else some res

def linear_transform_s64_to_s64 (val basis1 : I64) (N : I32) (D : U32) (invert_frac : Bool)
    (basis2 : I64) : Option I64 :=
  let below := val.slt basis1
  let abs_val := if below then basis1 - val else val - basis1
  let is_neg := if N.slt 0#32 then !below else below
  match scale_u64_to_u64 abs_val (if invert_frac then D else ABS N) (if invert_frac then ABS N else D)
      is_neg with
  | none => none
  | some scaled =>
    if scaled &&& INT64_MIN ≠ 0#64 then
      if is_neg && basis2.slt 0#64 then none
      else if !is_neg && !basis2.slt 0#64 then none
      else if (ABS basis2).sle (scaled &&& INT64_MAX) then none
      else some ((if is_neg then -scaled else scaled) + basis2)
    else
      let scaled := if is_neg then -scaled else scaled
      let res := scaled + basis2
      if (scaled ^^^ basis2 ^^^ INT64_MIN) &&& (scaled ^^^ res) &&& INT64_MIN ≠ 0#64 then none
      else some res

structure LinearTransform where
  a_zero : I64
  b_zero : I64
  a_to_b_numer : I32
  a_to_b_denom : U32
  deriving DecidableEq, Repr

def LinearTransform.doForwardTransform (t : LinearTransform) (a_in : I64) : Option I64 :=
  if t.a_to_b_denom = 0#32 then none
  else linear_transform_s64_to_s64 a_in t.a_zero t.a_to_b_numer t.a_to_b_denom false t.b_zero

def LinearTransform.doReverseTransform (t : LinearTransform) (b_in : I64) : Option I64 :=
  if t.a_to_b_numer = 0#32 then none
  else linear_transform_s64_to_s64 b_in t.b_zero t.a_to_b_numer t.a_to_b_denom true t.a_zero

/-!
## What a linear transform computes

The division of the 96 bits of a product in two steps is exact, and so is a
transform of a time that is not negative between lines that start at zero.
-/

variable {val : BitVec 64} {N D : U32}

theorem toNat_and_UINT32_MAX (x : BitVec 64) : (x &&& UINT32_MAX).toNat = x.toNat % 2 ^ 32 := by
  have hmask : UINT32_MAX.toNat = 2 ^ 32 - 1 := rfl
  rw [BitVec.toNat_and, hmask, Nat.and_two_pow_sub_one_eq_mod]

/-- A word put together from two halves. -/
theorem toNat_halves {high low : BitVec 64} (hhigh : high.toNat < 2 ^ 32) (hlow : low.toNat < 2 ^ 32) :
    ((high <<< 32) ||| low).toNat = high.toNat * 2 ^ 32 + low.toNat := by
  have hshift : (high <<< 32).toNat = 2 ^ 32 * high.toNat := by
    rw [BitVec.toNat_shiftLeft, Nat.shiftLeft_eq, Nat.mul_comm]
    exact Nat.mod_eq_of_lt (by omega)
  rw [BitVec.toNat_or, hshift, Nat.mul_comm high.toNat]
  exact (Nat.two_pow_add_eq_or_of_lt hlow high.toNat).symm

/-- The upper 64 of the 96 bits of the product. -/
theorem toNat_upper (val : BitVec 64) (N : U32) :
    ((val >>> 32) * N.setWidth 64 + (((val &&& UINT32_MAX) * N.setWidth 64) >>> 32)).toNat =
      val.toNat * N.toNat / 2 ^ 32 := by
  have hval := val.isLt
  have hN := N.isLt
  have hlow : val.toNat % 2 ^ 32 < 2 ^ 32 := Nat.mod_lt _ (by decide)
  have hwide : (N.setWidth 64).toNat = N.toNat := by
    rw [BitVec.toNat_setWidth]
    exact Nat.mod_eq_of_lt (by omega)
  have hlowMul : val.toNat % 2 ^ 32 * N.toNat ≤ (2 ^ 32 - 1) * (2 ^ 32 - 1) :=
    Nat.mul_le_mul (by omega) (by omega)
  have hhighMul : val.toNat / 2 ^ 32 * N.toNat ≤ (2 ^ 32 - 1) * (2 ^ 32 - 1) :=
    Nat.mul_le_mul (by omega) (by omega)
  have hsplit : val.toNat * N.toNat =
      val.toNat / 2 ^ 32 * N.toNat * 2 ^ 32 + val.toNat % 2 ^ 32 * N.toNat := by
    conv_lhs => rw [← Nat.div_add_mod val.toNat (2 ^ 32)]
    ring
  rw [BitVec.toNat_add, BitVec.toNat_mul, BitVec.toNat_ushiftRight, BitVec.toNat_ushiftRight,
    BitVec.toNat_mul, toNat_and_UINT32_MAX, hwide, Nat.shiftRight_eq_div_pow,
    Nat.shiftRight_eq_div_pow, hsplit]
  omega

theorem toNat_mod_mul (val : BitVec 64) (N : U32) :
    (((val &&& UINT32_MAX) * N.setWidth 64) &&& UINT32_MAX).toNat =
      val.toNat * N.toNat % 2 ^ 32 := by
  have hwide : (N.setWidth 64).toNat = N.toNat := by
    rw [BitVec.toNat_setWidth]
    exact Nat.mod_eq_of_lt (by omega)
  rw [toNat_and_UINT32_MAX, BitVec.toNat_mul, toNat_and_UINT32_MAX, hwide,
    Nat.mod_mod_of_dvd _ (by decide : 2 ^ 32 ∣ 2 ^ 64), Nat.mod_mul_mod]

/-- A long division in two digits. -/
theorem div_two_digits (m d : ℕ) :
    m / 2 ^ 32 / d * 2 ^ 32 + (m / 2 ^ 32 % d * 2 ^ 32 + m % 2 ^ 32) / d = m / d := by
  rcases Nat.eq_zero_or_pos d with rfl | hd
  · simp
  have hdigits : m = m / 2 ^ 32 / d * 2 ^ 32 * d + (m / 2 ^ 32 % d * 2 ^ 32 + m % 2 ^ 32) := by
    conv_lhs => rw [← Nat.div_add_mod m (2 ^ 32), ← Nat.div_add_mod (m / 2 ^ 32) d]
    ring
  conv_rhs => rw [hdigits]
  rw [Nat.add_comm (m / 2 ^ 32 / d * 2 ^ 32 * d), Nat.add_mul_div_right _ _ hd, Nat.add_comm]

theorem mod_two_digits (m d : ℕ) : (m / 2 ^ 32 % d * 2 ^ 32 + m % 2 ^ 32) % d = m % d := by
  conv_rhs => rw [← Nat.div_add_mod m (2 ^ 32), Nat.mul_comm]
  rw [Nat.add_mod, Nat.mod_mul_mod, ← Nat.add_mod]

/-- A quotient that is rounded up or down. -/
def roundedDiv (m d : ℕ) (up : Bool) : ℕ := m / d + if m % d ≠ 0 ∧ up then 1 else 0

/-- The scaled value, where it fits. -/
theorem scale_u64_to_u64_eq (hD : D ≠ 0#32) (up : Bool) :
    scale_u64_to_u64 val N D up =
      if roundedDiv (val.toNat * N.toNat) D.toNat up < 2 ^ 64 then
        some (BitVec.ofNat 64 (roundedDiv (val.toNat * N.toNat) D.toNat up))
      else none := by
  have hpos : 0 < D.toNat := Nat.pos_of_ne_zero fun hzero => hD (BitVec.eq_of_toNat_eq hzero)
  have hlt := D.isLt
  have hwide : (D.setWidth 64).toNat = D.toNat := by
    rw [BitVec.toNat_setWidth]
    exact Nat.mod_eq_of_lt (by lia)
  have hupper := toNat_upper val N
  have hlower := toNat_mod_mul val N
  unfold scale_u64_to_u64
  extract_lets tmp2 tmp1 tmp2' r tmp2'' tmp1' r' tmp1'' res
  generalize hm : val.toNat * N.toNat = m at *
  have hcheck : D.setWidth 64 ≤ tmp2' >>> 32 ↔ 2 ^ 64 ≤ m / D.toNat := by
    rw [BitVec.le_def, BitVec.toNat_ushiftRight, hupper, hwide, Nat.shiftRight_eq_div_pow,
      Nat.div_div_eq_div_mul, Nat.le_div_iff_mul_le (by decide), Nat.le_div_iff_mul_le hpos,
      Nat.mul_comm, ← pow_add]
  by_cases hover : 2 ^ 64 ≤ m / D.toNat
  · rw [if_pos (hcheck.mpr hover), if_neg]
    rw [roundedDiv]
    lia
  have hquot : tmp2''.toNat = m / 2 ^ 32 / D.toNat := by
    rw [BitVec.toNat_udiv, hupper, hwide]
  have hrest : r.toNat = m / 2 ^ 32 % D.toNat := by
    rw [BitVec.toNat_umod, hupper, hwide]
  have hrestLt : m / 2 ^ 32 % D.toNat < D.toNat := Nat.mod_lt _ hpos
  have hlowLt : m % 2 ^ 32 < 2 ^ 32 := Nat.mod_lt _ (by decide)
  have hdigits := div_two_digits m D.toNat
  have hlow : tmp1'.toNat = m / 2 ^ 32 % D.toNat * 2 ^ 32 + m % 2 ^ 32 := by
    have hhalves := @toNat_halves r (tmp1 &&& UINT32_MAX) (by lia) (by rw [hlower]; exact hlowLt)
    rw [hrest, hlower] at hhalves
    rw [← hhalves, BitVec.or_comm]
  have hlowQuot : tmp1''.toNat = (m / 2 ^ 32 % D.toNat * 2 ^ 32 + m % 2 ^ 32) / D.toNat := by
    rw [BitVec.toNat_udiv, hlow, hwide]
  have hlowQuotLt : tmp1''.toNat < 2 ^ 32 := by
    rw [hlowQuot, Nat.div_lt_iff_lt_mul hpos]
    lia
  have hres : res.toNat = m / D.toNat := by
    have hhalves := @toNat_halves tmp2'' tmp1'' (by lia) hlowQuotLt
    rw [hquot, hlowQuot, hdigits] at hhalves
    exact hhalves
  have hrem : r'.toNat = m % D.toNat := by
    rw [BitVec.toNat_umod, hlow, hwide, mod_two_digits]
  have hround : r' ≠ 0#64 ∧ up = true ↔ m % D.toNat ≠ 0 ∧ up = true := by
    rw [ne_eq, ← BitVec.toNat_inj, hrem, BitVec.toNat_zero]
  rw [if_neg fun h => hover (hcheck.mp h)]
  simp only [hround, roundedDiv]
  have hnext : (res + 1#64).toNat = (m / D.toNat + 1) % 2 ^ 64 := by
    rw [BitVec.toNat_add, hres]
    rfl
  split_ifs with hup hwrap hfits hfits
  · rw [hwrap, BitVec.toNat_zero] at hnext
    lia
  · rfl
  · rw [← Nat.mod_eq_of_lt hfits, ← hnext, BitVec.ofNat_toNat, BitVec.setWidth_eq]
  · have hnot := BitVec.toNat_ne.mp hwrap
    rw [hnext, BitVec.toNat_zero] at hnot
    lia
  · rw [Nat.add_zero, ← hres, BitVec.ofNat_toNat, BitVec.setWidth_eq]
  · lia

/-- Rounded down, the scaled value is exact where it fits. -/
theorem scale_u64_to_u64_down (hD : D ≠ 0#32) (hfits : val.toNat * N.toNat / D.toNat < 2 ^ 64) :
    scale_u64_to_u64 val N D false = some (BitVec.ofNat 64 (val.toNat * N.toNat / D.toNat)) := by
  have hdown : roundedDiv (val.toNat * N.toNat) D.toNat false = val.toNat * N.toNat / D.toNat := by
    simp [roundedDiv]
  rw [scale_u64_to_u64_eq hD, hdown, if_pos hfits]

/-- A time that is not negative, between lines that start at zero and run the same way. -/
theorem doForwardTransform_eq {t : LinearTransform} {a_in : ℕ} (hstart : t.a_zero = 0#64 ∧ t.b_zero = 0#64)
    (hnumer : 0 ≤ t.a_to_b_numer.toInt) (hdenom : t.a_to_b_denom ≠ 0#32) (ha : a_in < 2 ^ 63)
    (hfits : a_in * t.a_to_b_numer.toNat / t.a_to_b_denom.toNat < 2 ^ 63) :
    t.doForwardTransform (BitVec.ofNat 64 a_in) =
      some (BitVec.ofNat 64 (a_in * t.a_to_b_numer.toNat / t.a_to_b_denom.toNat)) := by
  have htoNat : (BitVec.ofNat 64 a_in).toNat = a_in := by
    rw [BitVec.toNat_ofNat]
    exact Nat.mod_eq_of_lt (by omega)
  have hbelow : (BitVec.ofNat 64 a_in).slt 0#64 = false := by
    rw [BitVec.slt_zero_eq_msb, BitVec.msb_eq_false_iff_two_mul_lt, htoNat]
    omega
  have hforward : t.a_to_b_numer.slt 0#32 = false := by
    rw [BitVec.slt_eq_decide]
    exact decide_eq_false (by rw [BitVec.toInt_zero]; omega)
  have hscale := @scale_u64_to_u64_down (BitVec.ofNat 64 a_in) t.a_to_b_numer _ hdenom
    (by rw [htoNat]; omega)
  rw [htoNat] at hscale
  generalize hn : a_in * t.a_to_b_numer.toNat / t.a_to_b_denom.toNat = n at hfits hscale ⊢
  have hclear : BitVec.ofNat 64 n &&& INT64_MIN = 0#64 := by
    have hmin : INT64_MIN.toNat = 2 ^ 63 := rfl
    apply BitVec.eq_of_toNat_eq
    rw [BitVec.toNat_and, BitVec.toNat_ofNat, hmin, Nat.mod_eq_of_lt (by omega), Nat.and_two_pow,
      Nat.testBit_lt_two_pow hfits]
    rfl
  unfold LinearTransform.doForwardTransform linear_transform_s64_to_s64
  rw [if_neg hdenom, hstart.1, hstart.2]
  simp only [hbelow, hforward, ABS, BitVec.sub_zero, if_false, Bool.false_eq_true, hscale, hclear,
    ne_eq, not_true_eq_false, BitVec.add_zero, BitVec.xor_self, BitVec.and_zero, BitVec.zero_and]

end AudioFlinger.Utils
