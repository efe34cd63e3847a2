import Mathlib.Tactic.Common
import Mathlib.Tactic.Linarith
import Mathlib.Algebra.Order.Ring.Abs
import AudioFlinger.Foundation.Counter

/-!
# Fixed-point primitives

A gain has 12 fractional bits. A stereo frame and a pair of gains are packed
in one word, the left one in the low half.
-/

namespace AudioFlinger.Mixer

abbrev I16 := BitVec 16
abbrev I32 := BitVec 32
abbrev I64 := BitVec 64

/-- Clamp a signed 32-bit sample to 16 bits. -/
def clamp16 (sample : I32) : I16 :=
  (if sample.sshiftRight 15 ^^^ sample.sshiftRight 31 ≠ 0#32 then
    0x7FFF#32 ^^^ sample.sshiftRight 31
  else sample).setWidth 16

def mulAdd (input v : I16) (a : I32) : I32 := a + input.signExtend 32 * v.signExtend 32

/-- The halves of a packed word. -/
def leftHalf (rl : U32) : I16 := rl.setWidth 16

def rightHalf (rl : U32) : I16 := (rl >>> 16).setWidth 16

def mulRL (left : Bool) (inRL vRL : U32) : I32 :=
  if left then (leftHalf inRL).signExtend 32 * (leftHalf vRL).signExtend 32
  else (rightHalf inRL).signExtend 32 * (rightHalf vRL).signExtend 32

def mulAddRL (left : Bool) (inRL vRL : U32) (a : I32) : I32 :=
  if left then a + (leftHalf inRL).signExtend 32 * (leftHalf vRL).signExtend 32
  else a + (rightHalf inRL).signExtend 32 * (rightHalf vRL).signExtend 32

/-- `(r<<16) | (l & 0xFFFF)`. -/
def packRL (l r : I32) : U32 := (r <<< 16) ||| (l &&& 0xFFFF#32)

/-- `ditherAndClamp` of one frame. -/
def ditherAndClampFrame (sums : I32 × I32) : U32 :=
  packRL ((clamp16 (sums.1.sshiftRight 12)).signExtend 32)
    ((clamp16 (sums.2.sshiftRight 12)).signExtend 32)

def ditherAndClamp (sums : List (I32 × I32)) : List U32 := sums.map ditherAndClampFrame

theorem mulAddRL_eq (left : Bool) (inRL vRL : U32) (a : I32) :
    mulAddRL left inRL vRL a = a + mulRL left inRL vRL := by
  cases left <;> rfl

/-! ## Clamping -/

theorem sshiftRight_31 (x : I32) :
    x.sshiftRight 31 = if x.toInt < 0 then BitVec.allOnes 32 else 0#32 := by
  have hlt := x.toInt_lt
  have hle := x.le_toInt
  apply BitVec.eq_of_toInt_eq
  rw [BitVec.toInt_sshiftRight, Int.shiftRight_eq_div_pow]
  split_ifs
  · rw [show (BitVec.allOnes 32).toInt = -1 from rfl]
    omega
  · rw [show (0#32).toInt = 0 from rfl]
    omega

/-- The test of `clamp16` tells whether a sample fits in 16 bits. -/
theorem sshiftRight_15_xor (x : I32) :
    x.sshiftRight 15 ^^^ x.sshiftRight 31 = 0#32 ↔ -2 ^ 15 ≤ x.toInt ∧ x.toInt < 2 ^ 15 := by
  have hlt := x.toInt_lt
  have hle := x.le_toInt
  have hshift : (x.sshiftRight 15).toInt = x.toInt / 2 ^ 15 := by
    rw [BitVec.toInt_sshiftRight, Int.shiftRight_eq_div_pow]
    rfl
  rw [BitVec.xor_eq_zero_iff, ← BitVec.toInt_inj, hshift, sshiftRight_31]
  split_ifs
  · rw [show (BitVec.allOnes 32).toInt = -1 from rfl]
    omega
  · rw [show (0#32).toInt = 0 from rfl]
    omega

theorem toInt_setWidth_of_fits {x : I32} (h : -2 ^ 15 ≤ x.toInt ∧ x.toInt < 2 ^ 15) :
    (x.setWidth 16).toInt = x.toInt := by
  have hlt := x.isLt
  rw [BitVec.toInt_eq_toNat_cond] at h
  rw [BitVec.toInt_eq_toNat_cond, BitVec.toInt_eq_toNat_cond, BitVec.toNat_setWidth]
  split_ifs at * <;> lia

/-- `clamp16` is the nearest 16-bit value. -/
theorem toInt_clamp16 (x : I32) :
    (clamp16 x).toInt = max (-2 ^ 15) (min (2 ^ 15 - 1) x.toInt) := by
  have htest := sshiftRight_15_xor x
  unfold clamp16
  by_cases hfits : -2 ^ 15 ≤ x.toInt ∧ x.toInt < 2 ^ 15
  · rw [if_neg (not_not.mpr (htest.mpr hfits)), toInt_setWidth_of_fits hfits]
    omega
  · rw [if_pos fun h => hfits (htest.mp h), sshiftRight_31]
    split_ifs with hneg
    · rw [show ((0x7FFF#32 ^^^ BitVec.allOnes 32).setWidth 16).toInt = -2 ^ 15 from rfl]
      omega
    · rw [show ((0x7FFF#32 ^^^ 0#32).setWidth 16).toInt = 2 ^ 15 - 1 from rfl]
      omega

theorem signExtend_clamp16 {x : I32} (h : -2 ^ 15 ≤ x.toInt ∧ x.toInt < 2 ^ 15) :
    (clamp16 x).signExtend 32 = x := by
  apply BitVec.eq_of_toInt_eq
  rw [BitVec.toInt_signExtend_of_le (by decide), toInt_clamp16]
  omega

/-! ## Products -/

/-- The product of a sample and a gain fits in 31 bits. -/
theorem abs_product (s v : I16) : |s.toInt * v.toInt| ≤ 2 ^ 30 := by
  have habs (x : I16) : |x.toInt| ≤ 2 ^ 15 := by
    have hlt := x.toInt_lt
    have hle := x.le_toInt
    exact abs_le.mpr ⟨hle, hlt.le⟩
  rw [abs_mul]
  exact mul_le_mul (habs s) (habs v) (abs_nonneg _) (by norm_num)

theorem toInt_product (s v : I16) :
    (s.signExtend 32 * v.signExtend 32).toInt = s.toInt * v.toInt := by
  have hbounds := abs_le.mp (abs_product s v)
  rw [BitVec.toInt_mul, BitVec.toInt_signExtend_of_le (by decide),
    BitVec.toInt_signExtend_of_le (by decide)]
  exact Int.bmod_eq_of_le_mul_two (by omega) (by omega)

def UNITY_GAIN : BitVec 16 := 0x1000#16

/-- Up to unity gain a sample needs no clamping. -/
theorem product_fits {s v : I16} (h : v.signExtend 32 ≤ UNITY_GAIN.setWidth 32) :
    -2 ^ 15 ≤ ((s.signExtend 32 * v.signExtend 32).sshiftRight 12).toInt ∧
      ((s.signExtend 32 * v.signExtend 32).sshiftRight 12).toInt < 2 ^ 15 := by
  have hgain : 0 ≤ v.toInt ∧ v.toInt ≤ 2 ^ 12 := by
    have hsame : (v.signExtend 32).toInt = v.toInt := BitVec.toInt_signExtend_of_le (by decide)
    have hunity : (UNITY_GAIN.setWidth 32).toNat = 2 ^ 12 := rfl
    rw [BitVec.le_def, hunity] at h
    rw [← hsame, BitVec.toInt_eq_toNat_cond, if_pos (by omega)]
    omega
  have hlt := s.toInt_lt
  have hle := s.le_toInt
  rw [BitVec.toInt_sshiftRight, Int.shiftRight_eq_div_pow, toInt_product]
  have hlow := mul_le_mul_of_nonneg_right hle hgain.1
  have hhigh := mul_le_mul_of_nonneg_right (show s.toInt ≤ 2 ^ 15 - 1 by omega) hgain.1
  push_cast
  omega

/-- The word that `process__OneTrack16BitsStereoNoResampling` writes when neither gain is above
unity. -/
def unclampedFrame (vrl rl : U32) : U32 :=
  packRL ((mulRL true rl vrl).sshiftRight 12) ((mulRL false rl vrl).sshiftRight 12)

/-- The word that it writes otherwise. -/
def clampedFrame (vrl rl : U32) : U32 :=
  packRL ((clamp16 ((mulRL true rl vrl).sshiftRight 12)).signExtend 32)
    ((clamp16 ((mulRL false rl vrl).sshiftRight 12)).signExtend 32)

/-- Some gain of the pair is above unity, or negative. -/
def boosted (vrl : U32) : Prop :=
  UNITY_GAIN.setWidth 32 < (leftHalf vrl).signExtend 32 ∨
    UNITY_GAIN.setWidth 32 < (rightHalf vrl).signExtend 32

instance (vrl : U32) : Decidable (boosted vrl) := inferInstanceAs (Decidable (_ ∨ _))

theorem unclampedFrame_eq {vrl : U32} (h : ¬ boosted vrl) (rl : U32) :
    unclampedFrame vrl rl = clampedFrame vrl rl := by
  obtain ⟨hleft, hright⟩ := not_or.mp h
  unfold unclampedFrame clampedFrame mulRL
  simp only [if_true, Bool.false_eq_true, if_false]
  rw [signExtend_clamp16 (product_fits (BitVec.not_lt.mp hleft)),
    signExtend_clamp16 (product_fits (BitVec.not_lt.mp hright))]

end AudioFlinger.Mixer
