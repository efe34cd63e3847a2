import AudioFlinger.Unicode.Model

/-!
# Surrogates and sequence lengths

The bit tests of the converters as ranges of numbers, and the number of bytes
that a high surrogate and the unit after it are converted to.
-/

namespace AudioFlinger.Unicode

/-! ## Ranges -/

theorem and_0xFC00 (u : U16) : (u &&& 0xFC00#16).toNat = u.toNat / 1024 * 1024 := by
  have hmask : ∀ i : Fin 16, (0xFC00#16).getLsbD i = decide (10 ≤ i.val) := by decide
  have hshift : u &&& 0xFC00#16 = u >>> 10 <<< 10 := by
    apply BitVec.eq_of_getLsbD_eq
    intro i hi
    rw [BitVec.getLsbD_and, hmask ⟨i, hi⟩, BitVec.getLsbD_shiftLeft, BitVec.getLsbD_ushiftRight]
    by_cases hlow : i < 10
    · simp [hlow]
    · simp [hlow, hi, Nat.le_of_not_lt hlow]
  have hu := u.isLt
  rw [hshift, BitVec.toNat_shiftLeft, BitVec.toNat_ushiftRight, Nat.shiftRight_eq_div_pow,
    Nat.shiftLeft_eq]
  omega

theorem isHigh_iff (u : U16) : isHigh u ↔ 0xD800 ≤ u.toNat ∧ u.toNat < 0xDC00 := by
  rw [isHigh, ← BitVec.toNat_inj, and_0xFC00]
  simp only [BitVec.toNat_ofNat]
  lia

theorem isLow_iff (u : U16) : isLow u ↔ 0xDC00 ≤ u.toNat ∧ u.toNat < 0xE000 := by
  rw [isLow, ← BitVec.toNat_inj, and_0xFC00]
  simp only [BitVec.toNat_ofNat]
  omega

/-- The bytes that a number takes in UTF-8. -/
def width (c : ℕ) : ℕ :=
  if c < 0x80 then 1
  else if c < 0x800 then 2
  else if c < 0x10000 then if c < 0xD800 ∨ 0xDFFF < c then 3 else 0
  else if c ≤ 0x10FFFF then 4
  else 0

/-- Three bytes, unless the number is that of a surrogate. -/
theorem width_of_three {c : ℕ} (hlo : 0x800 ≤ c) (hhi : c < 0x10000) :
    width c = if c < 0xD800 ∨ 0xDFFF < c then 3 else 0 := by
  rw [width, if_neg (by omega), if_neg (by omega), if_pos hhi]

theorem utf32_codepoint_utf8_length_eq (c : U32) :
    utf32_codepoint_utf8_length c = width c.toNat := by
  simp only [utf32_codepoint_utf8_length, width, BitVec.lt_def, BitVec.le_def,
    kUnicodeSurrogateStart, kUnicodeSurrogateEnd, kUnicodeMaxCodepoint, BitVec.toNat_ofNat,
    Nat.reducePow, Nat.reduceMod]

theorem width_unit (u : U16) :
    utf32_codepoint_utf8_length (u.setWidth 32) = width u.toNat := by
  rw [utf32_codepoint_utf8_length_eq, BitVec.toNat_setWidth_of_le (by decide)]

theorem fallThrough_length (mark : U32) (n : ℕ) (c : U32) (dst : List Byte) :
    (fallThrough mark n c dst).length = n + dst.length := by
  induction n generalizing c dst with
  | zero => simp [fallThrough]
  | succ n ih =>
    cases n with
    | zero => simp [fallThrough, Nat.add_comm]
    | succ n =>
      rw [fallThrough, ih, List.length_cons]
      omega

/-- A code point is written with as many bytes as are measured for it. -/
@[simp] theorem encode_length (c : U32) : (encode c).length = utf32_codepoint_utf8_length c := by
  simp [encode, utf32_codepoint_to_utf8, fallThrough_length]

/-! ## A high surrogate and its successor -/

/-- The low sixteen bits that come out where the unit after a high surrogate lies below the low
surrogates. -/
def mangled (hi lo : U16) : ℕ := hi.toNat % 64 * 1024 ||| (lo.toNat + 0x2400)

theorem high_part {hi : U16} (h : isHigh hi) :
    ((hi.setWidth 32 - 0xD800#32 : U32) <<< 10).toNat = hi.toNat % 1024 * 1024 := by
  rw [isHigh_iff] at h
  have hsub : (hi.setWidth 32 - 0xD800#32 : U32).toNat = hi.toNat % 1024 := by
    rw [BitVec.toNat_sub, BitVec.toNat_setWidth_of_le (by decide)]
    simp only [BitVec.toNat_ofNat]
    omega
  rw [BitVec.toNat_shiftLeft, hsub, Nat.shiftLeft_eq]
  omega

theorem combine_toNat {hi : U16} (h : isHigh hi) (lo : U16) :
    (combine hi lo).toNat =
      ((hi.toNat % 1024 * 1024 ||| (2 ^ 32 - 0xDC00 + lo.toNat) % 2 ^ 32) + 0x10000) % 2 ^ 32 := by
  have hlow : (lo.setWidth 32 - 0xDC00#32 : U32).toNat = (2 ^ 32 - 0xDC00 + lo.toNat) % 2 ^ 32 := by
    rw [BitVec.toNat_sub, BitVec.toNat_setWidth_of_le (by decide)]
    rfl
  rw [combine, BitVec.toNat_add, BitVec.toNat_or, high_part h, hlow]
  rfl

/-- From the low surrogates on the pair makes a code point of four bytes. -/
theorem width_combine_of_ge {hi lo : U16} (h : isHigh hi) (hlo : 0xDC00 ≤ lo.toNat) :
    utf32_codepoint_utf8_length (combine hi lo) = 4 := by
  have hlt := lo.isLt
  have hdiff : (2 ^ 32 - 0xDC00 + lo.toNat) % 2 ^ 32 = lo.toNat - 0xDC00 := by omega
  have hor : hi.toNat % 1024 * 1024 ||| (lo.toNat - 0xDC00) < 2 ^ 20 :=
    Nat.or_lt_two_pow (by omega) (by omega)
  rw [utf32_codepoint_utf8_length_eq, combine_toNat h, hdiff, Nat.mod_eq_of_lt (by omega)]
  unfold width
  rw [if_neg (by omega), if_neg (by omega), if_neg (by omega), if_pos (by omega)]

theorem mangled_lt {hi lo : U16} (hlo : lo.toNat < 0xDC00) : mangled hi lo < 2 ^ 16 :=
  Nat.or_lt_two_pow (by omega) (by omega)

theorem le_mangled (hi lo : U16) : lo.toNat + 0x2400 ≤ mangled hi lo := Nat.right_le_or

/-- Below them the borrow of the subtraction reaches the top bits and is carried out again. -/
theorem combine_of_lt {hi lo : U16} (h : isHigh hi) (hlo : lo.toNat < 0xDC00) :
    (combine hi lo).toNat = mangled hi lo := by
  have hdiff : (2 ^ 32 - 0xDC00 + lo.toNat) % 2 ^ 32 = 0xFFFF * 2 ^ 16 + (lo.toNat + 0x2400) := by
    lia
  have htop : ∀ x < 16, x ||| 0xFFFF = 0xFFFF := by decide
  have hhigh : (hi.toNat % 1024 * 1024 ||| (0xFFFF * 2 ^ 16 + (lo.toNat + 0x2400))) / 2 ^ 16 =
      0xFFFF := by
    rw [Nat.or_div_two_pow, show (0xFFFF * 2 ^ 16 + (lo.toNat + 0x2400)) / 2 ^ 16 = 0xFFFF by lia]
    exact htop _ (by lia)
  have hrest : (hi.toNat % 1024 * 1024 ||| (0xFFFF * 2 ^ 16 + (lo.toNat + 0x2400))) % 2 ^ 16 =
      mangled hi lo := by
    have hhi : hi.toNat % 1024 * 1024 % 2 ^ 16 = hi.toNat % 64 * 1024 := by lia
    have hlo' : (0xFFFF * 2 ^ 16 + (lo.toNat + 0x2400)) % 2 ^ 16 = lo.toNat + 0x2400 := by
      rw [Nat.mul_add_mod_self_right]
      exact Nat.mod_eq_of_lt (by lia)
    rw [Nat.or_mod_two_pow, hhi, hlo', mangled]
  have hlt := @mangled_lt hi lo hlo
  rw [combine_toNat h, hdiff]
  lia

end AudioFlinger.Unicode
