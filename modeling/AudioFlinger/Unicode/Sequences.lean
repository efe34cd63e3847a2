import AudioFlinger.Unicode.LeadBytes
import AudioFlinger.Unicode.Utf8Bounds

/-!
# Code points and their sequences

The bytes and the units that the mask arithmetic writes for a scalar value, as
numbers, and what each decoder makes of one such sequence in memory.
-/

namespace AudioFlinger.Unicode

open Foundation.Scan Foundation.RingMemory

/-- A Unicode scalar value but for zero. -/
def IsScalar (c : U32) : Prop :=
  0 < c.toNat ∧ c.toNat ≤ 0x10FFFF ∧ ¬ (0xD800 ≤ c.toNat ∧ c.toNat ≤ 0xDFFF)

/-- A continuation byte with the low six bits of a number. -/
def tail (x : ℕ) : Byte := BitVec.ofNat 8 (0x80 + x % 64)

/-- A scalar value in UTF-8. -/
def utf8Bytes (c : ℕ) : List Byte :=
  if c < 0x80 then [BitVec.ofNat 8 c]
  else if c < 0x800 then [BitVec.ofNat 8 (0xC0 + c / 64), tail c]
  else if c < 0x10000 then [BitVec.ofNat 8 (0xE0 + c / 4096), tail (c / 64), tail c]
  else [BitVec.ofNat 8 (0xF0 + c / 262144), tail (c / 4096), tail (c / 64), tail c]

/-- A scalar value in UTF-16. -/
def utf16Units (c : ℕ) : List U16 :=
  if c < 0x10000 then [BitVec.ofNat 16 c]
  else [BitVec.ofNat 16 (0xD800 + (c - 0x10000) / 1024),
    BitVec.ofNat 16 (0xDC00 + (c - 0x10000) % 1024)]

theorem utf8Bytes_ne_nil (c : ℕ) : utf8Bytes c ≠ [] := by
  unfold utf8Bytes
  split_ifs <;> simp

theorem utf16Units_ne_nil (c : ℕ) : utf16Units c ≠ [] := by
  unfold utf16Units
  split_ifs <;> simp

/-- The size class of a scalar value. -/
theorem IsScalar.cases {c : U32} (h : IsScalar c) {P : Prop}
    (one : c.toNat < 0x80 → P) (two : 0x80 ≤ c.toNat → c.toNat < 0x800 → P)
    (three : 0x800 ≤ c.toNat → c.toNat < 0x10000 → ¬ (0xD800 ≤ c.toNat ∧ c.toNat ≤ 0xDFFF) → P)
    (four : 0x10000 ≤ c.toNat → c.toNat ≤ 0x10FFFF → P) : P := by
  obtain ⟨-, hmax, hsurrogate⟩ := h
  by_cases h1 : c.toNat < 0x80
  · exact one h1
  · by_cases h2 : c.toNat < 0x800
    · exact two (by omega) h2
    · by_cases h3 : c.toNat < 0x10000
      · exact three (by omega) h3 hsurrogate
      · exact four (by omega) hmax

/-! ## Writing -/

theorem marked_byte (c : U32) :
    ((c ||| kByteMark) &&& kByteMask).setWidth 8 = tail c.toNat := by
  have hbyte : ∀ b : Byte, (b ||| 0x80#8) &&& 0xBF#8 = BitVec.ofNat 8 (0x80 + b.toNat % 64) := by
    decide +kernel
  have hsplit : ((c ||| kByteMark) &&& kByteMask).setWidth 8 =
      (c.setWidth 8 ||| 0x80#8) &&& 0xBF#8 := by
    rw [BitVec.setWidth_and, BitVec.setWidth_or]
    rfl
  rw [hsplit, hbyte, tail, BitVec.toNat_setWidth]
  congr 1
  lia

/-- A first byte is the mark plus what is left of the code point. -/
theorem first_byte (k m x : ℕ) (hm : kFirstByteMark k = BitVec.ofNat 32 m)
    (hor : ∀ y : Fin x, BitVec.ofNat 8 y.val ||| BitVec.ofNat 8 m = BitVec.ofNat 8 (m + y.val))
    {c : U32} (h : c.toNat < x) :
    (c ||| kFirstByteMark k).setWidth 8 = BitVec.ofNat 8 (m + c.toNat) := by
  have hc : c.setWidth 8 = BitVec.ofNat 8 c.toNat := rfl
  have hmark : (BitVec.ofNat 32 m).setWidth 8 = BitVec.ofNat 8 m := by
    apply BitVec.eq_of_toNat_eq
    simp only [BitVec.toNat_setWidth, BitVec.toNat_ofNat]
    omega
  rw [hm, BitVec.setWidth_or, hc, hmark]
  exact hor ⟨c.toNat, h⟩

theorem shift_six (c : U32) : (c >>> 6).toNat = c.toNat / 64 := by
  rw [BitVec.toNat_ushiftRight, Nat.shiftRight_eq_div_pow]

/-- The converters write the UTF-8 form of a scalar value. -/
theorem encode_eq {c : U32} (h : IsScalar c) : encode c = utf8Bytes c.toNat := by
  rw [encode, utf32_codepoint_utf8_length_eq, utf32_codepoint_to_utf8]
  apply h.cases
  · intro h1
    rw [width, if_pos h1, utf8Bytes, if_pos h1, fallThrough,
      first_byte 1 0 0x80 rfl (by decide) h1, Nat.zero_add]
  · intro h1 h2
    rw [width, if_neg (by omega), if_pos h2, utf8Bytes, if_neg (by omega), if_pos h2]
    simp only [fallThrough, marked_byte]
    have hlead : (c >>> 6).toNat < 32 := by
      rw [shift_six]
      omega
    rw [first_byte 2 0xC0 32 rfl (by decide) hlead, shift_six]
  · intro h1 h2 h3
    rw [width, if_neg (by omega), if_neg (by omega), if_pos h2, if_pos (by omega), utf8Bytes,
      if_neg (by omega), if_neg (by omega), if_pos h2]
    simp only [fallThrough, marked_byte]
    have hlead : (c >>> 6 >>> 6).toNat < 16 := by
      rw [shift_six, shift_six]
      omega
    rw [first_byte 3 0xE0 16 rfl (by decide) hlead]
    simp only [shift_six, Nat.div_div_eq_div_mul, Nat.reduceMul]
  · intro h1 h2
    rw [width, if_neg (by omega), if_neg (by omega), if_neg (by omega), if_pos h2, utf8Bytes,
      if_neg (by omega), if_neg (by omega), if_neg (by omega)]
    simp only [fallThrough, marked_byte]
    have hlead : (c >>> 6 >>> 6 >>> 6).toNat < 8 := by
      rw [shift_six, shift_six, shift_six]
      omega
    rw [first_byte 4 0xF0 8 rfl (by decide) hlead]
    simp only [shift_six, Nat.div_div_eq_div_mul, Nat.reduceMul]

/-- The 16-bit decoder writes the UTF-16 form of a code point. -/
theorem writeUnits_eq {c : U32} (h : c.toNat ≤ 0x10FFFF) : writeUnits c = utf16Units c.toNat := by
  by_cases hbmp : c.toNat < 0x10000
  · have hle : c ≤ 0xFFFF#32 := by
      rw [BitVec.le_def, BitVec.toNat_ofNat]
      omega
    rw [writeUnits, if_pos hle, utf16Units, if_pos hbmp]
    rfl
  · have hle : ¬ c ≤ 0xFFFF#32 := by
      rw [BitVec.le_def, BitVec.toNat_ofNat]
      omega
    have hsub : (c - 0x10000#32).toNat = c.toNat - 0x10000 := by
      have hge : 0x10000#32 ≤ c := by
        rw [BitVec.le_def, BitVec.toNat_ofNat]
        omega
      rw [BitVec.toNat_sub_of_le hge]
      rfl
    have hhigh : ((c - 0x10000#32) >>> 10).toNat = (c.toNat - 0x10000) / 1024 := by
      rw [BitVec.toNat_ushiftRight, Nat.shiftRight_eq_div_pow, hsub]
    have hlow : ((c - 0x10000#32) &&& 0x3FF#32).toNat = (c.toNat - 0x10000) % 1024 := by
      rw [BitVec.toNat_and, hsub]
      exact Nat.and_two_pow_sub_one_eq_mod _ 10
    have hfirst : (((c - 0x10000#32) >>> 10) + 0xD800#32).setWidth 16 =
        BitVec.ofNat 16 (0xD800 + (c.toNat - 0x10000) / 1024) := by
      apply BitVec.eq_of_toNat_eq
      rw [BitVec.toNat_setWidth, BitVec.toNat_add, hhigh]
      simp only [BitVec.toNat_ofNat]
      omega
    have hsecond : (((c - 0x10000#32) &&& 0x3FF#32) + 0xDC00#32).setWidth 16 =
        BitVec.ofNat 16 (0xDC00 + (c.toNat - 0x10000) % 1024) := by
      apply BitVec.eq_of_toNat_eq
      rw [BitVec.toNat_setWidth, BitVec.toNat_add, hlow]
      simp only [BitVec.toNat_ofNat]
      omega
    rw [writeUnits, if_neg hle, utf16Units, if_neg hbmp]
    simp only [hfirst, hsecond]

/-! ## The sequence at a position -/

variable {src : ℕ → Byte}

theorem tail_toNat (x : ℕ) : (tail x).toNat = 0x80 + x % 64 := by
  rw [tail, BitVec.toNat_ofNat]
  omega

theorem low_six (b : Byte) : (b &&& 0x3F#8).toNat = b.toNat % 64 := by
  rw [BitVec.toNat_and]
  exact Nat.and_two_pow_sub_one_eq_mod _ 6

/-- One more byte of a sequence. -/
theorem accumulate_byte (u : U32) (b : Byte) :
    ((u <<< 6) + (b &&& 0x3F#8).setWidth 32).toNat = (u.toNat * 64 + b.toNat % 64) % 2 ^ 32 := by
  rw [BitVec.toNat_add, BitVec.toNat_shiftLeft, Nat.shiftLeft_eq,
    BitVec.toNat_setWidth_of_le (by decide), low_six]
  omega

theorem and_ones {x m : U32} {k : ℕ} (hm : m.toNat = 2 ^ k - 1) :
    (x &&& m).toNat = x.toNat % 2 ^ k := by
  rw [BitVec.toNat_and, hm, Nat.and_two_pow_sub_one_eq_mod]

/-- The 32-bit decoder on a sequence of one byte. -/
theorem at_one (signedChar : Bool) {cur : ℕ} (h : (src cur).toNat < 0x80) :
    (utf32_at_internal signedChar src cur).val = ((src cur).setWidth 32, 1) := by
  have hascii := (ascii_bit signedChar (src cur)).mpr h
  rw [utf32_at_internal, Reading.val_bind, val_read]
  simp only [if_pos hascii, Reading.val_pure]
  rw [promote_ascii _ _ h]

/-- On a sequence of two. -/
theorem at_two (signedChar : Bool) {cur : ℕ} (hlo : 0xC0 ≤ (src cur).toNat)
    (hhi : (src cur).toNat < 0xE0) :
    (utf32_at_internal signedChar src cur).val.1.toNat =
      (src cur).toNat % 32 * 64 + (src (cur + 1)).toNat % 64 := by
  obtain ⟨h7, hbit6, hbit5, -⟩ := lead_tests signedChar hlo
  have h5 := mt hbit5.mp (by omega)
  have hmask : ∀ x : U32, x &&& ~~~((0xFFFFFF80#32 ||| 0x40#32 ||| 0x40#32 >>> 1) <<< (6 * (1 + 1 - 1)))
      = x &&& 0x7FF#32 := fun _ => rfl
  have hpromote := promote_mod signedChar (src cur)
  rw [utf32_at_internal, Reading.val_bind, val_read]
  simp only [if_neg h7, atLoop, if_pos hbit6, if_neg h5, Reading.val_bind, val_read,
    Reading.val_pure]
  rw [hmask, @and_ones _ _ 11 rfl, accumulate_byte]
  omega

/-- On a sequence of three. -/
theorem at_three (signedChar : Bool) {cur : ℕ} (hlo : 0xE0 ≤ (src cur).toNat)
    (hhi : (src cur).toNat < 0xF0) :
    (utf32_at_internal signedChar src cur).val.1.toNat =
      (src cur).toNat % 16 * 4096 + (src (cur + 1)).toNat % 64 * 64 +
        (src (cur + 2)).toNat % 64 := by
  obtain ⟨h7, hbit6, hbit5, hbit4, -⟩ := @lead_tests signedChar (src cur) (by omega)
  have h5 := hbit5.mpr hlo
  have h4 := mt (hbit4 hlo).mp (by omega)
  have hmask : ∀ x : U32, x &&& ~~~((0xFFFFFF80#32 ||| 0x40#32 ||| 0x40#32 >>> 1 |||
      0x40#32 >>> 1 >>> 1) <<< (6 * (1 + 1 + 1 - 1))) = x &&& 0xFFFF#32 := fun _ => rfl
  have hpromote := promote_mod signedChar (src cur)
  rw [utf32_at_internal, Reading.val_bind, val_read]
  simp only [if_neg h7, atLoop, if_pos hbit6, if_pos h5, if_neg h4, Reading.val_bind, val_read,
    Reading.val_pure]
  rw [hmask, @and_ones _ _ 16 rfl, accumulate_byte, accumulate_byte, Nat.add_assoc cur]
  omega

/-- On a sequence of four. -/
theorem at_four (signedChar : Bool) {cur : ℕ} (hlo : 0xF0 ≤ (src cur).toNat)
    (hhi : (src cur).toNat < 0xF8) :
    (utf32_at_internal signedChar src cur).val.1.toNat =
      (src cur).toNat % 8 * 262144 + (src (cur + 1)).toNat % 64 * 4096 +
        (src (cur + 2)).toNat % 64 * 64 + (src (cur + 3)).toNat % 64 := by
  obtain ⟨h7, hbit6, hbit5, hbit4, hbit3⟩ := @lead_tests signedChar (src cur) (by omega)
  have h5 := hbit5.mpr (by omega)
  have h4 := (hbit4 (by omega)).mpr hlo
  have h3 := mt (hbit3 hlo).mp (by omega)
  have hmask : ∀ x : U32, x &&& ~~~((0xFFFFFF80#32 ||| 0x40#32 ||| 0x40#32 >>> 1 |||
      0x40#32 >>> 1 >>> 1 ||| 0x40#32 >>> 1 >>> 1 >>> 1) <<< (6 * (1 + 1 + 1 + 1 - 1))) =
      x &&& 0x1FFFFF#32 := fun _ => rfl
  have hpromote := promote_mod signedChar (src cur)
  rw [utf32_at_internal, Reading.val_bind, val_read]
  simp only [if_neg h7, atLoop, if_pos hbit6, if_pos h5, if_pos h4, if_neg h3, Reading.val_bind,
    val_read, Reading.val_pure]
  rw [hmask, @and_ones _ _ 21 rfl, accumulate_byte, accumulate_byte, accumulate_byte, Nat.add_assoc cur,
    Nat.add_assoc cur]
  lia

/-- The 16-bit decoder puts six more bits behind a code point that has room for them. -/
theorem shift_and_mask_toNat {u : U32} (hu : u.toNat < 2 ^ 26) (b : Byte) :
    (utf8_shift_and_mask u b).toNat = u.toNat * 64 + b.toNat % 64 := by
  have hmask : (0x3F#32 &&& b.setWidth 32).toNat = b.toNat % 64 := by
    rw [BitVec.and_comm, @and_ones _ _ 6 rfl, BitVec.toNat_setWidth_of_le (by decide)]
    omega
  have hor := @Nat.shiftLeft_add_eq_or_of_lt 6 (b.toNat % 64) (by omega) u.toNat
  rw [utf8_shift_and_mask, BitVec.toNat_or, hmask, BitVec.toNat_shiftLeft,
    Nat.mod_eq_of_lt (by rw [Nat.shiftLeft_eq]; omega), ← hor, Nat.shiftLeft_eq]

theorem lead_toNat {b : Byte} {m : U32} {k : ℕ} (hm : m.toNat = 2 ^ k - 1) :
    (b.setWidth 32 &&& m).toNat = b.toNat % 2 ^ k := by
  rw [and_ones hm, BitVec.toNat_setWidth_of_le (by decide)]

theorem codepoint_two (cur : ℕ) :
    (utf8_to_utf32_codepoint src cur 2).val.toNat =
      (src cur).toNat % 32 * 64 + (src (cur + 1)).toNat % 64 := by
  have hlead := @lead_toNat (src cur) 0x1f#32 5 rfl
  simp only [utf8_to_utf32_codepoint, Reading.val_bind, Reading.val_pure, val_read]
  rw [shift_and_mask_toNat (by omega), hlead]
  omega

theorem codepoint_three (cur : ℕ) :
    (utf8_to_utf32_codepoint src cur 3).val.toNat =
      (src cur).toNat % 16 * 4096 + (src (cur + 1)).toNat % 64 * 64 +
        (src (cur + 2)).toNat % 64 := by
  have hlead := @lead_toNat (src cur) 0x0f#32 4 rfl
  simp only [utf8_to_utf32_codepoint, Reading.val_bind, Reading.val_pure, val_read]
  rw [shift_and_mask_toNat (by rw [shift_and_mask_toNat (by omega)]; omega),
    shift_and_mask_toNat (by omega), hlead]
  omega

theorem codepoint_four (cur : ℕ) :
    (utf8_to_utf32_codepoint src cur 4).val.toNat =
      (src cur).toNat % 8 * 262144 + (src (cur + 1)).toNat % 64 * 4096 +
        (src (cur + 2)).toNat % 64 * 64 + (src (cur + 3)).toNat % 64 := by
  have hlead := @lead_toNat (src cur) 0x07#32 3 rfl
  have hsecond := @shift_and_mask_toNat (BitVec.setWidth 32 (src cur) &&& 0x07#32) (by omega)
    (src (cur + 1))
  have hthird := @shift_and_mask_toNat _ (by rw [hsecond]; omega) (src (cur + 2))
  simp only [utf8_to_utf32_codepoint, Reading.val_bind, Reading.val_pure, val_read]
  rw [shift_and_mask_toNat (by rw [hthird]; omega), hthird, hsecond, hlead]
  omega

/-! ## The sequence of a scalar value -/

theorem promised_toNat (most : ℕ) (b : Byte) :
    promised most b = min most (if b.toNat < 0xC0 then 1 else if b.toNat < 0xE0 then 2
      else if b.toNat < 0xF0 then 3 else if b.toNat < 0xF8 then 4 else if b.toNat < 0xFC then 5
      else if b.toNat < 0xFE then 6 else if b.toNat < 0xFF then 7 else 8) := by
  simp only [promised, BitVec.lt_def, BitVec.toNat_ofNat, Nat.reducePow, Nat.reduceMod]

/-- A scalar value lies in memory as its bytes. -/
def Holds8 (src : ℕ → Byte) (cur : ℕ) (c : U32) : Prop :=
  slice src cur (utf8Bytes c.toNat).length = utf8Bytes c.toNat

variable {c : U32} {cur : ℕ}

theorem Holds8.one (h : Holds8 src cur c) (hc : c.toNat < 0x80) :
    (src cur).toNat = c.toNat ∧ (utf8Bytes c.toNat).length = 1 := by
  have hbytes : utf8Bytes c.toNat = [BitVec.ofNat 8 c.toNat] := by rw [utf8Bytes, if_pos hc]
  rw [Holds8, hbytes, slice_cons_iff] at h
  rw [h.1, hbytes, BitVec.toNat_ofNat]
  exact ⟨by omega, rfl⟩

theorem Holds8.two (h : Holds8 src cur c) (hlo : 0x80 ≤ c.toNat) (hhi : c.toNat < 0x800) :
    (src cur).toNat = 0xC0 + c.toNat / 64 ∧ (src (cur + 1)).toNat = 0x80 + c.toNat % 64 ∧
      (utf8Bytes c.toNat).length = 2 := by
  have hbytes : utf8Bytes c.toNat = [BitVec.ofNat 8 (0xC0 + c.toNat / 64), tail c.toNat] := by
    rw [utf8Bytes, if_neg (by omega), if_pos hhi]
  rw [Holds8, hbytes, slice_cons_iff, slice_cons_iff] at h
  obtain ⟨h0, h1, -⟩ := h
  rw [h0, h1, hbytes, BitVec.toNat_ofNat, tail_toNat]
  exact ⟨by omega, rfl, rfl⟩

theorem Holds8.three (h : Holds8 src cur c) (hlo : 0x800 ≤ c.toNat) (hhi : c.toNat < 0x10000) :
    (src cur).toNat = 0xE0 + c.toNat / 4096 ∧ (src (cur + 1)).toNat = 0x80 + c.toNat / 64 % 64 ∧
      (src (cur + 2)).toNat = 0x80 + c.toNat % 64 ∧ (utf8Bytes c.toNat).length = 3 := by
  have hbytes : utf8Bytes c.toNat =
      [BitVec.ofNat 8 (0xE0 + c.toNat / 4096), tail (c.toNat / 64), tail c.toNat] := by
    rw [utf8Bytes, if_neg (by omega), if_neg (by omega), if_pos hhi]
  rw [Holds8, hbytes, slice_cons_iff, slice_cons_iff, slice_cons_iff] at h
  obtain ⟨h0, h1, h2, -⟩ := h
  rw [h0, h1, h2, hbytes, BitVec.toNat_ofNat, tail_toNat, tail_toNat]
  exact ⟨by omega, rfl, rfl, rfl⟩

theorem Holds8.four (h : Holds8 src cur c) (hlo : 0x10000 ≤ c.toNat) (hhi : c.toNat ≤ 0x10FFFF) :
    (src cur).toNat = 0xF0 + c.toNat / 262144 ∧
      (src (cur + 1)).toNat = 0x80 + c.toNat / 4096 % 64 ∧
      (src (cur + 2)).toNat = 0x80 + c.toNat / 64 % 64 ∧
      (src (cur + 3)).toNat = 0x80 + c.toNat % 64 ∧ (utf8Bytes c.toNat).length = 4 := by
  have hbytes : utf8Bytes c.toNat = [BitVec.ofNat 8 (0xF0 + c.toNat / 262144),
      tail (c.toNat / 4096), tail (c.toNat / 64), tail c.toNat] := by
    rw [utf8Bytes, if_neg (by omega), if_neg (by omega), if_neg (by omega)]
  rw [Holds8, hbytes, slice_cons_iff, slice_cons_iff, slice_cons_iff, slice_cons_iff] at h
  obtain ⟨h0, h1, h2, h3, -⟩ := h
  rw [h0, h1, h2, h3, hbytes, BitVec.toNat_ofNat, tail_toNat, tail_toNat, tail_toNat]
  exact ⟨by omega, rfl, rfl, rfl, rfl⟩

/-- The lead byte of a scalar value promises its bytes to both decoders. -/
theorem Holds8.promised (h : Holds8 src cur c) (hc : IsScalar c) {most : ℕ} (hmost : 4 ≤ most) :
    promised most (src cur) = (utf8Bytes c.toNat).length := by
  rw [promised_toNat]
  apply hc.cases
  · intro h1
    obtain ⟨h0, hlen⟩ := h.one h1
    rw [hlen, h0]
    split_ifs <;> omega
  · intro h1 h2
    obtain ⟨h0, -, hlen⟩ := h.two h1 h2
    rw [hlen, h0]
    split_ifs <;> omega
  · intro h1 h2 _
    obtain ⟨h0, -, -, hlen⟩ := h.three h1 h2
    rw [hlen, h0]
    split_ifs <;> omega
  · intro h1 h2
    obtain ⟨h0, -, -, -, hlen⟩ := h.four h1 h2
    rw [hlen, h0]
    split_ifs <;> omega

/-- Digits to the base 64 below a leading one, each with the mark of its byte. -/
theorem digits_two {n : ℕ} (h : n < 0x800) :
    (0xC0 + n / 64) % 32 * 64 + (0x80 + n % 64) % 64 = n := by
  omega

theorem digits_three {n : ℕ} (h : n < 0x10000) :
    (0xE0 + n / 4096) % 16 * 4096 + (0x80 + n / 64 % 64) % 64 * 64 + (0x80 + n % 64) % 64 = n := by
  have hlead : (0xE0 + n / 4096) % 16 = n / 64 / 64 := by omega
  have hsecond : (0x80 + n / 64 % 64) % 64 = n / 64 % 64 := by omega
  have hlast : (0x80 + n % 64) % 64 = n % 64 := by omega
  rw [hlead, hsecond, hlast]
  omega

theorem digits_four {n : ℕ} (h : n ≤ 0x10FFFF) :
    (0xF0 + n / 262144) % 8 * 262144 + (0x80 + n / 4096 % 64) % 64 * 4096 +
      (0x80 + n / 64 % 64) % 64 * 64 + (0x80 + n % 64) % 64 = n := by
  have hlead : (0xF0 + n / 262144) % 8 = n / 64 / 64 / 64 := by omega
  have hsecond : (0x80 + n / 4096 % 64) % 64 = n / 64 / 64 % 64 := by omega
  have hthird : (0x80 + n / 64 % 64) % 64 = n / 64 % 64 := by omega
  have hlast : (0x80 + n % 64) % 64 = n % 64 := by omega
  rw [hlead, hsecond, hthird, hlast]
  omega

/-- The 32-bit decoder gives a scalar value back. -/
theorem Holds8.decode32 (h : Holds8 src cur c) (hc : IsScalar c) (signedChar : Bool) :
    (utf32_at_internal signedChar src cur).val.1 = c := by
  apply BitVec.eq_of_toNat_eq
  apply hc.cases
  · intro h1
    obtain ⟨h0, -⟩ := h.one h1
    rw [at_one signedChar (by omega), BitVec.toNat_setWidth_of_le (by decide), h0]
  · intro h1 h2
    obtain ⟨h0, ht, -⟩ := h.two h1 h2
    rw [at_two signedChar (by omega) (by omega), h0, ht]
    exact digits_two h2
  · intro h1 h2 _
    obtain ⟨h0, ht, hu, -⟩ := h.three h1 h2
    rw [at_three signedChar (by omega) (by omega), h0, ht, hu]
    exact digits_three h2
  · intro h1 h2
    obtain ⟨h0, ht, hu, hv, -⟩ := h.four h1 h2
    rw [at_four signedChar (by omega) (by omega), h0, ht, hu, hv]
    exact digits_four h2

/-- So does the 16-bit decoder. -/
theorem Holds8.decode16 (h : Holds8 src cur c) (hc : IsScalar c) : codepointAt src cur = c := by
  apply BitVec.eq_of_toNat_eq
  rw [codepointAt, h.promised hc le_rfl]
  apply hc.cases
  · intro h1
    obtain ⟨h0, hlen⟩ := h.one h1
    rw [hlen, ← h0]
    exact BitVec.toNat_setWidth_of_le (by decide)
  · intro h1 h2
    obtain ⟨h0, ht, hlen⟩ := h.two h1 h2
    rw [hlen, codepoint_two, h0, ht]
    exact digits_two h2
  · intro h1 h2 _
    obtain ⟨h0, ht, hu, hlen⟩ := h.three h1 h2
    rw [hlen, codepoint_three, h0, ht, hu]
    exact digits_three h2
  · intro h1 h2
    obtain ⟨h0, ht, hu, hv, hlen⟩ := h.four h1 h2
    rw [hlen, codepoint_four, h0, ht, hu, hv]
    exact digits_four h2

end AudioFlinger.Unicode
