import AudioFlinger.Unicode.Sequences

/-!
# Round trips between the encodings

Each loop runs over a text of scalar values one value a round, so that what it
writes and counts is put together from what it does with one of them.
-/

namespace AudioFlinger.Unicode

open Foundation.Scan Foundation.RingMemory

/-- A Unicode scalar value other than zero. -/
abbrev Scalar := {c : U32 // IsScalar c}

def values (cs : List Scalar) : List U32 := cs.flatMap fun c => [c.val]

def utf8Text (cs : List Scalar) : List Byte := cs.flatMap fun c => utf8Bytes c.val.toNat

def utf16Text (cs : List Scalar) : List U16 := cs.flatMap fun c => utf16Units c.val.toNat

theorem foldl_count {κ α : Type} (f : κ → List α) (ks : List κ) :
    ks.foldl (fun n k => n + (f k).length) 0 = (ks.flatMap f).length := by
  have hgen : ∀ n, ks.foldl (fun n k => n + (f k).length) n = n + (ks.flatMap f).length := by
    induction ks with
    | nil => simp
    | cons k ks ih =>
      intro n
      rw [List.foldl_cons, ih, List.flatMap_cons, List.length_append, Nat.add_assoc]
  rw [hgen, Nat.zero_add]

theorem foldl_write {κ α : Type} (f : κ → List α) (ks : List κ) :
    ks.foldl (fun xs k => xs ++ f k) [] = ks.flatMap f := List.flatMap_eq_foldl.symm

/-- The bytes measured for a scalar value. -/
theorem measured_eq (c : Scalar) :
    utf32_codepoint_utf8_length c.val = (utf8Bytes c.val.toNat).length := by
  rw [← encode_eq c.property, encode_length]

variable {cs : List Scalar} {n : ℕ}

/-! ## From UTF-32 -/

section FromUtf32

variable {src : ℕ → U32}

theorem utf32_to_utf8_text (hn : n ≠ 0) (hlen : (values cs).length = n)
    (hsrc : slice src 0 n = values cs) :
    (utf32_to_utf8 src n).map Reading.val = some (utf8Text cs ++ [0#8]) := by
  rw [utf32_to_utf8, if_neg hn, @scan_all _ n _ _ _ src (fun c : Scalar => [c.val])
    (fun dst c => dst ++ utf8Bytes c.val.toNat) (fun cur _ => [cur]) (by simp) ?_ cs [] hlen hsrc]
  · rw [foldl_write]
    rfl
  · intro cur dst c hc _
    rw [List.length_singleton, slice_cons] at hc
    rw [Reading.bind_eq, val_read, (List.cons.inj hc).1, encode_eq c.property]
    rfl

theorem utf32_to_utf8_length_text (hn : n ≠ 0) (hlen : (values cs).length = n)
    (hsrc : slice src 0 n = values cs) :
    (utf32_to_utf8_length src n).map Reading.val = some (ssize_t (utf8Text cs).length) := by
  rw [utf32_to_utf8_length, if_neg hn, @scan_all ℕ n _ _ _ src (fun c : Scalar => [c.val])
    (fun ret c => ret + (utf8Bytes c.val.toNat).length) (fun cur _ => [cur]) (by simp) ?_ cs 0 hlen
    hsrc]
  · rw [foldl_count]
    rfl
  · intro cur ret c hc _
    rw [List.length_singleton, slice_cons] at hc
    rw [Reading.bind_eq, val_read, (List.cons.inj hc).1, measured_eq]
    rfl

end FromUtf32

/-! ## From UTF-8 -/

section FromUtf8

variable {src : ℕ → Byte}

theorem utf8_to_utf32_text (signedChar : Bool) (hn : n ≠ 0) (hlen : (utf8Text cs).length = n)
    (hsrc : slice src 0 n = utf8Text cs) :
    (utf8_to_utf32 signedChar src n).map Reading.val = some (values cs ++ [0#32]) := by
  rw [utf8_to_utf32, if_neg hn, @scan_all _ n _ _ _ src (fun c : Scalar => utf8Bytes c.val.toNat)
    (fun dst c => dst ++ [c.val]) (fun cur c => List.range' cur (utf8Bytes c.val.toNat).length)
    (fun c => utf8Bytes_ne_nil _) ?_ cs [] hlen hsrc]
  · rw [foldl_write]
    rfl
  · intro cur dst c hc _
    have hholds : Holds8 src cur c.val := hc
    rw [convert32_round, hholds.promised c.property (by decide), codepoint32At,
      hholds.decode32 c.property]

theorem utf8_to_utf32_length_text (signedChar : Bool) (hn : n ≠ 0)
    (hlen : (utf8Text cs).length = n) (hsrc : slice src 0 n = utf8Text cs) :
    (utf8_to_utf32_length signedChar src n).map Reading.val = some (values cs).length := by
  rw [utf8_to_utf32_length, if_neg hn, @scan_all ℕ n _ _ _ src
    (fun c : Scalar => utf8Bytes c.val.toNat) (fun ret c => ret + [c.val].length)
    (fun cur _ => [cur]) (fun c => utf8Bytes_ne_nil _) ?_ cs 0 hlen hsrc]
  · rw [foldl_count]
    rfl
  · intro cur ret c hc _
    have hholds : Holds8 src cur c.val := hc
    rw [measure32_round, hholds.promised c.property (by decide), List.length_singleton]

/-- The 16-bit form of the scalar value at a position. -/
theorem units_at {cur : ℕ} {c : Scalar} (h : Holds8 src cur c.val) :
    writeUnits (codepointAt src cur) = utf16Units c.val.toNat ∧
      unitsAt src cur = (utf16Units c.val.toNat).length := by
  have hunits := writeUnits_eq c.property.2.1
  rw [h.decode16 c.property, hunits, unitsAt, h.decode16 c.property, ← writeUnits_length, hunits]
  exact ⟨rfl, rfl⟩

theorem utf8_to_utf16_text (hlen : (utf8Text cs).length = n)
    (hsrc : slice src 0 n = utf8Text cs) :
    (utf8_to_utf16 src n).map Reading.val = some (utf16Text cs ++ [0#16]) := by
  rw [utf8_to_utf16, utf8_to_utf16_no_null_terminator, @scan_all _ n _ _ _ src
    (fun c : Scalar => utf8Bytes c.val.toNat) (fun us c => us ++ utf16Units c.val.toNat)
    (fun cur c => cur :: List.range' cur (utf8Bytes c.val.toNat).length)
    (fun c => utf8Bytes_ne_nil _) ?_ cs [] hlen hsrc]
  · rw [foldl_write]
    rfl
  · intro cur us c hc _
    have hholds : Holds8 src cur c.val := hc
    rw [convert16_round, hholds.promised c.property le_rfl, (units_at hholds).1]

theorem utf8_to_utf16_length_text (hlen : (utf8Text cs).length = n)
    (hsrc : slice src 0 n = utf8Text cs) :
    (utf8_to_utf16_length src n).map Reading.val = some (ssize_t (utf16Text cs).length) := by
  rw [utf8_to_utf16_length, @scan_all _ n _ _ _ src
    (fun c : Scalar => utf8Bytes c.val.toNat) (fun m c => m + (utf16Units c.val.toNat).length)
    (fun cur c => cur :: List.range' cur (utf8Bytes c.val.toNat).length)
    (fun c => utf8Bytes_ne_nil _) ?_ cs 0 hlen hsrc]
  · rw [foldl_count]
    simp only [Option.map_some, Reading.map, ne_eq, not_true_eq_false, if_false, utf16Text]
  · intro cur m c hc _
    have hholds : Holds8 src cur c.val := hc
    rw [measure16_round, hholds.promised c.property le_rfl, (units_at hholds).2]

end FromUtf8

/-! ## From UTF-16 -/

section FromUtf16

variable {src : ℕ → U16}

/-- A scalar value lies in memory as its units: one that is no high surrogate, or a pair that
combines to the value. -/
theorem holds16_cases {cur : ℕ} {c : Scalar}
    (h : slice src cur (utf16Units c.val.toNat).length = utf16Units c.val.toNat) :
    (¬ isHigh (src cur) ∧ (src cur).setWidth 32 = c.val ∧ (utf16Units c.val.toNat).length = 1) ∨
    (isHigh (src cur) ∧ isLow (src (cur + 1)) ∧ combine (src cur) (src (cur + 1)) = c.val ∧
      (utf8Bytes c.val.toNat).length = 4 ∧ (utf16Units c.val.toNat).length = 2) := by
  obtain ⟨hpos, hmax, hsurrogate⟩ := c.property
  by_cases hbmp : c.val.toNat < 0x10000
  · have hunits : utf16Units c.val.toNat = [BitVec.ofNat 16 c.val.toNat] := by
      rw [utf16Units, if_pos hbmp]
    rw [hunits, slice_cons_iff] at h
    have h0 : (src cur).toNat = c.val.toNat := by
      rw [h.1, BitVec.toNat_ofNat]
      omega
    refine Or.inl ⟨?_, ?_, by rw [hunits]; rfl⟩
    · rw [isHigh_iff]
      omega
    · apply BitVec.eq_of_toNat_eq
      rw [BitVec.toNat_setWidth_of_le (by decide), h0]
  · have hunits : utf16Units c.val.toNat =
        [BitVec.ofNat 16 (0xD800 + (c.val.toNat - 0x10000) / 1024),
          BitVec.ofNat 16 (0xDC00 + (c.val.toNat - 0x10000) % 1024)] := by
      rw [utf16Units, if_neg hbmp]
    rw [hunits, slice_cons_iff, slice_cons_iff] at h
    have h0 : (src cur).toNat = 0xD800 + (c.val.toNat - 0x10000) / 1024 := by
      rw [h.1, BitVec.toNat_ofNat]
      omega
    have h1 : (src (cur + 1)).toNat = 0xDC00 + (c.val.toNat - 0x10000) % 1024 := by
      rw [h.2.1, BitVec.toNat_ofNat]
      omega
    have hhigh : isHigh (src cur) := by
      rw [isHigh_iff]
      omega
    have hlow : isLow (src (cur + 1)) := by
      rw [isLow_iff]
      omega
    have hcombine : combine (src cur) (src (cur + 1)) = c.val := by
      have hdiff : (2 ^ 32 - 0xDC00 + (src (cur + 1)).toNat) % 2 ^ 32 =
          (c.val.toNat - 0x10000) % 1024 := by
        omega
      have hor := @Nat.shiftLeft_add_eq_or_of_lt 10 ((c.val.toNat - 0x10000) % 1024) (by omega)
        ((src cur).toNat % 1024)
      rw [Nat.shiftLeft_eq] at hor
      apply BitVec.eq_of_toNat_eq
      rw [combine_toNat hhigh, hdiff]
      simp only [Nat.reducePow] at hor ⊢
      rw [← hor, h0]
      omega
    have hfour : (utf8Bytes c.val.toNat).length = 4 := by
      rw [utf8Bytes, if_neg (by omega), if_neg (by omega), if_neg hbmp]
      rfl
    exact Or.inr ⟨hhigh, hlow, hcombine, hfour, by rw [hunits]; rfl⟩

/-- What both loops read for a scalar value. -/
def reads16At (cur : ℕ) (c : Scalar) : List ℕ := List.range' cur (utf16Units c.val.toNat).length

theorem utf16_to_utf8_text (hn : n ≠ 0) (hlen : (utf16Text cs).length = n)
    (hsrc : slice src 0 n = utf16Text cs) :
    (utf16_to_utf8 src n).map Reading.val = some (utf8Text cs ++ [0#8]) := by
  rw [utf16_to_utf8, if_neg hn, @scan_all _ n _ _ _ src
    (fun c : Scalar => utf16Units c.val.toNat) (fun dst c => dst ++ utf8Bytes c.val.toNat)
    reads16At (fun c => utf16Units_ne_nil _) ?_ cs [] hlen hsrc]
  · rw [foldl_write]
    rfl
  · intro cur dst c hc _
    obtain ⟨hhigh, hval, hone⟩ | ⟨hhigh, -, hval, -, htwo⟩ := holds16_cases hc
    · rw [convert_single hhigh, hval, encode_eq c.property, reads16At, hone]
      rfl
    · rw [convert_pair hhigh, hval, encode_eq c.property, reads16At, htwo]
      rfl

theorem utf16_to_utf8_length_text (hn : n ≠ 0) (hlen : (utf16Text cs).length = n)
    (hsrc : slice src 0 n = utf16Text cs) :
    (utf16_to_utf8_length src n).map Reading.val = some (ssize_t (utf8Text cs).length) := by
  rw [utf16_to_utf8_length, if_neg hn, @scan_all ℕ n _ _ _ src
    (fun c : Scalar => utf16Units c.val.toNat)
    (fun ret c => ret + (utf8Bytes c.val.toNat).length) reads16At (fun c => utf16Units_ne_nil _)
    ?_ cs 0 hlen hsrc]
  · rw [foldl_count]
    rfl
  · intro cur ret c hc hstop
    obtain ⟨hhigh, hval, hone⟩ | ⟨hhigh, hlow, -, hfour, htwo⟩ := holds16_cases hc
    · rw [measure_single (fun h => hhigh h.1), ← width_unit, hval, measured_eq, reads16At, hone]
      rfl
    · rw [measure_pair hhigh (by omega), if_pos hlow, reads16At, hfour, htwo]
      rfl

end FromUtf16

end AudioFlinger.Unicode
