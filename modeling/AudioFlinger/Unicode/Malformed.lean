import AudioFlinger.Unicode.RoundTrip

/-!
# What `utf8_length` accepts

A text is malformed when, after some whole sequences, it has a stray
continuation byte, a sequence that is cut short, a lead byte above 0xF7 or a
value above the last code point. Where the promoted lead byte has no sign to
carry into the value, `utf8_length` refuses these texts and no others.
-/

namespace AudioFlinger.Unicode

open Foundation.Scan Foundation.RingMemory

/-- `10xxxxxx`. -/
def IsContinuation (b : Byte) : Prop := 0x80 ≤ b.toNat ∧ b.toNat < 0xC0

instance (b : Byte) : Decidable (IsContinuation b) := inferInstanceAs (Decidable (_ ∧ _))

/-- A text begins with `k` continuation bytes. -/
def Continues : ℕ → List Byte → Prop
  | 0, _ => True
  | _ + 1, [] => False
  | k + 1, b :: bs => IsContinuation b ∧ Continues k bs

/-- The value of a sequence of four. -/
def value4 (b c d e : Byte) : ℕ :=
  b.toNat % 8 * 262144 + c.toNat % 64 * 4096 + d.toNat % 64 * 64 + e.toNat % 64

/-- One whole sequence. -/
inductive Sequence : List Byte → Prop where
  | one {b : Byte} : b.toNat < 0x80 → Sequence [b]
  | two {b c : Byte} : 0xC0 ≤ b.toNat → b.toNat < 0xE0 → Continues 1 [c] → Sequence [b, c]
  | three {b c d : Byte} : 0xE0 ≤ b.toNat → b.toNat < 0xF0 → Continues 2 [c, d] →
    Sequence [b, c, d]
  | four {b c d e : Byte} : 0xF0 ≤ b.toNat → b.toNat ≤ 0xF7 → Continues 3 [c, d, e] →
    value4 b c d e ≤ 0x10FFFF → Sequence [b, c, d, e]

/-- What is wrong at the head of a text. -/
inductive Defect : List Byte → Prop where
  /-- A stray continuation byte. -/
  | stray {b : Byte} {bs : List Byte} : IsContinuation b → Defect (b :: bs)
  /-- A truncated sequence. -/
  | truncated {b : Byte} {bs : List Byte} : 0xC0 ≤ b.toNat → b.toNat ≤ 0xF7 →
    ¬ Continues (promised 4 b - 1) bs → Defect (b :: bs)
  /-- A lead byte above 0xF7. -/
  | lead {b : Byte} {bs : List Byte} : 0xF7 < b.toNat → Defect (b :: bs)
  /-- A value above 0x10FFFF. -/
  | large {b c d e : Byte} {bs : List Byte} : 0xF0 ≤ b.toNat → b.toNat ≤ 0xF7 →
    Continues 3 [c, d, e] → 0x10FFFF < value4 b c d e → Defect (b :: c :: d :: e :: bs)

/-- Whole sequences and then a defect. -/
def Malformed (bs : List Byte) : Prop :=
  ∃ (ss : List (List Byte)) (rest : List Byte), (∀ s ∈ ss, Sequence s) ∧ bs = ss.flatten ++ rest ∧ Defect rest

theorem Sequence.ne_nil {s : List Byte} (h : Sequence s) : s ≠ [] := by
  cases h <;> simp

theorem continues_succ {k : ℕ} {bs : List Byte} :
    Continues (k + 1) bs ↔ ∃ c rest, bs = c :: rest ∧ IsContinuation c ∧ Continues k rest := by
  cases bs with
  | nil => simp [Continues]
  | cons b bs => simp [Continues]

/-- The head of a text is a whole sequence or a defect. -/
theorem sequence_or_defect (b : Byte) (bs : List Byte) :
    (∃ s rest, b :: bs = s ++ rest ∧ Sequence s) ∨ Defect (b :: bs) := by
  by_cases h1 : b.toNat < 0x80
  · exact Or.inl ⟨[b], bs, rfl, .one h1⟩
  by_cases h2 : b.toNat < 0xC0
  · exact Or.inr (.stray ⟨by omega, h2⟩)
  by_cases h3 : 0xF7 < b.toNat
  · exact Or.inr (.lead h3)
  by_cases hcont : Continues (promised 4 b - 1) bs
  · rw [promised_toNat] at hcont
    by_cases h4 : b.toNat < 0xE0
    · rw [if_neg h2, if_pos h4] at hcont
      obtain ⟨c, bs, rfl, hc, -⟩ := continues_succ.mp hcont
      exact Or.inl ⟨[b, c], bs, rfl, .two (by omega) h4 ⟨hc, trivial⟩⟩
    by_cases h5 : b.toNat < 0xF0
    · rw [if_neg h2, if_neg h4, if_pos h5] at hcont
      obtain ⟨c, bs, rfl, hc, hrest⟩ := continues_succ.mp hcont
      obtain ⟨d, bs, rfl, hd, -⟩ := continues_succ.mp hrest
      exact Or.inl ⟨[b, c, d], bs, rfl, .three (by omega) h5 ⟨hc, hd, trivial⟩⟩
    · rw [if_neg h2, if_neg h4, if_neg h5, if_pos (by omega)] at hcont
      obtain ⟨c, bs, rfl, hc, hrest⟩ := continues_succ.mp hcont
      obtain ⟨d, bs, rfl, hd, hrest'⟩ := continues_succ.mp hrest
      obtain ⟨e, bs, rfl, he, -⟩ := continues_succ.mp hrest'
      by_cases hvalue : value4 b c d e ≤ 0x10FFFF
      · exact Or.inl ⟨[b, c, d, e], bs, rfl,
          .four (by omega) (by omega) ⟨hc, hd, he, trivial⟩ hvalue⟩
      · exact Or.inr (.large (by omega) (by omega) ⟨hc, hd, he, trivial⟩ (by omega))
  · exact Or.inr (.truncated (by omega) (by omega) hcont)

/-- A text is made of whole sequences, or it is malformed. -/
theorem sequences_or_malformed (bs : List Byte) :
    (∃ ss : List (List Byte), (∀ s ∈ ss, Sequence s) ∧ bs = ss.flatten) ∨ Malformed bs := by
  induction hn : bs.length using Nat.strongRecOn generalizing bs with
  | ind n ih =>
    cases bs with
    | nil => exact Or.inl ⟨[], by simp, rfl⟩
    | cons b bs =>
      cases sequence_or_defect b bs with
      | inr hdefect => exact Or.inr ⟨[], b :: bs, by simp, rfl, hdefect⟩
      | inl hhead =>
        obtain ⟨s, rest, heq, hs⟩ := hhead
        have hpos := List.length_pos_of_ne_nil hs.ne_nil
        have hlen := congrArg List.length heq
        rw [List.length_append] at hlen
        obtain ⟨ss, hss, rfl⟩ | ⟨ss, rest', hss, rfl, hdefect⟩ := ih rest.length (by omega) rest rfl
        · exact Or.inl ⟨s :: ss, List.forall_mem_cons.mpr ⟨hs, hss⟩, heq⟩
        · exact Or.inr ⟨s :: ss, rest', List.forall_mem_cons.mpr ⟨hs, hss⟩, by
            rw [heq, List.flatten_cons, List.append_assoc], hdefect⟩

/-! ## One character -/

variable {src : ℕ → Byte} {cur : ℕ}

theorem continuation_test (b : Byte) : b &&& 0xC0#8 ≠ 0x80#8 ↔ ¬ IsContinuation b :=
  not_congr (top_bits b)

/-- The value of a sequence: what the lead byte keeps, above what the others gave. -/
theorem lead_or_toNat {x y : U32} {k : ℕ} (hy : y.toNat < 2 ^ k) (hx : x.toNat * 2 ^ k < 2 ^ 32) :
    (y ||| (x <<< k)).toNat = x.toNat * 2 ^ k + y.toNat := by
  have hor := Nat.shiftLeft_add_eq_or_of_lt hy x.toNat
  rw [BitVec.or_comm, BitVec.toNat_or, BitVec.toNat_shiftLeft, Nat.shiftLeft_eq,
    Nat.mod_eq_of_lt hx, ← Nat.shiftLeft_eq, ← hor]

theorem gather_one (b : Byte) :
    (0#32 <<< 6 + (b &&& 0x3F#8).setWidth 32).toNat = b.toNat % 64 := by
  rw [accumulate_byte]
  simp
  omega

theorem gather_two (b c : Byte) :
    (((0#32 <<< 6 + (b &&& 0x3F#8).setWidth 32) <<< 6) + (c &&& 0x3F#8).setWidth 32).toNat =
      b.toNat % 64 * 64 + c.toNat % 64 := by
  rw [accumulate_byte, gather_one]
  omega

theorem gather_three (b c d : Byte) :
    (((((0#32 <<< 6 + (b &&& 0x3F#8).setWidth 32) <<< 6) + (c &&& 0x3F#8).setWidth 32) <<< 6) +
      (d &&& 0x3F#8).setWidth 32).toNat =
      b.toNat % 64 * 4096 + c.toNat % 64 * 64 + d.toNat % 64 := by
  rw [accumulate_byte, gather_two]
  omega

theorem length_one (signedChar : Bool) (h : (src cur).toNat < 0x80) :
    lengthChar signedChar src cur = some (cur + 1, 1) := by
  have hascii := (ascii_bit signedChar (src cur)).mpr h
  simp only [lengthChar, if_pos hascii]

theorem length_stray (signedChar : Bool) (h : IsContinuation (src cur)) :
    lengthChar signedChar src cur = none := by
  obtain ⟨h7, h6⟩ := continuation_bits signedChar (src cur) h
  simp only [lengthChar, if_neg h7, if_pos h6]

theorem length_two (hlo : 0xC0 ≤ (src cur).toNat) (hhi : (src cur).toNat < 0xE0)
    (hc : IsContinuation (src (cur + 1))) : lengthChar false src cur = some (cur + 2, 2) := by
  obtain ⟨h7, hbit6, hbit5, -⟩ := lead_tests false hlo
  have h5 := mt hbit5.mp (by omega)
  have htest := not_not.mpr hc
  rw [← continuation_test] at htest
  have hlead := lead_low_five
  have hlow := gather_one (src (cur + 1))
  have hvalue : ¬ kUnicodeMaxCodepoint < (0#32 <<< 6 + (src (cur + 1) &&& 0x3F#8).setWidth 32) |||
      ((~~~(0x80#32 ||| 0x40#32 ||| 0x40#32 >>> 1) &&& promote false (src cur)) <<<
        (6 * (1 + 1 - 1))) := by
    rw [BitVec.lt_def, lead_or_toNat (by rw [hlow]; omega) (by rw [hlead]; omega), hlead, hlow]
    simp only [kUnicodeMaxCodepoint, BitVec.toNat_ofNat]
    omega
  simp only [lengthChar, if_neg h7, if_neg hbit6, lengthLoop, if_pos hbit6, if_neg htest, if_neg h5,
    Option.bind_eq_bind, Option.bind_some, if_neg hvalue]
  rfl

/-- The loop gives up at the first byte that continues nothing. -/
theorem lengthLoop_none {first_char : U32} {k left num : ℕ} {mask ign utf32 : U32}
    (hbits : ∀ i < k, first_char &&& (mask >>> i) ≠ 0#32) (hk : k ≤ left)
    (hbad : ∃ i < k, ¬ IsContinuation (src (cur + i))) :
    lengthLoop first_char src left cur num mask ign utf32 = none := by
  induction left generalizing k cur num mask ign utf32 with
  | zero =>
    obtain ⟨i, hi, -⟩ := hbad
    omega
  | succ left ih =>
    obtain ⟨i, hi, hbad⟩ := hbad
    have hfirst := hbits 0 (by omega)
    rw [BitVec.ushiftRight_zero] at hfirst
    rw [lengthLoop, if_pos hfirst]
    by_cases hcont : IsContinuation (src cur)
    · have htest := not_not.mpr hcont
      rw [← continuation_test] at htest
      obtain ⟨j, rfl⟩ : ∃ j, i = j + 1 := by
        refine Nat.exists_eq_succ_of_ne_zero ?_
        rintro rfl
        exact hbad hcont
      rw [if_neg htest]
      refine @ih (cur + 1) (k - 1) _ _ _ _ ?_ (by omega) ⟨j, by omega, ?_⟩
      · intro m hm
        rw [← BitVec.shiftRight_add, Nat.add_comm]
        exact hbits (m + 1) (by omega)
      · rw [Nat.add_assoc, Nat.add_comm 1]
        exact hbad
    · rw [if_pos ((continuation_test _).mpr hcont)]

/-- A lead byte whose promised bytes do not all continue it. -/
theorem length_truncated (hlo : 0xC0 ≤ (src cur).toNat)
    (hbad : ¬ ∀ i < promised 4 (src cur) - 1, IsContinuation (src (cur + 1 + i))) :
    lengthChar false src cur = none := by
  obtain ⟨h7, hbit6, hbit5, hbit4, -⟩ := @lead_tests false (src cur) hlo
  simp only [not_forall, exists_prop] at hbad
  have hpromised := promised_toNat 4 (src cur)
  have hbits : ∀ i < promised 4 (src cur) - 1,
      promote false (src cur) &&& (0x40#32 >>> i) ≠ 0#32 := by
    intro i hi
    obtain rfl | rfl | rfl : i = 0 ∨ i = 1 ∨ i = 2 := by omega
    · exact hbit6
    · exact hbit5.mpr (by grind)
    · have hlo := hbit4 (by grind)
      exact hlo.mpr (by grind)
  simp only [lengthChar, if_neg h7, if_neg hbit6,
    lengthLoop_none hbits (show promised 4 (src cur) - 1 ≤ 4 by omega) hbad, Option.bind_eq_bind,
    Option.bind_none]

theorem length_three (hlo : 0xE0 ≤ (src cur).toNat) (hhi : (src cur).toNat < 0xF0)
    (hc : IsContinuation (src (cur + 1))) (hd : IsContinuation (src (cur + 2))) :
    lengthChar false src cur = some (cur + 3, 3) := by
  obtain ⟨h7, hbit6, hbit5, hbit4, -⟩ := @lead_tests false (src cur) (by omega)
  have h5 := hbit5.mpr hlo
  have h4 := mt (hbit4 hlo).mp (by omega)
  have hctest := not_not.mpr hc
  have hdtest := not_not.mpr hd
  rw [← continuation_test] at hctest hdtest
  have hlead := lead_low_four
  have hlow := gather_two (src (cur + 1)) (src (cur + 2))
  have hvalue : ¬ kUnicodeMaxCodepoint < (((0#32 <<< 6 +
      (src (cur + 1) &&& 0x3F#8).setWidth 32) <<< 6) + (src (cur + 2) &&& 0x3F#8).setWidth 32) |||
      ((~~~(0x80#32 ||| 0x40#32 ||| 0x40#32 >>> 1 ||| 0x40#32 >>> 1 >>> 1) &&&
        promote false (src cur)) <<< (6 * (1 + 1 + 1 - 1))) := by
    rw [BitVec.lt_def, lead_or_toNat (by rw [hlow]; omega) (by rw [hlead]; omega), hlead, hlow]
    simp only [kUnicodeMaxCodepoint, BitVec.toNat_ofNat]
    omega
  simp only [lengthChar, if_neg h7, if_neg hbit6, lengthLoop, if_pos hbit6, if_neg hctest,
    if_pos h5, if_neg hdtest, if_neg h4, Option.bind_eq_bind, Option.bind_some, if_neg hvalue]
  rfl

theorem length_four (hlo : 0xF0 ≤ (src cur).toNat) (hhi : (src cur).toNat ≤ 0xF7)
    (hc : IsContinuation (src (cur + 1))) (hd : IsContinuation (src (cur + 2)))
    (he : IsContinuation (src (cur + 3))) :
    lengthChar false src cur =
      if value4 (src cur) (src (cur + 1)) (src (cur + 2)) (src (cur + 3)) ≤ 0x10FFFF
      then some (cur + 4, 4) else none := by
  obtain ⟨h7, hbit6, hbit5, hbit4, hbit3⟩ := @lead_tests false (src cur) (by omega)
  have h5 := hbit5.mpr (by omega)
  have h4 := (hbit4 (by omega)).mpr hlo
  have h3 := mt (hbit3 hlo).mp (by omega)
  have hctest := not_not.mpr hc
  have hdtest := not_not.mpr hd
  have hetest := not_not.mpr he
  rw [← continuation_test] at hctest hdtest hetest
  have hlead := lead_low_three
  have hlow := gather_three (src (cur + 1)) (src (cur + 2)) (src (cur + 3))
  have hvalue : kUnicodeMaxCodepoint < (((((0#32 <<< 6 +
      (src (cur + 1) &&& 0x3F#8).setWidth 32) <<< 6) + (src (cur + 2) &&& 0x3F#8).setWidth 32) <<< 6)
      + (src (cur + 3) &&& 0x3F#8).setWidth 32) |||
      ((~~~(0x80#32 ||| 0x40#32 ||| 0x40#32 >>> 1 ||| 0x40#32 >>> 1 >>> 1 |||
        0x40#32 >>> 1 >>> 1 >>> 1) &&& promote false (src cur)) <<< (6 * (1 + 1 + 1 + 1 - 1))) ↔
      0x10FFFF < value4 (src cur) (src (cur + 1)) (src (cur + 2)) (src (cur + 3)) := by
    rw [BitVec.lt_def, lead_or_toNat (by rw [hlow]; omega) (by rw [hlead]; omega), hlead, hlow]
    simp only [kUnicodeMaxCodepoint, BitVec.toNat_ofNat, value4]
    omega
  simp only [lengthChar, if_neg h7, if_neg hbit6, lengthLoop, if_pos hbit6, if_neg hctest,
    if_pos h5, if_neg hdtest, if_pos h4, if_neg hetest, if_neg h3, Option.bind_eq_bind,
    Option.bind_some, hvalue]
  by_cases hle : value4 (src cur) (src (cur + 1)) (src (cur + 2)) (src (cur + 3)) ≤ 0x10FFFF
  · rw [if_pos hle, if_neg (by omega), if_neg (by omega)]
  · rw [if_neg hle, if_neg (by omega), if_pos (by omega)]

/-- A lead byte of more than four bytes takes the loop to its bound, if it does not stop before. -/
theorem length_lead (signedChar : Bool) (h : 0xF7 < (src cur).toNat) :
    lengthChar signedChar src cur = none := by
  obtain ⟨h7, hbit6, hbit5, hbit4, hbit3⟩ := @lead_tests signedChar (src cur) (by omega)
  have h5 := hbit5.mpr (by omega)
  have h4 := (hbit4 (by omega)).mpr (by omega)
  have h3 := (hbit3 (by omega)).mpr (by omega)
  have hmasks : ∀ i < 4, promote signedChar (src cur) &&& (0x40#32 >>> i) ≠ 0#32 := by
    intro i hi
    obtain rfl | rfl | rfl | rfl : i = 0 ∨ i = 1 ∨ i = 2 ∨ i = 3 := by omega
    · exact hbit6
    · exact h5
    · exact h4
    · exact h3
  by_cases hbad : ∃ i < 4, ¬ IsContinuation (src (cur + 1 + i))
  · simp only [lengthChar, if_neg h7, if_neg hbit6, lengthLoop_none hmasks (show 4 ≤ 4 by decide) hbad,
      Option.bind_eq_bind, Option.bind_none]
  · simp only [not_exists, not_and, not_not] at hbad
    have hctest := not_not.mpr (hbad 0 (by omega))
    have hdtest := not_not.mpr (hbad 1 (by omega))
    have hetest := not_not.mpr (hbad 2 (by omega))
    have hftest := not_not.mpr (hbad 3 (by omega))
    rw [← continuation_test] at hctest hdtest hetest hftest
    simp only [Nat.add_zero] at hctest
    simp only [lengthChar, if_neg h7, if_neg hbit6, lengthLoop, if_pos hbit6, if_neg hctest,
      if_pos h5, if_neg hdtest, if_pos h4, if_neg hetest, if_pos h3, if_neg hftest,
      Option.bind_eq_bind, Option.bind_some]
    rfl

/-! ## Texts -/

/-- A text and its terminator lie in memory. -/
def NulText (src : ℕ → Byte) (cur : ℕ) (bs : List Byte) : Prop :=
  slice src cur (bs ++ [0#8]).length = bs ++ [0#8]

theorem nulText_nil : NulText src cur [] ↔ src cur = 0#8 := by
  rw [NulText, List.nil_append, slice_cons_iff]
  simp [slice]

theorem nulText_cons {b : Byte} {bs : List Byte} :
    NulText src cur (b :: bs) ↔ src cur = b ∧ NulText src (cur + 1) bs := by
  rw [NulText, List.cons_append, slice_cons_iff]
  rfl

theorem NulText.append {s bs : List Byte} (h : NulText src cur (s ++ bs)) :
    NulText src (cur + s.length) bs := by
  induction s generalizing cur with
  | nil => exact h
  | cons b s ih =>
    have hrest := ih (nulText_cons.mp h).2
    rw [Nat.add_assoc, Nat.add_comm 1] at hrest
    exact hrest

/-- The terminator continues nothing. -/
theorem NulText.continues_iff {bs : List Byte} (h : NulText src cur bs) (k : ℕ) :
    Continues k bs ↔ ∀ i < k, IsContinuation (src (cur + i)) := by
  induction k generalizing cur bs with
  | zero => simp [Continues]
  | succ k ih =>
    have hsplit : (∀ i < k + 1, IsContinuation (src (cur + i))) ↔
        IsContinuation (src cur) ∧ ∀ i < k, IsContinuation (src (cur + 1 + i)) := by
      simp only [Nat.forall_lt_succ_left', Nat.add_zero, Nat.add_assoc, Nat.add_comm 1]
    rw [hsplit]
    cases bs with
    | nil =>
      have hzero : ¬ IsContinuation (src cur) := by
        rw [nulText_nil.mp h]
        decide
      exact ⟨fun hno => absurd hno id, fun hno => absurd hno.1 hzero⟩
    | cons b bs =>
      obtain ⟨rfl, hrest⟩ := nulText_cons.mp h
      rw [Continues, ih hrest]

/-- No sign bit gets into a value: `char` is unsigned, or no byte has its top bit set. -/
def Plain (signedChar : Bool) (bs : List Byte) : Prop :=
  signedChar = false ∨ ∀ b ∈ bs, b.toNat < 0x80

theorem Plain.append {signedChar : Bool} {s bs : List Byte} (h : Plain signedChar (s ++ bs)) :
    Plain signedChar s ∧ Plain signedChar bs := by
  cases h with
  | inl hfalse => exact ⟨Or.inl hfalse, Or.inl hfalse⟩
  | inr hall =>
    exact ⟨Or.inr fun b hb => hall b (List.mem_append_left _ hb),
      Or.inr fun b hb => hall b (List.mem_append_right _ hb)⟩

theorem Plain.eq_false {signedChar : Bool} {b : Byte} {bs : List Byte}
    (h : Plain signedChar (b :: bs)) (hb : 0x80 ≤ b.toNat) : signedChar = false := by
  cases h with
  | inl hfalse => exact hfalse
  | inr hall =>
    have hlt := hall b List.mem_cons_self
    omega

/-- A whole sequence is taken in one round. -/
theorem Sequence.step {signedChar : Bool} {s bs : List Byte} (hs : Sequence s)
    (hplain : Plain signedChar s) (h : NulText src cur (s ++ bs)) :
    lengthChar signedChar src cur = some (cur + s.length, s.length) := by
  cases hs with
  | one hb =>
    obtain ⟨rfl, -⟩ := nulText_cons.mp h
    exact length_one signedChar hb
  | two hlo hhi hcont =>
    cases hplain.eq_false (by omega)
    obtain ⟨rfl, h1⟩ := nulText_cons.mp h
    obtain ⟨rfl, -⟩ := nulText_cons.mp h1
    rw [length_two hlo hhi hcont.1]
    rfl
  | three hlo hhi hcont =>
    cases hplain.eq_false (by omega)
    obtain ⟨rfl, h1⟩ := nulText_cons.mp h
    obtain ⟨rfl, h2⟩ := nulText_cons.mp h1
    obtain ⟨rfl, -⟩ := nulText_cons.mp h2
    rw [length_three hlo hhi hcont.1 hcont.2.1]
    rfl
  | four hlo hhi hcont hvalue =>
    cases hplain.eq_false (by omega)
    obtain ⟨rfl, h1⟩ := nulText_cons.mp h
    obtain ⟨rfl, h2⟩ := nulText_cons.mp h1
    obtain ⟨rfl, h3⟩ := nulText_cons.mp h2
    obtain ⟨rfl, -⟩ := nulText_cons.mp h3
    rw [length_four hlo hhi hcont.1 hcont.2.1 hcont.2.2.1, if_pos hvalue]
    rfl

/-- A defect is refused. -/
theorem Defect.step {signedChar : Bool} {bs : List Byte} (hbs : Defect bs)
    (hplain : Plain signedChar bs) (h : NulText src cur bs) :
    lengthChar signedChar src cur = none := by
  cases hbs with
  | stray hb =>
    obtain ⟨rfl, -⟩ := nulText_cons.mp h
    exact length_stray signedChar hb
  | lead hb =>
    obtain ⟨rfl, -⟩ := nulText_cons.mp h
    exact length_lead signedChar hb
  | large hlo hhi hcont hvalue =>
    cases hplain.eq_false (by lia)
    obtain ⟨rfl, h1⟩ := nulText_cons.mp h
    obtain ⟨rfl, h2⟩ := nulText_cons.mp h1
    obtain ⟨rfl, h3⟩ := nulText_cons.mp h2
    obtain ⟨rfl, -⟩ := nulText_cons.mp h3
    rw [length_four hlo hhi hcont.1 hcont.2.1 hcont.2.2.1, if_neg (Nat.not_le.mpr hvalue)]
  | truncated hlo hhi hcont =>
    cases hplain.eq_false (by lia)
    obtain ⟨rfl, h1⟩ := nulText_cons.mp h
    rw [h1.continues_iff] at hcont
    exact length_truncated hlo hcont

/-! ## Whole strings -/

variable {signedChar : Bool}

theorem lengthFrom_end {rounds ret : ℕ} (h : src cur = 0#8) :
    utf8_lengthFrom signedChar src rounds cur ret = some (ssize_t ret) := by
  cases rounds with
  | zero => rw [utf8_lengthFrom, if_pos h]
  | succ rounds => rw [utf8_lengthFrom, if_pos h]

theorem lengthFrom_step {rounds ret next num : ℕ} (h : src cur ≠ 0#8)
    (hchar : lengthChar signedChar src cur = some (next, num)) :
    utf8_lengthFrom signedChar src (rounds + 1) cur ret =
      utf8_lengthFrom signedChar src rounds next (ret + num) := by
  rw [utf8_lengthFrom, if_neg h, hchar]

theorem lengthFrom_refused {rounds ret : ℕ} (h : src cur ≠ 0#8)
    (hchar : lengthChar signedChar src cur = none) :
    utf8_lengthFrom signedChar src (rounds + 1) cur ret = some (-1) := by
  rw [utf8_lengthFrom, if_neg h, hchar]

theorem Sequence.head_ne {s bs : List Byte} (hs : Sequence s) (hnz : ∀ b ∈ s, b ≠ 0#8)
    (h : NulText src cur (s ++ bs)) : src cur ≠ 0#8 := by
  obtain ⟨b, t, rfl⟩ := List.exists_cons_of_ne_nil hs.ne_nil
  rw [(nulText_cons.mp h).1]
  exact hnz b List.mem_cons_self

/-- The loop takes the whole sequences of a text one a round. -/
theorem lengthFrom_sequences {ss : List (List Byte)} {rest : List Byte}
    (hss : ∀ s ∈ ss, Sequence s) (hplain : Plain signedChar (ss.flatten ++ rest))
    (hnz : ∀ b ∈ ss.flatten, b ≠ 0#8) (h : NulText src cur (ss.flatten ++ rest)) (rounds ret : ℕ) :
    utf8_lengthFrom signedChar src (ss.length + rounds) cur ret =
      utf8_lengthFrom signedChar src rounds (cur + ss.flatten.length) (ret + ss.flatten.length) := by
  induction ss generalizing cur ret with
  | nil => simp
  | cons s ss ih =>
    obtain ⟨hs, hrest⟩ := List.forall_mem_cons.mp hss
    rw [List.flatten_cons, List.append_assoc] at hplain h
    simp only [List.flatten_cons, List.mem_append, or_imp, forall_and] at hnz
    have hhead := hs.head_ne hnz.1 h
    have hstep := hs.step hplain.append.1 h
    rw [List.length_cons, Nat.add_right_comm, lengthFrom_step hhead hstep,
      ih hrest hplain.append.2 hnz.2 h.append, List.flatten_cons, List.length_append, Nat.add_assoc,
      Nat.add_assoc]

theorem length_le_flatten {ss : List (List Byte)} (hss : ∀ s ∈ ss, Sequence s) :
    ss.length ≤ ss.flatten.length := by
  induction ss with
  | nil => simp
  | cons s ss ih =>
    obtain ⟨hs, hrest⟩ := List.forall_mem_cons.mp hss
    have hpos := List.length_pos_of_ne_nil hs.ne_nil
    have hle := ih hrest
    rw [List.length_cons, List.flatten_cons, List.length_append]
    omega

/-- The length of a text of whole sequences. -/
theorem utf8_length_sequences {ss : List (List Byte)} (hss : ∀ s ∈ ss, Sequence s)
    (hplain : Plain signedChar ss.flatten) (hnz : ∀ b ∈ ss.flatten, b ≠ 0#8)
    (h : NulText src 0 ss.flatten) :
    utf8_length signedChar src ss.flatten.length = some (ssize_t ss.flatten.length) := by
  have hle := length_le_flatten hss
  have hnil : ss.flatten ++ [] = ss.flatten := List.append_nil _
  rw [← hnil] at hplain h
  have hrun := lengthFrom_sequences hss hplain hnz h (ss.flatten.length - ss.length) 0
  rw [show ss.length + (ss.flatten.length - ss.length) = ss.flatten.length by omega] at hrun
  rw [utf8_length, hrun, lengthFrom_end (nulText_nil.mp h.append), Nat.zero_add]

/-- A malformed text is refused. -/
theorem utf8_length_malformed {bs : List Byte} (hbs : Malformed bs) (hplain : Plain signedChar bs)
    (hnz : ∀ b ∈ bs, b ≠ 0#8) (h : NulText src 0 bs) :
    utf8_length signedChar src bs.length = some (-1) := by
  obtain ⟨ss, rest, hss, rfl, hdefect⟩ := hbs
  have hle := length_le_flatten hss
  simp only [List.mem_append, or_imp, forall_and] at hnz
  obtain ⟨b, t, rfl⟩ : ∃ b t, rest = b :: t := by
    cases hdefect <;> exact ⟨_, _, rfl⟩
  have hrest := h.append
  have hhead : src (0 + ss.flatten.length) ≠ 0#8 := by
    rw [(nulText_cons.mp hrest).1]
    exact hnz.2 b List.mem_cons_self
  have hrun := lengthFrom_sequences hss hplain hnz.1 h
    (ss.flatten.length - ss.length + t.length + 1) 0
  rw [show ss.length + (ss.flatten.length - ss.length + t.length + 1) =
    (ss.flatten ++ b :: t).length by rw [List.length_append, List.length_cons]; omega] at hrun
  rw [utf8_length, hrun, lengthFrom_refused hhead (hdefect.step hplain.append.2 hrest)]

/-- A string of non-zero bytes; its terminator and the null address lie outside it. -/
structure CString where
  bytes : List Byte
  nonzero : ∀ b ∈ bytes, b ≠ 0#8
  fits : bytes.length + 1 < 2 ^ 32

/-- Memory that starts with a string and its terminator. -/
def CString.memory (s : CString) (rest : ℕ → Byte) : ℕ → Byte := blit rest 0 (s.bytes ++ [0#8])

theorem CString.nulText (s : CString) (rest : ℕ → Byte) : NulText (s.memory rest) 0 s.bytes :=
  slice_blit rest _

/-- `utf8_length` returns -1 for the malformed strings and no others. -/
theorem utf8_length_eq_neg_one_iff (s : CString) (rest : ℕ → Byte)
    (hplain : Plain signedChar s.bytes) :
    utf8_length signedChar (s.memory rest) s.bytes.length = some (-1) ↔ Malformed s.bytes := by
  constructor
  · intro hneg
    cases sequences_or_malformed s.bytes with
    | inr hmal => exact hmal
    | inl hwhole =>
      obtain ⟨ss, hss, heq⟩ := hwhole
      have hnul := s.nulText rest
      have hnz := s.nonzero
      have hfits := s.fits
      rw [heq] at hnul hneg hplain hnz hfits
      rw [utf8_length_sequences hss hplain hnz hnul, Option.some_inj, ssize_t_eq, Int.bmod_def] at hneg
      split at hneg <;> omega
  · intro hmal
    exact utf8_length_malformed hmal hplain s.nonzero (s.nulText rest)

/-! ## Scalar values -/

theorem tail_continues (x : ℕ) : IsContinuation (tail x) := by
  rw [IsContinuation, tail_toNat]
  omega

theorem ofNat_toNat_of_lt {n : ℕ} (h : n < 256) : (BitVec.ofNat 8 n).toNat = n := by
  rw [BitVec.toNat_ofNat]
  omega

/-- The bytes of a scalar value are a whole sequence without a zero. -/
theorem scalar_sequence {c : U32} (hc : IsScalar c) :
    Sequence (utf8Bytes c.toNat) ∧ ∀ b ∈ utf8Bytes c.toNat, b ≠ 0#8 := by
  have hne : ∀ {n : ℕ}, n < 256 → 0 < n → BitVec.ofNat 8 n ≠ 0#8 := by
    intro n hn hpos heq
    have hnat := congrArg BitVec.toNat heq
    rw [ofNat_toNat_of_lt hn] at hnat
    simp at hnat
    lia
  have htail : ∀ x, tail x ≠ 0#8 := fun x => hne (by lia) (by lia)
  have hpos := hc.1
  apply hc.cases
  · intro h1
    have hlead := @ofNat_toNat_of_lt c.toNat (by lia)
    rw [utf8Bytes, if_pos h1]
    refine ⟨.one (by lia), ?_⟩
    simpa using hne (by lia) hpos
  · intro h1 h2
    have hlead := @ofNat_toNat_of_lt (0xC0 + c.toNat / 64) (by lia)
    rw [utf8Bytes, if_neg (by lia), if_pos h2]
    refine ⟨.two (by lia) (by lia) ⟨tail_continues _, trivial⟩, ?_⟩
    simpa [htail] using @hne (0xC0 + c.toNat / 64) (by lia) (by lia)
  · intro h1 h2 _
    have hlead := @ofNat_toNat_of_lt (0xE0 + c.toNat / 4096) (by lia)
    rw [utf8Bytes, if_neg (by lia), if_neg (by lia), if_pos h2]
    refine ⟨.three (by lia) (by lia) ⟨tail_continues _, tail_continues _, trivial⟩, ?_⟩
    simpa [htail] using @hne (0xE0 + c.toNat / 4096) (by lia) (by lia)
  · intro h1 h2
    have hlead := @ofNat_toNat_of_lt (0xF0 + c.toNat / 262144) (by lia)
    rw [utf8Bytes, if_neg (by lia), if_neg (by lia), if_neg (by lia)]
    refine ⟨.four (by lia) (by lia)
      ⟨tail_continues _, tail_continues _, tail_continues _, trivial⟩ ?_, ?_⟩
    · rw [value4, hlead, tail_toNat, tail_toNat, tail_toNat]
      lia
    · simpa [htail] using @hne (0xF0 + c.toNat / 262144) (by lia) (by lia)

/-!
## The three encodings together

For a text of scalar values the conversions undo each other and the length
functions report the lengths of what they write.
-/

/-- What the converters and the length functions make of the text `cs`, with its UTF-8 form `bytes`
and its UTF-16 form `units`; `rest32`, `rest8` and `rest16` is what else lies in memory. -/
structure RoundTrips (signedChar : Bool) (rest32 : ℕ → U32) (rest8 : ℕ → Byte) (rest16 : ℕ → U16)
    (cs : List U32) (bytes : List Byte) (units : List U16) : Prop where
  utf32_to_utf8 :
    (utf32_to_utf8 (blit rest32 0 cs) cs.length).map Reading.val = some (bytes ++ [0#8])
  utf8_to_utf32 : (utf8_to_utf32 signedChar (blit rest8 0 bytes) bytes.length).map Reading.val =
    some (cs ++ [0#32])
  utf8_to_utf16 :
    (utf8_to_utf16 (blit rest8 0 bytes) bytes.length).map Reading.val = some (units ++ [0#16])
  utf16_to_utf8 :
    (utf16_to_utf8 (blit rest16 0 units) units.length).map Reading.val = some (bytes ++ [0#8])
  utf32_to_utf8_length :
    (utf32_to_utf8_length (blit rest32 0 cs) cs.length).map Reading.val = some (ssize_t bytes.length)
  utf8_length : Plain signedChar bytes →
    utf8_length signedChar (blit rest8 0 (bytes ++ [0#8])) bytes.length = some (ssize_t bytes.length)
  utf8_to_utf16_length : (utf8_to_utf16_length (blit rest8 0 bytes) bytes.length).map Reading.val =
    some (ssize_t units.length)
  utf16_to_utf8_length : (utf16_to_utf8_length (blit rest16 0 units) units.length).map Reading.val =
    some (ssize_t bytes.length)
  utf8_to_utf32_length :
    (utf8_to_utf32_length signedChar (blit rest8 0 bytes) bytes.length).map Reading.val =
      some cs.length

theorem flatMap_ne_nil {κ α : Type} {f : κ → List α} (hf : ∀ k, f k ≠ []) (k : κ) (ks : List κ) :
    ((k :: ks).flatMap f).length ≠ 0 := by
  have hpos := List.length_pos_of_ne_nil (hf k)
  rw [List.flatMap_cons, List.length_append]
  omega

theorem round_trips (signedChar : Bool) (rest32 : ℕ → U32) (rest8 : ℕ → Byte) (rest16 : ℕ → U16)
    (c : Scalar) (cs : List Scalar) :
    RoundTrips signedChar rest32 rest8 rest16 (values (c :: cs)) (utf8Text (c :: cs))
      (utf16Text (c :: cs)) := by
  have h32 : (values (c :: cs)).length ≠ 0 := flatMap_ne_nil (by simp) c cs
  have h8 : (utf8Text (c :: cs)).length ≠ 0 := flatMap_ne_nil (fun c => utf8Bytes_ne_nil _) c cs
  have h16 : (utf16Text (c :: cs)).length ≠ 0 := flatMap_ne_nil (fun c => utf16Units_ne_nil _) c cs
  have hss : ∀ s ∈ (c :: cs).map fun d => utf8Bytes d.val.toNat, Sequence s := by
    intro s hs
    obtain ⟨d, -, rfl⟩ := List.mem_map.mp hs
    exact (scalar_sequence d.property).1
  have hnz : ∀ b ∈ utf8Text (c :: cs), b ≠ 0#8 := by
    intro b hb
    obtain ⟨d, -, hd⟩ := List.mem_flatMap.mp hb
    exact (scalar_sequence d.property).2 b hd
  have hflat : utf8Text (c :: cs) = ((c :: cs).map fun d => utf8Bytes d.val.toNat).flatten :=
    List.flatMap_def
  constructor
  · exact utf32_to_utf8_text h32 rfl (slice_blit _ _)
  · exact utf8_to_utf32_text signedChar h8 rfl (slice_blit _ _)
  · exact utf8_to_utf16_text rfl (slice_blit _ _)
  · exact utf16_to_utf8_text h16 rfl (slice_blit _ _)
  · exact utf32_to_utf8_length_text h32 rfl (slice_blit _ _)
  · intro hplain
    have hnul : NulText (blit rest8 0 (utf8Text (c :: cs) ++ [0#8])) 0 (utf8Text (c :: cs)) :=
      slice_blit _ _
    rw [hflat] at hplain hnz hnul ⊢
    exact utf8_length_sequences hss hplain hnz hnul
  · exact utf8_to_utf16_length_text rfl (slice_blit _ _)
  · exact utf16_to_utf8_length_text h16 rfl (slice_blit _ _)
  · exact utf8_to_utf32_length_text signedChar h8 rfl (slice_blit _ _)

/-- The text of no characters: the functions that take a length of zero for an error say so, and
nothing is written, not even a terminator. -/
structure EmptyText (signedChar : Bool) (src32 : ℕ → U32) (src8 : ℕ → Byte) (src16 : ℕ → U16) :
    Prop where
  utf32_to_utf8 : utf32_to_utf8 src32 0 = some (pure [])
  utf8_to_utf32 : utf8_to_utf32 signedChar src8 0 = some (pure [])
  utf16_to_utf8 : utf16_to_utf8 src16 0 = some (pure [])
  utf32_to_utf8_length : utf32_to_utf8_length src32 0 = some (pure (-1))
  utf16_to_utf8_length : utf16_to_utf8_length src16 0 = some (pure (-1))
  utf8_to_utf16_length : utf8_to_utf16_length src8 0 = some (pure 0)
  utf8_to_utf32_length : utf8_to_utf32_length signedChar src8 0 = some (pure 0)

theorem unicode_round_trips (signedChar : Bool) (rest32 : ℕ → U32) (rest8 : ℕ → Byte)
    (rest16 : ℕ → U16) :
    (∀ (c : Scalar) (cs : List Scalar), ∃ bytes units,
      RoundTrips signedChar rest32 rest8 rest16 (values (c :: cs)) bytes units) ∧
    EmptyText signedChar rest32 rest8 rest16 ∧
    ∀ s : CString, Plain signedChar s.bytes →
      (utf8_length signedChar (s.memory rest8) s.bytes.length = some (-1) ↔ Malformed s.bytes) := by
  refine ⟨fun c cs => ⟨_, _, round_trips signedChar rest32 rest8 rest16 c cs⟩, ?_, ?_⟩
  · exact ⟨rfl, rfl, rfl, rfl, rfl, rfl, rfl⟩
  · exact fun s hplain => utf8_length_eq_neg_one_iff s rest8 hplain

/-- The empty text is measured as an error, not as no bytes. -/
theorem empty_text_not_measured :
    ¬ (utf32_to_utf8_length (fun _ => 0#32) (values []).length).map Reading.val =
      some (ssize_t (utf8Text []).length) := by
  decide

end AudioFlinger.Unicode
