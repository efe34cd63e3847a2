import AudioFlinger.Unicode.Surrogates

/-!
# Measuring and writing the UTF-8 form of a UTF-16 text

Both loops move over a text in the same steps, but for a high surrogate in last
place. Where a high surrogate stands before something that is no low one, they
disagree on the bytes by `surplusOf`.
-/

namespace AudioFlinger.Unicode

open Foundation.Scan Foundation.RingMemory

/-- By how much the bytes written for a high surrogate and the unit after it exceed those
measured. -/
def surplusOf (hi lo : U16) : ℤ :=
  if lo.toNat < 0x80 then 2
  else if lo.toNat < 0x800 then 1
  else if lo.toNat < 0xD800 then
    if 0xD800 ≤ mangled hi lo ∧ mangled hi lo ≤ 0xDFFF then -3 else 0
  else if lo.toNat < 0xDC00 then 3
  else if lo.toNat < 0xE000 then 0
  else 1

/-- The surpluses over a text, each high surrogate taking the unit after it. -/
def surplus : List U16 → ℤ
  | [] => 0
  | [_] => 0
  | u :: v :: us => if isHigh u then surplusOf u v + surplus us else surplus (v :: us)

/-- The text ends in a high surrogate that has no unit after it. -/
def EndsHigh : List U16 → Prop
  | [] => False
  | [u] => isHigh u
  | u :: v :: us => if isHigh u then EndsHigh us else EndsHigh (v :: us)

/-- The bytes of a text in UTF-8: four for a pair, none for a surrogate alone. -/
def utf8Size : List U16 → ℕ
  | [] => 0
  | [u] => width u.toNat
  | u :: v :: us =>
    if isHigh u then (if isLow v then 4 else width v.toNat) + utf8Size us
    else width u.toNat + utf8Size (v :: us)

/-! ## One pair -/

/-- The carry of a small unit never lands among the surrogates. -/
theorem mangled_not_surrogate {hi lo : U16} (h : lo.toNat < 0x800) :
    mangled hi lo < 0xD800 ∨ 0xDFFF < mangled hi lo := by
  have hbits : ∀ x < 32, (x ||| 4) ≠ 27 ∧ (x ||| 5) ≠ 27 := by decide
  have hrow : mangled hi lo / 2 ^ 11 = hi.toNat % 64 / 2 ||| (lo.toNat + 0x2400) / 2 ^ 11 := by
    rw [mangled, Nat.or_div_two_pow, show hi.toNat % 64 * 1024 / 2 ^ 11 = hi.toNat % 64 / 2 by omega]
  have hx := hbits (hi.toNat % 64 / 2) (by omega)
  have hlo : (lo.toNat + 0x2400) / 2 ^ 11 = 4 ∨ (lo.toNat + 0x2400) / 2 ^ 11 = 5 := by omega
  have hne : mangled hi lo / 2 ^ 11 ≠ 27 := by
    rw [hrow]
    cases hlo with
    | inl h4 => rw [h4]; exact hx.1
    | inr h5 => rw [h5]; exact hx.2
  omega

theorem pair_surplus {hi : U16} (h : isHigh hi) (lo : U16) :
    (utf32_codepoint_utf8_length (combine hi lo) : ℤ) =
      (if isLow lo then 4 else width lo.toNat : ℕ) + surplusOf hi lo := by
  have hlt := lo.isLt
  simp only [isLow_iff]
  by_cases hlow : 0xDC00 ≤ lo.toNat
  · rw [width_combine_of_ge h hlow]
    by_cases hpair : lo.toNat < 0xE000
    · have hsurplus : surplusOf hi lo = 0 := by
        rw [surplusOf, if_neg (by omega), if_neg (by omega), if_neg (by omega), if_neg (by omega),
          if_pos hpair]
      rw [if_pos ⟨hlow, hpair⟩, hsurplus]
      rfl
    · have hsurplus : surplusOf hi lo = 1 := by
        rw [surplusOf, if_neg (by omega), if_neg (by omega), if_neg (by omega), if_neg (by omega),
          if_neg hpair]
      rw [if_neg fun hh => hpair hh.2, hsurplus, width_of_three (by omega) (by omega),
        if_pos (Or.inr (by omega))]
      rfl
  · have hle := le_mangled hi lo
    have hmangled := width_of_three (by omega) (@mangled_lt hi lo (by omega))
    have hapart := @mangled_not_surrogate hi lo
    rw [utf32_codepoint_utf8_length_eq, combine_of_lt h (by omega), hmangled,
      @if_neg (_ ∧ _) _ fun hh => hlow hh.1]
    unfold surplusOf
    by_cases h1 : lo.toNat < 0x80
    · rw [if_pos (hapart (by omega)), width, if_pos h1, if_pos h1]
      rfl
    by_cases h2 : lo.toNat < 0x800
    · rw [if_pos (hapart h2), width, if_neg h1, if_pos h2, if_neg h1, if_pos h2]
      rfl
    rw [if_neg h1, if_neg h2, width_of_three (by omega) (by omega)]
    by_cases h3 : lo.toNat < 0xD800
    · rw [if_pos h3, @if_pos (_ ∨ _) _ (Or.inl h3)]
      by_cases hsurrogate : 0xD800 ≤ mangled hi lo ∧ mangled hi lo ≤ 0xDFFF
      · rw [if_pos hsurrogate, if_neg (by omega)]
        rfl
      · rw [if_neg hsurrogate, if_pos (by omega)]
        rfl
    · rw [if_neg h3, if_pos (Or.inr (by omega)), if_neg (by omega), if_pos (by omega)]
      rfl

/-- A pair of three measured bytes can lose them, no more. -/
theorem surplusOf_ge (hi lo : U16) : -3 ≤ surplusOf hi lo := by
  unfold surplusOf
  split_ifs <;> omega

theorem surplus_ge (us : List U16) : -3 * us.length ≤ 2 * surplus us := by
  induction us using surplus.induct with
  | case1 => simp [surplus]
  | case2 u => simp [surplus]
  | case3 u v us h ih =>
    have hpair := surplusOf_ge u v
    simp only [surplus, if_pos h, List.length_cons]
    push_cast
    omega
  | case4 u v us h ih =>
    simp only [surplus, if_neg h, List.length_cons] at ih ⊢
    push_cast at ih ⊢
    omega

/-! ## The two loops -/

variable {src : ℕ → U16} {stop : ℕ}

theorem measure_pair {cur ret : ℕ} (h : isHigh (src cur)) (hstop : cur + 1 < stop) :
    measureUnit src stop cur ret =
      ⟨(cur + 2, ret + if isLow (src (cur + 1)) then 4 else width (src (cur + 1)).toNat),
        [cur, cur + 1]⟩ := by
  by_cases hlow : isLow (src (cur + 1))
  · simp [measureUnit, h, hstop, hlow, Reading.bind_eq, Reading.pure_eq]
  · simp [measureUnit, h, hstop, hlow, width_unit, Reading.bind_eq, Reading.pure_eq]

theorem measure_single {cur ret : ℕ} (h : ¬ (isHigh (src cur) ∧ cur + 1 < stop)) :
    measureUnit src stop cur ret = ⟨(cur + 1, ret + width (src cur).toNat), [cur]⟩ := by
  simp [measureUnit, h, width_unit, Reading.bind_eq, Reading.pure_eq]

theorem convert_pair {cur : ℕ} {dst : List Byte} (h : isHigh (src cur)) :
    convertUnit src cur dst =
      ⟨(cur + 2, dst ++ encode (combine (src cur) (src (cur + 1)))), [cur, cur + 1]⟩ := by
  simp [convertUnit, h, Reading.bind_eq, Reading.pure_eq]

theorem convert_single {cur : ℕ} {dst : List Byte} (h : ¬ isHigh (src cur)) :
    convertUnit src cur dst = ⟨(cur + 1, dst ++ encode ((src cur).setWidth 32)), [cur]⟩ := by
  simp [convertUnit, h, Reading.bind_eq, Reading.pure_eq]

/-- The measuring loop stays inside the text and counts its bytes. -/
theorem measure_scan {us : List U16} {cur ret rounds : ℕ} (hsrc : slice src cur us.length = us)
    (hstop : cur + us.length = stop) (hrounds : us.length ≤ rounds) :
    ∃ r, scan stop (measureUnit src stop) rounds cur ret = some r ∧ r.Below stop ∧
      r.val.2 = ret + utf8Size us := by
  induction us using utf8Size.induct generalizing cur ret rounds with
  | case1 =>
    exact ⟨_, scan_done (by simpa using hstop.ge), by simp [Reading.Below], rfl⟩
  | case2 u =>
    obtain ⟨rfl, -⟩ := slice_cons_iff.mp hsrc
    cases rounds with
    | zero => simp at hrounds
    | succ rounds =>
      rw [List.length_singleton] at hstop
      have hstep := @measure_single src stop cur ret (by lia)
      refine ⟨_, scan_cons (by lia) hstep (scan_done hstop.ge), ?_, rfl⟩
      simp [Reading.Below, Reading.after]
      lia
  | case3 u v us h ih =>
    obtain ⟨rfl, hrest⟩ := slice_cons_iff.mp hsrc
    obtain ⟨rfl, htail⟩ := slice_cons_iff.mp hrest
    cases rounds with
    | zero => simp at hrounds
    | succ rounds =>
      simp only [List.length_cons] at hstop hrounds
      have hstep := @measure_pair src stop cur ret h (by lia)
      obtain ⟨r, hr, hbelow, hval⟩ := @ih (cur + 2) _ rounds htail (by lia) (by lia)
      refine ⟨_, scan_cons (by lia) hstep hr, ?_, ?_⟩
      · refine Reading.below_after.mpr ⟨?_, hbelow⟩
        simp
        lia
      · rw [Reading.val_after, hval, utf8Size, if_pos h, Nat.add_assoc]
  | case4 u v us h ih =>
    obtain ⟨rfl, htail⟩ := slice_cons_iff.mp hsrc
    cases rounds with
    | zero => simp at hrounds
    | succ rounds =>
      simp only [List.length_cons] at hstop hrounds
      have hstep := @measure_single src stop cur ret (fun hh => h hh.1)
      obtain ⟨r, hr, hbelow, hval⟩ := @ih (cur + 1) _ rounds htail
        (by simp only [List.length_cons]; lia) (by simp only [List.length_cons]; lia)
      refine ⟨_, scan_cons (by lia) hstep hr, ?_, ?_⟩
      · refine Reading.below_after.mpr ⟨?_, hbelow⟩
        simp
        lia
      · rw [Reading.val_after, hval, utf8Size, if_neg h, Nat.add_assoc]

/-- The converting loop leaves the text only behind a high surrogate in last place; otherwise it
writes the measured bytes and the surplus. -/
theorem convert_scan {us : List U16} {cur rounds : ℕ} {dst : List Byte}
    (hsrc : slice src cur us.length = us) (hstop : cur + us.length = stop)
    (hrounds : us.length ≤ rounds) :
    ∃ r, scan stop (convertUnit src) rounds cur dst = some r ∧ (r.Below stop ↔ ¬ EndsHigh us) ∧
      (¬ EndsHigh us → (r.val.2.length : ℤ) = dst.length + utf8Size us + surplus us) := by
  induction us using utf8Size.induct generalizing cur dst rounds with
  | case1 =>
    exact ⟨_, scan_done (by simpa using hstop.ge), by simp [Reading.Below, EndsHigh],
      by simp [utf8Size, surplus]⟩
  | case2 u =>
    obtain ⟨rfl, -⟩ := slice_cons_iff.mp hsrc
    cases rounds with
    | zero => simp at hrounds
    | succ rounds =>
      rw [List.length_singleton] at hstop
      by_cases hhigh : isHigh (src cur)
      · have hstep := @convert_pair src cur dst hhigh
        refine ⟨_, scan_cons (by lia) hstep (scan_done (by simp only; lia)), ?_, ?_⟩
        · simp [Reading.Below, Reading.after, EndsHigh, hhigh, hstop]
        · exact fun hno => absurd hhigh hno
      · have hstep := @convert_single src cur dst hhigh
        refine ⟨_, scan_cons (by lia) hstep (scan_done hstop.ge), ?_, ?_⟩
        · simp [Reading.Below, Reading.after, EndsHigh, hhigh]
          lia
        · simp [utf8Size, surplus, width_unit]
  | case3 u v us h ih =>
    obtain ⟨rfl, hrest⟩ := slice_cons_iff.mp hsrc
    obtain ⟨rfl, htail⟩ := slice_cons_iff.mp hrest
    cases rounds with
    | zero => simp at hrounds
    | succ rounds =>
      simp only [List.length_cons] at hstop hrounds
      have hstep := @convert_pair src cur dst h
      have hpair := pair_surplus h (src (cur + 1))
      obtain ⟨r, hr, hbelow, hval⟩ := @ih (cur + 2) rounds
        (dst ++ encode (combine (src cur) (src (cur + 1)))) htail (by lia) (by lia)
      refine ⟨_, scan_cons (by lia) hstep hr, ?_, ?_⟩
      · rw [Reading.below_after, hbelow, EndsHigh, if_pos h]
        simp
        lia
      · rw [EndsHigh, if_pos h, Reading.val_after]
        intro hno
        rw [hval hno, utf8Size, if_pos h, surplus, if_pos h, List.length_append, encode_length]
        push_cast at hpair ⊢
        lia
  | case4 u v us h ih =>
    obtain ⟨rfl, htail⟩ := slice_cons_iff.mp hsrc
    cases rounds with
    | zero => simp at hrounds
    | succ rounds =>
      simp only [List.length_cons] at hstop hrounds
      have hstep := @convert_single src cur dst h
      obtain ⟨r, hr, hbelow, hval⟩ := @ih (cur + 1) rounds (dst ++ encode ((src cur).setWidth 32))
        htail (by simp only [List.length_cons]; lia) (by simp only [List.length_cons]; lia)
      refine ⟨_, scan_cons (by lia) hstep hr, ?_, ?_⟩
      · rw [Reading.below_after, hbelow, EndsHigh, if_neg h]
        simp
        lia
      · rw [EndsHigh, if_neg h, Reading.val_after]
        intro hno
        rw [hval hno, utf8Size, if_neg h, surplus, if_neg h, List.length_append, encode_length,
          width_unit]
        push_cast
        lia

/-! ## The buffer -/

/-- The conversion of `src_len` units reads inside them and fills a buffer of the measured length
and the terminator. -/
def FillsBuffer (src : ℕ → U16) (src_len : ℕ) : Prop :=
  ∃ measured written, utf16_to_utf8_length src src_len = some measured ∧
    utf16_to_utf8 src src_len = some written ∧ measured.Below src_len ∧ written.Below src_len ∧
    (written.val.length : ℤ) = measured.val + 1

/-- No high surrogate stands last, the surpluses cancel out, and the size has a place in
`ssize_t`. -/
def WellSized (us : List U16) : Prop :=
  ¬ EndsHigh us ∧ surplus us = 0 ∧ utf8Size us < 2 ^ 31

theorem ssize_t_eq (n : ℕ) : ssize_t n = (n : ℤ).bmod (2 ^ 32) := by
  rw [ssize_t, BitVec.toInt_ofNat']

/-- A size read back as `ssize_t` is off by a multiple of the word that is too large for the
surplus of a text that fits in memory. -/
theorem ssize_t_add_eq {n k : ℕ} {s : ℤ} (hk : 2 * k ≤ 2 ^ 32) (hs : -3 * k ≤ 2 * s)
    (hpos : 0 ≤ n + s) : (n : ℤ) + s = ssize_t n ↔ s = 0 ∧ n < 2 ^ 31 := by
  rw [ssize_t_eq, Int.bmod_def]
  constructor
  · intro h
    split at h <;> omega
  · rintro ⟨rfl, hn⟩
    split <;> omega

/-- The source array fits in the address space. -/
theorem utf16_fills_buffer_iff (src : ℕ → U16) (src_len : ℕ) (hfit : 2 * src_len ≤ 2 ^ 32) :
    FillsBuffer src src_len ↔ WellSized (slice src 0 src_len) := by
  have hlen : (slice src 0 src_len).length = src_len := slice_length _ _
  have hsrc : slice src 0 (slice src 0 src_len).length = slice src 0 src_len := by rw [hlen]
  by_cases hzero : src_len = 0
  · subst hzero
    have hempty : WellSized (slice src 0 0) := ⟨id, rfl, by simp [slice, utf8Size]⟩
    refine ⟨fun _ => hempty, fun _ => ⟨pure (-1), pure [], rfl, rfl, ?_, ?_, rfl⟩⟩
    · simp [Reading.Below]
    · simp [Reading.Below]
  · obtain ⟨m, hm, hmb, hmv⟩ := @measure_scan src src_len _ 0 0 src_len hsrc (by omega) (by omega)
    obtain ⟨c, hc, hcb, hcv⟩ := @convert_scan src src_len _ 0 src_len [] hsrc (by omega) (by omega)
    have hmeasured : utf16_to_utf8_length src src_len = some (m.map fun r => ssize_t r.2) := by
      rw [utf16_to_utf8_length, if_neg hzero, hm, Option.map_some]
    have hwritten : utf16_to_utf8 src src_len = some (c.map fun r => r.2 ++ [0#8]) := by
      rw [utf16_to_utf8, if_neg hzero, hc, Option.map_some]
    have hge := surplus_ge (slice src 0 src_len)
    rw [hlen] at hge
    rw [Nat.zero_add] at hmv
    constructor
    · rintro ⟨measured, written, hmeasured', hwritten', -, hbelow, hcount⟩
      cases hmeasured.symm.trans hmeasured'
      cases hwritten.symm.trans hwritten'
      have hhigh := hcb.mp hbelow
      have hlength := hcv hhigh
      simp only [Reading.map, List.length_append, List.length_singleton, hmv] at hcount
      push_cast at hcount
      rw [List.length_nil] at hlength
      have hiff := @ssize_t_add_eq (utf8Size (slice src 0 src_len)) _ _ hfit hge (by omega)
      have hsum := hiff.mp (by omega)
      exact ⟨hhigh, hsum⟩
    · rintro ⟨hhigh, hsum⟩
      have hlength := hcv hhigh
      have hcount := (ssize_t_add_eq hfit hge (by omega)).mpr hsum
      refine ⟨_, _, hmeasured, hwritten, hmb, hcb.mpr hhigh, ?_⟩
      simp only [Reading.map, List.length_append, List.length_singleton, hmv]
      rw [List.length_nil] at hlength
      push_cast
      omega

/-- `U+D83D U+DE00`, a pair. -/
def grin : ℕ → U16 := fun i => if i = 0 then 0xD83D#16 else 0xDE00#16

theorem utf16_fills_buffer_grin :
    2 * 2 ≤ 2 ^ 32 ∧ (FillsBuffer grin 2 ↔ WellSized (slice grin 0 2)) :=
  ⟨by decide, utf16_fills_buffer_iff grin 2 (by decide)⟩

/-- An unpaired high surrogate before a letter. -/
def highBeforeLetter : ℕ → U16 := fun i => if i = 0 then 0xD800#16 else 0x0041#16

/-- One byte is measured and three are written. -/
theorem letter_after_high_overflows : ¬ FillsBuffer highBeforeLetter 2 := by
  rintro ⟨measured, written, hmeasured, hwritten, -, -, hcount⟩
  have hm : utf16_to_utf8_length highBeforeLetter 2 = some ⟨1, [0, 1]⟩ := rfl
  have hw : utf16_to_utf8 highBeforeLetter 2 =
      some ⟨[0xE2#8, 0x91#8, 0x81#8, 0x00#8], [0, 1]⟩ := rfl
  cases hm.symm.trans hmeasured
  cases hw.symm.trans hwritten
  exact absurd hcount (by decide)

end AudioFlinger.Unicode
