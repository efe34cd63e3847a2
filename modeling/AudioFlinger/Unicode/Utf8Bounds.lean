import AudioFlinger.Unicode.Utf16Sizing

/-!
# What the UTF-8 decoders read

A decoder moves by what the lead byte promises, up to four bytes in the 16-bit
functions and up to eight in the 32-bit ones, and reads all of it. It stays
inside the text just when the text is made of sequences that keep the promise.
-/

namespace AudioFlinger.Unicode

open Foundation.Scan Foundation.RingMemory

/-- The leading ones of a lead byte, or one for a byte by itself, capped at `most`. -/
def promised (most : ℕ) (b : Byte) : ℕ :=
  min most <|
    if b < 0xC0#8 then 1
    else if b < 0xE0#8 then 2
    else if b < 0xF0#8 then 3
    else if b < 0xF8#8 then 4
    else if b < 0xFC#8 then 5
    else if b < 0xFE#8 then 6
    else if b < 0xFF#8 then 7
    else 8

/-- The text is made of sequences, each as long as its lead byte promises. -/
def Complete (most : ℕ) (bs : List Byte) : Prop :=
  ∃ ss : List (List Byte), bs = ss.flatten ∧
    ∀ s ∈ ss, ∃ b t, s = b :: t ∧ s.length = promised most b

theorem utf8_codepoint_len_eq (b : Byte) : utf8_codepoint_len b = promised 4 b := by
  revert b
  decide +kernel

theorem skip_eq (signedChar : Bool) (b : Byte) :
    (if promote signedChar b &&& 0x80#32 = 0#32 then 1
      else skipLoop (promote signedChar b) 7 1 0x40#32) = promised 8 b := by
  revert signedChar b
  decide +kernel

theorem promised_pos {most : ℕ} (h : 0 < most) (b : Byte) : 0 < promised most b := by
  unfold promised
  split_ifs <;> omega

/-- The decoding loop reads as many bytes as the measuring loop skips. -/
theorem atLoop_eq (first_char : U32) (src : ℕ → Byte) (left cur num : ℕ) (mask ign utf32 : U32) :
    (atLoop first_char src left cur num mask ign utf32).val.1 = skipLoop first_char left num mask ∧
    num ≤ skipLoop first_char left num mask ∧
    (atLoop first_char src left cur num mask ign utf32).reads =
      List.range' cur (skipLoop first_char left num mask - num) := by
  induction left generalizing cur num mask ign utf32 with
  | zero => simp [atLoop, skipLoop]
  | succ left ih =>
    by_cases hbit : first_char &&& mask ≠ 0#32
    · obtain ⟨hval, hle, hreads⟩ := ih (cur + 1) (num + 1) (mask >>> 1) (ign ||| mask)
        ((utf32 <<< 6) + (src cur &&& 0x3F#8).setWidth 32)
      rw [atLoop, skipLoop, if_pos hbit, if_pos hbit]
      refine ⟨hval, by omega, ?_⟩
      rw [Reading.reads_bind, val_read, hreads, reads_read, List.singleton_append,
        show skipLoop first_char left (num + 1) (mask >>> 1) - num =
          skipLoop first_char left (num + 1) (mask >>> 1) - (num + 1) + 1 by omega,
        List.range'_succ]
    · rw [atLoop, skipLoop, if_neg hbit, if_neg hbit]
      simp

/-! ## The rounds of the four loops -/

variable {src : ℕ → Byte}

/-- The code point of the 16-bit decoder at a position. -/
def codepointAt (src : ℕ → Byte) (cur : ℕ) : U32 :=
  (utf8_to_utf32_codepoint src cur (promised 4 (src cur))).val

theorem codepoint_reads (cur : ℕ) {k : ℕ} (hpos : 0 < k) (hle : k ≤ 4) :
    (utf8_to_utf32_codepoint src cur k).reads = List.range' cur k := by
  obtain rfl | rfl | rfl | rfl : k = 1 ∨ k = 2 ∨ k = 3 ∨ k = 4 := by omega
  all_goals rfl

theorem promised_le (most : ℕ) (b : Byte) : promised most b ≤ most := Nat.min_le_left _ _

/-- The 16-bit decoders read the lead byte and then the whole sequence. -/
theorem codepoint_round (cur : ℕ) :
    utf8_to_utf32_codepoint src cur (promised 4 (src cur)) =
      ⟨codepointAt src cur, List.range' cur (promised 4 (src cur))⟩ := by
  ext
  · rfl
  · rw [codepoint_reads cur (promised_pos (by decide) _) (promised_le _ _)]

/-- Only a sequence of several bytes makes a surrogate pair. -/
theorem units_le_promised (cur : ℕ) :
    (1 + if 0xFFFF#32 < codepointAt src cur then 1 else 0) ≤ promised 4 (src cur) := by
  have hpos := @promised_pos 4 (by decide) (src cur)
  by_cases hone : promised 4 (src cur) = 1
  · have hsmall : ¬ 0xFFFF#32 < codepointAt src cur := by
      rw [codepointAt, hone, utf8_to_utf32_codepoint, Reading.val_bind, Reading.val_pure, val_read,
        BitVec.lt_def, BitVec.toNat_setWidth_of_le (by decide)]
      have hb := (src cur).isLt
      simp only [BitVec.toNat_ofNat]
      omega
    rw [if_neg hsmall, hone]
  · split <;> omega

theorem writeUnits_length (c : U32) :
    (writeUnits c).length = 1 + if 0xFFFF#32 < c then 1 else 0 := by
  by_cases hc : c ≤ 0xFFFF#32
  · rw [writeUnits, if_pos hc, if_neg (by bv_omega)]
    rfl
  · rw [writeUnits, if_neg hc, if_pos (by bv_omega)]
    rfl

/-- The 32-bit decoder reads what the lead byte promises. -/
theorem at_round (signedChar : Bool) (cur : ℕ) :
    (utf32_at_internal signedChar src cur).val.2 = promised 8 (src cur) ∧
    (utf32_at_internal signedChar src cur).reads = List.range' cur (promised 8 (src cur)) := by
  have hskip := skip_eq signedChar (src cur)
  rw [utf32_at_internal, Reading.val_bind, Reading.reads_bind, val_read, reads_read]
  by_cases hascii : promote signedChar (src cur) &&& 0x80#32 = 0#32
  · rw [if_pos hascii] at hskip
    simp only [if_pos hascii, Reading.val_pure, Reading.reads_pure]
    rw [← hskip]
    exact ⟨rfl, rfl⟩
  · rw [if_neg hascii] at hskip
    obtain ⟨hval, hle, hreads⟩ := atLoop_eq (promote signedChar (src cur)) src 7 (cur + 1) 1 0x40#32
      0xFFFFFF80#32 (promote signedChar (src cur))
    simp only [if_neg hascii, Reading.val_bind, Reading.reads_bind, Reading.val_pure,
      Reading.reads_pure, hval, hreads, hskip, List.append_nil, List.singleton_append,
      true_and]
    rw [hskip] at hle
    obtain ⟨k, hk⟩ := Nat.exists_eq_add_of_le' hle
    rw [hk, Nat.add_sub_cancel, List.range'_succ]

/-- The units of a sequence in UTF-16. -/
def unitsAt (src : ℕ → Byte) (p : ℕ) : ℕ := 1 + if 0xFFFF#32 < codepointAt src p then 1 else 0

theorem measure16_round (cur u16measuredLen : ℕ) :
    (do
      let b ← read src cur
      let u8charLen := utf8_codepoint_len b
      let codepoint ← utf8_to_utf32_codepoint src cur u8charLen
      pure (cur + u8charLen, u16measuredLen + 1 + if 0xFFFF#32 < codepoint then 1 else 0) :
        Reading (ℕ × ℕ)) =
      ⟨(cur + promised 4 (src cur), u16measuredLen + unitsAt src cur),
        cur :: List.range' cur (promised 4 (src cur))⟩ := by
  simp only [Reading.bind_eq, val_read, reads_read, codepoint_round, utf8_codepoint_len_eq,
    Reading.pure_eq, List.append_nil, List.singleton_append, unitsAt, Nat.add_assoc]

theorem convert16_round (cur : ℕ) (u16str : List U16) :
    (do
      let b ← read src cur
      let charLen := utf8_codepoint_len b
      let codepoint ← utf8_to_utf32_codepoint src cur charLen
      pure (cur + charLen, u16str ++ writeUnits codepoint) : Reading (ℕ × List U16)) =
      ⟨(cur + promised 4 (src cur), u16str ++ writeUnits (codepointAt src cur)),
        cur :: List.range' cur (promised 4 (src cur))⟩ := by
  simp only [Reading.bind_eq, val_read, reads_read, codepoint_round, utf8_codepoint_len_eq,
    Reading.pure_eq, List.append_nil, List.singleton_append]

theorem measure32_round (signedChar : Bool) (cur ret : ℕ) :
    (do
      let b ← read src cur
      let first_char := promote signedChar b
      if first_char &&& 0x80#32 = 0#32 then pure (cur + 1, ret + 1)
      else pure (cur + skipLoop first_char 7 1 0x40#32, ret + 1) : Reading (ℕ × ℕ)) =
      ⟨(cur + promised 8 (src cur), ret + 1), [cur]⟩ := by
  have hskip := skip_eq signedChar (src cur)
  rw [Reading.bind_eq, val_read, reads_read]
  by_cases hascii : promote signedChar (src cur) &&& 0x80#32 = 0#32
  · simp only [if_pos hascii] at hskip ⊢
    rw [← hskip]
    rfl
  · simp only [if_neg hascii] at hskip ⊢
    rw [← hskip]
    rfl

/-- The code point of the 32-bit decoder at a position. -/
def codepoint32At (signedChar : Bool) (src : ℕ → Byte) (cur : ℕ) : U32 :=
  (utf32_at_internal signedChar src cur).val.1

theorem convert32_round (signedChar : Bool) (cur : ℕ) (dst : List U32) :
    (do
      let (c, num_read) ← utf32_at_internal signedChar src cur
      pure (cur + num_read, dst ++ [c]) : Reading (ℕ × List U32)) =
      ⟨(cur + promised 8 (src cur), dst ++ [codepoint32At signedChar src cur]),
        List.range' cur (promised 8 (src cur))⟩ := by
  obtain ⟨hnum, hreads⟩ := @at_round src signedChar cur
  change (⟨(cur + (utf32_at_internal signedChar src cur).val.2,
    dst ++ [codepoint32At signedChar src cur]),
    (utf32_at_internal signedChar src cur).reads ++ []⟩ : Reading _) = _
  rw [hnum, hreads, List.append_nil]

/-! ## Reads inside the text -/

/-- A sequence that starts inside the text is read whole, so all reads stay inside just when every
sequence ends inside. -/
theorem reads_inside_iff {len : ℕ → ℕ} {reads : ℕ → List ℕ} {n : ℕ} {ps : List ℕ}
    (hlen : ∀ p, 0 < len p) (hreads : ∀ p, ∀ i ∈ reads p, i < p + len p)
    (hlast : ∀ p, p + len p - 1 ∈ reads p) :
    (∀ i ∈ ps.flatMap reads, i < n) ↔ ∀ p ∈ ps, p + len p ≤ n := by
  constructor
  · intro h p hp
    have hin := h (p + len p - 1) (List.mem_flatMap.mpr ⟨p, hp, hlast p⟩)
    have hpos := hlen p
    omega
  · intro h i hi
    obtain ⟨p, hp, hip⟩ := List.mem_flatMap.mp hi
    have hlt := hreads p i hip
    have hle := h p hp
    omega

/-- The sequences that the positions of a scan cut the text into. -/
theorem inside_iff_complete {most n : ℕ} (hmost : 0 < most) {rounds cur : ℕ} (hcur : cur ≤ n)
    (h : n ≤ cur + rounds) :
    (∀ p ∈ starts (fun p => promised most (src p)) n rounds cur, p + promised most (src p) ≤ n) ↔
      Complete most (slice src cur (n - cur)) := by
  have hpos := fun p => promised_pos hmost (src p)
  induction rounds generalizing cur with
  | zero =>
    obtain rfl : cur = n := by lia
    rw [Nat.sub_self]
    exact ⟨fun _ => ⟨[], rfl, by simp⟩, fun _ => by simp [starts]⟩
  | succ rounds ih =>
    by_cases hlt : cur < n
    · rw [starts, if_pos hlt]
      constructor
      · intro hin
        have hhead := hin cur List.mem_cons_self
        have hrest := fun p hp => hin p (List.mem_cons_of_mem cur hp)
        have hhead' := hpos cur
        obtain ⟨ss, hflat, hss⟩ := (ih hhead (by lia)).mp hrest
        obtain ⟨k, hk⟩ := Nat.exists_eq_succ_of_ne_zero hhead'.ne'
        refine ⟨slice src cur (promised most (src cur)) :: ss, ?_, ?_⟩
        · rw [List.flatten_cons, ← hflat, ← slice_add]
          congr 1
          lia
        · intro s hs
          cases List.mem_cons.mp hs with
          | inl heq =>
            subst heq
            refine ⟨src cur, slice src (cur + 1) k, ?_, slice_length _ _⟩
            rw [hk, Nat.succ_eq_add_one, slice_cons]
          | inr htail => exact hss s htail
      · rintro ⟨ss, hflat, hss⟩
        cases ss with
        | nil =>
          have hlength := congrArg List.length hflat
          rw [slice_length, List.flatten_nil, List.length_nil] at hlength
          lia
        | cons s ss =>
          obtain ⟨b, t, rfl, hlength⟩ := hss s List.mem_cons_self
          have htotal := congrArg List.length hflat
          rw [slice_length, List.flatten_cons, List.length_append] at htotal
          obtain ⟨m, hm⟩ := Nat.exists_eq_add_of_lt hlt
          have hb : src cur = b := by
            rw [show n - cur = m + 1 by lia, slice_cons] at hflat
            exact (List.cons.inj hflat).1
          subst hb
          have hinside : cur + promised most (src cur) ≤ n := by lia
          have htail : slice src (cur + promised most (src cur))
              (n - (cur + promised most (src cur))) = ss.flatten := by
            rw [show n - cur = promised most (src cur) + (n - (cur + promised most (src cur))) by lia,
              slice_add, List.flatten_cons] at hflat
            exact (List.append_inj hflat (by rw [slice_length, hlength])).2
          have hrest := (ih hinside (by have := hpos cur; lia)).mpr
            ⟨ss, htail, fun s' hs' => hss s' (List.mem_cons_of_mem _ hs')⟩
          intro p hp
          cases List.mem_cons.mp hp with
          | inl heq => subst heq; exact hinside
          | inr hp' => exact hrest p hp'
    · obtain rfl : cur = n := by lia
      rw [starts, if_neg hlt, Nat.sub_self]
      exact ⟨fun _ => ⟨[], rfl, by simp⟩, fun _ => by simp⟩

/-! ## The four functions -/

/-- The positions of a decoder that takes up to `most` bytes at a time. -/
def sequences (most : ℕ) (src : ℕ → Byte) (n : ℕ) : List ℕ :=
  starts (fun p => promised most (src p)) n n 0

/-- Where the 16-bit decoders come to their end. -/
def finish16 (src : ℕ → Byte) (n : ℕ) : ℕ := finish (fun p => promised 4 (src p)) n n 0

/-- What the 16-bit decoders read. -/
def reads16 (src : ℕ → Byte) (n : ℕ) : List ℕ :=
  (sequences 4 src n).flatMap fun p => p :: List.range' p (promised 4 (src p))

theorem utf8_to_utf16_length_eq (n : ℕ) :
    utf8_to_utf16_length src n =
      some ⟨if finish16 src n ≠ n then -1
        else ssize_t ((sequences 4 src n).foldl (fun m p => m + unitsAt src p) 0),
        reads16 src n⟩ := by
  rw [utf8_to_utf16_length, scan_starts measure16_round (fun p => promised_pos (by decide) _)
    (by omega)]
  rfl

theorem utf8_to_utf16_eq (n : ℕ) :
    utf8_to_utf16_no_null_terminator src n =
      some ⟨(sequences 4 src n).foldl (fun us p => us ++ writeUnits (codepointAt src p)) [],
        reads16 src n⟩ := by
  rw [utf8_to_utf16_no_null_terminator,
    scan_starts convert16_round (fun p => promised_pos (by decide) _) (by omega)]
  rfl

theorem utf8_to_utf32_length_eq (signedChar : Bool) (n : ℕ) :
    utf8_to_utf32_length signedChar src n =
      some ⟨(sequences 8 src n).foldl (fun m _ => m + 1) 0, (sequences 8 src n).flatMap ([·])⟩ := by
  by_cases hn : n = 0
  · subst hn
    rfl
  · rw [utf8_to_utf32_length, if_neg hn, scan_starts (measure32_round signedChar)
      (fun p => promised_pos (by decide) _) (by omega)]
    rfl

theorem utf8_to_utf32_eq (signedChar : Bool) {n : ℕ} (hn : n ≠ 0) :
    utf8_to_utf32 signedChar src n =
      some ⟨(sequences 8 src n).foldl (fun cs p => cs ++ [codepoint32At signedChar src p]) [] ++ [0#32],
        (sequences 8 src n).flatMap fun p => List.range' p (promised 8 (src p))⟩ := by
  rw [utf8_to_utf32, if_neg hn, scan_starts (convert32_round signedChar)
    (fun p => promised_pos (by decide) _) (by omega)]
  rfl

/-! ## Inside, and the counts agree -/

theorem reads16_inside_iff {n : ℕ} :
    (∀ i ∈ reads16 src n, i < n) ↔ Complete 4 (slice src 0 n) := by
  have hpos := fun p => @promised_pos 4 (by decide) (src p)
  rw [reads16, reads_inside_iff hpos]
  · exact inside_iff_complete (by decide) (Nat.zero_le n) (by omega)
  · intro p i hi
    have hp := hpos p
    rw [List.mem_cons, List.mem_range'_1] at hi
    omega
  · intro p
    have hp := hpos p
    rw [List.mem_cons, List.mem_range'_1]
    omega

theorem reads32_inside_iff {n : ℕ} :
    (∀ i ∈ (sequences 8 src n).flatMap fun p => List.range' p (promised 8 (src p)), i < n) ↔
      Complete 8 (slice src 0 n) := by
  have hpos := fun p => @promised_pos 8 (by decide) (src p)
  rw [reads_inside_iff hpos]
  · exact inside_iff_complete (by decide) (Nat.zero_le n) (by omega)
  · intro p i hi
    rw [List.mem_range'_1] at hi
    exact hi.2
  · intro p
    have hp := hpos p
    rw [List.mem_range'_1]
    omega

/-- Where the measured length is no error, it is the number of units written. -/
theorem measured16_eq {n : ℕ} (hn : n < 2 ^ 32)
    (h : 0 ≤ if finish16 src n ≠ n then (-1 : ℤ)
      else ssize_t ((sequences 4 src n).foldl (fun m p => m + unitsAt src p) 0)) :
    (((sequences 4 src n).foldl (fun us p => us ++ writeUnits (codepointAt src p)) []).length : ℤ) =
      if finish16 src n ≠ n then -1
      else ssize_t ((sequences 4 src n).foldl (fun m p => m + unitsAt src p) 0) := by
  have hlength : ((sequences 4 src n).foldl
      (fun us p => us ++ writeUnits (codepointAt src p)) []).length =
      (sequences 4 src n).foldl (fun m p => m + unitsAt src p) 0 := by
    rw [length_foldl_append]
    simp only [writeUnits_length, List.length_nil]
    rfl
  have hle : (sequences 4 src n).foldl (fun m p => m + unitsAt src p) 0 + 0 ≤
      0 + finish16 src n := foldl_starts_le (fun p => units_le_promised p)
  rw [hlength]
  by_cases hfin : finish16 src n = n
  · rw [if_neg (not_not.mpr hfin)] at h ⊢
    rw [ssize_t_eq, Int.bmod_def] at h ⊢
    split at h <;> omega
  · rw [if_pos hfin] at h
    omega

/-- The four functions end, read inside the text, and the converters write as many units as are
measured. -/
def DecodesInside (signedChar : Bool) (src : ℕ → Byte) (n : ℕ) : Prop :=
  ∃ measured16 written16 measured32 written32,
    utf8_to_utf16_length src n = some measured16 ∧
    utf8_to_utf16_no_null_terminator src n = some written16 ∧
    utf8_to_utf32_length signedChar src n = some measured32 ∧
    utf8_to_utf32 signedChar src n = some written32 ∧
    measured16.Below n ∧ written16.Below n ∧ measured32.Below n ∧ written32.Below n ∧
    (0 ≤ measured16.val → (written16.val.length : ℤ) = measured16.val) ∧
    written32.val.dropLast.length = measured32.val

theorem utf8_decoders_inside_iff (signedChar : Bool) (src : ℕ → Byte) (u8len : U32) :
    DecodesInside signedChar src u8len.toNat ↔
      Complete 4 (slice src 0 u8len.toNat) ∧ Complete 8 (slice src 0 u8len.toNat) := by
  have hn := u8len.isLt
  generalize u8len.toNat = n at hn
  have hmeasured32 : ∀ i ∈ (sequences 8 src n).flatMap ([·]), i < n := by
    rw [List.flatMap_singleton']
    exact mem_starts_lt
  rw [← reads16_inside_iff, ← reads32_inside_iff]
  by_cases hzero : n = 0
  · subst hzero
    refine ⟨fun _ => ⟨by simp [reads16, sequences, starts], by simp [sequences, starts]⟩, fun _ => ?_⟩
    refine ⟨_, _, _, _, utf8_to_utf16_length_eq 0, utf8_to_utf16_eq 0,
      utf8_to_utf32_length_eq signedChar 0, rfl, ?_, ?_, hmeasured32, ?_, ?_, rfl⟩
    · simp [Reading.Below, reads16, sequences, starts]
    · simp [Reading.Below, reads16, sequences, starts]
    · simp [Reading.Below]
    · exact measured16_eq hn
  · constructor
    · rintro ⟨m16, w16, m32, w32, -, hw16, -, hw32, -, hin16, -, hin32, -, -⟩
      cases hw16.symm.trans (utf8_to_utf16_eq n)
      cases hw32.symm.trans (utf8_to_utf32_eq signedChar hzero)
      exact ⟨hin16, hin32⟩
    · rintro ⟨hin16, hin32⟩
      refine ⟨_, _, _, _, utf8_to_utf16_length_eq n, utf8_to_utf16_eq n,
        utf8_to_utf32_length_eq signedChar n, utf8_to_utf32_eq signedChar hzero, hin16, hin16,
        hmeasured32, hin32, measured16_eq hn, ?_⟩
      rw [List.dropLast_concat, length_foldl_append]
      rfl

/-- A lead byte of two, with nothing after it. -/
def leadAlone : ℕ → Byte := fun i => if i = 0 then 0xC3#8 else 0x00#8

/-- The measuring loop reads the byte behind the text before it finds the text too short. -/
theorem truncated_sequence_read_outside : ¬ DecodesInside true leadAlone 1 := by
  rintro ⟨m16, w16, m32, w32, hm16, -, -, -, hin16, -⟩
  have hm : utf8_to_utf16_length leadAlone 1 = some ⟨-1, [0, 0, 1]⟩ := rfl
  cases hm.symm.trans hm16
  exact absurd hin16 (by decide)

end AudioFlinger.Unicode
