import AudioFlinger.Driver.Buffers
import AudioFlinger.Foundation.Tiling

/-!
# Which pages the buffers need

A buffer needs the pages of its header, and while it is allocated also those of its data.
The three ranges that the allocator maps and unmaps are what these needs change by.
-/

namespace AudioFlinger.Driver
open Foundation Foundation.Tile Buffers

variable {c : Platform} {area : Area c} {pages : ℕ → Bool} {ss ts us vs : List Tile}
  {b S q Q X Y i : ℕ} {t : Tile}

/-- The end of what a buffer needs: its header, or all of it. -/
def extent (c : Platform) (t : Tile) : ℕ := if t.free then t.start + c.sizeofBuffer else t.stop

/-- Page `i` has a part of what the buffer needs. -/
def Covers (area : Area c) (i : ℕ) (t : Tile) : Prop :=
  area.index t.start ≤ i ∧ i ≤ area.index (extent c t - 1)

/-- The pages that are present are those that some buffer needs. -/
def Mapped (area : Area c) (pages : ℕ → Bool) (ts : List Tile) : Prop :=
  ∀ i < area.count, pages i = true ↔ ∃ t ∈ ts, Covers area i t

/-- The buffers lie end to end in the area, each with room for its header. -/
structure Laid (area : Area c) (ts : List Tile) : Prop where
  tiles : Tiles area.buffer ts area.stop
  room : ∀ t ∈ ts, c.sizeofBuffer ≤ t.size

theorem sizeofBuffer_pos (c : Platform) : 0 < c.sizeofBuffer ∧ c.sizeofBuffer ≤ 80 := by
  rw [Platform.sizeofBuffer]
  split <;> decide

theorem extent_bounds (h : c.sizeofBuffer ≤ t.size) :
    t.start < extent c t ∧ extent c t ≤ t.stop := by
  have hpos := sizeofBuffer_pos c
  rw [extent, Tile.stop]
  split <;> omega

section Laid

variable (h : Laid area (ss ++ t :: us))

include h

/-- What lies before a buffer needs no page behind the one where the buffer starts. -/
theorem Laid.before {s : Tile} (hs : s ∈ ss) :
    extent c s - 1 < t.start ∧ area.index (extent c s - 1) ≤ area.index t.start := by
  have hin := (tiles_middle.mp h.tiles).1.inside hs
  have hext := extent_bounds (h.room s (by simp [hs]))
  have hlt : extent c s - 1 < t.start := by omega
  exact ⟨hlt, index_mono hlt.le⟩

/-- What lies behind a buffer needs no page before its end. -/
theorem Laid.behind {u : Tile} (hu : u ∈ us) :
    area.index t.stop ≤ area.index u.start :=
  index_mono ((tiles_middle.mp h.tiles).2.inside hu).1

/-- The page where a buffer ends is needed by the next buffer, or lies behind the area. -/
theorem Laid.next (hi : i < area.count)
    (hend : i = area.index t.stop) : ∃ u ∈ us, Covers area i u := by
  have hus := (tiles_middle.mp h.tiles).2
  cases us with
  | nil =>
    have hstop : t.stop = area.page area.count := hus
    rw [hstop, index_page] at hend
    omega
  | cons u us =>
    obtain ⟨hu, -⟩ := hus
    have hext := extent_bounds (h.room u (by simp))
    refine ⟨u, List.mem_cons_self, ?_, ?_⟩
    · rw [hu, hend]
    · rw [hend, ← hu]
      exact index_mono (by omega)

theorem Laid.start_ge : area.buffer ≤ t.start :=
  (h.tiles.inside (by simp)).1

theorem Laid.stop_index_le : area.index t.stop ≤ area.count := by
  have hle := (h.tiles.inside (t := t) (by simp)).2
  have hmono := @index_mono c area _ _ hle
  rwa [stop_eq_page, index_page] at hmono

/-- No other buffer needs a page strictly between the ends of a buffer. -/
theorem Laid.others_miss (hlo : area.index t.start < i)
    (hhi : i < area.index t.stop) {s : Tile} (hs : s ∈ ss ++ us) : ¬ Covers area i s := by
  rintro ⟨hstart, hstop⟩
  rcases List.mem_append.mp hs with hs | hs
  · have hbefore := (h.before hs).2
    omega
  · have hbehind := h.behind hs
    omega

end Laid

/-- The pages from the end of the header to the page before the last one. -/
def firstPage (area : Area c) (b : ℕ) : ℕ := area.index (c.data b - 1) + 1

theorem exists_middle {p : Tile → Prop} : (∃ t ∈ ss ++ vs ++ us, p t) ↔
    (∃ t ∈ vs, p t) ∨ ∃ t ∈ ss ++ us, p t := by
  constructor
  · rintro ⟨t, ht, hp⟩
    rcases List.mem_append.mp ht with ht | ht
    · rcases List.mem_append.mp ht with ht | ht
      · exact Or.inr ⟨t, List.mem_append_left _ ht, hp⟩
      · exact Or.inl ⟨t, ht, hp⟩
    · exact Or.inr ⟨t, List.mem_append_right _ ht, hp⟩
  · rintro (⟨t, ht, hp⟩ | ⟨t, ht, hp⟩)
    · exact ⟨t, List.mem_append_left _ (List.mem_append_right _ ht), hp⟩
    · rcases List.mem_append.mp ht with ht | ht
      · exact ⟨t, List.mem_append_left _ (List.mem_append_left _ ht), hp⟩
      · exact ⟨t, List.mem_append_right _ ht, hp⟩

/-- A page is needed by the buffers `ts`, or by those around them. -/
theorem mapped_middle : Mapped area pages (ss ++ ts ++ us) ↔ ∀ i < area.count,
    pages i = true ↔ (∃ t ∈ ts, Covers area i t) ∨ ∃ t ∈ ss ++ us, Covers area i t :=
  forall₂_congr fun _ _ => iff_congr Iff.rfl exists_middle

theorem mapped_one : Mapped area pages (ss ++ t :: us) ↔ ∀ i < area.count,
    pages i = true ↔ Covers area i t ∨ ∃ s ∈ ss ++ us, Covers area i s := by
  rw [List.append_cons, mapped_middle]
  simp only [List.mem_singleton, exists_eq_left]

/-- Allocating the first bytes of a buffer, up to `X`, needs the pages up to `X`, except the one
that the next buffer has already. The new buffers `vs` need the pages up to `Y`. -/
theorem alloc_mapped (h : Laid area (ss ++ ⟨b, S, true⟩ :: us))
    (hm : Mapped area pages (ss ++ ⟨b, S, true⟩ :: us)) (hX : c.data b ≤ X) (hXY : X ≤ Y)
    (hY : Y ≤ b + S) (hslack : Y = X ∨ b + S < X + c.PAGE_SIZE)
    (hcover : ∀ i, (∃ t ∈ vs, Covers area i t) ↔ area.index b ≤ i ∧ i ≤ area.index (Y - 1)) :
    (∀ i, firstPage area b ≤ i → i < min (area.index (X - 1) + 1) (area.index (b + S)) →
        pages i = false) ∧
      Mapped area (setRange pages (firstPage area b)
        (min (area.index (X - 1) + 1) (area.index (b + S))) true) (ss ++ vs ++ us) := by
  have hpos := sizeofBuffer_pos c
  have hstart : area.buffer ≤ b := h.start_ge
  have hcount : area.index (b + S) ≤ area.count := h.stop_index_le
  have hdata : c.data b = b + c.sizeofBuffer := rfl
  have hb : area.index b ≤ area.index (c.data b - 1) := index_mono (by lia)
  have hD : area.index (c.data b - 1) ≤ area.index (X - 1) := index_mono (by lia)
  have hXY' : area.index (X - 1) ≤ area.index (Y - 1) := index_mono (by lia)
  have hYS : area.index (Y - 1) ≤ area.index (b + S) := index_mono (by lia)
  have hend : area.index (Y - 1) = area.index (X - 1) ∨
      area.index (b + S) ≤ area.index (X - 1) + 1 := by
    rcases hslack with rfl | hslack
    · exact Or.inl rfl
    · exact Or.inr (index_add_le (by lia) (by lia))
  have hself : ∀ i, Covers area i ⟨b, S, true⟩ ↔
      area.index b ≤ i ∧ i ≤ area.index (c.data b - 1) := fun i => Iff.rfl
  have hmiss : ∀ i, area.index (c.data b - 1) < i → i < area.index (b + S) →
      ¬ ∃ s ∈ ss ++ us, Covers area i s := fun i hlo hhi ⟨s, hs, hcov⟩ =>
    h.others_miss (hb.trans_lt hlo) hhi hs hcov
  have hold := mapped_one.mp hm
  constructor
  · intro i hlo hhi
    rw [firstPage] at hlo
    rw [← Bool.not_eq_true, hold i (by lia), hself]
    rintro (hcov | hcov)
    · lia
    · exact hmiss i (by lia) (by lia) hcov
  · refine mapped_middle.mpr fun i hi => ?_
    rw [hcover, setRange, firstPage]
    split
    · next hrange =>
      refine ⟨fun _ => Or.inl ?_, fun _ => rfl⟩
      lia
    · next hrange =>
      rw [hold i hi, hself]
      constructor
      · rintro (hcov | hcov)
        · exact Or.inl (by lia)
        · exact Or.inr hcov
      · rintro (hcov | hcov)
        · by_cases hhead : i ≤ area.index (c.data b - 1)
          · exact Or.inl ⟨hcov.1, hhead⟩
          · -- the page where the next buffer starts
            obtain ⟨u, hu, hcovu⟩ := h.next hi (by change i = area.index (b + S); lia)
            exact Or.inr ⟨u, List.mem_append_right _ hu, hcovu⟩
        · exact Or.inr hcov

/-- Freeing a buffer gives back the pages that lie in its data. -/
theorem free_mapped (h : Laid area (ss ++ ⟨b, S, false⟩ :: us))
    (hm : Mapped area pages (ss ++ ⟨b, S, false⟩ :: us)) :
    (∀ i, firstPage area b ≤ i → i < area.index (b + S) → pages i = true) ∧
      Mapped area (setRange pages (firstPage area b) (area.index (b + S)) false)
        (ss ++ ⟨b, S, true⟩ :: us) := by
  have hpos := sizeofBuffer_pos c
  have hroom : c.sizeofBuffer ≤ S := h.room ⟨b, S, false⟩ (by simp)
  have hstart : area.buffer ≤ b := h.start_ge
  have hcount : area.index (b + S) ≤ area.count := h.stop_index_le
  have hdata : c.data b = b + c.sizeofBuffer := rfl
  have hb : area.index b ≤ area.index (c.data b - 1) := index_mono (by omega)
  have hD : area.index (c.data b - 1) ≤ area.index (b + S - 1) := index_mono (by omega)
  have hS : area.index (b + S - 1) ≤ area.index (b + S) := index_mono (by omega)
  have hlast : area.index (b + S) ≤ area.index (b + S - 1) + 1 :=
    index_add_le (by omega) (by have := c.page_pos; omega)
  have hbefore : ∀ i, Covers area i ⟨b, S, false⟩ ↔
      area.index b ≤ i ∧ i ≤ area.index (b + S - 1) := fun i => Iff.rfl
  have hafter : ∀ i, Covers area i ⟨b, S, true⟩ ↔
      area.index b ≤ i ∧ i ≤ area.index (c.data b - 1) := fun i => Iff.rfl
  have hold := mapped_one.mp hm
  constructor
  · intro i hlo hhi
    rw [firstPage] at hlo
    rw [hold i (by omega), hbefore]
    exact Or.inl (by omega)
  · refine mapped_one.mpr fun i hi => ?_
    rw [setRange, firstPage]
    split
    · next hrange =>
      rw [hafter]
      refine ⟨fun hfalse => absurd hfalse (by decide), ?_⟩
      rintro (hcov | ⟨s, hs, hcov⟩)
      · omega
      · exact absurd hcov (h.others_miss (by simp only; omega) (by simp only [Tile.stop]; omega) hs)
    · next hrange =>
      rw [hold i hi, hbefore, hafter]
      constructor
      · rintro (hcov | hcov)
        · by_cases hhead : i ≤ area.index (c.data b - 1)
          · exact Or.inl ⟨hcov.1, hhead⟩
          · obtain ⟨u, hu, hcovu⟩ := h.next hi (by change i = area.index (b + S); omega)
            exact Or.inr ⟨u, List.mem_append_right _ hu, hcovu⟩
        · exact Or.inr hcov
      · rintro (hcov | hcov)
        · exact Or.inl (by omega)
        · exact Or.inr hcov

/-! ## Deleting a header -/

theorem page_inj {i j : ℕ} : area.page i = area.page j ↔ i = j := by
  constructor
  · intro h
    exact le_antisymm (page_le.mp h.le) (page_le.mp h.ge)
  · rintro rfl
    rfl

/-- The indices of the pages of a header. -/
def startPage (area : Area c) (b : ℕ) : ℕ := area.index b

def endPage (area : Area c) (b : ℕ) : ℕ := area.index (c.data b - 1)

theorem buffer_start_page_eq (h : area.buffer ≤ b) :
    buffer_start_page c b = area.page (startPage area b) := pageMask_eq h

theorem buffer_end_page_eq (h : area.buffer ≤ b) :
    buffer_end_page c b = area.page (endPage area b) := by
  have hpos := sizeofBuffer_pos c
  exact pageMask_eq (by rw [Platform.data]; omega)

/-- A header lies in one page or in two. -/
theorem header_pages (h : area.buffer ≤ b) :
    startPage area b ≤ endPage area b ∧ endPage area b ≤ startPage area b + 1 := by
  have hpos := sizeofBuffer_pos c
  have hpage := c.page_ge
  constructor
  · exact index_mono (by rw [Platform.data]; omega)
  · exact index_add_le h (by rw [Platform.data]; omega)

/-- The order of the header pages of three neighbours. -/
theorem Laid.header_order (h : Laid area (ss ++ ⟨q, Q, true⟩ :: ⟨b, S, true⟩ :: us)) :
    area.buffer ≤ q ∧ area.buffer ≤ b ∧ endPage area q ≤ startPage area b ∧
      ∀ u ∈ us, endPage area b ≤ startPage area u.start := by
  have hpos := sizeofBuffer_pos c
  have hQ : c.sizeofBuffer ≤ Q := h.room ⟨q, Q, true⟩ (by simp)
  have hS : c.sizeofBuffer ≤ S := h.room ⟨b, S, true⟩ (by simp)
  have hq : area.buffer ≤ q := h.start_ge
  have htiles := (tiles_middle.mp h.tiles).2
  obtain ⟨hb, hus⟩ := htiles
  simp only [Tile.stop] at hb hus
  refine ⟨hq, by lia, index_mono (by rw [Platform.data]; lia), fun u hu => ?_⟩
  have hstart := (hus.inside hu).1
  exact index_mono (by rw [Platform.data]; lia)

/-- A page of a header is needed by another buffer just when it is the last header page of the
buffer before, or the first of the buffer behind. -/
theorem header_shared (h : Laid area (ss ++ ⟨q, Q, true⟩ :: ⟨b, S, true⟩ :: us))
    (hlo : startPage area b ≤ i) (hhi : i ≤ endPage area b) (R : ℕ) :
    (Covers area i ⟨q, R, true⟩ ∨ ∃ s ∈ ss ++ us, Covers area i s) ↔
      i = endPage area q ∨ ∃ n ∈ us.head?, i = startPage area n.start := by
  obtain ⟨hq, hb, hqb, hbu⟩ := h.header_order
  have hqpages := header_pages hq
  have hself : Covers area i ⟨q, R, true⟩ ↔ startPage area q ≤ i ∧ i ≤ endPage area q := Iff.rfl
  rw [hself]
  constructor
  · rintro (hcov | ⟨s, hs, hstart, hstop⟩)
    · exact Or.inl (by omega)
    · rcases List.mem_append.mp hs with hs | hs
      · have hbefore : _ ≤ startPage area q := (h.before hs).2
        exact Or.inl (by omega)
      · right
        cases us with
        | nil => cases hs
        | cons n us =>
          refine ⟨n, rfl, ?_⟩
          have hn := hbu n List.mem_cons_self
          have hle : startPage area n.start ≤ area.index s.start := by
            have htiles := (tiles_middle.mp h.tiles).2.2
            obtain ⟨hnb, hus⟩ := htiles
            rcases List.mem_cons.mp hs with rfl | hs
            · exact le_rfl
            · have hnpos := (hus.inside hs).1
              simp only [Tile.stop] at hnpos
              exact index_mono (by omega)
          omega
  · rintro (heq | ⟨n, hn, heq⟩)
    · exact Or.inl (by omega)
    · have hmem : n ∈ us := List.mem_of_head? hn
      have hext := extent_bounds (h.room n (by simp [hmem]))
      exact Or.inr ⟨n, List.mem_append_right _ hmem, heq.ge,
        heq.trans_le (index_mono (by omega))⟩

theorem freePages_iff (h : Laid area (ss ++ ⟨q, Q, true⟩ :: ⟨b, S, true⟩ :: us)) :
    ((freePages c q b (us.head?.map Tile.start)).1 = true ↔
      ¬ (startPage area b = endPage area q ∨
        ∃ n ∈ us.head?, startPage area b = startPage area n.start)) ∧
    ((freePages c q b (us.head?.map Tile.start)).2 = true ↔
      ¬ (endPage area b = endPage area q ∨
        ∃ n ∈ us.head?, endPage area b = startPage area n.start)) := by
  obtain ⟨hq, hb, hqb, hbu⟩ := h.header_order
  have hbpages := header_pages hb
  unfold freePages
  dsimp only
  rw [buffer_end_page_eq hq, buffer_start_page_eq hb, buffer_end_page_eq hb]
  cases us with
  | nil =>
    simp only [List.head?_nil, Option.map_none, ne_eq, page_inj, Option.mem_def, reduceCtorEq,
      false_and, exists_false, or_false, decide_eq_true_eq]
    lia
  | cons n us =>
    have hn := hbu n List.mem_cons_self
    have hnbuf : area.buffer ≤ n.start := (h.tiles.inside (by simp)).1
    simp only [List.head?_cons, Option.map_some, buffer_start_page_eq hnbuf, ne_eq, page_inj,
      Option.mem_def, Option.some.injEq, exists_eq_left']
    split
    · next heq =>
      split
      · next heq' =>
        simp only [Bool.false_eq_true, false_iff]
        lia
      · next hne =>
        simp only [Bool.false_eq_true, false_iff, decide_eq_true_eq]
        lia
    · next hne =>
      simp only [decide_eq_true_eq]
      lia

/-- The first and the last page that are given back with a header. -/
def deleteRange (area : Area c) (b : ℕ) (flags : Bool × Bool) : ℕ × ℕ :=
  (if flags.1 then startPage area b else endPage area b,
    (if flags.2 then endPage area b else startPage area b) + 1)

/-- `shared` are the pages that another buffer needs. -/
theorem deleteRange_iff {fs fe : Bool} {shared : ℕ → Prop}
    (hle : startPage area b ≤ endPage area b) (hle' : endPage area b ≤ startPage area b + 1)
    (hstart : fs = true ↔ ¬ shared (startPage area b))
    (hend : fe = true ↔ ¬ shared (endPage area b)) (hany : (fs || fe) = true) :
    (deleteRange area b (fs, fe)).1 ≤ i ∧ i < (deleteRange area b (fs, fe)).2 ↔
      (startPage area b ≤ i ∧ i ≤ endPage area b) ∧ ¬ shared i := by
  have hends : startPage area b ≤ i ∧ i ≤ endPage area b →
      i = startPage area b ∨ i = endPage area b := by omega
  constructor
  · intro hin
    have hpage : i = startPage area b ∧ fs = true ∨ i = endPage area b ∧ fe = true := by
      cases fs <;> cases fe <;> simp [deleteRange] at hin hany ⊢ <;> omega
    rcases hpage with ⟨rfl, hfs⟩ | ⟨rfl, hfe⟩
    · exact ⟨⟨le_rfl, hle⟩, hstart.mp hfs⟩
    · exact ⟨⟨hle, le_rfl⟩, hend.mp hfe⟩
  · rintro ⟨hin, hnot⟩
    have hpage : i = startPage area b ∧ fs = true ∨ i = endPage area b ∧ fe = true := by
      rcases hends hin with rfl | rfl
      · exact Or.inl ⟨rfl, hstart.mpr hnot⟩
      · exact Or.inr ⟨rfl, hend.mpr hnot⟩
    cases fs <;> cases fe <;> simp [deleteRange] at hpage ⊢ <;> omega

/-- Deleting a free buffer gives back the pages that only its header needed. -/
theorem delete_mapped {flags : Bool × Bool} {pages' : ℕ → Bool}
    (h : Laid area (ss ++ ⟨q, Q, true⟩ :: ⟨b, S, true⟩ :: us))
    (hm : Mapped area pages (ss ++ ⟨q, Q, true⟩ :: ⟨b, S, true⟩ :: us))
    (hflags : freePages c q b (us.head?.map Tile.start) = flags)
    (hpages' : pages' = if flags.1 || flags.2 then
      setRange pages (deleteRange area b flags).1 (deleteRange area b flags).2 false else pages) :
    ((flags.1 || flags.2) = true → ∀ i, (deleteRange area b flags).1 ≤ i →
        i < (deleteRange area b flags).2 → i < area.count → pages i = true) ∧
      Mapped area pages' (ss ++ ⟨q, Q + S, true⟩ :: us) := by
  obtain ⟨hq, hb, hqb, hbu⟩ := h.header_order
  obtain ⟨hle, hle'⟩ := header_pages hb
  obtain ⟨hstart, hend⟩ := freePages_iff h
  have hshared := fun i (hlo : startPage area b ≤ i) (hhi : i ≤ endPage area b) =>
    header_shared h hlo hhi (Q + S)
  rw [hflags] at hstart hend
  obtain ⟨fs, fe⟩ := flags
  dsimp only at hstart hend hpages' ⊢
  rw [← hshared _ le_rfl hle] at hstart
  rw [← hshared _ hle le_rfl] at hend
  have hold : ∀ i < area.count, pages i = true ↔ (startPage area b ≤ i ∧ i ≤ endPage area b) ∨
      Covers area i ⟨q, Q + S, true⟩ ∨ ∃ s ∈ ss ++ us, Covers area i s := by
    intro i hi
    have hbself : Covers area i ⟨b, S, true⟩ ↔ startPage area b ≤ i ∧ i ≤ endPage area b := Iff.rfl
    have hqself : Covers area i ⟨q, Q + S, true⟩ ↔ Covers area i ⟨q, Q, true⟩ := Iff.rfl
    have hpair := hm i hi
    rw [show ss ++ ⟨q, Q, true⟩ :: ⟨b, S, true⟩ :: us =
      ss ++ [⟨q, Q, true⟩, ⟨b, S, true⟩] ++ us by simp, exists_middle] at hpair
    rw [hpair, hqself, ← hbself, ← or_assoc]
    simp [or_comm]
  -- the range holds the header's pages that nobody else needs
  have hrange : ∀ i, (fs || fe) = true → ((deleteRange area b (fs, fe)).1 ≤ i ∧
      i < (deleteRange area b (fs, fe)).2 ↔
      (startPage area b ≤ i ∧ i ≤ endPage area b) ∧
        ¬ (Covers area i ⟨q, Q + S, true⟩ ∨ ∃ s ∈ ss ++ us, Covers area i s)) := fun i hany =>
    @deleteRange_iff c area b i fs fe
      (fun i => Covers area i ⟨q, Q + S, true⟩ ∨ ∃ s ∈ ss ++ us, Covers area i s)
      hle hle' hstart hend hany
  constructor
  · intro hany i hlo hhi hi
    exact (hold i hi).mpr (Or.inl ((hrange i hany).mp ⟨hlo, hhi⟩).1)
  · refine mapped_one.mpr fun i hi => ?_
    rw [hpages']
    by_cases hany : (fs || fe) = true
    · rw [if_pos hany, setRange]
      split
      · next hin =>
        exact ⟨fun hfalse => absurd hfalse (by decide),
          fun hcov => absurd hcov ((hrange i hany).mp hin).2⟩
      · next hout =>
        rw [hold i hi]
        refine ⟨fun hcov => hcov.elim (fun hown => ?_) id, Or.inr⟩
        by_contra hnot
        exact hout ((hrange i hany).mpr ⟨hown, hnot⟩)
    · rw [if_neg hany, hold i hi]
      refine ⟨fun hcov => hcov.elim (fun hown => ?_) id, Or.inr⟩
      -- both pages are shared
      obtain ⟨hfs, hfe⟩ : fs = false ∧ fe = false := by simpa using hany
      rw [hfs] at hstart
      rw [hfe] at hend
      have hends : i = startPage area b ∨ i = endPage area b := by omega
      rcases hends with rfl | rfl
      · exact not_not.mp fun hnot => absurd (hstart.mpr hnot) (by decide)
      · exact not_not.mp fun hnot => absurd (hend.mpr hnot) (by decide)

end AudioFlinger.Driver
