import AudioFlinger.Driver.Allocation

/-!
# Allocation keeps the buffers regular

The buffers tile the area, no two neighbours are free, the trees and the pages match them,
each allocated buffer has the room it was asked for, and the space for asynchronous
transactions is accounted for.
-/

namespace AudioFlinger.Driver
open Foundation Foundation.SearchTree Foundation.Tile Buffers

variable {c : Platform} {p p' : Buffers c} {as bs : List ℕ} {b size S d o : ℕ}
  {ss ts us : List Tile} {rb : Rebalancing ℕ}

/-! ## Sizes -/

/-- `n` rounded up to a multiple of the pointer size, as a number. -/
def Platform.roundUp (c : Platform) (n : ℕ) : ℕ :=
  (n + c.sizeofPointer - 1) / c.sizeofPointer * c.sizeofPointer

/-- A size that passes the check of `binder_alloc_buf` has not wrapped. -/
theorem alignedSize_eq (hd : d < 2 ^ c.wordBits) (ho : o < 2 ^ c.wordBits)
    (hdle : d ≤ c.alignedSize d o) (hole : o ≤ c.alignedSize d o) :
    c.alignedSize d o = c.roundUp d + c.roundUp o := by
  obtain ⟨wide, shift, hshift⟩ := c
  cases wide <;>
    simp only [Platform.alignedSize, Platform.align, Platform.word, Platform.roundUp,
      Platform.wordBits, Platform.sizeofPointer, if_true, Bool.false_eq_true, if_false] at *
  · omega
  · omega

theorem wordBits_ge (c : Platform) : 2 ^ 32 ≤ 2 ^ c.wordBits := by
  apply Nat.pow_le_pow_right Nat.two_pos
  rw [Platform.wordBits]
  split <;> decide

/-! ## The invariant -/

/-- What the header of an allocated buffer asks for. -/
def Buffer.request (c : Platform) (h : Buffer) : ℕ := c.alignedSize h.data_size h.offsets_size

/-- What a buffer takes of the space for asynchronous transactions. -/
def charge (p : Buffers c) (t : Tile) : ℕ :=
  if t.free = false ∧ (p.header t.start).async_transaction then
    (p.header t.start).request c + c.sizeofBuffer else 0

def charges (p : Buffers c) (ts : List Tile) : ℕ := (ts.map (charge p)).sum

/-- An allocated buffer has room for what was asked for, and the sum has not wrapped. -/
def Fits (p : Buffers c) (t : Tile) : Prop :=
  t.free = false → c.sizeofBuffer + (p.header t.start).request c ≤ t.size ∧
    (p.header t.start).request c =
      c.roundUp (p.header t.start).data_size + c.roundUp (p.header t.start).offsets_size

structure Regular (p : Buffers c) : Prop where
  laid : Laid p.area p.tiles
  coalesced : Coalesced p.tiles
  indexed : Indexed p
  mapped : Mapped p.area p.pages p.tiles
  fits : ∀ t ∈ p.tiles, Fits p t
  async : p.free_async_space + charges p p.tiles = p.area.buffer_size / 2

theorem charges_append : charges p (ss ++ ts) = charges p ss + charges p ts := by
  simp [charges]

theorem charges_cons {t : Tile} : charges p (t :: ts) = charge p t + charges p ts := by
  simp [charges]

theorem charges_congr (h : ∀ t ∈ ts, p'.header t.start = p.header t.start) :
    charges p' ts = charges p ts := by
  rw [charges, charges]
  refine congrArg List.sum (List.map_congr_left fun t ht => ?_)
  rw [charge, charge, h t ht]

/-! ## The tiles of a buffer that was taken -/

/-- The tiles that take the place of a free one. -/
def takenTiles (c : Platform) (b S size : ℕ) (split : Bool) : List Tile :=
  if split then
    [⟨b, c.sizeofBuffer + size, false⟩,
      ⟨b + (c.sizeofBuffer + size), S - (c.sizeofBuffer + size), true⟩]
  else [⟨b, S, false⟩]

theorem Took.tiles_eq {split : Bool} {data_size offsets_size : ℕ} {is_async : Bool}
    (h : At p as b bs S) (ht : Took p p' as b bs size split data_size offsets_size is_async) :
    p'.tiles = tilesFrom b p.free as ++ takenTiles c b S size split ++
      tilesFrom p.area.stop p.free bs := by
  have hfree : ∀ x ∈ as ++ bs, p'.free x = p.free x := fun x hx => by
    rw [Buffers.free, ht.kept x hx, Buffers.free]
  have hb : p'.free b = false := by
    rw [Buffers.free, ht.taken]
  have hss : tilesFrom b p'.free as = tilesFrom b p.free as :=
    tilesFrom_congr fun x hx => hfree x (List.mem_append_left _ hx)
  have hus : tilesFrom p.area.stop p'.free bs = tilesFrom p.area.stop p.free bs :=
    tilesFrom_congr fun x hx => hfree x (List.mem_append_right _ hx)
  rw [Buffers.tiles, ht.area, ht.buffers, List.append_assoc, List.cons_append, tilesFrom_append,
    List.append_assoc]
  cases split with
  | false =>
    simp only [Bool.false_eq_true, if_false, List.nil_append, List.head?_cons, Option.getD_some,
      tilesFrom, takenTiles, List.singleton_append]
    rw [hss, hus, hb, h.next, Nat.add_sub_cancel_left]
  | true =>
    have hrest := ht.rest rfl
    simp only [if_true, List.head?_cons, Option.getD_some, tilesFrom, takenTiles,
      List.cons_append, List.nil_append]
    rw [hss, hus, hb, hrest, h.next]
    simp only [Platform.data]
    have h1 : b + c.sizeofBuffer + size - b = c.sizeofBuffer + size := by omega
    have h2 : b + S - (b + c.sizeofBuffer + size) = S - (c.sizeofBuffer + size) := by omega
    rw [h1, h2, Nat.add_assoc]

/-- What the search promises of the buffer it found. -/
def Found (size full_size : ℕ) (exact : Bool) : Prop :=
  if exact then full_size = size else size < full_size

theorem found_split {full_size : ℕ} {exact : Bool} (hfound : Found size full_size exact) :
    size ≤ full_size ∧ (allocSize c size full_size exact = size ∧
        (full_size = size ∨ full_size ≤ size + c.sizeofBuffer + 4) ∨
      allocSize c size full_size exact = size + c.sizeofBuffer ∧
        size + c.sizeofBuffer + 4 < full_size) := by
  cases exact with
  | true =>
    have heq : full_size = size := hfound
    exact ⟨heq.ge, Or.inl ⟨heq, Or.inl heq⟩⟩
  | false =>
    have hlt : size < full_size := hfound
    refine ⟨hlt.le, ?_⟩
    rw [allocSize, if_neg (by decide)]
    split
    · next hle => exact Or.inl ⟨rfl, Or.inr hle⟩
    · next hle => exact Or.inr ⟨rfl, by omega⟩

theorem takenTiles_laid {area : Area c} {split f : Bool} (h : Laid area (ss ++ ⟨b, S, f⟩ :: us))
    (hsplit : split = true → c.sizeofBuffer + (c.sizeofBuffer + size) ≤ S) :
    Laid area (ss ++ takenTiles c b S size split ++ us) := by
  have hroom : c.sizeofBuffer ≤ S := h.room ⟨b, S, f⟩ (by simp)
  have htiles := h.tiles
  rw [← List.singleton_append] at htiles
  refine ⟨?_, fun t ht => ?_⟩
  · rw [List.append_assoc]
    refine htiles.replace fun x y hxy => ?_
    obtain ⟨hx, hy⟩ := hxy
    simp only [Tile.stop, tiles_nil] at hx hy
    rw [takenTiles]
    split
    · next hs =>
      have hle := hsplit hs
      simp only [tiles_cons, tiles_nil, Tile.stop]
      exact ⟨hx, trivial, by omega⟩
    · simp only [tiles_cons, tiles_nil, Tile.stop]
      omega
  · rcases List.mem_append.mp ht with ht | ht
    · rcases List.mem_append.mp ht with ht | ht
      · exact h.room t (by simp [ht])
      · rw [takenTiles] at ht
        split at ht
        · next hs =>
          have hle := hsplit hs
          rcases List.mem_cons.mp ht with rfl | ht
          · simp
          · rw [List.mem_singleton.mp ht]
            simp only
            omega
        · rw [List.mem_singleton.mp ht]
          exact hroom
    · exact h.room t (by simp [ht])

theorem takenTiles_coalesced {split : Bool} (h : Coalesced (ss ++ ⟨b, S, true⟩ :: us)) :
    Coalesced (ss ++ takenTiles c b S size split ++ us) := by
  rw [coalesced_middle] at h
  obtain ⟨hss, hus, hends⟩ := h
  obtain ⟨-, hhead⟩ := hends rfl
  rw [takenTiles, List.append_assoc]
  split
  · rw [List.cons_append, coalesced_middle, List.singleton_append, coalesced_cons]
    exact ⟨hss, ⟨fun u hu hfree => hhead u hu hfree.2, hus⟩, fun hfalse => by cases hfalse⟩
  · rw [List.singleton_append, coalesced_middle]
    exact ⟨hss, hus, fun hfalse => by cases hfalse⟩

/-- The pages that the new tiles need. -/
theorem takenTiles_covers {area : Area c} {split : Bool} (hb : area.buffer ≤ b) (i : ℕ) :
    (∃ t ∈ takenTiles c b S size split, Covers area i t) ↔ area.index b ≤ i ∧
      i ≤ area.index ((if split then c.data b + size + c.sizeofBuffer else b + S) - 1) := by
  have hpos := sizeofBuffer_pos c
  rw [takenTiles]
  cases split with
  | false => simp [Covers, extent, Tile.stop]
  | true =>
    simp only [if_true, List.mem_cons, List.not_mem_nil, or_false, exists_eq_or_imp,
      exists_eq_left, Covers, extent, Tile.stop, Bool.false_eq_true, if_false, Platform.data]
    have h1 : area.index (b + (c.sizeofBuffer + size) - 1) ≤
        area.index (b + (c.sizeofBuffer + size)) := index_mono (by omega)
    have h2 : area.index (b + (c.sizeofBuffer + size)) ≤
        area.index (b + (c.sizeofBuffer + size) - 1) + 1 :=
      index_add_le (by omega) (by have := c.page_pos; omega)
    have h3 : area.index (b + (c.sizeofBuffer + size)) ≤
        area.index (b + (c.sizeofBuffer + size) + c.sizeofBuffer - 1) := index_mono (by omega)
    have h4 : area.index b ≤ area.index (b + (c.sizeofBuffer + size)) := index_mono (by omega)
    rw [← Nat.add_assoc b] at *
    omega

/-- Of the new tiles only the taken one is in use. -/
theorem takenTiles_used {split : Bool} {t : Tile} (hroom : c.sizeofBuffer + size ≤ S)
    (ht : t ∈ takenTiles c b S size split) (hused : t.free = false) :
    t.start = b ∧ c.sizeofBuffer + size ≤ t.size := by
  rw [takenTiles] at ht
  split at ht
  · rcases List.mem_cons.mp ht with rfl | ht
    · exact ⟨rfl, le_rfl⟩
    · rw [List.mem_singleton.mp ht] at hused
      cases hused
  · rw [List.mem_singleton.mp ht]
    exact ⟨rfl, hroom⟩

theorem charges_takenTiles {split : Bool} (hsize : (p.header b).request c = size) :
    charges p (takenTiles c b S size split) =
      if (p.header b).async_transaction then size + c.sizeofBuffer else 0 := by
  rw [takenTiles]
  cases split <;> simp [charges, charge, hsize]

/-- The headers of the other buffers are as before. -/
theorem Took.header_eq {split : Bool} {data_size offsets_size : ℕ} {is_async : Bool}
    (ht : Took p p' as b bs size split data_size offsets_size is_async) {f : ℕ → Bool} {x y : ℕ}
    {t : Tile} (hmem : t ∈ tilesFrom x f as ++ tilesFrom y f bs) :
    p'.header t.start = p.header t.start := by
  refine ht.kept t.start ?_
  rcases List.mem_append.mp hmem with hmem | hmem
  · exact List.mem_append_left _ (mem_tilesFrom hmem).1
  · exact List.mem_append_right _ (mem_tilesFrom hmem).1

/-- The pages allocated for a buffer that was found. -/
def foundPages (p : Buffers c) (b S size full_size : ℕ) (exact : Bool) : ℕ :=
  min (p.area.index (c.data b + allocSize c size full_size exact - 1) + 1) (p.area.index (b + S))

/-- They are absent before, and make up what the new tiles need. -/
theorem found_pages {full_size : ℕ} {exact : Bool} (h : Regular p) (hat : At p as b bs S)
    (hfree : p.free b = true) (hfull : full_size + c.sizeofBuffer = S)
    (hfound : Found size full_size exact) :
    (∀ i, firstPage p.area b ≤ i → i < foundPages p b S size full_size exact →
        p.pages i = false) ∧
      Mapped p.area
        (setRange p.pages (firstPage p.area b) (foundPages p b S size full_size exact) true)
        (tilesFrom b p.free as ++
          takenTiles c b S size (decide (allocSize c size full_size exact ≠ size)) ++
          tilesFrom p.area.stop p.free bs) := by
  obtain ⟨hle, hcases⟩ := found_split (c := c) hfound
  have hpos := sizeofBuffer_pos c
  have hpage := c.page_ge
  have hlaid := h.laid
  have hmapped := h.mapped
  rw [hat.tiles, hfree] at hlaid hmapped
  have hdata : c.data b = b + c.sizeofBuffer := rfl
  have hb : p.area.buffer ≤ b := hlaid.start_ge
  refine alloc_mapped hlaid hmapped (Nat.le_add_right _ _) ?_ ?_ ?_
    fun i => takenTiles_covers hb i
  · split
    · next hs =>
      rw [decide_eq_true_iff] at hs
      lia
    · lia
  · split
    · next hs =>
      rw [decide_eq_true_iff] at hs
      lia
    · lia
  · split
    · next hs =>
      rw [decide_eq_true_iff] at hs
      lia
    · next hs =>
      rw [decide_eq_true_iff, not_not] at hs
      lia

/-- A buffer that was found, whose pages were allocated, is taken. -/
theorem took_regular {full_size : ℕ} {exact : Bool} {data_size offsets_size : ℕ} {is_async : Bool}
    (h : Regular p) (hat : At p as b bs S) (hfree : p.free b = true)
    (hfull : full_size + c.sizeofBuffer = S) (hfound : Found size full_size exact)
    (hsize : size = c.alignedSize data_size offsets_size)
    (hexact : size = c.roundUp data_size + c.roundUp offsets_size)
    (hspace : is_async = true → size + c.sizeofBuffer ≤ p.free_async_space)
    {pages : ℕ → Bool} (hpages : pages = setRange p.pages (firstPage p.area b)
      (foundPages p b S size full_size exact) true)
    (ht : Took { p with pages := pages } p' as b bs size
      (decide (allocSize c size full_size exact ≠ size)) data_size offsets_size is_async) :
    Regular p' := by
  obtain ⟨hle, hcases⟩ := found_split (c := c) hfound
  have hmapped := (found_pages h hat hfree hfull hfound).2
  have htiles := ht.tiles_eq (hat.withPages pages)
  change p'.tiles = tilesFrom b p.free as ++ takenTiles c b S size
    (decide (allocSize c size full_size exact ≠ size)) ++ tilesFrom p.area.stop p.free bs at htiles
  have hlaid := h.laid
  have hcoal := h.coalesced
  rw [hat.tiles, hfree] at hlaid hcoal
  have hkept : ∀ t ∈ tilesFrom b p.free as ++ tilesFrom p.area.stop p.free bs,
      p'.header t.start = p.header t.start := fun t hmem => ht.header_eq hmem
  have hhead : (p'.header b).request c = size ∧ p'.header b = ⟨false, is_async, data_size,
      offsets_size⟩ := by
    rw [ht.taken, hsize]
    exact ⟨rfl, rfl⟩
  set split := decide (allocSize c size full_size exact ≠ size) with hsplit
  have hroom : split = true → c.sizeofBuffer + (c.sizeofBuffer + size) ≤ S := by
    intro hs
    rw [hsplit, decide_eq_true_iff] at hs
    lia
  refine ⟨?_, ?_, ht.indexed, ?_, ?_, ?_⟩
  · rw [htiles, ht.area]
    exact takenTiles_laid hlaid hroom
  · rw [htiles]
    exact takenTiles_coalesced hcoal
  · rw [htiles, ht.area, ht.pages, hpages]
    exact hmapped
  · rw [htiles]
    intro t hmem hused
    rcases List.mem_append.mp hmem with hmem | hmem
    · rcases List.mem_append.mp hmem with hmem | hmem
      · rw [hkept t (List.mem_append_left _ hmem)]
        exact h.fits t (by rw [hat.tiles]; simp [hmem]) hused
      · obtain ⟨hstart, hle⟩ := takenTiles_used (by lia) hmem hused
        rw [hstart, hhead.1]
        refine ⟨hle, ?_⟩
        rw [hhead.2]
        exact hexact
    · rw [hkept t (List.mem_append_right _ hmem)]
      exact h.fits t (by rw [hat.tiles]; simp [hmem]) hused
  · have hasync := h.async
    rw [hat.tiles, charges_append, charges_cons] at hasync
    rw [htiles, charges_append, charges_append,
      charges_congr fun t ht => hkept t (List.mem_append_left _ ht),
      charges_congr fun t ht => hkept t (List.mem_append_right _ ht), ht.area, ht.async, charges_takenTiles hhead.1, hhead.2]
    have hzero : charge p ⟨b, S, true⟩ = 0 := rfl
    rw [hfree, hzero] at hasync
    cases is_async with
    | false =>
      simp only [Bool.false_eq_true, if_false]
      lia
    | true =>
      have hle := hspace rfl
      simp only [if_true]
      lia

/-- The buffers in use after one of them was taken. -/
theorem Took.used {split : Bool} {data_size offsets_size : ℕ} {is_async : Bool}
    (hat : At p as b bs S) (hfree : p.free b = true)
    (ht : Took p p' as b bs size split data_size offsets_size is_async) (x : ℕ) :
    (x ∈ p'.buffers ∧ p'.free x = false) ↔ x = b ∨ (x ∈ p.buffers ∧ p.free x = false) := by
  have hkept : ∀ x ∈ as ++ bs, p'.free x = p.free x := fun x hx => by
    rw [Buffers.free, ht.kept x hx, Buffers.free]
  have htaken : p'.free b = false := by
    rw [Buffers.free, ht.taken]
  have hmem' : x ∈ p'.buffers ↔ x = b ∨ x ∈ as ++ bs ∨ split = true ∧ x = c.data b + size := by
    rw [ht.buffers]
    cases split <;> simp <;> tauto
  have hmem : x ∈ p.buffers ↔ x = b ∨ x ∈ as ++ bs := by
    rw [hat.buffers]
    simp
    tauto
  rw [hmem', hmem]
  constructor
  · rintro ⟨rfl | hx | ⟨hs, rfl⟩, hused⟩
    · exact Or.inl rfl
    · exact Or.inr ⟨Or.inr hx, (hkept x hx).symm.trans hused⟩
    · rw [ht.rest hs] at hused
      cases hused
  · rintro (rfl | ⟨rfl | hx, hused⟩)
    · exact ⟨Or.inl rfl, htaken⟩
    · exact ⟨Or.inl rfl, htaken⟩
    · exact ⟨Or.inr (Or.inl hx), (hkept x hx).trans hused⟩

/-- The request fails and changes nothing, or a free buffer is taken. -/
structure Allocated (p p' : Buffers c) (b d o : ℕ) (is_async : Bool) : Prop where
  regular : Regular p'
  area : p'.area = p.area
  free : b ∈ p.buffers ∧ p.free b = true
  header : p'.header b = ⟨false, is_async, d, o⟩
  used : ∀ x, (x ∈ p'.buffers ∧ p'.free x = false) ↔ x = b ∨ (x ∈ p.buffers ∧ p.free x = false)
  kept : ∀ x ∈ p.buffers, x ≠ b → p'.header x = p.header x

theorem full_size_le (h : Regular p) (hat : At p as b bs S) : S ≤ 2 ^ 22 := by
  have hle := (h.laid.tiles.inside (t := ⟨b, S, p.free b⟩) (by simp [hat.tiles]))
  simp only [Tile.stop, Area.stop] at hle
  have hsize := p.area.size_le
  rw [← Area.buffer_size] at hsize
  omega

theorem pageAlign_data {area : Area c} (hb : area.buffer ≤ b) :
    c.pageAlign (c.data b) = area.page (firstPage area b) :=
  pageAlign_eq (by have := sizeofBuffer_pos c; rw [Platform.data]; omega)

theorem allocStop_eq {area : Area c} {full_size buffer_size : ℕ} (hb : area.buffer ≤ b)
    (hfull : full_size + c.sizeofBuffer = S) :
    allocStop c b full_size buffer_size =
      area.page (min (area.index (c.data b + buffer_size - 1) + 1) (area.index (b + S))) := by
  have hpos := sizeofBuffer_pos c
  have hend : c.data b + full_size = b + S := by
    rw [Platform.data]
    omega
  rw [allocStop, hend, @pageMask_eq c area (b + S) (by omega),
    @pageAlign_eq c area (c.data b + buffer_size) (by rw [Platform.data]; omega)]
  split
  · next hlt => rw [min_eq_right (page_lt.mp hlt).le]
  · next hge => rw [min_eq_left (page_le.mp (not_lt.mp hge))]

theorem binder_alloc_buf_spec (h : Regular p) (rb : Rebalancing ℕ) (kernel : Kernel) (hd : d < 2 ^ c.wordBits)
    (ho : o < 2 ^ c.wordBits) (is_async : Bool) :
    p.binder_alloc_buf rb kernel d o is_async = some (none, p) ∨
      ∃ b p', p.binder_alloc_buf rb kernel d o is_async = some (some b, p') ∧
        Allocated p p' b d o is_async := by
  rw [binder_alloc_buf]
  dsimp only
  by_cases hvma : p.vma = false
  · left
    rw [if_pos hvma]
  rw [if_neg hvma]
  by_cases hwrap : c.alignedSize d o < d ∨ c.alignedSize d o < o
  · left
    rw [if_pos hwrap]
  rw [if_neg hwrap]
  rw [not_or, not_lt, not_lt] at hwrap
  by_cases hspace : is_async = true ∧
      p.free_async_space < c.word (c.alignedSize d o + c.sizeofBuffer)
  · left
    rw [if_pos hspace]
  rw [if_neg hspace]
  have hfreeTree : ∀ x ∈ toList p.free_buffers, x ∈ p.buffers ∧ p.free x = true := fun x hx =>
    List.mem_filter.mp (h.indexed.free.mem_iff.mp hx)
  obtain ⟨⟨best_fit, exact⟩, hbest, hspec⟩ :=
    @bestFit_eq c p (c.alignedSize d o) p.free_buffers none fun x hx => (hfreeTree x hx).2
  simp only [hbest, Option.bind_eq_bind, Option.bind_some]
  cases best_fit with
  | none =>
    left
    rfl
  | some b =>
    obtain ⟨hb, hfound⟩ := (hspec b rfl).resolve_right (by simp)
    obtain ⟨hmem, hfree⟩ := hfreeTree b hb
    obtain ⟨as, bs, hbuffers⟩ := List.append_of_mem hmem
    obtain ⟨S, hat⟩ := h.laid.at_buffer hbuffers
    have hfull := hat.buffer_size_eq
    have hfound' : Found (c.alignedSize d o) (p.binder_buffer_size b) exact := hfound
    have hb' : p.area.buffer ≤ b :=
      (h.laid.tiles.inside (t := ⟨b, S, p.free b⟩) (by simp [hat.tiles])).1
    obtain ⟨habsent, -⟩ := found_pages h hat hfree hfull hfound'
    have hcount : foundPages p b S (c.alignedSize d o) (p.binder_buffer_size b) exact ≤
        p.area.count := by
      have hlaid := h.laid
      rw [hat.tiles] at hlaid
      exact (Nat.min_le_right _ _).trans hlaid.stop_index_le
    dsimp only
    rw [update_page_range, pageAlign_data hb', allocStop_eq hb' hfull]
    rcases @update_alloc c p.area p.pages _ _ p.vma kernel hcount habsent with hok | hfail
    · right
      obtain ⟨hle, hcases⟩ := found_split (c := c) hfound'
      have hsplit : allocSize c (c.alignedSize d o) (p.binder_buffer_size b) exact ≠
          c.alignedSize d o → c.sizeofBuffer + c.alignedSize d o < S := fun hne => by lia
      have hat' := hat.withPages (setRange p.pages (firstPage p.area b)
        (foundPages p b S (c.alignedSize d o) (p.binder_buffer_size b) exact) true)
      obtain ⟨p', hp', htook⟩ := takeBuffer_took rb hat' ⟨h.indexed.free, h.indexed.allocated⟩ hfree hsplit d o is_async
      have hlimit : is_async = true →
          c.alignedSize d o + c.sizeofBuffer ≤ p.free_async_space := by
        intro hasync
        have hword := not_lt.mp fun hlt => hspace ⟨hasync, hlt⟩
        have hsmall := full_size_le h hat
        have hbig := wordBits_ge c
        rwa [Platform.word, Nat.mod_eq_of_lt (by lia)] at hword
      rw [foundPages] at hok
      rw [hok]
      refine ⟨b, p', ?_, took_regular h hat hfree hfull hfound' rfl
        (alignedSize_eq hd ho hwrap.1 hwrap.2) hlimit rfl htook, htook.area, ⟨hmem, hfree⟩,
        htook.taken, fun x => htook.used hat' hfree x, fun x hx hne => ?_⟩
      · simp only [Option.map_some, Option.bind_some, if_true]
        rw [foundPages] at hp'
        rw [hp']
        rfl
      · refine htook.kept x ?_
        rw [hat.buffers, List.mem_append, List.mem_cons] at hx
        rw [List.mem_append]
        tauto
    · left
      rw [foundPages] at hfail
      rw [hfail]
      rfl

end AudioFlinger.Driver
