import AudioFlinger.Driver.AllocSafety

/-!
# Freeing keeps the buffers regular

While it is merged with its neighbours a freed buffer is in neither tree. Each merge keeps
everything else as it should be, and the buffer is inserted when no neighbour is free.
-/

namespace AudioFlinger.Driver
open Foundation Foundation.SearchTree Foundation.Tile Buffers

variable {c : Platform} {p p' : Buffers c} {as bs : List ℕ} {b q S Q : ℕ} {rb : Rebalancing ℕ}

/-! ## Deleting a header -/

/-- The tiles of two neighbours. -/
theorem Laid.at_pair (h : Laid p.area p.tiles) (hbuffers : p.buffers = as ++ q :: b :: bs) :
    ∃ Q S, At p as q (b :: bs) Q ∧ At p (as ++ [q]) b bs S ∧ b = q + Q ∧
      p.tiles = tilesFrom q p.free as ++
        ⟨q, Q, p.free q⟩ :: ⟨b, S, p.free b⟩ :: tilesFrom p.area.stop p.free bs := by
  obtain ⟨Q, hatq⟩ := h.at_buffer hbuffers
  rw [List.append_cons] at hbuffers
  obtain ⟨S, hatb⟩ := h.at_buffer hbuffers
  have hnext : b = q + Q := hatq.next
  refine ⟨Q, S, hatq, hatb, hnext, ?_⟩
  have hS : bs.head?.getD p.area.stop - b = S := by
    rw [hatb.next, Nat.add_sub_cancel_left]
  rw [hatq.tiles, tilesFrom, hS]

theorem merged_laid {area : Area c} {ss us : List Tile} {f g k : Bool}
    (h : Laid area (ss ++ ⟨q, Q, f⟩ :: ⟨b, S, g⟩ :: us)) :
    Laid area (ss ++ ⟨q, Q + S, k⟩ :: us) := by
  refine ⟨?_, fun t ht => ?_⟩
  · obtain ⟨hss, hb, hus⟩ := tiles_middle.mp h.tiles
    refine tiles_middle.mpr ⟨hss, ?_⟩
    simp only [Tile.stop] at hb hus ⊢
    rwa [hb, Nat.add_assoc] at hus
  · rcases List.mem_append.mp ht with ht | ht
    · exact h.room t (by simp [ht])
    · rcases List.mem_cons.mp ht with rfl | ht
      · have hroom := h.room ⟨q, Q, f⟩ (by simp)
        simp only at hroom ⊢
        omega
      · exact h.room t (by simp [ht])

/-- The addresses of the pages that are given back. -/
theorem deleteRange_start {area : Area c} {flags : Bool × Bool} (h : area.buffer ≤ b) :
    (if flags.1 then buffer_start_page c b else buffer_end_page c b) =
      area.page (deleteRange area b flags).1 := by
  rw [buffer_start_page_eq h, buffer_end_page_eq h, deleteRange]
  dsimp only
  split <;> rfl

theorem deleteRange_stop {area : Area c} {flags : Bool × Bool} (h : area.buffer ≤ b) :
    (if flags.2 then buffer_end_page c b else buffer_start_page c b) + c.PAGE_SIZE =
      area.page (deleteRange area b flags).2 := by
  rw [buffer_start_page_eq h, buffer_end_page_eq h, deleteRange]
  dsimp only
  rw [← page_succ]
  split <;> rfl

/-- A header ends before the area does. -/
theorem Laid.endPage_lt {area : Area c} {ss us : List Tile} {f : Bool}
    (h : Laid area (ss ++ ⟨b, S, f⟩ :: us)) : endPage area b < area.count := by
  have hroom : c.sizeofBuffer ≤ S := h.room ⟨b, S, f⟩ (by simp)
  have hin := h.tiles.inside (t := ⟨b, S, f⟩) (by simp)
  have hpos := sizeofBuffer_pos c
  simp only [Tile.stop] at hin
  rw [endPage, ← not_le, le_index_iff (by rw [Platform.data]; lia), ← stop_eq_page]
  rw [Platform.data]
  lia

theorem delete_eq (h : Laid p.area p.tiles) (hm : Mapped p.area p.pages p.tiles)
    (hbuffers : p.buffers = as ++ q :: b :: bs) (hq : p.free q = true) (hb : p.free b = true)
    (kernel : Kernel) :
    ∃ pages, p.binder_delete_free_buffer kernel b =
        some { p with buffers := as ++ q :: bs, pages := pages } ∧
      Laid p.area (tilesFrom p.area.stop p.free (as ++ q :: bs)) ∧
      Mapped p.area pages (tilesFrom p.area.stop p.free (as ++ q :: bs)) := by
  obtain ⟨Q, S, hatq, hatb, rfl, htiles⟩ := h.at_pair hbuffers
  have hnew : tilesFrom p.area.stop p.free (as ++ q :: bs) =
      tilesFrom q p.free as ++ ⟨q, Q + S, true⟩ :: tilesFrom p.area.stop p.free bs := by
    rw [tilesFrom_append, tilesFrom, hatb.next, hq, List.head?_cons, Option.getD_some]
    congr 3
    omega
  rw [htiles, hq, hb] at h hm
  have hheads : (tilesFrom p.area.stop p.free bs).head?.map Tile.start = bs.head? :=
    head?_tilesFrom
  have herase : p.buffers.erase (q + Q) = as ++ q :: bs := by
    rw [hatb.erase_eq, List.append_assoc, List.singleton_append]
  have hlaid : Laid p.area
      (tilesFrom q p.free as ++ ⟨q, Q + S, true⟩ :: tilesFrom p.area.stop p.free bs) :=
    merged_laid h
  have hflags : freePages c q (q + Q) (bs.head?) = freePages c q (q + Q)
      ((tilesFrom p.area.stop p.free bs).head?.map Tile.start) := by
    rw [head?_tilesFrom]
  obtain ⟨hpresent, hmapped⟩ := delete_mapped h hm hflags.symm rfl
  rw [hnew]
  refine ⟨_, ?_, hlaid, hmapped⟩
  have hqfree : (p.header q).free = true := hq
  rw [binder_delete_free_buffer, hatb.entryPrev_eq, List.getLast?_concat]
  dsimp only
  rw [if_pos hqfree, hatb.entryNext_eq, herase]
  set flags := freePages c q (q + Q) bs.head?
  by_cases hany : (flags.1 || flags.2) = true
  · have hbuf : p.area.buffer ≤ q + Q := h.header_order.2.1
    have hend : endPage p.area (q + Q) < p.area.count := by
      rw [List.append_cons] at h
      exact h.endPage_lt
    have hcount : (deleteRange p.area (q + Q) flags).2 ≤ p.area.count := by
      have hle := (header_pages hbuf).1
      rw [deleteRange]
      dsimp only
      split <;> omega
    obtain ⟨ok, hok⟩ := @update_free c p.area p.pages _ _ p.vma kernel hcount
      fun i hlo hhi => hpresent hany i hlo hhi (hhi.trans_le hcount)
    rw [if_pos hany, if_pos hany, update_page_range, deleteRange_start hbuf, deleteRange_stop hbuf,
      hok]
    rfl
  · rw [if_neg hany, if_neg hany]

/-! ## Merging with the neighbours -/

/-- The buffer `b` between `as` and `bs` is free and in neither tree; on both sides all is as it
should be. -/
structure Loose (p : Buffers c) (as : List ℕ) (b : ℕ) (bs : List ℕ) : Prop where
  buffers : p.buffers = as ++ b :: bs
  free : p.free b = true
  laid : Laid p.area p.tiles
  mapped : Mapped p.area p.pages p.tiles
  freeTree : (toList p.free_buffers).Perm
    (as.filter (fun x => p.free x) ++ bs.filter (fun x => p.free x))
  allocatedTree : (toList p.allocated_buffers).Perm
    (as.filter (fun x => !p.free x) ++ bs.filter (fun x => !p.free x))
  left : Coalesced (tilesFrom b p.free as)
  right : Coalesced (tilesFrom p.area.stop p.free bs)
  fits : ∀ t ∈ tilesFrom b p.free as ++ tilesFrom p.area.stop p.free bs, Fits p t
  async : p.free_async_space + (charges p (tilesFrom b p.free as) +
    charges p (tilesFrom p.area.stop p.free bs)) = p.area.buffer_size / 2

/-- What merging does not touch. -/
structure Merged (p p' : Buffers c) : Prop where
  area : p'.area = p.area
  header : p'.header = p.header
  used : ∀ x, (x ∈ p'.buffers ∧ p'.free x = false) ↔ (x ∈ p.buffers ∧ p.free x = false)

theorem Merged.rfl : Merged p p := ⟨by rfl, by rfl, fun _ => Iff.rfl⟩

theorem Merged.trans {p'' : Buffers c} (h : Merged p p') (h' : Merged p' p'') : Merged p p'' :=
  ⟨h'.area.trans h.area, h'.header.trans h.header, fun x => (h'.used x).trans (h.used x)⟩

/-- The tiles before a buffer do not depend on where the last of them ends. -/
theorem coalesced_tilesFrom {x : ℕ} {f : ℕ → Bool} :
    Coalesced (tilesFrom x f bs) ↔ bs.IsChain fun a b => ¬ (f a = true ∧ f b = true) := by
  induction bs with
  | nil => simp [tilesFrom, Coalesced]
  | cons b bs ih =>
    rw [tilesFrom, coalesced_cons, ih, List.isChain_cons]
    refine and_congr_left' ?_
    cases bs <;> simp [tilesFrom]

theorem perm_erase_filter {t : BinaryTree ℕ} {f : ℕ → Bool}
    (h : (toList t).Perm (as.filter f ++ (b :: bs).filter f)) (hb : f b = true) (hnot : b ∉ as) :
    (toList (rb.erase b t)).Perm (as.filter f ++ bs.filter f) := by
  have hmem : b ∉ as.filter f := fun hmem => hnot (List.mem_of_mem_filter hmem)
  have herase := h.erase b
  rw [List.filter_cons_of_pos hb, List.erase_append_right _ hmem, List.erase_cons_head] at herase
  rwa [rb.erase_toList]

/-- A free buffer may go without a change to those in use. -/
theorem used_without (hbuffers : p.buffers = as ++ b :: bs) (hb : p.free b = true) (x : ℕ) :
    (x ∈ as ++ bs ∧ p.free x = false) ↔ (x ∈ p.buffers ∧ p.free x = false) := by
  rw [hbuffers]
  refine and_congr_left fun hx => ?_
  have hne : x ≠ b := by
    rintro rfl
    rw [hb] at hx
    cases hx
  simp [hne]

theorem mergeNext_loose (h : Loose p as b bs) (rb : Rebalancing ℕ) (kernel : Kernel) :
    ∃ p' bs', p.mergeNext rb kernel b = some p' ∧ Loose p' as b bs' ∧ Merged p p' ∧
      ∀ n ∈ bs'.head?, p'.free n = false := by
  obtain ⟨S, hat⟩ := h.laid.at_buffer h.buffers
  rw [mergeNext, hat.entryNext_eq]
  cases bs with
  | nil => exact ⟨p, [], rfl, h, Merged.rfl, by simp⟩
  | cons n bs =>
    dsimp only [List.head?_cons]
    by_cases hn : (p.header n).free = true
    · rw [if_pos hn]
      have hnfree : p.free n = true := hn
      have hbuffers := h.buffers
      obtain ⟨pages, hdelete, hlaid, hmapped⟩ := @delete_eq c
        { p with free_buffers := rb.erase n p.free_buffers } as bs n b h.laid h.mapped hbuffers
        h.free hn kernel
      have hright := coalesced_tilesFrom.mp h.right
      rw [List.isChain_cons] at hright
      have hallocated := h.allocatedTree
      rw [List.filter_cons_of_neg (by simp [hnfree])] at hallocated
      have hasync := h.async
      rw [tilesFrom, charges_cons] at hasync
      have hzero : ∀ S, charge p ⟨n, S, p.free n⟩ = 0 := fun S => by simp [charge, hnfree]
      rw [hzero, Nat.zero_add] at hasync
      have hnot : n ∉ as := fun hmem => by
        have hlt := hat.before n hmem
        have hle := hat.behind n List.mem_cons_self
        omega
      refine ⟨_, bs, hdelete, ⟨rfl, h.free, hlaid, hmapped, ?_, hallocated, h.left, ?_, ?_, hasync⟩,
        ⟨rfl, rfl, fun x => ?_⟩, fun m hm => ?_⟩
      · exact perm_erase_filter h.freeTree hnfree hnot
      · exact coalesced_tilesFrom.mpr hright.2
      · intro t ht
        refine h.fits t ?_
        rcases List.mem_append.mp ht with ht | ht
        · exact List.mem_append_left _ ht
        · exact List.mem_append_right _ (List.mem_cons_of_mem _ ht)
      · have hused := @used_without c p (as ++ [b]) bs n (by rw [hbuffers, List.append_cons]) hnfree x
        rw [← List.append_cons] at hused
        exact hused
      · exact Bool.eq_false_iff.mpr fun hfree => hright.1 m hm ⟨hnfree, hfree⟩
    · rw [if_neg hn]
      refine ⟨p, n :: bs, rfl, h, Merged.rfl, ?_⟩
      rintro x ⟨rfl⟩
      exact Bool.eq_false_iff.mpr hn

theorem mergePrev_loose (h : Loose p as b bs) (rb : Rebalancing ℕ) (kernel : Kernel) :
    ∃ q p' as', p.mergePrev rb kernel b = some (q, p') ∧ Loose p' as' q bs ∧ Merged p p' ∧
      ∀ m ∈ as'.getLast?, p'.free m = false := by
  obtain ⟨S, hat⟩ := h.laid.at_buffer h.buffers
  rw [mergePrev, hat.entryPrev_eq]
  cases as using List.reverseRecOn with
  | nil => exact ⟨b, p, [], rfl, h, Merged.rfl, by simp⟩
  | append_singleton as q _ =>
    rw [List.getLast?_concat]
    dsimp only
    by_cases hq : (p.header q).free = true
    · rw [if_pos hq]
      have hqfree : p.free q = true := hq
      have hbuffers := h.buffers
      rw [← List.append_cons] at hbuffers
      obtain ⟨pages, hdelete, hlaid, hmapped⟩ :=
        delete_eq h.laid h.mapped hbuffers hq h.free kernel
      rw [hdelete]
      have hleft := coalesced_tilesFrom.mp h.left
      rw [List.isChain_append] at hleft
      have hallocated := h.allocatedTree
      rw [List.filter_append, List.filter_singleton, hqfree, Bool.not_true, cond_false,
        List.append_nil] at hallocated
      have hfrees : (toList p.free_buffers).Perm
          (as.filter (fun x => p.free x) ++ (q :: bs).filter fun x => p.free x) := by
        have hperm := h.freeTree
        rw [List.filter_append, List.filter_singleton, hqfree, List.append_assoc] at hperm
        rwa [List.filter_cons_of_pos hqfree]
      have hsplit : tilesFrom b p.free (as ++ [q]) =
          tilesFrom q p.free as ++ [⟨q, b - q, true⟩] := by
        rw [tilesFrom_append, tilesFrom, hqfree]
        rfl
      have hasync := h.async
      have hzero : charges p [⟨q, b - q, true⟩] = 0 := rfl
      rw [hsplit, charges_append, hzero, Nat.add_zero] at hasync
      have hnot : q ∉ as := fun hmem => by
        obtain ⟨Q, hatq⟩ := h.laid.at_buffer hbuffers
        exact hatq.not_mem_left hmem
      refine ⟨q, _, as, rfl, ⟨rfl, hqfree, hlaid, hmapped, ?_, hallocated, ?_, h.right, ?_, hasync⟩,
        ⟨rfl, rfl, fun x => ?_⟩, fun m hm => ?_⟩
      · exact perm_erase_filter hfrees hqfree hnot
      · exact coalesced_tilesFrom.mpr hleft.1
      · intro t ht
        refine h.fits t ?_
        rw [hsplit]
        rcases List.mem_append.mp ht with ht | ht
        · exact List.mem_append_left _ (List.mem_append_left _ ht)
        · exact List.mem_append_right _ ht
      · have hused := @used_without c p (as ++ [q]) bs b h.buffers h.free x
        rw [← List.append_cons] at hused
        exact hused
      · exact Bool.eq_false_iff.mpr fun hfree => hleft.2.2 m hm q rfl ⟨hfree, hqfree⟩
    · rw [if_neg hq]
      refine ⟨b, p, as ++ [q], rfl, h, Merged.rfl, ?_⟩
      rw [List.getLast?_concat]
      rintro x ⟨rfl⟩
      exact Bool.eq_false_iff.mpr hq

theorem Loose.tiles_eq (h : Loose p as b bs) : ∃ S, At p as b bs S ∧
    p.tiles = tilesFrom b p.free as ++ ⟨b, S, true⟩ :: tilesFrom p.area.stop p.free bs := by
  obtain ⟨S, hat⟩ := h.laid.at_buffer h.buffers
  refine ⟨S, hat, ?_⟩
  rw [hat.tiles, h.free]

/-- Between buffers in use a loose buffer is inserted. -/
theorem insert_regular (h : Loose p as b bs) (rb : Rebalancing ℕ)
    (hlast : ∀ m ∈ as.getLast?, p.free m = false) (hhead : ∀ n ∈ bs.head?, p.free n = false) :
    ∃ p', p.binder_insert_free_buffer rb b = some p' ∧ Regular p' ∧ Merged p p' := by
  obtain ⟨S, hat, htiles⟩ := h.tiles_eq
  have hall : ∀ x ∈ toList p.free_buffers, p.free x = true := by
    intro x hx
    have hmem := h.freeTree.mem_iff.mp hx
    rw [← List.filter_append, List.mem_filter] at hmem
    exact hmem.2
  obtain ⟨t, ht, hperm⟩ := @insert_free_eq c p b rb h.free hall
  refine ⟨_, ht, ⟨h.laid, ?_, ⟨?_, ?_⟩, h.mapped, ?_, ?_⟩, ⟨rfl, rfl, fun _ => Iff.rfl⟩⟩
  · change Coalesced p.tiles
    rw [htiles, coalesced_middle]
    refine ⟨h.left, h.right, fun _ => ⟨fun s hs hfree => ?_, fun u hu hfree => ?_⟩⟩
    · obtain ⟨hstart, hsfree⟩ := mem_tilesFrom (List.mem_of_getLast? hs)
      have hmem : s.start ∈ as.getLast? := by
        rw [← map_start_tilesFrom b p.free as, List.getLast?_map, hs]
        rfl
      rw [hsfree, hlast _ hmem] at hfree
      cases hfree
    · obtain ⟨-, hufree⟩ := mem_tilesFrom (List.mem_of_head? hu)
      have hmem : u.start ∈ bs.head? := by
        rw [← @head?_tilesFrom bs p.area.stop p.free, hu]
        rfl
      rw [hufree, hhead _ hmem] at hfree
      cases hfree
  · change (toList t).Perm (p.buffers.filter fun x => p.free x)
    rw [h.buffers, ← List.singleton_append, filter_split fun _ _ => rfl, List.filter_singleton,
      h.free, cond_true, List.singleton_append]
    exact (hperm.trans (h.freeTree.cons b)).trans List.perm_middle.symm
  · change (toList p.allocated_buffers).Perm (p.buffers.filter fun x => !p.free x)
    rw [h.buffers, ← List.singleton_append, filter_split fun _ _ => rfl, List.filter_singleton,
      h.free, Bool.not_true, cond_false, List.nil_append]
    exact h.allocatedTree
  · change ∀ s ∈ p.tiles, Fits p s
    rw [htiles]
    intro s hs
    rcases List.mem_append.mp hs with hs | hs
    · exact h.fits s (List.mem_append_left _ hs)
    · rcases List.mem_cons.mp hs with rfl | hs
      · intro hfalse
        cases hfalse
      · exact h.fits s (List.mem_append_right _ hs)
  · change p.free_async_space + charges p p.tiles = p.area.buffer_size / 2
    have hzero : charge p ⟨b, S, true⟩ = 0 := rfl
    rw [htiles, charges_append, charges_cons, hzero, Nat.zero_add]
    exact h.async

/-! ## Freeing -/

/-- What freeing the buffer `b` leaves. -/
structure Freed (p p' : Buffers c) (b : ℕ) : Prop where
  regular : Regular p'
  area : p'.area = p.area
  used : ∀ x, (x ∈ p'.buffers ∧ p'.free x = false) ↔ (x ∈ p.buffers ∧ p.free x = false) ∧ x ≠ b
  kept : ∀ x, x ≠ b → p'.header x = p.header x

/-- The buffer `b` is out of its tree and marked free, and its pages are given back. -/
structure Unlinked (p p' : Buffers c) (rb : Rebalancing ℕ) (b S : ℕ) : Prop where
  area : p'.area = p.area
  buffers : p'.buffers = p.buffers
  pages : p'.pages = setRange p.pages (firstPage p.area b) (p.area.index (b + S)) false
  freeTree : p'.free_buffers = p.free_buffers
  allocatedTree : p'.allocated_buffers = rb.erase b p.allocated_buffers
  free : p'.free b = true
  kept : ∀ x, x ≠ b → p'.header x = p.header x
  async : p'.free_async_space = p.free_async_space + charge p ⟨b, S, false⟩

/-- The state from which the merging starts. -/
def unlinked (p : Buffers c) (rb : Rebalancing ℕ) (b S : ℕ) : Buffers c :=
  setHeader
    { p with
      free_async_space := p.free_async_space + charge p ⟨b, S, false⟩
      pages := setRange p.pages (firstPage p.area b) (p.area.index (b + S)) false
      allocated_buffers := rb.erase b p.allocated_buffers } b fun h => { h with free := true }

theorem unlinked_eq (p : Buffers c) (rb : Rebalancing ℕ) (b S : ℕ) :
    Unlinked p (unlinked p rb b S) rb b S :=
  ⟨rfl, rfl, rfl, rfl, rfl, setHeader_free_self _, fun _ hx => setHeader_header_of_ne _ hx, rfl⟩

/-- The buffers in use after one was unlinked. -/
theorem Unlinked.used (hu : Unlinked p p' rb b S) (x : ℕ) :
    (x ∈ p'.buffers ∧ p'.free x = false) ↔ (x ∈ p.buffers ∧ p.free x = false) ∧ x ≠ b := by
  rw [hu.buffers]
  by_cases hx : x = b
  · subst hx
    simp [hu.free]
  · rw [Buffers.free, hu.kept x hx, ← Buffers.free]
    simp [hx]

theorem unlinked_loose (h : Regular p) (hat : At p as b bs S) (hb : p.free b = false)
    (hu : Unlinked p p' rb b S) : Loose p' as b bs := by
  have hne : ∀ x ∈ as ++ bs, x ≠ b := by
    rintro x hx rfl
    exact (List.mem_append.mp hx).elim hat.not_mem_left hat.not_mem_right
  have hfree : ∀ x ∈ as ++ bs, p'.free x = p.free x := fun x hx => by
    rw [Buffers.free, hu.kept x (hne x hx), Buffers.free]
  have hfreeL : ∀ x ∈ as, p'.free x = p.free x := fun x hx =>
    hfree x (List.mem_append_left _ hx)
  have hfreeR : ∀ x ∈ bs, p'.free x = p.free x := fun x hx =>
    hfree x (List.mem_append_right _ hx)
  have hss : tilesFrom b p'.free as = tilesFrom b p.free as := tilesFrom_congr hfreeL
  have hus : tilesFrom p'.area.stop p'.free bs = tilesFrom p.area.stop p.free bs := by
    rw [hu.area]
    exact tilesFrom_congr hfreeR
  have hS : bs.head?.getD p.area.stop - b = S := by
    rw [hat.next, Nat.add_sub_cancel_left]
  have htiles : p'.tiles = tilesFrom b p.free as ++ ⟨b, S, true⟩ ::
      tilesFrom p.area.stop p.free bs := by
    rw [Buffers.tiles, hu.buffers, hat.buffers, tilesFrom_append, tilesFrom, List.head?_cons,
      Option.getD_some, hss, hus, hu.free, hu.area, hS]
  have hheader : ∀ t ∈ tilesFrom b p.free as ++ tilesFrom p.area.stop p.free bs,
      p'.header t.start = p.header t.start := by
    intro t ht
    refine hu.kept t.start (hne t.start ?_)
    rcases List.mem_append.mp ht with ht | ht
    · exact List.mem_append_left _ (mem_tilesFrom ht).1
    · exact List.mem_append_right _ (mem_tilesFrom ht).1
  have hlaid := h.laid
  have hmapped := h.mapped
  have hcoal := h.coalesced
  have hasync := h.async
  rw [hat.tiles, hb] at hlaid hmapped hcoal hasync
  rw [coalesced_middle] at hcoal
  rw [charges_append, charges_cons] at hasync
  have hfrees := h.indexed.free
  have hallocs := h.indexed.allocated
  rw [hat.buffers, ← List.singleton_append, filter_split fun _ _ => rfl, List.filter_singleton, hb]
    at hfrees hallocs
  refine ⟨hu.buffers.trans hat.buffers, hu.free, ?_, ?_, ?_, ?_, ?_, ?_, ?_, ?_⟩
  · rw [htiles, hu.area]
    refine ⟨?_, fun t ht => ?_⟩
    · obtain ⟨hleft, hright⟩ := tiles_middle.mp hlaid.tiles
      exact tiles_middle.mpr ⟨hleft, hright⟩
    · rcases List.mem_append.mp ht with ht | ht
      · exact hlaid.room t (by simp [ht])
      · rcases List.mem_cons.mp ht with rfl | ht
        · exact hat.room
        · exact hlaid.room t (by simp [ht])
  · rw [htiles, hu.area, hu.pages]
    exact (free_mapped hlaid hmapped).2
  · rw [hu.freeTree, List.filter_congr hfreeL, List.filter_congr hfreeR]
    exact hfrees
  · rw [hu.allocatedTree, List.filter_congr fun x hx => congrArg not (hfreeL x hx),
      List.filter_congr fun x hx => congrArg not (hfreeR x hx)]
    refine perm_erase_filter ?_ (by simp [hb]) hat.not_mem_left
    rw [List.filter_cons_of_pos (by simp [hb])]
    exact hallocs
  · rw [hss]
    exact hcoal.1
  · rw [hus]
    exact hcoal.2.1
  · rw [hss, hus]
    intro t ht hused
    rw [hheader t ht]
    refine h.fits t ?_ hused
    rw [hat.tiles]
    rcases List.mem_append.mp ht with ht | ht <;> simp [ht]
  · rw [hss, hus, charges_congr fun t ht => hheader t (List.mem_append_left _ ht),
      charges_congr fun t ht => hheader t (List.mem_append_right _ ht), hu.async, hu.area]
    lia

theorem binder_free_buf_spec (h : Regular p) (rb : Rebalancing ℕ) (kernel : Kernel)
    (hmem : b ∈ p.buffers) (hb : p.free b = false) :
    ∃ p', p.binder_free_buf rb kernel b = some p' ∧ Freed p p' b := by
  obtain ⟨as, bs, hbuffers⟩ := List.append_of_mem hmem
  obtain ⟨S, hat⟩ := h.laid.at_buffer hbuffers
  have hfull := hat.buffer_size_eq
  have htile : (⟨b, S, p.free b⟩ : Tile) ∈ p.tiles := by simp [hat.tiles]
  obtain ⟨hfit, -⟩ := h.fits _ htile hb
  have hin := h.laid.tiles.inside htile
  simp only [Tile.stop] at hin hfit
  have hsmall := full_size_le h hat
  have hpos := sizeofBuffer_pos c
  have hbuf : p.area.buffer ≤ b := hin.1
  have hdata : c.data b = b + c.sizeofBuffer := rfl
  have hcond : ¬ ((p.header b).free = true ∨ p.binder_buffer_size b <
      c.alignedSize (p.header b).data_size (p.header b).offsets_size ∨ b < p.area.buffer ∨
      p.area.stop < b) := by
    have hheader : (p.header b).free = false := hb
    simp only [Buffer.request] at hfit
    rw [hheader]
    simp
    lia
  have hstart := pageAlign_data hbuf
  have hstop : c.pageMask (c.data b + p.binder_buffer_size b) =
      p.area.page (p.area.index (b + S)) := by
    rw [hdata, Nat.add_assoc, Nat.add_comm c.sizeofBuffer, hfull]
    exact pageMask_eq (by lia)
  have hlaid := h.laid
  have hmapped := h.mapped
  rw [hat.tiles, hb] at hlaid hmapped
  obtain ⟨ok, hok⟩ := @update_free c p.area p.pages _ _ p.vma kernel hlaid.stop_index_le
    (free_mapped hlaid hmapped).1
  rw [binder_free_buf]
  dsimp only
  rw [if_neg hcond, hstart, hstop]
  have hspace : (if (p.header b).async_transaction then
      { p with free_async_space := c.word (p.free_async_space +
        (c.alignedSize (p.header b).data_size (p.header b).offsets_size + c.sizeofBuffer)) }
      else p) = { p with free_async_space := p.free_async_space + charge p ⟨b, S, false⟩ } := by
    have hasync := h.async
    have hsize := p.area.size_le
    have hword := wordBits_ge c
    rw [← Area.buffer_size] at hsize
    rw [hat.tiles, hb, charges_append, charges_cons] at hasync
    rw [charge]
    dsimp only
    by_cases ha : (p.header b).async_transaction = true
    · rw [if_pos ha, if_pos ⟨rfl, ha⟩, ← Buffer.request, Platform.word, Nat.mod_eq_of_lt]
      rw [charge] at hasync
      dsimp only at hasync
      rw [if_pos ⟨rfl, ha⟩] at hasync
      lia
    · rw [if_neg ha, if_neg fun hand => ha hand.2, Nat.add_zero]
  rw [hspace]
  simp only [Tile.stop] at hok
  simp only [Option.bind_eq_bind, update_page_range, hok, Option.map_some, Option.bind_some]
  -- the buffer is unlinked, merged on both sides, and inserted
  have hunlinked := unlinked_loose h hat hb (unlinked_eq p rb b S)
  obtain ⟨p₂, bs₂, hnext, hloose₂, hmerged₂, hhead⟩ := mergeNext_loose hunlinked rb kernel
  obtain ⟨q, p₃, as₃, hprev, hloose₃, hmerged₃, hlast⟩ := mergePrev_loose hloose₂ rb kernel
  have hhead₃ : ∀ n ∈ bs₂.head?, p₃.free n = false := by
    intro n hn
    rw [Buffers.free, hmerged₃.header]
    exact hhead n hn
  obtain ⟨p₄, hinsert, hregular, hmerged₄⟩ := insert_regular hloose₃ rb hlast hhead₃
  have hmerged := (hmerged₂.trans hmerged₃).trans hmerged₄
  refine ⟨p₄, ?_, hregular, hmerged.area, fun x => ?_, fun x hx => ?_⟩
  · rw [unlinked] at hnext
    rw [hnext, Option.bind_some, hprev, Option.bind_some, hinsert]
  · rw [hmerged.used x]
    exact (unlinked_eq p rb b S).used x
  · rw [hmerged.header]
    exact (unlinked_eq p rb b S).kept x hx

end AudioFlinger.Driver
