import AudioFlinger.Driver.FreeSafety
import AudioFlinger.Foundation.Machine

/-!
# Runs of the buffer allocator

Transactions allocate buffers, also while pages fail, and live buffers are freed. No check of
the allocator fails, and the buffers are regular in every state.
-/

namespace AudioFlinger.Driver
open Foundation Foundation.SearchTree Foundation.Tile Foundation.Machine Buffers

variable {c : Platform}

/-- The buffers of a process, and those that were returned and not freed yet, with the sizes that
were asked for. -/
structure BufferSession (c : Platform) where
  proc : Buffers c
  live : ℕ → Option (ℕ × ℕ)

/-- Calls, with what the kernel answers during each. Sizes are `size_t`. -/
inductive BufferCall (c : Platform) where
  | alloc (kernel : Kernel) (data_size offsets_size : Fin (2 ^ c.wordBits)) (is_async : Bool)
  | free (kernel : Kernel) (buffer : ℕ)

/-- Only live buffers are freed. A failed check ends the run. -/
def bufferStep (rb : Rebalancing ℕ) (s : BufferSession c) :
    BufferCall c → Option (BufferSession c)
  | .alloc kernel d o is_async =>
    (s.proc.binder_alloc_buf rb kernel d o is_async).map fun r =>
      { proc := r.2
        live := match r.1 with
          | none => s.live
          | some b => Function.update s.live b (some (d, o)) }
  | .free kernel b =>
    if (s.live b).isSome then
      (s.proc.binder_free_buf rb kernel b).map fun p =>
        { proc := p, live := Function.update s.live b none }
    else some s

/-- Page `i` has a byte of the addresses from `lo` to `hi`. -/
def Touches (area : Area c) (i lo hi : ℕ) : Prop :=
  ∃ x, area.page i ≤ x ∧ x < area.page i + c.PAGE_SIZE ∧ lo ≤ x ∧ x < hi

/-- The buffers tile the area, no two neighbours are free, the trees hold the free and the
allocated ones, those are the live ones and have the room that was asked for, and the pages that
are present are those with a part of a header or of an allocated buffer. -/
structure Sound (s : BufferSession c) : Prop where
  tiling : Tiles s.proc.area.buffer s.proc.tiles s.proc.area.stop
  room : ∀ t ∈ s.proc.tiles, c.sizeofBuffer ≤ t.size
  coalesced : Coalesced s.proc.tiles
  free_buffers : (toList s.proc.free_buffers).Perm
    (s.proc.buffers.filter fun b => s.proc.free b)
  allocated_buffers : (toList s.proc.allocated_buffers).Perm
    (s.proc.buffers.filter fun b => !s.proc.free b)
  live : ∀ b, (s.live b).isSome ↔ b ∈ s.proc.buffers ∧ s.proc.free b = false
  usable : ∀ b d o, s.live b = some (d, o) →
    c.roundUp d + c.roundUp o ≤ s.proc.binder_buffer_size b
  pages : ∀ i < s.proc.area.count, s.proc.pages i = true ↔ ∃ t ∈ s.proc.tiles,
    Touches s.proc.area i t.start (t.start + c.sizeofBuffer) ∨
      t.free = false ∧ Touches s.proc.area i (t.start + c.sizeofBuffer) t.stop

/-! ## The invariant -/

structure SessionInv (s : BufferSession c) : Prop where
  regular : Regular s.proc
  live : ∀ b d o, s.live b = some (d, o) ↔ (b ∈ s.proc.buffers ∧ s.proc.free b = false) ∧
    (s.proc.header b).data_size = d ∧ (s.proc.header b).offsets_size = o

variable {s s' : BufferSession c} {rb : Rebalancing ℕ} {area : Area c} {i lo hi : ℕ} {t : Tile}

theorem touches_iff (hlo : area.buffer ≤ lo) (h : lo < hi) :
    Touches area i lo hi ↔ area.index lo ≤ i ∧ i ≤ area.index (hi - 1) := by
  have hpos := c.page_pos
  rw [index_le_iff hlo, le_index_iff (by omega)]
  constructor
  · rintro ⟨x, h1, h2, h3, h4⟩
    omega
  · rintro ⟨h1, h2⟩
    by_cases hx : area.page i ≤ lo
    · exact ⟨lo, hx, h1, le_rfl, h⟩
    · exact ⟨area.page i, le_rfl, by omega, by omega, by omega⟩

theorem touches_append (mid : ℕ) (h : lo ≤ mid) (h' : mid ≤ hi) :
    Touches area i lo hi ↔ Touches area i lo mid ∨ Touches area i mid hi := by
  constructor
  · rintro ⟨x, h1, h2, h3, h4⟩
    by_cases hx : x < mid
    · exact Or.inl ⟨x, h1, h2, h3, hx⟩
    · exact Or.inr ⟨x, h1, h2, by omega, h4⟩
  · rintro (⟨x, h1, h2, h3, h4⟩ | ⟨x, h1, h2, h3, h4⟩)
    · exact ⟨x, h1, h2, h3, by omega⟩
    · exact ⟨x, h1, h2, by omega, h4⟩

/-- What a buffer needs is its header, and its data while it is allocated. -/
theorem covers_iff (hstart : area.buffer ≤ t.start) (hroom : c.sizeofBuffer ≤ t.size) :
    Covers area i t ↔ Touches area i t.start (t.start + c.sizeofBuffer) ∨
      t.free = false ∧ Touches area i (t.start + c.sizeofBuffer) t.stop := by
  obtain ⟨hlt, hle⟩ := extent_bounds hroom
  rw [Covers, ← touches_iff hstart hlt, extent]
  cases hf : t.free with
  | true => simp
  | false =>
    simp only [Bool.false_eq_true, if_false, true_and]
    exact touches_append _ (Nat.le_add_right _ _) (by rw [Tile.stop]; omega)

theorem SessionInv.sound (h : SessionInv s) : Sound s := by
  have hlive : ∀ b, (s.live b).isSome ↔ b ∈ s.proc.buffers ∧ s.proc.free b = false := by
    intro b
    constructor
    · intro hb
      obtain ⟨⟨d, o⟩, hdo⟩ := Option.isSome_iff_exists.mp hb
      exact ((h.live b d o).mp hdo).1
    · intro hb
      rw [(h.live b _ _).mpr ⟨hb, rfl, rfl⟩]
      rfl
  refine ⟨h.regular.laid.tiles, h.regular.laid.room, h.regular.coalesced,
    h.regular.indexed.free, h.regular.indexed.allocated, hlive, fun b d o hdo => ?_, fun i hi => ?_⟩
  · obtain ⟨⟨hmem, hfree⟩, rfl, rfl⟩ := (h.live b d o).mp hdo
    obtain ⟨as, bs, hbuffers⟩ := List.append_of_mem hmem
    obtain ⟨S, hat⟩ := h.regular.laid.at_buffer hbuffers
    have hfull := hat.buffer_size_eq
    obtain ⟨hfit, hexact⟩ := h.regular.fits ⟨b, S, s.proc.free b⟩ (by simp [hat.tiles]) hfree
    simp only at hfit hexact
    omega
  · rw [h.regular.mapped i hi]
    refine exists_congr fun t => and_congr_right fun ht => ?_
    exact covers_iff (h.regular.laid.tiles.inside ht).1 (h.regular.laid.room t ht)

/-! ## The first buffer -/

theorem first_page (area : Area c) :
    binder_update_page_range area true { mm := true, fails := fun _ => none } (fun _ => false) true
      area.buffer (area.buffer + c.PAGE_SIZE) = some (true, setRange (fun _ => false) 0 1 true) := by
  have hfirst : area.buffer = area.page 0 := by simp [Area.page]
  obtain ⟨n, hn⟩ : ∃ n, area.count = n + 1 := ⟨area.count - 1, by have := area.count_pos; omega⟩
  have hlt : area.page 0 < area.page 1 := page_lt.mpr Nat.zero_lt_one
  have hsecond : area.page 0 + c.PAGE_SIZE = area.page 1 := page_succ
  have hmm : (true && true) = true := rfl
  rw [hfirst, hsecond, binder_update_page_range, if_neg hlt.not_ge, if_pos rfl, if_pos hmm, hn,
    allocRange, if_pos hlt]
  dsimp only
  rw [index_page, if_pos ⟨area.count_pos, rfl⟩, hsecond]
  have hset : Function.update (fun _ => false) 0 true = setRange (fun _ => false) 0 1 true := by
    rw [← setRange_succ (Nat.zero_le 0), setRange_self]
  rw [hset]
  cases n with
  | zero => rfl
  | succ n => rw [allocRange, if_neg (lt_irrefl _)]

theorem binder_mmap_regular (rb : Rebalancing ℕ) (area : Area c) :
    ∃ p, binder_mmap rb area = some p ∧ Regular p ∧ p.area = area ∧
      ∀ b ∈ p.buffers, p.free b = true := by
  have hpos := sizeofBuffer_pos c
  have hpage := c.page_ge
  have hsize : c.PAGE_SIZE ≤ area.buffer_size := Nat.le_mul_of_pos_left _ area.count_pos
  rw [binder_mmap]
  simp only [Option.bind_eq_bind, first_page, Option.bind_some]
  set p : Buffers c :=
    { area := area
      vma := true
      pages := setRange (fun _ => false) 0 1 true
      buffers := [area.buffer]
      header := fun _ => ⟨true, false, 0, 0⟩
      free_buffers := .nil
      allocated_buffers := .nil
      free_async_space := area.buffer_size / 2 } with hp
  have htiles : p.tiles = [⟨area.buffer, area.stop - area.buffer, true⟩] := rfl
  have hstop : area.stop - area.buffer = area.buffer_size := Nat.add_sub_cancel_left ..
  have hindex : area.index area.buffer = 0 := by
    rw [Area.index, Nat.sub_self, Nat.zero_div]
  have hloose : Loose p [] area.buffer [] := by
    refine ⟨rfl, rfl, ⟨?_, ?_⟩, fun i hi => ?_, List.Perm.refl _, List.Perm.refl _,
      List.isChain_nil, List.isChain_nil, by simp [tilesFrom], rfl⟩
    · rw [htiles, hstop]
      exact ⟨rfl, rfl⟩
    · rw [htiles, hstop]
      rintro t ht
      rw [List.mem_singleton.mp ht]
      simp only
      lia
    · have hend : area.index (area.buffer + c.sizeofBuffer - 1) = 0 := by
        rw [Area.index, Nat.div_eq_of_lt]
        lia
      rw [htiles]
      simp only [List.mem_singleton, exists_eq_left, Covers, extent, if_true]
      change setRange (fun _ => false) 0 1 true i = true ↔
        area.index area.buffer ≤ i ∧ i ≤ area.index (area.buffer + c.sizeofBuffer - 1)
      rw [hindex, hend, setRange]
      split
      · simp
        lia
      · simp
        lia
  obtain ⟨p', hinsert, hregular, hmerged⟩ := insert_regular hloose rb (by simp) (by simp)
  refine ⟨p', hinsert, hregular, hmerged.area, fun b hb => ?_⟩
  rw [Buffers.free, hmerged.header]

/-! ## Runs -/

theorem alloc_inv (h : SessionInv s) (rb : Rebalancing ℕ) (kernel : Kernel)
    (d o : Fin (2 ^ c.wordBits)) (is_async : Bool) :
    ∃ s', bufferStep rb s (.alloc kernel d o is_async) = some s' ∧ SessionInv s' := by
  rw [bufferStep]
  rcases binder_alloc_buf_spec h.regular rb kernel d.isLt o.isLt is_async with
    hnone | ⟨b, p', hsome, hal⟩
  · rw [hnone]
    exact ⟨s, rfl, h⟩
  · rw [hsome]
    refine ⟨_, rfl, hal.regular, fun x d' o' => ?_⟩
    dsimp only
    rw [hal.used x]
    by_cases hx : x = b
    · subst hx
      rw [Function.update_self, hal.header]
      simp
    · rw [Function.update_of_ne hx, h.live x d' o']
      simp only [hx, false_or]
      refine and_congr_right fun hused => ?_
      rw [hal.kept x hused.1 hx]

theorem free_inv (h : SessionInv s) (rb : Rebalancing ℕ) (kernel : Kernel) (b : ℕ) :
    ∃ s', bufferStep rb s (.free kernel b) = some s' ∧ SessionInv s' := by
  rw [bufferStep]
  by_cases hlive : (s.live b).isSome
  · obtain ⟨⟨d, o⟩, hdo⟩ := Option.isSome_iff_exists.mp hlive
    obtain ⟨⟨hmem, hused⟩, -⟩ := (h.live b d o).mp hdo
    obtain ⟨p', hp', hfreed⟩ := binder_free_buf_spec h.regular rb kernel hmem hused
    rw [if_pos hlive, hp']
    refine ⟨_, rfl, hfreed.regular, fun x d' o' => ?_⟩
    dsimp only
    rw [hfreed.used x]
    by_cases hx : x = b
    · subst hx
      rw [Function.update_self]
      simp
    · rw [Function.update_of_ne hx, h.live x d' o', hfreed.kept x hx]
      simp [hx]
  · rw [if_neg hlive]
    exact ⟨s, rfl, h⟩

theorem run_sound (h : SessionInv s) (rb : Rebalancing ℕ) (calls : List (BufferCall c)) :
    ∃ s', run (bufferStep rb) s calls = some s' ∧ SessionInv s' := by
  induction calls generalizing s with
  | nil => exact ⟨s, rfl, h⟩
  | cons call calls ih =>
    have hstep : ∃ s', bufferStep rb s call = some s' ∧ SessionInv s' := by
      cases call with
      | alloc kernel d o is_async => exact alloc_inv h rb kernel d o is_async
      | free kernel b => exact free_inv h rb kernel b
    obtain ⟨m, hm, hinv⟩ := hstep
    obtain ⟨s', hrun, hs'⟩ := ih hinv
    exact ⟨s', run_cons_some.mpr ⟨m, hm, hrun⟩, hs'⟩

/-- No check fails in any run, the buffers are sound in every state, and a failed allocation
changes nothing. -/
theorem buffers_sound (rb : Rebalancing ℕ) (area : Area c) (calls : List (BufferCall c)) :
    ∃ p s, binder_mmap rb area = some p ∧
      run (bufferStep rb) { proc := p, live := fun _ => none } calls = some s ∧ Sound s ∧
      ∀ (kernel : Kernel) (d o : Fin (2 ^ c.wordBits)) (is_async : Bool) (p' : Buffers c),
        s.proc.binder_alloc_buf rb kernel d o is_async = some (none, p') → p' = s.proc := by
  obtain ⟨p, hp, hregular, -, hfree⟩ := binder_mmap_regular rb area
  have hinit : SessionInv { proc := p, live := fun _ => none } := by
    refine ⟨hregular, fun b d o => ?_⟩
    constructor
    · intro hnone
      cases hnone
    · rintro ⟨⟨hmem, hused⟩, -⟩
      rw [hfree b hmem] at hused
      cases hused
  obtain ⟨s, hrun, hs⟩ := run_sound hinit rb calls
  refine ⟨p, s, hp, hrun, hs.sound, fun kernel d o is_async p' hfail => ?_⟩
  rcases binder_alloc_buf_spec hs.regular rb kernel d.isLt o.isLt is_async with
    hnone | ⟨b, p'', hsome, -⟩
  · rw [hnone] at hfail
    cases hfail
    rfl
  · rw [hsome] at hfail
    cases hfail

/-- Two pages: the first buffer is there, and is freed. -/
theorem buffers_sound_twoPages :
    let c : Platform := ⟨false, 12, le_rfl⟩
    let area : Area c := ⟨1, 2, by decide, by decide, by decide⟩
    let kernel : Kernel := ⟨true, fun _ => none⟩
    ∃ p s, binder_mmap .plain area = some p ∧
      run (bufferStep .plain) { proc := p, live := fun _ => none }
        [.alloc kernel ⟨8, by decide⟩ ⟨4, by decide⟩ false, .free kernel area.buffer] = some s ∧
      Sound s := by
  intro c area kernel
  obtain ⟨p, s, hp, hrun, hs, -⟩ := buffers_sound .plain area
    [.alloc kernel ⟨8, by decide⟩ ⟨4, by decide⟩ false, .free kernel area.buffer]
  exact ⟨p, s, hp, hrun, hs⟩

end AudioFlinger.Driver
