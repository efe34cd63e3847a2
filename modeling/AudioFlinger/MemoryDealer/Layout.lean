import AudioFlinger.MemoryDealer.Allocator

/-!
# Chunks as a tiling of the heap

A chunk covers a tile of the heap, in bytes. Taking a region carves the tile of a free
chunk; freeing one merges it with the tiles next to it.
-/

namespace AudioFlinger.MemoryDealer
open Foundation Foundation.LinkedList Foundation.Tile

variable {l : LinkedList Chunk} {xs ys zs : Chunks} {p q : ℕ} {c d : Chunk} {heap : ℕ}
  {size flags e : U32} {pagesize : PageSize}

/-- The bytes of a chunk. -/
def Chunk.tile (c : Chunk) : Tile where
  start := c.start.toNat * 32
  size := c.size.toNat * 32
  free := c.free

def tiles (xs : Chunks) : List Tile := xs.map fun x => x.2.tile

@[simp] theorem tiles_of_append : tiles (xs ++ ys) = tiles xs ++ tiles ys := List.map_append

@[simp] theorem tiles_of_cons {x : ℕ × Chunk} : tiles (x :: xs) = x.2.tile :: tiles xs := rfl

theorem tiles_of_snd {cs : List Chunk} (h : xs.map Prod.snd = cs) :
    tiles xs = cs.map Chunk.tile := by
  subst h
  simp [tiles]

/-- The chunks lie end to end from 0 to `heap`, and none is empty. -/
structure Layout (heap : ℕ) (xs : Chunks) : Prop where
  tiles : Tiles 0 (tiles xs) heap
  bound : heap < 2 ^ 32
  pos : ∀ x ∈ xs, x.2.size ≠ 0#28

theorem size_pos (h : c.size ≠ 0#28) : 0 < c.size.toNat :=
  Nat.pos_of_ne_zero fun heq => h (BitVec.eq_of_toNat_eq heq)

theorem Layout.middle (h : Layout heap (xs ++ (p, c) :: ys)) :
    c.start.toNat * 32 + c.size.toNat * 32 < 2 ^ 32 ∧ 0 < c.size.toNat := by
  have hmem : c.tile ∈ MemoryDealer.tiles (xs ++ (p, c) :: ys) := by simp
  have hstop := (h.tiles.inside hmem).2
  have hbound := h.bound
  refine ⟨?_, size_pos (h.pos (p, c) (by simp))⟩
  simp only [Tile.stop, Chunk.tile] at hstop
  omega

theorem Layout.mem (h : Layout heap xs) {x : ℕ × Chunk} (hx : x ∈ xs) :
    x.2.start.toNat * 32 + x.2.size.toNat * 32 ≤ heap ∧ 0 < x.2.size.toNat := by
  have hmem : x.2.tile ∈ MemoryDealer.tiles xs := List.mem_map_of_mem hx
  exact ⟨(h.tiles.inside hmem).2, size_pos (h.pos x hx)⟩

/-- The chunks start at different addresses. -/
theorem Layout.pairwise (h : Layout heap xs) :
    xs.Pairwise fun x y => x.2.start.toNat * 32 + x.2.size.toNat * 32 ≤ y.2.start.toNat * 32 :=
  List.pairwise_map.mp h.tiles.pairwise

theorem Layout.start_lt (h : Layout heap xs) :
    xs.Pairwise fun x y => x.2.start.toNat < y.2.start.toNat := by
  refine h.pairwise.imp_of_mem fun {x y} hx _ hxy => ?_
  have hpos := (h.mem hx).2
  omega

/-- Two chunks with one start are one chunk. -/
theorem Layout.start_inj (h : Layout heap xs) {x y : ℕ × Chunk} (hx : x ∈ xs) (hy : y ∈ xs)
    (hstart : x.2.start = y.2.start) : x = y := by
  have hinj : (xs.map fun x => x.2.start.toNat).Nodup :=
    List.nodup_iff_pairwise_ne.mpr (List.pairwise_map.mpr (h.start_lt.imp Nat.ne_of_lt))
  exact List.inj_on_of_nodup_map hinj hx hy (congrArg BitVec.toNat hstart)

/-! ## Merging -/

theorem Layout.joined (h : Layout heap (xs ++ (q, d) :: (p, c) :: ys)) :
    Layout heap (xs ++ (q, joined d c) :: ys) ∧
      (MemoryDealer.joined d c).size.toNat = d.size.toNat + c.size.toNat := by
  have hd := h.middle
  have hc := h
  rw [List.append_cons] at hc
  have hc := hc.middle
  obtain ⟨hxs, hstart, hys⟩ : Tiles 0 (MemoryDealer.tiles xs) d.tile.start ∧
      c.tile.start = d.tile.stop ∧ Tiles c.tile.stop (MemoryDealer.tiles ys) heap := by
    have htiles := h.tiles
    rw [tiles_of_append, tiles_of_cons, tiles_middle, tiles_of_cons, tiles_cons] at htiles
    exact htiles
  simp only [Chunk.tile, Tile.stop] at hstart
  have hsize : (MemoryDealer.joined d c).size.toNat = d.size.toNat + c.size.toNat := by
    rw [MemoryDealer.joined, BitVec.toNat_add, Nat.mod_eq_of_lt]
    lia
  have hstop : (MemoryDealer.joined d c).tile.stop = c.tile.stop := by
    simp only [Chunk.tile, Tile.stop, hsize]
    simp only [MemoryDealer.joined]
    lia
  refine ⟨⟨?_, h.bound, fun x hx => ?_⟩, hsize⟩
  · rw [tiles_of_append, tiles_of_cons, tiles_middle]
    exact ⟨hxs, hstop ▸ hys⟩
  · rcases List.mem_append.mp hx with hx | hx
    · exact h.pos x (List.mem_append_left _ hx)
    · rcases List.mem_cons.mp hx with rfl | hx
      · intro hzero
        have hz := congrArg BitVec.toNat hzero
        rw [hsize] at hz
        simp at hz
        lia
      · exact h.pos x (by simp [hx])

/-- `zs` is `xs` with free chunks joined. -/
structure Joins (heap : ℕ) (xs zs : Chunks) : Prop where
  layout : Layout heap xs → Layout heap zs
  used : ∀ d : Chunk, d.free = false → (d ∈ zs.map Prod.snd ↔ d ∈ xs.map Prod.snd)

theorem Joins.rfl : Joins heap xs xs := ⟨id, fun _ _ => Iff.rfl⟩

theorem Joins.trans (h : Joins heap xs ys) (h' : Joins heap ys zs) : Joins heap xs zs :=
  ⟨h'.layout ∘ h.layout, fun d hd => (h'.used d hd).trans (h.used d hd)⟩

theorem joins_joined (hd : d.free = true) (hc : c.free = true) :
    Joins heap (xs ++ (q, d) :: (p, c) :: ys) (xs ++ (q, joined d c) :: ys) := by
  refine ⟨fun h => h.joined.1, fun b hb => ?_⟩
  have hbd : b ≠ d := fun heq => by simp [heq, hd] at hb
  have hbc : b ≠ c := fun heq => by simp [heq, hc] at hb
  have hbj : b ≠ joined d c := fun heq => by simp [heq, joined, hd] at hb
  simp [hbd, hbc, hbj]

/-- The freed chunk joins a free chunk before it. -/
theorem merge_freed (h : Holds l (xs ++ (p, c) :: ys)) (hsize : c.size ≠ 0#28)
    (hc : c.free = true) (hxs : Coalesced (tiles xs)) :
    ∃ (xs' : Chunks) (c' : Chunk), Holds (merge l p p).1 (xs' ++ ((merge l p p).2, c') :: ys) ∧
      c'.free = true ∧ Joins heap (xs ++ (p, c) :: ys) (xs' ++ ((merge l p p).2, c') :: ys) ∧
      Coalesced (tiles xs') ∧ ∀ t ∈ (tiles xs').getLast?, ¬ t.free := by
  by_cases hlast : ∃ x ∈ xs.getLast?, x.2.free = true
  · obtain ⟨⟨q, d⟩, hx, hd⟩ := hlast
    obtain ⟨xs', rfl⟩ := List.getLast?_eq_some_iff.mp hx
    rw [← List.append_cons] at h ⊢
    obtain ⟨hfreed, hheld⟩ := @merge_joins l xs' ys p q c d p h hd
    rw [tiles_of_append, tiles_of_cons, coalesced_middle] at hxs
    rw [hfreed]
    exact ⟨xs', joined d c, hheld, hd, joins_joined hd hc, hxs.1, (hxs.2.2 hd).1⟩
  · have hused : ∀ x ∈ xs.getLast?, x.2.free = false := fun x hx =>
      Bool.eq_false_iff.mpr fun hfree => hlast ⟨x, hx, hfree⟩
    rw [merge_skips h hsize hused]
    refine ⟨xs, c, h, hc, Joins.rfl, hxs, fun t ht => ?_⟩
    rw [tiles, List.getLast?_map] at ht
    obtain ⟨x, hx, rfl⟩ := Option.map_eq_some_iff.mp ht
    simp [Chunk.tile, hused x hx]

/-- The loop joins the freed chunk with the chunk behind it, too, and stops there. -/
theorem mergeLoop_holds (h : Holds l (xs ++ (p, c) :: ys)) (hsize : c.size ≠ 0#28)
    (hc : c.free = true) (hxs : Coalesced (tiles xs)) (hys : Coalesced (tiles ys)) (fuel : ℕ) :
    ∃ zs : Chunks, Holds (mergeLoop (fuel + 2) l p p).1 zs ∧
      Joins heap (xs ++ (p, c) :: ys) zs ∧ Coalesced (tiles zs) := by
  obtain ⟨xs', c', hheld, hc', hjoins, hxs', hlast⟩ := @merge_freed l xs ys p c heap h hsize hc hxs
  rw [mergeLoop, next_eq h]
  rcases ys with _ | ⟨⟨r, e⟩, ys⟩
  · refine ⟨_, hheld, hjoins, ?_⟩
    rw [tiles_of_append, tiles_of_cons, coalesced_middle]
    exact ⟨hxs', hys, fun _ => ⟨hlast, by simp [tiles]⟩⟩
  · have hr := hheld
    rw [List.append_cons] at hr
    rw [tiles_of_cons, coalesced_cons] at hys
    dsimp only [headOr_cons]
    rw [chunkAt_eq hr]
    by_cases he : e.free = true
    · rw [if_pos he]
      obtain ⟨hfreed, hheld'⟩ := @merge_joins _ xs' ys r _ e c' (merge l p p).2 hheld hc'
      -- what is behind `r` is in use
      have hnext : ∀ t ∈ (tiles ys).head?, ¬ t.free := fun t ht hfree => hys.1 t ht ⟨he, hfree⟩
      have hstop : mergeLoop (fuel + 1) (merge l p p).1 r (merge l p p).2 =
          merge (merge l p p).1 r (merge l p p).2 := by
        rw [mergeLoop, next_eq hr]
        rcases ys with _ | ⟨⟨t, f⟩, ys⟩
        · rfl
        · have hf := hnext f.tile rfl
          have ht := hheld'
          rw [List.append_cons] at ht
          dsimp only [headOr_cons]
          rw [chunkAt_eq ht]
          exact if_neg hf
      rw [hstop]
      refine ⟨_, hheld', hjoins.trans (joins_joined hc' he), ?_⟩
      rw [tiles_of_append, tiles_of_cons, coalesced_middle]
      exact ⟨hxs', hys.2, fun _ => ⟨hlast, hnext⟩⟩
    · rw [if_neg he]
      refine ⟨_, hheld, hjoins, ?_⟩
      rw [tiles_of_append, tiles_of_cons, coalesced_middle, tiles_of_cons, coalesced_cons]
      refine ⟨hxs', hys, fun _ => ⟨hlast, ?_⟩⟩
      rintro u hu
      cases hu
      exact he

/-! ## Carving -/

theorem units_toNat (h : size.toNat + 31 < 2 ^ 32) : (units size).toNat = (size.toNat + 31) / 32 := by
  have hsum : (size + kMemoryAlign - 1#32).toNat = size.toNat + 31 := by
    simp only [kMemoryAlign]
    bv_omega
  rw [units, BitVec.toNat_udiv, hsum]
  rfl

/-- Pages, counted in units. -/
def PageSize.units (pagesize : PageSize) : ℕ := 2 ^ (pagesize.bits - 5)

theorem PageSize.bytes_eq (pagesize : PageSize) : pagesize.bytes.toNat = pagesize.units * 32 := by
  have hlt : 2 ^ pagesize.bits < 2 ^ 32 := Nat.pow_lt_pow_right (by decide) pagesize.lt_word
  have hbits : pagesize.bits - 5 + 5 = pagesize.bits := Nat.sub_add_cancel pagesize.unit_le
  rw [PageSize.bytes, BitVec.toNat_ofNat, Nat.mod_eq_of_lt hlt, PageSize.units]
  conv_lhs => rw [← hbits, pow_add]
  rfl

theorem PageSize.units_lt (pagesize : PageSize) : 0 < pagesize.units ∧ pagesize.units ≤ 2 ^ 26 := by
  have hbits := pagesize.lt_word
  exact ⟨Nat.two_pow_pos _, Nat.pow_le_pow_right (by decide) (by omega)⟩

theorem extra_toNat (pagesize : PageSize) (flags : U32) (c : Chunk)
    (hflags : flags &&& PAGE_ALIGNED ≠ 0#32) :
    (extra pagesize flags c).toNat = (2 ^ 32 - c.start.toNat) % pagesize.units := by
  obtain ⟨hpos, hle⟩ := pagesize.units_lt
  have hmask : (pagesize.bytes / kMemoryAlign - 1#32).toNat = 2 ^ (pagesize.bits - 5) - 1 := by
    have hdiv : (pagesize.bytes / kMemoryAlign).toNat = pagesize.units := by
      rw [BitVec.toNat_udiv, pagesize.bytes_eq]
      exact Nat.mul_div_cancel _ (by decide)
    rw [← PageSize.units]
    bv_omega
  have hdvd : pagesize.units ∣ 2 ^ 32 := Nat.pow_dvd_pow _ (by have := pagesize.lt_word; omega)
  rw [extra, if_pos hflags, BitVec.toNat_and, hmask, Nat.and_two_pow_sub_one_eq_mod,
    BitVec.toNat_neg, ← PageSize.units, Nat.mod_mod_of_dvd _ hdvd]

theorem extra_lt (pagesize : PageSize) (flags : U32) (c : Chunk) :
    (extra pagesize flags c).toNat < 2 ^ 26 := by
  obtain ⟨hpos, hle⟩ := pagesize.units_lt
  by_cases hflags : flags &&& PAGE_ALIGNED ≠ 0#32
  · rw [extra_toNat pagesize flags c hflags]
    exact (Nat.mod_lt _ hpos).trans_le hle
  · rw [extra, if_neg hflags]
    decide

/-- Behind the first `extra` units a page starts. -/
theorem extra_aligned (pagesize : PageSize) (flags : U32) (c : Chunk)
    (hflags : flags &&& PAGE_ALIGNED ≠ 0#32) :
    pagesize.units ∣ c.start.toNat + (extra pagesize flags c).toNat := by
  have hdvd : pagesize.units ∣ 2 ^ 32 := Nat.pow_dvd_pow _ (by have := pagesize.lt_word; omega)
  have hsum : c.start.toNat + (2 ^ 32 - c.start.toNat) = 2 ^ 32 := by
    have := c.start.isLt
    omega
  rw [extra_toNat pagesize flags c hflags, Nat.dvd_iff_mod_eq_zero, Nat.add_mod_mod, hsum]
  exact Nat.mod_eq_zero_of_dvd hdvd

/-- No page starts earlier in the chunk. -/
theorem extra_least (pagesize : PageSize) (flags : U32) (c : Chunk) {o : ℕ}
    (hflags : flags &&& PAGE_ALIGNED ≠ 0#32) (ho : c.start.toNat ≤ o) (hdvd : pagesize.units ∣ o) :
    c.start.toNat + (extra pagesize flags c).toNat ≤ o := by
  by_contra hlt
  have hsub := Nat.dvd_sub (extra_aligned pagesize flags c hflags) hdvd
  have hle := Nat.le_of_dvd (by omega) hsub
  have hmod := Nat.mod_lt (2 ^ 32 - c.start.toNat) pagesize.units_lt.1
  rw [← extra_toNat pagesize flags c hflags] at hmod
  omega

theorem words_toNat : c.words.toNat = c.size.toNat :=
  BitVec.toNat_setWidth_of_le (by decide)

theorem fits_iff (hsize : size.toNat ≤ 2 ^ 27) : fits pagesize size flags c = true ↔
    c.free = true ∧ size.toNat + (extra pagesize flags c).toNat ≤ c.size.toNat := by
  have hextra := extra_lt pagesize flags c
  have hsum : (size + extra pagesize flags c).toNat =
      size.toNat + (extra pagesize flags c).toNat := by
    rw [BitVec.toNat_add, Nat.mod_eq_of_lt]
    omega
  rw [fits, Bool.and_eq_true, decide_eq_true_iff, BitVec.le_def, words_toNat, hsum]

/-- The pieces of a free chunk, and where the taken one lies. -/
structure Carved (c : Chunk) (e size : U32) : Prop where
  start_eq : (taken c e size).start.toNat = c.start.toNat + e.toNat
  size_eq : (taken c e size).size.toNat = size.toNat
  pos : ∀ d ∈ carve c e size, d.size ≠ 0#28
  tiles : ∀ a b, Tiles a [c.tile] b → Tiles a ((carve c e size).map Chunk.tile) b

theorem size_ne_zero (h : 0 < c.size.toNat) : c.size ≠ 0#28 := by
  intro hzero
  simp [hzero] at h

theorem chunk_size {s n : U32} (h : n.toNat < 2 ^ 28) : (chunk s n).size.toNat = n.toNat := by
  rw [chunk, BitVec.toNat_setWidth, Nat.mod_eq_of_lt h]

theorem carved (hroom : c.start.toNat * 32 + c.size.toNat * 32 < 2 ^ 32) (hsize : 0 < size.toNat)
    (hfits : size.toNat + e.toNat ≤ c.size.toNat) : Carved c e size := by
  have hstart : (taken c e size).start.toNat = c.start.toNat + e.toNat := by
    rw [taken, BitVec.toNat_add, Nat.mod_eq_of_lt]
    lia
  have htaken : (taken c e size).size.toNat = size.toNat := by
    rw [taken, BitVec.toNat_setWidth, Nat.mod_eq_of_lt]
    lia
  have htail : (c.words - (size + e)).toNat = c.size.toNat - (size.toNat + e.toNat) := by
    have hwords := @words_toNat c
    bv_omega
  have hpos : 0 < (c.words - (size + e)).toInt ↔ 0 < c.size.toNat - (size.toNat + e.toNat) := by
    rw [BitVec.toInt_eq_toNat_of_lt (by lia), htail]
    lia
  have hback : (chunk ((taken c e size).start + (taken c e size).words)
      (c.words - (size + e))).start.toNat = c.start.toNat + e.toNat + size.toNat := by
    have hwords := @words_toNat (taken c e size)
    rw [chunk, BitVec.toNat_add, hwords, hstart, htaken, Nat.mod_eq_of_lt]
    lia
  have hbackSize : (chunk ((taken c e size).start + (taken c e size).words)
      (c.words - (size + e))).size.toNat = c.size.toNat - (size.toNat + e.toNat) := by
    rw [chunk_size, htail]
    lia
  have hhead : (chunk c.start e).size.toNat = e.toNat := chunk_size (by lia)
  refine ⟨hstart, htaken, fun d hd => ?_, fun a b htiles => ?_⟩
  · rw [carve, List.mem_append, List.mem_cons] at hd
    rcases hd with hd | rfl | hd
    · by_cases he : e = 0#32
      · simp [heads, he] at hd
      · obtain rfl : d = chunk c.start e := by simpa [heads, he] using hd
        refine size_ne_zero (hhead ▸ Nat.pos_of_ne_zero fun hzero => he ?_)
        exact BitVec.eq_of_toNat_eq hzero
    · exact size_ne_zero (htaken ▸ hsize)
    · rw [tails] at hd
      split at hd
      · next ht =>
        obtain rfl := List.mem_singleton.mp hd
        exact size_ne_zero (hbackSize ▸ hpos.mp ht)
      · simp at hd
  · obtain ⟨hca, hcb⟩ := htiles
    simp only [Chunk.tile, Tile.stop, tiles_nil] at hca hcb
    have htails : ∀ a, a = (taken c e size).tile.stop →
        Tiles a ((tails (taken c e size) (c.words - (size + e))).map Chunk.tile) b := by
      rintro _ rfl
      rw [tails]
      split
      · simp only [List.map_cons, List.map_nil, tiles_cons, tiles_nil, Chunk.tile, Tile.stop,
          hback, hbackSize, hstart, htaken]
        lia
      · next ht =>
        simp only [List.map_nil, tiles_nil, Chunk.tile, Tile.stop, hstart, htaken]
        lia
    rw [carve, List.map_append, List.map_cons, heads]
    split
    · simp only [List.map_cons, List.map_nil, List.cons_append, List.nil_append, tiles_cons]
      refine ⟨hca, ?_, htails _ rfl⟩
      simp only [Chunk.tile, Tile.stop, hhead]
      simp only [chunk]
      lia
    · next he =>
      obtain rfl : e = 0#32 := not_not.mp he
      refine ⟨?_, htails _ rfl⟩
      simpa [Chunk.tile, taken] using hca

theorem heads_free (hd : d ∈ heads c e) : d.free = true := by
  rw [heads] at hd
  split at hd
  · rw [List.mem_singleton.mp hd]
    rfl
  · simp at hd

theorem tails_free (hd : d ∈ tails c e) : d.free = true := by
  rw [tails] at hd
  split at hd
  · rw [List.mem_singleton.mp hd]
    rfl
  · simp at hd

/-- At most one piece is split off on either side. -/
theorem heads_eq : heads c e = [] ∨ ∃ d, heads c e = [d] := by
  rw [heads]
  split <;> simp

theorem tails_eq : tails c e = [] ∨ ∃ d, tails c e = [d] := by
  rw [tails]
  split <;> simp

/-- The list after a region was taken from the free chunk `c`. -/
structure Taken (heap : ℕ) (xs : Chunks) (p : ℕ) (c : Chunk) (ys zs : Chunks) (t : Chunk) :
    Prop where
  layout : Layout heap (xs ++ (p, c) :: ys) → Layout heap zs
  coalesced : Coalesced (tiles (xs ++ (p, c) :: ys)) → Coalesced (tiles zs)
  kept : ∀ x ∈ xs ++ ys, x ∈ zs
  new : (p, t) ∈ zs
  used : ∀ x ∈ zs, x.2.free = false → x = (p, t) ∨ x ∈ xs ++ ys

theorem take_taken {front back : Chunks} (hc : c.free = true) (h : Carved c e size)
    (hfront : front.map Prod.snd = heads c e)
    (hback : back.map Prod.snd = tails (taken c e size) (c.words - (size + e))) :
    Taken heap xs p c ys (xs ++ front ++ (p, taken c e size) :: (back ++ ys))
      (taken c e size) := by
  have hpieces : tiles (front ++ (p, taken c e size) :: back) =
      (carve c e size).map Chunk.tile := by
    refine tiles_of_snd ?_
    rw [List.map_append, List.map_cons, hfront, hback]
    rfl
  have hsplit : xs ++ front ++ (p, taken c e size) :: (back ++ ys) =
      xs ++ ((front ++ (p, taken c e size) :: back) ++ ys) := by
    simp
  have hfrontFree : ∀ x ∈ front, x.2.free = true := fun x hx =>
    heads_free (hfront ▸ List.mem_map_of_mem hx)
  have hbackFree : ∀ x ∈ back, x.2.free = true := fun x hx =>
    tails_free (hback ▸ List.mem_map_of_mem hx)
  refine ⟨fun hlay => ⟨?_, hlay.bound, fun x hx => ?_⟩, fun hcoal => ?_, fun x hx => ?_, ?_, ?_⟩
  · have htiles := hlay.tiles
    rw [hsplit, tiles_of_append, tiles_of_append, hpieces]
    rw [tiles_of_append, tiles_of_cons, ← List.singleton_append] at htiles
    exact htiles.replace h.tiles
  · rw [hsplit] at hx
    rcases List.mem_append.mp hx with hx | hx
    · exact hlay.pos x (List.mem_append_left _ hx)
    · rcases List.mem_append.mp hx with hx | hx
      · refine h.pos x.2 ?_
        have hmem := List.mem_map_of_mem (f := Prod.snd) hx
        rw [List.map_append, List.map_cons, hfront, hback] at hmem
        exact hmem
      · exact hlay.pos x (by simp [hx])
  · rw [tiles_of_append, tiles_of_cons, coalesced_middle] at hcoal
    obtain ⟨hxs, hys, hends⟩ := hcoal
    obtain ⟨hlast, hhead⟩ := hends hc
    rw [tiles_of_append, tiles_of_append, tiles_of_cons, coalesced_middle, tiles_of_append]
    refine ⟨?_, ?_, fun ht => absurd ht (by simp [Chunk.tile, taken])⟩
    · rw [tiles_of_snd hfront]
      rcases @heads_eq c e with hnil | ⟨d, hd⟩
      · rw [hnil]
        simpa using hxs
      · rw [hd, List.map_cons, List.map_nil, coalesced_middle]
        exact ⟨hxs, List.isChain_nil, fun _ => ⟨hlast, by simp⟩⟩
    · rw [tiles_of_snd hback]
      rcases @tails_eq (taken c e size) (c.words - (size + e)) with hnil | ⟨d, hd⟩
      · rw [hnil]
        exact hys
      · rw [hd, List.map_cons, List.map_nil, List.singleton_append, coalesced_cons]
        exact ⟨fun u hu hfree => hhead u hu hfree.2, hys⟩
  · rcases List.mem_append.mp hx with hx | hx <;> simp [hx]
  · simp
  · intro x hx hfree
    rw [hsplit] at hx
    rcases List.mem_append.mp hx with hx | hx
    · exact Or.inr (List.mem_append_left _ hx)
    · rcases List.mem_append.mp hx with hx | hx
      · rcases List.mem_append.mp hx with hx | hx
        · exact absurd hfree (by simp [hfrontFree x hx])
        · rcases List.mem_cons.mp hx with rfl | hx
          · exact Or.inl rfl
          · exact absurd hfree (by simp [hbackFree x hx])
      · exact Or.inr (List.mem_append_right _ hx)

end AudioFlinger.MemoryDealer
