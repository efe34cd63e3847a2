import AudioFlinger.Foundation.Machine
import AudioFlinger.MemoryDealer.Layout

/-!
# A heap in use

A session allocates regions and gives live ones back. As long as no size wraps when it
is rounded up, the chunks tile the heap and the used ones are the live regions.
-/

namespace AudioFlinger.MemoryDealer
open Foundation Foundation.LinkedList Foundation.Tile Foundation.Machine

structure Region where
  size : U32
  flags : U32

/-- A heap and its live regions. The latter are what the callers hold. -/
structure Session where
  heap : SimpleBestFitAllocator
  live : U32 → Option Region

inductive Event where
  | allocate (size flags : U32)
  | deallocate (offset : U32)

variable (pagesize : PageSize)

def Session.initial (size : U32) : Session where
  heap := create pagesize size
  live := fun _ => none

/-- Sizes are positive, and only live regions are given back. -/
def step (s : Session) : Event → Option Session
  | .allocate size flags =>
    if size = 0#32 then none
    else
      let result := allocate pagesize s.heap size flags
      some { heap := result.2
             live := if result.1 = NO_MEMORY then s.live
               else Function.update s.live result.1 (some ⟨size, flags⟩) }
  | .deallocate offset =>
    if (s.live offset).isSome then
      some { heap := (deallocate s.heap offset).2, live := Function.update s.live offset none }
    else none

/-- Rounding the size up to units does not wrap. -/
def InRange : Event → Prop
  | .allocate size _ => size.toNat + 31 < 2 ^ 32
  | .deallocate _ => True

instance : DecidablePred InRange
  | .allocate size _ => inferInstanceAs (Decidable (size.toNat + 31 < 2 ^ 32))
  | .deallocate _ => inferInstanceAs (Decidable True)

/-- An address as the flags of a request want it. -/
def Aligned (flags : U32) (a : ℕ) : Prop :=
  32 ∣ a ∧ (flags &&& PAGE_ALIGNED ≠ 0#32 → pagesize.bytes.toNat ∣ a)

/-- The list of chunks is linked both ways, tiles the heap with no two free neighbours, and uses
exactly the live regions; when there are none, a single free chunk is left. -/
structure Regular (s : Session) (xs : Chunks) : Prop where
  linked : Holds s.heap.mList xs
  tiling : Tiles 0 (tiles xs) s.heap.mHeapSize.toNat
  coalesced : Coalesced (tiles xs)
  live : ∀ o, (s.live o).isSome ↔ ∃ x ∈ xs, x.2.free = false ∧ x.2.tile.start = o.toNat
  idle : (∀ o, s.live o = none) → ∃ t, tiles xs = [t] ∧ t.free = true

/-- A request fails only if no free chunk has room for it; else it gets an aligned region of its
own. Giving back a live region succeeds. -/
def Answered (s : Session) (xs : Chunks) : Event → Prop
  | .allocate size flags => size ≠ 0#32 →
    let r := (allocate pagesize s.heap size flags).1
    if r = NO_MEMORY then
      ∀ t ∈ tiles xs, t.free = true → ∀ a, Aligned pagesize flags a → t.start ≤ a →
        t.stop < a + size.toNat
    else
      Aligned pagesize flags r.toNat ∧ r.toNat + size.toNat ≤ s.heap.mHeapSize.toNat ∧
        ∀ o region, s.live o = some region →
          o.toNat + region.size.toNat ≤ r.toNat ∨ r.toNat + size.toNat ≤ o.toNat
  | .deallocate offset => (s.live offset).isSome → (deallocate s.heap offset).1 = NO_ERROR

/-! ## The invariant -/

/-- The offset of a chunk in bytes, as the callers see it. -/
def offset (c : Chunk) : U32 := c.start * kMemoryAlign

structure Inv (s : Session) (xs : Chunks) : Prop where
  held : Holds s.heap.mList xs
  tiling : Tiles 0 (tiles xs) s.heap.mHeapSize.toNat
  pos : s.heap.mHeapSize ≠ 0#32 → ∀ x ∈ xs, x.2.size ≠ 0#28
  coalesced : Coalesced (tiles xs)
  nonempty : xs ≠ []
  used : ∀ x ∈ xs, x.2.free = false → ∃ r, s.live (offset x.2) = some r ∧ 0 < r.size.toNat ∧
    r.size.toNat ≤ x.2.tile.size
  live : ∀ o r, s.live o = some r → ∃ x ∈ xs, x.2.free = false ∧ o = offset x.2

variable {pagesize} {s : Session} {xs ys zs : Chunks} {p : ℕ} {c t : Chunk} {heap : ℕ}
  {size flags : U32}

theorem Layout.offset_toNat (h : Layout heap xs) {x : ℕ × Chunk} (hx : x ∈ xs) :
    (offset x.2).toNat = x.2.tile.start := by
  have hmem := h.mem hx
  have hbound := h.bound
  rw [offset, BitVec.toNat_mul, Chunk.tile, Nat.mod_eq_of_lt]
  · rfl
  · change x.2.start.toNat * 32 < 2 ^ 32
    lia

theorem Layout.offset_inj (h : Layout heap xs) {x y : ℕ × Chunk} (hx : x ∈ xs) (hy : y ∈ xs)
    (heq : offset x.2 = offset y.2) : x = y := by
  refine h.start_inj hx hy (BitVec.eq_of_toNat_eq ?_)
  have hnat := congrArg BitVec.toNat heq
  rw [h.offset_toNat hx, h.offset_toNat hy] at hnat
  exact Nat.eq_of_mul_eq_mul_right (by decide) hnat

theorem Layout.disjoint (h : Layout heap xs) {x y : ℕ × Chunk} (hx : x ∈ xs) (hy : y ∈ xs)
    (hne : x ≠ y) : x.2.tile.stop ≤ y.2.tile.start ∨ y.2.tile.stop ≤ x.2.tile.start := by
  have hsymm : Std.Symm fun a b : ℕ × Chunk =>
      a.2.tile.stop ≤ b.2.tile.start ∨ b.2.tile.stop ≤ a.2.tile.start := ⟨fun _ _ => Or.symm⟩
  have hpair : xs.Pairwise fun a b : ℕ × Chunk =>
      a.2.tile.stop ≤ b.2.tile.start ∨ b.2.tile.stop ≤ a.2.tile.start := h.pairwise.imp Or.inl
  exact hpair.forall hx hy hne

theorem Inv.layout (h : Inv s xs) (hheap : s.heap.mHeapSize ≠ 0#32) :
    Layout s.heap.mHeapSize.toNat xs :=
  ⟨h.tiling, s.heap.mHeapSize.isLt, h.pos hheap⟩

/-- A heap with a used chunk is not empty. -/
theorem Inv.layout_of_used (h : Inv s xs) {x : ℕ × Chunk} (hx : x ∈ xs)
    (hpos : 0 < x.2.tile.size) : Layout s.heap.mHeapSize.toNat xs := by
  refine h.layout fun hzero => ?_
  have hmem : x.2.tile ∈ tiles xs := List.mem_map_of_mem hx
  have hstop := (h.tiling.inside hmem).2
  rw [hzero] at hstop
  simp only [Tile.stop, BitVec.toNat_ofNat] at hstop
  omega

theorem Inv.layout_of_live (h : Inv s xs) {o : U32} {r : Region} (ho : s.live o = some r) :
    Layout s.heap.mHeapSize.toNat xs := by
  obtain ⟨x, hx, hfree, rfl⟩ := h.live o r ho
  obtain ⟨r', -, hpos, hle⟩ := h.used x hx hfree
  exact h.layout_of_used hx (hpos.trans_le hle)

theorem Inv.regular (h : Inv s xs) : Regular s xs := by
  refine ⟨h.held, h.tiling, h.coalesced, fun o => ?_, fun hidle => ?_⟩
  · constructor
    · intro ho
      obtain ⟨r, hr⟩ := Option.isSome_iff_exists.mp ho
      obtain ⟨x, hx, hfree, rfl⟩ := h.live o r hr
      exact ⟨x, hx, hfree, ((h.layout_of_live hr).offset_toNat hx).symm⟩
    · rintro ⟨x, hx, hfree, hstart⟩
      obtain ⟨r, hr, hpos, hle⟩ := h.used x hx hfree
      have hoff := (h.layout_of_used hx (hpos.trans_le hle)).offset_toNat hx
      obtain rfl : offset x.2 = o := BitVec.eq_of_toNat_eq (hoff.trans hstart)
      rw [hr]
      rfl
  · have hfree : ∀ t ∈ tiles xs, t.free = true := by
      intro t ht
      obtain ⟨x, hx, rfl⟩ := List.mem_map.mp ht
      by_contra hused
      obtain ⟨r, hr, -⟩ := h.used x hx (Bool.eq_false_iff.mpr hused)
      rw [hidle] at hr
      cases hr
    have hne : tiles xs ≠ [] := fun hnil => h.nonempty (List.map_eq_nil_iff.mp hnil)
    obtain ⟨t, ht⟩ := h.coalesced.eq_singleton hne hfree
    exact ⟨t, ht, hfree t (by simp [ht])⟩

/-! ## Creation -/

theorem roundToPage_unit (pagesize : PageSize) (size : U32) :
    32 ∣ (roundToPage pagesize size).toNat := by
  have hmask : (pagesize.bytes - 1#32).toNat = 2 ^ pagesize.bits - 1 := by
    have hlt : 2 ^ pagesize.bits < 2 ^ 32 := Nat.pow_lt_pow_right (by decide) pagesize.lt_word
    have hpos := Nat.two_pow_pos pagesize.bits
    rw [PageSize.bytes]
    bv_omega
  have hmod : (roundToPage pagesize size).toNat % 2 ^ 5 = 0 := by
    apply Nat.eq_of_testBit_eq
    intro i
    rw [Nat.testBit_mod_two_pow, Nat.zero_testBit, Bool.and_eq_false_imp, decide_eq_true_iff]
    intro hi
    have hbit : (pagesize.bytes - 1#32).getLsbD i = true := by
      rw [BitVec.getLsbD, hmask, Nat.testBit_two_pow_sub_one, decide_eq_true_iff]
      exact hi.trans_le pagesize.unit_le
    rw [← BitVec.getLsbD, roundToPage, BitVec.getLsbD_and, BitVec.getLsbD_not, hbit]
    simp
  exact Nat.dvd_of_mod_eq_zero hmod

theorem inv_initial (pagesize : PageSize) (size : U32) :
    ∃ xs, Inv (.initial pagesize size) xs := by
  obtain ⟨hheld, hapart⟩ := (holds_empty (α := Chunk)).new
    (chunk 0#32 (roundToPage pagesize size / kMemoryAlign))
  have hunit := roundToPage_unit pagesize size
  have hsize : (chunk 0#32 (roundToPage pagesize size / kMemoryAlign)).size.toNat * 32 =
      (roundToPage pagesize size).toNat := by
    have hdiv : (roundToPage pagesize size / kMemoryAlign).toNat =
        (roundToPage pagesize size).toNat / 32 := BitVec.toNat_udiv
    have hlt := (roundToPage pagesize size).isLt
    rw [chunk_size (by omega), hdiv]
    omega
  refine ⟨_, hheld.insertHead hapart, ?_, ?_, List.isChain_singleton _, by simp, ?_, ?_⟩
  · refine ⟨rfl, ?_⟩
    simp only [Tile.stop, Chunk.tile, hsize]
    exact Nat.zero_add _
  · rintro hheap x hx hzero
    obtain rfl := List.mem_singleton.mp hx
    rw [hzero] at hsize
    exact hheap (BitVec.eq_of_toNat_eq hsize.symm)
  · rintro x hx hfree
    obtain rfl := List.mem_singleton.mp hx
    cases hfree
  · rintro o r hr
    cases hr

/-! ## Allocation -/

theorem search_mList (h : Inv s xs) (size flags : U32) : Chosen pagesize size flags xs
    (search pagesize size flags s.heap.mList (s.heap.mList.fresh + 1) s.heap.mList.mFirst none) := by
  have hnil : Chosen pagesize size flags [] none := ⟨by simp, by simp⟩
  rw [h.held.first]
  exact search_chosen h.held (h.held.length_le.trans (Nat.le_succ _)) hnil

/-- A request that finds no chunk changes nothing; another takes a region from a chunk that
fits. -/
theorem allocate_cases (pagesize : PageSize) (flags : U32) (h : Inv s xs) (hsize : size ≠ 0#32)
    (hrange : size.toNat + 31 < 2 ^ 32) :
    (allocate pagesize s.heap size flags = (NO_MEMORY, s.heap) ∧
      ∀ x ∈ xs, fits pagesize (units size) flags x.2 = false) ∨
    ∃ (l : LinkedList Chunk) (as bs zs : Chunks) (p : ℕ) (c t : Chunk),
      xs = as ++ (p, c) :: bs ∧ c.free = true ∧
      allocate pagesize s.heap size flags = (offset t, { s.heap with mList := l }) ∧
      Holds l zs ∧ Taken s.heap.mHeapSize.toNat as p c bs zs t ∧
      Layout s.heap.mHeapSize.toNat zs ∧ t.free = false ∧
      t.start.toNat = c.start.toNat + (extra pagesize flags c).toNat ∧
      t.size.toNat = (size.toNat + 31) / 32 := by
  have hchosen : Chosen pagesize (units size) flags xs _ := search_mList h (units size) flags
  have hunits := units_toNat hrange
  have hpos : 0 < size.toNat := Nat.pos_of_ne_zero fun hz => hsize (BitVec.eq_of_toNat_eq hz)
  cases hfound : search pagesize (units size) flags s.heap.mList (s.heap.mList.fresh + 1)
      s.heap.mList.mFirst none with
  | none =>
    refine Or.inl ⟨?_, hchosen.1 hfound⟩
    rw [allocate, alloc, if_neg hsize]
    simp only [hfound]
  | some p =>
    obtain ⟨c, hc, hfits⟩ := hchosen.2 p hfound
    obtain ⟨as, bs, rfl⟩ := List.append_of_mem hc
    rw [fits_iff (by lia)] at hfits
    obtain ⟨hfree, hroom⟩ := hfits
    have hlay : Layout s.heap.mHeapSize.toNat (as ++ (p, c) :: bs) :=
      h.layout_of_used (x := (p, c)) (by simp) (by simp only [Chunk.tile]; lia)
    have hcarved : Carved c (extra pagesize flags c) (units size) :=
      carved hlay.middle.1 (by lia) hroom
    have hexact : c.words ≤ units size →
        extra pagesize flags c = 0#32 ∧ c.words - units size = 0#32 := by
      intro hle
      have hwords := @words_toNat c
      rw [BitVec.le_def] at hle
      constructor <;> bv_omega
    obtain ⟨front, back, hfront, hback, hheld⟩ := take_holds h.held rfl hexact
    have htaken : Taken s.heap.mHeapSize.toNat as p c bs _ _ :=
      take_taken hfree hcarved hfront hback
    refine Or.inr ⟨_, as, bs, _, p, c, _, rfl, hfree, ?_, hheld, htaken, htaken.layout hlay, rfl,
      hcarved.start_eq, hcarved.size_eq.trans hunits⟩
    rw [allocate, alloc, if_neg hsize]
    simp only [hfound]
    rw [chunkAt_eq hheld]
    rfl

/-- The taken region, as the callers see it. -/
theorem offset_ne_noMemory (c : Chunk) : offset c ≠ NO_MEMORY := by
  intro heq
  have hmod : (offset c).toNat % 32 = 0 := by
    rw [offset, BitVec.toNat_mul]
    change c.start.toNat * 32 % 2 ^ 32 % 32 = 0
    omega
  rw [heq] at hmod
  exact absurd hmod (by decide)

theorem aligned_units (flags : U32) (k : ℕ) : Aligned pagesize flags (k * 32) ↔
    (flags &&& PAGE_ALIGNED ≠ 0#32 → pagesize.units ∣ k) := by
  rw [Aligned, pagesize.bytes_eq, Nat.mul_dvd_mul_iff_right (by decide)]
  exact and_iff_right (Nat.dvd_mul_left 32 k)

/-- A chunk that does not fit has no room for an aligned region. -/
theorem no_room (hrange : size.toNat + 31 < 2 ^ 32) (hfree : c.free = true)
    (hfits : fits pagesize (units size) flags c = false) {a : ℕ}
    (ha : Aligned pagesize flags a) (hstart : c.tile.start ≤ a) : c.tile.stop < a + size.toNat := by
  obtain ⟨k, rfl⟩ : ∃ k, a = k * 32 := by
    obtain ⟨k, hk⟩ := ha.1
    exact ⟨k, hk.trans (Nat.mul_comm ..)⟩
  rw [aligned_units] at ha
  have hunits := units_toNat hrange
  have hlt : c.size.toNat < (units size).toNat + (extra pagesize flags c).toNat := by
    by_contra hle
    rw [(fits_iff (by omega)).mpr ⟨hfree, not_lt.mp hle⟩] at hfits
    cases hfits
  have hk : c.start.toNat ≤ k := Nat.le_of_mul_le_mul_right hstart (by decide)
  have hextra : c.start.toNat + (extra pagesize flags c).toNat ≤ k := by
    by_cases hflags : flags &&& PAGE_ALIGNED ≠ 0#32
    · exact extra_least pagesize flags c hflags hk (ha hflags)
    · rw [extra, if_neg hflags]
      exact hk
  simp only [Tile.stop, Chunk.tile]
  omega

/-- A used chunk is not the one that was free. -/
theorem mem_others {x : ℕ × Chunk} (hx : x ∈ xs ++ (p, c) :: ys) (hc : c.free = true)
    (hfree : x.2.free = false) : x ∈ xs ++ ys := by
  rcases List.mem_append.mp hx with hx | hx
  · exact List.mem_append_left _ hx
  · rcases List.mem_cons.mp hx with rfl | hx
    · rw [hc] at hfree
      cases hfree
    · exact List.mem_append_right _ hx

theorem allocate_answered (h : Inv s xs) (hrange : size.toNat + 31 < 2 ^ 32) :
    Answered pagesize s xs (.allocate size flags) := by
  intro hsize
  rcases allocate_cases pagesize flags h hsize hrange with
    ⟨hresult, hfits⟩ | ⟨l, as, bs, zs, p, c, t, rfl, hc, hresult, -, htaken, hlay, ht, hstart, hunits⟩
  · rw [hresult]
    dsimp only
    rw [if_pos rfl]
    intro t ht hfree a ha hle
    obtain ⟨x, hx, rfl⟩ := List.mem_map.mp ht
    exact no_room hrange hfree (hfits x hx) ha hle
  · have hoff := hlay.offset_toNat htaken.new
    have hin := (hlay.mem htaken.new).1
    simp only [Chunk.tile] at hoff hin
    have hfit : t.start.toNat * 32 + size.toNat ≤ s.heap.mHeapSize.toNat := by omega
    have halign : flags &&& PAGE_ALIGNED ≠ 0#32 → pagesize.units ∣ t.start.toNat :=
      hstart ▸ extra_aligned pagesize flags c
    rw [hresult]
    dsimp only
    rw [if_neg (offset_ne_noMemory t), hoff, aligned_units]
    refine ⟨halign, hfit, fun o region ho => ?_⟩
    obtain ⟨x, hx, hfree, rfl⟩ := h.live o region ho
    obtain ⟨r, hr, -, hle⟩ := h.used x hx hfree
    obtain rfl : region = r := Option.some.inj (ho.symm.trans hr)
    have hmem := mem_others hx hc hfree
    have hne : x ≠ (p, t) := fun heq => h.held.ne_of_mem hmem (heq ▸ rfl)
    have hoffx := hlay.offset_toNat (htaken.kept x hmem)
    have hdisj := hlay.disjoint (htaken.kept x hmem) htaken.new hne
    simp only [Tile.stop, Chunk.tile] at hdisj hle hoffx
    omega

theorem allocate_inv (pagesize : PageSize) (flags : U32) (h : Inv s xs) (hsize : size ≠ 0#32) (hrange : size.toNat + 31 < 2 ^ 32) :
    ∃ s' zs, step pagesize s (.allocate size flags) = some s' ∧ Inv s' zs := by
  rcases allocate_cases pagesize flags h hsize hrange with
    ⟨hresult, -⟩ | ⟨l, as, bs, zs, p, c, t, rfl, hc, hresult, hheld, htaken, hlay, ht, -, hunits⟩
  · refine ⟨s, xs, ?_, h⟩
    rw [step, if_neg hsize, hresult]
    rfl
  · refine ⟨{
      heap := { s.heap with mList := l }
      live := Function.update s.live (offset t) (some ⟨size, flags⟩) }, zs, ?_, hheld, hlay.tiles, fun _ => hlay.pos,
      htaken.coalesced h.coalesced, List.ne_nil_of_mem htaken.new, fun x hx hfree => ?_,
      fun o r ho => ?_⟩
    · rw [step, if_neg hsize, hresult]
      dsimp only
      rw [if_neg (offset_ne_noMemory t)]
    · by_cases heq : x = (p, t)
      · subst heq
        have hpos : 0 < size.toNat := Nat.pos_of_ne_zero fun hz => hsize (BitVec.eq_of_toNat_eq hz)
        refine ⟨⟨size, flags⟩, Function.update_self .., hpos, ?_⟩
        simp only [Chunk.tile]
        omega
      · have hne : offset x.2 ≠ offset t := fun hoff => heq (hlay.offset_inj hx htaken.new hoff)
        have hmem : x ∈ as ++ (p, c) :: bs := by
          have hold := (htaken.used x hx hfree).resolve_left heq
          rcases List.mem_append.mp hold with hold | hold <;> simp [hold]
        obtain ⟨r, hr, hrest⟩ := h.used x hmem hfree
        exact ⟨r, (Function.update_of_ne hne ..).trans hr, hrest⟩
    · by_cases heq : o = offset t
      · exact ⟨(p, t), htaken.new, ht, heq⟩
      · obtain ⟨x, hx, hfree, rfl⟩ := h.live o r ((Function.update_of_ne heq ..).symm.trans ho)
        exact ⟨x, htaken.kept x (mem_others hx hc hfree), hfree, rfl⟩

/-! ## Deallocation -/

theorem offset_units (h : Layout heap xs) {x : ℕ × Chunk} (hx : x ∈ xs) :
    offset x.2 / kMemoryAlign = x.2.start := by
  apply BitVec.eq_of_toNat_eq
  rw [BitVec.toNat_udiv, h.offset_toNat hx]
  exact Nat.mul_div_cancel _ (by decide)

/-- Giving back a live region frees its chunk and merges it with its free neighbours. -/
theorem deallocate_frees (h : Inv s xs) {o : U32} {region : Region}
    (ho : s.live o = some region) :
    ∃ (l : LinkedList Chunk) (as bs zs : Chunks) (p : ℕ) (c : Chunk),
      xs = as ++ (p, c) :: bs ∧ o = offset c ∧
      deallocate s.heap o = (NO_ERROR, { s.heap with mList := l }) ∧ Holds l zs ∧
      Joins s.heap.mHeapSize.toNat (as ++ (p, { c with free := true }) :: bs) zs ∧
      Coalesced (tiles zs) := by
  have hlay := h.layout_of_live ho
  obtain ⟨⟨p, c⟩, hx, hfree, rfl⟩ := h.live o region ho
  have hunits := offset_units hlay hx
  obtain ⟨as, bs, rfl⟩ := List.append_of_mem hx
  have hbefore : ∀ y ∈ as, y.2.start ≠ c.start := by
    intro y hy heq
    have hlt := (List.pairwise_append.mp hlay.start_lt).2.2 y hy (p, c) (by simp)
    rw [heq] at hlt
    exact lt_irrefl _ hlt
  have hfind : find (offset c / kMemoryAlign) s.heap.mList (s.heap.mList.fresh + 1)
      s.heap.mList.mFirst = some p := by
    rw [h.held.first, hunits]
    refine @find_eq _ [] as bs p c c.start _ h.held ?_ hbefore rfl
    have hlen := h.held.length_le
    simp only [List.length_append, List.length_cons] at hlen
    omega
  have hassign := h.held.assign fun c => { c with free := true }
  have hcoal := h.coalesced
  rw [tiles_of_append, tiles_of_cons, coalesced_middle] at hcoal
  have hlen : 0 < s.heap.mList.fresh := (Nat.zero_le p).trans_lt (h.held.used (p, c) (by simp))
  have hfuel : (s.heap.mList.assign p fun c => { c with free := true }).fresh + 1 =
      (s.heap.mList.fresh - 1) + 2 := by
    change s.heap.mList.fresh + 1 = _
    omega
  obtain ⟨zs, hheld, hjoins, hzs⟩ := @mergeLoop_holds _ as bs p { c with free := true }
    s.heap.mHeapSize.toNat hassign (hlay.pos (p, c) hx) rfl hcoal.1 hcoal.2.1
    (s.heap.mList.fresh - 1)
  refine ⟨_, as, bs, zs, p, c, rfl, rfl, ?_, hheld, hjoins, hzs⟩
  rw [deallocate, dealloc, hfind]
  dsimp only
  rw [hfuel]

theorem deallocate_inv (pagesize : PageSize) (h : Inv s xs) {o : U32} {region : Region}
    (ho : s.live o = some region) :
    ∃ s' zs, step pagesize s (.deallocate o) = some s' ∧ Inv s' zs := by
  have hlay := h.layout_of_live ho
  obtain ⟨l, as, bs, zs, p, c, rfl, rfl, hresult, hheld, hjoins, hcoal⟩ := deallocate_frees h ho
  -- the used chunks are the others
  have hused : ∀ d : Chunk, d.free = false → (d ∈ zs.map Prod.snd ↔
      d ∈ (as ++ bs).map Prod.snd) := by
    intro d hd
    have hne : d ≠ { c with free := true } := fun heq => by simp [heq] at hd
    rw [hjoins.used d hd]
    simp [hne]
  have hothers : ∀ x ∈ as ++ bs, x ∈ as ++ (p, c) :: bs := by
    intro x hx
    rcases List.mem_append.mp hx with hx | hx <;> simp [hx]
  have hne : ∀ x ∈ as ++ bs, offset x.2 ≠ offset c := by
    intro x hx heq
    have hxc : x = (p, c) := hlay.offset_inj (hothers x hx) (y := (p, c)) (by simp) heq
    exact h.held.ne_of_mem hx (by rw [hxc])
  have hfreed : Layout s.heap.mHeapSize.toNat (as ++ (p, { c with free := true }) :: bs) := by
    refine ⟨?_, hlay.bound, fun x hx => ?_⟩
    · have htiles := hlay.tiles
      rw [tiles_of_append, tiles_of_cons, tiles_middle] at htiles ⊢
      exact htiles
    · rcases List.mem_append.mp hx with hx | hx
      · exact hlay.pos x (by simp [hx])
      · rcases List.mem_cons.mp hx with rfl | hx
        · exact hlay.pos (p, c) (by simp)
        · exact hlay.pos x (by simp [hx])
  have hzs := hjoins.layout hfreed
  refine ⟨{
    heap := { s.heap with mList := l }
    live := Function.update s.live (offset c) none }, zs, ?_, hheld, hzs.tiles, fun _ => hzs.pos,
    hcoal, ?_, fun x hx hfree => ?_, fun o r hr => ?_⟩
  · rw [step, ho, hresult]
    rfl
  · rintro rfl
    have hpos := (hlay.mem (x := (p, c)) (by simp))
    have hheap : 0 = s.heap.mHeapSize.toNat := hzs.tiles
    dsimp only at hpos
    lia
  · have hmem : x.2 ∈ (as ++ bs).map Prod.snd := (hused x.2 hfree).mp (List.mem_map_of_mem hx)
    obtain ⟨y, hy, heq⟩ := List.mem_map.mp hmem
    obtain ⟨r, hr, hrest⟩ := h.used y (hothers y hy) (heq ▸ hfree)
    rw [← heq]
    exact ⟨r, (Function.update_of_ne (hne y hy) ..).trans hr, hrest⟩
  · dsimp only at hr
    have ho' : o ≠ offset c := by
      rintro rfl
      rw [Function.update_self] at hr
      cases hr
    rw [Function.update_of_ne ho'] at hr
    obtain ⟨x, hx, hfree, rfl⟩ := h.live o r hr
    have hx' : x ∈ as ++ bs := by
      rcases List.mem_append.mp hx with hx | hx
      · exact List.mem_append_left _ hx
      · rcases List.mem_cons.mp hx with rfl | hx
        · exact absurd rfl ho'
        · exact List.mem_append_right _ hx
    obtain ⟨y, hy, heq⟩ := List.mem_map.mp ((hused x.2 hfree).mpr (List.mem_map_of_mem hx'))
    exact ⟨y, hy, heq ▸ hfree, by rw [heq]⟩

/-! ## Runs -/

theorem deallocate_answered (h : Inv s xs) (o : U32) :
    Answered pagesize s xs (.deallocate o) := by
  intro hlive
  obtain ⟨region, ho⟩ := Option.isSome_iff_exists.mp hlive
  obtain ⟨l, as, bs, zs, p, c, -, -, hresult, -⟩ := deallocate_frees h ho
  rw [hresult]

theorem step_inv {s' : Session} {e : Event} (h : Inv s xs) (hrange : InRange e)
    (hstep : step pagesize s e = some s') : ∃ zs, Inv s' zs := by
  cases e with
  | allocate size flags =>
    by_cases hsize : size = 0#32
    · rw [step, if_pos hsize] at hstep
      cases hstep
    · obtain ⟨s'', zs, hstep', hinv⟩ := allocate_inv pagesize flags h hsize hrange
      cases hstep.symm.trans hstep'
      exact ⟨zs, hinv⟩
  | deallocate o =>
    cases ho : s.live o with
    | none =>
      rw [step, ho] at hstep
      cases hstep
    | some region =>
      obtain ⟨s'', zs, hstep', hinv⟩ := deallocate_inv pagesize h ho
      cases hstep.symm.trans hstep'
      exact ⟨zs, hinv⟩

theorem event_answered {e : Event} (h : Inv s xs) (hrange : InRange e) :
    Answered pagesize s xs e := by
  cases e with
  | allocate size flags => exact allocate_answered h hrange
  | deallocate o => exact deallocate_answered h o

/-- Along every run whose sizes do not wrap, each request is answered as it should be, and the
chunks tile the heap in every state. -/
theorem heap_tiled (pagesize : PageSize) (size : U32) (es : List Event)
    (hrange : Along (step pagesize) (fun _ e => InRange e) (.initial pagesize size) es) :
    Along (step pagesize) (fun s e => ∃ xs, Regular s xs ∧ Answered pagesize s xs e)
        (.initial pagesize size) es ∧
      ∀ s ∈ run (step pagesize) (.initial pagesize size) es, ∃ xs, Regular s xs := by
  have hstep : ∀ s e s', InRange e → step pagesize s e = some s' → (∃ xs, Inv s xs) →
      ∃ xs, Inv s' xs := by
    rintro s e s' he hs' ⟨xs, hxs⟩
    exact step_inv hxs he hs'
  refine ⟨hrange.imp_invariant ?_ hstep (inv_initial pagesize size), fun s hs => ?_⟩
  · rintro s e ⟨xs, hxs⟩ he
    exact ⟨xs, hxs.regular, event_answered hxs he⟩
  · obtain ⟨xs, hxs⟩ := run_invariant_along hstep hrange hs (inv_initial pagesize size)
    exact ⟨xs, hxs.regular⟩

def pages4K : PageSize := ⟨12, by decide, by decide⟩

theorem heap_tiled_pages :
    Along (step pages4K) (fun s e => ∃ xs, Regular s xs ∧ Answered pages4K s xs e)
        (.initial pages4K 20000#32)
        [.allocate 100#32 0#32, .allocate 100#32 PAGE_ALIGNED, .allocate 5000#32 PAGE_ALIGNED,
          .deallocate 4096#32, .deallocate 0#32, .deallocate 8192#32] ∧
      ∀ s ∈ run (step pages4K) (.initial pages4K 20000#32)
        [.allocate 100#32 0#32, .allocate 100#32 PAGE_ALIGNED, .allocate 5000#32 PAGE_ALIGNED,
          .deallocate 4096#32, .deallocate 0#32, .deallocate 8192#32], ∃ xs, Regular s xs :=
  heap_tiled _ _ _ (by decide +kernel)

/-- A size that wraps is granted in a heap of one page, and gets no bytes. -/
theorem wrapped_size_granted :
    ¬ ∀ (pagesize : PageSize) (size : U32) (es : List Event),
      Along (step pagesize) (fun s e => ∃ xs, Regular s xs ∧ Answered pagesize s xs e)
        (.initial pagesize size) es := by
  intro h
  obtain ⟨⟨xs, -, hanswered⟩, -⟩ := h pages4K 4096#32 [.allocate (-1#32) 0#32]
  have hgranted := hanswered (by decide)
  dsimp only at hgranted
  rw [if_neg (by decide +kernel)] at hgranted
  exact absurd hgranted.2.1 (by decide +kernel)

end AudioFlinger.MemoryDealer
