import AudioFlinger.HeapCache.Model

/-!
# The count of a cached heap

`find_heap` counts every call of `assertMapped`, and each of them has to take its count back or
leave it to a proxy that got the mapping. A call that finds its proxy filled in by another
call, or that cannot duplicate the descriptor, leaves a count that nobody takes back.
-/

namespace AudioFlinger.HeapCache

open Foundation

namespace World

variable {w w' u : World} {e : Event} {c : Call} {b : BpMemoryHeap} {n k h object : ℕ}

/-- What the count is for. -/
structure Balanced (w : World) : Prop where
  count : ∀ i ∈ w.mHeapCache, i.count = w.users i.heap
  needed : ∀ i ∈ w.mHeapCache, 0 < w.users i.heap
  cached : ∀ h, 0 < w.users h → ∃ i ∈ w.mHeapCache, i.heap = h
  mapped : ∀ b ∈ w.objects, ∀ h ∈ b.mapping, (w.heaps h).mapped = true ∧ (w.heaps h).unmaps = 0
  gone : ∀ h < w.made, w.users h = 0 → (w.heaps h).unmaps = if (w.heaps h).mapped then 1 else 0

/-! ## Users -/

theorem users_erase (hc : c ∈ w.calls) (h : ℕ) :
    w.users h = { w with calls := w.calls.erase c }.users h + if h = c.heap then 1 else 0 := by
  have hperm := (List.perm_cons_erase hc).countP_eq fun c => decide (c.heap = h)
  simp only [users, hperm, List.countP_cons, decide_eq_true_eq, eq_comm (a := c.heap)]
  omega

theorem users_setPhase (hc : c ∈ w.calls) (phase : Phase) (h : ℕ) : (w.setPhase c phase).users h = w.users h := by
  have herase := users_erase hc h
  simp only [users, setPhase, List.countP_cons, decide_eq_true_eq, eq_comm (a := c.heap)] at herase ⊢
  omega

theorem find_some (hfind : w.find object = some b) : b ∈ w.objects ∧ b.self = object :=
  KeyedList.lookup_some hfind

theorem users_setMapping (hdistinct : (w.objects.map BpMemoryHeap.self).Nodup) (hfind : w.find object = some b)
    (hnone : b.mapping = none) (h k : ℕ) :
    (w.setMapping object h).users k = w.users k + if k = h then 1 else 0 := by
  obtain ⟨hmem, rfl⟩ := find_some hfind
  have hsum := KeyedList.sum_update hdistinct hmem (fun b => { b with mapping := some h })
    fun b => (decide (b.mapping = some k)).toNat
  simp only [users, setMapping, KeyedList.countP_eq_sum, hnone, reduceCtorEq, decide_false, Bool.toNat_false,
    Option.some.injEq, eq_comm (a := h)] at hsum ⊢
  by_cases hk : k = h
  · simp only [hk, decide_true, Bool.toNat_true, if_true] at hsum ⊢
    omega
  · simp only [hk, decide_false, Bool.toNat_false, if_false] at hsum ⊢
    omega

theorem users_drop (hfind : w.find object = some b) (k : ℕ) :
    w.users k = { w with objects := w.objects.eraseP fun x => x.self = b.self }.users k +
      if b.mapping = some k then 1 else 0 := by
  obtain ⟨-, rfl⟩ := find_some hfind
  have hsum := KeyedList.sum_erase hfind fun b => (decide (b.mapping = some k)).toNat
  simp only [users, KeyedList.countP_eq_sum]
  by_cases hk : b.mapping = some k
  · simp only [hk, decide_true, Bool.toNat_true, if_true] at hsum ⊢
    omega
  · simp only [hk, decide_false, Bool.toNat_false, if_false] at hsum ⊢
    omega

/-! ## The count -/

/-- The count is that of the users, and `n` more. -/
structure Counted (n : ℕ) (w : World) : Prop where
  count : ∀ i ∈ w.mHeapCache, i.count = w.users i.heap + n
  needed : ∀ i ∈ w.mHeapCache, 0 < w.users i.heap + n
  cached : ∀ h, 0 < w.users h → ∃ i ∈ w.mHeapCache, i.heap = h
  leaked : 0 < n → w.mHeapCache.isSome = true

namespace Counted

theorem same (hw : Counted n w) (hcache : u.mHeapCache = w.mHeapCache) (husers : ∀ k, u.users k = w.users k) :
    Counted n u where
  count i hi := by
    rw [husers]
    exact hw.count i (hcache ▸ hi)
  needed i hi := by
    rw [husers]
    exact hw.needed i (hcache ▸ hi)
  cached k hk := by
    rw [hcache]
    exact hw.cached k (husers k ▸ hk)
  leaked hn := hcache ▸ hw.leaked hn

/-- A user is gone, and its count is still there. -/
theorem lose (hw : Counted n w) (hcache : u.mHeapCache = w.mHeapCache)
    (husers : ∀ k, w.users k = u.users k + if k = h then 1 else 0) : Counted (n + 1) u := by
  have hpos : 0 < w.users h := by
    rw [husers, if_pos rfl]
    exact Nat.succ_pos _
  obtain ⟨j, hj, rfl⟩ := hw.cached h hpos
  have hself := husers j.heap
  rw [if_pos rfl] at hself
  refine ⟨fun i hi => ?_, fun i _ => Nat.succ_pos _, fun k hk => ?_, fun _ => ?_⟩
  · have hij : i = j := Option.some.inj ((hcache ▸ hi : w.mHeapCache = some i).symm.trans hj)
    have hcount := hw.count j hj
    rw [hij, hcount, hself]
    push_cast
    omega
  · rw [hcache]
    exact hw.cached k (by rw [husers]; omega)
  · rw [hcache, hj]
    rfl

/-- A count that was there gets its user. -/
theorem gain (hw : Counted (n + 1) w) (hcache : u.mHeapCache = w.mHeapCache)
    (hcached : ∃ i ∈ w.mHeapCache, i.heap = h) (husers : ∀ k, u.users k = w.users k + if k = h then 1 else 0) :
    Counted n u := by
  obtain ⟨j, hj, rfl⟩ := hcached
  have hself := husers j.heap
  rw [if_pos rfl] at hself
  refine ⟨fun i hi => ?_, fun i hi => ?_, fun k hk => ?_, fun _ => ?_⟩
  · have hij : i = j := Option.some.inj ((hcache ▸ hi : w.mHeapCache = some i).symm.trans hj)
    have hcount := hw.count j hj
    rw [hij, hcount, hself]
    push_cast
    omega
  · have hij : i = j := Option.some.inj ((hcache ▸ hi : w.mHeapCache = some i).symm.trans hj)
    rw [hij, hself]
    omega
  · rw [hcache]
    by_cases hkj : k = j.heap
    · exact ⟨j, hj, hkj.symm⟩
    · refine hw.cached k ?_
      rw [husers, if_neg hkj] at hk
      exact hk
  · rw [hcache, hj]
    rfl

theorem free (hw : Counted (n + 1) w) : Counted n w.free_heap := by
  obtain ⟨i, hi⟩ := Option.isSome_iff_exists.mp (hw.leaked (Nat.succ_pos n))
  have hcount := hw.count i hi
  simp only [free_heap, hi]
  split
  next hone =>
    have hzero : w.users i.heap = 0 ∧ n = 0 := by
      push_cast at hcount
      omega
    refine ⟨nofun, nofun, fun k hk => ?_, fun hn => absurd hzero.2 hn.ne'⟩
    obtain ⟨j, hj, rfl⟩ := hw.cached k hk
    cases hi.symm.trans hj
    exact absurd hzero.1 hk.ne'
  next hone =>
    have hpos : 0 < w.users i.heap + n := by
      push_cast at hcount
      omega
    refine ⟨fun j hj => ?_, fun j hj => ?_, fun k hk => ?_, fun _ => rfl⟩
    · cases hj
      simp only [hcount, users]
      push_cast
      omega
    · cases hj
      exact hpos
    · obtain ⟨j, hj, rfl⟩ := hw.cached k hk
      cases hi.symm.trans hj
      exact ⟨_, rfl, rfl⟩

theorem begin (hw : Counted n w) (object : ℕ) : Counted n (w.begin object) := by
  cases hcache : w.mHeapCache with
  | some i =>
    have hcount := hw.count i hcache
    simp only [World.begin, find_heap, hcache]
    refine ⟨fun j hj => ?_, fun j hj => ?_, fun k hk => ?_, fun _ => rfl⟩
    · cases hj
      simp only [hcount, users, List.countP_cons, decide_true, if_true]
      push_cast
      omega
    · cases hj
      simp only [users, List.countP_cons, decide_true, if_true]
      omega
    · by_cases hk' : i.heap = k
      · exact ⟨_, rfl, hk'⟩
      · simp only [users, List.countP_cons, hk', decide_false, Bool.false_eq_true, if_false, Nat.add_zero] at hk
        obtain ⟨j, hj, rfl⟩ := hw.cached k hk
        cases hcache.symm.trans hj
        exact ⟨_, rfl, rfl⟩
  | none =>
    have hzero : ∀ k, w.users k = 0 := by
      intro k
      by_contra hne
      obtain ⟨j, hj, -⟩ := hw.cached k (Nat.pos_of_ne_zero hne)
      cases hcache.symm.trans hj
    have hn : n = 0 := by
      by_contra hne
      have hsome := hw.leaked (Nat.pos_of_ne_zero hne)
      simp [hcache] at hsome
    have husers : ∀ k, (w.begin object).users k = if w.made = k then 1 else 0 := by
      intro k
      have hk := hzero k
      simp only [users] at hk
      simp only [World.begin, find_heap, hcache, users, List.countP_cons, decide_eq_true_eq]
      omega
    have hnew : (w.begin object).mHeapCache = some ⟨w.made, 1⟩ := by simp [World.begin, find_heap, hcache]
    refine ⟨fun i hi => ?_, fun i hi => ?_, fun k hk => ?_, fun hpos => absurd hn hpos.ne'⟩
    · cases hnew.symm.trans hi
      simp [husers, hn]
    · cases hnew.symm.trans hi
      simp only [husers, if_true]
      omega
    · refine ⟨_, hnew, ?_⟩
      by_contra hne
      rw [husers, if_neg hne] at hk
      exact Nat.lt_irrefl 0 hk

end Counted

/-! ## The cached heaps -/

theorem referenced_iff : w.referenced k = true ↔ (∃ i ∈ w.mHeapCache, i.heap = k) ∨ ∃ c ∈ w.calls, c.heap = k := by
  rw [referenced, Bool.or_eq_true, Option.any_eq_true, List.any_eq_true]
  simp

/-- A cached heap is alive as long as it is referenced, and unmapped once when it is not. -/
structure Held (w : World) : Prop where
  bound : ∀ k, w.referenced k = true → k < w.made
  alive : ∀ k, w.referenced k = true → (w.heaps k).alive = true ∧ (w.heaps k).unmaps = 0
  gone : ∀ k < w.made, w.referenced k = false →
    (w.heaps k).alive = false ∧ (w.heaps k).unmaps = if (w.heaps k).mapped then 1 else 0

/-- The same before the heaps without references are destroyed. -/
structure Loose (w : World) : Prop where
  bound : ∀ k, w.referenced k = true → k < w.made
  alive : ∀ k, w.referenced k = true → (w.heaps k).alive = true
  unmaps : ∀ k < w.made, (w.heaps k).unmaps = if (w.heaps k).alive = false ∧ (w.heaps k).mapped then 1 else 0

theorem Held.loose (h : Held w) (hheaps : u.heaps = w.heaps) (hmade : u.made = w.made)
    (hrefs : ∀ k, u.referenced k = true → w.referenced k = true) : Loose u where
  bound k hk := hmade ▸ h.bound k (hrefs k hk)
  alive k hk := hheaps ▸ (h.alive k (hrefs k hk)).1
  unmaps k hk := by
    rw [hmade] at hk
    rw [hheaps]
    cases href : w.referenced k with
    | true =>
      obtain ⟨halive, hunmaps⟩ := h.alive k href
      simp [halive, hunmaps]
    | false =>
      obtain ⟨halive, hunmaps⟩ := h.gone k hk href
      simp [halive, hunmaps]

theorem sweep_heap (w : World) (k : ℕ) :
    w.sweep.heaps k = if (w.heaps k).alive && !w.referenced k then
      { w.heaps k with
        alive := false
        unmaps := if (w.heaps k).mapped then (w.heaps k).unmaps + 1 else (w.heaps k).unmaps }
    else w.heaps k := rfl

theorem sweep_mapped (w : World) (k : ℕ) : (w.sweep.heaps k).mapped = (w.heaps k).mapped := by
  rw [sweep_heap]
  split <;> rfl

theorem Loose.sweep (h : Loose w) : Held w.sweep where
  bound := h.bound
  alive k hk := by
    have href : w.referenced k = true := hk
    have halive := h.alive k href
    have hunmaps := h.unmaps k (h.bound k href)
    rw [halive] at hunmaps
    rw [sweep_heap, if_neg (by simp [href])]
    exact ⟨halive, by simpa using hunmaps⟩
  gone k hk href := by
    have hnone : w.referenced k = false := href
    have hunmaps := h.unmaps k hk
    rw [sweep_heap]
    cases halive : (w.heaps k).alive with
    | true =>
      simp only [halive, Bool.true_eq_false, false_and, if_false] at hunmaps
      simp only [hnone, Bool.not_false, Bool.and_self, if_true, true_and, hunmaps]
    | false =>
      simp only [halive, true_and] at hunmaps
      simp only [Bool.false_and, Bool.false_eq_true, if_false, halive, true_and, hunmaps]

/-! ## Mappings -/

/-- Who has or takes over a mapping, has it from a mapped heap. -/
structure Backed (w : World) : Prop where
  objects : ∀ b ∈ w.objects, ∀ h ∈ b.mapping, (w.heaps h).mapped = true
  filling : ∀ c ∈ w.calls, c.phase = .filling → (w.heaps c.heap).mapped = true

/-- Of every reachable state, after `n` counts that nobody takes back. -/
structure Inv (n : ℕ) (w : World) : Prop where
  counted : Counted n w
  held : Held w
  backed : Backed w
  fresh : ∀ b ∈ w.objects, b.self < w.created
  distinct : (w.objects.map BpMemoryHeap.self).Nodup

theorem inv_new : Inv 0 new where
  counted := ⟨nofun, nofun, fun _ hpos => absurd hpos (Nat.lt_irrefl 0), nofun⟩
  held := ⟨nofun, nofun, fun k hk => absurd hk (Nat.not_lt_zero k)⟩
  backed := ⟨nofun, nofun⟩
  fresh := nofun
  distinct := List.nodup_nil

/-! ## Steps -/

theorem referenced_setPhase (hc : c ∈ w.calls) (phase : Phase) (k : ℕ) :
    (w.setPhase c phase).referenced k = w.referenced k := by
  rw [Bool.eq_iff_iff, referenced_iff, referenced_iff]
  refine or_congr Iff.rfl ⟨?_, ?_⟩
  · rintro ⟨d, hd, hk⟩
    rcases List.mem_cons.mp hd with rfl | hd
    · exact ⟨c, hc, hk⟩
    · exact ⟨d, List.mem_of_mem_erase hd, hk⟩
  · rintro ⟨d, hd, hk⟩
    by_cases heq : d = c
    · exact ⟨_, List.mem_cons_self, heq ▸ hk⟩
    · exact ⟨d, List.mem_cons_of_mem _ ((List.mem_erase_of_ne heq).mpr hd), hk⟩

theorem referenced_erase (hk : { w with calls := w.calls.erase c }.referenced k = true) : w.referenced k = true := by
  rw [referenced_iff] at hk ⊢
  refine hk.imp_right ?_
  rintro ⟨d, hd, hdk⟩
  exact ⟨d, List.mem_of_mem_erase hd, hdk⟩

theorem referenced_free (hk : w.free_heap.referenced k = true) : w.referenced k = true := by
  rw [referenced_iff] at hk ⊢
  cases hcache : w.mHeapCache with
  | none =>
    simp only [free_heap, hcache] at hk
    exact hk
  | some i =>
    simp only [free_heap, hcache] at hk
    split at hk
    · rcases hk with ⟨j, hj, -⟩ | hcall
      · cases hj
      · exact .inr hcall
    · rcases hk with ⟨j, hj, hjk⟩ | hcall
      · cases hj
        exact .inl ⟨i, rfl, hjk⟩
      · exact .inr hcall

@[simp] theorem free_heap_heaps (w : World) : w.free_heap.heaps = w.heaps := by
  rw [free_heap]
  cases w.mHeapCache with
  | none => rfl
  | some i => dsimp only; split <;> rfl

@[simp] theorem free_heap_made (w : World) : w.free_heap.made = w.made := by
  rw [free_heap]
  cases w.mHeapCache with
  | none => rfl
  | some i => dsimp only; split <;> rfl

@[simp] theorem free_heap_calls (w : World) : w.free_heap.calls = w.calls := by
  rw [free_heap]
  cases w.mHeapCache with
  | none => rfl
  | some i => dsimp only; split <;> rfl

@[simp] theorem free_heap_objects (w : World) : w.free_heap.objects = w.objects ∧ w.free_heap.created = w.created := by
  rw [free_heap]
  cases w.mHeapCache with
  | none => exact ⟨rfl, rfl⟩
  | some i => dsimp only; split <;> exact ⟨rfl, rfl⟩

theorem Inv.create (h : Inv n w) :
    Inv n { w with
      objects := ⟨w.created, none⟩ :: w.objects
      created := w.created + 1 } where
  counted := h.counted.same rfl fun k => by simp [users]
  held := ⟨h.held.bound, h.held.alive, h.held.gone⟩
  backed := by
    refine ⟨fun b hb k hk => ?_, h.backed.filling⟩
    rcases List.mem_cons.mp hb with rfl | hb
    · cases hk
    · exact h.backed.objects b hb k hk
  fresh b hb := by
    rcases List.mem_cons.mp hb with rfl | hb
    · exact Nat.lt_succ_self _
    · exact Nat.lt_succ_of_lt (h.fresh b hb)
  distinct := by
    rw [List.map_cons, List.nodup_cons]
    refine ⟨fun hmem => ?_, h.distinct⟩
    obtain ⟨b, hb, hself⟩ := List.mem_map.mp hmem
    exact (h.fresh b hb).ne hself

/-- Without an entry in the cache there are no users. -/
theorem Counted.unused (h : Counted n w) (hcache : w.mHeapCache = none) (k : ℕ) :
    w.users k = 0 ∧ w.referenced k = false := by
  have hzero : w.users k = 0 := by
    by_contra hne
    obtain ⟨i, hi, -⟩ := h.cached k (Nat.pos_of_ne_zero hne)
    cases hcache.symm.trans hi
  refine ⟨hzero, Bool.eq_false_iff.mpr fun href => ?_⟩
  rcases referenced_iff.mp href with ⟨i, hi, -⟩ | ⟨c, hc, hk⟩
  · cases hcache.symm.trans hi
  · have hpos : 0 < w.calls.countP fun c => c.heap = k := List.countP_pos_iff.mpr ⟨c, hc, by simpa using hk⟩
    rw [users] at hzero
    omega

theorem Inv.begin (h : Inv n w) (object : ℕ) : Inv n (w.begin object) := by
  have hcounted := h.counted.begin object
  cases hcache : w.mHeapCache with
  | some i =>
    have hi : w.referenced i.heap = true := referenced_iff.mpr (.inl ⟨i, hcache, rfl⟩)
    have hrefs : ∀ k, (w.begin object).referenced k = w.referenced k := by
      intro k
      by_cases hk : i.heap = k
      · subst hk
        rw [hi]
        simp [World.begin, find_heap, hcache, referenced]
      · simp [World.begin, find_heap, hcache, referenced, hk]
    refine ⟨hcounted, ?_, ?_, ?_, ?_⟩
    · simp only [World.begin, find_heap, hcache] at hrefs ⊢
      refine ⟨fun k hk => h.held.bound k ?_, fun k hk => h.held.alive k ?_, fun k hk href => h.held.gone k hk ?_⟩
      · exact hrefs k ▸ hk
      · exact hrefs k ▸ hk
      · exact hrefs k ▸ href
    · simp only [World.begin, find_heap, hcache]
      refine ⟨h.backed.objects, fun c hc hphase => ?_⟩
      rcases List.mem_cons.mp hc with rfl | hc
      · cases hphase
      · exact h.backed.filling c hc hphase
    · simpa only [World.begin, find_heap, hcache] using h.fresh
    · simpa only [World.begin, find_heap, hcache] using h.distinct
  | none =>
    have hunused := h.counted.unused hcache
    have hrefs : ∀ k, (w.begin object).referenced k = true ↔ k = w.made := by
      intro k
      have hk := (hunused k).2
      simp only [referenced, hcache, Option.any_none, Bool.false_or] at hk
      simp only [World.begin, find_heap, hcache, referenced, Option.any_some, List.any_cons, hk, Bool.or_false,
        Bool.or_self, decide_eq_true_eq]
      exact eq_comm
    have hheaps : (w.begin object).heaps = Function.update w.heaps w.made ⟨true, false, 0⟩ := by
      simp [World.begin, find_heap, hcache]
    have hmade : (w.begin object).made = w.made + 1 := by simp [World.begin, find_heap, hcache]
    refine ⟨hcounted, ⟨fun k hk => ?_, fun k hk => ?_, fun k hk href => ?_⟩, ⟨fun b hb k hk => ?_, fun c hc hphase => ?_⟩,
      ?_, ?_⟩
    · rw [hmade, (hrefs k).mp hk]
      exact Nat.lt_succ_self _
    · rw [hheaps, (hrefs k).mp hk, Function.update_self]
      exact ⟨rfl, rfl⟩
    · have hne : k ≠ w.made := fun heq => by
        rw [(hrefs k).mpr heq] at href
        cases href
      rw [hheaps, Function.update_of_ne hne]
      rw [hmade] at hk
      exact h.held.gone k (by omega) (hunused k).2
    · have hpos : 0 < w.objects.countP fun b => b.mapping = some k := by
        refine List.countP_pos_iff.mpr ⟨b, ?_, by simpa using hk⟩
        simpa only [World.begin, find_heap, hcache] using hb
      have hzero := (hunused k).1
      rw [users] at hzero
      omega
    · have hcalls : c = ⟨object, w.made, .found⟩ ∨ c ∈ w.calls := by
        simpa only [World.begin, find_heap, hcache, List.mem_cons] using hc
      rcases hcalls with rfl | hmem
      · cases hphase
      · have hpos : 0 < w.calls.countP fun d => d.heap = c.heap := List.countP_pos_iff.mpr ⟨c, hmem, by simp⟩
        have hzero := (hunused c.heap).1
        rw [users] at hzero
        omega
    · simpa only [World.begin, find_heap, hcache] using h.fresh
    · simpa only [World.begin, find_heap, hcache] using h.distinct

theorem Inv.mapHeap (h : Inv n w) (hc : c ∈ w.calls) (mmaps : Bool) : Inv n (w.mapHeap c mmaps) := by
  have href : w.referenced c.heap = true := referenced_iff.mpr (.inr ⟨c, hc, rfl⟩)
  have hrefs : ∀ k, (w.mapHeap c mmaps).referenced k = w.referenced k := referenced_setPhase hc .really
  have hheap : ∀ k, ((w.mapHeap c mmaps).heaps k).alive = (w.heaps k).alive ∧
      ((w.mapHeap c mmaps).heaps k).unmaps = (w.heaps k).unmaps ∧
      (k ≠ c.heap → ((w.mapHeap c mmaps).heaps k).mapped = (w.heaps k).mapped) ∧
      ((w.heaps k).mapped = true → ((w.mapHeap c mmaps).heaps k).mapped = true) := by
    intro k
    by_cases hk : k = c.heap
    · subst hk
      simp [World.mapHeap, setPhase]
      exact fun hmapped => .inl hmapped
    · simp [World.mapHeap, setPhase, hk]
  refine ⟨h.counted.same rfl (users_setPhase hc .really), ⟨fun k hk => ?_, fun k hk => ?_, fun k hk hnone => ?_⟩,
    ⟨fun b hb k hk => ?_, fun d hd hphase => ?_⟩, h.fresh, h.distinct⟩
  · exact h.held.bound k (hrefs k ▸ hk)
  · rw [(hheap k).1, (hheap k).2.1]
    exact h.held.alive k (hrefs k ▸ hk)
  · have hne : k ≠ c.heap := by
      rintro rfl
      rw [hrefs, href] at hnone
      cases hnone
    rw [(hheap k).1, (hheap k).2.1, (hheap k).2.2.1 hne]
    exact h.held.gone k hk (hrefs k ▸ hnone)
  · exact (hheap k).2.2.2 (h.backed.objects b hb k hk)
  · rcases List.mem_cons.mp hd with rfl | hd
    · cases hphase
    · exact (hheap d.heap).2.2.2 (h.backed.filling d (List.mem_of_mem_erase hd) hphase)

theorem Inv.look (h : Inv n w) (hc : c ∈ w.calls) :
    Inv n (w.setPhase c (if (w.heaps c.heap).mapped then .filling else .freeing)) := by
  have hrefs := referenced_setPhase hc (if (w.heaps c.heap).mapped then .filling else .freeing)
  refine ⟨h.counted.same rfl (users_setPhase hc _), ⟨fun k hk => ?_, fun k hk => ?_, fun k hk hnone => ?_⟩,
    ⟨h.backed.objects, fun d hd hphase => ?_⟩, h.fresh, h.distinct⟩
  · exact h.held.bound k (hrefs k ▸ hk)
  · exact h.held.alive k (hrefs k ▸ hk)
  · exact h.held.gone k hk (hrefs k ▸ hnone)
  · rcases List.mem_cons.mp hd with rfl | hd
    · cases hmapped : (w.heaps c.heap).mapped with
      | true => exact hmapped
      | false => simp [hmapped] at hphase
    · exact h.backed.filling d (List.mem_of_mem_erase hd) hphase

/-- The last reference of a heap may be gone. -/
theorem Inv.sweep (hcounted : Counted n u) (hloose : Loose u) (hbacked : Backed u)
    (hfresh : ∀ b ∈ u.objects, b.self < u.created) (hdistinct : (u.objects.map BpMemoryHeap.self).Nodup) :
    Inv n u.sweep where
  counted := hcounted.same rfl fun _ => rfl
  held := hloose.sweep
  backed := ⟨fun b hb k hk => sweep_mapped u k ▸ hbacked.objects b hb k hk,
    fun c hc hphase => sweep_mapped u c.heap ▸ hbacked.filling c hc hphase⟩
  fresh := hfresh
  distinct := hdistinct

theorem Inv.fillIn (h : Inv n w) (hc : c ∈ w.calls) (hphase : c.phase = .filling) (dups : Bool) :
    Inv (if w.unset c.object ∧ dups then n else n + 1) (w.fillIn c (w.unset c.object) dups) := by
  have hlose : Counted (n + 1) { w with calls := w.calls.erase c } := h.counted.lose rfl (users_erase hc)
  have hloose : Loose { w with calls := w.calls.erase c } := h.held.loose rfl rfl fun _ hk => referenced_erase hk
  have hmapped := h.backed.filling c hc hphase
  simp only [World.fillIn, Bool.and_eq_true]
  split
  next hboth =>
    obtain ⟨b, hfind, hnone⟩ := (Option.any_eq_true _ _).mp hboth.1
    have hcached : ∃ i ∈ w.mHeapCache, i.heap = c.heap := by
      refine h.counted.cached c.heap ?_
      rw [users_erase hc, if_pos rfl]
      exact Nat.succ_pos _
    refine Inv.sweep (hlose.gain rfl hcached ?_) ⟨hloose.bound, hloose.alive, hloose.unmaps⟩
      ⟨fun d hd k hk => ?_, fun d hd => h.backed.filling d (List.mem_of_mem_erase hd)⟩ (fun d hd => ?_) ?_
    · exact users_setMapping (w := { w with calls := w.calls.erase c }) h.distinct hfind (by simpa using hnone) c.heap
    · obtain ⟨d', hd', rfl⟩ := List.mem_map.mp hd
      split at hk
      · cases hk
        exact hmapped
      · exact h.backed.objects d' hd' k hk
    · obtain ⟨d', hd', rfl⟩ := List.mem_map.mp hd
      split
      · exact h.fresh d' hd'
      · exact h.fresh d' hd'
    · have hkeys : (KeyedList.update BpMemoryHeap.self c.object (fun b => { b with mapping := some c.heap })
          w.objects).map BpMemoryHeap.self = w.objects.map BpMemoryHeap.self := by
        apply KeyedList.map_key_update
        intro b hself
        exact hself
      exact hkeys.symm ▸ h.distinct
  next =>
    exact Inv.sweep hlose hloose
      ⟨h.backed.objects, fun d hd => h.backed.filling d (List.mem_of_mem_erase hd)⟩ h.fresh h.distinct

/-- A count is taken back. -/
theorem Inv.free (hcounted : Counted (n + 1) u) (hloose : Loose u) (hbacked : Backed u)
    (hfresh : ∀ b ∈ u.objects, b.self < u.created) (hdistinct : (u.objects.map BpMemoryHeap.self).Nodup) :
    Inv n u.free_heap.sweep := by
  refine Inv.sweep hcounted.free ⟨fun k hk => ?_, fun k hk => ?_, fun k hk => ?_⟩
    ⟨fun b hb k hk => ?_, fun c hc hphase => ?_⟩ (fun b hb => ?_) ?_
  · rw [free_heap_made]
    exact hloose.bound k (referenced_free hk)
  · rw [free_heap_heaps]
    exact hloose.alive k (referenced_free hk)
  · rw [free_heap_made] at hk
    rw [free_heap_heaps]
    exact hloose.unmaps k hk
  · rw [free_heap_heaps]
    exact hbacked.objects b ((free_heap_objects u).1 ▸ hb) k hk
  · rw [free_heap_heaps]
    exact hbacked.filling c (free_heap_calls u ▸ hc) hphase
  · rw [(free_heap_objects u).2]
    exact hfresh b ((free_heap_objects u).1 ▸ hb)
  · rw [(free_heap_objects u).1]
    exact hdistinct

theorem Inv.freeIn (h : Inv n w) (hc : c ∈ w.calls) : Inv n (w.freeIn c) :=
  Inv.free (h.counted.lose rfl (users_erase hc)) (h.held.loose rfl rfl fun _ hk => referenced_erase hk)
    ⟨h.backed.objects, fun d hd => h.backed.filling d (List.mem_of_mem_erase hd)⟩ h.fresh h.distinct

theorem Inv.drop (h : Inv n w) (hfind : w.find object = some b) : Inv n (w.drop b) := by
  have hsub : ∀ d ∈ w.objects.eraseP (fun x => x.self = b.self), d ∈ w.objects := fun d hd => List.mem_of_mem_eraseP hd
  have hdistinct : ((w.objects.eraseP fun x => x.self = b.self).map BpMemoryHeap.self).Nodup :=
    h.distinct.sublist (List.eraseP_sublist.map _)
  have hbacked : Backed { w with objects := w.objects.eraseP fun x => x.self = b.self } :=
    ⟨fun d hd => h.backed.objects d (hsub d hd), h.backed.filling⟩
  have husers := users_drop hfind
  rw [World.drop]
  cases hmapping : b.mapping with
  | none =>
    simp only [hmapping, reduceCtorEq, if_false, Nat.add_zero] at husers
    exact ⟨h.counted.same rfl fun k => (husers k).symm, ⟨h.held.bound, h.held.alive, h.held.gone⟩, hbacked,
      fun d hd => h.fresh d (hsub d hd), hdistinct⟩
  | some k =>
    simp only [hmapping, Option.some.injEq, eq_comm (a := k)] at husers
    exact Inv.free (h.counted.lose rfl husers) (h.held.loose rfl rfl fun _ hk => hk) hbacked
      (fun d hd => h.fresh d (hsub d hd)) hdistinct

/-- A step leaves a count that nobody takes back where it is not sound. -/
theorem Inv.step (h : Inv n w) (hstep : w.step e = some w') : Inv (if w.Sound e then n else n + 1) w' := by
  cases e with
  | create =>
    cases hstep
    exact h.create
  | assertMapped object =>
    cases hfind : w.find object with
    | none => simp [World.step, hfind] at hstep
    | some b =>
      simp only [World.step, hfind] at hstep
      split at hstep
      · cases hstep
        exact h.begin object
      · cases hstep
        exact h
  | assertReallyMapped c mmaps =>
    obtain ⟨⟨hc, -⟩, hw⟩ := Option.ite_none_right_eq_some.mp hstep
    cases hw
    exact h.mapHeap hc mmaps
  | look c =>
    obtain ⟨⟨hc, -⟩, hw⟩ := Option.ite_none_right_eq_some.mp hstep
    cases hw
    exact h.look hc
  | fill c dups =>
    obtain ⟨⟨hc, hphase⟩, hw⟩ := Option.ite_none_right_eq_some.mp hstep
    cases hw
    exact h.fillIn hc hphase dups
  | free c =>
    obtain ⟨⟨hc, -⟩, hw⟩ := Option.ite_none_right_eq_some.mp hstep
    cases hw
    exact h.freeIn hc
  | destroy object =>
    cases hfind : w.find object with
    | none => simp [World.step, hfind] at hstep
    | some b =>
      simp only [World.step, hfind] at hstep
      split at hstep
      · cases hstep
      · cases hstep
        exact h.drop hfind

/-- A run leaves no count behind exactly where all its steps are sound. -/
theorem Inv.run {es : List Event} (h : Inv n w) (hrun : Machine.run World.step w es = some w') :
    ∃ m, Inv (n + m) w' ∧ (m = 0 ↔ Machine.Along World.step Sound w es) := by
  induction es generalizing w n with
  | nil =>
    cases hrun
    exact ⟨0, h, fun _ => trivial, fun _ => rfl⟩
  | cons e es ih =>
    obtain ⟨v, hv, hrest⟩ := Machine.run_cons_some.mp hrun
    have hnext : Machine.Along World.step Sound w (e :: es) ↔ w.Sound e ∧ Machine.Along World.step Sound v es := by
      refine and_congr_right fun _ => ⟨fun hall => hall v hv, fun hall v' hv' => ?_⟩
      cases hv.symm.trans hv'
      exact hall
    have hstep := h.step hv
    by_cases hok : w.Sound e
    · rw [if_pos hok] at hstep
      obtain ⟨m, hm, hzero⟩ := ih hstep hrest
      exact ⟨m, hm, hzero.trans (by rw [hnext, and_iff_right hok])⟩
    · rw [if_neg hok] at hstep
      obtain ⟨m, hm, -⟩ := ih hstep hrest
      refine ⟨m + 1, by rwa [Nat.add_right_comm] at hm, ?_⟩
      simp [hnext, hok]

/-- The count, the cache and the mapping agree where no count was left behind. -/
theorem Inv.agrees (h : Inv n w) : w.Balanced ↔ n = 0 := by
  constructor
  · intro hbalanced
    by_contra hne
    obtain ⟨i, hi⟩ := Option.isSome_iff_exists.mp (h.counted.leaked (Nat.pos_of_ne_zero hne))
    have hcount := h.counted.count i hi
    have hclaimed := hbalanced.count i hi
    lia
  · rintro rfl
    refine ⟨fun i hi => ?_, fun i hi => h.counted.needed i hi, h.counted.cached, fun b hb k hk => ?_,
      fun k hk hzero => ?_⟩
    · simpa using h.counted.count i hi
    · have hpos : 0 < w.users k := by
        have hcount : 0 < w.objects.countP fun b => b.mapping = some k :=
          List.countP_pos_iff.mpr ⟨b, hb, by simpa using hk⟩
        rw [users]
        lia
      obtain ⟨i, hi, hik⟩ := h.counted.cached k hpos
      exact ⟨h.backed.objects b hb k hk, (h.held.alive k (referenced_iff.mpr (.inl ⟨i, hi, hik⟩))).2⟩
    · refine (h.held.gone k hk (Bool.eq_false_iff.mpr fun href => ?_)).2
      rcases referenced_iff.mp href with ⟨i, hi, rfl⟩ | ⟨c, hc, hck⟩
      · exact absurd hzero (h.counted.needed i hi).ne'
      · have hcount : 0 < w.calls.countP fun c => c.heap = k := List.countP_pos_iff.mpr ⟨c, hc, by simpa using hck⟩
        rw [users] at hzero
        lia

/-- In the state that a run reaches, the count, the cache and the mapping agree if and only if each
call of the run found its proxy without a mapping and could duplicate the descriptor. -/
theorem balanced_iff (es : List Event) (w : World) (hrun : Machine.run World.step new es = some w) :
    w.Balanced ↔ Machine.Along World.step Sound new es := by
  obtain ⟨m, hm, hzero⟩ := inv_new.run hrun
  rw [hm.agrees, Nat.zero_add]
  exact hzero

/-- Two proxies share a mapping, which goes with the second. -/
def twoProxies : List Event :=
  [.create, .create, .assertMapped 0, .assertMapped 1, .assertReallyMapped ⟨1, 0, .found⟩ true,
    .assertReallyMapped ⟨0, 0, .found⟩ false, .look ⟨0, 0, .really⟩, .look ⟨1, 0, .really⟩,
    .fill ⟨1, 0, .filling⟩ true, .fill ⟨0, 0, .filling⟩ true, .destroy 0, .assertMapped 1, .destroy 1]

theorem balanced_iff_twoProxies : ∃ w, Machine.run World.step new twoProxies = some w ∧ w.Balanced ∧
    w.mHeapCache = none ∧ (w.heaps 0).unmaps = 1 := by
  have hrun := Option.eq_some_of_isSome (by decide : (Machine.run World.step new twoProxies).isSome = true)
  exact ⟨_, hrun, (balanced_iff _ _ hrun).mpr (by decide), by decide, by decide⟩

/-- Two threads touch one proxy for the first time. -/
def twoThreads : List Event :=
  [.create, .assertMapped 0, .assertMapped 0, .assertReallyMapped ⟨0, 0, .found⟩ true,
    .assertReallyMapped ⟨0, 0, .found⟩ true, .look ⟨0, 0, .really⟩, .look ⟨0, 0, .really⟩,
    .fill ⟨0, 0, .filling⟩ true, .fill ⟨0, 0, .filling⟩ true, .destroy 0]

/-- The mapping stays when its last user is gone. -/
theorem leaked_mapping : ∃ w, Machine.run World.step new twoThreads = some w ∧ w.objects = [] ∧ w.calls = [] ∧
    w.mHeapCache = some ⟨0, 1⟩ ∧ (w.heaps 0).mapped = true ∧ (w.heaps 0).unmaps = 0 ∧ ¬ w.Balanced := by
  have hrun := Option.eq_some_of_isSome (by decide : (Machine.run World.step new twoThreads).isSome = true)
  refine ⟨_, hrun, by decide, by decide, by decide, by decide, by decide, fun h => ?_⟩
  exact absurd (h.needed ⟨0, 1⟩ (by decide)) (by decide)

end World

end AudioFlinger.HeapCache
