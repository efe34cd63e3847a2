import AudioFlinger.BlobCache.Reachable

/-!
# The running total of the cache

`mTotalSize` is the sum of the stored sizes as long as entries are dropped by
eviction only. `unflatten` drops them by clearing the vector and leaves the total
as it was, so the accounts are right along the runs that load into an empty cache
and do not fail after an entry has been stored.
-/

namespace AudioFlinger.BlobCache

open Foundation Bytes

namespace Cache

variable {ρ : Type} {blobRandom : ρ → ℕ × ρ} {c c' : Cache ρ} {key value : Blob}

/-- The total is the sum of the stored sizes, within the limit. -/
structure Accounted (c : Cache ρ) : Prop where
  total_eq : c.mTotalSize = storedBytes c.items
  total_le : c.mTotalSize ≤ c.mMaxTotalSize

/-- What an accounted cache keeps: its blobs are in memory. -/
structure Balanced (c : Cache ρ) : Prop extends Accounted c where
  fits : footprint c.items ≤ 2 ^ 32

instance (c : Cache ρ) : Decidable (Accounted c) :=
  decidable_of_iff (c.mTotalSize = storedBytes c.items ∧ c.mTotalSize ≤ c.mMaxTotalSize)
    ⟨fun h => ⟨h.1, h.2⟩, fun h => ⟨h.1, h.2⟩⟩

/-! ## Eviction -/

theorem storedBytes_eraseIdx (es : List CacheEntry) (i : Fin es.length) :
    storedBytes es = (es.get i).size + storedBytes (es.eraseIdx i) := by
  have hsplit : es = es.take i ++ es.get i :: es.drop (i + 1) := by simp
  have hsum := congrArg storedBytes hsplit
  rw [storedBytes_append, storedBytes_cons] at hsum
  rw [List.eraseIdx_eq_take_drop_succ, storedBytes_append, hsum]
  ring

theorem Balanced.total_lt (h : Balanced c) : c.mTotalSize < 2 ^ 32 := by
  have hfits := h.fits
  rw [footprint_eq, ← h.total_eq, blobBytes] at hfits
  cases hitems : c.items with
  | nil =>
    rw [h.total_eq, hitems]
    decide
  | cons e es =>
    rw [hitems, List.length_cons] at hfits
    omega

theorem Balanced.evict (h : Balanced c) (i : Fin c.items.length) (rand : ρ) :
    Balanced (c.evict i rand) := by
  have hsum := storedBytes_eraseIdx c.items i
  have htotal : (c.evict i rand).mTotalSize = storedBytes (c.items.eraseIdx i) := by
    have hlt := h.total_lt
    have heq := h.total_eq
    change sub32 c.mTotalSize (c.items.get i).size = _
    unfold sub32
    omega
  refine ⟨⟨htotal, ?_⟩, ?_⟩
  · have hle := h.total_le
    have heq := h.total_eq
    rw [htotal]
    change storedBytes (c.items.eraseIdx i) ≤ c.mMaxTotalSize
    omega
  · exact (footprint_sublist (List.eraseIdx_sublist _ _)).trans h.fits

theorem Balanced.cleanLoop (h : Balanced c) {rounds : ℕ} (hrounds : c.items.length < rounds) :
    ∃ c', c.cleanLoop blobRandom rounds = .ok c' ∧ Balanced c' := by
  induction rounds generalizing c with
  | zero => omega
  | succ rounds ih =>
    by_cases hclean : c.isCleanable = true
    · have hlen : 0 < c.items.length := by
        by_contra hlen
        have hnil : c.items = [] := List.length_eq_zero_iff.mp (by omega)
        have htotal := h.total_eq
        rw [hnil, storedBytes_nil] at htotal
        have hhalf := isCleanable_iff.mp hclean
        omega
      simp only [Cache.cleanLoop, if_pos hclean, dif_pos hlen]
      apply ih (h.evict _ _)
      rw [evict_items, List.length_eraseIdx_of_lt (Nat.mod_lt _ hlen)]
      omega
    · exact ⟨c, by rw [Cache.cleanLoop, if_neg hclean], h⟩

/-- `clean` never picks from an empty list. -/
theorem Balanced.clean (h : Balanced c) (blobRandom : ρ → ℕ × ρ) :
    ∃ c', c.clean blobRandom = .ok c' ∧ Balanced c' :=
  h.cleanLoop (Nat.lt_succ_self _)

/-! ## Set -/

theorem Balanced.storesIn (h : Balanced c) (hstores : StoresIn c key value c') : Balanced c' := by
  obtain ⟨need, total', entries, hs, hfits, hlimit, rfl⟩ := hstores
  exact ⟨⟨hs.total_eq hfits h.total_eq, hlimit⟩, hs.footprint_le.trans hfits⟩

theorem Balanced.ready {c₁ : Cache ρ} (h : Balanced c) (hready : Ready blobRandom c c₁) :
    Balanced c₁ := by
  rcases hready with rfl | ⟨-, hclean⟩
  · exact h
  · obtain ⟨c', hc', hbalanced⟩ := h.clean blobRandom
    rw [hclean] at hc'
    cases hc'
    exact hbalanced

/-- A call returns, with `P` of what it returns, or stops for lack of memory or at an access outside
the caller's buffer. -/
def Ends {α : Type} (P : α → Prop) (r : Except Fault α) : Prop :=
  (∃ a, r = .ok a ∧ P a) ∨ r = .error .noMemory ∨ r = .error .outside

theorem Ends.bind {α β : Type} {P : α → Prop} {Q : β → Prop} {r : Except Fault α}
    {f : α → Except Fault β} (h : Ends P r) (hf : ∀ a, P a → Ends Q (f a)) : Ends Q (r.bind f) := by
  rcases h with ⟨a, rfl, ha⟩ | rfl | rfl
  · exact hf a ha
  · exact .inr (.inl rfl)
  · exact .inr (.inr rfl)

theorem Ends.map {α β : Type} {P : α → Prop} {Q : β → Prop} {r : Except Fault α} {f : α → β}
    (h : Ends P r) (hf : ∀ a, P a → Q (f a)) : Ends Q (r.map f) := by
  rcases h with ⟨a, rfl, ha⟩ | rfl | rfl
  · exact .inl ⟨f a, rfl, hf a ha⟩
  · exact .inr (.inl rfl)
  · exact .inr (.inr rfl)

theorem Ends.ne_remainderByZero {α : Type} {P : α → Prop} {r : Except Fault α} (h : Ends P r) :
    r ≠ .error .remainderByZero := by
  rintro rfl
  rcases h with ⟨a, ha, -⟩ | h | h
  · cases ha
  · cases h
  · cases h

theorem Ends.ne_unfinished {α : Type} {P : α → Prop} {r : Except Fault α} (h : Ends P r) :
    r ≠ .error .unfinished := by
  rintro rfl
  rcases h with ⟨a, ha, -⟩ | h | h
  · cases ha
  · cases h
  · cases h

theorem Balanced.setEnds (h : Balanced c) {r : Except Fault (Cache ρ × Bool)}
    (hends : SetEnds blobRandom c key value r) : Ends (fun p => Balanced p.1) r := by
  rcases hends with rfl | ⟨-, hclean, -⟩ | ⟨c₁, hready, ⟨c', hstores, rfl⟩ | ⟨-, rfl⟩⟩
  · exact .inr (.inl rfl)
  · obtain ⟨c', hc', -⟩ := h.clean blobRandom
    rw [hclean] at hc'
    cases hc'
  · exact .inl ⟨_, rfl, (h.ready hready).storesIn hstores⟩
  · exact .inl ⟨_, rfl, h.ready hready⟩

theorem Balanced.setFrom (h : Balanced c) (keySize valueSize : ℕ) {k v : Except Fault Blob}
    (hk : Ends (fun _ => True) k) (hv : Ends (fun _ => True) v) :
    Ends (fun p => Balanced p.1) (c.setFrom blobRandom keySize valueSize k v) := by
  unfold Cache.setFrom
  split
  · apply hk.bind
    intro key _
    apply hv.bind
    intro value _
    exact h.setEnds (setLoop_ends c 0)
  · exact .inl ⟨_, rfl, h⟩

/-- What `set` has stored is in the cache when it returns. -/
theorem setFrom_stored {keySize valueSize : ℕ}
    (h : c.setFrom blobRandom keySize valueSize (.ok key) (.ok value) = .ok (c', true)) :
    ⟨key, value⟩ ∈ c'.items := by
  unfold Cache.setFrom at h
  split at h
  · have hends : SetEnds blobRandom c key value (.ok (c', true)) := by
      rw [← h]
      exact setLoop_ends c 0
    rcases hends with herror | ⟨-, -, herror⟩ | ⟨c₁, -, ⟨c₂, hstores, hr⟩ | ⟨-, hr⟩⟩
    · cases herror
    · cases herror
    · cases hr
      obtain ⟨need, total', entries, hs, -, -, rfl⟩ := hstores
      exact hs.mem
    · cases hr
  · cases h

/-! ## Loading -/

theorem ends_read (b : Buffer) (pos n : ℕ) : Ends (fun _ => True) (b.read pos n) := by
  unfold Buffer.read
  split
  · exact .inl ⟨_, rfl, trivial⟩
  · exact .inr (.inr rfl)

theorem Balanced.reload (h : Balanced c) (b : Buffer) (rs : List Record) :
    Ends Balanced (c.reload blobRandom b rs) := by
  induction rs generalizing c with
  | nil => exact .inl ⟨c, rfl, h⟩
  | cons r rs ih =>
    apply (h.setFrom r.keySize r.valueSize (ends_read ..) (ends_read ..)).bind
    intro p hp
    exact ih hp

/-- Entries that `set` does not accept change nothing. -/
theorem reload_refused (b : Buffer) {rs : List Record}
    (h : ∀ r ∈ rs, c.accepts r.keySize r.valueSize = false) :
    c.reload blobRandom b rs = .ok c := by
  induction rs with
  | nil => rfl
  | cons r rs ih =>
    have hr := h r (List.mem_cons_self ..)
    have hset : c.setRecord blobRandom b r = .ok (c, false) := by
      rw [setRecord, Cache.setFrom, if_neg (by rw [hr]; exact Bool.false_ne_true)]
    rw [Cache.reload, hset]
    exact ih fun r' hr' => h r' (List.mem_cons_of_mem r hr')

theorem ends_readWord (b : Buffer) (pos : ℕ) : Ends (fun _ => True) (b.readWord pos) :=
  (ends_read b pos 4).map fun _ _ => trivial

theorem ends_readHeader (b : Buffer) : Ends (fun _ => True) b.readHeader := by
  unfold Buffer.readHeader
  apply (ends_readWord b 0).bind
  intro magic _
  apply (ends_readWord b 4).bind
  intro version _
  apply (ends_readWord b 8).bind
  intro device _
  apply (ends_readWord b 12).bind
  intro num _
  exact .inl ⟨_, rfl, trivial⟩

theorem ends_readEntryHeader (b : Buffer) (pos : ℕ) :
    Ends (fun _ => True) (b.readEntryHeader pos) := by
  unfold Buffer.readEntryHeader
  apply (ends_readWord b pos).bind
  intro keySize _
  apply (ends_readWord b (pos + 4)).bind
  intro valueSize _
  exact .inl ⟨_, rfl, trivial⟩

theorem ends_entriesAt (b : Buffer) (n byteOffset : ℕ) :
    Ends (fun _ => True) (entriesAt b n byteOffset).2 := by
  induction n generalizing byteOffset with
  | zero => exact .inl ⟨_, rfl, trivial⟩
  | succ n ih =>
    rw [entriesAt]
    split
    · exact .inl ⟨_, rfl, trivial⟩
    · rcases ends_readEntryHeader b byteOffset with ⟨⟨k, v⟩, hr, -⟩ | hr | hr
      · simp only [hr]
        split
        · exact .inl ⟨_, rfl, trivial⟩
        · exact ih _
      · rw [hr]
        exact .inr (.inl rfl)
      · rw [hr]
        exact .inr (.inr rfl)

theorem ends_listing (b : Buffer) (count : ℕ) : Ends (fun _ => True) (listing b count).2 := by
  unfold listing
  split
  · exact .inl ⟨_, rfl, trivial⟩
  · split
    · exact .inl ⟨_, rfl, trivial⟩
    · rcases ends_readHeader b with ⟨hdr, hr, -⟩ | hr | hr
      · rw [hr]
        dsimp only
        split
        · exact .inl ⟨_, rfl, trivial⟩
        · split
          · exact .inl ⟨_, rfl, trivial⟩
          · exact ends_entriesAt ..
      · rw [hr]
        exact .inr (.inl rfl)
      · rw [hr]
        exact .inr (.inr rfl)

/-! ## Runs -/

/-- The calls that keep the accounts right: `unflatten` finds an empty cache and does not fail
behind an entry that `set` accepts. -/
def Sound (c : Cache ρ) : Call → Prop
  | .set _ _ => True
  | .get _ _ => True
  | .unflatten b count => c.items = [] ∧ ((listing b count).2 = .ok .BAD_VALUE →
      ∀ r ∈ (listing b count).1, c.accepts r.keySize r.valueSize = false)

instance (c : Cache ρ) : ∀ e, Decidable (Sound c e)
  | .set _ _ => isTrue trivial
  | .get _ _ => isTrue trivial
  | .unflatten _ _ => inferInstanceAs (Decidable (_ ∧ _))

theorem balanced_of_nil (htotal : c.mTotalSize = 0) (hitems : c.items = []) : Balanced c := by
  refine ⟨⟨?_, ?_⟩, ?_⟩
  · rw [htotal, hitems, storedBytes_nil]
  · rw [htotal]
    exact Nat.zero_le _
  · rw [hitems, footprint_nil]
    exact Nat.zero_le _

theorem Balanced.finish (h : Balanced c) (hnil : c.items = []) {b : Buffer}
    {l : List Record × Except Fault Status} (hl : Ends (fun _ => True) l.2)
    (hbad : l.2 = .ok .BAD_VALUE → ∀ r ∈ l.1, c.accepts r.keySize r.valueSize = false) :
    Ends (fun p => Balanced p.2) (c.finish blobRandom b l) := by
  rcases hl with ⟨st, hst, -⟩ | hst | hst
  · cases st with
    | OK =>
      apply (h.reload b l.1).bind
      intro c' hc'
      rw [hst]
      exact .inl ⟨_, rfl, hc'⟩
    | BAD_VALUE =>
      have htotal : c.mTotalSize = 0 := by rw [h.total_eq, hnil, storedBytes_nil]
      rw [Cache.finish, reload_refused b (hbad hst), hst]
      exact .inl ⟨_, rfl, balanced_of_nil htotal rfl⟩
  · apply (h.reload b l.1).bind
    intro c' _
    rw [hst]
    exact .inr (.inl rfl)
  · apply (h.reload b l.1).bind
    intro c' _
    rw [hst]
    exact .inr (.inr rfl)

/-- The step lemma. -/
theorem Balanced.call (h : Balanced c) {e : Call} (hsound : Sound c e) (blobRandom : ρ → ℕ × ρ) :
    Ends Balanced (call blobRandom c e) := by
  cases e with
  | set key value =>
    apply Ends.map (h.setFrom key.length value.length (.inl ⟨key, rfl, trivial⟩)
      (.inl ⟨value, rfl, trivial⟩))
    exact fun _ hp => hp
  | get key valueSize => exact .inl ⟨c, rfl, h⟩
  | unflatten b count =>
    obtain ⟨hnil, hbad⟩ := hsound
    have htotal : c.mTotalSize = 0 := by rw [h.total_eq, hnil, storedBytes_nil]
    have hclear : Balanced c.clear := balanced_of_nil htotal rfl
    rw [BlobCache.call, (unflatten_eq blobRandom c b count).1]
    exact (hclear.finish rfl (ends_listing b count) hbad).map fun _ hp => hp

theorem Balanced.step (h : Balanced c) {e : Call} (hsound : Sound c e)
    (hstep : step blobRandom c e = some c') : Balanced c' := by
  rcases h.call hsound blobRandom with ⟨c'', hc'', hb⟩ | hr | hr
  · rw [BlobCache.step, hc''] at hstep
    cases hstep
    exact hb
  · rw [BlobCache.step, hr] at hstep
    cases hstep
  · rw [BlobCache.step, hr] at hstep
    cases hstep

/-- Along the sound calls the total is the sum of the stored sizes and within the limit; every
further sound call ends without a division by zero and without a loop that goes on, with the accounts
right again; and what a `set` has stored is there when it returns. -/
theorem accounting_along (blobRandom : ρ → ℕ × ρ) (maxKeySize maxValueSize maxTotalSize : ℕ)
    (seed : ρ) (es : List Call) (c : Cache ρ)
    (hrun : Machine.run (step blobRandom) (new maxKeySize maxValueSize maxTotalSize seed) es = some c)
    (hsound : Machine.Along (step blobRandom) Sound (new maxKeySize maxValueSize maxTotalSize seed) es) :
    Accounted c ∧
      (∀ e, Sound c e → call blobRandom c e ≠ .error .remainderByZero ∧
        call blobRandom c e ≠ .error .unfinished ∧
        ∀ c', call blobRandom c e = .ok c' → Accounted c') ∧
      ∀ keySize valueSize key value c',
        c.setFrom blobRandom keySize valueSize (.ok key) (.ok value) = .ok (c', true) →
          ⟨key, value⟩ ∈ c'.items := by
  have hnew : Balanced (new maxKeySize maxValueSize maxTotalSize seed) := balanced_of_nil rfl rfl
  have hc : Balanced c :=
    Machine.run_invariant_along (fun _ _ _ hok hstep h => Balanced.step h hok hstep) hsound hrun hnew
  refine ⟨hc.toAccounted, fun e he => ?_, fun _ _ _ _ _ h => setFrom_stored h⟩
  have hends := hc.call he blobRandom
  refine ⟨hends.ne_remainderByZero, hends.ne_unfinished, fun c' hc' => ?_⟩
  rcases hends with ⟨c'', hc'', hb⟩ | hr | hr
  · rw [hc'] at hc''
    cases hc''
    exact hb.toAccounted
  · rw [hc'] at hr
    cases hr
  · rw [hc'] at hr
    cases hr

/-- A cache that loads one entry, takes two more and evicts. -/
theorem accounting_along_loaded :
    Accounted ((Machine.run (step fun n => (n, n + 1)) (new 4 4 8 0)
      [.unflatten (.ofList (Header.bytes ⟨blobCacheMagic, blobCacheVersion,
          blobCacheDeviceVersion, 1⟩ ++ leBytes 4 1 ++ leBytes 4 2 ++ [5, 6, 7])) 0,
        .set [1] [2, 3], .set [4, 5] [6]]).getD (new 4 4 8 0)) :=
  (accounting_along (fun n => (n, n + 1)) 4 4 8 0
    [.unflatten (.ofList (Header.bytes ⟨blobCacheMagic, blobCacheVersion,
        blobCacheDeviceVersion, 1⟩ ++ leBytes 4 1 ++ leBytes 4 2 ++ [5, 6, 7])) 0,
      .set [1] [2, 3], .set [4, 5] [6]] _ (by decide) (by decide)).1

/-- A failed load clears the entries and keeps their total of 6; the next `set` that wants to clean
picks from an empty list. -/
theorem failed_load_keeps_total :
    (Machine.run (step fun n => (n, n + 1)) (new 4 4 8 0)
        [.set [1, 2, 3] [1, 2, 3], .unflatten (.ofList []) 0]).map
      (fun c => (c.mTotalSize, c.items, decide (Accounted c),
        call (fun n => (n, n + 1)) c (.set [1, 2] [1, 2]))) =
    some (6, [], false, .error .remainderByZero) := by
  decide

end Cache

end AudioFlinger.BlobCache
