import AudioFlinger.BlobCache.Model

/-!
# What `set` does to the entries

A key cuts the entries. A round of `set` either puts the new entry at the cut,
or leaves the cache as it is, or cleans it; after a cleaning the next round does
not clean again.
-/

namespace AudioFlinger.BlobCache

open Foundation Bytes SortedVector

theorem rank_injective : Function.Injective rank := by
  intro a b h
  have hbytes : a.map BitVec.toNat = b.map BitVec.toNat := congrArg Prod.snd (toLex.injective h)
  exact List.map_injective_iff.mpr (fun _ _ => BitVec.eq_of_toNat_eq) hbytes

@[simp] theorem storedBytes_nil : storedBytes [] = 0 := rfl

@[simp] theorem storedBytes_cons (e : CacheEntry) (es : List CacheEntry) :
    storedBytes (e :: es) = e.size + storedBytes es := List.sum_cons

@[simp] theorem storedBytes_append (es fs : List CacheEntry) :
    storedBytes (es ++ fs) = storedBytes es + storedBytes fs := by
  rw [storedBytes, List.map_append, List.sum_append]
  rfl

@[simp] theorem footprint_nil : footprint [] = 0 := rfl

@[simp] theorem footprint_cons (e : CacheEntry) (es : List CacheEntry) :
    footprint (e :: es) = e.size + 2 * blobBytes + footprint es := List.sum_cons

@[simp] theorem footprint_append (es fs : List CacheEntry) :
    footprint (es ++ fs) = footprint es + footprint fs := by
  rw [footprint, List.map_append, List.sum_append]
  rfl

theorem footprint_eq (es : List CacheEntry) :
    footprint es = storedBytes es + 2 * blobBytes * es.length := by
  induction es with
  | nil => rfl
  | cons e es ih =>
    rw [footprint_cons, storedBytes_cons, ih, List.length_cons]
    ring

/-! ## The entries at a cut -/

namespace Entries

/-- The key is missing, and a new entry comes between `below` and `above`. -/
structure Missing (es : Entries) (key : Blob) (below above : List CacheEntry) : Prop where
  val_eq : es.val = below ++ above
  indexOf_eq : es.indexOf key = none
  add_val : ∀ value, (es.add ⟨key, value⟩).val = below ++ ⟨key, value⟩ :: above
  not_mem : ∀ e ∈ es.val, e.key ≠ key

/-- The key is that of the entry `e`. -/
structure Hit (es : Entries) (key : Blob) (below : List CacheEntry) (e : CacheEntry)
    (above : List CacheEntry) : Prop where
  val_eq : es.val = below ++ e :: above
  key_eq : e.key = key
  indexOf_eq : es.indexOf key = some below.length
  eq_of_key : ∀ y ∈ es.val, y.key = key → y = e

theorem missing_or_hit (es : Entries) (key : Blob) :
    (∃ below above, es.Missing key below above) ∨ ∃ below e above, es.Hit key below e above := by
  obtain ⟨below, hit, above, hcut, hsearch⟩ := search_cases es.property (rank key)
  cases hit with
  | none =>
    refine .inl ⟨below, above, ?_, ?_, ?_, ?_⟩
    · simpa using hcut.eq
    · rw [indexOf, hsearch]
      rfl
    · intro value
      have hinsert : SortedVector.insert CacheEntry.order es.val ⟨key, value⟩ =
          below ++ ⟨key, value⟩ :: above := Cut.insert_eq hcut hsearch
      exact hinsert
    · intro e he hkey
      exact absurd (hcut.hit_of_mem he (congrArg rank hkey)) (by simp)
  | some e =>
    refine .inr ⟨below, e, above, ?_, rank_injective (hcut.hit_eq e rfl), ?_, ?_⟩
    · simpa using hcut.eq
    · rw [indexOf, hsearch]
      rfl
    · intro y hy hkey
      exact (Option.some_injective _ (hcut.hit_of_mem hy (congrArg rank hkey))).symm

variable {es : Entries} {key : Blob} {below above : List CacheEntry} {e : CacheEntry}

theorem Hit.valueAt_eq (h : es.Hit key below e above) : es.valueAt below.length = e.value := by
  simp [valueAt, h.val_eq]

theorem Hit.setValueAt_val (h : es.Hit key below e above) (value : Blob) :
    (es.setValueAt below.length value).val = below ++ ⟨key, value⟩ :: above := by
  have hmodify : (below ++ e :: above).modify below.length (fun e => { e with value := value }) =
      below ++ ⟨e.key, value⟩ :: above := by
    rw [List.modify_eq_take_cons_drop (by simp)]
    simp
  change es.val.modify below.length _ = _
  rw [h.val_eq, hmodify, h.key_eq]

end Entries

namespace Cache

variable {ρ : Type} {c c' : Cache ρ}

/-- The limits are those of the constructor for good. -/
structure SameLimits (c c' : Cache ρ) : Prop where
  mMaxKeySize : c'.mMaxKeySize = c.mMaxKeySize
  mMaxValueSize : c'.mMaxValueSize = c.mMaxValueSize
  mMaxTotalSize : c'.mMaxTotalSize = c.mMaxTotalSize

theorem SameLimits.refl (c : Cache ρ) : SameLimits c c := ⟨rfl, rfl, rfl⟩

theorem SameLimits.trans {c'' : Cache ρ} (h : SameLimits c c') (h' : SameLimits c' c'') :
    SameLimits c c'' :=
  ⟨h'.1.trans h.1, h'.2.trans h.2, h'.3.trans h.3⟩

theorem SameLimits.accepts_eq (h : SameLimits c c') : c'.accepts = c.accepts := by
  funext keySize valueSize
  simp only [accepts, h.mMaxKeySize, h.mMaxValueSize, h.mMaxTotalSize]

/-! ## Eviction -/

variable {blobRandom : ρ → ℕ × ρ}

theorem isCleanable_iff : c.isCleanable = true ↔ c.mMaxTotalSize / 2 < c.mTotalSize :=
  decide_eq_true_iff

@[simp] theorem evict_items (i : Fin c.items.length) (rand : ρ) :
    (c.evict i rand).items = c.items.eraseIdx i := rfl

theorem sameLimits_evict (i : Fin c.items.length) (rand : ρ) : SameLimits c (c.evict i rand) :=
  ⟨rfl, rfl, rfl⟩

/-- What a cleaning leaves. -/
structure Cleaned (c c' : Cache ρ) : Prop where
  limits : SameLimits c c'
  half : c'.isCleanable = false
  kept : c'.items.Sublist c.items

theorem cleanLoop_cases {rounds : ℕ} (hrounds : c.items.length < rounds) :
    c.cleanLoop blobRandom rounds = .error .remainderByZero ∨
      ∃ c', c.cleanLoop blobRandom rounds = .ok c' ∧ Cleaned c c' ∧
        (c.isCleanable = true → c'.items.length < c.items.length) := by
  induction rounds generalizing c with
  | zero => omega
  | succ rounds ih =>
    by_cases hclean : c.isCleanable = true
    · by_cases hlen : 0 < c.items.length
      · simp only [cleanLoop, if_pos hclean, dif_pos hlen]
        set i : Fin c.items.length :=
          ⟨(blobRandom c.mRandState).1 % c.items.length, Nat.mod_lt _ hlen⟩
        have hshort : (c.evict i (blobRandom c.mRandState).2).items.length + 1 = c.items.length := by
          rw [evict_items, List.length_eraseIdx_of_lt i.isLt]
          omega
        rcases ih (c := c.evict i (blobRandom c.mRandState).2) (by omega) with
          herror | ⟨c', hok, hcleaned, -⟩
        · exact .inl herror
        · refine .inr ⟨c', hok, ⟨(sameLimits_evict i _).trans hcleaned.limits, hcleaned.half, ?_⟩, fun _ => ?_⟩
          · exact hcleaned.kept.trans (List.eraseIdx_sublist _ _)
          · have := hcleaned.kept.length_le
            omega
      · left
        rw [cleanLoop, if_pos hclean, dif_neg hlen]
    · simp only [cleanLoop, if_neg hclean]
      exact .inr ⟨c, rfl, ⟨.refl c, by simpa using hclean, List.Sublist.refl _⟩,
        fun h => absurd h hclean⟩

/-! ## A round of `set` -/

/-- What storing an entry makes of the entries and of their total; `need` is the memory for the
copies. -/
structure Placed (es : List CacheEntry) (total : ℕ) (e : CacheEntry) (need : ℕ)
    (es' : List CacheEntry) (total' : ℕ) : Prop where
  mem : e ∈ es'
  length_le : es'.length ≤ es.length + 1
  subset : ∀ e' ∈ es', e' = e ∨ e' ∈ es
  footprint_le : footprint es' ≤ footprint es + need
  total_eq : footprint es + need ≤ 2 ^ 32 → total = storedBytes es → total' = storedBytes es'

variable {key value : Blob}

theorem placed_new {below above : List CacheEntry} {total : ℕ} :
    Placed (below ++ above) total ⟨key, value⟩ (key.length + value.length + 2 * blobBytes)
      (below ++ ⟨key, value⟩ :: above) ((total + key.length + value.length) % 2 ^ 32) where
  mem := by simp
  length_le := by
    simp only [List.length_append, List.length_cons]
    omega
  subset := by
    intro e' he'
    simp only [List.mem_append, List.mem_cons] at he' ⊢
    tauto
  footprint_le := by
    simp only [footprint_append, footprint_cons, CacheEntry.size]
    omega
  total_eq := by
    intro hfits htotal
    simp only [footprint_eq, storedBytes_append, storedBytes_cons,
      CacheEntry.size, blobBytes] at hfits htotal ⊢
    omega

theorem placed_update {below above : List CacheEntry} {e : CacheEntry} {total : ℕ}
    (hkey : e.key = key) :
    Placed (below ++ e :: above) total ⟨key, value⟩ (value.length + blobBytes)
      (below ++ ⟨key, value⟩ :: above) (sub32 (total + value.length) e.value.length) where
  mem := by simp
  length_le := by
    simp only [List.length_append, List.length_cons]
    omega
  subset := by
    intro e' he'
    simp only [List.mem_append, List.mem_cons] at he' ⊢
    tauto
  footprint_le := by
    simp only [footprint_append, footprint_cons, CacheEntry.size, hkey]
    omega
  total_eq := by
    intro hfits htotal
    simp only [footprint_eq, storedBytes_append, storedBytes_cons,
      CacheEntry.size, blobBytes, hkey, sub32] at hfits htotal ⊢
    omega

/-- A round has one place for the entry. -/
theorem round_eq (blobRandom : ρ → ℕ × ρ) (c : Cache ρ) (key value : Blob) :
    ∃ (need total' : ℕ) (entries : Entries),
      Placed c.items c.mTotalSize ⟨key, value⟩ need entries.val total' ∧
      c.round blobRandom key value =
        if 2 ^ 32 < footprint c.items + need then .error .noMemory
        else c.update blobRandom total' entries := by
  rcases c.mCacheEntries.missing_or_hit key with ⟨below, above, h⟩ | ⟨below, e, above, h⟩
  · have hplaced : Placed c.items c.mTotalSize ⟨key, value⟩
        (key.length + value.length + 2 * blobBytes) (c.mCacheEntries.add ⟨key, value⟩).val
        ((c.mTotalSize + key.length + value.length) % 2 ^ 32) := by
      rw [items, h.val_eq, h.add_val]
      exact placed_new
    refine ⟨_, _, _, hplaced, ?_⟩
    simp only [round, h.indexOf_eq]
  · have hplaced : Placed c.items c.mTotalSize ⟨key, value⟩ (value.length + blobBytes)
        (c.mCacheEntries.setValueAt below.length value).val
        (sub32 (c.mTotalSize + value.length) e.value.length) := by
      rw [items, h.val_eq, h.setValueAt_val]
      exact placed_update h.key_eq
    refine ⟨_, _, _, hplaced, ?_⟩
    simp only [round, h.indexOf_eq, h.valueAt_eq]

/-- The cache after the entry has been stored. -/
def withEntries (c : Cache ρ) (total' : ℕ) (entries : Entries) : Cache ρ :=
  { c with mTotalSize := total', mCacheEntries := entries }

/-- The entry is stored in `c`, within the limit, and gives `c'`. -/
def StoresIn (c : Cache ρ) (key value : Blob) (c' : Cache ρ) : Prop :=
  ∃ (need total' : ℕ) (entries : Entries),
    Placed c.items c.mTotalSize ⟨key, value⟩ need entries.val total' ∧
    footprint c.items + need ≤ 2 ^ 32 ∧ total' ≤ c.mMaxTotalSize ∧
    c' = c.withEntries total' entries

theorem round_cases (blobRandom : ρ → ℕ × ρ) (c : Cache ρ) (key value : Blob) :
    c.round blobRandom key value = .error .noMemory ∨
      (∃ c', StoresIn c key value c' ∧ c.round blobRandom key value = .ok (.stored c')) ∨
      (c.isCleanable = false ∧ c.round blobRandom key value = .ok (.refused c)) ∨
      (c.isCleanable = true ∧
        c.round blobRandom key value = (c.clean blobRandom).map .again) := by
  obtain ⟨need, total', entries, hplaced, hround⟩ := c.round_eq blobRandom key value
  rw [hround]
  by_cases hfits : 2 ^ 32 < footprint c.items + need
  · exact .inl (if_pos hfits)
  · rw [if_neg hfits, update]
    by_cases hlimit : c.mMaxTotalSize < total'
    · rw [if_pos hlimit]
      cases hclean : c.isCleanable with
      | false => exact .inr (.inr (.inl ⟨rfl, rfl⟩))
      | true => exact .inr (.inr (.inr ⟨rfl, rfl⟩))
    · rw [if_neg hlimit]
      exact .inr (.inl ⟨_, ⟨need, total', entries, hplaced, by omega, by omega, rfl⟩, rfl⟩)

/-! ## The loop of `set` -/

theorem clean_cases (blobRandom : ρ → ℕ × ρ) (c : Cache ρ) :
    c.clean blobRandom = .error .remainderByZero ∨
      ∃ c', c.clean blobRandom = .ok c' ∧ Cleaned c c' ∧
        (c.isCleanable = true → c'.items.length < c.items.length) :=
  cleanLoop_cases (Nat.lt_succ_self _)

/-- The cache as the last round of `set` finds it: cleaned at most once. -/
def Ready (blobRandom : ρ → ℕ × ρ) (c c' : Cache ρ) : Prop :=
  c' = c ∨ c.isCleanable = true ∧ c.clean blobRandom = .ok c'

/-- How `set` can end: it stores the entry in the last round or refuses it there. -/
def SetEnds (blobRandom : ρ → ℕ × ρ) (c : Cache ρ) (key value : Blob)
    (r : Except Fault (Cache ρ × Bool)) : Prop :=
  r = .error .noMemory ∨
    (c.isCleanable = true ∧ c.clean blobRandom = .error .remainderByZero ∧
      r = .error .remainderByZero) ∨
    ∃ c₁, Ready blobRandom c c₁ ∧
      ((∃ c', StoresIn c₁ key value c' ∧ r = .ok (c', true)) ∨
        (c₁.isCleanable = false ∧ r = .ok (c₁, false)))

/-- A round on a cache that cannot be cleaned is the last. -/
theorem setLoop_last (h : c.isCleanable = false) (rounds : ℕ) :
    SetEnds blobRandom c key value (setLoop blobRandom key value (rounds + 1) c) := by
  rcases c.round_cases blobRandom key value with
    hround | ⟨c', hstores, hround⟩ | ⟨-, hround⟩ | ⟨hclean, -⟩
  · simp only [setLoop, hround]
    exact .inl rfl
  · simp only [setLoop, hround]
    exact .inr (.inr ⟨c, .inl rfl, .inl ⟨c', hstores, rfl⟩⟩)
  · simp only [setLoop, hround]
    exact .inr (.inr ⟨c, .inl rfl, .inr ⟨h, rfl⟩⟩)
  · rw [h] at hclean
    cases hclean

/-- Two rounds are enough. -/
theorem setLoop_ends (c : Cache ρ) (rounds : ℕ) :
    SetEnds blobRandom c key value (setLoop blobRandom key value (rounds + 2) c) := by
  rcases c.round_cases blobRandom key value with
    hround | ⟨c', hstores, hround⟩ | ⟨hclean, hround⟩ | ⟨hcleanable, hround⟩
  · rw [setLoop, hround]
    exact .inl rfl
  · rw [setLoop, hround]
    exact .inr (.inr ⟨c, .inl rfl, .inl ⟨c', hstores, rfl⟩⟩)
  · rw [setLoop, hround]
    exact .inr (.inr ⟨c, .inl rfl, .inr ⟨hclean, rfl⟩⟩)
  · rcases c.clean_cases blobRandom with hclean | ⟨c₁, hclean, hcleaned, -⟩
    · rw [setLoop, hround, hclean]
      exact .inr (.inl ⟨hcleanable, hclean, rfl⟩)
    · have hready : Ready blobRandom c c₁ := .inr ⟨hcleanable, hclean⟩
      have hhalf := hcleaned.half
      rw [setLoop, hround, hclean]
      rcases setLoop_last hhalf rounds with
        herror | ⟨hclean₁, -⟩ | ⟨c₂, hready₂, hend⟩
      · exact .inl herror
      · rw [hhalf] at hclean₁
        cases hclean₁
      · rcases hready₂ with rfl | ⟨hclean₁, -⟩
        · exact .inr (.inr ⟨c₂, hready, hend⟩)
        · rw [hhalf] at hclean₁
          cases hclean₁

end Cache

end AudioFlinger.BlobCache
