import AudioFlinger.BlobCache.Flatten
import Mathlib.Data.List.Infix

/-!
# Loading a flattened cache

`unflatten` sets the entries of the buffer one after another. The receiver holds
them all at the end exactly if its running total, which it does not reset, stays
within the limit while they are added.
-/

namespace AudioFlinger.BlobCache

open Foundation Bytes Fields SortedVector

namespace Cache

variable {ρ : Type} (blobRandom : ρ → ℕ × ρ)

/-- Set entries one after another. -/
def setEntries : List CacheEntry → Cache ρ → Except Fault (Cache ρ)
  | [], c => .ok c
  | e :: es, c => (c.set blobRandom e.key e.value).bind fun p => setEntries es p.1

variable {blobRandom} {c : Cache ρ} {b : Buffer} {pos : ℕ} {e : CacheEntry}

/-! ## Reading what was written -/

theorem leValue_length {n : ℕ} (h : n < 2 ^ 32) : leValue (leBytes 4 n) = n := by
  rw [leValue_leBytes]
  exact Nat.mod_eq_of_lt h

theorem wordAt_of_stores {n : ℕ} (h : Stores b.mem pos (leBytes 4 n)) (hn : n < 2 ^ 32) :
    b.wordAt pos = n := by
  unfold Stores at h
  rw [leBytes_length] at h
  rw [Buffer.wordAt, h, leValue_length hn]

/-- An entry in a buffer is read back. -/
theorem setRecord_of_stores (h : Stores b.mem pos e.record)
    (hroom : pos + (entryHeaderSize + e.size) ≤ b.size) :
    c.setRecord blobRandom b ⟨pos, e.key.length, e.value.length⟩ = c.set blobRandom e.key e.value := by
  obtain ⟨-, hblobs⟩ := stores_append.mp h
  obtain ⟨hkey, hvalue⟩ := stores_append.mp hblobs
  have hlen : (leBytes 4 e.key.length ++ leBytes 4 e.value.length).length = entryHeaderSize := by
    simp [entryHeaderSize]
  rw [hlen] at hkey hvalue
  unfold Stores at hkey hvalue
  unfold CacheEntry.size at hroom
  rw [setRecord, read_eq (by dsimp only; omega), read_eq (by dsimp only; omega), hkey, hvalue]
  rfl

theorem readEntryHeader_of_stores (h : Stores b.mem pos e.record)
    (hroom : pos + (entryHeaderSize + e.size) ≤ b.size) (hlt : e.size < 2 ^ 32) :
    b.readEntryHeader pos = .ok (e.key.length, e.value.length) := by
  obtain ⟨hsizes, -⟩ := stores_append.mp h
  obtain ⟨hkey, hvalue⟩ := stores_append.mp hsizes
  rw [leBytes_length] at hvalue
  unfold CacheEntry.size at hlt hroom
  rw [readEntryHeader_eq (by omega), wordAt_of_stores hkey (by omega),
    wordAt_of_stores hvalue (by omega)]

theorem unflattenEntries_laid {es : List CacheEntry} (hlaid : Laid b.mem (padded pos)
      (es.map CacheEntry.record)) (hroom : flatEnd pos es ≤ b.size)
    (hlt : flatEnd pos es + 3 < 2 ^ 32) (c : Cache ρ) :
    (c.unflattenEntries blobRandom b es.length (padded pos)).2 =
      (c.setEntries blobRandom es).map fun c' => (.OK, c') := by
  induction es generalizing pos c with
  | nil => rfl
  | cons e es ih =>
    obtain ⟨hstores, hrest⟩ := hlaid
    rw [flatEnd] at hroom hlt
    have hend := le_flatEnd (padded pos + (entryHeaderSize + e.size)) es
    have hsize := @CacheEntry.entrySize_eq e (by lia)
    have hnext := padded_padded pos (entryHeaderSize + e.size)
    rw [CacheEntry.record_length, ← hnext] at hrest
    have htail : ∀ c' : Cache ρ, (c'.unflattenEntries blobRandom b es.length
        ((padded pos + align4 (entrySize e.key.length e.value.length)) % 2 ^ 32)).2 =
        (c'.setEntries blobRandom es).map fun c'' => (.OK, c'') := by
      intro c'
      cases es with
      | nil => rfl
      | cons e' es =>
        have hhead := hlt
        rw [flatEnd, hnext] at hhead
        have hle := le_flatEnd
          (padded pos + padded (entryHeaderSize + e.size) + (entryHeaderSize + e'.size)) es
        rw [hsize, align4_eq (by lia), Nat.mod_eq_of_lt (by lia), ← hnext]
        exact ih hrest hroom hlt c'
    have hset := @setRecord_of_stores _ blobRandom c _ _ _ hstores (by lia)
    rw [List.length_cons, unflattenEntries, Nat.mod_eq_of_lt (by lia), if_neg (by lia),
      readEntryHeader_of_stores hstores (by lia) (by lia)]
    dsimp only
    rw [hsize, Nat.mod_eq_of_lt (by lia), if_neg (by lia), ← hsize]
    unfold setRecord at hset
    dsimp only at hset
    rw [hset, setEntries]
    cases c.set blobRandom e.key e.value with
    | error f => rfl
    | ok p => exact htail p.1

/-- Loading a flattened cache sets its entries. -/
theorem unflatten_flattened {s : Cache ρ} (hs : Held s) (hb : Flattened s b) (r : Cache ρ) :
    (r.unflatten blobRandom b 0).2 =
      (r.clear.setEntries blobRandom s.items).map fun c' => (.OK, c') := by
  have hlt := flatEnd_lt hs.fits
  have hroom := le_flatEnd headerSize s.items
  have hlength : s.items.length < 2 ^ 32 := by
    have hfits := hs.fits
    rw [footprint_eq, blobBytes] at hfits
    omega
  obtain ⟨hthree, hnum⟩ := stores_append.mp hb.header
  obtain ⟨htwo, hdevice⟩ := stores_append.mp hthree
  obtain ⟨hmagic, hversion⟩ := stores_append.mp htwo
  simp only [List.length_append, leBytes_length, Nat.zero_add] at hnum hdevice hversion
  have hreads : ReadsEntries b 0 := by
    refine ⟨rfl, ?_, wordAt_of_stores hmagic (by decide : blobCacheMagic < 2 ^ 32),
      wordAt_of_stores hversion (by decide : blobCacheVersion < 2 ^ 32),
      wordAt_of_stores hdevice (by decide : blobCacheDeviceVersion < 2 ^ 32)⟩
    rw [hb.size_eq]
    exact hroom
  rw [unflatten_reads blobRandom r hreads, wordAt_of_stores hnum hlength]
  exact @unflattenEntries_laid _ _ b headerSize s.items hb.entries hb.size_eq.ge hlt r.clear

/-! ## A new key -/

/-- A key that is not in the cache is added to the total and to the entries. -/
theorem round_of_missing {below above : List CacheEntry}
    (h : c.mCacheEntries.Missing e.key below above) :
    c.round blobRandom e.key e.value =
      if 2 ^ 32 < footprint c.items + (e.size + 2 * blobBytes) then .error .noMemory
      else c.update blobRandom ((c.mTotalSize + e.size) % 2 ^ 32) (c.mCacheEntries.add e) := by
  simp only [round, h.indexOf_eq, CacheEntry.size, Nat.add_assoc]

theorem missing_of_new (h : ∀ y ∈ c.items, y.key ≠ e.key) :
    ∃ below above, c.mCacheEntries.Missing e.key below above := by
  rcases c.mCacheEntries.missing_or_hit e.key with hmissing | ⟨below, y, above, hhit⟩
  · exact hmissing
  · refine absurd hhit.key_eq (h y ?_)
    rw [items, hhit.val_eq]
    simp

/-- The cache with one more entry. -/
def plus (c : Cache ρ) (e : CacheEntry) : Cache ρ :=
  c.withEntries ((c.mTotalSize + e.size) % 2 ^ 32) (c.mCacheEntries.add e)

theorem plus_items (hnew : ∀ y ∈ c.items, y.key ≠ e.key) :
    ∃ below above, c.items = below ++ above ∧ (c.plus e).items = below ++ e :: above := by
  obtain ⟨below, above, hmissing⟩ := missing_of_new hnew
  exact ⟨below, above, hmissing.val_eq, hmissing.add_val e.value⟩

theorem sameLimits_plus (c : Cache ρ) (e : CacheEntry) : SameLimits c (c.plus e) := ⟨rfl, rfl, rfl⟩

/-- A new key whose total is within the limit is stored, if there is memory for it. -/
theorem set_plus (haccepts : c.accepts e.key.length e.value.length = true)
    (hnew : ∀ y ∈ c.items, y.key ≠ e.key)
    (hlimit : (c.mTotalSize + e.size) % 2 ^ 32 ≤ c.mMaxTotalSize) :
    c.set blobRandom e.key e.value =
      if 2 ^ 32 < footprint c.items + (e.size + 2 * blobBytes) then .error .noMemory
      else .ok (c.plus e, true) := by
  obtain ⟨below, above, hmissing⟩ := missing_of_new hnew
  change c.setFrom blobRandom _ _ _ _ = _
  rw [setFrom, if_pos haccepts]
  change setLoop blobRandom e.key e.value 2 c = _
  rw [setLoop, round_of_missing hmissing]
  by_cases hfits : 2 ^ 32 < footprint c.items + (e.size + 2 * blobBytes)
  · rw [if_pos hfits, if_pos hfits]
  · rw [if_neg hfits, if_neg hfits, update, if_neg (Nat.not_lt.mpr hlimit)]
    rfl

/-- A new key whose total is beyond the limit costs an entry: the new one or another. -/
theorem set_beyond (haccepts : c.accepts e.key.length e.value.length = true)
    (hnew : ∀ y ∈ c.items, y.key ≠ e.key)
    (hlimit : c.mMaxTotalSize < (c.mTotalSize + e.size) % 2 ^ 32) {p : Cache ρ × Bool}
    (h : c.set blobRandom e.key e.value = .ok p) : p.1.items.length ≤ c.items.length := by
  obtain ⟨below, above, hmissing⟩ := missing_of_new hnew
  change c.setFrom blobRandom _ _ _ _ = _ at h
  rw [setFrom, if_pos haccepts] at h
  change setLoop blobRandom e.key e.value 2 c = _ at h
  rw [setLoop, round_of_missing hmissing] at h
  by_cases hfits : 2 ^ 32 < footprint c.items + (e.size + 2 * blobBytes)
  · rw [if_pos hfits] at h
    cases h
  · rw [if_neg hfits, update, if_pos hlimit] at h
    cases hcleanable : c.isCleanable with
    | false =>
      rw [hcleanable] at h
      cases h
      exact Nat.le_refl _
    | true =>
      rw [hcleanable, if_pos rfl] at h
      rcases c.clean_cases blobRandom with herror | ⟨c₁, hclean, hcleaned, hshort⟩
      · rw [herror] at h
        cases h
      · rw [hclean] at h
        change setLoop blobRandom e.key e.value 1 c₁ = _ at h
        have hends : SetEnds blobRandom c₁ e.key e.value (.ok p) := by
          rw [← h]
          exact setLoop_last hcleaned.half 0
        have haccepts₁ : c₁.accepts e.key.length e.value.length = true := by
          rw [hcleaned.limits.accepts_eq]
          exact haccepts
        exact (setLoop_result haccepts₁ hends).length_le.trans (hshort hcleanable)

/-! ## Setting the entries of another cache -/

theorem set_result {key value : Blob} {p : Cache ρ × Bool}
    (h : c.set blobRandom key value = .ok p) : SetResult c p :=
  setFrom_result (fun _ hk => by cases hk; rfl) (fun _ hv => by cases hv; rfl) h

theorem setEntries_cons_ok {es : List CacheEntry} {c' : Cache ρ}
    (h : c.setEntries blobRandom (e :: es) = .ok c') :
    ∃ p, c.set blobRandom e.key e.value = .ok p ∧ p.1.setEntries blobRandom es = .ok c' := by
  rw [setEntries] at h
  cases hset : c.set blobRandom e.key e.value with
  | error f =>
    rw [hset] at h
    cases h
  | ok p =>
    rw [hset] at h
    exact ⟨p, rfl, h⟩

theorem setEntries_length_le {es : List CacheEntry} {c' : Cache ρ}
    (h : c.setEntries blobRandom es = .ok c') :
    c'.items.length ≤ c.items.length + es.length := by
  induction es generalizing c with
  | nil =>
    cases h
    exact Nat.le_refl _
  | cons e es ih =>
    obtain ⟨p, hset, hrest⟩ := setEntries_cons_ok h
    have hle := ih hrest
    have hone := (set_result hset).length_le
    rw [List.length_cons]
    omega

/-- The total stays within the limit while the entries are added. -/
def FitsIn (es : List CacheEntry) (c : Cache ρ) : Prop :=
  ∀ p ∈ es.inits, (c.mTotalSize + storedBytes p) % 2 ^ 32 ≤ c.mMaxTotalSize

instance (es : List CacheEntry) (c : Cache ρ) : Decidable (FitsIn es c) :=
  inferInstanceAs (Decidable (∀ p ∈ es.inits, _))

theorem fitsIn_cons {es : List CacheEntry} (htotal : c.mTotalSize ≤ c.mMaxTotalSize) :
    FitsIn (e :: es) c ↔
      (c.mTotalSize + e.size) % 2 ^ 32 ≤ c.mMaxTotalSize ∧ FitsIn es (c.plus e) := by
  have hmove : ∀ p, ((c.plus e).mTotalSize + storedBytes p) % 2 ^ 32 =
      (c.mTotalSize + storedBytes (e :: p)) % 2 ^ 32 := by
    intro p
    change ((c.mTotalSize + e.size) % 2 ^ 32 + storedBytes p) % 2 ^ 32 = _
    rw [storedBytes_cons, Nat.mod_add_mod, Nat.add_assoc]
  constructor
  · intro h
    refine ⟨?_, fun p hp => ?_⟩
    · have hhead := h [e] (by simp)
      rw [storedBytes_cons, storedBytes_nil, Nat.add_zero] at hhead
      exact hhead
    · rw [hmove]
      exact h (e :: p) (by simpa using hp)
  · rintro ⟨-, hrest⟩ p hp
    rw [List.mem_inits] at hp
    cases p with
    | nil =>
      rw [storedBytes_nil, Nat.add_zero]
      exact (Nat.mod_le _ _).trans htotal
    | cons y p =>
      obtain ⟨rfl, hp'⟩ := List.cons_prefix_cons.mp hp
      rw [← hmove]
      exact hrest p ((List.mem_inits ..).mpr hp')

/-- Entries in order, accepted and in memory, are all appended while the total fits. -/
theorem setEntries_append {es : List CacheEntry}
    (hsorted : Sorted CacheEntry.order (c.items ++ es))
    (haccepts : ∀ e ∈ es, c.accepts e.key.length e.value.length = true)
    (hmemory : footprint (c.items ++ es) ≤ 2 ^ 32) (htotal : c.mTotalSize ≤ c.mMaxTotalSize)
    (hfits : FitsIn es c) :
    ∃ c', c.setEntries blobRandom es = .ok c' ∧ c'.items = c.items ++ es ∧ SameLimits c c' := by
  induction es generalizing c with
  | nil => exact ⟨c, rfl, (List.append_nil _).symm, .refl c⟩
  | cons e es ih =>
    obtain ⟨hlimit, hrest⟩ := (fitsIn_cons htotal).mp hfits
    have hlast : ∀ y ∈ c.items, y.order < e.order := by
      intro y hy
      exact (List.pairwise_append.mp hsorted).2.2 y hy e (List.mem_cons_self ..)
    have hnew : ∀ y ∈ c.items, y.key ≠ e.key := by
      intro y hy hkey
      exact (hlast y hy).ne (congrArg rank hkey)
    have hhead : c.items.Pairwise fun x y => x.order < y.order :=
      (List.pairwise_append.mp hsorted).1
    have hitems : (c.plus e).items = c.items ++ [e] := insert_last hhead hlast
    have hroom : ¬ 2 ^ 32 < footprint c.items + (e.size + 2 * blobBytes) := by
      rw [footprint_append, footprint_cons] at hmemory
      lia
    have hmove : c.items ++ e :: es = (c.plus e).items ++ es := by rw [hitems]; simp
    rw [hmove] at hsorted hmemory
    have haccepts' : ∀ y ∈ es, (c.plus e).accepts y.key.length y.value.length = true := by
      intro y hy
      rw [(sameLimits_plus c e).accepts_eq]
      exact haccepts y (List.mem_cons_of_mem e hy)
    obtain ⟨c', hset, hitems', hlimits⟩ := ih hsorted haccepts' hmemory hlimit hrest
    refine ⟨c', ?_, ?_, (sameLimits_plus c e).trans hlimits⟩
    · rw [setEntries, set_plus (haccepts e (List.mem_cons_self ..)) hnew hlimit, if_neg hroom]
      exact hset
    · rw [hitems', hmove]

/-- Where the total does not fit, an entry is missing at the end. -/
theorem setEntries_short {es : List CacheEntry} {c' : Cache ρ}
    (hnew : ∀ e ∈ es, ∀ y ∈ c.items, y.key ≠ e.key) (hnodup : (es.map CacheEntry.key).Nodup)
    (haccepts : ∀ e ∈ es, c.accepts e.key.length e.value.length = true)
    (htotal : c.mTotalSize ≤ c.mMaxTotalSize) (hfits : ¬ FitsIn es c)
    (h : c.setEntries blobRandom es = .ok c') :
    c'.items.length < c.items.length + es.length := by
  induction es generalizing c with
  | nil =>
    refine absurd (fun p hp => ?_) hfits
    obtain rfl : p = [] := by simpa using hp
    rw [storedBytes_nil, Nat.add_zero]
    exact (Nat.mod_le _ _).trans htotal
  | cons e es ih =>
    obtain ⟨p, hset, hrest⟩ := setEntries_cons_ok h
    have hhead := haccepts e (List.mem_cons_self ..)
    have hhere := hnew e (List.mem_cons_self ..)
    rw [List.length_cons]
    by_cases hlimit : (c.mTotalSize + e.size) % 2 ^ 32 ≤ c.mMaxTotalSize
    · rw [set_plus hhead hhere hlimit] at hset
      split at hset
      · cases hset
      · cases hset
        obtain ⟨below, above, hold, hplus⟩ := plus_items hhere
        obtain ⟨hother, hnodup'⟩ := List.nodup_cons.mp hnodup
        have hnew' : ∀ e' ∈ es, ∀ y ∈ (c.plus e).items, y.key ≠ e'.key := by
          intro e' he' y hy hkey
          rw [hplus, List.mem_append, List.mem_cons] at hy
          have hy' : y = e ∨ y ∈ c.items := by
            rw [hold, List.mem_append]
            tauto
          rcases hy' with rfl | hy'
          · exact hother (hkey ▸ List.mem_map_of_mem he')
          · exact hnew e' (List.mem_cons_of_mem e he') y hy' hkey
        have haccepts' : ∀ y ∈ es, (c.plus e).accepts y.key.length y.value.length = true := by
          intro y hy
          rw [(sameLimits_plus c e).accepts_eq]
          exact haccepts y (List.mem_cons_of_mem e hy)
        have hfits' : ¬ FitsIn es (c.plus e) :=
          fun hfit => hfits ((fitsIn_cons htotal).mpr ⟨hlimit, hfit⟩)
        have hshort := ih hnew' hnodup' haccepts' hlimit hfits' hrest
        rw [hplus] at hshort
        rw [hold]
        simp only [List.length_append, List.length_cons] at hshort ⊢
        lia
    · have hone := set_beyond hhead hhere (Nat.lt_of_not_le hlimit) hset
      have hle := setEntries_length_le hrest
      lia

/-! ## Answers -/

theorem get_of_items {c c' : Cache ρ} (hlimits : SameLimits c c') (hitems : c'.items = c.items) :
    c'.get = c.get := by
  have hentries : c'.mCacheEntries = c.mCacheEntries := Subtype.ext hitems
  funext key valueSize
  simp only [get, hentries, hlimits.mMaxKeySize]

theorem get_stored (hc : Held c) (he : e ∈ c.items) :
    c.get e.key 0 ≠ (0, none) := by
  have haccepts := hc.accepted e he
  simp only [accepts, Bool.and_eq_true, decide_eq_true_iff, bne_iff_ne] at haccepts
  obtain ⟨⟨⟨⟨hkey, -⟩, -⟩, -⟩, hvalue⟩ := haccepts
  rcases c.mCacheEntries.missing_or_hit e.key with ⟨below, above, h⟩ | ⟨below, y, above, h⟩
  · exact absurd rfl (h.not_mem e he)
  · obtain rfl : e = y := h.eq_of_key e he rfl
    rw [get, if_neg (Nat.not_lt.mpr hkey), h.indexOf_eq]
    dsimp only
    rw [h.valueAt_eq]
    intro hzero
    exact hvalue (congrArg Prod.fst hzero)

theorem stored_of_get {key : Blob} (h : c.get key 0 ≠ (0, none)) : ∃ y ∈ c.items, y.key = key := by
  by_contra hnone
  rcases c.mCacheEntries.missing_or_hit key with ⟨below, above, hmiss⟩ | ⟨below, y, above, hhit⟩
  · apply h
    rw [get, hmiss.indexOf_eq]
    split <;> rfl
  · refine hnone ⟨y, ?_, hhit.key_eq⟩
    rw [items, hhit.val_eq]
    simp

/-! ## The round trip -/

/-- Loading what `s` writes makes `r` answer as `s` does. -/
def Reloads (blobRandom : ρ → ℕ × ρ) (s r : Cache ρ) : Prop :=
  ∀ b b', b.size = s.getFlattenedSize → s.flatten b 0 = .ok (.OK, b') →
    ∃ r', (r.unflatten blobRandom b' 0).2 = .ok (.OK, r') ∧
      ∀ key valueSize, r'.get key valueSize = s.get key valueSize

/-- The sender's buffer is written to the end. -/
def Flattens (s : Cache ρ) : Prop :=
  ∀ b : Buffer, b.size = s.getFlattenedSize → ∃ b', s.flatten b 0 = .ok (.OK, b')

theorem nodup_keys (c : Cache ρ) : (c.items.map CacheEntry.key).Nodup := by
  rw [List.Nodup, List.pairwise_map]
  apply c.mCacheEntries.property.imp
  intro x y hlt hkey
  exact hlt.ne (congrArg rank hkey)

theorem sameLimits_clear {s r : Cache ρ} (h : SameLimits s r) : SameLimits s r.clear :=
  ⟨h.mMaxKeySize, h.mMaxValueSize, h.mMaxTotalSize⟩

theorem reloads_of_fitsIn {s r : Cache ρ} (hs : Held s) (hr : Held r) (hlimits : SameLimits s r)
    (hfits : FitsIn s.items r) : Reloads blobRandom s r := by
  intro b b' hb hflatten
  obtain ⟨b'', hwrite, hflat⟩ := hs.flatten hb
  rw [hflatten] at hwrite
  cases hwrite
  have haccepts : ∀ e ∈ s.items, r.clear.accepts e.key.length e.value.length = true := by
    intro e he
    rw [(sameLimits_clear hlimits).accepts_eq]
    exact hs.accepted e he
  obtain ⟨r', hset, hitems, hlimits'⟩ := @setEntries_append _ blobRandom
    r.clear s.items s.mCacheEntries.property haccepts hs.fits hr.total_le hfits
  refine ⟨r', ?_, ?_⟩
  · rw [unflatten_flattened hs hflat, hset]
    rfl
  · have hsame : SameLimits s r' := (sameLimits_clear hlimits).trans hlimits'
    have hget := get_of_items hsame hitems
    exact fun key valueSize => congrFun (congrFun hget key) valueSize

theorem fitsIn_of_reloads {s r : Cache ρ} (hs : Held s) (hr : Held r) (hlimits : SameLimits s r)
    (h : Reloads blobRandom s r) : FitsIn s.items r := by
  by_contra hfits
  obtain ⟨b', hwrite, hflat⟩ := hs.flatten (b := ⟨fun _ => 0, s.getFlattenedSize⟩) rfl
  obtain ⟨r', hload, hget⟩ := h _ b' rfl hwrite
  rw [unflatten_flattened hs hflat] at hload
  cases hset : r.clear.setEntries blobRandom s.items with
  | error f =>
    rw [hset] at hload
    cases hload
  | ok r'' =>
    rw [hset] at hload
    cases hload
    have haccepts : ∀ e ∈ s.items, r.clear.accepts e.key.length e.value.length = true := by
      intro e he
      rw [(sameLimits_clear hlimits).accepts_eq]
      exact hs.accepted e he
    have hshort := setEntries_short (c := r.clear) (fun _ _ y hy => absurd hy List.not_mem_nil)
      (nodup_keys s) haccepts hr.total_le hfits hset
    -- Every key of the sender is found in the receiver, which has fewer entries.
    have hsub : s.items.map CacheEntry.key ⊆ r'.items.map CacheEntry.key := by
      intro key hkey
      obtain ⟨e, he, rfl⟩ := List.mem_map.mp hkey
      have hfound : r'.get e.key 0 ≠ (0, none) := by
        rw [hget]
        exact get_stored hs he
      obtain ⟨y, hy, hykey⟩ := stored_of_get hfound
      exact List.mem_map.mpr ⟨y, hy, hykey⟩
    have hle := (List.subperm_of_subset (nodup_keys s) hsub).length_le
    rw [List.length_map, List.length_map] at hle
    change r'.items.length < 0 + s.items.length at hshort
    omega

/-- For all caches that calls can make: flattening always succeeds; the round trip into a cache with
the same limits, and the safety of all buffers of a size, hold exactly if the sender's entries fit
beside the receiver's running total and the size leaves no room for an entry header. A buffer of any
size whose sums fit in 32 bits is safe as well. -/
theorem serialization_iff (blobRandom : ρ → ℕ × ρ) {s r : Cache ρ} (hs : Reachable blobRandom s)
    (hr : Reachable blobRandom r) (hlimits : SameLimits s r) {size : ℕ} (hsize : size < 2 ^ 32) :
    ((Flattens s ∧ Reloads blobRandom s r ∧
        ∀ b : Buffer, b.size = size → ∀ count, Safe blobRandom r b count) ↔
      FitsIn s.items r ∧ size < headerSize + entryHeaderSize) ∧
    ∀ b count, Fitting b count → Safe blobRandom r b count := by
  have hflattens : Flattens s := by
    intro b hb
    obtain ⟨b', hwrite, -⟩ := hs.held.flatten hb
    exact ⟨b', hwrite⟩
  refine ⟨⟨?_, ?_⟩, fun b count h => safe_of_fitting r h⟩
  · rintro ⟨-, hreloads, hsafe⟩
    exact ⟨fitsIn_of_reloads hs.held hr.held hlimits hreloads, (safe_iff_short r hsize).mp hsafe⟩
  · rintro ⟨hfits, hshort⟩
    exact ⟨hflattens, reloads_of_fitsIn hs.held hr.held hlimits hfits,
      (safe_iff_short r hsize).mpr hshort⟩

/-- An empty receiver takes what a small cache has written. -/
theorem serialization_iff_small :
    Reloads (fun n => (n, n + 1))
      ((Machine.run (step fun n => (n, n + 1)) (new 4 4 8 0)
        [.set [1, 2, 3] [1, 2, 3]]).getD (new 4 4 8 0))
      (new 4 4 8 0) := by
  have hs : Reachable (fun n => (n, n + 1))
      ((Machine.run (step fun n => (n, n + 1)) (new 4 4 8 0)
        [.set [1, 2, 3] [1, 2, 3]]).getD (new 4 4 8 0)) :=
    ⟨4, 4, 8, 0, [.set [1, 2, 3] [1, 2, 3]], by decide⟩
  have hr : Reachable (fun n => (n, n + 1)) (new 4 4 8 0) := ⟨4, 4, 8, 0, [], rfl⟩
  have hiff := (serialization_iff (fun n => (n, n + 1)) hs hr ⟨rfl, rfl, rfl⟩
    (by decide : 20 < 2 ^ 32)).1
  exact (hiff.mpr ⟨by decide, by decide⟩).2.1

/-- A cache that holds what it loads: the total of 6 stays when the entries are cleared, and with 6
more there is nothing to evict. And 24 bytes that keep the loop going as often as they can count. -/
theorem full_receiver_stops :
    (Machine.run (step fun n => (n, n + 1)) (new 4 4 8 0) [.set [1, 2, 3] [1, 2, 3]]).map
        (fun c => (c.flatten ⟨fun _ => 0, c.getFlattenedSize⟩ 0).bind fun p =>
          (c.unflatten (fun n => (n, n + 1)) p.2 0).2.map fun q => q.2.items) =
      some (.error .remainderByZero) ∧
    ((new 4 4 8 0).unflatten (fun n => (n, n + 1)) (stuckBuffer 24) 0).1 = 2 ^ 32 - 1 := by
  constructor
  · decide
  · have hreads : ReadsEntries (stuckBuffer 24) 0 := by decide
    have hcount : (stuckBuffer 24).wordAt 12 = 2 ^ 32 - 1 := by decide
    rw [unflatten_reads _ _ hreads, hcount,
      unflattenEntries_stuck _ _ (by decide) (by decide) (by decide) (by decide)]

end Cache

end AudioFlinger.BlobCache
