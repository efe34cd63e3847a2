import Mathlib.Algebra.Order.BigOperators.Group.List
import AudioFlinger.BlobCache.Storing

/-!
# What a buffer lists

`unflatten` walks over a buffer and hands each entry to `set`. The walk does not
depend on the cache: `listing` gives the entries it finds and the way it ends,
and `unflatten` sets them one after another.
-/

namespace AudioFlinger.BlobCache

open Foundation Bytes

/-- An entry in a buffer. -/
structure Record where
  pos : ℕ
  keySize : ℕ
  valueSize : ℕ
deriving DecidableEq

/-- The entries found from an offset on, and the end of the walk. -/
def entriesAt (b : Buffer) : ℕ → ℕ → List Record × Except Fault Status
  | 0, _ => ([], .ok .OK)
  | n + 1, byteOffset =>
    if b.size < (byteOffset + entryHeaderSize) % 2 ^ 32 then ([], .ok .BAD_VALUE)
    else
      match b.readEntryHeader byteOffset with
      | .error f => ([], .error f)
      | .ok (keySize, valueSize) =>
        if b.size < (byteOffset + entrySize keySize valueSize) % 2 ^ 32 then ([], .ok .BAD_VALUE)
        else
          let rest := entriesAt b n
            ((byteOffset + align4 (entrySize keySize valueSize)) % 2 ^ 32)
          (⟨byteOffset, keySize, valueSize⟩ :: rest.1, rest.2)

/-- The entries that a buffer lists for a call with `count` file descriptors. -/
def listing (b : Buffer) (count : ℕ) : List Record × Except Fault Status :=
  if count ≠ 0 then ([], .ok .BAD_VALUE)
  else if b.size < headerSize then ([], .ok .BAD_VALUE)
  else
    match b.readHeader with
    | .error f => ([], .error f)
    | .ok h =>
      if h.mMagicNumber ≠ blobCacheMagic then ([], .ok .BAD_VALUE)
      else if h.mBlobCacheVersion ≠ blobCacheVersion ∨ h.mDeviceVersion ≠ blobCacheDeviceVersion then
        ([], .ok .OK)
      else entriesAt b h.mNumEntries (align4 headerSize)

variable {ρ : Type} (blobRandom : ρ → ℕ × ρ)

namespace Cache

/-- Set one listed entry. -/
def setRecord (b : Buffer) (c : Cache ρ) (r : Record) : Except Fault (Cache ρ × Bool) :=
  c.setFrom blobRandom r.keySize r.valueSize (b.read (r.pos + entryHeaderSize) r.keySize)
    (b.read (r.pos + entryHeaderSize + r.keySize) r.valueSize)

/-- Set the listed entries one after another. -/
def reload (b : Buffer) : List Record → Cache ρ → Except Fault (Cache ρ)
  | [], c => .ok c
  | r :: rs, c => (c.setRecord blobRandom b r).bind fun p => reload b rs p.1

/-- An error leaves no entries. -/
def close (st : Status) (c : Cache ρ) : Cache ρ := if st = .OK then c else c.clear

/-- The listed entries are set, and the end of the walk decides what is returned. -/
def finish (b : Buffer) (c : Cache ρ) (l : List Record × Except Fault Status) :
    Except Fault (Status × Cache ρ) :=
  (c.reload blobRandom b l.1).bind fun c' => l.2.map fun st => (st, c'.close st)

variable {blobRandom} {b : Buffer}

@[simp] theorem finish_bad (c : Cache ρ) :
    c.finish blobRandom b ([], .ok .BAD_VALUE) = .ok (.BAD_VALUE, c.clear) := rfl

@[simp] theorem finish_error (c : Cache ρ) (f : Fault) :
    c.finish blobRandom b ([], .error f) = .error f := rfl

theorem finish_cons (c : Cache ρ) (r : Record) (l : List Record × Except Fault Status) :
    c.finish blobRandom b (r :: l.1, l.2) =
      (c.setRecord blobRandom b r).bind fun p => p.1.finish blobRandom b l := by
  unfold finish
  rw [reload]
  cases c.setRecord blobRandom b r with
  | error f => rfl
  | ok p => rfl

/-- The loop of `unflatten` sets what is listed, in at most one round more than there are
entries. -/
theorem unflattenEntries_eq (blobRandom : ρ → ℕ × ρ) (b : Buffer) (n : ℕ) (c : Cache ρ)
    (byteOffset : ℕ) :
    (c.unflattenEntries blobRandom b n byteOffset).2 =
        c.finish blobRandom b (entriesAt b n byteOffset) ∧
      (c.unflattenEntries blobRandom b n byteOffset).1 ≤
        (entriesAt b n byteOffset).1.length + 1 := by
  induction n generalizing c byteOffset with
  | zero => exact ⟨rfl, Nat.zero_le _⟩
  | succ n ih =>
    by_cases hheader : b.size < (byteOffset + entryHeaderSize) % 2 ^ 32
    · simp only [unflattenEntries, entriesAt, if_pos hheader]
      exact ⟨(finish_bad c).symm, Nat.le_refl _⟩
    · cases hread : b.readEntryHeader byteOffset with
      | error f =>
        simp only [unflattenEntries, entriesAt, if_neg hheader, hread]
        exact ⟨(finish_error c f).symm, Nat.le_refl _⟩
      | ok sizes =>
        obtain ⟨keySize, valueSize⟩ := sizes
        by_cases hentry : b.size < (byteOffset + entrySize keySize valueSize) % 2 ^ 32
        · simp only [unflattenEntries, entriesAt, if_neg hheader, hread, if_pos hentry]
          exact ⟨(finish_bad c).symm, Nat.le_refl _⟩
        · simp only [unflattenEntries, entriesAt, if_neg hheader, hread, if_neg hentry,
            finish_cons, setRecord, List.length_cons]
          cases c.setFrom blobRandom keySize valueSize
              (b.read (byteOffset + entryHeaderSize) keySize)
              (b.read (byteOffset + entryHeaderSize + keySize) valueSize) with
          | error f => exact ⟨rfl, Nat.le_add_left _ _⟩
          | ok p =>
            have hrest := ih p.1 ((byteOffset + align4 (entrySize keySize valueSize)) % 2 ^ 32)
            exact ⟨hrest.1, Nat.succ_le_succ hrest.2⟩

theorem unflatten_eq (blobRandom : ρ → ℕ × ρ) (c : Cache ρ) (b : Buffer) (count : ℕ) :
    (c.unflatten blobRandom b count).2 = c.clear.finish blobRandom b (listing b count) ∧
      (c.unflatten blobRandom b count).1 ≤ (listing b count).1.length + 1 := by
  unfold unflatten listing
  split
  · exact ⟨rfl, Nat.zero_le _⟩
  · split
    · exact ⟨rfl, Nat.zero_le _⟩
    · cases b.readHeader with
      | error f => exact ⟨rfl, Nat.zero_le _⟩
      | ok h =>
        dsimp only
        split
        · exact ⟨rfl, Nat.zero_le _⟩
        · split
          · exact ⟨rfl, Nat.zero_le _⟩
          · exact unflattenEntries_eq _ _ _ _ _

end Cache

/-!
## What holds of every cache

Whatever the calls were, and even with a total that is out of step with the
entries, the stored entries are of sizes that `set` accepts, they are in memory,
and the total is within its limit.
-/

open Foundation

namespace Cache

variable {ρ : Type} {blobRandom : ρ → ℕ × ρ} {c c' : Cache ρ} {key value : Blob}

/-- The invariant of all runs. -/
structure Held (c : Cache ρ) : Prop where
  accepted : ∀ e ∈ c.items, c.accepts e.key.length e.value.length = true
  fits : footprint c.items ≤ 2 ^ 32
  total_le : c.mTotalSize ≤ c.mMaxTotalSize

/-- Some run of calls makes the cache. -/
def Reachable (blobRandom : ρ → ℕ × ρ) (c : Cache ρ) : Prop :=
  ∃ maxKeySize maxValueSize maxTotalSize seed es,
    Machine.run (step blobRandom) (new maxKeySize maxValueSize maxTotalSize seed) es = some c

theorem footprint_sublist {es es' : List CacheEntry} (h : es'.Sublist es) :
    footprint es' ≤ footprint es := by
  apply List.Sublist.sum_le_sum (h.map _)
  intro n _
  exact Nat.zero_le n

theorem Held.cleaned (h : Held c) (hcleaned : Cleaned c c') : Held c' where
  accepted := by
    intro e he
    rw [hcleaned.limits.accepts_eq]
    exact h.accepted e (hcleaned.kept.subset he)
  fits := (footprint_sublist hcleaned.kept).trans h.fits
  total_le := by
    have hhalf : ¬ c'.mMaxTotalSize / 2 < c'.mTotalSize := by
      intro hlt
      have hhalf := hcleaned.half
      rw [isCleanable_iff.mpr hlt] at hhalf
      cases hhalf
    omega

theorem Held.storesIn (h : Held c) (haccepts : c.accepts key.length value.length = true)
    (hstores : StoresIn c key value c') : Held c' := by
  obtain ⟨need, total', entries, hplaced, hfits, hlimit, rfl⟩ := hstores
  refine ⟨fun e he => ?_, hplaced.footprint_le.trans hfits, hlimit⟩
  rcases hplaced.subset e he with rfl | he
  · exact haccepts
  · exact h.accepted e he

/-- The cache that a round finds: as it was, or cleaned. -/
theorem Ready.cases {c₁ : Cache ρ} (hready : Ready blobRandom c c₁) :
    c₁ = c ∨ Cleaned c c₁ ∧ c₁.items.length < c.items.length := by
  rcases hready with rfl | ⟨hcleanable, hclean⟩
  · exact .inl rfl
  · rcases c.clean_cases blobRandom with herror | ⟨c', hc', hcleaned, hshort⟩
    · rw [hclean] at herror
      cases herror
    · rw [hclean] at hc'
      cases hc'
      exact .inr ⟨hcleaned, hshort hcleanable⟩

/-- What `set` returns, for blobs that were read. -/
structure SetResult (c : Cache ρ) (p : Cache ρ × Bool) : Prop where
  limits : SameLimits c p.1
  length_le : p.1.items.length ≤ c.items.length + 1
  held : Held c → Held p.1

theorem setLoop_result (haccepts : c.accepts key.length value.length = true)
    {p : Cache ρ × Bool} (h : SetEnds blobRandom c key value (.ok p)) : SetResult c p := by
  rcases h with herror | ⟨-, -, herror⟩ | ⟨c₁, hready, hend⟩
  · cases herror
  · cases herror
  · have hlimits : SameLimits c c₁ := by
      rcases hready.cases with rfl | ⟨hcleaned, -⟩
      · exact .refl _
      · exact hcleaned.limits
    have hlength : c₁.items.length ≤ c.items.length := by
      rcases hready.cases with rfl | ⟨-, hshort⟩
      · exact Nat.le_refl _
      · exact hshort.le
    have hheld : Held c → Held c₁ := by
      intro hc
      rcases hready.cases with rfl | ⟨hcleaned, -⟩
      · exact hc
      · exact hc.cleaned hcleaned
    rcases hend with ⟨c', hstores, hp⟩ | ⟨-, hp⟩
    · cases hp
      have haccepts₁ : c₁.accepts key.length value.length = true := by
        rw [hlimits.accepts_eq]
        exact haccepts
      have hstored := hstores
      obtain ⟨need, total', entries, hplaced, -, -, rfl⟩ := hstored
      refine ⟨hlimits.trans ⟨rfl, rfl, rfl⟩, ?_, fun hc => (hheld hc).storesIn haccepts₁ hstores⟩
      exact hplaced.length_le.trans (Nat.succ_le_succ hlength)
    · cases hp
      exact ⟨hlimits, hlength.trans (Nat.le_succ _), hheld⟩

theorem setFrom_result {keySize valueSize : ℕ} {k v : Except Fault Blob}
    (hk : ∀ key, k = .ok key → key.length = keySize)
    (hv : ∀ value, v = .ok value → value.length = valueSize) {p : Cache ρ × Bool}
    (h : c.setFrom blobRandom keySize valueSize k v = .ok p) : SetResult c p := by
  unfold setFrom at h
  split at h
  next haccepts =>
    cases k with
    | error f => cases h
    | ok key =>
      cases v with
      | error f => cases h
      | ok value =>
        obtain rfl := hk key rfl
        obtain rfl := hv value rfl
        apply @setLoop_result _ blobRandom _ _ _ haccepts
        rw [← h]
        exact setLoop_ends c 0
  · cases h
    exact ⟨.refl c, Nat.le_succ _, fun hc => hc⟩

theorem read_length {b : Buffer} {pos n : ℕ} {bs : List Byte} (h : b.read pos n = .ok bs) :
    bs.length = n := by
  unfold Buffer.read at h
  split at h
  · cases h
    exact RingMemory.slice_length _ _
  · cases h

theorem setRecord_result {b : Buffer} {r : Record} {p : Cache ρ × Bool}
    (h : c.setRecord blobRandom b r = .ok p) : SetResult c p :=
  setFrom_result (fun _ => read_length) (fun _ => read_length) h

theorem reload_held {b : Buffer} {rs : List Record} (h : c.reload blobRandom b rs = .ok c')
    (hc : Held c) : Held c' := by
  induction rs generalizing c with
  | nil =>
    cases h
    exact hc
  | cons r rs ih =>
    rw [reload] at h
    cases hset : c.setRecord blobRandom b r with
    | error f =>
      rw [hset] at h
      cases h
    | ok p =>
      rw [hset] at h
      exact ih h ((setRecord_result hset).held hc)

theorem Held.clear (h : Held c) : Held c.clear where
  accepted := fun _ he => absurd he List.not_mem_nil
  fits := Nat.zero_le _
  total_le := h.total_le

theorem Held.close (h : Held c) (st : Status) : Held (c.close st) := by
  cases st with
  | OK => exact h
  | BAD_VALUE => exact h.clear

/-- The step lemma: every call that returns keeps the invariant. -/
theorem Held.step (h : Held c) {e : Call} (hstep : step blobRandom c e = some c') : Held c' := by
  cases e with
  | set key value =>
    cases hset : c.set blobRandom key value with
    | error f =>
      simp only [BlobCache.step, call, hset] at hstep
      cases hstep
    | ok p =>
      simp only [BlobCache.step, call, hset] at hstep
      cases hstep
      have hresult : SetResult c p := setFrom_result
        (fun _ hk => by cases hk; rfl) (fun _ hv => by cases hv; rfl) hset
      exact hresult.held h
  | get key valueSize =>
    cases hstep
    exact h
  | unflatten b count =>
    simp only [BlobCache.step, call, (unflatten_eq blobRandom c b count).1, finish] at hstep
    cases hload : c.clear.reload blobRandom b (listing b count).1 with
    | error f =>
      rw [hload] at hstep
      cases hstep
    | ok c₁ =>
      rw [hload] at hstep
      cases hend : (listing b count).2 with
      | error f =>
        rw [hend] at hstep
        cases hstep
      | ok st =>
        rw [hend] at hstep
        cases hstep
        exact (reload_held hload h.clear).close st

theorem Reachable.held (h : Reachable blobRandom c) : Held c := by
  obtain ⟨maxKeySize, maxValueSize, maxTotalSize, seed, es, hrun⟩ := h
  apply Machine.run_invariant (fun _ _ _ hstep hc => Held.step hc hstep) hrun
  exact ⟨fun e he => absurd he List.not_mem_nil, Nat.zero_le _, Nat.zero_le _⟩

end Cache

end AudioFlinger.BlobCache
