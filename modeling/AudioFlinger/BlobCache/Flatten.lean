import AudioFlinger.BlobCache.Reachable

/-!
# Walking over any buffer

`unflatten` adds the sizes of an entry header in 32 bits. Where the sums fit, the
walk stays inside the buffer and takes a round for every eight bytes at most.
Where a sum wraps around to zero, the walk stays where it is.
-/

namespace AudioFlinger.BlobCache

open Foundation Bytes Fields

/-- The word at an offset. -/
def Buffer.wordAt (b : Buffer) (pos : ℕ) : ℕ := leValue (RingMemory.slice b.mem pos 4)

/-- The sums at the entry headers fit in 32 bits: at each of the `n` headers that can be reached
from an offset. -/
def SumsFit (b : Buffer) : ℕ → ℕ → Prop
  | 0, _ => True
  | n + 1, pos =>
    pos + entryHeaderSize < 2 ^ 32 ∧
      (pos + entryHeaderSize ≤ b.size →
        pos + (entryHeaderSize + b.wordAt pos + b.wordAt (pos + 4)) < 2 ^ 32 ∧
          (pos + (entryHeaderSize + b.wordAt pos + b.wordAt (pos + 4)) ≤ b.size →
            SumsFit b n (pos + padded (entryHeaderSize + b.wordAt pos + b.wordAt (pos + 4)))))

/-- The call comes to the entries of the buffer. -/
def ReadsEntries (b : Buffer) (count : ℕ) : Prop :=
  count = 0 ∧ headerSize ≤ b.size ∧ b.wordAt 0 = blobCacheMagic ∧
    b.wordAt 4 = blobCacheVersion ∧ b.wordAt 8 = blobCacheDeviceVersion

instance (b : Buffer) (count : ℕ) : Decidable (ReadsEntries b count) :=
  inferInstanceAs (Decidable (_ ∧ _))

/-- The sums fit at the headers that the call reaches. -/
def Fitting (b : Buffer) (count : ℕ) : Prop :=
  ReadsEntries b count → SumsFit b (b.wordAt 12) headerSize

variable {b : Buffer} {pos n : ℕ}

theorem read_eq (h : pos + n ≤ b.size) : b.read pos n = .ok (RingMemory.slice b.mem pos n) :=
  if_pos h

theorem readWord_eq (h : pos + 4 ≤ b.size) : b.readWord pos = .ok (b.wordAt pos) := by
  rw [Buffer.readWord, read_eq h]
  rfl

theorem readEntryHeader_eq (h : pos + entryHeaderSize ≤ b.size) :
    b.readEntryHeader pos = .ok (b.wordAt pos, b.wordAt (pos + 4)) := by
  rw [entryHeaderSize] at h
  rw [Buffer.readEntryHeader, readWord_eq (by omega), readWord_eq (by omega)]
  rfl

theorem readHeader_eq (h : headerSize ≤ b.size) :
    b.readHeader = .ok ⟨b.wordAt 0, b.wordAt 4, b.wordAt 8, b.wordAt 12⟩ := by
  rw [headerSize] at h
  rw [Buffer.readHeader, readWord_eq (by omega), readWord_eq (by omega), readWord_eq (by omega),
    readWord_eq (by omega)]
  rfl

/-- A record whose bytes lie in the buffer. -/
def Record.Inside (b : Buffer) (r : Record) : Prop :=
  r.pos + entryHeaderSize + r.keySize + r.valueSize ≤ b.size

theorem align4_eq {size : ℕ} (h : size + 3 < 2 ^ 32) : align4 size = padded size := by
  rw [align4, Nat.mod_eq_of_lt h, padded]

theorem entriesAt_mod (h : SumsFit b n pos) : entriesAt b n (pos % 2 ^ 32) = entriesAt b n pos := by
  cases n with
  | zero => rfl
  | succ n => rw [Nat.mod_eq_of_lt (by have := h.1; omega)]

/-- Where the sums fit, the walk ends with a status, the entries lie in the buffer, and each takes
at least the eight bytes of its header. -/
theorem entriesAt_inside (h : SumsFit b n pos) (hlow : 3 ≤ pos) :
    (∃ st, (entriesAt b n pos).2 = .ok st) ∧
      (∀ r ∈ (entriesAt b n pos).1, r.Inside b) ∧
      ((entriesAt b n pos).1 = [] ∨
        pos + entryHeaderSize * (entriesAt b n pos).1.length ≤ b.size) := by
  induction n generalizing pos with
  | zero => exact ⟨⟨.OK, rfl⟩, fun r hr => absurd hr List.not_mem_nil, .inl rfl⟩
  | succ n ih =>
    obtain ⟨hpos, hheader⟩ := h
    have hmod : (pos + entryHeaderSize) % 2 ^ 32 = pos + entryHeaderSize := Nat.mod_eq_of_lt hpos
    rw [entriesAt, hmod]
    by_cases hroom : b.size < pos + entryHeaderSize
    · rw [if_pos hroom]
      exact ⟨⟨.BAD_VALUE, rfl⟩, fun r hr => absurd hr List.not_mem_nil, .inl rfl⟩
    · obtain ⟨hsum, hrest⟩ := hheader (Nat.le_of_not_lt hroom)
      rw [if_neg hroom, readEntryHeader_eq (Nat.le_of_not_lt hroom)]
      dsimp only
      set k := b.wordAt pos
      set v := b.wordAt (pos + 4)
      have hsize : entrySize k v = entryHeaderSize + k + v := Nat.mod_eq_of_lt (by omega)
      rw [hsize, Nat.mod_eq_of_lt hsum]
      by_cases hentry : b.size < pos + (entryHeaderSize + k + v)
      · rw [if_pos hentry]
        exact ⟨⟨.BAD_VALUE, rfl⟩, fun r hr => absurd hr List.not_mem_nil, .inl rfl⟩
      · have hfit := hrest (Nat.le_of_not_lt hentry)
        have hle := le_padded (entryHeaderSize + k + v)
        obtain ⟨hend, hinside, hlength⟩ := ih hfit (by omega)
        rw [if_neg hentry, align4_eq (by omega), entriesAt_mod hfit]
        refine ⟨hend, ?_, .inr ?_⟩
        · intro r hr
          rcases List.mem_cons.mp hr with rfl | hr
          · change pos + entryHeaderSize + k + v ≤ b.size
            omega
          · exact hinside r hr
        · rw [List.length_cons]
          unfold entryHeaderSize at *
          rcases hlength with hnil | hlength
          · rw [hnil, List.length_nil]
            omega
          · omega

namespace Cache

variable {ρ : Type} {blobRandom : ρ → ℕ × ρ} {c : Cache ρ}

theorem unflatten_reads (blobRandom : ρ → ℕ × ρ) (c : Cache ρ) {count : ℕ} (h : ReadsEntries b count) :
    c.unflatten blobRandom b count =
      c.clear.unflattenEntries blobRandom b (b.wordAt 12) headerSize := by
  obtain ⟨hcount, hsize, hmagic, hversion, hdevice⟩ := h
  rw [unflatten, if_neg (not_not.mpr hcount), if_neg (Nat.not_lt.mpr hsize), readHeader_eq hsize]
  dsimp only
  rw [if_neg (not_not.mpr hmagic), if_neg (by rw [hversion, hdevice]; decide)]
  rfl

theorem unflatten_other (blobRandom : ρ → ℕ × ρ) (c : Cache ρ) {count : ℕ} (h : ¬ ReadsEntries b count) :
    ∃ st, c.unflatten blobRandom b count = (0, .ok (st, c.clear)) := by
  unfold unflatten
  by_cases hcount : count = 0
  · rw [if_neg (not_not.mpr hcount)]
    by_cases hsize : b.size < headerSize
    · rw [if_pos hsize]
      exact ⟨_, rfl⟩
    · rw [if_neg hsize, readHeader_eq (Nat.le_of_not_lt hsize)]
      dsimp only
      by_cases hmagic : b.wordAt 0 = blobCacheMagic
      · rw [if_neg (not_not.mpr hmagic), if_pos]
        · exact ⟨_, rfl⟩
        · by_contra hversions
          rw [not_or, not_not, not_not] at hversions
          exact h ⟨hcount, Nat.le_of_not_lt hsize, hmagic, hversions⟩
      · rw [if_pos hmagic]
        exact ⟨_, rfl⟩
  · rw [if_pos hcount]
    exact ⟨_, rfl⟩

/-- A call that keeps inside the buffer, comes to its end, and takes no more rounds than the buffer
has entry headers. A `%` by zero in `clean` is such an end; `Accounting` is about it. -/
structure Safe (blobRandom : ρ → ℕ × ρ) (c : Cache ρ) (b : Buffer) (count : ℕ) : Prop where
  inside : (c.unflatten blobRandom b count).2 ≠ .error .outside
  finished : (c.unflatten blobRandom b count).2 ≠ .error .unfinished
  rounds_le : (c.unflatten blobRandom b count).1 ≤ b.size / entryHeaderSize

/-- The faults of a `set` whose blobs could be read. -/
theorem setFrom_error {keySize valueSize : ℕ} {key value : Blob} {f : Fault}
    (h : c.setFrom blobRandom keySize valueSize (.ok key) (.ok value) = .error f) :
    f = .noMemory ∨ f = .remainderByZero := by
  unfold setFrom at h
  split at h
  · have hends : SetEnds blobRandom c key value (.error f) := by
      rw [← h]
      exact setLoop_ends c 0
    rcases hends with hr | ⟨-, -, hr⟩ | ⟨c₁, -, ⟨c₂, -, hr⟩ | ⟨-, hr⟩⟩
    · cases hr
      exact .inl rfl
    · cases hr
      exact .inr rfl
    · cases hr
    · cases hr
  · cases h

theorem reload_error {rs : List Record} (hrs : ∀ r ∈ rs, r.Inside b) {f : Fault}
    (h : c.reload blobRandom b rs = .error f) : f = .noMemory ∨ f = .remainderByZero := by
  induction rs generalizing c with
  | nil => cases h
  | cons r rs ih =>
    have hr : r.pos + entryHeaderSize + r.keySize + r.valueSize ≤ b.size :=
      hrs r (List.mem_cons_self ..)
    have hset : c.setRecord blobRandom b r = c.setFrom blobRandom r.keySize r.valueSize
        (.ok (RingMemory.slice b.mem (r.pos + entryHeaderSize) r.keySize))
        (.ok (RingMemory.slice b.mem (r.pos + entryHeaderSize + r.keySize) r.valueSize)) := by
      rw [setRecord, read_eq (by omega), read_eq hr]
    rw [reload, hset] at h
    generalize hres : c.setFrom blobRandom r.keySize r.valueSize _ _ = res at h
    cases res with
    | error g =>
      cases h
      exact setFrom_error hres
    | ok p => exact ih (fun r' hr' => hrs r' (List.mem_cons_of_mem r hr')) h

theorem finish_error_of {l : List Record × Except Fault Status} {st : Status} (hend : l.2 = .ok st)
    (hrs : ∀ r ∈ l.1, r.Inside b) {f : Fault} (h : c.finish blobRandom b l = .error f) :
    f = .noMemory ∨ f = .remainderByZero := by
  rw [finish, hend] at h
  cases hload : c.reload blobRandom b l.1 with
  | error g =>
    rw [hload] at h
    cases h
    exact reload_error hrs hload
  | ok c' =>
    rw [hload] at h
    cases h

/-- Where the sums fit, the call is safe for every cache. -/
theorem safe_of_fitting (c : Cache ρ) {count : ℕ} (h : Fitting b count) :
    Safe blobRandom c b count := by
  by_cases hreads : ReadsEntries b count
  · have hfit := h hreads
    have hunflatten := unflatten_reads blobRandom c hreads
    obtain ⟨heq, hrounds⟩ := unflattenEntries_eq blobRandom b (b.wordAt 12) c.clear headerSize
    obtain ⟨⟨st, hend⟩, hinside, hlength⟩ := entriesAt_inside hfit (by decide)
    have hsize := hreads.2.1
    refine ⟨?_, ?_, ?_⟩
    · rw [hunflatten, heq]
      intro herror
      rcases finish_error_of hend hinside herror with hf | hf
      · cases hf
      · cases hf
    · rw [hunflatten, heq]
      intro herror
      rcases finish_error_of hend hinside herror with hf | hf
      · cases hf
      · cases hf
    · rw [hunflatten, Nat.le_div_iff_mul_le (by decide)]
      unfold headerSize entryHeaderSize at *
      rcases hlength with hnil | hlength
      · rw [hnil, List.length_nil] at hrounds
        lia
      · lia
  · obtain ⟨st, hother⟩ := unflatten_other blobRandom c hreads
    refine ⟨?_, ?_, ?_⟩
    · rw [hother]
      exact nofun
    · rw [hother]
      exact nofun
    · rw [hother]
      exact Nat.zero_le _

/-! ## Buffers of one size -/

/-- An entry header with the sizes 0 and 2^32 - 8, whose sum with the header's own size is 0. -/
theorem unflattenEntries_stuck (n : ℕ) (c : Cache ρ) (hroom : pos + entryHeaderSize ≤ b.size)
    (hpos : pos + entryHeaderSize < 2 ^ 32) (hkey : b.wordAt pos = 0)
    (hvalue : b.wordAt (pos + 4) = 2 ^ 32 - 8) :
    (c.unflattenEntries blobRandom b n pos).1 = n := by
  have hsize : entrySize 0 (2 ^ 32 - 8) = 0 := by decide
  have halign : align4 0 = 0 := by decide
  unfold entryHeaderSize at *
  induction n with
  | zero => rfl
  | succ n ih =>
    have hrefused : c.accepts 0 (2 ^ 32 - 8) = false := by simp [accepts]
    rw [unflattenEntries, entryHeaderSize, Nat.mod_eq_of_lt hpos, if_neg (by omega),
      readEntryHeader_eq hroom, hkey, hvalue]
    simp only [hsize, halign, Nat.add_zero, setFrom, hrefused]
    rw [Nat.mod_eq_of_lt (by omega), if_neg (by omega)]
    simp only [Bool.false_eq_true, if_false, ih]

/-- A buffer of any size whose first entry header has these sizes and whose header counts as many
entries as it can. -/
def stuckBuffer (size : ℕ) : Buffer where
  mem := (Buffer.ofList (Header.bytes ⟨blobCacheMagic, blobCacheVersion, blobCacheDeviceVersion,
    2 ^ 32 - 1⟩ ++ leBytes 4 0 ++ leBytes 4 (2 ^ 32 - 8))).mem
  size := size

/-- All calls with buffers of a size are safe exactly if an entry header has no room in it. -/
theorem safe_iff_short (c : Cache ρ) {size : ℕ} (hsize : size < 2 ^ 32) :
    (∀ b : Buffer, b.size = size → ∀ count, Safe blobRandom c b count) ↔
      size < headerSize + entryHeaderSize := by
  unfold headerSize entryHeaderSize
  constructor
  · intro h
    by_contra hlong
    have hsafe := (h (stuckBuffer size) rfl 0).rounds_le
    have hword : ∀ pos, (stuckBuffer size).wordAt pos = (stuckBuffer 0).wordAt pos := fun _ => rfl
    have hreads : ReadsEntries (stuckBuffer size) 0 := by
      refine ⟨rfl, ?_, (hword 0).trans (by decide), (hword 4).trans (by decide),
        (hword 8).trans (by decide)⟩
      change 16 ≤ size
      omega
    have hcount : (stuckBuffer size).wordAt 12 = 2 ^ 32 - 1 := (hword 12).trans (by decide)
    have hkey : (stuckBuffer size).wordAt headerSize = 0 := (hword _).trans (by decide)
    have hvalue : (stuckBuffer size).wordAt (headerSize + 4) = 2 ^ 32 - 8 :=
      (hword _).trans (by decide)
    have hroom : headerSize + entryHeaderSize ≤ (stuckBuffer size).size := by
      change 16 + 8 ≤ size
      omega
    rw [unflatten_reads blobRandom c hreads, hcount,
      unflattenEntries_stuck _ _ hroom (by decide) hkey hvalue] at hsafe
    change 2 ^ 32 - 1 ≤ size / 8 at hsafe
    omega
  · intro hshort b hb count
    apply safe_of_fitting
    intro _
    cases b.wordAt 12 with
    | zero => trivial
    | succ n =>
      refine ⟨by decide, fun hroom => absurd hroom ?_⟩
      unfold headerSize entryHeaderSize
      omega

end Cache

/-!
## Writing a cache

`getFlattenedSize` and `flatten` round the offset of an entry up at different
places and agree: the buffer has room for every entry, and the entries lie in it
one after another, each on a multiple of four.
-/

/-- The bytes of an entry: its header, the key and the value. -/
def CacheEntry.record (e : CacheEntry) : List Byte :=
  leBytes 4 e.key.length ++ leBytes 4 e.value.length ++ (e.key ++ e.value)

@[simp] theorem CacheEntry.record_length (e : CacheEntry) :
    e.record.length = entryHeaderSize + e.size := by
  simp [CacheEntry.record, entryHeaderSize, CacheEntry.size]
  omega

/-- Where the entries end that are written after `pos` bytes; the last one is not padded. -/
def flatEnd : ℕ → List CacheEntry → ℕ
  | pos, [] => pos
  | pos, e :: es => flatEnd (padded pos + (entryHeaderSize + e.size)) es

theorem le_flatEnd (pos : ℕ) (es : List CacheEntry) : pos ≤ flatEnd pos es := by
  induction es generalizing pos with
  | nil => exact Nat.le_refl _
  | cons e es ih =>
    have hpad := le_padded pos
    have hrest := ih (padded pos + (entryHeaderSize + e.size))
    rw [flatEnd]
    omega

theorem flatEnd_le (pos : ℕ) (es : List CacheEntry) :
    flatEnd pos es ≤ pos + (entryHeaderSize + 3) * es.length + storedBytes es := by
  induction es generalizing pos with
  | nil => simp [flatEnd]
  | cons e es ih =>
    have hrest := ih (padded pos + (entryHeaderSize + e.size))
    have hpad : padded pos ≤ pos + 3 := by
      unfold padded
      omega
    rw [flatEnd, List.length_cons, storedBytes_cons]
    unfold entryHeaderSize at *
    omega

/-- Entries that are in memory can be written in 32 bits. -/
theorem flatEnd_lt {es : List CacheEntry} (h : footprint es ≤ 2 ^ 32) :
    flatEnd headerSize es + 3 < 2 ^ 32 := by
  have hle := flatEnd_le headerSize es
  rw [footprint_eq] at h
  unfold headerSize entryHeaderSize blobBytes at *
  cases es with
  | nil => decide
  | cons e es =>
    rw [List.length_cons] at *
    omega

namespace Cache

variable {ρ : Type} {c : Cache ρ}

theorem foldl_flattenedSize {pos : ℕ} {es : List CacheEntry} (h : flatEnd pos es + 3 < 2 ^ 32) :
    es.foldl (fun size e => (align4 size + (entryHeaderSize + e.size)) % 2 ^ 32) pos =
      flatEnd pos es := by
  induction es generalizing pos with
  | nil => rfl
  | cons e es ih =>
    rw [flatEnd] at h
    have hle := le_flatEnd (padded pos + (entryHeaderSize + e.size)) es
    have hpad := le_padded pos
    rw [List.foldl_cons, align4_eq (by omega), Nat.mod_eq_of_lt (by omega), ih h, flatEnd]

theorem Held.getFlattenedSize_eq (h : Held c) :
    c.getFlattenedSize = flatEnd headerSize c.items :=
  foldl_flattenedSize (flatEnd_lt h.fits)

end Cache

/-! ## The loop of `flatten` -/

variable {b : Buffer}

theorem write_eq {pos : ℕ} {bs : List Byte} (h : pos + bs.length ≤ b.size) :
    b.write pos bs = .ok { b with mem := RingMemory.blit b.mem pos bs } :=
  if_pos h

/-- The four parts of an entry make its record. -/
theorem write_record {pos : ℕ} {e : CacheEntry} (h : pos + (entryHeaderSize + e.size) ≤ b.size)
    {α : Type} (f : Buffer → Except Fault α) :
    (do
      let b ← b.write pos (leBytes 4 e.key.length)
      let b ← b.write (pos + 4) (leBytes 4 e.value.length)
      let b ← b.write (pos + entryHeaderSize) e.key
      let b ← b.write (pos + entryHeaderSize + e.key.length) e.value
      f b) = f { b with mem := RingMemory.blit b.mem pos e.record } := by
  have hkey : pos + entryHeaderSize =
      pos + (leBytes 4 e.key.length ++ leBytes 4 e.value.length).length := by
    simp [entryHeaderSize]
  have hparts := @RingMemory.blit_append _ b.mem pos (leBytes 4 e.key.length)
    (leBytes 4 e.value.length)
  rw [leBytes_length] at hparts
  unfold CacheEntry.size entryHeaderSize at h
  rw [write_eq (by rw [leBytes_length]; omega)]
  simp only [Except.bind, bind]
  rw [write_eq (by rw [leBytes_length]; dsimp only; omega)]
  dsimp only
  rw [write_eq (by unfold entryHeaderSize; dsimp only; omega)]
  dsimp only
  rw [write_eq (by unfold entryHeaderSize; dsimp only; omega)]
  dsimp only
  rw [hparts, RingMemory.blit_append, hkey, RingMemory.blit_append, CacheEntry.record]

theorem CacheEntry.entrySize_eq {e : CacheEntry} (h : entryHeaderSize + e.size < 2 ^ 32) :
    entrySize e.key.length e.value.length = entryHeaderSize + e.size := by
  rw [entrySize, Nat.add_assoc, ← CacheEntry.size]
  exact Nat.mod_eq_of_lt h

theorem padded_padded (pos n : ℕ) : padded (padded pos + n) = padded pos + padded n := by
  unfold padded
  omega

/-- The loop writes the entries from `padded pos` on, if they end inside the buffer, and leaves
what is before them alone. -/
theorem flattenEntries_laid {es : List CacheEntry} {pos : ℕ} (hroom : flatEnd pos es ≤ b.size)
    (hlt : flatEnd pos es + 3 < 2 ^ 32) :
    ∃ mem', Cache.flattenEntries es (padded pos) b = .ok (.OK, { b with mem := mem' }) ∧
      Laid mem' (padded pos) (es.map CacheEntry.record) ∧
      ∀ i, i < padded pos → mem' i = b.mem i := by
  induction es generalizing pos b with
  | nil => exact ⟨b.mem, rfl, trivial, fun _ _ => rfl⟩
  | cons e es ih =>
    rw [flatEnd] at hroom hlt
    have hend := le_flatEnd (padded pos + (entryHeaderSize + e.size)) es
    have hsize := @CacheEntry.entrySize_eq e (by lia)
    have hnext := padded_padded pos (entryHeaderSize + e.size)
    obtain ⟨mem', hwrite, hlaid, hbefore⟩ := @ih
      { b with mem := RingMemory.blit b.mem (padded pos) e.record } _ hroom hlt
    have hpad := le_padded (entryHeaderSize + e.size)
    rw [hnext] at hwrite hlaid hbefore
    refine ⟨mem', ?_, ⟨?_, ?_⟩, ?_⟩
    · rw [Cache.flattenEntries, hsize, Nat.mod_eq_of_lt (by lia), if_neg (by lia),
        write_record (by lia), align4_eq (by lia)]
      cases es with
      | nil => exact hwrite
      | cons e' es =>
        rw [flatEnd, hnext] at hlt
        have hrest := le_flatEnd
          (padded pos + padded (entryHeaderSize + e.size) + (entryHeaderSize + e'.size)) es
        rw [Nat.mod_eq_of_lt (by lia)]
        exact hwrite
    · apply (stores_blit b.mem (padded pos) e.record).congr
      intro i _ hhi
      rw [CacheEntry.record_length] at hhi
      exact hbefore i (by lia)
    · rw [CacheEntry.record_length]
      exact hlaid
    · intro i hi
      rw [hbefore i (by lia)]
      exact RingMemory.blit_miss (.inl hi)

namespace Cache

variable {ρ : Type} {c : Cache ρ}

/-- The header of a cache. -/
def header (c : Cache ρ) : Header :=
  ⟨blobCacheMagic, blobCacheVersion, blobCacheDeviceVersion, c.items.length⟩

/-- The buffer of a flattened cache: the header, and the entries from there on. -/
structure Flattened (c : Cache ρ) (b : Buffer) : Prop where
  size_eq : b.size = flatEnd headerSize c.items
  header : Stores b.mem 0 c.header.bytes
  entries : Laid b.mem headerSize (c.items.map CacheEntry.record)

@[simp] theorem header_bytes_length (h : Header) : h.bytes.length = headerSize := by
  simp [Header.bytes, headerSize]

/-- A buffer of `getFlattenedSize` bytes has room for the cache. -/
theorem Held.flatten (h : Held c) {b : Buffer} (hb : b.size = c.getFlattenedSize) :
    ∃ b', c.flatten b 0 = .ok (.OK, b') ∧ Flattened c b' := by
  have hlt := flatEnd_lt h.fits
  have hsize : b.size = flatEnd headerSize c.items := hb.trans h.getFlattenedSize_eq
  have hroom := le_flatEnd headerSize c.items
  obtain ⟨mem', hwrite, hlaid, hbefore⟩ := flattenEntries_laid
    (b := { b with mem := RingMemory.blit b.mem 0 c.header.bytes }) hsize.ge hlt
  have hpad : padded headerSize = headerSize := by decide
  rw [hpad] at hwrite hlaid hbefore
  have halign : align4 headerSize = headerSize := by decide
  refine ⟨{ b with mem := mem' }, ?_, hsize, ?_, hlaid⟩
  · rw [Cache.flatten, if_neg (not_not.mpr rfl), if_neg (by omega)]
    change (b.write 0 c.header.bytes).bind _ = _
    rw [write_eq (by rw [header_bytes_length]; omega)]
    simp only [Except.bind]
    rw [halign]
    exact hwrite
  · apply (stores_blit b.mem 0 c.header.bytes).congr
    intro i _ hhi
    rw [header_bytes_length, Nat.zero_add] at hhi
    exact hbefore i hhi

end Cache

end AudioFlinger.BlobCache
