import AudioFlinger.Foundation.Bytes
import AudioFlinger.Foundation.Machine
import AudioFlinger.Foundation.SortedVector
import Mathlib.Data.List.Lex
import Mathlib.Data.Prod.Lex

/-!
# The blob cache

`libs/utils/BlobCache.cpp`, with sizes as 32-bit numbers. The random numbers
that `clean` draws come from a state of any type. The blobs of a cache are
disjoint allocations, so a call that would need more of them than an address
space holds does not return.
-/

namespace AudioFlinger.BlobCache

open Foundation Bytes

abbrev Blob := List Byte

/-- `Blob::operator<`: by size, then `memcmp`. -/
def rank (b : Blob) : ℕ ×ₗ List ℕ := toLex (b.length, b.map BitVec.toNat)

structure CacheEntry where
  key : Blob
  value : Blob
deriving DecidableEq

namespace CacheEntry

/-- `CacheEntry::operator<` compares the keys. -/
def order (e : CacheEntry) : ℕ ×ₗ List ℕ := rank e.key

def size (e : CacheEntry) : ℕ := e.key.length + e.value.length

end CacheEntry

/-- `SortedVector<CacheEntry>`. -/
abbrev Entries := {es : List CacheEntry // SortedVector.Sorted CacheEntry.order es}

namespace Entries

def empty : Entries := ⟨[], List.Pairwise.nil⟩

def indexOf (es : Entries) (key : Blob) : Option ℕ :=
  (SortedVector.search CacheEntry.order es.val (rank key)).1

def add (es : Entries) (e : CacheEntry) : Entries :=
  ⟨SortedVector.insert CacheEntry.order es.val e, SortedVector.sorted_insert es.property e⟩

def removeAt (es : Entries) (i : ℕ) : Entries :=
  ⟨es.val.eraseIdx i, SortedVector.sorted_eraseIdx es.property i⟩

/-- `editItemAt(index).setValue(value)`. -/
def setValueAt (es : Entries) (i : ℕ) (value : Blob) : Entries :=
  ⟨es.val.modify i fun e => { e with value := value },
    SortedVector.sorted_modify (f := fun e => { e with value := value }) es.property
      (fun _ => rfl) i⟩

/-- The value at an index. -/
def valueAt (es : Entries) (i : ℕ) : Blob := ((es.val[i]?).map CacheEntry.value).getD []

end Entries

/-- How a call can end without returning: by the remainder of a division by zero, by a blob that
cannot be allocated, by an access outside the caller's buffer, by a loop that goes on. -/
inductive Fault
  | remainderByZero
  | noMemory
  | outside
  | unfinished
deriving DecidableEq

/-- `status_t`. -/
inductive Status
  | OK
  | BAD_VALUE
deriving DecidableEq

/-- `size_t` subtraction. -/
def sub32 (a b : ℕ) : ℕ := (a + (2 ^ 32 - b % 2 ^ 32)) % 2 ^ 32

/-- `sizeof(Blob)`. -/
def blobBytes : ℕ := 20

/-- The memory that the blobs of the entries take. -/
def footprint (es : List CacheEntry) : ℕ := (es.map fun e => e.size + 2 * blobBytes).sum

/-- The key and value bytes of the entries. -/
def storedBytes (es : List CacheEntry) : ℕ := (es.map CacheEntry.size).sum

/-- `BlobCache`; `ρ` is the type of the random state. -/
structure Cache (ρ : Type) where
  mMaxKeySize : ℕ
  mMaxValueSize : ℕ
  mMaxTotalSize : ℕ
  mTotalSize : ℕ
  mCacheEntries : Entries
  mRandState : ρ
deriving DecidableEq

variable {ρ : Type}

/-- The constructor. -/
def new (maxKeySize maxValueSize maxTotalSize : ℕ) (seed : ρ) : Cache ρ where
  mMaxKeySize := maxKeySize
  mMaxValueSize := maxValueSize
  mMaxTotalSize := maxTotalSize
  mTotalSize := 0
  mCacheEntries := Entries.empty
  mRandState := seed

namespace Cache

/-- The stored entries, in order. -/
def items (c : Cache ρ) : List CacheEntry := c.mCacheEntries.val

/-- `mCacheEntries.clear()`. -/
def clear (c : Cache ρ) : Cache ρ := { c with mCacheEntries := Entries.empty }

/-- Evict the entry at an index and keep the random state that chose it. -/
def evict (c : Cache ρ) (i : Fin c.items.length) (rand : ρ) : Cache ρ :=
  { c with
    mTotalSize := sub32 c.mTotalSize (c.items.get i).size
    mCacheEntries := c.mCacheEntries.removeAt i
    mRandState := rand }

def isCleanable (c : Cache ρ) : Bool := c.mMaxTotalSize / 2 < c.mTotalSize

/-- The size checks of `set`. -/
def accepts (c : Cache ρ) (keySize valueSize : ℕ) : Bool :=
  keySize ≤ c.mMaxKeySize && valueSize ≤ c.mMaxValueSize &&
    (keySize + valueSize) % 2 ^ 32 ≤ c.mMaxTotalSize && keySize != 0 && valueSize != 0

/-! ## Eviction -/

variable (blobRandom : ρ → ℕ × ρ)

/-- The loop of `clean`. -/
def cleanLoop : ℕ → Cache ρ → Except Fault (Cache ρ)
  | 0, _ => .error .unfinished
  | rounds + 1, c =>
    if c.isCleanable then
      if h : 0 < c.items.length then
        let r := blobRandom c.mRandState
        cleanLoop rounds (c.evict ⟨r.1 % c.items.length, Nat.mod_lt _ h⟩ r.2)
      else .error .remainderByZero
    else .ok c

def clean (c : Cache ρ) : Except Fault (Cache ρ) := cleanLoop blobRandom (c.items.length + 1) c

/-! ## Set and get -/

/-- The end of a round of `set`'s loop: the entry is stored, it is refused, or the cache has been
cleaned for another round. -/
inductive Round (ρ : Type)
  | stored (c : Cache ρ)
  | refused (c : Cache ρ)
  | again (c : Cache ρ)

/-- Store if the new total is within the limit, else clean the cache or give up. -/
def update (c : Cache ρ) (newTotalSize : ℕ) (entries : Entries) : Except Fault (Round ρ) :=
  if c.mMaxTotalSize < newTotalSize then
    if c.isCleanable then (c.clean blobRandom).map .again
    else .ok (.refused c)
  else .ok (.stored { c with mTotalSize := newTotalSize, mCacheEntries := entries })

/-- A round of `set`'s loop. -/
def round (c : Cache ρ) (key value : Blob) : Except Fault (Round ρ) :=
  match c.mCacheEntries.indexOf key with
  | none =>
    -- Both blobs are copied before the total is looked at.
    if 2 ^ 32 < footprint c.items + (key.length + value.length + 2 * blobBytes) then
      .error .noMemory
    else
      c.update blobRandom ((c.mTotalSize + key.length + value.length) % 2 ^ 32)
        (c.mCacheEntries.add ⟨key, value⟩)
  | some index =>
    if 2 ^ 32 < footprint c.items + (value.length + blobBytes) then .error .noMemory
    else
      c.update blobRandom
        (sub32 (c.mTotalSize + value.length) (c.mCacheEntries.valueAt index).length)
        (c.mCacheEntries.setValueAt index value)

/-- `set`'s loop; the flag tells whether the entry has been stored. -/
def setLoop (key value : Blob) : ℕ → Cache ρ → Except Fault (Cache ρ × Bool)
  | 0, _ => .error .unfinished
  | rounds + 1, c =>
    match c.round blobRandom key value with
    | .error f => .error f
    | .ok (.stored c') => .ok (c', true)
    | .ok (.refused c') => .ok (c', false)
    | .ok (.again c') => setLoop key value rounds c'

/-- `set`, for blobs of the given sizes that are read from the caller's memory. -/
def setFrom (c : Cache ρ) (keySize valueSize : ℕ) (key value : Except Fault Blob) :
    Except Fault (Cache ρ × Bool) :=
  if c.accepts keySize valueSize then do
    let key ← key
    let value ← value
    setLoop blobRandom key value 2 c
  else .ok (c, false)

def set (c : Cache ρ) (key value : Blob) : Except Fault (Cache ρ × Bool) :=
  c.setFrom blobRandom key.length value.length (.ok key) (.ok value)

/-- The size that `get` returns, and the value if the caller's buffer has room for it. -/
def get (c : Cache ρ) (key : Blob) (valueSize : ℕ) : ℕ × Option Blob :=
  if c.mMaxKeySize < key.length then (0, none)
  else
    match c.mCacheEntries.indexOf key with
    | none => (0, none)
    | some index =>
      let valueBlob := c.mCacheEntries.valueAt index
      (valueBlob.length, if valueBlob.length ≤ valueSize then some valueBlob else none)

end Cache

/-! ## Serialization -/

/-- A caller's buffer. -/
structure Buffer where
  mem : ℕ → Byte
  size : ℕ

namespace Buffer

/-- The buffer of the given bytes. -/
def ofList (bs : List Byte) : Buffer := ⟨fun i => bs.getD i 0, bs.length⟩

def read (b : Buffer) (pos n : ℕ) : Except Fault (List Byte) :=
  if pos + n ≤ b.size then .ok (RingMemory.slice b.mem pos n) else .error .outside

/-- Read a `uint32_t` or `size_t`. -/
def readWord (b : Buffer) (pos : ℕ) : Except Fault ℕ := (b.read pos 4).map leValue

def write (b : Buffer) (pos : ℕ) (bs : List Byte) : Except Fault Buffer :=
  if pos + bs.length ≤ b.size then .ok { b with mem := RingMemory.blit b.mem pos bs }
  else .error .outside

end Buffer

def blobCacheMagic : ℕ := 0x5F426224

def blobCacheVersion : ℕ := 1

def blobCacheDeviceVersion : ℕ := 1

/-- `sizeof(Header)`. -/
def headerSize : ℕ := 16

/-- `sizeof(EntryHeader)`. -/
def entryHeaderSize : ℕ := 8

def align4 (size : ℕ) : ℕ := (size + 3) % 2 ^ 32 / 4 * 4

/-- `sizeof(EntryHeader) + keySize + valueSize`. -/
def entrySize (keySize valueSize : ℕ) : ℕ := (entryHeaderSize + keySize + valueSize) % 2 ^ 32

structure Header where
  mMagicNumber : ℕ
  mBlobCacheVersion : ℕ
  mDeviceVersion : ℕ
  mNumEntries : ℕ
deriving DecidableEq

def Header.bytes (h : Header) : List Byte :=
  leBytes 4 h.mMagicNumber ++ leBytes 4 h.mBlobCacheVersion ++ leBytes 4 h.mDeviceVersion ++
    leBytes 4 h.mNumEntries

namespace Buffer

def readHeader (b : Buffer) : Except Fault Header := do
  let magic ← b.readWord 0
  let version ← b.readWord 4
  let device ← b.readWord 8
  let num ← b.readWord 12
  pure ⟨magic, version, device, num⟩

/-- The key and value size of an entry header. -/
def readEntryHeader (b : Buffer) (pos : ℕ) : Except Fault (ℕ × ℕ) := do
  let keySize ← b.readWord pos
  let valueSize ← b.readWord (pos + 4)
  pure (keySize, valueSize)

end Buffer

namespace Cache

def getFlattenedSize (c : Cache ρ) : ℕ :=
  c.items.foldl (fun size e => (align4 size + (entryHeaderSize + e.size)) % 2 ^ 32) headerSize

/-- The loop of `flatten`. -/
def flattenEntries : List CacheEntry → ℕ → Buffer → Except Fault (Status × Buffer)
  | [], _, b => .ok (.OK, b)
  | e :: es, byteOffset, b =>
    if b.size < (byteOffset + entrySize e.key.length e.value.length) % 2 ^ 32 then
      .ok (.BAD_VALUE, b)
    else do
      let b ← b.write byteOffset (leBytes 4 e.key.length)
      let b ← b.write (byteOffset + 4) (leBytes 4 e.value.length)
      let b ← b.write (byteOffset + entryHeaderSize) e.key
      let b ← b.write (byteOffset + entryHeaderSize + e.key.length) e.value
      flattenEntries es
        ((byteOffset + align4 (entrySize e.key.length e.value.length)) % 2 ^ 32) b

def flatten (c : Cache ρ) (b : Buffer) (count : ℕ) : Except Fault (Status × Buffer) :=
  if count ≠ 0 then .ok (.BAD_VALUE, b)
  else if b.size < headerSize then .ok (.BAD_VALUE, b)
  else do
    let b ← b.write 0
      (Header.bytes ⟨blobCacheMagic, blobCacheVersion, blobCacheDeviceVersion, c.items.length⟩)
    flattenEntries c.items (align4 headerSize) b

variable (blobRandom : ρ → ℕ × ρ)

/-- The loop of `unflatten`, for the number of entries that are left; the number of rounds comes
with what it returns. -/
def unflattenEntries (b : Buffer) :
    ℕ → Cache ρ → ℕ → ℕ × Except Fault (Status × Cache ρ)
  | 0, c, _ => (0, .ok (.OK, c))
  | n + 1, c, byteOffset =>
    if b.size < (byteOffset + entryHeaderSize) % 2 ^ 32 then (1, .ok (.BAD_VALUE, c.clear))
    else
      match b.readEntryHeader byteOffset with
      | .error f => (1, .error f)
      | .ok (keySize, valueSize) =>
        if b.size < (byteOffset + entrySize keySize valueSize) % 2 ^ 32 then
          (1, .ok (.BAD_VALUE, c.clear))
        else
          match c.setFrom blobRandom keySize valueSize
              (b.read (byteOffset + entryHeaderSize) keySize)
              (b.read (byteOffset + entryHeaderSize + keySize) valueSize) with
          | .error f => (1, .error f)
          | .ok (c', _) =>
            let rest := unflattenEntries b n c'
              ((byteOffset + align4 (entrySize keySize valueSize)) % 2 ^ 32)
            (rest.1 + 1, rest.2)

def unflatten (c : Cache ρ) (b : Buffer) (count : ℕ) :
    ℕ × Except Fault (Status × Cache ρ) :=
  if count ≠ 0 then (0, .ok (.BAD_VALUE, c.clear))
  else if b.size < headerSize then (0, .ok (.BAD_VALUE, c.clear))
  else
    match b.readHeader with
    | .error f => (0, .error f)
    | .ok h =>
      if h.mMagicNumber ≠ blobCacheMagic then (0, .ok (.BAD_VALUE, c.clear))
      else if h.mBlobCacheVersion ≠ blobCacheVersion ∨ h.mDeviceVersion ≠ blobCacheDeviceVersion then
        (0, .ok (.OK, c.clear))
      else unflattenEntries blobRandom b h.mNumEntries c.clear (align4 headerSize)

end Cache

/-! ## Sequences of calls -/

inductive Call
  | set (key value : Blob)
  | get (key : Blob) (valueSize : ℕ)
  | unflatten (b : Buffer) (count : ℕ)

variable (blobRandom : ρ → ℕ × ρ)

/-- The cache after a call. -/
def call (c : Cache ρ) : Call → Except Fault (Cache ρ)
  | .set key value => (c.set blobRandom key value).map Prod.fst
  | .get _ _ => .ok c
  | .unflatten b count => (c.unflatten blobRandom b count).2.map Prod.snd

def step (c : Cache ρ) (e : Call) : Option (Cache ρ) := (call blobRandom c e).toOption

end AudioFlinger.BlobCache
