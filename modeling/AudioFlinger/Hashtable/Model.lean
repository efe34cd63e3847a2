import AudioFlinger.Foundation.Machine
import AudioFlinger.Foundation.SharedHeap
import Mathlib.Data.Multiset.AddSub

/-!
# The hash table

`libs/utils/BasicHashtable.cpp`: double hashing over an array of buckets that
tables share until they write. A removed entry leaves its bucket in the collision
chains it was part of. `determineCapacity` is a parameter, since it computes with
floating-point load factors.
-/

namespace AudioFlinger.Hashtable

open Foundation SharedHeap

/-- A bucket: the fields of its cookie and the entry, if it is initialized. -/
structure Bucket (α : Type) where
  collision : Bool
  present : Bool
  hash : BitVec 30
  entry : Option α
deriving DecidableEq

/-- How a call can end without returning: at a `NULL` array, at an array that has been freed, at an
index outside the array, by a loop that goes on, by a fatal log message. -/
inductive Fault
  | nullBuckets
  | freedBuckets
  | outside
  | unfinished
  | aborted
deriving DecidableEq

/-- A table; `L` is the type of load factors, `mBuckets` the address of the array. -/
structure Table (L : Type) where
  mCapacity : ℕ
  mLoadFactor : L
  mSize : ℕ
  mFilledBuckets : ℕ
  mBucketCount : ℕ
  mBuckets : Option ℕ
deriving DecidableEq

/-- What the tables hold: entries with getter for their key, and the load factors' arithmetic. -/
structure Kind (α κ L : Type) where
  getKey : α → κ
  mHasTrivialDestructor : Bool
  determineCapacity : ℕ → L → Option (ℕ × ℕ)

variable {α κ L : Type}

/-! ## Hash codes -/

def trimHash (hash : BitVec 32) : BitVec 30 :=
  hash.setWidth 30 ^^^ (hash >>> 30).setWidth 30

def chainStart (hash : BitVec 30) (count : ℕ) : ℕ := hash.toNat % count

def chainIncrement (hash : BitVec 30) (count : ℕ) : ℕ :=
  ((hash.setWidth 32 >>> 7) ||| (hash.setWidth 32 <<< 25)).toNat % (count - 1) + 1

def chainSeek (index increment count : ℕ) : ℕ := (index + increment) % count

/-! ## Arrays of buckets -/

/-- The cookie 0. -/
def Bucket.blank : Bucket α := ⟨false, false, 0, none⟩

abbrev Buckets (α : Type) := List (Bucket α)

def bucketAt (bs : Buckets α) (index : ℕ) : Except Fault (Bucket α) :=
  match bs[index]? with
  | none => .error .outside
  | some b => .ok b

/-- `bucket.cookie |= COLLISION`. -/
def Bucket.collide (b : Bucket α) : Bucket α := { b with collision := true }

/-- The loop that leaves a present bucket marked as a collision and seeks on. -/
def seekFree (count increment : ℕ) : ℕ → Buckets α → ℕ → Except Fault (Buckets α × ℕ)
  | 0, _, _ => .error .unfinished
  | rounds + 1, bs, index => do
    let b ← bucketAt bs index
    if b.present then
      seekFree count increment rounds (bs.set index b.collide) (chainSeek index increment count)
    else pure (bs, index)

/-- The bucket for a new entry of a hash code: the first of its chain that is not present. -/
def freeBucket (bs : Buckets α) (count : ℕ) (hash : BitVec 30) : Except Fault (Buckets α × ℕ) :=
  seekFree count (chainIncrement hash count) count bs (chainStart hash count)

/-- The loop of `rehash`, over the buckets that are left. -/
def moveBuckets (count : ℕ) : Buckets α → Buckets α → Except Fault (Buckets α)
  | [], new => .ok new
  | b :: old, new =>
    if b.present then do
      let (new, index) ← freeBucket new count b.hash
      moveBuckets count old (new.set index ⟨false, true, b.hash, b.entry⟩)
    else moveBuckets count old new

/-- `copyBuckets`. -/
def copyBuckets (bs : Buckets α) : Buckets α :=
  bs.map fun b => if b.present then b else { b with entry := none }

variable (kind : Kind α κ L)

/-- `destroyBuckets` and the reset of the cookies. -/
def resetBuckets (bs : Buckets α) : Buckets α :=
  bs.map fun b => ⟨false, false, 0, if kind.mHasTrivialDestructor then b.entry else none⟩

/-- `destroyBucketEntry`, where there is a destructor to call. -/
def Bucket.destroy (b : Bucket α) : Bucket α :=
  if kind.mHasTrivialDestructor then b else { b with entry := none }

variable [DecidableEq κ]

def compareBucketKey (b : Bucket α) (key : κ) : Bool := b.entry.any fun e => kind.getKey e = key

/-- The loop of `find`. -/
def findLoop (bs : Buckets α) (count increment : ℕ) (hash : BitVec 30) (key : κ) :
    ℕ → ℕ → Except Fault (Option ℕ)
  | 0, _ => .error .unfinished
  | rounds + 1, index => do
    let index := chainSeek index increment count
    let b ← bucketAt bs index
    if b.present && b.hash = hash && compareBucketKey kind b key then pure (some index)
    else if !b.collision then pure none
    else findLoop bs count increment hash key rounds index

/-- The loop of `next`, for the buckets from `index` on. -/
def nextLoop : Buckets α → ℕ → Option ℕ
  | [], _ => none
  | b :: bs, index => if b.present then some index else nextLoop bs (index + 1)

/-! ## Tables -/

/-- The heap of bucket arrays. -/
abbrev Arrays (α : Type) := Heap (Buckets α)

/-- Follow a pointer that may be dangling. -/
def live {β : Type} : Option β → Except Fault β
  | none => .error .freedBuckets
  | some b => .ok b

namespace Table

/-- The array of a table. -/
def array (h : Arrays α) (t : Table L) : Except Fault (Buckets α) :=
  match t.mBuckets with
  | none => .error .nullBuckets
  | some a => live (h.load a)

/-- Write the array of a table. -/
def setArray (h : Arrays α) (t : Table L) (bs : Buckets α) : Except Fault (Arrays α) :=
  match t.mBuckets with
  | none => .error .nullBuckets
  | some a => live (h.store a bs)

/-- `releaseBuckets`, if there is an array. -/
def dispose (h : Arrays α) (t : Table L) : Except Fault (Arrays α) :=
  match t.mBuckets with
  | none => .ok h
  | some a => live (h.release a)

/-- `acquire` on the array, if there is one. -/
def acquire (h : Arrays α) (t : Table L) : Except Fault (Arrays α) :=
  match t.mBuckets with
  | none => .ok h
  | some a => live (h.acquire a)

/-- `onlyOwner`. -/
def onlyOwner (h : Arrays α) (t : Table L) : Bool :=
  match t.mBuckets with
  | none => false
  | some a => h.refs a = 1

/-- A fresh array in place of the old one. -/
def replace (h : Arrays α) (t : Table L) (bs : Buckets α) : Except Fault (Arrays α × Table L) := do
  let (a, h) := h.alloc bs
  let h ← t.dispose h
  pure (h, { t with mBuckets := some a })

/-- `edit`: an array with other owners is cloned. -/
def edit (h : Arrays α) (t : Table L) : Except Fault (Arrays α × Table L) :=
  if t.mBuckets.isSome && !t.onlyOwner h then do
    let bs ← t.array h
    t.replace h (copyBuckets bs)
  else pure (h, t)

/-- The constructor. -/
def construct (minimumInitialCapacity : ℕ) (loadFactor : L) : Except Fault (Table L) :=
  match kind.determineCapacity minimumInitialCapacity loadFactor with
  | none => .error .aborted
  | some (count, capacity) => .ok
    { mCapacity := capacity
      mLoadFactor := loadFactor
      mSize := 0
      mFilledBuckets := 0
      mBucketCount := count
      mBuckets := none }

/-- The copy constructor. -/
def copy (h : Arrays α) (other : Table L) : Except Fault (Arrays α × Table L) := do
  let h ← other.acquire h
  pure (h, other)

/-- `setTo`: the own array is released before the other's is acquired. -/
def setTo (h : Arrays α) (t other : Table L) : Except Fault (Arrays α × Table L) := do
  let h ← t.dispose h
  let h ← other.acquire h
  pure (h, other)

def clear (h : Arrays α) (t : Table L) : Except Fault (Arrays α × Table L) :=
  if t.mBuckets.isSome then
    if t.mFilledBuckets ≠ 0 then
      if t.onlyOwner h then do
        let bs ← t.array h
        let h ← t.setArray h (resetBuckets kind bs)
        pure (h, { t with mFilledBuckets := 0, mSize := 0 })
      else do
        let h ← t.dispose h
        pure (h, { t with mBuckets := none, mFilledBuckets := 0, mSize := 0 })
    else pure (h, { t with mSize := 0 })
  else pure (h, t)

def next (h : Arrays α) (t : Table L) (index : Option ℕ) : Except Fault (Option ℕ) :=
  if t.mSize = 0 then pure none
  else do
    let bs ← t.array h
    let first := index.elim 0 (· + 1)
    pure (nextLoop (bs.drop first) first)

def find (h : Arrays α) (t : Table L) (index : Option ℕ) (hash : BitVec 32) (key : κ) :
    Except Fault (Option ℕ) :=
  if t.mSize = 0 then pure none
  else do
    let bs ← t.array h
    let hash := trimHash hash
    let increment := chainIncrement hash t.mBucketCount
    match index with
    | some index => findLoop kind bs t.mBucketCount increment hash key t.mBucketCount index
    | none =>
      let index := chainStart hash t.mBucketCount
      let b ← bucketAt bs index
      if b.present then
        if compareBucketKey kind b key then pure (some index)
        else findLoop kind bs t.mBucketCount increment hash key t.mBucketCount index
      else if !b.collision then pure none
      else findLoop kind bs t.mBucketCount increment hash key t.mBucketCount index

def rehash (h : Arrays α) (t : Table L) (minimumCapacity : ℕ) (loadFactor : L) :
    Except Fault (Arrays α × Table L) :=
  match kind.determineCapacity (max minimumCapacity t.mSize) loadFactor with
  | none => .error .aborted
  | some (count, capacity) =>
    if count ≠ t.mBucketCount ∨ capacity ≠ t.mCapacity then
      let t' := { t with mBucketCount := count, mCapacity := capacity, mLoadFactor := loadFactor }
      if t.mBuckets.isSome then
        if t.mSize ≠ 0 then do
          let bs ← t.array h
          let new ← moveBuckets count bs (List.replicate count Bucket.blank)
          let (h, t') ← t'.replace h new
          pure (h, { t' with mFilledBuckets := t.mSize })
        else do
          let h ← t.dispose h
          pure (h, { t' with mBuckets := none, mFilledBuckets := t.mSize })
      else pure (h, t')
    else pure (h, { t with mLoadFactor := loadFactor })

/-- The loop of `add`. -/
def addLoop (hash : BitVec 30) (entry : α) :
    ℕ → Arrays α → Table L → Except Fault (Arrays α × Table L × ℕ)
  | 0, _, _ => .error .unfinished
  | rounds + 1, h, t => do
    let bs ← t.array h
    let (bs, index) ← freeBucket bs t.mBucketCount hash
    let h ← t.setArray h bs
    let b ← bucketAt bs index
    if !b.collision && t.mCapacity ≤ t.mFilledBuckets then
      let (h, t) ← t.rehash kind h (t.mCapacity * 2) t.mLoadFactor
      addLoop hash entry rounds h t
    else
      let h ← t.setArray h (bs.set index ⟨b.collision, true, hash, some entry⟩)
      let filled := if b.collision then t.mFilledBuckets else t.mFilledBuckets + 1
      pure (h, { t with mFilledBuckets := filled, mSize := t.mSize + 1 }, index)

def add (h : Arrays α) (t : Table L) (hash : BitVec 32) (entry : α) :
    Except Fault (Arrays α × Table L × ℕ) := do
  let (h, t) ←
    match t.mBuckets with
    | none =>
      let (a, h) := h.alloc (List.replicate t.mBucketCount Bucket.blank)
      pure (h, { t with mBuckets := some a })
    | some _ => t.edit h
  addLoop kind (trimHash hash) entry 2 h t

def removeAt (h : Arrays α) (t : Table L) (index : ℕ) : Except Fault (Arrays α × Table L) := do
  let (h, t) ← t.edit h
  let bs ← t.array h
  let b ← bucketAt bs index
  let h ← t.setArray h (bs.set index (Bucket.destroy kind { b with present := false }))
  let filled := if b.collision then t.mFilledBuckets else t.mFilledBuckets - 1
  pure (h, { t with mFilledBuckets := filled, mSize := t.mSize - 1 })

end Table

end AudioFlinger.Hashtable
