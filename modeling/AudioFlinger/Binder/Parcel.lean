import AudioFlinger.Foundation.Bytes
import Mathlib.Data.List.DropRight

/-!
# Parcels

A parcel holds a block of bytes, a cursor in it, and the table of the offsets at
which binder objects lie. Pointers are offsets from `mData`, and `size_t` has 32
bits. Each allocation takes its outcome from `heap`: a failure, or a block with
whatever contents. The ghost fields record what is done to the current block,
how large the block of the table is, and the references taken and dropped.
-/

namespace AudioFlinger.Binder

open Foundation Bytes RingMemory

inductive Status
  | NO_ERROR
  | NO_MEMORY
  | BAD_VALUE
  | BAD_TYPE
  | NOT_ENOUGH_DATA
  | FDS_NOT_ALLOWED
  deriving DecidableEq, Repr

/-- `sb*`, `sh*` and `fd*`, each with `B_TYPE_LARGE`. -/
def BINDER_TYPE_BINDER : U32 := 0x73622a85#32
def BINDER_TYPE_HANDLE : U32 := 0x73682a85#32
def BINDER_TYPE_FD : U32 := 0x66642a85#32
def FLAT_BINDER_FLAG_ACCEPTS_FDS : U32 := 0x100#32

/-- `binder` and `handle` are one word. -/
structure FlatBinderObject where
  type : U32
  flags : U32
  binder : U32
  cookie : U32
  deriving DecidableEq, Repr

def FlatBinderObject.bytes (obj : FlatBinderObject) : List Byte :=
  Bytes.bytes obj.type ++ Bytes.bytes obj.flags ++ Bytes.bytes obj.binder ++
    Bytes.bytes obj.cookie

/-- The object at an address. -/
def objectAt (mem : ℕ → Byte) (off : ℕ) : FlatBinderObject where
  type := load 32 mem off
  flags := load 32 mem (off + 4)
  binder := load 32 mem (off + 8)
  cookie := load 32 mem (off + 12)

/-- `sizeof(flat_binder_object)`. -/
abbrev objectSize : U32 := 16#32

inductive RefOp
  | acquire (obj : FlatBinderObject)
  | release (obj : FlatBinderObject)
  deriving DecidableEq, Repr

/-- Bytes of the current block. -/
structure Span where
  off : ℕ
  size : ℕ
  deriving DecidableEq, Repr

/-- `mObjects` holds the first `mObjectsSize` entries; `mOwner` says whether there is a release
function. -/
structure Parcel where
  mError : Status
  mData : Option (ℕ → Byte)
  mDataSize : U32
  mDataCapacity : U32
  mDataPos : U32
  mObjects : List U32
  mObjectsCapacity : U32
  mNextObjectHint : ℕ
  mHasFds : Bool
  mFdsKnown : Bool
  mAllowFds : Bool
  mOwner : Bool
  /-- The entries that the block of the table really holds. -/
  tableRoom : ℕ
  /-- The outcomes of the allocations to come. -/
  heap : List (Option (ℕ → Byte))
  refs : List RefOp
  touched : List Span
  lent : List Span
  written : List Span

/-- A fresh parcel. -/
def Parcel.initState (heap : List (Option (ℕ → Byte))) (refs : List RefOp) : Parcel where
  mError := .NO_ERROR
  mData := none
  mDataSize := 0#32
  mDataCapacity := 0#32
  mDataPos := 0#32
  mObjects := []
  mObjectsCapacity := 0#32
  mNextObjectHint := 0
  mHasFds := false
  mFdsKnown := true
  mAllowFds := true
  mOwner := false
  tableRoom := 0
  heap := heap
  refs := refs
  touched := []
  lent := []
  written := []

variable (p : Parcel)

/-- What `mData` points to. -/
def Parcel.mem : ℕ → Byte := p.mData.getD fun _ => 0#8

def Parcel.touch (off size : ℕ) : Parcel := { p with touched := p.touched ++ [{ off, size }] }

def Parcel.lend (off size : ℕ) : Parcel := { p with lent := p.lent ++ [{ off, size }] }

def Parcel.store (off : ℕ) (bs : List Byte) : Parcel :=
  { p with
    mData := p.mData.map fun mem => blit mem off bs
    written := p.written ++ [{ off, size := bs.length }] }

/-- A block that is given up takes the records of what was done to it along. -/
def Parcel.forget : Parcel := { p with touched := [], lent := [], written := [] }

def Parcel.setDataPosition (pos : U32) : Parcel :=
  { p with mDataPos := pos, mNextObjectHint := 0 }

/-! ## Allocation -/

/-- The outcome of the next allocation. -/
def Parcel.malloc : Option (ℕ → Byte) × Parcel :=
  (p.heap.head?.join, { p with heap := p.heap.tail })

/-- A block with the first `n` bytes of another. -/
def carried (n : ℕ) (old fresh : ℕ → Byte) : ℕ → Byte := fun i => if i < n then old i else fresh i

def Parcel.releaseObjects : Parcel :=
  { p with refs := p.refs ++ p.mObjects.reverse.map fun o => .release (objectAt p.mem o.toNat) }

def Parcel.acquireObjects (objects : List U32) : Parcel :=
  { p with refs := p.refs ++ objects.reverse.map fun o => .acquire (objectAt p.mem o.toNat) }

/-- The release function, or the releases, for the data that is given up. -/
def Parcel.freeDataNoInit : Parcel := if p.mOwner then p else p.releaseObjects

def Parcel.freeData : Parcel := .initState p.freeDataNoInit.heap p.freeDataNoInit.refs

/-- The objects that stay when the data is cut or grown to `desired` bytes. -/
def Parcel.keptObjects (desired : U32) : List U32 :=
  if desired < p.mDataSize then
    if desired = 0#32 then [] else p.mObjects.rdropWhile fun o => desired ≤ o
  else p.mObjects

/-- Copy the owner's data into a block of our own. -/
def Parcel.takePossession (desired : U32) : Status × Parcel :=
  let objects := p.keptObjects desired
  let size := if p.mDataSize < desired then p.mDataSize else desired
  match p.malloc with
  | (none, p) => (.NO_MEMORY, { p with mError := .NO_MEMORY })
  | (some fresh, p) =>
    match if objects = [] then (some fresh, p) else p.malloc with
    | (none, p) => (.NO_MEMORY, { p with mError := .NO_MEMORY })
    | (some _, p) =>
      (.NO_ERROR,
        { (p.acquireObjects objects).forget with
          mData := some (carried size.toNat p.mem fresh)
          mDataSize := size
          mDataCapacity := desired
          mObjects := objects
          mObjectsCapacity := BitVec.ofNat 32 objects.length
          mNextObjectHint := 0
          mOwner := false
          tableRoom := objects.length })

/-- Release the objects that are cut off. The capacity of the table stays as it is. -/
def Parcel.dropObjects (objects : List U32) : Parcel :=
  if objects.length < p.mObjects.length then
    let dropped := (p.mObjects.drop objects.length).map fun o => objectAt p.mem o.toNat
    { p.malloc.2 with
      refs := p.refs ++ dropped.map .release
      mFdsKnown := p.mFdsKnown && dropped.all fun obj => obj.type != BINDER_TYPE_FD
      mObjects := objects
      mNextObjectHint := 0
      tableRoom :=
        if objects ≠ [] ∧ p.malloc.1.isNone then p.tableRoom else objects.length }
  else p

/-- Grow our own block, or cut what is used of it. -/
def Parcel.resize (desired : U32) : Status × Parcel :=
  let p := p.dropObjects (p.keptObjects desired)
  if p.mDataCapacity < desired then
    match p.malloc with
    | (none, p) => (.NO_MEMORY, { p with mError := .NO_MEMORY })
    | (some fresh, p) =>
      (.NO_ERROR,
        { p with
          mData := some (carried p.mDataCapacity.toNat p.mem fresh)
          mDataCapacity := desired })
  else
    (.NO_ERROR,
      { p with
        mDataSize := if desired < p.mDataSize then desired else p.mDataSize
        mDataPos := if desired < p.mDataPos then desired else p.mDataPos })

/-- This is the first data. -/
def Parcel.firstData (desired : U32) : Status × Parcel :=
  match p.malloc with
  | (none, p) => (.NO_MEMORY, { p with mError := .NO_MEMORY })
  | (some fresh, p) =>
    (.NO_ERROR,
      { p.forget with
        mData := some fresh
        mDataSize := 0#32
        mDataPos := 0#32
        mDataCapacity := desired })

def Parcel.continueWrite (desired : U32) : Status × Parcel :=
  if p.mOwner then
    if desired = 0#32 then (.NO_ERROR, p.freeData) else p.takePossession desired
  else
    match p.mData with
    | some _ => p.resize desired
    | none => p.firstData desired

def Parcel.growData (len : U32) : Status × Parcel :=
  let newSize := (p.mDataSize + len) * 3#32 / 2#32
  if newSize ≤ p.mDataSize then (.NO_MEMORY, p) else p.continueWrite newSize

/-- Start over with no objects and nothing written. -/
def Parcel.restarted : Parcel :=
  { p.releaseObjects.forget with
    mDataSize := 0#32
    mDataPos := 0#32
    mObjects := []
    mObjectsCapacity := 0#32
    mNextObjectHint := 0
    mHasFds := false
    mFdsKnown := true
    mAllowFds := true
    tableRoom := 0 }

/-- A block that cannot be reallocated is used again where it is large enough. -/
def Parcel.restartWrite (desired : U32) : Status × Parcel :=
  if p.mOwner then p.freeData.continueWrite desired
  else
    match p.malloc with
    | (some fresh, p) =>
      (.NO_ERROR,
        { p.restarted with
          mData := some (carried (min p.mDataCapacity.toNat desired.toNat) p.mem fresh)
          mDataCapacity := desired })
    | (none, p) =>
      if p.mDataCapacity < desired then (.NO_MEMORY, { p with mError := .NO_MEMORY })
      else (.NO_ERROR, p.restarted)

/-! ## Installing data -/

/-- The offsets are looked at up to the first file descriptor. -/
def Parcel.scanObjects (p : Parcel) : List U32 → Parcel
  | [] => { p with mHasFds := false, mFdsKnown := true }
  | o :: os =>
    let p := p.touch o.toNat 4
    if load 32 p.mem o.toNat = BINDER_TYPE_FD then { p with mHasFds := true, mFdsKnown := true }
    else p.scanObjects os

def Parcel.scanForFds : Parcel := p.scanObjects p.mObjects

def Parcel.setData (buffer : List Byte) : Status × Parcel :=
  let len := BitVec.ofNat 32 buffer.length
  match p.restartWrite len with
  | (.NO_ERROR, p) => (.NO_ERROR, { p.store 0 buffer with mDataSize := len, mFdsKnown := false })
  | (err, p) => (err, p)

def Parcel.ipcSetDataReference (data : ℕ → Byte) (dataSize : U32) (objects : List U32)
    (relFunc : Bool) : Parcel :=
  { p.freeDataNoInit.forget with
    mError := .NO_ERROR
    mData := some data
    mDataSize := dataSize
    mDataCapacity := dataSize
    mDataPos := 0#32
    mObjects := objects
    mObjectsCapacity := BitVec.ofNat 32 objects.length
    mNextObjectHint := 0
    mOwner := relFunc
    tableRoom := objects.length : Parcel }.scanForFds

end AudioFlinger.Binder
