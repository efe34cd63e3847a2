import AudioFlinger.Foundation.Bytes
import AudioFlinger.Foundation.Slots

/-!
# The storage of a vector

`VectorImpl` over `SharedBuffer`: a block of item slots with a count of the
vectors that hold it. The items of a vector are its first slots. A call that edits
a shared vector needs a block of its own, which may be refused.
-/

namespace AudioFlinger

open Foundation Foundation.Slots

namespace VectorImpl

/-! ## Items and blocks -/

/-- What the template passes of its items: their size, and which of their operations are
trivial. -/
structure ItemType (α : Type) where
  mItemSize : ℕ
  itemSize_pos : 0 < mItemSize
  trivialCtor : Bool
  trivialDtor : Bool
  trivialCopy : Bool
  trivialMove : Bool
  /-- A default-constructed item. -/
  constructed : α

/-- `SharedBuffer`; a slot without a known item is `none`. -/
structure SharedBuffer (α : Type) where
  mRefs : ℕ
  mSize : ℕ
  slots : List (Option α)

/-- `mStorage`: null, the data of a buffer, or an address with no buffer before it. -/
inductive Storage (α : Type)
  | null
  | data (sb : SharedBuffer α)
  | dangling

end VectorImpl

open VectorImpl in
/-- A vector, and the buffer that it has let go to the vectors that share it. -/
structure VectorImpl (α : Type) where
  mStorage : Storage α
  mCount : ℕ
  released : Option (SharedBuffer α)

namespace VectorImpl

/-- What the C library grants in the course of a call: each call asks for at most one block
and at most one change of a block. -/
structure Grants where
  realloc : Bool
  malloc : Bool

/-- The range of `size_t`. -/
def sizeMax : ℕ := 2 ^ 32

/-- The C library grants no block of this size. -/
def blockMax : ℕ := 2 ^ 31

def sizeofSharedBuffer : ℕ := 16

def NO_MEMORY : ℤ := -12

variable {α : Type} (T : ItemType α)

/-! ## Buffers -/

/-- Ask for a block with its header. A sum that wraps asks for less than the header, which is
then written outside the block. -/
def block (granted : Bool) (size : ℕ) : Option Bool :=
  let bytes := (sizeofSharedBuffer + size) % sizeMax
  if granted = true ∧ bytes < blockMax then
    if bytes < sizeofSharedBuffer then none else some true
  else some false

namespace SharedBuffer

/-- The slots of a buffer without items. -/
def raw (size : ℕ) : SharedBuffer α :=
  { mRefs := 1, mSize := size, slots := List.replicate (size / T.mItemSize) none }

/-- `SharedBuffer::alloc`. -/
def alloc (granted : Bool) (size : ℕ) : Option (Option (SharedBuffer α)) :=
  (block granted size).map fun ok => if ok then some (raw T size) else none

/-- `onlyOwner`. -/
def onlyOwner (sb : SharedBuffer α) : Bool := sb.mRefs == 1

/-- What `release` leaves to the others, if there are others. -/
def release (sb : SharedBuffer α) : Option (SharedBuffer α) :=
  if sb.onlyOwner then none else some { sb with mRefs := sb.mRefs - 1 }

end SharedBuffer

/-! ## The vector -/

variable (v : VectorImpl α)

def slots : List (Option α) :=
  match v.mStorage with
  | .data sb => sb.slots
  | _ => []

/-- Write the slots of the storage. -/
def withSlots (slots : List (Option α)) : VectorImpl α :=
  match v.mStorage with
  | .data sb => { v with mStorage := .data { sb with slots } }
  | _ => v

/-- The items of the vector. -/
def items : List (Option α) := v.slots.take v.mCount

def release_storage : Option (VectorImpl α) :=
  match v.mStorage with
  | .null => some v
  | .data sb => some { v with released := sb.release }
  | .dangling => none

/-- Where the storage is shared and no block is granted, it stays the storage. -/
def editArrayImpl (grants : Grants) : Option (VectorImpl α) := do
  match v.mStorage with
  | .null => some v
  | .dangling => none
  | .data sb =>
    if sb.onlyOwner then some v
    else
      match ← SharedBuffer.alloc T grants.malloc (sb.mSize / T.mItemSize * T.mItemSize) with
      | none => some v
      | some new =>
        let items ← get sb.slots 0 v.mCount
        let slots ← put new.slots 0 items
        let v ← v.release_storage
        some { v with mStorage := .data { new with slots } }

def isData : Bool :=
  match v.mStorage with
  | .data _ => true
  | _ => false

end VectorImpl

end AudioFlinger
