import AudioFlinger.Binder.Parcel

/-!
# Writing a parcel

A writer tests whether its bytes fit, grows the data once where they do not, and
goes on without testing again.
-/

namespace AudioFlinger.Binder

open Foundation Bytes RingMemory

variable (p : Parcel)

def Parcel.finishWrite (len : U32) : Parcel :=
  let pos := p.mDataPos + len
  { p with mDataPos := pos, mDataSize := if p.mDataSize < pos then pos else p.mDataSize }

/-- The size that `growData` asks for, which can be less than there is. -/
theorem newSize_toNat (size len : U32) :
    ((size + len) * 3#32 / 2#32).toNat = (size.toNat + len.toNat) * 3 % 2 ^ 32 / 2 := by
  rw [BitVec.toNat_udiv, BitVec.toNat_mul, BitVec.toNat_add]
  simp only [BitVec.toNat_ofNat, Nat.reducePow, Nat.reduceMod]
  omega

/-- Grow by `len` bytes, unless the test has passed. -/
def Parcel.orGrow (fits : Prop) [Decidable fits] (len : U32) : Status × Parcel :=
  if fits then (.NO_ERROR, p) else p.growData len

def Parcel.writeUnpadded (data : List Byte) : Status × Parcel :=
  let len := BitVec.ofNat 32 data.length
  if p.mDataPos + len < p.mDataPos then (.BAD_VALUE, p)
  else
    match p.orGrow (p.mDataPos + len ≤ p.mDataCapacity) len with
    | (.NO_ERROR, p) => (.NO_ERROR, (p.store p.mDataPos.toNat data).finishWrite len)
    | (err, p) => (err, p)

/-- Keeps all but the last `k` bytes of a word. -/
def mask (k : ℕ) : U32 := [0x00000000#32, 0x00ffffff#32, 0x0000ffff#32, 0x000000ff#32].getD k 0#32

/-- Zero the padding. -/
def Parcel.maskTail (len padded : U32) : Parcel :=
  if padded = len then p
  else
    let tail := (p.mDataPos + padded - 4#32).toNat
    p.store tail (bytes (load 32 p.mem tail &&& mask (padded - len).toNat))

/-- The pointer to `len` bytes to be filled in. -/
def Parcel.writeInplace (len : U32) : Option ℕ × Parcel :=
  let padded := pad4 len
  if p.mDataPos + padded < p.mDataPos then (none, p)
  else
    match p.orGrow (p.mDataPos + padded ≤ p.mDataCapacity) padded with
    | (.NO_ERROR, p) => (some p.mDataPos.toNat, (p.maskTail len padded).finishWrite padded)
    | (_, p) => (none, p)

def Parcel.write (data : List Byte) : Status × Parcel :=
  match p.writeInplace (BitVec.ofNat 32 data.length) with
  | (some d, p) => (.NO_ERROR, p.store d data)
  | (none, p) => (p.mError, p)

def Parcel.writeAligned {w : ℕ} (val : BitVec w) : Status × Parcel :=
  let size := BitVec.ofNat 32 (w / 8)
  match p.orGrow (p.mDataPos + size ≤ p.mDataCapacity) size with
  | (.NO_ERROR, p) => (.NO_ERROR, (p.store p.mDataPos.toNat (bytes val)).finishWrite size)
  | (err, p) => (err, p)

def Parcel.writeInt32 (val : U32) : Status × Parcel := p.writeAligned val

def Parcel.writeInt64 (val : U64) : Status × Parcel := p.writeAligned val

/-- The string is given without its terminator. -/
def Parcel.writeCString (str : List Byte) : Status × Parcel := p.write (str ++ [0#8])

/-- The body is left out when it is empty. -/
def Parcel.writeString8 (str : List Byte) : Status × Parcel :=
  let (err, p) := p.writeInt32 (BitVec.ofNat 32 str.length)
  if 0 < str.length ∧ err = .NO_ERROR then p.write (str ++ [0#8]) else (err, p)

/-- `none` is the NULL pointer. -/
def Parcel.writeString16 (str : Option (List U16)) : Status × Parcel :=
  match str with
  | none => p.writeInt32 0xffffffff#32
  | some str =>
    let len := BitVec.ofNat 32 str.length
    match p.writeInt32 len with
    | (.NO_ERROR, p) =>
      let len := len * 2#32
      match p.writeInplace (len + 2#32) with
      | (some data, p) =>
        (.NO_ERROR,
          (p.store data ((units str).take len.toNat)).store (data + len.toNat) (bytes 0#16))
      | (none, p) => (p.mError, p)
    | (err, p) => (err, p)

/-! ## Objects -/

/-- Grow the table for `more` entries. -/
def Parcel.growObjects (more : U32) : Status × Parcel :=
  let newSize := (BitVec.ofNat 32 p.mObjects.length + more) * 3#32 / 2#32
  match p.malloc with
  | (none, p) => (.NO_MEMORY, p)
  | (some _, p) =>
    (.NO_ERROR, { p with mObjectsCapacity := newSize, tableRoom := newSize.toNat })

/-- The object goes into the table unless it is NULL, and a reference is taken on it. -/
def Parcel.recordObject (val : FlatBinderObject) (nullMetaData : Bool) : Parcel :=
  if nullMetaData ∨ val.binder ≠ 0#32 then
    { p with mObjects := p.mObjects ++ [p.mDataPos], refs := p.refs ++ [.acquire val] }
  else p

def Parcel.putObject (val : FlatBinderObject) (nullMetaData : Bool) : Status × Parcel :=
  let p := (p.store p.mDataPos.toNat val.bytes).recordObject val nullMetaData
  if val.type = BINDER_TYPE_FD then
    if p.mAllowFds then
      (.NO_ERROR, { p with mHasFds := true, mFdsKnown := true }.finishWrite objectSize)
    else (.FDS_NOT_ALLOWED, p)
  else (.NO_ERROR, p.finishWrite objectSize)

/-- Both tests are made before anything grows. -/
def Parcel.writeObject (val : FlatBinderObject) (nullMetaData : Bool) : Status × Parcel :=
  let enoughObjects := decide (p.mObjects.length < p.mObjectsCapacity.toNat)
  match p.orGrow (p.mDataPos + objectSize ≤ p.mDataCapacity) objectSize with
  | (.NO_ERROR, p) =>
    match if enoughObjects then (.NO_ERROR, p) else p.growObjects 2#32 with
    | (.NO_ERROR, p) => p.putObject val nullMetaData
    | (err, p) => (err, p)
  | (err, p) => (err, p)

def Parcel.writeFileDescriptor (fd : U32) (takeOwnership : Bool) : Status × Parcel :=
  p.writeObject
    { type := BINDER_TYPE_FD
      flags := 0x7f#32 ||| FLAT_BINDER_FLAG_ACCEPTS_FDS
      binder := fd
      cookie := if takeOwnership then 1#32 else 0#32 } true

/-- A binder of this process, with its weak reference block. -/
structure LocalBinder where
  cookie : U32
  weakRefs : U32
  cookie_ne : cookie ≠ 0#32
  weakRefs_ne : weakRefs ≠ 0#32

inductive StrongBinder
  | null
  | localBinder (b : LocalBinder)
  | remoteBinder (handle : U32)

def StrongBinder.flatten (b : StrongBinder) : FlatBinderObject :=
  let flags := 0x7f#32 ||| FLAT_BINDER_FLAG_ACCEPTS_FDS
  match b with
  | .null => { type := BINDER_TYPE_BINDER, flags, binder := 0#32, cookie := 0#32 }
  | .localBinder b =>
    { type := BINDER_TYPE_BINDER, flags, binder := b.weakRefs, cookie := b.cookie }
  | .remoteBinder handle => { type := BINDER_TYPE_HANDLE, flags, binder := handle, cookie := 0#32 }

def Parcel.writeStrongBinder (val : StrongBinder) : Status × Parcel :=
  p.writeObject val.flatten false

/-! ## Sizes and descriptors -/

def Parcel.setDataSize (size : U32) : Status × Parcel :=
  match p.continueWrite size with
  | (.NO_ERROR, p) => (.NO_ERROR, { p with mDataSize := size })
  | (err, p) => (err, p)

def Parcel.setDataCapacity (size : U32) : Status × Parcel :=
  if p.mDataCapacity < size then p.continueWrite size else (.NO_ERROR, p)

def Parcel.pushAllowFds (allowFds : Bool) : Bool × Parcel :=
  (p.mAllowFds, if allowFds then p else { p with mAllowFds := false })

def Parcel.restoreAllowFds (lastValue : Bool) : Parcel := { p with mAllowFds := lastValue }

/-! ## Appending -/

def InRange (offset len o : U32) : Prop := offset ≤ o ∧ o < offset + len

instance (offset len o : U32) : Decidable (InRange offset len o) :=
  inferInstanceAs (Decidable (_ ∧ _))

/-- The offsets from the first that is in range to the last. -/
def Parcel.objectsIn (offset len : U32) : List U32 :=
  (p.mObjects.dropWhile fun o => ¬ InRange offset len o).rdropWhile fun o => ¬ InRange offset len o

/-- Record and acquire what has been copied. The `k`-th entry of the table, if it is a file
descriptor, gets the descriptor that `dup k` returns. -/
def Parcel.appendObject (dup : ℕ → U32) (off : U32) : Status × Parcel :=
  let flat := objectAt p.mem off.toNat
  let fd := dup p.mObjects.length
  let p := { p with mObjects := p.mObjects ++ [off], refs := p.refs ++ [.acquire flat] }
  if flat.type = BINDER_TYPE_FD then
    (if p.mAllowFds then .NO_ERROR else .FDS_NOT_ALLOWED,
      { (p.store (off.toNat + 8) (bytes fd)).store (off.toNat + 12) (bytes 1#32) with
        mHasFds := true
        mFdsKnown := true })
  else (.NO_ERROR, p)

/-- An error does not stop the loop. -/
def Parcel.appendObjects (dup : ℕ → U32) : Status → Parcel → List U32 → Status × Parcel
  | err, p, [] => (err, p)
  | err, p, o :: os =>
    let (err', p) := p.appendObject dup o
    Parcel.appendObjects dup (if err' = .NO_ERROR then err else err') p os

/-- The bytes are copied to the position, and both the position and the size move on. -/
def Parcel.appendData (data : List Byte) (len : U32) : Parcel :=
  let pos := p.mDataPos
  { p.store pos.toNat data with mDataPos := pos + len, mDataSize := p.mDataSize + len }

/-- The offsets are moved by the position that the parcel had on entry. -/
def Parcel.appendFrom (src : Parcel) (offset len : U32) (dup : ℕ → U32) : Status × Parcel :=
  let startPos := p.mDataPos
  let objects := src.objectsIn offset len
  if len = 0#32 then (.NO_ERROR, p)
  else if src.mDataSize < offset ∨ src.mDataSize < len ∨ src.mDataSize < offset + len then
    (.BAD_VALUE, p)
  else
    match p.orGrow (p.mDataSize + len ≤ p.mDataCapacity) len with
    | (.NO_ERROR, p) =>
      let p := p.appendData (slice src.mem offset.toNat len.toNat) len
      match if objects ≠ [] ∧ p.mObjectsCapacity.toNat < p.mObjects.length + objects.length then
          p.growObjects (BitVec.ofNat 32 objects.length) else (.NO_ERROR, p) with
      | (.NO_ERROR, p) =>
        p.appendObjects dup .NO_ERROR (objects.map fun o => o - offset + startPos)
      | (err, p) => (err, p)
    | (err, p) => (err, p)

end AudioFlinger.Binder
