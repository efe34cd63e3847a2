import AudioFlinger.Binder.Parcel

/-!
# Reading a parcel

Each reader has its own test against `mDataSize`, computed modulo the word. A
reader that hands out a pointer records the bytes its caller is told of.
-/

namespace AudioFlinger.Binder

open Foundation Bytes RingMemory

def INT32_MAX : ℤ := 2147483647

/-- -128. -/
def EX_HAS_REPLY_HEADER : U32 := 0xffffff80#32

variable (p : Parcel)

/-- The test of `read` and `readInplace`. -/
def Parcel.Holds (len : U32) : Prop :=
  p.mDataPos ≤ p.mDataPos + pad4 len ∧ p.mDataPos + pad4 len ≤ p.mDataSize

instance (len : U32) : Decidable (p.Holds len) := inferInstanceAs (Decidable (_ ∧ _))

/-- `none` is NOT_ENOUGH_DATA. -/
def Parcel.read (len : U32) : Option (List Byte) × Parcel :=
  if p.Holds len then
    (some (slice p.mem p.mDataPos.toNat len.toNat),
      { p.touch p.mDataPos.toNat len.toNat with mDataPos := p.mDataPos + pad4 len })
  else (none, p)

def Parcel.readInplace (len : U32) : Option ℕ × Parcel :=
  if p.Holds len then
    (some p.mDataPos.toNat,
      { p.lend p.mDataPos.toNat len.toNat with mDataPos := p.mDataPos + pad4 len })
  else (none, p)

/-- A word of `w` bits; `none` is NOT_ENOUGH_DATA. -/
def Parcel.readAligned (w : ℕ) : Option (BitVec w) × Parcel :=
  let size := BitVec.ofNat 32 (w / 8)
  if p.mDataPos + size ≤ p.mDataSize then
    (some (load w p.mem p.mDataPos.toNat),
      { p.touch p.mDataPos.toNat (w / 8) with mDataPos := p.mDataPos + size })
  else (none, p)

def Parcel.readInt32 : U32 × Parcel := ((p.readAligned 32).1.getD 0#32, (p.readAligned 32).2)

def Parcel.readInt64 : U64 × Parcel := ((p.readAligned 64).1.getD 0#64, (p.readAligned 64).2)

/-- Where the first zero is among `n` bytes. -/
def memchr (mem : ℕ → Byte) : ℕ → ℕ → Option ℕ
  | _, 0 => none
  | pos, n + 1 => if mem pos = 0#8 then some 0 else (memchr mem (pos + 1) n).map (· + 1)

/-- The pointer to a string that ends in a zero. -/
def Parcel.readCString : Option ℕ × Parcel :=
  let avail := p.mDataSize - p.mDataPos
  if avail = 0#32 then (none, p)
  else
    match memchr p.mem p.mDataPos.toNat avail.toNat with
    | some len =>
      (some p.mDataPos.toNat,
        { (p.touch p.mDataPos.toNat (len + 1)).lend p.mDataPos.toNat (len + 1) with
          mDataPos := p.mDataPos + pad4 (BitVec.ofNat 32 len + 1#32) })
    | none => (none, p.touch p.mDataPos.toNat avail.toNat)

/-- The bytes of a `String8`; the empty string when there is none. -/
def Parcel.readString8 : List Byte × Parcel :=
  let (size, p) := p.readInt32
  if 0 < size.toInt ∧ size.toInt < INT32_MAX then
    match p.readInplace (size + 1#32) with
    | (some str, p) => (slice p.mem str size.toNat, p.touch str size.toNat)
    | (none, p) => ([], p)
  else ([], p)

/-- The pointer and the reported length. -/
def Parcel.readString16Inplace : Option ℕ × U32 × Parcel :=
  let (size, p) := p.readInt32
  if 0 ≤ size.toInt ∧ size.toInt < INT32_MAX then
    match p.readInplace ((size + 1#32) * 2#32) with
    | (some str, p) => (some str, size, p.lend str (2 * (size.toNat + 1)))
    | (none, p) => (none, 0#32, p)
  else (none, 0#32, p)

/-- Where there is no string, the empty one. -/
def Parcel.readString16 : List U16 × Parcel :=
  match p.readString16Inplace with
  | (some str, len, p) => (loadUnits p.mem str len.toNat, p.touch str (2 * len.toNat))
  | (none, _, p) => ([], p)

/-- The size of a fat header is taken as it comes. -/
def Parcel.readExceptionCode : U32 × Parcel :=
  let (exception_code, p) := p.readInt32
  if exception_code = EX_HAS_REPLY_HEADER then
    let (header_size, p) := p.readInt32
    (0#32, p.setDataPosition (p.mDataPos + header_size))
  else (exception_code, p)

/-! ## Objects -/

/-- At most `k` steps forward from `opos`. -/
def searchForward (objects : List U32) (dpos : U32) : ℕ → ℕ → ℕ
  | 0, opos => opos
  | k + 1, opos =>
    if objects.getD opos 0#32 < dpos then searchForward objects dpos k (opos + 1) else opos

def searchBackward (objects : List U32) (dpos : U32) : ℕ → ℕ
  | 0 => 0
  | opos + 1 =>
    if dpos < objects.getD (opos + 1) 0#32 then searchBackward objects dpos opos else opos + 1

/-- The index of the object at `dpos`: forward from the hint, then backward. -/
def findObject (objects : List U32) (hint : ℕ) (dpos : U32) : Option ℕ :=
  if objects = [] then none
  else
    let last := objects.length - 1
    let opos := if hint < objects.length then searchForward objects dpos (last - hint) hint else last
    if objects.getD opos 0#32 = dpos then some opos
    else
      let opos := searchBackward objects dpos opos
      if objects.getD opos 0#32 = dpos then some opos else none

def Parcel.lookup (dpos : U32) : Option ℕ × Parcel :=
  match findObject p.mObjects p.mNextObjectHint dpos with
  | some opos =>
    (some dpos.toNat, { p.lend dpos.toNat objectSize.toNat with mNextObjectHint := opos + 1 })
  | none => (none, p)

/-- Whether the object is NULL; `binder` is looked at where the cookie is NULL. -/
def Parcel.peekNull (off : ℕ) : Bool × Parcel :=
  let obj := objectAt p.mem off
  let p := p.touch (off + 12) 4
  if obj.cookie = 0#32 then (obj.binder == 0#32, p.touch (off + 8) 4) else (false, p)

/-- An object that is NULL is not in the table and is not looked for. -/
def Parcel.readObject (nullMetaData : Bool) : Option ℕ × Parcel :=
  let dpos := p.mDataPos
  if dpos + objectSize ≤ p.mDataSize then
    let p := { p with mDataPos := dpos + objectSize }
    if nullMetaData then p.lookup dpos
    else
      let (isNull, p) := p.peekNull dpos.toNat
      if isNull then (some dpos.toNat, p.lend dpos.toNat objectSize.toNat) else p.lookup dpos
  else (none, p)

/-- What a strong pointer to a binder points to: an object of this process, NULL for `0`, or the
proxy for a handle. -/
inductive IBinderPtr
  | object (ptr : U32)
  | proxy (handle : U32)
  deriving DecidableEq, Repr

def Parcel.unflatten_binder : Status × IBinderPtr × Parcel :=
  match p.readObject false with
  | (some off, p) =>
    let flat := objectAt p.mem off
    if flat.type = BINDER_TYPE_BINDER then (.NO_ERROR, .object flat.cookie, p)
    else if flat.type = BINDER_TYPE_HANDLE then (.NO_ERROR, .proxy flat.binder, p)
    else (.BAD_TYPE, .object 0#32, p)
  | (none, p) => (.BAD_TYPE, .object 0#32, p)

def Parcel.readStrongBinder : IBinderPtr × Parcel := p.unflatten_binder.2

end AudioFlinger.Binder
