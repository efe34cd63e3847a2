import AudioFlinger.Foundation.Bytes

/-!
# Transaction buffers of the service manager

A `binder_io` is a cursor in a data buffer and in the table of the offsets at
which binder objects lie in it. Pointers are offsets from `data0` and `offs0`.
The ghost fields record the memory that is read, and the pointers handed out
with the number of bytes that their user goes on to use.
-/

namespace AudioFlinger.ServiceManager

open Foundation Bytes RingMemory

def BIO_F_SHARED : U32 := 0x01#32
def BIO_F_OVERFLOW : U32 := 0x02#32

/-- 1 << 30. -/
def MAX_BIO_SIZE : ℕ := 2 ^ 30

/-- `sh*` and `B_TYPE_LARGE`. -/
def BINDER_TYPE_HANDLE : U32 := 0x73682a85#32
def FLAT_BINDER_FLAG_ACCEPTS_FDS : U32 := 0x100#32

/-- The size of a `binder_object`. -/
abbrev objectSize : U32 := 16#32

/-- Bytes from a pointer on; `none` is the NULL pointer. -/
structure Access where
  ptr : Option ℕ
  size : ℕ
  deriving DecidableEq, Repr

/-- The bytes lie inside a buffer of `n` bytes. -/
def Access.Inside (a : Access) (n : ℕ) : Prop := ∃ p, a.ptr = some p ∧ p + a.size ≤ n

instance (a : Access) (n : ℕ) : Decidable (a.Inside n) :=
  match h : a.ptr with
  | some p => decidable_of_iff (p + a.size ≤ n) (by simp [Access.Inside, h])
  | none => isFalse (by simp [Access.Inside, h])

/-- The fields of `binder_txn` that the handler reads. `data` and `offs` are the memory from the
two pointers on, of which only the first `data_size` and `offs_size` bytes belong to the
transaction. -/
structure Txn where
  target : U32
  code : U32
  sender_euid : U32
  data_size : U32
  offs_size : U32
  data : ℕ → Byte
  offs : ℕ → U32

structure BinderIo where
  data : ℕ
  offs : ℕ
  data_avail : U32
  offs_avail : U32
  flags : U32
  /-- The data buffer, from `data0` on. -/
  mem : ℕ → Byte
  /-- The offsets buffer, from `offs0` on. -/
  table : ℕ → U32
  reads : List Access
  lent : List Access

def bio_init_from_txn (txn : Txn) : BinderIo where
  data := 0
  offs := 0
  data_avail := txn.data_size
  offs_avail := txn.offs_size / 4#32
  flags := BIO_F_SHARED
  mem := txn.data
  table := txn.offs
  reads := []
  lent := []

/-- Over memory with whatever contents. When the table does not fit, nothing is available. -/
def bio_init (mem : ℕ → Byte) (table : ℕ → U32) (maxdata maxoffs : U32) : BinderIo :=
  let n := maxoffs * 4#32
  { data := 0
    offs := 0
    data_avail := if maxdata < n then 0#32 else maxdata - n
    offs_avail := if maxdata < n then 0#32 else maxoffs
    flags := if maxdata < n then BIO_F_OVERFLOW else 0#32
    mem := mem
    table := table
    reads := []
    lent := [] }

variable (bio : BinderIo)

def BinderIo.overflow : BinderIo := { bio with flags := bio.flags ||| BIO_F_OVERFLOW }

/-- Record a read. -/
def BinderIo.touch (ptr : Option ℕ) (size : ℕ) : BinderIo :=
  { bio with reads := bio.reads ++ [{ ptr, size }] }

/-- Record a pointer that is handed out, unless it is NULL. -/
def BinderIo.lend (ptr : Option ℕ) (size : ℕ) : BinderIo :=
  { bio with lent := bio.lent ++ (ptr.map fun p => { ptr := some p, size }).toList }

/-! ## Writing -/

def BinderIo.bio_alloc (size : U32) : Option ℕ × BinderIo :=
  let size := pad4 size
  if bio.data_avail < size then (none, bio.overflow)
  else (some bio.data, { bio with data := bio.data + size.toNat, data_avail := bio.data_avail - size })

/-- The offset of the object goes into the table. -/
def BinderIo.bio_alloc_obj : Option ℕ × BinderIo :=
  match bio.bio_alloc objectSize with
  | (some obj, bio) =>
    if bio.offs_avail ≠ 0#32 then
      (some obj,
        { bio with
          offs_avail := bio.offs_avail - 1#32
          offs := bio.offs + 1
          table := Function.update bio.table bio.offs (BitVec.ofNat 32 obj) })
    else (none, bio.overflow)
  | (none, bio) => (none, bio.overflow)

/-- Write bytes at a pointer that may be NULL, in which case nothing is written. -/
def BinderIo.store (ptr : Option ℕ) (bs : List Byte) : BinderIo :=
  match ptr with
  | some p => { bio with mem := blit bio.mem p bs }
  | none => bio

def BinderIo.bio_put_uint32 (n : U32) : BinderIo :=
  let (ptr, bio) := bio.bio_alloc 4#32
  bio.store ptr (bytes n)

/-- A `binder_object`: type, flags, pointer and cookie. -/
def binderObject (type flags pointer cookie : U32) : List Byte :=
  bytes type ++ bytes flags ++ bytes pointer ++ bytes cookie

def BinderIo.bio_put_ref (ptr : U32) : BinderIo :=
  let (obj, bio) := if ptr ≠ 0#32 then bio.bio_alloc_obj else bio.bio_alloc objectSize
  bio.store obj
    (binderObject BINDER_TYPE_HANDLE (0x7f#32 ||| FLAT_BINDER_FLAG_ACCEPTS_FDS) ptr 0#32)

/-- The string is given as its units up to the terminator; `none` is the NULL pointer. -/
def BinderIo.bio_put_string16 (str : Option (List U16)) : BinderIo :=
  match str with
  | none => bio.bio_put_uint32 0xffffffff#32
  | some str =>
    if MAX_BIO_SIZE / 2 ≤ str.length then bio.bio_put_uint32 0xffffffff#32
    else
      let len := BitVec.ofNat 32 str.length
      let (ptr, bio) := (bio.bio_put_uint32 len).bio_alloc ((len + 1#32) * 2#32)
      bio.store ptr (units (str ++ [0#16]))

/-! ## Reading -/

def BinderIo.bio_get (size : U32) : Option ℕ × BinderIo :=
  let size := pad4 size
  if bio.data_avail < size then (none, { bio.overflow with data_avail := 0#32 })
  else (some bio.data, { bio with data := bio.data + size.toNat, data_avail := bio.data_avail - size })

def BinderIo.bio_get_uint32 : U32 × BinderIo :=
  match bio.bio_get 4#32 with
  | (some p, bio) => (load 32 bio.mem p, (bio.lend (some p) 4).touch (some p) 4)
  | (none, bio) => (0#32, bio)

/-- The pointer to the units and the reported length. -/
def BinderIo.bio_get_string16 : Option ℕ × U32 × BinderIo :=
  let (len, bio) := bio.bio_get_uint32
  let (ptr, bio) := bio.bio_get ((len + 1#32) * 2#32)
  (ptr, len, bio.lend ptr ((len.toNat + 1) * 2))

/-- There must be an object at the position of the cursor. -/
def BinderIo.bio_get_obj : Option ℕ × BinderIo :=
  let off := BitVec.ofNat 32 bio.data
  if (List.range bio.offs_avail.toNat).any fun n => bio.table (bio.offs + n) == off then
    let (obj, bio) := bio.bio_get objectSize
    (obj, bio.lend obj objectSize.toNat)
  else (none, { bio.overflow with data_avail := 0#32 })

def BinderIo.bio_get_ref : U32 × BinderIo :=
  match bio.bio_get_obj with
  | (some obj, bio) =>
    let bio := bio.touch (some obj) 4
    if load 32 bio.mem obj = BINDER_TYPE_HANDLE then
      (load 32 bio.mem (obj + 8), bio.touch (some (obj + 8)) 4)
    else (0#32, bio)
  | (none, bio) => (0#32, bio)

/-! ## What `bio_get` returns -/

variable {bio}

theorem bio_get_short {size : U32} (h : bio.data_avail.toNat < (pad4 size).toNat) :
    bio.bio_get size = (none, { bio.overflow with data_avail := 0#32 }) :=
  if_pos (BitVec.lt_def.mpr h)

theorem bio_get_fits {size : U32} (h : (pad4 size).toNat ≤ bio.data_avail.toNat) :
    bio.bio_get size =
      (some bio.data,
        { bio with
          data := bio.data + (pad4 size).toNat
          data_avail := bio.data_avail - pad4 size }) :=
  if_neg (Nat.not_lt.mpr h)

theorem get_ref_mem : bio.bio_get_ref.2.mem = bio.mem := by
  have hget : (bio.bio_get objectSize).2.mem = bio.mem := by
    unfold BinderIo.bio_get
    dsimp only
    split_ifs <;> rfl
  unfold BinderIo.bio_get_ref BinderIo.bio_get_obj
  dsimp only
  split_ifs
  · revert hget
    rcases bio.bio_get objectSize with ⟨_ | obj, bio'⟩ <;> dsimp only <;> intro hget
    · exact hget
    · split_ifs <;> exact hget
  · rfl

/-- After a string that is not there, no reference is found either. -/
theorem get_ref_of_string_none (h : bio.bio_get_string16.1 = none) :
    bio.bio_get_string16.2.2.bio_get_ref.1 = 0#32 := by
  have havail : bio.bio_get_string16.2.2.data_avail = 0#32 := by
    unfold BinderIo.bio_get_string16 at *
    dsimp only at *
    generalize (bio.bio_get_uint32.1 + 1#32) * 2#32 = size at *
    unfold BinderIo.bio_get at *
    dsimp only at *
    split_ifs at *
    rfl
  unfold BinderIo.bio_get_ref BinderIo.bio_get_obj
  dsimp only
  split_ifs
  · rw [bio_get_short (by rw [havail]; decide)]
  · rfl

end AudioFlinger.ServiceManager
