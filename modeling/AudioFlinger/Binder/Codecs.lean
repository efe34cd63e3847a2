import AudioFlinger.Binder.RoundTrip
import AudioFlinger.ServiceManager.MessageSafety

/-!
# Two codecs for one format

The service manager and the parcels each write and read words, 16-bit strings
and handles. Both writers lay down the same fields, and both readers are
compared with the fields, not with each other.
-/

namespace AudioFlinger.Binder

open Foundation Bytes Fields RingMemory Machine
open ServiceManager (BinderIo Txn Cursor bio_init bio_init_from_txn BIO_F_OVERFLOW MAX_BIO_SIZE)

/-- `string16 none` is the NULL string; a reference is the handle of a binder. -/
inductive Item
  | uint32 (n : U32)
  | string16 (str : Option (List U16))
  | ref (ptr : U32)
  deriving DecidableEq, Repr

/-- What a reader is told of the item that comes next. -/
inductive Kind
  | uint32
  | string16
  | ref

def Item.kind : Item → Kind
  | .uint32 _ => .uint32
  | .string16 _ => .string16
  | .ref _ => .ref

def Parcel.writeItem (p : Parcel) : Item → Status × Parcel
  | .uint32 n => p.writeInt32 n
  | .string16 str => p.writeString16 str
  | .ref ptr => p.writeStrongBinder (.remoteBinder ptr)

/-- Write an item; the run ends at the first write that fails. -/
def writeItemStep (p : Parcel) (it : Item) : Option Parcel :=
  match p.writeItem it with
  | (.NO_ERROR, p') => some p'
  | _ => none

/-- `readString16` has no NULL string. -/
def Parcel.readItem (p : Parcel) : Kind → Option Item × Parcel
  | .uint32 => (some (.uint32 p.readInt32.1), p.readInt32.2)
  | .string16 => (some (.string16 (some p.readString16.1)), p.readString16.2)
  | .ref =>
    match p.readStrongBinder with
    | (.proxy handle, p) => (some (.ref handle), p)
    | (.object _, p) => (none, p)

def putItem (bio : BinderIo) : Item → BinderIo
  | .uint32 n => bio.bio_put_uint32 n
  | .string16 str => bio.bio_put_string16 str
  | .ref ptr => bio.bio_put_ref ptr

/-- The length of a NULL string is `0xffffffff`. -/
def getItem (bio : BinderIo) : Kind → Option Item × BinderIo
  | .uint32 => (some (.uint32 bio.bio_get_uint32.1), bio.bio_get_uint32.2)
  | .string16 =>
    let (str, len, bio) := bio.bio_get_string16
    (if len = 0xffffffff#32 then some (.string16 none)
      else str.map fun str => .string16 (some (loadUnits bio.mem str len.toNat)), bio)
  | .ref => (some (.ref bio.bio_get_ref.1), bio.bio_get_ref.2)

/-- The parcel as the payload of a transaction. -/
def Parcel.asTxn (p : Parcel) : Txn where
  target := 0#32
  code := 0#32
  sender_euid := 0#32
  data_size := p.mDataSize
  offs_size := BitVec.ofNat 32 p.mObjects.length * 4#32
  data := p.mem
  offs := fun i => p.mObjects.getD i 0#32

/-- What was put, as the payload of a transaction. -/
def sent (bio : BinderIo) : Txn where
  target := 0#32
  code := 0#32
  sender_euid := 0#32
  data_size := BitVec.ofNat 32 bio.data
  offs_size := BitVec.ofNat 32 bio.offs * 4#32
  data := bio.mem
  offs := bio.table

/-- What was put, as a parcel receives it. -/
def received (bio : BinderIo) (p : Parcel) : Parcel :=
  p.ipcSetDataReference bio.mem (BitVec.ofNat 32 bio.data) (slice bio.table 0 bio.offs) true

/-! ## Layout -/

/-- A string of half the largest size is put as NULL. -/
def Item.put : Item → Item
  | .string16 (some str) => if MAX_BIO_SIZE / 2 ≤ str.length then .string16 none else .string16 (some str)
  | it => it

/-- An item as a parcel reads it. -/
def Item.inParcel : Item → Item
  | .string16 none => .string16 (some [])
  | it => it

def Item.fields : Item → List (List Byte)
  | .uint32 n => [bytes n]
  | .string16 none => [bytes 0xffffffff#32]
  | .string16 (some str) => string16Fields str
  | .ref ptr => [(StrongBinder.remoteBinder ptr).flatten.bytes]

def Item.offsets (n : ℕ) : Item → List U32
  | .ref ptr => (StrongBinder.remoteBinder ptr).flatten.offsets n
  | _ => []

/-- The offsets of the references in items laid down from `n` on. -/
abbrev itemOffsets : ℕ → List Item → List U32 := offsetsOf Item.fields Item.offsets

/-- A string whose size in bytes does not wrap. -/
def Item.Short : Item → Prop
  | .string16 (some str) => 2 * str.length + 5 < 2 ^ 32
  | _ => True

/-- A reference that is NULL has no entry in the table. -/
def Item.NonNull : Item → Prop
  | .ref ptr => ptr ≠ 0#32
  | _ => True

/-- No size that the write grows the data to wraps. -/
def UnwrappedItem (p : Parcel) (it : Item) : Prop :=
  Grows p.mDataSize.toNat p.mDataCapacity.toNat it.fields

variable {p p' r : Parcel} {bio bio' : BinderIo} {txn : Txn} {n d : ℕ} {it : Item}
  {fs gs : List (List Byte)} {os os' : List U32}

instance (p : Parcel) (it : Item) : Decidable (UnwrappedItem p it) := decidableGrows _ _ _

/-! ## Parcels as writers -/

theorem writeItem_extends (h : p.Open n) (hgrows : UnwrappedItem p it)
    (hok : p.writeItem it = (.NO_ERROR, p')) : p.Extends p' n it.fields (it.offsets n) := by
  have hsize : p.mDataSize.toNat = n := by rw [h.size, h.pos]
  rw [UnwrappedItem, hsize] at hgrows
  cases it with
  | uint32 x => exact writeInt32_extends h hgrows hok
  | string16 str =>
    cases str with
    | none => exact writeInt32_extends h hgrows hok
    | some str => exact writeString16_extends h hgrows hok
  | ref ptr => exact writeObject_extends (flatten_type _) h hgrows hok

theorem writeItemStep_some : writeItemStep p it = some p' ↔ p.writeItem it = (.NO_ERROR, p') := by
  unfold writeItemStep
  rcases p.writeItem it with ⟨_ | _ | _ | _ | _ | _, q⟩ <;> simp

/-! ## Transaction buffers as writers -/

def Clear (bio : BinderIo) : Prop := bio.flags &&& BIO_F_OVERFLOW = 0#32

/-- The fields `fs` and the offsets `os` were added behind what is there. -/
structure Puts (bio bio' : BinderIo) (fs : List (List Byte)) (os : List U32) : Prop where
  data : bio'.data = bio.data + extent fs
  avail : bio'.data + bio'.data_avail.toNat = bio.data + bio.data_avail.toNat
  laid : Laid bio'.mem bio.data fs
  kept : ∀ i < bio.data, bio'.mem i = bio.mem i
  table : slice bio'.table 0 bio'.offs = slice bio.table 0 bio.offs ++ os

theorem Puts.trans {bio'' : BinderIo} (h : Puts bio bio' fs os) (h' : Puts bio' bio'' gs os') :
    Puts bio bio'' (fs ++ gs) (os ++ os') where
  data := by rw [h'.data, h.data, extent_append, Nat.add_assoc]
  avail := h'.avail.trans h.avail
  laid := by
    refine laid_append.mpr ⟨h.laid.congr fun i _ hi => h'.kept i ?_, ?_⟩
    · rwa [h.data]
    · rw [← h.data]
      exact h'.laid
  kept := fun i hi => (h'.kept i (by rw [h.data]; omega)).trans (h.kept i hi)
  table := by rw [h'.table, h.table, List.append_assoc]

theorem overflow_not_clear : ¬ Clear bio.overflow := by
  intro h
  have hbit := congrArg (BitVec.getLsbD · 1) h
  simp [BinderIo.overflow, BIO_F_OVERFLOW] at hbit

/-- Getting room either sets the overflow flag or moves the cursor. -/
theorem bio_alloc_cases (bio : BinderIo) (size : U32) :
    ((bio.bio_alloc size).1 = none ∧ ¬ Clear (bio.bio_alloc size).2) ∨
      (pad4 size).toNat ≤ bio.data_avail.toNat ∧
        bio.bio_alloc size =
          (some bio.data,
            { bio with
              data := bio.data + (pad4 size).toNat
              data_avail := bio.data_avail - pad4 size }) := by
  unfold BinderIo.bio_alloc
  dsimp only
  split_ifs with hlt
  · exact Or.inl ⟨rfl, overflow_not_clear⟩
  · exact Or.inr ⟨Nat.not_lt.mp fun h => hlt (BitVec.lt_def.mpr h), rfl⟩

/-- A field is stored where room for it was got. -/
theorem puts_field {f : List Byte} {size : U32} (hpad : padded f.length = (pad4 size).toNat)
    (hle : (pad4 size).toNat ≤ bio.data_avail.toNat) :
    Puts bio (BinderIo.store
      { bio with data := bio.data + (pad4 size).toNat, data_avail := bio.data_avail - pad4 size }
      (some bio.data) f) [f] [] where
  data := by
    rw [extent_cons, extent_nil, hpad]
    rfl
  avail := by
    change bio.data + (pad4 size).toNat + (bio.data_avail - pad4 size).toNat = _
    rw [BitVec.toNat_sub_of_le (BitVec.le_def.mpr hle)]
    omega
  laid := ⟨stores_blit bio.mem bio.data f, trivial⟩
  kept := fun i hi => blit_miss (Or.inl hi)
  table := (List.append_nil _).symm

theorem put_uint32_puts {n : U32} (h : Clear (bio.bio_put_uint32 n)) :
    Clear bio ∧ Puts bio (bio.bio_put_uint32 n) [bytes n] [] := by
  unfold BinderIo.bio_put_uint32 at *
  rcases bio_alloc_cases bio 4#32 with ⟨hnone, hnot⟩ | ⟨hle, heq⟩
  · revert h hnone hnot
    rcases bio.bio_alloc 4#32 with ⟨ptr, bio'⟩
    rintro h ⟨⟩ hnot
    exact absurd h hnot
  · rw [heq] at h ⊢
    exact ⟨h, puts_field (padded_word n) hle⟩

theorem put_string16_puts {str : List U16} (hshort : str.length < MAX_BIO_SIZE / 2)
    (h : Clear (bio.bio_put_string16 (some str))) :
    Clear bio ∧ Puts bio (bio.bio_put_string16 (some str)) (string16Fields str) [] := by
  have hsize : ((BitVec.ofNat 32 str.length + 1#32) * 2#32).toNat = 2 * (str.length + 1) := by
    unfold MAX_BIO_SIZE at hshort
    have hlen : (BitVec.ofNat 32 str.length).toNat = str.length := by
      rw [BitVec.toNat_ofNat]
      omega
    rw [units_size (by omega), hlen]
  have hpad : padded (units (str ++ [0#16])).length =
      (pad4 ((BitVec.ofNat 32 str.length + 1#32) * 2#32)).toNat := by
    unfold MAX_BIO_SIZE at hshort
    rw [pad4_eq_padded (by omega), hsize, units_length, List.length_append, List.length_singleton]
  unfold BinderIo.bio_put_string16 at *
  dsimp only at *
  rw [if_neg (Nat.not_le.mpr hshort)] at *
  rcases bio_alloc_cases (bio.bio_put_uint32 (BitVec.ofNat 32 str.length))
    ((BitVec.ofNat 32 str.length + 1#32) * 2#32) with ⟨hnone, hnot⟩ | ⟨hle, heq⟩
  · revert h hnone hnot
    rcases (bio.bio_put_uint32 _).bio_alloc _ with ⟨ptr, bio'⟩
    rintro h ⟨⟩ hnot
    exact absurd h hnot
  · rw [heq] at h ⊢
    obtain ⟨hclear, hlen⟩ := put_uint32_puts (n := BitVec.ofNat 32 str.length) h
    exact ⟨hclear, hlen.trans (puts_field hpad hle)⟩

theorem slice_update {table : ℕ → U32} (k : ℕ) (x : U32) :
    slice (Function.update table k x) 0 (k + 1) = slice table 0 k ++ [x] := by
  unfold slice
  rw [List.range_succ, List.map_append, List.map_singleton, Nat.zero_add, Function.update_self]
  congr 1
  apply List.map_congr_left
  intro i hi
  exact Function.update_of_ne (by rw [Nat.zero_add]; exact (List.mem_range.mp hi).ne) _ _

theorem put_ref_puts {ptr : U32} (h : Clear (bio.bio_put_ref ptr)) :
    Clear bio ∧ Puts bio (bio.bio_put_ref ptr) (Item.ref ptr).fields
      ((Item.ref ptr).offsets bio.data) := by
  have hobject : (StrongBinder.remoteBinder ptr).flatten.bytes =
      ServiceManager.binderObject ServiceManager.BINDER_TYPE_HANDLE
        (0x7f#32 ||| ServiceManager.FLAT_BINDER_FLAG_ACCEPTS_FDS) ptr 0#32 := rfl
  have hlen : padded (StrongBinder.remoteBinder ptr).flatten.bytes.length =
      (pad4 ServiceManager.objectSize).toNat := by
    rw [FlatBinderObject.bytes_length]
    rfl
  unfold BinderIo.bio_put_ref BinderIo.bio_alloc_obj Item.fields Item.offsets
    FlatBinderObject.offsets at *
  rw [← hobject] at *
  dsimp only at *
  rcases bio_alloc_cases bio ServiceManager.objectSize with ⟨hnone, hnot⟩ | ⟨hle, heq⟩
  · revert h hnone hnot
    rcases bio.bio_alloc ServiceManager.objectSize with ⟨obj, bio'⟩
    rintro h ⟨⟩ hnot
    by_cases hptr : ptr ≠ 0#32
    · rw [if_pos hptr] at h
      exact absurd h overflow_not_clear
    · rw [if_neg hptr] at h
      exact absurd h hnot
  · have hputs := puts_field hlen hle
    rw [heq] at h ⊢
    by_cases hptr : ptr = 0#32
    · subst hptr
      exact ⟨h, hputs⟩
    · have hbinder : ¬ (StrongBinder.remoteBinder ptr).flatten.binder = 0#32 := hptr
      rw [if_pos hptr] at h ⊢
      rw [if_neg hbinder]
      dsimp only at h ⊢
      by_cases havail : bio.offs_avail ≠ 0#32
      · rw [if_pos havail] at h ⊢
        exact ⟨h, hputs.data, hputs.avail, hputs.laid, hputs.kept, slice_update _ _⟩
      · rw [if_neg havail] at h
        exact absurd h overflow_not_clear

/-- Each put that does not overflow lays down the fields of what is put. -/
theorem putItem_puts (h : Clear (putItem bio it)) :
    Clear bio ∧ Puts bio (putItem bio it) it.put.fields (it.put.offsets bio.data) := by
  cases it with
  | uint32 n => exact put_uint32_puts h
  | string16 str =>
    cases str with
    | none => exact put_uint32_puts h
    | some str =>
      change Clear (bio.bio_put_string16 (some str)) at h
      by_cases hlong : MAX_BIO_SIZE / 2 ≤ str.length
      · have hput : (Item.string16 (some str)).put = .string16 none := if_pos hlong
        have hnull : bio.bio_put_string16 (some str) = bio.bio_put_uint32 0xffffffff#32 :=
          if_pos hlong
        rw [hput, putItem, hnull]
        rw [hnull] at h
        exact put_uint32_puts h
      · have hput : (Item.string16 (some str)).put = .string16 (some str) := if_neg hlong
        rw [hput]
        exact put_string16_puts (Nat.not_le.mp hlong) h
  | ref ptr => exact put_ref_puts h

/-- What a run of puts lays down. -/
theorem foldl_puts (its : List Item) (h : Clear (its.foldl putItem bio)) :
    Clear bio ∧ Puts bio (its.foldl putItem bio) ((its.map Item.put).flatMap Item.fields)
      (itemOffsets bio.data (its.map Item.put)) := by
  induction its generalizing bio with
  | nil => exact ⟨h, rfl, rfl, trivial, fun i _ => rfl, (List.append_nil _).symm⟩
  | cons it its ih =>
    rw [List.foldl_cons] at h ⊢
    obtain ⟨hclear, hrest⟩ := ih h
    obtain ⟨hbio, hfirst⟩ := putItem_puts hclear
    rw [hfirst.data] at hrest
    exact ⟨hbio, hfirst.trans hrest⟩

/-! ## Parcels as readers -/

/-- A parcel reads back what is laid down, a NULL string as the empty one. -/
theorem readItem_laid (h : p.Reads r n) (hin : n + extent it.fields ≤ p.mDataSize.toNat)
    (hlaid : Laid p.mem n it.fields) (hshort : it.Short)
    (hsorted : p.mObjects.Pairwise (· < ·)) (hmem : it.offsets n ⊆ p.mObjects) :
    (r.readItem it.kind).1 = some it.inParcel ∧
      p.Reads (r.readItem it.kind).2 (n + extent it.fields) := by
  cases it with
  | uint32 x =>
    rw [Item.fields, extent_cons, extent_nil, padded_word, Nat.add_zero] at hin ⊢
    obtain ⟨hval, hreads⟩ := readInt32_stored h hin hlaid.1
    exact ⟨congrArg (some ∘ Item.uint32) hval, hreads⟩
  | string16 str =>
    cases str with
    | none =>
      rw [Item.fields, extent_cons, extent_nil, padded_word, Nat.add_zero] at hin ⊢
      obtain ⟨hval, hreads⟩ := readInt32_stored h hin hlaid.1
      have hnone : r.readString16Inplace = (none, 0#32, r.readInt32.2) := by
        unfold Parcel.readString16Inplace
        dsimp only
        rw [hval, if_neg (by decide)]
      have hempty : r.readString16 = ([], r.readInt32.2) := by
        unfold Parcel.readString16
        rw [hnone]
      unfold Parcel.readItem Item.kind
      dsimp only
      rw [hempty]
      exact ⟨rfl, hreads⟩
    | some str =>
      obtain ⟨hval, hreads⟩ := readString16_stored hshort h hin hlaid
      exact ⟨congrArg (some ∘ Item.string16 ∘ some) hval, hreads⟩
  | ref ptr =>
    have hlen : extent (Item.ref ptr).fields = 16 := by
      rw [Item.fields, extent_cons, extent_nil, FlatBinderObject.bytes_length]
      rfl
    rw [hlen] at hin ⊢
    obtain ⟨hval, hreads⟩ := readStrongBinder_stored h hin hlaid.1 hsorted hmem
    unfold Parcel.readItem Item.kind
    revert hval hreads
    rcases r.readStrongBinder with ⟨ptr', q⟩
    rintro ⟨⟩ hreads
    exact ⟨rfl, hreads⟩

/-! ## Transaction buffers as readers -/

/-- The cursor is at offset `d`, and the whole table is still there. -/
structure At (txn : Txn) (d : ℕ) (r : BinderIo) : Prop where
  cursor : Cursor txn d r
  table : r.table = txn.offs
  offs : r.offs = 0
  offs_avail : r.offs_avail = txn.offs_size / 4#32

theorem At.of_table {r r' : BinderIo} {d' : ℕ} (h : At txn d r) (hcursor : Cursor txn d' r')
    (hsame : r'.table = r.table ∧ r'.offs = r.offs ∧ r'.offs_avail = r.offs_avail) :
    At txn d' r' :=
  ⟨hcursor, hsame.1.trans h.table, hsame.2.1.trans h.offs, hsame.2.2.trans h.offs_avail⟩

theorem bio_get_table (bio : BinderIo) (size : U32) :
    (bio.bio_get size).2.table = bio.table ∧ (bio.bio_get size).2.offs = bio.offs ∧
      (bio.bio_get size).2.offs_avail = bio.offs_avail := by
  unfold BinderIo.bio_get
  dsimp only
  split_ifs <;> exact ⟨rfl, rfl, rfl⟩

theorem get_uint32_table (bio : BinderIo) :
    bio.bio_get_uint32.2.table = bio.table ∧ bio.bio_get_uint32.2.offs = bio.offs ∧
      bio.bio_get_uint32.2.offs_avail = bio.offs_avail := by
  have hget := bio_get_table bio 4#32
  unfold BinderIo.bio_get_uint32
  revert hget
  rcases bio.bio_get 4#32 with ⟨_ | ptr, bio'⟩ <;> exact id

theorem get_string16_table (bio : BinderIo) :
    bio.bio_get_string16.2.2.table = bio.table ∧ bio.bio_get_string16.2.2.offs = bio.offs ∧
      bio.bio_get_string16.2.2.offs_avail = bio.offs_avail := by
  obtain ⟨htable, hoffs, havail⟩ := get_uint32_table bio
  obtain ⟨htable', hoffs', havail'⟩ :=
    bio_get_table bio.bio_get_uint32.2 ((bio.bio_get_uint32.1 + 1#32) * 2#32)
  exact ⟨htable'.trans htable, hoffs'.trans hoffs, havail'.trans havail⟩

theorem wordAt_stored {x : U32} (hin : d + 4 ≤ txn.data_size.toNat)
    (hs : Stores txn.data d (bytes x)) : txn.wordAt d = x :=
  (if_pos hin).trans (hs.load (by decide))

/-- An entry of the table for the offset of the cursor. -/
def Listed (txn : Txn) (o : U32) : Prop := ∃ i < (txn.offs_size / 4#32).toNat, txn.offs i = o

theorem get_ref_laid {r : BinderIo} {ptr : U32} (h : At txn d r)
    (hin : d + 16 ≤ txn.data_size.toNat)
    (hs : Stores txn.data d (StrongBinder.remoteBinder ptr).flatten.bytes)
    (hlisted : Listed txn (BitVec.ofNat 32 d)) :
    r.bio_get_ref.1 = ptr ∧ At txn (d + 16) r.bio_get_ref.2 := by
  obtain ⟨i, hi, hentry⟩ := hlisted
  have hany : ((List.range r.offs_avail.toNat).any fun k =>
      r.table (r.offs + k) == BitVec.ofNat 32 r.data) = true := by
    rw [List.any_eq_true]
    refine ⟨i, List.mem_range.mpr (by rwa [h.offs_avail]), ?_⟩
    rw [h.table, h.offs, Nat.zero_add, hentry, h.cursor.data, beq_self_eq_true]
  obtain ⟨hptr, hcursor⟩ := @Cursor.bio_get _ _ _ h.cursor ServiceManager.objectSize hin
  have htable := bio_get_table r ServiceManager.objectSize
  have hobj := objectAt_stored hs
  have htype : load 32 txn.data d = ServiceManager.BINDER_TYPE_HANDLE :=
    congrArg FlatBinderObject.type hobj
  have hbinder : load 32 txn.data (d + 8) = ptr := congrArg FlatBinderObject.binder hobj
  unfold BinderIo.bio_get_ref BinderIo.bio_get_obj
  dsimp only
  rw [if_pos hany]
  revert hptr hcursor htable
  rcases r.bio_get ServiceManager.objectSize with ⟨_ | obj, r'⟩
  · rintro ⟨⟩
  · rintro ⟨⟩ hcursor htable
    have hread : load 32 r'.mem d = ServiceManager.BINDER_TYPE_HANDLE := by rw [hcursor.mem, htype]
    change (if load 32 r'.mem d = ServiceManager.BINDER_TYPE_HANDLE then _ else _ :
      U32 × BinderIo).1 = ptr ∧ At txn (d + 16)
        (if load 32 r'.mem d = ServiceManager.BINDER_TYPE_HANDLE then _ else _ : U32 × BinderIo).2
    rw [if_pos hread]
    refine ⟨?_, h.of_table ⟨hcursor.data, hcursor.avail, hcursor.mem⟩ htable⟩
    change load 32 r'.mem (d + 8) = ptr
    rw [hcursor.mem, hbinder]

/-- A transaction buffer reads back what is laid down. -/
theorem getItem_laid {r : BinderIo} (h : At txn d r)
    (hin : d + extent it.fields ≤ txn.data_size.toNat) (hlaid : Laid txn.data d it.fields)
    (hshort : it.Short) (hlisted : ∀ o ∈ it.offsets d, Listed txn o) (hnonNull : it.NonNull) :
    (getItem r it.kind).1 = some it ∧ At txn (d + extent it.fields) (getItem r it.kind).2 := by
  have hsize := txn.data_size.isLt
  cases it with
  | uint32 x =>
    rw [Item.fields, extent_cons, extent_nil, padded_word, Nat.add_zero] at hin ⊢
    obtain ⟨hval, hnext⟩ := h.cursor.get_uint32
    rw [if_pos hin] at hnext
    rw [wordAt_stored hin hlaid.1] at hval
    exact ⟨congrArg (some ∘ Item.uint32) hval, h.of_table hnext (get_uint32_table r)⟩
  | string16 str =>
    obtain ⟨hlen, hptr, hnext⟩ := h.cursor.get_string16
    have htable := get_string16_table r
    cases str with
    | none =>
      rw [Item.fields, extent_cons, extent_nil, padded_word, Nat.add_zero] at hin ⊢
      have hword := wordAt_stored hin hlaid.1
      have hpad : pad4 ((0xffffffff#32 + 1#32) * 2#32) = 0#32 := by decide
      have hholds : txn.Holds d := by
        rw [ServiceManager.Txn.Holds, hword, hpad]
        exact hin
      have hcursor := hnext hholds
      rw [hword, hpad] at hcursor
      rw [hword] at hlen
      refine ⟨?_, h.of_table hcursor htable⟩
      unfold getItem Item.kind
      dsimp only
      rw [if_pos hlen]
    | some str =>
      change 2 * str.length + 5 < 2 ^ 32 at hshort
      have hextent : extent (Item.string16 (some str)).fields = 4 + padded (2 * (str.length + 1)) :=
        extent_string16 str
      rw [hextent] at hin ⊢
      obtain ⟨hfirst, hbody, -⟩ := laid_string16.mp hlaid
      have hword := wordAt_stored (by lia) hfirst
      have hcount : (BitVec.ofNat 32 str.length).toNat = str.length := by
        rw [BitVec.toNat_ofNat]
        lia
      have hunits : ((BitVec.ofNat 32 str.length + 1#32) * 2#32).toNat = 2 * (str.length + 1) := by
        rw [units_size (by lia), hcount]
      have hpad : (pad4 ((BitVec.ofNat 32 str.length + 1#32) * 2#32)).toNat =
          padded (2 * (str.length + 1)) := by
        rw [pad4_eq_padded (by lia), hunits]
      have hholds : txn.Holds d := by
        rw [ServiceManager.Txn.Holds, hword, hpad]
        lia
      have hcursor := hnext hholds
      rw [hword, hpad, Nat.add_assoc] at hcursor
      rw [hword] at hlen
      rw [if_pos hholds] at hptr
      have hsome : ¬ BitVec.ofNat 32 str.length = 0xffffffff#32 := by
        intro heq
        have htop := congrArg BitVec.toNat heq
        rw [hcount, BitVec.toNat_ofNat] at htop
        lia
      refine ⟨?_, h.of_table hcursor htable⟩
      unfold getItem Item.kind
      dsimp only
      rw [hlen, if_neg hsome, hptr, hcount, hcursor.mem, Option.map_some, hbody.loadUnits]
  | ref ptr =>
    have hlength : extent (Item.ref ptr).fields = 16 := by
      rw [Item.fields, extent_cons, extent_nil, FlatBinderObject.bytes_length]
      rfl
    have hbinder : ¬ (StrongBinder.remoteBinder ptr).flatten.binder = 0#32 := hnonNull
    have hoffset : BitVec.ofNat 32 d ∈ (Item.ref ptr).offsets d := by
      rw [Item.offsets, FlatBinderObject.offsets, if_neg hbinder]
      exact List.mem_singleton_self _
    rw [hlength] at hin ⊢
    obtain ⟨hval, hat⟩ := get_ref_laid h hin hlaid.1 (hlisted _ hoffset)
    exact ⟨congrArg (some ∘ Item.ref) hval, hat⟩

/-! ## Agreement -/

/-- `bio_get` keeps up with the parcel that wrote the items, and ends where it ends. -/
def BioTracks : Parcel → BinderIo → List Item → Prop
  | _, r, [] => r.data_avail = 0#32
  | w, r, it :: its =>
    ∃ w', writeItemStep w it = some w' ∧
      (getItem r it.kind).1 = some it ∧
      (getItem r it.kind).2.data = w'.mDataPos.toNat ∧
      BioTracks w' (getItem r it.kind).2 its

/-- `bio_get` keeps up with `bio_put`. -/
def BioReads : BinderIo → BinderIo → List Item → Prop
  | _, r, [] => r.data_avail = 0#32
  | w, r, it :: its =>
    (getItem r it.kind).1 = some it.put ∧
      (getItem r it.kind).2.data = (putItem w it).data ∧
      BioReads (putItem w it) (getItem r it.kind).2 its

/-- A parcel keeps up with `bio_put`. -/
def ParcelReads : BinderIo → Parcel → List Item → Prop
  | _, r, [] => r.mDataPos = r.mDataSize
  | w, r, it :: its =>
    (r.readItem it.kind).1 = some it.put.inParcel ∧
      (r.readItem it.kind).2.mDataPos.toNat = (putItem w it).data ∧
      ParcelReads (putItem w it) (r.readItem it.kind).2 its

theorem At.exhausted {r : BinderIo} (h : At txn d r) (hend : d = txn.data_size.toNat) :
    r.data_avail = 0#32 := by
  have havail := h.cursor.avail
  apply BitVec.eq_of_toNat_eq
  rw [BitVec.toNat_ofNat]
  omega

theorem kind_put (it : Item) : it.put.kind = it.kind := by
  unfold Item.put
  split
  · split_ifs <;> rfl
  · rfl

theorem nonNull_put (h : it.NonNull) : it.put.NonNull := by
  unfold Item.put
  split
  · split_ifs <;> trivial
  · exact h

theorem short_put (it : Item) : it.put.Short := by
  unfold Item.put
  split
  · split_ifs with hlong
    · trivial
    · unfold MAX_BIO_SIZE at hlong
      change 2 * _ + 5 < 2 ^ 32
      omega
  · rename_i hnot
    cases it with
    | string16 str =>
      cases str with
      | none => trivial
      | some str => exact absurd rfl (hnot str)
    | _ => trivial

/-- A string inside the data has a size that does not wrap. -/
theorem short_of_extent {size : U32} (hin : n + extent it.fields ≤ size.toNat) : it.Short := by
  have hsize := size.isLt
  cases it with
  | string16 str =>
    cases str with
    | none => trivial
    | some str =>
      change n + extent (string16Fields str) ≤ _ at hin
      rw [extent_string16] at hin
      unfold padded at hin
      change 2 * str.length + 5 < 2 ^ 32
      omega
  | _ => trivial

theorem bioTracks_of_at {its : List Item} {w : Parcel} {r : BinderIo} (hw : w.Open n)
    (hgrows : Along writeItemStep UnwrappedItem w its) (hrun : run writeItemStep w its = some p)
    (h : At txn n r) (hend : n + extent (its.flatMap Item.fields) = txn.data_size.toNat)
    (hlaid : Laid txn.data n (its.flatMap Item.fields)) (hnonNull : ∀ it ∈ its, it.NonNull)
    (hlisted : ∀ o ∈ itemOffsets n its, Listed txn o) : BioTracks w r its := by
  induction its generalizing w r n with
  | nil => exact h.exhausted hend
  | cons it its ih =>
    obtain ⟨w', hw', hrest⟩ := run_cons_some.mp hrun
    rw [List.flatMap_cons, extent_append, ← Nat.add_assoc] at hend
    rw [List.flatMap_cons, laid_append] at hlaid
    have hfirst := writeItem_extends hw hgrows.1 (writeItemStep_some.mp hw')
    have hin : n + extent it.fields ≤ txn.data_size.toNat := by omega
    obtain ⟨hval, hnext⟩ := getItem_laid h hin hlaid.1 (short_of_extent hin)
      (fun o ho => hlisted o (List.mem_append_left _ ho)) (hnonNull it List.mem_cons_self)
    refine ⟨w', hw', hval, ?_, ?_⟩
    · rw [hnext.cursor.data, hfirst.after.pos]
    · exact ih hfirst.after (hgrows.2 w' hw') hrest hnext hend hlaid.2
        (fun it' hit' => hnonNull it' (List.mem_cons_of_mem _ hit'))
        fun o ho => hlisted o (List.mem_append_right _ ho)

theorem bioReads_of_at {its : List Item} {w r : BinderIo} (hclear : Clear (its.foldl putItem w))
    (hw : w.data = n) (h : At txn n r)
    (hend : n + extent ((its.map Item.put).flatMap Item.fields) = txn.data_size.toNat)
    (hlaid : Laid txn.data n ((its.map Item.put).flatMap Item.fields))
    (hnonNull : ∀ it ∈ its, it.NonNull)
    (hlisted : ∀ o ∈ itemOffsets n (its.map Item.put), Listed txn o) : BioReads w r its := by
  induction its generalizing w r n with
  | nil => exact h.exhausted hend
  | cons it its ih =>
    rw [List.map_cons, List.flatMap_cons, extent_append, ← Nat.add_assoc] at hend
    rw [List.map_cons, List.flatMap_cons, laid_append] at hlaid
    obtain ⟨-, hfirst⟩ := putItem_puts (foldl_puts its hclear).1
    obtain ⟨hval, hnext⟩ := getItem_laid h (by lia) hlaid.1 (short_put it)
      (fun o ho => hlisted o (List.mem_append_left _ ho))
      (nonNull_put (hnonNull it List.mem_cons_self))
    rw [kind_put] at hval hnext
    have hdata : (putItem w it).data = n + extent it.put.fields := by rw [hfirst.data, hw]
    refine ⟨hval, ?_, ?_⟩
    · rw [hnext.cursor.data, hdata]
    · exact ih hclear hdata hnext hend hlaid.2
        (fun it' hit' => hnonNull it' (List.mem_cons_of_mem _ hit'))
        fun o ho => hlisted o (List.mem_append_right _ ho)

theorem parcelReads_of_reads {its : List Item} {w : BinderIo}
    (hclear : Clear (its.foldl putItem w)) (hw : w.data = n) (h : p.Reads r n)
    (hend : n + extent ((its.map Item.put).flatMap Item.fields) = p.mDataSize.toNat)
    (hlaid : Laid p.mem n ((its.map Item.put).flatMap Item.fields))
    (hsorted : p.mObjects.Pairwise (· < ·))
    (hmem : itemOffsets n (its.map Item.put) ⊆ p.mObjects) : ParcelReads w r its := by
  induction its generalizing w r n with
  | nil =>
    apply BitVec.eq_of_toNat_eq
    rw [h.pos, h.size, ← hend]
    rfl
  | cons it its ih =>
    rw [List.map_cons, List.flatMap_cons, extent_append, ← Nat.add_assoc] at hend
    rw [List.map_cons, List.flatMap_cons, laid_append] at hlaid
    obtain ⟨hhere, hlater⟩ := List.append_subset.mp hmem
    obtain ⟨-, hfirst⟩ := putItem_puts (foldl_puts its hclear).1
    obtain ⟨hval, hreads⟩ := readItem_laid h (by omega) hlaid.1 (short_put it) hsorted hhere
    rw [kind_put] at hval hreads
    have hdata : (putItem w it).data = n + extent it.put.fields := by rw [hfirst.data, hw]
    refine ⟨hval, ?_, ?_⟩
    · rw [hreads.pos, hdata]
    · exact ih hclear hdata hreads hend hlaid.2 hlater

/-! ## The tables -/

theorem offsets_item (n : ℕ) (it : Item) :
    it.offsets n = [] ∨ it.offsets n = [BitVec.ofNat 32 n] ∧ 0 < extent it.fields := by
  cases it with
  | ref ptr => exact offsets_object _ n
  | _ => exact Or.inl rfl

theorem scanObjects_keeps (p : Parcel) (objects : List U32) :
    (p.scanObjects objects).mData = p.mData ∧ (p.scanObjects objects).mDataSize = p.mDataSize ∧
      (p.scanObjects objects).mObjects = p.mObjects ∧
        (p.scanObjects objects).mDataPos = p.mDataPos := by
  induction objects generalizing p with
  | nil => exact ⟨rfl, rfl, rfl, rfl⟩
  | cons o os ih =>
    rw [Parcel.scanObjects]
    split_ifs
    · exact ⟨rfl, rfl, rfl, rfl⟩
    · exact ih (p.touch o.toNat 4)

theorem received_keeps (bio : BinderIo) (p : Parcel) :
    (received bio p).mData = some bio.mem ∧
      (received bio p).mDataSize = BitVec.ofNat 32 bio.data ∧
        (received bio p).mObjects = slice bio.table 0 bio.offs ∧
          (received bio p).mDataPos = 0#32 :=
  scanObjects_keeps _ _

theorem listed_of_table {L : List U32} (hcount : L.length * 4 < 2 ^ 32)
    (hsize : txn.offs_size = BitVec.ofNat 32 L.length * 4#32)
    (hoffs : ∀ i < L.length, txn.offs i = L.getD i 0#32) {o : U32} (ho : o ∈ L) : Listed txn o := by
  obtain ⟨i, hi, rfl⟩ := List.getElem_of_mem ho
  refine ⟨i, ?_, ?_⟩
  · rw [hsize, BitVec.toNat_udiv, BitVec.toNat_mul]
    simp only [BitVec.toNat_ofNat, Nat.reducePow, Nat.reduceMod]
    omega
  · rw [hoffs i hi, List.getD_eq_getElem?_getD, List.getElem?_eq_getElem hi, Option.getD_some]

theorem at_from_txn (txn : Txn) : At txn 0 (bio_init_from_txn txn) :=
  ⟨ServiceManager.cursor_from_txn txn, rfl, rfl, rfl⟩

/-- What a parcel writes, `bio_get` reads. -/
theorem bioTracks_of_run {heap : List (Option (ℕ → Byte))} {its : List Item}
    (hnonNull : ∀ it ∈ its, it.NonNull)
    (hgrows : Along writeItemStep UnwrappedItem (.initState heap []) its)
    (hrun : run writeItemStep (.initState heap []) its = some p) :
    BioTracks (.initState heap []) (bio_init_from_txn p.asTxn) its := by
  have hopen := open_initState heap []
  have hwritten : (Parcel.initState heap []).Extends p 0 (its.flatMap Item.fields)
      (itemOffsets 0 its) :=
    run_lays (fun h hok hstep => writeItem_extends h hok (writeItemStep_some.mp hstep))
      hopen hgrows hrun
  have hafter := hwritten.after
  rw [Nat.zero_add] at hafter
  have hsize : extent (its.flatMap Item.fields) = p.mDataSize.toNat := by
    rw [hafter.size, hafter.pos]
  have hobjects : p.mObjects = itemOffsets 0 its := hwritten.objects
  have hcount : p.mObjects.length * 4 < 2 ^ 32 := by
    have hlt := p.mDataSize.isLt
    have hlen : (itemOffsets 0 its).length * 4 ≤ extent (its.flatMap Item.fields) :=
      offsetsOf_length offsets_item 0 its
    rw [hobjects]
    omega
  refine bioTracks_of_at hopen hgrows hrun (at_from_txn p.asTxn) ?_ hwritten.laid hnonNull ?_
  · rw [Nat.zero_add]
    exact hsize
  · rw [← hobjects]
    exact fun o ho => listed_of_table hcount rfl (fun i _ => rfl) ho

/-- Parcels write what `bio_get` reads, and `bio_put` writes what a parcel and, where no reference
is NULL, `bio_get` read. The table lists the references that are not NULL. -/
theorem codecs_agree :
    (∀ (heap : List (Option (ℕ → Byte))) (its : List Item) (p : Parcel),
      (∀ it ∈ its, it.NonNull) →
      Along writeItemStep UnwrappedItem (.initState heap []) its →
      run writeItemStep (.initState heap []) its = some p →
      BioTracks (.initState heap []) (bio_init_from_txn p.asTxn) its) ∧
    ∀ (mem : ℕ → Byte) (table : ℕ → U32) (maxdata maxoffs : U32) (its : List Item) (p : Parcel),
      maxoffs.toNat * 4 < 2 ^ 32 →
      Clear (its.foldl putItem (bio_init mem table maxdata maxoffs)) →
      slice (its.foldl putItem (bio_init mem table maxdata maxoffs)).table 0
          (its.foldl putItem (bio_init mem table maxdata maxoffs)).offs =
        itemOffsets 0 (its.map Item.put) ∧
      ParcelReads (bio_init mem table maxdata maxoffs)
        (received (its.foldl putItem (bio_init mem table maxdata maxoffs)) p) its ∧
      ((∀ it ∈ its, it.NonNull) →
        BioReads (bio_init mem table maxdata maxoffs)
          (bio_init_from_txn (sent (its.foldl putItem (bio_init mem table maxdata maxoffs)))) its) := by
  refine ⟨fun heap its p hnonNull hgrows hrun => bioTracks_of_run hnonNull hgrows hrun, ?_⟩
  intro mem table maxdata maxoffs its p _ hclear
  obtain ⟨-, hputs⟩ := foldl_puts its hclear
  set w₀ := bio_init mem table maxdata maxoffs
  set w := its.foldl putItem w₀
  set fields := (its.map Item.put).flatMap Item.fields
  have hdata : w.data = extent fields := hputs.data.trans (Nat.zero_add _)
  have havail := hputs.avail
  have hzero : w₀.data = 0 := rfl
  have hlt := w₀.data_avail.isLt
  have hsize : (BitVec.ofNat 32 w.data).toNat = extent fields := by
    rw [BitVec.toNat_ofNat]
    lia
  have htable : slice w.table 0 w.offs = itemOffsets 0 (its.map Item.put) := hputs.table
  obtain ⟨hsorted, -⟩ := offsetsOf_increasing offsets_item (n := 0)
    (by change 0 + extent fields < 2 ^ 32; lia)
  have hcount : (itemOffsets 0 (its.map Item.put)).length * 4 ≤ extent fields :=
    offsetsOf_length offsets_item 0 (its.map Item.put)
  have hoffs : w.offs = (itemOffsets 0 (its.map Item.put)).length := by
    rw [← htable, slice_length]
  refine ⟨htable, ?_, fun hnonNull => ?_⟩
  · obtain ⟨hdata', hsize', hobjects, hpos⟩ := received_keeps w p
    have hmem : (received w p).mem = w.mem := by rw [Parcel.mem, hdata', Option.getD_some]
    refine parcelReads_of_reads hclear hzero ⟨rfl, rfl, rfl, by rw [hpos]; rfl⟩ ?_ ?_ ?_ ?_
    · rw [Nat.zero_add, hsize', hsize]
    · rw [hmem]
      exact hputs.laid
    · rw [hobjects, htable]
      exact hsorted
    · rw [hobjects, htable]
      exact List.Subset.refl _
  · refine bioReads_of_at hclear hzero (at_from_txn (sent w)) ?_ hputs.laid hnonNull ?_
    · rw [Nat.zero_add]
      exact hsize.symm
    · intro o ho
      refine listed_of_table (L := itemOffsets 0 (its.map Item.put)) ?_ ?_ ?_ ho
      · lia
      · rw [← hoffs]
        rfl
      · intro i hi
        rw [← hoffs] at hi
        rw [← htable]
        simp [slice, hi, sent]

/-- The request to add a service: a policy, two names, one of them empty, and a handle. -/
def addService : List Item :=
  [.uint32 0x100#32, .string16 (some [0x6e#16, 0x66#16, 0x63#16]), .string16 (some []),
    .string16 none, .ref 5#32]

theorem codecs_agree_addService :
    (∃ p, run writeItemStep (.initState (List.replicate 8 (some fun _ => 0#8)) []) addService = some p ∧
      BioTracks (.initState (List.replicate 8 (some fun _ => 0#8)) []) (bio_init_from_txn p.asTxn)
        addService) ∧
    ParcelReads (bio_init (fun _ => 0#8) (fun _ => 0#32) 64#32 2#32)
      (received (addService.foldl putItem (bio_init (fun _ => 0#8) (fun _ => 0#32) 64#32 2#32))
        (.initState [] [])) addService :=
  ⟨⟨_, rfl, codecs_agree.1 _ addService _ (by
      unfold addService
      simp [Item.NonNull]) (by decide +kernel) rfl⟩,
    (codecs_agree.2 (fun _ => 0#8) (fun _ => 0#32) 64#32 2#32 addService (.initState [] [])
      (by decide) (by unfold Clear; decide +kernel)).2.1⟩

/-- A NULL string that `bio_put` writes is not read back by a parcel. -/
theorem null_string_reads_empty :
    ((received (putItem (bio_init (fun _ => 0#8) (fun _ => 0#32) 16#32 0#32) (.string16 none))
      (.initState [] [])).readItem .string16).1 = some (.string16 (some [])) ∧
    ((received (putItem (bio_init (fun _ => 0#8) (fun _ => 0#32) 16#32 0#32) (.string16 none))
      (.initState [] [])).readItem .string16).1 ≠ some (.string16 none) := by
  decide +kernel

end AudioFlinger.Binder
