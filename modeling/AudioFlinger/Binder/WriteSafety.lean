import AudioFlinger.Binder.Write
import AudioFlinger.Foundation.Machine

/-!
# What the writers touch

Every byte written lies in `[0, mDataCapacity)`, and a write that succeeds has
room for its bytes, as long as its steps are `Roomy`: a writer that grows the
data grows it from `mDataSize`, whatever the position, and does not test again.
-/

namespace AudioFlinger.Binder

open Foundation Bytes Fields RingMemory Machine

/-- Bytes that a size can count. -/
abbrev Buffer := { bs : List Byte // bs.length < 2 ^ 32 }

def Buffer.size (b : Buffer) : U32 := BitVec.ofNat 32 b.val.length

inductive WriteCall
  | write (data : Buffer)
  | writeUnpadded (data : Buffer)
  | writeInplace (len : U32)
  | writeInt32 (val : U32)
  | writeObject (val : FlatBinderObject) (nullMetaData : Bool)
  | appendFrom (src : Parcel) (offset len : U32) (dup : ℕ → U32)
  | setDataPosition (pos : U32)
  | setDataSize (size : U32)
  | setDataCapacity (size : U32)
  | ipcSetDataReference (data : ℕ → Byte) (dataSize : U32) (objects : List U32) (relFunc : Bool)

def Parcel.after (p : Parcel) : WriteCall → Parcel
  | .write data => (p.write data.val).2
  | .writeUnpadded data => (p.writeUnpadded data.val).2
  | .writeInplace len => (p.writeInplace len).2
  | .writeInt32 val => (p.writeInt32 val).2
  | .writeObject val nullMetaData => (p.writeObject val nullMetaData).2
  | .appendFrom src offset len dup => (p.appendFrom src offset len dup).2
  | .setDataPosition pos => p.setDataPosition pos
  | .setDataSize size => (p.setDataSize size).2
  | .setDataCapacity size => (p.setDataCapacity size).2
  | .ipcSetDataReference data dataSize objects relFunc =>
    p.ipcSetDataReference data dataSize objects relFunc

def writeCallStep (p : Parcel) (c : WriteCall) : Option Parcel := some (p.after c)

/-- The data fits, and all that was written to the block lies inside it. -/
structure Parcel.Contained (p : Parcel) : Prop where
  size : p.mDataSize ≤ p.mDataCapacity
  written : ∀ s ∈ p.written, s.off + s.size ≤ p.mDataCapacity.toNat

/-- A success has room: `write` has got a pointer to its bytes, and the others have stored them. -/
def Parcel.Granted (p : Parcel) : WriteCall → Prop
  | .write data => (p.write data.val).1 = .NO_ERROR →
      data.val = [] ∨ ∃ d, (p.writeInplace data.size).1 = some d ∧
        d + data.val.length ≤ (p.write data.val).2.mDataCapacity.toNat
  | .writeUnpadded data => (p.writeUnpadded data.val).1 = .NO_ERROR →
      ∃ d, { off := d, size := data.val.length } ∈ (p.writeUnpadded data.val).2.written
  | .writeInplace len => ∀ d, (p.writeInplace len).1 = some d →
      d + len.toNat ≤ (p.writeInplace len).2.mDataCapacity.toNat
  | .writeInt32 val => (p.writeInt32 val).1 = .NO_ERROR →
      ∃ d, { off := d, size := 4 } ∈ (p.writeInt32 val).2.written
  | .writeObject val nullMetaData => (p.writeObject val nullMetaData).1 = .NO_ERROR →
      ∃ d, { off := d, size := 16 } ∈ (p.writeObject val nullMetaData).2.written
  | .appendFrom src offset len dup => (p.appendFrom src offset len dup).1 = .NO_ERROR →
      len = 0#32 ∨
        ∃ d, { off := d, size := len.toNat } ∈ (p.appendFrom src offset len dup).2.written
  | _ => True

/-! ## The condition -/

/-- The size that the data is grown to for `n` more bytes. -/
def Parcel.newSize (p : Parcel) (n : ℕ) : ℕ := (p.mDataSize.toNat + n) * 3 % 2 ^ 32 / 2

/-- The position once the data is grown to `desired` bytes, which can be moved back. -/
def Parcel.posAfter (p : Parcel) (desired : ℕ) : ℕ :=
  if p.mData.isNone then 0
  else if p.mOwner ∨ p.mDataCapacity.toNat < desired then p.mDataPos.toNat
  else min p.mDataPos.toNat desired

def Parcel.capacityAfter (p : Parcel) (desired : ℕ) : ℕ :=
  if p.mOwner then desired else max p.mDataCapacity.toNat desired

/-- The test of a writer, whose sum can wrap. -/
def Parcel.Fits (p : Parcel) (n : ℕ) : Prop :=
  (p.mDataPos.toNat + n) % 2 ^ 32 ≤ p.mDataCapacity.toNat

instance (p : Parcel) (n : ℕ) : Decidable (p.Fits n) := inferInstanceAs (Decidable (_ ≤ _))

/-- `n` bytes fit behind the position, or do once the data has grown. -/
def Parcel.RoomFor (p : Parcel) (n : ℕ) : Prop :=
  if p.Fits n then p.mDataPos.toNat + n ≤ p.mDataCapacity.toNat
  else p.mDataSize.toNat < p.newSize n ∧
    p.posAfter (p.newSize n) + n ≤ p.capacityAfter (p.newSize n)

/-- The end of `n` bytes wraps. -/
def Parcel.Overflows (p : Parcel) (n : ℕ) : Prop := 2 ^ 32 ≤ p.mDataPos.toNat + n

/-- The size to grow to is not larger than the size, so that growing is refused. -/
def Parcel.Refuses (p : Parcel) (n : ℕ) : Prop := ¬ p.Fits n ∧ p.newSize n ≤ p.mDataSize.toNat

/-- Appending tests the size in place of the position. -/
def Parcel.AppendFits (p : Parcel) (n : ℕ) : Prop :=
  (p.mDataSize.toNat + n) % 2 ^ 32 ≤ p.mDataCapacity.toNat

instance (p : Parcel) (n : ℕ) : Decidable (p.AppendFits n) := inferInstanceAs (Decidable (_ ≤ _))

/-- The capacity that `n` bytes are appended in. -/
def Parcel.appendCapacity (p : Parcel) (n : ℕ) : ℕ :=
  if p.AppendFits n then p.mDataCapacity.toNat else p.capacityAfter (p.newSize n)

/-- The bytes, the size and the objects, at their new offsets, lie inside. -/
def Parcel.RoomToAppend (p src : Parcel) (offset len : U32) : Prop :=
  (if p.AppendFits len.toNat then p.mDataPos.toNat else p.posAfter (p.newSize len.toNat)) +
      len.toNat ≤ p.appendCapacity len.toNat ∧
    (p.mDataSize.toNat + len.toNat) % 2 ^ 32 ≤ p.appendCapacity len.toNat ∧
    ∀ o ∈ src.objectsIn offset len,
      (o - offset + p.mDataPos).toNat + 16 ≤ p.appendCapacity len.toNat

/-- The tests of a writer do not wrap, and what it grows to has room for what it writes. -/
def Roomy (p : Parcel) : WriteCall → Prop
  | .write data =>
      data.val.length + 3 < 2 ^ 32 ∧ ¬ p.Overflows (pad4 data.size).toNat ∧
        p.RoomFor (pad4 data.size).toNat ∨
      (p.mError ≠ .NO_ERROR ∨ data.val = []) ∧
        (p.Overflows (pad4 data.size).toNat ∨ p.Refuses (pad4 data.size).toNat)
  | .writeUnpadded data => p.Overflows data.val.length ∨ p.RoomFor data.val.length ∨
      p.Refuses data.val.length
  | .writeInplace len => p.Overflows (pad4 len).toNat ∨
      len.toNat + 3 < 2 ^ 32 ∧ p.RoomFor (pad4 len).toNat ∨ p.Refuses (pad4 len).toNat
  | .writeInt32 _ => p.RoomFor 4 ∨ p.Refuses 4
  | .writeObject _ _ => p.RoomFor 16 ∨ p.Refuses 16
  | .appendFrom src offset len _ => len = 0#32 ∨
      (src.mDataSize < offset ∨ src.mDataSize < len ∨ src.mDataSize < offset + len) ∨
      ¬ p.AppendFits len.toNat ∧ p.newSize len.toNat ≤ p.mDataSize.toNat ∨
      p.RoomToAppend src offset len
  | _ => True

instance (p : Parcel) (n : ℕ) : Decidable (p.RoomFor n) :=
  inferInstanceAs (Decidable (if p.Fits n then _ ≤ _ else _ ∧ _))

instance (p : Parcel) (n : ℕ) : Decidable (p.Overflows n) := inferInstanceAs (Decidable (_ ≤ _))

instance (p : Parcel) (n : ℕ) : Decidable (p.Refuses n) := inferInstanceAs (Decidable (_ ∧ _))

instance (p src : Parcel) (offset len : U32) : Decidable (p.RoomToAppend src offset len) :=
  -- over the table, not over all words
  have : Decidable (∀ o ∈ src.objectsIn offset len,
      (o - offset + p.mDataPos).toNat + 16 ≤ p.appendCapacity len.toNat) := List.decidableBAll _ _
  inferInstanceAs (Decidable (_ ∧ _ ∧ _))

instance (p : Parcel) : ∀ c, Decidable (Roomy p c)
  | .write _ => inferInstanceAs (Decidable (_ ∨ _))
  | .writeUnpadded _ => inferInstanceAs (Decidable (_ ∨ _))
  | .writeInplace _ => inferInstanceAs (Decidable (_ ∨ _))
  | .writeInt32 _ => inferInstanceAs (Decidable (_ ∨ _))
  | .writeObject _ _ => inferInstanceAs (Decidable (_ ∨ _))
  | .appendFrom _ _ _ _ => inferInstanceAs (Decidable (_ ∨ _))
  | .setDataPosition _ => isTrue trivial
  | .setDataSize _ => isTrue trivial
  | .setDataCapacity _ => isTrue trivial
  | .ipcSetDataReference _ _ _ _ => isTrue trivial

/-! ## The invariant -/

/-- Without a block there is no capacity and no owner. -/
structure Parcel.Kept (p : Parcel) : Prop where
  contained : p.Contained
  capacity : p.mData = none → p.mDataCapacity = 0#32
  owner : p.mData = none → p.mOwner = false

variable {p q : Parcel} {n : ℕ}

theorem kept_initState (heap : List (Option (ℕ → Byte))) (refs : List RefOp) :
    (Parcel.initState heap refs).Kept where
  contained := ⟨BitVec.le_refl _, by rintro _ ⟨⟩⟩
  capacity := fun _ => rfl
  owner := fun _ => rfl

/-- The invariant is about the block, its sizes and what was written to it. -/
theorem Parcel.Kept.of_same (h : p.Kept) (hdata : q.mData = p.mData)
    (hsize : q.mDataSize = p.mDataSize) (hcapacity : q.mDataCapacity = p.mDataCapacity)
    (howner : q.mOwner = p.mOwner) (hwritten : q.written = p.written) : q.Kept where
  contained := ⟨by rw [hsize, hcapacity]; exact h.contained.size,
    by rw [hwritten, hcapacity]; exact h.contained.written⟩
  capacity := by rw [hdata, hcapacity]; exact h.capacity
  owner := by rw [hdata, howner]; exact h.owner

/-- The data was cut or grown to `desired` bytes. -/
structure Parcel.Resized (p q : Parcel) (desired : U32) : Prop where
  kept : q.Kept
  capacity : p.capacityAfter desired.toNat ≤ q.mDataCapacity.toNat
  pos : q.mDataPos.toNat ≤ p.posAfter desired.toNat
  size : q.mDataSize.toNat = min p.mDataSize.toNat desired.toNat

theorem Parcel.Resized.room {desired : U32} (h : p.Resized q desired) :
    desired.toNat ≤ q.mDataCapacity.toNat := by
  refine le_trans ?_ h.capacity
  unfold Parcel.capacityAfter
  split_ifs
  · exact le_rfl
  · exact le_max_right _ _

/-- A failed allocation sets the error. -/
structure Parcel.NoMemory (q : Parcel) : Prop where
  kept : q.Kept
  error : q.mError = .NO_MEMORY

/-- The data was resized, or the allocation failed. -/
def Parcel.Resizes (p : Parcel) (desired : U32) (result : Status × Parcel) : Prop :=
  (result.1 = .NO_ERROR ∧ p.Resized result.2 desired) ∨
    (result.1 = .NO_MEMORY ∧ result.2.NoMemory)

theorem takePossession_cases (h : p.Kept) (howner : p.mOwner = true) (desired : U32) :
    p.Resizes desired (p.takePossession desired) := by
  have hsome : p.mData.isNone = false := by
    rcases hdata : p.mData with _ | mem
    · rw [h.owner hdata] at howner
      cases howner
    · rfl
  have hcapacity : p.capacityAfter desired.toNat = desired.toNat := if_pos howner
  have hpos : p.posAfter desired.toNat = p.mDataPos.toNat := by
    unfold Parcel.posAfter
    rw [hsome, if_neg Bool.false_ne_true, if_pos (Or.inl howner)]
  have hmin : (if p.mDataSize < desired then p.mDataSize else desired).toNat =
      min p.mDataSize.toNat desired.toNat := by
    split_ifs with hlt <;> rw [BitVec.lt_def] at hlt <;> omega
  unfold Parcel.takePossession
  dsimp only
  generalize p.keptObjects desired = objects
  have hdone : ∀ (q : Parcel) (fresh : ℕ → Byte), p.mDataPos = q.mDataPos →
      p.Resized { (q.acquireObjects objects).forget with
        mData := some (carried (if p.mDataSize < desired then p.mDataSize else desired).toNat
          q.mem fresh)
        mDataSize := if p.mDataSize < desired then p.mDataSize else desired
        mDataCapacity := desired
        mObjects := objects
        mObjectsCapacity := BitVec.ofNat 32 objects.length
        mNextObjectHint := 0
        mOwner := false
        tableRoom := objects.length } desired := by
    intro q fresh hsame
    refine ⟨⟨⟨?_, by rintro _ ⟨⟩⟩, by rintro ⟨⟩, by rintro ⟨⟩⟩, hcapacity.le, ?_, hmin⟩
    · rw [BitVec.le_def]
      exact hmin.le.trans (min_le_right _ _)
    · rw [hpos, hsame]
      exact le_rfl
  unfold Parcel.malloc
  rcases p.heap.head?.join with _ | fresh
  · exact Or.inr ⟨rfl, h.of_same rfl rfl rfl rfl rfl, rfl⟩
  · dsimp only
    by_cases hnil : objects = []
    · rw [if_pos hnil]
      exact Or.inl ⟨rfl, hdone _ fresh rfl⟩
    · rw [if_neg hnil]
      rcases p.heap.tail.head?.join with _ | table
      · exact Or.inr ⟨rfl, h.of_same rfl rfl rfl rfl rfl, rfl⟩
      · exact Or.inl ⟨rfl, hdone _ fresh rfl⟩

theorem resize_cases (h : p.Kept) (hsome : p.mData.isNone = false) (howner : p.mOwner = false)
    (desired : U32) : p.Resizes desired (p.resize desired) := by
  have hsize := BitVec.le_def.mp h.contained.size
  have hcapacityAfter : p.capacityAfter desired.toNat = max p.mDataCapacity.toNat desired.toNat := by
    unfold Parcel.capacityAfter
    rw [howner, if_neg Bool.false_ne_true]
  have hposAfter : p.posAfter desired.toNat =
      if p.mDataCapacity.toNat < desired.toNat then p.mDataPos.toNat
      else min p.mDataPos.toNat desired.toNat := by
    unfold Parcel.posAfter
    simp only [hsome, howner, Bool.false_eq_true, if_false, false_or]
  unfold Parcel.resize
  dsimp only
  generalize p.keptObjects desired = objects
  have hsame : (p.dropObjects objects).mData = p.mData ∧
      (p.dropObjects objects).mDataSize = p.mDataSize ∧
      (p.dropObjects objects).mDataCapacity = p.mDataCapacity ∧
      (p.dropObjects objects).mDataPos = p.mDataPos ∧
      (p.dropObjects objects).mOwner = p.mOwner ∧
      (p.dropObjects objects).written = p.written := by
    unfold Parcel.dropObjects
    split_ifs <;> exact ⟨rfl, rfl, rfl, rfl, rfl, rfl⟩
  revert hsame
  generalize p.dropObjects objects = q
  rintro ⟨hdata, hq, hcapacity, hpos, howner, hwritten⟩
  have hkept : q.Kept := h.of_same hdata hq hcapacity howner hwritten
  by_cases hmore : q.mDataCapacity < desired
  · have hlt := BitVec.lt_def.mp hmore
    rw [hcapacity] at hlt
    rw [if_pos hmore]
    unfold Parcel.malloc
    rcases q.heap.head?.join with _ | fresh
    · exact Or.inr ⟨rfl, hkept.of_same rfl rfl rfl rfl rfl, rfl⟩
    · refine Or.inl ⟨rfl, ⟨⟨?_, ?_⟩, by rintro ⟨⟩, by rintro ⟨⟩⟩, ?_, ?_, ?_⟩
      · rw [BitVec.le_def]
        dsimp only
        rw [hq]
        omega
      · intro s hs
        have hin := hkept.contained.written s hs
        rw [hcapacity] at hin
        dsimp only
        omega
      · rw [hcapacityAfter]
        exact max_le hlt.le le_rfl
      · rw [hposAfter, if_pos hlt, ← hpos]
      · change q.mDataSize.toNat = _
        rw [hq]
        omega
  · have hle := mt BitVec.lt_def.mpr hmore
    rw [hcapacity] at hle
    rw [if_neg hmore]
    have hmin : ∀ x : U32, (if desired < x then desired else x).toNat = min x.toNat desired.toNat := by
      intro x
      split_ifs with hlt <;> rw [BitVec.lt_def] at hlt <;> omega
    refine Or.inl ⟨rfl, ⟨⟨?_, hkept.contained.written⟩, hkept.capacity, hkept.owner⟩, ?_, ?_, ?_⟩
    · rw [BitVec.le_def]
      change (if desired < q.mDataSize then desired else q.mDataSize).toNat ≤ _
      rw [hmin, hq, hcapacity]
      omega
    · rw [hcapacityAfter, hcapacity]
      exact max_le le_rfl (Nat.not_lt.mp hle)
    · change (if desired < q.mDataPos then desired else q.mDataPos).toNat ≤ _
      rw [hmin, hposAfter, if_neg hle, hpos]
    · change (if desired < q.mDataSize then desired else q.mDataSize).toNat = _
      rw [hmin, hq]

theorem firstData_cases (h : p.Kept) (hnone : p.mData = none) (desired : U32) :
    p.Resizes desired (p.firstData desired) := by
  have hzero : p.mDataCapacity.toNat = 0 := congrArg BitVec.toNat (h.capacity hnone)
  have hsize := BitVec.le_def.mp h.contained.size
  unfold Parcel.firstData Parcel.malloc
  rcases p.heap.head?.join with _ | fresh
  · exact Or.inr ⟨rfl, h.of_same rfl rfl rfl rfl rfl, rfl⟩
  · refine Or.inl ⟨rfl, ⟨⟨?_, by rintro _ ⟨⟩⟩, by rintro ⟨⟩, by rintro ⟨⟩⟩, ?_, Nat.zero_le _, ?_⟩
    · exact BitVec.le_def.mpr (Nat.zero_le _)
    · unfold Parcel.capacityAfter
      rw [h.owner hnone, if_neg Bool.false_ne_true, hzero]
      exact max_le (Nat.zero_le _) le_rfl
    · change 0 = _
      omega

theorem continueWrite_cases (h : p.Kept) (desired : U32) :
    p.Resizes desired (p.continueWrite desired) := by
  unfold Parcel.continueWrite
  by_cases howner : p.mOwner = true
  · rw [if_pos howner]
    by_cases hzero : desired = 0#32
    · rw [if_pos hzero, hzero]
      refine Or.inl ⟨rfl, kept_initState _ _, ?_, Nat.zero_le _, ?_⟩
      · unfold Parcel.capacityAfter
        rw [if_pos howner]
        exact le_rfl
      · exact (Nat.min_zero _).symm
    · rw [if_neg hzero]
      exact takePossession_cases h howner desired
  · rw [if_neg howner]
    rcases hdata : p.mData with _ | mem
    · exact firstData_cases h hdata desired
    · exact resize_cases h (by rw [hdata]; rfl) (Bool.not_eq_true _ ▸ howner) desired

/-! ## Room -/

/-- How the test of a writer and the growth behind it end: there is room, or the call fails. -/
inductive Parcel.Grown (p : Parcel) (len : U32) (fits : Prop) [Decidable fits] :
    Status × Parcel → Prop
  | room (q : Parcel) (hkept : q.Kept)
      (hin : q.mDataPos.toNat + len.toNat ≤ q.mDataCapacity.toNat)
      (hnot : ¬ (¬ fits ∧ p.newSize len.toNat ≤ p.mDataSize.toNat))
      (hsize : q.mDataSize = p.mDataSize)
      (hlarge : (if fits then p.mDataCapacity.toNat else p.capacityAfter (p.newSize len.toNat)) ≤
        q.mDataCapacity.toNat) : Grown p len fits (.NO_ERROR, q)
  | fails (q : Parcel) (hkept : q.Kept) (hwhy : q.mError = .NO_MEMORY ∨
      (¬ fits ∧ p.newSize len.toNat ≤ p.mDataSize.toNat) ∧ q = p) : Grown p len fits (.NO_MEMORY, q)

/-- A writer that has room, or is refused, passes the test or grows rightly. -/
theorem orGrow_grown (h : p.Kept) {test fits : Prop} [Decidable test] [Decidable fits] {len : U32}
    (htest : test ↔ fits)
    (hroom : if fits then p.mDataPos.toNat + len.toNat ≤ p.mDataCapacity.toNat
      else p.newSize len.toNat ≤ p.mDataSize.toNat ∨
        p.posAfter (p.newSize len.toNat) + len.toNat ≤ p.capacityAfter (p.newSize len.toNat)) :
    p.Grown len fits (p.orGrow test len) := by
  have hnew : ((p.mDataSize + len) * 3#32 / 2#32).toNat = p.newSize len.toNat :=
    newSize_toNat p.mDataSize len
  unfold Parcel.orGrow
  by_cases hfit : fits
  · rw [if_pos hfit] at hroom
    rw [if_pos (htest.mpr hfit)]
    exact .room p h hroom (fun hrefused => hrefused.1 hfit) rfl (if_pos hfit).le
  · rw [if_neg hfit] at hroom
    rw [if_neg (mt htest.mp hfit)]
    unfold Parcel.growData
    dsimp only
    by_cases hsmall : (p.mDataSize + len) * 3#32 / 2#32 ≤ p.mDataSize
    · rw [if_pos hsmall]
      have hle := BitVec.le_def.mp hsmall
      rw [hnew] at hle
      exact .fails p h (.inr ⟨⟨hfit, hle⟩, rfl⟩)
    · rw [if_neg hsmall]
      have hnot := mt BitVec.le_def.mpr hsmall
      rw [hnew] at hnot
      have hcases := continueWrite_cases h ((p.mDataSize + len) * 3#32 / 2#32)
      generalize p.continueWrite _ = written at hcases
      obtain ⟨st, q⟩ := written
      obtain ⟨rfl, hresized⟩ | ⟨rfl, hmemory⟩ := hcases
      · have hcapacity := hresized.capacity
        have hpos := hresized.pos
        have hsize := hresized.size
        have hin := hroom.resolve_left hnot
        rw [hnew] at hcapacity hpos hsize
        dsimp only at hcapacity hpos hsize
        refine .room q hresized.kept ?_ (fun hrefused => hnot hrefused.2) ?_ ?_
        · omega
        · exact BitVec.eq_of_toNat_eq (by omega)
        · rw [if_neg hfit]
          exact hcapacity
      · exact .fails q hmemory.kept (.inl hmemory.error)

theorem Parcel.Kept.store (h : p.Kept) {off : ℕ} {bs : List Byte}
    (hin : off + bs.length ≤ p.mDataCapacity.toNat) : (p.store off bs).Kept where
  contained := by
    refine ⟨h.contained.size, ?_⟩
    simp only [Parcel.store, List.forall_mem_append, List.forall_mem_singleton]
    exact ⟨h.contained.written, hin⟩
  capacity := fun hnone => h.capacity (Option.map_eq_none_iff.mp hnone)
  owner := fun hnone => h.owner (Option.map_eq_none_iff.mp hnone)

theorem Parcel.Kept.finishWrite (h : p.Kept) {len : U32}
    (hroom : p.mDataPos.toNat + len.toNat ≤ p.mDataCapacity.toNat) : (p.finishWrite len).Kept := by
  have hcap := p.mDataCapacity.isLt
  have hend : (p.mDataPos + len).toNat = p.mDataPos.toNat + len.toNat := by
    rw [BitVec.toNat_add]
    exact Nat.mod_eq_of_lt (by omega)
  refine ⟨⟨?_, h.contained.written⟩, h.capacity, h.owner⟩
  unfold Parcel.finishWrite
  dsimp only
  split_ifs
  · rw [BitVec.le_def, hend]
    exact hroom
  · exact h.contained.size

theorem fits_iff (p : Parcel) (len : U32) :
    p.mDataPos + len ≤ p.mDataCapacity ↔ p.Fits len.toNat := by
  rw [BitVec.le_def, BitVec.toNat_add]
  rfl

theorem wraps_iff (p : Parcel) (len : U32) :
    p.mDataPos + len < p.mDataPos ↔ p.Overflows len.toNat := by
  have hpos := p.mDataPos.isLt
  have hlen := len.isLt
  rw [BitVec.lt_def, BitVec.toNat_add]
  unfold Parcel.Overflows
  omega

theorem orGrow_roomy (h : p.Kept) {len : U32}
    (hroomy : p.RoomFor len.toNat ∨ p.Refuses len.toNat) :
    p.Grown len (p.Fits len.toNat) (p.orGrow (p.mDataPos + len ≤ p.mDataCapacity) len) := by
  refine orGrow_grown h (fits_iff p len) ?_
  unfold Parcel.RoomFor Parcel.Refuses at hroomy
  split_ifs at hroomy ⊢ with hfit
  · exact hroomy.resolve_right fun hrefuses => hrefuses.1 hfit
  · exact (hroomy.imp And.right And.right).symm

theorem not_roomFor (hrefuses : p.Refuses n) : ¬ p.RoomFor n := by
  unfold Parcel.RoomFor
  rw [if_neg hrefuses.1]
  exact fun hroom => absurd hrefuses.2 (Nat.not_le.mpr hroom.1)

/-! ## The writers -/

theorem writeAligned_contained {w : ℕ} {x : BitVec w} (hw : w / 8 < 2 ^ 32) (h : p.Kept)
    (hroomy : p.RoomFor (w / 8) ∨ p.Refuses (w / 8)) :
    (p.writeAligned x).2.Kept ∧ ((p.writeAligned x).1 = .NO_ERROR →
      ∃ d, { off := d, size := w / 8 } ∈ (p.writeAligned x).2.written) := by
  have hsize : (BitVec.ofNat 32 (w / 8)).toNat = w / 8 :=
    (BitVec.toNat_ofNat _ _).trans (Nat.mod_eq_of_lt hw)
  rw [← hsize] at hroomy
  have hcases := orGrow_roomy h hroomy
  unfold Parcel.writeAligned
  dsimp only
  generalize p.orGrow (p.mDataPos + BitVec.ofNat 32 (w / 8) ≤ p.mDataCapacity)
    (BitVec.ofNat 32 (w / 8)) = grown at hcases ⊢
  cases hcases with
  | room q hkept hroom =>
    have hlen : q.mDataPos.toNat + (bytes x).length ≤ q.mDataCapacity.toNat := by
      rw [bytes_length, ← hsize]
      exact hroom
    refine ⟨(hkept.store hlen).finishWrite hroom, fun _ => ⟨q.mDataPos.toNat, ?_⟩⟩
    change _ ∈ q.written ++ [_]
    rw [bytes_length]
    exact List.mem_append_right _ (List.mem_singleton_self _)
  | fails q hkept => exact ⟨hkept, by rintro ⟨⟩⟩

theorem writeUnpadded_contained (data : Buffer) (h : p.Kept)
    (hroomy : Roomy p (.writeUnpadded data)) :
    (p.writeUnpadded data.val).2.Kept ∧ p.Granted (.writeUnpadded data) := by
  have hsize : (BitVec.ofNat 32 data.val.length).toNat = data.val.length :=
    (BitVec.toNat_ofNat _ _).trans (Nat.mod_eq_of_lt data.property)
  unfold Parcel.Granted Parcel.writeUnpadded
  dsimp only
  by_cases hwrap : p.mDataPos + BitVec.ofNat 32 data.val.length < p.mDataPos
  · rw [if_pos hwrap]
    exact ⟨h, by rintro ⟨⟩⟩
  · rw [if_neg hwrap]
    have hend := mt (wraps_iff p _).mpr hwrap
    rw [hsize] at hend
    have hroom := hroomy.resolve_left hend
    rw [← hsize] at hroom
    have hcases := orGrow_roomy h hroom
    generalize p.orGrow (p.mDataPos + BitVec.ofNat 32 data.val.length ≤ p.mDataCapacity)
      (BitVec.ofNat 32 data.val.length) = grown at hcases ⊢
    cases hcases with
    | room q hkept hin =>
      have hlen := hin
      rw [hsize] at hlen
      refine ⟨(hkept.store hlen).finishWrite hin, fun _ => ⟨q.mDataPos.toNat, ?_⟩⟩
      exact List.mem_append_right _ (List.mem_singleton_self _)
    | fails q hkept => exact ⟨hkept, by rintro ⟨⟩⟩

theorem pad4_ne {len : U32} (hsmall : len.toNat + 3 < 2 ^ 32) (hne : pad4 len ≠ len) :
    4 ≤ (pad4 len).toNat := by
  have hpad := pad4_eq_padded hsmall
  have hdiff : padded len.toNat ≠ len.toNat := fun heq =>
    hne (BitVec.eq_of_toNat_eq (by rw [hpad, heq]))
  rw [hpad]
  unfold padded at hdiff ⊢
  omega

theorem maskTail_kept {len size : U32} (h : p.Kept)
    (hin : p.mDataPos.toNat + size.toNat ≤ p.mDataCapacity.toNat)
    (hfour : size ≠ len → 4 ≤ size.toNat) :
    (p.maskTail len size).Kept ∧ (p.maskTail len size).mDataCapacity = p.mDataCapacity ∧
      (p.maskTail len size).mDataPos = p.mDataPos := by
  have hcap := p.mDataCapacity.isLt
  unfold Parcel.maskTail
  by_cases heq : size = len
  · rw [if_pos heq]
    exact ⟨h, rfl, rfl⟩
  · have hfour := hfour heq
    have hle : 4#32 ≤ p.mDataPos + size := by
      rw [BitVec.le_def, BitVec.toNat_add, BitVec.toNat_ofNat]
      omega
    have hat : (p.mDataPos + size - 4#32).toNat + 4 = p.mDataPos.toNat + size.toNat := by
      rw [BitVec.toNat_sub_of_le hle, BitVec.toNat_add, BitVec.toNat_ofNat]
      omega
    rw [if_neg heq]
    refine ⟨h.store ?_, rfl, rfl⟩
    rw [bytes_length]
    change _ + 4 ≤ _
    omega

/-- A pointer that is handed out has room; none is handed out where the call is refused, or memory
runs out. -/
theorem writeInplace_contained {len : U32} (h : p.Kept) (hroomy : Roomy p (.writeInplace len)) :
    (p.writeInplace len).2.Kept ∧
      (∀ d, (p.writeInplace len).1 = some d →
        d + len.toNat ≤ (p.writeInplace len).2.mDataCapacity.toNat) ∧
      ((p.writeInplace len).1 = none → (p.writeInplace len).2.mError = .NO_MEMORY ∨
        (p.Overflows (pad4 len).toNat ∨ p.Refuses (pad4 len).toNat) ∧
          (p.writeInplace len).2 = p) := by
  unfold Parcel.writeInplace
  dsimp only
  by_cases hwrap : p.mDataPos + pad4 len < p.mDataPos
  · rw [if_pos hwrap]
    exact ⟨h, by rintro d ⟨⟩, fun _ => Or.inr ⟨Or.inl ((wraps_iff p _).mp hwrap), rfl⟩⟩
  · rw [if_neg hwrap]
    have hend := mt (wraps_iff p _).mpr hwrap
    have hroomy := hroomy.resolve_left hend
    have hcases := orGrow_roomy h (hroomy.imp_left And.right)
    generalize p.orGrow (p.mDataPos + pad4 len ≤ p.mDataCapacity) (pad4 len) = grown at hcases ⊢
    cases hcases with
    | room q hkept hin hroom =>
      have hsmall := (hroomy.resolve_right hroom).1
      have hle : len.toNat ≤ (pad4 len).toNat := by
        rw [pad4_eq_padded hsmall]
        exact le_padded _
      obtain ⟨htkept, htcap, htpos⟩ := maskTail_kept hkept hin (pad4_ne hsmall)
      refine ⟨htkept.finishWrite (by rw [htcap, htpos]; exact hin), ?_, by rintro ⟨⟩⟩
      rintro d ⟨⟩
      change _ ≤ (q.maskTail len (pad4 len)).mDataCapacity.toNat
      rw [htcap]
      exact (Nat.add_le_add_left hle _).trans hin
    | fails q hkept hwhy =>
      refine ⟨hkept, by rintro d ⟨⟩, fun _ => ?_⟩
      rcases hwhy with herror | ⟨hrefuses, hsame⟩
      · exact Or.inl herror
      · exact Or.inr ⟨Or.inr hrefuses, hsame⟩

theorem write_contained (data : Buffer) (h : p.Kept) (hroomy : Roomy p (.write data)) :
    (p.write data.val).2.Kept ∧ p.Granted (.write data) := by
  have hsize : data.size.toNat = data.val.length :=
    (BitVec.toNat_ofNat _ _).trans (Nat.mod_eq_of_lt data.property)
  have hinplace : Roomy p (.writeInplace data.size) := by
    rcases hroomy with ⟨hsmall, -, hroom⟩ | ⟨-, hover | hrefuses⟩
    · exact Or.inr (Or.inl ⟨by rwa [hsize], hroom⟩)
    · exact Or.inl hover
    · exact Or.inr (Or.inr hrefuses)
  obtain ⟨hkept, hptr, hnone⟩ := writeInplace_contained h hinplace
  rw [hsize] at hptr
  have hdata : BitVec.ofNat 32 data.val.length = data.size := rfl
  unfold Parcel.Granted Parcel.write
  simp only [hdata]
  revert hkept hptr hnone
  rcases p.writeInplace data.size with ⟨_ | d, q⟩
  · intro hkept _ hnone
    refine ⟨hkept, fun hok => Or.inl ?_⟩
    dsimp only at hok hnone
    rcases hnone rfl with herror | ⟨hwhy, hsame⟩
    · rw [herror] at hok
      cases hok
    · rw [hsame] at hok
      rcases hroomy with ⟨-, hend, hroom⟩ | ⟨herror | hnil, -⟩
      · exact absurd hroom (not_roomFor (hwhy.resolve_left hend))
      · exact absurd hok herror
      · exact hnil
  · intro hkept hptr _
    have hin := hptr d rfl
    dsimp only at hkept hin
    exact ⟨hkept.store hin, fun _ => Or.inr ⟨d, rfl, hin⟩⟩

/-- Growing the table is not seen in the data. -/
structure Parcel.SameData (p q : Parcel) : Prop where
  kept : p.Kept → q.Kept
  capacity : q.mDataCapacity = p.mDataCapacity
  pos : q.mDataPos = p.mDataPos
  written : q.written = p.written

def Parcel.TableGrown (p : Parcel) (result : Status × Parcel) : Prop :=
  ∃ q, p.SameData q ∧ (result = (.NO_ERROR, q) ∨ result = (.NO_MEMORY, q))

theorem growObjects_same (p : Parcel) (more : U32) : p.TableGrown (p.growObjects more) := by
  unfold Parcel.growObjects Parcel.malloc
  rcases p.heap.head?.join with _ | fresh
  · refine ⟨_, ?_, .inr rfl⟩
    exact ⟨fun h => h.of_same rfl rfl rfl rfl rfl, rfl, rfl, rfl⟩
  · refine ⟨_, ?_, .inl rfl⟩
    exact ⟨fun h => h.of_same rfl rfl rfl rfl rfl, rfl, rfl, rfl⟩

theorem tableGrown_same (p : Parcel) (grow : Prop) [Decidable grow] (more : U32) :
    p.TableGrown (if grow then p.growObjects more else (.NO_ERROR, p)) := by
  by_cases hgrow : grow
  · rw [if_pos hgrow]
    exact growObjects_same p more
  · rw [if_neg hgrow]
    exact ⟨p, ⟨id, rfl, rfl, rfl⟩, .inl rfl⟩

theorem recordObject_same (p : Parcel) (val : FlatBinderObject) (nullMetaData : Bool) :
    p.SameData (p.recordObject val nullMetaData) := by
  unfold Parcel.recordObject
  split_ifs <;> exact ⟨fun h => h.of_same rfl rfl rfl rfl rfl, rfl, rfl, rfl⟩

theorem putObject_contained (val : FlatBinderObject) (nullMetaData : Bool) (h : p.Kept)
    (hroom : p.mDataPos.toNat + 16 ≤ p.mDataCapacity.toNat) :
    (p.putObject val nullMetaData).2.Kept ∧ ((p.putObject val nullMetaData).1 = .NO_ERROR →
      ∃ d, { off := d, size := 16 } ∈ (p.putObject val nullMetaData).2.written) := by
  have hlen : val.bytes.length = 16 := by simp [FlatBinderObject.bytes]
  have hsame := recordObject_same (p.store p.mDataPos.toNat val.bytes) val nullMetaData
  have hspan : { off := p.mDataPos.toNat, size := 16 } ∈
      (p.store p.mDataPos.toNat val.bytes).written := by
    rw [← hlen]
    exact List.mem_append_right _ (List.mem_singleton_self _)
  rw [← hsame.written] at hspan
  have hkept := hsame.kept (h.store (by rwa [hlen]))
  have hin : ((p.store p.mDataPos.toNat val.bytes).recordObject val nullMetaData).mDataPos.toNat +
      objectSize.toNat ≤
        ((p.store p.mDataPos.toNat val.bytes).recordObject val nullMetaData).mDataCapacity.toNat := by
    rw [hsame.pos, hsame.capacity]
    exact hroom
  unfold Parcel.putObject
  dsimp only
  revert hspan hkept hin
  generalize (p.store p.mDataPos.toNat val.bytes).recordObject val nullMetaData = q
  intro hspan hkept hin
  split_ifs
  · have hfds : ({ q with mHasFds := true, mFdsKnown := true } : Parcel).Kept :=
      hkept.of_same rfl rfl rfl rfl rfl
    exact ⟨hfds.finishWrite hin, fun _ => ⟨_, hspan⟩⟩
  · exact ⟨hkept, by rintro ⟨⟩⟩
  · exact ⟨hkept.finishWrite hin, fun _ => ⟨_, hspan⟩⟩

theorem writeObject_contained (val : FlatBinderObject) (nullMetaData : Bool) (h : p.Kept)
    (hroomy : p.RoomFor 16 ∨ p.Refuses 16) :
    (p.writeObject val nullMetaData).2.Kept ∧ p.Granted (.writeObject val nullMetaData) := by
  have hcases := @orGrow_roomy p h objectSize hroomy
  unfold Parcel.Granted Parcel.writeObject
  dsimp only
  generalize decide (p.mObjects.length < p.mObjectsCapacity.toNat) = enoughObjects
  generalize p.orGrow (p.mDataPos + objectSize ≤ p.mDataCapacity) objectSize = grown at hcases ⊢
  cases hcases with
  | room q hkept hin =>
    cases enoughObjects with
    | true => exact putObject_contained val nullMetaData hkept hin
    | false =>
      obtain ⟨r, hsame, hgrown | hgrown⟩ := growObjects_same q 2#32 <;>
        simp only [Bool.false_eq_true, if_false, hgrown]
      · rw [← hsame.pos, ← hsame.capacity] at hin
        exact putObject_contained val nullMetaData (hsame.kept hkept) hin
      · exact ⟨hsame.kept hkept, by rintro ⟨⟩⟩
  | fails q hkept => exact ⟨hkept, by rintro ⟨⟩⟩

/-! ## Appending -/

theorem appendObjects_contained (dup : ℕ → U32) {objects : List U32} {err : Status} (h : p.Kept)
    (hin : ∀ o ∈ objects, o.toNat + 16 ≤ p.mDataCapacity.toNat) :
    (p.appendObjects dup err objects).2.Kept ∧
      ∀ s ∈ p.written, s ∈ (p.appendObjects dup err objects).2.written := by
  induction objects generalizing p err with
  | nil => exact ⟨h, fun s hs => hs⟩
  | cons o os ih =>
    have hfirst := hin o List.mem_cons_self
    have hone : (p.appendObject dup o).2.Kept ∧
        (p.appendObject dup o).2.mDataCapacity = p.mDataCapacity ∧
          ∀ s ∈ p.written, s ∈ (p.appendObject dup o).2.written := by
      unfold Parcel.appendObject
      dsimp only
      have hrecorded : ({ p with
          mObjects := p.mObjects ++ [o]
          refs := p.refs ++ [.acquire (objectAt p.mem o.toNat)] } : Parcel).Kept :=
        h.of_same rfl rfl rfl rfl rfl
      split_ifs
      all_goals first
        | exact ⟨hrecorded, rfl, fun s hs => hs⟩
        | refine ⟨((hrecorded.store ?_).store ?_).of_same
            rfl rfl rfl rfl rfl, rfl, fun s hs =>
              List.mem_append_left _ (List.mem_append_left _ hs)⟩
          · rw [bytes_length]
            change o.toNat + 8 + 4 ≤ p.mDataCapacity.toNat
            omega
          · rw [bytes_length]
            change o.toNat + 12 + 4 ≤ p.mDataCapacity.toNat
            omega
    rw [Parcel.appendObjects]
    revert hone
    rcases p.appendObject dup o with ⟨err', q⟩
    rintro ⟨hkept, hcapacity, hwritten⟩
    dsimp only at hkept hcapacity hwritten ⊢
    obtain ⟨hrest, hmore⟩ := ih hkept
      fun o' ho' => by rw [hcapacity]; exact hin o' (List.mem_cons_of_mem _ ho')
    exact ⟨hrest, fun s hs => hmore s (hwritten s hs)⟩

theorem appendData_contained (h : p.Kept) {data : List Byte} {len : U32}
    (hlen : data.length = len.toNat)
    (hpos : p.mDataPos.toNat + len.toNat ≤ p.mDataCapacity.toNat)
    (hsize : (p.mDataSize.toNat + len.toNat) % 2 ^ 32 ≤ p.mDataCapacity.toNat) :
    (p.appendData data len).Kept ∧
      { off := p.mDataPos.toNat, size := len.toNat } ∈ (p.appendData data len).written := by
  have hcap := p.mDataCapacity.isLt
  have hstored := h.store (by rwa [hlen])
  refine ⟨⟨⟨?_, hstored.contained.written⟩, hstored.capacity, hstored.owner⟩, ?_⟩
  · change p.mDataSize + len ≤ p.mDataCapacity
    rw [BitVec.le_def, BitVec.toNat_add]
    exact hsize
  · rw [← hlen]
    exact List.mem_append_right _ (List.mem_singleton_self _)

theorem appendFits_iff (p : Parcel) (len : U32) :
    p.mDataSize + len ≤ p.mDataCapacity ↔ p.AppendFits len.toNat := by
  rw [BitVec.le_def, BitVec.toNat_add]
  rfl

/-- The test of `appendFrom` and the growth behind it. -/
theorem orGrow_appends {src : Parcel} {offset len : U32} (h : p.Kept)
    (hroomy : ¬ p.AppendFits len.toNat ∧ p.newSize len.toNat ≤ p.mDataSize.toNat ∨
      p.RoomToAppend src offset len) :
    p.Grown len (p.AppendFits len.toNat) (p.orGrow (p.mDataSize + len ≤ p.mDataCapacity) len) := by
  refine orGrow_grown h (appendFits_iff p len) ?_
  unfold Parcel.RoomToAppend Parcel.appendCapacity at hroomy
  split_ifs at hroomy ⊢ with hfit
  · exact (hroomy.resolve_left fun hrefused => hrefused.1 hfit).1
  · exact hroomy.imp And.right And.left

theorem appendFrom_contained (src : Parcel) {offset len : U32} (dup : ℕ → U32) (h : p.Kept)
    (hroomy : Roomy p (.appendFrom src offset len dup)) :
    (p.appendFrom src offset len dup).2.Kept ∧ p.Granted (.appendFrom src offset len dup) := by
  unfold Parcel.Granted Parcel.appendFrom
  dsimp only
  by_cases hzero : len = 0#32
  · rw [if_pos hzero]
    exact ⟨h, fun _ => Or.inl hzero⟩
  · rw [if_neg hzero]
    by_cases hrange : src.mDataSize < offset ∨ src.mDataSize < len ∨ src.mDataSize < offset + len
    · rw [if_pos hrange]
      exact ⟨h, by rintro ⟨⟩⟩
    · rw [if_neg hrange]
      have hroomy := (hroomy.resolve_left hzero).resolve_left hrange
      have hcases := orGrow_appends h hroomy
      generalize p.orGrow (p.mDataSize + len ≤ p.mDataCapacity) len = grown at hcases ⊢
      cases hcases with
      | room q hkept hpos hnot hsize hlarge =>
        have hspace : (p.mDataSize.toNat + len.toNat) % 2 ^ 32 ≤ q.mDataCapacity.toNat ∧
            ∀ o ∈ src.objectsIn offset len,
              (o - offset + p.mDataPos).toNat + 16 ≤ q.mDataCapacity.toNat := by
          obtain ⟨-, hend, hobjects⟩ := hroomy.resolve_left hnot
          exact ⟨hend.trans hlarge, fun o ho => (hobjects o ho).trans hlarge⟩
        rw [← hsize] at hspace
        obtain ⟨hkept, hspan⟩ := appendData_contained hkept
          (slice_length _ _) hpos hspace.1
        have hin : ∀ o ∈ (src.objectsIn offset len).map fun o => o - offset + p.mDataPos,
            o.toNat + 16 ≤ (q.appendData (slice src.mem offset.toNat len.toNat)
              len).mDataCapacity.toNat := List.forall_mem_map.mpr hspace.2
        dsimp only
        generalize q.appendData (slice src.mem offset.toNat len.toNat) len = appended at *
        obtain ⟨r, hsame, hgrown | hgrown⟩ := tableGrown_same appended
          (src.objectsIn offset len ≠ [] ∧ appended.mObjectsCapacity.toNat <
            appended.mObjects.length + (src.objectsIn offset len).length)
          (BitVec.ofNat 32 (src.objectsIn offset len).length) <;> rw [hgrown]
        · rw [← hsame.capacity] at hin
          rw [← hsame.written] at hspan
          obtain ⟨hdone, hmore⟩ := appendObjects_contained dup (hsame.kept hkept) hin
          exact ⟨hdone, fun _ => Or.inr ⟨_, hmore _ hspan⟩⟩
        · exact ⟨hsame.kept hkept, by rintro ⟨⟩⟩
      | fails q hkept => exact ⟨hkept, by rintro ⟨⟩⟩

/-! ## Runs -/

theorem scanObjects_same (os : List U32) (p : Parcel) :
    (p.scanObjects os).mData = p.mData ∧ (p.scanObjects os).mDataSize = p.mDataSize ∧
      (p.scanObjects os).mDataCapacity = p.mDataCapacity ∧
      (p.scanObjects os).mOwner = p.mOwner ∧ (p.scanObjects os).written = p.written := by
  induction os generalizing p with
  | nil => exact ⟨rfl, rfl, rfl, rfl, rfl⟩
  | cons o os ih =>
    rw [Parcel.scanObjects]
    split_ifs
    · exact ⟨rfl, rfl, rfl, rfl, rfl⟩
    · exact ih (p.touch o.toNat 4)

theorem ipcSetDataReference_kept (p : Parcel) (data : ℕ → Byte) (dataSize : U32)
    (objects : List U32) (relFunc : Bool) :
    (p.ipcSetDataReference data dataSize objects relFunc).Kept := by
  obtain ⟨hdata, hsize, hcapacity, howner, hwritten⟩ :=
    scanObjects_same objects { p.freeDataNoInit.forget with
      mError := .NO_ERROR
      mData := some data
      mDataSize := dataSize
      mDataCapacity := dataSize
      mDataPos := 0#32
      mObjects := objects
      mObjectsCapacity := BitVec.ofNat 32 objects.length
      mNextObjectHint := 0
      mOwner := relFunc
      tableRoom := objects.length }
  refine Parcel.Kept.of_same ?_ hdata hsize hcapacity howner hwritten
  exact ⟨⟨BitVec.le_refl _, by rintro _ ⟨⟩⟩, by rintro ⟨⟩, by rintro ⟨⟩⟩

theorem setDataSize_kept (h : p.Kept) (size : U32) : (p.setDataSize size).2.Kept := by
  have hcases := continueWrite_cases h size
  unfold Parcel.setDataSize
  generalize p.continueWrite size = written at hcases ⊢
  obtain ⟨st, q⟩ := written
  obtain ⟨rfl, hresized⟩ | ⟨rfl, hmemory⟩ := hcases
  · obtain ⟨⟨-, hwritten⟩, hcapacity, howner⟩ := hresized.kept
    exact ⟨⟨BitVec.le_def.mpr hresized.room, hwritten⟩, hcapacity, howner⟩
  · exact hmemory.kept

theorem setDataCapacity_kept (h : p.Kept) (size : U32) : (p.setDataCapacity size).2.Kept := by
  unfold Parcel.setDataCapacity
  split_ifs
  · rcases continueWrite_cases h size with ⟨-, hresized⟩ | ⟨-, hmemory⟩
    · exact hresized.kept
    · exact hmemory.kept
  · exact h

/-- One step that is roomy. -/
theorem after_contained (c : WriteCall) (h : p.Kept) (hroomy : Roomy p c) :
    (p.after c).Kept ∧ p.Granted c := by
  cases c with
  | write data => exact write_contained data h hroomy
  | writeUnpadded data => exact writeUnpadded_contained data h hroomy
  | writeInplace len =>
    obtain ⟨hkept, hptr, -⟩ := writeInplace_contained h hroomy
    exact ⟨hkept, hptr⟩
  | writeInt32 val => exact writeAligned_contained (by decide) h hroomy
  | writeObject val nullMetaData => exact writeObject_contained val nullMetaData h hroomy
  | appendFrom src offset len dup => exact appendFrom_contained src dup h hroomy
  | setDataPosition pos => exact ⟨h.of_same rfl rfl rfl rfl rfl, trivial⟩
  | setDataSize size => exact ⟨setDataSize_kept h size, trivial⟩
  | setDataCapacity size => exact ⟨setDataCapacity_kept h size, trivial⟩
  | ipcSetDataReference data dataSize objects relFunc =>
    exact ⟨ipcSetDataReference_kept p data dataSize objects relFunc, trivial⟩

/-- Along every run whose writes are roomy, whatever the allocations do, the size stays within the
capacity, every byte written lies inside, and a success has room. -/
theorem parcel_writes_inside (heap : List (Option (ℕ → Byte))) (cs : List WriteCall)
    (hroomy : Along writeCallStep Roomy (.initState heap []) cs) :
    Along writeCallStep (fun p c => (p.after c).Contained ∧ p.Granted c)
      (.initState heap []) cs := by
  refine hroomy.imp_invariant (fun p c h hok => ?_) (fun p c q hok hstep h => ?_)
    (kept_initState heap [])
  · obtain ⟨hkept, hgranted⟩ := after_contained c h hok
    exact ⟨hkept.contained, hgranted⟩
  · cases hstep
    exact (after_contained c h hok).1

/-- A parcel with one descriptor in it, to append from. -/
def descriptorParcel : Parcel :=
  ((Parcel.initState [some fun _ => 0#8, some fun _ => 0#8] []).writeFileDescriptor 5#32 true).2

theorem parcel_writes_inside_mixed :
    Along writeCallStep (fun p c => (p.after c).Contained ∧ p.Granted c)
      (.initState [some fun _ => 0#8, none, some fun _ => 1#8, some fun _ => 2#8, some fun _ => 3#8,
        some fun _ => 4#8, some fun _ => 5#8] [])
      [.writeInt32 7#32, .writeInt32 8#32, .write ⟨[1#8, 2#8, 3#8, 4#8, 5#8], by decide⟩,
        .setDataPosition 4#32, .writeObject (StrongBinder.remoteBinder 3#32).flatten false,
        .appendFrom descriptorParcel 0#32 16#32 (fun _ => 9#32), .setDataSize 24#32,
        .ipcSetDataReference (fun _ => 0#8) 16#32 [] true, .setDataPosition 16#32,
        .writeUnpadded ⟨[1#8], by decide⟩, .writeInplace 3#32, .setDataCapacity 100#32] :=
  parcel_writes_inside _ _ (by decide +kernel)

/-- The data grows from its size: behind a position beyond it there is no room. -/
theorem writes_outside :
    ¬ ∀ (heap : List (Option (ℕ → Byte))) (cs : List WriteCall),
      Along writeCallStep (fun p c => (p.after c).Contained ∧ p.Granted c)
        (.initState heap []) cs := by
  intro h
  have hrun := h [some fun _ => 0#8, some fun _ => 0#8]
    [.writeInt32 7#32, .setDataPosition 1000#32, .writeInt32 8#32]
  have hwritten := ((hrun.2 _ rfl).2 _ rfl).1.1.written { off := 1000, size := 4 } (by decide +kernel)
  exact absurd hwritten (by decide +kernel)

end AudioFlinger.Binder
