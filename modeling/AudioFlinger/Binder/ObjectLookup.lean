import AudioFlinger.Binder.ReadLayout

/-!
# Looking up objects in any order

The search of `readObject` does not depend on the hint that it starts from, so
reading the parcel in any order leaves every object of the table in reach. The
one object that is handed out and is not there has its end past `2 ^ 32`: the
sum wraps, and the test against `mDataSize` passes.
-/

namespace AudioFlinger.Binder

open Foundation Bytes RingMemory

/-- What moves the position or the hint of a parcel that is being read. -/
inductive Visit
  | setDataPosition (pos : U32)
  | call (c : ReadCall)

def Parcel.visit (p : Parcel) : Visit → Parcel
  | .setDataPosition pos => p.setDataPosition pos
  | .call c => p.call c

def Parcel.visits (p : Parcel) (vs : List Visit) : Parcel := vs.foldl Parcel.visit p

/-- The position is in the table, and the whole object lies in the data. -/
def Parcel.Present (p : Parcel) : Prop :=
  p.mDataPos ∈ p.mObjects ∧ p.mDataPos.toNat + 16 ≤ p.mDataSize.toNat

instance (p : Parcel) : Decidable p.Present := inferInstanceAs (Decidable (_ ∧ _))

/-- `readObject(true)` hands out just the objects that are there, and no hint hides one later. -/
structure Parcel.FindsObjects (p : Parcel) : Prop where
  here : (p.readObject true).1 = if p.Present then some p.mDataPos.toNat else none
  later : ∀ vs, ((p.readObject true).2.visits vs).Present → ∀ nullMetaData,
    (((p.readObject true).2.visits vs).readObject nullMetaData).1 =
      some ((p.readObject true).2.visits vs).mDataPos.toNat

variable {p q : Parcel}

/-! ## The table stays -/

theorem readAligned_objects (p : Parcel) (w : ℕ) :
    (p.readAligned w).2.mObjects = p.mObjects := by
  unfold Parcel.readAligned
  dsimp only
  split_ifs <;> rfl

theorem readInt32_objects (p : Parcel) : p.readInt32.2.mObjects = p.mObjects :=
  readAligned_objects p 32

theorem readInplace_objects (p : Parcel) (len : U32) :
    (p.readInplace len).2.mObjects = p.mObjects := by
  unfold Parcel.readInplace
  split_ifs <;> rfl

theorem read_objects (p : Parcel) (len : U32) : (p.read len).2.mObjects = p.mObjects := by
  unfold Parcel.read
  split_ifs <;> rfl

theorem readCString_objects (p : Parcel) : p.readCString.2.mObjects = p.mObjects := by
  unfold Parcel.readCString
  dsimp only
  split_ifs
  · rfl
  · split <;> rfl

theorem readString8_objects (p : Parcel) : p.readString8.2.mObjects = p.mObjects := by
  have hword := readInt32_objects p
  unfold Parcel.readString8
  revert hword
  rcases p.readInt32 with ⟨size, q⟩
  intro hword
  dsimp only at hword ⊢
  split_ifs
  · have htext := readInplace_objects q (size + 1#32)
    revert htext
    rcases q.readInplace (size + 1#32) with ⟨_ | str, r⟩
    · exact fun htext => htext.trans hword
    · exact fun htext => htext.trans hword
  · exact hword

theorem readString16Inplace_objects (p : Parcel) :
    p.readString16Inplace.2.2.mObjects = p.mObjects := by
  have hword := readInt32_objects p
  unfold Parcel.readString16Inplace
  revert hword
  rcases p.readInt32 with ⟨size, q⟩
  intro hword
  dsimp only at hword ⊢
  split_ifs
  · have htext := readInplace_objects q ((size + 1#32) * 2#32)
    revert htext
    rcases q.readInplace ((size + 1#32) * 2#32) with ⟨_ | str, r⟩
    · exact fun htext => htext.trans hword
    · exact fun htext => htext.trans hword
  · exact hword

theorem readExceptionCode_objects (p : Parcel) :
    p.readExceptionCode.2.mObjects = p.mObjects := by
  have hcode := readInt32_objects p
  unfold Parcel.readExceptionCode
  revert hcode
  rcases p.readInt32 with ⟨code, q⟩
  intro hcode
  dsimp only at hcode ⊢
  split_ifs
  · exact (readInt32_objects q).trans hcode
  · exact hcode

theorem lookup_objects (p : Parcel) (dpos : U32) : (p.lookup dpos).2.mObjects = p.mObjects := by
  unfold Parcel.lookup
  split <;> rfl

theorem readObject_objects (p : Parcel) (nullMetaData : Bool) :
    (p.readObject nullMetaData).2.mObjects = p.mObjects := by
  unfold Parcel.readObject
  dsimp only
  set q : Parcel := { p with mDataPos := p.mDataPos + objectSize } with hq
  have hpeek : (q.peekNull p.mDataPos.toNat).2.mObjects = p.mObjects := (peekNull_keeps q _).2
  split_ifs
  · exact lookup_objects q p.mDataPos
  · exact hpeek
  · exact (lookup_objects _ _).trans hpeek
  · rfl

theorem visit_objects (p : Parcel) (v : Visit) : (p.visit v).mObjects = p.mObjects := by
  cases v with
  | setDataPosition pos => rfl
  | call c =>
    cases c with
    | read len => exact read_objects p len
    | readInplace len => exact readInplace_objects p len
    | readInt32 => exact readAligned_objects p 32
    | readInt64 => exact readAligned_objects p 64
    | readCString => exact readCString_objects p
    | readString8 => exact readString8_objects p
    | readString16Inplace => exact readString16Inplace_objects p
    | readExceptionCode => exact readExceptionCode_objects p
    | readObject nullMetaData => exact readObject_objects p nullMetaData

theorem visits_objects (vs : List Visit) (p : Parcel) : (p.visits vs).mObjects = p.mObjects := by
  induction vs generalizing p with
  | nil => rfl
  | cons v vs ih => exact (ih (p.visit v)).trans (visit_objects p v)

/-! ## One lookup -/

/-- In an increasing table the hint does not matter. -/
theorem lookup_eq (hsorted : p.mObjects.Pairwise (· < ·)) (dpos : U32) :
    (p.lookup dpos).1 = if dpos ∈ p.mObjects then some dpos.toNat else none := by
  unfold Parcel.lookup
  by_cases hmem : dpos ∈ p.mObjects
  · obtain ⟨k, -, hfound⟩ := findObject_of_mem hsorted hmem p.mNextObjectHint
    rw [hfound, if_pos hmem]
  · rw [if_neg hmem]
    rcases hfound : findObject p.mObjects p.mNextObjectHint dpos with _ | opos
    · rfl
    · exact absurd (List.mem_of_getElem? (findObject_some hfound)) hmem

/-- The test of `readObject`, on the numbers. -/
theorem objectTest_iff (p : Parcel) :
    p.mDataPos + objectSize ≤ p.mDataSize ↔
      (p.mDataPos.toNat + 16) % 2 ^ 32 ≤ p.mDataSize.toNat := by
  rw [BitVec.le_def, BitVec.toNat_add]
  rfl

theorem readObject_eq (hsorted : p.mObjects.Pairwise (· < ·)) :
    (p.readObject true).1 =
      if p.mDataPos ∈ p.mObjects ∧ (p.mDataPos.toNat + 16) % 2 ^ 32 ≤ p.mDataSize.toNat then
        some p.mDataPos.toNat else none := by
  unfold Parcel.readObject
  dsimp only
  by_cases htest : p.mDataPos + objectSize ≤ p.mDataSize
  · have hroom := (objectTest_iff p).mp htest
    have hfound := lookup_eq (p := { p with mDataPos := p.mDataPos + objectSize }) hsorted p.mDataPos
    rw [if_pos htest, if_pos rfl, hfound]
    exact if_congr (and_iff_left hroom).symm rfl rfl
  · rw [if_neg htest, if_neg fun hthere => htest ((objectTest_iff p).mpr hthere.2)]

/-- An object that is there is found, with either argument. -/
theorem readObject_of_present (hsorted : p.mObjects.Pairwise (· < ·)) (hthere : p.Present)
    (nullMetaData : Bool) : (p.readObject nullMetaData).1 = some p.mDataPos.toNat := by
  have hlt := p.mDataSize.isLt
  have hin := hthere.2
  have hmod : (p.mDataPos.toNat + 16) % 2 ^ 32 = p.mDataPos.toNat + 16 :=
    Nat.mod_eq_of_lt (by omega)
  cases nullMetaData with
  | true =>
    rw [readObject_eq hsorted, hmod]
    exact if_pos hthere
  | false =>
    have htest := (objectTest_iff p).mpr (hmod.trans_le hin)
    unfold Parcel.readObject
    dsimp only
    rw [if_pos htest, if_neg Bool.false_ne_true]
    set q : Parcel := { p with mDataPos := p.mDataPos + objectSize } with hq
    have hkeeps : (q.peekNull p.mDataPos.toNat).2.mObjects = p.mObjects := (peekNull_keeps q _).2
    split_ifs
    · rfl
    · rw [lookup_eq (by rw [hkeeps]; exact hsorted), hkeeps, if_pos hthere.1]

/-- Every hint and every order of reading: what is handed out is there unless its end wraps. -/
theorem readObject_finds_iff (hsorted : p.mObjects.Pairwise (· < ·)) :
    p.FindsObjects ↔
      ¬ (p.mDataPos ∈ p.mObjects ∧ 2 ^ 32 ≤ p.mDataPos.toNat + 16 ∧
        (p.mDataPos.toNat + 16) % 2 ^ 32 ≤ p.mDataSize.toNat) := by
  have hlt := p.mDataSize.isLt
  constructor
  · rintro ⟨hhere, -⟩ ⟨hmem, hwraps, htest⟩
    rw [readObject_eq hsorted, if_pos ⟨hmem, htest⟩,
      if_neg fun hthere : p.Present => by have := hthere.2; omega] at hhere
    cases hhere
  · intro hends
    refine ⟨?_, fun vs hthere nullMetaData => readObject_of_present ?_ hthere nullMetaData⟩
    · rw [readObject_eq hsorted]
      refine if_congr (and_congr_right fun hmem => ?_) rfl rfl
      by_cases hwraps : 2 ^ 32 ≤ p.mDataPos.toNat + 16
      · have htest : ¬ (p.mDataPos.toNat + 16) % 2 ^ 32 ≤ p.mDataSize.toNat :=
          fun h => hends ⟨hmem, hwraps, h⟩
        exact ⟨fun h => absurd h htest, fun h => by omega⟩
      · rw [Nat.mod_eq_of_lt (by omega)]
    · rw [visits_objects, readObject_objects]
      exact hsorted

/-- A parcel of two objects, with a hint past the end of the table. -/
def twoObjects : Parcel :=
  { Parcel.initState [] [] with
    mDataSize := 64#32, mDataPos := 16#32, mObjects := [16#32, 48#32], mNextObjectHint := 7 }

theorem readObject_finds_iff_twoObjects :
    twoObjects.mObjects.Pairwise (· < ·) ∧ twoObjects.FindsObjects :=
  ⟨by decide, (readObject_finds_iff (p := twoObjects) (by decide)).mpr (by decide)⟩

/-- The table has an object sixteen bytes before the end of the words, and there is no data. -/
def lastObject : Parcel :=
  { Parcel.initState [] [] with mDataPos := 0xfffffff0#32, mObjects := [0xfffffff0#32] }

theorem lastObject_outside :
    lastObject.mObjects.Pairwise (· < ·) ∧ ¬ lastObject.Present ∧
      (lastObject.readObject true).1 = some 0xfffffff0 ∧ ¬ lastObject.FindsObjects :=
  ⟨by decide, by decide, by decide, fun h => absurd h.here (by decide)⟩

end AudioFlinger.Binder
