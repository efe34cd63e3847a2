import AudioFlinger.Binder.Read
import AudioFlinger.Foundation.Machine

/-!
# What the readers touch

Every byte read and every region handed out lies in `[0, mDataSize)`, as long as
no test of a reader wraps (`Sound`): a size within three of the word rounds to
zero, and a position that an exception header has moved can lie past the end.
-/

namespace AudioFlinger.Binder

open Foundation Bytes RingMemory Machine

inductive ReadCall
  | read (len : U32)
  | readInplace (len : U32)
  | readInt32
  | readInt64
  | readCString
  | readString8
  | readString16Inplace
  | readExceptionCode
  | readObject (nullMetaData : Bool)

inductive ReadEvent
  | ipcSetDataReference (data : ℕ → Byte) (dataSize : U32) (objects : List U32) (relFunc : Bool)
  | setData (buffer : List Byte)
  | call (c : ReadCall)

def Parcel.call (p : Parcel) : ReadCall → Parcel
  | .read len => (p.read len).2
  | .readInplace len => (p.readInplace len).2
  | .readInt32 => p.readInt32.2
  | .readInt64 => p.readInt64.2
  | .readCString => p.readCString.2
  | .readString8 => p.readString8.2
  | .readString16Inplace => p.readString16Inplace.2.2
  | .readExceptionCode => p.readExceptionCode.2
  | .readObject nullMetaData => (p.readObject nullMetaData).2

def readStep (p : Parcel) : ReadEvent → Option Parcel
  | .ipcSetDataReference data dataSize objects relFunc =>
    some (p.ipcSetDataReference data dataSize objects relFunc)
  | .setData buffer => some (p.setData buffer).2
  | .call c => some (p.call c)

def Span.Inside (n : U32) (s : Span) : Prop := s.off + s.size ≤ n.toNat

instance (n : U32) (s : Span) : Decidable (s.Inside n) := inferInstanceAs (Decidable (_ ≤ _))

/-- All that was read, and all that was handed out, lies inside the data. -/
def Parcel.Safe (p : Parcel) : Prop :=
  (∀ s ∈ p.touched, s.Inside p.mDataSize) ∧ ∀ s ∈ p.lent, s.Inside p.mDataSize

/-! ## The condition -/

/-- `n` bytes from the position on end below `2 ^ 32`, or are refused all the same. -/
def Parcel.EndFits (p : Parcel) (n : ℕ) : Prop :=
  p.mDataPos.toNat + n < 2 ^ 32 ∨ p.mDataSize.toNat + 2 ^ 32 < p.mDataPos.toNat + n

/-- A size that rounds up in the word, a position past the end, or bytes that are there. -/
def Parcel.PadFits (p : Parcel) (len : U32) : Prop :=
  len.toNat + 3 < 2 ^ 32 ∨ p.mDataSize.toNat < p.mDataPos.toNat ∨
    p.mDataPos.toNat + len.toNat ≤ p.mDataSize.toNat

/-- The word at the position is there and has this value. -/
def Parcel.Next (p : Parcel) (x : U32) : Prop :=
  p.mDataPos.toNat + 4 ≤ p.mDataSize.toNat ∧ load 32 p.mem p.mDataPos.toNat = x

/-- The tests of a reader do not wrap. -/
def Parcel.Sound (p : Parcel) : ReadCall → Prop
  | .read len => p.PadFits len
  | .readInplace len => p.PadFits len
  | .readInt32 => p.EndFits 4
  | .readInt64 => p.EndFits 8
  | .readCString => p.mDataPos.toNat ≤ p.mDataSize.toNat
  | .readString8 => p.EndFits 4
  | .readString16Inplace => p.EndFits 4 ∧ ¬ p.Next 0x7ffffffe#32
  | .readExceptionCode =>
    p.EndFits 4 ∧ (p.Next EX_HAS_REPLY_HEADER → p.mDataPos.toNat + 8 < 2 ^ 32)
  | .readObject nullMetaData =>
    p.EndFits 16 ∨ nullMetaData = true ∧ p.mDataPos ∉ p.mObjects

/-- Each offset up to the first file descriptor has its type inside the data. -/
def TableInside (data : ℕ → Byte) (dataSize : U32) : List U32 → Prop
  | [] => True
  | o :: os =>
    o.toNat + 4 ≤ dataSize.toNat ∧
      (load 32 data o.toNat ≠ BINDER_TYPE_FD → TableInside data dataSize os)

def SoundEvent (p : Parcel) : ReadEvent → Prop
  | .ipcSetDataReference data dataSize objects _ => TableInside data dataSize objects
  | .setData _ => True
  | .call c => p.Sound c

instance (p : Parcel) (n : ℕ) : Decidable (p.EndFits n) := inferInstanceAs (Decidable (_ ∨ _))

instance (p : Parcel) (len : U32) : Decidable (p.PadFits len) :=
  inferInstanceAs (Decidable (_ ∨ _))

instance (p : Parcel) (x : U32) : Decidable (p.Next x) := inferInstanceAs (Decidable (_ ∧ _))

instance (p : Parcel) : ∀ c, Decidable (p.Sound c)
  | .read len => inferInstanceAs (Decidable (p.PadFits len))
  | .readInplace len => inferInstanceAs (Decidable (p.PadFits len))
  | .readInt32 => inferInstanceAs (Decidable (p.EndFits 4))
  | .readInt64 => inferInstanceAs (Decidable (p.EndFits 8))
  | .readCString => inferInstanceAs (Decidable (_ ≤ _))
  | .readString8 => inferInstanceAs (Decidable (p.EndFits 4))
  | .readString16Inplace => inferInstanceAs (Decidable (_ ∧ _))
  | .readExceptionCode => inferInstanceAs (Decidable (_ ∧ _))
  | .readObject _ => inferInstanceAs (Decidable (_ ∨ _))

instance decidableTableInside (data : ℕ → Byte) (dataSize : U32) :
    ∀ objects, Decidable (TableInside data dataSize objects)
  | [] => isTrue trivial
  | _ :: os =>
    have : Decidable (TableInside data dataSize os) := decidableTableInside data dataSize os
    inferInstanceAs (Decidable (_ ∧ (_ → _)))

instance (p : Parcel) : ∀ e, Decidable (SoundEvent p e)
  | .ipcSetDataReference _ _ _ _ => inferInstanceAs (Decidable (TableInside _ _ _))
  | .setData _ => isTrue trivial
  | .call c => inferInstanceAs (Decidable (p.Sound c))

/-! ## Touching and lending -/

variable {p : Parcel}

theorem Parcel.Safe.touch (h : p.Safe) {off size : ℕ} (hin : off + size ≤ p.mDataSize.toNat) :
    (p.touch off size).Safe := by
  refine ⟨?_, h.2⟩
  simp only [Parcel.touch, List.forall_mem_append, List.forall_mem_singleton]
  exact ⟨h.1, hin⟩

theorem Parcel.Safe.lend (h : p.Safe) {off size : ℕ} (hin : off + size ≤ p.mDataSize.toNat) :
    (p.lend off size).Safe := by
  refine ⟨h.1, ?_⟩
  simp only [Parcel.lend, List.forall_mem_append, List.forall_mem_singleton]
  exact ⟨h.2, hin⟩

theorem Parcel.Safe.setDataPosition (h : p.Safe) (pos : U32) : (p.setDataPosition pos).Safe := h

/-- A test of `n` bytes that passes has room for them. -/
theorem room_of_test {n : U32} (hfits : p.EndFits n.toNat)
    (htest : p.mDataPos + n ≤ p.mDataSize) :
    p.mDataPos.toNat + n.toNat ≤ p.mDataSize.toNat := by
  have hle := BitVec.le_def.mp htest
  rw [BitVec.toNat_add] at hle
  have hpos := p.mDataPos.isLt
  have hn := n.isLt
  unfold Parcel.EndFits at hfits
  omega

theorem room_of_holds {len : U32} (hfits : p.PadFits len) (h : p.Holds len) :
    p.mDataPos.toNat + len.toNat ≤ p.mDataSize.toNat := by
  obtain ⟨hno, hle⟩ := h
  rw [BitVec.le_def, BitVec.toNat_add] at hno hle
  rcases hfits with hlen | hpast | hin
  · rw [pad4_toNat hlen] at hno hle
    have hpos := p.mDataPos.isLt
    omega
  · omega
  · exact hin

theorem padFits_of_lt {len : U32} (h : len.toNat + 3 < 2 ^ 32) : p.PadFits len := Or.inl h

/-! ## The readers -/

theorem safe_read (h : p.Safe) {len : U32} (hfits : p.PadFits len) : (p.read len).2.Safe := by
  unfold Parcel.read
  split_ifs with hholds
  · exact h.touch (room_of_holds hfits hholds)
  · exact h

theorem safe_readInplace (h : p.Safe) {len : U32} (hfits : p.PadFits len) :
    (p.readInplace len).2.Safe := by
  unfold Parcel.readInplace
  split_ifs with hholds
  · exact h.lend (room_of_holds hfits hholds)
  · exact h

theorem safe_readAligned (h : p.Safe) {w : ℕ} (hw : w / 8 < 2 ^ 32) (hfits : p.EndFits (w / 8)) :
    (p.readAligned w).2.Safe := by
  have hsize : (BitVec.ofNat 32 (w / 8)).toNat = w / 8 :=
    (BitVec.toNat_ofNat _ _).trans (Nat.mod_eq_of_lt hw)
  unfold Parcel.readAligned
  dsimp only
  split_ifs with htest
  · have hin := room_of_test (n := BitVec.ofNat 32 (w / 8)) (by rwa [hsize]) htest
    rw [hsize] at hin
    exact h.touch hin
  · exact h

/-- A word is read where there is one; else the parcel stays as it is. -/
theorem readInt32_eq (hfits : p.EndFits 4) :
    p.readInt32 =
      if p.mDataPos.toNat + 4 ≤ p.mDataSize.toNat then
        (load 32 p.mem p.mDataPos.toNat,
          { p.touch p.mDataPos.toNat 4 with mDataPos := p.mDataPos + 4#32 })
      else (0#32, p) := by
  have hiff : p.mDataPos + 4#32 ≤ p.mDataSize ↔ p.mDataPos.toNat + 4 ≤ p.mDataSize.toNat := by
    refine ⟨room_of_test (n := 4#32) hfits, fun hin => ?_⟩
    have hlt := p.mDataSize.isLt
    rw [BitVec.le_def, BitVec.toNat_add]
    exact (Nat.mod_le _ _).trans hin
  unfold Parcel.readInt32 Parcel.readAligned
  dsimp only
  by_cases hin : p.mDataPos.toNat + 4 ≤ p.mDataSize.toNat
  · rw [if_pos (hiff.mpr hin), if_pos hin]
    rfl
  · rw [if_neg (mt hiff.mp hin), if_neg hin]
    rfl

theorem memchr_some {mem : ℕ → Byte} {pos n len : ℕ} (h : memchr mem pos n = some len) :
    len < n := by
  induction n generalizing pos len with
  | zero => cases h
  | succ n ih =>
    rw [memchr] at h
    split_ifs at h
    · cases h
      exact Nat.succ_pos n
    · obtain ⟨k, hk, rfl⟩ := Option.map_eq_some_iff.mp h
      exact Nat.succ_lt_succ (ih hk)

theorem safe_readCString (h : p.Safe) (hpos : p.mDataPos.toNat ≤ p.mDataSize.toNat) :
    p.readCString.2.Safe := by
  have havail : (p.mDataSize - p.mDataPos).toNat = p.mDataSize.toNat - p.mDataPos.toNat :=
    BitVec.toNat_sub_of_le (BitVec.le_def.mpr hpos)
  unfold Parcel.readCString
  dsimp only
  split_ifs
  · exact h
  · rcases hfound : memchr p.mem p.mDataPos.toNat (p.mDataSize - p.mDataPos).toNat with _ | len
    · exact h.touch (by omega)
    · have hlen := memchr_some hfound
      have hin : p.mDataPos.toNat + (len + 1) ≤ p.mDataSize.toNat := by omega
      exact (h.touch hin).lend hin

/-- Below `INT32_MAX` a length is what it says. -/
theorem toNat_lt_of_toInt {x : U32} (hnonneg : 0 ≤ x.toInt) (hmax : x.toInt < INT32_MAX) :
    x.toNat < 2 ^ 31 - 1 := by
  unfold INT32_MAX at hmax
  rw [BitVec.toInt_eq_toNat_cond] at hnonneg hmax
  have hx := x.isLt
  split_ifs at hnonneg hmax <;> omega

theorem succ_toNat {x : U32} (hx : x.toNat < 2 ^ 31 - 1) : (x + 1#32).toNat = x.toNat + 1 := by
  rw [BitVec.toNat_add]
  exact Nat.mod_eq_of_lt (Nat.add_lt_of_lt_sub (hx.trans (by decide)))

theorem units_size {x : U32} (hx : x.toNat < 2 ^ 31 - 1) :
    ((x + 1#32) * 2#32).toNat = 2 * (x.toNat + 1) := by
  rw [BitVec.toNat_mul, succ_toNat hx, BitVec.toNat_ofNat]
  omega

theorem safe_readString8 (h : p.Safe) (hfits : p.EndFits 4) : p.readString8.2.Safe := by
  have hword : p.readInt32.2.Safe := safe_readAligned h (w := 32) (by decide) hfits
  unfold Parcel.readString8
  dsimp only
  by_cases hsize : 0 < p.readInt32.1.toInt ∧ p.readInt32.1.toInt < INT32_MAX
  · rw [if_pos hsize]
    have hlt := toNat_lt_of_toInt hsize.1.le hsize.2
    have hlen := succ_toNat hlt
    have hpad : p.readInt32.2.PadFits (p.readInt32.1 + 1#32) := padFits_of_lt (by omega)
    have hget := safe_readInplace hword hpad
    revert hget
    unfold Parcel.readInplace
    split_ifs with hholds
    · intro hget
      have hin := room_of_holds hpad hholds
      exact hget.touch (by change p.readInt32.2.mDataPos.toNat + _ ≤ p.readInt32.2.mDataSize.toNat; omega)
    · exact id
  · rw [if_neg hsize]
    exact hword

theorem safe_readString16Inplace (h : p.Safe) (hfits : p.EndFits 4)
    (hlen : ¬ p.Next 0x7ffffffe#32) : p.readString16Inplace.2.2.Safe := by
  have hword : p.readInt32.2.Safe := safe_readAligned h (w := 32) (by decide) hfits
  have hne : p.readInt32.1 ≠ 0x7ffffffe#32 := by
    rw [readInt32_eq hfits]
    split_ifs with hin
    · exact fun heq => hlen ⟨hin, heq⟩
    · have hzero : 0#32 ≠ 0x7ffffffe#32 := by decide
      exact hzero
  unfold Parcel.readString16Inplace
  dsimp only
  by_cases hsize : 0 ≤ p.readInt32.1.toInt ∧ p.readInt32.1.toInt < INT32_MAX
  · rw [if_pos hsize]
    have hlt := toNat_lt_of_toInt hsize.1 hsize.2
    have hunits := units_size hlt
    have htop : p.readInt32.1.toNat ≠ 0x7ffffffe := fun heq => hne (BitVec.eq_of_toNat_eq heq)
    have hpad : p.readInt32.2.PadFits ((p.readInt32.1 + 1#32) * 2#32) := padFits_of_lt (by omega)
    have hget := safe_readInplace hword hpad
    revert hget
    unfold Parcel.readInplace
    split_ifs with hholds
    · intro hget
      have hin := room_of_holds hpad hholds
      rw [hunits] at hin
      exact hget.lend hin
    · exact id
  · rw [if_neg hsize]
    exact hword

theorem safe_readExceptionCode (h : p.Safe) (hfits : p.EndFits 4)
    (hheader : p.Next EX_HAS_REPLY_HEADER → p.mDataPos.toNat + 8 < 2 ^ 32) :
    p.readExceptionCode.2.Safe := by
  have hword : p.readInt32.2.Safe := safe_readAligned h (w := 32) (by decide) hfits
  have hagain : p.readInt32.1 = EX_HAS_REPLY_HEADER → p.readInt32.2.EndFits 4 := by
    rw [readInt32_eq hfits]
    split_ifs with hin
    · intro hcode
      have hbound := hheader ⟨hin, hcode⟩
      refine Or.inl ?_
      dsimp only
      rw [BitVec.toNat_add, BitVec.toNat_ofNat]
      omega
    · intro hcode
      have hne : 0#32 ≠ EX_HAS_REPLY_HEADER := by decide
      exact absurd hcode hne
  unfold Parcel.readExceptionCode
  dsimp only
  by_cases hcode : p.readInt32.1 = EX_HAS_REPLY_HEADER
  · rw [if_pos hcode]
    exact (safe_readAligned hword (w := 32) (by decide) (hagain hcode)).setDataPosition _
  · rw [if_neg hcode]
    exact hword

/-! ## Objects -/

theorem searchForward_le (objects : List U32) (dpos : U32) (k opos : ℕ) :
    searchForward objects dpos k opos ≤ opos + k := by
  induction k generalizing opos with
  | zero => exact le_rfl
  | succ k ih =>
    rw [searchForward]
    split_ifs
    · exact (ih (opos + 1)).trans (by omega)
    · exact Nat.le_add_right _ _

theorem searchBackward_le (objects : List U32) (dpos : U32) (opos : ℕ) :
    searchBackward objects dpos opos ≤ opos := by
  induction opos with
  | zero => exact le_rfl
  | succ opos ih =>
    rw [searchBackward]
    split_ifs
    · exact ih.trans (Nat.le_succ opos)
    · exact le_rfl

/-- The search only finds what is in the table. -/
theorem findObject_some {objects : List U32} {hint opos : ℕ} {dpos : U32}
    (h : findObject objects hint dpos = some opos) : objects[opos]? = some dpos := by
  have hget : ∀ {i}, i < objects.length → objects.getD i 0#32 = dpos → objects[i]? = some dpos := by
    intro i hi heq
    rw [← heq, List.getD_eq_getElem?_getD, List.getElem?_eq_getElem hi, Option.getD_some]
  unfold findObject at h
  dsimp only at h
  by_cases hnil : objects = []
  · rw [if_pos hnil] at h
    cases h
  · rw [if_neg hnil] at h
    have hlen : 0 < objects.length := List.length_pos_iff.mpr hnil
    have hfront : (if hint < objects.length then
        searchForward objects dpos (objects.length - 1 - hint) hint else objects.length - 1) <
          objects.length := by
      split_ifs
      · have hle := searchForward_le objects dpos (objects.length - 1 - hint) hint
        omega
      · omega
    revert h hfront
    generalize (if hint < objects.length then
        searchForward objects dpos (objects.length - 1 - hint) hint else objects.length - 1) = front
    intro h hfront
    split_ifs at h with hhere hback
    · cases h
      exact hget hfront hhere
    · cases h
      exact hget ((searchBackward_le objects dpos front).trans_lt hfront) hback

theorem safe_lookup (h : p.Safe) {dpos : U32}
    (hin : dpos ∈ p.mObjects → dpos.toNat + 16 ≤ p.mDataSize.toNat) : (p.lookup dpos).2.Safe := by
  unfold Parcel.lookup
  rcases hfound : findObject p.mObjects p.mNextObjectHint dpos with _ | opos
  · exact h
  · exact h.lend (hin (List.mem_of_getElem? (findObject_some hfound)))

theorem peekNull_keeps (p : Parcel) (off : ℕ) :
    (p.peekNull off).2.mDataSize = p.mDataSize ∧ (p.peekNull off).2.mObjects = p.mObjects := by
  unfold Parcel.peekNull
  dsimp only
  split_ifs <;> exact ⟨rfl, rfl⟩

theorem safe_peekNull (h : p.Safe) {off : ℕ} (hin : off + 16 ≤ p.mDataSize.toNat) :
    (p.peekNull off).2.Safe := by
  have hcookie : (p.touch (off + 12) 4).Safe := h.touch (by omega)
  unfold Parcel.peekNull
  dsimp only
  split_ifs
  · exact hcookie.touch (show off + 8 + 4 ≤ p.mDataSize.toNat by omega)
  · exact hcookie

theorem safe_readObject (h : p.Safe) (nullMetaData : Bool)
    (hfits : p.EndFits 16 ∨ nullMetaData = true ∧ p.mDataPos ∉ p.mObjects) :
    (p.readObject nullMetaData).2.Safe := by
  unfold Parcel.readObject
  dsimp only
  by_cases htest : p.mDataPos + objectSize ≤ p.mDataSize
  · rw [if_pos htest]
    set q : Parcel := { p with mDataPos := p.mDataPos + objectSize } with hq
    have hsafe : q.Safe := h
    have hroom : p.EndFits 16 → p.mDataPos.toNat + 16 ≤ q.mDataSize.toNat :=
      fun hend => room_of_test (n := objectSize) hend htest
    cases nullMetaData with
    | true =>
      refine safe_lookup hsafe fun hmem => ?_
      rcases hfits with hend | ⟨-, hnot⟩
      · exact hroom hend
      · exact absurd hmem hnot
    | false =>
      rcases hfits with hend | ⟨hnull, -⟩
      · have hpeek := safe_peekNull hsafe (hroom hend)
        obtain ⟨hsize, hobjects⟩ := peekNull_keeps q p.mDataPos.toNat
        have hin : p.mDataPos.toNat + 16 ≤ (q.peekNull p.mDataPos.toNat).2.mDataSize.toNat := by
          rw [hsize]
          exact hroom hend
        rw [if_neg Bool.false_ne_true]
        split_ifs
        · exact hpeek.lend hin
        · exact safe_lookup hpeek fun _ => hin
      · cases hnull
  · rw [if_neg htest]
    exact h

theorem safe_call (h : p.Safe) {c : ReadCall} (hsound : p.Sound c) : (p.call c).Safe := by
  cases c with
  | read len => exact safe_read h hsound
  | readInplace len => exact safe_readInplace h hsound
  | readInt32 => exact safe_readAligned h (w := 32) (by decide) hsound
  | readInt64 => exact safe_readAligned h (w := 64) (by decide) hsound
  | readCString => exact safe_readCString h hsound
  | readString8 => exact safe_readString8 h hsound
  | readString16Inplace => exact safe_readString16Inplace h hsound.1 hsound.2
  | readExceptionCode => exact safe_readExceptionCode h hsound.1 hsound.2
  | readObject nullMetaData => exact safe_readObject h nullMetaData hsound

/-! ## Installing -/

theorem safe_scanObjects (h : p.Safe) {objects : List U32}
    (hinside : TableInside p.mem p.mDataSize objects) : (p.scanObjects objects).Safe := by
  induction objects generalizing p with
  | nil => exact h
  | cons o os ih =>
    have htouch : (p.touch o.toNat 4).Safe := h.touch hinside.1
    rw [Parcel.scanObjects]
    split_ifs with hfd
    · exact htouch
    · exact ih htouch (hinside.2 hfd)

theorem safe_ipcSetDataReference (p : Parcel) {data : ℕ → Byte} {dataSize : U32}
    {objects : List U32} (relFunc : Bool) (hinside : TableInside data dataSize objects) :
    (p.ipcSetDataReference data dataSize objects relFunc).Safe := by
  apply safe_scanObjects
  · exact ⟨by rintro _ ⟨⟩, by rintro _ ⟨⟩⟩
  · exact hinside

/-- Nothing was done to the current block yet. -/
def Parcel.Untouched (p : Parcel) : Prop := p.touched = [] ∧ p.lent = []

theorem Parcel.Untouched.safe (h : p.Untouched) : p.Safe := by
  rw [Parcel.Safe, h.1, h.2]
  exact ⟨by rintro _ ⟨⟩, by rintro _ ⟨⟩⟩

theorem firstData_untouched (h : p.Untouched) (desired : U32) : (p.firstData desired).2.Untouched := by
  unfold Parcel.firstData Parcel.malloc
  rcases p.heap.head?.join with _ | fresh
  · exact h
  · exact ⟨rfl, rfl⟩

theorem restartWrite_keeps (h : p.Safe) (desired : U32) :
    (p.restartWrite desired).2.Safe ∧
      ((p.restartWrite desired).1 = .NO_ERROR → (p.restartWrite desired).2.Untouched) := by
  unfold Parcel.restartWrite
  split_ifs with howner
  · have hfirst : (p.freeData.firstData desired).2.Untouched := firstData_untouched ⟨rfl, rfl⟩ desired
    exact ⟨hfirst.safe, fun _ => hfirst⟩
  · unfold Parcel.malloc
    rcases p.heap.head?.join with _ | fresh
    · dsimp only
      split_ifs
      · exact ⟨h, by rintro ⟨⟩⟩
      · exact ⟨Parcel.Untouched.safe ⟨rfl, rfl⟩, fun _ => ⟨rfl, rfl⟩⟩
    · exact ⟨Parcel.Untouched.safe ⟨rfl, rfl⟩, fun _ => ⟨rfl, rfl⟩⟩

theorem safe_setData (h : p.Safe) (buffer : List Byte) : (p.setData buffer).2.Safe := by
  obtain ⟨hsafe, hfresh⟩ := restartWrite_keeps h (BitVec.ofNat 32 buffer.length)
  unfold Parcel.setData
  dsimp only
  revert hsafe hfresh
  rcases p.restartWrite (BitVec.ofNat 32 buffer.length) with ⟨_ | _ | _ | _ | _ | _, q⟩ <;>
    intro hsafe hfresh
  · exact Parcel.Untouched.safe (hfresh rfl)
  all_goals exact hsafe

theorem safe_step {e : ReadEvent} {p' : Parcel} (hsound : SoundEvent p e)
    (hstep : readStep p e = some p') (h : p.Safe) : p'.Safe := by
  cases e with
  | ipcSetDataReference data dataSize objects relFunc =>
    cases hstep
    exact safe_ipcSetDataReference p relFunc hsound
  | setData buffer =>
    cases hstep
    exact safe_setData h buffer
  | call c =>
    cases hstep
    exact safe_call h hsound

/-- From a fresh parcel, in every run whose steps are sound, what is read and what is handed out
lies inside the data. -/
theorem parcel_reads_inside (heap : List (Option (ℕ → Byte))) (es : List ReadEvent)
    (hsound : Along readStep SoundEvent (.initState heap []) es) {p : Parcel}
    (hrun : run readStep (.initState heap []) es = some p) : p.Safe :=
  run_invariant_along (fun _ _ _ hok hstep h => safe_step hok hstep h) hsound hrun
    (Parcel.Untouched.safe ⟨rfl, rfl⟩)

/-- A reply with a header, a string and a C string. -/
def reply : List ReadEvent :=
  [.setData (bytes EX_HAS_REPLY_HEADER ++ bytes 4#32 ++ bytes 0#32 ++ bytes 1#32 ++
    units [0x61#16, 0#16] ++ [0x62#8, 0#8, 0#8, 0#8]),
    .call .readExceptionCode, .call .readString16Inplace, .call .readCString, .call .readInt32]

theorem parcel_reads_inside_reply :
    ∃ p, run readStep (.initState [some fun _ => 0#8] []) reply = some p ∧ p.mDataPos = 24#32 ∧
      p.Safe :=
  ⟨_, rfl, by decide +kernel,
    parcel_reads_inside [some fun _ => 0#8] reply (by decide +kernel) rfl⟩

/-- The size of this string rounds to zero: two gigabytes are handed out of four bytes. -/
theorem string16_reads_outside :
    ∃ p, run readStep (.initState [some fun _ => 0#8] [])
      [.setData (bytes 0x7ffffffe#32), .call .readString16Inplace] = some p ∧
        p.mDataSize = 4#32 ∧ { off := 4, size := 2 ^ 32 - 2 } ∈ p.lent ∧ ¬ p.Safe := by
  refine ⟨_, rfl, by decide +kernel, by decide +kernel, fun h => ?_⟩
  exact absurd (h.2 { off := 4, size := 2 ^ 32 - 2 } (by decide +kernel)) (by decide +kernel)

end AudioFlinger.Binder
