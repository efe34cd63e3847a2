import AudioFlinger.Binder.ReadSafety
import AudioFlinger.Binder.WriteLayout

/-!
# Reading fields back

A reader at a field that lies inside the data returns what is stored there and
stops behind the padding. An object in the table is found from every hint.
-/

namespace AudioFlinger.Binder

open Foundation Bytes Fields RingMemory

/-- The readers have left the contents of `p` alone, and are at `n`. -/
structure Parcel.Reads (p r : Parcel) (n : ℕ) : Prop where
  data : r.mData = p.mData
  size : r.mDataSize = p.mDataSize
  objects : r.mObjects = p.mObjects
  pos : r.mDataPos.toNat = n

variable {p r : Parcel} {n m : ℕ}

theorem Parcel.Reads.mem (h : p.Reads r n) : r.mem = p.mem := by
  rw [Parcel.mem, h.data, Parcel.mem]

theorem Parcel.Reads.advance (h : p.Reads r n) {size : U32} (hsize : size.toNat = m)
    (hin : n + m ≤ p.mDataSize.toNat) : (r.mDataPos + size).toNat = n + m := by
  have hlt := p.mDataSize.isLt
  rw [BitVec.toNat_add, h.pos, hsize]
  exact Nat.mod_eq_of_lt (by omega)

theorem readAligned_stored {w : ℕ} {x : BitVec w} (hw : 8 ∣ w) (h : p.Reads r n)
    (hin : n + w / 8 ≤ p.mDataSize.toNat) (hs : Stores p.mem n (bytes x)) :
    (r.readAligned w).1 = some x ∧ p.Reads (r.readAligned w).2 (n + w / 8) := by
  have hlt := p.mDataSize.isLt
  have hsize : (BitVec.ofNat 32 (w / 8)).toNat = w / 8 := by
    rw [BitVec.toNat_ofNat]
    exact Nat.mod_eq_of_lt (by omega)
  have hend := h.advance hsize hin
  have htest : r.mDataPos + BitVec.ofNat 32 (w / 8) ≤ r.mDataSize := by
    rwa [BitVec.le_def, hend, h.size]
  unfold Parcel.readAligned
  dsimp only
  rw [if_pos htest, h.pos, h.mem, hs.load hw]
  exact ⟨rfl, h.data, h.size, h.objects, hend⟩

theorem readInt32_stored {x : U32} (h : p.Reads r n) (hin : n + 4 ≤ p.mDataSize.toNat)
    (hs : Stores p.mem n (bytes x)) : r.readInt32.1 = x ∧ p.Reads r.readInt32.2 (n + 4) := by
  obtain ⟨hval, hreads⟩ := readAligned_stored (by decide) h hin hs
  refine ⟨?_, hreads⟩
  unfold Parcel.readInt32
  dsimp only
  rw [hval, Option.getD_some]

theorem holds_of_room {len : U32} (h : p.Reads r n) (hlen : len.toNat = m)
    (hsmall : m + 3 < 2 ^ 32) (hin : n + padded m ≤ p.mDataSize.toNat) :
    r.Holds len ∧ (r.mDataPos + pad4 len).toNat = n + padded m := by
  have hpad : (pad4 len).toNat = padded m := by rw [pad4_eq_padded (by omega), hlen]
  have hend := h.advance hpad hin
  refine ⟨⟨?_, ?_⟩, hend⟩
  · rw [BitVec.le_def, hend, h.pos]
    exact Nat.le_add_right _ _
  · rwa [BitVec.le_def, hend, h.size]

theorem readInplace_room {len : U32} (h : p.Reads r n) (hlen : len.toNat = m)
    (hsmall : m + 3 < 2 ^ 32) (hin : n + padded m ≤ p.mDataSize.toNat) :
    (r.readInplace len).1 = some n ∧ p.Reads (r.readInplace len).2 (n + padded m) := by
  obtain ⟨hholds, hend⟩ := holds_of_room h hlen hsmall hin
  unfold Parcel.readInplace
  rw [if_pos hholds]
  exact ⟨congrArg some h.pos, h.data, h.size, h.objects, hend⟩

theorem read_stored {bs : List Byte} (h : p.Reads r n) (hsmall : bs.length + 3 < 2 ^ 32)
    (hin : n + padded bs.length ≤ p.mDataSize.toNat) (hs : Stores p.mem n bs) :
    (r.read (BitVec.ofNat 32 bs.length)).1 = some bs ∧
      p.Reads (r.read (BitVec.ofNat 32 bs.length)).2 (n + padded bs.length) := by
  have hlen : (BitVec.ofNat 32 bs.length).toNat = bs.length := by
    rw [BitVec.toNat_ofNat]
    exact Nat.mod_eq_of_lt (by omega)
  obtain ⟨hholds, hend⟩ := holds_of_room h hlen hsmall hin
  unfold Parcel.read
  rw [if_pos hholds, h.pos, hlen, h.mem, hs]
  exact ⟨rfl, h.data, h.size, h.objects, hend⟩

/-! ## Strings -/

theorem memchr_stored {mem : ℕ → Byte} {s : List Byte} (hs : 0#8 ∉ s) {pos k : ℕ}
    (hk : s.length < k) (h : Stores mem pos (s ++ [0#8])) : memchr mem pos k = some s.length := by
  induction s generalizing pos k with
  | nil =>
    obtain ⟨k, rfl⟩ : ∃ j, k = j + 1 := ⟨k - 1, (Nat.succ_pred_eq_of_pos hk).symm⟩
    have hzero : mem pos = 0#8 := stores_iff.mp h 0 (by decide)
    rw [memchr, if_pos hzero]
    rfl
  | cons b s ih =>
    obtain ⟨k, rfl⟩ : ∃ j, k = j + 1 := ⟨k - 1, by omega⟩
    obtain ⟨hb, hrest⟩ := (@stores_append _ _ [b] (s ++ [0#8])).mp h
    have hfirst : mem pos = b := stores_iff.mp hb 0 Nat.zero_lt_one
    rw [List.length_singleton] at hrest
    rw [List.mem_cons, not_or] at hs
    rw [memchr, if_neg (by rw [hfirst]; exact Ne.symm hs.1),
      ih hs.2 (Nat.lt_of_succ_lt_succ hk) hrest]
    rfl

theorem readCString_stored {s : List Byte} (hs : 0#8 ∉ s) (h : p.Reads r n)
    (hin : n + padded (s.length + 1) ≤ p.mDataSize.toNat)
    (hstored : Stores p.mem n (s ++ [0#8])) :
    r.readCString.1 = some n ∧ p.Reads r.readCString.2 (n + padded (s.length + 1)) := by
  have hlt := p.mDataSize.isLt
  have hle := le_padded (s.length + 1)
  have havail : (r.mDataSize - r.mDataPos).toNat = p.mDataSize.toNat - n := by
    rw [BitVec.toNat_sub_of_le (by rw [BitVec.le_def, h.size, h.pos]; omega), h.size, h.pos]
  have hsome : ¬ r.mDataSize - r.mDataPos = 0#32 := by
    intro hzero
    rw [hzero, BitVec.toNat_ofNat] at havail
    omega
  have hlen : (BitVec.ofNat 32 s.length + 1#32).toNat = s.length + 1 := by
    rw [BitVec.toNat_add, BitVec.toNat_ofNat, BitVec.toNat_ofNat]
    omega
  have hpad : (pad4 (BitVec.ofNat 32 s.length + 1#32)).toNat = padded (s.length + 1) := by
    rw [pad4_eq_padded, hlen]
    unfold padded at hin
    omega
  have hend := h.advance hpad hin
  have hfound : memchr r.mem r.mDataPos.toNat (r.mDataSize - r.mDataPos).toNat = some s.length := by
    rw [havail, h.mem, h.pos]
    exact memchr_stored hs (by omega) hstored
  unfold Parcel.readCString
  dsimp only
  rw [if_neg hsome, hfound]
  exact ⟨congrArg some h.pos, h.data, h.size, h.objects, hend⟩

theorem toInt_of_small {x : U32} (h : x.toNat < 2 ^ 31) : x.toInt = x.toNat := by
  rw [BitVec.toInt_eq_toNat_cond, if_pos (by omega)]

theorem readString8_stored {s : List Byte} (hsmall : s.length + 1 < 2 ^ 31) (h : p.Reads r n)
    (hin : n + extent (string8Fields s) ≤ p.mDataSize.toNat)
    (hlaid : Laid p.mem n (string8Fields s)) :
    r.readString8.1 = s ∧ p.Reads r.readString8.2 (n + extent (string8Fields s)) := by
  by_cases hnil : s = []
  · subst hnil
    obtain ⟨hval, hreads⟩ := readInt32_stored h hin hlaid.1
    unfold Parcel.readString8
    dsimp only
    rw [hval, if_neg (by decide)]
    exact ⟨rfl, hreads⟩
  · have hpos := List.length_pos_iff.mpr hnil
    rw [extent_string8 hnil] at hin ⊢
    obtain ⟨hword, hbody⟩ := (laid_string8 hnil).mp hlaid
    obtain ⟨hval, hreads⟩ := readInt32_stored h (by omega) hword
    have hlen : (BitVec.ofNat 32 s.length).toNat = s.length := by
      rw [BitVec.toNat_ofNat]
      omega
    have hsucc : (BitVec.ofNat 32 s.length + 1#32).toNat = s.length + 1 := by
      rw [BitVec.toNat_add, hlen, BitVec.toNat_ofNat]
      omega
    have hint := toInt_of_small (x := BitVec.ofNat 32 s.length) (by omega)
    have hrange : 0 < (BitVec.ofNat 32 s.length).toInt ∧
        (BitVec.ofNat 32 s.length).toInt < INT32_MAX := by
      unfold INT32_MAX
      rw [hint, hlen]
      omega
    obtain ⟨hptr, hrest⟩ := readInplace_room hreads hsucc (by omega) (by omega)
    unfold Parcel.readString8
    dsimp only
    rw [hval, if_pos hrange]
    revert hptr hrest
    rcases r.readInt32.2.readInplace (BitVec.ofNat 32 s.length + 1#32) with ⟨_ | str, q⟩
    · rintro ⟨⟩
    · rintro ⟨⟩ hrest
      dsimp only at hrest ⊢
      refine ⟨?_, hrest.data, hrest.size, hrest.objects, ?_⟩
      · rw [hrest.mem, hlen]
        exact (stores_append.mp hbody).1
      · exact hrest.pos.trans (Nat.add_assoc _ _ _)

/-- The pointer to a string of 16-bit units and its length. -/
theorem readString16Inplace_stored {s : List U16} (hsmall : 2 * s.length + 5 < 2 ^ 32)
    (h : p.Reads r n) (hin : n + extent (string16Fields s) ≤ p.mDataSize.toNat)
    (hlaid : Laid p.mem n (string16Fields s)) :
    r.readString16Inplace.1 = some (n + 4) ∧
      r.readString16Inplace.2.1 = BitVec.ofNat 32 s.length ∧
        p.Reads r.readString16Inplace.2.2 (n + extent (string16Fields s)) := by
  rw [extent_string16] at hin ⊢
  obtain ⟨hval, hreads⟩ := readInt32_stored h (by omega) (laid_string16.mp hlaid).1
  have hlen : (BitVec.ofNat 32 s.length).toNat = s.length := by
    rw [BitVec.toNat_ofNat]
    omega
  have hunits : ((BitVec.ofNat 32 s.length + 1#32) * 2#32).toNat = 2 * (s.length + 1) := by
    rw [units_size (by omega), hlen]
  have hint := toInt_of_small (x := BitVec.ofNat 32 s.length) (by omega)
  have hrange : 0 ≤ (BitVec.ofNat 32 s.length).toInt ∧
      (BitVec.ofNat 32 s.length).toInt < INT32_MAX := by
    unfold INT32_MAX
    rw [hint, hlen]
    omega
  obtain ⟨hptr, hrest⟩ := readInplace_room hreads hunits (by omega) (by omega)
  unfold Parcel.readString16Inplace
  dsimp only
  rw [hval, if_pos hrange]
  revert hptr hrest
  rcases r.readInt32.2.readInplace ((BitVec.ofNat 32 s.length + 1#32) * 2#32) with ⟨_ | str, q⟩
  · rintro ⟨⟩
  · rintro ⟨⟩ hrest
    exact ⟨rfl, rfl, hrest.data, hrest.size, hrest.objects, hrest.pos.trans (Nat.add_assoc _ _ _)⟩

theorem readString16_stored {s : List U16} (hsmall : 2 * s.length + 5 < 2 ^ 32)
    (h : p.Reads r n) (hin : n + extent (string16Fields s) ≤ p.mDataSize.toNat)
    (hlaid : Laid p.mem n (string16Fields s)) :
    r.readString16.1 = s ∧ p.Reads r.readString16.2 (n + extent (string16Fields s)) := by
  obtain ⟨hptr, hlen, hreads⟩ := readString16Inplace_stored hsmall h hin hlaid
  have hstored := (laid_string16.mp hlaid).2.1
  unfold Parcel.readString16
  revert hptr hlen hreads
  rcases r.readString16Inplace with ⟨_ | str, len, q⟩
  · rintro ⟨⟩
  · rintro ⟨⟩ hlen hreads
    dsimp only at hlen hreads ⊢
    refine ⟨?_, hreads.data, hreads.size, hreads.objects, hreads.pos⟩
    have htoNat : len.toNat = s.length := by
      rw [hlen, BitVec.toNat_ofNat]
      omega
    rw [htoNat, hreads.mem, hstored.loadUnits]

/-! ## Objects -/

/-- Where `dpos` is in an increasing table. -/
structure IndexOf (objects : List U32) (dpos : U32) (k : ℕ) : Prop where
  lt : k < objects.length
  here : objects.getD k 0#32 = dpos
  below : ∀ i < k, objects.getD i 0#32 < dpos
  above : ∀ i, k < i → i < objects.length → dpos < objects.getD i 0#32

theorem exists_indexOf {objects : List U32} {dpos : U32}
    (hsorted : objects.Pairwise (· < ·)) (hmem : dpos ∈ objects) :
    ∃ k, IndexOf objects dpos k := by
  have hget : ∀ i, (hi : i < objects.length) → objects.getD i 0#32 = objects[i] := by
    intro i hi
    rw [List.getD_eq_getElem?_getD, List.getElem?_eq_getElem hi, Option.getD_some]
  rw [List.pairwise_iff_getElem] at hsorted
  obtain ⟨k, hk, rfl⟩ := List.getElem_of_mem hmem
  refine ⟨k, hk, hget k hk, fun i hi => ?_, fun i hi hlen => ?_⟩
  · rw [hget i (hi.trans hk)]
    exact hsorted i k (hi.trans hk) hk hi
  · rw [hget i hlen]
    exact hsorted k i hk hlen hi

theorem searchForward_hit {objects : List U32} {dpos : U32} {k : ℕ} (h : IndexOf objects dpos k)
    {j opos : ℕ} (hle : opos ≤ k) (hreach : k ≤ opos + j) :
    searchForward objects dpos j opos = k := by
  induction j generalizing opos with
  | zero => exact le_antisymm hle hreach
  | succ j ih =>
    rw [searchForward]
    rcases Nat.eq_or_lt_of_le hle with rfl | hlt
    · rw [h.here, if_neg (BitVec.lt_irrefl dpos)]
    · rw [if_pos (h.below opos hlt)]
      exact ih hlt (by omega)

theorem searchForward_past {objects : List U32} {dpos : U32} {k : ℕ} (h : IndexOf objects dpos k)
    (j : ℕ) {opos : ℕ} (hpast : k < opos) (hlt : opos < objects.length) :
    searchForward objects dpos j opos = opos := by
  have habove := BitVec.lt_def.mp (h.above opos hpast hlt)
  cases j with
  | zero => rfl
  | succ j => rw [searchForward, if_neg (by rw [BitVec.lt_def]; omega)]

theorem searchBackward_hit {objects : List U32} {dpos : U32} {k : ℕ} (h : IndexOf objects dpos k)
    {opos : ℕ} (hle : k ≤ opos) (hlt : opos < objects.length) :
    searchBackward objects dpos opos = k := by
  induction opos with
  | zero => exact (Nat.le_zero.mp hle).symm
  | succ opos ih =>
    rw [searchBackward]
    rcases Nat.eq_or_lt_of_le hle with rfl | hpast
    · rw [h.here, if_neg (BitVec.lt_irrefl dpos)]
    · rw [if_pos (h.above _ hpast hlt)]
      exact ih (Nat.lt_succ_iff.mp hpast) (Nat.lt_of_succ_lt hlt)

/-- The search finds what is in an increasing table, wherever it starts. -/
theorem findObject_of_mem {objects : List U32} {dpos : U32} (hsorted : objects.Pairwise (· < ·))
    (hmem : dpos ∈ objects) (hint : ℕ) :
    ∃ k, IndexOf objects dpos k ∧ findObject objects hint dpos = some k := by
  obtain ⟨k, h⟩ := exists_indexOf hsorted hmem
  refine ⟨k, h, ?_⟩
  have hlt := h.lt
  have hback : ∀ opos, k ≤ opos → opos < objects.length →
      (if objects.getD opos 0#32 = dpos then some opos
        else if objects.getD (searchBackward objects dpos opos) 0#32 = dpos then
          some (searchBackward objects dpos opos) else none) = some k := by
    intro opos hle hopos
    rw [searchBackward_hit h hle hopos, if_pos h.here]
    rcases Nat.eq_or_lt_of_le hle with rfl | hpast
    · rw [ite_self]
    · have habove := BitVec.lt_def.mp (h.above opos hpast hopos)
      rw [if_neg fun heq => by rw [heq] at habove; omega]
  unfold findObject
  dsimp only
  rw [if_neg (List.ne_nil_of_mem hmem)]
  by_cases hhint : hint < objects.length
  · rw [if_pos hhint]
    rcases Nat.lt_or_ge k hint with hpast | hbefore
    · rw [searchForward_past h _ hpast hhint]
      exact hback hint hpast.le hhint
    · rw [searchForward_hit h hbefore (by omega)]
      exact hback k le_rfl hlt
  · rw [if_neg hhint]
    exact hback _ (by omega) (by omega)

theorem objectAt_stored {mem : ℕ → Byte} {obj : FlatBinderObject} (h : Stores mem n obj.bytes) :
    objectAt mem n = obj := by
  unfold FlatBinderObject.bytes at h
  obtain ⟨hthree, hcookie⟩ := stores_append.mp h
  obtain ⟨htwo, hbinder⟩ := stores_append.mp hthree
  obtain ⟨htype, hflags⟩ := stores_append.mp htwo
  simp only [List.length_append, bytes_length] at hflags hbinder hcookie
  unfold objectAt
  rw [htype.load (by decide), Stores.load (by decide) hflags, Stores.load (by decide) hbinder,
    Stores.load (by decide) hcookie]

/-- An object is read back if it is NULL, or its offset is in the table. -/
theorem readObject_stored {obj : FlatBinderObject} (h : p.Reads r n)
    (hin : n + 16 ≤ p.mDataSize.toNat) (hstored : Stores p.mem n obj.bytes)
    (hsorted : p.mObjects.Pairwise (· < ·))
    (hmem : obj.cookie = 0#32 ∧ obj.binder = 0#32 ∨ BitVec.ofNat 32 n ∈ p.mObjects) :
    (r.readObject false).1 = some n ∧ p.Reads (r.readObject false).2 (n + 16) := by
  have hend := @Parcel.Reads.advance p r n 16 h objectSize rfl hin
  have htest : r.mDataPos + objectSize ≤ r.mDataSize := by
    rw [BitVec.le_def, hend, h.size]
    exact hin
  have hobj : objectAt r.mem r.mDataPos.toNat = obj := by
    rw [h.pos, h.mem, objectAt_stored hstored]
  have hpos : BitVec.ofNat 32 n = r.mDataPos := by
    rw [← h.pos, BitVec.ofNat_toNat, BitVec.setWidth_eq]
  rw [hpos] at hmem
  unfold Parcel.readObject
  dsimp only
  rw [if_pos htest, if_neg Bool.false_ne_true]
  set q : Parcel := { r with mDataPos := r.mDataPos + objectSize } with hq
  have hreads : p.Reads q (n + 16) := ⟨h.data, h.size, h.objects, hend⟩
  have hpeek : (q.peekNull r.mDataPos.toNat).1 = decide (obj.cookie = 0#32 ∧ obj.binder = 0#32) ∧
      p.Reads (q.peekNull r.mDataPos.toNat).2 (n + 16) := by
    have hqobj : objectAt q.mem r.mDataPos.toNat = obj := hobj
    unfold Parcel.peekNull
    dsimp only
    rw [hqobj]
    split_ifs with hcookie
    · refine ⟨?_, hreads.data, hreads.size, hreads.objects, hreads.pos⟩
      rw [Bool.eq_iff_iff, beq_iff_eq, decide_eq_true_iff]
      exact (and_iff_right hcookie).symm
    · refine ⟨?_, hreads.data, hreads.size, hreads.objects, hreads.pos⟩
      rw [Bool.eq_iff_iff, decide_eq_true_iff]
      exact ⟨by rintro ⟨⟩, fun hnull => absurd hnull.1 hcookie⟩
  revert hpeek
  rcases q.peekNull r.mDataPos.toNat with ⟨isNull, s⟩
  rintro ⟨hnull, hs⟩
  dsimp only at hnull hs ⊢
  subst hnull
  by_cases hzero : obj.cookie = 0#32 ∧ obj.binder = 0#32
  · rw [if_pos (decide_eq_true hzero)]
    exact ⟨congrArg some h.pos, hs.data, hs.size, hs.objects, hs.pos⟩
  · rw [if_neg (by rwa [decide_eq_true_iff])]
    have hthere := hmem.resolve_left hzero
    rw [← hs.objects] at hsorted hthere
    obtain ⟨k, -, hfound⟩ := findObject_of_mem hsorted hthere s.mNextObjectHint
    unfold Parcel.lookup
    rw [hfound]
    exact ⟨congrArg some h.pos, hs.data, hs.size, hs.objects, hs.pos⟩

end AudioFlinger.Binder
