import AudioFlinger.Binder.Write
import AudioFlinger.Foundation.Machine

/-!
# Where the writers put their fields

At the end of the data a writer that succeeds lays down its fields and keeps
what lies before them, as long as the growth computation does not wrap.
`Extends` is what one write does, and composes.
-/

namespace AudioFlinger.Binder

open Foundation Bytes Fields RingMemory Machine

/-- `n` bytes are written, and the position is behind them. -/
structure Parcel.Open (p : Parcel) (n : ℕ) : Prop where
  pos : p.mDataPos.toNat = n
  size : p.mDataSize = p.mDataPos
  fits : n ≤ p.mDataCapacity.toNat
  capacity : p.mDataCapacity.toNat < 2 ^ 31
  block : p.mData = none → p.mDataCapacity = 0#32
  owner : p.mOwner = false

/-- The capacity once `n` more bytes have room. -/
def grown (size capacity n : ℕ) : ℕ :=
  if size + n ≤ capacity then capacity else (size + n) * 3 / 2

/-- The capacity once the fields are written. -/
def capacityAfter : ℕ → ℕ → List (List Byte) → ℕ
  | _, capacity, [] => capacity
  | size, capacity, f :: fs =>
    capacityAfter (size + padded f.length) (grown size capacity (padded f.length)) fs

/-- The new size is computed without wrapping wherever a field makes the data grow. -/
def Grows : ℕ → ℕ → List (List Byte) → Prop
  | _, _, [] => True
  | size, capacity, f :: fs =>
    (size + padded f.length ≤ capacity ∨ (size + padded f.length) * 3 < 2 ^ 32) ∧
      Grows (size + padded f.length) (grown size capacity (padded f.length)) fs

instance decidableGrows : ∀ size capacity fs, Decidable (Grows size capacity fs)
  | _, _, [] => isTrue trivial
  | size, capacity, f :: fs =>
    have : Decidable (Grows (size + padded f.length) (grown size capacity (padded f.length)) fs) :=
      decidableGrows _ _ fs
    inferInstanceAs (Decidable (_ ∧ _))

theorem capacityAfter_append (size capacity : ℕ) (fs gs : List (List Byte)) :
    capacityAfter size capacity (fs ++ gs) =
      capacityAfter (size + extent fs) (capacityAfter size capacity fs) gs := by
  induction fs generalizing size capacity with
  | nil => rfl
  | cons f fs ih =>
    rw [List.cons_append, capacityAfter, capacityAfter, ih, extent_cons, Nat.add_assoc]

theorem grows_append {size capacity : ℕ} {fs gs : List (List Byte)} :
    Grows size capacity (fs ++ gs) ↔
      Grows size capacity fs ∧
        Grows (size + extent fs) (capacityAfter size capacity fs) gs := by
  induction fs generalizing size capacity with
  | nil => simp [Grows, capacityAfter]
  | cons f fs ih =>
    rw [List.cons_append, Grows, Grows, ih, extent_cons, capacityAfter, Nat.add_assoc, and_assoc]

/-- The fields `fs` and the offsets `os` were added behind the first `n` bytes. -/
structure Parcel.Extends (p p' : Parcel) (n : ℕ) (fs : List (List Byte)) (os : List U32) :
    Prop where
  after : p'.Open (n + extent fs)
  capacity : p'.mDataCapacity.toNat = capacityAfter n p.mDataCapacity.toNat fs
  laid : Laid p'.mem n fs
  kept : ∀ i < n, p'.mem i = p.mem i
  objects : p'.mObjects = p.mObjects ++ os

variable {p p' p'' q : Parcel} {n : ℕ} {fs gs : List (List Byte)} {os os' : List U32}

theorem Parcel.Extends.trans (h : p.Extends p' n fs os)
    (h' : p'.Extends p'' (n + extent fs) gs os') : p.Extends p'' n (fs ++ gs) (os ++ os') where
  after := by
    rw [extent_append, ← Nat.add_assoc]
    exact h'.after
  capacity := by rw [capacityAfter_append, ← h.capacity, h'.capacity]
  laid := laid_append.mpr ⟨h.laid.congr fun i _ hi => h'.kept i hi, h'.laid⟩
  kept := fun i hi => (h'.kept i (by omega)).trans (h.kept i hi)
  objects := by rw [h'.objects, h.objects, List.append_assoc]

/-! ## Growing -/

/-- There is room for `len` bytes, and nothing else has changed. -/
structure Parcel.Ready (p q : Parcel) (n len : ℕ) : Prop where
  opened : q.Open n
  room : n + len ≤ q.mDataCapacity.toNat
  capacity : q.mDataCapacity.toNat = grown n p.mDataCapacity.toNat len
  kept : ∀ i < n, q.mem i = p.mem i
  objects : q.mObjects = p.mObjects

theorem carried_below {m i : ℕ} {old fresh : ℕ → Byte} (h : i < m) : carried m old fresh i = old i :=
  if_pos h

/-- Growing drops no object. -/
theorem dropObjects_grow {desired : U32} (hnot : ¬ desired < p.mDataSize) :
    p.dropObjects (p.keptObjects desired) = p := by
  unfold Parcel.keptObjects Parcel.dropObjects
  rw [if_neg hnot, if_neg (lt_irrefl _)]

/-- Growing our own data, or getting the first, either makes room or sets the error. -/
theorem continueWrite_grows (h : p.Open n) {desired : U32} (hmore : p.mDataCapacity < desired)
    (hsmall : desired.toNat < 2 ^ 31) :
    ((p.continueWrite desired).1 = .NO_ERROR ∧
      (p.continueWrite desired).2.Open n ∧
      (p.continueWrite desired).2.mDataCapacity = desired ∧
      (∀ i < n, (p.continueWrite desired).2.mem i = p.mem i) ∧
      (p.continueWrite desired).2.mObjects = p.mObjects) ∨
    ((p.continueWrite desired).1 = .NO_MEMORY ∧
      (p.continueWrite desired).2.mError = .NO_MEMORY) := by
  have hcap := BitVec.lt_def.mp hmore
  have hpos := h.pos
  have hfits := h.fits
  unfold Parcel.continueWrite
  rw [h.owner, if_neg Bool.false_ne_true]
  rcases hdata : p.mData with _ | mem
  · have hzero : n = 0 := by
      have hnone := congrArg BitVec.toNat (h.block hdata)
      rw [BitVec.toNat_ofNat] at hnone
      omega
    subst hzero
    dsimp only
    unfold Parcel.firstData Parcel.malloc
    rcases p.heap.head?.join with _ | fresh
    · exact Or.inr ⟨rfl, rfl⟩
    · refine Or.inl ⟨rfl, ⟨rfl, rfl, Nat.zero_le _, hsmall, ?_, h.owner⟩, rfl, ?_, rfl⟩
      · rintro ⟨⟩
      · rintro i ⟨⟩
  · have hnot : ¬ desired < p.mDataSize := by
      rw [BitVec.lt_def, h.size]
      omega
    have hdrop := dropObjects_grow hnot
    dsimp only
    unfold Parcel.resize
    rw [hdrop]
    dsimp only
    rw [if_pos hmore]
    unfold Parcel.malloc
    rcases p.heap.head?.join with _ | fresh
    · exact Or.inr ⟨rfl, rfl⟩
    · refine Or.inl ⟨rfl, ⟨h.pos, h.size, hfits.trans hcap.le, hsmall, ?_, h.owner⟩, rfl, ?_, rfl⟩
      · rintro ⟨⟩
      · intro i hi
        exact carried_below (hi.trans_le hfits)

/-- The test of a writer and the growth behind it either make room or set the error. -/
inductive Parcel.Readied (p : Parcel) (n m : ℕ) : Status × Parcel → Prop
  | room (q : Parcel) (hready : p.Ready q n m) : Readied p n m (.NO_ERROR, q)
  | fails (q : Parcel) (herror : q.mError = .NO_MEMORY) : Readied p n m (.NO_MEMORY, q)

theorem orGrow_readied (h : p.Open n) {len : U32}
    (hgrows : n + len.toNat ≤ p.mDataCapacity.toNat ∨ (n + len.toNat) * 3 < 2 ^ 32) :
    p.Readied n len.toNat (p.orGrow (p.mDataPos + len ≤ p.mDataCapacity) len) := by
  have hcap := h.capacity
  have hend : (p.mDataPos + len).toNat = n + len.toNat := by
    rw [BitVec.toNat_add, h.pos]
    lia
  have htest : p.mDataPos + len ≤ p.mDataCapacity ↔ n + len.toNat ≤ p.mDataCapacity.toNat := by
    rw [BitVec.le_def, hend]
  unfold Parcel.orGrow
  by_cases hroom : n + len.toNat ≤ p.mDataCapacity.toNat
  · rw [if_pos (htest.mpr hroom)]
    exact .room p ⟨h, hroom, (if_pos hroom).symm, fun i _ => rfl, rfl⟩
  · rw [if_neg (mt htest.mp hroom)]
    have hmul := hgrows.resolve_left hroom
    have hsize : p.mDataSize.toNat = n := by rw [h.size, h.pos]
    have hnew := newSize_toNat p.mDataSize len
    rw [hsize, Nat.mod_eq_of_lt hmul] at hnew
    have hfits := h.fits
    have hnot : ¬ (p.mDataSize + len) * 3#32 / 2#32 ≤ p.mDataSize := by
      rw [BitVec.le_def, hnew]
      lia
    unfold Parcel.growData
    dsimp only
    rw [if_neg hnot]
    have hmore : p.mDataCapacity < (p.mDataSize + len) * 3#32 / 2#32 := by
      rw [BitVec.lt_def, hnew]
      lia
    have hcases := continueWrite_grows h hmore (by lia)
    generalize p.continueWrite _ = written at hcases ⊢
    obtain ⟨st, q⟩ := written
    obtain ⟨rfl, hopen, hcapacity, hkept, hobjects⟩ | ⟨rfl, herror⟩ := hcases
    · refine .room q ⟨hopen, ?_, ?_, hkept, hobjects⟩
      · rw [hcapacity, hnew]
        lia
      · rw [hcapacity, hnew]
        exact (if_neg hroom).symm
    · exact .fails q herror

/-! ## Storing -/

theorem store_mem {off : ℕ} {bs : List Byte} (h : p.mData = none → bs = []) :
    (p.store off bs).mem = blit p.mem off bs := by
  unfold Parcel.store Parcel.mem
  rcases hdata : p.mData with _ | mem
  · rw [h hdata, blit_nil]
    rfl
  · rfl

/-- Where there is room, there is a block. -/
theorem Parcel.Ready.block {m : ℕ} (h : p.Ready q n m) (hm : 0 < m) : q.mData ≠ none := by
  intro hnone
  have hroom := h.room
  rw [h.opened.block hnone, BitVec.toNat_ofNat] at hroom
  omega

theorem Parcel.Open.store (h : p.Open n) (off : ℕ) (bs : List Byte) : (p.store off bs).Open n where
  pos := h.pos
  size := h.size
  fits := h.fits
  capacity := h.capacity
  block := fun hnone => h.block (Option.map_eq_none_iff.mp hnone)
  owner := h.owner

theorem Parcel.Open.maskTail (h : p.Open n) (len padded : U32) : (p.maskTail len padded).Open n := by
  unfold Parcel.maskTail
  split_ifs
  · exact h
  · exact h.store _ _

theorem Parcel.Open.finishWrite (h : p.Open n) {len : U32}
    (hroom : n + len.toNat ≤ p.mDataCapacity.toNat) : (p.finishWrite len).Open (n + len.toNat) := by
  have hcap := h.capacity
  have hend : (p.mDataPos + len).toNat = n + len.toNat := by
    rw [BitVec.toNat_add, h.pos]
    omega
  refine ⟨hend, ?_, hroom, hcap, h.block, h.owner⟩
  unfold Parcel.finishWrite
  dsimp only
  split_ifs with hlt
  · rfl
  · apply BitVec.eq_of_toNat_eq
    rw [BitVec.lt_def, hend, h.size, h.pos] at hlt
    rw [hend, h.size, h.pos]
    omega

/-- What is left to show once there is room for a field. -/
theorem Parcel.Ready.extends {m : ℕ} {f : List Byte} (h : p.Ready q n m)
    (hafter : p'.Open (n + m)) (hcapacity : p'.mDataCapacity = q.mDataCapacity)
    (hstores : Stores p'.mem n f) (hkept : ∀ i < n, p'.mem i = q.mem i)
    (hobjects : p'.mObjects = q.mObjects ++ os) (hlen : padded f.length = m) :
    p.Extends p' n [f] os where
  after := by rwa [extent_cons, extent_nil, hlen]
  capacity := by rw [hcapacity, h.capacity, ← hlen, capacityAfter, capacityAfter]
  laid := ⟨hstores, trivial⟩
  kept := fun i hi => (hkept i hi).trans (h.kept i hi)
  objects := by rw [hobjects, h.objects]

/-! ## The writers -/

theorem writeAligned_extends {w : ℕ} {x : BitVec w} (hw : 4 ∣ w / 8) (hpos : 0 < w / 8)
    (h : p.Open n) (hgrows : Grows n p.mDataCapacity.toNat [bytes x])
    (hok : p.writeAligned x = (.NO_ERROR, p')) : p.Extends p' n [bytes x] [] := by
  have hlen : padded (bytes x).length = w / 8 := by rw [bytes_length, padded_of_dvd hw]
  have hgrow := hgrows.1
  rw [hlen] at hgrow
  have hcap := h.capacity
  have hsize : (BitVec.ofNat 32 (w / 8)).toNat = w / 8 := by
    rw [BitVec.toNat_ofNat]
    omega
  have hcases := orGrow_readied h (by rwa [hsize])
  unfold Parcel.writeAligned at hok
  dsimp only at hok
  generalize p.orGrow (p.mDataPos + BitVec.ofNat 32 (w / 8) ≤ p.mDataCapacity)
    (BitVec.ofNat 32 (w / 8)) = grown at hok hcases
  cases hcases with
  | room q hready =>
    cases hok
    have hqpos : q.mDataPos.toNat = n := hready.opened.pos
    have hroom := hready.room
    have hmem : (q.store q.mDataPos.toNat (bytes x)).mem = blit q.mem n (bytes x) := by
      rw [store_mem fun hnone => absurd hnone (hready.block (by omega)), hqpos]
    refine hready.extends ((hready.opened.store _ _).finishWrite hroom) rfl ?_ ?_ ?_ ?_
    · exact hmem ▸ stores_blit q.mem n (bytes x)
    · intro i hi
      exact (congrFun hmem i).trans (blit_miss (Or.inl hi))
    · exact (List.append_nil _).symm
    · rw [hlen, hsize]
  | fails => cases hok

theorem maskTail_below (h : q.Open n) {len size : U32} (hsize : size ≠ len → 4 ≤ size.toNat)
    (hend : n + size.toNat < 2 ^ 32) {i : ℕ} (hi : i < n) :
    (q.maskTail len size).mem i = q.mem i := by
  unfold Parcel.maskTail
  by_cases heq : size = len
  · rw [if_pos heq]
  · have hfour := hsize heq
    have htail : (q.mDataPos + size - 4#32).toNat = n + size.toNat - 4 := by
      have hle : 4#32 ≤ q.mDataPos + size := by
        rw [BitVec.le_def, BitVec.toNat_add, h.pos, BitVec.toNat_ofNat]
        omega
      rw [BitVec.toNat_sub_of_le hle, BitVec.toNat_add, h.pos, BitVec.toNat_ofNat]
      omega
    rw [if_neg heq]
    dsimp only
    rw [htail]
    unfold Parcel.store Parcel.mem
    rcases q.mData with _ | mem
    · rfl
    · exact blit_miss (Or.inl (by omega))

theorem maskTail_keeps (q : Parcel) (len size : U32) :
    (q.maskTail len size).mDataCapacity = q.mDataCapacity ∧
      (q.maskTail len size).mObjects = q.mObjects := by
  unfold Parcel.maskTail
  split_ifs <;> exact ⟨rfl, rfl⟩

/-- The pointer is to `m` bytes with whatever contents. -/
theorem writeInplace_extends (h : p.Open n) {len : U32} {m : ℕ} (hlen : len.toNat = m)
    (hgrow : n + padded m ≤ p.mDataCapacity.toNat ∨ (n + padded m) * 3 < 2 ^ 32) :
    (∃ p', p.writeInplace len = (some n, p') ∧ p.Extends p' n [slice p'.mem n m] []) ∨
    ((p.writeInplace len).1 = none ∧ (p.writeInplace len).2.mError = .NO_MEMORY) := by
  have hcap := h.capacity
  have hpad : (pad4 len).toNat = padded m := by
    unfold padded at hgrow
    rw [pad4_eq_padded (by omega), hlen]
  have hcases := orGrow_readied h (by rwa [hpad])
  have hnowrap : ¬ p.mDataPos + pad4 len < p.mDataPos := by
    rw [BitVec.lt_def, BitVec.toNat_add, h.pos, hpad]
    omega
  have hmask : pad4 len ≠ len → 4 ≤ (pad4 len).toNat := by
    intro hne
    have hdiff : padded m ≠ m := fun heq => hne (BitVec.eq_of_toNat_eq (by rw [hpad, hlen, heq]))
    rw [hpad]
    unfold padded at hdiff ⊢
    omega
  unfold Parcel.writeInplace
  dsimp only
  rw [if_neg hnowrap]
  generalize pad4 len = size at *
  generalize p.orGrow (p.mDataPos + size ≤ p.mDataCapacity) size = grown at hcases ⊢
  cases hcases with
  | room q hready =>
    obtain ⟨hcapacity, hobjects⟩ := maskTail_keeps q len size
    have hroom := hready.room
    have hqcap := hready.opened.capacity
    have hopen := (hready.opened.maskTail len size).finishWrite (by rwa [hcapacity])
    refine Or.inl ⟨(q.maskTail len size).finishWrite size, ?_, ?_⟩
    · dsimp only
      rw [hready.opened.pos]
    · refine hready.extends hopen hcapacity ?_ ?_ ?_ ?_
      · rw [Stores, slice_length]
      · intro i hi
        exact maskTail_below hready.opened hmask (by omega) hi
      · exact hobjects.trans (List.append_nil _).symm
      · rw [slice_length, hpad]
  | fails q herror => exact Or.inr ⟨rfl, herror⟩

/-- The bytes that a pointer is to are filled in. -/
theorem Parcel.Extends.fill {f g : List Byte} (h : p.Extends p' n [g] os)
    (hlen : f.length = g.length) (hafter : p''.Open (n + padded g.length))
    (hmem : p''.mem = blit p'.mem n f) (hcapacity : p''.mDataCapacity = p'.mDataCapacity)
    (hobjects : p''.mObjects = p'.mObjects) : p.Extends p'' n [f] os where
  after := by rwa [extent_cons, extent_nil, hlen]
  capacity := by
    rw [hcapacity, h.capacity, capacityAfter, capacityAfter, capacityAfter, capacityAfter, hlen]
  laid := ⟨hmem ▸ stores_blit p'.mem n f, trivial⟩
  kept := fun i hi => by rw [hmem, blit_miss (Or.inl hi), h.kept i hi]
  objects := by rw [hobjects, h.objects]

/-- Where a field was written, there is a block to store it in. -/
theorem Parcel.Extends.block {g : List Byte} (h : p.Extends p' n [g] os) (hg : 0 < g.length) :
    p'.mData ≠ none := by
  intro hnone
  have hfits := h.after.fits
  rw [h.after.block hnone, extent_cons, BitVec.toNat_ofNat] at hfits
  have hle := le_padded g.length
  omega

theorem Parcel.Extends.store_mem {f g : List Byte} (h : p.Extends p' n [g] os)
    (hlen : f.length = g.length) (off : ℕ) : (p'.store off f).mem = blit p'.mem off f := by
  refine Binder.store_mem fun hnone => List.length_eq_zero_iff.mp ?_
  by_contra hne
  exact h.block (by omega) hnone

theorem write_extends (h : p.Open n) {data : List Byte}
    (hgrows : Grows n p.mDataCapacity.toNat [data]) (hok : p.write data = (.NO_ERROR, p')) :
    p.Extends p' n [data] [] := by
  have hcap := h.capacity
  have hgrow := hgrows.1
  have hle := le_padded data.length
  have hlen : (BitVec.ofNat 32 data.length).toNat = data.length := by
    rw [BitVec.toNat_ofNat]
    omega
  unfold Parcel.write at hok
  rcases writeInplace_extends h hlen hgrow with ⟨q, hq, hextends⟩ | ⟨hnone, herror⟩
  · rw [hq] at hok
    cases hok
    have hslice : data.length = (slice q.mem n data.length).length := (slice_length _ _).symm
    exact hextends.fill hslice (hextends.after.store _ _) (hextends.store_mem hslice n) rfl rfl
  · revert hok hnone herror
    rcases p.writeInplace (BitVec.ofNat 32 data.length) with ⟨d, q⟩
    rintro hok ⟨⟩ herror
    have hst : q.mError = .NO_ERROR := congrArg Prod.fst hok
    rw [herror] at hst
    cases hst

/-! ## Strings -/

def string8Fields (s : List Byte) : List (List Byte) :=
  if s = [] then [bytes 0#32] else [bytes (BitVec.ofNat 32 s.length), s ++ [0#8]]

def string16Fields (s : List U16) : List (List Byte) :=
  [bytes (BitVec.ofNat 32 s.length), units (s ++ [0#16])]

theorem padded_word (x : U32) : padded (bytes x).length = 4 := by
  rw [bytes_length]
  rfl

theorem extent_string8 {s : List Byte} (hs : s ≠ []) :
    extent (string8Fields s) = 4 + padded (s.length + 1) := by
  rw [string8Fields, if_neg hs, extent_cons, extent_cons, extent_nil, padded_word,
    List.length_append, List.length_singleton, Nat.add_zero]

theorem extent_string16 (s : List U16) :
    extent (string16Fields s) = 4 + padded (2 * (s.length + 1)) := by
  rw [string16Fields, extent_cons, extent_cons, extent_nil, padded_word, units_length,
    List.length_append, List.length_singleton, Nat.add_zero]

theorem laid_string8 {mem : ℕ → Byte} {s : List Byte} (hs : s ≠ []) :
    Laid mem n (string8Fields s) ↔
      Stores mem n (bytes (BitVec.ofNat 32 s.length)) ∧ Stores mem (n + 4) (s ++ [0#8]) := by
  rw [string8Fields, if_neg hs, Laid, Laid, Laid, padded_word, and_true]

theorem laid_string16 {mem : ℕ → Byte} {s : List U16} :
    Laid mem n (string16Fields s) ↔
      Stores mem n (bytes (BitVec.ofNat 32 s.length)) ∧
        Stores mem (n + 4) (units s) ∧ Stores mem (n + 4 + 2 * s.length) (bytes 0#16) := by
  have hunits : units (s ++ [0#16]) = units s ++ bytes 0#16 := by
    simp [units]
  rw [string16Fields, Laid, Laid, Laid, padded_word, and_true, hunits, stores_append, units_length]

theorem writeInt32_extends {x : U32} (h : p.Open n)
    (hgrows : Grows n p.mDataCapacity.toNat [bytes x]) (hok : p.writeInt32 x = (.NO_ERROR, p')) :
    p.Extends p' n [bytes x] [] :=
  writeAligned_extends (by decide) (by decide) h hgrows hok

theorem writeString8_extends {str : List Byte} (h : p.Open n)
    (hgrows : Grows n p.mDataCapacity.toNat (string8Fields str))
    (hok : p.writeString8 str = (.NO_ERROR, p')) : p.Extends p' n (string8Fields str) [] := by
  unfold Parcel.writeString8 at hok
  dsimp only at hok
  unfold string8Fields at *
  by_cases hnil : str = []
  · subst hnil
    rw [if_pos rfl] at hgrows ⊢
    rw [if_neg (by rintro ⟨⟨⟩, -⟩)] at hok
    exact writeInt32_extends h hgrows hok
  · rw [if_neg hnil] at hgrows ⊢
    obtain ⟨hfirst, hsecond⟩ := (@grows_append _ _ [bytes (BitVec.ofNat 32 str.length)] _).mp hgrows
    rcases hword : p.writeInt32 (BitVec.ofNat 32 str.length) with ⟨err, q⟩
    rw [hword] at hok
    by_cases herr : err = .NO_ERROR
    · subst herr
      have hlen := writeInt32_extends h hfirst hword
      rw [if_pos ⟨List.length_pos_iff.mpr hnil, rfl⟩] at hok
      rw [← hlen.capacity] at hsecond
      exact hlen.trans (write_extends hlen.after hsecond hok)
    · rw [if_neg fun hboth => herr hboth.2] at hok
      exact absurd (congrArg Prod.fst hok) herr

/-- The units are copied before the terminator is. -/
theorem store_units {str : List U16} {len : U32} (hlen : len.toNat = 2 * str.length)
    {off : ℕ} (hblock : p.mData ≠ none) :
    ((p.store off ((units str).take len.toNat)).store (off + len.toNat) (bytes 0#16)).mem =
      blit p.mem off (units (str ++ [0#16])) := by
  have htake : (units str).take len.toNat = units str := by
    rw [hlen, ← units_length, List.take_length]
  have happend : units (str ++ [0#16]) = units str ++ bytes 0#16 := by
    simp [units]
  have hsome : (p.store off (units str)).mData ≠ none :=
    fun hnone => hblock (Option.map_eq_none_iff.mp hnone)
  rw [htake, Binder.store_mem fun hnone => absurd hnone hsome,
    Binder.store_mem fun hnone => absurd hnone hblock, hlen, ← units_length, blit_append, happend]

theorem writeString16_extends {str : List U16} (h : p.Open n)
    (hgrows : Grows n p.mDataCapacity.toNat (string16Fields str))
    (hok : p.writeString16 (some str) = (.NO_ERROR, p')) :
    p.Extends p' n (string16Fields str) [] := by
  obtain ⟨hfirst, hsecond⟩ := (@grows_append _ _ [bytes (BitVec.ofNat 32 str.length)] _).mp hgrows
  unfold Parcel.writeString16 at hok
  dsimp only at hok
  rcases hword : p.writeInt32 (BitVec.ofNat 32 str.length) with ⟨err, q⟩
  rw [hword] at hok
  cases err with
  | NO_ERROR =>
    have hlen := writeInt32_extends h hfirst hword
    rw [← hlen.capacity] at hsecond
    have hgrow := hsecond.1
    have hcap := hlen.after.capacity
    have hunits : (units (str ++ [0#16])).length = 2 * str.length + 2 := by
      rw [units_length, List.length_append, List.length_singleton, Nat.mul_add]
    have hle := le_padded (units (str ++ [0#16])).length
    rw [hunits] at hle hgrow
    have hbytes : (BitVec.ofNat 32 str.length * 2#32).toNat = 2 * str.length := by
      rw [BitVec.toNat_mul, BitVec.toNat_ofNat, BitVec.toNat_ofNat]
      lia
    have hsize : (BitVec.ofNat 32 str.length * 2#32 + 2#32).toNat = 2 * str.length + 2 := by
      rw [BitVec.toNat_add, hbytes, BitVec.toNat_ofNat]
      lia
    dsimp only at hok
    rcases writeInplace_extends hlen.after hsize hgrow with ⟨r, hr, hextends⟩ | ⟨hnone, herror⟩
    · rw [hr] at hok
      cases hok
      have hblock : r.mData ≠ none := hextends.block (by rw [slice_length]; lia)
      refine hlen.trans (hextends.fill ?_ ((hextends.after.store _ _).store _ _)
        (store_units hbytes hblock) rfl rfl)
      rw [slice_length, hunits]
    · revert hok hnone herror
      rcases q.writeInplace (BitVec.ofNat 32 str.length * 2#32 + 2#32) with ⟨d, r⟩
      rintro hok ⟨⟩ herror
      have hst : r.mError = .NO_ERROR := congrArg Prod.fst hok
      rw [herror] at hst
      cases hst
  | _ => cases hok

/-! ## Objects -/

/-- The offset that a written object is recorded at. -/
def FlatBinderObject.offsets (obj : FlatBinderObject) (n : ℕ) : List U32 :=
  if obj.binder = 0#32 then [] else [BitVec.ofNat 32 n]

theorem FlatBinderObject.bytes_length (obj : FlatBinderObject) : obj.bytes.length = 16 := by
  simp [FlatBinderObject.bytes]

theorem growObjects_ok {more : U32} (hok : p.growObjects more = (.NO_ERROR, q)) :
    q.mData = p.mData ∧ q.mObjects = p.mObjects ∧ (∀ n, p.Open n → q.Open n) ∧
      q.mDataCapacity = p.mDataCapacity := by
  unfold Parcel.growObjects Parcel.malloc at hok
  dsimp only at hok
  rcases hmalloc : p.heap.head?.join with _ | fresh
  · rw [hmalloc] at hok
    cases hok
  · rw [hmalloc] at hok
    cases hok
    exact ⟨rfl, rfl, fun n h => ⟨h.pos, h.size, h.fits, h.capacity, h.block, h.owner⟩, rfl⟩

theorem recordObject_keeps (p : Parcel) (val : FlatBinderObject) (nullMetaData : Bool) :
    (p.recordObject val nullMetaData).mem = p.mem ∧
      (p.recordObject val nullMetaData).mDataCapacity = p.mDataCapacity ∧
        ∀ n, p.Open n → (p.recordObject val nullMetaData).Open n := by
  unfold Parcel.recordObject
  split_ifs
  · exact ⟨rfl, rfl, fun n h => ⟨h.pos, h.size, h.fits, h.capacity, h.block, h.owner⟩⟩
  · exact ⟨rfl, rfl, fun n h => h⟩

theorem putObject_extends {val : FlatBinderObject} (htype : val.type ≠ BINDER_TYPE_FD)
    (hready : p.Ready q n 16) :
    ∃ p', q.putObject val false = (.NO_ERROR, p') ∧ p.Extends p' n [val.bytes] (val.offsets n) := by
  have hqpos := hready.opened.pos
  have hmem : (q.store q.mDataPos.toNat val.bytes).mem = blit q.mem n val.bytes := by
    rw [Binder.store_mem fun hnone => absurd hnone (hready.block (by decide)), hqpos]
  have hopen := hready.opened.store q.mDataPos.toNat val.bytes
  refine ⟨((q.store q.mDataPos.toNat val.bytes).recordObject val false).finishWrite objectSize, ?_, ?_⟩
  · unfold Parcel.putObject
    dsimp only
    rw [if_neg htype]
  · have hoffset : BitVec.ofNat 32 n = q.mDataPos := by
      rw [← hqpos, BitVec.ofNat_toNat, BitVec.setWidth_eq]
    obtain ⟨hkept, hcapacity, hrecord⟩ :=
      recordObject_keeps (q.store q.mDataPos.toNat val.bytes) val false
    refine hready.extends (m := 16) ?_ hcapacity ?_ ?_ ?_ (by rw [val.bytes_length]; rfl)
    · refine (hrecord n hopen).finishWrite ?_
      rw [hcapacity]
      exact hready.room
    · have hstored := stores_blit q.mem n val.bytes
      rw [← hmem, ← hkept] at hstored
      exact hstored
    · intro i hi
      exact (congrFun (hkept.trans hmem) i).trans (blit_miss (Or.inl hi))
    · unfold FlatBinderObject.offsets
      rw [hoffset]
      by_cases hnull : val.binder = 0#32
      · rw [if_pos hnull, List.append_nil, Parcel.recordObject, if_neg (by simp [hnull])]
        rfl
      · rw [if_neg hnull, Parcel.recordObject, if_pos (Or.inr hnull)]
        rfl

theorem writeObject_extends {val : FlatBinderObject} (htype : val.type ≠ BINDER_TYPE_FD)
    (h : p.Open n) (hgrows : Grows n p.mDataCapacity.toNat [val.bytes])
    (hok : p.writeObject val false = (.NO_ERROR, p')) :
    p.Extends p' n [val.bytes] (val.offsets n) := by
  have hgrow := hgrows.1
  rw [val.bytes_length] at hgrow
  have hcases := @orGrow_readied p n h objectSize hgrow
  unfold Parcel.writeObject at hok
  dsimp only at hok
  generalize p.orGrow (p.mDataPos + objectSize ≤ p.mDataCapacity) objectSize = grown at hok hcases
  cases hcases with
  | room q hready =>
    by_cases henough : p.mObjects.length < p.mObjectsCapacity.toNat
    · simp only [henough, decide_true, if_true] at hok
      obtain ⟨r, hr, hextends⟩ := putObject_extends htype hready
      rw [hr] at hok
      cases hok
      exact hextends
    · simp only [henough, decide_false, Bool.false_eq_true, if_false] at hok
      rcases hgrown : q.growObjects 2#32 with ⟨err, q'⟩
      rw [hgrown] at hok
      cases err with
      | NO_ERROR =>
        obtain ⟨hdata, hobjects, hopen, hcapacity⟩ := growObjects_ok hgrown
        have hready' : p.Ready q' n 16 := by
          refine ⟨hopen n hready.opened, ?_, ?_, ?_, hobjects.trans hready.objects⟩
          · rw [hcapacity]
            exact hready.room
          · rw [hcapacity]
            exact hready.capacity
          · intro i hi
            rw [Parcel.mem, hdata]
            exact hready.kept i hi
        obtain ⟨r, hr, hextends⟩ := putObject_extends htype hready'
        dsimp only at hok
        rw [hr] at hok
        cases hok
        exact hextends
      | _ => cases hok
  | fails => cases hok

/-! ## Offsets along a message -/

section Offsets

variable {α : Type} {fields : α → List (List Byte)} {offsets : ℕ → α → List U32}

/-- The offsets recorded for values laid down one after another from `n` on. -/
def offsetsOf (fields : α → List (List Byte)) (offsets : ℕ → α → List U32) :
    ℕ → List α → List U32
  | _, [] => []
  | n, v :: vs => offsets n v ++ offsetsOf fields offsets (n + extent (fields v)) vs

/-- Where each value records its own offset or none, the offsets increase. -/
theorem offsetsOf_increasing
    (hone : ∀ n v, offsets n v = [] ∨ offsets n v = [BitVec.ofNat 32 n] ∧ 0 < extent (fields v))
    {vs : List α} (hsmall : n + extent (vs.flatMap fields) < 2 ^ 32) :
    (offsetsOf fields offsets n vs).Pairwise (· < ·) ∧
      ∀ o ∈ offsetsOf fields offsets n vs, n ≤ o.toNat := by
  induction vs generalizing n with
  | nil => exact ⟨List.Pairwise.nil, by rintro _ ⟨⟩⟩
  | cons v vs ih =>
    rw [List.flatMap_cons, extent_append, ← Nat.add_assoc] at hsmall
    obtain ⟨hsorted, hbound⟩ := ih hsmall
    rw [offsetsOf]
    rcases hone n v with hnone | ⟨hhere, hpos⟩
    · rw [hnone, List.nil_append]
      exact ⟨hsorted, fun o ho => (Nat.le_add_right _ _).trans (hbound o ho)⟩
    · have hn : (BitVec.ofNat 32 n).toNat = n := by
        rw [BitVec.toNat_ofNat]
        omega
      rw [hhere, List.singleton_append, List.forall_mem_cons]
      refine ⟨List.pairwise_cons.mpr ⟨fun o ho => ?_, hsorted⟩, hn.ge, fun o ho => ?_⟩
      · have hlater := hbound o ho
        rw [BitVec.lt_def, hn]
        omega
      · exact (Nat.le_add_right _ _).trans (hbound o ho)

/-- Each entry stands for a field. -/
theorem offsetsOf_length
    (hone : ∀ n v, offsets n v = [] ∨ offsets n v = [BitVec.ofNat 32 n] ∧ 0 < extent (fields v))
    (n : ℕ) (vs : List α) :
    (offsetsOf fields offsets n vs).length * 4 ≤ extent (vs.flatMap fields) := by
  induction vs generalizing n with
  | nil => exact le_rfl
  | cons v vs ih =>
    have hrest := ih (n + extent (fields v))
    have hfour := four_dvd_extent (fields v)
    rw [offsetsOf, List.length_append, List.flatMap_cons, extent_append]
    rcases hone n v with hnone | ⟨hhere, hpos⟩
    · rw [hnone, List.length_nil]
      omega
    · rw [hhere, List.length_singleton]
      omega

/-- What a run of writes lays down, from what one write does. -/
theorem run_lays {step : Parcel → α → Option Parcel} {ok : Parcel → α → Prop}
    (hstep : ∀ {p p' : Parcel} {n : ℕ} {v : α}, p.Open n → ok p v → step p v = some p' →
      p.Extends p' n (fields v) (offsets n v))
    (h : p.Open n) {vs : List α} (hok : Along step ok p vs) (hrun : run step p vs = some p') :
    p.Extends p' n (vs.flatMap fields) (offsetsOf fields offsets n vs) := by
  induction vs generalizing p n with
  | nil =>
    cases hrun
    exact ⟨h, rfl, trivial, fun i _ => rfl, (List.append_nil _).symm⟩
  | cons v vs ih =>
    obtain ⟨m, hm, hrest⟩ := run_cons_some.mp hrun
    have hfirst := hstep h hok.1 hm
    rw [List.flatMap_cons, offsetsOf]
    exact hfirst.trans (ih hfirst.after (hok.2 m hm) hrest)

end Offsets

theorem offsets_object (obj : FlatBinderObject) (n : ℕ) :
    obj.offsets n = [] ∨ obj.offsets n = [BitVec.ofNat 32 n] ∧ 0 < extent [obj.bytes] := by
  unfold FlatBinderObject.offsets
  split_ifs
  · exact Or.inl rfl
  · refine Or.inr ⟨rfl, ?_⟩
    rw [extent_cons, FlatBinderObject.bytes_length]
    exact Nat.add_pos_left (by decide) _

end AudioFlinger.Binder
