import AudioFlinger.VectorImpl.Storage

/-!
# Vectors of any fill

A vector with storage of any size, shared or not, and what `editArrayImpl` makes
of a shared buffer: a storage of its own, with the items of the vector in it.
-/

namespace AudioFlinger.VectorImpl

open Foundation Foundation.Slots

variable {α : Type} {T : ItemType α}

/-! ## The allocator -/

/-- The block is granted, with its header. -/
def Granted (granted : Bool) (size : ℕ) : Prop :=
  granted = true ∧ sizeofSharedBuffer + size < blockMax

theorem block_granted {granted : Bool} {size : ℕ} (h : Granted granted size) :
    block granted size = some true := by
  obtain ⟨hgranted, hsize⟩ := h
  have hmod : (sizeofSharedBuffer + size) % sizeMax = sizeofSharedBuffer + size :=
    Nat.mod_eq_of_lt (hsize.trans (by decide))
  simp only [block, hmod]
  rw [if_pos ⟨hgranted, hsize⟩, if_neg (by omega)]

/-! ## Vectors of any fill -/

/-- A vector with storage but without its items: how many other vectors hold the buffer, how
large it is, and how many items there are. -/
structure Shape (T : ItemType α) where
  others : ℕ
  mSize : ℕ
  mCount : ℕ
  size_lt : sizeofSharedBuffer + mSize < blockMax
  count_le : mCount ≤ mSize / T.mItemSize

namespace Shape

variable (S : Shape T) (slots : List (Option α))

def capacity : ℕ := S.mSize / T.mItemSize

def buffer : SharedBuffer α :=
  { mRefs := S.others + 1, mSize := S.mSize, slots }

def fill : VectorImpl α :=
  { mStorage := .data (S.buffer slots), mCount := S.mCount, released := none }

/-- The buffer as it is left to the others. -/
def left : SharedBuffer α :=
  { mRefs := S.others, mSize := S.mSize, slots }

variable {S slots}

theorem release_buffer :
    (S.buffer slots).release = if S.others = 0 then none else some (S.left slots) := by
  simp only [SharedBuffer.release, SharedBuffer.onlyOwner, buffer, left]
  by_cases h : S.others = 0 <;> simp [h]

theorem release_storage_fill (S : Shape T) (slots : List (Option α)) :
    (S.fill slots).release_storage =
    some { S.fill slots with
      released := if S.others = 0 then none else some (S.left slots) } := by
  rw [← release_buffer]
  rfl

end Shape

variable {S : Shape T} {slots : List (Option α)} {grants : Grants} {index n : ℕ}

/-- A vector with its storage written out. -/
def stored (refs size : ℕ) (slots : List (Option α)) (mCount : ℕ)
    (released : Option (SharedBuffer α)) : VectorImpl α :=
  { mStorage := .data { mRefs := refs, mSize := size, slots }, mCount, released }

/-- A storage that no other vector sees, with the items of the vector first. -/
structure Own (S : Shape T) (slots : List (Option α)) (refs size : ℕ) (slots' : List (Option α))
    (released : Option (SharedBuffer α)) : Prop where
  capacity_eq : size / T.mItemSize = S.capacity
  length_eq : slots'.length = S.capacity
  take_eq : slots'.take S.mCount = slots.take S.mCount
  others : S.others = 0 ∨ released = some (S.left slots)

/-- `editArrayImpl` where the buffer is not shared or a block is granted. -/
theorem editArray_own (hlen : slots.length = S.capacity)
    (h : S.others = 0 ∨ grants.malloc = true) :
    ∃ refs size slots' released, (S.fill slots).editArrayImpl T grants =
      some (stored refs size slots' S.mCount released) ∧ Own S slots refs size slots' released := by
  by_cases halone : S.others = 0
  · refine ⟨1, S.mSize, slots, none, ?_, rfl, hlen, rfl, .inl halone⟩
    simp [editArrayImpl, Shape.fill, Shape.buffer, SharedBuffer.onlyOwner, halone, stored]
  · have hmalloc : grants.malloc = true := h.resolve_left halone
    have hbytes : S.capacity * T.mItemSize ≤ S.mSize := Nat.div_mul_le_self _ _
    have hgranted : Granted grants.malloc (S.capacity * T.mItemSize) :=
      ⟨hmalloc, (Nat.add_le_add_left hbytes _).trans_lt S.size_lt⟩
    have hcap : S.capacity * T.mItemSize / T.mItemSize = S.capacity :=
      Nat.mul_div_cancel _ T.itemSize_pos
    have hcount : S.mCount ≤ slots.length := hlen ▸ S.count_le
    have hget := get_eq (i := 0) (n := S.mCount) slots (by omega)
    have hitems := length_get hget
    obtain ⟨slots', hput⟩ := exists_put (List.replicate S.capacity (none : Option α)) 0
      ((slots.drop 0).take S.mCount)
      (by rw [hitems, List.length_replicate]; have := S.count_le; rw [Shape.capacity]; omega)
    refine ⟨1, S.capacity * T.mItemSize, slots', some (S.left slots), ?_, hcap, ?_, ?_, .inr rfl⟩
    · have halloc : SharedBuffer.alloc T grants.malloc (S.mSize / T.mItemSize * T.mItemSize) =
          some (some ⟨1, S.capacity * T.mItemSize, List.replicate S.capacity none⟩) := by
        rw [SharedBuffer.alloc, ← Shape.capacity, block_granted hgranted]
        simp [SharedBuffer.raw, hcap]
      have honly : (S.buffer slots).onlyOwner = false := by
        simp [SharedBuffer.onlyOwner, Shape.buffer, halone]
      have hrelease := S.release_storage_fill slots
      rw [if_neg halone] at hrelease
      simp only [editArrayImpl, Shape.fill, honly] at hrelease ⊢
      simp only [Shape.buffer] at hrelease ⊢
      simp [halloc, hget, List.drop_zero ▸ hput, hrelease, stored]
    · rw [length_put hput, List.length_replicate]
    · apply List.ext_getElem?
      intro k
      rw [List.getElem?_take, List.getElem?_take, getElem?_put hput, hitems]
      split
      · rw [if_pos (by omega), getElem?_get hget, if_pos (by omega)]
        simp
      · rfl

/-! ## The vectors that share the buffer -/

/-- The buffer that the other vectors hold. -/
def othersBuffer (v : VectorImpl α) : Option (SharedBuffer α) :=
  v.released.or (match v.mStorage with
    | .data sb => some sb
    | _ => none)

/-- The vectors that share the buffer have the size, capacity and items they had. -/
def SharersKeep (v v' : VectorImpl α) : Prop :=
  ∀ sb, v.mStorage = .data sb → sb.mRefs ≠ 1 → ∃ sb', v'.othersBuffer = some sb' ∧
    sb'.slots.take v.mCount = sb.slots.take v.mCount ∧ sb'.mSize = sb.mSize ∧
    sb.mRefs ≤ sb'.mRefs + 1

/-! ## Before a call -/

/-- A vector before a call: without storage, or of some fill. -/
abbrev Start (T : ItemType α) := Option (Shape T)

namespace Start

def others : Start T → ℕ
  | none => 0
  | some S => S.others

def capacity : Start T → ℕ
  | none => 0
  | some S => S.capacity

def mCount : Start T → ℕ
  | none => 0
  | some S => S.mCount

def fill : Start T → List (Option α) → VectorImpl α
  | none, _ => { mStorage := .null, mCount := 0, released := none }
  | some S, slots => S.fill slots

end Start

variable {start : Start T} {zs : List (Option α)} {refs size m : ℕ}
variable {released : Option (SharedBuffer α)}

theorem mCount_fill : (start.fill slots).mCount = start.mCount := by
  cases start <;> rfl

theorem released_fill : (start.fill slots).released = none := by
  cases start <;> rfl

theorem sharersKeep_refl (v : VectorImpl α) (h : v.released = none) : SharersKeep v v := by
  rintro sb hsb -
  exact ⟨sb, by rw [othersBuffer, h, hsb]; rfl, rfl, rfl, by omega⟩

theorem sharersKeep_of_own (h : S.others = 0 ∨ released = some (S.left slots)) :
    SharersKeep (S.fill slots) (stored refs size zs m released) := by
  rintro sb hsb hrefs
  obtain rfl : S.buffer slots = sb := by simpa [Shape.fill] using hsb
  rcases h with h | rfl
  · simp [Shape.buffer, h] at hrefs
  · exact ⟨S.left slots, rfl, rfl, rfl, le_rfl⟩

end AudioFlinger.VectorImpl
