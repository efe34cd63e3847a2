import AudioFlinger.Foundation.RingMemory

/-!
# A lossless bounded FIFO over a ring of cells

One producer and one consumer share a ring of `N` cells. The producer reserves
room, fills the cells it reserved and commits; the consumer acquires elements,
reads them and releases. The fields say that no element is lost, repeated or
invented, so every value of the structure is a FIFO in a legal state and each
operation asks only for what its side can check.
-/

namespace AudioFlinger.Foundation

open RingMemory

/-- A FIFO whose stream position `n` lives in cell `(b + n) % N`. -/
structure RingFifo (α : Type*) (b N : ℕ) where
  mem : ℕ → α
  /-- Everything the producer has committed. -/
  put : List α
  /-- Everything the consumer has taken. -/
  got : List α
  /-- Cells the producer may be writing. -/
  reserved : ℕ
  /-- Elements the consumer may be reading. -/
  acquired : ℕ
  got_prefix : got <+: put
  room : put.length + reserved ≤ got.length + N
  ready : got.length + acquired ≤ put.length
  holds : Holds N mem (b + got.length) (put.drop got.length)

namespace RingFifo

variable {α : Type*} {b N : ℕ} (q : RingFifo α b N)

/-- The empty FIFO over an arbitrary memory. -/
def start (b N : ℕ) (mem : ℕ → α) : RingFifo α b N where
  mem := mem
  put := []
  got := []
  reserved := 0
  acquired := 0
  got_prefix := List.prefix_rfl
  room := by simp
  ready := by simp
  holds := by simp

/-- The number of elements committed and not yet taken. -/
def size : ℕ := q.put.length - q.got.length

theorem got_length_le : q.got.length ≤ q.put.length := q.got_prefix.length_le

theorem size_le : q.size ≤ N := by
  have hroom := q.room
  unfold size
  omega

theorem got_eq_take : q.got = q.put.take q.got.length :=
  List.prefix_iff_eq_take.mp q.got_prefix

/-- The producer reserves cells that hold no element the consumer still needs. -/
def reserve (r : ℕ) (h : q.put.length + r ≤ q.got.length + N) : RingFifo α b N :=
  { q with reserved := r, room := h }

/-- The producer copies data into contiguous reserved cells. -/
def fill (off : ℕ) (xs : List α) (hin : off + xs.length ≤ q.reserved)
    (hfit : (b + q.put.length + off) % N + xs.length ≤ N) : RingFifo α b N where
  mem := blit q.mem ((b + q.put.length + off) % N) xs
  put := q.put
  got := q.got
  reserved := q.reserved
  acquired := q.acquired
  got_prefix := q.got_prefix
  room := q.room
  ready := q.ready
  holds := by
    have hroom := q.room
    have hgot := q.got_length_le
    apply q.holds.blit hfit
    · rw [List.length_drop]
      omega
    · omega

theorem commit_holds (k : ℕ) :
    Holds N q.mem (b + q.got.length)
      ((q.put ++ ringSlice N q.mem (b + q.put.length) k).drop q.got.length) := by
  have hgot := q.got_length_le
  rw [List.drop_append_of_le_length hgot]
  apply q.holds.append
  have hpos : b + q.got.length + (q.put.drop q.got.length).length = b + q.put.length := by
    rw [List.length_drop]
    omega
  rw [hpos]
  exact holds_ringSlice _ _

/-- The producer publishes the first `k` cells it reserved. -/
def commit (k : ℕ) (hk : k ≤ q.reserved) : RingFifo α b N where
  mem := q.mem
  put := q.put ++ ringSlice N q.mem (b + q.put.length) k
  got := q.got
  reserved := 0
  acquired := q.acquired
  got_prefix := q.got_prefix.trans (List.prefix_append _ _)
  room := by
    have hroom := q.room
    simp
    omega
  ready := by
    have hready := q.ready
    simp
    omega
  holds := q.commit_holds k

/-- The consumer acquires elements that have been committed. -/
def acquire (r : ℕ) (h : q.got.length + r ≤ q.put.length) : RingFifo α b N :=
  { q with acquired := r, ready := h }

/-- What the consumer reads in its region is the stream from its position on. -/
theorem ringSlice_acquired (off n : ℕ) (h : off + n ≤ q.acquired) :
    ringSlice N q.mem (b + q.got.length + off) n = (q.put.drop (q.got.length + off)).take n := by
  have hready := q.ready
  have hdrop := q.holds.drop off
  rw [List.drop_drop] at hdrop
  apply hdrop.ringSlice
  rw [List.length_drop]
  omega

theorem release_got {k : ℕ} (hk : k ≤ q.acquired) :
    q.got ++ ringSlice N q.mem (b + q.got.length) k = q.put.take (q.got.length + k) := by
  have hread := q.ringSlice_acquired 0 k (by omega)
  rw [Nat.add_zero, Nat.add_zero] at hread
  rw [hread, List.take_add, ← q.got_eq_take]

/-- The consumer takes the first `k` elements it acquired. -/
def release (k : ℕ) (hk : k ≤ q.acquired) : RingFifo α b N where
  mem := q.mem
  put := q.put
  got := q.got ++ ringSlice N q.mem (b + q.got.length) k
  reserved := q.reserved
  acquired := 0
  got_prefix := by
    rw [q.release_got hk]
    exact List.take_prefix _ _
  room := by
    have hroom := q.room
    simp
    omega
  ready := by
    have hready := q.ready
    simp
    omega
  holds := by
    have hlen : (q.got ++ ringSlice N q.mem (b + q.got.length) k).length = q.got.length + k := by
      simp
    have hdrop := q.holds.drop k
    rw [List.drop_drop] at hdrop
    rw [hlen, ← Nat.add_assoc]
    exact hdrop

/-- The consumer never reads a cell the producer may be writing. -/
theorem reserved_disjoint_acquired {i j : ℕ} (hi : i < q.reserved) (hj : j < q.acquired) :
    (b + q.put.length + i) % N ≠ (b + q.got.length + j) % N := by
  have hroom := q.room
  have hready := q.ready
  have hne := slot_ne (M := N) (p := b + q.got.length + j) (q := b + q.put.length + i)
    (by omega) (by omega)
  exact hne.symm

/-! ## The two sides alike

`true` is the producing side and `false` the consuming side. -/

/-- The stream position a side has reached. -/
def pos : Bool → ℕ
  | true => q.put.length
  | false => q.got.length

/-- The number of cells a side holds. -/
def held : Bool → ℕ
  | true => q.reserved
  | false => q.acquired

/-- The number of cells a side may hold. -/
def limit : Bool → ℕ
  | true => N - q.size
  | false => q.size

theorem held_le_limit (side : Bool) : q.held side ≤ q.limit side := by
  have hgot := q.got_length_le
  have hroom := q.room
  have hready := q.ready
  cases side <;> simp only [held, limit, size] <;> omega

/-- A side takes hold of cells it may use. -/
def hold (side : Bool) (r : ℕ) (h : r ≤ q.limit side) : RingFifo α b N :=
  match side with
  | true => q.reserve r (by
      have hgot := q.got_length_le
      have hroom := q.room
      simp only [limit, size] at h
      omega)
  | false => q.acquire r (by
      have hgot := q.got_length_le
      simp only [limit, size] at h
      omega)

section Hold

variable {side : Bool} {r : ℕ} (h : r ≤ q.limit side)

@[simp] theorem hold_mem : (q.hold side r h).mem = q.mem := by cases side <;> rfl
@[simp] theorem hold_put : (q.hold side r h).put = q.put := by cases side <;> rfl
@[simp] theorem hold_got : (q.hold side r h).got = q.got := by cases side <;> rfl
@[simp] theorem hold_held : (q.hold side r h).held side = r := by cases side <;> rfl
@[simp] theorem hold_held_other : (q.hold side r h).held (!side) = q.held (!side) := by
  cases side <;> rfl
@[simp] theorem hold_pos (other : Bool) : (q.hold side r h).pos other = q.pos other := by
  cases side <;> cases other <;> rfl

end Hold

/-- A side is done with the first `k` cells it holds. -/
def advance (side : Bool) (k : ℕ) (h : k ≤ q.held side) : RingFifo α b N :=
  match side with
  | true => q.commit k h
  | false => q.release k h

section Advance

variable {side : Bool} {k : ℕ} (h : k ≤ q.held side)

@[simp] theorem advance_mem : (q.advance side k h).mem = q.mem := by cases side <;> rfl
@[simp] theorem advance_put : (q.advance side k h).put =
    if side then q.put ++ ringSlice N q.mem (b + q.pos side) k else q.put := by
  cases side <;> rfl
@[simp] theorem advance_got : (q.advance side k h).got =
    if side then q.got else q.got ++ ringSlice N q.mem (b + q.pos side) k := by
  cases side <;> rfl
@[simp] theorem advance_pos : (q.advance side k h).pos side = q.pos side + k := by
  cases side <;> simp [advance, pos, commit, release]
@[simp] theorem advance_pos_other : (q.advance side k h).pos (!side) = q.pos (!side) := by
  cases side <;> rfl
@[simp] theorem advance_held_other : (q.advance side k h).held (!side) = q.held (!side) := by
  cases side <;> rfl

end Advance

end RingFifo

end AudioFlinger.Foundation
