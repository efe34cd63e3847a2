import Mathlib.Data.Int.Notation
import Mathlib.Data.List.Basic
import Mathlib.Data.List.Infix
import Mathlib.Tactic.Common

/-!
# Arrays that a part of a stream is kept in
-/

/-!
## An array that is copied to and from

Reading or writing beyond the end of the array fails. When the array begins with the
contents of a queue, writing after them appends to the queue, and moving a later part to the front
drops what was before it.
-/

namespace AudioFlinger.Foundation.Cells

variable {α : Type*}

/-- The `n` cells from `start`. -/
def slice (mem : List α) (start n : ℕ) : Option (List α) :=
  if start + n ≤ mem.length then some ((mem.drop start).take n) else none

/-- Write the cells from `start`. -/
def fill (mem : List α) (start : ℕ) (src : List α) : Option (List α) :=
  if start + src.length ≤ mem.length then some (mem.take start ++ src ++ mem.drop (start + src.length))
  else none

/-- An array of another length with the same cells, as far as it reaches. -/
def resize (blank : α) (mem : List α) (n : ℕ) : List α := mem.take n ++ List.replicate (n - mem.length) blank

variable {mem mem' xs ys : List α} {start n : ℕ} {blank : α}

@[simp] theorem resize_length : (resize blank mem n).length = n := by
  rw [resize, List.length_append, List.length_take, List.length_replicate]
  omega

theorem fill_length (h : fill mem start xs = some mem') : mem'.length = mem.length := by
  rw [fill] at h
  split at h
  · cases h
    simp only [List.length_append, List.length_take, List.length_drop]
    omega
  · cases h

/-- The contents stay when the array grows. -/
theorem resize_prefix (h : xs <+: mem) (hle : xs.length ≤ n) : xs <+: resize blank mem n := by
  obtain ⟨ys, rfl⟩ := h
  rw [resize, List.take_append, List.take_of_length_le hle, List.append_assoc]
  exact List.prefix_append xs _

/-- Writing after the contents appends to them. -/
theorem fill_append (h : xs <+: mem) (hle : xs.length + ys.length ≤ mem.length) :
    ∃ mem', fill mem xs.length ys = some mem' ∧ mem'.length = mem.length ∧ xs ++ ys <+: mem' := by
  have hfill : fill mem xs.length ys = some (mem.take xs.length ++ ys ++ mem.drop (xs.length + ys.length)) :=
    if_pos hle
  refine ⟨_, hfill, fill_length hfill, ?_⟩
  rw [← List.prefix_iff_eq_take.mp h]
  exact List.prefix_append _ _

/-- Reading the contents behind a part of them. -/
theorem slice_append (h : xs ++ ys <+: mem) : slice mem xs.length ys.length = some ys := by
  obtain ⟨zs, rfl⟩ := h
  rw [slice, if_pos, List.append_assoc, List.drop_left, List.take_left]
  simp only [List.length_append]
  omega

theorem slice_front (h : xs <+: mem) : slice mem 0 xs.length = some xs := @slice_append _ mem [] xs h

/-- Writing to the front. -/
theorem fill_front (hle : ys.length ≤ mem.length) :
    ∃ mem', fill mem 0 ys = some mem' ∧ mem'.length = mem.length ∧ ys <+: mem' := by
  obtain ⟨mem', hfill, hlength, hprefix⟩ := @fill_append _ mem [] ys List.nil_prefix
    (by rw [List.length_nil, Nat.zero_add]; exact hle)
  exact ⟨mem', hfill, hlength, hprefix⟩

end AudioFlinger.Foundation.Cells

/-!
## A window that slides over a buffer of twice its length

A window of `2 * half` items of a stream lies in a buffer of `4 * half` items,
around an index that moves up by one with each item. When the window comes to
the end of the buffer, the later half is copied to the front.
-/

namespace AudioFlinger.Foundation.SlidingWindow

variable {α : Type*}

/-- Item `i` of a stream that has nothing but `zero` before its start. -/
def padded (zero : α) (xs : List α) (i : ℤ) : α := if i < 0 then zero else xs.getD i.toNat zero

theorem padded_append {zero : α} {xs : List α} (ys : List α) {i : ℤ} (hi : i < xs.length) :
    padded zero (xs ++ ys) i = padded zero xs i := by
  unfold padded
  split_ifs with hneg
  · rfl
  · rw [List.getD_eq_getElem?_getD, List.getD_eq_getElem?_getD,
      List.getElem?_append_left (by omega)]

theorem padded_eq {zero x : α} {xs : List α} {i : ℕ} (hx : xs[i]? = some x) :
    padded zero xs i = x := by
  rw [padded, if_neg (by omega), Int.toNat_natCast, List.getD_eq_getElem?_getD, hx,
    Option.getD_some]

theorem padded_neg {zero : α} {xs : List α} {i : ℤ} (hi : i < 0) : padded zero xs i = zero :=
  if_pos hi

/-- Copy the later half to the front. -/
def slide (half : ℕ) (view : ℕ → α) : ℕ → α :=
  fun i => if i < 2 * half then view (2 * half + i) else view i

/-- The items before `q` in a window around `k`. -/
structure Past (half : ℕ) (zero : α) (xs : List α) (view : ℕ → α) (k q : ℕ) : Prop where
  low : half ≤ k + 1
  high : k + 1 ≤ 3 * half
  past : ∀ j < 2 * half, 0 < j → view (k + half - j) = padded zero xs (q - j)

/-- The items up to `q` in a window around `k`. -/
structure Window (half : ℕ) (zero : α) (xs : List α) (view : ℕ → α) (k q : ℕ) : Prop extends
    Past half zero xs view k q where
  head : view (k + half) = padded zero xs q

variable {half : ℕ} {zero : α} {xs : List α} {view view' : ℕ → α} {k q : ℕ}

theorem Past.half_pos (h : Past half zero xs view k q) : 0 < half := by
  have hlow := h.low
  have hhigh := h.high
  omega

/-- The item at the head written. -/
theorem Past.write (h : Past half zero xs view k q) (hhead : view' (k + half) = padded zero xs q)
    (hother : ∀ i, i ≠ k + half → view' i = view i) : Window half zero xs view' k q where
  low := h.low
  high := h.high
  past j hj hpos := by
    have hlow := h.low
    rw [hother _ (by omega)]
    exact h.past j hj hpos
  head := hhead

/-- Every item of the window. -/
theorem Window.items (h : Window half zero xs view k q) {j : ℕ} (hj : j < 2 * half) :
    view (k + half - j) = padded zero xs (q - j) := by
  cases j with
  | zero => simpa using h.head
  | succ j => exact h.past (j + 1) hj (Nat.succ_pos j)

/-- The window moves up by one. -/
theorem Window.moveUp (h : Window half zero xs view k q) (hk : k + 1 < 3 * half) :
    Past half zero xs view (k + 1) (q + 1) where
  low := Nat.le_succ_of_le h.low
  high := hk
  past j hj hpos := by
    obtain ⟨j, rfl⟩ := Nat.exists_eq_succ_of_ne_zero (Nat.ne_of_gt hpos)
    have hitem := h.items (show j < 2 * half by omega)
    rw [show k + 1 + half - (j + 1) = k + half - j by omega, hitem]
    congr 1
    push_cast
    omega

/-- The window moves up by one at the end of the buffer. -/
theorem Window.wrap (h : Window half zero xs view k q) (hk : 3 * half ≤ k + 1) :
    Past half zero xs (slide half view) (k + 1 - 2 * half) (q + 1) where
  low := by omega
  high := by
    have hhigh := h.high
    omega
  past j hj hpos := by
    obtain ⟨j, rfl⟩ := Nat.exists_eq_succ_of_ne_zero (Nat.ne_of_gt hpos)
    have hhigh := h.high
    have hitem := h.items (show j < 2 * half by omega)
    rw [slide, if_pos (by omega),
      show 2 * half + (k + 1 - 2 * half + half - (j + 1)) = k + half - j by omega, hitem]
    congr 1
    push_cast
    omega

/-- The stream may be longer. -/
theorem Window.append (h : Window half zero xs view k q) (hq : q < xs.length) (ys : List α) :
    Window half zero (xs ++ ys) view k q where
  low := h.low
  high := h.high
  past j hj hpos := by
    rw [padded_append ys (by omega)]
    exact h.past j hj hpos
  head := by
    rw [padded_append ys (by omega)]
    exact h.head

/-- A buffer of zeros is a window before the stream starts. -/
theorem Past.start (hhalf : 0 < half) (hzero : ∀ i, view i = zero) :
    Past half zero xs view (half - 1) 0 where
  low := by omega
  high := by omega
  past j _ hpos := by
    rw [hzero, padded_neg (by omega)]

end AudioFlinger.Foundation.SlidingWindow
