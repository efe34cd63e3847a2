import Mathlib.Data.List.Basic
import Mathlib.Data.Nat.ModEq
import Mathlib.Tactic.Common

/-!
# Memory cells read and written as a ring

Memory is a function from cell indices to values. A copy touches a contiguous
range of cells; a ring of `M` cells stores position `p` of an unbounded stream
in cell `p % M`. `Holds` says that a stretch of the stream is stored.
-/

namespace AudioFlinger.Foundation.RingMemory

variable {α : Type*}

/-- Copy `xs` into the contiguous cells starting at `pos`. -/
def blit (mem : ℕ → α) (pos : ℕ) (xs : List α) : ℕ → α :=
  fun i => if pos ≤ i then (xs[i - pos]?).getD (mem i) else mem i

/-- Copy `n` contiguous cells starting at `pos` out of memory. -/
def slice (mem : ℕ → α) (pos n : ℕ) : List α := (List.range n).map fun j => mem (pos + j)

/-- The `n` stream positions from `p` on, read through the ring. -/
def ringSlice (M : ℕ) (mem : ℕ → α) (p n : ℕ) : List α :=
  (List.range n).map fun j => mem ((p + j) % M)

/-- The ring stores `xs` at the stream positions from `p` on. -/
def Holds (M : ℕ) (mem : ℕ → α) (p : ℕ) (xs : List α) : Prop :=
  ∀ j (h : j < xs.length), mem ((p + j) % M) = xs[j]

variable {M : ℕ} {mem : ℕ → α}

theorem blit_hit (pos : ℕ) (xs : List α) {j : ℕ} (hj : j < xs.length) :
    blit mem pos xs (pos + j) = xs[j] := by
  simp [blit, hj]

theorem blit_miss {pos i : ℕ} {xs : List α} (h : i < pos ∨ pos + xs.length ≤ i) :
    blit mem pos xs i = mem i := by
  unfold blit
  split
  · have hlen : xs.length ≤ i - pos := by omega
    rw [List.getElem?_eq_none hlen, Option.getD_none]
  · rfl

@[simp] theorem blit_nil (pos : ℕ) : blit mem pos [] = mem := by
  funext i
  simp [blit]

theorem blit_append (pos : ℕ) (xs ys : List α) :
    blit (blit mem pos xs) (pos + xs.length) ys = blit mem pos (xs ++ ys) := by
  funext i
  by_cases hbefore : i < pos
  · rw [blit_miss (Or.inl hbefore), blit_miss (Or.inl (by omega)), blit_miss (Or.inl hbefore)]
  · obtain ⟨j, rfl⟩ : ∃ j, i = pos + j := ⟨i - pos, by omega⟩
    by_cases hfirst : j < xs.length
    · rw [blit_miss (Or.inl (by omega)), blit_hit pos xs hfirst,
        blit_hit pos (xs ++ ys) (by rw [List.length_append]; omega),
        List.getElem_append_left hfirst]
    · obtain ⟨k, rfl⟩ : ∃ k, j = xs.length + k := ⟨j - xs.length, by omega⟩
      by_cases hsecond : k < ys.length
      · rw [← Nat.add_assoc, blit_hit _ ys hsecond, Nat.add_assoc,
          blit_hit pos (xs ++ ys) (by rw [List.length_append]; omega)]
        simp
      · rw [blit_miss (Or.inr (by omega)), blit_miss (Or.inr (by omega)),
          blit_miss (Or.inr (by rw [List.length_append]; omega))]

@[simp] theorem slice_length (pos n : ℕ) : (slice mem pos n).length = n := by
  simp [slice]

theorem slice_add (mem : ℕ → α) (pos m n : ℕ) :
    slice mem pos (m + n) = slice mem pos m ++ slice mem (pos + m) n := by
  simp [slice, List.range_add, List.map_map, Function.comp_def, Nat.add_assoc]

theorem slice_cons (mem : ℕ → α) (pos n : ℕ) :
    slice mem pos (n + 1) = mem pos :: slice mem (pos + 1) n := by
  rw [Nat.add_comm, slice_add]
  rfl

theorem slice_take (mem : ℕ → α) {pos m n : ℕ} (h : m ≤ n) :
    (slice mem pos n).take m = slice mem pos m := by
  obtain ⟨k, rfl⟩ := Nat.exists_eq_add_of_le h
  rw [slice_add, List.take_left' (slice_length pos m)]

theorem slice_drop (mem : ℕ → α) {pos m n : ℕ} (h : m ≤ n) :
    (slice mem pos n).drop m = slice mem (pos + m) (n - m) := by
  obtain ⟨k, rfl⟩ := Nat.exists_eq_add_of_le h
  rw [slice_add, List.drop_left' (slice_length pos m), Nat.add_sub_cancel_left]

theorem blit_slice (mem : ℕ → α) (pos n : ℕ) : blit mem pos (slice mem pos n) = mem := by
  funext i
  by_cases hin : pos ≤ i ∧ i - pos < n
  · have hindex : pos + (i - pos) = i := Nat.add_sub_cancel' hin.1
    have hcell := @blit_hit α mem pos (slice mem pos n) (i - pos) (by simpa using hin.2)
    rw [hindex] at hcell
    rw [hcell]
    simp [slice, hindex]
  · apply blit_miss
    rw [slice_length]
    omega

/-- A copy to the start of memory is found there. -/
theorem slice_blit (mem : ℕ → α) (xs : List α) : slice (blit mem 0 xs) 0 xs.length = xs := by
  apply List.ext_getElem
  · exact slice_length _ _
  · intro j _ hj
    have hcell := @blit_hit α mem 0 xs j hj
    simpa [slice] using hcell

@[simp] theorem ringSlice_length (p n : ℕ) : (ringSlice M mem p n).length = n := by
  simp [ringSlice]

theorem ringSlice_getElem {p n j : ℕ} (h : j < (ringSlice M mem p n).length) :
    (ringSlice M mem p n)[j] = mem ((p + j) % M) := by
  simp [ringSlice]

/-- Inside one lap the cells of consecutive positions are consecutive. -/
theorem slot_add {p j : ℕ} (h : p % M + j < M) : (p + j) % M = p % M + j := by
  rw [← Nat.mod_add_mod, Nat.mod_eq_of_lt h]

/-- Positions less than a lap apart have different cells. -/
theorem slot_ne {p q : ℕ} (hlt : p < q) (hlap : q < p + M) : p % M ≠ q % M := by
  intro he
  have hdvd : M ∣ q - p := (Nat.modEq_iff_dvd' hlt.le).mp he
  have hle : M ≤ q - p := Nat.le_of_dvd (by omega) hdvd
  omega

/-- The position one lap boundary later starts at cell `0`. -/
theorem slot_lap {p n : ℕ} (h : p % M + n = M) : (p + n) % M = 0 := by
  rw [← Nat.mod_add_mod, h, Nat.mod_self]

theorem ringSlice_eq_slice {p n : ℕ} (h : p % M + n ≤ M) :
    ringSlice M mem p n = slice mem (p % M) n := by
  apply List.map_congr_left
  intro j hj
  have hlt : j < n := List.mem_range.mp hj
  rw [slot_add (by omega)]

theorem ringSlice_add (p m n : ℕ) :
    ringSlice M mem p (m + n) = ringSlice M mem p m ++ ringSlice M mem (p + m) n := by
  simp only [ringSlice, List.range_add, List.map_append, List.map_map]
  congr 1
  apply List.map_congr_left
  intro j _
  simp [Nat.add_assoc]

theorem holds_ringSlice (p n : ℕ) : Holds M mem p (ringSlice M mem p n) :=
  fun _ h => (ringSlice_getElem h).symm

@[simp] theorem holds_nil (p : ℕ) : Holds M mem p [] := fun _ h => absurd h (Nat.not_lt_zero _)

theorem Holds.append {p : ℕ} {xs ys : List α} (hx : Holds M mem p xs)
    (hy : Holds M mem (p + xs.length) ys) : Holds M mem p (xs ++ ys) := by
  intro j hj
  by_cases hlt : j < xs.length
  · rw [List.getElem_append_left hlt]
    exact hx j hlt
  · have hj' : j - xs.length < ys.length := by
      rw [List.length_append] at hj
      omega
    have hpos : p + j = p + xs.length + (j - xs.length) := by omega
    rw [List.getElem_append_right (by omega), hpos]
    exact hy _ hj'

theorem Holds.drop {p : ℕ} {xs : List α} (h : Holds M mem p xs) (k : ℕ) :
    Holds M mem (p + k) (xs.drop k) := by
  intro j hj
  rw [List.length_drop] at hj
  rw [List.getElem_drop, Nat.add_assoc]
  exact h (k + j) (by omega)

/-- What is stored is what a read through the ring returns. -/
theorem Holds.ringSlice {p n : ℕ} {xs : List α} (h : Holds M mem p xs) (hn : n ≤ xs.length) :
    ringSlice M mem p n = xs.take n := by
  apply List.ext_getElem
  · simp [hn]
  · intro j hj _
    rw [ringSlice_getElem hj, List.getElem_take]
    exact h j (by simp at hj; omega)

/-- A contiguous copy that stays inside one lap stores its data. -/
theorem holds_blit {p : ℕ} {xs : List α} (hfit : p % M + xs.length ≤ M) :
    Holds M (blit mem (p % M) xs) p xs := by
  intro j hj
  rw [slot_add (by omega), blit_hit]

/-- A copy leaves alone everything stored in the lap before the end of the copy. -/
theorem Holds.blit {p q : ℕ} {xs ys : List α} (h : Holds M mem q ys)
    (hfit : p % M + xs.length ≤ M) (hbefore : q + ys.length ≤ p)
    (hlap : p + xs.length ≤ q + M) : Holds M (blit mem (p % M) xs) q ys := by
  intro j hj
  rw [blit_miss, h j hj]
  by_contra hin
  push Not at hin
  obtain ⟨hlo, hhi⟩ := hin
  have hcell : (p + ((q + j) % M - p % M)) % M = (q + j) % M := by
    rw [slot_add (by omega)]
    omega
  exact slot_ne (by omega) (by omega) hcell.symm

end AudioFlinger.Foundation.RingMemory
