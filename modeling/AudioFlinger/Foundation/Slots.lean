import Mathlib.Data.List.Basic
import Mathlib.Data.Nat.Notation
import Mathlib.Data.Option.Basic
import Mathlib.Tactic.Common

/-!
# Blocks of slots

Reading and writing runs of slots of a block. Access beyond the end of the block
has no result; an empty run touches nothing. What a write leaves is described
slot by slot.
-/

namespace AudioFlinger.Foundation.Slots

variable {β : Type*} {xs ys zs : List β} {i k n : ℕ}

/-- Read `n` slots from `i` on. -/
def get (xs : List β) (i n : ℕ) : Option (List β) :=
  if n = 0 ∨ i + n ≤ xs.length then some ((xs.drop i).take n) else none

/-- Write a run of slots from `i` on. -/
def put (xs : List β) (i : ℕ) (ys : List β) : Option (List β) :=
  if ys.length = 0 ∨ i + ys.length ≤ xs.length then
    some (xs.take i ++ ys ++ xs.drop (i + ys.length))
  else none

theorem get_eq (xs : List β) (h : i + n ≤ xs.length) : get xs i n = some ((xs.drop i).take n) :=
  if_pos (.inr h)

theorem get_append (as bs cs : List β) : get (as ++ bs ++ cs) as.length bs.length = some bs := by
  rw [get_eq _ (by simp), List.append_assoc, List.drop_left, List.take_left]

theorem put_append (as bs ys cs : List β) (h : ys.length = bs.length) :
    put (as ++ bs ++ cs) as.length ys = some (as ++ ys ++ cs) := by
  rw [put, if_pos (.inr (by simp [h])), h, List.append_assoc as bs, List.take_left,
    ← List.append_assoc as bs, ← List.length_append, List.drop_left]

theorem length_put (h : put xs i ys = some zs) : zs.length = xs.length := by
  rw [put, Option.ite_none_right_eq_some] at h
  obtain ⟨hrange, h⟩ := h
  have hlen := congrArg List.length (Option.some_injective _ h)
  simp only [List.length_append, List.length_take, List.length_drop] at hlen
  omega

theorem getElem?_put (h : put xs i ys = some zs) (k : ℕ) :
    zs[k]? = if i ≤ k ∧ k < i + ys.length then ys[k - i]? else xs[k]? := by
  rw [put, Option.ite_none_right_eq_some] at h
  obtain ⟨hrange, h⟩ := h
  obtain rfl := Option.some_injective _ h
  rcases hrange with hnil | hrange
  · obtain rfl := List.length_eq_zero_iff.mp hnil
    rw [if_neg (by simp)]
    simp
  · have htake : (xs.take i).length = i := by
      rw [List.length_take]
      omega
    split
    · rename_i hk
      rw [List.append_assoc, List.getElem?_append_right (by omega), htake,
        List.getElem?_append_left (by omega)]
    · rename_i hk
      rcases Nat.lt_or_ge k i with hlt | hge
      · rw [List.append_assoc, List.getElem?_append_left (by omega),
          List.getElem?_take_of_lt hlt]
      · rw [List.getElem?_append_right (by rw [List.length_append]; omega), List.length_append,
          htake, List.getElem?_drop]
        congr 1
        omega

theorem exists_put (xs : List β) (i : ℕ) (ys : List β) (h : i + ys.length ≤ xs.length) : ∃ zs, put xs i ys = some zs :=
  ⟨_, if_pos (.inr h)⟩

theorem getElem?_get {rs : List β} (h : get xs i n = some rs) (k : ℕ) :
    rs[k]? = if k < n then xs[i + k]? else none := by
  rw [get, Option.ite_none_right_eq_some] at h
  obtain ⟨-, h⟩ := h
  obtain rfl := Option.some_injective _ h
  rw [List.getElem?_take, List.getElem?_drop]

theorem length_get {rs : List β} (h : get xs i n = some rs) : rs.length = n := by
  rw [get, Option.ite_none_right_eq_some] at h
  obtain ⟨hrange, h⟩ := h
  obtain rfl := Option.some_injective _ h
  rw [List.length_take, List.length_drop]
  omega

end AudioFlinger.Foundation.Slots
