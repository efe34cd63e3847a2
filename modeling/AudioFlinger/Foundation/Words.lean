import Mathlib.Algebra.BigOperators.Group.List.Basic
import Mathlib.Algebra.Ring.Int.Defs
import Mathlib.Data.List.Induction
import Mathlib.Data.Nat.Bitwise
import Mathlib.Tactic.Common

/-!
# Words as sums and as sets
-/

/-!
## Accumulators of `w` bits

Integers are added up in a word of `w` bits. The word is the sum modulo
`2 ^ w`; it is the sum itself exactly when the sum fits, and no addition on
the way wraps exactly when every partial sum fits.
-/

namespace AudioFlinger.Foundation.Accumulator

variable {w : ℕ}

/-- A signed word of `w` bits holds `z`. -/
def Fits (w : ℕ) (z : ℤ) : Prop := (BitVec.ofInt w z).toInt = z

theorem fits_iff {z : ℤ} : Fits (w + 1) z ↔ -2 ^ w ≤ z ∧ z < 2 ^ w := by
  have hpow : (2 : ℤ) ^ (w + 1) = 2 * 2 ^ w := Int.pow_succ' 2 w
  constructor
  · intro h
    have hlo := (BitVec.ofInt (w + 1) z).le_toInt
    have hhi := (BitVec.ofInt (w + 1) z).toInt_lt
    rw [h, Nat.add_sub_cancel] at hlo hhi
    exact ⟨hlo, hhi⟩
  · rintro ⟨hlo, hhi⟩
    rw [Fits, BitVec.toInt_ofInt]
    apply Int.bmod_eq_of_le_mul_two <;> push_cast <;> lia

/-- Add up in a word. -/
def accumulate (acc : BitVec w) (zs : List ℤ) : BitVec w :=
  zs.foldl (fun acc z => acc + BitVec.ofInt w z) acc

theorem accumulate_eq (acc : BitVec w) (zs : List ℤ) :
    accumulate acc zs = acc + BitVec.ofInt w zs.sum := by
  induction zs generalizing acc with
  | nil => simp [accumulate]
  | cons z zs ih =>
    change accumulate (acc + BitVec.ofInt w z) zs = _
    rw [ih, List.sum_cons, BitVec.ofInt_add, BitVec.add_assoc]

theorem toInt_accumulate (zs : List ℤ) :
    (accumulate (0#w) zs).toInt = (BitVec.ofInt w zs.sum).toInt := by
  rw [accumulate_eq, BitVec.zero_add]

/-- No addition on the way wraps. -/
def NoWrap (w : ℕ) (zs : List ℤ) : Prop :=
  ∀ before z after, zs = before ++ z :: after →
    (accumulate (0#w) (before ++ [z])).toInt = (accumulate (0#w) before).toInt + z

theorem noWrap_iff {zs : List ℤ} : NoWrap w zs ↔ ∀ before, before <+: zs → Fits w before.sum := by
  constructor
  · intro h before hbefore
    induction before using List.reverseRecOn with
    | nil => simp [Fits]
    | append_singleton before z ih =>
      have hfits : Fits w before.sum := ih ((List.prefix_append before [z]).trans hbefore)
      obtain ⟨after, hafter⟩ := hbefore
      have hstep := h before z after (by rw [← hafter]; simp)
      rw [toInt_accumulate, toInt_accumulate, hfits] at hstep
      rw [Fits, hstep, List.sum_append, List.sum_singleton]
  · intro h before z after hsplit
    have hbefore : Fits w before.sum := h before ⟨z :: after, hsplit.symm⟩
    have hnext : Fits w (before ++ [z]).sum := h (before ++ [z]) ⟨after, by rw [hsplit]; simp⟩
    rw [toInt_accumulate, toInt_accumulate, hbefore, hnext, List.sum_append, List.sum_singleton]

end AudioFlinger.Foundation.Accumulator

/-!
## Masks of bits

A word as a set of small numbers: a bit is set, cleared, or looked for from the
lowest up.
-/

namespace AudioFlinger.Foundation.BitMask

variable {w : ℕ}

def setBit (m : BitVec w) (j : ℕ) : BitVec w := m ||| 1#w <<< j

def clearBit (m : BitVec w) (j : ℕ) : BitVec w := m &&& ~~~(1#w <<< j)

/-- The lowest bit that is set. -/
def lowest (m : BitVec w) : Option ℕ := (List.range w).find? fun j => m.getLsbD j

theorem getLsbD_one_shiftLeft (i j : ℕ) (hi : i < w) : (1#w <<< j).getLsbD i = decide (i = j) := by
  rw [BitVec.getLsbD_shiftLeft, BitVec.getLsbD_one]
  by_cases heq : i = j
  · have hpos : 0 < w := Nat.lt_of_le_of_lt (Nat.zero_le i) hi
    simp [heq, hpos]
    omega
  · by_cases hlt : i < j
    · simp [hlt, heq]
    · have hne : i - j ≠ 0 := by omega
      simp [heq, hne]

@[simp] theorem getLsbD_setBit (m : BitVec w) (i j : ℕ) (hi : i < w) :
    (setBit m j).getLsbD i = (m.getLsbD i || decide (i = j)) := by
  rw [setBit, BitVec.getLsbD_or, getLsbD_one_shiftLeft i j hi]

@[simp] theorem getLsbD_clearBit (m : BitVec w) (i j : ℕ) (hi : i < w) :
    (clearBit m j).getLsbD i = (m.getLsbD i && decide (i ≠ j)) := by
  rw [clearBit, BitVec.getLsbD_and, BitVec.getLsbD_not, getLsbD_one_shiftLeft i j hi, decide_eq_true hi,
    Bool.true_and, decide_not]

theorem setBit_of_getLsbD {m : BitVec w} {j : ℕ} (h : m.getLsbD j = true) : setBit m j = m := by
  apply BitVec.eq_of_getLsbD_eq
  intro i hi
  rw [getLsbD_setBit m i j hi]
  by_cases heq : i = j
  · rw [heq, h, Bool.true_or]
  · rw [decide_eq_false heq, Bool.or_false]

theorem lowest_some {m : BitVec w} {j : ℕ} (h : lowest m = some j) : j < w ∧ m.getLsbD j = true :=
  ⟨List.mem_range.mp (List.mem_of_find?_eq_some h), List.find?_some h⟩

end AudioFlinger.Foundation.BitMask
