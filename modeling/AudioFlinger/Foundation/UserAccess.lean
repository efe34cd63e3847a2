import Mathlib.Algebra.Order.Ring.Int
import Mathlib.Data.List.Basic
import Mathlib.Data.Nat.Notation
import Mathlib.Tactic.Common

/-!
# Access to a user's buffer

A cursor moves through a buffer field by field. Each field is asked for as a
whole and can fault; places are counted from the start of the buffer and can lie
outside of it.
-/

namespace AudioFlinger.Foundation.UserAccess

structure Access where
  place : ℤ
  length : ℕ
  deriving DecidableEq

def Access.Within (size : ℤ) (a : Access) : Prop :=
  0 ≤ a.place ∧ a.place + a.length ≤ size

instance (size : ℤ) (a : Access) : Decidable (a.Within size) :=
  inferInstanceAs (Decidable (_ ∧ _))

variable (ok : Access → Bool)

/-- The accesses for fields of these lengths, and whether none of them faults. -/
def visit : List ℕ → ℤ → List Access × Bool
  | [], _ => ([], true)
  | n :: ns, p =>
    if ok ⟨p, n⟩ then (⟨p, n⟩ :: (visit ns (p + n)).1, (visit ns (p + n)).2)
    else ([⟨p, n⟩], false)

/-- The fields up to the first that faults end within the size. -/
def FieldsFit (size : ℤ) : List ℕ → ℤ → Prop
  | [], _ => True
  | n :: ns, p => p + n ≤ size ∧ (ok ⟨p, n⟩ = true → FieldsFit size ns (p + n))

variable {ok} {size p : ℤ} {ns : List ℕ} {n : ℕ}

theorem visit_within_iff (hp : 0 ≤ p) :
    (∀ a ∈ (visit ok ns p).1, a.Within size) ↔ FieldsFit ok size ns p := by
  induction ns generalizing p with
  | nil => simp [visit, FieldsFit]
  | cons n ns ih =>
    have hfirst : (⟨p, n⟩ : Access).Within size ↔ p + n ≤ size := and_iff_right hp
    by_cases hok : ok ⟨p, n⟩ = true
    · rw [visit, if_pos hok, List.forall_mem_cons, hfirst, ih (by omega), FieldsFit,
        forall_prop_of_true hok]
    · simp [visit, hok, FieldsFit, hfirst]

/-- Fields that are all asked for end where their lengths end. -/
theorem FieldsFit.end_le (h : FieldsFit ok size ns p) (hok : (visit ok ns p).2 = true)
    (hp : p ≤ size) : p + ns.sum ≤ size := by
  induction ns generalizing p with
  | nil => simpa using hp
  | cons n ns ih =>
    obtain ⟨hfirst, hrest⟩ := h
    by_cases hn : ok ⟨p, n⟩ = true
    · rw [visit, if_pos hn] at hok
      have hend := ih (hrest hn) hok hfirst
      rw [List.sum_cons, Nat.cast_add]
      omega
    · simp [visit, hn] at hok

/-- Fields that end within the size when all are asked for do so when some fault. -/
theorem fieldsFit_of_le (h : p + ns.sum ≤ size) : FieldsFit ok size ns p := by
  induction ns generalizing p with
  | nil => trivial
  | cons n ns ih =>
    rw [List.sum_cons, Nat.cast_add] at h
    exact ⟨by omega, fun _ => ih (by omega)⟩

theorem visit_within (ok : Access → Bool) (hp : 0 ≤ p) (h : p + ns.sum ≤ size) :
    ∀ a ∈ (visit ok ns p).1, a.Within size :=
  (visit_within_iff hp).mpr (fieldsFit_of_le h)

end AudioFlinger.Foundation.UserAccess
