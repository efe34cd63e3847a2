import Mathlib.Data.Fintype.EquivFin
import Mathlib.Data.Int.GCD
import Mathlib.Data.List.Perm.Basic
import Mathlib.Data.Nat.ModEq
import Mathlib.Data.Nat.Prime.Basic
import Mathlib.Tactic.Common

/-!
# Buckets and probes
-/

/-!
## Chained buckets

A table is a list of buckets, each of which is a list of entries. Every entry
lies in the bucket of its index. Up to order, the entries of a table are those
of one bucket and those of the others.
-/

namespace AudioFlinger.Foundation.Chains

variable {ε : Type*}

/-- Every entry lies in the bucket of its index. -/
def Placed (index : ε → ℕ) (buckets : List (List ε)) : Prop :=
  ∀ i b, buckets[i]? = some b → ∀ e ∈ b, index e = i

/-- The entries of the other buckets. -/
def others (buckets : List (List ε)) (i : ℕ) : List ε := (buckets.eraseIdx i).flatten

variable {index : ε → ℕ} {buckets : List (List ε)} {i : ℕ} {b b' : List ε} {e : ε}

theorem flatten_perm (hb : buckets[i]? = some b) :
    buckets.flatten.Perm (b ++ others buckets i) := by
  induction buckets generalizing i with
  | nil => simp at hb
  | cons c buckets ih =>
    cases i with
    | zero =>
      rw [List.getElem?_cons_zero, Option.some.injEq] at hb
      subst hb
      exact .refl _
    | succ i =>
      rw [List.getElem?_cons_succ] at hb
      rw [others, List.eraseIdx_cons_succ, List.flatten_cons, List.flatten_cons]
      refine ((ih hb).append_left c).trans ?_
      rw [← List.append_assoc, ← List.append_assoc]
      exact List.perm_append_comm.append_right _

theorem set_flatten_perm (hb : buckets[i]? = some b) (b' : List ε) :
    (buckets.set i b').flatten.Perm (b' ++ others buckets i) := by
  have hlt : i < buckets.length := (List.getElem?_eq_some_iff.mp hb).1
  have hset : (buckets.set i b')[i]? = some b' := by
    rw [List.getElem?_set_self hlt]
  have hothers : others (buckets.set i b') i = others buckets i := by
    rw [others, List.eraseIdx_set_eq, others]
  rw [← hothers]
  exact flatten_perm hset

/-- The entries up to the end of a bucket. -/
theorem flatten_take (hb : buckets[i]? = some b) :
    (buckets.take (i + 1)).flatten = (buckets.take i).flatten ++ b := by
  rw [List.take_add_one, hb, Option.toList_some, List.flatten_append, List.flatten_singleton]

theorem Placed.set (h : Placed index buckets) (hb' : ∀ e ∈ b', index e = i) :
    Placed index (buckets.set i b') := by
  intro j c hc e he
  rw [List.getElem?_set] at hc
  split_ifs at hc with hij hlt
  · cases hc
    rw [← hij]
    exact hb' e he
  · exact h j c hc e he

theorem Placed.mem_others (h : Placed index buckets) (he : e ∈ others buckets i) :
    index e ≠ i := by
  rw [others, List.mem_flatten] at he
  obtain ⟨c, hc, hmem⟩ := he
  obtain ⟨j, hj⟩ := List.getElem?_of_mem hc
  rw [List.getElem?_eraseIdx] at hj
  split_ifs at hj with hlt
  · rw [h j c hj e hmem]
    exact Nat.ne_of_lt hlt
  · rw [h (j + 1) c hj e hmem]
    omega

/-- An entry lies in the bucket of its index. -/
theorem Placed.mem_bucket (h : Placed index buckets) (hb : buckets[index e]? = some b)
    (he : e ∈ buckets.flatten) : e ∈ b := by
  rcases List.mem_append.mp ((flatten_perm hb).mem_iff.mp he) with hmem | hmem
  · exact hmem
  · exact absurd rfl (h.mem_others hmem)

/-! ## Moving all entries to more buckets -/

/-- Push every entry in front of the bucket of its index. -/
def spread (index : ε → ℕ) (entries : List ε) (buckets : List (List ε)) : List (List ε) :=
  entries.foldl (fun buckets e => buckets.modify (index e) (e :: ·)) buckets

theorem modify_eq_set (hb : buckets[i]? = some b) (e : ε) :
    buckets.modify i (e :: ·) = buckets.set i (e :: b) := by
  rw [List.modify_eq_set_getElem?, hb]
  rfl

@[simp] theorem spread_length (entries : List ε) :
    (spread index entries buckets).length = buckets.length := by
  induction entries generalizing buckets with
  | nil => rfl
  | cons e entries ih =>
    rw [spread, List.foldl_cons]
    exact (@ih (buckets.modify (index e) (e :: ·))).trans (List.length_modify ..)

theorem spread_spec {entries : List ε} (hindex : ∀ e ∈ entries, index e < buckets.length)
    (h : Placed index buckets) :
    Placed index (spread index entries buckets) ∧
      (spread index entries buckets).flatten.Perm (entries ++ buckets.flatten) := by
  induction entries generalizing buckets with
  | nil => exact ⟨h, .refl _⟩
  | cons e entries ih =>
    have hb := List.getElem?_eq_getElem (hindex e List.mem_cons_self)
    have hmodify := modify_eq_set hb e
    have hplaced : Placed index (buckets.modify (index e) (e :: ·)) := by
      rw [hmodify]
      apply h.set
      intro x hx
      rcases List.mem_cons.mp hx with rfl | hx
      · rfl
      · exact h _ _ hb x hx
    obtain ⟨hplaced', hperm⟩ := @ih (buckets.modify (index e) (e :: ·))
      (fun x hx => by
        rw [List.length_modify]
        exact hindex x (List.mem_cons_of_mem e hx)) hplaced
    refine ⟨hplaced', hperm.trans ?_⟩
    have hone : (buckets.modify (index e) (e :: ·)).flatten.Perm (e :: buckets.flatten) := by
      rw [hmodify]
      exact (set_flatten_perm hb _).trans ((flatten_perm hb).symm.cons e)
    refine (hone.append_left entries).trans ?_
    exact List.perm_middle

/-- Empty buckets. -/
theorem placed_replicate (n : ℕ) : Placed index (List.replicate n []) := by
  intro i b hb e he
  rw [List.getElem?_replicate] at hb
  split_ifs at hb
  cases hb
  cases he

end AudioFlinger.Foundation.Chains

/-!
## Probe sequences

A table of `n` cells is searched from a start in steps of a fixed size. If the
step has no divisor in common with `n`, the first `n` probes meet every cell,
each of them once.
-/

namespace AudioFlinger.Foundation.Probing

/-- The cell of the `j`-th probe. -/
def slot (n start inc j : ℕ) : ℕ := (start + j * inc) % n

variable {n start inc : ℕ}

theorem slot_lt (hn : 0 < n) (start inc j : ℕ) : slot n start inc j < n := Nat.mod_lt _ hn

theorem slot_zero (h : start < n) : slot n start inc 0 = start := by
  rw [slot, Nat.zero_mul, Nat.add_zero, Nat.mod_eq_of_lt h]

/-- One probe on. -/
theorem slot_succ (n start inc j : ℕ) :
    (slot n start inc j + inc) % n = slot n start inc (j + 1) := by
  rw [slot, slot, Nat.mod_add_mod, Nat.add_assoc, ← Nat.succ_mul]

theorem slot_injective (h : inc.Coprime n) {j k : ℕ} (hj : j < n) (hk : k < n)
    (heq : slot n start inc j = slot n start inc k) : j = k := by
  have hmul : Nat.ModEq n (j * inc) (k * inc) := Nat.ModEq.add_left_cancel' start heq
  have hmod : Nat.ModEq n j k := Nat.ModEq.cancel_right_of_coprime h.symm hmul
  exact Nat.ModEq.eq_of_lt_of_lt hmod hj hk

/-- Every cell is met. -/
theorem slot_surjective (h : inc.Coprime n) {b : ℕ} (hb : b < n) :
    ∃ j, j < n ∧ slot n start inc j = b := by
  have hn : 0 < n := Nat.zero_lt_of_lt hb
  let probe : Fin n → Fin n := fun j => ⟨slot n start inc j, slot_lt hn start inc j⟩
  have hinj : Function.Injective probe := by
    intro j k hjk
    exact Fin.ext (slot_injective h j.isLt k.isLt (congrArg Fin.val hjk))
  obtain ⟨j, hj⟩ := Finite.surjective_of_injective hinj ⟨b, hb⟩
  exact ⟨j, j.isLt, congrArg Fin.val hj⟩

/-- A step that is smaller than a prime number of cells. -/
theorem coprime_of_prime (hp : n.Prime) (hpos : 0 < inc) (hlt : inc < n) : inc.Coprime n :=
  (Nat.coprime_of_lt_prime hpos.ne' hlt hp).symm

end AudioFlinger.Foundation.Probing
