import AudioFlinger.Foundation.SortedVector
import Mathlib.Order.Antisymmetrization

/-!
# Comparisons

A three-way comparison that orders its arguments as a total preorder. Items that
compare equal are one key, and the keys are a linear order: what is known of
vectors sorted by a key holds of vectors sorted by a comparison.
-/

namespace AudioFlinger.Foundation

universe u

/-- The sign of `compare a b` says how `a` stands to `b`. -/
structure Comparison (α : Type u) where
  compare : α → α → ℤ
  neg_iff_pos : ∀ a b, compare a b < 0 ↔ 0 < compare b a
  nonpos_trans : ∀ a b c, compare a b ≤ 0 → compare b c ≤ 0 → compare a c ≤ 0

namespace Comparison

variable {α : Type u} (c : Comparison α)

theorem compare_self (a : α) : c.compare a a = 0 := by
  have h := c.neg_iff_pos a a
  omega

theorem nonpos_iff (a b : α) : c.compare a b ≤ 0 ↔ 0 ≤ c.compare b a := by
  have h := c.neg_iff_pos b a
  omega

/-- The items with the order of their keys. -/
def Keyed (_ : Comparison α) : Type u := α

instance : Preorder c.Keyed where
  le a b := c.compare a b ≤ 0
  le_refl a := (c.compare_self a).le
  le_trans := c.nonpos_trans

instance : Std.Total (α := c.Keyed) (· ≤ ·) where
  total a b := by
    have h := c.neg_iff_pos b a
    change c.compare a b ≤ 0 ∨ c.compare b a ≤ 0
    omega

/-- A key: the items that compare equal to one item. -/
def Key : Type u := Antisymmetrization c.Keyed (· ≤ ·)

open Classical in
noncomputable instance : LinearOrder c.Key :=
  inferInstanceAs (LinearOrder (Antisymmetrization c.Keyed (· ≤ ·)))

/-- The key of an item. -/
def key (a : α) : c.Key := toAntisymmetrization (α := c.Keyed) (· ≤ ·) a

variable {c}

theorem key_le_key {a b : α} : c.key a ≤ c.key b ↔ c.compare a b ≤ 0 := Iff.rfl

theorem key_lt_key {a b : α} : c.key a < c.key b ↔ c.compare a b < 0 := by
  have h := c.neg_iff_pos a b
  rw [← not_le, key_le_key]
  omega

theorem key_eq_key {a b : α} : c.key a = c.key b ↔ c.compare a b = 0 := by
  have h := c.nonpos_iff b a
  rw [le_antisymm_iff, key_le_key, key_le_key]
  omega

theorem compare_eq_zero_comm {a b : α} : c.compare a b = 0 ↔ c.compare b a = 0 := by
  rw [← key_eq_key, eq_comm, key_eq_key]

/-! ## Looking an item up -/

variable (c)

/-- The first item that compares equal. -/
def lookup (xs : List α) (k : α) : Option α := xs.find? fun x => c.compare x k = 0

variable {c} {xs ys : List α} {k : α}

theorem lookup_append : c.lookup (xs ++ ys) k = (c.lookup xs k).or (c.lookup ys k) :=
  List.find?_append

theorem lookup_singleton (x : α) :
    c.lookup [x] k = if c.compare x k = 0 then some x else none := by
  by_cases h : c.compare x k = 0 <;> simp [lookup, h]

theorem lookup_eq_none (h : ∀ x ∈ xs, c.key x ≠ c.key k) : c.lookup xs k = none := by
  apply List.find?_eq_none.mpr
  intro x hx
  simpa [key_eq_key] using h x hx

theorem key_of_lookup {x : α} (h : c.lookup xs k = some x) : x ∈ xs ∧ c.key x = c.key k := by
  refine ⟨List.mem_of_find?_eq_some h, ?_⟩
  simpa [key_eq_key] using List.find?_some h

open SortedVector in
/-- Where no two items compare equal, the last item of a key is the first. -/
theorem lookup_reverse (hs : Sorted c.key xs) : c.lookup xs.reverse k = c.lookup xs k := by
  obtain ⟨below, hit, above, hcut, -⟩ := search_cases hs (c.key k)
  have hbelow : c.lookup below.reverse k = none :=
    lookup_eq_none fun x hx => (hcut.below_lt x (List.mem_reverse.mp hx)).ne
  have habove : c.lookup above.reverse k = none :=
    lookup_eq_none fun x hx => (hcut.lt_above x (List.mem_reverse.mp hx)).ne'
  have hhit : c.lookup hit.toList.reverse k = c.lookup hit.toList k := by
    cases hit <;> rfl
  rw [hcut.eq, List.reverse_append, List.reverse_append, lookup_append, lookup_append,
    lookup_append, lookup_append, hbelow, habove, hhit, Option.none_or, Option.or_none,
    lookup_eq_none fun x hx => (hcut.below_lt x hx).ne,
    lookup_eq_none fun x hx => (hcut.lt_above x hx).ne', Option.none_or, Option.or_none]

/-! ## Stable sorting -/

variable (c)

/-- The second list is the first one in order, items that compare equal in the order they had. -/
structure StablySorted (xs ys : List α) : Prop where
  sorted : ys.Pairwise fun x y => c.compare x y ≤ 0
  perm : ys.Perm xs
  stable : ∀ k, (ys.filter fun x => c.compare x k = 0) = xs.filter fun x => c.compare x k = 0

variable {c}

theorem stablySorted_self (h : xs.Pairwise fun x y => c.compare x y ≤ 0) : c.StablySorted xs xs :=
  ⟨h, .refl _, fun _ => rfl⟩

/-- One more item, put behind all that are not greater. -/
theorem StablySorted.concat {before after : List α} {x : α}
    (h : c.StablySorted xs (before ++ after)) (hafter : ∀ y ∈ after, 0 < c.compare y x)
    (hbefore : ∀ y ∈ before.getLast?, c.compare y x ≤ 0) :
    c.StablySorted (xs ++ [x]) (before ++ x :: after) := by
  obtain ⟨hsorted, hperm, hstable⟩ := h
  obtain ⟨hsortedBefore, hsortedAfter, hcross⟩ := List.pairwise_append.mp hsorted
  have hall : ∀ y ∈ before, c.compare y x ≤ 0 := by
    intro y hy
    obtain ⟨front, last, rfl⟩ := (List.eq_nil_or_concat before).resolve_left
      (List.ne_nil_of_mem hy)
    rw [List.concat_eq_append] at *
    have hlast := hbefore last (by simp)
    rcases List.mem_append.mp hy with hy | hy
    · have hle := (List.pairwise_append.mp hsortedBefore).2.2 y hy last (by simp)
      exact c.nonpos_trans y last x hle hlast
    · rw [List.mem_singleton.mp hy]
      exact hlast
  refine ⟨?_, ?_, fun k => ?_⟩
  · refine List.pairwise_append.mpr ⟨hsortedBefore, List.pairwise_cons.mpr ⟨?_, hsortedAfter⟩, ?_⟩
    · exact fun y hy => ((c.neg_iff_pos x y).mpr (hafter y hy)).le
    · intro y hy z hz
      rcases List.mem_cons.mp hz with rfl | hz
      · exact hall y hy
      · exact hcross y hy z hz
  · calc
      (before ++ x :: after).Perm (x :: (before ++ after)) := List.perm_middle
      _ |>.Perm (x :: xs) := hperm.cons x
      _ |>.Perm (xs ++ [x]) := (List.perm_append_singleton x xs).symm
  · rw [List.filter_append, List.filter_append, ← hstable k, List.filter_append,
      List.filter_cons]
    by_cases hk : c.compare x k = 0
    · have hnone : (after.filter fun y => c.compare y k = 0) = [] := by
        rw [List.filter_eq_nil_iff]
        intro y hy hyk
        rw [decide_eq_true_iff, ← key_eq_key] at hyk
        have hlt := key_lt_key.mpr ((c.neg_iff_pos x y).mpr (hafter y hy))
        rw [hyk, key_eq_key.mpr hk] at hlt
        exact lt_irrefl _ hlt
      simp [hk, hnone]
    · simp [hk]

end Comparison

end AudioFlinger.Foundation
