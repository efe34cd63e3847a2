import Mathlib.Algebra.BigOperators.Group.List.Basic
import Mathlib.Algebra.GroupWithZero.Nat
import Mathlib.Data.List.Nodup

/-!
# Lists with distinct keys

The elements of a list have distinct keys, and one of them is written at its key.
A sum over the list changes by what the element changes, and lookups by the key
find the element that was written.
-/

namespace AudioFlinger.Foundation.KeyedList

variable {α κ : Type*} [DecidableEq κ] {key : α → κ}

/-- Write the element of a key. -/
def update (key : α → κ) (k : κ) (f : α → α) (xs : List α) : List α :=
  xs.map fun x => if key x = k then f x else x

/-- The element of a key. -/
def lookup (key : α → κ) (xs : List α) (k : κ) : Option α := xs.find? fun x => key x = k

variable {xs : List α} {k : κ} {x : α} {f : α → α}

theorem update_cons : update key k f (x :: xs) =
    (if key x = k then f x else x) :: update key k f xs := rfl

theorem update_of_not_mem (h : k ∉ xs.map key) : update key k f xs = xs := by
  have hid : ∀ x ∈ xs, (if key x = k then f x else x) = x := by
    intro x hx
    apply if_neg
    rintro rfl
    exact h (List.mem_map_of_mem hx)
  exact (List.map_congr_left hid).trans (List.map_id' xs)

theorem map_key_update (hf : ∀ x, key x = k → key (f x) = k) :
    (update key k f xs).map key = xs.map key := by
  rw [update, List.map_map]
  apply List.map_congr_left
  intro x _
  simp only [Function.comp]
  split
  next h => rw [hf x h, h]
  next => rfl

theorem lookup_some (h : lookup key xs k = some x) : x ∈ xs ∧ key x = k :=
  ⟨List.mem_of_find?_eq_some h, by simpa using List.find?_some h⟩

theorem lookup_none (h : lookup key xs k = none) : ∀ x ∈ xs, key x ≠ k := by
  intro x hx
  simpa using List.find?_eq_none.mp h x hx

/-- An element with distinct keys is found at its key. -/
theorem lookup_of_mem (hnodup : (xs.map key).Nodup) (hx : x ∈ xs) : lookup key xs (key x) = some x := by
  cases h : lookup key xs (key x) with
  | none => exact absurd rfl (lookup_none h x hx)
  | some y =>
    obtain ⟨hy, hkey⟩ := lookup_some h
    rw [List.inj_on_of_nodup_map hnodup hy hx hkey]

theorem lookup_update (hf : ∀ x, key x = k → key (f x) = k) (k' : κ) :
    lookup key (update key k f xs) k' =
      if k' = k then (lookup key xs k).map f else lookup key xs k' := by
  induction xs with
  | nil => split <;> rfl
  | cons x xs ih =>
    simp only [lookup] at ih
    simp only [lookup, update_cons, List.find?_cons]
    by_cases hx : key x = k
    · rw [if_pos hx]
      by_cases hk : k' = k
      · simp [hk, hx, hf x hx]
      · have hne : ¬ k = k' := fun h => hk h.symm
        rw [if_neg hk] at ih ⊢
        simpa [hf x hx, hx, hne] using ih
    · rw [if_neg hx]
      by_cases hk : k' = k
      · subst hk
        simpa [hx] using ih
      · rw [if_neg hk] at ih ⊢
        by_cases hxk : key x = k'
        · simp [hxk]
        · simpa [hxk] using ih

/-- A lookup of another key does not notice that an element goes. -/
theorem lookup_eraseP {k' : κ} (hne : k' ≠ k) :
    lookup key (xs.eraseP fun y => key y = k) k' = lookup key xs k' := by
  induction xs with
  | nil => rfl
  | cons x xs ih =>
    simp only [lookup] at ih ⊢
    by_cases hx : key x = k
    · have hskip : ¬ key x = k' := fun h => hne (h.symm.trans hx)
      rw [List.eraseP_cons_of_pos (by simpa using hx), List.find?_cons_of_neg (by simpa using hskip)]
    · rw [List.eraseP_cons_of_neg (by simpa using hx), List.find?_cons, List.find?_cons, ih]

/-- With distinct keys the key goes with its element. -/
theorem not_mem_eraseP (hnodup : (xs.map key).Nodup) (k : κ) : k ∉ (xs.eraseP fun y => key y = k).map key := by
  induction xs with
  | nil => exact List.not_mem_nil
  | cons x xs ih =>
    rw [List.map_cons, List.nodup_cons] at hnodup
    obtain ⟨hfresh, hnodup⟩ := hnodup
    by_cases hx : key x = k
    · rw [List.eraseP_cons_of_pos (by simpa using hx), ← hx]
      exact hfresh
    · rw [List.eraseP_cons_of_neg (by simpa using hx), List.map_cons, List.mem_cons]
      exact not_or.mpr ⟨fun h => hx h.symm, ih hnodup⟩

theorem lookup_eraseP_self (hnodup : (xs.map key).Nodup) (k : κ) :
    lookup key (xs.eraseP fun y => key y = k) k = none := by
  rw [lookup, List.find?_eq_none]
  intro y hy
  have hmem : key y ∈ (xs.eraseP fun y => key y = k).map key := List.mem_map_of_mem hy
  simpa using ne_of_mem_of_not_mem hmem (not_mem_eraseP hnodup k)

theorem lookup_append {ys : List α} (h : lookup key xs k = some x) : lookup key (xs ++ ys) k = some x := by
  rw [lookup] at h ⊢
  rw [List.find?_append, h]
  rfl

theorem countP_eq_sum (p : α → Bool) (xs : List α) : xs.countP p = (xs.map fun x => (p x).toNat).sum := by
  induction xs with
  | nil => rfl
  | cons x xs ih =>
    rw [List.countP_cons, ih, List.map_cons, List.sum_cons, Nat.add_comm]
    cases p x <;> rfl

/-- A sum changes by what the written element changes. -/
theorem sum_update (hnodup : (xs.map key).Nodup) (hx : x ∈ xs) (f : α → α) (weight : α → ℕ) :
    ((update key (key x) f xs).map weight).sum + weight x = (xs.map weight).sum + weight (f x) := by
  induction xs with
  | nil => cases hx
  | cons y ys ih =>
    rw [List.map_cons, List.nodup_cons] at hnodup
    obtain ⟨hfresh, hnodup⟩ := hnodup
    rw [update_cons]
    by_cases hy : key y = key x
    · have hxy : x = y := by
        rcases List.mem_cons.mp hx with rfl | hmem
        · rfl
        · exact absurd (hy ▸ List.mem_map_of_mem hmem) hfresh
      subst hxy
      rw [if_pos rfl, update_of_not_mem hfresh]
      simp only [List.map_cons, List.sum_cons]
      omega
    · have hmem : x ∈ ys := by
        rcases List.mem_cons.mp hx with rfl | hmem
        · exact absurd rfl hy
        · exact hmem
      have hsum := ih hnodup hmem
      rw [if_neg hy]
      simp only [List.map_cons, List.sum_cons]
      omega

/-- Without the element of a key the sum loses what it had. -/
theorem sum_erase (hx : lookup key xs k = some x) (weight : α → ℕ) :
    ((xs.eraseP fun y => key y = k).map weight).sum + weight x = (xs.map weight).sum := by
  induction xs with
  | nil => cases hx
  | cons y ys ih =>
    simp only [lookup, List.find?_cons] at hx
    by_cases hy : key y = k
    · simp only [hy, decide_true, Option.some.injEq] at hx
      subst hx
      simp only [hy, decide_true, List.eraseP_cons_of_pos, List.map_cons, List.sum_cons]
      omega
    · simp only [hy, decide_false] at hx
      have hsum := ih hx
      rw [List.eraseP_cons_of_neg (by simpa using hy)]
      simp only [List.map_cons, List.sum_cons]
      omega

end AudioFlinger.Foundation.KeyedList
