import AudioFlinger.Foundation.SortedVector
import Mathlib.Data.List.Perm.Basic

/-!
# Keyed vectors

A sorted vector of pairs, with one value for a key. Adding a key that is there
replaces its value. A keyed vector is determined by the values of its keys.
-/

namespace AudioFlinger.Foundation

open SortedVector

/-- Pairs in the strict order of their keys. -/
@[ext]
structure KeyedVector (κ β : Type*) [LinearOrder κ] where
  items : List (κ × β)
  sorted : Sorted Prod.fst items

namespace KeyedVector

variable {κ β : Type*} [LinearOrder κ]

def empty : KeyedVector κ β := ⟨[], List.Pairwise.nil⟩

def valueFor (v : KeyedVector κ β) (k : κ) : Option β :=
  (search Prod.fst v.items k).1.bind fun i => (v.items[i]?).map Prod.snd

def add (v : KeyedVector κ β) (k : κ) (x : β) : KeyedVector κ β :=
  ⟨insert Prod.fst v.items (k, x), sorted_insert v.sorted _⟩

def removeItem (v : KeyedVector κ β) (k : κ) : KeyedVector κ β :=
  (search Prod.fst v.items k).1.elim v fun i =>
    ⟨v.items.eraseIdx i, sorted_eraseIdx v.sorted i⟩

instance [DecidableEq β] : DecidableEq (KeyedVector κ β) := fun v w =>
  decidable_of_iff (v.items = w.items) KeyedVector.ext_iff.symm

variable {v w : KeyedVector κ β} {k k' : κ} {x : β}

/-- What a cut says about the value of its key. -/
theorem valueFor_of_search {below above : List (κ × β)} {hit : Option (κ × β)}
    (hcut : Cut Prod.fst v.items k below hit above)
    (hsearch : search Prod.fst v.items k = (hit.map fun _ => below.length, below.length)) :
    v.valueFor k = hit.map Prod.snd := by
  rw [valueFor, hsearch]
  cases hit with
  | none => rfl
  | some y => simp [hcut.eq]

/-- The pairs of the vector are the keys with their values. -/
theorem mem_items : (k, x) ∈ v.items ↔ v.valueFor k = some x := by
  obtain ⟨below, hit, above, hcut, hsearch⟩ := search_cases v.sorted k
  rw [valueFor_of_search hcut hsearch]
  constructor
  · intro hmem
    rw [hcut.hit_of_mem hmem rfl]
    rfl
  · intro hval
    obtain ⟨y, rfl, rfl⟩ := Option.map_eq_some_iff.mp hval
    obtain rfl := hcut.hit_eq y rfl
    rw [hcut.eq]
    simp

/-- A keyed vector is determined by its values. -/
theorem ext_valueFor (h : ∀ k, v.valueFor k = w.valueFor k) : v = w := by
  have hnodup : ∀ u : KeyedVector κ β, u.items.Nodup := by
    intro u
    refine u.sorted.imp ?_
    intro a b hab heq
    rw [heq] at hab
    exact lt_irrefl _ hab
  have hperm : v.items.Perm w.items := by
    apply (List.perm_ext_iff_of_nodup (hnodup v) (hnodup w)).mpr
    rintro ⟨k, x⟩
    rw [mem_items, mem_items, h k]
  apply KeyedVector.ext
  apply hperm.eq_of_pairwise _ v.sorted w.sorted
  intro a b _ _ hab hba
  exact absurd hab (lt_asymm hba)

@[simp] theorem valueFor_empty (k : κ) : (empty : KeyedVector κ β).valueFor k = none := rfl

theorem eq_empty_iff : v = empty ↔ ∀ k, v.valueFor k = none := by
  constructor
  · rintro rfl k
    rfl
  · intro h
    exact ext_valueFor h

theorem items_eq_nil_iff : v.items = [] ↔ v = empty := by
  rw [KeyedVector.ext_iff]
  rfl

theorem mem_add {y : κ × β} : y ∈ (v.add k x).items ↔ y = (k, x) ∨ y ∈ v.items ∧ y.1 ≠ k := by
  obtain ⟨below, hit, above, hcut, hsearch⟩ := search_cases v.sorted k
  have hitems : (v.add k x).items = below ++ (k, x) :: above :=
    @Cut.insert_eq _ _ _ Prod.fst _ _ _ _ (k, x) hcut hsearch
  rw [hitems, hcut.eq]
  constructor
  · intro hy
    rcases List.mem_append.mp hy with hy | hy
    · exact .inr ⟨by simp [hy], (hcut.below_lt y hy).ne⟩
    · rcases List.mem_cons.mp hy with rfl | hy
      · exact .inl rfl
      · exact .inr ⟨by simp [hy], (hcut.lt_above y hy).ne'⟩
  · rintro (rfl | ⟨hy, hne⟩)
    · simp
    · rcases List.mem_append.mp hy with hy | hy
      · rcases List.mem_append.mp hy with hy | hy
        · simp [hy]
        · exact absurd (hcut.hit_eq y (Option.mem_toList.mp hy)) hne
      · simp [hy]

theorem mem_removeItem {y : κ × β} : y ∈ (v.removeItem k).items ↔ y ∈ v.items ∧ y.1 ≠ k := by
  obtain ⟨below, hit, above, hcut, hsearch⟩ := search_cases v.sorted k
  cases hit with
  | none =>
    have hitems : (v.removeItem k).items = v.items := by rw [removeItem, hsearch]; rfl
    rw [hitems]
    refine ⟨fun hy => ⟨hy, fun hkey => ?_⟩, And.left⟩
    cases hcut.hit_of_mem hy hkey
  | some z =>
    have hitems : (v.removeItem k).items = below ++ above := by
      rw [removeItem, hsearch]
      change v.items.eraseIdx below.length = _
      rw [hcut.eq, List.append_assoc, List.eraseIdx_append_of_length_le (Nat.le_refl _)]
      simp
    rw [hitems, hcut.eq]
    constructor
    · intro hy
      rcases List.mem_append.mp hy with hy | hy
      · exact ⟨by simp [hy], (hcut.below_lt y hy).ne⟩
      · exact ⟨by simp [hy], (hcut.lt_above y hy).ne'⟩
    · rintro ⟨hy, hne⟩
      rcases List.mem_append.mp hy with hy | hy
      · rcases List.mem_append.mp hy with hy | hy
        · simp [hy]
        · exact absurd (hcut.hit_eq y (Option.mem_toList.mp hy)) hne
      · simp [hy]

theorem option_eq_of_mem {a b : Option β} (h : ∀ x, a = some x ↔ b = some x) : a = b := by
  cases a with
  | none =>
    cases b with
    | none => rfl
    | some y => exact absurd ((h y).mpr rfl) (by simp)
  | some y => exact ((h y).mp rfl).symm

theorem valueFor_add (v : KeyedVector κ β) (k k' : κ) (x : β) :
    (v.add k x).valueFor k' = if k' = k then some x else v.valueFor k' := by
  apply option_eq_of_mem
  intro y
  rw [← mem_items, mem_add]
  split
  next heq => simp [heq, eq_comm]
  next hne => simp [hne, mem_items]

@[simp] theorem valueFor_add_self : (v.add k x).valueFor k = some x := by
  rw [valueFor_add, if_pos rfl]

theorem valueFor_add_of_ne (h : k' ≠ k) : (v.add k x).valueFor k' = v.valueFor k' := by
  rw [valueFor_add, if_neg h]

theorem valueFor_removeItem (v : KeyedVector κ β) (k k' : κ) :
    (v.removeItem k).valueFor k' = if k' = k then none else v.valueFor k' := by
  apply option_eq_of_mem
  intro y
  rw [← mem_items, mem_removeItem]
  split
  next heq => simp [heq]
  next hne => simp [hne, mem_items]

@[simp] theorem valueFor_removeItem_self : (v.removeItem k).valueFor k = none := by
  rw [valueFor_removeItem, if_pos rfl]

theorem valueFor_removeItem_of_ne (h : k' ≠ k) :
    (v.removeItem k).valueFor k' = v.valueFor k' := by
  rw [valueFor_removeItem, if_neg h]

end KeyedVector

end AudioFlinger.Foundation
