import Mathlib.Algebra.BigOperators.Group.List.Basic
import Mathlib.Algebra.Order.BigOperators.Group.List
import Mathlib.Algebra.Order.Ring.Nat
import Mathlib.Data.List.Basic
import Mathlib.Data.List.InsertIdx
import Mathlib.Tactic.Common

/-!
# Positions, sums and edits of lists
-/

/-!
## Positions in a list

The first and the last position of an element with a property, as a scan from the
front finds them, and what a pairwise relation needs of the place where an
element is inserted.
-/

namespace AudioFlinger.Foundation.Positions

variable {α : Type*} {p : α → Bool} {xs : List α} {o : Option ℕ} {x : α}

/-- The position of the first element with the property, if there is one. -/
def FirstAt (p : α → Bool) (xs : List α) (o : Option ℕ) : Prop :=
  (o = none ∧ ∀ x ∈ xs, p x = false) ∨
    ∃ before x after, xs = before ++ x :: after ∧ o = some before.length ∧ p x = true ∧
      ∀ y ∈ before, p y = false

/-- The position of the last element with the property, if there is one. -/
def LastAt (p : α → Bool) (xs : List α) (o : Option ℕ) : Prop :=
  (o = none ∧ ∀ x ∈ xs, p x = false) ∨
    ∃ before x after, xs = before ++ x :: after ∧ o = some before.length ∧ p x = true ∧
      ∀ y ∈ after, p y = false

theorem firstAt_nil : FirstAt p [] none := .inl ⟨rfl, nofun⟩

theorem lastAt_nil : LastAt p [] none := .inl ⟨rfl, nofun⟩

theorem FirstAt.concat (h : FirstAt p xs o) (x : α) :
    FirstAt p (xs ++ [x]) (if p x then o.or (some xs.length) else o) := by
  rcases h with ⟨rfl, hnone⟩ | ⟨before, y, after, rfl, rfl, hy, hbefore⟩
  · by_cases hx : p x = true
    · rw [if_pos hx]
      exact .inr ⟨xs, x, [], rfl, rfl, hx, hnone⟩
    · rw [if_neg hx]
      refine .inl ⟨rfl, fun y hy => ?_⟩
      rcases List.mem_append.mp hy with hy | hy
      · exact hnone y hy
      · rw [List.mem_singleton.mp hy]
        simpa using hx
  · have ho : (if p x then (some before.length).or (some (before ++ y :: after).length)
        else some before.length) = some before.length := by
      split <;> rfl
    rw [ho]
    exact .inr ⟨before, y, after ++ [x], by simp, rfl, hy, hbefore⟩

theorem LastAt.concat (h : LastAt p xs o) (x : α) :
    LastAt p (xs ++ [x]) (if p x then some xs.length else o) := by
  by_cases hx : p x = true
  · rw [if_pos hx]
    exact .inr ⟨xs, x, [], rfl, rfl, hx, nofun⟩
  · rw [if_neg hx]
    have hx' : p x = false := by simpa using hx
    rcases h with ⟨rfl, hnone⟩ | ⟨before, y, after, rfl, rfl, hy, hafter⟩
    · refine .inl ⟨rfl, fun y hy => ?_⟩
      rcases List.mem_append.mp hy with hy | hy
      · exact hnone y hy
      · rw [List.mem_singleton.mp hy, hx']
    · refine .inr ⟨before, y, after ++ [x], by simp, rfl, hy, fun z hz => ?_⟩
      rcases List.mem_append.mp hz with hz | hz
      · exact hafter z hz
      · rw [List.mem_singleton.mp hz, hx']

theorem FirstAt.getD_eq_length_iff (h : FirstAt p xs o) :
    o.getD xs.length = xs.length ↔ ∀ x ∈ xs, p x = false := by
  rcases h with ⟨rfl, hnone⟩ | ⟨before, x, after, rfl, rfl, hx, -⟩
  · exact iff_of_true rfl hnone
  · refine iff_of_false ?_ fun hnone => ?_
    · rw [Option.getD_some, List.length_append, List.length_cons]
      omega
    · rw [hnone x (by simp)] at hx
      cases hx

/-- Behind the last element with the property is the end just if the last element of all has it. -/
theorem LastAt.getD_eq_length_iff (h : LastAt p xs o) {k : ℕ} :
    (o.map (· + 1)).getD k = xs.length ↔
      (∃ x ∈ xs.getLast?, p x = true) ∨ (∀ x ∈ xs, p x = false) ∧ k = xs.length := by
  rcases h with ⟨rfl, hnone⟩ | ⟨before, x, after, rfl, rfl, hx, hafter⟩
  · rw [Option.map_none, Option.getD_none]
    refine ⟨fun hk => .inr ⟨hnone, hk⟩, ?_⟩
    rintro (⟨x, hx, hpx⟩ | ⟨-, hk⟩)
    · rw [hnone x (List.mem_of_getLast? hx)] at hpx
      cases hpx
    · exact hk
  · have hnot : ¬ ∀ y ∈ before ++ x :: after, p y = false := fun hnone => by
      rw [hnone x (by simp)] at hx
      cases hx
    rw [Option.map_some, Option.getD_some, List.length_append, List.length_cons]
    rcases List.eq_nil_or_concat' after with rfl | ⟨after, y, rfl⟩
    · exact iff_of_true rfl (.inl ⟨x, by simp, hx⟩)
    · refine iff_of_false (by simp) ?_
      rintro (⟨z, hz, hpz⟩ | ⟨hnone, -⟩)
      · rw [← List.cons_append, ← List.append_assoc, List.getLast?_concat, Option.mem_some_iff] at hz
        have hzy : y = z := hz
        rw [← hzy, hafter y (by simp)] at hpz
        cases hpz
      · exact hnot hnone

/-- An element that is inserted between those that may precede it and those that may follow it. -/
theorem pairwise_insertIdx {r : α → α → Prop} {before after : List α}
    (h : (before ++ after).Pairwise r) (hbefore : ∀ y ∈ before, r y x) (hafter : ∀ y ∈ after, r x y) :
    ((before ++ after).insertIdx before.length x).Pairwise r := by
  have heq : (before ++ after).insertIdx before.length x = before ++ x :: after := by
    induction before with
    | nil => simp
    | cons y before ih =>
      rw [List.cons_append, List.length_cons, List.insertIdx_succ_cons, ih]
      · rfl
      · exact (List.pairwise_cons.mp h).2
      · exact fun z hz => hbefore z (List.mem_cons_of_mem y hz)
  obtain ⟨hfirst, hsecond, hcross⟩ := List.pairwise_append.mp h
  rw [heq, List.pairwise_append]
  refine ⟨hfirst, List.pairwise_cons.mpr ⟨hafter, hsecond⟩, fun y hy z hz => ?_⟩
  rcases List.mem_cons.mp hz with rfl | hz
  · exact hbefore y hy
  · exact hcross y hy z hz

/-- What is put in one after the other, or left out. -/
def Puts (f : List α → α → List α) : Prop :=
  ∀ es x, f es x = es ∨ ∃ i ≤ es.length, f es x = es.insertIdx i x

variable {f : List α → α → List α}

theorem Puts.foldl (hf : Puts f) (xs es : List α) :
    es.Sublist (xs.foldl f es) ∧ (xs.foldl f es).length ≤ es.length + xs.length := by
  induction xs generalizing es with
  | nil => exact ⟨List.Sublist.refl es, le_rfl⟩
  | cons x xs ih =>
    obtain ⟨hsub, hlen⟩ := ih (f es x)
    rw [List.foldl_cons, List.length_cons]
    rcases hf es x with heq | ⟨i, hi, heq⟩
    · rw [heq] at hsub hlen ⊢
      exact ⟨hsub, by omega⟩
    · rw [heq] at hsub hlen ⊢
      rw [List.length_insertIdx_of_le_length hi] at hlen
      exact ⟨(List.sublist_insertIdx es i x).trans hsub, by omega⟩

/-- Distinct elements that are put in one after the other come out in order just if each is put at
the end. -/
theorem Puts.foldl_eq_iff (hf : Puts f) {xs es : List α} (hnodup : (es ++ xs).Nodup) :
    xs.foldl f es = es ++ xs ↔
      ∀ before x after, xs = before ++ x :: after → f (es ++ before) x = es ++ before ++ [x] := by
  induction xs generalizing es with
  | nil => simp
  | cons x xs ih =>
    have hsplit : es ++ x :: xs = es ++ [x] ++ xs := by rw [List.append_assoc]; rfl
    have hrest := @ih (es ++ [x]) (hsplit ▸ hnodup)
    rw [List.foldl_cons]
    constructor
    · intro h
      have hfirst : f es x = es ++ [x] := by
        obtain ⟨hsub, hlen⟩ := hf.foldl xs (f es x)
        rw [h] at hsub hlen
        rcases hf es x with heq | ⟨i, hi, heq⟩
        · rw [heq, List.length_append, List.length_cons] at hlen
          omega
        · have hend : (es ++ [x]).Sublist (es ++ x :: xs) :=
            hsplit ▸ List.sublist_append_left (es ++ [x]) xs
          refine (hnodup.perm_iff_eq_of_sublist hsub hend).mp ?_
          rw [heq]
          exact (List.perm_insertIdx x es hi).trans (List.perm_append_singleton x es).symm
      rw [hfirst, hsplit, hrest] at h
      intro before y after hcut
      rcases before with _ | ⟨z, before⟩
      · obtain ⟨rfl, -⟩ := List.cons.inj hcut
        rw [List.append_nil, hfirst]
      · obtain ⟨rfl, htail⟩ := List.cons.inj hcut
        have hlater := h before y after htail
        rw [List.append_assoc es [x] before] at hlater
        exact hlater
    · intro h
      have hfirst := h [] x xs rfl
      rw [List.append_nil] at hfirst
      rw [hfirst, hsplit, hrest]
      intro before y after hcut
      have hlater := h (x :: before) y after (by rw [hcut]; rfl)
      rw [List.append_assoc es [x] before]
      exact hlater
end AudioFlinger.Foundation.Positions

/-!
## Sums over lists

The sum of a weight over a list whose elements are exchanged one at a time.
-/

namespace AudioFlinger.Foundation

variable {α : Type*} {l : List α} {a : α}

def tally (f : α → ℕ) (l : List α) : ℕ := (l.map f).sum

@[simp] theorem tally_nil (f : α → ℕ) : tally f [] = 0 := rfl

@[simp] theorem tally_cons (f : α → ℕ) (a : α) (l : List α) : tally f (a :: l) = f a + tally f l := List.sum_cons

theorem tally_erase [DecidableEq α] (ha : a ∈ l) (f : α → ℕ) : f a + tally f (l.erase a) = tally f l := by
  rw [tally, tally, ((List.perm_cons_erase ha).map f).sum_eq, List.map_cons, List.sum_cons]

theorem le_tally (ha : a ∈ l) (f : α → ℕ) : f a ≤ tally f l :=
  List.single_le_sum (fun _ _ => Nat.zero_le _) _ (List.mem_map_of_mem ha)

theorem tally_le {f g : α → ℕ} (hle : ∀ a ∈ l, f a ≤ g a) : tally f l ≤ tally g l := List.sum_le_sum hle

theorem tally_eq_zero {f : α → ℕ} : tally f l = 0 ↔ ∀ a ∈ l, f a = 0 := by
  induction l with
  | nil => simp
  | cons b l ih => simp [ih]

theorem exists_of_tally_pos {f : α → ℕ} (hpos : 0 < tally f l) : ∃ a ∈ l, 0 < f a := by
  by_contra hnone
  simp only [not_exists, not_and, Nat.not_lt, Nat.le_zero] at hnone
  exact absurd (tally_eq_zero.mpr hnone) (Nat.pos_iff_ne_zero.mp hpos)

/-!
## A stream with gaps and fillers

`Edited blank xs ys` says that `ys` has elements of `xs` in their order, and blanks between them.
-/

variable {α : Type*}

inductive Edited (blank : α) : List α → List α → Prop
  | nil : Edited blank [] []
  | keep (x : α) {xs ys : List α} : Edited blank xs ys → Edited blank (x :: xs) (x :: ys)
  | drop (x : α) {xs ys : List α} : Edited blank xs ys → Edited blank (x :: xs) ys
  | insert {xs ys : List α} : Edited blank xs ys → Edited blank xs (blank :: ys)

namespace Edited

variable {blank : α} {xs ys zs ws : List α}

theorem refl (xs : List α) : Edited blank xs xs := by
  induction xs with
  | nil => exact .nil
  | cons x xs ih => exact ih.keep x

theorem blanks (n : ℕ) : Edited blank [] (List.replicate n blank) := by
  induction n with
  | zero => exact .nil
  | succ n ih => exact ih.insert

theorem append (h : Edited blank xs ys) (h' : Edited blank zs ws) : Edited blank (xs ++ zs) (ys ++ ws) := by
  induction h with
  | nil => exact h'
  | keep x _ ih => exact ih.keep x
  | drop x _ ih => exact ih.drop x
  | insert _ ih => exact ih.insert

/-- What is left out of the result was left out of the stream or not filled in. -/
theorem sublist (h : Edited blank xs ys) (hsub : zs.Sublist ys) : Edited blank xs zs := by
  induction h generalizing zs with
  | nil =>
    rw [List.sublist_nil.mp hsub]
    exact .nil
  | keep x h ih =>
    cases hsub with
    | cons _ hsub => exact (ih hsub).drop x
    | cons_cons _ hsub => exact (ih hsub).keep x
  | drop x h ih => exact (ih hsub).drop x
  | insert h ih =>
    cases hsub with
    | cons _ hsub => exact ih hsub
    | cons_cons _ hsub => exact (ih hsub).insert

end Edited

end AudioFlinger.Foundation
