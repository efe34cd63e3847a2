import Mathlib.Data.List.Pairwise
import Mathlib.Order.Compare
import Mathlib.Order.Lattice
import Mathlib.Tactic.Common

/-!
# Sorted vectors

A vector that keeps its items in the strict order of their keys and looks them
up by halving a range. `search_cases` says what the search finds: it cuts the
vector at the key, with the item of that key or without one. Everything else
about the operations follows from the cut.
-/

namespace AudioFlinger.Foundation.SortedVector

variable {α κ : Type*} [LinearOrder κ]

/-- The loop of the search, over the indices from `l` to just before `h`: the index of the item
with the key, if there is one, and the index at which it belongs. -/
def searchLoop (key : α → κ) (xs : List α) (k : κ) : ℕ → ℕ → ℕ → Option ℕ × ℕ
  | 0, l, _ => (none, l)
  | rounds + 1, l, h =>
    if l < h then
      let mid := l + (h - 1 - l) / 2
      match xs[mid]? with
      | none => (none, l)
      | some x =>
        match cmp (key x) k with
        | .eq => (some mid, mid)
        | .lt => searchLoop key xs k rounds (mid + 1) h
        | .gt => searchLoop key xs k rounds l mid
    else (none, l)

def search (key : α → κ) (xs : List α) (k : κ) : Option ℕ × ℕ :=
  searchLoop key xs k xs.length 0 xs.length

/-- The items are in the strict order of their keys. -/
def Sorted (key : α → κ) (xs : List α) : Prop := xs.Pairwise fun x y => key x < key y

/-- Put an item in its place, or in the place of the item with its key. -/
def insert (key : α → κ) (xs : List α) (x : α) : List α :=
  match search key xs (key x) with
  | (some i, _) => xs.set i x
  | (none, i) => xs.insertIdx i x

variable {key : α → κ} {xs : List α} {k : κ}

/-! ## What the search finds -/

/-- The vector cut at the key: what lies below, the item of the key if any, what lies above. -/
structure Cut (key : α → κ) (xs : List α) (k : κ) (below : List α) (hit : Option α)
    (above : List α) : Prop where
  eq : xs = below ++ hit.toList ++ above
  below_lt : ∀ x ∈ below, key x < k
  hit_eq : ∀ x ∈ hit, key x = k
  lt_above : ∀ x ∈ above, k < key x

theorem cut_at (hs : Sorted key xs) {i : ℕ} (hi : i < xs.length) :
    Cut key xs (key xs[i]) (xs.take i) (some xs[i]) (xs.drop (i + 1)) := by
  have hsplit : xs = xs.take i ++ xs[i] :: xs.drop (i + 1) := by simp
  have hpair : (xs.take i ++ xs[i] :: xs.drop (i + 1)).Pairwise fun x y => key x < key y := by
    rw [← hsplit]
    exact hs
  rw [List.pairwise_append, List.pairwise_cons] at hpair
  obtain ⟨-, ⟨habove, -⟩, hbelow⟩ := hpair
  exact
    { eq := by simp
      below_lt := fun x hx => hbelow x hx xs[i] (List.mem_cons_self ..)
      hit_eq := by simp
      lt_above := habove }

theorem cut_between {i : ℕ} (hbelow : ∀ j, j < i → ∀ h : j < xs.length, key xs[j] < k)
    (habove : ∀ j, i ≤ j → ∀ h : j < xs.length, k < key xs[j]) :
    Cut key xs k (xs.take i) none (xs.drop i) where
  eq := by simp
  below_lt := by
    intro x hx
    obtain ⟨j, hj, rfl⟩ := List.mem_iff_getElem.mp hx
    rw [List.length_take] at hj
    rw [List.getElem_take]
    exact hbelow j (by omega) (by omega)
  hit_eq := by simp
  lt_above := by
    intro x hx
    obtain ⟨j, hj, rfl⟩ := List.mem_iff_getElem.mp hx
    rw [List.length_drop] at hj
    rw [List.getElem_drop]
    exact habove (i + j) (by omega) (by omega)

theorem Sorted.key_lt (hs : Sorted key xs) {i j : ℕ} (hi : i < xs.length) (hj : j < xs.length)
    (hij : i < j) : key xs[i] < key xs[j] :=
  List.pairwise_iff_getElem.mp hs i j hi hj hij

/-- A search has found its cut. -/
def Finds (key : α → κ) (xs : List α) (k : κ) (r : Option ℕ × ℕ) : Prop :=
  ∃ below hit above, Cut key xs k below hit above ∧
    r = (hit.map fun _ => below.length, below.length)

/-- An empty range is the place of a missing key. -/
theorem finds_between {l : ℕ} (hl : l ≤ xs.length)
    (hbelow : ∀ j, j < l → ∀ h : j < xs.length, key xs[j] < k)
    (habove : ∀ j, l ≤ j → ∀ h : j < xs.length, k < key xs[j]) : Finds key xs k (none, l) := by
  refine ⟨xs.take l, none, xs.drop l, cut_between hbelow habove, ?_⟩
  rw [List.length_take, Nat.min_eq_left hl]
  rfl

/-- Invariant of the loop: what lies before the range is below the key, what lies behind it is
above. -/
theorem searchLoop_finds (hs : Sorted key xs) {rounds l h : ℕ} (hh : h ≤ xs.length) (hl : l ≤ h)
    (hrounds : h ≤ l + rounds)
    (hbelow : ∀ j, j < l → ∀ hj : j < xs.length, key xs[j] < k)
    (habove : ∀ j, h ≤ j → ∀ hj : j < xs.length, k < key xs[j]) :
    Finds key xs k (searchLoop key xs k rounds l h) := by
  induction rounds generalizing l h with
  | zero =>
    obtain rfl : l = h := by lia
    exact finds_between hh hbelow habove
  | succ rounds ih =>
    change Finds key xs k (if l < h then _ else (none, l))
    by_cases hlh : l < h
    · set mid := l + (h - 1 - l) / 2 with hmid
      have hget : xs[mid]? = some xs[mid] := List.getElem?_eq_getElem (by lia)
      rw [if_pos hlh]
      dsimp only
      rw [hget]
      dsimp only
      cases hcmp : cmp (key xs[mid]) k with
      | eq =>
        have heq : key xs[mid] = k := (cmp_eq_eq_iff ..).mp hcmp
        refine ⟨xs.take mid, some xs[mid], xs.drop (mid + 1), ?_, ?_⟩
        · rw [← heq]
          exact cut_at hs (by omega)
        · rw [List.length_take, Nat.min_eq_left (by omega)]
          rfl
      | lt =>
        have hlt : key xs[mid] < k := (cmp_eq_lt_iff ..).mp hcmp
        apply ih hh (by omega) (by omega) _ habove
        intro j hj hlen
        rcases Nat.lt_succ_iff_lt_or_eq.mp hj with hj | rfl
        · exact (hs.key_lt hlen (by omega) hj).trans hlt
        · exact hlt
      | gt =>
        have hgt : k < key xs[mid] := (cmp_eq_gt_iff ..).mp hcmp
        apply ih (by omega) (by omega) (by omega) hbelow
        intro j hj hlen
        rcases Nat.eq_or_lt_of_le hj with rfl | hj
        · exact hgt
        · exact hgt.trans (hs.key_lt (by omega) hlen hj)
    · obtain rfl : l = h := by omega
      rw [if_neg hlh]
      exact finds_between hh hbelow habove

/-- The search cuts a sorted vector at the key. -/
theorem search_cases (hs : Sorted key xs) (k : κ) : Finds key xs k (search key xs k) := by
  apply searchLoop_finds hs (Nat.le_refl _) (Nat.zero_le _) (by omega)
  · intro j hj
    omega
  · intro j hj hlen
    omega

/-! ## Putting an item in -/

variable {below above : List α} {hit : Option α}

theorem insertIdx_length (below : List α) (x : α) (above : List α) :
    (below ++ above).insertIdx below.length x = below ++ x :: above := by
  induction below with
  | nil => rfl
  | cons y below ih => simp [ih]

theorem Cut.insert_eq {x : α} (h : Cut key xs (key x) below hit above)
    (hsearch : search key xs (key x) = (hit.map fun _ => below.length, below.length)) :
    insert key xs x = below ++ x :: above := by
  cases hit with
  | none =>
    rw [Option.map_none] at hsearch
    simp only [insert, hsearch]
    rw [h.eq, Option.toList_none, List.append_nil]
    exact insertIdx_length below x above
  | some y =>
    rw [Option.map_some] at hsearch
    simp only [insert, hsearch]
    rw [h.eq]
    simp

theorem Cut.sorted (h : Cut key xs k below hit above) (hs : Sorted key xs) {x : α}
    (hx : key x = k) : Sorted key (below ++ x :: above) := by
  subst hx
  have hsub : (below ++ above).Sublist xs := by
    rw [h.eq, List.append_assoc]
    exact (List.Sublist.refl below).append (List.sublist_append_right _ _)
  have hpair := (hs.sublist hsub : (below ++ above).Pairwise _)
  rw [List.pairwise_append] at hpair
  obtain ⟨hlow, hhigh, hcross⟩ := hpair
  refine List.pairwise_append.mpr ⟨hlow, List.pairwise_cons.mpr ⟨h.lt_above, hhigh⟩, ?_⟩
  intro y hy z hz
  rcases List.mem_cons.mp hz with rfl | hz
  · exact h.below_lt y hy
  · exact hcross y hy z hz

theorem sorted_insert (hs : Sorted key xs) (x : α) : Sorted key (insert key xs x) := by
  obtain ⟨below, hit, above, hcut, hsearch⟩ := search_cases hs (key x)
  rw [hcut.insert_eq hsearch]
  exact hcut.sorted hs rfl

theorem sorted_eraseIdx (hs : Sorted key xs) (i : ℕ) : Sorted key (xs.eraseIdx i) :=
  hs.sublist (List.eraseIdx_sublist xs i)

theorem sorted_modify (hs : Sorted key xs) {f : α → α} (hf : ∀ x, key (f x) = key x) (i : ℕ) :
    Sorted key (xs.modify i f) := by
  rw [Sorted, List.pairwise_iff_getElem]
  intro a b ha hb hab
  rw [List.length_modify] at ha hb
  have hlt := hs.key_lt ha hb hab
  rw [List.getElem_modify, List.getElem_modify]
  split <;> split <;> simpa only [hf] using hlt

/-- The item of a key, in a sorted vector, is the only one. -/
theorem Cut.hit_of_mem (h : Cut key xs k below hit above) {x : α} (hx : x ∈ xs)
    (hkey : key x = k) : hit = some x := by
  rw [h.eq] at hx
  simp only [List.mem_append, Option.mem_toList] at hx
  rcases hx with (hx | hx) | hx
  · exact absurd hkey (h.below_lt x hx).ne
  · exact hx
  · exact absurd hkey (h.lt_above x hx).ne'

/-- A key above all others belongs at the end. -/
theorem insert_last (hs : Sorted key xs) {x : α} (hlast : ∀ y ∈ xs, key y < key x) :
    insert key xs x = xs ++ [x] := by
  obtain ⟨below, hit, above, hcut, hsearch⟩ := search_cases hs (key x)
  have hhit : hit = none := by
    cases hit with
    | none => rfl
    | some y =>
      have hy : y ∈ xs := by
        rw [hcut.eq]
        simp
      exact absurd (hcut.hit_eq y rfl) (hlast y hy).ne
  have habove : above = [] := by
    apply List.eq_nil_iff_forall_not_mem.mpr
    intro y hy
    have hmem : y ∈ xs := by
      rw [hcut.eq]
      simp [hy]
    exact lt_asymm (hlast y hmem) (hcut.lt_above y hy)
  have heq := hcut.eq
  rw [hcut.insert_eq hsearch, habove]
  rw [hhit, habove] at heq
  simpa using heq.symm

end AudioFlinger.Foundation.SortedVector
