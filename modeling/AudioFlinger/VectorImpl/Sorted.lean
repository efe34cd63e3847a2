import AudioFlinger.Foundation.Machine
import AudioFlinger.VectorImpl.Sort
import Mathlib

/-!
# Sorted vectors

`SortedVectorImpl` by its contents: the search by halves, `add` and `remove`, and
the two merges. Storage that is the vector's own, or a copy that is granted, has
these contents after `add` and `remove`, and every allocation of a run is granted.
The merge of a sorted vector copies it whole before or behind the own items when
the ends of the two vectors say so; the ends may be equal, and there may be no own
end to compare.
-/

namespace AudioFlinger.SortedVectorImpl

open Foundation Foundation.SortedVector Foundation.Machine Comparison

variable {α : Type*} (c : Comparison α)

/-- The loop of `_indexOrderOf`, over the indices from `l` to just before `h`. -/
def indexOrderLoop (xs : List α) (item : α) : ℕ → ℕ → ℕ → Option ℕ × ℕ
  | 0, l, _ => (none, l)
  | rounds + 1, l, h =>
    if l < h then
      let mid := l + (h - 1 - l) / 2
      match xs[mid]? with
      | none => (none, l)
      | some curr =>
        if c.compare curr item = 0 then (some mid, mid)
        else if c.compare curr item < 0 then indexOrderLoop xs item rounds (mid + 1) h
        else indexOrderLoop xs item rounds l mid
    else (none, l)

/-- `_indexOrderOf`: the index of the item, or none for `NAME_NOT_FOUND`, and its order. -/
def indexOrderOf (xs : List α) (item : α) : Option ℕ × ℕ :=
  indexOrderLoop c xs item xs.length 0 xs.length

def indexOf (xs : List α) (item : α) : Option ℕ := (indexOrderOf c xs item).1

/-- The index of the item in the vector, and the vector. -/
def add (xs : List α) (item : α) : ℕ × List α :=
  match indexOrderOf c xs item with
  | (none, order) => (order, xs.insertIdx order item)
  | (some index, _) => (index, xs.set index item)

/-- `merge(const VectorImpl&)`. -/
def merge (xs vector : List α) : List α := vector.foldl (fun xs item => (add c xs item).2) xs

/-- `merge(const SortedVectorImpl&)`; `none` where it compares with an item that is not there. -/
def mergeSorted (xs vector : List α) : Option (List α) :=
  match vector.head?, vector.getLast? with
  | some vectorFirst, some vectorLast =>
    match xs.head?, xs.getLast? with
    | some first, some last =>
      if c.compare vectorLast first ≤ 0 then some (vector ++ xs)
      else if 0 ≤ c.compare vectorFirst last then some (xs ++ vector)
      else some (merge c xs vector)
    | _, _ => none
  | _, _ => some xs

/-- The index the item had, and the vector. -/
def remove (xs : List α) (item : α) : Option ℕ × List α :=
  match indexOf c xs item with
  | some i => (some i, xs.eraseIdx i)
  | none => (none, xs)

/-! ## Sequences of calls -/

/-- A call on one of several vectors, the first number its place among them. -/
inductive Call (α : Type*)
  | add (i : ℕ) (item : α)
  | merge (i : ℕ) (vector : List α)
  | mergeSorted (i j : ℕ)
  | remove (i : ℕ) (item : α)

def step (vs : ℕ → List α) : Call α → Option (ℕ → List α)
  | .add i item => some (Function.update vs i (add c (vs i) item).2)
  | .merge i vector => some (Function.update vs i (merge c (vs i) vector))
  | .mergeSorted i j => (mergeSorted c (vs i) (vs j)).map (Function.update vs i)
  | .remove i item => some (Function.update vs i (remove c (vs i) item).2)

/-! ## What is to hold -/

/-- No two items compare equal, and each is found where it is. -/
structure IsMap (xs : List α) : Prop where
  increasing : xs.Pairwise fun x y => c.compare x y < 0
  indexOf_iff : ∀ item i, indexOf c xs item = some i ↔
    ∃ x, xs[i]? = some x ∧ c.compare x item = 0

/-- What the vector at `n` is to hold for `k` after a call. -/
def Call.valueAt (vs : ℕ → List α) (n : ℕ) (k : α) : Call α → Option α
  | .add i item =>
    if n = i ∧ c.compare item k = 0 then some item else c.lookup (vs n) k
  | .merge i vector =>
    if n = i then (c.lookup vector.reverse k).or (c.lookup (vs n) k) else c.lookup (vs n) k
  | .mergeSorted i j =>
    if n = i then (c.lookup (vs j) k).or (c.lookup (vs n) k) else c.lookup (vs n) k
  | .remove i item =>
    if n = i ∧ c.compare item k = 0 then none else c.lookup (vs n) k

/-- The call returns, every vector is a map, with the items the call is to leave in it. -/
def Served (vs : ℕ → List α) (call : Call α) : Prop :=
  ∃ vs', step c vs call = some vs' ∧ (∀ n, IsMap c (vs' n)) ∧
    ∀ n k, c.lookup (vs' n) k = call.valueAt c vs n k

/-- The ends by which two vectors are compared before a merge are there and differ. -/
structure EndsApart (xs vector : List α) : Prop where
  nonempty : xs ≠ []
  last_first : ∀ last ∈ vector.getLast?, ∀ first ∈ xs.head?, c.compare last first ≠ 0
  first_last : ∀ first ∈ vector.head?, ∀ last ∈ xs.getLast?, c.compare first last ≠ 0

/-- A sorted vector with items is merged only into one with other ends. -/
def Call.Apart (vs : ℕ → List α) : Call α → Prop
  | .mergeSorted i j => vs j ≠ [] → EndsApart c (vs i) (vs j)
  | _ => True

/-! ## The search -/

variable {c} {xs vector : List α} {item k : α}

/-- The search by the comparison is the search by the key. -/
theorem indexOrderLoop_eq (xs : List α) (item : α) (rounds l h : ℕ) :
    indexOrderLoop c xs item rounds l h = searchLoop c.key xs (c.key item) rounds l h := by
  induction rounds generalizing l h with
  | zero => rfl
  | succ rounds ih =>
    rw [indexOrderLoop, searchLoop]
    split
    · dsimp only
      cases hget : xs[l + (h - 1 - l) / 2]? with
      | none => rfl
      | some curr =>
        dsimp only
        cases hcmp : cmp (c.key curr) (c.key item) with
        | eq =>
          have heq := key_eq_key.mp ((cmp_eq_eq_iff ..).mp hcmp)
          rw [if_pos heq]
        | lt =>
          have hlt := key_lt_key.mp ((cmp_eq_lt_iff ..).mp hcmp)
          rw [if_neg hlt.ne, if_pos hlt, ih]
        | gt =>
          have hgt := key_lt_key.mp ((cmp_eq_gt_iff ..).mp hcmp)
          have hpos := (c.neg_iff_pos item curr).mp hgt
          rw [if_neg hpos.ne', if_neg hpos.not_gt, ih]
    · rfl

theorem indexOrderOf_eq (xs : List α) (item : α) :
    indexOrderOf c xs item = search c.key xs (c.key item) :=
  indexOrderLoop_eq xs item xs.length 0 xs.length

theorem add_eq (xs : List α) (item : α) : (add c xs item).2 = insert c.key xs item := by
  rw [add, SortedVector.insert, indexOrderOf_eq]
  rcases search c.key xs (c.key item) with ⟨_ | index, order⟩ <;> rfl

theorem sorted_iff : Sorted c.key xs ↔ xs.Pairwise fun x y => c.compare x y < 0 := by
  simp only [Sorted, key_lt_key]

theorem indexOf_eq_some_iff (hs : Sorted c.key xs) {i : ℕ} :
    indexOf c xs item = some i ↔ ∃ x, xs[i]? = some x ∧ c.compare x item = 0 := by
  obtain ⟨below, hit, above, hcut, hsearch⟩ := search_cases hs (c.key item)
  rw [indexOf, indexOrderOf_eq, hsearch]
  constructor
  · intro hi
    obtain ⟨x, rfl, rfl⟩ := Option.map_eq_some_iff.mp hi
    refine ⟨x, ?_, key_eq_key.mp (hcut.hit_eq x rfl)⟩
    rw [hcut.eq]
    simp
  · rintro ⟨x, hx, hzero⟩
    obtain ⟨hi, hget⟩ := List.getElem?_eq_some_iff.mp hx
    obtain rfl := hcut.hit_of_mem (List.mem_of_getElem? hx) (key_eq_key.mpr hzero)
    have hat : xs[below.length]? = some x := by
      rw [hcut.eq]
      simp
    obtain ⟨hlen, hget'⟩ := List.getElem?_eq_some_iff.mp hat
    have hsame : c.key xs[below.length] = c.key xs[i] := by rw [hget, hget']
    have hindex : below.length = i := by
      by_contra hne
      rcases Nat.lt_or_gt_of_ne hne with hlt | hlt
      · exact (hs.key_lt hlen hi hlt).ne hsame
      · exact (hs.key_lt hi hlen hlt).ne' hsame
    rw [Option.map_some, hindex]

theorem isMap_iff : IsMap c xs ↔ Sorted c.key xs :=
  ⟨fun h => sorted_iff.mpr h.increasing,
    fun hs => ⟨sorted_iff.mp hs, fun _ _ => indexOf_eq_some_iff hs⟩⟩

/-! ## One item -/

theorem sorted_add (hs : Sorted c.key xs) (item : α) : Sorted c.key (add c xs item).2 := by
  rw [add_eq]
  exact sorted_insert hs item

/-- The item of the cut holds no other key. -/
theorem lookup_cut {below above : List α} {hit : Option α} {item k : α}
    (hcut : Cut c.key xs (c.key item) below hit above) (hne : ¬ c.compare item k = 0) :
    c.lookup xs k = (c.lookup below k).or (c.lookup above k) := by
  have hnone : c.lookup hit.toList k = none := lookup_eq_none fun x hx => by
    rw [hcut.hit_eq x (Option.mem_toList.mp hx)]
    exact fun heq => hne (key_eq_key.mp heq)
  rw [hcut.eq, lookup_append, lookup_append, hnone, Option.or_none]

theorem lookup_add (hs : Sorted c.key xs) (item k : α) :
    c.lookup (add c xs item).2 k = if c.compare item k = 0 then some item else c.lookup xs k := by
  obtain ⟨below, hit, above, hcut, hsearch⟩ := search_cases hs (c.key item)
  rw [add_eq, hcut.insert_eq hsearch, ← List.singleton_append, lookup_append, lookup_append,
    lookup_singleton]
  split
  · rename_i hzero
    have hnone : c.lookup below k = none := lookup_eq_none fun x hx => by
      rw [← key_eq_key.mpr hzero]
      exact (hcut.below_lt x hx).ne
    rw [hnone]
    rfl
  · rename_i hzero
    rw [lookup_cut hcut hzero, Option.none_or]

theorem sorted_remove (hs : Sorted c.key xs) (item : α) : Sorted c.key (remove c xs item).2 := by
  rw [remove]
  split
  · exact sorted_eraseIdx hs _
  · exact hs

/-- What is removed is the item of the cut, if there is one. -/
theorem remove_eq {below above : List α} {hit : Option α}
    (hcut : Cut c.key xs (c.key item) below hit above)
    (hsearch : search c.key xs (c.key item) = (hit.map fun _ => below.length, below.length)) :
    (remove c xs item).2 = below ++ above := by
  rw [remove, indexOf, indexOrderOf_eq, hsearch, hcut.eq]
  cases hit with
  | none => simp
  | some x => simp [List.eraseIdx_append_of_length_le]

theorem lookup_remove (hs : Sorted c.key xs) (item k : α) :
    c.lookup (remove c xs item).2 k = if c.compare item k = 0 then none else c.lookup xs k := by
  obtain ⟨below, hit, above, hcut, hsearch⟩ := search_cases hs (c.key item)
  rw [remove_eq hcut hsearch, lookup_append]
  split
  · rename_i hzero
    have hkey := key_eq_key.mpr hzero
    rw [lookup_eq_none fun x hx => hkey ▸ (hcut.below_lt x hx).ne,
      lookup_eq_none fun x hx => hkey ▸ (hcut.lt_above x hx).ne', Option.none_or]
  · rename_i hzero
    exact (lookup_cut hcut hzero).symm

/-! ## In storage -/

section Storage

open VectorImpl Foundation.Slots

variable {α : Type} (c : Comparison α) (T : ItemType α) (grants : Grants) (v : VectorImpl α)

/-- The items behind move up, and the item is copied into the gap. -/
def insertSlot (slots : List (Option α)) (mCount index : ℕ) (item : α) :
    Option (List (Option α)) := do
  let moved ← Slots.get slots index (mCount - index)
  let slots ← put slots (index + 1) moved
  put slots index [some item]

/-- The items behind move down. -/
def removeSlot (slots : List (Option α)) (mCount index : ℕ) : Option (List (Option α)) := do
  let moved ← Slots.get slots (index + 1) (mCount - (index + 1))
  put slots index moved

/-- Edit the slots, of which `mCount` then have items. -/
def edited (edit : List (Option α) → Option (List (Option α))) (mCount : ℕ) :
    Option (VectorImpl α) := do
  let v ← v.editArrayImpl T grants
  let slots ← edit v.slots
  some { v.withSlots slots with mCount }

/-- `add`, where there is room for one more item. -/
def addStored (xs : List α) (item : α) : Option (VectorImpl α) :=
  match indexOrderOf c xs item with
  | (none, order) => edited T grants v (insertSlot · v.mCount order item) (v.mCount + 1)
  | (some index, _) => edited T grants v (overwrite T · index (some item)) v.mCount

/-- `remove`, where the storage does not shrink. -/
def removeStored (xs : List α) (item : α) : Option (VectorImpl α) :=
  match indexOf c xs item with
  | some i => edited T grants v (removeSlot · v.mCount i) (v.mCount - 1)
  | none => some v

variable {c T grants} {S : Shape T} {xs ys below above : List α} {rest : List (Option α)}

theorem insertSlot_holding (below above : List α) (free : Option α) (rest : List (Option α))
    (item : α) :
    insertSlot (holding (below ++ above) (free :: rest)) (below ++ above).length below.length
      item = some (holding (below ++ item :: above) rest) := by
  obtain ⟨y, ys, hys⟩ := List.exists_cons_of_ne_nil (List.concat_ne_nil free (above.map some))
  have hlist : above.map some ++ free :: rest = y :: (ys ++ rest) := by
    rw [List.append_cons, hys, List.cons_append]
  have hget := get_append (below.map some) (above.map some) (free :: rest)
  have hmove := put_append (below.map some ++ [y]) ys (above.map some) rest
    (by simpa using congrArg List.length hys)
  have hfill := put_append (below.map some) [y] [some item] (above.map some ++ rest) rfl
  simp only [List.append_assoc, List.length_append, List.length_map, List.length_singleton,
    List.cons_append, List.nil_append, hlist] at hget hmove hfill
  simp [insertSlot, holding, hlist, hget, hmove, hfill]

theorem removeSlot_holding (below above : List α) (x : α) (rest : List (Option α)) :
    ∃ rest', removeSlot (holding (below ++ x :: above) rest) (below ++ x :: above).length
      below.length = some (holding (below ++ above) rest') := by
  have hlast := List.dropLast_append_getLast (List.cons_ne_nil (some x) (above.map some))
  generalize hys : (some x :: above.map some).dropLast = ys at hlast
  generalize List.getLast _ _ = y at hlast
  have hget := get_append (below.map some ++ [some x]) (above.map some) rest
  have hmove := put_append (below.map some) ys (above.map some) (y :: rest)
    (by simp [← hys])
  rw [List.append_assoc, List.append_cons, hlast] at hmove
  have hcount : below.length + (above.length + 1) - (below.length + 1) = above.length := by omega
  simp only [List.append_assoc, List.length_append, List.length_map, List.length_singleton,
    List.cons_append, List.nil_append] at hget hmove
  exact ⟨y :: rest, by simp [removeSlot, holding, hcount, hget, hmove]⟩

variable (hcount : S.mCount = xs.length) (hlen : (holding xs rest).length = S.capacity)
  (h : S.others = 0 ∨ grants.malloc = true)

include hcount hlen h

/-- An edit of slots that are the vector's own, or of which a copy is granted. -/
theorem edited_items {edit : List (Option α) → Option (List (Option α))}
    (hedit : ∀ rest' : List (Option α), rest'.length = rest.length →
      ∃ rest'', edit (holding xs rest') = some (holding ys rest'')) {n : ℕ} (hn : n = ys.length) :
    ∃ v, edited T grants (S.fill (holding xs rest)) edit n = some v ∧
      v.items = ys.map some := by
  obtain ⟨refs, size, slots', released, hown, howned⟩ := editArray_own hlen h
  have htake : slots'.take xs.length = xs.map some := by
    rw [← hcount, howned.take_eq, hcount, holding, List.take_left' (List.length_map _)]
  have hslots : slots' = holding xs (slots'.drop xs.length) := by
    rw [holding, ← htake, List.take_append_drop]
  obtain ⟨rest', hys⟩ := hedit (slots'.drop xs.length) (by
    rw [List.length_drop, howned.length_eq, ← hlen, holding, List.length_append,
      List.length_map, Nat.add_sub_cancel_left])
  rw [← hslots] at hys
  refine ⟨stored refs size (holding ys rest') n released, ?_, ?_⟩
  · rw [edited, hown, Option.bind_eq_bind, Option.bind_some]
    change (edit slots').bind _ = _
    rw [hys]
    rfl
  · simp [items, slots, stored, holding, hn]

theorem add_stored (hs : Sorted c.key xs) (hroom : S.mCount < S.capacity) (item : α) :
    ∃ v, addStored c T grants (S.fill (holding xs rest)) xs item = some v ∧
      v.items = (add c xs item).2.map some := by
  obtain ⟨below, hit, above, hcut, hsearch⟩ := search_cases hs (c.key item)
  rw [add_eq, hcut.insert_eq hsearch, addStored, indexOrderOf_eq, hsearch]
  have hxs := hcut.eq
  cases hit with
  | none =>
    rw [Option.toList_none, List.append_nil] at hxs
    refine edited_items hcount hlen h (fun rest' hrest => ?_)
      (by simp [Shape.fill, hcount, hxs, Nat.add_assoc])
    have hne : rest' ≠ [] := by
      rintro rfl
      simp [holding, ← hrest] at hlen
      omega
    obtain ⟨free, rest', rfl⟩ := List.exists_cons_of_ne_nil hne
    have hinsert := insertSlot_holding below above free rest' item
    rw [← hxs, ← hcount] at hinsert
    exact ⟨rest', hinsert⟩
  | some x =>
    refine edited_items hcount hlen h (fun rest' _ => ⟨rest', ?_⟩)
      (by simp [Shape.fill, hcount, hxs])
    rw [hxs, List.append_assoc]
    exact overwrite_holding _ _ _ _ _

theorem remove_stored (hs : Sorted c.key xs) (item : α) :
    ∃ v, removeStored c T grants (S.fill (holding xs rest)) xs item = some v ∧
      v.items = (remove c xs item).2.map some := by
  obtain ⟨below, hit, above, hcut, hsearch⟩ := search_cases hs (c.key item)
  rw [remove_eq hcut hsearch, removeStored, indexOf, indexOrderOf_eq, hsearch]
  have hxs := hcut.eq
  cases hit with
  | none =>
    rw [Option.toList_none, List.append_nil] at hxs
    refine ⟨_, rfl, ?_⟩
    rw [items, slots, Shape.fill, hcount, hxs]
    exact List.take_left' (List.length_map _)
  | some x =>
    rw [Option.toList_some, List.append_assoc, List.singleton_append] at hxs
    refine edited_items hcount hlen h (fun rest' _ => ?_)
      (by simp [Shape.fill, hcount, hxs])
    have hremove := removeSlot_holding below above x rest'
    rw [← hxs, ← hcount] at hremove
    exact hremove

end Storage

/-! ## Merging -/

theorem sorted_merge (hs : Sorted c.key xs) (vector : List α) :
    Sorted c.key (merge c xs vector) := by
  induction vector generalizing xs with
  | nil => exact hs
  | cons item vector ih => exact ih (sorted_add hs item)

theorem lookup_merge (hs : Sorted c.key xs) (vector : List α) (k : α) :
    c.lookup (merge c xs vector) k = (c.lookup vector.reverse k).or (c.lookup xs k) := by
  induction vector generalizing xs with
  | nil => rfl
  | cons item vector ih =>
    have hadd := lookup_add hs item k
    have hrest := ih (sorted_add hs item)
    rw [List.reverse_cons, lookup_append, lookup_singleton, Option.or_assoc]
    rw [hadd] at hrest
    refine hrest.trans (congrArg _ ?_)
    split <;> rfl

theorem head_le {first : α} (hs : Sorted c.key xs) (h : first ∈ xs.head?) :
    ∀ x ∈ xs, c.key first ≤ c.key x := by
  cases xs with
  | nil => simp at h
  | cons y ys =>
    obtain rfl : y = first := by simpa using h
    intro x hx
    rcases List.mem_cons.mp hx with rfl | hx
    · exact le_rfl
    · exact (List.pairwise_cons.mp hs).1 x hx |>.le

theorem le_getLast {last : α} (hs : Sorted c.key xs) (h : last ∈ xs.getLast?) :
    ∀ x ∈ xs, c.key x ≤ c.key last := by
  obtain ⟨ys, rfl⟩ := List.getLast?_eq_some_iff.mp h
  intro x hx
  rcases List.mem_append.mp hx with hx | hx
  · exact ((List.pairwise_append.mp hs).2.2 x hx last (List.mem_singleton_self _)).le
  · rw [List.mem_singleton.mp hx]

/-- A vector wholly below another, copied before it. -/
theorem sorted_append (hs : Sorted c.key xs) (hv : Sorted c.key vector)
    (h : ∀ x ∈ xs, ∀ y ∈ vector, c.key x < c.key y) : Sorted c.key (xs ++ vector) :=
  List.pairwise_append.mpr ⟨hs, hv, h⟩

/-- Of two vectors without a common key it does not matter which is looked at first. -/
theorem lookup_or_comm (h : ∀ x ∈ xs, ∀ y ∈ vector, c.key x ≠ c.key y) :
    (c.lookup xs k).or (c.lookup vector k) = (c.lookup vector k).or (c.lookup xs k) := by
  cases hxs : c.lookup xs k with
  | none => simp
  | some x =>
    obtain ⟨hx, hkey⟩ := key_of_lookup hxs
    have hnone : c.lookup vector k = none := lookup_eq_none fun y hy heq =>
      h x hx y hy (hkey.trans heq.symm)
    rw [hnone]
    rfl

theorem exists_ends (hne : xs ≠ []) :
    ∃ first last, xs.head? = some first ∧ xs.getLast? = some last :=
  ⟨xs.head hne, xs.getLast hne, List.head?_eq_some_head hne, List.getLast?_eq_some_getLast hne⟩

/-- The merge of a sorted vector with other ends is a map with the items of both. -/
theorem mergeSorted_of_apart (hs : Sorted c.key xs) (hv : Sorted c.key vector)
    (h : vector ≠ [] → EndsApart c xs vector) :
    ∃ ys, mergeSorted c xs vector = some ys ∧ Sorted c.key ys ∧
      ∀ k, c.lookup ys k = (c.lookup vector k).or (c.lookup xs k) := by
  by_cases hne : vector = []
  · subst hne
    exact ⟨xs, rfl, hs, fun k => rfl⟩
  · obtain ⟨hnonempty, hlastFirst, hfirstLast⟩ := h hne
    obtain ⟨vectorFirst, vectorLast, hvf, hvl⟩ := exists_ends hne
    obtain ⟨first, last, hf, hl⟩ := exists_ends hnonempty
    have hlf := hlastFirst vectorLast hvl first hf
    have hfl := hfirstLast vectorFirst hvf last hl
    simp only [mergeSorted, hvf, hvl, hf, hl]
    split_ifs with hbefore hbehind
    · have hlt : ∀ x ∈ vector, ∀ y ∈ xs, c.key x < c.key y := fun x hx y hy =>
        calc c.key x ≤ c.key vectorLast := le_getLast hv hvl x hx
          _ < c.key first := key_lt_key.mpr (by omega)
          _ ≤ c.key y := head_le hs hf y hy
      exact ⟨_, rfl, sorted_append hv hs hlt, fun k => lookup_append⟩
    · have hlt : ∀ x ∈ xs, ∀ y ∈ vector, c.key x < c.key y := fun x hx y hy =>
        calc c.key x ≤ c.key last := le_getLast hs hl x hx
          _ < c.key vectorFirst := key_lt_key.mpr ((c.neg_iff_pos last vectorFirst).mpr (by omega))
          _ ≤ c.key y := head_le hv hvf y hy
      refine ⟨_, rfl, sorted_append hs hv hlt, fun k => ?_⟩
      rw [lookup_append]
      exact lookup_or_comm fun x hx y hy => (hlt x hx y hy).ne
    · refine ⟨_, rfl, sorted_merge hs vector, fun k => ?_⟩
      rw [lookup_merge hs, lookup_reverse hv]

/-- A merge with equal ends keeps both items, and one into an empty vector does not return. -/
theorem apart_of_mergeSorted {ys : List α} (hne : vector ≠ [])
    (hmerge : mergeSorted c xs vector = some ys) (hys : Sorted c.key ys) :
    EndsApart c xs vector := by
  obtain ⟨vectorFirst, vectorLast, hvf, hvl⟩ := exists_ends hne
  by_cases hxs : xs = []
  · subst hxs
    simp [mergeSorted, hvf, hvl] at hmerge
  · obtain ⟨first, last, hf, hl⟩ := exists_ends hxs
    have hbefore (hle : c.compare vectorLast first ≤ 0) :
        ∀ x ∈ vector, ∀ y ∈ xs, c.compare x y < 0 := by
      simp only [mergeSorted, hvf, hvl, hf, hl, if_pos hle, Option.some.injEq] at hmerge
      subst hmerge
      exact fun x hx y hy => key_lt_key.mp ((List.pairwise_append.mp hys).2.2 x hx y hy)
    have hbehind (hgt : ¬c.compare vectorLast first ≤ 0)
        (hle : 0 ≤ c.compare vectorFirst last) : ∀ x ∈ xs, ∀ y ∈ vector, c.compare x y < 0 := by
      simp only [mergeSorted, hvf, hvl, hf, hl, if_neg hgt, if_pos hle, Option.some.injEq]
        at hmerge
      subst hmerge
      exact fun x hx y hy => key_lt_key.mp ((List.pairwise_append.mp hys).2.2 x hx y hy)
    refine ⟨hxs, ?_, ?_⟩
    · intro l hl' f hf' hzero
      obtain rfl : l = vectorLast := Option.some_injective _ (hl'.symm.trans hvl)
      obtain rfl : f = first := Option.some_injective _ (hf'.symm.trans hf)
      have hlt := hbefore hzero.le l (List.mem_of_getLast? hvl) f (List.mem_of_head? hf)
      exact hlt.ne hzero
    · intro f hf' l hl' hzero
      obtain rfl : f = vectorFirst := Option.some_injective _ (hf'.symm.trans hvf)
      obtain rfl : l = last := Option.some_injective _ (hl'.symm.trans hl)
      by_cases hle : c.compare vectorLast first ≤ 0
      · have hlt := hbefore hle f (List.mem_of_head? hvf) l (List.mem_of_getLast? hl)
        exact hlt.ne hzero
      · have hlt := hbehind hle hzero.ge l (List.mem_of_getLast? hl) f (List.mem_of_head? hvf)
        exact hlt.ne (compare_eq_zero_comm.mp hzero)

/-! ## Runs -/

/-- A call on maps serves them if the ends are apart. -/
theorem served_of_apart {vs : ℕ → List α} (hmap : ∀ n, Sorted c.key (vs n)) (call : Call α)
    (h : call.Apart c vs) : Served c vs call := by
  have hserved : ∀ (i : ℕ) (ys : List α), step c vs call = some (Function.update vs i ys) →
      Sorted c.key ys → (∀ k, c.lookup ys k = call.valueAt c vs i k) →
      (∀ n k, n ≠ i → call.valueAt c vs n k = c.lookup (vs n) k) → Served c vs call := by
    intro i ys hstep hys hvalue hother
    refine ⟨_, hstep, fun n => ?_, fun n k => ?_⟩
    · rw [isMap_iff]
      by_cases hn : n = i
      · rw [hn, Function.update_self]
        exact hys
      · rw [Function.update_of_ne hn]
        exact hmap n
    · by_cases hn : n = i
      · rw [hn, Function.update_self]
        exact hvalue k
      · rw [Function.update_of_ne hn, hother n k hn]
  cases call with
  | add i item =>
    refine hserved i _ rfl (sorted_add (hmap i) item) (fun k => ?_) fun n k hn => ?_
    · simp [Call.valueAt, lookup_add (hmap i)]
    · simp [Call.valueAt, hn]
  | merge i vector =>
    refine hserved i _ rfl (sorted_merge (hmap i) vector) (fun k => ?_) fun n k hn => ?_
    · simp [Call.valueAt, lookup_merge (hmap i)]
    · simp [Call.valueAt, hn]
  | mergeSorted i j =>
    obtain ⟨ys, hmerge, hys, hlookup⟩ := mergeSorted_of_apart (hmap i) (hmap j) h
    refine hserved i ys (by simp [step, hmerge]) hys (fun k => ?_) fun n k hn => ?_
    · simp [Call.valueAt, hlookup]
    · simp [Call.valueAt, hn]
  | remove i item =>
    refine hserved i _ rfl (sorted_remove (hmap i) item) (fun k => ?_) fun n k hn => ?_
    · simp [Call.valueAt, lookup_remove (hmap i)]
    · simp [Call.valueAt, hn]

theorem apart_of_served {vs : ℕ → List α} {call : Call α} (h : Served c vs call) :
    call.Apart c vs := by
  cases call with
  | mergeSorted i j =>
    intro hne
    obtain ⟨vs', hstep, hmap, -⟩ := h
    obtain ⟨ys, hmerge, rfl⟩ := Option.map_eq_some_iff.mp hstep
    refine apart_of_mergeSorted hne hmerge ?_
    have hys := isMap_iff.mp (hmap i)
    rwa [Function.update_self] at hys
  | _ => trivial

theorem along_served_iff {vs : ℕ → List α} (hmap : ∀ n, Sorted c.key (vs n))
    (calls : List (Call α)) :
    Along (step c) (Served c) vs calls ↔ Along (step c) (fun vs call => call.Apart c vs) vs calls :=
      by
  induction calls generalizing vs with
  | nil => rfl
  | cons call calls ih =>
    have hiff : Served c vs call ↔ call.Apart c vs :=
      ⟨apart_of_served, served_of_apart hmap call⟩
    rw [Along, Along, hiff]
    refine and_congr_right fun hapart => ?_
    obtain ⟨vs', hstep, hmap', -⟩ := hiff.mpr hapart
    have hnext := ih fun n => isMap_iff.mp (hmap' n)
    simpa [hstep] using hnext

/-- In a run from empty vectors every call leaves maps behind, with the items it is to leave, iff
every sorted vector merged has items only where the ends are apart. -/
theorem sortedVector_map_iff (c : Comparison α) (calls : List (Call α)) :
    Along (step c) (Served c) (fun _ => []) calls ↔
      Along (step c) (fun vs call => call.Apart c vs) (fun _ => []) calls :=
  along_served_iff (fun _ => List.Pairwise.nil) calls

/-- The order of the integers. -/
def intComparison : Comparison ℤ where
  compare a b := a - b
  neg_iff_pos := by lia
  nonpos_trans := by lia

/-- Two vectors with one item each, of one key: the merge keeps both. -/
theorem mergeSorted_equalEnds :
    ¬Along (step intComparison) (Served intComparison) (fun _ => [])
      [.add 0 7, .add 1 7, .mergeSorted 0 1] := by
  rintro ⟨-, hafter⟩
  obtain ⟨-, hafter⟩ := hafter _ rfl
  obtain ⟨⟨vs, hstep, hmap, -⟩, -⟩ := hafter _ rfl
  have hvs : vs 0 = [7, 7] := congrFun (Option.some_injective _ hstep).symm 0
  have hpair := (hmap 0).increasing
  rw [hvs] at hpair
  simp [intComparison] at hpair

end AudioFlinger.SortedVectorImpl
