import AudioFlinger.Foundation.Comparison
import AudioFlinger.VectorImpl.Fill
import Mathlib.Data.List.Induction

/-!
# Sorting a vector

`VectorImpl::sort`: an insertion sort that destroys and copies items in place,
with one item kept outside. Here every slot is checked: only an item can be
destroyed, copied or compared, and an item that has a destructor is not
overwritten.
-/

namespace AudioFlinger.VectorImpl

open Foundation Foundation.Slots

variable {α : Type} (c : Comparison α) (T : ItemType α)

def NO_ERROR : ℤ := 0

/-! ## Checked slots -/

/-- The slot after its item was destroyed. -/
def destroyed (slot : Option α) : Option (Option α) :=
  if T.trivialDtor then some slot else slot.map fun _ => none

/-- The slot after an item was copied into it. -/
def copied (slot item : Option α) : Option (Option α) :=
  if T.trivialDtor ∨ slot.isNone then item.map some else none

/-- Destroy the item of a slot and copy another one there. -/
def overwrite (slots : List (Option α)) (i : ℕ) (item : Option α) : Option (List (Option α)) := do
  let slot ← slots[i]?
  let slot ← destroyed T slot
  let slot ← copied T slot item
  some (slots.set i slot)

def compareItems (lhs rhs : Option α) : Option ℤ := do
  let lhs ← lhs
  let rhs ← rhs
  some (c.compare lhs rhs)

/-! ## The sort -/

/-- The inner loop, from the slot `next` down: the slots, and the slot that is left open. -/
def shiftLoop (temp : Option α) : ℕ → List (Option α) → Option (List (Option α) × ℕ)
  | 0, slots => some (slots, 0)
  | j + 1, slots => do
    let curr ← slots[j]?
    let slots ← overwrite T slots (j + 1) curr
    -- the slot before the first one is never read
    if j = 0 then some (slots, j)
    else
      let curr ← slots[j - 1]?
      let order ← compareItems c curr temp
      if order > 0 then shiftLoop temp j slots else some (slots, j)

/-- Memory for the item outside: the storage is made the vector's own before it is first asked
for, and it is cleared for the next item. -/
def temporary (grants : Grants) (granted : Bool) (v : VectorImpl α) :
    Option (Option α) → Option (VectorImpl α × Option (Option α))
  | none => do
    let v ← v.editArrayImpl T grants
    some (v, if v.isData && granted then some none else none)
  | some temp => (destroyed T temp).map fun temp => (v, some temp)

/-- The outer loop, from item `i` on: the vector, the item outside, and the status. -/
def sortLoop (grants : Grants) (granted : Bool) :
    ℕ → ℕ → VectorImpl α → Option (Option α) → Option (VectorImpl α × Option (Option α) × ℤ)
  | 0, _, v, temp => some (v, temp, NO_ERROR)
  | rounds + 1, i, v, temp => do
    let curr ← v.slots[i - 1]?
    let item ← v.slots[i]?
    let order ← compareItems c curr item
    if order > 0 then
      let (v, temp) ← temporary T grants granted v temp
      match temp with
      | none => some (v, none, NO_MEMORY)
      | some temp =>
        let item ← v.slots[i]?
        let temp ← copied T temp item
        let (slots, next) ← shiftLoop c T temp i v.slots
        let slots ← overwrite T slots next temp
        sortLoop grants granted rounds (i + 1) (v.withSlots slots) (some temp)
    else sortLoop grants granted rounds (i + 1) v temp

/-- `sort`, with what is granted for the storage and for the item outside. -/
def sort (grants : Grants) (granted : Bool) (v : VectorImpl α) : Option (VectorImpl α × ℤ) :=
  if v.mCount > 1 then do
    let (v, temp, status) ← sortLoop c T grants granted (v.mCount - 1) 1 v none
    match temp with
    | none => some (v, status)
    | some temp =>
      let _ ← destroyed T temp
      some (v, status)
  else some (v, NO_ERROR)

variable {c T} {grants : Grants} {granted : Bool} {xs ps qs : List α} {x y t : α}
variable {rest rest' : List (Option α)}

/-! ## Slots with items -/

/-- Slots with items first. -/
def holding (xs : List α) (rest : List (Option α)) : List (Option α) := xs.map some ++ rest

theorem holding_getElem? (ps : List α) (x : α) (qs : List α) (rest : List (Option α)) :
    (holding (ps ++ x :: qs) rest)[ps.length]? = some (some x) := by
  simp [holding]

theorem holding_set (ps : List α) (x y : α) (qs : List α) (rest : List (Option α)) :
    (holding (ps ++ x :: qs) rest).set ps.length (some y) = holding (ps ++ y :: qs) rest := by
  simp [holding]

theorem overwritten (x y : α) : (destroyed T (some x)).bind (copied T · (some y)) =
    some (some y) := by
  by_cases hdtor : T.trivialDtor = true <;> simp [destroyed, copied, hdtor]

theorem overwrite_holding (rest : List (Option α)) (ps : List α) (x : α) (qs : List α) (y : α) :
    overwrite T (holding (ps ++ x :: qs) rest) ps.length (some y) =
      some (holding (ps ++ y :: qs) rest) := by
  have hslot := overwritten (T := T) x y
  obtain ⟨slot, hdestroyed, hcopied⟩ := Option.bind_eq_some_iff.mp hslot
  simp [overwrite, holding_getElem?, hdestroyed, hcopied, holding_set]

/-- One round of the inner loop that is not the last one by its place. -/
theorem shiftLoop_round (rest : List (Option α)) (ps : List α) (p' p h t : α) (qs : List α) :
    shiftLoop c T (some t) (ps.length + 2) (holding (ps ++ p' :: p :: h :: qs) rest) =
      if 0 < c.compare p' t then
        shiftLoop c T (some t) (ps.length + 1) (holding (ps ++ p' :: p :: p :: qs) rest)
      else some (holding (ps ++ p' :: p :: p :: qs) rest, ps.length + 1) := by
  have hcurr := holding_getElem? (ps ++ [p']) p (h :: qs) rest
  have hmoved := overwrite_holding (T := T) rest (ps ++ [p'] ++ [p]) h qs p
  have hnext := holding_getElem? ps p' (p :: p :: qs) rest
  simp only [List.append_assoc, List.cons_append, List.nil_append, List.length_append,
    List.length_cons, List.length_nil, Nat.zero_add] at hcurr hmoved hnext
  rw [shiftLoop, hcurr, Option.bind_eq_bind, Option.bind_some, hmoved, Option.bind_eq_bind,
    Option.bind_some, if_neg (Nat.succ_ne_zero _), Nat.add_sub_cancel, hnext]
  rfl

/-- The inner loop moves the greater items up, and leaves the slot of the lowest of them open. -/
theorem shiftLoop_holding (rest : List (Option α)) (ps : List α) (p h t : α) (qs : List α)
    (hp : 0 < c.compare p t) :
    ∃ before after h', shiftLoop c T (some t) (ps.length + 1)
        (holding (ps ++ p :: h :: qs) rest) =
          some (holding (before ++ h' :: (after ++ qs)) rest, before.length) ∧
      ps ++ [p] = before ++ after ∧ (∀ y ∈ after, 0 < c.compare y t) ∧
      ∀ y ∈ before.getLast?, c.compare y t ≤ 0 := by
  induction ps using List.reverseRecOn generalizing p h qs with
  | nil =>
    refine ⟨[], [p], p, ?_, rfl, by simpa using hp, by simp⟩
    have hcurr := holding_getElem? [] p (h :: qs) rest
    have hmoved := overwrite_holding (T := T) rest [p] h qs p
    simp only [List.nil_append, List.length_nil, List.singleton_append, List.length_cons]
      at hcurr hmoved
    simp [shiftLoop, hcurr, hmoved]
  | append_singleton ps p' ih =>
    have hround := shiftLoop_round (c := c) (T := T) rest ps p' p h t qs
    rw [List.append_assoc, List.length_append, List.length_singleton]
    refine (exists_congr fun before => exists_congr fun after => exists_congr fun h' =>
      and_congr_left' (Eq.congr_left hround)).mpr ?_
    by_cases hp' : 0 < c.compare p' t
    · obtain ⟨before, after, h', hloop, heq, hafter, hbefore⟩ := ih p' p (p :: qs) hp'
      rw [if_pos hp', hloop]
      refine ⟨before, after ++ [p], h', ?_, ?_, ?_, hbefore⟩
      · rw [List.append_assoc, List.singleton_append]
      · rw [heq, List.append_assoc]
      · intro y hy
        rcases List.mem_append.mp hy with hy | hy
        · exact hafter y hy
        · rwa [List.mem_singleton.mp hy]
    · rw [if_neg hp']
      refine ⟨ps ++ [p'], [p], p, ?_, rfl, by simpa using hp, by simpa using hp'⟩
      simp

/-- An item taken out and put where the inner loop leaves a slot open. -/
theorem exists_insertion (rest : List (Option α)) (ps : List α) (p x : α) (qs : List α)
    (hp : 0 < c.compare p x) :
    ∃ before after slots next, shiftLoop c T (some x) (ps ++ [p]).length
        (holding (ps ++ [p] ++ x :: qs) rest) = some (slots, next) ∧
      overwrite T slots next (some x) = some (holding (before ++ x :: after ++ qs) rest) ∧
      ps ++ [p] = before ++ after ∧ (∀ y ∈ after, 0 < c.compare y x) ∧
      ∀ y ∈ before.getLast?, c.compare y x ≤ 0 := by
  obtain ⟨before, after, h', hloop, heq, hafter, hbefore⟩ :=
    shiftLoop_holding (T := T) rest ps p x x qs hp
  refine ⟨before, after, holding (before ++ h' :: (after ++ qs)) rest, before.length, ?_, ?_, heq,
    hafter, hbefore⟩
  · rw [List.length_append, List.append_assoc]
    exact hloop
  · rw [overwrite_holding _, List.append_assoc, List.cons_append]

/-! ## The outer loop -/

variable {v v' : VectorImpl α} {temp : Option (Option α)} {outside : Option α} {p : α}

/-- The comparison of a round is that of an item with the one before it. -/
theorem sortLoop_round (hslots : v.slots = holding (ps ++ [p] ++ x :: qs) rest) :
    sortLoop c T grants granted (qs.length + 1) (ps ++ [p]).length v temp =
      if 0 < c.compare p x then do
        let (v, temp) ← temporary T grants granted v temp
        match temp with
        | none => some (v, none, NO_MEMORY)
        | some temp =>
          let item ← v.slots[(ps ++ [p]).length]?
          let temp ← copied T temp item
          let (slots, next) ← shiftLoop c T temp (ps ++ [p]).length v.slots
          let slots ← overwrite T slots next temp
          sortLoop c T grants granted qs.length ((ps ++ [p]).length + 1) (v.withSlots slots)
            (some temp)
      else sortLoop c T grants granted qs.length ((ps ++ [p]).length + 1) v temp := by
  have hitem := holding_getElem? (ps ++ [p]) x qs rest
  have hcurr := holding_getElem? ps p (x :: qs) rest
  rw [List.append_cons, ← hslots] at hcurr
  rw [← hslots] at hitem
  have hbefore : v.slots[(ps ++ [p]).length - 1]? = some (some p) := by
    rwa [List.length_append, List.length_singleton, Nat.add_sub_cancel]
  rw [sortLoop, hbefore, hitem]
  rfl

/-- A round that puts an item further to the front. -/
theorem sortLoop_insert (hsorted : c.StablySorted xs (ps ++ [p])) (hp : 0 < c.compare p x)
    (hslots : v.slots = holding (ps ++ [p] ++ x :: qs) rest)
    (htemp : temporary T grants granted v temp = some (v', some outside))
    (hslots' : v'.slots = holding (ps ++ [p] ++ x :: qs) rest')
    (hcopied : copied T outside (some x) = some (some x)) :
    ∃ ys, c.StablySorted (xs ++ [x]) ys ∧ ys.length = (ps ++ [p]).length + 1 ∧
      sortLoop c T grants granted (qs.length + 1) (ps ++ [p]).length v temp =
        sortLoop c T grants granted qs.length ys.length
          (v'.withSlots (holding (ys ++ qs) rest')) (some (some x)) := by
  obtain ⟨before, after, slots, next, hloop, hput, heq, hafter, hbefore⟩ :=
    exists_insertion (T := T) rest' ps p x qs hp
  have hlen : (before ++ x :: after).length = (ps ++ [p]).length + 1 := by
    rw [heq, List.length_append, List.length_append, List.length_cons, Nat.add_assoc]
  refine ⟨before ++ x :: after, ?_, hlen, ?_⟩
  · rw [heq] at hsorted
    exact hsorted.concat hafter hbefore
  · have hitem := holding_getElem? (ps ++ [p]) x qs rest'
    rw [sortLoop_round hslots, if_pos hp, htemp, hlen]
    simp only [Option.bind_eq_bind, Option.bind_some, hslots', hitem, hcopied, hloop, hput]

/-- A round that leaves an item where it is. -/
theorem sortLoop_keep (hsorted : c.StablySorted xs (ps ++ [p])) (hp : ¬0 < c.compare p x)
    (hslots : v.slots = holding (ps ++ [p] ++ x :: qs) rest) :
    c.StablySorted (xs ++ [x]) (ps ++ [p] ++ [x]) ∧
      sortLoop c T grants granted (qs.length + 1) (ps ++ [p]).length v temp =
        sortLoop c T grants granted qs.length (ps ++ [p] ++ [x]).length v temp := by
  constructor
  · have hsorted : c.StablySorted xs (ps ++ [p] ++ []) := by rwa [List.append_nil]
    exact hsorted.concat (by simp) (by simpa using hp)
  · have hlen : (ps ++ [p] ++ [x]).length = (ps ++ [p]).length + 1 := List.length_append
    rw [sortLoop_round hslots, if_neg hp, hlen]

/-- The memory of one item is used again for the next. -/
theorem temporary_again (v : VectorImpl α) (t x : α) :
    ∃ outside, temporary T grants granted v (some (some t)) = some (v, some outside) ∧
      copied T outside (some x) = some (some x) := by
  obtain ⟨outside, hdestroyed, hcopied⟩ := Option.bind_eq_some_iff.mp (overwritten (T := T) t x)
  refine ⟨outside, ?_, hcopied⟩
  rw [temporary, hdestroyed]
  rfl

/-- The loop once there is an item outside. -/
theorem sortLoop_temp (qs : List α) {sorted : List α} {refs size count : ℕ}
    {released : Option (SharedBuffer α)} (hsorted : c.StablySorted xs sorted)
    (hne : sorted ≠ []) :
    ∃ ys t', sortLoop c T grants granted qs.length sorted.length
        (stored refs size (holding (sorted ++ qs) rest) count released) (some (some t)) =
        some (stored refs size (holding ys rest) count released, some (some t'), NO_ERROR) ∧
      c.StablySorted (xs ++ qs) ys := by
  induction qs generalizing xs sorted t with
  | nil => exact ⟨sorted, t, by rw [List.append_nil]; rfl, by rwa [List.append_nil]⟩
  | cons x qs ih =>
    obtain ⟨ps, p, rfl⟩ := (List.eq_nil_or_concat sorted).resolve_left hne
    rw [List.concat_eq_append] at hsorted ⊢
    rw [List.append_cons xs, List.length_cons]
    have hslots : (stored refs size (holding (ps ++ [p] ++ x :: qs) rest) count released).slots =
      holding (ps ++ [p] ++ x :: qs) rest := rfl
    by_cases hp : 0 < c.compare p x
    · obtain ⟨outside, htemp, hcopied⟩ := temporary_again (T := T) _ t x
      obtain ⟨ys, hys, hlen, hloop⟩ := sortLoop_insert hsorted hp hslots htemp hslots hcopied
      rw [hloop]
      exact ih hys (List.ne_nil_of_length_eq_add_one hlen)
    · obtain ⟨hnext, hloop⟩ := sortLoop_keep (T := T) hsorted hp hslots
      rw [hloop, List.append_cons (ps ++ [p]) x qs]
      exact ih hnext (by simp)

/-- The storage that the loop asks for holds the items, and there is memory for one outside, or
not. -/
theorem temporary_first (granted : Bool) {S : Shape T}
    (hlen : (holding xs rest).length = S.capacity)
    (hcount : xs.length = S.mCount) (hown : S.others = 0 ∨ grants.malloc = true) :
    ∃ refs size rest' released, Own S (holding xs rest) refs size (holding xs rest') released ∧
      temporary T grants granted (S.fill (holding xs rest)) none =
        some (stored refs size (holding xs rest') S.mCount released,
          if granted then some none else none) := by
  obtain ⟨refs, size, slots, released, hedit, hown⟩ := editArray_own hlen hown
  have hslots : holding xs (slots.drop S.mCount) = slots := by
    have htake : (holding xs rest).take S.mCount = xs.map some := by
      rw [← hcount]
      exact List.take_left' (List.length_map _)
    rw [holding, ← htake, ← hown.take_eq, List.take_append_drop]
  refine ⟨refs, size, slots.drop S.mCount, released, by rwa [hslots], ?_⟩
  rw [temporary, hedit, hslots]
  rfl

/-- The loop before the first item that is to move: the storage is as it was. -/
theorem sortLoop_start (granted : Bool) {S : Shape T} (qs : List α) (hps : ps ≠ [])
    (hsorted : c.StablySorted ps ps) (hlen : (holding (ps ++ qs) rest).length = S.capacity)
    (hcount : (ps ++ qs).length = S.mCount)
    (hown : S.others = 0 ∨ grants.malloc ∨ (ps ++ qs).Pairwise fun x y => c.compare x y ≤ 0) :
    (c.StablySorted (ps ++ qs) (ps ++ qs) ∧
      sortLoop c T grants granted qs.length ps.length (S.fill (holding (ps ++ qs) rest)) none =
        some (S.fill (holding (ps ++ qs) rest), none, NO_ERROR)) ∨
    ∃ refs size rest' released, ¬((ps ++ qs).Pairwise fun x y => c.compare x y ≤ 0) ∧
      Own S (holding (ps ++ qs) rest) refs size (holding (ps ++ qs) rest') released ∧
      if granted then ∃ ys t', c.StablySorted (ps ++ qs) ys ∧
        sortLoop c T grants granted qs.length ps.length (S.fill (holding (ps ++ qs) rest)) none =
          some (stored refs size (holding ys rest') S.mCount released, some (some t'), NO_ERROR)
      else
        sortLoop c T grants granted qs.length ps.length (S.fill (holding (ps ++ qs) rest)) none =
          some (stored refs size (holding (ps ++ qs) rest') S.mCount released, none,
            NO_MEMORY) := by
  induction qs generalizing ps with
  | nil =>
    rw [List.append_nil]
    exact .inl ⟨hsorted, rfl⟩
  | cons x qs ih =>
    obtain ⟨ps, p, rfl⟩ := (List.eq_nil_or_concat ps).resolve_left hps
    rw [List.concat_eq_append] at *
    have hslots : (S.fill (holding (ps ++ [p] ++ x :: qs) rest)).slots =
      holding (ps ++ [p] ++ x :: qs) rest := rfl
    rw [List.length_cons]
    by_cases hp : 0 < c.compare p x
    · have hunsorted : ¬((ps ++ [p] ++ x :: qs).Pairwise fun x y => c.compare x y ≤ 0) := by
        intro hle
        have hle := (List.pairwise_append.mp hle).2.2 p (by simp) x (by simp)
        lia
      obtain ⟨refs, size, rest', released, hown, htemp⟩ :=
        temporary_first granted hlen hcount
          ((or_assoc.mpr hown).resolve_right hunsorted)
      refine .inr ⟨refs, size, rest', released, hunsorted, hown, ?_⟩
      cases granted with
      | false =>
        rw [sortLoop_round hslots, if_pos hp, htemp]
        rfl
      | true =>
        have hcopied : copied T none (some x) = some (some x) := by simp [copied]
        obtain ⟨ys, hys, hlen, hloop⟩ := sortLoop_insert hsorted hp hslots htemp rfl hcopied
        obtain ⟨zs, t', hend, hzs⟩ := sortLoop_temp (T := T) qs hys
          (List.ne_nil_of_length_eq_add_one hlen)
        rw [← List.append_cons] at hzs
        exact ⟨zs, t', hzs, hloop.trans hend⟩
    · obtain ⟨hnext, hloop⟩ := sortLoop_keep (T := T) hsorted hp hslots
      rw [hloop]
      rw [List.append_cons (ps ++ [p]) x qs] at *
      exact ih (by simp) hnext hlen hcount hown

/-! ## The whole sort -/

theorem items_holding {S : Shape T} {refs size : ℕ} {released : Option (SharedBuffer α)}
    (hcount : xs.length = S.mCount) :
    (stored refs size (holding xs rest) S.mCount released).items = xs.map some := by
  rw [← hcount]
  exact List.take_left' (List.length_map _)

theorem pairwise_of_length_le_one (c : Comparison α) (h : xs.length ≤ 1) :
    xs.Pairwise fun x y => c.compare x y ≤ 0 := by
  rcases xs with - | ⟨x, - | ⟨y, xs⟩⟩
  · exact .nil
  · exact List.pairwise_singleton _ x
  · simp at h

/-- The end of `sort`, with the item outside destroyed. -/
theorem sort_of_loop {v v' : VectorImpl α} (temp : Option α) {status : ℤ}
    (hcount : 1 < v.mCount)
    (hloop : sortLoop c T grants granted (v.mCount - 1) 1 v none =
      some (v', temp.map some, status)) :
    sort c T grants granted v = some (v', status) := by
  rw [sort, if_pos hcount, hloop]
  cases temp with
  | none => rfl
  | some t => by_cases hdtor : T.trivialDtor = true <;> simp [destroyed, hdtor]

/-- `sort` leaves a stable sorted permutation, or is refused memory for one item and leaves the
items in their order; it never touches a slot in another way than its item allows, and the vectors
that share the storage keep what they have. -/
theorem sort_stable (c : Comparison α) (T : ItemType α) (grants : Grants) (granted : Bool)
    (start : Start T) (xs : List α) (rest : List (Option α))
    (hcount : xs.length = start.mCount) (hlen : (holding xs rest).length = start.capacity)
    (hown : start.others = 0 ∨ grants.malloc ∨ xs.Pairwise fun x y => c.compare x y ≤ 0) :
    ∃ v' status, sort c T grants granted (start.fill (holding xs rest)) = some (v', status) ∧
      SharersKeep (start.fill (holding xs rest)) v' ∧ v'.mCount = xs.length ∧
      (status = NO_ERROR ∧ (∃ ys, c.StablySorted xs ys ∧ v'.items = ys.map some) ∨
        status = NO_MEMORY ∧ granted = false ∧ ¬(xs.Pairwise fun x y => c.compare x y ≤ 0) ∧
          v'.items = xs.map some) := by
  have hkeep := sharersKeep_refl (start.fill (holding xs rest)) released_fill
  have hcount' : (start.fill (holding xs rest)).mCount = xs.length := by rw [mCount_fill, hcount]
  have hitems : (start.fill (holding xs rest)).items = xs.map some := by
    rw [items, hcount']
    cases start with
    | none => 
      rw [List.length_eq_zero_iff.mp hcount]
      rfl
    | some S => exact List.take_left' (List.length_map _)
  rcases Nat.lt_or_ge 1 xs.length with hlt | hle
  · cases start with
    | none => exact absurd hcount (Nat.ne_of_gt (Nat.zero_lt_of_lt hlt))
    | some S =>
      obtain ⟨x, qs, rfl⟩ := List.exists_cons_of_length_pos (Nat.zero_lt_of_lt hlt)
      have hcount : (x :: qs).length = S.mCount := hcount
      have hrounds : S.mCount - 1 = qs.length := by rw [← hcount]; rfl
      have hlt : 1 < S.mCount := hcount ▸ hlt
      obtain ⟨hsorted, hend⟩ | ⟨refs, size, rest', released, hunsorted, hown, hend⟩ :=
        sortLoop_start (T := T) granted qs (List.cons_ne_nil x [])
          (Comparison.stablySorted_self (List.pairwise_singleton _ x)) hlen hcount hown
      · refine ⟨_, _, sort_of_loop none hlt (hrounds ▸ hend), hkeep, hcount',
          .inl ⟨rfl, _, hsorted, hitems⟩⟩
      · cases granted with
        | false =>
          refine ⟨_, _, sort_of_loop none hlt (hrounds ▸ hend),
            sharersKeep_of_own hown.others, hcount.symm,
            .inr ⟨rfl, rfl, hunsorted, items_holding hcount⟩⟩
        | true =>
          obtain ⟨ys, t', hys, hend⟩ := hend
          refine ⟨_, _, sort_of_loop (some t') hlt (hrounds ▸ hend),
            sharersKeep_of_own hown.others, hcount.symm,
            .inl ⟨rfl, ys, hys, items_holding (hys.perm.length_eq.trans hcount)⟩⟩
  · have hsorted := pairwise_of_length_le_one c hle
    refine ⟨_, NO_ERROR, if_neg ?_, hkeep, hcount', .inl ⟨rfl, xs, ?_, hitems⟩⟩
    · rw [hcount']
      omega
    · exact Comparison.stablySorted_self hsorted

/-- A vector of items with constructors, shared with another one. -/
theorem sort_stable_shared :
    let c : Comparison ℤ := ⟨fun a b => a - b, by intros; omega, by intros; omega⟩
    let T : ItemType ℤ := ⟨4, by decide, false, false, false, false, 0⟩
    let S : Shape T := ⟨1, 16, 2, by decide, by decide⟩
    let v := S.fill (holding [2, 1] [none, none])
    ∃ v', sort c T ⟨false, true⟩ true v = some (v', NO_ERROR) ∧ SharersKeep v v' ∧
      ∃ ys, c.StablySorted [2, 1] ys ∧ v'.items = ys.map some := by
  intro c T S v
  obtain ⟨v', status, hsort, hkeep, -, ⟨rfl, hys⟩ | ⟨-, hgranted, -⟩⟩ :=
    sort_stable c T ⟨false, true⟩ true (some S) [2, 1] [none, none] rfl (by decide)
      (.inr (.inl rfl))
  · exact ⟨v', hsort, hkeep, hys⟩
  · exact absurd hgranted (by decide)

/-- Without memory for an item outside, two items that are out of order stay so. -/
theorem sort_refused :
    let c : Comparison ℤ := ⟨fun a b => a - b, by intros; omega, by intros; omega⟩
    let T : ItemType ℤ := ⟨4, by decide, true, true, true, true, 0⟩
    let v := stored 1 16 [some 2, some 1, none, none] 2 none
    sort c T ⟨true, true⟩ false v = some (v, NO_MEMORY) ∧
      ¬∃ ys, c.StablySorted [2, 1] ys ∧ v.items = ys.map some := by
  refine ⟨rfl, ?_⟩
  rintro ⟨ys, hsorted, hitems⟩
  obtain rfl : ys = [2, 1] := List.map_injective_iff.mpr (Option.some_injective ℤ) hitems.symm
  simpa using hsorted.sorted

end AudioFlinger.VectorImpl
