import Mathlib.Data.Finset.Card
import Mathlib.Data.List.Induction
import Mathlib.Data.List.Nodup
import Mathlib.Logic.Function.Basic
import Mathlib.Tactic.Common

/-!
# Doubly linked lists

Nodes lie at addresses and point at their neighbours; a null pointer is `none`.
`Holds` says that following the pointers visits a list of addresses and values,
forwards and backwards. Each operation has a lemma that says what it does to
that list.
-/

namespace AudioFlinger.Foundation

variable {α : Type*}

structure Node (α : Type*) where
  val : α
  prev : Option ℕ
  next : Option ℕ

/-- The addresses from `fresh` on have not been used. -/
structure LinkedList (α : Type*) where
  mFirst : Option ℕ
  mLast : Option ℕ
  node : ℕ → Option (Node α)
  fresh : ℕ

namespace LinkedList

def empty : LinkedList α where
  mFirst := none
  mLast := none
  node := fun _ => none
  fresh := 0

variable (l : LinkedList α)

def modify (p : ℕ) (f : Node α → Node α) : LinkedList α :=
  { l with node := Function.update l.node p ((l.node p).map f) }

/-- Assign to the value of a node. -/
def assign (p : ℕ) (f : α → α) : LinkedList α := l.modify p fun n => { n with val := f n.val }

/-- A node of its own, outside the list. -/
def new (v : α) : ℕ × LinkedList α :=
  (l.fresh, { l with
    node := Function.update l.node l.fresh (some { val := v, prev := none, next := none })
    fresh := l.fresh + 1 })

def delete (p : ℕ) : LinkedList α := { l with node := Function.update l.node p none }

/-- The `prev` pointer of a node, or the end of the list. -/
def setPrev (next : Option ℕ) (p : Option ℕ) : LinkedList α :=
  match next with
  | none => { l with mLast := p }
  | some r => l.modify r fun n => { n with prev := p }

/-- The `next` pointer of a node, or the start of the list. -/
def setNext (prev : Option ℕ) (p : Option ℕ) : LinkedList α :=
  match prev with
  | none => { l with mFirst := p }
  | some r => l.modify r fun n => { n with next := p }

def insertAfter (p q : ℕ) : LinkedList α :=
  let next := (l.node p).bind Node.next
  let l := l.modify q fun n => { n with prev := some p, next := next }
  (l.setPrev next (some q)).modify p fun n => { n with next := some q }

def insertBefore (p q : ℕ) : LinkedList α :=
  let prev := (l.node p).bind Node.prev
  let l := l.modify q fun n => { n with prev := prev, next := some p }
  (l.setNext prev (some q)).modify p fun n => { n with prev := some q }

def insertHead (q : ℕ) : LinkedList α :=
  match l.mFirst with
  | none =>
    { l.modify q fun n => { n with prev := none, next := none } with
      mFirst := some q
      mLast := some q }
  | some r =>
    let l := l.modify q fun n => { n with prev := none, next := some r }
    { l.modify r fun n => { n with prev := some q } with mFirst := some q }

def remove (p : ℕ) : LinkedList α :=
  let prev := (l.node p).bind Node.prev
  let next := (l.node p).bind Node.next
  (l.setNext prev next).setPrev next prev

/-! ## What the list holds -/

/-- The address of the first of `xs`, or of what is behind it. -/
def headOr (xs : List (ℕ × α)) (b : Option ℕ) : Option ℕ := (xs.head?.map Prod.fst).or b

/-- The address of the last of `xs`, or of what is before it. -/
def lastOr (a : Option ℕ) (xs : List (ℕ × α)) : Option ℕ := (xs.getLast?.map Prod.fst).or a

/-- The nodes hold `xs`, linked with each other and with the neighbours `a` and `b`. -/
def Seg (node : ℕ → Option (Node α)) : Option ℕ → List (ℕ × α) → Option ℕ → Prop
  | _, [], _ => True
  | a, (p, v) :: xs, b =>
    node p = some { val := v, prev := a, next := headOr xs b } ∧ Seg node (some p) xs b

structure Holds (l : LinkedList α) (xs : List (ℕ × α)) : Prop where
  first : l.mFirst = headOr xs none
  last : l.mLast = lastOr none xs
  nodup : (xs.map Prod.fst).Nodup
  used : ∀ x ∈ xs, x.1 < l.fresh
  seg : Seg l.node none xs none

variable {l} {node node' : ℕ → Option (Node α)} {a b : Option ℕ} {xs ys : List (ℕ × α)}
  {p q : ℕ} {v w : α}

@[simp] theorem headOr_nil : headOr ([] : List (ℕ × α)) b = b := rfl

@[simp] theorem headOr_cons (x : ℕ × α) : headOr (x :: xs) b = some x.1 := rfl

@[simp] theorem lastOr_nil : lastOr a ([] : List (ℕ × α)) = a := rfl

@[simp] theorem lastOr_cons (x : ℕ × α) : lastOr a (x :: xs) = lastOr (some x.1) xs := by
  cases h : xs.getLast? <;> simp [lastOr, List.getLast?_cons, h]

@[simp] theorem lastOr_concat (x : ℕ × α) : lastOr a (xs ++ [x]) = some x.1 := by
  simp [lastOr]

theorem headOr_append : headOr (xs ++ ys) b = headOr xs (headOr ys b) := by
  cases xs <;> rfl

theorem lastOr_append : lastOr a (xs ++ ys) = lastOr (lastOr a xs) ys := by
  induction xs generalizing a with
  | nil => rfl
  | cons x xs ih => rw [List.cons_append, lastOr_cons, lastOr_cons, ih]

theorem seg_append :
    Seg node a (xs ++ ys) b ↔ Seg node a xs (headOr ys b) ∧ Seg node (lastOr a xs) ys b := by
  induction xs generalizing a with
  | nil => simp [Seg]
  | cons x xs ih =>
    obtain ⟨p, v⟩ := x
    rw [List.cons_append, Seg, Seg, ih, headOr_append, lastOr_cons, and_assoc]

theorem Seg.congr (h : Seg node a xs b) (hsame : ∀ x ∈ xs, node' x.1 = node x.1) :
    Seg node' a xs b := by
  induction xs generalizing a with
  | nil => trivial
  | cons x xs ih =>
    obtain ⟨p, v⟩ := x
    exact ⟨(hsame _ List.mem_cons_self).trans h.1,
      ih h.2 fun y hy => hsame y (List.mem_cons_of_mem _ hy)⟩

/-- The part of the list up to a node whose `next` pointer is `b`. -/
def Front (l : LinkedList α) (xs : List (ℕ × α)) (b : Option ℕ) : Prop :=
  l.mFirst = headOr xs b ∧ Seg l.node none xs b

/-- The part of the list from a node whose `prev` pointer is `a`. -/
def Back (l : LinkedList α) (a : Option ℕ) (ys : List (ℕ × α)) : Prop :=
  l.mLast = lastOr a ys ∧ Seg l.node a ys none

theorem holds_append : Holds l (xs ++ ys) ↔
    Front l xs (headOr ys none) ∧ Back l (lastOr none xs) ys ∧
      ((xs ++ ys).map Prod.fst).Nodup ∧ ∀ x ∈ xs ++ ys, x.1 < l.fresh := by
  constructor
  · rintro ⟨hfirst, hlast, hnodup, hused, hseg⟩
    rw [headOr_append] at hfirst
    rw [lastOr_append] at hlast
    rw [seg_append] at hseg
    exact ⟨⟨hfirst, hseg.1⟩, ⟨hlast, hseg.2⟩, hnodup, hused⟩
  · rintro ⟨⟨hfirst, hxs⟩, ⟨hlast, hys⟩, hnodup, hused⟩
    rw [← headOr_append] at hfirst
    rw [← lastOr_append] at hlast
    exact ⟨hfirst, hlast, hnodup, hused, seg_append.mpr ⟨hxs, hys⟩⟩

theorem Front.congr {l' : LinkedList α} (h : Front l xs b) (hfirst : l'.mFirst = l.mFirst)
    (hsame : ∀ x ∈ xs, l'.node x.1 = l.node x.1) : Front l' xs b :=
  ⟨hfirst.trans h.1, h.2.congr hsame⟩

theorem Back.congr {l' : LinkedList α} (h : Back l a ys) (hlast : l'.mLast = l.mLast)
    (hsame : ∀ y ∈ ys, l'.node y.1 = l.node y.1) : Back l' a ys :=
  ⟨hlast.trans h.1, h.2.congr hsame⟩

theorem back_cons : Back l a ((p, v) :: ys) ↔
    l.node p = some { val := v, prev := a, next := headOr ys none } ∧ Back l (some p) ys := by
  rw [Back, Back, lastOr_cons, Seg]
  tauto

theorem Holds.node_eq (h : Holds l (xs ++ (p, v) :: ys)) :
    l.node p = some { val := v, prev := lastOr none xs, next := headOr ys none } :=
  (back_cons.mp (holds_append.mp h).2.1).1

theorem Holds.ne_of_mem (h : Holds l (xs ++ (p, v) :: ys)) {x : ℕ × α} (hx : x ∈ xs ++ ys) :
    x.1 ≠ p := by
  have hnodup := h.nodup
  rw [List.map_append, List.map_cons, List.nodup_middle, ← List.map_append,
    List.nodup_cons] at hnodup
  exact fun heq => hnodup.1 (List.mem_map.mpr ⟨x, hx, heq⟩)

/-! ## The pointers -/

@[simp] theorem modify_mFirst (f : Node α → Node α) : (l.modify p f).mFirst = l.mFirst := rfl

@[simp] theorem modify_mLast (f : Node α → Node α) : (l.modify p f).mLast = l.mLast := rfl

@[simp] theorem modify_fresh (f : Node α → Node α) : (l.modify p f).fresh = l.fresh := rfl

theorem modify_node_self (f : Node α → Node α) : (l.modify p f).node p = (l.node p).map f :=
  Function.update_self ..

theorem modify_node_of_ne (f : Node α → Node α) (hne : q ≠ p) :
    (l.modify p f).node q = l.node q :=
  Function.update_of_ne hne ..

@[simp] theorem setNext_mLast : (l.setNext a b).mLast = l.mLast := by cases a <;> rfl

@[simp] theorem setNext_fresh : (l.setNext a b).fresh = l.fresh := by cases a <;> rfl

@[simp] theorem setPrev_mFirst : (l.setPrev a b).mFirst = l.mFirst := by cases a <;> rfl

@[simp] theorem setPrev_fresh : (l.setPrev a b).fresh = l.fresh := by cases a <;> rfl

theorem setNext_node_of_ne (hne : a ≠ some q) : (l.setNext a b).node q = l.node q := by
  cases a with
  | none => rfl
  | some r => exact modify_node_of_ne _ fun h => hne (h ▸ rfl)

theorem setPrev_node_of_ne (hne : a ≠ some q) : (l.setPrev a b).node q = l.node q := by
  cases a with
  | none => rfl
  | some r => exact modify_node_of_ne _ fun h => hne (h ▸ rfl)

theorem headOr_ne (hq : ∀ x ∈ xs, x.1 ≠ q) : headOr xs none ≠ some q := by
  cases xs with
  | nil => simp
  | cons x xs => simpa using hq x List.mem_cons_self

theorem lastOr_ne (hq : ∀ x ∈ xs, x.1 ≠ q) : lastOr none xs ≠ some q := by
  induction xs using List.reverseRecOn with
  | nil => simp
  | append_singleton xs x _ => simpa using hq x (by simp)

theorem Front.setNext (h : Front l xs a) (hnodup : (xs.map Prod.fst).Nodup) :
    Front (l.setNext (lastOr none xs) b) xs b := by
  induction xs using List.reverseRecOn with
  | nil => exact ⟨rfl, trivial⟩
  | append_singleton xs x _ =>
    obtain ⟨p, v⟩ := x
    obtain ⟨hfirst, hseg⟩ := h
    obtain ⟨hxs, hp, -⟩ := seg_append.mp hseg
    rw [List.map_append, List.nodup_append'] at hnodup
    have hne : ∀ x ∈ xs, x.1 ≠ p := fun x hx heq =>
      hnodup.2.2 (List.mem_map_of_mem hx) (by simp [heq])
    rw [lastOr_concat]
    refine ⟨?_, seg_append.mpr ⟨?_, ?_, trivial⟩⟩
    · rw [headOr_append] at hfirst ⊢
      exact hfirst
    · exact hxs.congr fun x hx => modify_node_of_ne _ (hne x hx)
    · exact (modify_node_self _).trans (by rw [hp]; rfl)

theorem Back.setPrev (h : Back l a ys) (hnodup : (ys.map Prod.fst).Nodup) :
    Back (l.setPrev (headOr ys none) b) b ys := by
  cases ys with
  | nil => exact ⟨rfl, trivial⟩
  | cons y ys =>
    obtain ⟨p, v⟩ := y
    obtain ⟨hp, hlast, hseg⟩ := back_cons.mp h
    rw [List.map_cons, List.nodup_cons] at hnodup
    have hne : ∀ y ∈ ys, y.1 ≠ p := fun y hy heq =>
      hnodup.1 (List.mem_map.mpr ⟨y, hy, heq⟩)
    refine back_cons.mpr ⟨?_, hlast, ?_⟩
    · exact (modify_node_self _).trans (by rw [hp]; rfl)
    · exact hseg.congr fun y hy => modify_node_of_ne _ (hne y hy)

/-! ## The operations -/

/-- A node of its own: no node of `xs`, with the value `w`. -/
structure Apart (l : LinkedList α) (xs : List (ℕ × α)) (q : ℕ) (w : α) : Prop where
  val : (l.node q).map Node.val = some w
  used : q < l.fresh
  ne : ∀ x ∈ xs, x.1 ≠ q

theorem holds_empty : Holds (empty : LinkedList α) [] where
  first := rfl
  last := rfl
  nodup := by simp
  used := by simp
  seg := trivial

theorem Holds.new (h : Holds l xs) (v : α) :
    Holds (l.new v).2 xs ∧ Apart (l.new v).2 xs (l.new v).1 v := by
  have hne : ∀ x ∈ xs, x.1 ≠ l.fresh := fun x hx => (h.used x hx).ne
  refine ⟨⟨h.first, h.last, h.nodup, fun x hx => (h.used x hx).trans l.fresh.lt_succ_self, ?_⟩, ?_⟩
  · exact h.seg.congr fun x hx => Function.update_of_ne (hne x hx) ..
  · exact ⟨by simp [LinkedList.new], l.fresh.lt_succ_self, hne⟩

theorem Holds.delete (h : Holds l xs) (hq : ∀ x ∈ xs, x.1 ≠ q) : Holds (l.delete q) xs :=
  ⟨h.first, h.last, h.nodup, h.used,
    h.seg.congr fun x hx => Function.update_of_ne (hq x hx) ..⟩

theorem Holds.assign (h : Holds l (xs ++ (p, v) :: ys)) (f : α → α) :
    Holds (l.assign p f) (xs ++ (p, f v) :: ys) := by
  obtain ⟨hfront, hback, hnodup, hused⟩ := holds_append.mp h
  have hkeys : ((xs ++ (p, f v) :: ys).map Prod.fst) = (xs ++ (p, v) :: ys).map Prod.fst := by
    simp
  rw [List.map_append, List.nodup_append', List.map_cons, List.nodup_cons] at hnodup
  obtain ⟨hxs, ⟨hp, hys⟩, hdisj⟩ := hnodup
  obtain ⟨hnode, hrest⟩ := back_cons.mp hback
  refine holds_append.mpr ⟨?_, back_cons.mpr ⟨?_, ?_⟩, hkeys ▸ h.nodup, ?_⟩
  · refine hfront.congr rfl fun x hx => modify_node_of_ne _ fun heq => ?_
    exact hdisj (List.mem_map_of_mem hx) (by simp [heq])
  · exact (modify_node_self _).trans (by rw [hnode]; rfl)
  · refine hrest.congr rfl fun y hy => modify_node_of_ne _ fun heq => ?_
    exact hp (List.mem_map.mpr ⟨y, hy, heq⟩)
  · intro x hx
    have hmem : x.1 ∈ (xs ++ (p, v) :: ys).map Prod.fst := hkeys ▸ List.mem_map_of_mem hx
    obtain ⟨y, hy, heq⟩ := List.mem_map.mp hmem
    exact heq ▸ hused y hy

theorem modify_comm {f g : Node α → Node α} (hfg : ∀ n, f (g n) = g (f n)) :
    (l.modify p f).modify q g = (l.modify q g).modify p f := by
  have hmap : ∀ n : Option (Node α), (n.map f).map g = (n.map g).map f := by
    rintro (_ | n)
    · rfl
    · simp [hfg]
  simp only [modify, LinkedList.mk.injEq, true_and, and_true]
  funext r
  by_cases hpq : p = q
  · subst hpq
    by_cases hr : r = p <;> simp [hr, hmap]
  · by_cases hp : r = p
    · subst hp
      simp [hpq]
    · by_cases hq : r = q <;> simp [Function.update_apply, hp, hq, Ne.symm hpq]

theorem setNext_setPrev_comm {a b c d : Option ℕ} :
    (l.setPrev a b).setNext c d = (l.setNext c d).setPrev a b := by
  cases a <;> cases c
  · rfl
  · rfl
  · rfl
  · exact modify_comm fun n => rfl

theorem Apart.node_modify (hq : Apart l xs q w) (a b : Option ℕ) :
    (l.modify q fun n => { n with prev := a, next := b }).node q =
      some { val := w, prev := a, next := b } := by
  obtain ⟨n, hn, rfl⟩ := Option.map_eq_some_iff.mp hq.val
  rw [modify_node_self, hn]
  rfl

theorem Apart.assign (hq : Apart l (xs ++ (p, v) :: ys) q w) (f : α → α) :
    Apart (l.assign p f) (xs ++ (p, f v) :: ys) q w := by
  have hpq : q ≠ p := fun heq => hq.ne (p, v) (by simp) heq.symm
  refine ⟨?_, hq.used, fun x hx => ?_⟩
  · rw [LinkedList.assign, modify_node_of_ne _ hpq]
    exact hq.val
  · rcases List.mem_append.mp hx with hx | hx
    · exact hq.ne x (List.mem_append_left _ hx)
    · rcases List.mem_cons.mp hx with rfl | hx
      · exact hpq.symm
      · exact hq.ne x (List.mem_append_right _ (List.mem_cons_of_mem _ hx))

/-- Link the node `q` between the neighbours `a` and `b`. -/
def link (l : LinkedList α) (a b : Option ℕ) (q : ℕ) : LinkedList α :=
  ((l.modify q fun n => { n with prev := a, next := b }).setPrev b (some q)).setNext a (some q)

theorem Holds.link (h : Holds l (xs ++ ys)) (hq : Apart l (xs ++ ys) q w) :
    Holds (l.link (lastOr none xs) (headOr ys none) q) (xs ++ (q, w) :: ys) := by
  obtain ⟨hfront, hback, hnodup, hused⟩ := holds_append.mp h
  obtain ⟨hxs, hys, hdisj⟩ := List.nodup_append'.mp (List.map_append ▸ hnodup)
  have hqx : ∀ x ∈ xs, x.1 ≠ q := fun x hx => hq.ne x (List.mem_append_left _ hx)
  have hqy : ∀ y ∈ ys, y.1 ≠ q := fun y hy => hq.ne y (List.mem_append_right _ hy)
  have hxy : ∀ x ∈ xs, ∀ y ∈ ys, y.1 ≠ x.1 := fun x hx y hy heq =>
    hdisj (List.mem_map_of_mem hx) (List.mem_map.mpr ⟨y, hy, heq⟩)
  refine holds_append.mpr ⟨?_, back_cons.mpr ⟨?_, ?_⟩, ?_, ?_⟩
  · -- the part before `q`: only its last node is written
    refine Front.setNext (a := headOr ys none) (hfront.congr (by simp) fun x hx => ?_) hxs
    rw [setPrev_node_of_ne (headOr_ne (hxy x hx)), modify_node_of_ne _ (hqx x hx)]
  · rw [LinkedList.link, setNext_node_of_ne (lastOr_ne hqx), setPrev_node_of_ne (headOr_ne hqy)]
    exact hq.node_modify ..
  · -- the part behind `q`: only its first node is written
    have hb : Back (l.modify q fun n =>
        { n with prev := lastOr none xs, next := headOr ys none }) (lastOr none xs) ys :=
      hback.congr rfl fun y hy => modify_node_of_ne _ (hqy y hy)
    refine (hb.setPrev hys).congr (by simp [LinkedList.link]) fun y hy => setNext_node_of_ne ?_
    exact lastOr_ne fun x hx => (hxy x hx y hy).symm
  · have hnot : q ∉ (xs ++ ys).map Prod.fst := by
      intro hmem
      obtain ⟨x, hx, heq⟩ := List.mem_map.mp hmem
      exact hq.ne x hx heq
    rw [List.map_append, List.map_cons, List.nodup_middle, ← List.map_append, List.nodup_cons]
    exact ⟨hnot, h.nodup⟩
  · intro x hx
    simp only [LinkedList.link, setNext_fresh, setPrev_fresh, modify_fresh]
    rcases List.mem_append.mp hx with hx | hx
    · exact h.used x (List.mem_append_left _ hx)
    · rcases List.mem_cons.mp hx with rfl | hx
      · exact hq.used
      · exact h.used x (List.mem_append_right _ hx)

theorem Holds.insertAfter (h : Holds l (xs ++ (p, v) :: ys))
    (hq : Apart l (xs ++ (p, v) :: ys) q w) :
    Holds (l.insertAfter p q) (xs ++ (p, v) :: (q, w) :: ys) := by
  have hnext : (l.node p).bind Node.next = headOr ys none := by
    rw [h.node_eq]
    rfl
  have hlink : l.insertAfter p q = l.link (some p) (headOr ys none) q := by
    rw [← hnext]
    rfl
  rw [List.append_cons] at h hq ⊢
  have hheld := h.link hq
  rwa [lastOr_concat, ← hlink] at hheld

theorem Holds.insertBefore (h : Holds l (xs ++ (p, v) :: ys))
    (hq : Apart l (xs ++ (p, v) :: ys) q w) :
    Holds (l.insertBefore p q) (xs ++ (q, w) :: (p, v) :: ys) := by
  have hprev : (l.node p).bind Node.prev = lastOr none xs := by
    rw [h.node_eq]
    rfl
  have hlink : l.insertBefore p q = l.link (lastOr none xs) (some p) q := by
    rw [LinkedList.link, setNext_setPrev_comm, ← hprev]
    rfl
  rw [hlink]
  exact h.link hq

theorem Holds.insertHead (h : Holds l xs) (hq : Apart l xs q w) :
    Holds (l.insertHead q) ((q, w) :: xs) := by
  have hlink : l.insertHead q = l.link none (headOr xs none) q := by
    rw [LinkedList.insertHead, ← h.first]
    cases l.mFirst <;> rfl
  rw [hlink]
  exact @Holds.link _ l [] xs q w h hq

/-- The node stays allocated, but no pointer leads to it. -/
theorem Holds.remove (h : Holds l (xs ++ (p, v) :: ys)) :
    Holds (l.remove p) (xs ++ ys) ∧ ∀ x ∈ xs ++ ys, x.1 ≠ p := by
  have hnode := h.node_eq
  obtain ⟨hfront, hback, hnodup, hused⟩ := holds_append.mp h
  rw [List.map_append, List.map_cons, List.nodup_middle, ← List.map_append,
    List.nodup_cons] at hnodup
  obtain ⟨hxs, hys, hdisj⟩ := List.nodup_append'.mp (List.map_append ▸ hnodup.2)
  have hxy : ∀ x ∈ xs, ∀ y ∈ ys, y.1 ≠ x.1 := fun x hx y hy heq =>
    hdisj (List.mem_map_of_mem hx) (List.mem_map.mpr ⟨y, hy, heq⟩)
  have hremove : l.remove p =
      (l.setNext (lastOr none xs) (headOr ys none)).setPrev (headOr ys none) (lastOr none xs) := by
    simp [LinkedList.remove, hnode]
  have hmem : ∀ x ∈ xs ++ ys, x ∈ xs ++ (p, v) :: ys := by
    intro x hx
    rcases List.mem_append.mp hx with hx | hx <;> simp [hx]
  refine ⟨holds_append.mpr ⟨?_, ?_, hnodup.2, fun x hx => ?_⟩, fun x hx => h.ne_of_mem hx⟩
  · rw [hremove]
    refine (hfront.setNext hxs).congr (by simp) fun x hx => ?_
    exact setPrev_node_of_ne (headOr_ne (hxy x hx))
  · rw [hremove]
    refine Back.setPrev (a := some p) ((back_cons.mp hback).2.congr (by simp) fun y hy => ?_) hys
    exact setNext_node_of_ne (lastOr_ne fun x hx => (hxy x hx y hy).symm)
  · rw [hremove, setPrev_fresh, setNext_fresh]
    exact hused x (hmem x hx)

/-- A bound for loops that follow the `next` pointers. -/
theorem Holds.length_le (h : Holds l xs) : xs.length ≤ l.fresh := by
  have hsub : (xs.map Prod.fst).toFinset ⊆ Finset.range l.fresh := by
    intro p hp
    obtain ⟨x, hx, rfl⟩ := List.mem_map.mp (List.mem_toFinset.mp hp)
    exact Finset.mem_range.mpr (h.used x hx)
  have hcard := Finset.card_le_card hsub
  rwa [List.toFinset_card_of_nodup h.nodup, List.length_map, Finset.card_range] at hcard

end LinkedList

end AudioFlinger.Foundation
