import Mathlib.Tactic.NormNum.Prime
import AudioFlinger.Hashtable.Tables

/-!
# Any number of tables

The state is the heap and the tables, each with the entries that the calls have
put into it and not taken out. Along the runs that do not assign a table with an
array of its own to itself, and do not add to a table that is full of marks and
has no entries, the buckets hold exactly these entries.
-/

namespace AudioFlinger.Hashtable

open Foundation SharedHeap

variable {α κ L : Type}

/-- A table and its entries. -/
abbrev Slot (α L : Type) := Table L × Multiset (BitVec 30 × α)

/-- The tables, by their number; a destroyed table leaves its place empty. -/
structure World (α L : Type) where
  heap : Arrays α
  slots : List (Option (Slot α L))

def World.empty : World α L := ⟨Heap.empty, []⟩

inductive Event (α L : Type)
  | construct (minimumInitialCapacity : ℕ) (loadFactor : L)
  | copy (other : ℕ)
  | assign (t other : ℕ)
  | add (t : ℕ) (hash : BitVec 32) (entry : α)
  | removeAt (t index : ℕ)
  | rehash (t minimumCapacity : ℕ) (loadFactor : L)
  | clear (t : ℕ)
  | dispose (t : ℕ)

namespace World

/-- The table of a number, if it lives. -/
def slot (w : World α L) (t : ℕ) : Option (Slot α L) := (w.slots[t]?).join

/-- The entry at an index of a table. -/
def entryAt (w : World α L) (t index : ℕ) : Option (BitVec 30 × α) := do
  let s ← w.slot t
  let a ← s.1.mBuckets
  let bs ← w.heap.load a
  let b ← bs[index]?
  b.live

/-- Put a table in its place. -/
def put (w : World α L) (t : ℕ) (h : Arrays α) (s : Option (Slot α L)) : World α L :=
  ⟨h, w.slots.set t s⟩

/-- Put a new table behind the others. -/
def push (w : World α L) (h : Arrays α) (s : Slot α L) : World α L := ⟨h, w.slots ++ [some s]⟩

/-- The calls that can be made: their tables live, and the entry to remove is there. -/
def made (w : World α L) : Event α L → Bool
  | .construct _ _ => true
  | .copy other => (w.slot other).isSome
  | .assign t other => (w.slot t).isSome && (w.slot other).isSome
  | .add t _ _ => (w.slot t).isSome
  | .removeAt t index => (w.entryAt t index).isSome
  | .rehash t _ _ => (w.slot t).isSome
  | .clear t => (w.slot t).isSome
  | .dispose t => (w.slot t).isSome

variable (kind : Kind α κ L) [DecidableEq α]

/-- What a call on a table leaves. -/
def on (w : World α L) (t : ℕ) (f : Slot α L → Except Fault (World α L)) :
    Except Fault (World α L) :=
  match w.slot t with
  | none => .error .outside
  | some s => f s

def call (w : World α L) : Event α L → Except Fault (World α L)
  | .construct m l => (Table.construct kind m l).map fun t => w.push w.heap (t, 0)
  | .copy other => w.on other fun s =>
      (Table.copy w.heap s.1).map fun r => w.push r.1 (r.2, s.2)
  | .assign t other => w.on t fun s => w.on other fun o =>
      (s.1.setTo w.heap o.1).map fun r => w.put t r.1 (some (r.2, o.2))
  | .add t hash entry => w.on t fun s =>
      (s.1.add kind w.heap hash entry).map fun r =>
        w.put t r.1 (some (r.2.1, (trimHash hash, entry) ::ₘ s.2))
  | .removeAt t index => w.on t fun s =>
      (s.1.removeAt kind w.heap index).map fun r =>
        w.put t r.1 (some (r.2, (w.entryAt t index).elim s.2 s.2.erase))
  | .rehash t m l => w.on t fun s =>
      (s.1.rehash kind w.heap m l).map fun r => w.put t r.1 (some (r.2, s.2))
  | .clear t => w.on t fun s =>
      (s.1.clear kind w.heap).map fun r => w.put t r.1 (some (r.2, 0))
  | .dispose t => w.on t fun s => (s.1.dispose w.heap).map fun h => w.put t h none

def step (w : World α L) (e : Event α L) : Option (World α L) :=
  if w.made e then (w.call kind e).toOption else none

/-- The calls that go right: adding does not find a table without entries, without room and without
a mark, and no table with an array of its own is assigned to itself. -/
def Sound (w : World α L) : Event α L → Prop
  | .add t hash _ => ∀ s ∈ w.slot t, ∀ a ∈ s.1.mBuckets, ∀ bs ∈ w.heap.load a,
      ¬ Table.Stuck s.1 bs (trimHash hash)
  | .assign t other => t = other → ∀ s ∈ w.slot t, ∀ a ∈ s.1.mBuckets, w.heap.refs a ≠ 1
  | _ => True

instance (w : World α L) : ∀ e, Decidable (w.Sound e)
  | .add _ _ _ => inferInstanceAs (Decidable (∀ s ∈ w.slot _, _))
  | .assign _ _ => inferInstanceAs (Decidable (_ → _))
  | .construct _ _ => isTrue trivial
  | .copy _ => isTrue trivial
  | .removeAt _ _ => isTrue trivial
  | .rehash _ _ _ => isTrue trivial
  | .clear _ => isTrue trivial
  | .dispose _ => isTrue trivial

end World

/-! ## The pointers of all tables -/

/-- The pointer of a place. -/
def slotPointer : Option (Slot α L) → Multiset ℕ
  | none => 0
  | some s => s.1.pointer

def pointers (slots : List (Option (Slot α L))) : Multiset ℕ := (slots.map slotPointer).sum

variable {slots : List (Option (Slot α L))} {x y : Option (Slot α L)} {i o : ℕ}

theorem pointers_cons (x : Option (Slot α L)) (slots : List (Option (Slot α L))) :
    pointers (x :: slots) = slotPointer x + pointers slots :=
  List.sum_cons

theorem pointers_append (xs ys : List (Option (Slot α L))) :
    pointers (xs ++ ys) = pointers xs + pointers ys := by
  rw [pointers, List.map_append, List.sum_append]
  rfl

theorem pointers_split (hx : slots[i]? = some x) :
    pointers slots = slotPointer x + pointers (slots.eraseIdx i) := by
  obtain ⟨hi, rfl⟩ := List.getElem?_eq_some_iff.mp hx
  have hsplit : slots = slots.take i ++ slots[i] :: slots.drop (i + 1) := by simp
  conv_lhs => rw [hsplit]
  rw [List.eraseIdx_eq_take_drop_succ, pointers_append, pointers_append, pointers_cons]
  exact add_left_comm ..

theorem pointers_set (hx : slots[i]? = some x) (y : Option (Slot α L)) :
    pointers (slots.set i y) = slotPointer y + pointers (slots.eraseIdx i) := by
  obtain ⟨hi, -⟩ := List.getElem?_eq_some_iff.mp hx
  rw [pointers_split (List.getElem?_set_self hi), List.eraseIdx_set_eq]

theorem slotPointer_le (hx : x ∈ slots) : slotPointer x ≤ pointers slots := by
  induction slots with
  | nil => cases hx
  | cons z slots ih =>
    rw [pointers_cons]
    rcases List.mem_cons.mp hx with rfl | hx
    · exact Multiset.le_add_right ..
    · exact (ih hx).trans (Multiset.le_add_left ..)

theorem slotPointer_le_erase (hne : o ≠ i) (ho : slots[o]? = some y) :
    slotPointer y ≤ pointers (slots.eraseIdx i) :=
  slotPointer_le (List.mem_eraseIdx_iff_getElem?.mpr ⟨o, hne, ho⟩)

/-! ## The invariant -/

namespace World

/-- The pointers of the tables are those of the heap, and every table is regular. -/
structure Inv (w : World α L) : Prop where
  owned : Owned w.heap (pointers w.slots)
  regular : ∀ t s, w.slot t = some s → s.1.Regular w.heap s.2

variable {w : World α L} {t : ℕ} {s : Slot α L}

theorem slot_eq (hs : w.slot t = some s) : w.slots[t]? = some (some s) := by
  rw [slot, Option.join_eq_some_iff] at hs
  exact hs

/-- The pointers beside a table. -/
def beside (w : World α L) (t : ℕ) : Multiset ℕ := pointers (w.slots.eraseIdx t)

theorem Inv.good (hw : w.Inv) (hs : w.slot t = some s) :
    Table.Good w.heap (w.beside t) s.1 s.2 := by
  refine ⟨?_, hw.regular t s hs⟩
  have ho := hw.owned
  rw [pointers_split (slot_eq hs)] at ho
  exact ho

/-- Putting a table in its place keeps the others. -/
theorem Inv.put (hw : w.Inv) (hs : w.slot t = some s) {h : Arrays α} {s' : Option (Slot α L)}
    (ho : Owned h (slotPointer s' + w.beside t)) (hagree : Agree (w.beside t) w.heap h)
    (hr : ∀ x ∈ s', x.1.Regular h x.2) : (w.put t h s').Inv where
  owned := by
    change Owned h (pointers (w.slots.set t s'))
    rw [pointers_set (slot_eq hs)]
    exact ho
  regular := by
    intro o y hy
    have hget : (w.slots.set t s')[o]? = some (some y) := slot_eq hy
    by_cases hot : o = t
    · subst hot
      obtain ⟨hi, -⟩ := List.getElem?_eq_some_iff.mp (slot_eq hs)
      rw [List.getElem?_set_self hi] at hget
      exact hr y (Option.some_injective _ hget)
    · rw [List.getElem?_set_ne (Ne.symm hot)] at hget
      have hle : y.1.pointer ≤ w.beside t := slotPointer_le_erase hot hget
      have hy' : w.slot o = some y := by rw [slot, hget]; rfl
      exact (hw.regular o y hy').agree (hagree.mono hle)

theorem Inv.put_good (hw : w.Inv) (hs : w.slot t = some s) {h : Arrays α} {x : Slot α L}
    (hg : Table.Good h (w.beside t) x.1 x.2) (hagree : Agree (w.beside t) w.heap h) :
    (w.put t h (some x)).Inv := by
  apply hw.put hs hg.owned hagree
  rintro y ⟨rfl⟩
  exact hg.regular

theorem Inv.push (hw : w.Inv) {h : Arrays α} {x : Slot α L}
    (hg : Table.Good h (pointers w.slots) x.1 x.2) (hagree : Agree (pointers w.slots) w.heap h) :
    (w.push h x).Inv where
  owned := by
    have hnil : pointers ([] : List (Option (Slot α L))) = 0 := rfl
    change Owned h (pointers (w.slots ++ [some x]))
    rw [pointers_append, pointers_cons, hnil, add_zero, add_comm]
    exact hg.owned
  regular := by
    intro o y hy
    have hget : (w.slots ++ [some x])[o]? = some (some y) := slot_eq hy
    by_cases ho : o < w.slots.length
    · rw [List.getElem?_append_left ho] at hget
      have hy' : w.slot o = some y := by rw [slot, hget]; rfl
      have hle : y.1.pointer ≤ pointers w.slots := slotPointer_le (List.mem_of_getElem? hget)
      exact (hw.regular o y hy').agree (hagree.mono hle)
    · rw [List.getElem?_append_right (Nat.le_of_not_lt ho)] at hget
      have hx : y = x := by
        obtain ⟨hlt, hval⟩ := List.getElem?_eq_some_iff.mp hget
        rw [List.getElem_singleton] at hval
        exact (Option.some_injective _ hval).symm
      subst hx
      exact hg.regular

theorem on_eq (hs : w.slot t = some s) (f : Slot α L → Except Fault (World α L)) :
    w.on t f = f s := by
  simp only [on, hs]

theorem entryAt_eq {index : ℕ} {x : BitVec 30 × α} (hx : w.entryAt t index = some x) :
    ∃ s a bs b, w.slot t = some s ∧ s.1.mBuckets = some a ∧ w.heap.load a = some bs ∧
      bs[index]? = some b ∧ b.live = some x := by
  simp only [entryAt, bind, Option.bind_eq_some_iff] at hx
  obtain ⟨s, hs, a, ha, bs, hbs, b, hb, hlive⟩ := hx
  exact ⟨s, a, bs, b, hs, ha, hbs, hb, hlive⟩

variable {kind : Kind α κ L}

/-- A call on one table that leaves it regular. -/
theorem Inv.leaves (hw : w.Inv) (hs : w.slot t = some s) {r : Except Fault (Arrays α × Table L)}
    {entries : Multiset (BitVec 30 × α)} (hr : Table.Leaves w.heap (w.beside t) r entries) :
    ∃ w', (r.map fun r => w.put t r.1 (some (r.2, entries))) = .ok w' ∧ w'.Inv := by
  obtain ⟨h', t', rfl, hgood, hagree⟩ := hr
  exact ⟨w.put t h' (some (t', entries)), rfl, hw.put_good hs hgood hagree⟩

/-- The pointer of the table that is assigned is beside the table it is assigned to. -/
theorem Inv.pointer_le_beside (hw : w.Inv) (hs : w.slot t = some s) {o : ℕ} {x : Slot α L}
    (ho : w.slot o = some x) (hself : t = o → ∀ a ∈ s.1.mBuckets, w.heap.refs a ≠ 1) :
    x.1.pointer ≤ w.beside t := by
  by_cases hot : o = t
  · subst hot
    rw [hs] at ho
    cases ho
    cases hb : s.1.mBuckets with
    | none =>
      rw [Table.pointer_none hb]
      exact Multiset.zero_le _
    | some a =>
      -- The array has another owner.
      have hown := (hw.good hs).owned
      rw [Table.pointer_add hb] at hown
      have hrefs := hself rfl a hb
      rw [ne_eq, hown.refs_eq_one, not_not] at hrefs
      rw [Table.pointer_some hb]
      exact Multiset.singleton_le.mpr hrefs
  · exact slotPointer_le_erase hot (slot_eq ho)

variable [DecidableEq α]

/-- A sound call ends in a state that keeps the invariant, unless it aborts. -/
theorem Inv.call (hk : kind.Lawful) (hw : w.Inv) {e : Event α L} (hmade : w.made e = true)
    (hsound : w.Sound e) :
    w.call kind e = .error .aborted ∨ ∃ w', w.call kind e = .ok w' ∧ w'.Inv := by
  cases e with
  | construct m l =>
    rcases Table.construct_good hk m l hw.owned with habort | ⟨t, hconstruct, hgood⟩
    · left
      rw [World.call, habort]
      rfl
    · right
      refine ⟨w.push w.heap (t, 0), ?_, hw.push hgood (.refl _ _)⟩
      rw [World.call, hconstruct]
      rfl
  | copy other =>
    obtain ⟨o, ho⟩ := Option.isSome_iff_exists.mp hmade
    right
    have hle : o.1.pointer ≤ pointers w.slots := slotPointer_le (List.mem_of_getElem? (slot_eq ho))
    obtain ⟨h', hcopy, hgood, hagree⟩ := Table.copy_leaves hw.owned hle (hw.regular other o ho)
    refine ⟨w.push h' (o.1, o.2), ?_, hw.push hgood hagree⟩
    rw [World.call, on_eq ho, hcopy]
    rfl
  | assign t other =>
    obtain ⟨ht, hother⟩ := Bool.and_eq_true_iff.mp hmade
    obtain ⟨s, hs⟩ := Option.isSome_iff_exists.mp ht
    obtain ⟨o, ho⟩ := Option.isSome_iff_exists.mp hother
    right
    have hle := hw.pointer_le_beside hs ho fun heq => hsound heq s hs
    obtain ⟨h', hset, hgood, hagree⟩ :=
      Table.setTo_leaves (hw.good hs).owned hle (hw.regular other o ho)
    refine ⟨w.put t h' (some (o.1, o.2)), ?_, hw.put_good hs hgood hagree⟩
    rw [World.call, on_eq hs, on_eq ho, hset]
    rfl
  | add t hash entry =>
    obtain ⟨s, hs⟩ := Option.isSome_iff_exists.mp hmade
    rw [World.call, on_eq hs]
    have hstuck := fun a bs ha hbs => hsound s hs a ha bs hbs
    rcases Table.add_adds (e := entry) hk (hw.good hs) hstuck with
      habort | ⟨h', t', i, hadd, hgood, hagree⟩
    · left
      rw [habort]
      rfl
    · right
      refine ⟨_, by rw [hadd]; rfl, hw.put_good hs hgood hagree⟩
  | removeAt t index =>
    obtain ⟨x, hx⟩ := Option.isSome_iff_exists.mp hmade
    obtain ⟨s, a, bs, b, hs, ha, hbs, hb, hlive⟩ := entryAt_eq hx
    right
    have hgood := hw.good hs
    have hentries : s.2 = x ::ₘ s.2.erase x := by
      rw [Multiset.cons_erase (hgood.mem_entries ha hbs hb hlive)]
    rw [World.call, on_eq hs, hx]
    exact hw.leaves hs (Table.removeAt_leaves hgood ha hbs hb hlive hentries)
  | rehash t m l =>
    obtain ⟨s, hs⟩ := Option.isSome_iff_exists.mp hmade
    rw [World.call, on_eq hs]
    rcases Table.rehash_leaves hk (hw.good hs) m l with habort | hleaves
    · left
      rw [habort]
      rfl
    · right
      exact hw.leaves hs hleaves
  | clear t =>
    obtain ⟨s, hs⟩ := Option.isSome_iff_exists.mp hmade
    right
    rw [World.call, on_eq hs]
    exact hw.leaves hs (Table.clear_leaves (hw.good hs))
  | dispose t =>
    obtain ⟨s, hs⟩ := Option.isSome_iff_exists.mp hmade
    right
    obtain ⟨h', hdispose, howned, hagree⟩ := Table.dispose_spec (hw.good hs).owned
    refine ⟨w.put t h' none, ?_, ?_⟩
    · rw [World.call, on_eq hs, hdispose]
      rfl
    · apply hw.put hs _ hagree
      · rintro x ⟨⟩
      · rw [slotPointer, zero_add]
        exact howned

/-- The invariant holds along every sound run. -/
theorem Inv.run (hk : kind.Lawful) {w' : World α L} {es : List (Event α L)}
    (hsound : Machine.Along (step kind) Sound w es) (hrun : Machine.run (step kind) w es = some w')
    (hw : w.Inv) : w'.Inv := by
  refine Machine.run_invariant_along ?_ hsound hrun hw
  intro w₁ e w₂ hok hstep hw₁
  rw [step] at hstep
  split at hstep
  next hmade =>
    rcases hw₁.call hk hmade hok with habort | ⟨w₃, hcall, hw₃⟩
    · rw [habort] at hstep
      cases hstep
    · rw [hcall] at hstep
      cases hstep
      exact hw₃
  next => cases hstep

end World

/-!
## Tables are multimaps

After every sound run each table holds exactly its entries, and its searches
find them.
-/

open Foundation SharedHeap World

variable {α κ L : Type} [DecidableEq α] [DecidableEq κ]

/-- A table is faithful to its entries: they are in its present buckets, the filled buckets are
counted, searches and enumerations end, and repeated `find` reaches every present bucket. -/
structure Faithful (kind : Kind α κ L) (h : Arrays α) (t : Table L)
    (entries : Multiset (BitVec 30 × α)) : Prop where
  empty : t.mBuckets = none → entries = 0 ∧ t.mFilledBuckets = 0
  array : ∀ a, t.mBuckets = some a → ∃ bs, h.load a = some bs ∧ lives bs = entries ∧
    filledCount bs = t.mFilledBuckets ∧
    ∀ (i : ℕ) (b : Bucket α), bs[i]? = some b → b.present = true →
      ∃ e, b.entry = some e ∧ ∀ hash, trimHash hash = b.hash →
        Table.Reached kind h t hash (kind.getKey e) i
  size : t.mSize = Multiset.card entries
  find_ends : ∀ index hash key, ∃ r, t.find kind h index hash key = .ok r
  next_ends : ∀ index, ∃ r, t.next h index = .ok r

variable {kind : Kind α κ L}

omit [DecidableEq α] in
theorem Table.Regular.faithful {h : Arrays α} {t : Table L} {entries : Multiset (BitVec 30 × α)}
    (hr : t.Regular h entries) : Faithful kind h t entries where
  empty := by
    intro ht
    rcases hr.contents with ⟨-, hrest⟩ | ⟨a, bs, hsome, -⟩
    · exact hrest
    · rw [ht] at hsome
      cases hsome
  array := by
    intro a ht
    obtain ⟨hnone, -, -⟩ | ⟨a₀, bs, ht₀, hload, hchained, hlives, hfilled⟩ := hr.contents
    · rw [ht] at hnone
      cases hnone
    · rw [ht] at ht₀
      cases ht₀
      refine ⟨bs, hload, hlives, hfilled, fun i b hb hpresent => ?_⟩
      obtain ⟨e, he⟩ := Option.isSome_iff_exists.mp (hchained.entry i b hb hpresent)
      exact ⟨e, he, fun hash hhash => Table.reached_of_present hr ht hload hb hpresent hhash he⟩
  size := hr.size_eq
  find_ends := Table.find_ok hr
  next_ends := Table.next_ok hr

/-- Numbers that are their own keys; the first bucket counts, with three quarters of the buckets as
capacity. -/
def numbers : Kind ℕ ℕ Unit where
  getKey := id
  mHasTrivialDestructor := false
  determineCapacity := fun m _ =>
    if m ≤ 3 then some (5, 3) else if m ≤ 8 then some (11, 8) else if m ≤ 17 then some (23, 17)
    else none

/-- How a call ends, if it fails. -/
def failure {β : Type} : Except Fault β → Option Fault
  | .ok _ => none
  | .error f => some f

end AudioFlinger.Hashtable
