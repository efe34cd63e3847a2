import Mathlib.Algebra.Order.Group.Multiset
import AudioFlinger.StrParms.Dictionary

/-!
# The table as a dictionary

The entries of a table hold the strings of a dictionary, one entry for each key. What
`hashmapPut`, `hashmapGet` and `hashmapRemove` do to the table is what they mean for
the dictionary, also when the table is expanded.
-/

namespace AudioFlinger.StrParms

open Foundation SharedHeap

/-- The entries are the pairs of the dictionary: their strings are there, their keys are distinct
and have the hash values of the entries. -/
structure Holds (p : Platform) (h : Heap Str) (entries : List Entry) (d : Dict) : Prop where
  hashed : ∀ e ∈ entries, ∃ key, h.load e.key = some key ∧ e.hash = p.hashKey key
  valued : ∀ e ∈ entries, ∃ value, h.load e.value = some value
  nodup : (entries.map fun e => h.load e.key).Nodup
  lookup : ∀ key value, d key = some value ↔
    ∃ e ∈ entries, h.load e.key = some key ∧ h.load e.value = some value

/-- The strings that the entries own. -/
def owned (entries : List Entry) : Multiset ℕ := ↑(entries.map Entry.key) + ↑(entries.map Entry.value)

structure Stored (p : Platform) (h : Heap Str) (map : Hashmap) (d : Dict) : Prop where
  capacity : 0 < map.buckets.length
  placed : Chains.Placed (fun e => p.calculateIndex map.buckets.length e.hash) map.buckets
  count : map.size = map.buckets.flatten.length
  holds : Holds p h map.buckets.flatten d

def Hashmap.owned (map : Hashmap) : Multiset ℕ := StrParms.owned map.buckets.flatten

variable {p : Platform} {h h' : Heap Str} {entries : List Entry} {d : Dict} {e : Entry} {key value : Str}

@[simp] theorem owned_nil : owned [] = 0 := rfl

theorem owned_cons (e : Entry) (entries : List Entry) :
    owned (e :: entries) = e.key ::ₘ e.value ::ₘ owned entries := by
  rw [owned, owned, List.map_cons, List.map_cons, ← Multiset.cons_coe, ← Multiset.cons_coe,
    Multiset.cons_add, Multiset.add_cons]

theorem owned_perm {entries' : List Entry} (hperm : entries.Perm entries') :
    owned entries = owned entries' := by
  rw [owned, owned, Multiset.coe_eq_coe.mpr (hperm.map _), Multiset.coe_eq_coe.mpr (hperm.map _)]

theorem key_mem_owned (he : e ∈ entries) : e.key ∈ owned entries :=
  Multiset.mem_add.mpr (.inl (List.mem_map_of_mem he))

theorem value_mem_owned (he : e ∈ entries) : e.value ∈ owned entries :=
  Multiset.mem_add.mpr (.inr (List.mem_map_of_mem he))

namespace Holds

theorem nil : Holds p h [] Dict.empty where
  hashed := fun _ he => by cases he
  valued := fun _ he => by cases he
  nodup := List.nodup_nil
  lookup := fun _ _ => by simp [Dict.empty]

theorem perm {entries' : List Entry} (hholds : Holds p h entries d) (hperm : entries.Perm entries') :
    Holds p h entries' d where
  hashed := fun e he => hholds.hashed e (hperm.mem_iff.mpr he)
  valued := fun e he => hholds.valued e (hperm.mem_iff.mpr he)
  nodup := (hperm.map _).nodup_iff.mp hholds.nodup
  lookup := by
    intro key value
    rw [hholds.lookup]
    simp only [hperm.mem_iff]

/-- Only the strings of the entries matter. -/
theorem agree (hholds : Holds p h entries d) (hagree : Agree (owned entries) h h') :
    Holds p h' entries d := by
  have hkey : ∀ e ∈ entries, h'.load e.key = h.load e.key := fun e he => hagree _ (key_mem_owned he)
  have hvalue : ∀ e ∈ entries, h'.load e.value = h.load e.value :=
    fun e he => hagree _ (value_mem_owned he)
  refine ⟨?_, ?_, ?_, ?_⟩
  · intro e he
    rw [hkey e he]
    exact hholds.hashed e he
  · intro e he
    rw [hvalue e he]
    exact hholds.valued e he
  · rw [List.map_congr_left hkey]
    exact hholds.nodup
  · intro key value
    rw [hholds.lookup]
    constructor
    · rintro ⟨e, he, hek, hev⟩
      exact ⟨e, he, (hkey e he).trans hek, (hvalue e he).trans hev⟩
    · rintro ⟨e, he, hek, hev⟩
      exact ⟨e, he, (hkey e he).symm.trans hek, (hvalue e he).symm.trans hev⟩

/-- No entry has a key that the dictionary does not have. -/
theorem none_iff (hholds : Holds p h entries d) :
    d key = none ↔ ∀ e ∈ entries, h.load e.key ≠ some key := by
  constructor
  · intro hnone e he hkey
    obtain ⟨value, hvalue⟩ := hholds.valued e he
    have hsome := (hholds.lookup key value).mpr ⟨e, he, hkey, hvalue⟩
    rw [hnone] at hsome
    cases hsome
  · intro hall
    cases hd : d key with
    | none => rfl
    | some value =>
      obtain ⟨e, he, hkey, -⟩ := (hholds.lookup key value).mp hd
      exact absurd hkey (hall e he)

/-- An entry with a new key. -/
theorem cons (hholds : Holds p h entries d) (hkey : h.load e.key = some key)
    (hhash : e.hash = p.hashKey key) (hvalue : h.load e.value = some value) (hnew : d key = none) :
    Holds p h (e :: entries) (d.insert key value) := by
  have hfresh := hholds.none_iff.mp hnew
  refine ⟨?_, ?_, ?_, ?_⟩
  · exact List.forall_mem_cons.mpr ⟨⟨key, hkey, hhash⟩, hholds.hashed⟩
  · exact List.forall_mem_cons.mpr ⟨⟨value, hvalue⟩, hholds.valued⟩
  · rw [List.map_cons, List.nodup_cons, hkey]
    refine ⟨?_, hholds.nodup⟩
    intro hmem
    obtain ⟨x, hx, hxk⟩ := List.mem_map.mp hmem
    exact hfresh x hx hxk
  · intro key' value'
    simp only [List.exists_mem_cons_iff, ← hholds.lookup, Dict.insert, Function.update_apply, hkey, hvalue,
      Option.some.injEq]
    by_cases heq : key' = key
    · subst heq
      simp [hnew]
    · rw [if_neg heq]
      simp [Ne.symm heq]

/-- Without one of its entries. -/
theorem tail (hholds : Holds p h (e :: entries) d) (hkey : h.load e.key = some key) :
    Holds p h entries (d.erase key) := by
  have hnodup := hholds.nodup
  rw [List.map_cons, List.nodup_cons, hkey] at hnodup
  have hother : ∀ x ∈ entries, h.load x.key ≠ some key := by
    intro x hx hxk
    exact hnodup.1 (List.mem_map.mpr ⟨x, hx, hxk⟩)
  refine ⟨?_, ?_, hnodup.2, ?_⟩
  · exact fun x hx => hholds.hashed x (List.mem_cons_of_mem e hx)
  · exact fun x hx => hholds.valued x (List.mem_cons_of_mem e hx)
  · intro key' value'
    rw [Dict.erase, Function.update_apply]
    split
    · next heq =>
      subst heq
      simp only [reduceCtorEq, false_iff, not_exists, not_and]
      exact fun x hx hxk => absurd hxk (hother x hx)
    · next hne =>
      rw [hholds.lookup, List.exists_mem_cons_iff, hkey, Option.some.injEq]
      simp [Ne.symm hne]

end Holds

/-! ## Along one bucket -/

/-- A key is compared with the key of an entry as a string. -/
theorem equalKeys_eq {pointer : Option ℕ} {text : Str} (hkey : h.load e.key = some key)
    (hhash : e.hash = p.hashKey key) (hpointer : ∀ a ∈ pointer, h.load a = some text) :
    equalKeys h e pointer (p.hashKey text) text = some (decide (key = text)) := by
  rw [equalKeys]
  by_cases hsame : pointer = some e.key
  · rw [if_pos hsame]
    have htext := hpointer _ hsame
    rw [hkey, Option.some.injEq] at htext
    rw [decide_eq_true htext]
  · rw [if_neg hsame]
    by_cases hne : e.hash ≠ p.hashKey text
    · rw [if_pos hne]
      have htext : key ≠ text := by
        rintro rfl
        exact hne hhash
      rw [decide_eq_false htext]
    · rw [if_neg hne, hkey]
      rfl

section Chain

variable {chain : List Entry} {a : ℕ} {text : Str}

/-- A key that is not in the bucket gets an entry at its end; otherwise the value is replaced. -/
theorem putChain_spec (hchain : ∀ e ∈ chain, ∃ key, h.load e.key = some key ∧ e.hash = p.hashKey key)
    (ha : h.load a = some text) (b : ℕ) :
    ((∀ e ∈ chain, h.load e.key ≠ some text) ∧
      putChain h a (p.hashKey text) text b chain = some (none, chain ++ [⟨a, p.hashKey text, b⟩])) ∨
    ∃ l e r, chain = l ++ e :: r ∧ h.load e.key = some text ∧
      putChain h a (p.hashKey text) text b chain =
        some (some e.value, l ++ { e with value := b } :: r) := by
  induction chain with
  | nil => exact .inl ⟨fun e he => (by cases he), rfl⟩
  | cons e chain ih =>
    obtain ⟨⟨key, hkey, hhash⟩, hrest⟩ := List.forall_mem_cons.mp hchain
    have hequal := @equalKeys_eq _ _ _ _ (some a) _ hkey hhash (by rintro _ ⟨rfl⟩; exact ha)
    rw [putChain, hequal]
    by_cases htext : key = text
    · rw [decide_eq_true htext]
      exact .inr ⟨[], e, chain, rfl, by rw [hkey, htext], rfl⟩
    · rw [decide_eq_false htext]
      have hne : h.load e.key ≠ some text := by
        rw [hkey, Ne, Option.some.injEq]
        exact htext
      rcases ih hrest with ⟨hnone, hput⟩ | ⟨l, x, r, rfl, hx, hput⟩
      · left
        refine ⟨List.forall_mem_cons.mpr ⟨hne, hnone⟩, ?_⟩
        rw [hput]
        rfl
      · right
        refine ⟨e :: l, x, r, rfl, hx, ?_⟩
        rw [hput]
        rfl

theorem getChain_spec (hchain : ∀ e ∈ chain, ∃ key, h.load e.key = some key ∧ e.hash = p.hashKey key)
    (text : Str) :
    ((∀ e ∈ chain, h.load e.key ≠ some text) ∧ getChain h (p.hashKey text) text chain = some none) ∨
    ∃ e ∈ chain, h.load e.key = some text ∧ getChain h (p.hashKey text) text chain = some (some e.value) := by
  induction chain with
  | nil => exact .inl ⟨fun e he => (by cases he), rfl⟩
  | cons e chain ih =>
    obtain ⟨⟨key, hkey, hhash⟩, hrest⟩ := List.forall_mem_cons.mp hchain
    have hequal := @equalKeys_eq _ _ _ _ none text hkey hhash (by simp)
    rw [getChain, hequal]
    by_cases htext : key = text
    · rw [decide_eq_true htext]
      exact .inr ⟨e, List.mem_cons_self, by rw [hkey, htext], rfl⟩
    · rw [decide_eq_false htext]
      have hne : h.load e.key ≠ some text := by
        rw [hkey, Ne, Option.some.injEq]
        exact htext
      rcases ih hrest with ⟨hnone, hget⟩ | ⟨x, hmem, hx, hget⟩
      · exact .inl ⟨List.forall_mem_cons.mpr ⟨hne, hnone⟩, hget⟩
      · exact .inr ⟨x, List.mem_cons_of_mem e hmem, hx, hget⟩

/-- The first entry with the key goes. -/
theorem removeChain_spec {l r : List Entry}
    (hl : ∀ e ∈ l, ∃ key, h.load e.key = some key ∧ e.hash = p.hashKey key)
    (hother : ∀ e ∈ l, h.load e.key ≠ some text) (hkey : h.load e.key = some text) :
    removeChain h e.key (p.hashKey text) text (l ++ e :: r) = some (true, l ++ r) := by
  induction l with
  | nil =>
    rw [List.nil_append, List.nil_append, removeChain, equalKeys, if_pos rfl]
  | cons x l ih =>
    obtain ⟨⟨key, hx, hhash⟩, hrest⟩ := List.forall_mem_cons.mp hl
    obtain ⟨hne, hother⟩ := List.forall_mem_cons.mp hother
    have hequal := @equalKeys_eq _ _ _ _ (some e.key) _ hx hhash (by rintro _ ⟨rfl⟩; exact hkey)
    have htext : key ≠ text := by
      rintro rfl
      exact hne hx
    rw [List.cons_append, removeChain, hequal, decide_eq_false htext, ih hrest hother]
    rfl

end Chain

/-! ## The table -/

theorem calculateIndex_lt (p : Platform) {bucketCount : ℕ} (hpos : 0 < bucketCount) (hash : BitVec 32) :
    p.calculateIndex bucketCount hash < bucketCount :=
  lt_of_le_of_lt Nat.and_le_right (Nat.sub_one_lt_of_lt hpos)

namespace Stored

variable {map : Hashmap} {i : ℕ} {b b' : List Entry}

variable (hs : Stored p h map d)

include hs

theorem agree (hagree : Agree map.owned h h') : Stored p h' map d where
  capacity := hs.capacity
  placed := hs.placed
  count := hs.count
  holds := hs.holds.agree hagree

/-- The bucket of a key. -/
theorem bucket (key : Str) :
    ∃ b, map.buckets[p.calculateIndex map.buckets.length (p.hashKey key)]? = some b :=
  ⟨_, List.getElem?_eq_getElem (calculateIndex_lt p hs.capacity _)⟩

theorem hashed (hb : map.buckets[i]? = some b) :
    ∀ e ∈ b, ∃ key, h.load e.key = some key ∧ e.hash = p.hashKey key := by
  intro e he
  apply hs.holds.hashed
  exact (Chains.flatten_perm hb).mem_iff.mpr (List.mem_append_left _ he)

/-- A key that is not in its bucket is not in the table. -/
theorem none_of_bucket
    (hb : map.buckets[p.calculateIndex map.buckets.length (p.hashKey key)]? = some b)
    (hnone : ∀ e ∈ b, h.load e.key ≠ some key) : d key = none := by
  rw [hs.holds.none_iff]
  intro e he hkey
  obtain ⟨key', hkey', hhash⟩ := hs.holds.hashed e he
  rw [hkey, Option.some.injEq] at hkey'
  subst hkey'
  rw [← hhash] at hb
  exact hnone e (hs.placed.mem_bucket hb he) hkey

/-- One bucket is replaced. -/
theorem set (hb : map.buckets[i]? = some b)
    (hplaced : ∀ e ∈ b', p.calculateIndex map.buckets.length e.hash = i) {d' : Dict} {size : ℕ}
    (hholds : Holds p h (b' ++ Chains.others map.buckets i) d')
    (hsize : size = (b' ++ Chains.others map.buckets i).length) :
    Stored p h ⟨map.buckets.set i b', size⟩ d' := by
  have hperm := Chains.set_flatten_perm hb b'
  refine ⟨?_, ?_, ?_, ?_⟩
  · rw [List.length_set]
    exact hs.capacity
  · rw [List.length_set]
    exact hs.placed.set hplaced
  · exact hsize.trans hperm.length_eq.symm
  · exact hholds.perm hperm.symm

/-- The entries of the bucket and the others. -/
theorem split {l r : List Entry} (hb : map.buckets[i]? = some (l ++ e :: r)) :
    Holds p h (e :: (l ++ r ++ Chains.others map.buckets i)) d ∧
      map.owned = owned (e :: (l ++ r ++ Chains.others map.buckets i)) ∧
      map.size = (l ++ r ++ Chains.others map.buckets i).length + 1 := by
  have hperm : map.buckets.flatten.Perm (e :: (l ++ r ++ Chains.others map.buckets i)) :=
    (Chains.flatten_perm hb).trans (List.perm_middle.append_right _)
  exact ⟨hs.holds.perm hperm, owned_perm hperm, hs.count.trans hperm.length_eq⟩

/-- A new entry at the end of its bucket. -/
theorem append (hkey : h.load e.key = some key) (hhash : e.hash = p.hashKey key)
    (hvalue : h.load e.value = some value) (hnew : d key = none)
    (hb : map.buckets[p.calculateIndex map.buckets.length e.hash]? = some b) :
    Stored p h ⟨map.buckets.set (p.calculateIndex map.buckets.length e.hash) (b ++ [e]), map.size + 1⟩
        (d.insert key value) ∧
      owned (map.buckets.set (p.calculateIndex map.buckets.length e.hash) (b ++ [e])).flatten =
        e.key ::ₘ e.value ::ₘ map.owned := by
  have hperm : (b ++ [e] ++ Chains.others map.buckets (p.calculateIndex map.buckets.length e.hash)).Perm
      (e :: map.buckets.flatten) := by
    rw [List.append_assoc, List.singleton_append]
    exact List.perm_middle.trans ((Chains.flatten_perm hb).symm.cons e)
  constructor
  · apply hs.set hb
    · exact List.forall_mem_append.mpr ⟨hs.placed _ _ hb, by simp⟩
    · exact (hs.holds.cons hkey hhash hvalue hnew).perm hperm.symm
    · rw [hperm.length_eq, hs.count]
      rfl
  · rw [owned_perm ((Chains.set_flatten_perm hb _).trans hperm), owned_cons]
    rfl

/-- An entry gets another value. -/
theorem replace {l r : List Entry} {a : ℕ}
    (hb : map.buckets[i]? = some (l ++ e :: r)) (hkey : h.load e.key = some key)
    (hvalue : h.load a = some value) :
    Stored p h { map with buckets := map.buckets.set i (l ++ { e with value := a } :: r) }
        (d.insert key value) ∧
      e.value ::ₘ owned (map.buckets.set i (l ++ { e with value := a } :: r)).flatten =
        a ::ₘ map.owned := by
  obtain ⟨hholds, howned, hsize⟩ := hs.split hb
  obtain ⟨key', hkey', hhash⟩ := hholds.hashed e List.mem_cons_self
  rw [hkey, Option.some.injEq] at hkey'
  subst hkey'
  have hperm : (l ++ { e with value := a } :: r ++ Chains.others map.buckets i).Perm
      ({ e with value := a } :: (l ++ r ++ Chains.others map.buckets i)) :=
    List.perm_middle.append_right _
  constructor
  · apply hs.set hb
    · intro x hx
      rcases List.mem_cons.mp (List.perm_middle.mem_iff.mp hx) with rfl | hmem
      · exact hs.placed i _ hb e (by simp)
      · apply hs.placed i _ hb
        rcases List.mem_append.mp hmem with hmem | hmem <;> simp [hmem]
    · have hcons := (hholds.tail hkey).cons (e := { e with value := a }) hkey hhash hvalue
        (Function.update_self ..)
      rw [Dict.insert, Dict.erase, Function.update_idem] at hcons
      exact hcons.perm hperm.symm
    · rw [hperm.length_eq, hsize]
      rfl
  · rw [howned, owned_perm ((Chains.set_flatten_perm hb _).trans hperm), owned_cons, owned_cons,
      Multiset.cons_swap e.value, Multiset.cons_swap a, Multiset.cons_swap e.value a]

theorem expandIfNecessary :
    Stored p h (p.expandIfNecessary map) d ∧ (p.expandIfNecessary map).owned = map.owned := by
  rw [Platform.expandIfNecessary]
  split
  · have hpos : 0 < map.buckets.length <<< 1 := by
      rw [Nat.shiftLeft_eq]
      exact Nat.mul_pos hs.capacity (by decide)
    obtain ⟨hplaced, hperm⟩ := @Chains.spread_spec Entry
      (fun e => p.calculateIndex (map.buckets.length <<< 1) e.hash)
      (List.replicate (map.buckets.length <<< 1) []) map.buckets.flatten
      (fun e _ => by
        rw [List.length_replicate]
        exact calculateIndex_lt p hpos e.hash)
      (Chains.placed_replicate _)
    rw [List.flatten_replicate_nil, List.append_nil] at hperm
    refine ⟨⟨?_, ?_, ?_, ?_⟩, owned_perm hperm⟩
    · rw [Chains.spread_length, List.length_replicate]
      exact hpos
    · rw [Chains.spread_length, List.length_replicate]
      exact hplaced
    · exact hs.count.trans hperm.length_eq.symm
    · exact hs.holds.perm hperm.symm
  · exact ⟨hs, rfl⟩

end Stored

section Operations

variable {map : Hashmap}

/-- An empty table. -/
theorem stored_create (p : Platform) (h : Heap Str) : Stored p h (hashmapCreate 5) Dict.empty where
  capacity := by decide
  placed := Chains.placed_replicate _
  count := by decide
  holds := Holds.nil

/-- Putting a key that is new adds an entry; otherwise its value is replaced, and its old value
and the pointer to the key are not in the table. -/
theorem hashmapPut_spec (hs : Stored p h map d) {a b : ℕ} (ha : h.load a = some key)
    (hb : h.load b = some value) :
    (d key = none ∧ ∃ map', p.hashmapPut h map a b = some (none, map') ∧
      Stored p h map' (d.insert key value) ∧ map'.owned = a ::ₘ b ::ₘ map.owned) ∨
    ((d key).isSome ∧ ∃ old map', p.hashmapPut h map a b = some (some old, map') ∧
      Stored p h map' (d.insert key value) ∧ old ::ₘ map'.owned = b ::ₘ map.owned) := by
  obtain ⟨chain, hchain⟩ := hs.bucket key
  rcases putChain_spec (hs.hashed hchain) ha b with ⟨hnone, hput⟩ | ⟨l, e, r, rfl, hkey, hput⟩
  · left
    have hnew := hs.none_of_bucket hchain hnone
    obtain ⟨hstored, howned⟩ := hs.append (e := ⟨a, p.hashKey key, b⟩) ha rfl hb hnew hchain
    obtain ⟨hstored, hexpand⟩ := hstored.expandIfNecessary
    refine ⟨hnew, _, ?_, hstored, hexpand.trans howned⟩
    simp only [Platform.hashmapPut, ha, hchain, hput, Option.bind_eq_bind, Option.bind_some]
    rfl
  · right
    obtain ⟨hstored, howned⟩ := hs.replace hchain hkey hb
    refine ⟨?_, e.value, _, ?_, hstored, howned⟩
    · have hmem : e ∈ map.buckets.flatten := (Chains.flatten_perm hchain).mem_iff.mpr (by simp)
      rw [Option.isSome_iff_ne_none]
      exact fun hnone => hs.holds.none_iff.mp hnone e hmem hkey
    · simp only [Platform.hashmapPut, ha, hchain, hput, Option.bind_eq_bind, Option.bind_some]
      rfl

theorem hashmapGet_spec (hs : Stored p h map d) (key : Str) :
    (d key = none ∧ p.hashmapGet h map key = some none) ∨
    ∃ value b, d key = some value ∧ p.hashmapGet h map key = some (some b) ∧ h.load b = some value := by
  obtain ⟨chain, hchain⟩ := hs.bucket key
  rcases getChain_spec (hs.hashed hchain) key with ⟨hnone, hget⟩ | ⟨e, he, hkey, hget⟩
  · left
    refine ⟨hs.none_of_bucket hchain hnone, ?_⟩
    simp only [Platform.hashmapGet, hchain, hget, Option.bind_eq_bind, Option.bind_some]
  · right
    have hmem := (Chains.flatten_perm hchain).mem_iff.mpr (List.mem_append_left _ he)
    obtain ⟨value, hvalue⟩ := hs.holds.valued e hmem
    refine ⟨value, e.value, (hs.holds.lookup key value).mpr ⟨e, hmem, hkey, hvalue⟩, ?_, hvalue⟩
    simp only [Platform.hashmapGet, hchain, hget, Option.bind_eq_bind, Option.bind_some]

/-- Removing an entry by its own key leaves the others. -/
theorem hashmapRemove_spec (hs : Stored p h map d) {i : ℕ} {l r : List Entry}
    (hb : map.buckets[i]? = some (l ++ e :: r)) (hkey : h.load e.key = some key) :
    p.hashmapRemove h map e.key = some ⟨map.buckets.set i (l ++ r), map.size - 1⟩ ∧
      Stored p h ⟨map.buckets.set i (l ++ r), map.size - 1⟩ (d.erase key) ∧
      map.owned = e.key ::ₘ e.value ::ₘ (⟨map.buckets.set i (l ++ r), map.size - 1⟩ : Hashmap).owned := by
  obtain ⟨hholds, howned, hsize⟩ := hs.split hb
  obtain ⟨key', hkey', hhash⟩ := hholds.hashed e List.mem_cons_self
  rw [hkey, Option.some.injEq] at hkey'
  subst hkey'
  have hindex : p.calculateIndex map.buckets.length (p.hashKey key) = i := by
    rw [← hhash]
    exact hs.placed i _ hb e (by simp)
  have hother : ∀ x ∈ l, h.load x.key ≠ some key := by
    intro x hx hxk
    have hnodup := hholds.nodup
    rw [List.map_cons, List.nodup_cons, hkey] at hnodup
    exact hnodup.1 (List.mem_map.mpr ⟨x, by simp [hx], hxk⟩)
  have hremove := removeChain_spec (r := r)
    (fun x hx => hs.hashed hb x (List.mem_append_left _ hx)) hother hkey
  refine ⟨?_, ?_, ?_⟩
  · simp only [Platform.hashmapRemove, hkey, hindex, hb, hremove, Option.bind_eq_bind, Option.bind_some]
    rfl
  · apply hs.set hb
    · intro x hx
      apply hs.placed i _ hb
      rcases List.mem_append.mp hx with hx | hx <;> simp [hx]
    · exact hholds.tail hkey
    · omega
  · rw [howned, owned_cons, Hashmap.owned, owned_perm (Chains.set_flatten_perm hb _)]

end Operations

/-! ## Visiting the entries -/

section ForEach

variable {σ : Type} {buckets : σ → List (List Entry)} {callback : Entry → σ → Option (Bool × σ)}
  {I : ℕ → List Entry → List Entry → σ → Prop} {Q : σ → Prop}

/-- `I i l r` holds when the entries `l` of bucket `i` were visited and the entries `r` were not. -/
theorem visitChain_rule {i : ℕ} {l r : List Entry} {s : σ}
    (hstep : ∀ l e r s, I i l (e :: r) s → e ∈ (buckets s).flatten ∧ ∃ c s', callback e s = some (c, s') ∧
      if c then I i (l ++ [e]) r s' else Q s') (h : I i l r s) :
    ∃ c s', visitChain buckets callback r s = some (c, s') ∧ if c then ∃ l, I i l [] s' else Q s' := by
  induction r generalizing l s with
  | nil => exact ⟨true, s, rfl, l, h⟩
  | cons e r ih =>
    obtain ⟨hmem, c, s', hcall, hnext⟩ := hstep l e r s h
    rw [visitChain, if_pos hmem, hcall]
    cases c with
    | true => exact ih hnext
    | false => exact ⟨false, s', rfl, hnext⟩

/-- The rule of `hashmapForEach`: what a callback keeps from entry to entry holds after the last
one, unless the callback stops the loop before. -/
theorem hashmapForEach_rule {n : ℕ} {s : σ} (hpos : 0 < n)
    (hlength : ∀ i l r s, I i l r s → (buckets s).length = n)
    (hstep : ∀ i l e r s, I i l (e :: r) s → e ∈ (buckets s).flatten ∧ ∃ c s', callback e s = some (c, s') ∧
      if c then I i (l ++ [e]) r s' else Q s')
    (hnext : ∀ i l s b, I i l [] s → (buckets s)[i + 1]? = some b → I (i + 1) [] b s)
    (hend : ∀ i l s, I i l [] s → i + 1 = n → Q s)
    (hstart : ∀ b, (buckets s)[0]? = some b → I 0 [] b s) (hn : (buckets s).length = n) :
    ∃ s', hashmapForEach buckets callback s = some s' ∧ Q s' := by
  have hloop : ∀ k i b s, i + 1 + k = n → I i [] b s → (buckets s)[i]? = some b →
      ∃ s', visitBuckets buckets callback (i :: List.range' (i + 1) k) s = some s' ∧ Q s' := by
    intro k
    induction k with
    | zero =>
      intro i b s hk h hb
      obtain ⟨c, s', hvisit, hafter⟩ := visitChain_rule (hstep i) h
      rw [visitBuckets, hb, Option.bind_some, hvisit]
      cases c with
      | true =>
        obtain ⟨l, hl⟩ := hafter
        exact ⟨s', rfl, hend i l s' hl (by omega)⟩
      | false => exact ⟨s', rfl, hafter⟩
    | succ k ih =>
      intro i b s hk h hb
      obtain ⟨c, s', hvisit, hafter⟩ := visitChain_rule (hstep i) h
      rw [visitBuckets, hb, Option.bind_some, hvisit]
      cases c with
      | true =>
        obtain ⟨l, hl⟩ := hafter
        have hlt : i + 1 < (buckets s').length := by
          rw [hlength i l [] s' hl]
          omega
        have hb' := List.getElem?_eq_getElem hlt
        exact ih (i + 1) _ s' (by omega) (hnext i l s' _ hl hb') hb'
      | false => exact ⟨s', rfl, hafter⟩
  have hb := List.getElem?_eq_getElem (l := buckets s) (i := 0) (by omega)
  obtain ⟨k, rfl⟩ : ∃ k, n = 0 + 1 + k := ⟨n - 1, by omega⟩
  have hrange : List.range (buckets s).length = 0 :: List.range' (0 + 1) k := by
    rw [hn, List.range_eq_range', Nat.zero_add, Nat.add_comm, List.range'_succ]
  rw [hashmapForEach, hrange]
  exact hloop k 0 _ s rfl (hstart _ hb) hb

end ForEach

end AudioFlinger.StrParms
