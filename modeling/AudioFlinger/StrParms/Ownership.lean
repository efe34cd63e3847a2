import Mathlib.Tactic.Abel
import AudioFlinger.StrParms.Table

/-!
# Who owns the strings

The heap holds the strings of the callers and those of the table, each of them once. Every
function keeps that and does to the table what it means for the dictionary, and a run
that does not add a new key under a stale `ENOMEM` is one of a dictionary.
-/

namespace AudioFlinger.StrParms

open Foundation SharedHeap

/-- The table is a dictionary; the heap has its strings and those of `base`. -/
structure Keeps (p : Platform) (base : Multiset ℕ) (s : Store) (d : Dict) : Prop where
  stored : Stored p s.heap s.map d
  owner : Owned s.heap (base + s.map.owned)

variable {p : Platform} {base : Multiset ℕ} {s : Store} {d : Dict} {key value : Str}

/-! ## Putting -/

theorem putCopies_spec (hs : Keeps p base s d) (key value : Str) :
    ∃ added s', p.putCopies key value s = some (added, s') ∧ Keeps p base s' (d.insert key value) ∧
      Agree base s.heap s'.heap ∧ (added.isSome → d key = none) := by
  have hcopy := hs.owner.alloc key
  rcases ha : s.heap.alloc key with ⟨a, h₁⟩
  rw [ha] at hcopy
  obtain ⟨howned, hkey, hagree⟩ := hcopy
  have hcopy := howned.alloc value
  rcases hb : h₁.alloc value with ⟨b, h₂⟩
  rw [hb] at hcopy
  obtain ⟨howned, hvalue, hagree'⟩ := hcopy
  have hboth := hagree.trans (hagree'.mono (Multiset.le_cons_self _ _))
  have hbase : Agree base s.heap h₂ := hboth.mono (Multiset.le_add_right _ _)
  have hstored := hs.stored.agree (hboth.mono (Multiset.le_add_left _ _))
  rcases hashmapPut_spec hstored ((hagree' a (Multiset.mem_cons_self _ _)).trans hkey) hvalue with
    ⟨hnew, map', hput, hstored', hmap⟩ | ⟨-, old, map', hput, hstored', hmap⟩
  · refine ⟨some (a, b), ⟨h₂, map'⟩, ?_, ⟨hstored', ?_⟩, hbase, fun _ => hnew⟩
    · simp only [Platform.putCopies, ha, hb, hput, Option.bind_eq_bind, Option.bind_some]
      rfl
    · rw [hmap, Multiset.add_cons, Multiset.add_cons, Multiset.cons_swap]
      exact howned
  · -- the heap has the replaced value and the copy of the key, which the table does not own
    have hrest : b ::ₘ a ::ₘ (base + s.map.owned) = old ::ₘ a ::ₘ (base + map'.owned) := by
      rw [Multiset.cons_swap, ← Multiset.add_cons, ← hmap, Multiset.add_cons, Multiset.cons_swap]
    rw [hrest] at howned
    obtain ⟨h₃, hfree, howned, hagree₃⟩ := howned.release
    obtain ⟨h₄, hfree', howned, hagree₄⟩ := howned.release
    have hafter : Agree (base + map'.owned) h₂ h₄ :=
      (hagree₃.mono (Multiset.le_cons_self _ _)).trans hagree₄
    refine ⟨none, ⟨h₄, map'⟩, ?_, ⟨?_, howned⟩, ?_, by simp⟩
    · simp only [Platform.putCopies, ha, hb, hput, hfree, hfree', Option.bind_eq_bind, Option.bind_some]
      rfl
    · exact hstored'.agree (hafter.mono (Multiset.le_add_left _ _))
    · exact hbase.trans (hafter.mono (Multiset.le_add_right _ _))

/-- A key is added with success unless it is new and `errno` is `ENOMEM`. -/
theorem str_parms_add_str_spec (hs : Keeps p base s d) {errno : BitVec 32} (key value : Str)
    (hok : errno ≠ ENOMEM ∨ d key ≠ none) :
    ∃ s', p.str_parms_add_str errno key value s = some (0#32, s') ∧ Keeps p base s' (d.insert key value) ∧
      Agree base s.heap s'.heap := by
  obtain ⟨added, s', hput, hkeeps, hagree, hnew⟩ := putCopies_spec hs key value
  refine ⟨s', ?_, hkeeps, hagree⟩
  simp only [Platform.str_parms_add_str, hput, Option.bind_eq_bind, Option.bind_some]
  cases added with
  | none => rfl
  | some copies =>
    have herrno : errno ≠ ENOMEM := hok.resolve_right (fun hsome => hsome (hnew rfl))
    simp only [if_neg herrno]
    rfl

/-! ## A text -/

theorem addPairs_spec {fuel : ℕ} {str : Str} (hfuel : str.length ≤ fuel) (hs : Keeps p base s d) :
    ∃ s', p.addPairs fuel str s = some s' ∧ Keeps p base s' (d.insertAll (Dict.fields str)) ∧
      Agree base s.heap s'.heap := by
  induction fuel generalizing str s d with
  | zero =>
    have hnil : str = [] := List.length_eq_zero_iff.mp (Nat.le_zero.mp hfuel)
    subst hnil
    exact ⟨s, rfl, hs, .refl _ _⟩
  | succ fuel ih =>
    rw [Platform.addPairs, fields_strtok_r]
    cases htok : strtok_r str with
    | none => exact ⟨s, rfl, hs, .refl _ _⟩
    | some r =>
      obtain ⟨kvpair, rest⟩ := r
      have hrest : rest.length ≤ fuel := by
        have hlt := strtok_r_length htok
        omega
      dsimp only
      cases splitPair kvpair with
      | none => exact ih hrest hs
      | some kv =>
        obtain ⟨added, s₁, hput, hkeeps, hagree, -⟩ := putCopies_spec hs kv.1 kv.2
        obtain ⟨s', hloop, hkeeps', hagree'⟩ := ih hrest hkeeps
        refine ⟨s', ?_, hkeeps', hagree.trans hagree'⟩
        change (p.putCopies kv.1 kv.2 s).bind _ = _
        rw [hput]
        exact hloop

theorem str_parms_create_str_spec {h : Heap Str} (hown : Owned h base) (string : Str) :
    ∃ s, p.str_parms_create_str string h = some s ∧ Keeps p base s (Dict.parse string) ∧
      Agree base h s.heap := by
  obtain ⟨howned, -, hagree⟩ := hown.alloc string
  have hempty : (hashmapCreate 5).owned = 0 := rfl
  have hstart : Keeps p ((h.alloc string).1 ::ₘ base) ⟨(h.alloc string).2, hashmapCreate 5⟩ Dict.empty := by
    refine ⟨stored_create p _, ?_⟩
    rw [hempty, add_zero]
    exact howned
  obtain ⟨s, hloop, hkeeps, hagree'⟩ := @addPairs_spec _ _ _ _ _ string le_rfl hstart
  have howned' := hkeeps.owner
  rw [Multiset.cons_add] at howned'
  obtain ⟨h', hfree, howned'', hagree''⟩ := howned'.release
  refine ⟨{ s with heap := h' }, ?_, ⟨?_, howned''⟩, ?_⟩
  · simp only [Platform.str_parms_create_str, hloop, hfree, Option.bind_eq_bind, Option.bind_some]
    rfl
  · exact hkeeps.stored.agree (hagree''.mono (Multiset.le_add_left _ _))
  · exact (hagree.trans (hagree'.mono (Multiset.le_cons_self _ _))).trans
      (hagree''.mono (Multiset.le_add_right _ _))

/-! ## Lookups -/

/-- What `str_parms_get_int` makes of a value. -/
def Platform.number (p : Platform) (value : Str) : BitVec 32 × BitVec 32 :=
  (if value ≠ [] ∧ (p.strtol value).2 = [] then 0#32 else -EINVAL, BitVec.ofInt 32 (p.strtol value).1)

/-- What `str_parms_get_str` returns for a value, and leaves in an array of `len` bytes. -/
def Platform.copy (p : Platform) (value : Str) (len : BitVec 32) : BitVec 32 × Option Str :=
  (BitVec.ofNat 32 value.length, (strlcpy value (len.signExtend p.wordBits).toNat).2)

theorem number_decimal (p : Platform) (value : BitVec 32) : p.number (decimal value) = (0#32, value) := by
  rw [Platform.number, p.strtol_decimal, if_pos ⟨decimal_ne_nil value, rfl⟩, BitVec.ofInt_toInt]

theorem str_parms_get_str_spec (hs : Keeps p base s d) (key : Str) (len : BitVec 32) :
    p.str_parms_get_str key len s = some (((d key).map fun value => p.copy value len).getD (-ENOENT, none)) := by
  rcases hashmapGet_spec hs.stored key with ⟨hnone, hget⟩ | ⟨value, b, hsome, hget, hload⟩
  · rw [hnone]
    simp only [Platform.str_parms_get_str, hget, Option.bind_eq_bind, Option.bind_some]
    rfl
  · rw [hsome]
    simp only [Platform.str_parms_get_str, hget, hload, Option.bind_eq_bind, Option.bind_some]
    rfl

theorem str_parms_get_int_spec (hs : Keeps p base s d) (key : Str) :
    p.str_parms_get_int key s =
      some (((d key).map fun value => ((p.number value).1, some (p.number value).2)).getD (-ENOENT, none)) := by
  rcases hashmapGet_spec hs.stored key with ⟨hnone, hget⟩ | ⟨value, b, hsome, hget, hload⟩
  · rw [hnone]
    simp only [Platform.str_parms_get_int, hget, Option.bind_eq_bind, Option.bind_some]
    rfl
  · rw [hsome]
    simp only [Platform.str_parms_get_int, hget, hload, Option.bind_eq_bind, Option.bind_some]
    rfl

theorem present_iff {w : World} {map : Hashmap} (hs : Keeps p base ⟨w.heap, map⟩ d) (key : Str) :
    w.present p map key = true ↔ d key ≠ none := by
  rcases hashmapGet_spec hs.stored key with ⟨hnone, hget⟩ | ⟨value, b, hsome, hget, -⟩
  · rw [hnone, World.present, hget]
    simp
  · rw [hsome, World.present, hget]
    simp

/-! ## Removing -/

section Removing

variable {i : ℕ} {e : Entry} {l r : List Entry}

/-- The pair of an entry is removed and freed. -/
theorem removeEntry_spec (hs : Keeps p base s d) (hb : s.map.buckets[i]? = some (l ++ e :: r)) :
    ∃ map' h₁ h₂ key, p.hashmapRemove s.heap s.map e.key = some map' ∧ s.heap.release e.key = some h₁ ∧
      h₁.release e.value = some h₂ ∧ s.heap.load e.key = some key ∧
      map'.buckets = s.map.buckets.set i (l ++ r) ∧ Keeps p base ⟨h₂, map'⟩ (d.erase key) ∧
      Agree base s.heap h₂ := by
  obtain ⟨key, hkey, -⟩ := hs.stored.hashed hb e (by simp)
  obtain ⟨hremove, hstored, howned⟩ := hashmapRemove_spec hs.stored hb hkey
  have hheap := hs.owner
  rw [howned, Multiset.add_cons, Multiset.add_cons] at hheap
  obtain ⟨h₁, hfree, hheap, hagree⟩ := hheap.release
  obtain ⟨h₂, hfree', hheap, hagree'⟩ := hheap.release
  have hafter := (hagree.mono (Multiset.le_cons_self _ _)).trans hagree'
  exact ⟨_, h₁, h₂, key, hremove, hfree, hfree', hkey, rfl,
    ⟨hstored.agree (hafter.mono (Multiset.le_add_left _ _)), hheap⟩, hafter.mono (Multiset.le_add_right _ _)⟩

/-- Without a key the callback removes every entry it visits. -/
theorem remove_pair_all (hs : Keeps p base s d) (hb : s.map.buckets[i]? = some (e :: r)) :
    ∃ s' d', p.remove_pair none e s = some (true, s') ∧ s'.map.buckets = s.map.buckets.set i r ∧
      Keeps p base s' d' ∧ Agree base s.heap s'.heap := by
  obtain ⟨map', h₁, h₂, key, hremove, hfree, hfree', -, hbuckets, hkeeps, hagree⟩ :=
    removeEntry_spec (l := []) hs hb
  refine ⟨⟨h₂, map'⟩, _, ?_, hbuckets, hkeeps, hagree⟩
  simp only [Platform.remove_pair, hremove, hfree, hfree', Option.bind_eq_bind, Option.bind_some]
  rfl

/-- With a key it removes the entry of the key and stops there. -/
theorem remove_pair_key (hs : Keeps p base s d) (hb : s.map.buckets[i]? = some (l ++ e :: r)) (key : Str) :
    (s.heap.load e.key ≠ some key ∧ p.remove_pair (some key) e s = some (true, s)) ∨
    ∃ s', p.remove_pair (some key) e s = some (false, s') ∧ Keeps p base s' (d.erase key) ∧
      Agree base s.heap s'.heap := by
  obtain ⟨map', h₁, h₂, key', hremove, hfree, hfree', hkey, -, hkeeps, hagree⟩ := removeEntry_spec hs hb
  by_cases heq : key = key'
  · subst heq
    right
    refine ⟨⟨h₂, map'⟩, ?_, hkeeps, hagree⟩
    simp only [Platform.remove_pair, hkey, Option.map_some, decide_true, hremove, hfree, hfree',
      Option.bind_eq_bind, Option.bind_some]
    rfl
  · left
    constructor
    · rw [hkey, Ne, Option.some.injEq]
      exact Ne.symm heq
    · simp only [Platform.remove_pair, hkey, Option.map_some, decide_eq_false heq, Option.bind_eq_bind,
        Option.bind_some]
      rfl

theorem mem_flatten (hb : s.map.buckets[i]? = some (l ++ e :: r)) : e ∈ s.map.buckets.flatten :=
  (Chains.flatten_perm hb).mem_iff.mpr (by simp)

/-- All entries go. -/
theorem removeAll_spec (hs : Keeps p base s d) :
    ∃ s', hashmapForEach (fun s : Store => s.map.buckets) (p.remove_pair none) s = some s' ∧
      Keeps p base s' Dict.empty ∧ s'.map.owned = 0 ∧ Agree base s.heap s'.heap := by
  apply hashmapForEach_rule
    (I := fun i _ r s' => s'.map.buckets.length = s.map.buckets.length ∧
      s'.map.buckets[i]? = some r ∧ (∀ j < i, s'.map.buckets[j]? = some []) ∧
      (∃ d', Keeps p base s' d') ∧ Agree base s.heap s'.heap) hs.stored.capacity
  · exact fun i l r s' hI => hI.1
  · rintro i l e r s₁ ⟨hlength, hb, hbefore, ⟨d', hkeeps⟩, hagree⟩
    refine ⟨mem_flatten (l := []) hb, ?_⟩
    obtain ⟨s₂, d₂, hcall, hbuckets, hkeeps', hagree'⟩ := remove_pair_all hkeeps hb
    refine ⟨true, s₂, hcall, ?_, ?_, ?_, ⟨d₂, hkeeps'⟩, hagree.trans hagree'⟩
    · rw [hbuckets, List.length_set]
      exact hlength
    · rw [hbuckets, List.getElem?_set_self (List.getElem?_eq_some_iff.mp hb).1]
    · intro j hj
      rw [hbuckets, List.getElem?_set_ne (Nat.ne_of_gt hj)]
      exact hbefore j hj
  · rintro i l s₁ b ⟨hlength, hb, hbefore, hkeeps, hagree⟩ hnext
    refine ⟨hlength, hnext, ?_, hkeeps, hagree⟩
    intro j hj
    rcases Nat.lt_succ_iff_lt_or_eq.mp hj with hlt | rfl
    · exact hbefore j hlt
    · exact hb
  · rintro i l s₁ ⟨hlength, hb, hbefore, ⟨d', hkeeps⟩, hagree⟩ hlast
    have hnil : s₁.map.buckets.flatten = [] := by
      rw [List.flatten_eq_nil_iff]
      intro c hc
      obtain ⟨j, hj⟩ := List.getElem?_of_mem hc
      have hlt := (List.getElem?_eq_some_iff.mp hj).1
      rcases Nat.lt_succ_iff_lt_or_eq.mp (show j < i + 1 by lia) with hlt | rfl
      · rw [hbefore j hlt, Option.some.injEq] at hj
        exact hj.symm
      · rw [hb, Option.some.injEq] at hj
        exact hj.symm
    have hempty : d' = Dict.empty := by
      funext key
      rw [Dict.empty, hkeeps.stored.holds.none_iff, hnil]
      exact fun e he => by cases he
    rw [hempty] at hkeeps
    refine ⟨hkeeps, ?_, hagree⟩
    rw [Hashmap.owned, hnil, owned_nil]
  · exact fun b hb => ⟨rfl, hb, fun j hj => by lia, ⟨d, hs⟩, .refl _ _⟩
  · rfl

theorem str_parms_del_spec (hs : Keeps p base s d) (key : Option Str) :
    ∃ s', p.str_parms_del key s = some s' ∧ Keeps p base s' (key.elim Dict.empty d.erase) ∧
      Agree base s.heap s'.heap := by
  cases key with
  | none =>
    obtain ⟨s', hloop, hkeeps, -, hagree⟩ := removeAll_spec hs
    exact ⟨s', hloop, hkeeps, hagree⟩
  | some key =>
    apply hashmapForEach_rule
      (I := fun i l r s' => s' = s ∧ s.map.buckets[i]? = some (l ++ r) ∧
        ∀ e ∈ (s.map.buckets.take i).flatten ++ l, s.heap.load e.key ≠ some key) hs.stored.capacity
    · rintro i l r _ ⟨rfl, -⟩
      rfl
    · rintro i l e r _ ⟨rfl, hb, hbefore⟩
      refine ⟨mem_flatten hb, ?_⟩
      rcases remove_pair_key hs hb key with ⟨hne, hcall⟩ | ⟨s', hcall, hkeeps, hagree⟩
      · refine ⟨true, _, hcall, rfl, ?_, ?_⟩
        · rw [List.append_assoc]
          exact hb
        · rw [← List.append_assoc]
          exact List.forall_mem_append.mpr ⟨hbefore, by simpa using hne⟩
      · exact ⟨false, s', hcall, hkeeps, hagree⟩
    · rintro i l _ b ⟨rfl, hb, hbefore⟩ hnext
      refine ⟨rfl, hnext, ?_⟩
      rw [List.append_nil] at hb ⊢
      rw [Chains.flatten_take hb]
      exact hbefore
    · rintro i l s' ⟨hsame, hb, hbefore⟩ hlast
      rw [List.append_nil] at hb
      rw [← Chains.flatten_take hb, hlast, List.take_length, ← hs.stored.holds.none_iff] at hbefore
      have herase : d.erase key = d := by
        rw [Dict.erase, ← hbefore, Function.update_eq_self]
      rw [hsame, Option.elim_some, herase]
      exact ⟨hs, .refl _ _⟩
    · intro b hb
      exact ⟨rfl, hb, by simp⟩
    · rfl

theorem str_parms_destroy_spec (hs : Keeps p base s d) :
    ∃ h', p.str_parms_destroy s = some h' ∧ Owned h' base ∧ Agree base s.heap h' := by
  obtain ⟨s', hloop, hkeeps, howned, hagree⟩ := removeAll_spec hs
  refine ⟨s'.heap, ?_, ?_, hagree⟩
  · rw [Platform.str_parms_destroy, hloop]
    rfl
  · have hown := hkeeps.owner
    rw [howned, add_zero] at hown
    exact hown

end Removing

/-! ## The text of a table -/

section Text

variable {h : Heap Str} {map : Hashmap} {entries : List Entry}

/-- The strings of the entries. -/
def pairsOf (h : Heap Str) (entries : List Entry) : List (Str × Str) :=
  entries.map fun e => ((h.load e.key).getD [], (h.load e.value).getD [])

theorem Holds.lists (hholds : Holds p h entries d) : d.Lists (pairsOf h entries) := by
  have hload : ∀ e ∈ entries, h.load e.key = some ((h.load e.key).getD []) ∧
      h.load e.value = some ((h.load e.value).getD []) := by
    intro e he
    obtain ⟨key, hkey, -⟩ := hholds.hashed e he
    obtain ⟨value, hvalue⟩ := hholds.valued e he
    rw [hkey, hvalue]
    exact ⟨rfl, rfl⟩
  constructor
  · have hmap : (entries.map fun e => h.load e.key) = ((pairsOf h entries).map Prod.fst).map some := by
      rw [pairsOf, List.map_map, List.map_map]
      apply List.map_congr_left
      exact fun e he => (hload e he).1
    exact List.Nodup.of_map some (hmap ▸ hholds.nodup)
  · intro key value
    rw [hholds.lookup, pairsOf, List.mem_map]
    constructor
    · rintro ⟨e, he, hkey, hvalue⟩
      exact ⟨e, he, by rw [hkey, hvalue]; rfl⟩
    · rintro ⟨e, he, heq⟩
      rw [Prod.mk.injEq] at heq
      exact ⟨e, he, heq.1 ▸ (hload e he).1, heq.2 ▸ (hload e he).2⟩

theorem spell_append {pairs : List (Str × Str)} (hne : pairs ≠ []) (kv : Str × Str) :
    Dict.spell (pairs ++ [kv]) = Dict.spell pairs ++ semicolon :: Dict.field kv := by
  induction pairs with
  | nil => exact absurd rfl hne
  | cons x pairs ih =>
    cases pairs with
    | nil => simp [Dict.spell, List.intercalate_cons_cons]
    | cons y pairs =>
      have htail := ih (List.cons_ne_nil y pairs)
      simp only [Dict.spell, List.cons_append, List.map_cons, List.intercalate_cons_cons] at htail ⊢
      rw [htail]
      simp only [List.append_assoc]

/-- What `*old_str` is after some entries. -/
def Joined (base : Multiset ℕ) (h : Heap Str) (pairs : List (Str × Str)) (s : Heap Str × Option ℕ) : Prop :=
  Agree base h s.1 ∧
    match s.2 with
    | none => pairs = [] ∧ Owned s.1 base
    | some str => pairs ≠ [] ∧ s.1.load str = some (Dict.spell pairs) ∧ Owned s.1 (str ::ₘ base)

theorem combine_strings_spec {pairs : List (Str × Str)} {s : Heap Str × Option ℕ} {e : Entry}
    (hs : Joined base h pairs s) (hkey : e.key ∈ base) (hvalue : e.value ∈ base) (hkey' : h.load e.key = some key)
    (hvalue' : h.load e.value = some value) :
    ∃ s', combine_strings e s = some (true, s') ∧ Joined base h (pairs ++ [(key, value)]) s' := by
  obtain ⟨h₁, str⟩ := s
  obtain ⟨hagree, hstr⟩ := hs
  have hloads : h₁.load e.key = some key ∧ h₁.load e.value = some value :=
    ⟨(hagree _ hkey).trans hkey', (hagree _ hvalue).trans hvalue'⟩
  cases str with
  | none =>
    obtain ⟨rfl, hown⟩ := hstr
    have hcopy := hown.alloc (key ++ equalsSign :: value)
    rcases hnew : h₁.alloc (key ++ equalsSign :: value) with ⟨new_str, h₂⟩
    rw [hnew] at hcopy
    obtain ⟨hown', hload, hagree'⟩ := hcopy
    refine ⟨(h₂, some new_str), ?_, hagree.trans hagree', List.cons_ne_nil _ _, ?_, hown'⟩
    · simp only [combine_strings, hloads, hnew, Option.bind_eq_bind, Option.bind_some]
      rfl
    · rw [List.nil_append, Dict.spell, List.map_singleton, List.intercalate_singleton]
      exact hload
  | some str =>
    obtain ⟨hne, hload, hown⟩ := hstr
    have hcopy := hown.alloc (Dict.spell pairs ++ semicolon :: (key ++ equalsSign :: value))
    rcases hnew : h₁.alloc (Dict.spell pairs ++ semicolon :: (key ++ equalsSign :: value)) with ⟨new_str, h₂⟩
    rw [hnew] at hcopy
    obtain ⟨hown', hload', hagree'⟩ := hcopy
    rw [Multiset.cons_swap] at hown'
    obtain ⟨h₃, hfree, hown'', hagree''⟩ := hown'.release
    refine ⟨(h₃, some new_str), ?_, ?_, ?_, ?_, hown''⟩
    · simp only [combine_strings, hloads, hload, hnew, hfree, Option.bind_eq_bind, Option.bind_some]
      rfl
    · exact (hagree.trans (hagree'.mono (Multiset.le_cons_self _ _))).trans
        (hagree''.mono (Multiset.le_cons_self _ _))
    · simp
    · rw [spell_append hne]
      exact (hagree'' _ (Multiset.mem_cons_self _ _)).trans hload'

theorem str_parms_to_str_spec (hs : Keeps p base s d) :
    ∃ str h' pairs, str_parms_to_str s = some (str, h') ∧ h'.load str = some (Dict.spell pairs) ∧
      d.Lists pairs ∧ Keeps p (str ::ₘ base) ⟨h', s.map⟩ d ∧ Agree base s.heap h' := by
  have hlists := hs.stored.holds.lists
  rw [str_parms_to_str]
  split
  · next hpos =>
    have hloop : ∃ s', hashmapForEach (fun _ => s.map.buckets) combine_strings (s.heap, none) = some s' ∧
        Joined (base + s.map.owned) s.heap (pairsOf s.heap s.map.buckets.flatten) s' := by
      apply hashmapForEach_rule
        (I := fun i l r s' => s.map.buckets[i]? = some (l ++ r) ∧
          Joined (base + s.map.owned) s.heap (pairsOf s.heap ((s.map.buckets.take i).flatten ++ l)) s')
        hs.stored.capacity
      · exact fun _ _ _ _ _ => rfl
      · rintro i l e r s' ⟨hb, hjoined⟩
        have hmem := mem_flatten hb
        obtain ⟨key, hkey, -⟩ := hs.stored.holds.hashed e hmem
        obtain ⟨value, hvalue⟩ := hs.stored.holds.valued e hmem
        obtain ⟨s₁, hcall, hjoined'⟩ := combine_strings_spec hjoined
          (Multiset.mem_add.mpr (.inr (key_mem_owned hmem)))
          (Multiset.mem_add.mpr (.inr (value_mem_owned hmem))) hkey hvalue
        refine ⟨hmem, true, s₁, hcall, ?_, ?_⟩
        · rw [List.append_assoc]
          exact hb
        · rw [← List.append_assoc, pairsOf, List.map_append, List.map_singleton, hkey, hvalue]
          exact hjoined'
      · rintro i l s' b ⟨hb, hjoined⟩ hnext
        refine ⟨hnext, ?_⟩
        rw [List.append_nil] at hb ⊢
        rw [Chains.flatten_take hb]
        exact hjoined
      · rintro i l s' ⟨hb, hjoined⟩ hlast
        rw [List.append_nil] at hb
        rw [← Chains.flatten_take hb, hlast, List.take_length] at hjoined
        exact hjoined
      · intro b hb
        exact ⟨hb, .refl _ _, rfl, hs.owner⟩
      · rfl
    obtain ⟨⟨h', str⟩, hloop, hagree, hstr⟩ := hloop
    cases str with
    | none =>
      have hcount := hs.stored.count
      obtain ⟨hnil, -⟩ := hstr
      rw [pairsOf, List.map_eq_nil_iff] at hnil
      rw [hnil, List.length_nil] at hcount
      omega
    | some str =>
      obtain ⟨-, hload, hown⟩ := hstr
      refine ⟨str, h', _, ?_, hload, hlists, ⟨?_, ?_⟩, hagree.mono (Multiset.le_add_right _ _)⟩
      · rw [hloop]
        rfl
      · exact hs.stored.agree (hagree.mono (Multiset.le_add_left _ _))
      · rw [Multiset.cons_add]
        exact hown
  · next hzero =>
    have hnil : s.map.buckets.flatten = [] := by
      rw [← List.length_eq_zero_iff, ← hs.stored.count]
      omega
    rw [hnil] at hlists
    obtain ⟨hown, hload, hagree⟩ := hs.owner.alloc ([] : Str)
    refine ⟨_, _, [], rfl, hload, hlists, ⟨?_, ?_⟩, hagree.mono (Multiset.le_add_right _ _)⟩
    · exact hs.stored.agree (hagree.mono (Multiset.le_add_left _ _))
    · rw [Multiset.cons_add]
      exact hown

end Text

end AudioFlinger.StrParms
