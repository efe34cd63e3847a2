import Mathlib.Data.Char
import Mathlib.Data.List.Lex
import Mathlib.Data.List.Nodup
import Mathlib.Data.List.TakeWhile
import AudioFlinger.Foundation.KeyedVector

/-!
# Key/value strings

`AudioParameter` in `libs/libmedia/AudioParameter.cpp`: a string of pairs `key=value` with `;` between
them. Strings are lists of characters in byte order, up to the NUL. What is printed is read back.
-/

namespace AudioFlinger.AudioPolicy

open Foundation

abbrev Text := List Char

/-- Later pairs replace the values of earlier ones. -/
def ofPairs (ps : List (Text × Text)) : KeyedVector Text Text := ps.foldl (fun v p => v.add p.1 p.2) .empty

/-- What `strtok_r` gives for the separator `;`. -/
def tokens (s : Text) : List Text := (s.splitOn ';').filter fun t => t ≠ []

/-- A pair is split at its first `=`. -/
def splitPair (t : Text) : Text × Text := (t.takeWhile (fun c => c ≠ '='), (t.dropWhile fun c => c ≠ '=').drop 1)

/-- The constructor of `AudioParameter`. -/
def parse (s : Text) : KeyedVector Text Text := ofPairs ((tokens s).map splitPair)

def printPair (p : Text × Text) : Text := p.1 ++ '=' :: p.2

def toString (v : KeyedVector Text Text) : Text := [';'].intercalate (v.items.map printPair)

variable {v : KeyedVector Text Text} {k x : Text}

theorem valueFor_foldl (ps : List (Text × Text)) (v : KeyedVector Text Text) (k : Text) :
    (ps.foldl (fun v p => v.add p.1 p.2) v).valueFor k =
      ((ps.reverse.find? fun p => p.1 = k).map Prod.snd).or (v.valueFor k) := by
  induction ps generalizing v with
  | nil => rfl
  | cons p ps ih =>
    rw [List.foldl_cons, ih, KeyedVector.valueFor_add, List.reverse_cons, List.find?_append]
    cases ps.reverse.find? fun p => p.1 = k with
    | some q => rfl
    | none =>
      by_cases hk : p.1 = k
      · simp [hk]
      · simp [hk, Ne.symm hk]

/-- The pairs of a vector build it again. -/
theorem ofPairs_items (v : KeyedVector Text Text) : ofPairs v.items = v := by
  apply KeyedVector.ext_valueFor
  intro k
  rw [ofPairs, valueFor_foldl, KeyedVector.valueFor_empty, Option.or_none]
  cases hfound : v.items.reverse.find? fun p => p.1 = k with
  | none =>
    cases hval : v.valueFor k with
    | none => rfl
    | some x =>
      have hmem : (k, x) ∈ v.items.reverse := List.mem_reverse.mpr (KeyedVector.mem_items.mpr hval)
      simpa using List.find?_eq_none.mp hfound (k, x) hmem
  | some p =>
    obtain ⟨key, x⟩ := p
    have hkey : key = k := by simpa using List.find?_some hfound
    have hmem : (key, x) ∈ v.items := List.mem_reverse.mp (List.mem_of_find?_eq_some hfound)
    subst hkey
    exact (KeyedVector.mem_items.mp hmem).symm

/-! ## Reading what was printed -/

/-- The text of a key or value holds no separator. -/
structure Clean (v : KeyedVector Text Text) : Prop where
  keys : ∀ p ∈ v.items, ';' ∉ p.1 ∧ '=' ∉ p.1
  values : ∀ p ∈ v.items, ';' ∉ p.2

theorem splitPair_printPair {p : Text × Text} (h : '=' ∉ p.1) : splitPair (printPair p) = p := by
  have hall : ∀ c ∈ p.1, decide (c ≠ '=') = true := by
    intro c hc
    simpa using ne_of_mem_of_not_mem hc h
  rw [splitPair, printPair, List.takeWhile_append_of_pos hall, List.dropWhile_append_of_pos hall]
  simp

theorem tokens_toString (h : Clean v) : tokens (toString v) = v.items.map printPair := by
  rw [tokens, toString]
  cases hitems : v.items with
  | nil => rfl
  | cons p ps =>
    have hsep : ∀ t ∈ (p :: ps).map printPair, ';' ∉ t := by
      intro t ht
      obtain ⟨q, hq, rfl⟩ := List.mem_map.mp ht
      rw [← hitems] at hq
      simp [printPair, (h.keys q hq).1, h.values q hq]
    rw [List.splitOn_intercalate ';' hsep (by simp)]
    apply List.filter_eq_self.mpr
    intro t ht
    obtain ⟨q, -, rfl⟩ := List.mem_map.mp ht
    simp [printPair]

theorem parse_toString (h : Clean v) : parse (toString v) = v := by
  have hpairs : (v.items.map printPair).map splitPair = v.items := by
    rw [List.map_map]
    refine (List.map_congr_left fun p hp => ?_).trans (List.map_id _)
    exact splitPair_printPair (h.keys p hp).2
  rw [parse, tokens_toString h, hpairs, ofPairs_items]

theorem Clean.add (h : Clean v) (hk : ';' ∉ k ∧ '=' ∉ k) (hx : ';' ∉ x) : Clean (v.add k x) where
  keys p hp := by
    rcases KeyedVector.mem_add.mp hp with rfl | ⟨hp, -⟩
    · exact hk
    · exact h.keys p hp
  values p hp := by
    rcases KeyedVector.mem_add.mp hp with rfl | ⟨hp, -⟩
    · exact hx
    · exact h.values p hp

theorem Clean.removeItem (h : Clean v) (k : Text) : Clean (v.removeItem k) where
  keys p hp := h.keys p (KeyedVector.mem_removeItem.mp hp).1
  values p hp := h.values p (KeyedVector.mem_removeItem.mp hp).1

theorem clean_ofPairs {ps : List (Text × Text)} (h : ∀ p ∈ ps, (';' ∉ p.1 ∧ '=' ∉ p.1) ∧ ';' ∉ p.2)
    (hv : Clean v) : Clean (ps.foldl (fun v p => v.add p.1 p.2) v) := by
  induction ps generalizing v with
  | nil => exact hv
  | cons p ps ih =>
    have hp := h p List.mem_cons_self
    exact ih (fun q hq => h q (List.mem_cons_of_mem _ hq)) (hv.add hp.1 hp.2)

theorem not_mem_of_mem_splitOn {s t : Text} {c : Char} (ht : t ∈ s.splitOn c) : c ∉ t := by
  induction s generalizing t with
  | nil => simp_all
  | cons x s ih =>
    rw [List.splitOn_cons_eq_if_modifyHead] at ht
    split_ifs at ht with hx
    · rcases List.mem_cons.mp ht with rfl | ht
      · simp
      · exact ih ht
    · cases hs : s.splitOn c with
      | nil => simp [hs] at ht
      | cons u us =>
        rw [hs] at ht ih
        rcases List.mem_cons.mp ht with rfl | ht
        · have hxc : c ≠ x := fun hc => hx (by simp [hc])
          simp [hxc, ih List.mem_cons_self]
        · exact ih (List.mem_cons_of_mem _ ht)

/-- Whatever the string, what is read from it can be printed. -/
theorem clean_parse (s : Text) : Clean (parse s) := by
  refine clean_ofPairs (fun p hp => ?_) ⟨nofun, nofun⟩
  obtain ⟨t, ht, rfl⟩ := List.mem_map.mp hp
  have hsep : ';' ∉ t := not_mem_of_mem_splitOn (List.mem_filter.mp ht).1
  refine ⟨⟨fun hmem => hsep (List.takeWhile_subset _ hmem), fun hmem => ?_⟩, fun hmem => ?_⟩
  · simpa using List.mem_takeWhile_imp hmem
  · exact hsep ((List.dropWhile_subset _) (List.mem_of_mem_drop hmem))

end AudioFlinger.AudioPolicy
