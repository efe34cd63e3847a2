import Mathlib.Data.List.TakeWhile
import Mathlib.Data.Nat.Digits.Lemmas
import AudioFlinger.StrParms.Model

/-!
# Dictionaries and their text

What the calls mean for a dictionary of strings, without pointers: a text is cut at its
semicolons and each piece at its first equals sign, and the text of a dictionary with plain
keys and values is cut into its pairs again.
-/

namespace AudioFlinger.StrParms

/-- The value of each key. -/
abbrev Dict := Str → Option Str

namespace Dict

def empty : Dict := fun _ => none

def insert (d : Dict) (key value : Str) : Dict := Function.update d key (some value)

def erase (d : Dict) (key : Str) : Dict := Function.update d key none

/-- The pairs of a text, in order. -/
def fields (s : Str) : List (Str × Str) := ((s.splitOn semicolon).filter (· ≠ [])).filterMap splitPair

def insertAll (d : Dict) (pairs : List (Str × Str)) : Dict := pairs.foldl (fun d kv => d.insert kv.1 kv.2) d

def parse (s : Str) : Dict := empty.insertAll (fields s)

/-- The list has each pair once. -/
def Lists (d : Dict) (pairs : List (Str × Str)) : Prop :=
  (pairs.map Prod.fst).Nodup ∧ ∀ key value, d key = some value ↔ (key, value) ∈ pairs

def field (kv : Str × Str) : Str := kv.1 ++ equalsSign :: kv.2

def spell (pairs : List (Str × Str)) : Str := [semicolon].intercalate (pairs.map field)

/-- Keys that are not empty, without equals signs and semicolons, and values without semicolons. -/
def Plain (d : Dict) : Prop := ∀ key value, d key = some value →
  key ≠ [] ∧ equalsSign ∉ key ∧ semicolon ∉ key ∧ semicolon ∉ value

variable {d : Dict} {key value : Str} {pairs : List (Str × Str)} {kv : Str × Str}

/-! ## Cutting a text -/

theorem splitPair_field (hne : kv.1 ≠ []) (hkey : equalsSign ∉ kv.1) : splitPair (field kv) = some kv := by
  have hall : ∀ c ∈ kv.1, decide (c ≠ equalsSign) = true := by
    intro c hc
    rw [decide_eq_true_eq]
    rintro rfl
    exact hkey hc
  rw [splitPair, field, List.dropWhile_append_of_pos hall, List.dropWhile_cons_of_neg (by simp),
    List.takeWhile_append_of_pos hall, List.takeWhile_cons_of_neg (by simp), List.append_nil]
  exact if_neg hne

theorem field_ne_nil : field kv ≠ [] := by
  rw [field]
  simp

/-- A list of plain pairs is cut into the same pairs. -/
theorem fields_spell (h : ∀ kv ∈ pairs, kv.1 ≠ [] ∧ equalsSign ∉ kv.1 ∧ semicolon ∉ kv.1 ∧ semicolon ∉ kv.2) :
    fields (spell pairs) = pairs := by
  by_cases hnil : pairs = []
  · subst hnil
    rfl
  have hsplit : (spell pairs).splitOn semicolon = pairs.map field := by
    apply List.splitOn_intercalate
    · intro t ht
      obtain ⟨kv, hkv, rfl⟩ := List.mem_map.mp ht
      obtain ⟨-, -, hkey, hvalue⟩ := h kv hkv
      rw [field, List.mem_append, List.mem_cons]
      rintro (hmem | heq | hmem)
      · exact hkey hmem
      · exact absurd heq (by decide)
      · exact hvalue hmem
    · simpa using hnil
  have hfilter : (pairs.map field).filter (· ≠ []) = pairs.map field := by
    rw [List.filter_eq_self]
    intro t ht
    obtain ⟨kv, -, rfl⟩ := List.mem_map.mp ht
    exact decide_eq_true field_ne_nil
  rw [fields, hsplit, hfilter, List.filterMap_map]
  have hself : ∀ kv ∈ pairs, (splitPair ∘ field) kv = some kv := by
    intro kv hkv
    obtain ⟨hne, hkey, -⟩ := h kv hkv
    exact splitPair_field hne hkey
  rw [List.filterMap_congr hself, List.filterMap_some]

/-! ## Pairs with distinct keys -/

/-- A key that is not in the list keeps its value. -/
theorem insertAll_of_not_mem (h : key ∉ pairs.map Prod.fst) : d.insertAll pairs key = d key := by
  induction pairs generalizing d with
  | nil => rfl
  | cons kv pairs ih =>
    rw [List.map_cons, List.mem_cons, not_or] at h
    rw [insertAll, List.foldl_cons]
    refine (ih h.2).trans ?_
    exact Function.update_of_ne h.1 ..

theorem insertAll_of_mem (hnodup : (pairs.map Prod.fst).Nodup) (h : (key, value) ∈ pairs) :
    d.insertAll pairs key = some value := by
  induction pairs generalizing d with
  | nil => cases h
  | cons kv pairs ih =>
    rw [List.map_cons, List.nodup_cons] at hnodup
    rw [insertAll, List.foldl_cons]
    rcases List.mem_cons.mp h with rfl | hmem
    · exact (insertAll_of_not_mem hnodup.1).trans (Function.update_self ..)
    · exact ih hnodup.2 hmem

theorem Lists.insertAll (h : d.Lists pairs) : empty.insertAll pairs = d := by
  funext key
  cases hd : d key with
  | some value => exact insertAll_of_mem h.1 ((h.2 key value).mp hd)
  | none =>
    apply insertAll_of_not_mem
    intro hmem
    obtain ⟨⟨key', value⟩, hkv, rfl⟩ := List.mem_map.mp hmem
    rw [(h.2 _ value).mpr hkv] at hd
    cases hd

/-- The text of a plain dictionary is parsed into the dictionary. -/
theorem parse_spell (hplain : d.Plain) (h : d.Lists pairs) : parse (spell pairs) = d := by
  rw [parse, fields_spell]
  · exact h.insertAll
  · intro kv hkv
    exact hplain kv.1 kv.2 ((h.2 kv.1 kv.2).mpr hkv)

end Dict

/-! ## The loop over the tokens -/

theorem strtok_r_semicolon (s : Str) : strtok_r (semicolon :: s) = strtok_r s := by
  rw [strtok_r, strtok_r, List.dropWhile_cons_of_pos (by simp)]

theorem strtok_r_of_ne {c : CChar} (hc : c ≠ semicolon) (s : Str) :
    strtok_r (c :: s) =
      some ((c :: s).takeWhile (· ≠ semicolon), ((c :: s).dropWhile (· ≠ semicolon)).tail) := by
  rw [strtok_r, List.dropWhile_cons_of_neg (by simpa using hc)]

/-- What is left of the string is shorter. -/
theorem strtok_r_length {s t rest : Str} (h : strtok_r s = some (t, rest)) : rest.length < s.length := by
  induction s with
  | nil => cases h
  | cons c s ih =>
    by_cases hc : c = semicolon
    · subst hc
      rw [strtok_r_semicolon] at h
      exact Nat.lt_succ_of_lt (ih h)
    · rw [strtok_r_of_ne hc, Option.some.injEq, Prod.mk.injEq] at h
      rw [← h.2, List.dropWhile_cons_of_pos (by simpa using hc), List.length_tail, List.length_cons]
      have hle := List.length_dropWhile_le (· ≠ semicolon) s
      omega

/-- The pieces between the semicolons, without the empty ones. -/
theorem splitOn_strtok_r (s : Str) :
    (s.splitOn semicolon).filter (· ≠ []) =
      match strtok_r s with
      | none => []
      | some (t, rest) => t :: (rest.splitOn semicolon).filter (· ≠ []) := by
  induction s with
  | nil => rfl
  | cons c s ih =>
    by_cases hc : c = semicolon
    · subst hc
      have hcut : ([] ++ semicolon :: s).splitOn semicolon = [] :: s.splitOn semicolon :=
        List.splitOn_append_cons_self_of_not_mem (by simp) s
      rw [strtok_r_semicolon, ← ih]
      rw [List.nil_append] at hcut
      rw [hcut, List.filter_cons_of_neg (by simp)]
    · rw [strtok_r_of_ne hc]
      have hpiece : semicolon ∉ (c :: s).takeWhile (· ≠ semicolon) := by
        intro hmem
        simpa using List.mem_takeWhile_imp hmem
      have hne : (c :: s).takeWhile (· ≠ semicolon) ≠ [] := by
        rw [List.takeWhile_cons_of_pos (by simpa using hc)]
        exact List.cons_ne_nil _ _
      have hall : (c :: s).takeWhile (· ≠ semicolon) ++ (c :: s).dropWhile (· ≠ semicolon) = c :: s :=
        List.takeWhile_append_dropWhile
      cases hdrop : (c :: s).dropWhile (· ≠ semicolon) with
      | nil =>
        rw [hdrop, List.append_nil] at hall
        rw [hall] at hpiece ⊢
        rw [List.splitOn_eq_singleton hpiece]
        rfl
      | cons c' rest =>
        have hc' : c' = semicolon := by
          have hhead := List.head?_dropWhile_not (· ≠ semicolon) (c :: s)
          rw [hdrop] at hhead
          simpa using hhead
        rw [hdrop, hc'] at hall
        nth_rewrite 1 [← hall]
        rw [List.splitOn_append_cons_self_of_not_mem hpiece, List.filter_cons_of_pos (by simpa using hne)]
        rfl

theorem fields_strtok_r (s : Str) :
    Dict.fields s =
      match strtok_r s with
      | none => []
      | some (t, rest) => (splitPair t).toList ++ Dict.fields rest := by
  rw [Dict.fields, splitOn_strtok_r]
  cases strtok_r s with
  | none => rfl
  | some r =>
    obtain ⟨t, rest⟩ := r
    change (t :: (rest.splitOn semicolon).filter (· ≠ [])).filterMap splitPair =
      (splitPair t).toList ++ Dict.fields rest
    rw [List.filterMap_cons]
    cases splitPair t <;> rfl

/-! ## Numbers -/

theorem digit_toNat (d : ℕ) : (digit d).1.toNat = 48 + d % 10 := by
  rw [digit, BitVec.toNat_ofNat]
  omega

theorem digitValue_digit (d : ℕ) : digitValue (digit d) = d % 10 := by
  rw [digitValue, digit_toNat, if_pos (by omega)]
  omega

theorem isspace_digit (d : ℕ) : isspace (digit d) = false := by
  have hnat := digit_toNat d
  rw [isspace, Bool.or_eq_false_iff, Bool.and_eq_false_iff]
  constructor
  · rw [decide_eq_false_iff_not]
    intro h
    rw [h, BitVec.toNat_ofNat] at hnat
    omega
  · right
    rw [decide_eq_false_iff_not, BitVec.le_def, hnat, BitVec.toNat_ofNat]
    omega

theorem digit_ne {d : ℕ} {c : CChar} (h : c.1.toNat < 48) : digit d ≠ c := by
  rintro rfl
  rw [digit_toNat] at h
  omega

theorem digit_ne_zero {d : ℕ} (hlt : d < 10) (h : d ≠ 0) : digit d ≠ zero := by
  intro heq
  have hnat := digit_toNat d
  rw [heq, Nat.mod_eq_of_lt hlt] at hnat
  have hzero : zero.1.toNat = 48 := rfl
  omega

/-- The digits of a number that is not zero, most significant first. -/
theorem decimalNat_of_ne_zero {n : ℕ} (h : n ≠ 0) :
    ∃ d ds, d ≠ 0 ∧ (∀ x ∈ d :: ds, x < 10) ∧ (d :: ds).foldl (fun acc x => acc * 10 + x) 0 = n ∧
      decimalNat n = (d :: ds).map digit := by
  have hdigits : (Nat.digits 10 n).reverse ≠ [] := by
    rw [Ne, List.reverse_eq_nil_iff]
    exact Nat.digits_ne_nil_iff_ne_zero.mpr h
  obtain ⟨d, ds, hds⟩ := List.exists_cons_of_ne_nil hdigits
  refine ⟨d, ds, ?_, ?_, ?_, ?_⟩
  · have hlast := Nat.getLast_digit_ne_zero 10 h
    rw [← List.head_reverse hdigits] at hlast
    simpa [hds] using hlast
  · intro x hx
    rw [← hds, List.mem_reverse] at hx
    exact Nat.digits_lt_base (by decide) hx
  · rw [← hds, List.foldl_reverse]
    have hfold := Nat.ofDigits_digits 10 n
    rw [Nat.ofDigits_eq_foldr] at hfold
    simpa [Nat.mul_comm, Nat.add_comm] using hfold
  · rw [decimalNat, if_neg h, hds]

theorem decimalNat_zero : decimalNat 0 = [zero] := rfl

/-- A number begins with a digit. -/
theorem decimalNat_cons (n : ℕ) : ∃ d s, decimalNat n = digit d :: s := by
  by_cases hn : n = 0
  · subst hn
    exact ⟨0, [], rfl⟩
  · obtain ⟨d, ds, -, -, -, hs⟩ := decimalNat_of_ne_zero hn
    exact ⟨d, ds.map digit, hs⟩

theorem radix_of_ne {c : CChar} (hc : c ≠ zero) (s : Str) : radix (c :: s) = (10, c :: s) := by
  match s with
  | [] => simp [radix, hc]
  | [_] => simp [radix, hc]
  | _ :: _ :: _ => simp [radix, hc]

namespace Platform

variable (p : Platform)

/-- A number without leading zeros is read as it was written. -/
theorem strtol_decimalNat {s : Str} {negative : Bool} {n : ℕ}
    (h : sign (s.dropWhile isspace) = (negative, decimalNat n)) :
    p.strtol s = (p.saturate (if negative then -n else n), []) := by
  rw [strtol, h]
  by_cases hn : n = 0
  · subst hn
    rw [decimalNat_zero]
    rfl
  · obtain ⟨d, ds, hd, hlt, hfold, hs⟩ := decimalNat_of_ne_zero hn
    have hradix : radix ((d :: ds).map digit) = (10, (d :: ds).map digit) :=
      radix_of_ne (digit_ne_zero (hlt d List.mem_cons_self) hd) _
    have htake : ((d :: ds).map digit).takeWhile (fun c => digitValue c < 10) = (d :: ds).map digit := by
      rw [List.takeWhile_eq_self_iff]
      intro c hc
      obtain ⟨x, -, rfl⟩ := List.mem_map.mp hc
      rw [decide_eq_true_eq, digitValue_digit]
      exact Nat.mod_lt _ (by decide)
    have hvalue : ((d :: ds).map digit).foldl (fun acc c => acc * 10 + digitValue c) 0 = n := by
      rw [List.foldl_map, ← hfold]
      apply List.foldl_ext
      intro acc x hx
      rw [digitValue_digit, Nat.mod_eq_of_lt (hlt x hx)]
    have hne : (d :: ds).map digit ≠ [] := List.cons_ne_nil _ _
    simp only [hs, hradix, htake, hvalue, if_neg hne, List.drop_length]

theorem saturate_toInt (value : BitVec 32) : p.saturate value.toInt = value.toInt := by
  have hpow : (2 : ℤ) ^ 31 ≤ 2 ^ (p.wordBits - 1) :=
    pow_le_pow_right₀ (by decide) (Nat.le_sub_one_of_lt p.wide)
  have hlow := BitVec.le_toInt value
  have hhigh := BitVec.toInt_lt (x := value)
  rw [saturate]
  omega

/-- What `%d` writes fits in the array, and `strtol` reads it again. -/
theorem strtol_decimal (value : BitVec 32) : p.strtol (decimal value) = (value.toInt, []) := by
  obtain ⟨d, s, hs⟩ := decimalNat_cons value.toInt.natAbs
  have hspace : (decimalNat value.toInt.natAbs).dropWhile isspace = decimalNat value.toInt.natAbs := by
    rw [hs, List.dropWhile_cons_of_neg (by rw [isspace_digit]; decide)]
  rw [← p.saturate_toInt value]
  by_cases hneg : value.toInt < 0
  · have hsign : sign ((decimal value).dropWhile isspace) = (true, decimalNat value.toInt.natAbs) := by
      rw [decimal, if_pos hneg, List.dropWhile_cons_of_neg (by decide), sign, if_pos rfl]
    rw [p.strtol_decimalNat hsign, if_pos rfl]
    congr 2
    lia
  · have hsign : sign ((decimal value).dropWhile isspace) = (false, decimalNat value.toInt.natAbs) := by
      rw [decimal, if_neg hneg, hspace, hs, sign, if_neg (digit_ne (by decide)), if_neg (digit_ne (by decide))]
    rw [p.strtol_decimalNat hsign, if_neg (by decide)]
    congr 2
    lia

end Platform

/-- `%d` of an `int` and a terminator take at most twelve bytes. -/
theorem decimal_length (value : BitVec 32) : (decimal value).length ≤ 11 := by
  have hlow := BitVec.le_toInt value
  have hhigh := BitVec.toInt_lt (x := value)
  have hten : value.toInt.natAbs < 10 ^ 10 := by omega
  have hdigits : (decimalNat value.toInt.natAbs).length ≤ 10 := by
    rw [decimalNat]
    split
    · decide
    · rw [List.length_map, List.length_reverse]
      exact (Nat.digits_length_le_iff (by decide) _).mpr hten
  rw [decimal]
  split
  · exact Nat.succ_le_succ hdigits
  · exact Nat.le_succ_of_le hdigits

theorem snprintf_decimal (value : BitVec 32) : snprintf 12 (decimal value) = decimal value :=
  List.take_of_length_le (decimal_length value)

theorem decimal_ne_nil (value : BitVec 32) : decimal value ≠ [] := by
  obtain ⟨d, s, hs⟩ := decimalNat_cons value.toInt.natAbs
  rw [decimal, hs]
  split <;> exact List.cons_ne_nil _ _

end AudioFlinger.StrParms
