import AudioFlinger.Unicode.Model
import Mathlib.Data.List.Lex

/-!
# Strings of 16-bit units

`strncpy16`, and the comparisons that are told the lengths. The copy passes every
unit through a `char`. A comparison that has come to the end of one string gives
the next unit of the other, and so takes a unit 0 there for the end of both.
-/

namespace AudioFlinger.Unicode

/-! ## Copying -/

/-- `strnlen16` from `ss` on. -/
def strnlenLoop (s : ℕ → U16) : ℕ → ℕ → ℕ
  | 0, _ => 0
  | maxlen + 1, ss => if s ss ≠ 0#16 then strnlenLoop s maxlen (ss + 1) + 1 else 0

def strnlen16 (s : ℕ → U16) (maxlen : ℕ) : ℕ := strnlenLoop s maxlen 0

/-- The unit that comes back from a `char`. -/
def charOf (signedChar : Bool) (u : U16) : U16 := (promote signedChar (u.setWidth 8)).setWidth 16

/-- The loop of `strncpy16` from `p` on, with `n` units left, and the unit behind it: what is
written from `q` on. -/
def strncpyLoop (signedChar : Bool) (src : ℕ → U16) : ℕ → ℕ → List U16
  | 0, _ => [0#16]
  | n + 1, p =>
    let ch : Byte := (src p).setWidth 8
    (promote signedChar ch).setWidth 16 ::
      if ch = 0#8 then [0#16] else strncpyLoop signedChar src n (p + 1)

/-- What `strncpy16` writes from `dst` on. -/
def strncpy16 (signedChar : Bool) (src : ℕ → U16) (n : ℕ) : List U16 :=
  strncpyLoop signedChar src n 0

/-- The units before the end of the string are copied as they are, and nothing is written behind
`dst[n]`. -/
structure Copies (signedChar : Bool) (src : ℕ → U16) (n : ℕ) : Prop where
  inside : (strncpy16 signedChar src n).length ≤ n + 1
  unchanged : ∀ i < strnlen16 src n, (strncpy16 signedChar src n)[i]? = some (src i)

/-- A unit that a `char` holds. -/
def FitsChar (signedChar : Bool) (u : U16) : Prop :=
  if signedChar then u < 0x80#16 ∨ 0xFF80#16 ≤ u else u < 0x100#16

theorem charOf_eq_iff (signedChar : Bool) (u : U16) :
    charOf signedChar u = u ↔ FitsChar signedChar u := by
  have hu := u.isLt
  rw [← BitVec.toNat_inj, charOf, promote, FitsChar]
  cases signedChar with
  | false =>
    simp only [Bool.false_eq_true, if_false, BitVec.toNat_setWidth, BitVec.lt_def,
      BitVec.toNat_ofNat]
    omega
  | true =>
    simp only [if_true, BitVec.toNat_setWidth, BitVec.toNat_signExtend, BitVec.msb_eq_decide,
      BitVec.lt_def, BitVec.le_def, BitVec.toNat_ofNat, decide_eq_true_eq]
    split <;> omega

theorem FitsChar.low_ne_zero {signedChar : Bool} {u : U16} (h : FitsChar signedChar u)
    (hu : u ≠ 0#16) : u.setWidth 8 ≠ 0#8 := by
  intro hlow
  rw [← charOf_eq_iff, charOf, hlow] at h
  cases signedChar <;> exact hu h.symm

/-! ## The copy -/

section Copy
variable {signedChar : Bool} {src : ℕ → U16}

theorem strncpyLoop_length (n p : ℕ) : (strncpyLoop signedChar src n p).length ≤ n + 1 := by
  induction n generalizing p with
  | zero => simp [strncpyLoop]
  | succ n ih =>
    rw [strncpyLoop, List.length_cons]
    split
    · simp
    · have := ih (p + 1)
      omega

/-- A unit whose low byte is 0 ends the copy, and what is behind it is not copied. -/
theorem strncpyLoop_unchanged_iff (n p : ℕ) :
    (∀ i < strnlenLoop src n p, (strncpyLoop signedChar src n p)[i]? = some (src (p + i))) ↔
      ∀ i < strnlenLoop src n p, FitsChar signedChar (src (p + i)) := by
  induction n generalizing p with
  | zero => simp [strnlenLoop]
  | succ n ih =>
    by_cases hend : src p = 0#16
    · simp [strnlenLoop, hend]
    have hcell (k : ℕ) : (strncpyLoop signedChar src (n + 1) p)[k + 1]? =
        (if (src p).setWidth 8 = 0#8 then [0#16] else strncpyLoop signedChar src n (p + 1))[k]? :=
      rfl
    have hfirst : (strncpyLoop signedChar src (n + 1) p)[0]? = some (charOf signedChar (src p)) :=
      rfl
    rw [strnlenLoop, if_pos hend, Nat.forall_lt_succ_left, Nat.forall_lt_succ_left, hfirst,
      Option.some_inj, Nat.add_zero, charOf_eq_iff]
    apply and_congr_right
    intro hfits
    have hnext := ih (p + 1)
    simp only [hcell, if_neg (hfits.low_ne_zero hend), ← Nat.add_assoc, Nat.add_right_comm p _ 1]
    exact hnext

theorem copies_iff (n : ℕ) :
    Copies signedChar src n ↔ ∀ i < strnlen16 src n, FitsChar signedChar (src i) := by
  have h := @strncpyLoop_unchanged_iff signedChar src n 0
  simp only [Nat.zero_add] at h
  constructor
  · intro hcopies
    exact h.mp hcopies.unchanged
  · intro hfits
    exact ⟨strncpyLoop_length n 0, h.mpr hfits⟩

end Copy

/-! ## Comparing -/

/-- `ntohs` of a little-endian host. -/
def ntohs (u : U16) : U16 := (u <<< 8) ||| (u >>> 8)

/-- The loop over both strings and what follows it, for units read as `unit1` and `unit2`: the
strings are what is left of them from the cursors on. -/
def zcmp (unit1 unit2 : U16 → ℤ) : List U16 → List U16 → ℤ
  | u :: s1, v :: s2 =>
    let d := unit1 u - unit2 v
    if d ≠ 0 then d else zcmp unit1 unit2 s1 s2
  | [], v :: _ => 0 - unit2 v
  | u :: _, [] => unit1 u - 0
  | [], [] => 0

/-- A unit as an `int`. -/
def int (u : U16) : ℤ := u.toNat

def strzcmp16 (s1 s2 : List U16) : ℤ := zcmp int int s1 s2

def strzcmp16_h_n (s1H s2N : List U16) : ℤ := zcmp int (int ∘ ntohs) s1H s2N

/-- On the strings of `S` the comparison is a total order that tells them apart, and comparing
with swapped bytes gives the same. -/
structure Orders (S : Set (List U16)) : Prop where
  neg_iff_pos : ∀ s1 ∈ S, ∀ s2 ∈ S, strzcmp16 s1 s2 < 0 ↔ 0 < strzcmp16 s2 s1
  nonpos_trans : ∀ s1 ∈ S, ∀ s2 ∈ S, ∀ s3 ∈ S,
    strzcmp16 s1 s2 ≤ 0 → strzcmp16 s2 s3 ≤ 0 → strzcmp16 s1 s3 ≤ 0
  eq_zero_iff : ∀ s1 ∈ S, ∀ s2 ∈ S, strzcmp16 s1 s2 = 0 ↔ s1 = s2
  swapped : ∀ s1 ∈ S, ∀ s2 ∈ S, strzcmp16_h_n s1 (s2.map ntohs) = strzcmp16 s1 s2

theorem ntohs_ntohs (u : U16) : ntohs (ntohs u) = u := by
  ext i hi
  have hbeyond : u.getLsbD (8 + (8 + i)) = false := BitVec.getLsbD_of_ge u _ (by omega)
  have hbit : u.getLsbD i = u[i] := BitVec.getLsbD_eq_getElem hi
  by_cases hlow : i < 8
  · simp [ntohs, hbeyond, hlow, show 8 + i < 16 by omega]
  · simp [ntohs, hbeyond, hbit, hlow, show i - 8 < 8 by omega, show 8 + (i - 8) = i by omega]

theorem strzcmp16_h_n_eq (s1 s2 : List U16) :
    strzcmp16_h_n s1 (s2.map ntohs) = strzcmp16 s1 s2 := by
  rw [strzcmp16_h_n, strzcmp16]
  induction s1 generalizing s2 with
  | nil => cases s2 <;> simp [zcmp, ntohs_ntohs]
  | cons u s1 ih => cases s2 <;> simp [zcmp, ntohs_ntohs, ih]

theorem strzcmp16_neg (s1 s2 : List U16) : -strzcmp16 s1 s2 = strzcmp16 s2 s1 := by
  rw [strzcmp16, strzcmp16]
  induction s1 generalizing s2 with
  | nil => cases s2 <;> simp [zcmp]
  | cons u s1 ih =>
    cases s2 with
    | nil => simp [zcmp]
    | cons v s2 =>
      by_cases h : int u - int v = 0
      · have h' : int v - int u = 0 := by omega
        simp [zcmp, h, h', ih]
      · have h' : int v - int u ≠ 0 := by omega
        simp [zcmp, h, h']

/-- A string that another one goes on with a unit 0. -/
def EndsAtNul (s1 s2 : List U16) : Prop := s1 ++ [0#16] <+: s2

theorem strzcmp16_of_endsAtNul {s1 s2 : List U16} (h : EndsAtNul s1 s2) : strzcmp16 s1 s2 = 0 := by
  obtain ⟨rest, rfl⟩ := h
  induction s1 with
  | nil => simp [strzcmp16, zcmp, int]
  | cons u s1 ih => simpa [strzcmp16, zcmp] using ih

/-- The units as numbers, which lists of compare by the first that differs. -/
def key (s : List U16) : List ℕ := s.map BitVec.toNat

theorem strzcmp16_neg_iff {s1 s2 : List U16} (h1 : ¬EndsAtNul s1 s2) (h2 : ¬EndsAtNul s2 s1) :
    strzcmp16 s1 s2 < 0 ↔ key s1 < key s2 := by
  induction s1 generalizing s2 with
  | nil =>
    cases s2 with
    | nil => simp [strzcmp16, zcmp, key]
    | cons v s2 =>
      have hv : 0 < v.toNat := by
        rw [Nat.pos_iff_ne_zero]
        intro hzero
        obtain rfl : v = 0#16 := BitVec.eq_of_toNat_eq hzero
        exact h1 ⟨s2, rfl⟩
      simpa [strzcmp16, zcmp, key, int] using hv
  | cons u s1 ih =>
    cases s2 with
    | nil => simp [strzcmp16, zcmp, key, int]
    | cons v s2 =>
      by_cases huv : u = v
      · subst huv
        have hnext := @ih s2 (fun h => h1 (List.prefix_cons_inj u |>.mpr h))
          (fun h => h2 (List.prefix_cons_inj u |>.mpr h))
        simpa [strzcmp16, zcmp, key] using hnext
      · have hne : u.toNat ≠ v.toNat := fun h => huv (BitVec.eq_of_toNat_eq h)
        have hd : int u - int v ≠ 0 := by
          rw [int, int]
          omega
        have hhead : strzcmp16 (u :: s1) (v :: s2) = int u - int v := by
          rw [strzcmp16, zcmp, if_pos hd]
        rw [hhead, key, key, List.map_cons, List.map_cons, List.cons_lt_cons_iff, int, int]
        omega

theorem key_injective : Function.Injective key :=
  List.map_injective_iff.mpr fun _ _ => BitVec.eq_of_toNat_eq

theorem orders_iff (S : Set (List U16)) :
    Orders S ↔ ∀ s1 ∈ S, ∀ s2 ∈ S, ¬EndsAtNul s1 s2 := by
  constructor
  · rintro h s1 hs1 s2 hs2 hnul
    obtain rfl := (h.eq_zero_iff s1 hs1 s2 hs2).mp (strzcmp16_of_endsAtNul hnul)
    have hlength := hnul.length_le
    simp at hlength
  · intro h
    have hlt : ∀ s1 ∈ S, ∀ s2 ∈ S, (strzcmp16 s1 s2 < 0 ↔ key s1 < key s2) := fun s1 hs1 s2 hs2 =>
      strzcmp16_neg_iff (h s1 hs1 s2 hs2) (h s2 hs2 s1 hs1)
    have hle : ∀ s1 ∈ S, ∀ s2 ∈ S, (strzcmp16 s1 s2 ≤ 0 ↔ key s1 ≤ key s2) := by
      intro s1 hs1 s2 hs2
      have hneg := strzcmp16_neg s1 s2
      calc strzcmp16 s1 s2 ≤ 0 ↔ ¬strzcmp16 s2 s1 < 0 := by omega
        _ ↔ ¬key s2 < key s1 := not_congr (hlt s2 hs2 s1 hs1)
        _ ↔ key s1 ≤ key s2 := not_lt
    refine ⟨?_, ?_, ?_, fun s1 _ s2 _ => strzcmp16_h_n_eq s1 s2⟩
    · intro s1 _ s2 _
      have hneg := strzcmp16_neg s1 s2
      omega
    · intro s1 hs1 s2 hs2 s3 hs3 h12 h23
      rw [hle s1 hs1 s2 hs2] at h12
      rw [hle s2 hs2 s3 hs3] at h23
      exact (hle s1 hs1 s3 hs3).mpr (h12.trans h23)
    · intro s1 hs1 s2 hs2
      have hneg := strzcmp16_neg s1 s2
      calc strzcmp16 s1 s2 = 0 ↔ strzcmp16 s1 s2 ≤ 0 ∧ strzcmp16 s2 s1 ≤ 0 := by omega
        _ ↔ key s1 ≤ key s2 ∧ key s2 ≤ key s1 := and_congr (hle s1 hs1 s2 hs2) (hle s2 hs2 s1 hs1)
        _ ↔ key s1 = key s2 := le_antisymm_iff.symm
        _ ↔ s1 = s2 := key_injective.eq_iff

/-- The copy is exact where its units fit a `char`, and the comparison is a total order that
tells strings apart where none of them ends where another one goes on with a unit 0. -/
theorem strings16_exact_iff (signedChar : Bool) (src : ℕ → U16) (n : ℕ) (S : Set (List U16)) :
    (Copies signedChar src n ↔ ∀ i < strnlen16 src n, FitsChar signedChar (src i)) ∧
      (Orders S ↔ ∀ s1 ∈ S, ∀ s2 ∈ S, ¬EndsAtNul s1 s2) :=
  ⟨copies_iff n, orders_iff S⟩

/-- The unit U+0100 is copied as the end of the string, and a string is taken for the one that
goes on with U+0000. -/
theorem strings16_inexact :
    (∀ signedChar, ¬Copies signedChar (fun i => if i = 0 then 0x0100#16 else 0#16) 1) ∧
      ¬Orders {[0x0061#16], [0x0061#16, 0#16]} := by
  refine ⟨fun signedChar h => ?_, fun h => ?_⟩
  · have hunit := h.unchanged 0 (by decide)
    revert hunit
    cases signedChar <;> decide
  · have hequal := (h.eq_zero_iff _ (.inl rfl) _ (.inr rfl)).mp (by decide)
    revert hequal
    decide

end AudioFlinger.Unicode
