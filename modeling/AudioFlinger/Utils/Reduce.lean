import AudioFlinger.Foundation.Machine
import AudioFlinger.Utils.LinearTransform
import Mathlib.RingTheory.Coprime.Lemmas

/-!
# Fractions in lowest terms

`LinearTransform::reduce`: the loop of Euclid on unsigned words, and around it
the sign of a numerator, which is taken off and put back in the same word.
-/

namespace AudioFlinger.Utils

open Foundation
open Mixer (I32)

/-- How `reduce` can fail: its `assert`, a division by zero, or a loop that has not ended. -/
inductive ReduceFault
  | assertion
  | divisionByZero
  | late
  deriving DecidableEq, Repr

namespace LinearTransform

variable {w : ℕ}

/-- A round of the loop, on the greater `a` and the lesser `b`. -/
def reduceRound (s : BitVec w × BitVec w) :
    Except ReduceFault ((BitVec w × BitVec w) ⊕ BitVec w) :=
  let (a, b) := s
  if b = 0#w then .error .divisionByZero
  else
    let remainder := a % b
    if remainder = 0#w then .ok (.inr b) else .ok (.inl (b, remainder))

/-- `reduce<T>`: the numerator and the denominator that are left. -/
def reduceT (fuel : ℕ) (N D : BitVec w) : Except ReduceFault (BitVec w × BitVec w) :=
  if D = 0#w then .error .assertion
  else if N = 0#w then .ok (N, 1#w)
  else
    let s := if N < D then (D, N) else (N, D)
    (Rounds.loop reduceRound .late fuel s).map fun b => (N / b, D / b)

/-- `reduce(int32_t*, uint32_t*)`; the template takes the word of the numerator as unsigned. -/
def reduce (fuel : ℕ) (N : I32) (D : U32) : Except ReduceFault (I32 × U32) :=
  if D = 0#32 then .ok (N, D)
  else if N.slt 0#32 then (reduceT fuel (-N) D).map fun r => (-r.1, r.2)
  else reduceT fuel N D

/-! ## What is to hold -/

/-- The second fraction is the first one in lowest terms. -/
structure LowestTerms (n d n' d' : ℤ) : Prop where
  value : n' * d = n * d'
  sign : n'.sign = n.sign
  positive : 0 < d'
  coprime : IsCoprime n' d'

/-! ## The loop -/

/-- The lesser number becomes less in each round, and the greatest common divisor stays. -/
theorem reduceLoop_gcd {a b : BitVec w} (hb : b ≠ 0#w) {fuel : ℕ} (hfuel : b.toNat < fuel) :
    Rounds.loop reduceRound .late fuel (a, b) = .ok (BitVec.ofNat w (a.toNat.gcd b.toNat)) := by
  have hround : ∀ s : BitVec w × BitVec w,
      s.2 ≠ 0#w ∧ s.1.toNat.gcd s.2.toNat = a.toNat.gcd b.toNat → True →
        (∃ s', reduceRound s = .ok (.inl s') ∧
          (s'.2 ≠ 0#w ∧ s'.1.toNat.gcd s'.2.toNat = a.toNat.gcd b.toNat) ∧
          s'.2.toNat < s.2.toNat) ∨
        ∃ g, reduceRound s = .ok (.inr g) ∧ g = BitVec.ofNat w (a.toNat.gcd b.toNat) := by
    rintro ⟨x, y⟩ ⟨hy, hgcd⟩ -
    have hpos : 0 < y.toNat := Nat.pos_of_ne_zero fun hzero => hy (BitVec.eq_of_toNat_eq hzero)
    have hrem : (x % y).toNat = x.toNat % y.toNat := BitVec.toNat_umod
    rw [← hgcd, Nat.gcd_comm, Nat.gcd_rec]
    by_cases hzero : x % y = 0#w
    · refine .inr ⟨y, by simp [reduceRound, hy, hzero], ?_⟩
      rw [hzero, BitVec.toNat_zero] at hrem
      rw [← hrem, Nat.gcd_zero_left, BitVec.ofNat_toNat, BitVec.setWidth_eq]
    · refine .inl ⟨(y, x % y), by simp [reduceRound, hy, hzero], ⟨hzero, ?_⟩, ?_⟩
      · rw [hrem, Nat.gcd_comm]
      · rw [hrem]
        exact Nat.mod_lt _ hpos
  obtain ⟨g, hg, rfl⟩ := Rounds.loop_ok (fun s : BitVec w × BitVec w => s.2.toNat) hround
    (s := (a, b)) ⟨hb, rfl⟩ (fun _ _ => trivial) hfuel
  exact hg

/-- Both numbers are divided by their greatest common divisor. -/
theorem lowestTerms_gcd (n : ℕ) {d : ℕ} (hd : 0 < d) :
    LowestTerms n d ((n / n.gcd d : ℕ) : ℤ) ((d / n.gcd d : ℕ) : ℤ) := by
  have hgcd : 0 < n.gcd d := Nat.gcd_pos_of_pos_right n hd
  obtain ⟨n', hn⟩ := Nat.gcd_dvd_left n d
  obtain ⟨d', hd'⟩ := Nat.gcd_dvd_right n d
  have hnquot : n / n.gcd d = n' := Nat.div_eq_of_eq_mul_right hgcd hn
  have hdquot : d / n.gcd d = d' := Nat.div_eq_of_eq_mul_right hgcd hd'
  have hdpos : 0 < d' := by
    rw [← hdquot]
    exact Nat.div_pos (Nat.gcd_le_right n hd) hgcd
  have hcoprime : Nat.Coprime n' d' := by
    rw [← hnquot, ← hdquot]
    exact Nat.coprime_div_gcd_div_gcd hgcd
  rw [hnquot, hdquot]
  refine ⟨?_, ?_, by exact_mod_cast hdpos, Nat.isCoprime_iff_coprime.mpr hcoprime⟩
  · rw [← Nat.cast_mul, ← Nat.cast_mul]
    congr 1
    calc n' * d = n' * (n.gcd d * d') := by rw [← hd']
      _ = n.gcd d * n' * d' := by ring
      _ = n * d' := by rw [← hn]
  · rcases Nat.eq_zero_or_pos n with rfl | hpos
    · have hzero : n' = 0 := by rw [← hnquot, Nat.zero_div]
      rw [hzero]
    · have hpos' : 0 < n' := by
        rw [← hnquot]
        exact Nat.div_pos (Nat.gcd_le_left d hpos) hgcd
      rw [Int.sign_eq_one_of_pos (by exact_mod_cast hpos'),
        Int.sign_eq_one_of_pos (by exact_mod_cast hpos)]

/-- The words that are left when both numbers are divided by their greatest common divisor. -/
def lowest (N D : BitVec w) : BitVec w × BitVec w :=
  (BitVec.ofNat w (N.toNat / N.toNat.gcd D.toNat), BitVec.ofNat w (D.toNat / N.toNat.gcd D.toNat))

theorem toNat_quotient (x : BitVec w) (g : ℕ) : (BitVec.ofNat w (x.toNat / g)).toNat = x.toNat / g := by
  rw [BitVec.toNat_ofNat, Nat.mod_eq_of_lt]
  exact (Nat.div_le_self x.toNat g).trans_lt x.isLt

theorem reduceT_eq (N : BitVec w) {D : BitVec w} (hD : D ≠ 0#w) {fuel : ℕ} (hfuel : 2 ^ w ≤ fuel) :
    reduceT fuel N D = .ok (lowest N D) := by
  have hDpos : 0 < D.toNat := Nat.pos_of_ne_zero fun hzero => hD (BitVec.eq_of_toNat_eq hzero)
  have hgcd : (BitVec.ofNat w (N.toNat.gcd D.toNat)).toNat = N.toNat.gcd D.toNat := by
    rw [BitVec.toNat_ofNat, Nat.mod_eq_of_lt]
    exact (Nat.gcd_le_right _ hDpos).trans_lt D.isLt
  unfold reduceT
  rw [if_neg hD]
  by_cases hN : N = 0#w
  · subst hN
    rw [if_pos rfl, lowest, BitVec.toNat_zero, Nat.gcd_zero_left, Nat.zero_div, Nat.div_self hDpos]
  · have hloop : Rounds.loop reduceRound .late fuel (if N < D then (D, N) else (N, D)) =
        .ok (BitVec.ofNat w (N.toNat.gcd D.toNat)) := by
      split_ifs
      · rw [reduceLoop_gcd hN (N.isLt.trans_le hfuel), Nat.gcd_comm]
      · exact reduceLoop_gcd hD (D.isLt.trans_le hfuel)
    have hquot (x : BitVec w) : x / BitVec.ofNat w (N.toNat.gcd D.toNat) =
        BitVec.ofNat w (x.toNat / N.toNat.gcd D.toNat) := by
      apply BitVec.eq_of_toNat_eq
      rw [BitVec.toNat_udiv, hgcd, toNat_quotient]
    simp only [if_neg hN, hloop, Except.map, hquot, lowest]

theorem lowest_lowestTerms (N : BitVec w) {D : BitVec w} (hD : D ≠ 0#w) :
    LowestTerms N.toNat D.toNat (lowest N D).1.toNat (lowest N D).2.toNat := by
  have hDpos : 0 < D.toNat := Nat.pos_of_ne_zero fun hzero => hD (BitVec.eq_of_toNat_eq hzero)
  rw [lowest, toNat_quotient, toNat_quotient]
  exact lowestTerms_gcd N.toNat hDpos

/-! ## The sign -/

theorem LowestTerms.neg {n d n' d' : ℤ} (h : LowestTerms n d n' d') : LowestTerms (-n) d (-n') d' where
  value := by rw [neg_mul, neg_mul, h.value]
  sign := by rw [Int.sign_neg, Int.sign_neg, h.sign]
  positive := h.positive
  coprime := h.coprime.neg_left

/-- Negating a negative numerator gives its magnitude, also of the lowest word. -/
theorem toNat_neg_of_slt {N : I32} (hN : N.slt 0#32 = true) : ((-N).toNat : ℤ) = -N.toInt := by
  rw [BitVec.slt_zero_eq_msb] at hN
  have hmsb := BitVec.toInt_eq_msb_cond N
  have hlt := N.isLt
  have hge := BitVec.msb_eq_true_iff_two_mul_ge.mp hN
  rw [hN, if_pos rfl] at hmsb
  rw [BitVec.toNat_neg, hmsb]
  omega

/-- A word that is at most `2 ^ 31` stands for the negative of its value once it is negated. -/
theorem toInt_neg_of_le {n : U32} (hn : n.toNat ≤ 2 ^ 31) : (-n).toInt = -(n.toNat : ℤ) := by
  rw [BitVec.toInt_neg, BitVec.toInt_eq_toNat_cond, Int.bmod_def]
  omega

/-- The signed wrapper, also for the numerator that has no magnitude in its word. -/
theorem reduce_signed (N : I32) {D : U32} (hD : D ≠ 0#32) : ∃ r,
    (∀ fuel, 2 ^ 32 ≤ fuel → reduce fuel N D = .ok r) ∧
      LowestTerms N.toInt D.toNat r.1.toInt r.2.toNat := by
  by_cases hN : N.slt 0#32 = true
  · refine ⟨(-(lowest (-N) D).1, (lowest (-N) D).2), fun fuel hfuel => ?_, ?_⟩
    · rw [reduce, if_neg hD, if_pos hN, reduceT_eq (-N) hD hfuel]
      rfl
    · have hmag := toNat_neg_of_slt hN
      have hle : (lowest (-N) D).1.toNat ≤ 2 ^ 31 := by
        have hquot := Nat.div_le_self (-N).toNat ((-N).toNat.gcd D.toNat)
        have hlow := BitVec.le_toInt N
        rw [lowest, toNat_quotient]
        omega
      have hneg := (lowest_lowestTerms (-N) hD).neg
      rw [hmag, neg_neg] at hneg
      rw [toInt_neg_of_le hle]
      exact hneg
  · refine ⟨lowest N D, fun fuel hfuel => ?_, ?_⟩
    · rw [reduce, if_neg hD, if_neg hN, reduceT_eq N hD hfuel]
    · rw [Bool.not_eq_true, BitVec.slt_zero_eq_msb] at hN
      have hquot := Nat.div_le_self N.toNat (N.toNat.gcd D.toNat)
      have hhalf := BitVec.msb_eq_false_iff_two_mul_lt.mp hN
      have hnum : (lowest N D).1.toInt = (lowest N D).1.toNat := by
        rw [BitVec.toInt_eq_toNat_cond, if_pos]
        rw [lowest, toNat_quotient]
        omega
      rw [hnum, BitVec.toInt_eq_toNat_of_msb hN]
      exact lowest_lowestTerms N hD

/-- Whatever the numerator and the nonzero denominator, `reduce` ends with the fraction in lowest
terms: for signed numerators and for both unsigned words. -/
theorem reduce_lowestTerms :
    (∀ (N : I32) (D : U32), D ≠ 0#32 → ∃ r, (∀ fuel, 2 ^ 32 ≤ fuel → reduce fuel N D = .ok r) ∧
      LowestTerms N.toInt D.toNat r.1.toInt r.2.toNat) ∧
    (∀ N D : U32, D ≠ 0#32 → ∃ r, (∀ fuel, 2 ^ 32 ≤ fuel → reduceT fuel N D = .ok r) ∧
      LowestTerms N.toNat D.toNat r.1.toNat r.2.toNat) ∧
    ∀ N D : BitVec 64, D ≠ 0#64 → ∃ r, (∀ fuel, 2 ^ 64 ≤ fuel → reduceT fuel N D = .ok r) ∧
      LowestTerms N.toNat D.toNat r.1.toNat r.2.toNat :=
  ⟨fun N _ hD => reduce_signed N hD,
    fun N D hD => ⟨lowest N D, fun _ hfuel => reduceT_eq N hD hfuel, lowest_lowestTerms N hD⟩,
    fun N D hD => ⟨lowest N D, fun _ hfuel => reduceT_eq N hD hfuel, lowest_lowestTerms N hD⟩⟩

/-- `INT32_MIN / 6`, and fractions of both unsigned words. -/
theorem reduce_lowestTerms_lowestNumerator :
    (∃ r, (∀ fuel, 2 ^ 32 ≤ fuel → reduce fuel 0x80000000#32 6#32 = .ok r) ∧
      LowestTerms (0x80000000#32).toInt (6#32).toNat r.1.toInt r.2.toNat) ∧
    (∃ r, (∀ fuel, 2 ^ 32 ≤ fuel → reduceT fuel 44100#32 48000#32 = .ok r) ∧
      LowestTerms (44100#32).toNat (48000#32).toNat r.1.toNat r.2.toNat) ∧
    ∃ r, (∀ fuel, 2 ^ 64 ≤ fuel → reduceT fuel 0#64 48000#64 = .ok r) ∧
      LowestTerms (0#64).toNat (48000#64).toNat r.1.toNat r.2.toNat :=
  ⟨reduce_lowestTerms.1 _ _ (by decide), reduce_lowestTerms.2.1 _ _ (by decide),
    reduce_lowestTerms.2.2 _ _ (by decide)⟩

example : reduce 40 0x80000000#32 6#32 = .ok (0xC0000000#32, 3#32) := by decide

end LinearTransform

end AudioFlinger.Utils
