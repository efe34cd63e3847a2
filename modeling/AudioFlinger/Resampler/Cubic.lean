import AudioFlinger.Mixer.Primitives
import Mathlib.Algebra.Order.Field.Rat
import Mathlib.Tactic.LinearCombination
import Mathlib.Tactic.FieldSimp

/-!
# Cubic interpolation

`AudioResamplerCubic` keeps four samples and the coefficients of the cubic through
the middle two. Every value that an expression passes through is an `int32_t`; one
that does not fit is `none`. Products with the fraction fit because the coefficients
belong to the same four samples: their bounds taken apart do not suffice.
-/

namespace AudioFlinger.Resampler

open Mixer (I16 UNITY_GAIN)

/-! ## The source -/

/-- A value of an expression in `int32_t`. -/
def int32 (v : ℤ) : Option ℤ := if -2 ^ 31 ≤ v ∧ v < 2 ^ 31 then some v else none

namespace Cubic

/-- `state` -/
structure State where
  a : ℤ
  b : ℤ
  c : ℤ
  y0 : ℤ
  y1 : ℤ
  y2 : ℤ
  y3 : ℤ
  deriving DecidableEq, Repr

def kNumInterpBits : ℕ := 14

/-- The `memset` of `init`. -/
def init : State := ⟨0, 0, 0, 0, 0, 0, 0⟩

def interp (p : State) (x : ℤ) : Option ℤ := do
  let v ← int32 (p.a * x)
  let v ← int32 ((v >>> kNumInterpBits) + p.b)
  let v ← int32 (v * x)
  let v ← int32 ((v >>> kNumInterpBits) + p.c)
  let v ← int32 (v * x)
  int32 ((v >>> kNumInterpBits) + p.y1)

/-- The coefficients for the samples as they stand. -/
def setCoefficients (p : State) : Option State := do
  let a ← int32 (p.y1 - p.y2)
  let a ← int32 (3 * a)
  let a ← int32 (a - p.y0)
  let a ← int32 (a + p.y3)
  let b ← int32 (2 * p.y2)
  let b ← int32 (b + p.y0)
  let d ← int32 (5 * p.y1)
  let d ← int32 (d + p.y3)
  let b ← int32 (b - (d >>> (1 : ℕ)))
  let c ← int32 (p.y2 - p.y0)
  some { p with a := a >>> (1 : ℕ), b, c := c >>> (1 : ℕ) }

def advance (p : State) (sample : I16) : Option State :=
  setCoefficients { p with y0 := p.y1, y1 := p.y2, y2 := p.y3, y3 := sample.toInt }

/-! ## The state -/

/-- A sample of 16 bits. -/
def IsSample (y : ℤ) : Prop := -2 ^ 15 ≤ y ∧ y < 2 ^ 15

/-- The coefficients belong to the samples. -/
structure Consistent (p : State) : Prop where
  y0 : IsSample p.y0
  y1 : IsSample p.y1
  y2 : IsSample p.y2
  y3 : IsSample p.y3
  a : p.a = (3 * (p.y1 - p.y2) - p.y0 + p.y3) / 2
  b : p.b = 2 * p.y2 + p.y0 - (5 * p.y1 + p.y3) / 2
  c : p.c = (p.y2 - p.y0) / 2

/-- The samples, the oldest first. -/
def State.taps (p : State) : List ℤ := [p.y0, p.y1, p.y2, p.y3]

theorem int32_of_fits {v : ℤ} (hlo : -2 ^ 31 ≤ v) (hhi : v < 2 ^ 31) : int32 v = some v :=
  if_pos ⟨hlo, hhi⟩

theorem isSample_toInt (sample : I16) : IsSample sample.toInt :=
  ⟨BitVec.le_toInt sample, BitVec.toInt_lt⟩

theorem consistent_init : Consistent init := by
  constructor <;> first | exact ⟨by decide, by decide⟩ | rfl

theorem setCoefficients_consistent {p : State} (h0 : IsSample p.y0) (h1 : IsSample p.y1)
    (h2 : IsSample p.y2) (h3 : IsSample p.y3) :
    ∃ p', setCoefficients p = some p' ∧ Consistent p' ∧ p'.taps = p.taps := by
  obtain ⟨h0l, h0h⟩ := h0
  obtain ⟨h1l, h1h⟩ := h1
  obtain ⟨h2l, h2h⟩ := h2
  obtain ⟨h3l, h3h⟩ := h3
  have hhalf (v : ℤ) : v >>> (1 : ℕ) = v / 2 := Int.shiftRight_eq_div_pow v 1
  simp (disch := omega) only [setCoefficients, hhalf, int32_of_fits, Option.bind_eq_bind,
    Option.bind_some]
  exact ⟨_, rfl, ⟨⟨h0l, h0h⟩, ⟨h1l, h1h⟩, ⟨h2l, h2h⟩, ⟨h3l, h3h⟩, rfl, rfl, rfl⟩, rfl⟩

theorem Consistent.advance {p : State} (h : Consistent p) (sample : I16) :
    ∃ p', advance p sample = some p' ∧ Consistent p' ∧
      p'.taps = [p.y1, p.y2, p.y3, sample.toInt] :=
  setCoefficients_consistent h.y1 h.y2 h.y3 (isSample_toInt sample)

theorem consistent_run {p : State} (h : Consistent p) (samples : List I16) :
    ∃ p', samples.foldlM Cubic.advance p = some p' ∧ Consistent p' ∧
      p'.taps = (p.taps ++ samples.map BitVec.toInt).drop samples.length := by
  induction samples generalizing p with
  | nil => exact ⟨p, rfl, h, rfl⟩
  | cons sample samples ih =>
    obtain ⟨next, hnext, hconsistent, htaps⟩ := h.advance sample
    obtain ⟨p', hrun, hp', htaps'⟩ := ih hconsistent
    refine ⟨p', ?_, hp', ?_⟩
    · rw [List.foldlM_cons, hnext]
      exact hrun
    · rw [htaps', htaps]
      rfl

/-! ## The interpolation -/

/-- The cubic at `x / 2 ^ 14`. -/
def exact (p : State) (x : ℤ) : ℚ :=
  let t := (x : ℚ) / 2 ^ kNumInterpBits
  p.y1 + p.c * t + p.b * t ^ 2 + p.a * t ^ 3

section Horner
variable {K E d v k x : ℤ}

/-- One step of the evaluation: a value that is at most `d` below `E`, in units of `1 / K`, is
shifted, added to the next coefficient and multiplied. -/
theorem horner_step (hK : 0 ≤ K) (hx : 0 ≤ x) (h : E - d ≤ K * v ∧ K * v ≤ E) :
    (E + K * 2 ^ 14 * k) * x - (d + K * 2 ^ 14) * x ≤
        K * 2 ^ 14 * (((v >>> kNumInterpBits) + k) * x) ∧
      K * 2 ^ 14 * (((v >>> kNumInterpBits) + k) * x) ≤ (E + K * 2 ^ 14 * k) * x := by
  have hshift : v >>> kNumInterpBits = v / 2 ^ 14 := Int.shiftRight_eq_div_pow v 14
  have hfloor : v - 2 ^ 14 ≤ 2 ^ 14 * (v >>> kNumInterpBits) ∧
      2 ^ 14 * (v >>> kNumInterpBits) ≤ v := by
    rw [hshift]
    omega
  generalize v >>> kNumInterpBits = w at hfloor ⊢
  have hlo := mul_le_mul_of_nonneg_left hfloor.1 hK
  have hhi := mul_le_mul_of_nonneg_left hfloor.2 hK
  constructor
  · calc (E + K * 2 ^ 14 * k) * x - (d + K * 2 ^ 14) * x
        = (E - d - K * 2 ^ 14 + K * 2 ^ 14 * k) * x := by ring
      _ ≤ (K * (2 ^ 14 * w) + K * 2 ^ 14 * k) * x :=
        mul_le_mul_of_nonneg_right (by linarith) hx
      _ = K * 2 ^ 14 * ((w + k) * x) := by ring
  · calc K * 2 ^ 14 * ((w + k) * x) = (K * (2 ^ 14 * w) + K * 2 ^ 14 * k) * x := by ring
      _ ≤ (E + K * 2 ^ 14 * k) * x := mul_le_mul_of_nonneg_right (by linarith) hx

end Horner

/-- A sample times a weight that is not negative. -/
theorem IsSample.weighted {y w : ℤ} (h : IsSample y) (hw : 0 ≤ w) :
    -(2 ^ 15 * w) ≤ w * y ∧ w * y ≤ 2 ^ 15 * w := by
  have hlo := mul_le_mul_of_nonneg_left h.1 hw
  have hhi := mul_le_mul_of_nonneg_left h.2.le hw
  constructor <;> linarith

theorem rounded {r w most : ℤ} (hr : 0 ≤ r ∧ r ≤ 1) (hw : 0 ≤ w) (hle : w ≤ most) :
    0 ≤ r * w ∧ r * w ≤ most :=
  ⟨mul_nonneg hr.1 hw, (mul_le_of_le_one_left hw hr.2).trans hle⟩

section Bounds
variable {p : State} {x : ℤ}

/-- Twice the coefficients without rounding, and what the rounding leaves. -/
theorem Consistent.doubled (h : Consistent p) :
    ∃ ra rb rc : ℤ, (0 ≤ ra ∧ ra ≤ 1) ∧ (0 ≤ rb ∧ rb ≤ 1) ∧ (0 ≤ rc ∧ rc ≤ 1) ∧
      2 * p.a = 3 * p.y1 - 3 * p.y2 - p.y0 + p.y3 - ra ∧
      2 * p.b = 4 * p.y2 + 2 * p.y0 - 5 * p.y1 - p.y3 + rb ∧
      2 * p.c = p.y2 - p.y0 - rc := by
  have ha := h.a
  have hb := h.b
  have hc := h.c
  exact ⟨(3 * (p.y1 - p.y2) - p.y0 + p.y3) % 2, (5 * p.y1 + p.y3) % 2, (p.y2 - p.y0) % 2,
    by omega, by omega, by omega, by omega, by omega, by omega⟩

theorem Consistent.first_fits (h : Consistent p) (hx : 0 ≤ x) (hlt : x < 2 ^ 14) :
    -2 ^ 31 ≤ p.a * x ∧ p.a * x < 2 ^ 31 := by
  obtain ⟨⟨h0l, h0h⟩, ⟨h1l, h1h⟩, ⟨h2l, h2h⟩, ⟨h3l, h3h⟩, ha, -, -⟩ := h
  have hlo : -131070 ≤ p.a := by omega
  have hhi : p.a ≤ 131070 := by omega
  have hmul := mul_le_mul_of_nonneg_right hlo hx
  have hmul' := mul_le_mul_of_nonneg_right hhi hx
  constructor <;> linarith

/-- The quadratic part: the samples with the weights that they have in it. -/
theorem Consistent.second_bound (h : Consistent p) (hx : 0 ≤ x) (hlt : x < 2 ^ 14) :
    |2 * ((p.a * x + 2 ^ 14 * p.b) * x)| ≤ 9 * 2 ^ 42 + 2 ^ 29 := by
  obtain ⟨ra, rb, rc, hra, hrb, -, ha, hb, -⟩ := h.doubled
  have h0 := h.y0.weighted (w := x * (2 ^ 15 - x)) (mul_nonneg hx (by linarith))
  have h1 := h.y1.weighted (w := x * (5 * 2 ^ 14 - 3 * x)) (mul_nonneg hx (by linarith))
  have h2 := h.y2.weighted (w := x * (2 ^ 16 - 3 * x)) (mul_nonneg hx (by linarith))
  have h3 := h.y3.weighted (w := x * (2 ^ 14 - x)) (mul_nonneg hx (by linarith))
  have hvalue : 2 * ((p.a * x + 2 ^ 14 * p.b) * x) =
      x * (2 ^ 15 - x) * p.y0 - x * (5 * 2 ^ 14 - 3 * x) * p.y1 + x * (2 ^ 16 - 3 * x) * p.y2 -
        x * (2 ^ 14 - x) * p.y3 - ra * x ^ 2 + 2 ^ 14 * rb * x := by
    linear_combination x ^ 2 * ha + 2 ^ 14 * x * hb
  have hpeak : 0 ≤ (2 * x - 3 * 2 ^ 13) ^ 2 := sq_nonneg _
  have hsquare := rounded hra (sq_nonneg x) (pow_le_pow_left₀ hx hlt.le 2)
  have hline := rounded hrb hx hlt.le
  rw [abs_le, hvalue]
  constructor <;> linarith

theorem Consistent.value_bound (h : Consistent p) (hx : 0 ≤ x) (hlt : x < 2 ^ 14) :
    |2 * (((p.a * x + 2 ^ 14 * p.b) * x + 2 ^ 28 * p.c) * x + 2 ^ 42 * p.y1)| ≤
      5 * 2 ^ 56 + 2 ^ 44 := by
  obtain ⟨ra, rb, rc, hra, hrb, hrc, ha, hb, hc⟩ := h.doubled
  have h0 := h.y0.weighted (w := x * (2 ^ 14 - x) ^ 2) (by positivity)
  have hmid : 0 ≤ x * (2 ^ 14 - x) := mul_nonneg hx (by linarith)
  have h1 := h.y1.weighted (w := (2 ^ 14 - x) * (2 ^ 29 + 2 ^ 15 * x - 3 * x ^ 2))
    (mul_nonneg (by linarith) (by linarith))
  have h2 := h.y2.weighted (w := x * (2 ^ 28 + x * (2 ^ 16 - 3 * x))) (mul_nonneg hx (by linarith))
  have h3 := h.y3.weighted (w := x ^ 2 * (2 ^ 14 - x)) (mul_nonneg (sq_nonneg x) (by linarith))
  have hvalue : 2 * (((p.a * x + 2 ^ 14 * p.b) * x + 2 ^ 28 * p.c) * x + 2 ^ 42 * p.y1) =
      -(x * (2 ^ 14 - x) ^ 2 * p.y0) + (2 ^ 14 - x) * (2 ^ 29 + 2 ^ 15 * x - 3 * x ^ 2) * p.y1 +
        x * (2 ^ 28 + x * (2 ^ 16 - 3 * x)) * p.y2 - x ^ 2 * (2 ^ 14 - x) * p.y3 -
        ra * x ^ 3 + 2 ^ 14 * rb * x ^ 2 - 2 ^ 28 * rc * x := by
    linear_combination x ^ 3 * ha + 2 ^ 14 * x ^ 2 * hb + 2 ^ 28 * x * hc
  have hpeak : 0 ≤ (x - 2 ^ 13) ^ 2 := sq_nonneg _
  have hcube := rounded hra (pow_nonneg hx 3) (pow_le_pow_left₀ hx hlt.le 3)
  have hsquare := rounded hrb (sq_nonneg x) (pow_le_pow_left₀ hx hlt.le 2)
  have hline := rounded hrc hx hlt.le
  rw [abs_le, hvalue]
  constructor <;> linarith

theorem Consistent.coefficients (h : Consistent p) :
    (-2 ^ 18 ≤ p.b ∧ p.b ≤ 2 ^ 18) ∧ (-2 ^ 18 ≤ p.c ∧ p.c ≤ 2 ^ 18) := by
  obtain ⟨⟨h0l, h0h⟩, ⟨h1l, h1h⟩, ⟨h2l, h2h⟩, ⟨h3l, h3h⟩, -, hb, hc⟩ := h
  omega

theorem int32_shifted {v k : ℤ} (hv : -2 ^ 31 ≤ v ∧ v < 2 ^ 31) (hk : -2 ^ 18 ≤ k ∧ k ≤ 2 ^ 18) :
    int32 ((v >>> kNumInterpBits) + k) = some ((v >>> kNumInterpBits) + k) := by
  have hshift : v >>> kNumInterpBits = v / 2 ^ 14 := Int.shiftRight_eq_div_pow v 14
  rw [hshift]
  exact int32_of_fits (by omega) (by omega)

theorem Consistent.interp (h : Consistent p) (hx : 0 ≤ x) (hlt : x < 2 ^ 14) :
    ∃ r, interp p x = some r ∧ |r| < 2 ^ 16 ∧ (x = 0 → r = p.y1) ∧
      0 ≤ exact p x - r ∧ exact p x - r < 3 := by
  obtain ⟨hb, hc⟩ := h.coefficients
  obtain ⟨hy1l, hy1h⟩ := h.y1
  have hfirst := h.first_fits hx hlt
  have hsecond := abs_le.mp (h.second_bound hx hlt)
  have hvalue := abs_le.mp (h.value_bound hx hlt)
  have hstep := horner_step (K := 1) (E := p.a * x) (d := 0) (v := p.a * x) (k := p.b)
    zero_le_one hx (by simp)
  set v := ((p.a * x) >>> kNumInterpBits + p.b) * x with hv
  have hv31 : -2 ^ 31 ≤ v ∧ v < 2 ^ 31 := ⟨by linarith, by linarith⟩
  have hstep' := horner_step (K := 2 ^ 14) (E := (p.a * x + 2 ^ 14 * p.b) * x) (d := 2 ^ 14 * x)
    (k := p.c) (v := v) (by norm_num) hx ⟨by linarith, by linarith⟩
  set w := (v >>> kNumInterpBits + p.c) * x with hw
  have hsq : x ^ 2 ≤ 2 ^ 14 * x := by nlinarith
  have hw31 : -2 ^ 31 ≤ w ∧ w < 2 ^ 31 := ⟨by nlinarith, by nlinarith⟩
  have hfloor : w - 2 ^ 14 < 2 ^ 14 * (w >>> kNumInterpBits) ∧ 2 ^ 14 * (w >>> kNumInterpBits) ≤ w := by
    rw [show w >>> kNumInterpBits = w / 2 ^ 14 from Int.shiftRight_eq_div_pow w 14]
    omega
  have hexact : exact p x * 2 ^ 42 =
      ((((p.a * x + 2 ^ 14 * p.b) * x + 2 ^ 28 * p.c) * x + 2 ^ 42 * p.y1 : ℤ) : ℚ) := by
    simp only [exact, kNumInterpBits]
    push_cast
    ring
  set e := ((p.a * x + 2 ^ 14 * p.b) * x + 2 ^ 28 * p.c) * x + 2 ^ 42 * p.y1 with he
  have hlow : 2 ^ 42 * ((w >>> kNumInterpBits) + p.y1) ≤ e := by linarith
  have hhigh : e < 2 ^ 42 * ((w >>> kNumInterpBits) + p.y1) + 3 * 2 ^ 42 := by linarith
  refine ⟨(w >>> kNumInterpBits) + p.y1, ?_, ?_, ?_, ?_, ?_⟩
  · simp only [Cubic.interp, int32_of_fits hfirst.1 hfirst.2, Option.bind_eq_bind, Option.bind_some,
      int32_shifted hfirst hb, ← hv, int32_of_fits hv31.1 hv31.2, int32_shifted hv31 hc, ← hw,
      int32_of_fits hw31.1 hw31.2]
    exact int32_shifted hw31 ⟨by linarith, by linarith⟩
  · rw [abs_lt]
    constructor <;> linarith
  · rintro rfl
    rw [show w = 0 from mul_zero _]
    exact zero_add _
  · have hlow' : (2 ^ 42 * ((w >>> kNumInterpBits) + p.y1 : ℤ) : ℚ) ≤ e := by exact_mod_cast hlow
    linarith
  · have hhigh' : (e : ℚ) < 2 ^ 42 * ((w >>> kNumInterpBits) + p.y1 : ℤ) + 3 * 2 ^ 42 := by
      exact_mod_cast hhigh
    linarith

end Bounds

/-- Whatever the samples, of which the last four are kept, no value of `advance` or `interp` leaves
`int32_t`; the interpolation is the second of the last three samples at 0, less than 3 below the exact
cubic elsewhere, and its product with a volume fits. -/
theorem interp_fits (samples : List I16) {x volume : ℤ} (hx : 0 ≤ x ∧ x < 2 ^ 14)
    (hvolume : 0 ≤ volume ∧ volume ≤ UNITY_GAIN.toNat) :
    ∃ p r, samples.foldlM advance init = some p ∧
      p.taps = ([0, 0, 0, 0] ++ samples.map BitVec.toInt).drop samples.length ∧
      interp p x = some r ∧ interp p 0 = some p.y1 ∧
      0 ≤ exact p x - r ∧ exact p x - r < 3 ∧ |r| < 2 ^ 16 ∧
      int32 (volume * r) = some (volume * r) := by
  obtain ⟨p, hp, hconsistent, htaps⟩ := consistent_run consistent_init samples
  obtain ⟨r, hr, habs, -, hlow, hhigh⟩ := hconsistent.interp hx.1 hx.2
  obtain ⟨r₀, hr₀, -, hzero, -⟩ := hconsistent.interp (x := 0) le_rfl (by norm_num)
  obtain ⟨hrl, hrh⟩ := abs_lt.mp habs
  have hunity : volume ≤ 2 ^ 12 := hvolume.2
  refine ⟨p, r, hp, htaps, hr, hzero rfl ▸ hr₀, hlow, hhigh, habs, int32_of_fits ?_ ?_⟩
  · nlinarith [hvolume.1]
  · nlinarith [hvolume.1]

theorem interp_fits_two :
    ∃ p r, [3#16, 5#16, 9#16].foldlM advance init = some p ∧ interp p 4096 = some r ∧ |r| < 2 ^ 16 := by
  obtain ⟨p, r, hp, -, hr, -, -, -, habs, -⟩ :=
    @interp_fits [3#16, 5#16, 9#16] 4096 1 (by decide) (by decide)
  exact ⟨p, r, hp, hr, habs⟩

end Cubic

end AudioFlinger.Resampler
