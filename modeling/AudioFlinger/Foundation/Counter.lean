import Mathlib.Data.Nat.ModEq
import Mathlib.Tactic.Ring

/-!
# Free-running counters of `w` bits

A free-running counter only ever grows and wraps modulo `2 ^ w`; it stands for
an unbounded count `n` through `BitVec.ofNat w n`. Differences of two counters
are exact while the counts they stand for are less than `2 ^ w` apart, and a
mask by a power of two is the remainder of the unbounded count.
-/

namespace AudioFlinger

/-- The 32-bit words of the target, which also hold its sizes. -/
abbrev U32 := BitVec 32

/-- `__builtin_clz`, for `v ≠ 0`. -/
def clz (v : U32) : ℕ := 31 - v.toNat.log2

namespace Foundation.Counter

variable {w : ℕ}

/-- The counter `c` stands for the unbounded count `n`. -/
def Counts (c : BitVec w) (n : ℕ) : Prop := c = BitVec.ofNat w n

theorem Counts.eq {c : BitVec w} {n : ℕ} (h : Counts c n) : c = BitVec.ofNat w n := h

theorem counts_ofNat (n : ℕ) : Counts (BitVec.ofNat w n) n := rfl

theorem counts_toNat (c : BitVec w) : Counts c c.toNat := by
  simp [Counts]

theorem Counts.toNat {c : BitVec w} {n : ℕ} (h : Counts c n) : c.toNat = n % 2 ^ w := by
  rw [h, BitVec.toNat_ofNat]

theorem Counts.add {c d : BitVec w} {n m : ℕ} (hc : Counts c n) (hd : Counts d m) :
    Counts (c + d) (n + m) := by
  rw [Counts, hc, hd, BitVec.ofNat_add]

/-- Advancing a counter by a step that is itself a machine integer. -/
theorem Counts.step {c : BitVec w} {n : ℕ} (hc : Counts c n) (k : BitVec w) :
    Counts (c + k) (n + k.toNat) :=
  hc.add (counts_toNat k)

theorem Counts.congr {c : BitVec w} {n m : ℕ} (hc : Counts c n) (h : n = m) : Counts c m :=
  h ▸ hc

/-- The difference of two counters is the difference of the counts behind them. -/
theorem Counts.sub {c d : BitVec w} {n m : ℕ} (hc : Counts c n) (hd : Counts d m) (h : m ≤ n) :
    Counts (c - d) (n - m) := by
  have hn : BitVec.ofNat w n = BitVec.ofNat w (n - m) + BitVec.ofNat w m := by
    rw [← BitVec.ofNat_add, Nat.sub_add_cancel h]
  rw [Counts, hc, hd, hn, BitVec.add_sub_cancel]

theorem Counts.toNat_sub {c d : BitVec w} {n m : ℕ} (hc : Counts c n) (hd : Counts d m)
    (h : m ≤ n) (hlt : n - m < 2 ^ w) : (c - d).toNat = n - m := by
  rw [(hc.sub hd h).toNat, Nat.mod_eq_of_lt hlt]

/-- Two counters less than a period apart agree only when their counts do. -/
theorem Counts.inj {c : BitVec w} {n m : ℕ} (hn : Counts c n) (hm : Counts c m) (h : m ≤ n)
    (hlt : n - m < 2 ^ w) : n = m := by
  have hz := hn.toNat_sub hm h hlt
  rw [BitVec.sub_self, BitVec.toNat_zero] at hz
  omega

/-- Less than a period apart, two counters compare as their counts do exactly when no multiple of
the period lies between. -/
theorem Counts.le_iff {c d : BitVec w} {n m : ℕ} (hc : Counts c n) (hd : Counts d m) (h : n ≤ m)
    (hlt : m - n < 2 ^ w) : c ≤ d ↔ n / 2 ^ w = m / 2 ^ w := by
  have hn := Nat.div_add_mod n (2 ^ w)
  have hm := Nat.div_add_mod m (2 ^ w)
  have hdiv := Nat.div_le_div_right (c := 2 ^ w) h
  rw [BitVec.le_def, hc.toNat, hd.toNat]
  constructor
  · intro hle
    refine le_antisymm hdiv (Nat.le_of_lt_succ ?_)
    by_contra hgt
    have hstep := Nat.mul_le_mul_left (2 ^ w) (not_lt.mp hgt)
    rw [Nat.mul_succ] at hstep
    omega
  · intro heq
    rw [heq] at hn
    omega

theorem Counts.lt_iff {c d : BitVec w} {n m : ℕ} (hc : Counts c n) (hd : Counts d m) (h : n < m)
    (hlt : m - n < 2 ^ w) : c < d ↔ n / 2 ^ w = m / 2 ^ w := by
  rw [← hc.le_iff hd h.le hlt]
  refine ⟨BitVec.le_of_lt, fun hle => BitVec.not_le.mp fun hge => ?_⟩
  have heq : d = c := BitVec.le_antisymm hge hle
  rw [heq] at hd
  exact h.ne' (hd.inj hc h.le hlt)

/-- A mask by `2 ^ k - 1` is the remainder by `2 ^ k`, the period being a multiple of it. -/
theorem Counts.mask {c : BitVec w} {n k : ℕ} (hc : Counts c n) (hk : k ≤ w) :
    (c &&& (BitVec.ofNat w (2 ^ k) - 1#w)).toNat = n % 2 ^ k := by
  have hpos : 1 ≤ 2 ^ k := Nat.one_le_two_pow
  have hm : BitVec.ofNat w (2 ^ k) - 1#w = BitVec.ofNat w (2 ^ k - 1) :=
    (counts_ofNat (2 ^ k)).sub (counts_ofNat 1) hpos
  have hle : 2 ^ k ≤ 2 ^ w := Nat.pow_le_pow_right (by decide) hk
  have hlt : 2 ^ k - 1 < 2 ^ w := by omega
  rw [hm, BitVec.toNat_and, hc.toNat, BitVec.toNat_ofNat, Nat.mod_eq_of_lt hlt,
    Nat.and_two_pow_sub_one_eq_mod, Nat.mod_mod_of_dvd _ (Nat.pow_dvd_pow 2 hk)]

end Foundation.Counter

end AudioFlinger
