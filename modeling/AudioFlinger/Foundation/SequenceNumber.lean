import AudioFlinger.Foundation.Counter

/-!
# Sequence numbers
-/

/-!
## Sequence numbers with a lock flag

A word of `w + 1` bits holds a free-running count of `w` bits and, in its top
bit, the flag that an update is under way. Setting the flag, adding one and
masking the flag away moves to the next number. Two unflagged words less than
a period apart are equal only when the counts are.
-/

namespace AudioFlinger.Foundation.SequenceNumber

variable {w : ℕ}

/-- The top bit. -/
def flag (w : ℕ) : BitVec (w + 1) := BitVec.ofNat (w + 1) (2 ^ w)

/-- All bits but the top one. -/
def mask (w : ℕ) : BitVec (w + 1) := BitVec.ofNat (w + 1) (2 ^ w - 1)

/-- The word of `n` completed updates with none under way. -/
def unlocked (w n : ℕ) : BitVec (w + 1) := BitVec.ofNat (w + 1) (n % 2 ^ w)

/-- The word while the update after `n` completed ones is under way. -/
def locked (w n : ℕ) : BitVec (w + 1) := unlocked w n ||| flag w

theorem toNat_unlocked (n : ℕ) : (unlocked w n).toNat = n % 2 ^ w := by
  have hlt : n % 2 ^ w < 2 ^ w := Nat.mod_lt _ (Nat.two_pow_pos w)
  rw [unlocked, BitVec.toNat_ofNat, Nat.mod_eq_of_lt (by rw [Nat.pow_succ]; omega)]

theorem toNat_flag : (flag w).toNat = 2 ^ w := by
  have hpos := Nat.two_pow_pos w
  rw [flag, BitVec.toNat_ofNat, Nat.mod_eq_of_lt (by rw [Nat.pow_succ]; omega)]

theorem toNat_mask : (mask w).toNat = 2 ^ w - 1 := by
  have hpos := Nat.two_pow_pos w
  rw [mask, BitVec.toNat_ofNat, Nat.mod_eq_of_lt (by rw [Nat.pow_succ]; omega)]

theorem toNat_locked (n : ℕ) : (locked w n).toNat = n % 2 ^ w + 2 ^ w := by
  have hlt : n % 2 ^ w < 2 ^ w := Nat.mod_lt _ (Nat.two_pow_pos w)
  rw [locked, BitVec.toNat_or, toNat_unlocked, toNat_flag, Nat.or_two_pow_eq_add_of_lt hlt]

/-- Closing an update moves to the next number. -/
theorem locked_close (n : ℕ) : (locked w n + 1#(w + 1)) &&& mask w = unlocked w (n + 1) := by
  apply BitVec.eq_of_toNat_eq
  have hone : (1#(w + 1)).toNat = 1 := by simp
  rw [BitVec.toNat_and, toNat_mask, Nat.and_two_pow_sub_one_eq_mod, BitVec.toNat_add,
    Nat.mod_mod_of_dvd _ (Nat.pow_dvd_pow 2 (Nat.le_succ w)), toNat_locked, hone,
    toNat_unlocked, Nat.add_right_comm, Nat.add_mod_right, Nat.mod_add_mod]

theorem locked_and_flag (n : ℕ) : locked w n &&& flag w ≠ 0#(w + 1) := by
  have hflag : locked w n &&& flag w = flag w := by
    rw [locked, BitVec.and_comm, BitVec.or_comm]
    ext i hi
    simp
    tauto
  rw [hflag]
  intro hzero
  have hnat := congrArg BitVec.toNat hzero
  rw [toNat_flag, BitVec.toNat_zero] at hnat
  exact (Nat.two_pow_pos w).ne' hnat

/-- Within a period the word tells the count. -/
theorem unlocked_inj {n m : ℕ} (hle : n ≤ m) (hlt : m - n < 2 ^ w)
    (h : unlocked w n = unlocked w m) : n = m := by
  have hnat := congrArg BitVec.toNat h
  rw [toNat_unlocked, toNat_unlocked] at hnat
  have hdvd : 2 ^ w ∣ m - n := (Nat.modEq_iff_dvd' hle).mp hnat
  have hzero := Nat.eq_zero_of_dvd_of_lt hdvd hlt
  omega

end AudioFlinger.Foundation.SequenceNumber

/-!
## Even and odd sequence numbers

A writer adds one to a sequence number before it changes what the number
guards and one after it. The number is even while the writer rests, odd while
it moves, and wraps. Two even numbers less than a period apart are equal only
when the counts of updates are, and less than half a period apart the sign of
their difference tells which is the later one.
-/

namespace AudioFlinger.Foundation.EvenOdd

open Counter

variable {w n m : ℕ}

/-- The number after `n` updates, with none under way. -/
def resting (w n : ℕ) : BitVec (w + 2) := BitVec.ofNat (w + 2) (2 * n)

/-- The number while the update after `n` others is under way. -/
def moving (w n : ℕ) : BitVec (w + 2) := BitVec.ofNat (w + 2) (2 * n + 1)

theorem resting_add_one (n : ℕ) : resting w n + 1#(w + 2) = moving w n := by
  rw [resting, moving, BitVec.ofNat_add]

theorem moving_add_one (n : ℕ) : moving w n + 1#(w + 2) = resting w (n + 1) := by
  rw [moving, resting, ← BitVec.ofNat_add]
  rfl

theorem toNat_and_one (c : BitVec (w + 2)) : (c &&& 1#(w + 2)).toNat = c.toNat % 2 := by
  have hone : (1#(w + 2)).toNat = 1 := by simp
  rw [BitVec.toNat_and, hone, Nat.and_one_is_mod]

theorem two_mul_mod (n : ℕ) : 2 * n % 2 ^ (w + 2) = 2 * (n % 2 ^ (w + 1)) := by
  rw [Nat.pow_succ', Nat.mul_mod_mul_left]

theorem resting_even (n : ℕ) : resting w n &&& 1#(w + 2) = 0#(w + 2) := by
  apply BitVec.eq_of_toNat_eq
  rw [toNat_and_one, resting, BitVec.toNat_ofNat, two_mul_mod, BitVec.toNat_zero]
  omega

theorem moving_odd (n : ℕ) : moving w n &&& 1#(w + 2) ≠ 0#(w + 2) := by
  intro hzero
  have hnat := congrArg BitVec.toNat hzero
  have hdvd : 2 ∣ 2 ^ (w + 2) := Dvd.intro_left _ (Nat.pow_succ ..).symm
  rw [toNat_and_one, moving, BitVec.toNat_ofNat, Nat.mod_mod_of_dvd _ hdvd, BitVec.toNat_zero] at hnat
  omega

/-- Within a period the even number tells the count. -/
theorem resting_inj (hle : n ≤ m) (hlt : m - n < 2 ^ (w + 1)) (h : resting w n = resting w m) :
    n = m := by
  have hm : Counts (resting w m) (2 * m) := counts_ofNat _
  have hn : Counts (resting w m) (2 * n) := by
    rw [← h]
    exact counts_ofNat _
  have hdouble := hm.inj hn (by omega) (by rw [Nat.pow_succ']; omega)
  omega

/-- Within half a period the sign of the difference tells the order. -/
theorem resting_sub_nonneg (hn : n ≤ m + 2 ^ w) (hm : m < n + 2 ^ w) :
    0 ≤ (resting w m - resting w n).toInt ↔ n ≤ m := by
  have hpow : 2 ^ (w + 2) = 4 * 2 ^ w := by ring
  have hsub : (resting w m - resting w n).toInt = 2 * (m : ℤ) - 2 * n := by
    rw [BitVec.toInt_sub, resting, resting, BitVec.toInt_ofNat', BitVec.toInt_ofNat',
      Int.bmod_sub_bmod, Int.sub_bmod_bmod, hpow, Int.bmod_eq_of_le]
    · push_cast
      rfl
    · omega
    · omega
  rw [hsub]
  omega

end AudioFlinger.Foundation.EvenOdd
