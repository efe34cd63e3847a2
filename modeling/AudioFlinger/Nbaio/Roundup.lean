import AudioFlinger.Foundation.Counter

/-!
# Sizes of pipes

The constructors of `MonoPipe` and `Pipe` round the size asked for up to a
power of two, so that an index is masked to a slot of the buffer.
-/

namespace AudioFlinger.Nbaio

open Foundation Counter

/-- A number of slots that an index can be masked to. -/
def IsPowerOfTwo (limit : ℕ) (m : U32) : Prop := ∃ k ≤ limit, m = BitVec.ofNat 32 (2 ^ k)

section Slots

variable {m index : U32} {limit p : ℕ}

theorem IsPowerOfTwo.bounds (hm : IsPowerOfTwo limit m) (hlimit : limit ≤ 31) :
    0 < m.toNat ∧ m.toNat ≤ 2 ^ limit := by
  obtain ⟨k, hk, rfl⟩ := hm
  have hpow : 2 ^ k ≤ 2 ^ limit := Nat.pow_le_pow_right (by decide) hk
  have hlt : 2 ^ limit < 2 ^ 32 := Nat.pow_lt_pow_right (by decide) (by omega)
  have hpos := Nat.two_pow_pos k
  rw [BitVec.toNat_ofNat, Nat.mod_eq_of_lt (by omega)]
  exact ⟨hpos, hpow⟩

/-- An index masked by `m - 1` is the cell of the count behind it. -/
theorem IsPowerOfTwo.toNat_mask (hm : IsPowerOfTwo limit m) (hlimit : limit ≤ 31)
    (h : Counts index p) : (index &&& (m - 1#32)).toNat = p % m.toNat := by
  obtain ⟨k, hk, rfl⟩ := hm
  have hlt : 2 ^ k < 2 ^ 32 := Nat.pow_lt_pow_right (by decide) (by omega)
  rw [h.mask (by omega), BitVec.toNat_ofNat, Nat.mod_eq_of_lt hlt]

end Slots

end AudioFlinger.Nbaio
