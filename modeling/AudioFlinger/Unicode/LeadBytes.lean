import AudioFlinger.Unicode.Model

/-!
# The bits of a byte of a sequence

What the tests and masks of the converters make of a byte, for every byte.
-/

namespace AudioFlinger.Unicode

/-- A promoted byte keeps its eight bits below whatever the sign fills in; the bits that the
decoding loop tests in a lead byte and in a continuation byte. -/
theorem byte_bits (signedChar : Bool) (b : Byte) :
    (promote signedChar b).toNat % 256 = b.toNat ∧
    (promote signedChar b &&& 0x80#32 = 0#32 ↔ b.toNat < 0x80) ∧
    (0xC0 ≤ b.toNat → promote signedChar b &&& 0x40#32 ≠ 0#32 ∧
      (promote signedChar b &&& 0x20#32 ≠ 0#32 ↔ 0xE0 ≤ b.toNat)) ∧
    (0xE0 ≤ b.toNat → (promote signedChar b &&& 0x10#32 ≠ 0#32 ↔ 0xF0 ≤ b.toNat)) ∧
    (0xF0 ≤ b.toNat → (promote signedChar b &&& 0x08#32 ≠ 0#32 ↔ 0xF8 ≤ b.toNat)) ∧
    (b.toNat < 0x80 → promote signedChar b = b.setWidth 32) ∧
    (0x80 ≤ b.toNat ∧ b.toNat < 0xC0 →
      ¬ promote signedChar b &&& 0x80#32 = 0#32 ∧ promote signedChar b &&& 0x40#32 = 0#32) := by
  revert signedChar b
  decide +kernel

/-- What the masks leave of the lead byte of a sequence of two, three or four; the two bits on
top tell a continuation byte. -/
theorem masked_bits (b : Byte) :
    (~~~(0x80#32 ||| 0x40#32 ||| 0x40#32 >>> 1) &&& promote false b).toNat = b.toNat % 32 ∧
    (~~~(0x80#32 ||| 0x40#32 ||| 0x40#32 >>> 1 ||| 0x40#32 >>> 1 >>> 1) &&&
      promote false b).toNat = b.toNat % 16 ∧
    (~~~(0x80#32 ||| 0x40#32 ||| 0x40#32 >>> 1 ||| 0x40#32 >>> 1 >>> 1 |||
      0x40#32 >>> 1 >>> 1 >>> 1) &&& promote false b).toNat = b.toNat % 8 ∧
    (b &&& 0xC0#8 = 0x80#8 ↔ 0x80 ≤ b.toNat ∧ b.toNat < 0xC0) := by
  revert b
  decide +kernel

theorem promote_mod (signedChar : Bool) (b : Byte) :
    (promote signedChar b).toNat % 256 = b.toNat :=
  (byte_bits signedChar b).1

theorem ascii_bit (signedChar : Bool) (b : Byte) :
    promote signedChar b &&& 0x80#32 = 0#32 ↔ b.toNat < 0x80 :=
  (byte_bits signedChar b).2.1

/-- The tests of a loop over the bits of a lead byte. -/
theorem lead_tests (signedChar : Bool) {b : Byte} (h : 0xC0 ≤ b.toNat) :
    ¬ promote signedChar b &&& 0x80#32 = 0#32 ∧ promote signedChar b &&& 0x40#32 ≠ 0#32 ∧
    (promote signedChar b &&& 0x40#32 >>> 1 ≠ 0#32 ↔ 0xE0 ≤ b.toNat) ∧
    (0xE0 ≤ b.toNat → (promote signedChar b &&& 0x40#32 >>> 1 >>> 1 ≠ 0#32 ↔ 0xF0 ≤ b.toNat)) ∧
    (0xF0 ≤ b.toNat → (promote signedChar b &&& 0x40#32 >>> 1 >>> 1 >>> 1 ≠ 0#32 ↔ 0xF8 ≤ b.toNat)) := by
  obtain ⟨-, hbit7, hbits, hbit4, hbit3, -⟩ := byte_bits signedChar b
  obtain ⟨hbit6, hbit5⟩ := hbits h
  refine ⟨fun hascii => ?_, hbit6, hbit5, hbit4, hbit3⟩
  have hlt := hbit7.mp hascii
  omega

theorem promote_ascii (signedChar : Bool) (b : Byte) (h : b.toNat < 0x80) :
    promote signedChar b = b.setWidth 32 :=
  (byte_bits signedChar b).2.2.2.2.2.1 h

theorem top_bits (b : Byte) : b &&& 0xC0#8 = 0x80#8 ↔ 0x80 ≤ b.toNat ∧ b.toNat < 0xC0 :=
  (masked_bits b).2.2.2

theorem continuation_bits (signedChar : Bool) (b : Byte) (h : 0x80 ≤ b.toNat ∧ b.toNat < 0xC0) :
    ¬ promote signedChar b &&& 0x80#32 = 0#32 ∧ promote signedChar b &&& 0x40#32 = 0#32 :=
  (byte_bits signedChar b).2.2.2.2.2.2 h

theorem lead_low_five (b : Byte) :
    (~~~(0x80#32 ||| 0x40#32 ||| 0x40#32 >>> 1) &&& promote false b).toNat = b.toNat % 32 :=
  (masked_bits b).1

theorem lead_low_four (b : Byte) :
    (~~~(0x80#32 ||| 0x40#32 ||| 0x40#32 >>> 1 ||| 0x40#32 >>> 1 >>> 1) &&&
      promote false b).toNat = b.toNat % 16 :=
  (masked_bits b).2.1

theorem lead_low_three (b : Byte) :
    (~~~(0x80#32 ||| 0x40#32 ||| 0x40#32 >>> 1 ||| 0x40#32 >>> 1 >>> 1 |||
      0x40#32 >>> 1 >>> 1 >>> 1) &&& promote false b).toNat = b.toNat % 8 :=
  (masked_bits b).2.2.1

end AudioFlinger.Unicode
