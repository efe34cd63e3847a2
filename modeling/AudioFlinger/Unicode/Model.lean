import AudioFlinger.Foundation.Bytes
import AudioFlinger.Foundation.Scan

/-!
# The converters of the Unicode library

Texts are memories of bytes, 16-bit units or 32-bit units with a length. A
converter returns what it writes from `dst` on, in order, with the indices of
the source it reads; `none` would be a loop that is still running after as many
rounds as the source has cells. A `char` is promoted to `int` as the platform
has it, signed or not.
-/

namespace AudioFlinger.Unicode

open Foundation.Scan

def kByteMask : U32 := 0x000000BF#32
def kByteMark : U32 := 0x00000080#32
def kUnicodeSurrogateStart : U32 := 0x0000D800#32
def kUnicodeSurrogateEnd : U32 := 0x0000DFFF#32
def kUnicodeMaxCodepoint : U32 := 0x0010FFFF#32

/-- Indexed by the number of bytes in the sequence. -/
def kFirstByteMark : ℕ → U32
  | 2 => 0x000000C0#32
  | 3 => 0x000000E0#32
  | 4 => 0x000000F0#32
  | _ => 0x00000000#32

/-- A `size_t` returned as `ssize_t`. -/
def ssize_t (n : ℕ) : ℤ := (BitVec.ofNat 32 n).toInt

/-! ## UTF-32 -/

def utf32_codepoint_utf8_length (srcChar : U32) : ℕ :=
  if srcChar < 0x00000080#32 then 1
  else if srcChar < 0x00000800#32 then 2
  else if srcChar < 0x00010000#32 then
    if srcChar < kUnicodeSurrogateStart ∨ kUnicodeSurrogateEnd < srcChar then 3 else 0
  else if srcChar ≤ kUnicodeMaxCodepoint then 4
  else 0

/-- The switch from case `n` on, every case falling through to the next; `dst` is what the cases
before have written behind it. -/
def fallThrough (mark : U32) : ℕ → U32 → List Byte → List Byte
  | 0, _, dst => dst
  | 1, c, dst => (c ||| mark).setWidth 8 :: dst
  | n + 2, c, dst =>
    fallThrough mark (n + 1) (c >>> 6) (((c ||| kByteMark) &&& kByteMask).setWidth 8 :: dst)

def utf32_codepoint_to_utf8 (srcChar : U32) (bytes : ℕ) : List Byte :=
  fallThrough (kFirstByteMark bytes) bytes srcChar []

/-- The bytes of a code point, as every loop over code points writes them. -/
def encode (c : U32) : List Byte := utf32_codepoint_to_utf8 c (utf32_codepoint_utf8_length c)

def utf32_to_utf8_length (src : ℕ → U32) (src_len : ℕ) : Option (Reading ℤ) :=
  if src_len = 0 then some (pure (-1))
  else
    (scan src_len (fun cur ret => do
      let c ← read src cur
      pure (cur + 1, ret + utf32_codepoint_utf8_length c)) src_len 0 0).map
      (Reading.map fun r => ssize_t r.2)

def utf32_to_utf8 (src : ℕ → U32) (src_len : ℕ) : Option (Reading (List Byte)) :=
  if src_len = 0 then some (pure [])
  else
    (scan src_len (fun cur dst => do
      let c ← read src cur
      pure (cur + 1, dst ++ encode c)) src_len 0 []).map
      (Reading.map fun r => r.2 ++ [0#8])

/-! ## UTF-16 -/

/-- The test of both loops for the first unit of a surrogate pair. -/
def isHigh (u : U16) : Prop := u &&& 0xFC00#16 = 0xD800#16

instance (u : U16) : Decidable (isHigh u) := inferInstanceAs (Decidable (_ = _))

/-- The test of the measuring loop for the second. -/
def isLow (u : U16) : Prop := u &&& 0xFC00#16 = 0xDC00#16

instance (u : U16) : Decidable (isLow u) := inferInstanceAs (Decidable (_ = _))

/-- What the converting loop makes of a high surrogate and the unit after it, whatever that is. -/
def combine (hi lo : U16) : U32 :=
  (((hi.setWidth 32 - 0xD800#32) <<< 10) ||| (lo.setWidth 32 - 0xDC00#32)) + 0x10000#32

/-- One round of `utf16_to_utf8`. -/
def convertUnit (src : ℕ → U16) (cur : ℕ) (dst : List Byte) : Reading (ℕ × List Byte) := do
  let u ← read src cur
  if isHigh u then
    let v ← read src (cur + 1)
    pure (cur + 2, dst ++ encode (combine u v))
  else
    pure (cur + 1, dst ++ encode (u.setWidth 32))

def utf16_to_utf8 (src : ℕ → U16) (src_len : ℕ) : Option (Reading (List Byte)) :=
  if src_len = 0 then some (pure [])
  else (scan src_len (convertUnit src) src_len 0 []).map (Reading.map fun r => r.2 ++ [0#8])

/-- One round of `utf16_to_utf8_length`: `*++src` has moved on when its test fails. -/
def measureUnit (src : ℕ → U16) (stop cur ret : ℕ) : Reading (ℕ × ℕ) := do
  let u ← read src cur
  if isHigh u ∧ cur + 1 < stop then
    let v ← read src (cur + 1)
    if isLow v then
      pure (cur + 2, ret + 4)
    else
      pure (cur + 2, ret + utf32_codepoint_utf8_length (v.setWidth 32))
  else
    pure (cur + 1, ret + utf32_codepoint_utf8_length (u.setWidth 32))

def utf16_to_utf8_length (src : ℕ → U16) (src_len : ℕ) : Option (Reading ℤ) :=
  if src_len = 0 then some (pure (-1))
  else
    (scan src_len (measureUnit src src_len) src_len 0 0).map (Reading.map fun r => ssize_t r.2)

/-! ## UTF-8 -/

/-- A `char` promoted to `int`, on a platform where it is signed or not. -/
def promote (signedChar : Bool) (b : Byte) : U32 :=
  if signedChar then b.signExtend 32 else b.setWidth 32

/-- The loop of `utf8_length` over the bytes of one character, `left` rounds before `num_to_read`
is 5; `none` is its `return -1`. -/
def lengthLoop (first_char : U32) (src : ℕ → Byte) :
    ℕ → ℕ → ℕ → U32 → U32 → U32 → Option (ℕ × ℕ × U32 × U32 × U32)
  | 0, cur, num_to_read, mask, to_ignore_mask, utf32 =>
    some (cur, num_to_read, mask, to_ignore_mask, utf32)
  | left + 1, cur, num_to_read, mask, to_ignore_mask, utf32 =>
    if first_char &&& mask ≠ 0#32 then
      if src cur &&& 0xC0#8 ≠ 0x80#8 then none
      else
        lengthLoop first_char src left (cur + 1) (num_to_read + 1) (mask >>> 1)
          (to_ignore_mask ||| mask) ((utf32 <<< 6) + (src cur &&& 0x3F#8).setWidth 32)
    else some (cur, num_to_read, mask, to_ignore_mask, utf32)

/-- One character of `utf8_length` from `cur` on: the next cursor and the number of its bytes, or
`none` where it returns -1. -/
def lengthChar (signedChar : Bool) (src : ℕ → Byte) (cur : ℕ) : Option (ℕ × ℕ) :=
  let first_char := promote signedChar (src cur)
  if first_char &&& 0x80#32 = 0#32 then some (cur + 1, 1)
  else if first_char &&& 0x40#32 = 0#32 then none
  else do
    let (next, num_to_read, mask, to_ignore_mask, utf32) ←
      lengthLoop first_char src 4 (cur + 1) 1 0x40#32 0x80#32 0#32
    if num_to_read = 5 then none
    else
      let ignored := to_ignore_mask ||| mask
      let value := utf32 ||| ((~~~ignored &&& first_char) <<< (6 * (num_to_read - 1)))
      if kUnicodeMaxCodepoint < value then none else some (next, num_to_read)

/-- `utf8_length`, for a given number of rounds of its loop: `none` while it is still running. -/
def utf8_lengthFrom (signedChar : Bool) (src : ℕ → Byte) : ℕ → ℕ → ℕ → Option ℤ
  | 0, cur, ret => if src cur = 0#8 then some (ssize_t ret) else none
  | rounds + 1, cur, ret =>
    if src cur = 0#8 then some (ssize_t ret)
    else
      match lengthChar signedChar src cur with
      | none => some (-1)
      | some (next, num) => utf8_lengthFrom signedChar src rounds next (ret + num)

def utf8_length (signedChar : Bool) (src : ℕ → Byte) (rounds : ℕ) : Option ℤ :=
  utf8_lengthFrom signedChar src rounds 0 0

/-- The loop of `utf32_at_internal`; `left` is how often `mask` can still be shifted before it
is 0. -/
def atLoop (first_char : U32) (src : ℕ → Byte) :
    ℕ → ℕ → ℕ → U32 → U32 → U32 → Reading (ℕ × U32 × U32 × U32)
  | 0, _, num_to_read, mask, to_ignore_mask, utf32 =>
    pure (num_to_read, mask, to_ignore_mask, utf32)
  | left + 1, cur, num_to_read, mask, to_ignore_mask, utf32 =>
    if first_char &&& mask ≠ 0#32 then do
      let b ← read src cur
      atLoop first_char src left (cur + 1) (num_to_read + 1) (mask >>> 1) (to_ignore_mask ||| mask)
        ((utf32 <<< 6) + (b &&& 0x3F#8).setWidth 32)
    else pure (num_to_read, mask, to_ignore_mask, utf32)

/-- The code point at `cur` and the number of bytes read. -/
def utf32_at_internal (signedChar : Bool) (src : ℕ → Byte) (cur : ℕ) : Reading (U32 × ℕ) := do
  let b ← read src cur
  let first_char := promote signedChar b
  if first_char &&& 0x80#32 = 0#32 then pure (first_char, 1)
  else
    let (num_to_read, mask, to_ignore_mask, utf32) ←
      atLoop first_char src 7 (cur + 1) 1 0x40#32 0xFFFFFF80#32 first_char
    let ignored := to_ignore_mask ||| mask
    pure (utf32 &&& ~~~(ignored <<< (6 * (num_to_read - 1))), num_to_read)

/-- The loop of `utf8_to_utf32_length` that counts the bytes to skip. -/
def skipLoop (first_char : U32) : ℕ → ℕ → U32 → ℕ
  | 0, num_to_skip, _ => num_to_skip
  | left + 1, num_to_skip, mask =>
    if first_char &&& mask ≠ 0#32 then skipLoop first_char left (num_to_skip + 1) (mask >>> 1)
    else num_to_skip

def utf8_to_utf32_length (signedChar : Bool) (src : ℕ → Byte) (src_len : ℕ) : Option (Reading ℕ) :=
  if src_len = 0 then some (pure 0)
  else
    (scan src_len (fun cur ret => do
      let b ← read src cur
      let first_char := promote signedChar b
      if first_char &&& 0x80#32 = 0#32 then pure (cur + 1, ret + 1)
      else pure (cur + skipLoop first_char 7 1 0x40#32, ret + 1)) src_len 0 0).map
      (Reading.map fun r => r.2)

def utf8_to_utf32 (signedChar : Bool) (src : ℕ → Byte) (src_len : ℕ) :
    Option (Reading (List U32)) :=
  if src_len = 0 then some (pure [])
  else
    (scan src_len (fun cur dst => do
      let (c, num_read) ← utf32_at_internal signedChar src cur
      pure (cur + num_read, dst ++ [c])) src_len 0 []).map
      (Reading.map fun r => r.2 ++ [0#32])

/-- `1111 -> 4`, `1110 -> 3`, `110x -> 2`, `10xx -> 1`, `0xxx -> 1`. -/
def utf8_codepoint_len (ch : Byte) : ℕ :=
  ((0xe5000000#32 >>> ((ch >>> 3) &&& 0x1e#8).toNat) &&& 3#32).toNat + 1

def utf8_shift_and_mask (codePoint : U32) (byte : Byte) : U32 :=
  (codePoint <<< 6) ||| (0x3F#32 &&& byte.setWidth 32)

def utf8_to_utf32_codepoint (src : ℕ → Byte) (cur : ℕ) : ℕ → Reading U32
  | 1 => do
    let b ← read src cur
    pure (b.setWidth 32)
  | 2 => do
    let b ← read src cur
    let b1 ← read src (cur + 1)
    pure (utf8_shift_and_mask (b.setWidth 32 &&& 0x1f#32) b1)
  | 3 => do
    let b ← read src cur
    let b1 ← read src (cur + 1)
    let b2 ← read src (cur + 2)
    pure (utf8_shift_and_mask (utf8_shift_and_mask (b.setWidth 32 &&& 0x0f#32) b1) b2)
  | 4 => do
    let b ← read src cur
    let b1 ← read src (cur + 1)
    let b2 ← read src (cur + 2)
    let b3 ← read src (cur + 3)
    pure (utf8_shift_and_mask
      (utf8_shift_and_mask (utf8_shift_and_mask (b.setWidth 32 &&& 0x07#32) b1) b2) b3)
  | _ => pure 0xffff#32

def utf8_to_utf16_length (u8str : ℕ → Byte) (u8len : ℕ) : Option (Reading ℤ) :=
  (scan u8len (fun u8cur u16measuredLen => do
    let b ← read u8str u8cur
    let u8charLen := utf8_codepoint_len b
    let codepoint ← utf8_to_utf32_codepoint u8str u8cur u8charLen
    pure (u8cur + u8charLen, u16measuredLen + 1 + if 0xFFFF#32 < codepoint then 1 else 0))
    u8len 0 0).map
    (Reading.map fun r => if r.1 ≠ u8len then -1 else ssize_t r.2)

/-- The UTF-16 units written for a code point. -/
def writeUnits (codepoint : U32) : List U16 :=
  if codepoint ≤ 0xFFFF#32 then [codepoint.setWidth 16]
  else
    let codepoint' := codepoint - 0x10000#32
    [((codepoint' >>> 10) + 0xD800#32).setWidth 16, ((codepoint' &&& 0x3FF#32) + 0xDC00#32).setWidth 16]

def utf8_to_utf16_no_null_terminator (u8str : ℕ → Byte) (u8len : ℕ) :
    Option (Reading (List U16)) :=
  (scan u8len (fun u8cur u16str => do
    let b ← read u8str u8cur
    let charLen := utf8_codepoint_len b
    let codepoint ← utf8_to_utf32_codepoint u8str u8cur charLen
    pure (u8cur + charLen, u16str ++ writeUnits codepoint)) u8len 0 []).map
    (Reading.map fun r => r.2)

def utf8_to_utf16 (u8str : ℕ → Byte) (u8len : ℕ) : Option (Reading (List U16)) :=
  (utf8_to_utf16_no_null_terminator u8str u8len).map (Reading.map fun u16str => u16str ++ [0#16])

end AudioFlinger.Unicode
