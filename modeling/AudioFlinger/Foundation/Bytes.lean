import AudioFlinger.Foundation.Counter
import AudioFlinger.Foundation.RingMemory

/-!
# Words and fields in a memory of bytes
-/

/-!
## Words in a memory of bytes

A word of `w` bits is `w / 8` bytes, least significant first. `Stores` says that
a list of bytes lies in memory from an address on; a copy elsewhere leaves it
alone, and loading a word that is stored gives it back. `pad4` rounds a size up
to a multiple of four, modulo the word.
-/

namespace AudioFlinger

abbrev Byte := BitVec 8
abbrev U16 := BitVec 16
abbrev U64 := BitVec 64

namespace Foundation.Bytes

open RingMemory

/-- The `k` low bytes of a number. -/
def leBytes : ℕ → ℕ → List Byte
  | 0, _ => []
  | k + 1, x => BitVec.ofNat 8 x :: leBytes k (x / 256)

def leValue : List Byte → ℕ
  | [] => 0
  | b :: bs => b.toNat + 256 * leValue bs

@[simp] theorem leBytes_length (k x : ℕ) : (leBytes k x).length = k := by
  induction k generalizing x with
  | zero => rfl
  | succ k ih => rw [leBytes, List.length_cons, ih]

theorem leValue_leBytes (k x : ℕ) : leValue (leBytes k x) = x % 256 ^ k := by
  induction k generalizing x with
  | zero => simp [leBytes, leValue, Nat.mod_one]
  | succ k ih =>
    have hbyte : (BitVec.ofNat 8 x).toNat = x % 256 := BitVec.toNat_ofNat x 8
    rw [leBytes, leValue, ih, hbyte, pow_succ', Nat.mod_mul]

variable {w : ℕ}

/-- The bytes of a word. -/
def bytes (x : BitVec w) : List Byte := leBytes (w / 8) x.toNat

/-- The word at an address. -/
def load (w : ℕ) (mem : ℕ → Byte) (pos : ℕ) : BitVec w :=
  BitVec.ofNat w (leValue (slice mem pos (w / 8)))

@[simp] theorem bytes_length (x : BitVec w) : (bytes x).length = w / 8 := leBytes_length _ _

theorem ofNat_leValue_bytes (hw : 8 ∣ w) (x : BitVec w) :
    BitVec.ofNat w (leValue (bytes x)) = x := by
  have hpow : 256 ^ (w / 8) = 2 ^ w := by
    rw [show 256 = 2 ^ 8 from rfl, ← Nat.pow_mul, Nat.mul_div_cancel' hw]
  rw [bytes, leValue_leBytes, hpow, Nat.mod_eq_of_lt x.isLt, BitVec.ofNat_toNat,
    BitVec.setWidth_eq]

/-! ## What is stored -/

variable {mem mem' : ℕ → Byte} {pos : ℕ} {bs cs : List Byte}

/-- The bytes lie in memory from `pos` on. -/
def Stores (mem : ℕ → Byte) (pos : ℕ) (bs : List Byte) : Prop := slice mem pos bs.length = bs

instance (mem : ℕ → Byte) (pos : ℕ) (bs : List Byte) : Decidable (Stores mem pos bs) :=
  inferInstanceAs (Decidable (_ = _))

theorem stores_iff : Stores mem pos bs ↔ ∀ j (h : j < bs.length), mem (pos + j) = bs[j] := by
  constructor
  · intro h j hj
    have hget : (slice mem pos bs.length)[j]? = bs[j]? := congrArg (·[j]?) h
    rw [List.getElem?_eq_getElem hj] at hget
    simpa [slice, hj] using hget
  · intro h
    apply List.ext_getElem
    · exact slice_length _ _
    · intro j _ hj
      simp [slice, h j hj]

theorem stores_append :
    Stores mem pos (bs ++ cs) ↔ Stores mem pos bs ∧ Stores mem (pos + bs.length) cs := by
  have hsplit : slice mem pos (bs ++ cs).length =
      slice mem pos bs.length ++ slice mem (pos + bs.length) cs.length := by
    simp [slice, List.range_add, List.map_map, Function.comp_def, Nat.add_assoc]
  unfold Stores
  rw [hsplit]
  constructor
  · intro h
    exact List.append_inj h (slice_length _ _)
  · rintro ⟨hfirst, hsecond⟩
    rw [hfirst, hsecond]

/-- What is stored depends on its own addresses only. -/
theorem Stores.congr (h : Stores mem pos bs)
    (hsame : ∀ i, pos ≤ i → i < pos + bs.length → mem' i = mem i) : Stores mem' pos bs := by
  rw [stores_iff] at *
  intro j hj
  rw [hsame (pos + j) (Nat.le_add_right _ _) (Nat.add_lt_add_left hj pos)]
  exact h j hj

theorem stores_blit (mem : ℕ → Byte) (pos : ℕ) (bs : List Byte) :
    Stores (blit mem pos bs) pos bs := by
  rw [stores_iff]
  intro j hj
  exact blit_hit pos bs hj

/-- A copy elsewhere leaves what is stored alone. -/
theorem Stores.blit {at' : ℕ} (h : Stores mem pos bs)
    (hapart : pos + bs.length ≤ at' ∨ at' + cs.length ≤ pos) : Stores (blit mem at' cs) pos bs := by
  apply h.congr
  intro i hlo hhi
  exact blit_miss (by omega)

/-- Loading a word that is stored gives it back. -/
theorem Stores.load {x : BitVec w} (hw : 8 ∣ w) (h : Stores mem pos (bytes x)) :
    load w mem pos = x := by
  unfold Stores at h
  rw [bytes_length] at h
  rw [Bytes.load, h, ofNat_leValue_bytes hw]

/-! ## Strings of 16-bit units -/

def units (s : List U16) : List Byte := s.flatMap bytes

/-- The `n` units from an address on. -/
def loadUnits (mem : ℕ → Byte) (pos n : ℕ) : List U16 :=
  (List.range n).map fun i => load 16 mem (pos + 2 * i)

@[simp] theorem units_length (s : List U16) : (units s).length = 2 * s.length := by
  induction s with
  | nil => rfl
  | cons x s ih =>
    rw [units, List.flatMap_cons, List.length_append, bytes_length, ← units, ih, List.length_cons]
    omega

@[simp] theorem loadUnits_length (mem : ℕ → Byte) (pos n : ℕ) :
    (loadUnits mem pos n).length = n := by
  simp [loadUnits]

theorem loadUnits_succ (mem : ℕ → Byte) (pos n : ℕ) :
    loadUnits mem pos (n + 1) = load 16 mem pos :: loadUnits mem (pos + 2) n := by
  rw [loadUnits, List.range_succ_eq_map, List.map_cons, List.map_map]
  congr 1
  apply List.map_congr_left
  intro i _
  simp only [Function.comp_apply]
  congr 1
  omega

theorem Stores.loadUnits {s : List U16} (h : Stores mem pos (units s)) :
    loadUnits mem pos s.length = s := by
  induction s generalizing pos with
  | nil => rfl
  | cons x s ih =>
    rw [units, List.flatMap_cons] at h
    obtain ⟨hx, hs⟩ := stores_append.mp h
    rw [bytes_length] at hs
    rw [List.length_cons, loadUnits_succ, hx.load (by decide), ih hs]

/-! ## Padding -/

/-- `(s + 3) & ~3`. -/
def pad4 (s : U32) : U32 := (s + 3#32) &&& ~~~3#32

theorem not_three_bit (i : Fin 32) : (~~~3#32).getLsbD i = decide (2 ≤ i.val) := by
  revert i
  decide

theorem and_not_three (x : U32) : (x &&& ~~~3#32).toNat = x.toNat / 4 * 4 := by
  have hshift : x &&& ~~~3#32 = x >>> 2 <<< 2 := by
    apply BitVec.eq_of_getLsbD_eq
    intro i hi
    rw [BitVec.getLsbD_and, not_three_bit ⟨i, hi⟩, BitVec.getLsbD_shiftLeft,
      BitVec.getLsbD_ushiftRight]
    by_cases hlow : i < 2
    · simp [hlow]
    · simp [hlow, hi, Nat.le_of_not_lt hlow]
  have hx := x.isLt
  rw [hshift, BitVec.toNat_shiftLeft, BitVec.toNat_ushiftRight, Nat.shiftRight_eq_div_pow,
    Nat.shiftLeft_eq]
  omega

theorem pad4_toNat {s : U32} (h : s.toNat + 3 < 2 ^ 32) :
    (pad4 s).toNat = (s.toNat + 3) / 4 * 4 := by
  have hadd : (s + 3#32).toNat = s.toNat + 3 := by
    rw [BitVec.toNat_add]
    exact Nat.mod_eq_of_lt h
  rw [pad4, and_not_three, hadd]

end Foundation.Bytes

end AudioFlinger

/-!
## Fields padded to words

A message is a list of fields, each a list of bytes that takes a multiple of
four. `Laid` says that the fields lie in memory one after another; what the
padding holds is left open.
-/

namespace AudioFlinger.Foundation.Fields

open Bytes

/-- The size of a field of `n` bytes. -/
def padded (n : ℕ) : ℕ := (n + 3) / 4 * 4

/-- The size of a message. -/
def extent (fs : List (List Byte)) : ℕ := (fs.map fun f => padded f.length).sum

/-- The fields lie in memory from `pos` on. -/
def Laid (mem : ℕ → Byte) : ℕ → List (List Byte) → Prop
  | _, [] => True
  | pos, f :: fs => Stores mem pos f ∧ Laid mem (pos + padded f.length) fs

theorem le_padded (n : ℕ) : n ≤ padded n := by
  unfold padded
  omega

theorem padded_of_dvd {n : ℕ} (h : 4 ∣ n) : padded n = n := by
  unfold padded
  omega

theorem pad4_eq_padded {s : U32} (h : s.toNat + 3 < 2 ^ 32) : (pad4 s).toNat = padded s.toNat :=
  pad4_toNat h

@[simp] theorem extent_nil : extent [] = 0 := rfl

@[simp] theorem extent_cons (f : List Byte) (fs : List (List Byte)) :
    extent (f :: fs) = padded f.length + extent fs := List.sum_cons

@[simp] theorem extent_append (fs gs : List (List Byte)) :
    extent (fs ++ gs) = extent fs + extent gs := by
  rw [extent, List.map_append, List.sum_append]
  rfl

theorem four_dvd_extent (fs : List (List Byte)) : 4 ∣ extent fs := by
  induction fs with
  | nil => exact Nat.dvd_zero 4
  | cons f fs ih =>
    rw [extent_cons]
    exact Nat.dvd_add (Nat.dvd_mul_left _ _) ih

variable {mem mem' : ℕ → Byte} {pos : ℕ} {fs gs : List (List Byte)}

theorem laid_append :
    Laid mem pos (fs ++ gs) ↔ Laid mem pos fs ∧ Laid mem (pos + extent fs) gs := by
  induction fs generalizing pos with
  | nil => simp [Laid]
  | cons f fs ih =>
    rw [List.cons_append, Laid, Laid, ih, extent_cons, Nat.add_assoc, and_assoc]

/-- What is laid depends on its own addresses only. -/
theorem Laid.congr (h : Laid mem pos fs)
    (hsame : ∀ i, pos ≤ i → i < pos + extent fs → mem' i = mem i) : Laid mem' pos fs := by
  induction fs generalizing pos with
  | nil => trivial
  | cons f fs ih =>
    rw [extent_cons] at hsame
    have hf := le_padded f.length
    exact ⟨h.1.congr fun i hlo hhi => hsame i hlo (by omega),
      ih h.2 fun i hlo hhi => hsame i (by omega) (by omega)⟩

end AudioFlinger.Foundation.Fields
