import AudioFlinger.Foundation.Machine
import Mathlib.Algebra.BigOperators.Group.List.Basic
import Mathlib.Algebra.Order.Ring.Int

/-!
# Reference counting

`RefBase` in `libs/utils/RefBase.cpp`, for an object of the regular life time. An operation is a sequence of
steps, each with one atomic access or load of `mStrong` or `mWeak`; a `delete` belongs to the step before it.
The callbacks `onFirstRef` and `onLastStrongRef` are accesses of the object at most.
-/

namespace AudioFlinger.Utils.RefBase

open Foundation

def INITIAL_STRONG_VALUE : ℤ := 268435456

/-- What an `int32_t` keeps of a number. -/
def int32 (n : ℤ) : ℤ := n.bmod (2 ^ 32)

theorem int32_eq {n : ℤ} (hle : -2 ^ 31 ≤ n) (hlt : n < 2 ^ 31) : int32 n = n :=
  Int.bmod_eq_of_le_mul_two (by omega) (by omega)

/-- What a thread holds while it is in an operation: a reference, or the pointer of a new object. -/
inductive Base
  | strong
  | weak
  | creator
  deriving DecidableEq

/-- The next step of an operation. `decWeak0` also ends `decStrong` and a failing `attemptIncStrong`. -/
inductive Pc
  | incStrong0
  | incStrong1
  | incStrong2
  | incWeak0
  | decStrong0
  | decStrong1
  | decWeak0
  | decWeak1
  | decWeak2
  | attempt0
  | attempt1
  | attempt2 (curCount : ℤ)
  | attempt3 (curCount : ℤ)
  | attempt4
  | attempt5
  | attempt6 (curCount : ℤ)
  | attemptWeak0
  | attemptWeak1 (curCount : ℤ)
  deriving DecidableEq

/-- `base` is none in the operations that give up their reference. -/
structure Op where
  pc : Pc
  base : Option Base
  deriving DecidableEq

/-- `strong` and `weak` are the references that are held outside of operations, `creator` the pointer of the new
object before its first use; `destroyed` and `freed` count the `delete` of the object and of its `weakref_impl`;
`taken` and `released` record whether a strong reference was ever taken, or released; `faulted` is an access
after a `delete`. -/
structure World where
  mStrong : ℤ
  mWeak : ℤ
  ops : List Op
  strong : ℕ
  weak : ℕ
  creator : Bool
  destroyed : ℕ
  freed : ℕ
  taken : Bool
  released : Bool
  faulted : Bool
  deriving DecidableEq

inductive Event
  | incStrong (base : Base)
  | incWeak (base : Base)
  | decStrong
  | decWeak
  | attemptIncStrong (base : Base)
  | attemptIncWeak (base : Base)
  | advance (op : Op)
  deriving DecidableEq

namespace World

def new : World where
  mStrong := INITIAL_STRONG_VALUE
  mWeak := 0
  ops := []
  strong := 0
  weak := 0
  creator := true
  destroyed := 0
  freed := 0
  taken := false
  released := false
  faulted := false

/-- An operation begins on what its thread holds. -/
def begin (s : World) (pc : Pc) : Base → Option World
  | .strong => if 0 < s.strong then some { s with ops := ⟨pc, some .strong⟩ :: s.ops, strong := s.strong - 1 } else none
  | .weak => if 0 < s.weak then some { s with ops := ⟨pc, some .weak⟩ :: s.ops, weak := s.weak - 1 } else none
  | .creator => if s.creator then some { s with ops := ⟨pc, some .creator⟩ :: s.ops, creator := false } else none

/-- A step accesses the `weakref_impl`, and some steps the object. -/
def access (s : World) (object : Bool) : World :=
  { s with faulted := s.faulted || s.freed ≠ 0 || (object && s.destroyed ≠ 0) }

def goto (s : World) (op : Op) (pc : Pc) : World := { s with ops := { op with pc } :: s.ops.erase op }

/-- The operation returns, with new references. -/
def finish (s : World) (op : Op) (strong weak : ℕ) : World :=
  { s with
    ops := s.ops.erase op
    strong := s.strong + strong + if op.base = some .strong then 1 else 0
    weak := s.weak + weak + if op.base = some .weak then 1 else 0 }

/-- `~RefBase`. -/
def destroy (s : World) : World :=
  { s with
    destroyed := s.destroyed + 1
    freed := if s.mStrong = INITIAL_STRONG_VALUE then s.freed + 1 else s.freed }

def advance (s : World) (op : Op) : World :=
  match op.pc with
  -- incStrong
  | .incStrong0 => { s.access true with mWeak := int32 (s.mWeak + 1) }.goto op .incStrong1
  | .incStrong1 =>
    let s' := { s.access false with mStrong := int32 (s.mStrong + 1), taken := true }
    if s.mStrong ≠ INITIAL_STRONG_VALUE then s'.finish op 1 0 else s'.goto op .incStrong2
  | .incStrong2 => { s.access true with mStrong := int32 (s.mStrong - INITIAL_STRONG_VALUE) }.finish op 1 0
  -- incWeak
  | .incWeak0 => { s.access false with mWeak := int32 (s.mWeak + 1) }.finish op 0 1
  -- decStrong
  | .decStrong0 =>
    { s.access true with mStrong := int32 (s.mStrong - 1), released := true }.goto op
      (if s.mStrong = 1 then .decStrong1 else .decWeak0)
  | .decStrong1 => (s.access true).destroy.goto op .decWeak0
  -- decWeak
  | .decWeak0 =>
    let s' := { s.access false with mWeak := int32 (s.mWeak - 1) }
    if s.mWeak ≠ 1 then s'.finish op 0 0 else s'.goto op .decWeak1
  | .decWeak1 =>
    if s.mStrong = INITIAL_STRONG_VALUE then (s.access false).goto op .decWeak2
    else { s.access false with freed := s.freed + 1 }.finish op 0 0
  | .decWeak2 => (s.access true).destroy.finish op 0 0
  -- attemptIncStrong
  | .attempt0 => { s.access false with mWeak := int32 (s.mWeak + 1) }.goto op .attempt1
  | .attempt1 =>
    let curCount := s.mStrong
    (s.access false).goto op
      (if curCount ≤ 0 then .decWeak0
      else if curCount = INITIAL_STRONG_VALUE then .attempt3 curCount
      else .attempt2 curCount)
  | .attempt2 curCount =>
    if s.mStrong = curCount then { s.access false with mStrong := int32 (curCount + 1), taken := true }.goto op .attempt5
    else (s.access false).goto op .attempt1
  | .attempt3 curCount =>
    if s.mStrong = curCount then
      { s.access (curCount < INITIAL_STRONG_VALUE) with mStrong := int32 (curCount + 1), taken := true }.goto op .attempt5
    else (s.access false).goto op .attempt4
  | .attempt4 =>
    let curCount := s.mStrong
    (s.access false).goto op (if curCount ≤ 0 then .decWeak0 else .attempt3 curCount)
  | .attempt5 =>
    let curCount := s.mStrong
    if INITIAL_STRONG_VALUE ≤ curCount then (s.access false).goto op (.attempt6 curCount)
    else (s.access false).finish op 1 0
  | .attempt6 curCount =>
    if s.mStrong = curCount then { s.access false with mStrong := int32 (curCount - INITIAL_STRONG_VALUE) }.finish op 1 0
    else (s.access false).goto op .attempt5
  -- attemptIncWeak
  | .attemptWeak0 =>
    let curCount := s.mWeak
    if curCount ≤ 0 then (s.access false).finish op 0 0 else (s.access false).goto op (.attemptWeak1 curCount)
  | .attemptWeak1 curCount =>
    if s.mWeak = curCount then { s.access false with mWeak := int32 (curCount + 1) }.finish op 0 1
    else (s.access false).goto op .attemptWeak0

/-- Who may begin an operation: `incStrong` the holder of a strong reference, and any other holder while no strong
reference was released; `incWeak` any holder; the attempts the holder of a reference. -/
def step (s : World) : Event → Option World
  | .incStrong base => if base ≠ .strong ∧ s.released then none else s.begin .incStrong0 base
  | .incWeak base => s.begin .incWeak0 base
  | .decStrong =>
    if 0 < s.strong then some { s with ops := ⟨.decStrong0, none⟩ :: s.ops, strong := s.strong - 1 } else none
  | .decWeak => if 0 < s.weak then some { s with ops := ⟨.decWeak0, none⟩ :: s.ops, weak := s.weak - 1 } else none
  | .attemptIncStrong base => if base = .creator then none else s.begin .attempt0 base
  | .attemptIncWeak base => if base = .creator then none else s.begin .attemptWeak0 base
  | .advance op => if op ∈ s.ops then some (s.advance op) else none

/-! ## The references in operations -/

def total (s : World) (f : Op → ℕ) : ℕ := (s.ops.map f).sum

/-- The strong references of an operation: the one it stands on, the one it gives up, the one it has taken. -/
@[simp]
def strongOf (op : Op) : ℕ :=
  (if op.base = some .strong then 1 else 0) +
    match op.pc with
    | .incStrong2 | .decStrong0 | .attempt5 | .attempt6 _ => 1
    | _ => 0

/-- Its weak references. -/
@[simp]
def weakOf (op : Op) : ℕ :=
  (if op.base = some .strong then 1 else 0) + (if op.base = some .weak then 1 else 0) +
    match op.pc with
    | .incStrong0 | .incWeak0 | .decWeak1 | .decWeak2 | .attempt0 | .attemptWeak0 | .attemptWeak1 _ => 0
    | _ => 1

def strongs (s : World) : ℕ := s.strong + s.total strongOf

def weaks (s : World) : ℕ := s.weak + s.strong + s.total weakOf

/-- `incStrong` has found the initial value and has not subtracted it. -/
@[simp]
def adding (op : Op) : ℕ := if op.pc = .incStrong2 then 1 else 0

/-- `incStrong` by a thread without a strong reference, before its increment. -/
@[simp]
def exposed (op : Op) : ℕ :=
  if op.base ≠ some .strong ∧ (op.pc = .incStrong0 ∨ op.pc = .incStrong1) then 1 else 0

variable {s : World} {op : Op} {f : Op → ℕ}

theorem total_erase (hop : op ∈ s.ops) (f : Op → ℕ) : f op + ((s.ops.erase op).map f).sum = s.total f := by
  rw [total, (List.perm_cons_erase hop).map f |>.sum_eq, List.map_cons, List.sum_cons]

theorem total_goto (hop : op ∈ s.ops) (f : Op → ℕ) (pc : Pc) :
    (s.goto op pc).total f + f op = s.total f + f { op with pc } := by
  rw [← total_erase hop f, goto, total, List.map_cons, List.sum_cons]
  omega

theorem total_finish (hop : op ∈ s.ops) (f : Op → ℕ) (strong weak : ℕ) :
    (s.finish op strong weak).total f + f op = s.total f := by
  rw [← total_erase hop f, finish, total, Nat.add_comm]

end World

end AudioFlinger.Utils.RefBase
