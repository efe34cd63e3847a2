import AudioFlinger.Foundation.Machine
import Mathlib.Logic.Function.Basic

/-!
# The state queue between the normal mixer and the fast mixer

One mutator edits states in place and pushes them, one observer polls. The
shared fields are read and written one at a time, so `push` and `poll` are
split at each access to `mNext`, `mAck` and the slots; the other fields belong
to one side and change together with the access they stand next to.
-/

namespace AudioFlinger.StateQueue

/-- Depth of the queue. -/
abbrev kN : ℕ := 4

/-- A pointer into `mStates`. -/
abbrev Slot := Fin kN

/-- How long `push` may block. -/
inductive Block
  | never
  | untilPushed
  | untilAcked
  deriving DecidableEq, Repr

/-- The fields of `StateQueue<T>`. A null pointer is `none`. -/
structure Queue (T : Type*) where
  mStates : Slot → T
  mNext : Option Slot
  mAck : Option Slot
  mCurrent : Option Slot
  mMutating : Slot
  mExpecting : Option Slot
  mInMutation : Bool
  mIsDirty : Bool
  mIsInitialized : Bool

variable {T : Type*}

/-- The constructor; the states themselves are uninitialized memory. -/
def Queue.init (memory : Slot → T) : Queue T where
  mStates := memory
  mNext := none
  mAck := none
  mCurrent := none
  mMutating := 0
  mExpecting := none
  mInMutation := false
  mIsDirty := false
  mIsInitialized := false

/-- `++mMutating` with circular wraparound. -/
def nextSlot (i : Slot) : Slot :=
  if h : i.val + 1 < kN then ⟨i.val + 1, h⟩ else ⟨0, by decide⟩

theorem nextSlot_val (i : Slot) : (nextSlot i).val = (i.val + 1) % kN := by
  have hi := i.isLt
  unfold nextSlot
  split
  · exact (Nat.mod_eq_of_lt ‹_›).symm
  · have hlast : i.val + 1 = kN := by omega
    simp [hlast]

/-- Where the mutator stands inside `push`. -/
inductive MutatorPc
  | idle
  /-- Waiting for the prior push to be acknowledged. -/
  | awaitPrior (block : Block)
  /-- About to store `mNext`. -/
  | publish (block : Block)
  /-- `mNext` is stored, the copy to the next slot is not. -/
  | copy (block : Block)
  /-- Waiting for this or a prior push to be acknowledged. -/
  | awaitAck
  deriving DecidableEq, Repr

/-- Where the observer stands inside `poll`. -/
inductive ObserverPc
  | idle
  /-- `mNext` has been loaded and differs from `mCurrent`. -/
  | loaded (next : Option Slot)
  deriving DecidableEq, Repr

/-- `begin()`: the caller may now edit the slot `mMutating`. -/
def Queue.begin (q : Queue T) : Queue T := { q with mInMutation := true }

/-- `end(didModify)`. -/
def Queue.endMutation (q : Queue T) (didModify : Bool) : Queue T :=
  { q with
    mIsDirty := q.mIsDirty || didModify
    mIsInitialized := q.mIsInitialized || didModify
    mInMutation := false }

/-- An in-place edit through the pointer returned by `begin()`. -/
def Queue.edit (q : Queue T) (value : T) : Queue T :=
  { q with mStates := Function.update q.mStates q.mMutating value }

/-- The part of `push` after the dirty state has been dealt with. -/
def Queue.pushTail (q : Queue T) (block : Block) : MutatorPc :=
  if block = .untilAcked ∧ q.mExpecting ≠ none then .awaitAck else .idle

/-- Entry of `push`: nothing shared is accessed before the first branch. -/
def Queue.pushEntry (q : Queue T) (block : Block) : MutatorPc :=
  if q.mIsDirty then
    if q.mExpecting ≠ none then .awaitPrior block else .publish block
  else q.pushTail block

/-- The release store of `mNext` and the mutator-private updates next to it. -/
def Queue.publish (q : Queue T) : Queue T :=
  { q with
    mNext := some q.mMutating
    mExpecting := some q.mMutating
    mMutating := nextSlot q.mMutating }

/-- `*mMutating = *mExpecting`. -/
def Queue.copy (q : Queue T) (expecting : Slot) : Queue T :=
  { q with
    mStates := Function.update q.mStates q.mMutating (q.mStates expecting)
    mIsDirty := false }

/-- The store of `mAck` in `poll`; what follows it is private to the observer. -/
def Queue.acknowledge (q : Queue T) (next : Option Slot) : Queue T :=
  { q with mAck := next, mCurrent := next }

/-- Both threads over one queue, with the history the specification speaks about. -/
structure System (T : Type*) where
  queue : Queue T
  mutator : MutatorPc
  observer : ObserverPc
  /-- Result of the last completed `push`. -/
  pushed : Option Bool
  /-- Contents of the published states, oldest first. -/
  published : List T
  /-- Number of states published when the poll in progress loaded `mNext`. -/
  seen : ℕ
  /-- Each state pointer returned by `poll`, newest first, with the number of states
  published when that poll loaded it: the pointer stands for the last of them. -/
  polled : List (Slot × ℕ)

def System.init (memory : Slot → T) : System T where
  queue := Queue.init memory
  mutator := .idle
  observer := .idle
  pushed := none
  published := []
  seen := 0
  polled := []

/-- A completed poll; a null result means that no state has been published. -/
def System.return (s : System T) (next : Option Slot) (seen : ℕ) : System T :=
  match next with
  | some p => { s with observer := .idle, polled := (p, seen) :: s.polled }
  | none => { s with observer := .idle }

/-- The steps of the two threads. -/
inductive Event (T : Type*)
  | begin
  | edit (value : T)
  | endMutation (didModify : Bool)
  | push (block : Block)
  /-- The next atomic step of the `push` in progress. -/
  | mutator
  /-- The load of `mNext` in `poll`. -/
  | pollLoad
  /-- The store of `mAck` in `poll`. -/
  | pollAck

/-- One pass of a wait loop, or one access, of the `push` in progress. -/
def System.pushStep (s : System T) : Option (System T) :=
  match s.mutator with
  | .idle => none
  | .awaitPrior block =>
    if s.queue.mAck = s.queue.mExpecting then some { s with mutator := .publish block }
    else if block = .never then some { s with mutator := .idle, pushed := some false }
    else some s
  | .publish block =>
    some { s with
      queue := s.queue.publish
      mutator := .copy block
      published := s.published ++ [s.queue.mStates s.queue.mMutating] }
  | .copy block =>
    match s.queue.mExpecting with
    | none => none
    | some expecting =>
      some { s with
        queue := s.queue.copy expecting
        mutator := s.queue.pushTail block
        pushed := if s.queue.pushTail block = .idle then some true else s.pushed }
  | .awaitAck =>
    if s.queue.mAck = s.queue.mExpecting then
      some { s with
        queue := { s.queue with mExpecting := none }
        mutator := .idle
        pushed := some true }
    else some s

/-- The interleaving of both threads. The guards are the assertions of the source:
mutations do not nest, and `push` is not called in the middle of one. -/
def step (s : System T) : Event T → Option (System T)
  | .begin =>
    if s.mutator = .idle ∧ ¬ s.queue.mInMutation then some { s with queue := s.queue.begin }
    else none
  | .edit value =>
    if s.queue.mInMutation then some { s with queue := s.queue.edit value } else none
  | .endMutation didModify =>
    if s.queue.mInMutation ∧ (s.queue.mIsInitialized ∨ didModify) then
      some { s with queue := s.queue.endMutation didModify }
    else none
  | .push block =>
    if s.mutator = .idle ∧ ¬ s.queue.mInMutation then
      some { s with
        mutator := s.queue.pushEntry block
        pushed := if s.queue.pushEntry block = .idle then some true else none }
    else none
  | .mutator => s.pushStep
  | .pollLoad =>
    if s.observer = .idle then
      if s.queue.mNext = s.queue.mCurrent then
        some (s.return s.queue.mNext s.published.length)
      else
        some { s with observer := .loaded s.queue.mNext, seen := s.published.length }
    else none
  | .pollAck =>
    match s.observer with
    | .idle => none
    | .loaded next =>
      some ({ s with queue := s.queue.acknowledge next }.return next s.seen)

/-- The slot whose contents the step of the mutator stores to. -/
def writes (s : System T) : Event T → Option Slot
  | .edit _ => some s.queue.mMutating
  | .mutator =>
    match s.mutator with
    | .copy _ => some s.queue.mMutating
    | _ => none
  | _ => none

/-- The most recent pointer returned by `poll`. -/
def System.current (s : System T) : Option (Slot × ℕ) := s.polled.head?

/-- The most recent entry whose pointer differs from that of the newest entry. -/
def previousOf : List (Slot × ℕ) → Option (Slot × ℕ)
  | [] => none
  | r :: rs => rs.find? fun r' => decide (r'.1 ≠ r.1)

/-- The second most recent distinct pointer returned by `poll`. -/
def System.previous (s : System T) : Option (Slot × ℕ) := previousOf s.polled

end AudioFlinger.StateQueue
