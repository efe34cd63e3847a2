import AudioFlinger.Foundation.Machine
import AudioFlinger.Foundation.SequenceNumber
import Mathlib.Data.List.FinRange

/-!
# A queue of one value between a mutator and an observer

`SingleStateQueue<T>` holds one value of `W` words. The mutator stores it word
by word between two stores of the sequence number; the observer copies it word
by word between two loads of that number and acknowledges what it has copied.
Every access to the shared memory is a step of its own, and the words of the
value are copied in any order.
-/

namespace AudioFlinger.SingleStateQueue

/-- A value of type `T`. -/
abbrev Value (W : ℕ) (α : Type*) := Fin W → α

def MAX_TRIES : ℕ := 5

/-- `SingleStateQueue::Shared`. -/
structure Shared (W : ℕ) (α : Type*) where
  mAck : U32
  mSequence : U32
  mValue : Value W α

/-- `Mutator::push` after its first store: the local `sequence` and the words still to store. -/
structure Pushing (W : ℕ) (α : Type*) where
  value : Value W α
  sequence : U32
  todo : List (Fin W)

/-- `Observer::poll` between two accesses to the shared memory. -/
inductive Polling (W : ℕ) (α : Type*)
  /-- The first load of the sequence number comes next. -/
  | enter
  /-- `before` was odd and is loaded again. -/
  | reload (tries : ℕ)
  /-- The words in `todo` are still to be loaded into `temp`. -/
  | copy (before : U32) (tries : ℕ) (temp : Value W α) (todo : List (Fin W))
  /-- The value is copied out and `mAck` is stored next. -/
  | acknowledge (before : U32)

/-- What a call of `poll` may change. -/
structure Snapshot (W : ℕ) (α : Type*) where
  value : Value W α
  mSequence : U32
  mAck : U32

/-- A call of `poll` that has returned `true`: the value, and how many pushes were complete when
the second load of the sequence number let it through. -/
structure Delivery (W : ℕ) (α : Type*) where
  value : Value W α
  pushes : ℕ

structure Queue (W : ℕ) (α : Type*) where
  shared : Shared W α
  /-- `Mutator::mSequence`. -/
  mutator : U32
  push : Option (Pushing W α)
  /-- `Observer::mSequence`. -/
  observer : U32
  poll : Option (Polling W α)
  /-- The variable that the caller of `poll` passes. -/
  value : Value W α
  /-- The value of each complete push, with the sequence number that `push` returned. -/
  pushed : List (Value W α × U32)
  /-- The calls of `poll` that returned `true`, the last one first. -/
  delivered : List (Delivery W α)
  /-- What each call of `poll` that returned `false` found and left. -/
  refused : List (Snapshot W α × Snapshot W α)
  /-- What the call of `poll` under way found. -/
  found : Snapshot W α
  /-- The pushes complete at the first load of the call of `poll` under way. -/
  enteredAt : ℕ
  /-- The pushes complete at the last load of the sequence number. -/
  loadedAt : ℕ

inductive Event (W : ℕ) (α : Type*)
  | push (value : Value W α)
  | storeWord (i : Fin W)
  | publish
  | poll
  | loadSequence
  | loadWord (i : Fin W)
  | storeAck

variable {W : ℕ} {α : Type*}

/-- `Shared::init`, called by the observer; the memory of the value is not initialized. -/
def Shared.init (mem : Value W α) : Shared W α where
  mAck := 0
  mSequence := 0
  mValue := mem

def Queue.start (mem value : Value W α) : Queue W α where
  shared := Shared.init mem
  mutator := 0
  push := none
  observer := 0
  poll := none
  value := value
  pushed := []
  delivered := []
  refused := []
  found := ⟨value, 0, 0⟩
  enteredAt := 0
  loadedAt := 0

/-! ## The mutator -/

/-- The first store of `push`. -/
def Queue.beginPush (q : Queue W α) (value : Value W α) : Queue W α :=
  { q with
    shared := { q.shared with mSequence := q.mutator + 1 }
    push := some ⟨value, q.mutator + 1, List.finRange W⟩ }

def Queue.storeWord (q : Queue W α) (p : Pushing W α) (i : Fin W) : Queue W α :=
  { q with
    shared := { q.shared with mValue := Function.update q.shared.mValue i (p.value i) }
    push := some { p with todo := p.todo.erase i } }

/-- The last store of `push`, which returns the number. -/
def Queue.publish (q : Queue W α) (p : Pushing W α) : Queue W α :=
  { q with
    shared := { q.shared with mSequence := p.sequence + 1 }
    mutator := p.sequence + 1
    push := none
    pushed := q.pushed ++ [(p.value, p.sequence + 1)] }

/-- `Mutator::ack()`. -/
def Queue.ack (q : Queue W α) : Bool := q.shared.mAck - q.mutator == 0

/-- `Mutator::ack(sequence)`. -/
def Queue.ackOf (q : Queue W α) (sequence : U32) : Bool := 0 ≤ (q.shared.mAck - sequence).toInt

/-! ## The observer -/

def Queue.snapshot (q : Queue W α) : Snapshot W α := ⟨q.value, q.observer, q.shared.mAck⟩

/-- `poll` returns `false`. -/
def Queue.refuse (q : Queue W α) : Queue W α :=
  { q with poll := none, refused := (q.found, q.snapshot) :: q.refused }

/-- The head of the loop of `poll`, after a load of `before`; `temp` starts with any contents. -/
def Queue.examine (q : Queue W α) (before : U32) (tries : ℕ) : Queue W α :=
  if before &&& 1 ≠ 0 then
    if MAX_TRIES ≤ tries + 1 then q.refuse
    else { q with poll := some (.reload (tries + 1)) }
  else { q with poll := some (.copy before tries q.value (List.finRange W)) }

/-- The load of the sequence number behind the last word. -/
def Queue.compare (q : Queue W α) (before : U32) (tries : ℕ) (temp : Value W α) : Queue W α :=
  if q.shared.mSequence = before then { q with value := temp, poll := some (.acknowledge before) }
  else if MAX_TRIES ≤ tries + 1 then q.refuse
  else q.examine q.shared.mSequence (tries + 1)

/-- The place of a load of the sequence number is noted. -/
def Queue.noteLoad (q : Queue W α) : Queue W α := { q with loadedAt := q.pushed.length }

def Queue.noteEntry (q : Queue W α) : Queue W α := { q.noteLoad with enteredAt := q.pushed.length }

/-- A load of the sequence number, wherever `poll` makes one. -/
def Queue.loadSequence (q : Queue W α) : Option (Queue W α) :=
  match q.poll with
  | some .enter =>
    if q.shared.mSequence = q.observer then some q.noteEntry.refuse
    else some (q.noteEntry.examine q.shared.mSequence 0)
  | some (.reload tries) => some (q.noteLoad.examine q.shared.mSequence tries)
  | some (.copy before tries temp []) => some (q.noteLoad.compare before tries temp)
  | _ => none

def Queue.loadWord (q : Queue W α) (i : Fin W) : Option (Queue W α) :=
  match q.poll with
  | some (.copy before tries temp todo) =>
    if i ∈ todo then
      some { q with
        poll := some (.copy before tries (Function.update temp i (q.shared.mValue i)) (todo.erase i)) }
    else none
  | _ => none

/-- The store of `mAck`, after which `poll` returns `true`. -/
def Queue.storeAck (q : Queue W α) : Option (Queue W α) :=
  match q.poll with
  | some (.acknowledge before) =>
    some { q with
      shared := { q.shared with mAck := before }
      observer := before
      poll := none
      delivered := ⟨q.value, q.loadedAt⟩ :: q.delivered }
  | _ => none

/-! ## Both together -/

def step (q : Queue W α) : Event W α → Option (Queue W α)
  | .push value => if q.push.isNone then some (q.beginPush value) else none
  | .storeWord i =>
    match q.push with
    | some p => if i ∈ p.todo then some (q.storeWord p i) else none
    | none => none
  | .publish =>
    match q.push with
    | some p => if p.todo = [] then some (q.publish p) else none
    | none => none
  | .poll =>
    if q.poll.isNone then some { q with poll := some .enter, found := q.snapshot } else none
  | .loadSequence => q.loadSequence
  | .loadWord i => q.loadWord i
  | .storeAck => q.storeAck

end AudioFlinger.SingleStateQueue
