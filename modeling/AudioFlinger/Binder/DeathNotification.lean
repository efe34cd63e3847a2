import AudioFlinger.Foundation.Machine
import Mathlib.Logic.Function.Basic

/-!
# Death notifications

`linkToDeath`, `unlinkToDeath` and `sendObituary` of one `BpBinder` in `libs/binder/BpBinder.cpp`, the return
commands in `IPCThreadState::executeCommand`, and the death notification of its handle in `binder.c`. A command
that is flushed under `mLock` is a step of its own; `BC_DEAD_BINDER_DONE` is flushed at any later time. Any work of
a list may be taken first, and the reference in the driver stays while the proxy lives.
-/

namespace AudioFlinger.Binder.DeathNotification

open Foundation

/-! ## The driver -/

/-- `BINDER_WORK_*`; `unset` after `kzalloc`. -/
inductive WorkType
  | unset
  | DEAD_BINDER
  | DEAD_BINDER_AND_CLEAR
  | CLEAR_DEATH_NOTIFICATION
  deriving DecidableEq

/-- The list that the work is in: none, `proc->todo`, the `todo` of a thread, or `delivered_death`. -/
inductive Queue
  | unlisted
  | process
  | thread (thread : ℕ)
  | delivered
  deriving DecidableEq

/-- A `binder_ref_death`; `attached` if `ref->death` points to it. -/
structure Death where
  type : WorkType
  list : Queue
  attached : Bool
  deriving DecidableEq

/-- `dead` if `ref->node->proc` is `NULL`, `looper` are the threads in the state `REGISTERED` or `ENTERED`; the
numbers are those of `BC_REQUEST_DEATH_NOTIFICATION`, `BC_CLEAR_DEATH_NOTIFICATION` and
`BR_CLEAR_DEATH_NOTIFICATION_DONE`; `failed` is a user error or a `BUG`. -/
structure Driver where
  dead : Bool
  deaths : List Death
  looper : ℕ → Bool
  requests : ℕ
  clears : ℕ
  dones : ℕ
  failed : Bool

namespace Driver

def new : Driver := ⟨false, [], fun _ => false, 0, 0, 0, false⟩

/-- Where a command of `thread` puts the work. -/
def todo (d : Driver) (thread : ℕ) : Queue := if d.looper thread then .thread thread else .process

/-- `ref->death` -/
def death (d : Driver) : Option Death := d.deaths.find? Death.attached

def replace (d : Driver) (old new : Death) : Driver := { d with deaths := new :: d.deaths.erase old }

def request (d : Driver) (thread : ℕ) : Driver :=
  match d.death with
  | some _ => { d with failed := true }
  | none =>
    let death : Death := if d.dead then ⟨.DEAD_BINDER, d.todo thread, true⟩ else ⟨.unset, .unlisted, true⟩
    { d with deaths := death :: d.deaths, requests := d.requests + 1 }

def clear (d : Driver) (thread : ℕ) : Driver :=
  match d.death with
  | none => { d with failed := true }
  | some death =>
    if death.list = .unlisted then
      { d.replace death ⟨.CLEAR_DEATH_NOTIFICATION, d.todo thread, false⟩ with clears := d.clears + 1 }
    -- BUG_ON
    else if death.type ≠ .DEAD_BINDER then { d with failed := true }
    else { d.replace death { death with type := .DEAD_BINDER_AND_CLEAR, attached := false } with
      clears := d.clears + 1 }

/-- `BC_DEAD_BINDER_DONE`, with `death` found in `delivered_death`. -/
def deadBinderDone (d : Driver) (thread : ℕ) (death : Death) : Driver :=
  if death.type = .DEAD_BINDER_AND_CLEAR then
    d.replace death { death with type := .CLEAR_DEATH_NOTIFICATION, list := d.todo thread }
  else d.replace death { death with list := .unlisted }

/-- The process of the node is released. -/
def die (d : Driver) : Driver :=
  match d.death with
  | none => { d with dead := true }
  | some death =>
    if death.list = .unlisted then { d.replace death { death with type := .DEAD_BINDER, list := .process } with dead := true }
    -- BUG
    else { d with dead := true, failed := true }

/-- `binder_free_thread` -/
def exitThread (d : Driver) (thread : ℕ) : Driver :=
  { d with
    deaths := d.deaths.map fun death => if death.list = .thread thread then { death with list := .unlisted } else death
    looper := Function.update d.looper thread false }

end Driver

/-! ## The proxy -/

/-- `link` tells the calls of `linkToDeath` apart. -/
structure Obituary where
  recipient : ℕ
  cookie : ℕ
  flags : ℕ
  link : ℕ
  deriving DecidableEq

def Obituary.matches (obit : Obituary) (recipient : Option ℕ) (cookie flags : ℕ) : Bool :=
  (some obit.recipient = recipient ∨ recipient = none ∧ obit.cookie = cookie) ∧ obit.flags = flags

/-- What a thread is doing: `linkToDeath` or `unlinkToDeath` before the flush; `sendObituary` before `mLock`, before
the flush and with the obituaries that are left; the flush of `BC_DEAD_BINDER_DONE`, and that of the destructor;
`BR_CLEAR_DEATH_NOTIFICATION_DONE`. -/
inductive Task
  | linking (recipient cookie flags : ℕ)
  | unlinking
  | dead
  | clearing
  | reporting (obits : List Obituary)
  | finished
  | destroying
  | clearDone
  deriving DecidableEq

structure Op where
  thread : ℕ
  task : Task
  deriving DecidableEq

inductive Status
  | NO_ERROR
  | NAME_NOT_FOUND
  | DEAD_OBJECT
  deriving DecidableEq

/-- `users` are the references outside of calls; `linked`, `unlinked` and `reported` record the obituaries, the
last with whether their recipient was alive; `released` counts the references that were given up for
`BR_CLEAR_DEATH_NOTIFICATION_DONE`; `answer` is that of the last call; `faulted` is an access to the destroyed
proxy. -/
structure World where
  driver : Driver
  mObituaries : Option (List Obituary)
  mObitsSent : Bool
  mLock : Bool
  mWeak : ℕ
  users : ℕ
  destroyed : Bool
  ops : List Op
  links : ℕ
  linked : List Obituary
  unlinked : List Obituary
  reported : List (Obituary × Bool)
  released : ℕ
  answer : Option Status
  faulted : Bool

inductive Event
  | acquire
  | release (thread : ℕ)
  | linkToDeath (thread recipient cookie flags : ℕ)
  | unlinkToDeath (thread : ℕ) (recipient : Option ℕ) (cookie flags : ℕ)
  | advance (op : Op)
  | report (op : Op) (alive : Bool)
  | deadBinderDone (op : Op) (death : Death)
  | die
  | enterLooper (thread : ℕ)
  | read (thread : ℕ) (death : Death)
  | exit (thread : ℕ)

namespace World

def new : World := ⟨Driver.new, none, false, false, 1, 1, false, [], 0, [], [], [], 0, none, false⟩

def access (s : World) : World := { s with faulted := s.faulted || s.destroyed }

def goto (s : World) (op : Op) (task : Task) : World := { s with ops := { op with task } :: s.ops.erase op }

def finish (s : World) (op : Op) : World := { s with ops := s.ops.erase op }

/-- The last reference destroys the proxy. -/
def decWeak (s : World) (thread : ℕ) : World :=
  if s.mWeak = 1 then
    { s with
      mWeak := 0
      destroyed := true
      mObituaries := none
      ops := if s.mObituaries.isSome then ⟨thread, .destroying⟩ :: s.ops else s.ops }
  else { s with mWeak := s.mWeak - 1 }

def add (s : World) (recipient cookie flags : ℕ) : World :=
  let ob : Obituary := ⟨recipient, cookie, flags, s.links⟩
  { s with
    mObituaries := some (s.mObituaries.getD [] ++ [ob])
    links := s.links + 1
    linked := ob :: s.linked
    answer := some .NO_ERROR }

def linkToDeath (s : World) (thread recipient cookie flags : ℕ) : World :=
  if s.mObitsSent then { s with answer := some .DEAD_OBJECT }
  else if s.mObituaries = none then
    { s with
      mObituaries := some []
      mLock := true
      mWeak := s.mWeak + 1
      users := s.users - 1
      ops := ⟨thread, .linking recipient cookie flags⟩ :: s.ops }
  else s.add recipient cookie flags

def unlinkToDeath (s : World) (thread : ℕ) (recipient : Option ℕ) (cookie flags : ℕ) : World :=
  if s.mObitsSent then { s with answer := some .DEAD_OBJECT }
  else
    match (s.mObituaries.getD []).find? fun obit => obit.matches recipient cookie flags with
    | none => { s with answer := some .NAME_NOT_FOUND }
    | some obit =>
      let obits := (s.mObituaries.getD []).erase obit
      let s := { s with mObituaries := some obits, unlinked := obit :: s.unlinked }
      if obits = [] then { s with mLock := true, users := s.users - 1, ops := ⟨thread, .unlinking⟩ :: s.ops }
      else { s with answer := some .NO_ERROR }

def advance (s : World) (op : Op) : Option World :=
  match op.task with
  | .linking recipient cookie flags =>
    some (({ s with driver := s.driver.request op.thread, mLock := false, users := s.users + 1 }.add
      recipient cookie flags).finish op)
  | .unlinking =>
    some ({ s with
      driver := s.driver.clear op.thread
      mObituaries := none
      mLock := false
      users := s.users + 1
      answer := some .NO_ERROR }.finish op)
  | .dead =>
    if s.mObitsSent then some (s.access.goto op .finished)
    else if s.mLock then none
    else if s.mObituaries = none then some ({ s.access with mObitsSent := true }.goto op .finished)
    else some ({ s.access with mLock := true }.goto op .clearing)
  | .clearing =>
    some ({ s.access with
      driver := s.driver.clear op.thread
      mObituaries := none
      mObitsSent := true
      mLock := false }.goto op (.reporting (s.mObituaries.getD [])))
  | .reporting [] => some (s.goto op .finished)
  | .destroying => some ({ s with driver := s.driver.clear op.thread }.finish op)
  | .clearDone => some (({ s.access with released := s.released + 1 }.finish op).decWeak op.thread)
  | .reporting (_ :: _) | .finished => none

/-- `reportOneDeath`; `binderDied` is called if the recipient is alive. -/
def report (s : World) (op : Op) (alive : Bool) : Option World :=
  match op.task with
  | .reporting (ob :: obits) => some ({ s.access with reported := (ob, alive) :: s.reported }.goto op (.reporting obits))
  | _ => none

def deadBinderDone (s : World) (op : Op) (death : Death) : Option World :=
  if op.task ≠ .finished then none
  else if death ∈ s.driver.deaths ∧ death.list = .delivered then
    some ({ s with driver := s.driver.deadBinderDone op.thread death }.finish op)
  else if s.driver.deaths.all (·.list ≠ .delivered) then
    some ({ s with driver := { s.driver with failed := true } }.finish op)
  else none

def read (s : World) (thread : ℕ) (death : Death) : Option World :=
  if death ∈ s.driver.deaths ∧ (death.list = .process ∨ death.list = .thread thread) then
    if death.type = .CLEAR_DEATH_NOTIFICATION then
      some { s with
        driver := { s.driver with deaths := s.driver.deaths.erase death, dones := s.driver.dones + 1 }
        ops := ⟨thread, .clearDone⟩ :: s.ops }
    else
      some { s with
        driver := s.driver.replace death { death with list := .delivered }
        ops := ⟨thread, .dead⟩ :: s.ops }
  else none

def step (s : World) : Event → Option World
  | .acquire => if 0 < s.mWeak then some { s with mWeak := s.mWeak + 1, users := s.users + 1 } else none
  | .release thread => if 0 < s.users then some ({ s with users := s.users - 1 }.decWeak thread) else none
  | .linkToDeath thread recipient cookie flags =>
    if 0 < s.users ∧ s.mLock = false then some (s.access.linkToDeath thread recipient cookie flags) else none
  | .unlinkToDeath thread recipient cookie flags =>
    if 0 < s.users ∧ s.mLock = false then some (s.access.unlinkToDeath thread recipient cookie flags) else none
  | .advance op => if op ∈ s.ops then s.advance op else none
  | .report op alive => if op ∈ s.ops then s.report op alive else none
  | .deadBinderDone op death => if op ∈ s.ops then s.deadBinderDone op death else none
  | .die => if s.driver.dead then none else some { s with driver := s.driver.die }
  | .enterLooper thread =>
    some { s with driver := { s.driver with looper := Function.update s.driver.looper thread true } }
  | .read thread death => s.read thread death
  | .exit thread =>
    if s.ops.all (·.thread ≠ thread) then some { s with driver := s.driver.exitThread thread } else none

end World

end AudioFlinger.Binder.DeathNotification
