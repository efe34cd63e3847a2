import Mathlib.Logic.Function.Basic
import AudioFlinger.Foundation.Machine
import AudioFlinger.Playback.Track

/-!
# A record thread and its clients

`RecordThread::start`, `stop_l` and `threadLoop` of `libs/audioflinger/Threads.cpp` with
`RecordTrack::stop` and `destroy` of `Tracks.cpp`, cut where a thread releases
`mLock`, waits for `mStartStopCond` or takes the lock again; a wait may end at any
moment. What the input gives, the answers of the audio policy and pending
configuration events are inputs. Calls to the policy, and what the calls of
clients return, are kept in a log, the newest first.
-/

namespace AudioFlinger.Recording

open Foundation Playback

inductive Status
  | noError
  | busy
  | inputError
deriving DecidableEq

/-- Where a client's call is while it does not hold the lock: `start` in `startInput`, waiting, or at
`startError`; `stop` waiting, or before its `stopInput`. -/
inductive Pc
  | starting
  | startWaits
  | startFails
  | stopWaits
  | stopping
deriving DecidableEq

structure Call where
  track : ℕ
  pc : Pc
deriving DecidableEq

/-- Where the loop is: before the lock; after it; at the first look at the active track; reading for
it; or through. -/
inductive LoopPc
  | top
  | checked
  | entered
  | reading
  | done
deriving DecidableEq

/-- A track becomes the active one, or `ACTIVE`; `startInput` that succeeds and `stopInput` for a
track; and what `start` returned. -/
inductive Op
  | adopted (track : ℕ)
  | activated (track : ℕ)
  | startInput (track : ℕ)
  | stopInput (track : ℕ)
  | returned (track : ℕ) (status : Status)
deriving DecidableEq

/-- `mState` has the states of the tracks at their addresses, `destroying` the tracks whose
destruction has begun, and `fatal` says that `mActiveTrack` was NULL where it was dereferenced. -/
structure RecordThread where
  mState : ℕ → TrackState
  mTracks : List ℕ
  mActiveTrack : Option ℕ
  exitPending : Bool
  loop : LoopPc
  calls : List Call
  destroying : List ℕ
  fatal : Bool
  log : List Op

namespace RecordThread

def new : RecordThread where
  mState _ := .idle
  mTracks := []
  mActiveTrack := none
  exitPending := false
  loop := .top
  calls := []
  destroying := []
  fatal := false
  log := []

def setState (a : ℕ) (s : TrackState) (w : RecordThread) : RecordThread :=
  { w with mState := Function.update w.mState a s }

def note (op : Op) (w : RecordThread) : RecordThread := { w with log := op :: w.log }

/-- A call goes on elsewhere, or ends. -/
def moveCall (c : Call) (next : Option Pc) (w : RecordThread) : RecordThread :=
  { w with calls := (next.map (Call.mk c.track)).toList ++ w.calls.erase c }

def createRecordTrack (a : ℕ) (w : RecordThread) : RecordThread :=
  { w.setState a .idle with mTracks := w.mTracks ++ [a] }

/-! ## `start` -/

/-- Up to `startInput`. -/
def start (a : ℕ) (w : RecordThread) : RecordThread :=
  match w.mActiveTrack with
  | some b =>
    if a ≠ b then w.note (.returned a .busy)
    else if w.mState b = .pausing then
      ((w.setState b .active).note (.activated b)).note (.returned a .noError)
    else w.note (.returned a .noError)
  | none =>
    { (w.setState a .idle).note (.adopted a) with
      mActiveTrack := some a
      calls := ⟨a, .starting⟩ :: w.calls }

/-- From the answer to `startInput` to the wait. -/
def inputStarted (a : ℕ) (ok : Bool) (w : RecordThread) : RecordThread :=
  if !ok then
    { (w.moveCall ⟨a, .starting⟩ none).note (.returned a .inputError) with mActiveTrack := none }
  else
    let w := w.note (.startInput a)
    match w.mActiveTrack with
    | none => { w with fatal := true }
    | some b =>
      let w := w.setState b .resuming
      if w.exitPending then
        { w.moveCall ⟨a, .starting⟩ (some .startFails) with mActiveTrack := none }
      else w.moveCall ⟨a, .starting⟩ (some .startWaits)

/-- After the wait. -/
def startWakes (a : ℕ) (w : RecordThread) : RecordThread :=
  match w.mActiveTrack with
  | none => w.moveCall ⟨a, .startWaits⟩ (some .startFails)
  | some _ => (w.moveCall ⟨a, .startWaits⟩ none).note (.returned a .noError)

/-- The status of the failure is in an inner `status`; the one returned here is still `NO_ERROR`. -/
def startError (a : ℕ) (w : RecordThread) : RecordThread :=
  ((w.moveCall ⟨a, .startFails⟩ none).note (.stopInput a)).note (.returned a .noError)

/-! ## `stop` and `destroy` -/

def stop (a : ℕ) (w : RecordThread) : RecordThread :=
  if w.mActiveTrack ≠ some a || w.mState a = .pausing then w
  else
    let w := w.setState a .pausing
    { w with calls := ⟨a, if w.exitPending then .stopping else .stopWaits⟩ :: w.calls }

def stopWakes (a : ℕ) (w : RecordThread) : RecordThread :=
  w.moveCall ⟨a, .stopWaits⟩ (if w.exitPending || w.mActiveTrack ≠ some a then some .stopping else none)

def inputStopped (a : ℕ) (w : RecordThread) : RecordThread :=
  (w.moveCall ⟨a, .stopping⟩ none).note (.stopInput a)

/-- The part of `destroy` without the lock. -/
def destroy (a : ℕ) (w : RecordThread) : RecordThread :=
  { w with
    destroying := a :: w.destroying
    log := if w.mState a = .active || w.mState a = .resuming then .stopInput a :: w.log else w.log }

def removeTrack (a : ℕ) (w : RecordThread) : RecordThread := { w with mTracks := w.mTracks.erase a }

def destroyTrack (a : ℕ) (w : RecordThread) : RecordThread :=
  let w := w.setState a .terminated
  if w.mActiveTrack ≠ some a then w.removeTrack a else w

/-! ## `threadLoop` -/

/-- What an iteration meets: whether configuration events are pending, whether the channel count
of the active track is not that of the thread, whether a buffer was filled before, and whether
the last read had no error. -/
structure Look where
  configEvents : Bool
  otherChannels : Bool
  readOnce : Bool
  readOk : Bool

/-- The part of an iteration with the lock for the active track. -/
def lookAt (look : Look) (a : ℕ) (w : RecordThread) : RecordThread :=
  match w.mState a with
  | .pausing => { w with mActiveTrack := none }
  | .resuming =>
    if look.otherChannels then { w with mActiveTrack := none }
    else if look.readOnce then
      if look.readOk then (w.setState a .active).note (.activated a) else { w with mActiveTrack := none }
    else w
  | .terminated => { w.removeTrack a with mActiveTrack := none }
  | _ => w

/-- The part of an iteration with the lock. -/
def iterate (look : Look) (w : RecordThread) : RecordThread :=
  match w.mActiveTrack with
  | none => { w with loop := if look.configEvents then .checked else .top }
  | some a => { w.lookAt look a with loop := .checked }

/-- One look at `mActiveTrack` without the lock; the reading goes on or ends. -/
def peek (again : Bool) (w : RecordThread) : RecordThread :=
  match w.loop with
  | .checked => { w with loop := if w.mActiveTrack.isSome then .entered else .top }
  | .entered =>
    match w.mActiveTrack with
    | none => { w with fatal := true }
    | some a => { w with loop := if w.mState a = .active || w.mState a = .resuming then .reading else .top }
  | .reading =>
    match w.mActiveTrack with
    | none => { w with fatal := true }
    | some _ => { w with loop := if again then .reading else .top }
  | _ => w

/-- The loop ends. -/
def leave (w : RecordThread) : RecordThread := { w with mActiveTrack := none, loop := .done }

/-! ## Runs -/

inductive Event
  | create (a : ℕ)
  | start (a : ℕ)
  | inputStarted (a : ℕ) (ok : Bool)
  | startWakes (a : ℕ)
  | startError (a : ℕ)
  | stop (a : ℕ)
  | stopWakes (a : ℕ)
  | inputStopped (a : ℕ)
  | destroy (a : ℕ)
  | destroyTrack (a : ℕ)
  | exit
  | iterate (look : Look)
  | peek (again : Bool)
  | leave

/-- Clients still have the track. -/
def held (w : RecordThread) (a : ℕ) : Prop := a ∈ w.mTracks ∧ a ∉ w.destroying

instance (w : RecordThread) (a : ℕ) : Decidable (w.held a) := inferInstanceAs (Decidable (_ ∧ _))

/-- Where the calls for a track are. -/
def callsOf (w : RecordThread) (a : ℕ) : List Pc := (w.calls.filter fun c => c.track = a).map Call.pc

/-- When an event can happen: a new track has a new address, a call goes on where it is, and a track
is destroyed when its clients have let it go. -/
def Enabled (w : RecordThread) : Event → Prop
  | .create a => a ∉ w.mTracks ∧ a ∉ w.destroying
  | .start a | .stop a => w.held a
  | .inputStarted a _ => ⟨a, .starting⟩ ∈ w.calls
  | .startWakes a => ⟨a, .startWaits⟩ ∈ w.calls
  | .startError a => ⟨a, .startFails⟩ ∈ w.calls
  | .stopWakes a => ⟨a, .stopWaits⟩ ∈ w.calls
  | .inputStopped a => ⟨a, .stopping⟩ ∈ w.calls
  | .destroy a => w.held a ∧ w.callsOf a = []
  | .destroyTrack a => a ∈ w.destroying ∧ w.mState a ≠ .terminated
  | .exit => True
  | .iterate _ => w.loop = .top
  | .peek _ => w.loop ≠ .top ∧ w.loop ≠ .done
  | .leave => w.loop = .top ∧ w.exitPending = true

instance (w : RecordThread) : ∀ e, Decidable (w.Enabled e)
  | .create _ | .destroyTrack _ | .peek _ | .leave => inferInstanceAs (Decidable (_ ∧ _))
  | .start a | .stop a => inferInstanceAs (Decidable (w.held a))
  | .destroy a => inferInstanceAs (Decidable (w.held a ∧ _))
  | .inputStarted .. | .startWakes _ | .startError _ | .stopWakes _ | .inputStopped _ =>
    inferInstanceAs (Decidable (_ ∈ w.calls))
  | .exit => isTrue trivial
  | .iterate _ => inferInstanceAs (Decidable (_ = _))

def call (w : RecordThread) : Event → RecordThread
  | .create a => w.createRecordTrack a
  | .start a => w.start a
  | .inputStarted a ok => w.inputStarted a ok
  | .startWakes a => w.startWakes a
  | .startError a => w.startError a
  | .stop a => w.stop a
  | .stopWakes a => w.stopWakes a
  | .inputStopped a => w.inputStopped a
  | .destroy a => w.destroy a
  | .destroyTrack a => w.destroyTrack a
  | .exit => { w with exitPending := true }
  | .iterate look => w.iterate look
  | .peek again => w.peek again
  | .leave => w.leave

/-- Nothing happens after a fatal dereference. -/
def step (w : RecordThread) (e : Event) : Option RecordThread :=
  if !w.fatal && decide (w.Enabled e) then some (w.call e) else none

end RecordThread

end AudioFlinger.Recording
