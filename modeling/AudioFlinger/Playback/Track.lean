import Mathlib.Algebra.Order.Ring.Int
import Mathlib.Tactic.Common

/-!
# The states of a playback track

`PlaybackThread::Track` of `libs/audioflinger/Tracks.cpp` and what the loops of
`prepareTracks_l` in `Threads.cpp` do with one active track of a mixer or direct
thread. The frames a client has written, the underruns that the fast mixer
counts and the frames written to the output are inputs of a cycle.
-/

namespace AudioFlinger.Playback

inductive TrackState
  | idle
  | terminated
  | flushed
  | stopped
  | stopping1
  | stopping2
  | resuming
  | active
  | pausing
  | paused
deriving DecidableEq

inductive FillingStatus
  | invalid
  | filling
  | filled
  | active
deriving DecidableEq

/-- `FastTrackUnderruns`; the counters have `UNDERRUN_BITS` bits. -/
structure Underruns where
  mFull : BitVec 10
  mPartial : BitVec 10
  mEmpty : BitVec 10
deriving DecidableEq

def kMaxTrackRetries : ℤ := 50
def kMaxTrackStartupRetries : ℤ := 50
def kMaxTrackRetriesDirect : ℤ := 2

/-- A track at its address. `mSharedBuffer` says whether it is static, `mFastIndex` is the slot of a
fast track, `isOutputTrack` says that a duplicating thread plays it, and `mMainBufferIsMix` whether it
is mixed to the thread's own mix buffer. -/
structure Track where
  self : ℕ
  mSessionId : ℤ
  mSharedBuffer : Bool
  mFastIndex : Option ℕ
  isOutputTrack : Bool
  mState : TrackState
  mFillingUpStatus : FillingStatus
  mRetryCount : ℤ
  mResetDone : Bool
  mPresentationCompleteFrames : ℕ
  mObservedUnderruns : Underruns
  mMainBufferIsMix : Bool
deriving DecidableEq

namespace Track

def isFastTrack (t : Track) : Bool := t.mFastIndex.isSome
def isStopped (t : Track) : Bool := t.mState = .stopped || t.mState = .flushed
def isPausing (t : Track) : Bool := t.mState = .pausing
def isPaused (t : Track) : Bool := t.mState = .paused
def isTerminated (t : Track) : Bool := t.mState = .terminated

/-- The states in which the output is in use. -/
def isPlaying (t : Track) : Bool := t.mState = .active || t.mState = .resuming

/-- Whether the audio policy counts the track's use of the output. -/
def usesOutput (t : Track) : Bool := !t.isOutputTrack && t.isPlaying

/-! ## Calls of a client -/

/-- `reset`; the buffer's own reset is left out. -/
def reset (t : Track) : Track :=
  if t.mResetDone then t
  else
    { t with
      mFillingUpStatus := .filling
      mResetDone := true
      mState := if t.mState = .flushed then .idle else t.mState }

/-- The part of `addTrack_l` that writes the track. -/
def added (isActive : Bool) (t : Track) : Track :=
  let t := { t with mRetryCount := kMaxTrackStartupRetries }
  if isActive then t
  else
    { t with
      mFillingUpStatus := .filling
      mResetDone := false
      mPresentationCompleteFrames := 0 }

/-- `start`; the one of an `OutputTrack` then sets the retries itself. -/
def start (isActive : Bool) (t : Track) : Track :=
  let t := ({ t with mState := if t.mState = .paused then .resuming else .active } : Track).added isActive
  { t with mRetryCount := if t.isOutputTrack then 127 else t.mRetryCount }

def stop (isActive : Bool) (t : Track) : Track :=
  match t.mState with
  | .resuming | .active | .pausing | .paused =>
    if !isActive then { t.reset with mState := .stopped }
    else if !t.isFastTrack then { t with mState := .stopped }
    else { t with mState := .stopping1 }
  | _ => t

def pause (t : Track) : Track := if t.isPlaying then { t with mState := .pausing } else t

def flush (isActive : Bool) (t : Track) : Track :=
  match t.mState with
  | .stopping1 | .stopping2 | .stopped | .paused | .pausing | .idle | .flushed =>
    let t := { t with mState := .flushed }
    if isActive then t else t.reset
  | _ => t

def terminate (t : Track) : Track := { t with mState := .terminated }

/-! ## One cycle -/

/-- What a cycle meets: for a track whether `framesReady()` is enough for the cycle and whether the
buffer is full or forced to be ready, and what the fast mixer counted; and for all tracks whether the
output is in standby, the frames written to it, and the frames of its latency. -/
structure Look where
  enough : Bool
  full : Bool
  underruns : Underruns

structure Cycle where
  mStandby : Bool
  framesWritten : ℕ
  audioHALFrames : ℕ
  look : ℕ → Look

def presentationComplete (framesWritten audioHALFrames : ℕ) (t : Track) : Track × Bool :=
  let t :=
    if t.mPresentationCompleteFrames = 0 then
      { t with mPresentationCompleteFrames := framesWritten + audioHALFrames }
    else t
  (t, t.mPresentationCompleteFrames ≤ framesWritten)

/-- `mStandby || presentationComplete(..)`. -/
def presented (c : Cycle) (t : Track) : Track × Bool :=
  if c.mStandby then (t, true) else t.presentationComplete c.framesWritten c.audioHALFrames

def isReady (full : Bool) (t : Track) : Track × Bool :=
  if t.mFillingUpStatus ≠ .filling || t.isStopped || t.isPausing then (t, true)
  else if full then ({ t with mFillingUpStatus := .filled }, true)
  else (t, false)

/-- Whether the track is mixed in this cycle. -/
def ready (look : Look) (t : Track) : Track × Bool :=
  if look.enough then
    let (t, ready) := t.isReady look.full
    (t, ready && !t.isPaused && !t.isTerminated)
  else (t, false)

/-- The first frames of a track. -/
def firstMix (t : Track) : Track :=
  if t.mFillingUpStatus = .filled then
    { t with
      mFillingUpStatus := .active
      mState := if t.mState = .resuming then .active else t.mState }
  else t

/-- A track without frames, and whether it is removed. -/
def notReady (c : Cycle) (t : Track) : Track × Bool :=
  if t.mSharedBuffer || t.isTerminated || t.isStopped || t.isPaused then
    let (t, gone) := t.presented c
    if gone then (if t.isStopped then t.reset else t, true) else (t, false)
  else
    let t := { t with mRetryCount := t.mRetryCount - 1 }
    (t, t.mRetryCount ≤ 0)

/-- One track in `MixerThread::prepareTracks_l`, and whether it is removed. -/
def prepareMixer (c : Cycle) (t : Track) : Track × Bool :=
  let (t, ready) := t.ready (c.look t.self)
  if ready then
    let t := t.firstMix
    let t := if t.isPausing then { t with mState := .paused } else t
    ({ t with mRetryCount := kMaxTrackRetries }, false)
  else t.notReady c

/-- One track in `DirectOutputThread::prepareTracks_l`, the last active one or not. -/
def prepareDirect (last : Bool) (c : Cycle) (t : Track) : Track × Bool :=
  let (t, ready) := t.ready (c.look t.self)
  if ready then
    let t := t.firstMix
    (if last then { t with mRetryCount := kMaxTrackRetriesDirect } else t, false)
  else t.notReady c

/-! ## Fast tracks -/

/-- Whether an active fast track stays; in an unexpected state it does. -/
inductive Fast
  | stays
  | leaves
  | unexpected
deriving DecidableEq

/-- A fast track that leaves when all of it was presented. -/
def leaveFast (c : Cycle) (t : Track) : Track × Fast :=
  let (t, gone) := t.presented c
  if gone then (if t.mState = .stopping2 then { t with mState := .stopped } else t, .leaves)
  else (t, .stays)

/-- Whether there were recent underruns. -/
def underrun (recent : Underruns) : Bool := recent.mPartial ≠ 0 || recent.mEmpty ≠ 0

/-- A fast track that has provided some frames. -/
def retried (recent : Underruns) (t : Track) : Track :=
  if recent.mFull ≠ 0 || recent.mPartial ≠ 0 then { t with mRetryCount := kMaxTrackRetries } else t

/-- The case `ACTIVE`, which falls through for a static track. -/
def switchActive (c : Cycle) (recent : Underruns) (t : Track) : Track × Fast :=
  let t := t.retried recent
  if !underrun recent then (t, .stays)
  else if t.mSharedBuffer then t.leaveFast c
  else if recent.mEmpty = 0 then (t, .stays)
  else
    let t := { t with mRetryCount := t.mRetryCount - 1 }
    (t, if 0 < t.mRetryCount then .stays else .leaves)

/-- The switch over the state of a fast track, with the recent underruns. -/
def switchFast (c : Cycle) (recent : Underruns) (t : Track) : Track × Fast :=
  match t.mState with
  | .stopping1 => (if underrun recent then { t with mState := .stopping2 } else t, .stays)
  | .pausing => ({ t with mState := .paused }, .stays)
  | .resuming => ({ t with mState := .active }, .stays)
  | .active => t.switchActive c recent
  | .stopping2 | .paused | .terminated | .stopped | .flushed => t.leaveFast c
  | .idle => (t, .unexpected)

/-- One fast track in `MixerThread::prepareTracks_l`. -/
def prepareFast (c : Cycle) (t : Track) : Track × Fast :=
  let underruns := (c.look t.self).underruns
  let observed := t.mObservedUnderruns
  ({ t with mObservedUnderruns := underruns } : Track).switchFast c
    ⟨underruns.mFull - observed.mFull, underruns.mPartial - observed.mPartial,
      underruns.mEmpty - observed.mEmpty⟩

/-! ## What stays the same -/

/-- The fields of a track that its calls and the cycles do not write. -/
structure Fixed where
  self : ℕ
  mSessionId : ℤ
  mSharedBuffer : Bool
  mFastIndex : Option ℕ
  isOutputTrack : Bool
  mMainBufferIsMix : Bool
deriving DecidableEq

def fixed (t : Track) : Fixed :=
  ⟨t.self, t.mSessionId, t.mSharedBuffer, t.mFastIndex, t.isOutputTrack, t.mMainBufferIsMix⟩

variable {t : Track} {c : Cycle}

@[simp] theorem fixed_added (isActive : Bool) : (t.added isActive).fixed = t.fixed := by
  cases isActive <;> rfl

@[simp] theorem fixed_start (isActive : Bool) : (t.start isActive).fixed = t.fixed :=
  fixed_added isActive

/-- What no cycle writes: the fixed fields, and whether the track plays. -/
def kept (t : Track) : Fixed × Bool := (t.fixed, t.isPlaying)

/-- The state changes, but the track plays as before. -/
theorem kept_state {s : TrackState} (h : (decide (s = .active) || decide (s = .resuming)) = t.isPlaying) :
    ({ t with mState := s } : Track).kept = t.kept :=
  Prod.ext rfl h

theorem kept_reset : t.reset.kept = t.kept := by
  rw [reset]
  split
  · rfl
  · refine kept_state ?_
    split
    next h => rw [isPlaying, h]; rfl
    next => rfl

@[simp] theorem fixed_reset : t.reset.fixed = t.fixed :=
  congrArg Prod.fst kept_reset

@[simp] theorem fixed_stop (isActive : Bool) : (t.stop isActive).fixed = t.fixed := by
  have hreset : ({ t.reset with mState := .stopped } : Track).fixed = t.reset.fixed := rfl
  rw [stop]
  split
  all_goals first
    | rfl
    | split
      · rw [hreset, fixed_reset]
      · split <;> rfl

@[simp] theorem fixed_pause : t.pause.fixed = t.fixed := by
  rw [pause]
  split <;> rfl

@[simp] theorem fixed_flush (isActive : Bool) : (t.flush isActive).fixed = t.fixed := by
  have hflushed : ({ t with mState := .flushed } : Track).fixed = t.fixed := rfl
  rw [flush]
  split
  all_goals first
    | rfl
    | simp only
      split
      · rfl
      · rw [fixed_reset, hflushed]

@[simp] theorem fixed_terminate : t.terminate.fixed = t.fixed := rfl

theorem kept_presented : (t.presented c).1.kept = t.kept := by
  rw [presented]
  split
  · rfl
  · simp only [presentationComplete]
    split <;> rfl

theorem kept_ready (look : Look) : (t.ready look).1.kept = t.kept := by
  rw [ready]
  split
  · simp only [isReady]
    split
    · rfl
    · split <;> rfl
  · rfl

theorem kept_firstMix : t.firstMix.kept = t.kept := by
  rw [firstMix]
  split
  · refine kept_state ?_
    split
    next h => rw [isPlaying, h]; rfl
    next => rfl
  · rfl

theorem kept_notReady : (t.notReady c).1.kept = t.kept := by
  rw [notReady]
  split
  · simp only
    split
    · split
      · rw [kept_reset, kept_presented]
      · exact kept_presented
    · exact kept_presented
  · rfl

theorem kept_prepareMixer : (t.prepareMixer c).1.kept = t.kept := by
  have hready := @kept_ready t (c.look t.self)
  rw [prepareMixer]
  simp only
  split
  · refine Eq.trans ?_ (kept_firstMix.trans hready)
    split
    next h =>
      simp only [isPausing, decide_eq_true_eq] at h
      exact @kept_state (t.ready (c.look t.self)).1.firstMix .paused (by rw [isPlaying, h]; rfl)
    next => rfl
  · rw [kept_notReady, hready]

theorem kept_prepareDirect (last : Bool) : (t.prepareDirect last c).1.kept = t.kept := by
  have hready := @kept_ready t (c.look t.self)
  rw [prepareDirect]
  simp only
  split
  · refine Eq.trans ?_ (kept_firstMix.trans hready)
    simp only
    split <;> rfl
  · rw [kept_notReady, hready]

theorem kept_leaveFast : (t.leaveFast c).1.kept = t.kept := by
  rw [leaveFast]
  simp only
  split
  · rw [← @kept_presented t c]
    split
    next h => exact kept_state (by rw [isPlaying, h]; rfl)
    next => rfl
  · exact kept_presented

theorem kept_retried (recent : Underruns) : (t.retried recent).kept = t.kept := by
  rw [retried]
  split <;> rfl

theorem kept_switchActive (recent : Underruns) : (t.switchActive c recent).1.kept = t.kept := by
  have hretried := @kept_retried t recent
  rw [switchActive]
  simp only
  split
  · exact hretried
  · split
    · rw [kept_leaveFast, hretried]
    · split
      · exact hretried
      · exact hretried

theorem kept_switchFast (recent : Underruns) : (t.switchFast c recent).1.kept = t.kept := by
  rw [switchFast]
  split
  next h =>
    split
    · exact kept_state (by rw [isPlaying, h]; rfl)
    · rfl
  next h => exact kept_state (by rw [isPlaying, h]; rfl)
  next h => exact kept_state (by rw [isPlaying, h]; rfl)
  · exact kept_switchActive recent
  · exact kept_leaveFast
  · exact kept_leaveFast
  · exact kept_leaveFast
  · exact kept_leaveFast
  · exact kept_leaveFast
  · rfl

theorem kept_prepareFast : (t.prepareFast c).1.kept = t.kept := by
  rw [prepareFast, kept_switchFast]
  rfl

end Track

end AudioFlinger.Playback
