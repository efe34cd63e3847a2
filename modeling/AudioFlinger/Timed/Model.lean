import AudioFlinger.Mixer.Model
import AudioFlinger.Utils.LinearTransform

/-!
# Timed tracks

The client of a timed track queues buffers with presentation times, and the
mixer takes the frames of the head of the queue when they are due. The track
counts the frames pending in the queue. An assertion that fails is recorded
and the step goes on, as in a release build.
-/

namespace AudioFlinger.Timed

open Mixer (I64 kInvalidPTS)
open Utils

inductive TargetTimeline
  | LOCAL_TIME
  | COMMON_TIME
  deriving DecidableEq, Repr

/-- The assertions of the track; those of the two trim functions carry the reason. -/
inductive Assertion
  | noElementsToTrim (logTag : String)
  | consumedAlready (logTag : String)
  | framesPendingInQueue (logTag : String)
  | removeItemsAt
  | getNextBufferWithoutReleaseBuffer
  | mediaTimeTransformInvalid
  | queueHeadInFlightDuringSilence
  | noQueueHeadInFlight
  | releasedBufferNotWithinHead
  | framesPendingDuringReleaseBuffer
  | releaseBufferWithNoBuffers
  deriving DecidableEq, Repr

inductive Status
  | NO_ERROR
  | INVALID_OPERATION
  | NOT_ENOUGH_DATA
  | BAD_VALUE
  deriving DecidableEq, Repr

/-! ## State -/

/-- The memory behind an `IMemory`. -/
structure IMemory where
  pointer : ℕ
  size : U32
  deriving DecidableEq, Repr

structure TimedBuffer where
  mBuffer : IMemory
  mPTS : I64
  mPosition : U32
  /-- How many buffers were queued before. -/
  serial : ℕ
  deriving DecidableEq, Repr

inductive Pointer
  | null
  | silence (size : U32)
  | memory (address : ℕ)
  deriving DecidableEq, Repr

/-- `AudioBufferProvider::Buffer`. -/
structure Buffer where
  raw : Pointer
  frameCount : U32
  deriving DecidableEq, Repr

structure TimedTrack where
  mFrameSize : U32
  mLocalTimeFreq : BitVec 64
  mLocalTimeToSampleTransform : LinearTransform
  mMediaTimeToSampleTransform : LinearTransform
  mTimedBufferQueue : List TimedBuffer
  mQueueHeadInFlight : Bool
  mTrimQueueHeadOnRelease : Bool
  mFramesPendingInQueue : U32
  mTimedSilenceBuffer : Pointer
  mTimedSilenceBufferSize : U32
  mTimedAudioOutputOnTime : Bool
  mMediaTimeTransform : LinearTransform
  mMediaTimeTransformValid : Bool
  mMediaTimeTransformTarget : TargetTimeline
  /-- The assertions that have failed. -/
  failures : List Assertion
  /-- How many buffers have been queued. -/
  queued : ℕ
  /-- The buffers that `updateFramesPendingAfterTrim_l` has been called for. -/
  accounted : List ℕ

def TimedTrack.assert (t : TimedTrack) (holds : Bool) (a : Assertion) : TimedTrack :=
  if holds then t else { t with failures := t.failures ++ [a] }

/-- `Vector::removeItemsAt`, of `count` items. -/
def removeItemsAt {α : Type} (items : List α) (index count : ℕ) : List α :=
  if items.length < index + count then items
  else items.take index ++ items.drop (index + count)

/-- The frames of a buffer that are not consumed. -/
def TimedTrack.framesLeft (t : TimedTrack) (buf : TimedBuffer) : U32 :=
  (buf.mBuffer.size - buf.mPosition) / t.mFrameSize

/-! ## Queueing and trimming -/

def TimedTrack.updateFramesPendingAfterTrim_l (t : TimedTrack) (buf : TimedBuffer)
    (logTag : String) : TimedTrack :=
  let bufFrames := t.framesLeft buf
  let t := t.assert (buf.mPosition ≤ buf.mBuffer.size) (.consumedAlready logTag)
  let t := t.assert (bufFrames ≤ t.mFramesPendingInQueue) (.framesPendingInQueue logTag)
  { t with
    mFramesPendingInQueue := t.mFramesPendingInQueue - bufFrames
    accounted := t.accounted ++ [buf.serial] }

def TimedTrack.trimTimedBufferQueueHead_l (t : TimedTrack) (logTag : String) : TimedTrack :=
  match t.mTimedBufferQueue with
  | [] => t.assert false (.noElementsToTrim logTag)
  | head :: rest =>
    { t.updateFramesPendingAfterTrim_l head logTag with mTimedBufferQueue := rest }

def TimedTrack.queueTimedBuffer (t : TimedTrack) (buffer : IMemory) (pts : I64) :
    TimedTrack × Status :=
  if t.mMediaTimeTransformValid = false then (t, .INVALID_OPERATION)
  else
    ({ t with
        mFramesPendingInQueue := t.mFramesPendingInQueue + buffer.size / t.mFrameSize
        mTimedBufferQueue := t.mTimedBufferQueue ++ [⟨buffer, pts, 0#32, t.queued⟩]
        queued := t.queued + 1 }, .NO_ERROR)

/-- The times that the common clock service answers. -/
structure Clock where
  getCommonTime : Option I64
  getLocalTime : Option I64

def TimedTrack.mediaTimeNow (t : TimedTrack) (clock : Clock) : Option I64 :=
  if t.mMediaTimeTransformValid = false then none
  else
    let targetTimeNow := if t.mMediaTimeTransformTarget = .COMMON_TIME then clock.getCommonTime
      else clock.getLocalTime
    targetTimeNow.bind t.mMediaTimeTransform.doReverseTransform

/-- The time of the frame after the last one of `buf`, before which `next` is queued. -/
def TimedTrack.bufEnd (t : TimedTrack) (buf : TimedBuffer) : Option TimedBuffer → Option I64
  | some next => some next.mPTS
  | none =>
    (t.mMediaTimeToSampleTransform.doReverseTransform
      ((buf.mBuffer.size / t.mFrameSize).setWidth 64)).map (· + buf.mPTS)

def TimedTrack.ended (t : TimedTrack) (mediaTimeNow : I64) (buf : TimedBuffer)
    (next : Option TimedBuffer) : Bool :=
  match t.bufEnd buf next with
  | some bufEnd => bufEnd.sle mediaTimeNow
  | none => false

/-- `trimEnd`, how many buffers at the head of the queue have ended. -/
def TimedTrack.trimEnd (t : TimedTrack) (mediaTimeNow : I64) : List TimedBuffer → ℕ
  | [] => 0
  | buf :: rest => if t.ended mediaTimeNow buf rest.head? then t.trimEnd mediaTimeNow rest + 1 else 0

/-- A head that is in the middle of a mix operation is trimmed when it is released. -/
def TimedTrack.markQueueHead (t : TimedTrack) (trimEnd : ℕ) : TimedTrack :=
  if 0 < trimEnd ∧ t.mQueueHeadInFlight then { t with mTrimQueueHeadOnRelease := true } else t

/-- Update the bookkeeping and remove the buffers from the queue. -/
def TimedTrack.removeTimedBuffers (t : TimedTrack) (trimEnd : ℕ) : TimedTrack :=
  let trimStart := if t.mTrimQueueHeadOnRelease then 1 else 0
  if trimStart < trimEnd then
    let t := ((t.mTimedBufferQueue.take trimEnd).drop trimStart).foldl
      (fun t buf => t.updateFramesPendingAfterTrim_l buf "trim") t
    let t := t.assert (trimStart + trimEnd ≤ t.mTimedBufferQueue.length) .removeItemsAt
    -- the second argument of removeItemsAt is a count
    { t with mTimedBufferQueue := removeItemsAt t.mTimedBufferQueue trimStart trimEnd }
  else t

def TimedTrack.trimTimedBufferQueue_l (t : TimedTrack) (clock : Clock) : TimedTrack :=
  match t.mediaTimeNow clock with
  | none => t
  | some mediaTimeNow =>
    let trimEnd := t.trimEnd mediaTimeNow t.mTimedBufferQueue
    (t.markQueueHead trimEnd).removeTimedBuffers trimEnd

/-- The queue is trimmed; the memory comes from a heap of its own. -/
def TimedTrack.allocateTimedBuffer (t : TimedTrack) (clock : Clock) : TimedTrack :=
  t.trimTimedBufferQueue_l clock

def TimedTrack.setMediaTimeTransform (t : TimedTrack) (xform : LinearTransform)
    (target : TargetTimeline) : TimedTrack :=
  { t with
    mMediaTimeTransform := xform
    mMediaTimeTransformTarget := target
    mMediaTimeTransformValid := true }

/-! ## Getting and releasing buffers -/

/-- What the common clock and the control block of the track answer. -/
structure Environment where
  commonTimeToLocalTime : I64 → Option I64
  sampleRate : U32

/-- What is to be done about the head of the queue. -/
inductive Verdict
  | paused
  | noTransform
  | noLocalTime
  | tooFar
  | badLocalToSample
  | onTime
  | early (framesUntilNextInput : U32)
  | tooLate
  | late (onTimeSamplePosition : U32)
  deriving DecidableEq, Repr

/-- The time of the head less what it has already yielded, from `pts` on. -/
def TimedTrack.headDelta (t : TimedTrack) (env : Environment) (pts : I64) (head : TimedBuffer)
    (headLocalPTS : I64) : I64 :=
  let effectivePTS := headLocalPTS + (head.mPosition / t.mFrameSize).setWidth 64 *
    t.mLocalTimeFreq / env.sampleRate.setWidth 64
  effectivePTS - pts

/-- The delta is in samples, of 32.32 bits. -/
def TimedTrack.judge (t : TimedTrack) (env : Environment) (onTime : Bool) (head : TimedBuffer)
    (sampleDelta : I64) : Verdict :=
  let kSampleContinuityThreshold := (env.sampleRate.setWidth 64 <<< 32).sdiv 250#64
  let kSampleStartupThreshold := 1#64 <<< 32
  if (ABS sampleDelta).sle
      (if onTime then kSampleContinuityThreshold else kSampleStartupThreshold) then .onTime
  else
    let rounded := (sampleDelta + 0x80000000#64).sshiftRight 32
    if (0#64).slt sampleDelta then .early (rounded.setWidth 32)
    else
      let lateFrames := (-rounded).setWidth 32
      let onTimeSamplePosition := head.mPosition + lateFrames * t.mFrameSize
      if head.mBuffer.size < onTimeSamplePosition then .tooLate else .late onTimeSamplePosition

def TimedTrack.verdict (t : TimedTrack) (env : Environment) (pts : I64) (onTime : Bool)
    (head : TimedBuffer) : Verdict :=
  if t.mMediaTimeTransform.a_to_b_denom = 0#32 then .paused
  else
    match t.mMediaTimeTransform.doForwardTransform head.mPTS with
    | none => .noTransform
    | some transformedPTS =>
      match (if t.mMediaTimeTransformTarget = .COMMON_TIME then
          env.commonTimeToLocalTime transformedPTS else some transformedPTS) with
      | none => .noLocalTime
      | some headLocalPTS =>
        let delta := t.headDelta env pts head headLocalPTS
        if (1#64 <<< 31).sle (ABS delta) then .tooFar
        else
          match t.mLocalTimeToSampleTransform.doForwardTransform (delta <<< 32) with
          | none => .badLocalToSample
          | some sampleDelta => t.judge env onTime head sampleDelta

/-- The macro `min`. -/
def minFrames (a b : U32) : U32 := if a < b then a else b

/-- Yield the samples of the head. -/
def TimedTrack.timedYieldSamples_l (t : TimedTrack) (head : TimedBuffer) (framesRequested : U32) :
    TimedTrack × Buffer :=
  ({ t with mQueueHeadInFlight := true, mTimedAudioOutputOnTime := true },
    { raw := .memory (head.mBuffer.pointer + head.mPosition.toNat)
      frameCount := minFrames (t.framesLeft head) framesRequested })

def TimedTrack.timedYieldSilence_l (t : TimedTrack) (numFrames framesRequested : U32) :
    TimedTrack × Buffer :=
  let size := numFrames * t.mFrameSize
  let t := if t.mTimedSilenceBufferSize < size then
      { t with mTimedSilenceBuffer := .silence size, mTimedSilenceBufferSize := size }
    else t
  ({ t with mTimedAudioOutputOnTime := false },
    { raw := t.mTimedSilenceBuffer, frameCount := minFrames numFrames framesRequested })

def Buffer.none : Buffer := { raw := .null, frameCount := 0#32 }

/-- The loop of `getNextBuffer` over the queue. -/
def TimedTrack.getNextLoop (env : Environment) (pts : I64) (framesRequested : U32) :
    List TimedBuffer → TimedTrack → TimedTrack × Buffer × Status
  | [], t => (t, .none, .NOT_ENOUGH_DATA)
  | head :: rest, t =>
    let t := t.assert t.mMediaTimeTransformValid .mediaTimeTransformInvalid
    match t.verdict env pts t.mTimedAudioOutputOnTime head with
    | .paused =>
      let (t, buffer) := t.timedYieldSilence_l framesRequested framesRequested
      (t, buffer, .NO_ERROR)
    | .noTransform =>
      (t.trimTimedBufferQueueHead_l "getNextBuffer; no transform", .none, .NO_ERROR)
    | .noLocalTime => (t, .none, .INVALID_OPERATION)
    | .tooFar =>
      getNextLoop env pts framesRequested rest
        (t.trimTimedBufferQueueHead_l "getNextBuffer, buf pts too far from mix")
    | .badLocalToSample =>
      getNextLoop env pts framesRequested rest
        (t.trimTimedBufferQueueHead_l "getNextBuffer, bad local to sample")
    | .onTime =>
      let (t, buffer) := t.timedYieldSamples_l head framesRequested
      (t, buffer, .NO_ERROR)
    | .early framesUntilNextInput =>
      let (t, buffer) := t.timedYieldSilence_l framesUntilNextInput framesRequested
      (t, buffer, .NO_ERROR)
    | .tooLate =>
      getNextLoop env pts framesRequested rest
        ({ t with mTimedAudioOutputOnTime := false }.trimTimedBufferQueueHead_l
          "getNextBuffer, dropped late buffer")
    | .late onTimeSamplePosition =>
      let head := { head with mPosition := onTimeSamplePosition }
      let (t, buffer) := { t with mTimedBufferQueue := head :: rest }.timedYieldSamples_l head
        framesRequested
      (t, buffer, .NO_ERROR)

def TimedTrack.getNextBuffer (t : TimedTrack) (env : Environment) (framesRequested : U32)
    (pts : I64) : TimedTrack × Buffer × Status :=
  if pts = kInvalidPTS then
    ({ t with mTimedAudioOutputOnTime := false }, .none, .INVALID_OPERATION)
  else
    let t := t.assert (!t.mQueueHeadInFlight) .getNextBufferWithoutReleaseBuffer
    TimedTrack.getNextLoop env pts framesRequested t.mTimedBufferQueue t

/-- The buffer lies in the memory, of which it may not be the end. -/
def Buffer.within (buffer : Buffer) (memory : IMemory) : Bool :=
  match buffer.raw with
  | .memory address => memory.pointer ≤ address ∧ address < memory.pointer + memory.size.toNat
  | _ => false

/-- Consume frames of the head, and trim it if it is at its end or was to be trimmed. -/
def TimedTrack.releaseHead (t : TimedTrack) (head : TimedBuffer) (rest : List TimedBuffer)
    (frameCount : U32) : TimedTrack :=
  let head := { head with mPosition := head.mPosition + frameCount * t.mFrameSize }
  let t := { t with mTimedBufferQueue := head :: rest, mQueueHeadInFlight := false }
  let t := t.assert (frameCount ≤ t.mFramesPendingInQueue) .framesPendingDuringReleaseBuffer
  let t := { t with mFramesPendingInQueue := t.mFramesPendingInQueue - frameCount }
  if head.mBuffer.size ≤ head.mPosition ∨ t.mTrimQueueHeadOnRelease then
    { t.trimTimedBufferQueueHead_l "releaseBuffer" with mTrimQueueHeadOnRelease := false }
  else t

def TimedTrack.releaseBuffer (t : TimedTrack) (buffer : Buffer) : TimedTrack :=
  if buffer.raw = t.mTimedSilenceBuffer then
    t.assert (!t.mQueueHeadInFlight) .queueHeadInFlightDuringSilence
  else
    let t := t.assert t.mQueueHeadInFlight .noQueueHeadInFlight
    match t.mTimedBufferQueue with
    | [] => t.assert false .releaseBufferWithNoBuffers
    | head :: rest =>
      (t.assert (buffer.within head.mBuffer) .releasedBufferNotWithinHead).releaseHead head rest
        buffer.frameCount

end AudioFlinger.Timed
