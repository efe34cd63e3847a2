import Mathlib.Algebra.Order.Ring.Int
import Mathlib.Data.List.Basic

/-!
# The status of one key/value string

What one round of `checkForNewParameters_l` in `libs/audioflinger/Threads.cpp` computes for a
string of a mixer, direct or record thread. The parser of the string and the stream of
the audio HAL are parameters. Of a thread there is what the status depends on and what
the round writes of it; the reconfiguration itself and what is told to effects are
left out.
-/

namespace AudioFlinger.Parameters

def NO_ERROR : ℤ := 0
def BAD_VALUE : ℤ := -22
def INVALID_OPERATION : ℤ := -38
def TIMED_OUT : ℤ := -110

def AUDIO_FORMAT_PCM_16_BIT : BitVec 32 := 0x1#32
def AUDIO_CHANNEL_OUT_STEREO : BitVec 32 := 0x3#32
def AUDIO_DEVICE_NONE : BitVec 32 := 0x0#32
def FCC_2 : ℕ := 2

def audio_is_output_devices (device : BitVec 32) : Bool := !device.msb

def popcount (m : BitVec 32) : ℕ := (List.range 32).countP m.getLsbD

inductive Key
  | keySamplingRate
  | keyFormat
  | keyChannels
  | keyFrameCount
  | keyRouting
deriving DecidableEq

/-- `AudioParameter::getInt` of a string, and the stream that the thread has open. -/
structure Hal (κ η : Type*) where
  getInt : κ → Key → Option (BitVec 32)
  setParameters : η → κ → η × ℤ
  standby : η → η
  getFormat : η → BitVec 32
  getSampleRate : η → BitVec 32
  getChannels : η → BitVec 32

/-- `status` and `reconfig` while the keys are looked at. -/
structure Check where
  status : ℤ
  reconfig : Bool
deriving DecidableEq

/-- One key: if it is there, its value is refused, or the thread is reconfigured. -/
def Check.on (value : Option (BitVec 32)) (refused : BitVec 32 → Option ℤ) (c : Check) : Check :=
  match value with
  | none => c
  | some v =>
    match refused v with
    | some status => { c with status := status }
    | none => { c with reconfig := true }

variable {κ η : Type*}

/-! ## Output threads -/

/-- `reconfig` is the loop's own, for all strings of one call. -/
structure Output (η : Type*) where
  stream : η
  mStandby : Bool
  mOutDevice : BitVec 32
  mTracks : ℕ
  reconfig : Bool

/-- `set_parameters`, once more in standby if the stream asks for it. -/
def Output.setParameters (hal : Hal κ η) (keyValuePair : κ) (o : Output η) : Output η × ℤ :=
  let (stream, status) := hal.setParameters o.stream keyValuePair
  if !o.mStandby && status = INVALID_OPERATION then
    let (stream, status) := hal.setParameters (hal.standby stream) keyValuePair
    ({ o with
      stream := stream
      mStandby := true }, status)
  else ({ o with stream := stream }, status)

def Output.frameCount (o : Output η) (_ : BitVec 32) : Option ℤ :=
  if o.mTracks ≠ 0 then some INVALID_OPERATION else none

/-- The stream is asked if the keys are not refused. -/
def Output.ask (hal : Hal κ η) (keyValuePair : κ) (c : Check) (o : Output η) : Output η × ℤ :=
  let o := { o with reconfig := c.reconfig }
  if c.status = NO_ERROR then o.setParameters hal keyValuePair else (o, c.status)

def mixerCheck (hal : Hal κ η) (keyValuePair : κ) (o : Output η) : Check :=
  ((((⟨NO_ERROR, o.reconfig⟩ : Check).on (hal.getInt keyValuePair .keySamplingRate) fun _ => none).on
      (hal.getInt keyValuePair .keyFormat) fun v => if v ≠ AUDIO_FORMAT_PCM_16_BIT then some BAD_VALUE else none).on
      (hal.getInt keyValuePair .keyChannels) fun v => if v ≠ AUDIO_CHANNEL_OUT_STEREO then some BAD_VALUE else none).on
      (hal.getInt keyValuePair .keyFrameCount) o.frameCount

/-- A mixer thread's round. -/
def mixerRound (hal : Hal κ η) (keyValuePair : κ) (o : Output η) : Output η × ℤ :=
  let c := mixerCheck hal keyValuePair o
  let o :=
    match hal.getInt keyValuePair .keyRouting with
    | some value => if value ≠ AUDIO_DEVICE_NONE then { o with mOutDevice := value } else o
    | none => o
  o.ask hal keyValuePair c

/-- A direct thread's round. -/
def directRound (hal : Hal κ η) (keyValuePair : κ) (o : Output η) : Output η × ℤ :=
  o.ask hal keyValuePair
    ((⟨NO_ERROR, o.reconfig⟩ : Check).on (hal.getInt keyValuePair .keyFrameCount) o.frameCount)

/-! ## Record threads -/

structure Input (η : Type*) where
  stream : η
  mFormat : BitVec 32
  mReqSampleRate : BitVec 32
  mReqChannelCount : ℕ
  mActiveTrack : Bool
  mOutDevice : BitVec 32
  mInDevice : BitVec 32
  reconfig : Bool

def Input.setParameters (hal : Hal κ η) (keyValuePair : κ) (i : Input η) : Input η × ℤ :=
  let (stream, status) := hal.setParameters i.stream keyValuePair
  if status = INVALID_OPERATION then
    let (stream, status) := hal.setParameters (hal.standby stream) keyValuePair
    ({ i with stream := stream }, status)
  else ({ i with stream := stream }, status)

/-- What the stream refuses but the thread can convert to. -/
def Input.converts (hal : Hal κ η) (reqFormat reqSamplingRate : BitVec 32) (reqChannelCount : ℕ)
    (i : Input η) : Bool :=
  reqFormat = hal.getFormat i.stream && reqFormat = AUDIO_FORMAT_PCM_16_BIT &&
    hal.getSampleRate i.stream ≤ 2 * reqSamplingRate && popcount (hal.getChannels i.stream) ≤ FCC_2 &&
    reqChannelCount ≤ FCC_2

/-- A record thread's round. -/
def recordRound (hal : Hal κ η) (keyValuePair : κ) (i : Input η) : Input η × ℤ :=
  let reqSamplingRate := (hal.getInt keyValuePair .keySamplingRate).getD i.mReqSampleRate
  let reqFormat := (hal.getInt keyValuePair .keyFormat).getD i.mFormat
  let reqChannelCount := ((hal.getInt keyValuePair .keyChannels).map popcount).getD i.mReqChannelCount
  let c :=
    ((((⟨NO_ERROR, i.reconfig⟩ : Check).on (hal.getInt keyValuePair .keySamplingRate) fun _ => none).on
        (hal.getInt keyValuePair .keyFormat) fun _ => none).on
        (hal.getInt keyValuePair .keyChannels) fun _ => none).on
        (hal.getInt keyValuePair .keyFrameCount) fun _ => if i.mActiveTrack then some INVALID_OPERATION else none
  let (i, status) :=
    match hal.getInt keyValuePair .keyRouting with
    | some value =>
      if audio_is_output_devices value then ({ i with mOutDevice := value }, BAD_VALUE)
      else ({ i with mInDevice := value }, c.status)
    | none => (i, c.status)
  let i := { i with reconfig := c.reconfig }
  if status = NO_ERROR then
    let (i, status) := i.setParameters hal keyValuePair
    if c.reconfig && status = BAD_VALUE && i.converts hal reqFormat reqSamplingRate reqChannelCount then (i, NO_ERROR)
    else (i, status)
  else (i, status)

/-! ## The three loops -/

inductive Thread (η : Type*)
  | mixer (output : Output η)
  | direct (output : Output η)
  | record (input : Input η)

/-- One round of the thread's `checkForNewParameters_l`. -/
def Thread.round (hal : Hal κ η) (keyValuePair : κ) : Thread η → Thread η × ℤ
  | mixer o =>
    let (o, status) := mixerRound hal keyValuePair o
    (mixer o, status)
  | direct o =>
    let (o, status) := directRound hal keyValuePair o
    (direct o, status)
  | record i =>
    let (i, status) := recordRound hal keyValuePair i
    (record i, status)

end AudioFlinger.Parameters
