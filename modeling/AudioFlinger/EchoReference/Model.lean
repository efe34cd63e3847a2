import Mathlib.Data.Int.Bitwise
import Mathlib.Data.Int.DivMod
import AudioFlinger.Foundation.Windows
import AudioFlinger.Foundation.Machine

/-!
# The echo reference

`libs/audio_utils/echo_reference.c`: the frames that are played back are written to a buffer and read
as the reference of an echo canceller. A copy or a fill beyond an allocation fails, and so
does a division by zero. The `memcpy` that moves the frames in the buffer down, between places that
can overlap, copies as `memmove` does. The resampler is an input: whether it can be created, the frames
it produces and its delay. Allocation succeeds; new memory is not initialized.
-/

namespace AudioFlinger.EchoReference

open Foundation

/-- One sample for each channel. -/
abbrev Frame := List (BitVec 16)

structure TimeSpec where
  tv_sec : ℤ
  tv_nsec : ℤ
deriving DecidableEq

def TimeSpec.zero : TimeSpec := ⟨0, 0⟩

/-- What `create_echo_reference` accepts, and the width of `size_t` and `long`. -/
structure Config where
  rd_channel_count : ℕ
  rd_sampling_rate : ℕ
  wr_sampling_rate : ℕ
  wordBits : ℕ
  channels : rd_channel_count = 1 ∨ rd_channel_count = 2
  wide : 32 ≤ wordBits

def AUDIO_FORMAT_PCM_16_BIT : BitVec 32 := 1#32

def wr_channel_count : ℕ := 2

def create_echo_reference (wordBits : {w : ℕ // 32 ≤ w}) (rdFormat rdChannelCount rdSamplingRate wrFormat
    wrChannelCount wrSamplingRate : BitVec 32) : Option Config :=
  if rdFormat ≠ AUDIO_FORMAT_PCM_16_BIT ∨ rdFormat ≠ wrFormat then none
  else if h : (rdChannelCount.toNat = 1 ∨ rdChannelCount.toNat = 2) ∧ wrChannelCount.toNat = wr_channel_count then
    some {
      rd_channel_count := rdChannelCount.toNat
      rd_sampling_rate := rdSamplingRate.toNat
      wr_sampling_rate := wrSamplingRate.toNat
      wordBits := wordBits.1
      channels := h.1
      wide := wordBits.2 }
  else none

/-- The state; cells that were not written yet are `none`. -/
structure Reference where
  reading : Bool
  writing : Bool
  buffer : List (Option Frame)
  buf_size : ℕ
  frames_in : ℕ
  wr_buf : List (Option Frame)
  wr_buf_size : ℕ
  wr_render_time : TimeSpec
  playback_delay : ℤ
  prev_delta_sign : ℤ
  delta_count : ℕ
  resampler : Bool
deriving DecidableEq

def Reference.new : Reference := ⟨false, false, [], 0, 0, [], 0, .zero, 0, 0, 0, false⟩

def MIN_DELAY_DELTA_NS : ℤ := 375000 * 2

def MIN_DELTA_NUM : ℕ := 4

def RESAMPLER_HEADROOM_SAMPLES : ℕ := 10

def ENODEV : ℤ := 19

def toInt32 (x : ℤ) : ℤ := Int.bmod x (2 ^ 32)

def toInt64 (x : ℤ) : ℤ := Int.bmod x (2 ^ 64)

/-- `abs` takes an `int`. -/
def abs (x : ℤ) : ℤ := if toInt32 x < 0 then toInt32 (-toInt32 x) else toInt32 x

namespace Config

variable (c : Config)

/-- Two bytes for each sample. -/
def rd_frame_size : ℕ := 2 * c.rd_channel_count

def toLong (x : ℤ) : ℤ := Int.bmod x (2 ^ c.wordBits)

def toSize (x : ℤ) : ℕ := (x % 2 ^ c.wordBits).toNat

/-- The frames in `n * rd_frame_size` bytes, a `size_t`. -/
def span (n : ℕ) : ℕ := n * c.rd_frame_size % 2 ^ c.wordBits / c.rd_frame_size

/-- A division of unsigned numbers. -/
def div (a b : ℕ) : Option ℕ := if b = 0 then none else some (a / b)

/-- The frames that are asked of the resampler. -/
def requested (frame_count : ℕ) : Option ℕ :=
  (div (frame_count * c.rd_sampling_rate % 2 ^ c.wordBits) c.wr_sampling_rate).map fun n =>
    (n + RESAMPLER_HEADROOM_SAMPLES) % 2 ^ c.wordBits

def resamples : Bool := c.rd_sampling_rate ≠ c.wr_sampling_rate

def downmixes : Bool := c.rd_channel_count ≠ wr_channel_count

/-- `(int16_t)(((int32_t)*src16 + (int32_t)*(src16 + 1)) >> 1)` -/
def downmixed (frame : BitVec 16 × BitVec 16) : Frame :=
  [((frame.1.signExtend 32 + frame.2.signExtend 32).sshiftRight 1).setWidth 16]

/-- A frame of the writer as one of the reader. -/
def convert (frame : BitVec 16 × BitVec 16) : Frame := if c.downmixes then downmixed frame else [frame.1, frame.2]

def silence : Frame := List.replicate c.rd_channel_count 0#16

end Config

/-- The buffer given to `echo_reference_write`. -/
structure Written where
  raw : List (BitVec 16 × BitVec 16)
  delay_ns : ℤ
  time_stamp : TimeSpec
deriving DecidableEq

/-- The buffer given to `echo_reference_read`. -/
structure Wanted where
  frame_count : ℕ
  delay_ns : ℤ
  time_stamp : TimeSpec
deriving DecidableEq

namespace Reference

def reset_l (er : Reference) : Reference := { er with
  buffer := []
  buf_size := 0
  frames_in := 0
  wr_buf := []
  wr_buf_size := 0
  wr_render_time := .zero
  delta_count := 0
  prev_delta_sign := 0 }

variable (c : Config) (er : Reference)

/-! ## Writing -/

def stopWrite : Reference := { er.reset_l with writing := false }

/-- The end of `echo_reference_write`; the growth of the buffer is commented out. -/
def appendFrames (srcBuf : List (Option Frame)) (inFrames : ℕ) : Option Reference := do
  let src ← Cells.slice srcBuf 0 (c.span inFrames)
  let buffer ← Cells.fill er.buffer (c.span er.frames_in) src
  return { er with
    buffer := buffer
    frames_in := (er.frames_in + inFrames) % 2 ^ c.wordBits }

/-- `wr_buf` grows if it has to. -/
def growWrBuf (wrBufSize : ℕ) : Reference :=
  if er.wr_buf_size < wrBufSize then { er with
    wr_buf_size := wrBufSize
    wr_buf := Cells.resize none er.wr_buf (c.span wrBufSize) }
  else er

/-- Stereo to mono. -/
def downmix (b : Written) : Option Reference :=
  if c.downmixes then
    (Cells.fill er.wr_buf 0 (b.raw.map fun frame => some (Config.downmixed frame))).map fun wr_buf =>
      { er with wr_buf := wr_buf }
  else some er

/-- The conversions of a write, and the frames that they leave in `wr_buf`; without a number of
frames the resampler could not be created. -/
def convertFrames (b : Written) (creates : Bool) (produced : List Frame) : Option (Option ℕ × Reference) := do
  let frame_count := b.raw.length
  if c.resamples then
    let inFrames ← c.requested frame_count
    let er := er.growWrBuf c (max frame_count inFrames)
    let er ← er.downmix c b
    if !er.resampler && !creates then return (none, er)
    let wr_buf ← Cells.fill er.wr_buf 0 (produced.map some)
    return (some produced.length, { er with
      wr_buf := wr_buf
      resampler := true })
  else
    let er := er.growWrBuf c frame_count
    let er ← er.downmix c b
    return (some frame_count, er)

/-- The status and the state. -/
def echo_reference_write (b : Written) (creates : Bool) (produced : List Frame) : Option (ℤ × Reference) := do
  if b.time_stamp = .zero ∧ er.wr_render_time = .zero then return (0, er)
  let er : Reference := { er with writing := true }
  if !er.reading then return (0, er)
  let er : Reference := { er with
    wr_render_time := b.time_stamp
    playback_delay := b.delay_ns }
  if c.downmixes || c.resamples then
    match ← er.convertFrames c b creates produced with
    | (none, er) => return (-ENODEV, er)
    | (some inFrames, er) => return (0, ← er.appendFrames c er.wr_buf inFrames)
  else return (0, ← er.appendFrames c (b.raw.map fun frame => some (c.convert frame)) b.raw.length)

/-! ## Reading -/

def stopRead : Reference := { er with reading := false }

/-- The delay that the fill level should have, none when a time stamp is missing. -/
def expectedDelayNs (b : Wanted) (rsmp_delay : ℤ) : Option ℤ :=
  if er.wr_render_time = .zero ∨ b.time_stamp = .zero then none
  else
    let tmp : TimeSpec :=
      if b.time_stamp.tv_nsec < er.wr_render_time.tv_nsec then
        ⟨c.toLong (b.time_stamp.tv_sec - er.wr_render_time.tv_sec - 1),
          c.toLong (1000000000 + b.time_stamp.tv_nsec - er.wr_render_time.tv_nsec)⟩
      else ⟨c.toLong (b.time_stamp.tv_sec - er.wr_render_time.tv_sec),
        c.toLong (b.time_stamp.tv_nsec - er.wr_render_time.tv_nsec)⟩
    let timeDiff := toInt64 (tmp.tv_sec * 1000000000 + tmp.tv_nsec)
    let expected := toInt64 (toInt32 (er.playback_delay + b.delay_ns) - timeDiff)
    some (if er.resampler then toInt64 (expected - rsmp_delay) else expected)

/-- The fill level is set, with silence added at the end or frames dropped at the front. -/
def moveLevel (expected deltaNs : ℤ) : Option Reference := do
  let previousFrameIn := er.frames_in
  let er : Reference := { er with
    frames_in := c.toSize ((toInt64 (expected * c.rd_sampling_rate)).tdiv 1000000000) }
  let offset := toInt32 (er.frames_in - previousFrameIn)
  if deltaNs < 0 then
    let er : Reference := if er.frames_in > er.buf_size then { er with
        buf_size := er.frames_in
        buffer := Cells.resize none er.buffer (c.span er.frames_in) }
      else er
    if offset > 0 then
      let silence := List.replicate (c.span offset.toNat) (some c.silence)
      return { er with buffer := ← Cells.fill er.buffer (c.span previousFrameIn) silence }
    else return er
  else
    let offset := toInt32 (-offset)
    if offset > 0 then
      let src ← Cells.slice er.buffer (c.span offset.toNat) (c.span er.frames_in)
      return { er with buffer := ← Cells.fill er.buffer 0 src }
    else return er

/-- The delay of the frames in the buffer. -/
def delayNs : ℤ := (toInt64 (er.frames_in * 1000000000)).tdiv c.rd_sampling_rate

/-- The number of reads in a row, up to this one, whose deviation has this sign. -/
def nextDeltaCount (delay_sign : ℤ) : ℕ :=
  if delay_sign = er.prev_delta_sign then (er.delta_count + 1) % 2 ^ 16 else 1

/-- The delay correction. -/
def correctDelay (expected : ℤ) : Option Reference :=
  if expected > 0 then
    if c.rd_sampling_rate = 0 then none
    else
      let deltaNs := toInt64 (er.delayNs c - expected)
      if abs deltaNs ≥ MIN_DELAY_DELTA_NS then
        let delay_sign := if deltaNs ≥ 0 then 1 else -1
        let er : Reference := { er with
          delta_count := er.nextDeltaCount delay_sign
          prev_delta_sign := delay_sign }
        if er.delta_count > MIN_DELTA_NUM then er.moveLevel c expected deltaNs else some er
      else some { er with
        delta_count := 0
        prev_delta_sign := 0 }
  else some er

/-- The correction, when both time stamps are there. -/
def alignDelay (b : Wanted) (rsmp_delay : ℤ) : Option Reference :=
  match er.expectedDelayNs c b rsmp_delay with
  | none => some er
  | some expected => er.correctDelay c expected

/-- A short buffer is filled with silence up to `frame_count`. -/
def fillUp (frame_count : ℕ) : Option Reference :=
  if er.frames_in < frame_count then
    let er : Reference := if frame_count > er.buf_size then { er with
        buf_size := frame_count
        buffer := Cells.resize none er.buffer (c.span frame_count) }
      else er
    let silence := List.replicate (c.span (frame_count - er.frames_in)) (some c.silence)
    (Cells.fill er.buffer (c.span er.frames_in) silence).map fun buffer => { er with
      buffer := buffer
      frames_in := frame_count }
  else some er

/-- The frames for the reader, and the others moved to the front. -/
def takeFrames (frame_count : ℕ) : Option (List (Option Frame) × Reference) := do
  let raw ← Cells.slice er.buffer 0 (c.span frame_count)
  let rest ← Cells.slice er.buffer (c.span frame_count) (c.span (er.frames_in - frame_count))
  return (raw, { er with
    buffer := ← Cells.fill er.buffer 0 rest
    frames_in := er.frames_in - frame_count })

/-- Reading begins. -/
def startRead : Reference := if er.reading then er else { er.reset_l with reading := true }

/-- What is in the buffer of the reader, and the state. -/
def echo_reference_read (b : Wanted) (rsmp_delay : ℤ) : Option (List (Option Frame) × Reference) := do
  let er := er.startRead
  if !er.writing then return (List.replicate b.frame_count (some c.silence), er)
  -- the time that the reader would wait is computed and not used
  if er.frames_in < b.frame_count ∧ c.rd_sampling_rate = 0 then none
  let er ← er.alignDelay c b rsmp_delay
  let er ← er.fillUp c b.frame_count
  er.takeFrames c b.frame_count

end Reference

/-! ## Runs -/

inductive Call
  | stopWrite
  | write (b : Written) (creates : Bool) (produced : List Frame)
  | stopRead
  | read (b : Wanted) (rsmp_delay : ℤ)

inductive Out
  | status (status : ℤ)
  | frames (raw : List (Option Frame))
deriving DecidableEq

structure World where
  er : Reference
  log : List (Call × Out)

namespace World

def new : World := ⟨.new, []⟩

/-- What a call answers, and the state after it. -/
def call (c : Config) (er : Reference) : Call → Option (Out × Reference)
  | .stopWrite => some (.status 0, er.stopWrite)
  | .write b creates produced => (er.echo_reference_write c b creates produced).map fun r => (.status r.1, r.2)
  | .stopRead => some (.status 0, er.stopRead)
  | .read b rsmp_delay => (er.echo_reference_read c b rsmp_delay).map fun r => (.frames r.1, r.2)

def step (c : Config) (w : World) (op : Call) : Option World :=
  (call c w.er op).map fun r => ⟨r.2, w.log ++ [(op, r.1)]⟩

end World

/-! ## The calls that fit -/

/-- The buffers of the callers have an address for each of their bytes, and the resampler produces
no more frames than it was asked for. -/
def Proper (c : Config) : Call → Prop
  | .write b _ produced => b.raw.length * 4 < 2 ^ c.wordBits ∧
      (c.resamples = true → ∀ n ∈ c.requested b.raw.length, produced.length ≤ n)
  | .read b _ => b.frame_count * c.rd_frame_size < 2 ^ c.wordBits
  | _ => True

instance (c : Config) (op : Call) : Decidable (Proper c op) := by
  cases op <;> unfold Proper <;> infer_instance

namespace Reference

variable (c : Config) (er : Reference)

/-- This read moves the fill level. -/
def Corrects (expected : ℤ) : Prop :=
  let deltaNs := toInt64 (er.delayNs c - expected)
  abs deltaNs ≥ MIN_DELAY_DELTA_NS ∧ er.nextDeltaCount (if deltaNs ≥ 0 then 1 else -1) > MIN_DELTA_NUM

instance (expected : ℤ) : Decidable (er.Corrects c expected) := inferInstanceAs (Decidable (_ ∧ _))

/-- The fill level that the expected delay stands for. -/
def level (expected : ℤ) : ℤ := expected * c.rd_sampling_rate / 1000000000

/-- No product of the delay correction overflows, and the level that it sets and the change of the
level fit in their types. -/
def LevelFits (expected : ℤ) : Prop :=
  c.rd_sampling_rate ≠ 0 ∧ (er.frames_in : ℤ) * 1000000000 < 2 ^ 63 ∧
    (er.Corrects c expected → expected * c.rd_sampling_rate < 2 ^ 63 ∧
      level c expected * c.rd_frame_size < 2 ^ c.wordBits ∧
      level c expected - er.frames_in < 2 ^ 31 ∧ er.frames_in - level c expected < 2 ^ 31)

instance (expected : ℤ) : Decidable (er.LevelFits c expected) := inferInstanceAs (Decidable (_ ∧ _))

/-- What a write asks of the resampler does not overflow, and what it appends fits in the buffer as it
is; a read divides by a rate, and its delay correction does not overflow. -/
def Fits : Call → Prop
  | .write b creates produced =>
    b.time_stamp = .zero ∧ er.wr_render_time = .zero ∨ er.reading = false ∨
      (c.resamples = true → c.wr_sampling_rate ≠ 0 ∧ b.raw.length * c.rd_sampling_rate < 2 ^ c.wordBits ∧
        (b.raw.length * c.rd_sampling_rate / c.wr_sampling_rate + RESAMPLER_HEADROOM_SAMPLES) *
          c.rd_frame_size < 2 ^ c.wordBits) ∧
      (c.resamples = true ∧ er.resampler = false ∧ creates = false ∨
        er.frames_in + (if c.resamples then produced.length else b.raw.length) ≤ er.buf_size)
  | .read b rsmp_delay =>
    er.writing = false ∨
      (er.startRead.frames_in < b.frame_count → c.rd_sampling_rate ≠ 0) ∧
      ∀ expected ∈ er.startRead.expectedDelayNs c b rsmp_delay, 0 < expected → er.startRead.LevelFits c expected
  | _ => True

instance (op : Call) : Decidable (er.Fits c op) := by
  cases op <;> unfold Fits <;> infer_instance

end Reference

def World.Allowed (c : Config) (w : World) (op : Call) : Prop := Proper c op ∧ w.er.Fits c op

instance (c : Config) (w : World) (op : Call) : Decidable (w.Allowed c op) := inferInstanceAs (Decidable (_ ∧ _))

end AudioFlinger.EchoReference
