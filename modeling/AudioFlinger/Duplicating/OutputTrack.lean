import AudioFlinger.TrackShared.Session

/-!
# The output track of a duplicating thread

`OutputTrack` is the client and the server side of one track: the duplicating
thread writes mixed frames, the playback thread of the track reads them. What
the data buffer has no room for waits in `mBufferQueue`. A buffer is the list of
frames it still holds; `copied` is a ghost field.
-/

namespace AudioFlinger.Duplicating

open Foundation TrackShared RingMemory

variable {α : Type*}

/-- Maximum number of pending buffers allocated by `OutputTrack::write`. -/
def kMaxOverFlowBuffers : ℕ := 10

/-- The window of the data buffer that was obtained and is not yet filled. -/
structure OutBuffer where
  frameCount : ℕ
  raw : ℕ
  deriving DecidableEq, Repr

structure OutputTrack (α : Type*) where
  mCblk : Cblk
  mBuffer : ℕ → α
  mBufferQueue : List (List α)
  mOutBuffer : OutBuffer
  mActive : Bool
  /-- The playback thread can still be promoted. -/
  mThread : Bool
  /-- The frames copied into the data buffer so far. -/
  copied : List α

/-- The constructor, over whatever the data buffer holds. -/
def OutputTrack.init (mBuffer : ℕ → α) : OutputTrack α where
  mCblk := Cblk.start 0#32
  mBuffer := mBuffer
  mBufferQueue := []
  mOutBuffer := { frameCount := 0, raw := 0 }
  mActive := false
  mThread := true
  copied := []

/-- `mThread.promote()`; once it fails it fails for good. -/
def OutputTrack.promote (t : OutputTrack α) (gone : Bool) : OutputTrack α :=
  { t with mThread := t.mThread && !gone }

/-- `TrackBase::reset`. -/
def OutputTrack.reset (t : OutputTrack α) : OutputTrack α :=
  { t with mCblk := { t.mCblk with user := 0#32, server := 0#32, userBase := 0#32, serverBase := 0#32 } }

/-- `start`; it fails when the playback thread is gone. -/
def OutputTrack.start (t : OutputTrack α) (gone : Bool) : OutputTrack α :=
  let t := t.promote gone
  if t.mThread then { t with mActive := true } else t

/-- `stop`. `resets` says whether `Track::stop` finds the track outside the active ones, not
yet reset. -/
def OutputTrack.stop (t : OutputTrack α) (resets : Bool) : OutputTrack α :=
  let t := if resets then t.reset else t
  { t with
    mBufferQueue := []
    mOutBuffer := { t.mOutBuffer with frameCount := 0 }
    mActive := false }

/-! ## Obtaining a window -/

/-- The wait of `obtainBuffer`. `servers` says where the server is at each look; the wait times
out after the last. The frames available are `0` when it gives up. -/
def awaitFrames (mFrameCount : U32) (mActive : Bool) (cblk : Cblk) : List U32 → Cblk × U32
  | [] => (cblk, 0#32)
  | server :: servers =>
    let cblk := { cblk with server := server }
    if cblk.framesAvailable_l mFrameCount true ≠ 0#32 then
      (cblk, cblk.framesAvailable_l mFrameCount true)
    else if mActive then awaitFrames mFrameCount mActive cblk servers
    else (cblk, 0#32)

/-- The window at `user`, limited by what is available and by the end of the lap. -/
def Cblk.window (cblk : Cblk) (mFrameCount : U32) (framesReq framesAvail : ℕ) : OutBuffer where
  frameCount := min (min framesReq framesAvail) (cblk.userBase + mFrameCount - cblk.user).toNat
  raw := (cblk.user - cblk.userBase).toNat

/-- `obtainBuffer`; the flag says whether there was a window, otherwise the status is
`NO_MORE_BUFFERS`. -/
def OutputTrack.obtainBuffer (t : OutputTrack α) (mFrameCount : U32) (framesReq : ℕ)
    (servers : List U32) : OutputTrack α × Bool :=
  let (cblk, framesAvail) := awaitFrames mFrameCount t.mActive t.mCblk servers
  if framesAvail = 0#32 then
    ({ t with mCblk := cblk, mOutBuffer := { t.mOutBuffer with frameCount := 0 } }, false)
  else
    ({ t with
      mCblk := cblk
      mOutBuffer := Cblk.window cblk mFrameCount framesReq framesAvail.toNat }, true)

/-! ## Writing -/

/-- What one turn of the loop of `write` meets, if it calls `obtainBuffer`. -/
structure Turn where
  servers : List U32
  waitTimeMs : U32
  deriving DecidableEq, Repr

/-- The locals of the loop of `write`. -/
structure Writing (α : Type*) where
  track : OutputTrack α
  inBuffer : List α
  waitTimeLeftMs : U32

/-- First write pending buffers, then new data. -/
def Writing.pInBuffer (w : Writing α) : List α := w.track.mBufferQueue.headD w.inBuffer

/-- Obtain a window unless the last one has room; `none` if there are no more. -/
def Writing.obtain (w : Writing α) (mFrameCount : U32) (turn : Turn) : Writing α × Bool :=
  if w.track.mOutBuffer.frameCount = 0 then
    let (track, ok) := w.track.obtainBuffer mFrameCount w.pInBuffer.length turn.servers
    ({ w with
      track := track
      waitTimeLeftMs :=
        if ok ∧ turn.waitTimeMs ≤ w.waitTimeLeftMs then w.waitTimeLeftMs - turn.waitTimeMs
        else if ok then 0#32
        else w.waitTimeLeftMs }, ok)
  else (w, true)

/-- Copy frames into the window and step the client by as many. -/
def OutputTrack.copyOut (t : OutputTrack α) (mFrameCount : U32) (frames : List α) :
    OutputTrack α :=
  { t with
    mCblk := t.mCblk.stepUser (BitVec.ofNat 32 frames.length) mFrameCount true
    mBuffer := blit t.mBuffer t.mOutBuffer.raw frames
    mOutBuffer :=
      { frameCount := t.mOutBuffer.frameCount - frames.length
        raw := t.mOutBuffer.raw + frames.length }
    copied := t.copied ++ frames }

/-- The copied frames lie in the window, and the rest of the data buffer is as it was. -/
theorem OutputTrack.copyOut_mBuffer (t : OutputTrack α) (mFrameCount : U32) (frames : List α) :
    (∀ j (hj : j < frames.length),
        (t.copyOut mFrameCount frames).mBuffer (t.mOutBuffer.raw + j) = frames[j]) ∧
      ∀ i, i < t.mOutBuffer.raw ∨ t.mOutBuffer.raw + frames.length ≤ i →
        (t.copyOut mFrameCount frames).mBuffer i = t.mBuffer i :=
  ⟨fun _ hj => blit_hit _ _ hj, fun _ => blit_miss⟩

/-- A pending buffer that is used up leaves the queue. -/
def dropFront (outFrames : ℕ) (pending : List α) (rest : List (List α)) : List (List α) :=
  if pending.drop outFrames = [] then rest else pending.drop outFrames :: rest

/-- Fill the window from the buffer in hand. The flag says whether the loop goes on. -/
def Writing.copy (w : Writing α) (mFrameCount : U32) : Writing α × Bool :=
  let outFrames := min w.pInBuffer.length w.track.mOutBuffer.frameCount
  let track := w.track.copyOut mFrameCount (w.pInBuffer.take outFrames)
  match w.track.mBufferQueue with
  | pending :: rest =>
    ({ w with track := { track with mBufferQueue := dropFront outFrames pending rest } }, true)
  | [] =>
    ({ w with track := track, inBuffer := w.inBuffer.drop outFrames },
      !(w.inBuffer.drop outFrames).isEmpty)

/-- The loop ends when the wait is used up or the buffer in hand is empty. -/
def Writing.ended (w : Writing α) : Bool := w.waitTimeLeftMs = 0#32 ∨ w.pInBuffer = []

/-- The loop of `write`; the flag is `outputBufferFull`. `none` means that the loop is still
waiting when the turns run out. -/
def Writing.loop (mFrameCount : U32) (w : Writing α) : List Turn → Option (Writing α × Bool)
  | [] => if w.ended then some (w, false) else none
  | turn :: turns =>
    if w.ended then some (w, false)
    else
      match w.obtain mFrameCount turn with
      | (w, false) => some (w, true)
      | (w, true) =>
        match w.copy mFrameCount with
        | (w, true) => w.loop mFrameCount turns
        | (w, false) => some (w, false)

/-- One call of `write` and what it meets: what the waits in the loop see, at which call of
`promote` the playback thread is gone, whether it is in standby at the end, and whether
`stop` would reset the track. -/
structure Call (α : Type*) where
  data : List α
  waitTimeMs : U32
  turns : List Turn
  goneAtStart : Bool
  goneAtSilence : Bool
  goneAtTail : Bool
  standby : Bool
  resets : Bool

variable [Zero α]

/-- `n` frames of silence. -/
def silence (n : ℕ) : List α := List.replicate n 0

/-- An inactive track is started, with silence before the first frames so that they fill the
data buffer. -/
def OutputTrack.begin (t : OutputTrack α) (mFrameCount : U32) (c : Call α) : OutputTrack α :=
  if t.mActive = false ∧ c.data ≠ [] then
    let t := (t.start c.goneAtStart).promote c.goneAtSilence
    if t.mThread ∧ c.data.length < mFrameCount.toNat ∧
        t.mBufferQueue.length < kMaxOverFlowBuffers then
      { t with mBufferQueue := t.mBufferQueue ++ [silence (mFrameCount.toNat - c.data.length)] }
    else t
  else t

/-- The loop of a call of `write`. -/
def OutputTrack.writing (t : OutputTrack α) (mFrameCount : U32) (c : Call α) :
    Option (Writing α × Bool) :=
  Writing.loop mFrameCount
    { track := t.begin mFrameCount c, inBuffer := c.data, waitTimeLeftMs := c.waitTimeMs } c.turns

/-- Queue what could not be written for next time. -/
def OutputTrack.keepTail (t : OutputTrack α) (inBuffer : List α) (c : Call α) : OutputTrack α :=
  if inBuffer ≠ [] then
    let t := t.promote c.goneAtTail
    if t.mThread ∧ c.standby = false ∧ t.mBufferQueue.length < kMaxOverFlowBuffers then
      { t with mBufferQueue := t.mBufferQueue ++ [inBuffer] }
    else t
  else t

/-- A write of no frames ends the data. When nothing is pending the data buffer is filled up,
so that the playback thread starts the track, or the track is stopped. -/
def OutputTrack.finish (t : OutputTrack α) (mFrameCount : U32) (c : Call α) : OutputTrack α :=
  if c.data = [] ∧ t.mBufferQueue = [] then
    if t.mCblk.user < mFrameCount then
      { t with mBufferQueue := [silence (mFrameCount - t.mCblk.user).toNat] }
    else if t.mActive then t.stop c.resets
    else t
  else t

/-- `write`, which returns whether the output buffer was full. -/
def OutputTrack.write (t : OutputTrack α) (mFrameCount : U32) (c : Call α) :
    Option (OutputTrack α × Bool) :=
  (t.writing mFrameCount c).map fun (w, full) =>
    ((w.track.keepTail w.inBuffer c).finish mFrameCount c, full)

end AudioFlinger.Duplicating
