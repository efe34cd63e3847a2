import AudioFlinger.Resampler.Model

/-!
# The windowed-sinc resampler

`AudioResamplerSinc` keeps twice the frames of its filter. A pointer slides
over them, and the later half is copied to the front when it comes to the end.
Pointers into `mState` are offsets, and an access outside the state buffer or
outside the samples of the chunk is `none`. The filter is the one without NEON.
-/

namespace AudioFlinger.Resampler

open Mixer (I16 I32 I64 kInvalidPTS)

/-- A frame of `CHANNELS` samples. -/
abbrev Frame (CHANNELS : ℕ) := Fin CHANNELS → I16

def Frame.sample {CHANNELS : ℕ} (frame : Frame CHANNELS) (i : ℕ) : I16 :=
  if h : i < CHANNELS then frame ⟨i, h⟩ else 0#16

structure Sinc.Constants where
  cShift : ℕ
  cMask : U32
  pShift : ℕ
  pMask : U32
  halfNumCoefs : ℕ
  deriving DecidableEq, Repr

structure Sinc (CHANNELS : ℕ) where
  mConstants : Sinc.Constants
  /-- The tables for upsampling and for downsampling. -/
  coefs : Bool → ℕ → I32
  mSampleRate : I32
  mInSampleRate : I32
  mVolumeRL : U32
  mInputIndex : ℕ
  mPhaseIncrement : I32
  mPhaseFraction : U32
  mLocalTimeFreq : BitVec 64
  mPTS : I64
  mState : ℕ → I16
  mImpulse : ℕ
  mRingFull : ℕ
  mBuffer : Buffer
  /-- The calls of the provider. -/
  calls : List (Call (Frame CHANNELS))

/-- The local copies of `resample`. -/
structure Sinc.Locals where
  impulse : ℕ
  inputIndex : ℕ
  phaseFraction : U32
  deriving DecidableEq, Repr

/-- A call of `filterCoefficient`: the frames that its rounds read backwards and forwards. -/
structure Tap (CHANNELS : ℕ) where
  phase : U32
  frames : List (Frame CHANNELS × Frame CHANNELS)

variable {CHANNELS : ℕ}

/-! ## The state buffer -/

/-- Half the state buffer, in samples. -/
def Sinc.halfState (s : Sinc CHANNELS) : ℕ := s.mConstants.halfNumCoefs * 2 * CHANNELS

def Sinc.stateSize (s : Sinc CHANNELS) : ℕ := 2 * s.mConstants.halfNumCoefs * CHANNELS * 2

def Sinc.init (s : Sinc CHANNELS) : Sinc CHANNELS :=
  let mImpulse := (s.mConstants.halfNumCoefs - 1) * CHANNELS
  { s with
    mState := fun _ => 0#16
    mImpulse := mImpulse
    mRingFull := mImpulse + (2 * s.mConstants.halfNumCoefs + 1) * CHANNELS }

def Sinc.frameAt (s : Sinc CHANNELS) (a : ℕ) : Option (Frame CHANNELS) :=
  if a + CHANNELS ≤ s.stateSize then some fun i => s.mState (a + i) else none

/-- `for (i < n) head[i] = in[first + i]`. -/
def copySamples (size : ℕ) (input : List I16) (first head : ℕ) :
    ℕ → (ℕ → I16) → Option (ℕ → I16)
  | 0, mem => some mem
  | n + 1, mem => do
    let mem ← copySamples size input first head n mem
    let x ← input[first + n]?
    if head + n < size then some (Function.update mem (head + n) x) else none

/-- A frame of the chunk written at the head. -/
def Sinc.writeHead (s : Sinc CHANNELS) (impulse inputIndex : ℕ) : Option (Sinc CHANNELS) := do
  let head := impulse + s.mConstants.halfNumCoefs * CHANNELS
  let mState ← copySamples s.stateSize s.mBuffer.i16 (inputIndex * CHANNELS) head CHANNELS s.mState
  some { s with mState := mState }

def Sinc.read (s : Sinc CHANNELS) (c : Sinc.Locals) (inputIndex : ℕ) :
    Option (Sinc CHANNELS × Sinc.Locals) := do
  let impulse := c.impulse + CHANNELS
  let c := { c with phaseFraction := c.phaseFraction - 1#32 <<< kNumPhaseBits }
  if s.mRingFull ≤ impulse then
    let stateSize := s.halfState
    let s := { s with
      mState := fun a => if a < stateSize then s.mState (stateSize + a) else s.mState a }
    let c := { c with impulse := impulse - stateSize }
    some (← s.writeHead c.impulse inputIndex, c)
  else some (← s.writeHead impulse inputIndex, { c with impulse := impulse })

/-! ## The filter -/

/-- `a + ((v * in) >> 16)`. -/
def Sinc.mulAdd (input : I16) (v a : I32) : I32 :=
  a + ((v.signExtend 64 * input.signExtend 64).sshiftRight 16).setWidth 32

def Sinc.mulRL (left : Bool) (input : I32) (vRL : U32) : I32 :=
  let v : I16 := if left then vRL.setWidth 16 else (vRL >>> 16).setWidth 16
  ((input.signExtend 64 * v.signExtend 64).sshiftRight 16).setWidth 32

def Sinc.interpolate (lr : I32 × I32) (coefs : ℕ → I32) (first offset : ℕ) (lerp : U32)
    (samples : Frame CHANNELS) : I32 × I32 :=
  let c0 := coefs first
  let c1 := coefs (first + offset)
  let sinc := mulAdd (lerp.setWidth 16) ((c1 - c0) <<< 1) c0
  if CHANNELS = 2 then (mulAdd (samples.sample 0) sinc lr.1, mulAdd (samples.sample 1) sinc lr.2)
  else
    let l := mulAdd (samples.sample 0) sinc lr.1
    (l, l)

/-- The frames at and before `samples`, and after it. -/
def Sinc.around (s : Sinc CHANNELS) (samples : ℕ) :
    Option (List (Frame CHANNELS × Frame CHANNELS)) :=
  (List.range s.mConstants.halfNumCoefs).mapM fun i =>
    if i * CHANNELS ≤ samples then do
      some (← s.frameAt (samples - i * CHANNELS), ← s.frameAt (samples + (i + 1) * CHANNELS))
    else none

/-- What `filterCoefficient` adds to a frame of `out`. -/
def Sinc.filtered (s : Sinc CHANNELS) (tap : Tap CHANNELS) : I32 × I32 :=
  let c := s.mConstants
  let mFirCoefs := s.coefs (s.mInSampleRate.sle s.mSampleRate)
  let ONE := c.cMask ||| c.pMask
  let offset := c.halfNumCoefs
  let lerpP := (tap.phase &&& c.pMask) >>> c.pShift
  let lerpN := ((ONE - tap.phase) &&& c.pMask) >>> c.pShift
  let indexP := (((tap.phase &&& c.cMask) >>> c.cShift) * BitVec.ofNat 32 offset).toNat
  let indexN := ((((ONE - tap.phase) &&& c.cMask) >>> c.cShift) * BitVec.ofNat 32 offset).toNat
  let lr := tap.frames.zipIdx.foldl
    (fun lr (frames, i) =>
      interpolate (interpolate lr mFirCoefs (indexP + i) offset lerpP frames.1) mFirCoefs
        (indexN + i) offset lerpN frames.2)
    (0#32, 0#32)
  (2#32 * mulRL true lr.1 s.mVolumeRL, 2#32 * mulRL false lr.2 s.mVolumeRL)

def Sinc.filterCoefficient (s : Sinc CHANNELS) (phase : U32) (samples : ℕ) :
    Option (Tap CHANNELS × (I32 × I32)) := do
  let tap := { phase := phase, frames := ← s.around samples }
  some (tap, s.filtered tap)

/-! ## The chunks -/

def Sinc.calculateOutputPTS (s : Sinc CHANNELS) (outputFrameIndex : ℕ) : I64 :=
  if s.mPTS = kInvalidPTS then kInvalidPTS
  else s.mPTS +
    BitVec.ofNat 64 outputFrameIndex * s.mLocalTimeFreq / s.mSampleRate.signExtend 64

/-- A `NULL` answer has no frames. -/
def Sinc.getNextBuffer (s : Sinc CHANNELS) (p : Provider (Frame CHANNELS)) (frameCount : U32)
    (pts : I64) : Sinc CHANNELS :=
  let answer := p.answer s.calls frameCount pts
  { s with
    mBuffer :=
      { raw := answer.map (List.flatMap List.ofFn), frameCount := (answer.getD []).length }
    calls := s.calls ++ [.getNextBuffer frameCount pts answer] }

def Sinc.releaseBuffer (s : Sinc CHANNELS) : Sinc CHANNELS :=
  { s with
    mBuffer := { raw := none, frameCount := 0 }
    calls := s.calls ++ [.releaseBuffer s.mBuffer.frameCount] }

/-- Fetch a buffer and read the frames that are due; `false` when there is none. -/
def Sinc.fetch (p : Provider (Frame CHANNELS)) (inFrameCount : U32) (outputFrameIndex : ℕ) :
    ℕ → Sinc CHANNELS → Sinc.Locals → Option (Bool × Sinc CHANNELS × Sinc.Locals)
  | 0, _, _ => none
  | fuel + 1, s, c =>
    if s.mBuffer.frameCount ≠ 0 then some (true, s, c)
    else
      let s := s.getNextBuffer p inFrameCount (s.calculateOutputPTS outputFrameIndex)
      if s.mBuffer.raw = none then some (false, s, c)
      else
        let phaseIndex := c.phaseFraction >>> kNumPhaseBits
        if phaseIndex = 1#32 then do
          let (s, c) ← s.read c c.inputIndex
          fetch p inFrameCount outputFrameIndex fuel s c
        else if phaseIndex = 2#32 then do
          let (s, c) ← s.read c c.inputIndex
          let c := { c with inputIndex := c.inputIndex + 1 }
          if s.mBuffer.frameCount ≤ c.inputIndex then
            fetch p inFrameCount outputFrameIndex fuel s.releaseBuffer
              { c with inputIndex := c.inputIndex - s.mBuffer.frameCount }
          else
            let (s, c) ← s.read c c.inputIndex
            fetch p inFrameCount outputFrameIndex fuel s c
        else fetch p inFrameCount outputFrameIndex fuel s c

/-! ## Resampling -/

/-- `for (i < phaseIndex)`; `false` when the chunk is done. -/
def Sinc.advance : ℕ → Sinc CHANNELS → Sinc.Locals → Option (Bool × Sinc CHANNELS × Sinc.Locals)
  | 0, s, c => some (true, s, c)
  | n + 1, s, c =>
    let c := { c with inputIndex := c.inputIndex + 1 }
    if s.mBuffer.frameCount ≤ c.inputIndex then some (false, s, c)
    else do
      let (s, c) ← s.read c c.inputIndex
      advance n s c

/-- The loop over at most `n` frames of `out` in the chunk that is there. -/
def Sinc.drain : ℕ → Sinc CHANNELS → Sinc.Locals →
    Option (List (Tap CHANNELS × (I32 × I32)) × Sinc CHANNELS × Sinc.Locals)
  | 0, s, c => some ([], s, c)
  | n + 1, s, c => do
    let frame ← s.filterCoefficient c.phaseFraction c.impulse
    let c : Sinc.Locals := { c with phaseFraction := c.phaseFraction + s.mPhaseIncrement }
    let phaseIndex := c.phaseFraction >>> kNumPhaseBits
    let (more, s, c) ← Sinc.advance phaseIndex.toNat s c
    if more then
      let (out, s, c) ← drain n s c
      some (frame :: out, s, c)
    else some ([frame], s, c)

/-- If done with the buffer, release it. -/
def Sinc.finish (s : Sinc CHANNELS) (c : Sinc.Locals) : Sinc CHANNELS × Sinc.Locals :=
  if s.mBuffer.frameCount ≤ c.inputIndex then
    (s.releaseBuffer, { c with inputIndex := c.inputIndex - s.mBuffer.frameCount })
  else (s, c)

/-- The loop over `n` frames of `out`, of which `done` came before. -/
def Sinc.mainLoop (p : Provider (Frame CHANNELS)) (inFrameCount : U32) :
    ℕ → ℕ → ℕ → Sinc CHANNELS → Sinc.Locals →
      Option (List (Tap CHANNELS × (I32 × I32)) × Sinc CHANNELS × Sinc.Locals)
  | 0, _, _, _, _ => none
  | fuel + 1, done, n, s, c =>
    if n = 0 then some ([], s, c)
    else do
      let (filled, s, c) ← Sinc.fetch p inFrameCount done 3 s c
      if filled then
        let s ← s.writeHead c.impulse c.inputIndex
        let (out, s, c) ← s.drain n c
        let (s, c) := s.finish c
        let (rest, s, c) ←
          mainLoop p inFrameCount fuel (done + out.length) (n - out.length) s c
        some (out ++ rest, s, c)
      else some ([], s, c)

/-- The place that a resampler saves between calls. -/
def Sinc.locals (s : Sinc CHANNELS) : Sinc.Locals := ⟨s.mImpulse, s.mInputIndex, s.mPhaseFraction⟩

/-- `resample<CHANNELS>`: the frames added to those of `out`. -/
def Sinc.resample (p : Provider (Frame CHANNELS)) (s : Sinc CHANNELS) (outFrameCount : U32) :
    Option (List (Tap CHANNELS × (I32 × I32)) × Sinc CHANNELS) := do
  let inFrameCount := outFrameCount * s.mInSampleRate / s.mSampleRate
  let (out, s, c) ← Sinc.mainLoop p inFrameCount (outputFrames outFrameCount + 1) 0
    (outputFrames outFrameCount) s s.locals
  some (out, { s with
    mImpulse := c.impulse
    mInputIndex := c.inputIndex
    mPhaseFraction := c.phaseFraction })

def Sinc.new (CHANNELS : ℕ) (constants : Sinc.Constants) (coefs : Bool → ℕ → I32)
    (sampleRate inSampleRate phaseIncrement : I32) (localTimeFreq : BitVec 64) : Sinc CHANNELS where
  mConstants := constants
  coefs := coefs
  mSampleRate := sampleRate
  mInSampleRate := inSampleRate
  mVolumeRL := 0#32
  mInputIndex := 0
  mPhaseIncrement := phaseIncrement
  mPhaseFraction := 0#32
  mLocalTimeFreq := localTimeFreq
  mPTS := kInvalidPTS
  mState := fun _ => 0#16
  mImpulse := 0
  mRingFull := 0
  mBuffer := { raw := none, frameCount := 0 }
  calls := []

end AudioFlinger.Resampler
