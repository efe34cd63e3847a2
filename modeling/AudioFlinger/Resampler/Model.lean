import AudioFlinger.Foundation.Interpolation
import AudioFlinger.Mixer.Model

/-!
# The linear resampler

`AudioResamplerOrder1` interpolates between the samples of the chunks that a
provider hands out. It keeps its place in the chunk, and the last frame of the
chunk before. A read outside the samples of the chunk is `none`.
-/

namespace AudioFlinger.Resampler

open Mixer (I16 I32 I64 kInvalidPTS)

def kNumPhaseBits : ℕ := 30

def kPhaseMask : U32 := (1#32 <<< kNumPhaseBits) - 1#32

/-- Bits of the fraction in the multiplication. -/
def kNumInterpBits : ℕ := 15

def kPreInterpShift : ℕ := kNumPhaseBits - kNumInterpBits

def Interp (x0 x1 : I32) (f : U32) : I32 :=
  x0 + ((x1 - x0) * (f >>> kPreInterpShift)).sshiftRight kNumInterpBits

/-- `inputIndex` and `phaseFraction`. -/
structure Cursor where
  inputIndex : ℕ
  phaseFraction : U32
  deriving DecidableEq, Repr

def Cursor.Advance (c : Cursor) (inc : U32) : Cursor :=
  let frac := c.phaseFraction + inc
  { inputIndex := c.inputIndex + (frac >>> kNumPhaseBits).toNat
    phaseFraction := frac &&& kPhaseMask }

/-! ## Frames -/

/-- How the frames `α` of a chunk lie in its samples. -/
structure Format (α : Type) where
  samples : α → List I16
  read : List I16 → ℕ → Option α
  zero : α
  left : α → I16
  right : α → I16
  read_samples : ∀ (frames : List α) (i : ℕ), read (frames.flatMap samples) i = frames[i]?

/-- The frame before `i`. -/
def Format.readBack {α : Type} (fmt : Format α) (input : List I16) : ℕ → Option α
  | 0 => none
  | i + 1 => fmt.read input i

def readStereo (input : List I16) (i : ℕ) : Option (I16 × I16) := do
  let left ← input[i * 2]?
  let right ← input[i * 2 + 1]?
  some (left, right)

theorem readStereo_samples (frames : List (I16 × I16)) (i : ℕ) :
    readStereo (frames.flatMap fun frame => [frame.1, frame.2]) i = frames[i]? := by
  induction frames generalizing i with
  | nil => rfl
  | cons frame frames ih =>
    cases i with
    | zero => rfl
    | succ i =>
      rw [List.getElem?_cons_succ, ← ih]
      simp [readStereo, Nat.succ_mul]

def stereo : Format (I16 × I16) where
  samples frame := [frame.1, frame.2]
  read := readStereo
  zero := (0#16, 0#16)
  left := Prod.fst
  right := Prod.snd
  read_samples := readStereo_samples

def mono : Format I16 where
  samples frame := [frame]
  read input i := input[i]?
  zero := 0#16
  left := id
  right := id
  read_samples frames i := by rw [List.flatMap_singleton']

/-! ## Providers -/

inductive Call (α : Type)
  | getNextBuffer (frameCount : U32) (pts : I64) (answer : Option (List α))
  | releaseBuffer (frameCount : ℕ)

/-- What an `AudioBufferProvider` answers after the calls so far. -/
abbrev Answers (α : Type) := List (Call α) → U32 → I64 → Option (List α)

/-- A provider that answers `NULL` or at least a frame. -/
structure Provider (α : Type) where
  answer : Answers α
  nonempty : ∀ calls frameCount pts frames, answer calls frameCount pts = some frames → frames ≠ []

/-- Every answer in a log of calls is the one of the provider. -/
inductive Provider.Log {α : Type} (p : Provider α) : List (Call α) → Prop
  | nil : p.Log []
  | getNextBuffer {calls : List (Call α)} (h : p.Log calls) (frameCount : U32) (pts : I64) :
      p.Log (calls ++ [.getNextBuffer frameCount pts (p.answer calls frameCount pts)])
  | releaseBuffer {calls : List (Call α)} (h : p.Log calls) (frameCount : ℕ) :
      p.Log (calls ++ [.releaseBuffer frameCount])

/-- The frames that the calls got. -/
def delivered {α : Type} (calls : List (Call α)) : List α :=
  calls.flatMap fun
    | .getNextBuffer _ _ (some frames) => frames
    | _ => []

/-! ## State -/

/-- `AudioBufferProvider::Buffer`; `raw` is the samples it points to. -/
structure Buffer where
  raw : Option (List I16)
  frameCount : ℕ
  deriving DecidableEq, Repr

def Buffer.i16 (b : Buffer) : List I16 := b.raw.getD []

/-- `AudioResamplerOrder1` for frames `α`. -/
structure Order1 (α : Type) where
  mSampleRate : I32
  mInSampleRate : I32
  mVolume : I16 × I16
  mInputIndex : ℕ
  mPhaseIncrement : I32
  mPhaseFraction : U32
  mLocalTimeFreq : BitVec 64
  mPTS : I64
  /-- `mX0L` and `mX0R`. -/
  mX0 : α
  mBuffer : Buffer
  /-- The calls of the provider. -/
  calls : List (Call α)

variable {α : Type}

def Order1.new (fmt : Format α) (sampleRate inSampleRate : I32) (phaseIncrement : I32)
    (localTimeFreq : BitVec 64) : Order1 α where
  mSampleRate := sampleRate
  mInSampleRate := inSampleRate
  mVolume := (0#16, 0#16)
  mInputIndex := 0
  mPhaseIncrement := phaseIncrement
  mPhaseFraction := 0#32
  mLocalTimeFreq := localTimeFreq
  mPTS := kInvalidPTS
  mX0 := fmt.zero
  mBuffer := { raw := none, frameCount := 0 }
  calls := []

def Order1.calculateOutputPTS (s : Order1 α) (outputFrameIndex : ℕ) : I64 :=
  if s.mPTS = kInvalidPTS then kInvalidPTS
  else s.mPTS +
    BitVec.ofNat 64 outputFrameIndex * s.mLocalTimeFreq / s.mSampleRate.signExtend 64

def Order1.getNextBuffer (s : Order1 α) (fmt : Format α) (answers : Answers α)
    (frameCount : U32) (pts : I64) : Order1 α :=
  let answer := answers s.calls frameCount pts
  { s with
    mBuffer :=
      { raw := answer.map (List.flatMap fmt.samples), frameCount := (answer.getD []).length }
    calls := s.calls ++ [.getNextBuffer frameCount pts answer] }

def Order1.releaseBuffer (s : Order1 α) : Order1 α :=
  { s with
    mBuffer := { raw := none, frameCount := 0 }
    calls := s.calls ++ [.releaseBuffer s.mBuffer.frameCount] }

/-- Keep the last frame of the chunk and release it. -/
def Order1.finishBuffer (s : Order1 α) (fmt : Format α) : Option (Order1 α) := do
  let last ← fmt.readBack s.mBuffer.i16 s.mBuffer.frameCount
  some { s with mX0 := last }.releaseBuffer

/-! ## Resampling -/

/-- What the interpolation of two frames adds to a frame of `out`. -/
def frameOf (fmt : Format α) (volume : I16 × I16) (x0 x1 : α) (f : U32) : I32 × I32 :=
  (volume.1.signExtend 32 * Interp ((fmt.left x0).signExtend 32) ((fmt.left x1).signExtend 32) f,
    volume.2.signExtend 32 * Interp ((fmt.right x0).signExtend 32) ((fmt.right x1).signExtend 32) f)

/-- A loop over at most `n` frames of `out`, while `goes`, that interpolates between `taps`. -/
def emitWhile (fmt : Format α) (volume : I16 × I16) (phaseIncrement : U32) (goes : ℕ → Bool)
    (taps : ℕ → Option (α × α)) : ℕ → Cursor → Option (List (I32 × I32) × Cursor)
  | 0, c => some ([], c)
  | n + 1, c =>
    if goes c.inputIndex then do
      let (x0, x1) ← taps c.inputIndex
      let (out, c') ← emitWhile fmt volume phaseIncrement goes taps n (c.Advance phaseIncrement)
      some (frameOf fmt volume x0 x1 c.phaseFraction :: out, c')
    else some ([], c)

/-- Handle the boundary case. -/
def Order1.boundaryLoop (s : Order1 α) (fmt : Format α) :=
  emitWhile fmt s.mVolume s.mPhaseIncrement (fun inputIndex => inputIndex = 0) fun _ => do
    some (s.mX0, ← fmt.read s.mBuffer.i16 0)

/-- Process input samples. -/
def Order1.generalLoop (s : Order1 α) (fmt : Format α) :=
  emitWhile fmt s.mVolume s.mPhaseIncrement (fun inputIndex => inputIndex < s.mBuffer.frameCount)
    fun inputIndex => do
      some (← fmt.readBack s.mBuffer.i16 inputIndex, ← fmt.read s.mBuffer.i16 inputIndex)

/-- Fetch a buffer that reaches the input index; `false` when there is none. -/
def Order1.fetch (fmt : Format α) (answers : Answers α) (inFrameCount : U32)
    (outputFrameIndex : ℕ) : ℕ → Order1 α → ℕ → Option (Bool × Order1 α × ℕ)
  | 0, _, _ => none
  | fuel + 1, s, inputIndex =>
    if s.mBuffer.frameCount ≠ 0 then some (true, s, inputIndex)
    else
      let s := s.getNextBuffer fmt answers inFrameCount (s.calculateOutputPTS outputFrameIndex)
      if s.mBuffer.raw = none then some (false, s, inputIndex)
      else if inputIndex < s.mBuffer.frameCount then some (true, s, inputIndex)
      else do
        fetch fmt answers inFrameCount outputFrameIndex fuel (← s.finishBuffer fmt)
          (inputIndex - s.mBuffer.frameCount)

/-- What the two loops do with the buffer that is there. -/
def Order1.drain (s : Order1 α) (fmt : Format α) (n : ℕ) (c : Cursor) :
    Option (List (I32 × I32) × Order1 α × Cursor) := do
  let (boundary, c) ← s.boundaryLoop fmt n c
  let (general, c) ← s.generalLoop fmt (n - boundary.length) c
  if s.mBuffer.frameCount ≤ c.inputIndex then
    some (boundary ++ general, ← s.finishBuffer fmt,
      { c with inputIndex := c.inputIndex - s.mBuffer.frameCount })
  else some (boundary ++ general, s, c)

/-- The loop over `n` frames of `out`, of which `done` came before. -/
def Order1.mainLoop (fmt : Format α) (answers : Answers α) (inFrameCount : U32) :
    ℕ → ℕ → ℕ → Order1 α → Cursor → Option (List (I32 × I32) × Order1 α × Cursor)
  | 0, _, _, _, _ => none
  | fuel + 1, done, n, s, c =>
    if n = 0 then some ([], s, c)
    else do
      let (filled, s, inputIndex) ←
        Order1.fetch fmt answers inFrameCount done (c.inputIndex + 1) s c.inputIndex
      let c := { c with inputIndex := inputIndex }
      if filled then
        let (out, s, c) ← s.drain fmt n c
        let (rest, s, c) ←
          mainLoop fmt answers inFrameCount fuel (done + out.length) (n - out.length) s c
        some (out ++ rest, s, c)
      else some ([], s, c)

/-- The place that a resampler saves between calls. -/
def Order1.cursor (s : Order1 α) : Cursor := ⟨s.mInputIndex, s.mPhaseFraction⟩

def inFrameCount (s : Order1 α) (outFrameCount : U32) : U32 :=
  outFrameCount * s.mInSampleRate / s.mSampleRate

/-- The frames of the output, of which there are half as many as samples. -/
def outputFrames (outFrameCount : U32) : ℕ := (outFrameCount * 2#32).toNat / 2

/-- The frames added to those of `out`; the others stay as they are. -/
def Order1.resample (fmt : Format α) (answers : Answers α) (s : Order1 α) (outFrameCount : U32) :
    Option (List (I32 × I32) × Order1 α) := do
  let (out, s, c) ← Order1.mainLoop fmt answers (inFrameCount s outFrameCount)
    (outputFrames outFrameCount + 1) 0 (outputFrames outFrameCount) s s.cursor
  some (out, { s with mInputIndex := c.inputIndex, mPhaseFraction := c.phaseFraction })

def resampleStereo16 (p : Provider (I16 × I16)) := Order1.resample stereo p.answer

def resampleMono16 (p : Provider I16) := Order1.resample mono p.answer

end AudioFlinger.Resampler
