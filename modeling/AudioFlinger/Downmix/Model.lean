import AudioFlinger.Mixer.Primitives
import AudioFlinger.Parameters.Processing

/-!
# The downmix effect

`Downmix_Process` folds frames of many channels to stereo, by a loop of its
own for each common channel mask and by a loop with computed indices for the
others. Source and destination lie in one memory of 16-bit samples. A load or
a store outside the buffer it belongs to fails, and so does an `int32_t`
operation whose result does not fit.
-/

namespace AudioFlinger.Downmix

open Mixer Parameters

abbrev Memory := ℕ → I16

def AUDIO_CHANNEL_OUT_STEREO : U32 := 0x3#32
def AUDIO_CHANNEL_OUT_FRONT_CENTER : U32 := 0x4#32
def AUDIO_CHANNEL_OUT_LOW_FREQUENCY : U32 := 0x8#32
def AUDIO_CHANNEL_OUT_BACK_CENTER : U32 := 0x100#32

def CHANNEL_MASK_SURROUND : U32 := 0x107#32
def CHANNEL_MASK_QUAD_BACK : U32 := 0x33#32
def CHANNEL_MASK_QUAD_SIDE : U32 := 0x603#32
def CHANNEL_MASK_5POINT1_BACK : U32 := 0x3F#32
def CHANNEL_MASK_5POINT1_SIDE : U32 := 0x60F#32
def CHANNEL_MASK_7POINT1_SIDE_BACK : U32 := 0x63F#32

def kSides : U32 := 0x600#32
def kBacks : U32 := 0x30#32
/-- The channels left and right of the centre and all the top ones. -/
def kUnsupported : U32 := 0x3F8C0#32

/-- -3 dB in Q19.12. -/
def MINUS_3_DB_IN_Q19_12 : ℤ := 2896

/-! ## Accesses and arithmetic -/

/-- The value of an `int32_t` expression; `none` when it does not fit. -/
def int32 (x : ℤ) : Option ℤ := if -2 ^ 31 ≤ x ∧ x < 2 ^ 31 then some x else none

/-- The samples of a buffer. -/
structure Span where
  start : ℕ
  length : ℕ
  deriving DecidableEq, Repr

def Span.Has (b : Span) (a : ℕ) : Prop := b.start ≤ a ∧ a < b.start + b.length

instance (b : Span) (a : ℕ) : Decidable (b.Has a) := inferInstanceAs (Decidable (_ ∧ _))

def Span.load (b : Span) (mem : Memory) (a : ℕ) : Option ℤ :=
  if b.Has a then some (mem a).toInt else none

def Span.store (b : Span) (mem : Memory) (a : ℕ) (v : I16) : Option Memory :=
  if b.Has a then some (Function.update mem a v) else none

/-- A sample in Q19.12: `pSrc[i] << 12`. -/
def Span.loadQ12 (b : Span) (mem : Memory) (a : ℕ) : Option ℤ := do
  int32 ((← b.load mem a) * 2 ^ 12)

/-- A sample at -3 dB. -/
def Span.loadMinus3dB (b : Span) (mem : Memory) (a : ℕ) : Option ℤ := do
  int32 ((← b.load mem a) * MINUS_3_DB_IN_Q19_12)

/-- One sample of the result, clamped; added to what the destination holds when `accumulate`. -/
def Span.put (b : Span) (accumulate : Bool) (mem : Memory) (a : ℕ) (v : ℤ) : Option Memory := do
  if accumulate then
    let sum ← int32 ((← b.load mem a) + v)
    b.store mem a (clamp16 (BitVec.ofInt 32 sum))
  else b.store mem a (clamp16 (BitVec.ofInt 32 v))

/-! ## One frame -/

section Frames

variable (src dst : Span) (accumulate : Bool) (mem : Memory) (pSrc pDst : ℕ)

/-- The round of the loops of `Downmix_foldFromQuad`. -/
def quadFrame : Option Memory := do
  let left ← int32 ((← src.load mem pSrc) + (← src.load mem (pSrc + 2)))
  let mem ← dst.put accumulate mem pDst (left >>> (1 : ℕ))
  let right ← int32 ((← src.load mem (pSrc + 1)) + (← src.load mem (pSrc + 3)))
  dst.put accumulate mem (pDst + 1) (right >>> (1 : ℕ))

/-- A front channel with the centers' part and then the others of its side. -/
def sideSum (front centers : ℤ) (others : List ℕ) : Option ℤ := do
  let sum ← int32 (front + centers)
  others.foldlM (fun sum i => do int32 (sum + (← src.loadQ12 mem (pSrc + i)))) sum

/-- The round of the loops that read both centers at the indices 2 and 3. -/
def centersFrame (lefts rights : List ℕ) : Option Memory := do
  let centers ← int32 ((← src.loadMinus3dB mem (pSrc + 2)) + (← src.loadMinus3dB mem (pSrc + 3)))
  let lt ← sideSum src mem pSrc (← src.loadQ12 mem pSrc) centers lefts
  let rt ← sideSum src mem pSrc (← src.loadQ12 mem (pSrc + 1)) centers rights
  let mem ← dst.put accumulate mem pDst (lt >>> (13 : ℕ))
  dst.put accumulate mem (pDst + 1) (rt >>> (13 : ℕ))

def surroundFrame : Option Memory := centersFrame src dst accumulate mem pSrc pDst [] []

def fivePoint1Frame : Option Memory := centersFrame src dst accumulate mem pSrc pDst [4] [5]

def sevenPoint1Frame : Option Memory := centersFrame src dst accumulate mem pSrc pDst [6, 4] [7, 5]

end Frames

/-! ## The generic fold -/

/-- The checks at the head of `Downmix_foldGeneric`. -/
def foldGenericAccepts (mask : U32) : Bool :=
  mask &&& kUnsupported == 0 &&
    mask &&& AUDIO_CHANNEL_OUT_STEREO == AUDIO_CHANNEL_OUT_STEREO &&
    (mask &&& kSides == 0 || mask &&& kSides == kSides) &&
    (mask &&& kBacks == 0 || mask &&& kBacks == kBacks)

def hasSides (mask : U32) : Bool := mask &&& kSides != 0
def hasBacks (mask : U32) : Bool := mask &&& kBacks != 0
def hasFC (mask : U32) : Bool :=
  mask &&& AUDIO_CHANNEL_OUT_FRONT_CENTER == AUDIO_CHANNEL_OUT_FRONT_CENTER
def hasLFE (mask : U32) : Bool :=
  mask &&& AUDIO_CHANNEL_OUT_LOW_FREQUENCY == AUDIO_CHANNEL_OUT_LOW_FREQUENCY
def hasBC (mask : U32) : Bool :=
  mask &&& AUDIO_CHANNEL_OUT_BACK_CENTER == AUDIO_CHANNEL_OUT_BACK_CENTER

/-- An absent channel has the index of the one before it. -/
def indexFC (mask : U32) : ℕ := if hasFC mask then 2 else 1
def indexLFE (mask : U32) : ℕ := if hasLFE mask then indexFC mask + 1 else indexFC mask
def indexBL (mask : U32) : ℕ := if hasBacks mask then indexLFE mask + 1 else indexLFE mask
def indexBR (mask : U32) : ℕ := if hasBacks mask then indexBL mask + 1 else indexBL mask
def indexBC (mask : U32) : ℕ := if hasBC mask then indexBR mask + 1 else indexBR mask
def indexSL (mask : U32) : ℕ := if hasSides mask then indexBC mask + 1 else indexBC mask
def indexSR (mask : U32) : ℕ := if hasSides mask then indexSL mask + 1 else indexSL mask

/-- `if (has) { sum += value; }`. -/
def addIf (has : Bool) (sum : ℤ) (value : Option ℤ) : Option ℤ :=
  if has then do int32 (sum + (← value)) else some sum

/-- The round of the loops of `Downmix_foldGeneric`. -/
def genericFrame (mask : U32) (src dst : Span) (accumulate : Bool) (mem : Memory)
    (pSrc pDst : ℕ) : Option Memory := do
  let centers ← addIf (hasFC mask) 0 (src.load mem (pSrc + indexFC mask))
  let centers ← addIf (hasLFE mask) centers (src.load mem (pSrc + indexLFE mask))
  let centers ← addIf (hasBC mask) centers (src.load mem (pSrc + indexBC mask))
  let centers ← int32 (centers * MINUS_3_DB_IN_Q19_12)
  let lt ← src.loadQ12 mem pSrc
  let rt ← src.loadQ12 mem (pSrc + 1)
  let lt ← addIf (hasSides mask) lt (src.loadQ12 mem (pSrc + indexSL mask))
  let rt ← addIf (hasSides mask) rt (src.loadQ12 mem (pSrc + indexSR mask))
  let lt ← addIf (hasBacks mask) lt (src.loadQ12 mem (pSrc + indexBL mask))
  let rt ← addIf (hasBacks mask) rt (src.loadQ12 mem (pSrc + indexBR mask))
  let lt ← int32 (lt + centers)
  let rt ← int32 (rt + centers)
  let mem ← dst.put accumulate mem pDst (lt >>> (13 : ℕ))
  dst.put accumulate mem (pDst + 1) (rt >>> (13 : ℕ))

/-! ## The loops -/

/-- `while (numFrames)` over frames of `numChan` samples. -/
def foldLoop (frame : Memory → ℕ → ℕ → Option Memory) (numChan : ℕ) :
    ℕ → Memory → ℕ → ℕ → Option Memory
  | 0, mem, _, _ => some mem
  | numFrames + 1, mem, pSrc, pDst => do
    foldLoop frame numChan numFrames (← frame mem pSrc pDst) (pSrc + numChan) (pDst + 2)

section Loops

variable (src dst : Span) (mem : Memory) (numFrames : ℕ) (accumulate : Bool)

def Downmix_foldFromQuad : Option Memory :=
  foldLoop (quadFrame src dst accumulate) 4 numFrames mem src.start dst.start

def Downmix_foldFromSurround : Option Memory :=
  foldLoop (surroundFrame src dst accumulate) 4 numFrames mem src.start dst.start

def Downmix_foldFrom5Point1 : Option Memory :=
  foldLoop (fivePoint1Frame src dst accumulate) 6 numFrames mem src.start dst.start

def Downmix_foldFrom7Point1 : Option Memory :=
  foldLoop (sevenPoint1Frame src dst accumulate) 8 numFrames mem src.start dst.start

/-- Also tells whether the mask is supported. -/
def Downmix_foldGeneric (mask : U32) : Option (Bool × Memory) :=
  if foldGenericAccepts mask then do
    let mem ← foldLoop (genericFrame mask src dst accumulate) (popcount mask) numFrames mem
      src.start dst.start
    some (true, mem)
  else some (false, mem)

/-- The loops of `DOWNMIX_TYPE_STRIP`. -/
def stripFrame (mem : Memory) (pSrc pDst : ℕ) : Option Memory := do
  let mem ← dst.put accumulate mem pDst (← src.load mem pSrc)
  dst.put accumulate mem (pDst + 1) (← src.load mem (pSrc + 1))

end Loops

/-! ## The effect -/

inductive State
  | DOWNMIX_STATE_UNINITIALIZED
  | DOWNMIX_STATE_INITIALIZED
  | DOWNMIX_STATE_ACTIVE
  deriving DecidableEq, Repr

inductive DownmixType
  | DOWNMIX_TYPE_INVALID
  | DOWNMIX_TYPE_STRIP
  | DOWNMIX_TYPE_FOLD
  deriving DecidableEq, Repr

/-- `audio_buffer_t`; `raw` may be NULL. -/
structure AudioBuffer where
  frameCount : ℕ
  raw : Option ℕ
  deriving DecidableEq, Repr

/-- What `Downmix_Process` reads of `downmix_module_t`. -/
structure Module where
  state : State
  type : DownmixType
  input_channel_count : ℕ
  /-- `config.inputCfg.channels`. -/
  inputChannels : U32
  /-- `config.outputCfg.accessMode` is `EFFECT_BUFFER_ACCESS_ACCUMULATE`. -/
  accumulate : Bool
  deriving DecidableEq, Repr

def EINVAL : ℤ := 22
def ENODATA : ℤ := 61

/-- The inner switch for `DOWNMIX_TYPE_FOLD`. -/
def foldByMask (mask : U32) (src dst : Span) (mem : Memory) (numFrames : ℕ) (accumulate : Bool) :
    Option (ℤ × Memory) :=
  if mask = CHANNEL_MASK_QUAD_BACK ∨ mask = CHANNEL_MASK_QUAD_SIDE then
    (Downmix_foldFromQuad src dst mem numFrames accumulate).map fun mem => (0, mem)
  else if mask = CHANNEL_MASK_SURROUND then
    (Downmix_foldFromSurround src dst mem numFrames accumulate).map fun mem => (0, mem)
  else if mask = CHANNEL_MASK_5POINT1_BACK ∨ mask = CHANNEL_MASK_5POINT1_SIDE then
    (Downmix_foldFrom5Point1 src dst mem numFrames accumulate).map fun mem => (0, mem)
  else if mask = CHANNEL_MASK_7POINT1_SIDE_BACK then
    (Downmix_foldFrom7Point1 src dst mem numFrames accumulate).map fun mem => (0, mem)
  else
    (Downmix_foldGeneric src dst mem numFrames accumulate mask).map fun r =>
      (if r.1 then 0 else -EINVAL, r.2)

/-- `Downmix_Process`. The source buffer holds `channelCount` samples for each frame, the
destination buffer two. -/
def Downmix_Process (self : Option Module) (inBuffer outBuffer : Option AudioBuffer)
    (mem : Memory) : Option (ℤ × Memory) :=
  match self, inBuffer, outBuffer with
  | some pDwmModule, some ⟨inCount, some pSrc⟩, some ⟨outCount, some pDst⟩ =>
    if inCount ≠ outCount then some (-EINVAL, mem)
    else
      let src (channelCount : ℕ) : Span := ⟨pSrc, outCount * channelCount⟩
      let dst : Span := ⟨pDst, outCount * 2⟩
      match pDwmModule.state with
      | .DOWNMIX_STATE_UNINITIALIZED => some (-EINVAL, mem)
      | .DOWNMIX_STATE_INITIALIZED => some (-ENODATA, mem)
      | .DOWNMIX_STATE_ACTIVE =>
        match pDwmModule.type with
        | .DOWNMIX_TYPE_STRIP =>
          (foldLoop
            (stripFrame (src pDwmModule.input_channel_count) dst pDwmModule.accumulate)
            pDwmModule.input_channel_count outCount mem pSrc pDst).map fun mem => (0, mem)
        | .DOWNMIX_TYPE_FOLD =>
          foldByMask pDwmModule.inputChannels (src (popcount pDwmModule.inputChannels)) dst mem
            outCount pDwmModule.accumulate
        | .DOWNMIX_TYPE_INVALID => some (-EINVAL, mem)
  | _, _, _ => some (-EINVAL, mem)

/-- `AudioMixer::DownmixerBufferProvider::getNextBuffer`, `upstream` being what the provider of
the track answers: the effect reads and writes the one buffer. -/
def DownmixerBufferProvider.getNextBuffer (mDownmixHandle : Module)
    (upstream : Option (ℤ × AudioBuffer)) (mem : Memory) : Option (ℤ × Memory) :=
  match upstream with
  | some (res, pBuffer) =>
    if res = NO_ERROR then Downmix_Process (some mDownmixHandle) (some pBuffer) (some pBuffer) mem
    else some (res, mem)
  | none => some (-19, mem)

end AudioFlinger.Downmix
