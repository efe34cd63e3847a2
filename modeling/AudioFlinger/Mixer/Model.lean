import Mathlib.Logic.Function.Basic
import AudioFlinger.Foundation.RingMemory
import AudioFlinger.Mixer.Primitives

/-!
# The mixer without resampling

A mixer asks the buffer provider of each enabled track for chunks of frames
and mixes them into the main buffer of the track. A provider answers from the
calls made to it so far. The loops that wait for a provider have fuel: `none`
is a call that has not returned.
-/

set_option linter.style.nameCheck false

namespace AudioFlinger.Mixer

open Foundation RingMemory

abbrev MAX_NUM_TRACKS : ℕ := 32

def BLOCKSIZE : ℕ := 16

def kInvalidPTS : I64 := 0x7FFFFFFFFFFFFFFF#64

def NEEDS_AUX__MASK : U32 := 0x00010000#32

def NEEDS_AUX_ENABLED : U32 := 0x00010000#32

/-! ## Buffer providers -/

/-- The frames of a buffer, of which a mono frame takes the low half, and whether it misses the
alignment of a word. -/
structure Chunk where
  frames : List U32
  misaligned : Bool
  deriving DecidableEq, Repr

inductive Call
  | getNextBuffer (frameCount : U32) (pts : I64)
  | releaseBuffer (frames : List U32)
  deriving DecidableEq, Repr

/-- An `AudioBufferProvider`; it answers `NULL` or at least one of the frames asked for. -/
structure Provider where
  answer : List Call → U32 → I64 → Option Chunk
  nonempty : ∀ calls frameCount pts c, answer calls frameCount pts = some c → c.frames ≠ []
  fits : ∀ calls frameCount pts c,
    answer calls frameCount pts = some c → c.frames.length ≤ frameCount.toNat

/-- The frames released to the provider. -/
def consumed (calls : List Call) : List U32 :=
  calls.flatMap fun
    | .getNextBuffer _ _ => []
    | .releaseBuffer frames => frames

/-! ## State -/

inductive Hook
  | track__nop
  | track__16BitsMono
  | track__16BitsStereo
  deriving DecidableEq, Repr

/-- `track_t`. The union `volume` is the two halves of `volumeRL`. -/
structure Track where
  needs : U32
  volumeRL : U32
  prevVolume : I32 × I32
  volumeInc : I32 × I32
  auxInc : I32
  prevAuxLevel : I32
  auxLevel : I16
  frameCount : BitVec 16
  bufferProvider : Provider
  /-- The frames of the buffer held. -/
  buffer : List U32
  hook : Hook
  /-- `in`, what is left to read of the buffer. -/
  input : List U32
  sampleRate : U32
  mainBuffer : ℕ
  auxBuffer : ℕ
  /-- The calls of the provider. -/
  calls : List Call

/-- The words of each main and aux buffer. -/
abbrev Mem := ℕ → ℕ → U32

def Mem.write (mem : Mem) (buffer pos : ℕ) (xs : List U32) : Mem :=
  Function.update mem buffer (blit (mem buffer) pos xs)

structure State where
  enabledTracks : U32
  frameCount : U32
  sLocalTimeFreq : BitVec 64
  tracks : Fin MAX_NUM_TRACKS → Track
  mem : Mem

def State.setTrack (s : State) (i : Fin MAX_NUM_TRACKS) (t : Track) : State :=
  { s with tracks := Function.update s.tracks i t }

def State.write (s : State) (buffer pos : ℕ) (xs : List U32) : State :=
  { s with mem := s.mem.write buffer pos xs }

section Fields

variable (s : State) (i : Fin MAX_NUM_TRACKS) (t : Track) (buffer pos : ℕ) (xs : List U32)

@[simp] theorem State.setTrack_frameCount : (s.setTrack i t).frameCount = s.frameCount := rfl
@[simp] theorem State.setTrack_sLocalTimeFreq :
    (s.setTrack i t).sLocalTimeFreq = s.sLocalTimeFreq := rfl
@[simp] theorem State.setTrack_mem : (s.setTrack i t).mem = s.mem := rfl
@[simp] theorem State.setTrack_tracks : (s.setTrack i t).tracks i = t := by simp [State.setTrack]
@[simp] theorem State.write_frameCount : (s.write buffer pos xs).frameCount = s.frameCount := rfl
@[simp] theorem State.write_sLocalTimeFreq :
    (s.write buffer pos xs).sLocalTimeFreq = s.sLocalTimeFreq := rfl
@[simp] theorem State.write_tracks : (s.write buffer pos xs).tracks = s.tracks := rfl
@[simp] theorem State.write_mem :
    (s.write buffer pos xs).mem = s.mem.write buffer pos xs := rfl

theorem State.setTrack_setTrack (t' : Track) : (s.setTrack i t).setTrack i t' = s.setTrack i t' := by
  unfold State.setTrack
  rw [Function.update_idem]

theorem State.write_setTrack :
    (s.write buffer pos xs).setTrack i t = (s.setTrack i t).write buffer pos xs := rfl

end Fields

def bit (i : Fin MAX_NUM_TRACKS) : U32 := 1#32 <<< i.val

/-- `31 - __builtin_clz(e)`. -/
def topTrack (e : U32) : Fin MAX_NUM_TRACKS := ⟨31 - clz e, Nat.lt_succ_of_le (Nat.sub_le 31 _)⟩

/-- The tracks in the order of `while (e)`. -/
def tracksOf : ℕ → U32 → List (Fin MAX_NUM_TRACKS)
  | 0, _ => []
  | n + 1, e => if e = 0#32 then [] else topTrack e :: tracksOf n (e &&& ~~~bit (topTrack e))

/-- `AudioBufferProvider::getNextBuffer`. -/
def Track.getNextBuffer (t : Track) (frameCount : U32) (pts : I64) : Option Chunk × Track :=
  let answer := t.bufferProvider.answer t.calls frameCount pts
  (answer,
    { t with
      buffer := (answer.map Chunk.frames).getD []
      calls := t.calls ++ [.getNextBuffer frameCount pts] })

def Track.releaseBuffer (t : Track) : Track :=
  { t with
    buffer := []
    calls := t.calls ++ [.releaseBuffer t.buffer] }

def calculateOutputPTS (sLocalTimeFreq : BitVec 64) (sampleRate : U32) (basePTS : I64)
    (outputFrameIndex : I32) : I64 :=
  if kInvalidPTS = basePTS then kInvalidPTS
  else basePTS + outputFrameIndex.signExtend 64 * sLocalTimeFreq / sampleRate.setWidth 64

/-! ## Hooks -/

/-- The sums of one output frame. -/
structure Sums where
  left : I32
  right : I32
  aux : I32
  deriving DecidableEq, Repr

structure Gains where
  vl : I32
  vr : I32
  va : I32
  deriving DecidableEq, Repr

def rampStereo (g : Gains) (rl : U32) (sums : Sums) : Sums :=
  let l := (leftHalf rl).signExtend 32
  let r := (rightHalf rl).signExtend 32
  { left := sums.left + g.vl.sshiftRight 16 * l
    right := sums.right + g.vr.sshiftRight 16 * r
    aux := sums.aux + g.va.sshiftRight 17 * (l + r) }

def rampMono (g : Gains) (rl : U32) (sums : Sums) : Sums :=
  let l := (leftHalf rl).signExtend 32
  { left := sums.left + g.vl.sshiftRight 16 * l
    right := sums.right + g.vr.sshiftRight 16 * l
    aux := sums.aux + g.va.sshiftRight 16 * l }

def constantStereo (t : Track) (rl : U32) (sums : Sums) : Sums :=
  let a := (((leftHalf rl).signExtend 32 + (rightHalf rl).signExtend 32).sshiftRight 1).setWidth 16
  { left := mulAddRL true rl t.volumeRL sums.left
    right := mulAddRL false rl t.volumeRL sums.right
    aux := mulAdd a t.auxLevel sums.aux }

def constantMono (t : Track) (rl : U32) (sums : Sums) : Sums where
  left := mulAdd (leftHalf rl) (leftHalf t.volumeRL) sums.left
  right := mulAdd (leftHalf rl) (rightHalf t.volumeRL) sums.right
  aux := mulAdd (leftHalf rl) t.auxLevel sums.aux

/-- What the frames of a ramp add, and the gains it ends with. -/
def rampFrames (ramp : Gains → U32 → Sums → Sums) (inc : Gains) :
    Gains → List U32 → List (Sums → Sums) × Gains
  | g, [] => ([], g)
  | g, rl :: frames =>
    let next : Gains := { vl := g.vl + inc.vl, vr := g.vr + inc.vr, va := g.va + inc.va }
    let (adds, last) := rampFrames ramp inc next frames
    (ramp g rl :: adds, last)

/-- A ramp of one gain ends when the next step would reach its level. -/
def adjustRamp (inc prev : I32) (level : I16) : I32 × I32 :=
  let next := ((prev + inc).sshiftRight 16).toInt
  if (0 < inc.toInt ∧ level.toInt ≤ next) ∨ (inc.toInt < 0 ∧ next ≤ level.toInt) then
    (0#32, level.signExtend 32 <<< 16)
  else (inc, prev)

def Track.adjustVolumeRamp (t : Track) (aux : Bool) : Track :=
  let left := adjustRamp t.volumeInc.1 t.prevVolume.1 (leftHalf t.volumeRL)
  let right := adjustRamp t.volumeInc.2 t.prevVolume.2 (rightHalf t.volumeRL)
  let send := if aux then adjustRamp t.auxInc t.prevAuxLevel t.auxLevel
    else (t.auxInc, t.prevAuxLevel)
  { t with
    volumeInc := (left.1, right.1)
    prevVolume := (left.2, right.2)
    auxInc := send.1
    prevAuxLevel := send.2 }

/-- Add to the first frames of `out`. -/
def addOut : List (I32 × I32) → List (Sums → Sums) → List (I32 × I32)
  | [], _ => []
  | out, [] => out
  | sums :: out, add :: adds =>
    let next := add { left := sums.1, right := sums.2, aux := 0#32 }
    (next.left, next.right) :: addOut out adds

def addAux (aux : List I32) (adds : List (Sums → Sums)) : List I32 :=
  aux.zipWith (fun sum add => (add { left := 0#32, right := 0#32, aux := sum }).aux) adds

def Track.ramps (t : Track) (aux : Bool) : Bool :=
  t.volumeInc.1 ||| t.volumeInc.2 ||| (if aux then t.auxInc else 0#32) ≠ 0#32

/-- The two 16-bit hooks, with the sums and the aux buffer they add to. -/
def hook16Bits (ramp : Gains → U32 → Sums → Sums) (constant : Track → U32 → Sums → Sums)
    (t : Track) (out : List (I32 × I32)) (frameCount : ℕ) (aux : Option (List I32)) :
    Track × List (I32 × I32) × Option (List I32) :=
  let frames := t.input.take frameCount
  let t := { t with input := t.input.drop frameCount }
  if t.ramps aux.isSome then
    let (adds, last) := rampFrames ramp
      { vl := t.volumeInc.1, vr := t.volumeInc.2, va := t.auxInc }
      { vl := t.prevVolume.1, vr := t.prevVolume.2, va := t.prevAuxLevel } frames
    let t := { t with
      prevVolume := (last.vl, last.vr)
      prevAuxLevel := if aux.isSome then last.va else t.prevAuxLevel }
    (t.adjustVolumeRamp aux.isSome, addOut out adds, aux.map (addAux · adds))
  else
    let adds := frames.map (constant t)
    (t, addOut out adds, aux.map (addAux · adds))

def track__nop (t : Track) (out : List (I32 × I32)) (_ : ℕ) (aux : Option (List I32)) :
    Track × List (I32 × I32) × Option (List I32) := (t, out, aux)

def track__16BitsStereo := hook16Bits rampStereo constantStereo

def track__16BitsMono := hook16Bits rampMono constantMono

def Hook.call : Hook → Track → List (I32 × I32) → ℕ → Option (List I32) →
    Track × List (I32 × I32) × Option (List I32)
  | track__nop => Mixer.track__nop
  | track__16BitsMono => Mixer.track__16BitsMono
  | track__16BitsStereo => Mixer.track__16BitsStereo

/-! ## The general path -/

/-- Get the first buffer of a track. A track without one is not mixed. -/
def acquire (pts : I64) (acc : State × U32) (i : Fin MAX_NUM_TRACKS) : State × U32 :=
  let (s, enabledTracks) := acc
  let (answer, t) := (s.tracks i).getNextBuffer s.frameCount pts
  let t := { t with
    frameCount := BitVec.ofNat 16 t.buffer.length
    input := t.buffer }
  (s.setTrack i t, if answer.isNone then enabledTracks &&& ~~~bit i else enabledTracks)

/-- The loop `while (outFrames)` over the chunks of one track. -/
structure Voice where
  t : Track
  mem : Mem
  outTemp : List (I32 × I32)
  outFrames : ℕ
  /-- Where the track adds in its aux buffer. -/
  aux : Option ℕ

/-- Call the hook for `inFrames` frames. -/
def Voice.feed (v : Voice) (inFrames : ℕ) : Voice :=
  let done := BLOCKSIZE - v.outFrames
  let (t, out, aux) := v.t.hook.call v.t (v.outTemp.drop done) inFrames
    (v.aux.map fun pos => slice (v.mem v.t.auxBuffer) pos inFrames)
  { t := { t with frameCount := t.frameCount - BitVec.ofNat 16 inFrames }
    mem :=
      match v.aux, aux with
      | some pos, some sums => v.mem.write t.auxBuffer pos sums
      | _, _ => v.mem
    outTemp := v.outTemp.take done ++ out
    outFrames := v.outFrames - inFrames
    aux := v.aux.map (· + inFrames) }

/-- One track in the block from `numFrames` on, and whether the track has not run out. -/
def mixVoice (s : State) (pts : I64) (numFrames : U32) : ℕ → Voice → Option (Voice × Bool)
  | 0, _ => none
  | fuel + 1, v =>
    if v.outFrames = 0 then some (v, true)
    else
      let inFrames := if v.outFrames < v.t.frameCount.toNat then v.outFrames
        else v.t.frameCount.toNat
      let v := if inFrames ≠ 0 then v.feed inFrames else v
      if v.t.frameCount = 0#16 ∧ v.outFrames ≠ 0 then
        let done := BitVec.ofNat 32 (BLOCKSIZE - v.outFrames)
        let (answer, t) := v.t.releaseBuffer.getNextBuffer (s.frameCount - numFrames - done)
          (calculateOutputPTS s.sLocalTimeFreq v.t.sampleRate pts (numFrames + done))
        let t := { t with input := t.buffer }
        if answer.isNone then some ({ v with t := t }, false)
        else
          let t := { t with frameCount := BitVec.ofNat 16 t.buffer.length }
          mixVoice s pts numFrames fuel { v with t := t }
      else mixVoice s pts numFrames fuel v

/-- A block of a group: the tracks still mixed, of all and of the group, and the sums. -/
structure Block where
  s : State
  enabledTracks : U32
  e1 : U32
  outTemp : List (I32 × I32)

def mixTrack (pts : I64) (numFrames : U32) (fuel : ℕ) (b : Block) (i : Fin MAX_NUM_TRACKS) :
    Option Block :=
  let t := b.s.tracks i
  let aux := if t.needs &&& NEEDS_AUX__MASK = NEEDS_AUX_ENABLED then some numFrames.toNat else none
  (mixVoice b.s pts numFrames fuel
    { t := t, mem := b.s.mem, outTemp := b.outTemp, outFrames := BLOCKSIZE, aux := aux }).map
    fun (v, enabled) =>
      { s := { b.s.setTrack i v.t with mem := v.mem }
        enabledTracks := if enabled then b.enabledTracks else b.enabledTracks &&& ~~~bit i
        e1 := if enabled then b.e1 else b.e1 &&& ~~~bit i
        outTemp := v.outTemp }

/-- The blocks of the group `e1` from `numFrames` on. -/
def mixBlocks (pts : I64) (mainBuffer : ℕ) :
    ℕ → State → U32 → U32 → U32 → Option (State × U32)
  | 0, _, _, _, _ => none
  | fuel + 1, s, enabledTracks, e1, numFrames =>
    ((tracksOf MAX_NUM_TRACKS e1).foldlM (mixTrack pts numFrames fuel)
      { s := s
        enabledTracks := enabledTracks
        e1 := e1
        outTemp := List.replicate BLOCKSIZE (0#32, 0#32) }).bind fun b =>
      let s := b.s.write mainBuffer numFrames.toNat (ditherAndClamp b.outTemp)
      let numFrames := numFrames + BitVec.ofNat 32 BLOCKSIZE
      if numFrames < s.frameCount then mixBlocks pts mainBuffer fuel s b.enabledTracks b.e1 numFrames
      else some (s, b.enabledTracks)

/-- The tracks of `e0` with the main buffer of the first one. -/
def groupOf (s : State) (e0 : U32) : U32 :=
  (tracksOf MAX_NUM_TRACKS (e0 &&& ~~~bit (topTrack e0))).foldl
    (fun e1 j => if (s.tracks j).mainBuffer ≠ (s.tracks (topTrack e0)).mainBuffer then
      e1 &&& ~~~bit j else e1) e0

def mixGroups (pts : I64) (fuel : ℕ) : ℕ → State → U32 → U32 → Option (State × U32)
  | 0, s, enabledTracks, _ => some (s, enabledTracks)
  | n + 1, s, enabledTracks, e0 =>
    if e0 = 0#32 then some (s, enabledTracks)
    else
      let e1 := groupOf s e0
      (mixBlocks pts (s.tracks (topTrack e0)).mainBuffer fuel s enabledTracks e1 0#32).bind
        fun (s, enabledTracks) => mixGroups pts fuel n s enabledTracks (e0 &&& ~~~e1)

def process__genericNoResampling (fuel : ℕ) (s : State) (pts : I64) : Option State :=
  let (s, enabledTracks) :=
    (tracksOf MAX_NUM_TRACKS s.enabledTracks).foldl (acquire pts) (s, s.enabledTracks)
  (mixGroups pts fuel MAX_NUM_TRACKS s enabledTracks enabledTracks).map
    fun (s, enabledTracks) =>
      (tracksOf MAX_NUM_TRACKS enabledTracks).foldl
        (fun s i => s.setTrack i (s.tracks i).releaseBuffer) s

/-! ## The path for one track -/

/-- The loop `while (numFrames)`, which writes at `out`. -/
def oneTrackLoop (sLocalTimeFreq : BitVec 64) (pts : I64) :
    ℕ → Track → Mem → U32 → U32 → Option (Track × Mem)
  | 0, _, _, _, _ => none
  | fuel + 1, t, mem, out, numFrames =>
    if numFrames = 0#32 then some (t, mem)
    else
      let outputPTS := calculateOutputPTS sLocalTimeFreq t.sampleRate pts out
      let silence := List.replicate numFrames.toNat 0#32
      match t.getNextBuffer numFrames outputPTS with
      | (none, t) => some (t, mem.write t.mainBuffer out.toNat silence)
      | (some chunk, t) =>
        if chunk.misaligned then some (t, mem.write t.mainBuffer out.toNat silence)
        else
          let frame := if boosted t.volumeRL then clampedFrame t.volumeRL
            else unclampedFrame t.volumeRL
          let outFrames := BitVec.ofNat 32 chunk.frames.length
          oneTrackLoop sLocalTimeFreq pts fuel t.releaseBuffer
            (mem.write t.mainBuffer out.toNat (chunk.frames.map frame)) (out + outFrames)
            (numFrames - outFrames)

def process__OneTrack16BitsStereoNoResampling (fuel : ℕ) (s : State) (pts : I64) :
    Option State :=
  let i := topTrack s.enabledTracks
  (oneTrackLoop s.sLocalTimeFreq pts fuel (s.tracks i) s.mem 0#32 s.frameCount).map
    fun (t, mem) => { s.setTrack i t with mem := mem }

end AudioFlinger.Mixer
