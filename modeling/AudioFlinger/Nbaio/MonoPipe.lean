import AudioFlinger.Foundation.RingMemory
import AudioFlinger.Nbaio.FrontAndNRPTS
import AudioFlinger.Nbaio.Roundup

/-!
# `MonoPipe` and `MonoPipeReader`

One writer and one reader share a buffer of `mMaxFrames` slots and the two
indices `mFront` and `mRear`. Each side runs its call in the steps the other
side can see: a load of the other's index, the copies, the store of its own
index. The sleep of a blocking `write` is left out, so that a blocked writer
may go on at any time.
-/

namespace AudioFlinger.Nbaio

open Foundation RingMemory

/-- A negative `ssize_t`. -/
def NEGOTIATE : U32 := 0x80000010#32

/-- What the constructors and the negotiation of both ends fix. -/
structure MonoPipeConfig where
  mMaxFrames : U32
  mWriteCanBlock : Bool
  sinkNegotiated : Bool
  sourceNegotiated : Bool
  size : IsPowerOfTwo 30 mMaxFrames

/-- The slot of an index. -/
def MonoPipeConfig.slot (cfg : MonoPipeConfig) (index : U32) : U32 :=
  index &&& (cfg.mMaxFrames - 1#32)

/-- How many of `n` frames from the slot of `index` on lie before the end of the buffer. -/
def MonoPipeConfig.part1 (cfg : MonoPipeConfig) (index n : U32) : U32 :=
  if n < cfg.mMaxFrames - cfg.slot index then n else cfg.mMaxFrames - cfg.slot index

/-- The copy goes on at the start of the buffer. -/
def MonoPipeConfig.Splits (cfg : MonoPipeConfig) (index n : U32) : Prop :=
  cfg.slot index + cfg.part1 index n = cfg.mMaxFrames ∧ 0#32 < n - cfg.part1 index n

instance (cfg : MonoPipeConfig) (index n : U32) : Decidable (cfg.Splits index n) :=
  inferInstanceAs (Decidable (_ ∧ _))

variable {α : Type*}

/-! ## State -/

/-- The arguments and local variables of a `write`. The pointer `buffer` is kept as the number
of frames it has moved into the caller's data. -/
structure WriteCall (α : Type*) where
  data : List α
  buffer : ℕ
  count : U32
  totalFramesWritten : U32

/-- The next step of the writer. -/
inductive Writer (α : Type*)
  | idle
  | loadFront (c : WriteCall α)
  | part1 (c : WriteCall α) (written : U32)
  | part2 (c : WriteCall α) (written : U32)
  | storeRear (c : WriteCall α) (written : U32)
  | next (c : WriteCall α) (written : U32)

structure ReadCall where
  count : U32
  nextReadPTS : Pts
  deriving DecidableEq, Repr

/-- The next step of the reader; `out` is what it has copied so far. -/
inductive Reader (α : Type*)
  | idle
  | loadRear (c : ReadCall)
  | part1 (c : ReadCall) (red : U32)
  | part2 (c : ReadCall) (red : U32) (out : List α)
  | beginUpdate (c : ReadCall) (newFront red : U32) (out : List α)
  | update (u : Updater) (red : U32) (out : List α)

structure MonoPipe (α : Type*) where
  mBuffer : ℕ → α
  mRear : U32
  shared : FrontAndNRPTS
  mIsShutdown : Bool
  mFramesWritten : U32
  mFramesRead : U32
  writer : Writer α
  reader : Reader α
  /-- The frames that completed calls of `write` reported as written. -/
  reported : List α
  /-- The frames that completed calls of `read` returned. -/
  delivered : List α

/-- The empty pipe, with both indices at `index`. -/
def MonoPipe.start (index : U32) (nextRdPTS : Pts) (mem : ℕ → α) : MonoPipe α where
  mBuffer := mem
  mRear := index
  shared := { mUpdateSeq := 0, mFront := index, mNextRdPTS := nextRdPTS }
  mIsShutdown := false
  mFramesWritten := 0
  mFramesRead := 0
  writer := .idle
  reader := .idle
  reported := []
  delivered := []

/-! ## The writer -/

def MonoPipe.availableToWrite (cfg : MonoPipeConfig) (s : MonoPipe α) : U32 :=
  if cfg.sinkNegotiated then cfg.mMaxFrames - (s.mRear - s.shared.mFront) else NEGOTIATE

/-- `write` up to its loop. -/
def MonoPipe.write (cfg : MonoPipeConfig) (s : MonoPipe α) (data : List α) : MonoPipe α :=
  if cfg.sinkNegotiated then
    { s with writer := .loadFront ⟨data, 0, BitVec.ofNat 32 data.length, 0⟩ }
  else s

/-- The end of `write`. -/
def MonoPipe.wrote (s : MonoPipe α) (c : WriteCall α) : MonoPipe α :=
  { s with
    mFramesWritten := s.mFramesWritten + c.totalFramesWritten
    writer := .idle
    reported := s.reported ++ c.data.take c.totalFramesWritten.toNat }

def MonoPipe.stepWriter (cfg : MonoPipeConfig) (s : MonoPipe α) : Option (MonoPipe α) :=
  match s.writer with
  | .idle => none
  | .loadFront c =>
    if c.count = 0 then some (s.wrote c)
    else
      let avail := s.availableToWrite cfg
      let written := if c.count < avail then c.count else avail
      some { s with
        writer := if 0#32 < cfg.part1 s.mRear written then .part1 c written else .next c written }
  | .part1 c written =>
    some { s with
      mBuffer := blit s.mBuffer (cfg.slot s.mRear).toNat
        ((c.data.drop c.buffer).take (cfg.part1 s.mRear written).toNat)
      writer := if cfg.Splits s.mRear written then .part2 c written else .storeRear c written }
  | .part2 c written =>
    some { s with
      mBuffer := blit s.mBuffer 0
        ((c.data.drop (c.buffer + (cfg.part1 s.mRear written).toNat)).take
          (written - cfg.part1 s.mRear written).toNat)
      writer := .storeRear c written }
  | .storeRear c written =>
    some { s with
      mRear := written + s.mRear
      writer := .next { c with totalFramesWritten := c.totalFramesWritten + written } written }
  | .next c written =>
    if ¬ cfg.mWriteCanBlock ∨ s.mIsShutdown then some (s.wrote c)
    else
      some { s with
        writer := .loadFront
          { c with count := c.count - written, buffer := c.buffer + written.toNat } }

/-! ## The reader -/

def MonoPipe.availableToRead (cfg : MonoPipeConfig) (s : MonoPipe α) : U32 :=
  if cfg.sourceNegotiated then s.mRear - s.shared.mFront else NEGOTIATE

/-- The end of `read`. Only a read of frames counts. -/
def MonoPipe.returned (s : MonoPipe α) (red : U32) (out : List α) : MonoPipe α :=
  { s with
    mFramesRead := if red.toInt ≤ 0 then s.mFramesRead else s.mFramesRead + red
    reader := .idle
    delivered := s.delivered ++ out }

def MonoPipe.stepReader (cfg : MonoPipeConfig) (s : MonoPipe α) : Option (MonoPipe α) :=
  match s.reader with
  | .idle => none
  | .loadRear c =>
    let avail := s.availableToRead cfg
    -- underflow, or not negotiated: only the time stamp is updated
    if avail.toInt ≤ 0 then
      some { s with reader := .beginUpdate c s.shared.mFront avail [] }
    else
      let red := if c.count < avail then c.count else avail
      if 0#32 < cfg.part1 s.shared.mFront red then some { s with reader := .part1 c red }
      else some (s.returned red [])
  | .part1 c red =>
    let out := slice s.mBuffer (cfg.slot s.shared.mFront).toNat
      (cfg.part1 s.shared.mFront red).toNat
    some { s with
      reader :=
        if cfg.Splits s.shared.mFront red then .part2 c red out
        else .beginUpdate c (red + s.shared.mFront) red out }
  | .part2 c red out =>
    some { s with
      reader := .beginUpdate c (red + s.shared.mFront) red
        (out ++ slice s.mBuffer 0 (red - cfg.part1 s.shared.mFront red).toNat) }
  | .beginUpdate c newFront red out =>
    some { s with
      shared := (s.shared.beginUpdate newFront c.nextReadPTS).1
      reader := .update (s.shared.beginUpdate newFront c.nextReadPTS).2 red out }
  | .update u red out =>
    match s.shared.update u with
    | (v, some u') => some { s with shared := v, reader := .update u' red out }
    | (v, none) => some ({ s with shared := v }.returned red out)

/-! ## Both together -/

/-- A call of `write` or `read`, the next step of either side, or a call of `shutdown`. -/
inductive MonoPipeEvent (α : Type*)
  | write (data : List α)
  | writer
  | read (count : U32) (nextReadPTS : Pts)
  | reader
  | shutdown (newState : Bool)

def monoPipeStep (cfg : MonoPipeConfig) (s : MonoPipe α) : MonoPipeEvent α → Option (MonoPipe α)
  | .write data =>
    match s.writer with
    | .idle => if data.length < 2 ^ 32 then some (s.write cfg data) else none
    | _ => none
  | .writer => s.stepWriter cfg
  | .read count nextReadPTS =>
    match s.reader with
    | .idle => some { s with reader := .loadRear ⟨count, nextReadPTS⟩ }
    | _ => none
  | .reader => s.stepReader cfg
  | .shutdown newState => some { s with mIsShutdown := newState }

/-! ## What the two sides touch -/

/-- The slots of the copy the writer is about to make. -/
def MonoPipe.Writing (cfg : MonoPipeConfig) (s : MonoPipe α) (i : ℕ) : Prop :=
  match s.writer with
  | .part1 _ written =>
    (cfg.slot s.mRear).toNat ≤ i ∧
      i < (cfg.slot s.mRear).toNat + (cfg.part1 s.mRear written).toNat
  | .part2 _ written => i < (written - cfg.part1 s.mRear written).toNat
  | _ => False

/-- The slots of the copy the reader is about to make. -/
def MonoPipe.Reading (cfg : MonoPipeConfig) (s : MonoPipe α) (i : ℕ) : Prop :=
  match s.reader with
  | .part1 _ red =>
    (cfg.slot s.shared.mFront).toNat ≤ i ∧
      i < (cfg.slot s.shared.mFront).toNat + (cfg.part1 s.shared.mFront red).toNat
  | .part2 _ red _ => i < (red - cfg.part1 s.shared.mFront red).toNat
  | _ => False

/-- The frames the `write` under way has published so far. -/
def Writer.published : Writer α → List α
  | .idle => []
  | .loadFront c => c.data.take c.totalFramesWritten.toNat
  | .part1 c _ => c.data.take c.totalFramesWritten.toNat
  | .part2 c _ => c.data.take c.totalFramesWritten.toNat
  | .storeRear c _ => c.data.take c.totalFramesWritten.toNat
  | .next c _ => c.data.take c.totalFramesWritten.toNat

end AudioFlinger.Nbaio
