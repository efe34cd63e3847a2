import Mathlib.Data.Option.Basic
import Mathlib.Tactic.Common

/-!
# Proxies and stubs

A call through binder: the proxy writes a request, the stub reads it and calls the object, writes a
reply, and the proxy reads it. A parcel is the list of the values written to it. What the object
answers has a shape: a return value, perhaps a status, and the contents of the pointers it was given.
-/

namespace AudioFlinger.Remote

abbrev Word := BitVec 32

abbrev Bytes := List (BitVec 8)

/-- An object, or NULL. -/
abbrev Binder := Option ℕ

def NO_ERROR : Word := 0#32

def BAD_VALUE : Word := -22#32

/-! ## Parcels -/

inductive Value
  | int32 (v : Word)
  | int64 (v : BitVec 64)
  | float (v : Word)
  | string8 (s : Bytes)
  | cString (s : Bytes)
  | binder (b : Binder)
  | raw (data : Bytes)
  | token (name : String)
deriving DecidableEq

abbrev Parcel := List Value

/-- A read that does not find its value reads zeros. -/
abbrev Reader (α : Type) := StateM Parcel α

def readInt32 : Reader Word := fun p => match p with
  | .int32 v :: p => (v, p)
  | p => (0#32, p)

def readInt64 : Reader (BitVec 64) := fun p => match p with
  | .int64 v :: p => (v, p)
  | p => (0#64, p)

def readFloat : Reader Word := fun p => match p with
  | .float v :: p => (v, p)
  | p => (0#32, p)

def readString8 : Reader Bytes := fun p => match p with
  | .string8 s :: p => (s, p)
  | p => ([], p)

def readCString : Reader Bytes := fun p => match p with
  | .cString s :: p => (s, p)
  | p => ([], p)

def readStrongBinder : Reader Binder := fun p => match p with
  | .binder b :: p => (b, p)
  | p => (none, p)

def readRaw : Reader Bytes := fun p => match p with
  | .raw data :: p => (data, p)
  | p => ([], p)

/-- `CHECK_INTERFACE` -/
def checkInterface (name : String) (p : Parcel) : Option Parcel := match p with
  | .token n :: p => if n = name then some p else none
  | _ => none

/-- A `bool` as it is written. -/
def Value.bool (b : Bool) : Value := .int32 (if b then 1#32 else 0#32)

def readBool : Reader Bool := do return (← readInt32) ≠ 0#32

/-! ## Answers -/

structure TrackAnswer where
  track : Binder
  flags : Word
  sessionId : Word
  status : Word

structure RecordAnswer where
  record : Binder
  sessionId : Word
  status : Word

structure InputAnswer where
  handle : Word
  devices : Word
  samplingRate : Word
  format : Word
  channelMask : Word

structure OutputAnswer extends InputAnswer where
  latencyMs : Word

structure PositionAnswer where
  status : Word
  halFrames : Word
  dspFrames : Word

structure CountAnswer where
  status : Word
  numEffects : Word

structure DescriptorAnswer where
  status : Word
  descriptor : Bytes

structure EffectAnswer where
  effect : Binder
  status : Word
  id : Word
  enabled : Word
  descriptor : Bytes

structure BufferAnswer where
  status : Word
  buffer : Binder

/-- `replySize` is what is left in `*pReplySize`, the number of bytes that were written. -/
structure CommandAnswer where
  status : Word
  replySize : Word
  reply : Bytes
  reply_length : reply.length = replySize.toNat

inductive Shape
  | nothing
  | word
  | float
  | flag
  | string
  | binder
  | track
  | record
  | output
  | input
  | position
  | count
  | descriptor
  | effect
  | timedBuffer
  | command

def Shape.Answer : Shape → Type
  | nothing => Unit
  | word => Word
  | float => Word
  | flag => Bool
  | string => Bytes
  | binder => Binder
  | track => TrackAnswer
  | record => RecordAnswer
  | output => OutputAnswer
  | input => InputAnswer
  | position => PositionAnswer
  | count => CountAnswer
  | descriptor => DescriptorAnswer
  | effect => EffectAnswer
  | timedBuffer => BufferAnswer
  | command => CommandAnswer

namespace Shape

/-- The value that is returned. -/
def ret : (k : Shape) → k.Answer → Option Value
  | nothing, _ => none
  | word, v => some (.int32 v)
  | float, v => some (.float v)
  | flag, v => some (.bool v)
  | string, v => some (.string8 v)
  | binder, v => some (.binder v)
  | track, a => some (.binder a.track)
  | record, a => some (.binder a.record)
  | output, a => some (.int32 a.handle)
  | input, a => some (.int32 a.handle)
  | position, a => some (.int32 a.status)
  | count, a => some (.int32 a.status)
  | descriptor, a => some (.int32 a.status)
  | effect, a => some (.binder a.effect)
  | timedBuffer, a => some (.int32 a.status)
  | command, a => some (.int32 a.status)

/-- The status, of the calls that have one besides their values. -/
def status : (k : Shape) → k.Answer → Word
  | track, a => a.status
  | record, a => a.status
  | position, a => a.status
  | count, a => a.status
  | descriptor, a => a.status
  | effect, a => a.status
  | timedBuffer, a => a.status
  | command, a => a.status
  | _, _ => NO_ERROR

/-- The contents of the pointers other than `status`, in the order of the parameters. -/
def outs : (k : Shape) → k.Answer → List Value
  | track, a => [.int32 a.flags, .int32 a.sessionId]
  | record, a => [.int32 a.sessionId]
  | output, a => [.int32 a.devices, .int32 a.samplingRate, .int32 a.format, .int32 a.channelMask,
      .int32 a.latencyMs]
  | input, a => [.int32 a.devices, .int32 a.samplingRate, .int32 a.format, .int32 a.channelMask]
  | position, a => [.int32 a.halFrames, .int32 a.dspFrames]
  | count, a => [.int32 a.numEffects]
  | descriptor, a => [.raw a.descriptor]
  | effect, a => [.raw a.descriptor, .int32 a.id, .int32 a.enabled]
  | timedBuffer, a => [.binder a.buffer]
  | command, a => [.int32 a.replySize, .raw a.reply]
  | _, _ => []

end Shape

/-- What a caller gets: the value, and what was written through `status` and the other pointers. -/
structure Outcome where
  ret : Option Value
  status : Option Word
  outs : List (Option Value)
deriving DecidableEq

/-- Nothing is written through a NULL pointer. -/
def out {α : Type} (pointer : Bool) (v : α) : Option α := if pointer then some v else none

/-! ## Calls -/

/-- A proxy and its stub. `request` is what the proxy returns by itself, or sends; `arguments` is what
the stub hands to the object. -/
structure Interface where
  Call : Type
  Code : Type
  shape : Call → Shape
  request : Call → Outcome ⊕ Code × Parcel
  arguments : Code → Parcel → Option Call
  reply : (c : Call) → (shape c).Answer → Parcel
  result : Call → Parcel → Outcome
  statusPointer : Call → Bool
  pointers : Call → List Bool

namespace Interface

variable (I : Interface) {σ : Type}

/-- A service object with its state. -/
abbrev Object (σ : Type) := (c : I.Call) → σ → (I.shape c).Answer × σ

/-- What the caller gets from an answer to the call. -/
def given (c : I.Call) {k : Shape} (a : k.Answer) : Outcome where
  ret := k.ret a
  status := out (I.statusPointer c) (k.status a)
  outs := List.zipWith out (I.pointers c) (k.outs a)

/-- The call in the process of the object. -/
def direct (object : I.Object σ) (c : I.Call) (s : σ) : Outcome × σ :=
  (I.given c (object c s).1, (object c s).2)

/-- The call through the proxy and the stub, delivered. -/
def remote (object : I.Object σ) (c : I.Call) (s : σ) : Option (Outcome × σ) :=
  match I.request c with
  | .inl o => some (o, s)
  | .inr (code, data) => (I.arguments code data).map fun seen =>
      (I.result c (I.reply seen (object seen s).1), (object seen s).2)

end Interface

/-- The value and the status are the same, and the contents of the pointers where they count. -/
structure Outcome.Agrees (o o' : Outcome) (contents : Prop) : Prop where
  ret : o.ret = o'.ret
  status : o.status = o'.status
  outs : contents → o.outs = o'.outs

end AudioFlinger.Remote
