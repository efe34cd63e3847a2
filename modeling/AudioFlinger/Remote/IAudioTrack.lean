import AudioFlinger.Remote.Interface

/-!
# The interfaces of tracks and effects
-/

/-!
## IAudioTrack

`BpAudioTrack` and `BnAudioTrack::onTransact` in `libs/libmedia/IAudioTrack.cpp`.
-/

namespace AudioFlinger.Remote.IAudioTrack

def descriptor : String := "android.media.IAudioTrack"

inductive Code
  | GET_CBLK
  | START
  | STOP
  | FLUSH
  | PAUSE
  | ATTACH_AUX_EFFECT
  | ALLOCATE_TIMED_BUFFER
  | QUEUE_TIMED_BUFFER
  | SET_MEDIA_TIME_TRANSFORM

structure LinearTransform where
  a_zero : BitVec 64
  b_zero : BitVec 64
  a_to_b_numer : Word
  a_to_b_denom : Word

inductive Call
  | getCblk
  | start
  | stop
  | flush
  | pause
  | attachAuxEffect (effectId : Word)
  | allocateTimedBuffer (size : Word)
  | queueTimedBuffer (buffer : Binder) (pts : BitVec 64)
  | setMediaTimeTransform (xform : LinearTransform) (target : Word)

def shape : Call → Shape
  | .getCblk => .binder
  | .start => .word
  | .stop => .nothing
  | .flush => .nothing
  | .pause => .nothing
  | .attachAuxEffect _ => .word
  | .allocateTimedBuffer _ => .timedBuffer
  | .queueTimedBuffer .. => .word
  | .setMediaTimeTransform .. => .word

/-- The proxy. -/
def request : Call → Outcome ⊕ Code × Parcel
  | .getCblk => .inr (.GET_CBLK, [.token descriptor])
  | .start => .inr (.START, [.token descriptor])
  | .stop => .inr (.STOP, [.token descriptor])
  | .flush => .inr (.FLUSH, [.token descriptor])
  | .pause => .inr (.PAUSE, [.token descriptor])
  | .attachAuxEffect effectId => .inr (.ATTACH_AUX_EFFECT, [.token descriptor, .int32 effectId])
  | .allocateTimedBuffer size => .inr (.ALLOCATE_TIMED_BUFFER, [.token descriptor, .int32 size])
  | .queueTimedBuffer buffer pts =>
    .inr (.QUEUE_TIMED_BUFFER, [.token descriptor, .binder buffer, .int64 pts])
  | .setMediaTimeTransform xform target =>
    .inr (.SET_MEDIA_TIME_TRANSFORM, [.token descriptor, .int64 xform.a_zero, .int64 xform.b_zero,
      .int32 xform.a_to_b_numer, .int32 xform.a_to_b_denom, .int32 target])

/-- What the stub reads for a code, and the call that it makes. -/
def arguments : Code → Reader Call
  | .GET_CBLK => return .getCblk
  | .START => return .start
  | .STOP => return .stop
  | .FLUSH => return .flush
  | .PAUSE => return .pause
  | .ATTACH_AUX_EFFECT => return .attachAuxEffect (← readInt32)
  | .ALLOCATE_TIMED_BUFFER => return .allocateTimedBuffer (← readInt32)
  | .QUEUE_TIMED_BUFFER => do
    let buffer ← readStrongBinder
    let pts ← readInt64
    return .queueTimedBuffer buffer pts
  | .SET_MEDIA_TIME_TRANSFORM => do
    let a_zero ← readInt64
    let b_zero ← readInt64
    let a_to_b_numer ← readInt32
    let a_to_b_denom ← readInt32
    let target ← readInt32
    return .setMediaTimeTransform ⟨a_zero, b_zero, a_to_b_numer, a_to_b_denom⟩ target

/-- What the stub writes. -/
def reply : (c : Call) → (shape c).Answer → Parcel
  | .getCblk, a => [.binder a]
  | .start, a => [.int32 a]
  | .stop, _ => []
  | .flush, _ => []
  | .pause, _ => []
  | .attachAuxEffect _, a => [.int32 a]
  | .allocateTimedBuffer _, a =>
    let a : BufferAnswer := a
    .int32 a.status :: if a.status = NO_ERROR then [.binder a.buffer] else []
  | .queueTimedBuffer .., a => [.int32 a]
  | .setMediaTimeTransform .., a => [.int32 a]

/-- What the proxy returns from a reply, and writes through the pointers. -/
def result : Call → Reader Outcome
  | .getCblk => return ⟨some (.binder (← readStrongBinder)), none, []⟩
  | .start => return ⟨some (.int32 (← readInt32)), none, []⟩
  | .stop => return ⟨none, none, []⟩
  | .flush => return ⟨none, none, []⟩
  | .pause => return ⟨none, none, []⟩
  | .attachAuxEffect _ => return ⟨some (.int32 (← readInt32)), none, []⟩
  | .allocateTimedBuffer _ => do
    let status ← readInt32
    if status = NO_ERROR then return ⟨some (.int32 status), none, [some (.binder (← readStrongBinder))]⟩
    else return ⟨some (.int32 status), none, [none]⟩
  | .queueTimedBuffer .. => return ⟨some (.int32 (← readInt32)), none, []⟩
  | .setMediaTimeTransform .. => return ⟨some (.int32 (← readInt32)), none, []⟩

/-- `buffer` is the only pointer, and never NULL. -/
def pointers : Call → List Bool
  | .allocateTimedBuffer _ => [true]
  | _ => []

end AudioFlinger.Remote.IAudioTrack

namespace AudioFlinger.Remote

open IAudioTrack

def iAudioTrack : Interface where
  Call := Call
  Code := Code
  shape := shape
  request := request
  arguments code data := (checkInterface descriptor data).map fun data => (arguments code data).1
  reply := reply
  result c data := (result c data).1
  statusPointer _ := false
  pointers := pointers

end AudioFlinger.Remote

/-!
## IEffect

`BpEffect` and `BnEffect::onTransact` in `libs/libmedia/IEffect.cpp`. Of `command`, `pCmdData` is the
`cmdSize` bytes that it points to, and `pReplySize` what it points to before the call.
-/

namespace AudioFlinger.Remote.IEffect

def descriptor : String := "android.media.IEffect"

inductive Code
  | ENABLE
  | DISABLE
  | COMMAND
  | DISCONNECT
  | GET_CBLK

inductive Call
  | enable
  | disable
  | command (cmdCode cmdSize : Word) (pCmdData : Option Bytes) (pReplySize : Option Word) (pReplyData : Bool)
  | disconnect
  | getCblk

def shape : Call → Shape
  | .enable => .word
  | .disable => .word
  | .command .. => .command
  | .disconnect => .nothing
  | .getCblk => .binder

/-- The proxy. -/
def request : Call → Outcome ⊕ Code × Parcel
  | .enable => .inr (.ENABLE, [.token descriptor])
  | .disable => .inr (.DISABLE, [.token descriptor])
  | .command cmdCode cmdSize pCmdData pReplySize _ =>
    let size := if pCmdData = none then 0#32 else cmdSize
    let cmd := if size ≠ 0#32 then [.raw (pCmdData.getD [])] else []
    .inr (.COMMAND, [.token descriptor, .int32 cmdCode, .int32 size] ++ cmd ++
      [.int32 (pReplySize.getD 0#32)])
  | .disconnect => .inr (.DISCONNECT, [.token descriptor])
  | .getCblk => .inr (.GET_CBLK, [.token descriptor])

/-- What the stub reads for a code, and the call that it makes. -/
def arguments : Code → Reader Call
  | .ENABLE => return .enable
  | .DISABLE => return .disable
  | .COMMAND => do
    let cmdCode ← readInt32
    let cmdSize ← readInt32
    let cmd ← if cmdSize ≠ 0#32 then some <$> readRaw else pure none
    let replySize ← readInt32
    return .command cmdCode cmdSize cmd (some replySize) (replySize ≠ 0#32)
  | .DISCONNECT => return .disconnect
  | .GET_CBLK => return .getCblk

/-- What the stub writes. -/
def reply : (c : Call) → (shape c).Answer → Parcel
  | .enable, a => [.int32 a]
  | .disable, a => [.int32 a]
  | .command _ _ _ pReplySize _, a =>
    let a : CommandAnswer := a
    let offered := pReplySize.getD 0#32
    -- `replySize` is cut down to `replySz`, never raised to it
    let replySize := if a.replySize < offered then a.replySize else offered
    [.int32 a.status, .int32 replySize] ++
      if replySize ≠ 0#32 then [.raw (a.reply.take replySize.toNat)] else []
  | .disconnect, _ => []
  | .getCblk, a => [.binder a]

/-- What the proxy returns from a reply, and writes through the pointers. -/
def result : Call → Reader Outcome
  | .enable => return ⟨some (.int32 (← readInt32)), none, []⟩
  | .disable => return ⟨some (.int32 (← readInt32)), none, []⟩
  | .command _ _ _ pReplySize pReplyData => do
    let status ← readInt32
    let size ← readInt32
    if size ≠ 0#32 ∧ pReplyData ∧ pReplySize.isSome then
      return ⟨some (.int32 status), none, [some (.int32 size), some (.raw (← readRaw))]⟩
    else
      -- `*pReplySize` and the buffer are left as they were
      return ⟨some (.int32 status), none, [pReplySize.map .int32, none]⟩
  | .disconnect => return ⟨none, none, []⟩
  | .getCblk => return ⟨some (.binder (← readStrongBinder)), none, []⟩

/-- The pointers that are not NULL. -/
def pointers : Call → List Bool
  | .command _ _ _ pReplySize pReplyData => [pReplySize.isSome, pReplyData]
  | _ => []

end AudioFlinger.Remote.IEffect

namespace AudioFlinger.Remote

open IEffect

def iEffect : Interface where
  Call := Call
  Code := Code
  shape := shape
  request := request
  arguments code data := (checkInterface descriptor data).map fun data => (arguments code data).1
  reply := reply
  result c data := (result c data).1
  statusPointer _ := false
  pointers := pointers

end AudioFlinger.Remote
