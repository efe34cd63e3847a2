import AudioFlinger.Effects.Model
import AudioFlinger.Foundation.KeyedList

/-!
# The effect chains of a playback thread

`libs/audioflinger/Threads.cpp` and the parts of `AudioFlinger.cpp` that move and
purge effects: the chains of a playback thread, one for a session, and the
suspensions of its sessions, which are kept when a chain goes. A handle is known
by the session and the address of its effect and by its own address. The type of
a playback thread is never `RECORD`.
-/

namespace AudioFlinger.Effects

open Foundation

inductive ThreadType
  | mixer
  | direct
  | duplicating
deriving DecidableEq

structure SuspendedSessionDesc where
  mRefCount : ℤ
  mType : Uuid
deriving DecidableEq

/-- What `createEffect_l` is asked for: the effect and its handle with their addresses and the id
that is drawn, and whether the new effect can be registered and initialised. -/
structure Request where
  session : ℤ
  desc : Descriptor
  priority : ℤ
  self : ℕ
  handle : ℕ
  id : ℤ
  ready : Bool
deriving DecidableEq

/-- The part of `createEffect_l` that works on the chain: a handle of the effect that is there, or a
new effect with its handle. -/
def Chain.createEffect (c : Chain) (r : Request) : Option Chain :=
  match c.getEffectFromDesc r.desc with
  | some e => some (c.updateEffect e.self fun e => e.addHandle (.new r.handle r.priority))
  | none =>
    if r.ready then
      c.addEffect ((Module.new r.self r.id c.mSessionId r.desc).addHandle (.new r.handle r.priority))
    else none

/-! ## Removing effects -/

section Removing

-- a thread of any kind gets the chain of a session, and writes it, or removes one without effects
variable {T : Type} (get : T → Option Chain) (put : Chain → T → T)

/-- `EffectHandle::disconnect`. -/
def disconnectBy (conclude : Chain.Outcome → T → T) (e h : ℕ) (unpinIfLast : Bool) (t : T) : T :=
  (get t).elim t fun c =>
    conclude (c.disconnect e h unpinIfLast).2 (put (c.disconnect e h unpinIfLast).1 t)

def removeBy (t : T) (e : Module) : T := (get t).elim t fun c => put (c.removeEffect e.self) t

/-- One round of the loop of `purgeStaleEffects_l`; `gone` is `checkSuspendOnEffectEnabled_l`. -/
def purgeBy (gone : Module → T → T) (t : T) (e : Module) : T :=
  if e.purgeHandles then gone e (removeBy get put t e) else removeBy get put t e

/-- The effects that the loop has taken out. `checkSuspendOnEffectEnabled_l` restores an effect if the
session still has a chain, in which its type is suspended. -/
def purgedBy (gone : Module → T → T) : T → List Module → List Module
  | _, [] => []
  | t, e :: es =>
    let restored := e.purgeHandles && ((get (removeBy get put t e)).bind fun c => c.desc e.key).isSome
    { e with mPinned := false, mSuspended := e.mSuspended && !restored } ::
      purgedBy gone (purgeBy get put gone t e) es

end Removing

structure PlaybackThread where
  mType : ThreadType
  mEffectChains : List Chain
  mSuspendedSessions : KeyedVector ℤ (KeyedVector ℕ SuspendedSessionDesc)
deriving DecidableEq

namespace PlaybackThread

def new (type : ThreadType) : PlaybackThread := ⟨type, [], .empty⟩

def getEffectChain (t : PlaybackThread) (session : ℤ) : Option Chain :=
  KeyedList.lookup Chain.mSessionId t.mEffectChains session

/-- Write the chain of a session. -/
def updateChain (session : ℤ) (f : Chain → Chain) (t : PlaybackThread) : PlaybackThread :=
  { t with mEffectChains := KeyedList.update Chain.mSessionId session f t.mEffectChains }

/-! ## Suspensions of sessions -/

/-- One suspension more in the entry of a key. -/
def countSuspend (type : Option Uuid) (key : ℕ) (effects : KeyedVector ℕ SuspendedSessionDesc) :
    KeyedVector ℕ SuspendedSessionDesc :=
  let desc := (effects.valueFor key).getD ⟨0, type.getD ⟨0, 0⟩⟩
  effects.add key { desc with mRefCount := desc.mRefCount + 1 }

/-- One suspension less in the entry of a key; an entry without suspensions goes. -/
def countRestore (key : ℕ) (desc : SuspendedSessionDesc) (effects : KeyedVector ℕ SuspendedSessionDesc) :
    KeyedVector ℕ SuspendedSessionDesc :=
  if desc.mRefCount - 1 = 0 then effects.removeItem key
  else effects.add key { desc with mRefCount := desc.mRefCount - 1 }

/-- `updateSuspendedSessions_l`; without a type the suspensions of all effects are meant. -/
def updateSuspendedSessions (type : Option Uuid) (suspend : Bool) (session : ℤ) (t : PlaybackThread) :
    PlaybackThread :=
  let key := type.elim kKeyForSuspendAll Uuid.timeLow
  match t.mSuspendedSessions.valueFor session with
  | none =>
    if suspend then
      { t with mSuspendedSessions := t.mSuspendedSessions.add session (countSuspend type key .empty) }
    else t
  | some effects =>
    if suspend then
      { t with mSuspendedSessions := t.mSuspendedSessions.add session (countSuspend type key effects) }
    else
      match effects.valueFor key with
      | none => t
      | some desc =>
        let effects := countRestore key desc effects
        { t with
          mSuspendedSessions :=
            if effects.items = [] then t.mSuspendedSessions.removeItem session
            else t.mSuspendedSessions.add session effects }

/-- `setEffectSuspended_l`. -/
def setEffectSuspended (policy : ℕ → Bool) (type : Option Uuid) (suspend : Bool) (session : ℤ)
    (t : PlaybackThread) : PlaybackThread :=
  (t.updateChain session fun c => type.elim (c.setEffectSuspendedAll policy suspend) fun type =>
    c.setEffectSuspended policy type suspend).updateSuspendedSessions type suspend session

/-- The inner loop of `checkSuspendOnAddEffectChain_l`, for one entry of the session. -/
def replayEntry (c : Chain) (y : ℕ × SuspendedSessionDesc) : Chain :=
  (fun c : Chain => if y.1 = kKeyForSuspendAll then c.suspendAll else c.suspend y.2.mType)^[
    y.2.mRefCount.toNat] c

/-- `checkSuspendOnAddEffectChain_l`: what is suspended of the session is suspended in the chain. -/
def checkSuspendOnAddEffectChain (t : PlaybackThread) (c : Chain) : Chain :=
  (t.mSuspendedSessions.valueFor c.mSessionId).elim c fun effects => effects.items.foldl replayEntry c

/-! ## Adding and removing chains and effects -/

/-- A chain goes before the first chain of a smaller session. -/
def addEffectChain (c : Chain) (t : PlaybackThread) : PlaybackThread :=
  { t with
    mEffectChains := t.mEffectChains.insertIdx
      (t.mEffectChains.findIdx fun x => x.mSessionId < c.mSessionId) (t.checkSuspendOnAddEffectChain c) }

def removeEffectChain (session : ℤ) (t : PlaybackThread) : PlaybackThread :=
  { t with mEffectChains := t.mEffectChains.eraseP fun c => c.mSessionId = session }

/-- Write the chain of a session; without effects the chain is removed. -/
def putChain (session : ℤ) (c : Chain) (t : PlaybackThread) : PlaybackThread :=
  if c.mEffects = [] then t.removeEffectChain session else t.updateChain session fun _ => c

/-! ## Calls -/

/-- The requests that `createEffect_l` does not look at: only a mixer thread has global effects, and
no playback thread has pre processors. -/
def refuses (t : PlaybackThread) (r : Request) : Bool :=
  (r.session = audioSessionOutputMix && t.mType ≠ .mixer) || r.desc.typeFlag = effectFlagTypePreProc

/-- `createEffect_l`; a chain that was created for an effect goes if the effect cannot be added. -/
def createEffect (r : Request) (t : PlaybackThread) : PlaybackThread :=
  if t.refuses r then t
  else
    match t.getEffectChain r.session with
    | some c => (c.createEffect r).elim t fun c => t.updateChain r.session fun _ => c
    | none =>
      let t := t.addEffectChain (.new r.session)
      ((t.getEffectChain r.session).bind fun c => c.createEffect r).elim
        (t.removeEffectChain r.session) fun c => t.updateChain r.session fun _ => c

/-- Whether the enabled effects of the session suspend the effects of the output mix. -/
def suspendsMix (session : ℤ) : Bool :=
  session ≠ audioSessionOutputMix && session ≠ audioSessionOutputStage

/-- The first part of `checkSuspendOnEffectEnabled_l`; the second is the call of the chain. -/
def suspendMix (policy : ℕ → Bool) (enabled : Bool) (session : ℤ) (t : PlaybackThread) : PlaybackThread :=
  if suspendsMix session then t.setEffectSuspended policy none enabled audioSessionOutputMix else t

/-- The calls of `checkSuspendOnEffectEnabled` in a handle's call, for the session of the mix. -/
def concludeCall (policy : ℕ → Bool) (enabled : Bool) (session : ℤ) (outcome : Chain.Outcome)
    (t : PlaybackThread) : PlaybackThread :=
  match outcome with
  | .unchanged | .silent => t
  | .checked => t.suspendMix policy enabled session
  | .refused => (t.suspendMix policy true session).suspendMix policy false session

/-- `EffectHandle::enable`. -/
def enable (policy : ℕ → Bool) (session : ℤ) (e h : ℕ) (t : PlaybackThread) : PlaybackThread :=
  (t.getEffectChain session).elim t fun c =>
    (t.updateChain session fun _ => (c.enable policy e h).1).concludeCall policy true session
      (c.enable policy e h).2

/-- `EffectHandle::disable`. -/
def disable (policy : ℕ → Bool) (session : ℤ) (e h : ℕ) (t : PlaybackThread) : PlaybackThread :=
  (t.getEffectChain session).elim t fun c =>
    (t.updateChain session fun _ => (c.disable e h).1).concludeCall policy false session
      (c.disable e h).2

/-- `EffectHandle::disconnect`. -/
def disconnect (policy : ℕ → Bool) (session : ℤ) (e h : ℕ) (unpinIfLast : Bool) (t : PlaybackThread) :
    PlaybackThread :=
  disconnectBy (fun t => t.getEffectChain session) (putChain session) (concludeCall policy false session)
    e h unpinIfLast t

/-- `checkSuspendOnEffectEnabled_l` for an effect that is no longer in a chain. -/
def checkSuspendOnEffectGone (policy : ℕ → Bool) (session : ℤ) (e : Module) (t : PlaybackThread) :
    PlaybackThread :=
  (t.suspendMix policy false session).updateChain session fun c => c.checkSuspendOnEffectEnabled e false

/-- One round of the loop of `purgeStaleEffects_l`. -/
def purgeEffect (policy : ℕ → Bool) (session : ℤ) : PlaybackThread → Module → PlaybackThread :=
  purgeBy (fun t => t.getEffectChain session) (putChain session) (checkSuspendOnEffectGone policy session)

/-- The effects of a session's chain. -/
def effectsOf (t : PlaybackThread) (session : ℤ) : List Module :=
  (t.getEffectChain session).elim [] Chain.mEffects

/-- `purgeStaleEffects_l` for the chain of a session without references. -/
def purge (policy : ℕ → Bool) (session : ℤ) (t : PlaybackThread) : PlaybackThread :=
  (t.effectsOf session).foldl (purgeEffect policy session) t

def purgedEffects (policy : ℕ → Bool) (session : ℤ) (t : PlaybackThread) : List Module :=
  purgedBy (fun t => t.getEffectChain session) (putChain session) (checkSuspendOnEffectGone policy session)
    t (t.effectsOf session)

end PlaybackThread

end AudioFlinger.Effects
