import AudioFlinger.Foundation.KeyedVector
import AudioFlinger.Foundation.Machine
import Mathlib.Algebra.Order.Ring.Int

/-!
# Modules, threads and effects under their ids

The ids of `AudioFlinger` in `libs/audioflinger/AudioFlinger.cpp`: handles of hardware modules,
io handles of outputs and inputs, sessions and effects all come from `nextUniqueId`. Each
call is made under the lock and is one step. Outcomes of the audio HAL and of the effect
factory are inputs. The loads that `findSuitableHwDev_l` makes for module 0 are steps before
the one that opens.
-/

namespace AudioFlinger.Identifiers

open Foundation

/-- A C string without its last byte. -/
abbrev Name := List Char

/-- `strncmp(s, t, n) == 0`. -/
def strncmpZero (s t : Name) (n : ℕ) : Bool := s.take n = t.take n

structure AudioHwDevice where
  moduleName : Name
  hwDevice : ℕ
deriving DecidableEq

inductive ThreadType
  | mixer
  | direct
  | duplicating
  | record
deriving DecidableEq

/-- A thread by its address. -/
structure Thread where
  self : ℕ
  mType : ThreadType
deriving DecidableEq

structure Effect where
  id : ℤ
  self : ℕ
  uuid : ℕ
deriving DecidableEq

/-- A chain of the thread at address `mThread`. -/
structure Chain where
  mThread : ℕ
  mSessionId : ℤ
  mEffects : List Effect
deriving DecidableEq

namespace Chain

/-- By convention the first effect for id 0. -/
def getEffectFromId_l (c : Chain) (id : ℤ) : Option Effect := c.mEffects.find? fun e => id = 0 ∨ e.id = id

def getEffectFromDesc_l (c : Chain) (uuid : ℕ) : Option Effect := c.mEffects.find? fun e => e.uuid = uuid

end Chain

/-- Besides the maps there is what a client knows: the ids that were drawn (the last one first), the
modules that were loaded, the threads that are open, the effects with their ids, and for a
request that was answered by a loaded module both names. -/
structure Flinger where
  mAudioHwDevs : KeyedVector ℤ AudioHwDevice
  mPlaybackThreads : KeyedVector ℤ Thread
  mRecordThreads : KeyedVector ℤ Thread
  chains : List Chain
  addresses : ℕ
  drawn : List ℤ
  loaded : List (ℤ × AudioHwDevice)
  outputs : List (ℤ × Thread)
  inputs : List (ℤ × Thread)
  created : List Effect
  reused : List (Name × Name)
deriving DecidableEq

/-- The id that comes after those drawn. -/
def nextUniqueId (_ : List ℤ) : ℤ := 1

inductive Event
  | loadHwModule (name : Name) (loads : Bool)
  | openOutput (module : ℤ) (supports : ℕ → Bool) (opened : Option ThreadType)
  | openDuplicateOutput (output1 output2 : ℤ)
  | closeOutput (output : ℤ)
  | openInput (module : ℤ) (supports : ℕ → Bool) (opened : Bool)
  | closeInput (input : ℤ)
  | newAudioSessionId
  | createTrack (output : ℤ) (hasSession : Bool)
  | openRecord (input : ℤ) (hasSession : Bool)
  | createEffect (io sessionId : ℤ) (uuid : ℕ) (accepted registered : Bool) (position : ℕ)
  | removeEffect (effect : Effect)

namespace Flinger

def new : Flinger where
  mAudioHwDevs := .empty
  mPlaybackThreads := .empty
  mRecordThreads := .empty
  chains := []
  addresses := 0
  drawn := []
  loaded := []
  outputs := []
  inputs := []
  created := []
  reused := []

/-! ## Looking up -/

def checkPlaybackThread_l (w : Flinger) (output : ℤ) : Option Thread := w.mPlaybackThreads.valueFor output

def checkMixerThread_l (w : Flinger) (output : ℤ) : Option Thread :=
  (w.checkPlaybackThread_l output).filter fun t => t.mType ≠ .direct

def checkRecordThread_l (w : Flinger) (input : ℤ) : Option Thread := w.mRecordThreads.valueFor input

/-- The loaded module that answers a request by name. -/
def moduleFor (w : Flinger) (name : Name) : Option (ℤ × AudioHwDevice) :=
  w.mAudioHwDevs.items.find? fun p => strncmpZero p.2.moduleName name name.length

def findSuitableHwDev_l (w : Flinger) (module : ℤ) (supports : ℕ → Bool) : Option AudioHwDevice :=
  if module = 0 then (w.mAudioHwDevs.items.map Prod.snd).find? fun dev => supports dev.hwDevice
  else w.mAudioHwDevs.valueFor module

/-- The thread of an effect: a record thread goes first. -/
def effectThread (w : Flinger) (io : ℤ) : Option Thread :=
  (w.checkRecordThread_l io).or (w.checkPlaybackThread_l io)

def getEffectChain_l (w : Flinger) (t : Thread) (sessionId : ℤ) : Option Chain :=
  w.chains.find? fun c => c.mThread = t.self ∧ c.mSessionId = sessionId

/-- The effect of the same kind that is there. -/
def sameEffect (w : Flinger) (t : Thread) (sessionId : ℤ) (uuid : ℕ) : Option Effect :=
  (w.getEffectChain_l t sessionId).bind fun c => c.getEffectFromDesc_l uuid

/-! ## The calls -/

section Calls

variable (next : List ℤ → ℤ)

def draw (w : Flinger) : Flinger := { w with drawn := next w.drawn :: w.drawn }

/-- A new module under the id just drawn. -/
def addModule (name : Name) (w : Flinger) : Flinger :=
  let dev : AudioHwDevice := ⟨name, w.addresses⟩
  { w.draw next with
    mAudioHwDevs := w.mAudioHwDevs.add (next w.drawn) dev
    addresses := w.addresses + 1
    loaded := (next w.drawn, dev) :: w.loaded }

def loadHwModule (name : Name) (loads : Bool) (w : Flinger) : Flinger :=
  match w.moduleFor name with
  | some p => { w with reused := (name, p.2.moduleName) :: w.reused }
  | none => if loads then w.addModule next name else w

def addOutput (type : ThreadType) (w : Flinger) : Flinger :=
  let t : Thread := ⟨w.addresses, type⟩
  { w.draw next with
    mPlaybackThreads := w.mPlaybackThreads.add (next w.drawn) t
    addresses := w.addresses + 1
    outputs := (next w.drawn, t) :: w.outputs }

def addInput (w : Flinger) : Flinger :=
  let t : Thread := ⟨w.addresses, .record⟩
  { w.draw next with
    mRecordThreads := w.mRecordThreads.add (next w.drawn) t
    addresses := w.addresses + 1
    inputs := (next w.drawn, t) :: w.inputs }

def openOutput (module : ℤ) (supports : ℕ → Bool) (opened : Option ThreadType) (w : Flinger) : Flinger :=
  match w.findSuitableHwDev_l module supports with
  | none => w
  | some _ =>
    match opened with
    | some type => w.addOutput next type
    | none => w.draw next

def openDuplicateOutput (output1 output2 : ℤ) (w : Flinger) : Flinger :=
  if (w.checkMixerThread_l output1).isSome && (w.checkMixerThread_l output2).isSome then w.addOutput next .duplicating
  else w

def closeOutput (output : ℤ) (w : Flinger) : Flinger :=
  match w.checkPlaybackThread_l output with
  | none => w
  | some t =>
    { w with
      mPlaybackThreads := w.mPlaybackThreads.removeItem output
      outputs := w.outputs.filter fun p => p.2 ≠ t }

def openInput (module : ℤ) (supports : ℕ → Bool) (opened : Bool) (w : Flinger) : Flinger :=
  match w.findSuitableHwDev_l module supports with
  | none => w
  | some _ => if opened then w.addInput next else w.draw next

def closeInput (input : ℤ) (w : Flinger) : Flinger :=
  match w.checkRecordThread_l input with
  | none => w
  | some t =>
    { w with
      mRecordThreads := w.mRecordThreads.removeItem input
      inputs := w.inputs.filter fun p => p.2 ≠ t }

/-- The session of a track: given by the client, or drawn if the thread is there. -/
def session (thread : Option Thread) (hasSession : Bool) (w : Flinger) : Flinger :=
  if thread.isSome && !hasSession then w.draw next else w

/-- A new effect under the id just drawn, in the chain of its session. -/
def addEffect (t : Thread) (sessionId : ℤ) (uuid position : ℕ) (w : Flinger) : Flinger :=
  let effect : Effect := ⟨next w.drawn, w.addresses, uuid⟩
  { w.draw next with
    chains :=
      match w.getEffectChain_l t sessionId with
      | some c => { c with mEffects := c.mEffects.insertIdx position effect } :: w.chains.erase c
      | none => ⟨t.self, sessionId, [effect]⟩ :: w.chains
    addresses := w.addresses + 1
    created := effect :: w.created }

def createEffect (io sessionId : ℤ) (uuid : ℕ) (accepted registered : Bool) (position : ℕ) (w : Flinger) :
    Flinger :=
  match w.effectThread io with
  | none => w
  | some t =>
    if accepted && (w.sameEffect t sessionId uuid).isNone then
      if registered then w.addEffect next t sessionId uuid position else w.draw next
    else w

/-- A chain goes with its last effect. -/
def removeEffect (effect : Effect) (w : Flinger) : Flinger :=
  { w with
    chains := (w.chains.map fun c => { c with mEffects := c.mEffects.filter fun e => e ≠ effect }).filter
      fun c => c.mEffects ≠ [] }

def step (w : Flinger) : Event → Option Flinger
  | .loadHwModule name loads => some (w.loadHwModule next name loads)
  | .openOutput module supports opened => some (w.openOutput next module supports opened)
  | .openDuplicateOutput output1 output2 => some (w.openDuplicateOutput next output1 output2)
  | .closeOutput output => some (w.closeOutput output)
  | .openInput module supports opened => some (w.openInput next module supports opened)
  | .closeInput input => some (w.closeInput input)
  | .newAudioSessionId => some (w.draw next)
  | .createTrack output hasSession => some (w.session next (w.checkPlaybackThread_l output) hasSession)
  | .openRecord input hasSession => some (w.session next (w.checkRecordThread_l input) hasSession)
  | .createEffect io sessionId uuid accepted registered position =>
    some (w.createEffect next io sessionId uuid accepted registered position)
  | .removeEffect effect => some (w.removeEffect effect)

end Calls

/-- The call asks for an id. -/
def draws (w : Flinger) : Event → Bool
  | .loadHwModule name loads => (w.moduleFor name).isNone && loads
  | .openOutput module supports _ | .openInput module supports _ => (w.findSuitableHwDev_l module supports).isSome
  | .openDuplicateOutput output1 output2 =>
    (w.checkMixerThread_l output1).isSome && (w.checkMixerThread_l output2).isSome
  | .newAudioSessionId => true
  | .createTrack output hasSession => (w.checkPlaybackThread_l output).isSome && !hasSession
  | .openRecord input hasSession => (w.checkRecordThread_l input).isSome && !hasSession
  | .createEffect io sessionId uuid accepted _ _ =>
    (w.effectThread io).any fun t => accepted && (w.sameEffect t sessionId uuid).isNone
  | .closeOutput _ | .closeInput _ | .removeEffect _ => false

end Flinger

end AudioFlinger.Identifiers
