import Mathlib.Data.List.Sort
import AudioFlinger.Foundation.Words
import AudioFlinger.Foundation.KeyedList
import AudioFlinger.Foundation.Machine
import AudioFlinger.Playback.Track

/-!
# The tracks of a playback thread

A mixer or direct thread of `libs/audioflinger/Threads.cpp` between its clients:
tracks are created, started, stopped, paused, flushed and destroyed, the thread's
loop prepares its active tracks and removes some of them, and effect chains come
and go. The `OutputTrack`s of duplicating threads are among the tracks of a mixer
thread. `LOG_FATAL` is an empty macro, and the code goes on past it. A weak pointer in `mActiveTracks` is a track's address. Calls to the audio
policy and to the fast mixer's queue are kept in logs, the newest first.
-/

namespace AudioFlinger.Playback

open Foundation BitMask

/-- An effect chain with its counts, and whether its input is the thread's mix buffer. -/
structure Chain where
  mSessionId : ℤ
  mTrackCnt : ℤ
  mActiveTrackCnt : ℤ
  mInBufferIsMix : Bool
deriving DecidableEq

def Chain.incTrackCnt (c : Chain) : Chain := { c with mTrackCnt := c.mTrackCnt + 1 }
def Chain.decTrackCnt (c : Chain) : Chain := { c with mTrackCnt := c.mTrackCnt - 1 }
def Chain.incActiveTrackCnt (c : Chain) : Chain := { c with mActiveTrackCnt := c.mActiveTrackCnt + 1 }
def Chain.decActiveTrackCnt (c : Chain) : Chain := { c with mActiveTrackCnt := c.mActiveTrackCnt - 1 }

/-- A state pushed to the fast mixer, acknowledged or not before the push returned; and a slot that is
returned to `mFastTrackAvailMask`. -/
inductive FastOp
  | pushed (mTrackMask : BitVec 32) (acked : Bool)
  | returned (slot : ℕ)
deriving DecidableEq

/-- A track starts to use the output; and `AudioSystem::stopOutput` for it. -/
inductive UsageOp
  | activated (track : ℕ)
  | stopOutput (track : ℕ)
deriving DecidableEq

/-- `destroying` has the tracks whose destruction has begun, `tracksToRemove` those that the loop
still has to look at, and `fatal` says that a `LOG_FATAL` was passed. -/
structure Thread where
  isDirect : Bool
  hasFastMixer : Bool
  mTracks : List Track
  mActiveTracks : List ℕ
  mEffectChains : List Chain
  mStandby : Bool
  mFastTrackAvailMask : BitVec 32
  mTrackMask : BitVec 32
  tracksToRemove : List ℕ
  destroying : List ℕ
  fatal : Bool
  fastLog : List FastOp
  usageLog : List UsageOp
deriving DecidableEq

/-- What a new track is created from: whether it may be a fast track, whether it gets its control
block and its name, the underruns of its slot so far, and its `mResetDone`, which is not
initialised. -/
structure NewTrack where
  self : ℕ
  mSessionId : ℤ
  mSharedBuffer : Bool
  fast : Bool
  named : Bool
  underruns : Underruns
  mResetDone : Bool

/-- The constructor of a track. -/
def NewTrack.track (r : NewTrack) (slot : Option ℕ) (isOutputTrack mMainBufferIsMix : Bool) : Track where
  self := r.self
  mSessionId := r.mSessionId
  mSharedBuffer := r.mSharedBuffer
  mFastIndex := slot
  isOutputTrack := isOutputTrack
  mState := .idle
  mFillingUpStatus := .invalid
  mRetryCount := 0
  mResetDone := r.mResetDone
  mPresentationCompleteFrames := 0
  mObservedUnderruns := r.underruns
  mMainBufferIsMix := mMainBufferIsMix

namespace Thread

/-- A new thread: the first slot of a fast mixer is for the thread's own mix. -/
def new (isDirect hasFastMixer : Bool) : Thread where
  isDirect := isDirect
  hasFastMixer := !isDirect && hasFastMixer
  mTracks := []
  mActiveTracks := []
  mEffectChains := []
  mStandby := false
  mFastTrackAvailMask := 0xFE#32
  mTrackMask := 1#32
  tracksToRemove := []
  destroying := []
  fatal := false
  fastLog := []
  usageLog := []

def track (w : Thread) (a : ℕ) : Option Track := KeyedList.lookup Track.self w.mTracks a

def getEffectChain (w : Thread) (session : ℤ) : Option Chain :=
  KeyedList.lookup Chain.mSessionId w.mEffectChains session

/-- Write the track at its address. -/
def updateTrack (a : ℕ) (f : Track → Track) (w : Thread) : Thread :=
  { w with mTracks := KeyedList.update Track.self a f w.mTracks }

/-! ## Clients -/

/-- `createTrack_l`. -/
def createTrack (r : NewTrack) (w : Thread) : Thread :=
  if !r.named then w
  else
    let slot := if r.fast && w.hasFastMixer then lowest w.mFastTrackAvailMask else none
    let isMix := ((w.getEffectChain r.mSessionId).map Chain.mInBufferIsMix).getD true
    { w with
      mTracks := w.mTracks ++ [r.track slot false isMix]
      mFastTrackAvailMask := slot.elim w.mFastTrackAvailMask (clearBit w.mFastTrackAvailMask)
      mEffectChains := KeyedList.update Chain.mSessionId r.mSessionId Chain.incTrackCnt w.mEffectChains }

/-- The constructor of an `OutputTrack`, of session 0; no chain counts the track, nor is it connected to
one. -/
def addOutputTrack (self : ℕ) (mResetDone : Bool) (w : Thread) : Thread :=
  let r : NewTrack := ⟨self, 0, false, false, true, ⟨0, 0, 0⟩, mResetDone⟩
  { w with mTracks := w.mTracks ++ [r.track none true true] }

/-- `removeTrack_l`. -/
def removeTrack (t : Track) (w : Thread) : Thread :=
  { w with
    mTracks := w.mTracks.eraseP fun x => x.self = t.self
    mFastTrackAvailMask := t.mFastIndex.elim w.mFastTrackAvailMask (setBit w.mFastTrackAvailMask)
    mEffectChains := KeyedList.update Chain.mSessionId t.mSessionId Chain.decTrackCnt w.mEffectChains
    fastLog := (t.mFastIndex.map FastOp.returned).toList ++ w.fastLog }

/-- The part of `addTrack_l` that writes the thread. -/
def activate (t : Track) (w : Thread) : Thread :=
  if t.self ∈ w.mActiveTracks then w
  else
    { w with
      mActiveTracks := w.mActiveTracks.orderedInsert (· ≤ ·) t.self
      mEffectChains :=
        KeyedList.update Chain.mSessionId t.mSessionId Chain.incActiveTrackCnt w.mEffectChains }

/-- `Track::start`, with `addTrack_l`. -/
def start (t : Track) (w : Thread) : Thread :=
  { (w.updateTrack t.self (Track.start (decide (t.self ∈ w.mActiveTracks)))).activate t with
    usageLog :=
      if t.isOutputTrack || t.isPlaying then w.usageLog else .activated t.self :: w.usageLog }

/-- `stopOutput` for a track that uses the output. -/
def released (t : Track) (log : List UsageOp) : List UsageOp :=
  if t.usesOutput then .stopOutput t.self :: log else log

def stop (t : Track) (w : Thread) : Thread :=
  { w.updateTrack t.self (Track.stop (decide (t.self ∈ w.mActiveTracks))) with
    usageLog := released t w.usageLog }

def pause (t : Track) (w : Thread) : Thread :=
  { w.updateTrack t.self Track.pause with usageLog := released t w.usageLog }

def flush (t : Track) (w : Thread) : Thread :=
  w.updateTrack t.self (Track.flush (decide (t.self ∈ w.mActiveTracks)))

/-- The part of `destroy` without the lock. -/
def destroy (t : Track) (w : Thread) : Thread :=
  { w with
    destroying := t.self :: w.destroying
    usageLog := released t w.usageLog }

/-- `destroyTrack_l`. -/
def destroyTrack (t : Track) (w : Thread) : Thread :=
  let w := w.updateTrack t.self Track.terminate
  if t.self ∈ w.mActiveTracks then w else w.removeTrack t.terminate

/-! ## Effect chains -/

/-- The tracks of a session among the active ones. -/
def activeTracks (w : Thread) (session : ℤ) : ℕ :=
  w.mActiveTracks.countP fun a => (w.track a).any fun t => t.mSessionId = session

def setMainBuffer (session : ℤ) (isMix : Bool) (tracks : List Track) : List Track :=
  tracks.map fun t => if t.mSessionId = session then { t with mMainBufferIsMix := isMix } else t

/-- `addEffectChain_l`; the tracks of a session are counted if it is not one of the output. -/
def addEffectChain (session : ℤ) (w : Thread) : Thread :=
  let isMix := !(0 < session && !w.isDirect)
  let chain : Chain :=
    { mSessionId := session
      mTrackCnt := if 0 < session then w.mTracks.countP fun t => t.mSessionId = session else 0
      mActiveTrackCnt := if 0 < session then w.activeTracks session else 0
      mInBufferIsMix := isMix }
  { w with
    mTracks := if 0 < session then setMainBuffer session isMix w.mTracks else w.mTracks
    mEffectChains := w.mEffectChains.insertIdx
      (w.mEffectChains.findIdx fun c => c.mSessionId < session) chain }

/-- `removeEffectChain_l`. -/
def removeEffectChain (session : ℤ) (w : Thread) : Thread :=
  { w with
    mTracks := setMainBuffer session true w.mTracks
    mEffectChains := w.mEffectChains.eraseP fun c => c.mSessionId = session }

/-! ## `prepareTracks_l` -/

/-- What the loop over the active tracks writes. -/
structure Sweep where
  mTracks : List Track
  mTrackMask : BitVec 32
  didModify : Bool
  untilAcked : Bool
  tracksToRemove : List ℕ
  fatal : Bool

/-- A track that is not fast, after its round. -/
def Sweep.normal (s : Sweep) (a : ℕ) (after : Track × Bool) : Sweep :=
  { s with
    mTracks := KeyedList.update Track.self a (fun _ => after.1) s.mTracks
    tracksToRemove := if after.2 then s.tracksToRemove ++ [a] else s.tracksToRemove }

/-- A fast track in slot `j`, after its round. -/
def Sweep.fast (s : Sweep) (a j : ℕ) (after : Track × Track.Fast) : Sweep :=
  let s := { s with mTracks := KeyedList.update Track.self a (fun _ => after.1) s.mTracks }
  let kept :=
    { s with
      mTrackMask := setBit s.mTrackMask j
      didModify := s.didModify || !s.mTrackMask.getLsbD j }
  match after.2 with
  | .unexpected => { kept with fatal := true }
  | .stays => kept
  | .leaves =>
    let s := { s with tracksToRemove := s.tracksToRemove ++ [a] }
    if s.mTrackMask.getLsbD j then
      { s with
        mTrackMask := clearBit s.mTrackMask j
        didModify := true
        untilAcked := true }
    else { s with fatal := true }

/-- One round of the loop, for the active track at an address. -/
def Sweep.round (isDirect : Bool) (last : Option ℕ) (c : Track.Cycle) (s : Sweep) (a : ℕ) : Sweep :=
  match KeyedList.lookup Track.self s.mTracks a with
  | none => s
  | some t =>
    if isDirect then s.normal a (t.prepareDirect (last = some a) c)
    else
      match t.mFastIndex with
      | some j => s.fast a j (t.prepareFast c)
      | none => s.normal a (t.prepareMixer c)

def sweep (c : Track.Cycle) (w : Thread) : Sweep :=
  w.mActiveTracks.foldl (Sweep.round w.isDirect w.mActiveTracks.getLast? c)
    ⟨w.mTracks, w.mTrackMask, false, false, [], w.fatal⟩

/-- The reset of the fast tracks that leave and have stopped, after the push. -/
def Sweep.resetStopped (s : Sweep) : List Track :=
  s.mTracks.map fun t =>
    if t.self ∈ s.tracksToRemove && t.isFastTrack && t.isStopped then t.reset else t

/-- A track is removed from the active ones: in a mixer thread the chain of its session counts it if
the track is mixed to another buffer, in a direct thread the first chain counts it. -/
def deactivate (w : Thread) (a : ℕ) : Thread :=
  match w.track a with
  | none => w
  | some t =>
    let w :=
      { w with
        mActiveTracks := w.mActiveTracks.erase a
        mEffectChains :=
          if w.isDirect then w.mEffectChains.modifyHead Chain.decActiveTrackCnt
          else if t.mMainBufferIsMix then w.mEffectChains
          else KeyedList.update Chain.mSessionId t.mSessionId Chain.decActiveTrackCnt w.mEffectChains }
    if t.isTerminated then w.removeTrack t else w

/-- `prepareTracks_l`. -/
def prepareTracks (framesWritten audioHALFrames : ℕ) (look : ℕ → Track.Look) (w : Thread) : Thread :=
  let s := w.sweep ⟨w.mStandby, framesWritten, audioHALFrames, look⟩
  let w :=
    { w with
      mTracks := s.resetStopped
      mTrackMask := s.mTrackMask
      tracksToRemove := s.tracksToRemove
      fatal := s.fatal
      fastLog := if s.didModify then .pushed s.mTrackMask s.untilAcked :: w.fastLog else w.fastLog }
  s.tracksToRemove.foldl deactivate w

/-- One round of `threadLoop_removeTracks`, without the lock. -/
def removeNext (w : Thread) : Thread :=
  match w.tracksToRemove with
  | [] => w
  | a :: as =>
    { w with
      tracksToRemove := as
      usageLog :=
        match w.track a with
        | none => w.usageLog
        | some t => if t.mSharedBuffer && t.isPlaying then .stopOutput t.self :: w.usageLog else w.usageLog }

/-! ## Runs -/

inductive Event
  | create (r : NewTrack)
  | addOutputTrack (self : ℕ) (mResetDone : Bool)
  | start (a : ℕ)
  | stop (a : ℕ)
  | pause (a : ℕ)
  | flush (a : ℕ)
  | destroy (a : ℕ)
  | destroyTrack (a : ℕ)
  | addEffectChain (session : ℤ)
  | removeEffectChain (session : ℤ)
  | prepareTracks (framesWritten audioHALFrames : ℕ) (look : ℕ → Track.Look)
  | removeNext
  | write
  | standby

/-- The track of a client that has not begun to destroy it. -/
def held (w : Thread) (a : ℕ) : Option Track := if a ∈ w.destroying then none else w.track a

/-- The track that is being destroyed. -/
def doomed (w : Thread) (a : ℕ) : Option Track :=
  if a ∈ w.destroying then (w.track a).filter fun t => !t.isTerminated else none

/-- Whether an address is that of no track. -/
def free (w : Thread) (a : ℕ) : Bool :=
  (w.track a).isNone && a ∉ w.tracksToRemove && a ∉ w.destroying

/-- An event, if it can happen: a new track has a new address, only a mixer thread is played to by
duplicating threads, a chain is added once for a session, and the loop prepares tracks when it is
through with those that it removed. -/
def step (w : Thread) : Event → Option Thread
  | .create r => if w.free r.self then some (w.createTrack r) else none
  | .addOutputTrack self mResetDone =>
    if !w.isDirect && w.free self then some (w.addOutputTrack self mResetDone) else none
  | .start a => (w.held a).map fun t => w.start t
  | .stop a => (w.held a).map fun t => w.stop t
  | .pause a => (w.held a).map fun t => w.pause t
  | .flush a => (w.held a).map fun t => w.flush t
  | .destroy a => (w.held a).map fun t => w.destroy t
  | .destroyTrack a => (w.doomed a).map fun t => w.destroyTrack t
  | .addEffectChain session =>
    if (w.getEffectChain session).isSome then none else some (w.addEffectChain session)
  | .removeEffectChain session =>
    if (w.getEffectChain session).isSome then some (w.removeEffectChain session) else none
  | .prepareTracks framesWritten audioHALFrames look =>
    if w.tracksToRemove = [] then some (w.prepareTracks framesWritten audioHALFrames look) else none
  | .removeNext => if w.tracksToRemove = [] then none else some w.removeNext
  | .write => some { w with mStandby := false }
  | .standby => some { w with mStandby := true }

end Thread

end AudioFlinger.Playback
