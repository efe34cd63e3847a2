import AudioFlinger.Effects.GlobalSuspension

/-!
# Effects and their registrations

`ThreadBase::createEffect_l`, `disconnectEffect` and the loop of
`purgeStaleEffects_l` in `libs/audioflinger/Threads.cpp` and `AudioFlinger.cpp`,
for playback and record threads, with what they tell the audio policy. The
suspensions of a record thread's sessions only change states of effects, and are
left out.
-/

namespace AudioFlinger.Effects

open Foundation

/-- `AudioSystem::registerEffect` that succeeds, and `AudioSystem::unregisterEffect`. -/
inductive PolicyCall
  | register (id : ℤ)
  | unregister (id : ℤ)
deriving DecidableEq

/-- A call of `createEffect_l`: whether the thread is initialised and the audio policy registers a
new effect; `ready` of the request says whether the new effect is initialised. -/
structure Attempt where
  request : Request
  initCheck : Bool
  registers : Bool

structure RecordThread where
  mEffectChains : List Chain
deriving DecidableEq

inductive EffectThread
  | playback (t : PlaybackThread)
  | record (t : RecordThread)
deriving DecidableEq

namespace EffectThread

def chains : EffectThread → List Chain
  | .playback t => t.mEffectChains
  | .record t => t.mEffectChains

def recordThread : EffectThread → Option RecordThread
  | .playback _ => none
  | .record t => some t

def getEffectChain (t : EffectThread) (session : ℤ) : Option Chain :=
  KeyedList.lookup Chain.mSessionId t.chains session

/-- Write the chain of a session. -/
def updateChain (session : ℤ) (f : Chain → Chain) : EffectThread → EffectThread
  | .playback t => .playback (t.updateChain session f)
  | .record t => .record ⟨KeyedList.update Chain.mSessionId session f t.mEffectChains⟩

/-- `addEffectChain_l`; a record thread takes one chain only. -/
def addEffectChain (c : Chain) : EffectThread → EffectThread
  | .playback t => .playback (t.addEffectChain c)
  | .record t => if t.mEffectChains = [] then .record ⟨[c]⟩ else .record t

/-- `removeEffectChain_l`; a record thread removes the one that it has. -/
def removeEffectChain (session : ℤ) : EffectThread → EffectThread
  | .playback t => .playback (t.removeEffectChain session)
  | .record t => if t.mEffectChains.length = 1 then .record ⟨[]⟩ else .record t

/-- Write the chain of a session; without effects the chain is removed. -/
def putChain (session : ℤ) (c : Chain) (t : EffectThread) : EffectThread :=
  if c.mEffects = [] then t.removeEffectChain session else t.updateChain session fun _ => c

/-- The call of `checkSuspendOnEffectEnabled` for the session of the mix, which record threads do not
suspend. -/
def concludeCall (policy : ℕ → Bool) (session : ℤ) (o : Chain.Outcome) : EffectThread → EffectThread
  | .playback t => .playback (t.concludeCall policy false session o)
  | .record t => .record t

/-- `checkSuspendOnEffectEnabled_l` for an effect that is no longer in a chain. -/
def checkSuspendOnEffectGone (policy : ℕ → Bool) (session : ℤ) (e : Module) : EffectThread → EffectThread
  | .playback t => .playback (t.checkSuspendOnEffectGone policy session e)
  | .record t => (EffectThread.record t).updateChain session fun c => c.checkSuspendOnEffectEnabled e false

/-! ## `createEffect_l` -/

/-- The requests for another kind of thread: only a mixer thread has effects of the output mix, and
only record threads have pre processors, and nothing else. -/
def refuses (r : Request) : EffectThread → Bool
  | .playback t => t.refuses r
  | .record _ => r.session = audioSessionOutputMix || r.desc.typeFlag ≠ effectFlagTypePreProc

/-- The thread after `createEffect_l`, what it told the audio policy, the effects it leaves to their
handles because their chain is not the thread's, and whether it failed. -/
structure Created where
  thread : EffectThread
  calls : List PolicyCall
  loose : List Module
  failed : Bool

/-- The part under the lock, with the session's chain, which may have been created for it. -/
def createIn (a : Attempt) (chainCreated : Bool) (c : Chain) (t : EffectThread) : Created :=
  let session := a.request.session
  let undone := if chainCreated then t.removeEffectChain session else t
  let there := (c.getEffectFromDesc a.request.desc).isSome
  if !there && !a.registers then ⟨undone, [], [], true⟩
  else
    let registered := if there then [] else [.register a.request.id]
    match c.createEffect a.request with
    | none => ⟨undone, registered ++ [.unregister a.request.id], [], true⟩
    | some c' =>
      ⟨t.updateChain session fun _ => c', registered,
        if (t.getEffectChain session).isSome then [] else c'.mEffects, false⟩

def createEffect (a : Attempt) (t : EffectThread) : Created :=
  if !a.initCheck || t.refuses a.request then ⟨t, [], [], true⟩
  else
    match t.getEffectChain a.request.session with
    | some c => createIn a false c t
    | none =>
      let t := t.addEffectChain (.new a.request.session)
      createIn a true ((t.getEffectChain a.request.session).getD (.new a.request.session)) t

/-! ## Removing effects -/

/-- The effects of a session's chain. -/
def effectsOf (t : EffectThread) (session : ℤ) : List Module :=
  (t.getEffectChain session).elim [] Chain.mEffects

/-- The handle of an effect of the session. -/
def handleAt (t : EffectThread) (session : ℤ) (e h : ℕ) : Option (Module × Handle) :=
  (t.getEffectChain session).bind fun c => c.handleAt e h

/-- `EffectHandle::disconnect`. -/
def disconnect (policy : ℕ → Bool) (session : ℤ) (e h : ℕ) (unpinIfLast : Bool) (t : EffectThread) :
    EffectThread :=
  disconnectBy (fun t => t.getEffectChain session) (putChain session) (concludeCall policy session)
    e h unpinIfLast t

/-- One round of the loop of `purgeStaleEffects_l`. -/
def purgeEffect (policy : ℕ → Bool) (session : ℤ) : EffectThread → Module → EffectThread :=
  purgeBy (fun t => t.getEffectChain session) (putChain session) (checkSuspendOnEffectGone policy session)

/-- `purgeStaleEffects_l` for the chain of a session without references. -/
def purge (policy : ℕ → Bool) (session : ℤ) (t : EffectThread) : EffectThread :=
  (t.effectsOf session).foldl (purgeEffect policy session) t

def purgedEffects (policy : ℕ → Bool) (session : ℤ) (t : EffectThread) : List Module :=
  purgedBy (fun t => t.getEffectChain session) (putChain session) (checkSuspendOnEffectGone policy session)
    t (t.effectsOf session)

end EffectThread

/-! ## Runs -/

/-- What the audio policy is told when a handle leaves its effect. -/
def Module.released (e : Module) (h : ℕ) (unpinIfLast : Bool) : List PolicyCall :=
  if (e.removeHandle h).mHandles = [] && (!e.mPinned || unpinIfLast) then [.unregister e.mId] else []

/-- A thread, the effects outside its chains, which handles still have, and what the audio policy was
told. -/
structure Hosting where
  thread : EffectThread
  loose : List Module
  calls : List PolicyCall

namespace Hosting

/-- The calls. The destruction of a handle marks it, and later disconnects it. -/
inductive Event
  | create (a : Attempt)
  | disconnect (policy : ℕ → Bool) (session : ℤ) (e h : ℕ)
  | destroy (session : ℤ) (e h : ℕ)
  | destroyed (policy : ℕ → Bool) (session : ℤ) (e h : ℕ)
  | purge (policy : ℕ → Bool) (session : ℤ)

def start (t : EffectThread) : Hosting := ⟨t, [], []⟩

/-- The effects that a handle may have. -/
def effects (w : Hosting) : List Module := w.thread.chains.flatMap Chain.mEffects ++ w.loose

/-- The handle of an effect outside the chains. -/
def looseHandleAt (w : Hosting) (session : ℤ) (e h : ℕ) : Option (Module × Handle) :=
  if (w.thread.handleAt session e h).isSome then none
  else
    ((KeyedList.lookup Module.self w.loose e).filter fun m => m.mSessionId = session).bind fun m =>
      (m.mHandles.find? fun x => x.self = h).map fun x => (m, x)

/-- The handle at its address. -/
def handleAt (w : Hosting) (session : ℤ) (e h : ℕ) : Option (Module × Handle) :=
  (w.thread.handleAt session e h).or (w.looseHandleAt session e h)

/-- New objects have new addresses; only a handle that is marked is disconnected by its destructor;
a session of a playback thread that is purged is one of tracks. -/
def made (w : Hosting) : Event → Bool
  | .create a => w.effects.all fun e =>
      e.self ≠ a.request.self && e.mHandles.all fun h => h.self ≠ a.request.handle
  | .disconnect _ session e h => (w.handleAt session e h).all fun p => !p.2.mDestroyed
  | .destroyed _ session e h => (w.handleAt session e h).all fun p => p.2.mDestroyed
  | .purge _ session =>
    match w.thread with
    | .playback _ => session > audioSessionOutputMix
    | .record _ => true
  | .destroy .. => true

/-- `disconnect` of a handle whose effect is outside the chains: the effect stands behind those of the
session's chain while the call goes on. -/
def disconnectLoose (policy : ℕ → Bool) (h : ℕ) (unpinIfLast : Bool) (m : Module) (w : Hosting) : Hosting :=
  let after := (((w.thread.getEffectChain m.mSessionId).getD (.new m.mSessionId)).beside m).disconnect
    m.self h unpinIfLast
  { thread :=
      match after.2 with
      | .unchanged | .silent => w.thread
      | .checked | .refused =>
        (w.thread.updateChain m.mSessionId fun _ => after.1.removeEffect m.self).concludeCall policy
          m.mSessionId after.2
    loose := w.loose.filterMap fun x => if x.self = m.self then after.1.effectAt m.self else some x
    calls := w.calls ++ m.released h unpinIfLast }

/-- `EffectHandle::disconnect`. -/
def disconnect (policy : ℕ → Bool) (session : ℤ) (e h : ℕ) (unpinIfLast : Bool) (w : Hosting) : Hosting :=
  match w.thread.handleAt session e h with
  | some p =>
    { w with
      thread := w.thread.disconnect policy session e h unpinIfLast
      calls := w.calls ++ p.1.released h unpinIfLast }
  | none => (w.looseHandleAt session e h).elim w fun p => w.disconnectLoose policy h unpinIfLast p.1

/-- `createEffect_l`. -/
def create (a : Attempt) (w : Hosting) : Hosting :=
  let created := w.thread.createEffect a
  { thread := created.thread
    loose := w.loose ++ created.loose
    calls := w.calls ++ created.calls }

def call (w : Hosting) : Event → Hosting
  | .create a => w.create a
  | .disconnect policy session e h => w.disconnect policy session e h true
  | .destroy session e h =>
    { w with
      thread := w.thread.updateChain session fun c => c.destroyHandle e h
      loose := KeyedList.update Module.self e
        (Module.updateHandle h fun x => { x with mDestroyed := true }) w.loose }
  | .destroyed policy session e h => w.disconnect policy session e h false
  | .purge policy session =>
    { thread := w.thread.purge policy session
      loose := w.loose ++ w.thread.purgedEffects policy session
      calls := w.calls ++ (w.thread.effectsOf session).map fun e => .unregister e.mId }

def step (w : Hosting) (e : Event) : Option Hosting := if w.made e then some (w.call e) else none

end Hosting

/-! ## Effects with an id -/

/-- The effects of a chain that have an id. -/
def Chain.hosted (i : ℤ) (c : Chain) : ℕ := c.mEffects.countP fun e => e.mId = i

/-- The effects of a thread that have an id. -/
def EffectThread.hosted (i : ℤ) (t : EffectThread) : ℕ := (t.chains.map (Chain.hosted i)).sum

/-- The registrations of an id that were not taken back. -/
def outstanding (i : ℤ) (calls : List PolicyCall) : ℤ :=
  calls.count (.register i) - calls.count (.unregister i)

variable {c c' : Chain} {m : Module} {x : Handle} {a h : ℕ} {i session : ℤ} {calls calls' : List PolicyCall}

theorem outstanding_append : outstanding i (calls ++ calls') =
    outstanding i calls + outstanding i calls' := by
  simp only [outstanding, List.count_append]
  lia

theorem Chain.hosted_eq (i : ℤ) (c : Chain) :
    c.hosted i = (c.mEffects.map fun e => (decide (e.mId = i)).toNat).sum :=
  KeyedList.countP_eq_sum _ _

theorem hosted_alike (halike : Chain.Alike c c') : c'.hosted i = c.hosted i := by
  have hsame : (c'.mEffects.map fun e => (decide (e.mId = i)).toNat) =
      c.mEffects.map fun e => (decide (e.mId = i)).toNat :=
    halike.map_eq (by rintro e _ ⟨s, b, rfl⟩; rfl)
  rw [Chain.hosted_eq, Chain.hosted_eq, hsame]

/-- The ids are not written. -/
theorem hosted_updateEffect {g : Module → Module} (hg : ∀ e, (g e).mId = e.mId) (c : Chain) (a : ℕ) :
    (c.updateEffect a g).hosted i = c.hosted i := by
  rw [Chain.hosted, Chain.hosted, mEffects_updateEffect, List.countP_map]
  congr 1
  funext e
  simp only [Function.comp]
  split
  · rw [hg]
  · rfl

theorem hosted_removeEffect (hat : c.effectAt a = some m) :
    (c.removeEffect a).hosted i + (decide (m.mId = i)).toNat = c.hosted i := by
  rw [Chain.hosted_eq, Chain.hosted_eq]
  exact @KeyedList.sum_erase _ _ _ Module.self _ _ _ hat fun e => (decide (e.mId = i)).toNat

theorem outstanding_unregister (i id' : ℤ) :
    outstanding i [.unregister id'] = -(decide (id' = i)).toNat := by
  by_cases h : id' = i <;> simp [outstanding, h]

theorem outstanding_register (i id' : ℤ) :
    outstanding i [.register id'] = (decide (id' = i)).toNat := by
  by_cases h : id' = i <;> simp [outstanding, h]

/-- A handle that leaves takes the effect along if it is released. -/
theorem hosted_disconnect (hat : c.handleAt a h = some (m, x)) (unpinIfLast : Bool) :
    ((c.disconnect a h unpinIfLast).1.hosted i : ℤ) =
        c.hosted i + outstanding i (m.released h unpinIfLast) ∧
      (c.disconnect a h unpinIfLast).1.mSessionId = c.mSessionId := by
  obtain ⟨m', hm, hx⟩ := Option.bind_eq_some_iff.mp hat
  obtain ⟨x', -, heq⟩ := Option.map_eq_some_iff.mp hx
  cases heq
  obtain ⟨-, hself⟩ := effectAt_some hm
  have hids : ∀ e : Module, (e.removeHandle h).mId = e.mId := by
    intro e
    obtain ⟨s, hs, heq⟩ := removeHandle_fields e h
    rw [heq]
  have hfewer := hosted_updateEffect (i := i) hids c a
  have hat' : (c.updateEffect a fun e => e.removeHandle h).effectAt a = some (m.removeHandle h) := by
    have hlook := @KeyedList.lookup_update _ _ _ Module.self c.mEffects a (fun e => e.removeHandle h)
      (fun e he => (removeHandle_self e h).trans he) a
    rw [if_pos rfl] at hlook
    have hfound : KeyedList.lookup Module.self c.mEffects a = some m := hm
    rw [hfound] at hlook
    exact hlook
  have hremove := @hosted_removeEffect _ _ _ i hat'
  rw [hids] at hremove
  simp only [Chain.disconnect, hat, Module.released]
  by_cases hlast : (m.removeHandle h).mHandles = []
  · rw [if_pos hlast, decide_eq_true hlast, Bool.true_and]
    cases hgo : (!m.mPinned || unpinIfLast) with
    | false =>
      simp only [Bool.false_eq_true, if_false]
      split
      · have halike := (c.updateEffect a fun e => e.removeHandle h).checkSuspendOnEffectEnabled_alike m false
        refine ⟨?_, halike.session⟩
        rw [hosted_alike halike, hfewer]
        simp [outstanding]
      · refine ⟨?_, rfl⟩
        rw [hfewer]
        simp [outstanding]
    | true =>
      simp only [if_true]
      rw [outstanding_unregister]
      split
      · have halike :=
          ((c.updateEffect a fun e => e.removeHandle h).removeEffect a).checkSuspendOnEffectEnabled_alike m
            false
        refine ⟨?_, halike.session⟩
        rw [hosted_alike halike]
        omega
      · refine ⟨?_, rfl⟩
        simp only
        omega
  · rw [if_neg hlast, decide_eq_false hlast, Bool.false_and, if_neg Bool.false_ne_true]
    refine ⟨?_, rfl⟩
    simp only
    rw [hfewer]
    simp [outstanding]

/-- An effect is added to a chain if it is not there. -/
theorem hosted_createEffect {r : Request} (hcreate : c.createEffect r = some c') :
    c'.hosted i = c.hosted i +
        (if (c.getEffectFromDesc r.desc).isSome then 0 else (decide (r.id = i)).toNat) ∧
      c'.mSessionId = c.mSessionId := by
  rw [Chain.createEffect] at hcreate
  cases hfind : c.getEffectFromDesc r.desc with
  | some e =>
    rw [hfind] at hcreate
    cases hcreate
    refine ⟨hosted_updateEffect (fun e => ?_) c e.self, rfl⟩
    rw [addHandle_fields]
  | none =>
    rw [hfind] at hcreate
    simp only at hcreate
    split at hcreate
    · obtain ⟨hsession, -, hperm⟩ := Chain.addEffect_perm hcreate
      refine ⟨?_, hsession⟩
      rw [Chain.hosted, hperm.countP_eq, List.countP_cons, addHandle_fields, Chain.hosted]
      congr 1
      by_cases hid : r.id = i <;> simp [Module.new, hid]
    · cases hcreate

/-! ## Chains of a thread -/

namespace EffectThread

/-- One chain for a session, and a record thread has one at most. -/
structure Formed (t : EffectThread) : Prop where
  distinct : (t.chains.map Chain.mSessionId).Nodup
  single : ∀ r, t = .record r → r.mEffectChains.length ≤ 1

/-- The same kind of thread. -/
def SameKind : EffectThread → EffectThread → Prop
  | .playback _, .playback _ => True
  | .record _, .record _ => True
  | _, _ => False

/-- The same chains, up to the states of effects. -/
structure Alike (t t' : EffectThread) : Prop where
  kind : SameKind t t'
  chains : List.Forall₂ Chain.Alike t.chains t'.chains

variable {t t' t'' : EffectThread} {policy : ℕ → Bool}

theorem Alike.refl (t : EffectThread) : Alike t t :=
  ⟨by cases t <;> trivial, List.forall₂_same.mpr fun c _ => .refl c⟩

theorem Alike.trans (h : Alike t t') (h' : Alike t' t'') : Alike t t'' where
  kind := by
    have hkind := h.kind
    have hkind' := h'.kind
    cases t <;> cases t' <;> cases t'' <;> trivial
  chains := by
    have hleft := h.chains
    have hright := h'.chains
    generalize t.chains = cs at hleft
    generalize t'.chains = cs' at hleft hright
    generalize t''.chains = cs'' at hright
    clear h h'
    induction hleft generalizing cs'' with
    | nil =>
      cases hright
      exact .nil
    | cons hc _ ih =>
      cases hright with
      | cons hc' hrest => exact .cons (hc.trans hc') (ih _ hrest)

theorem Alike.sessions (h : Alike t t') :
    t'.chains.map Chain.mSessionId = t.chains.map Chain.mSessionId := by
  have hall := h.chains
  generalize t.chains = cs at hall
  generalize t'.chains = cs' at hall
  clear h
  induction hall with
  | nil => rfl
  | cons hc _ ih => rw [List.map_cons, List.map_cons, hc.session, ih]

theorem Alike.hosted (h : Alike t t') : t'.hosted i = t.hosted i := by
  have hall := h.chains
  rw [EffectThread.hosted, EffectThread.hosted]
  generalize t.chains = cs at hall
  generalize t'.chains = cs' at hall
  clear h
  induction hall with
  | nil => rfl
  | cons hc _ ih => rw [List.map_cons, List.map_cons, List.sum_cons, List.sum_cons, hosted_alike hc, ih]

theorem Alike.formed (h : Alike t t') (hf : t.Formed) : t'.Formed where
  distinct := by
    rw [h.sessions]
    exact hf.distinct
  single := by
    rintro r rfl
    have hlength := h.chains.length_eq
    have hkind := h.kind
    cases t with
    | playback t => cases hkind
    | record r' =>
      have hone := hf.single r' rfl
      simp only [EffectThread.chains] at hlength
      omega

/-- The chain of a session, in both. -/
theorem Alike.effectsOf (h : Alike t t') (session : ℤ) :
    List.Forall₂ Module.Alike (t.effectsOf session) (t'.effectsOf session) := by
  have hall := h.chains
  rw [EffectThread.effectsOf, EffectThread.effectsOf, getEffectChain, getEffectChain]
  generalize t.chains = cs at hall
  generalize t'.chains = cs' at hall
  clear h
  induction hall with
  | nil => exact .nil
  | cons hc _ ih =>
    simp only [KeyedList.lookup, List.find?_cons] at ih ⊢
    rw [hc.session]
    split
    · exact hc.effects
    · exact ih

@[simp] theorem chains_updateChain (session : ℤ) (f : Chain → Chain) (t : EffectThread) :
    (t.updateChain session f).chains = KeyedList.update Chain.mSessionId session f t.chains := by
  cases t <;> rfl

theorem sameKind_updateChain (session : ℤ) (f : Chain → Chain) (t : EffectThread) :
    SameKind t (t.updateChain session f) := by
  cases t <;> trivial

theorem updateChain_alike {f : Chain → Chain} (hf : ∀ c, Chain.Alike c (f c)) (session : ℤ)
    (t : EffectThread) : Alike t (t.updateChain session f) where
  kind := sameKind_updateChain session f t
  chains := by
    rw [chains_updateChain, KeyedList.update, List.forall₂_map_right_iff]
    apply List.forall₂_same.mpr
    intro c _
    split
    · exact hf c
    · exact .refl c

theorem suspendMix_alike (policy : ℕ → Bool) (enabled : Bool) (session : ℤ) (t : PlaybackThread) :
    Alike (.playback t) (.playback (t.suspendMix policy enabled session)) := by
  rw [PlaybackThread.suspendMix]
  split
  · have halike := updateChain_alike (PlaybackThread.setEffectSuspendedAll_alike policy enabled)
      audioSessionOutputMix (.playback t)
    refine ⟨trivial, ?_⟩
    have hchains : (EffectThread.playback
        (t.setEffectSuspended policy none enabled audioSessionOutputMix)).chains =
        ((EffectThread.playback t).updateChain audioSessionOutputMix fun c =>
          c.setEffectSuspendedAll policy enabled).chains := by
      rw [PlaybackThread.setEffectSuspended_all, chains, PlaybackThread.mEffectChains_updateSuspendedSessions]
      rfl
    rw [hchains]
    exact halike.chains
  · exact .refl _

theorem concludeCall_alike (policy : ℕ → Bool) (session : ℤ) (o : Chain.Outcome) (t : EffectThread) :
    Alike t (t.concludeCall policy session o) := by
  cases t with
  | record t => exact .refl _
  | playback t =>
    cases o with
    | unchanged => exact .refl _
    | silent => exact .refl _
    | checked => exact suspendMix_alike policy false session t
    | refused => exact (suspendMix_alike policy true session t).trans (suspendMix_alike policy false session _)

theorem checkSuspendOnEffectGone_alike (policy : ℕ → Bool) (session : ℤ) (e : Module) (t : EffectThread) :
    Alike t (t.checkSuspendOnEffectGone policy session e) := by
  have hcheck := fun c : Chain => c.checkSuspendOnEffectEnabled_alike e false
  cases t with
  | record t => exact updateChain_alike hcheck session (.record t)
  | playback t =>
    exact (suspendMix_alike policy false session t).trans
      (updateChain_alike hcheck session (.playback (t.suspendMix policy false session)))

theorem getEffectChain_some (hget : t.getEffectChain session = some c) :
    c ∈ t.chains ∧ c.mSessionId = session := KeyedList.lookup_some hget

/-- The chain of a session is written. -/
theorem Formed.updateChain (hf : t.Formed) (hget : t.getEffectChain session = some c)
    (hsession : c'.mSessionId = c.mSessionId) :
    (t.updateChain session fun _ => c').Formed ∧
      (t.updateChain session fun _ => c').hosted i + c.hosted i = t.hosted i + c'.hosted i := by
  obtain ⟨hc, rfl⟩ := getEffectChain_some hget
  refine ⟨⟨?_, ?_⟩, ?_⟩
  · rw [chains_updateChain, KeyedList.map_key_update fun _ _ => hsession]
    exact hf.distinct
  · intro r hr
    cases t with
    | playback t => cases hr
    | record r' =>
      cases hr
      have hone := hf.single r' rfl
      simpa [KeyedList.update] using hone
  · rw [EffectThread.hosted, chains_updateChain]
    exact KeyedList.sum_update hf.distinct hc (fun _ => c') (Chain.hosted i)

/-- The chain of a session goes; of a record thread it is the only one. -/
theorem Formed.removeEffectChain (hf : t.Formed) (hget : t.getEffectChain session = some c) :
    (t.removeEffectChain session).Formed ∧
      (t.removeEffectChain session).hosted i + c.hosted i = t.hosted i ∧
        (t.removeEffectChain session).getEffectChain session = none := by
  have hchains : (t.removeEffectChain session).chains =
      t.chains.eraseP fun c => c.mSessionId = session := by
    cases t with
    | playback t => rfl
    | record r =>
      have hone := hf.single r rfl
      obtain ⟨hmem, hsession⟩ := getEffectChain_some hget
      have hlist : r.mEffectChains = [c] := by
        match hr : r.mEffectChains, hone with
        | [], _ => simp [chains, hr] at hmem
        | [d], _ =>
          simp only [chains, hr, List.mem_singleton] at hmem
          rw [hmem]
      simp [EffectThread.removeEffectChain, chains, hlist, hsession]
  refine ⟨⟨?_, ?_⟩, ?_, ?_⟩
  · rw [hchains]
    exact hf.distinct.sublist (List.eraseP_sublist.map _)
  · intro r hr
    cases t with
    | playback t => cases hr
    | record r' =>
      have hone := hf.single r' rfl
      have hlength := congrArg List.length hchains
      rw [hr] at hlength
      have hle := List.length_eraseP_le (p := fun c : Chain => c.mSessionId = session) (l := r'.mEffectChains)
      simp only [chains] at hlength
      omega
  · rw [EffectThread.hosted, hchains]
    exact KeyedList.sum_erase hget (Chain.hosted i)
  · rw [getEffectChain, hchains]
    have hnone := @PlaybackThread.Distinct.getEffectChain_removeEffectChain
      ⟨.mixer, t.chains, .empty⟩ session hf.distinct
    exact hnone

theorem hosted_of_nil (hnil : c.mEffects = []) : c.hosted i = 0 := by
  rw [Chain.hosted, hnil]
  rfl

theorem Formed.putChain (hf : t.Formed) (hget : t.getEffectChain session = some c)
    (hsession : c'.mSessionId = c.mSessionId) :
    (t.putChain session c').Formed ∧
      (t.putChain session c').hosted i + c.hosted i = t.hosted i + c'.hosted i ∧
        (t.putChain session c').effectsOf session = c'.mEffects := by
  rw [EffectThread.putChain]
  split
  next hnil =>
    obtain ⟨hf', hhosted, hnone⟩ := @Formed.removeEffectChain _ i _ _ hf hget
    refine ⟨hf', ?_, ?_⟩
    · rw [hosted_of_nil hnil]
      exact hhosted
    · rw [EffectThread.effectsOf, hnone, hnil]
      rfl
  next =>
    obtain ⟨hf', hhosted⟩ := hf.updateChain (i := i) hget hsession
    refine ⟨hf', hhosted, ?_⟩
    obtain ⟨-, rfl⟩ := getEffectChain_some hget
    have hlook := @KeyedList.lookup_update _ _ _ Chain.mSessionId t.chains c.mSessionId (fun _ => c')
      (fun _ _ => hsession) c.mSessionId
    have hfound : KeyedList.lookup Chain.mSessionId t.chains c.mSessionId = some c := hget
    rw [if_pos rfl, hfound] at hlook
    rw [EffectThread.effectsOf, getEffectChain, chains_updateChain, hlook]
    rfl

/-! ## Calls -/

theorem Formed.disconnect (hf : t.Formed) {p : Module × Handle} (hat : t.handleAt session a h = some p)
    (policy : ℕ → Bool) (unpinIfLast : Bool) :
    (t.disconnect policy session a h unpinIfLast).Formed ∧ ∀ i,
      ((t.disconnect policy session a h unpinIfLast).hosted i : ℤ) =
        t.hosted i + outstanding i (p.1.released h unpinIfLast) := by
  obtain ⟨m, x⟩ := p
  obtain ⟨c, hget, hat⟩ := Option.bind_eq_some_iff.mp hat
  have hsession := (hosted_disconnect (i := 0) hat unpinIfLast).2
  have halike := concludeCall_alike policy session (c.disconnect a h unpinIfLast).2
    (t.putChain session (c.disconnect a h unpinIfLast).1)
  rw [EffectThread.disconnect, disconnectBy, hget, Option.elim_some]
  refine ⟨halike.formed (hf.putChain (i := 0) hget hsession).1, fun i => ?_⟩
  obtain ⟨-, hput, -⟩ := hf.putChain (i := i) hget hsession
  have hfewer := (hosted_disconnect (i := i) hat unpinIfLast).1
  rw [halike.hosted]
  simp only
  omega

/-- The first effect of the session is purged. -/
theorem Formed.purgeEffect (hf : t.Formed) (policy : ℕ → Bool) {e : Module} {es : List Module}
    (halike : List.Forall₂ Module.Alike (e :: es) (t.effectsOf session)) :
    (t.purgeEffect policy session e).Formed ∧
      List.Forall₂ Module.Alike es ((t.purgeEffect policy session e).effectsOf session) ∧
        ∀ i, ((t.purgeEffect policy session e).hosted i : ℤ) =
          t.hosted i + outstanding i [.unregister e.mId] := by
  cases hget : t.getEffectChain session with
  | none =>
    rw [EffectThread.effectsOf, hget] at halike
    cases halike
  | some c =>
    rw [EffectThread.effectsOf, hget, Option.elim_some] at halike
    obtain ⟨m, ms, ⟨s, b, rfl⟩, hrest, hcons⟩ := List.forall₂_cons_left_iff.mp halike
    have hat : c.effectAt e.self = some { e with mState := s, mSuspended := b } := by
      rw [Chain.effectAt, hcons]
      exact List.find?_cons_of_pos (by simp)
    have hremoved : (c.removeEffect e.self).mEffects = ms := by
      simp only [Chain.removeEffect, hcons]
      exact List.eraseP_cons_of_pos (by simp)
    have hput := fun i => @Formed.putChain c (c.removeEffect e.self) i session t hf hget rfl
    have hrest' : (t.putChain session (c.removeEffect e.self)).effectsOf session = ms :=
      (hput 0).2.2.trans hremoved
    have hhosted : ∀ i, ((t.putChain session (c.removeEffect e.self)).hosted i : ℤ) =
        t.hosted i + outstanding i [.unregister e.mId] := by
      intro i
      obtain ⟨-, hwritten, -⟩ := hput i
      have hfewer : (c.removeEffect e.self).hosted i + (decide (e.mId = i)).toNat = c.hosted i :=
        (@hosted_removeEffect _ _ _ i hat :)
      rw [outstanding_unregister]
      omega
    rw [EffectThread.purgeEffect, purgeBy, removeBy, hget, Option.elim_some]
    split
    · have hgone := checkSuspendOnEffectGone_alike policy session e
        (t.putChain session (c.removeEffect e.self))
      refine ⟨hgone.formed (hput 0).1, ?_, fun i => ?_⟩
      · have heffects := hgone.effectsOf session
        rw [hrest'] at heffects
        exact PlaybackThread.alike_trans hrest heffects
      · rw [hgone.hosted]
        exact hhosted i
    · refine ⟨(hput 0).1, ?_, hhosted⟩
      rw [hrest']
      exact hrest

theorem Formed.purge_foldl (hf : t.Formed) (policy : ℕ → Bool) {es : List Module}
    (halike : List.Forall₂ Module.Alike es (t.effectsOf session)) :
    (es.foldl (EffectThread.purgeEffect policy session) t).Formed ∧
      ∀ i, ((es.foldl (EffectThread.purgeEffect policy session) t).hosted i : ℤ) =
        t.hosted i + outstanding i (es.map fun e => .unregister e.mId) := by
  induction es generalizing t with
  | nil => exact ⟨hf, fun i => by simp [outstanding]⟩
  | cons e es ih =>
    obtain ⟨hf', halike', hhosted⟩ := hf.purgeEffect policy halike
    obtain ⟨hf'', hrest⟩ := ih hf' halike'
    refine ⟨hf'', fun i => ?_⟩
    have hsplit := @outstanding_append i [.unregister e.mId] (es.map fun e => .unregister e.mId)
    rw [List.singleton_append] at hsplit
    rw [List.foldl_cons, hrest i, hhosted i, List.map_cons, hsplit]
    omega

theorem Formed.purge (hf : t.Formed) (policy : ℕ → Bool) (session : ℤ) :
    (t.purge policy session).Formed ∧ ∀ i, ((t.purge policy session).hosted i : ℤ) =
      t.hosted i + outstanding i ((t.effectsOf session).map fun e => .unregister e.mId) :=
  hf.purge_foldl policy (List.forall₂_same.mpr fun e _ => .refl e)

/-! ## New effects -/

/-- What `createEffect_l` leaves: what it registered is in the chains, and if it failed everything is
as it was. -/
structure Accounted (t : EffectThread) (k : Created) : Prop where
  formed : k.thread.Formed
  hosted : ∀ i, (k.thread.hosted i : ℤ) = t.hosted i + outstanding i k.calls
  loose : k.loose = []
  failed : k.failed = true → k.thread = t

theorem Formed.createIn (hf : t.Formed) {attempt : Attempt} {chainCreated : Bool}
    (hget : t.getEffectChain attempt.request.session = some c) {t₀ : EffectThread} (hf₀ : t₀.Formed)
    (hsame : ∀ i, t.hosted i = t₀.hosted i)
    (hundone : (if chainCreated then t.removeEffectChain attempt.request.session else t) = t₀) :
    Accounted t₀ (t.createIn attempt chainCreated c) := by
  rw [EffectThread.createIn]
  simp only
  rw [hundone]
  have hnothing : ∀ calls : List PolicyCall, (∀ i, outstanding i calls = 0) →
      Accounted t₀ ⟨t₀, calls, [], true⟩ := fun calls hcalls =>
    ⟨hf₀, fun i => by simp [hcalls i], rfl, fun _ => rfl⟩
  split
  · exact hnothing [] fun i => by simp [outstanding]
  · cases hcreate : c.createEffect attempt.request with
    | none =>
      refine hnothing _ fun i => ?_
      cases hthere : c.getEffectFromDesc attempt.request.desc with
      | some e => simp [Chain.createEffect, hthere] at hcreate
      | none =>
        simp only [Option.isSome_none, Bool.false_eq_true, if_false]
        rw [outstanding_append, outstanding_register, outstanding_unregister]
        lia
    | some c' =>
      have hsession := (hosted_createEffect (i := 0) hcreate).2
      refine ⟨(hf.updateChain (i := 0) hget hsession).1, fun i => ?_, ?_, by simp⟩
      · obtain ⟨-, hwritten⟩ := hf.updateChain (i := i) hget hsession
        have hmore := (hosted_createEffect (i := i) hcreate).1
        have hregistered : outstanding i
            (if (c.getEffectFromDesc attempt.request.desc).isSome = true then []
              else [.register attempt.request.id]) =
            if (c.getEffectFromDesc attempt.request.desc).isSome = true then 0
              else ((decide (attempt.request.id = i)).toNat : ℤ) := by
          split
          · simp [outstanding]
          · exact outstanding_register i _
        have hsame' := hsame i
        simp only
        rw [hregistered]
        split at hmore
        next hthere =>
          rw [if_pos hthere]
          lia
        next hthere =>
          rw [if_neg hthere]
          lia
      · simp only [hget, Option.isSome_some, if_true]

/-- A chain that was added is taken away again. -/
theorem eraseP_insertIdx {α : Type*} {p : α → Bool} {y : α} (hy : p y = true) :
    ∀ (xs : List α) (i : ℕ), i ≤ xs.length → (∀ z ∈ xs, p z = false) → (xs.insertIdx i y).eraseP p = xs
  | xs, 0, _, _ => by
    rw [List.insertIdx_zero]
    exact List.eraseP_cons_of_pos hy
  | [], i + 1, hi, _ => absurd hi (Nat.not_succ_le_zero i)
  | x :: xs, i + 1, hi, hnone => by
    rw [List.insertIdx_succ_cons, List.eraseP_cons_of_neg (by simp [hnone x (List.mem_cons_self ..)]),
      eraseP_insertIdx hy xs i (Nat.le_of_succ_le_succ hi) fun z hz => hnone z (List.mem_cons_of_mem x hz)]

theorem removeEffectChain_addEffectChain (t : PlaybackThread) (hnone : t.getEffectChain session = none) :
    (t.addEffectChain (.new session)).removeEffectChain session = t := by
  have hsession := (t.checkSuspendOnAddEffectChain_alike (.new session)).session
  rw [PlaybackThread.addEffectChain, PlaybackThread.removeEffectChain]
  simp only
  rw [eraseP_insertIdx]
  · rw [hsession]
    exact decide_eq_true rfl
  · exact List.findIdx_le_length
  · intro c hc
    exact decide_eq_false (KeyedList.lookup_none hnone c hc)

/-- Where no chain of another session is in the way, `createEffect_l` is accounted for. -/
theorem Formed.createEffect (hf : t.Formed) (attempt : Attempt)
    (hroom : ∀ r, t = .record r → attempt.initCheck = true → t.refuses attempt.request = false →
      r.mEffectChains = [] ∨ (t.getEffectChain attempt.request.session).isSome = true) :
    Accounted t (t.createEffect attempt) := by
  rw [EffectThread.createEffect]
  split
  · exact ⟨hf, fun i => by simp [outstanding], rfl, fun _ => rfl⟩
  next hpass =>
    obtain ⟨hinit, haccepts⟩ : attempt.initCheck = true ∧ t.refuses attempt.request = false := by
      simpa using hpass
    cases hget : t.getEffectChain attempt.request.session with
    | some c => exact hf.createIn hget hf (fun _ => rfl) rfl
    | none =>
      simp only
      cases t with
      | record r =>
        have hempty : r.mEffectChains = [] := by
          rcases hroom r rfl hinit haccepts with hempty | hsome
          · exact hempty
          · rw [hget] at hsome
            cases hsome
        obtain ⟨chains⟩ := r
        cases hempty
        have hnew : (EffectThread.record ⟨[Chain.new attempt.request.session]⟩).getEffectChain
            attempt.request.session = some (Chain.new attempt.request.session) := by
          simp [getEffectChain, KeyedList.lookup, chains, Chain.new]
        have hf' : (EffectThread.record ⟨[Chain.new attempt.request.session]⟩).Formed :=
          ⟨List.nodup_singleton _, fun _ h => by cases h; exact le_rfl⟩
        rw [EffectThread.addEffectChain, if_pos rfl, hnew]
        exact hf'.createIn hnew hf (fun _ => rfl) rfl
      | playback t =>
        have hnone : t.getEffectChain attempt.request.session = none := hget
        have hperm := t.addEffectChain_perm (.new attempt.request.session)
        have halike := t.checkSuspendOnAddEffectChain_alike (.new attempt.request.session)
        have hnew := @PlaybackThread.getEffectChain_addEffectChain t
          (.new attempt.request.session) hnone
        have hnew' : (EffectThread.playback (t.addEffectChain (.new attempt.request.session))).getEffectChain
            attempt.request.session =
              some (t.checkSuspendOnAddEffectChain (.new attempt.request.session)) := hnew
        have hf' : (EffectThread.playback (t.addEffectChain (.new attempt.request.session))).Formed :=
          ⟨PlaybackThread.Distinct.addEffectChain (c := .new attempt.request.session) hf.distinct hnone, by simp⟩
        rw [EffectThread.addEffectChain, hnew']
        refine hf'.createIn hnew' hf (fun i => ?_) ?_
        · rw [EffectThread.hosted, chains, (hperm.map (Chain.hosted i)).sum_eq, List.map_cons, List.sum_cons,
            hosted_alike halike, hosted_of_nil rfl, Nat.zero_add]
          rfl
        · rw [if_pos rfl, EffectThread.removeEffectChain, removeEffectChain_addEffectChain t hnone]

end EffectThread

namespace Hosting

/-- The steps that keep the account: an effect is not created on a record thread that has the chain
of another session; and no effect loses its last handle after it was purged. -/
def Sound (w : Hosting) : Event → Prop
  | .create a => ∀ r ∈ w.thread.recordThread, a.initCheck = true → w.thread.refuses a.request = false →
      r.mEffectChains = [] ∨ (w.thread.getEffectChain a.request.session).isSome = true
  | .disconnect _ session e h | .destroyed _ session e h =>
      ∀ p ∈ w.looseHandleAt session e h, (p.1.removeHandle h).mHandles ≠ []
  | _ => True

instance (w : Hosting) : ∀ e, Decidable (w.Sound e)
  | .create _ => inferInstanceAs (Decidable (∀ r ∈ w.thread.recordThread, _ → _ → _ ∨ _))
  | .disconnect .. => inferInstanceAs (Decidable (∀ p ∈ w.looseHandleAt _ _ _, _))
  | .destroyed .. => inferInstanceAs (Decidable (∀ p ∈ w.looseHandleAt _ _ _, _))
  | .destroy .. => isTrue trivial
  | .purge .. => isTrue trivial

/-- Of each id as many registrations are outstanding as effects have it, and a call of
`createEffect_l` that fails changes neither these nor the thread. -/
structure Registered (w : Hosting) : Prop where
  outstanding : ∀ i, outstanding i w.calls = w.thread.hosted i
  failed : ∀ a, w.Sound (.create a) → (w.thread.createEffect a).failed = true →
    (w.create a).thread = w.thread ∧ (w.create a).loose = w.loose ∧
      ∀ i, Effects.outstanding i (w.create a).calls = Effects.outstanding i w.calls

/-- The account, and the shape of the thread's chains. -/
structure Consistent (w : Hosting) : Prop where
  formed : w.thread.Formed
  hosted : ∀ i, (w.thread.hosted i : ℤ) = Effects.outstanding i w.calls

variable {w w' : Hosting} {e : Event} {policy : ℕ → Bool}

theorem consistent_start {t : EffectThread} (ht : t.chains = []) : (start t).Consistent where
  formed := by
    refine ⟨by rw [start, ht]; exact List.nodup_nil, ?_⟩
    rintro r rfl
    have hempty : r.mEffectChains = [] := ht
    rw [hempty]
    exact Nat.zero_le 1
  hosted i := by
    rw [EffectThread.hosted, start, ht]
    rfl

theorem Consistent.accounted (hw : w.Consistent) {attempt : Attempt} (hsound : w.Sound (.create attempt)) :
    EffectThread.Accounted w.thread (w.thread.createEffect attempt) :=
  hw.formed.createEffect attempt fun r hr hinit haccepts =>
    hsound r (by rw [hr]; rfl) hinit haccepts

theorem Consistent.create (hw : w.Consistent) {attempt : Attempt} (hsound : w.Sound (.create attempt)) :
    (w.create attempt).Consistent := by
  have haccount := hw.accounted hsound
  refine ⟨haccount.formed, fun i => ?_⟩
  have hbefore := hw.hosted i
  have hnew := haccount.hosted i
  rw [Hosting.create]
  simp only
  rw [outstanding_append]
  omega

theorem Consistent.registered (hw : w.Consistent) : Registered w where
  outstanding i := (hw.hosted i).symm
  failed attempt hsound hfailed := by
    have haccount := hw.accounted hsound
    have hsame := haccount.failed hfailed
    refine ⟨hsame, ?_, fun i => ?_⟩
    · rw [Hosting.create]
      simp only
      rw [haccount.loose, List.append_nil]
    · have hnone := haccount.hosted i
      rw [hsame] at hnone
      rw [Hosting.create]
      simp only
      rw [outstanding_append]
      omega

theorem released_of_ne_nil {m : Module} (hne : (m.removeHandle h).mHandles ≠ []) (unpinIfLast : Bool) :
    m.released h unpinIfLast = [] := by
  rw [Module.released, decide_eq_false hne, Bool.false_and, if_neg Bool.false_ne_true]

/-- The handle of an effect outside the chains is not one of the session's chain. -/
theorem handleAt_of_loose {p : Module × Handle} (hp : w.looseHandleAt session a h = some p) :
    p.1.self = a ∧ p.1.mSessionId = session ∧ p.1.mHandles.find? (fun x => x.self = h) = some p.2 ∧
      ((w.thread.getEffectChain session).getD (.new session)).handleAt a h = none := by
  rw [looseHandleAt] at hp
  split at hp
  · cases hp
  next hnone =>
    obtain ⟨m, hm, hx⟩ := Option.bind_eq_some_iff.mp hp
    obtain ⟨x, hfind, rfl⟩ := Option.map_eq_some_iff.mp hx
    obtain ⟨hlook, hsession⟩ := Option.filter_eq_some_iff.mp hm
    refine ⟨(KeyedList.lookup_some hlook).2, by simpa using hsession, hfind, ?_⟩
    rw [Option.not_isSome_iff_eq_none, EffectThread.handleAt] at hnone
    cases hget : w.thread.getEffectChain session with
    | none => rfl
    | some c =>
      rw [hget] at hnone
      exact hnone

/-- An effect outside the chains that keeps another handle changes nothing. -/
theorem disconnectLoose_same {p : Module × Handle} (hp : w.looseHandleAt session a h = some p)
    (hne : (p.1.removeHandle h).mHandles ≠ []) (unpinIfLast : Bool) :
    (w.disconnectLoose policy h unpinIfLast p.1).thread = w.thread ∧
      (w.disconnectLoose policy h unpinIfLast p.1).calls = w.calls := by
  obtain ⟨m, x⟩ := p
  obtain ⟨rfl, rfl, hx, hnone⟩ := handleAt_of_loose hp
  have hsilent := @Playing.disconnect_silent _ _ _ _ _ unpinIfLast (Playing.handleAt_beside hnone hx)
    fun hlast => absurd hlast hne
  rw [disconnectLoose]
  simp only
  rw [released_of_ne_nil hne, List.append_nil]
  refine ⟨?_, rfl⟩
  split
  · rfl
  · rfl
  next ho => exact absurd (.inl ho) hsilent
  next ho => exact absurd (.inr ho) hsilent

theorem Consistent.disconnect (hw : w.Consistent) {e : ℕ}
    (hkept : ∀ p ∈ w.looseHandleAt session e h, (p.1.removeHandle h).mHandles ≠ []) (unpinIfLast : Bool) :
    (w.disconnect policy session e h unpinIfLast).Consistent := by
  rw [Hosting.disconnect]
  cases hat : w.thread.handleAt session e h with
  | some p =>
    obtain ⟨hformed, hhosted⟩ := hw.formed.disconnect hat policy unpinIfLast
    refine ⟨hformed, fun i => ?_⟩
    simp only
    rw [hhosted i, outstanding_append, hw.hosted i]
  | none =>
    simp only
    cases hp : w.looseHandleAt session e h with
    | none => exact hw
    | some p =>
      obtain ⟨hthread, hcalls⟩ := @disconnectLoose_same _ _ _ _ policy _ hp (hkept p hp) unpinIfLast
      rw [Option.elim_some]
      refine ⟨by rw [hthread]; exact hw.formed, fun i => ?_⟩
      rw [hthread, hcalls]
      exact hw.hosted i

theorem Consistent.destroy (hw : w.Consistent) (session : ℤ) (e h : ℕ) :
    (w.call (.destroy session e h)).Consistent := by
  have hsessions : ((w.thread.updateChain session fun c => c.destroyHandle e h).chains.map
      Chain.mSessionId) = w.thread.chains.map Chain.mSessionId := by
    rw [EffectThread.chains_updateChain]
    exact KeyedList.map_key_update fun _ hc => hc
  refine ⟨⟨?_, ?_⟩, fun i => ?_⟩
  · rw [call, hsessions]
    exact hw.formed.distinct
  · intro r hr
    rw [call] at hr
    simp only at hr
    cases hthread : w.thread with
    | playback t =>
      rw [hthread] at hr
      cases hr
    | record r' =>
      rw [hthread] at hr
      cases hr
      have hone := hw.formed.single r' hthread
      simpa [KeyedList.update] using hone
  · have hhosted : (w.thread.updateChain session fun c => c.destroyHandle e h).hosted i =
        w.thread.hosted i := by
      simp only [EffectThread.hosted, EffectThread.chains_updateChain, KeyedList.update, List.map_map]
      congr 1
      apply List.map_congr_left
      intro c _
      simp only [Function.comp]
      split
      · exact @hosted_updateEffect i (Module.updateHandle h fun x => { x with mDestroyed := true })
          (fun _ => rfl) c e
      · rfl
    rw [call]
    simp only
    rw [hhosted]
    exact hw.hosted i

theorem Consistent.call (hw : w.Consistent) (hsound : w.Sound e) : (w.call e).Consistent := by
  cases e with
  | create attempt => exact hw.create hsound
  | disconnect policy session e h => exact hw.disconnect hsound true
  | destroy session e h => exact hw.destroy session e h
  | destroyed policy session e h => exact hw.disconnect hsound false
  | purge policy session =>
    obtain ⟨hformed, hhosted⟩ := hw.formed.purge policy session
    refine ⟨hformed, fun i => ?_⟩
    rw [Hosting.call]
    simp only
    rw [hhosted i, outstanding_append, hw.hosted i]

theorem Consistent.step (hw : w.Consistent) (hsound : w.Sound e) (hstep : w.step e = some w') :
    w'.Consistent := by
  rw [Hosting.step] at hstep
  split at hstep
  · cases hstep
    exact hw.call hsound
  · cases hstep

/-- Along the steps that keep the account, registrations and effects in chains are in balance, and a
failed creation leaves everything as it was. -/
theorem registrations_along (t : EffectThread) (es : List Event) (w : Hosting) (ht : t.chains = [])
    (hrun : Machine.run step (start t) es = some w) (hsound : Machine.Along step Sound (start t) es) :
    Registered w :=
  (Machine.run_invariant_along (fun _ _ _ hok hstep h => h.step hok hstep) hsound hrun
    (consistent_start ht) : w.Consistent).registered

/-- A request for an effect of session 7. -/
def plainRequest (uuid self handle : ℕ) (i : ℤ) (flags : BitVec 32) : Request :=
  ⟨7, ⟨⟨uuid, 0⟩, ⟨uuid, 1⟩, flags⟩, 0, self, handle, i, true⟩

/-- Two effects, one of them with two handles; an attempt that the audio policy refuses and one whose
effect cannot be initialised; all handles of the first effect go, and the session is purged after
those of the second were destroyed. -/
def twoHosted : List Event :=
  [.create ⟨plainRequest 5 1 10 100 0, true, true⟩, .create ⟨plainRequest 6 2 20 200 0, true, true⟩,
    .create ⟨plainRequest 5 3 11 300 0, true, true⟩, .create ⟨plainRequest 8 3 30 300 0, true, false⟩,
    .create ⟨{ plainRequest 9 3 30 300 0 with ready := false }, true, true⟩,
    .disconnect (fun _ => true) 7 1 10, .disconnect (fun _ => true) 7 1 11, .destroy 7 2 20,
    .destroyed (fun _ => true) 7 2 20, .purge (fun _ => true) 7]

theorem registrations_along_twoHosted : ∃ w,
    Machine.run step (start (.playback (.new .mixer))) twoHosted = some w ∧ Registered w := by
  have hrun := Option.eq_some_of_isSome
    (by decide : (Machine.run step (start (.playback (.new .mixer))) twoHosted).isSome = true)
  exact ⟨_, hrun, registrations_along _ twoHosted _ rfl hrun (by decide)⟩

/-- A handle whose effect was purged unregisters it again; and on a record thread an effect of another
session that fails takes the thread's chain with it, with an effect that is still registered. -/
theorem purged_twice :
    (Machine.run step (start (.playback (.new .mixer)))
      [.create ⟨plainRequest 5 1 10 100 0, true, true⟩, .purge (fun _ => true) 7,
        .disconnect (fun _ => true) 7 1 10]).map Hosting.calls =
      some [.register 100, .unregister 100, .unregister 100] ∧
    (Machine.run step (start (.record ⟨[]⟩))
      [.create ⟨plainRequest 5 1 10 100 3, true, true⟩,
        .create ⟨{ plainRequest 6 2 20 200 3 with session := 8 }, true, false⟩]).map
          (fun w => (w.calls, w.thread)) = some ([.register 100], .record ⟨[]⟩) := by
  decide

end Hosting

end AudioFlinger.Effects
