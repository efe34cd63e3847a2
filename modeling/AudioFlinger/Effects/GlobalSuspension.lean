import AudioFlinger.Effects.MixCount

/-!
# Global effects are suspended while they have to be

Effects are created on any sessions of a playback thread; their handles are
enabled, disabled, disconnected and destroyed; sessions are purged, and types are
suspended and restored. In the runs that tell the thread of every change, the
suspensions of the output mix are the enabled effects of other sessions.
-/

namespace AudioFlinger.Effects

open Foundation

/-- A playback thread, and the effects that were purged: their handles still have them, since
`purgeHandles` clears a copy of the handle's pointer. -/
structure Playing where
  thread : PlaybackThread
  purged : List Module

/-- The calls. The destruction of a handle marks it, and later disconnects it. -/
inductive Call
  | create (r : Request)
  | enable (policy : ℕ → Bool) (session : ℤ) (e h : ℕ)
  | disable (policy : ℕ → Bool) (session : ℤ) (e h : ℕ)
  | disconnect (policy : ℕ → Bool) (session : ℤ) (e h : ℕ)
  | destroy (session : ℤ) (e h : ℕ)
  | destroyed (policy : ℕ → Bool) (session : ℤ) (e h : ℕ)
  | purge (policy : ℕ → Bool) (session : ℤ)
  | setEffectSuspended (policy : ℕ → Bool) (type : Uuid) (suspend : Bool) (session : ℤ)

/-- A chain with one effect more, at its end. -/
def Chain.beside (m : Module) (c : Chain) : Chain := { c with mEffects := c.mEffects ++ [m] }

namespace Playing

def start (type : ThreadType) : Playing := ⟨.new type, []⟩

/-- The effects that a handle may have. -/
def effects (w : Playing) : List Module := w.thread.mEffectChains.flatMap Chain.mEffects ++ w.purged

/-- The handle of a purged effect. -/
def purgedHandleAt (w : Playing) (session : ℤ) (e h : ℕ) : Option (Module × Handle) :=
  ((KeyedList.lookup Module.self w.purged e).filter fun m => m.mSessionId = session).bind fun m =>
    (m.mHandles.find? fun x => x.self = h).map fun x => (m, x)

/-- The handle at its address, of an effect of the session's chain or of a purged one. -/
def handleAt (w : Playing) (session : ℤ) (e h : ℕ) : Option (Module × Handle) :=
  (w.thread.handleAt session e h).or (w.purgedHandleAt session e h)

/-- New objects have new addresses; only a handle that is marked is disconnected by its destructor,
and such a handle is not called; a session that is purged is one of tracks. -/
def made (w : Playing) : Call → Bool
  | .create r => w.effects.all fun e => e.self ≠ r.self && e.mHandles.all fun h => h.self ≠ r.handle
  | .enable _ session e h | .disable _ session e h | .disconnect _ session e h =>
    (w.handleAt session e h).all fun p => !p.2.mDestroyed
  | .destroyed _ session e h => (w.handleAt session e h).all fun p => p.2.mDestroyed
  | .purge _ session => session > audioSessionOutputMix
  | .destroy .. | .setEffectSuspended .. => true

/-- A call of a handle whose effect was purged. The thread looks for the chain of the session, which
is another one by now: the effect stands behind those of the chain while the call goes on. -/
def callPurged (policy : ℕ → Bool) (enabled : Bool) (call : Chain → Chain × Chain.Outcome) (m : Module)
    (w : Playing) : Playing :=
  let after := call (((w.thread.getEffectChain m.mSessionId).getD (.new m.mSessionId)).beside m)
  { thread :=
      match after.2 with
      | .unchanged | .silent => w.thread
      | .checked | .refused =>
        (w.thread.updateChain m.mSessionId fun _ => after.1.removeEffect m.self).concludeCall policy
          enabled m.mSessionId after.2
    purged := w.purged.filterMap fun x => if x.self = m.self then after.1.effectAt m.self else some x }

/-- A call of a handle, at the thread or at its purged effect. -/
def callHandle (policy : ℕ → Bool) (enabled : Bool) (atThread : PlaybackThread → PlaybackThread)
    (call : Chain → Chain × Chain.Outcome) (session : ℤ) (e h : ℕ) (w : Playing) : Playing :=
  if (w.thread.handleAt session e h).isSome then { w with thread := atThread w.thread }
  else (w.purgedHandleAt session e h).elim w fun p => w.callPurged policy enabled call p.1

/-- `EffectHandle::disconnect`. -/
def disconnect (policy : ℕ → Bool) (session : ℤ) (e h : ℕ) (unpinIfLast : Bool) (w : Playing) : Playing :=
  w.callHandle policy false (fun t => t.disconnect policy session e h unpinIfLast)
    (fun c => c.disconnect e h unpinIfLast) session e h

def call (w : Playing) : Call → Playing
  | .create r => { w with thread := w.thread.createEffect r }
  | .enable policy session e h =>
    w.callHandle policy true (fun t => t.enable policy session e h) (fun c => c.enable policy e h)
      session e h
  | .disable policy session e h =>
    w.callHandle policy false (fun t => t.disable policy session e h) (fun c => c.disable e h) session e h
  | .disconnect policy session e h => w.disconnect policy session e h true
  | .destroy session e h =>
    { thread := w.thread.updateChain session fun c => c.destroyHandle e h
      purged := KeyedList.update Module.self e
        (Module.updateHandle h fun x => { x with mDestroyed := true }) w.purged }
  | .destroyed policy session e h => w.disconnect policy session e h false
  | .purge policy session =>
    { thread := w.thread.purge policy session
      purged := w.purged ++ w.thread.purgedEffects policy session }
  | .setEffectSuspended policy type suspend session =>
    { w with thread := w.thread.setEffectSuspended policy (some type) suspend session }

def step (w : Playing) (e : Call) : Option Playing := if w.made e then some (w.call e) else none

/-- The mix is suspended as often as effects of other sessions are enabled. -/
structure AsNeeded (t : PlaybackThread) : Prop where
  count : t.mixCount = t.enabledEffects
  nonneg : 0 ≤ t.mixCount
  zero : (∀ c ∈ t.mEffectChains, PlaybackThread.suspendsMix c.mSessionId = true →
    ∀ e ∈ c.mEffects, e.controlled = false) → t.mixCount = 0

/-- The calls that tell the thread of every change, and of nothing else: an enabled effect of another
session is not disabled while it is suspended; the first handle of an effect is not removed while the
next is being destroyed; no enabled handle is being destroyed when its session is purged; a handle of
an effect that was purged is neither enabled nor, when it is enabled, disabled or disconnected as the
last; and no type of the mix has the key for all effects. -/
def Sound (w : Playing) : Call → Prop
  | .enable _ session e h => ∀ p ∈ w.purgedHandleAt session e h, p.2.mHasControl = true →
      p.2.mEnabled = true
  | .disable _ session e h => (PlaybackThread.suspendsMix session = true →
      ∀ p ∈ w.thread.handleAt session e h, p.2.mHasControl = true → p.2.mEnabled = true →
        p.1.mSuspended = false) ∧
      ∀ p ∈ w.purgedHandleAt session e h, p.2.mHasControl = true → p.2.mEnabled = true →
        p.1.mSuspended = true
  | .disconnect _ session e h | .destroyed _ session e h =>
      (∀ p ∈ w.thread.handleAt session e h, NextInLine p) ∧
      ∀ p ∈ w.purgedHandleAt session e h, (p.1.removeHandle h).mHandles = [] → p.2.mEnabled = false
  | .purge _ session => ∀ e ∈ w.thread.effectsOf session, ∀ h ∈ e.mHandles, h.mDestroyed = true →
      h.mEnabled = false
  | .setEffectSuspended _ type _ session => session = audioSessionOutputMix →
      type.timeLow ≠ kKeyForSuspendAll
  | _ => True

instance (w : Playing) : ∀ e, Decidable (w.Sound e)
  | .create _ => isTrue trivial
  | .enable .. => inferInstanceAs (Decidable (∀ p ∈ w.purgedHandleAt _ _ _, _))
  | .disable .. => inferInstanceAs (Decidable ((_ → ∀ p ∈ w.thread.handleAt _ _ _, _) ∧
      ∀ p ∈ w.purgedHandleAt _ _ _, _))
  | .disconnect .. => inferInstanceAs (Decidable ((∀ p ∈ w.thread.handleAt _ _ _, _) ∧
      ∀ p ∈ w.purgedHandleAt _ _ _, _))
  | .destroy .. => isTrue trivial
  | .destroyed .. => inferInstanceAs (Decidable ((∀ p ∈ w.thread.handleAt _ _ _, _) ∧
      ∀ p ∈ w.purgedHandleAt _ _ _, _))
  | .purge _ session => inferInstanceAs (Decidable (∀ e ∈ w.thread.effectsOf session,
      ∀ h ∈ e.mHandles, h.mDestroyed = true → h.mEnabled = false))
  | .setEffectSuspended .. => inferInstanceAs (Decidable (_ → _))

/-! ## Calls that tell the thread nothing -/

variable {w w' : Playing} {e : Call} {m : Module} {c : Chain} {x : Handle} {a h : ℕ}

def Told (o : Chain.Outcome) : Prop := o = .checked ∨ o = .refused

theorem callPurged_thread {policy : ℕ → Bool} {enabled : Bool} {call : Chain → Chain × Chain.Outcome}
    (hsilent : ¬ Told
      (call (((w.thread.getEffectChain m.mSessionId).getD (.new m.mSessionId)).beside m)).2) :
    (w.callPurged policy enabled call m).thread = w.thread := by
  rw [callPurged]
  simp only
  split
  · rfl
  · rfl
  next ho => exact absurd (.inl ho) hsilent
  next ho => exact absurd (.inr ho) hsilent

/-- Behind a chain that does not have the handle, it is the one of the effect that was put there. -/
theorem handleAt_beside (hnone : c.handleAt m.self h = none)
    (hx : m.mHandles.find? (fun x => x.self = h) = some x) :
    (c.beside m).handleAt m.self h = none ∨ (c.beside m).handleAt m.self h = some (m, x) := by
  rw [Chain.handleAt, Chain.effectAt] at hnone
  rw [Chain.handleAt, Chain.effectAt, Chain.beside, List.find?_append]
  cases hown : c.mEffects.find? fun e => e.self = m.self with
  | some e =>
    rw [hown] at hnone
    exact .inl hnone
  | none =>
    right
    simp [hx]

theorem enable_silent {policy : ℕ → Bool}
    (hat : c.handleAt a h = none ∨ c.handleAt a h = some (m, x))
    (hsilent : x.mHasControl = true → x.mEnabled = true) : ¬ Told (c.enable policy a h).2 := by
  rcases hat with hat | hat
  · simp [Chain.enable, hat, Told]
  · have hskip : (!x.mHasControl || x.mEnabled) = true := by
      cases hc : x.mHasControl with
      | false => rfl
      | true => simp [hsilent hc]
    simp [Chain.enable, hat, hskip, Told]

theorem disable_silent (hat : c.handleAt a h = none ∨ c.handleAt a h = some (m, x))
    (hsilent : x.mHasControl = true → x.mEnabled = true → m.mSuspended = true) :
    ¬ Told (c.disable a h).2 := by
  rcases hat with hat | hat
  · simp [Chain.disable, hat, Told]
  · simp only [Chain.disable, hat]
    split
    · simp [Told]
    next hskip =>
      obtain ⟨hcontrol, henabled⟩ : x.mHasControl = true ∧ x.mEnabled = true := by
        cases hc : x.mHasControl <;> cases he : x.mEnabled <;> simp_all
      rw [hsilent hcontrol henabled, if_pos rfl]
      simp [Told]

theorem disconnect_silent {unpinIfLast : Bool} (hat : c.handleAt a h = none ∨ c.handleAt a h = some (m, x))
    (hsilent : (m.removeHandle h).mHandles = [] → x.mEnabled = false) :
    ¬ Told (c.disconnect a h unpinIfLast).2 := by
  rcases hat with hat | hat
  · simp [Chain.disconnect, hat, Told]
  · simp only [Chain.disconnect, hat]
    split
    next hlast =>
      rw [hsilent hlast, if_neg Bool.false_ne_true]
      simp [Told]
    next => simp [Told]

/-! ## The invariant -/

theorem balanced_start (type : ThreadType) : (start type).thread.Balanced := ⟨⟨List.nodup_nil, nofun⟩, rfl⟩

theorem asNeeded_of_balanced {t : PlaybackThread} (hb : t.Balanced) : AsNeeded t where
  count := hb.count
  nonneg := hb.nonneg
  zero := by
    intro hnone
    rw [hb.count, PlaybackThread.enabledEffects, List.sum_eq_zero]
    · rfl
    · intro n hn
      obtain ⟨c, hc, rfl⟩ := List.mem_map.mp hn
      rw [PlaybackThread.mixWeight]
      split
      next hmix =>
        rw [Chain.enabledCount, List.countP_eq_zero]
        intro e he
        simp [hnone c hc hmix e he]
      next => rfl

/-- A call of a handle is one at the thread, or one that tells it nothing. -/
theorem callHandle_balanced {policy : ℕ → Bool} {enabled : Bool} {session : ℤ}
    {atThread : PlaybackThread → PlaybackThread} {call : Chain → Chain × Chain.Outcome}
    (hb : w.thread.Balanced) (hthread : (atThread w.thread).Balanced)
    (hsilent : ∀ p ∈ w.purgedHandleAt session a h, ∀ c : Chain,
      c.handleAt a h = none ∨ c.handleAt a h = some p → ¬ Told (call c).2) :
    (w.callHandle policy enabled atThread call session a h).thread.Balanced := by
  rw [callHandle]
  split
  · exact hthread
  next hnone =>
    cases hp : w.purgedHandleAt session a h with
    | none => exact hb
    | some p =>
      obtain ⟨m, x⟩ := p
      obtain ⟨m', hm', hx⟩ := Option.bind_eq_some_iff.mp hp
      obtain ⟨x', hx', heq⟩ := Option.map_eq_some_iff.mp hx
      cases heq
      obtain ⟨hlook, hsession⟩ := Option.filter_eq_some_iff.mp hm'
      obtain ⟨-, hself⟩ := KeyedList.lookup_some hlook
      have hsession : m.mSessionId = session := by simpa using hsession
      have hchain : ((w.thread.getEffectChain m.mSessionId).getD (.new m.mSessionId)).handleAt m.self h =
          none := by
        rw [Option.not_isSome_iff_eq_none, PlaybackThread.handleAt] at hnone
        rw [hsession, hself]
        cases hget : w.thread.getEffectChain session with
        | none => rfl
        | some c =>
          rw [hget] at hnone
          exact hnone
      have hat := handleAt_beside hchain hx'
      rw [hself] at hat
      rw [Option.elim_some, callPurged_thread (hsilent _ hp _ hat)]
      exact hb

theorem destroy_balanced (hb : w.thread.Balanced) (session : ℤ) (a h : ℕ) :
    (w.thread.updateChain session fun c => c.destroyHandle a h).Balanced := by
  refine ⟨⟨?_, ?_⟩, ?_⟩
  · have hkeys := @KeyedList.map_key_update _ _ _ Chain.mSessionId w.thread.mEffectChains session
      (fun c => c.destroyHandle a h) fun _ hc => hc
    rw [PlaybackThread.updateChain, hkeys]
    exact hb.sessions
  · intro x hx
    obtain ⟨c, hc, rfl⟩ := List.mem_map.mp hx
    split
    · exact ((hb.chains c hc).destroyHandle a h).1
    · exact hb.chains c hc
  · have hsame : (w.thread.updateChain session fun c => c.destroyHandle a h).enabledEffects =
        w.thread.enabledEffects := by
      simp only [PlaybackThread.enabledEffects, PlaybackThread.updateChain, KeyedList.update, List.map_map]
      congr 1
      apply List.map_congr_left
      intro c hc
      simp only [Function.comp]
      split
      · have hcount := ((hb.chains c hc).destroyHandle a h).2
        rw [PlaybackThread.mixWeight, PlaybackThread.mixWeight, hcount]
        rfl
      · rfl
    rw [hsame]
    exact hb.count

theorem disconnect_balanced {policy : ℕ → Bool} {session : ℤ} (hb : w.thread.Balanced)
    (hnext : ∀ p ∈ w.thread.handleAt session a h, NextInLine p)
    (hsilent : ∀ p ∈ w.purgedHandleAt session a h, (p.1.removeHandle h).mHandles = [] →
      p.2.mEnabled = false) (unpinIfLast : Bool) :
    (w.disconnect policy session a h unpinIfLast).thread.Balanced :=
  callHandle_balanced hb (hb.disconnect policy session a h unpinIfLast hnext)
    fun p hp _ hat => disconnect_silent hat (hsilent p hp)

theorem call_balanced (hb : w.thread.Balanced) (hmade : w.made e = true) (hsound : w.Sound e) :
    (w.call e).thread.Balanced := by
  cases e with
  | create r =>
    have hfresh : ∀ c ∈ w.thread.mEffectChains, ∀ e ∈ c.mEffects, e.self ≠ r.self ∧
        r.handle ∉ e.mHandles.map Handle.self := by
      intro c hc e he
      have hmem : e ∈ w.effects :=
        List.mem_append_left _ (List.mem_flatMap.mpr ⟨c, hc, he⟩)
      have hall := List.all_eq_true.mp hmade e hmem
      rw [Bool.and_eq_true, List.all_eq_true] at hall
      refine ⟨by simpa using hall.1, fun hin => ?_⟩
      obtain ⟨x, hx, hself⟩ := List.mem_map.mp hin
      simpa [hself] using hall.2 x hx
    exact hb.createEffect (fun c hc e he => (hfresh c hc e he).1) fun c hc e he => (hfresh c hc e he).2
  | enable policy session a h =>
    exact callHandle_balanced hb (hb.enable policy session a h)
      fun p hp _ hat => enable_silent hat (hsound p hp)
  | disable policy session a h =>
    exact callHandle_balanced hb (hb.disable policy session a h hsound.1)
      fun p hp _ hat => disable_silent hat (hsound.2 p hp)
  | disconnect policy session a h => exact disconnect_balanced hb hsound.1 hsound.2 true
  | destroy session a h => exact destroy_balanced hb session a h
  | destroyed policy session a h => exact disconnect_balanced hb hsound.1 hsound.2 false
  | purge policy session => exact hb.purge policy hsound
  | setEffectSuspended policy type suspend session => exact hb.setEffectSuspended policy suspend hsound

theorem step_balanced (hb : w.thread.Balanced) (hsound : w.Sound e) (hstep : w.step e = some w') :
    w'.thread.Balanced := by
  rw [Playing.step] at hstep
  split at hstep
  next hmade =>
    cases hstep
    exact call_balanced hb hmade hsound
  next => cases hstep

/-- Along the calls that tell the thread of every change, the effects of the mix are suspended once
for each enabled effect of another session. -/
theorem mixCount_along (type : ThreadType) (es : List Call) (w : Playing)
    (hrun : Machine.run step (start type) es = some w)
    (hsound : Machine.Along step Sound (start type) es) : AsNeeded w.thread :=
  asNeeded_of_balanced (Machine.run_invariant_along (I := fun w => w.thread.Balanced)
    (fun _ _ _ hok hstep h => step_balanced h hok hstep) hsound hrun (balanced_start type))

/-- Two effects on one session and one on the mix; a second handle takes control over; the first
effect is suspended and restored, its handles go, and the session is purged. -/
def threeEffects : List Call :=
  [.create ⟨0, ⟨⟨9, 0⟩, ⟨90, 0⟩, 0⟩, 0, 3, 30, 1, true⟩,
    .create ⟨7, ⟨⟨5, 0⟩, ⟨50, 0⟩, 0⟩, 0, 1, 10, 2, true⟩,
    .create ⟨7, ⟨⟨6, 0⟩, ⟨60, 0⟩, 0⟩, 0, 2, 20, 3, true⟩,
    .enable (fun _ => true) 7 1 10, .enable (fun _ => true) 7 2 20, .enable (fun _ => true) 0 3 30,
    .create ⟨7, ⟨⟨5, 0⟩, ⟨50, 0⟩, 0⟩, 1, 4, 11, 4, true⟩,
    .setEffectSuspended (fun _ => true) ⟨5, 0⟩ true 7, .destroy 7 1 10,
    .destroyed (fun _ => true) 7 1 10, .setEffectSuspended (fun _ => true) ⟨5, 0⟩ false 7,
    .disable (fun _ => true) 7 1 11, .purge (fun _ => true) 7]

theorem mixCount_along_threeEffects :
    ∃ w, Machine.run step (start .mixer) threeEffects = some w ∧ AsNeeded w.thread := by
  have hrun := Option.eq_some_of_isSome
    (by decide : (Machine.run step (start .mixer) threeEffects).isSome = true)
  exact ⟨_, hrun, mixCount_along .mixer threeEffects _ hrun (by decide)⟩

/-- An effect is disabled while its type is suspended: the mix stays suspended although no effect is
enabled, also when the type is restored and the handle disconnected. -/
theorem disable_while_suspended :
    (Machine.run step (start .mixer)
      [.create ⟨7, ⟨⟨5, 0⟩, ⟨50, 0⟩, 0⟩, 0, 1, 10, 1, true⟩, .enable (fun _ => true) 7 1 10,
        .setEffectSuspended (fun _ => true) ⟨5, 0⟩ true 7, .disable (fun _ => true) 7 1 10,
        .setEffectSuspended (fun _ => true) ⟨5, 0⟩ false 7, .disconnect (fun _ => true) 7 1 10]).map
      (fun w => (w.thread.mixCount, w.thread.enabledEffects, w.thread.mEffectChains)) =
        some (1, 0, []) := by
  decide

end Playing

end AudioFlinger.Effects
