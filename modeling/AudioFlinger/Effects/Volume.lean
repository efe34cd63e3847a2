import AudioFlinger.Effects.Engine

/-!
# The volume of a chain

`setVolume_l` finds the effect that controls the volume, hands it the volume that
is asked for, and tells the others. It does nothing where the index of the
controller and the volume are those of the last time: the index does not say
which effect it was, nor which effects have come or been enabled since.
-/

namespace AudioFlinger.Effects

open Foundation Machine

/-- Left and right. -/
abbrev Volume := BitVec 32 × BitVec 32

def effectFlagVolumeMask : BitVec 32 := 0x1c0#32
def effectFlagVolumeCtrl : BitVec 32 := 0x40#32
def effectFlagVolumeInd : BitVec 32 := 0x80#32

/-- Where an effect stands: before the controller, in its place, or after it. -/
inductive Role
  | before
  | controller
  | after
deriving DecidableEq

/-- An effect with the last volume that was sent to it, what it made of that as the controller, and
the role in which the last round of its chain reached it, if it did. -/
structure VolumeEffect where
  engine : Engine
  sent : Option Volume
  output : Option Volume
  heard : Option Role

namespace VolumeEffect

def volumeFlag (e : VolumeEffect) : BitVec 32 :=
  e.engine.module.mDescriptor.flags &&& effectFlagVolumeMask

/-- The test of the loop for the controller. -/
def isController (e : VolumeEffect) : Bool :=
  e.engine.isProcessEnabled && decide (e.volumeFlag = effectFlagVolumeCtrl)

/-- Whether the effect is processed and asks for volume. -/
def asks (e : VolumeEffect) : Bool :=
  e.engine.isProcessEnabled &&
    (decide (e.volumeFlag = effectFlagVolumeCtrl) || decide (e.volumeFlag = effectFlagVolumeInd))

/-- `EffectModule::setVolume`, with the volume that the engine answers if it succeeds; the flag
`controller` is part of the role. -/
def setVolume (answer : Option Volume) (volume : Volume) (role : Role) (e : VolumeEffect) :
    Volume × VolumeEffect :=
  if !e.engine.mStatus then (volume, { e with heard := none })
  else if e.asks then
    let new := if role = .controller then answer.getD volume else volume
    (new,
      { e with
        sent := some volume
        output := if role = .controller then some new else none
        heard := some role })
  else (volume, { e with heard := none })

end VolumeEffect

structure VolumeChain where
  mEffects : List VolumeEffect
  mVolumeCtrlIdx : ℤ
  mLeftVolume : BitVec 32
  mRightVolume : BitVec 32
  mNewLeftVolume : BitVec 32
  mNewRightVolume : BitVec 32

/-- The loop from the last effect on, for the controller among the first `size`. -/
def controllerAmong (es : List VolumeEffect) : ℕ → Option ℕ
  | 0 => none
  | i + 1 => if (es[i]?).any VolumeEffect.isController then some i else controllerAmong es i

def controller (es : List VolumeEffect) : Option ℕ := controllerAmong es es.length

/-- `-1` where there is no controller. -/
def ctrlIdx (es : List VolumeEffect) : ℤ := (controller es).elim (-1) fun i => i

def roleAt (ctrlIdx : ℤ) (i : ℕ) : Role :=
  if (i : ℤ) = ctrlIdx then .controller else if ctrlIdx < i then .after else .before

namespace VolumeChain

/-- The constructor. -/
def new : VolumeChain := ⟨[], -1, 0xffffffff#32, 0xffffffff#32, 0xffffffff#32, 0xffffffff#32⟩

/-- The volume that was asked for last. -/
def mVolume (c : VolumeChain) : Volume := (c.mLeftVolume, c.mRightVolume)

/-- What the controller made of it. -/
def mNewVolume (c : VolumeChain) : Volume := (c.mNewLeftVolume, c.mNewRightVolume)

/-- The test for nothing to do. -/
def Unchanged (requested : Volume) (c : VolumeChain) : Prop :=
  ctrlIdx c.mEffects = c.mVolumeCtrlIdx ∧ requested.1 = c.mLeftVolume ∧ requested.2 = c.mRightVolume

instance (requested : Volume) (c : VolumeChain) : Decidable (c.Unchanged requested) :=
  inferInstanceAs (Decidable (_ ∧ _ ∧ _))

/-- What the controller makes of a volume; without a controller it stays. -/
def update (answer : Option Volume) (requested : Volume) (es : List VolumeEffect) : Volume :=
  ((controller es).bind fun i => es[i]?).elim requested fun e =>
    (e.setVolume answer requested .controller).1

/-- One round: the controller and what is behind it get the volume that is asked for, the effects
before it what it has made of that. -/
def tell (answer : Option Volume) (requested : Volume) (es : List VolumeEffect) :
    List VolumeEffect :=
  es.mapIdx fun i e =>
    let role := roleAt (ctrlIdx es) i
    (e.setVolume answer (if role = .before then update answer requested es else requested) role).2

/-- `setVolume_l`: whether there is a controller, and the volume that is left. -/
def setVolume_l (answer : Option Volume) (requested : Volume) (c : VolumeChain) :
    (Bool × Volume) × VolumeChain :=
  let hasControl := (controller c.mEffects).isSome
  if c.Unchanged requested then
    ((hasControl, if hasControl then c.mNewVolume else requested), c)
  else
    let new := update answer requested c.mEffects
    ((hasControl, new),
      { mEffects := tell answer requested c.mEffects
        mVolumeCtrlIdx := ctrlIdx c.mEffects
        mLeftVolume := requested.1
        mRightVolume := requested.2
        mNewLeftVolume := if hasControl then new.1 else c.mNewLeftVolume
        mNewRightVolume := if hasControl then new.2 else c.mNewRightVolume })

/-- `addEffect_l`, of an effect that this chain has not told anything. -/
def addEffect (e : VolumeEffect) (c : VolumeChain) : VolumeChain :=
  let modules := c.mEffects.map fun e => e.engine.module
  (Chain.insertIndex e.engine.module.mDescriptor modules).elim c fun i =>
    { c with mEffects := c.mEffects.insertIdx i { e with heard := none } }

/-- `removeEffect_l`. -/
def removeEffect (self : ℕ) (c : VolumeChain) : VolumeChain :=
  { c with mEffects := c.mEffects.eraseP fun e => e.engine.module.self = self }

/-- An effect changes its state. -/
def change (self : ℕ) (ev : EngineEvent) (c : VolumeChain) : VolumeChain :=
  { c with
    mEffects := c.mEffects.map fun e =>
      if e.engine.module.self = self then { e with engine := (e.engine.step ev).getD e.engine }
      else e }

end VolumeChain

inductive VolumeEvent
  | setVolume_l (answer : Option Volume) (requested : Volume)
  | addEffect (e : VolumeEffect)
  | removeEffect (self : ℕ)
  | change (self : ℕ) (ev : EngineEvent)

namespace VolumeChain

def step (c : VolumeChain) : VolumeEvent → Option VolumeChain
  | .setVolume_l answer requested => some (c.setVolume_l answer requested).2
  | .addEffect e => some (c.addEffect e)
  | .removeEffect self => some (c.removeEffect self)
  | .change self ev => some (c.change self ev)

/-! ## What is claimed -/

/-- What the controller has made of the last volume that it got. -/
def controllerOutput (es : List VolumeEffect) : Option Volume :=
  ((controller es).bind fun i => es[i]?).bind VolumeEffect.output

/-- The volume for the effect at an index. -/
def prescribed (es : List VolumeEffect) (requested : Volume) (i : ℕ) : Option Volume :=
  if roleAt (ctrlIdx es) i = .before then controllerOutput es else some requested

/-- Every effect that is processed and asks for volume was sent last what is prescribed for it, and
the caller gets what the controller has made of it. -/
structure Reached (es : List VolumeEffect) (requested : Volume) (r : Bool × Volume) : Prop where
  told : ∀ i e, es[i]? = some e → e.asks = true → e.sent = prescribed es requested i
  control : r.1 = (controller es).isSome
  returned : (controller es).elim (some requested) (fun _ => controllerOutput es) = some r.2

def Reaches (c : VolumeChain) : VolumeEvent → Prop
  | .setVolume_l answer requested =>
    Reached (c.setVolume_l answer requested).2.mEffects requested (c.setVolume_l answer requested).1
  | _ => True

/-- Where nothing is done, each effect that is processed and asks for volume was reached by the last
round, in the role that it has now. -/
def Timely (c : VolumeChain) : VolumeEvent → Prop
  | .setVolume_l _ requested => c.Unchanged requested → ∀ i e, c.mEffects[i]? = some e →
      e.asks = true → e.heard = some (roleAt (ctrlIdx c.mEffects) i)
  | _ => True

/-! ## The controller -/

variable {es es' : List VolumeEffect} {e : VolumeEffect} {c c' : VolumeChain} {i k : ℕ}
  {answer : Option Volume} {requested volume : Volume} {role : Role}

theorem controllerAmong_some {n : ℕ} (h : controllerAmong es n = some k) :
    ∃ e, es[k]? = some e ∧ e.isController = true := by
  induction n with
  | zero => cases h
  | succ n ih =>
    rw [controllerAmong] at h
    split_ifs at h with hhere
    · cases h
      exact (Option.any_eq_true ..).mp hhere
    · exact ih h

/-- The search only looks at who could be the controller. -/
theorem controllerAmong_congr
    (h : ∀ i : ℕ, (es'[i]?).any VolumeEffect.isController = (es[i]?).any VolumeEffect.isController)
    (n : ℕ) : controllerAmong es' n = controllerAmong es n := by
  induction n with
  | zero => rfl
  | succ n ih => rw [controllerAmong, controllerAmong, h, ih]

theorem asks_of_isController (h : e.isController = true) : e.asks = true := by
  rw [VolumeEffect.isController, Bool.and_eq_true] at h
  rw [VolumeEffect.asks, h.1, h.2]
  rfl

theorem roleAt_self (k : ℕ) : roleAt k k = .controller := if_pos rfl

/-- Only where there is a controller is an effect before it. -/
theorem exists_controller (h : roleAt (ctrlIdx es) i = .before) :
    ∃ k e, controller es = some k ∧ es[k]? = some e ∧ e.isController = true := by
  rcases hctrl : controller es with _ | k
  · rw [ctrlIdx, hctrl, Option.elim_none, roleAt, if_neg (by omega), if_pos (by omega)] at h
    cases h
  · obtain ⟨e, he, hcontrol⟩ := controllerAmong_some hctrl
    exact ⟨k, e, rfl, he, hcontrol⟩

/-! ## One round -/

theorem setVolume_engine (answer : Option Volume) (volume : Volume) (role : Role)
    (e : VolumeEffect) : (e.setVolume answer volume role).2.engine = e.engine := by
  unfold VolumeEffect.setVolume
  split_ifs <;> rfl

/-- An effect that asks for volume is told. -/
theorem setVolume_asks (h : e.asks = true) :
    e.setVolume answer volume role =
      (if role = .controller then answer.getD volume else volume,
        { e with
          sent := some volume
          output := if role = .controller then
            some (if role = .controller then answer.getD volume else volume) else none
          heard := some role }) := by
  have hstatus : e.engine.mStatus = true := by
    rw [VolumeEffect.asks, Engine.isProcessEnabled, Bool.and_eq_true, Bool.and_eq_true] at h
    exact h.1.1
  rw [VolumeEffect.setVolume, hstatus, Bool.not_true, if_neg Bool.false_ne_true, if_pos h]

theorem setVolume_silent (h : e.asks = false) :
    (e.setVolume answer volume role).2.heard = none := by
  rw [VolumeEffect.setVolume, h, if_neg Bool.false_ne_true]
  split_ifs <;> rfl

theorem tell_getElem? (answer : Option Volume) (requested : Volume) (es : List VolumeEffect)
    (i : ℕ) :
    (tell answer requested es)[i]? = es[i]?.map fun e =>
      (e.setVolume answer
        (if roleAt (ctrlIdx es) i = .before then update answer requested es else requested)
        (roleAt (ctrlIdx es) i)).2 :=
  List.getElem?_mapIdx

/-- Telling the volume changes no engine, and so not who the controller is. -/
theorem controller_tell (answer : Option Volume) (requested : Volume) (es : List VolumeEffect) :
    controller (tell answer requested es) = controller es := by
  have hlen : (tell answer requested es).length = es.length := List.length_mapIdx
  rw [controller, hlen]
  refine controllerAmong_congr (fun i => ?_) _
  rw [tell_getElem?]
  rcases es[i]? with _ | e
  · rfl
  · have hengine := setVolume_engine answer
      (if roleAt (ctrlIdx es) i = .before then update answer requested es else requested)
      (roleAt (ctrlIdx es) i) e
    rw [Option.map_some, Option.any_some, Option.any_some, VolumeEffect.isController,
      VolumeEffect.volumeFlag, hengine]
    rfl

theorem ctrlIdx_tell (answer : Option Volume) (requested : Volume) (es : List VolumeEffect) :
    ctrlIdx (tell answer requested es) = ctrlIdx es := by
  rw [ctrlIdx, controller_tell, ctrlIdx]

theorem ctrlIdx_of_some (h : controller es = some k) : ctrlIdx es = k := by
  rw [ctrlIdx, h]
  rfl

/-- After a round the controller has made of the volume what the round went on with. -/
theorem controllerOutput_tell (h : controller es = some k) :
    controllerOutput (tell answer requested es) = some (update answer requested es) := by
  obtain ⟨e, he, hcontrol⟩ := controllerAmong_some h
  have hasks := asks_of_isController hcontrol
  rw [controllerOutput, controller_tell, h, Option.bind_some, tell_getElem?, he, Option.map_some,
    ctrlIdx_of_some h, roleAt_self, if_neg (by decide), Option.bind_some, setVolume_asks hasks,
    update, h, Option.bind_some, he, Option.elim_some, setVolume_asks hasks]
  rfl

theorem reached_tell (answer : Option Volume) (requested : Volume) (es : List VolumeEffect) :
    Reached (tell answer requested es) requested
      ((controller es).isSome, update answer requested es) := by
  refine ⟨fun i e' he' hasks => ?_, by rw [controller_tell], ?_⟩
  · rw [tell_getElem?, Option.map_eq_some_iff] at he'
    obtain ⟨e, he, rfl⟩ := he'
    have hengine := setVolume_engine answer
      (if roleAt (ctrlIdx es) i = .before then update answer requested es else requested)
      (roleAt (ctrlIdx es) i) e
    rw [VolumeEffect.asks, VolumeEffect.volumeFlag, hengine] at hasks
    rw [setVolume_asks hasks, prescribed, ctrlIdx_tell]
    dsimp only
    by_cases hrole : roleAt (ctrlIdx es) i = .before
    · obtain ⟨k, -, hctrl, -⟩ := exists_controller hrole
      rw [if_pos hrole, if_pos hrole, controllerOutput_tell hctrl]
    · rw [if_neg hrole, if_neg hrole]
  · rw [controller_tell]
    rcases hctrl : controller es with _ | k
    · rw [Option.elim_none, update, hctrl]
      rfl
    · rw [Option.elim_some, controllerOutput_tell hctrl]

/-! ## What the effects remember -/

/-- What was told in a role in the last round. -/
def toldAs (c : VolumeChain) (role : Role) : Volume :=
  if role = .before then c.mNewVolume else c.mVolume

/-- Who was reached by the last round still has what it was told, and the controller of that round
what it answered. -/
def Cached (c : VolumeChain) : Prop :=
  ∀ e ∈ c.mEffects, ∀ role ∈ e.heard,
    e.sent = some (c.toldAs role) ∧ (role = .controller → e.output = some c.mNewVolume)

theorem cached_new : Cached new := fun _ he => (List.not_mem_nil he).elim

theorem addEffect_cases (e : VolumeEffect) (c : VolumeChain) :
    c.addEffect e = c ∨ ∃ i, c.addEffect e =
      { c with mEffects := c.mEffects.insertIdx i { e with heard := none } } := by
  unfold VolumeChain.addEffect
  dsimp only
  generalize Chain.insertIndex e.engine.module.mDescriptor _ = idx
  rcases idx with _ | i
  · exact .inl rfl
  · exact .inr ⟨i, rfl⟩

theorem Cached.addEffect (h : c.Cached) (e : VolumeEffect) : (c.addEffect e).Cached := by
  rcases addEffect_cases e c with heq | ⟨i, heq⟩
  · rw [heq]
    exact h
  · rw [heq]
    intro x hx role hrole
    rcases List.mem_cons.mp (List.insertIdx_subset_cons i _ c.mEffects hx) with rfl | hx
    · cases hrole
    · exact h x hx role hrole

theorem Cached.removeEffect (h : c.Cached) (self : ℕ) : (c.removeEffect self).Cached :=
  fun x hx => h x (List.eraseP_subset hx)

theorem Cached.change (h : c.Cached) (self : ℕ) (ev : EngineEvent) : (c.change self ev).Cached := by
  intro x hx
  obtain ⟨y, hy, rfl⟩ := List.mem_map.mp hx
  have hkept := h y hy
  split_ifs <;> exact hkept

/-- The one in the place of the controller is the controller. -/
theorem controller_of_roleAt (h : roleAt (ctrlIdx es) i = .controller) :
    controller es = some i := by
  unfold roleAt at h
  split_ifs at h with hhere
  rcases hctrl : controller es with _ | k
  · rw [ctrlIdx, hctrl, Option.elim_none] at hhere
    omega
  · rw [ctrlIdx_of_some hctrl, Nat.cast_inj] at hhere
    rw [hhere]

/-- What an effect remembers of a round. -/
theorem heard_tell (hmem : e ∈ tell answer requested es) (hheard : e.heard = some role) :
    e.sent = some (if role = .before then update answer requested es else requested) ∧
      (role = .before → (controller es).isSome) ∧
      (role = .controller →
        (controller es).isSome ∧ e.output = some (update answer requested es)) := by
  obtain ⟨i, hi⟩ := List.getElem?_of_mem hmem
  rw [tell_getElem?, Option.map_eq_some_iff] at hi
  obtain ⟨x, hx, rfl⟩ := hi
  rcases hasks : x.asks with _ | _
  · rw [setVolume_silent hasks] at hheard
    cases hheard
  · rw [setVolume_asks hasks] at hheard ⊢
    obtain rfl := Option.some_inj.mp hheard
    refine ⟨rfl, fun hbefore => ?_, fun hcontroller => ?_⟩
    · obtain ⟨k, -, hctrl, -⟩ := exists_controller hbefore
      rw [hctrl]
      rfl
    · have hctrl := controller_of_roleAt hcontroller
      refine ⟨by rw [hctrl]; rfl, ?_⟩
      rw [if_pos hcontroller, if_pos hcontroller, if_neg (by rw [hcontroller]; decide), update,
        hctrl, Option.bind_some, hx, Option.elim_some, setVolume_asks hasks, if_pos rfl]

theorem Cached.setVolume_l (h : c.Cached) (answer : Option Volume) (requested : Volume) :
    (c.setVolume_l answer requested).2.Cached := by
  unfold VolumeChain.setVolume_l
  dsimp only
  by_cases hunchanged : c.Unchanged requested
  · rw [if_pos hunchanged]
    exact h
  · rw [if_neg hunchanged]
    intro e he role hrole
    obtain ⟨hsent, hbefore, hcontroller⟩ := heard_tell he hrole
    refine ⟨?_, fun hrole => ?_⟩
    · rw [hsent, toldAs]
      by_cases hrole : role = .before
      · rw [if_pos hrole, if_pos hrole, mNewVolume]
        dsimp only
        rw [if_pos (hbefore hrole), if_pos (hbefore hrole)]
      · rw [if_neg hrole, if_neg hrole]
        rfl
    · obtain ⟨hctrl, houtput⟩ := hcontroller hrole
      rw [houtput, mNewVolume]
      dsimp only
      rw [if_pos hctrl, if_pos hctrl]

theorem Cached.step (h : c.Cached) {ev : VolumeEvent} (hstep : c.step ev = some c') :
    c'.Cached := by
  cases ev with
  | setVolume_l answer requested =>
    cases hstep
    exact h.setVolume_l answer requested
  | addEffect e =>
    cases hstep
    exact h.addEffect e
  | removeEffect self =>
    cases hstep
    exact h.removeEffect self
  | change self ev =>
    cases hstep
    exact h.change self ev

/-! ## Doing nothing -/

/-- Where nothing is done and everyone was told, everyone has what is prescribed. -/
theorem Cached.reached (h : c.Cached) (hunchanged : c.Unchanged requested)
    (htimely : ∀ i e, c.mEffects[i]? = some e → e.asks = true →
      e.heard = some (roleAt (ctrlIdx c.mEffects) i)) :
    Reached c.mEffects requested ((controller c.mEffects).isSome,
      if (controller c.mEffects).isSome then c.mNewVolume else requested) := by
  have hvolume : requested = c.mVolume := Prod.ext hunchanged.2.1 hunchanged.2.2
  have houtput : ∀ k, controller c.mEffects = some k →
      controllerOutput c.mEffects = some c.mNewVolume := by
    intro k hctrl
    obtain ⟨e, he, hcontrol⟩ := controllerAmong_some hctrl
    have hheard := htimely k e he (asks_of_isController hcontrol)
    rw [ctrlIdx_of_some hctrl, roleAt_self] at hheard
    rw [controllerOutput, hctrl, Option.bind_some, he, Option.bind_some]
    exact (h e (List.mem_of_getElem? he) .controller hheard).2 rfl
  refine ⟨fun i e he hasks => ?_, rfl, ?_⟩
  · rw [(h e (List.mem_of_getElem? he) _ (htimely i e he hasks)).1, toldAs, prescribed]
    split_ifs with hrole
    · obtain ⟨k, -, hctrl, -⟩ := exists_controller hrole
      rw [houtput k hctrl]
    · rw [hvolume]
  · rcases hctrl : controller c.mEffects with _ | k
    · rfl
    · rw [Option.elim_some, houtput k hctrl]
      rfl

theorem Cached.reaches (h : c.Cached) {ev : VolumeEvent} (htimely : c.Timely ev) :
    c.Reaches ev := by
  cases ev with
  | setVolume_l answer requested =>
    unfold Reaches VolumeChain.setVolume_l
    dsimp only
    by_cases hunchanged : c.Unchanged requested
    · rw [if_pos hunchanged]
      exact h.reached hunchanged (htimely hunchanged)
    · rw [if_neg hunchanged]
      exact reached_tell answer requested c.mEffects
  | addEffect e => trivial
  | removeEffect self => trivial
  | change self ev => trivial

/-- Along every run whose shortcuts find everyone told, in the role that it has now, every call of
`setVolume_l` leaves every effect with the volume that is prescribed for it. -/
theorem volume_reaches (evs : List VolumeEvent) (htimely : Along step Timely new evs) :
    Along step Reaches new evs :=
  htimely.imp_invariant (I := Cached) (fun _ _ h hev => h.reaches hev)
    (fun _ _ _ _ hstep h => h.step hstep) cached_new

/-- An insert effect with these flags for its volume, as it is created. -/
def idleEffect (self : ℕ) (flags : BitVec 32) : VolumeEffect :=
  ⟨.create self self 1 ⟨⟨1, 1⟩, ⟨2, self⟩, flags⟩ 0 0 (some ⟨44100, 1024, true⟩), none, none, none⟩

/-- A controller behind an effect that is told of the volume; both are enabled, the controller
halves the volume, and the same volume comes twice. -/
def halved : List VolumeEvent :=
  [.addEffect (idleEffect 1 effectFlagVolumeInd), .addEffect (idleEffect 2 effectFlagVolumeCtrl),
    .change 1 (.setEnabled true true), .change 1 (.updateState true),
    .change 2 (.setEnabled true true), .change 2 (.updateState true),
    .setVolume_l (some (4#32, 4#32)) (8#32, 8#32), .setVolume_l none (8#32, 8#32)]

instance decidableTimely (c : VolumeChain) : ∀ ev, Decidable (c.Timely ev)
  | .setVolume_l _ requested =>
    decidable_of_iff (c.Unchanged requested → ∀ i < c.mEffects.length, ∀ e ∈ c.mEffects[i]?,
      e.asks = true → e.heard = some (roleAt (ctrlIdx c.mEffects) i)) <| by
        refine imp_congr_right fun _ => forall_congr' fun i => ⟨fun h e he => ?_, fun h _ => h⟩
        exact h (List.getElem?_eq_some_iff.mp he).1 e he
  | .addEffect _ => isTrue trivial
  | .removeEffect _ => isTrue trivial
  | .change _ _ => isTrue trivial

theorem volume_reaches_halved : Along step Timely new halved ∧ Along step Reaches new halved :=
  ⟨by decide, volume_reaches halved (by decide)⟩

/-- An effect that is enabled after the volume was given out; then the same volume comes again. -/
def enabledLate : List VolumeEvent :=
  [.addEffect (idleEffect 1 effectFlagVolumeInd), .setVolume_l none (8#32, 8#32),
    .change 1 (.setEnabled true true), .change 1 (.updateState true),
    .setVolume_l none (8#32, 8#32)]

/-- It is processed and asks for volume, and was never sent any. -/
theorem enabledLate_untold :
    ∃ c, run step new enabledLate = some c ∧
      (c.mEffects.map fun e => (e.asks, e.sent)) = [(true, none)] ∧
      ¬ Along step Reaches new enabledLate := by
  refine ⟨_, rfl, by decide, fun hall => ?_⟩
  have hlast : Reached _ _ _ := ((((hall.2 _ rfl).2 _ rfl).2 _ rfl).2 _ rfl).1
  exact absurd (hlast.told 0 _ rfl (by decide)) (by decide)

end VolumeChain

end AudioFlinger.Effects
