import AudioFlinger.Effects.Handles
import Mathlib.Data.List.Chain

/-!
# Switching an effect engine

`libs/audioflinger/Effects.cpp`: clients change the state of an effect, and the
next cycle of its chain switches the engine. An effect that leaves its chain is
stopped, and started again if the chain is moved. Each command is kept with the
engine's answer.
-/

namespace AudioFlinger.Effects

open Foundation

/-! ## Commands -/

inductive Command
  | reset
  | enable
  | disable
deriving DecidableEq

/-- Whether an answered command switched its engine, and to what. -/
def Command.switched : Command × Bool → Option Bool
  | (.enable, true) => some true
  | (.disable, true) => some false
  | _ => none

/-- What a log of commands switched an engine to, one after the other. -/
def switches (log : List (Command × Bool)) : List Bool := log.filterMap Command.switched

/-- Whether the engine is on; it starts off. -/
def isOn (log : List (Command × Bool)) : Bool := (switches log).getLast?.getD false

/-- The engine was switched on first, and never twice to the same. -/
def Alternating (log : List (Command × Bool)) : Prop := List.IsChain (· ≠ ·) (false :: switches log)

/-- The engine was told to switch off whenever it was switched on. -/
def Settled (log : List (Command × Bool)) : Prop :=
  ∀ before after, log = before ++ (.enable, true) :: after → ∃ answer, (.disable, answer) ∈ after

variable {log : List (Command × Bool)} {answer : Bool}

theorem switches_concat (log : List (Command × Bool)) (x : Command × Bool) :
    switches (log ++ [x]) = switches log ++ (Command.switched x).toList := by
  rw [switches, switches, List.filterMap_append]
  cases h : Command.switched x with
  | none => simp [h]
  | some b => simp [h]

theorem isOn_concat (log : List (Command × Bool)) (x : Command × Bool) :
    isOn (log ++ [x]) = (Command.switched x).getD (isOn log) := by
  rw [isOn, switches_concat]
  cases Command.switched x with
  | none => simp [isOn]
  | some b => simp

/-- A switch to the other side. -/
theorem Alternating.concat (h : Alternating log) {x : Command × Bool}
    (hx : ∀ b, Command.switched x = some b → isOn log = !b) : Alternating (log ++ [x]) := by
  rw [Alternating, switches_concat]
  cases hs : Command.switched x with
  | none =>
    rw [Option.toList_none, List.append_nil]
    exact h
  | some b =>
    rw [Option.toList_some, ← List.cons_append, List.isChain_append]
    refine ⟨h, List.isChain_singleton b, ?_⟩
    intro y hy z hz
    have hlast : y = isOn log := by
      rw [List.getLast?_cons, Option.mem_some_iff] at hy
      exact hy.symm
    have hz' : b = z := by simpa using hz
    rw [hlast, hx b hs, ← hz']
    cases b <;> decide

theorem settled_nil : Settled [] := by
  intro before after h
  simp at h

theorem settled_disable (log : List (Command × Bool)) (answer : Bool) :
    Settled (log ++ [(.disable, answer)]) := by
  intro before after h
  rcases List.eq_nil_or_concat' after with rfl | ⟨after, x, rfl⟩
  · have hlast := congrArg List.getLast? h
    simp at hlast
  · rw [← List.cons_append, ← List.append_assoc] at h
    have hx : [(Command.disable, answer)] = [x] := (List.append_inj' h rfl).2
    exact ⟨answer, by rw [← hx]; simp⟩

/-- A command that does not switch the engine on. -/
theorem Settled.concat (h : Settled log) {x : Command × Bool} (hx : x ≠ (.enable, true)) :
    Settled (log ++ [x]) := by
  intro before after hlog
  rcases List.eq_nil_or_concat' after with rfl | ⟨after, y, rfl⟩
  · have hlast := congrArg List.getLast? hlog
    exact absurd (by simpa using hlast) hx
  · have hinit : log = before ++ (.enable, true) :: after := by
      rw [← List.cons_append, ← List.append_assoc] at hlog
      exact (List.append_inj' hlog rfl).1
    obtain ⟨a, ha⟩ := h before after hinit
    exact ⟨a, List.mem_append_left _ ha⟩

/-! ## Engines -/

/-- The audio parameters of the thread that an effect is configured for, and whether the engine
takes them. -/
structure Configuration where
  samplingRate : ℕ
  frameCount : ℕ
  accepted : Bool

/-- `MAX_DISABLE_TIME_MS`. -/
def maxDisableTimeMs : ℕ := 10000

/-- An effect with its engine. `mStatus` says whether the effect is in order; an effect is attached
while it is in a chain. -/
structure Engine where
  module : Module
  mStatus : Bool
  mDisableWaitCnt : BitVec 32
  mMaxDisableWaitCnt : BitVec 32
  attached : Bool
  released : Bool
  sent : List (Command × Bool)

namespace Engine

def setState (s : ModuleState) (e : Engine) : Engine := { e with module := { e.module with mState := s } }

/-- `configure`, of a thread that may be gone; a `size_t` has 32 bits. -/
def configure (c : Option Configuration) (e : Engine) : Engine :=
  c.elim { e with mStatus := false } fun c =>
    { e with
      mMaxDisableWaitCnt :=
        .ofNat 32 (maxDisableTimeMs * c.samplingRate % 2 ^ 32 / (1000 * c.frameCount % 2 ^ 32))
      mStatus := c.accepted }

/-- A new effect in its chain; the counts are not set before `configure`. -/
def create (self : ℕ) (id sessionId : ℤ) (desc : Descriptor) (wait maxWait : BitVec 32)
    (c : Option Configuration) : Engine :=
  ({ module := .new self id sessionId desc
     mStatus := true
     mDisableWaitCnt := wait
     mMaxDisableWaitCnt := maxWait
     attached := true
     released := false
     sent := [] } : Engine).configure c

/-- Send a command; an effect that is not in order sends none. -/
def send (command : Command) (answer : Bool) (e : Engine) : Engine :=
  if e.mStatus then { e with sent := e.sent ++ [(command, answer)] } else e

/-- `start_l`. -/
def start (answer : Bool) (e : Engine) : Engine := e.send .enable answer

/-- `stop_l`. -/
def stop (answer : Bool) (e : Engine) : Engine := e.send .disable answer

/-- `reset_l`; the answer is not looked at. -/
def reset (e : Engine) : Engine := e.send .reset true

/-- Whether `start_l` and `stop_l` return `NO_ERROR`. -/
def succeeds (answer : Bool) (e : Engine) : Bool := e.mStatus && answer

def isProcessEnabled (e : Engine) : Bool :=
  e.mStatus &&
    match e.module.mState with
    | .restart | .active | .stopping | .stopped => true
    | .idle | .starting | .destroyed => false

/-- `process`, with whether both buffers are there and whether the engine has no data left. -/
def process (ready noData : Bool) (e : Engine) : Engine :=
  if ready && e.isProcessEnabled && decide (e.module.mState = .stopped) && noData then
    { e with mDisableWaitCnt := 1 }
  else e

/-- `updateState`, with the engine's answer to the command that is sent. -/
def updateState (answer : Bool) (e : Engine) : Engine :=
  match e.module.mState with
  | .restart =>
    let e := e.reset
    (e.start answer).setState (if e.succeeds answer then .active else .idle)
  | .starting => (e.start answer).setState (if e.succeeds answer then .active else .idle)
  | .stopping =>
    { e.stop answer with
      mDisableWaitCnt := if e.succeeds answer then e.mMaxDisableWaitCnt else 1 }.setState .stopped
  | .stopped =>
    let e := { e with mDisableWaitCnt := e.mDisableWaitCnt - 1 }
    if e.mDisableWaitCnt = 0 then e.reset.setState .idle else e
  | .idle | .active | .destroyed => e

/-- The states in which an effect that leaves its chain is stopped. -/
def running (e : Engine) : Bool := e.module.mState = .active || e.module.mState = .stopping

/-- `removeEffect_l`, of the effect's chain. -/
def removeEffect (answer : Bool) (e : Engine) : Engine :=
  if e.attached then { (if e.running then e.stop answer else e) with attached := false } else e

/-- The part of `moveEffectChain_l` for one effect; without a configuration the chain of the
destination does not take it. -/
def moveEffectChain (stopped : Bool) (c : Option (Option Configuration)) (started : Bool) (e : Engine) :
    Engine :=
  let e := e.removeEffect stopped
  let e := c.elim e fun c => { e.configure c with attached := true }
  if e.running then e.start started else e

end Engine

/-- What happens to an effect. A neighbour in the chain that comes or goes has it configured again. -/
inductive EngineEvent
  | setEnabled (policy enabled : Bool)
  | addHandle (h : Handle)
  | removeHandle (self : ℕ)
  | unPin
  | configure (c : Option Configuration)
  | process (ready noData : Bool)
  | updateState (answer : Bool)
  | removeEffect (answer : Bool)
  | moveEffectChain (stopped : Bool) (c : Option (Option Configuration)) (started : Bool)
  | release

namespace Engine

/-- Only the chain of an effect has it process, and only an effect that is out of its chain and
without handles goes. One whose thread is gone can go with handles, which `disconnect` then does not
remove: these runs are left out. -/
def possible (e : Engine) : EngineEvent → Bool
  | .configure _ | .process _ _ | .updateState _ | .moveEffectChain _ _ _ => e.attached
  | .release => !e.attached && e.module.mHandles.isEmpty
  | _ => true

def call (e : Engine) : EngineEvent → Engine
  | .setEnabled policy enabled => { e with module := (e.module.setEnabled policy enabled).1 }
  | .addHandle h => { e with module := e.module.addHandle h }
  | .removeHandle self => { e with module := e.module.removeHandle self }
  | .unPin => { e with module := { e.module with mPinned := false } }
  | .configure c => e.configure c
  | .process ready noData => e.process ready noData
  | .updateState answer => e.updateState answer
  | .removeEffect answer => e.removeEffect answer
  | .moveEffectChain stopped c started => e.moveEffectChain stopped c started
  | .release => { e with released := true }

def step (e : Engine) (ev : EngineEvent) : Option Engine :=
  if !e.released && e.possible ev then some (e.call ev) else none

/-! ## What is claimed -/

/-- The engine is switched on and off in turn; it is released only after it was told to switch off
each time; and an effect that stops has cycles to wait. -/
structure Obeys (e : Engine) : Prop where
  alternating : Alternating e.sent
  settled : e.released = true → Settled e.sent
  waits : e.module.mState = .stopped → e.mDisableWaitCnt ≠ 0

/-- The events that leave no engine on: the last handle of an effect that is not pinned goes only
after the effect stopped; an effect that stops is in order, its engine switches off, and there is
time to wait; an effect in order is removed; and an effect that is moved is stopped and, if the
destination takes it, started there. -/
def Sound (e : Engine) : EngineEvent → Prop
  | .removeHandle self => e.attached = true → e.module.mPinned = false →
      e.module.mHandles.map Handle.self = [self] → e.running = false
  | .updateState answer => e.module.mState = .stopping →
      e.succeeds answer = true ∧ e.mMaxDisableWaitCnt ≠ 0
  | .removeEffect _ => e.attached = true → e.running = true → e.mStatus = true
  | .moveEffectChain stopped c started => e.running = true → e.succeeds stopped = true ∧
      c.elim (started = false) fun c => c.any Configuration.accepted = true ∧ started = true
  | _ => True

instance (e : Engine) : ∀ ev, Decidable (e.Sound ev)
  | .removeHandle _ => inferInstanceAs (Decidable (_ → _ → _ → _))
  | .updateState _ => inferInstanceAs (Decidable (_ → _ ∧ _))
  | .removeEffect _ => inferInstanceAs (Decidable (_ → _ → _))
  | .moveEffectChain _ none _ => inferInstanceAs (Decidable (_ → _ ∧ _ = false))
  | .moveEffectChain _ (some _) _ => inferInstanceAs (Decidable (_ → _ ∧ _ ∧ _))
  | .setEnabled _ _ => isTrue trivial
  | .addHandle _ => isTrue trivial
  | .unPin => isTrue trivial
  | .configure _ => isTrue trivial
  | .process _ _ => isTrue trivial
  | .release => isTrue trivial

/-! ## The invariant -/

/-- In a chain the engine is on in the states that run, and off and settled in the others. -/
structure Consistent (e : Engine) : Prop where
  alternating : Alternating e.sent
  runs : e.attached = true → e.running = true → isOn e.sent = true
  rests : e.attached = true → e.running = false → isOn e.sent = false
  settled : (e.attached = true → e.running = false) → Settled e.sent
  waits : e.module.mState = .stopped ∨ e.module.mState = .restart → e.mDisableWaitCnt ≠ 0

variable {e e' : Engine} {ev : EngineEvent}

theorem Consistent.obeys (he : e.Consistent) (hreleased : e.released = true → e.attached = false) :
    e.Obeys where
  alternating := he.alternating
  settled h := he.settled fun hattached => by
    rw [hreleased h] at hattached
    cases hattached
  waits h := he.waits (.inl h)

/-- The part of an effect that its engine depends on. -/
theorem Consistent.congr (he : e.Consistent) (hsent : e'.sent = e.sent)
    (hattached : e'.attached = e.attached) (hrunning : e'.running = e.running)
    (hwaits : e'.module.mState = .stopped ∨ e'.module.mState = .restart → e'.mDisableWaitCnt ≠ 0) :
    e'.Consistent where
  alternating := by
    rw [hsent]
    exact he.alternating
  runs := by
    rw [hsent, hattached, hrunning]
    exact he.runs
  rests := by
    rw [hsent, hattached, hrunning]
    exact he.rests
  settled := by
    rw [hsent, hattached, hrunning]
    exact he.settled
  waits := hwaits

theorem configure_fields (c : Option Configuration) (e : Engine) :
    (e.configure c).module = e.module ∧ (e.configure c).sent = e.sent ∧
      (e.configure c).attached = e.attached ∧ (e.configure c).mDisableWaitCnt = e.mDisableWaitCnt ∧
        (e.configure c).mStatus = c.any Configuration.accepted := by
  cases c <;> exact ⟨rfl, rfl, rfl, rfl, rfl⟩

theorem Consistent.configure (he : e.Consistent) (c : Option Configuration) : (e.configure c).Consistent := by
  obtain ⟨hmodule, hsent, hattached, hwait, -⟩ := configure_fields c e
  refine he.congr hsent hattached (by rw [running, running, hmodule]) ?_
  rw [hmodule, hwait]
  exact he.waits

theorem consistent_create (self : ℕ) (id sessionId : ℤ) (desc : Descriptor) (wait maxWait : BitVec 32)
    (c : Option Configuration) : (create self id sessionId desc wait maxWait c).Consistent := by
  apply Consistent.configure
  refine ⟨List.isChain_singleton _, fun _ h => ?_, fun _ _ => rfl, fun _ => settled_nil, ?_⟩
  · cases h
  · rintro (h | h) <;> cases h

/-! ## Clients -/

theorem Consistent.setEnabled (he : e.Consistent) (policy enabled : Bool) :
    (e.call (.setEnabled policy enabled)).Consistent := by
  have hcases : (e.module.setEnabled policy enabled).1 = e.module ∨
      (e.module.setEnabled policy enabled).1 = { e.module with mState := Module.toggled e.module.mState } := by
    rw [Module.setEnabled]
    split
    · split
      · exact .inl rfl
      · exact .inr rfl
    · exact .inl rfl
  rcases hcases with heq | heq
  · refine he.congr rfl rfl ?_ ?_
    · rw [running, running, call, heq]
    · rw [call, heq]
      exact he.waits
  · refine he.congr rfl rfl ?_ ?_
    · rw [running, running, call, heq]
      cases e.module.mState <;> rfl
    · rw [call, heq]
      have hwaits := he.waits
      cases hs : e.module.mState <;> simp_all [Module.toggled]

theorem Consistent.addHandle (he : e.Consistent) (h : Handle) : (e.call (.addHandle h)).Consistent := by
  have hstate : (e.module.addHandle h).mState = e.module.mState := by rw [addHandle_fields]
  refine he.congr rfl rfl (by rw [running, running, call, hstate]) ?_
  rw [call, hstate]
  exact he.waits

end Engine

/-- Removing a handle leaves the state, unless it was the last one of an effect that is not pinned. -/
theorem removeHandle_state (m : Module) (a : ℕ) : (m.removeHandle a).mState = m.mState ∨
    ((m.removeHandle a).mState = .destroyed ∧ m.mPinned = false ∧ m.mHandles.map Handle.self = [a]) := by
  cases hcons : m.mHandles with
  | nil =>
    have heq : m.removeHandle a = m := by
      simp only [Module.removeHandle, hcons, List.findIdx?_nil]
    exact .inl (by rw [heq])
  | cons c hs =>
    rcases removeHandle_cases hcons a with ⟨-, -, heq⟩ | ⟨i, -, heq⟩ | ⟨hself, heq⟩
    · exact .inl (by rw [heq])
    · exact .inl (by rw [heq])
    · rw [heq]
      have hcontrol : ∀ (m : Module) (b : Bool), (m.handControl b).mState = m.mState ∧
          (m.handControl b).mPinned = m.mPinned ∧ ((m.handControl b).mHandles = [] → m.mHandles = []) := by
        intro m b
        rw [Module.handControl]
        cases m.controlHandle with
        | none => exact ⟨rfl, rfl, id⟩
        | some h => exact ⟨rfl, rfl, List.map_eq_nil_iff.mp⟩
      obtain ⟨hstate, hpinned, hnil⟩ := hcontrol { m with mHandles := hs } c.mEnabled
      rw [Module.destroyIfUnused]
      split
      next hlast =>
        simp only [Bool.and_eq_true, decide_eq_true_eq, Bool.not_eq_true'] at hlast
        have hhs : hs = [] := hnil hlast.1
        exact .inr ⟨rfl, hpinned.symm.trans hlast.2, by rw [hhs, ← hself]; rfl⟩
      next => exact .inl hstate

namespace Engine

variable {e e' : Engine} {ev : EngineEvent}

theorem Consistent.removeHandle (he : e.Consistent) {self : ℕ} (hsound : e.Sound (.removeHandle self)) :
    (e.call (.removeHandle self)).Consistent := by
  rcases removeHandle_state e.module self with hstate | ⟨hdestroyed, hpinned, hlast⟩
  · refine he.congr rfl rfl (by rw [running, running, call, hstate]) ?_
    rw [call, hstate]
    exact he.waits
  · have hstopped : (e.call (.removeHandle self)).running = false := by rw [running, call, hdestroyed]; rfl
    refine ⟨he.alternating, fun _ hruns => ?_, fun hattached _ => ?_, fun _ => ?_, ?_⟩
    · rw [hstopped] at hruns
      cases hruns
    · exact he.rests hattached (hsound hattached hpinned hlast)
    · exact he.settled fun hattached => hsound hattached hpinned hlast
    · rw [call, hdestroyed]
      rintro (h | h) <;> cases h

/-! ## Cycles -/

theorem Consistent.process (he : e.Consistent) (ready noData : Bool) : (e.process ready noData).Consistent := by
  rw [Engine.process]
  split
  · refine he.congr rfl rfl rfl fun _ => ?_
    change (1 : BitVec 32) ≠ 0
    decide
  · exact he

/-- A command that the engine refuses, or that does not switch it. -/
theorem Consistent.sendIdle (he : e.Consistent) {command : Command} {answer : Bool}
    (hx : Command.switched (command, answer) = none) : (e.send command answer).Consistent := by
  rw [send]
  split
  · have hon : isOn (e.sent ++ [(command, answer)]) = isOn e.sent := by rw [isOn_concat, hx]; rfl
    have hne : (command, answer) ≠ (.enable, true) := by
      rintro h
      rw [h] at hx
      cases hx
    exact
      { alternating := he.alternating.concat fun b hb => by
          rw [hx] at hb
          cases hb
        runs := fun hattached hruns => hon.trans (he.runs hattached hruns)
        rests := fun hattached hrests => hon.trans (he.rests hattached hrests)
        settled := fun h => (he.settled h).concat hne
        waits := he.waits }
  · exact he

/-- The engine is switched on. -/
theorem Consistent.started (he : e.Consistent) (hattached : e.attached = true)
    (hrests : e.running = false) (answer : Bool) :
    ((e.start answer).setState (if e.succeeds answer then .active else .idle)).Consistent := by
  by_cases hsucceeds : e.succeeds answer = true
  · obtain ⟨hstatus, rfl⟩ : e.mStatus = true ∧ answer = true := by
      rw [succeeds, Bool.and_eq_true] at hsucceeds
      exact hsucceeds
    rw [if_pos hsucceeds, start, send, if_pos hstatus]
    refine ⟨?_, fun _ _ => ?_, fun _ h => ?_, fun h => ?_, ?_⟩
    · apply he.alternating.concat
      rintro b ⟨rfl⟩
      exact he.rests hattached hrests
    · change isOn (e.sent ++ [(.enable, true)]) = true
      rw [isOn_concat]
      rfl
    · cases h
    · cases h hattached
    · rintro (h | h) <;> cases h
  · have hidle : (e.start answer).Consistent := by
      rw [start]
      cases answer with
      | false => exact he.sendIdle rfl
      | true =>
        have hstatus : e.mStatus = false := by
          rw [succeeds, Bool.and_true] at hsucceeds
          simpa using hsucceeds
        rw [send, if_neg (by rw [hstatus]; exact Bool.false_ne_true)]
        exact he
    have hsame : (e.start answer).running = e.running ∧ (e.start answer).attached = e.attached := by
      rw [start, send]
      split <;> exact ⟨rfl, rfl⟩
    rw [if_neg hsucceeds]
    refine hidle.congr rfl rfl ?_ ?_
    · rw [hsame.1, hrests]
      rfl
    · rintro (h | h) <;> cases h

theorem Consistent.updateState (he : e.Consistent) (hattached : e.attached = true) {answer : Bool}
    (hsound : e.Sound (.updateState answer)) : (e.updateState answer).Consistent := by
  rw [Engine.updateState]
  cases hs : e.module.mState with
  | restart =>
    have hreset : e.reset.Consistent := he.sendIdle rfl
    have hsame : e.reset.attached = e.attached ∧ e.reset.module = e.module := by
      rw [reset, send]
      split <;> exact ⟨rfl, rfl⟩
    apply hreset.started (hsame.1.trans hattached)
    rw [running, hsame.2, hs]
    rfl
  | starting =>
    apply he.started hattached
    rw [running, hs]
    rfl
  | stopping =>
    obtain ⟨hsucceeds, hmax⟩ := hsound hs
    obtain ⟨hstatus, rfl⟩ : e.mStatus = true ∧ answer = true := by
      rw [succeeds, Bool.and_eq_true] at hsucceeds
      exact hsucceeds
    have hruns : e.running = true := by rw [running, hs]; rfl
    simp only [if_pos hsucceeds]
    rw [stop, send, if_pos hstatus]
    refine ⟨?_, fun _ h => ?_, fun _ _ => ?_, fun _ => settled_disable e.sent true,
      fun _ => hmax⟩
    · apply he.alternating.concat
      rintro b ⟨rfl⟩
      exact he.runs hattached hruns
    · cases h
    · change isOn (e.sent ++ [(.disable, true)]) = false
      rw [isOn_concat]
      rfl
  | stopped =>
    have hrests : e.running = false := by rw [running, hs]; rfl
    simp only
    split
    · have hreset : ({ e with mDisableWaitCnt := e.mDisableWaitCnt - 1 } : Engine).reset.sent = e.reset.sent := by
        rw [reset, reset, send, send]
        split <;> rfl
      have hidle : e.reset.Consistent := he.sendIdle rfl
      have hsame : e.reset.attached = e.attached ∧ e.reset.running = e.running := by
        rw [reset, send]
        split <;> exact ⟨rfl, rfl⟩
      refine hidle.congr hreset ?_ ?_ ?_
      · rw [hsame.1, reset, send]
        split <;> rfl
      · rw [hsame.2, hrests]
        rfl
      · rintro (h | h) <;> cases h
    next hne => exact he.congr rfl rfl rfl fun _ => hne
  | idle => exact he
  | active => exact he
  | destroyed => exact he

/-! ## Leaving the chain -/

/-- What an effect that runs in its chain and is in order is told. -/
theorem removeEffect_eq (hattached : e.attached = true) (hruns : e.running = true) (hstatus : e.mStatus = true)
    (answer : Bool) : e.removeEffect answer =
      { e with sent := e.sent ++ [(.disable, answer)], attached := false } := by
  rw [removeEffect, if_pos hattached, if_pos hruns, stop, send, if_pos hstatus]

theorem removeEffect_rests (hattached : e.attached = true) (hrests : e.running = false) (answer : Bool) :
    e.removeEffect answer = { e with attached := false } := by
  rw [removeEffect, if_pos hattached, if_neg (by rw [hrests]; exact Bool.false_ne_true)]

/-- An effect that leaves its chain in a state that does not run. -/
theorem Consistent.detach (he : e.Consistent) (hrests : e.running = false) :
    Consistent { e with attached := false } where
  alternating := he.alternating
  runs h := by cases h
  rests h := by cases h
  settled _ := he.settled fun _ => hrests
  waits := he.waits

theorem Consistent.removeEffect (he : e.Consistent) {answer : Bool}
    (hsound : e.Sound (.removeEffect answer)) : (e.removeEffect answer).Consistent := by
  by_cases hattached : e.attached = true
  · cases hruns : e.running with
    | true =>
      rw [removeEffect_eq hattached hruns (hsound hattached hruns)]
      refine ⟨?_, nofun, nofun, fun _ => settled_disable e.sent answer, he.waits⟩
      apply he.alternating.concat
      intro b hb
      cases answer with
      | true =>
        cases hb
        exact he.runs hattached hruns
      | false => cases hb
    | false =>
      rw [removeEffect_rests hattached hruns]
      exact he.detach hruns
  · rw [Engine.removeEffect, if_neg hattached]
    exact he

/-- An effect that does not run is moved without a command. -/
theorem moveEffectChain_rests (hattached : e.attached = true) (hrests : e.running = false)
    (stopped started : Bool) (c : Option (Option Configuration)) :
    e.moveEffectChain stopped c started = c.elim { e with attached := false } fun c => e.configure c := by
  rw [moveEffectChain, removeEffect_rests hattached hrests]
  have hsame : ∀ e' : Engine, e'.module = e.module → e'.running = false := by
    intro e' hmodule
    rw [running, hmodule]
    exact hrests
  cases c with
  | none =>
    rw [Option.elim_none, Option.elim_none, if_neg]
    exact ne_true_of_eq_false (hsame _ rfl)
  | some c =>
    rw [Option.elim_some, Option.elim_some, if_neg]
    · cases c <;> simp [configure, hattached]
    · exact ne_true_of_eq_false (hsame _ (configure_fields c _).1)

theorem Consistent.moveEffectChain (he : e.Consistent) (hattached : e.attached = true) {stopped started : Bool}
    {c : Option (Option Configuration)} (hsound : e.Sound (.moveEffectChain stopped c started)) :
    (e.moveEffectChain stopped c started).Consistent := by
  rw [Engine.moveEffectChain]
  cases hruns : e.running with
  | true =>
    have hmove := hsound hruns
    obtain ⟨hstatus, rfl⟩ : e.mStatus = true ∧ stopped = true := by
      have hsucceeds : e.succeeds stopped = true := by
        cases c <;> exact hmove.1
      rw [succeeds, Bool.and_eq_true] at hsucceeds
      exact hsucceeds
    rw [removeEffect_eq hattached hruns hstatus]
    have hoff : Alternating (e.sent ++ [(.disable, true)]) := by
      apply he.alternating.concat
      rintro b ⟨rfl⟩
      exact he.runs hattached hruns
    cases c with
    | none =>
      obtain ⟨-, rfl⟩ := hmove
      have hdetached : Consistent { e with sent := e.sent ++ [(.disable, true)], attached := false } :=
        ⟨hoff, nofun, nofun, fun _ => settled_disable e.sent true, he.waits⟩
      change Consistent (if e.running then _ else _)
      rw [hruns, if_pos rfl]
      exact hdetached.sendIdle rfl
    | some c =>
      obtain ⟨-, haccepted, rfl⟩ := hmove
      obtain ⟨conf, rfl⟩ : ∃ conf, c = some conf := Option.isSome_iff_exists.mp (by
        cases c with
        | none => cases haccepted
        | some conf => rfl)
      have hready : conf.accepted = true := haccepted
      change Consistent (if e.running then _ else _)
      rw [hruns, if_pos rfl]
      change Consistent (send .enable true _)
      rw [send]
      change Consistent (if conf.accepted then _ else _)
      rw [if_pos hready]
      refine ⟨?_, fun _ _ => ?_, fun _ hrests => ?_, fun h => ?_, he.waits⟩
      · apply hoff.concat
        rintro b ⟨rfl⟩
        rw [isOn_concat]
        rfl
      · change isOn (e.sent ++ [(.disable, true)] ++ [(.enable, true)]) = true
        rw [isOn_concat]
        rfl
      · exact absurd (hruns.symm.trans hrests) (by decide)
      · exact absurd (hruns.symm.trans (h rfl)) (by decide)
  | false =>
    have hmove := moveEffectChain_rests hattached hruns stopped started c
    rw [Engine.moveEffectChain] at hmove
    rw [hmove]
    cases c with
    | none => exact he.detach hruns
    | some c => exact he.configure c

/-! ## Runs -/

/-- Only `release` releases the engine. -/
theorem released_call (hne : ev ≠ .release) : (e.call ev).released = e.released := by
  have hsend : ∀ (command : Command) (answer : Bool) (e : Engine), (e.send command answer).released =
      e.released := by
    intro command answer e
    rw [send]
    split <;> rfl
  have hconfigure : ∀ (c : Option Configuration) (e : Engine), (e.configure c).released = e.released := by
    intro c e
    cases c <;> rfl
  have hremove : ∀ (answer : Bool) (e : Engine), (e.removeEffect answer).released = e.released := by
    intro answer e
    rw [Engine.removeEffect]
    split
    · split
      · exact hsend ..
      · rfl
    · rfl
  cases ev with
  | release => exact absurd rfl hne
  | configure c => exact hconfigure c e
  | process ready noData =>
    change (e.process ready noData).released = _
    rw [Engine.process]
    split <;> rfl
  | updateState answer =>
    change (e.updateState answer).released = _
    rw [Engine.updateState]
    split
    · exact (hsend ..).trans (hsend ..)
    · exact hsend ..
    · exact hsend ..
    · simp only
      split
      · exact hsend ..
      · rfl
    · rfl
    · rfl
    · rfl
  | removeEffect answer => exact hremove answer e
  | moveEffectChain stopped c started =>
    change (e.moveEffectChain stopped c started).released = _
    have helim : (c.elim (e.removeEffect stopped) fun c =>
        { (e.removeEffect stopped).configure c with attached := true }).released = e.released := by
      cases c with
      | none => exact hremove stopped e
      | some c => exact (hconfigure c _).trans (hremove stopped e)
    rw [Engine.moveEffectChain]
    simp only
    split
    · exact (hsend ..).trans helim
    · exact helim
  | setEnabled policy enabled => rfl
  | addHandle h => rfl
  | removeHandle self => rfl
  | unPin => rfl

theorem Consistent.call (he : e.Consistent) (hpossible : e.possible ev = true) (hsound : e.Sound ev) :
    (e.call ev).Consistent := by
  cases ev with
  | setEnabled policy enabled => exact he.setEnabled policy enabled
  | addHandle h => exact he.addHandle h
  | removeHandle self => exact he.removeHandle hsound
  | unPin => exact he.congr rfl rfl rfl he.waits
  | configure c => exact he.configure c
  | process ready noData => exact he.process ready noData
  | updateState answer => exact he.updateState hpossible hsound
  | removeEffect answer => exact he.removeEffect hsound
  | moveEffectChain stopped c started => exact he.moveEffectChain hpossible hsound
  | release => exact he.congr rfl rfl rfl he.waits

/-- A released effect is out of its chain. -/
def Gone (e : Engine) : Prop := e.released = true → e.attached = false

theorem Consistent.step (he : e.Consistent ∧ e.Gone) (hsound : e.Sound ev) (hstep : e.step ev = some e') :
    e'.Consistent ∧ e'.Gone := by
  rw [Engine.step] at hstep
  split at hstep
  next hgo =>
    cases hstep
    rw [Bool.and_eq_true, Bool.not_eq_true'] at hgo
    refine ⟨he.1.call hgo.2 hsound, fun hreleased => ?_⟩
    by_cases hev : ev = .release
    · subst hev
      have hpossible := hgo.2
      rw [possible, Bool.and_eq_true, Bool.not_eq_true'] at hpossible
      exact hpossible.1
    · rw [released_call hev, hgo.1] at hreleased
      cases hreleased
  next => cases hstep

/-- Along the sound events the engine is switched as it should be. -/
theorem protocol_along (self : ℕ) (id sessionId : ℤ) (desc : Descriptor) (wait maxWait : BitVec 32)
    (c : Option Configuration) (es : List EngineEvent) (e : Engine)
    (hrun : Machine.run step (create self id sessionId desc wait maxWait c) es = some e)
    (hsound : Machine.Along step Sound (create self id sessionId desc wait maxWait c) es) : e.Obeys := by
  have hstart : (create self id sessionId desc wait maxWait c).Consistent ∧
      (create self id sessionId desc wait maxWait c).Gone := by
    refine ⟨consistent_create .., fun h => ?_⟩
    cases c <;> cases h
  obtain ⟨he, hgone⟩ := @Machine.run_invariant_along _ _ step Sound
    (fun e => e.Consistent ∧ e.Gone) (fun _ _ _ hok hstep h => Consistent.step h hok hstep) _ _ _ hsound hrun hstart
  exact he.obeys hgone

/-- An effect of the output mix with one handle. -/
def fresh : Engine := create 1 7 0 ⟨⟨5, 0⟩, ⟨50, 0⟩, 0⟩ 0 0 (some ⟨44100, 1024, true⟩)

/-- The effect is enabled, moved, disabled, and enabled again while it stops; it goes after it
stopped. -/
def switched : List EngineEvent :=
  [.addHandle (.new 10 0), .setEnabled true true, .updateState true, .process true false,
    .moveEffectChain true (some (some ⟨48000, 512, true⟩)) true, .setEnabled true false,
    .updateState true, .setEnabled true true, .updateState true, .setEnabled true false,
    .updateState true, .process true true, .updateState true, .removeHandle 10, .removeEffect true,
    .release]

theorem protocol_along_switched : ∃ e, Machine.run step fresh switched = some e ∧ e.Obeys := by
  have hrun := Option.eq_some_of_isSome (by decide : (Machine.run step fresh switched).isSome = true)
  exact ⟨_, hrun, protocol_along 1 7 0 _ 0 0 _ switched _ hrun (by decide)⟩

/-- The last handle of an effect of the output mix goes while the effect is enabled: its engine is
released without being told to switch off. -/
theorem removeHandle_leaves_engine_on :
    ∃ e, Machine.run step fresh [.addHandle (.new 10 0), .setEnabled true true, .updateState true,
        .process true false, .removeHandle 10, .removeEffect true, .release] = some e ∧
      e.released = true ∧ e.sent = [(.enable, true)] ∧ ¬ Settled e.sent := by
  have hrun := Option.eq_some_of_isSome (by decide : (Machine.run step fresh [.addHandle (.new 10 0),
    .setEnabled true true, .updateState true, .process true false, .removeHandle 10, .removeEffect true,
    .release]).isSome = true)
  refine ⟨_, hrun, by decide, by decide, fun h => ?_⟩
  obtain ⟨answer, hmem⟩ := h [] [] (by decide)
  cases hmem

end Engine

end AudioFlinger.Effects
