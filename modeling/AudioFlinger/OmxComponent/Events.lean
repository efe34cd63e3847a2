import AudioFlinger.Foundation.Machine
import Mathlib.Tactic.Common

/-!
# Commands and events of a component

`COMXCoreComponent` in `libs/aud-dec/aud-dec/src/OMXCore.cpp`: the component's callback thread adds events
to `m_omx_events`, and the caller of a command waits for its completion. An event carries the values of its
command and no number, so the list cannot tell an answer to an earlier command from one to the command that
is waited for.
-/

namespace AudioFlinger.OmxComponent

open Foundation

inductive EventType
  | cmdComplete
  | error
  | mark
  | portSettingsChanged
  | bufferFlag
  | other (code : Nat)
  deriving DecidableEq

def commandStateSet : Nat := 0
def commandFlush : Nat := 1
def commandPortDisable : Nat := 2
def commandPortEnable : Nat := 3

def errorNone : Nat := 0
def errorSameState : Nat := 0x80001012
def errorMax : Nat := 0x7fffffff

/-- `omx_event`; `answers` records the call whose command the component meant. -/
structure OmxEvent where
  eEvent : EventType
  nData1 : Nat
  nData2 : Nat
  answers : Option Nat
  deriving DecidableEq

def OmxEvent.same (e event : OmxEvent) : Bool :=
  event.eEvent = e.eEvent ∧ event.nData1 = e.nData1 ∧ event.nData2 = e.nData2

/-- `RemoveEvent`. -/
def removeEvent (m_omx_events : List OmxEvent) (e : OmxEvent) : List OmxEvent :=
  m_omx_events.filter fun event => !e.same event

/-- `AddEvent`. -/
def addEvent (m_omx_events : List OmxEvent) (e : OmxEvent) : List OmxEvent := removeEvent m_omx_events e ++ [e]

/-- `WaitForCommand(command, nData2)` and `WaitForEvent(eventType)`. -/
inductive Awaited
  | forCommand (command nData2 : Nat)
  | forEvent (eventType : EventType)
  deriving DecidableEq

/-- The events that end a wait: every error, and the awaited event. -/
def Awaited.takes : Awaited → OmxEvent → Bool
  | .forCommand command nData2, event =>
    event.eEvent = .error ∨ event.eEvent = .cmdComplete ∧ event.nData1 = command ∧ event.nData2 = nData2
  | .forEvent eventType, event => event.eEvent = .error ∨ event.eEvent = eventType

/-- What a wait returns for the event it takes. -/
def resultOf (event : OmxEvent) : Nat :=
  if event.eEvent = .error ∧ event.nData1 = errorSameState ∧ event.nData2 = 1 then errorNone
  else if event.eEvent = .error then event.nData1
  else errorNone

/-- The calls that send a command; the ports' commands are sent with or without waiting. -/
inductive Op
  | setState (state : Nat)
  | enablePort (port : Nat) (wait : Bool)
  | disablePort (port : Nat) (wait : Bool)
  | flush (port : Nat)
  deriving DecidableEq

def Op.command : Op → Nat
  | .setState _ => commandStateSet
  | .enablePort _ _ => commandPortEnable
  | .disablePort _ _ => commandPortDisable
  | .flush _ => commandFlush

def Op.data : Op → Nat
  | .setState state => state
  | .enablePort port _ | .disablePort port _ | .flush port => port

/-- How `OMX_SendCommand` ends; nothing is sent to a port that is enabled, or disabled, already. -/
inductive Outcome
  | accepted
  | refused
  | notSent
  deriving DecidableEq

/-- Whether the call goes on to `WaitForCommand`. `FlushInput` and `FlushOutput` wait after a refusal, too. -/
def Op.waits : Op → Outcome → Bool
  | .setState _, .accepted => true
  | .enablePort _ wait, .accepted | .disablePort _ wait, .accepted => wait
  | .flush _, .accepted | .flush _, .refused => true
  | _, _ => false

structure Call where
  op : Op
  outcome : Outcome
  deriving DecidableEq

/-- A wait that has ended: the call it was for, its result, the event it took and the events that were there. -/
structure Return where
  call : Nat
  awaited : Awaited
  result : Nat
  taken : Option OmxEvent
  present : List OmxEvent
  deriving DecidableEq

/-- `m_lock` is held by one call at a time. `blocked` says that the wait has found nothing in the list and is
in `pthread_cond_timedwait`. The last three record what has happened. -/
structure Component where
  m_omx_events : List OmxEvent
  waiting : Option (Nat × Awaited)
  blocked : Bool
  calls : List Call
  completed : List Nat
  returned : List Return
  deriving DecidableEq

inductive Event
  | call (op : Op) (outcome : Outcome)
  | await (call : Nat)
  | awaitEvent (call : Nat) (eventType : EventType)
  | report (event : OmxEvent)
  | look
  | timeout

/-- What the component may report: a completion of a command that it has accepted and not completed, with the
values of the command; an error, with or without a command, that carries an error code; any other event. -/
def mayReport (s : Component) (event : OmxEvent) : Bool :=
  match event.eEvent, event.answers with
  | .cmdComplete, some n =>
    n ∉ s.completed &&
      (s.calls[n]?).any fun c => c.outcome = .accepted ∧ c.op.command = event.nData1 ∧ c.op.data = event.nData2
  | .cmdComplete, none => false
  | .error, n =>
    event.nData1 ≠ errorNone && event.nData1 ≠ errorMax &&
      n.all fun n => (s.calls[n]?).any fun c => c.outcome = .accepted
  | _, _ => true

/-- The loop of `WaitForCommand` and `WaitForEvent` goes through the list once. -/
def look (s : Component) (call : Nat) (awaited : Awaited) : Component :=
  match s.m_omx_events.find? awaited.takes with
  | some event =>
    { s with
      m_omx_events := s.m_omx_events.eraseP awaited.takes
      waiting := none
      returned := s.returned ++ [⟨call, awaited, resultOf event, some event, s.m_omx_events⟩] }
  | none => { s with blocked := true }

def step (s : Component) : Event → Option Component
  | .call op outcome =>
    if s.waiting = none then
      some { s with
        calls := s.calls ++ [⟨op, outcome⟩]
        waiting := if op.waits outcome then some (s.calls.length, .forCommand op.command op.data) else none
        blocked := false }
    else none
  -- `WaitForCommand` after the buffers of a port have been allocated or freed
  | .await call =>
    if s.waiting = none then
      (s.calls[call]?).map fun c =>
        { s with waiting := some (call, .forCommand c.op.command c.op.data), blocked := false }
    else none
  | .awaitEvent call eventType =>
    if s.waiting = none ∧ call < s.calls.length then
      some { s with waiting := some (call, .forEvent eventType), blocked := false }
    else none
  | .report event =>
    if mayReport s event then
      some { s with
        m_omx_events := addEvent s.m_omx_events event
        completed := if event.eEvent = .cmdComplete then s.completed ++ event.answers.toList else s.completed
        blocked := false }
    else none
  | .look => s.waiting.map fun w => look s w.1 w.2
  | .timeout =>
    if s.blocked then
      s.waiting.map fun w =>
        { s with
          waiting := none
          returned := s.returned ++ [⟨w.1, w.2, errorMax, none, s.m_omx_events⟩] }
    else none

def start : Component := ⟨[], none, false, [], [], []⟩

/-! ## What the callers rely on -/

/-- A wait that ends is answered by its own command, or has found nothing. -/
structure Return.Right (r : Return) : Prop where
  answered : ∀ event, r.taken = some event → event.answers = some r.call
  done : r.result = errorNone → ∀ command nData2, r.awaited = .forCommand command nData2 →
    ∃ event, r.taken = some event ∧ event.answers = some r.call ∧
      (event.eEvent = .cmdComplete ∧ event.nData1 = command ∧ event.nData2 = nData2 ∨
        event.eEvent = .error ∧ event.nData1 = errorSameState)
  expired : r.result = errorMax → ∀ event ∈ r.present, r.awaited.takes event = false

/-- Each completion is in the list or has been taken. -/
structure Correlated (s : Component) : Prop where
  right : ∀ r ∈ s.returned, r.Right
  kept : ∀ n ∈ s.completed, ∃ event, event.eEvent = .cmdComplete ∧ event.answers = some n ∧
    (event ∈ s.m_omx_events ∨ ∃ r ∈ s.returned, r.taken = some event)

/-- The wait for `call` would take no event that answers another call. -/
def Clear (s : Component) (call : Nat) (awaited : Awaited) : Prop :=
  ∀ event ∈ s.m_omx_events, awaited.takes event → event.answers = some call

/-- A wait begins with nothing in the list that it takes but answers to its own call; what is reported while
it lasts and would end it answers its call; a completion does not replace an equal event. -/
def Sound (s : Component) : Event → Prop
  | .call op outcome => op.waits outcome → Clear s s.calls.length (.forCommand op.command op.data)
  | .await call => ∀ c ∈ s.calls[call]?, Clear s call (.forCommand c.op.command c.op.data)
  | .awaitEvent call eventType => Clear s call (.forEvent eventType)
  | .report event =>
    (∀ w ∈ s.waiting, w.2.takes event → event.answers = some w.1) ∧
      ∀ old ∈ s.m_omx_events, event.same old → old.eEvent ≠ .cmdComplete
  | _ => True

instance (s : Component) (call : Nat) (awaited : Awaited) : Decidable (Clear s call awaited) :=
  inferInstanceAs (Decidable (∀ event ∈ _, _ → _))

instance (s : Component) : ∀ e, Decidable (Sound s e)
  | .call _ _ => inferInstanceAs (Decidable (_ → _))
  | .await _ => inferInstanceAs (Decidable (∀ _ ∈ _, _))
  | .awaitEvent _ _ => inferInstanceAs (Decidable (Clear _ _ _))
  | .report _ => inferInstanceAs (Decidable (_ ∧ _))
  | .look | .timeout => isTrue trivial

/-! ## Runs that are sound -/

/-- `codes`: the errors in the list carry error codes. -/
structure Inv (s : Component) : Prop where
  correlated : Correlated s
  clear : ∀ w ∈ s.waiting, Clear s w.1 w.2
  blocked : s.blocked → ∀ w ∈ s.waiting, ∀ event ∈ s.m_omx_events, w.2.takes event = false
  codes : ∀ event ∈ s.m_omx_events, event.eEvent = .error → event.nData1 ≠ errorNone ∧ event.nData1 ≠ errorMax

variable {s s' : Component} {event : OmxEvent} {n : Nat} {awaited : Awaited}

theorem mem_eraseP_of_ne {α : Type*} {l : List α} {p : α → Bool} {a b : α} (hfind : l.find? p = some a)
    (hb : b ∈ l) (hne : b ≠ a) : b ∈ l.eraseP p := by
  obtain ⟨hp, before, after, rfl, hbefore⟩ := List.find?_eq_some_iff_append.mp hfind
  rw [List.eraseP_append_right _ (by simpa using hbefore), List.eraseP_cons_of_pos hp]
  simpa [hne] using hb

theorem mem_addEvent {l : List OmxEvent} {old : OmxEvent} :
    old ∈ addEvent l event ↔ (old ∈ l ∧ event.same old = false) ∨ old = event := by
  simp [addEvent, removeEvent]

theorem resultOf_right (htakes : awaited.takes event) (hanswers : event.answers = some n)
    (hcode : event.eEvent = .error → event.nData1 ≠ errorNone ∧ event.nData1 ≠ errorMax)
    (present : List OmxEvent) : (⟨n, awaited, resultOf event, some event, present⟩ : Return).Right := by
  refine ⟨?_, ?_, ?_⟩
  · rintro _ ⟨⟩
    exact hanswers
  · rintro hnone command nData2 rfl
    refine ⟨event, rfl, hanswers, ?_⟩
    by_cases herr : event.eEvent = .error
    · right
      simp only [resultOf, herr, true_and, if_true] at hnone
      split_ifs at hnone with hsame
      · exact ⟨herr, hsame.1⟩
      · exact absurd hnone (hcode herr).1
    · left
      simpa [Awaited.takes, herr] using htakes
  · intro hmax
    simp only [resultOf] at hmax
    split_ifs at hmax with hsame herr
    · cases hmax
    · exact absurd hmax (hcode herr).2
    · cases hmax

theorem Inv.look (h : Inv s) (hw : s.waiting = some (n, awaited)) : Inv (look s n awaited) := by
  rw [OmxComponent.look]
  cases hfind : s.m_omx_events.find? awaited.takes with
  | none =>
    refine ⟨⟨h.correlated.right, h.correlated.kept⟩, h.clear, ?_, h.codes⟩
    intro _ w hmem event hevent
    obtain rfl := Option.some.inj (hw.symm.trans hmem)
    simpa using List.find?_eq_none.mp hfind event hevent
  | some event =>
    have hmem := List.mem_of_find?_eq_some hfind
    have htakes := List.find?_some hfind
    have hanswers := h.clear _ hw event hmem htakes
    refine ⟨⟨?_, ?_⟩, nofun, fun _ => nofun, fun old hold => h.codes old (List.mem_of_mem_eraseP hold)⟩
    · intro r hr
      rcases List.mem_append.mp hr with hr | hr
      · exact h.correlated.right r hr
      · rw [List.mem_singleton.mp hr]
        exact resultOf_right htakes hanswers (h.codes event hmem) _
    · intro k hk
      obtain ⟨old, hcomplete, hfor, hold⟩ := h.correlated.kept k hk
      refine ⟨old, hcomplete, hfor, ?_⟩
      rcases hold with hold | ⟨r, hr, htaken⟩
      · by_cases heq : old = event
        · exact .inr ⟨_, List.mem_append_right _ (List.mem_singleton_self _), congrArg some heq.symm⟩
        · exact .inl (mem_eraseP_of_ne hfind hold heq)
      · exact .inr ⟨r, List.mem_append_left _ hr, htaken⟩

/-- A wait that begins. -/
theorem Inv.begin {calls : List Call} (h : Inv s) (hclear : Clear s n awaited) :
    Inv { s with calls, waiting := some (n, awaited), blocked := false } := by
  refine ⟨⟨h.correlated.right, h.correlated.kept⟩, ?_, nofun, h.codes⟩
  rintro _ ⟨⟩
  exact hclear

theorem mayReport_code (h : mayReport s event) :
    event.eEvent = .error → event.nData1 ≠ errorNone ∧ event.nData1 ≠ errorMax := by
  intro herr
  rw [mayReport, herr] at h
  simp only [Bool.and_eq_true, decide_eq_true_iff] at h
  exact h.1

theorem Inv.report (h : Inv s) (hok : Sound s (.report event)) (hmay : mayReport s event) :
    Inv { s with
      m_omx_events := addEvent s.m_omx_events event
      completed := if event.eEvent = .cmdComplete then s.completed ++ event.answers.toList else s.completed
      blocked := false } := by
  have hadded : event ∈ addEvent s.m_omx_events event := mem_addEvent.mpr (.inr rfl)
  refine ⟨⟨h.correlated.right, ?_⟩, ?_, nofun, ?_⟩
  · have hkept : ∀ k ∈ s.completed, ∃ old, old.eEvent = .cmdComplete ∧ old.answers = some k ∧
        (old ∈ addEvent s.m_omx_events event ∨ ∃ r ∈ s.returned, r.taken = some old) := by
      intro k hk
      obtain ⟨old, hcomplete, hfor, hold⟩ := h.correlated.kept k hk
      refine ⟨old, hcomplete, hfor, hold.imp_left fun hmem => mem_addEvent.mpr (.inl ⟨hmem, ?_⟩)⟩
      -- an equal completion would have been removed
      cases hsame : event.same old with
      | false => rfl
      | true => exact absurd hcomplete (hok.2 old hmem hsame)
    intro k hk
    dsimp only at hk
    split_ifs at hk with hcomplete
    · rcases List.mem_append.mp hk with hk | hk
      · exact hkept k hk
      · exact ⟨event, hcomplete, Option.mem_toList.mp hk, .inl hadded⟩
    · exact hkept k hk
  · intro w hw old hold htakes
    rcases mem_addEvent.mp hold with ⟨hold, -⟩ | rfl
    · exact h.clear w hw old hold htakes
    · exact hok.1 w hw htakes
  · intro old hold
    rcases mem_addEvent.mp hold with ⟨hold, -⟩ | rfl
    · exact h.codes old hold
    · exact mayReport_code hmay

theorem Inv.timeout (h : Inv s) (hblocked : s.blocked) (hw : s.waiting = some (n, awaited)) :
    Inv { s with
      waiting := none
      returned := s.returned ++ [⟨n, awaited, errorMax, none, s.m_omx_events⟩] } := by
  refine ⟨⟨?_, ?_⟩, nofun, fun _ => nofun, h.codes⟩
  · intro r hr
    rcases List.mem_append.mp hr with hr | hr
    · exact h.correlated.right r hr
    · rw [List.mem_singleton.mp hr]
      exact ⟨nofun, nofun, fun _ => h.blocked hblocked _ hw⟩
  · intro k hk
    obtain ⟨old, hcomplete, hfor, hold⟩ := h.correlated.kept k hk
    refine ⟨old, hcomplete, hfor, hold.imp_right ?_⟩
    rintro ⟨r, hr, htaken⟩
    exact ⟨r, List.mem_append_left _ hr, htaken⟩

theorem Inv.step {e : Event} (h : Inv s) (hok : Sound s e) (hstep : step s e = some s') : Inv s' := by
  cases e with
  | call op outcome =>
    obtain ⟨-, hw⟩ := Option.ite_none_right_eq_some.mp hstep
    cases hw
    cases hwaits : op.waits outcome with
    | true => exact h.begin (hok hwaits)
    | false => exact ⟨⟨h.correlated.right, h.correlated.kept⟩, nofun, nofun, h.codes⟩
  | await call =>
    obtain ⟨-, hw⟩ := Option.ite_none_right_eq_some.mp hstep
    obtain ⟨c, hc, rfl⟩ := Option.map_eq_some_iff.mp hw
    exact h.begin (hok c hc)
  | awaitEvent call eventType =>
    obtain ⟨-, hw⟩ := Option.ite_none_right_eq_some.mp hstep
    cases hw
    exact h.begin hok
  | report event =>
    obtain ⟨hmay, hw⟩ := Option.ite_none_right_eq_some.mp hstep
    cases hw
    exact h.report hok hmay
  | look =>
    obtain ⟨w, hw, rfl⟩ := Option.map_eq_some_iff.mp hstep
    exact h.look hw
  | timeout =>
    obtain ⟨hblocked, hrest⟩ := Option.ite_none_right_eq_some.mp hstep
    obtain ⟨w, hw, rfl⟩ := Option.map_eq_some_iff.mp hrest
    exact h.timeout hblocked hw

/-- While no wait meets an event that answers another command, every wait gets its own answer. -/
theorem correlated_along {es : List Event} (hok : Machine.Along step Sound start es)
    (hrun : Machine.run step start es = some s) : Correlated s :=
  (Machine.run_invariant_along (I := Inv) (fun _ _ _ hok hstep hs => hs.step hok hstep) hok hrun
    ⟨⟨nofun, nofun⟩, nofun, nofun, nofun⟩).correlated

/-- A change of state that is refused later, a port whose completion comes before the wait, and a flush that
times out. -/
def soundRun : List Event :=
  [.call (.setState 2) .accepted, .look, .report ⟨.error, errorSameState, 1, some 0⟩, .look,
    .call (.enablePort 1 false) .accepted, .report ⟨.cmdComplete, commandPortEnable, 1, some 1⟩, .await 1, .look,
    .call (.flush 0) .accepted, .report ⟨.bufferFlag, 0, 1, none⟩, .look, .timeout]

theorem soundRun_correlated : ∃ s, Machine.run step start soundRun = some s ∧ Correlated s := by
  have hrun := Option.eq_some_of_isSome (by decide : (Machine.run step start soundRun).isSome = true)
  exact ⟨_, hrun, correlated_along (by decide) hrun⟩

/-- The completion of a flush comes after its wait has timed out. The next flush is refused, waits
nevertheless and takes it. -/
def lateRun : List Event :=
  [.call (.flush 0) .accepted, .look, .timeout, .report ⟨.cmdComplete, commandFlush, 0, some 0⟩,
    .call (.flush 0) .refused, .look]

theorem lateRun_mistaken : ¬ ∀ s, Machine.run step start lateRun = some s → Correlated s := by
  intro h
  have hrun := Option.eq_some_of_isSome (by decide : (Machine.run step start lateRun).isSome = true)
  have hanswered := ((h _ hrun).right ⟨1, .forCommand commandFlush 0, errorNone,
    some ⟨.cmdComplete, commandFlush, 0, some 0⟩, [⟨.cmdComplete, commandFlush, 0, some 0⟩]⟩ (by decide)).answered _ rfl
  exact absurd hanswered (by decide)

end AudioFlinger.OmxComponent
