import AudioFlinger.Foundation.Machine
import AudioFlinger.Parameters.Processing

/-!
# Requests and their answers

Any number of calls of `ThreadBase::setParameters` beside the thread loop, which processes one
string a round and answers through the one `mParamStatus`. Each round is made
under the lock, and so is each part of a call before and after its wait on `mParamCond`;
the loop's own wait on `mWaitWorkCV` may end at any time. A call that timed out leaves its string
in the queue.
-/

namespace AudioFlinger.Parameters

open Foundation

variable {κ η : Type*}

/-- A string, and the number of the call that queued it. -/
structure Request (κ : Type*) where
  call : ℕ
  keyValuePairs : κ

/-- A processed string, and the thread as it was when its turn came. -/
structure Answer (κ η : Type*) where
  request : Request κ
  thread : Thread η

/-- The status computed for the string. -/
def Answer.status (hal : Hal κ η) (a : Answer κ η) : ℤ := (a.thread.round hal a.request.keyValuePairs).2

structure Return where
  call : ℕ
  status : ℤ
deriving DecidableEq

/-- `queued` and `processed` keep what was ever added to `mNewParameters`, and what was taken from
it. -/
structure World (κ η : Type*) where
  thread : Thread η
  mNewParameters : List (Request κ)
  mParamStatus : ℤ
  waiting : List ℕ
  queued : List (Request κ)
  processed : List (Answer κ η)
  returned : List Return

/-- `work` is all that the thread does outside these rounds. -/
inductive Event (κ η : Type*)
  | setParameters (keyValuePairs : κ)
  | woken (call : ℕ)
  | timedOut (call : ℕ)
  | round
  | work (thread : Thread η)

namespace World

def init (thread : Thread η) : World κ η where
  thread := thread
  mNewParameters := []
  mParamStatus := NO_ERROR
  waiting := []
  queued := []
  processed := []
  returned := []

/-- `setParameters`, up to its wait. -/
def request (keyValuePairs : κ) (w : World κ η) : World κ η :=
  let r : Request κ := ⟨w.queued.length, keyValuePairs⟩
  { w with
    mNewParameters := w.mNewParameters ++ [r]
    waiting := w.waiting ++ [r.call]
    queued := w.queued ++ [r] }

/-- The wait of a call is over. -/
def leave (call : ℕ) (status : ℤ) (w : World κ η) : World κ η :=
  { w with
    waiting := w.waiting.erase call
    returned := w.returned ++ [⟨call, status⟩] }

/-- One round of `checkForNewParameters_l` on the first string. -/
def round (hal : Hal κ η) (r : Request κ) (rest : List (Request κ)) (w : World κ η) : World κ η :=
  let (thread, status) := w.thread.round hal r.keyValuePairs
  { w with
    thread := thread
    mNewParameters := rest
    mParamStatus := status
    processed := w.processed ++ [⟨r, w.thread⟩] }

def step (hal : Hal κ η) (w : World κ η) : Event κ η → Option (World κ η)
  | .setParameters keyValuePairs => some (w.request keyValuePairs)
  | .woken call => if call ∈ w.waiting then some (w.leave call w.mParamStatus) else none
  | .timedOut call => if call ∈ w.waiting then some (w.leave call TIMED_OUT) else none
  | .round =>
    match w.mNewParameters with
    | [] => none
    | r :: rest => some (w.round hal r rest)
  | .work thread => some { w with thread := thread }

/-- The loop takes the next string only after the caller of the last one is gone, and
a signal reaches no caller whose string is still queued. -/
def Sound (w : World κ η) : Event κ η → Prop
  | .round => ∀ a ∈ w.processed.getLast?, a.request.call ∉ w.waiting
  | .woken call => call ∉ w.mNewParameters.map Request.call
  | _ => True

instance (w : World κ η) (e : Event κ η) : Decidable (w.Sound e) := by
  cases e <;> unfold Sound <;> infer_instance

variable {hal : Hal κ η} {w w' : World κ η} {e : Event κ η}

/-! ## The queue -/

/-- Every string is processed once, and in the order of the calls. -/
structure Ordered (w : World κ η) : Prop where
  split : w.processed.map Answer.request ++ w.mNewParameters = w.queued
  numbered : w.queued.map Request.call = List.range w.queued.length

theorem ordered_init (thread : Thread η) : Ordered (init thread : World κ η) where
  split := rfl
  numbered := rfl

theorem Ordered.step (h : Ordered w) (hstep : w.step hal e = some w') : Ordered w' := by
  cases e with
  | setParameters keyValuePairs =>
    cases hstep
    refine ⟨?_, ?_⟩
    · simp [request, ← h.split]
    · simp [request, h.numbered, List.range_succ]
  | woken call =>
    obtain ⟨-, hw⟩ := Option.ite_none_right_eq_some.mp hstep
    cases hw
    exact ⟨h.split, h.numbered⟩
  | timedOut call =>
    obtain ⟨-, hw⟩ := Option.ite_none_right_eq_some.mp hstep
    cases hw
    exact ⟨h.split, h.numbered⟩
  | round =>
    cases hnew : w.mNewParameters with
    | nil => simp [World.step, hnew] at hstep
    | cons r rest =>
      simp only [World.step, hnew, Option.some.injEq] at hstep
      subst hstep
      refine ⟨?_, h.numbered⟩
      simp [World.round, ← h.split, hnew]
  | work thread =>
    cases hstep
    exact ⟨h.split, h.numbered⟩

/-- The rounds of one call of `checkForNewParameters_l` empty the queue. -/
theorem drained (hal : Hal κ η) (w : World κ η) :
    ∃ w', Machine.run (World.step hal) w (List.replicate w.mNewParameters.length .round) = some w' ∧
      w'.mNewParameters = [] ∧ w'.queued = w.queued := by
  generalize hnew : w.mNewParameters = rest
  induction rest generalizing w with
  | nil => exact ⟨w, rfl, hnew, rfl⟩
  | cons r rest ih =>
    obtain ⟨w', hrun, hempty, hqueued⟩ := ih (w.round hal r rest) rfl
    refine ⟨w', ?_, hempty, hqueued⟩
    rw [List.length_cons, List.replicate_succ, Machine.run_cons_some]
    exact ⟨w.round hal r rest, by simp [World.step, hnew], hrun⟩

/-! ## The status -/

/-- The answer to a call. -/
def Answered (hal : Hal κ η) (w : World κ η) (call : ℕ) (status : ℤ) : Prop :=
  ∃ a ∈ w.processed, a.request.call = call ∧ a.status hal = status

instance (w : World κ η) (call : ℕ) (status : ℤ) : Decidable (w.Answered hal call status) :=
  inferInstanceAs (Decidable (∃ a ∈ w.processed, a.request.call = call ∧ a.status hal = status))

/-- A caller that waits for the status has its string in the queue, or processed last. -/
structure Attended (hal : Hal κ η) (w : World κ η) : Prop where
  last : ∀ a ∈ w.processed.getLast?, a.status hal = w.mParamStatus
  waits : ∀ call ∈ w.waiting,
    call ∈ w.mNewParameters.map Request.call ∨ ∃ a ∈ w.processed.getLast?, a.request.call = call
  own : ∀ r ∈ w.returned, r.status ≠ TIMED_OUT → w.Answered hal r.call r.status

theorem attended_init (thread : Thread η) : Attended hal (init thread) where
  last := nofun
  waits := nofun
  own := nofun

theorem Attended.leave {call : ℕ} {status : ℤ} (h : Attended hal w)
    (hown : status ≠ TIMED_OUT → w.Answered hal call status) : Attended hal (w.leave call status) where
  last := h.last
  waits c hc := h.waits c (List.mem_of_mem_erase hc)
  own r hr := by
    rcases List.mem_append.mp hr with hr | hr
    · exact h.own r hr
    · rw [List.mem_singleton.mp hr]
      exact hown

/-- A caller that is woken reads its own status. -/
theorem Attended.read {call : ℕ} (h : Attended hal w) (hmem : call ∈ w.waiting)
    (hnew : call ∉ w.mNewParameters.map Request.call) : w.Answered hal call w.mParamStatus := by
  obtain ⟨a, ha, hcall⟩ := (h.waits call hmem).resolve_left hnew
  exact ⟨a, List.mem_of_getLast? ha, hcall, h.last a ha⟩

theorem Attended.round {r : Request κ} {rest : List (Request κ)} (h : Attended hal w)
    (hnew : w.mNewParameters = r :: rest) (hgone : ∀ a ∈ w.processed.getLast?, a.request.call ∉ w.waiting) :
    Attended hal (w.round hal r rest) where
  last a ha := by
    have hlast : a = ⟨r, w.thread⟩ := by simpa [World.round] using ha.symm
    rw [hlast]
    rfl
  waits call hcall := by
    rcases h.waits call hcall with hmem | ⟨a, ha, rfl⟩
    · rw [hnew, List.map_cons, List.mem_cons] at hmem
      rcases hmem with rfl | hmem
      · exact .inr ⟨⟨r, w.thread⟩, by simp [World.round], rfl⟩
      · exact .inl hmem
    · exact absurd hcall (hgone a ha)
  own q hq hstatus := by
    obtain ⟨a, ha, hanswer⟩ := h.own q hq hstatus
    exact ⟨a, List.mem_append_left _ ha, hanswer⟩

theorem Attended.request {keyValuePairs : κ} (h : Attended hal w) : Attended hal (w.request keyValuePairs) where
  last := h.last
  waits call hcall := by
    simp only [World.request, List.map_append, List.map_cons, List.map_nil, List.mem_append,
      List.mem_singleton] at hcall ⊢
    rcases hcall with hcall | rfl
    · exact (h.waits call hcall).imp_left .inl
    · exact .inl (.inr rfl)
  own := h.own

theorem Attended.step (h : Attended hal w) (hok : w.Sound e) (hstep : w.step hal e = some w') : Attended hal w' := by
  cases e with
  | setParameters keyValuePairs =>
    cases hstep
    exact h.request
  | woken call =>
    obtain ⟨hmem, hw⟩ := Option.ite_none_right_eq_some.mp hstep
    cases hw
    exact h.leave fun _ => h.read hmem hok
  | timedOut call =>
    obtain ⟨-, hw⟩ := Option.ite_none_right_eq_some.mp hstep
    cases hw
    exact h.leave fun hstatus => absurd rfl hstatus
  | round =>
    cases hnew : w.mNewParameters with
    | nil => simp [World.step, hnew] at hstep
    | cons r rest =>
      simp only [World.step, hnew, Option.some.injEq] at hstep
      subst hstep
      exact h.round hnew hok
  | work thread =>
    cases hstep
    exact ⟨h.last, h.waits, h.own⟩

/-- Every string is processed once and in order, by the rounds that the loop makes. Where every step
is sound, a call returns `TIMED_OUT` or the status of its own string. -/
theorem answered_along (hal : Hal κ η) (thread : Thread η) (es : List (Event κ η)) (w : World κ η)
    (hrun : Machine.run (step hal) (init thread) es = some w) :
    w.processed.map Answer.request ++ w.mNewParameters = w.queued ∧ (w.queued.map Request.call).Nodup ∧
      (∃ w', Machine.run (step hal) w (List.replicate w.mNewParameters.length .round) = some w' ∧
        w'.processed.map Answer.request = w.queued) ∧
      (Machine.Along (step hal) Sound (init thread) es →
        ∀ r ∈ w.returned, r.status ≠ TIMED_OUT → w.Answered hal r.call r.status) := by
  have hordered : Ordered w :=
    Machine.run_invariant (fun _ _ _ hstep h => Ordered.step h hstep) hrun (ordered_init thread)
  refine ⟨hordered.split, ?_, ?_, fun hok => ?_⟩
  · rw [hordered.numbered]
    exact List.nodup_range
  · obtain ⟨w', hrest, hempty, hqueued⟩ := drained hal w
    have hordered' : Ordered w' :=
      Machine.run_invariant (fun _ _ _ hstep h => Ordered.step h hstep) hrest hordered
    refine ⟨w', hrest, ?_⟩
    rw [← hqueued, ← hordered'.split, hempty, List.append_nil]
  · have hattended : Attended hal w :=
      Machine.run_invariant_along (fun _ _ _ hok hstep h => Attended.step h hok hstep) hok hrun
        (attended_init thread)
    exact hattended.own

/-! ## Two callers -/

/-- Strings as lists of pairs, and a stream that takes every string. -/
def pairs : Hal (List (Key × BitVec 32)) Unit where
  getInt keyValuePairs key := (keyValuePairs.find? fun p => p.1 = key).map Prod.snd
  setParameters stream _ := (stream, NO_ERROR)
  standby stream := stream
  getFormat _ := AUDIO_FORMAT_PCM_16_BIT
  getSampleRate _ := 44100#32
  getChannels _ := AUDIO_CHANNEL_OUT_STEREO

def speaker : Thread Unit := .mixer ⟨(), true, 0x2#32, 0, false⟩

/-- Two calls are answered, the third times out. -/
def threeCalls : List (Event (List (Key × BitVec 32)) Unit) :=
  [.setParameters [(.keyRouting, 0x4#32)], .setParameters [(.keyFormat, 0x2#32)], .round, .woken 0,
    .round, .setParameters [(.keyChannels, 0x3#32)], .woken 1, .timedOut 2, .round]

theorem answered_along_threeCalls : ∃ w, Machine.run (step pairs) (init speaker) threeCalls = some w ∧
    w.returned = [⟨0, NO_ERROR⟩, ⟨1, BAD_VALUE⟩, ⟨2, TIMED_OUT⟩] ∧ w.processed.map Answer.request = w.queued ∧
    ∀ r ∈ w.returned, r.status ≠ TIMED_OUT → w.Answered pairs r.call r.status := by
  have hrun := Option.eq_some_of_isSome
    (by decide : (Machine.run (step pairs) (init speaker) threeCalls).isSome = true)
  have hall := answered_along pairs speaker threeCalls _ hrun
  exact ⟨_, hrun, by decide, (List.append_nil _).symm.trans hall.1, hall.2.2.2 (by decide)⟩

/-- The second caller waits when the string of the first one is processed. -/
def firstGivesUp : List (Event (List (Key × BitVec 32)) Unit) :=
  [.setParameters [(.keyFormat, 0x2#32)], .timedOut 0, .setParameters [(.keyChannels, 0x3#32)], .round, .woken 1,
    .round]

/-- The status of the first string is returned for the second one. -/
theorem misanswered : ∃ w, Machine.run (step pairs) (init speaker) firstGivesUp = some w ∧
    ⟨1, BAD_VALUE⟩ ∈ w.returned ∧ w.Answered pairs 1 NO_ERROR ∧ ¬ w.Answered pairs 1 BAD_VALUE := by
  have hrun := Option.eq_some_of_isSome
    (by decide : (Machine.run (step pairs) (init speaker) firstGivesUp).isSome = true)
  exact ⟨_, hrun, by decide, by decide, by decide⟩

end World

end AudioFlinger.Parameters
