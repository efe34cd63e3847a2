import AudioFlinger.Foundation.Machine
import Mathlib.Data.List.Perm.Basic
import Mathlib.Logic.Function.Basic

/-!
# The circulation of the buffer headers

The buffers of `COMXCoreComponent` (`OMXCore.cpp`) and the calls of `COMXAudio` (`OMXAudio.cpp`) that take them:
a header is in the available queue of its port, with the call that took it, or with the component. Calls run
in any number of threads. A call that returns after a failed `EmptyThisBuffer` or `FillThisBuffer` keeps no
record of its header, which is then nowhere.
-/

namespace AudioFlinger.OmxComponent.Buffers

open Foundation

inductive Side
  | input
  | output
  deriving DecidableEq

/-- The calls: `Decode` with the bytes that are left, `SubmitEOS`, the two buffers of `Initialize`, `GetData`. -/
inductive Task
  | decode (demuxer_bytes : Nat)
  | submitEOS
  | primeInput
  | primeOutput
  | getData
  deriving DecidableEq

def Task.side : Task → Side
  | .decode _ | .submitEOS | .primeInput => .input
  | .primeOutput | .getData => .output

/-- `omx_buffer` is none while the call is in `GetInputBuffer` or `GetOutputBuffer`. -/
structure Caller where
  task : Task
  omx_buffer : Option Nat
  nRetry : Nat
  deriving DecidableEq

/-- `available` is `m_omx_input_avaliable` or `m_omx_output_available`; `component` are the headers that the
component has accepted and not returned. -/
structure Port where
  available : List Nat
  component : List Nat

/-- Headers are numbered from 0 on each side. -/
structure Decoder where
  count : Side → Nat
  port : Side → Port
  callers : List Caller
  nAllocLen : Nat → Nat
  m_extrasize : Nat
  m_exit : Bool
  m_flush_input : Bool

inductive Event
  | call (task : Task)
  | get (c : Caller)
  | giveUp (c : Caller)
  | submit (c : Caller) (succeeds : Bool)
  | done (side : Side) (header : Nat)
  | deinit

/-- After `AllocInputBuffers` and `AllocOutputBuffers`. -/
def start (count : Side → Nat) (nAllocLen : Nat → Nat) (m_extrasize : Nat) : Decoder where
  count := count
  port side := ⟨List.range (count side), []⟩
  callers := []
  nAllocLen := nAllocLen
  m_extrasize := m_extrasize
  m_exit := false
  m_flush_input := false

/-- `Initialize` primes the output after the input; `Decode` of no bytes takes no header. -/
def Task.begins : Task → Bool
  | .decode demuxer_bytes => demuxer_bytes ≠ 0
  | .primeOutput => false
  | _ => true

/-- Only `Decode` tries again. -/
def Task.retries : Task → Bool
  | .decode _ => true
  | _ => false

namespace Decoder

def setPort (s : Decoder) (side : Side) (p : Port) : Decoder := { s with port := Function.update s.port side p }

/-- The call goes on as `cs`, or ends when that is empty. -/
def replace (s : Decoder) (c : Caller) (cs : List Caller) : Decoder := { s with callers := cs ++ s.callers.erase c }

/-- `Initialize` gives up when its extra data do not fit into the buffer that it has taken. -/
def Refuses (s : Decoder) (c : Caller) (header : Nat) : Prop :=
  c.task = .primeInput ∧ s.nAllocLen header < s.m_extrasize

instance (s : Decoder) (c : Caller) (header : Nat) : Decidable (s.Refuses c header) :=
  inferInstanceAs (Decidable (_ ∧ _))

/-- What a call does when the component has accepted `header`. -/
def afterSubmit (s : Decoder) (header : Nat) : Task → List Caller
  | .decode demuxer_bytes =>
    let nFilledLen := min demuxer_bytes (s.nAllocLen header)
    if demuxer_bytes - nFilledLen = 0 then [] else [⟨.decode (demuxer_bytes - nFilledLen), none, 0⟩]
  | .primeInput => [⟨.primeOutput, none, 0⟩]
  | _ => []

/-- What a call does when the component has refused its header; `Decode` gives up at the fifth time. -/
def afterRefusal (c : Caller) : List Caller :=
  if c.task.retries ∧ c.nRetry + 1 ≠ 5 then [{ c with nRetry := c.nRetry + 1 }] else []

def step (s : Decoder) : Event → Option Decoder
  | .call task => if task.begins then some { s with callers := ⟨task, none, 0⟩ :: s.callers } else none
  | .get c =>
    match (s.port c.task.side).available with
    | [] => none
    | header :: rest =>
      if c ∈ s.callers ∧ c.omx_buffer = none ∧ ¬ (c.task.side = .input ∧ s.m_flush_input) then
        let s' := s.setPort c.task.side { s.port c.task.side with available := rest }
        if s.Refuses c header then some (s'.replace c [])
        else some (s'.replace c [{ c with omx_buffer := some header }])
      else none
  -- the wait for an input buffer times out at any time
  | .giveUp c =>
    if c ∈ s.callers ∧ c.omx_buffer = none ∧ (c.task.side = .input ∨ (s.port .output).available = []) then
      some (s.replace c [])
    else none
  | .submit c succeeds =>
    match c.omx_buffer with
    | none => none
    | some header =>
      if c ∈ s.callers then
        let p := s.port c.task.side
        if succeeds then
          some ((s.setPort c.task.side { p with component := header :: p.component }).replace c
            (s.afterSubmit header c.task))
        else some (s.replace c (afterRefusal c))
      else none
  -- `DecoderEmptyBufferDone` and `DecoderFillBufferDone`
  | .done side header =>
    let p := s.port side
    if header ∈ p.component then
      let left := p.component.erase header
      if s.m_exit then some (s.setPort side { p with component := left })
      else some (s.setPort side ⟨p.available ++ [header], left⟩)
    else none
  | .deinit => some { s with m_exit := true, m_flush_input := true }

/-- The caller has the header of this side. -/
def holds (side : Side) (header : Nat) (c : Caller) : Bool := c.task.side = side ∧ c.omx_buffer = some header

/-- In how many places a header is. -/
def places (s : Decoder) (side : Side) (header : Nat) : Nat :=
  (s.port side).available.count header + (s.port side).component.count header +
    s.callers.countP (holds side header)

/-- Every header is in one place, once, and there are no others. -/
def Conserved (s : Decoder) : Prop := ∀ side header, s.places side header = if header < s.count side then 1 else 0

/-- Nothing goes wrong after a header has been taken: only `Decode` is refused, at most four times in a row,
the extra data fit, and the component returns nothing after `Deinitialize` has begun. -/
def Sound (s : Decoder) : Event → Prop
  | .get c => ∀ header ∈ (s.port c.task.side).available.head?, ¬ s.Refuses c header
  | .submit c false => c.task.retries ∧ c.nRetry + 1 ≠ 5
  | .done _ _ => s.m_exit = false
  | _ => True

/-- The header that the event leaves in no place. -/
def lost (s : Decoder) : Event → Option (Side × Nat)
  | .get c =>
    match (s.port c.task.side).available with
    | [] => none
    | header :: _ => if s.Refuses c header then some (c.task.side, header) else none
  | .submit c false =>
    if c.task.retries ∧ c.nRetry + 1 ≠ 5 then none else c.omx_buffer.map fun header => (c.task.side, header)
  | .done side header => if s.m_exit then some (side, header) else none
  | _ => none

def missing (gone : Option (Side × Nat)) (side : Side) (header : Nat) : Nat :=
  if gone = some (side, header) then 1 else 0

instance (s : Decoder) : ∀ e, Decidable (s.Sound e)
  | .get _ => inferInstanceAs (Decidable (∀ _ ∈ _, _))
  | .submit _ false => inferInstanceAs (Decidable (_ ∧ _))
  | .done _ _ => inferInstanceAs (Decidable (_ = _))
  | .submit _ true | .call _ | .giveUp _ | .deinit => isTrue trivial

variable {s s' : Decoder} {c : Caller} {side : Side} {header : Nat}

@[simp] theorem missing_none (side : Side) (header : Nat) : missing none side header = 0 := rfl

theorem missing_some (side' side : Side) (header' header : Nat) :
    missing (some (side', header')) side header = if side = side' ∧ header = header' then 1 else 0 := by
  simp only [missing, Option.some.injEq, Prod.mk.injEq, eq_comm]

@[simp] theorem setPort_port (p : Port) (side' : Side) :
    (s.setPort side p).port side' = if side' = side then p else s.port side' := by
  exact Function.update_apply ..

theorem places_replace (hc : c ∈ s.callers) (cs : List Caller) (side : Side) (header : Nat) :
    (s.replace c cs).places side header + (holds side header c).toNat =
      s.places side header + cs.countP (holds side header) := by
  have hperm := (List.perm_cons_erase hc).countP_eq (holds side header)
  rw [List.countP_cons] at hperm
  simp only [places, replace, List.countP_append]
  cases hh : holds side header c <;> simp [hh] at hperm ⊢ <;> omega

theorem places_setPort (p : Port) (side' : Side) :
    (s.setPort side p).places side' header =
      (if side' = side then p.available.count header + p.component.count header
        else (s.port side').available.count header + (s.port side').component.count header) +
        s.callers.countP (holds side' header) := by
  rw [places, setPort_port]
  split_ifs <;> rfl

theorem places_def (side : Side) :
    s.places side header = (s.port side).available.count header + (s.port side).component.count header +
      s.callers.countP (holds side header) := rfl

/-- A caller that holds nothing is in no place. -/
theorem not_holds (h : c.omx_buffer = none) : holds side header c = false := by simp [holds, h]

theorem places_get {rest : List Nat} {h : Nat} (hc : c ∈ s.callers) (hnone : c.omx_buffer = none)
    (hav : (s.port c.task.side).available = h :: rest) (cs : List Caller) (side : Side) (header : Nat) :
    ((s.setPort c.task.side { s.port c.task.side with available := rest }).replace c cs).places side header +
        missing (some (c.task.side, h)) side header =
      s.places side header + cs.countP (holds side header) := by
  have hrep := places_replace (s := s.setPort c.task.side { s.port c.task.side with available := rest })
    hc cs side header
  rw [places_setPort, not_holds hnone] at hrep
  rw [places_def (s := s), missing_some]
  by_cases hside : side = c.task.side
  · subst hside
    simp only [if_true, true_and, hav, List.count_cons, beq_iff_eq, Bool.toNat_false, eq_comm (a := h)] at hrep ⊢
    omega
  · simp only [hside, if_false, false_and, Bool.toNat_false] at hrep ⊢
    omega

theorem count_erase_add {l : List Nat} {a : Nat} (ha : a ∈ l) (b : Nat) :
    (l.erase a).count b + (if b = a then 1 else 0) = l.count b := by
  rw [(List.perm_cons_erase ha).count_eq b, List.count_cons]
  simp only [beq_iff_eq, eq_comm (a := a)]

theorem holds_toNat (side : Side) (header : Nat) (c : Caller) :
    (holds side header c).toNat = missing (c.omx_buffer.map fun h => (c.task.side, h)) side header := by
  cases hbuf : c.omx_buffer <;> simp [holds, missing, hbuf]
  split <;> simp_all

theorem countP_singleton_holds (side : Side) (header : Nat) (c : Caller) :
    [c].countP (holds side header) = (holds side header c).toNat := by
  cases h : holds side header c <;> simp [h]

theorem afterSubmit_holds (s : Decoder) (h : Nat) (task : Task) :
    (s.afterSubmit h task).countP (holds side header) = 0 := by
  rw [List.countP_eq_zero]
  intro c hc
  have hnone : c.omx_buffer = none := by
    cases task with
    | decode demuxer_bytes =>
      simp only [afterSubmit] at hc
      split_ifs at hc
      · cases hc
      · rw [List.mem_singleton.mp hc]
    | primeInput => rw [List.mem_singleton.mp hc]
    | _ => cases hc
  rw [not_holds hnone]
  exact Bool.false_ne_true

/-- What one event does to the places of a header. -/
theorem step_places {e : Event} (hstep : s.step e = some s') (side : Side) (header : Nat) :
    s'.places side header + missing (s.lost e) side header = s.places side header := by
  cases e with
  | call task =>
    obtain ⟨-, hw⟩ := Option.ite_none_right_eq_some.mp hstep
    cases hw
    simp only [places, lost, List.countP_cons]
    rw [not_holds rfl]
    simp
  | get c =>
    rw [step] at hstep
    rw [lost]
    cases hav : (s.port c.task.side).available with
    | nil => simp [hav] at hstep
    | cons h rest =>
      simp only [hav] at hstep ⊢
      obtain ⟨⟨hc, hnone, -⟩, hw⟩ := Option.ite_none_right_eq_some.mp hstep
      by_cases hrefuses : s.Refuses c h
      · rw [if_pos hrefuses] at hw ⊢
        cases hw
        have hget := places_get hc hnone hav [] side header
        simpa using hget
      · rw [if_neg hrefuses] at hw ⊢
        cases hw
        have hget := places_get hc hnone hav [{ c with omx_buffer := some h }] side header
        rw [countP_singleton_holds, holds_toNat] at hget
        exact Nat.add_right_cancel hget
  | giveUp c =>
    obtain ⟨⟨hc, hnone, -⟩, hw⟩ := Option.ite_none_right_eq_some.mp hstep
    cases hw
    have hrep := places_replace hc [] side header
    rw [not_holds hnone] at hrep
    simpa [lost] using hrep
  | submit c succeeds =>
    rw [step] at hstep
    cases hbuf : c.omx_buffer with
    | none => simp [hbuf] at hstep
    | some h =>
      simp only [hbuf] at hstep
      obtain ⟨hc, hw⟩ := Option.ite_none_right_eq_some.mp hstep
      have hhold := holds_toNat side header c
      rw [hbuf, Option.map_some, missing_some] at hhold
      cases succeeds with
      | true =>
        cases hw
        have hrep := places_replace
          (s := s.setPort c.task.side { s.port c.task.side with component := h :: (s.port c.task.side).component })
          hc (s.afterSubmit h c.task) side header
        rw [places_setPort, afterSubmit_holds, hhold] at hrep
        rw [places_def (s := s), show s.lost (.submit c true) = none from rfl, missing_none]
        by_cases hside : side = c.task.side
        · subst hside
          simp only [if_true, true_and, List.count_cons, beq_iff_eq, eq_comm (a := h)] at hrep ⊢
          lia
        · simp only [hside, if_false, false_and] at hrep ⊢
          lia
      | false =>
        cases hw
        have hrep := places_replace hc (afterRefusal c) side header
        rw [lost]
        by_cases hretry : c.task.retries ∧ c.nRetry + 1 ≠ 5
        · rw [afterRefusal, if_pos hretry, countP_singleton_holds] at hrep
          rw [if_pos hretry, afterRefusal, if_pos hretry]
          exact Nat.add_right_cancel hrep
        · rw [afterRefusal, if_neg hretry, hhold] at hrep
          rw [if_neg hretry, afterRefusal, if_neg hretry, hbuf, Option.map_some, missing_some]
          simpa using hrep
  | done side' header' =>
    obtain ⟨hmem, hw⟩ := Option.ite_none_right_eq_some.mp hstep
    have hcount := count_erase_add hmem header
    rw [places_def (s := s), lost]
    by_cases hexit : s.m_exit
    · rw [if_pos hexit] at hw ⊢
      cases hw
      rw [places_setPort, missing_some]
      by_cases hside : side = side'
      · subst hside
        simp only [if_true, true_and]
        lia
      · simp only [hside, if_false, false_and, Nat.add_zero]
    · rw [if_neg hexit] at hw ⊢
      cases hw
      rw [places_setPort, missing_none]
      by_cases hside : side = side'
      · subst hside
        rw [if_pos rfl, List.count_append, List.count_singleton]
        simp only [beq_iff_eq, eq_comm (a := header')]
        lia
      · rw [if_neg hside, Nat.add_zero]
  | deinit =>
    cases hstep
    rfl

/-- The events that lose no header. -/
theorem sound_iff {e : Event} (hstep : s.step e = some s') : s.Sound e ↔ s.lost e = none := by
  cases e with
  | get c =>
    rw [Sound, lost]
    cases (s.port c.task.side).available with
    | nil => simp
    | cons h rest =>
      rw [List.head?_cons]
      by_cases hrefuses : s.Refuses c h <;> simp [hrefuses]
  | submit c succeeds =>
    cases succeeds with
    | true => exact iff_of_true trivial rfl
    | false =>
      rw [Sound, lost]
      cases hbuf : c.omx_buffer with
      | none => simp [step, hbuf] at hstep
      | some h => simp
  | done side header =>
    rw [Sound, lost]
    cases s.m_exit <;> simp
  | _ => exact iff_of_true trivial rfl

theorem count_step {e : Event} (hstep : s.step e = some s') : s'.count = s.count := by
  cases e with
  | call task =>
    obtain ⟨-, hw⟩ := Option.ite_none_right_eq_some.mp hstep
    cases hw
    rfl
  | get c =>
    rw [step] at hstep
    cases hav : (s.port c.task.side).available with
    | nil => simp [hav] at hstep
    | cons h rest =>
      simp only [hav] at hstep
      obtain ⟨-, hw⟩ := Option.ite_none_right_eq_some.mp hstep
      split_ifs at hw <;> cases hw <;> rfl
  | giveUp c =>
    obtain ⟨-, hw⟩ := Option.ite_none_right_eq_some.mp hstep
    cases hw
    rfl
  | submit c succeeds =>
    rw [step] at hstep
    cases hbuf : c.omx_buffer with
    | none => simp [hbuf] at hstep
    | some h =>
      simp only [hbuf] at hstep
      obtain ⟨-, hw⟩ := Option.ite_none_right_eq_some.mp hstep
      split_ifs at hw <;> cases hw <;> rfl
  | done side header =>
    obtain ⟨-, hw⟩ := Option.ite_none_right_eq_some.mp hstep
    split_ifs at hw <;> cases hw <;> rfl
  | deinit =>
    cases hstep
    rfl

theorem count_run {es : List Event} (hrun : Machine.run step s es = some s') : s'.count = s.count :=
  Machine.run_invariant (I := fun t => t.count = s.count) (fun _ _ _ hstep h => (count_step hstep).trans h) hrun rfl

/-- A header in no place never comes back. -/
theorem places_run_le {es : List Event} (hrun : Machine.run step s es = some s') (side : Side) (header : Nat) :
    s'.places side header ≤ s.places side header := by
  refine Machine.run_invariant (I := fun t => t.places side header ≤ s.places side header) ?_ hrun (Nat.le_refl _)
  intro t e t' hstep hle
  have hplaces := step_places hstep side header
  omega

/-- Every header stays in one place exactly in the runs that take none in vain. -/
theorem conserved_iff {es : List Event} (hs : s.Conserved) (hrun : Machine.run step s es = some s') :
    s'.Conserved ↔ Machine.Along step Sound s es := by
  induction es generalizing s with
  | nil =>
    cases hrun
    exact iff_of_true hs trivial
  | cons e es ih =>
    obtain ⟨m, hm, hrest⟩ := Machine.run_cons_some.mp hrun
    rw [Machine.Along, sound_iff hm]
    cases hlost : s.lost e with
    | none =>
      have hsame : m.Conserved := by
        intro side header
        have hplaces := step_places hm side header
        rw [hlost, missing_none, Nat.add_zero] at hplaces
        rw [hplaces, count_step hm]
        exact hs side header
      rw [ih hsame hrest, hm]
      simp
    | some gone =>
      obtain ⟨side, header⟩ := gone
      refine iff_of_false ?_ nofun
      intro hconserved
      have hplaces := step_places hm side header
      have hle := places_run_le hrest side header
      have hbefore := hs side header
      have hafter := hconserved side header
      rw [count_run hrun] at hafter
      rw [hlost, missing_some, if_pos ⟨rfl, rfl⟩] at hplaces
      split_ifs at hbefore hafter <;> omega

theorem conserved_start (count : Side → Nat) (nAllocLen : Nat → Nat) (m_extrasize : Nat) :
    (start count nAllocLen m_extrasize).Conserved := by
  intro side header
  have hrange : (List.range (count side)).count header = if header < count side then 1 else 0 := by
    rw [List.nodup_range.count]
    simp only [List.mem_range]
  exact hrange

/-- From the allocation of the buffers on. -/
theorem headers_conserved {count : Side → Nat} {nAllocLen : Nat → Nat} {m_extrasize : Nat} {es : List Event}
    (hrun : Machine.run step (start count nAllocLen m_extrasize) es = some s) :
    s.Conserved ↔ Machine.Along step Sound (start count nAllocLen m_extrasize) es :=
  conserved_iff (conserved_start count nAllocLen m_extrasize) hrun

/-- Two input headers and one output header. -/
def two : Side → Nat
  | .input => 2
  | .output => 1

/-- Two packets are decoded while the output is primed and read; one buffer is refused and tried again. -/
def soundRun : List Event :=
  [.call .primeInput, .get ⟨.primeInput, none, 0⟩, .submit ⟨.primeInput, some 0, 0⟩ true,
    .get ⟨.primeOutput, none, 0⟩, .submit ⟨.primeOutput, some 0, 0⟩ true, .call (.decode 6),
    .get ⟨.decode 6, none, 0⟩, .submit ⟨.decode 6, some 1, 0⟩ false, .done .input 0, .done .output 0,
    .submit ⟨.decode 6, some 1, 1⟩ true, .get ⟨.decode 2, none, 0⟩, .submit ⟨.decode 2, some 0, 0⟩ true,
    .call .getData, .get ⟨.getData, none, 0⟩, .submit ⟨.getData, some 0, 0⟩ true]

theorem soundRun_conserved : ∃ s, Machine.run step (start two (fun _ => 4) 0) soundRun = some s ∧ s.Conserved := by
  have hrun := Option.eq_some_of_isSome
    (by decide : (Machine.run step (start two (fun _ => 4) 0) soundRun).isSome = true)
  exact ⟨_, hrun, (headers_conserved hrun).mpr (by decide)⟩

/-- The component refuses the end of the stream; `SubmitEOS` returns with the header that it took. -/
def refusedRun : List Event := [.call .submitEOS, .get ⟨.submitEOS, none, 0⟩, .submit ⟨.submitEOS, some 0, 0⟩ false]

theorem refusedRun_lost :
    ¬ ∀ s, Machine.run step (start two (fun _ => 4) 0) refusedRun = some s → s.Conserved := by
  intro h
  have hrun := Option.eq_some_of_isSome
    (by decide : (Machine.run step (start two (fun _ => 4) 0) refusedRun).isSome = true)
  exact absurd (h _ hrun .input 0) (by decide)

end Decoder

end AudioFlinger.OmxComponent.Buffers
