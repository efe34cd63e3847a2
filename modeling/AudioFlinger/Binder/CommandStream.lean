import AudioFlinger.Foundation.Machine
import Mathlib.Tactic.Common

/-!
# The command stream of a thread

`talkWithDriver` of `IPCThreadState` (`libs/binder/IPCThreadState.cpp`) and `BINDER_WRITE_READ` of the driver
(`driver/binder/binder.c`) with the `binder_write_read` that they share. Commands and return commands are of any
type and sizes are counted in commands. In `cutils/log.h` of this port `LOG_ALWAYS_FATAL` is empty, so
`Parcel::remove` does nothing.
-/

namespace AudioFlinger.Binder.CommandStream

open Foundation

/-- `write_size` is the size of `mOut`; `reads` says that `read_size` is not 0. -/
structure BinderWriteRead where
  reads : Bool
  write_consumed : Nat
  deriving DecidableEq

/-- How a command ends in `binder_thread_write`: it is done, it has set `thread->return_error`, or the function
returns an error in front of it. -/
inductive Verdict
  | done
  | returnError
  | error
  deriving DecidableEq

/-- `mIn` is what is left to read; `talking` is the loop of `talkWithDriver` around the `ioctl`. The last four
record what was appended to `mOut`, processed by the driver, placed in the read buffer and read. -/
structure Thread (α β : Type) where
  mOut : List α
  mIn : List β
  talking : Option BinderWriteRead
  return_error : Bool
  appended : List α
  processed : List α
  placed : List β
  read : List β

/-- One `ioctl`: interrupted before it begins, or with the driver's verdict on the commands that it has not
consumed and the return commands; none of these when the wait is interrupted. -/
inductive Attempt (β : Type)
  | restarted
  | done (verdict : Nat → Verdict) (returns : Option (List β))

inductive Event (α β : Type)
  | append (cmd : α)
  | talk (doReceive : Bool)
  | ioctl (attempt : Attempt β)
  | read

variable {α β : Type}

/-- The loop of `binder_thread_write` from the command `i` on: how many commands are consumed and how it ends. -/
def threadWrite (verdict : Nat → Verdict) : Nat → List α → Nat × Verdict
  | _, [] => (0, .done)
  | i, _ :: cmds =>
    match verdict i with
    | .done => ((threadWrite verdict (i + 1) cmds).1 + 1, (threadWrite verdict (i + 1) cmds).2)
    | .returnError => (1, .returnError)
    | .error => (0, .error)

/-- `Parcel::remove`. -/
def remove (mOut : List α) (_start _amt : Nat) : List α := mOut

namespace Thread

def new : Thread α β := ⟨[], [], none, false, [], [], [], []⟩

/-- The end of `talkWithDriver` after an `ioctl` without an error. -/
def finish (s : Thread α β) (write_consumed : Nat) (returns : List β) : Thread α β :=
  { s with
    mOut :=
      if write_consumed = 0 then s.mOut
      else if write_consumed < s.mOut.length then remove s.mOut 0 write_consumed
      else []
    mIn := if returns = [] then s.mIn else returns
    talking := none
    placed := s.placed ++ returns }

/-- The reading, and the end of the `ioctl`. A pending `return_error` is returned without waiting. -/
def readBack (s : Thread α β) (bwr : BinderWriteRead) (write_consumed : Nat) (return_error : Bool)
    (returns : Option (List β)) : Option (Thread α β) :=
  if bwr.reads then
    match returns with
    | none => if return_error then none else some { s with talking := some { bwr with write_consumed } }
    | some returns => some ({ s with return_error := false }.finish write_consumed returns)
  else some ({ s with return_error }.finish write_consumed [])

/-- `binder_ioctl`, and what `talkWithDriver` makes of its result. A pending `return_error` stops the writing. -/
def ioctl (s : Thread α β) (bwr : BinderWriteRead) (verdict : Nat → Verdict) (returns : Option (List β)) :
    Option (Thread α β) :=
  let rest := s.mOut.drop bwr.write_consumed
  let write := if s.return_error then (0, Verdict.done) else threadWrite verdict 0 rest
  let s' := { s with processed := s.processed ++ rest.take write.1 }
  if write.2 = .error then some { s' with talking := none }
  else s'.readBack bwr (bwr.write_consumed + write.1) (s.return_error || write.2 = .returnError) returns

def step (s : Thread α β) : Event α β → Option (Thread α β)
  | .append cmd =>
    if s.talking.isNone then some { s with mOut := s.mOut ++ [cmd], appended := s.appended ++ [cmd] } else none
  | .talk doReceive =>
    if s.talking.isNone then
      let needRead := s.mIn.isEmpty
      let write_size := if !doReceive || needRead then s.mOut.length else 0
      let reads := doReceive && needRead
      if write_size = 0 ∧ ¬ reads then some s else some { s with talking := some ⟨reads, 0⟩ }
    else none
  | .ioctl .restarted => if s.talking.isSome then some s else none
  | .ioctl (.done verdict returns) => s.talking.bind fun bwr => s.ioctl bwr verdict returns
  | .read =>
    match s.mIn with
    | [] => none
    | cmd :: rest => if s.talking.isNone then some { s with mIn := rest, read := s.read ++ [cmd] } else none

/-- What is in `mOut` and has not been consumed. -/
def pending (s : Thread α β) : List α := s.mOut.drop (s.talking.elim 0 BinderWriteRead.write_consumed)

/-- Every command is processed once, in order, or waits to be sent; every return command is read once, in order,
or waits to be read. -/
structure Exact (s : Thread α β) : Prop where
  sent : s.processed ++ s.pending = s.appended
  received : s.read ++ s.mIn = s.placed

/-- The driver stops in front of no command but the first of `mOut`, and a command that sets `return_error` is
the last one. -/
def Sound (s : Thread α β) : Event α β → Prop
  | .ioctl (.done verdict _) =>
    s.return_error = false → ∀ bwr ∈ s.talking, ∀ i < (s.mOut.drop bwr.write_consumed).length,
      (∀ j < i, verdict j = .done) →
        (verdict i = .error → bwr.write_consumed + i = 0) ∧
          (verdict i = .returnError → bwr.write_consumed + i + 1 = s.mOut.length)
  | _ => True

instance (s : Thread α β) : ∀ e, Decidable (s.Sound e)
  | .ioctl (.done _ _) => inferInstanceAs (Decidable (_ → _))
  | .ioctl .restarted | .append _ | .talk _ | .read => isTrue trivial

end Thread

/-- How far `binder_thread_write` gets. -/
theorem threadWrite_spec (verdict : Nat → Verdict) (i : Nat) (cmds : List α) :
    ∃ k, (∀ j < k, verdict (i + j) = .done) ∧
      (k = cmds.length ∧ threadWrite verdict i cmds = (k, .done) ∨
        k < cmds.length ∧ verdict (i + k) = .returnError ∧ threadWrite verdict i cmds = (k + 1, .returnError) ∨
        k < cmds.length ∧ verdict (i + k) = .error ∧ threadWrite verdict i cmds = (k, .error)) := by
  induction cmds generalizing i with
  | nil => exact ⟨0, nofun, .inl ⟨rfl, rfl⟩⟩
  | cons c cmds ih =>
    cases hv : verdict i with
    | done =>
      obtain ⟨k, hbefore, hend⟩ := ih (i + 1)
      refine ⟨k + 1, ?_, ?_⟩
      · intro j hj
        cases j with
        | zero => exact hv
        | succ j =>
          rw [Nat.add_comm j, ← Nat.add_assoc]
          exact hbefore j (Nat.lt_of_succ_lt_succ hj)
      · simp only [threadWrite, hv, List.length_cons, Nat.add_lt_add_iff_right, Nat.add_right_cancel_iff]
        rw [Nat.add_comm k, ← Nat.add_assoc]
        rcases hend with ⟨hk, hw⟩ | ⟨hk, hvk, hw⟩ | ⟨hk, hvk, hw⟩
        · exact .inl ⟨hk, by rw [hw, Nat.add_comm]⟩
        · exact .inr (.inl ⟨hk, hvk, by rw [hw, Nat.add_comm 1]⟩)
        · exact .inr (.inr ⟨hk, hvk, by rw [hw, Nat.add_comm]⟩)
    | returnError => exact ⟨0, nofun, .inr (.inl ⟨Nat.succ_pos _, hv, by rw [threadWrite, hv]⟩)⟩
    | error => exact ⟨0, nofun, .inr (.inr ⟨Nat.succ_pos _, hv, by rw [threadWrite, hv]⟩)⟩

namespace Thread

variable {s s' : Thread α β} {bwr : BinderWriteRead} {verdict : Nat → Verdict} {returns : Option (List β)}

/-- Between two attempts of one `talkWithDriver` all of the commands have been consumed, or none. -/
structure Inv (s : Thread α β) : Prop where
  consumed : ∀ bwr ∈ s.talking, bwr.write_consumed = 0 ∨ bwr.write_consumed = s.mOut.length
  empty : ∀ bwr ∈ s.talking, bwr.reads → s.mIn = []
  received : s.read ++ s.mIn = s.placed

/-- The commands that have been processed or will be sent; more than were appended when some are sent twice. -/
def excess (s : Thread α β) : Nat := s.processed.length + s.pending.length

theorem finish_received (h : s.read ++ s.mIn = s.placed) {r : List β} (hempty : s.mIn = [] ∨ r = []) (n : Nat) :
    (s.finish n r).read ++ (s.finish n r).mIn = (s.finish n r).placed := by
  simp only [finish]
  by_cases hr : r = []
  · simpa [hr] using h
  · have hmIn := hempty.resolve_right hr
    rw [hmIn, List.append_nil] at h
    rw [if_neg hr, h]

/-- What is pending after an `ioctl` that has succeeded. -/
theorem finish_pending (n : Nat) (r : List β) :
    (s.finish n r).pending = if n ≠ 0 ∧ s.mOut.length ≤ n then [] else s.mOut := by
  simp only [finish, pending, Option.elim_none, List.drop_zero, remove]
  by_cases hn : n = 0
  · simp [hn]
  · by_cases hlt : n < s.mOut.length
    · simp [hlt, Nat.not_le.mpr hlt]
    · simp [hn, hlt, Nat.not_lt.mp hlt]

theorem readBack_spec {n : Nat} {re : Bool} (hstep : s.readBack bwr n re returns = some s') (h : s.Inv)
    (hbwr : bwr ∈ s.talking) (hn : re = false → n = s.mOut.length) :
    s'.Inv ∧ s'.processed = s.processed ∧ s'.appended = s.appended ∧
      s'.pending = if n ≠ 0 ∧ s.mOut.length ≤ n then [] else s.mOut := by
  rw [readBack.eq_def] at hstep
  by_cases hreads : bwr.reads
  · rw [if_pos hreads] at hstep
    cases returns with
    | none =>
      cases re with
      | true => cases hstep
      | false =>
        cases hstep
        obtain rfl := hn rfl
        refine ⟨⟨?_, ?_, h.received⟩, rfl, rfl, ?_⟩
        · rintro _ ⟨⟩
          exact .inr rfl
        · rintro _ ⟨⟩ -
          exact h.empty bwr hbwr hreads
        · simp only [pending, Option.elim_some, List.drop_length, Nat.le_refl, and_true]
          split_ifs with hzero
          · rfl
          · exact (List.length_eq_zero_iff.mp (by omega)).symm
    | some returns =>
      cases hstep
      exact ⟨⟨nofun, nofun, finish_received h.received (.inl (h.empty bwr hbwr hreads)) n⟩, rfl, rfl,
        finish_pending n returns⟩
  · rw [if_neg hreads] at hstep
    cases hstep
    exact ⟨⟨nofun, nofun, finish_received h.received (.inr rfl) n⟩, rfl, rfl, finish_pending n []⟩

theorem left_of_consumed {n : Nat} {l : List α} (h : n = 0 ∨ n = l.length) :
    (if n ≠ 0 ∧ l.length ≤ n then [] else l) = l.drop n := by
  rcases h with rfl | rfl
  · simp
  · rw [List.drop_length]
    split_ifs with hzero
    · rfl
    · cases l with
      | nil => rfl
      | cons c l => exact absurd ⟨Nat.succ_ne_zero _, Nat.le_refl _⟩ hzero

/-- An `ioctl` that is sound sends each command once; any other leaves commands in `mOut` that the driver has
processed. -/
theorem ioctl_step (h : s.Inv) (hbwr : s.talking = some bwr) (hstep : s.ioctl bwr verdict returns = some s') :
    s'.Inv ∧ s'.appended = s.appended ∧
      (s.Sound (.ioctl (.done verdict returns)) ∧ s'.processed ++ s'.pending = s.processed ++ s.pending ∨
        ¬ s.Sound (.ioctl (.done verdict returns)) ∧ s.excess < s'.excess) := by
  have hpending : s.pending = s.mOut.drop bwr.write_consumed := by rw [pending, hbwr]; rfl
  have hconsumed := h.consumed bwr hbwr
  have hinv' : ∀ l re, Inv { s with processed := l, return_error := re } :=
    fun _ _ => ⟨h.consumed, h.empty, h.received⟩
  cases hre : s.return_error with
  | true =>
    have hsound : s.Sound (.ioctl (.done verdict returns)) := fun hfalse => absurd (hre.symm.trans hfalse) (by decide)
    simp only [ioctl, hre, if_true, List.take_zero, List.append_nil, Nat.add_zero, Bool.true_or, reduceCtorEq,
      if_false] at hstep
    obtain ⟨hinv, hproc, happ, hpend⟩ := readBack_spec hstep (hinv' _ _) hbwr nofun
    refine ⟨hinv, happ, .inl ⟨hsound, ?_⟩⟩
    rw [hproc, hpend, hpending]
    rw [left_of_consumed hconsumed]
  | false =>
    obtain ⟨k, hbefore, hend⟩ := threadWrite_spec verdict 0 (s.mOut.drop bwr.write_consumed)
    simp only [Nat.zero_add] at hbefore hend
    rw [List.length_drop] at hend
    simp only [ioctl, hre, Bool.false_eq_true, if_false, Bool.false_or] at hstep
    rcases hend with ⟨hk, hw⟩ | ⟨hk, hvk, hw⟩ | ⟨hk, hvk, hw⟩
    · have hsound : s.Sound (.ioctl (.done verdict returns)) := by
        rintro - _ hmem i hi -
        obtain rfl := Option.some.inj (hbwr.symm.trans hmem)
        rw [List.length_drop, ← hk] at hi
        rw [hbefore i hi]
        exact ⟨nofun, nofun⟩
      have hall : bwr.write_consumed + k = s.mOut.length := by lia
      have htake : (s.mOut.drop bwr.write_consumed).take k = s.mOut.drop bwr.write_consumed := by
        rw [hk, ← List.length_drop, List.take_length]
      simp only [hw, htake, hall, reduceCtorEq, if_false, decide_false] at hstep
      obtain ⟨hinv, hproc, happ, hpend⟩ := readBack_spec hstep (hinv' _ _) hbwr fun _ => rfl
      refine ⟨hinv, happ, .inl ⟨hsound, ?_⟩⟩
      rw [hproc, hpend, hpending, left_of_consumed (.inr rfl), List.drop_length, List.append_nil]
    · have hzero : bwr.write_consumed = 0 := by lia
      rw [hzero, List.drop_zero] at hw
      simp only [hw, hzero, reduceCtorEq, if_false, decide_true, Nat.zero_add, List.drop_zero] at hstep
      obtain ⟨hinv, hproc, happ, hpend⟩ := readBack_spec hstep (hinv' _ _) hbwr nofun
      refine ⟨hinv, happ, ?_⟩
      by_cases hlast : k + 1 = s.mOut.length
      · refine .inl ⟨?_, ?_⟩
        · rintro - _ hmem i hi hdone
          obtain rfl := Option.some.inj (hbwr.symm.trans hmem)
          rw [List.length_drop] at hi
          rcases Nat.lt_trichotomy i k with hik | rfl | hik
          · rw [hbefore i hik]
            exact ⟨nofun, nofun⟩
          · rw [hvk, hzero, Nat.zero_add]
            exact ⟨nofun, fun _ => hlast⟩
          · exact absurd (hvk.symm.trans (hdone k hik)) nofun
        · rw [hproc, hpend, hpending, hzero, hlast, left_of_consumed (.inr rfl), List.drop_length, List.take_length,
            List.append_nil, List.drop_zero]
      · refine .inr ⟨?_, ?_⟩
        · intro hsound
          have hstop := (hsound hre bwr hbwr k (by rw [List.length_drop]; lia) hbefore).2 hvk
          lia
        · have hshort : ¬ (k + 1 ≠ 0 ∧ s.mOut.length ≤ k + 1) := by lia
          rw [excess, excess, hproc, hpend, hpending, hzero, List.drop_zero, if_neg hshort]
          simp only [List.length_append, List.length_take]
          lia
    · have hzero : bwr.write_consumed = 0 := by lia
      rw [hzero, List.drop_zero] at hw
      simp only [hw, hzero, if_true, List.drop_zero] at hstep
      cases hstep
      refine ⟨⟨nofun, nofun, h.received⟩, rfl, ?_⟩
      by_cases hfirst : k = 0
      · refine .inl ⟨?_, ?_⟩
        · rintro - _ hmem i hi hdone
          obtain rfl := Option.some.inj (hbwr.symm.trans hmem)
          rcases Nat.eq_zero_or_pos i with rfl | hpos
          · rw [← hfirst, hvk, hzero]
            exact ⟨fun _ => hfirst.symm ▸ rfl, nofun⟩
          · exact absurd ((hfirst ▸ hvk).symm.trans (hdone 0 hpos)) nofun
        · rw [hpending, hzero, hfirst]
          simp [pending]
      · refine .inr ⟨?_, ?_⟩
        · intro hsound
          have hstop := (hsound hre bwr hbwr k (by rw [List.length_drop]; lia) hbefore).1 hvk
          lia
        · rw [excess, excess, hpending, hzero]
          simp only [pending, List.length_append, List.length_take, Option.elim_none, List.drop_zero]
          lia

/-- What a step does: a sound one moves commands, any other makes them more. -/
theorem step_spec {e : Event α β} (h : s.Inv) (hstep : s.step e = some s') :
    s'.Inv ∧ (s.Sound e ∧ (∃ new, s'.appended = s.appended ++ new ∧
          s'.processed ++ s'.pending = s.processed ++ s.pending ++ new) ∨
        ¬ s.Sound e ∧ s'.appended = s.appended ∧ s.excess < s'.excess) := by
  cases e with
  | append cmd =>
    obtain ⟨hidle, hw⟩ := Option.ite_none_right_eq_some.mp hstep
    rw [Option.isNone_iff_eq_none] at hidle
    cases hw
    refine ⟨⟨?_, ?_, h.received⟩, .inl ⟨trivial, [cmd], rfl, ?_⟩⟩
    · simp [hidle]
    · simp [hidle]
    · simp [pending, hidle]
  | talk doReceive =>
    obtain ⟨hidle, hw⟩ := Option.ite_none_right_eq_some.mp hstep
    rw [Option.isNone_iff_eq_none] at hidle
    have hcases : s' = s ∨ s' = { s with talking := some ⟨doReceive && s.mIn.isEmpty, 0⟩ } := by
      split_ifs at hw <;> cases hw <;> simp
    rcases hcases with rfl | rfl
    · exact ⟨h, .inl ⟨trivial, [], (List.append_nil _).symm, (List.append_nil _).symm⟩⟩
    · refine ⟨⟨?_, ?_, h.received⟩, .inl ⟨trivial, [], (List.append_nil _).symm, ?_⟩⟩
      · rintro _ ⟨⟩
        exact .inl rfl
      · rintro _ ⟨⟩ hreads
        simp only [Bool.and_eq_true, List.isEmpty_iff] at hreads
        exact hreads.2
      · simp [pending, hidle]
  | ioctl attempt =>
    cases attempt with
    | restarted =>
      obtain ⟨-, hw⟩ := Option.ite_none_right_eq_some.mp hstep
      cases hw
      exact ⟨h, .inl ⟨trivial, [], (List.append_nil _).symm, (List.append_nil _).symm⟩⟩
    | done verdict returns =>
      obtain ⟨bwr, hbwr, hw⟩ := Option.bind_eq_some_iff.mp hstep
      obtain ⟨hinv, happ, hcases⟩ := ioctl_step h hbwr hw
      refine ⟨hinv, hcases.imp ?_ fun hbad => ⟨hbad.1, happ, hbad.2⟩⟩
      rintro ⟨hsound, hsent⟩
      exact ⟨hsound, [], by rw [happ, List.append_nil], by rw [hsent, List.append_nil]⟩
  | read =>
    rw [step] at hstep
    cases hmIn : s.mIn with
    | nil => simp [hmIn] at hstep
    | cons cmd rest =>
      simp only [hmIn] at hstep
      obtain ⟨hidle, hw⟩ := Option.ite_none_right_eq_some.mp hstep
      rw [Option.isNone_iff_eq_none] at hidle
      cases hw
      have hreceived := h.received
      rw [hmIn] at hreceived
      refine ⟨⟨h.consumed, ?_, ?_⟩, .inl ⟨trivial, [], (List.append_nil _).symm, (List.append_nil _).symm⟩⟩
      · simp [hidle]
      · rw [← hreceived, List.append_assoc]
        rfl

/-- Commands that the driver will have twice stay in the stream. -/
theorem excess_run {es : List (Event α β)} (h : s.Inv) (hmore : s.appended.length < s.excess)
    (hrun : Machine.run step s es = some s') : s'.appended.length < s'.excess := by
  refine (Machine.run_invariant (I := fun t => t.Inv ∧ t.appended.length < t.excess) ?_ hrun ⟨h, hmore⟩).2
  rintro t e t' hstep ⟨ht, hmore⟩
  obtain ⟨ht', ⟨-, new, happ, hsent⟩ | ⟨-, happ, hlt⟩⟩ := step_spec ht hstep
  · have hlen := congrArg List.length hsent
    simp only [excess, List.length_append] at hmore hlen ⊢
    refine ⟨ht', ?_⟩
    rw [happ, List.length_append]
    omega
  · exact ⟨ht', by rw [happ]; exact Nat.lt_trans hmore hlt⟩

theorem sent_iff {es : List (Event α β)} (h : s.Inv) (hsent : s.processed ++ s.pending = s.appended)
    (hrun : Machine.run step s es = some s') :
    s'.processed ++ s'.pending = s'.appended ↔ Machine.Along step Sound s es := by
  induction es generalizing s with
  | nil =>
    cases hrun
    exact iff_of_true hsent trivial
  | cons e es ih =>
    obtain ⟨m, hm, hrest⟩ := Machine.run_cons_some.mp hrun
    obtain ⟨hinv, ⟨hsound, new, happ, hmoved⟩ | ⟨hbad, happ, hlt⟩⟩ := step_spec h hm
    · rw [ih hinv (by rw [hmoved, happ, hsent]) hrest, Machine.Along, hm]
      simp [hsound]
    · refine iff_of_false ?_ fun hok => hbad hok.1
      intro hsent'
      have hmore : m.appended.length < m.excess := by
        have hlen := congrArg List.length hsent
        rw [List.length_append] at hlen
        rw [excess] at hlt
        rw [happ]
        omega
      have hfinal := excess_run hinv hmore hrest
      rw [excess, ← hsent', List.length_append] at hfinal
      exact Nat.lt_irrefl _ hfinal

theorem received_run {es : List (Event α β)} (h : s.Inv) (hrun : Machine.run step s es = some s') : s'.Inv :=
  Machine.run_invariant (fun _ _ _ hstep ht => (step_spec ht hstep).1) hrun h

theorem inv_new : (new : Thread α β).Inv := ⟨nofun, nofun, rfl⟩

/-- Each command is processed once, in order, exactly when no batch is left in its middle. -/
theorem exact_iff_along {es : List (Event α β)} (hrun : Machine.run step new es = some s) :
    s.Exact ↔ Machine.Along step Sound new es := by
  rw [← sent_iff inv_new rfl hrun]
  exact ⟨Exact.sent, fun hsent => ⟨hsent, (received_run inv_new hrun).received⟩⟩

/-- Two commands; the first wait for return commands is interrupted. -/
def soundRun : List (Event Nat Nat) :=
  [.append 1, .append 2, .talk true, .ioctl .restarted, .ioctl (.done (fun _ => .done) none),
    .ioctl (.done (fun _ => .done) (some [10, 11])), .read, .append 3, .read, .talk true,
    .ioctl (.done (fun _ => .returnError) (some [12]))]

theorem soundRun_exact : ∃ s, Machine.run step new soundRun = some s ∧ s.Exact := by
  have hrun := Option.eq_some_of_isSome (by decide : (Machine.run step new soundRun).isSome = true)
  exact ⟨_, hrun, (exact_iff_along hrun).mpr (by decide)⟩

/-- The second command is `BC_ATTEMPT_ACQUIRE`; the first one is sent again with it. -/
def failingRun : List (Event Nat Nat) :=
  [.append 1, .append 2, .talk true, .ioctl (.done (fun i => if i = 1 then .error else .done) none), .talk true,
    .ioctl (.done (fun i => if i = 1 then .error else .done) none)]

theorem failingRun_repeats :
    ¬ ∀ s, Machine.run step new failingRun = some s → s.processed <+: s.appended := by
  intro h
  have hrun := Option.eq_some_of_isSome (by decide : (Machine.run step new failingRun).isSome = true)
  exact absurd (h _ hrun) (by decide)

end Thread

end AudioFlinger.Binder.CommandStream
