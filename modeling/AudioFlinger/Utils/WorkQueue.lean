import Mathlib.Data.List.Perm.Basic
import Mathlib.Algebra.GroupWithZero.Nat
import AudioFlinger.Foundation.Machine

/-!
# A pool of threads that share a queue of work

Every section of `WorkQueue` under `mLock` is a step. A thread of the pool, or a call of `schedule`
that is throttled, sleeps on its condition until a broadcast, or wakes for no reason. What has become
of the units is kept beside the members.
-/

namespace AudioFlinger.Utils

open Foundation.Machine

/-- Where a thread of the pool is in `threadLoop`. -/
inductive Worker (U : Type*)
  /-- It looks for work next. -/
  | ready
  /-- It sleeps on `mWorkChangedCondition`. -/
  | waiting
  | running (workUnit : U)
  | stopped

/-- A call of `schedule` in its loop over the backlog; it sleeps on `mWorkDequeuedCondition`. -/
structure Caller (U : Type*) where
  workUnit : U
  backlog : ℕ
  asleep : Bool

structure WorkQueue (U : Type*) where
  /-- The bits of a `size_t`. -/
  wordBits : ℕ
  mMaxThreads : ℕ
  mCanceled : Bool := false
  mFinished : Bool := false
  mIdleThreads : ℕ := 0
  mWorkThreads : List (Worker U) := []
  mWorkUnits : List U := []
  callers : List (Caller U) := []
  /-- `finish` has returned. -/
  joined : Bool := false
  /-- The units of the calls of `schedule` that returned OK, in order; the others keep theirs. -/
  accepted : List U := []
  started : List U := []
  completed : List U := []
  /-- The units deleted by `cancel`. -/
  discarded : List U := []

variable {U : Type*}

def Worker.wake : Worker U → Worker U
  | waiting => ready
  | w => w

def Worker.workUnit? : Worker U → Option U
  | running u => some u
  | _ => none

def Worker.isStopped : Worker U → Bool
  | stopped => true
  | _ => false

def Caller.wake (c : Caller U) : Caller U := { c with asleep := false }

namespace WorkQueue

/-- `mWorkChangedCondition.broadcast()` -/
def broadcastChanged (q : WorkQueue U) : WorkQueue U :=
  { q with mWorkThreads := q.mWorkThreads.map Worker.wake }

/-- `mWorkDequeuedCondition.broadcast()` -/
def broadcastDequeued (q : WorkQueue U) : WorkQueue U :=
  { q with callers := q.callers.map Caller.wake }

def add (q : WorkQueue U) (u : U) : WorkQueue U :=
  { q with mWorkUnits := q.mWorkUnits ++ [u], accepted := q.accepted ++ [u] }.broadcastChanged

/-- A call with this backlog has to wait; the product is a `size_t`. -/
def Full (q : WorkQueue U) (backlog : ℕ) : Prop :=
  q.mMaxThreads * backlog % 2 ^ q.wordBits ≤ q.mWorkUnits.length

instance (q : WorkQueue U) (backlog : ℕ) : Decidable (q.Full backlog) := Nat.decLe _ _

/-- `schedule` up to its first wait; `started` is whether a new thread would run. -/
def schedule (q : WorkQueue U) (u : U) (backlog : ℕ) (started : Bool) : WorkQueue U :=
  if q.mFinished || q.mCanceled then q
  else if q.mWorkThreads.length < q.mMaxThreads ∧ q.mIdleThreads < q.mWorkUnits.length + 1 then
    if started then
      ({ q with
        mWorkThreads := q.mWorkThreads ++ [.ready]
        mIdleThreads := q.mIdleThreads + 1 } : WorkQueue U).add u
    else q
  else if backlog ≠ 0 ∧ q.Full backlog then { q with callers := q.callers ++ [⟨u, backlog, true⟩] }
  else q.add u

/-- A throttled call of `schedule` that is awake. -/
def retry (q : WorkQueue U) (i : ℕ) : Option (WorkQueue U) :=
  match q.callers[i]? with
  | some ⟨u, backlog, false⟩ => some <|
    if q.mFinished || q.mCanceled then { q with callers := q.callers.eraseIdx i }
    else if q.Full backlog then { q with callers := q.callers.set i ⟨u, backlog, true⟩ }
    else ({ q with callers := q.callers.eraseIdx i } : WorkQueue U).add u
  | _ => none

def cancelLocked (q : WorkQueue U) : WorkQueue U :=
  if q.mFinished || q.mCanceled then q
  else { q with
    mCanceled := true
    mWorkUnits := []
    discarded := q.discarded ++ q.mWorkUnits }.broadcastChanged.broadcastDequeued

/-- `finish` up to the joins. -/
def finish (q : WorkQueue U) : WorkQueue U :=
  if q.mFinished then q else { q with mFinished := true }.broadcastChanged

/-- The end of `finish`: every thread has been joined. -/
def join (q : WorkQueue U) : Option (WorkQueue U) :=
  if q.mFinished && !q.joined && q.mWorkThreads.all Worker.isStopped then
    some { q with mWorkThreads := [], joined := true }
  else none

/-- `threadLoop` from its lock to the unit to run, the wait or the return. -/
def look (q : WorkQueue U) (i : ℕ) : Option (WorkQueue U) :=
  match q.mWorkThreads[i]? with
  | some .ready => some <|
    if q.mCanceled then { q with mWorkThreads := q.mWorkThreads.set i .stopped }
    else match q.mWorkUnits with
      | u :: us =>
        { q with
          mWorkUnits := us
          mIdleThreads := q.mIdleThreads - 1
          mWorkThreads := q.mWorkThreads.set i (.running u)
          started := q.started ++ [u] }.broadcastDequeued
      | [] =>
        if q.mFinished then { q with mWorkThreads := q.mWorkThreads.set i .stopped }
        else { q with mWorkThreads := q.mWorkThreads.set i .waiting }
  | _ => none

/-- `threadLoop` from the return of `run`: the unit is deleted. -/
def endRun (q : WorkQueue U) (i : ℕ) (shouldContinue : Bool) : Option (WorkQueue U) :=
  match q.mWorkThreads[i]? with
  | some (.running u) => some <|
    let q' (w : Worker U) := { q with
      mIdleThreads := q.mIdleThreads + 1
      mWorkThreads := q.mWorkThreads.set i w
      completed := q.completed ++ [u] }
    if shouldContinue then q' .ready else (q' .stopped).cancelLocked
  | _ => none

inductive Event (U : Type*)
  | schedule (workUnit : U) (backlog : ℕ) (started : Bool)
  | retry (i : ℕ)
  | cancel
  | finish
  | join
  | look (i : ℕ)
  | endRun (i : ℕ) (shouldContinue : Bool)
  /-- A thread or a caller wakes without a broadcast. -/
  | wakeThread (i : ℕ)
  | wakeCaller (i : ℕ)

def step (q : WorkQueue U) : Event U → Option (WorkQueue U)
  | .schedule u backlog started => some (q.schedule u backlog started)
  | .retry i => q.retry i
  | .cancel => some q.cancelLocked
  | .finish => some q.finish
  | .join => q.join
  | .look i => q.look i
  | .endRun i shouldContinue => q.endRun i shouldContinue
  | .wakeThread i => match q.mWorkThreads[i]? with
    | some .waiting => some { q with mWorkThreads := q.mWorkThreads.set i .ready }
    | _ => none
  | .wakeCaller i => q.callers[i]?.map fun c => { q with callers := q.callers.set i c.wake }

/-! ## What every run keeps -/

/-- The units that the threads are running. -/
def running (q : WorkQueue U) : List U := q.mWorkThreads.filterMap Worker.workUnit?

/-- Every unit has been taken or deleted, and no other comes. -/
def Settled (q : WorkQueue U) : Prop := q.mCanceled = true ∨ q.mFinished = true ∧ q.mWorkUnits = []

/-- What holds whoever sleeps; if the run is `tidy`, a thread returns only when the queue is settled. -/
structure Books (tidy : Prop) (q : WorkQueue U) : Prop where
  /-- Units are started in the order in which they were accepted. -/
  order : q.accepted = q.started ++ q.discarded ++ q.mWorkUnits
  emptied : q.mCanceled = true → q.mWorkUnits = []
  kept : q.mCanceled = false → q.discarded = []
  taken : q.started.Perm (q.completed ++ q.running)
  threads : q.mWorkThreads.length ≤ q.mMaxThreads
  idle : q.joined = false → q.mIdleThreads + q.running.length = q.mWorkThreads.length
  closed : q.joined = true → q.mFinished = true ∧ q.mWorkThreads = []
  /-- Pending units and throttled calls have threads to wait for. -/
  staffed : tidy → q.joined = false → q.mWorkUnits ≠ [] ∨ q.callers ≠ [] → q.mWorkThreads ≠ []
  worked : tidy → .stopped ∈ q.mWorkThreads → q.Settled
  left : tidy → q.joined = true → q.mWorkUnits = []
  positive : tidy → 0 < q.mMaxThreads

structure Kept (tidy : Prop) (q : WorkQueue U) : Prop extends Books tidy q where
  /-- No thread sleeps through a broadcast, and no throttled call does. -/
  awake : .waiting ∈ q.mWorkThreads →
    q.mWorkUnits = [] ∧ q.mCanceled = false ∧ q.mFinished = false
  throttled : ∀ c ∈ q.callers, c.asleep = true → q.Full c.backlog ∧ q.mCanceled = false

theorem filterMap_wake (ws : List (Worker U)) :
    (ws.map Worker.wake).filterMap Worker.workUnit? = ws.filterMap Worker.workUnit? := by
  rw [List.filterMap_map]
  exact List.filterMap_congr fun w _ => by cases w <;> rfl

theorem not_waiting_wake (ws : List (Worker U)) : .waiting ∉ ws.map Worker.wake := by
  intro hmem
  obtain ⟨w, -, hw⟩ := List.mem_map.mp hmem
  cases w <;> cases hw

theorem stopped_mem_wake {ws : List (Worker U)} (h : .stopped ∈ ws.map Worker.wake) :
    .stopped ∈ ws := by
  obtain ⟨w, hw, heq⟩ := List.mem_map.mp h
  cases w <;> cases heq
  exact hw

/-- One thread goes from `w` to `w'`. -/
theorem set_perm {ws : List (Worker U)} {i : ℕ} {w : Worker U} (h : ws[i]? = some w) (w' : Worker U) :
    (w :: ws.set i w').Perm (w' :: ws) := by
  obtain ⟨hi, rfl⟩ := List.getElem?_eq_some_iff.mp h
  exact ((List.set_perm_cons_eraseIdx hi w').cons _).trans
    ((List.Perm.swap _ _ _).trans ((List.getElem_cons_eraseIdx_perm hi).cons w'))

theorem kept_init {tidy : Prop} {wordBits mMaxThreads : ℕ} (hmax : tidy → 0 < mMaxThreads) :
    Kept (U := U) tidy { wordBits, mMaxThreads } := by
  constructor
  · exact ⟨rfl, fun _ => rfl, fun _ => rfl, .refl _, Nat.zero_le _, fun _ => rfl, nofun,
      fun _ _ hne => by simp at hne, nofun, nofun, hmax⟩
  · nofun
  · nofun

section Steps
variable {tidy : Prop} {q q' : WorkQueue U} {i : ℕ}

theorem Books.joined_eq_false (h : Books tidy q) (hf : q.mFinished = false) : q.joined = false := by
  by_contra hj
  exact Bool.false_ne_true (hf.symm.trans (h.closed (by simpa using hj)).1)

theorem Books.broadcastChanged (h : Books tidy q) : Books tidy q.broadcastChanged :=
  { h with
    taken := by
      rw [running, WorkQueue.broadcastChanged, filterMap_wake]
      exact h.taken
    threads := by
      rw [WorkQueue.broadcastChanged, List.length_map]
      exact h.threads
    idle := fun hj => by
      rw [running, WorkQueue.broadcastChanged, filterMap_wake, List.length_map]
      exact h.idle hj
    closed := fun hj => ⟨(h.closed hj).1, List.map_eq_nil_iff.mpr (h.closed hj).2⟩
    staffed := fun ht hj hne hnone => h.staffed ht hj hne (List.map_eq_nil_iff.mp hnone)
    worked := fun ht hs => h.worked ht (stopped_mem_wake hs) }

variable (h : Kept tidy q)

include h

theorem Kept.add (hf : q.mFinished = false) (hc : q.mCanceled = false)
    (hthreads : tidy → q.mWorkThreads ≠ []) (u : U) : Kept tidy (q.add u) where
  toBooks := Books.broadcastChanged
    { h.toBooks with
      order := by
        change q.accepted ++ [u] = q.started ++ q.discarded ++ (q.mWorkUnits ++ [u])
        rw [h.order, List.append_assoc _ q.mWorkUnits]
      emptied := by simp [hc]
      staffed := fun ht _ _ => hthreads ht
      worked := fun ht hs => by
        have hsettled := h.worked ht hs
        simp [Settled, hf, hc] at hsettled
      left := by simp [h.joined_eq_false hf] }
  awake hw := absurd hw (not_waiting_wake _)
  throttled c hmem hs := by
    obtain ⟨hfull, hcancel⟩ := h.throttled c hmem hs
    exact ⟨Nat.le_trans hfull (by simp [WorkQueue.add, WorkQueue.broadcastChanged]), hcancel⟩

theorem Kept.cancelLocked : Kept tidy q.cancelLocked := by
  rw [WorkQueue.cancelLocked]
  split_ifs with hstop
  · exact h
  · have hbooks : Books tidy { q with
        mCanceled := true
        mWorkUnits := []
        discarded := q.discarded ++ q.mWorkUnits } :=
      { h.toBooks with
        order := by
          rw [h.order, List.append_nil, List.append_assoc]
        emptied := fun _ => rfl
        kept := nofun
        staffed := fun ht hj hne => h.staffed ht hj (.inr (hne.resolve_left fun hunits => hunits rfl))
        worked := fun _ _ => .inl rfl
        left := fun _ _ => rfl }
    refine { hbooks.broadcastChanged with
      staffed := fun ht hj hne => hbooks.broadcastChanged.staffed ht hj (hne.imp_right ?_)
      awake := fun hw => absurd hw (not_waiting_wake _)
      throttled := fun c hmem hs => ?_ }
    · exact fun hmap hnone => hmap (List.map_eq_nil_iff.mpr hnone)
    · obtain ⟨c, -, rfl⟩ := List.mem_map.mp hmem
      cases hs

theorem Kept.finish : Kept tidy q.finish := by
  rw [WorkQueue.finish]
  split_ifs with hf
  · exact h
  · have hbooks : Books tidy { q with mFinished := true } :=
      { h.toBooks with
        closed := fun hj => ⟨rfl, (h.closed hj).2⟩
        worked := fun ht hs => (h.worked ht hs).imp_right fun hw => ⟨rfl, hw.2⟩ }
    exact ⟨hbooks.broadcastChanged, fun hw => absurd hw (not_waiting_wake _), h.throttled⟩

theorem Kept.spawn (hf : q.mFinished = false)
    (hroom : q.mWorkThreads.length < q.mMaxThreads) :
    Kept tidy { q with
      mWorkThreads := q.mWorkThreads ++ [.ready]
      mIdleThreads := q.mIdleThreads + 1 } := by
  have hready : (q.mWorkThreads ++ [Worker.ready]).filterMap Worker.workUnit? = q.running := by
    rw [List.filterMap_append]
    exact List.append_nil _
  exact
    { h with
      taken := by
        rw [running, hready]
        exact h.taken
      threads := by
        rw [List.length_append]
        exact hroom
      idle := fun hj => by
        rw [running, hready, List.length_append, ← h.idle hj]
        exact Nat.add_right_comm _ _ _
      closed := by simp [h.joined_eq_false hf]
      staffed := by simp
      worked := fun ht hs => h.worked ht (by simpa using hs)
      awake := fun hw => h.awake (by simpa using hw) }

theorem Kept.schedule (u : U) (backlog : ℕ) (started : Bool) :
    Kept tidy (q.schedule u backlog started) := by
  rw [WorkQueue.schedule]
  by_cases hstop : (q.mFinished || q.mCanceled) = true
  · rwa [if_pos hstop]
  rw [if_neg hstop]
  obtain ⟨hf, hc⟩ : q.mFinished = false ∧ q.mCanceled = false := by simpa using hstop
  split_ifs with hroom hstarted hfull
  · exact (h.spawn hf hroom.1).add hf hc (by simp) u
  · exact h
  all_goals
    -- no thread is started, so there are some
    have hthreads : tidy → q.mWorkThreads ≠ [] := fun ht hnone => by
      have hmax := h.positive ht
      have hidle := h.idle (h.joined_eq_false hf)
      rw [hnone, List.length_nil] at hidle hroom
      omega
  · refine { h with staffed := fun ht _ _ => hthreads ht, throttled := fun c hmem hs => ?_ }
    obtain hmem | hmem := List.mem_append.mp hmem
    · exact h.throttled c hmem hs
    · cases List.mem_singleton.mp hmem
      exact ⟨hfull.2, hc⟩
  · exact h.add hf hc hthreads u

theorem Kept.retry (hstep : q.retry i = some q') : Kept tidy q' := by
  rw [WorkQueue.retry] at hstep
  split at hstep
  case h_2 => cases hstep
  case h_1 u backlog hi =>
    have hcallers : q.callers ≠ [] := fun hnone => by simp [hnone] at hi
    cases hstep
    have herase : Kept tidy { q with callers := q.callers.eraseIdx i } :=
      { h with
        staffed := fun ht hj _ => h.staffed ht hj (.inr hcallers)
        throttled := fun c hmem => h.throttled c (List.mem_of_mem_eraseIdx hmem) }
    split_ifs with hstop hfull
    · exact herase
    all_goals obtain ⟨hf, hc⟩ : q.mFinished = false ∧ q.mCanceled = false := by simpa using hstop
    · refine { h with
        staffed := fun ht hj _ => h.staffed ht hj (.inr hcallers)
        throttled := fun c hmem hs => ?_ }
      obtain hmem | rfl := List.mem_or_eq_of_mem_set hmem
      · exact h.throttled c hmem hs
      · exact ⟨hfull, hc⟩
    · exact herase.add hf hc (fun ht => h.staffed ht (h.joined_eq_false hf) (.inr hcallers)) u

/-- A thread that runs no unit afterwards. -/
theorem Kept.set {w v : Worker U} (hi : q.mWorkThreads[i]? = some w)
    (hv : v.workUnit? = none)
    (hsleep : v = .waiting → q.mWorkUnits = [] ∧ q.mCanceled = false ∧ q.mFinished = false)
    (hstop : tidy → v = .stopped → q.Settled) :
    Kept tidy { q with
      mIdleThreads := q.mIdleThreads + w.workUnit?.toList.length
      mWorkThreads := q.mWorkThreads.set i v
      completed := q.completed ++ w.workUnit?.toList } := by
  have hperm : ((q.mWorkThreads.set i v).filterMap Worker.workUnit? ++ w.workUnit?.toList).Perm
      q.running := by
    have hset := (set_perm hi v).filterMap Worker.workUnit?
    rw [List.filterMap_cons_none hv] at hset
    cases hw : w.workUnit? with
    | none => simpa [hw, running] using hset
    | some u => exact (List.perm_append_singleton u _).trans (by simpa [hw, running] using hset)
  have hopen : q.joined = false := by
    by_contra hj
    simp [(h.closed (by simpa using hj)).2] at hi
  exact
    { h with
      taken := by
        refine h.taken.trans ((hperm.symm.append_left _).trans ?_)
        rw [List.append_assoc]
        exact List.perm_append_comm.append_left _
      threads := by simpa using h.threads
      idle := fun _ => by
        have hlen := hperm.length_eq
        have hidle := h.idle hopen
        rw [List.length_append] at hlen
        change q.mIdleThreads + w.workUnit?.toList.length +
          ((q.mWorkThreads.set i v).filterMap Worker.workUnit?).length = (q.mWorkThreads.set i v).length
        rw [List.length_set]
        omega
      closed := by simp [hopen]
      staffed := fun ht hj hne => by simpa using h.staffed ht hj hne
      worked := fun ht hs => by
        obtain hmem | heq := List.mem_or_eq_of_mem_set hs
        · exact h.worked ht hmem
        · exact hstop ht heq.symm
      awake := fun hmem => by
        obtain hmem | heq := List.mem_or_eq_of_mem_set hmem
        · exact h.awake hmem
        · exact hsleep heq.symm }

theorem Kept.rest {w v : Worker U} (hi : q.mWorkThreads[i]? = some w)
    (hw : w.workUnit? = none) (hv : v.workUnit? = none)
    (hsleep : v = .waiting → q.mWorkUnits = [] ∧ q.mCanceled = false ∧ q.mFinished = false)
    (hstop : tidy → v = .stopped → q.Settled) :
    Kept tidy { q with mWorkThreads := q.mWorkThreads.set i v } := by
  simpa [hw] using h.set hi hv hsleep hstop

theorem Kept.look (hstep : q.look i = some q') : Kept tidy q' := by
  rw [WorkQueue.look] at hstep
  split at hstep
  case h_2 => cases hstep
  case h_1 hi =>
    have hopen : q.joined = false := by
      by_contra hj
      simp [(h.closed (by simpa using hj)).2] at hi
    cases hstep
    by_cases hc : q.mCanceled = true
    · rw [if_pos hc]
      exact h.rest hi rfl (v := .stopped) rfl nofun fun _ _ => .inl hc
    rw [if_neg hc]
    have hc : q.mCanceled = false := by simpa using hc
    split
    case h_1 u us hunits =>
      have hperm : ((q.mWorkThreads.set i (.running u)).filterMap Worker.workUnit?).Perm
          (u :: q.running) :=
        (set_perm hi (.running u)).filterMap Worker.workUnit?
      have hthreads : q.mWorkThreads ≠ [] := fun hnone => by simp [hnone] at hi
      have hbooks : Books tidy { q with
          mWorkUnits := us
          mIdleThreads := q.mIdleThreads - 1
          mWorkThreads := q.mWorkThreads.set i (.running u)
          started := q.started ++ [u] } :=
        { h.toBooks with
          order := by
            rw [h.order, hunits, h.kept hc, List.append_nil, List.append_nil, List.append_assoc]
            rfl
          emptied := by simp [hc]
          taken := (List.perm_append_singleton u _).trans <| (h.taken.cons u).trans <|
            List.perm_middle.symm.trans (hperm.symm.append_left _)
          threads := by simpa using h.threads
          idle := fun _ => by
            have hidle := h.idle hopen
            have hlen := hperm.length_eq
            have hle := List.length_filterMap_le Worker.workUnit? (q.mWorkThreads.set i (.running u))
            rw [hlen, List.length_set, List.length_cons] at hle
            change q.mIdleThreads - 1 +
              ((q.mWorkThreads.set i (.running u)).filterMap Worker.workUnit?).length =
                (q.mWorkThreads.set i (.running u)).length
            rw [List.length_set, hlen, List.length_cons]
            omega
          closed := by simp [hopen]
          staffed := fun _ _ _ => by simpa using hthreads
          worked := fun ht hs => by
            have hmem := (List.mem_or_eq_of_mem_set hs).resolve_right nofun
            have hsettled := h.worked ht hmem
            simp [Settled, hc, hunits] at hsettled
          left := by simp [hopen] }
      refine { hbooks with
        staffed := fun _ _ _ => by simpa [broadcastDequeued] using hthreads
        awake := fun hmem => ?_
        throttled := fun c hmem hs => ?_ }
      · have hmem := (List.mem_or_eq_of_mem_set hmem).resolve_right nofun
        exact absurd (hunits.symm.trans (h.awake hmem).1) (List.cons_ne_nil _ _)
      · obtain ⟨c, -, rfl⟩ := List.mem_map.mp hmem
        cases hs
    case h_2 hunits =>
      split_ifs with hf
      · exact h.rest hi rfl (v := .stopped) rfl nofun fun _ _ => .inr ⟨hf, hunits⟩
      · exact h.rest hi rfl (v := .waiting) rfl (fun _ => ⟨hunits, hc, by simpa using hf⟩) nofun

/-- After `finish` was called `cancelLocked` does nothing: a unit whose run returns false then ends
its thread, and no unit is to be pending. -/
def Continues (q : WorkQueue U) : Event U → Prop
  | .endRun _ shouldContinue =>
    shouldContinue = true ∨ q.mFinished = false ∨ q.mCanceled = true ∨ q.mWorkUnits = []
  | _ => True

theorem Kept.endRun {shouldContinue : Bool}
    (hok : tidy → q.Continues (.endRun i shouldContinue))
    (hstep : q.endRun i shouldContinue = some q') : Kept tidy q' := by
  rw [WorkQueue.endRun] at hstep
  split at hstep
  case h_2 => cases hstep
  case h_1 u hi =>
    cases hstep
    split_ifs with hcontinue
    · exact h.set hi (v := .ready) rfl nofun nofun
    by_cases hstop : (q.mFinished || q.mCanceled) = true
    · rw [WorkQueue.cancelLocked, if_pos hstop]
      refine h.set hi (v := .stopped) rfl nofun fun ht _ => ?_
      obtain hcontinue' | hf | hc | hunits := hok ht
      · exact absurd hcontinue' hcontinue
      · exact .inl (by simpa [hf] using hstop)
      · exact .inl hc
      · obtain hf | hc : q.mFinished = true ∨ q.mCanceled = true := by simpa using hstop
        · exact .inr ⟨hf, hunits⟩
        · exact .inl hc
    · -- the unit is over before the queue is canceled, but the order does not matter
      have hcancel := h.cancelLocked
      rw [WorkQueue.cancelLocked, if_neg hstop] at hcancel ⊢
      have hset := hcancel.set (i := i) (w := .running u) (v := .stopped)
        (by simp [broadcastDequeued, WorkQueue.broadcastChanged, hi, Worker.wake]) rfl nofun
        fun _ _ => .inl rfl
      simpa [broadcastDequeued, WorkQueue.broadcastChanged, List.map_set, Worker.wake,
        Worker.workUnit?] using hset

theorem Kept.join (hstep : q.join = some q') : Kept tidy q' := by
  rw [WorkQueue.join] at hstep
  split_ifs at hstep with hjoin
  cases hstep
  simp only [Bool.and_eq_true, Bool.not_eq_true', List.all_eq_true] at hjoin
  have hall (w : Worker U) (hw : w ∈ q.mWorkThreads) : w = .stopped := by
    have hstopped := hjoin.2 w hw
    cases w with
    | stopped => rfl
    | _ => cases hstopped
  have hnone : q.running = [] := List.filterMap_eq_nil_iff.mpr fun w hw => hall w hw ▸ rfl
  exact
    { h with
      taken := by
        have htaken := h.taken
        rw [hnone] at htaken
        exact htaken
      threads := Nat.zero_le _
      idle := nofun
      closed := fun _ => ⟨hjoin.1.1, rfl⟩
      staffed := nofun
      worked := nofun
      left := fun ht _ => by
        by_contra hunits
        obtain ⟨w, hw⟩ := List.exists_mem_of_ne_nil _ (h.staffed ht hjoin.1.2 (.inl hunits))
        exact hunits ((h.worked ht (hall w hw ▸ hw)).elim h.emptied And.right)
      awake := nofun }

theorem Kept.step {e : Event U} (hok : tidy → q.Continues e)
    (hstep : q.step e = some q') : Kept tidy q' := by
  cases e with
  | schedule u backlog started =>
    cases hstep
    exact h.schedule u backlog started
  | retry i => exact h.retry hstep
  | cancel =>
    cases hstep
    exact h.cancelLocked
  | finish =>
    cases hstep
    exact h.finish
  | join => exact h.join hstep
  | look i => exact h.look hstep
  | endRun i shouldContinue => exact h.endRun hok hstep
  | wakeThread i =>
    rw [WorkQueue.step] at hstep
    split at hstep <;> cases hstep
    rename_i hi
    exact h.rest hi rfl (v := .ready) rfl nofun nofun
  | wakeCaller i =>
    obtain ⟨c, hi, rfl⟩ := Option.map_eq_some_iff.mp hstep
    refine { h with
      staffed := fun ht hj hne => h.staffed ht hj (hne.imp_right ?_)
      throttled := fun c' hmem hs => ?_ }
    · exact fun hset hnone => hset (by rw [hnone, List.set_nil])
    · obtain hmem | rfl := List.mem_or_eq_of_mem_set hmem
      · exact h.throttled c' hmem hs
      · cases hs

end Steps

variable {wordBits mMaxThreads : ℕ} {es : List (Event U)} {q : WorkQueue U}

theorem kept_run (hrun : run step { wordBits, mMaxThreads } es = some q) : Kept False q :=
  run_invariant (fun _ _ _ hstep h => h.step nofun hstep) hrun (kept_init False.elim)

/-- Whatever the order of the calls, the threads and the wakes: units start in the order of the
calls that returned OK, each is pending, running, deleted after its run or deleted by `cancel`, never
two of these; no more threads than asked for, `mIdleThreads` counts those that run no unit, no thread
sleeps while there is something to do for it, and no call is throttled that has room. -/
theorem workQueue_kept (hrun : run step { wordBits, mMaxThreads } es = some q) :
    (q.accepted = q.started ++ q.discarded ++ q.mWorkUnits ∧
      q.accepted.Perm (q.completed ++ q.running ++ q.discarded ++ q.mWorkUnits)) ∧
    (q.mWorkThreads.length ≤ q.mMaxThreads ∧
      (q.joined = false → q.mIdleThreads + q.running.length = q.mWorkThreads.length)) ∧
    (.waiting ∈ q.mWorkThreads → q.mWorkUnits = [] ∧ q.mCanceled = false ∧ q.mFinished = false) ∧
    ∀ c ∈ q.callers, c.asleep = true → q.Full c.backlog ∧ q.mCanceled = false := by
  have h := kept_run hrun
  refine ⟨⟨h.order, ?_⟩, ⟨h.threads, h.idle⟩, h.awake, h.throttled⟩
  rw [h.order]
  exact (h.taken.append_right _).append_right _

/-- One unit runs and the other, still pending, is deleted. -/
theorem workQueue_kept_two :
    ∃ q : WorkQueue ℕ, run step { wordBits := 32, mMaxThreads := 1 }
      [.schedule 7 2 true, .look 0, .schedule 8 2 true, .cancel] = some q ∧
      q.accepted = q.started ++ q.discarded ++ q.mWorkUnits :=
  (Option.isSome_iff_exists.mp rfl).imp fun _ hrun => ⟨hrun, (workQueue_kept hrun).1.1⟩

/-! ## The end of `finish` -/

/-- When `finish` has returned, every unit of a call that returned OK has been run to its end or
deleted by `cancel`, and without a `cancel` all of them have been run, in their order. -/
theorem finish_completes (hmax : 0 < mMaxThreads)
    (hrun : run step { wordBits, mMaxThreads } es = some q)
    (hok : Along step Continues { wordBits, mMaxThreads } es) (hjoined : q.joined = true) :
    q.accepted.Perm (q.completed ++ q.discarded) ∧
      (q.mCanceled = false → q.started = q.accepted ∧ q.completed.Perm q.accepted) := by
  have h : Kept True q :=
    run_invariant_along (fun _ _ _ hok hstep h => h.step (fun _ => hok) hstep) hok hrun (kept_init fun _ => hmax)
  have horder := h.order
  have htaken := h.taken
  rw [h.left trivial hjoined, List.append_nil] at horder
  rw [running, (h.closed hjoined).2, List.filterMap_nil, List.append_nil] at htaken
  refine ⟨horder ▸ htaken.append_right _, fun hcancel => ?_⟩
  rw [h.kept hcancel, List.append_nil] at horder
  exact ⟨horder.symm, horder ▸ htaken.symm⟩

/-- Two units on one thread, the second scheduled while the first runs. -/
theorem finish_completes_two :
    ∃ q : WorkQueue ℕ, q.joined = true ∧ q.completed = [7, 8] ∧
      q.accepted.Perm (q.completed ++ q.discarded) := by
  let es : List (Event ℕ) := [.schedule 7 2 true, .look 0, .schedule 8 2 true, .finish, .endRun 0 true,
    .look 0, .endRun 0 true, .look 0, .join]
  refine ⟨_, rfl, rfl, (@finish_completes ℕ 32 1 es _ Nat.one_pos rfl ?_ rfl).1⟩
  simp [es, Along, step, Continues]

/-- The steps of a thread until it returns, without another unit. -/
def threadWeight : Worker U → ℕ
  | .ready | .waiting => 2
  | .running _ => 3
  | .stopped => 0

/-- The steps of the threads that are left once `finish` was called. -/
def weight (q : WorkQueue U) : ℕ := 2 * q.mWorkUnits.length + (q.mWorkThreads.map threadWeight).sum

/-- A step of a thread of the pool. -/
def Event.isWork : Event U → Bool
  | .look _ | .endRun _ _ => true
  | _ => false

theorem sum_set {ws : List (Worker U)} {i : ℕ} {w : Worker U} (h : ws[i]? = some w) (w' : Worker U) :
    threadWeight w + ((ws.set i w').map threadWeight).sum =
      threadWeight w' + (ws.map threadWeight).sum :=
  ((set_perm h w').map threadWeight).sum_nat

/-- Once `finish` was called it stays so, every step of a thread lowers the weight and no other
step raises it. -/
theorem Kept.weight_step {tidy : Prop} {e : Event U} {q q' : WorkQueue U} (h : Kept tidy q)
    (hf : q.mFinished = true) (hstep : q.step e = some q') :
    q'.mFinished = true ∧ q'.weight + (if e.isWork then 1 else 0) ≤ q.weight := by
  have hstop : (q.mFinished || q.mCanceled) = true := by rw [hf, Bool.true_or]
  cases e with
  | schedule | cancel | finish =>
    cases hstep
    simp [WorkQueue.schedule, WorkQueue.cancelLocked, WorkQueue.finish, Event.isWork, hf]
  | retry i =>
    simp only [WorkQueue.step, WorkQueue.retry, if_pos hstop] at hstep
    split at hstep <;> cases hstep
    exact ⟨hf, Nat.le_refl _⟩
  | join =>
    rw [WorkQueue.step, WorkQueue.join] at hstep
    split_ifs at hstep
    cases hstep
    exact ⟨hf, Nat.le_add_right _ _⟩
  | look i =>
    simp only [WorkQueue.step, WorkQueue.look, if_pos hf] at hstep
    split at hstep <;> cases hstep
    rename_i hi
    have hstopped := sum_set hi .stopped
    simp only [threadWeight] at hstopped
    simp only [Event.isWork, if_true, weight]
    split_ifs
    · exact ⟨hf, by simp only; omega⟩
    split
    case h_1 u us hunits =>
      have hrunning := sum_set hi (.running u)
      simp only [broadcastDequeued, threadWeight, hunits, List.length_cons] at hrunning ⊢
      exact ⟨hf, by omega⟩
    case h_2 => exact ⟨hf, by simp only; omega⟩
  | endRun i shouldContinue =>
    simp only [WorkQueue.step, WorkQueue.endRun, WorkQueue.cancelLocked, if_pos hstop] at hstep
    split at hstep <;> cases hstep
    rename_i hi
    have hready := sum_set hi .ready
    have hstopped := sum_set hi .stopped
    simp only [threadWeight] at hready hstopped
    simp only [Event.isWork, if_true, weight]
    split_ifs <;> exact ⟨hf, by simp only; omega⟩
  | wakeThread i =>
    rw [WorkQueue.step] at hstep
    split at hstep <;> cases hstep
    rename_i hi
    exact absurd ((h.awake (List.mem_of_getElem? hi)).2.2.symm.trans hf) Bool.false_ne_true
  | wakeCaller i =>
    obtain ⟨c, hi, rfl⟩ := Option.map_eq_some_iff.mp hstep
    exact ⟨hf, Nat.le_refl _⟩

/-- `finish` does not wait for ever: from its call on, the threads take at most `weight` more steps
whatever comes between, and until it can return some thread can take one, whatever its unit returns. -/
theorem finish_ends {q' : WorkQueue U} {es' : List (Event U)}
    (hrun : run step { wordBits, mMaxThreads } es = some q) (hf : q.mFinished = true)
    (hrest : run step q es' = some q') :
    es'.countP Event.isWork ≤ q.weight ∧
      (q'.joined = true ∨ (∃ q'', q'.step .join = some q'') ∨
        ∃ i, (∃ q'', q'.step (.look i) = some q'') ∨ ∀ b, ∃ q'', q'.step (.endRun i b) = some q'') := by
  have h := kept_run hrun
  clear hrun
  induction es' generalizing q with
  | nil =>
    cases hrest
    refine ⟨Nat.zero_le _, ?_⟩
    by_cases hall : q'.mWorkThreads.all Worker.isStopped = true
    · cases hj : q'.joined with
      | true => exact .inl rfl
      | false => exact .inr (.inl ⟨_, if_pos (by simp [hf, hj, hall])⟩)
    · obtain ⟨w, hw, hrunning⟩ : ∃ w ∈ q'.mWorkThreads, w.isStopped = false := by simpa using hall
      obtain ⟨i, hi⟩ := List.getElem?_of_mem hw
      refine .inr (.inr ⟨i, ?_⟩)
      cases w with
      | ready => exact .inl ⟨_, by simp only [step, look, hi]; rfl⟩
      | waiting => exact absurd ((h.awake hw).2.2.symm.trans hf) Bool.false_ne_true
      | running u => exact .inr fun b => ⟨_, by simp only [step, endRun, hi]; rfl⟩
      | stopped => cases hrunning
  | cons e es' ih =>
    obtain ⟨m, hm, hrest⟩ := run_cons_some.mp hrest
    obtain ⟨hf', hweight⟩ := h.weight_step hf hm
    obtain ⟨hcount, hend⟩ := ih hf' hrest (h.step nofun hm)
    refine ⟨?_, hend⟩
    rw [List.countP_cons]
    omega

theorem finish_ends_one :
    ([.look 0, .endRun 0 true, .look 0, .join] : List (Event ℕ)).countP Event.isWork ≤ 4 :=
  (@finish_ends ℕ 32 1 [.schedule 7 2 true, .finish] _ _ _ rfl rfl rfl).1

end WorkQueue

end AudioFlinger.Utils
