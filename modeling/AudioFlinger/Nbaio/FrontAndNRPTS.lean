import AudioFlinger.Foundation.Machine
import AudioFlinger.Foundation.SequenceNumber

/-!
# The pair published by the reader of a `MonoPipe`

The reader publishes `mFront` together with the time stamp of its next read
under a sequence number; the other side observes both without a lock. One
updater and one observer interleave store by store and load by load.
-/

namespace AudioFlinger.Nbaio

open Foundation SequenceNumber Machine

/-- `int64_t` time stamps. -/
abbrev Pts := BitVec 64

structure FrontAndNRPTS where
  mUpdateSeq : U32
  mFront : U32
  mNextRdPTS : Pts
  deriving DecidableEq, Repr

/-! ## The updater -/

/-- The next store of `updateFrontAndNRPTS`, after its first. -/
inductive Updater
  | storeFront (newFront : U32) (newNextRdPTS : Pts) (tmp : U32)
  | storeNextRdPTS (newNextRdPTS : Pts) (tmp : U32)
  | storeSeq (tmp : U32)
  deriving DecidableEq, Repr

/-- The call of `updateFrontAndNRPTS` up to its first store. -/
def FrontAndNRPTS.beginUpdate (v : FrontAndNRPTS) (newFront : U32) (newNextRdPTS : Pts) :
    FrontAndNRPTS × Updater :=
  ({ v with mUpdateSeq := v.mUpdateSeq ||| 0x80000000#32 },
    .storeFront newFront newNextRdPTS (v.mUpdateSeq ||| 0x80000000#32))

def FrontAndNRPTS.update (v : FrontAndNRPTS) : Updater → FrontAndNRPTS × Option Updater
  | .storeFront newFront newNextRdPTS tmp =>
    ({ v with mFront := newFront }, some (.storeNextRdPTS newNextRdPTS tmp))
  | .storeNextRdPTS newNextRdPTS tmp =>
    ({ v with mNextRdPTS := newNextRdPTS }, some (.storeSeq tmp))
  | .storeSeq tmp => ({ v with mUpdateSeq := (tmp + 1#32) &&& 0x7FFFFFFF#32 }, none)

/-! ## The observer -/

/-- The next load of `observeFrontAndNRPTS`. -/
inductive Observer
  | loadSeqOne
  | loadFront (seqOne : U32)
  | loadNextRdPTS (seqOne outFront : U32)
  | loadSeqTwo (seqOne outFront : U32) (outNextRdPTS : Pts)
  deriving DecidableEq, Repr

/-- A load; after the last one the loop either starts again or ends with the pair. -/
def FrontAndNRPTS.observe (v : FrontAndNRPTS) : Observer → Observer ⊕ (U32 × Pts)
  | .loadSeqOne => .inl (.loadFront v.mUpdateSeq)
  | .loadFront seqOne => .inl (.loadNextRdPTS seqOne v.mFront)
  | .loadNextRdPTS seqOne outFront => .inl (.loadSeqTwo seqOne outFront v.mNextRdPTS)
  | .loadSeqTwo seqOne outFront outNextRdPTS =>
    if seqOne ≠ v.mUpdateSeq ∨ seqOne &&& 0x80000000#32 ≠ 0 then .inl .loadSeqOne
    else .inr (outFront, outNextRdPTS)

/-! ## Both together -/

/-- A pair returned, with the number of updates completed at the two loads of the sequence
number. -/
structure Observation where
  outFront : U32
  outNextRdPTS : Pts
  seqOneAt : ℕ
  seqTwoAt : ℕ
  deriving DecidableEq, Repr

structure Publication where
  shared : FrontAndNRPTS
  updater : Option Updater
  observer : Option Observer
  /-- The arguments of the update under way. -/
  pending : U32 × Pts
  /-- The initial pair and the pair of each completed update. -/
  history : List (U32 × Pts)
  completed : ℕ
  /-- The number of updates completed when the observer last loaded `seqOne`. -/
  seqOneAt : ℕ
  returned : List Observation
  deriving DecidableEq, Repr

inductive PublicationEvent
  | update (newFront : U32) (newNextRdPTS : Pts)
  | store
  | observe
  | load

def Publication.start (v : FrontAndNRPTS) : Publication where
  shared := v
  updater := none
  observer := none
  pending := (v.mFront, v.mNextRdPTS)
  history := [(v.mFront, v.mNextRdPTS)]
  completed := 0
  seqOneAt := 0
  returned := []

/-- The store of the updater, which is complete after the last one. -/
def Publication.store (s : Publication) (u : Updater) : Publication :=
  match s.shared.update u with
  | (v, some u') => { s with shared := v, updater := some u' }
  | (v, none) =>
    { s with
      shared := v
      updater := none
      history := s.history ++ [s.pending]
      completed := s.completed + 1 }

def Publication.load (s : Publication) (o : Observer) : Publication :=
  match s.shared.observe o with
  | .inl o' =>
    { s with
      observer := some o'
      seqOneAt := if o = .loadSeqOne then s.completed else s.seqOneAt }
  | .inr (outFront, outNextRdPTS) =>
    { s with
      observer := none
      returned := s.returned ++ [⟨outFront, outNextRdPTS, s.seqOneAt, s.completed⟩] }

def publicationStep (s : Publication) : PublicationEvent → Option Publication
  | .update newFront newNextRdPTS =>
    match s.updater with
    | none =>
      some { s with
        shared := (s.shared.beginUpdate newFront newNextRdPTS).1
        updater := some (s.shared.beginUpdate newFront newNextRdPTS).2
        pending := (newFront, newNextRdPTS) }
    | some _ => none
  | .store => s.updater.map s.store
  | .observe => if s.observer = none then some { s with observer := some .loadSeqOne } else none
  | .load => s.observer.map s.load

/-! ## The invariant -/

/-- What the updater has stored so far, `n` being the number of the update before. -/
def Updater.Stored (u : Updater) (n : ℕ) (v : FrontAndNRPTS) (pending : U32 × Pts) : Prop :=
  match u with
  | .storeFront newFront newNextRdPTS tmp => tmp = locked 31 n ∧ (newFront, newNextRdPTS) = pending
  | .storeNextRdPTS newNextRdPTS tmp => tmp = locked 31 n ∧ (v.mFront, newNextRdPTS) = pending
  | .storeSeq tmp => tmp = locked 31 n ∧ (v.mFront, v.mNextRdPTS) = pending

/-- No update has been under way since the observer loaded `seqOne`. -/
def Publication.Quiet (s : Publication) : Prop := s.seqOneAt = s.completed ∧ s.updater = none

/-- What the observer has loaded so far is right as long as no update has come between. -/
def Observer.Loaded (o : Observer) (n : ℕ) (quiet : Prop) (pair : Option (U32 × Pts)) : Prop :=
  match o with
  | .loadSeqOne => True
  | .loadFront seqOne => seqOne = unlocked 31 n ∨ seqOne = locked 31 n
  | .loadNextRdPTS seqOne outFront =>
    (seqOne = unlocked 31 n ∨ seqOne = locked 31 n) ∧
      (quiet → pair.map Prod.fst = some outFront)
  | .loadSeqTwo seqOne outFront outNextRdPTS =>
    (seqOne = unlocked 31 n ∨ seqOne = locked 31 n) ∧
      (quiet → pair = some (outFront, outNextRdPTS))

structure Consistent (first : ℕ) (s : Publication) : Prop where
  length : s.history.length = s.completed + 1
  idle : s.updater = none →
    s.shared.mUpdateSeq = unlocked 31 (first + s.completed) ∧
      s.history[s.completed]? = some (s.shared.mFront, s.shared.mNextRdPTS)
  busy : ∀ u, s.updater = some u →
    s.shared.mUpdateSeq = locked 31 (first + s.completed) ∧
      u.Stored (first + s.completed) s.shared s.pending
  since : s.seqOneAt ≤ s.completed
  observer : ∀ o, s.observer = some o →
    o.Loaded (first + s.seqOneAt) s.Quiet s.history[s.seqOneAt]?
  returned : ∀ o ∈ s.returned, o.seqTwoAt - o.seqOneAt < 2 ^ 31 →
    s.history[o.seqOneAt]? = some (o.outFront, o.outNextRdPTS)

theorem Observer.Loaded.imp {o : Observer} {n : ℕ} {quiet quiet' : Prop}
    {pair pair' : Option (U32 × Pts)} (h : o.Loaded n quiet pair)
    (himp : quiet' → quiet ∧ pair' = pair) : o.Loaded n quiet' pair' := by
  cases o with
  | loadSeqOne => trivial
  | loadFront seqOne => exact h
  | loadNextRdPTS seqOne outFront =>
    refine ⟨h.1, fun hq => ?_⟩
    rw [(himp hq).2]
    exact h.2 (himp hq).1
  | loadSeqTwo seqOne outFront outNextRdPTS =>
    refine ⟨h.1, fun hq => ?_⟩
    rw [(himp hq).2]
    exact h.2 (himp hq).1

/-- The publication starts with any number that is not flagged. -/
theorem consistent_start (v : FrontAndNRPTS) (hv : v.mUpdateSeq.toNat < 2 ^ 31) :
    Consistent v.mUpdateSeq.toNat (Publication.start v) where
  length := rfl
  idle := by
    intro _
    refine ⟨?_, rfl⟩
    apply BitVec.eq_of_toNat_eq
    rw [toNat_unlocked]
    exact (Nat.mod_eq_of_lt hv).symm
  busy := by simp [Publication.start]
  since := le_refl 0
  observer := by simp [Publication.start]
  returned := by simp [Publication.start]

section Step

variable {first : ℕ} {s : Publication}

variable (h : Consistent first s)

include h

/-- While an update is under way the word is flagged, and no observer is quiet. -/
theorem Consistent.underway {v : FrontAndNRPTS} {u : Updater}
    {pending : U32 × Pts} (hseq : v.mUpdateSeq = locked 31 (first + s.completed))
    (hstored : u.Stored (first + s.completed) v pending) :
    Consistent first { s with shared := v, updater := some u, pending := pending } :=
  { h with
    idle := by simp
    busy := by
      intro u' hu'
      cases hu'
      exact ⟨hseq, hstored⟩
    observer := fun o ho => (h.observer o ho).imp fun hq => by simp [Publication.Quiet] at hq }

theorem Consistent.beginUpdate (hidle : s.updater = none)
    (newFront : U32) (newNextRdPTS : Pts) :
    Consistent first { s with
      shared := (s.shared.beginUpdate newFront newNextRdPTS).1
      updater := some (s.shared.beginUpdate newFront newNextRdPTS).2
      pending := (newFront, newNextRdPTS) } := by
  have hlock : s.shared.mUpdateSeq ||| 0x80000000#32 = locked 31 (first + s.completed) := by
    rw [(h.idle hidle).1]
    rfl
  exact h.underway hlock ⟨hlock, rfl⟩

theorem Consistent.store {u : Updater} (hu : s.updater = some u) :
    Consistent first (s.store u) := by
  obtain ⟨hseq, hstored⟩ := h.busy u hu
  cases u with
  | storeFront newFront newNextRdPTS tmp =>
    exact h.underway (v := { s.shared with mFront := newFront })
      (u := .storeNextRdPTS newNextRdPTS tmp) hseq hstored
  | storeNextRdPTS newNextRdPTS tmp =>
    exact h.underway (v := { s.shared with mNextRdPTS := newNextRdPTS }) (u := .storeSeq tmp) hseq
      hstored
  | storeSeq tmp =>
    obtain ⟨htmp, hpair⟩ := hstored
    have hlen := h.length
    have hsince := h.since
    -- the pairs of earlier updates keep their places
    have hold (n : ℕ) (hn : n ≤ s.completed) :
        (s.history ++ [s.pending])[n]? = s.history[n]? :=
      List.getElem?_append_left (by omega)
    exact
      { length := by simp [Publication.store, FrontAndNRPTS.update, hlen]
        idle := by
          intro _
          refine ⟨?_, ?_⟩
          · simp only [Publication.store, FrontAndNRPTS.update, htmp]
            rw [← Nat.add_assoc]
            exact locked_close _
          · simp only [Publication.store, FrontAndNRPTS.update]
            rw [List.getElem?_append_right (by omega), hlen, Nat.sub_self, ← hpair]
            rfl
        busy := by simp [Publication.store, FrontAndNRPTS.update]
        since := by
          simp only [Publication.store, FrontAndNRPTS.update]
          omega
        observer := fun o ho => (h.observer o ho).imp fun hq => by
          simp only [Publication.Quiet, Publication.store, FrontAndNRPTS.update] at hq
          omega
        returned := by
          intro o ho hperiod
          have hpair := h.returned o ho hperiod
          have hlt : o.seqOneAt < s.history.length := by
            by_contra hge
            simp [List.getElem?_eq_none (not_lt.mp hge)] at hpair
          simp only [Publication.store, FrontAndNRPTS.update]
          rw [hold _ (by omega)]
          exact hpair }

/-- The number loaded now is that of the last completed update, flagged or not. -/
theorem Consistent.seq :
    s.shared.mUpdateSeq = unlocked 31 (first + s.completed) ∨
      s.shared.mUpdateSeq = locked 31 (first + s.completed) := by
  cases hu : s.updater with
  | none => exact Or.inl (h.idle hu).1
  | some u => exact Or.inr (h.busy u hu).1

/-- Equal unflagged numbers within a period mean that nothing came between. -/
theorem Consistent.quiet {seqOne : U32}
    (hone : seqOne = unlocked 31 (first + s.seqOneAt) ∨ seqOne = locked 31 (first + s.seqOneAt))
    (heq : seqOne = s.shared.mUpdateSeq) (hflag : seqOne &&& 0x80000000#32 = 0)
    (hperiod : s.completed - s.seqOneAt < 2 ^ 31) : s.Quiet := by
  have hunlocked : seqOne = unlocked 31 (first + s.seqOneAt) := by
    refine hone.resolve_right fun hlocked => ?_
    rw [hlocked] at hflag
    exact locked_and_flag _ hflag
  have hidle : s.updater = none := by
    cases hu : s.updater with
    | none => rfl
    | some u =>
      rw [heq, (h.busy u hu).1] at hflag
      exact absurd hflag (locked_and_flag _)
  refine ⟨?_, hidle⟩
  have hsince := h.since
  have hsame := heq.symm.trans hunlocked
  rw [(h.idle hidle).1] at hsame
  have hinj := unlocked_inj (w := 31) (by omega) (by omega) hsame.symm
  omega

/-- While all is quiet the shared pair is the one of the last completed update. -/
theorem Consistent.current (hq : s.Quiet) :
    s.history[s.seqOneAt]? = some (s.shared.mFront, s.shared.mNextRdPTS) := by
  rw [hq.1]
  exact (h.idle hq.2).2

theorem Consistent.load {o : Observer} (ho : s.observer = some o) :
    Consistent first (s.load o) := by
  have hloaded := h.observer o ho
  cases o with
  | loadSeqOne =>
    exact
      { h with
        since := le_refl _
        observer := by
          intro o' ho'
          cases ho'
          exact h.seq }
  | loadFront seqOne =>
    have hload : s.load (.loadFront seqOne) =
        { s with observer := some (.loadNextRdPTS seqOne s.shared.mFront) } := rfl
    rw [hload]
    exact
      { h with
        observer := by
          intro o' ho'
          cases ho'
          refine ⟨hloaded, fun hq => ?_⟩
          rw [h.current hq]
          rfl }
  | loadNextRdPTS seqOne outFront =>
    have hload : s.load (.loadNextRdPTS seqOne outFront) =
        { s with observer := some (.loadSeqTwo seqOne outFront s.shared.mNextRdPTS) } := rfl
    rw [hload]
    exact
      { h with
        observer := by
          intro o' ho'
          cases ho'
          refine ⟨hloaded.1, fun hq => ?_⟩
          have hfront := hloaded.2 hq
          rw [h.current hq] at hfront ⊢
          cases hfront
          rfl }
  | loadSeqTwo seqOne outFront outNextRdPTS =>
    by_cases hretry : seqOne ≠ s.shared.mUpdateSeq ∨ seqOne &&& 0x80000000#32 ≠ 0
    · have hload : s.load (.loadSeqTwo seqOne outFront outNextRdPTS) =
          { s with observer := some .loadSeqOne } := by
        simp only [Publication.load, FrontAndNRPTS.observe, if_pos hretry]
        rfl
      rw [hload]
      exact
        { h with
          observer := by
            intro o' ho'
            cases ho'
            trivial }
    · have hload : s.load (.loadSeqTwo seqOne outFront outNextRdPTS) =
          { s with
            observer := none
            returned := s.returned ++ [⟨outFront, outNextRdPTS, s.seqOneAt, s.completed⟩] } := by
        simp only [Publication.load, FrontAndNRPTS.observe, if_neg hretry]
      rw [hload]
      push Not at hretry
      exact
        { h with
          observer := by simp
          returned := by
            intro r hr hperiod
            rcases List.mem_append.mp hr with hold | hnew
            · exact h.returned r hold hperiod
            · rw [List.mem_singleton] at hnew
              subst hnew
              exact hloaded.2 (h.quiet hloaded.1 hretry.1 hretry.2 hperiod) }

end Step

theorem consistent_step (first : ℕ) (s : Publication) (e : PublicationEvent) (s' : Publication)
    (hstep : publicationStep s e = some s') (h : Consistent first s) : Consistent first s' := by
  cases e with
  | update newFront newNextRdPTS =>
    simp only [publicationStep] at hstep
    split at hstep
    · cases hstep
      exact h.beginUpdate ‹_› newFront newNextRdPTS
    · cases hstep
  | store =>
    obtain ⟨u, hu, rfl⟩ := Option.map_eq_some_iff.mp hstep
    exact h.store hu
  | observe =>
    simp only [publicationStep, Option.ite_none_right_eq_some] at hstep
    obtain ⟨-, hs⟩ := hstep
    cases hs
    exact
      { h with
        observer := by
          intro o ho
          cases ho
          trivial }
  | load =>
    obtain ⟨o, ho, rfl⟩ := Option.map_eq_some_iff.mp hstep
    exact h.load ho

/-- Whatever the interleaving, an observation that takes less than a period of the sequence
number returns the pair of the last update completed when it began. -/
theorem observe_consistent (v : FrontAndNRPTS) (hv : v.mUpdateSeq.toNat < 2 ^ 31)
    (es : List PublicationEvent) (s : Publication)
    (hrun : run publicationStep (Publication.start v) es = some s) (o : Observation)
    (ho : o ∈ s.returned) (hperiod : o.seqTwoAt - o.seqOneAt < 2 ^ 31) :
    s.history[o.seqOneAt]? = some (o.outFront, o.outNextRdPTS) := by
  have h : Consistent v.mUpdateSeq.toNat s :=
    run_invariant (consistent_step v.mUpdateSeq.toNat) hrun (consistent_start v hv)
  exact h.returned o ho hperiod

/-- An observation that meets an update on its way, across the wrap of the number. -/
def observeTwice : List PublicationEvent :=
  [.observe, .load, .load, .update 5 6, .store, .load, .load, .store, .store, .load, .load, .load,
    .load]

theorem observe_consistent_observeTwice : ∃ s,
    run publicationStep (Publication.start ⟨0x7FFFFFFF#32, 1#32, 2#64⟩) observeTwice = some s ∧
      s.shared.mUpdateSeq = 0#32 ∧ s.returned = [⟨5#32, 6#64, 1, 1⟩] ∧
      s.history[1]? = some (5#32, 6#64) :=
  ⟨_, rfl, by decide, by decide,
    observe_consistent ⟨0x7FFFFFFF#32, 1#32, 2#64⟩ (by decide) observeTwice _ rfl
      ⟨5#32, 6#64, 1, 1⟩ (by decide) (by decide)⟩

end AudioFlinger.Nbaio
