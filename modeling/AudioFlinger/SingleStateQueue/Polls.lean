import AudioFlinger.SingleStateQueue.Model

/-!
# Polls return whole values, in order

While the mutator rests, the shared value is that of the last complete push,
and the words that the observer has copied since the number it loaded are the
words of that push as long as no other has come between. Two equal even
numbers less than a period apart show that none has.
-/

namespace AudioFlinger.SingleStateQueue

open Foundation EvenOdd Machine

variable {W : ℕ} {α : Type*}

/-! ## The invariant -/

/-- The pushes complete when the last successful poll took its value. -/
def Queue.acked (q : Queue W α) : ℕ :=
  match q.delivered with
  | [] => 0
  | d :: _ => d.pushes

/-- The pushes begun, the one under way included. -/
def Queue.begun (q : Queue W α) : ℕ :=
  match q.push with
  | none => q.pushed.length
  | some _ => q.pushed.length + 1

/-- The value of the push with the number `n`, counted from one. -/
def Queue.valueOf (q : Queue W α) (n : ℕ) : Option (Value W α) := (q.pushed[n - 1]?).map Prod.fst

/-- What holds at each place of `poll`. -/
def Polling.Holds (q : Queue W α) : Polling W α → Prop
  | .enter => q.snapshot = q.found
  | .reload _ => q.snapshot = q.found ∧ q.acked < q.begun
  | .copy before _ temp todo =>
    q.snapshot = q.found ∧ before = resting 30 q.loadedAt ∧ q.acked < q.loadedAt ∧
      q.enteredAt ≤ q.loadedAt ∧ q.loadedAt ≤ q.pushed.length ∧
      (q.loadedAt = q.pushed.length → q.push = none → ∀ i, i ∉ todo → temp i = q.shared.mValue i)
  | .acknowledge before =>
    before = resting 30 q.loadedAt ∧ q.acked < q.loadedAt ∧ q.loadedAt ≤ q.pushed.length ∧
      q.valueOf q.loadedAt = some q.value

structure Consistent (q : Queue W α) : Prop where
  mutator : q.mutator = resting 30 q.pushed.length
  idle : q.push = none → q.shared.mSequence = resting 30 q.pushed.length ∧
    (0 < q.pushed.length → q.valueOf q.pushed.length = some q.shared.mValue)
  busy : ∀ p, q.push = some p → q.shared.mSequence = moving 30 q.pushed.length ∧
    p.sequence = moving 30 q.pushed.length ∧ ∀ i, i ∉ p.todo → q.shared.mValue i = p.value i
  numbered : ∀ k p, q.pushed[k]? = some p → p.2 = resting 30 (k + 1)
  mAck : q.shared.mAck = resting 30 q.acked
  observer : q.observer = resting 30 q.acked
  delivered : ∀ d ∈ q.delivered,
    0 < d.pushes ∧ d.pushes ≤ q.pushed.length ∧ q.valueOf d.pushes = some d.value
  ordered : (q.delivered.map Delivery.pushes).Pairwise (· > ·)
  refused : ∀ r ∈ q.refused, r.1 = r.2
  enteredAt : q.enteredAt ≤ q.pushed.length
  poll : ∀ o, q.poll = some o → o.Holds q

theorem consistent_start (mem value : Value W α) : Consistent (Queue.start mem value) where
  mutator := rfl
  idle := fun _ => ⟨rfl, fun h => absurd h (lt_irrefl 0)⟩
  busy := nofun
  numbered := by simp [Queue.start]
  mAck := rfl
  observer := rfl
  delivered := by simp [Queue.start]
  ordered := List.Pairwise.nil
  refused := by simp [Queue.start]
  enteredAt := le_refl 0
  poll := nofun

section Step

variable {q : Queue W α}

theorem Consistent.acked_le (h : Consistent q) : q.acked ≤ q.pushed.length := by
  unfold Queue.acked
  split
  · exact Nat.zero_le _
  · rename_i d ds hd
    exact (h.delivered d (by rw [hd]; exact List.mem_cons_self)).2.1

theorem Queue.length_le_begun (q : Queue W α) : q.pushed.length ≤ q.begun := by
  unfold Queue.begun
  split <;> omega

/-- The number in the shared memory tells the complete pushes and whether one is under way. -/
theorem Consistent.resting_iff (h : Consistent q) :
    q.shared.mSequence &&& 1 = 0 ↔ q.push = none := by
  constructor
  · intro heven
    cases hp : q.push with
    | none => rfl
    | some p =>
      rw [(h.busy p hp).1] at heven
      exact absurd heven (moving_odd _)
  · intro hidle
    rw [(h.idle hidle).1]
    exact resting_even _

/-! ## The mutator -/

/-- What the mutator's steps leave alone. -/
structure SameObserver (q q' : Queue W α) : Prop where
  mAck : q'.shared.mAck = q.shared.mAck
  observer : q'.observer = q.observer
  poll : q'.poll = q.poll
  value : q'.value = q.value
  delivered : q'.delivered = q.delivered
  refused : q'.refused = q.refused
  found : q'.found = q.found
  enteredAt : q'.enteredAt = q.enteredAt
  loadedAt : q'.loadedAt = q.loadedAt

theorem SameObserver.acked {q' : Queue W α} (same : SameObserver q q') : q'.acked = q.acked := by
  simp only [Queue.acked, same.delivered]

theorem SameObserver.snapshot {q' : Queue W α} (same : SameObserver q q') :
    q'.snapshot = q.snapshot := by
  simp only [Queue.snapshot, same.value, same.observer, same.mAck]

theorem valueOf_append {q' : Queue W α} {new : List (Value W α × U32)}
    (hpushed : q'.pushed = q.pushed ++ new) {n : ℕ} (hpos : 0 < n) (hn : n ≤ q.pushed.length) :
    q'.valueOf n = q.valueOf n := by
  rw [Queue.valueOf, Queue.valueOf, hpushed, List.getElem?_append_left (by omega)]

/-- The observer's side of the invariant survives a step of the mutator. -/
theorem Polling.Holds.mutate {q' : Queue W α} {new : List (Value W α × U32)} {o : Polling W α}
    (h : o.Holds q) (same : SameObserver q q') (hpushed : q'.pushed = q.pushed ++ new)
    (hbegun : q.begun ≤ q'.begun)
    (hquiet : q'.push = none → q'.pushed.length = q.pushed.length → q.push = none ∧
      q'.shared.mValue = q.shared.mValue) : o.Holds q' := by
  have hlen : q.pushed.length ≤ q'.pushed.length := by
    rw [hpushed, List.length_append]
    omega
  cases o with
  | enter => exact (same.snapshot.trans h).trans same.found.symm
  | reload tries =>
    refine ⟨(same.snapshot.trans h.1).trans same.found.symm, ?_⟩
    rw [same.acked]
    exact lt_of_lt_of_le h.2 hbegun
  | copy before tries temp todo =>
    obtain ⟨hfound, hbefore, hacked, hentered, hloaded, hcopied⟩ := h
    simp only [Polling.Holds, same.acked, same.loadedAt, same.enteredAt]
    refine ⟨(same.snapshot.trans hfound).trans same.found.symm, hbefore, hacked, hentered,
      hloaded.trans hlen, fun hnow hidle => ?_⟩
    obtain ⟨hrest, hvalue⟩ := hquiet hidle (by omega)
    rw [hvalue]
    exact hcopied (by omega) hrest
  | acknowledge before =>
    obtain ⟨hbefore, hacked, hloaded, hvalue⟩ := h
    simp only [Polling.Holds, same.acked, same.loadedAt, same.value]
    refine ⟨hbefore, hacked, hloaded.trans hlen, ?_⟩
    rw [valueOf_append hpushed (by omega) hloaded]
    exact hvalue

variable (h : Consistent q)

include h

theorem Consistent.beginPush (hidle : q.push = none) (value : Value W α) :
    Consistent (q.beginPush value) := by
  have hnext : q.mutator + 1 = moving 30 q.pushed.length := by
    rw [h.mutator]
    exact resting_add_one _
  exact
    { h with
      idle := nofun
      busy := by
        intro p hp
        cases hp
        exact ⟨hnext, hnext, fun i hi => absurd (List.mem_finRange i) hi⟩
      poll := fun o ho => @Polling.Holds.mutate _ _ _ _ [] _ (h.poll o ho) ⟨rfl, rfl, rfl, rfl, rfl, rfl, rfl, rfl, rfl⟩
        (List.append_nil _).symm (by simp [Queue.begun, hidle, Queue.beginPush])
        (fun hp _ => nomatch hp) }

theorem Consistent.storeWord {p : Pushing W α} (hp : q.push = some p)
    (i : Fin W) : Consistent (q.storeWord p i) := by
  obtain ⟨hseq, hnumber, hstored⟩ := h.busy p hp
  exact
    { h with
      idle := nofun
      busy := by
        intro p' hp'
        cases hp'
        refine ⟨hseq, hnumber, fun j hj => ?_⟩
        simp only [Queue.storeWord]
        by_cases hji : j = i
        · rw [hji, Function.update_self]
        · rw [Function.update_of_ne hji]
          exact hstored j fun hmem => hj ((List.mem_erase_of_ne hji).mpr hmem)
      poll := fun o ho => @Polling.Holds.mutate _ _ _ _ [] _ (h.poll o ho) ⟨rfl, rfl, rfl, rfl, rfl, rfl, rfl, rfl, rfl⟩
        (List.append_nil _).symm (by simp [Queue.begun, hp, Queue.storeWord])
        (fun hidle _ => nomatch hidle) }

theorem Consistent.publish {p : Pushing W α} (hp : q.push = some p)
    (hdone : p.todo = []) : Consistent (q.publish p) := by
  obtain ⟨hseq, hnumber, hstored⟩ := h.busy p hp
  have hnext : p.sequence + 1 = resting 30 (q.pushed.length + 1) := by
    rw [hnumber]
    exact moving_add_one _
  have hwhole : q.shared.mValue = p.value := funext fun i => hstored i (by simp [hdone])
  have hlen : (q.publish p).pushed.length = q.pushed.length + 1 := by simp [Queue.publish]
  have hlast : (q.publish p).valueOf (q.pushed.length + 1) = some p.value := by
    simp [Queue.valueOf, Queue.publish]
  exact
    { mutator := by
        rw [hlen]
        exact hnext
      idle := fun _ => by
        rw [hlen, hlast]
        exact ⟨hnext, fun _ => congrArg some hwhole.symm⟩
      busy := nofun
      numbered := by
        intro k r hr
        simp only [Queue.publish, List.getElem?_append] at hr
        split at hr
        · exact h.numbered k r hr
        · rename_i hk
          obtain ⟨hlt, hr⟩ := List.getElem?_eq_some_iff.mp hr
          have hkeq : k = q.pushed.length := by
            simp only [List.length_singleton] at hlt
            lia
          subst hkeq
          simp only [Nat.sub_self, List.getElem_cons_zero] at hr
          rw [← hr]
          exact hnext
      mAck := h.mAck
      observer := h.observer
      delivered := by
        intro d hd
        obtain ⟨hpos, hle, hvalue⟩ := h.delivered d hd
        refine ⟨hpos, by lia, ?_⟩
        rw [valueOf_append rfl hpos hle]
        exact hvalue
      ordered := h.ordered
      refused := h.refused
      enteredAt := by
        rw [hlen]
        exact h.enteredAt.trans (Nat.le_succ _)
      poll := fun o ho => (h.poll o ho).mutate ⟨rfl, rfl, rfl, rfl, rfl, rfl, rfl, rfl, rfl⟩ rfl
        (by simp [Queue.begun, hp, Queue.publish]) (fun _ hsame => by lia) }

/-! ## The observer -/

theorem Consistent.refuse (hfound : q.snapshot = q.found) :
    Consistent q.refuse :=
  { h with
    refused := by
      intro r hr
      rcases List.mem_cons.mp hr with rfl | hold
      · exact hfound.symm
      · exact h.refused r hold
    poll := nofun }

/-- After a load of the number the loop waits for an odd one and copies behind an even one. -/
theorem Consistent.examine (hfound : q.snapshot = q.found)
    (hnew : q.acked < q.begun) (hloaded : q.loadedAt = q.pushed.length) (tries : ℕ) :
    Consistent (q.examine q.shared.mSequence tries) := by
  unfold Queue.examine
  split_ifs with hodd hlast
  · exact h.refuse hfound
  · exact
      { h with
        poll := by
          intro o ho
          cases ho
          exact ⟨hfound, hnew⟩ }
  · have hidle : q.push = none := h.resting_iff.mp (not_not.mp hodd)
    have hlt : q.acked < q.pushed.length := by
      simpa only [Queue.begun, hidle] using hnew
    exact
      { h with
        poll := by
          intro o ho
          cases ho
          have hbefore : q.shared.mSequence = resting 30 q.loadedAt := by
            rw [hloaded]
            exact (h.idle hidle).1
          exact ⟨hfound, hbefore, hlt.trans_eq hloaded.symm, h.enteredAt.trans_eq hloaded.symm,
            hloaded.le, fun _ _ i hi => absurd (List.mem_finRange i) hi⟩ }

/-- Equal even numbers within a period mean that no push came between. -/
theorem Consistent.compare_eq {before : U32} {tries : ℕ} {temp : Value W α}
    (hcopy : (Polling.copy before tries temp []).Holds q)
    (hperiod : q.pushed.length - q.enteredAt < 2 ^ 30) (heq : q.shared.mSequence = before) :
    q.push = none ∧ q.loadedAt = q.pushed.length ∧ temp = q.shared.mValue := by
  obtain ⟨-, hbefore, -, hentered, hloaded, hcopied⟩ := hcopy
  have hidle : q.push = none := by
    apply h.resting_iff.mp
    rw [heq, hbefore]
    exact resting_even _
  have hsame : resting 30 q.loadedAt = resting 30 q.pushed.length := by
    rw [← hbefore, ← heq]
    exact (h.idle hidle).1
  have hnow := resting_inj hloaded (by omega) hsame
  exact ⟨hidle, hnow, funext fun i => hcopied hnow hidle i (List.not_mem_nil)⟩

theorem Consistent.compare {before : U32} {tries : ℕ} {temp : Value W α}
    (hcopy : (Polling.copy before tries temp []).Holds q)
    (hperiod : q.pushed.length - q.enteredAt < 2 ^ 30) :
    Consistent (q.noteLoad.compare before tries temp) := by
  have hnoted : Consistent { q.noteLoad with poll := none } := { h with poll := nofun }
  unfold Queue.compare
  split_ifs with heq hlast
  · obtain ⟨hidle, hnow, hwhole⟩ := h.compare_eq hcopy hperiod heq
    obtain ⟨-, hbefore, hacked, -, hloaded, -⟩ := hcopy
    have hlast := (h.idle hidle).2 (by omega)
    exact
      { hnoted with
        poll := by
          intro o ho
          cases ho
          refine ⟨hbefore.trans (congrArg _ hnow), hacked.trans_eq hnow, le_refl _, ?_⟩
          exact hlast.trans (congrArg some hwhole.symm) }
  · exact hnoted.refuse hcopy.1
  · have hacked : q.acked < q.begun := by
      have hbegun := q.length_le_begun
      have hbefore := hcopy.2.2.1
      have hloaded := hcopy.2.2.2.2.1
      omega
    exact hnoted.examine hcopy.1 hacked rfl (tries + 1)

/-- A number other than the last one returned comes from a push that was not returned. -/
theorem Consistent.acked_lt_begun (hne : q.shared.mSequence ≠ q.observer) :
    q.acked < q.begun := by
  have hle := h.acked_le
  unfold Queue.begun
  split
  · rename_i hidle
    apply lt_of_le_of_ne hle
    intro heq
    rw [(h.idle hidle).1, h.observer, heq] at hne
    exact hne rfl
  · omega

theorem Consistent.loadSequence (hperiod : ∀ before tries temp,
      q.poll = some (.copy before tries temp []) → q.pushed.length - q.enteredAt < 2 ^ 30)
    {q' : Queue W α} (hq' : q.loadSequence = some q') : Consistent q' := by
  unfold Queue.loadSequence at hq'
  split at hq'
  · rename_i henter
    have hfound : q.snapshot = q.found := h.poll _ henter
    have hnoted : Consistent { q.noteEntry with poll := none } :=
      { h with
        enteredAt := le_refl _
        poll := nofun }
    split_ifs at hq' with heq <;> cases hq'
    · exact hnoted.refuse hfound
    · exact hnoted.examine hfound (h.acked_lt_begun heq) rfl 0
  · rename_i tries hreload
    obtain ⟨hfound, hnew⟩ := h.poll _ hreload
    have hnoted : Consistent { q.noteLoad with poll := none } := { h with poll := nofun }
    cases hq'
    exact hnoted.examine hfound hnew rfl tries
  · rename_i before tries temp hcopy
    cases hq'
    exact h.compare (h.poll _ hcopy) (hperiod before tries temp hcopy)
  · cases hq'

theorem Consistent.loadWord {i : Fin W} {q' : Queue W α}
    (hq' : q.loadWord i = some q') : Consistent q' := by
  unfold Queue.loadWord at hq'
  split at hq'
  · rename_i before tries temp todo hcopy
    obtain ⟨hfound, hbefore, hacked, hentered, hloaded, hcopied⟩ := h.poll _ hcopy
    simp only [Option.ite_none_right_eq_some] at hq'
    obtain ⟨hi, hq'⟩ := hq'
    cases hq'
    exact
      { h with
        poll := by
          intro o ho
          cases ho
          refine ⟨hfound, hbefore, hacked, hentered, hloaded, fun hnow hidle j hj => ?_⟩
          by_cases hji : j = i
          · rw [hji, Function.update_self]
          · rw [Function.update_of_ne hji]
            exact hcopied hnow hidle j fun hmem => hj ((List.mem_erase_of_ne hji).mpr hmem) }
  · cases hq'

theorem Consistent.storeAck {q' : Queue W α} (hq' : q.storeAck = some q') :
    Consistent q' := by
  unfold Queue.storeAck at hq'
  split at hq'
  · rename_i before hack
    obtain ⟨hbefore, hacked, hloaded, hvalue⟩ := h.poll _ hack
    cases hq'
    exact
      { h with
        mAck := hbefore
        observer := hbefore
        delivered := by
          intro d hd
          rcases List.mem_cons.mp hd with rfl | hold
          · exact ⟨Nat.zero_lt_of_lt hacked, hloaded, hvalue⟩
          · exact h.delivered d hold
        ordered := by
          rw [List.map_cons, List.pairwise_cons]
          refine ⟨fun n hn => ?_, h.ordered⟩
          have hmax : n ≤ q.acked := by
            have hord := h.ordered
            unfold Queue.acked
            cases hd : q.delivered with
            | nil => simp [hd] at hn
            | cons d ds =>
              rw [hd, List.map_cons, List.pairwise_cons] at hord
              rw [hd, List.map_cons] at hn
              rcases List.mem_cons.mp hn with rfl | hrest
              · exact le_refl _
              · exact (hord.1 n hrest).le
          exact lt_of_le_of_lt hmax hacked
        poll := nofun }
  · cases hq'

end Step

/-! ## Every run -/

/-- The poll has made its first load. -/
def Polling.entered : Polling W α → Bool
  | .enter => false
  | _ => true

/-- Fewer than `2 ^ 30` pushes come between two steps of one poll. -/
def Timely (q : Queue W α) : Event W α → Prop
  | .loadSequence | .loadWord _ | .storeAck =>
    q.poll.any Polling.entered = true → q.pushed.length - q.enteredAt < 2 ^ 30
  | _ => True

instance (q : Queue W α) : ∀ e, Decidable (Timely q e)
  | .loadSequence | .loadWord _ | .storeAck => inferInstanceAs (Decidable (_ → _))
  | .push _ | .storeWord _ | .publish | .poll => isTrue trivial

theorem consistent_step (q : Queue W α) (e : Event W α) (q' : Queue W α) (hok : Timely q e)
    (hstep : step q e = some q') (h : Consistent q) : Consistent q' := by
  cases e with
  | push value =>
    simp only [step, Option.ite_none_right_eq_some] at hstep
    obtain ⟨hidle, hq'⟩ := hstep
    cases hq'
    exact h.beginPush (Option.isNone_iff_eq_none.mp hidle) value
  | storeWord i =>
    simp only [step] at hstep
    split at hstep
    · simp only [Option.ite_none_right_eq_some] at hstep
      obtain ⟨-, hq'⟩ := hstep
      cases hq'
      exact h.storeWord ‹_› i
    · cases hstep
  | publish =>
    simp only [step] at hstep
    split at hstep
    · simp only [Option.ite_none_right_eq_some] at hstep
      obtain ⟨hdone, hq'⟩ := hstep
      cases hq'
      exact h.publish ‹_› hdone
    · cases hstep
  | poll =>
    simp only [step, Option.ite_none_right_eq_some] at hstep
    obtain ⟨-, hq'⟩ := hstep
    cases hq'
    exact
      { h with
        poll := by
          intro o ho
          cases ho
          rfl }
  | loadSequence =>
    apply h.loadSequence _ hstep
    intro before tries temp hcopy
    apply hok
    rw [hcopy]
    rfl
  | loadWord i => exact h.loadWord hstep
  | storeAck => exact h.storeAck hstep

/-- What the caller of either side may rely on. -/
structure Reliable (q : Queue W α) : Prop where
  /-- A poll that returned `true` gave the value of one complete push. -/
  whole : ∀ d ∈ q.delivered, ∃ k sequence,
    k < d.pushes ∧ d.pushes = k + 1 ∧ q.pushed[k]? = some (d.value, sequence)
  /-- Later polls gave later pushes. -/
  inOrder : (q.delivered.map Delivery.pushes).Pairwise (· > ·)
  /-- A poll that returned `false` changed nothing. -/
  refused : ∀ r ∈ q.refused, r.1 = r.2
  /-- `ack(sequence)` for one of the last `2 ^ 29` pushes. -/
  ackOf : q.pushed.length < q.acked + 2 ^ 30 → ∀ k value sequence,
    q.pushed[k]? = some (value, sequence) → q.pushed.length ≤ k + 2 ^ 29 →
      (q.ackOf sequence = true ↔ ∃ d ∈ q.delivered, k < d.pushes)
  /-- `ack()`. -/
  ack : q.pushed.length < q.acked + 2 ^ 30 → (q.ack = true ↔ q.acked = q.pushed.length)

theorem Consistent.lt_acked_iff {q : Queue W α} (h : Consistent q) (k : ℕ) :
    k < q.acked ↔ ∃ d ∈ q.delivered, k < d.pushes := by
  have hord := h.ordered
  unfold Queue.acked
  cases hd : q.delivered with
  | nil => simp
  | cons d ds =>
    rw [hd, List.map_cons, List.pairwise_cons] at hord
    constructor
    · exact fun hk => ⟨d, List.mem_cons_self, hk⟩
    · rintro ⟨d', hmem, hk⟩
      rcases List.mem_cons.mp hmem with rfl | hrest
      · exact hk
      · exact hk.trans (hord.1 _ (List.mem_map_of_mem hrest))

theorem Consistent.reliable {q : Queue W α} (h : Consistent q) : Reliable q where
  whole := by
    intro d hd
    obtain ⟨hpos, -, hvalue⟩ := h.delivered d hd
    obtain ⟨p, hp, hfst⟩ := Option.map_eq_some_iff.mp hvalue
    refine ⟨d.pushes - 1, p.2, by omega, by omega, ?_⟩
    rw [hp, ← hfst]
  inOrder := h.ordered
  refused := h.refused
  ackOf := by
    intro hrecent k value sequence hk hlate
    have hle := h.acked_le
    have hnumber : sequence = resting 30 (k + 1) := h.numbered k _ hk
    obtain ⟨hlt, -⟩ := List.getElem?_eq_some_iff.mp hk
    rw [← h.lt_acked_iff, Queue.ackOf, decide_eq_true_iff, h.mAck, hnumber,
      resting_sub_nonneg (by omega) (by omega)]
    exact Nat.succ_le_iff
  ack := by
    intro hrecent
    have hle := h.acked_le
    rw [Queue.ack, beq_iff_eq, h.mAck, h.mutator]
    constructor
    · intro hzero
      exact resting_inj hle (by omega) (BitVec.sub_eq_iff_eq_add.mp hzero |>.trans (BitVec.zero_add _))
    · intro heq
      rw [heq]
      exact BitVec.sub_self _

/-- Whatever the interleaving and across the wrap of the number, polls return whole values in
order, and acknowledgements are exact. -/
theorem singleStateQueue_reliable (mem value : Value W α) (es : List (Event W α)) (q : Queue W α)
    (hrun : run step (Queue.start mem value) es = some q)
    (htimely : Along step Timely (Queue.start mem value) es) : Reliable q := by
  have h : Consistent q :=
    run_invariant_along consistent_step htimely hrun (consistent_start mem value)
  exact h.reliable

/-- A poll meets two pushes on their way, the second one between two words of its copy. -/
def pollThroughPushes : List (Event 2 ℕ) :=
  [.push (fun i => i + 1), .poll, .loadSequence, .storeWord 1, .storeWord 0, .publish, .loadSequence,
    .loadWord 0, .push (fun i => i + 3), .storeWord 0, .loadWord 1, .loadSequence, .storeWord 1, .publish,
    .loadSequence, .loadWord 1, .loadWord 0, .loadSequence, .storeAck]

theorem singleStateQueue_reliable_pollThroughPushes : ∃ q,
    run step (Queue.start (fun _ => 0) fun _ => 0) pollThroughPushes = some q ∧
      q.delivered.map Delivery.pushes = [2] ∧ q.value 0 = 3 ∧ q.value 1 = 4 ∧ Reliable q :=
  ⟨_, rfl, by decide, by decide, by decide,
    singleStateQueue_reliable (fun _ => 0) (fun _ => 0) pollThroughPushes _ rfl (by decide)⟩

end AudioFlinger.SingleStateQueue
