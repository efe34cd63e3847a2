import AudioFlinger.StateQueue.Model
import Mathlib.Data.Nat.Basic

/-!
# The mutator never writes a state the observer still holds

With `n` states published and `a` of them acknowledged the mutator edits slot
`n % 4`, the observer holds slots `(a - 1) % 4` and `(a - 2) % 4`, and `push`
keeps `a ≤ n ≤ a + 1`. Four slots are enough for the three to be distinct, and
for a pointer to identify the publication it stands for.
-/

namespace AudioFlinger.StateQueue

open Foundation.Machine

variable {T : Type*}

/-- The slot of publication `n`, counted from zero. -/
def slot (n : ℕ) : Slot := ⟨n % kN, Nat.mod_lt n (by decide)⟩

/-- The pointer to the last of `n` published states. -/
def handle : ℕ → Option Slot
  | 0 => none
  | n + 1 => some (slot n)

/-- The record of a poll that returned the last of `n` published states. -/
def entry : ℕ → Option (Slot × ℕ)
  | 0 => none
  | n + 1 => some (slot n, n + 1)

theorem slot_ne_of_lt {i j : ℕ} (hlt : i < j) (hlap : j ≤ i + 3) : slot i ≠ slot j := by
  intro he
  have hv : i % 4 = j % 4 := congrArg Fin.val he
  omega

theorem nextSlot_slot (n : ℕ) : nextSlot (slot n) = slot (n + 1) := by
  apply Fin.ext
  rw [nextSlot_val]
  change (n % 4 + 1) % 4 = (n + 1) % 4
  omega

/-- Two handles at most one publication apart agree only on the same publication. -/
theorem handle_inj {a n : ℕ} (hle : a ≤ n) (hnext : n ≤ a + 1) (he : handle a = handle n) :
    a = n := by
  obtain rfl | rfl : n = a ∨ n = a + 1 := by omega
  · rfl
  · cases a with
    | zero => cases he
    | succ k =>
      have hs : slot k = slot (k + 1) := Option.some.inj he
      exact absurd hs (slot_ne_of_lt (by omega) (by omega))

/-- What `poll` has returned so far, when `a` publications are acknowledged. -/
structure PolledTo (polled : List (Slot × ℕ)) (a : ℕ) : Prop where
  current : polled.head? = entry a
  previous : previousOf polled = entry (a - 1)
  bounded : ∀ r ∈ polled, r.2 ≤ a
  ordered : polled.Pairwise fun newer older => older.2 ≤ newer.2

theorem polledTo_nil : PolledTo [] 0 where
  current := rfl
  previous := rfl
  bounded := by simp
  ordered := List.Pairwise.nil

/-- A poll that returns the state already held. -/
theorem PolledTo.again {polled : List (Slot × ℕ)} {k : ℕ} (h : PolledTo polled (k + 1)) :
    PolledTo ((slot k, k + 1) :: polled) (k + 1) where
  current := rfl
  previous := by
    obtain ⟨rs, rfl⟩ : ∃ rs, polled = (slot k, k + 1) :: rs := by
      have hcur := h.current
      cases polled with
      | nil => cases hcur
      | cons r rs => exact ⟨rs, by rw [Option.some.inj hcur]⟩
    rw [← h.previous]
    simp [previousOf]
  bounded := by
    intro r hr
    rcases List.mem_cons.mp hr with rfl | hr
    · exact le_rfl
    · exact h.bounded r hr
  ordered := List.pairwise_cons.mpr ⟨h.bounded, h.ordered⟩

/-- A poll that returns the next published state. -/
theorem PolledTo.next {polled : List (Slot × ℕ)} {a : ℕ} (h : PolledTo polled a) :
    PolledTo ((slot a, a + 1) :: polled) (a + 1) where
  current := rfl
  previous := by
    have hcur := h.current
    cases a with
    | zero =>
      rw [entry, List.head?_eq_none_iff] at hcur
      rw [hcur]
      rfl
    | succ k =>
      cases polled with
      | nil => cases hcur
      | cons r rs =>
        have hr : r = (slot k, k + 1) := Option.some.inj hcur
        have hne : slot k ≠ slot (k + 1) := slot_ne_of_lt (by omega) (by omega)
        simp [previousOf, hr, hne, entry]
  bounded := by
    intro r hr
    rcases List.mem_cons.mp hr with rfl | hr
    · exact le_rfl
    · exact Nat.le_succ_of_le (h.bounded r hr)
  ordered := by
    refine List.pairwise_cons.mpr ⟨fun r hr => ?_, h.ordered⟩
    exact Nat.le_succ_of_le (h.bounded r hr)

/-- The invariant that ties the cursor, the shared pointers and the observer together,
when `a` publications are acknowledged. -/
structure Inv (s : System T) (a : ℕ) : Prop where
  mutating : s.queue.mMutating = slot s.published.length
  next : s.queue.mNext = handle s.published.length
  ack : s.queue.mAck = handle a
  current : s.queue.mCurrent = handle a
  acked_le : a ≤ s.published.length
  pending_le : s.published.length ≤ a + 1
  /-- `mExpecting` is nulled only after its acknowledgement has been seen. -/
  expecting : s.queue.mExpecting = handle s.published.length ∨ a = s.published.length
  publishing : ∀ block, s.mutator = .publish block → a = s.published.length
  loaded : ∀ p, s.observer = .loaded p →
    p = handle s.published.length ∧ s.seen = s.published.length ∧ s.published.length = a + 1
  kept : ∀ j, j < s.published.length → s.published.length ≤ j + 3 →
    s.published[j]? = some (s.queue.mStates (slot j))
  polled : PolledTo s.polled a

theorem inv_init (memory : Slot → T) : Inv (System.init memory) 0 where
  mutating := rfl
  next := rfl
  ack := rfl
  current := rfl
  acked_le := le_rfl
  pending_le := Nat.zero_le 1
  expecting := Or.inl rfl
  publishing := by simp [System.init]
  loaded := by simp [System.init]
  kept := by simp [System.init]
  polled := polledTo_nil

/-- A wait loop that sees its acknowledgement knows that everything is acknowledged. -/
theorem Inv.acknowledged {s : System T} {a : ℕ} (h : Inv s a)
    (hack : s.queue.mAck = s.queue.mExpecting) : a = s.published.length := by
  rcases h.expecting with hex | hex
  · rw [h.ack, hex] at hack
    exact handle_inj h.acked_le h.pending_le hack
  · exact hex

/-- `push` goes straight to the store of `mNext` only when it expects nothing. -/
theorem pushEntry_publish {q : Queue T} {block b : Block} (h : q.pushEntry block = .publish b) :
    q.mExpecting = none := by
  unfold Queue.pushEntry Queue.pushTail at h
  by_contra hne
  simp only [ne_eq, hne, not_false_eq_true, if_true] at h
  split at h
  · cases h
  · split at h <;> cases h

theorem Inv.nothing_expected {s : System T} {a : ℕ} (h : Inv s a)
    (hnone : s.queue.mExpecting = none) : a = s.published.length := by
  rcases h.expecting with hex | hex
  · have hle := h.acked_le
    cases hn : s.published.length with
    | zero => omega
    | succ k =>
      rw [hnone, hn] at hex
      cases hex
  · exact hex

/-- Stores to the slot being mutated keep the three most recent publications. -/
theorem Inv.kept_update {s : System T} {a : ℕ} (h : Inv s a) (value : T) {j : ℕ}
    (hj : j < s.published.length) (hrecent : s.published.length ≤ j + 3) :
    s.published[j]? =
      some (Function.update s.queue.mStates s.queue.mMutating value (slot j)) := by
  have hne : slot j ≠ s.queue.mMutating := by
    rw [h.mutating]
    exact slot_ne_of_lt hj hrecent
  rw [Function.update_of_ne hne]
  exact h.kept j hj hrecent

theorem inv_publish {s : System T} {a : ℕ} (h : Inv s a) (block : Block)
    (hpc : s.mutator = .publish block) :
    Inv { s with
      queue := s.queue.publish
      mutator := .copy block
      published := s.published ++ [s.queue.mStates s.queue.mMutating] } a := by
  have ha : a = s.published.length := h.publishing block hpc
  have hlen (v : T) : (s.published ++ [v]).length = s.published.length + 1 := by simp
  refine
    { mutating := ?_, next := ?_, ack := h.ack, current := h.current, acked_le := ?_,
      pending_le := ?_, expecting := Or.inl ?_, publishing := ?_, loaded := ?_, kept := ?_,
      polled := h.polled }
  · simp only [Queue.publish, hlen]
    rw [h.mutating, nextSlot_slot]
  · simp only [Queue.publish, hlen]
    rw [h.mutating]
    rfl
  · simp only [hlen]
    omega
  · simp only [hlen]
    omega
  · simp only [Queue.publish, hlen]
    rw [h.mutating]
    rfl
  · intro b hb
    cases hb
  · intro p hp
    -- an observer that has loaded a newer state has not acknowledged it yet
    have hl := (h.loaded p hp).2.2
    omega
  · intro j hj hrecent
    simp only [hlen] at hj hrecent
    simp only [Queue.publish]
    by_cases hlast : j = s.published.length
    · subst hlast
      rw [List.getElem?_append_right le_rfl, Nat.sub_self, h.mutating]
      rfl
    · rw [List.getElem?_append_left (by omega)]
      exact h.kept j (by omega) (by omega)

/-- Each step of `push` keeps the invariant, with the same acknowledged publications. -/
theorem inv_pushStep {s s' : System T} {a : ℕ} (h : Inv s a) (hstep : s.pushStep = some s') :
    Inv s' a := by
  unfold System.pushStep at hstep
  cases hpc : s.mutator with
  | idle =>
    rw [hpc] at hstep
    cases hstep
  | awaitPrior block =>
    rw [hpc] at hstep
    simp only at hstep
    split at hstep
    · cases hstep
      exact { h with publishing := fun _ _ => h.acknowledged ‹_› }
    · split at hstep
      · cases hstep
        exact { h with publishing := by simp }
      · cases hstep
        exact h
  | publish block =>
    rw [hpc] at hstep
    cases hstep
    exact inv_publish h block hpc
  | copy block =>
    rw [hpc] at hstep
    simp only at hstep
    split at hstep
    · cases hstep
    · cases hstep
      refine { h with publishing := ?_, kept := fun j hj hr => h.kept_update _ hj hr }
      intro b hb
      simp only [Queue.pushTail] at hb
      split at hb <;> cases hb
  | awaitAck =>
    rw [hpc] at hstep
    simp only at hstep
    split at hstep
    · cases hstep
      exact { h with
        expecting := Or.inr (h.acknowledged ‹_›)
        publishing := by simp }
    · cases hstep
      exact h

/-- A poll that finds no newer state leaves the acknowledged publications as they are. -/
theorem inv_poll_same {s : System T} {a : ℕ} (h : Inv s a)
    (hsame : s.queue.mNext = s.queue.mCurrent) :
    Inv (s.return s.queue.mNext s.published.length) a := by
  have ha : a = s.published.length := by
    rw [h.next, h.current] at hsame
    exact handle_inj h.acked_le h.pending_le hsame.symm
  rw [h.next, ← ha]
  cases a with
  | zero => exact { h with loaded := by simp [System.return, handle] }
  | succ k =>
    exact { h with
      loaded := by simp [System.return, handle]
      polled := h.polled.again }

/-- The store of `mAck` acknowledges the one publication that was outstanding. -/
theorem inv_pollAck {s : System T} {a : ℕ} (h : Inv s a) {p : Option Slot}
    (hpc : s.observer = .loaded p) :
    Inv ({ s with queue := s.queue.acknowledge p }.return p s.seen) (a + 1) := by
  obtain ⟨rfl, hseen, hlen⟩ := h.loaded p hpc
  rw [hseen, hlen]
  exact
    { mutating := h.mutating
      next := h.next
      ack := rfl
      current := rfl
      acked_le := Nat.le_of_eq hlen.symm
      pending_le := Nat.le_succ_of_le (Nat.le_of_eq hlen)
      expecting := Or.inr hlen.symm
      publishing := fun _ _ => hlen.symm
      loaded := by simp [System.return, handle]
      kept := h.kept
      polled := h.polled.next }

/-- Every step of either thread keeps the invariant. -/
theorem inv_step (s : System T) (e : Event T) (s' : System T) (hstep : step s e = some s')
    (h : ∃ a, Inv s a) : ∃ a, Inv s' a := by
  obtain ⟨a, h⟩ := h
  cases e with
  | begin =>
    simp only [step, Option.ite_none_right_eq_some] at hstep
    obtain ⟨-, hs⟩ := hstep
    cases hs
    exact ⟨a, { h with }⟩
  | edit value =>
    simp only [step, Option.ite_none_right_eq_some] at hstep
    obtain ⟨-, hs⟩ := hstep
    cases hs
    exact ⟨a, { h with kept := fun j hj hr => h.kept_update value hj hr }⟩
  | endMutation didModify =>
    simp only [step, Option.ite_none_right_eq_some] at hstep
    obtain ⟨-, hs⟩ := hstep
    cases hs
    exact ⟨a, { h with }⟩
  | push block =>
    simp only [step, Option.ite_none_right_eq_some] at hstep
    obtain ⟨-, hs⟩ := hstep
    cases hs
    exact ⟨a, { h with publishing := fun _ hb => h.nothing_expected (pushEntry_publish hb) }⟩
  | mutator => exact ⟨a, inv_pushStep h hstep⟩
  | pollLoad =>
    simp only [step, Option.ite_none_right_eq_some] at hstep
    obtain ⟨-, hs⟩ := hstep
    split at hs
    · cases hs
      exact ⟨a, inv_poll_same h ‹_›⟩
    · cases hs
      refine ⟨a, { h with loaded := ?_ }⟩
      intro p hp
      cases hp
      have hne : s.queue.mNext ≠ s.queue.mCurrent := ‹_›
      rw [h.next, h.current] at hne
      have ha : a ≠ s.published.length := fun he => hne (by rw [he])
      have hlen : s.published.length = a + 1 := by
        have hle := h.acked_le
        have hpend := h.pending_le
        omega
      exact ⟨h.next, rfl, hlen⟩
  | pollAck =>
    simp only [step] at hstep
    split at hstep
    · cases hstep
    · cases hstep
      exact ⟨a + 1, inv_pollAck h ‹_›⟩

/-- Every reachable state satisfies the invariant. -/
theorem inv_run {memory : Slot → T} {es : List (Event T)} {s : System T}
    (hrun : run step (System.init memory) es = some s) : ∃ a, Inv s a :=
  run_invariant inv_step hrun ⟨0, inv_init memory⟩

/-- What the observer holds, in terms of the publications. -/
theorem Inv.held {s : System T} {a : ℕ} (h : Inv s a) {r : Slot × ℕ}
    (hr : s.current = some r ∨ s.previous = some r) :
    ∃ k, r = (slot k, k + 1) ∧ k < a ∧ a ≤ k + 2 := by
  have hentry {m : ℕ} (hm : entry m = some r) : ∃ k, r = (slot k, k + 1) ∧ m = k + 1 := by
    cases m with
    | zero => cases hm
    | succ k => exact ⟨k, (Option.some.inj hm).symm, rfl⟩
  rcases hr with hr | hr
  · obtain ⟨k, hk, hm⟩ := hentry (h.polled.current.symm.trans hr)
    exact ⟨k, hk, by omega, by omega⟩
  · obtain ⟨k, hk, hm⟩ := hentry (h.polled.previous.symm.trans hr)
    exact ⟨k, hk, by omega, by omega⟩

/-- No step writes a slot the observer holds through its last two distinct pointers. -/
theorem Inv.writes_ne {s : System T} {a : ℕ} (h : Inv s a) {e : Event T} {i : Slot}
    (hw : writes s e = some i) {r : Slot × ℕ}
    (hr : s.current = some r ∨ s.previous = some r) : r.1 ≠ i := by
  have hi : i = s.queue.mMutating := by
    cases e with
    | edit value => exact (Option.some.inj hw).symm
    | mutator =>
      simp only [writes] at hw
      split at hw
      · exact (Option.some.inj hw).symm
      · cases hw
    | _ => cases hw
  obtain ⟨k, rfl, hlt, hle⟩ := h.held hr
  have hpub := h.acked_le
  have hpend := h.pending_le
  rw [hi, h.mutating]
  exact slot_ne_of_lt (by omega) (by omega)

/-- The observer reads, through its last two distinct pointers, the contents that the states
behind them had when they were published. -/
theorem Inv.held_contents {s : System T} {a : ℕ} (h : Inv s a) {r : Slot × ℕ}
    (hr : s.current = some r ∨ s.previous = some r) :
    s.published[r.2 - 1]? = some (s.queue.mStates r.1) := by
  obtain ⟨k, rfl, hlt, hle⟩ := h.held hr
  have hpub := h.acked_le
  have hpend := h.pending_le
  exact h.kept k (by omega) (by omega)

/-- Safety of one mutator and one observer, over every interleaving of their steps: the mutator
writes neither of the last two distinct pointers returned by `poll`, the observer reads through
them what was published, and polls return publications in order. -/
theorem stateQueue_safe (memory : Slot → T) (es : List (Event T)) (s : System T)
    (hrun : run step (System.init memory) es = some s) :
    (∀ e s' i, step s e = some s' → writes s e = some i →
      ∀ r, s.current = some r ∨ s.previous = some r → r.1 ≠ i) ∧
    (∀ r, s.current = some r ∨ s.previous = some r →
      s.published[r.2 - 1]? = some (s.queue.mStates r.1)) ∧
    s.polled.Pairwise (fun newer older => older.2 ≤ newer.2) := by
  obtain ⟨a, h⟩ := inv_run hrun
  refine ⟨?_, ?_, h.polled.ordered⟩
  · intro e s' i _ hw r hr
    exact h.writes_ne hw hr
  · intro r hr
    exact h.held_contents hr

/-- Two pushes, the second published after the observer has acknowledged the first. -/
def twoPushes : List (Event ℕ) :=
  [.begin, .edit 7, .endMutation true, .push .never, .mutator, .mutator, .pollLoad, .pollAck,
    .begin, .edit 8, .endMutation true, .push .untilAcked, .mutator, .mutator, .mutator,
    .pollLoad, .pollAck, .mutator]

theorem stateQueue_safe_twoPushes : ∃ s,
    run step (System.init fun _ => 0) twoPushes = some s ∧
      s.current = some (slot 1, 2) ∧ s.previous = some (slot 0, 1) ∧
      (∀ r, s.current = some r ∨ s.previous = some r →
        s.published[r.2 - 1]? = some (s.queue.mStates r.1)) :=
  ⟨_, rfl, rfl, rfl, (stateQueue_safe (fun _ => 0) twoPushes _ rfl).2.1⟩

end AudioFlinger.StateQueue
