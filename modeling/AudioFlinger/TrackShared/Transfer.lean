import AudioFlinger.TrackShared.Refinement

/-!
# What a session without a loop transfers

The results for whole runs in both directions. A run whose calls are exact
loses, repeats and invents no frame, for every start value of the counters; a
run that reaches one of the inexact comparisons does.
-/

namespace AudioFlinger.TrackShared

open Foundation Counter RingMemory Machine

variable {α : Type*}

/-- The frames between the counters. -/
def Cblk.pending (c : Cblk) (isOut : Bool) : U32 :=
  if isOut then c.user - c.server else c.server - c.user

/-- The region of the consuming side. -/
def Session.consumer (s : Session α) (isOut : Bool) : Option Region :=
  if isOut then s.server else s.client

/-- The data buffer is a lossless queue: the consumer has taken a prefix of what was produced,
the counters are apart by the rest, and the consumer's region shows the next frames. -/
structure Faithful (isOut : Bool) (frameCount : U32) (s : Session α) : Prop where
  pending_le : (s.cblk.pending isOut).toNat ≤ frameCount.toNat
  available : (s.cblk.framesAvailable_l frameCount isOut).toNat =
    frameCount.toNat - (s.cblk.pending isOut).toNat
  order : s.consumed <+: s.produced
  backlog : s.produced.length = s.consumed.length + (s.cblk.pending isOut).toNat
  region : ∀ r, s.consumer isOut = some r →
    slice s.mem r.start.toNat r.frameCount.toNat =
      (s.produced.drop s.consumed.length).take r.frameCount.toNat

theorem Refines.pending {isOut : Bool} {b : ℕ} {N : U32} {s : Session α}
    {q : RingFifo α 0 N.toNat} (h : Refines isOut b N s q) :
    (s.cblk.pending isOut).toNat = q.size := by
  cases isOut with
  | true => exact size_toNat h.user h.server
  | false => exact size_toNat h.server h.user

theorem Refines.available {isOut : Bool} {b : ℕ} {N : U32} {s : Session α}
    {q : RingFifo α 0 N.toNat} (h : Refines isOut b N s q) :
    (s.cblk.framesAvailable_l N isOut).toNat = N.toNat - q.size := by
  cases isOut with
  | true =>
    rw [framesAvailable_out h.loopStart]
    exact room_toNat h.user h.server
  | false =>
    have hcomm : s.cblk.framesAvailable_l N false = s.cblk.user + N - s.cblk.server := by
      rw [BitVec.add_comm s.cblk.user N]
      rfl
    rw [hcomm]
    exact room_toNat h.server h.user

theorem Refines.consumer_at {isOut : Bool} {b : ℕ} {N : U32} {s : Session α}
    {q : RingFifo α 0 N.toNat} (h : Refines isOut b N s q) {r : Region}
    (hr : s.consumer isOut = some r) : r.At N.toNat q.got.length q.acquired := by
  cases isOut with
  | true => exact h.server_at r hr
  | false => exact h.client_at r hr

theorem Refines.faithful {isOut : Bool} {b : ℕ} {N : U32} {s : Session α}
    {q : RingFifo α 0 N.toNat} (h : Refines isOut b N s q) : Faithful isOut N s where
  pending_le := by
    rw [h.pending]
    exact q.size_le
  available := by
    rw [h.pending]
    exact h.available
  order := by
    rw [← h.put, ← h.got]
    exact q.got_prefix
  backlog := by
    have hgot := q.got_length_le
    rw [h.pending, ← h.put, ← h.got, RingFifo.size]
    omega
  region := by
    intro r hr
    have hat := h.consumer_at hr
    have hread := q.ringSlice_acquired 0 r.frameCount.toNat (by
      rw [Nat.zero_add]
      exact hat.le_held)
    rw [Nat.zero_add, Nat.add_zero, ringSlice_eq_slice hat.lap] at hread
    rw [hat.start, ← h.mem, ← h.put, ← h.got]
    exact hread

/-- Playback: with exact calls the track transfers every frame, and in every state reached
`framesReady` counts the frames between the counters exactly under `ReadyExact`. -/
theorem playback_faithful (frameCount b : U32) (mem : ℕ → α) (es : List (Event α))
    (s : Session α) (hrun : run (step frameCount true) (Session.start b mem) es = some s)
    (hex : Along (step frameCount true) (TransferExact frameCount true) (Session.start b mem) es) :
    Faithful true frameCount s ∧
      ∀ locked, s.cblk.framesReady true locked = s.cblk.user - s.cblk.server ↔
        ReadyExact s.cblk locked := by
  obtain ⟨q, h⟩ := refines_run hrun hex
  exact ⟨h.faithful, framesReady_eq_iff h.loopStart h.loopEnd⟩

/-- One frame through a buffer of sixteen, across the wrap of both counters. -/
def oneFrame : List (Event ℕ) :=
  [.obtainBuffer 1, .fill 0 [7], .stepUser 1, .getNextBuffer 1 true true, .releaseBuffer 1 true]

theorem playback_faithful_oneFrame : ∃ s,
    run (step 16#32 true) (Session.start UINT_MAX fun _ => 0) oneFrame = some s ∧
      s.cblk.server = 0#32 ∧ s.consumed = [7] ∧ Faithful true 16#32 s :=
  ⟨_, rfl, rfl, rfl,
    (playback_faithful 16#32 UINT_MAX (fun _ => 0) oneFrame _ rfl (by decide)).1⟩

/-- The step that ends at `UINT_MAX` is taken for a pass over the loop end. -/
def pastSentinel : List (Event ℕ) :=
  oneFrame ++ [.getNextBuffer 4 true true, .releaseBuffer 4 true]

/-- After it `loopCount` is negative, every request finds `UINT_MAX` frames ready, and the
server reads frames that were never written. -/
theorem playback_pastSentinel : ∃ s,
    run (step 16#32 true) (Session.start 0xFFFFFFFE#32 fun _ => 0) pastSentinel = some s ∧
      s.cblk.loopCount < 0 ∧ s.cblk.user - s.cblk.server = 0#32 ∧
      s.cblk.framesReady true true = UINT_MAX ∧
      s.produced = [7] ∧ s.consumed = [7, 0, 0, 0, 0] ∧ ¬ s.consumed <+: s.produced :=
  ⟨_, rfl, by decide, by decide, by decide, rfl, rfl, by decide⟩

/-- A record client steps by what it released exactly when the unsigned comparison with the
server does not take the step for one made after a reset. -/
theorem stepUser_record_iff (c : Cblk) (stepCount frameCount : U32) :
    (c.stepUser stepCount frameCount false).user = c.user + stepCount ↔
      c.user + stepCount ≤ c.server := by
  simp only [Cblk.stepUser, Cblk.nextUser, Bool.false_eq_true, if_false]
  split_ifs with hlt
  · have hne : c.server ≠ c.user + stepCount := BitVec.ne_of_lt hlt
    simp only [hne, false_iff]
    exact BitVec.not_le.mpr hlt
  · simpa using BitVec.not_lt.mp hlt

/-- Recording: with exact calls the client reads every frame, and in every state reached
`stepUser` advances `user` by its count exactly when it does not find itself past `server`. -/
theorem record_faithful (frameCount b : U32) (mem : ℕ → α) (es : List (Event α))
    (s : Session α) (hrun : run (step frameCount false) (Session.start b mem) es = some s)
    (hex : Along (step frameCount false) (TransferExact frameCount false)
      (Session.start b mem) es) :
    Faithful false frameCount s ∧
      ∀ stepCount, (s.cblk.stepUser stepCount frameCount false).user =
          s.cblk.user + stepCount ↔
        s.cblk.user + stepCount ≤ s.cblk.server := by
  obtain ⟨q, h⟩ := refines_run hrun hex
  exact ⟨h.faithful, fun stepCount => stepUser_record_iff s.cblk stepCount frameCount⟩

/-- Two frames recorded up to the wrap point and read one by one. -/
def twoFrames : List (Event ℕ) :=
  [.getNextBuffer 2 true true, .fill 0 [5, 6], .releaseBuffer 2 true, .obtainBuffer 2,
    .stepUser 1]

theorem record_faithful_twoFrames : ∃ s,
    run (step 16#32 false) (Session.start 0xFFFFFFFD#32 fun _ => 0) twoFrames = some s ∧
      s.cblk.user = 0xFFFFFFFE#32 ∧ s.consumed = [5] ∧ Faithful false 16#32 s :=
  ⟨_, rfl, rfl, rfl,
    (record_faithful 16#32 0xFFFFFFFD#32 (fun _ => 0) twoFrames _ rfl (by decide)).1⟩

/-- The same two frames with `server` past the wrap point and `user` before it: the step over
the first frame takes `user` to `server` and the second frame is never read. -/
theorem record_skips_frame : ∃ s,
    run (step 16#32 false) (Session.start 0xFFFFFFFE#32 fun _ => 0) twoFrames = some s ∧
      s.cblk.user = 0#32 ∧ s.cblk.user ≠ 0xFFFFFFFE#32 + 1#32 ∧
      s.produced = [5, 6] ∧ s.consumed = [5] ∧ s.cblk.server - s.cblk.user = 0#32 :=
  ⟨_, rfl, by decide, by decide, rfl, rfl, by decide⟩

end AudioFlinger.TrackShared
