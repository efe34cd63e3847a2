import Mathlib.Algebra.BigOperators.Group.List.Basic
import AudioFlinger.Foundation.Machine
import AudioFlinger.Timed.Model

/-!
# Bookkeeping of timed tracks

The frames pending are the frames left in the queue, and every buffer queued is
in the queue or accounted for once. A step that removes some buffers and
accounts for the same ones keeps both; the steps that do otherwise are told
apart by what they find.
-/

namespace AudioFlinger.Timed

open Foundation Machine
open Mixer (I64 kInvalidPTS)
open Utils

/-! ## Clients and mixers -/

/-- A track and the buffer that the mixer holds of it. -/
structure Session where
  track : TimedTrack
  buffer : Buffer

inductive Event
  | setMediaTimeTransform (xform : LinearTransform) (target : TargetTimeline)
  | queueTimedBuffer (buffer : IMemory) (pts : I64)
  | allocateTimedBuffer (clock : Clock)
  | getNextBuffer (env : Environment) (framesRequested : U32) (pts : I64)
  | releaseBuffer (frameCount : U32)

/-- The mixer gets a buffer when it holds none, and releases it with at most its frames. -/
def step (s : Session) : Event → Option Session
  | .setMediaTimeTransform xform target =>
    some { s with track := s.track.setMediaTimeTransform xform target }
  | .queueTimedBuffer buffer pts => some { s with track := (s.track.queueTimedBuffer buffer pts).1 }
  | .allocateTimedBuffer clock => some { s with track := s.track.allocateTimedBuffer clock }
  | .getNextBuffer env framesRequested pts =>
    if s.buffer.raw = .null then
      let (track, buffer, _) := s.track.getNextBuffer env framesRequested pts
      some ⟨track, buffer⟩
    else none
  | .releaseBuffer frameCount =>
    if s.buffer.raw ≠ .null ∧ frameCount ≤ s.buffer.frameCount then
      some ⟨s.track.releaseBuffer { s.buffer with frameCount := frameCount }, .none⟩
    else none

/-- The constructor. -/
def TimedTrack.new (mFrameSize : U32) (mLocalTimeFreq : BitVec 64)
    (mLocalTimeToSampleTransform mMediaTimeToSampleTransform : LinearTransform) : TimedTrack where
  mFrameSize := mFrameSize
  mLocalTimeFreq := mLocalTimeFreq
  mLocalTimeToSampleTransform := mLocalTimeToSampleTransform
  mMediaTimeToSampleTransform := mMediaTimeToSampleTransform
  mTimedBufferQueue := []
  mQueueHeadInFlight := false
  mTrimQueueHeadOnRelease := false
  mFramesPendingInQueue := 0#32
  mTimedSilenceBuffer := .null
  mTimedSilenceBufferSize := 0#32
  mTimedAudioOutputOnTime := false
  mMediaTimeTransform := ⟨0#64, 0#64, 0#32, 0#32⟩
  mMediaTimeTransformValid := false
  mMediaTimeTransformTarget := .LOCAL_TIME
  failures := []
  queued := 0
  accounted := []

/-! ## What is to hold -/

/-- The frames left in a list of buffers. -/
def TimedTrack.frames (t : TimedTrack) (bufs : List TimedBuffer) : ℕ :=
  (bufs.map fun buf => (t.framesLeft buf).toNat).sum

structure Bookkept (t : TimedTrack) : Prop where
  pending : t.mFramesPendingInQueue.toNat = t.frames t.mTimedBufferQueue
  accounted : (t.accounted ++ t.mTimedBufferQueue.map TimedBuffer.serial).Perm (List.range t.queued)
  failures : t.failures = []

/-- The buffers that have not ended. -/
def TimedTrack.unended (t : TimedTrack) (mediaTimeNow : I64) : List TimedBuffer → List TimedBuffer
  | [] => []
  | buf :: rest =>
    if t.ended mediaTimeNow buf rest.head? then t.unended mediaTimeNow rest
    else buf :: t.unended mediaTimeNow rest

/-- The buffers that trimming is to leave: those that have not ended, and a head in flight. -/
def TimedTrack.survivors (t : TimedTrack) (clock : Clock) : List TimedBuffer :=
  match t.mediaTimeNow clock with
  | none => t.mTimedBufferQueue
  | some mediaTimeNow =>
    match t.mQueueHeadInFlight, t.mTimedBufferQueue with
    | true, head :: rest => head :: t.unended mediaTimeNow rest
    | _, queue => t.unended mediaTimeNow queue

/-- The books are right after the step, and trimming leaves what it is to leave. -/
structure Keeps (s : Session) (e : Event) : Prop where
  bookkept : ∀ s' ∈ step s e, Bookkept s'.track
  trimmed : ∀ clock, e = .allocateTimedBuffer clock →
    ∀ s' ∈ step s e, s'.track.mTimedBufferQueue = s.track.survivors clock

/-- The first buffer that is not dropped is not late, or no frame of it is. -/
def Punctual (framesLeft : TimedBuffer → U32) (verdict : Bool → TimedBuffer → Verdict) :
    Bool → List TimedBuffer → Prop
  | _, [] => True
  | onTime, head :: rest =>
    match verdict onTime head with
    | .tooFar | .badLocalToSample => Punctual framesLeft verdict onTime rest
    | .tooLate => Punctual framesLeft verdict false rest
    | .late onTimeSamplePosition =>
      framesLeft { head with mPosition := onTimeSamplePosition } = framesLeft head
    | _ => True

/-- The step does not meet one of the branches that lose count: queueing so many frames that the
count wraps, trimming behind a head in flight or behind a buffer that has not ended, skipping late
frames, and releasing an empty rest of the head. -/
def Sound (s : Session) : Event → Prop
  | .setMediaTimeTransform _ _ => True
  | .queueTimedBuffer buffer _ => s.track.mMediaTimeTransformValid = true →
      s.track.frames s.track.mTimedBufferQueue + (buffer.size / s.track.mFrameSize).toNat < 2 ^ 32
  | .allocateTimedBuffer clock => ∀ mediaTimeNow ∈ s.track.mediaTimeNow clock,
      s.track.unended mediaTimeNow s.track.mTimedBufferQueue =
          s.track.mTimedBufferQueue.drop
            (s.track.trimEnd mediaTimeNow s.track.mTimedBufferQueue) ∧
        (s.track.mQueueHeadInFlight = true →
          s.track.trimEnd mediaTimeNow s.track.mTimedBufferQueue ≤ 1)
  | .getNextBuffer env _ pts => s.buffer.raw = .null → pts ≠ kInvalidPTS →
      Punctual s.track.framesLeft (s.track.verdict env pts) s.track.mTimedAudioOutputOnTime
        s.track.mTimedBufferQueue
  | .releaseBuffer frameCount => frameCount ≤ s.buffer.frameCount →
      s.track.mQueueHeadInFlight = true → ∀ head ∈ s.track.mTimedBufferQueue.head?,
        head.mPosition < head.mBuffer.size

/-! ## Assertions and accounts -/

section Fields

variable (t : TimedTrack) (holds : Bool) (a : Assertion) (buf : TimedBuffer) (logTag : String)

theorem TimedTrack.assert_true : t.assert true a = t := rfl

theorem TimedTrack.assert_of (h : holds = true) : t.assert holds a = t := by
  rw [h, TimedTrack.assert_true]

@[simp] theorem TimedTrack.assert_mTimedBufferQueue :
    (t.assert holds a).mTimedBufferQueue = t.mTimedBufferQueue := by cases holds <;> rfl

@[simp] theorem TimedTrack.assert_accounted : (t.assert holds a).accounted = t.accounted := by
  cases holds <;> rfl

@[simp] theorem TimedTrack.assert_queued : (t.assert holds a).queued = t.queued := by
  cases holds <;> rfl

theorem TimedTrack.assert_failures_eq_nil :
    (t.assert holds a).failures = [] ↔ t.failures = [] ∧ holds = true := by
  cases holds <;> simp [TimedTrack.assert]

end Fields

/-- Account for the buffers `bufs`. -/
def TimedTrack.account (t : TimedTrack) (bufs : List TimedBuffer) : TimedTrack :=
  { t with
    mFramesPendingInQueue := t.mFramesPendingInQueue - BitVec.ofNat 32 (t.frames bufs)
    accounted := t.accounted ++ bufs.map TimedBuffer.serial }

theorem TimedTrack.frames_cons (t : TimedTrack) (buf : TimedBuffer) (bufs : List TimedBuffer) :
    t.frames (buf :: bufs) = (t.framesLeft buf).toNat + t.frames bufs := List.sum_cons

theorem TimedTrack.frames_append (t : TimedTrack) (bufs bufs' : List TimedBuffer) :
    t.frames (bufs ++ bufs') = t.frames bufs + t.frames bufs' := by
  rw [TimedTrack.frames, List.map_append, List.sum_append]
  rfl

theorem TimedTrack.updateFramesPendingAfterTrim_l_eq {t : TimedTrack} {buf : TimedBuffer}
    (logTag : String) (hposition : buf.mPosition ≤ buf.mBuffer.size)
    (hpending : t.framesLeft buf ≤ t.mFramesPendingInQueue) :
    t.updateFramesPendingAfterTrim_l buf logTag = t.account [buf] := by
  simp only [TimedTrack.updateFramesPendingAfterTrim_l]
  rw [TimedTrack.assert_of _ _ _ (decide_eq_true hposition),
    TimedTrack.assert_of _ _ _ (decide_eq_true hpending), TimedTrack.account, TimedTrack.frames_cons]
  simp [TimedTrack.frames]

theorem TimedTrack.foldl_updateFramesPendingAfterTrim_l (logTag : String) (bufs : List TimedBuffer)
    (t : TimedTrack) (hpositions : ∀ buf ∈ bufs, buf.mPosition ≤ buf.mBuffer.size)
    (hpending : t.frames bufs ≤ t.mFramesPendingInQueue.toNat) :
    bufs.foldl (fun t buf => t.updateFramesPendingAfterTrim_l buf logTag) t = t.account bufs := by
  induction bufs generalizing t with
  | nil => simp [TimedTrack.account, TimedTrack.frames]
  | cons buf bufs ih =>
    rw [TimedTrack.frames_cons] at hpending
    have hbuf : t.framesLeft buf ≤ t.mFramesPendingInQueue := by
      rw [BitVec.le_def]
      omega
    have hlt := t.mFramesPendingInQueue.isLt
    have hone : t.frames [buf] = (t.framesLeft buf).toNat := by
      rw [TimedTrack.frames_cons]
      rfl
    have hrest : (t.account [buf]).frames bufs ≤ (t.account [buf]).mFramesPendingInQueue.toNat := by
      change t.frames bufs ≤ (t.mFramesPendingInQueue - BitVec.ofNat 32 (t.frames [buf])).toNat
      rw [hone, BitVec.ofNat_toNat, BitVec.setWidth_eq, BitVec.toNat_sub_of_le hbuf]
      omega
    rw [List.foldl_cons, TimedTrack.updateFramesPendingAfterTrim_l_eq logTag
      (hpositions buf List.mem_cons_self) hbuf,
      ih _ (fun b hb => hpositions b (List.mem_cons_of_mem _ hb)) hrest]
    have hframes : (t.account [buf]).frames bufs = t.frames bufs := rfl
    simp only [TimedTrack.account, hone, TimedTrack.frames_cons, BitVec.ofNat_add,
      List.map_cons, List.map_nil, List.append_assoc, List.singleton_append]
    congr 1
    change _ - BitVec.ofNat 32 (t.frames bufs) = _
    rw [BitVec.sub_sub]

/-- Buffers that are removed and accounted for. -/
theorem Bookkept.remove {t : TimedTrack} {before bufs after : List TimedBuffer} (h : Bookkept t)
    (hqueue : t.mTimedBufferQueue = before ++ bufs ++ after) :
    Bookkept { t.account bufs with mTimedBufferQueue := before ++ after } := by
  have hpending := h.pending
  rw [hqueue, TimedTrack.frames_append, TimedTrack.frames_append] at hpending
  have hlt := t.mFramesPendingInQueue.isLt
  refine ⟨?_, ?_, h.failures⟩
  · change (t.mFramesPendingInQueue - BitVec.ofNat 32 (t.frames bufs)).toNat =
      t.frames (before ++ after)
    have hle : BitVec.ofNat 32 (t.frames bufs) ≤ t.mFramesPendingInQueue := by
      rw [BitVec.le_def, BitVec.toNat_ofNat, Nat.mod_eq_of_lt (by omega)]
      omega
    rw [BitVec.toNat_sub_of_le hle, BitVec.toNat_ofNat, Nat.mod_eq_of_lt (by omega),
      TimedTrack.frames_append]
    omega
  · refine List.Perm.trans ?_ h.accounted
    rw [hqueue]
    simp only [TimedTrack.account, List.map_append, List.append_assoc]
    apply List.Perm.append_left
    rw [← List.append_assoc, ← List.append_assoc]
    exact List.Perm.append_right _ List.perm_append_comm

theorem Bookkept.frames_le {t : TimedTrack} {before bufs after : List TimedBuffer} (h : Bookkept t)
    (hqueue : t.mTimedBufferQueue = before ++ bufs ++ after) :
    t.frames bufs ≤ t.mFramesPendingInQueue.toNat := by
  rw [h.pending, hqueue, TimedTrack.frames_append, TimedTrack.frames_append]
  omega

/-! ## The invariant -/

structure Healthy (t : TimedTrack) : Prop where
  books : Bookkept t
  positions : ∀ buf ∈ t.mTimedBufferQueue, buf.mPosition ≤ buf.mBuffer.size
  valid : t.mTimedBufferQueue ≠ [] → t.mMediaTimeTransformValid = true
  flag : t.mTrimQueueHeadOnRelease = true → t.mQueueHeadInFlight = true
  silence : ∀ address, t.mTimedSilenceBuffer ≠ .memory address

/-- The buffer that the mixer holds is nothing, silence or the front of the head in flight. -/
def Outstanding (t : TimedTrack) (buffer : Buffer) : Prop :=
  match buffer.raw with
  | .null => t.mQueueHeadInFlight = false
  | .silence _ => t.mQueueHeadInFlight = false ∧ buffer.raw = t.mTimedSilenceBuffer
  | .memory address => t.mQueueHeadInFlight = true ∧ ∃ head rest,
      t.mTimedBufferQueue = head :: rest ∧
      address = head.mBuffer.pointer + head.mPosition.toNat ∧
      buffer.frameCount ≤ t.framesLeft head

structure Inv (s : Session) : Prop where
  healthy : Healthy s.track
  outstanding : Outstanding s.track s.buffer

theorem Bookkept.trimHead {t : TimedTrack} {head : TimedBuffer} {rest : List TimedBuffer}
    (h : Bookkept t) (hqueue : t.mTimedBufferQueue = head :: rest)
    (hposition : head.mPosition ≤ head.mBuffer.size) (logTag : String) :
    t.trimTimedBufferQueueHead_l logTag = { t.account [head] with mTimedBufferQueue := rest } := by
  have hframes := h.frames_le (show t.mTimedBufferQueue = [] ++ [head] ++ rest from hqueue)
  have hle : t.framesLeft head ≤ t.mFramesPendingInQueue := by
    rw [TimedTrack.frames_cons] at hframes
    exact BitVec.le_def.mpr (le_trans (Nat.le_add_right _ _) hframes)
  rw [TimedTrack.trimTimedBufferQueueHead_l, hqueue]
  dsimp only
  rw [TimedTrack.updateFramesPendingAfterTrim_l_eq logTag hposition hle]

theorem Healthy.trimHead {t : TimedTrack} {head : TimedBuffer} {rest : List TimedBuffer}
    (h : Healthy t) (hqueue : t.mTimedBufferQueue = head :: rest) (logTag : String) :
    t.trimTimedBufferQueueHead_l logTag =
        { t.account [head] with mTimedBufferQueue := rest } ∧
      Healthy { t.account [head] with mTimedBufferQueue := rest } := by
  have hsplit : t.mTimedBufferQueue = [] ++ [head] ++ rest := hqueue
  have hposition := h.positions head (by rw [hqueue]; exact List.mem_cons_self)
  refine ⟨h.books.trimHead hqueue hposition logTag, h.books.remove hsplit, ?_, ?_, h.flag,
    h.silence⟩
  · intro buf hbuf
    exact h.positions buf (by rw [hqueue]; exact List.mem_cons_of_mem _ hbuf)
  · exact fun _ => h.valid (by rw [hqueue]; exact List.cons_ne_nil _ _)

/-! ## Getting buffers -/

theorem minFrames_le_left (a b : U32) : minFrames a b ≤ a := by
  unfold minFrames
  split_ifs with h
  · exact BitVec.le_refl a
  · exact BitVec.not_lt.mp h

/-- A head that is late has its frames skipped up to its end at most. -/
theorem TimedTrack.verdict_late {t : TimedTrack} {env : Environment} {pts : I64} {onTime : Bool}
    {head : TimedBuffer} {position : U32} (h : t.verdict env pts onTime head = .late position) :
    position ≤ head.mBuffer.size := by
  have hjudge {delta : I64} (hlate : t.judge env onTime head delta = .late position) :
      position ≤ head.mBuffer.size := by
    simp only [TimedTrack.judge] at hlate
    split_ifs at hlate
    all_goals
      cases hlate
      exact BitVec.not_lt.mp (by assumption)
  simp only [TimedTrack.verdict] at h
  split_ifs at h
  all_goals repeat' split at h
  all_goals first | exact hjudge h | cases h

theorem Healthy.yieldSamples {t : TimedTrack} {head : TimedBuffer} {rest : List TimedBuffer}
    (h : Healthy t) (hqueue : t.mTimedBufferQueue = head :: rest) (framesRequested : U32) :
    Healthy (t.timedYieldSamples_l head framesRequested).1 ∧
      Outstanding (t.timedYieldSamples_l head framesRequested).1
        (t.timedYieldSamples_l head framesRequested).2 := by
  refine ⟨⟨⟨h.books.pending, h.books.accounted, h.books.failures⟩, h.positions, h.valid,
    fun _ => rfl, h.silence⟩, rfl, head, rest, hqueue, rfl, ?_⟩
  exact minFrames_le_left _ _

theorem Healthy.yieldSilence {t : TimedTrack} (h : Healthy t) (hfree : t.mQueueHeadInFlight = false)
    (numFrames framesRequested : U32) :
    Healthy (t.timedYieldSilence_l numFrames framesRequested).1 ∧
      Outstanding (t.timedYieldSilence_l numFrames framesRequested).1
        (t.timedYieldSilence_l numFrames framesRequested).2 := by
  simp only [TimedTrack.timedYieldSilence_l]
  split_ifs
  · refine ⟨⟨⟨h.books.pending, h.books.accounted, h.books.failures⟩, h.positions, h.valid, h.flag,
      nofun⟩, hfree, rfl⟩
  · refine ⟨⟨⟨h.books.pending, h.books.accounted, h.books.failures⟩, h.positions, h.valid, h.flag,
      h.silence⟩, ?_⟩
    cases hraw : t.mTimedSilenceBuffer with
    | null => simpa [Outstanding, hraw] using hfree
    | silence size => simpa [Outstanding, hraw] using hfree
    | memory address => exact absurd hraw (h.silence address)

/-- Skipping bytes of the head that make no frame. -/
theorem Healthy.skip {t : TimedTrack} {head : TimedBuffer} {rest : List TimedBuffer}
    (h : Healthy t) (hqueue : t.mTimedBufferQueue = head :: rest) {position : U32}
    (hsame : t.framesLeft { head with mPosition := position } = t.framesLeft head)
    (hle : position ≤ head.mBuffer.size) :
    Healthy { t with mTimedBufferQueue := { head with mPosition := position } :: rest } := by
  have hpending := h.books.pending
  have haccounted := h.books.accounted
  rw [hqueue] at hpending haccounted
  refine ⟨⟨?_, haccounted, h.books.failures⟩, ?_, ?_, h.flag, h.silence⟩
  · change t.mFramesPendingInQueue.toNat =
      t.frames ({ head with mPosition := position } :: rest)
    rw [hpending, TimedTrack.frames_cons, TimedTrack.frames_cons, hsame]
  · intro buf hbuf
    rcases List.mem_cons.mp hbuf with rfl | hbuf
    · exact hle
    · exact h.positions buf (by rw [hqueue]; exact List.mem_cons_of_mem _ hbuf)
  · exact fun _ => h.valid (by rw [hqueue]; exact List.cons_ne_nil _ _)

/-- The loop keeps the track healthy if the first buffer that is not dropped loses no frame, and
the books only then. -/
theorem getNextLoop_spec (env : Environment) (pts : I64) (framesRequested : U32)
    (queue : List TimedBuffer) (t : TimedTrack) (h : Healthy t)
    (hqueue : t.mTimedBufferQueue = queue) (hfree : t.mQueueHeadInFlight = false) :
    ∃ t' buffer status,
      TimedTrack.getNextLoop env pts framesRequested queue t = (t', buffer, status) ∧
      (Punctual t.framesLeft (t.verdict env pts) t.mTimedAudioOutputOnTime queue →
        Healthy t' ∧ Outstanding t' buffer) ∧
      (Bookkept t' →
        Punctual t.framesLeft (t.verdict env pts) t.mTimedAudioOutputOnTime queue) := by
  induction queue generalizing t with
  | nil => exact ⟨t, .none, .NOT_ENOUGH_DATA, rfl, fun _ => ⟨h, hfree⟩, fun _ => trivial⟩
  | cons head rest ih =>
    have hvalid := h.valid (by rw [hqueue]; exact List.cons_ne_nil _ _)
    rw [TimedTrack.getNextLoop, Punctual]
    simp only [TimedTrack.assert_of _ _ _ hvalid]
    cases hverdict : t.verdict env pts t.mTimedAudioOutputOnTime head with
    | paused =>
      exact ⟨_, _, _, rfl, fun _ => h.yieldSilence hfree _ _, fun _ => trivial⟩
    | noTransform =>
      obtain ⟨htrim, hhealthy⟩ := h.trimHead hqueue "getNextBuffer; no transform"
      refine ⟨_, _, _, rfl, fun _ => ?_, fun _ => trivial⟩
      rw [htrim]
      exact ⟨hhealthy, hfree⟩
    | noLocalTime => exact ⟨_, _, _, rfl, fun _ => ⟨h, hfree⟩, fun _ => trivial⟩
    | tooFar =>
      obtain ⟨htrim, hhealthy⟩ := h.trimHead hqueue "getNextBuffer, buf pts too far from mix"
      dsimp only
      rw [htrim]
      exact ih _ hhealthy rfl hfree
    | badLocalToSample =>
      obtain ⟨htrim, hhealthy⟩ := h.trimHead hqueue "getNextBuffer, bad local to sample"
      dsimp only
      rw [htrim]
      exact ih _ hhealthy rfl hfree
    | onTime => exact ⟨_, _, _, rfl, fun _ => h.yieldSamples hqueue _, fun _ => trivial⟩
    | early framesUntilNextInput =>
      exact ⟨_, _, _, rfl, fun _ => h.yieldSilence hfree _ _, fun _ => trivial⟩
    | tooLate =>
      have hoff : Healthy { t with mTimedAudioOutputOnTime := false } :=
        ⟨⟨h.books.pending, h.books.accounted, h.books.failures⟩, h.positions, h.valid, h.flag,
          h.silence⟩
      obtain ⟨htrim, hhealthy⟩ := hoff.trimHead hqueue "getNextBuffer, dropped late buffer"
      dsimp only
      rw [htrim]
      exact ih _ hhealthy rfl hfree
    | late onTimeSamplePosition =>
      have hpending := h.books.pending
      rw [hqueue] at hpending
      refine ⟨_, _, _, rfl, fun hsame => ?_, fun hbooks => ?_⟩
      · exact (h.skip hqueue hsame (TimedTrack.verdict_late hverdict)).yieldSamples rfl _
      · have hafter := hbooks.pending
        have hsum : t.frames ({ head with mPosition := onTimeSamplePosition } :: rest) =
            t.frames (head :: rest) := hafter.symm.trans hpending
        rw [TimedTrack.frames_cons, TimedTrack.frames_cons] at hsum
        exact BitVec.eq_of_toNat_eq (Nat.add_right_cancel hsum)

/-! ## Trimming -/

theorem TimedTrack.trimTimedBufferQueue_l_eq {t : TimedTrack} {clock : Clock} {mediaTimeNow : I64}
    (hnow : t.mediaTimeNow clock = some mediaTimeNow) :
    t.trimTimedBufferQueue_l clock =
      (t.markQueueHead (t.trimEnd mediaTimeNow t.mTimedBufferQueue)).removeTimedBuffers
        (t.trimEnd mediaTimeNow t.mTimedBufferQueue) := by
  rw [TimedTrack.trimTimedBufferQueue_l, hnow]

theorem TimedTrack.trimEnd_le (t : TimedTrack) (mediaTimeNow : I64) (queue : List TimedBuffer) :
    t.trimEnd mediaTimeNow queue ≤ queue.length := by
  induction queue with
  | nil => exact le_rfl
  | cons buf rest ih =>
    rw [TimedTrack.trimEnd, List.length_cons]
    split_ifs
    · exact Nat.succ_le_succ ih
    · exact Nat.zero_le _

/-- The buffers that come before `trimEnd` are gone or have ended. -/
theorem TimedTrack.unended_eq_drop_cons {t : TimedTrack} {mediaTimeNow : I64} {head : TimedBuffer}
    {rest : List TimedBuffer} (hle : t.trimEnd mediaTimeNow (head :: rest) ≤ 1) :
    t.unended mediaTimeNow (head :: rest) =
        (head :: rest).drop (t.trimEnd mediaTimeNow (head :: rest)) ↔
      t.unended mediaTimeNow rest = rest := by
  rw [TimedTrack.trimEnd] at hle ⊢
  rw [TimedTrack.unended]
  split_ifs at hle ⊢ with hended
  · have hzero : t.trimEnd mediaTimeNow rest = 0 := by omega
    rw [hzero]
    rfl
  · rw [List.drop_zero]
    constructor
    · exact fun h => (List.cons.inj h).2
    · exact fun h => congrArg (head :: ·) h

/-- Trimming while the head is not in flight. -/
theorem Healthy.trim_free {t : TimedTrack} {clock : Clock} {mediaTimeNow : I64} (h : Healthy t)
    (hnow : t.mediaTimeNow clock = some mediaTimeNow) (hfree : t.mQueueHeadInFlight = false) :
    t.trimTimedBufferQueue_l clock =
      { t.account (t.mTimedBufferQueue.take (t.trimEnd mediaTimeNow t.mTimedBufferQueue)) with
        mTimedBufferQueue :=
          t.mTimedBufferQueue.drop (t.trimEnd mediaTimeNow t.mTimedBufferQueue) } := by
  have hflag : t.mTrimQueueHeadOnRelease = false := by
    rw [← Bool.not_eq_true]
    intro hset
    rw [h.flag hset] at hfree
    exact Bool.noConfusion hfree
  have hle := t.trimEnd_le mediaTimeNow t.mTimedBufferQueue
  rw [TimedTrack.trimTimedBufferQueue_l_eq hnow]
  generalize t.trimEnd mediaTimeNow t.mTimedBufferQueue = trimEnd at hle ⊢
  have hmark : t.markQueueHead trimEnd = t := by
    rw [TimedTrack.markQueueHead, hfree]
    simp
  simp only [hmark, TimedTrack.removeTimedBuffers, hflag, Bool.false_eq_true, if_false,
    List.drop_zero, Nat.zero_add]
  split_ifs with hpos
  · have hsplit : t.mTimedBufferQueue =
        [] ++ t.mTimedBufferQueue.take trimEnd ++ t.mTimedBufferQueue.drop trimEnd := by
      rw [List.nil_append, List.take_append_drop]
    rw [TimedTrack.foldl_updateFramesPendingAfterTrim_l "trim" _ _
      (fun buf hbuf => h.positions buf (List.mem_of_mem_take hbuf)) (h.books.frames_le hsplit)]
    have hroom : trimEnd ≤ (t.account (t.mTimedBufferQueue.take trimEnd)).mTimedBufferQueue.length :=
      hle
    rw [TimedTrack.assert_of _ _ _ (decide_eq_true hroom), removeItemsAt, Nat.zero_add,
      if_neg (not_lt.mpr hroom), List.take_zero, List.nil_append]
    rfl
  · have hzero : trimEnd = 0 := by omega
    subst hzero
    simp [TimedTrack.account, TimedTrack.frames]

theorem Healthy.trim_free_healthy {t : TimedTrack} (h : Healthy t) (n : ℕ) :
    Healthy { t.account (t.mTimedBufferQueue.take n) with
      mTimedBufferQueue := t.mTimedBufferQueue.drop n } := by
  have hsplit : t.mTimedBufferQueue =
      [] ++ t.mTimedBufferQueue.take n ++ t.mTimedBufferQueue.drop n := by
    rw [List.nil_append, List.take_append_drop]
  refine ⟨h.books.remove hsplit, ?_, ?_, h.flag, h.silence⟩
  · exact fun buf hbuf => h.positions buf (List.mem_of_mem_drop hbuf)
  · intro hne
    apply h.valid
    rintro hnil
    apply hne
    change t.mTimedBufferQueue.drop n = []
    rw [hnil, List.drop_nil]

/-- Trimming of at most the head while it is in flight. -/
theorem TimedTrack.trim_inFlight {t : TimedTrack} {clock : Clock} {mediaTimeNow : I64}
    (hnow : t.mediaTimeNow clock = some mediaTimeNow) (hflight : t.mQueueHeadInFlight = true)
    (hle : t.trimEnd mediaTimeNow t.mTimedBufferQueue ≤ 1) :
    ∃ flag, t.trimTimedBufferQueue_l clock = { t with mTrimQueueHeadOnRelease := flag } := by
  rw [TimedTrack.trimTimedBufferQueue_l_eq hnow]
  generalize t.trimEnd mediaTimeNow t.mTimedBufferQueue = trimEnd at hle
  by_cases hpos : 0 < trimEnd
  · rw [TimedTrack.markQueueHead, if_pos ⟨hpos, hflight⟩]
    refine ⟨true, ?_⟩
    rw [TimedTrack.removeTimedBuffers]
    exact if_neg (not_lt.mpr hle)
  · have hzero : trimEnd = 0 := by omega
    subst hzero
    refine ⟨t.mTrimQueueHeadOnRelease, ?_⟩
    rw [TimedTrack.markQueueHead, if_neg fun hand => hpos hand.1, TimedTrack.removeTimedBuffers]
    simp

/-- Trimming of more than the head while it is in flight accounts for other buffers than it
removes. -/
theorem Healthy.trim_inFlight_bad {t : TimedTrack} {clock : Clock} {mediaTimeNow : I64}
    (h : Healthy t) (hnow : t.mediaTimeNow clock = some mediaTimeNow)
    (hflight : t.mQueueHeadInFlight = true)
    (hlt : 1 < t.trimEnd mediaTimeNow t.mTimedBufferQueue) :
    ¬ Bookkept (t.trimTimedBufferQueue_l clock) := by
  have hbefore := h.books.accounted.length_eq
  have hle := t.trimEnd_le mediaTimeNow t.mTimedBufferQueue
  rw [TimedTrack.trimTimedBufferQueue_l_eq hnow]
  generalize t.trimEnd mediaTimeNow t.mTimedBufferQueue = trimEnd at hlt hle
  rw [TimedTrack.markQueueHead, if_pos ⟨Nat.zero_lt_of_lt hlt, hflight⟩]
  simp only [TimedTrack.removeTimedBuffers, if_true, if_pos hlt]
  have hsplit : t.mTimedBufferQueue = t.mTimedBufferQueue.take 1 ++
      (t.mTimedBufferQueue.take trimEnd).drop 1 ++ t.mTimedBufferQueue.drop trimEnd := by
    have htake : t.mTimedBufferQueue.take 1 = (t.mTimedBufferQueue.take trimEnd).take 1 := by
      rw [List.take_take, Nat.min_eq_left hlt.le]
    rw [htake, List.take_append_drop, List.take_append_drop]
  rw [TimedTrack.foldl_updateFramesPendingAfterTrim_l "trim" _
    { t with mTrimQueueHeadOnRelease := true }
    (fun buf hbuf => h.positions buf (List.mem_of_mem_take (List.mem_of_mem_drop hbuf)))
    (h.books.frames_le hsplit)]
  intro hbooks
  have hafter := hbooks.accounted.length_eq
  simp only [TimedTrack.assert_mTimedBufferQueue, TimedTrack.assert_accounted,
    TimedTrack.assert_queued, TimedTrack.account, removeItemsAt, List.length_append,
    List.length_map, List.length_range, List.length_drop, List.length_take] at hbefore hafter
  split_ifs at hafter
  · omega
  · simp only [List.length_append, List.length_take, List.length_drop] at hafter
    omega

/-! ## Releasing buffers -/

/-- Frames of a buffer that are consumed. -/
theorem TimedTrack.framesLeft_consume (t : TimedTrack) {buf : TimedBuffer} {frameCount : U32}
    (hposition : buf.mPosition ≤ buf.mBuffer.size) (hframes : frameCount ≤ t.framesLeft buf) :
    buf.mPosition + frameCount * t.mFrameSize ≤ buf.mBuffer.size ∧
      (t.framesLeft { buf with mPosition := buf.mPosition + frameCount * t.mFrameSize }).toNat =
        (t.framesLeft buf).toNat - frameCount.toNat := by
  have hsize := buf.mBuffer.size.isLt
  have hleft : (t.framesLeft buf).toNat =
      (buf.mBuffer.size.toNat - buf.mPosition.toNat) / t.mFrameSize.toNat := by
    rw [TimedTrack.framesLeft, BitVec.toNat_udiv, BitVec.toNat_sub_of_le hposition]
  rw [BitVec.le_def] at hposition hframes
  rw [hleft] at hframes
  have hbytes := Nat.mul_le_of_le_div _ _ _ hframes
  have hmul : (frameCount * t.mFrameSize).toNat = frameCount.toNat * t.mFrameSize.toNat := by
    rw [BitVec.toNat_mul, Nat.mod_eq_of_lt (by omega)]
  have hadd : (buf.mPosition + frameCount * t.mFrameSize).toNat =
      buf.mPosition.toNat + frameCount.toNat * t.mFrameSize.toNat := by
    rw [BitVec.toNat_add, hmul, Nat.mod_eq_of_lt (by omega)]
  have hle : buf.mPosition + frameCount * t.mFrameSize ≤ buf.mBuffer.size := by
    rw [BitVec.le_def, hadd]
    omega
  refine ⟨hle, ?_⟩
  rw [hleft]
  simp only [TimedTrack.framesLeft]
  rw [BitVec.toNat_udiv, BitVec.toNat_sub_of_le hle, hadd, ← Nat.sub_sub, Nat.mul_comm,
    Nat.sub_mul_div]

theorem TimedTrack.trimHead_failures {t : TimedTrack} {logTag : String}
    (h : (t.trimTimedBufferQueueHead_l logTag).failures = []) : t.failures = [] := by
  unfold TimedTrack.trimTimedBufferQueueHead_l at h
  split at h
  · exact (t.assert_failures_eq_nil _ _).mp h |>.1
  · have h₁ := (TimedTrack.assert_failures_eq_nil _ _ _).mp h
    exact ((TimedTrack.assert_failures_eq_nil _ _ _).mp h₁.1).1

theorem Healthy.releaseHead {t : TimedTrack} {head : TimedBuffer} {rest : List TimedBuffer}
    {frameCount : U32} (h : Healthy t) (hqueue : t.mTimedBufferQueue = head :: rest)
    (hframes : frameCount ≤ t.framesLeft head) :
    Healthy (t.releaseHead head rest frameCount) ∧
      (t.releaseHead head rest frameCount).mQueueHeadInFlight = false := by
  have hposition := h.positions head (by rw [hqueue]; exact List.mem_cons_self)
  have hvalid := h.valid (by rw [hqueue]; exact List.cons_ne_nil _ _)
  have hpending := h.books.pending
  have haccounted := h.books.accounted
  obtain ⟨hend, hleft⟩ := t.framesLeft_consume hposition hframes
  rw [hqueue] at hpending haccounted
  rw [TimedTrack.frames_cons] at hpending
  rw [BitVec.le_def] at hframes
  have hle : frameCount ≤ t.mFramesPendingInQueue := by
    rw [BitVec.le_def]
    omega
  -- the track before the head is trimmed
  have hbooks : Bookkept { t with
      mTimedBufferQueue :=
        { head with mPosition := head.mPosition + frameCount * t.mFrameSize } :: rest
      mQueueHeadInFlight := false
      mFramesPendingInQueue := t.mFramesPendingInQueue - frameCount } := by
    refine ⟨?_, haccounted, h.books.failures⟩
    change (t.mFramesPendingInQueue - frameCount).toNat = t.frames
      ({ head with mPosition := head.mPosition + frameCount * t.mFrameSize } :: rest)
    rw [BitVec.toNat_sub_of_le hle, TimedTrack.frames_cons, hleft]
    omega
  have hpositions : ∀ buf ∈ rest, buf.mPosition ≤ buf.mBuffer.size := fun buf hbuf =>
    h.positions buf (by rw [hqueue]; exact List.mem_cons_of_mem _ hbuf)
  simp only [TimedTrack.releaseHead]
  rw [TimedTrack.assert_of _ _ _ (decide_eq_true hle)]
  split_ifs with htrim
  · rw [hbooks.trimHead rfl hend]
    have hremoved := @Bookkept.remove _ [] [_] rest hbooks rfl
    exact ⟨⟨⟨hremoved.pending, hremoved.accounted, hremoved.failures⟩, hpositions, fun _ => hvalid,
      nofun, h.silence⟩, rfl⟩
  · refine ⟨⟨hbooks, ?_, fun _ => hvalid, fun hflag => absurd (Or.inr hflag) htrim, h.silence⟩, rfl⟩
    intro buf hbuf
    rcases List.mem_cons.mp hbuf with rfl | hbuf
    · exact hend
    · exact hpositions buf hbuf

theorem TimedTrack.releaseHead_failures {t : TimedTrack} {head : TimedBuffer}
    {rest : List TimedBuffer} {frameCount : U32}
    (h : (t.releaseHead head rest frameCount).failures = []) : t.failures = [] := by
  simp only [TimedTrack.releaseHead] at h
  split_ifs at h
  · have hassert := TimedTrack.trimHead_failures h
    exact ((TimedTrack.assert_failures_eq_nil _ _ _).mp hassert).1
  · exact ((TimedTrack.assert_failures_eq_nil _ _ _).mp h).1

/-- The front of the head that the mixer holds lies in the head unless it is empty. -/
theorem Buffer.within_iff {buffer : Buffer} {head : TimedBuffer}
    (hraw : buffer.raw = .memory (head.mBuffer.pointer + head.mPosition.toNat)) :
    buffer.within head.mBuffer = true ↔ head.mPosition < head.mBuffer.size := by
  rw [Buffer.within, hraw]
  simp [BitVec.lt_def]

/-! ## Steps -/

section Steps

variable {s s' : Session}

theorem Healthy.ofBooks {t : TimedTrack} (h : Healthy t) (onTime : Bool) :
    Healthy { t with mTimedAudioOutputOnTime := onTime } :=
  ⟨⟨h.books.pending, h.books.accounted, h.books.failures⟩, h.positions, h.valid, h.flag, h.silence⟩

theorem Inv.free_of_null (h : Inv s) (hnull : s.buffer.raw = .null) :
    s.track.mQueueHeadInFlight = false := by
  have hout := h.outstanding
  unfold Outstanding at hout
  rwa [hnull] at hout

theorem Inv.head_of_inFlight (h : Inv s) (hflight : s.track.mQueueHeadInFlight = true) :
    ∃ head rest, s.track.mTimedBufferQueue = head :: rest ∧
      s.buffer.raw = .memory (head.mBuffer.pointer + head.mPosition.toNat) ∧
      s.buffer.frameCount ≤ s.track.framesLeft head := by
  have hout := h.outstanding
  unfold Outstanding at hout
  cases hraw : s.buffer.raw with
  | null =>
    rw [hraw] at hout
    rw [hflight] at hout
    exact Bool.noConfusion hout
  | silence size =>
    rw [hraw] at hout
    rw [hflight] at hout
    exact Bool.noConfusion hout.1
  | memory address =>
    rw [hraw] at hout
    obtain ⟨-, head, rest, hqueue, haddress, hframes⟩ := hout
    exact ⟨head, rest, hqueue, by rw [haddress], hframes⟩

/-! ### Queueing -/

theorem queueTimedBuffer_bookkept_iff {t : TimedTrack} (h : Healthy t) (buffer : IMemory)
    (pts : I64) : Bookkept (t.queueTimedBuffer buffer pts).1 ↔ (t.mMediaTimeTransformValid = true →
      t.frames t.mTimedBufferQueue + (buffer.size / t.mFrameSize).toNat < 2 ^ 32) := by
  rw [TimedTrack.queueTimedBuffer]
  split_ifs with hvalid
  · exact iff_of_true h.books fun htrue => by rw [hvalid] at htrue; exact Bool.noConfusion htrue
  · have htrue : t.mMediaTimeTransformValid = true := by simpa using hvalid
    have hframes : t.frames (t.mTimedBufferQueue ++ [⟨buffer, pts, 0#32, t.queued⟩]) =
        t.frames t.mTimedBufferQueue + (buffer.size / t.mFrameSize).toNat := by
      rw [TimedTrack.frames_append, TimedTrack.frames_cons, TimedTrack.framesLeft, BitVec.sub_zero]
      rfl
    have hsum : (t.mFramesPendingInQueue + buffer.size / t.mFrameSize).toNat =
        (t.frames t.mTimedBufferQueue + (buffer.size / t.mFrameSize).toNat) % 2 ^ 32 := by
      rw [BitVec.toNat_add, h.books.pending]
    constructor
    · intro hbooks _
      have hpending : _ = _ := hbooks.pending
      change (t.mFramesPendingInQueue + buffer.size / t.mFrameSize).toNat =
        t.frames (t.mTimedBufferQueue ++ [⟨buffer, pts, 0#32, t.queued⟩]) at hpending
      rw [hsum, hframes] at hpending
      rw [← hpending]
      exact Nat.mod_lt _ (Nat.two_pow_pos 32)
    · intro hroom
      refine ⟨?_, ?_, h.books.failures⟩
      · change (t.mFramesPendingInQueue + buffer.size / t.mFrameSize).toNat =
          t.frames (t.mTimedBufferQueue ++ [⟨buffer, pts, 0#32, t.queued⟩])
        rw [hsum, hframes, Nat.mod_eq_of_lt (hroom htrue)]
      · simp only [List.map_append, List.map_cons, List.map_nil, List.range_succ,
          ← List.append_assoc]
        exact h.books.accounted.append_right _

theorem Inv.queueTimedBuffer (h : Inv s) (buffer : IMemory) (pts : I64)
    (hbooks : Bookkept (s.track.queueTimedBuffer buffer pts).1) :
    Inv { s with track := (s.track.queueTimedBuffer buffer pts).1 } := by
  revert hbooks
  rw [TimedTrack.queueTimedBuffer]
  split_ifs with hvalid
  · exact fun _ => h
  · intro hbooks
    refine ⟨⟨hbooks, ?_, fun _ => by simpa using hvalid, h.healthy.flag, h.healthy.silence⟩, ?_⟩
    · intro buf hbuf
      rcases List.mem_append.mp hbuf with hbuf | hbuf
      · exact h.healthy.positions buf hbuf
      · rw [List.mem_singleton.mp hbuf]
        exact BitVec.le_def.mpr (Nat.zero_le _)
    · have hout := h.outstanding
      unfold Outstanding at hout ⊢
      cases hraw : s.buffer.raw with
      | null => rwa [hraw] at hout
      | silence size => rwa [hraw] at hout
      | memory address =>
        rw [hraw] at hout
        obtain ⟨hflight, head, rest, hqueue, haddress, hframes⟩ := hout
        refine ⟨hflight, head, rest ++ [⟨buffer, pts, 0#32, s.track.queued⟩], ?_, haddress, hframes⟩
        dsimp only
        rw [hqueue, List.cons_append]

/-! ### Trimming -/

theorem Inv.allocateTimedBuffer (h : Inv s) (clock : Clock)
    (hsound : Sound s (.allocateTimedBuffer clock)) :
    Inv { s with track := s.track.allocateTimedBuffer clock } ∧
      (s.track.allocateTimedBuffer clock).mTimedBufferQueue = s.track.survivors clock := by
  rw [TimedTrack.allocateTimedBuffer, TimedTrack.survivors]
  cases hnow : s.track.mediaTimeNow clock with
  | none =>
    rw [TimedTrack.trimTimedBufferQueue_l, hnow]
    exact ⟨h, rfl⟩
  | some mediaTimeNow =>
    obtain ⟨hends, hflight⟩ := hsound mediaTimeNow hnow
    cases hfree : s.track.mQueueHeadInFlight with
    | false =>
      rw [h.healthy.trim_free hnow hfree]
      refine ⟨⟨h.healthy.trim_free_healthy _, ?_⟩, hends.symm⟩
      have hout := h.outstanding
      unfold Outstanding at hout ⊢
      cases hraw : s.buffer.raw with
      | null => exact hfree
      | silence size => rwa [hraw] at hout
      | memory address =>
        rw [hraw, hfree] at hout
        exact Bool.noConfusion hout.1
    | true =>
      have hle := hflight hfree
      obtain ⟨flag, htrim⟩ := TimedTrack.trim_inFlight hnow hfree hle
      obtain ⟨head, rest, hqueue, -⟩ := h.head_of_inFlight hfree
      rw [htrim]
      refine ⟨⟨⟨⟨h.healthy.books.pending, h.healthy.books.accounted, h.healthy.books.failures⟩,
        h.healthy.positions, h.healthy.valid, fun _ => hfree, h.healthy.silence⟩, h.outstanding⟩, ?_⟩
      rw [hqueue] at hends hle ⊢
      dsimp only
      rw [(TimedTrack.unended_eq_drop_cons hle).mp hends]

theorem Inv.sound_of_trimmed (h : Inv s) {clock : Clock}
    (hbooks : Bookkept (s.track.allocateTimedBuffer clock))
    (htrimmed : (s.track.allocateTimedBuffer clock).mTimedBufferQueue = s.track.survivors clock) :
    Sound s (.allocateTimedBuffer clock) := by
  intro mediaTimeNow hnow
  rw [TimedTrack.allocateTimedBuffer] at hbooks htrimmed
  rw [TimedTrack.survivors, Option.mem_def.mp hnow] at htrimmed
  cases hfree : s.track.mQueueHeadInFlight with
  | false =>
    rw [h.healthy.trim_free hnow hfree, hfree] at htrimmed
    exact ⟨htrimmed.symm, nofun⟩
  | true =>
    have hle : s.track.trimEnd mediaTimeNow s.track.mTimedBufferQueue ≤ 1 := by
      by_contra hgt
      exact h.healthy.trim_inFlight_bad hnow hfree (not_le.mp hgt) hbooks
    obtain ⟨flag, htrim⟩ := TimedTrack.trim_inFlight hnow hfree hle
    obtain ⟨head, rest, hqueue, -⟩ := h.head_of_inFlight hfree
    rw [htrim, hfree, hqueue] at htrimmed
    rw [hqueue] at hle ⊢
    have hrest := (List.cons.inj htrimmed).2
    exact ⟨(TimedTrack.unended_eq_drop_cons hle).mpr hrest.symm, fun _ => hle⟩

/-! ### Getting and releasing -/

theorem Inv.getNextBuffer (h : Inv s) (hnull : s.buffer.raw = .null) (env : Environment)
    (framesRequested : U32) (pts : I64) :
    ∃ t' buffer status, s.track.getNextBuffer env framesRequested pts = (t', buffer, status) ∧
      (Sound s (.getNextBuffer env framesRequested pts) → Inv ⟨t', buffer⟩) ∧
      (Bookkept t' → Sound s (.getNextBuffer env framesRequested pts)) := by
  have hfree := h.free_of_null hnull
  rw [TimedTrack.getNextBuffer]
  split_ifs with hpts
  · exact ⟨_, _, _, rfl, fun _ => ⟨h.healthy.ofBooks false, hfree⟩,
      fun _ _ hvalid => absurd hpts hvalid⟩
  · simp only [TimedTrack.assert_of _ (!s.track.mQueueHeadInFlight) _ (by rw [hfree]; rfl)]
    obtain ⟨t', buffer, status, hloop, hkeep, hback⟩ :=
      getNextLoop_spec env pts framesRequested _ s.track h.healthy rfl hfree
    refine ⟨t', buffer, status, hloop, fun hsound => ?_, fun hbooks _ _ => hback hbooks⟩
    obtain ⟨hhealthy, hout⟩ := hkeep (hsound hnull hpts)
    exact ⟨hhealthy, hout⟩

theorem Inv.releaseBuffer (h : Inv s) (hraw : s.buffer.raw ≠ .null) {frameCount : U32}
    (hle : frameCount ≤ s.buffer.frameCount) :
    (Sound s (.releaseBuffer frameCount) →
        Inv ⟨s.track.releaseBuffer { s.buffer with frameCount := frameCount }, .none⟩) ∧
      (Bookkept (s.track.releaseBuffer { s.buffer with frameCount := frameCount }) →
        Sound s (.releaseBuffer frameCount)) := by
  rw [TimedTrack.releaseBuffer]
  cases hflight : s.track.mQueueHeadInFlight with
  | false =>
    have hsilence : s.buffer.raw = s.track.mTimedSilenceBuffer := by
      have hout := h.outstanding
      unfold Outstanding at hout
      cases hbuffer : s.buffer.raw with
      | null => exact absurd hbuffer hraw
      | silence size =>
        rw [hbuffer] at hout
        exact hout.2
      | memory address =>
        rw [hbuffer, hflight] at hout
        exact Bool.noConfusion hout.1
    rw [if_pos hsilence]
    refine ⟨fun _ => ⟨h.healthy, hflight⟩, fun _ _ hset => ?_⟩
    rw [hflight] at hset
    exact Bool.noConfusion hset
  | true =>
    obtain ⟨head, rest, hqueue, haddress, hframes⟩ := h.head_of_inFlight hflight
    have hsilence : s.buffer.raw ≠ s.track.mTimedSilenceBuffer := by
      rw [haddress]
      exact fun heq => h.healthy.silence _ heq.symm
    have hwithin := @Buffer.within_iff { s.buffer with frameCount := frameCount } _ haddress
    rw [if_neg hsilence]
    simp only [TimedTrack.assert_true, hqueue]
    constructor
    · intro hsound
      have hlt := hsound hle hflight head (by rw [hqueue]; rfl)
      rw [TimedTrack.assert_of _ _ _ (hwithin.mpr hlt)]
      obtain ⟨hhealthy, hfree⟩ :=
        h.healthy.releaseHead hqueue (BitVec.le_trans hle hframes)
      exact ⟨hhealthy, hfree⟩
    · intro hbooks _ _ head' hhead'
      rw [hqueue, List.head?_cons, Option.mem_some_iff] at hhead'
      rw [← hhead']
      have hassert := TimedTrack.releaseHead_failures hbooks.failures
      exact hwithin.mp ((TimedTrack.assert_failures_eq_nil _ _ _).mp hassert).2

/-! ### Runs -/

theorem keeps_iff_sound (e : Event) (h : Inv s) : Keeps s e ↔ Sound s e := by
  cases e with
  | setMediaTimeTransform xform target =>
    refine iff_of_true ⟨?_, nofun⟩ trivial
    rintro s' ⟨⟩
    exact ⟨h.healthy.books.pending, h.healthy.books.accounted, h.healthy.books.failures⟩
  | queueTimedBuffer buffer pts =>
    rw [Sound, ← queueTimedBuffer_bookkept_iff h.healthy buffer pts]
    refine ⟨fun hkeeps => hkeeps.bookkept _ rfl, fun hbooks => ⟨?_, nofun⟩⟩
    rintro s' ⟨⟩
    exact hbooks
  | allocateTimedBuffer clock =>
    constructor
    · exact fun hkeeps =>
        h.sound_of_trimmed (hkeeps.bookkept _ rfl) (hkeeps.trimmed clock rfl _ rfl)
    · intro hsound
      obtain ⟨hinv, htrimmed⟩ := h.allocateTimedBuffer clock hsound
      constructor
      · rintro s' ⟨⟩
        exact hinv.healthy.books
      · rintro clock' ⟨⟩ s' ⟨⟩
        exact htrimmed
  | getNextBuffer env framesRequested pts =>
    by_cases hnull : s.buffer.raw = .null
    · obtain ⟨t', buffer, status, hget, hkeep, hback⟩ :=
        h.getNextBuffer hnull env framesRequested pts
      have hstep : step s (.getNextBuffer env framesRequested pts) = some ⟨t', buffer⟩ := by
        rw [step, if_pos hnull, hget]
      refine ⟨fun hkeeps => hback (hkeeps.bookkept _ hstep), fun hsound => ⟨?_, nofun⟩⟩
      intro s' hs'
      rw [hstep] at hs'
      cases hs'
      exact (hkeep hsound).healthy.books
    · refine iff_of_true ⟨fun s' hs' => ?_, nofun⟩ fun hraw => absurd hraw hnull
      rw [step, if_neg hnull] at hs'
      exact absurd hs' (Option.not_mem_none _)
  | releaseBuffer frameCount =>
    by_cases henabled : s.buffer.raw ≠ .null ∧ frameCount ≤ s.buffer.frameCount
    · obtain ⟨hkeep, hback⟩ := h.releaseBuffer henabled.1 henabled.2
      refine ⟨fun hkeeps => hback (hkeeps.bookkept _ (if_pos henabled)), fun hsound => ⟨?_, nofun⟩⟩
      intro s' hs'
      rw [step, if_pos henabled] at hs'
      cases hs'
      exact (hkeep hsound).healthy.books
    · refine iff_of_true ⟨fun s' hs' => ?_, nofun⟩ fun hle hflight => ?_
      · rw [step, if_neg henabled] at hs'
        exact absurd hs' (Option.not_mem_none _)
      · have hnull : s.buffer.raw = .null := by
          by_contra hraw
          exact henabled ⟨hraw, hle⟩
        rw [h.free_of_null hnull] at hflight
        exact Bool.noConfusion hflight

theorem Inv.step {e : Event} (h : Inv s) (hkeeps : Keeps s e) (hstep : step s e = some s') :
    Inv s' := by
  have hsound := (keeps_iff_sound e h).mp hkeeps
  cases e with
  | setMediaTimeTransform xform target =>
    cases hstep
    exact ⟨⟨⟨h.healthy.books.pending, h.healthy.books.accounted, h.healthy.books.failures⟩,
      h.healthy.positions, fun _ => rfl, h.healthy.flag, h.healthy.silence⟩, h.outstanding⟩
  | queueTimedBuffer buffer pts =>
    cases hstep
    exact h.queueTimedBuffer buffer pts (hkeeps.bookkept _ rfl)
  | allocateTimedBuffer clock =>
    cases hstep
    exact (h.allocateTimedBuffer clock hsound).1
  | getNextBuffer env framesRequested pts =>
    rw [Timed.step] at hstep
    split_ifs at hstep with hnull
    obtain ⟨t', buffer, status, hget, hkeep, -⟩ := h.getNextBuffer hnull env framesRequested pts
    rw [hget] at hstep
    cases hstep
    exact hkeep hsound
  | releaseBuffer frameCount =>
    rw [Timed.step] at hstep
    split_ifs at hstep with henabled
    cases hstep
    exact (h.releaseBuffer henabled.1 henabled.2).1 hsound

end Steps

/-- A session whose client has queued nothing yet. -/
def Session.new (mFrameSize : U32) (mLocalTimeFreq : BitVec 64)
    (mLocalTimeToSampleTransform mMediaTimeToSampleTransform : LinearTransform) : Session :=
  ⟨.new mFrameSize mLocalTimeFreq mLocalTimeToSampleTransform mMediaTimeToSampleTransform, .none⟩

theorem Session.new_inv (mFrameSize : U32) (mLocalTimeFreq : BitVec 64)
    (mLocalTimeToSampleTransform mMediaTimeToSampleTransform : LinearTransform) :
    Inv (.new mFrameSize mLocalTimeFreq mLocalTimeToSampleTransform
      mMediaTimeToSampleTransform) :=
  ⟨⟨⟨rfl, List.Perm.refl _, rfl⟩, nofun, fun hne => absurd rfl hne, nofun, nofun⟩, rfl⟩

/-- The books of a run are right after every step exactly when every step is sound. -/
theorem timedTrack_bookkept_iff (mFrameSize : U32) (mLocalTimeFreq : BitVec 64)
    (mLocalTimeToSampleTransform mMediaTimeToSampleTransform : LinearTransform)
    (es : List Event) :
    Along step Keeps (.new mFrameSize mLocalTimeFreq mLocalTimeToSampleTransform
        mMediaTimeToSampleTransform) es ↔
      Along step Sound (.new mFrameSize mLocalTimeFreq mLocalTimeToSampleTransform
        mMediaTimeToSampleTransform) es :=
  along_iff (I := Inv) (fun _ e h => keeps_iff_sound e h) (fun _ _ _ hok hstep h => h.step hok hstep)
    (Session.new_inv mFrameSize mLocalTimeFreq mLocalTimeToSampleTransform
      mMediaTimeToSampleTransform) es

/-- A track of four bytes a frame, of which all time lines tick once a sample. -/
def steadySession : Session := .new 4#32 1000#64 ⟨0#64, 0#64, 1#32, 1#32⟩ ⟨0#64, 0#64, 1#32, 1#32⟩

/-- Three buffers of four frames each, from time 0 on. -/
def queueThree : List Event :=
  [.setMediaTimeTransform ⟨0#64, 0#64, 1#32, 1#32⟩ .LOCAL_TIME,
    .queueTimedBuffer ⟨0, 16#32⟩ 0#64, .queueTimedBuffer ⟨16, 16#32⟩ 4#64,
    .queueTimedBuffer ⟨32, 16#32⟩ 8#64]

/-- Trimming two buffers while the first is in flight removes the third, and skipping three late
frames leaves them in the count. -/
theorem steadySession_miscounts :
    ¬ Along step Keeps steadySession (queueThree ++
        [.getNextBuffer ⟨some, 1000#32⟩ 4#32 0#64, .allocateTimedBuffer ⟨none, some 10#64⟩]) ∧
      ¬ Along step Keeps steadySession (queueThree ++ [.getNextBuffer ⟨some, 1000#32⟩ 4#32 3#64]) := by
  have hpending (es : List Event) (h : Along step Keeps steadySession es) :
      Along step (fun s e => ∀ s' ∈ step s e, s'.track.mFramesPendingInQueue.toNat =
        s'.track.frames s'.track.mTimedBufferQueue) steadySession es :=
    h.imp fun _ _ hkeeps s' hs' => (hkeeps.bookkept s' hs').pending
  constructor
  · exact fun h => absurd (hpending _ h) (by decide +kernel)
  · exact fun h => absurd (hpending _ h) (by decide +kernel)

end AudioFlinger.Timed
