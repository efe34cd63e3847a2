import AudioFlinger.Timed.Bookkeeping

/-!
# The regions that a timed track hands out

The mixer takes the frames of a region in a loop that tests its count after the
first frame. A region is to have a frame, no more of them than were requested,
and to lie in the head of the queue or in the silence.
-/

namespace AudioFlinger.Timed

open Foundation Machine
open Mixer (I64 kInvalidPTS)
open Utils

/-! ## What is to hold -/

/-- `bytes` bytes from the start of the buffer lie in the silence or in the head. -/
def Buffer.Inside (t : TimedTrack) (buffer : Buffer) (bytes : ℕ) : Prop :=
  match buffer.raw with
  | .null => True
  | .silence size => t.mTimedSilenceBuffer = .silence size ∧ bytes ≤ size.toNat
  | .memory address => ∃ head ∈ t.mTimedBufferQueue.head?, head.mBuffer.pointer ≤ address ∧
      address + bytes ≤ head.mBuffer.pointer + head.mBuffer.size.toNat

structure Region (t : TimedTrack) (framesRequested : U32) (buffer : Buffer) : Prop where
  nonempty : 0 < buffer.frameCount.toNat
  requested : buffer.frameCount ≤ framesRequested
  inside : buffer.Inside t (buffer.frameCount.toNat * t.mFrameSize.toNat)

/-- A buffer that is not `NULL` is a region. -/
def Usable (t : TimedTrack) (framesRequested : U32) (buffer : Buffer) : Prop :=
  buffer.raw ≠ .null → Region t framesRequested buffer

/-- The silence is allocated with the size that is kept. -/
def TimedTrack.SilenceSized (t : TimedTrack) : Prop :=
  t.mTimedSilenceBuffer =
    if t.mTimedSilenceBufferSize = 0#32 then .null else .silence t.mTimedSilenceBufferSize

/-! ## What the queue supplies -/

/-- A whole frame of the buffer is left. -/
def TimedTrack.HasFrame (t : TimedTrack) (buf : TimedBuffer) : Prop :=
  buf.mPosition.toNat + t.mFrameSize.toNat ≤ buf.mBuffer.size.toNat

/-- The silence, grown to `numFrames` of which the bytes are counted modulo `2 ^ 32`, is still not
allocated, or some frames are due and those requested of them fit. -/
def TimedTrack.HasSilence (t : TimedTrack) (framesRequested numFrames : U32) : Prop :=
  let size := max t.mTimedSilenceBufferSize.toNat (numFrames * t.mFrameSize).toNat
  size = 0 ∨ 0 < numFrames.toNat ∧
    min numFrames.toNat framesRequested.toNat * t.mFrameSize.toNat ≤ size

/-- The first buffer that is not dropped has a frame left where its samples are due, and the
silence where silence is. -/
def Supplied (hasFrame : TimedBuffer → Prop) (hasSilence : U32 → Prop)
    (verdict : Bool → TimedBuffer → Verdict) (framesRequested : U32) :
    Bool → List TimedBuffer → Prop
  | _, [] => True
  | onTime, head :: rest =>
    match verdict onTime head with
    | .tooFar | .badLocalToSample =>
      Supplied hasFrame hasSilence verdict framesRequested onTime rest
    | .tooLate => Supplied hasFrame hasSilence verdict framesRequested false rest
    | .paused => hasSilence framesRequested
    | .early framesUntilNextInput => hasSilence framesUntilNextInput
    | .onTime => hasFrame head
    | .late onTimeSamplePosition => hasFrame { head with mPosition := onTimeSamplePosition }
    | .noTransform | .noLocalTime => True

/-! ## Yielding -/

theorem toNat_minFrames (a b : U32) : (minFrames a b).toNat = min a.toNat b.toNat := by
  unfold minFrames
  split_ifs with h
  · exact (Nat.min_eq_left (BitVec.lt_def.mp h).le).symm
  · exact (Nat.min_eq_right (BitVec.le_def.mp (BitVec.not_lt.mp h))).symm

theorem minFrames_le_right (a b : U32) : minFrames a b ≤ b := by
  rw [BitVec.le_def, toNat_minFrames]
  exact Nat.min_le_right _ _

/-- Frames of a rest are a region exactly when a whole frame is left. -/
theorem frames_fit_iff {size position frameSize requested : ℕ} (hframe : 0 < frameSize)
    (hrequested : 0 < requested) :
    (0 < min ((size - position) / frameSize) requested ∧
      position + min ((size - position) / frameSize) requested * frameSize ≤ size) ↔
    position + frameSize ≤ size := by
  constructor
  · rintro ⟨hpos, hle⟩
    have hone : 1 * frameSize ≤ min ((size - position) / frameSize) requested * frameSize :=
      Nat.mul_le_mul_right _ hpos
    omega
  · intro hle
    have hleft : 1 ≤ (size - position) / frameSize :=
      (Nat.one_le_div_iff hframe).mpr (Nat.le_sub_of_add_le' hle)
    refine ⟨lt_min hleft hrequested, ?_⟩
    have hbytes : min ((size - position) / frameSize) requested * frameSize ≤ size - position :=
      le_trans (Nat.mul_le_mul_right _ (Nat.min_le_left _ _)) (Nat.div_mul_le_self _ _)
    omega

section Yielding

variable {t : TimedTrack} {framesRequested : U32}

theorem TimedTrack.yieldSamples_usable_iff {head : TimedBuffer} {rest : List TimedBuffer}
    (hqueue : t.mTimedBufferQueue = head :: rest) (hsize : 0 < t.mFrameSize.toNat)
    (hrequested : 0 < framesRequested.toNat) :
    Usable (t.timedYieldSamples_l head framesRequested).1 framesRequested
        (t.timedYieldSamples_l head framesRequested).2 ↔ t.HasFrame head := by
  have hcount : (minFrames (t.framesLeft head) framesRequested).toNat =
      min ((head.mBuffer.size - head.mPosition).toNat / t.mFrameSize.toNat)
        framesRequested.toNat := by
    rw [toNat_minFrames, TimedTrack.framesLeft, BitVec.toNat_udiv]
  have hinside (bytes : ℕ) : (t.timedYieldSamples_l head framesRequested).2.Inside
      (t.timedYieldSamples_l head framesRequested).1 bytes ↔
        head.mPosition.toNat + bytes ≤ head.mBuffer.size.toNat := by
    simp only [TimedTrack.timedYieldSamples_l, Buffer.Inside, hqueue, List.head?_cons,
      Option.mem_some_iff, exists_eq_left', Nat.le_add_right, true_and, Nat.add_assoc,
      Nat.add_le_add_iff_left]
  constructor
  · intro husable
    have hregion := husable (by rintro ⟨⟩)
    have hpos : 0 < (minFrames (t.framesLeft head) framesRequested).toNat := hregion.nonempty
    have hbytes := (hinside _).mp hregion.inside
    have hone : 1 * t.mFrameSize.toNat ≤
        (minFrames (t.framesLeft head) framesRequested).toNat * t.mFrameSize.toNat :=
      Nat.mul_le_mul_right _ hpos
    rw [one_mul] at hone
    exact le_trans (Nat.add_le_add_left hone _) hbytes
  · intro hframe _
    have hposition : head.mPosition ≤ head.mBuffer.size :=
      BitVec.le_def.mpr (le_trans (Nat.le_add_right _ _) hframe)
    rw [BitVec.toNat_sub_of_le hposition] at hcount
    obtain ⟨hpos, hle⟩ := (frames_fit_iff hsize hrequested).mpr hframe
    rw [← hcount] at hpos hle
    exact ⟨hpos, minFrames_le_right _ _, (hinside _).mpr hle⟩

/-- The silence after it has grown. -/
theorem TimedTrack.yieldSilence_sized (hsized : t.SilenceSized)
    (numFrames framesRequested : U32) :
    (t.timedYieldSilence_l numFrames framesRequested).1.SilenceSized ∧
      (t.timedYieldSilence_l numFrames framesRequested).1.mTimedSilenceBufferSize.toNat =
        max t.mTimedSilenceBufferSize.toNat (numFrames * t.mFrameSize).toNat := by
  simp only [TimedTrack.timedYieldSilence_l]
  split_ifs with hgrow
  · have hne : numFrames * t.mFrameSize ≠ 0#32 := by
      intro hzero
      rw [hzero] at hgrow
      exact BitVec.not_lt_zero hgrow
    constructor
    · exact (if_neg hne).symm
    · exact (Nat.max_eq_right (BitVec.lt_def.mp hgrow).le).symm
  · exact ⟨hsized, (Nat.max_eq_left (BitVec.le_def.mp (BitVec.not_lt.mp hgrow))).symm⟩

theorem TimedTrack.yieldSilence_usable_iff (hsized : t.SilenceSized)
    (hrequested : 0 < framesRequested.toNat) (numFrames : U32) :
    Usable (t.timedYieldSilence_l numFrames framesRequested).1 framesRequested
        (t.timedYieldSilence_l numFrames framesRequested).2 ↔
      t.HasSilence framesRequested numFrames := by
  obtain ⟨hgrown, hmax⟩ := TimedTrack.yieldSilence_sized hsized numFrames framesRequested
  have hcount : (t.timedYieldSilence_l numFrames framesRequested).2.frameCount.toNat =
      min numFrames.toNat framesRequested.toNat := toNat_minFrames _ _
  have hrequest : (t.timedYieldSilence_l numFrames framesRequested).2.frameCount ≤
      framesRequested := minFrames_le_right _ _
  have hraw : (t.timedYieldSilence_l numFrames framesRequested).2.raw =
      (t.timedYieldSilence_l numFrames framesRequested).1.mTimedSilenceBuffer := rfl
  have hframe : (t.timedYieldSilence_l numFrames framesRequested).1.mFrameSize = t.mFrameSize := by
    simp only [TimedTrack.timedYieldSilence_l]
    split_ifs <;> rfl
  rw [TimedTrack.HasSilence, ← hmax]
  generalize t.timedYieldSilence_l numFrames framesRequested = yielded at *
  obtain ⟨t', buffer⟩ := yielded
  dsimp only at *
  rw [TimedTrack.SilenceSized] at hgrown
  by_cases hzero : t'.mTimedSilenceBufferSize = 0#32
  · rw [if_pos hzero] at hgrown
    refine iff_of_true (fun hne => absurd (hraw.trans hgrown) hne) (Or.inl ?_)
    rw [hzero]
    rfl
  · rw [if_neg hzero] at hgrown
    have hne : t'.mTimedSilenceBufferSize.toNat ≠ 0 := fun h => hzero (BitVec.eq_of_toNat_eq h)
    have hinside : buffer.Inside t' (buffer.frameCount.toNat * t'.mFrameSize.toNat) ↔
        min numFrames.toNat framesRequested.toNat * t.mFrameSize.toNat ≤
          t'.mTimedSilenceBufferSize.toNat := by
      rw [Buffer.Inside, hraw, hgrown, hcount, hframe]
      exact and_iff_right rfl
    rw [or_iff_right hne, ← hinside]
    constructor
    · intro husable
      have hregion := husable (by rw [hraw, hgrown]; simp)
      have hpos := hregion.nonempty
      rw [hcount] at hpos
      exact ⟨lt_of_lt_of_le hpos (Nat.min_le_left _ _), hregion.inside⟩
    · rintro ⟨hpos, hle⟩ _
      refine ⟨?_, hrequest, hle⟩
      rw [hcount]
      exact lt_min hpos hrequested

end Yielding

/-! ## The loop -/

theorem TimedTrack.assert_eq (t : TimedTrack) (holds : Bool) (a : Assertion) :
    ∃ failures, t.assert holds a = { t with failures := failures } := by
  cases holds with
  | true => exact ⟨t.failures, rfl⟩
  | false => exact ⟨_, rfl⟩

/-- Trimming the head touches nothing but the queue and the books. -/
theorem TimedTrack.trimHead_eq (t : TimedTrack) (logTag : String) :
    ∃ pending accounted failures, t.trimTimedBufferQueueHead_l logTag =
      { t with
        mTimedBufferQueue := t.mTimedBufferQueue.tail
        mFramesPendingInQueue := pending
        accounted := accounted
        failures := failures } := by
  rw [TimedTrack.trimTimedBufferQueueHead_l]
  cases hqueue : t.mTimedBufferQueue with
  | nil =>
    refine ⟨t.mFramesPendingInQueue, t.accounted,
      t.failures ++ [.noElementsToTrim logTag], ?_⟩
    obtain ⟨⟩ := t
    cases hqueue
    rfl
  | cons head rest =>
    simp only [TimedTrack.updateFramesPendingAfterTrim_l]
    obtain ⟨failures, hassert⟩ := t.assert_eq (head.mPosition ≤ head.mBuffer.size)
      (.consumedAlready logTag)
    rw [hassert]
    obtain ⟨failures', hassert'⟩ := ({ t with failures := failures } : TimedTrack).assert_eq
      (t.framesLeft head ≤ t.mFramesPendingInQueue) (.framesPendingInQueue logTag)
    rw [hassert']
    exact ⟨_, _, _, rfl⟩

/-- What the loop hands out is usable exactly when the queue supplies it. -/
theorem getNextLoop_usable_iff (env : Environment) (pts : I64) {framesRequested : U32}
    (hrequested : 0 < framesRequested.toNat) (queue : List TimedBuffer) (t : TimedTrack)
    (hqueue : t.mTimedBufferQueue = queue) (hsize : 0 < t.mFrameSize.toNat)
    (hsized : t.SilenceSized) :
    Usable (TimedTrack.getNextLoop env pts framesRequested queue t).1 framesRequested
        (TimedTrack.getNextLoop env pts framesRequested queue t).2.1 ↔
      Supplied t.HasFrame (t.HasSilence framesRequested) (t.verdict env pts) framesRequested
        t.mTimedAudioOutputOnTime queue := by
  induction queue generalizing t with
  | nil => exact iff_of_true (fun hne => absurd rfl hne) trivial
  | cons head rest ih =>
    obtain ⟨failures, hassert⟩ :=
      t.assert_eq t.mMediaTimeTransformValid .mediaTimeTransformInvalid
    let asserted : TimedTrack := { t with failures := failures }
    -- a buffer that is dropped leaves the rest to the loop
    have hdrop (onTime : Bool) (logTag : String) :
        Usable (TimedTrack.getNextLoop env pts framesRequested rest
            ({ asserted with mTimedAudioOutputOnTime := onTime }.trimTimedBufferQueueHead_l
              logTag)).1 framesRequested
            (TimedTrack.getNextLoop env pts framesRequested rest
              ({ asserted with mTimedAudioOutputOnTime := onTime }.trimTimedBufferQueueHead_l
                logTag)).2.1 ↔
          Supplied t.HasFrame (t.HasSilence framesRequested) (t.verdict env pts) framesRequested
            onTime rest := by
      obtain ⟨pending, accounted, failures', htrim⟩ :=
        ({ asserted with mTimedAudioOutputOnTime := onTime } : TimedTrack).trimHead_eq logTag
      rw [htrim]
      exact ih _ (congrArg List.tail hqueue) hsize hsized
    have hsilence (numFrames : U32) := TimedTrack.yieldSilence_usable_iff (t := asserted) hsized
      hrequested numFrames
    have hverdict : asserted.verdict env pts t.mTimedAudioOutputOnTime head =
        t.verdict env pts t.mTimedAudioOutputOnTime head := rfl
    rw [TimedTrack.getNextLoop, Supplied]
    simp only [hassert]
    rw [hverdict]
    cases t.verdict env pts t.mTimedAudioOutputOnTime head with
    | paused => exact hsilence framesRequested
    | noTransform => exact iff_of_true (fun hne => absurd rfl hne) trivial
    | noLocalTime => exact iff_of_true (fun hne => absurd rfl hne) trivial
    | tooFar => exact hdrop _ _
    | badLocalToSample => exact hdrop _ _
    | onTime =>
      exact TimedTrack.yieldSamples_usable_iff (t := asserted) hqueue hsize hrequested
    | early framesUntilNextInput => exact hsilence framesUntilNextInput
    | tooLate => exact hdrop _ _
    | late onTimeSamplePosition =>
      exact TimedTrack.yieldSamples_usable_iff
        (t := { asserted with
          mTimedBufferQueue := { head with mPosition := onTimeSamplePosition } :: rest })
        rfl hsize hrequested

/-! ## Every run -/

theorem assert_sized {t : TimedTrack} (h : t.SilenceSized) {holds : Bool} {a : Assertion} :
    (t.assert holds a).SilenceSized := by
  obtain ⟨failures, hassert⟩ := t.assert_eq holds a
  rw [hassert]
  exact h

theorem trimHead_sized {t : TimedTrack} (h : t.SilenceSized) {logTag : String} :
    (t.trimTimedBufferQueueHead_l logTag).SilenceSized := by
  obtain ⟨pending, accounted, failures, htrim⟩ := t.trimHead_eq logTag
  rw [htrim]
  exact h

theorem getNextLoop_sized (env : Environment) (pts : I64) (framesRequested : U32)
    {queue : List TimedBuffer} {t : TimedTrack} (h : t.SilenceSized) :
    (TimedTrack.getNextLoop env pts framesRequested queue t).1.SilenceSized := by
  induction queue generalizing t with
  | nil => exact h
  | cons head rest ih =>
    have hassert := @assert_sized t h t.mMediaTimeTransformValid .mediaTimeTransformInvalid
    rw [TimedTrack.getNextLoop]
    dsimp only
    split
    · exact (TimedTrack.yieldSilence_sized hassert framesRequested framesRequested).1
    · exact trimHead_sized hassert
    · exact hassert
    · exact ih (trimHead_sized hassert)
    · exact ih (trimHead_sized hassert)
    · exact hassert
    · rename_i framesUntilNextInput _
      exact (TimedTrack.yieldSilence_sized hassert framesUntilNextInput framesRequested).1
    · exact ih (@trimHead_sized { t.assert _ _ with mTimedAudioOutputOnTime := false } hassert _)
    · exact hassert

theorem trim_sized {t : TimedTrack} (h : t.SilenceSized) (clock : Clock) :
    (t.trimTimedBufferQueue_l clock).SilenceSized := by
  have hmark (n : ℕ) : (t.markQueueHead n).SilenceSized := by
    unfold TimedTrack.markQueueHead
    split <;> exact h
  unfold TimedTrack.trimTimedBufferQueue_l TimedTrack.removeTimedBuffers
  split
  · exact h
  · extract_lets trimEnd trimStart trimmed asserted
    split
    · have htrimmed : trimmed.SilenceSized := List.foldlRecOn _ _ (hmark trimEnd)
        fun t ht buf _ => @assert_sized (t.assert _ _) (assert_sized ht) _ _
      exact @assert_sized trimmed htrimmed _ _
    · exact hmark trimEnd

theorem releaseHead_sized {t : TimedTrack} (h : t.SilenceSized) (head : TimedBuffer)
    (rest : List TimedBuffer) (frameCount : U32) :
    (t.releaseHead head rest frameCount).SilenceSized := by
  unfold TimedTrack.releaseHead
  extract_lets head inHand asserted taken
  have htaken : taken.SilenceSized := @assert_sized inHand h _ _
  split
  · exact @trimHead_sized taken htaken _
  · exact htaken

/-- The silence is sized in every state of a run. -/
theorem run_sized {mFrameSize : U32} {mLocalTimeFreq : BitVec 64} {xform xform' : LinearTransform}
    {es : List Event} {s : Session}
    (hrun : run step (.new mFrameSize mLocalTimeFreq xform xform') es = some s) :
    s.track.SilenceSized := by
  refine run_invariant (I := fun s => s.track.SilenceSized) (fun s e s' hstep h => ?_) hrun rfl
  cases e with
  | setMediaTimeTransform xform target =>
    cases hstep
    exact h
  | queueTimedBuffer buffer pts =>
    cases hstep
    dsimp only [TimedTrack.queueTimedBuffer]
    split <;> exact h
  | allocateTimedBuffer clock =>
    cases hstep
    exact trim_sized h clock
  | getNextBuffer env framesRequested pts =>
    obtain ⟨-, hget⟩ := Option.ite_none_right_eq_some.mp hstep
    cases hget
    change (s.track.getNextBuffer env framesRequested pts).1.SilenceSized
    unfold TimedTrack.getNextBuffer
    split
    · exact h
    · exact getNextLoop_sized env pts framesRequested (assert_sized h)
  | releaseBuffer frameCount =>
    obtain ⟨-, hrelease⟩ := Option.ite_none_right_eq_some.mp hstep
    cases hrelease
    dsimp only [TimedTrack.releaseBuffer]
    split
    · exact assert_sized h
    · split
      · exact assert_sized (assert_sized h)
      · exact releaseHead_sized (assert_sized (assert_sized h)) _ _ _

/-! ## Every call -/

/-- A call hands out a region exactly when the queue supplies it: a head of which the late frames
are skipped up to its very end has none left. -/
theorem getNextBuffer_usable_iff (t : TimedTrack) (env : Environment) (framesRequested : U32)
    (pts : I64) (hsize : 0 < t.mFrameSize.toNat) (hrequested : 0 < framesRequested.toNat)
    (hsized : t.SilenceSized) :
    Usable (t.getNextBuffer env framesRequested pts).1 framesRequested
        (t.getNextBuffer env framesRequested pts).2.1 ↔
      (pts ≠ kInvalidPTS → Supplied t.HasFrame (t.HasSilence framesRequested) (t.verdict env pts)
        framesRequested t.mTimedAudioOutputOnTime t.mTimedBufferQueue) := by
  rw [TimedTrack.getNextBuffer]
  split_ifs with hpts
  · exact iff_of_true (fun hne => absurd rfl hne) fun hne => absurd hpts hne
  · obtain ⟨failures, hassert⟩ :=
      t.assert_eq (!t.mQueueHeadInFlight) .getNextBufferWithoutReleaseBuffer
    rw [hassert, imp_iff_right hpts]
    exact getNextLoop_usable_iff env pts hrequested t.mTimedBufferQueue
      { t with failures := failures } rfl hsize hsized

/-- A track with one buffer of four frames, from time 0 on. -/
def steadyTrack : TimedTrack :=
  ((steadySession.track.setMediaTimeTransform ⟨0#64, 0#64, 1#32, 1#32⟩ .LOCAL_TIME).queueTimedBuffer
    ⟨0, 16#32⟩ 0#64).1

theorem getNextBuffer_usable_threeLate :
    Usable (steadyTrack.getNextBuffer ⟨some, 1000#32⟩ 4#32 3#64).1 4#32
      (steadyTrack.getNextBuffer ⟨some, 1000#32⟩ 4#32 3#64).2.1 := by
  apply (getNextBuffer_usable_iff steadyTrack ⟨some, 1000#32⟩ 4#32 3#64 (by decide) (by decide)
    rfl).mpr
  intro _
  have hverdict : steadyTrack.verdict ⟨some, 1000#32⟩ 3#64 false ⟨⟨0, 16#32⟩, 0#64, 0#32, 0⟩ =
      .late 12#32 := by decide +kernel
  change Supplied _ _ _ _ false [⟨⟨0, 16#32⟩, 0#64, 0#32, 0⟩]
  rw [Supplied, hverdict]
  exact le_refl 16

/-- All four frames are late: the head is not dropped, and no frame of it is handed out. -/
theorem fourLate_empty :
    (steadyTrack.getNextBuffer ⟨some, 1000#32⟩ 4#32 4#64).2.1 = ⟨.memory 16, 0#32⟩ ∧
      ¬ Usable (steadyTrack.getNextBuffer ⟨some, 1000#32⟩ 4#32 4#64).1 4#32
        (steadyTrack.getNextBuffer ⟨some, 1000#32⟩ 4#32 4#64).2.1 := by
  have hbuffer : (steadyTrack.getNextBuffer ⟨some, 1000#32⟩ 4#32 4#64).2.1 =
      ⟨.memory 16, 0#32⟩ := by decide +kernel
  refine ⟨hbuffer, fun husable => ?_⟩
  rw [hbuffer] at husable
  exact absurd (husable nofun).nonempty (by decide)

end AudioFlinger.Timed
