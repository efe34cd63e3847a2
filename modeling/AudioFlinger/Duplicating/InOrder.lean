import AudioFlinger.Duplicating.OutputTrack

/-!
# What an output track writes, in order

The frames copied into the data buffer, followed by those that wait in the
queue, are the frames the calls of `write` accepted, in order. A call accepts
the silence that starts the track, its data and the silence that fills the data
buffer up after the end of the data; the part of its data that it could not
write is dropped as a whole when the queue is full or nobody would play it.
-/

namespace AudioFlinger.Duplicating

open Foundation Machine

variable {α : Type*}

/-- The frames copied and the frames pending. -/
def OutputTrack.delivered (t : OutputTrack α) : List α := t.copied ++ t.mBufferQueue.flatten

/-! ## The loop -/

/-- What the loop keeps: it moves frames from the queue and then from the data of the call into
the data buffer. -/
structure Writing.Moves (w w' : Writing α) : Prop where
  frames : w'.track.delivered ++ w'.inBuffer = w.track.delivered ++ w.inBuffer
  rest : w'.inBuffer <:+ w.inBuffer
  active : w'.track.mActive = w.track.mActive
  thread : w'.track.mThread = w.track.mThread
  queue : w'.track.mBufferQueue.length ≤ w.track.mBufferQueue.length

theorem Writing.Moves.refl (w : Writing α) : w.Moves w where
  frames := rfl
  rest := List.suffix_rfl
  active := rfl
  thread := rfl
  queue := le_rfl

theorem Writing.Moves.trans {w w' w'' : Writing α} (h : w.Moves w') (h' : w'.Moves w'') :
    w.Moves w'' where
  frames := h'.frames.trans h.frames
  rest := h'.rest.trans h.rest
  active := h'.active.trans h.active
  thread := h'.thread.trans h.thread
  queue := h'.queue.trans h.queue

/-- Obtaining a window moves no frame. -/
theorem Writing.moves_obtain (w : Writing α) (mFrameCount : U32) (turn : Turn) :
    w.Moves (w.obtain mFrameCount turn).1 := by
  have hobtain (n : ℕ) :
      (w.track.obtainBuffer mFrameCount n turn.servers).1.delivered = w.track.delivered ∧
        (w.track.obtainBuffer mFrameCount n turn.servers).1.mActive = w.track.mActive ∧
        (w.track.obtainBuffer mFrameCount n turn.servers).1.mThread = w.track.mThread ∧
        (w.track.obtainBuffer mFrameCount n turn.servers).1.mBufferQueue =
          w.track.mBufferQueue := by
    unfold OutputTrack.obtainBuffer
    dsimp only
    split_ifs <;> exact ⟨rfl, rfl, rfl, rfl⟩
  obtain ⟨hframes, hactive, hthread, hqueue⟩ := hobtain w.pInBuffer.length
  unfold Writing.obtain
  split_ifs
  · exact ⟨congrArg (· ++ w.inBuffer) hframes, List.suffix_rfl, hactive, hthread,
      (congrArg List.length hqueue).le⟩
  · exact Writing.Moves.refl w

theorem flatten_dropFront (n : ℕ) (pending : List α) (rest : List (List α)) :
    (dropFront n pending rest).flatten = pending.drop n ++ rest.flatten := by
  unfold dropFront
  split_ifs with hnil
  · rw [hnil, List.nil_append]
  · rw [List.flatten_cons]

theorem length_dropFront (n : ℕ) (pending : List α) (rest : List (List α)) :
    (dropFront n pending rest).length ≤ rest.length + 1 := by
  unfold dropFront
  split_ifs <;> simp

theorem Writing.moves_copy (w : Writing α) (mFrameCount : U32) :
    w.Moves (w.copy mFrameCount).1 := by
  rcases hq : w.track.mBufferQueue with _ | ⟨pending, rest⟩
  · have hp : w.pInBuffer = w.inBuffer := by simp [Writing.pInBuffer, hq]
    have hcopy : (w.copy mFrameCount).1.inBuffer =
        w.inBuffer.drop (min w.inBuffer.length w.track.mOutBuffer.frameCount) := by
      simp [Writing.copy, hq, hp]
    refine ⟨?_, ?_, ?_, ?_, ?_⟩
    · rw [hcopy]
      simp [Writing.copy, hq, hp, OutputTrack.copyOut, OutputTrack.delivered]
    · rw [hcopy]
      exact List.drop_suffix _ _
    all_goals simp [Writing.copy, hq, OutputTrack.copyOut]
  · have hp : w.pInBuffer = pending := by simp [Writing.pInBuffer, hq]
    refine ⟨?_, ?_, ?_, ?_, ?_⟩
    · have hsplit := List.take_append_drop (min pending.length w.track.mOutBuffer.frameCount) pending
      simp only [Writing.copy, hq, hp, OutputTrack.copyOut, OutputTrack.delivered,
        flatten_dropFront, List.flatten_cons, List.append_assoc]
      rw [← List.append_assoc (List.take _ _), hsplit]
    all_goals simp [Writing.copy, hq, OutputTrack.copyOut, length_dropFront]

theorem Writing.moves_loop {mFrameCount : U32} {turns : List Turn} {w w' : Writing α} {full : Bool}
    (h : w.loop mFrameCount turns = some (w', full)) : w.Moves w' := by
  induction turns generalizing w with
  | nil =>
    rw [Writing.loop] at h
    split_ifs at h
    cases h
    exact Writing.Moves.refl _
  | cons turn turns ih =>
    rw [Writing.loop] at h
    split_ifs at h
    · cases h
      exact Writing.Moves.refl _
    · have hobtain := w.moves_obtain mFrameCount turn
      revert h hobtain
      rcases w.obtain mFrameCount turn with ⟨w₁, _ | _⟩
      · rintro ⟨⟩ hobtain
        exact hobtain
      · intro h hobtain
        have hcopy := w₁.moves_copy mFrameCount
        revert h hcopy
        dsimp only
        rcases w₁.copy mFrameCount with ⟨w₂, _ | _⟩
        · rintro ⟨⟩ hcopy
          exact hobtain.trans hcopy
        · intro h hcopy
          exact (hobtain.trans hcopy).trans (ih h)

/-! ## The unwritten tail -/

/-- The queue is full, or the playback thread is in standby or gone. -/
def Writing.Drops (w : Writing α) (c : Call α) : Prop :=
  kMaxOverFlowBuffers ≤ w.track.mBufferQueue.length ∨ c.standby ∨ w.track.mThread = false ∨
    c.goneAtTail

instance (w : Writing α) (c : Call α) : Decidable (w.Drops c) :=
  inferInstanceAs (Decidable (_ ∨ _))

/-- The data of the call, without the unwritten tail if that is dropped. -/
def Writing.passed (w : Writing α) (c : Call α) : List α :=
  if w.Drops c then c.data.take (c.data.length - w.inBuffer.length) else c.data

/-- The unwritten tail is queued or dropped as a whole. -/
theorem Writing.delivered_keepTail (w : Writing α) (c : Call α) :
    (w.track.keepTail w.inBuffer c).delivered =
      w.track.delivered ++ if w.Drops c then [] else w.inBuffer := by
  unfold OutputTrack.keepTail
  by_cases hnil : w.inBuffer = []
  · simp [hnil]
  · have hkeep : ((w.track.promote c.goneAtTail).mThread ∧ c.standby = false ∧
        (w.track.promote c.goneAtTail).mBufferQueue.length < kMaxOverFlowBuffers) ↔
        ¬ w.Drops c := by
      simp only [OutputTrack.promote, Writing.Drops]
      cases w.track.mThread <;> cases c.goneAtTail <;> cases c.standby <;> simp
    rw [if_pos hnil]
    dsimp only
    by_cases hdrops : w.Drops c
    · rw [if_neg fun hk => hkeep.mp hk hdrops, if_pos hdrops]
      simp [OutputTrack.promote, OutputTrack.delivered]
    · rw [if_pos (hkeep.mpr hdrops), if_neg hdrops]
      simp [OutputTrack.promote, OutputTrack.delivered]

theorem OutputTrack.active_keepTail (t : OutputTrack α) (inBuffer : List α) (c : Call α) :
    (t.keepTail inBuffer c).mActive = t.mActive := by
  unfold OutputTrack.keepTail
  dsimp only
  split_ifs <;> rfl

theorem OutputTrack.keepTail_nil (t : OutputTrack α) (c : Call α) : t.keepTail [] c = t :=
  if_neg (not_not_intro rfl)

theorem OutputTrack.queue_keepTail {t : OutputTrack α} (h : t.mThread = false)
    (inBuffer : List α) (c : Call α) :
    (t.keepTail inBuffer c).mBufferQueue = t.mBufferQueue := by
  simp [OutputTrack.keepTail, OutputTrack.promote, h]
  split_ifs <;> rfl

/-- A track that is not active has at most one pending buffer: the silence after the end of
the data. -/
def Settled (t : OutputTrack α) : Prop := t.mActive = false → t.mBufferQueue.length ≤ 1

theorem settled_stop (t : OutputTrack α) (resets : Bool) : Settled (t.stop resets) := by
  intro _
  exact Nat.zero_le _

/-! ## What a call accepts -/

variable [Zero α]

/-- The silence with which the call starts the track: it fills the data buffer with the first
frames. -/
def OutputTrack.startSilence (t : OutputTrack α) (mFrameCount : U32) (c : Call α) : List α :=
  if t.mActive = false ∧ c.data ≠ [] ∧ t.mThread ∧ c.goneAtStart = false ∧
      c.goneAtSilence = false then
    silence (mFrameCount.toNat - c.data.length)
  else []

/-- The silence after the end of the data. -/
def Writing.endSilence (w : Writing α) (mFrameCount : U32) (c : Call α) : List α :=
  if c.data = [] ∧ w.track.mBufferQueue = [] then
    silence (mFrameCount.toNat - w.track.mCblk.user.toNat)
  else []

/-- What a call is to pass on: the silence at the start and its data. -/
def OutputTrack.promised (t : OutputTrack α) (mFrameCount : U32) (c : Call α) : List α :=
  match t.writing mFrameCount c with
  | some (w, _) => t.startSilence mFrameCount c ++ w.passed c
  | none => []

/-- What a call does pass on, which has the silence at the end as well. -/
def OutputTrack.accepted (t : OutputTrack α) (mFrameCount : U32) (c : Call α) : List α :=
  match t.writing mFrameCount c with
  | some (w, _) => t.startSilence mFrameCount c ++ w.passed c ++ w.endSilence mFrameCount c
  | none => []

/-- A call of `write` as a step of the track. -/
def writeStep (mFrameCount : U32) (t : OutputTrack α) (c : Call α) : Option (OutputTrack α) :=
  (t.write mFrameCount c).map Prod.fst

/-- What the calls of a session pass on, one after the other. -/
def account (mFrameCount : U32) (passes : OutputTrack α → Call α → List α) :
    OutputTrack α → List (Call α) → List α
  | _, [] => []
  | t, c :: cs =>
    passes t c ++ ((writeStep mFrameCount t c).map fun t' =>
      account mFrameCount passes t' cs).getD []

/-! ## The life of a track -/

inductive Event (α : Type*)
  | write (c : Call α)
  | stop (resets : Bool)
  /-- The playback thread resets a track that it finds stopped. -/
  | reset

def step (mFrameCount : U32) (t : OutputTrack α) : Event α → Option (OutputTrack α)
  | .write c => writeStep mFrameCount t c
  | .stop resets => some (t.stop resets)
  | .reset => if t.mActive then none else some t.reset

/-- Starting the track puts the silence behind what is pending. It is never turned away. -/
theorem Settled.delivered_begin {t : OutputTrack α} (h : Settled t) (mFrameCount : U32)
    (c : Call α) :
    (t.begin mFrameCount c).delivered = t.delivered ++ t.startSilence mFrameCount c := by
  unfold OutputTrack.begin OutputTrack.startSilence
  by_cases hstart : t.mActive = false ∧ c.data ≠ []
  · have hroom : t.mBufferQueue.length < kMaxOverFlowBuffers :=
      (h hstart.1).trans_lt (by decide)
    rw [if_pos hstart]
    cases hthread : t.mThread <;> cases hgone : c.goneAtStart <;>
      cases hgone' : c.goneAtSilence <;>
      simp [OutputTrack.start, OutputTrack.promote, OutputTrack.delivered, hthread, hroom,
        hstart.1, hstart.2]
    split_ifs with hfew
    · simp
    · simp [silence, Nat.sub_eq_zero_of_le (Nat.le_of_not_lt hfew)]
  · rw [if_neg hstart, if_neg fun hall => hstart ⟨hall.1, hall.2.1⟩, List.append_nil]

/-- A track that is still not active after the start has no playback thread, or it was given no
data. -/
theorem Settled.begin {t : OutputTrack α} (h : Settled t) (mFrameCount : U32) (c : Call α) :
    (t.begin mFrameCount c).mActive = false →
      (t.begin mFrameCount c).mBufferQueue.length ≤ 1 ∧
        (c.data = [] ∨ (t.begin mFrameCount c).mThread = false) := by
  unfold OutputTrack.begin
  by_cases hstart : t.mActive = false ∧ c.data ≠ []
  · have hlen := h hstart.1
    rw [if_pos hstart]
    cases hthread : t.mThread <;> cases hgone : c.goneAtStart <;>
      cases hgone' : c.goneAtSilence <;>
      simp [OutputTrack.start, OutputTrack.promote, hthread, hstart.1, hlen]
    split_ifs <;> simp
  · rw [if_neg hstart]
    intro hactive
    exact ⟨h hactive, Or.inl (by_contra fun hdata => hstart ⟨hactive, hdata⟩)⟩

theorem OutputTrack.delivered_finish (t : OutputTrack α) (mFrameCount : U32) (c : Call α) :
    (t.finish mFrameCount c).delivered =
      t.delivered ++ if c.data = [] ∧ t.mBufferQueue = [] then
        silence (mFrameCount.toNat - t.mCblk.user.toNat) else [] := by
  unfold OutputTrack.finish
  by_cases hend : c.data = [] ∧ t.mBufferQueue = []
  · rw [if_pos hend, if_pos hend]
    by_cases hroom : t.mCblk.user < mFrameCount
    · rw [if_pos hroom, BitVec.toNat_sub_of_le (BitVec.le_of_lt hroom)]
      simp [OutputTrack.delivered, hend.2]
    · have hle := BitVec.le_def.mp (BitVec.not_lt.mp hroom)
      rw [if_neg hroom, Nat.sub_eq_zero_of_le hle]
      split_ifs
      · unfold OutputTrack.stop
        dsimp only
        split_ifs <;> simp [OutputTrack.delivered, OutputTrack.reset, hend.2, silence]
      · simp [silence]
  · rw [if_neg hend, if_neg hend, List.append_nil]

/-- The end of a call settles the track if it is settled so far. -/
theorem Settled.finish {t : OutputTrack α} (h : Settled t) (mFrameCount : U32) (c : Call α) :
    Settled (t.finish mFrameCount c) := by
  unfold OutputTrack.finish
  split_ifs
  · intro _
    exact le_rfl
  · exact settled_stop t c.resets
  · exact h
  · exact h

theorem moves_writing {mFrameCount : U32} {t : OutputTrack α} {c : Call α} {w : Writing α}
    {full : Bool} (h : t.writing mFrameCount c = some (w, full)) :
    ∃ written, written ++ w.inBuffer = c.data ∧
      w.track.delivered = (t.begin mFrameCount c).delivered ++ written ∧
      w.track.mActive = (t.begin mFrameCount c).mActive ∧
      w.track.mThread = (t.begin mFrameCount c).mThread ∧
      w.track.mBufferQueue.length ≤ (t.begin mFrameCount c).mBufferQueue.length := by
  have hmoves := Writing.moves_loop h
  obtain ⟨written, hdata⟩ := hmoves.rest
  have hframes := hmoves.frames
  rw [← hdata, ← List.append_assoc] at hframes
  exact ⟨written, hdata, List.append_cancel_right hframes, hmoves.active, hmoves.thread,
    hmoves.queue⟩

/-- A call of `write` passes on what it accepts. -/
theorem Settled.delivered_write {mFrameCount : U32} {t : OutputTrack α} {c : Call α}
    {w : Writing α} {full : Bool} (h : Settled t)
    (hloop : t.writing mFrameCount c = some (w, full)) :
    ((w.track.keepTail w.inBuffer c).finish mFrameCount c).delivered =
      t.delivered ++
        (t.startSilence mFrameCount c ++ w.passed c ++ w.endSilence mFrameCount c) := by
  obtain ⟨written, hdata, hframes, -⟩ := moves_writing hloop
  have hpassed : w.track.delivered ++ (if w.Drops c then [] else w.inBuffer) =
      t.delivered ++ t.startSilence mFrameCount c ++ w.passed c := by
    rw [hframes, h.delivered_begin, Writing.passed, ← hdata]
    split_ifs <;> simp
  have hend : (if c.data = [] ∧ (w.track.keepTail w.inBuffer c).mBufferQueue = [] then
      silence (mFrameCount.toNat - (w.track.keepTail w.inBuffer c).mCblk.user.toNat) else []) =
      w.endSilence mFrameCount c := by
    by_cases hnil : c.data = []
    · rw [(List.append_eq_nil_iff.mp (hdata.trans hnil)).2, OutputTrack.keepTail_nil]
      rfl
    · simp [Writing.endSilence, hnil]
  rw [OutputTrack.delivered_finish, Writing.delivered_keepTail, hpassed, hend]
  simp only [List.append_assoc]

theorem Settled.write {mFrameCount : U32} {t : OutputTrack α} {c : Call α} {w : Writing α}
    {full : Bool} (h : Settled t) (hloop : t.writing mFrameCount c = some (w, full)) :
    Settled ((w.track.keepTail w.inBuffer c).finish mFrameCount c) := by
  obtain ⟨written, hdata, -, hactive, hthread, hqueue⟩ := moves_writing hloop
  apply Settled.finish
  intro hstopped
  rw [OutputTrack.active_keepTail, hactive] at hstopped
  obtain ⟨hone, hnil | hgone⟩ := h.begin mFrameCount c hstopped
  · rw [(List.append_eq_nil_iff.mp (hdata.trans hnil)).2, OutputTrack.keepTail_nil]
    exact hqueue.trans hone
  · rw [OutputTrack.queue_keepTail (hthread.trans hgone)]
    exact hqueue.trans hone

theorem Settled.writeStep {mFrameCount : U32} {t t' : OutputTrack α} {c : Call α} (h : Settled t)
    (hw : writeStep mFrameCount t c = some t') :
    t'.delivered = t.delivered ++ t.accepted mFrameCount c ∧ Settled t' := by
  unfold Duplicating.writeStep OutputTrack.write at hw
  rcases hloop : t.writing mFrameCount c with _ | ⟨w, full⟩
  · rw [hloop] at hw
    cases hw
  · rw [hloop] at hw
    cases hw
    refine ⟨?_, h.write hloop⟩
    rw [OutputTrack.accepted, hloop]
    exact h.delivered_write hloop

theorem settled_step {mFrameCount : U32} (t : OutputTrack α) (e : Event α) (t' : OutputTrack α)
    (hstep : step mFrameCount t e = some t') (h : Settled t) : Settled t' := by
  cases e with
  | write c => exact (h.writeStep hstep).2
  | stop resets =>
    cases hstep
    exact settled_stop t resets
  | reset =>
    rw [step] at hstep
    split_ifs at hstep
    cases hstep
    exact h

theorem delivered_writes {mFrameCount : U32} {t t' : OutputTrack α} (h : Settled t)
    {cs : List (Call α)} (hrun : run (writeStep mFrameCount) t cs = some t') :
    t'.delivered =
      t.delivered ++ account mFrameCount (OutputTrack.accepted · mFrameCount) t cs := by
  induction cs generalizing t with
  | nil =>
    cases hrun
    rw [account, List.append_nil]
  | cons c cs ih =>
    obtain ⟨m, hm, hrest⟩ := run_cons_some.mp hrun
    obtain ⟨hdelivered, hsettled⟩ := h.writeStep hm
    rw [ih hsettled hrest, hdelivered, account, hm, List.append_assoc]
    rfl

/-- In every run of an output track, calls of `write` copy and queue exactly the frames they
accept, in order. -/
theorem outputTrack_inOrder (mFrameCount : U32) (mBuffer : ℕ → α) (es : List (Event α))
    (t : OutputTrack α) (hrun : run (step mFrameCount) (.init mBuffer) es = some t)
    (cs : List (Call α)) (t' : OutputTrack α)
    (hwrites : run (writeStep mFrameCount) t cs = some t') :
    t'.copied ++ t'.mBufferQueue.flatten =
      t.copied ++ t.mBufferQueue.flatten ++
        account mFrameCount (OutputTrack.accepted · mFrameCount) t cs :=
  delivered_writes (run_invariant settled_step hrun fun _ => Nat.zero_le _) hwrites

/-- A call that finds the server at `0` in every wait. -/
def Call.plain (data : List α) (turns : ℕ) (standby : Bool) : Call α where
  data := data
  waitTimeMs := 10#32
  turns := List.replicate turns { servers := [0#32], waitTimeMs := 1#32 } ++
    [{ servers := [], waitTimeMs := 1#32 }]
  goneAtStart := false
  goneAtSilence := false
  goneAtTail := false
  standby := standby
  resets := false

/-- Over a data buffer of four frames: the second call finds no room and queues its frames. -/
theorem outputTrack_inOrder_queued : ∃ t',
    run (writeStep 4#32) (.init fun _ => 0) [.plain [5, 6] 2 false, .plain [7] 0 false] =
        some t' ∧
      t'.copied = [0, 0, 5, 6] ∧ t'.mBufferQueue = [[7]] ∧
      t'.copied ++ t'.mBufferQueue.flatten = [] ++
        account 4#32 (OutputTrack.accepted · 4#32) (.init fun _ => 0)
          [.plain [5, 6] 2 false, .plain [7] 0 false] :=
  ⟨_, rfl, rfl, rfl, outputTrack_inOrder 4#32 (fun _ => 0) [] _ rfl
    [.plain [5, 6] 2 false, .plain [7] 0 false] _ rfl⟩

/-- The playback thread is in standby, so that the tail of the first call is dropped; the call
that ends the data then queues silence that no call was given. -/
theorem endSilence_unpromised : ∃ t' : OutputTrack ℕ,
    run (writeStep 4#32) (.init fun _ => 0) [.plain [5, 6] 1 true, .plain [] 0 true] = some t' ∧
      t'.copied = [0, 0] ∧ t'.mBufferQueue = [[0, 0]] ∧
      t'.copied ++ t'.mBufferQueue.flatten ≠
        account 4#32 (OutputTrack.promised · 4#32) (.init fun _ => 0)
          [.plain [5, 6] 1 true, .plain [] 0 true] :=
  ⟨_, rfl, rfl, rfl, by decide⟩

end AudioFlinger.Duplicating
