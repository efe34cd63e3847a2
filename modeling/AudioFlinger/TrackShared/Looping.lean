import AudioFlinger.TrackShared.Bases

/-!
# Loops and seeks on a playback track

`setLoop_l` makes `stepServer` jump back and `setPosition` moves `server`
directly. Neither moves `serverBase`, so the range check of
`TrackBase::getBuffer` holds as long as both leave `server` in a lap that the
base can follow.
-/

namespace AudioFlinger.TrackShared

open Foundation Machine

variable {α : Type*}

/-! ## The client calls -/

inductive Status
  | BAD_VALUE
  | INVALID_OPERATION
  deriving DecidableEq, Repr

/-- The members of an `AudioTrack` that its loop and position calls check. -/
structure AudioTrack where
  mFrameCount : U32
  /-- The data comes in a static buffer shared by the client. -/
  mSharedBuffer : Bool
  mIsTimed : Bool
  deriving DecidableEq, Repr

def AudioTrack.setLoop_l (t : AudioTrack) (c : Cblk) (loopStart loopEnd : U32)
    (loopCount : ℤ) : Except Status Cblk :=
  if t.mIsTimed then .error .INVALID_OPERATION
  else if loopCount = 0 then
    .ok { c with loopStart := UINT_MAX, loopEnd := UINT_MAX, loopCount := 0 }
  else if loopEnd ≤ loopStart ∨ t.mFrameCount < loopEnd - loopStart ∨ loopStart < c.server then
    .error .BAD_VALUE
  else if t.mSharedBuffer ∧ t.mFrameCount < loopEnd then .error .BAD_VALUE
  else .ok { c with loopStart := loopStart, loopEnd := loopEnd, loopCount := loopCount }

/-- `setPosition`, with the answer of `stopped_l`. -/
def AudioTrack.setPosition (t : AudioTrack) (c : Cblk) (position : U32) (stopped : Bool) :
    Except Status Cblk :=
  if ¬ t.mSharedBuffer ∨ t.mIsTimed then .error .INVALID_OPERATION
  else if ¬ stopped then .error .INVALID_OPERATION
  else if c.user < position then .error .BAD_VALUE
  else .ok { c with server := position, flags := c.flags ||| CBLK_FORCEREADY }

/-! ## The range check -/

/-- The data buffer of a track, which ends inside the address space. -/
structure TrackBuffer where
  mBuffer : U32
  mFrameSize : U32
  frameCount : U32
  fits : mBuffer.toNat + frameCount.toNat * mFrameSize.toNat < 2 ^ 32

def TrackBuffer.mBufferEnd (t : TrackBuffer) : U32 := t.mBuffer + t.frameCount * t.mFrameSize

/-- `TrackBase::getBuffer`; `none` when its range check fails. -/
def TrackBuffer.getBuffer (t : TrackBuffer) (c : Cblk) (offset frames : U32) : Option U32 :=
  let bufferStart := t.mBuffer + (offset - c.serverBase) * t.mFrameSize
  let bufferEnd := bufferStart + frames * t.mFrameSize
  if bufferStart < t.mBuffer ∨ bufferEnd < bufferStart ∨ t.mBufferEnd < bufferEnd then none
  else some bufferStart

/-- The range check accepts a region inside the data buffer. -/
theorem TrackBuffer.getBuffer_isSome (t : TrackBuffer) {c : Cblk} {offset frames : U32}
    (h : (offset - c.serverBase).toNat + frames.toNat ≤ t.frameCount.toNat) :
    (t.getBuffer c offset frames).isSome := by
  have hfits := t.fits
  have hbytes : (offset - c.serverBase).toNat * t.mFrameSize.toNat +
      frames.toNat * t.mFrameSize.toNat ≤ t.frameCount.toNat * t.mFrameSize.toNat := by
    rw [← Nat.add_mul]
    exact Nat.mul_le_mul_right _ h
  have hstart : ((offset - c.serverBase) * t.mFrameSize).toNat =
      (offset - c.serverBase).toNat * t.mFrameSize.toNat := by
    rw [BitVec.toNat_mul, Nat.mod_eq_of_lt (by lia)]
  have hframes : (frames * t.mFrameSize).toNat = frames.toNat * t.mFrameSize.toNat := by
    rw [BitVec.toNat_mul, Nat.mod_eq_of_lt (by lia)]
  have hend : (t.frameCount * t.mFrameSize).toNat = t.frameCount.toNat * t.mFrameSize.toNat := by
    rw [BitVec.toNat_mul, Nat.mod_eq_of_lt (by lia)]
  unfold TrackBuffer.getBuffer TrackBuffer.mBufferEnd
  dsimp only
  rw [if_neg]
  · rfl
  · simp only [BitVec.lt_def, BitVec.toNat_add, hstart, hframes, hend]
    lia

/-! ## The server in its lap and behind the loop end -/

/-- A jump back to the loop start lands in a lap. -/
def Cblk.JumpLands (c : Cblk) (stepCount frameCount : U32) : Prop :=
  c.loopEnd ≤ c.serverTarget stepCount true →
    Landing c.serverBase.toNat (c.loopStart - c.serverBase).toNat frameCount.toNat

instance (c : Cblk) (stepCount frameCount : U32) : Decidable (c.JumpLands stepCount frameCount) :=
  inferInstanceAs (Decidable (_ → _))

structure Cblk.InLoop (c : Cblk) (frameCount : U32) : Prop where
  lap : (c.server - c.serverBase).toNat ≤ frameCount.toNat
  server_le : c.server ≤ c.loopEnd
  loop_le : c.loopStart ≤ c.loopEnd

section InLoop

variable {c : Cblk} {N : U32}

theorem Cblk.InLoop.setLoop_l (h : c.InLoop N) {t : AudioTrack} {loopStart loopEnd : U32}
    {loopCount : ℤ} {c' : Cblk} (hc : t.setLoop_l c loopStart loopEnd loopCount = .ok c') :
    c'.InLoop N ∧ c'.server = c.server ∧ c'.serverBase = c.serverBase := by
  unfold AudioTrack.setLoop_l at hc
  split_ifs at hc with htimed hzero hbad hshared <;> cases hc
  · exact ⟨⟨h.lap, le_UINT_MAX _, le_UINT_MAX _⟩, rfl, rfl⟩
  · have hlt : loopStart < loopEnd := BitVec.not_le.mp fun hle => hbad (Or.inl hle)
    have hserver : c.server ≤ loopStart := BitVec.not_lt.mp fun hlt => hbad (Or.inr (Or.inr hlt))
    have hle := BitVec.le_of_lt hlt
    exact ⟨⟨h.lap, BitVec.le_trans hserver hle, hle⟩, rfl, rfl⟩

/-- What an accepted `setPosition` does. -/
theorem AudioTrack.setPosition_ok {t : AudioTrack} {position : U32} {stopped : Bool} {c' : Cblk}
    (hc : t.setPosition c position stopped = .ok c') :
    c' = { c with server := position, flags := c.flags ||| CBLK_FORCEREADY } := by
  unfold AudioTrack.setPosition at hc
  split_ifs at hc
  cases hc
  rfl

/-- The position from which `stepServer` looks at the loop lands in a lap. -/
theorem Cblk.InLoop.target (h : c.InLoop N) {k : U32}
    (hland : Landing c.serverBase.toNat ((c.server - c.serverBase).toNat + k.toNat) N.toNat) :
    Landing c.serverBase.toNat (c.serverTarget k true - c.serverBase).toNat N.toNat := by
  unfold Cblk.serverTarget
  split_ifs with hlevel
  · rw [← hlevel.2]
    exact Or.inl h.lap
  · have hdist : c.server + k - c.serverBase = c.server - c.serverBase + k := by
      rw [BitVec.sub_eq_add_neg, BitVec.sub_eq_add_neg, BitVec.add_assoc,
        BitVec.add_comm k, ← BitVec.add_assoc]
    rw [hdist, BitVec.toNat_add]
    exact hland.of_le (Nat.mod_le _ _)

theorem Cblk.InLoop.stepServer (h : c.InLoop N) {k : U32} (hjump : c.JumpLands k N)
    (hland : Landing c.serverBase.toNat ((c.server - c.serverBase).toNat + k.toNat) N.toNat)
    {c' : Cblk} (hc : c.stepServer k N true true = some c') : c'.InLoop N := by
  have htarget := h.target hland
  unfold Cblk.JumpLands at hjump
  simp only [Cblk.stepServer, if_true] at hc
  cases hc
  refine ⟨?_, ?_, ?_⟩
  · simp only [advanceBase_lap_iff, Cblk.loopJump]
    split_ifs with hend
    · exact hjump hend
    · exact htarget
  -- the loop markers are either kept or cleared together
  · simp only [Cblk.loopJump, Cblk.loopPass]
    split_ifs with hend hlast
    · exact le_UINT_MAX _
    · exact h.loop_le
    · exact BitVec.le_of_lt (BitVec.not_le.mp hend)
  · simp only [Cblk.loopPass]
    split_ifs with hend hlast
    · exact le_UINT_MAX _
    · exact h.loop_le
    · exact h.loop_le

/-- The end of the lap or of the loop, whichever comes first, lies inside the lap. -/
theorem Cblk.InLoop.bufferEnd (h : c.InLoop N) :
    (c.server - c.serverBase).toNat + (c.bufferEnd N - c.server).toNat ≤ N.toNat := by
  have hroom := room_of_lap h.lap
  have hlap := h.lap
  have hle := h.server_le
  unfold Cblk.bufferEnd
  split_ifs with hend
  · have hs := c.server.isLt
    have hb := c.serverBase.isLt
    have hn := N.isLt
    simp only [BitVec.le_def, BitVec.lt_def, BitVec.toNat_sub, BitVec.toNat_add] at *
    omega
  · omega

theorem Cblk.InLoop.getNextBuffer (h : c.InLoop N) {req : U32} {locked : Bool} {r : Region}
    (hr : Track.getNextBuffer c N req locked = some r) :
    r.start = c.server - c.serverBase ∧ r.Inside N.toNat := by
  unfold Track.getNextBuffer handOut at hr
  split_ifs at hr
  cases hr
  refine ⟨rfl, ?_⟩
  have hclip := clip_le_room req (c.framesReady true locked) (c.bufferEnd N - c.server)
  have hend := h.bufferEnd
  simp only [Region.Inside]
  omega

end InLoop

/-! ## Runs -/

/-- The calls of a playback session together with the client's loop and position calls. -/
inductive TrackEvent (α : Type*)
  | transfer (e : Event α)
  | setLoop (loopStart loopEnd : U32) (loopCount : ℤ)
  | setPosition (position : U32) (stopped : Bool)

/-- The session after a call that updates the control block or fails. -/
def Session.update (s : Session α) : Except Status Cblk → Session α
  | .ok c => { s with cblk := c }
  | .error _ => s

def trackStep (t : AudioTrack) (s : Session α) : TrackEvent α → Option (Session α)
  | .transfer e => step t.mFrameCount true s e
  | .setLoop loopStart loopEnd loopCount =>
    some (s.update (t.setLoop_l s.cblk loopStart loopEnd loopCount))
  | .setPosition position stopped => some (s.update (t.setPosition s.cblk position stopped))

/-- A new or restored track. The data of a static buffer is present from the start. -/
def AudioTrack.start (t : AudioTrack) (b : U32) (mem : ℕ → α) : Session α :=
  { Session.start b mem with
    cblk :=
      if t.mSharedBuffer then (Cblk.start b).stepUser t.mFrameCount t.mFrameCount true
      else Cblk.start b }

/-- The frames the server may still step over before it gets the next buffer. -/
def Session.held (s : Session α) : ℕ :=
  match s.server with
  | some r => r.frameCount.toNat
  | none => if s.track.mStepServerFailed then s.track.mStepCount.toNat else 0

/-- The calls that move `server` backwards keep it in a lap: a jump to the loop start lands,
and an accepted position lies in the lap of `serverBase`, not behind the loop end, and so that
the frames still held land. -/
def KeepsLap (t : AudioTrack) (s : Session α) : TrackEvent α → Prop
  | .transfer (.getNextBuffer _ lockStep _) =>
    s.track.mStepServerFailed = true → lockStep = true →
      s.cblk.JumpLands s.track.mStepCount t.mFrameCount
  | .transfer (.releaseBuffer released locked) =>
    locked = true → s.cblk.JumpLands released t.mFrameCount
  | .setPosition position stopped =>
    (t.setPosition s.cblk position stopped).toBool = true →
      position ≤ s.cblk.loopEnd ∧
        (position - s.cblk.serverBase).toNat ≤ t.mFrameCount.toNat ∧
        Landing s.cblk.serverBase.toNat
          ((position - s.cblk.serverBase).toNat + s.held) t.mFrameCount.toNat
  | _ => True

instance (t : AudioTrack) (s : Session α) (e : TrackEvent α) : Decidable (KeepsLap t s e) :=
  match e with
  | .transfer (.getNextBuffer _ _ _) => inferInstanceAs (Decidable (_ → _ → _))
  | .transfer (.releaseBuffer _ _) => inferInstanceAs (Decidable (_ → _))
  | .setPosition _ _ => inferInstanceAs (Decidable (_ → _))
  | .transfer (.obtainBuffer _) => inferInstanceAs (Decidable True)
  | .transfer (.fill _ _) => inferInstanceAs (Decidable True)
  | .transfer (.stepUser _) => inferInstanceAs (Decidable True)
  | .setLoop _ _ _ => inferInstanceAs (Decidable True)

/-- The server stays in a lap, also after stepping over all that it holds. -/
structure Looping (N : U32) (s : Session α) : Prop where
  cblk : s.cblk.InLoop N
  inside : ∀ r, s.server = some r → r.Inside N.toNat
  server_ok : s.server ≠ none → s.track.mStepServerFailed = false
  held : Landing s.cblk.serverBase.toNat
    ((s.cblk.server - s.cblk.serverBase).toNat + s.held) N.toNat

theorem AudioTrack.looping_start (t : AudioTrack) (b : U32) (mem : ℕ → α) :
    Looping t.mFrameCount (t.start b mem) := by
  have hloop : (t.start b mem).cblk.InLoop t.mFrameCount ∧
      (t.start b mem).cblk.server - (t.start b mem).cblk.serverBase = 0#32 := by
    unfold AudioTrack.start
    cases t.mSharedBuffer <;>
      exact ⟨⟨by simp [Cblk.stepUser, Cblk.start], le_UINT_MAX _, le_UINT_MAX _⟩,
        BitVec.sub_self _⟩
  exact
    { cblk := hloop.1
      inside := by simp [AudioTrack.start, Session.start]
      server_ok := by simp [AudioTrack.start, Session.start]
      held := by
        rw [hloop.2]
        exact Or.inl (Nat.zero_le _) }

section Step

variable {t : AudioTrack} {N : U32} {s : Session α}

theorem Looping.server_none (h : Looping N s) (hf : s.track.mStepServerFailed = true) :
    s.server = none := by
  by_contra hne
  simp [h.server_ok hne] at hf

/-- The client's own calls leave the server alone. -/
theorem Looping.client (h : Looping N s) {s' : Session α}
    (hserver : s'.server = s.server) (htrack : s'.track = s.track)
    (hindex : s'.cblk.server = s.cblk.server) (hbase : s'.cblk.serverBase = s.cblk.serverBase)
    (hloop : s'.cblk.InLoop N) : Looping N s' where
  cblk := hloop
  inside := by simpa [hserver] using h.inside
  server_ok := by simpa [hserver, htrack] using h.server_ok
  held := by simpa [Session.held, hserver, htrack, hindex, hbase] using h.held

theorem Looping.stepServer (h : Looping N s) {k : U32} (hk : k.toNat ≤ s.held)
    (hjump : s.cblk.JumpLands k N) {c : Cblk} (hc : s.cblk.stepServer k N true true = some c)
    {u : TrackBase} (hu : u.mStepServerFailed = false) {s' : Session α}
    (hcblk : s'.cblk = c) (htrack : s'.track = u) (hserver : s'.server = none) :
    Looping N s' := by
  have hloop := h.cblk.stepServer hjump (h.held.of_le (by omega)) hc
  exact
    { cblk := by rwa [hcblk]
      inside := by simp [hserver]
      server_ok := by simp [hserver]
      held := by
        have hheld : s'.held = 0 := by simp [Session.held, hserver, htrack, hu]
        rw [hheld, hcblk]
        exact Or.inl hloop.lap }

theorem Looping.getNextBuffer (h : Looping N s) (hfailed : s.track.mStepServerFailed = false)
    (req : U32) (lockReady : Bool) :
    Looping N { s with server := Track.getNextBuffer s.cblk N req lockReady } where
  cblk := h.cblk
  inside := fun r hr => (h.cblk.getNextBuffer hr).2
  server_ok := fun _ => hfailed
  held := by
    cases hr : Track.getNextBuffer s.cblk N req lockReady with
    | none =>
      simp only [Session.held, hfailed]
      exact Or.inl h.cblk.lap
    | some r =>
      obtain ⟨hstart, hinside⟩ := h.cblk.getNextBuffer hr
      rw [Region.Inside, hstart] at hinside
      exact Or.inl hinside

theorem Looping.retry (h : Looping N s) {locked : Bool} {s' : Session α}
    (hjump : s.track.mStepServerFailed = true → locked = true →
      s.cblk.JumpLands s.track.mStepCount N)
    (hs : s.retry N true locked = some s') :
    s'.track.mStepServerFailed = false ∧ Looping N s' := by
  obtain ⟨hf, rfl⟩ | ⟨hf, hlocked, c, hc, rfl⟩ := Session.retry_cases hs
  · exact ⟨hf, h⟩
  · have hnone := h.server_none hf
    have hheld : s.held = s.track.mStepCount.toNat := by simp [Session.held, hnone, hf]
    exact ⟨rfl, h.stepServer hheld.ge (hjump hf hlocked) hc
      (u := { s.track with mStepServerFailed := false }) rfl rfl rfl (by simpa using hnone)⟩

theorem Looping.releaseBuffer (h : Looping N s) {r : Region} (hr : s.server = some r) {k : U32}
    (hk : k ≤ r.frameCount) (locked : Bool)
    (hjump : locked = true → s.cblk.JumpLands k N) :
    Looping N
      { (if locked then s.pass false r.start k else s) with
        track := (s.track.releaseBuffer s.cblk k N true locked).1
        cblk := (s.track.releaseBuffer s.cblk k N true locked).2
        server := none } := by
  have hok : s.track.mStepServerFailed = false := h.server_ok (by simp [hr])
  have hheld : k.toNat ≤ s.held := by
    rw [BitVec.le_def] at hk
    simpa [Session.held, hr] using hk
  obtain ⟨rfl, c, hc, htrack⟩ | ⟨rfl, htrack⟩ :=
    s.track.releaseBuffer_cases s.cblk k N true locked
  · exact h.stepServer hheld (hjump rfl) hc (u := { s.track with mStepCount := k }) hok
      (by rw [htrack]) (by rw [htrack]) rfl
  · simp only [htrack, Bool.false_eq_true, if_false]
    exact
      { cblk := h.cblk
        inside := by simp
        server_ok := by simp
        held := h.held.of_le (Nat.add_le_add_left hheld _) }

/-- An accepted position moves the server and nothing it holds. -/
theorem Looping.setPosition (h : Looping t.mFrameCount s) {position : U32} {stopped : Bool}
    (hlap : KeepsLap t s (.setPosition position stopped)) :
    Looping t.mFrameCount (s.update (t.setPosition s.cblk position stopped)) := by
  cases hc : t.setPosition s.cblk position stopped with
  | error e => exact h
  | ok c =>
    obtain ⟨hle, hdist, hheld⟩ := hlap (by rw [hc]; rfl)
    have heq := AudioTrack.setPosition_ok hc
    subst heq
    exact
      { cblk := ⟨hdist, hle, h.cblk.loop_le⟩
        inside := h.inside
        server_ok := h.server_ok
        held := hheld }

end Step

theorem looping_step (t : AudioTrack) (s : Session α) (e : TrackEvent α) (s' : Session α)
    (hok : KeepsLap t s e) (hstep : trackStep t s e = some s') (h : Looping t.mFrameCount s) :
    Looping t.mFrameCount s' := by
  cases e with
  | setLoop loopStart loopEnd loopCount =>
    cases hstep
    cases hc : t.setLoop_l s.cblk loopStart loopEnd loopCount with
    | error e => exact h
    | ok c =>
      obtain ⟨hloop, hindex, hbase⟩ := h.cblk.setLoop_l hc
      exact h.client rfl rfl hindex hbase hloop
  | setPosition position stopped =>
    cases hstep
    exact h.setPosition hok
  | transfer e =>
    cases e with
    | obtainBuffer framesReq =>
      cases hstep
      exact h.client rfl rfl rfl rfl h.cblk
    | fill off frames =>
      simp only [trackStep, step] at hstep
      split at hstep
      · simp only [Option.ite_none_right_eq_some] at hstep
        obtain ⟨-, hs⟩ := hstep
        cases hs
        exact h.client rfl rfl rfl rfl h.cblk
      · cases hstep
    | stepUser stepCount =>
      simp only [trackStep, step] at hstep
      split at hstep
      · simp only [Option.ite_none_right_eq_some] at hstep
        obtain ⟨-, hs⟩ := hstep
        cases hs
        exact h.client (by simp) (by simp) rfl rfl ⟨h.cblk.lap, h.cblk.server_le, h.cblk.loop_le⟩
      · cases hstep
    | getNextBuffer framesReq lockStep lockReady =>
      simp only [trackStep, step] at hstep
      split at hstep
      -- the retry failed: the step is still owed
      · rename_i hretry
        cases hstep
        exact h.client (h.server_none (Session.retry_none hretry)).symm rfl rfl rfl h.cblk
      · cases hstep
        obtain ⟨hfailed, h'⟩ := h.retry hok ‹_›
        exact h'.getNextBuffer hfailed framesReq lockReady
    | releaseBuffer released locked =>
      simp only [trackStep, step] at hstep
      split at hstep
      · simp only [Option.ite_none_right_eq_some] at hstep
        obtain ⟨hk, hs⟩ := hstep
        cases hs
        exact h.releaseBuffer ‹_› hk locked hok
      · cases hstep

/-- Every region `getNextBuffer` returns starts at or after the data buffer and ends inside it,
and passes the range check, provided that jumps and seeks keep the server in a lap. -/
theorem loops_inside (t : AudioTrack) (buf : TrackBuffer) (hbuf : buf.frameCount = t.mFrameCount)
    (b : U32) (mem : ℕ → α) (es : List (TrackEvent α)) (s : Session α)
    (hrun : run (trackStep t) (t.start b mem) es = some s)
    (hlap : Along (trackStep t) (KeepsLap t) (t.start b mem) es) :
    (∀ r, s.server = some r → r.Inside t.mFrameCount.toNat) ∧
      ∀ framesReq locked r, Track.getNextBuffer s.cblk t.mFrameCount framesReq locked = some r →
        r.start = s.cblk.server - s.cblk.serverBase ∧ r.Inside t.mFrameCount.toNat ∧
          (buf.getBuffer s.cblk s.cblk.server r.frameCount).isSome := by
  have h : Looping t.mFrameCount s :=
    run_invariant_along (looping_step t) hlap hrun (t.looping_start b mem)
  refine ⟨h.inside, fun framesReq locked r hr => ?_⟩
  obtain ⟨hstart, hinside⟩ := h.cblk.getNextBuffer hr
  refine ⟨hstart, hinside, buf.getBuffer_isSome ?_⟩
  rwa [hbuf, ← hstart]

/-- A static buffer of four frames, played to its end. -/
def shortClip : AudioTrack := { mFrameCount := 4#32, mSharedBuffer := true, mIsTimed := false }

def playedThrough : List (TrackEvent ℕ) :=
  [.setLoop 1 3 1, .transfer (.getNextBuffer 4 true true), .transfer (.releaseBuffer 3 true),
    .transfer (.getNextBuffer 3 true true)]

def shortBuffer : TrackBuffer :=
  { mBuffer := 0x1000#32, mFrameSize := 4#32, frameCount := 4#32, fits := by decide }

theorem loops_inside_playedThrough : ∃ s,
    run (trackStep shortClip) (shortClip.start 0#32 fun _ => 0) playedThrough = some s ∧
      ∀ r, s.server = some r → r.Inside 4 :=
  ⟨_, rfl, (loops_inside shortClip shortBuffer rfl 0#32 (fun _ => 0) playedThrough _ rfl
    (by decide)).1⟩

/-- A clip played to its end and rewound is handed out from one buffer length before the data
buffer on, and the range check fails. -/
theorem rewind_outside : ∃ s r,
    run (trackStep shortClip) (shortClip.start 0#32 fun _ => (0 : ℕ))
        [.transfer (.getNextBuffer 4 true true), .transfer (.releaseBuffer 4 true),
          .setPosition 0 true, .transfer (.getNextBuffer 4 true true)] = some s ∧
      s.server = some r ∧ r.start = 0#32 - 4#32 ∧ ¬ r.Inside 4 ∧
      shortBuffer.getBuffer s.cblk s.cblk.server r.frameCount = none :=
  ⟨_, _, rfl, rfl, by decide, by decide, by decide⟩

/-- So is a stream after a loop that straddles the end of a lap. -/
example :
    (run (trackStep { shortClip with mSharedBuffer := false })
        ({ shortClip with mSharedBuffer := false }.start 0#32 fun _ => (0 : ℕ))
        [.transfer (.obtainBuffer 4), .transfer (.stepUser 4), .setLoop 2 5 1,
          .transfer (.getNextBuffer 4 true true), .transfer (.releaseBuffer 4 true),
          .transfer (.obtainBuffer 2), .transfer (.stepUser 2),
          .transfer (.getNextBuffer 4 true true), .transfer (.releaseBuffer 1 true),
          .transfer (.getNextBuffer 4 true true)]).map Session.server =
      some (some ⟨0#32 - 2#32, 4#32⟩) := by
  decide

end AudioFlinger.TrackShared
