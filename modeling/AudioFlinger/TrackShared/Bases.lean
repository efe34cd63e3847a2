import AudioFlinger.TrackShared.Refinement

/-!
# The base indices stay within a lap of their counters

Independently of what the counters count, each side keeps its counter within
`frameCount` frames of its base, so that the regions handed out lie inside the
data buffer. On the record side this rests on `stepUser` not mistaking a step
for one made after a reset.
-/

namespace AudioFlinger.TrackShared

open Foundation Machine

variable {α : Type*}

/-- A record client stays behind the server in the unsigned order. -/
def BehindServer (isOut : Bool) (s : Session α) : Event α → Prop
  | .stepUser stepCount => isOut = false → s.cblk.user + stepCount ≤ s.cblk.server
  | _ => True

instance (isOut : Bool) (s : Session α) (e : Event α) : Decidable (BehindServer isOut s e) :=
  match e with
  | .stepUser _ => inferInstanceAs (Decidable (_ → _))
  | .obtainBuffer _ => inferInstanceAs (Decidable True)
  | .fill _ _ => inferInstanceAs (Decidable True)
  | .getNextBuffer _ _ _ => inferInstanceAs (Decidable True)
  | .releaseBuffer _ _ => inferInstanceAs (Decidable True)

/-- Both counters are strictly within a lap, and what either side holds ends inside it. -/
structure InLap (N : U32) (s : Session α) : Prop where
  user : (s.cblk.user - s.cblk.userBase).toNat < N.toNat
  server : (s.cblk.server - s.cblk.serverBase).toNat < N.toNat
  loopStart : s.cblk.loopStart = UINT_MAX
  loopEnd : s.cblk.loopEnd = UINT_MAX
  client_start : ∀ r, s.client = some r → r.start = s.cblk.user - s.cblk.userBase
  client_inside : ∀ r, s.client = some r → r.Inside N.toNat
  server_start : ∀ r, s.server = some r → r.start = s.cblk.server - s.cblk.serverBase
  server_inside : ∀ r, s.server = some r → r.Inside N.toNat
  server_ok : s.server ≠ none → s.track.mStepServerFailed = false
  owed : s.track.mStepServerFailed = true →
    (Region.mk (s.cblk.server - s.cblk.serverBase) s.track.mStepCount).Inside N.toNat

theorem inLap_start {N : U32} (hpos : 0 < N.toNat) (b : U32) (mem : ℕ → α) :
    InLap N (Session.start b mem) where
  user := by simpa [Session.start, Cblk.start] using hpos
  server := by simpa [Session.start, Cblk.start] using hpos
  loopStart := rfl
  loopEnd := rfl
  client_start := by simp [Session.start]
  client_inside := by simp [Session.start]
  server_start := by simp [Session.start]
  server_inside := by simp [Session.start]
  server_ok := by simp [Session.start]
  owed := by simp [Session.start, TrackBase.init]

/-- The end of the lap is as far from the counter as the lap is long. -/
theorem room_of_lap {index base N : U32} (h : (index - base).toNat ≤ N.toNat) :
    (base + N - index).toNat = N.toNat - (index - base).toNat := by
  have hi := index.isLt
  have hb := base.isLt
  have hn := N.isLt
  simp only [BitVec.toNat_sub, BitVec.toNat_add] at *
  omega

/-- A step inside the lap adds to the distance from the base. -/
theorem dist_add {index base k N : U32} (h : (index - base).toNat + k.toNat ≤ N.toNat) :
    (index + k - base).toNat = (index - base).toNat + k.toNat := by
  have hi := index.isLt
  have hb := base.isLt
  have hn := N.isLt
  simp only [BitVec.toNat_sub, BitVec.toNat_add] at *
  omega

/-- Whatever is available, a region handed out ends with the lap at the latest. -/
theorem handOut_inside {index base avail req N : U32} {r : Region}
    (h : (index - base).toNat ≤ N.toNat)
    (hr : handOut index base (base + N) avail req = some r) :
    r.start = index - base ∧ r.Inside N.toNat := by
  unfold handOut at hr
  split_ifs at hr
  cases hr
  refine ⟨rfl, ?_⟩
  have hclip := clip_le_room req avail (base + N - index)
  rw [room_of_lap h] at hclip
  simp only [Region.Inside]
  omega

section Step

variable {isOut : Bool} {N : U32} {s : Session α}

theorem InLap.obtain (h : InLap N s) (req : U32) :
    InLap N
      { s with
        cblk := s.cblk.obtained isOut
        client :=
          if isOut then AudioTrack.obtainBuffer s.cblk N req
          else AudioRecord.obtainBuffer s.cblk N req } := by
  have hregion (r : Region)
      (hr : (if isOut then AudioTrack.obtainBuffer s.cblk N req
        else AudioRecord.obtainBuffer s.cblk N req) = some r) :
      r.start = s.cblk.user - s.cblk.userBase ∧ r.Inside N.toNat := by
    cases isOut <;> exact handOut_inside h.user.le hr
  cases isOut <;> exact { h with
    client_start := fun r hr => (hregion r hr).1
    client_inside := fun r hr => (hregion r hr).2 }

theorem InLap.stepUser (h : InLap N s) {r : Region} (hr : s.client = some r) {k : U32}
    (hk : k ≤ r.frameCount) (hbehind : isOut = false → s.cblk.user + k ≤ s.cblk.server) :
    InLap N
      { s.pass isOut r.start k with
        cblk := s.cblk.stepUser k N isOut
        client := none } := by
  have hinside := h.client_inside r hr
  rw [Region.Inside, h.client_start r hr] at hinside
  rw [BitVec.le_def] at hk
  have hnext : s.cblk.nextUser k isOut = s.cblk.user + k := by
    cases isOut with
    | true => rfl
    | false => exact if_neg (BitVec.not_lt.mpr (hbehind rfl))
  have hdist : (s.cblk.user + k - s.cblk.userBase).toNat =
      (s.cblk.user - s.cblk.userBase).toNat + k.toNat := dist_add (N := N) (by omega)
  exact
    { user := by
        simp only [Cblk.stepUser, hnext]
        exact advanceBase_lap_lt (by have huser := h.user; omega) (by omega)
      server := h.server
      loopStart := h.loopStart
      loopEnd := h.loopEnd
      client_start := by simp
      client_inside := by simp
      server_start := by simpa [Cblk.stepUser] using h.server_start
      server_inside := by simpa using h.server_inside
      server_ok := by simpa using h.server_ok
      owed := by simpa [Cblk.stepUser] using h.owed }

/-- The server ends up inside a lap, whether it steps or finds itself level with the client. -/
theorem InLap.stepServer (h : InLap N s) {k : U32}
    (hk : (s.cblk.server - s.cblk.serverBase).toNat + k.toNat ≤ N.toNat) {c : Cblk}
    (hc : s.cblk.stepServer k N isOut true = some c) {t : TrackBase}
    (ht : t.mStepServerFailed = false) (side : Bool) (start : U32) :
    InLap N { s.pass side start k with cblk := c, track := t, server := none } := by
  have hloop := loopPass_none h.loopStart h.loopEnd (s.cblk.serverTarget k isOut)
  have htarget : (s.cblk.serverTarget k isOut - s.cblk.serverBase).toNat ≤ N.toNat := by
    unfold Cblk.serverTarget
    split_ifs with hlevel
    · rw [← hlevel.2]
      exact h.server.le
    · rw [dist_add hk]
      exact hk
  simp only [Cblk.stepServer, if_true, loopJump_none h.loopStart h.loopEnd] at hc
  cases hc
  exact
    { user := by simpa using h.user
      server := advanceBase_lap_lt (by have hserver := h.server; omega) htarget
      loopStart := hloop.1
      loopEnd := hloop.2
      client_start := by simpa using h.client_start
      client_inside := by simpa using h.client_inside
      server_start := by simp
      server_inside := by simp
      server_ok := by simp
      owed := by simp [ht] }

theorem InLap.getNextBuffer (h : InLap N s) (hfailed : s.track.mStepServerFailed = false)
    (req : U32) (lockReady : Bool) :
    InLap N
      { s with
        server :=
          if isOut then Track.getNextBuffer s.cblk N req lockReady
          else RecordTrack.getNextBuffer s.cblk N req } := by
  have hregion (r : Region)
      (hr : (if isOut then Track.getNextBuffer s.cblk N req lockReady
        else RecordTrack.getNextBuffer s.cblk N req) = some r) :
      r.start = s.cblk.server - s.cblk.serverBase ∧ r.Inside N.toNat := by
    cases isOut with
    | true =>
      rw [if_pos rfl, Track.getNextBuffer, bufferEnd_none h.loopEnd] at hr
      exact handOut_inside h.server.le hr
    | false => exact handOut_inside h.server.le hr
  exact { h with
    server_start := fun r hr => (hregion r hr).1
    server_inside := fun r hr => (hregion r hr).2
    server_ok := fun _ => hfailed
    owed := by simp [hfailed] }

theorem InLap.retry (h : InLap N s) {locked : Bool} {s' : Session α}
    (hs : s.retry N isOut locked = some s') :
    s'.track.mStepServerFailed = false ∧ InLap N s' := by
  obtain ⟨hf, rfl⟩ | ⟨hf, -, c, hc, rfl⟩ := Session.retry_cases hs
  · exact ⟨hf, h⟩
  · have hnone : s.server = none := by
      by_contra hne
      simp [h.server_ok hne] at hf
    have hstep := h.stepServer (h.owed hf) hc
      (t := { s.track with mStepServerFailed := false }) rfl (!isOut)
      (s.cblk.server - s.cblk.serverBase)
    exact ⟨rfl, by simpa [hnone] using hstep⟩

theorem InLap.releaseBuffer (h : InLap N s) {r : Region} (hr : s.server = some r) {k : U32}
    (hk : k ≤ r.frameCount) (locked : Bool) :
    InLap N
      { (if locked then s.pass (!isOut) r.start k else s) with
        track := (s.track.releaseBuffer s.cblk k N isOut locked).1
        cblk := (s.track.releaseBuffer s.cblk k N isOut locked).2
        server := none } := by
  have hok : s.track.mStepServerFailed = false := h.server_ok (by simp [hr])
  have hinside := h.server_inside r hr
  rw [Region.Inside, h.server_start r hr] at hinside
  rw [BitVec.le_def] at hk
  obtain ⟨rfl, c, hc, htrack⟩ | ⟨rfl, htrack⟩ :=
    s.track.releaseBuffer_cases s.cblk k N isOut locked
  · have hstep := h.stepServer (k := k) (by omega) hc (t := { s.track with mStepCount := k })
      hok (!isOut) r.start
    simpa [htrack] using hstep
  · simp only [htrack, Bool.false_eq_true, if_false]
    exact { h with
      server_start := by simp
      server_inside := by simp
      server_ok := by simp
      owed := fun _ => by simp only [Region.Inside]; omega }

end Step

/-- Every call keeps both counters within their laps. -/
theorem inLap_step (isOut : Bool) (N : U32) (s : Session α) (e : Event α) (s' : Session α)
    (hok : BehindServer isOut s e) (hstep : step N isOut s e = some s') (h : InLap N s) :
    InLap N s' := by
  cases e with
  | obtainBuffer framesReq =>
    cases hstep
    exact h.obtain framesReq
  | fill off frames =>
    simp only [step] at hstep
    split at hstep
    · simp only [Option.ite_none_right_eq_some] at hstep
      obtain ⟨-, hs⟩ := hstep
      cases hs
      exact { h with }
    · cases hstep
  | stepUser stepCount =>
    simp only [step] at hstep
    split at hstep
    · simp only [Option.ite_none_right_eq_some] at hstep
      obtain ⟨hk, hs⟩ := hstep
      cases hs
      exact h.stepUser ‹_› hk hok
    · cases hstep
  | getNextBuffer framesReq lockStep lockReady =>
    simp only [step] at hstep
    split at hstep
    · cases hstep
      exact { h with server_start := by simp, server_inside := by simp, server_ok := by simp }
    · cases hstep
      obtain ⟨hfailed, h'⟩ := h.retry ‹_›
      exact h'.getNextBuffer hfailed framesReq lockReady
  | releaseBuffer released locked =>
    simp only [step] at hstep
    split at hstep
    · simp only [Option.ite_none_right_eq_some] at hstep
      obtain ⟨hk, hs⟩ := hstep
      cases hs
      exact h.releaseBuffer ‹_› hk locked
    · cases hstep

/-- In both directions and from every start value the counters stay within a lap of their bases
and every region handed out lies inside the data buffer, provided that a record client is never
past the server in the unsigned order. -/
theorem regions_inside (frameCount b : U32) (hpos : 0 < frameCount.toNat) (isOut : Bool)
    (mem : ℕ → α) (es : List (Event α)) (s : Session α)
    (hrun : run (step frameCount isOut) (Session.start b mem) es = some s)
    (hbehind : Along (step frameCount isOut) (BehindServer isOut) (Session.start b mem) es) :
    (s.cblk.user - s.cblk.userBase).toNat < frameCount.toNat ∧
      (s.cblk.server - s.cblk.serverBase).toNat < frameCount.toNat ∧
      (∀ r, s.client = some r →
        r.start = s.cblk.user - s.cblk.userBase ∧ r.Inside frameCount.toNat) ∧
      (∀ r, s.server = some r →
        r.start = s.cblk.server - s.cblk.serverBase ∧ r.Inside frameCount.toNat) := by
  have h : InLap frameCount s :=
    run_invariant_along (inLap_step isOut frameCount) hbehind hrun (inLap_start hpos b mem)
  exact ⟨h.user, h.server, fun r hr => ⟨h.client_start r hr, h.client_inside r hr⟩,
    fun r hr => ⟨h.server_start r hr, h.server_inside r hr⟩⟩

/-- The server records a lap of four frames and the client obtains a part of it. -/
def recordLap : List (Event ℕ) :=
  [.getNextBuffer 4 true true, .releaseBuffer 4 true, .obtainBuffer 2]

theorem regions_inside_recordLap : ∃ s,
    run (step 4#32 false) (Session.start 0xFFFFFFFA#32 fun _ => 0) recordLap = some s ∧
      s.client = some ⟨0#32, 2#32⟩ ∧
      (s.cblk.user - s.cblk.userBase).toNat < (4#32).toNat := by
  obtain ⟨s, hs⟩ : ∃ s, run (step 4#32 false) (Session.start 0xFFFFFFFA#32 fun _ => 0)
      recordLap = some s := ⟨_, rfl⟩
  have hclient : (run (step 4#32 false) (Session.start 0xFFFFFFFA#32 fun _ => 0)
      recordLap).map Session.client = some (some ⟨0#32, 2#32⟩) := by decide +kernel
  have hbehind : Along (step 4#32 false) (BehindServer false)
      (Session.start 0xFFFFFFFA#32 fun _ => 0) recordLap := by decide
  rw [hs, Option.map_some, Option.some_inj] at hclient
  exact ⟨s, hs, hclient, (regions_inside 4#32 0xFFFFFFFA#32 (by decide) false (fun _ => 0)
    recordLap s hs hbehind).1⟩

/-- With the server past the wrap point a step of one frame takes `user` to `server`, past the
end of the lap without moving the base: the next region starts two frames behind the end of the
data buffer. -/
theorem record_region_outside :
    (run (step 4#32 false) (Session.start 0xFFFFFFFA#32 fun _ => 0)
        (recordLap ++ [.stepUser 2, .getNextBuffer 2 true true, .releaseBuffer 2 true,
          .obtainBuffer 1, .stepUser 1, .getNextBuffer 2 true true, .releaseBuffer 2 true,
          .obtainBuffer 1])).map (fun s => (s.cblk.user - s.cblk.userBase, s.client)) =
      some (6#32, some ⟨6#32, 1#32⟩) ∧
    ¬ (6#32).toNat < 4 ∧ ¬ (Region.mk 6#32 1#32).Inside 4 := by
  decide +kernel

end AudioFlinger.TrackShared
