import AudioFlinger.TrackShared.Session

/-!
# A session without a loop refines the bounded FIFO

While the control block is exact, the client and the server are the two sides
of a FIFO over the cells of the data buffer: `obtainBuffer` and `getNextBuffer`
hold cells, `stepUser` and `stepServer` advance. The conditions of
`TransferExact` name the three comparisons of wrapping counters that can fail.
-/

namespace AudioFlinger.TrackShared

open Foundation Counter RingMemory

variable {α : Type*}

/-- Without a loop, `framesReady` of a playback track leaves its common path only when `user`
is `UINT_MAX`. It is then right if the lock is free and `loopCount` is not negative, or by
coincidence. -/
def ReadyExact (c : Cblk) (locked : Bool) : Prop :=
  c.user = UINT_MAX →
    (locked = true → 0 ≤ c.loopCount ∨ c.server = 0#32) ∧ (locked = false → c.server = UINT_MAX)

instance (c : Cblk) (locked : Bool) : Decidable (ReadyExact c locked) :=
  inferInstanceAs (Decidable (_ → _))

/-- The comparisons of the next call are exact: the base update finds the end of the lap, a
record client does not take itself to be ahead of the server, and a playback server counts
the frames ready correctly. -/
def TransferExact (frameCount : U32) (isOut : Bool) (s : Session α) : Event α → Prop
  | .stepUser stepCount =>
    BaseExact (s.cblk.user + stepCount) s.cblk.userBase frameCount ∧
      (isOut = false → s.cblk.user + stepCount ≤ s.cblk.server)
  | .getNextBuffer _ lockStep lockReady =>
    (s.track.mStepServerFailed = true →
      BaseExact (s.cblk.server + s.track.mStepCount) s.cblk.serverBase frameCount) ∧
      (isOut = true → ∀ s' ∈ s.retry frameCount isOut lockStep, ReadyExact s'.cblk lockReady)
  | .releaseBuffer released _ =>
    BaseExact (s.cblk.server + released) s.cblk.serverBase frameCount
  | _ => True

instance (frameCount : U32) (isOut : Bool) (s : Session α) (e : Event α) :
    Decidable (TransferExact frameCount isOut s e) :=
  match e with
  | .stepUser _ => inferInstanceAs (Decidable (_ ∧ _))
  | .getNextBuffer _ _ _ => inferInstanceAs (Decidable (_ ∧ _))
  | .releaseBuffer _ _ => inferInstanceAs (Decidable (BaseExact _ _ _))
  | .obtainBuffer _ => inferInstanceAs (Decidable True)
  | .fill _ _ => inferInstanceAs (Decidable True)

/-- The region is the first stretch of the cells held from position `n` on. -/
structure Region.At (r : Region) (N n held : ℕ) : Prop where
  start : r.start.toNat = n % N
  lap : n % N + r.frameCount.toNat ≤ N
  le_held : r.frameCount.toNat ≤ held

/-- The session is the FIFO `q`, the client being the producing side when `isOut`. -/
structure Refines (isOut : Bool) (b : ℕ) (N : U32) (s : Session α)
    (q : RingFifo α 0 N.toNat) : Prop where
  mem : q.mem = s.mem
  put : q.put = s.produced
  got : q.got = s.consumed
  user : At b N.toNat s.cblk.user s.cblk.userBase (q.pos isOut)
  server : At b N.toNat s.cblk.server s.cblk.serverBase (q.pos !isOut)
  loopStart : s.cblk.loopStart = UINT_MAX
  loopEnd : s.cblk.loopEnd = UINT_MAX
  client_at : ∀ r, s.client = some r → r.At N.toNat (q.pos isOut) (q.held isOut)
  server_at : ∀ r, s.server = some r → r.At N.toNat (q.pos !isOut) (q.held !isOut)
  server_ok : s.server ≠ none → s.track.mStepServerFailed = false
  /-- A step that failed is still owed, and the frames it covers are still held. -/
  owed : s.track.mStepServerFailed = true →
    (Region.mk (s.cblk.server - s.cblk.serverBase) s.track.mStepCount).At N.toNat
      (q.pos !isOut) (q.held !isOut)

theorem refines_start (isOut : Bool) (b N : U32) (mem : ℕ → α) :
    Refines isOut b.toNat N (Session.start b mem) (RingFifo.start 0 N.toNat mem) where
  mem := rfl
  put := rfl
  got := rfl
  user := by
    cases isOut <;> exact at_start b N.toNat
  server := by
    cases isOut <;> exact at_start b N.toNat
  loopStart := rfl
  loopEnd := rfl
  client_at := by simp [Session.start]
  server_at := by simp [Session.start]
  server_ok := by simp [Session.start]
  owed := by simp [Session.start, TrackBase.init]

/-! ## Counting frames without a loop -/

theorem le_UINT_MAX (x : U32) : x ≤ UINT_MAX := by
  have hx := x.isLt
  rw [BitVec.le_def]
  change x.toNat ≤ 4294967295
  omega

theorem lt_UINT_MAX_iff (x : U32) : x < UINT_MAX ↔ x ≠ UINT_MAX := by
  have hle := le_UINT_MAX x
  rw [BitVec.le_def] at hle
  rw [BitVec.lt_def, ne_eq, ← BitVec.toNat_inj]
  omega

/-- Without a loop `framesReady` counts the frames between the counters exactly under
`ReadyExact`. -/
theorem framesReady_eq_iff {c : Cblk} (hstart : c.loopStart = UINT_MAX)
    (hend : c.loopEnd = UINT_MAX) (locked : Bool) :
    c.framesReady true locked = c.user - c.server ↔ ReadyExact c locked := by
  unfold Cblk.framesReady ReadyExact
  rw [hend, hstart]
  simp only [if_true, lt_UINT_MAX_iff]
  by_cases hu : c.user = UINT_MAX
  · simp only [hu, ne_eq, not_true_eq_false, if_false, forall_const, BitVec.sub_self]
    have hs := c.server.isLt
    cases locked with
    | false =>
      simp only [Bool.false_eq_true, not_false_eq_true, if_true, false_implies, true_implies,
        true_and]
      rw [← BitVec.toNat_inj, ← BitVec.toNat_inj, BitVec.toNat_sub]
      change 0 = (2 ^ 32 - c.server.toNat + 4294967295) % 2 ^ 32 ↔ c.server.toNat = 4294967295
      omega
    | true =>
      simp only [not_true_eq_false, if_false, true_implies, Bool.true_eq_false, false_implies,
        and_true]
      by_cases hc : 0 ≤ c.loopCount
      · simp [hc]
      · simp only [hc, if_false, false_or]
        rw [← BitVec.toNat_inj, ← BitVec.toNat_inj, BitVec.toNat_sub]
        change 4294967295 = (2 ^ 32 - c.server.toNat + 4294967295) % 2 ^ 32 ↔
          c.server.toNat = 0
        omega
  · simp [hu]

theorem framesAvailable_out {c : Cblk} (hstart : c.loopStart = UINT_MAX) (N : U32) :
    c.framesAvailable_l N true = c.server + N - c.user := by
  unfold Cblk.framesAvailable_l
  rw [hstart]
  simp only [if_true, lt_UINT_MAX_iff]
  by_cases hs : c.server = UINT_MAX <;> simp [hs]

theorem bufferEnd_none {c : Cblk} (hend : c.loopEnd = UINT_MAX) (N : U32) :
    c.bufferEnd N = c.serverBase + N := by
  unfold Cblk.bufferEnd
  rw [hend, if_neg]
  exact BitVec.not_lt.mpr (le_UINT_MAX _)

theorem loopJump_none {c : Cblk} (hstart : c.loopStart = UINT_MAX) (hend : c.loopEnd = UINT_MAX)
    (s : U32) : c.loopJump s = s := by
  unfold Cblk.loopJump
  rw [hend, hstart]
  split_ifs with hle
  · exact BitVec.le_antisymm hle (le_UINT_MAX s)
  · rfl

/-- A pass over the sentinel leaves no loop behind; only `loopCount` moves. -/
theorem loopPass_none {c : Cblk} (hstart : c.loopStart = UINT_MAX) (hend : c.loopEnd = UINT_MAX)
    (s : U32) : (c.loopPass s).loopStart = UINT_MAX ∧ (c.loopPass s).loopEnd = UINT_MAX := by
  unfold Cblk.loopPass
  split_ifs <;> simp [hstart, hend]

@[simp] theorem loopPass_user (c : Cblk) (s : U32) : (c.loopPass s).user = c.user := by
  unfold Cblk.loopPass
  split_ifs <;> rfl

@[simp] theorem loopPass_userBase (c : Cblk) (s : U32) :
    (c.loopPass s).userBase = c.userBase := by
  unfold Cblk.loopPass
  split_ifs <;> rfl

section Session

variable {isOut : Bool} {b : ℕ} {N : U32} {s : Session α} {q : RingFifo α 0 N.toNat}

/-- The distance of the counters is what the consuming side may hold. -/
theorem size_toNat {p c pBase cBase : U32} (hp : At b N.toNat p pBase q.put.length)
    (hc : At b N.toNat c cBase q.got.length) : (p - c).toNat = q.limit false := by
  have hgot := q.got_length_le
  have hsize := q.size_le
  have hN := N.isLt
  unfold RingFifo.size at hsize
  rw [hp.index.toNat_sub hc.index (by omega) (by omega)]
  simp only [RingFifo.limit, RingFifo.size]
  omega

/-- The free cells are what the producing side may hold. -/
theorem room_toNat {p c pBase cBase : U32} (hp : At b N.toNat p pBase q.put.length)
    (hc : At b N.toNat c cBase q.got.length) : (c + N - p).toNat = q.limit true := by
  have hgot := q.got_length_le
  have hsize := q.size_le
  have hN := N.isLt
  unfold RingFifo.size at hsize
  rw [(hc.index.step N).toNat_sub hp.index (by omega) (by omega)]
  simp only [RingFifo.limit, RingFifo.size]
  omega

theorem limit_le (q : RingFifo α 0 N.toNat) (side : Bool) : q.limit side ≤ N.toNat := by
  have hsize := q.size_le
  cases side <;> simp only [RingFifo.limit] <;> omega

/-- A region handed out from the counter of a side is one the side may hold. -/
theorem handOut_at {side : Bool} {index base avail req : U32} {r : Region}
    (hat : At b N.toNat index base (q.pos side)) (havail : avail.toNat = q.limit side)
    (hr : handOut index base (base + N) avail req = some r) :
    r.At N.toNat (q.pos side) r.frameCount.toNat ∧ r.frameCount.toNat ≤ q.limit side := by
  unfold handOut at hr
  split_ifs at hr with hz
  cases hr
  have hlim := limit_le q side
  have hpos : 0 < N.toNat := by
    have hne : avail.toNat ≠ 0 := fun h => hz (BitVec.eq_of_toNat_eq h)
    omega
  have hcell : q.pos side % N.toNat < N.toNat := Nat.mod_lt _ hpos
  have hroom := hat.room hcell.le
  have hclip := clip_le_room req avail (base + N - index)
  have havail' := clip_le_avail req avail (base + N - index)
  exact ⟨⟨hat.offset, by simp only; omega, le_rfl⟩, havail ▸ havail'⟩

/-- What passes through the region of a side is what the FIFO moves. -/
theorem pass_eq (hmem : q.mem = s.mem) (hput : q.put = s.produced) (hgot : q.got = s.consumed)
    {side : Bool} {start k : U32} (hstart : start.toNat = q.pos side % N.toNat)
    (hlap : q.pos side % N.toNat + k.toNat ≤ N.toNat) (hk : k.toNat ≤ q.held side) :
    (q.advance side k.toNat hk).put = (s.pass side start k).produced ∧
      (q.advance side k.toNat hk).got = (s.pass side start k).consumed := by
  have hslice : ringSlice N.toNat q.mem (q.pos side) k.toNat =
      slice s.mem start.toNat k.toNat := by
    rw [ringSlice_eq_slice hlap, hstart, hmem]
  cases side <;> simp [Session.pass, hslice, hput, hgot]

section Steps

variable (h : Refines isOut b N s q)

include h

/-- Obtaining a buffer holds the region on the client side. -/
theorem Refines.obtain (req : U32) :
    ∃ q', Refines isOut b N
      { s with
        cblk := s.cblk.obtained isOut
        client :=
          if isOut then AudioTrack.obtainBuffer s.cblk N req
          else AudioRecord.obtainBuffer s.cblk N req } q' := by
  have hcblk : s.cblk.obtained isOut =
      { s.cblk with bufferTimeoutMs := (s.cblk.obtained isOut).bufferTimeoutMs } := by
    cases isOut <;> rfl
  obtain ⟨avail, havail, hres⟩ : ∃ avail : U32, avail.toNat = q.limit isOut ∧
      (if isOut then AudioTrack.obtainBuffer s.cblk N req
        else AudioRecord.obtainBuffer s.cblk N req) =
        handOut s.cblk.user s.cblk.userBase (s.cblk.userBase + N) avail req := by
    cases isOut with
    | true =>
      refine ⟨_, ?_, rfl⟩
      rw [framesAvailable_out h.loopStart]
      exact room_toNat h.user h.server
    | false => exact ⟨_, size_toNat h.server h.user, rfl⟩
  rw [hres, hcblk]
  cases hr : handOut s.cblk.user s.cblk.userBase (s.cblk.userBase + N) avail req with
  | none => exact ⟨q, { h with client_at := by simp }⟩
  | some r =>
    obtain ⟨hat, hlim⟩ := handOut_at h.user havail hr
    refine ⟨q.hold isOut r.frameCount.toNat hlim, ?_⟩
    exact
      { mem := by simpa using h.mem
        put := by simpa using h.put
        got := by simpa using h.got
        user := by simpa using h.user
        server := by simpa using h.server
        loopStart := h.loopStart
        loopEnd := h.loopEnd
        client_at := by
          intro r' hr'
          cases hr'
          simpa using hat
        server_at := by simpa using h.server_at
        server_ok := h.server_ok
        owed := by simpa using h.owed }

/-- The producing side fills cells of the region it holds. -/
theorem Refines.fill {r : Region} (hr : s.producer isOut = some r)
    {off : ℕ} {frames : List α} (hin : off + frames.length ≤ r.frameCount.toNat) :
    ∃ q', Refines isOut b N { s with mem := blit s.mem (r.start.toNat + off) frames } q' := by
  have hat : r.At N.toNat (q.pos true) (q.held true) := by
    cases isOut with
    | true => exact h.client_at r hr
    | false => exact h.server_at r hr
  cases frames with
  | nil => exact ⟨q, by simpa using h⟩
  | cons frame rest =>
    have hstart := hat.start
    have hlap := hat.lap
    have hheld := hat.le_held
    change q.put.length % N.toNat + r.frameCount.toNat ≤ N.toNat at hlap
    rw [List.length_cons] at hin
    have hcell : (0 + q.put.length + off) % N.toNat = r.start.toNat + off := by
      rw [Nat.zero_add, slot_add (by omega), hstart]
      rfl
    refine ⟨q.fill off (frame :: rest) ?_ ?_, { h with mem := ?_ }⟩
    · rw [List.length_cons]
      change r.frameCount.toNat ≤ q.reserved at hheld
      omega
    · rw [hcell, hstart, List.length_cons]
      change q.put.length % N.toNat + off + (rest.length + 1) ≤ N.toNat
      omega
    · change blit q.mem ((0 + q.put.length + off) % N.toNat) (frame :: rest) = _
      rw [hcell, h.mem]

/-- The client releases the first `k` frames of its region. -/
theorem Refines.stepUser {r : Region} (hr : s.client = some r)
    {k : U32} (hk : k ≤ r.frameCount) (hex : BaseExact (s.cblk.user + k) s.cblk.userBase N)
    (hno : isOut = false → s.cblk.user + k ≤ s.cblk.server) :
    ∃ q', Refines isOut b N
      { s.pass isOut r.start k with
        cblk := s.cblk.stepUser k N isOut
        client := none } q' := by
  have hat := h.client_at r hr
  rw [BitVec.le_def] at hk
  have hheld : k.toNat ≤ q.held isOut := hk.trans hat.le_held
  have hlap : q.pos isOut % N.toNat + k.toNat ≤ N.toNat :=
    (Nat.add_le_add_left hk _).trans hat.lap
  have hnext : s.cblk.nextUser k isOut = s.cblk.user + k := by
    cases isOut with
    | true => rfl
    | false => exact if_neg (BitVec.not_lt.mpr (hno rfl))
  obtain ⟨hput, hgot⟩ := pass_eq h.mem h.put h.got hat.start hlap hheld
  refine ⟨q.advance isOut k.toNat hheld, ?_⟩
  exact
    { mem := by simpa using h.mem
      put := hput
      got := hgot
      user := by
        simp only [Cblk.stepUser, hnext, RingFifo.advance_pos]
        exact h.user.step hlap hex
      server := by simpa [Cblk.stepUser] using h.server
      loopStart := h.loopStart
      loopEnd := h.loopEnd
      client_at := by simp
      server_at := by simpa using h.server_at
      server_ok := by simpa using h.server_ok
      owed := by simpa [Cblk.stepUser] using h.owed }

/-- A playback server level with the client has nothing to step over. -/
theorem Refines.serverTarget {k : U32}
    (hk : k.toNat ≤ q.held !isOut) : s.cblk.serverTarget k isOut = s.cblk.server + k := by
  unfold Cblk.serverTarget
  split_ifs with hlevel
  · obtain ⟨rfl, heq⟩ := hlevel
    have hlim := hk.trans (q.held_le_limit false)
    rw [← size_toNat h.user h.server, heq, BitVec.sub_self, BitVec.toNat_zero] at hlim
    have hz : k = 0#32 := BitVec.eq_of_toNat_eq (Nat.le_zero.mp hlim)
    rw [hz, heq, BitVec.add_zero]
  · rfl

/-- The server steps over the first `k` frames it holds. -/
theorem Refines.stepServer {start k : U32}
    (hat : (Region.mk start k).At N.toNat (q.pos !isOut) (q.held !isOut))
    (hex : BaseExact (s.cblk.server + k) s.cblk.serverBase N) {c : Cblk}
    (hc : s.cblk.stepServer k N isOut true = some c) {t : TrackBase}
    (ht : t.mStepServerFailed = false) :
    ∃ q', Refines isOut b N
      { s.pass (!isOut) start k with cblk := c, track := t, server := none } q' := by
  obtain ⟨hput, hgot⟩ := pass_eq h.mem h.put h.got hat.start hat.lap hat.le_held
  have hloop := loopPass_none h.loopStart h.loopEnd (s.cblk.serverTarget k isOut)
  simp only [Cblk.stepServer, if_true, h.serverTarget hat.le_held,
    loopJump_none h.loopStart h.loopEnd] at hc hloop
  cases hc
  refine ⟨q.advance (!isOut) k.toNat hat.le_held, ?_⟩
  have hpos : (q.advance (!isOut) k.toNat hat.le_held).pos isOut = q.pos isOut := by
    simpa using q.advance_pos_other hat.le_held
  have hother : (q.advance (!isOut) k.toNat hat.le_held).held isOut = q.held isOut := by
    simpa using q.advance_held_other hat.le_held
  exact
    { mem := by simpa using h.mem
      put := hput
      got := hgot
      user := by simpa [hpos] using h.user
      server := by simpa using h.server.step hat.lap hex
      loopStart := hloop.1
      loopEnd := hloop.2
      client_at := by simpa [hpos, hother] using h.client_at
      server_at := by simp
      server_ok := by simp
      owed := by simp [ht] }

/-- Getting the next buffer holds the region on the server side. -/
theorem Refines.getNextBuffer
    (hfailed : s.track.mStepServerFailed = false) (req : U32) {lockReady : Bool}
    (hready : isOut = true → ReadyExact s.cblk lockReady) :
    ∃ q', Refines isOut b N
      { s with
        server :=
          if isOut then Track.getNextBuffer s.cblk N req lockReady
          else RecordTrack.getNextBuffer s.cblk N req } q' := by
  obtain ⟨avail, havail, hres⟩ : ∃ avail : U32, avail.toNat = q.limit (!isOut) ∧
      (if isOut then Track.getNextBuffer s.cblk N req lockReady
        else RecordTrack.getNextBuffer s.cblk N req) =
        handOut s.cblk.server s.cblk.serverBase (s.cblk.serverBase + N) avail req := by
    cases isOut with
    | true =>
      refine ⟨s.cblk.user - s.cblk.server, size_toNat h.user h.server, ?_⟩
      rw [if_pos rfl, Track.getNextBuffer, bufferEnd_none h.loopEnd,
        (framesReady_eq_iff h.loopStart h.loopEnd lockReady).mpr (hready rfl)]
    | false =>
      refine ⟨s.cblk.user + N - s.cblk.server, room_toNat h.server h.user, ?_⟩
      rw [BitVec.add_comm s.cblk.user N]
      rfl
  rw [hres]
  cases hr : handOut s.cblk.server s.cblk.serverBase (s.cblk.serverBase + N) avail req with
  | none => exact ⟨q, { h with server_at := by simp, server_ok := by simp }⟩
  | some r =>
    obtain ⟨hat, hlim⟩ := handOut_at h.server havail hr
    refine ⟨q.hold (!isOut) r.frameCount.toNat hlim, ?_⟩
    have hother : (q.hold (!isOut) r.frameCount.toNat hlim).held isOut = q.held isOut := by
      simpa using q.hold_held_other hlim
    exact
      { mem := by simpa using h.mem
        put := by simpa using h.put
        got := by simpa using h.got
        user := by simpa using h.user
        server := by simpa using h.server
        loopStart := h.loopStart
        loopEnd := h.loopEnd
        client_at := by simpa [hother] using h.client_at
        server_at := by
          intro r' hr'
          cases hr'
          simpa using hat
        server_ok := fun _ => hfailed
        owed := by simp [hfailed] }

/-- The retry of a failed step, when it takes the lock. -/
theorem Refines.retry {locked : Bool} {s' : Session α}
    (hex : s.track.mStepServerFailed = true →
      BaseExact (s.cblk.server + s.track.mStepCount) s.cblk.serverBase N)
    (hs : s.retry N isOut locked = some s') :
    s'.track.mStepServerFailed = false ∧ ∃ q', Refines isOut b N s' q' := by
  obtain ⟨hf, rfl⟩ | ⟨hf, -, c, hc, rfl⟩ := Session.retry_cases hs
  · exact ⟨hf, q, h⟩
  · have hnone : s.server = none := by
      by_contra hne
      simp [h.server_ok hne] at hf
    have hstep := h.stepServer (h.owed hf) (hex hf) hc
      (t := { s.track with mStepServerFailed := false }) rfl
    exact ⟨rfl, by simpa [hnone] using hstep⟩

/-- The server releases the first `k` frames of its region, or owes the step. -/
theorem Refines.releaseBuffer {r : Region}
    (hr : s.server = some r) {k : U32} (hk : k ≤ r.frameCount) (locked : Bool)
    (hex : BaseExact (s.cblk.server + k) s.cblk.serverBase N) :
    ∃ q', Refines isOut b N
      { (if locked then s.pass (!isOut) r.start k else s) with
        track := (s.track.releaseBuffer s.cblk k N isOut locked).1
        cblk := (s.track.releaseBuffer s.cblk k N isOut locked).2
        server := none } q' := by
  have hat := h.server_at r hr
  have hok : s.track.mStepServerFailed = false := h.server_ok (by simp [hr])
  rw [BitVec.le_def] at hk
  have hheld := hk.trans hat.le_held
  have hlap := (Nat.add_le_add_left hk _).trans hat.lap
  obtain ⟨rfl, c, hc, htrack⟩ | ⟨rfl, htrack⟩ :=
    s.track.releaseBuffer_cases s.cblk k N isOut locked
  · have hregion : (Region.mk r.start k).At N.toNat (q.pos !isOut) (q.held !isOut) :=
      ⟨hat.start, hlap, hheld⟩
    have hstep := h.stepServer hregion hex hc (t := { s.track with mStepCount := k }) hok
    simpa [htrack] using hstep
  · simp only [htrack, Bool.false_eq_true, if_false]
    exact ⟨q, { h with
      server_at := by simp
      server_ok := by simp
      owed := fun _ => ⟨h.server.offset, hlap, hheld⟩ }⟩

end Steps

/-- Every exact call of either side is a step of the FIFO. -/
theorem refines_step (isOut : Bool) (b : ℕ) (N : U32) (s : Session α) (e : Event α)
    (s' : Session α) (hex : TransferExact N isOut s e) (hstep : step N isOut s e = some s')
    (h : ∃ q, Refines isOut b N s q) : ∃ q', Refines isOut b N s' q' := by
  obtain ⟨q, h⟩ := h
  cases e with
  | obtainBuffer framesReq =>
    cases hstep
    exact h.obtain framesReq
  | fill off frames =>
    simp only [step] at hstep
    split at hstep
    · simp only [Option.ite_none_right_eq_some] at hstep
      obtain ⟨hin, hs⟩ := hstep
      cases hs
      exact h.fill ‹_› hin
    · cases hstep
  | stepUser stepCount =>
    simp only [step] at hstep
    split at hstep
    · simp only [Option.ite_none_right_eq_some] at hstep
      obtain ⟨hk, hs⟩ := hstep
      cases hs
      exact h.stepUser ‹_› hk hex.1 hex.2
    · cases hstep
  | getNextBuffer framesReq lockStep lockReady =>
    simp only [step] at hstep
    split at hstep
    · cases hstep
      exact ⟨q, { h with server_at := by simp, server_ok := by simp }⟩
    · cases hstep
      obtain ⟨hok, q', h'⟩ := h.retry hex.1 ‹_›
      exact h'.getNextBuffer hok framesReq fun hout => hex.2 hout _ ‹_›
  | releaseBuffer released locked =>
    simp only [step] at hstep
    split at hstep
    · simp only [Option.ite_none_right_eq_some] at hstep
      obtain ⟨hk, hs⟩ := hstep
      cases hs
      exact h.releaseBuffer ‹_› hk locked hex
    · cases hstep

end Session

/-- A run whose calls are all exact ends in a session that refines the FIFO. -/
theorem refines_run {isOut : Bool} {N b : U32} {mem : ℕ → α} {es : List (Event α)}
    {s : Session α} (hrun : Machine.run (step N isOut) (Session.start b mem) es = some s)
    (hex : Machine.Along (step N isOut) (TransferExact N isOut) (Session.start b mem) es) :
    ∃ q, Refines isOut b.toNat N s q :=
  Machine.run_invariant_along (refines_step isOut b.toNat N) hex hrun
    ⟨_, refines_start isOut b N mem⟩

end AudioFlinger.TrackShared
