import AudioFlinger.Foundation.Machine
import AudioFlinger.Foundation.RingFifo
import AudioFlinger.TrackShared.ControlBlock

/-!
# The two sides of a control block

The client obtains a region of the data buffer, works on it and steps `user`;
the track on the server side gets the next buffer, works on it and steps
`server`. A session puts both sides over one control block and one data buffer
and lets their calls interleave in any order.
-/

namespace AudioFlinger.TrackShared

open Foundation RingMemory

/-- A region handed out: its offset in frames from the start of the data buffer. -/
structure Region where
  start : U32
  frameCount : U32
  deriving DecidableEq, Repr

/-- The region lies inside a data buffer of `n` frames. -/
def Region.Inside (r : Region) (n : ℕ) : Prop := r.start.toNat + r.frameCount.toNat ≤ n

instance (r : Region) (n : ℕ) : Decidable (r.Inside n) := inferInstanceAs (Decidable (_ ≤ _))

/-- The request, limited by what is available and by the end of the lap. -/
def clip (framesReq framesAvail room : U32) : U32 :=
  if room < (if framesAvail < framesReq then framesAvail else framesReq) then room
  else if framesAvail < framesReq then framesAvail
  else framesReq

theorem clip_le_avail (framesReq framesAvail room : U32) :
    (clip framesReq framesAvail room).toNat ≤ framesAvail.toNat := by
  unfold clip
  simp only [BitVec.lt_def]
  split_ifs <;> omega

theorem clip_le_room (framesReq framesAvail room : U32) :
    (clip framesReq framesAvail room).toNat ≤ room.toNat := by
  unfold clip
  simp only [BitVec.lt_def]
  split_ifs <;> omega

/-- The region handed out from `index` on; `none` while nothing is available. -/
def handOut (index base bufferEnd framesAvail framesReq : U32) : Option Region :=
  if framesAvail = 0 then none
  else some
    { start := index - base
      frameCount := clip framesReq framesAvail (bufferEnd - index) }

/-! ## The client -/

/-- `AudioTrack::obtainBuffer` at the read of `framesAvailable_l` that ends its wait; `none`
while it waits, or when it gives up without a buffer. -/
def AudioTrack.obtainBuffer (c : Cblk) (frameCount framesReq : U32) : Option Region :=
  handOut c.user c.userBase (c.userBase + frameCount) (c.framesAvailable_l frameCount true)
    framesReq

/-- `AudioRecord::obtainBuffer`, likewise at the read of `framesReady`. -/
def AudioRecord.obtainBuffer (c : Cblk) (frameCount framesReq : U32) : Option Region :=
  handOut c.user c.userBase (c.userBase + frameCount) (c.framesReady false true) framesReq

/-- The wait loop of `AudioRecord::obtainBuffer` ends by resetting the timeout. -/
def Cblk.obtained (c : Cblk) (isOut : Bool) : Cblk :=
  if isOut then c else { c with bufferTimeoutMs := MAX_RUN_TIMEOUT_MS }

/-! ## The server -/

/-- The fields of `TrackBase` that survive from one call to the next. -/
structure TrackBase where
  mStepCount : U32
  mStepServerFailed : Bool
  deriving DecidableEq, Repr

def TrackBase.init : TrackBase := { mStepCount := 0, mStepServerFailed := false }

/-- `TrackBase::step`. -/
def TrackBase.step (t : TrackBase) (c : Cblk) (frameCount : U32) (isOut locked : Bool) :
    TrackBase × Cblk :=
  match c.stepServer t.mStepCount frameCount isOut locked with
  | some c' => (t, c')
  | none => ({ t with mStepServerFailed := true }, c)

/-- `TrackBase::releaseBuffer`. -/
def TrackBase.releaseBuffer (t : TrackBase) (c : Cblk) (released frameCount : U32)
    (isOut locked : Bool) : TrackBase × Cblk :=
  { t with mStepCount := released }.step c frameCount isOut locked

/-- The retry of a failed step at the head of `getNextBuffer`; `none` when it fails again. -/
def TrackBase.retry (t : TrackBase) (c : Cblk) (frameCount : U32) (isOut locked : Bool) :
    Option (TrackBase × Cblk) :=
  if t.mStepServerFailed then
    (c.stepServer t.mStepCount frameCount isOut locked).map fun c' =>
      ({ t with mStepServerFailed := false }, c')
  else some (t, c)

/-- The end of the region `PlaybackThread::Track::getNextBuffer` may hand out. -/
def Cblk.bufferEnd (c : Cblk) (frameCount : U32) : U32 :=
  if c.loopEnd < c.serverBase + frameCount then c.loopEnd else c.serverBase + frameCount

/-- `PlaybackThread::Track::getNextBuffer` after the retry. -/
def Track.getNextBuffer (c : Cblk) (frameCount framesReq : U32) (locked : Bool) :
    Option Region :=
  handOut c.server c.serverBase (c.bufferEnd frameCount) (c.framesReady true locked) framesReq

/-- `RecordThread::RecordTrack::getNextBuffer` after the retry. -/
def RecordTrack.getNextBuffer (c : Cblk) (frameCount framesReq : U32) : Option Region :=
  handOut c.server c.serverBase (c.serverBase + frameCount)
    (c.framesAvailable_l frameCount false) framesReq

/-! ## The session -/

/-- Both sides, the data buffer, and the frames that went through it. -/
structure Session (α : Type*) where
  cblk : Cblk
  track : TrackBase
  /-- The region obtained by the client and not yet released. -/
  client : Option Region
  /-- The region returned by `getNextBuffer` and not yet released. -/
  server : Option Region
  mem : ℕ → α
  produced : List α
  consumed : List α

/-- The calls of both sides, and the stores of the producing side to its region. -/
inductive Event (α : Type*)
  | obtainBuffer (framesReq : U32)
  | fill (off : ℕ) (frames : List α)
  | stepUser (stepCount : U32)
  | getNextBuffer (framesReq : U32) (lockStep lockReady : Bool)
  | releaseBuffer (released : U32) (locked : Bool)

variable {α : Type*}

def Session.start (b : U32) (mem : ℕ → α) : Session α where
  cblk := Cblk.start b
  track := TrackBase.init
  client := none
  server := none
  mem := mem
  produced := []
  consumed := []

/-- `n` frames of the data buffer from the offset `start` on leave the producing side or
reach the consuming side. -/
def Session.pass (s : Session α) (produces : Bool) (start n : U32) : Session α :=
  if produces then { s with produced := s.produced ++ slice s.mem start.toNat n.toNat }
  else { s with consumed := s.consumed ++ slice s.mem start.toNat n.toNat }

section Pass

variable (s : Session α) (produces : Bool) (start n : U32)

@[simp] theorem Session.pass_track : (s.pass produces start n).track = s.track := by
  cases produces <;> rfl
@[simp] theorem Session.pass_client : (s.pass produces start n).client = s.client := by
  cases produces <;> rfl
@[simp] theorem Session.pass_server : (s.pass produces start n).server = s.server := by
  cases produces <;> rfl
@[simp] theorem Session.pass_mem : (s.pass produces start n).mem = s.mem := by
  cases produces <;> rfl

end Pass

/-- The region of the producing side. -/
def Session.producer (s : Session α) (isOut : Bool) : Option Region :=
  if isOut then s.client else s.server

/-- The session after a retried step, with the frames that step accounts for. -/
def Session.retry (s : Session α) (frameCount : U32) (isOut locked : Bool) :
    Option (Session α) :=
  (s.track.retry s.cblk frameCount isOut locked).map fun tc =>
    if s.track.mStepServerFailed then
      { s.pass (!isOut) (s.cblk.server - s.cblk.serverBase) s.track.mStepCount with
        track := tc.1
        cblk := tc.2 }
    else s

/-- One call of either side. A side releases at most what it obtained last, once. -/
def step (frameCount : U32) (isOut : Bool) (s : Session α) : Event α → Option (Session α)
  | .obtainBuffer framesReq =>
    some { s with
      cblk := s.cblk.obtained isOut
      client :=
        if isOut then AudioTrack.obtainBuffer s.cblk frameCount framesReq
        else AudioRecord.obtainBuffer s.cblk frameCount framesReq }
  | .fill off frames =>
    match s.producer isOut with
    | some r =>
      if off + frames.length ≤ r.frameCount.toNat then
        some { s with mem := blit s.mem (r.start.toNat + off) frames }
      else none
    | none => none
  | .stepUser stepCount =>
    match s.client with
    | some r =>
      if stepCount ≤ r.frameCount then
        some { s.pass isOut r.start stepCount with
          cblk := s.cblk.stepUser stepCount frameCount isOut
          client := none }
      else none
    | none => none
  | .getNextBuffer framesReq lockStep lockReady =>
    match s.retry frameCount isOut lockStep with
    | none => some { s with server := none }
    | some s' =>
      some { s' with
        server :=
          if isOut then Track.getNextBuffer s'.cblk frameCount framesReq lockReady
          else RecordTrack.getNextBuffer s'.cblk frameCount framesReq }
  | .releaseBuffer released locked =>
    match s.server with
    | some r =>
      if released ≤ r.frameCount then
        let tc := s.track.releaseBuffer s.cblk released frameCount isOut locked
        some { (if locked then s.pass (!isOut) r.start released else s) with
          track := tc.1
          cblk := tc.2
          server := none }
      else none
    | none => none

/-- A step that is owed is made up for when the lock is free; else there is nothing to retry. -/
theorem Session.retry_cases {s s' : Session α} {frameCount : U32} {isOut locked : Bool}
    (h : s.retry frameCount isOut locked = some s') :
    (s.track.mStepServerFailed = false ∧ s' = s) ∨
      (s.track.mStepServerFailed = true ∧ locked = true ∧
        ∃ c, s.cblk.stepServer s.track.mStepCount frameCount isOut true = some c ∧
          s' = { s.pass (!isOut) (s.cblk.server - s.cblk.serverBase) s.track.mStepCount with
            track := { s.track with mStepServerFailed := false }
            cblk := c }) := by
  unfold Session.retry TrackBase.retry at h
  cases hf : s.track.mStepServerFailed with
  | false =>
    simp only [hf, Bool.false_eq_true, if_false, Option.map_some] at h
    cases h
    exact Or.inl ⟨rfl, rfl⟩
  | true =>
    simp only [hf, if_true, Option.map_map, Option.map_eq_some_iff] at h
    obtain ⟨c, hc, rfl⟩ := h
    cases locked with
    | false => cases hc
    | true => exact Or.inr ⟨rfl, rfl, c, hc, rfl⟩

theorem Session.retry_none {s : Session α} {frameCount : U32} {isOut locked : Bool}
    (h : s.retry frameCount isOut locked = none) : s.track.mStepServerFailed = true := by
  by_contra hf
  simp [Session.retry, TrackBase.retry, hf] at h

/-- With the lock the track releases by a step of the server; without it owes the step. -/
theorem TrackBase.releaseBuffer_cases (t : TrackBase) (c : Cblk) (released frameCount : U32)
    (isOut locked : Bool) :
    (locked = true ∧ ∃ c', c.stepServer released frameCount isOut true = some c' ∧
      t.releaseBuffer c released frameCount isOut locked =
        ({ t with mStepCount := released }, c')) ∨
      (locked = false ∧ t.releaseBuffer c released frameCount isOut locked =
        ({ mStepCount := released, mStepServerFailed := true }, c)) := by
  cases locked with
  | true => exact Or.inl ⟨rfl, _, rfl, rfl⟩
  | false => exact Or.inr ⟨rfl, rfl⟩

/-!
## Counters and regions as stream positions

A side that has stepped `n` frames since the start `b` has its counter at
`b + n` and its base at the start of lap `n / N`, both modulo `2 ^ 32`. The
region it holds starts in cell `n % N` and ends inside the lap, so that the
region is a contiguous stretch of the ring of `N` cells.
-/

open Foundation Counter RingMemory

/-- The side has stepped `n` frames over a buffer of `N` frames since the start `b`. -/
structure At (b N : ℕ) (index base : U32) (n : ℕ) : Prop where
  index : Counts index (b + n)
  base : Counts base (b + N * (n / N))
  cell_lt : n % N < 2 ^ 32

theorem at_start (b : U32) (N : ℕ) : At b.toNat N b b 0 where
  index := counts_toNat b
  base := by simpa using counts_toNat b
  cell_lt := by simp

variable {b n : ℕ} {index base frameCount : U32}

/-- The offset in the data buffer is the cell of the position. -/
theorem At.offset {N : ℕ} (h : At b N index base n) : (index - base).toNat = n % N := by
  have hdiv := Nat.mod_add_div n N
  have hlt := h.cell_lt
  rw [h.index.toNat_sub h.base (by omega) (by omega)]
  omega

/-- The room left in the lap. -/
theorem At.room (h : At b frameCount.toNat index base n) (hle : n % frameCount.toNat ≤ frameCount.toNat) :
    (base + frameCount - index).toNat = frameCount.toNat - n % frameCount.toNat := by
  have hdiv := Nat.mod_add_div n frameCount.toNat
  have hlt := frameCount.isLt
  rw [(h.base.step frameCount).toNat_sub h.index (by omega) (by omega)]
  omega

/-- Steps to the end of a lap start the next lap. -/
theorem lap_end {N k : ℕ} (h : n % N + k = N) : N * ((n + k) / N) = N * (n / N) + N := by
  have hdiv := Nat.mod_add_div n N
  have hsum : n + k = N * (n / N) + N := by omega
  have hcell := slot_lap h
  have hdiv' := Nat.mod_add_div (n + k) N
  omega

theorem lap_inside {N k : ℕ} (h : n % N + k < N) : (n + k) / N = n / N := by
  have hdiv := Nat.mod_add_div n N
  have hsum : n + k = N * (n / N) + (n % N + k) := by omega
  rw [hsum, Nat.mul_add_div (by omega), Nat.div_eq_of_lt h, Nat.add_zero]

/-- A step that does not leave the lap moves the counter and its base to the next position. -/
theorem At.step {k : U32} (h : At b frameCount.toNat index base n)
    (hk : n % frameCount.toNat + k.toNat ≤ frameCount.toNat)
    (hex : BaseExact (index + k) base frameCount) :
    At b frameCount.toNat (index + k) (advanceBase (index + k) base frameCount) (n + k.toNat) := by
  have hdiv := Nat.mod_add_div n frameCount.toNat
  have hN := frameCount.isLt
  have hidx : Counts (index + k) (b + (n + k.toNat)) :=
    (h.index.step k).congr (Nat.add_assoc _ _ _)
  have hdist : (index + k - base).toNat = n % frameCount.toNat + k.toNat := by
    rw [hidx.toNat_sub h.base (by omega) (by omega)]
    omega
  have hbase := advanceBase_exact (hdist.trans_le hk) hex
  rw [hdist] at hbase
  rw [hbase]
  split_ifs with hend
  · refine ⟨hidx, ?_, ?_⟩
    · rw [lap_end hend, ← Nat.add_assoc]
      exact h.base.step frameCount
    · rw [slot_lap hend]
      exact Nat.two_pow_pos 32
  · have hin : n % frameCount.toNat + k.toNat < frameCount.toNat := by omega
    refine ⟨hidx, ?_, ?_⟩
    · rw [lap_inside hin]
      exact h.base
    · rw [slot_add hin]
      omega

end AudioFlinger.TrackShared
