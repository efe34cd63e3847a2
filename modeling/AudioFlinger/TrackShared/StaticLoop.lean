import AudioFlinger.TrackShared.Looping

/-!
# Loops over a static buffer

The client of a static buffer has stepped over all of it. The loop makes the
server play the region from `loopStart` to `loopEnd` once more than it has
jumps, and the rest of the buffer after the last one. `framesReady` computes
how many frames that are with 32 bits.
-/

namespace AudioFlinger.TrackShared

open Foundation Machine RingMemory

/-! ## The frames to play -/

/-- The frames played from `x` on with `jumps` jumps back to go. -/
def framesFrom (N ls le : ℕ) (x : ℕ) : ℕ → List ℕ
  | 0 => List.range' x (N - x)
  | jumps + 1 => List.range' x (le - x) ++ framesFrom N ls le ls jumps

/-- Up to the loop end, the loop again, and the last time on to the end of the buffer. -/
def loopFrames (N ls le s0 n : ℕ) : List ℕ :=
  List.range' s0 (le - s0) ++
    ((List.replicate (n - 1) (List.range' ls (le - ls))).flatten ++ List.range' ls (N - ls))

/-- Where the server stops or jumps. -/
def limit (N le : ℕ) (jumps : ℕ) : ℕ := if jumps = 0 then N else le

theorem framesFrom_succ (N ls le x jumps : ℕ) :
    framesFrom N ls le x (jumps + 1) =
      List.range' x (le - x) ++
        ((List.replicate jumps (List.range' ls (le - ls))).flatten ++ List.range' ls (N - ls)) := by
  induction jumps generalizing x with
  | zero => rfl
  | succ jumps ih => rw [framesFrom, ih, List.replicate_succ, List.flatten_cons, List.append_assoc]

theorem loopFrames_eq (N ls le s0 : ℕ) {n : ℕ} (hn : 0 < n) :
    loopFrames N ls le s0 n = framesFrom N ls le s0 n := by
  obtain ⟨n, rfl⟩ := Nat.exists_eq_succ_of_ne_zero hn.ne'
  exact (framesFrom_succ N ls le s0 n).symm

variable {N ls le x jumps k : ℕ}

theorem framesFrom_length (hloop : ls ≤ le) (hle : le ≤ N) (hx : x ≤ limit N le jumps) :
    (framesFrom N ls le x jumps).length = (le - ls) * jumps + N - x := by
  induction jumps generalizing x with
  | zero => simp [framesFrom]
  | succ jumps ih =>
    rw [limit, if_neg (Nat.succ_ne_zero _)] at hx
    have hls : ls ≤ limit N le jumps := by
      unfold limit
      split_ifs <;> omega
    rw [framesFrom, List.length_append, List.length_range', ih hls, Nat.mul_succ]
    omega

/-- The next frames before the limit. -/
theorem framesFrom_split (hk : x + k ≤ limit N le jumps) :
    framesFrom N ls le x jumps = List.range' x k ++ framesFrom N ls le (x + k) jumps := by
  have hrange (e : ℕ) (he : x + k ≤ e) :
      List.range' x (e - x) = List.range' x k ++ List.range' (x + k) (e - (x + k)) := by
    rw [List.range'_append_1]
    congr 1
    omega
  cases jumps with
  | zero => exact hrange N hk
  | succ jumps => rw [framesFrom, framesFrom, hrange le hk, List.append_assoc]

theorem framesFrom_limit (jumps : ℕ) :
    framesFrom N ls le le (jumps + 1) = framesFrom N ls le ls jumps := by
  simp [framesFrom]

theorem framesFrom_end : framesFrom N ls le N 0 = [] := by simp [framesFrom]

theorem slice_id (x k : ℕ) : slice (id : ℕ → ℕ) x k = List.range' x k := by
  rw [slice, List.range'_eq_map_range]
  rfl

/-! ## The control block on its way through the loop -/

/-- The server is at `x`, before its limit, with `jumps` jumps to go. -/
structure Cblk.InSchedule (c : Cblk) (N ls le : U32) (x jumps : ℕ) : Prop where
  user : c.user = N
  server : c.server.toNat = x
  base : c.serverBase = 0#32
  before : x < limit N.toNat le.toNat jumps
  loopStart : c.loopStart = if jumps = 0 then UINT_MAX else ls
  loopEnd : c.loopEnd = if jumps = 0 then UINT_MAX else le
  loopCount : c.loopCount = jumps

/-- The server has reached the end of the buffer. -/
structure Cblk.Played (c : Cblk) (N : U32) : Prop where
  user : c.user = N
  server : c.server = N
  loopEnd : c.loopEnd = UINT_MAX
  loopCount : N = UINT_MAX → c.loopCount = -1

section Server

variable {c : Cblk} {N ls le : U32} {x jumps : ℕ}

/-- The loop of an accepted `setLoop_l`. -/
structure LoopIn (N ls le : U32) : Prop where
  start : ls < le
  stop : le ≤ N

theorem LoopIn.limit_le (hloop : LoopIn N ls le) (jumps : ℕ) :
    limit N.toNat le.toNat jumps ≤ N.toNat := by
  have hstop := hloop.stop
  rw [BitVec.le_def] at hstop
  unfold limit
  split_ifs <;> omega

/-- The frames that are left, counted in 32 bits. -/
theorem Cblk.InSchedule.framesReady (h : c.InSchedule N ls le x jumps) (hloop : LoopIn N ls le) :
    (c.framesReady true true).toNat =
      ((le.toNat - ls.toNat) * jumps + N.toNat - x) % 2 ^ 32 := by
  have hstart := hloop.start
  have hstop := hloop.stop
  have hbefore := h.before
  have hlimit := hloop.limit_le jumps
  have hN := N.isLt
  have hdist : (N - c.server).toNat = N.toNat - x := by
    rw [BitVec.toNat_sub_of_le (by rw [BitVec.le_def, h.server]; omega), h.server]
  cases jumps with
  | zero =>
    have hcases : c.framesReady true true = N - c.server := by
      simp only [Cblk.framesReady, h.user, h.loopEnd, h.loopStart, h.loopCount, if_true]
      by_cases hlt : N < UINT_MAX
      · simp [hlt]
      · simp [hlt]
    rw [hcases, hdist, Nat.mul_zero, Nat.zero_add, Nat.mod_eq_of_lt (by omega)]
  | succ jumps =>
    rw [BitVec.lt_def] at hstart
    rw [BitVec.le_def] at hstop
    have hcases : c.framesReady true true =
        (le - ls) * BitVec.ofInt 32 ((jumps + 1 : ℕ) : ℤ) + N - c.server := by
      simp only [Cblk.framesReady, h.user, h.loopEnd, h.loopStart, h.loopCount, if_true]
      rw [if_neg (by simpa [BitVec.lt_def] using hstop), if_neg (not_not.mpr trivial),
        if_pos (by omega)]
      simp
    have hlen : (le - ls).toNat = le.toNat - ls.toNat :=
      BitVec.toNat_sub_of_le (by rw [BitVec.le_def]; omega)
    have hserver := h.server
    have hcount : ((le - ls) * BitVec.ofInt 32 ((jumps + 1 : ℕ) : ℤ)).toNat =
        (le.toNat - ls.toNat) * (jumps + 1) % 2 ^ 32 := by
      rw [BitVec.toNat_mul, hlen, BitVec.ofInt_natCast, BitVec.toNat_ofNat, Nat.mul_mod_mod]
    rw [hcases, BitVec.toNat_sub, BitVec.toNat_add, hcount, hserver]
    omega

theorem Cblk.InSchedule.serverTarget (h : c.InSchedule N ls le x jumps) (hloop : LoopIn N ls le)
    (k : U32) : c.serverTarget k true = c.server + k := by
  have hlimit := hloop.limit_le jumps
  have hbefore := h.before
  have hserver := h.server
  rw [Cblk.serverTarget, if_neg]
  rintro ⟨-, hlevel⟩
  rw [hlevel, h.user] at hserver
  omega

theorem advanceBase_before {index : U32} (h : index.toNat < N.toNat) :
    advanceBase index 0#32 N = 0#32 := by
  rw [advanceBase, if_neg (by rw [BitVec.le_def]; omega),
    if_neg (by rw [BitVec.zero_add, BitVec.le_def]; omega)]

/-- A step that stays before the limit. -/
theorem Cblk.InSchedule.stepServer_before (h : c.InSchedule N ls le x jumps)
    (hloop : LoopIn N ls le) {k : U32} (hk : x + k.toNat < limit N.toNat le.toNat jumps)
    {c' : Cblk} (hc : c.stepServer k N true true = some c') :
    c'.InSchedule N ls le (x + k.toNat) jumps := by
  have hlimit := hloop.limit_le jumps
  have hserver := h.server
  have hN := N.isLt
  have hs : (c.server + k).toNat = x + k.toNat := by
    rw [BitVec.toNat_add, hserver, Nat.mod_eq_of_lt (by omega)]
  have hpass : ¬ c.loopEnd ≤ c.server + k := by
    rw [BitVec.le_def, hs, h.loopEnd]
    have hmax : UINT_MAX.toNat = 2 ^ 32 - 1 := rfl
    unfold limit at hk
    split_ifs at hk ⊢ <;> omega
  simp only [Cblk.stepServer, if_true, h.serverTarget hloop, Cblk.loopPass, Cblk.loopJump,
    if_neg hpass, Option.some.injEq] at hc
  subst hc
  exact
    { user := h.user
      server := hs
      base := by
        rw [h.base]
        exact advanceBase_before (by omega)
      before := hk
      loopStart := h.loopStart
      loopEnd := h.loopEnd
      loopCount := h.loopCount }

/-- A step to the loop end jumps back. -/
theorem Cblk.InSchedule.stepServer_jump (h : c.InSchedule N ls le x (jumps + 1))
    (hloop : LoopIn N ls le) {k : U32} (hk : x + k.toNat = le.toNat)
    {c' : Cblk} (hc : c.stepServer k N true true = some c') :
    c'.InSchedule N ls le ls.toNat jumps := by
  have hstart := hloop.start
  have hstop := hloop.stop
  have hserver := h.server
  have hle := le.isLt
  rw [BitVec.lt_def] at hstart
  rw [BitVec.le_def] at hstop
  have hs : c.server + k = le := by
    apply BitVec.eq_of_toNat_eq
    rw [BitVec.toNat_add, hserver, Nat.mod_eq_of_lt (by lia), hk]
  have hend : c.loopEnd = le := h.loopEnd
  have hstart' : c.loopStart = ls := h.loopStart
  have hcount : c.loopCount - 1 = jumps := by
    rw [h.loopCount]
    lia
  simp only [Cblk.stepServer, if_true, h.serverTarget hloop, Cblk.loopPass, Cblk.loopJump, hs, hend,
    if_pos (BitVec.le_refl le), hcount, hstart', Option.some.injEq] at hc
  subst hc
  have hbase : advanceBase ls c.serverBase N = 0#32 := by
    rw [h.base]
    exact advanceBase_before (by lia)
  by_cases hjumps : jumps = 0
  · subst hjumps
    exact
      { user := h.user
        server := rfl
        base := hbase
        before := by
          rw [limit, if_pos rfl]
          lia
        loopStart := rfl
        loopEnd := rfl
        loopCount := rfl }
  · simp only [Int.natCast_eq_zero, hjumps, if_false]
    exact
      { user := h.user
        server := rfl
        base := hbase
        before := by
          rw [limit, if_neg hjumps]
          exact hstart
        loopStart := by rw [if_neg hjumps]
        loopEnd := by rw [if_neg hjumps]
        loopCount := rfl }

/-- The step to the end of the buffer. -/
theorem Cblk.InSchedule.stepServer_end (h : c.InSchedule N ls le x 0) (hloop : LoopIn N ls le)
    {k : U32} (hk : x + k.toNat = N.toNat) {c' : Cblk}
    (hc : c.stepServer k N true true = some c') : c'.Played N := by
  have hserver := h.server
  have hN := N.isLt
  have hs : c.server + k = N := by
    apply BitVec.eq_of_toNat_eq
    rw [BitVec.toNat_add, hserver, Nat.mod_eq_of_lt (by omega), hk]
  have hend : c.loopEnd = UINT_MAX := h.loopEnd
  have hstart : c.loopStart = UINT_MAX := h.loopStart
  have hcount : c.loopCount - 1 = -1 := by
    rw [h.loopCount]
    rfl
  simp only [Cblk.stepServer, if_true, h.serverTarget hloop, Cblk.loopPass, Cblk.loopJump, hs, hend,
    hcount, hstart, Option.some.injEq] at hc
  subst hc
  by_cases hmax : N = UINT_MAX
  · subst hmax
    exact ⟨h.user, rfl, rfl, fun _ => rfl⟩
  · have hlt : ¬ UINT_MAX ≤ N := by
      rw [BitVec.not_le]
      exact (lt_UINT_MAX_iff N).mpr hmax
    simp only [if_neg hlt]
    exact ⟨h.user, rfl, hend, fun heq => absurd heq hmax⟩

theorem Cblk.InSchedule.stepServer (h : c.InSchedule N ls le x jumps) (hloop : LoopIn N ls le)
    {k : U32} (hk : x + k.toNat ≤ limit N.toNat le.toNat jumps) {c' : Cblk}
    (hc : c.stepServer k N true true = some c') :
    (∃ x' jumps', c'.InSchedule N ls le x' jumps' ∧
      framesFrom N.toNat ls.toNat le.toNat (x + k.toNat) jumps =
        framesFrom N.toNat ls.toNat le.toNat x' jumps') ∨
      c'.Played N ∧ framesFrom N.toNat ls.toNat le.toNat (x + k.toNat) jumps = [] := by
  rcases Nat.lt_or_eq_of_le hk with hlt | heq
  · exact .inl ⟨_, jumps, h.stepServer_before hloop hlt hc, rfl⟩
  · cases jumps with
    | zero =>
      rw [limit, if_pos rfl] at heq
      rw [heq]
      exact .inr ⟨h.stepServer_end hloop heq hc, framesFrom_end⟩
    | succ jumps =>
      rw [limit, if_neg (Nat.succ_ne_zero _)] at heq
      rw [heq]
      exact .inl ⟨_, jumps, h.stepServer_jump hloop heq hc, framesFrom_limit jumps⟩

theorem Cblk.InSchedule.bufferEnd (h : c.InSchedule N ls le x jumps) (hloop : LoopIn N ls le) :
    (c.bufferEnd N - c.server).toNat = limit N.toNat le.toNat jumps - x := by
  have hlimit := hloop.limit_le jumps
  have hbefore := h.before
  have hserver := h.server
  have hstop := hloop.stop
  rw [BitVec.le_def] at hstop
  have hend : (c.bufferEnd N).toNat = limit N.toNat le.toNat jumps := by
    have hmax : UINT_MAX.toNat = 2 ^ 32 - 1 := rfl
    rw [Cblk.bufferEnd, h.base, h.loopEnd, BitVec.zero_add]
    unfold limit
    by_cases hjumps : jumps = 0
    · rw [if_pos hjumps, if_pos hjumps, if_neg (by rw [BitVec.lt_def]; omega)]
    · rw [if_neg hjumps, if_neg hjumps]
      split_ifs with hlt
      · rfl
      · rw [BitVec.lt_def] at hlt
        omega
  rw [BitVec.toNat_sub_of_le (by rw [BitVec.le_def, hend]; omega), hend, hserver]

/-- The chunk that the server hands out is next in the schedule. -/
theorem Cblk.InSchedule.getNextBuffer (h : c.InSchedule N ls le x jumps) (hloop : LoopIn N ls le)
    {req : U32} {locked : Bool} {r : Region} (hr : Track.getNextBuffer c N req locked = some r) :
    r.start.toNat = x ∧ x + r.frameCount.toNat ≤ limit N.toNat le.toNat jumps := by
  have hbefore := h.before
  have hroom := h.bufferEnd hloop
  unfold Track.getNextBuffer handOut at hr
  split_ifs at hr
  cases hr
  have hclip := clip_le_room req (c.framesReady true locked) (c.bufferEnd N - c.server)
  refine ⟨?_, by dsimp only; omega⟩
  dsimp only
  rw [h.base, BitVec.sub_zero, h.server]

theorem clip_pos {req avail room : U32} (hreq : req ≠ 0) (havail : avail ≠ 0) (hroom : room ≠ 0) :
    clip req avail room ≠ 0 := by
  unfold clip
  split_ifs <;> assumption

/-- While frames are ready and asked for, the chunk is not empty. -/
theorem Cblk.InSchedule.getNextBuffer_pos (h : c.InSchedule N ls le x jumps)
    (hloop : LoopIn N ls le) (hready : c.framesReady true true ≠ 0) {req : U32} (hreq : req ≠ 0) :
    ∃ r, Track.getNextBuffer c N req true = some r ∧ 0 < r.frameCount.toNat := by
  have hbefore := h.before
  have hroom := h.bufferEnd hloop
  have hne : c.bufferEnd N - c.server ≠ 0 := by
    intro hzero
    rw [hzero, show (0 : U32).toNat = 0 from rfl] at hroom
    omega
  refine ⟨_, if_neg hready, ?_⟩
  exact Nat.pos_of_ne_zero fun hzero =>
    clip_pos hreq hready hne (BitVec.eq_of_toNat_eq hzero)

/-- At the end nothing is ready, unless the end is the marker of no loop. -/
theorem Cblk.Played.framesReady (h : c.Played N) :
    c.framesReady true true = if N = UINT_MAX then UINT_MAX else 0 := by
  simp only [Cblk.framesReady, h.user, h.server, h.loopEnd, if_true]
  by_cases hmax : N = UINT_MAX
  · subst hmax
    have hcount := h.loopCount rfl
    simp [hcount]
  · have hlt := (lt_UINT_MAX_iff N).mpr hmax
    simp [hlt, hmax]

end Server

/-! ## Runs of the server -/

/-- The server's calls. -/
def Event.OfServer {α : Type*} : Event α → Prop
  | .getNextBuffer _ _ _ => True
  | .releaseBuffer _ _ => True
  | _ => False

/-- The invariant of a run of the server over the frames of `schedule`. -/
structure Session.OnSchedule (s : Session ℕ) (N ls le : U32) (schedule : List ℕ) (x jumps : ℕ) :
    Prop where
  cblk : s.cblk.InSchedule N ls le x jumps
  mem : s.mem = id
  frames : s.consumed ++ framesFrom N.toNat ls.toNat le.toNat x jumps = schedule
  chunk : ∀ r, s.server = some r →
    r.start.toNat = x ∧ x + r.frameCount.toNat ≤ limit N.toNat le.toNat jumps
  owed : s.track.mStepServerFailed = true →
    s.server = none ∧ x + s.track.mStepCount.toNat ≤ limit N.toNat le.toNat jumps

/-- The run has come to its end. -/
structure Session.Finished (s : Session ℕ) (N : U32) (schedule : List ℕ) : Prop where
  cblk : s.cblk.Played N
  frames : s.consumed = schedule
  idle : s.server = none
  settled : s.track.mStepServerFailed = false

section Steps

variable {N ls le : U32} {schedule : List ℕ} {s s' : Session ℕ} {x jumps : ℕ}
  (h : s.OnSchedule N ls le schedule x jumps) (hloop : LoopIn N ls le)

include h hloop

/-- After the frames of a step, the run is further on in the schedule or at its end. -/
theorem Session.OnSchedule.advance {start k : U32} (hstart : start.toNat = x)
    (hk : x + k.toNat ≤ limit N.toNat le.toNat jumps) {c : Cblk}
    (hc : s.cblk.stepServer k N true true = some c) (hcblk : s'.cblk = c) (hmem : s'.mem = s.mem)
    (hconsumed : s'.consumed = s.consumed ++ slice s.mem start.toNat k.toNat)
    (hserver : s'.server = none) (htrack : s'.track.mStepServerFailed = false) :
    (∃ x' jumps', s'.OnSchedule N ls le schedule x' jumps') ∨ s'.Finished N schedule := by
  have hframes : s'.consumed ++ framesFrom N.toNat ls.toNat le.toNat (x + k.toNat) jumps =
      schedule := by
    rw [hconsumed, h.mem, hstart, slice_id, List.append_assoc, ← framesFrom_split hk, h.frames]
  obtain ⟨x', jumps', hnext, heq⟩ | ⟨hplayed, hend⟩ := h.cblk.stepServer hloop hk hc
  · refine .inl ⟨x', jumps', ⟨?_, ?_, ?_, ?_, ?_⟩⟩
    · rwa [hcblk]
    · rw [hmem, h.mem]
    · rw [← heq, hframes]
    · simp [hserver]
    · simp [htrack]
  · refine .inr ⟨?_, ?_, hserver, htrack⟩
    · rwa [hcblk]
    · rwa [hend, List.append_nil] at hframes

theorem Session.OnSchedule.handOut (hsettled : s.track.mStepServerFailed = false) (req : U32)
    (locked : Bool) :
    Session.OnSchedule { s with server := Track.getNextBuffer s.cblk N req locked } N ls le schedule
      x jumps where
  cblk := h.cblk
  mem := h.mem
  frames := h.frames
  chunk := fun _ hr => h.cblk.getNextBuffer hloop hr
  owed := by simp [hsettled]

omit h hloop in
/-- With nothing ready, a call at the end changes nothing. -/
theorem Session.Finished.getNextBuffer (h : s.Finished N schedule) (hmax : N ≠ UINT_MAX)
    (req : U32) (lockStep lockReady : Bool)
    (hstep : step N true s (.getNextBuffer req lockStep lockReady) = some s') :
    s'.Finished N schedule := by
  have hretry : s.retry N true lockStep = some s := by
    simp [Session.retry, TrackBase.retry, h.settled]
  have hready : s.cblk.framesReady true lockReady = 0 := by
    have hlt := (lt_UINT_MAX_iff N).mpr hmax
    simp [Cblk.framesReady, h.cblk.user, h.cblk.server, h.cblk.loopEnd, hlt]
  simp only [step, hretry, if_true, Track.getNextBuffer, TrackShared.handOut, hready,
    Option.some.injEq] at hstep
  subst hstep
  exact ⟨h.cblk, h.frames, rfl, h.settled⟩

theorem Session.OnSchedule.step (hmax : N ≠ UINT_MAX) {e : Event ℕ} (he : e.OfServer)
    (hstep : TrackShared.step N true s e = some s') :
    (∃ x' jumps', s'.OnSchedule N ls le schedule x' jumps') ∨ s'.Finished N schedule := by
  cases e with
  | obtainBuffer framesReq => exact he.elim
  | fill off frames => exact he.elim
  | stepUser stepCount => exact he.elim
  | getNextBuffer framesReq lockStep lockReady =>
    cases hretry : s.retry N true lockStep with
    | none =>
      -- the step is still owed
      simp only [TrackShared.step, hretry, Option.some.injEq] at hstep
      subst hstep
      have howed := h.owed (Session.retry_none hretry)
      exact .inl ⟨x, jumps, h.cblk, h.mem, h.frames, by simp, fun _ => ⟨rfl, howed.2⟩⟩
    | some s₁ =>
      obtain ⟨hf, rfl⟩ | ⟨hf, -, c, hc, rfl⟩ := Session.retry_cases hretry
      · simp only [TrackShared.step, hretry, if_true, Option.some.injEq] at hstep
        subst hstep
        exact .inl ⟨x, jumps, h.handOut hloop hf framesReq lockReady⟩
      · obtain ⟨hnone, hk⟩ := h.owed hf
        have hoffset : (s.cblk.server - s.cblk.serverBase).toNat = x := by
          rw [h.cblk.base, BitVec.sub_zero, h.cblk.server]
        have hnext := @advance _ _ _ _ s { s.pass (!true)
            (s.cblk.server - s.cblk.serverBase) s.track.mStepCount with
          track := { s.track with mStepServerFailed := false }
          cblk := c } _ _ h hloop _ _ hoffset hk _ hc rfl rfl rfl hnone rfl
        have hstep' := hstep
        simp only [TrackShared.step, hretry, if_true, Option.some.injEq] at hstep'
        subst hstep'
        obtain ⟨x', jumps', hon⟩ | hfinished := hnext
        · exact .inl ⟨x', jumps', hon.handOut hloop rfl framesReq lockReady⟩
        · refine .inr (hfinished.getNextBuffer hmax framesReq true lockReady ?_)
          rfl
  | releaseBuffer released locked =>
    cases hserver : s.server with
    | none => simp [TrackShared.step, hserver] at hstep
    | some r =>
      simp only [TrackShared.step, hserver, Option.ite_none_right_eq_some] at hstep
      obtain ⟨hle, hs⟩ := hstep
      rw [BitVec.le_def] at hle
      obtain ⟨hstart, hroom⟩ := h.chunk r hserver
      have hok : s.track.mStepServerFailed = false := by
        by_contra hfailed
        simp [(h.owed (by simpa using hfailed)).1] at hserver
      obtain ⟨rfl, c, hc, htrack⟩ | ⟨rfl, htrack⟩ :=
        s.track.releaseBuffer_cases s.cblk released N true locked
      · simp only [htrack, if_true, Option.some.injEq] at hs
        subst hs
        exact h.advance hloop hstart (by lia) hc rfl rfl rfl rfl hok
      · simp only [htrack, Bool.false_eq_true, if_false, Option.some.injEq] at hs
        subst hs
        exact .inl ⟨x, jumps, h.cblk, h.mem, h.frames, by simp, fun _ => ⟨rfl, by dsimp only; lia⟩⟩

theorem Session.OnSchedule.run (hmax : N ≠ UINT_MAX) {es : List (Event ℕ)}
    (hes : ∀ e ∈ es, e.OfServer)
    (hrun : Machine.run (TrackShared.step N true) s es = some s') :
    (∃ x' jumps', s'.OnSchedule N ls le schedule x' jumps') ∨ s'.Finished N schedule := by
  have hrunFrom (es : List (Event ℕ)) (s : Session ℕ) (hes : ∀ e ∈ es, e.OfServer)
      (hrun : Machine.run (TrackShared.step N true) s es = some s')
      (h : (∃ x jumps, s.OnSchedule N ls le schedule x jumps) ∨ s.Finished N schedule) :
      (∃ x' jumps', s'.OnSchedule N ls le schedule x' jumps') ∨ s'.Finished N schedule := by
    induction es generalizing s with
    | nil =>
      cases hrun
      exact h
    | cons e es ih =>
      obtain ⟨m, hm, hrest⟩ := run_cons_some.mp hrun
      have he := hes e List.mem_cons_self
      refine ih m (fun e' he' => hes e' (List.mem_cons_of_mem e he')) hrest ?_
      obtain ⟨x, jumps, hon⟩ | hfinished := h
      · exact hon.step hloop hmax he hm
      · cases e with
        | obtainBuffer framesReq => exact he.elim
        | fill off frames => exact he.elim
        | stepUser stepCount => exact he.elim
        | getNextBuffer framesReq lockStep lockReady =>
          exact .inr (hfinished.getNextBuffer hmax framesReq lockStep lockReady hm)
        | releaseBuffer released locked => simp [TrackShared.step, hfinished.idle] at hm
  exact hrunFrom es s hes hrun (.inl ⟨x, jumps, h⟩)

/-- What a run over the frames of `schedule` shows. -/
structure Session.Conforms (s : Session ℕ) (N : U32) (schedule : List ℕ) : Prop where
  inOrder : s.consumed <+: schedule
  ready : s.track.mStepServerFailed = false →
    (s.cblk.framesReady true true).toNat + s.consumed.length = schedule.length
  chunk : s.track.mStepServerFailed = false → s.consumed.length < schedule.length →
    ∀ req : U32, req ≠ 0 → ∃ r, Track.getNextBuffer s.cblk N req true = some r ∧
      0 < r.frameCount.toNat ∧ r.Inside N.toNat

theorem Session.OnSchedule.length :
    s.consumed.length + ((le.toNat - ls.toNat) * jumps + N.toNat - x) = schedule.length := by
  have hstart := hloop.start
  have hstop := hloop.stop
  rw [BitVec.lt_def] at hstart
  rw [BitVec.le_def] at hstop
  rw [← framesFrom_length hstart.le hstop h.cblk.before.le, ← List.length_append, h.frames]

theorem Session.OnSchedule.framesReady (hfits : schedule.length < 2 ^ 32) :
    (s.cblk.framesReady true true).toNat + s.consumed.length = schedule.length := by
  have hlength := h.length hloop
  rw [h.cblk.framesReady hloop, Nat.mod_eq_of_lt (by omega)]
  omega

theorem Session.OnSchedule.conforms (hfits : schedule.length < 2 ^ 32) : s.Conforms N schedule := by
  have hready := h.framesReady hloop hfits
  refine ⟨⟨_, h.frames⟩, fun _ => hready, fun _ hleft req hreq => ?_⟩
  have hne : s.cblk.framesReady true true ≠ 0 := by
    intro hzero
    rw [hzero, show (0 : U32).toNat = 0 from rfl] at hready
    omega
  obtain ⟨r, hr, hpos⟩ := h.cblk.getNextBuffer_pos hloop hne hreq
  obtain ⟨hstart, hroom⟩ := h.cblk.getNextBuffer hloop hr
  have hlimit := hloop.limit_le jumps
  refine ⟨r, hr, hpos, ?_⟩
  rw [Region.Inside, hstart]
  omega

omit h hloop in
theorem Session.Finished.conforms (h : s.Finished N schedule) (hmax : N ≠ UINT_MAX) :
    s.Conforms N schedule := by
  refine ⟨?_, fun _ => ?_, fun _ hlt => ?_⟩
  · exact h.frames ▸ List.prefix_rfl
  · rw [h.cblk.framesReady, if_neg hmax, h.frames]
    exact Nat.zero_add _
  · rw [h.frames] at hlt
    exact absurd hlt (lt_irrefl _)

omit h hloop in
/-- A chunk taken and released. -/
theorem Session.round (s : Session ℕ) (hsettled : s.track.mStepServerFailed = false) {req k : U32}
    {r : Region} (hr : Track.getNextBuffer s.cblk N req true = some r) (hk : k ≤ r.frameCount) :
    ∃ s' c, Machine.run (TrackShared.step N true) s
        [.getNextBuffer req true true, .releaseBuffer k true] = some s' ∧
      s.cblk.stepServer k N true true = some c ∧ s'.cblk = c ∧ s'.mem = s.mem ∧
      s'.consumed = s.consumed ++ slice s.mem r.start.toNat k.toNat ∧ s'.server = none ∧
      s'.track.mStepServerFailed = false := by
  have hretry : s.retry N true true = some s := by
    simp [Session.retry, TrackBase.retry, hsettled]
  obtain ⟨-, c, hc, htrack⟩ | ⟨hlocked, -⟩ := s.track.releaseBuffer_cases s.cblk k N true true
  · refine ⟨{ s.pass false r.start k with
      track := { s.track with mStepCount := k }, cblk := c, server := none }, c, ?_, hc, rfl, rfl,
      rfl, rfl, hsettled⟩
    simp only [run_cons, run_nil, TrackShared.step, hretry, hr, Option.bind_some, htrack, if_true,
      if_pos hk]
    rfl
  · cases hlocked

omit h hloop in
/-- By induction on the frames left: the server can play to the end. -/
theorem Session.OnSchedule.reaches_end (hloop : LoopIn N ls le)
    (hfits : schedule.length < 2 ^ 32) (left : ℕ) (s : Session ℕ) {x jumps : ℕ}
    (h : s.OnSchedule N ls le schedule x jumps) (hsettled : s.track.mStepServerFailed = false)
    (hleft : schedule.length ≤ s.consumed.length + left) :
    ∃ es s', (∀ e ∈ es, e.OfServer) ∧ Machine.run (TrackShared.step N true) s es = some s' ∧
      s'.Finished N schedule := by
  induction left generalizing s x jumps with
  | zero =>
    have hlength := h.length hloop
    have hbefore := h.cblk.before
    have hlimit := hloop.limit_le jumps
    omega
  | succ left ih =>
    have hready := h.framesReady hloop hfits
    have hlength := h.length hloop
    have hbefore := h.cblk.before
    have hlimit := hloop.limit_le jumps
    have hne : s.cblk.framesReady true true ≠ 0 := by
      intro hzero
      rw [hzero, show (0 : U32).toNat = 0 from rfl] at hready
      omega
    obtain ⟨r, hr, hpos⟩ := @Cblk.InSchedule.getNextBuffer_pos _ _ _ _ _ _ h.cblk hloop hne UINT_MAX (by decide)
    obtain ⟨hstart, hroom⟩ := h.cblk.getNextBuffer hloop hr
    obtain ⟨s₁, c, hrun, hc, hcblk, hmem, hconsumed, hserver, htrack⟩ :=
      s.round hsettled hr (BitVec.le_refl r.frameCount)
    have hevents : ∀ e ∈ ([.getNextBuffer UINT_MAX true true,
        .releaseBuffer r.frameCount true] : List (Event ℕ)), e.OfServer := by
      simp [Event.OfServer]
    obtain ⟨x', jumps', hon⟩ | hfinished :=
      h.advance hloop hstart hroom hc hcblk hmem hconsumed hserver htrack
    · have hmore : s₁.consumed.length = s.consumed.length + r.frameCount.toNat := by
        rw [hconsumed, List.length_append, slice_length]
      obtain ⟨es, s', hes, hrest, hend⟩ := ih s₁ hon htrack (by omega)
      refine ⟨[.getNextBuffer UINT_MAX true true, .releaseBuffer r.frameCount true] ++ es, s', ?_,
        ?_, hend⟩
      · intro e he
        exact (List.mem_append.mp he).elim (hevents e) (hes e)
      · rw [run_append, hrun, Option.bind_some, hrest]
    · exact ⟨_, s₁, hevents, hrun, hfinished⟩

end Steps

/-! ## The loop of `setLoop_l` -/

/-- The whole static buffer is stepped over by the client, and no chunk is out. The memory holds
the index of each frame. -/
structure Session.Idle (s : Session ℕ) (N : U32) : Prop where
  user : s.cblk.user = N
  server : s.server = none
  settled : s.track.mStepServerFailed = false
  mem : s.mem = id
  consumed : s.consumed = []

section SetLoop

variable {t : AudioTrack} {s : Session ℕ} {ls le : U32} {n : ℕ} {c : Cblk}

theorem AudioTrack.setLoop_l_ok (hstatic : t.mSharedBuffer = true) (hn : 0 < n)
    (hset : t.setLoop_l s.cblk ls le n = .ok c) :
    LoopIn t.mFrameCount ls le ∧ s.cblk.server ≤ ls ∧
      c = { s.cblk with loopStart := ls, loopEnd := le, loopCount := n } := by
  unfold AudioTrack.setLoop_l at hset
  split_ifs at hset with htimed hzero hbad hshared
  · omega
  · cases hset
    refine ⟨⟨?_, ?_⟩, ?_, rfl⟩
    · exact BitVec.not_le.mp fun hle => hbad (.inl hle)
    · exact BitVec.not_lt.mp fun hlt => hshared ⟨hstatic, hlt⟩
    · exact BitVec.not_lt.mp fun hlt => hbad (.inr (.inr hlt))

/-- The number of frames that the loop makes of the buffer. -/
def loopLength (N ls le s0 : U32) (n : ℕ) : ℕ :=
  (le.toNat - ls.toNat) * n + N.toNat - s0.toNat

theorem loopFrames_length {N s0 : U32} (hloop : LoopIn N ls le) (hs0 : s0 ≤ ls) (hn : 0 < n) :
    (loopFrames N.toNat ls.toNat le.toNat s0.toNat n).length = loopLength N ls le s0 n := by
  have hstart := hloop.start
  have hstop := hloop.stop
  rw [BitVec.lt_def] at hstart
  rw [BitVec.le_def] at hstop hs0
  rw [loopFrames_eq _ _ _ _ hn, framesFrom_length hstart.le hstop]
  · rfl
  · rw [limit, if_neg hn.ne']
    omega

/-- With the base at the start of the buffer, the loop is what the server is to play. -/
theorem Session.Idle.onSchedule (hidle : s.Idle t.mFrameCount) (hstatic : t.mSharedBuffer = true)
    (hn : 0 < n) (hset : t.setLoop_l s.cblk ls le n = .ok c) (hbase : s.cblk.serverBase = 0#32) :
    Session.OnSchedule { s with cblk := c } t.mFrameCount ls le
      (loopFrames t.mFrameCount.toNat ls.toNat le.toNat s.cblk.server.toNat n)
      s.cblk.server.toNat n := by
  obtain ⟨hloop, hs0, rfl⟩ := AudioTrack.setLoop_l_ok hstatic hn hset
  have hstart := hloop.start
  rw [BitVec.lt_def] at hstart
  rw [BitVec.le_def] at hs0
  refine ⟨⟨hidle.user, rfl, hbase, ?_, ?_, ?_, rfl⟩, hidle.mem, ?_, ?_, ?_⟩
  · rw [limit, if_neg hn.ne']
    omega
  · rw [if_neg hn.ne']
  · rw [if_neg hn.ne']
  · dsimp only
    rw [hidle.consumed, List.nil_append, loopFrames_eq _ _ _ _ hn]
  · simp [hidle.server]
  · simp [hidle.settled]

/-- The first chunk comes from the place of the server in the lap of its base. -/
theorem Session.Idle.base_of_conforms (hidle : s.Idle t.mFrameCount)
    (hstatic : t.mSharedBuffer = true) (hn : 0 < n)
    (hset : t.setLoop_l s.cblk ls le n = .ok c)
    (hall : ∀ es s', (∀ e ∈ es, e.OfServer) →
      Machine.run (step t.mFrameCount true) { s with cblk := c } es = some s' →
      s'.Conforms t.mFrameCount
        (loopFrames t.mFrameCount.toNat ls.toNat le.toNat s.cblk.server.toNat n)) :
    s.cblk.serverBase = 0#32 := by
  obtain ⟨hloop, hs0, hc⟩ := AudioTrack.setLoop_l_ok hstatic hn hset
  have hstart := hloop.start
  have hstop := hloop.stop
  rw [BitVec.lt_def] at hstart
  rw [BitVec.le_def] at hstop hs0
  have hlength := loopFrames_length (n := n) hloop (BitVec.le_def.mpr hs0) hn
  have hfirst := hall [] _ (by simp) rfl
  have hpos : 0 < loopLength t.mFrameCount ls le s.cblk.server n := by
    unfold loopLength
    lia
  obtain ⟨r, hr, hcount, -⟩ := hfirst.chunk hidle.settled
    (by rw [hidle.consumed, List.length_nil, hlength]; exact hpos) 1#32 (by decide)
  have hone : (1#32 : U32) ≤ r.frameCount := by
    rw [BitVec.le_def]
    exact hcount
  obtain ⟨s₁, c₁, hrun, -, -, -, hconsumed, -⟩ :=
    Session.round { s with cblk := c } hidle.settled hr hone
  have hplayed := (hall _ s₁ (by simp [Event.OfServer]) hrun).inOrder
  have hstartEq : r.start = s.cblk.server - s.cblk.serverBase := by
    unfold Track.getNextBuffer handOut at hr
    split_ifs at hr
    cases hr
    rw [hc]
  have hhead : loopFrames t.mFrameCount.toNat ls.toNat le.toNat s.cblk.server.toNat n =
      s.cblk.server.toNat :: (loopFrames t.mFrameCount.toNat ls.toNat le.toNat
        s.cblk.server.toNat n).tail := by
    obtain ⟨m, hm⟩ := Nat.exists_eq_succ_of_ne_zero
      (show le.toNat - s.cblk.server.toNat ≠ 0 by lia)
    rw [loopFrames, hm]
    rfl
  rw [hconsumed, hidle.consumed, hidle.mem, slice_id, hhead] at hplayed
  have heq : r.start.toNat = s.cblk.server.toNat := by
    simpa [List.range'] using hplayed
  have hsame := BitVec.eq_of_toNat_eq heq
  rw [hstartEq] at hsame
  bv_omega

/-- Over every way to cut the playing into chunks, the server plays the frames of the loop in
order and knows how many are left, exactly when that number fits in 32 bits, the lap of the
server starts with the buffer, and the end of the buffer is not the marker of no loop. -/
theorem setLoop_l_plays_iff (hstatic : t.mSharedBuffer = true) (hidle : s.Idle t.mFrameCount)
    (hn : 0 < n) (hset : t.setLoop_l s.cblk ls le n = .ok c) :
    (∀ es s', (∀ e ∈ es, e.OfServer) →
      Machine.run (step t.mFrameCount true) { s with cblk := c } es = some s' →
      s'.Conforms t.mFrameCount
        (loopFrames t.mFrameCount.toNat ls.toNat le.toNat s.cblk.server.toNat n)) ↔
    loopLength t.mFrameCount ls le s.cblk.server n < 2 ^ 32 ∧ s.cblk.serverBase = 0#32 ∧
      t.mFrameCount ≠ UINT_MAX := by
  obtain ⟨hloop, hs0, hc⟩ := AudioTrack.setLoop_l_ok hstatic hn hset
  have hlength := loopFrames_length (n := n) hloop hs0 hn
  constructor
  · intro hall
    have hfits : loopLength t.mFrameCount ls le s.cblk.server n < 2 ^ 32 := by
      have hready := (hall [] _ (by simp) rfl).ready hidle.settled
      rw [hidle.consumed, List.length_nil, hlength, Nat.add_zero] at hready
      rw [← hready]
      exact BitVec.isLt _
    have hbase := hidle.base_of_conforms hstatic hn hset hall
    refine ⟨hfits, hbase, fun hmax => ?_⟩
    have hon := hidle.onSchedule hstatic hn hset hbase
    rw [← hlength] at hfits
    obtain ⟨es, s', hes, hrun, hend⟩ := Session.OnSchedule.reaches_end hloop hfits
      (loopFrames t.mFrameCount.toNat ls.toNat le.toNat s.cblk.server.toNat n).length _ hon
      hidle.settled (Nat.le_add_left _ _)
    have hready := (hall es s' hes hrun).ready hend.settled
    rw [hend.cblk.framesReady, if_pos hmax, hend.frames] at hready
    have hmarker : UINT_MAX.toNat = 2 ^ 32 - 1 := rfl
    omega
  · rintro ⟨hfits, hbase, hmax⟩ es s' hes hrun
    rw [← hlength] at hfits
    have hon := hidle.onSchedule hstatic hn hset hbase
    obtain ⟨x, jumps, hon'⟩ | hfinished := hon.run hloop hmax hes hrun
    · exact hon'.conforms hloop hfits
    · exact hfinished.conforms hmax

/-- The middle of a clip of four frames played twice. -/
theorem setLoop_l_plays_iff_shortClip :
    loopFrames 4 1 3 0 1 = [0, 1, 2, 1, 2, 3] ∧
    ∀ es s', (∀ e ∈ es, e.OfServer) →
      Machine.run (step 4#32 true) { shortClip.start 0#32 id with
        cblk := { (shortClip.start 0#32 (id : ℕ → ℕ)).cblk with
          loopStart := 1#32, loopEnd := 3#32, loopCount := (1 : ℕ) } } es = some s' →
      s'.Conforms 4#32 [0, 1, 2, 1, 2, 3] :=
  ⟨rfl, (@setLoop_l_plays_iff shortClip (shortClip.start 0#32 id) 1#32 3#32 1 _ rfl
    ⟨rfl, rfl, rfl, rfl, rfl⟩ (by decide) rfl).mpr ⟨by decide, rfl, by decide⟩⟩

end SetLoop

def longClip : AudioTrack := { mFrameCount := 65536#32, mSharedBuffer := true, mIsTimed := false }

/-- A clip of `2 ^ 16` frames looped as a whole to be played `2 ^ 16` times has no frame ready. -/
theorem setLoop_l_wraps : ∃ c,
    longClip.setLoop_l (longClip.start 0#32 (id : ℕ → ℕ)).cblk 0#32 65536#32 65535 = .ok c ∧
      c.framesReady true true = 0#32 ∧ Track.getNextBuffer c 65536#32 256#32 true = none ∧
      (loopFrames 65536 0 65536 0 65535).length = 2 ^ 32 ∧
      ¬ ∀ es s', (∀ e ∈ es, e.OfServer) →
        Machine.run (step 65536#32 true) { longClip.start 0#32 id with cblk := c } es = some s' →
        s'.Conforms 65536#32 (loopFrames 65536 0 65536 0 65535) := by
  have hlength : (loopFrames 65536 0 65536 0 65535).length = 2 ^ 32 :=
    @loopFrames_length 0#32 65536#32 _ 65536#32 0#32 ⟨by decide, by decide⟩
      (by decide) (by decide)
  refine ⟨_, rfl, by decide, by decide, hlength, fun hall => ?_⟩
  have hready := (hall [] _ (by simp) rfl).ready rfl
  rw [hlength] at hready
  exact absurd hready (by decide)

end AudioFlinger.TrackShared
