import AudioFlinger.Nbaio.Pipe

/-!
# No frame of a `Pipe` is unaccounted for

Every frame written is read, counted as overrun or still available, as long
as the reader calls at least once in `2 ^ 31` frames.
-/

namespace AudioFlinger.Nbaio

open Foundation Counter RingMemory Machine

variable {α : Type*}

/-- The stream position of the reader. -/
def Pipe.position (s : Pipe α) : ℕ := s.framesRead + s.framesSkipped

/-- The frames the reader has neither read nor skipped. -/
def Pipe.unread (s : Pipe α) : ℕ := s.stream.length - s.position

/-- A call of the reader comes before `2 ^ 31` frames have been written since the last one. -/
def Timely (s : Pipe α) : PipeEvent α → Prop
  | .write _ => True
  | .availableToRead => s.sinceCall < 2 ^ 31
  | .read _ => s.sinceCall < 2 ^ 31

instance (s : Pipe α) (e : PipeEvent α) : Decidable (Timely s e) :=
  match e with
  | .write _ => inferInstanceAs (Decidable True)
  | .availableToRead => inferInstanceAs (Decidable (_ < _))
  | .read _ => inferInstanceAs (Decidable (_ < _))

/-- The buffer is the end of the stream, and the fields count modulo `2 ^ 32`. -/
structure Pipe.Rel (cfg : PipeConfig) (b w : ℕ) (s : Pipe α)
    (q : RingLog α b cfg.mMaxFrames.toNat) : Prop where
  mem : q.mem = s.mBuffer
  log : q.log = s.stream
  rear : Counts s.mRear (b + s.stream.length)
  written : Counts s.mFramesWritten (w + s.stream.length)
  front : Counts s.mFront (b + s.position)
  read : Counts s.mFramesRead s.framesRead
  overrun : Counts s.mFramesOverrun s.framesSkipped
  behind : s.position ≤ s.stream.length
  near : s.stream.length ≤ s.position + cfg.mMaxFrames.toNat + s.sinceCall

theorem rel_start (cfg : PipeConfig) (mem : ℕ → α) (rear framesWritten : U32) :
    (Pipe.start mem rear framesWritten).Rel cfg rear.toNat framesWritten.toNat
      (RingLog.start rear.toNat cfg.mMaxFrames_bounds.1 mem) where
  mem := rfl
  log := rfl
  rear := counts_toNat rear
  written := counts_toNat framesWritten
  front := counts_toNat rear
  read := rfl
  overrun := rfl
  behind := le_refl 0
  near := Nat.zero_le _

section Step

variable {cfg : PipeConfig} {b w : ℕ} {s : Pipe α} {q : RingLog α b cfg.mMaxFrames.toNat}

theorem Pipe.Rel.write (h : s.Rel cfg b w q) {data : List α} (hdata : data.length < 2 ^ 32) :
    ∃ q', (s.write cfg data).Rel cfg b w q' := by
  unfold Pipe.write
  split_ifs with hneg
  · have hcount : (BitVec.ofNat 32 data.length).toNat = data.length := by
      rw [BitVec.toNat_ofNat, Nat.mod_eq_of_lt hdata]
    obtain ⟨-, -, hsum⟩ := cfg.toNat_parts (BitVec.ofNat 32 data.length) h.rear
    rw [hcount] at hsum
    have hblit := cfg.blit_parts h.rear s.mBuffer hcount.symm
    have hlen : (data.take cfg.mMaxFrames.toNat).length ≤ cfg.mMaxFrames.toNat :=
      List.length_take_le _ _
    have htake : data.take (min data.length cfg.mMaxFrames.toNat) =
        data.take cfg.mMaxFrames.toNat := by
      rw [List.take_eq_take_iff]
      lia
    have hmin : min (min data.length cfg.mMaxFrames.toNat) data.length =
        min data.length cfg.mMaxFrames.toNat := by lia
    have hbehind := h.behind
    have hnear := h.near
    refine ⟨q.append (data.take cfg.mMaxFrames.toNat) hlen, ?_⟩
    exact
      { mem := by
          dsimp only
          rw [hblit, RingLog.append_mem, h.mem, h.log]
        log := by
          dsimp only
          rw [hsum, htake, RingLog.append_log, h.log]
        rear := by
          dsimp only
          rw [hsum, List.length_append, List.length_take, hmin, BitVec.add_comm]
          exact (h.rear.step _).congr (by rw [hsum, Nat.add_assoc])
        written := by
          dsimp only
          rw [hsum, List.length_append, List.length_take, hmin]
          exact (h.written.step _).congr (by rw [hsum, Nat.add_assoc])
        front := h.front
        read := h.read
        overrun := h.overrun
        behind := by
          dsimp only [Pipe.position] at *
          rw [List.length_append]
          lia
        near := by
          dsimp only [Pipe.position] at *
          rw [hsum, List.length_append, List.length_take, hmin]
          lia }
  · exact ⟨q, h⟩

/-- The difference of the indices is what is unread. -/
theorem Pipe.Rel.toNat_avail (h : s.Rel cfg b w q) (hcall : s.sinceCall < 2 ^ 31) :
    (s.mRear - s.mFront).toNat = s.unread := by
  have hbounds := cfg.mMaxFrames_bounds
  have hbehind := h.behind
  have hnear := h.near
  rw [h.rear.toNat_sub h.front (by omega) (by omega), Pipe.unread]
  omega

/-- An overrun leaves a sixteenth of the buffer free. -/
theorem Pipe.Rel.overrunCall (h : s.Rel cfg b w q) (hcall : s.sinceCall < 2 ^ 31)
    (hneg : cfg.sourceNegotiated = true) (hover : cfg.mMaxFrames.toNat < s.unread) :
    (s.availableToRead cfg).1 = OVERRUN ∧ (s.availableToRead cfg).2.Rel cfg b w q ∧
      (s.availableToRead cfg).2.unread ≤ cfg.mMaxFrames.toNat ∧
      (s.availableToRead cfg).2.sinceCall = 0 := by
  have hbounds := cfg.mMaxFrames_bounds
  have hnear := h.near
  have havail := h.toNat_avail hcall
  have hlt : cfg.mMaxFrames < s.mRear - s.mFront := by
    rw [BitVec.lt_def, havail]
    exact hover
  unfold Pipe.unread at hover
  have hsixteenth : (cfg.mMaxFrames >>> 4).toNat = cfg.mMaxFrames.toNat / 16 := by
    rw [BitVec.toNat_ushiftRight, Nat.shiftRight_eq_div_pow]
  have hfront : Counts (s.mRear - cfg.mMaxFrames + (cfg.mMaxFrames >>> 4))
      (b + s.stream.length - cfg.mMaxFrames.toNat + cfg.mMaxFrames.toNat / 16) := by
    have hstart := h.rear.sub (counts_toNat cfg.mMaxFrames) (by lia)
    exact (hstart.step _).congr (by rw [hsixteenth])
  have hskip := hfront.toNat_sub h.front (by lia) (by lia)
  have hposition : s.framesRead + (s.framesSkipped +
      (s.mRear - cfg.mMaxFrames + (cfg.mMaxFrames >>> 4) - s.mFront).toNat) =
      s.stream.length - cfg.mMaxFrames.toNat + cfg.mMaxFrames.toNat / 16 := by
    rw [hskip]
    unfold Pipe.position at *
    lia
  have hcalled : s.availableToRead cfg = (OVERRUN,
      { s with
        mFront := s.mRear - cfg.mMaxFrames + (cfg.mMaxFrames >>> 4)
        mFramesOverrun := s.mFramesOverrun +
          (s.mRear - cfg.mMaxFrames + (cfg.mMaxFrames >>> 4) - s.mFront)
        mOverruns := s.mOverruns + 1
        framesSkipped := s.framesSkipped +
          (s.mRear - cfg.mMaxFrames + (cfg.mMaxFrames >>> 4) - s.mFront).toNat
        sinceCall := 0 }) := by
    simp only [Pipe.availableToRead, if_pos hneg, if_pos hlt]
  rw [hcalled]
  refine ⟨rfl, ?_, ?_, rfl⟩
  · exact
      { mem := h.mem
        log := h.log
        rear := h.rear
        written := h.written
        front := by
          dsimp only [Pipe.position]
          rw [hposition]
          exact hfront.congr (by lia)
        read := h.read
        overrun := h.overrun.step _
        behind := by
          dsimp only [Pipe.position]
          lia
        near := by
          dsimp only [Pipe.position]
          lia }
  · dsimp only [Pipe.unread, Pipe.position]
    lia

/-- Without an overrun the call answers what is unread and moves nothing. -/
theorem Pipe.Rel.availableCall (h : s.Rel cfg b w q) (hcall : s.sinceCall < 2 ^ 31)
    (hneg : cfg.sourceNegotiated = true) (hfits : s.unread ≤ cfg.mMaxFrames.toNat) :
    s.availableToRead cfg = (s.mRear - s.mFront, { s with sinceCall := 0 }) ∧
      Pipe.Rel cfg b w { s with sinceCall := 0 } q := by
  have havail := h.toNat_avail hcall
  have hle : ¬ cfg.mMaxFrames < s.mRear - s.mFront := by
    rw [BitVec.lt_def, havail]
    omega
  have hbehind := h.behind
  refine ⟨by simp only [Pipe.availableToRead, if_pos hneg, if_neg hle], { h with near := ?_ }⟩
  unfold Pipe.unread at hfits
  unfold Pipe.position at *
  dsimp only
  omega

/-- The result of the next call is `OVERRUN` exactly when more than the buffer is unread. -/
theorem Pipe.Rel.overrun_iff (h : s.Rel cfg b w q) (hcall : s.sinceCall < 2 ^ 31)
    (hneg : cfg.sourceNegotiated = true) :
    (s.availableToRead cfg).1 = OVERRUN ↔ cfg.mMaxFrames.toNat < s.unread := by
  have hbounds := cfg.mMaxFrames_bounds
  constructor
  · intro hover
    by_contra hfits
    obtain ⟨hresult, -⟩ := h.availableCall hcall hneg (not_lt.mp hfits)
    have havail := h.toNat_avail hcall
    rw [hresult] at hover
    rw [show s.mRear - s.mFront = OVERRUN from hover] at havail
    have hlarge : OVERRUN.toNat = 2 ^ 31 + 17 := rfl
    omega
  · intro hover
    exact (h.overrunCall hcall hneg hover).1

/-- After the availability check, an error, or a read of the next frames of the stream. -/
theorem Pipe.Rel.readCall (h : s.Rel cfg b w q) (hcall : s.sinceCall < 2 ^ 31)
    (hneg : cfg.sourceNegotiated = true) (hfits : s.unread ≤ cfg.mMaxFrames.toNat) (count : U32) :
    (s.read cfg count).2.2.Rel cfg b w q ∧ (s.read cfg count).1 ≠ OVERRUN ∧
      (s.read cfg count).2.2.sinceCall = 0 ∧
      (0 < (s.read cfg count).1.toInt →
        (s.read cfg count).2.1 =
            (s.stream.drop s.position).take (s.read cfg count).1.toNat ∧
          (s.read cfg count).2.1.length = (s.read cfg count).1.toNat) := by
  have hbounds := cfg.mMaxFrames_bounds
  have havail := h.toNat_avail hcall
  have hover := (h.overrun_iff hcall hneg).not.mpr (not_lt.mpr hfits)
  obtain ⟨hresult, hrel⟩ := h.availableCall hcall hneg hfits
  rw [hresult] at hover
  unfold Pipe.read
  simp only [hresult]
  by_cases herror : (s.mRear - s.mFront).toInt ≤ 0
  · rw [if_pos herror]
    exact ⟨hrel, hover, rfl, fun hpos => absurd hpos (not_lt.mpr herror)⟩
  · rw [if_neg herror]
    generalize hn : (if s.mRear - s.mFront < count then s.mRear - s.mFront else count) = n
    have hle : n.toNat ≤ s.unread := by
      rw [← hn, ← havail]
      simp only [BitVec.lt_def]
      split_ifs <;> lia
    obtain ⟨-, -, hsum⟩ := cfg.toNat_parts n h.front
    rw [Nat.min_eq_left (by lia)] at hsum
    have hbehind := h.behind
    have hunread : s.unread = s.stream.length - s.position := rfl
    have hread := q.ringSlice_log (p := s.position) (n := n.toNat)
      (by rw [h.log]; lia) (by rw [h.log]; lia)
    rw [h.mem, h.log, ← cfg.slice_parts h.front _ (by lia)] at hread
    dsimp only
    rw [hread, hsum]
    refine ⟨?_, ?_, rfl, fun _ => ⟨rfl, ?_⟩⟩
    · exact
        { mem := h.mem
          log := h.log
          rear := h.rear
          written := h.written
          front := (h.front.step _).congr (by rw [hsum]; unfold Pipe.position; dsimp only; lia)
          read := (h.read.step _).congr (by rw [hsum])
          overrun := h.overrun
          behind := by
            unfold Pipe.position at *
            dsimp only
            lia
          near := by
            unfold Pipe.position at *
            dsimp only
            lia }
    · intro heq
      have hlarge : OVERRUN.toNat = 2 ^ 31 + 17 := rfl
      rw [heq] at hsum
      lia
    · rw [List.length_take, List.length_drop]
      lia

/-- A read that is overrun does what the availability check does. -/
theorem Pipe.read_overrun {count : U32} (h : (s.availableToRead cfg).1 = OVERRUN) :
    s.read cfg count = (OVERRUN, [], (s.availableToRead cfg).2) := by
  have hsign : OVERRUN.toInt ≤ 0 := by decide
  simp only [Pipe.read, h, if_pos hsign]

end Step

theorem rel_step {cfg : PipeConfig} (hneg : cfg.sourceNegotiated = true) {b w : ℕ} (s : Pipe α)
    (e : PipeEvent α) (s' : Pipe α) (htimely : Timely s e) (hstep : pipeStep cfg s e = some s')
    (h : ∃ q, s.Rel cfg b w q) : ∃ q, s'.Rel cfg b w q := by
  obtain ⟨q, h⟩ := h
  cases e with
  | write data =>
    simp only [pipeStep, Option.ite_none_right_eq_some] at hstep
    obtain ⟨hdata, hs⟩ := hstep
    cases hs
    exact h.write hdata
  | availableToRead =>
    cases hstep
    by_cases hover : cfg.mMaxFrames.toNat < s.unread
    · exact ⟨q, (h.overrunCall htimely hneg hover).2.1⟩
    · obtain ⟨hresult, hrel⟩ := h.availableCall htimely hneg (not_lt.mp hover)
      rw [hresult]
      exact ⟨q, hrel⟩
  | read count =>
    cases hstep
    by_cases hover : cfg.mMaxFrames.toNat < s.unread
    · obtain ⟨hresult, hrel, -⟩ := h.overrunCall htimely hneg hover
      rw [Pipe.read_overrun hresult]
      exact ⟨q, hrel⟩
    · exact ⟨q, (h.readCall htimely hneg (not_lt.mp hover) count).1⟩

/-- What holds of a pipe and its reader between two calls, `framesWritten` being the writer's
count when the reader was created. -/
structure Pipe.Accounted (cfg : PipeConfig) (framesWritten : U32) (s : Pipe α) : Prop where
  /-- Every frame written is read, counted as overrun, or still available. -/
  frames : s.stream.length = s.framesRead + s.framesSkipped + (s.mRear - s.mFront).toNat
  read : s.mFramesRead = BitVec.ofNat 32 s.framesRead
  overrun : s.mFramesOverrun = BitVec.ofNat 32 s.framesSkipped
  fields : s.mFramesWritten - framesWritten =
    s.mFramesRead + s.mFramesOverrun + (s.mRear - s.mFront)
  availableToRead_overrun : (s.availableToRead cfg).1 = OVERRUN ↔ cfg.mMaxFrames.toNat < s.unread
  read_overrun : ∀ count, (s.read cfg count).1 = OVERRUN ↔ cfg.mMaxFrames.toNat < s.unread
  /-- After an overrun the next call is not overrun. -/
  overrun_once : (s.availableToRead cfg).1 = OVERRUN →
    ((s.availableToRead cfg).2.availableToRead cfg).1 ≠ OVERRUN ∧
      ∀ count, ((s.availableToRead cfg).2.read cfg count).1 ≠ OVERRUN
  read_overrun_once : ∀ count, (s.read cfg count).1 = OVERRUN →
    ∀ count', ((s.read cfg count).2.2.read cfg count').1 ≠ OVERRUN
  /-- A successful read returns the frames of the stream at the reader's position. -/
  read_frames : ∀ count, 0 < (s.read cfg count).1.toInt →
    (s.read cfg count).2.1 = (s.stream.drop s.position).take (s.read cfg count).1.toNat ∧
      (s.read cfg count).2.1.length = (s.read cfg count).1.toNat

theorem Pipe.Rel.accounted {cfg : PipeConfig} (hneg : cfg.sourceNegotiated = true)
    {framesWritten : U32} {b : ℕ} {s : Pipe α} {q : RingLog α b cfg.mMaxFrames.toNat}
    (h : s.Rel cfg b framesWritten.toNat q) (hcall : s.sinceCall < 2 ^ 31) :
    s.Accounted cfg framesWritten := by
  have hover := h.overrun_iff hcall hneg
  have hread (count : U32) : (s.read cfg count).1 = OVERRUN ↔ cfg.mMaxFrames.toNat < s.unread := by
    constructor
    · intro hresult
      by_contra hfits
      exact (h.readCall hcall hneg (not_lt.mp hfits) count).2.1 hresult
    · intro hlarge
      rw [Pipe.read_overrun (hover.mpr hlarge)]
  have honce (hlarge : cfg.mMaxFrames.toNat < s.unread) :
      ((s.availableToRead cfg).2.availableToRead cfg).1 ≠ OVERRUN ∧
        ∀ count, ((s.availableToRead cfg).2.read cfg count).1 ≠ OVERRUN := by
    obtain ⟨-, hrel, hfits, hzero⟩ := h.overrunCall hcall hneg hlarge
    have hcall' : (s.availableToRead cfg).2.sinceCall < 2 ^ 31 := by omega
    refine ⟨?_, fun count => (hrel.readCall hcall' hneg hfits count).2.1⟩
    rw [ne_eq, hrel.overrun_iff hcall' hneg]
    omega
  have havail := h.toNat_avail hcall
  have hbehind := h.behind
  have hframes : s.stream.length = s.framesRead + s.framesSkipped + (s.mRear - s.mFront).toNat := by
    unfold Pipe.unread Pipe.position at *
    omega
  exact
    { frames := hframes
      read := h.read
      overrun := h.overrun
      fields := by
        have hwritten := h.written.sub (counts_toNat framesWritten) (by omega)
        have htotal := (h.read.add h.overrun).add (counts_toNat (s.mRear - s.mFront))
        rw [hwritten.eq, htotal.eq, ← hframes, Nat.add_sub_cancel_left]
      availableToRead_overrun := hover
      read_overrun := hread
      overrun_once := fun hresult => honce (hover.mp hresult)
      read_overrun_once := by
        intro count hresult count'
        have hlarge := (hread count).mp hresult
        rw [Pipe.read_overrun (hover.mpr hlarge)]
        exact (honce hlarge).2 count'
      read_frames := by
        intro count hpos
        by_cases hlarge : cfg.mMaxFrames.toNat < s.unread
        · have hsign : ¬ 0 < OVERRUN.toInt := by decide
          rw [Pipe.read_overrun (hover.mpr hlarge)] at hpos
          exact absurd hpos hsign
        · exact (h.readCall hcall hneg (not_lt.mp hlarge) count).2.2.2 hpos }

/-- In every run in which the reader calls in time, every frame is accounted for after every
call, from any start of the indices and any contents of the buffer. -/
theorem pipe_accounted (cfg : PipeConfig) (hneg : cfg.sourceNegotiated = true) (mem : ℕ → α)
    (rear framesWritten : U32) (es : List (PipeEvent α)) (s : Pipe α)
    (hrun : run (pipeStep cfg) (Pipe.start mem rear framesWritten) es = some s)
    (htimely : Along (pipeStep cfg) Timely (Pipe.start mem rear framesWritten) es)
    (hcall : s.sinceCall < 2 ^ 31) : s.Accounted cfg framesWritten := by
  obtain ⟨q, h⟩ : ∃ q, s.Rel cfg rear.toNat framesWritten.toNat q :=
    run_invariant_along (rel_step hneg) htimely hrun ⟨_, rel_start cfg mem rear framesWritten⟩
  exact h.accounted hneg hcall

/-- A pipe of two frames is lapped by a write of five, of which it takes two at a time. -/
def twoFramePipe : PipeConfig where
  mMaxFrames := 2#32
  sinkNegotiated := true
  sourceNegotiated := true
  size := ⟨1, by decide, rfl⟩

def lapped : List (PipeEvent ℕ) :=
  [.write [1, 2, 3, 4, 5], .write [6], .read 3, .read 3]

theorem pipe_accounted_lapped : ∃ s,
    run (pipeStep twoFramePipe) (Pipe.start (fun _ => 0) 0xFFFFFFFF#32 7) lapped = some s ∧
      s.mFramesOverrun = 1#32 ∧ s.mFramesRead = 2#32 ∧ s.Accounted twoFramePipe 7#32 := by
  obtain ⟨s, hs⟩ : ∃ s, run (pipeStep twoFramePipe) (Pipe.start (fun _ => 0) 0xFFFFFFFF#32 7)
      lapped = some s := ⟨_, rfl⟩
  have hfields : (run (pipeStep twoFramePipe) (Pipe.start (fun _ => 0) 0xFFFFFFFF#32 7)
      lapped).map (fun s => (s.mFramesOverrun, s.mFramesRead, s.sinceCall)) =
      some (1#32, 2#32, 0) := by decide +kernel
  have htimely : Along (pipeStep twoFramePipe) Timely
      (Pipe.start (fun _ => 0) 0xFFFFFFFF#32 7) lapped := by decide +kernel
  rw [hs, Option.map_some, Option.some_inj, Prod.mk.injEq, Prod.mk.injEq] at hfields
  obtain ⟨hover, hread, hsince⟩ := hfields
  exact ⟨s, hs, hover, hread, pipe_accounted twoFramePipe rfl (fun _ => 0) 0xFFFFFFFF#32 7 lapped
    s hs htimely (by omega)⟩

end AudioFlinger.Nbaio
