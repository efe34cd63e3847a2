import AudioFlinger.Foundation.Bytes
import AudioFlinger.Foundation.Machine

/-!
# Reading a record

The loop moves whole frames out of the buffers that `obtainBuffer` hands out, until
nothing is left to read, which is never reached from a size that is not a multiple of
the frame.
-/

namespace AudioFlinger.Client

open Foundation Rounds

/-! ## Buffers -/

/-- The frames that `obtainBuffer` finds, and the memory at the first of them. -/
structure Found where
  framesReady : U32
  /-- `bufferEnd - u`. -/
  untilEnd : U32
  i8 : ℕ → Byte

/-- `frameCount` of the buffer, when `framesReq` frames were asked for. -/
def Found.frameCount (found : Found) (framesReq : U32) : U32 :=
  let framesReq := if found.framesReady < framesReq then found.framesReady else framesReq
  if found.untilEnd < framesReq then found.untilEnd else framesReq

/-- The status is negative, or the buffer has been filled in. -/
inductive Answer
  | error (err : U32)
  | found (found : Found)

def NO_MORE_BUFFERS : U32 := 0x80000001#32
def TIMED_OUT : U32 := -110#32
def BAD_VALUE : U32 := -22#32

/-! ## The loop -/

/-- The variables of the loop. -/
structure Transfer where
  /-- How often `obtainBuffer` has been called. -/
  calls : ℕ
  userSize : U32
  read : U32
  /-- The bytes copied. -/
  bytes : List Byte

inductive Exit
  | badValue
  | finished
  | error (err : U32)
  deriving DecidableEq, Repr

/-- What is returned, how the loop was left and the bytes copied. -/
structure Outcome where
  returned : U32
  exit : Exit
  bytes : List Byte

/-- One pass through the body of the `do`, and the test of its condition. -/
def transferRound (frameSize : U32) (answers : ℕ → Answer) (s : Transfer) :
    Except Unit (Transfer ⊕ (Exit × Transfer)) :=
  match answers s.calls with
  | .error err => .ok (.inr (.error err, s))
  | .found found =>
    let bytesRead := found.frameCount (s.userSize / frameSize) * frameSize
    let s := {
      calls := s.calls + 1
      userSize := s.userSize - bytesRead
      read := s.read + bytesRead
      bytes := s.bytes ++ (List.range bytesRead.toNat).map found.i8 }
    .ok (if s.userSize ≠ 0#32 then .inl s else .inr (.finished, s))

def transfer (frameSize : U32) (answers : ℕ → Answer) (fuel : ℕ) (userSize : U32) :
    Except Unit (Exit × Transfer) :=
  loop (transferRound frameSize answers) () fuel ⟨0, userSize, 0#32, []⟩

/-- What is returned when the loop was left. -/
def Transfer.outcome (s : Transfer) : Exit → Outcome
  | .error err =>
    ⟨if err = NO_MORE_BUFFERS ∨ err = TIMED_OUT then s.read else err, .error err, s.bytes⟩
  | exit => ⟨s.read, exit, s.bytes⟩

/-- `AudioRecord::read`. -/
def AudioRecord.read (mFrameSize : U32) (answers : ℕ → Answer) (fuel : ℕ) (userSize : U32) :
    Except Unit Outcome :=
  if userSize.slt 0#32 then .ok ⟨BAD_VALUE, .badValue, []⟩
  else (transfer mFrameSize answers fuel userSize).map fun (exit, s) => s.outcome exit

/-! ## What is to hold -/

/-- The answers have a frame whenever one is asked for. -/
def Obtains (answers : ℕ → Answer) : Prop :=
  ∀ i found, answers i = .found found → ∀ n : U32, min 1 n.toNat ≤ (found.frameCount n).toNat

/-- The call ends, and if it was not by an error, then with all whole frames moved. -/
def Ends (frameSize : U32) (call : ℕ → Except Unit Outcome) (userSize : U32) : Prop :=
  ∃ fuel out, call fuel = .ok out ∧
    (out.exit = .finished → out.returned.toNat = userSize.toNat / frameSize.toNat * frameSize.toNat)

/-! ## One round -/

theorem Found.frameCount_le (found : Found) (n : U32) : found.frameCount n ≤ n := by
  simp only [Found.frameCount]
  split_ifs with hready hend hend
  · exact BitVec.le_of_lt (BitVec.lt_trans hend hready)
  · exact BitVec.le_of_lt hready
  · exact BitVec.le_of_lt hend
  · exact BitVec.le_refl n

section Rounds

variable {frameSize total : U32} {answers : ℕ → Answer}

/-- The bytes read are whole frames, and the others are left. -/
structure Moving (frameSize total : U32) (s : Transfer) : Prop where
  frames : frameSize.toNat ∣ s.read.toNat
  sum : s.read.toNat + s.userSize.toNat = total.toNat

/-- A buffer moves whole frames of what is left, and one at least if there is one. -/
theorem transferRound_found {s : Transfer} {found : Found}
    (hanswer : answers s.calls = .found found) (h : Moving frameSize total s) :
    ∃ s', transferRound frameSize answers s =
        .ok (if s'.userSize ≠ 0#32 then .inl s' else .inr (.finished, s')) ∧
      s'.calls = s.calls + 1 ∧ Moving frameSize total s' ∧
      s'.userSize.toNat = s.userSize.toNat -
        (found.frameCount (s.userSize / frameSize)).toNat * frameSize.toNat := by
  have hle := BitVec.le_def.mp (found.frameCount_le (s.userSize / frameSize))
  rw [BitVec.toNat_udiv] at hle
  have hbytes := Nat.mul_le_of_le_div _ _ _ hle
  have htotal := total.isLt
  obtain ⟨hframes, hsum⟩ := h
  have hsize : (found.frameCount (s.userSize / frameSize) * frameSize).toNat =
      (found.frameCount (s.userSize / frameSize)).toNat * frameSize.toNat := by
    rw [BitVec.toNat_mul, Nat.mod_eq_of_lt (by omega)]
  have hleft : (s.userSize - found.frameCount (s.userSize / frameSize) * frameSize).toNat =
      s.userSize.toNat -
        (found.frameCount (s.userSize / frameSize)).toNat * frameSize.toNat := by
    rw [BitVec.toNat_sub_of_le (BitVec.le_def.mpr (by omega)), hsize]
  have hread : (s.read + found.frameCount (s.userSize / frameSize) * frameSize).toNat =
      s.read.toNat + (found.frameCount (s.userSize / frameSize)).toNat * frameSize.toNat := by
    rw [BitVec.toNat_add, hsize, Nat.mod_eq_of_lt (by omega)]
  refine ⟨_, by rw [transferRound, hanswer], rfl, ⟨?_, ?_⟩, hleft⟩
  · dsimp only
    rw [hread]
    exact Nat.dvd_add hframes (Nat.dvd_mul_left _ _)
  · dsimp only
    rw [hread, hleft]
    omega

/-- With nothing left, all whole frames are read. -/
theorem Moving.all {s : Transfer} (h : Moving frameSize total s) (hsize : 0 < frameSize.toNat)
    (hzero : s.userSize = 0#32) :
    s.read.toNat = total.toNat / frameSize.toNat * frameSize.toNat := by
  obtain ⟨⟨k, hk⟩, hsum⟩ := h
  rw [← hsum, hzero, hk, BitVec.toNat_zero, Nat.add_zero, Nat.mul_div_cancel_left k hsize,
    Nat.mul_comm]

/-! ## Where the loop ends -/

/-- Over a size in whole frames, a frame at least is left until nothing is. -/
theorem transfer_ends (hsize : 0 < frameSize.toNat) (hobtains : Obtains answers)
    (heven : frameSize.toNat ∣ total.toNat) :
    ∃ fuel r, transfer frameSize answers fuel total = .ok r ∧
      (r.1 = .finished → r.2.read.toNat = total.toNat / frameSize.toNat * frameSize.toNat) := by
  refine ⟨total.toNat + 1, @loop_ok _ _ _ _ _ (Moving frameSize total) (fun _ => True) _
    (fun s => s.userSize.toNat) ?_ _ ⟨Nat.dvd_zero _, Nat.zero_add _⟩ (fun _ _ => trivial) _
    (Nat.lt_succ_self _)⟩
  intro s hs _
  cases hanswer : answers s.calls with
  | error err => exact .inr ⟨(.error err, s), by rw [transferRound, hanswer], nofun⟩
  | found found =>
    obtain ⟨s', hround, -, hmoving, hleft⟩ := transferRound_found hanswer hs
    by_cases hzero : s'.userSize = 0#32
    · rw [if_neg (not_not.mpr hzero)] at hround
      exact .inr ⟨_, hround, fun _ => hmoving.all hsize hzero⟩
    · rw [if_pos hzero] at hround
      refine .inl ⟨s', hround, hmoving, ?_⟩
      have hrest : frameSize.toNat ∣ s'.userSize.toNat := by
        rw [← hmoving.sum] at heven
        exact (Nat.dvd_add_right hmoving.frames).mp heven
      have hframe := Nat.le_of_dvd
        (Nat.pos_of_ne_zero fun h => hzero (BitVec.eq_of_toNat_eq h)) hrest
      have hone : 1 ≤ s.userSize.toNat / frameSize.toNat :=
        (Nat.one_le_div_iff hsize).mpr (by omega)
      have hmoved := hobtains _ _ hanswer (s.userSize / frameSize)
      rw [BitVec.toNat_udiv, Nat.min_eq_left hone] at hmoved
      have hbytes := Nat.mul_le_mul_right frameSize.toNat hmoved
      omega

/-- The loop is stopped by an error, unless it stops before with nothing left. -/
theorem transfer_fails (hsize : 0 < frameSize.toNat) {i : ℕ} {err : U32}
    (herror : answers i = .error err) :
    ∃ fuel r, transfer frameSize answers fuel total = .ok r ∧
      (r.1 = .finished → r.2.read.toNat = total.toNat / frameSize.toNat * frameSize.toNat) := by
  refine ⟨i + 2, @loop_ok _ _ _ _ _ (fun s => Moving frameSize total s ∧ s.calls ≤ i)
    (fun _ => True) _ (fun s => i + 1 - s.calls) ?_ _
    ⟨⟨Nat.dvd_zero _, Nat.zero_add _⟩, Nat.zero_le _⟩ (fun _ _ => trivial) _
    (Nat.lt_succ_self _)⟩
  rintro s ⟨hs, hcalls⟩ _
  cases hanswer : answers s.calls with
  | error err => exact .inr ⟨(.error err, s), by rw [transferRound, hanswer], nofun⟩
  | found found =>
    obtain ⟨s', hround, hcalls', hmoving, -⟩ := transferRound_found hanswer hs
    have hlt : s.calls < i := by
      refine Nat.lt_of_le_of_ne hcalls fun heq => ?_
      rw [heq, herror] at hanswer
      exact Answer.noConfusion hanswer
    by_cases hzero : s'.userSize = 0#32
    · rw [if_neg (not_not.mpr hzero)] at hround
      exact .inr ⟨_, hround, fun _ => hmoving.all hsize hzero⟩
    · rw [if_pos hzero] at hround
      exact .inl ⟨s', hround, ⟨hmoving, by lia⟩, by lia⟩

/-- Where whole frames never make up the size, the test for nothing left never stops the loop. -/
theorem transfer_neverEnds (huneven : ¬ frameSize.toNat ∣ total.toNat)
    (hgood : ∀ i err, answers i ≠ .error err) (fuel : ℕ) :
    transfer frameSize answers fuel total = .error () := by
  refine @loop_late _ _ _ _ _ (Moving frameSize total) ?_ _ ⟨Nat.dvd_zero _, Nat.zero_add _⟩ fuel
  intro s hs
  cases hanswer : answers s.calls with
  | error err => exact absurd hanswer (hgood _ err)
  | found found =>
    obtain ⟨s', hround, -, hmoving, -⟩ := transferRound_found hanswer hs
    refine ⟨s', ?_, hmoving⟩
    have hne : s'.userSize ≠ 0#32 := by
      intro hzero
      have hsum := hmoving.sum
      rw [hzero, BitVec.toNat_zero, Nat.add_zero] at hsum
      rw [← hsum] at huneven
      exact huneven hmoving.frames
    rw [hround, if_pos hne]

end Rounds

/-! ## Reading -/

theorem AudioRecord.read_eq {mFrameSize userSize : U32} (hsize : userSize.slt 0#32 = false)
    (answers : ℕ → Answer) (fuel : ℕ) :
    AudioRecord.read mFrameSize answers fuel userSize =
      (transfer mFrameSize answers fuel userSize).map fun (exit, s) => s.outcome exit := by
  rw [AudioRecord.read, hsize]
  rfl

/-- The loop ends with all whole frames read or by an error. -/
theorem Ends.of_transfer {mFrameSize userSize : U32} {answers : ℕ → Answer}
    (hsize : userSize.slt 0#32 = false)
    (h : ∃ fuel r, transfer mFrameSize answers fuel userSize = .ok r ∧
      (r.1 = .finished →
        r.2.read.toNat = userSize.toNat / mFrameSize.toNat * mFrameSize.toNat)) :
    Ends mFrameSize (fun fuel => AudioRecord.read mFrameSize answers fuel userSize) userSize := by
  obtain ⟨fuel, ⟨exit, s⟩, htransfer, hmoved⟩ := h
  refine ⟨fuel, s.outcome exit, ?_, ?_⟩
  · dsimp only
    rw [AudioRecord.read_eq hsize, htransfer]
    rfl
  · cases exit with
    | finished => exact fun _ => hmoved rfl
    | badValue => exact nofun
    | error err => exact nofun

/-- Reading ends exactly when the size is in whole frames, or some call of `obtainBuffer` fails. -/
theorem AudioRecord.read_ends_iff (mFrameSize userSize : U32) (answers : ℕ → Answer)
    (hframe : 0 < mFrameSize.toNat) (hsize : userSize.slt 0#32 = false)
    (hobtains : Obtains answers) :
    Ends mFrameSize (fun fuel => AudioRecord.read mFrameSize answers fuel userSize) userSize ↔
      mFrameSize.toNat ∣ userSize.toNat ∨ ∃ i err, answers i = .error err := by
  constructor
  · rintro ⟨fuel, out, hread, -⟩
    by_contra hnot
    rw [not_or] at hnot
    have hgood (i : ℕ) (err : U32) (herror : answers i = .error err) : False :=
      hnot.2 ⟨i, err, herror⟩
    simp only [AudioRecord.read_eq hsize] at hread
    rw [transfer_neverEnds hnot.1 hgood fuel] at hread
    exact absurd hread nofun
  · rintro (hdvd | ⟨i, err, herror⟩)
    · exact .of_transfer hsize (transfer_ends hframe hobtains hdvd)
    · exact .of_transfer hsize (transfer_fails hframe herror)

/-- A call of `obtainBuffer` that finds `frames` frames before the end. -/
def Answer.frames (frames : U32) : Answer := .found ⟨frames, frames, fun _ => 0#8⟩

theorem obtains_frames {frames : U32} (hpos : 0 < frames.toNat) :
    Obtains fun _ => .frames frames := by
  rintro i found ⟨⟩ n
  simp only [Found.frameCount]
  split_ifs with hready
  · exact (Nat.min_le_left _ _).trans hpos
  · exact (Nat.min_le_left _ _).trans hpos
  · exact Nat.min_le_right _ _

/-- Two frames of four bytes, one at a time. -/
theorem AudioRecord.read_ends_twoFrames :
    Ends 4#32 (fun fuel => AudioRecord.read 4#32 (fun _ => .frames 1#32) fuel 8#32) 8#32 :=
  (AudioRecord.read_ends_iff 4#32 8#32 (fun _ => .frames 1#32) (by decide) rfl
    (obtains_frames (by decide))).mpr (.inl (by decide))

/-- Six bytes of frames of four: the two that are left are never read. -/
theorem AudioRecord.read_sixBytes_neverEnds :
    (∀ fuel, AudioRecord.read 4#32 (fun _ => .frames 1#32) fuel 6#32 = .error ()) ∧
      ¬ Ends 4#32 (fun fuel => AudioRecord.read 4#32 (fun _ => .frames 1#32) fuel 6#32) 6#32 := by
  have hnever (fuel : ℕ) : AudioRecord.read 4#32 (fun _ => .frames 1#32) fuel 6#32 = .error () := by
    rw [AudioRecord.read_eq rfl, transfer_neverEnds (by decide)
      (fun _ _ herror => Answer.noConfusion herror) fuel]
    rfl
  refine ⟨hnever, ?_⟩
  rintro ⟨fuel, out, hread, -⟩
  exact absurd ((hnever fuel).symm.trans hread) nofun

end AudioFlinger.Client
