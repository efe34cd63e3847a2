import AudioFlinger.Mixer.Model
import AudioFlinger.Nbaio.MonoPipeFifo
import AudioFlinger.Utils.Reduce

/-!
# When the next frame written to a `MonoPipe` is heard

`getNextWriteTimestamp` runs on the thread of the writer, load by load, while
the reader goes on. It adds the duration of the frames in the pipe to the time
of the next read.
-/

namespace AudioFlinger.Nbaio

open Foundation Counter Machine
open Mixer (kInvalidPTS)
open Utils

variable {α : Type*}

/-! ## The ratio of samples to local time -/

/-- `LinearTransform::reduce`, which finds the divisor with Euclid's method. -/
def reduce (N D : ℕ) : ℕ × ℕ :=
  if D = 0 then (N, D) else if N = 0 then (N, 1) else (N / N.gcd D, D / N.gcd D)

/-- The loop of `reduce` ends with these two. -/
theorem reduceT_eq_reduce (N : BitVec 64) {D : BitVec 64} (hD : D ≠ 0#64) {fuel : ℕ} (hfuel : 2 ^ 64 ≤ fuel) :
    LinearTransform.reduceT fuel N D =
      .ok (BitVec.ofNat 64 (reduce N.toNat D.toNat).1, BitVec.ofNat 64 (reduce N.toNat D.toNat).2) := by
  have hpos : ¬ D.toNat = 0 := fun h => hD (BitVec.eq_of_toNat_eq h)
  rw [LinearTransform.reduceT_eq N hD hfuel, LinearTransform.lowest, reduce, if_neg hpos]
  split
  next hN => rw [hN, Nat.gcd_zero_left, Nat.zero_div, Nat.div_self (Nat.pos_of_ne_zero hpos)]
  next => rfl

def kSignedHiBitsMask : BitVec 64 := ~~~0x7FFFFFFF#64

def kUnsignedHiBitsMask : BitVec 64 := ~~~0xFFFFFFFF#64

def noTransform : LinearTransform where
  a_zero := 0#64
  b_zero := 0#64
  a_to_b_numer := 0#32
  a_to_b_denom := 0#32

/-- What the constructor makes of the frequency of the local clock, if there is one. -/
def samplesToLocalTime (localFreq : Option (BitVec 64)) (sampleRate : U32) : LinearTransform :=
  match localFreq with
  | none => noTransform
  | some freq =>
    let N := BitVec.ofNat 64 (reduce freq.toNat sampleRate.toNat).1
    let D := BitVec.ofNat 64 (reduce freq.toNat sampleRate.toNat).2
    if N &&& kSignedHiBitsMask ≠ 0#64 ∨ D &&& kUnsignedHiBitsMask ≠ 0#64 then noTransform
    else { noTransform with a_to_b_numer := N.setWidth 32, a_to_b_denom := D.setWidth 32 }

/-- The duration of `n` frames in ticks of the local clock. -/
def duration (t : LinearTransform) (n : ℕ) : ℕ := n * t.a_to_b_numer.toNat / t.a_to_b_denom.toNat

/-- `offsetTimestampByAudioFrames`, which gives the ratio up for good when it overflows. -/
def offsetTimestampByAudioFrames (t : LinearTransform) (ts : Pts) (audFrames : U32) :
    Pts × LinearTransform :=
  if t.a_to_b_denom = 0#32 then (kInvalidPTS, t)
  else if ts = kInvalidPTS then (kInvalidPTS, t)
  else
    match t.doForwardTransform (audFrames.setWidth 64) with
    | none => (kInvalidPTS, { t with a_to_b_numer := 0#32, a_to_b_denom := 0#32 })
    | some frame_lt_duration => (ts + frame_lt_duration, t)

/-- A numerator that is not negative, between lines that start at zero. -/
structure Ratio (t : LinearTransform) : Prop where
  start : t.a_zero = 0#64 ∧ t.b_zero = 0#64
  numer : t.a_to_b_numer.toNat < 2 ^ 31

theorem ratio_noTransform : Ratio noTransform := ⟨⟨rfl, rfl⟩, by decide⟩

theorem toNat_lt_of_and_mask {N : BitVec 64} (h : N &&& kSignedHiBitsMask = 0#64) :
    N.toNat < 2 ^ 31 := by
  have hlow : N &&& 0x7FFFFFFF#64 = N := by
    have hsplit : (N &&& 0x7FFFFFFF#64) ||| (N &&& kSignedHiBitsMask) = N := by
      ext i hi
      simp only [kSignedHiBitsMask, BitVec.getElem_or, BitVec.getElem_and, BitVec.getElem_not]
      cases N[i] <;> cases (0x7FFFFFFF#64)[i] <;> rfl
    rwa [h, BitVec.or_zero] at hsplit
  have hle : N.toNat ≤ 0x7FFFFFFF := by
    rw [← hlow, BitVec.toNat_and]
    exact Nat.and_le_right
  omega

theorem ratio_samplesToLocalTime (localFreq : Option (BitVec 64)) (sampleRate : U32) :
    Ratio (samplesToLocalTime localFreq sampleRate) := by
  cases localFreq with
  | none => exact ratio_noTransform
  | some freq =>
    simp only [samplesToLocalTime]
    split_ifs with hwide
    · exact ratio_noTransform
    · push Not at hwide
      have hlt := toNat_lt_of_and_mask hwide.1
      refine ⟨⟨rfl, rfl⟩, ?_⟩
      dsimp only
      rw [BitVec.toNat_setWidth]
      exact Nat.lt_of_le_of_lt (Nat.mod_le _ _) hlt

theorem duration_zero (t : LinearTransform) : duration t 0 = 0 := by
  rw [duration, Nat.zero_mul, Nat.zero_div]

theorem Ratio.duration_lt {t : LinearTransform} (h : Ratio t) (audFrames : U32) :
    duration t audFrames.toNat < 2 ^ 63 := by
  have hframes := audFrames.isLt
  have hnumer := h.numer
  have hmul : audFrames.toNat * t.a_to_b_numer.toNat ≤ (2 ^ 32 - 1) * (2 ^ 31 - 1) :=
    Nat.mul_le_mul (by omega) (by omega)
  exact Nat.lt_of_le_of_lt (Nat.div_le_self _ _) (by omega)

/-- The number of frames of a call is too small to overflow. -/
theorem Ratio.offset_eq {t : LinearTransform} (h : Ratio t) {ts : Pts} (hdenom : t.a_to_b_denom ≠ 0#32)
    (hts : ts ≠ kInvalidPTS) (audFrames : U32) :
    offsetTimestampByAudioFrames t ts audFrames =
      (ts + BitVec.ofNat 64 (duration t audFrames.toNat), t) := by
  have hframes := audFrames.isLt
  have hnumer := h.numer
  have hint : t.a_to_b_numer.toInt = t.a_to_b_numer.toNat := by
    rw [BitVec.toInt_eq_toNat_cond, if_pos (by omega)]
  have hdur := h.duration_lt audFrames
  unfold duration at hdur
  have hforward := @doForwardTransform_eq t audFrames.toNat h.start (by omega) hdenom (by omega)
    (by omega)
  have hwide : audFrames.setWidth 64 = BitVec.ofNat 64 audFrames.toNat := by
    apply BitVec.eq_of_toNat_eq
    rw [BitVec.toNat_setWidth, BitVec.toNat_ofNat]
  rw [offsetTimestampByAudioFrames, if_neg hdenom, if_neg hts, hwide, hforward]
  rfl

theorem Ratio.offset_snd {t : LinearTransform} (h : Ratio t) (ts : Pts) (audFrames : U32) :
    (offsetTimestampByAudioFrames t ts audFrames).2 = t := by
  by_cases hdenom : t.a_to_b_denom = 0#32
  · rw [offsetTimestampByAudioFrames, if_pos hdenom]
  · by_cases hts : ts = kInvalidPTS
    · rw [offsetTimestampByAudioFrames, if_neg hdenom, if_pos hts]
    · rw [h.offset_eq hdenom hts]

/-! ## The call among the steps of the pipe -/

structure TimedPipe (α : Type*) where
  pipe : MonoPipe α
  mSamplesToLocalTime : LinearTransform
  /-- The next load of the `getNextWriteTimestamp` under way. -/
  query : Option Observer
  /-- How many updates of the reader are complete, and were when `seqOne` was loaded. -/
  completed : ℕ
  seqOneAt : ℕ

def TimedPipe.start (ratio : LinearTransform) (index : U32) (nextRdPTS : Pts) (mem : ℕ → α) :
    TimedPipe α where
  pipe := MonoPipe.start index nextRdPTS mem
  mSamplesToLocalTime := ratio
  query := none
  completed := 0
  seqOneAt := 0

/-- The end of `getNextWriteTimestamp`, with the pair that was observed. -/
def TimedPipe.nextWriteTimestamp (cfg : MonoPipeConfig) (s : TimedPipe α) (front : U32)
    (timestamp : Pts) : Pts × LinearTransform :=
  if timestamp = kInvalidPTS then (timestamp, s.mSamplesToLocalTime)
  else
    let pendingFrames := (s.pipe.mRear - front) &&& (cfg.mMaxFrames - 1#32)
    offsetTimestampByAudioFrames s.mSamplesToLocalTime timestamp pendingFrames

def TimedPipe.load (cfg : MonoPipeConfig) (s : TimedPipe α) (o : Observer) : TimedPipe α :=
  match s.pipe.shared.observe o with
  | .inl o' =>
    { s with
      query := some o'
      seqOneAt := if o = .loadSeqOne then s.completed else s.seqOneAt }
  | .inr (front, timestamp) =>
    { s with
      query := none
      mSamplesToLocalTime := (s.nextWriteTimestamp cfg front timestamp).2 }

/-- The step of the reader is the last store of an update. -/
def Reader.completes : Reader α → Bool
  | .update (.storeSeq _) _ _ => true
  | _ => false

inductive TimedPipeEvent (α : Type*)
  | write (data : List α)
  | writer
  | read (count : U32) (readPTS : Pts)
  | reader
  | shutdown (newState : Bool)
  | getNextWriteTimestamp
  | load

/-- The thread of the writer is busy while it asks for the time. -/
def timedPipeStep (cfg : MonoPipeConfig) (s : TimedPipe α) :
    TimedPipeEvent α → Option (TimedPipe α)
  | .write data =>
    if s.query = none then
      (monoPipeStep cfg s.pipe (.write data)).map fun pipe => { s with pipe := pipe }
    else none
  | .writer =>
    if s.query = none then
      (monoPipeStep cfg s.pipe .writer).map fun pipe => { s with pipe := pipe }
    else none
  | .read count readPTS =>
    let next := offsetTimestampByAudioFrames s.mSamplesToLocalTime readPTS count
    (monoPipeStep cfg s.pipe (.read count next.1)).map fun pipe =>
      { s with
        pipe := pipe
        mSamplesToLocalTime := next.2 }
  | .reader =>
    (monoPipeStep cfg s.pipe .reader).map fun pipe =>
      { s with
        pipe := pipe
        completed := if s.pipe.reader.completes then s.completed + 1 else s.completed }
  | .shutdown newState =>
    (monoPipeStep cfg s.pipe (.shutdown newState)).map fun pipe => { s with pipe := pipe }
  | .getNextWriteTimestamp =>
    match s.pipe.writer, s.query with
    | .idle, none =>
      if s.mSamplesToLocalTime.a_to_b_denom = 0#32 then some s
      else some { s with query := some .loadSeqOne }
    | _, _ => none
  | .load => s.query.map (s.load cfg)

/-! ## The pair observed -/

/-- The update that the reader is in. -/
def Reader.updater : Reader α → Option Updater
  | .update u _ _ => some u
  | _ => none

/-- The reader and the query are the two sides of a publication. -/
structure TimedPipe.Publishes (s : TimedPipe α) (p : Publication) : Prop where
  shared : p.shared = s.pipe.shared
  updater : p.updater = s.pipe.reader.updater
  observer : p.observer = s.query
  completed : p.completed = s.completed
  seqOneAt : p.seqOneAt = s.seqOneAt

section Publication

variable {cfg : MonoPipeConfig} {s : TimedPipe α} {pipe : MonoPipe α} {p : Publication}

theorem stepWriter_same {m m' : MonoPipe α} (hstep : m.stepWriter cfg = some m') :
    m'.shared = m.shared ∧ m'.reader = m.reader := by
  cases hw : m.writer with
  | idle => simp [MonoPipe.stepWriter, hw] at hstep
  | loadFront c =>
    simp only [MonoPipe.stepWriter, hw] at hstep
    split_ifs at hstep <;> cases hstep <;> exact ⟨rfl, rfl⟩
  | next c written =>
    simp only [MonoPipe.stepWriter, hw] at hstep
    split_ifs at hstep <;> cases hstep <;> exact ⟨rfl, rfl⟩
  | part1 c written | part2 c written | storeRear c written =>
    simp only [MonoPipe.stepWriter, hw] at hstep
    cases hstep
    exact ⟨rfl, rfl⟩

/-- What the writer's side does is not published. -/
theorem TimedPipe.Publishes.of_same (h : s.Publishes p) (hshared : pipe.shared = s.pipe.shared)
    (hreader : pipe.reader.updater = s.pipe.reader.updater) (ratio : LinearTransform) :
    TimedPipe.Publishes { s with pipe := pipe, mSamplesToLocalTime := ratio } p where
  shared := h.shared.trans hshared.symm
  updater := h.updater.trans hreader.symm
  observer := h.observer
  completed := h.completed
  seqOneAt := h.seqOneAt

/-- A step of the reader is a step of the updater or not published. -/
theorem TimedPipe.Publishes.reader (h : s.Publishes p) (hp : Consistent 0 p)
    (hstep : s.pipe.stepReader cfg = some pipe) :
    ∃ p', Consistent 0 p' ∧ TimedPipe.Publishes
      { s with
        pipe := pipe
        completed := if s.pipe.reader.completes then s.completed + 1 else s.completed } p' := by
  have hupdater := h.updater
  cases hr : s.pipe.reader with
  | idle => simp [MonoPipe.stepReader, hr] at hstep
  | loadRear c =>
    rw [hr] at hupdater
    refine ⟨p, hp, ?_⟩
    simp only [MonoPipe.stepReader, hr] at hstep
    split_ifs at hstep <;> cases hstep <;>
      exact ⟨h.shared, hupdater, h.observer, h.completed, h.seqOneAt⟩
  | part1 c red =>
    rw [hr] at hupdater
    refine ⟨p, hp, ?_⟩
    simp only [MonoPipe.stepReader, hr] at hstep
    cases hstep
    refine ⟨h.shared, hupdater.trans ?_, h.observer, h.completed, h.seqOneAt⟩
    dsimp only
    split_ifs <;> rfl
  | part2 c red out =>
    rw [hr] at hupdater
    refine ⟨p, hp, ?_⟩
    simp only [MonoPipe.stepReader, hr] at hstep
    cases hstep
    exact ⟨h.shared, hupdater, h.observer, h.completed, h.seqOneAt⟩
  | beginUpdate c newFront red out =>
    rw [hr] at hupdater
    refine ⟨_, hp.beginUpdate hupdater newFront c.nextReadPTS, ?_⟩
    simp only [MonoPipe.stepReader, hr] at hstep
    cases hstep
    exact ⟨by rw [h.shared], by rw [h.shared]; rfl, h.observer, h.completed, h.seqOneAt⟩
  | update u red out =>
    rw [hr] at hupdater
    refine ⟨_, hp.store hupdater, ?_⟩
    simp only [MonoPipe.stepReader, hr] at hstep
    have hsame : ∀ u', (p.shared.update u').1 = (s.pipe.shared.update u').1 := by
      intro u'
      rw [h.shared]
    cases u with
    | storeFront newFront pts tmp =>
      cases hstep
      exact ⟨hsame (.storeFront newFront pts tmp), rfl, h.observer, h.completed, h.seqOneAt⟩
    | storeNextRdPTS pts tmp =>
      cases hstep
      exact ⟨hsame (.storeNextRdPTS pts tmp), rfl, h.observer, h.completed, h.seqOneAt⟩
    | storeSeq tmp =>
      cases hstep
      exact ⟨hsame (.storeSeq tmp), rfl, h.observer, congrArg Nat.succ h.completed, h.seqOneAt⟩

theorem TimedPipe.Publishes.load (h : s.Publishes p) (hp : Consistent 0 p) {o : Observer}
    (ho : s.query = some o) : ∃ p', Consistent 0 p' ∧ (s.load cfg o).Publishes p' := by
  refine ⟨_, hp.load (h.observer.trans ho), ?_⟩
  unfold Publication.load TimedPipe.load
  rw [h.shared]
  cases s.pipe.shared.observe o with
  | inl o' =>
    refine ⟨rfl, h.updater, rfl, h.completed, ?_⟩
    dsimp only
    rw [h.completed, h.seqOneAt]
  | inr pair => exact ⟨rfl, h.updater, rfl, h.completed, h.seqOneAt⟩

/-- The pair that ends an observation is the one that is published then. -/
theorem TimedPipe.Publishes.observed (h : s.Publishes p) (hp : Consistent 0 p) {o : Observer}
    (ho : s.query = some o) {front : U32} {timestamp : Pts}
    (hdone : s.pipe.shared.observe o = .inr (front, timestamp))
    (hperiod : s.completed - s.seqOneAt < 2 ^ 31) :
    front = s.pipe.shared.mFront ∧ timestamp = s.pipe.shared.mNextRdPTS := by
  have hloaded := hp.observer o (h.observer.trans ho)
  cases o with
  | loadSeqOne | loadFront | loadNextRdPTS => simp [FrontAndNRPTS.observe] at hdone
  | loadSeqTwo seqOne outFront outNextRdPTS =>
    simp only [FrontAndNRPTS.observe] at hdone
    split_ifs at hdone with hretry
    cases hdone
    push Not at hretry
    have hquiet := hp.quiet hloaded.1 (by rw [h.shared]; exact hretry.1) hretry.2
      (by rw [h.completed, h.seqOneAt]; exact hperiod)
    have hpair := (hp.current hquiet).symm.trans (hloaded.2 hquiet)
    rw [h.shared] at hpair
    cases hpair
    exact ⟨rfl, rfl⟩

end Publication

/-! ## Every run -/

/-- The pipe is a FIFO, the pair is published, and a query runs only with a usable ratio. -/
structure TimedPipe.Inv (cfg : MonoPipeConfig) (b : ℕ) (ratio : LinearTransform) (s : TimedPipe α) :
    Prop where
  fifo : ∃ q, s.pipe.Refines cfg b q
  published : ∃ p, Consistent 0 p ∧ s.Publishes p
  same : s.mSamplesToLocalTime = ratio
  usable : s.query ≠ none → ratio.a_to_b_denom ≠ 0#32

section Run

variable {cfg : MonoPipeConfig} {b : ℕ} {ratio : LinearTransform} {s s' : TimedPipe α}

theorem TimedPipe.inv_start (cfg : MonoPipeConfig) (ratio : LinearTransform) (index : U32)
    (nextRdPTS : Pts) (mem : ℕ → α) :
    (TimedPipe.start ratio index nextRdPTS mem).Inv cfg index.toNat ratio where
  fifo := ⟨_, refines_start cfg index nextRdPTS mem⟩
  published := ⟨_, consistent_start ⟨0#32, index, nextRdPTS⟩ (Nat.two_pow_pos 31), rfl, rfl, rfl, rfl, rfl⟩
  same := rfl
  usable := fun h => absurd rfl h

/-- A step of the pipe that is not published. -/
theorem TimedPipe.Inv.of_same (h : s.Inv cfg b ratio) {pipe : MonoPipe α} {e : MonoPipeEvent α}
    (hstep : monoPipeStep cfg s.pipe e = some pipe) (hshared : pipe.shared = s.pipe.shared)
    (hreader : pipe.reader.updater = s.pipe.reader.updater) :
    TimedPipe.Inv cfg b ratio { s with pipe := pipe } := by
  obtain ⟨p, hp, hpub⟩ := h.published
  exact
    { fifo := refines_monoPipeStep s.pipe e pipe hstep h.fifo
      published := ⟨p, hp, hpub.of_same hshared hreader s.mSamplesToLocalTime⟩
      same := h.same
      usable := h.usable }

theorem TimedPipe.Inv.load (h : s.Inv cfg b ratio) (hratio : Ratio ratio) {o : Observer}
    (ho : s.query = some o) : (s.load cfg o).Inv cfg b ratio := by
  obtain ⟨p, hp, hpub⟩ := h.published
  have husable := h.usable (by rw [ho]; exact nofun)
  have hpublished : ∃ p', Consistent 0 p' ∧ (s.load cfg o).Publishes p' := hpub.load hp ho
  unfold TimedPipe.load at hpublished ⊢
  split
  · next o' hobserve =>
    rw [hobserve] at hpublished
    exact ⟨h.fifo, hpublished, h.same, fun _ => husable⟩
  · next front timestamp hobserve =>
    rw [hobserve] at hpublished
    refine ⟨h.fifo, hpublished, ?_, fun _ => husable⟩
    simp only [TimedPipe.nextWriteTimestamp, h.same]
    split_ifs
    · rfl
    · exact hratio.offset_snd _ _

theorem TimedPipe.inv_step (hratio : Ratio ratio) (s : TimedPipe α) (e : TimedPipeEvent α)
    (s' : TimedPipe α) (hstep : timedPipeStep cfg s e = some s') (h : s.Inv cfg b ratio) :
    s'.Inv cfg b ratio := by
  cases e with
  | write data =>
    simp only [timedPipeStep, Option.ite_none_right_eq_some, Option.map_eq_some_iff] at hstep
    obtain ⟨-, pipe, hpipe, rfl⟩ := hstep
    refine h.of_same hpipe ?_ ?_
    all_goals
      simp only [monoPipeStep] at hpipe
      split at hpipe
      · split_ifs at hpipe
        cases hpipe
        unfold MonoPipe.write
        split_ifs <;> rfl
      · cases hpipe
  | writer =>
    simp only [timedPipeStep, Option.ite_none_right_eq_some, Option.map_eq_some_iff] at hstep
    obtain ⟨-, pipe, hpipe, rfl⟩ := hstep
    obtain ⟨hshared, hreader⟩ := stepWriter_same hpipe
    exact h.of_same hpipe hshared (congrArg Reader.updater hreader)
  | read count readPTS =>
    simp only [timedPipeStep, Option.map_eq_some_iff] at hstep
    obtain ⟨pipe, hpipe, rfl⟩ := hstep
    have hsame : (offsetTimestampByAudioFrames s.mSamplesToLocalTime readPTS count).2 =
        s.mSamplesToLocalTime := by
      rw [h.same]
      exact hratio.offset_snd readPTS count
    rw [hsame]
    refine h.of_same hpipe ?_ ?_
    all_goals
      simp only [monoPipeStep] at hpipe
      split at hpipe
      · next hidle =>
        cases hpipe
        simp [hidle, Reader.updater]
      · cases hpipe
  | reader =>
    simp only [timedPipeStep, Option.map_eq_some_iff] at hstep
    obtain ⟨pipe, hpipe, rfl⟩ := hstep
    obtain ⟨p, hp, hpub⟩ := h.published
    exact ⟨refines_monoPipeStep s.pipe .reader pipe hpipe h.fifo, hpub.reader hp hpipe, h.same,
      h.usable⟩
  | shutdown newState =>
    simp only [timedPipeStep, Option.map_eq_some_iff] at hstep
    obtain ⟨pipe, hpipe, rfl⟩ := hstep
    refine h.of_same hpipe ?_ ?_ <;> cases hpipe <;> rfl
  | getNextWriteTimestamp =>
    simp only [timedPipeStep] at hstep
    split at hstep
    · next hidle hquery =>
      split_ifs at hstep with hdenom
      · cases hstep
        exact h
      · cases hstep
        obtain ⟨p, hp, hpub⟩ := h.published
        have hobserve : publicationStep p .observe =
            some { p with observer := some .loadSeqOne } :=
          if_pos (hpub.observer.trans hquery)
        have hp' := consistent_step 0 p .observe _ hobserve hp
        exact
          { fifo := h.fifo
            published := ⟨_, hp', hpub.shared, hpub.updater, rfl, hpub.completed, hpub.seqOneAt⟩
            same := h.same
            usable := fun _ => h.same ▸ hdenom }
    · cases hstep
  | load =>
    simp only [timedPipeStep, Option.map_eq_some_iff] at hstep
    obtain ⟨o, ho, rfl⟩ := hstep
    exact h.load hratio ho

/-- The frames in the pipe and their remainder by its size. -/
theorem TimedPipe.Inv.pending (h : s.Inv cfg b ratio) :
    (s.pipe.mRear - s.pipe.shared.mFront).toNat ≤ cfg.mMaxFrames.toNat ∧
      ((s.pipe.mRear - s.pipe.shared.mFront) &&& (cfg.mMaxFrames - 1#32)).toNat =
        (s.pipe.mRear - s.pipe.shared.mFront).toNat % cfg.mMaxFrames.toNat := by
  obtain ⟨q, hq⟩ := h.fifo
  have hgot := q.got_length_le
  have hsize := q.size_le
  have hbounds := cfg.mMaxFrames_bounds
  unfold RingFifo.size at hsize
  have hcount := hq.rear.toNat_sub hq.front (by omega) (by omega)
  have hslot := cfg.toNat_slot (counts_toNat (s.pipe.mRear - s.pipe.shared.mFront))
  exact ⟨by omega, hslot⟩

end Run

/-- In every run, when `getNextWriteTimestamp` returns and less than a period of the sequence number
has passed since `seqOne` was loaded, it adds the duration of the frames in the pipe to the time of
the next read exactly when the pipe is not full, or when a full pipe takes no time. -/
theorem getNextWriteTimestamp_exact (cfg : MonoPipeConfig) (localFreq : Option (BitVec 64))
    (sampleRate index : U32) (nextRdPTS : Pts) (mem : ℕ → α) (es : List (TimedPipeEvent α))
    (s : TimedPipe α)
    (hrun : run (timedPipeStep cfg)
      (.start (samplesToLocalTime localFreq sampleRate) index nextRdPTS mem) es = some s)
    (o : Observer) (ho : s.query = some o) (front : U32) (timestamp : Pts)
    (hdone : s.pipe.shared.observe o = .inr (front, timestamp))
    (hperiod : s.completed - s.seqOneAt < 2 ^ 31)
    (hvalid : s.pipe.shared.mNextRdPTS ≠ kInvalidPTS) :
    (s.nextWriteTimestamp cfg front timestamp).1 =
        s.pipe.shared.mNextRdPTS +
          BitVec.ofNat 64 (duration s.mSamplesToLocalTime (s.pipe.mRear - s.pipe.shared.mFront).toNat) ↔
      s.pipe.mRear - s.pipe.shared.mFront ≠ cfg.mMaxFrames ∨
        duration s.mSamplesToLocalTime cfg.mMaxFrames.toNat = 0 := by
  have hratio := ratio_samplesToLocalTime localFreq sampleRate
  have h : s.Inv cfg index.toNat (samplesToLocalTime localFreq sampleRate) :=
    run_invariant (TimedPipe.inv_step hratio) hrun
      (TimedPipe.inv_start cfg _ index nextRdPTS mem)
  obtain ⟨p, hp, hpub⟩ := h.published
  obtain ⟨rfl, rfl⟩ := hpub.observed hp ho hdone hperiod
  have husable := h.usable (by rw [ho]; exact nofun)
  have hpending := h.pending
  rw [TimedPipe.nextWriteTimestamp, if_neg hvalid, h.same]
  rw [hratio.offset_eq husable hvalid, hpending.2]
  have hbounds := cfg.mMaxFrames_bounds
  generalize s.pipe.mRear - s.pipe.shared.mFront = pendingFrames at hpending ⊢
  rcases Nat.lt_or_eq_of_le hpending.1 with hlt | hfull
  · have hne : pendingFrames ≠ cfg.mMaxFrames := fun heq => hlt.ne (congrArg BitVec.toNat heq)
    rw [Nat.mod_eq_of_lt hlt]
    exact iff_of_true rfl (Or.inl hne)
  · have heq : pendingFrames = cfg.mMaxFrames := BitVec.eq_of_toNat_eq hfull
    rw [heq, Nat.mod_self, duration_zero]
    constructor
    · intro hsame
      right
      have hdur := hratio.duration_lt cfg.mMaxFrames
      have hzero := congrArg BitVec.toNat ((BitVec.add_right_inj _).mp hsame)
      rw [BitVec.toNat_ofNat, BitVec.toNat_ofNat, Nat.zero_mod,
        Nat.mod_eq_of_lt (hdur.trans (by norm_num))] at hzero
      exact hzero.symm
    · rintro (hne | hzero)
      · exact absurd rfl hne
      · rw [hzero]

/-- A write, and a query up to its last load. -/
def askedAfter (data : List ℕ) : List (TimedPipeEvent ℕ) :=
  [.write data, .writer, .writer, .writer, .writer, .writer, .getNextWriteTimestamp, .load, .load,
    .load]

def clocked : TimedPipe ℕ :=
  TimedPipe.start (samplesToLocalTime (some 1000000#64) 1000#32) 0xFFFFFFFE#32 7#64 fun _ => 0

/-- What the end of the query depends on. -/
def TimedPipe.view (s : TimedPipe α) :
    Option Observer × FrontAndNRPTS × U32 × LinearTransform × ℕ :=
  (s.query, s.pipe.shared, s.pipe.mRear, s.mSamplesToLocalTime, s.completed)

/-- Three frames across the wrap of the indices, of a thousand ticks each. -/
theorem getNextWriteTimestamp_exact_three : ∃ s,
    run (timedPipeStep smallPipe) clocked (askedAfter [1, 2, 3]) = some s ∧
      (s.nextWriteTimestamp smallPipe 0xFFFFFFFE#32 7#64).1 = 7#64 + 3000#64 := by
  obtain ⟨s, hs⟩ : ∃ s, run (timedPipeStep smallPipe) clocked (askedAfter [1, 2, 3]) = some s :=
    ⟨_, rfl⟩
  have hview : (run (timedPipeStep smallPipe) clocked (askedAfter [1, 2, 3])).map TimedPipe.view =
      some (some (.loadSeqTwo 0#32 0xFFFFFFFE#32 7#64), ⟨0#32, 0xFFFFFFFE#32, 7#64⟩, 1#32,
        samplesToLocalTime (some 1000000#64) 1000#32, 0) := by rfl
  rw [hs, Option.map_some, Option.some_inj] at hview
  simp only [TimedPipe.view, Prod.mk.injEq] at hview
  obtain ⟨hquery, hshared, hrear, hratio, hcompleted⟩ := hview
  have hexact := getNextWriteTimestamp_exact smallPipe (some 1000000#64) 1000#32 0xFFFFFFFE#32 7#64
    (fun _ => 0) (askedAfter [1, 2, 3]) s hs _ hquery 0xFFFFFFFE#32 7#64 (by rw [hshared]; rfl)
    (by rw [hcompleted]; lia) (by rw [hshared]; decide)
  rw [hshared, hrear, hratio] at hexact
  exact ⟨s, hs, (hexact.mpr (Or.inl (by decide))).trans (by decide)⟩

/-- Four frames fill the pipe, and none of them counts. -/
theorem getNextWriteTimestamp_full : ∃ s,
    run (timedPipeStep smallPipe) clocked (askedAfter [1, 2, 3, 4]) = some s ∧
      s.query = some (.loadSeqTwo 0#32 0xFFFFFFFE#32 7#64) ∧
      s.pipe.shared = ⟨0#32, 0xFFFFFFFE#32, 7#64⟩ ∧
      (s.pipe.mRear - s.pipe.shared.mFront).toNat = 4 ∧
      s.nextWriteTimestamp smallPipe 0xFFFFFFFE#32 7#64 = (7#64, s.mSamplesToLocalTime) ∧
      7#64 ≠ s.pipe.shared.mNextRdPTS + BitVec.ofNat 64 (duration s.mSamplesToLocalTime 4) := by
  obtain ⟨s, hs⟩ : ∃ s, run (timedPipeStep smallPipe) clocked (askedAfter [1, 2, 3, 4]) = some s :=
    ⟨_, rfl⟩
  have hview : (run (timedPipeStep smallPipe) clocked (askedAfter [1, 2, 3, 4])).map TimedPipe.view =
      some (some (.loadSeqTwo 0#32 0xFFFFFFFE#32 7#64), ⟨0#32, 0xFFFFFFFE#32, 7#64⟩, 2#32,
        samplesToLocalTime (some 1000000#64) 1000#32, 0) := by rfl
  rw [hs, Option.map_some, Option.some_inj] at hview
  simp only [TimedPipe.view, Prod.mk.injEq] at hview
  obtain ⟨hquery, hshared, hrear, hratio, -⟩ := hview
  refine ⟨s, hs, hquery, hshared, ?_, ?_, ?_⟩
  · rw [hshared, hrear]
    rfl
  · rw [TimedPipe.nextWriteTimestamp, hratio, hrear]
    rfl
  · rw [hshared, hratio]
    decide

end AudioFlinger.Nbaio
