import AudioFlinger.Mixer.Groups
import AudioFlinger.Mixer.PathAgreement

/-!
# The general path mixes exactly

Each sample written is the sum of the products of the tracks of its main
buffer, clamped, as long as the running sums fit in the 32 bits of the
accumulator. Sixteen tracks always fit; thirty-two at full scale do not.
-/

namespace AudioFlinger.Mixer

open Foundation RingMemory Counter Accumulator

/-! ## All groups -/

section Groups

variable {s₀ : State} {pts : I64}

theorem trackList_groupOf {s : State} {e : U32}
    (hkeeps : ∀ i ∈ trackList e, (s₀.tracks i).Keeps (s.tracks i)) (hne : e ≠ 0#32) :
    trackList (groupOf s e) = (trackList e).filter fun i =>
      (s₀.tracks i).mainBuffer = (s₀.tracks (topTrack e)).mainBuffer := by
  have htop := mem_trackList.mpr (topTrack_mem hne)
  have hsub (i : Fin MAX_NUM_TRACKS) (hi : (groupOf s e).getLsbD i = true) :
      e.getLsbD i = true := by
    rw [getLsbD_groupOf, Bool.and_eq_true] at hi
    exact hi.1
  rw [← trackList_filter hsub]
  apply List.filter_congr
  intro i hi
  rw [getLsbD_groupOf, mem_trackList.mp hi, Bool.true_and, (hkeeps i hi).mainBuffer,
    (hkeeps _ htop).mainBuffer]

/-- Every main buffer gets the words of its tracks, and nothing else is written but sends. -/
theorem mixGroups_spec (fuel n : ℕ) (s : State) (enabledTracks e0 : U32)
    (hn : (trackList e0).length ≤ n) (htuned : s₀.Tuned s)
    (hconstant : ∀ i ∈ trackList e0, (s₀.tracks i).Constant)
    (hapart : ∀ i ∈ trackList e0, ∀ j ∈ trackList e0,
      (s₀.tracks i).Apart (s₀.tracks j).mainBuffer)
    (h : ∀ i ∈ trackList e0, Playing s₀ pts 0 i (s.tracks i) true)
    (hdvd : BLOCKSIZE ∣ s₀.frameCount.toNat) (hroom : BLOCKSIZE ≤ s₀.frameCount.toNat)
    (hfuel : s₀.frameCount.toNat + BLOCKSIZE + 1 < fuel) :
    ∃ s' enabledTracks', mixGroups pts fuel n s enabledTracks e0 = some (s', enabledTracks') ∧
      (∀ i ∈ trackList e0, s'.mem (s₀.tracks i).mainBuffer =
        blit (s.mem (s₀.tracks i).mainBuffer) 0
          (mixedWords (((trackList e0).filter fun j =>
            (s₀.tracks j).mainBuffer = (s₀.tracks i).mainBuffer).map (s₀.part pts)) 0
              s₀.frameCount.toNat)) ∧
      ∀ buffer, (∀ i ∈ trackList e0, (s₀.tracks i).mainBuffer ≠ buffer ∧
        (s₀.tracks i).Apart buffer) → s'.mem buffer = s.mem buffer := by
  induction n generalizing s enabledTracks e0 with
  | zero =>
    have hnone : trackList e0 = [] := List.length_eq_zero_iff.mp (Nat.le_zero.mp hn)
    rw [hnone]
    exact ⟨s, enabledTracks, rfl, fun _ hi => absurd hi List.not_mem_nil, fun _ _ => rfl⟩
  | succ n ih =>
    by_cases hzero : e0 = 0#32
    · subst hzero
      rw [trackList_zero, mixGroups, if_pos rfl]
      exact ⟨s, enabledTracks, rfl, fun _ hi => absurd hi List.not_mem_nil, fun _ _ => rfl⟩
    · have htop := mem_trackList.mpr (topTrack_mem hzero)
      generalize hmain : (s₀.tracks (topTrack e0)).mainBuffer = mainBuffer
      have hgroup := trackList_groupOf (fun i hi => (h i hi).keeps) hzero
      rw [hmain] at hgroup
      -- the tracks of the other groups
      have hrest : trackList (e0 &&& ~~~groupOf s e0) =
          (trackList e0).filter fun i => (s₀.tracks i).mainBuffer ≠ mainBuffer := by
        have hsub (i : Fin MAX_NUM_TRACKS) (hi : (e0 &&& ~~~groupOf s e0).getLsbD i = true) :
            e0.getLsbD i = true := by
          rw [BitVec.getLsbD_and, Bool.and_eq_true] at hi
          exact hi.1
        rw [← trackList_filter hsub]
        apply List.filter_congr
        intro i hi
        have hmem : (groupOf s e0).getLsbD i = decide ((s₀.tracks i).mainBuffer = mainBuffer) := by
          rw [getLsbD_groupOf, mem_trackList.mp hi, Bool.true_and, (h i hi).keeps.mainBuffer,
            (h _ htop).keeps.mainBuffer, hmain]
        have hlt : i.val < 32 := i.isLt
        rw [BitVec.getLsbD_and, BitVec.getLsbD_not, mem_trackList.mp hi, hmem,
          decide_eq_true hlt, Bool.true_and, Bool.true_and, decide_not]
      have hingroup (i : Fin MAX_NUM_TRACKS) : i ∈ trackList (groupOf s e0) ↔
          i ∈ trackList e0 ∧ (s₀.tracks i).mainBuffer = mainBuffer := by
        rw [hgroup, List.mem_filter, decide_eq_true_iff]
      have hinrest (i : Fin MAX_NUM_TRACKS) : i ∈ trackList (e0 &&& ~~~groupOf s e0) ↔
          i ∈ trackList e0 ∧ (s₀.tracks i).mainBuffer ≠ mainBuffer := by
        rw [hrest, List.mem_filter, decide_eq_true_iff]
      obtain ⟨s₁, enabledTracks₁, hrun₁, htuned₁, houtside, hmem, hothers⟩ :=
        mixBlocks_group
          (fun i hi => hconstant i ((hingroup i).mp hi).1)
          (fun i hi => hmain ▸ hapart i ((hingroup i).mp hi).1 _ htop) fuel s enabledTracks
          (groupOf s e0) 0#32 htuned (fun _ hi => hi)
          (fun i hi => by rw [mem_trackList.mp hi]; exact h i ((hingroup i).mp hi).1)
          (by rwa [BitVec.toNat_zero, Nat.sub_zero]) (by rwa [BitVec.toNat_zero, Nat.zero_add])
          (by rwa [BitVec.toNat_zero, Nat.sub_zero])
      rw [BitVec.toNat_zero, Nat.sub_zero, hgroup] at hmem
      have hshort : (trackList (e0 &&& ~~~groupOf s e0)).length ≤ n := by
        have hlt : ((trackList e0).filter fun i =>
            (s₀.tracks i).mainBuffer ≠ mainBuffer).length < (trackList e0).length := by
          apply List.length_filter_lt_length_iff_exists.mpr
          exact ⟨topTrack e0, htop, by simp [hmain]⟩
        rw [hrest]
        lia
      obtain ⟨s', enabledTracks', hrun', hmem', hothers'⟩ := ih s₁ enabledTracks₁
        (e0 &&& ~~~groupOf s e0) hshort htuned₁ (fun i hi => hconstant i ((hinrest i).mp hi).1)
        (fun i hi j hj => hapart i ((hinrest i).mp hi).1 j ((hinrest j).mp hj).1)
        (fun i hi => by
          obtain ⟨hi, hne⟩ := (hinrest i).mp hi
          rw [houtside i fun hg => hne ((hingroup i).mp hg).2]
          exact h i hi)
      refine ⟨s', enabledTracks', ?_, fun i hi => ?_, fun buffer hbuffer => ?_⟩
      · rw [mixGroups, if_neg hzero]
        dsimp only
        rw [(h _ htop).keeps.mainBuffer, hmain, hrun₁]
        exact hrun'
      · by_cases hfirst : (s₀.tracks i).mainBuffer = mainBuffer
        · rw [hfirst, hothers' mainBuffer, hmem]
          intro j hj
          obtain ⟨hj, hne⟩ := (hinrest j).mp hj
          exact ⟨hne, hmain ▸ hapart j hj _ htop⟩
        · have hsame : (trackList (e0 &&& ~~~groupOf s e0)).filter (fun j =>
              (s₀.tracks j).mainBuffer = (s₀.tracks i).mainBuffer) =
              (trackList e0).filter fun j =>
                (s₀.tracks j).mainBuffer = (s₀.tracks i).mainBuffer := by
            rw [hrest, List.filter_filter]
            apply List.filter_congr
            intro j _
            by_cases hji : (s₀.tracks j).mainBuffer = (s₀.tracks i).mainBuffer
            · simp [hji, hfirst]
            · simp [hji]
          rw [hmem' i ((hinrest i).mpr ⟨hi, hfirst⟩), hsame,
            hothers _ hfirst fun j hj => hapart j ((hingroup j).mp hj).1 i hi]
      · rw [hothers' buffer fun i hi => hbuffer i ((hinrest i).mp hi).1]
        exact hothers buffer (fun hb => (hbuffer _ htop).1 (hmain.trans hb.symm))
          fun i hi => (hbuffer i ((hingroup i).mp hi).1).2

end Groups

/-! ## The first buffers -/

section Acquire

variable {s₀ : State} {pts : I64}

/-- What getting the first buffers of the tracks `l` leaves. -/
structure Acquired (s₀ : State) (pts : I64) (l : List (Fin MAX_NUM_TRACKS)) (acc acc' : State × U32) :
    Prop where
  tuned : s₀.Tuned acc'.1
  mem : acc'.1.mem = acc.1.mem
  others : ∀ j ∉ l, acc'.1.tracks j = acc.1.tracks j ∧ acc'.2.getLsbD j = acc.2.getLsbD j
  bit : ∀ i ∈ l, acc'.2.getLsbD i = (acc.2.getLsbD i && decide (s₀.chunks pts i ≠ []))
  playing : ∀ i ∈ l, s₀.chunks pts i ≠ [] → Playing s₀ pts 0 i (acc'.1.tracks i) true

theorem acquire_acquired {acc : State × U32} {i : Fin MAX_NUM_TRACKS} (htuned : s₀.Tuned acc.1)
    (htrack : acc.1.tracks i = s₀.tracks i) (hconstant : (s₀.tracks i).Constant)
    (hsmall : ∀ c ∈ s₀.chunks pts i, c.length < 2 ^ 16) :
    Acquired s₀ pts [i] acc (acquire pts acc i) := by
  obtain ⟨s, e⟩ := acc
  generalize hget : (s.tracks i).getNextBuffer s.frameCount pts = r
  obtain ⟨answer, t⟩ := r
  have hacquire : acquire pts (s, e) i =
      (s.setTrack i t.refill, if answer.isNone then e &&& ~~~bit i else e) := by
    unfold acquire
    dsimp only
    rw [hget]
    rfl
  dsimp only at htuned htrack
  rw [htrack, htuned.1, ← request_zero s₀ pts (s₀.tracks i),
    ← outputPTS_zero s₀ pts (s₀.tracks i)] at hget
  obtain ⟨hnone, hsome⟩ := (s₀.delivers_chunks pts i).first rfl rfl hconstant.volumeInc hsmall hget
  rw [hacquire]
  exact
    { tuned := htuned
      mem := rfl
      others := by
        intro j hj
        rw [List.mem_singleton] at hj
        refine ⟨Function.update_of_ne hj _ _, ?_⟩
        dsimp only
        split_ifs
        · rw [getLsbD_clear, decide_eq_true hj, Bool.and_true]
        · rfl
      bit := by
        intro j hj
        rw [List.mem_singleton] at hj
        subst hj
        dsimp only
        by_cases hempty : s₀.chunks pts j = []
        · rw [(hnone hempty).1, Option.isNone_none, if_pos rfl, getLsbD_clear]
          simp [hempty]
        · rw [(hsome hempty).1, if_neg Bool.false_ne_true, decide_eq_true hempty, Bool.and_true]
      playing := by
        intro j hj hne
        rw [List.mem_singleton] at hj
        subst hj
        obtain ⟨-, hkeeps, howes⟩ := hsome hne
        rw [State.setTrack_tracks]
        exact ⟨hkeeps, fun _ => howes, nofun⟩ }

theorem foldl_acquire {l : List (Fin MAX_NUM_TRACKS)} (hnodup : l.Nodup) (acc : State × U32)
    (htuned : s₀.Tuned acc.1) (htracks : ∀ i ∈ l, acc.1.tracks i = s₀.tracks i)
    (hconstant : ∀ i ∈ l, (s₀.tracks i).Constant)
    (hsmall : ∀ i ∈ l, ∀ c ∈ s₀.chunks pts i, c.length < 2 ^ 16) :
    Acquired s₀ pts l acc (l.foldl (acquire pts) acc) := by
  induction l generalizing acc with
  | nil =>
    exact ⟨htuned, rfl, fun _ _ => ⟨rfl, rfl⟩, fun _ hi => absurd hi List.not_mem_nil,
      fun _ hi => absurd hi List.not_mem_nil⟩
  | cons i l ih =>
    obtain ⟨hi, hrest⟩ := List.nodup_cons.mp hnodup
    have h₁ := acquire_acquired htuned (htracks i List.mem_cons_self)
      (hconstant i List.mem_cons_self) (hsmall i List.mem_cons_self)
    have hothers (j : Fin MAX_NUM_TRACKS) (hj : j ∈ l) := h₁.others j fun hmem =>
      hi (List.mem_singleton.mp hmem ▸ hj)
    have h₂ := ih hrest (acquire pts acc i) h₁.tuned
      (fun j hj => (hothers j hj).1.trans (htracks j (List.mem_cons_of_mem _ hj)))
      (fun j hj => hconstant j (List.mem_cons_of_mem _ hj))
      (fun j hj => hsmall j (List.mem_cons_of_mem _ hj))
    rw [List.foldl_cons]
    refine ⟨h₂.tuned, h₂.mem.trans h₁.mem, fun j hj => ?_, fun j hj => ?_, fun j hj hne => ?_⟩
    · obtain ⟨hji, hjl⟩ := not_or.mp (mt List.mem_cons.mpr hj)
      obtain ⟨htrack, hbit⟩ := h₁.others j (mt List.mem_singleton.mp hji)
      obtain ⟨htrack', hbit'⟩ := h₂.others j hjl
      exact ⟨htrack'.trans htrack, hbit'.trans hbit⟩
    · by_cases hjl : j ∈ l
      · rw [h₂.bit j hjl, (hothers j hjl).2]
      · have hji : j = i := (List.mem_cons.mp hj).resolve_right hjl
        rw [(h₂.others j hjl).2]
        exact h₁.bit j (List.mem_singleton.mpr hji)
    · by_cases hjl : j ∈ l
      · exact h₂.playing j hjl hne
      · have hji : j = i := (List.mem_cons.mp hj).resolve_right hjl
        rw [(h₂.others j hjl).1]
        exact h₁.playing j (List.mem_singleton.mpr hji) hne

theorem foldl_releaseBuffer_mem (l : List (Fin MAX_NUM_TRACKS)) (s : State) :
    (l.foldl (fun s i => s.setTrack i (s.tracks i).releaseBuffer) s).mem = s.mem := by
  induction l generalizing s with
  | nil => rfl
  | cons i l ih =>
    rw [List.foldl_cons, ih]
    rfl

end Acquire

/-! ## What is written -/

/-- The enabled tracks with a main buffer, in the order in which they are mixed. -/
def State.voices (s : State) (buffer : ℕ) : List (Fin MAX_NUM_TRACKS) :=
  (trackList s.enabledTracks).filter fun i => (s.tracks i).mainBuffer = buffer

/-- A main buffer is written when one of its tracks has frames. -/
def State.Writes (s : State) (pts : I64) (buffer : ℕ) : Prop :=
  ∃ i ∈ s.voices buffer, s.chunks pts i ≠ []

/-- The tracks without frames make no difference. -/
theorem mixedWords_filter (s : State) (pts : I64) (l : List (Fin MAX_NUM_TRACKS)) (p n : ℕ) :
    mixedWords ((l.filter fun i => s.chunks pts i ≠ []).map (s.part pts)) p n =
      mixedWords (l.map (s.part pts)) p n := by
  refine List.map_congr_left fun k _ => congrArg ditherAndClampFrame ?_
  rw [sumsAt, sumsAt, List.foldl_map, List.foldl_map, List.foldl_filter]
  apply List.foldl_ext
  intro sums i _
  split_ifs with hne
  · rfl
  · have hempty : s.chunks pts i = [] := by simpa using hne
    have hnone : (s.part pts i).2 = [] := by
      rw [State.part, State.frames, hempty]
      rfl
    rw [hnone]
    rfl

/-- A state of the mixer whose tracks are at constant gain up to unity. -/
structure Mixing (s : State) : Prop where
  frameCount_dvd : BLOCKSIZE ∣ s.frameCount.toNat
  constant : ∀ i ∈ trackList s.enabledTracks, (s.tracks i).Constant
  apart : ∀ i ∈ trackList s.enabledTracks, ∀ j ∈ trackList s.enabledTracks,
    (s.tracks i).Apart (s.tracks j).mainBuffer

/-- With enough fuel the words of each main buffer are those of the sums of its tracks. -/
theorem Mixing.general {s : State} (h : Mixing s) {pts : I64}
    (hsmall : ∀ i ∈ trackList s.enabledTracks, ∀ c ∈ s.chunks pts i, c.length < 2 ^ 16) (fuel : ℕ)
    (hfuel : s.frameCount.toNat + BLOCKSIZE + 1 < fuel) :
    ∃ s', process__genericNoResampling fuel s pts = some s' ∧
      (∀ buffer, s.Writes pts buffer → s'.mem buffer =
        blit (s.mem buffer) 0
          (mixedWords ((s.voices buffer).map (s.part pts)) 0 s.frameCount.toNat)) ∧
      ∀ i ∈ trackList s.enabledTracks, ¬ s.Writes pts (s.tracks i).mainBuffer →
        s'.mem (s.tracks i).mainBuffer = s.mem (s.tracks i).mainBuffer := by
  have hacquired := foldl_acquire (trackList_nodup s.enabledTracks) (s, s.enabledTracks)
    ⟨rfl, rfl⟩ (fun _ _ => rfl) h.constant hsmall
  unfold process__genericNoResampling
  rw [tracksOf_trackList]
  generalize (trackList s.enabledTracks).foldl (acquire pts) (s, s.enabledTracks) = acc at *
  obtain ⟨s₁, e⟩ := acc
  have hbit (i : Fin MAX_NUM_TRACKS) : e.getLsbD i = true ↔
      i ∈ trackList s.enabledTracks ∧ s.chunks pts i ≠ [] := by
    by_cases hi : i ∈ trackList s.enabledTracks
    · rw [hacquired.bit i hi, mem_trackList.mp hi]
      simp [hi]
    · rw [(hacquired.others i hi).2]
      exact ⟨fun hon => absurd (mem_trackList.mpr hon) hi, fun hon => absurd hon.1 hi⟩
  have hin (i : Fin MAX_NUM_TRACKS) (hi : i ∈ trackList e) :=
    (hbit i).mp (mem_trackList.mp hi)
  have hfilter : trackList e = (trackList s.enabledTracks).filter fun i => s.chunks pts i ≠ [] := by
    rw [← trackList_filter fun i hi => mem_trackList.mp ((hbit i).mp hi).1]
    apply List.filter_congr
    intro i hi
    rw [Bool.eq_iff_iff, decide_eq_true_iff, hbit i]
    exact and_iff_right hi
  by_cases hroom : BLOCKSIZE ≤ s.frameCount.toNat
  · obtain ⟨s', e', hrun, hmain, hothers⟩ := mixGroups_spec fuel MAX_NUM_TRACKS s₁ e e
      (trackList_length_le e) hacquired.tuned (fun i hi => h.constant i (hin i hi).1)
      (fun i hi j hj => h.apart i (hin i hi).1 j (hin j hj).1)
      (fun i hi => hacquired.playing i (hin i hi).1 (hin i hi).2) h.frameCount_dvd hroom hfuel
    dsimp only
    rw [hrun, Option.map_some]
    refine ⟨_, rfl, fun buffer hwrites => ?_, fun i hi hquiet => ?_⟩
    · obtain ⟨i, hi, hne⟩ := hwrites
      obtain ⟨hi, hbuffer⟩ := List.mem_filter.mp hi
      rw [decide_eq_true_iff] at hbuffer
      have hwords : mixedWords (((trackList e).filter fun j =>
          (s.tracks j).mainBuffer = buffer).map (s.part pts)) 0 s.frameCount.toNat =
          mixedWords ((s.voices buffer).map (s.part pts)) 0 s.frameCount.toNat := by
        rw [← mixedWords_filter s pts (s.voices buffer), State.voices, hfilter,
          List.filter_filter, List.filter_filter]
        simp only [Bool.and_comm]
      have hwritten := hmain i (mem_trackList.mpr ((hbit i).mpr ⟨hi, hne⟩))
      rw [hbuffer, hacquired.mem, hwords] at hwritten
      rw [foldl_releaseBuffer_mem]
      exact hwritten
    · have huntouched := hothers (s.tracks i).mainBuffer fun j hj => by
        refine ⟨fun hsame => hquiet ⟨j, ?_, (hin j hj).2⟩, h.apart j (hin j hj).1 i hi⟩
        exact List.mem_filter.mpr ⟨(hin j hj).1, decide_eq_true hsame⟩
      rw [foldl_releaseBuffer_mem, huntouched, hacquired.mem]
  · -- no frame is asked for
    have hzero : s.frameCount.toNat = 0 := by
      by_contra hne
      exact hroom (Nat.le_of_dvd (Nat.pos_of_ne_zero hne) h.frameCount_dvd)
    have hnone (i : Fin MAX_NUM_TRACKS) : s.chunks pts i = [] := by
      have hcount : (s.demand pts (s.tracks i)).frameCount.toNat = 0 := hzero
      rw [State.chunks, Demand.chunks, hcount, Demand.deliver]
    have hempty : e = 0#32 := eq_zero_of_trackList (by simp [hfilter, hnone])
    subst hempty
    dsimp only
    rw [mixGroups_zero, Option.map_some]
    refine ⟨_, rfl, fun buffer hwrites => ?_, fun i _ _ => ?_⟩
    · obtain ⟨i, -, hne⟩ := hwrites
      exact absurd (hnone i) hne
    · rw [foldl_releaseBuffer_mem, hacquired.mem]

/-! ## Exact sums -/

section Exact

variable {s : State} {pts : I64}

/-- What a track adds to a channel of frame `k`, nothing from the frame on where it runs out. -/
def State.product (s : State) (pts : I64) (left : Bool) (k : ℕ) (i : Fin MAX_NUM_TRACKS) : ℤ :=
  (s.tracks i).product left (s.frames pts i)[k]?

/-- The accumulator of a channel of frame `k` after the tracks `l`. -/
def State.accumulator (s : State) (pts : I64) (left : Bool) (k : ℕ)
    (l : List (Fin MAX_NUM_TRACKS)) : I32 :=
  channel left (sumsAt (l.map (s.part pts)) k (0#32, 0#32))

theorem Mixing.accumulator_eq (h : Mixing s) (left : Bool) (k : ℕ)
    {l : List (Fin MAX_NUM_TRACKS)} (hl : ∀ i ∈ l, i ∈ trackList s.enabledTracks) :
    s.accumulator pts left k l = accumulate 0#32 (l.map (s.product pts left k)) := by
  have hsums := channel_sumsAt (l.map fun i => (s.tracks i, s.frames pts i))
    (fun v hv => by
      obtain ⟨i, hi, rfl⟩ := List.mem_map.mp hv
      exact h.constant i (hl i hi)) left k (0#32, 0#32)
  rw [List.map_map, List.map_map] at hsums
  have hzero : channel left (0#32, 0#32) = 0#32 := by cases left <;> rfl
  rw [hzero] at hsums
  exact hsums

/-- Each sample written is the clamped sum, and no addition on the way wraps. -/
structure ExactMix (s : State) (pts : I64) (s' : State) : Prop where
  sample : ∀ buffer, s.Writes pts buffer → ∀ k < s.frameCount.toNat, ∀ left,
    (half left (s'.mem buffer k)).toInt = max (-2 ^ 15) (min (2 ^ 15 - 1)
      (((s.voices buffer).map (s.product pts left k)).sum / 2 ^ 12))
  addition : ∀ buffer, s.Writes pts buffer → ∀ k < s.frameCount.toNat, ∀ left before i after,
    s.voices buffer = before ++ i :: after →
      (s.accumulator pts left k (before ++ [i])).toInt =
        (s.accumulator pts left k before).toInt + s.product pts left k i
  unwritten : ∀ i ∈ trackList s.enabledTracks, ¬ s.Writes pts (s.tracks i).mainBuffer →
    s'.mem (s.tracks i).mainBuffer = s.mem (s.tracks i).mainBuffer

/-- With enough fuel the general path returns, having mixed exactly. -/
def MixesExactly (s : State) (pts : I64) : Prop :=
  ∃ enough, ∀ fuel, enough ≤ fuel →
    ∃ s', process__genericNoResampling fuel s pts = some s' ∧ ExactMix s pts s'

/-- No chunk overflows the `frameCount` of a track. -/
def ShortChunks (s : State) (pts : I64) : Prop :=
  ∀ i ∈ trackList s.enabledTracks, ∀ c ∈ s.chunks pts i, c.length < 2 ^ 16

/-- The sum of the products of the first tracks of a buffer fits in 32 bits, however many. -/
def SumsFit (s : State) (pts : I64) : Prop :=
  ∀ buffer, s.Writes pts buffer → ∀ k < s.frameCount.toNat, ∀ left before,
    before <+: s.voices buffer → Fits 32 (before.map (s.product pts left k)).sum

theorem voices_enabled {buffer : ℕ} {i : Fin MAX_NUM_TRACKS} (h : i ∈ s.voices buffer) :
    i ∈ trackList s.enabledTracks := (List.mem_filter.mp h).1

theorem Mixing.addition_iff (h : Mixing s) (buffer : ℕ) (left : Bool) (k : ℕ) :
    (∀ before i after, s.voices buffer = before ++ i :: after →
      (s.accumulator pts left k (before ++ [i])).toInt =
        (s.accumulator pts left k before).toInt + s.product pts left k i) ↔
      ∀ before, before <+: s.voices buffer → Fits 32 (before.map (s.product pts left k)).sum := by
  have heq {before : List (Fin MAX_NUM_TRACKS)} (hbefore : before <+: s.voices buffer) :=
    @Mixing.accumulator_eq s pts h left k before fun i hi => voices_enabled (hbefore.subset hi)
  have hwrap := @noWrap_iff 32 ((s.voices buffer).map (s.product pts left k))
  constructor
  · intro hadd before hbefore
    refine hwrap.mp ?_ _ (hbefore.map _)
    intro zs z zs' hsplit
    obtain ⟨before', rest, hvoices, rfl, hrest⟩ := List.map_eq_append_iff.mp hsplit
    obtain ⟨i, after, rfl, rfl, rfl⟩ := List.map_eq_cons_iff.mp hrest
    have hstep := hadd before' i after hvoices
    rw [heq ⟨after, by rw [hvoices]; simp⟩, heq ⟨i :: after, hvoices.symm⟩, List.map_append] at hstep
    exact hstep
  · intro hfits before i after hsplit
    have hnowrap := hwrap.mpr fun zs hzs => by
      obtain ⟨before', hbefore', rfl⟩ := List.prefix_map_iff.mp hzs
      exact hfits before' hbefore'
    have hstep := hnowrap (before.map (s.product pts left k)) (s.product pts left k i)
      (after.map (s.product pts left k)) (by rw [hsplit, List.map_append, List.map_cons])
    rw [heq ⟨after, by rw [hsplit]; simp⟩, heq ⟨i :: after, hsplit.symm⟩, List.map_append]
    exact hstep

/-- The word of a frame that is written. -/
theorem Mixing.half_word (h : Mixing s) {s' : State} {buffer : ℕ}
    (hmem : s'.mem buffer = blit (s.mem buffer) 0
      (mixedWords ((s.voices buffer).map (s.part pts)) 0 s.frameCount.toNat)) {k : ℕ}
    (hk : k < s.frameCount.toNat) (left : Bool) :
    half left (s'.mem buffer k) = clamp16 ((BitVec.ofInt 32
      ((s.voices buffer).map (s.product pts left k)).sum).sshiftRight 12) := by
  have hhit : blit (s.mem buffer) 0 (mixedWords ((s.voices buffer).map (s.part pts)) 0
      s.frameCount.toNat) (0 + k) =
      ditherAndClampFrame (sumsAt ((s.voices buffer).map (s.part pts)) k (0#32, 0#32)) := by
    rw [blit_hit 0 _ (by rw [mixedWords_length]; exact hk)]
    simp only [mixedWords, List.getElem_map, List.getElem_range, Nat.zero_add]
  rw [Nat.zero_add] at hhit
  rw [hmem, hhit, half_ditherAndClampFrame]
  change clamp16 ((s.accumulator pts left k (s.voices buffer)).sshiftRight 12) = _
  rw [h.accumulator_eq left k fun i hi => voices_enabled hi, accumulate_eq, BitVec.zero_add]

/-! ## When the sums are right -/

/-- A sum of up to 32 products that does not fit comes out at the other end of the range. -/
theorem clamp16_ofInt_iff {z : ℤ} (hlo : -2 ^ 32 ≤ z) (hhi : z ≤ 2 ^ 32) :
    (clamp16 ((BitVec.ofInt 32 z).sshiftRight 12)).toInt =
      max (-2 ^ 15) (min (2 ^ 15 - 1) (z / 2 ^ 12)) ↔ Fits 32 z := by
  rw [toInt_clamp16, BitVec.toInt_sshiftRight, Int.shiftRight_eq_div_pow]
  constructor
  · intro h
    refine fits_iff.mpr ?_
    by_contra hout
    have hmod : (BitVec.ofInt 32 z).toInt = if z < 0 then z + 2 ^ 32 else z - 2 ^ 32 := by
      rw [BitVec.toInt_ofInt]
      split_ifs
      · rw [← Int.add_bmod_right, Int.bmod_eq_of_le_mul_two] <;> push_cast <;> lia
      · rw [← Int.sub_bmod_right, Int.bmod_eq_of_le_mul_two] <;> push_cast <;> lia
    rw [hmod] at h
    push_cast at h
    split_ifs at h <;> lia
  · intro h
    rw [h]
    push_cast
    rfl

theorem Mixing.product_bounds (h : Mixing s) (left : Bool) (k : ℕ) {i : Fin MAX_NUM_TRACKS}
    (hi : i ∈ trackList s.enabledTracks) :
    -2 ^ 27 ≤ s.product pts left k i ∧ s.product pts left k i < 2 ^ 27 := by
  obtain ⟨hpos, hunity⟩ := (h.constant i hi).gain left
  have hgain : UNITY_GAIN.toInt = 2 ^ 12 := rfl
  rw [hgain] at hunity
  unfold State.product Track.product
  cases (s.frames pts i)[k]? with
  | none => norm_num
  | some rl =>
    have hsample : -2 ^ 15 ≤ (s.tracks i).sample left rl ∧ (s.tracks i).sample left rl ≤ 2 ^ 15 - 1 := by
      obtain ⟨x, hx⟩ : ∃ x : I16, (s.tracks i).sample left rl = x.toInt := by
        unfold Track.sample
        split
        · exact ⟨_, rfl⟩
        · exact ⟨_, rfl⟩
      have hlt := x.toInt_lt
      have hle := x.le_toInt
      rw [hx]
      omega
    have hlo := mul_le_mul_of_nonneg_right hsample.1 hpos
    have hhi := mul_le_mul_of_nonneg_right hsample.2 hpos
    rw [Option.map_some, Option.getD_some]
    constructor <;> linarith

/-- The sum of `n` tracks. -/
theorem Mixing.sum_bounds (h : Mixing s) (left : Bool) (k : ℕ) {l : List (Fin MAX_NUM_TRACKS)}
    (hl : ∀ i ∈ l, i ∈ trackList s.enabledTracks) :
    -2 ^ 27 * (l.length : ℤ) ≤ (l.map (s.product pts left k)).sum ∧
      (l.map (s.product pts left k)).sum ≤ (2 ^ 27 - 1) * (l.length : ℤ) := by
  induction l with
  | nil => simp
  | cons i l ih =>
    obtain ⟨hlo, hhi⟩ := ih fun j hj => hl j (List.mem_cons_of_mem _ hj)
    obtain ⟨hlo', hhi'⟩ := h.product_bounds left k (hl i List.mem_cons_self)
    rw [List.map_cons, List.sum_cons, List.length_cons]
    push_cast
    constructor <;> linarith

/-- Sixteen tracks in a main buffer always fit. -/
theorem Mixing.sumsFit (h : Mixing s) (hfew : ∀ buffer, (s.voices buffer).length ≤ 16) :
    SumsFit s pts := by
  intro buffer _ k _ left before hbefore
  obtain ⟨hlo, hhi⟩ := h.sum_bounds left k fun i hi => voices_enabled (hbefore.subset hi)
  have hlen := hbefore.length_le
  have hshort := hfew buffer
  have hcast : (before.length : ℤ) ≤ 16 := by omega
  exact fits_iff.mpr ⟨by linarith, by linarith⟩

end Exact

/-- The general path mixes exactly when no chunk is overlong and the sums of the tracks of each
main buffer fit, and only when they fit. -/
theorem mixes_exactly (s : State) (pts : I64) (h : Mixing s) :
    (ShortChunks s pts ∧ SumsFit s pts → MixesExactly s pts) ∧
      (MixesExactly s pts → SumsFit s pts) := by
  constructor
  · rintro ⟨hshort, hfits⟩
    refine ⟨s.frameCount.toNat + BLOCKSIZE + 2, fun fuel hfuel => ?_⟩
    obtain ⟨s', hrun, hwritten, hunwritten⟩ := h.general hshort fuel (by omega)
    refine ⟨s', hrun, ?_, ?_, hunwritten⟩
    · intro buffer hwrites k hk left
      rw [h.half_word (hwritten buffer hwrites) hk left]
      have hall := hfits buffer hwrites k hk left _ (List.prefix_refl _)
      obtain ⟨hlo, hhi⟩ := fits_iff.mp hall
      exact (clamp16_ofInt_iff (by linarith) (by linarith)).mpr hall
    · intro buffer hwrites k hk left
      exact (h.addition_iff buffer left k).mpr (hfits buffer hwrites k hk left)
  · rintro ⟨enough, hexact⟩ buffer hwrites k hk left
    obtain ⟨s', -, hmix⟩ := hexact enough le_rfl
    exact (h.addition_iff buffer left k).mp (hmix.addition buffer hwrites k hk left)

/-- A mixer of 16 frames with the tracks `enabledTracks` at unity gain, of which each frame is
`rl`. -/
def unisonMixer (enabledTracks rl : U32) : State :=
  { oneTrackMixer (steadyProvider 16 rl) with enabledTracks := enabledTracks }

theorem unisonMixer_sends (enabledTracks rl : U32) (i : Fin MAX_NUM_TRACKS) :
    ¬ ((unisonMixer enabledTracks rl).tracks i).Sends :=
  (by decide : ¬ 0x11#32 &&& NEEDS_AUX__MASK = NEEDS_AUX_ENABLED)

theorem unisonMixer_mixing (enabledTracks rl : U32) : Mixing (unisonMixer enabledTracks rl) where
  frameCount_dvd := (by decide : 16 ∣ 16)
  constant := by
    intro i _
    have hsends := unisonMixer_sends enabledTracks rl i
    refine ⟨?_, nofun, fun left => ?_⟩
    · rw [decide_eq_false hsends]
      simp [Track.ramps, unisonMixer, oneTrackMixer]
    · change 0 ≤ (half left 0x10001000#32).toInt ∧ (half left 0x10001000#32).toInt ≤ 4096
      revert left
      decide
  apart := fun i _ _ _ hsends => absurd hsends (unisonMixer_sends enabledTracks rl i)

theorem mixes_exactly_twoTracks :
    MixesExactly (unisonMixer 3#32 0x80008000#32) kInvalidPTS := by
  have hmixing := unisonMixer_mixing 3#32 0x80008000#32
  have hfew (buffer : ℕ) : ((unisonMixer 3#32 0x80008000#32).voices buffer).length ≤ 16 :=
    le_trans (List.length_filter_le _ _) (by decide)
  have hshort : ShortChunks (unisonMixer 3#32 0x80008000#32) kInvalidPTS := by
    unfold ShortChunks
    decide +kernel
  exact (mixes_exactly _ kInvalidPTS hmixing).1 ⟨hshort, hmixing.sumsFit hfew⟩

/-- Seventeen tracks at the lowest sample come out as the highest. -/
theorem seventeenTracks_wrap : Mixing (unisonMixer 0x1FFFF#32 0x80008000#32) ∧
    ¬ MixesExactly (unisonMixer 0x1FFFF#32 0x80008000#32) kInvalidPTS := by
  have h := unisonMixer_mixing 0x1FFFF#32 0x80008000#32
  refine ⟨h, ?_⟩
  rintro ⟨enough, hexact⟩
  have hshort : ∀ i ∈ trackList (unisonMixer 0x1FFFF#32 0x80008000#32).enabledTracks,
      ∀ c ∈ (unisonMixer 0x1FFFF#32 0x80008000#32).chunks kInvalidPTS i, c.length < 2 ^ 16 := by
    decide +kernel
  have hwrites : (unisonMixer 0x1FFFF#32 0x80008000#32).Writes kInvalidPTS 0 := by
    unfold State.Writes
    decide +kernel
  have hsum : (((unisonMixer 0x1FFFF#32 0x80008000#32).voices 0).map
      ((unisonMixer 0x1FFFF#32 0x80008000#32).product kInvalidPTS true 0)).sum = -17 * 2 ^ 27 := by
    decide +kernel
  obtain ⟨s', hrun, hmix⟩ := hexact (enough + 34) (by omega)
  obtain ⟨s'', hrun', hwritten, -⟩ := h.general hshort (enough + 34)
    (show 16 + 16 + 1 < enough + 34 by omega)
  cases Option.some_inj.mp (hrun.symm.trans hrun')
  have hexpected := hmix.sample 0 hwrites 0 (by decide) true
  have hword := h.half_word (hwritten 0 hwrites) (show 0 < 16 by decide) true
  rw [hsum] at hexpected hword
  rw [hword] at hexpected
  exact absurd hexpected (by decide)

end AudioFlinger.Mixer
