import Mathlib.Data.List.Nodup
import AudioFlinger.Mixer.Model

/-!
# Sets of tracks

A set of tracks is a word with a bit for each. The loops `while (e)` take the
tracks of a set from the highest down, so clearing a bit leaves the order of
the other tracks as it is.
-/

namespace AudioFlinger.Mixer

/-- The tracks below `m` from the highest down. -/
def tracksBelow : ℕ → List (Fin MAX_NUM_TRACKS)
  | 0 => []
  | m + 1 => if h : m < MAX_NUM_TRACKS then ⟨m, h⟩ :: tracksBelow m else tracksBelow m

theorem mem_tracksBelow {m : ℕ} {i : Fin MAX_NUM_TRACKS} : i ∈ tracksBelow m ↔ i.val < m := by
  induction m with
  | zero => simp [tracksBelow]
  | succ m ih =>
    rw [tracksBelow]
    split_ifs with h
    · rw [List.mem_cons, ih, Fin.ext_iff]
      dsimp only
      omega
    · have hlt := i.isLt
      rw [ih]
      omega

theorem tracksBelow_nodup (m : ℕ) : (tracksBelow m).Nodup := by
  induction m with
  | zero => exact List.nodup_nil
  | succ m ih =>
    rw [tracksBelow]
    split_ifs with h
    · refine List.nodup_cons.mpr ⟨fun hmem => ?_, ih⟩
      exact absurd (mem_tracksBelow.mp hmem) (Nat.lt_irrefl m)
    · exact ih

theorem tracksBelow_length_le (m : ℕ) : (tracksBelow m).length ≤ m := by
  induction m with
  | zero => exact le_rfl
  | succ m ih =>
    rw [tracksBelow]
    split_ifs with h
    · exact Nat.succ_le_succ ih
    · exact le_trans ih (Nat.le_succ m)

theorem getLsbD_bit (i j : Fin MAX_NUM_TRACKS) : (bit i).getLsbD j = decide (j = i) := by
  have hj := j.isLt
  rw [bit, BitVec.getLsbD_shiftLeft, BitVec.getLsbD_one]
  rcases lt_trichotomy j.val i.val with hlt | heq | hgt
  · have hne : j ≠ i := fun h => by rw [h] at hlt; exact Nat.lt_irrefl _ hlt
    simp [hlt, hne]
  · simp [Fin.ext_iff, heq]
  · have hne : j ≠ i := fun h => by rw [h] at hgt; exact Nat.lt_irrefl _ hgt
    have hpos : j.val - i.val ≠ 0 := by omega
    simp [hne, hpos]

theorem getLsbD_clear (e : U32) (i j : Fin MAX_NUM_TRACKS) :
    (e &&& ~~~bit i).getLsbD j = (e.getLsbD j && decide (j ≠ i)) := by
  have hj : j.val < 32 := j.isLt
  rw [BitVec.getLsbD_and, BitVec.getLsbD_not, getLsbD_bit, decide_eq_true hj, Bool.true_and,
    decide_not]

/-- The highest track of a set. -/
theorem topTrack_eq {e : U32} {i : Fin MAX_NUM_TRACKS} (hbit : e.getLsbD i = true)
    (hlt : e.toNat < 2 ^ (i.val + 1)) : topTrack e = i := by
  have hle : 2 ^ i.val ≤ e.toNat := Nat.ge_two_pow_of_testBit hbit
  have hne : e.toNat ≠ 0 := by
    have hpos := Nat.two_pow_pos i.val
    omega
  have hlog : e.toNat.log2 = i.val := (Nat.log2_eq_iff hne).mpr ⟨hle, hlt⟩
  have hi : i.val < 32 := i.isLt
  apply Fin.ext
  simp only [topTrack, clz, hlog]
  omega

theorem toNat_lt_of_bits {e : U32} {m : ℕ}
    (h : ∀ j : Fin MAX_NUM_TRACKS, m ≤ j.val → e.getLsbD j = false) : e.toNat < 2 ^ m := by
  apply Nat.lt_pow_two_of_testBit
  intro j hj
  by_cases hlt : j < MAX_NUM_TRACKS
  · exact h ⟨j, hlt⟩ hj
  · exact BitVec.getLsbD_of_ge e j (Nat.le_of_not_lt hlt)

theorem getLsbD_of_toNat_lt {e : U32} {m : ℕ} (h : e.toNat < 2 ^ m) {j : ℕ} (hj : m ≤ j) :
    e.getLsbD j = false :=
  Nat.testBit_lt_two_pow (lt_of_lt_of_le h (Nat.pow_le_pow_right Nat.two_pos hj))

theorem tracksOf_eq (m : ℕ) (hm : m ≤ MAX_NUM_TRACKS) (n : ℕ) (hn : m ≤ n) (e : U32)
    (h : e.toNat < 2 ^ m) : tracksOf n e = (tracksBelow m).filter fun i => e.getLsbD i.val := by
  induction m generalizing n e with
  | zero =>
    have hzero : e = 0#32 := BitVec.eq_of_toNat_eq (Nat.lt_one_iff.mp h)
    subst hzero
    cases n <;> rfl
  | succ m ih =>
    have hlt : m < MAX_NUM_TRACKS := hm
    rw [tracksBelow, dif_pos hlt]
    by_cases hbit : e.getLsbD m = true
    · obtain ⟨n, rfl⟩ : ∃ k, n = k + 1 := ⟨n - 1, by omega⟩
      have htop : topTrack e = ⟨m, hlt⟩ := topTrack_eq hbit h
      have hne : e ≠ 0#32 := by
        rintro rfl
        simp at hbit
      have hrest : (e &&& ~~~bit ⟨m, hlt⟩).toNat < 2 ^ m := by
        apply toNat_lt_of_bits
        intro j hj
        rw [getLsbD_clear]
        by_cases hjm : j = ⟨m, hlt⟩
        · simp [hjm]
        · have hgt : m + 1 ≤ j.val := by
            have hval : j.val ≠ m := fun hv => hjm (Fin.ext hv)
            omega
          rw [getLsbD_of_toNat_lt h hgt, Bool.false_and]
      rw [tracksOf, if_neg hne, htop, ih hlt.le n (by omega) _ hrest, List.filter_cons,
        if_pos hbit]
      congr 1
      apply List.filter_congr
      intro j hj
      have hjm : j ≠ ⟨m, hlt⟩ := by
        rintro rfl
        exact absurd (mem_tracksBelow.mp hj) (Nat.lt_irrefl m)
      rw [getLsbD_clear, decide_eq_true hjm, Bool.and_true]
    · rw [Bool.not_eq_true] at hbit
      have hsmall : e.toNat < 2 ^ m := by
        apply toNat_lt_of_bits
        intro j hj
        rcases Nat.eq_or_lt_of_le hj with heq | hgt
        · rw [← heq]
          exact hbit
        · exact getLsbD_of_toNat_lt h hgt
      rw [ih hlt.le n (by omega) e hsmall, List.filter_cons_of_neg (by simp [hbit])]

/-- The tracks that `while (e)` takes. -/
def trackList (e : U32) : List (Fin MAX_NUM_TRACKS) :=
  (tracksBelow MAX_NUM_TRACKS).filter fun i => e.getLsbD i.val

theorem tracksOf_trackList (e : U32) : tracksOf MAX_NUM_TRACKS e = trackList e :=
  tracksOf_eq MAX_NUM_TRACKS le_rfl MAX_NUM_TRACKS le_rfl e e.isLt

theorem mem_trackList {e : U32} {i : Fin MAX_NUM_TRACKS} :
    i ∈ trackList e ↔ e.getLsbD i = true := by
  rw [trackList, List.mem_filter, mem_tracksBelow]
  exact and_iff_right i.isLt

theorem trackList_nodup (e : U32) : (trackList e).Nodup :=
  (tracksBelow_nodup MAX_NUM_TRACKS).filter _

theorem trackList_length_le (e : U32) : (trackList e).length ≤ MAX_NUM_TRACKS :=
  le_trans (List.length_filter_le _ _) (tracksBelow_length_le MAX_NUM_TRACKS)

theorem eq_zero_of_trackList {e : U32} (h : trackList e = []) : e = 0#32 := by
  have hlt : e.toNat < 2 ^ 0 := toNat_lt_of_bits fun j _ => by
    rw [← Bool.not_eq_true, ← mem_trackList, h]
    exact List.not_mem_nil
  exact BitVec.eq_of_toNat_eq (Nat.lt_one_iff.mp hlt)

/-- A subset has its tracks in the same order. -/
theorem trackList_filter {e e' : U32}
    (h : ∀ i : Fin MAX_NUM_TRACKS, e'.getLsbD i = true → e.getLsbD i = true) :
    (trackList e).filter (fun i => e'.getLsbD i.val) = trackList e' := by
  rw [trackList, trackList, List.filter_filter]
  apply List.filter_congr
  intro i _
  cases he' : e'.getLsbD i
  · rfl
  · rw [h i he', Bool.and_true]

theorem trackList_zero : trackList 0#32 = [] := by
  rw [← tracksOf_trackList]
  rfl

/-- The highest track of a set that is not empty is in it. -/
theorem topTrack_mem {e : U32} (h : e ≠ 0#32) : e.getLsbD (topTrack e) = true := by
  rw [← mem_trackList, ← tracksOf_trackList]
  change _ ∈ tracksOf (31 + 1) e
  rw [tracksOf, if_neg h]
  exact List.mem_cons_self

/-- Clearing the bits of some tracks. -/
theorem getLsbD_foldl_clear (p : Fin MAX_NUM_TRACKS → Prop) [DecidablePred p]
    (l : List (Fin MAX_NUM_TRACKS)) (e : U32) (i : Fin MAX_NUM_TRACKS) :
    (l.foldl (fun e j => if p j then e &&& ~~~bit j else e) e).getLsbD i = true ↔
      e.getLsbD i = true ∧ ¬ (i ∈ l ∧ p i) := by
  induction l generalizing e with
  | nil => simp
  | cons j l ih =>
    rw [List.foldl_cons, ih]
    by_cases hij : i = j
    · subst hij
      split_ifs with hp
      · rw [getLsbD_clear]
        simp [hp]
      · simp [hp]
    · split_ifs with hp
      · rw [getLsbD_clear]
        simp [hij]
      · simp [hij]

/-- The group of a set is its tracks with the main buffer of the highest one. -/
theorem getLsbD_groupOf (s : State) (e : U32) (i : Fin MAX_NUM_TRACKS) :
    (groupOf s e).getLsbD i = (e.getLsbD i &&
      decide ((s.tracks i).mainBuffer = (s.tracks (topTrack e)).mainBuffer)) := by
  rw [Bool.eq_iff_iff, groupOf, getLsbD_foldl_clear, tracksOf_trackList]
  simp only [mem_trackList, getLsbD_clear]
  by_cases hsame : (s.tracks i).mainBuffer = (s.tracks (topTrack e)).mainBuffer
  · simp [hsame]
  · have hne : i ≠ topTrack e := fun h => hsame (by rw [h])
    cases e.getLsbD i <;> simp [hsame, hne]

end AudioFlinger.Mixer
