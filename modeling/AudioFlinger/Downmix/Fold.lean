import AudioFlinger.Downmix.Model

/-!
# What a fold computes

Every loop computes one mix of the channels of a frame, each channel being
read at the number of channels below it in the mask. A frame of two samples
is written at or below the frame that was just read, or in another buffer, so
that no sample is overwritten before it is read.
-/

namespace AudioFlinger.Downmix

open Mixer Parameters

/-! ## The mix -/

/-- Where a frame holds the channel of a bit. -/
def position (mask : U32) (bit : ℕ) : ℕ := (List.range bit).countP mask.getLsbD

/-- The sample of a channel, 0 when it is absent. -/
def channel (mask : U32) (frame : ℕ → I16) (bit : ℕ) : ℤ :=
  if mask.getLsbD bit then (frame (position mask bit)).toInt else 0

/-- FC, LFE and BC. -/
def centers (mask : U32) (frame : ℕ → I16) : ℤ :=
  channel mask frame 2 + channel mask frame 3 + channel mask frame 8

/-- FL, BL and SL. -/
def lefts (mask : U32) (frame : ℕ → I16) : ℤ :=
  channel mask frame 0 + channel mask frame 4 + channel mask frame 9

/-- FR, BR and SR. -/
def rights (mask : U32) (frame : ℕ → I16) : ℤ :=
  channel mask frame 1 + channel mask frame 5 + channel mask frame 10

def leftMix (mask : U32) (frame : ℕ → I16) : ℤ :=
  (4096 * lefts mask frame + MINUS_3_DB_IN_Q19_12 * centers mask frame) >>> (13 : ℕ)

def rightMix (mask : U32) (frame : ℕ → I16) : ℤ :=
  (4096 * rights mask frame + MINUS_3_DB_IN_Q19_12 * centers mask frame) >>> (13 : ℕ)

/-- The sample that takes the place of `dst`. -/
def mixed (accumulate : Bool) (dst : I16) (mix : ℤ) : I16 :=
  clamp16 (BitVec.ofInt 32 ((if accumulate then dst.toInt else 0) + mix))

/-- The memory after one frame. -/
def mixFrame (mask : U32) (accumulate : Bool) (mem : Memory) (pSrc pDst : ℕ) : Memory :=
  Function.update
    (Function.update mem pDst
      (mixed accumulate (mem pDst) (leftMix mask fun c => mem (pSrc + c))))
    (pDst + 1) (mixed accumulate (mem (pDst + 1)) (rightMix mask fun c => mem (pSrc + c)))

/-- The memory after a whole buffer, in terms of the samples it held before. -/
structure Downmixed (mask : U32) (accumulate : Bool) (pSrc pDst numFrames : ℕ)
    (mem mem' : Memory) : Prop where
  left : ∀ i < numFrames, mem' (pDst + 2 * i) =
    mixed accumulate (mem (pDst + 2 * i))
      (leftMix mask fun c => mem (pSrc + i * popcount mask + c))
  right : ∀ i < numFrames, mem' (pDst + 2 * i + 1) =
    mixed accumulate (mem (pDst + 2 * i + 1))
      (rightMix mask fun c => mem (pSrc + i * popcount mask + c))
  frame : ∀ a, a < pDst ∨ pDst + 2 * numFrames ≤ a → mem' a = mem a

/-! ## Accesses inside the buffers -/

theorem toInt_bounds (x : I16) : -32768 ≤ x.toInt ∧ x.toInt ≤ 32767 := by
  have hlt := x.toInt_lt
  have hle := x.le_toInt
  norm_num at hlt hle
  omega

theorem int32_eq {x : ℤ} (hle : -2 ^ 31 ≤ x) (hlt : x < 2 ^ 31) : int32 x = some x :=
  if_pos ⟨hle, hlt⟩

section Accesses

variable {b : Span} {a : ℕ} (mem : Memory)

theorem Span.load_eq (ha : b.Has a) : b.load mem a = some (mem a).toInt := if_pos ha

theorem Span.loadQ12_eq (ha : b.Has a) : b.loadQ12 mem a = some (4096 * (mem a).toInt) := by
  have hx := toInt_bounds (mem a)
  simp only [loadQ12, load_eq mem ha, Option.bind_eq_bind, Option.bind_some]
  rw [int32_eq (by lia) (by lia)]
  congr 1
  lia

theorem Span.loadMinus3dB_eq (ha : b.Has a) :
    b.loadMinus3dB mem a = some (MINUS_3_DB_IN_Q19_12 * (mem a).toInt) := by
  have hx := toInt_bounds (mem a)
  simp only [loadMinus3dB, load_eq mem ha, Option.bind_eq_bind, Option.bind_some,
    MINUS_3_DB_IN_Q19_12]
  rw [int32_eq (by omega) (by omega)]
  congr 1
  omega

theorem Span.put_eq (ha : b.Has a) (accumulate : Bool) {v : ℤ} (hle : -2 ^ 30 ≤ v)
    (hlt : v ≤ 2 ^ 30) :
    b.put accumulate mem a v = some (Function.update mem a (mixed accumulate (mem a) v)) := by
  have hx := toInt_bounds (mem a)
  cases accumulate with
  | false => simp [put, store, mixed, ha]
  | true =>
    have hsum : int32 ((mem a).toInt + v) = some ((mem a).toInt + v) :=
      int32_eq (by omega) (by omega)
    simp [put, load_eq mem ha, store, mixed, ha, hsum]

end Accesses

theorem addIf_eq {has : Bool} {sum v : ℤ} (hle : -2 ^ 31 ≤ sum + v) (hlt : sum + v < 2 ^ 31) :
    addIf has sum (some v) = some (sum + if has then v else 0) := by
  cases has with
  | false => simp [addIf]
  | true => simp [addIf, int32_eq hle hlt]

/-! ## One frame -/

/-- A round computes the mix of the mask's channels. -/
def Folds (mask : U32) (accumulate : Bool) (src dst : Span)
    (frame : Memory → ℕ → ℕ → Option Memory) : Prop :=
  ∀ mem pSrc pDst, (∀ c < popcount mask, src.Has (pSrc + c)) →
    dst.Has pDst → dst.Has (pDst + 1) → (∀ c < popcount mask, c ≠ 0 → pDst ≠ pSrc + c) →
    frame mem pSrc pDst = some (mixFrame mask accumulate mem pSrc pDst)

section Rounds

variable (src dst : Span) (accumulate : Bool)

theorem channel_bounds (mask : U32) (frame : ℕ → I16) (bit : ℕ) :
    -32768 ≤ channel mask frame bit ∧ channel mask frame bit ≤ 32767 := by
  have hx := toInt_bounds (frame (position mask bit))
  unfold channel
  split_ifs <;> omega

theorem leftMix_bounds (mask : U32) (frame : ℕ → I16) :
    -2 ^ 30 ≤ leftMix mask frame ∧ leftMix mask frame ≤ 2 ^ 30 := by
  have hFL := channel_bounds mask frame 0
  have hFC := channel_bounds mask frame 2
  have hLFE := channel_bounds mask frame 3
  have hBL := channel_bounds mask frame 4
  have hBC := channel_bounds mask frame 8
  have hSL := channel_bounds mask frame 9
  simp only [leftMix, lefts, centers, MINUS_3_DB_IN_Q19_12, Int.shiftRight_eq_div_pow]
  omega

theorem rightMix_bounds (mask : U32) (frame : ℕ → I16) :
    -2 ^ 30 ≤ rightMix mask frame ∧ rightMix mask frame ≤ 2 ^ 30 := by
  have hFR := channel_bounds mask frame 1
  have hFC := channel_bounds mask frame 2
  have hLFE := channel_bounds mask frame 3
  have hBR := channel_bounds mask frame 5
  have hBC := channel_bounds mask frame 8
  have hSR := channel_bounds mask frame 10
  simp only [rightMix, rights, centers, MINUS_3_DB_IN_Q19_12, Int.shiftRight_eq_div_pow]
  omega

/-- Both samples of a frame stored. -/
theorem put_both (mask : U32) (mem : Memory) (pSrc pDst : ℕ) (hleft : dst.Has pDst)
    (hright : dst.Has (pDst + 1)) :
    (do
      let mem' ← dst.put accumulate mem pDst (leftMix mask fun c => mem (pSrc + c))
      dst.put accumulate mem' (pDst + 1) (rightMix mask fun c => mem (pSrc + c))) =
      some (mixFrame mask accumulate mem pSrc pDst) := by
  obtain ⟨hll, hlu⟩ := leftMix_bounds mask fun c => mem (pSrc + c)
  obtain ⟨hrl, hru⟩ := rightMix_bounds mask fun c => mem (pSrc + c)
  rw [Span.put_eq mem hleft accumulate hll hlu]
  simp only [Option.bind_eq_bind, Option.bind_some]
  rw [Span.put_eq _ hright accumulate hrl hru, Function.update_of_ne (by omega)]
  rfl

/-- No partial sum of a side leaves the range. -/
theorem others_foldlM (mem : Memory) (pSrc : ℕ) (others : List ℕ)
    (hothers : ∀ i ∈ others, src.Has (pSrc + i)) (sum : ℤ)
    (hsum : |sum| + 2 ^ 27 * others.length < 2 ^ 31) :
    (others.foldlM (fun sum i => (src.loadQ12 mem (pSrc + i)).bind fun x => int32 (sum + x)) sum) =
      some (sum + 4096 * (others.map fun i => (mem (pSrc + i)).toInt).sum) := by
  induction others generalizing sum with
  | nil => simp
  | cons i others ih =>
    have hx := toInt_bounds (mem (pSrc + i))
    have hle := abs_le.mp (le_refl |sum|)
    simp only [List.length_cons, Nat.cast_add, Nat.cast_one] at hsum
    have hnext : |sum + 4096 * (mem (pSrc + i)).toInt| ≤ |sum| + 2 ^ 27 :=
      abs_le.mpr ⟨by omega, by omega⟩
    rw [List.foldlM_cons, Span.loadQ12_eq mem (hothers i List.mem_cons_self)]
    simp only [Option.bind_eq_bind, Option.bind_some]
    rw [int32_eq (by omega) (by omega), Option.bind_some]
    rw [ih (fun k hk => hothers k (List.mem_cons_of_mem i hk)) _ (by omega)]
    simp only [List.map_cons, List.sum_cons]
    congr 1
    ring

theorem sideSum_eq (mem : Memory) (pSrc : ℕ) {front centers : ℤ} {others : List ℕ}
    (hothers : ∀ i ∈ others, src.Has (pSrc + i)) (hlength : others.length ≤ 2)
    (hbound : |front + centers| ≤ 2 ^ 29) :
    sideSum src mem pSrc front centers others =
      some (front + centers + 4096 * (others.map fun i => (mem (pSrc + i)).toInt).sum) := by
  have hle := abs_le.mp hbound
  simp only [sideSum, Option.bind_eq_bind]
  rw [int32_eq (by omega) (by omega), Option.bind_some]
  exact others_foldlM src mem pSrc others hothers _ (by omega)

/-- The round of a loop that reads both centers, for a mask whose other channels are at `ls`
and `rs`. -/
theorem centersFrame_folds {mask : U32} {ls rs : List ℕ} {count : ℕ}
    (hcount : popcount mask = count) (hls : ∀ i ∈ 3 :: ls, i < count)
    (hrs : ∀ i ∈ rs, i < count) (hlsLength : ls.length ≤ 2) (hrsLength : rs.length ≤ 2)
    (hcenters : ∀ frame, centers mask frame = (frame 2).toInt + (frame 3).toInt)
    (hlefts : ∀ frame, lefts mask frame = (frame 0).toInt + (ls.map fun i => (frame i).toInt).sum)
    (hrights : ∀ frame,
      rights mask frame = (frame 1).toInt + (rs.map fun i => (frame i).toInt).sum) :
    Folds mask accumulate src dst fun mem pSrc pDst =>
      centersFrame src dst accumulate mem pSrc pDst ls rs := by
  intro mem pSrc pDst hsrc hleft hright _
  rw [hcount] at hsrc
  have hthree : 3 < count := hls 3 List.mem_cons_self
  have hfirst : src.Has pSrc := hsrc 0 (by lia)
  have h0 := toInt_bounds (mem pSrc)
  have h1 := toInt_bounds (mem (pSrc + 1))
  have h2 := toInt_bounds (mem (pSrc + 2))
  have h3 := toInt_bounds (mem (pSrc + 3))
  obtain ⟨both, hboth⟩ : ∃ both, MINUS_3_DB_IN_Q19_12 * (mem (pSrc + 2)).toInt +
      MINUS_3_DB_IN_Q19_12 * (mem (pSrc + 3)).toInt = both := ⟨_, rfl⟩
  have hbound : |both| ≤ 2 ^ 28 := by
    simp only [← hboth, MINUS_3_DB_IN_Q19_12]
    exact abs_le.mpr ⟨by lia, by lia⟩
  obtain ⟨hlow, hhigh⟩ := abs_le.mp hbound
  have hleftBound : |4096 * (mem pSrc).toInt + both| ≤ 2 ^ 29 := abs_le.mpr ⟨by lia, by lia⟩
  have hrightBound : |4096 * (mem (pSrc + 1)).toInt + both| ≤ 2 ^ 29 :=
    abs_le.mpr ⟨by lia, by lia⟩
  have hsum : int32 both = some both := int32_eq (by lia) (by lia)
  have hlt := sideSum_eq src mem pSrc (fun i hi => hsrc i (hls i (List.mem_cons_of_mem 3 hi)))
    hlsLength hleftBound
  have hrt := sideSum_eq src mem pSrc (fun i hi => hsrc i (hrs i hi)) hrsLength hrightBound
  have hl : 4096 * (mem pSrc).toInt + both + 4096 * (ls.map fun i => (mem (pSrc + i)).toInt).sum =
      4096 * (lefts mask fun c => mem (pSrc + c)) +
        MINUS_3_DB_IN_Q19_12 * centers mask fun c => mem (pSrc + c) := by
    simp only [← hboth, hlefts, hcenters, Nat.add_zero]
    ring
  have hr : 4096 * (mem (pSrc + 1)).toInt + both +
      4096 * (rs.map fun i => (mem (pSrc + i)).toInt).sum =
      4096 * (rights mask fun c => mem (pSrc + c)) +
        MINUS_3_DB_IN_Q19_12 * centers mask fun c => mem (pSrc + c) := by
    simp only [← hboth, hrights, hcenters]
    ring
  rw [hl] at hlt
  rw [hr] at hrt
  simp only [centersFrame, Span.loadMinus3dB_eq mem (hsrc 2 (by lia)),
    Span.loadMinus3dB_eq mem (hsrc 3 (by lia)), Span.loadQ12_eq mem hfirst,
    Span.loadQ12_eq mem (hsrc 1 (by lia)), Option.bind_eq_bind, Option.bind_some, hboth, hsum, hlt,
    hrt]
  exact put_both dst accumulate mask mem pSrc pDst hleft hright

theorem quadFrame_folds {mask : U32}
    (hmask : mask = CHANNEL_MASK_QUAD_BACK ∨ mask = CHANNEL_MASK_QUAD_SIDE) :
    Folds mask accumulate src dst (quadFrame src dst accumulate) := by
  intro mem pSrc pDst hsrc hleft hright hapart
  have hcount : popcount mask = 4 := by
    rcases hmask with rfl | rfl <;> decide
  rw [hcount] at hsrc hapart
  have h0 := toInt_bounds (mem pSrc)
  have h1 := toInt_bounds (mem (pSrc + 1))
  have h2 := toInt_bounds (mem (pSrc + 2))
  have h3 := toInt_bounds (mem (pSrc + 3))
  have hl : (((mem pSrc).toInt + (mem (pSrc + 2)).toInt) >>> (1 : ℕ) : ℤ) =
      leftMix mask fun c => mem (pSrc + c) := by
    have hlefts : lefts mask (fun c => mem (pSrc + c)) =
        (mem pSrc).toInt + (mem (pSrc + 2)).toInt := by
      rcases hmask with rfl | rfl
      · exact add_zero _
      · exact congrArg (· + _) (add_zero _)
    have hcenters : centers mask (fun c => mem (pSrc + c)) = 0 := by
      rcases hmask with rfl | rfl <;> rfl
    simp only [leftMix, hlefts, hcenters, Int.shiftRight_eq_div_pow]
    lia
  have hr : (((mem (pSrc + 1)).toInt + (mem (pSrc + 3)).toInt) >>> (1 : ℕ) : ℤ) =
      rightMix mask fun c => mem (pSrc + c) := by
    have hrights : rights mask (fun c => mem (pSrc + c)) =
        (mem (pSrc + 1)).toInt + (mem (pSrc + 3)).toInt := by
      rcases hmask with rfl | rfl
      · exact add_zero _
      · exact congrArg (· + _) (add_zero _)
    have hcenters : centers mask (fun c => mem (pSrc + c)) = 0 := by
      rcases hmask with rfl | rfl <;> rfl
    simp only [rightMix, hrights, hcenters, Int.shiftRight_eq_div_pow]
    lia
  have hfirst : src.Has pSrc := hsrc 0 (by lia)
  obtain ⟨hll, hlu⟩ := leftMix_bounds mask fun c => mem (pSrc + c)
  obtain ⟨hrl, hru⟩ := rightMix_bounds mask fun c => mem (pSrc + c)
  -- The right channel is read after the left sample is stored.
  have hkept (c : ℕ) (hc : c < 4) (hne : c ≠ 0) (v : I16) :
      Function.update mem pDst v (pSrc + c) = mem (pSrc + c) :=
    Function.update_of_ne (hapart c hc hne).symm _ _
  simp only [quadFrame, Span.load_eq _ hfirst, Span.load_eq _ (hsrc 1 (by lia)),
    Span.load_eq _ (hsrc 2 (by lia)), Span.load_eq _ (hsrc 3 (by lia)), Option.bind_eq_bind,
    Option.bind_some]
  rw [int32_eq (by lia) (by lia), Option.bind_some, hl,
    Span.put_eq mem hleft accumulate hll hlu, Option.bind_some, hkept 1 (by lia) (by lia),
    hkept 3 (by lia) (by lia), int32_eq (by lia) (by lia), Option.bind_some, hr,
    Span.put_eq _ hright accumulate hrl hru, Function.update_of_ne (by lia)]
  rfl

theorem surroundFrame_folds :
    Folds CHANNEL_MASK_SURROUND accumulate src dst (surroundFrame src dst accumulate) := by
  apply @centersFrame_folds src dst accumulate _ _ _ 4 (by decide) (by decide) (by decide)
  · simp
  · simp
  · intro frame
    exact congrArg (· + _) (add_zero _)
  · intro frame
    exact add_zero _
  · intro frame
    exact add_zero _

theorem fivePoint1Frame_folds {mask : U32}
    (hmask : mask = CHANNEL_MASK_5POINT1_BACK ∨ mask = CHANNEL_MASK_5POINT1_SIDE) :
    Folds mask accumulate src dst (fivePoint1Frame src dst accumulate) := by
  have hcount : popcount mask = 6 := by
    rcases hmask with rfl | rfl <;> decide
  apply centersFrame_folds src dst accumulate hcount (by decide) (by decide)
  · simp
  · simp
  · intro frame
    rcases hmask with rfl | rfl <;> exact add_zero _
  · intro frame
    rw [List.map_singleton, List.sum_singleton]
    rcases hmask with rfl | rfl
    · exact add_zero _
    · exact congrArg (· + _) (add_zero _)
  · intro frame
    rw [List.map_singleton, List.sum_singleton]
    rcases hmask with rfl | rfl
    · exact add_zero _
    · exact congrArg (· + _) (add_zero _)

theorem sevenPoint1Frame_folds :
    Folds CHANNEL_MASK_7POINT1_SIDE_BACK accumulate src dst
      (sevenPoint1Frame src dst accumulate) := by
  apply @centersFrame_folds src dst accumulate _ _ _ 8 (by decide) (by decide) (by decide)
  · simp
  · simp
  · intro frame
    exact add_zero _
  · intro frame
    have hlefts : lefts CHANNEL_MASK_7POINT1_SIDE_BACK frame =
        (frame 0).toInt + (frame 4).toInt + (frame 6).toInt := rfl
    simp only [hlefts, List.map_cons, List.map_nil, List.sum_cons, List.sum_nil]
    ring
  · intro frame
    have hrights : rights CHANNEL_MASK_7POINT1_SIDE_BACK frame =
        (frame 1).toInt + (frame 5).toInt + (frame 7).toInt := rfl
    simp only [hrights, List.map_cons, List.map_nil, List.sum_cons, List.sum_nil]
    ring

end Rounds

/-! ## The indices of the generic fold -/

section Indices

variable {mask : U32}

theorem and_twoPow_beq (mask : U32) (i : ℕ) (hi : i < 32) :
    (mask &&& BitVec.twoPow 32 i == BitVec.twoPow 32 i) = mask.getLsbD i := by
  rw [BitVec.and_twoPow]
  have hne : (0#32 == BitVec.twoPow 32 i) = false := by
    simp only [beq_eq_false_iff_ne]
    intro hzero
    have hbit := congrArg (fun x : U32 => x.getLsbD i) hzero
    simp [hi] at hbit
  cases hbit : mask.getLsbD i with
  | false => simpa using hne
  | true => simp

theorem hasFC_eq : hasFC mask = mask.getLsbD 2 := and_twoPow_beq mask 2 (by omega)

theorem hasLFE_eq : hasLFE mask = mask.getLsbD 3 := and_twoPow_beq mask 3 (by omega)

theorem hasBC_eq : hasBC mask = mask.getLsbD 8 := and_twoPow_beq mask 8 (by omega)

/-- The bits of an accepted mask below the high ones. -/
structure Accepted (mask : U32) : Prop where
  left : mask.getLsbD 0 = true
  right : mask.getLsbD 1 = true
  backs : mask.getLsbD 4 = hasBacks mask ∧ mask.getLsbD 5 = hasBacks mask
  sides : mask.getLsbD 9 = hasSides mask ∧ mask.getLsbD 10 = hasSides mask
  none : mask.getLsbD 6 = false ∧ mask.getLsbD 7 = false

/-- A pair of channels is used as a pair. -/
theorem pair_bits {mask pair : U32} (hpair : mask &&& pair = 0 ∨ mask &&& pair = pair) (i : ℕ)
    (hi : pair.getLsbD i = true) : mask.getLsbD i = (mask &&& pair != 0) := by
  have hbit : (mask &&& pair).getLsbD i = mask.getLsbD i := by
    rw [BitVec.getLsbD_and, hi, Bool.and_true]
  rcases hpair with hzero | hall
  · rw [hzero] at hbit ⊢
    simpa using hbit.symm
  · have hne : pair ≠ 0 := by
      rintro rfl
      simp at hi
    rw [hall, hi] at hbit
    rw [hall, ← hbit]
    simpa using hne

theorem accepted_of_foldGenericAccepts (h : foldGenericAccepts mask = true) : Accepted mask := by
  simp only [foldGenericAccepts, Bool.and_eq_true, Bool.or_eq_true, beq_iff_eq] at h
  obtain ⟨⟨⟨hnone, hstereo⟩, hsides⟩, hbacks⟩ := h
  have hbit {k v : U32} (hand : mask &&& k = v) (i : ℕ) (hi : k.getLsbD i = true) :
      mask.getLsbD i = v.getLsbD i := by
    rw [← hand, BitVec.getLsbD_and, hi, Bool.and_true]
  exact
    { left := hbit hstereo 0 (by decide)
      right := hbit hstereo 1 (by decide)
      backs := ⟨pair_bits hbacks 4 (by decide), pair_bits hbacks 5 (by decide)⟩
      sides := ⟨pair_bits hsides 9 (by decide), pair_bits hsides 10 (by decide)⟩
      none := ⟨hbit hnone 6 (by decide), hbit hnone 7 (by decide)⟩ }

theorem position_succ (mask : U32) (bit : ℕ) :
    position mask (bit + 1) = position mask bit + (mask.getLsbD bit).toNat := by
  rw [position, List.range_succ, List.countP_append]
  cases h : mask.getLsbD bit <;> simp [position, h]

theorem position_mono (mask : U32) {bit bit' : ℕ} (h : bit ≤ bit') :
    position mask bit ≤ position mask bit' := by
  induction bit', h using Nat.le_induction with
  | base => exact le_rfl
  | succ bit' _ ih =>
    rw [position_succ]
    omega

/-- A channel of the mask lies inside the frame. -/
theorem position_lt_popcount {bit : ℕ} (hbit : mask.getLsbD bit = true) :
    position mask bit < popcount mask := by
  have hlt : bit < 32 := BitVec.lt_of_getLsbD hbit
  have hmono : position mask (bit + 1) ≤ popcount mask := position_mono mask (by omega)
  rw [position_succ, hbit] at hmono
  exact hmono

/-- The position above a channel is next to the channel's index, present or not. -/
theorem position_index (h : Accepted mask) :
    position mask 2 = 2 ∧ position mask 3 = indexFC mask + 1 ∧
      position mask 4 = indexLFE mask + 1 ∧ position mask 5 = indexBL mask + 1 ∧
      position mask 8 = indexBR mask + 1 ∧ position mask 9 = indexBC mask + 1 ∧
      position mask 10 = indexSL mask + 1 := by
  have h2 : position mask 2 = 2 := by
    rw [position_succ, position_succ, h.left, h.right]
    rfl
  have h3 : position mask 3 = indexFC mask + 1 := by
    rw [position_succ, h2, indexFC, hasFC_eq]
    cases mask.getLsbD 2 <;> rfl
  have h4 : position mask 4 = indexLFE mask + 1 := by
    rw [position_succ, h3, indexLFE, hasLFE_eq]
    cases mask.getLsbD 3 <;> rfl
  have h5 : position mask 5 = indexBL mask + 1 := by
    rw [position_succ, h4, h.backs.1, indexBL]
    cases hasBacks mask <;> rfl
  have h8 : position mask 8 = indexBR mask + 1 := by
    rw [position_succ, position_succ, position_succ, h5, h.none.1, h.none.2, h.backs.2, indexBR]
    cases hasBacks mask <;> rfl
  have h9 : position mask 9 = indexBC mask + 1 := by
    rw [position_succ, h8, indexBC, hasBC_eq]
    cases mask.getLsbD 8 <;> rfl
  have h10 : position mask 10 = indexSL mask + 1 := by
    rw [position_succ, h9, h.sides.1, indexSL]
    cases hasSides mask <;> rfl
  exact ⟨h2, h3, h4, h5, h8, h9, h10⟩

/-- A channel added where its index says. -/
theorem addIf_load (src : Span) (mem : Memory) (pSrc : ℕ) {has : Bool} {bit index : ℕ} {sum : ℤ}
    (hbit : mask.getLsbD bit = has) (hindex : has = true → index = position mask bit)
    (hsrc : ∀ c < popcount mask, src.Has (pSrc + c)) (hsum : |sum| ≤ 2 ^ 30) :
    addIf has sum (src.load mem (pSrc + index)) =
      some (sum + channel mask (fun c => mem (pSrc + c)) bit) := by
  cases has with
  | false => simp [addIf, channel, hbit]
  | true =>
    have hx := toInt_bounds (mem (pSrc + position mask bit))
    have hle := abs_le.mp hsum
    rw [hindex rfl, Span.load_eq mem (hsrc _ (position_lt_popcount hbit)),
      addIf_eq (by omega) (by omega)]
    simp [channel, hbit]

theorem addIf_loadQ12 (src : Span) (mem : Memory) (pSrc : ℕ) {has : Bool} {bit index : ℕ}
    {sum : ℤ} (hbit : mask.getLsbD bit = has) (hindex : has = true → index = position mask bit)
    (hsrc : ∀ c < popcount mask, src.Has (pSrc + c)) (hsum : |sum| ≤ 2 ^ 30) :
    addIf has sum (src.loadQ12 mem (pSrc + index)) =
      some (sum + 4096 * channel mask (fun c => mem (pSrc + c)) bit) := by
  cases has with
  | false => simp [addIf, channel, hbit]
  | true =>
    have hx := toInt_bounds (mem (pSrc + position mask bit))
    have hle := abs_le.mp hsum
    rw [hindex rfl, Span.loadQ12_eq mem (hsrc _ (position_lt_popcount hbit)),
      addIf_eq (by omega) (by omega)]
    simp [channel, hbit]

theorem genericFrame_folds (src dst : Span) (accumulate : Bool)
    (haccepts : foldGenericAccepts mask = true) :
    Folds mask accumulate src dst (genericFrame mask src dst accumulate) := by
  intro mem pSrc pDst hsrc hleft hright _
  have hmask := accepted_of_foldGenericAccepts haccepts
  obtain ⟨h2, h3, h4, h5, h8, h9, h10⟩ := position_index hmask
  have hp0 : position mask 0 = 0 := rfl
  have hp1 : position mask 1 = 1 := by
    rw [position_succ, hmask.left]
    rfl
  have hFL : channel mask (fun c => mem (pSrc + c)) 0 = (mem pSrc).toInt := by
    simp [channel, hmask.left, hp0]
  have hFR : channel mask (fun c => mem (pSrc + c)) 1 = (mem (pSrc + 1)).toInt := by
    simp [channel, hmask.right, hp1]
  have hfirst : src.Has pSrc := by
    simpa [hp0] using hsrc _ (position_lt_popcount hmask.left)
  have hsecond : src.Has (pSrc + 1) := by
    simpa [hp1] using hsrc _ (position_lt_popcount hmask.right)
  have hbounds := channel_bounds mask fun c => mem (pSrc + c)
  have hFLb := hbounds 0
  have hFRb := hbounds 1
  have hFCb := hbounds 2
  have hLFEb := hbounds 3
  have hBLb := hbounds 4
  have hBRb := hbounds 5
  have hBCb := hbounds 8
  have hSLb := hbounds 9
  have hSRb := hbounds 10
  simp only [genericFrame, Option.bind_eq_bind]
  rw [addIf_load src mem pSrc hasFC_eq.symm (fun h => by rw [indexFC, if_pos h, h2]) hsrc
      (by norm_num), Option.bind_some,
    addIf_load src mem pSrc hasLFE_eq.symm (fun h => by rw [indexLFE, if_pos h, h3]) hsrc
      (abs_le.mpr ⟨by lia, by lia⟩), Option.bind_some,
    addIf_load src mem pSrc hasBC_eq.symm (fun h => by rw [indexBC, if_pos h, h8]) hsrc
      (abs_le.mpr ⟨by lia, by lia⟩), Option.bind_some]
  have hcenters : int32 ((0 + channel mask (fun c => mem (pSrc + c)) 2 +
      channel mask (fun c => mem (pSrc + c)) 3 + channel mask (fun c => mem (pSrc + c)) 8) *
      MINUS_3_DB_IN_Q19_12) =
      some (MINUS_3_DB_IN_Q19_12 * centers mask fun c => mem (pSrc + c)) := by
    simp only [MINUS_3_DB_IN_Q19_12, centers]
    rw [int32_eq (by lia) (by lia)]
    congr 1
    ring
  rw [hcenters, Option.bind_some, Span.loadQ12_eq mem hfirst, Option.bind_some,
    Span.loadQ12_eq mem hsecond, Option.bind_some, ← hFL, ← hFR,
    addIf_loadQ12 src mem pSrc hmask.sides.1 (fun h => by rw [indexSL, if_pos h, h9]) hsrc
      (abs_le.mpr ⟨by lia, by lia⟩), Option.bind_some,
    addIf_loadQ12 src mem pSrc hmask.sides.2 (fun h => by rw [indexSR, if_pos h, h10]) hsrc
      (abs_le.mpr ⟨by lia, by lia⟩), Option.bind_some,
    addIf_loadQ12 src mem pSrc hmask.backs.1 (fun h => by rw [indexBL, if_pos h, h4]) hsrc
      (abs_le.mpr ⟨by lia, by lia⟩), Option.bind_some,
    addIf_loadQ12 src mem pSrc hmask.backs.2 (fun h => by rw [indexBR, if_pos h, h5]) hsrc
      (abs_le.mpr ⟨by lia, by lia⟩), Option.bind_some]
  have hl : int32 (4096 * channel mask (fun c => mem (pSrc + c)) 0 +
      4096 * channel mask (fun c => mem (pSrc + c)) 9 +
      4096 * channel mask (fun c => mem (pSrc + c)) 4 +
      MINUS_3_DB_IN_Q19_12 * centers mask fun c => mem (pSrc + c)) =
      some (4096 * (lefts mask fun c => mem (pSrc + c)) +
        MINUS_3_DB_IN_Q19_12 * centers mask fun c => mem (pSrc + c)) := by
    simp only [MINUS_3_DB_IN_Q19_12, centers, lefts]
    rw [int32_eq (by lia) (by lia)]
    congr 1
    ring
  have hr : int32 (4096 * channel mask (fun c => mem (pSrc + c)) 1 +
      4096 * channel mask (fun c => mem (pSrc + c)) 10 +
      4096 * channel mask (fun c => mem (pSrc + c)) 5 +
      MINUS_3_DB_IN_Q19_12 * centers mask fun c => mem (pSrc + c)) =
      some (4096 * (rights mask fun c => mem (pSrc + c)) +
        MINUS_3_DB_IN_Q19_12 * centers mask fun c => mem (pSrc + c)) := by
    simp only [MINUS_3_DB_IN_Q19_12, centers, rights]
    rw [int32_eq (by lia) (by lia)]
    congr 1
    ring
  rw [hl, Option.bind_some, hr, Option.bind_some]
  exact put_both dst accumulate mask mem pSrc pDst hleft hright

end Indices

/-! ## The loops -/

section Runs

variable {mask : U32} {accumulate : Bool} {src dst : Span}
  {frame : Memory → ℕ → ℕ → Option Memory}

theorem mixFrame_of_ne {mem : Memory} {pSrc pDst a : ℕ} (hl : a ≠ pDst) (hr : a ≠ pDst + 1) :
    mixFrame mask accumulate mem pSrc pDst a = mem a := by
  rw [mixFrame, Function.update_of_ne hr, Function.update_of_ne hl]

theorem mixFrame_left (mem : Memory) (pSrc pDst : ℕ) :
    mixFrame mask accumulate mem pSrc pDst pDst =
      mixed accumulate (mem pDst) (leftMix mask fun c => mem (pSrc + c)) := by
  rw [mixFrame, Function.update_of_ne (by omega), Function.update_self]

theorem mixFrame_right (mem : Memory) (pSrc pDst : ℕ) :
    mixFrame mask accumulate mem pSrc pDst (pDst + 1) =
      mixed accumulate (mem (pDst + 1)) (rightMix mask fun c => mem (pSrc + c)) :=
  Function.update_self _ _ _

theorem channel_congr {f g : ℕ → I16} (h : ∀ c < popcount mask, f c = g c) :
    channel mask f = channel mask g := by
  funext bit
  simp only [channel]
  split_ifs with hbit
  · rw [h _ (position_lt_popcount hbit)]
  · rfl

theorem leftMix_congr {f g : ℕ → I16} (h : ∀ c < popcount mask, f c = g c) :
    leftMix mask f = leftMix mask g := by
  simp only [leftMix, lefts, centers, channel_congr h]

theorem rightMix_congr {f g : ℕ → I16} (h : ∀ c < popcount mask, f c = g c) :
    rightMix mask f = rightMix mask g := by
  simp only [rightMix, rights, centers, channel_congr h]

/-- By induction on the number of frames: the frame just stored is no part of those still to be
read. -/
theorem foldLoop_downmixed (hframe : Folds mask accumulate src dst frame)
    (htwo : 2 ≤ popcount mask) (numFrames : ℕ) (mem : Memory) (pSrc pDst : ℕ)
    (hsrc : ∀ k < numFrames * popcount mask, src.Has (pSrc + k))
    (hdst : ∀ k < 2 * numFrames, dst.Has (pDst + k))
    (hlayout : (∀ a, src.Has a → ¬dst.Has a) ∨ pDst ≤ pSrc) :
    ∃ mem', foldLoop frame (popcount mask) numFrames mem pSrc pDst = some mem' ∧
      Downmixed mask accumulate pSrc pDst numFrames mem mem' := by
  induction numFrames generalizing mem pSrc pDst with
  | zero =>
    exact ⟨mem, rfl, fun i hi => absurd hi (by lia), fun i hi => absurd hi (by lia),
      fun _ _ => rfl⟩
  | succ numFrames ih =>
    rw [Nat.succ_mul] at hsrc
    have hone := hframe mem pSrc pDst (fun c hc => hsrc c (by lia)) (hdst 0 (by lia))
      (hdst 1 (by lia))
    have hapart (c : ℕ) (hc : c < popcount mask) (hne : c ≠ 0) : pDst ≠ pSrc + c := by
      intro heq
      rcases hlayout with hdisjoint | hbelow
      · exact hdisjoint pDst (heq ▸ hsrc c (by lia)) (hdst 0 (by lia))
      · lia
    obtain ⟨mem', hloop, hrest⟩ := ih (mixFrame mask accumulate mem pSrc pDst)
      (pSrc + popcount mask) (pDst + 2)
      (fun k hk => by
        rw [Nat.add_assoc]
        exact hsrc _ (by lia))
      (fun k hk => by
        rw [Nat.add_assoc]
        exact hdst _ (by lia))
      (hlayout.imp id fun hbelow => by lia)
    have hdstKept (k : ℕ) :
        mixFrame mask accumulate mem pSrc pDst (pDst + 2 + k) = mem (pDst + 2 + k) :=
      mixFrame_of_ne (by lia) (by lia)
    have hsrcKept (k : ℕ) (hk : k < numFrames * popcount mask) :
        mixFrame mask accumulate mem pSrc pDst (pSrc + popcount mask + k) =
          mem (pSrc + popcount mask + k) := by
      have hin : src.Has (pSrc + popcount mask + k) := by
        rw [Nat.add_assoc]
        exact hsrc _ (by lia)
      apply mixFrame_of_ne
      · intro heq
        rcases hlayout with hdisjoint | hbelow
        · exact hdisjoint _ hin (heq ▸ hdst 0 (by lia))
        · lia
      · intro heq
        rcases hlayout with hdisjoint | hbelow
        · exact hdisjoint _ hin (heq ▸ hdst 1 (by lia))
        · lia
    have hread (i : ℕ) (hi : i < numFrames) (c : ℕ) (hc : c < popcount mask) :
        mixFrame mask accumulate mem pSrc pDst (pSrc + popcount mask + i * popcount mask + c) =
          mem (pSrc + (i + 1) * popcount mask + c) := by
      have hk : (i + 1) * popcount mask ≤ numFrames * popcount mask := Nat.mul_le_mul_right _ hi
      rw [Nat.succ_mul] at hk
      rw [Nat.add_assoc _ (i * _), hsrcKept _ (by lia), Nat.succ_mul]
      congr 1
      lia
    refine ⟨mem', ?_, ?_, ?_, ?_⟩
    · rw [foldLoop, hone hapart]
      exact hloop
    · intro i hi
      cases i with
      | zero =>
        rw [Nat.mul_zero, Nat.add_zero, hrest.frame pDst (by lia), mixFrame_left]
        simp
      | succ i =>
        have hstored := hrest.left i (by lia)
        rwa [hdstKept, leftMix_congr (hread i (by lia)),
          show pDst + 2 + 2 * i = pDst + 2 * (i + 1) by lia] at hstored
    · intro i hi
      cases i with
      | zero =>
        rw [Nat.mul_zero, Nat.add_zero, hrest.frame (pDst + 1) (by lia), mixFrame_right]
        simp
      | succ i =>
        have hstored := hrest.right i (by lia)
        rwa [Nat.add_assoc _ _ 1, hdstKept, rightMix_congr (hread i (by lia)),
          show pDst + 2 + (2 * i + 1) = pDst + 2 * (i + 1) + 1 by lia] at hstored
    · intro a ha
      rw [hrest.frame a (by lia), mixFrame_of_ne (by lia) (by lia)]

end Runs

/-! ## The effect -/

/-- Whichever loop handles an accepted mask. -/
theorem foldByMask_downmixed {mask : U32} (haccepts : foldGenericAccepts mask = true)
    (pSrc pDst numFrames : ℕ) (accumulate : Bool) (mem : Memory)
    (hlayout : pSrc = pDst ∨ pSrc + numFrames * popcount mask ≤ pDst ∨
      pDst + numFrames * 2 ≤ pSrc) :
    ∃ mem', foldByMask mask ⟨pSrc, numFrames * popcount mask⟩ ⟨pDst, numFrames * 2⟩ mem numFrames
        accumulate = some (0, mem') ∧
      Downmixed mask accumulate pSrc pDst numFrames mem mem' := by
  have hmask := accepted_of_foldGenericAccepts haccepts
  have htwo : 2 ≤ popcount mask := by
    have hlt := position_lt_popcount hmask.right
    rw [position_succ, hmask.left] at hlt
    exact hlt
  have hrun {frame : Memory → ℕ → ℕ → Option Memory}
      (hframe : Folds mask accumulate ⟨pSrc, numFrames * popcount mask⟩ ⟨pDst, numFrames * 2⟩
        frame) :
      ∃ mem', foldLoop frame (popcount mask) numFrames mem pSrc pDst = some mem' ∧
        Downmixed mask accumulate pSrc pDst numFrames mem mem' := by
    apply foldLoop_downmixed hframe htwo
    · intro k hk
      exact ⟨by simp, by simpa using hk⟩
    · intro k hk
      exact ⟨by simp, by simpa [Nat.mul_comm] using hk⟩
    · rcases hlayout with heq | hbefore | hafter
      · exact .inr heq.ge
      · refine .inl fun a hsrc hdst => ?_
        simp only [Span.Has] at hsrc hdst
        omega
      · exact .inr (by omega)
  unfold foldByMask
  split_ifs with hquad hsurround hfive hseven
  · obtain ⟨mem', hloop, hdown⟩ := hrun (quadFrame_folds _ _ accumulate hquad)
    have hcount : popcount mask = 4 := by
      rcases hquad with rfl | rfl <;> decide
    rw [hcount] at hloop
    exact ⟨mem', by simp [Downmix_foldFromQuad, hcount, hloop], hdown⟩
  · subst hsurround
    obtain ⟨mem', hloop, hdown⟩ := hrun (surroundFrame_folds _ _ accumulate)
    have hcount : popcount CHANNEL_MASK_SURROUND = 4 := by decide
    rw [hcount] at hloop
    exact ⟨mem', by simp [Downmix_foldFromSurround, hcount, hloop], hdown⟩
  · obtain ⟨mem', hloop, hdown⟩ := hrun (fivePoint1Frame_folds _ _ accumulate hfive)
    have hcount : popcount mask = 6 := by
      rcases hfive with rfl | rfl <;> decide
    rw [hcount] at hloop
    exact ⟨mem', by simp [Downmix_foldFrom5Point1, hcount, hloop], hdown⟩
  · subst hseven
    obtain ⟨mem', hloop, hdown⟩ := hrun (sevenPoint1Frame_folds _ _ accumulate)
    have hcount : popcount CHANNEL_MASK_7POINT1_SIDE_BACK = 8 := by decide
    rw [hcount] at hloop
    exact ⟨mem', by simp [Downmix_foldFrom7Point1, hcount, hloop], hdown⟩
  · obtain ⟨mem', hloop, hdown⟩ := hrun (genericFrame_folds _ _ accumulate haccepts)
    exact ⟨mem', by simp [Downmix_foldGeneric, haccepts, hloop], hdown⟩

/-- Into another buffer or in place, every loop stores the one mix and touches nothing else. -/
theorem Downmix_Process_downmixed (pDwmModule : Module)
    (hstate : pDwmModule.state = .DOWNMIX_STATE_ACTIVE)
    (htype : pDwmModule.type = .DOWNMIX_TYPE_FOLD)
    (haccepts : foldGenericAccepts pDwmModule.inputChannels = true)
    (numFrames pSrc pDst : ℕ) (mem : Memory)
    (hlayout : pSrc = pDst ∨ pSrc + numFrames * popcount pDwmModule.inputChannels ≤ pDst ∨
      pDst + numFrames * 2 ≤ pSrc) :
    ∃ mem', Downmix_Process (some pDwmModule) (some ⟨numFrames, some pSrc⟩)
        (some ⟨numFrames, some pDst⟩) mem = some (0, mem') ∧
      Downmixed pDwmModule.inputChannels pDwmModule.accumulate pSrc pDst numFrames mem mem' ∧
      (pSrc = pDst → DownmixerBufferProvider.getNextBuffer pDwmModule
        (some (NO_ERROR, ⟨numFrames, some pSrc⟩)) mem = some (0, mem')) := by
  obtain ⟨mem', hfold, hdown⟩ := foldByMask_downmixed haccepts pSrc pDst numFrames
    pDwmModule.accumulate mem hlayout
  have hprocess : Downmix_Process (some pDwmModule) (some ⟨numFrames, some pSrc⟩)
      (some ⟨numFrames, some pDst⟩) mem = some (0, mem') := by
    simp only [Downmix_Process, hstate, htype, ne_eq, not_true_eq_false, if_false]
    exact hfold
  refine ⟨mem', hprocess, hdown, ?_⟩
  rintro rfl
  exact hprocess

/-- Two 5.1 frames in place. -/
theorem Downmix_Process_downmixed_fivePoint1InPlace :
    ∃ mem' : Memory,
      DownmixerBufferProvider.getNextBuffer
          ⟨.DOWNMIX_STATE_ACTIVE, .DOWNMIX_TYPE_FOLD, 6, CHANNEL_MASK_5POINT1_BACK, false⟩
          (some (NO_ERROR, ⟨2, some 0⟩)) (fun a => BitVec.ofNat 16 (100 * a)) = some (0, mem') ∧
        Downmixed CHANNEL_MASK_5POINT1_BACK false 0 0 2 (fun a => BitVec.ofNat 16 (100 * a))
          mem' := by
  obtain ⟨mem', -, hdown, hprovider⟩ := Downmix_Process_downmixed
    ⟨.DOWNMIX_STATE_ACTIVE, .DOWNMIX_TYPE_FOLD, 6, CHANNEL_MASK_5POINT1_BACK, false⟩ rfl rfl
    (by decide) 2 0 0 (fun a => BitVec.ofNat 16 (100 * a)) (.inl rfl)
  exact ⟨mem', hprovider rfl, hdown⟩

end AudioFlinger.Downmix
