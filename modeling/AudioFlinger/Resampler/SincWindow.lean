import AudioFlinger.Foundation.Windows
import AudioFlinger.Resampler.Sinc
import AudioFlinger.Resampler.Streaming
import Mathlib.Data.BitVec

/-!
# The window of the sinc resampler

The frames of the state buffer around the pointer are the last ones read of
the stream. Each frame read moves the pointer up by a frame and takes one from
the integer part of the phase, so that their sum is the position of the output
frame. At most two frames are due when a chunk runs out.
-/

namespace AudioFlinger.Resampler

open Foundation Interpolation SlidingWindow
open Mixer (I16 I32 I64)

variable {CHANNELS : ℕ} {p : Provider (Frame CHANNELS)}

/-! ## Frames of the state buffer -/

def frameOfState (mem : ℕ → I16) (k : ℕ) : Frame CHANNELS := fun i => mem (k * CHANNELS + i)

theorem flatMap_ofFn_getElem? (held : List (Frame CHANNELS)) {j : ℕ} {frame : Frame CHANNELS}
    (hj : held[j]? = some frame) (i : Fin CHANNELS) :
    (held.flatMap List.ofFn)[j * CHANNELS + i]? = some (frame i) := by
  induction held generalizing j with
  | nil => simp at hj
  | cons first held ih =>
    rw [List.flatMap_cons]
    cases j with
    | zero =>
      rw [List.getElem?_cons_zero, Option.some.injEq] at hj
      subst hj
      rw [Nat.zero_mul, Nat.zero_add, List.getElem?_append_left (by simp)]
      simp
    | succ j =>
      rw [List.getElem?_cons_succ] at hj
      rw [Nat.succ_mul, List.getElem?_append_right (by rw [List.length_ofFn]; omega), ← ih hj]
      congr 1
      rw [List.length_ofFn]
      omega

theorem copySamples_eq {size first head : ℕ} {input : List I16} {values : ℕ → I16} (n : ℕ)
    (mem : ℕ → I16) (hinput : ∀ i < n, input[first + i]? = some (values i))
    (hsize : head + n ≤ size) :
    ∃ mem', copySamples size input first head n mem = some mem' ∧
      (∀ i < n, mem' (head + i) = values i) ∧
      ∀ a, a < head ∨ head + n ≤ a → mem' a = mem a := by
  induction n with
  | zero => exact ⟨mem, rfl, fun i hi => absurd hi (Nat.not_lt_zero i), fun _ _ => rfl⟩
  | succ n ih =>
    obtain ⟨mem', hcopy, hnew, hold⟩ := ih (fun i hi => hinput i (by omega)) (by omega)
    refine ⟨Function.update mem' (head + n) (values n), ?_, ?_, ?_⟩
    · simp only [copySamples, hcopy, hinput n (Nat.lt_succ_self n), Option.bind_eq_bind,
        Option.bind_some]
      rw [if_pos (by omega)]
    · intro i hi
      rcases Nat.lt_succ_iff_lt_or_eq.mp hi with hlt | rfl
      · rw [Function.update_of_ne (by omega), hnew i hlt]
      · exact Function.update_self _ _ _
    · intro a ha
      rw [Function.update_of_ne (by omega), hold a (by omega)]

/-- Samples of different frames lie apart. -/
theorem frame_apart {k k' : ℕ} (hne : k ≠ k') (i : Fin CHANNELS) :
    k * CHANNELS + i < k' * CHANNELS ∨ k' * CHANNELS + CHANNELS ≤ k * CHANNELS + i := by
  have hi := i.isLt
  rcases Nat.lt_or_gt_of_ne hne with hlt | hgt
  · have hle := Nat.mul_le_mul_right CHANNELS (Nat.succ_le_of_lt hlt)
    rw [Nat.succ_mul] at hle
    exact .inl (by omega)
  · have hle := Nat.mul_le_mul_right CHANNELS (Nat.succ_le_of_lt hgt)
    rw [Nat.succ_mul] at hle
    exact .inr (by omega)

/-- The state of the resampler between the frames `past` and the chunk `held`. -/
structure Sinc.Holds (s : Sinc CHANNELS) (past held : List (Frame CHANNELS)) : Prop where
  delivered : delivered s.calls = past ++ held
  samples : s.mBuffer.i16 = held.flatMap List.ofFn
  frameCount : s.mBuffer.frameCount = held.length
  ringFull : s.mRingFull = 3 * s.mConstants.halfNumCoefs * CHANNELS

section Accesses

variable {s : Sinc CHANNELS} {past held : List (Frame CHANNELS)} {k j : ℕ}
  {frame : Frame CHANNELS}

theorem Sinc.writeHead_eq (hsamples : s.mBuffer.i16 = held.flatMap List.ofFn)
    (hk : k + 1 ≤ 3 * s.mConstants.halfNumCoefs) (hj : held[j]? = some frame) :
    ∃ mem', s.writeHead (k * CHANNELS) j = some { s with mState := mem' } ∧
      frameOfState mem' (k + s.mConstants.halfNumCoefs) = frame ∧
      ∀ i, i ≠ k + s.mConstants.halfNumCoefs →
        (frameOfState mem' i : Frame CHANNELS) = frameOfState s.mState i := by
  have hsize : (k + s.mConstants.halfNumCoefs) * CHANNELS + CHANNELS ≤ s.stateSize := by
    have hle := Nat.mul_le_mul_right CHANNELS
      (show k + s.mConstants.halfNumCoefs + 1 ≤ 2 * s.mConstants.halfNumCoefs * 2 by lia)
    rwa [Nat.succ_mul, Nat.mul_right_comm] at hle
  obtain ⟨mem', hcopy, hnew, hold⟩ := @copySamples_eq _ (j * CHANNELS) _
    s.mBuffer.i16 frame.sample CHANNELS s.mState
    (fun i hi => by
      rw [hsamples, flatMap_ofFn_getElem? held hj ⟨i, hi⟩, Frame.sample, dif_pos hi]) hsize
  refine ⟨mem', ?_, ?_, ?_⟩
  · simp only [writeHead, ← Nat.add_mul, hcopy, Option.bind_eq_bind, Option.bind_some]
  · funext i
    rw [frameOfState, hnew i i.isLt, Frame.sample, dif_pos i.isLt]
  · intro i hi
    funext x
    exact hold _ (frame_apart hi x)

/-- The memory that `read` makes of the state buffer is the one that slid. -/
theorem frameOfState_slide (s : Sinc CHANNELS) :
    (frameOfState fun a => if a < s.halfState then s.mState (s.halfState + a) else s.mState a) =
      slide s.mConstants.halfNumCoefs (frameOfState s.mState : ℕ → Frame CHANNELS) := by
  funext i x
  have hx := x.isLt
  have hhalf : s.halfState = 2 * s.mConstants.halfNumCoefs * CHANNELS := by
    rw [Sinc.halfState, Nat.mul_comm s.mConstants.halfNumCoefs]
  unfold slide
  split_ifs with hi
  · have hle := Nat.mul_le_mul_right CHANNELS (Nat.succ_le_of_lt hi)
    rw [Nat.succ_mul] at hle
    simp only [frameOfState, hhalf]
    rw [if_pos (by omega), Nat.add_mul]
    congr 1
    omega
  · have hle := Nat.mul_le_mul_right CHANNELS (Nat.le_of_not_lt hi)
    simp only [frameOfState, hhalf]
    rw [if_neg (by omega)]

theorem Sinc.frameAt_eq (hk : k < 4 * s.mConstants.halfNumCoefs) :
    s.frameAt (k * CHANNELS) = some (frameOfState s.mState k) := by
  have hle := Nat.mul_le_mul_right CHANNELS
    (show k + 1 ≤ 2 * s.mConstants.halfNumCoefs * 2 by omega)
  rw [Nat.succ_mul, Nat.mul_right_comm] at hle
  exact if_pos hle

end Accesses

/-! ## Reading a frame and filtering -/

/-- The window of a state buffer. -/
abbrev Sinc.Around (s : Sinc CHANNELS) (xs : List (Frame CHANNELS)) (k q : ℕ) : Prop :=
  Window s.mConstants.halfNumCoefs 0 xs (frameOfState s.mState) k q

/-- The state after some of the frames held were read for output frame `n`. -/
structure Sinc.Reading (s : Sinc CHANNELS) (c : Sinc.Locals) (past held : List (Frame CHANNELS))
    (k q n : ℕ) : Prop where
  holds : s.Holds past held
  impulse : c.impulse = k * CHANNELS
  position : q * 2 ^ kNumPhaseBits + c.phaseFraction.toNat = n * s.mPhaseIncrement.toNat
  window : s.Around (past ++ held) k q

/-- What later calls of the provider keep. -/
structure Sinc.Extends (s : Sinc CHANNELS) (p : Provider (Frame CHANNELS)) (s' : Sinc CHANNELS) :
    Prop where
  calls : s.calls <+: s'.calls
  log : p.Log s.calls → p.Log s'.calls
  increment : s'.mPhaseIncrement = s.mPhaseIncrement
  constants : s'.mConstants = s.mConstants

theorem Sinc.Extends.refl (s : Sinc CHANNELS) : s.Extends p s := ⟨List.prefix_rfl, id, rfl, rfl⟩

theorem Sinc.Extends.trans {s s' s'' : Sinc CHANNELS} (h : s.Extends p s') (h' : s'.Extends p s'') :
    s.Extends p s'' :=
  ⟨h.calls.trans h'.calls, h'.log ∘ h.log, h'.increment.trans h.increment, h'.constants.trans h.constants⟩

theorem Sinc.Extends.delivered {s s' : Sinc CHANNELS} (h : s.Extends p s') :
    delivered s.calls <+: delivered s'.calls := by
  obtain ⟨calls, hcalls⟩ := h.calls
  rw [← hcalls, delivered_append]
  exact List.prefix_append _ _

section Reads

variable {s : Sinc CHANNELS} {c : Sinc.Locals} {past held : List (Frame CHANNELS)} {k q n j : ℕ}

/-- A due frame read from the chunk is the one that follows the window. -/
theorem Sinc.Reading.read (h : s.Reading c past held k q n) (hchannels : 0 < CHANNELS)
    (hnext : q + 1 = past.length + j) (hj : j < held.length)
    (hdue : 2 ^ kNumPhaseBits ≤ c.phaseFraction.toNat) :
    ∃ s' c' k', s.read c j = some (s', c') ∧ s'.Reading c' past held k' (q + 1) n ∧
      s.Extends p s' ∧ s'.mBuffer = s.mBuffer ∧ c'.inputIndex = c.inputIndex ∧
      c'.phaseFraction.toNat + 2 ^ kNumPhaseBits = c.phaseFraction.toNat := by
  have hhigh := h.window.high
  have hlow := h.window.low
  have hpos := h.window.half_pos
  have hframe : held[j]? = some held[j] := List.getElem?_eq_getElem hj
  have hitem : padded 0 (past ++ held) (q + 1 : ℕ) = held[j] := by
    apply padded_eq
    rw [hnext, List.getElem?_append_right (Nat.le_add_right _ _), Nat.add_sub_cancel_left, hframe]
  have hphase : (c.phaseFraction - 1#32 <<< kNumPhaseBits).toNat + 2 ^ kNumPhaseBits =
      c.phaseFraction.toNat := by
    have hone : (1#32 <<< kNumPhaseBits).toNat = 2 ^ kNumPhaseBits := rfl
    rw [BitVec.toNat_sub_of_le (by rw [BitVec.le_def, hone]; exact hdue), hone]
    lia
  have hposition : (q + 1) * 2 ^ kNumPhaseBits +
      (c.phaseFraction - 1#32 <<< kNumPhaseBits).toNat = n * s.mPhaseIncrement.toNat := by
    rw [← h.position, Nat.succ_mul]
    lia
  by_cases hwrap : 3 * s.mConstants.halfNumCoefs ≤ k + 1
  · have hring : s.mRingFull ≤ c.impulse + CHANNELS := by
      rw [h.holds.ringFull, h.impulse, ← Nat.succ_mul]
      exact Nat.mul_le_mul_right _ hwrap
    have hpast := h.window.wrap hwrap
    have himpulse : c.impulse + CHANNELS - s.halfState =
        (k + 1 - 2 * s.mConstants.halfNumCoefs) * CHANNELS := by
      rw [h.impulse, ← Nat.succ_mul, Sinc.halfState, Nat.mul_comm s.mConstants.halfNumCoefs,
        Nat.sub_mul]
    obtain ⟨mem', hwrite, hnew, hold⟩ := Sinc.writeHead_eq (k := k + 1 - 2 * s.mConstants.halfNumCoefs)
      (s := { s with
        mState := fun a => if a < s.halfState then s.mState (s.halfState + a) else s.mState a })
      h.holds.samples hpast.high hframe
    refine ⟨{ s with mState := mem' }, ⟨(k + 1 - 2 * s.mConstants.halfNumCoefs) * CHANNELS,
      c.inputIndex, c.phaseFraction - 1#32 <<< kNumPhaseBits⟩, _, ?_,
      ⟨⟨h.holds.delivered, h.holds.samples, h.holds.frameCount, h.holds.ringFull⟩, rfl, hposition,
        ?_⟩, ⟨List.prefix_rfl, id, rfl, rfl⟩, rfl, rfl, hphase⟩
    · simp only [Sinc.read]
      rw [if_pos hring, himpulse, hwrite]
      rfl
    · rw [← frameOfState_slide] at hpast
      exact hpast.write (hnew.trans hitem.symm) hold
  · have hring : ¬ s.mRingFull ≤ c.impulse + CHANNELS := by
      rw [h.holds.ringFull, h.impulse, ← Nat.succ_mul, not_le]
      exact Nat.mul_lt_mul_of_pos_right (by lia) hchannels
    have hpast := h.window.moveUp (by lia)
    have himpulse : c.impulse + CHANNELS = (k + 1) * CHANNELS := by rw [h.impulse, Nat.succ_mul]
    obtain ⟨mem', hwrite, hnew, hold⟩ := Sinc.writeHead_eq h.holds.samples hpast.high hframe
    refine ⟨{ s with mState := mem' }, ⟨(k + 1) * CHANNELS, c.inputIndex,
      c.phaseFraction - 1#32 <<< kNumPhaseBits⟩, k + 1, ?_,
      ⟨⟨h.holds.delivered, h.holds.samples, h.holds.frameCount, h.holds.ringFull⟩, rfl, hposition,
        hpast.write (hnew.trans hitem.symm) hold⟩, ⟨List.prefix_rfl, id, rfl, rfl⟩, rfl, rfl, hphase⟩
    simp only [Sinc.read]
    rw [if_neg hring, himpulse, hwrite]
    rfl

theorem mapM_range_eq {α β : Type} {f : α → Option β} {g : α → β} {l : List α}
    (h : ∀ x ∈ l, f x = some (g x)) : l.mapM f = some (l.map g) := by
  induction l with
  | nil => rfl
  | cons x l ih =>
    rw [List.mapM_cons, h x List.mem_cons_self, ih fun y hy => h y (List.mem_cons_of_mem x hy)]
    rfl

/-- The frames that the filter reads around the position `q`. -/
def windowAt (half : ℕ) (xs : List (Frame CHANNELS)) (q : ℕ) :
    List (Frame CHANNELS × Frame CHANNELS) :=
  (List.range half).map fun (i : ℕ) => (padded 0 xs (q - half - i), padded 0 xs (q - half + 1 + i))

/-- Output frame `n` of the stream `xs`, as far as the stream reaches. -/
def tapAt (half inc : ℕ) (xs : List (Frame CHANNELS)) (n : ℕ) : Option (Tap CHANNELS) :=
  let q := n * inc / 2 ^ kNumPhaseBits
  if q < xs.length then
    some
      { phase := BitVec.ofNat 32 (n * inc % 2 ^ kNumPhaseBits)
        frames := windowAt half xs q }
  else none

theorem Sinc.Reading.around (h : s.Reading c past held k q n) :
    s.around c.impulse = some (windowAt s.mConstants.halfNumCoefs (past ++ held) q) := by
  have hhigh := h.window.high
  have hlow := h.window.low
  apply mapM_range_eq
  intro i hi
  rw [List.mem_range] at hi
  have hback := h.window.items (j := s.mConstants.halfNumCoefs + i) (by omega)
  have hforth := h.window.items (j := s.mConstants.halfNumCoefs - 1 - i) (by omega)
  rw [show k + s.mConstants.halfNumCoefs - (s.mConstants.halfNumCoefs + i) = k - i by omega]
    at hback
  rw [show k + s.mConstants.halfNumCoefs - (s.mConstants.halfNumCoefs - 1 - i) = k + (i + 1) by
    omega] at hforth
  rw [h.impulse, if_pos (Nat.mul_le_mul_right _ (by omega)), ← Nat.sub_mul, ← Nat.add_mul,
    Sinc.frameAt_eq (by omega), Sinc.frameAt_eq (by omega), hback, hforth]
  simp only [Option.bind_eq_bind, Option.bind_some, Option.some.injEq, Prod.mk.injEq]
  constructor
  · congr 1
    push_cast
    omega
  · congr 1
    omega

/-- With no frame due, the filter gets the frame's window and fraction. -/
theorem Sinc.Reading.filterCoefficient (h : s.Reading c past held k q n)
    (hq : q < (past ++ held).length) (hfraction : c.phaseFraction.toNat < 2 ^ kNumPhaseBits) :
    ∃ tap, s.filterCoefficient c.phaseFraction c.impulse = some (tap, s.filtered tap) ∧
      tapAt s.mConstants.halfNumCoefs s.mPhaseIncrement.toNat (past ++ held) n = some tap := by
  refine ⟨⟨c.phaseFraction, windowAt s.mConstants.halfNumCoefs (past ++ held) q⟩, ?_, ?_⟩
  · simp only [Sinc.filterCoefficient, h.around, Option.bind_eq_bind, Option.bind_some]
  · have hdiv : n * s.mPhaseIncrement.toNat / 2 ^ kNumPhaseBits = q := by
      rw [← h.position, Nat.mul_comm, Nat.mul_add_div (Nat.two_pow_pos _),
        Nat.div_eq_of_lt hfraction, Nat.add_zero]
    have hmod : n * s.mPhaseIncrement.toNat % 2 ^ kNumPhaseBits = c.phaseFraction.toNat := by
      rw [← h.position, Nat.mul_comm, Nat.mul_add_mod, Nat.mod_eq_of_lt hfraction]
    simp only [tapAt, hdiv, hmod, if_pos hq, BitVec.ofNat_toNat, BitVec.setWidth_eq]

/-- A tap stays the same in a longer stream. -/
theorem tapAt_of_isPrefix {half inc : ℕ} {xs ys : List (Frame CHANNELS)} (h : xs <+: ys) (n : ℕ)
    (tap : Tap CHANNELS) (htap : tapAt half inc xs n = some tap) : tapAt half inc ys n = some tap := by
  obtain ⟨zs, rfl⟩ := h
  simp only [tapAt] at htap ⊢
  split_ifs at htap with hq
  rw [if_pos (by rw [List.length_append]; omega), ← htap]
  congr 2
  apply List.map_congr_left
  intro i hi
  rw [List.mem_range] at hi
  rw [padded_append _ (by omega), padded_append _ (by omega)]

end Reads

/-! ## A pass over a chunk -/

/-- The state is at output frame `n` in the chunk held, or has used it up with frames still due. -/
inductive Sinc.Stopped (s : Sinc CHANNELS) (c : Sinc.Locals) (past held : List (Frame CHANNELS))
    (n : ℕ) : Prop
  | ready {k q : ℕ} (reading : s.Reading c past held k q n)
      (index : q = past.length + c.inputIndex) (inside : c.inputIndex < held.length)
      (fraction : c.phaseFraction.toNat < 2 ^ kNumPhaseBits)
  | done {k q : ℕ} (reading : s.Reading c past held k q n) (index : c.inputIndex = held.length)
      (last : q + 1 = past.length + held.length)
      (due : 2 ^ kNumPhaseBits ≤ c.phaseFraction.toNat)
      (few : c.phaseFraction.toNat < 3 * 2 ^ kNumPhaseBits)

variable {past held : List (Frame CHANNELS)}

/-- By induction on the frames due. -/
theorem Sinc.advance_stopped (hchannels : 0 < CHANNELS) {n : ℕ} (m : ℕ) (s : Sinc CHANNELS)
    (c : Sinc.Locals) {k q : ℕ} (h : s.Reading c past held k q n)
    (hindex : q = past.length + c.inputIndex) (hinside : c.inputIndex < held.length)
    (hle : m * 2 ^ kNumPhaseBits ≤ c.phaseFraction.toNat)
    (hlt : c.phaseFraction.toNat < (m + 1) * 2 ^ kNumPhaseBits)
    (hfew : c.phaseFraction.toNat < 3 * 2 ^ kNumPhaseBits) :
    ∃ more s' c', Sinc.advance m s c = some (more, s', c') ∧ s'.Stopped c' past held n ∧
      s.Extends p s' ∧ (more = true ↔ c'.inputIndex < held.length) := by
  induction m generalizing s c k q with
  | zero =>
    rw [Nat.zero_add, Nat.one_mul] at hlt
    exact ⟨true, s, c, rfl, .ready h hindex hinside hlt, .refl s, by simpa using hinside⟩
  | succ m ih =>
    rw [Nat.succ_mul] at hle hlt
    have hcount := h.holds.frameCount
    by_cases hend : held.length ≤ c.inputIndex + 1
    · have hstep : Sinc.advance (m + 1) s c =
          some (false, s, { c with inputIndex := c.inputIndex + 1 }) := by
        simp only [Sinc.advance]
        rw [if_pos (by lia)]
      refine ⟨false, s, _, hstep, .done ⟨h.holds, h.impulse, h.position, h.window⟩ ?_ ?_ ?_ hfew,
        .refl s, ?_⟩
      · dsimp only
        lia
      · lia
      · dsimp only
        lia
      · simpa using hend
    · obtain ⟨s₁, c₁, k₁, hread, h₁, hext, hbuffer, hsame, hphase⟩ :=
        Sinc.Reading.read (c := { c with inputIndex := c.inputIndex + 1 }) (j := c.inputIndex + 1)
          ⟨h.holds, h.impulse, h.position, h.window⟩ hchannels (by lia) (by lia)
          (by dsimp only; lia)
      dsimp only at hsame hphase
      obtain ⟨more, s', c', hrun, hstopped, hext', hmore⟩ := ih s₁ c₁ h₁ (by lia) (by lia)
        (by lia) (by rw [Nat.succ_mul] at hlt ⊢; lia) (by lia)
      refine ⟨more, s', c', ?_, hstopped, hext.trans hext', hmore⟩
      simp only [Sinc.advance]
      rw [if_neg (by lia), hread]
      exact hrun

theorem Sinc.drain_stopped (hchannels : 0 < CHANNELS) (m n : ℕ) (s : Sinc CHANNELS)
    (c : Sinc.Locals) {k q : ℕ} (h : s.Reading c past held k q n)
    (hindex : q = past.length + c.inputIndex) (hinside : c.inputIndex < held.length)
    (hfraction : c.phaseFraction.toNat < 2 ^ kNumPhaseBits)
    (hinc : s.mPhaseIncrement.toNat ≤ 2 * 2 ^ kNumPhaseBits) :
    ∃ out s' c', Sinc.drain m s c = some (out, s', c') ∧
      s'.Stopped c' past held (n + out.length) ∧ s.Extends p s' ∧
      Segment (tapAt s.mConstants.halfNumCoefs s.mPhaseIncrement.toNat (past ++ held)) n
        (out.map Prod.fst) ∧
      out.length ≤ m ∧ (0 < m → 0 < out.length) := by
  induction m generalizing n s c k q with
  | zero =>
    exact ⟨[], s, c, rfl, .ready h hindex hinside hfraction, .refl s, .nil, le_rfl, id⟩
  | succ m ih =>
    obtain ⟨tap, hfilter, htap⟩ := h.filterCoefficient
      (by rw [List.length_append]; lia) hfraction
    have hsum : (c.phaseFraction + s.mPhaseIncrement).toNat =
        c.phaseFraction.toNat + s.mPhaseIncrement.toNat := by
      unfold kNumPhaseBits at hfraction hinc
      rw [BitVec.toNat_add, Nat.mod_eq_of_lt (by lia)]
    have hnext : s.Reading { c with phaseFraction := c.phaseFraction + s.mPhaseIncrement } past
        held k q (n + 1) := by
      refine ⟨h.holds, h.impulse, ?_, h.window⟩
      have hposition := h.position
      dsimp only
      rw [hsum, Nat.succ_mul]
      lia
    have hindexPhase : ((c.phaseFraction + s.mPhaseIncrement) >>> kNumPhaseBits).toNat =
        (c.phaseFraction.toNat + s.mPhaseIncrement.toNat) / 2 ^ kNumPhaseBits := by
      rw [BitVec.toNat_ushiftRight, hsum, Nat.shiftRight_eq_div_pow]
    obtain ⟨more, s₁, c₁, hadvance, hstopped, hext, hmore⟩ := Sinc.advance_stopped hchannels
      ((c.phaseFraction + s.mPhaseIncrement) >>> kNumPhaseBits).toNat s _ hnext hindex hinside
      (by rw [hindexPhase, hsum]; exact Nat.div_mul_le_self _ _)
      (by rw [hindexPhase, hsum]; rw [Nat.succ_mul]; exact Nat.lt_div_mul_add (Nat.two_pow_pos _))
      (by rw [hsum]; lia)
    cases more with
    | false =>
      refine ⟨[(tap, s.filtered tap)], s₁, c₁, ?_, hstopped, hext, .cons htap .nil, ?_,
        fun _ => Nat.one_pos⟩
      · simp only [Sinc.drain, hfilter, Option.bind_eq_bind, Option.bind_some, hadvance]
        rfl
      · simp
    | true =>
      cases hstopped with
      | done _ hdone _ _ _ =>
        have hin := hmore.mp rfl
        lia
      | ready hreading hindex₁ hinside₁ hfraction₁ =>
        obtain ⟨out, s', c', hdrain, hstopped', hext', hframes, hlength, -⟩ :=
          ih (n + 1) s₁ c₁ hreading hindex₁ hinside₁ hfraction₁ (by rwa [hext.increment])
        rw [hext.increment, hext.constants] at hframes
        refine ⟨(tap, s.filtered tap) :: out, s', c', ?_, ?_, hext.trans hext', .cons htap hframes,
          ?_, fun _ => Nat.succ_pos _⟩
        · simp only [Sinc.drain, hfilter, Option.bind_eq_bind, Option.bind_some, hadvance]
          simp only [if_true, hdrain, Option.bind_some]
        · rwa [List.length_cons, Nat.add_comm out.length, ← Nat.add_assoc]
        · simpa using hlength

/-! ## Between chunks -/

/-- Where a call finds the resampler at output frame `n`: before the first chunk, between chunks
with one or two frames due, or in a chunk. -/
inductive Sinc.Placed (s : Sinc CHANNELS) (c : Sinc.Locals) (n : ℕ) : Prop
  | starting (holds : s.Holds [] []) (first : n = 0) (index : c.inputIndex = 0)
      (phase : c.phaseFraction = 0#32)
      (impulse : c.impulse = (s.mConstants.halfNumCoefs - 1) * CHANNELS)
      (half : 0 < s.mConstants.halfNumCoefs) (zero : ∀ a, s.mState a = 0#16)
  | due {past : List (Frame CHANNELS)} {k q : ℕ} (reading : s.Reading c past [] k q n)
      (index : c.inputIndex = 0) (last : q + 1 = past.length)
      (due : 2 ^ kNumPhaseBits ≤ c.phaseFraction.toNat)
      (few : c.phaseFraction.toNat < 3 * 2 ^ kNumPhaseBits)
  | inside {past held : List (Frame CHANNELS)} {k q : ℕ} (holds : s.Holds past held)
      (index : q = past.length + c.inputIndex) (inside : c.inputIndex < held.length)
      (impulse : c.impulse = k * CHANNELS)
      (position : q * 2 ^ kNumPhaseBits + c.phaseFraction.toNat = n * s.mPhaseIncrement.toNat)
      (fraction : c.phaseFraction.toNat < 2 ^ kNumPhaseBits)
      (window : Past s.mConstants.halfNumCoefs 0 (past ++ held) (frameOfState s.mState) k q)

theorem Sinc.Stopped.finish {s : Sinc CHANNELS} {c : Sinc.Locals} {n : ℕ}
    (h : s.Stopped c past held n) :
    Sinc.Placed (s.finish c).1 (s.finish c).2 n ∧ s.Extends p (s.finish c).1 := by
  cases h with
  | ready hreading hindex hinside hfraction =>
    have hcount := hreading.holds.frameCount
    rw [Sinc.finish, if_neg (by omega)]
    exact ⟨.inside hreading.holds hindex hinside hreading.impulse hreading.position hfraction
      hreading.window.toPast, .refl s⟩
  | done hreading hindex hlast hdue hfew =>
    have hcount := hreading.holds.frameCount
    rw [Sinc.finish, if_pos (by omega)]
    refine ⟨@Sinc.Placed.due _ _ _ _ (past ++ held) _ _ ⟨⟨?_, rfl, rfl, hreading.holds.ringFull⟩,
      hreading.impulse, hreading.position, ?_⟩ ?_ ?_ hdue hfew,
      ⟨List.prefix_append _ _, fun h => h.releaseBuffer _, rfl, rfl⟩⟩
    · simp [Sinc.releaseBuffer, hreading.holds.delivered]
    · rw [List.append_nil]
      exact hreading.window
    · simp [hindex, hcount]
    · rw [List.length_append, hlast]

/-- The provider has answered `NULL`. -/
def Sinc.Starved (s : Sinc CHANNELS) : Prop :=
  ∃ frameCount pts, .getNextBuffer frameCount pts none ∈ s.calls

/-- Asking for a chunk while none is held. -/
theorem Sinc.Holds.getNextBuffer {s : Sinc CHANNELS} (h : s.Holds past []) (frameCount : U32)
    (pts : I64) :
    s.Extends p (s.getNextBuffer p frameCount pts) ∧
      ((∃ held, held ≠ [] ∧ (s.getNextBuffer p frameCount pts).mBuffer.raw ≠ none ∧
          (s.getNextBuffer p frameCount pts).Holds past held) ∨
        (s.getNextBuffer p frameCount pts).mBuffer.raw = none ∧
          (s.getNextBuffer p frameCount pts).Starved ∧
          (s.getNextBuffer p frameCount pts).Holds past []) := by
  refine ⟨⟨List.prefix_append _ _, fun h => h.getNextBuffer _ _, rfl, rfl⟩, ?_⟩
  have hpast := h.delivered
  rw [List.append_nil] at hpast
  cases hanswer : p.answer s.calls frameCount pts with
  | some held =>
    refine Or.inl ⟨held, p.nonempty _ _ _ _ hanswer, ?_, ?_, ?_, ?_, h.ringFull⟩
    · simp [Sinc.getNextBuffer, hanswer]
    · simp [Sinc.getNextBuffer, hanswer, hpast]
    · simp [Sinc.getNextBuffer, hanswer, Buffer.i16]
    · simp [Sinc.getNextBuffer, hanswer]
  | none =>
    refine Or.inr ⟨?_, ⟨frameCount, pts, ?_⟩, ?_, ?_, ?_, h.ringFull⟩
    · simp [Sinc.getNextBuffer, hanswer]
    · simp [Sinc.getNextBuffer, hanswer]
    · simp [Sinc.getNextBuffer, hanswer, hpast]
    · simp [Sinc.getNextBuffer, hanswer, Buffer.i16]
    · simp [Sinc.getNextBuffer, hanswer]

/-- A chunk that came while frames are due, before any of them is read. -/
theorem Sinc.Reading.getNextBuffer {s : Sinc CHANNELS} {c : Sinc.Locals} {k q n : ℕ}
    (h : s.Reading c past [] k q n) (hlast : q + 1 = past.length) {frameCount : U32} {pts : I64}
    (hholds : (s.getNextBuffer p frameCount pts).Holds past held) :
    (s.getNextBuffer p frameCount pts).Reading c past held k q n := by
  have hwindow := h.window
  rw [Sinc.Around, List.append_nil] at hwindow
  exact ⟨hholds, h.impulse, h.position, hwindow.append (by omega) held⟩

/-- What `fetch` leaves. -/
structure Sinc.Fetched (s : Sinc CHANNELS) (p : Provider (Frame CHANNELS)) (n : ℕ) (filled : Bool) (s' : Sinc CHANNELS)
    (c' : Sinc.Locals) : Prop where
  placed : s'.Placed c' n
  extends_ : s.Extends p s'
  full : filled = true → s'.mBuffer.frameCount ≠ 0
  starved : filled = false → s'.Starved

theorem Sinc.Fetched.of_extends {s s₁ s' : Sinc CHANNELS} {n : ℕ} {filled : Bool}
    {c' : Sinc.Locals} (hext : s.Extends p s₁) (h : s₁.Fetched p n filled s' c') :
    s.Fetched p n filled s' c' := ⟨h.placed, hext.trans h.extends_, h.full, h.starved⟩

section Fetching

variable {s : Sinc CHANNELS} {c : Sinc.Locals} {n : ℕ} (inFrameCount : U32) (done : ℕ)

theorem Sinc.fetch_full (fuel : ℕ) (hplaced : s.Placed c n) (hfull : s.mBuffer.frameCount ≠ 0) :
    Sinc.fetch p inFrameCount done (fuel + 1) s c = some (true, s, c) ∧ s.Fetched p n true s c := by
  refine ⟨?_, hplaced, .refl s, fun _ => hfull, nofun⟩
  rw [Sinc.fetch, if_pos hfull]

theorem Sinc.Reading.inside {k q : ℕ} (h : s.Reading c past held k q n)
    (hindex : q = past.length + c.inputIndex) (hinside : c.inputIndex < held.length)
    (hfraction : c.phaseFraction.toNat < 2 ^ kNumPhaseBits) : s.Placed c n :=
  .inside h.holds hindex hinside h.impulse h.position hfraction h.window.toPast

theorem Sinc.Reading.fetch_inside {k q : ℕ} (fuel : ℕ) (h : s.Reading c past held k q n)
    (hindex : q = past.length + c.inputIndex) (hinside : c.inputIndex < held.length)
    (hfraction : c.phaseFraction.toNat < 2 ^ kNumPhaseBits) :
    ∃ filled s' c', Sinc.fetch p inFrameCount done (fuel + 1) s c = some (filled, s', c') ∧
      s.Fetched p n filled s' c' := by
  have hcount := h.holds.frameCount
  obtain ⟨hfetch, hfetched⟩ := Sinc.fetch_full (p := p) inFrameCount done fuel
    (h.inside hindex hinside hfraction) (by omega)
  exact ⟨true, s, c, hfetch, hfetched⟩

theorem ushiftRight_eq_iff (x : U32) {m : ℕ} (hm : m < 4) :
    x >>> kNumPhaseBits = BitVec.ofNat 32 m ↔ x.toNat / 2 ^ kNumPhaseBits = m := by
  rw [← BitVec.toNat_inj, BitVec.toNat_ushiftRight, Nat.shiftRight_eq_div_pow, BitVec.toNat_ofNat,
    Nat.mod_eq_of_lt (by omega)]

/-- With a frame due, by induction on the chunks asked for. -/
theorem Sinc.fetch_due (hchannels : 0 < CHANNELS) (fuel : ℕ) (s : Sinc CHANNELS) (c : Sinc.Locals)
    {past : List (Frame CHANNELS)} {k q : ℕ} (h : s.Reading c past [] k q n)
    (hindex : c.inputIndex = 0) (hlast : q + 1 = past.length)
    (hdue : 2 ^ kNumPhaseBits ≤ c.phaseFraction.toNat)
    (hfew : c.phaseFraction.toNat < 3 * 2 ^ kNumPhaseBits)
    (hfuel : c.phaseFraction.toNat < fuel * 2 ^ kNumPhaseBits) :
    ∃ filled s' c', Sinc.fetch p inFrameCount done fuel s c = some (filled, s', c') ∧
      s.Fetched p n filled s' c' := by
  induction fuel generalizing s c past k q with
  | zero => omega
  | succ fuel ih =>
    rw [Nat.succ_mul] at hfuel
    have hempty : ¬ s.mBuffer.frameCount ≠ 0 := by simp [h.holds.frameCount]
    rw [Sinc.fetch, if_neg hempty]
    obtain ⟨hext, ⟨held, hheld, hraw, hholds⟩ | ⟨hraw, hstarved, hholds⟩⟩ :=
      h.holds.getNextBuffer (p := p) inFrameCount (s.calculateOutputPTS done)
    · have hnew := h.getNextBuffer hlast hholds
      have hpos := List.length_pos_iff.mpr hheld
      have hone := ushiftRight_eq_iff c.phaseFraction (m := 1) (by omega)
      have htwo := ushiftRight_eq_iff c.phaseFraction (m := 2) (by omega)
      obtain ⟨s₁, c₁, k₁, hread, h₁, hext₁, hbuffer, hsame, hphase⟩ := hnew.read hchannels
        (j := c.inputIndex) (by omega) (by omega) hdue
      have hcount := h₁.holds.frameCount
      dsimp only
      rw [if_neg hraw]
      by_cases hdiv : c.phaseFraction.toNat / 2 ^ kNumPhaseBits = 1
      · rw [if_pos (hone.mpr hdiv), hread]
        cases fuel with
        | zero => omega
        | succ fuel =>
          have hfraction : c₁.phaseFraction.toNat < 2 ^ kNumPhaseBits := by
            have hlt := Nat.lt_div_mul_add (a := c.phaseFraction.toNat)
              (Nat.two_pow_pos kNumPhaseBits)
            rw [hdiv] at hlt
            omega
          obtain ⟨filled, s', c', hrun, hfetched⟩ :=
            h₁.fetch_inside (p := p) inFrameCount done fuel (by omega) (by omega) hfraction
          exact ⟨filled, s', c', hrun, .of_extends (hext.trans hext₁) hfetched⟩
      · have hdiv₂ : c.phaseFraction.toNat / 2 ^ kNumPhaseBits = 2 := by
          have hge : 1 ≤ c.phaseFraction.toNat / 2 ^ kNumPhaseBits :=
            (Nat.one_le_div_iff (Nat.two_pow_pos _)).mpr hdue
          have hlt : c.phaseFraction.toNat / 2 ^ kNumPhaseBits < 3 :=
            Nat.div_lt_of_lt_mul (hfew.trans_eq (Nat.mul_comm _ _))
          omega
        have htwice := Nat.div_mul_le_self c.phaseFraction.toNat (2 ^ kNumPhaseBits)
        rw [hdiv₂] at htwice
        rw [if_neg fun heq => hdiv (hone.mp heq), if_pos (htwo.mpr hdiv₂), hread]
        simp only [Option.bind_eq_bind, Option.bind_some]
        split_ifs with hend
        · obtain ⟨filled, s', c', hrun, hfetched⟩ := @ih s₁.releaseBuffer
            { c₁ with inputIndex := c₁.inputIndex + 1 - s₁.mBuffer.frameCount } (past ++ held) k₁ (q + 1)
            ⟨⟨by simp [Sinc.releaseBuffer, h₁.holds.delivered], rfl, rfl, h₁.holds.ringFull⟩,
              h₁.impulse, h₁.position, by
                rw [List.append_nil]
                exact h₁.window⟩
            (by dsimp only; omega) (by rw [List.length_append]; omega) (by dsimp only; omega)
            (by dsimp only; omega) (by dsimp only; omega)
          refine ⟨filled, s', c', hrun, .of_extends (hext.trans (hext₁.trans ?_)) hfetched⟩
          exact ⟨List.prefix_append _ _, fun h => h.releaseBuffer _, rfl, rfl⟩
        · obtain ⟨s₂, c₂, k₂, hread₂, h₂, hext₂, hbuffer₂, hsame₂, hphase₂⟩ :=
            Sinc.Reading.read (c := { c₁ with inputIndex := c₁.inputIndex + 1 })
              (j := c₁.inputIndex + 1) ⟨h₁.holds, h₁.impulse, h₁.position, h₁.window⟩ hchannels
              (by omega) (by omega) (by dsimp only; omega)
          rw [hread₂]
          dsimp only at hsame₂ hphase₂
          cases fuel with
          | zero => omega
          | succ fuel =>
            have hfraction : c₂.phaseFraction.toNat < 2 ^ kNumPhaseBits := by omega
            obtain ⟨filled, s', c', hrun, hfetched⟩ :=
              h₂.fetch_inside (p := p) inFrameCount done fuel (by omega) (by omega) hfraction
            exact ⟨filled, s', c', hrun, .of_extends (hext.trans (hext₁.trans hext₂)) hfetched⟩
    · dsimp only
      rw [if_pos hraw]
      have hreading := h.getNextBuffer hlast hholds
      exact ⟨false, _, c, rfl, .due hreading hindex hlast hdue hfew, hext, nofun,
        fun _ => hstarved⟩

theorem Sinc.Placed.fetch (h : s.Placed c n) (hchannels : 0 < CHANNELS) :
    ∃ filled s' c', Sinc.fetch p inFrameCount done 3 s c = some (filled, s', c') ∧
      s.Fetched p n filled s' c' := by
  cases h with
  | inside holds index hin impulse position fraction window =>
    have hcount := holds.frameCount
    obtain ⟨hfetch, hfetched⟩ := Sinc.fetch_full (p := p) inFrameCount done 2
      (.inside holds index hin impulse position fraction window) (by omega)
    exact ⟨true, s, c, hfetch, hfetched⟩
  | due reading index last hdue few =>
    exact Sinc.fetch_due inFrameCount done hchannels 3 s c reading index last hdue few few
  | starting holds first index phase impulse half zero =>
    have hempty : ¬ s.mBuffer.frameCount ≠ 0 := by simp [holds.frameCount]
    rw [Sinc.fetch, if_neg hempty]
    obtain ⟨hext, ⟨held, hheld, hraw, hholds⟩ | ⟨hraw, hstarved, hholds⟩⟩ :=
      holds.getNextBuffer (p := p) inFrameCount (s.calculateOutputPTS done)
    · have hpos := List.length_pos_iff.mpr hheld
      have hplaced : (s.getNextBuffer p inFrameCount (s.calculateOutputPTS done)).Placed c n := by
        refine .inside (q := 0) hholds (by simp [index]) (by omega) impulse ?_ ?_
          (Past.start half fun i => ?_)
        · simp [first, phase]
        · simp [phase]
        · funext x
          exact zero _
      obtain ⟨hfetch, hfetched⟩ := Sinc.fetch_full (p := p) inFrameCount done 1 hplaced
        (by rw [hholds.frameCount]; omega)
      refine ⟨true, _, c, ?_, .of_extends hext hfetched⟩
      dsimp only
      rw [if_neg hraw, phase, if_neg (by decide), if_neg (by decide)]
      exact hfetch
    · dsimp only
      rw [if_pos hraw]
      exact ⟨false, _, c, rfl, .starting hholds first index phase impulse half zero, hext, nofun,
        fun _ => hstarved⟩

end Fetching

/-! ## The main loop -/

/-- From frame `n` on, `out` of at most `m` frames. -/
structure Sinc.Resampled (s : Sinc CHANNELS) (p : Provider (Frame CHANNELS)) (n m : ℕ)
    (out : List (Tap CHANNELS × (I32 × I32)))
    (s' : Sinc CHANNELS) (c' : Sinc.Locals) : Prop where
  placed : s'.Placed c' (n + out.length)
  taps : Segment (tapAt s.mConstants.halfNumCoefs s.mPhaseIncrement.toNat (delivered s'.calls)) n
    (out.map Prod.fst)
  extends_ : s.Extends p s'
  length : out.length ≤ m

/-- With a chunk held, a pass over it emits at least a frame. -/
theorem Sinc.Placed.drain {s : Sinc CHANNELS} {c : Sinc.Locals} {n m : ℕ} (h : s.Placed c n)
    (hchannels : 0 < CHANNELS) (hbuffer : s.mBuffer.frameCount ≠ 0)
    (hinc : s.mPhaseIncrement.toNat ≤ 2 * 2 ^ kNumPhaseBits) (hm : 0 < m) :
    ∃ s₁ out s₂ c₂, s.writeHead c.impulse c.inputIndex = some s₁ ∧
      Sinc.drain m s₁ c = some (out, s₂, c₂) ∧
      s.Resampled p n m out (s₂.finish c₂).1 (s₂.finish c₂).2 ∧ 0 < out.length := by
  cases h with
  | starting holds first index phase impulse half zero =>
    exact absurd holds.frameCount hbuffer
  | due reading index last due few =>
    exact absurd reading.holds.frameCount hbuffer
  | @inside past held k q holds index inside impulse position fraction window =>
    have hframe : held[c.inputIndex]? = some held[c.inputIndex] := List.getElem?_eq_getElem inside
    have hitem : padded 0 (past ++ held) (q : ℕ) = held[c.inputIndex] := by
      apply padded_eq
      rw [index, List.getElem?_append_right (Nat.le_add_right _ _), Nat.add_sub_cancel_left, hframe]
    obtain ⟨mem', hwrite, hnew, hold⟩ :=
      Sinc.writeHead_eq holds.samples window.high hframe
    have hreading : Sinc.Reading { s with mState := mem' } c past held k q n :=
      ⟨⟨holds.delivered, holds.samples, holds.frameCount, holds.ringFull⟩, impulse, position,
        window.write (hnew.trans hitem.symm) hold⟩
    obtain ⟨out, s₂, c₂, hdrain, hstopped, hext, htaps, hlength, hpos⟩ :=
      Sinc.drain_stopped hchannels m n _ c hreading index inside fraction hinc
    obtain ⟨hplaced, hext₂⟩ := hstopped.finish
    have hext₁ : s.Extends p { s with mState := mem' } := ⟨List.prefix_rfl, id, rfl, rfl⟩
    refine ⟨_, out, s₂, c₂, by rw [impulse]; exact hwrite, hdrain,
      ⟨hplaced, ?_, hext₁.trans (hext.trans hext₂), hlength⟩, hpos hm⟩
    have hdelivered := (hext.trans hext₂).delivered
    rw [show delivered (Sinc.calls { s with mState := mem' }) = past ++ held from holds.delivered]
      at hdelivered
    exact htaps.mono (tapAt_of_isPrefix hdelivered)

/-- The loop emits all its frames, unless the provider answers `NULL`. -/
theorem Sinc.mainLoop_resampled (hchannels : 0 < CHANNELS) (inFrameCount : U32)
    (fuel done m n : ℕ) (s : Sinc CHANNELS) (c : Sinc.Locals) (h : s.Placed c n)
    (hinc : s.mPhaseIncrement.toNat ≤ 2 * 2 ^ kNumPhaseBits) (hfuel : m < fuel) :
    ∃ out s' c', Sinc.mainLoop p inFrameCount fuel done m s c = some (out, s', c') ∧
      s.Resampled p n m out s' c' ∧ (out.length = m ∨ s'.Starved) := by
  induction fuel generalizing done m n s c with
  | zero => exact absurd hfuel (Nat.not_lt_zero _)
  | succ fuel ih =>
    rw [Sinc.mainLoop]
    split_ifs with hm
    · exact ⟨[], s, c, rfl, ⟨h, .nil, .refl s, Nat.zero_le _⟩, Or.inl hm.symm⟩
    · obtain ⟨filled, s₁, c₁, hfetch, hfetched⟩ := h.fetch (p := p) inFrameCount done hchannels
      simp only [hfetch, Option.bind_eq_bind, Option.bind_some]
      cases filled with
      | false =>
        rw [if_neg Bool.false_ne_true]
        exact ⟨[], s₁, c₁, rfl, ⟨hfetched.placed, .nil, hfetched.extends_, Nat.zero_le _⟩,
          Or.inr (hfetched.starved rfl)⟩
      | true =>
        rw [if_pos rfl]
        have hext := hfetched.extends_
        obtain ⟨s₂, out, s₃, c₃, hwrite, hdrain, hout, hpos⟩ := hfetched.placed.drain (p := p) hchannels
          (hfetched.full rfl) (by rwa [hext.increment]) (Nat.pos_of_ne_zero hm)
        have hlen := hout.length
        obtain ⟨rest, s₄, c₄, hrest, hmore, hend⟩ :=
          ih (done + out.length) (m - out.length) (n + out.length) (s₃.finish c₃).1
            (s₃.finish c₃).2 hout.placed (by rwa [hout.extends_.increment, hext.increment])
            (by lia)
        have hlen' := hmore.length
        simp only [hwrite, hdrain, hrest, Option.bind_some]
        refine ⟨_, s₄, c₄, rfl, ⟨?_, ?_, ?_, ?_⟩, hend.imp_left fun hall => ?_⟩
        · rw [List.length_append, ← Nat.add_assoc]
          exact hmore.placed
        · have htaps := hmore.taps
          rw [hout.extends_.increment, hout.extends_.constants] at htaps
          have hfirst := hout.taps.mono (tapAt_of_isPrefix hmore.extends_.delivered)
          rw [List.map_append, ← hext.increment, ← hext.constants]
          apply hfirst.append
          rwa [List.length_map]
        · exact hext.trans (hout.extends_.trans hmore.extends_)
        · rw [List.length_append]
          lia
        · rw [List.length_append, hall]
          lia

/-! ## Runs -/

/-- What `Placed` depends on. -/
theorem Sinc.Placed.of_eq {s s' : Sinc CHANNELS} {c : Sinc.Locals} {n : ℕ} (h : s.Placed c n)
    (hcalls : s'.calls = s.calls) (hbuffer : s'.mBuffer = s.mBuffer)
    (hring : s'.mRingFull = s.mRingFull) (hconstants : s'.mConstants = s.mConstants)
    (hstate : s'.mState = s.mState) (hinc : s'.mPhaseIncrement = s.mPhaseIncrement) :
    s'.Placed c n := by
  have hholds {past held : List (Frame CHANNELS)} (h : s.Holds past held) : s'.Holds past held := by
    refine ⟨?_, ?_, ?_, ?_⟩
    · rw [hcalls, h.delivered]
    · rw [hbuffer, h.samples]
    · rw [hbuffer, h.frameCount]
    · rw [hring, hconstants, h.ringFull]
  cases h with
  | starting holds first index phase impulse half zero =>
    rw [← hconstants] at impulse half
    exact .starting (hholds holds) first index phase impulse half (by rwa [hstate])
  | due reading index last due few =>
    refine .due ⟨hholds reading.holds, reading.impulse, ?_, ?_⟩ index last due few
    · rw [hinc, reading.position]
    · rw [Sinc.Around, hconstants, hstate]
      exact reading.window
  | inside holds index inside impulse position fraction window =>
    refine .inside (hholds holds) index inside impulse ?_ fraction ?_
    · rw [hinc, position]
    · rwa [hconstants, hstate]

theorem Sinc.resample_resampled {n : ℕ} (hchannels : 0 < CHANNELS) (s : Sinc CHANNELS)
    (outFrameCount : U32) (h : s.Placed s.locals n)
    (hinc : s.mPhaseIncrement.toNat ≤ 2 * 2 ^ kNumPhaseBits) :
    ∃ out s', Sinc.resample p s outFrameCount = some (out, s') ∧
      s.Resampled p n (outputFrames outFrameCount) out s' s'.locals ∧
      (out.length = outputFrames outFrameCount ∨ s'.Starved) := by
  obtain ⟨out, s', c', hrun, hout, hend⟩ := Sinc.mainLoop_resampled (p := p) hchannels
    (outFrameCount * s.mInSampleRate / s.mSampleRate) _ 0 _ n s s.locals h hinc
    (Nat.lt_succ_self (outputFrames outFrameCount))
  have hcall : Sinc.resample p s outFrameCount = some (out, { s' with
      mImpulse := c'.impulse, mInputIndex := c'.inputIndex,
      mPhaseFraction := c'.phaseFraction }) := by
    simp only [Sinc.resample, hrun, Option.bind_eq_bind, Option.bind_some]
  exact ⟨out, _, hcall, ⟨hout.placed.of_eq rfl rfl rfl rfl rfl rfl, hout.taps,
    { hout.extends_ with }, hout.length⟩, hend⟩

/-- A resampler and what its calls of the filter read and added to the outputs. -/
structure SincSession (CHANNELS : ℕ) where
  resampler : Sinc CHANNELS
  output : List (Tap CHANNELS × (I32 × I32))

/-- `setVolume`, `setPTS` and `resample`. -/
def SincSession.step (p : Provider (Frame CHANNELS)) (session : SincSession CHANNELS)
    (r : Request) : Option (SincSession CHANNELS) := do
  let (out, s) ← Sinc.resample p
    { session.resampler with mVolumeRL := r.volume.2 ++ r.volume.1, mPTS := r.pts } r.outFrameCount
  some { resampler := s, output := session.output ++ out }

/-- With the answers of the provider, output frame `n` was filtered at its place of every stream that
it hands out the front of, and all of them were that were asked for unless it answered `NULL`. -/
structure SincSession.Filters (session : SincSession CHANNELS) (p : Provider (Frame CHANNELS))
    (half inc requested : ℕ) : Prop where
  log : p.Log session.resampler.calls
  taps : ∀ n tap value, session.output[n]? = some (tap, value) →
    ∀ xs, delivered session.resampler.calls <+: xs → tapAt half inc xs n = some tap
  complete : ¬ session.resampler.Starved → session.output.length = requested

/-- The invariant of a session. -/
structure SincSession.Inv (session : SincSession CHANNELS) (p : Provider (Frame CHANNELS))
    (half inc requested : ℕ) : Prop where
  placed : session.resampler.Placed session.resampler.locals session.output.length
  increment : session.resampler.mPhaseIncrement.toNat = inc
  constants : session.resampler.mConstants.halfNumCoefs = half
  filters : session.Filters p half inc requested

theorem Sinc.Extends.starved {s s' : Sinc CHANNELS} (h : s.Extends p s') (hs : s.Starved) :
    s'.Starved := by
  obtain ⟨frameCount, pts, hcall⟩ := hs
  exact ⟨frameCount, pts, h.calls.subset hcall⟩

theorem SincSession.Inv.step {session : SincSession CHANNELS} {half inc k : ℕ}
    (h : session.Inv p half inc k) (hchannels : 0 < CHANNELS) (hinc : inc ≤ 2 * 2 ^ kNumPhaseBits)
    (r : Request) :
    ∃ session', session.step p r = some session' ∧ session'.Inv p half inc (k + r.frames) := by
  obtain ⟨out, s', hrun, hout, hend⟩ := Sinc.resample_resampled (p := p) hchannels
    { session.resampler with mVolumeRL := r.volume.2 ++ r.volume.1, mPTS := r.pts } r.outFrameCount
    (h.placed.of_eq rfl rfl rfl rfl rfl rfl) (h.increment.trans_le hinc)
  have hext : session.resampler.Extends p s' := { hout.extends_ with }
  refine ⟨⟨s', session.output ++ out⟩, ?_, ?_, ?_, ?_, hext.log h.filters.log, ?_, ?_⟩
  · simp only [SincSession.step, hrun, Option.bind_eq_bind, Option.bind_some]
  · rw [List.length_append]
    exact hout.placed
  · rw [hext.increment, h.increment]
  · rw [hext.constants, h.constants]
  · intro n tap value hn xs hxs
    rcases Nat.lt_or_ge n session.output.length with hlt | hge
    · rw [List.getElem?_append_left hlt] at hn
      exact h.filters.taps n tap value hn xs (hext.delivered.trans hxs)
    · rw [List.getElem?_append_right hge] at hn
      have htap := hout.taps (n - session.output.length) tap (by rw [List.getElem?_map, hn]; rfl)
      rw [Nat.add_sub_cancel' hge] at htap
      have hhalf := h.constants
      have hincrement := h.increment
      subst hhalf hincrement
      exact tapAt_of_isPrefix hxs n tap htap
  · intro hfed
    have hfed' : ¬ session.resampler.Starved := fun hstarved => hfed (hext.starved hstarved)
    rw [List.length_append, h.filters.complete hfed', hend.resolve_right hfed]
    rfl

theorem SincSession.Inv.run {session : SincSession CHANNELS} {half inc k : ℕ}
    (h : session.Inv p half inc k) (hchannels : 0 < CHANNELS) (hinc : inc ≤ 2 * 2 ^ kNumPhaseBits)
    (rs : List Request) :
    ∃ session', Machine.run (SincSession.step p) session rs = some session' ∧
      session'.Inv p half inc (k + (rs.map Request.frames).sum) := by
  induction rs generalizing session k with
  | nil => exact ⟨session, rfl, h⟩
  | cons r rs ih =>
    obtain ⟨session₁, hstep, h₁⟩ := h.step hchannels hinc r
    obtain ⟨session₂, hrun, h₂⟩ := ih h₁
    refine ⟨session₂, Machine.run_cons_some.mpr ⟨session₁, hstep, hrun⟩, ?_⟩
    rw [List.map_cons, List.sum_cons, ← Nat.add_assoc]
    exact h₂

end AudioFlinger.Resampler
