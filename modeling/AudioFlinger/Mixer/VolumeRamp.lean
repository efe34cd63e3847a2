import AudioFlinger.Foundation.Machine
import AudioFlinger.Mixer.AuxSend
import AudioFlinger.Mixer.Sums

/-!
# The volume ramp

A new volume is approached in equal steps, one for each frame, of which there
are meant to be as many as a call of `process` mixes. The end of the ramp is
looked for between chunks only.
-/

namespace AudioFlinger.Mixer

open Foundation Machine

def MAX_GAIN_INT : ℕ := 0x1000

/-! ## One channel -/

/-- What `track_t` has of the volume of a channel. -/
structure Channel where
  volume : I16
  prevVolume : I32
  volumeInc : I32
  deriving DecidableEq, Repr

/-- `setParameter` of `VOLUME0` or `VOLUME1`, for the target `RAMP_VOLUME` or `VOLUME`. -/
def Channel.setParameter (mFrameCount : U32) (ramp : Bool) (valueInt : I32) (c : Channel) :
    Channel :=
  if c.volume.signExtend 32 ≠ valueInt then
    let prevVolume := c.volume.signExtend 32 <<< 16
    let volume := valueInt.setWidth 16
    if ramp then
      let d := valueInt <<< 16 - prevVolume
      let volInc := d.sdiv mFrameCount
      { volume := volume
        prevVolume := if volInc = 0#32 then valueInt <<< 16 else prevVolume
        volumeInc := volInc }
    else
      { volume := volume
        prevVolume := valueInt <<< 16
        volumeInc := 0#32 }
  else c

def Channel.adjustVolumeRamp (c : Channel) : Channel :=
  let adjusted := adjustRamp c.volumeInc c.prevVolume c.volume
  { c with
    volumeInc := adjusted.1
    prevVolume := adjusted.2 }

/-- The loop of a ramp over `frameCount` frames, with the gain of each. -/
def Channel.ramp : ℕ → Channel → Channel × List I32
  | 0, c => (c, [])
  | n + 1, c =>
    let rest := ramp n { c with prevVolume := c.prevVolume + c.volumeInc }
    (rest.1, c.prevVolume.sshiftRight 16 :: rest.2)

/-- A hook, for `frameCount` frames; the other channel or the send may ramp too. -/
def Channel.mix (frameCount : ℕ) (others : Bool) (c : Channel) : Channel × List I32 :=
  if c.volumeInc ≠ 0#32 ∨ others then
    ((c.ramp frameCount).1.adjustVolumeRamp, (c.ramp frameCount).2)
  else (c, List.replicate frameCount (c.volume.signExtend 32))

/-! ## The channels of a track -/

def Track.left (t : Track) : Channel := ⟨leftHalf t.volumeRL, t.prevVolume.1, t.volumeInc.1⟩

def Track.right (t : Track) : Channel := ⟨rightHalf t.volumeRL, t.prevVolume.2, t.volumeInc.2⟩

theorem ramp_eq_rampFrames (ramp : Gains → U32 → Sums → Sums) (inc g : Gains) (l r : I16) (frames : List U32) :
    (Channel.ramp frames.length ⟨l, g.vl, inc.vl⟩).1 = ⟨l, (rampFrames ramp inc g frames).2.vl, inc.vl⟩ ∧
      (Channel.ramp frames.length ⟨r, g.vr, inc.vr⟩).1 = ⟨r, (rampFrames ramp inc g frames).2.vr, inc.vr⟩ := by
  induction frames generalizing g with
  | nil => exact ⟨rfl, rfl⟩
  | cons rl frames ih => exact ih ⟨g.vl + inc.vl, g.vr + inc.vr, g.va + inc.va⟩

/-- A hook mixes each channel of its track, and the track ramps if one of them or the send does. -/
theorem hook16Bits_channels (ramp : Gains → U32 → Sums → Sums) (constant : Track → U32 → Sums → Sums)
    (t : Track) (out : List (I32 × I32)) (frameCount : ℕ) (aux : Option (List I32)) :
    (hook16Bits ramp constant t out frameCount aux).1.left =
        (t.left.mix (t.input.take frameCount).length (t.ramps aux.isSome)).1 ∧
      (hook16Bits ramp constant t out frameCount aux).1.right =
        (t.right.mix (t.input.take frameCount).length (t.ramps aux.isSome)).1 := by
  have hsame : ({ t with input := t.input.drop frameCount } : Track).ramps aux.isSome = t.ramps aux.isSome := rfl
  rw [hook16Bits, Channel.mix, Channel.mix, hsame]
  cases hramps : t.ramps aux.isSome with
  | true =>
    obtain ⟨hl, hr⟩ := ramp_eq_rampFrames ramp ⟨t.volumeInc.1, t.volumeInc.2, t.auxInc⟩
      ⟨t.prevVolume.1, t.prevVolume.2, t.prevAuxLevel⟩ (leftHalf t.volumeRL) (rightHalf t.volumeRL)
      (t.input.take frameCount)
    rw [if_pos (Or.inr rfl), if_pos (Or.inr rfl)]
    exact ⟨congrArg Channel.adjustVolumeRamp hl.symm, congrArg Channel.adjustVolumeRamp hr.symm⟩
  | false =>
    simp only [Track.ramps, ne_eq, decide_not, Bool.not_eq_false', decide_eq_true_eq,
      BitVec.or_eq_zero_iff] at hramps
    obtain ⟨⟨hl, hr⟩, -⟩ := hramps
    have hstill : ∀ c : Channel, c.volumeInc = 0#32 → ¬(c.volumeInc ≠ 0#32 ∨ false = true) := by simp
    rw [if_neg (hstill t.left hl), if_neg (hstill t.right hr)]
    exact ⟨rfl, rfl⟩

/-! ## Volumes as integers -/

section Volumes

variable {v : ℕ} (h : v ≤ MAX_GAIN_INT)

include h

theorem toInt_volume : (BitVec.ofNat 16 v).toInt = v := by
  unfold MAX_GAIN_INT at h
  rw [BitVec.toInt_ofNat']
  exact Int.bmod_eq_of_le_mul_two (by norm_num; omega) (by norm_num; omega)

theorem signExtend_volume : (BitVec.ofNat 16 v).signExtend 32 = BitVec.ofNat 32 v := by
  unfold MAX_GAIN_INT at h
  apply BitVec.eq_of_toInt_eq
  rw [BitVec.toInt_signExtend_of_le (by decide), toInt_volume h, BitVec.toInt_ofNat']
  exact (Int.bmod_eq_of_le_mul_two (by norm_num; omega) (by norm_num; omega)).symm

theorem toInt_gain : (BitVec.ofNat 32 v <<< 16).toInt = v * 65536 := by
  unfold MAX_GAIN_INT at h
  have hshift : BitVec.ofNat 32 v <<< 16 = BitVec.ofNat 32 (v * 65536) := by
    apply BitVec.eq_of_toNat_eq
    rw [BitVec.toNat_shiftLeft, BitVec.toNat_ofNat, BitVec.toNat_ofNat, Nat.shiftLeft_eq]
    omega
  rw [hshift, BitVec.toInt_ofNat', Nat.cast_mul]
  exact Int.bmod_eq_of_le_mul_two (by norm_num; omega) (by norm_num; omega)

end Volumes

theorem toInt_sshiftRight_gain (x : I32) : (x.sshiftRight 16).toInt = x.toInt / 65536 := by
  rw [BitVec.toInt_sshiftRight, Int.shiftRight_eq_div_pow]
  norm_num

/-- A sum of two gains does not overflow. -/
theorem toInt_add_gain {x y : I32} (hlo : -2 ^ 31 ≤ x.toInt + y.toInt)
    (hhi : x.toInt + y.toInt < 2 ^ 31) : (x + y).toInt = x.toInt + y.toInt := by
  rw [BitVec.toInt_add]
  exact Int.bmod_eq_of_le_mul_two (by norm_num; omega) (by norm_num; omega)

/-! ## The steps of a ramp -/

/-- A ramp between two volumes, of which a call of `process` mixes `mFrameCount` frames. -/
structure Slope where
  mFrameCount : U32
  old : ℕ
  new : ℕ
  frameCount_ne : mFrameCount ≠ 0#32
  old_le : old ≤ MAX_GAIN_INT
  new_le : new ≤ MAX_GAIN_INT

namespace Slope

variable (r : Slope)

/-- The whole change, in the units of a gain. -/
def change : ℤ := (r.new - r.old) * 65536

/-- The change of one frame. -/
def inc : ℤ := r.change.tdiv r.mFrameCount.toInt

/-- The gain after a change of `x`. -/
def gainAt (x : ℤ) : ℤ := (r.old * 65536 + x) / 65536

/-- The gain after a change of `x` lies between the volumes. -/
def Within (x : ℤ) : Prop := min r.change 0 ≤ x ∧ x ≤ max r.change 0 + 65535

instance (x : ℤ) : Decidable (r.Within x) := inferInstanceAs (Decidable (_ ∧ _))

/-- `g'` is no further from the new volume than `g`. -/
def Toward (g g' : ℤ) : Prop := (r.old ≤ r.new → g ≤ g') ∧ (r.new ≤ r.old → g' ≤ g)

/-- The gains lie between the volumes and approach the new one. -/
structure Steady (gains : List ℤ) : Prop where
  between : ∀ g ∈ gains, r.Toward r.old g ∧ r.Toward g r.new
  ordered : gains.Pairwise r.Toward

theorem natAbs_change_le : r.change.natAbs ≤ 2 ^ 28 := by
  have hold := r.old_le
  have hnew := r.new_le
  unfold MAX_GAIN_INT at hold hnew
  unfold change
  omega

theorem natAbs_inc_le : r.inc.natAbs ≤ 2 ^ 28 :=
  (Int.natAbs_tdiv_le_natAbs _ _).trans r.natAbs_change_le

variable {r}

theorem within_iff (x : ℤ) :
    r.Within x ↔ r.Toward r.old (r.gainAt x) ∧ r.Toward (r.gainAt x) r.new := by
  unfold Within Toward gainAt change
  omega

/-- `y` is a change as far as `x`, or further, in the same direction. -/
def Beyond (x y : ℤ) : Prop := 0 ≤ x ∧ x ≤ y ∨ y ≤ x ∧ x ≤ 0

theorem beyond_mul {a b : ℕ} (h : a ≤ b) (inc : ℤ) : Beyond (a * inc) (b * inc) := by
  have hcast : (a : ℤ) ≤ b := Int.ofNat_le.mpr h
  rcases le_total 0 inc with hpos | hneg
  · exact Or.inl ⟨mul_nonneg (Int.natCast_nonneg a) hpos, mul_le_mul_of_nonneg_right hcast hpos⟩
  · exact Or.inr ⟨mul_le_mul_of_nonpos_right hcast hneg,
      mul_nonpos_of_nonneg_of_nonpos (Int.natCast_nonneg a) hneg⟩

theorem Within.of_beyond {x y : ℤ} (h : r.Within y) (hbeyond : Beyond x y) : r.Within x := by
  unfold Within Beyond at *
  omega

theorem Within.toward {x y : ℤ} (h : r.Within y) (hbeyond : Beyond x y) :
    r.Toward (r.gainAt x) (r.gainAt y) := by
  unfold Within Beyond Toward gainAt change at *
  omega

/-! ## What the code computes -/

/-- The channel after `setParameter`, where the volume was `old`. -/
structure Ready (r : Slope) (c : Channel) : Prop where
  volume : c.volume.toInt = r.new
  volumeInc : c.volumeInc.toInt = r.inc
  prevVolume : c.prevVolume.toInt = if r.inc = 0 then (r.new : ℤ) * 65536 else r.old * 65536

variable (r) in
/-- A ramp that has the volume `old` to start with, where it stays if that is `new` too. -/
structure Starts (c : Channel) : Prop where
  volume : c.volume = BitVec.ofNat 16 r.old
  settled : r.old = r.new → c.volumeInc = 0#32 ∧ c.prevVolume = BitVec.ofNat 32 r.old <<< 16

theorem toInt_volInc : (BitVec.ofNat 32 r.new <<< 16 - BitVec.ofNat 32 r.old <<< 16 : I32).toInt =
    r.change := by
  have hchange := r.natAbs_change_le
  unfold change at *
  rw [BitVec.toInt_sub, toInt_gain r.new_le, toInt_gain r.old_le]
  rw [Int.bmod_eq_of_le_mul_two (by norm_num; omega) (by norm_num; omega), sub_mul]

theorem toInt_sdiv_volInc {d : I32} (hd : d.toInt = r.change) :
    (d.sdiv r.mFrameCount).toInt = r.inc := by
  have hinc := r.natAbs_inc_le
  rw [BitVec.toInt_sdiv, hd]
  exact Int.bmod_eq_of_le_mul_two (by change _ ≤ r.inc * 2; norm_num; omega)
    (by change r.inc * 2 < _; norm_num; omega)

theorem inc_eq_zero (h : r.old = r.new) : r.inc = 0 := by
  unfold inc change
  rw [h, sub_self, Int.zero_mul, Int.zero_tdiv]

theorem ready_setParameter {c : Channel} (h : r.Starts c) :
    r.Ready (c.setParameter r.mFrameCount true (BitVec.ofNat 32 r.new)) := by
  have hold := r.old_le
  have hnew := r.new_le
  unfold MAX_GAIN_INT at hold hnew
  have hvolume : c.volume.signExtend 32 = BitVec.ofNat 32 r.old := by
    rw [h.volume]
    exact signExtend_volume r.old_le
  unfold Channel.setParameter
  rw [hvolume]
  by_cases hsame : r.old = r.new
  · obtain ⟨hinc, hprev⟩ := h.settled hsame
    have hzero := inc_eq_zero hsame
    rw [hsame, if_neg (not_not.mpr rfl)]
    exact
      { volume := by rw [h.volume, toInt_volume r.old_le, hsame]
        volumeInc := by
          rw [hinc, hzero]
          rfl
        prevVolume := by rw [hprev, toInt_gain r.old_le, if_pos hzero, hsame] }
  · have hne : BitVec.ofNat 32 r.old ≠ BitVec.ofNat 32 r.new := by
      intro heq
      have hnat := congrArg BitVec.toNat heq
      rw [BitVec.toNat_ofNat, BitVec.toNat_ofNat] at hnat
      omega
    have hvolInc := toInt_sdiv_volInc (r := r) toInt_volInc
    have hwidth : (BitVec.ofNat 32 r.new).setWidth 16 = BitVec.ofNat 16 r.new := by
      apply BitVec.eq_of_toNat_eq
      rw [BitVec.toNat_setWidth, BitVec.toNat_ofNat, BitVec.toNat_ofNat]
      omega
    have hzero : (BitVec.ofNat 32 r.new <<< 16 - BitVec.ofNat 32 r.old <<< 16).sdiv r.mFrameCount = 0#32 ↔
        r.inc = 0 := by
      rw [← hvolInc, ← BitVec.toInt_inj]
      rfl
    rw [if_pos hne]
    exact
      { volume := by
          dsimp only
          rw [if_pos rfl, hwidth]
          exact toInt_volume r.new_le
        volumeInc := hvolInc
        prevVolume := by
          dsimp only
          rw [if_pos rfl]
          dsimp only
          split_ifs with h₁ h₂ h₂
          · exact toInt_gain r.new_le
          · exact absurd (hzero.mp h₁) h₂
          · exact absurd (hzero.mpr h₂) h₁
          · exact toInt_gain r.old_le }

/-- The ramp is over. -/
structure Settled (r : Slope) (c : Channel) : Prop where
  volume : c.volume.toInt = r.new
  volumeInc : c.volumeInc = 0#32
  prevVolume : c.prevVolume.toInt = r.new * 65536

/-- `a` frames of the ramp are mixed. -/
structure Moving (r : Slope) (a : ℕ) (c : Channel) : Prop where
  volume : c.volume.toInt = r.new
  volumeInc : c.volumeInc.toInt = r.inc
  prevVolume : c.prevVolume.toInt = r.old * 65536 + a * r.inc

variable (r) in
/-- The gain is not at the new volume. -/
def Short (g : ℤ) : Prop := r.old ≠ r.new ∧ (r.old ≤ r.new → g < r.new) ∧ (r.new ≤ r.old → r.new < g)

variable {a : ℕ} {c : Channel}

theorem Moving.next (h : r.Moving a c) (hwithin : r.Within (a * r.inc)) :
    r.Moving (a + 1) { c with prevVolume := c.prevVolume + c.volumeInc } where
  volume := h.volume
  volumeInc := h.volumeInc
  prevVolume := by
    have hinc := r.natAbs_inc_le
    have hchange := r.natAbs_change_le
    have hold := r.old_le
    unfold MAX_GAIN_INT at hold
    have hsum : ((a + 1 : ℕ) : ℤ) * r.inc = a * r.inc + r.inc := by
      push_cast
      ring
    obtain ⟨hlo, hhi⟩ := hwithin
    dsimp only
    rw [toInt_add_gain (by rw [h.prevVolume, h.volumeInc]; omega)
      (by rw [h.prevVolume, h.volumeInc]; omega), h.prevVolume, h.volumeInc, hsum, add_assoc]

theorem Moving.gain (h : r.Moving a c) :
    (c.prevVolume.sshiftRight 16).toInt = r.gainAt (a * r.inc) := by
  rw [toInt_sshiftRight_gain, h.prevVolume]
  rfl

/-- The gains of a chunk whose last frame stays between the volumes. -/
theorem Moving.ramp (h : r.Moving a c) {n : ℕ} (hwithin : r.Within ((a + n : ℕ) * r.inc)) :
    (c.ramp (n + 1)).2.map BitVec.toInt =
        (List.range (n + 1)).map (fun j => r.gainAt ((a + j : ℕ) * r.inc)) ∧
      r.Moving (a + n + 1) (c.ramp (n + 1)).1 := by
  have hfirst : r.Within (a * r.inc) := hwithin.of_beyond (beyond_mul (Nat.le_add_right a n) r.inc)
  induction n generalizing a c with
  | zero => exact ⟨congrArg (fun g => [g]) h.gain, h.next hfirst⟩
  | succ n ih =>
    have hcomm (j : ℕ) : a + 1 + j = a + (j + 1) := by omega
    have hnext := h.next hfirst
    rw [← hcomm] at hwithin
    obtain ⟨hgains, hmoving⟩ := ih hnext hwithin
      (hwithin.of_beyond (beyond_mul (Nat.le_add_right _ n) r.inc))
    refine ⟨?_, ?_⟩
    · rw [List.range_succ_eq_map, List.map_cons, List.map_map]
      simp only [hcomm] at hgains
      exact congrArg₂ List.cons h.gain hgains
    · rw [hcomm] at hmoving
      exact hmoving

/-- A chunk whose gains lie between the volumes ends between them. -/
theorem Moving.within (h : r.Moving a c) (hfirst : r.Within (a * r.inc)) {n : ℕ}
    (hbetween : ∀ g ∈ (c.ramp (n + 1)).2.map BitVec.toInt,
      r.Toward r.old g ∧ r.Toward g r.new) : r.Within ((a + n : ℕ) * r.inc) := by
  induction n generalizing a c with
  | zero => exact hfirst
  | succ n ih =>
    have hcomm : a + 1 + n = a + (n + 1) := by omega
    have hnext := h.next hfirst
    have hsecond : r.Within ((a + 1 : ℕ) * r.inc) := by
      rw [within_iff, ← hnext.gain]
      exact hbetween _ (by simp [Channel.ramp])
    rw [← hcomm]
    exact ih hnext hsecond fun g hg => hbetween g (List.mem_cons_of_mem _ hg)

theorem Settled.adjustVolumeRamp (h : r.Settled c) : c.adjustVolumeRamp = c := by
  have hinc := h.volumeInc
  unfold Channel.adjustVolumeRamp adjustRamp
  rw [hinc, if_neg (by simp)]
  cases c
  cases hinc
  rfl

theorem Settled.ramp (h : r.Settled c) (n : ℕ) :
    (c.ramp n).1 = c ∧ (c.ramp n).2.map BitVec.toInt = List.replicate n (r.new : ℤ) := by
  have hsame : { c with prevVolume := c.prevVolume + c.volumeInc } = c := by
    rw [h.volumeInc, BitVec.add_zero, ← h.volumeInc]
  have hgain : (c.prevVolume.sshiftRight 16).toInt = r.new := by
    rw [toInt_sshiftRight_gain, h.prevVolume]
    omega
  induction n with
  | zero => exact ⟨rfl, rfl⟩
  | succ n ih =>
    rw [Channel.ramp, hsame]
    exact ⟨ih.1, congrArg₂ List.cons hgain ih.2⟩

/-- A ramp that is over stays so, whatever else ramps. -/
theorem Settled.mix (h : r.Settled c) (n : ℕ) (others : Bool) :
    (c.mix n others).1 = c ∧
      (c.mix n others).2.map BitVec.toInt = List.replicate n (r.new : ℤ) := by
  obtain ⟨hsame, hgains⟩ := h.ramp n
  unfold Channel.mix
  split_ifs
  · refine ⟨?_, hgains⟩
    rw [hsame]
    exact h.adjustVolumeRamp
  · refine ⟨rfl, ?_⟩
    rw [List.map_replicate, BitVec.toInt_signExtend_of_le (by decide), h.volume]

/-- After a chunk the ramp is over, or the gain is still short of the new volume. -/
theorem Moving.adjustVolumeRamp (h : r.Moving (a + 1) c) (hinc : r.inc ≠ 0)
    (hlast : r.Within (a * r.inc)) :
    r.Settled c.adjustVolumeRamp ∨
      r.Moving (a + 1) c.adjustVolumeRamp ∧ r.Within ((a + 1 : ℕ) * r.inc) ∧
        r.Short (r.gainAt ((a + 1 : ℕ) * r.inc)) := by
  have hinc_le := r.natAbs_inc_le
  have hchange := r.natAbs_change_le
  have hold := r.old_le
  unfold MAX_GAIN_INT at hold
  have hsum : ((a + 1 : ℕ) : ℤ) * r.inc = a * r.inc + r.inc := by
    push_cast
    ring
  have hbeyond := beyond_mul (Nat.zero_le a) r.inc
  have hprev := h.prevVolume
  have hvolume : c.volume = BitVec.ofNat 16 r.new := by
    apply BitVec.eq_of_toInt_eq
    rw [h.volume, toInt_volume r.new_le]
  rw [Nat.cast_zero, Int.zero_mul] at hbeyond
  rw [hsum] at hprev ⊢
  -- the end of the ramp is looked for one frame ahead
  have hnext : ((c.prevVolume + c.volumeInc).sshiftRight 16).toInt =
      (r.old * 65536 + (a * r.inc + r.inc) + r.inc) / 65536 := by
    obtain ⟨hlo, hhi⟩ := hlast
    rw [toInt_sshiftRight_gain, toInt_add_gain (by rw [hprev, h.volumeInc]; lia)
      (by rw [hprev, h.volumeInc]; lia), hprev, h.volumeInc]
  unfold Channel.adjustVolumeRamp adjustRamp
  dsimp only
  rw [hnext, h.volumeInc, h.volume]
  split_ifs with hend
  · left
    refine ⟨h.volume, rfl, ?_⟩
    dsimp only
    rw [hvolume, signExtend_volume r.new_le, toInt_gain r.new_le]
  · right
    refine ⟨⟨h.volume, h.volumeInc, h.prevVolume⟩, ?_⟩
    unfold Within Short gainAt Beyond change at *
    lia

end Slope

/-! ## The frames of many calls -/

/-- A channel with the gain of every frame so far. -/
structure Fader where
  channel : Channel
  gains : List ℤ
  /-- How many frames the hooks have mixed. -/
  frames : ℕ
  /-- A chunk was mixed at the new volume before the end of the ramp. -/
  skipped : Bool

def Fader.start (c : Channel) : Fader where
  channel := c
  gains := []
  frames := 0
  skipped := false

/-- A chunk of frames goes to a hook, or to the path for one track, which knows no ramp. -/
inductive FaderEvent
  | hook (frameCount : ℕ) (others : Bool)
  | oneTrack (frameCount : ℕ)

def faderStep (s : Fader) : FaderEvent → Option Fader
  | .hook frameCount others =>
    if 0 < frameCount then
      some
        { s with
          channel := (s.channel.mix frameCount others).1
          gains := s.gains ++ (s.channel.mix frameCount others).2.map BitVec.toInt
          frames := s.frames + frameCount }
    else none
  | .oneTrack frameCount =>
    if 0 < frameCount then
      some
        { s with
          gains := s.gains ++ List.replicate frameCount s.channel.volume.toInt
          skipped := s.skipped || s.channel.volumeInc ≠ 0#32 }
    else none

/-- A chunk of an unfinished ramp is not the first after one at the new volume, and its last frame
stays between the volumes. -/
def Slope.Fits (r : Slope) (s : Fader) : FaderEvent → Prop
  | .hook frameCount _ => s.channel.volumeInc ≠ 0#32 →
      s.skipped = false ∧ r.Within ((s.frames + (frameCount - 1) : ℕ) * r.inc)
  | .oneTrack _ => True

instance (r : Slope) (s : Fader) (e : FaderEvent) : Decidable (r.Fits s e) :=
  match e with
  | .hook frameCount _ => inferInstanceAs (Decidable (_ → _ ∧ r.Within
      ((s.frames + (frameCount - 1) : ℕ) * r.inc)))
  | .oneTrack _ => inferInstanceAs (Decidable True)

namespace Slope

variable {r : Slope}

/-- The gains so far are as they should be, and so is what the next chunk starts from. -/
structure Inv (r : Slope) (s : Fader) : Prop where
  steady : r.Steady s.gains
  next : r.Settled s.channel ∨
    r.inc ≠ 0 ∧ r.Moving s.frames s.channel ∧ r.Within (s.frames * r.inc) ∧
      r.Short (r.gainAt (s.frames * r.inc)) ∧
      (s.skipped = false → ∀ g ∈ s.gains, r.Toward g (r.gainAt (s.frames * r.inc))) ∧
      (s.skipped = true → (r.new : ℤ) ∈ s.gains)

theorem Steady.append {gains gains' : List ℤ} (h : r.Steady gains)
    (hbetween : ∀ g ∈ gains', r.Toward r.old g ∧ r.Toward g r.new)
    (hordered : gains'.Pairwise r.Toward) (hnext : ∀ g ∈ gains, ∀ g' ∈ gains', r.Toward g g') :
    r.Steady (gains ++ gains') where
  between := by
    intro g hg
    rcases List.mem_append.mp hg with hg | hg
    · exact h.between g hg
    · exact hbetween g hg
  ordered := List.pairwise_append.mpr ⟨h.ordered, hordered, hnext⟩

theorem toward_refl (g : ℤ) : r.Toward g g := ⟨fun _ => le_rfl, fun _ => le_rfl⟩

theorem Toward.trans {g g' g'' : ℤ} (h : r.Toward g g') (h' : r.Toward g' g'') :
    r.Toward g g'' :=
  ⟨fun hle => (h.1 hle).trans (h'.1 hle), fun hle => (h'.2 hle).trans (h.2 hle)⟩

theorem toward_new : r.Toward r.old r.new := by
  unfold Toward
  omega

/-- Frames at the new volume always fit. -/
theorem Steady.append_new {gains : List ℤ} (h : r.Steady gains) (n : ℕ) :
    r.Steady (gains ++ List.replicate n (r.new : ℤ)) := by
  refine h.append ?_ ?_ ?_
  · intro g hg
    rw [List.eq_of_mem_replicate hg]
    exact ⟨toward_new, toward_refl _⟩
  · exact List.pairwise_replicate.mpr (Or.inr (toward_refl _))
  · intro g hg g' hg'
    rw [List.eq_of_mem_replicate hg']
    exact (h.between g hg).2

theorem Settled.of_ready {c : Channel} (h : r.Ready c) (hinc : r.inc = 0) : r.Settled c where
  volume := h.volume
  volumeInc := by
    apply BitVec.eq_of_toInt_eq
    rw [h.volumeInc, hinc]
    rfl
  prevVolume := by rw [h.prevVolume, if_pos hinc]

theorem inv_start {c : Channel} (h : r.Ready c) : r.Inv (.start c) where
  steady := ⟨nofun, List.Pairwise.nil⟩
  next := by
    by_cases hinc : r.inc = 0
    · exact Or.inl (.of_ready h hinc)
    · right
      have hne : r.old ≠ r.new := fun heq => hinc (inc_eq_zero heq)
      refine ⟨hinc, ⟨h.volume, h.volumeInc, ?_⟩, ?_, ?_, nofun, nofun⟩
      · have hprev := h.prevVolume
        rw [if_neg hinc] at hprev
        simpa [Fader.start] using hprev
      · unfold Within
        simp only [Fader.start, Nat.cast_zero, Int.zero_mul]
        omega
      · unfold Short gainAt
        simp only [Fader.start, Nat.cast_zero, Int.zero_mul]
        omega

theorem Moving.volumeInc_ne {a : ℕ} {c : Channel} (h : r.Moving a c) (hinc : r.inc ≠ 0) :
    c.volumeInc ≠ 0#32 := by
  intro hzero
  have hint := h.volumeInc
  rw [hzero] at hint
  exact hinc hint.symm

/-- A chunk of a ramp that has not ended. -/
theorem Inv.hook {s : Fader} (hsteady : r.Steady s.gains) (hinc : r.inc ≠ 0)
    (hmoving : r.Moving s.frames s.channel)
    (hbefore : ∀ g ∈ s.gains, r.Toward g (r.gainAt (s.frames * r.inc))) {n : ℕ}
    (hwithin : r.Within ((s.frames + n : ℕ) * r.inc)) (hskipped : s.skipped = false) :
    r.Inv
      { s with
        channel := (s.channel.ramp (n + 1)).1.adjustVolumeRamp
        gains := s.gains ++ (s.channel.ramp (n + 1)).2.map BitVec.toInt
        frames := s.frames + (n + 1) } := by
  obtain ⟨hgains, hlast⟩ := hmoving.ramp hwithin
  have htoward {i j : ℕ} (hij : i ≤ j) (hj : j ≤ n) :
      r.Toward (r.gainAt ((s.frames + i : ℕ) * r.inc)) (r.gainAt ((s.frames + j : ℕ) * r.inc)) :=
    (hwithin.of_beyond (beyond_mul (Nat.add_le_add_left hj _) r.inc)).toward
      (beyond_mul (Nat.add_le_add_left hij _) r.inc)
  have hsteady' : r.Steady (s.gains ++ (s.channel.ramp (n + 1)).2.map BitVec.toInt) := by
    rw [hgains]
    refine hsteady.append ?_ ?_ ?_
    · intro g hg
      obtain ⟨j, hj, rfl⟩ := List.mem_map.mp hg
      have hle := Nat.le_of_lt_succ (List.mem_range.mp hj)
      exact (within_iff _).mp
        (hwithin.of_beyond (beyond_mul (Nat.add_le_add_left hle _) r.inc))
    · rw [List.pairwise_map]
      refine List.pairwise_lt_range.imp_of_mem fun hi hj hlt => ?_
      exact htoward hlt.le (Nat.le_of_lt_succ (List.mem_range.mp hj))
    · intro g hg g' hg'
      obtain ⟨j, hj, rfl⟩ := List.mem_map.mp hg'
      exact (hbefore g hg).trans (htoward (Nat.zero_le j) (Nat.le_of_lt_succ (List.mem_range.mp hj)))
  refine ⟨hsteady', ?_⟩
  rcases hlast.adjustVolumeRamp hinc hwithin with hsettled | ⟨hmoving', hwithin', hshort⟩
  · exact Or.inl hsettled
  · right
    refine ⟨hinc, hmoving', hwithin', hshort, fun _ g hg => ?_, fun hskip => ?_⟩
    · have hlater {j : ℕ} (hj : j ≤ n + 1) : r.Toward (r.gainAt ((s.frames + j : ℕ) * r.inc))
          (r.gainAt ((s.frames + n + 1 : ℕ) * r.inc)) :=
        hwithin'.toward (beyond_mul (Nat.add_le_add_left hj s.frames) r.inc)
      rcases List.mem_append.mp hg with hg | hg
      · exact (hbefore g hg).trans (hlater (Nat.zero_le _))
      · rw [hgains] at hg
        obtain ⟨j, hj, rfl⟩ := List.mem_map.mp hg
        exact hlater (List.mem_range.mp hj).le
    · exact absurd (hskipped.symm.trans hskip) nofun

theorem inv_step (s : Fader) (e : FaderEvent) (s' : Fader) (hok : r.Fits s e)
    (hstep : faderStep s e = some s') (h : r.Inv s) : r.Inv s' := by
  cases e with
  | hook n others =>
    simp only [faderStep, Option.ite_none_right_eq_some, Option.some.injEq] at hstep
    obtain ⟨hpos, rfl⟩ := hstep
    obtain ⟨n, rfl⟩ := Nat.exists_eq_succ_of_ne_zero hpos.ne'
    rcases h.next with hsettled | ⟨hinc, hmoving, hwithin, hshort, hbefore, -⟩
    · obtain ⟨hsame, hgains⟩ := hsettled.mix (n + 1) others
      rw [hsame, hgains]
      exact ⟨h.steady.append_new (n + 1), Or.inl hsettled⟩
    · have hon := hmoving.volumeInc_ne hinc
      obtain ⟨hskipped, hlast⟩ := hok hon
      rw [Nat.succ_sub_one] at hlast
      have hmix : s.channel.mix (n + 1) others =
          ((s.channel.ramp (n + 1)).1.adjustVolumeRamp, (s.channel.ramp (n + 1)).2) :=
        if_pos (Or.inl hon)
      rw [hmix]
      exact Inv.hook h.steady hinc hmoving (hbefore hskipped) hlast hskipped
  | oneTrack n =>
    simp only [faderStep, Option.ite_none_right_eq_some, Option.some.injEq] at hstep
    obtain ⟨hpos, rfl⟩ := hstep
    rcases h.next with hsettled | ⟨hinc, hmoving, hwithin, hshort, hbefore, hnew⟩
    · rw [hsettled.volume]
      exact ⟨h.steady.append_new n, Or.inl hsettled⟩
    · rw [hmoving.volume]
      refine ⟨h.steady.append_new n, Or.inr ⟨hinc, hmoving, hwithin, hshort, fun hskip => ?_,
        fun _ => ?_⟩⟩
      · simp [hmoving.volumeInc_ne hinc] at hskip
      · exact List.mem_append_right _ (List.mem_replicate.mpr ⟨hpos.ne', rfl⟩)

/-- A chunk that does not fit is heard. -/
theorem not_steady_of_not_fits (s : Fader) (e : FaderEvent) (s' : Fader) (hok : ¬ r.Fits s e)
    (hstep : faderStep s e = some s') (h : r.Inv s) : ¬ r.Steady s'.gains := by
  cases e with
  | hook n others =>
    simp only [faderStep, Option.ite_none_right_eq_some, Option.some.injEq] at hstep
    obtain ⟨hpos, rfl⟩ := hstep
    obtain ⟨n, rfl⟩ := Nat.exists_eq_succ_of_ne_zero hpos.ne'
    simp only [Fits, Classical.not_imp, Nat.succ_sub_one] at hok
    obtain ⟨hon, hnot⟩ := hok
    rcases h.next with hsettled | ⟨hinc, hmoving, hwithin, hshort, -, hnew⟩
    · exact absurd hsettled.volumeInc hon
    · have hmix : s.channel.mix (n + 1) others =
          ((s.channel.ramp (n + 1)).1.adjustVolumeRamp, (s.channel.ramp (n + 1)).2) :=
        if_pos (Or.inl hon)
      rw [hmix]
      intro hsteady
      refine hnot ⟨?_, ?_⟩
      · -- after the new volume the ramp goes back to its own gain
        by_contra hskip
        have hmem := hnew (Bool.eq_true_of_not_eq_false hskip)
        have hback := (List.pairwise_append.mp hsteady.ordered).2.2 _ hmem
          (r.gainAt (s.frames * r.inc)) (by rw [← hmoving.gain]; simp [Channel.ramp])
        unfold Toward at hback
        unfold Short at hshort
        omega
      · exact hmoving.within hwithin fun g hg =>
          hsteady.between g (List.mem_append_right _ hg)
  | oneTrack n => exact absurd trivial hok

theorem not_steady_step (s : Fader) (e : FaderEvent) (s' : Fader) (hstep : faderStep s e = some s')
    (h : ¬ r.Steady s.gains) : ¬ r.Steady s'.gains := by
  have hgrow : ∃ gains, s'.gains = s.gains ++ gains := by
    cases e with
    | hook n others =>
      simp only [faderStep, Option.ite_none_right_eq_some, Option.some.injEq] at hstep
      obtain ⟨-, rfl⟩ := hstep
      exact ⟨_, rfl⟩
    | oneTrack n =>
      simp only [faderStep, Option.ite_none_right_eq_some, Option.some.injEq] at hstep
      obtain ⟨-, rfl⟩ := hstep
      exact ⟨_, rfl⟩
  obtain ⟨gains, hgains⟩ := hgrow
  intro hsteady
  rw [hgains] at hsteady
  exact h ⟨fun g hg => hsteady.between g (List.mem_append_left _ hg),
    (List.pairwise_append.mp hsteady.ordered).1⟩

/-- The gains so far are as they should be, and a ramp that is at its end has stopped there. -/
structure Ramped (r : Slope) (s : Fader) : Prop where
  steady : r.Steady s.gains
  finished : s.channel.volumeInc = 0#32 ∨ (s.channel.prevVolume.sshiftRight 16).toInt = r.new →
    s.channel.volumeInc = 0#32 ∧ s.channel.prevVolume = BitVec.ofNat 32 r.new <<< 16

theorem Inv.ramped {s : Fader} (h : r.Inv s) : r.Ramped s where
  steady := h.steady
  finished := by
    intro hend
    rcases h.next with hsettled | ⟨hinc, hmoving, -, hshort, -⟩
    · refine ⟨hsettled.volumeInc, ?_⟩
      apply BitVec.eq_of_toInt_eq
      rw [hsettled.prevVolume, toInt_gain r.new_le]
    · rcases hend with hzero | hgain
      · exact absurd hzero (hmoving.volumeInc_ne hinc)
      · rw [hmoving.gain] at hgain
        unfold Short at hshort
        omega

end Slope

/-- From the `setParameter` on, the gains approach the new volume without passing it, and the ramp
stops there, exactly when no chunk of an unfinished ramp takes it past the new volume or comes after
a chunk at the new volume. -/
theorem volumeRamp_ramped (r : Slope) {c : Channel} (h : r.Starts c) (es : List FaderEvent) (s : Fader)
    (hrun : run faderStep
      (.start (c.setParameter r.mFrameCount true (BitVec.ofNat 32 r.new))) es = some s) :
    r.Ramped s ↔ Along faderStep r.Fits
      (.start (c.setParameter r.mFrameCount true (BitVec.ofNat 32 r.new))) es := by
  have hsteady := run_iff_along (P := fun s => r.Steady s.gains) (fun _ hs => Slope.Inv.steady hs)
    Slope.inv_step Slope.not_steady_of_not_fits Slope.not_steady_step hrun
    (Slope.inv_start (Slope.ready_setParameter h))
  constructor
  · intro hramped
    exact hsteady.mp hramped.steady
  · intro hfits
    have hinv := run_invariant_along Slope.inv_step hfits hrun
      (Slope.inv_start (Slope.ready_setParameter h))
    exact hinv.ramped

/-- A call of `process` mixes 960 frames, which leaves a change of 136 steps from 0 to 2 out. -/
def upToTwo : Slope where
  mFrameCount := 960#32
  old := 0
  new := 2
  frameCount_ne := by decide
  old_le := by decide
  new_le := by decide

def silent : Channel where
  volume := 0#16
  prevVolume := 0#32
  volumeInc := 0#32

theorem upToTwo_starts : upToTwo.Starts silent where
  volume := rfl
  settled := nofun

/-- Two calls of `process`, the second in chunks of up to three frames. -/
theorem volumeRamp_ramped_twoCalls : ∃ s,
    run faderStep (.start (silent.setParameter 960#32 true 2#32))
      [.hook 400 false, .hook 560 true, .hook 1 false, .hook 3 false, .oneTrack 8] = some s ∧
      upToTwo.Ramped s := by
  obtain ⟨s, hs⟩ := Option.isSome_iff_exists.mp
    (show (run faderStep (.start (silent.setParameter 960#32 true 2#32))
      [.hook 400 false, .hook 560 true, .hook 1 false, .hook 3 false, .oneTrack 8]).isSome = true by
      decide +kernel)
  exact ⟨s, hs, (volumeRamp_ramped upToTwo upToTwo_starts _ s hs).mpr (by decide +kernel)⟩

/-- The second call of `process` is one chunk, and its last frames have the gain 3. -/
theorem secondCall_overshoots : ∃ s,
    run faderStep (.start (silent.setParameter 960#32 true 2#32))
      [.hook 960 false, .hook 960 false] = some s ∧ 3 ∈ s.gains ∧ ¬ upToTwo.Ramped s := by
  have hgains : (run faderStep (.start (silent.setParameter 960#32 true 2#32))
      [.hook 960 false, .hook 960 false]).map (fun s => decide ((3 : ℤ) ∈ s.gains)) = some true := by
    decide +kernel
  obtain ⟨s, hs, hthree⟩ := Option.map_eq_some_iff.mp hgains
  rw [decide_eq_true_eq] at hthree
  refine ⟨s, hs, hthree, fun hramped => ?_⟩
  have hlast := (hramped.steady.between 3 hthree).2
  unfold Slope.Toward at hlast
  exact absurd (hlast.1 (by decide)) (by decide)

end AudioFlinger.Mixer
