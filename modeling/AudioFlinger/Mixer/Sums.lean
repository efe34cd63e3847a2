import AudioFlinger.Foundation.Words
import AudioFlinger.Mixer.Voice

/-!
# The sums of a frame

At constant gain a track adds the product of its sample and its gain to each
of the two sums of a frame. The sums are words of 32 bits, of which the upper
20 are clamped to a sample of 16.
-/

namespace AudioFlinger.Mixer

open Foundation Accumulator

/-! ## Channels -/

def half (left : Bool) (rl : U32) : I16 := if left then leftHalf rl else rightHalf rl

def channel (left : Bool) (sums : I32 × I32) : I32 := if left then sums.1 else sums.2

theorem leftHalf_packRL (l r : I32) : leftHalf (packRL l r) = l.setWidth 16 := by
  apply BitVec.eq_of_getLsbD_eq
  intro i hi
  have hmask : (0xFFFF#32).getLsbD i = true := by
    rw [BitVec.getLsbD_ofNat, show 0xFFFF = 2 ^ 16 - 1 from rfl, Nat.testBit_two_pow_sub_one]
    simp only [decide_eq_true_eq, Bool.and_eq_true]
    omega
  rw [leftHalf, packRL, BitVec.getLsbD_setWidth, BitVec.getLsbD_or, BitVec.getLsbD_shiftLeft,
    BitVec.getLsbD_and, hmask, BitVec.getLsbD_setWidth]
  simp [hi]

theorem rightHalf_packRL (l r : I32) : rightHalf (packRL l r) = r.setWidth 16 := by
  apply BitVec.eq_of_getLsbD_eq
  intro i hi
  have hmask : (0xFFFF#32).getLsbD (16 + i) = false := by
    rw [BitVec.getLsbD_ofNat, show 0xFFFF = 2 ^ 16 - 1 from rfl, Nat.testBit_two_pow_sub_one]
    simp
  have hin : 16 + i < 32 := by omega
  rw [rightHalf, packRL, BitVec.getLsbD_setWidth, BitVec.getLsbD_ushiftRight, BitVec.getLsbD_or,
    BitVec.getLsbD_shiftLeft, BitVec.getLsbD_and, hmask, BitVec.getLsbD_setWidth]
  simp [hi, hin]

theorem setWidth_signExtend (x : I16) : (x.signExtend 32).setWidth 16 = x := by
  apply BitVec.eq_of_getLsbD_eq
  intro i hi
  have hin : i < 32 := by omega
  rw [BitVec.getLsbD_setWidth, BitVec.getLsbD_signExtend, if_pos hi]
  simp [hi, hin]

/-- Each sample written is its sum without the fraction, clamped. -/
theorem half_ditherAndClampFrame (left : Bool) (sums : I32 × I32) :
    half left (ditherAndClampFrame sums) = clamp16 ((channel left sums).sshiftRight 12) := by
  cases left
  · rw [half, if_neg Bool.false_ne_true, ditherAndClampFrame, rightHalf_packRL, setWidth_signExtend]
    rfl
  · rw [half, if_pos rfl, ditherAndClampFrame, leftHalf_packRL, setWidth_signExtend]
    rfl

/-! ## Products -/

def Track.gain (t : Track) (left : Bool) : ℤ := (half left t.volumeRL).toInt

/-- The sample of a frame that goes to a channel; both get the one of a mono frame. -/
def Track.sample (t : Track) (left : Bool) (rl : U32) : ℤ :=
  match t.hook with
  | .track__16BitsMono => (leftHalf rl).toInt
  | _ => (half left rl).toInt

/-- What a track adds to a channel for a frame, nothing when it has none. -/
def Track.product (t : Track) (left : Bool) (rl : Option U32) : ℤ :=
  (rl.map fun rl => t.sample left rl * t.gain left).getD 0

/-- A track at constant gain between silence and unity. -/
structure Track.Constant (t : Track) : Prop where
  ramps : t.ramps (decide t.Sends) = false
  muted : t.hook = .track__nop → t.volumeRL = 0#32
  gain : ∀ left, 0 ≤ t.gain left ∧ t.gain left ≤ UNITY_GAIN.toInt

theorem Track.Constant.volumeInc {t : Track} (h : t.Constant) : t.volumeInc = (0#32, 0#32) := by
  have hramps := h.ramps
  simp only [Track.ramps, ne_eq, decide_not, Bool.not_eq_eq_eq_not, Bool.not_false,
    decide_eq_true_eq, BitVec.or_eq_zero_iff] at hramps
  exact Prod.ext hramps.1.1 hramps.1.2

/-- Add a frame to the sums, as a hook does. -/
def addFrame (sums : I32 × I32) (add : Sums → Sums) : I32 × I32 :=
  ((add { left := sums.1, right := sums.2, aux := 0#32 }).left,
    (add { left := sums.1, right := sums.2, aux := 0#32 }).right)

theorem ofInt_product (s v : I16) :
    s.signExtend 32 * v.signExtend 32 = BitVec.ofInt 32 (s.toInt * v.toInt) := by
  rw [← toInt_product, BitVec.ofInt_toInt]

theorem Track.Constant.channel_add {t : Track} (h : t.Constant) (left : Bool) (sums : I32 × I32)
    (rl : U32) :
    channel left (addFrame sums (t.add rl)) =
      channel left sums + BitVec.ofInt 32 (t.sample left rl * t.gain left) := by
  have hkind : t.hook = .track__nop ∨ t.hook = .track__16BitsMono ∨
      t.hook = .track__16BitsStereo := by
    cases t.hook <;> simp
  rcases hkind with hhook | hhook | hhook
  · have hadd : t.add = fun _ sums => sums := by rw [Track.add, hhook]
    have hgain : t.gain left = 0 := by
      rw [Track.gain, h.muted hhook]
      cases left <;> rfl
    rw [hadd, hgain, Int.mul_zero]
    simp [channel, addFrame]
  · have hadd : t.add = constantMono t := by rw [Track.add, hhook]
    have hsample : t.sample left rl = (leftHalf rl).toInt := by rw [Track.sample, hhook]
    rw [hadd, hsample, Track.gain, ← ofInt_product]
    cases left <;> rfl
  · have hadd : t.add = constantStereo t := by rw [Track.add, hhook]
    have hsample : t.sample left rl = (half left rl).toInt := by rw [Track.sample, hhook]
    rw [hadd, hsample, Track.gain, ← ofInt_product]
    cases left <;> rfl

/-! ## Voices together -/

/-- What a track adds for a frame, and the frames that come. -/
abbrev Part := (U32 → Sums → Sums) × List U32

/-- The sums of frame `k`. -/
def sumsAt (parts : List Part) (k : ℕ) (sums : I32 × I32) : I32 × I32 :=
  parts.foldl (fun sums part => (part.2[k]?.map fun rl => addFrame sums (part.1 rl)).getD sums) sums

/-- A block of each part. -/
def Part.block (part : Part) (p : ℕ) : List (Sums → Sums) :=
  ((part.2.drop p).take BLOCKSIZE).map part.1

theorem getElem?_addOut (out : List (I32 × I32)) (adds : List (Sums → Sums)) (k : ℕ) :
    (addOut out adds)[k]? =
      out[k]?.map fun sums => (adds[k]?.map fun add => addFrame sums add).getD sums := by
  induction out generalizing adds k with
  | nil => rfl
  | cons sums out ih =>
    cases adds with
    | nil => simp [addOut]
    | cons add adds =>
      cases k with
      | zero => rfl
      | succ k => simpa [addOut] using ih adds k

theorem length_foldl_addOut (parts : List Part) (p : ℕ) (out : List (I32 × I32)) :
    (parts.foldl (fun out part => addOut out (part.block p)) out).length = out.length := by
  induction parts generalizing out with
  | nil => rfl
  | cons part parts ih => rw [List.foldl_cons, ih, addOut_length]

theorem getElem?_foldl_addOut (parts : List Part) (p : ℕ) (out : List (I32 × I32)) {k : ℕ}
    (hk : k < BLOCKSIZE) :
    (parts.foldl (fun out part => addOut out (part.block p)) out)[k]? =
      out[k]?.map (sumsAt parts (p + k)) := by
  induction parts generalizing out with
  | nil =>
    have hid : sumsAt [] (p + k) = id := rfl
    rw [hid, Option.map_id]
    rfl
  | cons part parts ih =>
    have hblock : (part.block p)[k]? = part.2[p + k]?.map part.1 := by
      rw [Part.block, List.getElem?_map, List.getElem?_take_of_lt hk, List.getElem?_drop]
    rw [List.foldl_cons, ih, getElem?_addOut, hblock, Option.map_map]
    congr 1
    funext sums
    simp [sumsAt, Function.comp_def]

/-- The words of `n` frames from `p` on. -/
def mixedWords (parts : List Part) (p n : ℕ) : List U32 :=
  (List.range n).map fun k => ditherAndClampFrame (sumsAt parts (p + k) (0#32, 0#32))

theorem mixedWords_length (parts : List Part) (p n : ℕ) : (mixedWords parts p n).length = n := by
  simp [mixedWords]

theorem mixedWords_append (parts : List Part) (p n m : ℕ) :
    mixedWords parts p n ++ mixedWords parts (p + n) m = mixedWords parts p (n + m) := by
  rw [mixedWords, mixedWords, mixedWords, List.range_add, List.map_append, List.map_map]
  refine congrArg _ (List.map_congr_left fun k _ => ?_)
  rw [Function.comp_apply, Nat.add_assoc]

/-- The words of a block are those of the sums of its frames. -/
theorem ditherAndClamp_block (parts : List Part) (p : ℕ) :
    ditherAndClamp (parts.foldl (fun out part => addOut out (part.block p))
      (List.replicate BLOCKSIZE (0#32, 0#32))) = mixedWords parts p BLOCKSIZE := by
  apply List.ext_getElem?
  intro k
  rw [ditherAndClamp, List.getElem?_map]
  by_cases hk : k < BLOCKSIZE
  · rw [getElem?_foldl_addOut parts p _ hk, List.getElem?_replicate_of_lt hk, mixedWords,
      List.getElem?_map, List.getElem?_range hk]
    rfl
  · have hlen := length_foldl_addOut parts p (List.replicate BLOCKSIZE (0#32, 0#32))
    rw [List.length_replicate] at hlen
    rw [List.getElem?_eq_none (by omega), List.getElem?_eq_none (by rw [mixedWords_length]; omega)]
    rfl

/-- The sums are the sums of the products, modulo `2 ^ 32`. -/
theorem channel_sumsAt (l : List (Track × List U32)) (hconstant : ∀ v ∈ l, v.1.Constant)
    (left : Bool) (k : ℕ) (sums : I32 × I32) :
    channel left (sumsAt (l.map fun v => (v.1.add, v.2)) k sums) =
      accumulate (channel left sums) (l.map fun v => v.1.product left v.2[k]?) := by
  induction l generalizing sums with
  | nil => rfl
  | cons v l ih =>
    have hstep : channel left ((v.2[k]?.map fun rl => addFrame sums (v.1.add rl)).getD sums) =
        channel left sums + BitVec.ofInt 32 (v.1.product left v.2[k]?) := by
      cases v.2[k]? with
      | none => simp [Track.product]
      | some rl => exact (hconstant v List.mem_cons_self).channel_add left sums rl
    change channel left (sumsAt _ k ((v.2[k]?.map fun rl => addFrame sums (v.1.add rl)).getD sums)) = _
    rw [ih fun v hv => hconstant v (List.mem_cons_of_mem _ hv), hstep]
    rfl

end AudioFlinger.Mixer
