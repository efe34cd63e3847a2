import AudioFlinger.Mixer.Voice

/-!
# The path for one track and the general path

For one stereo track at constant gain the two paths take the same chunks from
its provider and write the same words for the frames that come. They differ
when no frame comes: the general path then leaves the main buffer alone.
-/

namespace AudioFlinger.Mixer

open Foundation RingMemory Counter

/-! ## Words -/

theorem Mem.write_append (mem : Mem) (buffer pos : ℕ) (xs ys : List U32) :
    (mem.write buffer pos xs).write buffer (pos + xs.length) ys = mem.write buffer pos (xs ++ ys) := by
  unfold Mem.write
  rw [Function.update_idem, Function.update_self, blit_append]

theorem Mem.write_nil (mem : Mem) (buffer pos : ℕ) : mem.write buffer pos [] = mem := by
  unfold Mem.write
  rw [blit_nil, Function.update_eq_self]

theorem State.write_nil (s : State) (buffer pos : ℕ) : s.write buffer pos [] = s := by
  unfold State.write
  rw [Mem.write_nil]

theorem State.write_append (s : State) (buffer pos : ℕ) (xs ys : List U32) :
    (s.write buffer pos xs).write buffer (pos + xs.length) ys = s.write buffer pos (xs ++ ys) := by
  unfold State.write
  dsimp only
  rw [Mem.write_append]

/-- A 16-bit stereo track, muted or not. -/
def Track.Stereo (t : Track) : Prop :=
  t.hook = .track__16BitsStereo ∨ t.hook = .track__nop ∧ t.volumeRL = 0#32

theorem Track.Stereo.keeps {t t' : Track} (h : t.Stereo) (hkeeps : t.Keeps t') : t'.Stereo := by
  unfold Track.Stereo
  rw [hkeeps.hook, hkeeps.volumeRL]
  exact h

theorem mulRL_zero (left : Bool) (rl : U32) : mulRL left rl 0#32 = 0#32 := by
  cases left <;> exact BitVec.mul_zero

/-- A frame alone in its block comes out as in the other path. -/
theorem Track.Stereo.dither_add {t : Track} (h : t.Stereo) (rl : U32) :
    ditherAndClampFrame ((t.add rl { left := 0#32, right := 0#32, aux := 0#32 }).left,
      (t.add rl { left := 0#32, right := 0#32, aux := 0#32 }).right) =
      clampedFrame t.volumeRL rl := by
  rcases h with hhook | ⟨hhook, hmute⟩
  · have hadd : t.add = constantStereo t := by rw [Track.add, hhook]
    simp only [hadd, constantStereo, mulAddRL_eq, BitVec.zero_add]
    rfl
  · have hadd : t.add = fun _ sums => sums := by rw [Track.add, hhook]
    rw [hadd, hmute, clampedFrame, mulRL_zero, mulRL_zero]
    rfl

/-- The words of a block with the frames of one track. -/
theorem Track.Stereo.dither_block {t : Track} (h : t.Stereo) (n : ℕ) (frames : List U32)
    (hle : frames.length ≤ n) :
    ditherAndClamp (addOut (List.replicate n (0#32, 0#32)) (frames.map t.add)) =
      frames.map (clampedFrame t.volumeRL) ++ List.replicate (n - frames.length) 0#32 := by
  induction frames generalizing n with
  | nil =>
    rw [List.map_nil, addOut_nil, ditherAndClamp, List.map_replicate]
    rfl
  | cons rl frames ih =>
    obtain ⟨n, rfl⟩ : ∃ m, n = m + 1 := ⟨n - 1, by rw [List.length_cons] at hle; omega⟩
    have hrest := ih n (by simpa using hle)
    rw [ditherAndClamp] at hrest ⊢
    rw [List.replicate_succ, List.map_cons, addOut, List.map_cons, hrest, h.dither_add,
      List.map_cons, List.cons_append, List.length_cons, Nat.add_sub_add_right]

theorem selected_frame (vrl : U32) :
    (if boosted vrl then clampedFrame vrl else unclampedFrame vrl) = clampedFrame vrl := by
  split_ifs with h
  · rfl
  · exact funext (unclampedFrame_eq h)

/-! ## The path for one track -/

/-- What a path writes for the frames that come. -/
def output (vrl : U32) (n : ℕ) (frames : List U32) : List U32 :=
  frames.map (clampedFrame vrl) ++ List.replicate (n - frames.length) 0#32

theorem output_append (vrl : U32) (n : ℕ) (frames rest : List U32) :
    frames.map (clampedFrame vrl) ++ output vrl (n - frames.length) rest =
      output vrl n (frames ++ rest) := by
  rw [output, output, List.map_append, List.append_assoc, List.length_append, Nat.sub_sub]

theorem output_nil (vrl : U32) (n : ℕ) : output vrl n [] = List.replicate n 0#32 := rfl

theorem output_length (vrl : U32) {n : ℕ} {frames : List U32} (h : frames.length ≤ n) :
    (output vrl n frames).length = n := by
  rw [output, List.length_append, List.length_map, List.length_replicate]
  omega

/-- A block, and what comes after it. -/
theorem output_take (vrl : U32) (n m : ℕ) (frames : List U32) :
    output vrl n (frames.take n) ++ output vrl m (frames.drop n) = output vrl (n + m) frames := by
  by_cases hlong : n ≤ frames.length
  · have hlen : (frames.take n).length = n := by
      rw [List.length_take, Nat.min_eq_left hlong]
    have hall := output_append vrl (n + m) (frames.take n) (frames.drop n)
    rw [hlen, Nat.add_sub_cancel_left, List.take_append_drop] at hall
    rw [← hall, output, hlen, Nat.sub_self, List.replicate_zero, List.append_nil]
  · have hend : n - frames.length + m = n + m - frames.length := by omega
    rw [List.take_of_length_le (by omega), List.drop_of_length_le (by omega), output_nil, output,
      output, List.append_assoc, ← List.replicate_add, hend]

/-- One pass of the loop. -/
theorem oneTrackLoop_step {d : Demand} {p : ℕ} (hp : p < d.frameCount.toNat) {t : Track}
    (hrate : t.sampleRate = d.sampleRate) (mem : Mem) (fuel : ℕ) :
    oneTrackLoop d.sLocalTimeFreq d.pts (fuel + 1) t mem (BitVec.ofNat 32 p) (d.request p) =
      match t.getNextBuffer (d.request p) (d.outputPTS p) with
      | (none, t) =>
        some (t, mem.write t.mainBuffer p (output t.volumeRL (d.frameCount.toNat - p) []))
      | (some c, t) =>
        if c.misaligned then
          some (t, mem.write t.mainBuffer p (output t.volumeRL (d.frameCount.toNat - p) []))
        else
          oneTrackLoop d.sLocalTimeFreq d.pts fuel t.releaseBuffer
            (mem.write t.mainBuffer p (c.frames.map (clampedFrame t.volumeRL)))
            (BitVec.ofNat 32 p + BitVec.ofNat 32 c.frames.length)
            (d.request p - BitVec.ofNat 32 c.frames.length) := by
  have hlt := d.frameCount.isLt
  have hrequest := d.toNat_request p
  have hne : d.request p ≠ 0#32 := by
    intro hzero
    rw [hzero, BitVec.toNat_zero] at hrequest
    omega
  have hpts : calculateOutputPTS d.sLocalTimeFreq t.sampleRate d.pts (BitVec.ofNat 32 p) =
      d.outputPTS p := by
    rw [hrate]
    rfl
  have hpos : (BitVec.ofNat 32 p).toNat = p := by
    rw [BitVec.toNat_ofNat, Nat.mod_eq_of_lt (by omega)]
  rw [oneTrackLoop, if_neg hne]
  dsimp only
  rw [hpts, hpos, hrequest]
  simp only [selected_frame]
  rfl

/-- The path for one track writes what comes and then silence. -/
theorem oneTrackLoop_delivers {d : Demand}
    (haligned : ∀ calls p c, d.answer calls p = some c → c.misaligned = false)
    {calls calls' : List Call} {p : ℕ} {chunks : List (List U32)}
    (h : d.Delivers calls p chunks calls') (t : Track) (mem : Mem)
    (hprovider : t.bufferProvider = d.provider) (hrate : t.sampleRate = d.sampleRate)
    (hcalls : t.calls = calls) (fuel : ℕ) (hfuel : d.frameCount.toNat - p < fuel) :
    ∃ t', oneTrackLoop d.sLocalTimeFreq d.pts fuel t mem (BitVec.ofNat 32 p) (d.request p) =
        some (t', mem.write t.mainBuffer p
          (output t.volumeRL (d.frameCount.toNat - p) chunks.flatten)) ∧
      t'.calls = calls' := by
  induction h generalizing t mem fuel with
  | full calls =>
    obtain ⟨fuel, rfl⟩ : ∃ m, fuel = m + 1 := ⟨fuel - 1, by lia⟩
    have hzero : d.request d.frameCount.toNat = 0#32 := by
      rw [Demand.request, Nat.sub_self]
    refine ⟨t, ?_, hcalls⟩
    rw [oneTrackLoop, if_pos hzero, Nat.sub_self]
    exact congrArg (fun mem => some (t, mem)) (Mem.write_nil _ _ _).symm
  | @null calls p hp hnull =>
    obtain ⟨fuel, rfl⟩ : ∃ m, fuel = m + 1 := ⟨fuel - 1, by lia⟩
    generalize hget : t.getNextBuffer (d.request p) (d.outputPTS p) = r
    obtain ⟨answer, t'⟩ := r
    obtain ⟨hanswer, hcalls', -, hkeeps⟩ := Track.getNextBuffer_spec hprovider hget
    rw [hcalls, hnull] at hanswer
    subst hanswer
    refine ⟨t', ?_, by rw [hcalls', hcalls]⟩
    rw [oneTrackLoop_step hp hrate, hget]
    dsimp only
    rw [hkeeps.mainBuffer, hkeeps.volumeRL]
    rfl
  | @chunk calls calls' p c chunks hp hchunk hrest ih =>
    obtain ⟨fuel, rfl⟩ : ∃ m, fuel = m + 1 := ⟨fuel - 1, by lia⟩
    generalize hget : t.getNextBuffer (d.request p) (d.outputPTS p) = r
    obtain ⟨answer, t'⟩ := r
    obtain ⟨hanswer, hcalls', hbuffer, hkeeps⟩ := Track.getNextBuffer_spec hprovider hget
    rw [hcalls, hchunk] at hanswer
    subst hanswer
    rw [Option.map_some, Option.getD_some] at hbuffer
    obtain ⟨hpos, hle⟩ := d.chunk_length hchunk
    have hout : BitVec.ofNat 32 p + BitVec.ofNat 32 c.frames.length =
        BitVec.ofNat 32 (p + c.frames.length) := (BitVec.ofNat_add _ _).symm
    have hleft : d.request p - BitVec.ofNat 32 c.frames.length =
        d.request (p + c.frames.length) := by
      have hdiff := (counts_ofNat (w := 32) (d.frameCount.toNat - p)).sub
        (counts_ofNat c.frames.length) hle
      exact hdiff.congr (Nat.sub_sub _ _ _)
    obtain ⟨t'', hrun, hend⟩ := ih t'.releaseBuffer
      (mem.write t'.mainBuffer p (c.frames.map (clampedFrame t'.volumeRL)))
      (hkeeps.bufferProvider.trans hprovider) (hkeeps.sampleRate.trans hrate)
      (by rw [Track.releaseBuffer, hcalls', hbuffer, hcalls]) fuel (by lia)
    refine ⟨t'', ?_, hend⟩
    rw [oneTrackLoop_step hp hrate, hget]
    dsimp only
    rw [haligned _ _ _ hchunk, if_neg Bool.false_ne_true, hout, hleft, hrun]
    have hlen : (c.frames.map (clampedFrame t'.volumeRL)).length = c.frames.length :=
      List.length_map _
    have hbuffer' : t'.releaseBuffer.mainBuffer = t.mainBuffer := hkeeps.mainBuffer
    have hvolume' : t'.releaseBuffer.volumeRL = t.volumeRL := hkeeps.volumeRL
    rw [hbuffer', hvolume', hkeeps.mainBuffer, hkeeps.volumeRL]
    rw [hkeeps.volumeRL] at hlen
    rw [← hlen, Mem.write_append, hlen, ← Nat.sub_sub, output_append, List.flatten_cons]

/-! ## The general path -/

/-- The words of one block and the words of the blocks after it. -/
theorem State.write_output (s : State) (mainBuffer p : ℕ) (vrl : U32) {n : ℕ} (frames : List U32)
    (h : BLOCKSIZE ≤ n) :
    (s.write mainBuffer p (output vrl BLOCKSIZE (frames.take BLOCKSIZE))).write mainBuffer
        (p + BLOCKSIZE) (output vrl (n - BLOCKSIZE) (frames.drop BLOCKSIZE)) =
      s.write mainBuffer p (output vrl n frames) := by
  have happend := s.write_append mainBuffer p (output vrl BLOCKSIZE (frames.take BLOCKSIZE))
    (output vrl (n - BLOCKSIZE) (frames.drop BLOCKSIZE))
  rw [output_length vrl (List.length_take_le _ _), output_take, Nat.add_sub_cancel' h] at happend
  exact happend

theorem tracksOf_zero : tracksOf MAX_NUM_TRACKS 0#32 = [] := rfl

theorem single_bit : ∀ i : Fin MAX_NUM_TRACKS,
    tracksOf MAX_NUM_TRACKS (bit i) = [i] ∧ topTrack (bit i) = i ∧ bit i ≠ 0#32 := by
  decide +kernel

theorem tracksOf_bit (i : Fin MAX_NUM_TRACKS) : tracksOf MAX_NUM_TRACKS (bit i) = [i] :=
  (single_bit i).1

theorem topTrack_bit (i : Fin MAX_NUM_TRACKS) : topTrack (bit i) = i := (single_bit i).2.1

theorem bit_ne_zero (i : Fin MAX_NUM_TRACKS) : bit i ≠ 0#32 := (single_bit i).2.2

theorem bit_clear (i : Fin MAX_NUM_TRACKS) : bit i &&& ~~~bit i = 0#32 := BitVec.and_not_self _

theorem toNat_nextBlock {numFrames frameCount : U32}
    (hroom : numFrames.toNat + BLOCKSIZE ≤ frameCount.toNat) :
    (numFrames + BitVec.ofNat 32 BLOCKSIZE).toNat = numFrames.toNat + BLOCKSIZE := by
  have hlt := frameCount.isLt
  have hblock : (BitVec.ofNat 32 BLOCKSIZE).toNat = BLOCKSIZE := rfl
  rw [BitVec.toNat_add, hblock, Nat.mod_eq_of_lt (by omega)]

theorem block_after {n frameCount : ℕ} (hdvd : BLOCKSIZE ∣ frameCount - n)
    (hmore : n + BLOCKSIZE < frameCount) :
    BLOCKSIZE ∣ frameCount - (n + BLOCKSIZE) ∧ n + BLOCKSIZE + BLOCKSIZE ≤ frameCount := by
  unfold BLOCKSIZE at *
  omega

/-- Without a track every block is silent. -/
theorem mixBlocks_silent (pts : I64) (mainBuffer : ℕ) (enabledTracks : U32) (fuel : ℕ)
    (s : State) (numFrames : U32) (hdvd : BLOCKSIZE ∣ s.frameCount.toNat - numFrames.toNat)
    (hroom : numFrames.toNat + BLOCKSIZE ≤ s.frameCount.toNat)
    (hfuel : s.frameCount.toNat - numFrames.toNat < fuel) :
    mixBlocks pts mainBuffer fuel s enabledTracks 0#32 numFrames =
      some (s.write mainBuffer numFrames.toNat
        (List.replicate (s.frameCount.toNat - numFrames.toNat) 0#32), enabledTracks) := by
  induction fuel generalizing s numFrames with
  | zero => lia
  | succ fuel ih =>
    have hnext := toNat_nextBlock hroom
    have hblock : ditherAndClamp (List.replicate BLOCKSIZE (0#32, 0#32)) =
        List.replicate BLOCKSIZE 0#32 := by decide
    rw [mixBlocks, tracksOf_zero]
    simp only [List.foldlM_nil, Option.pure_def, Option.bind_some, hblock, BitVec.lt_def, hnext]
    split_ifs with hmore
    · obtain ⟨hdvd', hroom'⟩ := block_after hdvd hmore
      have hrest := ih (s.write mainBuffer numFrames.toNat (List.replicate BLOCKSIZE 0#32))
        (numFrames + BitVec.ofNat 32 BLOCKSIZE)
      simp only [State.write_frameCount, hnext] at hrest
      have hwritten := s.write_output mainBuffer numFrames.toNat 0#32 []
        (show BLOCKSIZE ≤ s.frameCount.toNat - numFrames.toNat by lia)
      rw [List.take_nil, List.drop_nil, output_nil, output_nil, output_nil, Nat.sub_sub] at hwritten
      rw [hrest hdvd' hroom' (by unfold BLOCKSIZE at *; lia), hwritten]
    · have hlast : s.frameCount.toNat - numFrames.toNat = BLOCKSIZE := by
        simp only [State.write_frameCount] at hmore
        lia
      rw [hlast]

/-- With one track the blocks take what it owes, and silence after that. -/
theorem mixBlocks_owes {d : Demand} {i : Fin MAX_NUM_TRACKS} {calls : List Call}
    (mainBuffer fuel : ℕ) (s : State) (numFrames : U32) (frames : List U32)
    (hcount : s.frameCount = d.frameCount) (hfreq : s.sLocalTimeFreq = d.sLocalTimeFreq)
    (hstereo : (s.tracks i).Stereo)
    (haux : (s.tracks i).needs &&& NEEDS_AUX__MASK ≠ NEEDS_AUX_ENABLED)
    (h : Owes d numFrames.toNat (s.tracks i) frames calls)
    (hdvd : BLOCKSIZE ∣ d.frameCount.toNat - numFrames.toNat)
    (hroom : numFrames.toNat + BLOCKSIZE ≤ d.frameCount.toNat)
    (hfuel : d.frameCount.toNat - numFrames.toNat + BLOCKSIZE + 1 < fuel) :
    ∃ (t : Track) (enabled : Bool),
      mixBlocks d.pts mainBuffer fuel s (bit i) (bit i) numFrames =
          some ((s.setTrack i t).write mainBuffer numFrames.toNat
              (output (s.tracks i).volumeRL (d.frameCount.toNat - numFrames.toNat) frames),
            if enabled then bit i else 0#32) ∧
        (if enabled then t.releaseBuffer else t).calls = calls := by
  induction fuel generalizing s numFrames frames with
  | zero => lia
  | succ fuel ih =>
    have hnext := toNat_nextBlock hroom
    have hle := h.length_le
    have hsend : ¬ (s.tracks i).Sends := haux
    have hramps : (s.tracks i).ramps (decide (s.tracks i).Sends) = false := by
      simp [Track.ramps, hsend, h.constant]
    obtain ⟨t, mem, enabled, hrun, hmem, hkeeps, hmixed⟩ := mixTrack_owes
      (b := ⟨s, bit i, bit i, List.replicate BLOCKSIZE (0#32, 0#32)⟩) fuel hcount hfreq hroom hramps
      List.length_replicate h (by unfold BLOCKSIZE at *; lia)
    obtain rfl : mem = s.mem := funext fun buffer => hmem buffer fun hs => absurd hs hsend
    change mixTrack d.pts numFrames fuel _ i = some ⟨s.setTrack i t, _, _, _⟩ at hrun
    have hwords : ditherAndClamp (addOut (List.replicate BLOCKSIZE (0#32, 0#32))
        ((frames.take BLOCKSIZE).map (s.tracks i).add)) =
        output (s.tracks i).volumeRL BLOCKSIZE (frames.take BLOCKSIZE) :=
      hstereo.dither_block _ _ (List.length_take_le _ _)
    have hwrite (s' : State) := s'.write_output mainBuffer numFrames.toNat (s.tracks i).volumeRL
      frames (show BLOCKSIZE ≤ d.frameCount.toNat - numFrames.toNat by lia)
    simp only [Nat.sub_sub] at hwrite
    rw [mixBlocks, tracksOf_bit]
    simp only [List.foldlM_cons, List.foldlM_nil, Option.pure_def, Option.bind_eq_bind, hrun,
      Option.bind_some, hwords, bit_clear, BitVec.lt_def, hnext]
    unfold Mixed at hmixed
    generalize hs : (s.setTrack i t).write mainBuffer numFrames.toNat
      (output (s.tracks i).volumeRL BLOCKSIZE (frames.take BLOCKSIZE)) = s₁
    have htrack : s₁.tracks i = t := by simp [← hs]
    have hsize : s₁.frameCount = d.frameCount := by simp [← hs, hcount]
    have hfreq₁ : s₁.sLocalTimeFreq = d.sLocalTimeFreq := by simp [← hs, hfreq]
    rw [hsize]
    by_cases hmore : numFrames.toNat + BLOCKSIZE < d.frameCount.toNat
    · obtain ⟨hdvd', hroom'⟩ := block_after hdvd hmore
      rw [if_pos hmore]
      split_ifs at hmixed with hlong
      · obtain ⟨rfl, howes⟩ := hmixed
        obtain ⟨t', enabled', hrun', hcalls'⟩ := ih s₁ (numFrames + BitVec.ofNat 32 BLOCKSIZE)
          (frames.drop BLOCKSIZE) hsize hfreq₁ (by rw [htrack]; exact hstereo.keeps hkeeps)
          (by rw [htrack, hkeeps.needs]; exact haux) (by rw [htrack, hnext]; exact howes)
          (by rw [hnext]; exact hdvd') (by rw [hnext]; exact hroom')
          (by rw [hnext]; unfold BLOCKSIZE at *; lia)
        have hset : s₁.setTrack i t' = (s.setTrack i t').write mainBuffer numFrames.toNat
            (output (s.tracks i).volumeRL BLOCKSIZE (frames.take BLOCKSIZE)) := by
          rw [← hs, State.write_setTrack, State.setTrack_setTrack]
        refine ⟨t', enabled', ?_, hcalls'⟩
        rw [← hwrite, ← hset]
        rw [htrack, hkeeps.volumeRL, hnext] at hrun'
        exact hrun'
      · obtain ⟨rfl, hcalls⟩ := hmixed
        have hsilent := mixBlocks_silent d.pts mainBuffer 0#32 fuel s₁
          (numFrames + BitVec.ofNat 32 BLOCKSIZE)
        simp only [hsize, hnext] at hsilent
        refine ⟨t, false, ?_, hcalls⟩
        rw [← hwrite, List.drop_of_length_le (by lia), output_nil, hs]
        exact hsilent hdvd' hroom' (by lia)
    · rw [if_neg hmore]
      have hlast : d.frameCount.toNat - (numFrames.toNat + BLOCKSIZE) = 0 := by lia
      have hend : frames.drop BLOCKSIZE = [] := List.drop_of_length_le (by lia)
      refine ⟨t, enabled, ?_, ?_⟩
      · rw [← hwrite, hlast, hend, hs, output_nil, List.replicate_zero, State.write_nil]
      · have hlength' : numFrames.toNat + BLOCKSIZE = d.frameCount.toNat := by lia
        split_ifs at hmixed with hlong
        · obtain ⟨rfl, howes⟩ := hmixed
          rw [hlength'] at howes
          exact howes.finished
        · obtain ⟨rfl, hcalls⟩ := hmixed
          exact hcalls

end AudioFlinger.Mixer
