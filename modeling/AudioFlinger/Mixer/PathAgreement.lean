import AudioFlinger.Mixer.OneTrack

/-!
# Where the two paths agree

The mixer selects the path for one track whenever it may, so the general path
should do the same for such a track. It does, unless its provider has no
buffer to begin with.
-/

namespace AudioFlinger.Mixer

open Foundation RingMemory Counter

/-- A state in which the mixer may select the path for one track. -/
structure OneStereoTrack (s : State) (i : Fin MAX_NUM_TRACKS) : Prop where
  enabled : s.enabledTracks = bit i
  frameCount_pos : 0 < s.frameCount.toNat
  frameCount_dvd : BLOCKSIZE ∣ s.frameCount.toNat
  stereo : (s.tracks i).Stereo
  aux : (s.tracks i).needs &&& NEEDS_AUX__MASK ≠ NEEDS_AUX_ENABLED
  constant : (s.tracks i).volumeInc = (0#32, 0#32)
  aligned : ∀ calls frameCount pts c,
    (s.tracks i).bufferProvider.answer calls frameCount pts = some c → c.misaligned = false

theorem request_zero (s : State) (pts : I64) (t : Track) :
    (s.demand pts t).request 0 = s.frameCount := by
  rw [Demand.request, Nat.sub_zero, BitVec.ofNat_toNat, BitVec.setWidth_eq]
  rfl

theorem outputPTS_zero (s : State) (pts : I64) (t : Track) :
    (s.demand pts t).outputPTS 0 = pts := by
  have hzero : (BitVec.ofNat 32 0).signExtend 64 = 0#64 := rfl
  unfold Demand.outputPTS calculateOutputPTS
  split_ifs with hinvalid
  · exact hinvalid
  · rw [hzero, BitVec.zero_mul, BitVec.zero_udiv, BitVec.add_zero]
    rfl

section Paths

variable {s : State} {i : Fin MAX_NUM_TRACKS} {pts : I64} {chunks : List (List U32)}
  {calls : List Call}

/-- The path for one track. -/
theorem OneStereoTrack.oneTrack (h : OneStereoTrack s i)
    (hdelivers : (s.demand pts (s.tracks i)).Delivers (s.tracks i).calls 0 chunks calls)
    (fuel : ℕ) (hfuel : s.frameCount.toNat < fuel) :
    ∃ t, process__OneTrack16BitsStereoNoResampling fuel s pts =
        some ((s.setTrack i t).write (s.tracks i).mainBuffer 0
          (output (s.tracks i).volumeRL s.frameCount.toNat chunks.flatten)) ∧
      t.calls = calls := by
  have haligned : ∀ calls p c,
      (s.demand pts (s.tracks i)).answer calls p = some c → c.misaligned = false :=
    fun calls p c => h.aligned calls _ _ c
  obtain ⟨t, hrun, hcalls⟩ := oneTrackLoop_delivers haligned hdelivers (s.tracks i) s.mem rfl rfl
    rfl fuel hfuel
  rw [request_zero] at hrun
  refine ⟨t, ?_, hcalls⟩
  unfold process__OneTrack16BitsStereoNoResampling
  rw [h.enabled, topTrack_bit]
  exact congrArg (Option.map fun r : Track × Mem => { s.setTrack i r.1 with mem := r.2 }) hrun

theorem groupOf_bit (s : State) (i : Fin MAX_NUM_TRACKS) : groupOf s (bit i) = bit i := by
  rw [groupOf, topTrack_bit, bit_clear, tracksOf_zero]
  rfl

theorem mixGroups_zero (fuel n : ℕ) (enabledTracks : U32) :
    mixGroups pts fuel n s enabledTracks 0#32 = some (s, enabledTracks) := by
  cases n <;> rfl

/-- The only group is the track. -/
theorem mixGroups_bit (fuel : ℕ) :
    mixGroups pts fuel MAX_NUM_TRACKS s (bit i) (bit i) =
      mixBlocks pts (s.tracks i).mainBuffer fuel s (bit i) (bit i) 0#32 := by
  change mixGroups pts fuel (31 + 1) s (bit i) (bit i) = _
  rw [mixGroups, if_neg (bit_ne_zero i), groupOf_bit, topTrack_bit]
  simp only [bit_clear, mixGroups_zero]
  exact Option.bind_fun_some _

/-- The general path. -/
theorem OneStereoTrack.general (h : OneStereoTrack s i)
    (hdelivers : (s.demand pts (s.tracks i)).Delivers (s.tracks i).calls 0 chunks calls)
    (hsmall : ∀ c ∈ chunks, c.length < 2 ^ 16) (fuel : ℕ)
    (hfuel : s.frameCount.toNat + BLOCKSIZE + 1 < fuel) :
    ∃ t, process__genericNoResampling fuel s pts =
        some ((s.setTrack i t).write (s.tracks i).mainBuffer 0
          (if chunks = [] then []
            else output (s.tracks i).volumeRL s.frameCount.toNat chunks.flatten)) ∧
      t.calls = calls := by
  unfold process__genericNoResampling
  rw [h.enabled, tracksOf_bit]
  simp only [List.foldl_cons, List.foldl_nil, acquire]
  generalize hget : (s.tracks i).getNextBuffer s.frameCount pts = r
  obtain ⟨answer, t⟩ := r
  rw [← request_zero s pts (s.tracks i), ← outputPTS_zero s pts (s.tracks i)] at hget
  obtain ⟨hnone, hsome⟩ := hdelivers.first rfl rfl h.constant hsmall hget
  have hpos := h.frameCount_pos
  by_cases hempty : chunks = []
  · obtain ⟨rfl, hcalls⟩ := hnone hempty
    rw [if_pos hempty]
    simp only [Option.isNone_none, if_true, bit_clear, mixGroups_zero, Option.map_some,
      tracksOf_zero, List.foldl_nil, State.write_nil]
    exact ⟨_, rfl, hcalls hpos⟩
  · obtain ⟨hanswer, hrefill, howes⟩ := hsome hempty
    rw [if_neg hempty, hanswer]
    obtain ⟨t', enabled, hrun, hend⟩ := mixBlocks_owes
      (d := s.demand pts (s.tracks i)) (i := i) (s.tracks i).mainBuffer fuel
      (s.setTrack i t.refill) 0#32 chunks.flatten rfl rfl
      (by rw [State.setTrack_tracks]; exact h.stereo.keeps hrefill)
      (by rw [State.setTrack_tracks, hrefill.needs]; exact h.aux)
      (by rw [State.setTrack_tracks]; exact howes) h.frameCount_dvd
      (by have hle := Nat.le_of_dvd hpos h.frameCount_dvd; rwa [BitVec.toNat_zero, Nat.zero_add]) hfuel
    rw [State.setTrack_setTrack, State.setTrack_tracks, hrefill.volumeRL] at hrun
    refine ⟨if enabled then t'.releaseBuffer else t', ?_, hend⟩
    simp only [Bool.false_eq_true, if_false]
    change Option.map _ (mixGroups pts fuel MAX_NUM_TRACKS (s.setTrack i t.refill) (bit i)
      (bit i)) = _
    rw [mixGroups_bit, State.setTrack_tracks, hrefill.mainBuffer]
    rw [BitVec.toNat_zero, Nat.sub_zero] at hrun
    rw [show mixBlocks pts _ fuel _ _ _ 0#32 = _ from hrun, Option.map_some]
    cases enabled with
    | false =>
      simp only [Bool.false_eq_true, if_false, tracksOf_zero, List.foldl_nil]
      rfl
    | true =>
      simp only [if_true, tracksOf_bit, List.foldl_cons, List.foldl_nil, State.write_tracks,
        State.setTrack_tracks, State.write_setTrack, State.setTrack_setTrack]
      rfl

end Paths

/-! ## Agreement -/

/-- With enough fuel both paths return, with the same main buffer and the same frames taken from
the provider. -/
def PathsAgree (s : State) (pts : I64) (i : Fin MAX_NUM_TRACKS) : Prop :=
  ∃ enough, ∀ fuel, enough ≤ fuel → ∃ oneTrack general,
    process__OneTrack16BitsStereoNoResampling fuel s pts = some oneTrack ∧
      process__genericNoResampling fuel s pts = some general ∧
      oneTrack.mem (s.tracks i).mainBuffer = general.mem (s.tracks i).mainBuffer ∧
      consumed (oneTrack.tracks i).calls = consumed (general.tracks i).calls

/-- The frames of the main buffer are silent before the call. -/
def Silent (s : State) (i : Fin MAX_NUM_TRACKS) : Prop :=
  ∀ k < s.frameCount.toNat, s.mem (s.tracks i).mainBuffer k = 0#32

theorem blit_silence {mem : ℕ → U32} {n : ℕ} :
    blit mem 0 (List.replicate n 0#32) = mem ↔ ∀ k < n, mem k = 0#32 := by
  constructor
  · intro h k hk
    have hhit : blit mem 0 (List.replicate n 0#32) (0 + k) = _ :=
      blit_hit 0 _ (by rw [List.length_replicate]; exact hk)
    rw [h, List.getElem_replicate, Nat.zero_add] at hhit
    exact hhit
  · intro h
    funext k
    by_cases hk : k < n
    · have hhit : blit mem 0 (List.replicate n 0#32) (0 + k) = _ :=
        blit_hit 0 _ (by rw [List.length_replicate]; exact hk)
      rw [List.getElem_replicate, Nat.zero_add] at hhit
      rw [hhit, h k hk]
    · exact blit_miss (Or.inr (by rw [List.length_replicate]; omega))

/-- Both paths with enough fuel, on the chunks that come. -/
theorem OneStereoTrack.paths {s : State} {i : Fin MAX_NUM_TRACKS} {pts : I64}
    {chunks : List (List U32)} {calls : List Call} (h : OneStereoTrack s i)
    (hdelivers : (s.demand pts (s.tracks i)).Delivers (s.tracks i).calls 0 chunks calls)
    (hsmall : ∀ c ∈ chunks, c.length < 2 ^ 16) (fuel : ℕ)
    (hfuel : s.frameCount.toNat + BLOCKSIZE + 1 < fuel) :
    ∃ oneTrack general, process__OneTrack16BitsStereoNoResampling fuel s pts = some oneTrack ∧
      process__genericNoResampling fuel s pts = some general ∧
      (oneTrack.mem (s.tracks i).mainBuffer = general.mem (s.tracks i).mainBuffer ↔
        chunks ≠ [] ∨ Silent s i) ∧
      consumed (oneTrack.tracks i).calls = consumed (general.tracks i).calls := by
  obtain ⟨t, hone, hcalls⟩ := h.oneTrack hdelivers fuel (by omega)
  obtain ⟨t', hgeneral, hcalls'⟩ := h.general hdelivers hsmall fuel hfuel
  refine ⟨_, _, hone, hgeneral, ?_, ?_⟩
  · simp only [State.write_mem, State.setTrack_mem, Mem.write, Function.update_self]
    by_cases hnone : chunks = []
    · subst hnone
      rw [if_pos rfl, blit_nil, List.flatten_nil, output_nil, blit_silence]
      exact ⟨Or.inr, fun hagree => hagree.resolve_left (not_not.mpr rfl)⟩
    · rw [if_neg hnone]
      exact ⟨fun _ => Or.inl hnone, fun _ => rfl⟩
  · simp only [State.write_tracks, State.setTrack_tracks]
    rw [hcalls, hcalls']

/-- No chunk overflows the `frameCount` of a track, and the provider has a buffer to begin with or
the main buffer is silent already. -/
def Mixable (s : State) (pts : I64) (i : Fin MAX_NUM_TRACKS) : Prop :=
  (∀ c ∈ (s.demand pts (s.tracks i)).chunks (s.tracks i).calls, c.length < 2 ^ 16) ∧
    ((s.demand pts (s.tracks i)).chunks (s.tracks i).calls ≠ [] ∨ Silent s i)

/-- The paths agree on what is mixable and, overlong chunks apart, on nothing else. -/
theorem paths_agree (s : State) (i : Fin MAX_NUM_TRACKS) (pts : I64) (h : OneStereoTrack s i) :
    (Mixable s pts i → PathsAgree s pts i) ∧
      (PathsAgree s pts i → Mixable s pts i ∨
        ∃ c ∈ (s.demand pts (s.tracks i)).chunks (s.tracks i).calls, 2 ^ 16 ≤ c.length) := by
  have hdelivers := (s.demand pts (s.tracks i)).delivers_chunks (s.tracks i).calls
  constructor
  · rintro ⟨hsmall, hagree⟩
    refine ⟨s.frameCount.toNat + BLOCKSIZE + 2, fun fuel hfuel => ?_⟩
    obtain ⟨oneTrack, general, hone, hgeneral, hiff, hconsumed⟩ :=
      h.paths hdelivers hsmall fuel (by omega)
    exact ⟨oneTrack, general, hone, hgeneral, hiff.mpr hagree, hconsumed⟩
  · rintro ⟨enough, hagree⟩
    by_cases hsmall : ∀ c ∈ (s.demand pts (s.tracks i)).chunks (s.tracks i).calls, c.length < 2 ^ 16
    · obtain ⟨oneTrack, general, hone, hgeneral, hmem, -⟩ :=
        hagree (enough + (s.frameCount.toNat + BLOCKSIZE + 2)) (by omega)
      obtain ⟨oneTrack', general', hone', hgeneral', hiff, -⟩ :=
        h.paths hdelivers hsmall (enough + (s.frameCount.toNat + BLOCKSIZE + 2)) (by omega)
      cases Option.some_inj.mp (hone.symm.trans hone')
      cases Option.some_inj.mp (hgeneral.symm.trans hgeneral')
      exact Or.inl ⟨hsmall, hiff.mp hmem⟩
    · simp only [not_forall, Nat.not_lt] at hsmall
      obtain ⟨c, hc, hlong⟩ := hsmall
      exact Or.inr ⟨c, hc, hlong⟩

/-- A provider of `chunk` frames at a time, of value `rl`. -/
def steadyProvider (chunk : ℕ) (rl : U32) : Provider where
  answer _ frameCount _ :=
    if min chunk frameCount.toNat = 0 then none
    else some { frames := List.replicate (min chunk frameCount.toNat) rl, misaligned := false }
  nonempty := by
    intro _ _ _ c h
    split_ifs at h with hzero
    cases h
    simpa using hzero
  fits := by
    intro _ _ _ c h
    split_ifs at h
    cases h
    simp

/-- A mixer of 16 frames with one stereo track at unity gain, and ones in its main buffer. -/
def oneTrackMixer (provider : Provider) : State where
  enabledTracks := 1#32
  frameCount := 16#32
  sLocalTimeFreq := 1000000#64
  tracks _ :=
    { needs := 0x11#32
      volumeRL := 0x10001000#32
      prevVolume := (0x10000000#32, 0x10000000#32)
      volumeInc := (0#32, 0#32)
      auxInc := 0#32
      prevAuxLevel := 0#32
      auxLevel := 0#16
      frameCount := 0#16
      bufferProvider := provider
      buffer := []
      hook := .track__16BitsStereo
      input := []
      sampleRate := 44100#32
      mainBuffer := 0
      auxBuffer := 1
      calls := [] }
  mem _ _ := 1#32

theorem oneTrackMixer_oneStereoTrack (chunk : ℕ) (rl : U32) :
    OneStereoTrack (oneTrackMixer (steadyProvider chunk rl)) 0 where
  enabled := rfl
  frameCount_pos := (by decide : 0 < 16)
  frameCount_dvd := (by decide : 16 ∣ 16)
  stereo := Or.inl rfl
  aux := (by decide : 0x11#32 &&& NEEDS_AUX__MASK ≠ NEEDS_AUX_ENABLED)
  constant := rfl
  aligned := by
    intro _ _ _ c h
    simp only [oneTrackMixer, steadyProvider] at h
    split_ifs at h
    cases h
    rfl

theorem paths_agree_twoChunks :
    PathsAgree (oneTrackMixer (steadyProvider 10 0x00020003#32)) kInvalidPTS 0 :=
  (paths_agree _ 0 kInvalidPTS (oneTrackMixer_oneStereoTrack 10 _)).1
    ⟨by decide +kernel, Or.inl (by decide +kernel)⟩

/-- Without a buffer the general path leaves the main buffer as it was. -/
theorem paths_disagree_noBuffer :
    OneStereoTrack (oneTrackMixer (steadyProvider 0 0#32)) 0 ∧
      ¬ PathsAgree (oneTrackMixer (steadyProvider 0 0#32)) kInvalidPTS 0 := by
  have h := oneTrackMixer_oneStereoTrack 0 0#32
  refine ⟨h, ?_⟩
  rintro ⟨enough, hagree⟩
  have hdelivers := Demand.delivers_chunks (State.demand (oneTrackMixer (steadyProvider 0 0#32))
    kInvalidPTS ((oneTrackMixer (steadyProvider 0 0#32)).tracks 0)) []
  have hnone : Demand.chunks (State.demand (oneTrackMixer (steadyProvider 0 0#32))
    kInvalidPTS ((oneTrackMixer (steadyProvider 0 0#32)).tracks 0)) [] = [] := by decide +kernel
  rw [hnone] at hdelivers
  obtain ⟨oneTrack, general, hone, hgeneral, hmem, -⟩ := hagree (enough + 34) (by omega)
  obtain ⟨oneTrack', general', hone', hgeneral', hiff, -⟩ :=
    h.paths hdelivers (fun _ hc => absurd hc List.not_mem_nil) (enough + 34)
      (show 16 + 16 + 1 < enough + 34 by omega)
  cases Option.some_inj.mp (hone.symm.trans hone')
  cases Option.some_inj.mp (hgeneral.symm.trans hgeneral')
  rcases hiff.mp hmem with hchunk | hsilent
  · exact hchunk rfl
  · exact absurd (hsilent 0 (by decide)) (by decide : 1#32 ≠ 0#32)

end AudioFlinger.Mixer
