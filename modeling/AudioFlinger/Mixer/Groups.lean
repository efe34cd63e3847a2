import AudioFlinger.Mixer.TrackSets
import AudioFlinger.Mixer.Sums
import AudioFlinger.Mixer.OneTrack

/-!
# Groups of tracks

The general path mixes the tracks of each main buffer block by block. A track
that runs out is left out of the blocks that follow, where it would add
nothing.
-/

namespace AudioFlinger.Mixer

open Foundation RingMemory Counter

/-! ## A track of a group -/

/-- The chunks that come for a track in a call of `process`. -/
def State.chunks (s : State) (pts : I64) (i : Fin MAX_NUM_TRACKS) : List (List U32) :=
  (s.demand pts (s.tracks i)).chunks (s.tracks i).calls

def State.frames (s : State) (pts : I64) (i : Fin MAX_NUM_TRACKS) : List U32 :=
  (s.chunks pts i).flatten

/-- The calls of its provider at the end. -/
def State.callsAfter (s : State) (pts : I64) (i : Fin MAX_NUM_TRACKS) : List Call :=
  ((s.demand pts (s.tracks i)).deliver s.frameCount.toNat (s.tracks i).calls 0).2

def State.part (s : State) (pts : I64) (i : Fin MAX_NUM_TRACKS) : Part :=
  ((s.tracks i).add, s.frames pts i)

theorem State.delivers_chunks (s : State) (pts : I64) (i : Fin MAX_NUM_TRACKS) :
    (s.demand pts (s.tracks i)).Delivers (s.tracks i).calls 0 (s.chunks pts i)
      (s.callsAfter pts i) :=
  (s.demand pts (s.tracks i)).delivers_chunks (s.tracks i).calls

/-- The counts of `process` are those at its start. -/
def State.Tuned (s₀ s : State) : Prop :=
  s.frameCount = s₀.frameCount ∧ s.sLocalTimeFreq = s₀.sLocalTimeFreq

/-- The track does not send to `buffer`. -/
def Track.Apart (t : Track) (buffer : ℕ) : Prop := t.Sends → buffer ≠ t.auxBuffer

/-- A track at position `p` of the call that began in `s₀`: it goes on, or it has run out. -/
structure Playing (s₀ : State) (pts : I64) (p : ℕ) (i : Fin MAX_NUM_TRACKS) (t : Track)
    (on : Bool) : Prop where
  keeps : (s₀.tracks i).Keeps t
  owes : on = true → Owes (s₀.demand pts (s₀.tracks i)) p t ((s₀.frames pts i).drop p)
    (s₀.callsAfter pts i)
  ended : on = false → (s₀.frames pts i).length ≤ p

/-- Some tracks are mixed in one block. -/
structure Block.Mixes (s₀ : State) (pts : I64) (p : ℕ) (l : List (Fin MAX_NUM_TRACKS))
    (b b' : Block) : Prop where
  tuned : s₀.Tuned b'.s
  others : ∀ j ∉ l, b'.s.tracks j = b.s.tracks j ∧ b'.e1.getLsbD j = b.e1.getLsbD j
  playing : ∀ i ∈ l, Playing s₀ pts (p + BLOCKSIZE) i (b'.s.tracks i) (b'.e1.getLsbD i)
  outTemp : b'.outTemp = l.foldl (fun out i => addOut out ((s₀.part pts i).block p)) b.outTemp
  mem : ∀ buffer, (∀ i ∈ l, (s₀.tracks i).Apart buffer) → b'.s.mem buffer = b.s.mem buffer

section Block

variable {s₀ : State} {pts : I64} {numFrames : U32} {fuel : ℕ}

theorem Track.Keeps.constant {t t' : Track} (h : t.Keeps t') (hconstant : t.Constant) :
    t'.Constant := by
  unfold Track.Keeps at h
  rw [h]
  exact ⟨hconstant.ramps, hconstant.muted, hconstant.gain⟩

theorem Track.Keeps.sends {t t' : Track} (h : t.Keeps t') : t'.Sends ↔ t.Sends := by
  rw [Track.Sends, Track.Sends, h.needs]

theorem mixTrack_mixes {b : Block} {i : Fin MAX_NUM_TRACKS}
    (hconstant : (s₀.tracks i).Constant) (htuned : s₀.Tuned b.s)
    (hroom : numFrames.toNat + BLOCKSIZE ≤ s₀.frameCount.toNat) (hfuel : BLOCKSIZE + 1 < fuel)
    (hout : b.outTemp.length = BLOCKSIZE) (hon : b.e1.getLsbD i = true)
    (h : Playing s₀ pts numFrames.toNat i (b.s.tracks i) true) :
    ∃ b', mixTrack pts numFrames fuel b i = some b' ∧ b.Mixes s₀ pts numFrames.toNat [i] b' := by
  have hkeeps₀ := h.keeps
  obtain ⟨t, mem, enabled, hrun, hmem, hkeeps, hmixed⟩ := mixTrack_owes (b := b) fuel htuned.1
    htuned.2 hroom (hkeeps₀.constant hconstant).ramps hout (h.owes rfl) hfuel
  refine ⟨_, hrun, ?_⟩
  unfold Mixed at hmixed
  rw [List.length_drop, List.drop_drop] at hmixed
  exact
    { tuned := htuned
      others := by
        intro j hj
        rw [List.mem_singleton] at hj
        refine ⟨Function.update_of_ne hj _ _, ?_⟩
        dsimp only
        split_ifs
        · rfl
        · rw [getLsbD_clear, decide_eq_true hj, Bool.and_true]
      playing := by
        intro j hj
        rw [List.mem_singleton] at hj
        subst hj
        have htrack : ({ b.s.setTrack j t with mem := mem } : State).tracks j = t :=
          b.s.setTrack_tracks j t
        dsimp only
        rw [htrack]
        split_ifs at hmixed with hlong
        · obtain ⟨rfl, howes⟩ := hmixed
          rw [if_pos rfl, hon]
          exact ⟨hkeeps₀.trans hkeeps, fun _ => howes, nofun⟩
        · obtain ⟨rfl, -⟩ := hmixed
          rw [if_neg Bool.false_ne_true, getLsbD_clear, decide_eq_false (not_not.mpr rfl),
            Bool.and_false]
          exact ⟨hkeeps₀.trans hkeeps, nofun, fun _ => by omega⟩
      outTemp := by
        rw [List.foldl_cons, List.foldl_nil, Part.block, State.part, hkeeps₀.add]
      mem := by
        intro buffer hapart
        refine hmem buffer fun hsends => ?_
        rw [hkeeps₀.auxBuffer]
        exact hapart i List.mem_cons_self (hkeeps₀.sends.mp hsends) }

theorem mixTracks {l : List (Fin MAX_NUM_TRACKS)} (hnodup : l.Nodup) (b : Block)
    (hconstant : ∀ i ∈ l, (s₀.tracks i).Constant) (htuned : s₀.Tuned b.s)
    (hroom : numFrames.toNat + BLOCKSIZE ≤ s₀.frameCount.toNat) (hfuel : BLOCKSIZE + 1 < fuel)
    (hout : b.outTemp.length = BLOCKSIZE) (hon : ∀ i ∈ l, b.e1.getLsbD i = true)
    (h : ∀ i ∈ l, Playing s₀ pts numFrames.toNat i (b.s.tracks i) true) :
    ∃ b', l.foldlM (mixTrack pts numFrames fuel) b = some b' ∧
      b.Mixes s₀ pts numFrames.toNat l b' := by
  induction l generalizing b with
  | nil =>
    exact ⟨b, rfl, htuned, fun _ _ => ⟨rfl, rfl⟩, fun _ hi => absurd hi List.not_mem_nil, rfl,
      fun _ _ => rfl⟩
  | cons i l ih =>
    obtain ⟨hi, hrest⟩ := List.nodup_cons.mp hnodup
    obtain ⟨b₁, hrun₁, h₁⟩ := mixTrack_mixes (hconstant i List.mem_cons_self) htuned hroom hfuel
      hout (hon i List.mem_cons_self) (h i List.mem_cons_self)
    -- the tracks still to come are as before
    have hothers (j : Fin MAX_NUM_TRACKS) (hj : j ∈ l) := h₁.others j fun hmem =>
      hi (List.mem_singleton.mp hmem ▸ hj)
    have hout₁ : b₁.outTemp.length = BLOCKSIZE := by
      rw [h₁.outTemp, List.foldl_cons, List.foldl_nil, addOut_length, hout]
    obtain ⟨b₂, hrun₂, h₂⟩ := ih hrest b₁ (fun j hj => hconstant j (List.mem_cons_of_mem _ hj))
      h₁.tuned hout₁ (fun j hj => by rw [(hothers j hj).2]; exact hon j (List.mem_cons_of_mem _ hj))
      (fun j hj => by rw [(hothers j hj).1]; exact h j (List.mem_cons_of_mem _ hj))
    refine ⟨b₂, ?_, h₂.tuned, fun j hj => ?_, fun j hj => ?_, ?_, fun buffer hapart => ?_⟩
    · rw [List.foldlM_cons, hrun₁]
      exact hrun₂
    · obtain ⟨hji, hjl⟩ := not_or.mp (mt List.mem_cons.mpr hj)
      obtain ⟨htrack, hbit⟩ := h₁.others j (mt List.mem_singleton.mp hji)
      obtain ⟨htrack', hbit'⟩ := h₂.others j hjl
      exact ⟨htrack'.trans htrack, hbit'.trans hbit⟩
    · by_cases hjl : j ∈ l
      · exact h₂.playing j hjl
      · have hji : j = i := (List.mem_cons.mp hj).resolve_right hjl
        obtain ⟨htrack, hbit⟩ := h₂.others j hjl
        rw [htrack, hbit]
        exact h₁.playing j (List.mem_singleton.mpr hji)
    · rw [h₂.outTemp, h₁.outTemp]
      rfl
    · rw [h₂.mem buffer fun j hj => hapart j (List.mem_cons_of_mem _ hj)]
      exact h₁.mem buffer fun j hj => hapart j (by
        rw [List.mem_singleton.mp hj]
        exact List.mem_cons_self)

/-- The tracks that have run out add nothing. -/
theorem foldl_playing {group e1 : U32} {p : ℕ} {s : State}
    (hsub : ∀ i : Fin MAX_NUM_TRACKS, e1.getLsbD i = true → group.getLsbD i = true)
    (h : ∀ i ∈ trackList group, Playing s₀ pts p i (s.tracks i) (e1.getLsbD i))
    (out : List (I32 × I32)) :
    (trackList e1).foldl (fun out i => addOut out ((s₀.part pts i).block p)) out =
      ((trackList group).map (s₀.part pts)).foldl (fun out part => addOut out (part.block p)) out := by
  rw [← trackList_filter hsub, List.foldl_filter, List.foldl_map]
  apply List.foldl_ext
  intro out i hi
  split_ifs with hon
  · rfl
  · have hover := (h i hi).ended (Bool.not_eq_true _ ▸ hon)
    have hnone : (s₀.part pts i).block p = [] := by
      rw [Part.block, State.part, List.drop_of_length_le hover]
      rfl
    rw [hnone, addOut_nil]

end Block

/-! ## A group -/

section Group

variable {s₀ : State} {pts : I64}

/-- The blocks of a group from `numFrames` on. -/
theorem mixBlocks_group {group : U32} {mainBuffer : ℕ}
    (hconstant : ∀ i ∈ trackList group, (s₀.tracks i).Constant)
    (hapart : ∀ i ∈ trackList group, (s₀.tracks i).Apart mainBuffer) (fuel : ℕ) (s : State)
    (enabledTracks e1 numFrames : U32) (htuned : s₀.Tuned s)
    (hsub : ∀ i : Fin MAX_NUM_TRACKS, e1.getLsbD i = true → group.getLsbD i = true)
    (h : ∀ i ∈ trackList group, Playing s₀ pts numFrames.toNat i (s.tracks i) (e1.getLsbD i))
    (hdvd : BLOCKSIZE ∣ s₀.frameCount.toNat - numFrames.toNat)
    (hroom : numFrames.toNat + BLOCKSIZE ≤ s₀.frameCount.toNat)
    (hfuel : s₀.frameCount.toNat - numFrames.toNat + BLOCKSIZE + 1 < fuel) :
    ∃ s' enabledTracks',
      mixBlocks pts mainBuffer fuel s enabledTracks e1 numFrames = some (s', enabledTracks') ∧
        s₀.Tuned s' ∧ (∀ j ∉ trackList group, s'.tracks j = s.tracks j) ∧
        s'.mem mainBuffer = blit (s.mem mainBuffer) numFrames.toNat
          (mixedWords ((trackList group).map (s₀.part pts)) numFrames.toNat
            (s₀.frameCount.toNat - numFrames.toNat)) ∧
        ∀ buffer, buffer ≠ mainBuffer → (∀ i ∈ trackList group, (s₀.tracks i).Apart buffer) →
          s'.mem buffer = s.mem buffer := by
  induction fuel generalizing s enabledTracks e1 numFrames with
  | zero => lia
  | succ fuel ih =>
    have hin (i : Fin MAX_NUM_TRACKS) (hi : i ∈ trackList e1) : i ∈ trackList group :=
      mem_trackList.mpr (hsub i (mem_trackList.mp hi))
    have hon (i : Fin MAX_NUM_TRACKS) (hi : i ∈ trackList e1) : e1.getLsbD i = true :=
      mem_trackList.mp hi
    obtain ⟨b, hrun, hmixes⟩ := mixTracks (trackList_nodup e1)
      ⟨s, enabledTracks, e1, List.replicate BLOCKSIZE (0#32, 0#32)⟩
      (fun i hi => hconstant i (hin i hi)) htuned hroom
      (show BLOCKSIZE + 1 < fuel by unfold BLOCKSIZE at *; lia) List.length_replicate hon
      (fun i hi => hon i hi ▸ h i (hin i hi))
    have hwords : ditherAndClamp b.outTemp =
        mixedWords ((trackList group).map (s₀.part pts)) numFrames.toNat BLOCKSIZE := by
      rw [hmixes.outTemp, foldl_playing hsub h, ditherAndClamp_block]
    have hnext := toNat_nextBlock hroom
    rw [mixBlocks, tracksOf_trackList, hrun, Option.bind_some, hwords]
    dsimp only
    rw [State.write_frameCount, hmixes.tuned.1]
    have hcond : numFrames + BitVec.ofNat 32 BLOCKSIZE < s₀.frameCount ↔
        numFrames.toNat + BLOCKSIZE < s₀.frameCount.toNat := by rw [BitVec.lt_def, hnext]
    have hmem (buffer : ℕ) (hbuffer : ∀ i ∈ trackList group, (s₀.tracks i).Apart buffer) :
        b.s.mem buffer = s.mem buffer := hmixes.mem buffer fun i hi => hbuffer i (hin i hi)
    generalize hs : b.s.write mainBuffer numFrames.toNat (mixedWords
      ((trackList group).map (s₀.part pts)) numFrames.toNat BLOCKSIZE) = s₁
    have htracks : s₁.tracks = b.s.tracks := by rw [← hs, State.write_tracks]
    have htuned₁ : s₀.Tuned s₁ := by
      rw [← hs]
      exact hmixes.tuned
    have hmain : s₁.mem mainBuffer = blit (s.mem mainBuffer) numFrames.toNat
        (mixedWords ((trackList group).map (s₀.part pts)) numFrames.toNat BLOCKSIZE) := by
      rw [← hs, State.write_mem, Mem.write, Function.update_self, hmem mainBuffer hapart]
    have hothers (buffer : ℕ) (hne : buffer ≠ mainBuffer)
        (hbuffer : ∀ i ∈ trackList group, (s₀.tracks i).Apart buffer) :
        s₁.mem buffer = s.mem buffer := by
      rw [← hs, State.write_mem, Mem.write, Function.update_of_ne hne, hmem buffer hbuffer]
    have houtside (j : Fin MAX_NUM_TRACKS) (hj : j ∉ trackList group) :
        s₁.tracks j = s.tracks j := by
      rw [htracks]
      exact (hmixes.others j fun hmem => hj (hin j hmem)).1
    by_cases hmore : numFrames.toNat + BLOCKSIZE < s₀.frameCount.toNat
    · obtain ⟨hdvd', hroom'⟩ := block_after hdvd hmore
      have hsub' (i : Fin MAX_NUM_TRACKS) (hi : b.e1.getLsbD i = true) :
          group.getLsbD i = true := by
        by_cases hold : i ∈ trackList e1
        · exact hsub i (hon i hold)
        · rw [(hmixes.others i hold).2] at hi
          exact hsub i hi
      have hplaying (i : Fin MAX_NUM_TRACKS) (hi : i ∈ trackList group) :
          Playing s₀ pts (numFrames.toNat + BLOCKSIZE) i (s₁.tracks i) (b.e1.getLsbD i) := by
        rw [htracks]
        by_cases hold : i ∈ trackList e1
        · exact hmixes.playing i hold
        · -- the track has run out before
          obtain ⟨htrack, hbit⟩ := hmixes.others i hold
          have hoff : e1.getLsbD i = false := Bool.not_eq_true _ ▸ mt mem_trackList.mpr hold
          have hover := h i hi
          rw [hoff] at hover
          rw [htrack, hbit, hoff]
          exact ⟨hover.keeps, fun htrue => absurd htrue Bool.false_ne_true,
            fun _ => le_trans (hover.ended rfl) (Nat.le_add_right _ _)⟩
      obtain ⟨s', enabledTracks', hrun', htuned', houtside', hmain', hothers'⟩ := ih s₁
        b.enabledTracks b.e1 (numFrames + BitVec.ofNat 32 BLOCKSIZE) htuned₁ hsub'
        (by rw [hnext]; exact hplaying) (by rw [hnext]; exact hdvd') (by rw [hnext]; exact hroom')
        (by rw [hnext]; unfold BLOCKSIZE at *; lia)
      refine ⟨s', enabledTracks', ?_, htuned', fun j hj => ?_, ?_, fun buffer hne hbuffer => ?_⟩
      · rw [if_pos (hcond.mpr hmore), hrun']
      · rw [houtside' j hj, houtside j hj]
      · have hrest : s₀.frameCount.toNat - numFrames.toNat =
            BLOCKSIZE + (s₀.frameCount.toNat - (numFrames.toNat + BLOCKSIZE)) := by lia
        have happend := @blit_append _ (s.mem mainBuffer) numFrames.toNat
          (mixedWords ((trackList group).map (s₀.part pts)) numFrames.toNat BLOCKSIZE)
          (mixedWords ((trackList group).map (s₀.part pts)) (numFrames.toNat + BLOCKSIZE)
            (s₀.frameCount.toNat - (numFrames.toNat + BLOCKSIZE)))
        rw [mixedWords_length, mixedWords_append] at happend
        rw [hmain', hmain, hnext, happend, hrest]
      · rw [hothers' buffer hne hbuffer, hothers buffer hne hbuffer]
    · have hlast : s₀.frameCount.toNat - numFrames.toNat = BLOCKSIZE := by lia
      refine ⟨s₁, b.enabledTracks, if_neg (mt hcond.mp hmore), htuned₁, houtside, ?_, hothers⟩
      rw [hmain, hlast]

end Group

end AudioFlinger.Mixer
