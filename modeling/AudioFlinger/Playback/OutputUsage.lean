import AudioFlinger.Playback.Sweep

/-!
# The use of the output

A track uses the output while it is active or resuming. `start` begins the use, and
`stop`, `pause`, `destroy` and the removal of a static track call `stopOutput`
if they find the track in one of these states. The first three leave them; the removal
does not, so that the call for a static track that has played to its end is made once
more by whoever comes next. The policy does not hear of an `OutputTrack`.
-/

namespace AudioFlinger.Playback

open Foundation

/-! ## Who plays -/

namespace Track

variable {t : Track}

theorem isPlaying_added (isActive : Bool) : (t.added isActive).isPlaying = t.isPlaying := by
  cases isActive <;> rfl

theorem isPlaying_start (isActive : Bool) : (t.start isActive).isPlaying = true := by
  have hstart : (t.start isActive).isPlaying =
      ({ t with mState := if t.mState = .paused then .resuming else .active } : Track).isPlaying :=
    isPlaying_added isActive
  rw [hstart, isPlaying]
  simp only
  split <;> rfl

theorem isPlaying_stop (isActive : Bool) : (t.stop isActive).isPlaying = false := by
  rw [stop]
  split
  all_goals first
    | split
      · rfl
      · split <;> rfl
    | simp only [isPlaying]
      simp_all

theorem isPlaying_pause : t.pause.isPlaying = false := by
  rw [pause]
  split
  · rfl
  next h => exact Bool.eq_false_iff.mpr h

theorem isPlaying_flush (isActive : Bool) : (t.flush isActive).isPlaying = t.isPlaying := by
  have hflushed : ({ t with mState := .flushed } : Track).isPlaying = false := rfl
  have hreset : ∀ x : Track, x.reset.isPlaying = x.isPlaying := fun _ => congrArg Prod.snd kept_reset
  rw [flush]
  split
  case h_8 => rfl
  all_goals
    next h =>
      have ht : t.isPlaying = false := by rw [isPlaying, h]; rfl
      simp only
      split
      · rw [hflushed, ht]
      · rw [hreset, hflushed, ht]

theorem usesOutput_fixed {t' : Track} (h : t'.fixed = t.fixed) :
    t'.usesOutput = (!t.isOutputTrack && t'.isPlaying) := by
  have hsame : t'.isOutputTrack = t.isOutputTrack := congrArg Fixed.isOutputTrack h
  rw [usesOutput, hsame]

end Track

/-- A track's address, and whether it uses the output. -/
def Track.usage (t : Track) : ℕ × Bool := (t.self, t.usesOutput)

theorem usage_congr {t t' : Track} (h : t'.kept = t.kept) : t'.usage = t.usage := by
  have hself : t'.self = t.self := congrArg (fun k => k.1.self) h
  have hplaying : t'.isPlaying = t.isPlaying := congrArg Prod.snd h
  rw [Track.usage, Track.usesOutput_fixed (congrArg Prod.fst h), hplaying, hself]
  rfl

/-- No cycle makes a track use the output, or not use it. -/
theorem usage_unwritten : Track.Unwritten Track.usage where
  prepared c t t' ht' := usage_congr (kept_unwritten.prepared c t t' ht')
  reset _ := usage_congr Track.kept_reset

namespace Thread

variable {w w' : Thread} {e : Event} {t : Track} {a : ℕ}

/-! ## The account -/

/-- How often a track began to use the output, and how often `stopOutput` was called for it. -/
def activations (w : Thread) (a : ℕ) : ℕ := w.usageLog.count (.activated a)
def stops (w : Thread) (a : ℕ) : ℕ := w.usageLog.count (.stopOutput a)

/-- The track at an address uses the output, and its destruction has not begun. -/
def playing (w : Thread) (a : ℕ) : Bool := (w.track a).any Track.usesOutput && a ∉ w.destroying

/-- Every activation but that of a track that uses the output was released. -/
structure Using (w : Thread) : Prop where
  tracked : w.Tracked
  account : ∀ a, w.activations a = w.stops a + (w.playing a).toNat

theorem using_new (isDirect hasFastMixer : Bool) : (new isDirect hasFastMixer).Using :=
  ⟨tracked_new .., fun _ => rfl⟩

/-- A step that begins and ends no use. -/
theorem Using.congr (hw : w.Using) (htracked : w'.Tracked) (hlog : w'.usageLog = w.usageLog)
    (hplaying : ∀ a, w'.playing a = w.playing a) : w'.Using := by
  refine ⟨htracked, fun a => ?_⟩
  rw [activations, stops, hlog, hplaying]
  exact hw.account a

theorem playing_congr (htracks : w'.mTracks.map Track.usage = w.mTracks.map Track.usage)
    (hdestroying : w'.destroying = w.destroying) (a : ℕ) : w'.playing a = w.playing a := by
  have hlook := congrArg (fun o => o.any Prod.snd) (lookup_map (fun _ => rfl : ∀ t : Track, t.usage.1 = t.self) htracks a)
  simp only [Option.any_map] at hlook
  rw [playing, playing, hdestroying]
  exact congrArg (· && decide (a ∉ w.destroying)) hlook

/-- The account of one track after its state was written. -/
theorem playing_update {f : Track → Track} (hf : ∀ t, (f t).fixed = t.fixed) (ht : w.track t.self = some t) (b : ℕ) :
    (w.updateTrack t.self f).playing b =
      if b = t.self then (f t).usesOutput && t.self ∉ w.destroying else w.playing b := by
  have hlook := @KeyedList.lookup_update _ _ _ Track.self w.mTracks t.self f
    (fun x hx => (congrArg Track.Fixed.self (hf x)).trans hx) b
  have hfound : KeyedList.lookup Track.self w.mTracks t.self = some t := ht
  rw [playing, track, updateTrack, hlook]
  split
  next hb => rw [hfound, hb]; rfl
  next => rfl

/-- A client writes its track, and the call is logged if the track's use starts or ends. -/
theorem Using.write {f : Track → Track} (hw : w.Using) (hf : ∀ t, (f t).fixed = t.fixed) (ht : w.track t.self = some t)
    (hheld : t.self ∉ w.destroying) (htracked : w'.Tracked)
    (hplaying : ∀ b, w'.playing b = (w.updateTrack t.self f).playing b)
    (hlog : w'.usageLog =
      if t.usesOutput then if (f t).usesOutput then w.usageLog else .stopOutput t.self :: w.usageLog
      else if (f t).usesOutput then .activated t.self :: w.usageLog else w.usageLog) : w'.Using := by
  refine ⟨htracked, fun b => ?_⟩
  have hold := hw.account b
  rw [hplaying, playing_update hf ht]
  by_cases hb : b = t.self
  · have hbefore : w.playing b = t.usesOutput := by simp [playing, hb, ht, hheld]
    rw [hbefore] at hold
    rw [if_pos hb, activations, stops, hlog]
    simp only [activations, stops] at hold
    cases hwas : t.usesOutput <;> cases his : (f t).usesOutput <;> simp_all
  · rw [if_neg hb, activations, stops, hlog]
    simp only [activations, stops] at hold
    have hne : t.self ≠ b := fun h => hb h.symm
    split <;> split <;> simp_all

/-- A new track does not use the output. -/
theorem Using.append (hw : w.Using) (hnew : w.track t.self = none) (hidle : t.usesOutput = false)
    (htracks : w'.mTracks = w.mTracks ++ [t]) (hactive : w'.mActiveTracks = w.mActiveTracks)
    (hlog : w'.usageLog = w.usageLog) (hdestroying : w'.destroying = w.destroying) : w'.Using := by
  refine hw.congr (hw.tracked.append hnew htracks hactive) hlog fun b => ?_
  simp only [track, KeyedList.lookup] at hnew
  simp only [playing, track, KeyedList.lookup, htracks, hdestroying, List.find?_append]
  congr 1
  by_cases hb : t.self = b
  · subst hb
    simp [hnew, hidle]
  · simp [hb]

/-- The destruction of a track ends its use. -/
theorem Using.destroy (hw : w.Using) (ht : w.track t.self = some t) (hheld : t.self ∉ w.destroying) :
    (w.destroy t).Using := by
  refine ⟨hw.tracked.congr rfl rfl, fun b => ?_⟩
  have hold := hw.account b
  by_cases hb : b = t.self
  · subst hb
    have hbefore : w.playing t.self = t.usesOutput := by simp [playing, ht, hheld]
    have hafter : (w.destroy t).playing t.self = false := by simp [playing, Thread.destroy]
    rw [hbefore] at hold
    rw [hafter]
    cases hwas : t.usesOutput <;>
      simp_all [activations, stops, Thread.destroy, released]
  · have hsame : (w.destroy t).playing b = w.playing b := by simp [playing, Thread.destroy, hb, track]
    have hne : t.self ≠ b := fun h => hb h.symm
    rw [hsame]
    simp only [activations, stops, Thread.destroy, released] at hold ⊢
    split <;> simp_all

/-- A track that is being destroyed is terminated, and removed if it is not active. -/
theorem playing_destroyTrack (ht : w.track t.self = some t) (hdoomed : t.self ∈ w.destroying) (b : ℕ) :
    (w.destroyTrack t).playing b = w.playing b := by
  have hgone : (w.destroyTrack t).destroying = w.destroying := by
    rw [Thread.destroyTrack]
    split <;> rfl
  by_cases hb : b = t.self
  · rw [playing, playing, hgone, hb, decide_eq_false (not_not.mpr hdoomed), Bool.and_false, Bool.and_false]
  · have hterminate := playing_update (fun x => @Track.fixed_terminate x) ht b
    rw [if_neg hb] at hterminate
    rw [Thread.destroyTrack]
    split
    · exact hterminate
    · have hother : KeyedList.lookup Track.self ((w.updateTrack t.self Track.terminate).mTracks.eraseP
          fun x => x.self = t.self) b = (w.updateTrack t.self Track.terminate).track b := KeyedList.lookup_eraseP hb
      rw [← hterminate, playing, playing, ← hother]
      rfl

theorem playing_deactivate (hw : w.Tracked) (a b : ℕ) : (w.deactivate a).playing b = w.playing b := by
  have hdestroying : (w.deactivate a).destroying = w.destroying := by
    rw [Thread.deactivate]
    cases w.track a with
    | none => rfl
    | some t =>
      simp only
      split <;> rfl
  by_cases hb : b = a
  · subst hb
    rw [playing, playing, hdestroying]
    congr 1
    rw [Thread.deactivate]
    cases htrack : w.track b with
    | none => rw [htrack]
    | some t =>
      obtain ⟨-, rfl⟩ := track_some htrack
      simp only
      split
      next hterminated =>
        -- only a terminated track goes, and it does not play
        have hnone : KeyedList.lookup Track.self (w.mTracks.eraseP fun x => x.self = t.self) t.self = none :=
          KeyedList.lookup_eraseP_self hw.selves t.self
        have hstill : t.usesOutput = false := by
          simp only [Track.isTerminated, decide_eq_true_eq] at hterminated
          rw [Track.usesOutput, Track.isPlaying, hterminated]
          exact Bool.and_false _
        rw [track, removeTrack]
        simp only [hnone, Option.any_none, Option.any_some, hstill]
      next =>
        exact congrArg (Option.any Track.usesOutput) htrack
  · rw [playing, playing, hdestroying, (w.deactivate_other hb).1]

theorem deactivate_usageLog (w : Thread) (a : ℕ) : (w.deactivate a).usageLog = w.usageLog := by
  rw [Thread.deactivate]
  cases w.track a with
  | none => rfl
  | some t =>
    simp only
    split <;> rfl

theorem Using.foldl_deactivate (hw : w.Using) (as : List ℕ) : (as.foldl Thread.deactivate w).Using := by
  induction as generalizing w with
  | nil => exact hw
  | cons a as ih =>
    exact ih (hw.congr (hw.tracked.deactivate a) (w.deactivate_usageLog a) (playing_deactivate hw.tracked a))

/-! ## Every run -/

/-- The loop does not find a removed track to be a static one that still plays. -/
def UsageSound (w : Thread) : Event → Prop
  | .removeNext => ∀ a ∈ w.tracksToRemove.head?, ∀ t ∈ w.track a, t.mSharedBuffer = true → t.isPlaying = false
  | _ => True

instance (w : Thread) : ∀ e, Decidable (w.UsageSound e)
  | .removeNext => inferInstanceAs (Decidable (∀ a ∈ w.tracksToRemove.head?, ∀ t ∈ w.track a, _ → _))
  | .create _ | .addOutputTrack .. | .start _ | .stop _ | .pause _ | .flush _ | .destroy _ | .destroyTrack _ | .addEffectChain _
  | .removeEffectChain _ | .prepareTracks .. | .write | .standby => isTrue trivial

theorem usage_setMainBuffer (session : ℤ) (isMix : Bool) (tracks : List Track) :
    (setMainBuffer session isMix tracks).map Track.usage = tracks.map Track.usage := by
  rw [setMainBuffer, List.map_map]
  apply List.map_congr_left
  intro t _
  simp only [Function.comp]
  split <;> rfl

theorem Using.prepareTracks (hw : w.Using) (framesWritten audioHALFrames : ℕ) (look : ℕ → Track.Look) :
    (w.prepareTracks framesWritten audioHALFrames look).Using := by
  rw [prepareTracks_eq]
  have hswept := hw.tracked.swept_map usage_unwritten ⟨w.mStandby, framesWritten, audioHALFrames, look⟩
  have htracked : (w.swept (w.sweep ⟨w.mStandby, framesWritten, audioHALFrames, look⟩)).Tracked :=
    hw.tracked.congr (hw.tracked.swept_map fixed_unwritten _) rfl
  exact (hw.congr htracked rfl (playing_congr hswept rfl)).foldl_deactivate _

theorem Using.removeNext (hw : w.Using) (hok : w.UsageSound .removeNext) : w.removeNext.Using := by
  rw [Thread.removeNext]
  split
  · exact hw
  next a as has =>
    refine hw.congr (hw.tracked.congr rfl rfl) ?_ fun _ => rfl
    cases ht : w.track a with
    | none => rfl
    | some t =>
      simp only
      split
      next hplays =>
        rw [Bool.and_eq_true] at hplays
        have hstill := hok a (by rw [has]; rfl) t ht hplays.1
        exact absurd hplays.2 (Bool.eq_false_iff.mp hstill)
      · rfl

theorem Using.step (hw : w.Using) (hok : w.UsageSound e) (hstep : w.step e = some w') : w'.Using := by
  have htracked := hw.tracked.step hstep
  cases step_spec hstep with
  | create r hnew =>
    rw [createTrack]
    split
    · exact hw
    · exact hw.append hnew rfl rfl rfl rfl rfl
  | addOutputTrack self mResetDone _ hnew => exact hw.append hnew rfl rfl rfl rfl rfl
  | start t ht hheld =>
    refine hw.write (fun _ => Track.fixed_start (decide (t.self ∈ w.mActiveTracks))) ht hheld htracked ?_ ?_
    · intro b
      rw [Thread.start, activate]
      split <;> rfl
    · rw [Track.usesOutput_fixed (Track.fixed_start _), Track.isPlaying_start, Track.usesOutput, Thread.start]
      cases t.isOutputTrack <;> rfl
  | stop t ht hheld =>
    refine hw.write (fun _ => Track.fixed_stop (decide (t.self ∈ w.mActiveTracks))) ht hheld htracked
      (fun _ => rfl) ?_
    rw [Track.usesOutput_fixed (Track.fixed_stop _), Track.isPlaying_stop, Bool.and_false]
    rfl
  | pause t ht hheld =>
    refine hw.write (fun _ => Track.fixed_pause) ht hheld htracked (fun _ => rfl) ?_
    rw [Track.usesOutput_fixed Track.fixed_pause, Track.isPlaying_pause, Bool.and_false]
    rfl
  | flush t ht hheld =>
    refine hw.write (fun _ => Track.fixed_flush (decide (t.self ∈ w.mActiveTracks))) ht hheld htracked
      (fun _ => rfl) ?_
    rw [Track.usesOutput_fixed (Track.fixed_flush _), Track.isPlaying_flush, Track.usesOutput]
    cases (!t.isOutputTrack && t.isPlaying) <;> rfl
  | destroy t ht hheld => exact hw.destroy ht hheld
  | destroyTrack t ht hdoomed =>
    refine hw.congr htracked ?_ (playing_destroyTrack ht hdoomed)
    rw [Thread.destroyTrack]
    split <;> rfl
  | addEffectChain session =>
    refine hw.congr htracked rfl (playing_congr ?_ rfl)
    rw [Thread.addEffectChain]
    simp only
    split
    · exact usage_setMainBuffer ..
    · rfl
  | removeEffectChain => exact hw.congr htracked rfl (playing_congr (usage_setMainBuffer ..) rfl)
  | prepareTracks => exact hw.prepareTracks ..
  | removeNext => exact hw.removeNext hok
  | write => exact hw.congr htracked rfl fun _ => rfl
  | standby => exact hw.congr htracked rfl fun _ => rfl

/-- `stopOutput` was called at most once for each activation of a track, and exactly once when its
destruction has begun. -/
def Released (w : Thread) (a : ℕ) : Prop :=
  w.stops a ≤ w.activations a ∧ w.activations a ≤ w.stops a + 1 ∧
    (a ∈ w.destroying → w.activations a = w.stops a)

theorem Using.released (hw : w.Using) (a : ℕ) : w.Released a := by
  have haccount := hw.account a
  have hone := Bool.toNat_le (w.playing a)
  refine ⟨by omega, by omega, fun hdestroying => ?_⟩
  have hnot : w.playing a = false := by simp [playing, hdestroying]
  rw [haccount, hnot]
  rfl

/-- Along the steps that find no removed static track playing, every use of the output is released
once. -/
theorem released_along (isDirect hasFastMixer : Bool) (es : List Event) (w : Thread)
    (hrun : Machine.run step (new isDirect hasFastMixer) es = some w)
    (hsound : Machine.Along step UsageSound (new isDirect hasFastMixer) es) (a : ℕ) : w.Released a :=
  (Machine.run_invariant_along (fun _ _ _ hok hstep h => h.step hok hstep) hsound hrun
    (using_new ..) : w.Using).released a

/-- A static and a streaming track of a session, played and paused; the static one is stopped before
it ends, and destroyed. -/
def twoReleased : List Event :=
  [.create ⟨1, 7, true, false, true, ⟨0, 0, 0⟩, false⟩, .create ⟨2, 7, false, false, true, ⟨0, 0, 0⟩, false⟩,
    .start 1, .start 2, .pause 2, .prepareTracks 0 10 fun _ => ⟨true, true, ⟨0, 0, 0⟩⟩, .write, .start 2, .stop 1,
    .prepareTracks 20 0 fun _ => ⟨false, false, ⟨0, 0, 0⟩⟩, .removeNext, .destroy 1, .destroyTrack 1]

theorem released_along_twoReleased : ∃ w,
    Machine.run step (new false true) twoReleased = some w ∧ w.Released 1 := by
  have hrun := Option.eq_some_of_isSome
    (by decide : (Machine.run step (new false true) twoReleased).isSome = true)
  exact ⟨_, hrun, released_along false true twoReleased _ hrun (by decide) 1⟩

/-- A static track plays to its end and is destroyed: one activation, and two calls of
`stopOutput`. -/
theorem released_twice :
    (Machine.run step (new false true)
      [.create ⟨1, 7, true, false, true, ⟨0, 0, 0⟩, false⟩, .start 1,
        .prepareTracks 0 0 fun _ => ⟨true, true, ⟨0, 0, 0⟩⟩, .write,
        .prepareTracks 20 0 fun _ => ⟨false, false, ⟨0, 0, 0⟩⟩, .removeNext, .destroy 1]).map
          (fun w => (w.activations 1, w.stops 1)) = some (1, 2) := by
  decide

end Thread

end AudioFlinger.Playback
