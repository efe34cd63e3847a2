import Mathlib.Data.List.Perm.Subperm
import AudioFlinger.Playback.Thread

/-!
# The active tracks are tracks

The loop of `prepareTracks_l` writes only the states of tracks, and removes some of
the active ones. In every run tracks have addresses of their own, an active track
is one of the thread's, and one that is being destroyed by its client is still
there until it is terminated.
-/

namespace AudioFlinger.Playback

open Foundation

/-! ## Tracks at addresses -/

variable {β : Type*} {g : Track → β} {tracks tracks' : List Track} {t t' : Track} {a b : ℕ} {s : Thread.Sweep}
  {c : Track.Cycle}

/-- A track is written, but not `g` of it. -/
theorem map_update_const (hnodup : (tracks.map Track.self).Nodup)
    (hlook : KeyedList.lookup Track.self tracks a = some t) (hg : g t' = g t) :
    (KeyedList.update Track.self a (fun _ => t') tracks).map g = tracks.map g := by
  obtain ⟨ht, rfl⟩ := KeyedList.lookup_some hlook
  rw [KeyedList.update, List.map_map]
  apply List.map_congr_left
  intro x hx
  simp only [Function.comp]
  split
  next hself =>
    rw [hg, List.inj_on_of_nodup_map hnodup hx ht hself]
  next => rfl

theorem map_update {f : Track → Track} (hf : ∀ t, g (f t) = g t) (a : ℕ) (tracks : List Track) :
    (KeyedList.update Track.self a f tracks).map g = tracks.map g := by
  rw [KeyedList.update, List.map_map]
  apply List.map_congr_left
  intro x _
  simp only [Function.comp]
  split
  · exact hf x
  · rfl

/-- What is not written is the same of the track at an address. -/
theorem lookup_map {key : β → ℕ} (hkey : ∀ t, key (g t) = t.self) (h : tracks'.map g = tracks.map g) (a : ℕ) :
    (KeyedList.lookup Track.self tracks' a).map g = (KeyedList.lookup Track.self tracks a).map g := by
  have hfind : ∀ ts : List Track, (KeyedList.lookup Track.self ts a).map g =
      (ts.map g).find? fun x => key x = a := by
    intro ts
    rw [List.find?_map]
    simp only [Function.comp_def, hkey]
    rfl
  rw [hfind, hfind, h]

theorem map_self_eq (h : tracks'.map Track.fixed = tracks.map Track.fixed) :
    tracks'.map Track.self = tracks.map Track.self := by
  have hself := congrArg (List.map Track.Fixed.self) h
  rw [List.map_map, List.map_map] at hself
  exact hself

theorem lookup_fixed (h : tracks'.map Track.fixed = tracks.map Track.fixed) (a : ℕ) :
    (KeyedList.lookup Track.self tracks' a).map Track.fixed =
      (KeyedList.lookup Track.self tracks a).map Track.fixed :=
  lookup_map (fun _ => rfl : ∀ t : Track, t.fixed.self = t.self) h a

/-- A track after its round, as its kind asks for. -/
inductive Track.Prepared (c : Track.Cycle) (t : Track) : Track → Prop
  | direct (last : Bool) : Prepared c t (t.prepareDirect last c).1
  | fast : Prepared c t (t.prepareFast c).1
  | mixer : Prepared c t (t.prepareMixer c).1

/-- No cycle changes `g` of a track. -/
structure Track.Unwritten (g : Track → β) : Prop where
  prepared : ∀ c t t', Track.Prepared c t t' → g t' = g t
  reset : ∀ t : Track, g t.reset = g t

theorem kept_unwritten : Track.Unwritten Track.kept where
  prepared _ _ _
    | .direct last => Track.kept_prepareDirect last
    | .fast => Track.kept_prepareFast
    | .mixer => Track.kept_prepareMixer
  reset _ := Track.kept_reset

theorem fixed_unwritten : Track.Unwritten Track.fixed where
  prepared c t t' ht' := congrArg Prod.fst (kept_unwritten.prepared c t t' ht')
  reset _ := Track.fixed_reset

/-- Whether a cycle removes an active track, the last active one or not. -/
def Track.leaves (isDirect last : Bool) (c : Track.Cycle) (t : Track) : Bool :=
  if isDirect then (t.prepareDirect last c).2
  else if t.isFastTrack then (t.prepareFast c).2 = .leaves
  else (t.prepareMixer c).2

namespace Thread

/-! ## The loop over the active tracks -/

/-- What one round does: nothing, or its track is written and perhaps removed. -/
inductive Sweep.Round (isDirect : Bool) (last : Option ℕ) (c : Track.Cycle) (s : Sweep) (a : ℕ) :
    List Track → List ℕ → Prop
  | nothing : Round isDirect last c s a s.mTracks s.tracksToRemove
  | writes (t t' : Track) (gone : List ℕ) (hlook : KeyedList.lookup Track.self s.mTracks a = some t)
      (ht' : t.Prepared c t') (hgone : gone = [] ∨ gone = [a] ∧ t.leaves isDirect (last = some a) c = true) :
      Round isDirect last c s a (KeyedList.update Track.self a (fun _ => t') s.mTracks) (s.tracksToRemove ++ gone)

theorem Sweep.round_spec (isDirect : Bool) (last : Option ℕ) (c : Track.Cycle) (s : Sweep) (a : ℕ) :
    Sweep.Round isDirect last c s a (s.round isDirect last c a).mTracks
      (s.round isDirect last c a).tracksToRemove := by
  rw [Sweep.round]
  cases hlook : KeyedList.lookup Track.self s.mTracks a with
  | none => exact .nothing
  | some t =>
    have hstays : ∀ t', t.Prepared c t' → Sweep.Round isDirect last c s a
        (KeyedList.update Track.self a (fun _ => t') s.mTracks) s.tracksToRemove := by
      intro t' ht'
      have hround := @Sweep.Round.writes isDirect last c s a t t' [] hlook ht' (.inl rfl)
      rw [List.append_nil] at hround
      exact hround
    have hnormal : ∀ after : Track × Bool, t.Prepared c after.1 →
        (after.2 = true → t.leaves isDirect (last = some a) c = true) →
        Sweep.Round isDirect last c s a (s.normal a after).mTracks (s.normal a after).tracksToRemove := by
      intro after hafter hleaves
      rw [Sweep.normal]
      simp only
      split
      next hgone => exact .writes t after.1 [a] hlook hafter (.inr ⟨rfl, hleaves hgone⟩)
      · exact hstays _ hafter
    simp only
    split
    next hdirect =>
      refine hnormal _ (.direct _) fun hgone => ?_
      rw [Track.leaves, if_pos hdirect]
      exact hgone
    next hmixer =>
      split
      next j hj =>
        have hfast : t.isFastTrack = true := by rw [Track.isFastTrack, hj, Option.isSome_some]
        rw [Sweep.fast]
        simp only
        split
        · exact hstays _ .fast
        · exact hstays _ .fast
        next hgone =>
          have hleaves : t.leaves isDirect (last = some a) c = true := by
            rw [Track.leaves, if_neg hmixer, if_pos hfast, hgone]
            rfl
          split <;> exact .writes t _ [a] hlook .fast (.inr ⟨rfl, hleaves⟩)
      next hnone =>
        have hslow : ¬t.isFastTrack = true := by
          rw [Track.isFastTrack, hnone]
          exact Bool.false_ne_true
        refine hnormal _ .mixer fun hgone => ?_
        rw [Track.leaves, if_neg hmixer, if_neg hslow]
        exact hgone

/-- A round writes nothing but what cycles write. -/
theorem Sweep.round_map (hg : Track.Unwritten g) (hnodup : (s.mTracks.map Track.self).Nodup) (isDirect : Bool)
    (last : Option ℕ) (c : Track.Cycle) (a : ℕ) :
    (s.round isDirect last c a).mTracks.map g = s.mTracks.map g := by
  have hround := s.round_spec isDirect last c a
  generalize (s.round isDirect last c a).mTracks = after, (s.round isDirect last c a).tracksToRemove = gone at hround ⊢
  cases hround with
  | nothing => rfl
  | writes t t' gone hlook ht' _ => exact map_update_const hnodup hlook (hg.prepared c t t' ht')

/-- A round writes no other track. -/
theorem Sweep.round_other (isDirect : Bool) (last : Option ℕ) (c : Track.Cycle) (hne : b ≠ a) :
    KeyedList.lookup Track.self (s.round isDirect last c a).mTracks b = KeyedList.lookup Track.self s.mTracks b := by
  have hround := s.round_spec isDirect last c a
  generalize (s.round isDirect last c a).mTracks = after, (s.round isDirect last c a).tracksToRemove = gone at hround ⊢
  cases hround with
  | nothing => rfl
  | writes t t' gone hlook ht' _ =>
    have hself : t'.self = a :=
      (congrArg Track.Fixed.self (fixed_unwritten.prepared c t t' ht')).trans (KeyedList.lookup_some hlook).2
    rw [KeyedList.lookup_update fun _ _ => hself, if_neg hne]

/-- A round removes at most its own track, if it leaves. -/
theorem Sweep.round_gone (isDirect : Bool) (last : Option ℕ) (c : Track.Cycle) (s : Sweep) (a : ℕ) :
    ∃ gone, (s.round isDirect last c a).tracksToRemove = s.tracksToRemove ++ gone ∧
      (gone = [] ∨ gone = [a] ∧ ∃ t, KeyedList.lookup Track.self s.mTracks a = some t ∧
        t.leaves isDirect (last = some a) c = true) := by
  have hround := s.round_spec isDirect last c a
  generalize (s.round isDirect last c a).mTracks = after, (s.round isDirect last c a).tracksToRemove = all at hround ⊢
  cases hround with
  | nothing => exact ⟨[], (List.append_nil _).symm, .inl rfl⟩
  | writes t t' gone hlook _ hgone =>
    exact ⟨gone, rfl, hgone.imp_right fun h => ⟨h.1, t, hlook, h.2⟩⟩

/-- The loop writes nothing but what cycles write. -/
theorem Sweep.foldl_map (hg : Track.Unwritten g) (isDirect : Bool) (last : Option ℕ) (c : Track.Cycle) (as : List ℕ)
    (hnodup : (s.mTracks.map Track.self).Nodup) :
    (as.foldl (Sweep.round isDirect last c) s).mTracks.map g = s.mTracks.map g := by
  induction as generalizing s with
  | nil => rfl
  | cons a as ih =>
    have hself := map_self_eq (Sweep.round_map fixed_unwritten hnodup isDirect last c a)
    exact (ih (hself ▸ hnodup)).trans (Sweep.round_map hg hnodup isDirect last c a)

/-- The loop removes a part of the active tracks in their order, and those leave. -/
theorem Sweep.foldl_gone (isDirect : Bool) (last : Option ℕ) (c : Track.Cycle) {as : List ℕ} (has : as.Nodup) :
    ∃ gone, (as.foldl (Sweep.round isDirect last c) s).tracksToRemove = s.tracksToRemove ++ gone ∧
      gone.Sublist as ∧ ∀ b ∈ gone, ∃ t, KeyedList.lookup Track.self s.mTracks b = some t ∧
        t.leaves isDirect (last = some b) c = true := by
  induction as generalizing s with
  | nil => exact ⟨[], (List.append_nil _).symm, .slnil, nofun⟩
  | cons a as ih =>
    obtain ⟨hnew, has⟩ := List.nodup_cons.mp has
    obtain ⟨first, hfirst, hleaves⟩ := s.round_gone isDirect last c a
    obtain ⟨rest, hrest, hsub, hall⟩ := ih (s := s.round isDirect last c a) has
    have hlater : ∀ b ∈ rest, ∃ t, KeyedList.lookup Track.self s.mTracks b = some t ∧
        t.leaves isDirect (last = some b) c = true := by
      intro b hb
      obtain ⟨t, hlook, ht⟩ := hall b hb
      rw [Sweep.round_other isDirect last c (ne_of_mem_of_not_mem (hsub.subset hb) hnew)] at hlook
      exact ⟨t, hlook, ht⟩
    refine ⟨first ++ rest, by rw [List.foldl_cons, hrest, hfirst, List.append_assoc], ?_⟩
    rcases hleaves with rfl | ⟨rfl, ht⟩
    · exact ⟨hsub.cons a, hlater⟩
    · exact ⟨hsub.cons_cons a, List.forall_mem_cons.mpr ⟨ht, hlater⟩⟩

theorem Sweep.resetStopped_map (hg : Track.Unwritten g) (s : Sweep) : s.resetStopped.map g = s.mTracks.map g := by
  rw [Sweep.resetStopped, List.map_map]
  apply List.map_congr_left
  intro t _
  simp only [Function.comp]
  split
  · exact hg.reset t
  · rfl

/-! ## Every run -/

/-- Addresses are distinct, active tracks are there, and an active track that goes was terminated. -/
structure Tracked (w : Thread) : Prop where
  selves : (w.mTracks.map Track.self).Nodup
  actives : w.mActiveTracks.Nodup
  present : ∀ a ∈ w.mActiveTracks, a ∈ w.mTracks.map Track.self

variable {w w' : Thread} {e : Event}

theorem tracked_new (isDirect hasFastMixer : Bool) : (new isDirect hasFastMixer).Tracked :=
  ⟨List.nodup_nil, List.nodup_nil, nofun⟩

theorem Tracked.congr (hw : w.Tracked) (htracks : w'.mTracks.map Track.fixed = w.mTracks.map Track.fixed)
    (hactive : w'.mActiveTracks = w.mActiveTracks) : w'.Tracked := by
  have hself := map_self_eq htracks
  refine ⟨?_, ?_, ?_⟩
  · rw [hself]
    exact hw.selves
  · rw [hactive]
    exact hw.actives
  · rw [hself, hactive]
    exact hw.present

theorem track_some (h : w.track a = some t) : t ∈ w.mTracks ∧ t.self = a := KeyedList.lookup_some h

theorem mem_selves_iff : a ∈ w.mTracks.map Track.self ↔ ∃ t, w.track a = some t := by
  constructor
  · intro h
    cases htrack : w.track a with
    | none =>
      obtain ⟨t, ht, hself⟩ := List.mem_map.mp h
      exact absurd hself (KeyedList.lookup_none htrack t ht)
    | some t => exact ⟨t, rfl⟩
  · rintro ⟨t, ht⟩
    obtain ⟨hmem, rfl⟩ := track_some ht
    exact List.mem_map_of_mem hmem

theorem held_some (h : w.held a = some t) : w.track a = some t ∧ a ∉ w.destroying := by
  rw [held] at h
  split at h
  · cases h
  next hnot => exact ⟨h, hnot⟩

theorem doomed_some (h : w.doomed a = some t) : w.track a = some t ∧ a ∈ w.destroying := by
  rw [doomed] at h
  split at h
  next hmem => exact ⟨(Option.filter_eq_some_iff.mp h).1, hmem⟩
  · cases h

/-- A track that is not active is removed. -/
theorem Tracked.removeTrack (hw : w.Tracked) (hinactive : t.self ∉ w.mActiveTracks) :
    (w.removeTrack t).Tracked := by
  refine ⟨hw.selves.sublist (List.eraseP_sublist.map _), hw.actives, fun b hb => ?_⟩
  obtain ⟨x, hx, rfl⟩ := List.mem_map.mp (hw.present b hb)
  apply List.mem_map_of_mem
  have hne : ¬ (decide (x.self = t.self)) = true := by
    rw [decide_eq_true_eq]
    intro heq
    rw [heq] at hb
    exact hinactive hb
  simpa only [Thread.removeTrack, List.mem_eraseP_of_neg (p := fun y : Track => decide (y.self = t.self)) hne] using hx

theorem Tracked.deactivate (hw : w.Tracked) (a : ℕ) : (w.deactivate a).Tracked := by
  rw [Thread.deactivate]
  cases htrack : w.track a with
  | none => exact hw
  | some t =>
    obtain ⟨-, rfl⟩ := track_some htrack
    simp only
    generalize hchains : (if w.isDirect = true then _ else _ : List Chain) = chains
    have hless : ({ w with
        mActiveTracks := w.mActiveTracks.erase t.self
        mEffectChains := chains } : Thread).Tracked :=
      ⟨hw.selves, hw.actives.erase _, fun b hb => hw.present b (List.mem_of_mem_erase hb)⟩
    split
    · exact hless.removeTrack hw.actives.not_mem_erase
    · exact hless

/-- The other tracks stay as they are. -/
theorem deactivate_other (w : Thread) (hne : b ≠ a) :
    (w.deactivate a).track b = w.track b ∧ (b ∈ (w.deactivate a).mActiveTracks ↔ b ∈ w.mActiveTracks) := by
  rw [Thread.deactivate]
  cases htrack : w.track a with
  | none => exact ⟨rfl, Iff.rfl⟩
  | some t =>
    obtain ⟨-, rfl⟩ := track_some htrack
    have herase : b ∈ w.mActiveTracks.erase t.self ↔ b ∈ w.mActiveTracks := List.mem_erase_of_ne hne
    simp only
    split
    · exact ⟨KeyedList.lookup_eraseP hne, herase⟩
    · exact ⟨rfl, herase⟩

theorem Tracked.foldl_deactivate (hw : w.Tracked) (as : List ℕ) : (as.foldl Thread.deactivate w).Tracked := by
  induction as generalizing w with
  | nil => exact hw
  | cons a as ih => exact ih (hw.deactivate a)

/-- What is removed after the loop. -/
def swept (w : Thread) (s : Sweep) : Thread :=
  { w with
    mTracks := s.resetStopped
    mTrackMask := s.mTrackMask
    tracksToRemove := s.tracksToRemove
    fatal := s.fatal
    fastLog := if s.didModify then .pushed s.mTrackMask s.untilAcked :: w.fastLog else w.fastLog }

theorem prepareTracks_eq (framesWritten audioHALFrames : ℕ) (look : ℕ → Track.Look) (w : Thread) :
    w.prepareTracks framesWritten audioHALFrames look =
      (w.sweep ⟨w.mStandby, framesWritten, audioHALFrames, look⟩).tracksToRemove.foldl deactivate
        (w.swept (w.sweep ⟨w.mStandby, framesWritten, audioHALFrames, look⟩)) := rfl

/-- The loop writes nothing but what cycles write. -/
theorem Tracked.swept_map (hw : w.Tracked) (hg : Track.Unwritten g) (c : Track.Cycle) :
    (w.swept (w.sweep c)).mTracks.map g = w.mTracks.map g :=
  (Sweep.resetStopped_map hg _).trans (Sweep.foldl_map hg w.isDirect w.mActiveTracks.getLast? c w.mActiveTracks
    hw.selves)

/-- The tracks that the loop removes are active ones that leave. -/
theorem Tracked.sweep_gone (hw : w.Tracked) (c : Track.Cycle) :
    (w.sweep c).tracksToRemove.Sublist w.mActiveTracks ∧ ∀ a ∈ (w.sweep c).tracksToRemove,
      ∃ t, w.track a = some t ∧ t.leaves w.isDirect (w.mActiveTracks.getLast? = some a) c = true := by
  obtain ⟨gone, heq, hsub, hleaves⟩ := Sweep.foldl_gone (s := ⟨w.mTracks, w.mTrackMask, false, false, [], w.fatal⟩)
    w.isDirect w.mActiveTracks.getLast? c hw.actives
  rw [Thread.sweep, heq]
  exact ⟨hsub, hleaves⟩

theorem setMainBuffer_self (session : ℤ) (isMix : Bool) (tracks : List Track) :
    (setMainBuffer session isMix tracks).map Track.self = tracks.map Track.self := by
  rw [setMainBuffer, List.map_map]
  apply List.map_congr_left
  intro t _
  simp only [Function.comp]
  split <;> rfl

theorem Tracked.setMainBuffer (hw : w.Tracked) (hself : w'.mTracks.map Track.self = w.mTracks.map Track.self)
    (hactive : w'.mActiveTracks = w.mActiveTracks) : w'.Tracked := by
  refine ⟨?_, ?_, ?_⟩
  · rw [hself]
    exact hw.selves
  · rw [hactive]
    exact hw.actives
  · rw [hself, hactive]
    exact hw.present

theorem Tracked.activate (hw : w.Tracked) (ht : w.track t.self = some t') : (w.activate t).Tracked := by
  rw [Thread.activate]
  split
  · exact hw
  next hnew =>
    have hperm : (w.mActiveTracks.orderedInsert (· ≤ ·) t.self).Perm (t.self :: w.mActiveTracks) :=
      List.perm_orderedInsert ..
    refine ⟨hw.selves, hperm.nodup_iff.mpr (List.nodup_cons.mpr ⟨hnew, hw.actives⟩), fun b hb => ?_⟩
    rcases List.mem_cons.mp (hperm.mem_iff.mp hb) with rfl | hb
    · exact mem_selves_iff.mpr ⟨t', ht⟩
    · exact hw.present b hb

theorem Tracked.update (hw : w.Tracked) {f : Track → Track} (hf : ∀ t, (f t).fixed = t.fixed) (a : ℕ) :
    (w.updateTrack a f).Tracked :=
  hw.congr (map_update hf a w.mTracks) rfl

/-- The track after it was written, at its address. -/
theorem track_updateTrack {f : Track → Track} (hf : ∀ t, (f t).fixed = t.fixed) (h : w.track a = some t) :
    (w.updateTrack a f).track a = some (f t) := by
  have hlook := @KeyedList.lookup_update _ _ _ Track.self w.mTracks a f
    (fun x hx => (congrArg Track.Fixed.self (hf x)).trans hx) a
  have hfound : KeyedList.lookup Track.self w.mTracks a = some t := h
  rw [if_pos rfl, hfound] at hlook
  exact hlook

/-- A new track, which is not active. -/
theorem Tracked.append (hw : w.Tracked) (hnew : w.track t.self = none) (htracks : w'.mTracks = w.mTracks ++ [t])
    (hactive : w'.mActiveTracks = w.mActiveTracks) : w'.Tracked := by
  have hfresh : t.self ∉ w.mTracks.map Track.self := by
    rw [mem_selves_iff, hnew]
    rintro ⟨x, ⟨⟩⟩
  refine ⟨?_, hactive ▸ hw.actives, fun b hb => ?_⟩
  · rw [htracks, List.map_append, List.map_singleton, ← List.concat_eq_append]
    exact hw.selves.concat hfresh
  · rw [htracks, List.map_append]
    exact List.mem_append_left _ (hw.present b (hactive ▸ hb))

/-- What each event does, and when it can happen. -/
inductive Steps (w : Thread) : Event → Thread → Prop
  | create (r : NewTrack) (hnew : w.track r.self = none) : Steps w (.create r) (w.createTrack r)
  | addOutputTrack (self : ℕ) (mResetDone : Bool) (hdirect : w.isDirect = false) (hnew : w.track self = none) :
      Steps w (.addOutputTrack self mResetDone) (w.addOutputTrack self mResetDone)
  | start (t : Track) (ht : w.track t.self = some t) (hheld : t.self ∉ w.destroying) :
      Steps w (.start t.self) (w.start t)
  | stop (t : Track) (ht : w.track t.self = some t) (hheld : t.self ∉ w.destroying) :
      Steps w (.stop t.self) (w.stop t)
  | pause (t : Track) (ht : w.track t.self = some t) (hheld : t.self ∉ w.destroying) :
      Steps w (.pause t.self) (w.pause t)
  | flush (t : Track) (ht : w.track t.self = some t) (hheld : t.self ∉ w.destroying) :
      Steps w (.flush t.self) (w.flush t)
  | destroy (t : Track) (ht : w.track t.self = some t) (hheld : t.self ∉ w.destroying) :
      Steps w (.destroy t.self) (w.destroy t)
  | destroyTrack (t : Track) (ht : w.track t.self = some t) (hdoomed : t.self ∈ w.destroying) :
      Steps w (.destroyTrack t.self) (w.destroyTrack t)
  | addEffectChain (session : ℤ) (hnew : w.getEffectChain session = none) :
      Steps w (.addEffectChain session) (w.addEffectChain session)
  | removeEffectChain (session : ℤ) : Steps w (.removeEffectChain session) (w.removeEffectChain session)
  | prepareTracks (framesWritten audioHALFrames : ℕ) (look : ℕ → Track.Look) :
      Steps w (.prepareTracks framesWritten audioHALFrames look) (w.prepareTracks framesWritten audioHALFrames look)
  | removeNext : Steps w .removeNext w.removeNext
  | write : Steps w .write { w with mStandby := false }
  | standby : Steps w .standby { w with mStandby := true }

theorem free_track (h : w.free a = true) : w.track a = none := by
  rw [free, Bool.and_eq_true, Bool.and_eq_true] at h
  exact Option.isNone_iff_eq_none.mp h.1.1

/-- A call of a client on a track that it holds. -/
theorem held_call {f : Track → Thread} (h : (w.held a).map f = some w') :
    ∃ t, t.self = a ∧ f t = w' ∧ w.track t.self = some t ∧ t.self ∉ w.destroying := by
  obtain ⟨t, ht, rfl⟩ := Option.map_eq_some_iff.mp h
  obtain ⟨htrack, hheld⟩ := held_some ht
  obtain ⟨-, rfl⟩ := track_some htrack
  exact ⟨t, rfl, rfl, htrack, hheld⟩

theorem step_spec (hstep : w.step e = some w') : w.Steps e w' := by
  cases e with
  | create r =>
    obtain ⟨hfree, rfl⟩ := Option.ite_some_none_eq_some.mp hstep
    exact .create r (free_track hfree)
  | addOutputTrack self mResetDone =>
    obtain ⟨hfree, rfl⟩ := Option.ite_some_none_eq_some.mp hstep
    rw [Bool.and_eq_true, Bool.not_eq_true'] at hfree
    exact .addOutputTrack self mResetDone hfree.1 (free_track hfree.2)
  | start a =>
    obtain ⟨t, rfl, rfl, ht, hheld⟩ := held_call hstep
    exact .start t ht hheld
  | stop a =>
    obtain ⟨t, rfl, rfl, ht, hheld⟩ := held_call hstep
    exact .stop t ht hheld
  | pause a =>
    obtain ⟨t, rfl, rfl, ht, hheld⟩ := held_call hstep
    exact .pause t ht hheld
  | flush a =>
    obtain ⟨t, rfl, rfl, ht, hheld⟩ := held_call hstep
    exact .flush t ht hheld
  | destroy a =>
    obtain ⟨t, rfl, rfl, ht, hheld⟩ := held_call hstep
    exact .destroy t ht hheld
  | destroyTrack a =>
    obtain ⟨t, ht, rfl⟩ := Option.map_eq_some_iff.mp hstep
    obtain ⟨htrack, hdoomed⟩ := doomed_some ht
    obtain ⟨-, rfl⟩ := track_some htrack
    exact .destroyTrack t htrack hdoomed
  | addEffectChain session =>
    obtain ⟨hnew, hsome⟩ := Option.ite_none_left_eq_some.mp hstep
    cases hsome
    exact .addEffectChain session (Option.not_isSome_iff_eq_none.mp hnew)
  | removeEffectChain session =>
    obtain ⟨-, rfl⟩ := Option.ite_some_none_eq_some.mp hstep
    exact .removeEffectChain session
  | prepareTracks framesWritten audioHALFrames look =>
    obtain ⟨-, rfl⟩ := Option.ite_some_none_eq_some.mp hstep
    exact .prepareTracks framesWritten audioHALFrames look
  | removeNext =>
    obtain ⟨-, hsome⟩ := Option.ite_none_left_eq_some.mp hstep
    cases hsome
    exact .removeNext
  | write =>
    cases hstep
    exact .write
  | standby =>
    cases hstep
    exact .standby

theorem Tracked.step (hw : w.Tracked) (hstep : w.step e = some w') : w'.Tracked := by
  cases step_spec hstep with
  | create r hnew =>
    rw [createTrack]
    split
    · exact hw
    · exact hw.append hnew rfl rfl
  | addOutputTrack self mResetDone _ hnew => exact hw.append hnew rfl rfl
  | start t ht =>
    have hstarted := track_updateTrack (fun x => @Track.fixed_start x (decide (t.self ∈ w.mActiveTracks))) ht
    exact ((hw.update (fun _ => Track.fixed_start _) t.self).activate hstarted).congr rfl rfl
  | stop t => exact hw.congr (map_update (fun _ => Track.fixed_stop _) t.self w.mTracks) rfl
  | pause t => exact hw.congr (map_update (fun _ => Track.fixed_pause) t.self w.mTracks) rfl
  | flush t => exact hw.congr (map_update (fun _ => Track.fixed_flush _) t.self w.mTracks) rfl
  | destroy => exact hw.congr rfl rfl
  | destroyTrack t =>
    have hupdate := hw.update (fun t => @Track.fixed_terminate t) t.self
    rw [Thread.destroyTrack]
    split
    · exact hupdate
    next hnot => exact hupdate.removeTrack hnot
  | addEffectChain session =>
    refine hw.setMainBuffer ?_ rfl
    rw [Thread.addEffectChain]
    simp only
    split
    · exact setMainBuffer_self ..
    · rfl
  | removeEffectChain => exact hw.setMainBuffer (setMainBuffer_self ..) rfl
  | prepareTracks framesWritten audioHALFrames look =>
    rw [prepareTracks_eq]
    exact (hw.congr (hw.swept_map fixed_unwritten _) rfl : (w.swept _).Tracked).foldl_deactivate _
  | removeNext =>
    rw [Thread.removeNext]
    split
    · exact hw
    · exact hw.congr rfl rfl
  | write => exact hw.congr rfl rfl
  | standby => exact hw.congr rfl rfl

end Thread

end AudioFlinger.Playback
