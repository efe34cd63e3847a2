import AudioFlinger.Playback.Sweep

/-!
# Fast tracks

A fast track has a slot of the fast mixer. Its bit in `mTrackMask` is set in the
first cycle in which it is active, and cleared in the one that removes it. A track may
change its state before its first cycle, and then a cycle that would remove it finds
no bit to clear.
-/

namespace AudioFlinger.Playback

open Foundation BitMask

/-! ## One cycle of a fast track -/

namespace Track

variable {t : Track} {c : Cycle}

/-- The underruns since the last cycle. -/
def recent (c : Cycle) (t : Track) : Underruns :=
  ⟨(c.look t.self).underruns.mFull - t.mObservedUnderruns.mFull,
    (c.look t.self).underruns.mPartial - t.mObservedUnderruns.mPartial,
    (c.look t.self).underruns.mEmpty - t.mObservedUnderruns.mEmpty⟩

/-- The states in which a fast track leaves when it is presented; for an active one that is static,
with an underrun. -/
def ended (c : Cycle) (t : Track) : Bool :=
  t.mState = .stopping2 || t.mState = .paused || t.mState = .terminated || t.isStopped ||
    t.mState = .active && t.mSharedBuffer && underrun (t.recent c)

/-- A track that was activated since the last cycle. -/
def Fresh (t : Track) : Prop := kMaxTrackRetries ≤ t.mRetryCount ∧ t.mPresentationCompleteFrames = 0

theorem presented_state : (t.presented c).1.mState = t.mState := by
  rw [presented]
  split
  · rfl
  · simp only [presentationComplete]
    split <;> rfl

theorem retried_state (recent : Underruns) : (t.retried recent).mState = t.mState := by
  rw [retried]
  split <;> rfl

/-- Neither idle nor unexpected. -/
def Expected (after : Track × Fast) : Prop := after.1.mState ≠ .idle ∧ after.2 ≠ .unexpected

theorem leaveFast_expected (h : t.mState ≠ .idle) : Expected (t.leaveFast c) := by
  rw [leaveFast]
  simp only
  split
  · refine ⟨?_, by simp⟩
    split
    · simp
    · rwa [presented_state]
  · exact ⟨by rwa [presented_state], by simp⟩

theorem switchActive_expected (recent : Underruns) (h : t.mState ≠ .idle) : Expected (t.switchActive c recent) := by
  have hretried : (t.retried recent).mState ≠ .idle := by rwa [retried_state]
  rw [switchActive]
  simp only
  split
  · exact ⟨hretried, by simp⟩
  · split
    · exact leaveFast_expected hretried
    · split
      · exact ⟨hretried, by simp⟩
      · refine ⟨hretried, ?_⟩
        split <;> simp

/-- No track becomes idle in the loop. -/
theorem prepareFast_expected (h : t.mState ≠ .idle) : Expected (t.prepareFast c) := by
  have hobserved : ({ t with mObservedUnderruns := (c.look t.self).underruns } : Track).mState ≠ .idle := h
  rw [prepareFast, switchFast]
  simp only
  split
  next hstate =>
    refine ⟨?_, by simp⟩
    split
    · simp
    · exact hobserved
  · exact ⟨by simp, by simp⟩
  · exact ⟨by simp, by simp⟩
  · exact switchActive_expected _ hobserved
  · exact leaveFast_expected hobserved
  · exact leaveFast_expected hobserved
  · exact leaveFast_expected hobserved
  · exact leaveFast_expected hobserved
  · exact leaveFast_expected hobserved
  next hstate => exact absurd hstate h

/-- A fresh track is presented in standby, and where the output has no latency. -/
theorem presented_fresh (hfresh : t.mPresentationCompleteFrames = 0) :
    (t.presented c).2 = (c.mStandby || c.audioHALFrames = 0) := by
  rw [presented]
  split
  next hstandby => rw [hstandby]; rfl
  next hstandby =>
    rw [Bool.eq_false_iff.mpr hstandby, Bool.false_or, presentationComplete, if_pos hfresh]
    simp only [decide_eq_decide]
    omega

theorem leaveFast_fresh (hfresh : t.mPresentationCompleteFrames = 0)
    (hnot : ¬(c.mStandby = true ∨ c.audioHALFrames = 0)) : (t.leaveFast c).2 = .stays := by
  have hpresented : (t.presented c).2 = false := by
    rw [presented_fresh hfresh]
    simpa using hnot
  rw [leaveFast]
  simp only
  rw [if_neg (Bool.eq_false_iff.mp hpresented)]

theorem switchActive_fresh (recent : Underruns) (hfresh : t.Fresh)
    (hnot : t.mSharedBuffer = true → underrun recent = true → ¬(c.mStandby = true ∨ c.audioHALFrames = 0)) :
    (t.switchActive c recent).2 = .stays := by
  have hretry : 50 ≤ (t.retried recent).mRetryCount := by
    rw [retried]
    split
    · exact le_refl _
    · exact hfresh.1
  have hframes : (t.retried recent).mPresentationCompleteFrames = 0 := by
    rw [retried]
    split <;> exact hfresh.2
  have hshared : (t.retried recent).mSharedBuffer = t.mSharedBuffer :=
    congrArg (fun k => k.1.mSharedBuffer) (kept_retried recent)
  rw [switchActive]
  simp only
  split
  · rfl
  next hunderrun =>
    split
    next hstatic => exact leaveFast_fresh hframes (hnot (hshared ▸ hstatic) (by simpa using hunderrun))
    · split
      · rfl
      · exact if_pos (by omega)

/-- A fresh track that has not ended, or is not presented yet, stays. -/
theorem prepareFast_fresh (h : t.mState ≠ .idle) (hfresh : t.Fresh)
    (hstays : c.mStandby = true ∨ c.audioHALFrames = 0 → t.ended c = false) : (t.prepareFast c).2 = .stays := by
  have hobserved : ({ t with mObservedUnderruns := (c.look t.self).underruns } : Track).Fresh := hfresh
  have hleave : t.ended c = true →
      (leaveFast c { t with mObservedUnderruns := (c.look t.self).underruns }).2 = .stays := fun hended =>
    leaveFast_fresh hobserved.2 fun hpresented => Bool.false_ne_true ((hstays hpresented).symm.trans hended)
  rw [prepareFast, switchFast]
  simp only
  split
  · rfl
  · rfl
  · rfl
  next hstate =>
    refine switchActive_fresh _ hobserved fun hstatic hunderrun hpresented => ?_
    have hactive : t.mState = .active := hstate
    have hshared : t.mSharedBuffer = true := hstatic
    have hrecent : underrun (t.recent c) = true := hunderrun
    have hnot := hstays hpresented
    simp [ended, hactive, hshared, hrecent] at hnot
  next hstate => exact hleave (by simp [ended, (hstate : t.mState = .stopping2)])
  next hstate => exact hleave (by simp [ended, (hstate : t.mState = .paused)])
  next hstate => exact hleave (by simp [ended, (hstate : t.mState = .terminated)])
  next hstate => exact hleave (by simp [ended, isStopped, (hstate : t.mState = .stopped)])
  next hstate => exact hleave (by simp [ended, isStopped, (hstate : t.mState = .flushed)])
  next hstate => exact absurd hstate h

end Track

namespace Thread

variable {w w' : Thread} {e : Event} {t : Track} {a b j : ℕ} {as leaving : List ℕ} {s : Sweep} {c : Track.Cycle}

/-! ## Slots and bits -/

/-- The slots that the fast mixer may still read: those of the last state that it acknowledged, and of
the states pushed since. -/
def mixing : List FastOp → BitVec 32
  | [] => 1#32
  | .pushed mTrackMask acked :: log => if acked then mTrackMask else mixing log ||| mTrackMask
  | .returned _ :: log => mixing log

/-- The slot of the track at an address. -/
def slotAt (w : Thread) (a : ℕ) : Option ℕ := (w.track a).bind Track.mFastIndex

theorem slotAt_some : w.slotAt a = some j ↔ ∃ t, w.track a = some t ∧ t.mFastIndex = some j :=
  Option.bind_eq_some_iff

theorem slotAt_fixed (h : w'.mTracks.map Track.fixed = w.mTracks.map Track.fixed) (a : ℕ) :
    w'.slotAt a = w.slotAt a := by
  have hlook := congrArg (fun o => o.bind Track.Fixed.mFastIndex) (lookup_fixed h a)
  simp only [Option.bind_map] at hlook
  exact hlook

/-- Slots are owned once and not available, a set bit is that of an active track, an active track with
a clear bit is fresh, and the fast mixer reads what the mask says; `leaving` has active tracks that
are about to be removed. -/
structure Masked (w : Thread) (leaving : List ℕ) : Prop where
  tracked : w.Tracked
  fatal : w.fatal = false
  direct : w.isDirect = true → w.hasFastMixer = false
  slots : ∀ a j, w.slotAt a = some j → w.isDirect = false ∧ j ≠ 0 ∧ j < 32 ∧
    w.mFastTrackAvailMask.getLsbD j = false
  first : w.mFastTrackAvailMask.getLsbD 0 = false
  owned : ∀ a b j, w.slotAt a = some j → w.slotAt b = some j → a = b
  bits : ∀ j, j ≠ 0 → w.mTrackMask.getLsbD j = true → ∃ a ∈ w.mActiveTracks, a ∉ leaving ∧ w.slotAt a = some j
  settled : ∀ a ∈ w.mActiveTracks, a ∉ leaving → ∀ t, w.track a = some t → ∀ j, t.mFastIndex = some j →
    t.mState ≠ .idle ∧ (w.mTrackMask.getLsbD j = false → t.Fresh)
  mixed : mixing w.fastLog = w.mTrackMask
  returned : ∀ j log, (FastOp.returned j :: log) <:+ w.fastLog → (mixing log).getLsbD j = false

theorem masked_new (isDirect hasFastMixer : Bool) : (new isDirect hasFastMixer).Masked [] where
  tracked := tracked_new ..
  fatal := rfl
  direct h := by
    have hdirect : isDirect = true := h
    rw [new, hdirect]
    rfl
  slots := nofun
  first := (by decide : (0xFE#32).getLsbD 0 = false)
  owned := nofun
  bits j hj hbit := by
    have hone : (1#32).getLsbD j = true := hbit
    simp [hj] at hone
  settled := nofun
  mixed := rfl
  returned j log h := absurd (List.eq_nil_of_suffix_nil h) (List.cons_ne_nil _ _)

/-! ## The loop over the active tracks -/

/-- The loop in a thread `w`, before the rounds for `as`. -/
structure Sweep.Looping (w : Thread) (s : Sweep) (as : List ℕ) : Prop where
  fatal : s.fatal = false
  fixed : s.mTracks.map Track.fixed = w.mTracks.map Track.fixed
  pending : ∀ a ∈ as, a ∉ s.tracksToRemove ∧ KeyedList.lookup Track.self s.mTracks a = w.track a ∧
    ∀ j, w.slotAt a = some j → s.mTrackMask.getLsbD j = w.mTrackMask.getLsbD j
  bits : ∀ j, j ≠ 0 → s.mTrackMask.getLsbD j = true →
    ∃ a ∈ w.mActiveTracks, a ∉ s.tracksToRemove ∧ w.slotAt a = some j
  settled : ∀ a ∈ w.mActiveTracks, a ∉ as → a ∉ s.tracksToRemove →
    ∀ t, KeyedList.lookup Track.self s.mTracks a = some t → ∀ j, t.mFastIndex = some j →
      t.mState ≠ .idle ∧ s.mTrackMask.getLsbD j = true
  modified : s.didModify = false → s.mTrackMask = w.mTrackMask
  acked : s.untilAcked = false → ∀ j, w.mTrackMask.getLsbD j = true → s.mTrackMask.getLsbD j = true

theorem Sweep.Looping.slotAt (hs : s.Looping w as) (a : ℕ) :
    (KeyedList.lookup Track.self s.mTracks a).bind Track.mFastIndex = w.slotAt a :=
  @slotAt_fixed w { w with mTracks := s.mTracks } hs.fixed a

theorem lookup_update_ne {after : Track} (hself : after.self = a) (hne : b ≠ a) (tracks : List Track) :
    KeyedList.lookup Track.self (KeyedList.update Track.self a (fun _ => after) tracks) b =
      KeyedList.lookup Track.self tracks b := by
  rw [KeyedList.lookup_update fun _ _ => hself, if_neg hne]

theorem lookup_update_eq {after : Track} {tracks : List Track} (hself : after.self = a)
    (hlook : KeyedList.lookup Track.self tracks a = some t) :
    KeyedList.lookup Track.self (KeyedList.update Track.self a (fun _ => after) tracks) a = some after := by
  rw [KeyedList.lookup_update fun _ _ => hself, if_pos rfl, hlook]
  rfl

section Round

variable {after : Track}

/-- The track that a round writes. -/
theorem Sweep.Looping.written (hw : w.Tracked) (hs : s.Looping w (a :: as)) (ht : w.track a = some t)
    (hafter : after.fixed = t.fixed) :
    after.self = a ∧ KeyedList.lookup Track.self s.mTracks a = some t ∧
      (KeyedList.update Track.self a (fun _ => after) s.mTracks).map Track.fixed = w.mTracks.map Track.fixed := by
  obtain ⟨-, hlook, -⟩ := hs.pending a List.mem_cons_self
  rw [ht] at hlook
  have hnodup : (s.mTracks.map Track.self).Nodup := map_self_eq hs.fixed ▸ hw.selves
  exact ⟨(congrArg Track.Fixed.self hafter).trans (KeyedList.lookup_some hlook).2, hlook,
    (map_update_const hnodup hlook hafter).trans hs.fixed⟩

/-- A track that is not fast does not touch the mask. -/
theorem Sweep.Looping.normal (hw : w.Tracked) (hs : s.Looping w (a :: as)) (hnew : a ∉ as) (ht : w.track a = some t)
    (hslow : w.slotAt a = none) (hafter : after.fixed = t.fixed) (gone : Bool) :
    (s.normal a (after, gone)).Looping w as := by
  obtain ⟨hself, hlook, hwritten⟩ := hs.written hw ht hafter
  have hmore : ∀ b, b ≠ a → (b ∉ (s.normal a (after, gone)).tracksToRemove ↔ b ∉ s.tracksToRemove) := by
    intro b hb
    rw [Sweep.normal]
    simp only
    split
    · rw [List.mem_append, List.mem_singleton, or_iff_left hb]
    · rfl
  refine ⟨hs.fatal, hwritten, fun b hb => ?_, fun j hj hbit => ?_,
    fun b hb hdone hremain x hx j hj => ?_, hs.modified, hs.acked⟩
  · have hne := ne_of_mem_of_not_mem hb hnew
    obtain ⟨hb, hlookb, hbits⟩ := hs.pending b (List.mem_cons_of_mem a hb)
    exact ⟨(hmore b hne).mpr hb, (lookup_update_ne hself hne _).trans hlookb, hbits⟩
  · obtain ⟨b, hb, hremain, hslot⟩ := hs.bits j hj hbit
    have hne : b ≠ a := by
      rintro rfl
      rw [hslow] at hslot
      cases hslot
    exact ⟨b, hb, (hmore b hne).mpr hremain, hslot⟩
  · by_cases hne : b = a
    · have hown := (@slotAt_some w a j).mpr ⟨t, ht, ?_⟩
      · rw [hslow] at hown
        cases hown
      · rw [hne] at hx
        have hx' := (lookup_update_eq hself hlook).symm.trans hx
        cases hx'
        exact (congrArg Track.Fixed.mFastIndex hafter).symm.trans hj
    · refine hs.settled b hb (fun hmem => ?_) ((hmore b hne).mp hremain) x
        ((lookup_update_ne hself hne _).symm.trans hx) j hj
      rcases List.mem_cons.mp hmem with heq | hmem
      · exact hne heq
      · exact hdone hmem

/-- A fast track stays, and its bit is set. -/
theorem Sweep.Looping.stays (hw : w.Masked []) (hs : s.Looping w (a :: as)) (hnew : a ∉ as)
    (ha : a ∈ w.mActiveTracks) (ht : w.track a = some t) (hj : t.mFastIndex = some j) (hafter : after.fixed = t.fixed)
    (hstate : after.mState ≠ .idle) : (s.fast a j (after, .stays)).Looping w as := by
  obtain ⟨hself, hlook, hwritten⟩ := hs.written hw.tracked ht hafter
  have hslot : w.slotAt a = some j := slotAt_some.mpr ⟨t, ht, hj⟩
  have hset : ∀ k, (setBit s.mTrackMask j).getLsbD k = true ↔ s.mTrackMask.getLsbD k = true ∨ k = j := by
    intro k
    by_cases hk : k < 32
    · rw [getLsbD_setBit _ k j hk, Bool.or_eq_true, decide_eq_true_eq]
    · have hlarge : ∀ m : BitVec 32, m.getLsbD k = false := fun m => BitVec.getLsbD_of_ge m k (Nat.not_lt.mp hk)
      have hne : k ≠ j := fun h => hk (h ▸ (hw.slots a j hslot).2.2.1)
      simp [hlarge, hne]
  refine ⟨hs.fatal, hwritten, fun b hb => ?_, fun k hk hbit => ?_,
    fun b hb hdone hremain x hx k hk => ?_, fun hmod => ?_, fun hack k hk => ?_⟩
  · have hne := ne_of_mem_of_not_mem hb hnew
    obtain ⟨hb, hlookb, hbits⟩ := hs.pending b (List.mem_cons_of_mem a hb)
    refine ⟨hb, (lookup_update_ne hself hne _).trans hlookb, fun k hk => ?_⟩
    have hkj : k ≠ j := fun h => hne (hw.owned b a j (h ▸ hk) hslot)
    rw [← hbits k hk, Bool.eq_iff_iff]
    exact (hset k).trans (or_iff_left hkj)
  · rcases (hset k).mp hbit with hold | rfl
    · exact hs.bits k hk hold
    · exact ⟨a, ha, (hs.pending a List.mem_cons_self).1, hslot⟩
  · by_cases hne : b = a
    · rw [hne] at hx
      have hx' := (lookup_update_eq hself hlook).symm.trans hx
      cases hx'
      have hsame := (congrArg Track.Fixed.mFastIndex hafter).symm.trans hk
      have hkj : k = j := Option.some_inj.mp (hsame.symm.trans hj)
      exact ⟨hstate, (hset k).mpr (.inr hkj)⟩
    · have hdone' : b ∉ a :: as := fun hmem => (List.mem_cons.mp hmem).elim hne hdone
      obtain ⟨hx', hbit⟩ := hs.settled b hb hdone' hremain x ((lookup_update_ne hself hne _).symm.trans hx) k hk
      exact ⟨hx', (hset k).mpr (.inl hbit)⟩
  · have hmod' : (s.didModify || !s.mTrackMask.getLsbD j) = false := hmod
    rw [Bool.or_eq_false_iff, Bool.not_eq_false'] at hmod'
    exact (setBit_of_getLsbD hmod'.2).trans (hs.modified hmod'.1)
  · exact (hset k).mpr (.inl (hs.acked hack k hk))

/-- A fast track whose bit is set leaves, and its bit is cleared. -/
theorem Sweep.Looping.leaves (hw : w.Masked []) (hs : s.Looping w (a :: as)) (hnew : a ∉ as)
    (ht : w.track a = some t) (hj : t.mFastIndex = some j) (hafter : after.fixed = t.fixed)
    (hbit : s.mTrackMask.getLsbD j = true) : (s.fast a j (after, .leaves)).Looping w as := by
  obtain ⟨hself, -, hwritten⟩ := hs.written hw.tracked ht hafter
  have hslot : w.slotAt a = some j := slotAt_some.mpr ⟨t, ht, hj⟩
  have hclear : ∀ k, k ≠ j → (clearBit s.mTrackMask j).getLsbD k = s.mTrackMask.getLsbD k := by
    intro k hne
    by_cases hk : k < 32
    · rw [getLsbD_clearBit _ k j hk, decide_eq_true hne, Bool.and_true]
    · have hlarge : ∀ m : BitVec 32, m.getLsbD k = false := fun m => BitVec.getLsbD_of_ge m k (Nat.not_lt.mp hk)
      rw [hlarge, hlarge]
  have hgone : ∀ b, b ∉ s.tracksToRemove ++ [a] ↔ b ∉ s.tracksToRemove ∧ b ≠ a := by
    intro b
    rw [List.mem_append, List.mem_singleton, not_or]
  rw [Sweep.fast]
  simp only
  rw [if_pos hbit]
  refine ⟨hs.fatal, hwritten, fun b hb => ?_, fun k hk hset => ?_,
    fun b hb hdone hremain x hx k hk => ?_, by simp, by simp⟩
  · have hne := ne_of_mem_of_not_mem hb hnew
    obtain ⟨hb, hlookb, hbits⟩ := hs.pending b (List.mem_cons_of_mem a hb)
    refine ⟨(hgone b).mpr ⟨hb, hne⟩, (lookup_update_ne hself hne _).trans hlookb, fun k hk => ?_⟩
    have hkj : k ≠ j := fun h => hne (hw.owned b a j (h ▸ hk) hslot)
    exact (hclear k hkj).trans (hbits k hk)
  · have hkj : k ≠ j := by
      rintro rfl
      rw [getLsbD_clearBit _ k k (hw.slots a k hslot).2.2.1] at hset
      simp at hset
    obtain ⟨b, hb, hremain, hslotb⟩ := hs.bits k hk ((hclear k hkj).symm.trans hset)
    refine ⟨b, hb, (hgone b).mpr ⟨hremain, ?_⟩, hslotb⟩
    rintro rfl
    exact hkj (Option.some_inj.mp (hslotb.symm.trans hslot))
  · obtain ⟨hremain, hne⟩ := (hgone b).mp hremain
    have hx' := (lookup_update_ne hself hne _).symm.trans hx
    have hdone' : b ∉ a :: as := fun hmem => (List.mem_cons.mp hmem).elim hne hdone
    have hslotb : w.slotAt b = some k := by
      rw [← hs.slotAt, hx']
      exact hk
    have hkj : k ≠ j := fun h => hne (hw.owned b a j (h ▸ hslotb) hslot)
    obtain ⟨hidle, hset⟩ := hs.settled b hb hdone' hremain x hx' k hk
    exact ⟨hidle, (hclear k hkj).trans hset⟩

end Round

theorem Sweep.Looping.round (hw : w.Masked []) (hs : s.Looping w (a :: as)) (hnew : a ∉ as)
    (ha : a ∈ w.mActiveTracks) (last : Option ℕ)
    (hok : c.mStandby = true ∨ c.audioHALFrames = 0 → ∀ t ∈ w.track a, ∀ j ∈ t.mFastIndex,
      w.mTrackMask.getLsbD j = false → t.ended c = false) : (s.round w.isDirect last c a).Looping w as := by
  obtain ⟨t, ht⟩ := mem_selves_iff.mp (hw.tracked.present a ha)
  obtain ⟨-, hlook, hpending⟩ := hs.pending a List.mem_cons_self
  rw [Sweep.round, hlook, ht]
  simp only
  split
  next hdirect =>
    have hslow : w.slotAt a = none := by
      cases hslot : w.slotAt a with
      | none => rfl
      | some j => exact absurd hdirect (Bool.eq_false_iff.mp (hw.slots a j hslot).1)
    exact hs.normal hw.tracked hnew ht hslow (fixed_unwritten.prepared c t _ (.direct _)) _
  · split
    next j hj =>
      have hslot : w.slotAt a = some j := slotAt_some.mpr ⟨t, ht, hj⟩
      obtain ⟨hidle, hfresh⟩ := hw.settled a ha List.not_mem_nil t ht j hj
      obtain ⟨hafter, hexpected⟩ := @Track.prepareFast_expected t c hidle
      have hfixed := fixed_unwritten.prepared c t _ .fast
      cases hbit : s.mTrackMask.getLsbD j with
      | false =>
        -- the first cycle of the track, which does not remove it
        have hclear := (hpending j hslot).symm.trans hbit
        have hstays : (t.prepareFast c).2 = .stays :=
          Track.prepareFast_fresh hidle (hfresh hclear) fun hpresented => hok hpresented t ht j hj hclear
        have hround := hs.stays hw hnew ha ht hj hfixed hafter
        rw [← hstays] at hround
        exact hround
      | true =>
        cases hgone : (t.prepareFast c).2 with
        | unexpected => exact absurd hgone hexpected
        | stays =>
          have hround := hs.stays hw hnew ha ht hj hfixed hafter
          rw [← hgone] at hround
          exact hround
        | leaves =>
          have hround := hs.leaves hw hnew ht hj hfixed hbit
          rw [← hgone] at hround
          exact hround
    next hnone =>
      have hslow : w.slotAt a = none := by
        rw [Thread.slotAt, ht]
        exact hnone
      exact hs.normal hw.tracked hnew ht hslow (fixed_unwritten.prepared c t _ .mixer) _

theorem Sweep.Looping.foldl (hw : w.Masked []) (hs : s.Looping w as) (has : as.Nodup)
    (hactive : ∀ a ∈ as, a ∈ w.mActiveTracks) (last : Option ℕ)
    (hok : c.mStandby = true ∨ c.audioHALFrames = 0 → ∀ a ∈ as, ∀ t ∈ w.track a, ∀ j ∈ t.mFastIndex,
      w.mTrackMask.getLsbD j = false → t.ended c = false) :
    (as.foldl (Sweep.round w.isDirect last c) s).Looping w [] := by
  induction as generalizing s with
  | nil => exact hs
  | cons a as ih =>
    obtain ⟨hnew, has⟩ := List.nodup_cons.mp has
    have hround := hs.round hw hnew (hactive a List.mem_cons_self) last fun hpresented =>
      hok hpresented a List.mem_cons_self
    exact ih hround has (fun b hb => hactive b (List.mem_cons_of_mem a hb)) fun hpresented b hb =>
      hok hpresented b (List.mem_cons_of_mem a hb)

theorem Masked.sweep (hw : w.Masked []) (hok : c.mStandby = true ∨ c.audioHALFrames = 0 →
    ∀ a ∈ w.mActiveTracks, ∀ t ∈ w.track a, ∀ j ∈ t.mFastIndex, w.mTrackMask.getLsbD j = false → t.ended c = false) :
    (w.sweep c).Looping w [] := by
  have hstart : (⟨w.mTracks, w.mTrackMask, false, false, [], w.fatal⟩ : Sweep).Looping w w.mActiveTracks :=
    ⟨hw.fatal, rfl, fun a _ => ⟨List.not_mem_nil, rfl, fun _ _ => rfl⟩, hw.bits, fun a ha hnot => absurd ha hnot,
      fun _ => rfl, fun _ _ h => h⟩
  exact hstart.foldl hw hw.tracked.actives (fun _ h => h) _ hok

theorem lookup_resetStopped (h : KeyedList.lookup Track.self s.resetStopped a = some t) :
    ∃ x, KeyedList.lookup Track.self s.mTracks a = some x ∧
      (if x.self ∈ s.tracksToRemove && x.isFastTrack && x.isStopped then x.reset else x) = t := by
  rw [Sweep.resetStopped, KeyedList.lookup, List.find?_map] at h
  obtain ⟨x, hx, heq⟩ := Option.map_eq_some_iff.mp h
  refine ⟨x, ?_, heq⟩
  rw [← hx, KeyedList.lookup]
  congr 1
  funext y
  have hself : (if y.self ∈ s.tracksToRemove && y.isFastTrack && y.isStopped then y.reset else y).self = y.self := by
    split
    · exact congrArg Track.Fixed.self (@Track.fixed_reset y)
    · rfl
  simp only [Function.comp, hself]

/-- After the push the fast mixer reads what the mask says. -/
theorem Masked.swept (hw : w.Masked []) (hs : (w.sweep c).Looping w []) :
    (w.swept (w.sweep c)).Masked (w.sweep c).tracksToRemove := by
  have hfixed := hw.tracked.swept_map fixed_unwritten c
  have hslot : ∀ a, (w.swept (w.sweep c)).slotAt a = w.slotAt a := slotAt_fixed hfixed
  refine ⟨hw.tracked.congr hfixed rfl, hs.fatal, hw.direct, fun a j h => ?_, hw.first, fun a b j ha hb => ?_,
    fun j hj hbit => ?_, fun a ha hremain t ht j hj => ?_, ?_, ?_⟩
  · exact hw.slots a j ((hslot a).symm.trans h)
  · exact hw.owned a b j ((hslot a).symm.trans ha) ((hslot b).symm.trans hb)
  · obtain ⟨a, ha, hremain, hown⟩ := hs.bits j hj hbit
    exact ⟨a, ha, hremain, (hslot a).trans hown⟩
  · obtain ⟨x, hx, hreset⟩ := lookup_resetStopped ht
    have hself : x.self = a := (KeyedList.lookup_some hx).2
    rw [if_neg (by simp [hself, hremain])] at hreset
    subst hreset
    obtain ⟨hidle, hbit⟩ := hs.settled a ha List.not_mem_nil hremain x hx j hj
    exact ⟨hidle, fun hclear => absurd hbit (Bool.eq_false_iff.mp hclear)⟩
  · rw [Thread.swept]
    simp only
    cases hmod : (w.sweep c).didModify with
    | false =>
      rw [if_neg Bool.false_ne_true, hw.mixed]
      exact (hs.modified hmod).symm
    | true =>
      rw [if_pos rfl, mixing, hw.mixed]
      cases hack : (w.sweep c).untilAcked with
      | true => rfl
      | false =>
        rw [if_neg Bool.false_ne_true]
        apply BitVec.eq_of_getLsbD_eq
        intro k _
        rw [BitVec.getLsbD_or, Bool.or_eq_right_iff_imp]
        exact hs.acked hack k
  · intro j log hlog
    rw [Thread.swept] at hlog
    simp only at hlog
    split at hlog
    · rcases List.suffix_cons_iff.mp hlog with heq | hold
      · cases heq
      · exact hw.returned j log hold
    · exact hw.returned j log hlog

/-! ## Tracks that go -/

/-- The slot of a track that goes has been given up by the fast mixer. -/
theorem Masked.removeTrack (hw : w.Masked leaving) (ht : w.track t.self = some t)
    (hinactive : t.self ∉ w.mActiveTracks) : (w.removeTrack t).Masked leaving := by
  have hother : ∀ b, b ≠ t.self → (w.removeTrack t).track b = w.track b := fun b hb => KeyedList.lookup_eraseP hb
  have hnone : (w.removeTrack t).track t.self = none := KeyedList.lookup_eraseP_self hw.tracked.selves t.self
  have hslot : ∀ b k, (w.removeTrack t).slotAt b = some k → b ≠ t.self ∧ w.slotAt b = some k := by
    intro b k hb
    by_cases hne : b = t.self
    · rw [slotAt, hne, hnone] at hb
      cases hb
    · rw [slotAt, hother b hne] at hb
      exact ⟨hne, hb⟩
  have hown : ∀ j, t.mFastIndex = some j → w.slotAt t.self = some j := fun j hj => slotAt_some.mpr ⟨t, ht, hj⟩
  have hreturned : ∀ j, t.mFastIndex = some j → (mixing w.fastLog).getLsbD j = false := by
    intro j hj
    rw [hw.mixed, Bool.eq_false_iff]
    intro hbit
    obtain ⟨a, ha, -, hslota⟩ := hw.bits j (hw.slots _ j (hown j hj)).2.1 hbit
    rw [hw.owned a t.self j hslota (hown j hj)] at ha
    exact hinactive ha
  refine ⟨hw.tracked.removeTrack hinactive, hw.fatal, hw.direct, fun b k hb => ?_, ?_, fun b d k hb hd => ?_,
    fun k hk hbit => ?_, fun b hb hremain x hx => ?_, ?_, ?_⟩
  · obtain ⟨hne, hb⟩ := hslot b k hb
    obtain ⟨hdirect, hpos, hlt, havail⟩ := hw.slots b k hb
    refine ⟨hdirect, hpos, hlt, ?_⟩
    rw [Thread.removeTrack]
    cases hj : t.mFastIndex with
    | none => exact havail
    | some j =>
      have hkj : k ≠ j := fun h => hne (hw.owned b t.self j (h ▸ hb) (hown j hj))
      rw [Option.elim_some, getLsbD_setBit _ k j hlt, havail, decide_eq_false hkj]
      rfl
  · rw [Thread.removeTrack]
    cases hj : t.mFastIndex with
    | none => exact hw.first
    | some j =>
      have hpos := (hw.slots _ j (hown j hj)).2.1
      rw [Option.elim_some, getLsbD_setBit _ 0 j (by decide), hw.first, decide_eq_false hpos.symm]
      rfl
  · exact hw.owned b d k (hslot b k hb).2 (hslot d k hd).2
  · obtain ⟨a, ha, hremain, hslota⟩ := hw.bits k hk hbit
    have hne : a ≠ t.self := ne_of_mem_of_not_mem ha hinactive
    exact ⟨a, ha, hremain, (congrArg (Option.bind · Track.mFastIndex) (hother a hne)).trans hslota⟩
  · have hne : b ≠ t.self := ne_of_mem_of_not_mem hb hinactive
    exact hw.settled b hb hremain x ((hother b hne).symm.trans hx)
  · rw [Thread.removeTrack]
    cases t.mFastIndex with
    | none => exact hw.mixed
    | some j => exact hw.mixed
  · intro j log hlog
    rw [Thread.removeTrack] at hlog
    cases hj : t.mFastIndex with
    | none =>
      rw [hj] at hlog
      exact hw.returned j log hlog
    | some i =>
      rw [hj] at hlog
      rcases List.suffix_cons_iff.mp hlog with heq | hold
      · cases heq
        exact hreturned j hj
      · exact hw.returned j log hold

theorem Masked.deactivate {as : List ℕ} (hw : w.Masked (a :: as)) (ha : a ∈ w.mActiveTracks) :
    (w.deactivate a).Masked as := by
  obtain ⟨t, ht⟩ := mem_selves_iff.mp (hw.tracked.present a ha)
  obtain ⟨-, rfl⟩ := track_some ht
  rw [Thread.deactivate, ht]
  simp only
  generalize hchains : (if w.isDirect = true then _ else _ : List Chain) = chains
  have hless : ({ w with
      mActiveTracks := w.mActiveTracks.erase t.self
      mEffectChains := chains } : Thread).Masked as := by
    refine ⟨⟨hw.tracked.selves, hw.tracked.actives.erase _, fun b hb => hw.tracked.present b
      (List.mem_of_mem_erase hb)⟩, hw.fatal, hw.direct, hw.slots, hw.first, hw.owned, fun k hk hbit => ?_,
      fun b hb hremain => ?_, hw.mixed, hw.returned⟩
    · obtain ⟨b, hb, hremain, hslot⟩ := hw.bits k hk hbit
      obtain ⟨hne, hremain⟩ := not_or.mp (mt List.mem_cons.mpr hremain)
      exact ⟨b, (List.mem_erase_of_ne hne).mpr hb, hremain, hslot⟩
    · obtain ⟨hne, hb⟩ := (hw.tracked.actives.mem_erase_iff).mp hb
      exact hw.settled b hb fun hmem => (List.mem_cons.mp hmem).elim hne hremain
  split
  · exact hless.removeTrack ht hw.tracked.actives.not_mem_erase
  · exact hless

theorem Masked.foldl_deactivate {as : List ℕ} (hw : w.Masked as) (has : as.Nodup)
    (hactive : ∀ a ∈ as, a ∈ w.mActiveTracks) : (as.foldl Thread.deactivate w).Masked [] := by
  induction as generalizing w with
  | nil => exact hw
  | cons a as ih =>
    obtain ⟨hnew, has⟩ := List.nodup_cons.mp has
    refine ih (hw.deactivate (hactive a List.mem_cons_self)) has fun b hb => ?_
    exact (w.deactivate_other (ne_of_mem_of_not_mem hb hnew)).2.mpr (hactive b (List.mem_cons_of_mem a hb))

/-! ## Calls of the clients -/

/-- What the loop looks at in a fast track. -/
def view (t : Track) : ℕ × Option ℕ × TrackState × ℤ × ℕ :=
  (t.self, t.mFastIndex, t.mState, t.mRetryCount, t.mPresentationCompleteFrames)

/-- Nothing is written that the loop looks at. -/
theorem Masked.congr (hw : w.Masked leaving) (hview : w'.mTracks.map view = w.mTracks.map view)
    (hactive : w'.mActiveTracks = w.mActiveTracks) (havail : w'.mFastTrackAvailMask = w.mFastTrackAvailMask)
    (hmask : w'.mTrackMask = w.mTrackMask) (hlog : w'.fastLog = w.fastLog) (hfatal : w'.fatal = w.fatal)
    (hdirect : w'.isDirect = w.isDirect) (hmixer : w'.hasFastMixer = w.hasFastMixer) : w'.Masked leaving := by
  have hlook := lookup_map (fun _ => rfl : ∀ t : Track, (view t).1 = t.self) hview
  have hself : w'.mTracks.map Track.self = w.mTracks.map Track.self := by
    have hfst := congrArg (List.map Prod.fst) hview
    rw [List.map_map, List.map_map] at hfst
    exact hfst
  have hslot : ∀ a, w'.slotAt a = w.slotAt a := by
    intro a
    have hbind := congrArg (fun o => o.bind fun v : ℕ × Option ℕ × TrackState × ℤ × ℕ => v.2.1) (hlook a)
    simp only [Option.bind_map] at hbind
    exact hbind
  refine ⟨hw.tracked.setMainBuffer hself hactive, hfatal.trans hw.fatal, ?_, fun a j h => ?_, ?_, fun a b j ha hb => ?_,
    ?_, fun a ha hremain t ht j hj => ?_, ?_, ?_⟩
  · rw [hdirect, hmixer]
    exact hw.direct
  · rw [hdirect, havail]
    exact hw.slots a j ((hslot a).symm.trans h)
  · rw [havail]
    exact hw.first
  · exact hw.owned a b j ((hslot a).symm.trans ha) ((hslot b).symm.trans hb)
  · rw [hmask, hactive]
    simp only [hslot]
    exact hw.bits
  · have hfound : KeyedList.lookup Track.self w'.mTracks a = some t := ht
    have hsame := hlook a
    rw [hfound] at hsame
    obtain ⟨x, hx, heq⟩ := Option.map_eq_some_iff.mp hsame.symm
    simp only [view, Prod.mk.injEq] at heq
    obtain ⟨-, hindex, hstate, hretry, hframes⟩ := heq
    rw [hactive] at ha
    obtain ⟨hidle, hfresh⟩ := hw.settled a ha hremain x hx j (hindex.trans hj)
    rw [hmask, ← hstate, Track.Fresh, ← hretry, ← hframes]
    exact ⟨hidle, hfresh⟩
  · rw [hlog, hmask]
    exact hw.mixed
  · rw [hlog]
    exact hw.returned

/-- A client writes its track, which does not become idle while it is active. -/
theorem Masked.write {f : Track → Track} (hw : w.Masked []) (hf : ∀ t, (f t).fixed = t.fixed)
    (ht : w.track t.self = some t) (hafter : t.self ∈ w.mActiveTracks → t.mState ≠ .idle →
      (f t).mState ≠ .idle ∧ (t.Fresh → (f t).Fresh)) : (w.updateTrack t.self f).Masked [] := by
  have hfixed := map_update hf t.self w.mTracks
  have hslot : ∀ a, (w.updateTrack t.self f).slotAt a = w.slotAt a := slotAt_fixed hfixed
  refine ⟨hw.tracked.congr hfixed rfl, hw.fatal, hw.direct, fun a j h => ?_, hw.first, fun a b j ha hb => ?_,
    fun j hj hbit => ?_, fun a ha hremain x hx j hj => ?_, hw.mixed, hw.returned⟩
  · exact hw.slots a j ((hslot a).symm.trans h)
  · exact hw.owned a b j ((hslot a).symm.trans ha) ((hslot b).symm.trans hb)
  · obtain ⟨a, ha, hremain, hown⟩ := hw.bits j hj hbit
    exact ⟨a, ha, hremain, (hslot a).trans hown⟩
  · have hlook := @KeyedList.lookup_update _ _ _ Track.self w.mTracks t.self f
      (fun x hx => (congrArg Track.Fixed.self (hf x)).trans hx) a
    have hfound : KeyedList.lookup Track.self w.mTracks t.self = some t := ht
    have hx' := hlook.symm.trans hx
    split at hx'
    next heq =>
      subst heq
      rw [hfound] at hx'
      cases hx'
      have hindex := (congrArg Track.Fixed.mFastIndex (hf t)).symm.trans hj
      obtain ⟨hidle, hfresh⟩ := hw.settled t.self ha hremain t ht j hindex
      obtain ⟨hidle', hfresh'⟩ := hafter ha hidle
      exact ⟨hidle', fun hclear => hfresh' (hfresh hclear)⟩
    · exact hw.settled a ha hremain x hx' j hj

/-- A track becomes active, fresh. -/
theorem Masked.activate (hw : w.Masked []) {x : Track} (hx : w.track t.self = some x)
    (hfresh : t.self ∉ w.mActiveTracks → x.mState ≠ .idle ∧ x.Fresh) : (w.activate t).Masked [] := by
  have htracked := hw.tracked.activate hx
  rw [Thread.activate] at htracked ⊢
  split
  · exact hw
  next hnew =>
    rw [if_neg hnew] at htracked
    have hmem : ∀ a, a ∈ w.mActiveTracks.orderedInsert (· ≤ ·) t.self ↔ a = t.self ∨ a ∈ w.mActiveTracks := by
      intro a
      exact List.mem_orderedInsert ..
    refine ⟨htracked, hw.fatal, hw.direct, hw.slots, hw.first, hw.owned, fun j hj hbit => ?_,
      fun a ha hremain y hy j hj => ?_, hw.mixed, hw.returned⟩
    · obtain ⟨a, ha, hremain, hown⟩ := hw.bits j hj hbit
      exact ⟨a, (hmem a).mpr (.inr ha), hremain, hown⟩
    · rcases (hmem a).mp ha with rfl | hold
      · have heq : x = y := Option.some_inj.mp (hx.symm.trans hy)
        subst heq
        exact ⟨(hfresh hnew).1, fun _ => (hfresh hnew).2⟩
      · exact hw.settled a hold hremain y hy j hj

theorem stop_active (t : Track) (h : t.mState ≠ .idle) : (t.stop true).mState ≠ .idle ∧
    (t.stop true).mRetryCount = t.mRetryCount ∧
    (t.stop true).mPresentationCompleteFrames = t.mPresentationCompleteFrames := by
  rw [Track.stop]
  split
  all_goals first
    | exact ⟨h, rfl, rfl⟩
    | rw [if_neg (by decide)]
      split <;> exact ⟨by simp, rfl, rfl⟩

theorem pause_active (t : Track) (h : t.mState ≠ .idle) : t.pause.mState ≠ .idle ∧
    t.pause.mRetryCount = t.mRetryCount ∧ t.pause.mPresentationCompleteFrames = t.mPresentationCompleteFrames := by
  rw [Track.pause]
  split
  · exact ⟨by simp, rfl, rfl⟩
  · exact ⟨h, rfl, rfl⟩

theorem flush_active (t : Track) (h : t.mState ≠ .idle) : (t.flush true).mState ≠ .idle ∧
    (t.flush true).mRetryCount = t.mRetryCount ∧
    (t.flush true).mPresentationCompleteFrames = t.mPresentationCompleteFrames := by
  rw [Track.flush]
  split
  all_goals first
    | exact ⟨h, rfl, rfl⟩
    | exact ⟨by simp, rfl, rfl⟩

theorem start_retries (t : Track) (isActive : Bool) : kMaxTrackRetries ≤ (t.start isActive).mRetryCount := by
  have hadded : ∀ x : Track, kMaxTrackRetries ≤ if x.isOutputTrack then 127 else (x.added isActive).mRetryCount := by
    intro x
    split
    · decide
    · cases isActive <;> exact le_refl _
  cases isActive <;> exact hadded _

theorem start_active (t : Track) : (t.start true).mState ≠ .idle ∧ (t.Fresh → (t.start true).Fresh) := by
  refine ⟨?_, fun hfresh => ⟨start_retries t true, hfresh.2⟩⟩
  rw [Track.start, Track.added]
  simp only
  rw [if_pos trivial]
  simp only
  split <;> simp

theorem start_fresh (t : Track) : (t.start false).mState ≠ .idle ∧ (t.start false).Fresh := by
  refine ⟨?_, start_retries t false, rfl⟩
  rw [Track.start, Track.added]
  simp only
  rw [if_neg Bool.false_ne_true]
  simp only
  split <;> simp

/-- A new track is not active, and its slot was available. -/
theorem Masked.append {x : Track} (hw : w.Masked []) (hnew : w.track x.self = none) (htracked : w'.Tracked)
    (hslot : ∀ j, x.mFastIndex = some j → w.isDirect = false ∧ w.mFastTrackAvailMask.getLsbD j = true)
    (hthread : w' = { w with
      mTracks := w.mTracks ++ [x]
      mFastTrackAvailMask := x.mFastIndex.elim w.mFastTrackAvailMask (clearBit w.mFastTrackAvailMask)
      mEffectChains := w'.mEffectChains }) : w'.Masked [] := by
  have hlook : ∀ b, w'.track b = if b = x.self then some x else w.track b := by
    intro b
    rw [hthread]
    simp only [track, KeyedList.lookup, List.find?_append] at hnew ⊢
    split
    next heq => simp [heq, hnew]
    next hne =>
      have hskip : ¬x.self = b := fun h => hne h.symm
      simp [hskip]
  have hclear : ∀ j, w.mFastTrackAvailMask.getLsbD j = false → w'.mFastTrackAvailMask.getLsbD j = false := by
    intro j hj
    rw [hthread]
    cases x.mFastIndex with
    | none => exact hj
    | some i =>
      rw [Option.elim_some, clearBit, BitVec.getLsbD_and, hj, Bool.false_and]
  have hold : ∀ b j, w'.slotAt b = some j → b = x.self ∧ x.mFastIndex = some j ∨ w.slotAt b = some j := by
    intro b j hb
    rw [slotAt, hlook b] at hb
    split at hb
    next heq => exact .inl ⟨heq, hb⟩
    · exact .inr hb
  have hsame : ∀ b, b ≠ x.self → w'.track b = w.track b := fun b hb => (hlook b).trans (if_neg hb)
  have hactive : ∀ a ∈ w.mActiveTracks, a ≠ x.self := by
    rintro a ha rfl
    obtain ⟨t, ht⟩ := mem_selves_iff.mp (hw.tracked.present _ ha)
    rw [hnew] at ht
    cases ht
  have hfields : w'.isDirect = w.isDirect ∧ w'.hasFastMixer = w.hasFastMixer ∧ w'.fatal = w.fatal ∧
      w'.mActiveTracks = w.mActiveTracks ∧ w'.mTrackMask = w.mTrackMask ∧ w'.fastLog = w.fastLog := by
    rw [hthread]
    exact ⟨rfl, rfl, rfl, rfl, rfl, rfl⟩
  obtain ⟨hdirect, hmixer, hfatal, hact, hmask, hlog⟩ := hfields
  -- a slot in use is not available, so that the new one is in use by no other track
  have hfree : ∀ b j, x.mFastIndex = some j → w.slotAt b ≠ some j := by
    intro b j hj hb
    exact Bool.false_ne_true ((hw.slots b j hb).2.2.2.symm.trans (hslot j hj).2)
  refine ⟨htracked, hfatal.trans hw.fatal, ?_, fun b j hb => ?_, hclear 0 hw.first, fun b d j hb hd => ?_,
    fun j hj hbit => ?_, fun b hb hremain t ht j hj => ?_, ?_, ?_⟩
  · rw [hdirect, hmixer]
    exact hw.direct
  · rw [hdirect]
    rcases hold b j hb with ⟨-, hj⟩ | hb
    · obtain ⟨hmix, havail⟩ := hslot j hj
      have hlt : j < 32 := BitVec.lt_of_getLsbD havail
      refine ⟨hmix, ?_, hlt, ?_⟩
      · rintro rfl
        exact Bool.false_ne_true (hw.first.symm.trans havail)
      · rw [hthread, hj, Option.elim_some, getLsbD_clearBit _ j j hlt]
        simp
    · obtain ⟨hmix, hpos, hlt, havail⟩ := hw.slots b j hb
      exact ⟨hmix, hpos, hlt, hclear j havail⟩
  · rcases hold b j hb with ⟨rfl, hj⟩ | hb
    · rcases hold d j hd with ⟨rfl, -⟩ | hd
      · rfl
      · exact absurd hd (hfree d j hj)
    · rcases hold d j hd with ⟨-, hj⟩ | hd
      · exact absurd hb (hfree b j hj)
      · exact hw.owned b d j hb hd
  · rw [hmask] at hbit
    obtain ⟨a, ha, hremain, hown⟩ := hw.bits j hj hbit
    rw [hact]
    exact ⟨a, ha, hremain, (congrArg (Option.bind · Track.mFastIndex) (hsame a (hactive a ha))).trans hown⟩
  · rw [hact] at hb
    rw [hmask]
    exact hw.settled b hb hremain t ((hsame b (hactive b hb)).symm.trans ht) j hj
  · rw [hlog, hmask]
    exact hw.mixed
  · rw [hlog]
    exact hw.returned

theorem Masked.createTrack (hw : w.Masked []) (r : NewTrack) (hnew : w.track r.self = none)
    (htracked : (w.createTrack r).Tracked) : (w.createTrack r).Masked [] := by
  rw [Thread.createTrack] at htracked ⊢
  split
  · exact hw
  next hnamed =>
    rw [if_neg hnamed] at htracked
    refine hw.append hnew htracked (fun j hj => ?_) rfl
    simp only [NewTrack.track] at hj
    split at hj
    next hfast =>
      refine ⟨?_, (lowest_some hj).2⟩
      rw [Bool.eq_false_iff]
      intro hdirect
      rw [hw.direct hdirect, Bool.and_false] at hfast
      cases hfast
    · cases hj

/-! ## Every run -/

/-- An active fast track whose bit is clear has not ended, while it would be removed at once. -/
def FastSound (w : Thread) : Event → Prop
  | .prepareTracks framesWritten audioHALFrames look =>
    w.mStandby = true ∨ audioHALFrames = 0 → ∀ a ∈ w.mActiveTracks, ∀ t ∈ w.track a, ∀ j ∈ t.mFastIndex,
      w.mTrackMask.getLsbD j = false → t.ended ⟨w.mStandby, framesWritten, audioHALFrames, look⟩ = false
  | _ => True

instance (w : Thread) : ∀ e, Decidable (w.FastSound e)
  | .prepareTracks .. => inferInstanceAs (Decidable (_ ∨ _ → ∀ a ∈ w.mActiveTracks, ∀ t ∈ w.track a,
      ∀ j ∈ t.mFastIndex, _ → _))
  | .create _ | .addOutputTrack .. | .start _ | .stop _ | .pause _ | .flush _ | .destroy _ | .destroyTrack _ | .addEffectChain _
  | .removeEffectChain _ | .removeNext | .write | .standby => isTrue trivial

theorem view_setMainBuffer (session : ℤ) (isMix : Bool) (tracks : List Track) :
    (setMainBuffer session isMix tracks).map view = tracks.map view := by
  rw [setMainBuffer, List.map_map]
  apply List.map_congr_left
  intro t _
  simp only [Function.comp]
  split <;> rfl

theorem Masked.prepareTracks (hw : w.Masked []) {framesWritten audioHALFrames : ℕ} {look : ℕ → Track.Look}
    (hok : w.FastSound (.prepareTracks framesWritten audioHALFrames look)) :
    (w.prepareTracks framesWritten audioHALFrames look).Masked [] := by
  have hs := hw.sweep (c := ⟨w.mStandby, framesWritten, audioHALFrames, look⟩) hok
  obtain ⟨hsub, -⟩ := hw.tracked.sweep_gone ⟨w.mStandby, framesWritten, audioHALFrames, look⟩
  rw [prepareTracks_eq]
  exact (hw.swept hs).foldl_deactivate (hw.tracked.actives.sublist hsub) fun a ha => hsub.subset ha

/-- A call that leaves the counters of an active track alone. -/
theorem Masked.call {f : Track → Track} (hw : w.Masked []) (hf : ∀ t, (f t).fixed = t.fixed)
    (ht : w.track t.self = some t) (hcall : t.self ∈ w.mActiveTracks → t.mState ≠ .idle →
      (f t).mState ≠ .idle ∧ (f t).mRetryCount = t.mRetryCount ∧
        (f t).mPresentationCompleteFrames = t.mPresentationCompleteFrames) : (w.updateTrack t.self f).Masked [] := by
  refine hw.write hf ht fun ha hstate => ?_
  obtain ⟨hidle, hretry, hframes⟩ := hcall ha hstate
  refine ⟨hidle, fun hfresh => ?_⟩
  rw [Track.Fresh, hretry, hframes]
  exact hfresh

theorem Masked.start (hw : w.Masked []) (ht : w.track t.self = some t) : (w.start t).Masked [] := by
  have hstarted := track_updateTrack (fun x => @Track.fixed_start x (decide (t.self ∈ w.mActiveTracks))) ht
  have hwritten := hw.write (fun x => @Track.fixed_start x (decide (t.self ∈ w.mActiveTracks))) ht fun ha _ => by
    rw [decide_eq_true ha]
    exact start_active t
  have hactive := hwritten.activate hstarted fun hinactive => by
    have hstill : t.self ∉ w.mActiveTracks := hinactive
    rw [decide_eq_false hstill]
    exact start_fresh t
  exact hactive.congr rfl rfl rfl rfl rfl rfl rfl rfl

theorem Masked.step (hw : w.Masked []) (hok : w.FastSound e) (hstep : w.step e = some w') : w'.Masked [] := by
  have htracked := hw.tracked.step hstep
  cases step_spec hstep with
  | create r hnew => exact hw.createTrack r hnew htracked
  | addOutputTrack self mResetDone _ hnew => exact hw.append hnew htracked (by rintro _ ⟨⟩) rfl
  | start t ht => exact hw.start ht
  | stop t ht =>
    refine (hw.call (fun _ => Track.fixed_stop (decide (t.self ∈ w.mActiveTracks))) ht fun ha hidle => ?_).congr
      rfl rfl rfl rfl rfl rfl rfl rfl
    rw [decide_eq_true ha]
    exact stop_active t hidle
  | pause t ht =>
    exact (hw.call (fun _ => Track.fixed_pause) ht fun _ hidle => pause_active t hidle).congr
      rfl rfl rfl rfl rfl rfl rfl rfl
  | flush t ht =>
    refine hw.call (fun _ => Track.fixed_flush (decide (t.self ∈ w.mActiveTracks))) ht fun ha hidle => ?_
    rw [decide_eq_true ha]
    exact flush_active t hidle
  | destroy => exact hw.congr rfl rfl rfl rfl rfl rfl rfl rfl
  | destroyTrack t ht =>
    have hterminated := hw.call (fun x => @Track.fixed_terminate x) ht fun _ _ => ⟨by rintro ⟨⟩, rfl, rfl⟩
    rw [Thread.destroyTrack]
    split
    · exact hterminated
    next hnot =>
      exact hterminated.removeTrack (track_updateTrack (fun x => @Track.fixed_terminate x) ht) hnot
  | addEffectChain session =>
    refine hw.congr ?_ rfl rfl rfl rfl rfl rfl rfl
    rw [Thread.addEffectChain]
    simp only
    split
    · exact view_setMainBuffer ..
    · rfl
  | removeEffectChain => exact hw.congr (view_setMainBuffer ..) rfl rfl rfl rfl rfl rfl rfl
  | prepareTracks => exact hw.prepareTracks hok
  | removeNext =>
    rw [Thread.removeNext]
    split
    · exact hw
    · exact hw.congr rfl rfl rfl rfl rfl rfl rfl rfl
  | write => exact hw.congr rfl rfl rfl rfl rfl rfl rfl rfl
  | standby => exact hw.congr rfl rfl rfl rfl rfl rfl rfl rfl

/-- No `LOG_FATAL` was passed, every set bit but that of the thread's own mix is that of an active track,
and a slot was returned when the fast mixer no longer read it. -/
structure FastSafe (w : Thread) : Prop where
  fatal : w.fatal = false
  bits : ∀ j, j ≠ 0 → w.mTrackMask.getLsbD j = true →
    ∃ a ∈ w.mActiveTracks, ∃ t, w.track a = some t ∧ t.mFastIndex = some j
  returned : ∀ j log, (FastOp.returned j :: log) <:+ w.fastLog → (mixing log).getLsbD j = false

theorem Masked.fastSafe (hw : w.Masked []) : w.FastSafe := by
  refine ⟨hw.fatal, fun j hj hbit => ?_, hw.returned⟩
  obtain ⟨a, ha, -, hslot⟩ := hw.bits j hj hbit
  exact ⟨a, ha, slotAt_some.mp hslot⟩

/-- Along the steps in which no track ends before its first cycle, the state machine of the fast
tracks is safe. -/
theorem fastSafe_along (isDirect hasFastMixer : Bool) (es : List Event) (w : Thread)
    (hrun : Machine.run step (new isDirect hasFastMixer) es = some w)
    (hsound : Machine.Along step FastSound (new isDirect hasFastMixer) es) : w.FastSafe :=
  (@Machine.run_invariant_along _ _ step FastSound (fun w => w.Masked []) (fun _ _ _ hok hstep h => h.step hok hstep)
    _ _ _ hsound hrun (masked_new ..)).fastSafe

/-- A fast track of session 7, streaming or static. -/
def fastTrack (self : ℕ) (mSharedBuffer : Bool) : NewTrack :=
  ⟨self, 7, mSharedBuffer, true, true, ⟨0, 0, 0⟩, false⟩

/-- The fast mixer counted full periods, and empty ones. -/
def counted (full empty : BitVec 10) (_ : ℕ) : Track.Look := ⟨true, true, ⟨full, 0, empty⟩⟩

/-- Two fast tracks: one is stopped, drains and is destroyed, and its slot goes to a third one; the
other one is destroyed while it is active. -/
def twoFast : List Event :=
  [.standby, .create (fastTrack 1 false), .create (fastTrack 2 true), .start 1, .start 2,
    .prepareTracks 0 10 (counted 0 0), .write, .stop 1, .prepareTracks 20 10 (counted 1 1),
    .prepareTracks 40 10 (counted 2 1), .prepareTracks 60 10 (counted 3 1), .removeNext, .destroy 1,
    .destroyTrack 1, .create (fastTrack 3 false), .start 3, .destroy 2, .destroyTrack 2,
    .prepareTracks 80 10 (counted 3 1), .removeNext, .prepareTracks 100 10 (counted 4 1)]

theorem fastSafe_along_twoFast : ∃ w, Machine.run step (new false true) twoFast = some w ∧ w.FastSafe := by
  have hrun := Option.eq_some_of_isSome
    (by decide : (Machine.run step (new false true) twoFast).isSome = true)
  exact ⟨_, hrun, fastSafe_along false true twoFast _ hrun (by decide)⟩

/-- A fast track is started and destroyed before the first cycle, in standby. -/
theorem fatal_before_first :
    (Machine.run step (new false true)
      [.standby, .create (fastTrack 1 false), .start 1, .destroy 1, .destroyTrack 1, .prepareTracks 0 10 (counted 0 0)]).map
        Thread.fatal = some true := by
  decide

end Thread

end AudioFlinger.Playback
