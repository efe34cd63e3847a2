import AudioFlinger.Playback.Sweep

/-!
# The track counts of effect chains

A chain counts the tracks of its session, and those among the active ones. Tracks
are counted by their session wherever they come in. A mixer thread takes an active
track off by the buffer that it is mixed to, a direct thread takes any of them off
its first chain, and a chain that is not of a session above 0 counts none of the
tracks that are already there. An `OutputTrack` is counted only when it goes.
-/

namespace AudioFlinger.Playback

open Foundation

/-! ## Counts by session -/

/-- Every chain has the counts of its session. -/
def Counts (chains : List Chain) (tracks active : ℤ → ℤ) : Prop :=
  ∀ c ∈ chains, c.mTrackCnt = tracks c.mSessionId ∧ c.mActiveTrackCnt = active c.mSessionId

/-- What the counts leave alone. -/
def Chain.place (c : Chain) : ℤ × Bool := (c.mSessionId, c.mInBufferIsMix)

variable {chains chains' : List Chain} {tracks tracks' active active' : ℤ → ℤ} {session : ℤ} {f : Chain → Chain}

/-- The chain of one session is written, and the counts of no other session change. -/
theorem Counts.update (h : Counts chains tracks active) (hplace : ∀ c, (f c).place = c.place)
    (hsession : ∀ c, c.mTrackCnt = tracks session → c.mActiveTrackCnt = active session →
      (f c).mTrackCnt = tracks' session ∧ (f c).mActiveTrackCnt = active' session)
    (htracks : ∀ s, s ≠ session → tracks' s = tracks s) (hactive : ∀ s, s ≠ session → active' s = active s) :
    Counts (KeyedList.update Chain.mSessionId session f chains) tracks' active' := by
  intro c hc
  obtain ⟨x, hx, rfl⟩ := List.mem_map.mp hc
  have hcounts := h x hx
  by_cases hkey : x.mSessionId = session
  · have hsame : (f x).mSessionId = session := (congrArg Prod.fst (hplace x)).trans hkey
    rw [if_pos hkey, hsame]
    rw [hkey] at hcounts
    exact hsession x hcounts.1 hcounts.2
  · rw [if_neg hkey, htracks _ hkey, hactive _ hkey]
    exact hcounts

theorem Counts.congr (h : Counts chains tracks active) (htracks : ∀ s, tracks' s = tracks s)
    (hactive : ∀ s, active' s = active s) : Counts chains tracks' active' := by
  intro c hc
  rw [htracks, hactive]
  exact h c hc

theorem place_update (hplace : ∀ c, (f c).place = c.place) (session : ℤ) (chains : List Chain) :
    (KeyedList.update Chain.mSessionId session f chains).map Chain.place = chains.map Chain.place := by
  rw [KeyedList.update, List.map_map]
  apply List.map_congr_left
  intro c _
  simp only [Function.comp]
  split
  · exact hplace c
  · rfl

theorem sessions_eq (h : chains'.map Chain.place = chains.map Chain.place) :
    chains'.map Chain.mSessionId = chains.map Chain.mSessionId := by
  have hfst := congrArg (List.map Prod.fst) h
  rw [List.map_map, List.map_map] at hfst
  exact hfst

/-- The first chain is the one of its session. -/
theorem modifyHead_eq_update (hnodup : (chains.map Chain.mSessionId).Nodup)
    (hhead : ∀ c ∈ chains.head?, c.mSessionId = session) :
    chains.modifyHead f = KeyedList.update Chain.mSessionId session f chains := by
  cases chains with
  | nil => rfl
  | cons c rest =>
    have hc := hhead c rfl
    obtain ⟨hnew, -⟩ := List.nodup_cons.mp hnodup
    rw [hc] at hnew
    rw [KeyedList.update_cons, if_pos hc, KeyedList.update_of_not_mem hnew]
    rfl

namespace Thread

variable {w w' : Thread} {e : Event} {t : Track} {a : ℕ}

/-- The tracks of a session. -/
def trackCnt (w : Thread) (session : ℤ) : ℕ := w.mTracks.countP fun t => t.mSessionId = session

theorem trackCnt_fixed (w : Thread) (session : ℤ) :
    w.trackCnt session = (w.mTracks.map Track.fixed).countP fun f => f.mSessionId = session := by
  rw [List.countP_map]
  rfl

/-- The session of the track at an address. -/
def sessionAt (w : Thread) (a : ℕ) : Option ℤ := (w.track a).map Track.mSessionId

theorem activeTracks_sessionAt (w : Thread) (session : ℤ) :
    w.activeTracks session = w.mActiveTracks.countP fun a => w.sessionAt a = some session := by
  rw [activeTracks]
  apply List.countP_congr
  intro a _
  rw [sessionAt]
  cases w.track a with
  | none => simp
  | some t => simp

theorem activeTracks_congr (hactive : w'.mActiveTracks = w.mActiveTracks)
    (hsession : ∀ a ∈ w.mActiveTracks, w'.sessionAt a = w.sessionAt a) (session : ℤ) :
    w'.activeTracks session = w.activeTracks session := by
  rw [activeTracks_sessionAt, activeTracks_sessionAt, hactive]
  apply List.countP_congr
  intro a ha
  rw [hsession a ha]

theorem sessionAt_fixed (h : w'.mTracks.map Track.fixed = w.mTracks.map Track.fixed) (a : ℕ) :
    w'.sessionAt a = w.sessionAt a := by
  have hlook := congrArg (Option.map Track.Fixed.mSessionId) (lookup_fixed h a)
  rw [Option.map_map, Option.map_map] at hlook
  exact hlook

/-- A new track changes nothing at the addresses in use. -/
theorem sessionAt_append (ha : a ∈ w.mTracks.map Track.self) (htracks : w'.mTracks = w.mTracks ++ [t]) :
    w'.sessionAt a = w.sessionAt a := by
  obtain ⟨x, hx⟩ := mem_selves_iff.mp ha
  rw [sessionAt, sessionAt, hx, track, htracks, KeyedList.lookup_append hx]

/-! ## The invariant -/

/-- Chains have the counts of their sessions and of the tracks there, and on a mixer thread the
tracks of a session with a chain are mixed to the chain's own buffer. -/
structure Counting (w : Thread) : Prop where
  tracked : w.Tracked
  sessions : (w.mEffectChains.map Chain.mSessionId).Nodup
  counts : Counts w.mEffectChains (fun s => w.trackCnt s) (fun s => w.activeTracks s)
  inBuffers : ∀ p ∈ w.mEffectChains.map Chain.place, p.2 = !(0 < p.1 && !w.isDirect)
  mainBuffers : ∀ f ∈ w.mTracks.map Track.fixed, w.isDirect = false → 0 < f.mSessionId →
    f.mSessionId ∈ w.mEffectChains.map Chain.mSessionId → f.mMainBufferIsMix = false

theorem counting_new (isDirect hasFastMixer : Bool) : (new isDirect hasFastMixer).Counting :=
  ⟨tracked_new .., List.nodup_nil, nofun, nofun, nofun⟩

section Steps

variable (hw : w.Counting)

include hw

/-- Only counts and states are written, or tracks go. -/
theorem Counting.recount (htracked : w'.Tracked) (hdirect : w'.isDirect = w.isDirect)
    (hplace : w'.mEffectChains.map Chain.place = w.mEffectChains.map Chain.place)
    (htracks : (w'.mTracks.map Track.fixed).Sublist (w.mTracks.map Track.fixed))
    (hcounts : Counts w'.mEffectChains (fun s => w'.trackCnt s) (fun s => w'.activeTracks s)) : w'.Counting := by
  refine ⟨htracked, ?_, hcounts, ?_, fun f hf => ?_⟩
  · rw [sessions_eq hplace]
    exact hw.sessions
  · rw [hplace, hdirect]
    exact hw.inBuffers
  · rw [sessions_eq hplace, hdirect]
    exact hw.mainBuffers f (htracks.subset hf)

theorem Counting.congr (htracks : w'.mTracks.map Track.fixed = w.mTracks.map Track.fixed)
    (hactive : w'.mActiveTracks = w.mActiveTracks) (hchains : w'.mEffectChains = w.mEffectChains)
    (hdirect : w'.isDirect = w.isDirect) : w'.Counting := by
  refine hw.recount (hw.tracked.congr htracks hactive) hdirect (by rw [hchains]) (by rw [htracks]) ?_
  rw [hchains]
  refine hw.counts.congr (fun s => ?_) fun s => ?_
  · rw [trackCnt_fixed, htracks, ← trackCnt_fixed]
  · rw [activeTracks_congr hactive fun a _ => sessionAt_fixed htracks a]

theorem Counting.update {f : Track → Track} (hf : ∀ t, (f t).fixed = t.fixed) (a : ℕ) :
    (w.updateTrack a f).Counting :=
  hw.congr (map_update hf a w.mTracks) rfl rfl rfl

/-! ## What each step counts -/

theorem Counting.activate {x : Track} (hx : w.track t.self = some x)
    (hsame : x.mSessionId = t.mSessionId) : (w.activate t).Counting := by
  have htracked := hw.tracked.activate hx
  rw [Thread.activate] at htracked ⊢
  split
  · exact hw
  next hnew =>
    rw [if_neg hnew] at htracked
    have hplace : ∀ c : Chain, c.incActiveTrackCnt.place = c.place := fun _ => rfl
    refine hw.recount htracked rfl (place_update hplace ..) (List.Sublist.refl _) ?_
    have hsession : w.sessionAt t.self = some t.mSessionId := by rw [sessionAt, hx, Option.map_some, hsame]
    have hactive : ∀ s, (w.mActiveTracks.orderedInsert (· ≤ ·) t.self).countP (fun a => w.sessionAt a = some s) =
        w.activeTracks s + if t.mSessionId = s then 1 else 0 := by
      intro s
      have hperm : (w.mActiveTracks.orderedInsert (· ≤ ·) t.self).Perm (t.self :: w.mActiveTracks) :=
        List.perm_orderedInsert ..
      rw [hperm.countP_eq, List.countP_cons, hsession, activeTracks_sessionAt]
      simp
    refine hw.counts.update hplace (fun c htracks hcnt => ⟨htracks, ?_⟩) (fun _ _ => rfl) fun s hs => ?_
    · rw [activeTracks_sessionAt]
      simp only [Chain.incActiveTrackCnt]
      refine (congrArg (· + 1) hcnt).trans ?_
      refine Eq.trans ?_ (congrArg Nat.cast (hactive t.mSessionId)).symm
      rw [if_pos rfl]
      rfl
    · rw [activeTracks_sessionAt]
      refine (congrArg Nat.cast (hactive s)).trans ?_
      rw [if_neg hs.symm, Nat.add_zero]

/-- A track that is not active goes. -/
theorem Counting.removeTrack (ht : w.track t.self = some t) (hinactive : t.self ∉ w.mActiveTracks) :
    (w.removeTrack t).Counting := by
  have hplace : ∀ c : Chain, c.decTrackCnt.place = c.place := fun _ => rfl
  refine hw.recount (hw.tracked.removeTrack hinactive) rfl (place_update hplace ..)
    (List.eraseP_sublist.map _) ?_
  have hcnt : ∀ s, (w.removeTrack t).trackCnt s + (decide (t.mSessionId = s)).toNat = w.trackCnt s := by
    intro s
    have hsum := KeyedList.sum_erase ht fun x => (decide (x.mSessionId = s)).toNat
    rw [← KeyedList.countP_eq_sum, ← KeyedList.countP_eq_sum] at hsum
    exact hsum
  have hactive : ∀ s, (w.removeTrack t).activeTracks s = w.activeTracks s := by
    refine activeTracks_congr (w := w) rfl fun a ha => ?_
    have hlook : (w.removeTrack t).track a = w.track a :=
      KeyedList.lookup_eraseP (ne_of_mem_of_not_mem ha hinactive)
    rw [sessionAt, hlook]
    rfl
  refine hw.counts.update hplace (fun c htracks hcnt' => ⟨?_, ?_⟩) (fun s hs => ?_) fun s _ => ?_
  · have hone := hcnt t.mSessionId
    rw [decide_eq_true rfl, Bool.toNat_true] at hone
    simp only [Chain.decTrackCnt]
    omega
  · rw [hactive]
    exact hcnt'
  · have hzero := hcnt s
    rw [decide_eq_false hs.symm, Bool.toNat_false, Nat.add_zero] at hzero
    exact congrArg Nat.cast hzero
  · exact congrArg Nat.cast (hactive s)

/-- The sessions of the chains in their order. -/
def sessions (w : Thread) : List ℤ := w.mEffectChains.map Chain.mSessionId

/-- The chain that a leaving track is taken off is that of its session. -/
def Accountable (w : Thread) (t : Track) : Prop :=
  if w.isDirect then ∀ s ∈ w.sessions.head?, s = t.mSessionId else 0 < t.mSessionId ∨ t.mSessionId ∉ w.sessions

omit hw in
theorem Accountable.congr (h : w.Accountable t) (hsessions : w'.sessions = w.sessions)
    (hdirect : w'.isDirect = w.isDirect) : w'.Accountable t := by
  rw [Accountable, hsessions, hdirect]
  exact h

omit hw in
theorem deactivate_sessions (w : Thread) (a : ℕ) :
    (w.deactivate a).sessions = w.sessions ∧ (w.deactivate a).isDirect = w.isDirect := by
  have hdec : ∀ c : Chain, c.decActiveTrackCnt.mSessionId = c.mSessionId := fun _ => rfl
  have hupdate : ∀ (s : ℤ) (f : Chain → Chain) (cs : List Chain), (∀ c, (f c).mSessionId = c.mSessionId) →
      (KeyedList.update Chain.mSessionId s f cs).map Chain.mSessionId = cs.map Chain.mSessionId :=
    fun s f cs hf => KeyedList.map_key_update fun c hc => (hf c).trans hc
  rw [Thread.deactivate]
  cases w.track a with
  | none => exact ⟨rfl, rfl⟩
  | some t =>
    simp only
    generalize hchains : (if w.isDirect = true then _ else _ : List Chain) = chains
    have hsame : chains.map Chain.mSessionId = w.sessions := by
      rw [← hchains]
      split
      · cases hcs : w.mEffectChains with
        | nil => rw [sessions, hcs]; rfl
        | cons c cs => rw [sessions, hcs]; rfl
      · split
        · rfl
        · exact hupdate _ _ _ hdec
    split
    · exact ⟨(hupdate t.mSessionId Chain.decTrackCnt chains fun _ => rfl).trans hsame, rfl⟩
    · exact ⟨hsame, rfl⟩

/-- Where the track is accountable, it is taken off the chain of its session. -/
theorem Counting.deactivate_chains (ht : t ∈ w.mTracks) (hok : w.Accountable t) :
    (if w.isDirect then w.mEffectChains.modifyHead Chain.decActiveTrackCnt
      else if t.mMainBufferIsMix then w.mEffectChains
      else KeyedList.update Chain.mSessionId t.mSessionId Chain.decActiveTrackCnt w.mEffectChains) =
    KeyedList.update Chain.mSessionId t.mSessionId Chain.decActiveTrackCnt w.mEffectChains := by
  rw [Accountable] at hok
  cases hdirect : w.isDirect with
  | true =>
    rw [if_pos hdirect] at hok
    rw [if_pos rfl]
    refine modifyHead_eq_update hw.sessions fun c hc => hok _ ?_
    rw [Thread.sessions, List.head?_map]
    exact Option.mem_map_of_mem _ hc
  | false =>
    rw [hdirect, if_neg Bool.false_ne_true] at hok
    rw [if_neg Bool.false_ne_true]
    split
    next hmix =>
      have hnone : t.mSessionId ∉ w.sessions := by
        rcases hok with hpos | hnone
        · intro hmem
          have hown := hw.mainBuffers t.fixed (List.mem_map_of_mem ht) hdirect hpos hmem
          exact Bool.false_ne_true (hown.symm.trans hmix)
        · exact hnone
      exact (KeyedList.update_of_not_mem hnone).symm
    · rfl

theorem Counting.deactivate (ht : w.track a = some t) (ha : a ∈ w.mActiveTracks)
    (hok : w.Accountable t) : (w.deactivate a).Counting := by
  obtain ⟨hmem, rfl⟩ := track_some ht
  have hplace : ∀ c : Chain, c.decActiveTrackCnt.place = c.place := fun _ => rfl
  rw [Thread.deactivate, ht]
  simp only
  rw [hw.deactivate_chains hmem hok]
  have hsession : w.sessionAt t.self = some t.mSessionId := by rw [sessionAt, ht, Option.map_some]
  have hperm := List.perm_cons_erase ha
  have hactive : ∀ s, w.activeTracks s = (w.mActiveTracks.erase t.self).countP (fun a => w.sessionAt a = some s) +
      (decide (t.mSessionId = s)).toNat := by
    intro s
    rw [activeTracks_sessionAt, hperm.countP_eq, List.countP_cons, hsession]
    by_cases hs : t.mSessionId = s
    · simp [hs]
    · simp [hs]
  have hless : ({ w with
      mActiveTracks := w.mActiveTracks.erase t.self
      mEffectChains := KeyedList.update Chain.mSessionId t.mSessionId Chain.decActiveTrackCnt w.mEffectChains } :
        Thread).Counting := by
    refine hw.recount ?_ rfl (place_update hplace ..) (List.Sublist.refl _) ?_
    · exact ⟨hw.tracked.selves, hw.tracked.actives.erase _, fun b hb => hw.tracked.present b (List.mem_of_mem_erase hb)⟩
    · refine hw.counts.update hplace (fun c htracks hcnt => ⟨htracks, ?_⟩) (fun _ _ => rfl) fun s hs => ?_
      · have hone := hactive t.mSessionId
        rw [decide_eq_true rfl, Bool.toNat_true] at hone
        rw [activeTracks_sessionAt]
        refine (congrArg (· - 1) hcnt).trans ?_
        simp only [hone, Nat.cast_add, Nat.cast_one, Int.add_sub_cancel]
        rfl
      · have hzero := hactive s
        rw [decide_eq_false hs.symm, Bool.toNat_false, Nat.add_zero] at hzero
        rw [activeTracks_sessionAt]
        exact congrArg Nat.cast hzero.symm
  split
  · exact hless.removeTrack ht hw.tracked.actives.not_mem_erase
  · exact hless

/-- All tracks that leave are accountable. -/
theorem Counting.foldl_deactivate {as : List ℕ} (has : as.Nodup)
    (hactive : ∀ a ∈ as, a ∈ w.mActiveTracks) (hok : ∀ a ∈ as, ∀ t ∈ w.track a, w.Accountable t) :
    (as.foldl Thread.deactivate w).Counting := by
  induction as generalizing w with
  | nil => exact hw
  | cons a as ih =>
    obtain ⟨hnew, has⟩ := List.nodup_cons.mp has
    obtain ⟨hsessions, hdirect⟩ := w.deactivate_sessions a
    obtain ⟨t, ht⟩ := mem_selves_iff.mp (hw.tracked.present a (hactive a List.mem_cons_self))
    have hnext := hw.deactivate ht (hactive a List.mem_cons_self) (hok a List.mem_cons_self t ht)
    refine ih hnext has (fun b hb => ?_) fun b hb x hx => ?_
    · exact (w.deactivate_other (ne_of_mem_of_not_mem hb hnew)).2.mpr (hactive b (List.mem_cons_of_mem a hb))
    · rw [(w.deactivate_other (ne_of_mem_of_not_mem hb hnew)).1] at hx
      exact (hok b (List.mem_cons_of_mem a hb) x hx).congr hsessions hdirect

/-- A new track is counted by the chain of its session. -/
theorem Counting.append (htracked : w'.Tracked) (htracks : w'.mTracks = w.mTracks ++ [t])
    (hactive : w'.mActiveTracks = w.mActiveTracks) (hdirect : w'.isDirect = w.isDirect)
    (hchains : w'.mEffectChains = KeyedList.update Chain.mSessionId t.mSessionId Chain.incTrackCnt w.mEffectChains)
    (hbuffer : w.isDirect = false → 0 < t.mSessionId → t.mSessionId ∈ w.sessions → t.mMainBufferIsMix = false) :
    w'.Counting := by
  have hinc : ∀ c : Chain, c.incTrackCnt.place = c.place := fun _ => rfl
  have hplace : w'.mEffectChains.map Chain.place = w.mEffectChains.map Chain.place := by
    rw [hchains]
    exact place_update hinc ..
  have hcnt : ∀ s, (w'.trackCnt s : ℤ) = w.trackCnt s + (decide (t.mSessionId = s)).toNat := by
    intro s
    rw [trackCnt, htracks, List.countP_append, List.countP_singleton, trackCnt]
    by_cases hs : t.mSessionId = s
    · simp [hs]
    · simp [hs]
  have hsame : ∀ s, w'.activeTracks s = w.activeTracks s :=
    activeTracks_congr hactive fun a ha => sessionAt_append (hw.tracked.present a ha) htracks
  refine ⟨htracked, ?_, ?_, ?_, fun f hf => ?_⟩
  · rw [sessions_eq hplace]
    exact hw.sessions
  · rw [hchains]
    refine hw.counts.update hinc (fun c hold hcount => ⟨?_, ?_⟩) (fun s hs => ?_) fun s _ => ?_
    · rw [hcnt, decide_eq_true rfl, ← hold]
      rfl
    · rw [hsame]
      exact hcount
    · rw [hcnt, decide_eq_false hs.symm, Bool.toNat_false, Nat.cast_zero, add_zero]
    · rw [hsame]
  · rw [hplace, hdirect]
    exact hw.inBuffers
  · rw [sessions_eq hplace, hdirect]
    rw [htracks, List.map_append, List.mem_append] at hf
    rcases hf with hold | hnew
    · exact hw.mainBuffers f hold
    · obtain rfl := List.mem_singleton.mp hnew
      exact hbuffer

theorem Counting.createTrack (r : NewTrack) (htracked : (w.createTrack r).Tracked) :
    (w.createTrack r).Counting := by
  rw [Thread.createTrack] at htracked ⊢
  split
  · exact hw
  next hnamed =>
    rw [if_neg hnamed] at htracked
    refine hw.append htracked rfl rfl rfl rfl fun hdirect (hpos : 0 < r.mSessionId) hmem => ?_
    -- the track is connected to the chain that is already there
    obtain ⟨c, hc, hsession⟩ : ∃ c ∈ w.mEffectChains, c.mSessionId = r.mSessionId := List.mem_map.mp hmem
    have hfound : w.getEffectChain c.mSessionId = some c := KeyedList.lookup_of_mem hw.sessions hc
    rw [hsession] at hfound
    have hbuffer := hw.inBuffers c.place (List.mem_map_of_mem hc)
    simp only [Chain.place, hsession, hdirect] at hbuffer
    simp only [NewTrack.track, hfound, Option.map_some, Option.getD_some, hbuffer]
    simpa using hpos

theorem Counting.addOutputTrack (self : ℕ) (mResetDone : Bool) (hnone : 0 ∉ w.sessions)
    (htracked : (w.addOutputTrack self mResetDone).Tracked) : (w.addOutputTrack self mResetDone).Counting :=
  hw.append htracked rfl rfl rfl (KeyedList.update_of_not_mem hnone).symm fun _ hpos => absurd hpos (lt_irrefl 0)

end Steps

/-- Buffers are written, sessions are not. -/
theorem setMainBuffer_sessions (session : ℤ) (isMix : Bool)
    (htracks : w'.mTracks = setMainBuffer session isMix w.mTracks) (hactive : w'.mActiveTracks = w.mActiveTracks)
    (s : ℤ) : w'.trackCnt s = w.trackCnt s ∧ w'.activeTracks s = w.activeTracks s := by
  have hsession : ∀ t : Track, (if t.mSessionId = session then { t with mMainBufferIsMix := isMix } else t).mSessionId =
      t.mSessionId := by
    intro t
    split <;> rfl
  have hself : ∀ t : Track, (if t.mSessionId = session then { t with mMainBufferIsMix := isMix } else t).self =
      t.self := by
    intro t
    split <;> rfl
  refine ⟨?_, activeTracks_congr hactive (fun a _ => ?_) s⟩
  · rw [trackCnt, htracks, setMainBuffer, List.countP_map]
    simp only [Function.comp_def, hsession]
    rfl
  · rw [sessionAt, sessionAt, track, track, htracks, KeyedList.lookup, setMainBuffer, List.find?_map,
      Option.map_map]
    simp only [Function.comp_def, hsession, hself]
    rfl

theorem setMainBuffer_fixed {session : ℤ} {isMix : Bool} {tracks : List Track} {f : Track.Fixed}
    (hf : f ∈ (setMainBuffer session isMix tracks).map Track.fixed) :
    f.mSessionId = session ∧ f.mMainBufferIsMix = isMix ∨ f.mSessionId ≠ session ∧ f ∈ tracks.map Track.fixed := by
  rw [setMainBuffer, List.map_map] at hf
  obtain ⟨t, ht, rfl⟩ := List.mem_map.mp hf
  simp only [Function.comp]
  split
  next hs => exact .inl ⟨hs, rfl⟩
  next hs => exact .inr ⟨hs, List.mem_map_of_mem ht⟩

theorem Counting.addEffectChain (hw : w.Counting) {session : ℤ} (hnew : session ∉ w.sessions)
    (hok : 0 < session ∨ ∀ t ∈ w.mTracks, t.mSessionId ≠ session) (htracked : (w.addEffectChain session).Tracked) :
    (w.addEffectChain session).Counting := by
  have hsame : ∀ s, (w.addEffectChain session).trackCnt s = w.trackCnt s ∧
      (w.addEffectChain session).activeTracks s = w.activeTracks s := by
    intro s
    by_cases hpos : 0 < session
    · have htracks : (w.addEffectChain session).mTracks =
          setMainBuffer session (!(0 < session && !w.isDirect)) w.mTracks := if_pos hpos
      exact setMainBuffer_sessions session _ htracks rfl s
    · have htracks : (w.addEffectChain session).mTracks = w.mTracks := if_neg hpos
      have hactive : (w.addEffectChain session).mActiveTracks = w.mActiveTracks := rfl
      refine ⟨by rw [trackCnt, htracks, trackCnt], activeTracks_congr hactive (fun a _ => ?_) s⟩
      exact sessionAt_fixed (by rw [htracks]) a
  -- without tracks of its session a chain is right to count none
  have hcounted : (if 0 < session then (w.trackCnt session : ℤ) else 0) = w.trackCnt session ∧
      (if 0 < session then (w.activeTracks session : ℤ) else 0) = w.activeTracks session := by
    by_cases hpos : 0 < session
    · rw [if_pos hpos, if_pos hpos]
      exact ⟨rfl, rfl⟩
    · have hnone := hok.resolve_left hpos
      rw [if_neg hpos, if_neg hpos, eq_comm, @eq_comm _ 0, Nat.cast_eq_zero, Nat.cast_eq_zero, trackCnt,
        List.countP_eq_zero, activeTracks, List.countP_eq_zero]
      refine ⟨fun t ht => by simpa using hnone t ht, fun a _ => ?_⟩
      cases htrack : w.track a with
      | none => simp
      | some t => simpa using hnone t (track_some htrack).1
  have hle : w.mEffectChains.findIdx (fun c => c.mSessionId < session) ≤ w.mEffectChains.length :=
    List.findIdx_le_length
  have hperm := fun c : Chain => List.perm_insertIdx c w.mEffectChains hle
  have hcounts : Counts (w.addEffectChain session).mEffectChains (fun s => w.trackCnt s)
      (fun s => w.activeTracks s) := by
    intro c hc
    rcases List.mem_cons.mp ((hperm _).mem_iff.mp hc) with rfl | hold
    · exact hcounted
    · exact hw.counts c hold
  refine ⟨htracked, ?_, ?_, fun p hp => ?_, fun f hf => ?_⟩
  · refine ((hperm _).map Chain.mSessionId).nodup_iff.mpr ?_
    exact List.nodup_cons.mpr ⟨hnew, hw.sessions⟩
  · exact hcounts.congr (fun s => congrArg Nat.cast (hsame s).1) fun s => congrArg Nat.cast (hsame s).2
  · obtain ⟨c, hc, rfl⟩ := List.mem_map.mp hp
    rcases List.mem_cons.mp ((hperm _).mem_iff.mp hc) with rfl | hold
    · rfl
    · exact hw.inBuffers _ (List.mem_map_of_mem hold)
  · intro hdirect hpos hmem
    have hmem' : f.mSessionId = session ∨ f.mSessionId ∈ w.sessions := by
      rcases List.mem_map.mp hmem with ⟨c, hc, heq⟩
      rcases List.mem_cons.mp ((hperm _).mem_iff.mp hc) with rfl | hold
      · exact .inl heq.symm
      · exact .inr (heq ▸ List.mem_map_of_mem hold)
    by_cases hown : 0 < session
    · have htracks : (w.addEffectChain session).mTracks =
          setMainBuffer session (!(0 < session && !w.isDirect)) w.mTracks := if_pos hown
      rw [htracks] at hf
      rcases setMainBuffer_fixed hf with ⟨-, hmix⟩ | ⟨hne, hold⟩
      · have hmixer : w.isDirect = false := hdirect
        rw [hmix, hmixer, decide_eq_true hown]
        rfl
      · exact hw.mainBuffers f hold hdirect hpos (hmem'.resolve_left hne)
    · have htracks : (w.addEffectChain session).mTracks = w.mTracks := if_neg hown
      rw [htracks] at hf
      exact hw.mainBuffers f hf hdirect hpos (hmem'.resolve_left fun h => hown (h ▸ hpos))

theorem Counting.removeEffectChain (hw : w.Counting) (session : ℤ)
    (htracked : (w.removeEffectChain session).Tracked) : (w.removeEffectChain session).Counting := by
  have hsame : ∀ s, (w.removeEffectChain session).trackCnt s = w.trackCnt s ∧
      (w.removeEffectChain session).activeTracks s = w.activeTracks s := setMainBuffer_sessions session true rfl rfl
  have hsub : (w.removeEffectChain session).mEffectChains.Sublist w.mEffectChains := List.eraseP_sublist
  refine ⟨htracked, hw.sessions.sublist (hsub.map _), fun c hc => ?_, fun p hp => ?_, fun f hf => ?_⟩
  · exact (hw.counts.congr (fun s => congrArg Nat.cast (hsame s).1) fun s => congrArg Nat.cast (hsame s).2) c
      (hsub.subset hc)
  · exact hw.inBuffers p ((hsub.map _).subset hp)
  · intro hdirect hpos hmem
    rcases setMainBuffer_fixed hf with ⟨hs, -⟩ | ⟨-, hold⟩
    · rw [hs] at hmem
      exact absurd hmem (KeyedList.not_mem_eraseP hw.sessions session)
    · exact hw.mainBuffers f hold hdirect hpos ((hsub.map _).subset hmem)

/-! ## Every run -/

/-- The chains and the tracks that are counted right: a chain that is not of a session above 0 comes
before the tracks of its session, an `OutputTrack` comes while there is no chain of its own, and every
active track that a cycle removes is accountable. -/
def ChainSound (w : Thread) : Event → Prop
  | .addOutputTrack .. => 0 ∉ w.sessions
  | .addEffectChain session => 0 < session ∨ ∀ t ∈ w.mTracks, t.mSessionId ≠ session
  | .prepareTracks framesWritten audioHALFrames look => ∀ a ∈ w.mActiveTracks, ∀ t ∈ w.track a,
      t.leaves w.isDirect (w.mActiveTracks.getLast? = some a)
        ⟨w.mStandby, framesWritten, audioHALFrames, look⟩ = true → w.Accountable t
  | _ => True

instance (w : Thread) (t : Track) : Decidable (w.Accountable t) :=
  inferInstanceAs (Decidable (if w.isDirect then ∀ s ∈ w.sessions.head?, s = t.mSessionId
    else 0 < t.mSessionId ∨ t.mSessionId ∉ w.sessions))

instance (w : Thread) : ∀ e, Decidable (w.ChainSound e)
  | .addEffectChain _ => inferInstanceAs (Decidable (_ ∨ ∀ t ∈ w.mTracks, _))
  | .prepareTracks .. => inferInstanceAs (Decidable (∀ a ∈ w.mActiveTracks, ∀ t ∈ w.track a, _ → w.Accountable t))
  | .addOutputTrack .. => inferInstanceAs (Decidable (0 ∉ w.sessions))
  | .create _ | .start _ | .stop _ | .pause _ | .flush _ | .destroy _ | .destroyTrack _ | .removeEffectChain _
  | .removeNext | .write | .standby => isTrue trivial

theorem not_mem_sessions {session : ℤ} (h : w.getEffectChain session = none) : session ∉ w.sessions := by
  intro hmem
  obtain ⟨c, hc, hsession⟩ := List.mem_map.mp hmem
  exact KeyedList.lookup_none h c hc hsession

/-- The loop, and the tracks that it removes. -/
theorem Counting.prepareTracks (hw : w.Counting) {framesWritten audioHALFrames : ℕ} {look : ℕ → Track.Look}
    (hok : w.ChainSound (.prepareTracks framesWritten audioHALFrames look)) :
    (w.prepareTracks framesWritten audioHALFrames look).Counting := by
  rw [prepareTracks_eq]
  have hfixed := hw.tracked.swept_map fixed_unwritten ⟨w.mStandby, framesWritten, audioHALFrames, look⟩
  obtain ⟨hsub, hgone⟩ := hw.tracked.sweep_gone ⟨w.mStandby, framesWritten, audioHALFrames, look⟩
  have hswept : (w.swept (w.sweep ⟨w.mStandby, framesWritten, audioHALFrames, look⟩)).Counting :=
    hw.congr hfixed rfl rfl rfl
  refine hswept.foldl_deactivate (hw.tracked.actives.sublist hsub) (fun a ha => hsub.subset ha) fun a ha t ht => ?_
  obtain ⟨x, hx, hleaves⟩ := hgone a ha
  have haccountable := hok a (hsub.subset ha) x hx hleaves
  -- the loop has not written the session of the track
  have hsession := sessionAt_fixed hfixed a
  rw [sessionAt, sessionAt, ht, hx, Option.map_some, Option.map_some, Option.some.injEq] at hsession
  rw [Accountable, ← hsession] at haccountable
  exact haccountable

theorem Counting.step (hw : w.Counting) (hok : w.ChainSound e) (hstep : w.step e = some w') : w'.Counting := by
  have htracked := hw.tracked.step hstep
  cases step_spec hstep with
  | create r => exact hw.createTrack r htracked
  | addOutputTrack self mResetDone => exact hw.addOutputTrack self mResetDone hok htracked
  | start t ht =>
    have hstarted := track_updateTrack (fun x => @Track.fixed_start x (decide (t.self ∈ w.mActiveTracks))) ht
    have hupdate := hw.update (fun x => @Track.fixed_start x (decide (t.self ∈ w.mActiveTracks))) t.self
    have hsession := congrArg Track.Fixed.mSessionId (@Track.fixed_start t (decide (t.self ∈ w.mActiveTracks)))
    exact (hupdate.activate hstarted hsession).congr rfl rfl rfl rfl
  | stop t => exact (hw.update (fun _ => Track.fixed_stop _) t.self).congr rfl rfl rfl rfl
  | pause t => exact (hw.update (fun _ => Track.fixed_pause) t.self).congr rfl rfl rfl rfl
  | flush t => exact hw.update (fun _ => Track.fixed_flush _) t.self
  | destroy => exact hw.congr rfl rfl rfl rfl
  | destroyTrack t ht =>
    have hupdate := hw.update (fun t => @Track.fixed_terminate t) t.self
    rw [Thread.destroyTrack]
    split
    · exact hupdate
    next hnot =>
      exact hupdate.removeTrack (track_updateTrack (fun x => @Track.fixed_terminate x) ht) hnot
  | addEffectChain session hnew => exact hw.addEffectChain (not_mem_sessions hnew) hok htracked
  | removeEffectChain session => exact hw.removeEffectChain session htracked
  | prepareTracks => exact hw.prepareTracks hok
  | removeNext =>
    rw [Thread.removeNext]
    split
    · exact hw
    · exact hw.congr rfl rfl rfl rfl
  | write => exact hw.congr rfl rfl rfl rfl
  | standby => exact hw.congr rfl rfl rfl rfl

/-- The counts of every chain are those of its session, and not negative. -/
def Counted (w : Thread) : Prop :=
  ∀ c ∈ w.mEffectChains, c.mTrackCnt = w.trackCnt c.mSessionId ∧ c.mActiveTrackCnt = w.activeTracks c.mSessionId ∧
    0 ≤ c.mTrackCnt ∧ 0 ≤ c.mActiveTrackCnt

theorem Counting.counted (hw : w.Counting) : w.Counted := by
  intro c hc
  obtain ⟨htracks, hactive⟩ := hw.counts c hc
  refine ⟨htracks, hactive, ?_, ?_⟩
  · rw [htracks]
    exact Int.natCast_nonneg _
  · rw [hactive]
    exact Int.natCast_nonneg _

/-- Along the steps that count right, every chain has the counts of its session. -/
theorem counted_along (isDirect hasFastMixer : Bool) (es : List Event) (w : Thread)
    (hrun : Machine.run step (new isDirect hasFastMixer) es = some w)
    (hsound : Machine.Along step ChainSound (new isDirect hasFastMixer) es) : w.Counted :=
  (Machine.run_invariant_along (fun _ _ _ hok hstep h => h.step hok hstep) hsound hrun
    (counting_new ..) : w.Counting).counted

/-- A streaming track of a session, not a fast one. -/
def plainTrack (self : ℕ) (session : ℤ) : NewTrack :=
  ⟨self, session, false, false, true, ⟨0, 0, 0⟩, false⟩

/-- No frames for any track. -/
def starved (_ : ℕ) : Track.Look := ⟨false, false, ⟨0, 0, 0⟩⟩

/-- Three tracks, two of them of a session that gets a chain between them; one is stopped and one
destroyed while it is active. -/
def twoCounted : List Event :=
  [.standby, .create (plainTrack 1 7), .start 1, .addEffectChain 7, .create (plainTrack 2 7), .create (plainTrack 3 8),
    .start 2, .start 3, .stop 1, .prepareTracks 0 10 starved, .destroy 2, .destroyTrack 2, .removeNext,
    .prepareTracks 0 10 starved]

theorem counted_along_twoCounted : ∃ w, Machine.run step (new false true) twoCounted = some w ∧ w.Counted := by
  have hrun := Option.eq_some_of_isSome
    (by decide : (Machine.run step (new false true) twoCounted).isSome = true)
  exact ⟨_, hrun, counted_along false true twoCounted _ hrun (by decide)⟩

/-- A direct thread takes a track of session 7 off the chain of session 8; on a mixer thread the chain of
the output stage does not count a track that was there before it, and the chain of the output mix takes
off an `OutputTrack` that it has not counted. -/
theorem counted_wrong :
    (Machine.run step (new true false)
      [.standby, .addEffectChain 8, .create (plainTrack 1 7), .start 1, .stop 1, .prepareTracks 0 10 starved]).map
        (fun w => (w.mEffectChains, w.trackCnt 8, w.activeTracks 8)) = some ([⟨8, 0, -1, true⟩], 0, 0) ∧
    (Machine.run step (new false true)
      [.create (plainTrack 1 (-1)), .start 1, .addEffectChain (-1)]).map
        (fun w => (w.mEffectChains, w.trackCnt (-1), w.activeTracks (-1))) = some ([⟨-1, 0, 0, true⟩], 1, 1) ∧
    (Machine.run step (new false true)
      [.addEffectChain 0, .addOutputTrack 1 false, .destroy 1, .destroyTrack 1]).map
        (fun w => (w.mEffectChains, w.trackCnt 0, w.activeTracks 0)) = some ([⟨0, -1, 0, true⟩], 0, 0) := by
  decide

end Thread

end AudioFlinger.Playback
