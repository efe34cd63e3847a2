import AudioFlinger.Effects.Control

/-!
# Effects of a thread that suspend those of the mix

Each call of a thread keeps its chains orderly. What it adds to the enabled
effects of other sessions it adds to the suspensions of all effects of the output
mix, in the calls that tell the thread of it.
-/

namespace AudioFlinger.Effects

open Foundation

namespace PlaybackThread

/-- The effects of a chain that suspend those of the mix. -/
def mixWeight (c : Chain) : ℕ := if suspendsMix c.mSessionId then c.enabledCount else 0

/-- The effects of other sessions, but not of the output stage, whose handle in control is enabled. -/
def enabledEffects (t : PlaybackThread) : ℕ := (t.mEffectChains.map mixWeight).sum

/-- How often all effects of the output mix are suspended. -/
def mixCount (t : PlaybackThread) : ℤ :=
  (t.entry audioSessionOutputMix kKeyForSuspendAll).elim 0 SuspendedSessionDesc.mRefCount

/-- One chain for a session, each of them orderly. -/
structure Orderly (t : PlaybackThread) : Prop where
  sessions : (t.mEffectChains.map Chain.mSessionId).Nodup
  chains : ∀ c ∈ t.mEffectChains, c.Orderly

variable {t t' : PlaybackThread} {session : ℤ} {c c' : Chain} {policy : ℕ → Bool} {e : Module}

/-! ## Chains -/

theorem mixWeight_alike (ho : c.Orderly) (h : Chain.Alike c c') : mixWeight c' = mixWeight c := by
  rw [mixWeight, mixWeight, h.session, (ho.alike h).2]

theorem mixWeight_of_nil (h : c.mEffects = []) : mixWeight c = 0 := by
  rw [mixWeight, Chain.enabledCount, h]
  split <;> rfl

/-- Only states of effects are written. -/
theorem Orderly.updateAlike (ho : t.Orderly) (s : ℤ) {f : Chain → Chain}
    (hf : ∀ c, Chain.Alike c (f c)) :
    (t.updateChain s f).Orderly ∧ (t.updateChain s f).enabledEffects = t.enabledEffects := by
  refine ⟨⟨?_, ?_⟩, ?_⟩
  · have hkeys := @KeyedList.map_key_update _ _ _ Chain.mSessionId t.mEffectChains s f
      fun c hc => (hf c).session.trans hc
    rw [updateChain, hkeys]
    exact ho.sessions
  · intro c' hc'
    obtain ⟨c, hc, rfl⟩ := List.mem_map.mp hc'
    split
    · exact ((ho.chains c hc).alike (hf c)).1
    · exact ho.chains c hc
  · simp only [enabledEffects, updateChain, KeyedList.update, List.map_map]
    congr 1
    apply List.map_congr_left
    intro c hc
    simp only [Function.comp]
    split
    · exact mixWeight_alike (ho.chains c hc) (hf c)
    · rfl

/-- The chain of a session is written. -/
theorem Orderly.updateChain (ho : t.Orderly) (hget : t.getEffectChain session = some c)
    (hc' : c'.Orderly) (hsession : c'.mSessionId = c.mSessionId) :
    (t.updateChain session fun _ => c').Orderly ∧
      (t.updateChain session fun _ => c').enabledEffects + mixWeight c =
        t.enabledEffects + mixWeight c' := by
  obtain ⟨hc, rfl⟩ := getEffectChain_some hget
  refine ⟨⟨?_, ?_⟩, KeyedList.sum_update ho.sessions hc (fun _ => c') mixWeight⟩
  · have hkeys := @KeyedList.map_key_update _ _ _ Chain.mSessionId t.mEffectChains c.mSessionId
      (fun _ => c') fun _ _ => hsession
    rw [PlaybackThread.updateChain, hkeys]
    exact ho.sessions
  · intro x hx
    obtain ⟨y, hy, rfl⟩ := List.mem_map.mp hx
    split
    · exact hc'
    · exact ho.chains y hy

theorem Orderly.removeEffectChain (ho : t.Orderly) (hget : t.getEffectChain session = some c) :
    (t.removeEffectChain session).Orderly ∧
      (t.removeEffectChain session).enabledEffects + mixWeight c = t.enabledEffects := by
  have hsub : (t.removeEffectChain session).mEffectChains.Sublist t.mEffectChains := List.eraseP_sublist
  exact ⟨⟨ho.sessions.sublist (hsub.map _), fun c hc => ho.chains c (hsub.subset hc)⟩,
    KeyedList.sum_erase hget mixWeight⟩

theorem Orderly.putChain (ho : t.Orderly) (hget : t.getEffectChain session = some c)
    (hc' : c'.Orderly) (hsession : c'.mSessionId = c.mSessionId) :
    (t.putChain session c').Orderly ∧
      (t.putChain session c').enabledEffects + mixWeight c = t.enabledEffects + mixWeight c' := by
  rw [PlaybackThread.putChain]
  split
  next hnil =>
    rw [mixWeight_of_nil hnil]
    exact ho.removeEffectChain hget
  next => exact ho.updateChain hget hc' hsession

theorem Orderly.addEffectChain (ho : t.Orderly) (hnone : t.getEffectChain c.mSessionId = none)
    (hc : c.Orderly) : (t.addEffectChain c).Orderly ∧
      (t.addEffectChain c).enabledEffects = mixWeight c + t.enabledEffects := by
  have hperm := t.addEffectChain_perm c
  have halike := t.checkSuspendOnAddEffectChain_alike c
  refine ⟨⟨?_, ?_⟩, ?_⟩
  · rw [(hperm.map Chain.mSessionId).nodup_iff, List.map_cons, List.nodup_cons, halike.session]
    refine ⟨fun hmem => ?_, ho.sessions⟩
    obtain ⟨x, hx, hsession⟩ := List.mem_map.mp hmem
    exact KeyedList.lookup_none hnone x hx hsession
  · intro x hx
    rcases List.mem_cons.mp (hperm.mem_iff.mp hx) with rfl | hx
    · exact (hc.alike halike).1
    · exact ho.chains x hx
  · rw [enabledEffects, (hperm.map mixWeight).sum_eq, List.map_cons, List.sum_cons,
      mixWeight_alike hc halike]
    rfl

/-! ## What a call tells the thread -/

theorem setEffectSuspended_all (policy : ℕ → Bool) (suspend : Bool) (session : ℤ) (t : PlaybackThread) :
    t.setEffectSuspended policy none suspend session =
      (t.updateChain session fun c => c.setEffectSuspendedAll policy suspend).updateSuspendedSessions
        none suspend session := rfl

theorem setEffectSuspendedAll_alike (policy : ℕ → Bool) (suspend : Bool) (c : Chain) :
    Chain.Alike c (c.setEffectSuspendedAll policy suspend) := by
  rw [Chain.setEffectSuspendedAll]
  split
  · exact c.suspendAll_alike
  · exact c.restoreAll_alike policy

theorem setEffectSuspended_alike (policy : ℕ → Bool) (c : Chain) (type : Uuid) (suspend : Bool) :
    Chain.Alike c (c.setEffectSuspended policy type suspend) := by
  rw [Chain.setEffectSuspended]
  split
  · exact c.suspend_alike type
  · exact c.restore_alike policy type

theorem Orderly.updateSuspendedSessions (ho : t.Orderly) (type : Option Uuid) (suspend : Bool)
    (session : ℤ) : (t.updateSuspendedSessions type suspend session).Orderly ∧
      (t.updateSuspendedSessions type suspend session).enabledEffects = t.enabledEffects := by
  refine ⟨⟨?_, ?_⟩, ?_⟩
  · rw [mEffectChains_updateSuspendedSessions]
    exact ho.sessions
  · rw [mEffectChains_updateSuspendedSessions]
    exact ho.chains
  · rw [enabledEffects, mEffectChains_updateSuspendedSessions, enabledEffects]

theorem mixCount_suspendAll (t : PlaybackThread) :
    (t.updateSuspendedSessions none true audioSessionOutputMix).mixCount = t.mixCount + 1 := by
  rw [mixCount, entry_suspend, if_pos ⟨rfl, rfl⟩]
  rfl

theorem mixCount_restoreAll (hpos : 0 < t.mixCount) :
    (t.updateSuspendedSessions none false audioSessionOutputMix).mixCount = t.mixCount - 1 := by
  cases hentry : t.entry audioSessionOutputMix kKeyForSuspendAll with
  | none =>
    rw [mixCount, hentry] at hpos
    exact absurd hpos (lt_irrefl 0)
  | some d =>
    have hcount : t.mixCount = d.mRefCount := by
      rw [mixCount, hentry]
      rfl
    rw [mixCount, @entry_restore _ _ none _ hentry, if_pos ⟨rfl, rfl⟩, hcount]
    split
    next hzero => exact hzero.symm
    next => rfl

theorem Orderly.setEffectSuspendedAll (ho : t.Orderly) (policy : ℕ → Bool) (suspend : Bool) :
    (t.setEffectSuspended policy none suspend session).Orderly ∧
      (t.setEffectSuspended policy none suspend session).enabledEffects = t.enabledEffects := by
  obtain ⟨ho₁, hcount₁⟩ := ho.updateAlike session (setEffectSuspendedAll_alike policy suspend)
  obtain ⟨ho₂, hcount₂⟩ := ho₁.updateSuspendedSessions none suspend session
  exact ⟨ho₂, hcount₂.trans hcount₁⟩

/-- How much the mix is suspended for a call of a session. -/
def told (session : ℤ) (n : ℕ) : ℕ := if suspendsMix session then n else 0

theorem mixCount_suspendMix_true (policy : ℕ → Bool) (session : ℤ) (t : PlaybackThread) :
    (t.suspendMix policy true session).mixCount = t.mixCount + told session 1 := by
  rw [suspendMix, told]
  split
  · rw [setEffectSuspended_all, mixCount_suspendAll]
    rfl
  · simp

theorem mixCount_suspendMix_false (policy : ℕ → Bool) (hpos : told session 1 ≤ t.mixCount) :
    (t.suspendMix policy false session).mixCount = t.mixCount - told session 1 := by
  rw [suspendMix, told] at *
  split
  next h =>
    rw [if_pos h] at hpos
    have hpos' : 0 < (t.updateChain audioSessionOutputMix fun c =>
      c.setEffectSuspendedAll policy false).mixCount := by exact_mod_cast hpos
    rw [setEffectSuspended_all, mixCount_restoreAll hpos']
    rfl
  next => simp

theorem Orderly.suspendMix (ho : t.Orderly) (policy : ℕ → Bool) (enabled : Bool) (session : ℤ) :
    (t.suspendMix policy enabled session).Orderly ∧
      (t.suspendMix policy enabled session).enabledEffects = t.enabledEffects := by
  rw [PlaybackThread.suspendMix]
  split
  · exact ho.setEffectSuspendedAll policy enabled
  · exact ⟨ho, rfl⟩

theorem Orderly.concludeCall (ho : t.Orderly) (policy : ℕ → Bool) (enabled : Bool) (session : ℤ)
    (o : Chain.Outcome) : (t.concludeCall policy enabled session o).Orderly ∧
      (t.concludeCall policy enabled session o).enabledEffects = t.enabledEffects := by
  cases o with
  | unchanged => exact ⟨ho, rfl⟩
  | silent => exact ⟨ho, rfl⟩
  | checked => exact ho.suspendMix policy enabled session
  | refused =>
    obtain ⟨ho₁, hcount₁⟩ := ho.suspendMix policy true session
    obtain ⟨ho₂, hcount₂⟩ := ho₁.suspendMix policy false session
    exact ⟨ho₂, hcount₂.trans hcount₁⟩

/-- A call that was refused takes its suspension of the mix back. -/
theorem mixCount_refused (hnonneg : 0 ≤ t.mixCount) (policy : ℕ → Bool) (session : ℤ) :
    ((t.suspendMix policy true session).suspendMix policy false session).mixCount = t.mixCount := by
  have htrue := mixCount_suspendMix_true policy session t
  rw [mixCount_suspendMix_false policy (by omega), htrue]
  omega

theorem told_zero (session : ℤ) : told session 0 = 0 := by rw [told, ite_self]

theorem mixCount_concludeCall_true (hnonneg : 0 ≤ t.mixCount) (policy : ℕ → Bool) (session : ℤ)
    (o : Chain.Outcome) :
    (t.concludeCall policy true session o).mixCount = t.mixCount + told session o.told := by
  have hsame : t.mixCount = t.mixCount + told session 0 := by rw [told_zero, Nat.cast_zero, add_zero]
  cases o with
  | unchanged => exact hsame
  | silent => exact hsame
  | checked => exact mixCount_suspendMix_true policy session t
  | refused => exact (mixCount_refused hnonneg policy session).trans hsame

theorem mixCount_concludeCall_false (hnonneg : 0 ≤ t.mixCount) (policy : ℕ → Bool) {session : ℤ}
    {o : Chain.Outcome} (hpos : told session o.told ≤ t.mixCount) :
    (t.concludeCall policy false session o).mixCount = t.mixCount - told session o.told := by
  have hsame : t.mixCount = t.mixCount - told session 0 := by rw [told_zero, Nat.cast_zero, sub_zero]
  cases o with
  | unchanged => exact hsame
  | silent => exact hsame
  | checked => exact mixCount_suspendMix_false policy hpos
  | refused => exact (mixCount_refused hnonneg policy session).trans hsame

/-! ## Calls -/

/-- The mix is suspended once for each enabled effect of another session. -/
structure Balanced (t : PlaybackThread) : Prop extends Orderly t where
  count : t.mixCount = t.enabledEffects

/-- The handle of an effect of the session. -/
def handleAt (t : PlaybackThread) (session : ℤ) (e h : ℕ) : Option (Module × Handle) :=
  (t.getEffectChain session).bind fun c => c.handleAt e h

theorem Balanced.nonneg (hb : t.Balanced) : 0 ≤ t.mixCount := by
  rw [hb.count]
  exact Int.natCast_nonneg _

theorem mixWeight_eq (hget : t.getEffectChain session = some c) (hsession : c'.mSessionId = c.mSessionId) :
    mixWeight c' = told session c'.enabledCount := by
  rw [mixWeight, hsession, (getEffectChain_some hget).2, told]

theorem told_add (session : ℤ) (m n : ℕ) : told session (m + n) = told session m + told session n := by
  simp only [told]
  split <;> rfl

theorem Balanced.enable (hb : t.Balanced) (policy : ℕ → Bool) (session : ℤ) (a h : ℕ) :
    (t.enable policy session a h).Balanced := by
  rw [PlaybackThread.enable]
  cases hget : t.getEffectChain session with
  | none => exact hb
  | some c =>
    obtain ⟨hc, hsession, hcount⟩ := (hb.chains c (getEffectChain_some hget).1).enable policy a h
    obtain ⟨ho₁, hcount₁⟩ := hb.toOrderly.updateChain hget hc hsession
    obtain ⟨ho₂, hcount₂⟩ := ho₁.concludeCall policy true session (c.enable policy a h).2
    rw [mixWeight_eq hget rfl, mixWeight_eq hget hsession, hcount, told_add] at hcount₁
    refine ⟨ho₂, ?_⟩
    have hmix := @mixCount_concludeCall_true (t.updateChain session fun _ => (c.enable policy a h).1)
      hb.nonneg policy session (c.enable policy a h).2
    have hsame : (t.updateChain session fun _ => (c.enable policy a h).1).mixCount = t.mixCount := rfl
    have hbefore := hb.count
    change ((t.updateChain session fun _ => (c.enable policy a h).1).concludeCall policy true session
      (c.enable policy a h).2).mixCount = ((t.updateChain session fun _ =>
        (c.enable policy a h).1).concludeCall policy true session (c.enable policy a h).2).enabledEffects
    omega

/-- The end of a call that can only give up an enabled effect. -/
theorem Balanced.conclude (hb : t.Balanced) (policy : ℕ → Bool) {o : Chain.Outcome} (ho : t'.Orderly)
    (hmix : t'.mixCount = t.mixCount)
    (hcount : t'.enabledEffects + told session o.told = t.enabledEffects) :
    (t'.concludeCall policy false session o).Balanced := by
  obtain ⟨ho₂, hcount₂⟩ := ho.concludeCall policy false session o
  have hbefore := hb.count
  have hmix₂ : (t'.concludeCall policy false session o).mixCount = t'.mixCount - told session o.told :=
    mixCount_concludeCall_false (by rw [hmix]; exact hb.nonneg) policy (by omega)
  exact ⟨ho₂, by omega⟩

theorem Balanced.disable (hb : t.Balanced) (policy : ℕ → Bool) (session : ℤ) (a h : ℕ)
    (hfree : suspendsMix session = true → ∀ p ∈ t.handleAt session a h, p.2.mHasControl = true →
      p.2.mEnabled = true → p.1.mSuspended = false) :
    (t.disable policy session a h).Balanced := by
  rw [PlaybackThread.disable]
  cases hget : t.getEffectChain session with
  | none => exact hb
  | some c =>
    obtain ⟨hc, hsession, hcount⟩ := (hb.chains c (getEffectChain_some hget).1).disable a h
    obtain ⟨ho₁, hcount₁⟩ := hb.toOrderly.updateChain hget hc hsession
    refine hb.conclude policy ho₁ rfl ?_
    rw [mixWeight_eq hget rfl, mixWeight_eq hget hsession] at hcount₁
    by_cases hmix : suspendsMix session = true
    · have hfree' := hfree hmix
      rw [handleAt, hget, Option.bind_some] at hfree'
      rw [← hcount hfree', told_add] at hcount₁
      omega
    · simp only [told, hmix] at hcount₁ ⊢
      simpa using hcount₁

theorem Balanced.disconnect (hb : t.Balanced) (policy : ℕ → Bool) (session : ℤ) (a h : ℕ)
    (unpinIfLast : Bool) (hnext : ∀ p ∈ t.handleAt session a h, NextInLine p) :
    (t.disconnect policy session a h unpinIfLast).Balanced := by
  rw [PlaybackThread.disconnect, disconnectBy]
  cases hget : t.getEffectChain session with
  | none => exact hb
  | some c =>
    rw [handleAt, hget, Option.bind_some] at hnext
    obtain ⟨hc, hsession, hcount⟩ :=
      (hb.chains c (getEffectChain_some hget).1).disconnect a h unpinIfLast hnext
    obtain ⟨ho₁, hcount₁⟩ := hb.toOrderly.putChain hget hc hsession
    rw [mixWeight_eq hget rfl, mixWeight_eq hget hsession, ← hcount, told_add] at hcount₁
    refine hb.conclude policy ho₁ ?_ (by omega)
    rw [mixCount, entry_putChain]
    rfl

theorem mixCount_of_entry (h : t'.entry audioSessionOutputMix kKeyForSuspendAll =
    t.entry audioSessionOutputMix kKeyForSuspendAll) : t'.mixCount = t.mixCount := by
  rw [mixCount, h, mixCount]

/-- A type with a key of its own is suspended or restored. -/
theorem Balanced.setEffectSuspended (hb : t.Balanced) (policy : ℕ → Bool) {type : Uuid} (suspend : Bool)
    (hkey : session = audioSessionOutputMix → type.timeLow ≠ kKeyForSuspendAll) :
    (t.setEffectSuspended policy (some type) suspend session).Balanced := by
  obtain ⟨ho₁, hcount₁⟩ := hb.toOrderly.updateAlike session
    fun c => setEffectSuspended_alike policy c type suspend
  obtain ⟨ho₂, hcount₂⟩ := ho₁.updateSuspendedSessions (some type) suspend session
  refine ⟨ho₂, ?_⟩
  have hother : ¬ (audioSessionOutputMix = session ∧ kKeyForSuspendAll = keyOf (some type)) :=
    fun h => hkey h.1.symm h.2.symm
  have hmix : (t.setEffectSuspended policy (some type) suspend session).mixCount = t.mixCount := by
    apply mixCount_of_entry
    change ((t.updateChain session fun c =>
      c.setEffectSuspended policy type suspend).updateSuspendedSessions (some type) suspend session).entry
        _ _ = _
    cases suspend with
    | true => rw [entry_suspend, if_neg hother, entry_updateChain]
    | false =>
      cases hentry : (t.updateChain session fun c =>
          c.setEffectSuspended policy type false).entry session (keyOf (some type)) with
      | none => rw [updateSuspendedSessions_of_none hentry, entry_updateChain]
      | some d => rw [entry_restore hentry, if_neg hother, entry_updateChain]
  have hsame : (t.setEffectSuspended policy (some type) suspend session).enabledEffects =
      t.enabledEffects := hcount₂.trans hcount₁
  rw [hmix, hsame]
  exact hb.count

theorem Balanced.createEffect {r : Request} (hb : t.Balanced)
    (hself : ∀ c ∈ t.mEffectChains, ∀ e ∈ c.mEffects, e.self ≠ r.self)
    (hhandle : ∀ c ∈ t.mEffectChains, ∀ e ∈ c.mEffects, r.handle ∉ e.mHandles.map Handle.self) :
    (t.createEffect r).Balanced := by
  rw [PlaybackThread.createEffect]
  split
  · exact hb
  · cases hget : t.getEffectChain r.session with
    | some c =>
      cases hcreate : c.createEffect r with
      | none =>
        simp only [hcreate]
        exact hb
      | some c' =>
        simp only [hcreate]
        have hmem := (getEffectChain_some hget).1
        obtain ⟨hc, hsession, hcount⟩ :=
          (hb.chains c hmem).createEffect (hself c hmem) (hhandle c hmem) hcreate
        obtain ⟨ho, hcount'⟩ := hb.toOrderly.updateChain hget hc hsession
        have hsame : mixWeight c' = mixWeight c := by rw [mixWeight, mixWeight, hsession, hcount]
        refine ⟨ho, ?_⟩
        have hbefore := hb.count
        change t.mixCount = (t.updateChain r.session fun _ => c').enabledEffects
        omega
    | none =>
      have hempty : (Chain.new r.session).Orderly := ⟨List.nodup_nil, nofun⟩
      obtain ⟨ho₁, hcount₁⟩ := hb.toOrderly.addEffectChain (c := .new r.session) hget hempty
      have hget₁ := getEffectChain_addEffectChain (c := .new r.session) hget
      rw [mixWeight_of_nil rfl, Nat.zero_add] at hcount₁
      have halike := t.checkSuspendOnAddEffectChain_alike (.new r.session)
      change (t.addEffectChain (.new r.session)).getEffectChain r.session = _ at hget₁
      generalize t.checkSuspendOnAddEffectChain (.new r.session) = c at halike hget₁
      simp only [hget₁, Option.bind_some]
      have hnone : c.mEffects = [] := by
        have heffects := halike.effects
        exact List.forall₂_nil_left_iff.mp heffects
      cases hcreate : c.createEffect r with
      | none =>
        obtain ⟨ho, hcount⟩ := ho₁.removeEffectChain hget₁
        rw [mixWeight_of_nil hnone] at hcount
        refine ⟨ho, ?_⟩
        have hbefore := hb.count
        change t.mixCount = ((t.addEffectChain (.new r.session)).removeEffectChain r.session).enabledEffects
        omega
      | some c' =>
        obtain ⟨hc, hsession, hcount⟩ := (ho₁.chains c (getEffectChain_some hget₁).1).createEffect
          (by simp [hnone]) (by simp [hnone]) hcreate
        obtain ⟨ho, hcount'⟩ := ho₁.updateChain hget₁ hc hsession
        have hsame : mixWeight c' = mixWeight c := by rw [mixWeight, mixWeight, hsession, hcount]
        refine ⟨ho, ?_⟩
        have hbefore := hb.count
        change t.mixCount = ((t.addEffectChain (.new r.session)).updateChain r.session fun _ =>
          c').enabledEffects
        omega

/-! ## Purging a session -/

/-- What a purge returns, when no handle that is enabled is being destroyed. -/
theorem purgeHandles_eq (hheld : Held e.mHandles)
    (hmarked : ∀ h ∈ e.mHandles, h.mDestroyed = true → h.mEnabled = false) :
    e.purgeHandles = e.controlled := by
  rw [hheld.controlled, Module.purgeHandles]
  have hhead := hheld.headed
  generalize e.mHandles = hs at hhead hmarked
  have hrest : ∀ (hs : List Handle) (b : Bool), (∀ x ∈ hs, x.mHasControl = false) →
      hs.foldl (fun enabled h => if (!h.mDestroyed && h.mHasControl) = true then h.mEnabled else enabled)
        b = b := by
    intro hs b hnone
    induction hs with
    | nil => rfl
    | cons x hs ih =>
      rw [List.foldl_cons, hnone x (List.mem_cons_self ..), Bool.and_false, if_neg Bool.false_ne_true]
      exact ih fun y hy => hnone y (List.mem_cons_of_mem x hy)
  cases hs with
  | nil => rfl
  | cons x hs =>
    rw [List.foldl_cons, hrest hs _ hhead.2, hhead.1, asked_cons, Bool.and_true]
    cases hx : x.mDestroyed with
    | false => rfl
    | true => exact (hmarked x (List.mem_cons_self ..) hx).symm

theorem effectsOf_putChain (ho : t.Orderly) (hget : t.getEffectChain session = some c)
    (hsession : c'.mSessionId = c.mSessionId) :
    (t.putChain session c').effectsOf session = c'.mEffects := by
  rw [PlaybackThread.putChain]
  split
  next hnil => rw [effectsOf, Distinct.getEffectChain_removeEffectChain ho.sessions, hnil, Option.elim_none]
  next =>
    have hlook := @getEffectChain_updateChain t session (fun _ => c')
      (fun _ _ => hsession.trans (getEffectChain_some hget).2) session
    rw [effectsOf, hlook, if_pos rfl, hget, Option.map_some, Option.elim_some]

theorem effectsOf_updateAlike {f : Chain → Chain} (hf : ∀ c, Chain.Alike c (f c)) (s : ℤ) :
    List.Forall₂ Module.Alike (t.effectsOf session) ((t.updateChain s f).effectsOf session) := by
  have hlook := @getEffectChain_updateChain t s f (fun c hc => (hf c).session.trans hc) session
  have hrefl : ∀ es : List Module, List.Forall₂ Module.Alike es es :=
    fun es => List.forall₂_same.mpr fun e _ => .refl e
  rw [effectsOf, effectsOf, hlook]
  split
  next heq =>
    subst heq
    cases t.getEffectChain session with
    | none => exact .nil
    | some c => exact (hf c).effects
  next => exact hrefl _

theorem alike_trans {es₁ es₂ es₃ : List Module} (h : List.Forall₂ Module.Alike es₁ es₂)
    (h' : List.Forall₂ Module.Alike es₂ es₃) : List.Forall₂ Module.Alike es₁ es₃ := by
  have hleft : Chain.Alike ⟨0, es₁, .empty⟩ ⟨0, es₂, .empty⟩ := ⟨rfl, h⟩
  have hright : Chain.Alike ⟨0, es₂, .empty⟩ ⟨0, es₃, .empty⟩ := ⟨rfl, h'⟩
  exact (hleft.trans hright).effects

/-- An enabled effect is gone. -/
theorem Balanced.checkSuspendOnEffectGone (hb : t.Balanced) (policy : ℕ → Bool) (e : Module)
    (ho : t'.Orderly) (hmix : t'.mixCount = t.mixCount)
    (hcount : t'.enabledEffects + told session 1 = t.enabledEffects) :
    (t'.checkSuspendOnEffectGone policy session e).Balanced := by
  have hbefore := hb.count
  have hmix₂ : (t'.suspendMix policy false session).mixCount = t'.mixCount - told session 1 :=
    mixCount_suspendMix_false policy (by omega)
  obtain ⟨ho₂, hcount₂⟩ := ho.suspendMix policy false session
  obtain ⟨ho₃, hcount₃⟩ := ho₂.updateAlike session
    fun c => c.checkSuspendOnEffectEnabled_alike e false
  refine ⟨ho₃, ?_⟩
  change (t'.suspendMix policy false session).mixCount =
    ((t'.suspendMix policy false session).updateChain session fun c =>
      c.checkSuspendOnEffectEnabled e false).enabledEffects
  omega

theorem effectsOf_suspendMix (policy : ℕ → Bool) (enabled : Bool) (session : ℤ) (t : PlaybackThread) :
    List.Forall₂ Module.Alike (t.effectsOf session)
      ((t.suspendMix policy enabled session).effectsOf session) := by
  rw [PlaybackThread.suspendMix]
  split
  · have hsame : (t.setEffectSuspended policy none enabled audioSessionOutputMix).effectsOf session =
        (t.updateChain audioSessionOutputMix fun c =>
          c.setEffectSuspendedAll policy enabled).effectsOf session := by
      rw [setEffectSuspended_all, effectsOf, getEffectChain, mEffectChains_updateSuspendedSessions]
      rfl
    rw [hsame]
    exact effectsOf_updateAlike (setEffectSuspendedAll_alike policy enabled) _
  · exact List.forall₂_same.mpr fun e _ => .refl e

/-- The first effect of the session is purged. -/
theorem Balanced.purgeEffect (hb : t.Balanced) (policy : ℕ → Bool) {es : List Module}
    (halike : List.Forall₂ Module.Alike (e :: es) (t.effectsOf session))
    (hmarked : ∀ h ∈ e.mHandles, h.mDestroyed = true → h.mEnabled = false) :
    (t.purgeEffect policy session e).Balanced ∧
      List.Forall₂ Module.Alike es ((t.purgeEffect policy session e).effectsOf session) := by
  cases hget : t.getEffectChain session with
  | none =>
    rw [effectsOf, hget] at halike
    cases halike
  | some c =>
    rw [effectsOf, hget, Option.elim_some] at halike
    obtain ⟨m, ms, hem, hrest, hcons⟩ := List.forall₂_cons_left_iff.mp halike
    obtain ⟨hself, hhandles⟩ : m.self = e.self ∧ m.mHandles = e.mHandles := by
      obtain ⟨s, b, rfl⟩ := hem
      exact ⟨rfl, rfl⟩
    have hm : m ∈ c.mEffects := by
      rw [hcons]
      exact List.mem_cons_self ..
    have horderly := hb.chains c (getEffectChain_some hget).1
    have hheld := horderly.held m hm
    obtain ⟨hc, hcount⟩ := horderly.removeEffect hm
    rw [hself] at hc hcount
    obtain ⟨ho, hcount₁⟩ := hb.toOrderly.putChain hget hc rfl
    have hremoved : (c.removeEffect e.self).mEffects = ms := by
      simp only [Chain.removeEffect, hcons]
      exact List.eraseP_cons_of_pos (by simpa using hself)
    have heffects :=
      (@effectsOf_putChain t session c (c.removeEffect e.self) hb.toOrderly hget rfl).trans hremoved
    have hmix : (t.putChain session (c.removeEffect e.self)).mixCount = t.mixCount :=
      mixCount_of_entry (entry_putChain ..)
    have hpurge : e.purgeHandles = m.controlled := by
      have h := purgeHandles_eq hheld (by rw [hhandles]; exact hmarked)
      rwa [Module.purgeHandles, hhandles] at h
    rw [mixWeight_eq hget rfl, @mixWeight_eq _ _ _ (c.removeEffect e.self) hget rfl, ← hcount,
      told_add] at hcount₁
    rw [PlaybackThread.purgeEffect, purgeBy, removeBy, hget, Option.elim_some, hpurge]
    cases hcontrolled : m.controlled with
    | false =>
      rw [hcontrolled, Bool.toNat_false, told_zero] at hcount₁
      rw [if_neg Bool.false_ne_true]
      refine ⟨⟨ho, ?_⟩, by rw [heffects]; exact hrest⟩
      have hbefore := hb.count
      omega
    | true =>
      rw [hcontrolled, Bool.toNat_true] at hcount₁
      rw [if_pos rfl]
      refine ⟨hb.checkSuspendOnEffectGone policy e ho hmix (by omega), ?_⟩
      have hgone := alike_trans (effectsOf_suspendMix policy false session
          (t.putChain session (c.removeEffect e.self)))
        (effectsOf_updateAlike (fun c => c.checkSuspendOnEffectEnabled_alike e false) session)
      rw [heffects] at hgone
      exact alike_trans hrest hgone

theorem Balanced.purge_foldl (hb : t.Balanced) (policy : ℕ → Bool) {es : List Module}
    (halike : List.Forall₂ Module.Alike es (t.effectsOf session))
    (hmarked : ∀ e ∈ es, ∀ h ∈ e.mHandles, h.mDestroyed = true → h.mEnabled = false) :
    (es.foldl (PlaybackThread.purgeEffect policy session) t).Balanced := by
  induction es generalizing t with
  | nil => exact hb
  | cons e es ih =>
    obtain ⟨hb', halike'⟩ := hb.purgeEffect policy halike (hmarked e (List.mem_cons_self ..))
    exact ih hb' halike' fun e' he' => hmarked e' (List.mem_cons_of_mem e he')

theorem Balanced.purge (hb : t.Balanced) (policy : ℕ → Bool)
    (hmarked : ∀ e ∈ t.effectsOf session, ∀ h ∈ e.mHandles, h.mDestroyed = true → h.mEnabled = false) :
    (t.purge policy session).Balanced :=
  hb.purge_foldl policy (List.forall₂_same.mpr fun e _ => .refl e) hmarked

end PlaybackThread

end AudioFlinger.Effects
