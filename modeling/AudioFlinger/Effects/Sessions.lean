import AudioFlinger.Effects.AllSuspended
import AudioFlinger.Effects.Thread

/-!
# The chains and the suspended sessions of a thread

What the operations of a thread do to the chain of a session and to the counts of
the session's suspensions. A count is kept until its last suspension is restored.
-/

namespace AudioFlinger.Effects

open Foundation

namespace PlaybackThread

variable {t t' : PlaybackThread} {session s : ℤ} {type : Option Uuid} {k : ℕ} {c c' : Chain}
  {d : SuspendedSessionDesc}

/-! ## Suspended sessions -/

/-- The entry of a session for a key. -/
def entry (t : PlaybackThread) (session : ℤ) (k : ℕ) : Option SuspendedSessionDesc :=
  (t.mSuspendedSessions.valueFor session).bind fun effects => effects.valueFor k

/-- The key under which suspensions of a type, or of all effects, are counted. -/
def keyOf (type : Option Uuid) : ℕ := type.elim kKeyForSuspendAll Uuid.timeLow

@[simp] theorem mEffectChains_updateSuspendedSessions (type : Option Uuid) (suspend : Bool) (session : ℤ) :
    (t.updateSuspendedSessions type suspend session).mEffectChains = t.mEffectChains := by
  simp only [updateSuspendedSessions]
  split
  · split <;> rfl
  · split
    · rfl
    · split <;> rfl

theorem valueFor_countSuspend (type : Option Uuid) (key k : ℕ)
    (effects : KeyedVector ℕ SuspendedSessionDesc) :
    (countSuspend type key effects).valueFor k =
      if k = key then
        some ⟨((effects.valueFor key).elim 0 SuspendedSessionDesc.mRefCount) + 1,
          (effects.valueFor key).elim (type.getD ⟨0, 0⟩) SuspendedSessionDesc.mType⟩
      else effects.valueFor k := by
  simp only [countSuspend, KeyedVector.valueFor_add]
  cases effects.valueFor key <;> rfl

theorem valueFor_countRestore (key k : ℕ) (d : SuspendedSessionDesc)
    (effects : KeyedVector ℕ SuspendedSessionDesc) :
    (countRestore key d effects).valueFor k =
      if k = key then if d.mRefCount - 1 = 0 then none else some { d with mRefCount := d.mRefCount - 1 }
      else effects.valueFor k := by
  simp only [countRestore]
  split
  next h => simp [KeyedVector.valueFor_removeItem]
  next h => simp [KeyedVector.valueFor_add]

/-- A suspension is counted in its entry. -/
theorem entry_suspend (t : PlaybackThread) (type : Option Uuid) (session s : ℤ) (k : ℕ) :
    (t.updateSuspendedSessions type true session).entry s k =
      if s = session ∧ k = keyOf type then
        some ⟨((t.entry session (keyOf type)).elim 0 SuspendedSessionDesc.mRefCount) + 1,
          (t.entry session (keyOf type)).elim (type.getD ⟨0, 0⟩) SuspendedSessionDesc.mType⟩
      else t.entry s k := by
  simp only [updateSuspendedSessions, if_true]
  cases h : t.mSuspendedSessions.valueFor session with
  | none =>
    simp only [entry, h, KeyedVector.valueFor_add]
    by_cases hs : s = session
    · subst hs
      simp only [if_true, Option.bind_some, valueFor_countSuspend, keyOf, true_and, h]
      rfl
    · simp only [hs, if_false, false_and]
  | some effects =>
    simp only [entry, h, KeyedVector.valueFor_add]
    by_cases hs : s = session
    · subst hs
      simp only [if_true, Option.bind_some, valueFor_countSuspend, keyOf, true_and, h]
    · simp only [hs, if_false, false_and]

theorem updateSuspendedSessions_of_none (h : t.entry session (keyOf type) = none) :
    t.updateSuspendedSessions type false session = t := by
  simp only [updateSuspendedSessions]
  cases hs : t.mSuspendedSessions.valueFor session with
  | none => rfl
  | some effects =>
    simp only [entry, hs, Option.bind_some, keyOf] at h
    simp [h]

/-- A suspension that is restored is no longer counted. -/
theorem entry_restore (h : t.entry session (keyOf type) = some d) (s : ℤ) (k : ℕ) :
    (t.updateSuspendedSessions type false session).entry s k =
      if s = session ∧ k = keyOf type then
        if d.mRefCount - 1 = 0 then none else some { d with mRefCount := d.mRefCount - 1 }
      else t.entry s k := by
  cases hs : t.mSuspendedSessions.valueFor session with
  | none => simp [entry, hs] at h
  | some effects =>
    simp only [entry, hs, Option.bind_some] at h
    have hvalue := fun k => valueFor_countRestore (keyOf type) k d effects
    have hupdate : (t.updateSuspendedSessions type false session).mSuspendedSessions =
        if (countRestore (keyOf type) d effects).items = [] then t.mSuspendedSessions.removeItem session
        else t.mSuspendedSessions.add session (countRestore (keyOf type) d effects) := by
      simp only [updateSuspendedSessions, hs]
      rw [keyOf] at h ⊢
      simp only [h, Bool.false_eq_true, if_false]
    simp only [entry, hupdate]
    by_cases hsession : s = session
    · subst hsession
      simp only [true_and, hs, Option.bind_some, ← hvalue]
      split
      next hempty =>
        rw [KeyedVector.items_eq_nil_iff.mp hempty]
        simp
      next => simp
    · simp only [hsession, false_and, if_false]
      split
      · rw [KeyedVector.valueFor_removeItem_of_ne hsession]
      · rw [KeyedVector.valueFor_add_of_ne hsession]

/-! ## Chains -/

theorem getEffectChain_some (h : t.getEffectChain session = some c) :
    c ∈ t.mEffectChains ∧ c.mSessionId = session := KeyedList.lookup_some h

theorem getEffectChain_updateChain {f : Chain → Chain}
    (hf : ∀ c, c.mSessionId = session → (f c).mSessionId = session) (s : ℤ) :
    (t.updateChain session f).getEffectChain s =
      if s = session then (t.getEffectChain session).map f else t.getEffectChain s :=
  KeyedList.lookup_update hf s

@[simp] theorem entry_updateChain (f : Chain → Chain) (s : ℤ) (k : ℕ) :
    (t.updateChain session f).entry s k = t.entry s k := rfl

@[simp] theorem entry_putChain (c : Chain) (s : ℤ) (k : ℕ) :
    (t.putChain session c).entry s k = t.entry s k := by
  rw [putChain]
  split <;> rfl

theorem replayEntry_alike (c : Chain) (y : ℕ × SuspendedSessionDesc) :
    Chain.Alike c (replayEntry c y) := by
  have hiterate : ∀ (n : ℕ) (c : Chain), Chain.Alike c
      ((fun c : Chain => if y.1 = kKeyForSuspendAll then c.suspendAll else c.suspend y.2.mType)^[n] c) := by
    intro n
    induction n with
    | zero => exact .refl
    | succ n ih =>
      intro c
      rw [Function.iterate_succ_apply]
      refine .trans ?_ (ih _)
      split
      · exact c.suspendAll_alike
      · exact c.suspend_alike _
  exact hiterate _ c

theorem checkSuspendOnAddEffectChain_alike (t : PlaybackThread) (c : Chain) :
    Chain.Alike c (t.checkSuspendOnAddEffectChain c) := by
  rw [checkSuspendOnAddEffectChain]
  cases t.mSuspendedSessions.valueFor c.mSessionId with
  | none => exact .refl c
  | some effects => exact foldl_alike replayEntry_alike _ c

/-- A chain that is added has its place among the chains. -/
theorem addEffectChain_perm (t : PlaybackThread) (c : Chain) :
    (t.addEffectChain c).mEffectChains.Perm (t.checkSuspendOnAddEffectChain c :: t.mEffectChains) :=
  List.perm_insertIdx _ _ List.findIdx_le_length

theorem getEffectChain_addEffectChain (hnone : t.getEffectChain c.mSessionId = none) :
    (t.addEffectChain c).getEffectChain c.mSessionId = some (t.checkSuspendOnAddEffectChain c) := by
  have hperm := t.addEffectChain_perm c
  have hsession := (t.checkSuspendOnAddEffectChain_alike c).session
  have hmem := hperm.mem_iff.mpr (List.mem_cons_self ..)
  cases hget : (t.addEffectChain c).getEffectChain c.mSessionId with
  | none => exact absurd hsession (KeyedList.lookup_none hget _ hmem)
  | some x =>
    obtain ⟨hx, hxsession⟩ := getEffectChain_some hget
    rcases List.mem_cons.mp (hperm.mem_iff.mp hx) with rfl | hx
    · rfl
    · exact absurd hxsession (KeyedList.lookup_none hnone x hx)

/-! ## One chain for a session -/

/-- No two chains have one session. -/
def Distinct (t : PlaybackThread) : Prop := (t.mEffectChains.map Chain.mSessionId).Nodup

theorem Distinct.addEffectChain (hd : t.Distinct) (hnone : t.getEffectChain c.mSessionId = none) :
    (t.addEffectChain c).Distinct := by
  rw [Distinct, ((t.addEffectChain_perm c).map Chain.mSessionId).nodup_iff, List.map_cons,
    List.nodup_cons, (t.checkSuspendOnAddEffectChain_alike c).session]
  refine ⟨fun hmem => ?_, hd⟩
  obtain ⟨x, hx, hsession⟩ := List.mem_map.mp hmem
  exact KeyedList.lookup_none hnone x hx hsession

theorem Distinct.getEffectChain_removeEffectChain (hnodup : t.Distinct) :
    (t.removeEffectChain session).getEffectChain session = none := by
  rw [Distinct] at hnodup
  simp only [getEffectChain, PlaybackThread.removeEffectChain, KeyedList.lookup]
  generalize t.mEffectChains = cs at hnodup
  induction cs with
  | nil => rfl
  | cons c cs ih =>
    rw [List.map_cons, List.nodup_cons] at hnodup
    by_cases hc : c.mSessionId = session
    · rw [List.eraseP_cons_of_pos (by simpa using hc), List.find?_eq_none]
      intro x hx hsession
      have hx' : x.mSessionId = session := by simpa using hsession
      exact hnodup.1 (hc ▸ hx' ▸ List.mem_map_of_mem hx)
    · rw [List.eraseP_cons_of_neg (by simpa using hc), List.find?_cons_of_neg (by simpa using hc)]
      exact ih hnodup.2

end PlaybackThread

end AudioFlinger.Effects
