import AudioFlinger.Effects.Suspending
import Mathlib.Data.List.Forall2

/-!
# Suspending all effects

The operations on suspensions change nothing of an effect but its state and
whether it is suspended. So the references of the types that a suspension of all
takes, or that its end drops, can be counted one by one.
-/

namespace AudioFlinger.Effects

open Foundation

/-! ## What suspensions do not change -/

/-- The same effect, up to its state. -/
def Module.Alike (e e' : Module) : Prop := ∃ s b, e' = { e with mState := s, mSuspended := b }

/-- The same session and effects, up to their states. -/
structure Chain.Alike (c c' : Chain) : Prop where
  session : c'.mSessionId = c.mSessionId
  effects : List.Forall₂ Module.Alike c.mEffects c'.mEffects

variable {e e' : Module} {c c' : Chain} {refs : Uuid → ℕ} {t t' : Uuid} {policy : ℕ → Bool}

theorem Module.Alike.refl (e : Module) : Module.Alike e e := ⟨e.mState, e.mSuspended, rfl⟩

theorem Module.Alike.trans {e₁ e₂ e₃ : Module} (h : Module.Alike e₁ e₂) (h' : Module.Alike e₂ e₃) :
    Module.Alike e₁ e₃ := by
  obtain ⟨s, b, rfl⟩ := h
  obtain ⟨s', b', rfl⟩ := h'
  exact ⟨s', b', rfl⟩

theorem setEnabled_alike (e : Module) (policy enabled : Bool) :
    Module.Alike e (e.setEnabled policy enabled).1 := by
  unfold Module.setEnabled
  split
  · split
    · exact .refl e
    · exact ⟨_, e.mSuspended, rfl⟩
  · exact .refl e

theorem suspend_alike (e : Module) : Module.Alike e e.suspend := by
  obtain ⟨s, b, h⟩ := setEnabled_alike e true false
  exact ⟨s, true, by rw [Module.suspend, h]; rfl⟩

theorem restore_alike (policy : Bool) (e : Module) : Module.Alike e (e.restore policy) := by
  have hs : Module.Alike e (e.setSuspended false) := ⟨e.mState, false, rfl⟩
  rw [Module.restore]
  cases (e.setSuspended false).controlHandle with
  | none => exact hs
  | some h => exact hs.trans (setEnabled_alike ..)

namespace Chain.Alike

theorem refl (c : Chain) : Chain.Alike c c :=
  ⟨rfl, List.forall₂_same.mpr fun e _ => .refl e⟩

theorem trans {c₁ c₂ c₃ : Chain} (h : Chain.Alike c₁ c₂) (h' : Chain.Alike c₂ c₃) :
    Chain.Alike c₁ c₃ where
  session := h'.session.trans h.session
  effects := by
    have hright := h'.effects
    have hleft := h.effects
    generalize c₁.mEffects = es₁ at hleft
    generalize c₂.mEffects = es₂ at hleft hright
    generalize c₃.mEffects = es₃ at hright
    clear h h'
    induction hleft generalizing es₃ with
    | nil =>
      cases hright
      exact .nil
    | cons he _ ih =>
      cases hright with
      | cons he' hrest => exact .cons (he.trans he') (ih _ hrest)

/-- Every effect was there. -/
theorem mem (h : Chain.Alike c c') (he : e' ∈ c'.mEffects) : ∃ e ∈ c.mEffects, Module.Alike e e' := by
  have hall := h.effects
  generalize c.mEffects = es at hall
  generalize c'.mEffects = es' at hall he
  clear h
  induction hall with
  | nil => cases he
  | cons hhead _ ih =>
    rcases List.mem_cons.mp he with rfl | he
    · exact ⟨_, List.mem_cons_self .., hhead⟩
    · obtain ⟨e, hmem, halike⟩ := ih he
      exact ⟨e, List.mem_cons_of_mem _ hmem, halike⟩

/-- Fields that do not depend on the states. -/
theorem map_eq {β : Type*} {f : Module → β} (hf : ∀ e e', Module.Alike e e' → f e' = f e)
    (h : Chain.Alike c c') : c'.mEffects.map f = c.mEffects.map f := by
  have hall := h.effects
  generalize c.mEffects = es at hall
  generalize c'.mEffects = es' at hall
  clear h
  induction hall with
  | nil => rfl
  | cons hhead _ ih => rw [List.map_cons, List.map_cons, hf _ _ hhead, ih]

theorem eligible (h : Chain.Alike c c') (d : Descriptor) :
    c'.isEffectEligibleForSuspend d = c.isEffectEligibleForSuspend d := by
  rw [Chain.isEffectEligibleForSuspend, Chain.isEffectEligibleForSuspend, h.session]

end Chain.Alike

theorem updateEffect_alike {f : Module → Module} (hf : ∀ e, Module.Alike e (f e)) (c : Chain) (a : ℕ) :
    Chain.Alike c (c.updateEffect a f) where
  session := rfl
  effects := by
    rw [mEffects_updateEffect, List.forall₂_map_right_iff]
    apply List.forall₂_same.mpr
    intro e _
    split
    · exact hf e
    · exact .refl e

theorem setDesc_alike (c : Chain) (k : ℕ) (d : SuspendedEffectDesc) : Chain.Alike c (c.setDesc k d) :=
  ⟨rfl, (Chain.Alike.refl c).effects⟩

theorem removeDesc_alike (c : Chain) (k : ℕ) : Chain.Alike c (c.removeDesc k) :=
  ⟨rfl, (Chain.Alike.refl c).effects⟩

theorem Chain.suspend_alike (c : Chain) (t : Uuid) : Chain.Alike c (c.suspend t) := by
  rcases suspend_eq c t with ⟨d, -, -, heq⟩ | ⟨d, -, -, heq⟩
  · rw [heq]
    exact setDesc_alike ..
  · rw [heq]
    split
    · exact (setDesc_alike ..).trans (updateEffect_alike Effects.suspend_alike _ _)
    · exact setDesc_alike ..

theorem Chain.restore_alike (policy : ℕ → Bool) (c : Chain) (t : Uuid) :
    Chain.Alike c (c.restore policy t) := by
  rw [Chain.restore]
  split
  · exact .refl c
  next d _ =>
    split
    · apply Chain.Alike.trans _ (removeDesc_alike ..)
      cases d.mEffect.bind c.effectAt with
      | none => exact .refl c
      | some e => exact updateEffect_alike (Effects.restore_alike _) _ _
    · exact setDesc_alike ..

theorem foldl_alike {β : Type*} {f : Chain → β → Chain} (hf : ∀ c x, Chain.Alike c (f c x)) (xs : List β)
    (c : Chain) : Chain.Alike c (xs.foldl f c) := by
  induction xs generalizing c with
  | nil => exact .refl c
  | cons x xs ih => exact (hf c x).trans (ih (f c x))

theorem Chain.suspendAll_alike (c : Chain) : Chain.Alike c c.suspendAll := by
  simp only [Chain.suspendAll]
  split
  · exact (setDesc_alike ..).trans (foldl_alike (fun c e => c.suspend_alike _) _ _)
  · exact setDesc_alike ..

theorem Chain.restoreAll_alike (policy : ℕ → Bool) (c : Chain) :
    Chain.Alike c (c.restoreAll policy) := by
  rw [Chain.restoreAll]
  split
  · exact .refl c
  · split
    · exact (foldl_alike (fun c t => c.restore_alike policy t) _ _).trans (removeDesc_alike ..)
    · exact setDesc_alike ..

theorem Chain.suspendEnabled_alike (c : Chain) (d : SuspendedEffectDesc) (e : Module) :
    Chain.Alike c (c.suspendEnabled d e) := by
  rw [Chain.suspendEnabled]
  split
  · exact (setDesc_alike ..).trans (updateEffect_alike Effects.suspend_alike ..)
  · exact .refl c

theorem Chain.checkSuspendOnEffectEnabled_alike (c : Chain) (e : Module) (enabled : Bool) :
    Chain.Alike c (c.checkSuspendOnEffectEnabled e enabled) := by
  rw [Chain.checkSuspendOnEffectEnabled]
  split
  · split
    · have hsuspend := c.suspend_alike e.mDescriptor.type
      cases hdesc : (c.suspend e.mDescriptor.type).desc e.key with
      | none =>
        simp only [hdesc]
        exact hsuspend
      | some d =>
        simp only [hdesc]
        exact hsuspend.trans (Chain.suspendEnabled_alike ..)
    · exact .refl c
  · split
    · exact Chain.suspendEnabled_alike ..
    · exact (setDesc_alike ..).trans (updateEffect_alike (fun e => ⟨e.mState, false, rfl⟩) ..)

/-! ## What the suspension of another type does not change -/

theorem desc_suspend_of_ne {k : ℕ} (hk : k ≠ t.timeLow) : (c.suspend t).desc k = c.desc k := by
  rcases suspend_eq c t with ⟨d, -, -, heq⟩ | ⟨d, -, -, heq⟩
  · rw [heq, desc_setDesc, if_neg hk]
  · rw [heq]
    split
    · rw [desc_updateEffect, desc_setDesc, if_neg hk]
    · rw [desc_setDesc, if_neg hk]

theorem desc_restore_of_ne {k : ℕ} (hk : k ≠ t.timeLow) : (c.restore policy t).desc k = c.desc k := by
  rw [Chain.restore]
  split
  · rfl
  next d _ =>
    split
    · rw [desc_removeDesc, if_neg hk]
      cases d.mEffect.bind c.effectAt <;> rfl
    · rw [desc_setDesc, if_neg hk]

theorem Clean.alike (hclean : Clean c t) (h : Chain.Alike c c')
    (hdesc : c'.desc t.timeLow = c.desc t.timeLow) : Clean c' t where
  key_ne := hclean.key_ne
  effects := by
    intro e' he' hkey
    obtain ⟨e, he, s, b, rfl⟩ := h.mem he'
    exact hclean.effects e he hkey
  entries := by
    rw [hdesc]
    exact hclean.entries

theorem Allowed.alike {d : SuspendedEffectDesc} (ha : Allowed policy c d) (h : Chain.Alike c c') :
    Allowed policy c' d := by
  intro hone e' he' heffect hasked
  obtain ⟨e, he, s, b, rfl⟩ := h.mem he'
  exact ha hone e he heffect hasked

/-- Only effects of the type are written. -/
theorem suspend_map (hk : Kept c refs) (t : Uuid) : ∃ g : Module → Module,
    (c.suspend t).mEffects = c.mEffects.map g ∧ (∀ e, Module.Alike e (g e)) ∧
      ∀ e ∈ c.mEffects, e.mDescriptor.type ≠ t → g e = e := by
  have hsame : ∀ d, ∃ g : Module → Module, (c.setDesc t.timeLow d).mEffects = c.mEffects.map g ∧
      (∀ e, Module.Alike e (g e)) ∧ ∀ e ∈ c.mEffects, e.mDescriptor.type ≠ t → g e = e :=
    fun d => ⟨id, by simp, .refl, fun _ _ _ => rfl⟩
  rcases suspend_eq c t with ⟨d, -, -, heq⟩ | ⟨d, -, -, heq⟩
  · rw [heq]
    exact hsame _
  · rw [heq]
    split
    next e hif =>
      have hfirst : c.getEffectFromType t = some e := by
        rw [Chain.getEffectIfEnabled, Option.filter_eq_some_iff] at hif
        exact hif.1
      obtain ⟨he, htype⟩ := getEffectFromType_some hfirst
      refine ⟨fun x => if x.self = e.self then x.suspend else x, ?_, ?_, ?_⟩
      · rw [mEffects_updateEffect, mEffects_setDesc]
      · intro x
        simp only
        split
        · exact suspend_alike x
        · exact .refl x
      · intro x hx hne
        apply if_neg
        intro hself
        rw [hk.eq_of_self hx he hself] at hne
        exact hne htype
    next => exact hsame _

theorem Alone.suspend (hk : Kept c refs) (hne : t' ≠ t) (halone : Alone c t') :
    Alone (c.suspend t) t' := by
  obtain ⟨g, heffects, halike, hsame⟩ := suspend_map hk t
  have htype : ∀ e, (g e).mDescriptor = e.mDescriptor := by
    intro e
    obtain ⟨s, b, h⟩ := halike e
    rw [h]
  have hfind : (c.suspend t).getEffectFromType t' = (c.getEffectFromType t').map g := by
    rw [Chain.getEffectFromType, heffects, List.find?_map]
    simp only [Function.comp_def, htype]
    rfl
  intro e' he' hetype henabled
  rw [heffects] at he'
  obtain ⟨e, he, rfl⟩ := List.mem_map.mp he'
  rw [htype] at hetype
  have hge : g e = e := hsame e he (by rw [hetype]; exact hne)
  rw [hge] at henabled ⊢
  rw [hfind, halone e he hetype henabled, Option.map_some, hge]

/-! ## Several types -/

/-- The entry of the suspension of all does not count. -/
theorem Kept.of_desc (hk : Kept c refs) (heffects : c'.mEffects = c.mEffects)
    (hdesc : ∀ k, k ≠ kKeyForSuspendAll → c'.desc k = c.desc k) : Kept c' refs where
  selves := by
    rw [heffects]
    exact hk.selves
  key_ne := by
    rw [heffects]
    exact hk.key_ne
  fits := by
    rw [heffects]
    intro e he
    rw [hdesc _ (hk.key_ne e he)]
    exact hk.fits e he
  listed := by
    intro t ht
    obtain ⟨hne, hrest⟩ := hk.listed t ht
    rw [hdesc _ hne]
    exact ⟨hne, hrest⟩
  entries := by
    intro k d hne hd
    rw [hdesc k hne] at hd
    exact hk.entries k d hne hd
  owner := by
    intro k d hne hd
    rw [hdesc k hne] at hd
    rw [heffects]
    exact hk.owner k d hne hd
  types := by
    rw [heffects]
    exact hk.types

theorem Kept.setAll (hk : Kept c refs) (d : SuspendedEffectDesc) :
    Kept (c.setDesc kKeyForSuspendAll d) refs :=
  hk.of_desc rfl fun k hne => by rw [desc_setDesc, if_neg hne]

theorem Kept.removeAll (hk : Kept c refs) : Kept (c.removeDesc kKeyForSuspendAll) refs :=
  hk.of_desc rfl fun k hne => by rw [desc_removeDesc, if_neg hne]

/-- The counts of a type and of those after it. -/
theorem update_counts {ts : List Uuid} {t : Uuid} (hnot : t ∉ ts) (refs : Uuid → ℕ) {f : ℕ → ℕ → ℕ}
    (hf : ∀ n, f n 0 = n) :
    (fun t' => f (Function.update refs t (f (refs t) 1) t') (if t' ∈ ts then 1 else 0)) =
      fun t' => f (refs t') (if t' ∈ t :: ts then 1 else 0) := by
  funext t'
  by_cases heq : t' = t
  · subst heq
    simp [hnot, hf]
  · simp [heq]

/-- One reference for each of several types. -/
theorem Kept.suspend_foldl {ts : List Uuid} (hk : Kept c refs) (hnodup : (ts.map Uuid.timeLow).Nodup)
    (hts : ∀ t ∈ ts, Clean c t ∧ Alone c t) :
    Kept (ts.foldl Chain.suspend c) (fun t => refs t + if t ∈ ts then 1 else 0) ∧
      ∀ k, k ∉ ts.map Uuid.timeLow → (ts.foldl Chain.suspend c).desc k = c.desc k := by
  induction ts generalizing c refs with
  | nil => exact ⟨by simpa using hk, fun _ _ => rfl⟩
  | cons t ts ih =>
    rw [List.map_cons, List.nodup_cons] at hnodup
    obtain ⟨hfresh, hnodup⟩ := hnodup
    obtain ⟨hclean, halone⟩ := hts t (List.mem_cons_self ..)
    have hlow : ∀ t' ∈ ts, t'.timeLow ≠ t.timeLow := fun t' ht' heq =>
      hfresh (List.mem_map.mpr ⟨t', ht', heq⟩)
    obtain ⟨hrest, hdesc⟩ := ih (hk.suspend hclean halone) hnodup fun t' ht' => by
      obtain ⟨hclean', halone'⟩ := hts t' (List.mem_cons_of_mem t ht')
      have hne : t' ≠ t := fun heq => hlow t' ht' (by rw [heq])
      exact ⟨hclean'.alike (c.suspend_alike t) (desc_suspend_of_ne (hlow t' ht')),
        halone'.suspend hk hne⟩
    have hnot : t ∉ ts := fun hmem => hlow t hmem rfl
    constructor
    · rw [update_counts hnot refs Nat.add_zero] at hrest
      exact hrest
    · intro k hk'
      rw [List.map_cons, List.mem_cons, not_or] at hk'
      rw [List.foldl_cons, hdesc k hk'.2, desc_suspend_of_ne hk'.1]

/-- One reference less for each of several types. -/
theorem Kept.restore_foldl {ts : List Uuid} (hk : Kept c refs) (hnodup : (ts.map Uuid.timeLow).Nodup)
    (hts : ∀ t ∈ ts, Clean c t ∧ ∃ d, c.desc t.timeLow = some d ∧ Allowed policy c d) :
    Kept (ts.foldl (fun c t => c.restore policy t) c) fun t => refs t - if t ∈ ts then 1 else 0 := by
  induction ts generalizing c refs with
  | nil => simpa using hk
  | cons t ts ih =>
    rw [List.map_cons, List.nodup_cons] at hnodup
    obtain ⟨hfresh, hnodup⟩ := hnodup
    obtain ⟨hclean, d, hd, hallowed⟩ := hts t (List.mem_cons_self ..)
    have hlow : ∀ t' ∈ ts, t'.timeLow ≠ t.timeLow := fun t' ht' heq =>
      hfresh (List.mem_map.mpr ⟨t', ht', heq⟩)
    have halike := c.restore_alike policy t
    have hrest := ih (hk.restore hclean hd hallowed) hnodup fun t' ht' => by
      obtain ⟨hclean', d', hd', hallowed'⟩ := hts t' (List.mem_cons_of_mem t ht')
      have hdesc := @desc_restore_of_ne c t policy _ (hlow t' ht')
      exact ⟨hclean'.alike halike hdesc, d', by rw [hdesc, hd'], hallowed'.alike halike⟩
    have hnot : t ∉ ts := fun hmem => hlow t hmem rfl
    rw [update_counts hnot refs Nat.sub_zero] at hrest
    exact hrest

end AudioFlinger.Effects
