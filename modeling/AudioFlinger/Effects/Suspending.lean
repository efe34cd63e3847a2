import AudioFlinger.Effects.Handles
import Mathlib.Data.List.Nodup
import Mathlib.Logic.Function.Basic

/-!
# Counting the suspensions of a type

A chain is kept with a count of references for each type: the entry of a type
has this count, its effects are disabled, and the one that is asked for is the
suspended effect of the entry. Suspending a type takes one more reference and
restoring it drops one.
-/

namespace AudioFlinger.Effects

open Foundation

/-! ## One effect -/

/-- An effect in use, with handles that are not destroyed. -/
structure Sane (e : Module) : Prop where
  held : Held e.mHandles
  undestroyed : Undestroyed e.mHandles
  handled : e.mHandles ≠ []
  alive : e.mState ≠ .destroyed

/-- An effect fits the entry of its type, or the lack of one. -/
structure Fits (desc : Option SuspendedEffectDesc) (e : Module) : Prop extends Sane e where
  listed : ∀ d, desc = some d → d.mType = e.mDescriptor.type ∧ e.isEnabled = false ∧
    (e.mSuspended = true ↔ d.mEffect = some e.self) ∧
    (asked e.mHandles = true → e.mSuspended = true)
  unlisted : desc = none → e.mSuspended = false ∧ e.isEnabled = asked e.mHandles

variable {e : Module} {d d' : SuspendedEffectDesc} {desc : Option SuspendedEffectDesc}

theorem toggled_enabled {s : ModuleState} (hs : s ≠ .destroyed) :
    ({ e with mState := Module.toggled s } : Module).isEnabled = !({ e with mState := s } : Module).isEnabled ∧
      Module.toggled s ≠ .destroyed := by
  cases s with
  | destroyed => exact absurd rfl hs
  | _ => exact ⟨rfl, nofun⟩

/-- Enabling or disabling changes the state, to what is asked for unless the policy refuses. -/
theorem setEnabled_spec (halive : e.mState ≠ .destroyed) (policy enabled : Bool) :
    ∃ s, s ≠ .destroyed ∧ (e.setEnabled policy enabled).1 = { e with mState := s } ∧
      ((enabled = true → policy = true) → (e.setEnabled policy enabled).1.isEnabled = enabled ∧
        (e.setEnabled policy enabled).2 = true) ∧
      ((e.setEnabled policy enabled).2 = true → (e.setEnabled policy enabled).1.isEnabled = enabled) ∧
      ((e.setEnabled policy enabled).2 = false → (e.setEnabled policy enabled).1 = e) := by
  unfold Module.setEnabled
  by_cases hne : enabled = e.isEnabled
  · subst hne
    exact ⟨e.mState, halive, by simp, by simp, by simp, by simp⟩
  · rw [if_pos hne]
    by_cases hrefused : (enabled && !policy) = true
    · rw [if_pos hrefused]
      refine ⟨e.mState, halive, rfl, fun hallowed => ?_, by simp, fun _ => rfl⟩
      obtain ⟨henabled, hpolicy⟩ := Bool.and_eq_true_iff.mp hrefused
      rw [hallowed henabled] at hpolicy
      cases hpolicy
    · rw [if_neg hrefused]
      obtain ⟨htoggled, halive'⟩ := @toggled_enabled e e.mState halive
      have henabled : ({ e with mState := Module.toggled e.mState } : Module).isEnabled = enabled := by
        rw [htoggled]
        change (!e.isEnabled) = enabled
        cases enabled <;> cases he : e.isEnabled <;> simp_all
      exact ⟨_, halive', rfl, fun _ => ⟨henabled, rfl⟩, fun _ => henabled, nofun⟩

theorem suspend_spec (halive : e.mState ≠ .destroyed) :
    ∃ s, s ≠ .destroyed ∧ e.suspend = { e with mState := s, mSuspended := true } ∧
      e.suspend.isEnabled = false := by
  obtain ⟨s, hs, heq, henabled, -⟩ := setEnabled_spec halive true false
  refine ⟨s, hs, ?_, ?_⟩
  · rw [Module.suspend, heq]
    rfl
  · exact (henabled nofun).1

/-- Restoring an effect enables it as its first handle asks. -/
theorem restore_spec (halive : e.mState ≠ .destroyed) (hu : Undestroyed e.mHandles) {policy : Bool}
    (hhandled : e.mHandles ≠ []) (hpolicy : asked e.mHandles = true → policy = true) :
    ∃ s, s ≠ .destroyed ∧ e.restore policy = { e with mState := s, mSuspended := false } ∧
      (e.restore policy).isEnabled = asked e.mHandles := by
  obtain ⟨h, hs, hcons⟩ := List.exists_cons_of_ne_nil hhandled
  have hcontrol : (e.setSuspended false).controlHandle = some h := by
    have hhead := @Undestroyed.controlHandle (e.setSuspended false) hu
    rw [hhead]
    change e.mHandles.head? = some h
    rw [hcons]
    rfl
  have hasked : asked e.mHandles = h.mEnabled := by rw [hcons, asked_cons]
  rw [hasked] at hpolicy ⊢
  obtain ⟨s, hs, heq, henabled, -⟩ :=
    @setEnabled_spec (e.setSuspended false) halive policy h.mEnabled
  refine ⟨s, hs, ?_, ?_⟩
  · simp only [Module.restore, hcontrol, Option.elim_some, heq]
    rfl
  · simp only [Module.restore, hcontrol, Option.elim_some]
    exact (henabled hpolicy).1

/-- A new count. -/
theorem Fits.recount (hf : Fits (some d) e) (n : ℤ) : Fits (some { d with mRefCount := n }) e :=
  { hf with
    listed := by
      rintro _ ⟨rfl⟩
      exact hf.listed d rfl
    unlisted := nofun }

/-- A new entry, for an effect that is not enabled. -/
theorem Fits.list (hf : Fits none e) (hdisabled : e.isEnabled = false)
    (htype : d.mType = e.mDescriptor.type) (hother : d.mEffect ≠ some e.self) : Fits (some d) e := by
  obtain ⟨hsuspended, henabled⟩ := hf.unlisted rfl
  refine { hf with listed := ?_, unlisted := nofun }
  rintro _ ⟨rfl⟩
  refine ⟨htype, hdisabled, ?_, ?_⟩
  · simp [hsuspended, hother]
  · rw [← henabled, hdisabled]
    nofun

/-- The effect of an entry, suspended. -/
theorem Sane.suspend (hf : Sane e) (htype : d.mType = e.mDescriptor.type)
    (heffect : d.mEffect = some e.self) : Fits (some d) e.suspend := by
  obtain ⟨s, hs, heq, hdisabled⟩ := suspend_spec hf.alive
  rw [heq] at hdisabled ⊢
  refine ⟨⟨hf.held, hf.undestroyed, hf.handled, hs⟩, ?_, nofun⟩
  rintro _ ⟨rfl⟩
  exact ⟨htype, hdisabled, by simp [heffect], fun _ => rfl⟩

/-- The effect of an entry that is removed, restored. -/
theorem Sane.restore (hf : Sane e) {policy : Bool}
    (hpolicy : asked e.mHandles = true → policy = true) : Fits none (e.restore policy) := by
  obtain ⟨s, hs, heq, henabled⟩ := restore_spec hf.alive hf.undestroyed hf.handled hpolicy
  rw [heq] at henabled ⊢
  exact ⟨⟨hf.held, hf.undestroyed, hf.handled, hs⟩, nofun, fun _ => ⟨rfl, henabled⟩⟩

/-- Another effect of the type of an entry that is removed. -/
theorem Fits.unlist (hf : Fits (some d) e) (hother : d.mEffect ≠ some e.self) : Fits none e := by
  obtain ⟨-, hdisabled, hsuspended, hasked⟩ := hf.listed d rfl
  have hnot : e.mSuspended = false := by
    by_contra hs
    exact hother (hsuspended.mp (by simpa using hs))
  refine { hf with listed := nofun, unlisted := fun _ => ⟨hnot, ?_⟩ }
  rw [hdisabled]
  by_contra hne
  have := hasked (by simpa using Ne.symm hne)
  rw [hnot] at this
  cases this

/-! ## The chain -/

/-- The chain has the references of each type, and every effect fits. -/
structure Kept (c : Chain) (refs : Uuid → ℕ) : Prop where
  selves : (c.mEffects.map Module.self).Nodup
  key_ne : ∀ e ∈ c.mEffects, e.key ≠ kKeyForSuspendAll
  fits : ∀ e ∈ c.mEffects, Fits (c.desc e.key) e
  listed : ∀ t, 0 < refs t → t.timeLow ≠ kKeyForSuspendAll ∧
    ∃ d, c.desc t.timeLow = some d ∧ d.mType = t ∧ d.mRefCount = refs t
  entries : ∀ k d, k ≠ kKeyForSuspendAll → c.desc k = some d →
    d.mType.timeLow = k ∧ 0 < refs d.mType
  owner : ∀ k d, k ≠ kKeyForSuspendAll → c.desc k = some d → ∀ e ∈ c.mEffects,
    d.mEffect = some e.self → e.key = k
  types : ∀ e ∈ c.mEffects, ∀ e' ∈ c.mEffects, e.key = e'.key →
    e.mDescriptor.type = e'.mDescriptor.type

variable {c c' : Chain} {refs : Uuid → ℕ} {t : Uuid} {k : ℕ}

/-- The key of the type is its own, among the effects and the entries. -/
structure Clean (c : Chain) (t : Uuid) : Prop where
  key_ne : t.timeLow ≠ kKeyForSuspendAll
  effects : ∀ e ∈ c.mEffects, e.key = t.timeLow → e.mDescriptor.type = t
  entries : ∀ d ∈ c.desc t.timeLow, d.mType = t

instance (c : Chain) (t : Uuid) : Decidable (Clean c t) :=
  decidable_of_iff (t.timeLow ≠ kKeyForSuspendAll ∧
      (∀ e ∈ c.mEffects, e.key = t.timeLow → e.mDescriptor.type = t) ∧
      ∀ d ∈ c.desc t.timeLow, d.mType = t)
    ⟨fun h => ⟨h.1, h.2.1, h.2.2⟩, fun h => ⟨h.key_ne, h.effects, h.entries⟩⟩

theorem Kept.desc_of_refs (hk : Kept c refs) (hclean : Clean c t) (hrefs : refs t = 0) :
    c.desc t.timeLow = none := by
  cases hd : c.desc t.timeLow with
  | none => rfl
  | some d =>
    have hpos := (hk.entries _ d hclean.key_ne hd).2
    rw [hclean.entries d hd, hrefs] at hpos
    exact absurd hpos (lt_irrefl 0)

/-- An effect's address is its own. -/
theorem Kept.eq_of_self (hk : Kept c refs) {e e' : Module} (he : e ∈ c.mEffects)
    (he' : e' ∈ c.mEffects) (hself : e.self = e'.self) : e = e' :=
  List.inj_on_of_nodup_map hk.selves he he' hself

/-- The chain after a change of one entry and of the effects of its type. -/
theorem Kept.change (hk : Kept c refs) {o : Option SuspendedEffectDesc} {g : Module → Module} {n : ℕ}
    (hclean : Clean c t)
    (hdesc : ∀ k, c'.desc k = if k = t.timeLow then o else c.desc k)
    (heffects : c'.mEffects = c.mEffects.map g)
    (hfields : ∀ e ∈ c.mEffects, (g e).self = e.self ∧ (g e).mDescriptor = e.mDescriptor)
    (hsame : ∀ e ∈ c.mEffects, e.key ≠ t.timeLow → g e = e)
    (hfits : ∀ e ∈ c.mEffects, e.key = t.timeLow → e.mDescriptor.type = t → Fits o (g e))
    (hnone : n = 0 → o = none) (hsome : ∀ d, o = some d → d.mType = t ∧ d.mRefCount = n ∧ 0 < n)
    (hexists : 0 < n → ∃ d, o = some d)
    (howner : ∀ d, o = some d → ∀ e ∈ c.mEffects, d.mEffect = some e.self → e.key = t.timeLow) :
    Kept c' (Function.update refs t n) where
  selves := by
    have hmap : c'.mEffects.map Module.self = c.mEffects.map Module.self := by
      rw [heffects, List.map_map]
      exact List.map_congr_left fun e he => (hfields e he).1
    rw [hmap]
    exact hk.selves
  key_ne := by
    intro e' he'
    rw [heffects] at he'
    obtain ⟨e, he, rfl⟩ := List.mem_map.mp he'
    rw [Module.key, (hfields e he).2]
    exact hk.key_ne e he
  fits := by
    intro e' he'
    rw [heffects] at he'
    obtain ⟨e, he, rfl⟩ := List.mem_map.mp he'
    have hkey : (g e).key = e.key := by rw [Module.key, (hfields e he).2, Module.key]
    rw [hkey, hdesc]
    by_cases hek : e.key = t.timeLow
    · rw [if_pos hek]
      exact hfits e he hek (hclean.effects e he hek)
    · rw [if_neg hek, hsame e he hek]
      exact hk.fits e he
  listed := by
    intro t' ht'
    by_cases heq : t' = t
    · subst heq
      rw [Function.update_self] at ht' ⊢
      obtain ⟨d, rfl⟩ := hexists ht'
      obtain ⟨htype, hcount, -⟩ := hsome d rfl
      exact ⟨hclean.key_ne, d, by rw [hdesc, if_pos rfl], htype, hcount⟩
    · rw [Function.update_of_ne heq] at ht' ⊢
      obtain ⟨hne, d, hd, htype, hcount⟩ := hk.listed t' ht'
      refine ⟨hne, d, ?_, htype, hcount⟩
      rw [hdesc, if_neg, hd]
      intro hkey
      rw [hkey] at hd
      exact heq (htype.symm.trans (hclean.entries d hd))
  entries := by
    intro k d hne hd
    rw [hdesc] at hd
    by_cases hkey : k = t.timeLow
    · rw [if_pos hkey] at hd
      obtain ⟨htype, -, hpos⟩ := hsome d hd
      rw [htype, Function.update_self]
      exact ⟨hkey.symm, hpos⟩
    · rw [if_neg hkey] at hd
      obtain ⟨hlow, hpos⟩ := hk.entries k d hne hd
      refine ⟨hlow, ?_⟩
      rw [Function.update_of_ne]
      · exact hpos
      · rintro rfl
        exact hkey hlow.symm
  owner := by
    intro k d hne hd e' he' heffect
    rw [heffects] at he'
    obtain ⟨e, he, rfl⟩ := List.mem_map.mp he'
    obtain ⟨hself, hdescriptor⟩ := hfields e he
    rw [hself] at heffect
    rw [Module.key, hdescriptor]
    rw [hdesc] at hd
    by_cases hkey : k = t.timeLow
    · rw [if_pos hkey] at hd
      rw [hkey]
      exact howner d hd e he heffect
    · rw [if_neg hkey] at hd
      exact hk.owner k d hne hd e he heffect
  types := by
    rw [heffects]
    intro e' he' f' hf' hkey
    obtain ⟨e, he, rfl⟩ := List.mem_map.mp he'
    obtain ⟨f, hf, rfl⟩ := List.mem_map.mp hf'
    rw [Module.key, Module.key, (hfields e he).2, (hfields f hf).2] at hkey
    rw [(hfields e he).2, (hfields f hf).2]
    exact hk.types e he f hf hkey

/-- The type of an effect is clean. -/
theorem Kept.clean (hk : Kept c refs) (he : e ∈ c.mEffects) : Clean c e.mDescriptor.type where
  key_ne := hk.key_ne e he
  effects := fun e' he' hkey => hk.types e' he' e he hkey
  entries := fun _ hd => ((hk.fits e he).listed _ hd).1

/-! ## Writing entries and effects -/

@[simp] theorem desc_setDesc (c : Chain) (k k' : ℕ) (d : SuspendedEffectDesc) :
    (c.setDesc k d).desc k' = if k' = k then some d else c.desc k' :=
  KeyedVector.valueFor_add ..

@[simp] theorem desc_removeDesc (c : Chain) (k k' : ℕ) :
    (c.removeDesc k).desc k' = if k' = k then none else c.desc k' :=
  KeyedVector.valueFor_removeItem ..

theorem setDesc_setDesc (c : Chain) (k : ℕ) (d d' : SuspendedEffectDesc) :
    (c.setDesc k d).setDesc k d' = c.setDesc k d' := by
  have hadd : (c.mSuspendedEffects.add k d).add k d' = c.mSuspendedEffects.add k d' := by
    apply KeyedVector.ext_valueFor
    intro k'
    simp only [KeyedVector.valueFor_add]
    split <;> rfl
  simp only [Chain.setDesc, hadd]

@[simp] theorem desc_updateEffect (c : Chain) (a k : ℕ) (f : Module → Module) :
    (c.updateEffect a f).desc k = c.desc k := rfl

@[simp] theorem mEffects_setDesc (c : Chain) (k : ℕ) (d : SuspendedEffectDesc) :
    (c.setDesc k d).mEffects = c.mEffects := rfl

@[simp] theorem mEffects_removeDesc (c : Chain) (k : ℕ) : (c.removeDesc k).mEffects = c.mEffects :=
  rfl

theorem mEffects_updateEffect (c : Chain) (a : ℕ) (f : Module → Module) :
    (c.updateEffect a f).mEffects = c.mEffects.map fun e => if e.self = a then f e else e := rfl

theorem effectAt_of_mem (hk : Kept c refs) (he : e ∈ c.mEffects) : c.effectAt e.self = some e := by
  cases hfind : c.effectAt e.self with
  | none =>
    have hnone := List.find?_eq_none.mp hfind e he
    simp at hnone
  | some e' =>
    have hself : e'.self = e.self := by
      have := List.find?_some hfind
      simpa using this
    rw [hk.eq_of_self (List.mem_of_find?_eq_some hfind) he hself]

theorem effectAt_some {a : ℕ} (hfind : c.effectAt a = some e) : e ∈ c.mEffects ∧ e.self = a := by
  refine ⟨List.mem_of_find?_eq_some hfind, ?_⟩
  have := List.find?_some hfind
  simpa using this

theorem handleAt_some {a h : ℕ} {x : Handle}
    (hat : c.handleAt a h = some (e, x)) :
    e ∈ c.mEffects ∧ e.self = a ∧ x ∈ e.mHandles ∧ x.self = h := by
  obtain ⟨m', hm', hx⟩ := Option.bind_eq_some_iff.mp hat
  obtain ⟨x', hx', heq⟩ := Option.map_eq_some_iff.mp hx
  cases heq
  obtain ⟨hmem, hself⟩ := effectAt_some hm'
  have hxself := List.find?_some hx'
  exact ⟨hmem, hself, List.mem_of_find?_eq_some hx', by simpa using hxself⟩

theorem getEffectFromType_some (hfind : c.getEffectFromType t = some e) :
    e ∈ c.mEffects ∧ e.mDescriptor.type = t := by
  refine ⟨List.mem_of_find?_eq_some hfind, ?_⟩
  have := List.find?_some hfind
  simpa using this

/-! ## Suspending a type -/

/-- An enabled effect of the type is the first of the type. -/
def Alone (c : Chain) (t : Uuid) : Prop :=
  ∀ e ∈ c.mEffects, e.mDescriptor.type = t → e.isEnabled = true → c.getEffectFromType t = some e

instance (c : Chain) (t : Uuid) : Decidable (Alone c t) :=
  inferInstanceAs (Decidable (∀ e ∈ c.mEffects, _))

/-- The effect that `suspend` takes, if any. -/
theorem suspend_eq (c : Chain) (t : Uuid) :
    (∃ d, c.desc t.timeLow = some d ∧ d.mRefCount ≠ 0 ∧
        c.suspend t = c.setDesc t.timeLow { d with mRefCount := d.mRefCount + 1 }) ∨
      ∃ d, d = (c.desc t.timeLow).getD ⟨0, t, none⟩ ∧ d.mRefCount = 0 ∧
        c.suspend t =
          match c.getEffectIfEnabled t with
          | some e =>
            (c.setDesc t.timeLow { d with mRefCount := 1, mEffect := some e.self }).updateEffect e.self
              Module.suspend
          | none => c.setDesc t.timeLow { d with mRefCount := 1 } := by
  by_cases hzero : ((c.desc t.timeLow).getD ⟨0, t, none⟩).mRefCount = 0
  · refine .inr ⟨_, rfl, hzero, ?_⟩
    rw [Chain.suspend]
    cases c.getEffectIfEnabled t with
    | none => simp only [hzero, if_true, zero_add]
    | some e => simp only [hzero, if_true, zero_add]
  · left
    cases hd : c.desc t.timeLow with
    | none =>
      rw [hd] at hzero
      exact absurd rfl hzero
    | some d =>
      rw [hd] at hzero
      refine ⟨d, rfl, hzero, ?_⟩
      rw [Chain.suspend]
      simp only [hd, Option.getD_some, if_neg (show d.mRefCount ≠ 0 from hzero)]

/-- The references of an entry are counted anew. -/
theorem Kept.recount (hk : Kept c refs) (hclean : Clean c t) (hd : c.desc t.timeLow = some d) {n : ℕ}
    (hn : 0 < n) :
    Kept (c.setDesc t.timeLow { d with mRefCount := n }) (Function.update refs t n) := by
  refine hk.change hclean (o := some { d with mRefCount := (n : ℤ) }) (g := id) (by simp) (by simp)
    ?_ ?_ ?_ ?_ ?_ ?_ ?_
  · exact fun x _ => ⟨rfl, rfl⟩
  · exact fun x _ _ => rfl
  · intro x hx hkey _
    have hfits := hk.fits x hx
    rw [hkey, hd] at hfits
    exact hfits.recount _
  · intro hzero
    exact absurd hzero hn.ne'
  · rintro d' ⟨rfl⟩
    exact ⟨hclean.entries d hd, rfl, hn⟩
  · exact fun _ => ⟨_, rfl⟩
  · rintro d' ⟨rfl⟩ x hx hself
    exact hk.owner _ d hclean.key_ne hd x hx hself

theorem Kept.suspend (hk : Kept c refs) (hclean : Clean c t) (halone : Alone c t) :
    Kept (c.suspend t) (Function.update refs t (refs t + 1)) := by
  rcases Nat.eq_zero_or_pos (refs t) with hzero | hpos
  · have hnone := hk.desc_of_refs hclean hzero
    have hfits : ∀ e ∈ c.mEffects, e.key = t.timeLow → Fits none e := by
      intro e he hkey
      have := hk.fits e he
      rwa [hkey, hnone] at this
    rcases suspend_eq c t with ⟨d, hd, -⟩ | ⟨d, rfl, -, heq⟩
    · rw [hnone] at hd
      cases hd
    · rw [hnone, Option.getD_none] at heq
      rw [heq, hzero]
      cases hif : c.getEffectIfEnabled t with
      | some e =>
        have hfirst : c.getEffectFromType t = some e := by
          rw [Chain.getEffectIfEnabled, Option.filter_eq_some_iff] at hif
          exact hif.1
        obtain ⟨he, htype⟩ := getEffectFromType_some hfirst
        refine hk.change hclean (o := some ⟨1, t, some e.self⟩)
          (g := fun x => if x.self = e.self then x.suspend else x) (by simp) ?_ ?_ ?_ ?_ nofun ?_ ?_
          ?_
        · rw [mEffects_updateEffect, mEffects_setDesc]
        · intro x hx
          split
          next =>
            obtain ⟨s, -, hs, -⟩ := suspend_spec (hk.fits x hx).alive
            rw [hs]
            exact ⟨rfl, rfl⟩
          next => exact ⟨rfl, rfl⟩
        · intro x hx hkey
          rw [if_neg]
          intro hself
          rw [hk.eq_of_self hx he hself] at hkey
          exact hkey (by rw [Module.key, htype])
        · intro x hx hkey hxtype
          split
          next hself => exact (hk.fits x hx).toSane.suspend hxtype.symm (by rw [hself])
          next hself =>
            apply (hfits x hx hkey).list _ hxtype.symm
            · intro hsome
              exact hself (Option.some_injective _ hsome).symm
            · by_contra henabled
              have := halone x hx hxtype (by simpa using henabled)
              rw [hfirst] at this
              exact hself (by rw [Option.some_injective _ this])
        · rintro d ⟨rfl⟩
          exact ⟨rfl, rfl, Nat.one_pos⟩
        · exact fun _ => ⟨_, rfl⟩
        · rintro d ⟨rfl⟩ x hx hself
          rw [hk.eq_of_self hx he (Option.some_injective _ hself).symm, Module.key, htype]
      | none =>
        refine hk.change hclean (o := some ⟨1, t, none⟩) (g := id) (by simp) (by simp) ?_ ?_ ?_ nofun
          ?_ ?_ ?_
        · exact fun x _ => ⟨rfl, rfl⟩
        · exact fun x _ _ => rfl
        · intro x hx hkey hxtype
          apply (hfits x hx hkey).list _ hxtype.symm (by simp)
          by_contra henabled
          have hfirst := halone x hx hxtype (by simpa using henabled)
          rw [Chain.getEffectIfEnabled, hfirst, Option.filter_some, if_pos (by simpa using henabled)]
            at hif
          cases hif
        · rintro d ⟨rfl⟩
          exact ⟨rfl, rfl, Nat.one_pos⟩
        · exact fun _ => ⟨_, rfl⟩
        · rintro d ⟨rfl⟩ x hx ⟨⟩
  · obtain ⟨-, d, hd, -, hcount⟩ := hk.listed t hpos
    have hne : d.mRefCount ≠ 0 := by lia
    rcases suspend_eq c t with ⟨d', hd', -, heq⟩ | ⟨d', hd', hzero, -⟩
    · rw [hd] at hd'
      cases hd'
      rw [heq, hcount]
      exact hk.recount hclean hd (Nat.succ_pos _)
    · rw [hd, Option.getD_some] at hd'
      exact absurd (hd' ▸ hzero) hne

/-! ## Restoring a type -/

/-- The policy lets the effect of an entry be enabled again. -/
def Allowed (policy : ℕ → Bool) (c : Chain) (d : SuspendedEffectDesc) : Prop :=
  d.mRefCount = 1 → ∀ e ∈ c.mEffects, d.mEffect = some e.self → asked e.mHandles = true →
    policy e.self = true

instance (policy : ℕ → Bool) (c : Chain) (d : SuspendedEffectDesc) :
    Decidable (Allowed policy c d) :=
  inferInstanceAs (Decidable (_ → _))

theorem restore_eq (policy : ℕ → Bool) (hd : c.desc t.timeLow = some d) (hpos : 0 < d.mRefCount) :
    (d.mRefCount = 1 ∧ c.restore policy t =
        ((d.mEffect.bind c.effectAt).elim c fun e =>
          c.updateEffect e.self (Module.restore (policy e.self))).removeDesc t.timeLow) ∨
      (d.mRefCount ≠ 1 ∧ c.restore policy t =
        c.setDesc t.timeLow { d with mRefCount := d.mRefCount - 1 }) := by
  have hreleased : Chain.SuspendedEffectDesc.released d = d.mRefCount - 1 := by
    rw [Chain.SuspendedEffectDesc.released, if_neg (by omega)]
  rw [Chain.restore]
  simp only [hd, hreleased]
  by_cases hone : d.mRefCount = 1
  · exact .inl ⟨hone, by rw [if_pos (by omega)]⟩
  · exact .inr ⟨hone, by rw [if_neg (by omega)]⟩

theorem Kept.restore (hk : Kept c refs) (hclean : Clean c t) {policy : ℕ → Bool}
    (hd : c.desc t.timeLow = some d) (hallowed : Allowed policy c d) :
    Kept (c.restore policy t) (Function.update refs t (refs t - 1)) := by
  have htype := hclean.entries d hd
  have hpos : 0 < refs t := by
    have := (hk.entries _ d hclean.key_ne hd).2
    rwa [htype] at this
  have hcount : d.mRefCount = refs t := by
    obtain ⟨-, d', hd', -, hcount⟩ := hk.listed t hpos
    rw [hd] at hd'
    cases hd'
    exact hcount
  have hfits : ∀ e ∈ c.mEffects, e.key = t.timeLow → Fits (some d) e := by
    intro e he hkey
    have := hk.fits e he
    rwa [hkey, hd] at this
  rcases restore_eq policy hd (by lia) with ⟨hone, heq⟩ | ⟨hne, heq⟩
  · have hzero : refs t - 1 = 0 := by lia
    rw [heq, hzero]
    -- The suspended effect of the entry, if it is still in the chain.
    set g : Module → Module := fun e =>
      if d.mEffect = some e.self then e.restore (policy e.self) else e with hg
    have heffects : (((d.mEffect.bind c.effectAt).elim c fun e =>
        c.updateEffect e.self (Module.restore (policy e.self))).removeDesc t.timeLow).mEffects =
          c.mEffects.map g := by
      rw [mEffects_removeDesc]
      cases hbind : d.mEffect.bind c.effectAt with
      | none =>
        refine ((List.map_congr_left fun e he => ?_).trans (List.map_id' _)).symm
        rw [hg]
        simp only
        rw [if_neg]
        intro hself
        rw [hself, Option.bind_some, effectAt_of_mem hk he] at hbind
        cases hbind
      | some e =>
        obtain ⟨a, ha, hat⟩ := Option.bind_eq_some_iff.mp hbind
        obtain ⟨he, rfl⟩ := effectAt_some hat
        rw [Option.elim_some, mEffects_updateEffect]
        refine List.map_congr_left fun x hx => ?_
        rw [hg]
        simp only [ha]
        by_cases hself : x.self = e.self
        · rw [if_pos hself, if_pos (by rw [hself]), hself]
        · rw [if_neg hself, if_neg fun h => hself (Option.some_injective _ h).symm]
    have hdesc : ∀ k, (((d.mEffect.bind c.effectAt).elim c fun e =>
        c.updateEffect e.self (Module.restore (policy e.self))).removeDesc t.timeLow).desc k =
          if k = t.timeLow then none else c.desc k := by
      intro k
      rw [desc_removeDesc]
      cases d.mEffect.bind c.effectAt <;> rfl
    have hpolicy : ∀ e ∈ c.mEffects, d.mEffect = some e.self → asked e.mHandles = true →
        policy e.self = true := hallowed hone
    refine hk.change hclean hdesc heffects ?_ ?_ ?_ (fun _ => rfl) nofun ?_ nofun
    · intro e he
      rw [hg]
      simp only
      split
      next hself =>
        obtain ⟨s, -, hs, -⟩ := restore_spec (hk.fits e he).alive (hk.fits e he).undestroyed
          (hk.fits e he).handled (hpolicy e he hself)
        rw [hs]
        exact ⟨rfl, rfl⟩
      next => exact ⟨rfl, rfl⟩
    · intro e he hkey
      rw [hg]
      simp only
      split
      next hself =>
        -- An effect of another type is not the effect of this entry.
        exact absurd (hk.owner _ d hclean.key_ne hd e he hself) hkey
      next => rfl
    · intro e he hkey _
      rw [hg]
      simp only
      split
      next hself => exact (hfits e he hkey).toSane.restore (hpolicy e he hself)
      next hself => exact (hfits e he hkey).unlist hself
    · intro hlt
      exact absurd hlt (lt_irrefl 0)
  · have hless : d.mRefCount - 1 = (refs t - 1 : ℕ) := by lia
    rw [heq, hless]
    exact hk.recount hclean hd (by lia)

end AudioFlinger.Effects
