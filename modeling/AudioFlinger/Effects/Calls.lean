import AudioFlinger.Effects.AllSuspended

/-!
# Handles of suspended effects

Enabling an effect of a suspended type suspends it. As long as the entries name
no other effect, the chain stays kept, and an eligible effect that is asked for
has an entry as long as all effects are suspended.
-/

namespace AudioFlinger.Effects

open Foundation

variable {c c' : Chain} {refs : Uuid → ℕ} {m : Module} {x : Handle} {hs : List Handle} {e h : ℕ}

/-- While all effects are suspended, an eligible effect without an entry is not asked for. -/
def Covered (c : Chain) : Prop :=
  (c.desc kKeyForSuspendAll).isSome = true → ∀ e ∈ c.mEffects,
    c.isEffectEligibleForSuspend e.mDescriptor = true → c.desc e.key = none →
      asked e.mHandles = false

/-! ## The handle in control -/

theorem Sane.head (hm : Sane m) (hx : x ∈ m.mHandles) (hcontrol : x.mHasControl = true) :
    ∃ hs, m.mHandles = x :: hs := by
  obtain ⟨y, hs, hcons⟩ := List.exists_cons_of_ne_nil hm.handled
  have hheld := hm.held
  rw [hcons] at hheld hx
  rw [hheld.eq_head hx hcontrol]
  exact ⟨hs, hcons⟩

theorem updateHandle_head (hm : Sane m) (hcons : m.mHandles = x :: hs) (f : Handle → Handle) :
    m.updateHandle x.self f = { m with mHandles := f x :: hs } := by
  have hnodup := hm.held.nodup
  rw [hcons] at hnodup
  rw [Module.updateHandle, hcons, map_head hnodup]

/-- The effect when its first handle asks for `b`. -/
def Module.asking (m : Module) (x : Handle) (hs : List Handle) (b : Bool) : Module :=
  { m with mHandles := { x with mEnabled := b } :: hs }

theorem Sane.ask (hm : Sane m) (hcons : m.mHandles = x :: hs) (b : Bool) : Sane (m.asking x hs b) where
  held := by
    have hheld := hm.held
    rw [hcons] at hheld
    exact ⟨hheld.headed, hheld.nodup⟩
  undestroyed := by
    have hu := hm.undestroyed
    rw [hcons] at hu
    intro y hy
    rcases List.mem_cons.mp hy with rfl | hy
    · exact hu x (List.mem_cons_self ..)
    · exact hu y (List.mem_cons_of_mem x hy)
  handled := List.cons_ne_nil _ _
  alive := hm.alive

/-! ## Changing one effect -/

theorem updateEffect_updateEffect {f g : Module → Module} {a : ℕ}
    (hf : ∀ y, y.self = a → (f y).self = a) :
    (c.updateEffect a f).updateEffect a g = c.updateEffect a fun y => g (f y) := by
  simp only [Chain.updateEffect, List.map_map]
  congr 1
  apply List.map_congr_left
  intro y _
  simp only [Function.comp]
  by_cases hy : y.self = a
  · rw [if_pos hy, if_pos (hf y hy), if_pos hy]
  · rw [if_neg hy, if_neg hy, if_neg hy]

/-- Writing one effect by a function that depends on it. -/
theorem updateEffect_const (hk : Kept c refs) (hm : m ∈ c.mEffects) (g : Module → Module) :
    c.updateEffect m.self g = c.updateEffect m.self fun _ => g m := by
  simp only [Chain.updateEffect]
  congr 1
  apply List.map_congr_left
  intro y hy
  by_cases hself : y.self = m.self
  · rw [if_pos hself, if_pos hself, hk.eq_of_self hy hm hself]
  · rw [if_neg hself, if_neg hself]

/-- The chain after a change of one effect and the entry of its type. -/
theorem Kept.change_one (hk : Kept c refs) (hm : m ∈ c.mEffects) {o : Option SuspendedEffectDesc}
    {g : Module → Module} {n : ℕ}
    (hdesc : ∀ k, c'.desc k = if k = m.key then o else c.desc k)
    (heffects : c'.mEffects = (c.updateEffect m.self g).mEffects)
    (hfields : (g m).self = m.self ∧ (g m).mDescriptor = m.mDescriptor) (hfit : Fits o (g m))
    (hothers : ∀ y ∈ c.mEffects, y.self ≠ m.self → y.mDescriptor.type = m.mDescriptor.type →
      Fits (c.desc m.key) y → Fits o y)
    (hnone : n = 0 → o = none)
    (hsome : ∀ d, o = some d → d.mType = m.mDescriptor.type ∧ d.mRefCount = n ∧ 0 < n)
    (hexists : 0 < n → ∃ d, o = some d)
    (howner : ∀ d, o = some d → ∀ y ∈ c.mEffects, d.mEffect = some y.self → y.key = m.key) :
    Kept c' (Function.update refs m.mDescriptor.type n) := by
  refine hk.change (hk.clean hm) hdesc (heffects.trans (mEffects_updateEffect ..)) ?_ ?_ ?_ hnone
    hsome hexists howner
  · intro y hy
    split
    next hself =>
      rw [hk.eq_of_self hy hm hself]
      exact hfields
    next => exact ⟨rfl, rfl⟩
  · intro y hy hkey
    apply if_neg
    intro hself
    rw [hk.eq_of_self hy hm hself] at hkey
    exact hkey rfl
  · intro y hy hkey htype
    split
    next hself =>
      rw [hk.eq_of_self hy hm hself]
      exact hfit
    next hself =>
      have hfits := hk.fits y hy
      rw [hkey] at hfits
      exact hothers y hy hself htype hfits

/-- The chain after a change of one effect alone. -/
theorem Kept.refit (hk : Kept c refs) (hm : m ∈ c.mEffects) {g : Module → Module}
    (hdesc : ∀ k, c'.desc k = c.desc k) (heffects : c'.mEffects = (c.updateEffect m.self g).mEffects)
    (hfields : (g m).self = m.self ∧ (g m).mDescriptor = m.mDescriptor)
    (hfit : Fits (c.desc m.key) (g m)) : Kept c' refs := by
  have hclean := hk.clean hm
  have hupdate : Function.update refs m.mDescriptor.type (refs m.mDescriptor.type) = refs :=
    Function.update_eq_self ..
  rw [← hupdate]
  refine hk.change_one hm (o := c.desc m.key) ?_ heffects hfields hfit (fun _ _ _ _ h => h) ?_ ?_ ?_
    ?_
  · intro k
    rw [hdesc k]
    split
    next hkey => rw [hkey]
    next => rfl
  · exact hk.desc_of_refs hclean
  · intro d hd
    have htype := hclean.entries d hd
    have hpos := (hk.entries _ d hclean.key_ne hd).2
    rw [htype] at hpos
    obtain ⟨-, d', hd', -, hcount⟩ := hk.listed _ hpos
    obtain rfl : d = d' := Option.some_injective _ (hd.symm.trans hd')
    exact ⟨htype, hcount, hpos⟩
  · intro hpos
    obtain ⟨-, d, hd, -⟩ := hk.listed _ hpos
    exact ⟨d, hd⟩
  · intro d hd
    exact hk.owner _ d hclean.key_ne hd

/-- A change of one effect and its entry keeps `Covered`, if it leaves an entry for the effect or
what it asks for. -/
theorem Covered.change_one (hc : Covered c) (hk : Kept c refs) (hm : m ∈ c.mEffects) {g : Module → Module}
    (hsession : c'.mSessionId = c.mSessionId)
    (hdesc : ∀ k, c'.desc k = none → c.desc k = none)
    (hall : (c'.desc kKeyForSuspendAll).isSome = true → (c.desc kKeyForSuspendAll).isSome = true)
    (heffects : c'.mEffects = (c.updateEffect m.self g).mEffects)
    (hfields : (g m).mDescriptor = m.mDescriptor)
    (hasked : (c.desc kKeyForSuspendAll).isSome = true →
      c.isEffectEligibleForSuspend m.mDescriptor = true → c'.desc m.key = none →
        asked m.mHandles = false → asked (g m).mHandles = false) : Covered c' := by
  intro hsome e' he' heligible hnone
  rw [heffects, mEffects_updateEffect] at he'
  obtain ⟨y, hy, rfl⟩ := List.mem_map.mp he'
  rw [Chain.isEffectEligibleForSuspend, hsession] at heligible
  by_cases hself : y.self = m.self
  · obtain rfl := hk.eq_of_self hy hm hself
    rw [if_pos rfl] at heligible hnone ⊢
    rw [Module.key, hfields] at hnone
    rw [hfields] at heligible
    exact hasked (hall hsome) heligible hnone (hc (hall hsome) y hy heligible (hdesc _ hnone))
  · rw [if_neg hself] at heligible hnone ⊢
    exact hc (hall hsome) y hy heligible (hdesc _ hnone)

/-! ## Enabling -/

/-- What keeps the calls of handles: the references, and `Covered`. -/
structure Guarded (c : Chain) (refs : Uuid → ℕ) : Prop extends Kept c refs where
  covered : Covered c

/-- A call keeps the session, the suspension of all and the chain. -/
def Keeps (c : Chain) (refs : Uuid → ℕ) (c' : Chain) : Prop :=
  c'.mSessionId = c.mSessionId ∧ c'.desc kKeyForSuspendAll = c.desc kKeyForSuspendAll ∧ Guarded c' refs

/-- Enabling may take one reference for the suspension of all. -/
def Grows (c : Chain) (refs : Uuid → ℕ) (c' : Chain) : Prop :=
  c'.mSessionId = c.mSessionId ∧ c'.desc kKeyForSuspendAll = c.desc kKeyForSuspendAll ∧
    (Guarded c' refs ∨ ∃ t, refs t = 0 ∧ (c.desc kKeyForSuspendAll).isSome = true ∧
      Guarded c' (Function.update refs t 1))

/-- The write of `mEnabled` to the handle in control, as a change of the effect. -/
theorem setHandleEnabled_head (hk : Kept c refs) (hm : m ∈ c.mEffects) (hcons : m.mHandles = x :: hs)
    (b : Bool) :
    c.setHandleEnabled m.self x.self b = c.updateEffect m.self fun _ => m.asking x hs b := by
  rw [Chain.setHandleEnabled, updateEffect_const hk hm, updateHandle_head (hk.fits m hm).toSane hcons]
  rfl

theorem effectAt_updateEffect (hk : Kept c refs) (hm : m ∈ c.mEffects) {g : Module → Module}
    (hg : (g m).self = m.self) : (c.updateEffect m.self g).effectAt m.self = some (g m) := by
  have hfind : ∀ es : List Module, (∀ y ∈ es, y.self = m.self → y = m) → m ∈ es →
      ((es.map fun y => if y.self = m.self then g y else y).find? fun y => y.self = m.self) =
        some (g m) := by
    intro es hes hmem
    induction es with
    | nil => cases hmem
    | cons y es ih =>
      rw [List.map_cons]
      by_cases hself : y.self = m.self
      · obtain rfl := hes y (List.mem_cons_self ..) hself
        rw [if_pos rfl, List.find?_cons_of_pos]
        simp [hg]
      · rw [if_neg hself, List.find?_cons_of_neg (by simp [hself])]
        apply ih (fun z hz => hes z (List.mem_cons_of_mem y hz))
        rcases List.mem_cons.mp hmem with rfl | hmem
        · exact absurd rfl hself
        · exact hmem
  exact hfind c.mEffects (fun y hy hself => hk.eq_of_self hy hm hself) hm

/-- An enabled handle's effect is free to be suspended: its entry names no other effect, and if the
suspension of all is to take it, no effect of its type is enabled. -/
def FreeToEnable (c : Chain) (m : Module) : Prop :=
  (∀ d ∈ c.desc m.key, d.mEffect = none ∨ d.mEffect = some m.self) ∧
    (c.desc m.key = none → (c.desc kKeyForSuspendAll).isSome = true →
      c.isEffectEligibleForSuspend m.mDescriptor = true →
        ∀ y ∈ c.mEffects, y.mDescriptor.type = m.mDescriptor.type → y.isEnabled = false)

instance (c : Chain) (m : Module) : Decidable (FreeToEnable c m) :=
  inferInstanceAs (Decidable (_ ∧ (_ → _)))

/-- The chain when the effect that asks is suspended, with the entry `d`. -/
def Chain.taking (c : Chain) (m : Module) (x : Handle) (hs : List Handle) (d : SuspendedEffectDesc) :
    Chain :=
  (c.updateEffect m.self fun _ => (m.asking x hs true).suspend).setDesc m.key d

theorem desc_taking (c : Chain) (m : Module) (x : Handle) (hs : List Handle) (d : SuspendedEffectDesc)
    (k : ℕ) : (c.taking m x hs d).desc k = if k = m.key then some d else c.desc k := by
  rw [Chain.taking, desc_setDesc, desc_updateEffect]

theorem suspend_asking (m : Module) (x : Handle) (hs : List Handle) :
    (m.asking x hs true).suspend.self = m.self ∧
      (m.asking x hs true).suspend.mDescriptor = m.mDescriptor := by
  obtain ⟨s, b, hsuspend⟩ := suspend_alike (m.asking x hs true)
  rw [hsuspend]
  exact ⟨rfl, rfl⟩

theorem suspendEnabled_asking {d : SuspendedEffectDesc} (hnone : d.mEffect = none) :
    (c.updateEffect m.self fun _ => m.asking x hs true).suspendEnabled d m =
      c.taking m x hs { d with mEffect := some m.self } := by
  have hmerge := @updateEffect_updateEffect c (fun _ => m.asking x hs true) Module.suspend m.self
    fun _ _ => rfl
  rw [Chain.suspendEnabled, if_pos hnone, Chain.taking, ← hmerge]
  rfl

/-- The suspension of all takes an eligible effect. -/
theorem check_eligible (hd : c.desc m.key = none) (hall : (c.desc kKeyForSuspendAll).isSome = true)
    (heligible : c.isEffectEligibleForSuspend m.mDescriptor = true)
    (hidle : ∀ y ∈ c.mEffects, y.mDescriptor.type = m.mDescriptor.type → y.isEnabled = false)
    (hm : m ∈ c.mEffects) :
    (c.updateEffect m.self fun _ => m.asking x hs true).checkSuspendOnEffectEnabled m true =
      c.taking m x hs ⟨1, m.mDescriptor.type, some m.self⟩ := by
  set c₁ := c.updateEffect m.self fun _ => m.asking x hs true with hc₁
  have hif : c₁.getEffectIfEnabled m.mDescriptor.type = none := by
    rw [Chain.getEffectIfEnabled, Option.filter_eq_none_iff]
    intro y hy
    obtain ⟨hmem, htype⟩ := getEffectFromType_some hy
    rw [hc₁, mEffects_updateEffect] at hmem
    obtain ⟨z, hz, rfl⟩ := List.mem_map.mp hmem
    by_cases hzself : z.self = m.self
    · rw [if_pos hzself]
      change ¬ m.isEnabled = true
      rw [hidle m hm rfl]
      exact Bool.false_ne_true
    · rw [if_neg hzself] at htype ⊢
      rw [hidle z hz htype]
      exact Bool.false_ne_true
  have hd₁ : c₁.desc m.key = none := hd
  have hsuspend : c₁.suspend m.mDescriptor.type = c₁.setDesc m.key ⟨1, m.mDescriptor.type, none⟩ := by
    have hd₂ : c₁.desc m.mDescriptor.type.timeLow = none := hd
    rw [Chain.suspend, hd₂]
    simp only [Option.getD_none, if_true, hif, zero_add]
    rfl
  have hall₁ : (c₁.desc kKeyForSuspendAll).isSome = true := hall
  have heligible₁ : c₁.isEffectEligibleForSuspend m.mDescriptor = true := heligible
  have htake := @suspendEnabled_asking c m x hs ⟨1, m.mDescriptor.type, none⟩ rfl
  rw [Chain.suspendEnabled, if_pos rfl] at htake
  rw [Chain.checkSuspendOnEffectEnabled, hd₁, ← htake]
  simp only [hall₁, heligible₁, Bool.and_self, if_true, hsuspend, desc_setDesc, Option.elim_some,
    Chain.suspendEnabled, setDesc_setDesc, ← hc₁]

section Asking

variable (hg : Guarded c refs)

include hg

/-- The effect is asked for and suspended, with its entry. -/
theorem Guarded.take (hm : m ∈ c.mEffects) (hcons : m.mHandles = x :: hs)
    {d : SuspendedEffectDesc} {n : ℕ} (htype : d.mType = m.mDescriptor.type) (hcount : d.mRefCount = n)
    (hpos : 0 < n) (heffect : d.mEffect = some m.self)
    (hothers : ∀ y ∈ c.mEffects, y.self ≠ m.self → y.mDescriptor.type = m.mDescriptor.type →
      Fits (c.desc m.key) y → Fits (some d) y) :
    Guarded (c.taking m x hs d) (Function.update refs m.mDescriptor.type n) := by
  have hask := (hg.fits m hm).toSane.ask hcons true
  have hfields := suspend_asking m x hs
  constructor
  · refine hg.toKept.change_one hm (o := some d) (g := fun _ => (m.asking x hs true).suspend) ?_ rfl
      hfields (hask.suspend htype heffect) hothers ?_ ?_ ?_ ?_
    · exact desc_taking c m x hs d
    · intro hzero
      omega
    · rintro _ ⟨rfl⟩
      exact ⟨htype, hcount, hpos⟩
    · exact fun _ => ⟨_, rfl⟩
    · rintro _ ⟨rfl⟩ y hy hself
      rw [heffect] at hself
      rw [hg.eq_of_self hy hm (Option.some_injective _ hself).symm]
  · refine hg.covered.change_one hg.toKept hm (g := fun _ => _) rfl ?_ ?_ rfl hfields.2 ?_
    · intro k hk
      rw [desc_taking] at hk
      split at hk
      · cases hk
      · exact hk
    · rw [desc_taking, if_neg (hg.key_ne m hm).symm]
      exact id
    · intro _ _ hkey
      rw [desc_taking, if_pos rfl] at hkey
      cases hkey

/-- The effect of a listed type. -/
theorem Guarded.take_listed (hm : m ∈ c.mEffects) (hcons : m.mHandles = x :: hs)
    {d : SuspendedEffectDesc} (hd : c.desc m.key = some d) (hnone : d.mEffect = none) :
    Guarded (c.taking m x hs { d with mEffect := some m.self }) refs := by
  have htype := ((hg.fits m hm).listed d hd).1
  have hpos := (hg.entries _ d (hg.key_ne m hm) hd).2
  rw [htype] at hpos
  obtain ⟨-, d', hd', -, hcount⟩ := hg.listed _ hpos
  obtain rfl : d = d' := Option.some_injective _ (hd.symm.trans hd')
  have htake := hg.take hm hcons (d := { d with mEffect := some m.self }) htype hcount hpos rfl
    fun y hy hself _ hfits => by
      -- The other effects of the type were not suspended.
      rw [hd] at hfits
      obtain ⟨hytype, hdisabled, hsuspended, hasked⟩ := hfits.listed d rfl
      refine { hfits with listed := ?_, unlisted := nofun }
      rintro _ ⟨rfl⟩
      refine ⟨hytype, hdisabled, ⟨fun hs => ?_, fun hs => ?_⟩, hasked⟩
      · rw [hsuspended, hnone] at hs
        cases hs
      · exact absurd (Option.some_injective _ hs).symm hself
  rwa [Function.update_eq_self] at htake

/-- The effect that the suspension of all takes. -/
theorem Guarded.take_eligible (hm : m ∈ c.mEffects)
    (hcons : m.mHandles = x :: hs) (hd : c.desc m.key = none)
    (hdisabled : ∀ y ∈ c.mEffects, y.mDescriptor.type = m.mDescriptor.type → y.isEnabled = false) :
    Guarded (c.taking m x hs ⟨1, m.mDescriptor.type, some m.self⟩)
      (Function.update refs m.mDescriptor.type 1) := by
  refine hg.take hm hcons rfl rfl Nat.one_pos rfl fun y hy hself htype hfits => ?_
  rw [hd] at hfits
  apply hfits.list (hdisabled y hy htype) htype.symm
  intro heq
  exact hself (Option.some_injective _ heq).symm

/-- Only what the effect asks for, or its state, is changed. -/
theorem Guarded.reask (hm : m ∈ c.mEffects) {m' : Module}
    (hfields : m'.self = m.self ∧ m'.mDescriptor = m.mDescriptor) (hfit : Fits (c.desc m.key) m')
    (hasked : (c.desc kKeyForSuspendAll).isSome = true →
      c.isEffectEligibleForSuspend m.mDescriptor = true → c.desc m.key = none →
        asked m.mHandles = false → asked m'.mHandles = false) :
    Guarded (c.updateEffect m.self fun _ => m') refs where
  toKept := hg.toKept.refit hm (g := fun _ => m') (fun _ => rfl) rfl hfields hfit
  covered := hg.covered.change_one hg.toKept hm (g := fun _ => m') rfl (fun _ => id) id rfl hfields.2
    hasked

section Enabling

variable (hm : m ∈ c.mEffects) (hcons : m.mHandles = x :: hs) (policy : ℕ → Bool)
  (hat : c.handleAt m.self x.self = some (m, x)) (hact : (!x.mHasControl || x.mEnabled) = false)

include hm hcons hat hact

/-- `enable`, when the effect is suspended after the check. -/
theorem Guarded.enable_suspended
    (hcheck : (c.updateEffect m.self fun _ => m.asking x hs true).checkSuspendOnEffectEnabled m true = c')
    (hmark : (c'.effectAt m.self).map Module.mSuspended = some true) :
    (c.enable policy m.self x.self).1 = c' := by
  rw [Chain.enable, hat]
  simp only [hact, Bool.false_eq_true, if_false, setHandleEnabled_head hg.toKept hm hcons true, hcheck,
    hmark, Option.getD_some, if_true]

/-- `enable`, when the check suspends the effect. -/
theorem Guarded.enable_taken {d : SuspendedEffectDesc}
    (hcheck : (c.updateEffect m.self fun _ => m.asking x hs true).checkSuspendOnEffectEnabled m true =
      c.taking m x hs d) :
    (c.enable policy m.self x.self).1 = c.taking m x hs d ∧
      (c.taking m x hs d).desc kKeyForSuspendAll = c.desc kKeyForSuspendAll := by
  have hsuspended := effectAt_updateEffect hg.toKept hm (g := fun _ => (m.asking x hs true).suspend)
    (suspend_asking m x hs).1
  refine ⟨hg.enable_suspended hm hcons policy hat hact hcheck ?_, ?_⟩
  · exact congrArg (Option.map Module.mSuspended) hsuspended
  · rw [desc_taking, if_neg (hg.key_ne m hm).symm]

/-- The effect is suspended already. -/
theorem Guarded.enable_owned {d : SuspendedEffectDesc} (hd : c.desc m.key = some d)
    (hown : d.mEffect = some m.self) : Grows c refs (c.enable policy m.self x.self).1 := by
  have hfits := hg.fits m hm
  have hask := hfits.toSane.ask hcons true
  obtain ⟨htype, hoff, hiff, -⟩ := hfits.listed d hd
  have hmark := hiff.mpr hown
  have hcheck : (c.updateEffect m.self fun _ => m.asking x hs true).checkSuspendOnEffectEnabled m true =
      c.updateEffect m.self fun _ => m.asking x hs true := by
    rw [Chain.checkSuspendOnEffectEnabled, desc_updateEffect, hd]
    exact if_neg fun hnone => Option.some_ne_none _ (hown.symm.trans hnone)
  rw [hg.enable_suspended hm hcons policy hat hact hcheck]
  · refine ⟨rfl, rfl, .inl (hg.reask hm ⟨rfl, rfl⟩ ?_ ?_)⟩
    · rw [hd]
      refine { hask with listed := ?_, unlisted := by simp }
      rintro _ ⟨rfl⟩
      exact ⟨htype, hoff, hiff, fun _ => hmark⟩
    · intro _ _ hnone
      rw [hd] at hnone
      cases hnone
  · rw [effectAt_updateEffect hg.toKept hm (g := fun _ => m.asking x hs true) rfl]
    exact congrArg some hmark

/-- No suspension takes the effect, and the policy decides. -/
theorem Guarded.enable_plain (hd : c.desc m.key = none)
    (hfree : ¬ ((c.desc kKeyForSuspendAll).isSome && c.isEffectEligibleForSuspend m.mDescriptor) = true) :
    Grows c refs (c.enable policy m.self x.self).1 := by
  obtain ⟨hunmarked, hoff⟩ := (hg.fits m hm).unlisted hd
  have hask := (hg.fits m hm).toSane.ask hcons true
  set m₁ := m.asking x hs true with hm₁
  set c₁ := c.updateEffect m.self fun _ => m₁ with hc₁
  have hd₁ : c₁.desc m.key = none := hd
  have hfree₁ : ¬ ((c₁.desc kKeyForSuspendAll).isSome &&
      c₁.isEffectEligibleForSuspend m.mDescriptor) = true := hfree
  have hcheck (enabled : Bool) : c₁.checkSuspendOnEffectEnabled m enabled = c₁ := by
    rw [Chain.checkSuspendOnEffectEnabled, hd₁]
    cases enabled with
    | true => simp only [Bool.true_and, hfree₁, Bool.false_eq_true, if_false]
    | false => rfl
  have hat₁ : c₁.effectAt m.self = some m₁ := effectAt_updateEffect hg.toKept hm (g := fun _ => m₁) rfl
  have hmark : m₁.mSuspended = false := hunmarked
  obtain ⟨s, hs', heq, -, hgranted, -⟩ := @setEnabled_spec m₁ hask.alive (policy m.self) true
  rw [Chain.enable, hat]
  simp only [hact, Bool.false_eq_true, if_false, setHandleEnabled_head hg.toKept hm hcons true, ← hm₁,
    ← hc₁, hcheck, hat₁, hmark, Option.map_some, Option.getD_some]
  cases hanswer : (m₁.setEnabled (policy m.self) true).2 with
  | true =>
    have hmerge : c₁.updateEffect m.self (fun m' => (m'.setEnabled (policy m.self) true).1) =
        c.updateEffect m.self fun _ => { m₁ with mState := s } := by
      rw [← heq]
      exact updateEffect_updateEffect (fun _ _ => rfl)
    rw [if_pos rfl, hmerge]
    refine ⟨rfl, rfl, .inl (hg.reask hm ⟨rfl, rfl⟩ ?_ ?_)⟩
    · rw [hd]
      have henabled := hgranted hanswer
      rw [heq] at henabled
      exact ⟨⟨hask.held, hask.undestroyed, hask.handled, hs'⟩, by simp, fun _ => ⟨hunmarked, henabled⟩⟩
    · intro hall heligible
      exact absurd (Bool.and_eq_true_iff.mpr ⟨hall, heligible⟩) hfree
  | false =>
    -- The policy refuses, and the handle is disabled again.
    have hback : c₁.setHandleEnabled m.self x.self false = c := by
      have hx : { x with mEnabled := false } = x := by rw [← (Bool.or_eq_false_iff.mp hact).2]
      have hm' : (m₁.updateHandle x.self fun y => { y with mEnabled := false }) = m := by
        rw [updateHandle_head hask (x := { x with mEnabled := true }) rfl, hm₁]
        change { m with mHandles := { x with mEnabled := false } :: hs } = m
        rw [hx, ← hcons]
      rw [hc₁, Chain.setHandleEnabled,
        updateEffect_updateEffect (a := m.self) (f := fun _ => m₁) fun _ _ => rfl, hm']
      exact (updateEffect_const hg.toKept hm id).symm.trans (by simp [Chain.updateEffect])
    rw [if_neg Bool.false_ne_true, hback]
    exact ⟨rfl, rfl, .inl hg⟩

end Enabling

/-- `enable` keeps the chain, if the effect is free to be enabled. -/
theorem Guarded.enable (policy : ℕ → Bool)
    (hfree : ∀ p ∈ c.handleAt e h, p.2.mHasControl = true → p.2.mEnabled = false →
      FreeToEnable c p.1) : Grows c refs (c.enable policy e h).1 := by
  cases hat : c.handleAt e h with
  | none =>
    rw [Chain.enable, hat]
    exact ⟨rfl, rfl, .inl hg⟩
  | some p =>
    obtain ⟨m, x⟩ := p
    obtain ⟨hm, rfl, hx, rfl⟩ := handleAt_some hat
    cases hact : !x.mHasControl || x.mEnabled with
    | true =>
      rw [Chain.enable, hat]
      simp only [hact, if_true]
      exact ⟨rfl, rfl, .inl hg⟩
    | false =>
      obtain ⟨hcontrol, hdisabled⟩ := Bool.or_eq_false_iff.mp hact
      rw [Bool.not_eq_false'] at hcontrol
      obtain ⟨hnamed, hothers⟩ := hfree (m, x) hat hcontrol hdisabled
      obtain ⟨hs, hcons⟩ := (hg.fits m hm).toSane.head hx hcontrol
      cases hd : c.desc m.key with
      | some d =>
        by_cases hnone : d.mEffect = none
        · have hcheck := @suspendEnabled_asking c m x hs d hnone
          obtain ⟨heq, hall⟩ := hg.enable_taken hm hcons policy hat hact (by
            rw [Chain.checkSuspendOnEffectEnabled, desc_updateEffect, hd]
            exact hcheck)
          rw [heq]
          exact ⟨rfl, hall, .inl (hg.take_listed hm hcons hd hnone)⟩
        · exact hg.enable_owned hm hcons policy hat hact hd ((hnamed d hd).resolve_left hnone)
      | none =>
        by_cases htaken : ((c.desc kKeyForSuspendAll).isSome &&
            c.isEffectEligibleForSuspend m.mDescriptor) = true
        · obtain ⟨hall, heligible⟩ := Bool.and_eq_true_iff.mp htaken
          have hidle := hothers hd hall heligible
          obtain ⟨heq, hkept⟩ := hg.enable_taken hm hcons policy hat hact
            (check_eligible hd hall heligible hidle hm)
          rw [heq]
          refine ⟨rfl, hkept, .inr ⟨m.mDescriptor.type, ?_, hall, hg.take_eligible hm hcons hd hidle⟩⟩
          by_contra hne
          obtain ⟨-, d, hd', -⟩ := hg.listed _ (Nat.pos_of_ne_zero hne)
          change c.desc m.key = some d at hd'
          rw [hd] at hd'
          cases hd'
        · exact hg.enable_plain hm hcons policy hat hact hd htaken

/-! ## Disabling -/

theorem Guarded.disable (e h : ℕ) : Keeps c refs (c.disable e h).1 := by
  cases hat : c.handleAt e h with
  | none =>
    rw [Chain.disable, hat]
    exact ⟨rfl, rfl, hg⟩
  | some p =>
    obtain ⟨m, x⟩ := p
    obtain ⟨hm, rfl, hx, rfl⟩ := handleAt_some hat
    rw [Chain.disable, hat]
    cases hact : !x.mHasControl || !x.mEnabled with
    | true =>
      simp only [hact, if_true]
      exact ⟨rfl, rfl, hg⟩
    | false =>
      obtain ⟨hcontrol, henabled⟩ := Bool.or_eq_false_iff.mp hact
      rw [Bool.not_eq_false'] at hcontrol henabled
      have hfits := hg.fits m hm
      obtain ⟨hs, hcons⟩ := hfits.toSane.head hx hcontrol
      have hask := hfits.toSane.ask hcons false
      have hasked : asked m.mHandles = true := by rw [hcons]; exact henabled
      rw [setHandleEnabled_head hg.toKept hm hcons false]
      simp only [hact, Bool.false_eq_true, if_false]
      cases hd : c.desc m.key with
      | some d =>
        -- An effect that is asked for and listed is suspended.
        obtain ⟨htype, hoff, hiff, hmark⟩ := hfits.listed d hd
        rw [if_pos (hmark hasked)]
        refine ⟨rfl, rfl, hg.reask hm ⟨rfl, rfl⟩ ?_ fun _ _ _ _ => rfl⟩
        rw [hd]
        refine { hask with listed := ?_, unlisted := by simp }
        rintro _ ⟨rfl⟩
        exact ⟨htype, hoff, hiff, fun h => absurd h Bool.false_ne_true⟩
      | none =>
        obtain ⟨hunmarked, -⟩ := hfits.unlisted hd
        set m₁ := m.asking x hs false with hm₁
        obtain ⟨s, hs, heq, hoff, -⟩ := @setEnabled_spec m₁ hask.alive true false
        have hmerge : (c.updateEffect m.self fun _ => m₁).updateEffect m.self
            (fun m' => (m'.setEnabled true false).1) =
              c.updateEffect m.self fun _ => { m₁ with mState := s } := by
          rw [← heq]
          exact updateEffect_updateEffect (fun _ _ => rfl)
        have hcheck : (c.updateEffect m.self fun _ => { m₁ with mState := s }).checkSuspendOnEffectEnabled
            m false = c.updateEffect m.self fun _ => { m₁ with mState := s } := by
          rw [Chain.checkSuspendOnEffectEnabled, desc_updateEffect, hd]
          rfl
        simp only [hunmarked, Bool.false_eq_true, if_false, hmerge, hcheck]
        refine ⟨rfl, rfl, hg.reask hm ⟨rfl, rfl⟩ ?_ fun _ _ _ _ => rfl⟩
        rw [hd]
        have hoff := (hoff (by simp)).1
        rw [heq] at hoff
        exact ⟨⟨hask.held, hask.undestroyed, hask.handled, hs⟩, by simp, fun _ => ⟨hunmarked, hoff⟩⟩

end Asking

/-! ## Handles that come and go -/

/-- Other handles that ask for the same. -/
theorem Fits.hold {desc : Option SuspendedEffectDesc} (hf : Fits desc m) {hs : List Handle}
    (hheld : Held hs) (hu : Undestroyed hs) (hne : hs ≠ []) (hasked : asked hs = asked m.mHandles) :
    Fits desc { m with mHandles := hs } where
  held := hheld
  undestroyed := hu
  handled := hne
  alive := hf.alive
  listed := by
    intro d hd
    obtain ⟨htype, hoff, hiff, hmark⟩ := hf.listed d hd
    exact ⟨htype, hoff, hiff, fun h => hmark (hasked.symm.trans h)⟩
  unlisted := by
    intro hd
    obtain ⟨hunmarked, henabled⟩ := hf.unlisted hd
    exact ⟨hunmarked, henabled.trans hasked.symm⟩

theorem Guarded.hold (hg : Guarded c refs) (hm : m ∈ c.mEffects) {hs : List Handle} (hheld : Held hs)
    (hu : Undestroyed hs) (hne : hs ≠ []) (hasked : asked hs = asked m.mHandles) :
    Guarded (c.updateEffect m.self fun _ => { m with mHandles := hs }) refs :=
  hg.reask hm ⟨rfl, rfl⟩ ((hg.fits m hm).hold hheld hu hne hasked) fun _ _ _ h => hasked.trans h

theorem updateEffect_absent (hnot : ∀ y ∈ c.mEffects, y.self ≠ e) (g : Module → Module) :
    c.updateEffect e g = c := by
  have hid : (c.mEffects.map fun y => if y.self = e then g y else y) = c.mEffects :=
    (List.map_congr_left fun y hy => if_neg (hnot y hy)).trans (List.map_id' _)
  rw [Chain.updateEffect, hid]

theorem Guarded.addHandle (hg : Guarded c refs) (e : ℕ) {x : Handle} (hcontrol : x.mHasControl = false)
    (hdestroyed : x.mDestroyed = false)
    (hfresh : ∀ m ∈ c.mEffects, m.self = e → x.self ∉ m.mHandles.map Handle.self) :
    Guarded (c.updateEffect e fun m => m.addHandle x) refs := by
  by_cases hex : ∃ m ∈ c.mEffects, m.self = e
  · obtain ⟨m, hm, rfl⟩ := hex
    have hsane := (hg.fits m hm).toSane
    obtain ⟨hheld, hasked⟩ := hsane.held.addHandle hcontrol (hfresh m hm rfl)
    have hne : (m.addHandle x).mHandles ≠ [] := by
      rcases addHandle_cases hsane.held.nodup x with
        ⟨-, hadd⟩ | ⟨_, _, -, hadd⟩ | ⟨_, _, _, -, -, hadd⟩ <;> simp [hadd]
    rw [updateEffect_const hg.toKept hm, addHandle_fields]
    exact hg.hold hm hheld (hsane.undestroyed.addHandle hsane.held.nodup hdestroyed) hne hasked
  · rw [updateEffect_absent fun y hy hself => hex ⟨y, hy, hself⟩]
    exact hg

/-! ## Effects that come and go -/

theorem mEffects_removeEffect {f : Module → Module} (hk : Kept c refs)
    (hf : ∀ y, y.self = e → (f y).self = e) :
    ((c.updateEffect e f).removeEffect e).mEffects = c.mEffects.eraseP fun y => y.self = e := by
  have hnodup := hk.selves
  simp only [Chain.removeEffect, Chain.updateEffect]
  generalize c.mEffects = es at hnodup
  clear hk
  induction es with
  | nil => rfl
  | cons y es ih =>
    rw [List.map_cons, List.nodup_cons] at hnodup
    rw [List.map_cons]
    by_cases hy : y.self = e
    · have hrest : (es.map fun z => if z.self = e then f z else z) = es := by
        refine (List.map_congr_left fun z hz => if_neg fun hself => ?_).trans (List.map_id' _)
        exact hnodup.1 (List.mem_map.mpr ⟨z, hz, hself.trans hy.symm⟩)
      rw [if_pos hy, List.eraseP_cons_of_pos (by simpa using hf y hy),
        List.eraseP_cons_of_pos (by simpa using hy), hrest]
    · rw [if_neg hy, List.eraseP_cons_of_neg (by simpa using hy),
        List.eraseP_cons_of_neg (by simpa using hy), ih hnodup.2]

/-- The effects that are left when one is removed. -/
theorem mem_eraseP (hk : Kept c refs) {y : Module} :
    y ∈ c.mEffects.eraseP (fun y => y.self = e) ↔ y ∈ c.mEffects ∧ y.self ≠ e := by
  have hnodup := hk.selves
  generalize c.mEffects = es at hnodup
  clear hk
  induction es with
  | nil => simp
  | cons z es ih =>
    rw [List.map_cons, List.nodup_cons] at hnodup
    by_cases hz : z.self = e
    · rw [List.eraseP_cons_of_pos (by simpa using hz)]
      constructor
      · intro hy
        refine ⟨List.mem_cons_of_mem z hy, fun hself => ?_⟩
        exact hnodup.1 (List.mem_map.mpr ⟨y, hy, hself.trans hz.symm⟩)
      · rintro ⟨hy, hself⟩
        rcases List.mem_cons.mp hy with rfl | hy
        · exact absurd hz hself
        · exact hy
    · have hrest := ih hnodup.2
      rw [List.eraseP_cons_of_neg (by simpa using hz), List.mem_cons, List.mem_cons]
      constructor
      · rintro (rfl | hy)
        · exact ⟨.inl rfl, hz⟩
        · exact ⟨.inr (hrest.mp hy).1, (hrest.mp hy).2⟩
      · rintro ⟨rfl | hy, hself⟩
        · exact .inl rfl
        · exact .inr (hrest.mpr ⟨hy, hself⟩)

/-- Fewer effects. -/
theorem Guarded.erase (hg : Guarded c refs) (hsession : c'.mSessionId = c.mSessionId)
    (hdesc : ∀ k, c'.desc k = c.desc k) (hsub : c'.mEffects.Sublist c.mEffects) : Guarded c' refs where
  selves := hg.selves.sublist (hsub.map Module.self)
  key_ne := fun y hy => hg.key_ne y (hsub.subset hy)
  fits := by
    intro y hy
    rw [hdesc]
    exact hg.fits y (hsub.subset hy)
  listed := by
    intro t ht
    rw [hdesc]
    exact hg.listed t ht
  entries := by
    intro k d hne hd
    rw [hdesc] at hd
    exact hg.entries k d hne hd
  owner := by
    intro k d hne hd y hy
    rw [hdesc] at hd
    exact hg.owner k d hne hd y (hsub.subset hy)
  types := fun y hy z hz => hg.types y (hsub.subset hy) z (hsub.subset hz)
  covered := by
    intro hall y hy heligible hnone
    rw [hdesc] at hall hnone
    rw [Chain.isEffectEligibleForSuspend, hsession] at heligible
    exact hg.covered hall y (hsub.subset hy) heligible hnone

/-- The entry of a removed effect names no effect any more. -/
theorem Guarded.clear (hg : Guarded c refs) {t : Uuid} (hclean : Clean c t) {d : SuspendedEffectDesc}
    (hd : c.desc t.timeLow = some d) (hnot : ∀ y ∈ c.mEffects, d.mEffect ≠ some y.self) :
    Guarded (c.setDesc t.timeLow { d with mEffect := none }) refs := by
  have hpos := (hg.entries _ d hclean.key_ne hd).2
  rw [hclean.entries d hd] at hpos
  obtain ⟨-, d', hd', htype, hcount⟩ := hg.listed _ hpos
  obtain rfl : d = d' := Option.some_injective _ (hd.symm.trans hd')
  have hchange : Kept (c.setDesc t.timeLow { d with mEffect := none })
      (Function.update refs t (refs t)) := by
    refine hg.toKept.change hclean (o := some { d with mEffect := none }) (g := id) (by simp)
      (by simp) (fun _ _ => ⟨rfl, rfl⟩) (fun _ _ _ => rfl) ?_ ?_ ?_ ?_ ?_
    · intro y hy hkey _
      have hfits := hg.fits y hy
      rw [hkey, hd] at hfits
      obtain ⟨hytype, hoff, hiff, hmark⟩ := hfits.listed d rfl
      refine { hfits with listed := ?_, unlisted := nofun }
      rintro _ ⟨rfl⟩
      exact ⟨hytype, hoff, ⟨fun h => absurd (hiff.mp h) (hnot y hy), nofun⟩, hmark⟩
    · intro hzero
      omega
    · rintro _ ⟨rfl⟩
      exact ⟨htype, hcount, hpos⟩
    · exact fun _ => ⟨_, rfl⟩
    · rintro _ ⟨rfl⟩ y _ ⟨⟩
  rw [Function.update_eq_self] at hchange
  refine ⟨hchange, ?_⟩
  intro hall y hy heligible hnone
  rw [desc_setDesc] at hall hnone
  rw [if_neg hclean.key_ne.symm] at hall
  split at hnone
  · cases hnone
  · exact hg.covered hall y hy heligible hnone

/-- `disconnect` removes a handle, and with the last one the effect. -/
theorem Guarded.disconnect (hg : Guarded c refs) (e h : ℕ) :
    Keeps c refs (c.disconnect e h true).1 := by
  cases hat : c.handleAt e h with
  | none =>
    rw [Chain.disconnect, hat]
    exact ⟨rfl, rfl, hg⟩
  | some p =>
    obtain ⟨m, x⟩ := p
    obtain ⟨hm, rfl, hx, rfl⟩ := handleAt_some hat
    have hfits := hg.fits m hm
    obtain ⟨y, hs, hcons⟩ := List.exists_cons_of_ne_nil hfits.handled
    rw [Chain.disconnect, hat]
    by_cases hone : hs = []
    · subst hone
      rw [hcons, List.mem_singleton] at hx
      subst hx
      have hlast := removeHandle_last hcons rfl
      simp only [if_pos hlast, Bool.or_true, if_true]
      set c₁ := (c.updateEffect m.self fun m => m.removeHandle x.self).removeEffect m.self with hc₁
      have heffects : c₁.mEffects = c.mEffects.eraseP fun y => y.self = m.self :=
        mEffects_removeEffect hg.toKept fun y hy => (removeHandle_self y x.self).trans hy
      have hsub : c₁.mEffects.Sublist c.mEffects := by
        rw [heffects]
        exact List.eraseP_sublist
      have hgone : ∀ y ∈ c₁.mEffects, y ∈ c.mEffects ∧ y.self ≠ m.self := by
        intro y hy
        rw [heffects] at hy
        exact (mem_eraseP hg.toKept).mp hy
      have hg₁ : Guarded c₁ refs := hg.erase rfl (fun _ => rfl) hsub
      cases henabled : x.mEnabled with
      | false =>
        simp only [Bool.false_eq_true, if_false]
        exact ⟨rfl, rfl, hg₁⟩
      | true =>
        simp only [if_true]
        rw [Chain.checkSuspendOnEffectEnabled]
        cases hd : c₁.desc m.key with
        | none =>
          simp only [Bool.false_and, Bool.false_eq_true, if_false]
          exact ⟨rfl, rfl, hg₁⟩
        | some d =>
          simp only [Bool.false_eq_true, if_false]
          have habsent : ∀ y ∈ (c₁.setDesc m.key { d with mEffect := none }).mEffects,
              y.self ≠ m.self := fun y hy => (hgone y hy).2
          rw [updateEffect_absent habsent]
          have hclean : Clean c₁ m.mDescriptor.type :=
            { key_ne := (hg.clean hm).key_ne
              effects := fun y hy => (hg.clean hm).effects y (hgone y hy).1
              entries := (hg.clean hm).entries }
          refine ⟨rfl, ?_, hg₁.clear hclean hd ?_⟩
          · rw [desc_setDesc, if_neg (hg.key_ne m hm).symm]
            rfl
          · -- The entry named the removed effect, which was asked for.
            have hasked : asked m.mHandles = true := by rw [hcons]; exact henabled
            obtain ⟨-, -, hiff, hmark⟩ := hfits.listed d hd
            have hown := hiff.mp (hmark hasked)
            intro z hz hself
            rw [hown] at hself
            exact (hgone z hz).2 (Option.some_injective _ hself).symm
    · obtain ⟨hs', heq, hheld, hne', hasked, hsame⟩ :=
        @Held.removeHandle hs y m x.self hfits.held hcons hone fun _ n hn => by
          apply hfits.undestroyed
          rw [hcons]
          exact List.mem_cons_of_mem y (List.mem_of_mem_head? hn)
      have hlast : (m.removeHandle x.self).mHandles ≠ [] := by
        rw [heq]
        exact hne'
      simp only [if_neg hlast]
      have hu : Undestroyed hs' := by
        intro z hz
        obtain ⟨w, hw, -, hd⟩ := hsame z hz
        rw [hd]
        exact hfits.undestroyed w hw
      rw [updateEffect_const hg.toKept hm, heq]
      exact ⟨rfl, rfl, hg.hold hm hheld hu hne' hasked⟩

/-- A new effect, with its first handle. -/
theorem Guarded.addEffect (hg : Guarded c refs) (hsane : Sane m) (hidle : m.isEnabled = false)
    (hunmarked : m.mSuspended = false) (hasked : asked m.mHandles = false) (hclean : Clean c m.mDescriptor.type)
    (hfresh : ∀ y ∈ c.mEffects, y.self ≠ m.self)
    (hunnamed : ∀ k d, c.desc k = some d → d.mEffect ≠ some m.self) (hadd : c.addEffect m = some c') :
    Keeps c refs c' := by
  rw [Chain.addEffect, Option.map_eq_some_iff] at hadd
  obtain ⟨i, -, rfl⟩ := hadd
  have hmem : ∀ y, y ∈ c.mEffects.insertIdx i m → y = m ∨ y ∈ c.mEffects :=
    fun y hy => List.eq_or_mem_of_mem_insertIdx hy
  refine ⟨rfl, rfl, ⟨⟨?_, ?_, ?_, hg.listed, hg.entries, ?_, ?_⟩, ?_⟩⟩
  · change ((c.mEffects.insertIdx i m).map Module.self).Nodup
    by_cases hi : i ≤ c.mEffects.length
    · have hperm := (List.perm_insertIdx m c.mEffects hi).map Module.self
      rw [hperm.nodup_iff, List.map_cons, List.nodup_cons]
      refine ⟨fun hmem => ?_, hg.selves⟩
      obtain ⟨y, hy, hself⟩ := List.mem_map.mp hmem
      exact hfresh y hy hself
    · rw [List.insertIdx_of_length_lt (Nat.lt_of_not_le hi)]
      exact hg.selves
  · intro y hy
    rcases hmem y hy with rfl | hy
    · exact hclean.key_ne
    · exact hg.key_ne y hy
  · intro y hy
    rcases hmem y hy with rfl | hy
    · refine { hsane with listed := ?_, unlisted := ?_ }
      · intro d hd
        refine ⟨hclean.entries d hd, hidle, ⟨fun h => ?_, fun h => ?_⟩, fun h => ?_⟩
        · rw [hunmarked] at h
          cases h
        · exact absurd h (hunnamed _ d hd)
        · rw [hasked] at h
          cases h
      · exact fun _ => ⟨hunmarked, hidle.trans hasked.symm⟩
    · exact hg.fits y hy
  · intro k d hne hd y hy hself
    rcases hmem y hy with rfl | hy
    · exact absurd hself (hunnamed k d hd)
    · exact hg.owner k d hne hd y hy hself
  · intro y hy z hz hkey
    rcases hmem y hy with rfl | hy'
    · rcases hmem z hz with rfl | hz'
      · rfl
      · exact (hclean.effects z hz' hkey.symm).symm
    · rcases hmem z hz with rfl | hz'
      · exact hclean.effects y hy' hkey
      · exact hg.types y hy' z hz' hkey
  · intro hall y hy heligible hnone
    rcases hmem y hy with rfl | hy
    · exact hasked
    · exact hg.covered hall y hy heligible hnone

end AudioFlinger.Effects
