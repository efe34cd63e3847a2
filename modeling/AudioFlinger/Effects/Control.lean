import AudioFlinger.Effects.Insertion
import AudioFlinger.Effects.Sessions

/-!
# Effects that are enabled by the handle in control

In an orderly chain the first handle of an effect, and only the first, is in
control. Each call of a handle changes the number of effects whose handle in
control is enabled by what it tells the thread.
-/

namespace AudioFlinger.Effects

open Foundation

/-- Whether the handle in control is enabled. -/
def Module.controlled (e : Module) : Bool := e.mHandles.any fun h => h.mHasControl && h.mEnabled

/-- The effects whose handle in control is enabled. -/
def Chain.enabledCount (c : Chain) : ℕ := c.mEffects.countP Module.controlled

/-- Effects have addresses of their own, and control is with the first handle. -/
structure Chain.Orderly (c : Chain) : Prop where
  selves : (c.mEffects.map Module.self).Nodup
  held : ∀ e ∈ c.mEffects, Held e.mHandles

variable {c c' : Chain} {e m : Module} {x y : Handle} {a h : ℕ} {hs : List Handle}

theorem Held.controlled (hheld : Held e.mHandles) : e.controlled = asked e.mHandles := by
  have hhead := hheld.headed
  rw [Module.controlled]
  generalize e.mHandles = hs at hhead
  cases hs with
  | nil => rfl
  | cons x hs =>
    obtain ⟨hcontrol, hrest⟩ := hhead
    have hnone : (hs.any fun h => h.mHasControl && h.mEnabled) = false := by
      apply List.any_eq_false.mpr
      intro y hy
      simp [hrest y hy]
    rw [List.any_cons, hnone, hcontrol]
    simp

theorem Chain.enabledCount_eq (c : Chain) :
    c.enabledCount = (c.mEffects.map fun e => e.controlled.toNat).sum :=
  KeyedList.countP_eq_sum Module.controlled c.mEffects

/-- Up to their states the effects are the same. -/
theorem Chain.Orderly.alike (ho : c.Orderly) (h : Chain.Alike c c') :
    c'.Orderly ∧ c'.enabledCount = c.enabledCount := by
  refine ⟨⟨?_, ?_⟩, ?_⟩
  · have hself : c'.mEffects.map Module.self = c.mEffects.map Module.self :=
      h.map_eq (by rintro e _ ⟨s, b, rfl⟩; rfl)
    rw [hself]
    exact ho.selves
  · intro e' he'
    obtain ⟨e, he, s, b, rfl⟩ := h.mem he'
    exact ho.held e he
  · have hcontrolled : (c'.mEffects.map fun e => e.controlled.toNat) =
        c.mEffects.map fun e => e.controlled.toNat :=
      h.map_eq (by rintro e _ ⟨s, b, rfl⟩; rfl)
    rw [c'.enabledCount_eq, c.enabledCount_eq, hcontrolled]

/-- One effect is written. -/
theorem Chain.Orderly.write (ho : c.Orderly) (hm : m ∈ c.mEffects) {g : Module → Module}
    (hself : (g m).self = m.self) (hheld : Held (g m).mHandles) :
    (c.updateEffect m.self g).Orderly ∧
      (c.updateEffect m.self g).enabledCount + m.controlled.toNat =
        c.enabledCount + (g m).controlled.toNat := by
  have hkey : ∀ y ∈ c.mEffects, y.self = m.self → y = m := fun y hy hself =>
    List.inj_on_of_nodup_map ho.selves hy hm hself
  refine ⟨⟨?_, ?_⟩, ?_⟩
  · have hmap : (c.updateEffect m.self g).mEffects.map Module.self = c.mEffects.map Module.self := by
      simp only [Chain.updateEffect, List.map_map]
      apply List.map_congr_left
      intro y hy
      simp only [Function.comp]
      split
      next h => rw [hkey y hy h, hself]
      next => rfl
    rw [hmap]
    exact ho.selves
  · intro y' hy'
    obtain ⟨y, hy, rfl⟩ := List.mem_map.mp hy'
    split
    next h => rwa [hkey y hy h]
    next => exact ho.held y hy
  · rw [Chain.enabledCount_eq, Chain.enabledCount_eq]
    exact KeyedList.sum_update ho.selves hm g fun e => e.controlled.toNat

/-- The effect at an address is written, if there is one. -/
theorem Chain.Orderly.writeAt (ho : c.Orderly) (a : ℕ) {g : Module → Module}
    (hself : ∀ m ∈ c.mEffects, m.self = a → (g m).self = m.self)
    (hheld : ∀ m ∈ c.mEffects, m.self = a → Held (g m).mHandles)
    (hsame : ∀ m ∈ c.mEffects, m.self = a → (g m).controlled = m.controlled) :
    (c.updateEffect a g).Orderly ∧ (c.updateEffect a g).enabledCount = c.enabledCount := by
  by_cases hex : ∃ m ∈ c.mEffects, m.self = a
  · obtain ⟨m, hm, rfl⟩ := hex
    obtain ⟨ho', hcount⟩ := ho.write hm (hself m hm rfl) (hheld m hm rfl)
    rw [hsame m hm rfl] at hcount
    exact ⟨ho', by omega⟩
  · have hfresh : a ∉ c.mEffects.map Module.self := by
      intro hmem
      obtain ⟨m, hm, hself⟩ := List.mem_map.mp hmem
      exact hex ⟨m, hm, hself⟩
    have hsame' : c.updateEffect a g = c := by
      have hupdate := @KeyedList.update_of_not_mem _ _ _ _ _ _ g hfresh
      simp only [Chain.updateEffect]
      rw [KeyedList.update] at hupdate
      rw [hupdate]
    rw [hsame']
    exact ⟨ho, rfl⟩

/-! ## The write of `mEnabled` -/

/-- The handle in control is the first. -/
theorem Held.cons_of_control (hheld : Held m.mHandles) (hx : x ∈ m.mHandles)
    (hcontrol : x.mHasControl = true) : ∃ hs, m.mHandles = x :: hs := by
  cases hhs : m.mHandles with
  | nil => simp [hhs] at hx
  | cons y hs =>
    rw [hhs] at hheld hx
    rw [hheld.eq_head hx hcontrol]
    exact ⟨hs, rfl⟩

theorem Held.enableHead (hheld : Held (x :: hs)) (b : Bool) : Held ({ x with mEnabled := b } :: hs) :=
  ⟨hheld.headed, hheld.nodup⟩

theorem Chain.Orderly.setHandleEnabled (ho : c.Orderly) (hat : c.handleAt a h = some (m, x))
    (hcontrol : x.mHasControl = true) (b : Bool) :
    (c.setHandleEnabled a h b).Orderly ∧
      (c.setHandleEnabled a h b).enabledCount + x.mEnabled.toNat = c.enabledCount + b.toNat := by
  obtain ⟨hm, rfl, hx, rfl⟩ := handleAt_some hat
  have hheld := ho.held m hm
  obtain ⟨hs, hcons⟩ := hheld.cons_of_control hx hcontrol
  have hhandles : (m.updateHandle x.self fun y => { y with mEnabled := b }).mHandles =
      { x with mEnabled := b } :: hs := by
    have hnodup := hheld.nodup
    rw [hcons] at hnodup
    simp only [Module.updateHandle, hcons]
    exact map_head hnodup fun y => { y with mEnabled := b }
  have hheld' : Held (m.updateHandle x.self fun y => { y with mEnabled := b }).mHandles := by
    rw [hhandles]
    rw [hcons] at hheld
    exact hheld.enableHead b
  obtain ⟨ho', hcount⟩ :=
    ho.write hm (g := Module.updateHandle x.self fun y => { y with mEnabled := b }) rfl hheld'
  rw [hheld'.controlled, hheld.controlled, hhandles, hcons, asked_cons, asked_cons] at hcount
  exact ⟨ho', hcount⟩

/-- The last write stands, whatever changes the states in between. -/
theorem setHandleEnabled_alike {b b' : Bool} (halike : Chain.Alike (c.setHandleEnabled a h b) c') :
    Chain.Alike (c.setHandleEnabled a h b') (c'.setHandleEnabled a h b') where
  session := halike.session
  effects := by
    have htwice : ∀ m : Module, (m.updateHandle h fun y => { y with mEnabled := b }).updateHandle h
        (fun y => { y with mEnabled := b' }) = m.updateHandle h fun y => { y with mEnabled := b' } := by
      intro m
      simp only [Module.updateHandle, List.map_map]
      congr 1
      apply List.map_congr_left
      intro y _
      simp only [Function.comp]
      by_cases hy : y.self = h
      · simp only [hy, if_true]
      · simp only [hy, if_false]
    have heffects := halike.effects
    simp only [Chain.setHandleEnabled, mEffects_updateEffect] at heffects ⊢
    generalize c.mEffects = es at heffects
    generalize c'.mEffects = es' at heffects
    clear halike
    induction es generalizing es' with
    | nil =>
      cases heffects
      exact .nil
    | cons e es ih =>
      obtain ⟨e', es', he, hes, rfl⟩ := List.forall₂_cons_left_iff.mp heffects
      refine .cons ?_ (ih _ hes)
      obtain ⟨s, d, rfl⟩ := he
      beta_reduce
      by_cases he : e.self = a
      · rw [if_pos he, if_pos he]
        split
        next => exact ⟨s, d, by rw [← htwice e]; rfl⟩
        next hne => exact absurd he hne
      · simp only [he, if_false]
        exact ⟨s, d, rfl⟩

/-! ## The calls of handles -/

/-- What a call tells the thread. -/
def Chain.Outcome.told (o : Chain.Outcome) : ℕ := if o = .checked then 1 else 0

theorem Chain.Orderly.enable (ho : c.Orderly) (policy : ℕ → Bool) (a h : ℕ) :
    (c.enable policy a h).1.Orderly ∧ (c.enable policy a h).1.mSessionId = c.mSessionId ∧
      (c.enable policy a h).1.enabledCount = c.enabledCount + (c.enable policy a h).2.told := by
  have hsame : c.Orderly ∧ c.mSessionId = c.mSessionId ∧
      c.enabledCount = c.enabledCount + Chain.Outcome.told .unchanged := ⟨ho, rfl, rfl⟩
  cases hat : c.handleAt a h with
  | none =>
    have heq : c.enable policy a h = (c, .unchanged) := by simp only [Chain.enable, hat]
    rw [heq]
    exact hsame
  | some p =>
    obtain ⟨m, x⟩ := p
    simp only [Chain.enable, hat]
    by_cases hskip : (!x.mHasControl || x.mEnabled) = true
    · rw [if_pos hskip]
      exact hsame
    · rw [if_neg hskip]
      obtain ⟨hcontrol, henabled⟩ : x.mHasControl = true ∧ x.mEnabled = false := by
        cases hc : x.mHasControl <;> cases he : x.mEnabled <;> simp_all
      obtain ⟨ho₁, hcount₁⟩ := ho.setHandleEnabled hat hcontrol true
      rw [henabled] at hcount₁
      have hcheck := (c.setHandleEnabled a h true).checkSuspendOnEffectEnabled_alike m true
      obtain ⟨ho₂, hcount₂⟩ := ho₁.alike hcheck
      generalize hc₂ : (c.setHandleEnabled a h true).checkSuspendOnEffectEnabled m true = c₂ at *
      split
      · exact ⟨ho₂, hcheck.session, by rw [hcount₂]; exact hcount₁⟩
      · split
        · have henable := updateEffect_alike (fun e => setEnabled_alike e (policy a) true) c₂ a
          obtain ⟨ho₃, hcount₃⟩ := ho₂.alike henable
          exact ⟨ho₃, hcheck.session, by rw [hcount₃, hcount₂]; exact hcount₁⟩
        · have hback := hcheck.trans (c₂.checkSuspendOnEffectEnabled_alike m false)
          have hlast := @setHandleEnabled_alike c _ a h true false hback
          obtain ⟨ho₃, hcount₃⟩ := ho.setHandleEnabled hat hcontrol false
          obtain ⟨ho₄, hcount₄⟩ := ho₃.alike hlast
          rw [henabled] at hcount₃
          exact ⟨ho₄, hlast.session, by rw [hcount₄]; exact hcount₃⟩

/-- Disabling an effect tells the thread if the effect is not suspended. -/
theorem Chain.Orderly.disable (ho : c.Orderly) (a h : ℕ) :
    (c.disable a h).1.Orderly ∧ (c.disable a h).1.mSessionId = c.mSessionId ∧
      ((∀ p ∈ c.handleAt a h, p.2.mHasControl = true → p.2.mEnabled = true → p.1.mSuspended = false) →
        (c.disable a h).1.enabledCount + (c.disable a h).2.told = c.enabledCount) := by
  cases hat : c.handleAt a h with
  | none =>
    have heq : c.disable a h = (c, .unchanged) := by simp only [Chain.disable, hat]
    rw [heq]
    exact ⟨ho, rfl, fun _ => rfl⟩
  | some p =>
    obtain ⟨m, x⟩ := p
    simp only [Chain.disable, hat]
    by_cases hskip : (!x.mHasControl || !x.mEnabled) = true
    · rw [if_pos hskip]
      exact ⟨ho, rfl, fun _ => rfl⟩
    · rw [if_neg hskip]
      obtain ⟨hcontrol, henabled⟩ : x.mHasControl = true ∧ x.mEnabled = true := by
        cases hc : x.mHasControl <;> cases he : x.mEnabled <;> simp_all
      obtain ⟨ho₁, hcount₁⟩ := ho.setHandleEnabled hat hcontrol false
      rw [henabled] at hcount₁
      cases hmark : m.mSuspended with
      | true =>
        rw [if_pos rfl]
        refine ⟨ho₁, rfl, fun hfree => ?_⟩
        rw [hfree _ rfl hcontrol henabled] at hmark
        cases hmark
      | false =>
        rw [if_neg Bool.false_ne_true]
        have halike := (updateEffect_alike (fun e => setEnabled_alike e true false)
          (c.setHandleEnabled a h false) a).trans (Chain.checkSuspendOnEffectEnabled_alike _ m false)
        obtain ⟨ho₂, hcount₂⟩ := ho₁.alike halike
        exact ⟨ho₂, halike.session, fun _ => by rw [hcount₂]; exact hcount₁⟩

/-- An effect is removed. -/
theorem Chain.Orderly.removeEffect (ho : c.Orderly) (hm : m ∈ c.mEffects) :
    (c.removeEffect m.self).Orderly ∧
      (c.removeEffect m.self).enabledCount + m.controlled.toNat = c.enabledCount := by
  have hsub : (c.removeEffect m.self).mEffects.Sublist c.mEffects := List.eraseP_sublist
  refine ⟨⟨ho.selves.sublist (hsub.map _), fun e he => ho.held e (hsub.subset he)⟩, ?_⟩
  rw [Chain.enabledCount_eq, Chain.enabledCount_eq]
  exact KeyedList.sum_erase (KeyedList.lookup_of_mem ho.selves hm) fun e => e.controlled.toNat

/-- The next in line, when the first handle goes, is not being destroyed. -/
def NextInLine (p : Module × Handle) : Prop :=
  p.1.mHandles.head? = some p.2 → ∀ n ∈ p.1.mHandles.tail.head?, n.mDestroyed = false

instance : DecidablePred NextInLine := fun p =>
  inferInstanceAs (Decidable (p.1.mHandles.head? = some p.2 → _))

/-- A handle is taken from its effect. -/
theorem Chain.Orderly.removeHandle (ho : c.Orderly) (hm : m ∈ c.mEffects) (hx : x ∈ m.mHandles)
    (hnext : NextInLine (m, x)) :
    (c.updateEffect m.self fun e => e.removeHandle x.self).Orderly ∧
      (c.updateEffect m.self fun e => e.removeHandle x.self).enabledCount +
        (if (m.removeHandle x.self).mHandles = [] then x.mEnabled.toNat else 0) = c.enabledCount ∧
      ((m.removeHandle x.self).mHandles = [] → (m.removeHandle x.self).controlled = false) := by
  have hheld := ho.held m hm
  obtain ⟨y, hs, hcons⟩ := List.exists_cons_of_ne_nil (List.ne_nil_of_mem hx)
  by_cases hlast : hs = []
  · subst hlast
    obtain rfl : x = y := by simpa [hcons] using hx
    have hnil := removeHandle_last hcons rfl
    have hgone : (m.removeHandle x.self).controlled = false := by rw [Module.controlled, hnil]; rfl
    obtain ⟨ho', hcount⟩ := ho.write hm (g := fun e => e.removeHandle x.self) (removeHandle_self m _)
      (by rw [hnil]; exact held_nil)
    rw [hgone, hheld.controlled, hcons, asked_cons] at hcount
    rw [if_pos hnil]
    exact ⟨ho', hcount, fun _ => hgone⟩
  · have hnodup := hheld.nodup
    obtain ⟨hs', heq, hheld', hne, hasked, -⟩ := @Held.removeHandle hs y m x.self hheld hcons hlast
      fun hself => by
        have hxy : x = y := by
          apply List.inj_on_of_nodup_map hnodup hx _ hself.symm
          rw [hcons]
          exact List.mem_cons_self ..
        rw [NextInLine, hcons, hxy] at hnext
        exact hnext rfl
    have hhandles : (m.removeHandle x.self).mHandles = hs' := by rw [heq]
    obtain ⟨ho', hcount⟩ := ho.write hm (g := fun e => e.removeHandle x.self) (removeHandle_self m _)
      (by rw [hhandles]; exact hheld')
    have hsame : (m.removeHandle x.self).controlled = m.controlled := by
      have hheld'' : Held (m.removeHandle x.self).mHandles := by rw [hhandles]; exact hheld'
      rw [hheld''.controlled, hheld.controlled, hhandles, hasked]
    rw [hsame] at hcount
    rw [if_neg (by rw [hhandles]; exact hne)]
    exact ⟨ho', by omega, fun hnil => absurd (hhandles.symm.trans hnil) hne⟩

theorem mem_updateEffect (hm : m ∈ c.mEffects) (g : Module → Module) :
    g m ∈ (c.updateEffect m.self g).mEffects :=
  List.mem_map.mpr ⟨m, hm, if_pos rfl⟩

theorem Chain.Orderly.disconnect (ho : c.Orderly) (a h : ℕ) (unpinIfLast : Bool)
    (hnext : ∀ p ∈ c.handleAt a h, NextInLine p) :
    (c.disconnect a h unpinIfLast).1.Orderly ∧
      (c.disconnect a h unpinIfLast).1.mSessionId = c.mSessionId ∧
      (c.disconnect a h unpinIfLast).1.enabledCount + (c.disconnect a h unpinIfLast).2.told =
        c.enabledCount := by
  cases hat : c.handleAt a h with
  | none =>
    have heq : c.disconnect a h unpinIfLast = (c, .unchanged) := by simp only [Chain.disconnect, hat]
    rw [heq]
    exact ⟨ho, rfl, rfl⟩
  | some p =>
    obtain ⟨m, x⟩ := p
    simp only [Chain.disconnect, hat]
    obtain ⟨hm, rfl, hx, rfl⟩ := handleAt_some hat
    obtain ⟨ho₁, hcount₁, hgone⟩ := ho.removeHandle hm hx (hnext _ hat)
    generalize hc₁ : (c.updateEffect m.self fun e => e.removeHandle x.self) = c₁ at *
    have hsession : c₁.mSessionId = c.mSessionId := by rw [← hc₁]; rfl
    by_cases hnil : (m.removeHandle x.self).mHandles = []
    · rw [if_pos hnil] at hcount₁ ⊢
      have hmem : m.removeHandle x.self ∈ c₁.mEffects := by
        rw [← hc₁]
        exact mem_updateEffect hm _
      have hremove := ho₁.removeEffect hmem
      rw [removeHandle_self, hgone hnil] at hremove
      generalize hc₂ : (if (!m.mPinned || unpinIfLast) = true then c₁.removeEffect m.self else c₁) = c₂
      obtain ⟨ho₂, hsession₂, hcount₂⟩ : c₂.Orderly ∧ c₂.mSessionId = c.mSessionId ∧
          c₂.enabledCount = c₁.enabledCount := by
        rw [← hc₂]
        split
        · exact ⟨hremove.1, hsession, by simpa using hremove.2⟩
        · exact ⟨ho₁, hsession, rfl⟩
      cases hx : x.mEnabled with
      | false =>
        rw [hx] at hcount₁
        rw [if_neg Bool.false_ne_true]
        exact ⟨ho₂, hsession₂, by rw [← hcount₁, ← hcount₂]; rfl⟩
      | true =>
        rw [hx] at hcount₁
        have hcheck := c₂.checkSuspendOnEffectEnabled_alike m false
        obtain ⟨ho₃, hcount₃⟩ := ho₂.alike hcheck
        rw [if_pos rfl]
        exact ⟨ho₃, hcheck.session.trans hsession₂, by rw [hcount₃, hcount₂]; exact hcount₁⟩
    · rw [if_neg hnil] at hcount₁ ⊢
      exact ⟨ho₁, hsession, hcount₁⟩

/-! ## New handles -/

/-- A handle that is marked for its destruction. -/
def Chain.destroyHandle (a h : ℕ) (c : Chain) : Chain :=
  c.updateEffect a (Module.updateHandle h fun x => { x with mDestroyed := true })

theorem Chain.Orderly.destroyHandle (ho : c.Orderly) (a h : ℕ) :
    (c.destroyHandle a h).Orderly ∧ (c.destroyHandle a h).enabledCount = c.enabledCount := by
  have hwrite : ∀ m : Module, ∀ hs, Held hs → Held (hs.map fun x =>
      if x.self = h then { x with mDestroyed := true } else x) ∧
      ({ m with
          mHandles := hs.map fun x =>
            if x.self = h then { x with mDestroyed := true } else x } : Module).controlled =
        ({ m with mHandles := hs } : Module).controlled := by
    intro m hs hheld
    have hfields : ∀ x : Handle, (if x.self = h then { x with mDestroyed := true } else x).self = x.self ∧
        (if x.self = h then { x with mDestroyed := true } else x).mHasControl = x.mHasControl ∧
        (if x.self = h then { x with mDestroyed := true } else x).mEnabled = x.mEnabled := by
      intro x
      split <;> exact ⟨rfl, rfl, rfl⟩
    refine ⟨⟨?_, ?_⟩, ?_⟩
    · cases hs with
      | nil => trivial
      | cons x hs =>
        refine ⟨(hfields x).2.1.trans hheld.headed.1, fun y hy => ?_⟩
        obtain ⟨z, hz, rfl⟩ := List.mem_map.mp hy
        exact (hfields z).2.1.trans (hheld.headed.2 z hz)
    · rw [List.map_map]
      have hself : hs.map (Handle.self ∘ fun x => if x.self = h then { x with mDestroyed := true } else x) =
          hs.map Handle.self := List.map_congr_left fun x _ => (hfields x).1
      rw [hself]
      exact hheld.nodup
    · simp only [Module.controlled, List.any_map]
      congr 1
      funext x
      simp only [Function.comp, (hfields x).2.1, (hfields x).2.2]
  refine ho.writeAt a (fun _ _ _ => rfl) (fun m hm _ => ?_) fun m hm _ => ?_
  · exact (hwrite m m.mHandles (ho.held m hm)).1
  · exact (hwrite m m.mHandles (ho.held m hm)).2

theorem Chain.Orderly.createEffect {r : Request} (ho : c.Orderly)
    (hself : ∀ e ∈ c.mEffects, e.self ≠ r.self)
    (hhandle : ∀ e ∈ c.mEffects, r.handle ∉ e.mHandles.map Handle.self)
    (hcreate : c.createEffect r = some c') :
    c'.Orderly ∧ c'.mSessionId = c.mSessionId ∧ c'.enabledCount = c.enabledCount := by
  rw [Chain.createEffect] at hcreate
  split at hcreate
  next e he =>
    have hmem : e ∈ c.mEffects := List.mem_of_find?_eq_some he
    cases hcreate
    have hadd : ∀ m ∈ c.mEffects, Held (m.addHandle (.new r.handle r.priority)).mHandles ∧
        (m.addHandle (.new r.handle r.priority)).controlled = m.controlled := by
      intro m hm
      have hheld := ho.held m hm
      obtain ⟨hheld', hasked⟩ := hheld.addHandle (h := .new r.handle r.priority) rfl (hhandle m hm)
      exact ⟨hheld', by rw [hheld'.controlled, hheld.controlled, hasked]⟩
    obtain ⟨ho', hcount⟩ := ho.writeAt e.self (g := fun m => m.addHandle (.new r.handle r.priority))
      (fun m _ _ => by rw [addHandle_fields]) (fun m hm _ => (hadd m hm).1) fun m hm _ => (hadd m hm).2
    exact ⟨ho', rfl, hcount⟩
  next =>
    split at hcreate
    · obtain ⟨hsession, -, hperm⟩ := addEffect_perm hcreate
      have hnew : ((Module.new r.self r.id c.mSessionId r.desc).addHandle (.new r.handle r.priority)).mHandles
          = [(Handle.new r.handle r.priority).setControl true false] := by
        have hcases := addHandle_cases (e := Module.new r.self r.id c.mSessionId r.desc) List.nodup_nil
          (.new r.handle r.priority)
        rcases hcases with ⟨-, hadd⟩ | ⟨c, hs, hcons, -⟩ | ⟨c, hs, i, hcons, -⟩
        · exact hadd
        · cases hcons
        · cases hcons
      refine ⟨⟨?_, ?_⟩, hsession, ?_⟩
      · rw [(hperm.map Module.self).nodup_iff, List.map_cons, List.nodup_cons, addHandle_fields]
        refine ⟨fun hmem => ?_, ho.selves⟩
        obtain ⟨e, he, heq⟩ := List.mem_map.mp hmem
        exact hself e he heq
      · intro e he
        rcases List.mem_cons.mp (hperm.mem_iff.mp he) with rfl | he
        · rw [hnew]
          exact ⟨⟨rfl, by simp⟩, by simp⟩
        · exact ho.held e he
      · rw [Chain.enabledCount, hperm.countP_eq, List.countP_cons, Module.controlled, hnew]
        rfl
    · cases hcreate

end AudioFlinger.Effects
