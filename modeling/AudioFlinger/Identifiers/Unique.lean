import AudioFlinger.Identifiers.Model
import Mathlib.Data.List.Nodup

/-!
# Unique ids

Where every id is drawn afresh, a map never loses a live entry, an io handle names one open
thread and the id of an effect finds no other effect. `nextUniqueId` gives the same
id again and again, so that this holds of the runs that draw at most one.
-/

namespace AudioFlinger.Identifiers

open Foundation

namespace Flinger

variable {next : List ℤ → ℤ} {w w' : Flinger} {e : Event}

/-! ## What the ids are for -/

/-- What a client relies on. -/
structure Unique (w : Flinger) : Prop where
  drawn : w.drawn.Nodup
  loaded : ∀ p ∈ w.loaded, w.mAudioHwDevs.valueFor p.1 = some p.2
  outputs : ∀ p ∈ w.outputs, w.mPlaybackThreads.valueFor p.1 = some p.2
  inputs : ∀ p ∈ w.inputs, w.mRecordThreads.valueFor p.1 = some p.2
  handles : ∀ p ∈ w.outputs, ∀ q ∈ w.inputs, p.1 ≠ q.1
  effects : ∀ g ∈ w.created, ∀ c ∈ w.chains, ∀ e ∈ c.getEffectFromId_l g.id, e = g
  names : ∀ r ∈ w.reused, r.1 = r.2

/-- The module that answers by name has just this name. -/
def exact (w : Flinger) : Event → Prop
  | .loadHwModule name _ => ∀ p ∈ w.moduleFor name, p.2.moduleName = name
  | _ => True

instance (w : Flinger) (e : Event) : Decidable (w.exact e) := by
  cases e <;> unfold exact <;> infer_instance

/-- Ids are drawn afresh, and modules are found by their names. -/
def Fresh (next : List ℤ → ℤ) (w : Flinger) (e : Event) : Prop :=
  (w.draws e = true → next w.drawn ∉ w.drawn) ∧ w.exact e

/-- No second id is drawn, and modules are found by their names. -/
def Sound (w : Flinger) (e : Event) : Prop := (w.draws e = true → w.drawn = []) ∧ w.exact e

instance (w : Flinger) (e : Event) : Decidable (w.Sound e) :=
  inferInstanceAs (Decidable ((w.draws e = true → w.drawn = []) ∧ w.exact e))

/-! ## Logs only grow -/

theorem loadHwModule_drawn (next : List ℤ → ℤ) (name : Name) (loads : Bool) (w : Flinger) :
    (w.loadHwModule next name loads).drawn =
      if w.draws (.loadHwModule name loads) then next w.drawn :: w.drawn else w.drawn := by
  cases hfound : w.moduleFor name with
  | some p => simp [loadHwModule, draws, hfound]
  | none => cases loads <;> simp [loadHwModule, draws, hfound, addModule, draw]

theorem openOutput_drawn (next : List ℤ → ℤ) (module : ℤ) (supports : ℕ → Bool) (opened : Option ThreadType)
    (w : Flinger) :
    (w.openOutput next module supports opened).drawn =
      if w.draws (.openOutput module supports opened) then next w.drawn :: w.drawn else w.drawn := by
  cases hfound : w.findSuitableHwDev_l module supports with
  | none => simp [openOutput, draws, hfound]
  | some dev => cases opened <;> simp [openOutput, draws, hfound, addOutput, draw]

theorem openInput_drawn (next : List ℤ → ℤ) (module : ℤ) (supports : ℕ → Bool) (opened : Bool)
    (w : Flinger) :
    (w.openInput next module supports opened).drawn =
      if w.draws (.openInput module supports opened) then next w.drawn :: w.drawn else w.drawn := by
  cases hfound : w.findSuitableHwDev_l module supports with
  | none => simp [openInput, draws, hfound]
  | some dev => cases opened <;> simp [openInput, draws, hfound, addInput, draw]

theorem createEffect_drawn (next : List ℤ → ℤ) (io sessionId : ℤ) (uuid : ℕ) (accepted registered : Bool)
    (position : ℕ) (w : Flinger) :
    (w.createEffect next io sessionId uuid accepted registered position).drawn =
      if w.draws (.createEffect io sessionId uuid accepted registered position) then next w.drawn :: w.drawn
      else w.drawn := by
  cases hthread : w.effectThread io with
  | none => simp [createEffect, draws, hthread]
  | some t =>
    simp only [createEffect, draws, hthread, Option.any_some]
    split
    · cases registered <;> simp [addEffect, draw]
    · rfl

theorem closeOutput_drawn (output : ℤ) (w : Flinger) : (w.closeOutput output).drawn = w.drawn := by
  rw [closeOutput]
  cases w.checkPlaybackThread_l output <;> rfl

theorem closeInput_drawn (input : ℤ) (w : Flinger) : (w.closeInput input).drawn = w.drawn := by
  rw [closeInput]
  cases w.checkRecordThread_l input <;> rfl

/-- A call draws the next id or none. -/
theorem step_drawn (hstep : w.step next e = some w') :
    w'.drawn = if w.draws e then next w.drawn :: w.drawn else w.drawn := by
  cases e with
  | loadHwModule name loads =>
    cases hstep
    exact loadHwModule_drawn next name loads w
  | openOutput module supports opened =>
    cases hstep
    exact openOutput_drawn next module supports opened w
  | openDuplicateOutput output1 output2 =>
    cases hstep
    rw [openDuplicateOutput, draws]
    split <;> rfl
  | closeOutput output =>
    cases hstep
    exact closeOutput_drawn output w
  | openInput module supports opened =>
    cases hstep
    exact openInput_drawn next module supports opened w
  | closeInput input =>
    cases hstep
    exact closeInput_drawn input w
  | newAudioSessionId =>
    cases hstep
    rfl
  | createTrack output hasSession =>
    cases hstep
    rw [session, draws]
    split <;> rfl
  | openRecord input hasSession =>
    cases hstep
    rw [session, draws]
    split <;> rfl
  | createEffect io sessionId uuid accepted registered position =>
    cases hstep
    exact createEffect_drawn next io sessionId uuid accepted registered position w
  | removeEffect effect =>
    cases hstep
    rfl

/-- What a call adds to the log of modules found by name. -/
def reuses (w : Flinger) : Event → List (Name × Name)
  | .loadHwModule name _ => (w.moduleFor name).toList.map fun p => (name, p.2.moduleName)
  | _ => []

theorem exact_iff : w.exact e ↔ ∀ r ∈ w.reuses e, r.1 = r.2 := by
  cases e with
  | loadHwModule name loads =>
    rw [exact, reuses]
    cases w.moduleFor name with
    | none => simp
    | some p => simp [eq_comm]
  | _ => simp [exact, reuses]

theorem step_reused (hstep : w.step next e = some w') : w'.reused = w.reuses e ++ w.reused := by
  cases e with
  | loadHwModule name loads =>
    cases hstep
    rw [loadHwModule, reuses]
    cases w.moduleFor name with
    | some p => rfl
    | none => cases loads <;> rfl
  | openOutput module supports opened =>
    cases hstep
    rw [openOutput.eq_def]
    cases w.findSuitableHwDev_l module supports with
    | none => rfl
    | some dev => cases opened <;> rfl
  | openDuplicateOutput output1 output2 =>
    cases hstep
    rw [openDuplicateOutput]
    split <;> rfl
  | closeOutput output =>
    cases hstep
    rw [closeOutput]
    cases w.checkPlaybackThread_l output <;> rfl
  | openInput module supports opened =>
    cases hstep
    rw [openInput.eq_def]
    cases w.findSuitableHwDev_l module supports with
    | none => rfl
    | some dev => cases opened <;> rfl
  | closeInput input =>
    cases hstep
    rw [closeInput]
    cases w.checkRecordThread_l input <;> rfl
  | newAudioSessionId =>
    cases hstep
    rfl
  | createTrack output hasSession =>
    cases hstep
    rw [session]
    split <;> rfl
  | openRecord input hasSession =>
    cases hstep
    rw [session]
    split <;> rfl
  | createEffect io sessionId uuid accepted registered position =>
    cases hstep
    rw [createEffect]
    cases w.effectThread io with
    | none => rfl
    | some t =>
      dsimp only
      split
      · cases registered <;> rfl
      · rfl
  | removeEffect effect =>
    cases hstep
    rfl

theorem run_suffix {es : List Event} (hrun : Machine.run (step next) w es = some w') :
    w.drawn <:+ w'.drawn ∧ w.reused <:+ w'.reused := by
  refine Machine.run_invariant (I := fun m => w.drawn <:+ m.drawn ∧ w.reused <:+ m.reused)
    (fun m e m' hstep hm => ?_) hrun ⟨List.suffix_rfl, List.suffix_rfl⟩
  constructor
  · refine hm.1.trans ?_
    rw [step_drawn hstep]
    split
    · exact List.suffix_cons _ _
    · exact List.suffix_rfl
  · refine hm.2.trans ?_
    rw [step_reused hstep]
    exact List.suffix_append _ _

/-- If the ids of a run are distinct, each was drawn afresh. -/
theorem along_fresh {es : List Event} (hrun : Machine.run (step next) w es = some w') (hdrawn : w'.drawn.Nodup)
    (hnames : ∀ r ∈ w'.reused, r.1 = r.2) : Machine.Along (step next) (Fresh next) w es := by
  induction es generalizing w with
  | nil => trivial
  | cons e es ih =>
    obtain ⟨m, hm, hrest⟩ := Machine.run_cons_some.mp hrun
    have hsuffix := run_suffix hrest
    refine ⟨⟨fun hdraws => ?_, ?_⟩, fun m' hm' => ?_⟩
    · have hnodup := hdrawn.sublist hsuffix.1.sublist
      rw [step_drawn hm, if_pos hdraws] at hnodup
      exact (List.nodup_cons.mp hnodup).1
    · rw [exact_iff]
      intro r hr
      refine hnames r (hsuffix.2.subset ?_)
      rw [step_reused hm]
      exact List.mem_append_left _ hr
    · cases hm.symm.trans hm'
      exact ih hrest

/-! ## Fresh ids -/

/-- The entries of a log are those of the map, and their keys were drawn. -/
structure Kept {β : Type} (drawn : List ℤ) (v : KeyedVector ℤ β) (log : List (ℤ × β)) : Prop where
  entry : ∀ p ∈ log, v.valueFor p.1 = some p.2
  key : ∀ k x, v.valueFor k = some x → k ∈ drawn

namespace Kept

variable {β : Type} {drawn : List ℤ} {v : KeyedVector ℤ β} {log : List (ℤ × β)} {k : ℤ} {x : β}

theorem empty (drawn : List ℤ) : Kept drawn (.empty : KeyedVector ℤ β) [] where
  entry := nofun
  key := nofun

theorem mono (h : Kept drawn v log) (k : ℤ) : Kept (k :: drawn) v log where
  entry := h.entry
  key k' x hx := List.mem_cons_of_mem _ (h.key k' x hx)

/-- A fresh key takes no entry away. -/
theorem add (h : Kept drawn v log) (hk : k ∉ drawn) : Kept (k :: drawn) (v.add k x) ((k, x) :: log) where
  entry p hp := by
    rcases List.mem_cons.mp hp with rfl | hp
    · exact KeyedVector.valueFor_add_self
    · have hold := h.entry p hp
      rw [KeyedVector.valueFor_add_of_ne, hold]
      rintro rfl
      exact hk (h.key _ _ hold)
  key k' y hy := by
    rw [KeyedVector.valueFor_add] at hy
    split at hy
    next heq => exact heq ▸ List.mem_cons_self
    next hne => exact List.mem_cons_of_mem _ (h.key k' y hy)

theorem remove [DecidableEq β] (h : Kept drawn v log) (hx : v.valueFor k = some x) :
    Kept drawn (v.removeItem k) (log.filter fun p => p.2 ≠ x) where
  entry p hp := by
    obtain ⟨hmem, hne⟩ := List.mem_filter.mp hp
    have hold := h.entry p hmem
    rw [KeyedVector.valueFor_removeItem_of_ne, hold]
    rintro rfl
    rw [hx] at hold
    exact of_decide_eq_true hne (Option.some.inj hold).symm
  key k' y hy := by
    rw [KeyedVector.valueFor_removeItem] at hy
    split at hy
    · cases hy
    · exact h.key k' y hy

end Kept

/-- The effects in the chains are among those created, each under an id of its own. -/
structure Named (drawn : List ℤ) (created : List Effect) (chains : List Chain) : Prop where
  ids : (created.map Effect.id).Nodup
  drawn : ∀ g ∈ created, g.id ∈ drawn ∧ g.id ≠ 0
  members : ∀ c ∈ chains, ∀ e ∈ c.mEffects, e ∈ created

namespace Named

variable {drawn : List ℤ} {created : List Effect} {chains chains' : List Chain}

theorem mono (h : Named drawn created chains) (k : ℤ) : Named (k :: drawn) created chains where
  ids := h.ids
  drawn g hg := ⟨List.mem_cons_of_mem _ (h.drawn g hg).1, (h.drawn g hg).2⟩
  members := h.members

/-- An id finds the effect that it was given to. -/
theorem found (h : Named drawn created chains) {g e : Effect} {c : Chain} (hg : g ∈ created) (hc : c ∈ chains)
    (he : c.getEffectFromId_l g.id = some e) : e = g := by
  have hmem : e ∈ created := h.members c hc e (List.mem_of_find?_eq_some he)
  have hid : e.id = g.id := by
    have htest := List.find?_some he
    simpa [(h.drawn g hg).2] using htest
  exact List.inj_on_of_nodup_map h.ids hmem hg hid

theorem create (h : Named drawn created chains) {g : Effect} (hfresh : g.id ∉ drawn) (hzero : g.id ≠ 0)
    (hmembers : ∀ c ∈ chains', ∀ e ∈ c.mEffects, e = g ∨ e ∈ created) :
    Named (g.id :: drawn) (g :: created) chains' where
  ids := by
    rw [List.map_cons, List.nodup_cons]
    refine ⟨fun hmem => ?_, h.ids⟩
    obtain ⟨e, he, hid⟩ := List.mem_map.mp hmem
    exact hfresh (hid ▸ (h.drawn e he).1)
  drawn e he := by
    rcases List.mem_cons.mp he with rfl | he
    · exact ⟨List.mem_cons_self, hzero⟩
    · exact ⟨List.mem_cons_of_mem _ (h.drawn e he).1, (h.drawn e he).2⟩
  members c hc e he := List.mem_cons.mpr (hmembers c hc e he)

end Named

/-- Of every reachable state, where ids are drawn afresh. -/
structure Consistent (w : Flinger) : Prop where
  drawn : w.drawn.Nodup
  loaded : Kept w.drawn w.mAudioHwDevs w.loaded
  outputs : Kept w.drawn w.mPlaybackThreads w.outputs
  inputs : Kept w.drawn w.mRecordThreads w.inputs
  apart : ∀ k, w.mPlaybackThreads.valueFor k = none ∨ w.mRecordThreads.valueFor k = none
  effects : Named w.drawn w.created w.chains
  names : ∀ r ∈ w.reused, r.1 = r.2

theorem consistent_new : Consistent new where
  drawn := List.nodup_nil
  loaded := .empty _
  outputs := .empty _
  inputs := .empty _
  apart _ := .inl rfl
  effects := ⟨List.nodup_nil, nofun, nofun⟩
  names := nofun

namespace Consistent

theorem unique (h : w.Consistent) : w.Unique where
  drawn := h.drawn
  loaded := h.loaded.entry
  outputs := h.outputs.entry
  inputs := h.inputs.entry
  handles p hp q hq heq := by
    have hout := h.outputs.entry p hp
    have hin := h.inputs.entry q hq
    rcases h.apart p.1 with hnone | hnone
    · rw [hnone] at hout
      cases hout
    · rw [heq, hin] at hnone
      cases hnone
  effects g hg c hc e he := h.effects.found hg hc he
  names := h.names

variable (h : w.Consistent) (hfresh : next w.drawn ∉ w.drawn)

include h hfresh

theorem draw : (w.draw next).Consistent where
  drawn := List.nodup_cons.mpr ⟨hfresh, h.drawn⟩
  loaded := h.loaded.mono _
  outputs := h.outputs.mono _
  inputs := h.inputs.mono _
  apart := h.apart
  effects := h.effects.mono _
  names := h.names

theorem addModule (name : Name) : (w.addModule next name).Consistent :=
  { h.draw hfresh with loaded := h.loaded.add hfresh }

theorem addOutput (type : ThreadType) : (w.addOutput next type).Consistent :=
  { h.draw hfresh with
    outputs := h.outputs.add hfresh
    apart := fun k => by
      by_cases hk : k = next w.drawn
      · refine .inr (Option.eq_none_iff_forall_ne_some.mpr fun t ht => hfresh ?_)
        exact hk ▸ h.inputs.key k t ht
      · refine (h.apart k).imp_left fun hnone => ?_
        exact (KeyedVector.valueFor_add_of_ne hk).trans hnone }

theorem addInput : (w.addInput next).Consistent :=
  { h.draw hfresh with
    inputs := h.inputs.add hfresh
    apart := fun k => by
      by_cases hk : k = next w.drawn
      · refine .inl (Option.eq_none_iff_forall_ne_some.mpr fun t ht => hfresh ?_)
        exact hk ▸ h.outputs.key k t ht
      · refine (h.apart k).imp_right fun hnone => ?_
        exact (KeyedVector.valueFor_add_of_ne hk).trans hnone }

theorem addEffect (hzero : next w.drawn ≠ 0) (t : Thread) (sessionId : ℤ) (uuid position : ℕ) :
    (w.addEffect next t sessionId uuid position).Consistent :=
  { h.draw hfresh with
    effects := h.effects.create (g := ⟨next w.drawn, w.addresses, uuid⟩) hfresh hzero fun c hc e he => by
      cases hfound : w.getEffectChain_l t sessionId with
      | none =>
        simp only [Flinger.addEffect, hfound] at hc
        rcases List.mem_cons.mp hc with rfl | hc
        · exact .inl (List.mem_singleton.mp he)
        · exact .inr (h.effects.members c hc e he)
      | some d =>
        simp only [Flinger.addEffect, hfound] at hc
        rcases List.mem_cons.mp hc with rfl | hc
        · exact (List.eq_or_mem_of_mem_insertIdx he).imp_right
            (h.effects.members d (List.mem_of_find?_eq_some hfound) e)
        · exact .inr (h.effects.members c (List.mem_of_mem_erase hc) e he) }

end Consistent

theorem Consistent.step (h : w.Consistent) (hzero : next w.drawn ≠ 0) (hok : Fresh next w e)
    (hstep : w.step next e = some w') : w'.Consistent := by
  obtain ⟨hdraws, hexact⟩ := hok
  cases e with
  | loadHwModule name loads =>
    cases hstep
    simp only [loadHwModule, draws] at hdraws ⊢
    cases hfound : w.moduleFor name with
    | some p =>
      refine { h with names := fun r hr => ?_ }
      rcases List.mem_cons.mp hr with rfl | hr
      · exact (hexact p hfound).symm
      · exact h.names r hr
    | none =>
      cases loads with
      | false => exact h
      | true => exact h.addModule (hdraws (by simp [hfound])) name
  | openOutput module supports opened =>
    cases hstep
    simp only [openOutput, draws] at hdraws ⊢
    cases hfound : w.findSuitableHwDev_l module supports with
    | none => exact h
    | some dev =>
      have hfresh := hdraws (by simp [hfound])
      cases opened with
      | none => exact h.draw hfresh
      | some type => exact h.addOutput hfresh type
  | openDuplicateOutput output1 output2 =>
    cases hstep
    simp only [openDuplicateOutput, draws] at hdraws ⊢
    split
    next hboth => exact h.addOutput (hdraws hboth) .duplicating
    next => exact h
  | closeOutput output =>
    cases hstep
    simp only [closeOutput, checkPlaybackThread_l]
    cases hfound : w.mPlaybackThreads.valueFor output with
    | none => exact h
    | some t =>
      refine { h with outputs := h.outputs.remove hfound, apart := fun k => ?_ }
      refine (h.apart k).imp_left fun hnone => ?_
      rw [KeyedVector.valueFor_removeItem, hnone, ite_self]
  | openInput module supports opened =>
    cases hstep
    simp only [openInput, draws] at hdraws ⊢
    cases hfound : w.findSuitableHwDev_l module supports with
    | none => exact h
    | some dev =>
      have hfresh := hdraws (by simp [hfound])
      cases opened with
      | false => exact h.draw hfresh
      | true => exact h.addInput hfresh
  | closeInput input =>
    cases hstep
    simp only [closeInput, checkRecordThread_l]
    cases hfound : w.mRecordThreads.valueFor input with
    | none => exact h
    | some t =>
      refine { h with inputs := h.inputs.remove hfound, apart := fun k => ?_ }
      refine (h.apart k).imp_right fun hnone => ?_
      rw [KeyedVector.valueFor_removeItem, hnone, ite_self]
  | newAudioSessionId =>
    cases hstep
    exact h.draw (hdraws rfl)
  | createTrack output hasSession =>
    cases hstep
    simp only [session, draws] at hdraws ⊢
    split
    next hnone => exact h.draw (hdraws hnone)
    next => exact h
  | openRecord input hasSession =>
    cases hstep
    simp only [session, draws] at hdraws ⊢
    split
    next hnone => exact h.draw (hdraws hnone)
    next => exact h
  | createEffect io sessionId uuid accepted registered position =>
    cases hstep
    simp only [createEffect, draws] at hdraws ⊢
    cases hthread : w.effectThread io with
    | none => exact h
    | some t =>
      dsimp only
      split
      next hnew =>
        have hfresh := hdraws (by simpa [hthread] using hnew)
        cases registered with
        | false => exact h.draw hfresh
        | true => exact h.addEffect hfresh hzero t sessionId uuid position
      next => exact h
  | removeEffect effect =>
    cases hstep
    refine { h with effects := { h.effects with members := fun c hc e he => ?_ } }
    obtain ⟨d, hd, rfl⟩ := List.mem_map.mp (List.mem_filter.mp hc).1
    exact h.effects.members d hd e (List.mem_filter.mp he).1

/-- A client can rely on the ids exactly where each is drawn afresh. -/
theorem unique_iff_fresh (hzero : ∀ drawn, next drawn ≠ 0) {es : List Event}
    (hrun : Machine.run (step next) new es = some w) : w.Unique ↔ Machine.Along (step next) (Fresh next) new es := by
  constructor
  · intro h
    exact along_fresh hrun h.drawn h.names
  · intro hok
    have hconsistent : w.Consistent :=
      Machine.run_invariant_along (fun m _ _ hok hstep h => Consistent.step h (hzero m.drawn) hok hstep) hok hrun
        consistent_new
    exact hconsistent.unique

/-! ## One id for all -/

/-- With the ids of `nextUniqueId` only the first one is fresh. -/
theorem fresh_iff_sound (hids : ∀ k ∈ w.drawn, k = 1) : Fresh nextUniqueId w e ↔ w.Sound e := by
  have hempty : nextUniqueId w.drawn ∉ w.drawn ↔ w.drawn = [] := by
    constructor
    · intro hfresh
      refine List.eq_nil_iff_forall_not_mem.mpr fun k hk => hfresh ?_
      have hone : nextUniqueId w.drawn = k := (hids k hk).symm
      rw [hone]
      exact hk
    · intro hnil
      rw [hnil]
      exact List.not_mem_nil
  rw [Fresh, Sound, hempty]

/-- The ids are unique, and what rests on them holds, exactly where no second id is drawn and modules are
found by their names. -/
theorem unique_iff (es : List Event) (w : Flinger) (hrun : Machine.run (step nextUniqueId) new es = some w) :
    w.Unique ↔ Machine.Along (step nextUniqueId) Sound new es := by
  have hagree : Machine.Along (step nextUniqueId) (Fresh nextUniqueId) new es ↔
      Machine.Along (step nextUniqueId) Sound new es := by
    refine Machine.along_iff (I := fun w => ∀ k ∈ w.drawn, k = 1) (fun _ _ hids => fresh_iff_sound hids)
      (fun w e w' _ hstep hids => ?_) nofun es
    rw [step_drawn hstep]
    split
    · exact List.forall_mem_cons.mpr ⟨rfl, hids⟩
    · exact hids
  exact (unique_iff_fresh (fun _ => one_ne_zero) hrun).trans hagree

/-- One module is loaded, and asked for once more. -/
def oneModule : List Event :=
  [.loadHwModule ['u', 's', 'b'] true, .loadHwModule ['u', 's', 'b'] true, .createTrack 5 false, .closeOutput 1]

theorem unique_iff_oneModule : ∃ w, Machine.run (step nextUniqueId) new oneModule = some w ∧ w.Unique := by
  have hrun := Option.eq_some_of_isSome
    (by decide : (Machine.run (step nextUniqueId) new oneModule).isSome = true)
  exact ⟨_, hrun, (unique_iff _ _ hrun).mpr (by decide)⟩

/-- Two modules get one handle, and the second takes the place of the first. -/
theorem replaced : ∃ w, Machine.run (step nextUniqueId) new
      [.loadHwModule ['u', 's', 'b'] true, .loadHwModule ['a', '2', 'd', 'p'] true] = some w ∧
    w.drawn = [1, 1] ∧ (1, ⟨['u', 's', 'b'], 0⟩) ∈ w.loaded ∧
      w.mAudioHwDevs.items = [(1, ⟨['a', '2', 'd', 'p'], 1⟩)] ∧ ¬ w.Unique := by
  have hrun := Option.eq_some_of_isSome
    (by decide : (Machine.run (step nextUniqueId) new
      [.loadHwModule ['u', 's', 'b'] true, .loadHwModule ['a', '2', 'd', 'p'] true]).isSome = true)
  refine ⟨_, hrun, by decide, by decide, by decide, fun h => ?_⟩
  exact absurd h.drawn (by decide)

end Flinger

end AudioFlinger.Identifiers
