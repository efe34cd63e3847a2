import AudioFlinger.Effects.Handles
import AudioFlinger.Foundation.Lists

/-!
# The handles of an effect over time

Handles come and go with any priorities, and some are listed while they are being
destroyed. `addHandle` passes over those when it compares priorities, and hands
control over at index 0 only; `removeHandle` hands it to the first that is not
being destroyed, at whatever index that one is, although `command` and
`setEnabled_l` take the handle at index 0 for the one in control.
-/

namespace AudioFlinger.Effects

open Foundation Machine

namespace Module

/-- The handles that the loops of `command` and `setEnabled_l` go through. -/
def others (e : Module) : List Handle := (e.mHandles.drop 1).filter fun h => !h.mDestroyed

/-- Mark the handle, as its destructor does. -/
def destroyHandle (self : ℕ) (e : Module) : Module :=
  e.updateHandle self fun h => { h with mDestroyed := true }

/-- `EffectHandle::enable`; `suspends` is whether `checkSuspendOnEffectEnabled` suspends the
effect. -/
def enableHandle (suspends policy : Bool) (self : ℕ) (e : Module) : Module :=
  match e.mHandles.find? fun h => h.self = self with
  | none => e
  | some h =>
    if !h.mHasControl || h.mEnabled then e
    else
      let e := e.updateHandle self fun h => { h with mEnabled := true }
      let e := if suspends then e.suspend else e
      if e.mSuspended then e
      else if (e.setEnabled policy true).2 then (e.setEnabled policy true).1
      else e.updateHandle self fun h => { h with mEnabled := false }

/-- `EffectHandle::disable`. -/
def disableHandle (self : ℕ) (e : Module) : Module :=
  match e.mHandles.find? fun h => h.self = self with
  | none => e
  | some h =>
    if !h.mHasControl || !h.mEnabled then e
    else
      let e := e.updateHandle self fun h => { h with mEnabled := false }
      if e.mSuspended then e else (e.setEnabled true false).1

end Module

/-- An effect; what the handle in control asked for last, which is nothing once there are no
handles; and when each handle came. -/
structure HandleSession where
  module : Module
  enabled : Bool
  since : ℕ → ℕ
  clock : ℕ

inductive HandleEvent
  | addHandle (self : ℕ) (priority : ℤ)
  | destroy (self : ℕ)
  | removeHandle (self : ℕ)
  | enable (self : ℕ) (suspends policy : Bool)
  | disable (self : ℕ)
  | setEnabled (policy enabled : Bool)
  | setSuspended (suspended : Bool)

namespace HandleSession

/-- An effect that was just created. -/
def start (self : ℕ) (id sessionId : ℤ) (desc : Descriptor) : HandleSession :=
  ⟨Module.new self id sessionId desc, false, fun _ => 0, 0⟩

/-- The handle in control has changed what it asks for. -/
def reask (e : Module) (s : HandleSession) : HandleSession :=
  { s with
    module := e
    enabled := ((e.mHandles.find? Handle.mHasControl).map Handle.mEnabled).getD s.enabled }

/-- A handle is added once, at an address of its own. -/
def step (s : HandleSession) : HandleEvent → Option HandleSession
  | .addHandle self priority =>
    if self ∈ s.module.mHandles.map Handle.self then none
    else
      some
        { s with
          module := s.module.addHandle (Handle.new self priority)
          since := Function.update s.since self s.clock
          clock := s.clock + 1 }
  | .destroy self => some { s with module := s.module.destroyHandle self }
  | .removeHandle self =>
    some
      { s with
        module := s.module.removeHandle self
        enabled := (s.module.removeHandle self).mHandles ≠ [] && s.enabled }
  | .enable self suspends policy => some (s.reask (s.module.enableHandle suspends policy self))
  | .disable self => some (s.reask (s.module.disableHandle self))
  | .setEnabled policy enabled => some { s with module := (s.module.setEnabled policy enabled).1 }
  | .setSuspended suspended => some { s with module := s.module.setSuspended suspended }

/-- Two live handles in their order: by priority, and the later one first. -/
def Before (since : ℕ → ℕ) (a b : Handle) : Prop :=
  a.mDestroyed = false → b.mDestroyed = false →
    b.mPriority < a.mPriority ∨ b.mPriority = a.mPriority ∧ since b.self < since a.self

structure Orderly (s : HandleSession) : Prop where
  ordered : s.module.mHandles.Pairwise (Before s.since)
  single : (s.module.mHandles.filter Handle.mHasControl).length ≤ 1
  first : ∀ h ∈ s.module.mHandles.head?, h.mDestroyed = false → h.mHasControl = true
  passes : ∀ h ∈ s.module.mHandles, h.mHasControl = true → h.mEnabled = s.enabled
  told : s.module.others = s.module.mHandles.filter fun h => !h.mDestroyed && !h.mHasControl

/-- What follows a handle that leaves index 0: one that is not being destroyed, and then the
handle asks for what was asked for last; or none but handles that are being destroyed. -/
def Leaves (enabled : Bool) (c : Handle) : List Handle → Prop
  | [] => True
  | n :: hs => if n.mDestroyed then ∀ h ∈ hs, h.mDestroyed = true else c.mEnabled = enabled

/-- Where the handle at index 0 is removed, control goes to index 0. -/
def Passes (s : HandleSession) : HandleEvent → Prop
  | .removeHandle self =>
    ∀ c ∈ s.module.mHandles.head?, c.self = self → Leaves s.enabled c s.module.mHandles.tail
  | _ => True

/-! ## The invariant -/

/-- The first handle is being destroyed, and nobody is in control. -/
def Parked (hs : List Handle) : Prop :=
  (∃ c rest, hs = c :: rest ∧ c.mDestroyed = true) ∧ ∀ h ∈ hs, h.mHasControl = false

structure Inv (s : HandleSession) : Prop where
  nodup : (s.module.mHandles.map Handle.self).Nodup
  came : ∀ h ∈ s.module.mHandles, s.since h.self < s.clock
  ordered : s.module.mHandles.Pairwise (Before s.since)
  control : Headed s.module.mHandles ∧ asked s.module.mHandles = s.enabled ∨
    Parked s.module.mHandles

variable {s s' : HandleSession} {hs rest : List Handle} {c h n : Handle} {e : Module} {a : ℕ}

theorem filter_control_of_none (hnone : ∀ h ∈ hs, h.mHasControl = false) :
    hs.filter Handle.mHasControl = [] := by
  refine List.filter_eq_nil_iff.mpr fun h hh => ?_
  rw [hnone h hh]
  exact Bool.false_ne_true

/-- Where nobody is in control, all live handles wait. -/
theorem filter_waiting_of_none (hnone : ∀ h ∈ hs, h.mHasControl = false) :
    (hs.filter fun h => !h.mDestroyed && !h.mHasControl) = hs.filter fun h => !h.mDestroyed := by
  refine List.filter_congr fun h hh => ?_
  rw [hnone h hh, Bool.not_false, Bool.and_true]

theorem Inv.orderly (hinv : s.Inv) : s.Orderly := by
  rcases hinv.control with ⟨hheaded, hasked⟩ | ⟨⟨c, rest, hhs, hd⟩, hnone⟩
  · rcases hhs : s.module.mHandles with _ | ⟨c, rest⟩
    · exact ⟨hinv.ordered, by simp [hhs], by simp [hhs], by simp [hhs],
        by simp [Module.others, hhs]⟩
    · rw [hhs] at hheaded hasked
      obtain ⟨hc, hrest⟩ := hheaded
      refine ⟨hinv.ordered, ?_, ?_, ?_, ?_⟩
      · rw [hhs, List.filter_cons_of_pos hc, filter_control_of_none hrest]
        exact le_rfl
      · rw [hhs]
        rintro h hh -
        rw [← Option.some_inj.mp hh]
        exact hc
      · rw [hhs]
        intro h hh hcontrol
        rcases List.mem_cons.mp hh with rfl | hh
        · exact hasked
        · rw [hrest h hh] at hcontrol
          cases hcontrol
      · rw [Module.others, hhs, List.filter_cons_of_neg (by simp [hc]),
          filter_waiting_of_none hrest]
        rfl
  · refine ⟨hinv.ordered, ?_, ?_, ?_, ?_⟩
    · rw [filter_control_of_none hnone]
      exact Nat.zero_le 1
    · rw [hhs]
      intro h hh hlive
      rw [← Option.some_inj.mp hh, hd] at hlive
      cases hlive
    · intro h hh hcontrol
      rw [hnone h hh] at hcontrol
      cases hcontrol
    · rw [filter_waiting_of_none hnone, Module.others, hhs, List.filter_cons_of_neg (by simp [hd])]
      rfl

/-! ## The order of the list -/

/-- Changes of handles that keep their places keep the order. -/
theorem ordered_map {since : ℕ → ℕ} (hordered : hs.Pairwise (Before since)) {f : Handle → Handle}
    (hself : ∀ h, (f h).self = h.self) (hpriority : ∀ h, (f h).mPriority = h.mPriority)
    (hlive : ∀ h, (f h).mDestroyed = false → h.mDestroyed = false) :
    (hs.map f).Pairwise (Before since) := by
  refine List.pairwise_map.mpr (hordered.imp ?_)
  intro x y hxy hx hy
  rw [hself, hself, hpriority, hpriority]
  exact hxy (hlive x hx) (hlive y hy)

/-- `addHandle` stops behind the live handles of a higher priority, in front of a live one that has
not got a higher one, or at the end. -/
theorem addHandleLoop_split (priority : ℤ) (hs : List Handle) (i : ℕ) (control : Option Handle) :
    ∃ l₁ l₂, hs = l₁ ++ l₂ ∧ (Module.addHandleLoop priority hs i control).1 = i + l₁.length ∧
      (∀ h ∈ l₁, h.mDestroyed = false → priority < h.mPriority) ∧
      ∀ h ∈ l₂.head?, h.mDestroyed = false ∧ h.mPriority ≤ priority := by
  induction hs generalizing i control with
  | nil => exact ⟨[], [], rfl, rfl, by simp, by simp⟩
  | cons c hs ih =>
    have hpass : ∀ control, (c.mDestroyed = false → priority < c.mPriority) →
        ∃ l₁ l₂, c :: hs = l₁ ++ l₂ ∧
          (Module.addHandleLoop priority hs (i + 1) control).1 = i + l₁.length ∧
          (∀ h ∈ l₁, h.mDestroyed = false → priority < h.mPriority) ∧
          ∀ h ∈ l₂.head?, h.mDestroyed = false ∧ h.mPriority ≤ priority := by
      intro control hc
      obtain ⟨l₁, l₂, rfl, hstop, habove, hnext⟩ := ih (i + 1) control
      refine ⟨c :: l₁, l₂, rfl, ?_, List.forall_mem_cons.mpr ⟨hc, habove⟩, hnext⟩
      rw [hstop, List.length_cons]
      omega
    rw [Module.addHandleLoop]
    by_cases hd : c.mDestroyed = true
    · rw [if_pos hd]
      exact hpass control fun hlive => by rw [hd] at hlive; cases hlive
    · rw [if_neg hd]
      rw [Bool.not_eq_true] at hd
      dsimp only
      by_cases hpriority : c.mPriority ≤ priority
      · rw [if_pos hpriority]
        refine ⟨[], c :: hs, rfl, rfl, by simp, fun h hh => ?_⟩
        rw [← Option.some_inj.mp hh]
        exact ⟨hd, hpriority⟩
      · rw [if_neg hpriority]
        exact hpass _ fun _ => not_le.mp hpriority

/-- Where a new handle is put, the order stays. -/
theorem ordered_insert {since : ℕ → ℕ} {l₁ l₂ : List Handle}
    (hordered : (l₁ ++ l₂).Pairwise (Before since))
    (habove : ∀ x ∈ l₁, x.mDestroyed = false → h.mPriority < x.mPriority)
    (hnext : ∀ x ∈ l₂.head?, x.mDestroyed = false ∧ x.mPriority ≤ h.mPriority)
    (hlast : ∀ x ∈ l₂, since x.self < since h.self) :
    ((l₁ ++ l₂).insertIdx l₁.length h).Pairwise (Before since) := by
  refine Positions.pairwise_insertIdx hordered (fun x hx hxlive _ => .inl (habove x hx hxlive)) ?_
  intro x hx _ hxlive
  have hle : x.mPriority ≤ h.mPriority := by
    rcases l₂ with _ | ⟨y, l₂⟩
    · cases hx
    · obtain ⟨hylive, hy⟩ := hnext y rfl
      have hback := (List.pairwise_append.mp hordered).2.1
      rcases List.mem_cons.mp hx with rfl | hx
      · exact hy
      · rcases (List.pairwise_cons.mp hback).1 x hx hylive hxlive with hlt | ⟨heq, -⟩
        · exact hlt.le.trans hy
        · exact heq.trans_le hy
  rcases hle.lt_or_eq with hlt | heq
  · exact .inl hlt
  · exact .inr ⟨heq, hlast x hx⟩

/-! ## Adding and marking -/

/-- Taking control away changes no place. -/
theorem addHandle_ordered {since : ℕ → ℕ} (hordered : e.mHandles.Pairwise (Before since))
    (hlast : ∀ x ∈ e.mHandles, since x.self < since h.self) :
    (e.addHandle h).mHandles.Pairwise (Before since) := by
  obtain ⟨l₁, l₂, hsplit, hstop, habove, hnext⟩ :=
    addHandleLoop_split h.mPriority e.mHandles 0 none
  have hinsert : ∀ f : Handle → Handle, (∀ x, (f x).self = x.self) →
      (∀ x, (f x).mPriority = x.mPriority) → (∀ x, (f x).mDestroyed = x.mDestroyed) →
      ∀ h' : Handle, h'.self = h.self → h'.mPriority = h.mPriority →
        ((e.mHandles.map f).insertIdx l₁.length h').Pairwise (Before since) := by
    intro f hself hpriority hdestroyed h' hself' hpriority'
    have hmap := ordered_map hordered hself hpriority fun x hx => (hdestroyed x).symm.trans hx
    rw [hsplit, List.map_append] at hmap ⊢
    have hlen : (l₁.map f).length = l₁.length := List.length_map ..
    rw [← hlen]
    refine ordered_insert hmap ?_ ?_ ?_
    · intro x hx hlive
      obtain ⟨y, hy, rfl⟩ := List.mem_map.mp hx
      rw [hpriority', hpriority]
      exact habove y hy ((hdestroyed y).symm.trans hlive)
    · intro x hx
      rw [List.head?_map] at hx
      obtain ⟨y, hy, rfl⟩ := Option.map_eq_some_iff.mp hx
      rw [hdestroyed, hpriority, hpriority']
      exact hnext y hy
    · intro x hx
      obtain ⟨y, hy, rfl⟩ := List.mem_map.mp hx
      rw [hself, hself']
      exact hlast y (by rw [hsplit]; exact List.mem_append_right l₁ hy)
  rw [Nat.zero_add] at hstop
  rw [Module.addHandle]
  dsimp only
  rw [hstop]
  split
  next hzero =>
    dsimp only
    rcases (Module.addHandleLoop h.mPriority e.mHandles 0 none).2 with _ | c
    · have hkeep := hinsert id (fun _ => rfl) (fun _ => rfl) (fun _ => rfl)
      rw [List.map_id] at hkeep
      exact hkeep _ rfl rfl
    · refine hinsert _ (fun x => ?_) (fun x => ?_) (fun x => ?_) _ rfl rfl
      · split_ifs <;> rfl
      · split_ifs <;> rfl
      · split_ifs <;> rfl
  next =>
    have hkeep := hinsert id (fun _ => rfl) (fun _ => rfl) (fun _ => rfl) h rfl rfl
    rw [List.map_id] at hkeep
    exact hkeep

/-- A new handle goes behind one that is being destroyed. -/
theorem addHandle_behind (hhs : e.mHandles = c :: rest) (hd : c.mDestroyed = true) (h : Handle) :
    ∃ i ≤ rest.length, (e.addHandle h).mHandles = c :: rest.insertIdx i h := by
  obtain ⟨l₁, l₂, hsplit, hstop, -, hnext⟩ := addHandleLoop_split h.mPriority e.mHandles 0 none
  rw [hhs] at hsplit
  rcases l₁ with _ | ⟨x, l₁⟩
  · rw [List.nil_append] at hsplit
    rw [← hsplit] at hnext
    have hlive := (hnext c rfl).1
    rw [hd] at hlive
    cases hlive
  · obtain ⟨rfl, rfl⟩ := List.cons.inj hsplit
    refine ⟨l₁.length, (List.sublist_append_left l₁ l₂).length_le, ?_⟩
    rw [Module.addHandle]
    dsimp only
    rw [hstop, Nat.zero_add, List.length_cons, if_neg (Nat.succ_ne_zero _), hhs]
    exact List.insertIdx_succ_cons ..

/-- Up to their order the handles are the old ones and the new one. -/
theorem addHandle_selves (hnodup : (e.mHandles.map Handle.self).Nodup) (h : Handle) :
    ((e.addHandle h).mHandles.map Handle.self).Perm (h.self :: e.mHandles.map Handle.self) := by
  rcases addHandle_cases hnodup h with ⟨hnil, hadd⟩ | ⟨c, hs, hhs, hadd⟩ | ⟨c, hs, i, hhs, hi, hadd⟩
  · rw [hadd, hnil]
    rfl
  · rw [hadd, hhs]
    rfl
  · rw [hadd, hhs]
    exact (((List.perm_insertIdx h hs hi).cons c).trans (List.Perm.swap ..)).map Handle.self

theorem Inv.addHandle (hinv : s.Inv) {priority : ℤ}
    (hfresh : a ∉ s.module.mHandles.map Handle.self) :
    Inv
      { s with
        module := s.module.addHandle (Handle.new a priority)
        since := Function.update s.since a s.clock
        clock := s.clock + 1 } := by
  have hold : ∀ x ∈ s.module.mHandles,
      Function.update s.since a s.clock x.self = s.since x.self := by
    intro x hx
    refine Function.update_of_ne (fun heq => hfresh ?_) _ _
    rw [← heq]
    exact List.mem_map_of_mem hx
  have hnew : Function.update s.since a s.clock a = s.clock := Function.update_self ..
  have hcontrol : Headed (s.module.addHandle (Handle.new a priority)).mHandles ∧
      asked (s.module.addHandle (Handle.new a priority)).mHandles = s.enabled ∨
        Parked (s.module.addHandle (Handle.new a priority)).mHandles := by
    rcases hinv.control with ⟨hheaded, hasked⟩ | ⟨⟨c, rest, hhs, hd⟩, hnone⟩
    · obtain ⟨hheld, hsame⟩ :=
        Held.addHandle (h := Handle.new a priority) ⟨hheaded, hinv.nodup⟩ rfl hfresh
      exact .inl ⟨hheld.headed, hsame.trans hasked⟩
    · obtain ⟨i, hi, hadd⟩ := addHandle_behind hhs hd (Handle.new a priority)
      rw [hadd]
      rw [hhs] at hnone
      obtain ⟨hc, hrest⟩ := List.forall_mem_cons.mp hnone
      refine .inr ⟨⟨c, _, rfl, hd⟩, List.forall_mem_cons.mpr ⟨hc, fun x hx => ?_⟩⟩
      rcases (List.mem_insertIdx hi).mp hx with rfl | hx
      · rfl
      · exact hrest x hx
  have hselves := addHandle_selves hinv.nodup (Handle.new a priority)
  refine ⟨?_, ?_, ?_, hcontrol⟩
  · exact hselves.nodup_iff.mpr (List.nodup_cons.mpr ⟨hfresh, hinv.nodup⟩)
  · intro x hx
    dsimp only
    rcases List.mem_cons.mp (hselves.mem_iff.mp (List.mem_map_of_mem hx)) with hself | hlisted
    · rw [hself]
      exact hnew.trans_lt (Nat.lt_succ_self _)
    · obtain ⟨y, hy, hself⟩ := List.mem_map.mp hlisted
      rw [← hself, hold y hy]
      exact (hinv.came y hy).trans (Nat.lt_succ_self _)
  · refine addHandle_ordered ?_ fun x hx => ?_
    · refine hinv.ordered.imp_of_mem ?_
      intro x y hx hy hxy hxlive hylive
      refine (hxy hxlive hylive).imp_right fun hequal => ⟨hequal.1, ?_⟩
      exact (hold y hy).trans_lt (hequal.2.trans_eq (hold x hx).symm)
    · exact (hold x hx).trans_lt ((hinv.came x hx).trans_eq hnew.symm)

/-- Handles are changed where they are, and what is asked for with them. -/
theorem Inv.map (hinv : s.Inv) {f : Handle → Handle} (hself : ∀ h, (f h).self = h.self)
    (hpriority : ∀ h, (f h).mPriority = h.mPriority)
    (hcontrol : ∀ h, (f h).mHasControl = h.mHasControl)
    (hdestroyed : ∀ h, h.mDestroyed = true → (f h).mDestroyed = true) {e : Module} {enabled : Bool}
    (hhs : e.mHandles = s.module.mHandles.map f)
    (hasked : Headed s.module.mHandles → asked e.mHandles = enabled) :
    Inv { s with module := e, enabled := enabled } := by
  have hselves : e.mHandles.map Handle.self = s.module.mHandles.map Handle.self := by
    rw [hhs, List.map_map]
    exact List.map_congr_left fun h _ => hself h
  refine ⟨?_, ?_, ?_, ?_⟩
  · exact hselves.symm ▸ hinv.nodup
  · dsimp only
    rw [hhs]
    intro x hx
    obtain ⟨y, hy, rfl⟩ := List.mem_map.mp hx
    rw [hself]
    exact hinv.came y hy
  · dsimp only
    rw [hhs]
    refine ordered_map hinv.ordered hself hpriority fun h hlive => ?_
    exact Bool.eq_false_iff.mpr fun hd => by rw [hdestroyed h hd] at hlive; cases hlive
  · rcases hinv.control with ⟨hheaded, -⟩ | ⟨⟨c, rest, hcons, hd⟩, hnone⟩
    · refine .inl ⟨?_, hasked hheaded⟩
      dsimp only
      rw [hhs]
      rcases hcons : s.module.mHandles with _ | ⟨c, rest⟩
      · trivial
      · rw [hcons] at hheaded
        refine ⟨(hcontrol c).trans hheaded.1, fun x hx => ?_⟩
        obtain ⟨y, hy, rfl⟩ := List.mem_map.mp hx
        exact (hcontrol y).trans (hheaded.2 y hy)
    · dsimp only
      rw [hhs]
      refine .inr ⟨⟨f c, rest.map f, by rw [hcons]; rfl, hdestroyed c hd⟩, fun x hx => ?_⟩
      obtain ⟨y, hy, rfl⟩ := List.mem_map.mp hx
      exact (hcontrol y).trans (hnone y hy)

theorem Inv.destroyHandle (hinv : s.Inv) (a : ℕ) :
    Inv { s with module := s.module.destroyHandle a } := by
  refine hinv.map (f := fun h => if h.self = a then { h with mDestroyed := true } else h)
    (fun h => ?_) (fun h => ?_) (fun h => ?_) (fun h hd => ?_) rfl fun hheaded => ?_
  · split_ifs <;> rfl
  · split_ifs <;> rfl
  · split_ifs <;> rfl
  · split_ifs
    · rfl
    · exact hd
  · rcases hinv.control with ⟨-, hasked⟩ | ⟨⟨c, rest, hcons, -⟩, hnone⟩
    · rw [← hasked, Module.destroyHandle, Module.updateHandle]
      rcases s.module.mHandles with _ | ⟨c, rest⟩
      · rfl
      · rw [List.map_cons, asked_cons, asked_cons]
        split_ifs <;> rfl
    · rw [hcons] at hheaded hnone
      have hc := hnone c (List.mem_cons_self ..)
      rw [hheaded.1] at hc
      cases hc

/-! ## Asking -/

theorem setEnabled_mHandles (policy enabled : Bool) (e : Module) :
    (e.setEnabled policy enabled).1.mHandles = e.mHandles := by
  unfold Module.setEnabled
  split_ifs <;> rfl

/-- The handles differ in `mEnabled` only. -/
def Reasks (e e' : Module) : Prop :=
  ∃ f : Handle → Handle, (∀ h, ∃ b, f h = { h with mEnabled := b }) ∧ e'.mHandles = e.mHandles.map f

theorem Reasks.of_eq {e e' : Module} (h : e'.mHandles = e.mHandles) : Reasks e e' :=
  ⟨id, fun h => ⟨h.mEnabled, rfl⟩, h.trans (List.map_id _).symm⟩

theorem Reasks.trans {e₁ e₂ e₃ : Module} (h : Reasks e₁ e₂) (h' : Reasks e₂ e₃) : Reasks e₁ e₃ := by
  obtain ⟨f, hf, hhs⟩ := h
  obtain ⟨g, hg, hhs'⟩ := h'
  refine ⟨g ∘ f, fun x => ?_, by rw [hhs', hhs, List.map_map]⟩
  obtain ⟨b, hb⟩ := hf x
  obtain ⟨b', hb'⟩ := hg (f x)
  exact ⟨b', by rw [Function.comp_apply, hb', hb]⟩

theorem reasks_at (a : ℕ) (b : Bool) (e : Module) :
    Reasks e (e.updateHandle a fun h => { h with mEnabled := b }) := by
  refine ⟨fun h => if h.self = a then { h with mEnabled := b } else h, fun h => ?_, rfl⟩
  dsimp only
  split_ifs
  · exact ⟨b, rfl⟩
  · exact ⟨h.mEnabled, rfl⟩

theorem reasks_enable (suspends policy : Bool) (a : ℕ) (e : Module) :
    Reasks e (e.enableHandle suspends policy a) := by
  unfold Module.enableHandle
  split
  next => exact .of_eq rfl
  next h _ =>
    dsimp only
    have hset := reasks_at a true e
    have hsuspended : Reasks e (if suspends then
        (e.updateHandle a fun h => { h with mEnabled := true }).suspend
        else e.updateHandle a fun h => { h with mEnabled := true }) := by
      split_ifs
      · exact hset.trans (.of_eq (setEnabled_mHandles true false _))
      · exact hset
    generalize (if suspends then (e.updateHandle a fun h => { h with mEnabled := true }).suspend
      else e.updateHandle a fun h => { h with mEnabled := true }) = m at hsuspended
    split_ifs
    · exact .of_eq rfl
    · exact hsuspended
    · exact hsuspended.trans (.of_eq (setEnabled_mHandles policy true m))
    · exact hsuspended.trans (reasks_at a false m)

theorem reasks_disable (a : ℕ) (e : Module) : Reasks e (e.disableHandle a) := by
  have hset := reasks_at a false e
  unfold Module.disableHandle
  split
  next => exact .of_eq rfl
  next h _ =>
    dsimp only
    split_ifs
    · exact .of_eq rfl
    · exact hset
    · exact hset.trans (.of_eq (setEnabled_mHandles true false _))

theorem Inv.reask (hinv : s.Inv) (h : Reasks s.module e) : (s.reask e).Inv := by
  obtain ⟨f, hf, hhs⟩ := h
  have hcontrol : ∀ h, (f h).mHasControl = h.mHasControl := by
    intro h
    obtain ⟨b, hb⟩ := hf h
    rw [hb]
  refine hinv.map (f := f) (fun h => ?_) (fun h => ?_) hcontrol (fun h hd => ?_) hhs
    fun hheaded => ?_
  · obtain ⟨b, hb⟩ := hf h
    rw [hb]
  · obtain ⟨b, hb⟩ := hf h
    rw [hb]
  · obtain ⟨b, hb⟩ := hf h
    rw [hb]
    exact hd
  · rw [hhs]
    rcases hcons : s.module.mHandles with _ | ⟨c, rest⟩
    · rcases hinv.control with ⟨-, hasked⟩ | ⟨⟨c, rest, hcons', -⟩, -⟩
      · rw [hcons] at hasked
        exact hasked
      · rw [hcons] at hcons'
        cases hcons'
    · rw [hcons] at hheaded
      rw [List.map_cons, List.find?_cons_of_pos ((hcontrol c).trans hheaded.1)]
      rfl

/-! ## Removing -/

/-- Nobody is left to be in control. -/
theorem handControl_none (hall : ∀ h ∈ e.mHandles, h.mDestroyed = true) (enabled : Bool) :
    e.handControl enabled = e := by
  have hnone : e.controlHandle = none := by
    rw [Module.controlHandle, List.find?_eq_none]
    intro h hh
    rw [hall h hh]
    exact Bool.false_ne_true
  rw [Module.handControl, hnone]
  rfl

theorem destroyIfUnused_mHandles (e : Module) : e.destroyIfUnused.mHandles = e.mHandles := by
  unfold Module.destroyIfUnused
  split_ifs <;> rfl

/-- The handle at index 0 is removed. -/
theorem removeHandle_first (hhs : s.module.mHandles = c :: rest) (hself : c.self = a) :
    (s.module.removeHandle a).mHandles =
      ({ s.module with mHandles := rest }.handControl c.mEnabled).mHandles := by
  rcases removeHandle_cases hhs a with ⟨hne, -⟩ | ⟨i, hne, -⟩ | ⟨-, heq⟩
  · exact absurd hself hne
  · exact absurd hself hne
  · rw [heq, destroyIfUnused_mHandles]

/-- The next handle has the control. -/
theorem Inv.handed (hinv : s.Inv) (hhs : s.module.mHandles = c :: n :: rest) (hself : c.self = a)
    (hd : ¬ n.mDestroyed = true) :
    (s.module.removeHandle a).mHandles = n.setControl true c.mEnabled :: rest := by
  have hnodup := hinv.nodup
  rw [hhs, List.map_cons] at hnodup
  rw [removeHandle_first hhs hself,
    handControl_cons rfl (Bool.not_eq_true _ ▸ hd) (List.nodup_cons.mp hnodup).2]

/-- Some of the handles are listed no longer. -/
theorem Inv.sub (hinv : s.Inv) {enabled : Bool} (hsub : e.mHandles.Sublist s.module.mHandles)
    (hcontrol : Headed e.mHandles ∧ asked e.mHandles = enabled ∨ Parked e.mHandles) :
    Inv { s with module := e, enabled := enabled } :=
  ⟨hinv.nodup.sublist (hsub.map Handle.self), fun h hh => hinv.came h (hsub.subset hh),
    hinv.ordered.sublist hsub, hcontrol⟩

/-- The next in line takes over at index 0. -/
theorem Inv.next (hinv : s.Inv) (hhs : s.module.mHandles = c :: n :: rest)
    (hnone : ∀ h ∈ rest, h.mHasControl = false) {enabled : Bool}
    (he : e.mHandles = n.setControl true enabled :: rest) :
    Inv { s with module := e, enabled := enabled } := by
  have hnodup := hinv.nodup
  have hcame := hinv.came
  have hordered := hinv.ordered
  rw [hhs] at hnodup hcame hordered
  refine ⟨?_, ?_, ?_, .inl ⟨?_, ?_⟩⟩
  · dsimp only
    rw [he]
    exact (List.nodup_cons.mp hnodup).2
  · dsimp only
    rw [he]
    intro h hh
    rcases List.mem_cons.mp hh with rfl | hh
    · exact hcame n (by simp)
    · exact hcame h (by simp [hh])
  · dsimp only
    rw [he]
    obtain ⟨hn, hrest⟩ := List.pairwise_cons.mp (List.pairwise_cons.mp hordered).2
    exact List.pairwise_cons.mpr ⟨hn, hrest⟩
  · dsimp only
    rw [he]
    exact ⟨rfl, hnone⟩
  · dsimp only
    rw [he]
    rfl

/-- Behind the first handle nobody is in control. -/
theorem Inv.tail_waits (hinv : s.Inv) (hhs : s.module.mHandles = c :: rest) :
    ∀ h ∈ rest, h.mHasControl = false := by
  rcases hinv.control with ⟨hheaded, -⟩ | ⟨-, hnone⟩
  · rw [hhs] at hheaded
    exact hheaded.2
  · rw [hhs] at hnone
    exact fun h hh => hnone h (List.mem_cons_of_mem c hh)

theorem Inv.removeHandle (hinv : s.Inv) (hpass : s.Passes (.removeHandle a)) :
    Inv
      { s with
        module := s.module.removeHandle a
        enabled := (s.module.removeHandle a).mHandles ≠ [] && s.enabled } := by
  rcases hhs : s.module.mHandles with _ | ⟨c, rest⟩
  · have hsame : s.module.removeHandle a = s.module := by
      rw [Module.removeHandle, hhs]
      rfl
    rw [hsame]
    refine hinv.sub (List.Sublist.refl _) (.inl ?_)
    rw [hhs]
    exact ⟨trivial, rfl⟩
  · have hkeeps : ∀ b, (decide (c :: rest ≠ []) && b) = b := fun b => by simp
    rcases removeHandle_cases hhs a with ⟨-, -, heq⟩ | ⟨i, -, heq⟩ | ⟨hself, -⟩
    · rw [heq, hhs, hkeeps]
      exact hinv
    · have hlisted : (s.module.removeHandle a).mHandles = c :: rest.eraseIdx i := by rw [heq]
      have hsub : (c :: rest.eraseIdx i).Sublist s.module.mHandles := by
        rw [hhs]
        exact (List.eraseIdx_sublist rest i).cons_cons c
      rw [hlisted]
      refine hinv.sub (hlisted ▸ hsub) ?_
      rw [hlisted]
      rcases hinv.control with ⟨hheaded, hasked⟩ | ⟨⟨c', rest', hcons, hd⟩, hnone⟩
      · rw [hhs] at hheaded hasked
        refine .inl ⟨⟨hheaded.1, fun h hh => hheaded.2 h (List.mem_of_mem_eraseIdx hh)⟩, ?_⟩
        rw [asked_cons] at hasked ⊢
        simpa using hasked
      · obtain ⟨rfl, -⟩ := List.cons.inj (hhs.symm.trans hcons)
        exact .inr ⟨⟨c, _, rfl, hd⟩, fun h hh => hnone h (hsub.subset hh)⟩
    · have hfirst := removeHandle_first hhs hself
      have hleaves : Leaves s.enabled c rest := by
        have hall := hpass c (by rw [hhs]; rfl) hself
        rw [hhs] at hall
        exact hall
      have hnone := hinv.tail_waits hhs
      rcases rest with _ | ⟨n, rest⟩
      · rw [handControl_none (by simp)] at hfirst
        rw [hfirst]
        refine hinv.sub (by rw [hfirst]; exact List.nil_sublist _) (.inl ?_)
        rw [hfirst]
        exact ⟨trivial, rfl⟩
      · rw [Leaves] at hleaves
        by_cases hd : n.mDestroyed = true
        · rw [if_pos hd] at hleaves
          have hall : ∀ h ∈ n :: rest, h.mDestroyed = true := List.forall_mem_cons.mpr ⟨hd, hleaves⟩
          rw [handControl_none hall] at hfirst
          refine hinv.sub ?_ (.inr ?_)
          · rw [hfirst, hhs]
            exact List.sublist_cons_self ..
          · rw [hfirst]
            exact ⟨⟨n, rest, rfl, hd⟩, hnone⟩
        · rw [if_neg hd] at hleaves
          have hfirst := hinv.handed hhs hself hd
          have hsame : (decide ((s.module.removeHandle a).mHandles ≠ []) && s.enabled) =
              c.mEnabled := by
            rw [hfirst, hleaves]
            simp
          rw [hsame]
          exact hinv.next hhs (List.forall_mem_cons.mp hnone).2 hfirst

/-- Where control has gone past a handle that is being destroyed, the one that got it is told of
what it does itself. -/
theorem handControl_told (hhs : e.mHandles = n :: rest) (hd : n.mDestroyed = true)
    (hlive : ∃ h ∈ rest, h.mDestroyed = false) (enabled : Bool) :
    ∃ h ∈ (e.handControl enabled).others, h.mHasControl = true := by
  obtain ⟨x, hx, hxlive⟩ := hlive
  have hsome : (rest.find? fun h => !h.mDestroyed).isSome :=
    List.find?_isSome.mpr ⟨x, hx, by rw [hxlive]; rfl⟩
  obtain ⟨y, hy⟩ := Option.isSome_iff_exists.mp hsome
  have hcontrol : e.controlHandle = some y := by
    rw [Module.controlHandle, hhs, List.find?_cons_of_neg (by simp [hd]), hy]
  have hylive : y.mDestroyed = false := by simpa using List.find?_some hy
  rw [Module.handControl, hcontrol, Option.elim_some, Module.others, Module.updateHandle, hhs,
    List.map_cons, List.drop_succ_cons, List.drop_zero]
  refine ⟨y.setControl true enabled, List.mem_filter.mpr ⟨?_, ?_⟩, rfl⟩
  · exact List.mem_map.mpr ⟨y, List.mem_of_find?_eq_some hy, if_pos rfl⟩
  · exact (congrArg not hylive : _)

theorem Inv.passes (hinv : s.Inv) {ev : HandleEvent} (hstep : ∀ s' ∈ s.step ev, s'.Orderly) :
    s.Passes ev := by
  cases ev with
  | removeHandle a =>
    have horderly := hstep _ rfl
    intro c hc hself
    rcases hhs : s.module.mHandles with _ | ⟨c', rest⟩
    · trivial
    · rw [hhs, List.head?_cons, Option.mem_some_iff] at hc
      subst hc
      have hfirst := removeHandle_first hhs hself
      rw [List.tail_cons]
      rcases rest with _ | ⟨n, rest⟩
      · trivial
      · rw [Leaves]
        by_cases hd : n.mDestroyed = true
        · rw [if_pos hd]
          intro h hh
          by_contra hlive
          rw [Bool.not_eq_true] at hlive
          obtain ⟨x, hx, hcontrol⟩ :=
            handControl_told (e := { s.module with mHandles := n :: rest }) rfl hd ⟨h, hh, hlive⟩
              c'.mEnabled
          have htold := horderly.told
          rw [Module.others] at hx htold
          rw [hfirst] at htold
          rw [htold] at hx
          have hwaits := (List.mem_filter.mp hx).2
          rw [hcontrol, Bool.not_true, Bool.and_false] at hwaits
          cases hwaits
        · rw [if_neg hd]
          have hfirst := hinv.handed hhs hself hd
          have hasked := horderly.passes (n.setControl true c'.mEnabled)
            (by dsimp only; rw [hfirst]; exact List.mem_cons_self ..) rfl
          refine hasked.trans ?_
          rw [hfirst]
          simp
  | addHandle self priority => trivial
  | destroy self => trivial
  | enable self suspends policy => trivial
  | disable self => trivial
  | setEnabled policy enabled => trivial
  | setSuspended suspended => trivial

/-! ## Runs -/

theorem start_inv (self : ℕ) (id sessionId : ℤ) (desc : Descriptor) :
    (start self id sessionId desc).Inv :=
  ⟨List.nodup_nil, fun _ hh => (List.not_mem_nil hh).elim, List.Pairwise.nil, .inl ⟨trivial, rfl⟩⟩

theorem Inv.step (hinv : s.Inv) {ev : HandleEvent} (hpass : s.Passes ev)
    (hstep : s.step ev = some s') : s'.Inv := by
  cases ev with
  | addHandle self priority =>
    rw [HandleSession.step] at hstep
    split_ifs at hstep with hlisted
    cases hstep
    exact hinv.addHandle hlisted
  | destroy self =>
    cases hstep
    exact hinv.destroyHandle self
  | removeHandle self =>
    cases hstep
    exact hinv.removeHandle hpass
  | enable self suspends policy =>
    cases hstep
    exact hinv.reask (reasks_enable suspends policy self s.module)
  | disable self =>
    cases hstep
    exact hinv.reask (reasks_disable self s.module)
  | setEnabled policy enabled =>
    cases hstep
    have hsame := setEnabled_mHandles policy enabled s.module
    exact hinv.sub (by rw [hsame]) (by rw [hsame]; exact hinv.control)
  | setSuspended suspended =>
    cases hstep
    exact hinv.sub (List.Sublist.refl _) hinv.control

/-- Every state that a run goes through is orderly just if control never passes over a handle that
is being destroyed, and takes along what was asked for. -/
theorem handles_orderly_iff (self : ℕ) (id sessionId : ℤ) (desc : Descriptor)
    (evs : List HandleEvent) :
    Along step (fun s ev => ∀ s' ∈ s.step ev, s'.Orderly) (start self id sessionId desc) evs ↔
      Along step Passes (start self id sessionId desc) evs := by
  refine along_iff (I := Inv) (fun s ev hinv => ?_) (fun s ev s' hok hstep hinv => ?_)
    (start_inv self id sessionId desc) evs
  · exact ⟨hinv.passes, fun hpass s' hs' => (hinv.step hpass hs').orderly⟩
  · exact hinv.step (hinv.passes hok) hstep

/-- Three handles, of which the first two are being destroyed; the first leaves, a fourth comes, and
the second leaves. -/
def passedOver : List HandleEvent :=
  [.addHandle 1 9, .addHandle 2 8, .addHandle 3 7, .enable 1 false true, .destroy 1, .destroy 2,
    .removeHandle 1, .addHandle 4 8, .removeHandle 2]

/-- The third handle is in control behind one that is being destroyed, and is told of what it does
itself; in the end the fourth one is in control as well, and no longer enabled. -/
theorem passedOver_twoInControl :
    ∃ s, run step (start 0 7 1 ⟨⟨1, 1⟩, ⟨2, 2⟩, 0#32⟩) (passedOver.take 7) = some s ∧
      s.module.others = [⟨3, 7, true, true, false⟩] ∧
      ∃ s', run step (start 0 7 1 ⟨⟨1, 1⟩, ⟨2, 2⟩, 0#32⟩) passedOver = some s' ∧
        s'.module.mHandles = [⟨4, 8, true, false, false⟩, ⟨3, 7, true, true, false⟩] ∧
        ¬ Along step (fun s ev => ∀ s' ∈ s.step ev, s'.Orderly)
          (start 0 7 1 ⟨⟨1, 1⟩, ⟨2, 2⟩, 0#32⟩) passedOver := by
  refine ⟨_, rfl, rfl, _, rfl, rfl, fun hall => ?_⟩
  have hseventh := (((((hall.2 _ rfl).2 _ rfl).2 _ rfl).2 _ rfl).2 _ rfl).2 _ rfl
  exact absurd (hseventh.1 _ rfl).told (by decide)

end HandleSession

end AudioFlinger.Effects
