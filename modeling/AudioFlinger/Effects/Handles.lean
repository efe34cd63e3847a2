import AudioFlinger.Effects.Model

/-!
# Who controls an effect

The first handle of an effect is in control and no other. Control moves to a new
handle with a higher priority and back to the next in line, and what the handle
in control asks for moves with it.
-/

namespace AudioFlinger.Effects

open Foundation

/-- Only the first handle is in control. -/
def Headed : List Handle → Prop
  | [] => True
  | h :: hs => h.mHasControl = true ∧ ∀ x ∈ hs, x.mHasControl = false

/-- What the first handle asks for. -/
def asked (hs : List Handle) : Bool := (hs.head?.map Handle.mEnabled).getD false

variable {hs : List Handle} {h c : Handle} {e : Module} {self : ℕ}

@[simp] theorem asked_cons (h : Handle) (hs : List Handle) : asked (h :: hs) = h.mEnabled := rfl

/-- The handles of a module: at different addresses, the first in control. -/
structure Held (hs : List Handle) : Prop where
  headed : Headed hs
  nodup : (hs.map Handle.self).Nodup

/-- No handle is being destroyed. -/
def Undestroyed (hs : List Handle) : Prop := ∀ h ∈ hs, h.mDestroyed = false

theorem held_nil : Held [] := ⟨trivial, List.nodup_nil⟩

theorem Undestroyed.controlHandle (hu : Undestroyed e.mHandles) :
    e.controlHandle = e.mHandles.head? := by
  unfold Module.controlHandle
  cases hhs : e.mHandles with
  | nil => rfl
  | cons h hs =>
    have hh := hu h (by rw [hhs]; exact List.mem_cons_self ..)
    simp [hh]

/-! ## The handle in control -/

/-- A handle that has control is the first. -/
theorem Held.eq_head (hheld : Held (c :: hs)) (hmem : h ∈ c :: hs) (hcontrol : h.mHasControl = true) :
    h = c := by
  rcases List.mem_cons.mp hmem with rfl | hmem
  · rfl
  · rw [hheld.headed.2 h hmem] at hcontrol
    cases hcontrol

/-- Writing the first handle at its address. -/
theorem map_head (hnodup : ((c :: hs).map Handle.self).Nodup) (f : Handle → Handle) :
    ((c :: hs).map fun x => if x.self = c.self then f x else x) = f c :: hs := by
  have hrest : (hs.map fun x => if x.self = c.self then f x else x) = hs := by
    refine (List.map_congr_left fun x hx => if_neg ?_).trans (List.map_id' hs)
    intro heq
    exact (List.nodup_cons.mp hnodup).1 (List.mem_map.mpr ⟨x, hx, heq⟩)
  rw [List.map_cons, if_pos rfl, hrest]

/-! ## Adding a handle -/

/-- What the loop of `addHandle` returns at the first index. -/
theorem addHandleLoop_zero {priority : ℤ} {control : Option Handle} {i : ℕ}
    {r : ℕ × Option Handle} (hr : Module.addHandleLoop priority hs i control = r) :
    i ≤ r.1 ∧ r.1 ≤ i + hs.length ∧ (r.1 = i → hs = [] ∧ r.2 = control ∨
      ∃ c rest, hs = c :: rest ∧ c.mDestroyed = false ∧ r.2 = control.or (some c)) := by
  subst hr
  induction hs generalizing i control with
  | nil => exact ⟨le_refl _, le_refl _, fun _ => .inl ⟨rfl, rfl⟩⟩
  | cons c hs ih =>
    rw [Module.addHandleLoop]
    cases hd : c.mDestroyed with
    | true =>
      obtain ⟨hle, hlen, -⟩ := @ih control (i + 1)
      simp only [if_true]
      rw [List.length_cons]
      exact ⟨by omega, by omega, fun heq => by omega⟩
    | false =>
      obtain ⟨hle, hlen, -⟩ := @ih (control.or (some c)) (i + 1)
      rw [if_neg Bool.false_ne_true, List.length_cons]
      by_cases hpriority : c.mPriority ≤ priority
      · simp only [if_pos hpriority]
        exact ⟨le_refl _, by omega, fun _ => .inr ⟨c, hs, rfl, hd, rfl⟩⟩
      · simp only [if_neg hpriority]
        exact ⟨by omega, by omega, fun heq => by omega⟩

/-- A handle is added in front of the others, and takes over what the first one asked for, or
behind the first. -/
theorem addHandle_cases (hnodup : (e.mHandles.map Handle.self).Nodup) (h : Handle) :
    (e.mHandles = [] ∧ (e.addHandle h).mHandles = [h.setControl true false]) ∨
      (∃ c hs, e.mHandles = c :: hs ∧ (e.addHandle h).mHandles =
        h.setControl true c.mEnabled :: c.setControl false c.mEnabled :: hs) ∨
      ∃ c hs i, e.mHandles = c :: hs ∧ i ≤ hs.length ∧
        (e.addHandle h).mHandles = c :: hs.insertIdx i h := by
  rw [Module.addHandle]
  generalize hr : Module.addHandleLoop h.mPriority e.mHandles 0 none = r
  obtain ⟨-, hlen, hzero⟩ := addHandleLoop_zero hr
  obtain ⟨i, control⟩ := r
  simp only at hlen hzero ⊢
  split
  next hi =>
    subst hi
    rcases hzero rfl with ⟨hnil, rfl⟩ | ⟨c, rest, hcons, hd, rfl⟩
    · refine .inl ⟨hnil, ?_⟩
      simp [hnil]
    · refine .inr (.inl ⟨c, rest, hcons, ?_⟩)
      rw [hcons] at hnodup
      have hmap := map_head hnodup (Handle.setControl false c.mEnabled)
      simp only [Option.none_or, Option.map_some, Option.getD_some, Option.elim_some,
        Module.updateHandle, hcons, hmap, List.insertIdx_zero]
  next hi =>
    cases hhs : e.mHandles with
    | nil =>
      rw [hhs] at hlen
      exact absurd hlen (by simp [hi])
    | cons c hs =>
      obtain ⟨j, rfl⟩ := Nat.exists_eq_succ_of_ne_zero hi
      rw [hhs, List.length_cons] at hlen
      exact .inr (.inr ⟨c, hs, j, rfl, by omega, List.insertIdx_succ_cons ..⟩)

/-- Adding a handle changes nothing but the handles. -/
theorem addHandle_fields (e : Module) (h : Handle) :
    e.addHandle h = { e with mHandles := (e.addHandle h).mHandles } := by
  rw [Module.addHandle]
  simp only
  split
  · cases (Module.addHandleLoop h.mPriority e.mHandles 0 none).2 with
    | none => rfl
    | some c => rfl
  · rfl

theorem Held.addHandle (hheld : Held e.mHandles) (hcontrol : h.mHasControl = false)
    (hfresh : h.self ∉ e.mHandles.map Handle.self) :
    Held (e.addHandle h).mHandles ∧ asked (e.addHandle h).mHandles = asked e.mHandles := by
  rcases addHandle_cases hheld.nodup h with
    ⟨hnil, hadd⟩ | ⟨c, hs, hcons, hadd⟩ | ⟨c, hs, i, hcons, hi, hadd⟩
  · rw [hadd, hnil]
    exact ⟨⟨⟨rfl, fun _ hx => by cases hx⟩, by simp⟩, rfl⟩
  · rw [hcons] at hheld hfresh
    rw [hadd, hcons]
    refine ⟨⟨⟨rfl, ?_⟩, ?_⟩, rfl⟩
    · intro x hx
      rcases List.mem_cons.mp hx with rfl | hx
      · rfl
      · exact hheld.headed.2 x hx
    · exact List.nodup_cons.mpr ⟨hfresh, hheld.nodup⟩
  · rw [hcons] at hheld hfresh
    rw [hadd, hcons]
    refine ⟨⟨⟨hheld.headed.1, ?_⟩, ?_⟩, rfl⟩
    · intro x hx
      rcases (List.mem_insertIdx hi).mp hx with rfl | hx
      · exact hcontrol
      · exact hheld.headed.2 x hx
    · have hperm : (c :: hs.insertIdx i h).Perm (h :: c :: hs) :=
        ((List.perm_insertIdx h hs hi).cons c).trans (List.Perm.swap ..)
      rw [(hperm.map Handle.self).nodup_iff]
      exact List.nodup_cons.mpr ⟨hfresh, hheld.nodup⟩

theorem Undestroyed.addHandle (hu : Undestroyed e.mHandles) (hnodup : (e.mHandles.map Handle.self).Nodup)
    (hh : h.mDestroyed = false) : Undestroyed (e.addHandle h).mHandles := by
  rcases addHandle_cases hnodup h with ⟨-, hadd⟩ | ⟨c, hs, hcons, hadd⟩ | ⟨c, hs, i, hcons, hi, hadd⟩
  · rw [hadd]
    intro x hx
    rw [List.mem_singleton.mp hx]
    exact hh
  · rw [hcons] at hu
    rw [hadd]
    intro x hx
    rcases List.mem_cons.mp hx with rfl | hx
    · exact hh
    · rcases List.mem_cons.mp hx with rfl | hx
      · exact hu c (List.mem_cons_self ..)
      · exact hu x (List.mem_cons_of_mem c hx)
  · rw [hcons] at hu
    rw [hadd]
    intro x hx
    rcases List.mem_cons.mp hx with rfl | hx
    · exact hu x (List.mem_cons_self ..)
    · rcases (List.mem_insertIdx hi).mp hx with rfl | hx
      · exact hh
      · exact hu x (List.mem_cons_of_mem c hx)

/-! ## Removing a handle -/

/-- Removing a handle that is not the first keeps the first; removing the first hands control to
the next in line. -/
theorem removeHandle_cases (hcons : e.mHandles = c :: hs) (self : ℕ) :
    (c.self ≠ self ∧ (∀ x ∈ hs, x.self ≠ self) ∧ e.removeHandle self = e) ∨
      (∃ i, c.self ≠ self ∧ e.removeHandle self = { e with mHandles := c :: hs.eraseIdx i }) ∨
      (c.self = self ∧ e.removeHandle self =
        ({ e with mHandles := hs }.handControl c.mEnabled).destroyIfUnused) := by
  by_cases hc : c.self = self
  · have hidx : (e.mHandles.findIdx? fun h => decide (h.self = self)) = some 0 := by
      rw [hcons, List.findIdx?_cons, if_pos (decide_eq_true hc)]
    refine .inr (.inr ⟨hc, ?_⟩)
    rw [Module.removeHandle, hidx]
    simp only [hcons]
    rfl
  · cases hfind : hs.findIdx? fun h => decide (h.self = self) with
    | none =>
      have hidx : (e.mHandles.findIdx? fun h => decide (h.self = self)) = none := by
        rw [hcons, List.findIdx?_cons, if_neg (by simp [hc]), hfind]
        rfl
      refine .inl ⟨hc, fun x hx heq => ?_, ?_⟩
      · have hfalse := List.findIdx?_eq_none_iff.mp hfind x hx
        simp [heq] at hfalse
      · simp only [Module.removeHandle, hidx]
    | some i =>
      have hidx : (e.mHandles.findIdx? fun h => decide (h.self = self)) = some (i + 1) := by
        rw [hcons, List.findIdx?_cons, if_neg (by simp [hc]), hfind]
        rfl
      refine .inr (.inl ⟨i, hc, ?_⟩)
      rw [Module.removeHandle, hidx]
      simp only [hcons, if_neg (Nat.succ_ne_zero i), List.eraseIdx_cons_succ]
      simp [Module.destroyIfUnused]

/-- With no handle destroyed, the next in line is the first of the rest. -/
theorem handControl_cons (hhs : e.mHandles = c :: hs) (hd : c.mDestroyed = false)
    (hnodup : (e.mHandles.map Handle.self).Nodup) (enabled : Bool) :
    e.handControl enabled = { e with mHandles := c.setControl true enabled :: hs } := by
  have hcontrol : e.controlHandle = some c := by
    rw [Module.controlHandle, hhs, List.find?_cons_of_pos]
    simp [hd]
  rw [hhs] at hnodup
  rw [Module.handControl, hcontrol, Option.elim_some, Module.updateHandle, hhs,
    map_head hnodup]

/-- Only the state and the handles change. -/
theorem removeHandle_fields (e : Module) (a : ℕ) :
    ∃ s hs, e.removeHandle a = { e with mState := s, mHandles := hs } := by
  have hhand : ∀ (e : Module) (b : Bool), ∃ hs, e.handControl b = { e with mHandles := hs } := by
    intro e b
    rw [Module.handControl]
    cases e.controlHandle with
    | none => exact ⟨e.mHandles, rfl⟩
    | some h => exact ⟨_, rfl⟩
  have hdestroy : ∀ e : Module, ∃ s, e.destroyIfUnused = { e with mState := s } := by
    intro e
    rw [Module.destroyIfUnused]
    split
    · exact ⟨.destroyed, rfl⟩
    · exact ⟨e.mState, rfl⟩
  rw [Module.removeHandle]
  split
  · exact ⟨e.mState, e.mHandles, rfl⟩
  next i _ =>
    simp only
    split
    · obtain ⟨hs, hhs⟩ := hhand { e with mHandles := e.mHandles.eraseIdx i }
        (((e.mHandles[i]?).map Handle.mEnabled).getD false)
      obtain ⟨s, hs'⟩ := hdestroy { e with mHandles := hs }
      exact ⟨s, hs, by rw [hhs]; exact hs'⟩
    · obtain ⟨s, hs⟩ := hdestroy { e with mHandles := e.mHandles.eraseIdx i }
      exact ⟨s, _, hs⟩

theorem removeHandle_self (e : Module) (a : ℕ) : (e.removeHandle a).self = e.self := by
  obtain ⟨s, hs, h⟩ := removeHandle_fields e a
  rw [h]

theorem destroyIfUnused_of_ne_nil (hne : e.mHandles ≠ []) : e.destroyIfUnused = e := by
  simp [Module.destroyIfUnused, hne]

/-- Removing one of several handles keeps what the first asks for, and changes nothing but the
handles; a handle that is being destroyed must not be next in line. -/
theorem Held.removeHandle (hheld : Held e.mHandles) (hcons : e.mHandles = c :: hs) (hne : hs ≠ [])
    (hnext : c.self = self → ∀ n ∈ hs.head?, n.mDestroyed = false) :
    ∃ hs', e.removeHandle self = { e with mHandles := hs' } ∧ Held hs' ∧ hs' ≠ [] ∧
      asked hs' = asked e.mHandles ∧
      (∀ x ∈ hs', ∃ y ∈ e.mHandles, x.self = y.self ∧ x.mDestroyed = y.mDestroyed) := by
  have hsame : ∀ x ∈ e.mHandles, ∃ y ∈ e.mHandles, x.self = y.self ∧ x.mDestroyed = y.mDestroyed :=
    fun x hx => ⟨x, hx, rfl, rfl⟩
  rcases removeHandle_cases hcons self with ⟨-, -, heq⟩ | ⟨i, -, heq⟩ | ⟨hself, heq⟩
  · exact ⟨e.mHandles, heq, hheld, by simp [hcons], rfl, hsame⟩
  · have hsub : (c :: hs.eraseIdx i).Sublist e.mHandles := by
      rw [hcons]
      exact (List.eraseIdx_sublist hs i).cons_cons c
    refine ⟨c :: hs.eraseIdx i, heq, ⟨⟨?_, ?_⟩, ?_⟩, by simp, by rw [hcons]; rfl, ?_⟩
    · rw [hcons] at hheld
      exact hheld.headed.1
    · intro x hx
      rw [hcons] at hheld
      exact hheld.headed.2 x ((List.eraseIdx_sublist hs i).subset hx)
    · exact hheld.nodup.sublist (hsub.map Handle.self)
    · exact fun x hx => hsame x (hsub.subset hx)
  · obtain ⟨n, rest, rfl⟩ := List.exists_cons_of_ne_nil hne
    have hd := hnext hself n rfl
    have hnodup : ((n :: rest).map Handle.self).Nodup := by
      have hall := hheld.nodup
      rw [hcons, List.map_cons] at hall
      exact (List.nodup_cons.mp hall).2
    rw [handControl_cons rfl hd hnodup, destroyIfUnused_of_ne_nil (by simp)] at heq
    rw [hcons] at hheld hsame
    refine ⟨_, heq, ⟨⟨rfl, ?_⟩, hnodup⟩, by simp, by rw [hcons]; rfl, ?_⟩
    · intro x hx
      exact hheld.headed.2 x (List.mem_cons_of_mem n hx)
    · intro x hx
      rw [hcons]
      rcases List.mem_cons.mp hx with rfl | hx
      · exact ⟨n, by simp, rfl, rfl⟩
      · exact hsame x (by simp [hx])

/-- Removing the last handle. -/
theorem removeHandle_last (hlast : e.mHandles = [c]) (hself : c.self = self) :
    (e.removeHandle self).mHandles = [] := by
  rcases removeHandle_cases hlast self with ⟨hne, -⟩ | ⟨i, hne, -⟩ | ⟨-, heq⟩
  · exact absurd hself hne
  · exact absurd hself hne
  · rw [heq]
    simp only [Module.handControl, Module.controlHandle, List.find?_nil, Option.elim_none,
      Module.destroyIfUnused]
    split <;> rfl

end AudioFlinger.Effects
