import AudioFlinger.Effects.Calls

/-!
# Suspensions of one chain

Effects are added, enabled and disconnected, and types and all effects are
suspended and restored in any order; every restore matches an earlier suspend.
The state counts the suspends that are not matched yet. In the runs without the
cases that the entries of a chain cannot tell apart, the suspensions are counted
for each type.
-/

namespace AudioFlinger.Effects

open Foundation

/-- A chain and its unmatched suspends, of a type and of all effects. -/
structure Watched where
  chain : Chain
  suspends : Uuid → ℕ
  all : ℕ

inductive Event
  | suspend (type : Uuid)
  | restore (policy : ℕ → Bool) (type : Uuid)
  | suspendAll
  | restoreAll (policy : ℕ → Bool)
  | add (self handle : ℕ) (id priority : ℤ) (desc : Descriptor)
  | addHandle (self handle : ℕ) (priority : ℤ)
  | enable (policy : ℕ → Bool) (self handle : ℕ)
  | disable (self handle : ℕ)
  | disconnect (self handle : ℕ)

namespace Watched

/-- An empty chain. -/
def start (sessionId : ℤ) : Watched := ⟨.new sessionId, fun _ => 0, 0⟩

/-- A new effect with its first handle. -/
def newEffect (c : Chain) (self handle : ℕ) (id priority : ℤ) (desc : Descriptor) : Module :=
  (Module.new self id c.mSessionId desc).addHandle (.new handle priority)

/-- A restore matches a suspend; an address that an object or a weak pointer has is not given to a
new object. -/
def made (w : Watched) : Event → Bool
  | .restore _ t => 0 < w.suspends t
  | .restoreAll _ => 0 < w.all
  | .add self _ _ _ _ => (w.chain.mEffects.all fun e => e.self ≠ self) &&
      w.chain.mSuspendedEffects.items.all fun y => y.2.mEffect ≠ some self
  | .addHandle self handle _ => w.chain.mEffects.all fun e =>
      e.self ≠ self || e.mHandles.all fun h => h.self ≠ handle
  | _ => true

def call (w : Watched) : Event → Watched
  | .suspend t =>
    { w with
      chain := w.chain.setEffectSuspended (fun _ => true) t true
      suspends := Function.update w.suspends t (w.suspends t + 1) }
  | .restore policy t =>
    { w with
      chain := w.chain.setEffectSuspended policy t false
      suspends := Function.update w.suspends t (w.suspends t - 1) }
  | .suspendAll =>
    { w with chain := w.chain.setEffectSuspendedAll (fun _ => true) true, all := w.all + 1 }
  | .restoreAll policy =>
    { w with chain := w.chain.setEffectSuspendedAll policy false, all := w.all - 1 }
  | .add self handle id priority desc =>
    { w with chain := (w.chain.addEffect (newEffect w.chain self handle id priority desc)).getD w.chain }
  | .addHandle self handle priority =>
    { w with chain := w.chain.updateEffect self fun e => e.addHandle (.new handle priority) }
  | .enable policy self handle => { w with chain := (w.chain.enable policy self handle).1 }
  | .disable self handle => { w with chain := (w.chain.disable self handle).1 }
  | .disconnect self handle => { w with chain := (w.chain.disconnect self handle true).1 }

def step (w : Watched) (e : Event) : Option Watched :=
  if w.made e then some (w.call e) else none

/-! ## What is claimed -/

end Watched

/-- What the control handle asks for. -/
def Module.requested (e : Module) : Bool := (e.controlHandle.map Handle.mEnabled).getD false

/-- The suspensions that are not matched are in force: their effects are disabled, and suspended if
they are asked for; a type keeps at least its own count; and without unmatched suspends nothing is
listed or suspended, and the effects are enabled as their control handles ask. -/
structure InForce (w : Watched) : Prop where
  stays : ∀ e ∈ w.chain.mEffects, (0 < w.suspends e.mDescriptor.type ∨
      (0 < w.all ∧ w.chain.isEffectEligibleForSuspend e.mDescriptor = true)) →
    e.isEnabled = false ∧ (e.requested = true → e.mSuspended = true)
  counted : ∀ t, 0 < w.suspends t → ∃ d, w.chain.desc t.timeLow = some d ∧ d.mType = t ∧
    w.suspends t ≤ d.mRefCount
  restored : (∀ t, w.suspends t = 0) → w.all = 0 → w.chain.mSuspendedEffects.items = [] ∧
    ∀ e ∈ w.chain.mEffects, e.mSuspended = false ∧ e.isEnabled = e.requested

namespace Watched

/-- The calls that go right: the types have keys of their own; a type is suspended with no enabled
effect but its first; the last reference of a type is not dropped from an effect that the suspension
of all keeps; all effects are suspended with one eligible effect for a type, and restored with a
reference of theirs for every type listed; an effect is enabled if the entry of its type names no
other; and the policy lets restored effects be enabled. -/
def Sound (w : Watched) : Event → Prop
  | .suspend t => Clean w.chain t ∧ Alone w.chain t
  | .restore policy t => ∀ d ∈ w.chain.desc t.timeLow, Allowed policy w.chain d ∧
      (d.mRefCount = 1 → 0 < w.all → ∀ e ∈ w.chain.mEffects, e.mDescriptor.type = t →
        w.chain.isEffectEligibleForSuspend e.mDescriptor = true → asked e.mHandles = false)
  | .suspendAll => w.all = 0 →
      (w.chain.getSuspendEligibleEffects.map fun e => e.mDescriptor.type).Nodup ∧
        ∀ e ∈ w.chain.getSuspendEligibleEffects, Alone w.chain e.mDescriptor.type
  | .restoreAll policy => w.all = 1 → ∀ y ∈ w.chain.mSuspendedEffects.items,
      y.1 ≠ kKeyForSuspendAll → y.2.mRefCount = w.suspends y.2.mType + 1 ∧ Allowed policy w.chain y.2
  | .add _ _ _ _ desc => Clean w.chain desc.type
  | .enable _ self handle => ∀ p ∈ w.chain.handleAt self handle, p.2.mHasControl = true →
      p.2.mEnabled = false → FreeToEnable w.chain p.1
  | _ => True

instance (w : Watched) : ∀ e, Decidable (w.Sound e)
  | .suspend _ => inferInstanceAs (Decidable (_ ∧ _))
  | .restore _ _ => inferInstanceAs (Decidable (∀ d ∈ w.chain.desc _, _))
  | .suspendAll => inferInstanceAs (Decidable (_ → _))
  | .restoreAll _ => inferInstanceAs (Decidable (_ → _))
  | .add _ _ _ _ _ => inferInstanceAs (Decidable (Clean _ _))
  | .addHandle _ _ _ => isTrue trivial
  | .enable _ _ _ => inferInstanceAs (Decidable (∀ p ∈ w.chain.handleAt _ _, _))
  | .disable _ _ => isTrue trivial
  | .disconnect _ _ => isTrue trivial

/-! ## The invariant -/

/-- The references of a type are its unmatched suspends and at most one of the suspension of all. -/
structure Consistent (w : Watched) : Prop where
  guarded : ∃ r : Uuid → ℕ, (∀ t, r t ≤ 1) ∧ (w.all = 0 → ∀ t, r t = 0) ∧
    Guarded w.chain fun t => w.suspends t + r t
  all : (w.chain.desc kKeyForSuspendAll).map SuspendedEffectDesc.mRefCount =
    if w.all = 0 then none else some (w.all : ℤ)

variable {w : Watched}

theorem Consistent.all_some (hw : w.Consistent) :
    (w.chain.desc kKeyForSuspendAll).isSome = true ↔ 0 < w.all := by
  have hall := hw.all
  cases hd : w.chain.desc kKeyForSuspendAll with
  | none =>
    rw [hd] at hall
    split at hall
    · simp_all
    · cases hall
  | some d =>
    rw [hd] at hall
    split at hall
    · cases hall
    next hne => simp [Nat.pos_of_ne_zero hne]

theorem consistent_start (sessionId : ℤ) : (start sessionId).Consistent where
  guarded := by
    refine ⟨fun _ => 0, fun _ => Nat.zero_le 1, fun _ _ => rfl, ⟨⟨List.nodup_nil, ?_, ?_, ?_, ?_, ?_, ?_⟩,
      ?_⟩⟩
    · nofun
    · nofun
    · exact fun _ h => absurd h (lt_irrefl 0)
    · nofun
    · nofun
    · nofun
    · nofun
  all := rfl

theorem requested_eq {e : Module} (hu : Undestroyed e.mHandles) : e.requested = asked e.mHandles := by
  rw [Module.requested, hu.controlHandle]
  rfl

/-- The invariant says that the unmatched suspends are in force. -/
theorem Consistent.inForce (hw : w.Consistent) : InForce w := by
  obtain ⟨r, hr, hzero, hg⟩ := hw.guarded
  refine ⟨?_, ?_, ?_⟩
  · intro e he hwhy
    have hfits := hg.fits e he
    rw [requested_eq hfits.undestroyed]
    cases hd : w.chain.desc e.key with
    | some d =>
      obtain ⟨-, hoff, -, hmark⟩ := hfits.listed d hd
      exact ⟨hoff, hmark⟩
    | none =>
      obtain ⟨-, henabled⟩ := hfits.unlisted hd
      have hasked : asked e.mHandles = false := by
        rcases hwhy with hpos | ⟨hall, heligible⟩
        · obtain ⟨-, d, hd', -⟩ := hg.listed e.mDescriptor.type (by omega)
          change w.chain.desc e.key = some d at hd'
          rw [hd] at hd'
          cases hd'
        · exact hg.covered (hw.all_some.mpr hall) e he heligible hd
      rw [henabled, hasked]
      exact ⟨rfl, nofun⟩
  · intro t ht
    obtain ⟨-, d, hd, htype, hcount⟩ := hg.listed t (by omega)
    refine ⟨d, hd, htype, ?_⟩
    rw [hcount]
    push_cast
    omega
  · intro hnone hall
    have hdesc : ∀ k, w.chain.desc k = none := by
      intro k
      by_cases hk : k = kKeyForSuspendAll
      · subst hk
        have hd := hw.all
        rw [if_pos hall] at hd
        exact Option.map_eq_none_iff.mp hd
      · cases hd : w.chain.desc k with
        | none => rfl
        | some d =>
          have hpos := (hg.entries k d hk hd).2
          rw [hnone, hzero hall] at hpos
          exact absurd hpos (lt_irrefl 0)
    refine ⟨?_, ?_⟩
    · rw [KeyedVector.items_eq_nil_iff, KeyedVector.eq_empty_iff]
      exact hdesc
    · intro e he
      have hfits := hg.fits e he
      rw [requested_eq hfits.undestroyed]
      exact hfits.unlisted (hdesc _)

/-! ## The steps -/

theorem covered_alike {c c' : Chain} (hc : Covered c) (h : Chain.Alike c c')
    (hall : (c'.desc kKeyForSuspendAll).isSome = true → (c.desc kKeyForSuspendAll).isSome = true)
    (hdesc : ∀ e ∈ c.mEffects, c.isEffectEligibleForSuspend e.mDescriptor = true →
      c'.desc e.key = none → c.desc e.key = none) : Covered c' := by
  intro hsome e' he' heligible hnone
  obtain ⟨e, he, s, b, rfl⟩ := h.mem he'
  rw [h.eligible] at heligible
  exact hc (hall hsome) e he heligible (hdesc e he heligible hnone)

theorem refs_update (s r : Uuid → ℕ) (t : Uuid) (n : ℕ) :
    (fun t' => Function.update s t n t' + r t') =
      Function.update (fun t' => s t' + r t') t (n + r t) := by
  funext t'
  by_cases ht : t' = t
  · subst ht
    simp
  · simp [ht]

theorem Consistent.suspend (hw : w.Consistent) {t : Uuid} (hclean : Clean w.chain t)
    (halone : Alone w.chain t) : (w.call (.suspend t)).Consistent := by
  obtain ⟨r, hr, hzero, hg⟩ := hw.guarded
  have hkept := hg.toKept.suspend hclean halone
  have hall : (w.chain.suspend t).desc kKeyForSuspendAll = w.chain.desc kKeyForSuspendAll :=
    desc_suspend_of_ne hclean.key_ne.symm
  refine ⟨⟨r, hr, hzero, ?_⟩, ?_⟩
  · change Guarded (w.chain.suspend t) _
    have hrefs : (fun t' => Function.update w.suspends t (w.suspends t + 1) t' + r t') =
        Function.update (fun t' => w.suspends t' + r t') t (w.suspends t + r t + 1) := by
      rw [refs_update, Nat.add_right_comm]
    change Guarded _ fun t' => Function.update w.suspends t (w.suspends t + 1) t' + r t'
    rw [hrefs]
    refine ⟨hkept, covered_alike hg.covered (w.chain.suspend_alike t) (by rw [hall]; exact id) ?_⟩
    intro e _ _ hnone
    by_cases hkey : e.key = t.timeLow
    · obtain ⟨-, d, hd, -⟩ := hkept.listed t (by rw [Function.update_self]; exact Nat.succ_pos _)
      rw [hkey, hd] at hnone
      cases hnone
    · rwa [desc_suspend_of_ne hkey] at hnone
  · change ((w.chain.suspend t).desc _).map _ = _
    rw [hall]
    exact hw.all

theorem Consistent.restore (hw : w.Consistent) {t : Uuid} {policy : ℕ → Bool} (hmade : 0 < w.suspends t)
    (hsound : w.Sound (.restore policy t)) : (w.call (.restore policy t)).Consistent := by
  obtain ⟨r, hr, hzero, hg⟩ := hw.guarded
  obtain ⟨hne, d, hd, htype, hcount⟩ := hg.listed t (by omega)
  obtain ⟨hallowed, hcovered⟩ := hsound d hd
  have hclean : Clean w.chain t :=
    { key_ne := hne
      effects := by
        intro e he hkey
        have hfits := hg.fits e he
        rw [hkey, hd] at hfits
        rw [← (hfits.listed d rfl).1, htype]
      entries := by
        intro d' hd'
        rw [Option.mem_def, hd] at hd'
        rw [← Option.some_injective _ hd', htype] }
  have hkept := hg.toKept.restore hclean hd hallowed
  have hall : (w.chain.restore policy t).desc kKeyForSuspendAll = w.chain.desc kKeyForSuspendAll :=
    desc_restore_of_ne hne.symm
  refine ⟨⟨r, hr, hzero, ?_⟩, ?_⟩
  · have hrefs : (fun t' => Function.update w.suspends t (w.suspends t - 1) t' + r t') =
        Function.update (fun t' => w.suspends t' + r t') t (w.suspends t + r t - 1) := by
      rw [refs_update, Nat.sub_add_comm hmade]
    change Guarded (w.chain.restore policy t) fun t' =>
      Function.update w.suspends t (w.suspends t - 1) t' + r t'
    rw [hrefs]
    refine ⟨hkept, ?_⟩
    intro hsome e' he' heligible hnone
    rw [hall] at hsome
    have halike := w.chain.restore_alike policy t
    obtain ⟨e, he, s, b, rfl⟩ := halike.mem he'
    rw [halike.eligible] at heligible
    change asked e.mHandles = false
    change (w.chain.restore policy t).desc e.key = none at hnone
    by_cases hkey : e.key = t.timeLow
    · by_cases hone : d.mRefCount = 1
      · exact hcovered hone (hw.all_some.mp hsome) e he (hclean.effects e he hkey) heligible
      · -- More than one reference: the entry stays.
        obtain ⟨-, d', hd', -⟩ := hkept.listed t (by rw [Function.update_self]; omega)
        rw [hkey, hd'] at hnone
        cases hnone
    · rw [desc_restore_of_ne hkey] at hnone
      exact hg.covered hsome e he heligible hnone
  · change ((w.chain.restore policy t).desc _).map _ = _
    rw [hall]
    exact hw.all

theorem Consistent.suspendAll (hw : w.Consistent) (hsound : w.Sound .suspendAll) :
    (w.call .suspendAll).Consistent := by
  obtain ⟨r, hr, hzero, hg⟩ := hw.guarded
  have hall := hw.all
  by_cases hone : w.all = 0
  · obtain ⟨hnodup, halone⟩ := hsound hone
    have hnone : w.chain.desc kKeyForSuspendAll = none := by
      rw [if_pos hone] at hall
      exact Option.map_eq_none_iff.mp hall
    set c₁ := w.chain.setDesc kKeyForSuspendAll ⟨1, ⟨0, 0⟩, none⟩ with hc₁
    set ts := w.chain.getSuspendEligibleEffects.map fun e => e.mDescriptor.type with hts
    have heq : w.chain.suspendAll = ts.foldl Chain.suspend c₁ := by
      simp only [Chain.suspendAll, hnone, Option.getD_none, if_true, zero_add]
      rw [hts, List.foldl_map]
      rfl
    have hk₁ : Kept c₁ fun t => w.suspends t + r t := hg.toKept.setAll _
    have hlows : (ts.map Uuid.timeLow).Nodup := by
      apply List.Nodup.map_on _ hnodup
      intro t ht t' ht' hlow
      obtain ⟨e, he, rfl⟩ := List.mem_map.mp ht
      obtain ⟨e', he', rfl⟩ := List.mem_map.mp ht'
      exact hg.types e (List.mem_of_mem_filter he) e' (List.mem_of_mem_filter he') hlow
    obtain ⟨hkept, hdesc⟩ := hk₁.suspend_foldl hlows fun t ht => by
      obtain ⟨e, he, rfl⟩ := List.mem_map.mp ht
      exact ⟨hk₁.clean (List.mem_of_mem_filter he), halone e he⟩
    have hallKey : kKeyForSuspendAll ∉ ts.map Uuid.timeLow := by
      intro hmem
      obtain ⟨t, ht, hlow⟩ := List.mem_map.mp hmem
      obtain ⟨e, he, rfl⟩ := List.mem_map.mp ht
      exact hg.key_ne e (List.mem_of_mem_filter he) hlow
    refine ⟨⟨fun t => if t ∈ ts then 1 else 0, fun t => by dsimp only; split <;> lia, by rintro ⟨⟩, ?_⟩, ?_⟩
    · have hrefs : (fun t => w.suspends t + r t + if t ∈ ts then 1 else 0) =
          fun t => w.suspends t + if t ∈ ts then 1 else 0 := by
        funext t
        rw [hzero hone t, Nat.add_zero]
      rw [hrefs] at hkept
      change Guarded w.chain.suspendAll fun t => w.suspends t + if t ∈ ts then 1 else 0
      rw [heq]
      refine ⟨hkept, ?_⟩
      -- Every eligible effect has an entry now.
      intro _ e' he' heligible hnone'
      rw [← heq] at he' heligible hnone'
      have halike := w.chain.suspendAll_alike
      obtain ⟨e, he, s, b, rfl⟩ := halike.mem he'
      rw [halike.eligible] at heligible
      have hmem : e.mDescriptor.type ∈ ts :=
        List.mem_map.mpr ⟨e, List.mem_filter.mpr ⟨he, heligible⟩, rfl⟩
      obtain ⟨-, d, hd, -⟩ := hkept.listed e.mDescriptor.type (by rw [if_pos hmem]; lia)
      rw [← heq] at hd
      change w.chain.suspendAll.desc e.mDescriptor.type.timeLow = none at hnone'
      rw [hd] at hnone'
      cases hnone'
    · change (w.chain.suspendAll.desc kKeyForSuspendAll).map _ = _
      rw [heq, hdesc _ hallKey, hc₁, desc_setDesc, if_pos rfl]
      change some (1 : ℤ) = if w.all + 1 = 0 then none else some ((w.all + 1 : ℕ) : ℤ)
      rw [hone]
      rfl
  · rw [if_neg hone, Option.map_eq_some_iff] at hall
    obtain ⟨d, hd, hcount⟩ := hall
    have hne : ¬ d.mRefCount = 0 := by lia
    have heq : w.chain.suspendAll =
        w.chain.setDesc kKeyForSuspendAll { d with mRefCount := d.mRefCount + 1 } := by
      simp only [Chain.suspendAll, hd, Option.getD_some, if_neg hne]
    refine ⟨⟨r, hr, by rintro ⟨⟩, ?_⟩, ?_⟩
    · change Guarded w.chain.suspendAll fun t => w.suspends t + r t
      rw [heq]
      refine ⟨hg.toKept.setAll _, covered_alike hg.covered (setDesc_alike ..) ?_ ?_⟩
      · intro _
        rw [hd]
        rfl
      · intro e he _ hnone
        rwa [desc_setDesc, if_neg (hg.key_ne e he)] at hnone
    · change (w.chain.suspendAll.desc kKeyForSuspendAll).map _ = _
      rw [heq, desc_setDesc, if_pos rfl]
      change some (d.mRefCount + 1) = if w.all + 1 = 0 then none else some ((w.all + 1 : ℕ) : ℤ)
      rw [if_neg (Nat.succ_ne_zero _), hcount]
      rfl

/-- The types that are listed are those with references. -/
theorem mem_suspendedTypes {c : Chain} {refs : Uuid → ℕ} (hk : Kept c refs) {t : Uuid} :
    t ∈ c.suspendedTypes ↔ 0 < refs t := by
  rw [Chain.suspendedTypes, List.mem_map]
  constructor
  · rintro ⟨⟨k, d⟩, hmem, rfl⟩
    obtain ⟨hitem, hne⟩ := List.mem_filter.mp hmem
    exact (hk.entries k d (by simpa using hne) (KeyedVector.mem_items.mp hitem)).2
  · intro hpos
    obtain ⟨hne, d, hd, htype, -⟩ := hk.listed t hpos
    exact ⟨(t.timeLow, d), List.mem_filter.mpr ⟨KeyedVector.mem_items.mpr hd, by simpa using hne⟩,
      htype⟩

theorem nodup_suspendedTypes {c : Chain} {refs : Uuid → ℕ} (hk : Kept c refs) :
    (c.suspendedTypes.map Uuid.timeLow).Nodup := by
  have hlow : c.suspendedTypes.map Uuid.timeLow =
      (c.mSuspendedEffects.items.filter fun y => y.1 ≠ kKeyForSuspendAll).map Prod.fst := by
    rw [Chain.suspendedTypes, List.map_map]
    apply List.map_congr_left
    rintro ⟨k, d⟩ hmem
    obtain ⟨hitem, hne⟩ := List.mem_filter.mp hmem
    exact (hk.entries k d (by simpa using hne) (KeyedVector.mem_items.mp hitem)).1
  rw [hlow]
  have hsorted : (c.mSuspendedEffects.items.map Prod.fst).Nodup := by
    apply List.pairwise_map.mpr
    exact c.mSuspendedEffects.sorted.imp fun h => h.ne
  exact hsorted.sublist ((List.filter_sublist ..).map Prod.fst)

theorem Consistent.restoreAll (hw : w.Consistent) {policy : ℕ → Bool} (hmade : 0 < w.all)
    (hsound : w.Sound (.restoreAll policy)) : (w.call (.restoreAll policy)).Consistent := by
  obtain ⟨r, hr, hzero, hg⟩ := hw.guarded
  have hall := hw.all
  rw [if_neg hmade.ne', Option.map_eq_some_iff] at hall
  obtain ⟨d, hd, hcount⟩ := hall
  have hreleased : Chain.SuspendedEffectDesc.released d = (w.all : ℤ) - 1 := by
    rw [Chain.SuspendedEffectDesc.released, if_neg (by lia), hcount]
  by_cases hone : w.all = 1
  · have hlast : Chain.SuspendedEffectDesc.released d = 0 := by lia
    have heq : w.chain.restoreAll policy = (w.chain.suspendedTypes.foldl
        (fun c t => c.restore policy t) w.chain).removeDesc kKeyForSuspendAll := by
      simp only [Chain.restoreAll, hd, hlast, if_true]
    have hitems := hsound hone
    have hentry : ∀ t ∈ w.chain.suspendedTypes, ∃ d, w.chain.desc t.timeLow = some d ∧
        d.mType = t ∧ d.mRefCount = ((w.suspends t + r t : ℕ) : ℤ) ∧ d.mRefCount = w.suspends t + 1 ∧
          Allowed policy w.chain d := by
      intro t ht
      obtain ⟨hne, d, hd, htype, hcount⟩ := hg.listed t ((mem_suspendedTypes hg.toKept).mp ht)
      obtain ⟨hown, hallowed⟩ := hitems (t.timeLow, d) (KeyedVector.mem_items.mpr hd) hne
      rw [htype] at hown
      exact ⟨d, hd, htype, hcount, hown, hallowed⟩
    have hkept : Kept (w.chain.suspendedTypes.foldl (fun c t => c.restore policy t) w.chain) _ :=
      hg.toKept.restore_foldl (nodup_suspendedTypes hg.toKept) fun t ht => by
        obtain ⟨d, hd, htype, -, -, hallowed⟩ := hentry t ht
        obtain ⟨hne, -⟩ := hg.listed t ((mem_suspendedTypes hg.toKept).mp ht)
        refine ⟨⟨hne, fun e he hkey => ?_, fun d' hd' => ?_⟩, d, hd, hallowed⟩
        · have hfits := hg.fits e he
          rw [hkey, hd] at hfits
          rw [← (hfits.listed d rfl).1, htype]
        · rw [Option.mem_def, hd] at hd'
          rw [← Option.some_injective _ hd', htype]
    have hrefs : (fun t => (w.suspends t + r t) - if t ∈ w.chain.suspendedTypes then 1 else 0) =
        fun t => w.suspends t + 0 := by
      funext t
      by_cases ht : t ∈ w.chain.suspendedTypes
      · obtain ⟨d, -, -, hcount, hown, -⟩ := hentry t ht
        rw [if_pos ht]
        lia
      · have hnone : ¬ 0 < w.suspends t + r t := fun hpos =>
          ht ((mem_suspendedTypes hg.toKept).mpr hpos)
        rw [if_neg ht]
        lia
    rw [hrefs] at hkept
    refine ⟨⟨fun _ => 0, fun _ => Nat.zero_le 1, fun _ _ => rfl, ?_⟩, ?_⟩
    · change Guarded (w.chain.restoreAll policy) fun t => w.suspends t + 0
      rw [heq]
      refine ⟨hkept.removeAll, fun hsome => ?_⟩
      rw [desc_removeDesc, if_pos rfl] at hsome
      cases hsome
    · change ((w.chain.restoreAll policy).desc kKeyForSuspendAll).map _ = _
      rw [heq, desc_removeDesc, if_pos rfl]
      change none = if w.all - 1 = 0 then none else _
      rw [if_pos (by lia)]
  · have hmore : ¬ (w.all : ℤ) - 1 = 0 := by lia
    have heq : w.chain.restoreAll policy =
        w.chain.setDesc kKeyForSuspendAll { d with mRefCount := (w.all : ℤ) - 1 } := by
      simp only [Chain.restoreAll, hd, hreleased, if_neg hmore]
    refine ⟨⟨r, hr, fun h => hzero ?_, ?_⟩, ?_⟩
    · change w.all - 1 = 0 at h
      lia
    · change Guarded (w.chain.restoreAll policy) fun t => w.suspends t + r t
      rw [heq]
      refine ⟨hg.toKept.setAll _, covered_alike hg.covered (setDesc_alike ..) ?_ ?_⟩
      · intro _
        rw [hd]
        rfl
      · intro e he _ hnone
        rwa [desc_setDesc, if_neg (hg.key_ne e he)] at hnone
    · change ((w.chain.restoreAll policy).desc kKeyForSuspendAll).map _ = _
      rw [heq, desc_setDesc, if_pos rfl]
      change some ((w.all : ℤ) - 1) = if w.all - 1 = 0 then none else some ((w.all - 1 : ℕ) : ℤ)
      rw [if_neg (by lia)]
      congr 1
      lia

/-- A call that leaves the counts of suspends. -/
theorem Consistent.of_guarded (hw : w.Consistent) {c' : Chain}
    (hdesc : c'.desc kKeyForSuspendAll = w.chain.desc kKeyForSuspendAll)
    (hg : ∀ refs, Guarded w.chain refs → Guarded c' refs) : Consistent { w with chain := c' } := by
  obtain ⟨r, hr, hzero, hguarded⟩ := hw.guarded
  refine ⟨⟨r, hr, hzero, hg _ hguarded⟩, ?_⟩
  change (c'.desc _).map _ = _
  rw [hdesc]
  exact hw.all

theorem Consistent.add (hw : w.Consistent) {self handle : ℕ} {id priority : ℤ} {desc : Descriptor}
    (hmade : w.made (.add self handle id priority desc) = true) (hclean : Clean w.chain desc.type) :
    (w.call (.add self handle id priority desc)).Consistent := by
  set m := newEffect w.chain self handle id priority desc with hm
  obtain ⟨hself, hnamed⟩ := Bool.and_eq_true_iff.mp hmade
  have hhandles : m.mHandles = [(Handle.new handle priority).setControl true false] := by
    rcases addHandle_cases (e := Module.new self id w.chain.mSessionId desc) List.nodup_nil
      (.new handle priority) with ⟨-, hadd⟩ | ⟨c, hs, hcons, -⟩ | ⟨c, hs, i, hcons, -⟩
    · exact hadd
    · cases hcons
    · cases hcons
  have hfields : m = { Module.new self id w.chain.mSessionId desc with mHandles := m.mHandles } :=
    addHandle_fields ..
  have hdescriptor : m.mDescriptor = desc := by rw [hfields]; rfl
  have hself' : m.self = self := by rw [hfields]; rfl
  have hstate : m.mState = .idle := by rw [hfields]; rfl
  have hsane : Sane m :=
    { held := by
        rw [hhandles]
        exact ⟨⟨rfl, nofun⟩, by simp⟩
      undestroyed := by
        rw [hhandles]
        intro x hx
        rw [List.mem_singleton.mp hx]
        rfl
      handled := by
        rw [hhandles]
        exact List.cons_ne_nil _ _
      alive := by
        rw [hstate]
        nofun }
  cases hadd : w.chain.addEffect m with
  | none =>
    have hsame : w.call (.add self handle id priority desc) = { w with chain := w.chain } := by
      simp only [call, ← hm, hadd, Option.getD_none]
    rw [hsame]
    exact hw
  | some c' =>
    have hcall : w.call (.add self handle id priority desc) = { w with chain := c' } := by
      simp only [call, ← hm, hadd, Option.getD_some]
    rw [hcall]
    have hspec : ∀ refs, Guarded w.chain refs → Keeps w.chain refs c' := by
      intro refs hg
      refine hg.addEffect hsane ?_ ?_ ?_ (by rw [hdescriptor]; exact hclean) ?_ ?_ hadd
      · rw [Module.isEnabled, hstate]
      · rw [hfields]
        rfl
      · rw [hhandles]
        rfl
      · intro y hy
        rw [hself']
        simpa using List.all_eq_true.mp hself y hy
      · intro k d hd
        rw [hself']
        simpa using List.all_eq_true.mp hnamed (k, d) (KeyedVector.mem_items.mpr hd)
    obtain ⟨r, -, -, hg⟩ := hw.guarded
    exact hw.of_guarded (hspec _ hg).2.1 fun refs hg => (hspec refs hg).2.2

theorem Consistent.enable (hw : w.Consistent) {policy : ℕ → Bool} {e h : ℕ}
    (hsound : w.Sound (.enable policy e h)) : (w.call (.enable policy e h)).Consistent := by
  obtain ⟨r, hr, hzero, hg⟩ := hw.guarded
  obtain ⟨-, hall, hgrows⟩ := hg.enable policy hsound
  have hcount : ((w.chain.enable policy e h).1.desc kKeyForSuspendAll).map
      SuspendedEffectDesc.mRefCount = if w.all = 0 then none else some (w.all : ℤ) := by
    rw [hall]
    exact hw.all
  rcases hgrows with hg' | ⟨t, hnone, hsome, hg'⟩
  · exact ⟨⟨r, hr, hzero, hg'⟩, hcount⟩
  · -- The new reference is that of the suspension of all.
    refine ⟨⟨Function.update r t 1, ?_, ?_, ?_⟩, hcount⟩
    · intro t'
      by_cases ht : t' = t
      · rw [ht, Function.update_self]
      · rw [Function.update_of_ne ht]
        exact hr t'
    · intro hall
      change w.all = 0 at hall
      have hpos := hw.all_some.mp hsome
      omega
    · have hrefs : (fun t' => w.suspends t' + Function.update r t 1 t') =
          Function.update (fun t' => w.suspends t' + r t') t 1 := by
        funext t'
        by_cases ht : t' = t
        · have hnone : w.suspends t + r t = 0 := hnone
          rw [ht, Function.update_self, Function.update_self]
          omega
        · simp only [Function.update_of_ne ht]
      change Guarded _ fun t' => w.suspends t' + Function.update r t 1 t'
      rw [hrefs]
      exact hg'

theorem Consistent.call (hw : w.Consistent) {e : Event} (hmade : w.made e = true) (hsound : w.Sound e) :
    (w.call e).Consistent := by
  cases e with
  | suspend t => exact hw.suspend hsound.1 hsound.2
  | restore policy t => exact hw.restore (by simpa [made] using hmade) hsound
  | suspendAll => exact hw.suspendAll hsound
  | restoreAll policy => exact hw.restoreAll (by simpa [made] using hmade) hsound
  | add self handle id priority desc => exact hw.add hmade hsound
  | addHandle self handle priority =>
    refine hw.of_guarded rfl fun refs hg => hg.addHandle self rfl rfl ?_
    intro m hm hself hmem
    obtain ⟨y, hy, hyself⟩ := List.mem_map.mp hmem
    have hall := List.all_eq_true.mp hmade m hm
    rw [Bool.or_eq_true, List.all_eq_true] at hall
    rcases hall with hne | hfresh
    · simp [hself] at hne
    · have := hfresh y hy
      simp [hyself, Handle.new] at this
  | enable policy self handle => exact hw.enable hsound
  | disable self handle =>
    obtain ⟨r, -, -, hg⟩ := hw.guarded
    exact hw.of_guarded (hg.disable self handle).2.1 fun refs hg => (hg.disable self handle).2.2
  | disconnect self handle =>
    obtain ⟨r, -, -, hg⟩ := hw.guarded
    exact hw.of_guarded (hg.disconnect self handle).2.1 fun refs hg => (hg.disconnect self handle).2.2

theorem Consistent.step {w' : Watched} {e : Event} (hw : w.Consistent) (hsound : w.Sound e)
    (hstep : w.step e = some w') : w'.Consistent := by
  rw [Watched.step] at hstep
  split at hstep
  next hmade =>
    cases hstep
    exact hw.call hmade hsound
  next => cases hstep

/-- Along the sound calls the unmatched suspends are in force. -/
theorem suspension_along (sessionId : ℤ) (es : List Event) (w : Watched)
    (hrun : Machine.run step (start sessionId) es = some w)
    (hsound : Machine.Along step Sound (start sessionId) es) : InForce w := by
  have hw : w.Consistent := Machine.run_invariant_along (fun _ _ _ hok hstep h => h.step hok hstep) hsound
    hrun (consistent_start sessionId)
  exact hw.inForce

/-- Two effects; all are suspended, one of the types twice; one effect is enabled in between. -/
def twoEffects : List Event :=
  [.add 1 10 1 0 ⟨⟨5, 0⟩, ⟨50, 0⟩, 0⟩, .add 2 20 2 0 ⟨⟨6, 0⟩, ⟨60, 0⟩, 0⟩,
    .enable (fun _ => true) 1 10, .suspend ⟨5, 0⟩, .suspendAll, .enable (fun _ => true) 2 20,
    .addHandle 1 11 3, .disable 2 20, .restoreAll fun _ => true]

theorem suspension_along_twoEffects :
    ∃ w, Machine.run step (start 1) twoEffects = some w ∧ InForce w := by
  have hrun := Option.eq_some_of_isSome
    (by decide : (Machine.run step (start 1) twoEffects).isSome = true)
  exact ⟨_, hrun, suspension_along 1 twoEffects _ hrun (by decide)⟩

/-- The end of a suspension of all takes the suspension of a type away, whose effect is then
enabled; and it leaves a reference of a type that two effects have. -/
theorem restoreAll_drops_suspend :
    (Machine.run step (start 1) [.suspend ⟨5, 0⟩, .suspendAll, .restoreAll fun _ => true,
        .add 1 10 1 0 ⟨⟨5, 0⟩, ⟨50, 0⟩, 0⟩, .enable (fun _ => true) 1 10]).map
      (fun w => (w.suspends ⟨5, 0⟩, w.chain.mEffects.map fun e => (e.mDescriptor.type, e.isEnabled))) =
        some (1, [(⟨5, 0⟩, true)]) ∧
    (Machine.run step (start 1) [.add 1 10 1 0 ⟨⟨5, 0⟩, ⟨50, 0⟩, 0⟩,
        .add 2 20 2 0 ⟨⟨5, 0⟩, ⟨51, 0⟩, 0⟩, .suspendAll, .restoreAll fun _ => true]).map
      (fun w => (w.suspends ⟨5, 0⟩, w.all, w.chain.mSuspendedEffects.items)) =
        some (0, 0, [(5, ⟨1, ⟨5, 0⟩, none⟩)]) := by
  decide

end Watched

end AudioFlinger.Effects
