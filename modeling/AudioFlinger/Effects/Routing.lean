import AudioFlinger.Effects.Insertion
import AudioFlinger.Foundation.Lists

/-!
# The order of a chain's effects and their buffers

`addEffect_l` and `removeEffect_l` of `libs/audioflinger/Effects.cpp` with the
buffers of the effects: auxiliary effects first, then the effects that are
inserted, by the positions they claim. All but the last write the chain's input
buffer, and an effect is configured again when its output buffer changes.
-/

namespace AudioFlinger.Effects

open Foundation Foundation.Positions

/-! ## Chains with buffers -/

inductive AccessMode
  | write
  | accumulate
deriving DecidableEq

/-- An effect with the buffers of its `mConfig` and the access mode that was configured last. -/
structure Placed where
  module : Module
  inBuffer : ℕ
  outBuffer : ℕ
  accessMode : AccessMode
deriving DecidableEq

/-- `configure`, as far as it follows from the buffers. -/
def Placed.configure (p : Placed) : Placed :=
  { p with accessMode := if p.inBuffer ≠ p.outBuffer then .accumulate else .write }

/-- `setOutBuffer` and `configure`. -/
def Placed.reroute (buffer : ℕ) (p : Placed) : Placed := { p with outBuffer := buffer }.configure

inductive AddStatus
  | noError
  | noInit
  | invalidOperation
deriving DecidableEq

structure RoutedChain where
  mInBuffer : ℕ
  mOutBuffer : ℕ
  mEffects : List Placed
deriving DecidableEq

namespace RoutedChain

def modules (c : RoutedChain) : List Module := c.mEffects.map Placed.module

/-- `addEffect_l`, with whether the chain's thread is there, and the buffer that is allocated for an
auxiliary effect; the access mode of the new effect is not set before. -/
def addEffect (thread : Bool) (buffer : ℕ) (mode : AccessMode) (m : Module) (c : RoutedChain) :
    RoutedChain × AddStatus :=
  if !thread then (c, .noInit)
  else if m.mDescriptor.typeFlag = effectFlagTypeAuxiliary then
    ({ c with mEffects := (Placed.mk m buffer c.mInBuffer mode).configure :: c.mEffects }, .noError)
  else
    match Chain.insertIndex m.mDescriptor c.modules with
    | none => (c, .invalidOperation)
    | some i =>
      if i = c.mEffects.length then
        -- The new effect is the last one.
        let es := if i ≠ 0 then c.mEffects.modify (i - 1) (Placed.reroute c.mInBuffer) else c.mEffects
        ({ c with
           mEffects := es.insertIdx i (Placed.mk m c.mInBuffer c.mOutBuffer mode).configure }, .noError)
      else
        ({ c with
           mEffects := c.mEffects.insertIdx i (Placed.mk m c.mInBuffer c.mInBuffer mode).configure },
          .noError)

/-- `removeEffect_l`, of the effect at its address. -/
def removeEffect (self : ℕ) (c : RoutedChain) : RoutedChain :=
  match c.mEffects.findIdx? fun p => p.module.self = self with
  | none => c
  | some i =>
    let auxiliary := (c.mEffects[i]?).any fun p => p.module.mDescriptor.typeFlag = effectFlagTypeAuxiliary
    let es :=
      if !auxiliary && i = c.mEffects.length - 1 && i ≠ 0 then
        c.mEffects.modify (i - 1) (Placed.reroute c.mOutBuffer)
      else c.mEffects
    { c with mEffects := es.eraseIdx i }

end RoutedChain

/-! ## Runs -/

inductive RoutingEvent
  | add (thread : Bool) (buffer : ℕ) (mode : AccessMode) (m : Module)
  | remove (self : ℕ)

namespace RoutedChain

def new (inBuffer outBuffer : ℕ) : RoutedChain := ⟨inBuffer, outBuffer, []⟩

/-- An effect that is added is not in the chain; an auxiliary one is added only if the chain's
buffers are one. -/
def possible (c : RoutedChain) : RoutingEvent → Bool
  | .add _ _ _ m => (c.mEffects.all fun p => p.module.self ≠ m.self) &&
      (m.mDescriptor.typeFlag ≠ effectFlagTypeAuxiliary || c.mInBuffer = c.mOutBuffer)
  | .remove _ => true

def call (c : RoutedChain) : RoutingEvent → RoutedChain
  | .add thread buffer mode m => (c.addEffect thread buffer mode m).1
  | .remove self => c.removeEffect self

def step (c : RoutedChain) (e : RoutingEvent) : Option RoutedChain :=
  if c.possible e then some (c.call e) else none

end RoutedChain

/-! ## What is claimed -/

def Descriptor.isAuxiliary (d : Descriptor) : Bool := d.typeFlag = effectFlagTypeAuxiliary

/-- Where an inserted effect belongs: at the front, in between or at the end. -/
def Descriptor.rank (d : Descriptor) : ℕ :=
  if d.insertPref = effectFlagInsertFirst then 0
  else if d.insertPref = effectFlagInsertLast then 2
  else 1

namespace RoutedChain

/-- The effects that are inserted. -/
def inserted (c : RoutedChain) : List Placed := c.mEffects.filter fun p => p.module.mDescriptor.isInsert

structure WellRouted (c : RoutedChain) : Prop where
  auxiliaryFirst : c.mEffects.Pairwise fun p q =>
    q.module.mDescriptor.isAuxiliary = true → p.module.mDescriptor.isAuxiliary = true
  ordered : c.inserted.Pairwise fun p q => p.module.mDescriptor.rank ≤ q.module.mDescriptor.rank
  exclusive : ∀ p ∈ c.inserted, p.module.mDescriptor.isExclusive = true → c.inserted = [p]
  reads : ∀ p ∈ c.inserted, p.inBuffer = c.mInBuffer
  last : ∀ p ∈ c.mEffects.getLast?, p.outBuffer = c.mOutBuffer
  others : ∀ p ∈ c.mEffects.dropLast, p.outBuffer = c.mInBuffer
  configured : ∀ p ∈ c.mEffects, p.accessMode = if p.inBuffer ≠ p.outBuffer then .accumulate else .write

end RoutedChain

/-! ## Where an effect is inserted -/

/-- The first effect may precede the second. -/
structure Precedes (d d' : Descriptor) : Prop where
  auxiliary : d'.isAuxiliary = true → d.isAuxiliary = true
  rank : d.isInsert = true → d'.isInsert = true → d.rank ≤ d'.rank
  exclusive : d.isInsert = true → d'.isInsert = true → d.isExclusive = false ∧ d'.isExclusive = false

namespace Chain

/-- What the scan of `addEffect_l` has found in the effects it saw. -/
structure Scanned (es : List Module) (s : InsertScan) : Prop where
  first : FirstAt (fun e => e.mDescriptor.isInsert) es s.first
  claimFirst : LastAt (fun e => e.mDescriptor.isInsert &&
    decide (e.mDescriptor.insertPref = effectFlagInsertFirst)) es s.claimFirst
  claimLast : FirstAt (fun e => e.mDescriptor.isInsert &&
    decide (e.mDescriptor.insertPref = effectFlagInsertLast)) es s.claimLast

variable {es seen : List Module} {e : Module} {d : Descriptor} {s : InsertScan} {i : ℕ}

theorem insertScan_spec (h : Scanned seen s) : Scanned (seen ++ es) (insertScan es seen.length s) := by
  induction es generalizing seen s with
  | nil =>
    rw [List.append_nil]
    exact h
  | cons e es ih =>
    have hstep := @ih (seen ++ [e])
    rw [List.append_assoc, List.singleton_append, List.length_append, List.length_singleton] at hstep
    have hfirst := h.first.concat e
    have hclaimFirst := h.claimFirst.concat e
    have hclaimLast := h.claimLast.concat e
    rw [insertScan]
    by_cases hinsert : e.mDescriptor.typeFlag = effectFlagTypeInsert
    · have hins : e.mDescriptor.isInsert = true := by rw [Descriptor.isInsert, hinsert]; rfl
      simp only [hins, Bool.true_and, decide_eq_true_eq, if_true] at hfirst hclaimFirst hclaimLast
      rw [if_pos hinsert]
      exact hstep ⟨hfirst, hclaimFirst, hclaimLast⟩
    · have hins : e.mDescriptor.isInsert = false := by
        rw [Descriptor.isInsert]
        exact decide_eq_false hinsert
      simp only [hins, Bool.false_and, Bool.false_eq_true, if_false] at hfirst hclaimFirst hclaimLast
      rw [if_neg hinsert]
      exact hstep ⟨hfirst, hclaimFirst, hclaimLast⟩

theorem insertScan_scanned (es : List Module) :
    Scanned es (insertScan es 0 ⟨false, none, none, none⟩) := by
  have h := @insertScan_spec es [] ⟨false, none, none, none⟩ ⟨firstAt_nil, lastAt_nil, firstAt_nil⟩
  rwa [List.nil_append] at h

end Chain

namespace Descriptor

theorem not_auxiliary {d : Descriptor} (h : d.isInsert = true) : d.isAuxiliary = false := by
  rw [isInsert, decide_eq_true_eq] at h
  rw [isAuxiliary, h]
  decide

theorem rank_le (d : Descriptor) : d.rank ≤ 2 := by
  rw [rank]
  split
  · exact Nat.zero_le 2
  · split <;> decide

theorem rank_of_first {d : Descriptor} (h : d.insertPref = effectFlagInsertFirst) : d.rank = 0 := by
  rw [rank, if_pos h]

theorem rank_of_last {d : Descriptor} (h : d.insertPref = effectFlagInsertLast) : d.rank = 2 := by
  rw [rank, h]
  decide

theorem rank_le_one {d : Descriptor} (h : d.insertPref ≠ effectFlagInsertLast) : d.rank ≤ 1 := by
  rw [rank, if_neg h]
  split <;> decide

theorem one_le_rank {d : Descriptor} (h : d.insertPref ≠ effectFlagInsertFirst) : 1 ≤ d.rank := by
  rw [rank, if_neg h]
  split <;> decide

end Descriptor

namespace Chain

/-- The effects of a chain in their order. -/
def InOrder (es : List Module) : Prop := es.Pairwise fun e e' => Precedes e.mDescriptor e'.mDescriptor

/-- Behind an effect that is inserted there are no auxiliary effects. -/
theorem InOrder.behind {before after : List Module} (h : InOrder (before ++ e :: after))
    (he : e.mDescriptor.isInsert = true) : ∀ x ∈ e :: after, x.mDescriptor.isAuxiliary = false := by
  intro x hx
  have haux := Descriptor.not_auxiliary he
  rcases List.mem_cons.mp hx with rfl | hx
  · exact haux
  · obtain ⟨-, hbehind, -⟩ := List.pairwise_append.mp h
    have hprecedes := (List.pairwise_cons.mp hbehind).1 x hx
    by_contra hne
    have haux' := hprecedes.auxiliary (by simpa using hne)
    rw [haux] at haux'
    cases haux'

/-- A new effect has a place in the order. -/
theorem insertIndex_cut (h : InOrder es) (haux : d.typeFlag ≠ effectFlagTypeAuxiliary)
    (hi : insertIndex d es = some i) :
    ∃ before after, es = before ++ after ∧ i = before.length ∧
      (∀ e ∈ before, Precedes e.mDescriptor d) ∧ ∀ e ∈ after, Precedes d e.mDescriptor := by
  have hd : d.isAuxiliary = false := decide_eq_false haux
  have halone : ∀ e ∈ es, e.mDescriptor.isInsert = true →
      e.mDescriptor.isExclusive = false ∧ d.isExclusive = false := by
    have hsome : (insertIndex d es).isSome = true := by rw [hi]; rfl
    exact (insertIndex_isSome.mp hsome).resolve_left haux
  have hbefore : ∀ e ∈ es, (e.mDescriptor.isInsert = true → e.mDescriptor.rank ≤ d.rank) →
      Precedes e.mDescriptor d := by
    intro e he hrank
    refine ⟨fun h => ?_, fun h _ => hrank h, fun h _ => halone e he h⟩
    rw [hd] at h
    cases h
  have hafter : ∀ e ∈ es, e.mDescriptor.isAuxiliary = false →
      (e.mDescriptor.isInsert = true → d.rank ≤ e.mDescriptor.rank) → Precedes d e.mDescriptor := by
    intro e he hne hrank
    refine ⟨fun h => ?_, fun _ h => hrank h, fun _ h => (halone e he h).symm⟩
    rw [hne] at h
    cases h
  obtain ⟨hfirst, hclaimFirst, hclaimLast⟩ := insertScan_scanned es
  rw [insertIndex, if_neg haux] at hi
  simp only at hi
  split at hi
  · cases hi
  split at hi
  next hlast =>
    have hrank := Descriptor.rank_of_last hlast
    rcases hclaimLast with ⟨hnone, -⟩ | ⟨before, x, after, heq, hsome, hx, -⟩
    · rw [hnone] at hi
      cases hi
      refine ⟨es, [], (List.append_nil es).symm, rfl, fun e he => ?_, by simp⟩
      exact hbefore e he fun _ => (Descriptor.rank_le _).trans_eq hrank.symm
    · rw [hsome] at hi
      cases hi
      obtain ⟨hins, hpref⟩ := Bool.and_eq_true_iff.mp hx
      have hxrank := Descriptor.rank_of_last (of_decide_eq_true hpref)
      have hbehind := InOrder.behind (heq ▸ h) hins
      refine ⟨before, x :: after, heq, rfl, fun e he => ?_, fun e he => ?_⟩
      · exact hbefore e (by simp [heq, he]) fun _ => (Descriptor.rank_le _).trans_eq hrank.symm
      · refine hafter e (by simp [heq, List.mem_cons.mp he]) (hbehind e he) fun hins' => ?_
        rcases List.mem_cons.mp he with rfl | he
        · rw [hrank, hxrank]
        · rw [heq] at h
          obtain ⟨-, hlater, -⟩ := List.pairwise_append.mp h
          have hle := ((List.pairwise_cons.mp hlater).1 e he).rank hins hins'
          rwa [hxrank, ← hrank] at hle
  next hlast =>
    have hrank := Descriptor.rank_le_one hlast
    rcases hclaimFirst with ⟨hnone, hno⟩ | ⟨before, x, after, heq, hsome, hx, hno⟩
    · have hhigh : ∀ e ∈ es, e.mDescriptor.isInsert = true → d.rank ≤ e.mDescriptor.rank := by
        intro e he hins
        have hpref : (e.mDescriptor.isInsert &&
          decide (e.mDescriptor.insertPref = effectFlagInsertFirst)) = false := hno e he
        rw [hins, Bool.true_and, decide_eq_false_iff_not] at hpref
        exact hrank.trans (Descriptor.one_le_rank hpref)
      rcases hfirst with ⟨hnone', hno'⟩ | ⟨before, x, after, heq, hsome, hx, hno'⟩
      · rw [hnone, hnone'] at hi
        cases hi
        refine ⟨es, [], (List.append_nil es).symm, rfl, fun e he => ?_, by simp⟩
        refine hbefore e he fun hins => ?_
        exact absurd (hins.symm.trans (hno' e he)) (by decide)
      · rw [hnone, hsome] at hi
        cases hi
        have hbehind := InOrder.behind (heq ▸ h) hx
        refine ⟨before, x :: after, heq, rfl, fun e he => ?_, fun e he => ?_⟩
        · refine hbefore e (by simp [heq, he]) fun hins => ?_
          exact absurd (hins.symm.trans (hno' e he)) (by decide)
        · have hmem : e ∈ es := by simp [heq, List.mem_cons.mp he]
          exact hafter e hmem (hbehind e he) (hhigh e hmem)
    · rw [hsome] at hi
      cases hi
      obtain ⟨hins, hpref⟩ := Bool.and_eq_true_iff.mp hx
      have hxrank := Descriptor.rank_of_first (of_decide_eq_true hpref)
      have hbehind := InOrder.behind (heq ▸ h) hins
      refine ⟨before ++ [x], after, by simp [heq], by simp, fun e he => ?_, fun e he => ?_⟩
      · have hmem : e ∈ es := by
          rw [heq]
          rcases List.mem_append.mp he with he | he
          · exact List.mem_append_left _ he
          · simp [List.mem_singleton.mp he]
        refine hbefore e hmem fun hins' => ?_
        rcases List.mem_append.mp he with he | he
        · rw [heq] at h
          obtain ⟨-, -, hcross⟩ := List.pairwise_append.mp h
          have hle := (hcross e he x (List.mem_cons_self ..)).rank hins' hins
          lia
        · rw [List.mem_singleton.mp he, hxrank]
          exact Nat.zero_le _
      · refine hafter e (by simp [heq, he]) (hbehind e (List.mem_cons_of_mem x he)) fun hins' => ?_
        have hpref' : (e.mDescriptor.isInsert &&
          decide (e.mDescriptor.insertPref = effectFlagInsertFirst)) = false := hno e he
        rw [hins', Bool.true_and, decide_eq_false_iff_not] at hpref'
        exact hrank.trans (Descriptor.one_le_rank hpref')

end Chain

/-! ## The buffers of the effects -/

/-- An effect that reads the input buffer unless it is auxiliary, writes `out` and is configured for
its buffers. -/
structure Wired (inBuffer out : ℕ) (p : Placed) : Prop where
  reads : p.module.mDescriptor.isAuxiliary = false → p.inBuffer = inBuffer
  writes : p.outBuffer = out
  configured : p.accessMode = if p.inBuffer ≠ p.outBuffer then .accumulate else .write

/-- All effects write the input buffer, but the last writes the output buffer. -/
def WiredAll (inBuffer outBuffer : ℕ) (es : List Placed) : Prop :=
  ∀ i p, es[i]? = some p → Wired inBuffer (if i + 1 = es.length then outBuffer else inBuffer) p

variable {inBuffer outBuffer out : ℕ} {es : List Placed} {p : Placed} {i : ℕ}

theorem Wired.reroute (h : Wired inBuffer out p) (buffer : ℕ) : Wired inBuffer buffer (p.reroute buffer) :=
  ⟨h.reads, rfl, rfl⟩

theorem wired_configure {p : Placed} (h : p.module.mDescriptor.isAuxiliary = false → p.inBuffer = inBuffer) :
    Wired inBuffer p.outBuffer p.configure := ⟨h, rfl, rfl⟩

theorem modify_reroute_of (hw : WiredAll inBuffer outBuffer es) (i buffer : ℕ) {j : ℕ}
    (hp : (es.modify i (Placed.reroute buffer))[j]? = some p) :
    Wired inBuffer (if i = j then buffer else if j + 1 = es.length then outBuffer else inBuffer) p := by
  rw [List.getElem?_modify] at hp
  obtain ⟨q, hq, rfl⟩ := Option.map_eq_some_iff.mp hp
  split
  · exact (hw j q hq).reroute buffer
  · exact hw j q hq

/-- A new effect that is not the last. -/
theorem WiredAll.insertIdx (hw : WiredAll inBuffer outBuffer es) (hi : i < es.length)
    (hp : Wired inBuffer inBuffer p) : WiredAll inBuffer outBuffer (es.insertIdx i p) := by
  have hlength : (es.insertIdx i p).length = es.length + 1 := List.length_insertIdx_of_le_length hi.le p
  intro j q hq
  rw [hlength]
  rw [List.getElem?_insertIdx] at hq
  split at hq
  next hlt =>
    have hwired := hw j q hq
    rw [if_neg (by omega)] at hwired ⊢
    exact hwired
  next hge =>
    split at hq
    next heq =>
      rw [if_pos (by omega)] at hq
      cases hq
      rw [if_neg (by omega)]
      exact hp
    next hne =>
      have hwired := hw (j - 1) q hq
      have hsame : j - 1 + 1 = es.length ↔ j + 1 = es.length + 1 := by omega
      simpa only [hsame] using hwired

/-- A new last effect; the one before it is rerouted. -/
theorem WiredAll.append (hw : WiredAll inBuffer outBuffer es) (hp : Wired inBuffer outBuffer p) :
    WiredAll inBuffer outBuffer
      ((if es.length ≠ 0 then es.modify (es.length - 1) (Placed.reroute inBuffer) else es).insertIdx
        es.length p) := by
  generalize hes' : (if es.length ≠ 0 then es.modify (es.length - 1) (Placed.reroute inBuffer)
    else es) = es'
  have hes : ∀ {j : ℕ} {q : Placed}, es'[j]? = some q →
      j < es.length ∧ Wired inBuffer inBuffer q := by
    intro j q hq
    rw [← hes'] at hq
    have hlt : j < es.length := by
      obtain ⟨hlt, -⟩ := List.getElem?_eq_some_iff.mp hq
      split at hlt
      · rwa [List.length_modify] at hlt
      · exact hlt
    rw [if_pos (Nat.ne_of_gt (Nat.zero_lt_of_lt hlt))] at hq
    have hwired := modify_reroute_of hw _ _ hq
    refine ⟨hlt, ?_⟩
    by_cases hlast : es.length - 1 = j
    · rwa [if_pos hlast] at hwired
    · rwa [if_neg hlast, if_neg (by omega)] at hwired
  have hlen : es'.length = es.length := by
    rw [← hes']
    split
    · exact List.length_modify ..
    · rfl
  intro j q hq
  rw [List.length_insertIdx_of_le_length hlen.ge p, hlen]
  rw [List.getElem?_insertIdx] at hq
  split at hq
  next hlt =>
    rw [if_neg (by omega)]
    exact (hes hq).2
  next hge =>
    split at hq
    next heq =>
      rw [if_pos (by omega)] at hq
      cases hq
      rw [if_pos (by omega)]
      exact hp
    next hne =>
      have hlt := (hes hq).1
      omega

/-- An effect goes; the one before it is rerouted if it was the last, unless both buffers are one. -/
theorem WiredAll.eraseIdx (hw : WiredAll inBuffer outBuffer es) {reroutes : Bool}
    (hreroutes : reroutes = true → i = es.length - 1 ∧ i ≠ 0)
    (hkeeps : reroutes = false → i = es.length - 1 → i ≠ 0 → inBuffer = outBuffer) (hi : i < es.length) :
    WiredAll inBuffer outBuffer
      ((if reroutes then es.modify (i - 1) (Placed.reroute outBuffer) else es).eraseIdx i) := by
  have hlen : ((if reroutes then es.modify (i - 1) (Placed.reroute outBuffer) else es).eraseIdx i).length =
      es.length - 1 := by
    split
    · rw [List.length_eraseIdx_of_lt (by rwa [List.length_modify]), List.length_modify]
    · rw [List.length_eraseIdx_of_lt hi]
  intro j q hq
  rw [hlen]
  rw [List.getElem?_eraseIdx] at hq
  cases reroutes with
  | true =>
    obtain ⟨hlast, hne⟩ := hreroutes rfl
    rw [if_pos rfl] at hq
    split at hq
    next hlt =>
      have hwired := modify_reroute_of hw _ _ hq
      by_cases heq : i - 1 = j
      · rw [if_pos heq] at hwired
        rw [if_pos (by lia)]
        exact hwired
      · rw [if_neg heq, if_neg (by lia)] at hwired
        rw [if_neg (by lia)]
        exact hwired
    next hge =>
      obtain ⟨hlt, -⟩ := List.getElem?_eq_some_iff.mp hq
      rw [List.length_modify] at hlt
      lia
  | false =>
    rw [if_neg Bool.false_ne_true] at hq
    split at hq
    next hlt =>
      have hwired := hw j q hq
      rw [if_neg (by lia)] at hwired
      split
      next hlast =>
        rw [← hkeeps rfl (by lia) (by lia)]
        exact hwired
      next => exact hwired
    next hge =>
      have hwired := hw (j + 1) q hq
      obtain ⟨hlt, -⟩ := List.getElem?_eq_some_iff.mp hq
      have hsame : j + 1 + 1 = es.length ↔ j + 1 = es.length - 1 := by lia
      simpa only [hsame] using hwired

/-! ## The invariant -/

namespace RoutedChain

/-- The effects are in their order and wired; an auxiliary one is there only if the buffers are one. -/
structure Consistent (c : RoutedChain) : Prop where
  order : c.mEffects.Pairwise fun p q => Precedes p.module.mDescriptor q.module.mDescriptor
  wired : WiredAll c.mInBuffer c.mOutBuffer c.mEffects
  auxiliary : ∀ p ∈ c.mEffects, p.module.mDescriptor.isAuxiliary = true → c.mInBuffer = c.mOutBuffer

variable {c c' : RoutedChain} {e : RoutingEvent}

theorem consistent_new (inBuffer outBuffer : ℕ) : (new inBuffer outBuffer).Consistent :=
  ⟨List.Pairwise.nil, fun i p h => by simp [new] at h, nofun⟩

/-- Rerouting keeps the effects. -/
theorem modules_modify (es : List Placed) (i buffer : ℕ) :
    (es.modify i (Placed.reroute buffer)).map Placed.module = es.map Placed.module := by
  apply List.ext_getElem?
  intro j
  rw [List.getElem?_map, List.getElem?_map, List.getElem?_modify]
  cases es[j]? with
  | none => rfl
  | some p =>
    change some _ = some _
    split <;> rfl

/-- The order of effects does not depend on their buffers. -/
theorem inOrder_map {es : List Placed} : Chain.InOrder (es.map Placed.module) ↔
    es.Pairwise fun p q => Precedes p.module.mDescriptor q.module.mDescriptor := by
  rw [Chain.InOrder, List.pairwise_map]

/-- The order and the kind of effects, with any buffers. -/
theorem Consistent.of_modules {es : List Placed} (hc : c.Consistent) (hsub : (es.map Placed.module).Sublist c.modules)
    (hwired : WiredAll c.mInBuffer c.mOutBuffer es) : Consistent { c with mEffects := es } where
  order := by
    have horder : Chain.InOrder c.modules := inOrder_map.mpr hc.order
    exact inOrder_map.mp (horder.sublist hsub)
  wired := hwired
  auxiliary := by
    intro p hp haux
    obtain ⟨q, hq, heq⟩ := List.mem_map.mp (hsub.subset (List.mem_map_of_mem hp))
    exact hc.auxiliary q hq (by rw [heq]; exact haux)

theorem Consistent.addEffect (hc : c.Consistent) (thread : Bool) (buffer : ℕ) (mode : AccessMode) {m : Module}
    (hbuffers : m.mDescriptor.isAuxiliary = true → c.mInBuffer = c.mOutBuffer) :
    (c.addEffect thread buffer mode m).1.Consistent := by
  rw [RoutedChain.addEffect]
  split
  · exact hc
  split
  next haux =>
    have haux' : m.mDescriptor.isAuxiliary = true := decide_eq_true haux
    have hinsert : m.mDescriptor.isInsert = false := by
      by_contra h
      have hne := Descriptor.not_auxiliary (by simpa using h : m.mDescriptor.isInsert = true)
      rw [haux'] at hne
      cases hne
    have hsame := hbuffers haux'
    refine ⟨List.pairwise_cons.mpr ⟨fun q _ => ⟨fun _ => haux', fun h => ?_, fun h => ?_⟩, hc.order⟩, ?_,
      fun _ _ _ => hsame⟩
    · exact absurd (h.symm.trans hinsert) (by decide)
    · exact absurd (h.symm.trans hinsert) (by decide)
    · intro i p hp
      cases i with
      | zero =>
        cases hp
        have hwired := @wired_configure c.mInBuffer (Placed.mk m buffer c.mInBuffer mode) fun h => by
          rw [haux'] at h
          cases h
        rw [← hsame, ite_self]
        exact hwired
      | succ i =>
        have hwired := hc.wired i p hp
        have hlen : i + 1 + 1 = (List.length ((Placed.mk m buffer c.mInBuffer mode).configure :: c.mEffects)) ↔
            i + 1 = c.mEffects.length := by
          rw [List.length_cons]
          lia
        simpa only [hlen] using hwired
  next haux =>
    split
    next => exact hc
    next i hi =>
      have hnot : m.mDescriptor.isAuxiliary = false := decide_eq_false haux
      have horder : Chain.InOrder c.modules := inOrder_map.mpr hc.order
      obtain ⟨before, after, hcut, hlen, hbefore, hafter⟩ := Chain.insertIndex_cut horder haux hi
      have hle := Chain.insertIndex_le hi
      rw [modules, List.length_map] at hle
      -- The place of the new effect, whatever buffers the others have.
      have hplace : ∀ (es : List Placed) (q : Placed), q.module = m → es.map Placed.module = c.modules →
          WiredAll c.mInBuffer c.mOutBuffer (es.insertIdx i q) →
            Consistent { c with mEffects := es.insertIdx i q } := by
        intro es q hq hmap hwired
        refine ⟨?_, hwired, fun p hp haux' => ?_⟩
        · have hpairs : es.Pairwise fun p q => Precedes p.module.mDescriptor q.module.mDescriptor := by
            apply inOrder_map.mp
            rw [hmap]
            exact horder
          rw [hcut, List.map_eq_append_iff] at hmap
          obtain ⟨es₁, es₂, rfl, rfl, rfl⟩ := hmap
          rw [hlen, List.length_map]
          refine pairwise_insertIdx hpairs (fun y hy => ?_) fun y hy => ?_
          · rw [hq]
            exact hbefore y.module (List.mem_map_of_mem hy)
          · rw [hq]
            exact hafter y.module (List.mem_map_of_mem hy)
        · rcases List.eq_or_mem_of_mem_insertIdx hp with rfl | hp
          · rw [hq, hnot] at haux'
            cases haux'
          · have hmem : p.module ∈ c.modules := by
              rw [← hmap]
              exact List.mem_map_of_mem hp
            obtain ⟨q', hq', heq⟩ := List.mem_map.mp hmem
            exact hc.auxiliary q' hq' (by rw [heq]; exact haux')
      split
      next hlast =>
        subst hlast
        refine hplace _ _ rfl ?_ (hc.wired.append
          (@wired_configure c.mInBuffer (Placed.mk m c.mInBuffer c.mOutBuffer mode) fun _ => rfl))
        split
        · exact modules_modify ..
        · rfl
      next hmiddle =>
        exact hplace _ _ rfl rfl (hc.wired.insertIdx (Nat.lt_of_le_of_ne hle hmiddle)
          (@wired_configure c.mInBuffer (Placed.mk m c.mInBuffer c.mInBuffer mode) fun _ => rfl))

theorem Consistent.removeEffect (hc : c.Consistent) (self : ℕ) : (c.removeEffect self).Consistent := by
  rw [RoutedChain.removeEffect]
  cases hfind : c.mEffects.findIdx? fun p => decide (p.module.self = self) with
  | none => exact hc
  | some i =>
    simp only
    obtain ⟨hi, -⟩ := List.findIdx?_eq_some_iff_getElem.mp hfind
    apply hc.of_modules
    · have hsub : ∀ es : List Placed, es.map Placed.module = c.modules →
          ((es.eraseIdx i).map Placed.module).Sublist c.modules := by
        intro es hmap
        rw [← hmap]
        exact (List.eraseIdx_sublist es i).map _
      apply hsub
      split
      · exact modules_modify ..
      · rfl
    · apply hc.wired.eraseIdx _ _ hi
      · intro h
        simp only [Bool.and_eq_true, decide_eq_true_eq] at h
        exact ⟨h.1.2, h.2⟩
      · intro h hlast hne
        -- The last effect is auxiliary.
        simp only [← hlast, hne, ne_eq, not_false_eq_true, decide_true, Bool.and_true,
          Bool.not_eq_false'] at h
        rw [List.getElem?_eq_getElem hi, Option.any_some] at h
        exact hc.auxiliary c.mEffects[i] (List.getElem_mem hi) h

theorem Consistent.step (hc : c.Consistent) (hstep : c.step e = some c') : c'.Consistent := by
  rw [RoutedChain.step] at hstep
  split at hstep
  next hpossible =>
    cases hstep
    cases e with
    | add thread buffer mode m =>
      apply hc.addEffect
      intro haux
      have hboth := (Bool.and_eq_true_iff.mp hpossible).2
      have htype : m.mDescriptor.typeFlag = effectFlagTypeAuxiliary := of_decide_eq_true haux
      simpa [htype] using hboth
    | remove self => exact hc.removeEffect self
  next => cases hstep

/-- An effect of the chain is wired for its place. -/
theorem Consistent.wired_mem (hc : c.Consistent) {p : Placed} (hp : p ∈ c.mEffects) :
    ∃ out, Wired c.mInBuffer out p := by
  obtain ⟨i, hi⟩ := List.mem_iff_getElem?.mp hp
  exact ⟨_, hc.wired i p hi⟩

/-- The invariant says that the chain is in order. -/
theorem Consistent.wellRouted (hc : c.Consistent) : c.WellRouted where
  auxiliaryFirst := hc.order.imp fun h => h.auxiliary
  ordered := by
    apply List.Pairwise.imp_of_mem _ (hc.order.filter _)
    intro p q hp hq h
    exact h.rank (List.mem_filter.mp hp).2 (List.mem_filter.mp hq).2
  exclusive := by
    intro p hp hexclusive
    have hpairs : c.inserted.Pairwise fun p q =>
        p.module.mDescriptor.isExclusive = false ∧ q.module.mDescriptor.isExclusive = false := by
      apply List.Pairwise.imp_of_mem _ (hc.order.filter _)
      intro p q hp hq h
      exact h.exclusive (List.mem_filter.mp hp).2 (List.mem_filter.mp hq).2
    obtain ⟨before, after, heq⟩ := List.append_of_mem hp
    rw [heq] at hpairs ⊢
    obtain ⟨-, hbehind, hcross⟩ := List.pairwise_append.mp hpairs
    have hbefore : before = [] := List.eq_nil_iff_forall_not_mem.mpr fun q hq => by
      have h := (hcross q hq p (List.mem_cons_self ..)).2
      rw [hexclusive] at h
      cases h
    have hafter : after = [] := List.eq_nil_iff_forall_not_mem.mpr fun q hq => by
      have h := ((List.pairwise_cons.mp hbehind).1 q hq).1
      rw [hexclusive] at h
      cases h
    rw [hbefore, hafter, List.nil_append]
  reads := by
    intro p hp
    obtain ⟨hmem, hinsert⟩ := List.mem_filter.mp hp
    obtain ⟨out, hwired⟩ := hc.wired_mem hmem
    exact hwired.reads (Descriptor.not_auxiliary hinsert)
  last := by
    intro p hp
    rw [List.getLast?_eq_getElem?] at hp
    have hwired := hc.wired _ p hp
    obtain ⟨hlt, -⟩ := List.getElem?_eq_some_iff.mp hp
    rw [if_pos (by omega)] at hwired
    exact hwired.writes
  others := by
    intro p hp
    obtain ⟨i, hi⟩ := List.mem_iff_getElem?.mp hp
    rw [List.getElem?_dropLast] at hi
    split at hi
    next hlt =>
      have hwired := hc.wired i p hi
      rw [if_neg (by omega)] at hwired
      exact hwired.writes
    next => cases hi
  configured := by
    intro p hp
    obtain ⟨out, hwired⟩ := hc.wired_mem hp
    exact hwired.configured

/-- An effect that is rejected leaves the chain as it is. -/
theorem addEffect_rejected (thread : Bool) (buffer : ℕ) (mode : AccessMode) (m : Module)
    (h : (c.addEffect thread buffer mode m).2 ≠ .noError) : (c.addEffect thread buffer mode m).1 = c := by
  rw [addEffect] at h ⊢
  split at h
  next hgone => rw [if_pos hgone]
  next hthere =>
    rw [if_neg hthere]
    split at h
    · exact absurd rfl h
    next haux =>
      rw [if_neg haux]
      cases hi : Chain.insertIndex m.mDescriptor c.modules with
      | none => rfl
      | some i =>
        rw [hi] at h
        simp only at h
        split at h <;> exact absurd rfl h

/-! ## Without the buffers -/

/-- The chain of the session without the buffers of its effects. -/
def toChain (session : ℤ) (suspended : KeyedVector ℕ SuspendedEffectDesc) (c : RoutedChain) : Chain :=
  ⟨session, c.modules, suspended⟩

theorem map_insertIdx (es : List Placed) (i : ℕ) (p : Placed) :
    (es.insertIdx i p).map Placed.module = (es.map Placed.module).insertIdx i p.module := by
  apply List.ext_getElem?
  intro j
  rw [List.getElem?_map, List.getElem?_insertIdx, List.getElem?_insertIdx, List.getElem?_map,
    List.getElem?_map, List.length_map]
  split
  · rfl
  · split
    · split <;> rfl
    · rfl

/-- With the buffers and without them an effect goes to the same place. -/
theorem addEffect_toChain (session : ℤ) (suspended : KeyedVector ℕ SuspendedEffectDesc) (buffer : ℕ)
    (mode : AccessMode) (m : Module) : (c.toChain session suspended).addEffect m =
      if (c.addEffect true buffer mode m).2 = .noError then
        some ((c.addEffect true buffer mode m).1.toChain session suspended)
      else none := by
  rw [Chain.addEffect, toChain, addEffect]
  simp only [Bool.not_true, Bool.false_eq_true, if_false]
  by_cases haux : m.mDescriptor.typeFlag = effectFlagTypeAuxiliary
  · rw [Chain.insertIndex, if_pos haux, if_pos haux]
    rfl
  · rw [if_neg haux]
    cases hi : Chain.insertIndex m.mDescriptor c.modules with
    | none => rfl
    | some i =>
      have hsame : ∀ (es : List Placed) (q : Placed), es.map Placed.module = c.modules → q.module = m →
          some (Chain.mk session (c.modules.insertIdx i m) suspended) =
            some (Chain.mk session ((es.insertIdx i q).map Placed.module) suspended) := by
        intro es q hes hq
        rw [map_insertIdx, hes, hq]
      simp only [Option.map_some]
      split
      · rw [if_pos rfl]
        apply hsame _ _ _ rfl
        split
        · exact modules_modify ..
        · rfl
      · rw [if_pos rfl]
        exact hsame _ _ rfl rfl

/-! ## Runs -/

/-- However effects come and go, the chain is in order, and a rejected effect changes nothing. -/
theorem routing_along (inBuffer outBuffer : ℕ) (es : List RoutingEvent) (c : RoutedChain)
    (hrun : Machine.run step (new inBuffer outBuffer) es = some c) :
    c.WellRouted ∧ ∀ (thread : Bool) (buffer : ℕ) (mode : AccessMode) (m : Module),
      (c.addEffect thread buffer mode m).2 ≠ .noError → (c.addEffect thread buffer mode m).1 = c := by
  have hc : c.Consistent := Machine.run_invariant (fun _ _ _ hstep h => h.step hstep) hrun
    (consistent_new inBuffer outBuffer)
  exact ⟨hc.wellRouted, fun thread buffer mode m h => addEffect_rejected thread buffer mode m h⟩

/-- An effect with given flags. -/
def flagged (self : ℕ) (flags : BitVec 32) : Module := .new self self 0 ⟨⟨self, 0⟩, ⟨self, 0⟩, flags⟩

/-- Two auxiliary effects and four that are inserted; the last one goes, and an exclusive one is
refused. -/
def routed : List RoutingEvent :=
  [.add true 0 .write (flagged 1 0x10#32), .add true 0 .write (flagged 2 0x08#32),
    .add true 50 .write (flagged 3 1#32), .add true 0 .write (flagged 4 0#32),
    .add true 60 .write (flagged 5 1#32), .add true 0 .write (flagged 6 0x08#32), .remove 1,
    .add true 0 .write (flagged 7 0x18#32)]

theorem routing_along_routed : ∃ c, Machine.run step (new 100 100) routed = some c ∧ c.WellRouted ∧
    (c.mEffects.map fun p => (p.module.self, p.inBuffer)) =
      [(5, 60), (3, 50), (2, 100), (6, 100), (4, 100)] ∧
    (c.addEffect true 0 .write (flagged 7 0x18#32)).1 = c := by
  have hrun := Option.eq_some_of_isSome (by decide : (Machine.run step (new 100 100) routed).isSome = true)
  obtain ⟨hrouted, hrejected⟩ := routing_along 100 100 routed _ hrun
  exact ⟨_, hrun, hrouted, by decide, hrejected _ _ _ _ (by decide)⟩

end RoutedChain

end AudioFlinger.Effects
