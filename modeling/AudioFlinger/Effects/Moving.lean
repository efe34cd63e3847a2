import AudioFlinger.Effects.Routing
import AudioFlinger.Foundation.KeyedList

/-!
# Moving a chain to another thread

`moveEffectChain_l` takes the effects of a chain one by one, from the front, and
adds each to the destination by the rule for a new effect. That rule puts few
effects at the end: what it does to a chain depends on the positions that the
effects claim.
-/

namespace AudioFlinger.Effects

open Foundation Positions

/-! ## Threads -/

structure SessionTrack where
  sessionId : ℤ
  mainBuffer : ℕ
deriving DecidableEq

/-- A chain at its address `self`, with its session. -/
structure ThreadChain where
  self : ℕ
  mSessionId : ℤ
  chain : RoutedChain
deriving DecidableEq

/-- A playback thread with its tracks; `direct` says that `mType` is `DIRECT`. -/
structure MixThread where
  direct : Bool
  mMixBuffer : ℕ
  mTracks : List SessionTrack
  mEffectChains : List ThreadChain
deriving DecidableEq

namespace MixThread

def getEffectChain (t : MixThread) (session : ℤ) : Option ThreadChain :=
  t.mEffectChains.find? fun c => c.mSessionId = session

/-- `setMainBuffer` of all tracks of a session. -/
def setMainBuffer (session : ℤ) (buffer : ℕ) (t : MixThread) : MixThread :=
  { t with
    mTracks := t.mTracks.map fun x =>
      if x.sessionId = session then { x with mainBuffer := buffer } else x }

/-- `addEffectChain_l`, of a new chain, with the buffer that is allocated for its input. -/
def addEffectChain (self buffer : ℕ) (session : ℤ) (t : MixThread) : MixThread :=
  let inBuffer := if 0 < session && !t.direct then buffer else t.mMixBuffer
  { (if 0 < session then t.setMainBuffer session inBuffer else t) with
    mEffectChains := t.mEffectChains.insertIdx
      (t.mEffectChains.findIdx fun c => c.mSessionId < session)
      ⟨self, session, .new inBuffer t.mMixBuffer⟩ }

/-- `removeEffectChain_l`, of the chain at an address. -/
def removeEffectChain (self : ℕ) (t : MixThread) : MixThread :=
  match t.mEffectChains.find? fun c => c.self = self with
  | none => t
  | some c =>
    { t.setMainBuffer c.mSessionId t.mMixBuffer with
      mEffectChains := t.mEffectChains.eraseP fun c => c.self = self }

/-- Write the chain at its address. -/
def updateChain (self : ℕ) (chain : RoutedChain) (t : MixThread) : MixThread :=
  { t with
    mEffectChains := t.mEffectChains.map fun c =>
      if c.self = self then { c with chain := chain } else c }

end MixThread

/-- The threads, of which two names may stand for one, and the next address that is free. -/
structure Mixers where
  thread : ℕ → MixThread
  next : ℕ

namespace Mixers

def onThread (i : ℕ) (f : MixThread → MixThread) (w : Mixers) : Mixers :=
  { w with thread := Function.update w.thread i (f (w.thread i)) }

/-- A new chain and the buffer for its input. -/
def newChain (i : ℕ) (session : ℤ) (w : Mixers) : Mixers :=
  { w.onThread i (MixThread.addEffectChain w.next (w.next + 1) session) with next := w.next + 2 }

def getEffectFromId (c : RoutedChain) (id : ℤ) : Option Placed :=
  c.mEffects.find? fun p => id = 0 || p.module.mId = id

/-- The rest of `ThreadBase::addEffect_l`, where there is a chain; one that was created for the
effect goes if it cannot be added. -/
def addToChain (chainCreated : Bool) (i : ℕ) (p : Placed) (w : Mixers) : Mixers :=
  match (w.thread i).getEffectChain p.module.mSessionId with
  | none => w
  | some c =>
    if (getEffectFromId c.chain p.module.mId).isSome then w
    else
      match c.chain.addEffect true w.next p.accessMode p.module with
      | (chain, .noError) =>
        { w.onThread i (MixThread.updateChain c.self chain) with next := w.next + 1 }
      | _ => if chainCreated then w.onThread i (MixThread.removeEffectChain c.self) else w

/-- `ThreadBase::addEffect_l`. -/
def addEffect (i : ℕ) (p : Placed) (w : Mixers) : Mixers :=
  if ((w.thread i).getEffectChain p.module.mSessionId).isNone then
    (w.newChain i p.module.mSessionId).addToChain true i p
  else w.addToChain false i p

/-- The loop of `moveEffectChain_l`, with the chain that was at `old`, and whether the chain of the
destination is known. The chain of an effect is gone only if its thread has none for its session. -/
def moveEffects (src dst old : ℕ) : ℕ → RoutedChain → Bool → Mixers → Option (AddStatus × Mixers)
  | 0, _, _, _ => none
  | fuel + 1, chain, dstChain, w =>
    match getEffectFromId chain 0 with
    | none => some (.noError, w)
    | some p =>
      let chain := chain.removeEffect p.module.self
      let w := if chain.mEffects = [] then w.onThread src (MixThread.removeEffectChain old) else w
      let w := w.addEffect dst p
      if !dstChain && ((w.thread dst).getEffectChain p.module.mSessionId).isNone then
        some (.noInit, w.addEffect src p)
      else moveEffects src dst old fuel chain true w

/-- `moveEffectChain_l`. -/
def moveEffectChain (fuel src dst : ℕ) (session : ℤ) (w : Mixers) : Option (AddStatus × Mixers) :=
  match (w.thread src).getEffectChain session with
  | none => some (.invalidOperation, w)
  | some c =>
    moveEffects src dst c.self fuel c.chain false
      (w.onThread src (MixThread.removeEffectChain c.self))

/-! ## What is claimed -/

/-- The chain of the session on one thread, and no other thread has one to take its place; chains
and effects are objects of their own, and the effects are of the session. -/
structure Ready (w : Mixers) (src dst : ℕ) (session : ℤ) (c : ThreadChain) : Prop where
  found : (w.thread src).getEffectChain session = some c
  absent : src ≠ dst → (w.thread dst).getEffectChain session = none
  selves : ((w.thread src).mEffectChains.map ThreadChain.self).Nodup
  sessions : ((w.thread src).mEffectChains.map ThreadChain.mSessionId).Nodup
  fresh : ∀ x ∈ (w.thread src).mEffectChains, x.self < w.next
  effects : (c.chain.modules.map Module.self).Nodup
  own : ∀ m ∈ c.chain.modules, m.mSessionId = session

/-- The effects of a session on a thread, in their order and with their states. -/
def effectsOf (w : Mixers) (i : ℕ) (session : ℤ) : List Module :=
  ((w.thread i).getEffectChain session).elim [] fun c => c.chain.modules

/-- What the tracks of a session are to write to. -/
def inputOf (t : MixThread) (session : ℤ) : ℕ :=
  (t.getEffectChain session).elim t.mMixBuffer fun c => c.chain.mInBuffer

def Attached (t : MixThread) (session : ℤ) : Prop :=
  ∀ x ∈ t.mTracks, x.sessionId = session → x.mainBuffer = inputOf t session

structure Preserved (w' : Mixers) (src dst : ℕ) (session : ℤ) (c : ThreadChain) : Prop where
  effects : w'.effectsOf dst session = c.chain.modules
  source : src ≠ dst → (w'.thread src).getEffectChain session = none
  tracks : Attached (w'.thread src) session ∧ Attached (w'.thread dst) session

end Mixers

/-- A new effect goes to the end of these: an auxiliary one only as the first; another one if none
of them is inserted, or if it may be inserted with them, and it is the first of them to claim the
last position, or does not claim that one and follows one that claims the first. -/
def AtEnd (d : Descriptor) (es : List Module) : Prop :=
  if d.isAuxiliary then es = []
  else
    (∀ e ∈ es, e.mDescriptor.isInsert = false) ∨
      (d.isExclusive = false ∧
        (∀ e ∈ es, e.mDescriptor.isInsert = true → e.mDescriptor.isExclusive = false) ∧
        if d.insertPref = effectFlagInsertLast then
          ∀ e ∈ es, e.mDescriptor.isInsert = true → e.mDescriptor.insertPref ≠ effectFlagInsertLast
        else ∃ e ∈ es.getLast?, e.mDescriptor.isInsert = true ∧
          e.mDescriptor.insertPref = effectFlagInsertFirst)

/-- A new effect has an identifier of its own, and goes to the end. -/
def Behind (es : List Module) (m : Module) : Prop :=
  (es = [] ∨ m.mId ≠ 0 ∧ ∀ e ∈ es, e.mId ≠ m.mId) ∧ AtEnd m.mDescriptor es

/-! ## Where an effect goes -/

/-- The effects of a chain with a new one, unless its identifier is taken or it is rejected. -/
def place (es : List Module) (m : Module) : List Module :=
  if es.any fun e => m.mId = 0 || e.mId = m.mId then es
  else (Chain.insertIndex m.mDescriptor es).elim es fun i => es.insertIdx i m

theorem puts_place : Puts place := by
  intro es m
  unfold place
  split_ifs
  · exact .inl rfl
  · rcases hi : Chain.insertIndex m.mDescriptor es with _ | i
    · exact .inl rfl
    · exact .inr ⟨i, Chain.insertIndex_le hi, rfl⟩

variable {es : List Module} {m : Module} {d : Descriptor}

theorem insertIndex_eq_length_iff : Chain.insertIndex d es = some es.length ↔ AtEnd d es := by
  unfold AtEnd
  by_cases haux : d.typeFlag = effectFlagTypeAuxiliary
  · have hauxiliary : d.isAuxiliary = true := decide_eq_true haux
    rw [Chain.insertIndex, if_pos haux, if_pos hauxiliary, Option.some_inj, eq_comm,
      List.length_eq_zero_iff]
  · have hauxiliary : ¬ d.isAuxiliary = true := fun h => haux (of_decide_eq_true h)
    rw [if_neg hauxiliary]
    obtain ⟨hfirst, hclaimFirst, hclaimLast⟩ := Chain.insertScan_scanned es
    have hplaced := @Chain.insertIndex_isSome es d
    rw [Chain.insertIndex, if_neg haux] at hplaced ⊢
    generalize Chain.insertScan es 0 ⟨false, none, none, none⟩ = s at *
    dsimp only at hplaced ⊢
    by_cases hconflict : (s.exclusive ||
        (s.first.isSome && decide (d.insertPref = effectFlagInsertExclusive))) = true
    · rw [if_pos hconflict] at hplaced ⊢
      refine iff_of_false (by simp) fun hend => ?_
      have hnone : ∀ e ∈ es, e.mDescriptor.isInsert = true →
          e.mDescriptor.isExclusive = false ∧ d.isExclusive = false := by
        intro e he hinsert
        rcases hend with hno | ⟨hd, hall, -⟩
        · rw [hno e he] at hinsert
          cases hinsert
        · exact ⟨hall e he hinsert, hd⟩
      exact absurd (hplaced.mpr (.inr hnone)) (by simp)
    · rw [if_neg hconflict] at hplaced ⊢
      have haccepted : ∀ e ∈ es, e.mDescriptor.isInsert = true →
          e.mDescriptor.isExclusive = false ∧ d.isExclusive = false := by
        refine (hplaced.mp ?_).resolve_left haux
        split_ifs <;> rfl
      have hsplit : (∀ e ∈ es, e.mDescriptor.isInsert = false) ∨
          d.isExclusive = false ∧
            ∀ e ∈ es, e.mDescriptor.isInsert = true → e.mDescriptor.isExclusive = false := by
        by_cases hno : ∀ e ∈ es, e.mDescriptor.isInsert = false
        · exact .inl hno
        · push Not at hno
          obtain ⟨e, he, hinsert⟩ := hno
          rw [ne_eq, Bool.not_eq_false] at hinsert
          exact .inr ⟨(haccepted e he hinsert).2, fun e he hinsert => (haccepted e he hinsert).1⟩
      by_cases hlast : d.insertPref = effectFlagInsertLast
      · rw [if_pos hlast, if_pos hlast, Option.some_inj, FirstAt.getD_eq_length_iff hclaimLast]
        have hclaims : (∀ e ∈ es, (e.mDescriptor.isInsert &&
            decide (e.mDescriptor.insertPref = effectFlagInsertLast)) = false) ↔
              ∀ e ∈ es, e.mDescriptor.isInsert = true →
                e.mDescriptor.insertPref ≠ effectFlagInsertLast := by
          refine forall₂_congr fun e _ => ?_
          rw [Bool.and_eq_false_imp, decide_eq_false_iff_not]
        refine hclaims.trans ⟨fun h => ?_, ?_⟩
        · exact hsplit.imp_right fun hexclusive => ⟨hexclusive.1, hexclusive.2, h⟩
        · rintro (hno | ⟨-, -, h⟩)
          · intro e he hinsert
            rw [hno e he] at hinsert
            cases hinsert
          · exact h
      · rw [if_neg hlast, if_neg hlast, Option.some_inj, LastAt.getD_eq_length_iff hclaimFirst,
          FirstAt.getD_eq_length_iff hfirst]
        have hclaims : (∃ e ∈ es.getLast?, (e.mDescriptor.isInsert &&
            decide (e.mDescriptor.insertPref = effectFlagInsertFirst)) = true) ↔
              ∃ e ∈ es.getLast?, e.mDescriptor.isInsert = true ∧
                e.mDescriptor.insertPref = effectFlagInsertFirst := by
          refine exists_congr fun e => and_congr_right fun _ => ?_
          rw [Bool.and_eq_true, decide_eq_true_iff]
        refine (or_congr_left hclaims).trans ⟨?_, ?_⟩
        · rintro (h | ⟨-, hno⟩)
          · exact hsplit.imp_right fun hexclusive => ⟨hexclusive.1, hexclusive.2, h⟩
          · exact .inl hno
        · rintro (hno | ⟨-, -, h⟩)
          · refine .inr ⟨fun e he => ?_, hno⟩
            rw [hno e he, Bool.false_and]
          · exact .inl h

/-- An effect goes behind the others just if it is one that belongs there. -/
theorem place_eq_iff (hnew : m ∉ es) : place es m = es ++ [m] ↔ Behind es m := by
  have hshort : es ≠ es ++ [m] := fun h => by
    have hlen := congrArg List.length h
    rw [List.length_append, List.length_singleton] at hlen
    omega
  have htaken : (es.any fun e => m.mId = 0 || e.mId = m.mId) = false ↔
      es = [] ∨ m.mId ≠ 0 ∧ ∀ e ∈ es, e.mId ≠ m.mId := by
    rw [List.any_eq_false]
    refine ⟨fun h => ?_, ?_⟩
    · rcases es with _ | ⟨x, es⟩
      · exact .inl rfl
      · have hx := h x (List.mem_cons_self ..)
        rw [Bool.or_eq_true, not_or, decide_eq_true_iff, decide_eq_true_iff] at hx
        refine .inr ⟨hx.1, fun e he heq => h e he ?_⟩
        rw [heq, decide_eq_true rfl, Bool.or_true]
    · rintro (rfl | ⟨hzero, hids⟩) e he
      · cases he
      · rw [Bool.or_eq_true, not_or, decide_eq_true_iff, decide_eq_true_iff]
        exact ⟨hzero, hids e he⟩
  unfold place Behind
  rw [← htaken, ← insertIndex_eq_length_iff]
  split_ifs with hid
  · exact iff_of_false hshort fun h => by rw [hid] at h; cases h.1
  · rw [Bool.not_eq_true] at hid
    refine Iff.trans ?_ (and_iff_right hid).symm
    rcases hi : Chain.insertIndex m.mDescriptor es with _ | i
    · exact iff_of_false hshort nofun
    · rw [Option.elim_some, Option.some_inj]
      constructor
      · intro h
        rcases (Chain.insertIndex_le hi).lt_or_eq with hlt | heq
        · have hhere := congrArg (fun l => l[i]?) h
          rw [List.getElem?_insertIdx_self, if_pos hlt.le, List.getElem?_append_left hlt] at hhere
          exact absurd (List.mem_of_getElem? hhere.symm) hnew
        · exact heq
      · rintro rfl
        exact List.insertIdx_length_self

/-- Distinct effects that are added one after the other keep their order just if each belongs behind
those before it. -/
theorem foldl_place_eq_iff (hnodup : es.Nodup) :
    es.foldl place [] = es ↔ ∀ before m after, es = before ++ m :: after → Behind before m := by
  have hfold := @Puts.foldl_eq_iff _ place puts_place es [] hnodup
  rw [List.nil_append] at hfold
  rw [hfold]
  refine forall₃_congr fun before m after => forall_congr' fun hcut => ?_
  rw [List.nil_append]
  refine place_eq_iff fun hmem => ?_
  rw [hcut, List.nodup_append] at hnodup
  exact hnodup.2.2 m hmem m (List.mem_cons_self ..) rfl

/-! ## One chain -/

namespace RoutedChain

variable {c : RoutedChain} {p : Placed} {ps : List Placed}

/-- The first effect is removed without rerouting another. -/
theorem removeEffect_first (h : c.mEffects = p :: ps) :
    c.removeEffect p.module.self = { c with mEffects := ps } := by
  have hidx : (c.mEffects.findIdx? fun q => decide (q.module.self = p.module.self)) = some 0 := by
    rw [h, List.findIdx?_cons, if_pos (decide_eq_true rfl)]
  rw [removeEffect, hidx]
  simp only [h, ne_eq, not_true_eq_false, decide_false, Bool.and_false, Bool.false_eq_true,
    if_false]
  rfl

/-- A new effect goes where the rule says, and the chain reads the same buffer as before. -/
theorem addEffect_spec (c : RoutedChain) (buffer : ℕ) (mode : AccessMode) (m : Module) :
    (Chain.insertIndex m.mDescriptor c.modules = none ∧
      (c.addEffect true buffer mode m).2 ≠ .noError) ∨
    ∃ i, Chain.insertIndex m.mDescriptor c.modules = some i ∧
      (c.addEffect true buffer mode m).2 = .noError ∧
      (c.addEffect true buffer mode m).1.modules = c.modules.insertIdx i m ∧
      (c.addEffect true buffer mode m).1.mInBuffer = c.mInBuffer := by
  have hsame := addEffect_toChain (c := c) 0 .empty buffer mode m
  have hbuffer : (c.addEffect true buffer mode m).1.mInBuffer = c.mInBuffer := by
    unfold addEffect
    split
    · rfl
    · split
      · rfl
      · split
        · rfl
        · dsimp only
          split <;> rfl
  rw [Chain.addEffect, toChain] at hsame
  dsimp only at hsame
  rcases hi : Chain.insertIndex m.mDescriptor c.modules with _ | i
  · refine .inl ⟨rfl, fun hok => ?_⟩
    rw [hi, if_pos hok] at hsame
    cases hsame
  · rw [hi, Option.map_some] at hsame
    split_ifs at hsame with hok
    exact .inr ⟨i, rfl, hok, (congrArg Chain.mEffects (Option.some_inj.mp hsame)).symm, hbuffer⟩

end RoutedChain

namespace Mixers

variable {w w' : Mixers} {i src dst old : ℕ} {session : ℤ} {c d : ThreadChain} {p : Placed}
  {t : MixThread}

theorem getEffectFromId_isSome (c : RoutedChain) (m : Module) :
    (getEffectFromId c m.mId).isSome =
      c.modules.any fun e => decide (m.mId = 0) || decide (e.mId = m.mId) := by
  rw [getEffectFromId, RoutedChain.modules, List.any_map, Bool.eq_iff_iff, List.find?_isSome,
    List.any_eq_true]
  rfl

theorem getEffectFromId_zero (c : RoutedChain) : getEffectFromId c 0 = c.mEffects.head? := by
  rw [getEffectFromId]
  rcases c.mEffects with _ | ⟨p, ps⟩
  · rfl
  · rw [List.find?_cons_of_pos (by rfl)]
    rfl

/-! ## One thread -/

/-- Nothing but the effects of chains on one thread has changed. -/
structure Extends (w w' : Mixers) (i : ℕ) : Prop where
  others : ∀ j, j ≠ i → w'.thread j = w.thread j
  mix : (w'.thread i).mMixBuffer = (w.thread i).mMixBuffer
  tracks : (w'.thread i).mTracks = (w.thread i).mTracks
  selves : (w'.thread i).mEffectChains.map ThreadChain.self =
    (w.thread i).mEffectChains.map ThreadChain.self

theorem Extends.refl (w : Mixers) (i : ℕ) : Extends w w i := ⟨fun _ _ => rfl, rfl, rfl, rfl⟩

theorem Extends.trans {w₁ w₂ w₃ : Mixers} (h : Extends w₁ w₂ i) (h' : Extends w₂ w₃ i) :
    Extends w₁ w₃ i where
  others j hj := (h'.others j hj).trans (h.others j hj)
  mix := h'.mix.trans h.mix
  tracks := h'.tracks.trans h.tracks
  selves := h'.selves.trans h.selves

/-- The chain of a session after it was written. -/
theorem getEffectChain_updateChain (h : t.getEffectChain session = some c) (chain : RoutedChain) :
    (t.updateChain c.self chain).getEffectChain session = some { c with chain := chain } := by
  have hkey : ((fun c : ThreadChain => decide (c.mSessionId = session)) ∘ fun x =>
      if x.self = c.self then { x with chain := chain } else x) =
        fun c : ThreadChain => decide (c.mSessionId = session) := by
    funext x
    rw [Function.comp_apply]
    split_ifs <;> rfl
  rw [MixThread.getEffectChain, MixThread.updateChain, List.find?_map, hkey]
  rw [MixThread.getEffectChain] at h
  rw [h, Option.map_some, if_pos rfl]

/-- An effect is added to a chain that is there. -/
theorem addToChain_spec (hc : (w.thread i).getEffectChain p.module.mSessionId = some c)
    (chainCreated : Bool) (hok : chainCreated = true →
      (Chain.insertIndex p.module.mDescriptor c.chain.modules).isSome) :
    Extends w (w.addToChain chainCreated i p) i ∧
      ∃ d, ((w.addToChain chainCreated i p).thread i).getEffectChain p.module.mSessionId = some d ∧
        d.chain.modules = place c.chain.modules p.module ∧
        d.chain.mInBuffer = c.chain.mInBuffer := by
  unfold addToChain
  rw [hc]
  dsimp only
  rw [getEffectFromId_isSome]
  by_cases htaken : (c.chain.modules.any fun e => decide (p.module.mId = 0) ||
      decide (e.mId = p.module.mId)) = true
  · rw [if_pos htaken, place, if_pos htaken]
    exact ⟨.refl w i, c, hc, rfl, rfl⟩
  · rw [if_neg htaken, place, if_neg htaken]
    rcases RoutedChain.addEffect_spec c.chain w.next p.accessMode p.module with
      ⟨hi, hstatus⟩ | ⟨k, hi, hstatus, hmodules, hbuffer⟩
    · have hfound : chainCreated = false := by
        rw [hi] at hok
        exact Bool.eq_false_iff.mpr fun hcreated => Bool.false_ne_true (hok hcreated)
      rw [hi, hfound]
      rcases hadd : c.chain.addEffect true w.next p.accessMode p.module with ⟨chain, status⟩
      rw [hadd] at hstatus
      rcases status with _ | _ | _
      · exact absurd rfl hstatus
      · exact ⟨.refl w i, c, hc, rfl, rfl⟩
      · exact ⟨.refl w i, c, hc, rfl, rfl⟩
    · rw [hi]
      rcases hadd : c.chain.addEffect true w.next p.accessMode p.module with ⟨chain, status⟩
      rw [hadd] at hstatus hmodules hbuffer
      dsimp only at hstatus hmodules hbuffer
      subst hstatus
      dsimp only
      have hthread : (w.onThread i (MixThread.updateChain c.self chain)).thread i =
          (w.thread i).updateChain c.self chain := Function.update_self ..
      refine ⟨⟨fun j hj => Function.update_of_ne hj _ _, ?_, ?_, ?_⟩, ⟨c.self, c.mSessionId, chain⟩,
        ?_, hmodules, hbuffer⟩
      · exact (congrArg MixThread.mMixBuffer hthread).trans rfl
      · exact (congrArg MixThread.mTracks hthread).trans rfl
      · refine (congrArg (fun t => t.mEffectChains.map ThreadChain.self) hthread).trans ?_
        rw [MixThread.updateChain, List.map_map]
        refine List.map_congr_left fun x _ => ?_
        rw [Function.comp_apply]
        split_ifs <;> rfl
      · exact (congrArg (fun t => t.getEffectChain p.module.mSessionId) hthread).trans
          (getEffectChain_updateChain hc chain)

/-- A chain that is not there cannot be removed. -/
theorem removeEffectChain_gone (h : old ∉ t.mEffectChains.map ThreadChain.self) :
    t.removeEffectChain old = t := by
  have hnone : (t.mEffectChains.find? fun c => decide (c.self = old)) = none := by
    refine List.find?_eq_none.mpr fun c hc heq => h ?_
    exact List.mem_map.mpr ⟨c, hc, of_decide_eq_true heq⟩
  rw [MixThread.removeEffectChain, hnone]

theorem onThread_gone (h : old ∉ (w.thread i).mEffectChains.map ThreadChain.self) :
    w.onThread i (MixThread.removeEffectChain old) = w := by
  rw [onThread, removeEffectChain_gone h, Function.update_eq_self]

/-! ## The loop -/

/-- Once the destination has a chain the rest of the effects go to it one by one. -/
theorem moveEffects_rest {n : ℕ} {chain : RoutedChain} (hn : chain.mEffects.length = n)
    (hsession : ∀ m ∈ chain.modules, m.mSessionId = session)
    (hgone : old ∉ (w.thread src).mEffectChains.map ThreadChain.self)
    (hc : (w.thread dst).getEffectChain session = some c) :
    ∃ w', (∀ fuel, n < fuel → moveEffects src dst old fuel chain true w = some (.noError, w')) ∧
      Extends w w' dst ∧ ∃ d, (w'.thread dst).getEffectChain session = some d ∧
        d.chain.modules = chain.modules.foldl place c.chain.modules ∧
        d.chain.mInBuffer = c.chain.mInBuffer := by
  induction n generalizing chain w c with
  | zero =>
    have hnil := List.length_eq_zero_iff.mp hn
    have hmodules : chain.modules = [] := List.map_eq_nil_iff.mpr hnil
    refine ⟨w, fun fuel hfuel => ?_, .refl w dst, c, hc, by rw [hmodules]; rfl, rfl⟩
    obtain ⟨fuel, rfl⟩ := Nat.exists_eq_succ_of_ne_zero hfuel.ne'
    rw [moveEffects, getEffectFromId_zero, hnil]
    rfl
  | succ n ih =>
    obtain ⟨p, ps, hps⟩ := List.exists_cons_of_length_eq_add_one hn
    have hmodules : chain.modules = p.module :: ps.map Placed.module := by
      rw [RoutedChain.modules, hps]
      rfl
    rw [hmodules] at hsession
    have hp := hsession p.module (List.mem_cons_self ..)
    rw [← hp] at hc
    obtain ⟨hext, d, hd, hplaced, hbuffer⟩ := addToChain_spec hc false (by simp)
    have hadd : w.addEffect dst p = w.addToChain false dst p := by
      rw [addEffect, hc]
      rfl
    have hgone' : old ∉ ((w.addToChain false dst p).thread src).mEffectChains.map
        ThreadChain.self := by
      by_cases hsame : src = dst
      · rw [hsame] at hgone ⊢
        rwa [hext.selves]
      · rwa [hext.others src hsame]
    rw [hp] at hd
    obtain ⟨w', hrun, hext', d', hd', hfold, hbuffer'⟩ :=
      @ih _ _ { chain with mEffects := ps } (by rw [hps] at hn; exact Nat.succ.inj hn)
        (fun m hm => hsession m (List.mem_cons_of_mem _ hm)) hgone' hd
    refine ⟨w', fun fuel hfuel => ?_, hext.trans hext', d', hd', ?_, hbuffer'.trans hbuffer⟩
    · obtain ⟨fuel, rfl⟩ := Nat.exists_eq_succ_of_ne_zero (Nat.ne_zero_of_lt hfuel)
      rw [moveEffects, getEffectFromId_zero, hps, List.head?_cons]
      dsimp only
      rw [RoutedChain.removeEffect_first hps, onThread_gone hgone, ite_self, hadd]
      exact hrun fuel (by omega)
    · rw [hfold, hplaced, hmodules]
      rfl

/-! ## The chain is removed, and a new one is made -/

/-- A thread on which there is no chain of the session, and no chain at an address. -/
structure Cleared (t : MixThread) (session : ℤ) (old : ℕ) : Prop where
  absent : t.getEffectChain session = none
  gone : old ∉ t.mEffectChains.map ThreadChain.self

/-- All tracks of the session write to a buffer. -/
def WriteTo (t : MixThread) (session : ℤ) (buffer : ℕ) : Prop :=
  ∀ x ∈ t.mTracks, x.sessionId = session → x.mainBuffer = buffer

theorem writeTo_setMainBuffer (t : MixThread) (session : ℤ) (buffer : ℕ) :
    WriteTo (t.setMainBuffer session buffer) session buffer := by
  intro x hx hsession
  obtain ⟨y, -, rfl⟩ := List.mem_map.mp hx
  split_ifs at hsession ⊢ with hy
  · rfl
  · exact absurd hsession hy

/-- The source without its chain. -/
theorem removeEffectChain_spec (hfound : t.getEffectChain session = some c)
    (hselves : (t.mEffectChains.map ThreadChain.self).Nodup)
    (hsessions : (t.mEffectChains.map ThreadChain.mSessionId).Nodup) :
    Cleared (t.removeEffectChain c.self) session c.self ∧
      (t.removeEffectChain c.self).mMixBuffer = t.mMixBuffer ∧
      WriteTo (t.removeEffectChain c.self) session t.mMixBuffer := by
  obtain ⟨hmem, hsession⟩ := KeyedList.lookup_some hfound
  have hself : (t.mEffectChains.find? fun x => decide (x.self = c.self)) = some c :=
    KeyedList.lookup_of_mem hselves hmem
  have hremove : t.removeEffectChain c.self =
      { t.setMainBuffer c.mSessionId t.mMixBuffer with
        mEffectChains := t.mEffectChains.eraseP fun x => x.self = c.self } := by
    rw [MixThread.removeEffectChain, hself]
  have hgone := KeyedList.not_mem_eraseP hselves c.self
  rw [hremove, hsession]
  refine ⟨⟨?_, hgone⟩, rfl, writeTo_setMainBuffer t session t.mMixBuffer⟩
  refine List.find?_eq_none.mpr fun x hx heq => hgone ?_
  have hlisted := KeyedList.lookup_of_mem hsessions (List.eraseP_subset hx)
  rw [of_decide_eq_true heq] at hlisted
  have hxc : x = c := Option.some_inj.mp (hlisted.symm.trans hfound)
  exact List.mem_map.mpr ⟨x, hx, by rw [hxc]⟩

/-- The chain that is found after one was inserted for a session that had none. -/
theorem find_insertIdx {l : List ThreadChain} {k : ℕ} (hk : k ≤ l.length)
    (hnone : l.find? (fun c => decide (c.mSessionId = session)) = none)
    (hx : c.mSessionId = session) :
    (l.insertIdx k c).find? (fun c => decide (c.mSessionId = session)) = some c := by
  have hsome : ((l.insertIdx k c).find? fun c => decide (c.mSessionId = session)).isSome :=
    List.find?_isSome.mpr ⟨c, (List.mem_insertIdx hk).mpr (.inl rfl), decide_eq_true hx⟩
  obtain ⟨y, hy⟩ := Option.isSome_iff_exists.mp hsome
  rcases (List.mem_insertIdx hk).mp (List.mem_of_find?_eq_some hy) with rfl | hmem
  · exact hy
  · exact absurd (List.find?_some hy) (List.find?_eq_none.mp hnone y hmem)

/-- A new chain, and the tracks that write to it. -/
theorem newChain_spec (hnone : (w.thread i).getEffectChain session = none) :
    (∀ j, j ≠ i → (w.newChain i session).thread j = w.thread j) ∧
      ∃ d, ((w.newChain i session).thread i).getEffectChain session = some d ∧
        d.chain.mEffects = [] ∧
        ((w.newChain i session).thread i).mEffectChains.map ThreadChain.self ⊆
          w.next :: (w.thread i).mEffectChains.map ThreadChain.self ∧
        (WriteTo ((w.newChain i session).thread i) session d.chain.mInBuffer ↔
          0 < session ∨ WriteTo (w.thread i) session (w.thread i).mMixBuffer) := by
  refine ⟨fun j hj => Function.update_of_ne hj _ _, ?_⟩
  have hthread : (w.newChain i session).thread i =
      (w.thread i).addEffectChain w.next (w.next + 1) session := Function.update_self ..
  rw [hthread]
  generalize w.thread i = t at hnone
  have hle : (t.mEffectChains.findIdx fun c => decide (c.mSessionId < session)) ≤
      t.mEffectChains.length := List.findIdx_le_length
  refine ⟨_, find_insertIdx hle hnone rfl, rfl, ?_, ?_⟩
  · intro a ha
    obtain ⟨x, hx, rfl⟩ := List.mem_map.mp ha
    rcases (List.mem_insertIdx hle).mp hx with rfl | hx
    · exact List.mem_cons_self ..
    · exact List.mem_cons_of_mem _ (List.mem_map_of_mem hx)
  · unfold MixThread.addEffectChain
    dsimp only [RoutedChain.new]
    by_cases hpositive : 0 < session
    · rw [if_pos hpositive]
      exact iff_of_true (writeTo_setMainBuffer t session _) (.inl hpositive)
    · rw [if_neg hpositive, decide_eq_false hpositive, Bool.false_and, if_neg Bool.false_ne_true]
      exact (or_iff_right hpositive).symm

/-! ## The whole move -/

theorem effectsOf_of_some (h : (w.thread i).getEffectChain session = some d) :
    w.effectsOf i session = d.chain.modules := by
  rw [effectsOf, h]
  rfl

theorem attached_of_none (h : t.getEffectChain session = none) :
    Attached t session ↔ WriteTo t session t.mMixBuffer := by
  rw [Attached, inputOf, h]
  rfl

theorem attached_of_some (h : t.getEffectChain session = some d) :
    Attached t session ↔ WriteTo t session d.chain.mInBuffer := by
  rw [Attached, inputOf, h]
  rfl

/-- The effects on the destination after the chain was removed from the source: each is put where
the rule for a new effect says. -/
theorem moveEffects_spec {chain : RoutedChain}
    (hsession : ∀ m ∈ chain.modules, m.mSessionId = session)
    (hgone : old ∉ (w.thread src).mEffectChains.map ThreadChain.self) (hold : old < w.next)
    (hnone : (w.thread dst).getEffectChain session = none) :
    ∃ w', (∀ fuel, chain.mEffects.length < fuel →
        moveEffects src dst old fuel chain false w = some (.noError, w')) ∧
      (∀ j, j ≠ dst → w'.thread j = w.thread j) ∧
      w'.effectsOf dst session = chain.modules.foldl place [] ∧
      (Attached (w'.thread dst) session ↔ 0 < session ∧ chain.mEffects ≠ [] ∨
        WriteTo (w.thread dst) session (w.thread dst).mMixBuffer) := by
  rcases hps : chain.mEffects with _ | ⟨p, ps⟩
  · have hmodules : chain.modules = [] := List.map_eq_nil_iff.mpr hps
    refine ⟨w, fun fuel hfuel => ?_, fun _ _ => rfl, ?_, ?_⟩
    · obtain ⟨fuel, rfl⟩ := Nat.exists_eq_succ_of_ne_zero hfuel.ne'
      rw [moveEffects, getEffectFromId_zero, hps]
      rfl
    · rw [effectsOf, hnone, hmodules]
      rfl
    · rw [attached_of_none hnone]
      exact (or_iff_right fun h => h.2 rfl).symm
  · have hmodules : chain.modules = p.module :: ps.map Placed.module := by
      rw [RoutedChain.modules, hps]
      rfl
    rw [hmodules] at hsession ⊢
    have hp := hsession p.module (List.mem_cons_self ..)
    obtain ⟨hothers, d, hd, hempty, hselves, hwrite⟩ := newChain_spec hnone
    have hnil : d.chain.modules = [] := List.map_eq_nil_iff.mpr hempty
    have haccepted : (Chain.insertIndex p.module.mDescriptor d.chain.modules).isSome := by
      rw [hnil, Chain.insertIndex_isSome]
      exact .inr fun e he => (List.not_mem_nil he).elim
    have hd' := hd
    rw [← hp] at hd'
    obtain ⟨hext, d₁, hd₁, hplaced, hbuffer⟩ :=
      addToChain_spec hd' true fun _ => haccepted
    rw [hp] at hd₁
    have hadd : w.addEffect dst p = (w.newChain dst session).addToChain true dst p := by
      rw [addEffect, hp, hnone]
      rfl
    rw [hp] at hext
    have hgone₁ : old ∉ (((w.newChain dst session).addToChain true dst p).thread
        src).mEffectChains.map ThreadChain.self := by
      by_cases hsame : src = dst
      · rw [hsame] at hgone ⊢
        rw [hext.selves]
        intro hmem
        rcases List.mem_cons.mp (hselves hmem) with heq | hmem
        · exact absurd heq hold.ne
        · exact hgone hmem
      · rwa [hext.others src hsame, hothers src hsame]
    obtain ⟨w', hrun, hext', d', hd', hfold, hbuffer'⟩ :=
      @moveEffects_rest _ src dst old session d₁ _ { chain with mEffects := ps } rfl
        (fun m hm => hsession m (List.mem_cons_of_mem _ hm)) hgone₁ hd₁
    refine ⟨w', fun fuel hfuel => ?_, fun j hj => ?_, ?_, ?_⟩
    · obtain ⟨fuel, rfl⟩ := Nat.exists_eq_succ_of_ne_zero (Nat.ne_zero_of_lt hfuel)
      rw [moveEffects, getEffectFromId_zero, hps, List.head?_cons]
      dsimp only
      rw [RoutedChain.removeEffect_first hps, onThread_gone hgone, ite_self, hadd, hp, hd₁]
      exact hrun fuel (by rw [List.length_cons] at hfuel; dsimp only; omega)
    · exact ((hext'.others j hj).trans (hext.others j hj)).trans (hothers j hj)
    · rw [effectsOf_of_some hd', hfold, hplaced, hnil]
      rfl
    · have hinput : d'.chain.mInBuffer = d.chain.mInBuffer := hbuffer'.trans hbuffer
      have htracks := hext'.tracks.trans hext.tracks
      rw [attached_of_some hd', hinput, WriteTo, htracks, ← WriteTo, hwrite]
      exact or_congr_left (and_iff_left (List.cons_ne_nil p ps)).symm

/-- The move ends, and keeps the chain just if each of its effects is one that goes behind those
before it, and the tracks find their buffer: on one thread, by a chain that is made for the session,
or because they use the mix buffer already. -/
theorem moveEffectChain_preserves_iff (h : Ready w src dst session c) :
    ∃ w', (∀ fuel, c.chain.mEffects.length < fuel →
        w.moveEffectChain fuel src dst session = some (.noError, w')) ∧
      (Preserved w' src dst session c ↔
        (∀ before m after, c.chain.modules = before ++ m :: after → Behind before m) ∧
        (src = dst ∨ 0 < session ∧ c.chain.mEffects ≠ [] ∨
          WriteTo (w.thread dst) session (w.thread dst).mMixBuffer)) := by
  obtain ⟨hcleared, hmix, hwrite⟩ := removeEffectChain_spec h.found h.selves h.sessions
  set w₁ := w.onThread src (MixThread.removeEffectChain c.self) with hw₁
  have hsrc : w₁.thread src = (w.thread src).removeEffectChain c.self := Function.update_self ..
  have hother : ∀ j, j ≠ src → w₁.thread j = w.thread j := fun j hj => Function.update_of_ne hj _ _
  rw [← hsrc] at hcleared hmix hwrite
  have hnone : (w₁.thread dst).getEffectChain session = none := by
    by_cases hsame : src = dst
    · rw [← hsame]
      exact hcleared.absent
    · rw [hother dst (Ne.symm hsame)]
      exact h.absent hsame
  have hfree : WriteTo (w₁.thread dst) session (w₁.thread dst).mMixBuffer ↔
      src = dst ∨ WriteTo (w.thread dst) session (w.thread dst).mMixBuffer := by
    by_cases hsame : src = dst
    · rw [← hsame, hmix]
      exact iff_of_true hwrite (.inl rfl)
    · rw [hother dst (Ne.symm hsame)]
      exact (or_iff_right hsame).symm
  obtain ⟨w', hrun, hkept, heffects, hattached⟩ :=
    moveEffects_spec h.own hcleared.gone (h.fresh c (KeyedList.lookup_some h.found).1) hnone
  refine ⟨w', fun fuel hfuel => ?_, ?_⟩
  · rw [moveEffectChain, h.found]
    exact hrun fuel hfuel
  · have horder : w'.effectsOf dst session = c.chain.modules ↔
        ∀ before m after, c.chain.modules = before ++ m :: after → Behind before m := by
      rw [heffects]
      exact foldl_place_eq_iff h.effects.of_map
    rw [hfree] at hattached
    have hsource : src ≠ dst → (w'.thread src).getEffectChain session = none ∧
        Attached (w'.thread src) session := by
      intro hne
      rw [hkept src hne]
      exact ⟨hcleared.absent, (attached_of_none hcleared.absent).mpr (by rw [hmix]; exact hwrite)⟩
    have htracks : (0 < session ∧ c.chain.mEffects ≠ [] ∨ src = dst ∨
        WriteTo (w.thread dst) session (w.thread dst).mMixBuffer) ↔
          src = dst ∨ 0 < session ∧ c.chain.mEffects ≠ [] ∨
            WriteTo (w.thread dst) session (w.thread dst).mMixBuffer := or_left_comm
    rw [← htracks, ← hattached]
    constructor
    · rintro ⟨heq, -, -, hdst⟩
      exact ⟨horder.mp heq, hdst⟩
    · rintro ⟨hbehind, hdst⟩
      refine ⟨horder.mpr hbehind, fun hne => (hsource hne).1, ?_, hdst⟩
      by_cases hsame : src = dst
      · rw [hsame]
        exact hdst
      · exact (hsource hsame).2

/-- An effect of the session 7 with these flags. -/
def sessionEffect (self : ℕ) (flags : BitVec 32) : Module :=
  Module.new self self 7 ⟨⟨1, self⟩, ⟨2, self⟩, flags⟩

/-- A chain of two effects on the thread 0, with a track. -/
def twoEffects (flags flags' : BitVec 32) : ThreadChain :=
  ⟨1, 7, ⟨11, 10,
    [⟨sessionEffect 3 flags, 11, 11, .write⟩, ⟨sessionEffect 4 flags', 11, 10, .write⟩]⟩⟩

def twoThreads (flags flags' : BitVec 32) : Mixers where
  thread := fun i =>
    if i = 0 then ⟨false, 10, [⟨7, 11⟩], [twoEffects flags flags']⟩ else ⟨false, 20, [⟨7, 20⟩], []⟩
  next := 30

theorem moveEffectChain_preserves_iff_twoThreads :
    ∃ w', (∀ fuel, 2 < fuel →
        (twoThreads effectFlagInsertFirst effectFlagInsertLast).moveEffectChain fuel 0 1 7 =
          some (.noError, w')) ∧
      Preserved w' 0 1 7 (twoEffects effectFlagInsertFirst effectFlagInsertLast) := by
  have hready : Ready (twoThreads effectFlagInsertFirst effectFlagInsertLast) 0 1 7
      (twoEffects effectFlagInsertFirst effectFlagInsertLast) :=
    ⟨rfl, fun _ => rfl, by decide, by decide, by decide, by decide, by decide⟩
  obtain ⟨w', hrun, hiff⟩ := moveEffectChain_preserves_iff hready
  refine ⟨w', hrun, hiff.mpr ⟨fun before m after hcut => ?_, .inr (.inl ⟨by decide, nofun⟩)⟩⟩
  rcases before with _ | ⟨x, _ | ⟨y, before⟩⟩
  · obtain ⟨rfl, -⟩ := List.cons.inj hcut
    exact ⟨.inl rfl, .inl nofun⟩
  · obtain ⟨rfl, htail⟩ := List.cons.inj hcut
    obtain ⟨rfl, -⟩ := List.cons.inj htail
    exact ⟨.inr (by decide), .inr (by decide)⟩
  · obtain ⟨-, htail⟩ := List.cons.inj hcut
    obtain ⟨-, hnil⟩ := List.cons.inj htail
    exact absurd hnil (by simp)

/-- Two effects that may be inserted anywhere come out in the other order. -/
theorem anywhere_reversed :
    ∃ w', (twoThreads 0 0).moveEffectChain 3 0 1 7 = some (.noError, w') ∧
      (twoEffects 0 0).chain.modules = [sessionEffect 3 0, sessionEffect 4 0] ∧
      w'.effectsOf 1 7 = [sessionEffect 4 0, sessionEffect 3 0] ∧
      ¬ Preserved w' 0 1 7 (twoEffects 0 0) :=
  ⟨_, rfl, rfl, by decide, fun h => absurd h.effects (by decide)⟩

end Mixers

end AudioFlinger.Effects
