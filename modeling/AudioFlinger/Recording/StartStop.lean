import AudioFlinger.Recording.Model

/-!
# The protocol of starting and stopping

For every track the state, whether it is the active track, the call that is under way
and the use of the input go together. The calls for a track may not cross
each other, the wait of `start` must end with the track `ACTIVE`, as it returns `NO_ERROR`
in any case, and the active track must not be taken away from the loop while it
reads, nor from a `start` that has released the lock.
-/

namespace AudioFlinger.Recording

open Foundation Playback

/-! ## One track -/

/-- The phases of a track that is not being destroyed: whether it is the active one, its state, its
calls under way, and the uses of the input that it has not given back. -/
inductive Phase (exiting : Bool) : Bool → TrackState → List Pc → ℤ → Prop
  | rest (s : TrackState) (hs : s = .idle ∨ s = .pausing) : Phase exiting false s [] 0
  | playing (active : Bool) : Phase exiting active .active [] 1
  | halted (hexit : exiting = true) : Phase exiting true .pausing [] 0
  | starting : Phase exiting true .idle [.starting] 0
  | startWaits (active : Bool) (s : TrackState) (hs : s = .resuming ∨ s = .active) :
      Phase exiting active s [.startWaits] 1
  | stopWaits (active : Bool) (s : TrackState) (hs : s = .pausing ∨ s = .active) :
      Phase exiting active s [.stopWaits] 1
  | stopping (active : Bool) (hexit : active = true → exiting = true) : Phase exiting active .pausing [.stopping] 1

namespace Phase

variable {exiting active : Bool} {s : TrackState} {cs : List Pc} {d : ℤ}

section Cases

variable (h : Phase exiting active s cs d)

include h

theorem uses_bound : 0 ≤ d ∧ d ≤ 1 := by
  cases h <;> decide

theorem cast {active' : Bool} {s' : TrackState} {cs' : List Pc} {d' : ℤ}
    (hactive : active' = active) (hs : s' = s) (hcs : cs' = cs) (hd : d' = d) : Phase exiting active' s' cs' d' := by
  rw [hactive, hs, hcs, hd]
  exact h

theorem exit : Phase true active s cs d := by
  cases h with
  | rest s hs => exact .rest s hs
  | playing active => exact .playing active
  | halted _ => exact .halted rfl
  | starting => exact .starting
  | startWaits active s hs => exact .startWaits active s hs
  | stopWaits active s hs => exact .stopWaits active s hs
  | stopping active _ => exact .stopping active fun _ => rfl

theorem of_starting (hmem : .starting ∈ cs) :
    active = true ∧ s = .idle ∧ cs = [.starting] ∧ d = 0 := by
  cases h <;> simp_all

theorem of_startWaits (hmem : .startWaits ∈ cs) :
    (s = .resuming ∨ s = .active) ∧ cs = [.startWaits] ∧ d = 1 := by
  cases h <;> simp_all

theorem of_stopWaits (hmem : .stopWaits ∈ cs) :
    (s = .pausing ∨ s = .active) ∧ cs = [.stopWaits] ∧ d = 1 := by
  cases h <;> simp_all

theorem of_stopping (hmem : .stopping ∈ cs) :
    s = .pausing ∧ (active = true → exiting = true) ∧ cs = [.stopping] ∧ d = 1 := by
  cases h <;> simp_all

end Cases

/-- The loop takes the track away. -/
theorem cleared (h : Phase exiting true s cs d) (hs : s ≠ .idle) : Phase exiting false s cs d := by
  cases h with
  | playing => exact .playing false
  | halted _ => exact .rest _ (.inr rfl)
  | starting => exact absurd rfl hs
  | startWaits _ s hs => exact .startWaits false s hs
  | stopWaits _ s hs => exact .stopWaits false s hs
  | stopping _ _ => exact .stopping false nofun

end Phase

/-! ## The log -/

/-- The track was `ACTIVE` since it became the active track. -/
def live (a : ℕ) : List Op → Bool
  | [] => false
  | .activated b :: log => b = a || live a log
  | .adopted b :: log => b ≠ a && live a log
  | _ :: log => live a log

namespace Op

def track : Op → ℕ
  | adopted a | activated a | startInput a | stopInput a | returned a _ => a

end Op

namespace RecordThread

variable {w w' : RecordThread} {e : Event} {a b : ℕ} {pc : Pc}

/-- The uses of the input by a track that were not given back. -/
def uses (w : RecordThread) (a : ℕ) : ℤ := (w.log.count (.startInput a) : ℤ) - w.log.count (.stopInput a)

theorem live_other {op : Op} (h : op.track ≠ a) (log : List Op) : live a (op :: log) = live a log := by
  cases op with
  | adopted b =>
    have hne : b ≠ a := h
    simp [live, hne]
  | activated b =>
    have hne : b ≠ a := h
    simp [live, hne]
  | startInput b => rfl
  | stopInput b => rfl
  | returned b status => rfl

/-! ## Calls under way -/

theorem callsOf_moveCall_other {c : Call} (h : c.track ≠ b) (next : Option Pc) :
    (w.moveCall c next).callsOf b = w.callsOf b := by
  have hskip : (w.calls.erase c).filter (fun x => x.track = b) = w.calls.filter fun x => x.track = b := by
    rw [← List.erase_filter]
    exact List.erase_of_not_mem fun hmem => h (by simpa using (List.mem_filter.mp hmem).2)
  rw [callsOf, moveCall]
  cases next with
  | none => simp [callsOf, hskip]
  | some pc => simp [callsOf, hskip, h]

theorem callsOf_moveCall (h : w.callsOf a = [pc]) (next : Option Pc) :
    (w.moveCall ⟨a, pc⟩ next).callsOf a = next.toList := by
  have hfilter : w.calls.filter (fun c => c.track = a) = [⟨a, pc⟩] := by
    rw [callsOf] at h
    obtain ⟨c, hc, hpc⟩ := List.map_eq_singleton_iff.mp h
    have htrack : c.track = a := by
      have hmem : c ∈ w.calls.filter fun c => c.track = a := hc ▸ List.mem_singleton_self c
      simpa using (List.mem_filter.mp hmem).2
    rw [hc, ← htrack, ← hpc]
  have hgone : (w.calls.erase ⟨a, pc⟩).filter (fun c => c.track = a) = [] := by
    rw [← List.erase_filter, hfilter]
    simp
  rw [callsOf, moveCall]
  cases next with
  | none => simp [hgone]
  | some pc => simp [hgone]

theorem callsOf_cons (w : RecordThread) (a : ℕ) (pc : Pc) (hcalls : w'.calls = ⟨a, pc⟩ :: w.calls) (b : ℕ) :
    w'.callsOf b = if a = b then pc :: w.callsOf b else w.callsOf b := by
  rw [callsOf, callsOf, hcalls, List.filter_cons]
  by_cases hb : a = b
  · simp [hb]
  · simp [hb]

theorem mem_callsOf (h : (⟨a, pc⟩ : Call) ∈ w.calls) : pc ∈ w.callsOf a :=
  List.mem_map.mpr ⟨⟨a, pc⟩, List.mem_filter.mpr ⟨h, by simp⟩, rfl⟩

/-! ## The invariant -/

/-- Every track is in a phase, one that is being destroyed has given back its uses, the loop reads for an active
track, and an active track that plays or pauses was `ACTIVE`. -/
structure Consistent (w : RecordThread) : Prop where
  fatal : w.fatal = false
  phases : ∀ a, a ∉ w.destroying →
    Phase w.exitPending (w.mActiveTrack = some a) (w.mState a) (w.callsOf a) (w.uses a)
  gone : ∀ a ∈ w.destroying, w.callsOf a = [] ∧ w.uses a = 0
  unborn : ∀ a, a ∉ w.mTracks → a ∉ w.destroying → w.mState a = .idle ∧ w.callsOf a = []
  looking : w.loop = .entered ∨ w.loop = .reading → w.mActiveTrack ≠ none
  lives : ∀ a, w.mActiveTrack = some a → w.mState a = .active ∨ w.mState a = .pausing → live a w.log = true
  returned : ∀ a log, (Op.returned a .noError :: log) <:+ w.log → live a log = true

theorem consistent_new : new.Consistent where
  fatal := rfl
  phases _ _ := .rest .idle (.inl rfl)
  gone := nofun
  unborn _ _ _ := ⟨rfl, rfl⟩
  looking := nofun
  lives := nofun
  returned _ _ h := absurd (List.eq_nil_of_suffix_nil h) (List.cons_ne_nil _ _)

/-- A step for one track leaves the others alone. -/
structure Local (a : ℕ) (w w' : RecordThread) : Prop where
  state : ∀ b, b ≠ a → w'.mState b = w.mState b
  active : ∀ b, b ≠ a → (w'.mActiveTrack = some b ↔ w.mActiveTrack = some b)
  calls : ∀ b, b ≠ a → w'.callsOf b = w.callsOf b
  tracks : ∀ b, b ≠ a → b ∉ w'.mTracks → b ∉ w.mTracks
  destroying : ∀ b, b ≠ a → (b ∈ w'.destroying ↔ b ∈ w.destroying)
  exits : w'.exitPending = w.exitPending
  log : ∃ ops, w'.log = ops ++ w.log ∧ ∀ op ∈ ops, Op.track op = a

theorem uses_append {ops : List Op} (hlog : w'.log = ops ++ w.log) (hops : ∀ op ∈ ops, Op.track op ≠ b) :
    w'.uses b = w.uses b := by
  have hcount : ∀ op : Op, op.track = b → ops.count op = 0 := by
    refine fun op hop => List.count_eq_zero_of_not_mem fun hmem => hops op hmem hop
  rw [uses, uses, hlog, List.count_append, List.count_append, hcount _ rfl, hcount _ rfl, Nat.zero_add, Nat.zero_add]

theorem live_append {ops log : List Op} (hops : ∀ op ∈ ops, Op.track op ≠ b) : live b (ops ++ log) = live b log := by
  induction ops with
  | nil => rfl
  | cons op ops ih =>
    rw [List.cons_append, live_other (hops op List.mem_cons_self)]
    exact ih fun op hop => hops op (List.mem_cons_of_mem _ hop)

/-- What the step does for its own track has to be shown. -/
theorem Consistent.local (hw : w.Consistent) (h : Local a w w') (hfatal : w'.fatal = false)
    (hphase : a ∉ w'.destroying →
      Phase w'.exitPending (w'.mActiveTrack = some a) (w'.mState a) (w'.callsOf a) (w'.uses a))
    (hgone : a ∈ w'.destroying → w'.callsOf a = [] ∧ w'.uses a = 0)
    (hunborn : a ∈ w'.mTracks ∨ a ∈ w'.destroying)
    (hlooking : w'.loop = .entered ∨ w'.loop = .reading → w'.mActiveTrack ≠ none)
    (hlives : w'.mActiveTrack = some a → w'.mState a = .active ∨ w'.mState a = .pausing → live a w'.log = true)
    (hreturned : ∀ b log, (Op.returned b .noError :: log) <:+ w'.log → live b log = true) : w'.Consistent := by
  obtain ⟨ops, hlog, hops⟩ := h.log
  have hother : ∀ b, b ≠ a → ∀ op ∈ ops, Op.track op ≠ b := fun b hb op hop => (hops op hop).trans_ne hb.symm
  refine ⟨hfatal, fun b hb => ?_, fun b hb => ?_, fun b hb hdestroying => ?_, hlooking, fun b hactive hstate => ?_,
    hreturned⟩
  · by_cases hne : b = a
    · subst hne
      exact hphase hb
    · have hold := hw.phases b (mt (h.destroying b hne).mpr hb)
      rw [h.exits, decide_eq_decide.mpr (h.active b hne), h.state b hne, h.calls b hne,
        uses_append hlog (hother b hne)]
      exact hold
  · by_cases hne : b = a
    · subst hne
      exact hgone hb
    · rw [h.calls b hne, uses_append hlog (hother b hne)]
      exact hw.gone b ((h.destroying b hne).mp hb)
  · by_cases hne : b = a
    · subst hne
      exact absurd hunborn (not_or.mpr ⟨hb, hdestroying⟩)
    · rw [h.state b hne, h.calls b hne]
      exact hw.unborn b (h.tracks b hne hb) (mt (h.destroying b hne).mpr hdestroying)
  · by_cases hne : b = a
    · subst hne
      exact hlives hactive hstate
    · rw [hlog, live_append (hother b hne)]
      rw [h.state b hne] at hstate
      exact hw.lives b ((h.active b hne).mp hactive) hstate

/-- An entry of the log that is not a success of `start`, or is one of a track that was `ACTIVE`. -/
theorem returned_cons {op : Op} {log : List Op}
    (h : ∀ b log', (Op.returned b .noError :: log') <:+ log → live b log' = true)
    (hop : ∀ b, op = .returned b .noError → live b log = true) (b : ℕ) (log' : List Op)
    (hsuffix : (Op.returned b .noError :: log') <:+ op :: log) : live b log' = true := by
  rcases List.suffix_cons_iff.mp hsuffix with heq | hold
  · obtain ⟨rfl, rfl⟩ := List.cons.inj heq
    exact hop b rfl
  · exact h b log' hold

/-- A track with a call under way was created. -/
theorem Consistent.born (hw : w.Consistent) (hcall : w.callsOf a ≠ []) : a ∈ w.mTracks ∨ a ∈ w.destroying := by
  by_contra hnot
  obtain ⟨htracks, hdestroying⟩ := not_or.mp hnot
  exact hcall (hw.unborn a htracks hdestroying).2

theorem Consistent.phase_of_call (hw : w.Consistent) (hcall : (⟨a, pc⟩ : Call) ∈ w.calls) :
    pc ∈ w.callsOf a ∧ a ∉ w.destroying ∧ (a ∈ w.mTracks ∨ a ∈ w.destroying) ∧
      Phase w.exitPending (w.mActiveTrack = some a) (w.mState a) (w.callsOf a) (w.uses a) := by
  have hmem := mem_callsOf hcall
  have hnot : a ∉ w.destroying := by
    intro hdestroying
    rw [(hw.gone a hdestroying).1] at hmem
    cases hmem
  exact ⟨hmem, hnot, hw.born (List.ne_nil_of_mem hmem), hw.phases a hnot⟩

theorem uses_cons (w : RecordThread) (op : Op) (hlog : w'.log = op :: w.log) (a : ℕ) :
    w'.uses a = w.uses a + ((if op = .startInput a then 1 else 0) - if op = .stopInput a then 1 else 0) := by
  rw [uses, uses, hlog, List.count_cons, List.count_cons]
  simp only [beq_iff_eq]
  split <;> split <;> push_cast <;> omega

/-! ## Steps of the clients -/

/-- A new track is at rest. -/
theorem Consistent.create (hw : w.Consistent) (hnew : a ∉ w.mTracks) (hheld : a ∉ w.destroying) :
    (w.createRecordTrack a).Consistent := by
  obtain ⟨hidle, hcalls⟩ := hw.unborn a hnew hheld
  have hstate : (w.createRecordTrack a).mState = w.mState := by
    rw [createRecordTrack, setState, ← hidle]
    exact Function.update_eq_self a w.mState
  refine ⟨hw.fatal, ?_, hw.gone, fun b hb hdestroying => ?_, hw.looking, ?_, hw.returned⟩
  · rw [hstate]
    exact hw.phases
  · rw [hstate]
    exact hw.unborn b (fun hmem => hb (List.mem_append_left _ hmem)) hdestroying
  · rw [hstate]
    exact hw.lives

/-- The client's part that must not cross: a call for a track begins when no other is under way, except
that `start` may find the track active, or pausing while `stop` still waits; a wait ends when the
loop has answered, that of `start` with the track active; the thread does not exit before this wait;
and the active track is not taken away from a reading loop or a `start` that is in `startInput`. -/
def Sound (w : RecordThread) : Event → Prop
  | .start a => (w.mActiveTrack = none → w.callsOf a = [] ∧ w.mState a ≠ .active) ∧
      (w.mActiveTrack = some a → w.mState a = .active ∨ w.mState a = .pausing ∧ .stopWaits ∈ w.callsOf a)
  | .inputStarted _ ok => if ok then w.exitPending = false else w.loop ≠ .entered ∧ w.loop ≠ .reading
  | .startWakes a => w.mActiveTrack = some a ∧ w.mState a = .active
  | .stop a => w.mActiveTrack = some a → w.mState a ≠ .pausing → w.callsOf a = []
  | .stopWakes a => w.mState a = .pausing ↔ w.exitPending = true ∨ w.mActiveTrack ≠ some a
  | .leave => ∀ a ∈ w.mActiveTrack, w.mState a ≠ .idle
  | _ => True

theorem setState_other (hb : b ≠ a) (s : TrackState) : (w.setState a s).mState b = w.mState b := by
  rw [setState]
  exact Function.update_of_ne hb s w.mState

@[simp] theorem setState_self (s : TrackState) : (w.setState a s).mState a = s := by
  rw [setState]
  exact Function.update_self a s w.mState

section Steps

variable (hw : w.Consistent)

include hw

/-- `start` returns at once. -/
theorem Consistent.note_returned (hheld : w.held a) (status : Status)
    (hlive : status = .noError → live a w.log = true) : (w.note (.returned a status)).Consistent := by
  have huses : (w.note (.returned a status)).uses a = w.uses a :=
    (uses_cons w (.returned a status) rfl a).trans (by simp)
  refine hw.local (a := a) ⟨fun _ _ => rfl, fun _ _ => Iff.rfl, fun _ _ => rfl, fun _ _ h => h, fun _ _ => Iff.rfl, rfl,
    [.returned a status], rfl, by simp [Op.track]⟩ hw.fatal (fun hnot => (hw.phases a hnot).cast rfl rfl rfl huses)
    (fun hdestroying => absurd hdestroying hheld.2) (.inl hheld.1) hw.looking (hw.lives a)
    (returned_cons hw.returned ?_)
  intro b hb
  obtain ⟨rfl, hstatus⟩ := Op.returned.inj hb
  exact hlive hstatus

theorem Consistent.start (hheld : w.held a) (hok : w.Sound (.start a)) :
    (w.start a).Consistent := by
  obtain ⟨hfree, hbusy⟩ := hok
  have hphase := hw.phases a hheld.2
  rw [RecordThread.start]
  cases hactive : w.mActiveTrack with
  | none =>
    obtain ⟨hcalls, hstate⟩ := hfree hactive
    have huses : w.uses a = 0 := by
      rw [hactive, hcalls] at hphase
      generalize w.mState a = s, w.uses a = d at hphase hstate
      cases hphase with
      | rest => rfl
      | playing => exact absurd rfl hstate
    refine hw.local (a := a) ⟨fun b hb => setState_other hb _, fun b hb => ?_, fun b hb => ?_, fun _ _ h => h,
      fun _ _ => Iff.rfl, rfl, [.adopted a], rfl, by simp [Op.track]⟩ hw.fatal (fun _ => ?_)
      (fun hdestroying => absurd hdestroying hheld.2) (.inl hheld.1) (fun _ => nofun) (fun _ hs => ?_)
      (returned_cons hw.returned nofun)
    · rw [hactive]
      simpa using hb.symm
    · exact (callsOf_cons w a .starting rfl b).trans (if_neg hb.symm)
    · refine Phase.starting.cast (decide_eq_true rfl) (setState_self _) ?_ ?_
      · exact (callsOf_cons w a .starting rfl a).trans (by rw [if_pos rfl, hcalls])
      · exact (uses_cons w (.adopted a) rfl a).trans (by simp [huses])
    · simp [note] at hs
  | some b =>
    simp only
    split
    · exact hw.note_returned hheld .busy nofun
    next hab =>
      obtain rfl := not_not.mp hab
      have hstate := hbusy hactive
      split
      next hpausing =>
        -- restarted while `stop` still waits
        have hwaits : .stopWaits ∈ w.callsOf a := by
          rcases hstate with hplays | ⟨-, hwaits⟩
          · rw [hplays] at hpausing
            cases hpausing
          · exact hwaits
        obtain ⟨-, hcalls, huses⟩ := hphase.of_stopWaits hwaits
        have hactivated : ((w.setState a .active).note (.activated a)).Consistent := by
          refine hw.local (a := a) ⟨fun b hb => setState_other hb _, fun _ _ => Iff.rfl, fun _ _ => rfl,
            fun _ _ h => h, fun _ _ => Iff.rfl, rfl, [.activated a], rfl, by simp [Op.track]⟩ hw.fatal (fun _ => ?_)
            (fun hdestroying => absurd hdestroying hheld.2) (.inl hheld.1) hw.looking (fun _ _ => ?_)
            (returned_cons hw.returned nofun)
          · refine (Phase.stopWaits true .active (.inr rfl)).cast (decide_eq_true hactive) (setState_self _) hcalls ?_
            exact (uses_cons w (.activated a) rfl a).trans (by simp [huses])
          · simp [note, live]
        refine hactivated.note_returned hheld .noError fun _ => ?_
        simp [note, live]
      next hpausing =>
        have hplays := hstate.resolve_right fun h => hpausing h.1
        exact hw.note_returned hheld .noError fun _ => hw.lives a hactive (.inl hplays)

theorem Consistent.inputStarted {ok : Bool} (hcall : (⟨a, .starting⟩ : Call) ∈ w.calls)
    (hok : w.Sound (.inputStarted a ok)) : (w.inputStarted a ok).Consistent := by
  obtain ⟨hmem, hnot, hborn, hphase⟩ := hw.phase_of_call hcall
  obtain ⟨hactive, hidle, hcalls, huses⟩ := hphase.of_starting hmem
  have hactive : w.mActiveTrack = some a := of_decide_eq_true hactive
  have hother : ∀ b, b ≠ a → (none = some b ↔ w.mActiveTrack = some b) := by
    intro b hb
    rw [hactive]
    simpa using hb.symm
  have hmoved : ∀ next b, b ≠ a → (w.moveCall ⟨a, .starting⟩ next).callsOf b = w.callsOf b := fun next b hb =>
    callsOf_moveCall_other hb.symm next
  rw [RecordThread.inputStarted]
  split
  next hfailed =>
    refine hw.local (a := a) ⟨fun _ _ => rfl, hother, hmoved none, fun _ _ h => h, fun _ _ => Iff.rfl, rfl,
      [.returned a .inputError], rfl, by simp [Op.track]⟩ hw.fatal (fun _ => ?_)
      (fun hdestroying => absurd hdestroying hnot) hborn (fun hloop => ?_) nofun (returned_cons hw.returned nofun)
    · refine (Phase.rest .idle (.inl rfl)).cast (decide_eq_false nofun) hidle (callsOf_moveCall hcalls none) ?_
      exact (uses_cons w (.returned a .inputError) rfl a).trans (by simp [huses])
    · rw [Sound, if_neg (by simpa using hfailed)] at hok
      exact absurd hloop (not_or.mpr hok)
  next hstarted =>
    have hused : ∀ w' : RecordThread, w'.log = .startInput a :: w.log → w'.uses a = 1 := fun w' hlog =>
      (uses_cons w (.startInput a) hlog a).trans (by simp [huses])
    simp only [note, hactive]
    rw [Sound, if_pos (by simpa using hstarted)] at hok
    rw [if_neg (by simp [setState, hok])]
    refine hw.local (a := a) ⟨fun b hb => setState_other hb _, fun _ _ => by rw [hactive]; rfl, hmoved _,
      fun _ _ h => h, fun _ _ => Iff.rfl, rfl, [.startInput a], rfl, by simp [Op.track]⟩ hw.fatal (fun _ => ?_)
      (fun hdestroying => absurd hdestroying hnot) hborn (fun _ => nofun) (fun _ hs => ?_)
      (returned_cons hw.returned nofun)
    · exact (Phase.startWaits true .resuming (.inl rfl)).cast (decide_eq_true rfl) (setState_self _)
        (callsOf_moveCall hcalls _) (hused _ rfl)
    · exact absurd (hs.imp (setState_self _).symm.trans (setState_self _).symm.trans) (by decide)

/-- The wait of `start` ends with the answer of the loop. -/
theorem Consistent.startWakes (hcall : (⟨a, .startWaits⟩ : Call) ∈ w.calls)
    (hok : w.Sound (.startWakes a)) : (w.startWakes a).Consistent := by
  obtain ⟨hmem, hnot, hborn, hphase⟩ := hw.phase_of_call hcall
  obtain ⟨-, hcalls, huses⟩ := hphase.of_startWaits hmem
  have hmoved : ∀ next b, b ≠ a → (w.moveCall ⟨a, .startWaits⟩ next).callsOf b = w.callsOf b := fun next b hb =>
    callsOf_moveCall_other hb.symm next
  obtain ⟨hactive, hplays⟩ := hok
  rw [RecordThread.startWakes, hactive]
  refine hw.local (a := a) ⟨fun _ _ => rfl, fun _ _ => Iff.rfl, hmoved none, fun _ _ h => h, fun _ _ => Iff.rfl, rfl,
    [.returned a .noError], rfl, by simp [Op.track]⟩ hw.fatal (fun _ => ?_)
    (fun hdestroying => absurd hdestroying hnot) hborn hw.looking (hw.lives a) (returned_cons hw.returned ?_)
  · refine (Phase.playing true).cast (decide_eq_true hactive) hplays (callsOf_moveCall hcalls none) ?_
    exact (uses_cons w (.returned a .noError) rfl a).trans (by simp [huses])
  · rintro b hb
    obtain ⟨rfl, -⟩ := Op.returned.inj hb
    exact hw.lives a hactive (.inl hplays)

/-- No `start` gets to `startError`. -/
theorem Consistent.not_startFails : (⟨a, .startFails⟩ : Call) ∉ w.calls := fun hcall => by
  obtain ⟨hmem, -, -, hphase⟩ := hw.phase_of_call hcall
  generalize decide (w.mActiveTrack = some a) = active, w.mState a = s, w.callsOf a = cs,
    w.uses a = d at hphase hmem
  cases hphase <;> simp at hmem

theorem Consistent.stop (hheld : w.held a) (hok : w.Sound (.stop a)) : (w.stop a).Consistent := by
  have hphase := hw.phases a hheld.2
  rw [RecordThread.stop]
  split
  · exact hw
  next hrun =>
    simp only [ne_eq, Bool.or_eq_true, decide_eq_true_eq, not_or, not_not] at hrun
    obtain ⟨hactive, hstate⟩ := hrun
    have hcalls := hok hactive hstate
    have hplays : w.mState a = .active ∧ w.uses a = 1 := by
      rw [hactive, hcalls, decide_eq_true rfl] at hphase
      generalize w.mState a = s, w.uses a = d at hphase hstate
      cases hphase with
      | playing => exact ⟨rfl, rfl⟩
      | halted => exact absurd rfl hstate
    refine hw.local (a := a) ⟨fun b hb => setState_other hb _, fun _ _ => Iff.rfl, fun b hb => ?_, fun _ _ h => h,
      fun _ _ => Iff.rfl, rfl, [], rfl, nofun⟩ hw.fatal (fun _ => ?_)
      (fun hdestroying => absurd hdestroying hheld.2) (.inl hheld.1) hw.looking
      (fun _ _ => hw.lives a hactive (.inl hplays.1)) hw.returned
    · exact (callsOf_cons w a _ rfl b).trans (if_neg hb.symm)
    · have hcalls' : ({ w.setState a .pausing with
          calls := ⟨a, if w.exitPending then .stopping else .stopWaits⟩ :: w.calls } : RecordThread).callsOf a =
            [if w.exitPending then .stopping else .stopWaits] :=
        (callsOf_cons w a _ rfl a).trans (by rw [if_pos rfl, hcalls])
      cases hexit : w.exitPending with
      | true =>
        exact (Phase.stopping true fun _ => hexit).cast (decide_eq_true hactive) (setState_self _)
          (hcalls'.trans (by rw [hexit]; rfl)) hplays.2
      | false =>
        exact (Phase.stopWaits true .pausing (.inl rfl)).cast (decide_eq_true hactive) (setState_self _)
          (hcalls'.trans (by rw [hexit]; rfl)) hplays.2

theorem Consistent.stopWakes (hcall : (⟨a, .stopWaits⟩ : Call) ∈ w.calls)
    (hok : w.Sound (.stopWakes a)) : (w.stopWakes a).Consistent := by
  obtain ⟨hmem, hnot, hborn, hphase⟩ := hw.phase_of_call hcall
  obtain ⟨hstate, hcalls, huses⟩ := hphase.of_stopWaits hmem
  refine hw.local (a := a) ⟨fun _ _ => rfl, fun _ _ => Iff.rfl, fun b hb => callsOf_moveCall_other hb.symm _,
    fun _ _ h => h, fun _ _ => Iff.rfl, rfl, [], rfl, nofun⟩ hw.fatal (fun _ => ?_)
    (fun hdestroying => absurd hdestroying hnot) hborn hw.looking (hw.lives a) hw.returned
  have hcalls' : (w.stopWakes a).callsOf a = _ := callsOf_moveCall hcalls _
  by_cases hstops : w.exitPending = true ∨ w.mActiveTrack ≠ some a
  · have hnext : (if w.exitPending || w.mActiveTrack ≠ some a then some Pc.stopping else none) = some .stopping :=
      if_pos (by simpa using hstops)
    rw [hnext] at hcalls'
    refine (Phase.stopping _ fun h => ?_).cast rfl (hok.mpr hstops) hcalls' huses
    exact hstops.resolve_right (not_not.mpr (of_decide_eq_true h))
  · have hnext : (if w.exitPending || w.mActiveTrack ≠ some a then some Pc.stopping else none) = none :=
      if_neg (by simpa using hstops)
    rw [hnext] at hcalls'
    exact (Phase.playing _).cast rfl (hstate.resolve_left (mt hok.mp hstops)) hcalls' huses

theorem Consistent.inputStopped (hcall : (⟨a, .stopping⟩ : Call) ∈ w.calls) :
    (w.inputStopped a).Consistent := by
  obtain ⟨hmem, hnot, hborn, hphase⟩ := hw.phase_of_call hcall
  obtain ⟨hstate, hexit, hcalls, huses⟩ := hphase.of_stopping hmem
  refine hw.local (a := a) ⟨fun _ _ => rfl, fun _ _ => Iff.rfl, fun b hb => callsOf_moveCall_other hb.symm _,
    fun _ _ h => h, fun _ _ => Iff.rfl, rfl, [.stopInput a], rfl, by simp [Op.track]⟩ hw.fatal (fun _ => ?_)
    (fun hdestroying => absurd hdestroying hnot) hborn hw.looking (hw.lives a) (returned_cons hw.returned nofun)
  have huses' : (w.inputStopped a).uses a = 0 := (uses_cons w (.stopInput a) rfl a).trans (by simp [huses])
  cases hactive : decide (w.mActiveTrack = some a) with
  | true =>
    exact (Phase.halted (hexit hactive)).cast hactive hstate (callsOf_moveCall hcalls none) huses'
  | false =>
    exact (Phase.rest .pausing (.inr rfl)).cast hactive hstate (callsOf_moveCall hcalls none) huses'

/-- A track whose destruction begins gives back its use. -/
theorem Consistent.destroy (hheld : w.held a) (hcalls : w.callsOf a = []) :
    (w.destroy a).Consistent := by
  have hphase := hw.phases a hheld.2
  have hmember : ∀ b, b ≠ a → (b ∈ a :: w.destroying ↔ b ∈ w.destroying) := fun b hb =>
    List.mem_cons.trans (or_iff_right hb)
  rw [hcalls] at hphase
  have hresuming : w.mState a ≠ .resuming := fun hs => by
    rw [hs] at hphase
    generalize decide (w.mActiveTrack = some a) = active, w.uses a = d at hphase
    cases hphase with
    | rest _ hs => simp at hs
  rw [RecordThread.destroy]
  split
  next hplays =>
    have hplays : w.mState a = .active := by
      simpa [hresuming] using hplays
    have huses : w.uses a = 1 := by
      rw [hplays] at hphase
      generalize decide (w.mActiveTrack = some a) = active, w.uses a = d at hphase
      cases hphase with
      | rest _ hs => simp at hs
      | playing => rfl
    refine hw.local (a := a) ⟨fun _ _ => rfl, fun _ _ => Iff.rfl, fun _ _ => rfl, fun _ _ h => h, hmember, rfl,
      [.stopInput a], rfl, by simp [Op.track]⟩ hw.fatal (fun hnot => absurd List.mem_cons_self hnot) (fun _ => ⟨hcalls, ?_⟩)
      (.inl hheld.1) hw.looking (hw.lives a) (returned_cons hw.returned nofun)
    exact (uses_cons w (.stopInput a) rfl a).trans (by simp [huses])
  next hquiet =>
    have huses : w.uses a = 0 := by
      generalize decide (w.mActiveTrack = some a) = active, w.mState a = s, w.uses a = d at hphase hquiet
      cases hphase with
      | rest => rfl
      | playing => simp at hquiet
      | halted => rfl
    exact hw.local (a := a) ⟨fun _ _ => rfl, fun _ _ => Iff.rfl, fun _ _ => rfl, fun _ _ h => h, hmember, rfl, [], rfl,
      nofun⟩ hw.fatal (fun hnot => absurd List.mem_cons_self hnot) (fun _ => ⟨hcalls, huses⟩) (.inl hheld.1) hw.looking
      (hw.lives a) hw.returned

theorem Consistent.destroyTrack (hdoomed : a ∈ w.destroying) : (w.destroyTrack a).Consistent := by
  have hquiet : ∀ w' : RecordThread, w'.mState a = .terminated → w'.mState a = .active ∨ w'.mState a = .pausing →
      live a w.log = true := by
    intro w' hs hplays
    rw [hs] at hplays
    exact absurd hplays (by decide)
  rw [RecordThread.destroyTrack]
  split
  · exact hw.local (a := a) ⟨fun b hb => setState_other hb _, fun _ _ => Iff.rfl, fun _ _ => rfl,
      fun b hb => mt (List.mem_erase_of_ne hb).mpr, fun _ _ => Iff.rfl, rfl, [], rfl, nofun⟩ hw.fatal
      (fun hnot => absurd hdoomed hnot) (fun _ => hw.gone a hdoomed) (.inr hdoomed) hw.looking
      (fun _ => hquiet _ (setState_self _)) hw.returned
  · exact hw.local (a := a) ⟨fun b hb => setState_other hb _, fun _ _ => Iff.rfl, fun _ _ => rfl, fun _ _ h => h,
      fun _ _ => Iff.rfl, rfl, [], rfl, nofun⟩ hw.fatal (fun hnot => absurd hdoomed hnot) (fun _ => hw.gone a hdoomed)
      (.inr hdoomed) hw.looking (fun _ => hquiet _ (setState_self _)) hw.returned

/-! ## Steps of the loop -/

theorem Consistent.exit : ({ w with exitPending := true } : RecordThread).Consistent :=
  ⟨hw.fatal, fun a ha => (hw.phases a ha).exit, hw.gone, hw.unborn, hw.looking, hw.lives, hw.returned⟩

theorem Consistent.setLoop {l : LoopPc}
    (h : l = .entered ∨ l = .reading → w.mActiveTrack ≠ none) : ({ w with loop := l } : RecordThread).Consistent :=
  ⟨hw.fatal, hw.phases, hw.gone, hw.unborn, h, hw.lives, hw.returned⟩

/-- A track that is not idle was created. -/
theorem Consistent.born_of_state (hs : w.mState a ≠ .idle) : a ∈ w.mTracks ∨ a ∈ w.destroying := by
  by_contra hnot
  obtain ⟨htracks, hdestroying⟩ := not_or.mp hnot
  exact hs (hw.unborn a htracks hdestroying).1

/-- The loop takes the active track away, while it does not read and no `start` is in `startInput`. -/
theorem Consistent.clear (hloop : ¬(w.loop = .entered ∨ w.loop = .reading))
    (hactive : w.mActiveTrack = some a) (hs : w.mState a ≠ .idle) :
    ({ w with mActiveTrack := none } : RecordThread).Consistent := by
  refine hw.local (a := a) ⟨fun _ _ => rfl, fun b hb => ?_, fun _ _ => rfl, fun _ _ h => h, fun _ _ => Iff.rfl, rfl, [],
    rfl, nofun⟩ hw.fatal (fun hnot => ?_) (hw.gone a) (hw.born_of_state hs) (fun h => absurd h hloop) nofun hw.returned
  · rw [hactive]
    simpa using hb.symm
  · have hphase := hw.phases a hnot
    rw [decide_eq_true hactive] at hphase
    exact hphase.cleared hs

theorem Consistent.lookAt (hloop : w.loop = .top) (hactive : w.mActiveTrack = some a)
    (look : Look) : (w.lookAt look a).Consistent := by
  have hquiet : ¬(w.loop = .entered ∨ w.loop = .reading) := by
    rw [hloop]
    decide
  rw [RecordThread.lookAt]
  split
  next hs => exact hw.clear hquiet hactive (hs ▸ nofun)
  next hs =>
    have hclear := hw.clear hquiet hactive (hs ▸ nofun)
    split
    · exact hclear
    · split
      · split
        · refine hw.local (a := a) ⟨fun b hb => setState_other hb _, fun _ _ => Iff.rfl, fun _ _ => rfl, fun _ _ h => h,
            fun _ _ => Iff.rfl, rfl, [.activated a], rfl, by simp [Op.track]⟩ hw.fatal (fun hnot => ?_)
            (fun hdestroying => ⟨(hw.gone a hdestroying).1, ?_⟩) (hw.born_of_state (hs ▸ nofun)) hw.looking
            (fun _ _ => by simp [note, live]) (returned_cons hw.returned nofun)
          · have huses : ((w.setState a .active).note (.activated a)).uses a = w.uses a :=
              (uses_cons w (.activated a) rfl a).trans (by simp)
            have hphase := hw.phases a hnot
            refine Phase.cast ?_ (decide_eq_true hactive) (setState_self _) rfl huses
            rw [decide_eq_true hactive, hs] at hphase
            have hcalls : ((w.setState a .active).note (.activated a)).callsOf a = w.callsOf a := rfl
            rw [hcalls]
            generalize w.callsOf a = cs, w.uses a = d at hphase
            cases hphase with
            | startWaits => exact .startWaits true .active (.inr rfl)
            | stopWaits _ _ hs => simp at hs
          · exact (uses_cons w (.activated a) rfl a).trans (by simp [(hw.gone a hdestroying).2])
        · exact hclear
      · exact hw
  next hs =>
    have hdoomed : a ∈ w.destroying := by
      by_contra hnot
      have hphase := hw.phases a hnot
      rw [hs] at hphase
      generalize decide (w.mActiveTrack = some a) = active, w.callsOf a = cs, w.uses a = d at hphase
      cases hphase <;> simp_all
    have hclear := hw.clear hquiet hactive (hs ▸ nofun)
    refine ⟨hclear.fatal, hclear.phases, hclear.gone, fun b hb hnot => ?_, hclear.looking, hclear.lives, hclear.returned⟩
    have hne : b ≠ a := ne_of_mem_of_not_mem hdoomed hnot |>.symm
    exact hclear.unborn b (mt (List.mem_erase_of_ne hne).mpr hb) hnot
  · exact hw

theorem Consistent.iterate (hloop : w.loop = .top) (look : Look) : (w.iterate look).Consistent := by
  rw [RecordThread.iterate]
  split
  · refine hw.setLoop ?_
    split <;> simp
  next a hactive => exact (hw.lookAt hloop hactive look).setLoop (by simp)

theorem Consistent.peek (again : Bool) : (w.peek again).Consistent := by
  rw [RecordThread.peek]
  split
  · refine hw.setLoop fun h => ?_
    cases hactive : w.mActiveTrack with
    | none => simp [hactive] at h
    | some a => exact nofun
  next hloop =>
    have hlook := hw.looking (.inl hloop)
    split
    next hnone => exact absurd hnone hlook
    · exact hw.setLoop fun _ => hlook
  next hloop =>
    have hlook := hw.looking (.inr hloop)
    split
    next hnone => exact absurd hnone hlook
    · exact hw.setLoop fun _ => hlook
  · exact hw

theorem Consistent.leave (hloop : w.loop = .top) (hok : w.Sound .leave) : w.leave.Consistent := by
  have hquiet : ¬(w.loop = .entered ∨ w.loop = .reading) := by
    rw [hloop]
    decide
  have hclear : ({ w with mActiveTrack := none } : RecordThread).Consistent := by
    cases hactive : w.mActiveTrack with
    | none =>
      rw [← hactive]
      exact hw
    | some a => exact hw.clear hquiet hactive (hok a hactive)
  exact hclear.setLoop (by simp)

end Steps

/-! ## Every run -/

instance (w : RecordThread) : ∀ e, Decidable (w.Sound e)
  | .start _ => inferInstanceAs (Decidable ((_ → _ ∧ _) ∧ (_ → _ ∨ _)))
  | .inputStarted .. => inferInstanceAs (Decidable (ite _ _ _))
  | .startWakes _ => inferInstanceAs (Decidable (_ ∧ _))
  | .stop _ => inferInstanceAs (Decidable (_ → _ → _))
  | .stopWakes _ => inferInstanceAs (Decidable (_ ↔ _))
  | .leave => inferInstanceAs (Decidable (∀ a ∈ w.mActiveTrack, _))
  | .create _ | .startError _ | .inputStopped _ | .destroy _ | .destroyTrack _ | .exit | .iterate _ | .peek _ => isTrue trivial

theorem Consistent.call (hw : w.Consistent) (hok : w.Sound e) (henabled : w.Enabled e) : (w.call e).Consistent := by
  cases e with
  | create a => exact hw.create henabled.1 henabled.2
  | start a => exact hw.start henabled hok
  | inputStarted a ok => exact hw.inputStarted henabled hok
  | startWakes a => exact hw.startWakes henabled hok
  | startError a => exact absurd henabled hw.not_startFails
  | stop a => exact hw.stop henabled hok
  | stopWakes a => exact hw.stopWakes henabled hok
  | inputStopped a => exact hw.inputStopped henabled
  | destroy a => exact hw.destroy henabled.1 henabled.2
  | destroyTrack a => exact hw.destroyTrack henabled.1
  | exit => exact hw.exit
  | iterate look => exact hw.iterate henabled look
  | peek again => exact hw.peek again
  | leave => exact hw.leave henabled.1 hok

theorem Consistent.step (hw : w.Consistent) (hok : w.Sound e) (hstep : w.step e = some w') : w'.Consistent := by
  rw [RecordThread.step] at hstep
  split at hstep
  next henabled =>
    cases hstep
    rw [Bool.and_eq_true, decide_eq_true_eq] at henabled
    exact hw.call hok henabled.2
  · cases hstep

/-- `mActiveTrack` was never NULL where it is dereferenced, `start` succeeded only for a track that was
`ACTIVE` since it became the active one, and every track has used the input once at most, and not
at all when it is destroyed. -/
structure Kept (w : RecordThread) : Prop where
  fatal : w.fatal = false
  returned : ∀ a log, (Op.returned a .noError :: log) <:+ w.log → live a log = true
  uses : ∀ a, 0 ≤ w.uses a ∧ w.uses a ≤ 1
  destroyed : ∀ a ∈ w.destroying, w.uses a = 0

theorem Consistent.kept (hw : w.Consistent) : w.Kept := by
  refine ⟨hw.fatal, hw.returned, fun a => ?_, fun a ha => (hw.gone a ha).2⟩
  by_cases ha : a ∈ w.destroying
  · rw [(hw.gone a ha).2]
    decide
  · exact (hw.phases a ha).uses_bound

/-- Along the steps that do not cross, the protocol is kept. -/
theorem kept_along (es : List Event) (w : RecordThread) (hrun : Machine.run step new es = some w)
    (hsound : Machine.Along step Sound new es) : w.Kept :=
  (Machine.run_invariant_along (fun _ _ _ hok hstep h => h.step hok hstep) hsound hrun
    consistent_new : w.Consistent).kept

/-- The input is read, with an error or not. -/
def reads (readOk : Bool) : Look := ⟨false, false, true, readOk⟩

/-- A track is recorded and stopped, while another one is refused; then the other one fails to
start, and the first one is destroyed. -/
def twoRecorded : List Event :=
  [.create 1, .create 2, .start 1, .inputStarted 1 true, .iterate (reads true), .startWakes 1, .start 2, .peek true,
    .peek true, .stop 1, .peek false, .iterate (reads true), .stopWakes 1, .inputStopped 1, .peek true, .start 2,
    .inputStarted 2 false, .destroy 1, .destroyTrack 1]

theorem kept_along_twoRecorded : ∃ w, Machine.run step new twoRecorded = some w ∧ w.Kept := by
  have hrun := Option.eq_some_of_isSome (by decide : (Machine.run step new twoRecorded).isSome = true)
  exact ⟨_, hrun, kept_along twoRecorded _ hrun (by decide)⟩

/-- A track is stopped while its `start` is in `startInput`, and `start` dereferences NULL; a wait that
ends early makes `start` succeed for a track that was not `ACTIVE`; and for a track whose first read
fails `start` returns `NO_ERROR` as well, and the input is given back twice. -/
theorem crossed :
    (Machine.run step new [.create 1, .start 1, .stop 1, .iterate (reads true), .inputStarted 1 true]).map fatal =
      some true ∧
    (Machine.run step new [.create 1, .start 1, .inputStarted 1 true, .startWakes 1]).map log =
      some [.returned 1 .noError, .startInput 1, .adopted 1] ∧
    (Machine.run step new [.create 1, .start 1, .inputStarted 1 true, .iterate (reads false), .startWakes 1,
      .startError 1, .destroy 1]).map (fun w => (w.log, w.uses 1)) =
      some ([.stopInput 1, .returned 1 .noError, .stopInput 1, .startInput 1, .adopted 1], -1) := by
  decide

end RecordThread

end AudioFlinger.Recording
