import AudioFlinger.AudioPolicy.Commands

/-!
# The order of the audio commands

What the scan of `insertCommand_l` finds: the commands that are later than the new one, and the time of the
first one it supersedes. With that time the new command still stands at the index of its own time, so the
queue stays sorted only where nothing unrelated is due in between. Whatever the order, the last value
applied for a stream or a key is that of the last command.
-/

namespace AudioFlinger.AudioPolicy

open Foundation

variable {s s' : CommandThread} {data : Data} {delayMs T : ℤ} {c : AudioCommand}

/-! ## The scan -/

/-- What is left of a pending command. -/
def keep (data : Data) (c : AudioCommand) : Option AudioCommand :=
  (survivor data c.mParam).map fun data2 => { c with mParam := data2 }

def touched (data : Data) (c : AudioCommand) : Bool := (supersede data c.mParam).isSome

theorem scan_spec (T : ℤ) (data : Data) (l acc : List AudioCommand) (time : ℤ) :
    ∃ before later, l.reverse = before ++ later ∧ (∀ c ∈ later, T < c.mTime) ∧
      (∀ c ∈ before.getLast?, c.mTime ≤ T) ∧
      scan T data l acc time =
        (before, later.filterMap (keep data) ++ acc, ((later.find? (touched data)).map (·.mTime)).getD time) := by
  induction l generalizing acc time with
  | nil => exact ⟨[], [], rfl, nofun, nofun, rfl⟩
  | cons c l ih =>
    by_cases hc : c.mTime ≤ T
    · refine ⟨(c :: l).reverse, [], (List.append_nil _).symm, nofun, ?_, by rw [scan, if_pos hc]; rfl⟩
      intro c' hc'
      rw [List.getLast?_reverse, List.head?_cons, Option.mem_some_iff] at hc'
      exact hc' ▸ hc
    · -- the rest of the scan goes on with what is left of `c` in front of the later commands
      have hrest : scan T data (c :: l) acc time =
          scan T data l ((keep data c).toList ++ acc) (if touched data c then c.mTime else time) := by
        rw [scan, if_neg hc, keep, survivor, touched]
        rcases supersede data c.mParam with _ | _ | data2 <;> rfl
      obtain ⟨before, later, heq, hlater, hbefore, hscan⟩ :=
        ih ((keep data c).toList ++ acc) (if touched data c then c.mTime else time)
      refine ⟨before, later ++ [c], ?_, ?_, hbefore, ?_⟩
      · rw [List.reverse_cons, heq, List.append_assoc]
      · intro c' hc'
        rcases List.mem_append.mp hc' with hc' | hc'
        · exact hlater c' hc'
        · rw [List.mem_singleton.mp hc']
          exact not_le.mp hc
      · rw [hrest, hscan, List.filterMap_append, List.find?_append, List.append_assoc]
        refine Prod.ext rfl (Prod.ext ?_ ?_)
        · cases hkeep : keep data c <;> simp [hkeep]
        · cases later.find? (touched data) with
          | some c' => rfl
          | none => cases htouch : touched data c <;> simp [htouch]

/-- The command that is inserted, when the scan leaves `time`. -/
def newCommand (s : CommandThread) (data : Data) (delayMs time : ℤ) : AudioCommand where
  self := s.inserted.length
  asked := dueTime s delayMs
  mTime := if time ≠ 0 then time else dueTime s delayMs
  mParam := data
  mWaitStatus := delayMs = 0 ∧ time = 0

/-- The queue after an insertion, from the queue before. -/
theorem insertCommand_spec (s : CommandThread) (data : Data) (delayMs : ℤ) :
    ∃ before later, s.mAudioCommands = before ++ later ∧ (∀ c ∈ later, dueTime s delayMs < c.mTime) ∧
      (∀ c ∈ before.getLast?, c.mTime ≤ dueTime s delayMs) ∧
      ∃ time, time = ((later.find? (touched data)).map (·.mTime)).getD 0 ∧
        insertCommand s data delayMs =
          { s with
            mAudioCommands := before ++ newCommand s data delayMs time :: later.filterMap (keep data)
            inserted := s.inserted ++ [newCommand s data delayMs time] } := by
  obtain ⟨before, later, heq, hlater, hbefore, hscan⟩ :=
    scan_spec (dueTime s delayMs) data s.mAudioCommands.reverse [] 0
  rw [List.reverse_reverse] at heq
  refine ⟨before, later, heq, hlater, hbefore, _, rfl, ?_⟩
  rw [insertCommand, hscan, List.append_nil]
  rfl

theorem execute_some (h : execute s = some s') :
    ∃ c rest, s.mAudioCommands = c :: rest ∧ c.mTime ≤ s.clock ∧
      s' = { s with mAudioCommands := rest, executed := s.executed ++ [c] } := by
  rw [execute] at h
  cases hq : s.mAudioCommands with
  | nil => simp [hq] at h
  | cons c rest =>
    rw [hq] at h
    obtain ⟨hdue, hw⟩ := Option.ite_none_right_eq_some.mp h
    cases hw
    exact ⟨c, rest, rfl, hdue, rfl⟩

/-! ## The last value, in every run -/

section LastValue

variable {β : Type*} {f : Data → Option β}

@[simp] theorem values_append (l l' : List AudioCommand) : values f (l ++ l') = values f l ++ values f l' :=
  List.filterMap_append

theorem values_cons (c : AudioCommand) (l : List AudioCommand) :
    values f (c :: l) = (f c.mParam).toList ++ values f l := by
  rw [values, List.filterMap_cons]
  cases f c.mParam <;> rfl

/-- The pending values that an insertion leaves. -/
theorem values_keep (hf : ∀ data2, (survivor data data2).bind f = if (f data).isSome then none else f data2)
    (l : List AudioCommand) :
    values f (l.filterMap (keep data)) = if (f data).isSome then [] else values f l := by
  have hone : ∀ c, ((keep data c).bind fun c' => f c'.mParam) =
      if (f data).isSome then none else f c.mParam := by
    intro c
    rw [← hf c.mParam, keep]
    cases survivor data c.mParam <;> rfl
  rw [values, List.filterMap_filterMap, funext hone]
  split_ifs with hdata
  · exact List.filterMap_none l
  · rfl

/-- The commands that have run and then the pending ones end with the last value asked for. -/
def LastValue (f : Data → Option β) (s : CommandThread) : Prop :=
  (values f (s.executed ++ s.mAudioCommands)).getLast? = (values f s.inserted).getLast?

theorem LastValue.insert
    (hf : ∀ data2, (survivor data data2).bind f = if (f data).isSome then none else f data2)
    (h : LastValue f s) : LastValue f (insertCommand s data delayMs) := by
  obtain ⟨before, later, heq, -, -, time, -, hins⟩ := insertCommand_spec s data delayMs
  rw [LastValue, heq] at h
  rw [hins, LastValue]
  simp only [values_append, values_cons, values_keep hf, newCommand] at h ⊢
  cases hdata : f data with
  | none => simpa [hdata, values] using h
  | some x => simp [values]

theorem LastValue.step {e : Event}
    (hf : ∀ data data2, (survivor data data2).bind f = if (f data).isSome then none else f data2)
    (hstep : step s e = some s') (h : LastValue f s) : LastValue f s' := by
  cases e with
  | tick elapsed =>
    cases hstep
    exact h
  | insert data delayMs =>
    cases hstep
    exact h.insert (hf data)
  | execute =>
    obtain ⟨c, rest, heq, -, rfl⟩ := execute_some hstep
    rw [LastValue, heq] at h
    rw [LastValue, ← h, List.append_assoc]
    rfl

end LastValue

/-! ## The order, where the time taken over is the next one -/

/-- None of the commands that are dropped is waited for, and when the new command supersedes something, the
first of the later commands is due together with one that sets the same stream or key. -/
def Sound (s : CommandThread) : Event → Prop
  | .insert data delayMs =>
    (∀ c ∈ s.mAudioCommands, dueTime s delayMs < c.mTime → supersede data c.mParam = some none →
      c.mWaitStatus = false) ∧
    ((∃ c ∈ s.mAudioCommands, dueTime s delayMs < c.mTime ∧ touched data c) →
      ∀ c ∈ s.mAudioCommands, dueTime s delayMs < c.mTime →
        ∃ c1 ∈ s.mAudioCommands, dueTime s delayMs < c1.mTime ∧ related data c1.mParam ∧ c1.mTime ≤ c.mTime)
  | _ => True

instance (s : CommandThread) : ∀ e, Decidable (Sound s e)
  | .insert _ _ => inferInstanceAs (Decidable (_ ∧ _))
  | .tick _ | .execute => isTrue trivial

/-- `onTime`: a command is due when its caller asked for, or when an earlier command was due that sets the
same stream or key. -/
structure Orderly (s : CommandThread) : Prop where
  sorted : s.mAudioCommands.Pairwise fun c c' => c.mTime ≤ c'.mTime
  waited : ∀ c ∈ s.inserted, c.mWaitStatus →
    ∃ c' ∈ s.executed ++ s.mAudioCommands, c'.self = c.self ∧ c'.mWaitStatus
  -- the loop sleeps until the command at index 0 is due
  prompt : ∀ h ∈ s.mAudioCommands.head?, ∀ c ∈ s.mAudioCommands, h.mTime ≤ c.mTime
  onTime : ∀ c ∈ s.inserted, c.mTime = c.asked ∨
    ∃ c1 ∈ s.inserted, c1.self < c.self ∧ related c.mParam c1.mParam ∧ c1.mTime = c.mTime
  volumes : ∀ stream io, LastValue (volumeOf stream io) s
  parameters : ∀ io key, LastValue (parameterOf io key) s

/-- A pending or executed command is what is left of an inserted one. -/
structure Origin (c c0 : AudioCommand) : Prop where
  self : c0.self = c.self
  mTime : c0.mTime = c.mTime
  waits : c0.mWaitStatus = c.mWaitStatus
  related : ∀ data, related data c.mParam → related data c0.mParam

/-- The invariant of the runs that meet `Sound`. -/
structure Inv (s : CommandThread) : Prop where
  orderly : Orderly s
  origin : ∀ c ∈ s.mAudioCommands, ∃ c0 ∈ s.inserted, Origin c c0
  numbered : ∀ c ∈ s.inserted, c.self < s.inserted.length

/-- Filtering adds no key. -/
theorem related_survivor {data1 data2 data3 : Data} (hsurv : survivor data data2 = some data3)
    (h : related data1 data3) : related data1 data2 := by
  rw [survivor] at hsurv
  cases hsup : supersede data data2 with
  | none =>
    rw [hsup] at hsurv
    cases hsurv
    exact h
  | some left =>
    rw [hsup, Option.getD_some] at hsurv
    subst hsurv
    cases data with
    | setParameters mIO pairs =>
      cases data2 with
      | setParameters mIO2 pairs2 =>
        rw [supersede] at hsup
        split_ifs at hsup with hio hempty
        · cases hsup
        · obtain rfl := Option.some.inj (Option.some.inj hsup)
          cases data1 with
          | setParameters mIO1 pairs1 =>
            simp only [related, parse_filterOut, Bool.and_eq_true, List.any_eq_true] at h ⊢
            obtain ⟨hio1, p, hp, hsome⟩ := h
            refine ⟨hio1, p, hp, ?_⟩
            rw [valueFor_filterOut] at hsome
            split_ifs at hsome
            · exact absurd hsome Bool.false_ne_true
            · exact hsome
          | _ => simp [related] at h
      | _ => simp [supersede] at hsup
    | setVolume mStream v mIO =>
      cases data2 <;> simp [supersede] at hsup
    | _ => simp [supersede] at hsup

theorem touched_of_related (h : related data c.mParam) : touched data c := by
  rw [touched]
  cases data with
  | setParameters mIO pairs =>
    cases hc : c.mParam with
    | setParameters mIO2 pairs2 =>
      rw [hc, related, Bool.and_eq_true, decide_eq_true_iff] at h
      rw [supersede, if_neg (not_not.mpr h.1)]
      split_ifs <;> rfl
    | _ => simp [hc, related] at h
  | setVolume mStream v mIO =>
    cases hc : c.mParam with
    | setVolume mStream2 v2 mIO2 =>
      rw [hc, related, Bool.and_eq_true, decide_eq_true_iff, decide_eq_true_iff] at h
      rw [supersede, if_neg (not_not.mpr h.2), if_neg (not_not.mpr h.1)]
      rfl
    | _ => simp [hc, related] at h
  | _ => simp [related] at h

theorem keep_some {c c' : AudioCommand} (h : keep data c = some c') :
    c'.self = c.self ∧ c'.mTime = c.mTime ∧ c'.mWaitStatus = c.mWaitStatus ∧
      ∀ data1, related data1 c'.mParam → related data1 c.mParam := by
  obtain ⟨data2, hsurv, rfl⟩ := Option.map_eq_some_iff.mp h
  exact ⟨rfl, rfl, rfl, fun data1 => related_survivor hsurv⟩

theorem sorted_of_prompt (h : s.mAudioCommands.Pairwise fun c c' => c.mTime ≤ c'.mTime) :
    ∀ h ∈ s.mAudioCommands.head?, ∀ c ∈ s.mAudioCommands, h.mTime ≤ c.mTime := by
  intro first hfirst c hc
  obtain ⟨rest, hq⟩ := List.head?_eq_some_iff.mp hfirst
  rw [hq] at h hc
  rcases List.mem_cons.mp hc with rfl | hc
  · exact le_rfl
  · exact List.rel_of_pairwise_cons h hc

/-- In a sorted queue the scan reaches every later command. -/
theorem mem_later {before later : List AudioCommand}
    (hsorted : s.mAudioCommands.Pairwise fun c c' => c.mTime ≤ c'.mTime)
    (heq : s.mAudioCommands = before ++ later) (hbefore : ∀ c ∈ before.getLast?, c.mTime ≤ T) :
    (∀ c ∈ before, c.mTime ≤ T) ∧ ∀ c ∈ s.mAudioCommands, T < c.mTime → c ∈ later := by
  have hle : ∀ c ∈ before, c.mTime ≤ T := by
    intro c hc
    rw [heq, List.pairwise_append] at hsorted
    rcases List.eq_nil_or_concat' before with rfl | ⟨init, last, rfl⟩
    · cases hc
    · have hlast := hbefore last (by simp)
      rcases List.mem_append.mp hc with hc | hc
      · have hcl := (List.pairwise_append.mp hsorted.1).2.2 c hc last (List.mem_singleton_self last)
        exact hcl.trans hlast
      · rwa [List.mem_singleton.mp hc]
  refine ⟨hle, ?_⟩
  intro c hc hT
  rw [heq] at hc
  rcases List.mem_append.mp hc with hc | hc
  · exact absurd (hle c hc) (not_le.mpr hT)
  · exact hc

/-- Under `Sound` the time that is taken over is that of the first later command, and some later command
with that time sets the same stream or key. -/
theorem first_time {before later : List AudioCommand}
    (hsorted : s.mAudioCommands.Pairwise fun c c' => c.mTime ≤ c'.mTime)
    (hok : Sound s (.insert data delayMs)) (heq : s.mAudioCommands = before ++ later)
    (hlater : ∀ c ∈ later, dueTime s delayMs < c.mTime)
    (hbefore : ∀ c ∈ before.getLast?, c.mTime ≤ dueTime s delayMs) {first : AudioCommand}
    (hfirst : later.find? (touched data) = some first) :
    (∀ c ∈ later, first.mTime ≤ c.mTime) ∧ ∃ c1 ∈ later, related data c1.mParam ∧ c1.mTime = first.mTime := by
  have hmem := (mem_later hsorted heq hbefore).2
  have hpending : ∀ c ∈ later, c ∈ s.mAudioCommands := by
    intro c hc
    rw [heq]
    exact List.mem_append_right _ hc
  rw [heq, List.pairwise_append] at hsorted
  obtain ⟨htouched, l, r, rfl, huntouched⟩ := List.find?_eq_some_iff_append.mp hfirst
  have hin : first ∈ l ++ first :: r := by simp
  -- a superseded command is not in front of the first one
  have hleast : ∀ c ∈ l ++ first :: r, touched data c → first.mTime ≤ c.mTime := by
    intro c hc hct
    rcases List.mem_append.mp hc with hc | hc
    · simpa [hct] using huntouched c hc
    · rcases List.mem_cons.mp hc with rfl | hc
      · exact le_rfl
      · exact List.rel_of_pairwise_cons (List.pairwise_append.mp hsorted.2.1).2.1 hc
  have hnext : ∀ c ∈ l ++ first :: r, ∃ c1 ∈ l ++ first :: r, related data c1.mParam ∧
      first.mTime ≤ c1.mTime ∧ c1.mTime ≤ c.mTime := by
    intro c hc
    obtain ⟨c1, hc1, hT, hrel, hle⟩ :=
      hok.2 ⟨first, hpending first hin, hlater first hin, htouched⟩ c (hpending c hc) (hlater c hc)
    have hc1in := hmem c1 hc1 hT
    exact ⟨c1, hc1in, hrel, hleast c1 hc1in (touched_of_related hrel), hle⟩
  constructor
  · intro c hc
    obtain ⟨c1, -, -, hfirst1, hle⟩ := hnext c hc
    exact hfirst1.trans hle
  · obtain ⟨c1, hc1, hrel, hfirst1, hle⟩ := hnext first hin
    exact ⟨c1, hc1, hrel, le_antisymm hle hfirst1⟩

/-- The time of the new command: its own, or that of a later one that sets the same stream or key. Nothing
that is left of the later commands is due before it. -/
theorem newCommand_time {before later : List AudioCommand}
    (hsorted : s.mAudioCommands.Pairwise fun c c' => c.mTime ≤ c'.mTime)
    (hok : Sound s (.insert data delayMs)) (heq : s.mAudioCommands = before ++ later)
    (hlater : ∀ c ∈ later, dueTime s delayMs < c.mTime)
    (hbefore : ∀ c ∈ before.getLast?, c.mTime ≤ dueTime s delayMs) {time : ℤ}
    (htime : time = ((later.find? (touched data)).map (·.mTime)).getD 0) :
    dueTime s delayMs ≤ (newCommand s data delayMs time).mTime ∧
      (∀ c ∈ later, (newCommand s data delayMs time).mTime ≤ c.mTime) ∧
      ((newCommand s data delayMs time).mTime = dueTime s delayMs ∨
        ∃ c1 ∈ later, related data c1.mParam ∧ c1.mTime = (newCommand s data delayMs time).mTime) := by
  rw [newCommand]
  by_cases hzero : time = 0
  · simp only [hzero, ne_eq, not_true_eq_false, if_false]
    exact ⟨le_rfl, fun c hc => (hlater c hc).le, .inl trivial⟩
  · cases hfirst : later.find? (touched data) with
    | none =>
      rw [hfirst] at htime
      exact absurd htime hzero
    | some first =>
      rw [hfirst] at htime
      obtain ⟨hall, hrel⟩ := first_time hsorted hok heq hlater hbefore hfirst
      simp only [ne_eq, hzero, not_false_eq_true, if_true]
      rw [show time = first.mTime from htime]
      exact ⟨(hlater first (List.mem_of_find?_eq_some hfirst)).le, hall, .inr hrel⟩

theorem mem_kept {later : List AudioCommand} {c' : AudioCommand} (h : c' ∈ later.filterMap (keep data)) :
    ∃ c ∈ later, c'.self = c.self ∧ c'.mTime = c.mTime ∧ c'.mWaitStatus = c.mWaitStatus ∧
      ∀ data1, related data1 c'.mParam → related data1 c.mParam := by
  obtain ⟨c, hc, hkeep⟩ := List.mem_filterMap.mp h
  exact ⟨c, hc, keep_some hkeep⟩

theorem sorted_kept {later : List AudioCommand} (h : later.Pairwise fun c c' => c.mTime ≤ c'.mTime) :
    (later.filterMap (keep data)).Pairwise fun c c' => c.mTime ≤ c'.mTime := by
  refine h.filterMap _ ?_
  intro c c' hle d hd d' hd'
  rw [(keep_some hd).2.1, (keep_some hd').2.1]
  exact hle

/-- The queue stays sorted. -/
theorem sorted_insert (hsorted : s.mAudioCommands.Pairwise fun c c' => c.mTime ≤ c'.mTime)
    (hok : Sound s (.insert data delayMs)) :
    (insertCommand s data delayMs).mAudioCommands.Pairwise fun c c' => c.mTime ≤ c'.mTime := by
  obtain ⟨before, later, heq, hlater, hbefore, time, htime, hins⟩ := insertCommand_spec s data delayMs
  obtain ⟨hown, hnext, -⟩ := newCommand_time hsorted hok heq hlater hbefore htime
  have hpre := (mem_later hsorted heq hbefore).1
  rw [heq, List.pairwise_append] at hsorted
  rw [hins, List.pairwise_append, List.pairwise_cons]
  refine ⟨hsorted.1, ⟨?_, sorted_kept hsorted.2.1⟩, ?_⟩
  · intro c' hc'
    obtain ⟨c, hc, -, htime', -⟩ := mem_kept hc'
    rw [htime']
    exact hnext c hc
  · intro c hc c' hc'
    rcases List.mem_cons.mp hc' with rfl | hc'
    · exact (hpre c hc).trans hown
    · obtain ⟨d, hd, -, htime', -⟩ := mem_kept hc'
      rw [htime']
      exact hsorted.2.2 c hc d hd

/-- Nothing that is waited for is dropped. -/
theorem kept_of_waited {before later : List AudioCommand} (hok : Sound s (.insert data delayMs))
    (heq : s.mAudioCommands = before ++ later) (hlater : ∀ c ∈ later, dueTime s delayMs < c.mTime)
    (hc : c ∈ later) (hwait : c.mWaitStatus) :
    ∃ c' ∈ later.filterMap (keep data), c'.self = c.self ∧ c'.mWaitStatus := by
  have hnot : supersede data c.mParam ≠ some none := by
    intro hsup
    have hin : c ∈ s.mAudioCommands := heq ▸ List.mem_append_right _ hc
    exact Bool.false_ne_true ((hok.1 c hin (hlater c hc) hsup).symm.trans hwait)
  cases hkeep : keep data c with
  | none =>
    rw [keep, Option.map_eq_none_iff, survivor] at hkeep
    cases hsup : supersede data c.mParam with
    | none => simp [hsup] at hkeep
    | some left =>
      rw [hsup, Option.getD_some] at hkeep
      exact absurd (hkeep ▸ hsup) hnot
  | some c' =>
    obtain ⟨hself, -, hwaits, -⟩ := keep_some hkeep
    exact ⟨c', List.mem_filterMap.mpr ⟨c, hc, hkeep⟩, hself, hwaits.trans hwait⟩

theorem Inv.insert (h : Inv s) (hok : Sound s (.insert data delayMs)) : Inv (insertCommand s data delayMs) := by
  have hsorted := sorted_insert h.orderly.sorted hok
  have hvolumes : ∀ stream io, LastValue (volumeOf stream io) (insertCommand s data delayMs) :=
    fun stream io => (h.orderly.volumes stream io).insert fun _ => survivor_volumeOf stream io
  have hparameters : ∀ io key, LastValue (parameterOf io key) (insertCommand s data delayMs) :=
    fun io key => (h.orderly.parameters io key).insert fun _ => survivor_parameterOf io key
  have hprompt := sorted_of_prompt hsorted
  obtain ⟨before, later, heq, hlater, hbefore, time, htime, hins⟩ := insertCommand_spec s data delayMs
  obtain ⟨-, -, horigin⟩ := newCommand_time h.orderly.sorted hok heq hlater hbefore htime
  have hlog : ∀ c ∈ s.inserted, c ∈ s.inserted ++ [newCommand s data delayMs time] :=
    fun c hc => List.mem_append_left _ hc
  have hnew : newCommand s data delayMs time ∈ s.inserted ++ [newCommand s data delayMs time] := by simp
  have hlaterin : ∀ c ∈ later, c ∈ s.mAudioCommands := fun c hc => heq ▸ List.mem_append_right _ hc
  rw [hins] at hsorted hvolumes hparameters hprompt ⊢
  refine ⟨⟨hsorted, ?_, hprompt, ?_, hvolumes, hparameters⟩, ?_, ?_⟩
  · intro c hc hwait
    rcases List.mem_append.mp hc with hc | hc
    · obtain ⟨c', hc', hself, hwait'⟩ := h.orderly.waited c hc hwait
      rw [heq, ← List.append_assoc] at hc'
      rcases List.mem_append.mp hc' with hc' | hc'
      · refine ⟨c', ?_, hself, hwait'⟩
        rw [← List.append_assoc]
        exact List.mem_append_left _ hc'
      · obtain ⟨d, hd, hdself, hdwait⟩ := kept_of_waited hok heq hlater hc' hwait'
        refine ⟨d, ?_, hdself.trans hself, hdwait⟩
        exact List.mem_append_right _ (List.mem_append_right _ (List.mem_cons_of_mem _ hd))
    · exact ⟨c, by simp [List.mem_singleton.mp hc], rfl, hwait⟩
  · intro c hc
    rcases List.mem_append.mp hc with hc | hc
    · refine (h.orderly.onTime c hc).imp_right ?_
      rintro ⟨c1, hc1, hrest⟩
      exact ⟨c1, hlog c1 hc1, hrest⟩
    · obtain rfl := List.mem_singleton.mp hc
      refine horigin.imp_right ?_
      rintro ⟨c1, hc1, hrel, hc1time⟩
      obtain ⟨c0, hc0, hc0origin⟩ := h.origin c1 (hlaterin c1 hc1)
      exact ⟨c0, hlog c0 hc0, h.numbered c0 hc0, hc0origin.related _ hrel, hc0origin.mTime.trans hc1time⟩
  · intro c hc
    rcases List.mem_append.mp hc with hc | hc
    · obtain ⟨c0, hc0, hc0origin⟩ := h.origin c (heq ▸ List.mem_append_left _ hc)
      exact ⟨c0, hlog c0 hc0, hc0origin⟩
    · rcases List.mem_cons.mp hc with rfl | hc
      · exact ⟨_, hnew, rfl, rfl, rfl, fun _ hrel => hrel⟩
      · obtain ⟨c1, hc1, hself, hc1time, hwaits, hrel⟩ := mem_kept hc
        obtain ⟨c0, hc0, hc0origin⟩ := h.origin c1 (hlaterin c1 hc1)
        exact ⟨c0, hlog c0 hc0, hc0origin.self.trans hself.symm, hc0origin.mTime.trans hc1time.symm,
          hc0origin.waits.trans hwaits.symm, fun d hd => hc0origin.related d (hrel d hd)⟩
  · intro c hc
    rw [List.length_append, List.length_singleton]
    rcases List.mem_append.mp hc with hc | hc
    · have hlt := h.numbered c hc
      omega
    · rw [List.mem_singleton.mp hc]
      exact Nat.lt_succ_self _

theorem Inv.execute (h : Inv s) (hstep : AudioPolicy.execute s = some s') : Inv s' := by
  obtain ⟨c, rest, heq, -, rfl⟩ := execute_some hstep
  have hsorted : rest.Pairwise fun c c' => c.mTime ≤ c'.mTime := by
    have hall := h.orderly.sorted
    rw [heq] at hall
    exact hall.of_cons
  refine ⟨⟨hsorted, ?_, sorted_of_prompt hsorted, h.orderly.onTime, ?_, ?_⟩, ?_, h.numbered⟩
  · intro d hd hwait
    obtain ⟨d', hd', hrest⟩ := h.orderly.waited d hd hwait
    refine ⟨d', ?_, hrest⟩
    rw [heq] at hd'
    simpa using hd'
  · intro stream io
    exact (h.orderly.volumes stream io).step (e := .execute) (fun _ _ => survivor_volumeOf stream io) hstep
  · intro io key
    exact (h.orderly.parameters io key).step (e := .execute) (fun _ _ => survivor_parameterOf io key) hstep
  · intro d hd
    exact h.origin d (heq ▸ List.mem_cons_of_mem _ hd)

theorem Inv.step {e : Event} (h : Inv s) (hok : Sound s e) (hstep : step s e = some s') : Inv s' := by
  cases e with
  | tick elapsed =>
    cases hstep
    exact ⟨⟨h.orderly.sorted, h.orderly.waited, h.orderly.prompt, h.orderly.onTime, h.orderly.volumes,
      h.orderly.parameters⟩, h.origin, h.numbered⟩
  | insert data delayMs =>
    cases hstep
    exact h.insert hok
  | execute => exact h.execute hstep

theorem inv_start (clock : ℤ) : Inv (start clock) :=
  ⟨⟨List.Pairwise.nil, nofun, nofun, nofun, fun _ _ => rfl, fun _ _ => rfl⟩, nofun, nofun⟩

/-- While the time taken over is always the next one, the queue is in order. -/
theorem orderly_along {clock : ℤ} {es : List Event} (hok : Machine.Along step Sound (start clock) es)
    (hrun : Machine.run step (start clock) es = some s) : Orderly s :=
  (Machine.run_invariant_along (I := Inv) (fun _ _ _ hok hstep hs => hs.step hok hstep) hok hrun
    (inv_start clock)).orderly

/-- Two volumes of one stream with a voice volume between them, and parameters of two handles. -/
def soundRun : List Event :=
  [.insert (.setVolume 3 0x3f800000#32 1) 200, .insert (.setVoiceVolume 0x3f000000#32) 250,
    .insert (.setVolume 3 0x3f000000#32 1) 100, .insert (.setParameters 1 "routing=2;rate=8".toList) 50,
    .insert (.setParameters 2 "routing=4".toList) 0, .tick 50000000, .execute, .execute]

theorem soundRun_orderly : ∃ s, Machine.run step (start 1) soundRun = some s ∧ Orderly s := by
  have hrun := Option.eq_some_of_isSome (by decide : (Machine.run step (start 1) soundRun).isSome = true)
  exact ⟨_, hrun, orderly_along (by decide) hrun⟩

/-- The new volume takes over the time of the pending one and is put in front of a voice volume that is due
before that. -/
def overtakingRun : List Event :=
  [.insert (.setVolume 3 0x3f800000#32 1) 200, .insert (.setVoiceVolume 0x3f000000#32) 150,
    .insert (.setVolume 3 0x3f000000#32 1) 100]

theorem overtakingRun_disorderly : ¬ ∀ s, Machine.run step (start 1) overtakingRun = some s → Orderly s := by
  intro h
  have hrun := Option.eq_some_of_isSome (by decide : (Machine.run step (start 1) overtakingRun).isSome = true)
  exact absurd (h _ hrun).sorted (by decide)

end AudioFlinger.AudioPolicy
