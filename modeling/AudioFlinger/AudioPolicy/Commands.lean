import AudioFlinger.AudioPolicy.AudioParameter
import AudioFlinger.Foundation.Machine
import Mathlib.Algebra.Order.Ring.Int

/-!
# The audio command queue

`AudioPolicyService::AudioCommandThread` in `libs/audioflinger/AudioPolicyService.cpp`: commands with a
time stamp, inserted by the callers' threads and executed by the command thread from index 0 on.
Times are in nanoseconds; a volume is the bits of its `float`.
-/

namespace AudioFlinger.AudioPolicy

open Foundation

/-- `mCommand` and `mParam`. -/
inductive Data
  | startTone (mType mStream : Nat)
  | stopTone
  | setVolume (mStream : Nat) (mVolume : BitVec 32) ( mIO : Nat)
  | setParameters ( mIO : Nat) (mKeyValuePairs : Text)
  | setVoiceVolume (mVolume : BitVec 32)
  deriving DecidableEq

/-- `self` stands for the address; `asked` is the due time the caller asked for. -/
structure AudioCommand where
  self : Nat
  asked : ℤ
  mTime : ℤ
  mParam : Data
  mWaitStatus : Bool
  deriving DecidableEq

/-- The keys of the new string are filtered out of the pending one. -/
def filterOut (keyValuePairs keyValuePairs2 : Text) : KeyedVector Text Text :=
  (parse keyValuePairs).items.foldl (fun param2 p => param2.removeItem p.1) (parse keyValuePairs2)

/-- What the scan does to a pending command: `none` leaves it, `some none` removes it, `some (some data2)`
rewrites it. -/
def supersede : Data → Data → Option (Option Data)
  | .setParameters mIO pairs, .setParameters mIO2 pairs2 =>
    if mIO ≠ mIO2 then none
    else if (filterOut pairs pairs2).items = [] then some none
    else some (some (.setParameters mIO2 (toString (filterOut pairs pairs2))))
  | .setVolume mStream _ mIO, .setVolume mStream2 _ mIO2 =>
    if mIO ≠ mIO2 then none
    else if mStream ≠ mStream2 then none
    else some none
  | _, _ => none

/-- The scan from the last command down to the first one that is not later than `mTime`: the commands
before it, what is left of the later ones, and the time that is taken over. -/
def scan (mTime : ℤ) (data : Data) : List AudioCommand → List AudioCommand → ℤ →
    List AudioCommand × List AudioCommand × ℤ
  | [], later, time => ([], later, time)
  | command2 :: rest, later, time =>
    if command2.mTime ≤ mTime then ((command2 :: rest).reverse, later, time)
    else
      match supersede data command2.mParam with
      | none => scan mTime data rest (command2 :: later) time
      | some none => scan mTime data rest later command2.mTime
      | some (some data2) => scan mTime data rest ({ command2 with mParam := data2 } :: later) command2.mTime

/-- `clock` is `systemTime()`; `inserted` and `executed` record the commands, oldest first. -/
structure CommandThread where
  clock : ℤ
  mAudioCommands : List AudioCommand
  inserted : List AudioCommand
  executed : List AudioCommand
  deriving DecidableEq

def dueTime (s : CommandThread) (delayMs : ℤ) : ℤ := s.clock + delayMs * 1000000

/-- `insertCommand_l`; the queue gets the new command at the index where the scan stopped. -/
def insertCommand (s : CommandThread) (data : Data) (delayMs : ℤ) : CommandThread :=
  let mTime := dueTime s delayMs
  let (before, later, time) := scan mTime data s.mAudioCommands.reverse [] 0
  let command : AudioCommand :=
    { self := s.inserted.length
      asked := mTime
      mTime := if time ≠ 0 then time else mTime
      mParam := data
      mWaitStatus := delayMs = 0 ∧ time = 0 }
  { s with mAudioCommands := before ++ command :: later, inserted := s.inserted ++ [command] }

/-- One turn of `threadLoop`, when the command at index 0 is due. -/
def execute (s : CommandThread) : Option CommandThread :=
  match s.mAudioCommands with
  | [] => none
  | command :: rest =>
    if command.mTime ≤ s.clock then
      some { s with mAudioCommands := rest, executed := s.executed ++ [command] }
    else none

inductive Event
  | tick (elapsed : Nat)
  | insert (data : Data) (delayMs : ℤ)
  | execute

def step (s : CommandThread) : Event → Option CommandThread
  | .tick elapsed => some { s with clock := s.clock + elapsed }
  | .insert data delayMs => some (insertCommand s data delayMs)
  | .execute => execute s

def start (clock : ℤ) : CommandThread := ⟨clock, [], [], []⟩

/-! ## What a command sets -/

/-- The volume that a command sets for a stream of an output. -/
def volumeOf (stream io : Nat) : Data → Option (BitVec 32)
  | .setVolume mStream mVolume mIO => if mStream = stream ∧ mIO = io then some mVolume else none
  | _ => none

/-- The value that a command sets for a key of an io handle. -/
def parameterOf (io : Nat) (key : Text) : Data → Option Text
  | .setParameters mIO mKeyValuePairs => if mIO = io then (parse mKeyValuePairs).valueFor key else none
  | _ => none

/-- The values that the commands set, in their order. -/
def values {β : Type*} (f : Data → Option β) (l : List AudioCommand) : List β :=
  l.filterMap fun c => f c.mParam

/-- Both commands set the volume of one stream of an output, or one key of an io handle. -/
def related : Data → Data → Bool
  | .setParameters mIO pairs, .setParameters mIO2 pairs2 =>
    mIO = mIO2 && (parse pairs).items.any fun p => ((parse pairs2).valueFor p.1).isSome
  | .setVolume mStream _ mIO, .setVolume mStream2 _ mIO2 => mStream = mStream2 && mIO = mIO2
  | _, _ => false

/-- What is left of a pending command. -/
def survivor (data data2 : Data) : Option Data := (supersede data data2).getD (some data2)

variable {data data2 : Data}

theorem valueFor_filterOut (pairs pairs2 key : Text) :
    (filterOut pairs pairs2).valueFor key =
      if ((parse pairs).valueFor key).isSome then none else (parse pairs2).valueFor key := by
  have hfold : ∀ (ps : List (Text × Text)) (v : KeyedVector Text Text),
      (ps.foldl (fun w p => w.removeItem p.1) v).valueFor key =
        if ∃ p ∈ ps, p.1 = key then none else v.valueFor key := by
    intro ps
    induction ps with
    | nil => simp
    | cons p ps ih =>
      intro v
      rw [List.foldl_cons, ih, KeyedVector.valueFor_removeItem]
      by_cases hp : p.1 = key
      · simp only [hp, if_true, ite_self, List.exists_mem_cons_iff, true_or]
      · simp only [hp, Ne.symm hp, if_false, List.exists_mem_cons_iff, false_or]
  rw [filterOut, hfold]
  refine if_congr ?_ rfl rfl
  rw [Option.isSome_iff_exists]
  constructor
  · rintro ⟨p, hp, rfl⟩
    exact ⟨p.2, KeyedVector.mem_items.mp hp⟩
  · rintro ⟨x, hx⟩
    exact ⟨(key, x), KeyedVector.mem_items.mpr hx, rfl⟩

theorem clean_filterOut (pairs pairs2 : Text) : Clean (filterOut pairs pairs2) := by
  have hfold : ∀ (ps : List (Text × Text)) (v : KeyedVector Text Text), Clean v →
      Clean (ps.foldl (fun w p => w.removeItem p.1) v) := by
    intro ps
    induction ps with
    | nil => exact fun _ h => h
    | cons p ps ih => exact fun v h => ih _ (h.removeItem p.1)
  exact hfold _ _ (clean_parse pairs2)

/-- A new volume takes away the pending one of its stream and nothing else. -/
theorem survivor_volumeOf (stream io : Nat) :
    (survivor data data2).bind (volumeOf stream io) =
      if (volumeOf stream io data).isSome then none else volumeOf stream io data2 := by
  cases data with
  | setVolume mStream v mIO =>
    cases data2 with
    | setVolume mStream2 v2 mIO2 =>
      simp only [survivor, supersede, volumeOf]
      grind [volumeOf]
    | _ => simp [survivor, supersede, volumeOf]
  | setParameters mIO pairs =>
    cases data2 with
    | setParameters mIO2 pairs2 =>
      simp only [survivor, supersede, volumeOf]
      grind [volumeOf]
    | _ => simp [survivor, supersede, volumeOf]
  | _ => cases data2 <;> simp [survivor, supersede, volumeOf]

theorem parse_filterOut (pairs pairs2 : Text) :
    parse (toString (filterOut pairs pairs2)) = filterOut pairs pairs2 :=
  parse_toString (clean_filterOut pairs pairs2)

/-- What is printed is read back, and what is read prints again; of the segments that are not empty
the last one with a key counts. A key that is neither added nor removed keeps its value, also where
a new command rewrites a pending one. -/
theorem audioParameter_round_trips :
    (∀ v, Clean v → parse (toString v) = v ∧ ∀ k k', k' ≠ k →
      (parse (toString (v.removeItem k))).valueFor k' = v.valueFor k' ∧
      ∀ x, ';' ∉ k ∧ '=' ∉ k → ';' ∉ x →
        (parse (toString (v.add k x))).valueFor k' = v.valueFor k') ∧
    (∀ s, parse (toString (parse s)) = parse s ∧ ∀ k, (parse s).valueFor k =
      ((s.splitOn ';').reverse.find? fun t => t ≠ [] ∧ (splitPair t).1 = k).map
        fun t => (splitPair t).2) ∧
    ∀ pairs pairs2 k, (parse (toString (filterOut pairs pairs2))).valueFor k =
      if ((parse pairs).valueFor k).isSome then none else (parse pairs2).valueFor k := by
  refine ⟨fun v hv => ?_, fun s => ?_, fun pairs pairs2 k => ?_⟩
  · refine ⟨parse_toString hv, fun k k' hk => ⟨?_, fun x hkey hx => ?_⟩⟩
    · rw [parse_toString (hv.removeItem k), KeyedVector.valueFor_removeItem_of_ne hk]
    · rw [parse_toString (hv.add hkey hx), KeyedVector.valueFor_add_of_ne hk]
  · refine ⟨parse_toString (clean_parse s), fun k => ?_⟩
    rw [parse, ofPairs, valueFor_foldl, KeyedVector.valueFor_empty, Option.or_none,
      ← List.map_reverse, List.find?_map, Option.map_map, tokens, ← List.filter_reverse,
      List.find?_filter]
    simp [Function.comp_def]
  · rw [parse_filterOut, valueFor_filterOut]

/-- New parameters take away the pending values of their keys and nothing else. -/
theorem survivor_parameterOf (io : Nat) (key : Text) :
    (survivor data data2).bind (parameterOf io key) =
      if (parameterOf io key data).isSome then none else parameterOf io key data2 := by
  cases data with
  | setParameters mIO pairs =>
    cases data2 with
    | setParameters mIO2 pairs2 =>
      have hval := valueFor_filterOut pairs pairs2 key
      by_cases hio : mIO = mIO2
      · subst hio
        have hpair : ∀ ps, parameterOf io key (.setParameters mIO ps) =
            if mIO = io then (parse ps).valueFor key else none := fun _ => rfl
        by_cases hmine : mIO = io
        · rw [survivor, supersede, if_neg (not_not.mpr rfl), hpair, hpair, if_pos hmine, if_pos hmine, ← hval]
          by_cases hempty : (filterOut pairs pairs2).items = []
          · rw [if_pos hempty, KeyedVector.items_eq_nil_iff.mp hempty]
            rfl
          · rw [if_neg hempty, Option.getD_some, Option.bind_some, hpair, if_pos hmine, parse_filterOut]
        · rw [survivor, supersede, if_neg (not_not.mpr rfl), hpair, hpair, if_neg hmine, if_neg hmine]
          by_cases hempty : (filterOut pairs pairs2).items = []
          · rw [if_pos hempty]
            rfl
          · rw [if_neg hempty, Option.getD_some, Option.bind_some, hpair, if_neg hmine]
            rfl
      · rw [survivor, supersede, if_pos hio]
        simp only [parameterOf, Option.getD_none, Option.bind_some]
        by_cases hmine : mIO2 = io
        · have hother : mIO ≠ io := fun h => hio (h.trans hmine.symm)
          simp [hother]
        · simp [hmine]
    | _ => exact (ite_self _).symm
  | setVolume mStream v mIO =>
    cases data2 with
    | setVolume mStream2 v2 mIO2 =>
      simp only [survivor, supersede, parameterOf]
      grind [parameterOf]
    | _ => simp [survivor, supersede, parameterOf]
  | _ => cases data2 <;> simp [survivor, supersede, parameterOf]

end AudioFlinger.AudioPolicy
