import AudioFlinger.StrParms.Ownership

/-!
# Runs of calls

A run in which no new key is added under `ENOMEM` never reads or frees a string that is gone. Its
answers are those of a dictionary, and the heap has the strings of the table and no others of
the object. Under a stale `ENOMEM` the strings of a new key are freed while the table keeps them.
-/

namespace AudioFlinger.StrParms

open Foundation SharedHeap

/-- What a call answers, and what it makes of the dictionary. -/
inductive Answers (p : Platform) : Option Dict → Op → Out → Option Dict → Prop
  | create_str (string : Str) : Answers p none (.create_str string) .done (some (Dict.parse string))
  | add_str (d : Dict) (errno : BitVec 32) (key value : Str) :
      Answers p (some d) (.add_str errno key value) (.code 0#32) (some (d.insert key value))
  | add_int (d : Dict) (errno : BitVec 32) (key : Str) (value : BitVec 32) :
      Answers p (some d) (.add_int errno key value) (.code 0#32) (some (d.insert key (decimal value)))
  | get_str {d : Dict} {key value : Str} (len : BitVec 32) (h : d key = some value) :
      Answers p (some d) (.get_str key len) (.string (p.copy value len).1 (p.copy value len).2) (some d)
  | get_str_none {d : Dict} {key : Str} (len : BitVec 32) (h : d key = none) :
      Answers p (some d) (.get_str key len) (.string (-ENOENT) none) (some d)
  | get_int {d : Dict} {key value : Str} (h : d key = some value) :
      Answers p (some d) (.get_int key) (.number (p.number value).1 (p.number value).2) (some d)
  | get_int_none {d : Dict} {key : Str} (h : d key = none) :
      Answers p (some d) (.get_int key) (.number (-ENOENT) none) (some d)
  | del (d : Dict) (key : Str) : Answers p (some d) (.del (some key)) .done (some (d.erase key))
  | delAll (d : Dict) : Answers p (some d) (.del none) .done (some Dict.empty)
  | to_str {d : Dict} {pairs : List (Str × Str)} (h : d.Lists pairs) :
      Answers p (some d) .to_str (.text (Dict.spell pairs)) (some d)
  | destroy (d : Dict) : Answers p (some d) .destroy .done none

/-- The calls and their answers lead to the dictionary, if there is an object. -/
inductive Conforms (p : Platform) : List (Op × Out) → Option Dict → Prop
  | nil : Conforms p [] none
  | snoc {log : List (Op × Out)} {d d' : Option Dict} {op : Op} {out : Out} (h : Conforms p log d)
      (hanswer : Answers p d op out d') : Conforms p (log ++ [(op, out)]) d'

namespace World

variable {p : Platform} {base : Multiset ℕ} {w : World} {d : Option Dict} {op : Op}

/-- The heap has the strings of the table, those that were handed out and those of `base`. -/
def Sound (p : Platform) (base : Multiset ℕ) (w : World) : Option Dict → Prop
  | none => w.map = none ∧ Owned w.heap (↑w.texts + base)
  | some d => ∃ map, w.map = some map ∧ Keeps p (↑w.texts + base) ⟨w.heap, map⟩ d

/-- A call on an object. -/
theorem call_sound {map : Hashmap} {d : Dict} (hmap : w.map = some map)
    (hs : Keeps p (↑w.texts + base) ⟨w.heap, map⟩ d) (hok : w.Allowed p op) :
    ∃ out w' d', w.call p ⟨w.heap, map⟩ op = some (out, w') ∧ Sound p base w' d' ∧
      Answers p (some d) op out d' ∧ Agree (↑w.texts + base) w.heap w'.heap ∧ w'.log = w.log := by
  unfold Allowed at hok
  rw [hmap] at hok
  cases op with
  | create_str string => exact hok.elim
  | add_str errno key value =>
    simp only [present_iff hs] at hok
    obtain ⟨s', hcall, hkeeps, hagree⟩ := str_parms_add_str_spec hs key value hok
    exact ⟨.code 0#32, w.put s', some (d.insert key value), by rw [call, hcall]; rfl, ⟨s'.map, rfl, hkeeps⟩,
      .add_str .., hagree, rfl⟩
  | add_int errno key value =>
    simp only [present_iff hs] at hok
    obtain ⟨s', hcall, hkeeps, hagree⟩ := str_parms_add_str_spec hs key (decimal value) hok
    refine ⟨.code 0#32, w.put s', some (d.insert key (decimal value)), ?_, ⟨s'.map, rfl, hkeeps⟩, .add_int .., hagree, rfl⟩
    rw [call, Platform.str_parms_add_int, snprintf_decimal, hcall]
    rfl
  | get_str key len =>
    have hget := str_parms_get_str_spec hs key len
    rw [call, hget]
    cases hd : d key with
    | none => exact ⟨_, w, some d, rfl, ⟨map, hmap, hs⟩, .get_str_none len hd, .refl _ _, rfl⟩
    | some value => exact ⟨_, w, some d, rfl, ⟨map, hmap, hs⟩, .get_str len hd, .refl _ _, rfl⟩
  | get_int key =>
    have hget := str_parms_get_int_spec hs key
    rw [call, hget]
    cases hd : d key with
    | none => exact ⟨_, w, some d, rfl, ⟨map, hmap, hs⟩, .get_int_none hd, .refl _ _, rfl⟩
    | some value => exact ⟨_, w, some d, rfl, ⟨map, hmap, hs⟩, .get_int hd, .refl _ _, rfl⟩
  | del key =>
    obtain ⟨s', hcall, hkeeps, hagree⟩ := str_parms_del_spec hs key
    refine ⟨.done, w.put s', some (key.elim Dict.empty d.erase), by rw [call, hcall]; rfl, ⟨s'.map, rfl, hkeeps⟩, ?_, hagree, rfl⟩
    cases key with
    | none => exact .delAll d
    | some key => exact .del d key
  | to_str =>
    obtain ⟨str, h', pairs, hcall, hload, hlists, hkeeps, hagree⟩ := str_parms_to_str_spec hs
    refine ⟨.text (Dict.spell pairs), { w with
        heap := h'
        texts := str :: w.texts }, some d, ?_, ⟨map, hmap, ?_⟩, .to_str hlists, hagree, rfl⟩
    · simp only [call, hcall, hload, Option.bind_eq_bind, Option.bind_some]
      rfl
    · rw [← Multiset.cons_add, Multiset.cons_coe] at hkeeps
      exact hkeeps
  | destroy =>
    obtain ⟨h', hcall, hown, hagree⟩ := str_parms_destroy_spec hs
    exact ⟨.done, { w with
        heap := h'
        map := none }, none, by rw [call, hcall]; rfl, ⟨rfl, hown⟩, .destroy d, hagree, rfl⟩

theorem step_sound (hs : Sound p base w d) (hok : w.Allowed p op) :
    ∃ w' out d', step p w op = some w' ∧ Sound p base w' d' ∧ Answers p d op out d' ∧
      Agree base w.heap w'.heap ∧ w'.log = w.log ++ [(op, out)] := by
  cases d with
  | some d =>
    obtain ⟨map, hmap, hkeeps⟩ := hs
    obtain ⟨out, w', d', hcall, hsound, hanswer, hagree, hlog⟩ := call_sound hmap hkeeps hok
    refine ⟨w'.answer op out, out, d', ?_, ?_, hanswer, hagree.mono (Multiset.le_add_left _ _), ?_⟩
    · unfold step
      rw [hmap]
      simp only [hcall]
      rfl
    · cases d' <;> exact hsound
    · rw [← hlog]
      rfl
  | none =>
    obtain ⟨hmap, hown⟩ := hs
    unfold Allowed at hok
    rw [hmap] at hok
    cases op with
    | create_str string =>
      obtain ⟨s, hcreate, hkeeps, hagree⟩ := str_parms_create_str_spec (p := p) hown string
      refine ⟨(w.put s).answer (.create_str string) .done, .done, some (Dict.parse string), ?_,
        ⟨s.map, rfl, hkeeps⟩, .create_str string, hagree.mono (Multiset.le_add_left _ _), rfl⟩
      unfold step
      rw [hmap]
      simp only [hcreate]
      rfl
    | _ => exact hok.elim

/-- The log has the calls of the run. -/
theorem call_log {s : Store} {out : Out} {w' : World} (h : w.call p s op = some (out, w')) : w'.log = w.log := by
  cases op with
  | create_str => cases h
  | to_str =>
    simp only [call, Option.bind_eq_bind, Option.bind_eq_some_iff] at h
    obtain ⟨r, -, text, -, h⟩ := h
    cases h
    rfl
  | _ =>
    simp only [call, Option.map_eq_some_iff] at h
    obtain ⟨r, -, h⟩ := h
    cases h
    rfl

theorem step_log {w' : World} (h : step p w op = some w') : w'.log.map Prod.fst = w.log.map Prod.fst ++ [op] := by
  unfold step at h
  split at h
  · split at h
    · obtain ⟨s, -, rfl⟩ := Option.map_eq_some_iff.mp h
      exact List.map_append
    · cases h
  · obtain ⟨⟨out, w₁⟩, hcall, rfl⟩ := Option.map_eq_some_iff.mp h
    rw [← call_log hcall]
    exact List.map_append

theorem run_log {ops : List Op} {w w' : World} (h : Machine.run (step p) w ops = some w') :
    w'.log.map Prod.fst = w.log.map Prod.fst ++ ops := by
  induction ops generalizing w with
  | nil =>
    cases h
    exact (List.append_nil _).symm
  | cons op ops ih =>
    obtain ⟨m, hm, hrest⟩ := Machine.run_cons_some.mp h
    rw [ih hrest, step_log hm, List.append_assoc]
    rfl

/-- A run that adds no new key under `ENOMEM` goes through without a fault and answers as a
dictionary does; the strings of the heap are those of the table, those that were handed out
and those that were there before, each once. A number that was added is read again, and the text
of plain pairs is parsed into the same pairs. -/
theorem str_parms_conforms (p : Platform) {h : Heap Str} {base : Multiset ℕ} (hown : Owned h base)
    {ops : List Op} (hok : Machine.Along (step p) (Allowed p) (new h) ops) :
    (∃ w d, Machine.run (step p) (new h) ops = some w ∧ Conforms p w.log d ∧ w.log.map Prod.fst = ops ∧
      Sound p base w d ∧ Agree base h w.heap) ∧
    (∀ value, p.number (decimal value) = (0#32, value)) ∧
    ∀ d : Dict, d.Plain → ∀ pairs, d.Lists pairs → Dict.parse (Dict.spell pairs) = d := by
  refine ⟨?_, number_decimal p, fun d hplain pairs hlists => Dict.parse_spell hplain hlists⟩
  have hstep : ∀ w op, w.Allowed p op →
      (∃ d, Conforms p w.log d ∧ Sound p base w d ∧ Agree base h w.heap) →
      ∃ w', step p w op = some w' ∧ ∃ d, Conforms p w'.log d ∧ Sound p base w' d ∧ Agree base h w'.heap := by
    rintro w op hok ⟨d, hconforms, hsound, hagree⟩
    obtain ⟨w', out, d', hw', hsound', hanswer, hagree', hlog⟩ := step_sound hsound hok
    refine ⟨w', hw', d', ?_, hsound', hagree.trans hagree'⟩
    rw [hlog]
    exact hconforms.snoc hanswer
  have hstart : Sound p base (new h) none := by
    refine ⟨rfl, ?_⟩
    rw [new, Multiset.coe_nil, zero_add]
    exact hown
  obtain ⟨w, hrun, d, hconforms, hsound, hagree⟩ := hok.exists_run hstep ⟨none, .nil, hstart, .refl _ _⟩
  exact ⟨w, d, hrun, hconforms, (run_log hrun).trans (List.nil_append ops), hsound, hagree⟩

def arm : Platform := ⟨false, 32, .refl⟩

/-- A text with one pair; another is added, the first goes, and the other gets a new value although
`errno` is `ENOMEM`. -/
def session : List Op :=
  [.create_str [plusSign, equalsSign, minusSign], .add_int 0#32 [zero] 7#32, .del (some [plusSign]),
    .add_str ENOMEM [zero] [plusSign], .get_str [zero] 4#32, .to_str, .destroy]

theorem str_parms_conforms_session :
    (∃ w d, Machine.run (step arm) (new Heap.empty) session = some w ∧ Conforms arm w.log d ∧
      w.log.map Prod.fst = session ∧ Sound arm 0 w d ∧ Agree 0 Heap.empty w.heap) ∧
    (∀ value, arm.number (decimal value) = (0#32, value)) ∧
    ∀ d : Dict, d.Plain → ∀ pairs, d.Lists pairs → Dict.parse (Dict.spell pairs) = d :=
  @str_parms_conforms arm _ _ owned_empty session (by decide +kernel)

/-- A key that is new under a stale `ENOMEM`: the call reports a failure, the table has the entry, and
the next lookup of the key and `str_parms_destroy` use strings that were freed. -/
theorem str_parms_add_str_dangles :
    let stale : List Op := [.create_str [], .add_str ENOMEM [zero] [plusSign]]
    (Machine.run (step arm) (new Heap.empty) stale).map (fun w => (w.map.map Hashmap.size, w.log.map Prod.snd)) =
        some (some 1, [.done, .code (-ENOMEM)]) ∧
      Machine.run (step arm) (new Heap.empty) (stale ++ [.get_str [zero] 4#32]) = none ∧
      Machine.run (step arm) (new Heap.empty) (stale ++ [.destroy]) = none := by
  simp only [← Option.isNone_iff_eq_none]
  decide +kernel

end World

end AudioFlinger.StrParms
