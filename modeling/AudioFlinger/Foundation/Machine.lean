import Mathlib.Data.List.Basic
import Mathlib.Data.Nat.Notation
import Mathlib.Data.Option.Basic
import Mathlib.Logic.Relation

/-!
# Machines and loops
-/

/-!
## Labelled machines and their runs

A machine is a partial step function: `step s e = none` means that the event
`e` is not enabled in `s`. A run folds a list of events. What one step preserves,
a run preserves; `Along` restricts the rule to runs whose steps meet a side
condition.
-/

namespace AudioFlinger.Foundation.Machine

variable {σ ε : Type*}

/-- Fold a list of events; the run fails at the first event that is not enabled. -/
def run (step : σ → ε → Option σ) : σ → List ε → Option σ
  | s, [] => some s
  | s, e :: es => (step s e).bind fun s' => run step s' es

variable {step : σ → ε → Option σ}

@[simp] theorem run_nil (s : σ) : run step s [] = some s := rfl

theorem run_cons (s : σ) (e : ε) (es : List ε) :
    run step s (e :: es) = (step s e).bind fun s' => run step s' es := rfl

theorem run_cons_some {s s' : σ} {e : ε} {es : List ε} :
    run step s (e :: es) = some s' ↔ ∃ m, step s e = some m ∧ run step m es = some s' := by
  rw [run_cons, Option.bind_eq_some_iff]

theorem run_append (s : σ) (es es' : List ε) :
    run step s (es ++ es') = (run step s es).bind fun s' => run step s' es' := by
  induction es generalizing s with
  | nil => rfl
  | cons e es ih =>
    rw [List.cons_append, run_cons, run_cons, Option.bind_assoc]
    simp only [ih]

/-- Every step of the run meets `ok` in the state it is taken from. -/
def Along (step : σ → ε → Option σ) (ok : σ → ε → Prop) : σ → List ε → Prop
  | _, [] => True
  | s, e :: es => ok s e ∧ ∀ s' ∈ step s e, Along step ok s' es

instance decidableAlong (ok : σ → ε → Prop) [∀ s e, Decidable (ok s e)] :
    ∀ s es, Decidable (Along step ok s es)
  | _, [] => isTrue trivial
  | s, e :: es =>
    have : ∀ s', Decidable (Along step ok s' es) := fun s' => decidableAlong ok s' es
    inferInstanceAs (Decidable (ok s e ∧ ∀ s' ∈ step s e, Along step ok s' es))

theorem Along.imp {ok ok' : σ → ε → Prop} (himp : ∀ s e, ok s e → ok' s e) {s : σ} {es : List ε}
    (h : Along step ok s es) : Along step ok' s es := by
  induction es generalizing s with
  | nil => trivial
  | cons e es ih => exact ⟨himp s e h.1, fun s' hs' => ih (h.2 s' hs')⟩

/-- Invariant rule, for steps that meet a side condition. -/
theorem run_invariant_along {ok : σ → ε → Prop} {I : σ → Prop}
    (hstep : ∀ s e s', ok s e → step s e = some s' → I s → I s')
    {s s' : σ} {es : List ε} (hok : Along step ok s es) (hrun : run step s es = some s')
    (hs : I s) : I s' := by
  induction es generalizing s with
  | nil =>
    cases hrun
    exact hs
  | cons e es ih =>
    obtain ⟨m, hm, hrest⟩ := run_cons_some.mp hrun
    exact ih (hok.2 m hm) hrest (hstep s e m hok.1 hm hs)

/-- Where every event that meets the side condition is enabled and keeps `I`, the run succeeds. -/
theorem Along.exists_run {ok : σ → ε → Prop} {I : σ → Prop}
    (hstep : ∀ s e, ok s e → I s → ∃ s', step s e = some s' ∧ I s') {s : σ} {es : List ε}
    (hok : Along step ok s es) (hs : I s) : ∃ s', run step s es = some s' ∧ I s' := by
  induction es generalizing s with
  | nil => exact ⟨s, rfl, hs⟩
  | cons e es ih =>
    obtain ⟨m, hm, hI⟩ := hstep s e hok.1 hs
    obtain ⟨s', hrun, hI'⟩ := ih (hok.2 m hm) hI
    exact ⟨s', run_cons_some.mpr ⟨m, hm, hrun⟩, hI'⟩

/-- A side condition that implies another wherever the invariant `I` holds, and keeps it, implies
it along every run. -/
theorem Along.imp_invariant {ok ok' : σ → ε → Prop} {I : σ → Prop}
    (himp : ∀ s e, I s → ok s e → ok' s e)
    (hstep : ∀ s e s', ok s e → step s e = some s' → I s → I s') {s : σ} {es : List ε} (hs : I s)
    (h : Along step ok s es) : Along step ok' s es := by
  induction es generalizing s with
  | nil => trivial
  | cons e es ih =>
    exact ⟨himp s e hs h.1, fun s' hs' => ih (hstep s e s' h.1 hs' hs) (h.2 s' hs')⟩

/-- Two side conditions that agree wherever the invariant `I` holds, and keep it, agree along
every run. -/
theorem along_iff {ok ok' : σ → ε → Prop} {I : σ → Prop} (hagree : ∀ s e, I s → (ok s e ↔ ok' s e))
    (hstep : ∀ s e s', ok s e → step s e = some s' → I s → I s') {s : σ} (hs : I s) (es : List ε) :
    Along step ok s es ↔ Along step ok' s es := by
  induction es generalizing s with
  | nil => rfl
  | cons e es ih =>
    refine (and_congr_right fun hok => ?_).trans (and_congr_left' (hagree s e hs))
    exact forall₂_congr fun s' hs' => ih (hstep s e s' hok hs' hs)

/-- Invariant rule: what one step preserves, a run preserves. -/
theorem run_invariant {I : σ → Prop} (hstep : ∀ s e s', step s e = some s' → I s → I s')
    {s s' : σ} {es : List ε} (hrun : run step s es = some s') (hs : I s) : I s' := by
  induction es generalizing s with
  | nil =>
    cases hrun
    exact hs
  | cons e es ih =>
    obtain ⟨m, hm, hrest⟩ := run_cons_some.mp hrun
    exact ih hrest (hstep s e m hm hs)

/-- A property that the side condition keeps, that a step without it breaks, and that stays broken,
holds at the end of exactly the runs whose steps meet the side condition. -/
theorem run_iff_along {ok : σ → ε → Prop} {I P : σ → Prop} (hgood : ∀ s, I s → P s)
    (hstep : ∀ s e s', ok s e → step s e = some s' → I s → I s')
    (hbad : ∀ s e s', ¬ ok s e → step s e = some s' → I s → ¬ P s')
    (hlost : ∀ s e s', step s e = some s' → ¬ P s → ¬ P s')
    {s s' : σ} {es : List ε} (hrun : run step s es = some s') (hs : I s) :
    P s' ↔ Along step ok s es := by
  constructor
  · intro hP
    induction es generalizing s with
    | nil => trivial
    | cons e es ih =>
      obtain ⟨m, hm, hrest⟩ := run_cons_some.mp hrun
      have hok : ok s e := by
        by_contra hnot
        exact run_invariant hlost hrest (hbad s e m hnot hm hs) hP
      refine ⟨hok, fun m' hm' => ?_⟩
      obtain rfl : m = m' := Option.some.inj (hm.symm.trans hm')
      exact ih hrest (hstep s e m hok hm hs)
  · intro halong
    exact hgood s' (run_invariant_along hstep halong hrun hs)

end AudioFlinger.Foundation.Machine

/-!
## Loops with a variant

A loop repeats a round until there is a result. A round can fail, and the fuel can run out. An
invariant that every round keeps and a number that every round lowers give the result; `Visits` are
the states that the rounds are taken from, so that a round can have a side condition.
-/

namespace AudioFlinger.Foundation.Rounds

variable {ε σ α : Type*}

/-- At most `fuel` rounds, with `late` as the failure of a loop that is not done then. -/
def loop (round : σ → Except ε (σ ⊕ α)) (late : ε) : ℕ → σ → Except ε α
  | 0, _ => .error late
  | fuel + 1, s => match round s with
    | .error e => .error e
    | .ok (.inr a) => .ok a
    | .ok (.inl s') => loop round late fuel s'

/-- The loop comes from `s` to a round at `s'`. -/
def Visits (round : σ → Except ε (σ ⊕ α)) : σ → σ → Prop :=
  Relation.ReflTransGen fun s s' => round s = .ok (.inl s')

variable {round : σ → Except ε (σ ⊕ α)} {late : ε}

theorem visits_refl (s : σ) : Visits round s s := .refl

theorem Visits.of_round {s s' t : σ} (h : round s = .ok (.inl s')) (hv : Visits round s' t) :
    Visits round s t :=
  .head h hv

/-- Total correctness: induction on the fuel, which is more than the variant. -/
theorem loop_ok {Inv Cond : σ → Prop} {Post : α → Prop} (variant : σ → ℕ)
    (hround : ∀ s, Inv s → Cond s →
      (∃ s', round s = .ok (.inl s') ∧ Inv s' ∧ variant s' < variant s) ∨
        ∃ a, round s = .ok (.inr a) ∧ Post a)
    {s : σ} (hs : Inv s) (hcond : ∀ t, Visits round s t → Cond t) {fuel : ℕ}
    (hfuel : variant s < fuel) : ∃ a, loop round late fuel s = .ok a ∧ Post a := by
  induction fuel generalizing s with
  | zero => exact absurd hfuel (Nat.not_lt_zero _)
  | succ fuel ih =>
    obtain ⟨s', hs', hInv, hlt⟩ | ⟨a, ha, hPost⟩ := hround s hs (hcond s (visits_refl s))
    · obtain ⟨a, ha, hPost⟩ := ih hInv (fun t ht => hcond t (ht.of_round hs'))
        (Nat.lt_of_lt_of_le hlt (Nat.le_of_lt_succ hfuel))
      exact ⟨a, by rw [loop, hs', ← ha], hPost⟩
    · exact ⟨a, by rw [loop, ha], hPost⟩

/-- A loop of which every round goes on is late with any fuel. -/
theorem loop_late {Inv : σ → Prop} (hround : ∀ s, Inv s → ∃ s', round s = .ok (.inl s') ∧ Inv s')
    {s : σ} (hs : Inv s) (fuel : ℕ) : loop round late fuel s = .error late := by
  induction fuel generalizing s with
  | zero => rfl
  | succ fuel ih =>
    obtain ⟨s', hs', hInv⟩ := hround s hs
    rw [loop, hs']
    exact ih hInv

end AudioFlinger.Foundation.Rounds
