import Mathlib.Data.List.Nodup
import Mathlib.Data.List.Perm.Subperm

/-!
# Deferred reference counts

Threads write increments and decrements of counts into buffers of their own, and what they wrote is processed in
an order that keeps only that of each thread. A reference `r : ρ` is taken and given up once. Whatever the order,
all counts are right in the end; on the way no count is below zero as long as no decrement overtakes its
increment, which waits in the buffer of another thread.
-/

namespace AudioFlinger.Foundation.Deferred

variable {θ ρ : Type*}

inductive Change (ρ : Type*)
  | inc (r : ρ)
  | dec (r : ρ)
  deriving DecidableEq

def Change.incOf : Change ρ → Option ρ
  | .inc r => some r
  | .dec _ => none

def Change.decOf : Change ρ → Option ρ
  | .inc _ => none
  | .dec r => some r

def incs (l : List (Change ρ)) : List ρ := l.filterMap Change.incOf

def decs (l : List (Change ρ)) : List ρ := l.filterMap Change.decOf

@[simp] theorem mem_incs {l : List (Change ρ)} {r : ρ} : r ∈ incs l ↔ .inc r ∈ l := by
  rw [incs, List.mem_filterMap]
  constructor
  · rintro ⟨c | c, hmem, hc⟩ <;> cases hc
    exact hmem
  · exact fun hmem => ⟨_, hmem, rfl⟩

@[simp] theorem mem_decs {l : List (Change ρ)} {r : ρ} : r ∈ decs l ↔ .dec r ∈ l := by
  rw [decs, List.mem_filterMap]
  constructor
  · rintro ⟨c | c, hmem, hc⟩ <;> cases hc
    exact hmem
  · exact fun hmem => ⟨_, hmem, rfl⟩

@[simp] theorem incs_append (l l' : List (Change ρ)) : incs (l ++ l') = incs l ++ incs l' := List.filterMap_append

@[simp] theorem decs_append (l l' : List (Change ρ)) : decs (l ++ l') = decs l ++ decs l' := List.filterMap_append

/-- `pending` are the buffers of all threads, in the order of the writes; `done` is what has been processed. -/
structure Books (θ ρ : Type*) where
  pending : List (θ × Change ρ)
  done : List (Change ρ)
  deriving DecidableEq

namespace Books

def all (b : Books θ ρ) : List (Change ρ) := b.done ++ b.pending.map Prod.snd

def write (b : Books θ ρ) (t : θ) (c : Change ρ) : Books θ ρ := { b with pending := b.pending ++ [(t, c)] }

theorem all_write (b : Books θ ρ) (t : θ) (c : Change ρ) : (b.write t c).all = b.all ++ [c] := by
  simp [all, write]

/-- What `holds` is taken and not given up. -/
structure Balanced (b : Books θ ρ) (holds : ρ → Prop) : Prop where
  incs_nodup : (incs b.all).Nodup
  decs_nodup : (decs b.all).Nodup
  taken : ∀ r, .dec r ∈ b.all → .inc r ∈ b.all
  held : ∀ r, holds r ↔ .inc r ∈ b.all ∧ .dec r ∉ b.all
  order : b.pending.Pairwise fun x y => ∀ r, x.2 = .dec r → y.2 ≠ .inc r

/-- No decrement was processed before its increment. -/
def Timely (b : Books θ ρ) : Prop := ∀ r, .dec r ∈ b.done → .inc r ∈ b.done

variable {b b' : Books θ ρ} {holds : ρ → Prop} {t : θ} {r : ρ}

theorem Balanced.congr {holds' : ρ → Prop} (h : b.Balanced holds) (hiff : ∀ r, holds' r ↔ holds r) :
    b.Balanced holds' :=
  { h with held := fun r => (hiff r).trans (h.held r) }

theorem Balanced.inc (h : b.Balanced holds) (hnew : .inc r ∉ b.all) :
    (b.write t (.inc r)).Balanced fun r' => holds r' ∨ r' = r where
  incs_nodup := by
    rw [all_write, incs_append]
    exact h.incs_nodup.append (List.nodup_singleton r) (List.disjoint_singleton.mpr (mt mem_incs.mp hnew))
  decs_nodup := by
    rw [all_write, decs_append]
    exact (List.append_nil (decs b.all)).symm ▸ h.decs_nodup
  taken r' hdec := by
    have htaken := h.taken r'
    simp_all [all_write]
  held r' := by
    have hkeep := h.held r'
    have htaken := h.taken r'
    by_cases hr : r' = r
    · subst hr
      simpa [all_write] using fun hdec => hnew (htaken hdec)
    · simpa [all_write, hr] using hkeep
  order := by
    have hnot : ∀ x ∈ b.pending, ∀ r', x.2 = .dec r' → r' ≠ r := by
      rintro ⟨u, c⟩ hx r' rfl rfl
      exact hnew (h.taken _ (List.mem_append_right _ (List.mem_map.mpr ⟨_, hx, rfl⟩)))
    refine List.pairwise_append.mpr ⟨h.order, List.pairwise_singleton _ _, ?_⟩
    simpa using fun u c hx r' hdec hinc => hnot _ hx r' hdec hinc.symm

theorem Balanced.dec (h : b.Balanced holds) (hheld : holds r) :
    (b.write t (.dec r)).Balanced fun r' => holds r' ∧ r' ≠ r where
  incs_nodup := by
    rw [all_write, incs_append]
    exact (List.append_nil (incs b.all)).symm ▸ h.incs_nodup
  decs_nodup := by
    rw [all_write, decs_append]
    exact h.decs_nodup.append (List.nodup_singleton r)
      (List.disjoint_singleton.mpr (mt mem_decs.mp ((h.held r).mp hheld).2))
  taken r' hdec := by
    have htaken := h.taken r'
    have hinc := ((h.held r).mp hheld).1
    simp only [all_write, List.mem_append, List.mem_singleton, Change.dec.injEq, reduceCtorEq, or_false] at hdec ⊢
    obtain hdec | rfl := hdec
    · exact htaken hdec
    · exact hinc
  held r' := by
    simp [all_write, h.held r', and_assoc]
  order := by
    refine List.pairwise_append.mpr ⟨h.order, List.pairwise_singleton _ _, ?_⟩
    simp

/-- The first change in the buffer of `t`. -/
def next [DecidableEq θ] (b : Books θ ρ) (t : θ) : Option (Change ρ) :=
  (b.pending.find? (·.1 = t)).map Prod.snd

def process [DecidableEq θ] [DecidableEq ρ] (b : Books θ ρ) (t : θ) : Option (Books θ ρ) :=
  (b.next t).map fun c => { pending := b.pending.erase (t, c), done := b.done ++ [c] }

section Process

variable [DecidableEq θ] [DecidableEq ρ]

theorem process_spec (hprocess : b.process t = some b') :
    ∃ c pre post, b.next t = some c ∧ b.pending = pre ++ (t, c) :: post ∧ (∀ x ∈ pre, x.1 ≠ t) ∧
      b' = ⟨pre ++ post, b.done ++ [c]⟩ := by
  obtain ⟨c, hnext, rfl⟩ := Option.map_eq_some_iff.mp hprocess
  obtain ⟨⟨u, c⟩, hfind, rfl⟩ := Option.map_eq_some_iff.mp hnext
  obtain ⟨hu, pre, post, hsplit, hpre⟩ := List.find?_eq_some_iff_append.mp hfind
  obtain rfl : u = t := by simpa using hu
  have hpre : ∀ x ∈ pre, x.1 ≠ u := by simpa using hpre
  refine ⟨c, pre, post, hnext, hsplit, hpre, ?_⟩
  rw [hsplit, List.erase_append_right _ fun hmem => hpre _ hmem rfl, List.erase_cons_head]

theorem all_process (hprocess : b.process t = some b') : b'.all.Perm b.all := by
  obtain ⟨c, pre, post, -, hsplit, -, rfl⟩ := process_spec hprocess
  have hmiddle : (pre.map Prod.snd ++ c :: post.map Prod.snd).Perm (c :: (pre.map Prod.snd ++ post.map Prod.snd)) :=
    List.perm_middle
  rw [all, all, hsplit, List.append_assoc]
  simpa using hmiddle.symm.append_left b.done

theorem Balanced.process (h : b.Balanced holds) (hprocess : b.process t = some b') : b'.Balanced holds := by
  have hperm := all_process hprocess
  obtain ⟨c, pre, post, -, hsplit, -, hb'⟩ := process_spec hprocess
  have horder := h.order
  rw [hsplit, List.pairwise_append] at horder
  exact {
    incs_nodup := (hperm.filterMap _).nodup_iff.mpr h.incs_nodup
    decs_nodup := (hperm.filterMap _).nodup_iff.mpr h.decs_nodup
    taken r := by simpa [hperm.mem_iff] using h.taken r
    held r := by simpa [hperm.mem_iff] using h.held r
    order := by
      rw [hb']
      exact List.pairwise_append.mpr ⟨horder.1, horder.2.1.tail, fun x hx y hy => horder.2.2 x hx y (.tail _ hy)⟩ }

/-- The increment is processed, if it does not wait in the buffer of another thread: in that of `t` it would
come first. -/
theorem Timely.process (ht : b.Timely) (h : b.Balanced holds)
    (hsound : ∀ r, b.next t = some (.dec r) → ∀ u ≠ t, (u, .inc r) ∉ b.pending)
    (hprocess : b.process t = some b') : b'.Timely := by
  obtain ⟨c, pre, post, hnext, hsplit, hpre, rfl⟩ := process_spec hprocess
  intro r hdec
  obtain hdec | hc := List.mem_append.mp hdec
  · exact List.mem_append_left _ (ht r hdec)
  · obtain rfl := List.mem_singleton.mp hc
    have hmem : (t, .dec r) ∈ b.pending := by simp [hsplit]
    have hinc := h.taken r (List.mem_append_right _ (List.mem_map.mpr ⟨_, hmem, rfl⟩))
    obtain hdone | hwait := List.mem_append.mp hinc
    · exact List.mem_append_left _ hdone
    · exfalso
      obtain ⟨⟨u, c⟩, hu, rfl⟩ := List.mem_map.mp hwait
      obtain rfl : u = t := by
        by_contra hne
        exact hsound r hnext u hne hu
      have horder := h.order
      rw [hsplit, List.pairwise_append, List.pairwise_cons] at horder
      rw [hsplit] at hu
      obtain hu | hu := List.mem_append.mp hu
      · exact hpre _ hu rfl
      · obtain heq | hu := List.mem_cons.mp hu
        · simp at heq
        · exact horder.2.1.1 _ hu r rfl rfl

end Process

/-- In the end the counts are those of the references that are held. -/
theorem Balanced.countP_eq (h : b.Balanced holds) (hempty : b.pending = []) (p : ρ → Bool)
    (hnone : ∀ r, holds r → ¬p r) : (decs b.done).countP p = (incs b.done).countP p := by
  have hall : b.all = b.done := by simp [all, hempty]
  have hincs := h.incs_nodup
  have hdecs := h.decs_nodup
  rw [hall] at hincs hdecs
  rw [List.countP_eq_length_filter, List.countP_eq_length_filter]
  refine List.Perm.length_eq ((List.perm_ext_iff_of_nodup (hdecs.filter _) (hincs.filter _)).mpr fun r => ?_)
  have htaken := h.taken r
  have hheld := h.held r
  have hr := hnone r
  rw [hall] at htaken hheld
  simp only [List.mem_filter, mem_decs, mem_incs]
  tauto

end Books

end AudioFlinger.Foundation.Deferred
