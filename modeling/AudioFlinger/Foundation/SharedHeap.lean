import Mathlib.Data.Multiset.Count
import Mathlib.Logic.Function.Basic
import Mathlib.Tactic.Common

/-!
# Counted blocks on a heap

A block is shared by its pointers and counts them. `Owned h P` says that the
counts are those of a multiset of pointers. Taking a pointer, dropping one and
writing through the only one keep the blocks of the other pointers.
-/

namespace AudioFlinger.Foundation.SharedHeap

variable {β : Type*}

structure Block (β : Type*) where
  refs : ℕ
  data : β

structure Heap (β : Type*) where
  cell : ℕ → Option (Block β)
  fresh : ℕ

namespace Heap

def empty : Heap β := ⟨fun _ => none, 0⟩

def load (h : Heap β) (a : ℕ) : Option β := (h.cell a).map Block.data

def refs (h : Heap β) (a : ℕ) : ℕ := (h.cell a).elim 0 Block.refs

def set (h : Heap β) (a : ℕ) (b : Option (Block β)) : Heap β :=
  { h with cell := Function.update h.cell a b }

/-- A new block with one pointer. -/
def alloc (h : Heap β) (d : β) : ℕ × Heap β :=
  (h.fresh, { cell := Function.update h.cell h.fresh (some ⟨1, d⟩), fresh := h.fresh + 1 })

/-- Take one more pointer. -/
def acquire (h : Heap β) (a : ℕ) : Option (Heap β) :=
  (h.cell a).map fun b => h.set a (some { b with refs := b.refs + 1 })

/-- Drop a pointer, and the block with its last one. -/
def release (h : Heap β) (a : ℕ) : Option (Heap β) :=
  (h.cell a).map fun b => h.set a (if b.refs = 1 then none else some { b with refs := b.refs - 1 })

@[simp] theorem set_cell_self (h : Heap β) (a : ℕ) (b : Option (Block β)) :
    (h.set a b).cell a = b :=
  Function.update_self ..

theorem set_cell_of_ne (h : Heap β) {a c : ℕ} (hc : c ≠ a) (b : Option (Block β)) :
    (h.set a b).cell c = h.cell c :=
  Function.update_of_ne hc ..

@[simp] theorem alloc_cell_self (h : Heap β) (d : β) :
    (h.alloc d).2.cell h.fresh = some ⟨1, d⟩ :=
  Function.update_self ..

theorem alloc_cell_of_ne (h : Heap β) {c : ℕ} (hc : c ≠ h.fresh) (d : β) :
    (h.alloc d).2.cell c = h.cell c :=
  Function.update_of_ne hc ..

/-- Overwrite a block. -/
def store (h : Heap β) (a : ℕ) (d : β) : Option (Heap β) :=
  (h.cell a).map fun b => h.set a (some { b with data := d })

end Heap

/-- The pointers of the heap are those of the multiset. -/
structure Owned (h : Heap β) (P : Multiset ℕ) : Prop where
  count : ∀ a, h.refs a = P.count a
  pos : ∀ a b, h.cell a = some b → 0 < b.refs
  fresh : ∀ a, h.fresh ≤ a → h.cell a = none

/-- The blocks of the pointers are the same. -/
def Agree (P : Multiset ℕ) (h h' : Heap β) : Prop := ∀ a ∈ P, h'.load a = h.load a

variable {h h' : Heap β} {P : Multiset ℕ} {a : ℕ} {d : β}

theorem Agree.refl (P : Multiset ℕ) (h : Heap β) : Agree P h h := fun _ _ => rfl

theorem Agree.trans {h'' : Heap β} (hh : Agree P h h') (hh' : Agree P h' h'') : Agree P h h'' :=
  fun a ha => (hh' a ha).trans (hh a ha)

theorem Agree.mono {Q : Multiset ℕ} (hh : Agree P h h') (hQ : Q ≤ P) : Agree Q h h' :=
  fun a ha => hh a (Multiset.mem_of_le hQ ha)

theorem owned_empty : Owned (Heap.empty : Heap β) 0 where
  count := fun _ => rfl
  pos := fun _ _ hb => by cases hb
  fresh := fun _ _ => rfl

namespace Owned

/-- A pointer points to a block. -/
theorem cell_of_mem (hown : Owned h P) (ha : a ∈ P) : ∃ b, h.cell a = some b := by
  cases hcell : h.cell a with
  | some b => exact ⟨b, rfl⟩
  | none =>
    have hcount := hown.count a
    rw [Heap.refs, hcell] at hcount
    exact absurd ha (Multiset.count_eq_zero.mp hcount.symm)

theorem lt_fresh (hown : Owned h P) (ha : a ∈ P) : a < h.fresh := by
  by_contra hfresh
  obtain ⟨b, hb⟩ := hown.cell_of_mem ha
  rw [hown.fresh a (Nat.le_of_not_lt hfresh)] at hb
  cases hb

/-- The only pointer to a block. -/
theorem refs_eq_one (hown : Owned h (a ::ₘ P)) : h.refs a = 1 ↔ a ∉ P := by
  rw [hown.count, Multiset.count_cons_self, ← Multiset.count_eq_zero]
  omega

/-- One block is replaced and its pointers with it. -/
theorem set {Q : Multiset ℕ} {b : Option (Block β)} (hown : Owned h P) (hlt : a < h.fresh)
    (hb : b.elim 0 Block.refs = Q.count a) (hpos : ∀ x, b = some x → 0 < x.refs)
    (hsame : ∀ c, c ≠ a → Q.count c = P.count c) : Owned (h.set a b) Q where
  count := by
    intro c
    by_cases hc : c = a
    · subst hc
      rw [Heap.refs, Heap.set_cell_self, hb]
    · rw [Heap.refs, Heap.set_cell_of_ne h hc, hsame c hc, ← hown.count c, Heap.refs]
  pos := by
    intro c x hx
    by_cases hc : c = a
    · subst hc
      rw [Heap.set_cell_self] at hx
      exact hpos x hx
    · rw [Heap.set_cell_of_ne h hc] at hx
      exact hown.pos c x hx
  fresh := by
    intro c hc
    have hne : c ≠ a := by
      rintro rfl
      exact absurd hlt (Nat.not_lt.mpr hc)
    rw [Heap.set_cell_of_ne h hne]
    exact hown.fresh c hc

theorem load_set_of_ne {b : Option (Block β)} {c : ℕ} (hc : c ≠ a) :
    (h.set a b).load c = h.load c := by
  rw [Heap.load, Heap.set_cell_of_ne h hc, Heap.load]

theorem load_set_self {b : Block β} : (h.set a (some b)).load a = some b.data := by
  rw [Heap.load, Heap.set_cell_self]
  rfl

/-! ## The operations -/

theorem alloc (hown : Owned h P) (d : β) :
    Owned (h.alloc d).2 ((h.alloc d).1 ::ₘ P) ∧ (h.alloc d).2.load (h.alloc d).1 = some d ∧
      Agree P h (h.alloc d).2 := by
  have hnew : ∀ c ∈ P, c ≠ h.fresh := fun c hc => (hown.lt_fresh hc).ne
  have haddr : (h.alloc d).1 = h.fresh := rfl
  rw [haddr]
  refine ⟨⟨?_, ?_, ?_⟩, ?_, ?_⟩
  · intro c
    by_cases hc : c = h.fresh
    · subst hc
      have hnot : h.fresh ∉ P := fun hmem => hnew _ hmem rfl
      rw [Heap.refs, Heap.alloc_cell_self, Multiset.count_cons_self,
        Multiset.count_eq_zero.mpr hnot]
      rfl
    · rw [Heap.refs, Heap.alloc_cell_of_ne h hc, Multiset.count_cons_of_ne hc,
        ← hown.count c, Heap.refs]
  · intro c x hx
    by_cases hc : c = h.fresh
    · subst hc
      rw [Heap.alloc_cell_self] at hx
      cases hx
      exact Nat.one_pos
    · rw [Heap.alloc_cell_of_ne h hc] at hx
      exact hown.pos c x hx
  · intro c hc
    have hle : h.fresh + 1 ≤ c := hc
    rw [Heap.alloc_cell_of_ne h (by omega)]
    exact hown.fresh c (by omega)
  · rw [Heap.load, Heap.alloc_cell_self]
    rfl
  · intro c hc
    rw [Heap.load, Heap.alloc_cell_of_ne h (hnew c hc), Heap.load]

theorem acquire (hown : Owned h P) (ha : a ∈ P) :
    ∃ h', h.acquire a = some h' ∧ Owned h' (a ::ₘ P) ∧ Agree (a ::ₘ P) h h' := by
  obtain ⟨b, hb⟩ := hown.cell_of_mem ha
  have hcount := hown.count a
  rw [Heap.refs, hb] at hcount
  refine ⟨h.set a (some { b with refs := b.refs + 1 }), ?_, ?_, ?_⟩
  · rw [Heap.acquire, hb]
    rfl
  · apply hown.set (hown.lt_fresh ha)
    · rw [Multiset.count_cons_self, ← hcount]
      rfl
    · rintro x ⟨rfl⟩
      exact Nat.succ_pos _
    · intro c hc
      exact Multiset.count_cons_of_ne hc P
  · intro c hc
    by_cases hca : c = a
    · subst hca
      rw [load_set_self, Heap.load, hb]
      rfl
    · exact load_set_of_ne hca

theorem release (hown : Owned h (a ::ₘ P)) :
    ∃ h', h.release a = some h' ∧ Owned h' P ∧ Agree P h h' := by
  have ha : a ∈ a ::ₘ P := Multiset.mem_cons_self a P
  obtain ⟨b, hb⟩ := hown.cell_of_mem ha
  have hcount := hown.count a
  rw [Heap.refs, hb, Multiset.count_cons_self] at hcount
  change b.refs = P.count a + 1 at hcount
  refine ⟨h.set a (if b.refs = 1 then none else some { b with refs := b.refs - 1 }), ?_, ?_, ?_⟩
  · rw [Heap.release, hb]
    rfl
  · apply hown.set (hown.lt_fresh ha)
    · split
      · change 0 = _
        lia
      · change b.refs - 1 = _
        lia
    · intro x hx
      split at hx
      · cases hx
      · cases hx
        change 0 < b.refs - 1
        lia
    · intro c hc
      exact (Multiset.count_cons_of_ne hc P).symm
  · intro c hc
    by_cases hca : c = a
    · subst hca
      have hpos := Multiset.count_pos.mpr hc
      rw [if_neg (by lia), load_set_self, Heap.load, hb]
      rfl
    · exact load_set_of_ne hca

/-- Writing through the only pointer. -/
theorem store (hown : Owned h (a ::ₘ P)) (honly : a ∉ P) (d : β) :
    ∃ h', h.store a d = some h' ∧ Owned h' (a ::ₘ P) ∧ h'.load a = some d ∧ Agree P h h' := by
  have ha : a ∈ a ::ₘ P := Multiset.mem_cons_self a P
  obtain ⟨b, hb⟩ := hown.cell_of_mem ha
  have hcount := hown.count a
  rw [Heap.refs, hb] at hcount
  refine ⟨h.set a (some { b with data := d }), ?_, ?_, load_set_self, ?_⟩
  · rw [Heap.store, hb]
    rfl
  · apply hown.set (hown.lt_fresh ha)
    · exact hcount
    · rintro x ⟨rfl⟩
      exact hown.pos a b hb
    · exact fun _ _ => rfl
  · intro c hc
    have hca : c ≠ a := by
      rintro rfl
      exact honly hc
    exact load_set_of_ne hca

end Owned

end AudioFlinger.Foundation.SharedHeap
