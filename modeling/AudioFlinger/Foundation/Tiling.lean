import Mathlib.Data.List.Chain
import Mathlib.Data.List.Pairwise
import Mathlib.Tactic.Common

/-!
# Tilings of an interval

Tiles lie end to end between two numbers; some are free. A heap manager keeps such a
tiling coalesced, with no two neighbours free. A coalesced tiling by free tiles is a
single tile.
-/

namespace AudioFlinger.Foundation

structure Tile where
  start : ℕ
  size : ℕ
  free : Bool
deriving DecidableEq

namespace Tile

def stop (t : Tile) : ℕ := t.start + t.size

variable {a b c : ℕ} {s t : Tile} {ss ts us vs : List Tile}

/-- The tiles lie end to end from `a` to `b`. -/
def Tiles : ℕ → List Tile → ℕ → Prop
  | a, [], b => a = b
  | a, t :: ts, b => t.start = a ∧ Tiles t.stop ts b

@[simp] theorem tiles_nil : Tiles a [] b ↔ a = b := Iff.rfl

@[simp] theorem tiles_cons : Tiles a (t :: ts) b ↔ t.start = a ∧ Tiles t.stop ts b := Iff.rfl

theorem tiles_append : Tiles a (ss ++ ts) b ↔ ∃ c, Tiles a ss c ∧ Tiles c ts b := by
  induction ss generalizing a with
  | nil => simp
  | cons s ss ih =>
    rw [List.cons_append, tiles_cons, ih]
    constructor
    · rintro ⟨hs, c, hss, hts⟩
      exact ⟨c, ⟨hs, hss⟩, hts⟩
    · rintro ⟨c, ⟨hs, hss⟩, hts⟩
      exact ⟨hs, c, hss, hts⟩

theorem tiles_middle : Tiles a (ss ++ t :: ts) b ↔ Tiles a ss t.start ∧ Tiles t.stop ts b := by
  rw [tiles_append]
  constructor
  · rintro ⟨c, hss, rfl, hts⟩
    exact ⟨hss, hts⟩
  · rintro ⟨hss, hts⟩
    exact ⟨t.start, hss, rfl, hts⟩

theorem Tiles.le (h : Tiles a ts b) : a ≤ b := by
  induction ts generalizing a with
  | nil => exact h.le
  | cons t ts ih =>
    obtain ⟨rfl, hts⟩ := h
    exact (Nat.le_add_right _ _).trans (ih hts)

/-- Every tile lies in the interval. -/
theorem Tiles.inside (h : Tiles a ts b) (ht : t ∈ ts) : a ≤ t.start ∧ t.stop ≤ b := by
  obtain ⟨ss, us, rfl⟩ := List.append_of_mem ht
  obtain ⟨hss, hus⟩ := tiles_middle.mp h
  exact ⟨hss.le, hus.le⟩

/-- The tiles are in address order and do not overlap. -/
theorem Tiles.pairwise (h : Tiles a ts b) : ts.Pairwise fun s t => s.stop ≤ t.start := by
  induction ts generalizing a with
  | nil => exact List.Pairwise.nil
  | cons t ts ih => exact List.Pairwise.cons (fun u hu => (h.2.inside hu).1) (ih h.2)

/-- A part may be laid out anew. -/
theorem Tiles.replace (h : Tiles a (ss ++ (ts ++ us)) b)
    (hts : ∀ c d, Tiles c ts d → Tiles c vs d) : Tiles a (ss ++ (vs ++ us)) b := by
  obtain ⟨c, hss, hrest⟩ := tiles_append.mp h
  obtain ⟨d, hmid, hus⟩ := tiles_append.mp hrest
  exact tiles_append.mpr ⟨c, hss, tiles_append.mpr ⟨d, hts c d hmid, hus⟩⟩

/-- No two neighbours are free. -/
def Coalesced (ts : List Tile) : Prop := ts.IsChain fun s t => ¬ (s.free ∧ t.free)

theorem coalesced_append : Coalesced (ss ++ ts) ↔ Coalesced ss ∧ Coalesced ts ∧
    ∀ s ∈ ss.getLast?, ∀ t ∈ ts.head?, ¬ (s.free ∧ t.free) := List.isChain_append

theorem coalesced_cons : Coalesced (t :: ts) ↔
    (∀ u ∈ ts.head?, ¬ (t.free ∧ u.free)) ∧ Coalesced ts := List.isChain_cons

theorem coalesced_middle : Coalesced (ss ++ t :: ts) ↔ Coalesced ss ∧ Coalesced ts ∧
    (t.free → (∀ s ∈ ss.getLast?, ¬ s.free) ∧ ∀ u ∈ ts.head?, ¬ u.free) := by
  rw [coalesced_append, coalesced_cons]
  simp only [List.head?_cons, Option.mem_def, Option.some.injEq]
  constructor
  · rintro ⟨hss, ⟨hnext, hts⟩, hlast⟩
    exact ⟨hss, hts, fun ht => ⟨fun s hs hfree => hlast s hs t rfl ⟨hfree, ht⟩,
      fun u hu hfree => hnext u hu ⟨ht, hfree⟩⟩⟩
  · rintro ⟨hss, hts, ht⟩
    refine ⟨hss, ⟨fun u hu hfree => (ht hfree.1).2 u hu hfree.2, hts⟩, ?_⟩
    rintro s hs _ rfl hfree
    exact (ht hfree.2).1 s hs hfree.1

/-- When nothing is in use, a single free tile is left. -/
theorem Coalesced.eq_singleton (h : Coalesced ts) (hne : ts ≠ []) (hfree : ∀ t ∈ ts, t.free) :
    ∃ t, ts = [t] := by
  rcases ts with _ | ⟨t, _ | ⟨u, ts⟩⟩
  · exact absurd rfl hne
  · exact ⟨t, rfl⟩
  · exact absurd ⟨hfree t (by simp), hfree u (by simp)⟩ (coalesced_cons.mp h |>.1 u rfl)

end Tile

end AudioFlinger.Foundation
