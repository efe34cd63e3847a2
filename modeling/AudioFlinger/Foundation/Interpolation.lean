import Mathlib.Data.List.Basic
import Mathlib.Tactic.Common

/-!
# Interpolation of a stream at a fixed step

Item `n` of the interpolation lies at `n * step` in units of `1 / unit` and
depends on the two items of the stream around it, of which the first has a
given item before it. An item that can be interpolated in a stream is the same
in every longer one. A `Segment` is a list of successive items of a sequence.
-/

namespace AudioFlinger.Foundation.Interpolation

variable {α β : Type*}

/-- The items of `out` are those of the sequence from `n` on. -/
def Segment (f : ℕ → Option β) (n : ℕ) (out : List β) : Prop :=
  ∀ k b, out[k]? = some b → f (n + k) = some b

variable {f g : ℕ → Option β} {n : ℕ}

theorem Segment.nil : Segment f n [] := by
  intro k b h
  simp at h

theorem Segment.cons {b : β} {out : List β} (hb : f n = some b) (h : Segment f (n + 1) out) :
    Segment f n (b :: out) := by
  intro k c hc
  cases k with
  | zero =>
    rw [List.getElem?_cons_zero] at hc
    rw [Nat.add_zero, hb, hc]
  | succ k =>
    rw [List.getElem?_cons_succ] at hc
    rw [← h k c hc]
    congr 1
    omega

theorem Segment.append {out out' : List β} (h : Segment f n out)
    (h' : Segment f (n + out.length) out') : Segment f n (out ++ out') := by
  intro k b hb
  rcases Nat.lt_or_ge k out.length with hk | hk
  · rw [List.getElem?_append_left hk] at hb
    exact h k b hb
  · rw [List.getElem?_append_right hk] at hb
    rw [← h' _ b hb]
    congr 1
    omega

theorem Segment.mono {out : List β} (hfg : ∀ n b, f n = some b → g n = some b)
    (h : Segment f n out) : Segment g n out := fun k b hb => hfg _ b (h k b hb)

/-- Item `n` of the interpolation of `xs`, before which stands `first`. -/
def itemAt (interp : α → α → ℕ → β) (first : α) (unit step : ℕ) (xs : List α) (n : ℕ) :
    Option β :=
  (first :: xs)[n * step / unit]?.bind fun x0 =>
    xs[n * step / unit]?.map fun x1 => interp x0 x1 (n * step % unit)

/-- Adding a step to a fraction carries into the index. -/
theorem carry (unit index frac step : ℕ) :
    (index + (frac + step) / unit) * unit + (frac + step) % unit = index * unit + frac + step := by
  rw [Nat.add_mul, Nat.add_assoc, Nat.div_add_mod', Nat.add_assoc]

variable {interp : α → α → ℕ → β} {first : α} {unit step : ℕ} {xs ys : List α}

theorem itemAt_of_taps {p frac : ℕ} {x0 x1 : α} (hposition : p * unit + frac = n * step)
    (hfrac : frac < unit) (h0 : (first :: xs)[p]? = some x0) (h1 : xs[p]? = some x1) :
    itemAt interp first unit step xs n = some (interp x0 x1 frac) := by
  have hdiv : n * step / unit = p := by
    rw [← hposition, Nat.mul_comm, Nat.mul_add_div (Nat.zero_lt_of_lt hfrac),
      Nat.div_eq_of_lt hfrac, Nat.add_zero]
  have hmod : n * step % unit = frac := by
    rw [← hposition, Nat.mul_comm, Nat.mul_add_mod, Nat.mod_eq_of_lt hfrac]
  rw [itemAt, hdiv, hmod, h0, h1]
  rfl

/-- An item stays the same in a longer stream. -/
theorem itemAt_append {b : β} (h : itemAt interp first unit step xs n = some b) :
    itemAt interp first unit step (xs ++ ys) n = some b := by
  rw [itemAt, Option.bind_eq_some_iff] at h
  obtain ⟨x0, h0, h⟩ := h
  rw [Option.map_eq_some_iff] at h
  obtain ⟨x1, h1, hb⟩ := h
  have happend {zs : List α} {p : ℕ} {x : α} (hx : zs[p]? = some x) :
      (zs ++ ys)[p]? = some x := by
    rw [List.getElem?_append_left (List.getElem?_eq_some_iff.mp hx).1]
    exact hx
  rw [itemAt, ← List.cons_append, happend h0, Option.bind_some, happend h1, Option.map_some, hb]

end AudioFlinger.Foundation.Interpolation
