import AudioFlinger.Foundation.RingMemory

/-!
# Logs in a ring
-/

/-!
## The last whole pieces of a stream

A stream is the concatenation of encoded pieces. Of its last `n` elements the
front may be the end of a piece that began before them; the rest is the
longest run of last pieces that fits.
-/

namespace AudioFlinger.Foundation.Pieces

variable {ι β : Type*} (f : ι → List β)

/-- The longest run of last pieces of at most `n` elements. -/
def lastWhole (n : ℕ) : List ι → List ι
  | [] => []
  | e :: es => if ((e :: es).flatMap f).length ≤ n then e :: es else lastWhole n es

/-- `kept` is the longest run of last pieces of at most `n` elements. -/
structure IsLastWhole (n : ℕ) (es kept : List ι) : Prop where
  suffix : kept <:+ es
  fits : (kept.flatMap f).length ≤ n
  longest : ∀ other, other <:+ es → (other.flatMap f).length ≤ n → other <:+ kept

theorem isLastWhole_lastWhole (n : ℕ) (es : List ι) : IsLastWhole f n es (lastWhole f n es) := by
  induction es with
  | nil => exact ⟨List.suffix_rfl, Nat.zero_le _, fun other h _ => h⟩
  | cons e es ih =>
    unfold lastWhole
    split_ifs with hall
    · exact ⟨List.suffix_rfl, hall, fun other h _ => h⟩
    · refine ⟨ih.suffix.trans (List.suffix_cons e es), ih.fits, fun other h hfits => ?_⟩
      rcases List.suffix_cons_iff.mp h with rfl | hes
      · exact absurd hfits hall
      · exact ih.longest other hes hfits

/-- The length of a suffix does not exceed the length of the whole. -/
theorem length_flatMap_le {es kept : List ι} (h : kept <:+ es) :
    (kept.flatMap f).length ≤ (es.flatMap f).length := by
  obtain ⟨before, rfl⟩ := h
  simp

/-- The last `n` elements are the end of one piece, which does not fit, and the last whole
pieces. -/
theorem drop_flatMap (n : ℕ) (es : List ι) :
    ∃ broken, (es.flatMap f).drop ((es.flatMap f).length - n) =
        broken ++ (lastWhole f n es).flatMap f ∧
      (broken = [] ∨ ∃ e ∈ es, broken <:+ f e ∧ broken.length < (f e).length) := by
  induction es with
  | nil => exact ⟨[], by simp [lastWhole], Or.inl rfl⟩
  | cons e es ih =>
    have hlen : ((e :: es).flatMap f).length = (f e).length + (es.flatMap f).length := by simp
    unfold lastWhole
    split_ifs with hall
    · refine ⟨[], ?_, Or.inl rfl⟩
      rw [Nat.sub_eq_zero_of_le hall, List.drop_zero, List.nil_append]
    · by_cases hrest : (es.flatMap f).length ≤ n
      -- the cut is inside the piece `e`
      · have hkept : lastWhole f n es = es := by
          have hspec := isLastWhole_lastWhole f n es
          exact (hspec.longest es List.suffix_rfl hrest).eq_of_length_le
            hspec.suffix.length_le |>.symm
        refine ⟨(f e).drop (((e :: es).flatMap f).length - n), ?_,
          Or.inr ⟨e, List.mem_cons_self, List.drop_suffix _ _, ?_⟩⟩
        · rw [hkept, List.flatMap_cons, List.drop_append_of_le_length]
          rw [← List.flatMap_cons]
          omega
        · rw [List.length_drop]
          omega
      · obtain ⟨broken, hdrop, hbroken⟩ := ih
        refine ⟨broken, ?_, hbroken.imp_right fun ⟨e', he', h⟩ =>
          ⟨e', List.mem_cons_of_mem _ he', h⟩⟩
        have hcut : ((e :: es).flatMap f).length - n =
            (f e).length + ((es.flatMap f).length - n) := by omega
        rw [hcut, List.flatMap_cons, List.drop_length_add_append, hdrop]

end AudioFlinger.Foundation.Pieces

/-!
## A log that overwrites its oldest entries

A ring of `M` cells written without regard to any reader keeps the last `M`
elements of the stream. A write of at most `M` elements is one or two copies,
and so is a read.
-/

namespace AudioFlinger.Foundation

open RingMemory

variable {α : Type*}

namespace RingMemory

/-- A write that goes on at cell `0` when it reaches the end of the ring. -/
def ringWrite (M : ℕ) (mem : ℕ → α) (p : ℕ) (xs : List α) : ℕ → α :=
  blit (blit mem (p % M) (xs.take (M - p % M))) 0 (xs.drop (M - p % M))

/-- A read that goes on at cell `0`, likewise. -/
def ringRead (M : ℕ) (mem : ℕ → α) (p n : ℕ) : List α :=
  slice mem (p % M) (min n (M - p % M)) ++ slice mem 0 (n - (M - p % M))

variable {M : ℕ} {mem : ℕ → α}

theorem slot_wrap (hM : 0 < M) (p : ℕ) : (p + (M - p % M)) % M = 0 := by
  have hlt := Nat.mod_lt p hM
  exact slot_lap (by omega)

theorem ringRead_eq (hM : 0 < M) {p n : ℕ} (hn : n ≤ M) :
    ringRead M mem p n = ringSlice M mem p n := by
  have hlt := Nat.mod_lt p hM
  have hsplit : n = min n (M - p % M) + (n - (M - p % M)) := by omega
  conv_rhs => rw [hsplit, ringSlice_add]
  rw [ringRead, ringSlice_eq_slice (by omega)]
  congr 1
  by_cases hfit : n ≤ M - p % M
  · rw [Nat.sub_eq_zero_of_le hfit]
    rfl
  · rw [Nat.min_eq_right (by omega), ringSlice_eq_slice (by rw [slot_wrap hM]; omega),
      slot_wrap hM]

/-- A write that does not reach the end of the ring is one copy. -/
theorem ringWrite_of_le {p : ℕ} {xs : List α} (h : xs.length ≤ M - p % M) :
    ringWrite M mem p xs = blit mem (p % M) xs := by
  rw [ringWrite, List.take_of_length_le h, List.drop_of_length_le h, blit_nil]

/-- A write as two copies, by the lengths of the two parts. -/
theorem ringWrite_parts {p one two : ℕ} {xs : List α} (hone : one = min xs.length (M - p % M))
    (htwo : two = xs.length - (M - p % M)) :
    blit (blit mem (p % M) (xs.take one)) 0 ((xs.drop one).take two) = ringWrite M mem p xs := by
  rw [ringWrite]
  by_cases hwrap : M - p % M ≤ xs.length
  · rw [Nat.min_eq_right hwrap] at hone
    rw [hone, htwo, List.take_of_length_le (List.length_drop).le]
  · rw [hone, htwo, Nat.min_eq_left (by omega), Nat.sub_eq_zero_of_le (by omega), List.take_zero,
      List.take_of_length_le le_rfl, List.take_of_length_le (by omega),
      List.drop_of_length_le (by omega)]

/-- A write leaves alone everything stored in the lap before its end. -/
theorem Holds.ringWrite (hM : 0 < M) {p q : ℕ} {xs ys : List α} (h : Holds M mem q ys)
    (hbefore : q + ys.length ≤ p) (hlap : p + xs.length ≤ q + M) :
    Holds M (ringWrite M mem p xs) q ys := by
  have hlt := Nat.mod_lt p hM
  by_cases hone : xs.length ≤ M - p % M
  · rw [ringWrite_of_le hone]
    exact h.blit (by omega) hbefore hlap
  · have hfirst : Holds M (RingMemory.blit mem (p % M) (xs.take (M - p % M))) q ys :=
      h.blit (by rw [List.length_take]; omega) hbefore (by rw [List.length_take]; omega)
    have hsecond : Holds M (RingMemory.blit _ ((p + (M - p % M)) % M) (xs.drop (M - p % M))) q ys :=
      hfirst.blit (by rw [slot_wrap hM, List.length_drop]; omega) (by omega)
        (by rw [List.length_drop]; omega)
    rwa [slot_wrap hM] at hsecond

theorem holds_ringWrite (hM : 0 < M) {p : ℕ} {xs : List α} (hfit : xs.length ≤ M) :
    Holds M (ringWrite M mem p xs) p xs := by
  have hlt := Nat.mod_lt p hM
  by_cases hone : xs.length ≤ M - p % M
  · rw [ringWrite_of_le hone]
    exact holds_blit (by omega)
  · have hlen : (xs.take (M - p % M)).length = M - p % M := by
      rw [List.length_take]
      omega
    have hend : (p + (M - p % M)) % M + (xs.drop (M - p % M)).length ≤ M := by
      rw [slot_wrap hM, List.length_drop]
      omega
    have hfirst : Holds M (RingMemory.blit mem (p % M) (xs.take (M - p % M))) p
        (xs.take (M - p % M)) := holds_blit (by omega)
    -- the second copy leaves the first alone
    have hkept := hfirst.blit hend (by omega) (by rw [List.length_drop]; omega)
    have hsecond : Holds M
        (RingMemory.blit (RingMemory.blit mem (p % M) (xs.take (M - p % M)))
          ((p + (M - p % M)) % M) (xs.drop (M - p % M)))
        (p + (xs.take (M - p % M)).length) (xs.drop (M - p % M)) := by
      rw [hlen]
      exact holds_blit hend
    have hboth := hkept.append hsecond
    rwa [slot_wrap hM, List.take_append_drop] at hboth

end RingMemory

/-- The stream of everything written, position `n` in cell `(b + n) % M`, and the ring that
holds its last `M` elements. -/
structure RingLog (α : Type*) (b M : ℕ) where
  mem : ℕ → α
  log : List α
  pos : 0 < M
  holds : Holds M mem (b + (log.length - M)) (log.drop (log.length - M))

namespace RingLog

variable {b M : ℕ} (q : RingLog α b M)

def start (b : ℕ) {M : ℕ} (hM : 0 < M) (mem : ℕ → α) : RingLog α b M where
  mem := mem
  log := []
  pos := hM
  holds := by simp

theorem append_holds (xs : List α) (h : xs.length ≤ M) :
    Holds M (ringWrite M q.mem (b + q.log.length) xs)
      (b + ((q.log ++ xs).length - M)) ((q.log ++ xs).drop ((q.log ++ xs).length - M)) := by
  have hlen : (q.log ++ xs).length = q.log.length + xs.length := List.length_append
  -- of the old elements those stay that the new ones leave room for
  have hold := q.holds.drop ((q.log ++ xs).length - M - (q.log.length - M))
  rw [List.drop_drop] at hold
  have hpos : q.log.length - M + ((q.log ++ xs).length - M - (q.log.length - M)) =
      (q.log ++ xs).length - M := by omega
  rw [Nat.add_assoc, hpos] at hold
  have hkept : Holds M (ringWrite M q.mem (b + q.log.length) xs) _ _ :=
    hold.ringWrite q.pos (by rw [List.length_drop]; omega) (by omega)
  have hnew : Holds M (ringWrite M q.mem (b + q.log.length) xs) _ xs :=
    holds_ringWrite q.pos h
  have hend : b + ((q.log ++ xs).length - M) +
      (q.log.drop ((q.log ++ xs).length - M)).length = b + q.log.length := by
    rw [List.length_drop]
    omega
  rw [List.drop_append_of_le_length (by omega)]
  exact hkept.append (by rw [hend]; exact hnew)

/-- A write of at most `M` elements. -/
def append (xs : List α) (h : xs.length ≤ M) : RingLog α b M where
  mem := ringWrite M q.mem (b + q.log.length) xs
  log := q.log ++ xs
  pos := q.pos
  holds := q.append_holds xs h

@[simp] theorem append_mem (xs : List α) (h : xs.length ≤ M) :
    (q.append xs h).mem = ringWrite M q.mem (b + q.log.length) xs := rfl
@[simp] theorem append_log (xs : List α) (h : xs.length ≤ M) :
    (q.append xs h).log = q.log ++ xs := rfl

/-- Elements less than `M` from the end can be read back. -/
theorem ringSlice_log {p n : ℕ} (hold : q.log.length ≤ p + M) (hn : p + n ≤ q.log.length) :
    ringSlice M q.mem (b + p) n = (q.log.drop p).take n := by
  have hdrop := q.holds.drop (p - (q.log.length - M))
  have hpos : q.log.length - M + (p - (q.log.length - M)) = p := by omega
  rw [List.drop_drop, Nat.add_assoc, hpos] at hdrop
  exact hdrop.ringSlice (by rw [List.length_drop]; omega)

end RingLog

end AudioFlinger.Foundation
