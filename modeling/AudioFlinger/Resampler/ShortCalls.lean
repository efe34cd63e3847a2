import AudioFlinger.Resampler.Streaming

/-!
# Calls that ask for no frames

A call of the linear resampler asks for as many frames as its output takes at
the ratio of the rates, rounded down. A provider that is asked for none hands
out an empty chunk, which has no last frame to keep.
-/

namespace AudioFlinger.Resampler

open Foundation Machine
open Mixer (I16 I32 I64)

variable {α : Type} {fmt : Format α}

/-! ## A finite stream -/

/-- As many frames of the stream as asked for, or as are left, and `NULL` at its end. -/
def finite (stream : List α) : Answers α := fun calls frameCount _ =>
  let left := stream.drop (delivered calls).length
  if left.isEmpty then none else some (left.take frameCount.toNat)

/-- The stream is handed out. -/
def Order1.Exhausted (s : Order1 α) (stream : List α) : Prop :=
  stream.length ≤ (delivered s.calls).length

instance (s : Order1 α) (stream : List α) : Decidable (s.Exhausted stream) :=
  inferInstanceAs (Decidable (_ ≤ _))

/-! ## Where the frames of the output lie -/

/-- The position of a cursor, in fractions of a frame. -/
def Cursor.position (c : Cursor) : ℕ :=
  c.inputIndex * 2 ^ kNumPhaseBits + c.phaseFraction.toNat

/-- The input index `k` frames of the output further on. -/
def Cursor.indexAfter (c : Cursor) (inc : U32) (k : ℕ) : ℕ :=
  (c.position + k * inc.toNat) / 2 ^ kNumPhaseBits

section Cursors

variable {c : Cursor} {inc : U32}

theorem Cursor.Advance_position (hfraction : c.phaseFraction.toNat < 2 ^ kNumPhaseBits)
    (hinc : inc.toNat ≤ 2 * 2 ^ kNumPhaseBits) :
    (c.Advance inc).position = c.position + inc.toNat ∧
      (c.Advance inc).phaseFraction.toNat < 2 ^ kNumPhaseBits := by
  obtain ⟨hindex, hphase⟩ := Cursor.toNat_Advance hinc hfraction
  refine ⟨?_, ?_⟩
  · rw [position, position, hindex, hphase, Interpolation.carry]
  · rw [hphase]
    exact Nat.mod_lt _ (Nat.two_pow_pos _)

theorem Cursor.indexAfter_zero (hfraction : c.phaseFraction.toNat < 2 ^ kNumPhaseBits) :
    c.indexAfter inc 0 = c.inputIndex := by
  unfold indexAfter position
  unfold kNumPhaseBits at *
  omega

theorem Cursor.indexAfter_mono (c : Cursor) (inc : U32) {j k : ℕ} (h : j ≤ k) :
    c.indexAfter inc j ≤ c.indexAfter inc k :=
  Nat.div_le_div_right (Nat.add_le_add_left (Nat.mul_le_mul_right _ h) _)

/-- The loop emits `out`, each frame of it where it goes on, and stops there or after `m` frames. -/
structure EmitsTo (inc : U32) (goes : ℕ → Bool) (m : ℕ) (c : Cursor) (out : List (I32 × I32))
    (c' : Cursor) : Prop where
  position : c'.position = c.position + out.length * inc.toNat
  fraction : c'.phaseFraction.toNat < 2 ^ kNumPhaseBits
  length : out.length ≤ m
  within : ∀ k < out.length, goes (c.indexAfter inc k) = true
  stops : out.length = m ∨ goes c'.inputIndex = false

theorem Cursor.indexAfter_Advance (hfraction : c.phaseFraction.toNat < 2 ^ kNumPhaseBits)
    (hinc : inc.toNat ≤ 2 * 2 ^ kNumPhaseBits) (k : ℕ) :
    (c.Advance inc).indexAfter inc k = c.indexAfter inc (k + 1) := by
  obtain ⟨hposition, -⟩ := Cursor.Advance_position hfraction hinc
  rw [indexAfter, indexAfter, hposition, Nat.succ_mul, Nat.add_assoc, Nat.add_comm inc.toNat]

theorem emitWhile_emitsTo (hinc : inc.toNat ≤ 2 * 2 ^ kNumPhaseBits) {volume : I16 × I16}
    {goes : ℕ → Bool} {taps : ℕ → Option (α × α)} {low : ℕ}
    (htaps : ∀ i, low ≤ i → goes i = true → (taps i).isSome = true) (m : ℕ) (c : Cursor)
    (hfraction : c.phaseFraction.toNat < 2 ^ kNumPhaseBits) (hlow : m = 0 ∨ low ≤ c.inputIndex) :
    ∃ out c', emitWhile fmt volume inc goes taps m c = some (out, c') ∧
      EmitsTo inc goes m c out c' := by
  induction m generalizing c with
  | zero => exact ⟨[], c, rfl, by simp, hfraction, le_rfl, nofun, Or.inl rfl⟩
  | succ m ih =>
    rw [emitWhile]
    split_ifs with hgoes
    · have hle := hlow.resolve_left (Nat.succ_ne_zero m)
      obtain ⟨⟨x0, x1⟩, htap⟩ := Option.isSome_iff_exists.mp (htaps c.inputIndex hle hgoes)
      obtain ⟨hposition, hfraction'⟩ := Cursor.Advance_position hfraction hinc
      obtain ⟨out, c', hrun, h⟩ := ih (c.Advance inc) hfraction'
        (Or.inr (hle.trans (Cursor.Advance_inputIndex c inc)))
      refine ⟨frameOf fmt volume x0 x1 c.phaseFraction :: out, c', ?_, ?_⟩
      · rw [htap]
        simp only [Option.bind_eq_bind, Option.bind_some, hrun]
      · exact
          { position := by
              rw [h.position, hposition, List.length_cons, Nat.succ_mul]
              omega
            fraction := h.fraction
            length := Nat.succ_le_succ h.length
            within := by
              intro k hk
              cases k with
              | zero => rwa [Cursor.indexAfter_zero hfraction]
              | succ k =>
                rw [← Cursor.indexAfter_Advance hfraction hinc]
                exact h.within k (Nat.lt_of_succ_lt_succ hk)
            stops := h.stops.imp_left (congrArg Nat.succ) }
    · exact ⟨[], c, rfl, by simp, hfraction, Nat.zero_le _, nofun,
        Or.inr (eq_false_of_ne_true hgoes)⟩

theorem EmitsTo.inputIndex {goes : ℕ → Bool} {m : ℕ} {c' : Cursor} {out : List (I32 × I32)}
    (h : EmitsTo inc goes m c out c') : c'.inputIndex = c.indexAfter inc out.length := by
  rw [← @Cursor.indexAfter_zero _ inc h.fraction, Cursor.indexAfter, Cursor.indexAfter,
    h.position, Nat.zero_mul, Nat.add_zero]

end Cursors

/-! ## The loops -/

/-- The buffer held has its frames, and the cursor lies in it. -/
structure Order1.Ready (s : Order1 α) (fmt : Format α) (c : Cursor) : Prop where
  held : s.mBuffer.frameCount ≠ 0 →
    ∃ held : List α, s.mBuffer.i16 = held.flatMap fmt.samples ∧ s.mBuffer.frameCount = held.length
  fraction : c.phaseFraction.toNat < 2 ^ kNumPhaseBits
  inside : s.mBuffer.frameCount ≠ 0 → c.inputIndex < s.mBuffer.frameCount

/-- Only the calls of the provider, and what comes of them, are different. -/
structure Order1.Continues (s s' : Order1 α) : Prop where
  increment : s'.mPhaseIncrement = s.mPhaseIncrement
  delivered : (delivered s.calls).length ≤ (delivered s'.calls).length

section Loops

variable {s : Order1 α} {c : Cursor} {m : ℕ} (h : s.Ready fmt c) (hheld : s.mBuffer.frameCount ≠ 0)

include h hheld

theorem Order1.Ready.taps {i : ℕ} (hi : i < s.mBuffer.frameCount) :
    (fmt.read s.mBuffer.i16 i).isSome = true := by
  obtain ⟨held, hsamples, hcount⟩ := h.held hheld
  rw [hsamples, fmt.read_samples, List.getElem?_eq_getElem (hcount ▸ hi)]
  rfl

/-- The last frame of a chunk that has one is kept. -/
theorem Order1.Ready.finishBuffer :
    ∃ s', s.finishBuffer fmt = some s' ∧ s'.mPhaseIncrement = s.mPhaseIncrement ∧
      delivered s'.calls = delivered s.calls ∧ s'.mBuffer.frameCount = 0 := by
  obtain ⟨n, hn⟩ := Nat.exists_eq_succ_of_ne_zero hheld
  obtain ⟨last, hlast⟩ := Option.isSome_iff_exists.mp (h.taps hheld (hn ▸ Nat.lt_succ_self n))
  refine ⟨Order1.releaseBuffer { s with mX0 := last }, ?_, rfl, delivered_releaseBuffer _ _, rfl⟩
  rw [Order1.finishBuffer, hn, Format.readBack, hlast]
  rfl

omit h hheld in
/-- An empty chunk has no last frame. -/
theorem Order1.finishBuffer_empty (hheld : s.mBuffer.frameCount = 0) :
    s.finishBuffer fmt = none := by
  rw [Order1.finishBuffer, hheld]
  rfl

variable (hinc : s.mPhaseIncrement.toNat ≤ 2 * 2 ^ kNumPhaseBits)

include hinc

theorem Order1.Ready.boundaryLoop :
    ∃ out c', s.boundaryLoop fmt m c = some (out, c') ∧
      EmitsTo s.mPhaseIncrement (fun i => i = 0) m c out c' := by
  apply emitWhile_emitsTo hinc
  · intro i _ _
    obtain ⟨x, hx⟩ := Option.isSome_iff_exists.mp (h.taps hheld (Nat.pos_of_ne_zero hheld))
    rw [hx]
    rfl
  · exact h.fraction
  · exact Or.inr (Nat.zero_le _)

theorem Order1.Ready.generalLoop {c₁ : Cursor}
    (hfraction : c₁.phaseFraction.toNat < 2 ^ kNumPhaseBits) (hlow : m = 0 ∨ 1 ≤ c₁.inputIndex) :
    ∃ out c', s.generalLoop fmt m c₁ = some (out, c') ∧
      EmitsTo s.mPhaseIncrement (fun i => i < s.mBuffer.frameCount) m c₁ out c' := by
  apply emitWhile_emitsTo hinc ?_ m c₁ hfraction hlow
  intro i hi hgoes
  obtain ⟨j, rfl⟩ := Nat.exists_eq_add_of_le' hi
  have hlt : j + 1 < s.mBuffer.frameCount := of_decide_eq_true hgoes
  obtain ⟨x0, hx0⟩ := Option.isSome_iff_exists.mp (h.taps hheld (Nat.lt_of_succ_lt hlt))
  obtain ⟨x1, hx1⟩ := Option.isSome_iff_exists.mp (h.taps hheld hlt)
  rw [Format.readBack, hx0, hx1]
  rfl

/-- What a pass over the chunk held leaves. -/
structure Order1.Drained (fmt : Format α) (s : Order1 α) (c : Cursor) (m : ℕ)
    (out : List (I32 × I32)) (s' : Order1 α) (c' : Cursor) : Prop where
  ready : s'.Ready fmt c'
  increment : s'.mPhaseIncrement = s.mPhaseIncrement
  delivered : delivered s'.calls = delivered s.calls
  pos : 0 < out.length
  length : out.length ≤ m
  released : out.length < m → s'.mBuffer.frameCount = 0
  all : out.length = m ↔ c.indexAfter s.mPhaseIncrement (m - 1) < s.mBuffer.frameCount

/-- Both loops together emit the frames that lie in the chunk. -/
theorem Order1.Ready.loops :
    ∃ boundary c₁ general c₂, s.boundaryLoop fmt m c = some (boundary, c₁) ∧
      s.generalLoop fmt (m - boundary.length) c₁ = some (general, c₂) ∧
      EmitsTo s.mPhaseIncrement (fun i => i < s.mBuffer.frameCount) m c (boundary ++ general) c₂ := by
  obtain ⟨boundary, c₁, hboundary, h₁⟩ := h.boundaryLoop (m := m) hheld hinc
  have hlow : m - boundary.length = 0 ∨ 1 ≤ c₁.inputIndex := by
    refine h₁.stops.imp (fun hall => ?_) fun hstop => ?_
    · omega
    · exact Nat.one_le_iff_ne_zero.mpr (of_decide_eq_false hstop)
  obtain ⟨general, c₂, hgeneral, h₂⟩ := h.generalLoop hheld hinc h₁.fraction hlow
  have hlen₁ := h₁.length
  have hlen₂ := h₂.length
  refine ⟨boundary, c₁, general, c₂, hboundary, hgeneral, ?_, h₂.fraction, ?_, ?_, ?_⟩
  · rw [h₂.position, h₁.position, List.length_append, Nat.add_mul, Nat.add_assoc]
  · rw [List.length_append]
    omega
  · intro k hk
    rw [List.length_append] at hk
    by_cases hfirst : k < boundary.length
    · have hzero : c.indexAfter s.mPhaseIncrement k = 0 := of_decide_eq_true (h₁.within k hfirst)
      rw [hzero]
      exact decide_eq_true (Nat.pos_of_ne_zero hheld)
    · have hlater := h₂.within (k - boundary.length) (by omega)
      have hindex : c₁.indexAfter s.mPhaseIncrement (k - boundary.length) =
          c.indexAfter s.mPhaseIncrement k := by
        rw [Cursor.indexAfter, Cursor.indexAfter, h₁.position, Nat.add_assoc, ← Nat.add_mul,
          Nat.add_sub_cancel' (Nat.not_lt.mp hfirst)]
      rwa [hindex] at hlater
  · rw [List.length_append]
    refine h₂.stops.imp_left fun hall => ?_
    omega

omit h hheld hinc in
theorem EmitsTo.all_iff {inc : U32} {frameCount : ℕ} {c' : Cursor} {out : List (I32 × I32)}
    (h : EmitsTo inc (fun i => i < frameCount) m c out c') (hm : 0 < m) :
    out.length = m ↔ c.indexAfter inc (m - 1) < frameCount := by
  constructor
  · intro hall
    exact of_decide_eq_true (h.within (m - 1) (by omega))
  · intro hlast
    by_contra hfew
    have hlt := Nat.lt_of_le_of_ne h.length hfew
    have hout : ¬ c'.inputIndex < frameCount := of_decide_eq_false (h.stops.resolve_left hfew)
    rw [h.inputIndex] at hout
    exact hout (Nat.lt_of_le_of_lt (Cursor.indexAfter_mono c inc (Nat.le_sub_one_of_lt hlt)) hlast)

theorem Order1.Ready.drain (hm : 0 < m) :
    ∃ out s' c', s.drain fmt m c = some (out, s', c') ∧ Order1.Drained fmt s c m out s' c' := by
  obtain ⟨boundary, c₁, general, c₂, hboundary, hgeneral, hemits⟩ := h.loops (m := m) hheld hinc
  have hpos : 0 < (boundary ++ general).length := by
    by_contra hzero
    have hnil : (boundary ++ general).length = 0 := by omega
    rcases hemits.stops with hall | hstop
    · omega
    · have hout : ¬ c₂.inputIndex < s.mBuffer.frameCount := of_decide_eq_false hstop
      rw [hemits.inputIndex, hnil, Cursor.indexAfter_zero h.fraction] at hout
      exact hout (h.inside hheld)
  simp only [Order1.drain, hboundary, hgeneral, Option.bind_eq_bind, Option.bind_some]
  split_ifs with hdone
  · obtain ⟨s', hfinish, hincrement, hdelivered, hempty⟩ := h.finishBuffer hheld
    rw [hfinish, Option.bind_some]
    refine ⟨_, s', _, rfl, ⟨?_, hemits.fraction, ?_⟩, hincrement, hdelivered, hpos, hemits.length,
      fun _ => hempty, hemits.all_iff hm⟩
    · exact fun hne => absurd hempty hne
    · exact fun hne => absurd hempty hne
  · refine ⟨_, s, c₂, rfl, ⟨h.held, hemits.fraction, fun _ => Nat.not_le.mp hdone⟩,
      rfl, rfl, hpos, hemits.length, fun hfew => ?_, hemits.all_iff hm⟩
    have hstop := hemits.stops.resolve_left hfew.ne
    exact absurd (Nat.not_lt.mp (of_decide_eq_false hstop)) hdone

omit h hheld hinc in
theorem Order1.Drained.continues {s' : Order1 α} {c' : Cursor} {out : List (I32 × I32)}
    (h : Order1.Drained fmt s c m out s' c') : s.Continues s' :=
  ⟨h.increment, Nat.le_of_eq (congrArg List.length h.delivered.symm)⟩

end Loops

/-! ## A call -/

section Calls

variable {s : Order1 α} {stream : List α} {k : U32}

theorem finite_eq_none_iff (calls : List (Call α)) (pts : I64) :
    finite stream calls k pts = none ↔ stream.length ≤ (delivered calls).length := by
  simp only [finite, List.isEmpty_iff, List.drop_eq_nil_iff]
  split_ifs with hall
  · exact iff_of_true rfl hall
  · exact iff_of_false nofun hall

/-- At the end of the stream there is no buffer. -/
theorem Order1.Exhausted.getNextBuffer (h : s.Exhausted stream) (fmt : Format α) (k : U32)
    (pts : I64) :
    (s.getNextBuffer fmt (finite stream) k pts).mBuffer = ⟨none, 0⟩ ∧
      s.Continues (s.getNextBuffer fmt (finite stream) k pts) := by
  have hnone : finite stream s.calls k pts = none := (finite_eq_none_iff s.calls pts).mpr h
  refine ⟨?_, rfl, ?_⟩
  · rw [Order1.getNextBuffer, hnone]
    rfl
  · rw [Order1.getNextBuffer, delivered_getNextBuffer, List.length_append]
    exact Nat.le_add_right _ _

/-- Before, there is one with a frame if any is asked for, and an empty one if not. -/
theorem Order1.getNextBuffer_finite (h : ¬ s.Exhausted stream) (fmt : Format α) (k : U32)
    (pts : I64) :
    ∃ held : List α, (held = [] ↔ k = 0#32) ∧
      (s.getNextBuffer fmt (finite stream) k pts).mBuffer =
        ⟨some (held.flatMap fmt.samples), held.length⟩ ∧
      s.Continues (s.getNextBuffer fmt (finite stream) k pts) := by
  have hleft : stream.drop (delivered s.calls).length ≠ [] := by
    rw [ne_eq, List.drop_eq_nil_iff]
    exact h
  have hsome : finite stream s.calls k pts =
      some ((stream.drop (delivered s.calls).length).take k.toNat) := by
    unfold finite
    dsimp only
    rw [if_neg (by rw [List.isEmpty_iff]; exact hleft)]
  refine ⟨(stream.drop (delivered s.calls).length).take k.toNat, ?_, ?_, rfl, ?_⟩
  · rw [List.take_eq_nil_iff, or_iff_left hleft, ← BitVec.toNat_inj]
    rfl
  · rw [Order1.getNextBuffer, hsome]
    rfl
  · rw [Order1.getNextBuffer, delivered_getNextBuffer, List.length_append]
    exact Nat.le_add_right _ _

theorem Order1.Continues.trans {s' s'' : Order1 α} (h : s.Continues s') (h' : s'.Continues s'') :
    s.Continues s'' :=
  ⟨h'.increment.trans h.increment, h.delivered.trans h'.delivered⟩

theorem Order1.Exhausted.continues {s' : Order1 α} (h : s.Exhausted stream)
    (hcontinues : s.Continues s') : s'.Exhausted stream :=
  Nat.le_trans h hcontinues.delivered

/-- Fetching ends, unless it gets an empty chunk. -/
theorem Order1.Ready.fetch {frac : U32} (done fuel : ℕ) (s : Order1 α) (inputIndex : ℕ)
    (h : s.Ready fmt ⟨inputIndex, frac⟩) (hk : k ≠ 0#32 ∨ s.Exhausted stream)
    (hempty : s.mBuffer.frameCount = 0) (hfuel : inputIndex < fuel) :
    ∃ filled s' inputIndex',
      Order1.fetch fmt (finite stream) k done fuel s inputIndex =
        some (filled, s', inputIndex') ∧
      s'.Ready fmt ⟨inputIndex', frac⟩ ∧ s.Continues s' ∧
      (filled = true → s'.mBuffer.frameCount ≠ 0) := by
  induction fuel generalizing s inputIndex with
  | zero => exact absurd hfuel (Nat.not_lt_zero _)
  | succ fuel ih =>
    rw [Order1.fetch, if_neg (not_not.mpr hempty)]
    dsimp only
    by_cases hend : s.Exhausted stream
    · obtain ⟨hbuffer, hcontinues⟩ :=
        hend.getNextBuffer fmt k (s.calculateOutputPTS done)
      rw [if_pos (congrArg Buffer.raw hbuffer)]
      refine ⟨false, _, inputIndex, rfl, ⟨fun hne => ?_, h.fraction, fun hne => ?_⟩, hcontinues,
        by simp⟩
      · exact absurd (congrArg Buffer.frameCount hbuffer) hne
      · exact absurd (congrArg Buffer.frameCount hbuffer) hne
    · obtain ⟨held, hheld, hbuffer, hcontinues⟩ :=
        Order1.getNextBuffer_finite hend fmt k (s.calculateOutputPTS done)
      have hne : held ≠ [] := fun hnil => hk.resolve_right hend (hheld.mp hnil)
      have hpos := List.length_pos_of_ne_nil hne
      generalize s.getNextBuffer fmt (finite stream) k (s.calculateOutputPTS done) = s₁ at *
      have hcount : s₁.mBuffer.frameCount = held.length := congrArg Buffer.frameCount hbuffer
      have hsamples : s₁.mBuffer.i16 = held.flatMap fmt.samples := by
        rw [Buffer.i16, hbuffer]
        rfl
      rw [if_neg (by rw [hbuffer]; simp)]
      split_ifs with hlt
      · refine ⟨true, s₁, inputIndex, rfl, ⟨fun _ => ⟨held, hsamples, hcount⟩, h.fraction,
          fun _ => hlt⟩, hcontinues, fun _ => Nat.ne_zero_of_lt hlt⟩
      · have hready : s₁.Ready fmt ⟨0, frac⟩ :=
          ⟨fun _ => ⟨held, hsamples, hcount⟩, h.fraction, fun _ => hcount ▸ hpos⟩
        obtain ⟨s₂, hfinish, hincrement, hdelivered, hempty'⟩ :=
          hready.finishBuffer (hcount ▸ hpos.ne')
        have hcontinues₂ : s.Continues s₂ :=
          ⟨hincrement.trans hcontinues.increment, hdelivered ▸ hcontinues.delivered⟩
        obtain ⟨filled, s', i, hrun, hready', hcontinues₃, hfilled⟩ :=
          ih s₂ (inputIndex - s₁.mBuffer.frameCount)
            ⟨fun hne => absurd hempty' hne, h.fraction, fun hne => absurd hempty' hne⟩
            (hk.imp_right fun hend => hend.continues hcontinues₂) hempty' (by omega)
        refine ⟨filled, s', i, ?_, hready', hcontinues₂.trans hcontinues₃, hfilled⟩
        rw [hfinish]
        exact hrun

/-- An empty chunk is read before its start. -/
theorem Order1.fetch_empty {done fuel : ℕ} (hend : ¬ s.Exhausted stream)
    (hempty : s.mBuffer.frameCount = 0) (inputIndex : ℕ) :
    Order1.fetch fmt (finite stream) 0#32 done fuel s inputIndex = none := by
  cases fuel with
  | zero => rfl
  | succ fuel =>
    rw [Order1.fetch, if_neg (not_not.mpr hempty)]
    dsimp only
    obtain ⟨held, hheld, hbuffer, -⟩ :=
      Order1.getNextBuffer_finite hend fmt 0#32 (s.calculateOutputPTS done)
    obtain rfl := hheld.mpr rfl
    generalize s.getNextBuffer fmt (finite stream) 0#32 (s.calculateOutputPTS done) = s₁ at *
    have hcount : s₁.mBuffer.frameCount = 0 := congrArg Buffer.frameCount hbuffer
    rw [if_neg (by simp [hbuffer]), if_neg (by omega), Order1.finishBuffer_empty hcount]
    rfl

/-- The call asks for frames, or has no need to, or there are none. -/
def Order1.Feeds (s : Order1 α) (stream : List α) (k : U32) (m : ℕ) (c : Cursor) : Prop :=
  k ≠ 0#32 ∨ s.Exhausted stream ∨ m = 0 ∨
    c.indexAfter s.mPhaseIncrement (m - 1) < s.mBuffer.frameCount

/-- The loop ends, and reads no sample before the start of a chunk. -/
theorem Order1.Ready.mainLoop (fuel done m : ℕ) (s : Order1 α) (c : Cursor)
    (h : s.Ready fmt c) (hinc : s.mPhaseIncrement.toNat ≤ 2 * 2 ^ kNumPhaseBits)
    (hfeeds : s.Feeds stream k m c) (hfuel : m < fuel) :
    ∃ out s' c', Order1.mainLoop fmt (finite stream) k fuel done m s c = some (out, s', c') ∧
      s'.Ready fmt c' ∧ s.Continues s' := by
  induction fuel generalizing done m s c with
  | zero => exact absurd hfuel (Nat.not_lt_zero _)
  | succ fuel ih =>
    rw [Order1.mainLoop]
    split_ifs with hm
    · exact ⟨[], s, c, rfl, h, rfl, le_rfl⟩
    · have hpos := Nat.pos_of_ne_zero hm
      -- with a chunk held, a pass over it and the passes after it
      have hpass (s₁ : Order1 α) (c₁ : Cursor) (h₁ : s₁.Ready fmt c₁) (hcontinues : s.Continues s₁)
          (hheld : s₁.mBuffer.frameCount ≠ 0) (hfeeds₁ : s₁.Feeds stream k m c₁) :
          ∃ out s' c', (do
            let d ← s₁.drain fmt m c₁
            let r ← Order1.mainLoop fmt (finite stream) k fuel (done + d.1.length)
              (m - d.1.length) d.2.1 d.2.2
            some (d.1 ++ r.1, r.2)) = some (out, s', c') ∧
              s'.Ready fmt c' ∧ s.Continues s' := by
        have hinc₁ : s₁.mPhaseIncrement.toNat ≤ 2 * 2 ^ kNumPhaseBits := by
          rw [hcontinues.increment]
          exact hinc
        obtain ⟨out, s₂, c₂, hdrain, hout⟩ := h₁.drain hheld hinc₁ hpos
        have hlen := hout.length
        have houtpos := hout.pos
        have hcontinues₂ := hcontinues.trans hout.continues
        have hfeeds₂ : s₂.Feeds stream k (m - out.length) c₂ := by
          rcases hfeeds₁ with hk | hend | hzero | hlast
          · exact Or.inl hk
          · exact Or.inr (Or.inl (hend.continues hout.continues))
          · exact absurd hzero hm
          · have hall := hout.all.mpr hlast
            exact Or.inr (Or.inr (Or.inl (by omega)))
        obtain ⟨rest, s₃, c₃, hrest, h₃, hcontinues₃⟩ := ih (done + out.length) (m - out.length) s₂
          c₂ hout.ready (by rw [hcontinues₂.increment]; exact hinc) hfeeds₂ (by omega)
        simp only [hdrain, hrest, Option.bind_eq_bind, Option.bind_some]
        exact ⟨_, s₃, c₃, rfl, h₃, hcontinues₂.trans hcontinues₃⟩
      by_cases hheld : s.mBuffer.frameCount = 0
      · have hk : k ≠ 0#32 ∨ s.Exhausted stream := by
          rcases hfeeds with hk | hend | hzero | hlast
          · exact Or.inl hk
          · exact Or.inr hend
          · exact absurd hzero hm
          · omega
        obtain ⟨filled, s₁, inputIndex, hfetch, h₁, hcontinues, hfilled⟩ :=
          Order1.Ready.fetch done (c.inputIndex + 1) s c.inputIndex h hk hheld
            (Nat.lt_succ_self _)
        simp only [hfetch, Option.bind_eq_bind, Option.bind_some]
        cases filled with
        | false =>
          rw [if_neg Bool.false_ne_true]
          exact ⟨[], s₁, _, rfl, h₁, hcontinues⟩
        | true =>
          rw [if_pos rfl]
          refine hpass s₁ ⟨inputIndex, c.phaseFraction⟩ h₁ hcontinues (hfilled rfl) ?_
          exact hk.imp_right fun hend => Or.inl (hend.continues hcontinues)
      · have hfetch : Order1.fetch fmt (finite stream) k done (c.inputIndex + 1) s
            c.inputIndex = some (true, s, c.inputIndex) := by
          rw [Order1.fetch, if_pos hheld]
        rw [hfetch]
        exact hpass s c h ⟨rfl, le_rfl⟩ hheld hfeeds

/-- A call that asks for no frames and needs one reads before the start of an empty chunk. -/
theorem Order1.Ready.mainLoop_none {fuel done m : ℕ} (h : s.Ready fmt c)
    (hinc : s.mPhaseIncrement.toNat ≤ 2 * 2 ^ kNumPhaseBits) (hend : ¬ s.Exhausted stream)
    (hm : m ≠ 0) (hlast : s.mBuffer.frameCount ≤ c.indexAfter s.mPhaseIncrement (m - 1)) :
    Order1.mainLoop fmt (finite stream) 0#32 fuel done m s c = none := by
  cases fuel with
  | zero => rfl
  | succ fuel =>
    rw [Order1.mainLoop, if_neg hm]
    by_cases hheld : s.mBuffer.frameCount = 0
    · rw [Order1.fetch_empty hend hheld]
      rfl
    · have hfetch : Order1.fetch fmt (finite stream) 0#32 done (c.inputIndex + 1) s
          c.inputIndex = some (true, s, c.inputIndex) := by
        rw [Order1.fetch, if_pos hheld]
      obtain ⟨out, s₁, c₁, hdrain, hout⟩ := h.drain hheld hinc (Nat.pos_of_ne_zero hm)
      have hfew : out.length < m :=
        Nat.lt_of_le_of_ne hout.length fun hall => Nat.not_lt.mpr hlast (hout.all.mp hall)
      have hempty := hout.released hfew
      have hnone : Order1.mainLoop fmt (finite stream) 0#32 fuel (done + out.length)
          (m - out.length) s₁ c₁ = none := by
        cases fuel with
        | zero => rfl
        | succ fuel =>
          have hend₁ : ¬ s₁.Exhausted stream := by
            rw [Order1.Exhausted, hout.delivered]
            exact hend
          rw [Order1.mainLoop, if_neg (by omega), Order1.fetch_empty hend₁ hempty]
          rfl
      have hpass : (do
          let d ← s.drain fmt m c
          let r ← Order1.mainLoop fmt (finite stream) 0#32 fuel (done + d.1.length)
            (m - d.1.length) d.2.1 d.2.2
          some (d.1 ++ r.1, r.2)) = none := by
        simp only [hdrain, hnone, Option.bind_eq_bind, Option.bind_some, Option.bind_none]
      rw [hfetch]
      exact hpass

theorem Order1.Ready.resample (h : s.Ready fmt s.cursor)
    (hinc : s.mPhaseIncrement.toNat ≤ 2 * 2 ^ kNumPhaseBits) {outFrameCount : U32}
    (hfeeds : s.Feeds stream (inFrameCount s outFrameCount) (outputFrames outFrameCount)
      s.cursor) :
    ∃ out s', Order1.resample fmt (finite stream) s outFrameCount = some (out, s') ∧
      s'.Ready fmt s'.cursor ∧ s'.mPhaseIncrement = s.mPhaseIncrement := by
  obtain ⟨out, s', c', hrun, hready, hcontinues⟩ :=
    Order1.Ready.mainLoop (outputFrames outFrameCount + 1) 0 (outputFrames outFrameCount) s
      s.cursor h hinc hfeeds (Nat.lt_succ_self _)
  refine ⟨out, { s' with mInputIndex := c'.inputIndex, mPhaseFraction := c'.phaseFraction }, ?_,
    ⟨hready.held, hready.fraction, hready.inside⟩, hcontinues.increment⟩
  simp only [Order1.resample, hrun, Option.bind_eq_bind, Option.bind_some]

theorem Order1.Ready.resample_none (h : s.Ready fmt s.cursor)
    (hinc : s.mPhaseIncrement.toNat ≤ 2 * 2 ^ kNumPhaseBits) {outFrameCount : U32}
    (hfeeds : ¬ s.Feeds stream (inFrameCount s outFrameCount) (outputFrames outFrameCount)
      s.cursor) :
    Order1.resample fmt (finite stream) s outFrameCount = none := by
  unfold Order1.Feeds at hfeeds
  push Not at hfeeds
  obtain ⟨hk, hend, hm, hlast⟩ := hfeeds
  simp only [Order1.resample, hk, h.mainLoop_none hinc hend hm hlast, Option.bind_eq_bind,
    Option.bind_none]

end Calls

/-! ## Every history of calls -/

inductive ResamplerEvent
  | setSampleRate (inSampleRate phaseIncrement : I32)
  | setVolume (left right : I16)
  | setPTS (pts : I64)
  | reset
  | resample (outFrameCount : U32)

/-- The phase increment is the ratio of the rates, which is at most two. -/
def resamplerStep (fmt : Format α) (answers : Answers α) (s : Order1 α) :
    ResamplerEvent → Option (Order1 α)
  | .setSampleRate inSampleRate phaseIncrement =>
    if phaseIncrement.toNat ≤ 2 * 2 ^ kNumPhaseBits then
      some { s with mInSampleRate := inSampleRate, mPhaseIncrement := phaseIncrement }
    else none
  | .setVolume left right => some { s with mVolume := (left, right) }
  | .setPTS pts => some { s with mPTS := pts }
  | .reset =>
    some
      { s with
        mInputIndex := 0
        mPhaseFraction := 0#32
        mBuffer := { s.mBuffer with frameCount := 0 } }
  | .resample outFrameCount => (Order1.resample fmt answers s outFrameCount).map Prod.snd

/-- The cursor saved is one in the buffer held. -/
structure Order1.Resumes (s : Order1 α) (fmt : Format α) : Prop where
  ready : s.Ready fmt s.cursor
  increment : s.mPhaseIncrement.toNat ≤ 2 * 2 ^ kNumPhaseBits

theorem Order1.Resumes.step {stream : List α} (s : Order1 α) (e : ResamplerEvent) (s' : Order1 α)
    (hstep : resamplerStep fmt (finite stream) s e = some s') (h : s.Resumes fmt) :
    s'.Resumes fmt := by
  cases e with
  | setSampleRate inSampleRate phaseIncrement =>
    simp only [resamplerStep, Option.ite_none_right_eq_some, Option.some.injEq] at hstep
    obtain ⟨hinc, rfl⟩ := hstep
    exact ⟨⟨h.ready.held, h.ready.fraction, h.ready.inside⟩, hinc⟩
  | setVolume left right =>
    cases hstep
    exact ⟨⟨h.ready.held, h.ready.fraction, h.ready.inside⟩, h.increment⟩
  | setPTS pts =>
    cases hstep
    exact ⟨⟨h.ready.held, h.ready.fraction, h.ready.inside⟩, h.increment⟩
  | reset =>
    cases hstep
    exact ⟨⟨fun hne => absurd rfl hne, Nat.two_pow_pos _, fun hne => absurd rfl hne⟩, h.increment⟩
  | resample outFrameCount =>
    by_cases hfeeds : s.Feeds stream (inFrameCount s outFrameCount) (outputFrames outFrameCount)
        s.cursor
    · obtain ⟨out, s₁, hrun, hready, hincrement⟩ := h.ready.resample h.increment hfeeds
      rw [resamplerStep, hrun] at hstep
      cases hstep
      exact ⟨hready, hincrement ▸ h.increment⟩
    · rw [resamplerStep, h.ready.resample_none h.increment hfeeds] at hstep
      cases hstep

/-- In every history of calls, a call of `resample` returns, without a read before the start of a
chunk, exactly when it asks for a frame at a time, needs none, or there are none. -/
theorem resample_ends (fmt : Format α) (stream : List α)
    (sampleRate inSampleRate phaseIncrement : I32) (localTimeFreq : BitVec 64)
    (hinc : phaseIncrement.toNat ≤ 2 * 2 ^ kNumPhaseBits) (es : List ResamplerEvent) (s : Order1 α)
    (hrun : run (resamplerStep fmt (finite stream))
      (.new fmt sampleRate inSampleRate phaseIncrement localTimeFreq) es = some s)
    (outFrameCount : U32) :
    (Order1.resample fmt (finite stream) s outFrameCount).isSome = true ↔
      s.Feeds stream (inFrameCount s outFrameCount) (outputFrames outFrameCount) s.cursor := by
  have hnew : (Order1.new fmt sampleRate inSampleRate phaseIncrement localTimeFreq).Resumes fmt :=
    ⟨⟨fun hne => absurd rfl hne, Nat.two_pow_pos _, fun hne => absurd rfl hne⟩, hinc⟩
  have h : s.Resumes fmt := run_invariant Order1.Resumes.step hrun hnew
  constructor
  · intro hends
    by_contra hfeeds
    rw [h.ready.resample_none h.increment hfeeds] at hends
    exact Bool.noConfusion hends
  · intro hfeeds
    obtain ⟨out, s', hresample, -⟩ := h.ready.resample h.increment hfeeds
    rw [hresample]
    rfl

/-- A call for five frames at half the rate, one for a frame in the chunk held, and one for two. -/
theorem resample_ends_twice : ∃ s,
    run (resamplerStep mono (finite [1#16, 2#16, 3#16, 4#16, 5#16, 6#16]))
      (.new mono 44100#32 22050#32 0x20000000#32 1000000#64)
      [.setVolume 0x1000#16 0x1000#16, .resample 5#32, .resample 1#32] = some s ∧
    (Order1.resample mono (finite [1#16, 2#16, 3#16, 4#16, 5#16, 6#16]) s 2#32).isSome = true := by
  obtain ⟨s, hs⟩ : ∃ s, run (resamplerStep mono (finite [1#16, 2#16, 3#16, 4#16, 5#16, 6#16]))
      (.new mono 44100#32 22050#32 0x20000000#32 1000000#64)
      [.setVolume 0x1000#16 0x1000#16, .resample 5#32, .resample 1#32] = some s := ⟨_, rfl⟩
  have hasks : (run (resamplerStep mono (finite [1#16, 2#16, 3#16, 4#16, 5#16, 6#16]))
      (.new mono 44100#32 22050#32 0x20000000#32 1000000#64)
      [.setVolume 0x1000#16 0x1000#16, .resample 5#32, .resample 1#32]).map
        (fun s => inFrameCount s 2#32) = some 1#32 := rfl
  rw [hs, Option.map_some, Option.some_inj] at hasks
  refine ⟨s, hs, (resample_ends mono [1#16, 2#16, 3#16, 4#16, 5#16, 6#16] 44100#32 22050#32
    0x20000000#32 1000000#64 (by decide) _ s hs 2#32).mpr (Or.inl ?_)⟩
  rw [hasks]
  decide

/-- The first call is for one frame at half the rate: it asks for none. -/
theorem oneFrame_readsBefore :
    inFrameCount (.new mono 44100#32 22050#32 0x20000000#32 1000000#64) 1#32 = 0#32 ∧
      Order1.resample mono (finite [1#16, 2#16])
        (.new mono 44100#32 22050#32 0x20000000#32 1000000#64) 1#32 = none :=
  ⟨by decide, rfl⟩

end AudioFlinger.Resampler
