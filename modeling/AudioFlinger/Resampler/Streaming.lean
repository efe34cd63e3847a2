import AudioFlinger.Foundation.Machine
import AudioFlinger.Resampler.Model

/-!
# Resampling a stream

A cursor and the frames before the chunk held give a position in the stream,
which advances by the phase increment with each frame of the output. Fetching,
finishing and holding over a chunk move the bound between the frames past and
held, and leave the position as it is.
-/

namespace AudioFlinger.Resampler

open Foundation Interpolation
open Mixer (I16 I32 I64)

variable {α : Type} {fmt : Format α} {p : Provider α} {inc : U32}

/-- Frame `n` of the linear interpolation of the stream `xs`. -/
def interpolated (fmt : Format α) (volume : I16 × I16) (inc : U32) (xs : List α) :
    ℕ → Option (I32 × I32) :=
  itemAt (fun x0 x1 frac => frameOf fmt volume x0 x1 (BitVec.ofNat 32 frac)) fmt.zero
    (2 ^ kNumPhaseBits) inc.toNat xs

theorem interpolated_of_isPrefix {volume : I16 × I16} {xs ys : List α} (h : xs <+: ys) (n : ℕ)
    (frame : I32 × I32) (hframe : interpolated fmt volume inc xs n = some frame) :
    interpolated fmt volume inc ys n = some frame := by
  obtain ⟨zs, rfl⟩ := h
  exact itemAt_append hframe

/-! ## Cursors -/

/-- The cursor is where frame `n` lies, in the frames from `start` on. -/
structure Cursor.At (c : Cursor) (inc : U32) (start n : ℕ) : Prop where
  position : (start + c.inputIndex) * 2 ^ kNumPhaseBits + c.phaseFraction.toNat = n * inc.toNat
  fraction : c.phaseFraction.toNat < 2 ^ kNumPhaseBits

theorem Cursor.toNat_Advance {c : Cursor} (hinc : inc.toNat ≤ 2 * 2 ^ kNumPhaseBits)
    (hfraction : c.phaseFraction.toNat < 2 ^ kNumPhaseBits) :
    (c.Advance inc).inputIndex =
        c.inputIndex + (c.phaseFraction.toNat + inc.toNat) / 2 ^ kNumPhaseBits ∧
      (c.Advance inc).phaseFraction.toNat =
        (c.phaseFraction.toNat + inc.toNat) % 2 ^ kNumPhaseBits := by
  have hsum : (c.phaseFraction + inc).toNat = c.phaseFraction.toNat + inc.toNat := by
    unfold kNumPhaseBits at *
    rw [BitVec.toNat_add, Nat.mod_eq_of_lt (by lia)]
  have hmask : kPhaseMask.toNat = 2 ^ kNumPhaseBits - 1 := rfl
  constructor
  · simp only [Cursor.Advance, BitVec.toNat_ushiftRight, hsum, Nat.shiftRight_eq_div_pow]
  · simp only [Cursor.Advance, BitVec.toNat_and, hmask, hsum, Nat.and_two_pow_sub_one_eq_mod]

theorem Cursor.At.advance {c : Cursor} {start n : ℕ} (hinc : inc.toNat ≤ 2 * 2 ^ kNumPhaseBits)
    (h : c.At inc start n) : (c.Advance inc).At inc start (n + 1) := by
  obtain ⟨hindex, hphase⟩ := Cursor.toNat_Advance hinc h.fraction
  refine ⟨?_, ?_⟩
  · rw [hindex, hphase, ← Nat.add_assoc, carry, h.position, Nat.succ_mul]
  · rw [hphase]
    exact Nat.mod_lt _ (Nat.two_pow_pos _)

/-- The first `k` of the frames are past. -/
theorem Cursor.At.skip {c : Cursor} {start n k : ℕ} (h : c.At inc start n)
    (hk : k ≤ c.inputIndex) :
    Cursor.At { c with inputIndex := c.inputIndex - k } inc (start + k) n := by
  refine ⟨?_, h.fraction⟩
  have hindex : start + k + (c.inputIndex - k) = start + c.inputIndex := by omega
  dsimp only
  rw [hindex]
  exact h.position

theorem Cursor.Advance_inputIndex (c : Cursor) (inc : U32) :
    c.inputIndex ≤ (c.Advance inc).inputIndex := Nat.le_add_right _ _

theorem Cursor.At.interpolated {c : Cursor} {start n : ℕ} {xs : List α} {x0 x1 : α}
    (h : c.At inc start n) (volume : I16 × I16)
    (h0 : (fmt.zero :: xs)[start + c.inputIndex]? = some x0)
    (h1 : xs[start + c.inputIndex]? = some x1) :
    interpolated fmt volume inc xs n = some (frameOf fmt volume x0 x1 c.phaseFraction) := by
  rw [Resampler.interpolated, itemAt_of_taps h.position h.fraction h0 h1, BitVec.ofNat_toNat,
    BitVec.setWidth_eq]

/-! ## The two loops -/

/-- A loop from frame `n` on leaves `out` of at most `m` frames and the cursor `c'`. -/
structure Emits (fmt : Format α) (volume : I16 × I16) (inc : U32) (xs : List α) (goes : ℕ → Bool)
    (start n m : ℕ) (c : Cursor) (out : List (I32 × I32)) (c' : Cursor) : Prop where
  frames : Segment (interpolated fmt volume inc xs) n out
  cursor : c'.At inc start (n + out.length)
  length : out.length ≤ m
  stops : out.length = m ∨ goes c'.inputIndex = false
  le : c.inputIndex ≤ c'.inputIndex
  same : out = [] → c' = c

/-- The loop emits the interpolation of `xs` if `taps` are frames of it from index `low` on. -/
theorem emitWhile_emits (hinc : inc.toNat ≤ 2 * 2 ^ kNumPhaseBits) {volume : I16 × I16}
    {goes : ℕ → Bool} {taps : ℕ → Option (α × α)} {xs : List α} {start low : ℕ}
    (htaps : ∀ i, low ≤ i → goes i = true → ∃ x0 x1, taps i = some (x0, x1) ∧
      (fmt.zero :: xs)[start + i]? = some x0 ∧ xs[start + i]? = some x1)
    (m n : ℕ) (c : Cursor) (hc : c.At inc start n) (hlow : m = 0 ∨ low ≤ c.inputIndex) :
    ∃ out c', emitWhile fmt volume inc goes taps m c = some (out, c') ∧
      Emits fmt volume inc xs goes start n m c out c' := by
  induction m generalizing n c with
  | zero => exact ⟨[], c, rfl, .nil, hc, le_rfl, Or.inl rfl, le_rfl, fun _ => rfl⟩
  | succ m ih =>
    rw [emitWhile]
    split_ifs with hgoes
    · have hle := hlow.resolve_left (Nat.succ_ne_zero m)
      obtain ⟨x0, x1, htap, h0, h1⟩ := htaps c.inputIndex hle hgoes
      have hnext := Cursor.Advance_inputIndex c inc
      obtain ⟨out, c', hrun, h⟩ :=
        ih (n + 1) (c.Advance inc) (hc.advance hinc) (Or.inr (hle.trans hnext))
      refine ⟨frameOf fmt volume x0 x1 c.phaseFraction :: out, c', ?_, ?_⟩
      · rw [htap]
        simp only [Option.bind_eq_bind, Option.bind_some, hrun]
      have hlength : n + 1 + out.length = n + (out.length + 1) := by omega
      refine ⟨h.frames.cons (hc.interpolated volume h0 h1), ?_, ?_, ?_, hnext.trans h.le, nofun⟩
      · rw [List.length_cons, ← hlength]
        exact h.cursor
      · exact Nat.succ_le_succ h.length
      · exact h.stops.imp_left (congrArg Nat.succ)
    · exact ⟨[], c, rfl, .nil, hc, Nat.zero_le _, Or.inr (eq_false_of_ne_true hgoes), le_rfl,
        fun _ => rfl⟩

theorem Emits.progress {volume : I16 × I16} {xs : List α} {goes : ℕ → Bool} {start n m : ℕ}
    {c c' : Cursor} {out : List (I32 × I32)}
    (h : Emits fmt volume inc xs goes start n m c out c') (hm : 0 < m)
    (hgoes : goes c.inputIndex = true) : 0 < out.length := by
  by_contra hzero
  have hnil : out = [] := List.eq_nil_of_length_eq_zero (by omega)
  rcases h.stops with hlen | hstop
  · omega
  · rw [h.same hnil, hgoes] at hstop
    exact Bool.noConfusion hstop

/-! ## Buffers -/

/-- The state of the resampler between the frames `past` and the chunk `held`. -/
structure Order1.Holds (s : Order1 α) (fmt : Format α) (past held : List α) : Prop where
  delivered : delivered s.calls = past ++ held
  samples : s.mBuffer.i16 = held.flatMap fmt.samples
  frameCount : s.mBuffer.frameCount = held.length
  last : (fmt.zero :: past)[past.length]? = some s.mX0

/-- What later calls of the provider keep. -/
structure Order1.Extends (s : Order1 α) (p : Provider α) (s' : Order1 α) : Prop where
  calls : s.calls <+: s'.calls
  log : p.Log s.calls → p.Log s'.calls
  volume : s'.mVolume = s.mVolume
  increment : s'.mPhaseIncrement = s.mPhaseIncrement

theorem Order1.Extends.refl (s : Order1 α) : s.Extends p s := ⟨List.prefix_rfl, id, rfl, rfl⟩

theorem Order1.Extends.trans {s s' s'' : Order1 α} (h : s.Extends p s') (h' : s'.Extends p s'') :
    s.Extends p s'' :=
  ⟨h.calls.trans h'.calls, h'.log ∘ h.log, h'.volume.trans h.volume, h'.increment.trans h.increment⟩

theorem delivered_append (calls calls' : List (Call α)) :
    delivered (calls ++ calls') = delivered calls ++ delivered calls' := List.flatMap_append

@[simp] theorem delivered_getNextBuffer (calls : List (Call α)) (frameCount : U32) (pts : I64)
    (answer : Option (List α)) :
    delivered (calls ++ [.getNextBuffer frameCount pts answer]) =
      delivered calls ++ answer.getD [] := by
  rw [delivered_append]
  cases answer <;> simp [delivered]

@[simp] theorem delivered_releaseBuffer (calls : List (Call α)) (frameCount : ℕ) :
    delivered (calls ++ [.releaseBuffer frameCount]) = delivered calls := by
  simp [delivered]

theorem Order1.Extends.delivered {s s' : Order1 α} (h : s.Extends p s') :
    delivered s.calls <+: delivered s'.calls := by
  obtain ⟨calls, hcalls⟩ := h.calls
  rw [← hcalls, delivered_append]
  exact List.prefix_append _ _

theorem Order1.Holds.read {s : Order1 α} {past held : List α} (h : s.Holds fmt past held) (i : ℕ) :
    fmt.read s.mBuffer.i16 i = held[i]? := by rw [h.samples, fmt.read_samples]

/-- The frame before `i` in the chunk is the one before in the stream. -/
theorem Order1.Holds.readBack {s : Order1 α} {past held : List α} (h : s.Holds fmt past held)
    {i : ℕ} (hi : i ≠ 0) :
    fmt.readBack s.mBuffer.i16 i = (fmt.zero :: (past ++ held))[past.length + i]? := by
  obtain ⟨i, rfl⟩ := Nat.exists_eq_succ_of_ne_zero hi
  rw [Format.readBack, h.read, Nat.add_succ, List.getElem?_cons_succ,
    List.getElem?_append_right (Nat.le_add_right _ _), Nat.add_sub_cancel_left]

theorem Order1.Holds.last_append {s : Order1 α} {past held : List α} (h : s.Holds fmt past held) :
    (fmt.zero :: (past ++ held))[past.length]? = some s.mX0 := by
  have hlt : past.length < (fmt.zero :: past).length := Nat.lt_succ_self _
  rw [← List.cons_append, List.getElem?_append_left hlt]
  exact h.last

/-- A chunk whose frames are past is released, and its last frame kept. -/
theorem Order1.Holds.finishBuffer {s : Order1 α} {past held : List α} (h : s.Holds fmt past held)
    (hheld : held ≠ []) :
    ∃ s', s.finishBuffer fmt = some s' ∧ s'.Holds fmt (past ++ held) [] ∧
      ∀ p : Provider α, s.Extends p s' := by
  have hpos : held.length ≠ 0 := fun hzero => hheld (List.eq_nil_of_length_eq_zero hzero)
  have hlt : past.length + held.length < (fmt.zero :: (past ++ held)).length := by simp
  have hlast := h.readBack hpos
  rw [List.getElem?_eq_getElem hlt] at hlast
  have hfinish : s.finishBuffer fmt = some (Order1.releaseBuffer { s with
      mX0 := (fmt.zero :: (past ++ held))[past.length + held.length] }) := by
    rw [Order1.finishBuffer, h.frameCount, hlast]
    rfl
  refine ⟨_, hfinish, ⟨?_, rfl, rfl, ?_⟩,
    fun p => ⟨List.prefix_append _ _, fun h => h.releaseBuffer _, rfl, rfl⟩⟩
  · simp [Order1.releaseBuffer, h.delivered]
  · rw [List.length_append]
    exact List.getElem?_eq_getElem hlt

/-- The provider has answered `NULL`. -/
def Order1.Starved (s : Order1 α) : Prop :=
  ∃ frameCount pts, .getNextBuffer frameCount pts none ∈ s.calls

/-- Asking for a chunk while none is held. -/
theorem Order1.Holds.getNextBuffer {s : Order1 α} {past : List α} (h : s.Holds fmt past [])
    (frameCount : U32) (pts : I64) :
    s.Extends p (s.getNextBuffer fmt p.answer frameCount pts) ∧
      ((∃ held, held ≠ [] ∧ (s.getNextBuffer fmt p.answer frameCount pts).mBuffer.raw ≠ none ∧
          (s.getNextBuffer fmt p.answer frameCount pts).Holds fmt past held) ∨
        (s.getNextBuffer fmt p.answer frameCount pts).mBuffer.raw = none ∧
          (s.getNextBuffer fmt p.answer frameCount pts).Starved ∧
          (s.getNextBuffer fmt p.answer frameCount pts).Holds fmt past []) := by
  refine ⟨⟨List.prefix_append _ _, fun h => h.getNextBuffer _ _, rfl, rfl⟩, ?_⟩
  have hpast := h.delivered
  rw [List.append_nil] at hpast
  cases hanswer : p.answer s.calls frameCount pts with
  | some held =>
    refine Or.inl ⟨held, p.nonempty _ _ _ _ hanswer, ?_, ?_, ?_, ?_, h.last⟩
    · simp [Order1.getNextBuffer, hanswer]
    · simp [Order1.getNextBuffer, hanswer, hpast]
    · simp [Order1.getNextBuffer, hanswer, Buffer.i16]
    · simp [Order1.getNextBuffer, hanswer]
  | none =>
    refine Or.inr ⟨?_, ⟨frameCount, pts, ?_⟩, ?_, ?_, ?_, h.last⟩
    · simp [Order1.getNextBuffer, hanswer]
    · simp [Order1.getNextBuffer, hanswer]
    · simp [Order1.getNextBuffer, hanswer, hpast]
    · simp [Order1.getNextBuffer, hanswer, Buffer.i16]
    · simp [Order1.getNextBuffer, hanswer]

/-! ## The main loop -/

/-- The cursor lies where frame `n` does, and in the chunk held if there is one. -/
def Order1.Placed (s : Order1 α) (fmt : Format α) (c : Cursor) (n : ℕ) : Prop :=
  ∃ past held, s.Holds fmt past held ∧ c.At s.mPhaseIncrement past.length n ∧
    (held ≠ [] → c.inputIndex < held.length)

theorem Order1.fetch_placed (inFrameCount : U32) (done : ℕ) {n : ℕ} {phaseFraction : U32}
    (fuel : ℕ) (s : Order1 α) (inputIndex : ℕ) (h : s.Placed fmt ⟨inputIndex, phaseFraction⟩ n)
    (hfuel : inputIndex < fuel) :
    ∃ filled s' inputIndex',
      Order1.fetch fmt p.answer inFrameCount done fuel s inputIndex = some (filled, s', inputIndex') ∧
      s'.Placed fmt ⟨inputIndex', phaseFraction⟩ n ∧ s.Extends p s' ∧
      (filled = true → s'.mBuffer.frameCount ≠ 0) ∧ (filled = false → s'.Starved) := by
  induction fuel generalizing s inputIndex with
  | zero => exact absurd hfuel (Nat.not_lt_zero _)
  | succ fuel ih =>
    rw [Order1.fetch]
    split_ifs with hbuffer
    · exact ⟨true, s, inputIndex, rfl, h, .refl s, fun _ => hbuffer, nofun⟩
    · obtain ⟨past, held, hholds, hat, -⟩ := h
      have hheld : held = [] := by
        apply List.eq_nil_of_length_eq_zero
        rw [← hholds.frameCount]
        exact not_not.mp hbuffer
      subst hheld
      obtain ⟨hext, ⟨held, hheld, hraw, hnew⟩ | ⟨hraw, hstarved, hnew⟩⟩ :=
        hholds.getNextBuffer (p := p) inFrameCount (s.calculateOutputPTS done)
      · rw [← hext.increment] at hat
        dsimp only
        rw [if_neg hraw]
        split_ifs with hlt
        · refine ⟨true, _, inputIndex, rfl, ⟨past, held, hnew, hat, fun _ => ?_⟩, hext, ?_, nofun⟩
          · rw [← hnew.frameCount]
            exact hlt
          · exact fun _ => Nat.ne_zero_of_lt hlt
        · obtain ⟨s', hfinish, hpast, hext'⟩ := hnew.finishBuffer hheld
          rw [hnew.frameCount, not_lt] at hlt
          have hpos := List.length_pos_iff.mpr hheld
          have hplaced : s'.Placed fmt ⟨inputIndex - held.length, phaseFraction⟩ n := by
            refine ⟨past ++ held, [], hpast, ?_, fun hne => absurd rfl hne⟩
            rw [List.length_append, (hext' p).increment]
            exact hat.skip hlt
          obtain ⟨filled, s'', i, hrun, hplaced', hext'', hresult⟩ :=
            ih s' (inputIndex - held.length) hplaced (by omega)
          refine ⟨filled, s'', i, ?_, hplaced', hext.trans ((hext' p).trans hext''), hresult⟩
          rw [hfinish, hnew.frameCount]
          exact hrun
      · rw [← hext.increment] at hat
        dsimp only
        rw [if_pos hraw]
        exact ⟨false, _, inputIndex, rfl, ⟨past, [], hnew, hat, fun hne => absurd rfl hne⟩, hext,
          nofun, fun _ => hstarved⟩

/-- From frame `n` on, `out` of at most `m` frames. -/
structure Order1.Resampled (s : Order1 α) (fmt : Format α) (p : Provider α) (n m : ℕ) (out : List (I32 × I32))
    (s' : Order1 α) (c' : Cursor) : Prop where
  placed : s'.Placed fmt c' (n + out.length)
  frames : Segment (interpolated fmt s.mVolume s.mPhaseIncrement (delivered s'.calls)) n out
  extends_ : s.Extends p s'
  length : out.length ≤ m

variable {s : Order1 α} {past held : List α} {c : Cursor} {n m : ℕ}

theorem Order1.Holds.boundaryLoop (h : s.Holds fmt past held) (hheld : held ≠ [])
    (hinc : s.mPhaseIncrement.toNat ≤ 2 * 2 ^ kNumPhaseBits)
    (hat : c.At s.mPhaseIncrement past.length n) :
    ∃ out c', s.boundaryLoop fmt m c = some (out, c') ∧
      Emits fmt s.mVolume s.mPhaseIncrement (past ++ held) (fun i => i = 0) past.length n m c
        out c' := by
  apply emitWhile_emits hinc
  · intro i _ hi
    have hzero : i = 0 := of_decide_eq_true hi
    obtain ⟨x1, hx1⟩ : ∃ x1, held[0]? = some x1 :=
      ⟨_, List.getElem?_eq_getElem (List.length_pos_iff.mpr hheld)⟩
    refine ⟨s.mX0, x1, ?_, ?_, ?_⟩
    · rw [h.read, hx1]
      rfl
    · rw [hzero]
      exact h.last_append
    · rw [List.getElem?_append_right (Nat.le_add_right _ _), Nat.add_sub_cancel_left, hzero]
      exact hx1
  · exact hat
  · exact Or.inr (Nat.zero_le _)

theorem Order1.Holds.generalLoop (h : s.Holds fmt past held)
    (hinc : s.mPhaseIncrement.toNat ≤ 2 * 2 ^ kNumPhaseBits)
    (hat : c.At s.mPhaseIncrement past.length n) (hlow : m = 0 ∨ 1 ≤ c.inputIndex) :
    ∃ out c', s.generalLoop fmt m c = some (out, c') ∧
      Emits fmt s.mVolume s.mPhaseIncrement (past ++ held)
        (fun i => i < s.mBuffer.frameCount) past.length n m c out c' := by
  apply emitWhile_emits hinc ?_ _ _ _ hat hlow
  intro i hi hgoes
  have hlt : i < held.length := by
    rw [← h.frameCount]
    exact of_decide_eq_true hgoes
  obtain ⟨x0, hx0⟩ : ∃ x0, (fmt.zero :: (past ++ held))[past.length + i]? = some x0 := by
    refine ⟨_, List.getElem?_eq_getElem ?_⟩
    rw [List.length_cons, List.length_append]
    omega
  obtain ⟨x1, hx1⟩ : ∃ x1, held[i]? = some x1 := ⟨_, List.getElem?_eq_getElem hlt⟩
  refine ⟨x0, x1, ?_, hx0, ?_⟩
  · rw [h.readBack (Nat.one_le_iff_ne_zero.mp hi), h.read, hx0, hx1]
    rfl
  · rw [List.getElem?_append_right (Nat.le_add_right _ _), Nat.add_sub_cancel_left]
    exact hx1

/-- With a chunk held, a pass over it emits at least a frame. -/
theorem Order1.Placed.drain (h : s.Placed fmt c n) (hbuffer : s.mBuffer.frameCount ≠ 0)
    (hinc : s.mPhaseIncrement.toNat ≤ 2 * 2 ^ kNumPhaseBits) (hm : 0 < m) :
    ∃ out s' c', s.drain fmt m c = some (out, s', c') ∧
      s.Resampled fmt p n m out s' c' ∧ 0 < out.length := by
  obtain ⟨past, held, hholds, hat, hinside⟩ := h
  have hheld : held ≠ [] := by
    rintro rfl
    exact hbuffer hholds.frameCount
  obtain ⟨boundary, c₁, hboundary, h₁⟩ := hholds.boundaryLoop (m := m) hheld hinc hat
  have hlow : m - boundary.length = 0 ∨ 1 ≤ c₁.inputIndex := by
    refine h₁.stops.imp (fun hall => ?_) fun hstop => ?_
    · omega
    · exact Nat.one_le_iff_ne_zero.mpr (of_decide_eq_false hstop)
  obtain ⟨general, c₂, hgeneral, h₂⟩ := hholds.generalLoop hinc h₁.cursor hlow
  have hlen₁ := h₁.length
  have hlen₂ := h₂.length
  have hlength : n + boundary.length + general.length = n + (boundary ++ general).length := by
    rw [List.length_append, Nat.add_assoc]
  have hcursor := h₂.cursor
  rw [hlength] at hcursor
  have hframes := h₁.frames.append h₂.frames
  have hle : (boundary ++ general).length ≤ m := by
    rw [List.length_append]
    omega
  have hpos : 0 < (boundary ++ general).length := by
    rw [List.length_append]
    by_cases hzero : c.inputIndex = 0
    · have := h₁.progress hm (decide_eq_true hzero)
      omega
    · by_cases hnil : boundary = []
      · subst hnil
        have hsame := h₁.same rfl
        subst hsame
        have hgoes : c₁.inputIndex < s.mBuffer.frameCount := by
          rw [hholds.frameCount]
          exact hinside hheld
        exact Nat.lt_of_lt_of_le (h₂.progress hm (decide_eq_true hgoes)) (Nat.le_add_left _ _)
      · have := List.length_pos_iff.mpr hnil
        omega
  simp only [Order1.drain, hboundary, hgeneral, Option.bind_eq_bind, Option.bind_some]
  split_ifs with hdone
  · obtain ⟨s', hfinish, hpast, hext⟩ := hholds.finishBuffer hheld
    rw [hholds.frameCount] at hdone
    rw [hfinish, Option.bind_some]
    refine ⟨_, s', _, rfl, ⟨⟨past ++ held, [], hpast, ?_, fun hne => absurd rfl hne⟩, ?_, hext p, hle⟩,
      hpos⟩
    · rw [List.length_append, (hext p).increment, hholds.frameCount]
      exact hcursor.skip hdone
    · rw [hpast.delivered, List.append_nil]
      exact hframes
  · rw [hholds.frameCount, not_le] at hdone
    refine ⟨_, s, c₂, rfl, ⟨⟨past, held, hholds, hcursor, fun _ => hdone⟩, ?_, .refl s, hle⟩, hpos⟩
    rw [hholds.delivered]
    exact hframes

/-- The loop emits all its frames, unless the provider answers `NULL`. -/
theorem Order1.mainLoop_resampled (inFrameCount : U32) (fuel done m n : ℕ) (s : Order1 α)
    (c : Cursor) (h : s.Placed fmt c n) (hinc : s.mPhaseIncrement.toNat ≤ 2 * 2 ^ kNumPhaseBits)
    (hfuel : m < fuel) :
    ∃ out s' c', Order1.mainLoop fmt p.answer inFrameCount fuel done m s c = some (out, s', c') ∧
      s.Resampled fmt p n m out s' c' ∧ (out.length = m ∨ s'.Starved) := by
  induction fuel generalizing done m n s c with
  | zero => exact absurd hfuel (Nat.not_lt_zero _)
  | succ fuel ih =>
    rw [Order1.mainLoop]
    split_ifs with hm
    · exact ⟨[], s, c, rfl, ⟨h, .nil, .refl s, Nat.zero_le _⟩, Or.inl hm.symm⟩
    · obtain ⟨filled, s₁, inputIndex, hfetch, hplaced, hext, hfull, hstarved⟩ :=
        Order1.fetch_placed (p := p) inFrameCount done
          (c.inputIndex + 1) s c.inputIndex h (Nat.lt_succ_self _)
      simp only [hfetch, Option.bind_eq_bind, Option.bind_some]
      cases filled with
      | false =>
        rw [if_neg Bool.false_ne_true]
        exact ⟨[], s₁, _, rfl, ⟨hplaced, .nil, hext, Nat.zero_le _⟩, Or.inr (hstarved rfl)⟩
      | true =>
        rw [if_pos rfl]
        have hinc₁ : s₁.mPhaseIncrement.toNat ≤ 2 * 2 ^ kNumPhaseBits := by rwa [hext.increment]
        obtain ⟨out, s₂, c₂, hdrain, hout, hpos⟩ :=
          hplaced.drain (p := p) (hfull rfl) hinc₁ (Nat.pos_of_ne_zero hm)
        have hlen := hout.length
        have hinc₂ : s₂.mPhaseIncrement.toNat ≤ 2 * 2 ^ kNumPhaseBits := by
          rwa [hout.extends_.increment]
        obtain ⟨rest, s₃, c₃, hrest, hmore, hend⟩ :=
          ih (done + out.length) (m - out.length) (n + out.length) s₂ c₂ hout.placed hinc₂ (by lia)
        have hlen' := hmore.length
        simp only [hdrain, hrest, Option.bind_some]
        refine ⟨_, s₃, c₃, rfl, ⟨?_, ?_, ?_, ?_⟩, hend.imp_left fun hall => ?_⟩
        · rw [List.length_append, ← Nat.add_assoc]
          exact hmore.placed
        · have hframes := hmore.frames
          rw [hout.extends_.volume, hout.extends_.increment] at hframes
          have hfirst := hout.frames.mono (interpolated_of_isPrefix hmore.extends_.delivered)
          rw [← hext.volume, ← hext.increment]
          exact hfirst.append hframes
        · exact hext.trans (hout.extends_.trans hmore.extends_)
        · rw [List.length_append]
          lia
        · rw [List.length_append, hall]
          lia

/-! ## Runs -/

theorem Order1.resample_resampled (s : Order1 α) (outFrameCount : U32) (h : s.Placed fmt s.cursor n)
    (hinc : s.mPhaseIncrement.toNat ≤ 2 * 2 ^ kNumPhaseBits) :
    ∃ out s', Order1.resample fmt p.answer s outFrameCount = some (out, s') ∧
      s.Resampled fmt p n (outputFrames outFrameCount) out s' s'.cursor ∧
        (out.length = outputFrames outFrameCount ∨ s'.Starved) := by
  obtain ⟨out, s', c', hrun, hout, hend⟩ :=
    Order1.mainLoop_resampled (p := p) (inFrameCount s outFrameCount) _ 0 _ n s s.cursor h hinc
      (Nat.lt_succ_self (outputFrames outFrameCount))
  have hcall : Order1.resample fmt p.answer s outFrameCount = some (out, { s' with
      mInputIndex := c'.inputIndex, mPhaseFraction := c'.phaseFraction }) := by
    simp only [Order1.resample, hrun, Option.bind_eq_bind, Option.bind_some]
  refine ⟨out, _, hcall, ⟨?_, hout.frames, { hout.extends_ with }, hout.length⟩, hend⟩
  obtain ⟨past, held, hholds, hat, hinside⟩ := hout.placed
  exact ⟨past, held, ⟨hholds.delivered, hholds.samples, hholds.frameCount, hholds.last⟩, hat,
    hinside⟩

/-- A call of `resample`, after which volume and time may be set anew. -/
structure Request where
  volume : I16 × I16
  pts : I64
  outFrameCount : U32

def Request.frames (r : Request) : ℕ := outputFrames r.outFrameCount

/-- A resampler and the frames it has added to its outputs, each with the volume of its call. -/
structure Session (α : Type) where
  resampler : Order1 α
  output : List ((I16 × I16) × (I32 × I32))

def Session.new (fmt : Format α) (sampleRate inSampleRate phaseIncrement : I32)
    (localTimeFreq : BitVec 64) : Session α :=
  ⟨.new fmt sampleRate inSampleRate phaseIncrement localTimeFreq, []⟩

def Session.step (resample : Order1 α → U32 → Option (List (I32 × I32) × Order1 α)) (c : Session α)
    (r : Request) : Option (Session α) := do
  let (out, s) ← resample { c.resampler with mVolume := r.volume, mPTS := r.pts } r.outFrameCount
  some { resampler := s, output := c.output ++ out.map (r.volume, ·) }

/-- With the answers of the provider, the output is the interpolation of every stream that it hands
out the front of, and all of it that was asked for unless it answered `NULL`. -/
structure Session.Interpolates (c : Session α) (fmt : Format α) (p : Provider α) (inc : U32)
    (requested : ℕ) : Prop where
  log : p.Log c.resampler.calls
  frames : ∀ xs, delivered c.resampler.calls <+: xs → ∀ n volume frame,
    c.output[n]? = some (volume, frame) → interpolated fmt volume inc xs n = some frame
  complete : ¬ c.resampler.Starved → c.output.length = requested

/-- A `NULL` in the log is an answer of the provider. -/
theorem Provider.Log.none_answered {calls : List (Call α)} (h : p.Log calls) {frameCount : U32}
    {pts : I64} (hmem : .getNextBuffer frameCount pts none ∈ calls) :
    ∃ before, p.answer before frameCount pts = none := by
  induction h with
  | nil => cases hmem
  | getNextBuffer _ _ _ ih =>
    obtain hmem | hmem := List.mem_append.mp hmem
    · exact ih hmem
    · obtain ⟨rfl, rfl, hnone⟩ := Call.getNextBuffer.inj (List.mem_singleton.mp hmem)
      exact ⟨_, hnone.symm⟩
  | releaseBuffer _ _ ih => exact ih ((List.mem_append.mp hmem).resolve_right (by simp))

/-- A provider that never answers `NULL` gets all its output. -/
theorem Session.Interpolates.fed {c : Session α} {requested : ℕ}
    (h : c.Interpolates fmt p inc requested)
    (hfed : ∀ calls frameCount pts, (p.answer calls frameCount pts).isSome) :
    c.output.length = requested := by
  refine h.complete ?_
  rintro ⟨frameCount, pts, hmem⟩
  obtain ⟨before, hnone⟩ := h.log.none_answered hmem
  have hsome := hfed before frameCount pts
  rw [hnone] at hsome
  cases hsome

/-- The invariant of a session. -/
structure Session.Inv (c : Session α) (fmt : Format α) (p : Provider α) (inc : U32)
    (requested : ℕ) : Prop where
  placed : c.resampler.Placed fmt c.resampler.cursor c.output.length
  increment : c.resampler.mPhaseIncrement = inc
  interpolates : c.Interpolates fmt p inc requested

theorem Session.new_inv (fmt : Format α) (p : Provider α)
    (sampleRate inSampleRate phaseIncrement : I32) (localTimeFreq : BitVec 64) :
    (Session.new fmt sampleRate inSampleRate phaseIncrement localTimeFreq).Inv fmt p phaseIncrement
      0 := by
  refine ⟨⟨[], [], ⟨rfl, rfl, rfl, rfl⟩, ⟨?_, ?_⟩, fun hne => absurd rfl hne⟩, rfl, .nil, ?_,
    fun _ => rfl⟩
  · simp [Session.new, Order1.new, Order1.cursor]
  · exact Nat.two_pow_pos _
  · intro xs _ n volume frame h
    simp [Session.new] at h

theorem Order1.Extends.starved {s s' : Order1 α} (h : s.Extends p s') (hs : s.Starved) :
    s'.Starved := by
  obtain ⟨frameCount, pts, hcall⟩ := hs
  exact ⟨frameCount, pts, h.calls.subset hcall⟩

theorem Session.Inv.step {c : Session α} {k : ℕ} (h : c.Inv fmt p inc k)
    (hinc : inc.toNat ≤ 2 * 2 ^ kNumPhaseBits) (r : Request) :
    ∃ c', c.step (Order1.resample fmt p.answer) r = some c' ∧
      c'.Inv fmt p inc (k + r.frames) := by
  have hplaced : Order1.Placed { c.resampler with mVolume := r.volume, mPTS := r.pts } fmt
      c.resampler.cursor c.output.length := by
    obtain ⟨past, held, hholds, hat, hinside⟩ := h.placed
    exact ⟨past, held, ⟨hholds.delivered, hholds.samples, hholds.frameCount, hholds.last⟩, hat,
      hinside⟩
  obtain ⟨out, s', hrun, hout, hend⟩ := Order1.resample_resampled (p := p)
    { c.resampler with mVolume := r.volume, mPTS := r.pts } r.outFrameCount hplaced
    (by rw [← h.increment] at hinc; exact hinc)
  have hext : c.resampler.Extends p { s' with mVolume := c.resampler.mVolume } :=
    { hout.extends_ with volume := rfl }
  have hlength : (c.output ++ out.map (r.volume, ·)).length = c.output.length + out.length := by
    rw [List.length_append, List.length_map]
  refine ⟨⟨s', c.output ++ out.map (r.volume, ·)⟩, ?_, ?_, hout.extends_.increment.trans h.increment,
    hext.log h.interpolates.log, ?_, ?_⟩
  · simp only [Session.step, hrun, Option.bind_eq_bind, Option.bind_some]
  · rw [hlength]
    exact hout.placed
  · intro xs hxs n volume frame hn
    rcases Nat.lt_or_ge n c.output.length with hlt | hge
    · rw [List.getElem?_append_left hlt] at hn
      exact h.interpolates.frames xs (hext.delivered.trans hxs) n volume frame hn
    · rw [List.getElem?_append_right hge, List.getElem?_map, Option.map_eq_some_iff] at hn
      obtain ⟨frame', hframe, heq⟩ := hn
      cases heq
      have hitem := hout.frames _ _ hframe
      rw [Nat.add_sub_cancel' hge] at hitem
      rw [← h.increment]
      exact interpolated_of_isPrefix hxs n frame hitem
  · intro hfed
    have hfed' : ¬ c.resampler.Starved := fun hstarved => hfed (hext.starved hstarved)
    rw [hlength, h.interpolates.complete hfed', hend.resolve_right hfed]
    rfl

theorem Session.Inv.run {c : Session α} {k : ℕ} (h : c.Inv fmt p inc k)
    (hinc : inc.toNat ≤ 2 * 2 ^ kNumPhaseBits) (rs : List Request) :
    ∃ c', Machine.run (Session.step (Order1.resample fmt p.answer)) c rs = some c' ∧
      c'.Inv fmt p inc (k + (rs.map Request.frames).sum) := by
  induction rs generalizing c k with
  | nil => exact ⟨c, rfl, h⟩
  | cons r rs ih =>
    obtain ⟨c₁, hstep, h₁⟩ := h.step hinc r
    obtain ⟨c₂, hrun, h₂⟩ := ih h₁
    refine ⟨c₂, Machine.run_cons_some.mpr ⟨c₁, hstep, hrun⟩, ?_⟩
    rw [List.map_cons, List.sum_cons, ← Nat.add_assoc]
    exact h₂

/-- However the provider cuts the stream into chunks and the calls cut the output, the output is
the interpolation of the stream, and no call reads outside a chunk. -/
theorem resample_interpolates (sampleRate inSampleRate phaseIncrement : I32)
    (localTimeFreq : BitVec 64) (hinc : phaseIncrement.toNat ≤ 2 * 2 ^ kNumPhaseBits)
    (rs : List Request) :
    (∀ p, ∃ c, Machine.run (Session.step (resampleStereo16 p))
        (.new stereo sampleRate inSampleRate phaseIncrement localTimeFreq) rs = some c ∧
      c.Interpolates stereo p phaseIncrement (rs.map Request.frames).sum) ∧
    ∀ p, ∃ c, Machine.run (Session.step (resampleMono16 p))
        (.new mono sampleRate inSampleRate phaseIncrement localTimeFreq) rs = some c ∧
      c.Interpolates mono p phaseIncrement (rs.map Request.frames).sum := by
  have hrun {α : Type} (fmt : Format α) (p : Provider α) :
      ∃ c, Machine.run (Session.step (Order1.resample fmt p.answer))
          (.new fmt sampleRate inSampleRate phaseIncrement localTimeFreq) rs = some c ∧
        c.Interpolates fmt p phaseIncrement (rs.map Request.frames).sum := by
    obtain ⟨c, hrun, h⟩ :=
      (Session.new_inv fmt p sampleRate inSampleRate phaseIncrement localTimeFreq).run hinc rs
    rw [Nat.zero_add] at h
    exact ⟨c, hrun, h.interpolates⟩
  exact ⟨hrun stereo, hrun mono⟩

/-- A provider of chunks of one frame, each of the count of calls before. -/
def countingProvider : Provider I16 where
  answer calls _ _ := some [BitVec.ofNat 16 calls.length]
  nonempty := by
    intro calls frameCount pts frames h
    cases h
    exact List.cons_ne_nil _ _

/-- Twice the frames, one in the first call and three in the second. -/
theorem resample_interpolates_twice :
    ∃ c, Machine.run (Session.step (resampleMono16 countingProvider))
        (.new mono 44100#32 22050#32 0x20000000#32 1000000#64)
        [⟨(0x1000#16, 0x1000#16), 0#64, 1#32⟩, ⟨(0x800#16, 0x800#16), 0#64, 3#32⟩] = some c ∧
      c.Interpolates mono countingProvider 0x20000000#32 4 :=
  (resample_interpolates 44100#32 22050#32 0x20000000#32 1000000#64 (by decide +kernel)
    [⟨(0x1000#16, 0x1000#16), 0#64, 1#32⟩, ⟨(0x800#16, 0x800#16), 0#64, 3#32⟩]).2 countingProvider

end AudioFlinger.Resampler
