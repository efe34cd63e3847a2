import AudioFlinger.Foundation.RingFifo
import AudioFlinger.Nbaio.MonoPipe

/-!
# `MonoPipe` is a lossless bounded FIFO

Every interleaving of the two sides refines the bounded FIFO over the slots of
the buffer, the indices counting the frames written and read modulo `2 ^ 32`.
-/

namespace AudioFlinger.Nbaio

open Foundation Counter RingMemory Machine

variable {α : Type*}

/-! ## Slots -/

section Slot

variable (cfg : MonoPipeConfig) {index n : U32} {p : ℕ}

theorem MonoPipeConfig.mMaxFrames_bounds :
    0 < cfg.mMaxFrames.toNat ∧ cfg.mMaxFrames.toNat ≤ 2 ^ 30 :=
  cfg.size.bounds (by decide)

theorem MonoPipeConfig.toNat_slot (h : Counts index p) :
    (cfg.slot index).toNat = p % cfg.mMaxFrames.toNat :=
  cfg.size.toNat_mask (by decide) h

theorem MonoPipeConfig.slot_lt (h : Counts index p) :
    (cfg.slot index).toNat < cfg.mMaxFrames.toNat := by
  rw [cfg.toNat_slot h]
  exact Nat.mod_lt _ cfg.mMaxFrames_bounds.1

theorem MonoPipeConfig.part1_le (index n : U32) : (cfg.part1 index n).toNat ≤ n.toNat := by
  unfold MonoPipeConfig.part1
  simp only [BitVec.lt_def]
  split_ifs <;> omega

/-- The first part ends inside the buffer, and short of its end only when it is all. -/
theorem MonoPipeConfig.part1_end (h : Counts index p) :
    (cfg.slot index).toNat + (cfg.part1 index n).toNat ≤ cfg.mMaxFrames.toNat ∧
      ((cfg.part1 index n).toNat = n.toNat ∨
        (cfg.slot index).toNat + (cfg.part1 index n).toNat = cfg.mMaxFrames.toNat) := by
  have hslot := cfg.slot_lt h
  have hmax := cfg.mMaxFrames.isLt
  have hroom : (cfg.mMaxFrames - cfg.slot index).toNat =
      cfg.mMaxFrames.toNat - (cfg.slot index).toNat := by
    rw [BitVec.toNat_sub]
    omega
  unfold MonoPipeConfig.part1
  simp only [BitVec.lt_def]
  split_ifs with hlt <;> omega

theorem MonoPipeConfig.part1_pos (h : Counts index p) :
    0#32 < cfg.part1 index n ↔ 0 < n.toNat := by
  have hslot := cfg.slot_lt h
  have hle := cfg.part1_le index n
  obtain ⟨-, hend⟩ := cfg.part1_end (n := n) h
  rw [BitVec.lt_def, BitVec.toNat_zero]
  omega

theorem MonoPipeConfig.toNat_rest (index n : U32) :
    (n - cfg.part1 index n).toNat = n.toNat - (cfg.part1 index n).toNat := by
  have hle := cfg.part1_le index n
  have hn := n.isLt
  rw [BitVec.toNat_sub]
  omega

/-- The copy splits exactly when the first part is not all. -/
theorem MonoPipeConfig.splits_iff (h : Counts index p) :
    cfg.Splits index n ↔ (cfg.part1 index n).toNat < n.toNat := by
  have hslot := cfg.slot_lt h
  have hle := cfg.part1_le index n
  have hbounds := cfg.mMaxFrames_bounds
  obtain ⟨hfit, hend⟩ := cfg.part1_end (n := n) h
  rw [MonoPipeConfig.Splits, BitVec.lt_def, cfg.toNat_rest, BitVec.toNat_zero, ← BitVec.toNat_inj,
    BitVec.toNat_add, Nat.mod_eq_of_lt (by omega)]
  omega

theorem MonoPipeConfig.splits_end (h : Counts index p) (hs : cfg.Splits index n) :
    (cfg.slot index).toNat + (cfg.part1 index n).toNat = cfg.mMaxFrames.toNat := by
  have hlt := (cfg.splits_iff h).mp hs
  obtain ⟨-, hend⟩ := cfg.part1_end (n := n) h
  omega

end Slot

/-! ## The relation -/

/-- The caller's data has been published up to `buffer`. -/
structure WriteCall.At {b N : ℕ} (c : WriteCall α) (reported : List α) (q : RingFifo α b N) :
    Prop where
  put : q.put = reported ++ c.data.take c.totalFramesWritten.toNat
  total : c.totalFramesWritten.toNat = c.buffer
  count : c.buffer + c.count.toNat = c.data.length
  fits : c.data.length < 2 ^ 32

/-- What the writer's next step relies on. -/
def Writer.Rel {b : ℕ} (cfg : MonoPipeConfig) (w : Writer α) (rear : U32) (reported : List α)
    (q : RingFifo α b cfg.mMaxFrames.toNat) : Prop :=
  match w with
  | .idle => q.put = reported
  | .loadFront c => c.At reported q
  | .part1 c written =>
    c.At reported q ∧ written.toNat ≤ c.count.toNat ∧ written.toNat ≤ q.reserved
  | .part2 c written =>
    (c.At reported q ∧ written.toNat ≤ c.count.toNat ∧ written.toNat ≤ q.reserved) ∧
      cfg.Splits rear written ∧
      Holds cfg.mMaxFrames.toNat q.mem (b + q.put.length)
        ((c.data.drop c.buffer).take (cfg.part1 rear written).toNat)
  | .storeRear c written =>
    (c.At reported q ∧ written.toNat ≤ c.count.toNat ∧ written.toNat ≤ q.reserved) ∧
      Holds cfg.mMaxFrames.toNat q.mem (b + q.put.length)
        ((c.data.drop c.buffer).take written.toNat)
  | .next c written =>
    { c with count := c.count - written, buffer := c.buffer + written.toNat }.At reported q

/-- What a read returns, or an error, and the frames it copied. -/
def Reads (red : U32) (out : List α) : Prop :=
  if red.toInt ≤ 0 then out = [] else out.length = red.toNat

theorem reads_nil {red : U32} (h : red.toInt ≤ 0) : Reads red ([] : List α) := by
  simp [Reads, h]

/-- The frames copied are the next of the stream, and the new index moves over them. -/
structure Copied {b N : ℕ} (front newFront red : U32) (delivered out : List α)
    (q : RingFifo α b N) : Prop where
  got : q.got = delivered
  length_le : out.length ≤ q.acquired
  next : q.got ++ out <+: q.put
  newFront : newFront = BitVec.ofNat 32 out.length + front
  reads : Reads red out

def Reader.Rel {b : ℕ} (cfg : MonoPipeConfig) (r : Reader α) (front : U32) (delivered : List α)
    (q : RingFifo α b cfg.mMaxFrames.toNat) : Prop :=
  match r with
  | .idle => q.got = delivered
  | .loadRear _ => q.got = delivered
  | .part1 _ red => q.got = delivered ∧ 0 < red.toNat ∧ red.toNat ≤ q.acquired
  | .part2 _ red out =>
    (q.got = delivered ∧ 0 < red.toNat ∧ red.toNat ≤ q.acquired) ∧ cfg.Splits front red ∧
      out.length = (cfg.part1 front red).toNat ∧ q.got ++ out <+: q.put
  | .beginUpdate _ newFront red out => Copied front newFront red delivered out q
  | .update (.storeFront newFront _ _) red out => Copied front newFront red delivered out q
  | .update (.storeNextRdPTS _ _) red out => q.got = delivered ++ out ∧ Reads red out
  | .update (.storeSeq _) red out => q.got = delivered ++ out ∧ Reads red out

/-- The pipe is the FIFO `q` whose first position is `b`. -/
structure MonoPipe.Refines (cfg : MonoPipeConfig) (b : ℕ) (s : MonoPipe α)
    (q : RingFifo α b cfg.mMaxFrames.toNat) : Prop where
  mem : q.mem = s.mBuffer
  rear : Counts s.mRear (b + q.put.length)
  front : Counts s.shared.mFront (b + q.got.length)
  writer : s.writer.Rel cfg s.mRear s.reported q
  reader : s.reader.Rel cfg s.shared.mFront s.delivered q
  /-- Only a negotiated sink gets into the loop of `write`. -/
  negotiated : cfg.sinkNegotiated = false → s.writer = .idle
  framesWritten : Counts s.mFramesWritten s.reported.length
  framesRead : Counts s.mFramesRead s.delivered.length

theorem refines_start (cfg : MonoPipeConfig) (index : U32) (nextRdPTS : Pts) (mem : ℕ → α) :
    (MonoPipe.start index nextRdPTS mem).Refines cfg index.toNat
      (RingFifo.start index.toNat cfg.mMaxFrames.toNat mem) where
  mem := rfl
  rear := counts_toNat index
  front := counts_toNat index
  writer := rfl
  reader := rfl
  negotiated := fun _ => rfl
  framesWritten := rfl
  framesRead := rfl

/-- The writer does not depend on what the reader does. -/
theorem Writer.Rel.mono {b : ℕ} {cfg : MonoPipeConfig} {w : Writer α} {rear : U32}
    {reported : List α} {q q' : RingFifo α b cfg.mMaxFrames.toNat}
    (h : w.Rel cfg rear reported q) (hmem : q'.mem = q.mem) (hput : q'.put = q.put)
    (hreserved : q'.reserved = q.reserved) : w.Rel cfg rear reported q' := by
  have hat {c : WriteCall α} (hc : c.At reported q) : c.At reported q' :=
    { hc with put := hput.trans hc.put }
  cases w with
  | idle => exact hput.trans h
  | loadFront c => exact hat h
  | part1 c written =>
    obtain ⟨hc, hcount, hroom⟩ := h
    exact ⟨hat hc, hcount, hreserved ▸ hroom⟩
  | part2 c written =>
    obtain ⟨⟨hc, hcount, hroom⟩, hsplit, hholds⟩ := h
    refine ⟨⟨hat hc, hcount, hreserved ▸ hroom⟩, hsplit, ?_⟩
    rw [hmem, hput]
    exact hholds
  | storeRear c written =>
    obtain ⟨⟨hc, hcount, hroom⟩, hholds⟩ := h
    refine ⟨⟨hat hc, hcount, hreserved ▸ hroom⟩, ?_⟩
    rw [hmem, hput]
    exact hholds
  | next c written => exact hat h

/-- The reader only relies on what has been published, which no writer takes back. -/
theorem Reader.Rel.mono {b : ℕ} {cfg : MonoPipeConfig} {r : Reader α} {front : U32}
    {delivered : List α} {q q' : RingFifo α b cfg.mMaxFrames.toNat}
    (h : r.Rel cfg front delivered q) (hgot : q'.got = q.got)
    (hacquired : q'.acquired = q.acquired) (hput : q.put <+: q'.put) :
    r.Rel cfg front delivered q' := by
  have hcopied {newFront red : U32} {out : List α}
      (hc : Copied front newFront red delivered out q) :
      Copied front newFront red delivered out q' :=
    { got := hgot.trans hc.got
      length_le := hacquired ▸ hc.length_le
      next := hgot ▸ hc.next.trans hput
      newFront := hc.newFront
      reads := hc.reads }
  cases r with
  | idle => exact hgot.trans h
  | loadRear c => exact hgot.trans h
  | part1 c red =>
    obtain ⟨hg, hpos, hle⟩ := h
    exact ⟨hgot.trans hg, hpos, hacquired ▸ hle⟩
  | part2 c red out =>
    obtain ⟨⟨hg, hpos, hle⟩, hsplit, hlen, hnext⟩ := h
    exact ⟨⟨hgot.trans hg, hpos, hacquired ▸ hle⟩, hsplit, hlen, hgot ▸ hnext.trans hput⟩
  | beginUpdate c newFront red out => exact hcopied h
  | update u red out =>
    cases u with
    | storeFront newFront pts tmp => exact hcopied h
    | storeNextRdPTS pts tmp => exact ⟨hgot.trans h.1, h.2⟩
    | storeSeq tmp => exact ⟨hgot.trans h.1, h.2⟩

/-! ## The writer's steps -/

section Writer

variable {cfg : MonoPipeConfig} {b : ℕ} {s : MonoPipe α} {q : RingFifo α b cfg.mMaxFrames.toNat}

/-- The room the writer finds, which the reader can only enlarge. -/
theorem MonoPipe.Refines.availableToWrite (h : s.Refines cfg b q)
    (hneg : cfg.sinkNegotiated = true) :
    (s.availableToWrite cfg).toNat = cfg.mMaxFrames.toNat - q.size := by
  have hgot := q.got_length_le
  have hsize := q.size_le
  have hbounds := cfg.mMaxFrames_bounds
  have hused : (s.mRear - s.shared.mFront).toNat = q.size := by
    rw [h.rear.toNat_sub h.front (by omega) (by unfold RingFifo.size at hsize; omega),
      RingFifo.size]
    omega
  rw [MonoPipe.availableToWrite, if_pos hneg, BitVec.toNat_sub, hused]
  omega

theorem WriteCall.At.data_length {c : WriteCall α} {reported : List α}
    (h : c.At reported q) {n : ℕ} (hn : n ≤ c.count.toNat) :
    ((c.data.drop c.buffer).take n).length = n := by
  have hcount := h.count
  rw [List.length_take, List.length_drop]
  omega

/-- The call moves on by what it has written. -/
theorem WriteCall.At.advance {c : WriteCall α} {reported : List α} (h : c.At reported q)
    {written : U32} (hw : written.toNat ≤ c.count.toNat) {q' : RingFifo α b cfg.mMaxFrames.toNat}
    (hput : q'.put = q.put ++ (c.data.drop c.buffer).take written.toNat) :
    WriteCall.At
      { c with
        totalFramesWritten := c.totalFramesWritten + written
        count := c.count - written
        buffer := c.buffer + written.toNat } reported q' := by
  have hcount := h.count
  have hfits := h.fits
  have htotal := h.total
  have hsum : (c.totalFramesWritten + written).toNat = c.buffer + written.toNat := by
    rw [BitVec.toNat_add, htotal, Nat.mod_eq_of_lt (by omega)]
  have hrest : (c.count - written).toNat = c.count.toNat - written.toNat := by
    have hlt := c.count.isLt
    rw [BitVec.toNat_sub]
    omega
  exact
    { put := by
        simp only [hsum]
        rw [hput, h.put, htotal, List.take_add, List.append_assoc]
      total := hsum
      count := by
        simp only [hrest]
        omega
      fits := hfits }

variable (h : s.Refines cfg b q)

include h

theorem MonoPipe.Refines.wrote {c : WriteCall α}
    (hc : c.At s.reported q) : (s.wrote c).Refines cfg b q where
  mem := h.mem
  rear := h.rear
  front := h.front
  writer := hc.put
  reader := h.reader
  negotiated := fun _ => rfl
  framesWritten := by
    have htotal := hc.total
    have hcount := hc.count
    have hlen : (c.data.take c.totalFramesWritten.toNat).length = c.totalFramesWritten.toNat := by
      rw [List.length_take]
      omega
    have hadd := h.framesWritten.step c.totalFramesWritten
    simpa [MonoPipe.wrote, hlen] using hadd
  framesRead := h.framesRead

theorem MonoPipe.Refines.loadFront {c : WriteCall α}
    (hw : s.writer = .loadFront c) {s' : MonoPipe α} (hs : s.stepWriter cfg = some s') :
    ∃ q', s'.Refines cfg b q' := by
  have hc : c.At s.reported q := by
    have hrel := h.writer
    rwa [hw] at hrel
  have hneg : cfg.sinkNegotiated = true := by
    by_contra hno
    have hidle := h.negotiated (by simpa using hno)
    rw [hw] at hidle
    cases hidle
  simp only [MonoPipe.stepWriter, hw] at hs
  by_cases hzero : c.count = 0
  · rw [if_pos hzero] at hs
    cases hs
    exact ⟨q, h.wrote hc⟩
  · rw [if_neg hzero] at hs
    have havail := h.availableToWrite hneg
    have hgot := q.got_length_le
    have hsize := q.size_le
    generalize hwr : (if c.count < s.availableToWrite cfg then c.count
      else s.availableToWrite cfg) = written at hs
    cases hs
    have hle : written.toNat ≤ c.count.toNat ∧ written.toNat ≤ cfg.mMaxFrames.toNat - q.size := by
      rw [← hwr, ← havail]
      simp only [BitVec.lt_def]
      split_ifs <;> omega
    have hroom : q.put.length + written.toNat ≤ q.got.length + cfg.mMaxFrames.toNat := by
      have hlimit := hle.2
      unfold RingFifo.size at hsize hlimit
      omega
    refine ⟨q.reserve written.toNat hroom, ?_⟩
    exact
      { mem := h.mem
        rear := h.rear
        front := h.front
        writer := by
          dsimp only
          split_ifs with hpos
          · exact ⟨{ hc with }, hle.1, le_refl _⟩
          · have hnone : written.toNat = 0 := by
              rw [cfg.part1_pos h.rear] at hpos
              omega
            have hnil : written = 0#32 := BitVec.eq_of_toNat_eq hnone
            subst hnil
            exact
              { put := hc.put
                total := hc.total
                count := by simpa using hc.count
                fits := hc.fits }
        reader := h.reader.mono rfl rfl List.prefix_rfl
        negotiated := fun hno => by simp [hneg] at hno
        framesWritten := h.framesWritten
        framesRead := h.framesRead }

/-- The writer stores data in cells it reserved, the first of them at `off`. -/
theorem MonoPipe.Refines.copyIn {w : Writer α} {off : ℕ} {xs : List α}
    (hin : off + xs.length ≤ q.reserved)
    (hfit : (b + q.put.length + off) % cfg.mMaxFrames.toNat + xs.length ≤ cfg.mMaxFrames.toNat)
    (hw : w.Rel cfg s.mRear s.reported (q.fill off xs hin hfit))
    (hneg : cfg.sinkNegotiated = false → w = .idle) :
    MonoPipe.Refines cfg b
      { s with
        mBuffer := blit s.mBuffer ((b + q.put.length + off) % cfg.mMaxFrames.toNat) xs
        writer := w } (q.fill off xs hin hfit) where
  mem := congrArg (fun mem => blit mem _ xs) h.mem
  rear := h.rear
  front := h.front
  writer := hw
  reader := h.reader.mono rfl rfl List.prefix_rfl
  negotiated := hneg
  framesWritten := h.framesWritten
  framesRead := h.framesRead

theorem MonoPipe.Refines.writePart1 {c : WriteCall α} {written : U32}
    (hw : s.writer = .part1 c written) {s' : MonoPipe α} (hs : s.stepWriter cfg = some s') :
    ∃ q', s'.Refines cfg b q' := by
  have hrel := h.writer
  rw [hw] at hrel
  obtain ⟨hc, hcount, hroom⟩ := hrel
  have hle := cfg.part1_le s.mRear written
  obtain ⟨hfit, -⟩ := cfg.part1_end (n := written) h.rear
  have hslot := cfg.toNat_slot h.rear
  generalize hxs : (c.data.drop c.buffer).take (cfg.part1 s.mRear written).toNat = xs
  have hlen : xs.length = (cfg.part1 s.mRear written).toNat := by
    rw [← hxs]
    exact hc.data_length (hle.trans hcount)
  have hin : 0 + xs.length ≤ q.reserved := by omega
  have hfit' : (b + q.put.length + 0) % cfg.mMaxFrames.toNat + xs.length ≤
      cfg.mMaxFrames.toNat := by
    rw [Nat.add_zero, ← hslot, hlen]
    exact hfit
  have hholds : Holds cfg.mMaxFrames.toNat (q.fill 0 xs hin hfit').mem (b + q.put.length) xs :=
    holds_blit hfit'
  have hat : c.At s.reported (q.fill 0 xs hin hfit') := { hc with }
  simp only [MonoPipe.stepWriter, hw, hxs] at hs
  cases hs
  rw [hslot]
  refine ⟨q.fill 0 xs hin hfit', h.copyIn hin hfit' ?_ ?_⟩
  · split_ifs with hsplit
    · refine ⟨⟨hat, hcount, hroom⟩, hsplit, ?_⟩
      rw [hxs]
      exact hholds
    · have hall : (cfg.part1 s.mRear written).toNat = written.toNat := by
        rw [cfg.splits_iff h.rear] at hsplit
        omega
      refine ⟨⟨hat, hcount, hroom⟩, ?_⟩
      rw [← hall, hxs]
      exact hholds
  · intro hno
    have hidle := h.negotiated hno
    rw [hw] at hidle
    cases hidle

theorem MonoPipe.Refines.writePart2 {c : WriteCall α} {written : U32}
    (hw : s.writer = .part2 c written) {s' : MonoPipe α} (hs : s.stepWriter cfg = some s') :
    ∃ q', s'.Refines cfg b q' := by
  have hrel := h.writer
  rw [hw] at hrel
  obtain ⟨⟨hc, hcount, hroom⟩, hsplit, hholds⟩ := hrel
  have hlt := (cfg.splits_iff h.rear).mp hsplit
  have hend := cfg.splits_end h.rear hsplit
  have hslot := cfg.toNat_slot h.rear
  have hrest := cfg.toNat_rest s.mRear written
  have hlimit := q.held_le_limit true
  generalize hp : (cfg.part1 s.mRear written).toNat = p at *
  have hfirst := hc.data_length (n := p) (by lia)
  -- the second part starts at the first cell of the buffer
  have hlap : (b + q.put.length + p) % cfg.mMaxFrames.toNat = 0 := slot_lap (by lia)
  generalize hxs : (c.data.drop (c.buffer + p)).take (written.toNat - p) = xs
  have hlen : xs.length = written.toNat - p := by
    have hcnt := hc.count
    rw [← hxs, List.length_take, List.length_drop]
    lia
  have hwithin : written.toNat ≤ cfg.mMaxFrames.toNat := by
    simp only [RingFifo.held, RingFifo.limit] at hlimit
    lia
  have hin : p + xs.length ≤ q.reserved := by lia
  have hfit : (b + q.put.length + p) % cfg.mMaxFrames.toNat + xs.length ≤
      cfg.mMaxFrames.toNat := by lia
  have hsecond : Holds cfg.mMaxFrames.toNat (q.fill p xs hin hfit).mem
      (b + q.put.length + p) xs := holds_blit hfit
  have hkept : Holds cfg.mMaxFrames.toNat (q.fill p xs hin hfit).mem (b + q.put.length)
      ((c.data.drop c.buffer).take p) :=
    hholds.blit hfit (by lia) (by lia)
  have hboth := hkept.append (by rw [hfirst]; exact hsecond)
  simp only [MonoPipe.stepWriter, hw, hp, hrest, hxs] at hs
  cases hs
  have hresult := h.copyIn (w := .storeRear c written) hin hfit
    ⟨⟨{ hc with }, hcount, hroom⟩, by
      rw [show written.toNat = p + (written.toNat - p) by lia, List.take_add, List.drop_drop,
        hxs]
      exact hboth⟩
    (fun hno => by
      have hidle := h.negotiated hno
      rw [hw] at hidle
      cases hidle)
  rw [hlap] at hresult
  exact ⟨_, hresult⟩

theorem MonoPipe.Refines.storeRear {c : WriteCall α} {written : U32}
    (hw : s.writer = .storeRear c written) {s' : MonoPipe α} (hs : s.stepWriter cfg = some s') :
    ∃ q', s'.Refines cfg b q' := by
  have hrel := h.writer
  rw [hw] at hrel
  obtain ⟨⟨hc, hcount, hroom⟩, hholds⟩ := hrel
  have hlen := hc.data_length hcount
  have hput : (q.commit written.toNat hroom).put =
      q.put ++ (c.data.drop c.buffer).take written.toNat := by
    have hread := hholds.ringSlice hlen.ge
    rw [List.take_of_length_le hlen.le] at hread
    simp only [RingFifo.commit, hread]
  simp only [MonoPipe.stepWriter, hw] at hs
  cases hs
  refine ⟨q.commit written.toNat hroom, ?_⟩
  exact
    { mem := h.mem
      rear := by
        rw [hput, List.length_append, hlen, BitVec.add_comm]
        exact (h.rear.step written).congr (Nat.add_assoc _ _ _)
      front := h.front
      writer := hc.advance hcount hput
      reader := h.reader.mono rfl rfl (hput ▸ List.prefix_append _ _)
      negotiated := fun hno => by
        have hidle := h.negotiated hno
        rw [hw] at hidle
        cases hidle
      framesWritten := h.framesWritten
      framesRead := h.framesRead }

theorem MonoPipe.Refines.next {c : WriteCall α} {written : U32}
    (hw : s.writer = .next c written) {s' : MonoPipe α} (hs : s.stepWriter cfg = some s') :
    s'.Refines cfg b q := by
  have hc : WriteCall.At
      { c with count := c.count - written, buffer := c.buffer + written.toNat } s.reported q := by
    have hrel := h.writer
    rwa [hw] at hrel
  simp only [MonoPipe.stepWriter, hw] at hs
  split_ifs at hs
  · cases hs
    have hdone := h.wrote hc
    exact hdone
  · cases hs
    exact
      { h with
        writer := hc
        negotiated := fun hno => by
          have hidle := h.negotiated hno
          rw [hw] at hidle
          cases hidle }

theorem MonoPipe.Refines.stepWriter {s' : MonoPipe α}
    (hs : s.stepWriter cfg = some s') : ∃ q', s'.Refines cfg b q' := by
  cases hw : s.writer with
  | idle => simp [MonoPipe.stepWriter, hw] at hs
  | loadFront c => exact h.loadFront hw hs
  | part1 c written => exact h.writePart1 hw hs
  | part2 c written => exact h.writePart2 hw hs
  | storeRear c written => exact h.storeRear hw hs
  | next c written => exact ⟨q, h.next hw hs⟩

end Writer

/-! ## The reader's steps -/

theorem toInt_le_zero_iff {x : U32} (h : x.toNat ≤ 2 ^ 30) : x.toInt ≤ 0 ↔ x.toNat = 0 := by
  rw [BitVec.toInt_eq_toNat_of_lt (by omega)]
  omega

section Reader

variable {cfg : MonoPipeConfig} {b : ℕ} {s : MonoPipe α} {q : RingFifo α b cfg.mMaxFrames.toNat}

variable (h : s.Refines cfg b q)

include h

/-- The frames the reader finds, which the writer can only add to. -/
theorem MonoPipe.Refines.availableToRead
    (hneg : cfg.sourceNegotiated = true) : (s.availableToRead cfg).toNat = q.size := by
  have hgot := q.got_length_le
  have hsize := q.size_le
  have hbounds := cfg.mMaxFrames_bounds
  rw [MonoPipe.availableToRead, if_pos hneg,
    h.rear.toNat_sub h.front (by omega) (by unfold RingFifo.size at hsize; omega), RingFifo.size]
  omega

/-- A step of the reader over its own position. -/
theorem MonoPipe.Refines.readerAt {r : Reader α}
    (hr : r.Rel cfg s.shared.mFront s.delivered q) :
    MonoPipe.Refines cfg b { s with reader := r } q :=
  { h with reader := hr }

theorem MonoPipe.Refines.returned {red : U32} {out : List α}
    (hgot : q.got = s.delivered ++ out) (hreads : Reads red out) :
    (s.returned red out).Refines cfg b q where
  mem := h.mem
  rear := h.rear
  front := h.front
  writer := h.writer
  reader := hgot
  negotiated := h.negotiated
  framesWritten := h.framesWritten
  framesRead := by
    have hcount := h.framesRead
    unfold Reads at hreads
    simp only [MonoPipe.returned, List.length_append]
    split_ifs at hreads ⊢ with hnone
    · simpa [hreads] using hcount
    · rw [hreads]
      exact hcount.step red

theorem MonoPipe.Refines.loadRear {c : ReadCall}
    (hr : s.reader = .loadRear c) {s' : MonoPipe α} (hs : s.stepReader cfg = some s') :
    ∃ q', s'.Refines cfg b q' := by
  have hgot : q.got = s.delivered := by
    have hrel := h.reader
    rwa [hr] at hrel
  have hbounds := cfg.mMaxFrames_bounds
  have hle := q.got_length_le
  have hsize := q.size_le
  simp only [MonoPipe.stepReader, hr] at hs
  by_cases hnone : (s.availableToRead cfg).toInt ≤ 0
  · rw [if_pos hnone] at hs
    cases hs
    refine ⟨q, h.readerAt ?_⟩
    exact
      { got := hgot
        length_le := Nat.zero_le _
        next := by simpa using q.got_prefix
        newFront := by simp
        reads := reads_nil hnone }
  · have hneg : cfg.sourceNegotiated = true := by
      by_contra hno
      rw [MonoPipe.availableToRead, if_neg hno] at hnone
      exact hnone (by decide)
    rw [if_neg hnone] at hs
    have havail := h.availableToRead hneg
    generalize hrd : (if c.count < s.availableToRead cfg then c.count
      else s.availableToRead cfg) = red at hs
    have hred : red.toNat ≤ q.size := by
      rw [← hrd, ← havail]
      simp only [BitVec.lt_def]
      split_ifs <;> omega
    have hready : q.got.length + red.toNat ≤ q.put.length := by
      unfold RingFifo.size at hred
      omega
    have hacquired : s.Refines cfg b (q.acquire red.toNat hready) :=
      { h with
        writer := h.writer.mono rfl rfl rfl
        reader := by
          rw [hr]
          exact hgot }
    refine ⟨q.acquire red.toNat hready, ?_⟩
    split_ifs at hs with hpos
    · cases hs
      exact hacquired.readerAt ⟨hgot, (cfg.part1_pos h.front).mp hpos, le_refl _⟩
    · cases hs
      have hzero : red.toNat = 0 := by
        rw [cfg.part1_pos h.front] at hpos
        omega
      have hnil : red.toInt ≤ 0 := by
        rw [toInt_le_zero_iff (by omega)]
        exact hzero
      exact hacquired.returned (hgot.trans (List.append_nil _).symm) (reads_nil hnil)

omit h in
/-- What has been copied is all there was to copy. -/
theorem copied_all {red : U32} {front : U32} {delivered out : List α} (hgot : q.got = delivered)
    (hpos : 0 < red.toNat) (hacquired : red.toNat ≤ q.acquired)
    (hlen : out.length = red.toNat) (hnext : q.got ++ out <+: q.put) :
    Copied front (red + front) red delivered out q := by
  have hbounds := cfg.mMaxFrames_bounds
  have hlimit := q.held_le_limit false
  have hsize := q.size_le
  simp only [RingFifo.held, RingFifo.limit] at hlimit
  exact
    { got := hgot
      length_le := by omega
      next := hnext
      newFront := by simp [hlen]
      reads := by
        rw [Reads, if_neg]
        · exact hlen
        · rw [toInt_le_zero_iff (by omega)]
          omega }

theorem MonoPipe.Refines.readPart1 {c : ReadCall} {red : U32}
    (hr : s.reader = .part1 c red) {s' : MonoPipe α} (hs : s.stepReader cfg = some s') :
    ∃ q', s'.Refines cfg b q' := by
  have hrel := h.reader
  rw [hr] at hrel
  obtain ⟨hgot, hpos, hacquired⟩ := hrel
  have hle := cfg.part1_le s.shared.mFront red
  obtain ⟨hfit, -⟩ := cfg.part1_end (n := red) h.front
  have hslot := cfg.toNat_slot h.front
  have hread := q.release_got (k := (cfg.part1 s.shared.mFront red).toNat) (by lia)
  rw [ringSlice_eq_slice (by lia), ← hslot, h.mem] at hread
  have hnext : q.got ++ slice s.mBuffer (cfg.slot s.shared.mFront).toNat
      (cfg.part1 s.shared.mFront red).toNat <+: q.put := hread ▸ List.take_prefix _ _
  simp only [MonoPipe.stepReader, hr] at hs
  cases hs
  refine ⟨q, h.readerAt ?_⟩
  split_ifs with hsplit
  · exact ⟨⟨hgot, hpos, hacquired⟩, hsplit, slice_length _ _, hnext⟩
  · have hall : (cfg.part1 s.shared.mFront red).toNat = red.toNat := by
      rw [cfg.splits_iff h.front] at hsplit
      lia
    exact copied_all hgot hpos hacquired ((slice_length _ _).trans hall) hnext

theorem MonoPipe.Refines.readPart2 {c : ReadCall} {red : U32}
    {out : List α} (hr : s.reader = .part2 c red out) {s' : MonoPipe α}
    (hs : s.stepReader cfg = some s') : ∃ q', s'.Refines cfg b q' := by
  have hrel := h.reader
  rw [hr] at hrel
  obtain ⟨⟨hgot, hpos, hacquired⟩, hsplit, hlen, hnext⟩ := hrel
  have hlt := (cfg.splits_iff h.front).mp hsplit
  have hend := cfg.splits_end h.front hsplit
  have hslot := cfg.toNat_slot h.front
  have hrest := cfg.toNat_rest s.shared.mFront red
  have hlimit := q.held_le_limit false
  have hsize := q.size_le
  simp only [RingFifo.held, RingFifo.limit] at hlimit
  generalize hp : (cfg.part1 s.shared.mFront red).toNat = p at *
  -- the rest of the stream goes on in the first cell of the buffer
  have hlap : (b + q.got.length + p) % cfg.mMaxFrames.toNat = 0 := slot_lap (by lia)
  have hread := q.ringSlice_acquired p (red.toNat - p) (by lia)
  rw [ringSlice_eq_slice (by lia), hlap, h.mem] at hread
  have hlength : (slice s.mBuffer 0 (red.toNat - p)).length = red.toNat - p := slice_length _ _
  have hall : q.got ++ (out ++ slice s.mBuffer 0 (red.toNat - p)) <+: q.put := by
    have htake := List.prefix_iff_eq_take.mp hnext
    rw [List.length_append, hlen] at htake
    rw [← List.append_assoc, htake, hread, ← List.take_add]
    exact List.take_prefix _ _
  simp only [MonoPipe.stepReader, hr, hrest] at hs
  cases hs
  refine ⟨q, h.readerAt ?_⟩
  exact copied_all hgot hpos hacquired (by rw [List.length_append]; lia) hall

/-- The store of `mFront` releases the frames copied. -/
theorem MonoPipe.Refines.storeFront {newFront red : U32}
    {out : List α} (hc : Copied s.shared.mFront newFront red s.delivered out q)
    (pts : Pts) (tmp : U32) :
    ∃ q', MonoPipe.Refines cfg b
      { s with
        shared := { s.shared with mFront := newFront }
        reader := .update (.storeNextRdPTS pts tmp) red out } q' := by
  have hput := List.prefix_iff_eq_take.mp hc.next
  rw [List.length_append] at hput
  have hgot : (q.release out.length hc.length_le).got = q.got ++ out := by
    simp only [RingFifo.release]
    rw [q.release_got hc.length_le, hput]
  refine ⟨q.release out.length hc.length_le, ?_⟩
  exact
    { mem := h.mem
      rear := h.rear
      front := by
        rw [hgot, List.length_append, hc.newFront, BitVec.add_comm]
        exact (h.front.add (counts_ofNat _)).congr (Nat.add_assoc _ _ _)
      writer := h.writer.mono rfl rfl rfl
      reader := by
        refine ⟨?_, hc.reads⟩
        rw [hgot, hc.got]
      negotiated := h.negotiated
      framesWritten := h.framesWritten
      framesRead := h.framesRead }

theorem MonoPipe.Refines.stepReader {s' : MonoPipe α}
    (hs : s.stepReader cfg = some s') : ∃ q', s'.Refines cfg b q' := by
  cases hr : s.reader with
  | idle => simp [MonoPipe.stepReader, hr] at hs
  | loadRear c => exact h.loadRear hr hs
  | part1 c red => exact h.readPart1 hr hs
  | part2 c red out => exact h.readPart2 hr hs
  | beginUpdate c newFront red out =>
    have hrel := h.reader
    rw [hr] at hrel
    simp only [MonoPipe.stepReader, hr] at hs
    cases hs
    exact ⟨q, { h with reader := hrel }⟩
  | update u red out =>
    have hrel := h.reader
    rw [hr] at hrel
    simp only [MonoPipe.stepReader, hr] at hs
    cases u with
    | storeFront newFront pts tmp =>
      cases hs
      exact h.storeFront hrel pts tmp
    | storeNextRdPTS pts tmp =>
      cases hs
      exact ⟨q, { h with reader := hrel }⟩
    | storeSeq tmp =>
      cases hs
      have hshared : MonoPipe.Refines cfg b
          { s with shared := (s.shared.update (.storeSeq tmp)).1 } q :=
        { h with
          reader := by
            rw [hr]
            exact hrel }
      exact ⟨q, hshared.returned hrel.1 hrel.2⟩

end Reader

/-! ## Runs -/

theorem refines_monoPipeStep {cfg : MonoPipeConfig} {b : ℕ} (s : MonoPipe α)
    (e : MonoPipeEvent α) (s' : MonoPipe α) (hstep : monoPipeStep cfg s e = some s')
    (h : ∃ q, s.Refines cfg b q) : ∃ q, s'.Refines cfg b q := by
  obtain ⟨q, h⟩ := h
  cases e with
  | write data =>
    simp only [monoPipeStep] at hstep
    split at hstep
    · rename_i hidle
      simp only [Option.ite_none_right_eq_some] at hstep
      obtain ⟨hfits, hs⟩ := hstep
      cases hs
      unfold MonoPipe.write
      split_ifs with hneg
      · have hput : q.put = s.reported := by
          have hrel := h.writer
          rwa [hidle] at hrel
        refine ⟨q, ?_⟩
        exact
          { h with
            writer :=
              { put := by simpa using hput
                total := rfl
                count := by
                  simp only [BitVec.toNat_ofNat]
                  omega
                fits := hfits }
            negotiated := fun hno => by simp [hneg] at hno }
      · exact ⟨q, h⟩
    · cases hstep
  | writer => exact h.stepWriter hstep
  | read count nextReadPTS =>
    simp only [monoPipeStep] at hstep
    split at hstep
    · rename_i hidle
      cases hstep
      have hrel := h.reader
      rw [hidle] at hrel
      exact ⟨q, h.readerAt hrel⟩
    · cases hstep
  | reader => exact h.stepReader hstep
  | shutdown newState =>
    cases hstep
    exact ⟨q, { h with }⟩

/-- Both parts of a copy stay in the cells of `n` consecutive positions. -/
theorem MonoPipeConfig.copy_cells (cfg : MonoPipeConfig) {index n : U32} {p : ℕ}
    (h : Counts index p) (hn : n.toNat ≤ cfg.mMaxFrames.toNat) {i : ℕ}
    (hi : (cfg.slot index).toNat ≤ i ∧ i < (cfg.slot index).toNat + (cfg.part1 index n).toNat ∨
      cfg.Splits index n ∧ i < (n - cfg.part1 index n).toNat) :
    ∃ m < n.toNat, i = (p + m) % cfg.mMaxFrames.toNat := by
  have hslot := cfg.toNat_slot h
  have hle := cfg.part1_le index n
  obtain ⟨hfit, -⟩ := cfg.part1_end (n := n) h
  rcases hi with ⟨hlo, hhi⟩ | ⟨hsplit, hlt⟩
  · refine ⟨i - (cfg.slot index).toNat, by omega, ?_⟩
    rw [slot_add (by omega)]
    omega
  · have hend := cfg.splits_end h hsplit
    rw [cfg.toNat_rest] at hlt
    have hlap : (p + (cfg.part1 index n).toNat) % cfg.mMaxFrames.toNat = 0 := slot_lap (by omega)
    refine ⟨(cfg.part1 index n).toNat + i, by omega, ?_⟩
    rw [← Nat.add_assoc, slot_add (by omega), hlap, Nat.zero_add]

section Result

variable {cfg : MonoPipeConfig} {b : ℕ} {s : MonoPipe α} {q : RingFifo α b cfg.mMaxFrames.toNat}

variable (h : s.Refines cfg b q)

include h

theorem MonoPipe.Refines.writing {i : ℕ} (hi : s.Writing cfg i) :
    ∃ m < q.reserved, i = (b + q.put.length + m) % cfg.mMaxFrames.toNat := by
  have hlimit := q.held_le_limit true
  simp only [RingFifo.held, RingFifo.limit] at hlimit
  have hrel := h.writer
  unfold MonoPipe.Writing at hi
  cases hw : s.writer with
  | idle | loadFront | storeRear | next => simp [hw] at hi
  | part1 c written =>
    rw [hw] at hi hrel
    obtain ⟨-, -, hroom⟩ := hrel
    obtain ⟨m, hm, heq⟩ := cfg.copy_cells h.rear (n := written) (by omega) (Or.inl hi)
    exact ⟨m, by omega, heq⟩
  | part2 c written =>
    rw [hw] at hi hrel
    obtain ⟨⟨-, -, hroom⟩, hsplit, -⟩ := hrel
    obtain ⟨m, hm, heq⟩ := cfg.copy_cells h.rear (n := written) (by omega) (Or.inr ⟨hsplit, hi⟩)
    exact ⟨m, by omega, heq⟩

theorem MonoPipe.Refines.reading {i : ℕ} (hi : s.Reading cfg i) :
    ∃ m < q.acquired, i = (b + q.got.length + m) % cfg.mMaxFrames.toNat := by
  have hlimit := q.held_le_limit false
  have hsize := q.size_le
  simp only [RingFifo.held, RingFifo.limit] at hlimit
  have hrel := h.reader
  unfold MonoPipe.Reading at hi
  cases hr : s.reader with
  | idle | loadRear | beginUpdate | update => simp [hr] at hi
  | part1 c red =>
    rw [hr] at hi hrel
    obtain ⟨-, -, hacquired⟩ := hrel
    obtain ⟨m, hm, heq⟩ := cfg.copy_cells h.front (n := red) (by lia) (Or.inl hi)
    exact ⟨m, by lia, heq⟩
  | part2 c red out =>
    rw [hr] at hi hrel
    obtain ⟨⟨-, -, hacquired⟩, hsplit, -, -⟩ := hrel
    obtain ⟨m, hm, heq⟩ := cfg.copy_cells h.front (n := red) (by lia) (Or.inr ⟨hsplit, hi⟩)
    exact ⟨m, by lia, heq⟩

theorem MonoPipe.Refines.put :
    q.put = s.reported ++ s.writer.published := by
  have hrel := h.writer
  cases hw : s.writer with
  | idle =>
    rw [hw] at hrel
    exact hrel.trans (List.append_nil _).symm
  | loadFront c =>
    rw [hw] at hrel
    exact WriteCall.At.put hrel
  | part1 c written =>
    rw [hw] at hrel
    exact hrel.1.put
  | part2 c written =>
    rw [hw] at hrel
    exact hrel.1.1.put
  | storeRear c written =>
    rw [hw] at hrel
    exact hrel.1.1.put
  | next c written =>
    rw [hw] at hrel
    have hc : WriteCall.At
        { c with count := c.count - written, buffer := c.buffer + written.toNat } s.reported q :=
      hrel
    exact hc.put

theorem MonoPipe.Refines.delivered : s.delivered <+: q.got := by
  have hrel := h.reader
  cases hr : s.reader with
  | idle | loadRear =>
    rw [hr] at hrel
    exact hrel ▸ List.prefix_rfl
  | part1 c red =>
    rw [hr] at hrel
    exact hrel.1 ▸ List.prefix_rfl
  | part2 c red out =>
    rw [hr] at hrel
    exact hrel.1.1 ▸ List.prefix_rfl
  | beginUpdate c newFront red out =>
    rw [hr] at hrel
    exact hrel.got ▸ List.prefix_rfl
  | update u red out =>
    rw [hr] at hrel
    cases u with
    | storeFront newFront pts tmp => exact hrel.got ▸ List.prefix_rfl
    | storeNextRdPTS pts tmp => exact hrel.1 ▸ List.prefix_append _ _
    | storeSeq tmp => exact hrel.1 ▸ List.prefix_append _ _

end Result

/-- In every state of every interleaving the distance of the indices is at most the size, no
slot is read and written at the same time, and the frames read are the first of the frames
reported written, by the calls that have returned and by the one under way. -/
theorem monoPipe_lossless (cfg : MonoPipeConfig) (index : U32) (nextRdPTS : Pts) (mem : ℕ → α)
    (es : List (MonoPipeEvent α)) (s : MonoPipe α)
    (hrun : run (monoPipeStep cfg) (MonoPipe.start index nextRdPTS mem) es = some s) :
    s.mRear - s.shared.mFront ≤ cfg.mMaxFrames ∧
      (∀ i, ¬ (s.Writing cfg i ∧ s.Reading cfg i)) ∧
      s.delivered <+: s.reported ++ s.writer.published ∧
      (s.writer = .idle → s.delivered <+: s.reported) := by
  obtain ⟨q, h⟩ : ∃ q, s.Refines cfg index.toNat q :=
    run_invariant refines_monoPipeStep hrun ⟨_, refines_start cfg index nextRdPTS mem⟩
  have horder : s.delivered <+: s.reported ++ s.writer.published :=
    h.put ▸ h.delivered.trans q.got_prefix
  refine ⟨?_, ?_, horder, fun hidle => ?_⟩
  · have hgot := q.got_length_le
    have hsize := q.size_le
    have hbounds := cfg.mMaxFrames_bounds
    unfold RingFifo.size at hsize
    rw [BitVec.le_def, h.rear.toNat_sub h.front (by omega) (by omega)]
    omega
  · rintro i ⟨hw, hr⟩
    obtain ⟨m, hm, hwrite⟩ := h.writing hw
    obtain ⟨n, hn, hread⟩ := h.reading hr
    exact q.reserved_disjoint_acquired hm hn (hwrite.symm.trans hread)
  · simpa [hidle, Writer.published] using horder

/-- A pipe of four frames that does not block. -/
def smallPipe : MonoPipeConfig where
  mMaxFrames := 4#32
  mWriteCanBlock := false
  sinkNegotiated := true
  sourceNegotiated := true
  size := ⟨2, by decide, rfl⟩

/-- Five frames are offered while two are read, across the wrap of both indices. -/
def acrossWrap : List (MonoPipeEvent ℕ) :=
  [.write [1, 2, 3], .writer, .writer, .read 2 0, .writer, .writer, .reader, .writer, .reader,
    .write [4, 5], .reader, .writer, .reader, .writer, .reader, .reader]

theorem monoPipe_lossless_acrossWrap : ∃ s,
    run (monoPipeStep smallPipe) (MonoPipe.start 0xFFFFFFFE#32 0 fun _ => 0) acrossWrap = some s ∧
      s.delivered = [1, 2] ∧ s.mRear - s.shared.mFront ≤ 4#32 := by
  obtain ⟨s, hs⟩ : ∃ s, run (monoPipeStep smallPipe)
      (MonoPipe.start 0xFFFFFFFE#32 0 fun _ => 0) acrossWrap = some s := ⟨_, rfl⟩
  have hread : (run (monoPipeStep smallPipe) (MonoPipe.start 0xFFFFFFFE#32 0 fun _ => 0)
      acrossWrap).map MonoPipe.delivered = some [1, 2] := by decide +kernel
  rw [hs, Option.map_some, Option.some_inj] at hread
  exact ⟨s, hs, hread, (monoPipe_lossless smallPipe 0xFFFFFFFE#32 0 (fun _ => 0) acrossWrap s
    hs).1⟩

end AudioFlinger.Nbaio
