import AudioFlinger.Foundation.RingLog
import AudioFlinger.Nbaio.MonoPipe

/-!
# `Pipe` and `PipeReader`

The writer of a `Pipe` never waits: it overwrites what a slow `PipeReader` has
not read. The reader notices at its next call, moves its index forward and
counts the frames it lost.
-/

namespace AudioFlinger.Nbaio

open Foundation Counter RingMemory Machine

def OVERRUN : U32 := 0x80000011#32

structure PipeConfig where
  mMaxFrames : U32
  sinkNegotiated : Bool
  sourceNegotiated : Bool
  size : IsPowerOfTwo 31 mMaxFrames

def PipeConfig.slot (cfg : PipeConfig) (index : U32) : U32 := index &&& (cfg.mMaxFrames - 1#32)

/-- The length of the copy from the slot of `index` on. -/
def PipeConfig.part1 (cfg : PipeConfig) (index count : U32) : U32 :=
  if count < cfg.mMaxFrames - cfg.slot index then count else cfg.mMaxFrames - cfg.slot index

/-- The length of the copy that goes on at the start of the buffer; it stops where the first
one began. -/
def PipeConfig.part2 (cfg : PipeConfig) (index count : U32) : U32 :=
  if cfg.slot index + cfg.part1 index count = cfg.mMaxFrames then
    if cfg.slot index < count - cfg.part1 index count then cfg.slot index
    else count - cfg.part1 index count
  else 0#32

variable {α : Type*}

structure Pipe (α : Type*) where
  mBuffer : ℕ → α
  mRear : U32
  mFramesWritten : U32
  mFront : U32
  mFramesRead : U32
  mFramesOverrun : U32
  mOverruns : U32
  /-- The frames written since the reader was created. -/
  stream : List α
  /-- The frames read, and the frames skipped, since then. -/
  framesRead : ℕ
  framesSkipped : ℕ
  /-- The frames written since the last call of the reader. -/
  sinceCall : ℕ

/-- A reader created on a pipe that may have been written before. -/
def Pipe.start (mem : ℕ → α) (rear framesWritten : U32) : Pipe α where
  mBuffer := mem
  mRear := rear
  mFramesWritten := framesWritten
  mFront := rear
  mFramesRead := 0
  mFramesOverrun := 0
  mOverruns := 0
  stream := []
  framesRead := 0
  framesSkipped := 0
  sinceCall := 0

/-- `Pipe::write` of `data.length` frames. -/
def Pipe.write (cfg : PipeConfig) (s : Pipe α) (data : List α) : Pipe α :=
  if cfg.sinkNegotiated then
    let count := BitVec.ofNat 32 data.length
    let part1 := cfg.part1 s.mRear count
    let part2 := cfg.part2 s.mRear count
    { s with
      mBuffer := blit (blit s.mBuffer (cfg.slot s.mRear).toNat (data.take part1.toNat)) 0
        ((data.drop part1.toNat).take part2.toNat)
      mRear := (part1 + part2) + s.mRear
      mFramesWritten := s.mFramesWritten + (part1 + part2)
      stream := s.stream ++ data.take (part1 + part2).toNat
      sinceCall := s.sinceCall + (part1 + part2).toNat }
  else s

/-- `PipeReader::availableToRead`. -/
def Pipe.availableToRead (cfg : PipeConfig) (s : Pipe α) : U32 × Pipe α :=
  if cfg.sourceNegotiated then
    let avail := s.mRear - s.mFront
    if cfg.mMaxFrames < avail then
      -- discard a sixteenth of the buffer so as not to be overrun again at once
      let front := s.mRear - cfg.mMaxFrames + (cfg.mMaxFrames >>> 4)
      (OVERRUN,
        { s with
          mFront := front
          mFramesOverrun := s.mFramesOverrun + (front - s.mFront)
          mOverruns := s.mOverruns + 1
          framesSkipped := s.framesSkipped + (front - s.mFront).toNat
          sinceCall := 0 })
    else (avail, { s with sinceCall := 0 })
  else (NEGOTIATE, { s with sinceCall := 0 })

/-- `PipeReader::read`: its result, the frames copied and the state after it. -/
def Pipe.read (cfg : PipeConfig) (s : Pipe α) (count : U32) : U32 × List α × Pipe α :=
  let (avail, s) := s.availableToRead cfg
  if avail.toInt ≤ 0 then (avail, [], s)
  else
    let count := if avail < count then avail else count
    let part1 := cfg.part1 s.mFront count
    let part2 := cfg.part2 s.mFront count
    (part1 + part2,
      slice s.mBuffer (cfg.slot s.mFront).toNat part1.toNat ++ slice s.mBuffer 0 part2.toNat,
      { s with
        mFront := s.mFront + (part1 + part2)
        mFramesRead := s.mFramesRead + (part1 + part2)
        framesRead := s.framesRead + (part1 + part2).toNat })

inductive PipeEvent (α : Type*)
  | write (data : List α)
  | availableToRead
  | read (count : U32)

def pipeStep (cfg : PipeConfig) (s : Pipe α) : PipeEvent α → Option (Pipe α)
  | .write data => if data.length < 2 ^ 32 then some (s.write cfg data) else none
  | .availableToRead => some (s.availableToRead cfg).2
  | .read count => some (s.read cfg count).2.2

/-! ## Slots -/

section Slot

variable (cfg : PipeConfig) {index count : U32} {p : ℕ}

theorem PipeConfig.mMaxFrames_bounds :
    0 < cfg.mMaxFrames.toNat ∧ cfg.mMaxFrames.toNat ≤ 2 ^ 31 := cfg.size.bounds (by decide)

theorem PipeConfig.toNat_slot (h : Counts index p) :
    (cfg.slot index).toNat = p % cfg.mMaxFrames.toNat := cfg.size.toNat_mask (by decide) h

/-- The two copies together take as much of `count` as the buffer holds. -/
theorem PipeConfig.toNat_parts (count : U32) (h : Counts index p) :
    (cfg.part1 index count).toNat =
        min count.toNat (cfg.mMaxFrames.toNat - p % cfg.mMaxFrames.toNat) ∧
      (cfg.part2 index count).toNat =
        min count.toNat cfg.mMaxFrames.toNat -
          (cfg.mMaxFrames.toNat - p % cfg.mMaxFrames.toNat) ∧
      (cfg.part1 index count + cfg.part2 index count).toNat =
        min count.toNat cfg.mMaxFrames.toNat := by
  have hbounds := cfg.mMaxFrames_bounds
  have hslot := cfg.toNat_slot h
  have hlt := Nat.mod_lt p hbounds.1
  have hcount := count.isLt
  have hroom : (cfg.mMaxFrames - cfg.slot index).toNat =
      cfg.mMaxFrames.toNat - p % cfg.mMaxFrames.toNat := by
    rw [BitVec.toNat_sub, hslot]
    lia
  have hone : (cfg.part1 index count).toNat =
      min count.toNat (cfg.mMaxFrames.toNat - p % cfg.mMaxFrames.toNat) := by
    unfold PipeConfig.part1
    simp only [BitVec.lt_def, hroom]
    split_ifs <;> lia
  have hrest : (count - cfg.part1 index count).toNat =
      count.toNat - (cfg.part1 index count).toNat := by
    rw [BitVec.toNat_sub]
    lia
  have htwo : (cfg.part2 index count).toNat = min count.toNat cfg.mMaxFrames.toNat -
      (cfg.mMaxFrames.toNat - p % cfg.mMaxFrames.toNat) := by
    unfold PipeConfig.part2
    simp only [← BitVec.toNat_inj, BitVec.toNat_add, BitVec.lt_def, hrest]
    split_ifs <;> simp only [BitVec.toNat_zero, hrest, hslot] at * <;> lia
  refine ⟨hone, htwo, ?_⟩
  rw [BitVec.toNat_add, hone, htwo]
  lia

/-- The two copies of a write are one write to the ring. -/
theorem PipeConfig.blit_parts (h : Counts index p) (mem : ℕ → α) {data : List α}
    (hdata : data.length = count.toNat) :
    blit (blit mem (cfg.slot index).toNat (data.take (cfg.part1 index count).toNat)) 0
        ((data.drop (cfg.part1 index count).toNat).take (cfg.part2 index count).toNat) =
      ringWrite cfg.mMaxFrames.toNat mem p (data.take cfg.mMaxFrames.toNat) := by
  obtain ⟨hone, htwo, -⟩ := cfg.toNat_parts count h
  have hlen : (data.take cfg.mMaxFrames.toNat).length = min count.toNat cfg.mMaxFrames.toNat := by
    rw [List.length_take, hdata, Nat.min_comm]
  have hlt := Nat.mod_lt p cfg.mMaxFrames_bounds.1
  have hone' : (cfg.part1 index count).toNat = min (data.take cfg.mMaxFrames.toNat).length
      (cfg.mMaxFrames.toNat - p % cfg.mMaxFrames.toNat) := by omega
  rw [← hlen] at htwo
  rw [cfg.toNat_slot h, ← ringWrite_parts hone' htwo, List.take_take, List.drop_take,
    List.take_take, Nat.min_eq_left (by omega), Nat.min_eq_left (by omega)]

/-- The two copies of a read are one read of the ring. -/
theorem PipeConfig.slice_parts (h : Counts index p) (mem : ℕ → α)
    (hcount : count.toNat ≤ cfg.mMaxFrames.toNat) :
    slice mem (cfg.slot index).toNat (cfg.part1 index count).toNat ++
        slice mem 0 (cfg.part2 index count).toNat =
      ringSlice cfg.mMaxFrames.toNat mem p count.toNat := by
  obtain ⟨hone, htwo, -⟩ := cfg.toNat_parts count h
  rw [← ringRead_eq cfg.mMaxFrames_bounds.1 hcount, ringRead, cfg.toNat_slot h, hone, htwo,
    Nat.min_eq_left hcount]

end Slot

end AudioFlinger.Nbaio
