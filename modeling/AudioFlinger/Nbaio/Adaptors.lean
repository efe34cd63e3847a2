import AudioFlinger.Nbaio.MonoPipe

/-!
# Sources as buffer providers, and buffer providers as sources

`SourceAudioBufferProvider` reads from a source into memory of its own and
hands that out, `AudioBufferProviderSource` copies or passes on what a buffer
provider hands out. Either keeps what was not taken for the next call. The
wrapped source or provider has an unbounded stream of frames; how many of them
it gives, or which error, is an input of each step.
-/

namespace AudioFlinger.Nbaio

open Foundation RingMemory Machine

variable {α : Type*}

inductive Status
  | OK
  | NOT_ENOUGH_DATA
  deriving DecidableEq, Repr

/-! ## `SourceAudioBufferProvider` -/

/-- `AudioBufferProvider::Buffer`; `raw` is the frame of `mAllocated` that it points to. -/
structure ProviderBuffer where
  raw : Option ℕ
  frameCount : ℕ
  deriving DecidableEq, Repr

def ProviderBuffer.none : ProviderBuffer := { raw := .none, frameCount := 0 }

structure SourceAudioBufferProvider (α : Type*) where
  mAllocated : ℕ → α
  mSize : ℕ
  mOffset : ℕ
  mRemaining : ℕ
  mGetCount : ℕ
  /-- The frames that the source has given. -/
  position : ℕ
  /-- The buffer of the caller. -/
  buffer : ProviderBuffer
  /-- The frames that the caller has released. -/
  released : List α

def SourceAudioBufferProvider.new (mem : ℕ → α) : SourceAudioBufferProvider α where
  mAllocated := mem
  mSize := 0
  mOffset := 0
  mRemaining := 0
  mGetCount := 0
  position := 0
  buffer := .none
  released := []

/-- `getNextBuffer` of `frameCount` frames. A `read` of the source gives `actual` frames or an error,
and memory newly allocated holds anything. -/
def SourceAudioBufferProvider.getNextBuffer (stream : ℕ → α) (s : SourceAudioBufferProvider α)
    (frameCount : ℕ) (actual : ℤ) (fresh : ℕ → α) : Status × SourceAudioBufferProvider α :=
  -- any leftover data available?
  if 0 < s.mRemaining then
    let frameCount := if s.mRemaining < frameCount then s.mRemaining else frameCount
    (.OK,
      { s with
        mGetCount := frameCount
        buffer := { raw := some s.mOffset, frameCount := frameCount } })
  else
    let s := if s.mSize < frameCount then { s with mAllocated := fresh, mSize := frameCount } else s
    if 0 < actual then
      (.OK,
        { s with
          mAllocated := blit s.mAllocated 0 (slice stream s.position actual.toNat)
          mOffset := 0
          mRemaining := actual.toNat
          mGetCount := actual.toNat
          position := s.position + actual.toNat
          buffer := { raw := some 0, frameCount := actual.toNat } })
    else (.NOT_ENOUGH_DATA, { s with mGetCount := 0, buffer := .none })

/-- `releaseBuffer` of the first `frameCount` frames of the caller's buffer. -/
def SourceAudioBufferProvider.releaseBuffer (s : SourceAudioBufferProvider α) (frameCount : ℕ) :
    SourceAudioBufferProvider α :=
  { s with
    mOffset := s.mOffset + frameCount
    mRemaining := s.mRemaining - frameCount
    mGetCount := 0
    buffer := .none
    released := s.released ++ (s.buffer.raw.map fun raw => slice s.mAllocated raw frameCount).getD [] }

/-- What is released is the front of the stream, what remains is what comes next. -/
structure SourceAudioBufferProvider.Preserves (stream : ℕ → α) (s : SourceAudioBufferProvider α) :
    Prop where
  released : s.released = slice stream 0 s.released.length
  position : s.position = s.released.length + s.mRemaining
  remaining : slice s.mAllocated s.mOffset s.mRemaining =
    slice stream s.released.length s.mRemaining
  within : s.mOffset + s.mRemaining ≤ s.mSize
  raw : ∀ raw ∈ s.buffer.raw, raw = s.mOffset
  empty : s.buffer.raw = none → s.buffer.frameCount = 0
  frameCount : s.buffer.frameCount ≤ s.mRemaining

namespace SourceAudioBufferProvider

variable {stream : ℕ → α} {s : SourceAudioBufferProvider α}

theorem preserves_new (stream mem : ℕ → α) : (new mem).Preserves stream where
  released := rfl
  position := rfl
  remaining := rfl
  within := le_rfl
  raw := nofun
  empty := fun _ => rfl
  frameCount := le_rfl

theorem Preserves.getNextBuffer (h : s.Preserves stream) {frameCount : ℕ} {actual : ℤ}
    (hactual : actual ≤ frameCount) (fresh : ℕ → α) :
    (s.getNextBuffer stream frameCount actual fresh).2.Preserves stream := by
  rw [SourceAudioBufferProvider.getNextBuffer]
  by_cases hleft : 0 < s.mRemaining
  · rw [if_pos hleft]
    exact { h with
      raw := by rintro _ ⟨rfl⟩; rfl
      empty := nofun
      frameCount := by dsimp only; split_ifs <;> omega }
  have hnone : s.mRemaining = 0 := Nat.eq_zero_of_not_pos hleft
  have hposition : s.position = s.released.length := h.position.trans (by rw [hnone, Nat.add_zero])
  rw [if_neg hleft]
  -- nothing of the memory before is needed any more
  generalize hs : (if s.mSize < frameCount then { s with mAllocated := fresh, mSize := frameCount }
    else s) = s'
  have hsize : frameCount ≤ s'.mSize ∧ s.mSize ≤ s'.mSize := by
    rw [← hs]
    split_ifs with hsmall
    · exact ⟨le_rfl, hsmall.le⟩
    · exact ⟨Nat.le_of_not_lt hsmall, le_rfl⟩
  have hsame : s'.released = s.released ∧ s'.position = s.position ∧ s'.mRemaining = 0 ∧
      s'.mOffset = s.mOffset := by
    rw [← hs]
    split_ifs <;> exact ⟨rfl, rfl, hnone, rfl⟩
  obtain ⟨hreleased, hpos, hrest, hoffset⟩ := hsame
  dsimp only
  split_ifs with hgot
  · have hcopy := slice_blit s'.mAllocated (slice stream s'.position actual.toNat)
    rw [slice_length] at hcopy
    exact
      { released := by
          dsimp only
          rw [hreleased]
          exact h.released
        position := by
          dsimp only
          rw [hpos, hposition, hreleased]
        remaining := by
          dsimp only
          rw [hcopy, hpos, hposition, hreleased]
        within := by
          dsimp only
          omega
        raw := by rintro _ ⟨rfl⟩; rfl
        empty := nofun
        frameCount := le_rfl }
  · exact
      { released := by
          dsimp only
          rw [hreleased]
          exact h.released
        position := by
          dsimp only
          rw [hpos, hposition, hreleased, hrest, Nat.add_zero]
        remaining := by
          dsimp only
          rw [hrest]
          rfl
        within := by
          have hwithin := h.within
          dsimp only
          omega
        raw := nofun
        empty := fun _ => rfl
        frameCount := Nat.zero_le _ }

theorem Preserves.releaseBuffer (h : s.Preserves stream) {frameCount : ℕ}
    (hcount : frameCount ≤ s.buffer.frameCount) : (s.releaseBuffer frameCount).Preserves stream := by
  have hle : frameCount ≤ s.mRemaining := hcount.trans h.frameCount
  have hfront : (s.buffer.raw.map fun raw => slice s.mAllocated raw frameCount).getD [] =
      slice stream s.released.length frameCount := by
    cases hraw : s.buffer.raw with
    | none =>
      have hzero : frameCount = 0 := by
        have hempty := h.empty hraw
        omega
      rw [hzero]
      rfl
    | some raw =>
      have htake := congrArg (List.take frameCount) h.remaining
      rw [slice_take _ hle, slice_take _ hle] at htake
      rw [h.raw raw hraw]
      exact htake
  have hlength : (s.releaseBuffer frameCount).released.length = s.released.length + frameCount := by
    rw [SourceAudioBufferProvider.releaseBuffer, hfront, List.length_append, slice_length]
  exact
    { released := by
        rw [hlength, slice_add, Nat.zero_add, ← h.released, ← hfront]
        rfl
      position := by
        have hposition := h.position
        rw [hlength]
        simp only [SourceAudioBufferProvider.releaseBuffer]
        omega
      remaining := by
        have hdrop := congrArg (List.drop frameCount) h.remaining
        rw [slice_drop _ hle, slice_drop _ hle] at hdrop
        rw [hlength]
        exact hdrop
      within := by
        have hwithin := h.within
        simp only [SourceAudioBufferProvider.releaseBuffer]
        omega
      raw := nofun
      empty := fun _ => rfl
      frameCount := Nat.zero_le _ }

end SourceAudioBufferProvider

/-! ## `AudioBufferProviderSource` -/

/-- `-EWOULDBLOCK`. -/
def WOULD_BLOCK : U32 := -11#32

/-- `-ENODATA`. -/
def NOT_ENOUGH_DATA : U32 := -61#32

/-- What `getNextBuffer` of the provider answers. -/
inductive ProviderAnswer
  | ok (frameCount : ℕ)
  | error (status : U32) (frameCount : ℕ)
  deriving DecidableEq, Repr

/-- The arguments and the local variable of a `readVia`. -/
structure ReadViaCall where
  total : ℕ
  block : ℕ
  accumulator : ℕ
  deriving DecidableEq, Repr

/-- `count`, how many frames the loop may pass on at once. -/
def ReadViaCall.count (c : ReadViaCall) : ℕ :=
  if c.block < c.total - c.accumulator then c.block else c.total - c.accumulator

/-- What a `readVia` returns that stops short. -/
def ReadViaCall.stopped (c : ReadViaCall) (result : U32) : U32 :=
  if 0 < c.accumulator then BitVec.ofNat 32 c.accumulator else result

def ReadViaCall.accept (c : ReadViaCall) (ret : ℕ) : ReadViaCall :=
  { c with accumulator := c.accumulator + ret }

/-- An `AudioBufferProviderSource` that is negotiated. -/
structure AudioBufferProviderSource (α : Type*) where
  /-- `mBuffer.raw`, the frames from where it points on. -/
  raw : Option (ℕ → α)
  /-- `mBuffer.frameCount`. -/
  frameCount : ℕ
  mConsumed : ℕ
  mFramesRead : U32
  /-- The frames released to the provider. -/
  position : ℕ
  /-- The `readVia` under way. -/
  call : Option ReadViaCall
  /-- The frames copied by `read` and accepted by the callbacks of `readVia`. -/
  taken : List α
  /-- What the calls that have returned answered. -/
  answers : List U32

namespace AudioBufferProviderSource

def new : AudioBufferProviderSource α where
  raw := none
  frameCount := 0
  mConsumed := 0
  mFramesRead := 0#32
  position := 0
  call := none
  taken := []
  answers := []

/-- `getNextBuffer` of the provider, and the status where it is an error. -/
def getNextBuffer (stream : ℕ → α) (s : AudioBufferProviderSource α) :
    ProviderAnswer → Option U32 × AudioBufferProviderSource α
  | .ok frameCount =>
    (none, { s with raw := some fun i => stream (s.position + i), frameCount := frameCount })
  | .error status frameCount =>
    (some (if status = NOT_ENOUGH_DATA then WOULD_BLOCK else status),
      { s with frameCount := frameCount })

def releaseBuffer (s : AudioBufferProviderSource α) : AudioBufferProviderSource α :=
  { s with
    raw := none
    frameCount := 0
    mConsumed := 0
    position := s.position + s.frameCount }

/-- Take `count` frames from where the cursor is. -/
def take (s : AudioBufferProviderSource α) (count : ℕ) : AudioBufferProviderSource α :=
  { s with
    mConsumed := s.mConsumed + count
    mFramesRead := s.mFramesRead + BitVec.ofNat 32 count
    taken := s.taken ++ (s.raw.map fun raw => slice raw s.mConsumed count).getD [] }

def answer (s : AudioBufferProviderSource α) (result : U32) : AudioBufferProviderSource α :=
  { s with
    call := none
    answers := s.answers ++ [result] }

/-- `read` once there is a buffer. -/
def readBuffer (s : AudioBufferProviderSource α) (count : ℕ) : AudioBufferProviderSource α :=
  let available := s.frameCount - s.mConsumed
  let count := if available < count then available else count
  let s := s.take count
  (if s.frameCount ≤ s.mConsumed then s.releaseBuffer else s).answer (BitVec.ofNat 32 count)

/-- `read` of `count` frames, with the answer to a call of the provider if there is one. -/
def read (stream : ℕ → α) (s : AudioBufferProviderSource α) (count : ℕ) (got : ProviderAnswer) :
    AudioBufferProviderSource α :=
  if s.raw.isNone then
    match s.getNextBuffer stream got with
    | (some status, s) => s.answer status
    | (none, s) => s.readBuffer count
  else s.readBuffer count

/-- `readVia` up to its loop. -/
def readVia (s : AudioBufferProviderSource α) (total block : ℕ) : AudioBufferProviderSource α :=
  { s with
    call := some { total := total, block := if block = 0 then 2 ^ 32 - 1 else block, accumulator := 0 } }

/-- How many frames the callback is offered. -/
def offered (s : AudioBufferProviderSource α) (c : ReadViaCall) : ℕ :=
  if s.frameCount - s.mConsumed < c.count then s.frameCount - s.mConsumed else c.count

/-- A round of the loop of `readVia` with a buffer, of which the callback accepts `ret` frames. -/
def iterateBuffer (s : AudioBufferProviderSource α) (c : ReadViaCall) (ret : ℤ) :
    AudioBufferProviderSource α :=
  if 0 < s.offered c then
    if ret ≤ 0 then s.answer (c.stopped (BitVec.ofInt 32 ret))
    else
      let s := { s.take ret.toNat with
        call := some (c.accept ret.toNat) }
      if s.mConsumed < s.frameCount then s else s.releaseBuffer
  else s.releaseBuffer

/-- A round of the loop of `readVia`. -/
def iterate (stream : ℕ → α) (s : AudioBufferProviderSource α) (c : ReadViaCall)
    (got : ProviderAnswer) (ret : ℤ) : AudioBufferProviderSource α :=
  if c.total - c.accumulator = 0 then s.answer (BitVec.ofNat 32 c.accumulator)
  else if s.raw.isNone then
    match s.getNextBuffer stream got with
    | (some status, s) => s.answer (c.stopped status)
    | (none, s) => s
  else s.iterateBuffer c ret

end AudioBufferProviderSource

inductive SourceEvent
  | read (count : ℕ) (got : ProviderAnswer)
  | readVia (total block : ℕ)
  /-- A round of the loop of the `readVia` under way. -/
  | iterate (got : ProviderAnswer) (ret : ℤ)
  deriving DecidableEq, Repr

/-- A callback accepts no more than it is offered. -/
def sourceStep (stream : ℕ → α) (s : AudioBufferProviderSource α) :
    SourceEvent → Option (AudioBufferProviderSource α)
  | .read count got => if s.call = none then some (s.read stream count got) else none
  | .readVia total block => if s.call = none then some (s.readVia total block) else none
  | .iterate got ret =>
    s.call.bind fun c => if ret ≤ s.offered c then some (s.iterate stream c got ret) else none

/-- What has been taken is the front of the stream, up to the cursor in the buffer that is held. -/
structure AudioBufferProviderSource.Preserves (stream : ℕ → α) (s : AudioBufferProviderSource α) :
    Prop where
  taken : s.taken = slice stream 0 s.taken.length
  length : s.taken.length = s.position + s.mConsumed
  held : ∀ raw ∈ s.raw, ∀ i, raw i = stream (s.position + i)
  idle : s.raw = none → s.mConsumed = 0
  within : s.mConsumed ≤ s.frameCount
  framesRead : s.mFramesRead = BitVec.ofNat 32 s.taken.length
  call : ∀ c ∈ s.call, c.accumulator ≤ c.total ∧ 0 < c.block

namespace AudioBufferProviderSource

variable {stream : ℕ → α} {s : AudioBufferProviderSource α}

theorem preserves_new (stream : ℕ → α) : (new : AudioBufferProviderSource α).Preserves stream where
  taken := rfl
  length := rfl
  held := nofun
  idle := fun _ => rfl
  within := le_rfl
  framesRead := rfl
  call := nofun

section Source

variable (h : s.Preserves stream)

include h

theorem Preserves.answer (result : U32) :
    (s.answer result).Preserves stream :=
  { h with call := nofun }

theorem Preserves.getNextBuffer (hnone : s.raw = none)
    (got : ProviderAnswer) : (s.getNextBuffer stream got).2.Preserves stream := by
  have hzero := h.idle hnone
  cases got with
  | ok frameCount =>
    exact { h with
      held := by rintro _ ⟨rfl⟩ i; rfl
      idle := nofun
      within := by
        simp only [AudioBufferProviderSource.getNextBuffer]
        lia }
  | error status frameCount =>
    exact { h with
      within := by
        simp only [AudioBufferProviderSource.getNextBuffer]
        lia }

omit h in
theorem getNextBuffer_some {got : ProviderAnswer} (hok : (s.getNextBuffer stream got).1 = none) :
    (s.getNextBuffer stream got).2.raw ≠ none := by
  cases got with
  | ok frameCount => exact nofun
  | error status frameCount => cases hok

/-- The cursor moves over the frames that are taken. -/
theorem Preserves.take (hraw : s.raw ≠ none) {count : ℕ}
    (hcount : s.mConsumed + count ≤ s.frameCount) : (s.take count).Preserves stream := by
  obtain ⟨raw, hsome⟩ := Option.ne_none_iff_exists'.mp hraw
  have hslice : slice raw s.mConsumed count = slice stream s.taken.length count := by
    apply List.map_congr_left
    intro i _
    rw [h.held raw hsome, h.length, Nat.add_assoc]
  have htaken : (s.take count).taken = s.taken ++ slice stream s.taken.length count := by
    simp only [AudioBufferProviderSource.take, hsome, Option.map_some, Option.getD_some, hslice]
  have hlength : (s.take count).taken.length = s.taken.length + count := by
    rw [htaken, List.length_append, slice_length]
  exact
    { taken := by
        rw [hlength, slice_add, ← h.taken, Nat.zero_add]
        exact htaken
      length := by
        rw [hlength, h.length, Nat.add_assoc]
        rfl
      held := h.held
      idle := fun hnone => absurd hnone hraw
      within := hcount
      framesRead := by
        rw [hlength, BitVec.ofNat_add, ← h.framesRead]
        rfl
      call := h.call }

/-- A buffer that is used up goes back to the provider. -/
theorem Preserves.releaseBuffer (hend : s.frameCount ≤ s.mConsumed) :
    s.releaseBuffer.Preserves stream :=
  { h with
    length := by
      have hlength := h.length
      have hwithin := h.within
      simp only [AudioBufferProviderSource.releaseBuffer]
      omega
    held := nofun
    idle := fun _ => rfl
    within := le_rfl }

theorem Preserves.readBuffer (hraw : s.raw ≠ none) (count : ℕ) :
    (s.readBuffer count).Preserves stream := by
  have hwithin := h.within
  rw [AudioBufferProviderSource.readBuffer]
  have hmin : s.mConsumed + (if s.frameCount - s.mConsumed < count then s.frameCount - s.mConsumed
      else count) ≤ s.frameCount := by
    split_ifs <;> omega
  generalize (if s.frameCount - s.mConsumed < count then s.frameCount - s.mConsumed else count) = n
    at hmin ⊢
  have htake := h.take hraw hmin
  apply Preserves.answer
  split_ifs with hend
  · exact htake.releaseBuffer hend
  · exact htake

theorem Preserves.read (count : ℕ) (got : ProviderAnswer) :
    (s.read stream count got).Preserves stream := by
  rw [AudioBufferProviderSource.read]
  by_cases hnone : s.raw.isNone
  · rw [if_pos hnone]
    have hgot := h.getNextBuffer (Option.isNone_iff_eq_none.mp hnone) got
    have hraw := @getNextBuffer_some _ stream s got
    split
    · next status s' heq =>
      rw [heq] at hgot
      exact hgot.answer status
    · next s' heq =>
      rw [heq] at hgot hraw
      exact hgot.readBuffer (hraw rfl) count
  · rw [if_neg hnone]
    exact h.readBuffer (fun heq => hnone (by rw [heq]; rfl)) count

omit h in
theorem offered_le (s : AudioBufferProviderSource α) (c : ReadViaCall) :
    s.offered c ≤ s.frameCount - s.mConsumed ∧ s.offered c ≤ c.total - c.accumulator := by
  have hcount : c.count ≤ c.total - c.accumulator := by
    unfold ReadViaCall.count
    split_ifs <;> omega
  unfold offered
  split_ifs <;> omega

theorem Preserves.iterateBuffer {c : ReadViaCall} (hcall : s.call = some c)
    (hraw : s.raw ≠ none) {ret : ℤ} (hret : ret ≤ s.offered c) (hmore : c.total - c.accumulator ≠ 0) :
    (s.iterateBuffer c ret).Preserves stream := by
  have hwithin := h.within
  obtain ⟨hle, hblock⟩ := h.call c hcall
  obtain ⟨hleft, hroom⟩ := s.offered_le c
  rw [AudioBufferProviderSource.iterateBuffer]
  split_ifs with hoffer hstop
  · exact h.answer _
  · have htake : Preserves stream { s.take ret.toNat with call := some (c.accept ret.toNat) } :=
      { h.take hraw (by omega) with
        call := by
          rintro _ ⟨rfl⟩
          have htotal : c.accumulator + ret.toNat ≤ c.total := by omega
          exact ⟨htotal, hblock⟩ }
    dsimp only
    split_ifs with hcursor
    · exact htake
    · exact htake.releaseBuffer (Nat.le_of_not_lt hcursor)
  · -- nothing is offered only when the buffer is used up
    apply h.releaseBuffer
    unfold offered ReadViaCall.count at hoffer
    split_ifs at hoffer <;> omega

theorem Preserves.iterate {c : ReadViaCall} (hcall : s.call = some c)
    (got : ProviderAnswer) {ret : ℤ} (hret : ret ≤ s.offered c) :
    (s.iterate stream c got ret).Preserves stream := by
  rw [AudioBufferProviderSource.iterate]
  split_ifs with hdone hnone
  · exact h.answer _
  · have hgot := h.getNextBuffer (Option.isNone_iff_eq_none.mp hnone) got
    split
    · next status s' heq =>
      rw [heq] at hgot
      exact hgot.answer _
    · next s' heq =>
      rw [heq] at hgot
      exact hgot
  · exact h.iterateBuffer hcall (fun heq => hnone (by rw [heq]; rfl)) hret hdone

end Source

theorem preserves_sourceStep (stream : ℕ → α) (s : AudioBufferProviderSource α) (e : SourceEvent)
    (s' : AudioBufferProviderSource α) (hstep : sourceStep stream s e = some s')
    (h : s.Preserves stream) : s'.Preserves stream := by
  cases e with
  | read count got =>
    simp only [sourceStep, Option.ite_none_right_eq_some, Option.some.injEq] at hstep
    obtain ⟨-, rfl⟩ := hstep
    exact h.read count got
  | readVia total block =>
    simp only [sourceStep, Option.ite_none_right_eq_some, Option.some.injEq] at hstep
    obtain ⟨-, rfl⟩ := hstep
    exact { h with
      call := by
        rintro _ ⟨rfl⟩
        refine ⟨Nat.zero_le _, ?_⟩
        dsimp only
        split_ifs <;> omega }
  | iterate got ret =>
    obtain ⟨c, hcall, hc⟩ := Option.bind_eq_some_iff.mp hstep
    simp only [Option.ite_none_right_eq_some, Option.some.injEq] at hc
    obtain ⟨hret, rfl⟩ := hc
    exact h.iterate hcall got hret

/-- Nothing is taken past what is released and consumed. -/
theorem preserves_run {es : List SourceEvent}
    (hrun : run (sourceStep stream) (new : AudioBufferProviderSource α) es = some s) :
    s.Preserves stream :=
  run_invariant (preserves_sourceStep stream) hrun (preserves_new stream)

end AudioBufferProviderSource

variable {α : Type*}

/-- The size of the block, in frames. -/
def maxBlock : ℕ := 32

/-- An `NBAIO_Source` that is negotiated and leaves `readVia` as it is. -/
structure DefaultSource (α : Type*) where
  /-- The frames that `read` has given. -/
  position : ℕ
  /-- The `readVia` under way. -/
  call : Option ReadViaCall
  /-- The frames accepted by the callbacks. -/
  accepted : List α
  /-- What the calls that have returned answered. -/
  answers : List U32

namespace DefaultSource

def new : DefaultSource α where
  position := 0
  call := none
  accepted := []
  answers := []

/-- `readVia` up to its loop. -/
def readVia (s : DefaultSource α) (total block : ℕ) : DefaultSource α :=
  { s with
    call := some
      { total := total
        block := if block = 0 ∨ maxBlock < block then maxBlock else block
        accumulator := 0 } }

def answer (s : DefaultSource α) (result : U32) : DefaultSource α :=
  { s with
    call := none
    answers := s.answers ++ [result] }

/-- A round of the loop: `read` gives `got` frames or an error, and the callback accepts `ret` of the
frames or answers an error. -/
def iterate (stream : ℕ → α) (s : DefaultSource α) (c : ReadViaCall) (got ret : ℤ) :
    DefaultSource α :=
  if c.accumulator < c.total then
    if 0 < got then
      let buffer := slice stream s.position got.toNat
      let s := { s with position := s.position + got.toNat }
      if 0 < ret then
        { s with
          call := some (c.accept ret.toNat)
          accepted := s.accepted ++ buffer.take ret.toNat }
      else s.answer (c.stopped (BitVec.ofInt 32 ret))
    else s.answer (c.stopped (BitVec.ofInt 32 got))
  else s.answer (BitVec.ofNat 32 c.accumulator)

end DefaultSource

inductive ReadViaEvent
  | readVia (total block : ℕ)
  /-- A round of the loop of the `readVia` under way. -/
  | iterate (got ret : ℤ)
  deriving DecidableEq, Repr

/-- A source gives no more than it is asked for, and a callback accepts no more than it is offered. -/
def readViaStep (stream : ℕ → α) (s : DefaultSource α) : ReadViaEvent → Option (DefaultSource α)
  | .readVia total block => if s.call = none then some (s.readVia total block) else none
  | .iterate got ret =>
    s.call.bind fun c =>
      if got ≤ c.count ∧ ret ≤ got.toNat then some (s.iterate stream c got ret) else none

/-! ## The frames that get lost -/

/-- The callbacks have accepted the front of the stream, and nothing else has been read. -/
def DefaultSource.GapFree (stream : ℕ → α) (s : DefaultSource α) : Prop :=
  s.accepted = slice stream 0 s.accepted.length ∧ s.position = s.accepted.length

/-- A callback that is called accepts all it is offered. -/
def TakesAll (s : DefaultSource α) : ReadViaEvent → Prop
  | .readVia _ _ => True
  | .iterate got ret => ∀ c ∈ s.call, c.accumulator < c.total → 0 < got → ret = got

instance (s : DefaultSource α) (e : ReadViaEvent) : Decidable (TakesAll s e) :=
  match e with
  | .readVia _ _ => inferInstanceAs (Decidable True)
  | .iterate got ret => inferInstanceAs (Decidable (∀ c ∈ s.call, c.accumulator < c.total → 0 < got → ret = got))

section Step

variable {stream : ℕ → α} {s s' : DefaultSource α}

/-- What a step adds to the frames read and to those accepted. -/
theorem readViaStep_spec {e : ReadViaEvent} (hstep : readViaStep stream s e = some s') :
    ∃ m n, n ≤ m ∧ s'.position = s.position + m ∧
      s'.accepted = s.accepted ++ slice stream s.position n ∧ (TakesAll s e ↔ n = m) := by
  cases e with
  | readVia total block =>
    simp only [readViaStep, Option.ite_none_right_eq_some, Option.some.injEq] at hstep
    obtain ⟨-, rfl⟩ := hstep
    exact ⟨0, 0, le_rfl, rfl, (List.append_nil _).symm, by simp [TakesAll]⟩
  | iterate got ret =>
    obtain ⟨c, hcall, hc⟩ := Option.bind_eq_some_iff.mp hstep
    simp only [Option.ite_none_right_eq_some, Option.some.injEq] at hc
    obtain ⟨⟨-, hret⟩, rfl⟩ := hc
    have htakes : TakesAll s (.iterate got ret) ↔ (c.accumulator < c.total → 0 < got → ret = got) := by
      simp [TakesAll, hcall]
    rw [htakes, DefaultSource.iterate]
    by_cases hmore : c.accumulator < c.total
    · by_cases hgot : 0 < got
      · rw [if_pos hmore, if_pos hgot]
        refine ⟨got.toNat, ret.toNat, by lia, ?_, ?_, by simp only [hmore, hgot, forall_const]; lia⟩
        · split_ifs <;> rfl
        · split_ifs with hacc
          · rw [← slice_take _ (show ret.toNat ≤ got.toNat by lia)]
          · have hzero : ret.toNat = 0 := by lia
            rw [hzero]
            exact (List.append_nil _).symm
      · rw [if_pos hmore, if_neg hgot]
        exact ⟨0, 0, le_rfl, rfl, (List.append_nil _).symm, by simp [hgot]⟩
    · rw [if_neg hmore]
      exact ⟨0, 0, le_rfl, rfl, (List.append_nil _).symm, by simp [hmore]⟩

theorem gapFree_step {e : ReadViaEvent} (hok : TakesAll s e)
    (hstep : readViaStep stream s e = some s') (h : s.GapFree stream) : s'.GapFree stream := by
  obtain ⟨m, n, -, hposition, haccepted, htakes⟩ := readViaStep_spec hstep
  obtain rfl := htakes.mp hok
  have hlength : s'.accepted.length = s.accepted.length + n := by
    rw [haccepted, List.length_append, slice_length]
  refine ⟨?_, by rw [hposition, hlength, h.2]⟩
  rw [hlength, slice_add, ← h.1, haccepted, h.2, Nat.zero_add]

/-- Frames that are lost stay lost. -/
theorem accepted_le_run {es : List ReadViaEvent} (hrun : run (readViaStep stream) s es = some s') :
    s.position + s'.accepted.length ≤ s'.position + s.accepted.length := by
  induction es generalizing s with
  | nil =>
    cases hrun
    exact le_rfl
  | cons e es ih =>
    obtain ⟨m, hstep, hrest⟩ := run_cons_some.mp hrun
    obtain ⟨a, b, hle, hposition, haccepted, -⟩ := readViaStep_spec hstep
    have hlength : m.accepted.length = s.accepted.length + b := by
      rw [haccepted, List.length_append, slice_length]
    have hnext := ih hrest
    omega

theorem gapFree_run_iff {es : List ReadViaEvent} (hrun : run (readViaStep stream) s es = some s')
    (h : s.GapFree stream) : s'.GapFree stream ↔ Along (readViaStep stream) TakesAll s es := by
  induction es generalizing s with
  | nil =>
    cases hrun
    exact iff_of_true h trivial
  | cons e es ih =>
    obtain ⟨m, hstep, hrest⟩ := run_cons_some.mp hrun
    constructor
    · intro hgap
      have hok : TakesAll s e := by
        obtain ⟨a, b, hle, hposition, haccepted, htakes⟩ := readViaStep_spec hstep
        have hlength : m.accepted.length = s.accepted.length + b := by
          rw [haccepted, List.length_append, slice_length]
        have hlost := accepted_le_run hrest
        have hnone := hgap.2
        have hnone' := h.2
        exact htakes.mpr (by omega)
      refine ⟨hok, fun s₁ hs₁ => ?_⟩
      obtain rfl : m = s₁ := Option.some.inj (hstep.symm.trans hs₁)
      exact (ih hrest (gapFree_step hok hstep h)).mp hgap
    · rintro ⟨hok, halong⟩
      exact (ih hrest (gapFree_step hok hstep h)).mpr (halong m hstep)

end Step

/-- The specialised `readVia` loses nothing; the default one loses nothing exactly as long as every
callback accepts all it is offered. -/
theorem readVia_gapFree (stream : ℕ → α) :
    (∀ es s, run (sourceStep stream) AudioBufferProviderSource.new es = some s →
      s.taken = slice stream 0 s.taken.length ∧ s.position + s.mConsumed = s.taken.length) ∧
    ∀ es s, run (readViaStep stream) .new es = some s →
      (s.GapFree stream ↔ Along (readViaStep stream) TakesAll .new es) := by
  constructor
  · intro es s hrun
    have h := AudioBufferProviderSource.preserves_run hrun
    exact ⟨h.taken, h.length.symm⟩
  · intro es s hrun
    exact gapFree_run_iff hrun ⟨rfl, rfl⟩

def fiveAccepted : List ReadViaEvent :=
  [.readVia 5 0, .iterate 3 3, .iterate 2 2, .iterate 0 0]

theorem readVia_gapFree_five : ∃ s,
    run (readViaStep (id : ℕ → ℕ)) .new fiveAccepted = some s ∧ s.accepted = [0, 1, 2, 3, 4] ∧
      s.GapFree id :=
  ⟨_, rfl, rfl, ((readVia_gapFree id).2 fiveAccepted _ rfl).mpr (by decide)⟩

/-- The callback accepts one frame of three, of which the specialised `readVia` passes on the other
two and the default one does not. -/
theorem readVia_drops :
    (run (sourceStep (id : ℕ → ℕ)) .new
        [.readVia 3 0, .iterate (.ok 3) 0, .iterate (.ok 0) 1, .iterate (.ok 0) 2]).map
      AudioBufferProviderSource.taken = some [0, 1, 2] ∧
    ∃ s, run (readViaStep (id : ℕ → ℕ)) .new [.readVia 3 0, .iterate 3 1, .iterate 2 2] = some s ∧
      s.accepted = [0, 3, 4] ∧ ¬ s.GapFree id :=
  ⟨by decide, _, rfl, rfl, fun h => absurd h.2 (by decide)⟩

end AudioFlinger.Nbaio
