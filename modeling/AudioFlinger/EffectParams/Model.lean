import AudioFlinger.Foundation.Bytes

/-!
# Deferred effect parameters

`AudioEffect::setParameterDeferred` of `libs/libmedia/AudioEffect.cpp` and the
branch of `EffectHandle::command` in `libs/audioflinger/Effects.cpp` that commits
what it wrote. A client writes parameters into memory that it shares with the
server, each behind its size, and the server passes them to the engine. Offsets
are relative to the parameter area; `size_t` has 32 bits.
-/

namespace AudioFlinger.EffectParams

open Foundation Bytes RingMemory

/-- `EFFECT_PARAM_BUFFER_SIZE`. -/
def effectParamBufferSize : U32 := 1024

/-- `((n - 1) / sizeof(int) + 1) * sizeof(int)`. -/
def roundWord (n : U32) : U32 := ((n - 1) / 4 + 1) * 4

/-- An `effect_param_t` in memory, with as much data as its sizes say. -/
structure Param where
  status : U32
  psize : U32
  vsize : U32
  data : List Byte
  data_length : data.length = Fields.padded psize.toNat + vsize.toNat
  fits : 12 + data.length < 2 ^ 32

def Param.bytes (p : Param) : List Byte :=
  Bytes.bytes p.status ++ (Bytes.bytes p.psize ++ (Bytes.bytes p.vsize ++ p.data))

/-- The control block and the parameter area. -/
structure Cblk where
  buffer : ℕ → Byte
  clientIndex : U32
  serverIndex : U32

/-- Bytes that are accessed. -/
structure Extent where
  offset : ℕ
  length : ℕ
deriving DecidableEq

def Extent.stop (e : Extent) : ℕ := e.offset + e.length

/-! ## The client -/

inductive DeferredError
  | badValue
  | noMemory
deriving DecidableEq

/-- `setParameterDeferred`, with what it writes. -/
def setParameterDeferred (param : Param) (c : Cblk) : Except DeferredError (Cblk × List Extent) :=
  if param.psize = 0 ∨ param.vsize = 0 then .error .badValue
  else
    let psize := roundWord param.psize + param.vsize
    let size := roundWord (12 + psize)
    if c.clientIndex + size > effectParamBufferSize then .error .noMemory
    else
      let p := c.clientIndex.toNat
      let n := (12 + psize).toNat
      .ok ({ c with
        buffer := blit (blit c.buffer p (bytes size)) (p + 4) (param.bytes.take n)
        clientIndex := c.clientIndex + size }, [⟨p, 4⟩, ⟨p + 4, n⟩])

/-! ## The server -/

/-- What the engine answers to a command; 0 is `NO_ERROR`. -/
structure Answer where
  ret : ℤ
  reply : ℤ
deriving DecidableEq

/-- A command `EFFECT_CMD_SET_PARAM`: where its parameter is, the size that is passed, the bytes
there, and the size in front of it. -/
structure Passed where
  offset : ℕ
  psize : U32
  bytes : List Byte
  size : U32
deriving DecidableEq

/-- The state of the loop, with what it read and passed. -/
structure Commit where
  serverIndex : U32
  reads : List Extent
  passed : List Passed
  status : ℤ
  replyData : Option ℤ
deriving DecidableEq

/-- One round of the loop, and whether it goes on. -/
def Commit.round (buffer : ℕ → Byte) (clientIndex : U32) (engine : List Passed → Answer) (r : Commit) :
    Commit × Bool :=
  let s := r.serverIndex.toNat
  let size := load 32 buffer s
  let r : Commit := { r with reads := r.reads ++ [⟨s, 4⟩] }
  if (s : ℤ) + 4 + size.toInt > clientIndex.toNat then (r, false)
  else
    let psize := load 32 buffer (s + 8)
    let r : Commit := { r with reads := r.reads ++ [⟨s + 8, 4⟩] }
    if psize = 0 then ({ r with serverIndex := r.serverIndex + size }, true)
    else
      let vsize := load 32 buffer (s + 12)
      let r : Commit := { r with reads := r.reads ++ [⟨s + 12, 4⟩] }
      if vsize = 0 then ({ r with serverIndex := r.serverIndex + size }, true)
      else
        let total := 12 + roundWord psize + vsize
        let command : Passed := ⟨s + 4, total, slice buffer (s + 4) total.toNat, size⟩
        let r : Commit := { r with passed := r.passed ++ [command] }
        let answer := engine r.passed
        if answer.ret ≠ 0 then ({ r with status := answer.ret, replyData := some answer.reply }, false)
        else if answer.reply ≠ 0 then ({ r with replyData := some answer.reply }, false)
        else ({ r with serverIndex := r.serverIndex + size }, true)

/-- The loop, for a number of rounds. -/
def Commit.loop (buffer : ℕ → Byte) (clientIndex : U32) (engine : List Passed → Answer) :
    ℕ → Commit → Option Commit
  | 0, _ => none
  | n + 1, r =>
    if r.serverIndex < clientIndex then
      let next := r.round buffer clientIndex engine
      if next.2 then loop buffer clientIndex engine n next.1 else some next.1
    else some r

/-- `BAD_VALUE`. -/
def badValue : ℤ := -22

/-- `EFFECT_CMD_SET_PARAM_COMMIT`: the control block after it, and what the loop did. -/
def commit (fuel : ℕ) (engine : List Passed → Answer) (c : Cblk) : Option (Cblk × Commit) :=
  if c.clientIndex > effectParamBufferSize ∨ c.serverIndex > effectParamBufferSize then
    some ({ c with
      clientIndex := 0
      serverIndex := 0 }, ⟨0, [], [], badValue, none⟩)
  else
    (Commit.loop c.buffer c.clientIndex engine fuel ⟨c.serverIndex, [], [], 0, none⟩).map fun r =>
      ({ c with
         clientIndex := 0
         serverIndex := 0 }, r)

/-! ## Sizes -/

theorem roundWord_toNat {n : U32} (hpos : n ≠ 0) (h : Fields.padded n.toNat < 2 ^ 32) :
    (roundWord n).toNat = Fields.padded n.toNat := by
  have hn : 0 < n.toNat := by
    rw [Nat.pos_iff_ne_zero]
    exact fun h => hpos (BitVec.eq_of_toNat_eq h)
  have hsub : (n - 1).toNat = n.toNat - 1 := by
    rw [BitVec.toNat_sub_of_le]
    · rfl
    · exact BitVec.le_def.mpr hn
  have hfour : (4 : U32).toNat = 4 := rfl
  have hone : (1 : U32).toNat = 1 := rfl
  rw [roundWord, BitVec.toNat_mul, BitVec.toNat_add, BitVec.toNat_udiv, hsub, hfour, hone]
  unfold Fields.padded at h ⊢
  omega

end AudioFlinger.EffectParams
