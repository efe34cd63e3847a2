import AudioFlinger.Foundation.Counter

/-!
# The control block shared by a client and its track

`audio_track_cblk_t` holds two free-running 32-bit frame counters, `user` and
`server`, each with the base of the lap of the data buffer it is in, and the
loop markers. `isOut` tells an `AudioTrack` (the client produces) from an
`AudioRecord` (the server produces). A failed `tryLock` is a parameter.
-/

namespace AudioFlinger

/-- The value that stands for "no loop" in the loop markers. -/
abbrev UINT_MAX : U32 := 0xFFFFFFFF#32

namespace TrackShared

def MAX_STARTUP_TIMEOUT_MS : BitVec 16 := 3000#16
def MAX_RUN_TIMEOUT_MS : BitVec 16 := 1000#16

def CBLK_UNDERRUN : U32 := 0x01#32
def CBLK_FORCEREADY : U32 := 0x02#32

/-- The fields of `audio_track_cblk_t` that the stepping functions read or write. -/
structure Cblk where
  user : U32
  server : U32
  userBase : U32
  serverBase : U32
  loopStart : U32
  loopEnd : U32
  loopCount : ℤ
  bufferTimeoutMs : BitVec 16
  flags : U32
  deriving DecidableEq, Repr

/-- An empty buffer with all four counters at `b` and no loop. The constructor starts from
`b = 0`, `restoreTrack_l` from the write index of the dead track. -/
def Cblk.start (b : U32) : Cblk where
  user := b
  server := b
  userBase := b
  serverBase := b
  loopStart := UINT_MAX
  loopEnd := UINT_MAX
  loopCount := 0
  bufferTimeoutMs := MAX_STARTUP_TIMEOUT_MS
  flags := CBLK_UNDERRUN

/-- The base update at the end of `stepUser` and of `stepServer`. -/
def advanceBase (index base frameCount : U32) : U32 :=
  if frameCount ≤ index then
    -- common case, the counter did not just wrap
    if base ≤ index - frameCount then base + frameCount else base
  else if base + frameCount ≤ index then base + frameCount
  else base

/-- The new `user` of `stepUser`. A record client never passes the server. -/
def Cblk.nextUser (c : Cblk) (stepCount : U32) (isOut : Bool) : U32 :=
  if isOut then c.user + stepCount
  else if c.server < c.user + stepCount then c.server
  else c.user + stepCount

def Cblk.stepUser (c : Cblk) (stepCount frameCount : U32) (isOut : Bool) : Cblk :=
  { c with
    user := c.nextUser stepCount isOut
    userBase := advanceBase (c.nextUser stepCount isOut) c.userBase frameCount
    bufferTimeoutMs :=
      if isOut ∧ c.bufferTimeoutMs = MAX_STARTUP_TIMEOUT_MS - 1#16 then MAX_RUN_TIMEOUT_MS
      else c.bufferTimeoutMs
    flags := if c.flags &&& CBLK_UNDERRUN ≠ 0 then c.flags &&& ~~~CBLK_UNDERRUN else c.flags }

/-- The position `stepServer` reaches before it looks at the loop. A playback server that
starts out level with the client takes the step for one made after a flush. -/
def Cblk.serverTarget (c : Cblk) (stepCount : U32) (isOut : Bool) : U32 :=
  if isOut ∧ c.server = c.user then c.user else c.server + stepCount

/-- The jump of `stepServer` from the loop end to the loop start. -/
def Cblk.loopJump (c : Cblk) (s : U32) : U32 := if c.loopEnd ≤ s then c.loopStart else s

/-- The loop markers after a pass over the loop end. -/
def Cblk.loopPass (c : Cblk) (s : U32) : Cblk :=
  if c.loopEnd ≤ s then
    if c.loopCount - 1 = 0 then
      { c with loopCount := 0, loopEnd := UINT_MAX, loopStart := UINT_MAX }
    else { c with loopCount := c.loopCount - 1 }
  else c

/-- `stepServer`; `none` when the lock could not be taken. -/
def Cblk.stepServer (c : Cblk) (stepCount frameCount : U32) (isOut locked : Bool) :
    Option Cblk :=
  if locked then
    let s := c.serverTarget stepCount isOut
    some { c.loopPass s with
      server := c.loopJump s
      serverBase := advanceBase (c.loopJump s) c.serverBase frameCount
      bufferTimeoutMs :=
        if isOut ∧ c.bufferTimeoutMs = MAX_STARTUP_TIMEOUT_MS then MAX_STARTUP_TIMEOUT_MS - 1#16
        else c.bufferTimeoutMs }
  else none

def Cblk.framesAvailable_l (c : Cblk) (frameCount : U32) (isOut : Bool) : U32 :=
  if isOut then
    (if c.server < c.loopStart then c.server else c.loopStart) + frameCount - c.user
  else frameCount + c.user - c.server

def Cblk.framesReady (c : Cblk) (isOut locked : Bool) : U32 :=
  if isOut then
    if c.user < c.loopEnd then c.user - c.server
    -- do not block on a mutex shared with the client
    else if ¬ locked then 0
    else if 0 ≤ c.loopCount then
      (c.loopEnd - c.loopStart) * BitVec.ofInt 32 c.loopCount + c.user - c.server
    else UINT_MAX
  else c.server - c.user

/-! ## The base update -/

/-- The second comparison of the base update is exact unless the counter has not yet passed
`frameCount` while the end of its lap lies beyond the wrap point. This takes a buffer of more
than `2 ^ 31` frames. -/
def BaseExact (index base frameCount : U32) : Prop :=
  ¬ (base ≤ index ∧ index < frameCount ∧ 2 ^ 32 ≤ base.toNat + frameCount.toNat)

instance (index base frameCount : U32) : Decidable (BaseExact index base frameCount) :=
  inferInstanceAs (Decidable (¬ _))

/-- Inside its lap the base moves exactly when the counter reaches the end of the lap. -/
theorem advanceBase_exact {index base frameCount : U32}
    (h : (index - base).toNat ≤ frameCount.toNat) (hex : BaseExact index base frameCount) :
    advanceBase index base frameCount =
      if (index - base).toNat = frameCount.toNat then base + frameCount else base := by
  have hi := index.isLt
  have hb := base.isLt
  have hn := frameCount.isLt
  unfold BaseExact at hex
  unfold advanceBase
  simp only [BitVec.le_def, BitVec.lt_def, BitVec.toNat_sub, BitVec.toNat_add] at *
  split_ifs <;> first | rfl | lia

/-- The base update brings a position `n` frames past the base back into a lap: it lies in the
lap of the base, or in the one behind it where the comparison sees on which side of the wrap
point it is. -/
def Landing (base n frameCount : ℕ) : Prop :=
  n ≤ frameCount ∨ n ≤ 2 * frameCount ∧
    (base + n < 2 ^ 32 ∨ base + n < 2 ^ 32 + frameCount ∧ 2 ^ 32 ≤ base + frameCount)

instance (base n frameCount : ℕ) : Decidable (Landing base n frameCount) :=
  inferInstanceAs (Decidable (_ ∨ _))

theorem Landing.of_le {base n frameCount m : ℕ} (h : Landing base n frameCount) (hm : m ≤ n) :
    Landing base m frameCount := by
  unfold Landing at *
  omega

/-- After the base update the counter lies in the lap of its base, exactly when it landed. -/
theorem advanceBase_lap_iff (index base frameCount : U32) :
    (index - advanceBase index base frameCount).toNat ≤ frameCount.toNat ↔
      Landing base.toNat (index - base).toNat frameCount.toNat := by
  have hi := index.isLt
  have hb := base.isLt
  have hn := frameCount.isLt
  unfold advanceBase Landing
  split_ifs <;>
    simp only [BitVec.le_def, BitVec.toNat_sub, BitVec.toNat_add] at * <;> lia

/-- A step inside the lap ends strictly inside a lap. -/
theorem advanceBase_lap_lt {index base frameCount : U32} (hpos : 0 < frameCount.toNat)
    (h : (index - base).toNat ≤ frameCount.toNat) :
    (index - advanceBase index base frameCount).toNat < frameCount.toNat := by
  have hi := index.isLt
  have hb := base.isLt
  have hn := frameCount.isLt
  unfold advanceBase
  split_ifs <;>
    simp only [BitVec.le_def, BitVec.toNat_sub, BitVec.toNat_add] at * <;> lia

end TrackShared

end AudioFlinger
