import AudioFlinger.Mixer.Model

/-!
# What a provider delivers

A call of `process` asks the provider of a track for what is left of its
frames until it has them all or there is no buffer. The chunks that come and
the calls made on the way do not depend on how the frames are mixed.
-/

namespace AudioFlinger.Mixer

open Foundation

/-- What a call of `process` asks of the provider of a track. -/
structure Demand where
  frameCount : U32
  pts : I64
  sLocalTimeFreq : BitVec 64
  sampleRate : U32
  provider : Provider

def State.demand (s : State) (pts : I64) (t : Track) : Demand where
  frameCount := s.frameCount
  pts := pts
  sLocalTimeFreq := s.sLocalTimeFreq
  sampleRate := t.sampleRate
  provider := t.bufferProvider

namespace Demand

variable (d : Demand)

def outputPTS (p : ℕ) : I64 :=
  calculateOutputPTS d.sLocalTimeFreq d.sampleRate d.pts (BitVec.ofNat 32 p)

/-- The number of frames asked for after `p` frames. -/
def request (p : ℕ) : U32 := BitVec.ofNat 32 (d.frameCount.toNat - p)

/-- The call for the frames from `p` on, and the answer to it. -/
def get (p : ℕ) : Call := .getNextBuffer (d.request p) (d.outputPTS p)

def answer (calls : List Call) (p : ℕ) : Option Chunk :=
  d.provider.answer calls (d.request p) (d.outputPTS p)

/-- The chunks that come after `calls` and `p` frames, and the calls at the end. -/
inductive Delivers : List Call → ℕ → List (List U32) → List Call → Prop
  | full (calls : List Call) : Delivers calls d.frameCount.toNat [] calls
  | null {calls : List Call} {p : ℕ} (hp : p < d.frameCount.toNat)
      (hanswer : d.answer calls p = none) : Delivers calls p [] (calls ++ [d.get p])
  | chunk {calls calls' : List Call} {p : ℕ} {c : Chunk} {chunks : List (List U32)}
      (hp : p < d.frameCount.toNat) (hanswer : d.answer calls p = some c)
      (hrest : Delivers (calls ++ [d.get p] ++ [.releaseBuffer c.frames]) (p + c.frames.length)
        chunks calls') : Delivers calls p (c.frames :: chunks) calls'

theorem toNat_request (p : ℕ) : (d.request p).toNat = d.frameCount.toNat - p := by
  have hlt := d.frameCount.isLt
  rw [request, BitVec.toNat_ofNat, Nat.mod_eq_of_lt (by lia)]

theorem chunk_length {calls : List Call} {p : ℕ} {c : Chunk} (h : d.answer calls p = some c) :
    0 < c.frames.length ∧ c.frames.length ≤ d.frameCount.toNat - p := by
  refine ⟨List.length_pos_of_ne_nil (d.provider.nonempty _ _ _ _ h), ?_⟩
  rw [← d.toNat_request]
  exact d.provider.fits _ _ _ _ h

/-- The chunks and the calls at the end, computed. -/
def deliver : ℕ → List Call → ℕ → List (List U32) × List Call
  | 0, calls, _ => ([], calls)
  | fuel + 1, calls, p =>
    if p < d.frameCount.toNat then
      match d.answer calls p with
      | none => ([], calls ++ [d.get p])
      | some c =>
        let rest := deliver fuel (calls ++ [d.get p] ++ [.releaseBuffer c.frames])
          (p + c.frames.length)
        (c.frames :: rest.1, rest.2)
    else ([], calls)

/-- The chunks of a call of `process` whose provider has had `calls`. -/
def chunks (calls : List Call) : List (List U32) := (d.deliver d.frameCount.toNat calls 0).1

theorem delivers_deliver (fuel : ℕ) (calls : List Call) {p : ℕ} (hp : p ≤ d.frameCount.toNat)
    (hfuel : d.frameCount.toNat - p ≤ fuel) :
    d.Delivers calls p (d.deliver fuel calls p).1 (d.deliver fuel calls p).2 := by
  induction fuel generalizing calls p with
  | zero =>
    obtain rfl : p = d.frameCount.toNat := by omega
    exact .full calls
  | succ fuel ih =>
    unfold deliver
    split_ifs with hmore
    · cases hanswer : d.answer calls p with
      | none => exact .null hmore hanswer
      | some c =>
        obtain ⟨hpos, hle⟩ := d.chunk_length hanswer
        exact .chunk hmore hanswer (ih _ (by omega) (by omega))
    · obtain rfl : p = d.frameCount.toNat := by omega
      exact .full calls

theorem delivers_chunks (calls : List Call) :
    d.Delivers calls 0 (d.chunks calls) (d.deliver d.frameCount.toNat calls 0).2 :=
  d.delivers_deliver _ calls (Nat.zero_le _) (Nat.sub_le _ _)

variable {d}

/-- No more frames come than are asked for. -/
theorem Delivers.length_le {calls calls' : List Call} {p : ℕ} {chunks : List (List U32)}
    (h : d.Delivers calls p chunks calls') :
    p + chunks.flatten.length ≤ d.frameCount.toNat := by
  induction h with
  | full => simp
  | null hp =>
    rw [List.flatten_nil, List.length_nil]
    omega
  | chunk hp hanswer hrest ih =>
    rw [List.flatten_cons, List.length_append]
    omega

end Demand

end AudioFlinger.Mixer
