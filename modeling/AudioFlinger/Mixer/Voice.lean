import AudioFlinger.Mixer.Delivery

/-!
# One track in one block

At constant gain a block takes the next frames of a track, wherever the chunks
of its provider end, and adds the same to the sums of each.
-/

namespace AudioFlinger.Mixer

open Foundation RingMemory Counter

/-! ## Adding to the sums -/

/-- What a track at constant gain adds for a frame. -/
def Track.add (t : Track) : U32 → Sums → Sums :=
  match t.hook with
  | .track__nop => fun _ sums => sums
  | .track__16BitsMono => constantMono t
  | .track__16BitsStereo => constantStereo t

theorem addOut_nil (out : List (I32 × I32)) : addOut out [] = out := by
  cases out <;> rfl

@[simp] theorem addOut_length (out : List (I32 × I32)) (adds : List (Sums → Sums)) :
    (addOut out adds).length = out.length := by
  induction out generalizing adds with
  | nil => rfl
  | cons sums out ih =>
    cases adds with
    | nil => rfl
    | cons add adds => simp [addOut, ih]

theorem addOut_append (out : List (I32 × I32)) (adds adds' : List (Sums → Sums)) :
    addOut out (adds ++ adds') =
      (addOut out adds).take adds.length ++ addOut ((addOut out adds).drop adds.length) adds' := by
  induction adds generalizing out with
  | nil => simp [addOut_nil]
  | cons add adds ih =>
    cases out with
    | nil => simp [addOut]
    | cons sums out => simp [addOut, ih]

theorem addOut_nop (out : List (I32 × I32)) (frames : List U32) :
    addOut out (frames.map fun _ sums => sums) = out := by
  induction frames generalizing out with
  | nil => exact addOut_nil out
  | cons rl frames ih =>
    cases out with
    | nil => rfl
    | cons sums out => rw [List.map_cons, addOut, ih]

/-! ## What a track owes -/

/-- The frames of the buffer held that have not been mixed. -/
def Track.unread (t : Track) : List U32 := t.buffer.drop (t.buffer.length - t.frameCount.toNat)

/-- Only what the calls of its provider change is different. -/
def Track.Keeps (t t' : Track) : Prop :=
  t' = { t with
    frameCount := t'.frameCount
    buffer := t'.buffer
    input := t'.input
    calls := t'.calls }

theorem Track.Keeps.refl (t : Track) : t.Keeps t := rfl

theorem Track.Keeps.trans {t t' t'' : Track} (h : t.Keeps t') (h' : t'.Keeps t'') :
    t.Keeps t'' := by
  unfold Track.Keeps at h h'
  rw [h] at h'
  exact h'

section Keeps

variable {t t' : Track} (h : t.Keeps t')

include h

theorem Track.Keeps.add : t'.add = t.add := by
  unfold Track.Keeps at h
  rw [h]
  rfl

theorem Track.Keeps.bufferProvider :
    t'.bufferProvider = t.bufferProvider := by
  unfold Track.Keeps at h
  rw [h]

theorem Track.Keeps.sampleRate : t'.sampleRate = t.sampleRate := by
  unfold Track.Keeps at h
  rw [h]

theorem Track.Keeps.volumeInc : t'.volumeInc = t.volumeInc := by
  unfold Track.Keeps at h
  rw [h]

theorem Track.Keeps.volumeRL : t'.volumeRL = t.volumeRL := by
  unfold Track.Keeps at h
  rw [h]

theorem Track.Keeps.hook : t'.hook = t.hook := by
  unfold Track.Keeps at h
  rw [h]

theorem Track.Keeps.needs : t'.needs = t.needs := by
  unfold Track.Keeps at h
  rw [h]

theorem Track.Keeps.mainBuffer : t'.mainBuffer = t.mainBuffer := by
  unfold Track.Keeps at h
  rw [h]

theorem Track.Keeps.auxBuffer : t'.auxBuffer = t.auxBuffer := by
  unfold Track.Keeps at h
  rw [h]

theorem Track.Keeps.ramps (aux : Bool) :
    t'.ramps aux = t.ramps aux := by
  unfold Track.Keeps at h
  rw [h]
  rfl

end Keeps

/-- What a call of the provider changes. -/
theorem Track.getNextBuffer_spec {d : Demand} {p : ℕ} {t t' : Track} {answer : Option Chunk}
    (hprovider : t.bufferProvider = d.provider)
    (hget : t.getNextBuffer (d.request p) (d.outputPTS p) = (answer, t')) :
    d.answer t.calls p = answer ∧ t'.calls = t.calls ++ [d.get p] ∧
      t'.buffer = (answer.map Chunk.frames).getD [] ∧ t.Keeps t' := by
  cases hget
  exact ⟨by rw [Demand.answer, hprovider], rfl, rfl, rfl⟩

/-- From position `p` on the track has `frames` to be mixed, after which its provider has had
`calls`. -/
structure Owes (d : Demand) (p : ℕ) (t : Track) (frames : List U32) (calls : List Call) :
    Prop where
  provider : t.bufferProvider = d.provider
  rate : t.sampleRate = d.sampleRate
  constant : t.volumeInc = (0#32, 0#32)
  held : t.frameCount.toNat ≤ t.buffer.length
  input : t.hook ≠ .track__nop → t.input = t.unread
  delivers : ∃ chunks, frames = t.unread ++ chunks.flatten ∧
    d.Delivers (t.calls ++ [.releaseBuffer t.buffer]) (p + t.frameCount.toNat) chunks calls ∧
    ∀ c ∈ chunks, c.length < 2 ^ 16

section Feed

variable {d : Demand} {p : ℕ} {frames : List U32} {calls : List Call}

theorem Owes.unread_length {t : Track} (h : Owes d p t frames calls) :
    t.unread.length = t.frameCount.toNat := by
  have hheld := h.held
  rw [Track.unread, List.length_drop]
  omega

theorem toNat_sub_ofNat {c : BitVec 16} {n : ℕ} (h : n ≤ c.toNat) :
    (c - BitVec.ofNat 16 n).toNat = c.toNat - n := by
  have hlt := c.isLt
  rw [BitVec.toNat_sub, BitVec.toNat_ofNat]
  omega

theorem hook16Bits_constant {ramp : Gains → U32 → Sums → Sums}
    {constant : Track → U32 → Sums → Sums} {t : Track} {aux : Option (List I32)}
    (h : t.ramps aux.isSome = false) (out : List (I32 × I32)) (n : ℕ) :
    hook16Bits ramp constant t out n aux =
      ({ t with input := t.input.drop n },
        addOut out ((t.input.take n).map (constant { t with input := t.input.drop n })),
        aux.map (addAux · ((t.input.take n).map (constant { t with input := t.input.drop n })))) := by
  have hramps : ¬ Track.ramps { t with input := t.input.drop n } aux.isSome = true := by
    rw [Bool.not_eq_true]
    exact h
  unfold hook16Bits
  exact if_neg hramps

/-- A hook at constant gain, with or without a send. -/
theorem Owes.call_hook {t : Track} (h : Owes d p t frames calls) {aux : Option (List I32)}
    (hramps : t.ramps aux.isSome = false) (out : List (I32 × I32)) (n : ℕ) :
    ∃ input aux', t.hook.call t out n aux =
        ({ t with input := input }, addOut out ((t.unread.take n).map t.add), aux') ∧
      (t.hook ≠ .track__nop → input = t.unread.drop n) := by
  have hkind : t.hook = .track__nop ∨ t.hook = .track__16BitsMono ∨
      t.hook = .track__16BitsStereo := by
    cases t.hook <;> simp
  rcases hkind with hhook | hhook | hhook
  · have hcall : t.hook.call = track__nop := by rw [hhook]; rfl
    have hadd : t.add = fun _ sums => sums := by rw [Track.add, hhook]
    refine ⟨t.input, aux, ?_, fun hne => absurd hhook hne⟩
    rw [hcall, hadd, addOut_nop]
    rfl
  · have hcall : t.hook.call = hook16Bits rampMono constantMono := by rw [hhook]; rfl
    have hadd : t.add = constantMono t := by rw [Track.add, hhook]
    have hinput : t.input = t.unread := h.input (by rw [hhook]; decide)
    refine ⟨t.unread.drop n, aux.map (addAux · ((t.unread.take n).map t.add)), ?_, fun _ => rfl⟩
    rw [hcall, hadd, hook16Bits_constant hramps, hinput]
    rfl
  · have hcall : t.hook.call = hook16Bits rampStereo constantStereo := by rw [hhook]; rfl
    have hadd : t.add = constantStereo t := by rw [Track.add, hhook]
    have hinput : t.input = t.unread := h.input (by rw [hhook]; decide)
    refine ⟨t.unread.drop n, aux.map (addAux · ((t.unread.take n).map t.add)), ?_, fun _ => rfl⟩
    rw [hcall, hadd, hook16Bits_constant hramps, hinput]
    rfl

/-- The voice does not write in `buffer`. -/
def Voice.Apart (v : Voice) (buffer : ℕ) : Prop := v.aux.isSome = true → buffer ≠ v.t.auxBuffer

theorem Voice.Apart.of_keeps {v v₁ : Voice} {buffer : ℕ} (h : v.Apart buffer)
    (haux : v₁.aux.isSome = v.aux.isSome) (hkeeps : v.t.Keeps v₁.t) : v₁.Apart buffer := by
  rw [Voice.Apart, haux, hkeeps.auxBuffer]
  exact h

theorem Voice.feed_mem (v : Voice) (n : ℕ) {buffer : ℕ} (h : v.Apart buffer) {t : Track}
    {out : List (I32 × I32)} {aux : Option (List I32)}
    (hcall : v.t.hook.call v.t (v.outTemp.drop (BLOCKSIZE - v.outFrames)) n
      (v.aux.map fun pos => slice (v.mem v.t.auxBuffer) pos n) = (t, out, aux))
    (hbuffer : t.auxBuffer = v.t.auxBuffer) : (v.feed n).mem buffer = v.mem buffer := by
  unfold Voice.feed
  dsimp only
  rw [hcall]
  dsimp only
  cases hsome : v.aux with
  | none => rfl
  | some pos =>
    have hne : buffer ≠ t.auxBuffer := by
      rw [hbuffer]
      exact h (by rw [hsome]; rfl)
    cases aux with
    | none => rfl
    | some sums => exact Function.update_of_ne hne _ _

/-- The hook takes the next frames of the buffer. -/
theorem Owes.feed {v : Voice} (h : Owes d p v.t frames calls)
    (hramps : v.t.ramps v.aux.isSome = false)
    {front back : List (I32 × I32)} (hout : v.outTemp = front ++ back)
    (hfront : front.length = BLOCKSIZE - v.outFrames) {n : ℕ} (hn : n ≤ v.t.frameCount.toNat) :
    (∀ buffer, v.Apart buffer → (v.feed n).mem buffer = v.mem buffer) ∧
      (v.feed n).aux.isSome = v.aux.isSome ∧ (v.feed n).outFrames = v.outFrames - n ∧
      (v.feed n).t.frameCount.toNat = v.t.frameCount.toNat - n ∧ v.t.Keeps (v.feed n).t ∧
      (v.feed n).outTemp = front ++ addOut back ((frames.take n).map v.t.add) ∧
      Owes d (p + n) (v.feed n).t (frames.drop n) calls := by
  obtain ⟨chunks, hframes, hdelivers, hsmall⟩ := h.delivers
  have hlen := h.unread_length
  have hheld := h.held
  have htake : frames.take n = v.t.unread.take n := by
    rw [hframes, List.take_append_of_le_length (by lia)]
  have hdrop : v.outTemp.drop (BLOCKSIZE - v.outFrames) = back := by
    rw [hout, ← hfront, List.drop_left]
  have hkept : v.outTemp.take (BLOCKSIZE - v.outFrames) = front := by
    rw [hout, ← hfront, List.take_left]
  have hcount := toNat_sub_ofNat hn
  have hsend : (v.aux.map fun pos => slice (v.mem v.t.auxBuffer) pos n).isSome = v.aux.isSome :=
    Option.isSome_map
  obtain ⟨input, aux, hcall, hinput⟩ := h.call_hook (hsend.symm ▸ hramps) back n
  have hmem (buffer : ℕ) (hapart : v.Apart buffer) : (v.feed n).mem buffer = v.mem buffer :=
    v.feed_mem n hapart (t := { v.t with input := input }) (by rw [hdrop]; exact hcall) rfl
  have hfeed : v.feed n =
      { t := { v.t with
          input := input
          frameCount := v.t.frameCount - BitVec.ofNat 16 n }
        mem := (v.feed n).mem
        outTemp := front ++ addOut back ((v.t.unread.take n).map v.t.add)
        outFrames := v.outFrames - n
        aux := v.aux.map (· + n) } := by
    unfold Voice.feed
    simp only [hdrop, hkept, hcall]
  have hunread : (v.feed n).t.unread = v.t.unread.drop n := by
    rw [hfeed]
    unfold Track.unread
    dsimp only
    rw [hcount, List.drop_drop]
    congr 1
    lia
  rw [htake]
  refine ⟨hmem, by rw [hfeed]; exact Option.isSome_map, by rw [hfeed],
    by rw [hfeed]; exact hcount, by rw [hfeed]; rfl, by rw [hfeed], ?_⟩
  exact
    { provider := by
        rw [hfeed]
        exact h.provider
      rate := by
        rw [hfeed]
        exact h.rate
      constant := by
        rw [hfeed]
        exact h.constant
      held := by
        rw [hfeed]
        dsimp only
        lia
      input := by
        rw [hunread, hfeed]
        exact hinput
      delivers := by
        refine ⟨chunks, ?_, ?_, hsmall⟩
        · rw [hunread, hframes, List.drop_append_of_le_length (by lia)]
        · have hpos : p + n + (v.t.frameCount.toNat - n) = p + v.t.frameCount.toNat := by lia
          rw [hfeed]
          dsimp only
          rw [hcount, hpos]
          exact hdelivers }

end Feed

/-! ## The loop -/

/-- The next `n` frames are mixed, or all that there are, after which the track is left out. -/
def Mixed (d : Demand) (p n : ℕ) (frames : List U32) (calls : List Call) (t : Track)
    (enabled : Bool) : Prop :=
  if n ≤ frames.length then enabled = true ∧ Owes d (p + n) t (frames.drop n) calls
  else enabled = false ∧ t.calls = calls

theorem Mixed.of_drop {d : Demand} {p n m : ℕ} {frames : List U32} {calls : List Call} {t : Track}
    {enabled : Bool} (hn : n ≤ frames.length) (hm : n ≤ m)
    (h : Mixed d (p + n) (m - n) (frames.drop n) calls t enabled) :
    Mixed d p m frames calls t enabled := by
  unfold Mixed at *
  have hpos : p + n + (m - n) = p + m := by omega
  have hindex : n + (m - n) = m := by omega
  rw [List.length_drop, List.drop_drop, hpos, hindex] at h
  split_ifs at * with hfew
  all_goals first | exact h | omega

/-- The passes of the loop that are still to come. -/
def Voice.work (v : Voice) : ℕ :=
  if v.outFrames = 0 then 0 else v.outFrames + if v.t.frameCount.toNat = 0 then 1 else 0

theorem Voice.work_of_not_fetch {v : Voice}
    (h : ¬(v.t.frameCount.toNat = 0 ∧ v.outFrames ≠ 0)) : v.work = v.outFrames := by
  unfold Voice.work
  split_ifs <;> omega

/-- A pass leaves less to do. -/
theorem Voice.left_lt {v : Voice} {n fuel : ℕ} (hdone : v.outFrames ≠ 0)
    (hn : n = min v.outFrames v.t.frameCount.toNat) (hwork : v.work < fuel + 1) :
    v.outFrames - n < fuel := by
  unfold Voice.work at hwork
  rw [if_neg hdone] at hwork
  split_ifs at hwork <;> omega

/-- What the loop makes of a voice. -/
structure Voice.Result (d : Demand) (p : ℕ) (v : Voice) (front back : List (I32 × I32))
    (frames : List U32) (calls : List Call) (v' : Voice) (enabled : Bool) : Prop where
  mem : ∀ buffer, v.Apart buffer → v'.mem buffer = v.mem buffer
  keeps : v.t.Keeps v'.t
  outTemp : v'.outTemp = front ++ addOut back ((frames.take v.outFrames).map v.t.add)
  mixed : Mixed d p v.outFrames frames calls v'.t enabled

section Loop

variable {d : Demand} {p : ℕ} {frames : List U32} {calls : List Call}

/-- A pass that takes `n` frames, and the passes after it. -/
theorem Voice.Result.after {v v₁ v' : Voice} {front back : List (I32 × I32)} {n : ℕ}
    {enabled : Bool} (hn : n ≤ frames.length) (hout : n ≤ v.outFrames)
    (hmem : ∀ buffer, v.Apart buffer → v₁.mem buffer = v.mem buffer)
    (haux : v₁.aux.isSome = v.aux.isSome) (hleft : v₁.outFrames = v.outFrames - n) (hkeeps : v.t.Keeps v₁.t)
    (h : Voice.Result d (p + n) v₁
      (front ++ (addOut back ((frames.take n).map v.t.add)).take n)
      ((addOut back ((frames.take n).map v.t.add)).drop n) (frames.drop n) calls v' enabled) :
    Voice.Result d p v front back frames calls v' enabled where
  mem := fun buffer hapart =>
    (h.mem buffer (hapart.of_keeps haux hkeeps)).trans (hmem buffer hapart)
  keeps := hkeeps.trans h.keeps
  outTemp := by
    have hsplit : frames.take v.outFrames =
        frames.take n ++ (frames.drop n).take (v.outFrames - n) := by
      rw [← List.take_add, Nat.add_sub_cancel' hout]
    have hlen : ((frames.take n).map v.t.add).length = n := by
      rw [List.length_map, List.length_take, Nat.min_eq_left hn]
    rw [h.outTemp, hkeeps.add, hleft, hsplit, List.map_append, addOut_append, hlen,
      List.append_assoc]
  mixed := by
    have hmixed := h.mixed
    rw [hleft] at hmixed
    exact hmixed.of_drop hn hout

/-- The buffer a track gets, as the loop keeps it. -/
def Track.refill (t : Track) : Track :=
  { t with
    frameCount := BitVec.ofNat 16 t.buffer.length
    input := t.buffer }

theorem Track.refill_frameCount {t : Track} (h : t.buffer.length < 2 ^ 16) :
    t.refill.frameCount.toNat = t.buffer.length := by
  rw [Track.refill, BitVec.toNat_ofNat, Nat.mod_eq_of_lt h]

theorem Track.refill_unread {t : Track} (h : t.buffer.length < 2 ^ 16) :
    t.refill.unread = t.buffer := by
  have hbuffer : t.refill.buffer = t.buffer := rfl
  rw [Track.unread, Track.refill_frameCount h, hbuffer, Nat.sub_self, List.drop_zero]

/-- A track with a new chunk owes it and what comes after it. -/
theorem Owes.of_chunk {t : Track} {chunks : List (List U32)}
    (hprovider : t.bufferProvider = d.provider) (hrate : t.sampleRate = d.sampleRate)
    (hconstant : t.volumeInc = (0#32, 0#32)) (hlen : t.buffer.length < 2 ^ 16)
    (hsmall : ∀ c ∈ chunks, c.length < 2 ^ 16)
    (hrest : d.Delivers (t.calls ++ [.releaseBuffer t.buffer]) (p + t.buffer.length) chunks calls) :
    Owes d p t.refill (t.buffer ++ chunks.flatten) calls where
  provider := hprovider
  rate := hrate
  constant := hconstant
  held := Nat.le_of_eq (Track.refill_frameCount hlen)
  input := fun _ => (Track.refill_unread hlen).symm
  delivers := by
    refine ⟨chunks, by rw [Track.refill_unread hlen], ?_, hsmall⟩
    rw [Track.refill_frameCount hlen]
    exact hrest

/-- The first buffer of a track, after which it owes all that comes. -/
theorem Demand.Delivers.first {t t' : Track} {chunks : List (List U32)}
    (h : d.Delivers t.calls 0 chunks calls) (hprovider : t.bufferProvider = d.provider)
    (hrate : t.sampleRate = d.sampleRate) (hconstant : t.volumeInc = (0#32, 0#32))
    (hsmall : ∀ c ∈ chunks, c.length < 2 ^ 16) {answer : Option Chunk}
    (hget : t.getNextBuffer (d.request 0) (d.outputPTS 0) = (answer, t')) :
    (chunks = [] → answer = none ∧ (0 < d.frameCount.toNat → t'.calls = calls)) ∧
      (chunks ≠ [] → answer.isNone = false ∧ t.Keeps t'.refill ∧
        Owes d 0 t'.refill chunks.flatten calls) := by
  obtain ⟨hanswer, hcalls, hbuffer, hkeeps⟩ := Track.getNextBuffer_spec hprovider hget
  generalize hp : 0 = p at h
  cases h with
  | full =>
    refine ⟨fun _ => ⟨?_, fun hpos => by lia⟩, fun hne => absurd rfl hne⟩
    rw [← hanswer]
    by_contra hsome
    obtain ⟨c, hc⟩ := Option.ne_none_iff_exists'.mp hsome
    have hlen := d.chunk_length hc
    lia
  | null hlt hnull =>
    subst hp
    rw [hnull] at hanswer
    exact ⟨fun _ => ⟨hanswer.symm, fun _ => hcalls⟩, fun hne => absurd rfl hne⟩
  | @chunk _ _ _ c rest hlt hchunk hrest =>
    subst hp
    rw [hchunk] at hanswer
    subst hanswer
    rw [Option.map_some, Option.getD_some] at hbuffer
    have hlen := hsmall c.frames List.mem_cons_self
    rw [← hbuffer] at hlen
    refine ⟨fun hnil => absurd hnil (List.cons_ne_nil _ _), fun _ => ⟨rfl, hkeeps.trans rfl, ?_⟩⟩
    rw [List.flatten_cons, ← hbuffer]
    refine Owes.of_chunk (hkeeps.bufferProvider.trans hprovider) (hkeeps.sampleRate.trans hrate)
      (hkeeps.volumeInc.trans hconstant) hlen
      (fun c' hc' => hsmall c' (List.mem_cons_of_mem _ hc')) ?_
    rw [hcalls, hbuffer]
    exact hrest

/-- A track that has mixed its buffer goes on with the next chunk, if there is one. -/
theorem Owes.next {t : Track} (h : Owes d p t frames calls) (hempty : t.frameCount = 0#16)
    (hp : p < d.frameCount.toNat) {answer : Option Chunk} {t' : Track}
    (hget : t.releaseBuffer.getNextBuffer (d.request p) (d.outputPTS p) = (answer, t')) :
    (answer = none → frames = [] ∧ t'.calls = calls) ∧
      ∀ c, answer = some c → Owes d p t'.refill frames calls ∧ t'.refill.frameCount ≠ 0#16 := by
  obtain ⟨chunks, hframes, hdelivers, hsmall⟩ := h.delivers
  have hunread : t.unread = [] := by
    rw [← List.length_eq_zero_iff, h.unread_length, hempty]
    rfl
  rw [hunread, List.nil_append] at hframes
  rw [hempty, show (0#16).toNat = 0 from rfl, Nat.add_zero] at hdelivers
  obtain ⟨hanswer, hcalls, hbuffer, hkeeps⟩ := Track.getNextBuffer_spec (t := t.releaseBuffer) h.provider hget
  cases hdelivers with
  | full => exact absurd hp (Nat.lt_irrefl _)
  | null hp hnull =>
    refine ⟨fun _ => ⟨hframes, hcalls⟩, fun c hsome => ?_⟩
    exact absurd ((hanswer.trans hsome).symm.trans hnull) nofun
  | @chunk _ _ _ c chunks hp hchunk hrest =>
    have hsome := hanswer.symm.trans hchunk
    refine ⟨fun hnull => absurd (hnull.symm.trans hsome) nofun, fun _ _ => ?_⟩
    rw [hsome, Option.map_some, Option.getD_some] at hbuffer
    have hlen := hsmall c.frames List.mem_cons_self
    rw [← hbuffer] at hlen
    refine ⟨?_, fun hzero => ?_⟩
    · rw [hframes, List.flatten_cons, ← hbuffer]
      refine Owes.of_chunk (hkeeps.bufferProvider.trans h.provider)
        (hkeeps.sampleRate.trans h.rate) (hkeeps.volumeInc.trans h.constant) hlen
        (fun c' hc' => hsmall c' (List.mem_cons_of_mem _ hc')) ?_
      rw [hcalls, hbuffer]
      exact hrest
    · have hcount := Track.refill_frameCount hlen
      have hpos := (d.chunk_length hchunk).1
      have hnone : (0#16).toNat = 0 := rfl
      rw [hzero, hbuffer] at hcount
      omega

/-- The first half of a pass, which may find the buffer mixed already. -/
theorem Owes.pass {v : Voice} (h : Owes d p v.t frames calls)
    (hramps : v.t.ramps v.aux.isSome = false)
    {front back : List (I32 × I32)} (hout : v.outTemp = front ++ back)
    (hfront : front.length + v.outFrames = BLOCKSIZE) {n : ℕ} (hn : n ≤ v.t.frameCount.toNat)
    {v₁ : Voice} (hv : (if n ≠ 0 then v.feed n else v) = v₁) :
    (∀ buffer, v.Apart buffer → v₁.mem buffer = v.mem buffer) ∧
      v₁.aux.isSome = v.aux.isSome ∧ v₁.outFrames = v.outFrames - n ∧
      v₁.t.frameCount.toNat = v.t.frameCount.toNat - n ∧ v.t.Keeps v₁.t ∧
      v₁.outTemp = front ++ addOut back ((frames.take n).map v.t.add) ∧
      Owes d (p + n) v₁.t (frames.drop n) calls := by
  subst hv
  by_cases hzero : n = 0
  · subst hzero
    rw [if_neg (not_not.mpr rfl), List.take_zero, List.map_nil, addOut_nil]
    exact ⟨fun _ _ => rfl, rfl, rfl, rfl, .refl _, hout, h⟩
  · rw [if_pos hzero]
    exact h.feed hramps hout (by omega) hn

/-- What the loop asks the provider for after `n` frames of the block. -/
theorem Demand.asked {s : State} {numFrames : U32} (hcount : s.frameCount = d.frameCount)
    (hfreq : s.sLocalTimeFreq = d.sLocalTimeFreq)
    (hroom : numFrames.toNat + BLOCKSIZE ≤ d.frameCount.toNat) {t : Track}
    (hrate : t.sampleRate = d.sampleRate) {n : ℕ} (hn : n ≤ BLOCKSIZE) :
    s.frameCount - numFrames - BitVec.ofNat 32 n = d.request (numFrames.toNat + n) ∧
      calculateOutputPTS s.sLocalTimeFreq t.sampleRate d.pts (numFrames + BitVec.ofNat 32 n) =
        d.outputPTS (numFrames.toNat + n) := by
  have hsum := (counts_toNat numFrames).add (counts_ofNat (w := 32) n)
  have hdiff := ((counts_toNat d.frameCount).sub (counts_toNat numFrames) (by omega)).sub
    (counts_ofNat n) (by omega)
  constructor
  · rw [hcount]
    exact hdiff.congr (Nat.sub_sub _ _ _)
  · rw [hsum.eq, hfreq, hrate]
    rfl

/-- The loop ends, with the next frames of the track mixed. -/
theorem mixVoice_result {s : State} {numFrames : U32} (hcount : s.frameCount = d.frameCount)
    (hfreq : s.sLocalTimeFreq = d.sLocalTimeFreq)
    (hroom : numFrames.toNat + BLOCKSIZE ≤ d.frameCount.toNat) (fuel : ℕ) (v : Voice)
    (front back : List (I32 × I32)) (hramps : v.t.ramps v.aux.isSome = false)
    (hout : v.outTemp = front ++ back) (hfront : front.length + v.outFrames = BLOCKSIZE) (hback : back.length = v.outFrames)
    (h : Owes d (numFrames.toNat + front.length) v.t frames calls) (hwork : v.work < fuel) :
    ∃ v' enabled, mixVoice s d.pts numFrames fuel v = some (v', enabled) ∧
      Voice.Result d (numFrames.toNat + front.length) v front back frames calls v' enabled := by
  induction fuel generalizing v front back frames with
  | zero => lia
  | succ fuel ih =>
    unfold mixVoice
    by_cases hdone : v.outFrames = 0
    · rw [if_pos hdone]
      refine ⟨v, true, rfl, fun _ _ => rfl, .refl _, ?_, ?_⟩
      · rw [hdone, List.take_zero, List.map_nil, addOut_nil, hout]
      · rw [hdone, Mixed, if_pos (Nat.zero_le _)]
        exact ⟨rfl, h⟩
    · rw [if_neg hdone]
      dsimp only
      generalize hn : (if v.outFrames < v.t.frameCount.toNat then v.outFrames
        else v.t.frameCount.toNat) = n
      have hmin : n = min v.outFrames v.t.frameCount.toNat := by
        rw [← hn]
        split_ifs <;> lia
      generalize hv : (if n ≠ 0 then v.feed n else v) = v₁
      obtain ⟨hmem, haux₁, hleft, hheld, hkeeps, hout₁, h₁⟩ :=
        h.pass hramps hout hfront (by lia) hv
      have hlen : n ≤ frames.length := by
        obtain ⟨chunks, hframes, -⟩ := h.delivers
        rw [hframes, List.length_append, h.unread_length]
        lia
      have hsplit : (addOut back ((frames.take n).map v.t.add)).take n ++
          (addOut back ((frames.take n).map v.t.add)).drop n =
          addOut back ((frames.take n).map v.t.add) := List.take_append_drop n _
      have hmixed : ((addOut back ((frames.take n).map v.t.add)).take n).length = n := by
        rw [List.length_take, addOut_length]
        lia
      -- the passes after this one
      have hrest (v₂ : Voice) (hmem₂ : ∀ buffer, v.Apart buffer → v₂.mem buffer = v.mem buffer)
          (haux₂ : v₂.aux.isSome = v.aux.isSome) (hleft₂ : v₂.outFrames = v.outFrames - n) (hkeeps₂ : v.t.Keeps v₂.t)
          (hout₂ : v₂.outTemp = front ++ addOut back ((frames.take n).map v.t.add))
          (h₂ : Owes d (numFrames.toNat + front.length + n) v₂.t (frames.drop n) calls)
          (hwork₂ : v₂.work < fuel) :
          ∃ v' enabled, mixVoice s d.pts numFrames fuel v₂ = some (v', enabled) ∧
            Voice.Result d (numFrames.toNat + front.length) v front back frames calls v' enabled := by
        have hlength : (front ++ (addOut back ((frames.take n).map v.t.add)).take n).length =
            front.length + n := by rw [List.length_append, hmixed]
        obtain ⟨v', enabled, hrun, hresult⟩ := ih v₂
          (front ++ (addOut back ((frames.take n).map v.t.add)).take n)
          ((addOut back ((frames.take n).map v.t.add)).drop n)
          (by rw [haux₂, hkeeps₂.ramps]; exact hramps)
          (by rw [hout₂, List.append_assoc, hsplit]) (by lia)
          (by rw [List.length_drop, addOut_length]; lia)
          (by rw [hlength, ← Nat.add_assoc]; exact h₂) hwork₂
        rw [hlength, ← Nat.add_assoc] at hresult
        exact ⟨v', enabled, hrun, hresult.after hlen (by lia) hmem₂ haux₂ hleft₂ hkeeps₂⟩
      have hempty : v₁.t.frameCount = 0#16 ↔ v₁.t.frameCount.toNat = 0 := by
        rw [← BitVec.toNat_inj]
        rfl
      have hshorter := Voice.left_lt hdone hmin hwork
      by_cases hfetch : v₁.t.frameCount = 0#16 ∧ v₁.outFrames ≠ 0
      · rw [if_pos hfetch]
        rw [hempty] at hfetch
        have hposition : BLOCKSIZE - v₁.outFrames = front.length + n := by lia
        obtain ⟨hrequest, hpts⟩ := Demand.asked hcount hfreq hroom h₁.rate
          (show front.length + n ≤ BLOCKSIZE by lia)
        rw [hposition, hrequest, hpts, ← Nat.add_assoc]
        generalize hget : v₁.t.releaseBuffer.getNextBuffer
          (d.request (numFrames.toNat + front.length + n))
          (d.outputPTS (numFrames.toNat + front.length + n)) = r
        obtain ⟨answer, t'⟩ := r
        obtain ⟨hnull, hsome⟩ := h₁.next (hempty.mpr hfetch.1) (by lia) hget
        have hkept : v₁.t.Keeps { t' with input := t'.buffer } ∧ v₁.t.Keeps t'.refill := by
          cases hget
          exact ⟨rfl, rfl⟩
        cases answer with
        | none =>
          obtain ⟨hframes, hcalls⟩ := hnull rfl
          have hall : frames.length ≤ n := by
            rw [← List.drop_eq_nil_iff]
            exact hframes
          refine ⟨_, false, rfl, hmem, hkeeps.trans hkept.1, ?_, ?_⟩
          · dsimp only
            rw [hout₁, List.take_of_length_le hall, List.take_of_length_le (by lia)]
          · rw [Mixed, if_neg (by lia)]
            exact ⟨rfl, hcalls⟩
        | some c =>
          obtain ⟨hnext, hpos⟩ := hsome c rfl
          refine hrest { v₁ with t := t'.refill } hmem haux₁ hleft (hkeeps.trans hkept.2) hout₁
            hnext ?_
          have hcount₂ : t'.refill.frameCount.toNat ≠ 0 := fun hzero =>
            hpos (BitVec.eq_of_toNat_eq hzero)
          rw [Voice.work_of_not_fetch fun h => hcount₂ h.1]
          exact hleft ▸ hshorter
      · rw [if_neg hfetch]
        rw [hempty] at hfetch
        refine hrest v₁ hmem haux₁ hleft hkeeps hout₁ h₁ ?_
        rw [Voice.work_of_not_fetch hfetch, hleft]
        exact hshorter

theorem Owes.length_le {t : Track} (h : Owes d p t frames calls) :
    p + frames.length ≤ d.frameCount.toNat := by
  obtain ⟨chunks, hframes, hdelivers, -⟩ := h.delivers
  have hle := hdelivers.length_le
  rw [hframes, List.length_append, h.unread_length]
  omega

/-- At the end the buffer held is the last one. -/
theorem Owes.finished {t : Track} (h : Owes d d.frameCount.toNat t frames calls) :
    t.releaseBuffer.calls = calls := by
  obtain ⟨chunks, -, hdelivers, -⟩ := h.delivers
  generalize hp : d.frameCount.toNat + t.frameCount.toNat = p at hdelivers
  cases hdelivers with
  | full => rfl
  | null hlt => omega
  | chunk hlt => omega

/-- A track whose send is added to its aux buffer. -/
def Track.Sends (t : Track) : Prop := t.needs &&& NEEDS_AUX__MASK = NEEDS_AUX_ENABLED

instance (t : Track) : Decidable t.Sends := inferInstanceAs (Decidable (_ = _))

theorem mixTrack_owes {b : Block} {numFrames : U32} {i : Fin MAX_NUM_TRACKS} (fuel : ℕ)
    (hcount : b.s.frameCount = d.frameCount) (hfreq : b.s.sLocalTimeFreq = d.sLocalTimeFreq)
    (hroom : numFrames.toNat + BLOCKSIZE ≤ d.frameCount.toNat)
    (hramps : (b.s.tracks i).ramps (decide (b.s.tracks i).Sends) = false)
    (hout : b.outTemp.length = BLOCKSIZE)
    (h : Owes d numFrames.toNat (b.s.tracks i) frames calls)
    (hfuel : BLOCKSIZE + 1 < fuel) :
    ∃ t mem enabled,
      mixTrack d.pts numFrames fuel b i =
        some
          { s := { b.s.setTrack i t with mem := mem }
            enabledTracks := if enabled then b.enabledTracks else b.enabledTracks &&& ~~~bit i
            e1 := if enabled then b.e1 else b.e1 &&& ~~~bit i
            outTemp := addOut b.outTemp ((frames.take BLOCKSIZE).map (b.s.tracks i).add) } ∧
      (∀ buffer, ((b.s.tracks i).Sends → buffer ≠ (b.s.tracks i).auxBuffer) →
        mem buffer = b.s.mem buffer) ∧
      (b.s.tracks i).Keeps t ∧ Mixed d numFrames.toNat BLOCKSIZE frames calls t enabled := by
  generalize hsend : (if (b.s.tracks i).Sends then some numFrames.toNat else none) = aux
  have hsome : aux.isSome = decide (b.s.tracks i).Sends := by
    rw [← hsend]
    split_ifs with hsends <;> simp [hsends]
  have hwork : Voice.work ⟨b.s.tracks i, b.s.mem, b.outTemp, BLOCKSIZE, aux⟩ < fuel := by
    unfold Voice.work
    dsimp only
    split_ifs <;> omega
  obtain ⟨v, enabled, hrun, hresult⟩ := mixVoice_result hcount hfreq hroom fuel
    ⟨b.s.tracks i, b.s.mem, b.outTemp, BLOCKSIZE, aux⟩ [] b.outTemp (by rw [hsome]; exact hramps)
    rfl rfl hout h hwork
  refine ⟨v.t, v.mem, enabled, ?_, fun buffer hapart => hresult.mem buffer fun haux => ?_,
    hresult.keeps, hresult.mixed⟩
  · unfold mixTrack
    dsimp only
    change Option.map _ (mixVoice b.s d.pts numFrames fuel
      ⟨b.s.tracks i, b.s.mem, b.outTemp, BLOCKSIZE,
        if (b.s.tracks i).Sends then some numFrames.toNat else none⟩) = _
    rw [hsend, hrun, Option.map_some, hresult.outTemp]
    rfl
  · rw [hsome, decide_eq_true_iff] at haux
    exact hapart haux

end Loop

end AudioFlinger.Mixer
