import AudioFlinger.Mixer.PathAgreement

/-!
# Where the send of a track goes

When some track is resampled, the others are mixed chunk by chunk, without
blocks. The hook adds the send of a chunk from a cursor on, which the loop
moves itself.
-/

namespace AudioFlinger.Mixer

open Foundation RingMemory Counter

/-! ## What a hook adds -/

/-- What a 16-bit hook adds for the next `n` frames. -/
def adds16Bits (ramp : Gains → U32 → Sums → Sums) (constant : Track → U32 → Sums → Sums)
    (t : Track) (n : ℕ) (aux : Bool) : List (Sums → Sums) :=
  if t.ramps aux then
    (rampFrames ramp { vl := t.volumeInc.1, vr := t.volumeInc.2, va := t.auxInc }
      { vl := t.prevVolume.1, vr := t.prevVolume.2, va := t.prevAuxLevel } (t.input.take n)).1
  else (t.input.take n).map (constant { t with input := t.input.drop n })

def Track.adds (t : Track) (n : ℕ) (aux : Bool) : List (Sums → Sums) :=
  match t.hook with
  | .track__nop => []
  | .track__16BitsMono => adds16Bits rampMono constantMono t n aux
  | .track__16BitsStereo => adds16Bits rampStereo constantStereo t n aux

/-- A hook changes nothing that the provider and the loop depend on. -/
structure Track.Retains (t t' : Track) : Prop where
  bufferProvider : t'.bufferProvider = t.bufferProvider
  sampleRate : t'.sampleRate = t.sampleRate
  calls : t'.calls = t.calls
  buffer : t'.buffer = t.buffer
  hook : t'.hook = t.hook
  auxBuffer : t'.auxBuffer = t.auxBuffer

theorem Track.Retains.releaseBuffer_calls {t t' : Track} (h : t.Retains t') :
    t'.releaseBuffer.calls = t.calls ++ [.releaseBuffer t.buffer] := by
  rw [Track.releaseBuffer, h.calls, h.buffer]

theorem rampFrames_length (ramp : Gains → U32 → Sums → Sums) (inc g : Gains) (frames : List U32) :
    (rampFrames ramp inc g frames).1.length = frames.length := by
  induction frames generalizing g with
  | nil => rfl
  | cons rl frames ih => simp [rampFrames, ih]

theorem adds16Bits_length (ramp : Gains → U32 → Sums → Sums)
    (constant : Track → U32 → Sums → Sums) (t : Track) (n : ℕ) (aux : Bool) :
    (adds16Bits ramp constant t n aux).length = min n t.input.length := by
  unfold adds16Bits
  split_ifs
  · rw [rampFrames_length, List.length_take]
  · rw [List.length_map, List.length_take]

theorem hook16Bits_eq (ramp : Gains → U32 → Sums → Sums) (constant : Track → U32 → Sums → Sums)
    (t : Track) (out : List (I32 × I32)) (n : ℕ) (aux : Option (List I32)) :
    t.Retains (hook16Bits ramp constant t out n aux).1 ∧
      (hook16Bits ramp constant t out n aux).2 =
        (addOut out (adds16Bits ramp constant t n aux.isSome),
          aux.map (addAux · (adds16Bits ramp constant t n aux.isSome))) := by
  unfold hook16Bits adds16Bits
  by_cases hramps : t.ramps aux.isSome = true
  · have hramps' : Track.ramps { t with input := t.input.drop n } aux.isSome = true := hramps
    rw [if_pos hramps']
    rw [if_pos hramps]
    exact ⟨⟨rfl, rfl, rfl, rfl, rfl, rfl⟩, rfl⟩
  · have hramps' : ¬ Track.ramps { t with input := t.input.drop n } aux.isSome = true := hramps
    rw [if_neg hramps']
    rw [if_neg hramps]
    exact ⟨⟨rfl, rfl, rfl, rfl, rfl, rfl⟩, rfl⟩

theorem Track.adds_length (t : Track) (n : ℕ) (aux : Bool) :
    (t.adds n aux).length = if t.hook = .track__nop then 0 else min n t.input.length := by
  unfold Track.adds
  cases t.hook with
  | track__nop => rfl
  | track__16BitsMono => exact adds16Bits_length _ _ _ _ _
  | track__16BitsStereo => exact adds16Bits_length _ _ _ _ _

theorem addAux_nil (sums : List I32) : addAux sums [] = [] := by
  cases sums <;> rfl

/-- A hook leaves the sums of the frames as they are, or adds to them. -/
theorem Track.call_hook (t : Track) (out : List (I32 × I32)) (n : ℕ) (aux : Option (List I32)) :
    t.Retains (t.hook.call t out n aux).1 ∧
      (t.hook.call t out n aux).2.1 = addOut out (t.adds n aux.isSome) ∧
      (t.hook.call t out n aux).2.2 =
        if t.hook = .track__nop then aux else aux.map (addAux · (t.adds n aux.isSome)) := by
  unfold Track.adds
  cases hhook : t.hook with
  | track__nop => exact ⟨⟨rfl, rfl, rfl, rfl, rfl, rfl⟩, (addOut_nil out).symm, rfl⟩
  | track__16BitsMono =>
    obtain ⟨hretains, hcall⟩ := hook16Bits_eq rampMono constantMono t out n aux
    exact ⟨hretains, congrArg Prod.fst hcall, congrArg Prod.snd hcall⟩
  | track__16BitsStereo =>
    obtain ⟨hretains, hcall⟩ := hook16Bits_eq rampStereo constantStereo t out n aux
    exact ⟨hretains, congrArg Prod.fst hcall, congrArg Prod.snd hcall⟩

theorem Mem.write_slice (mem : Mem) (buffer pos n : ℕ) :
    mem.write buffer pos (slice (mem buffer) pos n) = mem := by
  rw [Mem.write, blit_slice, Function.update_eq_self]

/-! ## The loop over the chunks of a track -/

/-- A call of the hook: how many frames of the track came before, what it added for its frames, and
the word of the aux buffer where it began. -/
structure HookCall where
  first : ℕ
  adds : List (Sums → Sums)
  aux : Option ℕ

/-- The loop `while (outFrames < numFrames)` of a track that is not resampled. -/
structure Unresampled where
  t : Track
  mem : Mem
  outTemp : List (I32 × I32)
  outFrames : ℕ
  /-- The cursor into the aux buffer, for a track with a send. -/
  aux : Option ℕ
  /-- The calls of the hook so far. -/
  hooks : List HookCall

/-- Mix the chunk held. -/
def Unresampled.mix (v : Unresampled) : Unresampled :=
  let aux := v.aux.map (· + v.outFrames)
  let frameCount := v.t.buffer.length
  let called := v.t.hook.call v.t (v.outTemp.drop v.outFrames) frameCount
    (aux.map fun pos => slice (v.mem v.t.auxBuffer) pos frameCount)
  { t := called.1.releaseBuffer
    mem :=
      match aux, called.2.2 with
      | some pos, some sums => v.mem.write v.t.auxBuffer pos sums
      | _, _ => v.mem
    outTemp := v.outTemp.take v.outFrames ++ called.2.1
    outFrames := v.outFrames + frameCount
    aux := aux
    hooks := v.hooks ++ [⟨v.outFrames, v.t.adds frameCount aux.isSome, aux⟩] }

def mixUnresampled (s : State) (pts : I64) : ℕ → Unresampled → Option Unresampled
  | 0, _ => none
  | fuel + 1, v =>
    if v.outFrames < s.frameCount.toNat then
      let (answer, t) := v.t.getNextBuffer (s.frameCount - BitVec.ofNat 32 v.outFrames)
        (calculateOutputPTS s.sLocalTimeFreq v.t.sampleRate pts (BitVec.ofNat 32 v.outFrames))
      let v := { v with t := { t with input := t.buffer } }
      if answer.isNone then some v else mixUnresampled s pts fuel v.mix
    else some v

/-- A track of `process__genericResampling` that is not resampled. -/
def mixUnresampledTrack (s : State) (pts : I64) (fuel : ℕ) (outTemp : List (I32 × I32))
    (i : Fin MAX_NUM_TRACKS) : Option Unresampled :=
  let t := s.tracks i
  let aux := if t.needs &&& NEEDS_AUX__MASK = NEEDS_AUX_ENABLED then some 0 else none
  mixUnresampled s pts fuel
    { t := t, mem := s.mem, outTemp := outTemp, outFrames := 0, aux := aux, hooks := [] }

/-! ## The sends -/

/-- Add the send of a call. -/
def HookCall.send (buffer : ℕ) (mem : Mem) (c : HookCall) : Mem :=
  match c.aux with
  | none => mem
  | some pos => mem.write buffer pos (addAux (slice (mem buffer) pos c.adds.length) c.adds)

/-- The send of each frame is added at the word of its number. -/
def HookCall.Placed (c : HookCall) : Prop :=
  ∀ k < c.adds.length, c.aux.map (· + k) = some (c.first + k)

theorem HookCall.placed_iff (c : HookCall) :
    c.Placed ↔ c.adds = [] ∨ c.aux = some c.first := by
  constructor
  · intro h
    rcases List.eq_nil_or_concat c.adds with hnil | ⟨adds, add, hadds⟩
    · exact Or.inl hnil
    · have hfirst := h 0 (by rw [hadds]; simp)
      exact Or.inr (by simpa using hfirst)
  · rintro (hnil | hfirst) k hk
    · rw [hnil] at hk
      exact absurd hk (Nat.not_lt_zero k)
    · rw [hfirst]
      rfl

/-- Where the sends of the chunks begin: the cursor moves by all the frames that came before. -/
def cursors : ℕ → ℕ → List (List U32) → List (ℕ × Option ℕ)
  | _, _, [] => []
  | aux, first, c :: chunks =>
    (first, some (aux + first)) :: cursors (aux + first) (first + c.length) chunks

/-- The cursor is right for two chunks. -/
theorem cursors_iff {chunks : List (List U32)} (hne : ∀ c ∈ chunks, c ≠ []) :
    (∀ x ∈ cursors 0 0 chunks, x.2 = some x.1) ↔ chunks.length ≤ 2 := by
  match chunks with
  | [] | [_] | [_, _] => simp [cursors]
  | c :: c' :: _ :: _ =>
    have hpos : 0 < c.length := List.length_pos_of_ne_nil (hne c List.mem_cons_self)
    constructor
    · intro h
      have hthird := h (c.length + c'.length, some (c.length + (c.length + c'.length)))
        (by simp [cursors])
      rw [Option.some_inj] at hthird
      omega
    · intro hlen
      simp only [List.length_cons] at hlen
      omega

/-- What the frame `j` of `adds` makes of a word. -/
def sentAt (adds : List (Sums → Sums)) (j : ℕ) (word : I32) : I32 :=
  (adds[j]?.map fun add => (add { left := 0#32, right := 0#32, aux := word }).aux).getD word

theorem HookCall.send_apply {c : HookCall} {pos : ℕ} (haux : c.aux = some pos) (buffer : ℕ)
    (mem : Mem) (j : ℕ) :
    c.send buffer mem buffer j =
      if pos ≤ j then sentAt c.adds (j - pos) (mem buffer j) else mem buffer j := by
  unfold HookCall.send
  rw [haux]
  dsimp only
  rw [Mem.write, Function.update_self]
  unfold blit sentAt addAux
  split_ifs with hj
  · rw [List.getElem?_zipWith]
    by_cases hk : j - pos < c.adds.length
    · have hword : (slice (mem buffer) pos c.adds.length)[j - pos]? = some (mem buffer j) := by
        have hindex : pos + (j - pos) = j := Nat.add_sub_cancel' hj
        rw [slice, List.getElem?_map, List.getElem?_range hk, Option.map_some, hindex]
      rw [hword, List.getElem?_eq_getElem hk]
      rfl
    · have hnone : c.adds[j - pos]? = none := List.getElem?_eq_none (Nat.not_lt.mp hk)
      rw [hnone]
      cases (slice (mem buffer) pos c.adds.length)[j - pos]? <;> rfl
  · rfl

/-- Each call goes on with the frames where the one before ended. -/
def Consecutive : ℕ → List HookCall → Prop
  | _, [] => True
  | p, c :: calls => (c.adds ≠ [] → c.first = p) ∧ Consecutive (p + c.adds.length) calls

theorem sentAt_append (adds adds' : List (Sums → Sums)) (j : ℕ) (word : I32) :
    sentAt (adds ++ adds') j word =
      if j < adds.length then sentAt adds j word else sentAt adds' (j - adds.length) word := by
  unfold sentAt
  split_ifs with hj
  · rw [List.getElem?_append_left hj]
  · rw [List.getElem?_append_right (Nat.not_lt.mp hj)]

theorem sentAt_of_length_le {adds : List (Sums → Sums)} {j : ℕ} (h : adds.length ≤ j) (word : I32) :
    sentAt adds j word = word := by
  rw [sentAt, List.getElem?_eq_none h]
  rfl

/-- Where every send is placed, the word `j` gets the send of the frame `j`. -/
theorem foldl_send (buffer : ℕ) {calls : List HookCall} (hplaced : ∀ c ∈ calls, c.Placed) {p : ℕ}
    (h : Consecutive p calls) (mem : Mem) (j : ℕ) :
    calls.foldl (HookCall.send buffer) mem buffer j =
      if p ≤ j then sentAt (calls.flatMap HookCall.adds) (j - p) (mem buffer j)
      else mem buffer j := by
  induction calls generalizing p mem with
  | nil =>
    split_ifs
    · rfl
    · rfl
  | cons c calls ih =>
    have hstep : c.send buffer mem buffer j =
        if p ≤ j then sentAt c.adds (j - p) (mem buffer j) else mem buffer j := by
      rcases c.placed_iff.mp (hplaced c List.mem_cons_self) with hnil | haux
      · have hsame : c.send buffer mem buffer j = mem buffer j := by
          cases haux : c.aux with
          | none => rw [HookCall.send, haux]
          | some pos =>
            rw [c.send_apply haux, hnil]
            split_ifs <;> rfl
        rw [hsame, hnil]
        split_ifs <;> rfl
      · by_cases hnil : c.adds = []
        · rw [c.send_apply haux, hnil]
          split_ifs <;> rfl
        · rw [c.send_apply haux, h.1 hnil]
    rw [List.foldl_cons, ih (fun c' hc' => hplaced c' (List.mem_cons_of_mem _ hc')) h.2, hstep,
      List.flatMap_cons, sentAt_append]
    by_cases hbefore : p ≤ j
    · rw [if_pos hbefore, if_pos hbefore]
      by_cases hafter : p + c.adds.length ≤ j
      · have hout : c.adds.length ≤ j - p := by omega
        rw [if_pos hafter, if_neg (Nat.not_lt.mpr hout), sentAt_of_length_le hout, Nat.sub_add_eq]
      · rw [if_neg hafter, if_pos (by omega)]
    · rw [if_neg hbefore, if_neg hbefore, if_neg (by omega)]

/-! ## The run -/

/-- The loop goes on at frame `p`, with its cursor at `aux`, and the provider has had `calls`. -/
structure Unresampled.At (d : Demand) (calls : List Call) (p aux : ℕ) (v : Unresampled) : Prop where
  provider : v.t.bufferProvider = d.provider
  rate : v.t.sampleRate = d.sampleRate
  calls : v.t.calls = calls
  outFrames : v.outFrames = p
  aux : v.aux = some aux

/-- What the loop makes of the chunks that come. -/
structure Unresampled.Sent (v v' : Unresampled) (p aux : ℕ) (chunks : List (List U32))
    (calls : List HookCall) : Prop where
  hooks : v'.hooks = v.hooks ++ calls
  cursors : calls.map (fun c => (c.first, c.aux)) = cursors aux p chunks
  lengths : calls.map (fun c => c.adds.length) =
    chunks.map fun c => if v.t.hook = .track__nop then 0 else c.length
  mem : v'.mem = calls.foldl (HookCall.send v.t.auxBuffer) v.mem

section Run

variable {d : Demand} {calls calls' : List Call} {p aux : ℕ}

theorem Unresampled.At.mix {v : Unresampled} (h : v.At d calls p aux)
    (hinput : v.t.input = v.t.buffer) :
    v.mix.At d (calls ++ [.releaseBuffer v.t.buffer]) (p + v.t.buffer.length) (aux + p) ∧
      v.mix.t.hook = v.t.hook ∧ v.mix.t.auxBuffer = v.t.auxBuffer ∧
      v.Sent v.mix p aux [v.t.buffer]
        [⟨p, v.t.adds v.t.buffer.length true, some (aux + p)⟩] := by
  have haux : v.aux.map (· + v.outFrames) = some (aux + p) := by
    rw [h.aux, h.outFrames, Option.map_some]
  obtain ⟨hretains, -, hsent⟩ := v.t.call_hook (v.outTemp.drop v.outFrames) v.t.buffer.length
    ((v.aux.map (· + v.outFrames)).map fun pos =>
      slice (v.mem v.t.auxBuffer) pos v.t.buffer.length)
  have hcalls : v.mix.t.calls = calls ++ [.releaseBuffer v.t.buffer] := by
    rw [← h.calls]
    exact hretains.releaseBuffer_calls
  have hlength : (v.t.adds v.t.buffer.length true).length =
      if v.t.hook = .track__nop then 0 else v.t.buffer.length := by
    rw [v.t.adds_length, hinput, Nat.min_self]
  refine ⟨⟨hretains.bufferProvider.trans h.provider, hretains.sampleRate.trans h.rate, hcalls,
    congrArg (· + v.t.buffer.length) h.outFrames, haux⟩, hretains.hook, hretains.auxBuffer, ?_⟩
  exact
    { hooks := by
        unfold Unresampled.mix
        dsimp only
        rw [haux, h.outFrames]
        rfl
      cursors := rfl
      lengths := congrArg (fun n => [n]) hlength
      mem := by
        unfold Unresampled.mix
        dsimp only
        rw [hsent, haux, List.foldl_cons, List.foldl_nil, HookCall.send, hlength]
        by_cases hnop : v.t.hook = .track__nop
        · have hadds : v.t.adds v.t.buffer.length true = [] := by
            rw [Track.adds, hnop]
          rw [if_pos hnop, if_pos hnop, hadds]
          dsimp only [Option.map_some]
          rw [v.mem.write_slice, addAux_nil]
          exact (v.mem.write_slice v.t.auxBuffer (aux + p) 0).symm
        · rw [if_neg hnop, if_neg hnop]
          rfl }

theorem Unresampled.Sent.trans {v v₁ v' : Unresampled} {chunk : List U32} {chunks : List (List U32)}
    {sent sent' : List HookCall} (h : v.Sent v₁ p aux [chunk] sent) (hhook : v₁.t.hook = v.t.hook)
    (hbuffer : v₁.t.auxBuffer = v.t.auxBuffer)
    (h' : v₁.Sent v' (p + chunk.length) (aux + p) chunks sent') :
    v.Sent v' p aux (chunk :: chunks) (sent ++ sent') where
  hooks := by rw [h'.hooks, h.hooks, List.append_assoc]
  cursors := by
    rw [List.map_append, h.cursors, h'.cursors]
    rfl
  lengths := by
    rw [List.map_append, h.lengths, h'.lengths, hhook]
    rfl
  mem := by rw [h'.mem, h.mem, hbuffer, List.foldl_append]

theorem Unresampled.Sent.of_keeps {v v' : Unresampled} {t : Track} {chunks : List (List U32)}
    {sent : List HookCall} (hkeeps : v.t.Keeps t)
    (h : Unresampled.Sent { v with t := { t with input := t.buffer } } v' p aux chunks sent) :
    v.Sent v' p aux chunks sent where
  hooks := h.hooks
  cursors := h.cursors
  lengths := by
    rw [h.lengths, ← hkeeps.hook]
  mem := by
    rw [h.mem, ← hkeeps.auxBuffer]

/-- What the loop asks the provider for after `p` frames. -/
theorem Unresampled.At.asked {s : State} (hcount : s.frameCount = d.frameCount)
    (hfreq : s.sLocalTimeFreq = d.sLocalTimeFreq) {v : Unresampled} (h : v.At d calls p aux)
    (hp : p < d.frameCount.toNat) :
    s.frameCount - BitVec.ofNat 32 v.outFrames = d.request p ∧
      calculateOutputPTS s.sLocalTimeFreq v.t.sampleRate d.pts (BitVec.ofNat 32 v.outFrames) =
        d.outputPTS p := by
  rw [hcount, hfreq, h.rate, h.outFrames]
  exact ⟨((counts_toNat d.frameCount).sub (counts_ofNat p) hp.le).eq, rfl⟩

/-- The loop ends, having called the hook once for each chunk. -/
theorem mixUnresampled_sent {s : State} (hcount : s.frameCount = d.frameCount)
    (hfreq : s.sLocalTimeFreq = d.sLocalTimeFreq) {chunks : List (List U32)}
    (hdelivers : d.Delivers calls p chunks calls') (fuel : ℕ) (v : Unresampled)
    (h : v.At d calls p aux) (hfuel : chunks.length < fuel) :
    ∃ v' sent, mixUnresampled s d.pts fuel v = some v' ∧ v'.t.calls = calls' ∧
      v.Sent v' p aux chunks sent := by
  induction hdelivers generalizing fuel v aux with
  | full calls =>
    obtain ⟨fuel, rfl⟩ := Nat.exists_eq_succ_of_ne_zero (Nat.ne_zero_of_lt hfuel)
    refine ⟨v, [], ?_, h.calls, (List.append_nil _).symm, rfl, rfl, rfl⟩
    rw [mixUnresampled, h.outFrames, hcount, if_neg (Nat.lt_irrefl _)]
  | @null calls p hp hnull =>
    obtain ⟨fuel, rfl⟩ := Nat.exists_eq_succ_of_ne_zero (Nat.ne_zero_of_lt hfuel)
    obtain ⟨hrequest, hpts⟩ := h.asked hcount hfreq hp
    generalize hget : v.t.getNextBuffer (d.request p) (d.outputPTS p) = r
    obtain ⟨answer, t⟩ := r
    obtain ⟨hanswer, hcalls, -, -⟩ := Track.getNextBuffer_spec h.provider hget
    rw [h.calls, hnull] at hanswer
    subst hanswer
    refine ⟨{ v with t := { t with input := t.buffer } }, [], ?_, ?_, (List.append_nil _).symm, rfl,
      rfl, rfl⟩
    · rw [mixUnresampled, hrequest, hpts, hget, hcount, if_pos (h.outFrames ▸ hp)]
      rfl
    · rw [← h.calls]
      exact hcalls
  | @chunk calls calls' p c chunks hp hchunk hrest ih =>
    obtain ⟨fuel, rfl⟩ := Nat.exists_eq_succ_of_ne_zero (Nat.ne_zero_of_lt hfuel)
    obtain ⟨hrequest, hpts⟩ := h.asked hcount hfreq hp
    generalize hget : v.t.getNextBuffer (d.request p) (d.outputPTS p) = r
    obtain ⟨answer, t⟩ := r
    obtain ⟨hanswer, hcalls, hbuffer, hkeeps⟩ := Track.getNextBuffer_spec h.provider hget
    rw [h.calls, hchunk] at hanswer
    subst hanswer
    rw [Option.map_some, Option.getD_some] at hbuffer
    have hheld : Unresampled.At d (calls ++ [d.get p]) p aux
        { v with t := { t with input := t.buffer } } :=
      ⟨hkeeps.bufferProvider.trans h.provider, hkeeps.sampleRate.trans h.rate, h.calls ▸ hcalls,
        h.outFrames, h.aux⟩
    rw [← hbuffer] at ih ⊢
    obtain ⟨hat, hhook, haux, hsent⟩ := hheld.mix rfl
    obtain ⟨v', sent, hrun, hcalls', hrest'⟩ := ih fuel _ hat (Nat.lt_of_succ_lt_succ hfuel)
    refine ⟨v', _, ?_, hcalls', (hsent.trans hhook haux hrest').of_keeps hkeeps⟩
    rw [mixUnresampled, hrequest, hpts, hget, hcount, if_pos (h.outFrames ▸ hp)]
    exact hrun

end Run

/-! ## The blocks of the path without resampling -/

/-- The cursor of a block is at the frame that comes next. -/
def Voice.Aligned (numFrames : U32) (v : Voice) : Prop :=
  v.outFrames ≤ BLOCKSIZE ∧
    ∀ pos, v.aux = some pos → pos = numFrames.toNat + (BLOCKSIZE - v.outFrames)

/-- Call the hook with the cursor at the number of the next frame. -/
def Voice.feedAt (numFrames : U32) (v : Voice) (inFrames : ℕ) : Voice :=
  Voice.feed { v with aux := v.aux.map fun _ => numFrames.toNat + (BLOCKSIZE - v.outFrames) }
    inFrames

/-- `mixVoice` with every send placed by the number of its frame. -/
def mixVoiceAt (s : State) (pts : I64) (numFrames : U32) : ℕ → Voice → Option (Voice × Bool)
  | 0, _ => none
  | fuel + 1, v =>
    if v.outFrames = 0 then some (v, true)
    else
      let inFrames := if v.outFrames < v.t.frameCount.toNat then v.outFrames
        else v.t.frameCount.toNat
      let v := if inFrames ≠ 0 then v.feedAt numFrames inFrames else v
      if v.t.frameCount = 0#16 ∧ v.outFrames ≠ 0 then
        let done := BitVec.ofNat 32 (BLOCKSIZE - v.outFrames)
        let (answer, t) := v.t.releaseBuffer.getNextBuffer (s.frameCount - numFrames - done)
          (calculateOutputPTS s.sLocalTimeFreq v.t.sampleRate pts (numFrames + done))
        let t := { t with input := t.buffer }
        if answer.isNone then some ({ v with t := t }, false)
        else
          let t := { t with frameCount := BitVec.ofNat 16 t.buffer.length }
          mixVoiceAt s pts numFrames fuel { v with t := t }
      else mixVoiceAt s pts numFrames fuel v

section Blocks

variable {numFrames : U32} {v : Voice}

theorem Voice.Aligned.feedAt_eq (h : v.Aligned numFrames) (n : ℕ) :
    v.feedAt numFrames n = v.feed n := by
  have haux : (v.aux.map fun _ => numFrames.toNat + (BLOCKSIZE - v.outFrames)) = v.aux := by
    cases hsome : v.aux with
    | none => rfl
    | some pos => rw [Option.map_some, ← h.2 pos hsome]
  rw [Voice.feedAt, haux]

theorem Voice.Aligned.feed (h : v.Aligned numFrames) {n : ℕ} (hn : n ≤ v.outFrames) :
    (v.feed n).Aligned numFrames := by
  have hle := h.1
  refine ⟨Nat.le_trans (Nat.sub_le _ _) hle, fun pos hpos => ?_⟩
  have hadded : v.aux.map (· + n) = some pos := hpos
  have hleft : (v.feed n).outFrames = v.outFrames - n := rfl
  rw [Option.map_eq_some_iff] at hadded
  obtain ⟨before, hbefore, rfl⟩ := hadded
  have hwas := h.2 before hbefore
  rw [hleft, hwas]
  omega

/-- A block adds the send of each frame at its number, however the chunks end. -/
theorem mixVoice_eq_at (s : State) (pts : I64) (fuel : ℕ) (h : v.Aligned numFrames) :
    mixVoice s pts numFrames fuel v = mixVoiceAt s pts numFrames fuel v := by
  induction fuel generalizing v with
  | zero => rfl
  | succ fuel ih =>
    unfold mixVoice mixVoiceAt
    by_cases hdone : v.outFrames = 0
    · rw [if_pos hdone, if_pos hdone]
    · rw [if_neg hdone, if_neg hdone]
      dsimp only
      generalize hn : (if v.outFrames < v.t.frameCount.toNat then v.outFrames
        else v.t.frameCount.toNat) = n
      have hle : n ≤ v.outFrames := by
        rw [← hn]
        split_ifs <;> lia
      rw [h.feedAt_eq n]
      generalize hv : (if n ≠ 0 then v.feed n else v) = v₁
      have h₁ : v₁.Aligned numFrames := by
        rw [← hv]
        split_ifs
        · exact h.feed hle
        · exact h
      split_ifs
      · rfl
      · exact ih h₁
      · exact ih h₁

end Blocks

/-! ## Both paths -/

/-- The send of every frame is added at the word of its number. -/
def Unresampled.Placed (v : Unresampled) : Prop := ∀ c ∈ v.hooks, c.Placed

theorem Demand.Delivers.nonempty {d : Demand} {calls calls' : List Call} {p : ℕ}
    {chunks : List (List U32)} (h : d.Delivers calls p chunks calls') : ∀ c ∈ chunks, c ≠ [] := by
  induction h with
  | full | null => simp
  | chunk hp hanswer hrest ih =>
    simp only [List.mem_cons, forall_eq_or_imp]
    exact ⟨List.ne_nil_of_length_pos (Demand.chunk_length _ hanswer).1, ih⟩

theorem length_le_flatten {chunks : List (List U32)} (h : ∀ c ∈ chunks, c ≠ []) :
    chunks.length ≤ chunks.flatten.length := by
  induction chunks with
  | nil => exact Nat.le_refl 0
  | cons c chunks ih =>
    have hpos := List.length_pos_of_ne_nil (h c List.mem_cons_self)
    have hrest := ih fun c' hc' => h c' (List.mem_cons_of_mem _ hc')
    rw [List.length_cons, List.flatten_cons, List.length_append]
    omega

theorem consecutive_of_nil {calls : List HookCall} (h : ∀ c ∈ calls, c.adds = []) (p : ℕ) :
    Consecutive p calls := by
  induction calls generalizing p with
  | nil => trivial
  | cons c calls ih =>
    refine ⟨fun hne => absurd (h c List.mem_cons_self) hne, ?_⟩
    exact ih (fun c' hc' => h c' (List.mem_cons_of_mem _ hc')) _

theorem consecutive_of_lengths {p aux : ℕ} {chunks : List (List U32)} {calls : List HookCall}
    (hcursors : calls.map (fun c => (c.first, c.aux)) = cursors aux p chunks)
    (hlengths : calls.map (fun c => c.adds.length) = chunks.map List.length) :
    Consecutive p calls := by
  induction chunks generalizing p aux calls with
  | nil =>
    rw [List.map_nil, List.map_eq_nil_iff] at hlengths
    rw [hlengths]
    trivial
  | cons chunk chunks ih =>
    cases calls with
    | nil => simp [cursors] at hcursors
    | cons c calls =>
      simp only [List.map_cons, cursors, List.cons.injEq, Prod.mk.injEq] at hcursors hlengths
      obtain ⟨⟨hfirst, -⟩, hrest⟩ := hcursors
      refine ⟨fun _ => hfirst, ?_⟩
      rw [hlengths.1]
      exact ih hrest hlengths.2

section Sent

variable {v v' : Unresampled} {chunks : List (List U32)} {calls : List HookCall}

theorem Unresampled.Sent.adds_nil {p aux : ℕ} (h : v.Sent v' p aux chunks calls)
    (hnop : v.t.hook = .track__nop) {c : HookCall} (hc : c ∈ calls) : c.adds = [] := by
  have hmem : c.adds.length ∈ calls.map fun c => c.adds.length := List.mem_map_of_mem hc
  rw [h.lengths, List.mem_map] at hmem
  obtain ⟨chunk, -, hlen⟩ := hmem
  rw [if_pos hnop] at hlen
  exact List.length_eq_zero_iff.mp hlen.symm

theorem Unresampled.Sent.adds_ne_nil {p aux : ℕ} (h : v.Sent v' p aux chunks calls)
    (hnop : v.t.hook ≠ .track__nop) (hne : ∀ c ∈ chunks, c ≠ []) {c : HookCall} (hc : c ∈ calls) :
    c.adds ≠ [] := by
  have hmem : c.adds.length ∈ calls.map fun c => c.adds.length := List.mem_map_of_mem hc
  rw [h.lengths, List.mem_map] at hmem
  obtain ⟨chunk, hchunk, hlen⟩ := hmem
  rw [if_neg hnop] at hlen
  apply List.ne_nil_of_length_pos
  rw [← hlen]
  exact List.length_pos_of_ne_nil (hne chunk hchunk)

theorem Unresampled.Sent.consecutive {p aux : ℕ} (h : v.Sent v' p aux chunks calls) :
    Consecutive p calls := by
  by_cases hnop : v.t.hook = .track__nop
  · exact consecutive_of_nil (fun c hc => h.adds_nil hnop hc) p
  · have hlengths := h.lengths
    simp only [if_neg hnop] at hlengths
    exact consecutive_of_lengths h.cursors hlengths

/-- A hook that adds nothing has nothing to misplace. -/
theorem Unresampled.Sent.placed_iff (h : v.Sent v' 0 0 chunks calls)
    (hne : ∀ c ∈ chunks, c ≠ []) :
    (∀ c ∈ calls, c.Placed) ↔ v.t.hook = .track__nop ∨ chunks.length ≤ 2 := by
  by_cases hnop : v.t.hook = .track__nop
  · refine iff_of_true (fun c hc => ?_) (Or.inl hnop)
    exact c.placed_iff.mpr (Or.inl (h.adds_nil hnop hc))
  · have hplaced : (∀ c ∈ calls, c.Placed) ↔
        ∀ x ∈ calls.map (fun c => (c.first, c.aux)), x.2 = some x.1 := by
      rw [List.forall_mem_map]
      refine forall₂_congr fun c hc => ?_
      rw [c.placed_iff]
      exact or_iff_right (h.adds_ne_nil hnop hne hc)
    rw [hplaced, h.cursors, cursors_iff hne]
    exact (or_iff_right hnop).symm

end Sent

/-- Between tracks that are resampled, the send of every frame of a track is added at the word of
its number exactly when at most two chunks come, or its hook adds nothing. The blocks of the other
path place every send so. -/
theorem send_placed (s : State) (pts : I64) (i : Fin MAX_NUM_TRACKS)
    (hsends : (s.tracks i).Sends) (outTemp : List (I32 × I32)) (fuel : ℕ)
    (hfuel : s.frameCount.toNat < fuel) :
    (∃ v, mixUnresampledTrack s pts fuel outTemp i = some v ∧ Consecutive 0 v.hooks ∧
      (v.Placed ↔ (s.tracks i).hook = .track__nop ∨
        ((s.demand pts (s.tracks i)).chunks (s.tracks i).calls).length ≤ 2) ∧
      (v.Placed → ∀ j, v.mem (s.tracks i).auxBuffer j =
        sentAt (v.hooks.flatMap HookCall.adds) j (s.mem (s.tracks i).auxBuffer j))) ∧
    ∀ (numFrames : U32) (fuel : ℕ) (v : Voice), v.Aligned numFrames →
      mixVoice s pts numFrames fuel v = mixVoiceAt s pts numFrames fuel v := by
  refine ⟨?_, fun numFrames fuel v h => mixVoice_eq_at s pts fuel h⟩
  have hdelivers := (s.demand pts (s.tracks i)).delivers_chunks (s.tracks i).calls
  have hne := hdelivers.nonempty
  have hfew := length_le_flatten hne
  have hroom := hdelivers.length_le
  have hstart : Unresampled.At (s.demand pts (s.tracks i)) (s.tracks i).calls 0 0
      ⟨s.tracks i, s.mem, outTemp, 0,
        if (s.tracks i).needs &&& NEEDS_AUX__MASK = NEEDS_AUX_ENABLED then some 0 else none, []⟩ :=
    ⟨rfl, rfl, rfl, rfl, if_pos hsends⟩
  have hlen : ((s.demand pts (s.tracks i)).chunks (s.tracks i).calls).length < fuel := by
    rw [Nat.zero_add] at hroom
    exact Nat.lt_of_le_of_lt (hfew.trans hroom) hfuel
  obtain ⟨v, sent, hrun, -, hsent⟩ := mixUnresampled_sent (s := s) rfl rfl hdelivers fuel _ hstart
    hlen
  have hhooks : v.hooks = sent := hsent.hooks
  refine ⟨v, hrun, hhooks ▸ hsent.consecutive, ?_, fun hplaced j => ?_⟩
  · rw [Unresampled.Placed, hhooks]
    exact hsent.placed_iff hne
  · rw [Unresampled.Placed, hhooks] at hplaced
    rw [hsent.mem, hhooks]
    exact foldl_send _ hplaced hsent.consecutive s.mem j

/-- The mixer of 16 frames with a send, from a provider of `chunk` frames at a time. -/
def sendingMixer (chunk : ℕ) : State where
  enabledTracks := 1#32
  frameCount := 16#32
  sLocalTimeFreq := 1000000#64
  tracks i :=
    { (oneTrackMixer (steadyProvider chunk 0x10001000#32)).tracks i with
      needs := 0x10011#32
      auxLevel := 0x1000#16 }
  mem _ _ := 1#32

theorem send_placed_twoChunks : ∃ v,
    mixUnresampledTrack (sendingMixer 8) kInvalidPTS 17 [] 0 = some v ∧ v.Placed := by
  obtain ⟨v, hrun, -, hplaced, -⟩ :=
    (send_placed (sendingMixer 8) kInvalidPTS 0 (by decide) [] 17 (by decide)).1
  exact ⟨v, hrun, hplaced.mpr (Or.inr (by decide +kernel))⟩

/-- The third chunk of five frames goes to the word 15, the last frame beyond the 16 of the buffer. -/
theorem fourChunks_misplaced : ∃ v,
    mixUnresampledTrack (sendingMixer 5) kInvalidPTS 17 [] 0 = some v ∧
      v.hooks.map (fun c => (c.first, c.aux)) =
        [(0, some 0), (5, some 5), (10, some 15), (15, some 30)] ∧
      v.mem 1 10 = 1#32 ∧ v.mem 1 30 ≠ 1#32 ∧ ¬ v.Placed := by
  obtain ⟨v, hrun⟩ : ∃ v, mixUnresampledTrack (sendingMixer 5) kInvalidPTS 17 [] 0 = some v :=
    ⟨_, rfl⟩
  have hview : (mixUnresampledTrack (sendingMixer 5) kInvalidPTS 17 [] 0).map
      (fun v => (v.hooks.map (fun c => (c.first, c.aux, c.adds.length)), v.mem 1 10, v.mem 1 30)) =
        some ([(0, some 0, 5), (5, some 5, 5), (10, some 15, 5), (15, some 30, 1)], 1#32,
          0x1000001#32) := by
    decide +kernel
  rw [hrun, Option.map_some, Option.some_inj] at hview
  simp only [Prod.mk.injEq] at hview
  obtain ⟨hhooks, hskipped, hbeyond⟩ := hview
  refine ⟨v, hrun, ?_, hskipped, by rw [hbeyond]; decide, fun hplaced => ?_⟩
  · have hpairs := congrArg (List.map fun x : ℕ × Option ℕ × ℕ => (x.1, x.2.1)) hhooks
    rw [List.map_map] at hpairs
    exact hpairs
  · have hthird : (10, some 15, 5) ∈ v.hooks.map (fun c => (c.first, c.aux, c.adds.length)) := by
      rw [hhooks]
      simp
    obtain ⟨c, hc, hvalues⟩ := List.mem_map.mp hthird
    simp only [Prod.mk.injEq] at hvalues
    obtain ⟨hfirst, haux, hlength⟩ := hvalues
    rcases c.placed_iff.mp (hplaced c hc) with hnil | hsame
    · rw [hnil] at hlength
      exact absurd hlength (by decide)
    · rw [hfirst, haux] at hsame
      exact absurd hsame (by decide)

end AudioFlinger.Mixer
