import AudioFlinger.Foundation.Machine
import Mathlib.Algebra.GroupWithZero.Nat

/-!
# The decoding pipeline

`OMXPlayerAudio` in `libs/aud-dec/aud-dec/src/OMXProcess.cpp` with `COMXAudio::Decode` and `GetData`: packets
are queued by `AddPacket`, handed to the component in buffers by the thread of `Process`, and what the component
produces is queued for `GetData`. A step is what a thread does under one lock. `m_bStop` is set by `Close` after
`m_bAbort` only, and is left out.
-/

namespace AudioFlinger.OmxComponent.Pipeline

open Foundation

abbrev Packet := List (BitVec 8)

/-- `m_packets` with `m_cached_size`, or `m_out_packets` with `m_out_cached_size`; sizes are `unsigned int`. -/
structure Queue where
  packets : List Packet
  cached_size : Nat
  max_data_size : Nat
  deriving DecidableEq

def Queue.fits (q : Queue) (pkt : Packet) : Bool := (q.cached_size + pkt.length) % 2 ^ 32 < q.max_data_size

def Queue.push (q : Queue) (pkt : Packet) : Queue :=
  { q with packets := q.packets ++ [pkt], cached_size := (q.cached_size + pkt.length) % 2 ^ 32 }

/-- `pop_front`, for the queue with `rest` behind `pkt`. -/
def Queue.pop (q : Queue) (pkt : Packet) (rest : List Packet) : Queue :=
  { q with packets := rest, cached_size := (q.cached_size + (2 ^ 32 - pkt.length % 2 ^ 32)) % 2 ^ 32 }

/-- A buffer that the component has accepted: its bytes and `OMX_BUFFERFLAG_ENDOFFRAME`. -/
structure Chunk where
  bytes : Packet
  endOfFrame : Bool
  deriving DecidableEq

/-- Where `Process` is: at the head of its loop, in a wait, before it takes a packet, in `Decode` with the bytes
that are left, before `m_decoder->GetData()`, with its packet. -/
inductive Phase
  | check
  | waiting
  | fetch
  | decoding (demuxer_content : Packet)
  | collect
  | push (decode_pkt : Packet)
  | waitingOut
  | finished
  deriving DecidableEq

/-- `adding` are the packets of the calls of `AddPacket` that have passed the test of the size, `outputs` the
filled buffers that the component has returned. The last four record what has happened. -/
structure Player where
  input : Queue
  output : Queue
  m_bAbort : Bool
  phase : Phase
  adding : List Packet
  outputs : List Packet
  accepted : List Packet
  submitted : List Chunk
  produced : List Packet
  returned : List Packet
  deriving DecidableEq

/-- `feed` is the next buffer of `Decode`, with its `nAllocLen`, or none when there is no buffer in time or it is
refused five times. -/
inductive Event
  | addPacket (pkt : Packet)
  | append (pkt : Packet)
  | turn
  | feed (nAllocLen : Option Nat)
  | collect (allocates : Bool)
  | wake
  | fillBufferDone (buffer : Packet)
  | getData
  | abort

def start (max_data_size out_max_data_size : Nat) : Player where
  input := ⟨[], 0, max_data_size⟩
  output := ⟨[], 0, out_max_data_size⟩
  m_bAbort := false
  phase := .check
  adding := []
  outputs := []
  accepted := []
  submitted := []
  produced := []
  returned := []

namespace Player

/-- One turn of `Process` under its locks. -/
def turn (s : Player) : Option Player :=
  match s.phase with
  | .check =>
    if s.m_bAbort then some { s with phase := .finished }
    else some { s with phase := if s.input.packets = [] then .waiting else .fetch }
  | .fetch =>
    if s.m_bAbort then some { s with phase := .finished }
    else
      match s.input.packets with
      | [] => some { s with phase := .collect }
      | omx_pkt :: rest =>
        some { s with
          input := s.input.pop omx_pkt rest
          phase := if omx_pkt = [] then .collect else .decoding omx_pkt }
  | .push decode_pkt =>
    let output := if s.output.fits decode_pkt then s.output.push decode_pkt else s.output
    some { s with output, phase := if 50 ≤ output.packets.length then .waitingOut else .check }
  | _ => none

/-- `OMXPlayerAudio::Decode` returns true whatever becomes of the packet. -/
def feed (s : Player) (nAllocLen : Option Nat) : Option Player :=
  match s.phase, nAllocLen with
  | .decoding left, some n =>
    let chunk : Chunk := ⟨left.take n, left.drop n = []⟩
    some { s with
      submitted := s.submitted ++ [chunk]
      phase := if left.drop n = [] then .collect else .decoding (left.drop n) }
  | .decoding _, none => some { s with phase := .collect }
  | _, _ => none

/-- `COMXAudio::GetData`. -/
def collect (s : Player) (allocates : Bool) : Option Player :=
  match s.phase, s.outputs with
  | .collect, [] => some { s with phase := .check }
  | .collect, buffer :: rest =>
    some { s with outputs := rest, phase := if buffer ≠ [] ∧ allocates then .push buffer else .check }
  | _, _ => none

def getData (s : Player) : Player :=
  match s.output.packets with
  | [] => s
  | pkt :: rest => { s with output := s.output.pop pkt rest, returned := s.returned ++ [pkt] }

def step (s : Player) : Event → Option Player
  | .addPacket pkt => if !s.m_bAbort && s.input.fits pkt then some { s with adding := pkt :: s.adding } else some s
  | .append pkt =>
    if pkt ∈ s.adding then
      some { s with adding := s.adding.erase pkt, input := s.input.push pkt, accepted := s.accepted ++ [pkt] }
    else none
  | .turn => s.turn
  | .feed nAllocLen => s.feed nAllocLen
  | .collect allocates => s.collect allocates
  -- a wait ends by a signal or of itself
  | .wake =>
    match s.phase with
    | .waiting => some { s with phase := .fetch }
    | .waitingOut => some { s with phase := .check }
    | _ => none
  | .fillBufferDone buffer =>
    some { s with
      outputs := s.outputs ++ [buffer]
      produced := if buffer = [] then s.produced else s.produced ++ [buffer] }
  | .getData => some s.getData
  | .abort => some { s with m_bAbort := true }

end Player

/-! ## What the pipeline is for -/

/-- The packets that the component can read from its buffers, and the beginning of the next one. -/
def reassemble (chunks : List Chunk) : List Packet × Packet :=
  chunks.foldl
    (fun (r : List Packet × Packet) c => if c.endOfFrame then (r.1 ++ [r.2 ++ c.bytes], []) else (r.1, r.2 ++ c.bytes))
    ([], [])

def nonempty (l : List Packet) : List Packet := l.filter fun pkt => pkt ≠ []

def Phase.left : Phase → Option Packet
  | .decoding left => some left
  | _ => none

def Phase.inHand : Phase → List Packet
  | .push decode_pkt => [decode_pkt]
  | _ => []

def Queue.Balanced (q : Queue) : Prop := q.cached_size = (q.packets.map List.length).sum

/-- The component has, frame by frame, the accepted packets up to those that are still queued; in `Decode`, the
first part of one more. -/
structure Delivered (s : Player) : Prop where
  between : s.phase.left = none →
    (reassemble s.submitted).2 = [] ∧
      (reassemble s.submitted).1 ++ nonempty s.input.packets = nonempty s.accepted
  within : ∀ left, s.phase.left = some left → left ≠ [] ∧
    (reassemble s.submitted).1 ++ ((reassemble s.submitted).2 ++ left) :: nonempty s.input.packets =
      nonempty s.accepted

/-- `attentive`: while `Process` waits for input, the consumer can have all the output. -/
structure Faithful (s : Player) : Prop where
  cached : s.input.Balanced
  outCached : s.output.Balanced
  delivered : s.m_bAbort = false → Delivered s
  returned : s.returned ++ s.output.packets ++ s.phase.inHand ++ nonempty s.outputs = s.produced
  attentive : s.m_bAbort = false → s.phase = .waiting → s.returned ++ s.output.packets = s.produced

/-- No packet is given up: the sizes do not wrap, `Decode` gets its buffers until playback is aborted, a copy of
the output can be made and fits into its queue, and the component produces nothing while `Process` waits for
input or goes to wait. -/
def Sound (s : Player) : Event → Prop
  | .append pkt => s.input.cached_size + pkt.length < 2 ^ 32
  | .turn =>
    (s.phase = .check → s.m_bAbort = false → s.input.packets = [] → nonempty s.outputs = []) ∧
      ∀ pkt ∈ s.phase.inHand, s.output.cached_size + pkt.length < 2 ^ 32 ∧ s.output.fits pkt
  | .feed none => s.m_bAbort
  | .collect allocates => allocates ∨ ∀ buffer ∈ s.outputs.head?, buffer = []
  | .fillBufferDone buffer => s.m_bAbort = false → s.phase = .waiting → buffer = []
  | _ => True

instance (s : Player) : ∀ e, Decidable (Sound s e)
  | .append _ => inferInstanceAs (Decidable (_ < _))
  | .turn => inferInstanceAs (Decidable (_ ∧ _))
  | .feed none => inferInstanceAs (Decidable (_ = _))
  | .collect _ => inferInstanceAs (Decidable (_ ∨ _))
  | .fillBufferDone _ => inferInstanceAs (Decidable (_ → _))
  | .addPacket _ | .feed (some _) | .wake | .getData | .abort => isTrue trivial

variable {s s' : Player} {q : Queue} {pkt : Packet} {rest : List Packet}

theorem Queue.Balanced.push (h : q.Balanced) (hfits : q.cached_size + pkt.length < 2 ^ 32) : (q.push pkt).Balanced := by
  rw [Queue.Balanced, Queue.push, Nat.mod_eq_of_lt hfits, List.map_append, List.sum_append, ← h]
  rfl

theorem Queue.Balanced.pop (h : q.Balanced) (hlt : q.cached_size < 2 ^ 32) (hq : q.packets = pkt :: rest) :
    (q.pop pkt rest).Balanced := by
  rw [Queue.Balanced, hq, List.map_cons, List.sum_cons] at h
  simp only [Queue.Balanced, Queue.pop]
  omega

theorem Queue.push_lt (q : Queue) (pkt : Packet) : (q.push pkt).cached_size < 2 ^ 32 := Nat.mod_lt _ (by decide)

theorem Queue.pop_lt (q : Queue) (pkt : Packet) (rest : List Packet) : (q.pop pkt rest).cached_size < 2 ^ 32 :=
  Nat.mod_lt _ (by decide)

theorem reassemble_append (chunks : List Chunk) (c : Chunk) :
    reassemble (chunks ++ [c]) =
      if c.endOfFrame then ((reassemble chunks).1 ++ [(reassemble chunks).2 ++ c.bytes], [])
      else ((reassemble chunks).1, (reassemble chunks).2 ++ c.bytes) := by
  rw [reassemble, List.foldl_append]
  rfl

@[simp] theorem nonempty_append (l l' : List Packet) : nonempty (l ++ l') = nonempty l ++ nonempty l' :=
  List.filter_append ..

theorem nonempty_cons (pkt : Packet) (l : List Packet) :
    nonempty (pkt :: l) = if pkt = [] then nonempty l else pkt :: nonempty l := by
  by_cases h : pkt = [] <;> simp [nonempty, h]

/-- The invariant of the runs that meet `Sound`. -/
structure Inv (s : Player) : Prop where
  cached : s.input.Balanced
  outCached : s.output.Balanced
  delivered : s.m_bAbort = false → Delivered s
  returned : s.returned ++ s.output.packets ++ s.phase.inHand ++ nonempty s.outputs = s.produced
  attentive : s.m_bAbort = false → s.phase = .waiting → nonempty s.outputs = []
  cached_lt : s.input.cached_size < 2 ^ 32
  outCached_lt : s.output.cached_size < 2 ^ 32

theorem Inv.faithful (h : Inv s) : Faithful s := by
  refine ⟨h.cached, h.outCached, h.delivered, h.returned, fun habort hwait => ?_⟩
  have hret := h.returned
  rw [hwait, h.attentive habort hwait] at hret
  simpa [Phase.inHand] using hret

section Steps

variable (h : Inv s)

include h

theorem Inv.append (hok : Sound s (.append pkt)) :
    Inv { s with adding := s.adding.erase pkt, input := s.input.push pkt, accepted := s.accepted ++ [pkt] } := by
  refine ⟨h.cached.push hok, h.outCached, ?_, h.returned, h.attentive,
    s.input.push_lt pkt, h.outCached_lt⟩
  intro habort
  obtain ⟨hbetween, hwithin⟩ := h.delivered habort
  refine ⟨fun hleft => ?_, fun left hleft => ?_⟩
  · obtain ⟨hpart, hall⟩ := hbetween hleft
    refine ⟨hpart, ?_⟩
    simp only [Queue.push, nonempty_append, ← hall, List.append_assoc]
  · obtain ⟨hne, hall⟩ := hwithin left hleft
    refine ⟨hne, ?_⟩
    simp only [Queue.push, nonempty_append, ← hall, List.append_assoc, List.cons_append]

/-- `Process` moves on without a packet. -/
theorem Inv.setPhase {phase : Phase} (hleft : phase.left = s.phase.left)
    (hhand : phase.inHand = s.phase.inHand) (hwait : s.m_bAbort = false → phase = .waiting → nonempty s.outputs = []) :
    Inv { s with phase } := by
  refine ⟨h.cached, h.outCached, ?_, ?_, hwait, h.cached_lt, h.outCached_lt⟩
  · intro habort
    obtain ⟨hbetween, hwithin⟩ := h.delivered habort
    exact ⟨fun hl => hbetween (hleft.symm.trans hl), fun left hl => hwithin left (hleft.symm.trans hl)⟩
  · dsimp only
    rw [hhand]
    exact h.returned

theorem Inv.fetch {omx_pkt : Packet} (hphase : s.phase = .fetch)
    (hq : s.input.packets = omx_pkt :: rest) :
    Inv { s with
      input := s.input.pop omx_pkt rest
      phase := if omx_pkt = [] then .collect else .decoding omx_pkt } := by
  have hhand : Phase.inHand (if omx_pkt = [] then .collect else .decoding omx_pkt) = s.phase.inHand := by
    rw [hphase]
    split_ifs <;> rfl
  refine ⟨h.cached.pop h.cached_lt hq, h.outCached, ?_, ?_, ?_, s.input.pop_lt omx_pkt rest,
    h.outCached_lt⟩
  · intro habort
    obtain ⟨hpart, hall⟩ := (h.delivered habort).between (by rw [hphase]; rfl)
    rw [hq, nonempty_cons] at hall
    by_cases hempty : omx_pkt = []
    · rw [if_pos hempty] at hall
      simp only [hempty, if_true]
      exact ⟨fun _ => ⟨hpart, hall⟩, nofun⟩
    · rw [if_neg hempty] at hall
      simp only [hempty, if_false]
      refine ⟨nofun, ?_⟩
      rintro _ ⟨⟩
      refine ⟨hempty, ?_⟩
      rw [hpart]
      exact hall
  · dsimp only
    rw [hhand]
    exact h.returned
  · intro _ hwait
    dsimp only at hwait
    split_ifs at hwait

theorem Inv.push {decode_pkt : Packet} (hphase : s.phase = .push decode_pkt)
    (hlt : s.output.cached_size + decode_pkt.length < 2 ^ 32) {phase : Phase}
    (hnew : phase = .waitingOut ∨ phase = .check) :
    Inv { s with output := s.output.push decode_pkt, phase } := by
  have hret := h.returned
  refine ⟨h.cached, h.outCached.push hlt, ?_, ?_, ?_, h.cached_lt, s.output.push_lt decode_pkt⟩
  · intro habort
    have hbetween := (h.delivered habort).between (by rw [hphase]; rfl)
    rcases hnew with rfl | rfl <;> exact ⟨fun _ => hbetween, nofun⟩
  · rw [hphase] at hret
    rcases hnew with rfl | rfl <;> simpa [Queue.push, Phase.inHand] using hret
  · rintro _ rfl
    rcases hnew with h | h <;> cases h

theorem Inv.turn (hok : Sound s .turn) (hstep : s.turn = some s') : Inv s' := by
  rw [Player.turn] at hstep
  cases hphase : s.phase with
  | check =>
    simp only [hphase] at hstep
    split_ifs at hstep with habort hempty
    all_goals cases hstep
    · exact h.setPhase (by rw [hphase]; rfl) (by rw [hphase]; rfl) nofun
    · exact h.setPhase (by rw [hphase]; rfl) (by rw [hphase]; rfl) fun habort _ => hok.1 hphase habort hempty
    · exact h.setPhase (by rw [hphase]; rfl) (by rw [hphase]; rfl) nofun
  | fetch =>
    simp only [hphase] at hstep
    split_ifs at hstep with habort
    · cases hstep
      exact h.setPhase (by rw [hphase]; rfl) (by rw [hphase]; rfl) nofun
    · cases hq : s.input.packets with
      | nil =>
        simp only [hq, Option.some.injEq] at hstep
        cases hstep
        exact h.setPhase (by rw [hphase]; rfl) (by rw [hphase]; rfl) nofun
      | cons omx_pkt rest =>
        simp only [hq, Option.some.injEq] at hstep
        cases hstep
        exact h.fetch hphase hq
  | push decode_pkt =>
    obtain ⟨hlt, hfits⟩ := hok.2 decode_pkt (by rw [hphase]; exact List.mem_singleton_self _)
    simp only [hphase, hfits, if_true, Option.some.injEq] at hstep
    cases hstep
    refine h.push hphase hlt ?_
    split_ifs
    · exact .inl rfl
    · exact .inr rfl
  | _ => simp [hphase] at hstep

/-- One buffer of `Decode`. -/
theorem Inv.chunk {left : Packet} (hphase : s.phase = .decoding left) (n : Nat) :
    Inv { s with
      submitted := s.submitted ++ [⟨left.take n, left.drop n = []⟩]
      phase := if left.drop n = [] then .collect else .decoding (left.drop n) } := by
  have hret := h.returned
  rw [hphase] at hret
  have htake : left.take n ++ left.drop n = left := List.take_append_drop n left
  refine ⟨h.cached, h.outCached, ?_, ?_, ?_, h.cached_lt, h.outCached_lt⟩
  · intro habort
    obtain ⟨-, hall⟩ := (h.delivered habort).within left (by rw [hphase]; rfl)
    by_cases hdrop : left.drop n = []
    · rw [hdrop, List.append_nil] at htake
      simp only [hdrop, if_true]
      refine ⟨fun _ => ?_, nofun⟩
      rw [reassemble_append, htake]
      simpa using hall
    · simp only [hdrop, if_false]
      refine ⟨nofun, ?_⟩
      rintro _ ⟨⟩
      refine ⟨hdrop, ?_⟩
      rw [reassemble_append]
      simp only [decide_false, Bool.false_eq_true, if_false, List.append_assoc, htake]
      exact hall
  · dsimp only
    split_ifs <;> exact hret
  · intro _ hwait
    dsimp only at hwait
    split_ifs at hwait

theorem Inv.feed {nAllocLen : Option Nat} (hok : Sound s (.feed nAllocLen))
    (hstep : s.feed nAllocLen = some s') : Inv s' := by
  rw [Player.feed.eq_def] at hstep
  cases hphase : s.phase with
  | decoding left =>
    cases nAllocLen with
    | some n =>
      simp only [hphase, Option.some.injEq] at hstep
      cases hstep
      exact h.chunk hphase n
    | none =>
      -- the rest of the packet is given up
      simp only [hphase, Option.some.injEq] at hstep
      cases hstep
      have hret := h.returned
      rw [hphase] at hret
      refine ⟨h.cached, h.outCached, ?_, hret, nofun, h.cached_lt, h.outCached_lt⟩
      intro habort
      exact absurd (habort.symm.trans hok) Bool.false_ne_true
  | _ => simp [hphase] at hstep

theorem Inv.collect {allocates : Bool} (hok : Sound s (.collect allocates))
    (hstep : s.collect allocates = some s') : Inv s' := by
  rw [Player.collect.eq_def] at hstep
  cases hphase : s.phase with
  | collect =>
    have hret := h.returned
    rw [hphase] at hret
    cases hout : s.outputs with
    | nil =>
      have hnext : Inv { s with phase := .check } :=
        h.setPhase (by rw [hphase]; rfl) (by rw [hphase]; rfl) nofun
      rw [hout] at hnext
      simp only [hphase, hout, Option.some.injEq] at hstep
      exact hstep ▸ hnext
    | cons buffer rest =>
      simp only [hphase, hout, Option.some.injEq] at hstep
      cases hstep
      rw [hout, nonempty_cons] at hret
      refine ⟨h.cached, h.outCached, ?_, ?_, ?_, h.cached_lt, h.outCached_lt⟩
      · intro habort
        have hbetween := (h.delivered habort).between (by rw [hphase]; rfl)
        split_ifs <;> exact ⟨fun _ => hbetween, nofun⟩
      · by_cases hempty : buffer = []
        · simpa [hempty, Phase.inHand] using hret
        · have halloc : allocates = true := by
            rcases hok with halloc | hnone
            · exact halloc
            · exact absurd (hnone buffer (by rw [hout]; rfl)) hempty
          simpa [hempty, halloc, Phase.inHand] using hret
      · intro _ hwait
        dsimp only at hwait
        split_ifs at hwait
  | _ => simp [hphase] at hstep

theorem Inv.fillBufferDone {buffer : Packet} (hok : Sound s (.fillBufferDone buffer)) :
    Inv { s with
      outputs := s.outputs ++ [buffer]
      produced := if buffer = [] then s.produced else s.produced ++ [buffer] } := by
  refine ⟨h.cached, h.outCached, ?_, ?_, ?_, h.cached_lt, h.outCached_lt⟩
  · intro habort
    obtain ⟨hbetween, hwithin⟩ := h.delivered habort
    exact ⟨hbetween, hwithin⟩
  · have hret := h.returned
    dsimp only
    rw [nonempty_append, nonempty_cons, ← List.append_assoc, hret]
    split_ifs
    · exact List.append_nil _
    · rfl
  · intro habort hwait
    dsimp only
    rw [nonempty_append, h.attentive habort hwait, nonempty_cons, if_pos (hok habort hwait)]
    rfl

theorem Inv.getData : Inv s.getData := by
  rw [Player.getData]
  cases hq : s.output.packets with
  | nil => exact h
  | cons pkt rest =>
    refine ⟨h.cached, h.outCached.pop h.outCached_lt hq, ?_, ?_, h.attentive, h.cached_lt,
      s.output.pop_lt pkt rest⟩
    · intro habort
      obtain ⟨hbetween, hwithin⟩ := h.delivered habort
      exact ⟨hbetween, hwithin⟩
    · have hret := h.returned
      rw [hq] at hret
      simpa [Queue.pop] using hret

theorem Inv.step {e : Event} (hok : Sound s e) (hstep : s.step e = some s') : Inv s' := by
  cases e with
  | addPacket pkt =>
    rw [Player.step] at hstep
    split_ifs at hstep
    · cases hstep
      refine ⟨h.cached, h.outCached, fun habort => ?_, h.returned, h.attentive,
        h.cached_lt, h.outCached_lt⟩
      obtain ⟨hbetween, hwithin⟩ := h.delivered habort
      exact ⟨hbetween, hwithin⟩
    · cases hstep
      exact h
  | append pkt =>
    obtain ⟨-, hw⟩ := Option.ite_none_right_eq_some.mp hstep
    cases hw
    exact h.append hok
  | turn => exact h.turn hok hstep
  | feed nAllocLen => exact h.feed hok hstep
  | collect allocates => exact h.collect hok hstep
  | wake =>
    rw [Player.step] at hstep
    cases hphase : s.phase with
    | waiting =>
      simp only [hphase, Option.some.injEq] at hstep
      cases hstep
      exact h.setPhase (by rw [hphase]; rfl) (by rw [hphase]; rfl) nofun
    | waitingOut =>
      simp only [hphase, Option.some.injEq] at hstep
      cases hstep
      exact h.setPhase (by rw [hphase]; rfl) (by rw [hphase]; rfl) nofun
    | _ => simp [hphase] at hstep
  | fillBufferDone buffer =>
    cases hstep
    exact h.fillBufferDone hok
  | getData =>
    cases hstep
    exact h.getData
  | abort =>
    cases hstep
    exact ⟨h.cached, h.outCached, nofun, h.returned, nofun, h.cached_lt, h.outCached_lt⟩

end Steps

theorem inv_start (max_data_size out_max_data_size : Nat) : Inv (start max_data_size out_max_data_size) :=
  ⟨rfl, rfl, fun _ => ⟨fun _ => ⟨rfl, rfl⟩, nofun⟩, rfl, nofun, by simp [start], by simp [start]⟩

/-- While no packet is given up, every packet gets through in order. -/
theorem faithful_along {max_data_size out_max_data_size : Nat} {es : List Event}
    (hok : Machine.Along Player.step Sound (start max_data_size out_max_data_size) es)
    (hrun : Machine.run Player.step (start max_data_size out_max_data_size) es = some s) : Faithful s :=
  (Machine.run_invariant_along (I := Inv) (fun _ _ _ hok hstep hs => hs.step hok hstep) hok hrun
    (inv_start max_data_size out_max_data_size)).faithful

/-- A packet of three bytes in buffers of two, and the packet that the component makes of it. -/
def soundRun : List Event :=
  [.addPacket [1, 2, 3], .append [1, 2, 3], .turn, .turn, .feed (some 2), .feed (some 2), .fillBufferDone [7, 7],
    .collect true, .turn, .turn, .getData]

theorem soundRun_faithful : ∃ s, Machine.run Player.step (start 16 16) soundRun = some s ∧ Faithful s := by
  have hrun := Option.eq_some_of_isSome
    (by decide : (Machine.run Player.step (start 16 16) soundRun).isSome = true)
  exact ⟨_, hrun, faithful_along (by decide) hrun⟩

/-- `Decode` gets no second buffer in time, and the rest of the packet is forgotten. -/
def timeoutRun : List Event :=
  [.addPacket [1, 2, 3], .append [1, 2, 3], .turn, .turn, .feed (some 2), .feed none]

theorem timeoutRun_unfaithful : ¬ ∀ s, Machine.run Player.step (start 16 16) timeoutRun = some s → Faithful s := by
  intro h
  have hrun := Option.eq_some_of_isSome
    (by decide : (Machine.run Player.step (start 16 16) timeoutRun).isSome = true)
  have hpart := ((h _ hrun).delivered rfl).between rfl
  exact absurd hpart.1 (by decide)

end AudioFlinger.OmxComponent.Pipeline
