import AudioFlinger.EchoReference.Model
import AudioFlinger.Foundation.Lists

/-!
# The reference as a stream

The queue that the buffer stands for. A write appends frames, a read takes frames from the front;
silence comes in and frames go only where the delay is corrected and where a read is short. Stopping
the writer and starting the reader begin a new stream.
-/

namespace AudioFlinger.EchoReference

open Foundation

/-- The frames waiting for the reader, and the frames written and returned in this stream. -/
structure Stream where
  reading : Bool
  writing : Bool
  stamped : Bool
  pending : List Frame
  written : List Frame
  returned : List Frame

namespace Stream

def new : Stream := ⟨false, false, false, [], [], []⟩

def reset (q : Stream) : Stream := { q with
  stamped := false
  pending := []
  written := []
  returned := [] }

def started (q : Stream) : Stream := if q.reading then q else { q.reset with reading := true }

/-- The frames and the time stamp of a write. -/
def append (q : Stream) (frames : List Frame) (time_stamp : TimeSpec) : Stream := { q with
  writing := true
  stamped := time_stamp ≠ .zero
  pending := q.pending ++ frames
  written := q.written ++ frames }

/-- `n` frames are taken from the queue, which is filled up with silence. -/
def take (q : Stream) (silence : Frame) (n : ℕ) : List Frame × Stream :=
  let pending := q.pending ++ List.replicate (n - q.pending.length) silence
  (pending.take n, { q with
    pending := pending.drop n
    returned := q.returned ++ pending.take n })

/-- The queue with a given number of frames, the oldest dropped or silence added. -/
def moved (q : Stream) (silence : Frame) (level : ℕ) : Stream := { q with
  pending := q.pending.drop (q.pending.length - level) ++ List.replicate (level - q.pending.length) silence }

end Stream

/-- The frames that a write gives to the reader. -/
def Config.frames (c : Config) (b : Written) (produced : List Frame) : List Frame :=
  if c.resamples then produced else b.raw.map c.convert

/-- What a call does to the stream. -/
inductive Serves (c : Config) : Stream → Call → Out → Stream → Prop
  | stopWrite (q : Stream) : Serves c q .stopWrite (.status 0) { q.reset with writing := false }
  | stopRead (q : Stream) : Serves c q .stopRead (.status 0) { q with reading := false }
  | unstamped {q : Stream} {b : Written} (creates : Bool) (produced : List Frame)
      (hstamp : b.time_stamp = .zero ∧ q.stamped = false) :
      Serves c q (.write b creates produced) (.status 0) q
  | unread {q : Stream} {b : Written} (creates : Bool) (produced : List Frame)
      (hstamp : ¬ (b.time_stamp = .zero ∧ q.stamped = false)) (hread : q.reading = false) :
      Serves c q (.write b creates produced) (.status 0) { q with writing := true }
  | write {q : Stream} {b : Written} (creates : Bool) (produced : List Frame)
      (hstamp : ¬ (b.time_stamp = .zero ∧ q.stamped = false)) (hread : q.reading = true) :
      Serves c q (.write b creates produced) (.status 0) (q.append (c.frames b produced) b.time_stamp)
  | noResampler {q : Stream} {b : Written} (produced : List Frame)
      (hstamp : ¬ (b.time_stamp = .zero ∧ q.stamped = false)) (hread : q.reading = true)
      (hresamples : c.resamples = true) :
      Serves c q (.write b false produced) (.status (-ENODEV)) (q.append [] b.time_stamp)
  | idle {q : Stream} (b : Wanted) (rsmp_delay : ℤ) (hwrite : q.writing = false) :
      Serves c q (.read b rsmp_delay) (.frames (List.replicate b.frame_count (some c.silence))) q.started
  | read {q : Stream} (b : Wanted) (rsmp_delay : ℤ) (hwrite : q.writing = true) :
      Serves c q (.read b rsmp_delay) (.frames ((q.started.take c.silence b.frame_count).1.map some))
        (q.started.take c.silence b.frame_count).2
  | corrected {q : Stream} (b : Wanted) (rsmp_delay : ℤ) (level : ℕ) (hwrite : q.writing = true)
      (hstamp : q.started.stamped = true ∧ b.time_stamp ≠ .zero) :
      Serves c q (.read b rsmp_delay)
        (.frames (((q.started.moved c.silence level).take c.silence b.frame_count).1.map some))
        ((q.started.moved c.silence level).take c.silence b.frame_count).2

/-- The calls and their answers lead to the stream. -/
inductive Conforms (c : Config) : List (Call × Out) → Stream → Prop
  | nil : Conforms c [] .new
  | snoc {log : List (Call × Out)} {q q' : Stream} {call : Call} {out : Out} (h : Conforms c log q)
      (hserves : Serves c q call out q') : Conforms c (log ++ [(call, out)]) q'

namespace Stream

variable {q : Stream} {silence : Frame}

/-- The frames returned and those that wait are the written ones, in order. -/
def InOrder (silence : Frame) (q : Stream) : Prop := Edited silence q.written (q.returned ++ q.pending)

theorem InOrder.started (h : q.InOrder silence) : q.started.InOrder silence := by
  rw [Stream.started]
  split
  · exact h
  · exact .nil

theorem InOrder.append (h : q.InOrder silence) (frames : List Frame) (time_stamp : TimeSpec) :
    (q.append frames time_stamp).InOrder silence := by
  change Edited silence (q.written ++ frames) (q.returned ++ (q.pending ++ frames))
  rw [← List.append_assoc]
  exact Edited.append h (.refl frames)

theorem InOrder.fill (h : q.InOrder silence) (n : ℕ) :
    Edited silence q.written (q.returned ++ (q.pending ++ List.replicate n silence)) := by
  have hfill := Edited.append h (.blanks n)
  rw [List.append_nil, List.append_assoc] at hfill
  exact hfill

theorem InOrder.take (h : q.InOrder silence) (n : ℕ) : (q.take silence n).2.InOrder silence := by
  change Edited silence q.written (q.returned ++ List.take n _ ++ List.drop n _)
  rw [List.append_assoc, List.take_append_drop]
  exact h.fill _

theorem InOrder.moved (h : q.InOrder silence) (level : ℕ) : (q.moved silence level).InOrder silence := by
  apply Edited.sublist (h.fill (level - q.pending.length))
  exact (List.Sublist.refl _).append ((List.drop_sublist _ _).append (List.Sublist.refl _))

end Stream

theorem Serves.inOrder {c : Config} {q q' : Stream} {call : Call} {out : Out} (hserves : Serves c q call out q')
    (h : q.InOrder c.silence) : q'.InOrder c.silence := by
  cases hserves with
  | stopWrite => exact .nil
  | stopRead => exact h
  | unstamped => exact h
  | unread => exact h
  | write => exact h.append _ _
  | noResampler => exact h.append _ _
  | idle => exact h.started
  | read => exact h.started.take _
  | corrected => exact (h.started.moved _).take _

theorem Conforms.inOrder {c : Config} {log : List (Call × Out)} {q : Stream} (h : Conforms c log q) :
    q.InOrder c.silence := by
  induction h with
  | nil => exact .nil
  | snoc _ hserves ih => exact hserves.inOrder ih

end AudioFlinger.EchoReference
