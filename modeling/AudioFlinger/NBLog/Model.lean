import AudioFlinger.Foundation.Machine
import AudioFlinger.Foundation.RingLog
import AudioFlinger.Nbaio.Roundup

/-!
# The non-blocking log

A writer appends entries to a ring of bytes; a reader copies what is new and
finds the entries in its copy by a scan backwards over their trailing lengths,
then prints them by a scan forwards. An index outside the copy is `none`. The
text that is printed is left out, the numbers in it are kept.
-/

namespace AudioFlinger.NBLog

open Foundation RingMemory Nbaio

abbrev Byte := BitVec 8

inductive Event
  | EVENT_RESERVED
  | EVENT_STRING
  | EVENT_TIMESTAMP
  deriving DecidableEq, Repr

def Event.code : Event → Byte
  | EVENT_RESERVED => 0#8
  | EVENT_STRING => 1#8
  | EVENT_TIMESTAMP => 2#8

/-- `sizeof(struct timespec)`, two words of 32 bits. -/
def sizeofTimespec : ℕ := 8

/-- An entry as `Writer::log` accepts it: it checks the length and the event, and every caller
logs a time stamp with its size. -/
structure Entry where
  mEvent : Event
  mData : List Byte
  length_le : mData.length ≤ 255
  event_ne : mEvent ≠ .EVENT_RESERVED
  timestamp_length : mEvent = .EVENT_TIMESTAMP → mData.length = sizeofTimespec
  deriving DecidableEq

def Entry.mLength (e : Entry) : ℕ := e.mData.length

/-- `Entry::readAt`, as the `char` it is stored in. -/
def Entry.readAt (e : Entry) (offset : ℕ) : Byte :=
  if offset = 0 then e.mEvent.code
  else if offset = 1 then BitVec.ofNat 8 e.mLength
  else if offset < e.mLength + 2 then e.mData.getD (offset - 2) 0#8
  else if offset = e.mLength + 2 then BitVec.ofNat 8 e.mLength
  else 0#8

/-- The size of the ring, a power of two that holds the longest entry. -/
structure Config where
  mSize : U32
  pow : IsPowerOfTwo 31 mSize
  large : 258 ≤ mSize.toNat

/-! ## The reader's scans -/

/-- `memcpy` of `n` bytes out of the copy. -/
def readBytes (copy : List Byte) (pos n : ℕ) : Option (List Byte) :=
  if pos + n ≤ copy.length then some ((copy.drop pos).take n) else none

structure Timespec where
  tv_sec : ℤ
  tv_nsec : ℤ
  deriving DecidableEq, Repr

/-- A little-endian word. -/
def int32At (data : List Byte) (pos : ℕ) : ℤ :=
  (data.getD (pos + 3) 0#8 ++ data.getD (pos + 2) 0#8 ++ data.getD (pos + 1) 0#8 ++
    data.getD pos 0#8 : BitVec 32).toInt

def Timespec.ofBytes (data : List Byte) : Timespec where
  tv_sec := int32At data 0
  tv_nsec := int32At data 4

/-- The scan backwards over whole entries: where it stops, and the latest second of a time
stamp. -/
def scanBack (copy : List Byte) : ℕ → ℕ → ℤ → Option (ℕ × ℤ)
  | 0, _, _ => none
  | fuel + 1, i, maxSec =>
    if 3 ≤ i then
      copy[i - 1]?.bind fun last =>
        let length := last.toNat
        if i < length + 3 then some (i, maxSec)
        else
          copy[i - length - 2]?.bind fun first =>
            if first.toNat ≠ length then some (i, maxSec)
            else
              copy[i - length - 3]?.bind fun event =>
                if event = Event.EVENT_TIMESTAMP.code then
                  -- a time stamp of another size is corrupt
                  if length ≠ sizeofTimespec then some (i, maxSec)
                  else
                    (readBytes copy (i - length - 1) sizeofTimespec).bind fun data =>
                      let ts := Timespec.ofBytes data
                      scanBack copy fuel (i - (length + 3))
                        (if maxSec < ts.tv_sec then ts.tv_sec else maxSec)
                else scanBack copy fuel (i - (length + 3)) maxSec
    else some (i, maxSec)

def LONG_MAX : ℤ := 2 ^ 31 - 1

def kSquashTimestamp : ℕ := 5

/-- The loop over adjacent time stamps of one second, with the data of those it has taken. -/
structure Squash where
  j : ℕ
  prevNsec : ℤ
  deltaMin : ℤ
  deltaMax : ℤ
  deltaTotal : ℤ
  data : List (List Byte)
  deriving DecidableEq, Repr

def Squash.start (i : ℕ) (data : List Byte) : Squash where
  j := i
  prevNsec := (Timespec.ofBytes data).tv_nsec
  deltaMin := LONG_MAX
  deltaMax := -1
  deltaTotal := 0
  data := [data]

/-- The next time stamp, at `j`, joins the run. -/
def Squash.take (q : Squash) (j : ℕ) (data : List Byte) : Squash :=
  let tsNext := Timespec.ofBytes data
  let delta := tsNext.tv_nsec - q.prevNsec
  { j := j
    prevNsec := tsNext.tv_nsec
    deltaMin := if delta < q.deltaMin then delta else q.deltaMin
    deltaMax := if q.deltaMax < delta then delta else q.deltaMax
    deltaTotal := q.deltaTotal + delta
    data := q.data ++ [data] }

def squash (copy : List Byte) (ts : Timespec) : ℕ → Squash → Option Squash
  | 0, _ => none
  | fuel + 1, q =>
    let j := q.j + (sizeofTimespec + 3)
    if copy.length ≤ j then some { q with j := j }
    else
      copy[j]?.bind fun event =>
        if event ≠ Event.EVENT_TIMESTAMP.code then some { q with j := j }
        else
          (readBytes copy (j + 2) sizeofTimespec).bind fun data =>
            let tsNext := Timespec.ofBytes data
            if tsNext.tv_sec ≠ ts.tv_sec ∨ tsNext.tv_nsec - q.prevNsec < 0 then
              some { q with j := j }
            else squash copy ts fuel (q.take j data)

/-- A line printed by `dump`. -/
inductive Item
  | string (data : List Byte)
  | timestamp (data : List Byte)
  | squashed (stamps : Squash)
  | unknown (event : Byte)
  deriving DecidableEq, Repr

/-- The events and data a line stands for, before squashing. -/
def Item.records : Item → List (Event × List Byte)
  | string data => [(.EVENT_STRING, data)]
  | timestamp data => [(.EVENT_TIMESTAMP, data)]
  | squashed stamps => stamps.data.map fun data => (.EVENT_TIMESTAMP, data)
  | unknown _ => [(.EVENT_RESERVED, [])]

/-- The scan forwards that prints the entries from `i` on. -/
def scanForward (copy : List Byte) : ℕ → ℕ → Option (List Item)
  | 0, _ => none
  | fuel + 1, i =>
    if i < copy.length then
      copy[i]?.bind fun event =>
        copy[i + 1]?.bind fun length =>
          let advance := length.toNat + 3
          if event = Event.EVENT_STRING.code then
            (readBytes copy (i + 2) length.toNat).bind fun data =>
              (scanForward copy fuel (i + advance)).map (Item.string data :: ·)
          else if event = Event.EVENT_TIMESTAMP.code then
            (readBytes copy (i + 2) sizeofTimespec).bind fun data =>
              let ts := Timespec.ofBytes data
              (squash copy ts (copy.length + 1) (Squash.start i data)).bind fun q =>
                if kSquashTimestamp ≤ (q.j - i) / (sizeofTimespec + 3) then
                  (scanForward copy fuel q.j).map (Item.squashed q :: ·)
                else (scanForward copy fuel (i + advance)).map (Item.timestamp data :: ·)
          else (scanForward copy fuel (i + advance)).map (Item.unknown event :: ·)
    else some []

/-! ## State -/

structure State where
  /-- The ring, and the index past the last entry, in shared memory. -/
  mBuffer : ℕ → Byte
  mSharedRear : U32
  /-- The writer. -/
  mRear : U32
  mEnabled : Bool
  /-- The reader. -/
  mFront : U32
  /-- The entries logged since the start, and since the last dump. -/
  logged : List Entry
  pending : List Entry

/-- An empty log. The constructors start with `index = 0`. -/
def State.start (index : U32) (mem : ℕ → Byte) : State where
  mBuffer := mem
  mSharedRear := index
  mRear := index
  mEnabled := true
  mFront := index
  logged := []
  pending := []

/-- The first and the second part of `need` bytes in the ring from `index` on. -/
def Config.part1 (cfg : Config) (index need : U32) : U32 :=
  if need < cfg.mSize - (index &&& (cfg.mSize - 1#32)) then need
  else cfg.mSize - (index &&& (cfg.mSize - 1#32))

def Config.part2 (cfg : Config) (index need : U32) : U32 :=
  if (index &&& (cfg.mSize - 1#32)) + cfg.part1 index need = cfg.mSize then
    need - cfg.part1 index need
  else 0#32

/-- `Writer::log` of an entry. -/
def State.log (cfg : Config) (s : State) (entry : Entry) : State :=
  if s.mEnabled then
    let need := BitVec.ofNat 32 (entry.mLength + 3)
    let written := cfg.part1 s.mRear need
    let rest := cfg.part2 s.mRear need
    { s with
      mBuffer :=
        blit (blit s.mBuffer (s.mRear &&& (cfg.mSize - 1#32)).toNat
          ((List.range written.toNat).map entry.readAt)) 0
          ((List.range rest.toNat).map fun i => entry.readAt (written.toNat + i))
      mRear := s.mRear + (written + rest)
      mSharedRear := s.mRear + (written + rest)
      logged := s.logged ++ [entry]
      pending := s.pending ++ [entry] }
  else s

/-- What `dump` prints: the warning about lost bytes, the latest second, which gives the width
of the indent, and the lines. -/
structure Report where
  lost : Option U32
  maxSec : ℤ
  items : List Item
  deriving DecidableEq, Repr

/-- `Reader::dump`; `none` when it leaves its copy. -/
def State.dump (cfg : Config) (s : State) : Option (Report × State) :=
  let avail := s.mSharedRear - s.mFront
  if avail = 0#32 then
    some ({ lost := none, maxSec := -1, items := [] }, { s with pending := [] })
  else
    let lost := if cfg.mSize < avail then avail - cfg.mSize else 0#32
    let front := s.mFront + lost
    let avail := if cfg.mSize < avail then cfg.mSize else avail
    let read := cfg.part1 front avail
    let rest := cfg.part2 front avail
    let copy := slice s.mBuffer (front &&& (cfg.mSize - 1#32)).toNat read.toNat ++
      slice s.mBuffer 0 rest.toNat
    (scanBack copy (copy.length + 1) avail.toNat (-1)).bind fun (i, maxSec) =>
      (scanForward copy (copy.length + 1) i).map fun items =>
        ({ lost := if 0 < i then some (lost + BitVec.ofNat 32 i) else none
           maxSec := maxSec
           items := items },
          { s with mFront := front + (read + rest), pending := [] })

/-- A call of the writer, or a dump. -/
inductive LogEvent
  | log (event : Event) (data : List Byte)
  | setEnabled (enabled : Bool)
  | dump

/-- `Writer::log` of an event with its data. Only `logTimestamp` logs time stamps. -/
def logStep (cfg : Config) (s : State) : LogEvent → Option State
  | .log event data =>
    if hsize : event = .EVENT_TIMESTAMP → data.length = sizeofTimespec then
      if h : data.length ≤ 255 ∧ event ≠ .EVENT_RESERVED then
        some (s.log cfg ⟨event, data, h.1, h.2, hsize⟩)
      else some s
    else none
  | .setEnabled enabled => some { s with mEnabled := enabled }
  | .dump => (s.dump cfg).map Prod.snd

end AudioFlinger.NBLog
