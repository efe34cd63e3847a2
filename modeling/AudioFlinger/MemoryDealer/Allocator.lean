import AudioFlinger.Foundation.Counter
import AudioFlinger.Foundation.LinkedList
import AudioFlinger.Foundation.Tiling

/-!
# The allocator of a shared heap

`SimpleBestFitAllocator` keeps the chunks of a heap in a linked list. `alloc` takes the
smallest free chunk that is large enough and splits off what it does not need; `dealloc`
frees a chunk and merges it with its free neighbours. Sizes and offsets are 32-bit words,
counted in units of `kMemoryAlign` inside the list; a chunk has 28 bits for its size.
-/

namespace AudioFlinger.MemoryDealer
open Foundation

/-- `getpagesize()`: a power of two, and at least the alignment unit. -/
structure PageSize where
  bits : ℕ
  unit_le : 5 ≤ bits
  lt_word : bits < 32

def PageSize.bytes (pagesize : PageSize) : U32 := BitVec.ofNat 32 (2 ^ pagesize.bits)

def kMemoryAlign : U32 := 32#32
def PAGE_ALIGNED : U32 := 1#32
def NO_ERROR : U32 := 0#32
def NO_MEMORY : U32 := -12#32
def NAME_NOT_FOUND : U32 := -2#32

structure Chunk where
  start : U32
  size : BitVec 28
  free : Bool

/-- The constructor `chunk_t(start, size)`. -/
def chunk (start size : U32) : Chunk where
  start := start
  size := size.setWidth 28
  free := true

structure SimpleBestFitAllocator where
  mList : LinkedList Chunk
  mHeapSize : U32

def roundToPage (pagesize : PageSize) (size : U32) : U32 :=
  (size + pagesize.bytes - 1#32) &&& ~~~(pagesize.bytes - 1#32)

/-- The allocator of a heap of `size` bytes. -/
def create (pagesize : PageSize) (size : U32) : SimpleBestFitAllocator :=
  let mHeapSize := roundToPage pagesize size
  let node := LinkedList.empty.new (chunk 0#32 (mHeapSize / kMemoryAlign))
  { mList := node.2.insertHead node.1, mHeapSize := mHeapSize }

section Fields

variable (l : LinkedList Chunk) (p : ℕ)

/-- The chunk at an address; no code path reads a null or deleted one. -/
def chunkAt : Chunk := ((l.node p).map Node.val).getD (chunk 0#32 0#32)

def prev : Option ℕ := (l.node p).bind Node.prev

def next : Option ℕ := (l.node p).bind Node.next

end Fields

/-- `size` as the comparisons see it. -/
def Chunk.words (c : Chunk) : U32 := c.size.setWidth 32

/-- What an aligned region leaves unused at the start of a chunk. -/
def extra (pagesize : PageSize) (flags : U32) (c : Chunk) : U32 :=
  if flags &&& PAGE_ALIGNED ≠ 0#32 then -c.start &&& (pagesize.bytes / kMemoryAlign - 1#32)
  else 0#32

/-- `cur->free && cur->size >= size + extra` -/
def fits (pagesize : PageSize) (size flags : U32) (c : Chunk) : Bool :=
  c.free && decide (size + extra pagesize flags c ≤ c.words)

/-- The chunk to remember after `cur`, which fits. -/
def better (l : LinkedList Chunk) (cur : ℕ) (free_chunk : Option ℕ) : Option ℕ :=
  match free_chunk with
  | none => some cur
  | some best => if (chunkAt l cur).words < (chunkAt l best).words then some cur else some best

/-- The loop of `alloc`. The fuel bounds the length of the list. -/
def search (pagesize : PageSize) (size flags : U32) (l : LinkedList Chunk) :
    ℕ → Option ℕ → Option ℕ → Option ℕ
  | 0, _, free_chunk => free_chunk
  | _, none, free_chunk => free_chunk
  | fuel + 1, some cur, free_chunk =>
    if fits pagesize size flags (chunkAt l cur) then
      if (chunkAt l cur).words = size then better l cur free_chunk
      else search pagesize size flags l fuel (next l cur) (better l cur free_chunk)
    else search pagesize size flags l fuel (next l cur) free_chunk

/-- Split off the start of a chunk that is to be page aligned. -/
def splitHead (l : LinkedList Chunk) (free_chunk : ℕ) (extra : U32) : LinkedList Chunk :=
  if extra ≠ 0#32 then
    let split := l.new (chunk (chunkAt l free_chunk).start extra)
    let l := split.2.assign free_chunk fun c => { c with start := c.start + extra }
    l.insertBefore free_chunk split.1
  else l

/-- Split off what a chunk does not need at its end. -/
def splitTail (l : LinkedList Chunk) (free_chunk : ℕ) (tail_free : U32) : LinkedList Chunk :=
  if 0 < tail_free.toInt then
    let c := chunkAt l free_chunk
    let split := l.new (chunk (c.start + c.words) tail_free)
    split.2.insertAfter free_chunk split.1
  else l

/-- Take `size` units of a free chunk that fits. -/
def take (pagesize : PageSize) (size flags : U32) (l : LinkedList Chunk) (free_chunk : ℕ) :
    LinkedList Chunk :=
  let free_size := (chunkAt l free_chunk).words
  let l := l.assign free_chunk fun c => { c with free := false, size := size.setWidth 28 }
  if size < free_size then
    let extra := extra pagesize flags (chunkAt l free_chunk)
    let l := splitHead l free_chunk extra
    splitTail l free_chunk (free_size - (size + extra))
  else l

/-- The size in units, rounded up in 32-bit arithmetic. -/
def units (size : U32) : U32 := (size + kMemoryAlign - 1#32) / kMemoryAlign

def alloc (pagesize : PageSize) (s : SimpleBestFitAllocator) (size flags : U32) :
    U32 × SimpleBestFitAllocator :=
  if size = 0#32 then (0#32, s)
  else
    let size := units size
    match search pagesize size flags s.mList (s.mList.fresh + 1) s.mList.mFirst none with
    | some free_chunk =>
      let l := take pagesize size flags s.mList free_chunk
      ((chunkAt l free_chunk).start * kMemoryAlign, { s with mList := l })
    | none => (NO_MEMORY, s)

/-- Merge `cur` into a free chunk before it, or remove it when it is empty. -/
def merge (l : LinkedList Chunk) (cur freed : ℕ) : LinkedList Chunk × ℕ :=
  match prev l cur with
  | some p =>
    if (chunkAt l p).free || (chunkAt l cur).size == 0#28 then
      let l := l.assign p fun c => { c with size := c.size + (chunkAt l cur).size }
      ((l.remove cur).delete cur, p)
    else (l, freed)
  | none => (l, freed)

/-- The do-while loop of `dealloc`. -/
def mergeLoop : ℕ → LinkedList Chunk → ℕ → ℕ → LinkedList Chunk × ℕ
  | 0, l, _, freed => (l, freed)
  | fuel + 1, l, cur, freed =>
    let n := next l cur
    let merged := merge l cur freed
    match n with
    | some n => if (chunkAt merged.1 n).free then mergeLoop fuel merged.1 n merged.2 else merged
    | none => merged

/-- The first chunk that starts at `start`. -/
def find (start : U32) (l : LinkedList Chunk) : ℕ → Option ℕ → Option ℕ
  | 0, _ => none
  | _, none => none
  | fuel + 1, some cur =>
    if (chunkAt l cur).start = start then some cur else find start l fuel (next l cur)

def dealloc (s : SimpleBestFitAllocator) (start : U32) : Option ℕ × SimpleBestFitAllocator :=
  match find (start / kMemoryAlign) s.mList (s.mList.fresh + 1) s.mList.mFirst with
  | some cur =>
    let l := s.mList.assign cur fun c => { c with free := true }
    let merged := mergeLoop (l.fresh + 1) l cur cur
    (some merged.2, { s with mList := merged.1 })
  | none => (none, s)

def allocate (pagesize : PageSize) (s : SimpleBestFitAllocator) (size flags : U32) :
    U32 × SimpleBestFitAllocator := alloc pagesize s size flags

def deallocate (s : SimpleBestFitAllocator) (offset : U32) : U32 × SimpleBestFitAllocator :=
  match dealloc s offset with
  | (some _, s) => (NO_ERROR, s)
  | (none, s) => (NAME_NOT_FOUND, s)

/-!
## What the allocator does to its list of chunks

Each loop and each split is described by the list of chunks that the linked list holds
before and after it.
-/

open Foundation Foundation.LinkedList Foundation.Tile

abbrev Chunks := List (ℕ × Chunk)

variable {l : LinkedList Chunk} {xs ys zs : Chunks} {p q : ℕ} {c d : Chunk} {pagesize : PageSize}
  {size flags start : U32} {e : U32} {o : Option ℕ} {fuel freed : ℕ}

theorem chunkAt_eq (h : Holds l (xs ++ (p, c) :: ys)) : chunkAt l p = c := by
  rw [chunkAt, h.node_eq]
  rfl

theorem prev_eq (h : Holds l (xs ++ (p, c) :: ys)) : prev l p = lastOr none xs := by
  rw [prev, h.node_eq]
  rfl

theorem next_eq (h : Holds l (xs ++ (p, c) :: ys)) : next l p = headOr ys none := by
  rw [next, h.node_eq]
  rfl

/-! ## The search -/

/-- A choice among `xs`: a chunk that fits, or none if there is none. -/
def Chosen (pagesize : PageSize) (size flags : U32) (xs : Chunks) (o : Option ℕ) : Prop :=
  (o = none → ∀ x ∈ xs, fits pagesize size flags x.2 = false) ∧
  ∀ p ∈ o, ∃ c, (p, c) ∈ xs ∧ fits pagesize size flags c = true

theorem Chosen.better (hb : Chosen pagesize size flags xs o)
    (hc : fits pagesize size flags c = true) :
    ∃ r, better l p o = some r ∧
      ∃ d, (r, d) ∈ xs ++ [(p, c)] ∧ fits pagesize size flags d = true := by
  cases o with
  | none => exact ⟨p, rfl, c, by simp, hc⟩
  | some best =>
    rw [MemoryDealer.better]
    split
    · exact ⟨p, rfl, c, by simp, hc⟩
    · obtain ⟨d, hd, hfit⟩ := hb.2 best rfl
      exact ⟨best, rfl, d, List.mem_append_left _ hd, hfit⟩

theorem chosen_of_some (hex : ∃ r, o = some r ∧
    ∃ d, (r, d) ∈ xs ∧ fits pagesize size flags d = true) : Chosen pagesize size flags xs o := by
  obtain ⟨r, rfl, hd⟩ := hex
  refine ⟨fun hnone => absurd hnone (by simp), fun p hp => ?_⟩
  cases hp
  exact hd

theorem Chosen.mono (hb : Chosen pagesize size flags xs o) (ho : o ≠ none) :
    Chosen pagesize size flags (xs ++ ys) o := by
  refine ⟨fun hnone => absurd hnone ho, fun p hp => ?_⟩
  obtain ⟨c, hc, hfit⟩ := hb.2 p hp
  exact ⟨c, List.mem_append_left _ hc, hfit⟩

/-- The loop has looked at `xs` and is about to look at `ys`. -/
theorem search_chosen (h : Holds l (xs ++ ys)) (hfuel : ys.length ≤ fuel)
    (hb : Chosen pagesize size flags xs o) :
    Chosen pagesize size flags (xs ++ ys)
      (search pagesize size flags l fuel (headOr ys none) o) := by
  induction ys generalizing xs o fuel with
  | nil =>
    rw [List.append_nil]
    cases fuel <;> exact hb
  | cons y ys ih =>
    obtain ⟨p, c⟩ := y
    obtain ⟨fuel, rfl⟩ : ∃ k, fuel = k + 1 := ⟨fuel - 1, by simp at hfuel; omega⟩
    have hfuel' : ys.length ≤ fuel := by simpa using hfuel
    have hnext := next_eq h
    rw [headOr_cons, search, chunkAt_eq h, hnext]
    rw [List.append_cons] at h ⊢
    by_cases hc : fits pagesize size flags c = true
    · rw [if_pos hc]
      have hbetter := chosen_of_some (hb.better (l := l) (p := p) hc)
      by_cases hexact : c.words = size
      · rw [if_pos hexact]
        obtain ⟨r, hr, -⟩ := hb.better (l := l) (p := p) hc
        exact hbetter.mono (by simp [hr])
      · rw [if_neg hexact]
        exact ih h hfuel' hbetter
    · rw [if_neg hc]
      refine ih h hfuel' ⟨fun ho x hx => ?_, fun r hr => ?_⟩
      · rcases List.mem_append.mp hx with hx | hx
        · exact hb.1 ho x hx
        · rw [List.mem_singleton.mp hx]
          exact Bool.eq_false_iff.mpr hc
      · obtain ⟨d, hd, hfit⟩ := hb.2 r hr
        exact ⟨d, List.mem_append_left _ hd, hfit⟩

theorem find_eq (h : Holds l (xs ++ (ys ++ (p, c) :: zs))) (hfuel : ys.length < fuel)
    (hbefore : ∀ y ∈ ys, y.2.start ≠ start) (hc : c.start = start) :
    find start l fuel (headOr (ys ++ (p, c) :: zs) none) = some p := by
  induction ys generalizing xs fuel with
  | nil =>
    obtain ⟨fuel, rfl⟩ : ∃ k, fuel = k + 1 := ⟨fuel - 1, by simp at hfuel; omega⟩
    rw [List.nil_append, headOr_cons, find, chunkAt_eq h, if_pos hc]
  | cons y ys ih =>
    obtain ⟨q, d⟩ := y
    obtain ⟨fuel, rfl⟩ : ∃ k, fuel = k + 1 := ⟨fuel - 1, by simp at hfuel; omega⟩
    have hd : d.start ≠ start := hbefore (q, d) List.mem_cons_self
    rw [List.cons_append] at h ⊢
    have hnext := next_eq h
    rw [headOr_cons, find, chunkAt_eq h, if_neg hd, hnext]
    rw [List.append_cons] at h
    exact ih h (by simpa using hfuel) fun y hy => hbefore y (List.mem_cons_of_mem _ hy)

/-! ## Splitting -/

/-- What is split off in front of an aligned region. -/
def heads (c : Chunk) (e : U32) : List Chunk := if e ≠ 0#32 then [chunk c.start e] else []

/-- What is split off behind a region. -/
def tails (c : Chunk) (t : U32) : List Chunk :=
  if 0 < t.toInt then [chunk (c.start + c.words) t] else []

theorem splitHead_holds (h : Holds l (xs ++ (p, c) :: ys)) (e : U32) :
    ∃ front : Chunks, front.map Prod.snd = heads c e ∧
      Holds (splitHead l p e) (xs ++ front ++ (p, { c with start := c.start + e }) :: ys) := by
  by_cases he : e ≠ 0#32
  · obtain ⟨hnew, hapart⟩ := h.new (chunk c.start e)
    have hheld := (hnew.assign fun c => { c with start := c.start + e }).insertBefore
      (hapart.assign fun c => { c with start := c.start + e })
    refine ⟨[((l.new (chunk c.start e)).1, chunk c.start e)], by simp [heads, he], ?_⟩
    rw [splitHead, if_pos he, chunkAt_eq h, List.append_assoc]
    exact hheld
  · refine ⟨[], by simp [heads, he], ?_⟩
    obtain rfl : e = 0#32 := not_not.mp he
    rw [splitHead, if_neg he, List.append_nil, BitVec.add_zero]
    exact h

theorem splitTail_holds (h : Holds l (xs ++ (p, c) :: ys)) (t : U32) :
    ∃ back : Chunks, back.map Prod.snd = tails c t ∧
      Holds (splitTail l p t) (xs ++ (p, c) :: (back ++ ys)) := by
  by_cases ht : 0 < t.toInt
  · obtain ⟨hnew, hapart⟩ := h.new (chunk (c.start + c.words) t)
    refine ⟨[((l.new (chunk (c.start + c.words) t)).1, chunk (c.start + c.words) t)],
      by simp [tails, ht], ?_⟩
    rw [splitTail, if_pos ht, chunkAt_eq h]
    exact hnew.insertAfter hapart
  · refine ⟨[], by simp [tails, ht], ?_⟩
    rw [splitTail, if_neg ht]
    exact h

/-- The region that is taken: `size` units behind the first `e` of a chunk. -/
def taken (c : Chunk) (e size : U32) : Chunk where
  start := c.start + e
  size := size.setWidth 28
  free := false

def carve (c : Chunk) (e size : U32) : List Chunk :=
  heads c e ++ taken c e size :: tails (taken c e size) (c.words - (size + e))

@[simp] theorem heads_zero : heads c 0#32 = [] := rfl

@[simp] theorem tails_zero : tails c 0#32 = [] := rfl

theorem take_holds (h : Holds l (xs ++ (p, c) :: ys)) (he : extra pagesize flags c = e)
    (hexact : c.words ≤ size → e = 0#32 ∧ c.words - size = 0#32) :
    ∃ front back : Chunks, front.map Prod.snd = heads c e ∧
      back.map Prod.snd = tails (taken c e size) (c.words - (size + e)) ∧
      Holds (take pagesize size flags l p) (xs ++ front ++ (p, taken c e size) :: (back ++ ys)) := by
  have hassign := h.assign fun c => { c with free := false, size := size.setWidth 28 }
  have hextra : extra pagesize flags { c with free := false, size := size.setWidth 28 } = e := he
  by_cases hlt : size < c.words
  · obtain ⟨front, hfront, hhead⟩ := splitHead_holds hassign e
    obtain ⟨back, hback, htail⟩ := splitTail_holds hhead (c.words - (size + e))
    refine ⟨front, back, hfront, hback, ?_⟩
    rw [take, chunkAt_eq h, if_pos hlt, chunkAt_eq hassign, hextra]
    exact htail
  · obtain ⟨rfl, hrest⟩ := hexact (BitVec.not_lt.mp hlt)
    refine ⟨[], [], rfl, by simp [hrest], ?_⟩
    rw [take, chunkAt_eq h, if_neg hlt, taken, BitVec.add_zero, List.append_nil, List.nil_append]
    exact hassign

/-! ## Merging -/

/-- What `merge` makes of a chunk `d` and the freed chunk `c` behind it. -/
def joined (d c : Chunk) : Chunk := { d with size := d.size + c.size }

theorem merge_joins (h : Holds l (xs ++ (q, d) :: (p, c) :: ys)) (hd : d.free = true) :
    (merge l p freed).2 = q ∧ Holds (merge l p freed).1 (xs ++ (q, joined d c) :: ys) := by
  have h' : Holds l ((xs ++ [(q, d)]) ++ (p, c) :: ys) := by
    rw [← List.append_cons]
    exact h
  have hprev : prev l p = some q := by
    rw [prev_eq h', lastOr_concat]
  have hmerge : merge l p freed = (((l.assign q fun d => joined d c).remove p).delete p, q) := by
    rw [merge, hprev]
    simp [chunkAt_eq h, chunkAt_eq h', hd, joined]
  have hassign := h.assign fun d => joined d c
  rw [List.append_cons] at hassign
  obtain ⟨hremoved, hne⟩ := hassign.remove
  rw [hmerge, List.append_cons]
  exact ⟨rfl, hremoved.delete hne⟩

theorem merge_skips (h : Holds l (xs ++ (p, c) :: ys)) (hc : c.size ≠ 0#28)
    (hlast : ∀ x ∈ xs.getLast?, x.2.free = false) : merge l p freed = (l, freed) := by
  rw [merge, prev_eq h]
  cases xs using List.reverseRecOn with
  | nil => rfl
  | append_singleton xs x _ =>
    obtain ⟨q, d⟩ := x
    have hd : d.free = false := hlast (q, d) (by simp)
    have h' := h
    rw [← List.append_cons] at h'
    rw [lastOr_concat]
    simp [chunkAt_eq h, chunkAt_eq h', hd, hc]

end AudioFlinger.MemoryDealer
