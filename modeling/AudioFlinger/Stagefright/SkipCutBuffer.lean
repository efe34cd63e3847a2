import AudioFlinger.Foundation.Machine
import AudioFlinger.Foundation.RingMemory

/-!
# The start and the end cut off a stream of buffers

`SkipCutBuffer` drops the first `skip` bytes that are submitted to it and holds the last `cut` bytes
back in a ring, which grows for a buffer that does not fit.
-/

namespace AudioFlinger.Stagefright

open Foundation.RingMemory Foundation.Machine

variable {α : Type*}

/-- The sizes are of type `int32_t`; none is below zero here. -/
structure SkipCutBuffer (α : Type*) where
  mFrontPadding : ℕ
  mBackPadding : ℕ
  mWriteHead : ℕ := 0
  mReadHead : ℕ := 0
  mCapacity : ℕ
  /-- What lies past `mCapacity` is what a later `new` finds there. -/
  mCutBuffer : ℕ → α

namespace SkipCutBuffer

/-- The constructor; `none` where a size is past an `int32_t`. -/
def new (skip cut : ℕ) (mCutBuffer : ℕ → α) : Option (SkipCutBuffer α) :=
  if skip < 2 ^ 31 ∧ cut + 4096 < 2 ^ 31 then
    some { mFrontPadding := skip, mBackPadding := cut, mCapacity := cut + 4096, mCutBuffer }
  else none

def size (s : SkipCutBuffer α) : ℕ :=
  if s.mReadHead ≤ s.mWriteHead then s.mWriteHead - s.mReadHead
  else s.mWriteHead + s.mCapacity - s.mReadHead

/-- `available` in `write`; below zero it is a huge `size_t`. -/
def available (s : SkipCutBuffer α) : ℤ := s.mCapacity - s.size - 32

/-- The ring is reallocated for `num` bytes. -/
def Grows (s : SkipCutBuffer α) (num : ℕ) : Prop := 0 ≤ s.available ∧ s.available < num

instance (s : SkipCutBuffer α) (num : ℕ) : Decidable (s.Grows num) := instDecidableAnd

/-- `memcpy` copies the cells as they lie, wherever the heads are. -/
def grow (s : SkipCutBuffer α) (num : ℕ) : SkipCutBuffer α :=
  if s.Grows num then { s with mCapacity := s.mCapacity + (num - s.available.toNat) } else s

/-- `write` once there is room. -/
def copyIn (s : SkipCutBuffer α) (src : List α) : SkipCutBuffer α :=
  let copyfirst := min (s.mCapacity - s.mWriteHead) src.length
  let mCutBuffer := blit s.mCutBuffer s.mWriteHead (src.take copyfirst)
  let mWriteHead := s.mWriteHead + copyfirst
  let mWriteHead := if mWriteHead = s.mCapacity then 0 else mWriteHead
  if copyfirst = 0 then s
  else if src.length - copyfirst = 0 then { s with mCutBuffer, mWriteHead }
  else { s with
    mCutBuffer := blit mCutBuffer 0 (src.drop copyfirst)
    mWriteHead := mWriteHead + (src.length - copyfirst) }

def write (s : SkipCutBuffer α) (src : List α) : SkipCutBuffer α := (s.grow src.length).copyIn src

/-- The bytes read, the result, and the state; the result is more than the bytes if `num` is too
small. -/
def read (s : SkipCutBuffer α) (num : ℕ) : List α × ℕ × SkipCutBuffer α :=
  if s.size ≤ s.mBackPadding then ([], 0, s)
  else
    let available := s.size - s.mBackPadding
    let num := min available num
    let copyfirst := min (s.mCapacity - s.mReadHead) num
    let mReadHead := s.mReadHead + copyfirst
    let mReadHead := if mReadHead = s.mCapacity then 0 else mReadHead
    if copyfirst = 0 then ([], available, s)
    else if num - copyfirst = 0 then
      (slice s.mCutBuffer s.mReadHead copyfirst, available, { s with mReadHead })
    else
      (slice s.mCutBuffer s.mReadHead copyfirst ++ slice s.mCutBuffer 0 (num - copyfirst), available,
        { s with mReadHead := mReadHead + (num - copyfirst) })

/-- `submit`: a buffer of `capacity` bytes with `data` in its range, and what is in its range
afterwards; `none` is the failed CHECK of a range that exceeds the buffer, or a size past an
`int32_t`. -/
def submit (s : SkipCutBuffer α) (data : List α) (capacity : ℕ) : Option (List α × SkipCutBuffer α) :=
  let to_drop := min data.length s.mFrontPadding
  let s := { s with mFrontPadding := s.mFrontPadding - to_drop }.write (data.drop to_drop)
  let (bytes, copied, s) := s.read capacity
  if copied ≤ capacity ∧ max data.length (max capacity s.mCapacity) < 2 ^ 31 then some (bytes, s)
  else none

end SkipCutBuffer

/-! ## The cut stream -/

/-- What is left to skip, and what is held back. -/
structure Cut (α : Type*) where
  front : ℕ
  held : List α

/-- Everything but the last `back` bytes comes out. -/
def Cut.submit (back : ℕ) (c : Cut α) (data : List α) : List α × Cut α :=
  let bytes := c.held ++ data.drop c.front
  (bytes.take (bytes.length - back), ⟨c.front - data.length, bytes.drop (bytes.length - back)⟩)

namespace SkipCutBuffer

/-- The ring stores `xs` from the read head to the write head. -/
structure Stores (s : SkipCutBuffer α) (xs : List α) : Prop where
  holds : Holds s.mCapacity s.mCutBuffer s.mReadHead xs
  read : s.mReadHead < s.mCapacity
  write : s.mWriteHead = (s.mReadHead + xs.length) % s.mCapacity
  room : xs.length < s.mCapacity

variable {s : SkipCutBuffer α} {xs : List α}

theorem Stores.size_eq (h : s.Stores xs) : s.size = xs.length := by
  have hr := h.read
  have hroom := h.room
  rw [size, h.write]
  by_cases hwrap : s.mReadHead + xs.length < s.mCapacity
  · rw [Nat.mod_eq_of_lt hwrap]
    split_ifs <;> omega
  · rw [Nat.mod_eq_sub_mod (by omega), Nat.mod_eq_of_lt (by omega)]
    split_ifs <;> omega

/-- A head that is wrapped once at most. -/
theorem head_eq {M m p : ℕ} (hm : m < M) (heq : p = m ∨ p = m + M) : m = p % M := by
  obtain rfl | rfl := heq
  · rw [Nat.mod_eq_of_lt hm]
  · rw [Nat.add_mod_right, Nat.mod_eq_of_lt hm]

/-- A copy up to the end of the ring at most, behind what is stored. -/
theorem holds_append_blit {M p q : ℕ} {mem : ℕ → α} {ys : List α} (zs : List α) (h : Holds M mem q ys)
    (hp : q + ys.length = p) (hfit : p % M + zs.length ≤ M) (hlap : p + zs.length ≤ q + M) :
    Holds M (blit mem (p % M) zs) q (ys ++ zs) := by
  subst hp
  exact (h.blit hfit (Nat.le_refl _) hlap).append (holds_blit hfit)

theorem Stores.copyIn (h : s.Stores xs) {src : List α} (hroom : xs.length + src.length < s.mCapacity) :
    (s.copyIn src).Stores (xs ++ src) := by
  have hr := h.read
  have hw := h.write
  have hwlt : s.mWriteHead < s.mCapacity := hw ▸ Nat.mod_lt _ (by omega)
  -- the write head is the end of what is stored or, past the end of the ring, a lap before it
  have hlap : s.mWriteHead = s.mReadHead + xs.length ∨
      s.mWriteHead + s.mCapacity = s.mReadHead + xs.length := by
    by_cases hwrap : s.mReadHead + xs.length < s.mCapacity
    · exact .inl (hw.trans (Nat.mod_eq_of_lt hwrap))
    · refine .inr ?_
      rw [hw, Nat.mod_eq_sub_mod (by omega), Nat.mod_eq_of_lt (by omega)]
      omega
  have hfirst := holds_append_blit (src.take (min (s.mCapacity - s.mWriteHead) src.length)) h.holds rfl
    (by rw [← hw, List.length_take]; omega) (by rw [List.length_take]; omega)
  rw [← hw] at hfirst
  have hmod (m : ℕ) (hm : m < s.mCapacity) (heq : s.mReadHead + (xs.length + src.length) = m ∨
      s.mReadHead + (xs.length + src.length) = m + s.mCapacity) :
      m = (s.mReadHead + (xs ++ src).length) % s.mCapacity := by
    rw [List.length_append]
    exact head_eq hm heq
  have hlen : (xs ++ src).length < s.mCapacity := List.length_append ▸ hroom
  obtain hgt | hle := Nat.lt_or_ge (s.mCapacity - s.mWriteHead) src.length
  rotate_left
  · have hcopy : min (s.mCapacity - s.mWriteHead) src.length = src.length := Nat.min_eq_right hle
    rw [hcopy, List.take_length] at hfirst
    simp only [SkipCutBuffer.copyIn, hcopy, List.take_length, Nat.sub_self, if_true]
    split_ifs with hnone hend
    · obtain rfl : src = [] := List.eq_nil_of_length_eq_zero hnone
      rwa [List.append_nil]
    · exact ⟨hfirst, hr, hmod 0 (by omega) (by omega), hlen⟩
    · exact ⟨hfirst, hr, hmod (s.mWriteHead + src.length) (by omega) (by omega), hlen⟩
  · have hcopy : min (s.mCapacity - s.mWriteHead) src.length = s.mCapacity - s.mWriteHead :=
      Nat.min_eq_left hgt.le
    rw [hcopy] at hfirst
    have hpos : (s.mReadHead + (xs ++ src.take (s.mCapacity - s.mWriteHead)).length) %
        s.mCapacity = 0 := by
      rw [List.length_append, List.length_take_of_le hgt.le, ← Nat.add_assoc]
      exact slot_lap (by rw [← hw]; omega)
    have hsecond := holds_append_blit (src.drop (s.mCapacity - s.mWriteHead)) hfirst rfl
      (by rw [hpos, List.length_drop]; omega)
      (by rw [List.length_append, List.length_take, List.length_drop]; omega)
    rw [hpos, List.append_assoc, List.take_append_drop] at hsecond
    have hfull : s.mWriteHead + (s.mCapacity - s.mWriteHead) = s.mCapacity := by omega
    simp only [SkipCutBuffer.copyIn, hcopy, hfull, if_true]
    rw [if_neg (by omega), if_neg (by omega)]
    exact ⟨hsecond, hr, hmod (0 + (src.length - (s.mCapacity - s.mWriteHead))) (by omega) (by omega),
      hlen⟩

/-- Room is made without a change to what is stored, unless the ring is wrapped. -/
theorem Stores.grow (h : s.Stores xs) (hroom : xs.length + 32 ≤ s.mCapacity) (num : ℕ)
    (hok : s.Grows num → s.mReadHead ≤ s.mWriteHead) :
    (s.grow num).Stores xs ∧ xs.length + num < (s.grow num).mCapacity := by
  have hsize := h.size_eq
  have hr := h.read
  rw [SkipCutBuffer.grow]
  split_ifs with hgrow
  · have hflat : s.mWriteHead = s.mReadHead + xs.length := by
      have hle := hok hgrow
      rw [SkipCutBuffer.size, if_pos hle] at hsize
      omega
    have hwlt : s.mWriteHead < s.mCapacity := h.write ▸ Nat.mod_lt _ (by omega)
    obtain ⟨hlo, hhi⟩ := hgrow
    rw [available, hsize] at hlo hhi
    rw [available, hsize]
    refine ⟨⟨fun j hj => ?_, by simp only; omega, ?_, by simp only; omega⟩, by simp only; omega⟩
    · rw [Nat.mod_eq_of_lt (by simp only; omega), ← h.holds j hj, Nat.mod_eq_of_lt (by omega)]
    · rw [← hflat, Nat.mod_eq_of_lt (by simp only; omega)]
  · refine ⟨h, ?_⟩
    rw [Grows, available, hsize] at hgrow
    omega

theorem Stores.drop (h : s.Stores xs) {n : ℕ} (hn : n ≤ xs.length) :
    Stores { s with mReadHead := (s.mReadHead + n) % s.mCapacity } (xs.drop n) where
  holds j hj := by
    rw [Nat.mod_add_mod]
    exact h.holds.drop n j hj
  read := Nat.mod_lt _ (Nat.zero_lt_of_lt h.read)
  write := by
    rw [Nat.mod_add_mod, List.length_drop, Nat.add_assoc, Nat.add_sub_cancel' hn]
    exact h.write
  room := List.length_drop ▸ Nat.lt_of_le_of_lt (Nat.sub_le _ _) h.room

/-- A read with room for it takes all but what is held back. -/
theorem Stores.read_eq (h : s.Stores xs) {num : ℕ} (hnum : xs.length - s.mBackPadding ≤ num) :
    s.read num = (xs.take (xs.length - s.mBackPadding), xs.length - s.mBackPadding,
      { s with mReadHead := (s.mReadHead + (xs.length - s.mBackPadding)) % s.mCapacity }) := by
  have hr := h.read
  have hroom := h.room
  have hbytes := h.holds.ringSlice (Nat.sub_le xs.length s.mBackPadding)
  simp only [SkipCutBuffer.read, h.size_eq, Nat.min_eq_left hnum]
  generalize hn : xs.length - s.mBackPadding = n at *
  by_cases hback : xs.length ≤ s.mBackPadding
  · obtain rfl : n = 0 := by omega
    rw [if_pos hback, List.take_zero, Nat.add_zero, Nat.mod_eq_of_lt hr]
  rw [if_neg hback]
  obtain hle | hgt := Nat.lt_or_ge (s.mCapacity - s.mReadHead) n
  · have hcopy : min (s.mCapacity - s.mReadHead) n = s.mCapacity - s.mReadHead := Nat.min_eq_left hle.le
    have hfull : s.mReadHead + (s.mCapacity - s.mReadHead) = s.mCapacity := by omega
    have hring := @ringSlice_add _ s.mCapacity s.mCutBuffer s.mReadHead
      (s.mCapacity - s.mReadHead) (n - (s.mCapacity - s.mReadHead))
    have hlap : (s.mReadHead + (s.mCapacity - s.mReadHead)) % s.mCapacity = 0 := by
      rw [hfull, Nat.mod_self]
    rw [Nat.add_sub_cancel' hle.le,
      ringSlice_eq_slice (p := s.mReadHead) (n := s.mCapacity - s.mReadHead)
        (by rw [Nat.mod_eq_of_lt hr, hfull]),
      ringSlice_eq_slice (p := s.mReadHead + (s.mCapacity - s.mReadHead)) (by rw [hlap]; omega), hlap,
      Nat.mod_eq_of_lt hr] at hring
    rw [hcopy, if_neg (by omega), if_neg (by omega), if_pos hfull, ← hbytes, hring,
      ← head_eq (m := 0 + (n - (s.mCapacity - s.mReadHead))) (by omega) (by omega)]
  · have hcopy : min (s.mCapacity - s.mReadHead) n = n := Nat.min_eq_right hgt
    rw [ringSlice_eq_slice (by rw [Nat.mod_eq_of_lt hr]; omega), Nat.mod_eq_of_lt hr] at hbytes
    rw [hcopy, if_neg (by omega), if_pos (Nat.sub_self n), hbytes]
    split_ifs with hend
    · rw [← head_eq (m := 0) (by omega) (by omega)]
    · rw [← head_eq (m := s.mReadHead + n) (by omega) (by omega)]

theorem write_frame (s : SkipCutBuffer α) (src : List α) :
    s.mCapacity ≤ (s.write src).mCapacity ∧
      (s.write src).mCapacity = (s.grow src.length).mCapacity ∧
      (s.write src).mFrontPadding = s.mFrontPadding ∧ (s.write src).mBackPadding = s.mBackPadding := by
  simp only [write, SkipCutBuffer.copyIn, SkipCutBuffer.grow]
  split_ifs <;> simp

/-- The buffer is in the state `c` of the cut stream. -/
structure Represents (s : SkipCutBuffer α) (c : Cut α) : Prop extends s.Stores c.held where
  front : s.mFrontPadding = c.front
  back : c.held.length ≤ s.mBackPadding
  capacity : s.mBackPadding + 4096 ≤ s.mCapacity
  int32 : s.mCapacity < 2 ^ 31

/-- The data fits in its buffer, the sizes in an `int32_t`, and the ring is not wrapped if it has to
grow for it. -/
def Fits (s : SkipCutBuffer α) (data : List α) (capacity : ℕ) : Prop :=
  data.length ≤ capacity ∧ capacity < 2 ^ 31 ∧
    (s.grow (data.length - s.mFrontPadding)).mCapacity < 2 ^ 31 ∧
    (s.Grows (data.length - s.mFrontPadding) → s.mReadHead ≤ s.mWriteHead)

theorem Represents.submit {c : Cut α} {data : List α} {capacity : ℕ} (h : s.Represents c)
    (hfit : s.Fits data capacity) :
    ∃ s', s.submit data capacity = some ((c.submit s.mBackPadding data).1, s') ∧
      s'.Represents (c.submit s.mBackPadding data).2 ∧ s'.mBackPadding = s.mBackPadding := by
  have hback := h.back
  have hcapacity := h.capacity
  have hdrop : data.drop (min data.length s.mFrontPadding) = data.drop c.front := by
    rw [h.front, List.drop_eq_drop_iff]
    omega
  have hlen : (data.drop c.front).length = data.length - s.mFrontPadding := by
    rw [List.length_drop, h.front]
  have hstores :
      Stores { s with mFrontPadding := s.mFrontPadding - min data.length s.mFrontPadding } c.held :=
    { h.toStores with }
  obtain ⟨hgrown, hroom⟩ := hstores.grow
    (Nat.le_trans (Nat.add_le_add hback (by omega)) hcapacity) (data.drop c.front).length
    (hlen ▸ hfit.2.2.2)
  have hwritten := hgrown.copyIn hroom
  obtain ⟨hle, hgrow, hfront, hpad⟩ := write_frame
    { s with mFrontPadding := s.mFrontPadding - min data.length s.mFrontPadding } (data.drop c.front)
  rw [← write] at hwritten
  simp only [SkipCutBuffer.submit, hdrop]
  generalize write _ _ = w at hwritten hle hgrow hfront hpad ⊢
  simp only at hle hfront hpad
  have hint : w.mCapacity < 2 ^ 31 := by
    have hfits := hfit.2.2.1
    rw [hgrow, hlen]
    simp only [SkipCutBuffer.grow, Grows, available, size] at hfits ⊢
    split_ifs at hfits ⊢ <;> exact hfits
  rw [← hpad] at hcapacity hback ⊢
  have hshort : (c.held ++ data.drop c.front).length - w.mBackPadding ≤ capacity := by
    have hdata := hfit.1
    rw [List.length_append, hlen]
    omega
  have hsizes : max data.length (max capacity w.mCapacity) < 2 ^ 31 :=
    max_lt (Nat.lt_of_le_of_lt hfit.1 hfit.2.1) (max_lt hfit.2.1 hint)
  rw [hwritten.read_eq hshort, if_pos ⟨hshort, hsizes⟩]
  refine ⟨_, rfl, ⟨hwritten.drop (Nat.sub_le _ _), ?_, ?_, Nat.le_trans hcapacity hle, hint⟩, rfl⟩
  · change w.mFrontPadding = c.front - data.length
    rw [hfront, ← h.front]
    omega
  · change ((c.held ++ data.drop c.front).drop _).length ≤ w.mBackPadding
    rw [List.length_drop]
    omega

/-- The state after a buffer of `b.2` bytes with `b.1` in its range. -/
def step (s : SkipCutBuffer α) (b : List α × ℕ) : Option (SkipCutBuffer α) :=
  (s.submit b.1 b.2).map Prod.snd

/-- What is left in the ranges of the buffers, one after another. -/
def submits : SkipCutBuffer α → List (List α × ℕ) → Option (List α × SkipCutBuffer α)
  | s, [] => some ([], s)
  | s, b :: bs => (s.submit b.1 b.2).bind fun r => (submits r.2 bs).map fun rs => (r.1 ++ rs.1, rs.2)

theorem represents_new {skip cut : ℕ} {mCutBuffer : ℕ → α} (hnew : new skip cut mCutBuffer = some s) :
    s.Represents ⟨skip, []⟩ ∧ s.mBackPadding = cut := by
  rw [new] at hnew
  split_ifs at hnew with hsize
  cases hnew
  exact ⟨⟨⟨holds_nil _, Nat.succ_pos _, (Nat.zero_mod _).symm, Nat.succ_pos _⟩, rfl, Nat.zero_le _,
    Nat.le_refl _, hsize.2⟩, rfl⟩

/-- A buffer of up to 4064 bytes never makes the ring grow. -/
theorem Represents.fits {c : Cut α} (h : s.Represents c) {data : List α} {capacity : ℕ}
    (hcap : data.length ≤ capacity) (hint : capacity < 2 ^ 31) (hsmall : data.length ≤ 4064) :
    s.Fits data capacity := by
  have hstays : ¬ s.Grows (data.length - s.mFrontPadding) := fun hgrow => by
    have hback := h.back
    have hcapacity := h.capacity
    obtain ⟨-, hlt⟩ := hgrow
    rw [available, h.size_eq] at hlt
    omega
  refine ⟨hcap, hint, ?_, fun hgrow => absurd hgrow hstays⟩
  rw [SkipCutBuffer.grow, if_neg hstays]
  exact h.int32

/-- One buffer, then the others. -/
theorem stream_cons (back : ℕ) (c : Cut α) (data rest : List α) :
    let bytes := (c.submit back data).2.held ++ rest.drop (c.submit back data).2.front
    let stream := c.held ++ (data ++ rest).drop c.front
    stream = (c.submit back data).1 ++ bytes ∧
      stream.length - back = (c.submit back data).1.length + (bytes.length - back) := by
  have hstream : c.held ++ (data ++ rest).drop c.front =
      (c.submit back data).1 ++
        ((c.submit back data).2.held ++ rest.drop (c.submit back data).2.front) := by
    simp only [Cut.submit]
    rw [List.drop_append, ← List.append_assoc, ← List.append_assoc, List.take_append_drop]
  refine ⟨hstream, ?_⟩
  rw [hstream]
  simp only [Cut.submit, List.length_append, List.length_take, List.length_drop]
  omega

/-- For every division of a stream into buffers that fit: what comes out is the stream, after what is
still held back, without the bytes still to be skipped and without the last `mBackPadding` bytes, which
are held back. -/
theorem Represents.submits {c : Cut α} (h : s.Represents c) {bs : List (List α × ℕ)}
    (hfit : Along step (fun s b => s.Fits b.1 b.2) s bs) :
    let stream := c.held ++ (bs.map Prod.fst).flatten.drop c.front
    ∃ s', s.submits bs = some (stream.take (stream.length - s.mBackPadding), s') ∧
      s'.Represents ⟨c.front - (bs.map Prod.fst).flatten.length,
        stream.drop (stream.length - s.mBackPadding)⟩ := by
  induction bs generalizing s c with
  | nil =>
    have hback := h.back
    refine ⟨s, ?_, ?_⟩
    · simp [SkipCutBuffer.submits, Nat.sub_eq_zero_of_le hback]
    · simpa [Nat.sub_eq_zero_of_le hback] using h
  | cons b bs ih =>
    obtain ⟨m, hm, hrep, hpad⟩ := h.submit hfit.1
    obtain ⟨s', hs', hrep'⟩ := ih hrep (hfit.2 m (by rw [step, hm]; rfl))
    obtain ⟨hstream, hlen⟩ := stream_cons s.mBackPadding c b.1 (bs.map Prod.fst).flatten
    refine ⟨s', ?_, ?_⟩
    · rw [List.map_cons, List.flatten_cons, hlen, hstream, List.take_length_add_append,
        SkipCutBuffer.submits, hm, Option.bind_some, hs', hpad]
      rfl
    · rw [List.map_cons, List.flatten_cons, hlen, hstream, List.drop_length_add_append,
        List.length_append, ← Nat.sub_sub]
      rw [hpad] at hrep'
      exact hrep'

/-- Buffers of up to 4064 bytes always fit. -/
theorem Represents.along_fits {c : Cut α} (h : s.Represents c) {bs : List (List α × ℕ)}
    (hsmall : ∀ b ∈ bs, b.1.length ≤ b.2 ∧ b.2 < 2 ^ 31 ∧ b.1.length ≤ 4064) :
    Along step (fun s b => s.Fits b.1 b.2) s bs := by
  induction bs generalizing s c with
  | nil => trivial
  | cons b bs ih =>
    obtain ⟨hb, hbs⟩ := List.forall_mem_cons.mp hsmall
    have hfit := h.fits hb.1 hb.2.1 hb.2.2
    refine ⟨hfit, fun s' hs' => ?_⟩
    obtain ⟨m, hm, hrep, -⟩ := h.submit hfit
    rw [step, hm] at hs'
    cases hs'
    exact ih hrep hbs

/-- A stream through a new `SkipCutBuffer` comes out, in whatever buffers it comes, without its first
`skip` and its last `cut` bytes. -/
theorem skipCutBuffer_cuts {skip cut : ℕ} {mCutBuffer : ℕ → α} {bs : List (List α × ℕ)}
    (hnew : new skip cut mCutBuffer = some s) (hfit : Along step (fun s b => s.Fits b.1 b.2) s bs) :
    let stream := (bs.map Prod.fst).flatten.drop skip
    ∃ s', s.submits bs = some (stream.take (stream.length - cut), s') ∧
      s'.size = min cut stream.length := by
  obtain ⟨hrep, rfl⟩ := represents_new hnew
  obtain ⟨s', hs', hrep'⟩ := hrep.submits hfit
  refine ⟨s', hs', hrep'.size_eq.trans ?_⟩
  simp only [List.nil_append, List.length_drop]
  omega

theorem skipCutBuffer_cuts_two :
    ∃ s s', new 1 2 (fun _ => 0) = some s ∧
      s.submits [([1, 2, 3], 4), ([4, 5], 2)] = some ([2, 3], s') := by
  obtain ⟨s, hnew⟩ : ∃ s, new 1 2 (fun _ => 0) = some s := ⟨_, rfl⟩
  obtain ⟨s', hs', -⟩ := @skipCutBuffer_cuts _ s 1 2 _ [([1, 2, 3], 4), ([4, 5], 2)] hnew
    ((represents_new hnew).1.along_fits (by decide))
  exact ⟨s, s', hnew, hs'⟩

end SkipCutBuffer

end AudioFlinger.Stagefright
