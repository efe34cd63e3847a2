import AudioFlinger.Driver.Pages
import AudioFlinger.Foundation.SearchTree

/-!
# The buffers of a process

The area of a process is divided into buffers, each behind a header in the area itself. A
free buffer is split when it is allocated and merged with free neighbours when it is freed;
pages that no header and no allocated buffer needs are given back. A failed `BUG_ON` is
`none`.
-/

namespace AudioFlinger.Driver
open Foundation Foundation.SearchTree

/-- The header of a buffer: the fields that the allocator reads. -/
structure Buffer where
  free : Bool
  async_transaction : Bool
  data_size : ℕ
  offsets_size : ℕ

/-- The part of `struct binder_proc` that belongs to the allocator. A buffer is named by the
address of its header; `header` is what the area holds there. -/
structure Buffers (c : Platform) where
  area : Area c
  vma : Bool
  pages : ℕ → Bool
  buffers : List ℕ
  header : ℕ → Buffer
  free_buffers : BinaryTree ℕ
  allocated_buffers : BinaryTree ℕ
  free_async_space : ℕ

section Lists

/-- `list_add(&new->entry, &buffer->entry)` -/
def listAdd (new buffer : ℕ) : List ℕ → List ℕ
  | [] => []
  | b :: bs => if b = buffer then b :: new :: bs else b :: listAdd new buffer bs

/-- `buffer->entry.next`, unless it is the head of the list. -/
def entryNext (buffer : ℕ) (bs : List ℕ) : Option ℕ := (bs.dropWhile (· ≠ buffer)).tail.head?

/-- `buffer->entry.prev`, unless it is the head of the list. -/
def entryPrev (buffer : ℕ) (bs : List ℕ) : Option ℕ := (bs.takeWhile (· ≠ buffer)).getLast?

end Lists

variable {c : Platform}

/-- `buffer->data` -/
def Platform.data (c : Platform) (buffer : ℕ) : ℕ := buffer + c.sizeofBuffer

/-- A `size_t`. -/
def Platform.word (c : Platform) (n : ℕ) : ℕ := n % 2 ^ c.wordBits

/-- `ALIGN(n, sizeof(void *))` -/
def Platform.align (c : Platform) (n : ℕ) : ℕ :=
  c.word (n + c.sizeofPointer - 1) / c.sizeofPointer * c.sizeofPointer

/-- `ALIGN(data_size, sizeof(void *)) + ALIGN(offsets_size, sizeof(void *))` -/
def Platform.alignedSize (c : Platform) (data_size offsets_size : ℕ) : ℕ :=
  c.word (c.align data_size + c.align offsets_size)

namespace Buffers

def binder_buffer_size (p : Buffers c) (buffer : ℕ) : ℕ :=
  match entryNext buffer p.buffers with
  | none => p.area.stop - c.data buffer
  | some next => next - c.data buffer

def setHeader (p : Buffers c) (buffer : ℕ) (f : Buffer → Buffer) : Buffers c :=
  { p with header := Function.update p.header buffer (f (p.header buffer)) }

variable (rb : Rebalancing ℕ)

/-- Where `binder_insert_free_buffer` turns at a buffer. -/
def freeTurn (p : Buffers c) (new_buffer_size buffer : ℕ) : Option Turn :=
  if (p.header buffer).free then
    if new_buffer_size < p.binder_buffer_size buffer then some .left else some .right
  else none

def binder_insert_free_buffer (p : Buffers c) (new_buffer : ℕ) : Option (Buffers c) :=
  if (p.header new_buffer).free then
    (link (p.freeTurn (p.binder_buffer_size new_buffer)) new_buffer p.free_buffers).map fun t =>
      { p with free_buffers := rb.insertColor new_buffer t }
  else none

/-- Where `binder_insert_allocated_buffer` turns at a buffer. -/
def allocatedTurn (p : Buffers c) (new_buffer buffer : ℕ) : Option Turn :=
  if (p.header buffer).free then none
  else if new_buffer < buffer then some .left
  else if buffer < new_buffer then some .right
  else none

def binder_insert_allocated_buffer (p : Buffers c) (new_buffer : ℕ) : Option (Buffers c) :=
  if (p.header new_buffer).free then none
  else
    (link (p.allocatedTurn new_buffer) new_buffer p.allocated_buffers).map fun t =>
      { p with allocated_buffers := rb.insertColor new_buffer t }

def update_page_range (p : Buffers c) (kernel : Kernel) (allocate : Bool) (start stop : ℕ) :
    Option (Bool × Buffers c) :=
  (binder_update_page_range p.area p.vma kernel p.pages allocate start stop).map fun r =>
    (r.1, { p with pages := r.2 })

/-- The search of `binder_alloc_buf`: the best fit, and whether it fits exactly. -/
def bestFit (p : Buffers c) (size : ℕ) : BinaryTree ℕ → Option ℕ → Option (Option ℕ × Bool)
  | .nil, best_fit => some (best_fit, false)
  | .node buffer l r, best_fit =>
    if (p.header buffer).free then
      if size < p.binder_buffer_size buffer then bestFit p size l (some buffer)
      else if p.binder_buffer_size buffer < size then bestFit p size r best_fit
      else some (some buffer, true)
    else none

/-- What is to be allocated of a buffer: all of it, or also room for the header of the rest. -/
def allocSize (c : Platform) (size buffer_size : ℕ) (exact : Bool) : ℕ :=
  if exact then buffer_size
  else if buffer_size ≤ size + c.sizeofBuffer + 4 then size
  else size + c.sizeofBuffer

/-- Link a free buffer with what `buffer` does not need. -/
def splitBuffer (p : Buffers c) (buffer size : ℕ) : Option (Buffers c) :=
  let new_buffer := c.data buffer + size
  let p := { p with buffers := listAdd new_buffer buffer p.buffers }
  (p.setHeader new_buffer fun b => { b with free := true }).binder_insert_free_buffer rb new_buffer

/-- Fill in the header, and charge an asynchronous transaction for the buffer. -/
def recordSizes (p : Buffers c) (buffer size data_size offsets_size : ℕ) (is_async : Bool) :
    Buffers c :=
  { p.setHeader buffer fun b =>
      { b with data_size := data_size, offsets_size := offsets_size, async_transaction := is_async }
    with
    free_async_space :=
      if is_async then p.free_async_space - (size + c.sizeofBuffer) else p.free_async_space }

/-- The end of `binder_alloc_buf`, when the pages are there. -/
def takeBuffer (p : Buffers c) (buffer size buffer_size data_size offsets_size : ℕ)
    (is_async : Bool) : Option (Buffers c) := do
  let p := { p with free_buffers := rb.erase buffer p.free_buffers }
  let p ← (p.setHeader buffer fun b => { b with free := false }).binder_insert_allocated_buffer
    rb buffer
  let p ← if buffer_size ≠ size then p.splitBuffer rb buffer size else some p
  some (p.recordSizes buffer size data_size offsets_size is_async)

/-- The pages that a buffer needs when `buffer_size` bytes of it are allocated. -/
def allocStop (c : Platform) (buffer full_size buffer_size : ℕ) : ℕ :=
  let has_page_addr := c.pageMask (c.data buffer + full_size)
  let end_page_addr := c.pageAlign (c.data buffer + buffer_size)
  if has_page_addr < end_page_addr then has_page_addr else end_page_addr

def binder_alloc_buf (p : Buffers c) (kernel : Kernel) (data_size offsets_size : ℕ)
    (is_async : Bool) : Option (Option ℕ × Buffers c) :=
  let size := c.alignedSize data_size offsets_size
  if p.vma = false then some (none, p)
  else if size < data_size ∨ size < offsets_size then some (none, p)
  else if is_async ∧ p.free_async_space < c.word (size + c.sizeofBuffer) then some (none, p)
  else do
    let (best_fit, exact) ← p.bestFit size p.free_buffers none
    match best_fit with
    | none => some (none, p)
    | some buffer =>
      let full_size := p.binder_buffer_size buffer
      let buffer_size := allocSize c size full_size exact
      let (ok, p) ← p.update_page_range kernel true (c.pageAlign (c.data buffer))
        (allocStop c buffer full_size buffer_size)
      if ok then
        (p.takeBuffer rb buffer size buffer_size data_size offsets_size is_async).map
          (some buffer, ·)
      else some (none, p)

def buffer_start_page (c : Platform) (buffer : ℕ) : ℕ := c.pageMask buffer

def buffer_end_page (c : Platform) (buffer : ℕ) : ℕ := c.pageMask (c.data buffer - 1)

/-- Which ends of the header's pages are to be freed: start, and end. -/
def freePages (c : Platform) (prev buffer : ℕ) (next : Option ℕ) : Bool × Bool :=
  let free_page_start := buffer_end_page c prev ≠ buffer_start_page c buffer
  let free_page_end := free_page_start ∨ buffer_end_page c prev ≠ buffer_end_page c buffer
  match next with
  | none => (free_page_start, free_page_end)
  | some next =>
    if buffer_start_page c next = buffer_end_page c buffer then
      (if buffer_start_page c next = buffer_start_page c buffer then false else free_page_start,
        false)
    else (free_page_start, free_page_end)

def binder_delete_free_buffer (p : Buffers c) (kernel : Kernel) (buffer : ℕ) :
    Option (Buffers c) :=
  match entryPrev buffer p.buffers with
  | none => none
  | some prev =>
    if (p.header prev).free then
      let (free_page_start, free_page_end) :=
        freePages c prev buffer (entryNext buffer p.buffers)
      let p := { p with buffers := p.buffers.erase buffer }
      if free_page_start || free_page_end then
        (p.update_page_range kernel false
          (if free_page_start then buffer_start_page c buffer else buffer_end_page c buffer)
          ((if free_page_end then buffer_end_page c buffer else buffer_start_page c buffer) +
            c.PAGE_SIZE)).map Prod.snd
      else some p
    else none

/-- Merge a free buffer behind `buffer` into it. -/
def mergeNext (p : Buffers c) (kernel : Kernel) (buffer : ℕ) : Option (Buffers c) :=
  match entryNext buffer p.buffers with
  | none => some p
  | some next =>
    if (p.header next).free then
      { p with free_buffers := rb.erase next p.free_buffers }.binder_delete_free_buffer kernel next
    else some p

/-- Merge `buffer` into a free buffer before it. -/
def mergePrev (p : Buffers c) (kernel : Kernel) (buffer : ℕ) : Option (ℕ × Buffers c) :=
  match entryPrev buffer p.buffers with
  | none => some (buffer, p)
  | some prev =>
    if (p.header prev).free then
      (p.binder_delete_free_buffer kernel buffer).map fun p =>
        (prev, { p with free_buffers := rb.erase prev p.free_buffers })
    else some (buffer, p)

def binder_free_buf (p : Buffers c) (kernel : Kernel) (buffer : ℕ) : Option (Buffers c) :=
  let buffer_size := p.binder_buffer_size buffer
  let size := c.alignedSize (p.header buffer).data_size (p.header buffer).offsets_size
  if (p.header buffer).free ∨ buffer_size < size ∨ buffer < p.area.buffer ∨
      p.area.stop < buffer then none
  else do
    let p := if (p.header buffer).async_transaction then
      { p with free_async_space := c.word (p.free_async_space + (size + c.sizeofBuffer)) } else p
    let (_, p) ← p.update_page_range kernel false (c.pageAlign (c.data buffer))
      (c.pageMask (c.data buffer + buffer_size))
    let p := { p with allocated_buffers := rb.erase buffer p.allocated_buffers }
    let p ← (p.setHeader buffer fun b => { b with free := true }).mergeNext rb kernel buffer
    let (buffer, p) ← p.mergePrev rb kernel buffer
    p.binder_insert_free_buffer rb buffer

/-- The state behind `binder_mmap`, unless a page or the area cannot be had. -/
def binder_mmap (area : Area c) : Option (Buffers c) := do
  let kernel : Kernel := { mm := true, fails := fun _ => none }
  let (_, pages) ← binder_update_page_range area true kernel (fun _ => false) true area.buffer
    (area.buffer + c.PAGE_SIZE)
  let p : Buffers c :=
    { area := area
      vma := true
      pages := pages
      buffers := [area.buffer]
      header := fun _ => ⟨true, false, 0, 0⟩
      free_buffers := .nil
      allocated_buffers := .nil
      free_async_space := area.buffer_size / 2 }
  p.binder_insert_free_buffer rb area.buffer

end Buffers

end AudioFlinger.Driver
