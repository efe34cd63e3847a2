import Mathlib.Algebra.Order.Ring.Int
import Mathlib.Logic.Function.Basic
import AudioFlinger.Foundation.KeyedList
import AudioFlinger.Foundation.Machine

/-!
# The cache of mapped heaps

`BpMemoryHeap` and `HeapCache` in `libs/binder/IMemory.cpp`, for the proxies of one binder. A proxy
that a client holds gets its mapping from the heap in the cache, which is the one that
calls `mmap`. What happens between two unlocked mutexes is one step; a call that is under way
holds a strong reference to the cached heap. `fastPointer`, which nothing calls, is left out.
-/

namespace AudioFlinger.HeapCache

open Foundation

/-- A proxy that a client holds. `mHeapId` is -1 until it has the mapping of a cached heap. -/
structure BpMemoryHeap where
  self : ℕ
  mapping : Option ℕ
deriving DecidableEq

/-- A heap that is or was in the cache: whether `mHeapId` is set and how often `munmap` was called. -/
structure RealHeap where
  alive : Bool
  mapped : Bool
  unmaps : ℕ
deriving DecidableEq

structure HeapInfo where
  heap : ℕ
  count : ℤ
deriving DecidableEq

/-- Where a call of `assertMapped` is, after `find_heap`. -/
inductive Phase
  | found
  | really
  | filling
  | freeing
deriving DecidableEq

structure Call where
  object : ℕ
  heap : ℕ
  phase : Phase
deriving DecidableEq

/-- Cached heaps are numbered as they were made, and so are the proxies. -/
structure World where
  mHeapCache : Option HeapInfo
  heaps : ℕ → RealHeap
  made : ℕ
  objects : List BpMemoryHeap
  created : ℕ
  calls : List Call

inductive Event
  | create
  | assertMapped (object : ℕ)
  | assertReallyMapped (c : Call) (mmaps : Bool)
  | look (c : Call)
  | fill (c : Call) (dups : Bool)
  | free (c : Call)
  | destroy (object : ℕ)

namespace World

def new : World where
  mHeapCache := none
  heaps _ := ⟨false, false, 0⟩
  made := 0
  objects := []
  created := 0
  calls := []

def find (w : World) (object : ℕ) : Option BpMemoryHeap := KeyedList.lookup BpMemoryHeap.self w.objects object

/-- The cache or a call holds a reference to the heap. -/
def referenced (w : World) (h : ℕ) : Bool := w.mHeapCache.any (fun i => i.heap = h) || w.calls.any fun c => c.heap = h

/-- `~BpMemoryHeap` of each cached heap that lost its last reference. -/
def sweep (w : World) : World :=
  { w with
    heaps := fun h =>
      let r := w.heaps h
      if r.alive && !w.referenced h then
        { r with
          alive := false
          unmaps := if r.mapped then r.unmaps + 1 else r.unmaps }
      else r }

/-- `find_heap`: the heap and the cache. -/
def find_heap (w : World) : ℕ × World :=
  match w.mHeapCache with
  | some i => (i.heap, { w with mHeapCache := some { i with count := i.count + 1 } })
  | none =>
    (w.made,
      { w with
        mHeapCache := some ⟨w.made, 1⟩
        heaps := Function.update w.heaps w.made ⟨true, false, 0⟩
        made := w.made + 1 })

def free_heap (w : World) : World :=
  match w.mHeapCache with
  | some i =>
    if i.count = 1 then { w with mHeapCache := none }
    else { w with mHeapCache := some { i with count := i.count - 1 } }
  | none => w

def setPhase (w : World) (c : Call) (phase : Phase) : World :=
  { w with calls := { c with phase := phase } :: w.calls.erase c }

/-- The first part of `assertMapped`. -/
def begin (object : ℕ) (w : World) : World :=
  let (h, w) := w.find_heap
  { w with calls := ⟨object, h, .found⟩ :: w.calls }

/-- `assertReallyMapped` of the cached heap. -/
def mapHeap (c : Call) (mmaps : Bool) (w : World) : World :=
  let r := w.heaps c.heap
  { w.setPhase c .really with heaps := Function.update w.heaps c.heap { r with mapped := r.mapped || mmaps } }

def setMapping (object h : ℕ) (w : World) : World :=
  { w with objects := KeyedList.update BpMemoryHeap.self object (fun b => { b with mapping := some h }) w.objects }

/-- The proxy takes over the mapping if it has none yet; then the call returns. -/
def fillIn (c : Call) (unset dups : Bool) (w : World) : World :=
  let w := { w with calls := w.calls.erase c }
  (if unset && dups then w.setMapping c.object c.heap else w).sweep

def freeIn (c : Call) (w : World) : World := ({ w with calls := w.calls.erase c }.free_heap).sweep

/-- `~BpMemoryHeap` of a proxy. -/
def drop (b : BpMemoryHeap) (w : World) : World :=
  let w := { w with objects := w.objects.eraseP fun x => x.self = b.self }
  if b.mapping.isSome then w.free_heap.sweep else w

def unset (w : World) (object : ℕ) : Bool := (w.find object).any fun b => b.mapping.isNone

def step (w : World) : Event → Option World
  | .create => some { w with
      objects := ⟨w.created, none⟩ :: w.objects
      created := w.created + 1 }
  | .assertMapped object =>
    match w.find object with
    | none => none
    | some b => if b.mapping.isNone then some (w.begin object) else some w
  | .assertReallyMapped c mmaps => if c ∈ w.calls ∧ c.phase = .found then some (w.mapHeap c mmaps) else none
  | .look c =>
    if c ∈ w.calls ∧ c.phase = .really then
      some (w.setPhase c (if (w.heaps c.heap).mapped then .filling else .freeing))
    else none
  | .fill c dups => if c ∈ w.calls ∧ c.phase = .filling then some (w.fillIn c (w.unset c.object) dups) else none
  | .free c => if c ∈ w.calls ∧ c.phase = .freeing then some (w.freeIn c) else none
  | .destroy object =>
    match w.find object with
    | none => none
    | some b => if w.calls.any fun c => c.object = object then none else some (w.drop b)

/-- Proxies that have the mapping of the heap, and calls under way that hold it. -/
def users (w : World) (h : ℕ) : ℕ :=
  w.objects.countP (fun b => b.mapping = some h) + w.calls.countP fun c => c.heap = h

/-- A proxy takes over the mapping when it has none yet, and the descriptor is duplicated. -/
def Sound (w : World) : Event → Prop
  | .fill c dups => w.unset c.object = true ∧ dups = true
  | _ => True

instance (w : World) (e : Event) : Decidable (w.Sound e) := by
  cases e <;> unfold Sound <;> infer_instance

end World

end AudioFlinger.HeapCache
