import AudioFlinger.Driver.ThreadWrite
import AudioFlinger.Foundation.Machine

/-!
# The return commands in a read buffer

`binder_thread_read` as steps: pending errors, the wait for work, and one work
item after another. While it waits the lock is free, and others leave any state.
The room in the buffer is looked at in two ways, neither of which is for all that
is written.
-/

namespace AudioFlinger.Driver

open Foundation Foundation.Bytes Foundation.UserAccess

variable (c : Platform)

def BR_TRANSACTION : U32 := ioc 2 114 2 c.sizeofTransactionData
def BR_REPLY : U32 := ioc 2 114 3 c.sizeofTransactionData
def BR_DEAD_REPLY : U32 := ioc 0 114 5 0
def BR_TRANSACTION_COMPLETE : U32 := ioc 0 114 6 0
def BR_INCREFS : U32 := ioc 2 114 7 (2 * c.sizeofPointer)
def BR_ACQUIRE : U32 := ioc 2 114 8 (2 * c.sizeofPointer)
def BR_RELEASE : U32 := ioc 2 114 9 (2 * c.sizeofPointer)
def BR_DECREFS : U32 := ioc 2 114 10 (2 * c.sizeofPointer)
def BR_NOOP : U32 := ioc 0 114 12 0
def BR_SPAWN_LOOPER : U32 := ioc 0 114 13 0
def BR_DEAD_BINDER : U32 := ioc 2 114 15 c.sizeofPointer
def BR_CLEAR_DEATH_NOTIFICATION_DONE : U32 := ioc 2 114 16 c.sizeofPointer

/-! ## Work -/

/-- `struct binder_node`: its references and what its process was told of them. -/
structure WorkNode where
  ptr : U64
  cookie : U64
  internal_strong_refs : ℕ
  local_strong_refs : ℕ
  local_weak_refs : ℕ
  /-- `refs` is not empty. -/
  refs : Bool
  has_strong_ref : Bool
  pending_strong_ref : Bool
  has_weak_ref : Bool
  pending_weak_ref : Bool

/-- The parts of `struct binder_transaction` that decide how it is delivered. -/
structure Delivery where
  /-- `target_node` of its buffer. -/
  target_node : Option (U64 × U64)
  one_way : Bool

/-- `struct binder_work` with what it is a part of. -/
inductive Work
  | TRANSACTION (t : Delivery)
  | TRANSACTION_COMPLETE
  | NODE (node : WorkNode)
  | DEAD_BINDER (cookie : U64)
  | DEAD_BINDER_AND_CLEAR (cookie : U64)
  | CLEAR_DEATH_NOTIFICATION (cookie : U64)

/-- What is put into the buffer. -/
inductive Datum
  | word (cmd : U32)
  | pointer (value : U64)
  | transactionData (t : Delivery)

def Datum.length : Datum → ℕ
  | word _ => 4
  | pointer _ => c.sizeofPointer
  | transactionData _ => c.sizeofTransactionData

/-- The thread and its process, as far as reading looks at them. -/
structure Reader where
  todo : List Work
  return_error : U32
  return_error2 : U32
  /-- `BINDER_LOOPER_STATE_REGISTERED` or `_ENTERED`. -/
  looping : Bool
  /-- `BINDER_LOOPER_STATE_NEED_RETURN`. -/
  need_return : Bool
  transaction_stack : List Delivery
  proc_todo : List Work
  delivered_death : List Work
  requested_threads : ℤ
  ready_threads : ℤ
  requested_threads_started : ℤ
  max_threads : ℤ

namespace WorkNode

variable (node : WorkNode)

def strong : Bool := node.internal_strong_refs ≠ 0 || node.local_strong_refs ≠ 0

def weak : Bool := node.refs || node.local_weak_refs ≠ 0 || node.strong

/-- What the process is to be told of the node, and the node after that. -/
def report : Option (U32 × WorkNode) :=
  if node.weak && !node.has_weak_ref then
    some (BR_INCREFS c, { node with
      has_weak_ref := true, pending_weak_ref := true
      local_weak_refs := node.local_weak_refs + 1 })
  else if node.strong && !node.has_strong_ref then
    some (BR_ACQUIRE c, { node with
      has_strong_ref := true, pending_strong_ref := true
      local_strong_refs := node.local_strong_refs + 1 })
  else if !node.strong && node.has_strong_ref then
    some (BR_RELEASE c, { node with has_strong_ref := false })
  else if !node.weak && node.has_weak_ref then
    some (BR_DECREFS c, { node with has_weak_ref := false })
  else none

end WorkNode

/-! ## The steps -/

/-- Where `binder_thread_read` stands. -/
inductive Phase
  | retry
  | work (wait_for_proc_work : Bool)
  | done
  | returned (status : ℤ)

structure Reading where
  reader : Reader
  ptr : ℤ
  consumed : ℤ
  writes : List (Access × Datum)
  phase : Phase

/-- What the wait returns, and what the others have left. -/
structure Wait where
  ret : ℤ
  reader : Reader

variable (user : Access → Bool)

/-- `put_user` and `copy_to_user` for one datum after another, up to the first that faults. -/
def Reading.put (r : Reading) (data : List Datum) (next : Reading → Reading) : Reading :=
  let lengths := data.map (Datum.length c)
  let v := visit user lengths r.ptr
  let r := { r with writes := r.writes ++ v.1.zip data }
  if v.2 then next { r with ptr := r.ptr + lengths.sum }
  else { r with phase := .returned (-EFAULT) }

namespace Reader

variable (s : Reader)

/-- The first work item, and whether it is the thread's own. -/
def first (wait_for_proc_work : Bool) : Option (Work × Bool) :=
  match s.todo, s.proc_todo with
  | w :: _, _ => some (w, true)
  | [], w :: _ => if wait_for_proc_work then some (w, false) else none
  | [], [] => none

/-- The first work item gives way to others. -/
def replaceFirst (own : Bool) (ws : List Work) : Reader :=
  if own then { s with todo := ws ++ s.todo.tail }
  else { s with proc_todo := ws ++ s.proc_todo.tail }

end Reader

/-- One work item. -/
def readWork (r : Reading) (own : Bool) : Work → Reading
  | .TRANSACTION_COMPLETE =>
    r.put c user [.word BR_TRANSACTION_COMPLETE] fun r =>
      { r with reader := r.reader.replaceFirst own [] }
  | .NODE node =>
    match node.report c with
    | some (cmd, node) =>
      let r := { r with reader := r.reader.replaceFirst own [.NODE node] }
      r.put c user [.word cmd, .pointer node.ptr, .pointer node.cookie] id
    | none => { r with reader := r.reader.replaceFirst own [] }
  | .CLEAR_DEATH_NOTIFICATION cookie =>
    r.put c user [.word (BR_CLEAR_DEATH_NOTIFICATION_DONE c), .pointer cookie] fun r =>
      { r with reader := r.reader.replaceFirst own [] }
  | .DEAD_BINDER cookie => deadBinder (.DEAD_BINDER cookie) cookie
  | .DEAD_BINDER_AND_CLEAR cookie => deadBinder (.DEAD_BINDER_AND_CLEAR cookie) cookie
  | .TRANSACTION t =>
    let cmd := if t.target_node.isSome then BR_TRANSACTION c else BR_REPLY c
    r.put c user [.word cmd, .transactionData t] fun r =>
      let s := r.reader.replaceFirst own []
      let s := if t.target_node.isSome ∧ !t.one_way then
        { s with transaction_stack := t :: s.transaction_stack } else s
      { r with reader := s, phase := .done }
where
  deadBinder (w : Work) (cookie : U64) : Reading :=
    r.put c user [.word (BR_DEAD_BINDER c), .pointer cookie] fun r =>
      let s := r.reader.replaceFirst own []
      { r with reader := { s with delivered_death := w :: s.delivered_death }, phase := .done }

variable (size : ℤ)

/-- Errors that are pending, or the wait. -/
def readRetry (wait : Wait) (r : Reading) : Reading :=
  let s := r.reader
  let wait_for_proc_work := s.transaction_stack.isEmpty && s.todo.isEmpty
  if s.return_error ≠ BR_OK ∧ r.ptr < size then
    let last (r : Reading) := r.put c user [.word s.return_error] fun r =>
      { r with reader := { r.reader with return_error := BR_OK }, phase := .done }
    if s.return_error2 ≠ BR_OK then
      r.put c user [.word s.return_error2] fun r =>
        if r.ptr = size then { r with phase := .done }
        else last { r with reader := { r.reader with return_error2 := BR_OK } }
    else last r
  else
    let s := wait.reader
    let s := if wait_for_proc_work then { s with ready_threads := s.ready_threads - 1 } else s
    { r with
      reader := s
      phase := if wait.ret ≠ 0 then .returned wait.ret else .work wait_for_proc_work }

/-- The next work item. The room for it is compared as an unsigned number. -/
def readNext (wait_for_proc_work : Bool) (r : Reading) : Reading :=
  match r.reader.first wait_for_proc_work with
  | none => { r with phase := if r.ptr = 4 ∧ !r.reader.need_return then .retry else .done }
  | some (w, own) =>
    if (size - r.ptr) % 2 ^ c.wordBits < c.sizeofTransactionData + 4 then { r with phase := .done }
    else readWork c user r own w

/-- What is left when the reading is done: a new thread is asked for at the start of the buffer. -/
def readDone (r : Reading) : Reading :=
  let r := { r with consumed := r.ptr, phase := .returned 0 }
  let s := r.reader
  if s.requested_threads + s.ready_threads = 0 ∧ s.requested_threads_started < s.max_threads ∧
      s.looping then
    let start : Access := ⟨0, 4⟩
    { r with
      reader := { s with requested_threads := s.requested_threads + 1 }
      writes := r.writes ++ [(start, .word BR_SPAWN_LOOPER)]
      phase := .returned (if user start then 0 else -EFAULT) }
  else r

def binder_thread_read (r : Reading) (wait : Wait) : Option Reading :=
  match r.phase with
  | .retry => some (readRetry c user size wait r)
  | .work wait_for_proc_work => some (readNext c user size wait_for_proc_work r)
  | .done => some (readDone user r)
  | .returned _ => none

/-- The call, up to the first place where it can come back to. -/
def readStart (s : Reader) (consumed : ℤ) : Reading :=
  let r : Reading := ⟨s, consumed, consumed, [], .retry⟩
  if consumed = 0 then r.put c user [.word BR_NOOP] id else r

/-! ## What is written -/

/-- All that was written is in the buffer, and no more of it is consumed than there is. -/
structure Reading.Bounded (r : Reading) : Prop where
  within : ∀ w ∈ r.writes, w.1.Within size
  consumed_le : r.consumed ≤ size

/-- The buffer has room for the first command; behind it, or behind what is consumed, there is no
room, or room for one command, or for two. -/
def ReadFits (consumed : ℤ) : Prop :=
  0 ≤ consumed ∧ consumed ≤ size ∧ 4 ≤ size ∧
    let left := size - if consumed = 0 then 4 else consumed
    left = 0 ∨ left = 4 ∨ 8 ≤ left

/-- Where the place can be in a phase, for a call that begins at `start` behind its first command:
a retry finds nothing added. -/
def PlaceFits (start : ℤ) (r : Reading) : Prop :=
  match r.phase with
  | .retry => r.ptr = start
  | .work _ => r.ptr = start ∨ start + 4 ≤ r.ptr ∧ r.ptr ≤ size
  | .done => r.ptr ≤ size
  | .returned _ => True

variable {c user size} {r : Reading} {data : List Datum} {next : Reading → Reading}
variable {start consumed : ℤ} {own b : Bool}

/-- Data for which there is room are written, all of them or up to a fault. -/
theorem put_cases (user : Access → Bool) (next : Reading → Reading) (hp : 0 ≤ r.ptr)
    (hroom : r.ptr + (data.map (Datum.length c)).sum ≤ size) :
    ∃ ws : List (Access × Datum), (∀ w ∈ ws, w.1.Within size) ∧
      (r.put c user data next = next { r with
          writes := r.writes ++ ws, ptr := r.ptr + (data.map (Datum.length c)).sum } ∨
        r.put c user data next = { r with
          writes := r.writes ++ ws, phase := .returned (-EFAULT) }) := by
  have hwithin := visit_within user hp hroom
  refine ⟨(visit user (data.map (Datum.length c)) r.ptr).1.zip data, ?_, ?_⟩
  · intro w hw
    exact hwithin w.1 (List.of_mem_zip hw).1
  · rw [Reading.put]
    split
    · exact .inl rfl
    · exact .inr rfl

/-- A reading that stays in the buffer does so when data are put for which there is room. -/
theorem put_bounded (h : r.Bounded size) (hp : 0 ≤ r.ptr)
    (hroom : r.ptr + (data.map (Datum.length c)).sum ≤ size)
    (hnext : ∀ r' : Reading, r'.Bounded size → r'.phase = r.phase →
      r'.ptr = r.ptr + (data.map (Datum.length c)).sum →
      (next r').Bounded size ∧ PlaceFits size start (next r')) :
    (r.put c user data next).Bounded size ∧ PlaceFits size start (r.put c user data next) := by
  obtain ⟨ws, hws, hput⟩ := put_cases user next hp hroom
  have hall := List.forall_mem_append.mpr ⟨h.within, hws⟩
  rcases hput with hput | hput <;> rw [hput]
  · exact hnext _ ⟨hall, h.consumed_le⟩ rfl rfl
  · exact ⟨⟨hall, h.consumed_le⟩, trivial⟩

theorem readRetry_bounded {wait : Wait} (h : r.Bounded size) (hstart : 1 ≤ start)
    (hleft : size - start = 0 ∨ size - start = 4 ∨ 8 ≤ size - start)
    (hplace : r.ptr = start) :
    (readRetry c user size wait r).Bounded size ∧
      PlaceFits size start (readRetry c user size wait r) := by
  rw [readRetry]
  split
  · rename_i hpending
    have hone (r' : Reading) (h : r'.Bounded size) (hp : 0 ≤ r'.ptr) (hroom : r'.ptr + 4 ≤ size) :
        let r'' := r'.put c user [.word r.reader.return_error] fun r =>
          { r with reader := { r.reader with return_error := BR_OK }, phase := .done }
        r''.Bounded size ∧ PlaceFits size start r'' := by
      refine put_bounded h hp hroom fun r'' h _ hptr => ⟨⟨h.within, h.consumed_le⟩, ?_⟩
      exact hptr.trans_le hroom
    split
    · refine put_bounded h (by omega) (show r.ptr + 4 ≤ size by omega) fun r' h _ hptr => ?_
      have hptr : r'.ptr = r.ptr + 4 := hptr
      split
      · exact ⟨⟨h.within, h.consumed_le⟩, by simp only [PlaceFits]; omega⟩
      · exact hone _ ⟨h.within, h.consumed_le⟩ (by simp only; omega) (by simp only; omega)
    · exact hone r h (by omega) (by omega)
  · refine ⟨⟨h.within, h.consumed_le⟩, ?_⟩
    by_cases hret : wait.ret ≠ 0
    · simp [PlaceFits, hret]
    · simp [PlaceFits, hret, hplace]

/-- What a work item puts and leaves, where there is room for the largest of them. -/
theorem item_bounded (h : r.Bounded size) (hphase : r.phase = .work b) (hp : 0 ≤ start)
    (hstart : start ≤ r.ptr) (hroom : r.ptr + (c.sizeofTransactionData + 4 : ℕ) ≤ size)
    (hlong : 4 ≤ (data.map (Datum.length c)).sum)
    (hshort : (data.map (Datum.length c)).sum ≤ c.sizeofTransactionData + 4)
    (hnext : ∀ r', (next r').writes = r'.writes ∧ (next r').consumed = r'.consumed ∧
      (next r').ptr = r'.ptr ∧ ((next r').phase = r'.phase ∨ (next r').phase = .done)) :
    (r.put c user data next).Bounded size ∧ PlaceFits size start (r.put c user data next) := by
  refine put_bounded h (hp.trans hstart) (by omega) fun r' h' hphase' hptr' => ?_
  obtain ⟨hwrites, hconsumed, hptr, hend⟩ := hnext r'
  refine ⟨⟨hwrites ▸ h'.within, hconsumed ▸ h'.consumed_le⟩, ?_⟩
  rw [PlaceFits, hptr]
  rcases hend with hend | hend
  · rw [hend, hphase', hphase]
    exact .inr ⟨by omega, by omega⟩
  · rw [hend]
    simp only
    omega

theorem readWork_bounded {w : Work} (h : r.Bounded size) (hphase : r.phase = .work b)
    (hp : 0 ≤ start) (hplace : PlaceFits size start r)
    (hroom : r.ptr + (c.sizeofTransactionData + 4 : ℕ) ≤ size) :
    (readWork c user r own w).Bounded size ∧ PlaceFits size start (readWork c user r own w) := by
  have hsize : c.sizeofTransactionData = 6 * c.sizeofPointer + 16 := rfl
  have hstart : start ≤ r.ptr := by
    rw [PlaceFits, hphase] at hplace
    rcases hplace with hplace | hplace <;> omega
  cases w with
  | TRANSACTION t =>
    rw [readWork]
    refine item_bounded h hphase hp hstart hroom ?_ ?_ fun _ => ⟨rfl, rfl, rfl, .inr rfl⟩ <;>
      simp [Datum.length]
    omega
  | TRANSACTION_COMPLETE =>
    rw [readWork]
    refine item_bounded h hphase hp hstart hroom ?_ ?_ fun _ => ⟨rfl, rfl, rfl, .inl rfl⟩ <;>
      simp [Datum.length]
  | NODE node =>
    rw [readWork]
    split
    · refine item_bounded ⟨h.within, h.consumed_le⟩ hphase hp hstart hroom ?_ ?_
        fun _ => ⟨rfl, rfl, rfl, .inl rfl⟩ <;>
        simp [Datum.length]
      omega
    · exact ⟨⟨h.within, h.consumed_le⟩, hplace⟩
  | DEAD_BINDER cookie | DEAD_BINDER_AND_CLEAR cookie =>
    rw [readWork, readWork.deadBinder]
    refine item_bounded h hphase hp hstart hroom ?_ ?_ fun _ => ⟨rfl, rfl, rfl, .inr rfl⟩ <;>
      simp [Datum.length]
    omega
  | CLEAR_DEATH_NOTIFICATION cookie =>
    rw [readWork]
    refine item_bounded h hphase hp hstart hroom ?_ ?_ fun _ => ⟨rfl, rfl, rfl, .inl rfl⟩ <;>
      simp [Datum.length]
    omega

theorem readNext_bounded (h : r.Bounded size) (hphase : r.phase = .work b) (hsize : size < 2 ^ 31)
    (hstart : 1 ≤ start) (hle : start ≤ size) (hplace : PlaceFits size start r) :
    (readNext c user size b r).Bounded size ∧ PlaceFits size start (readNext c user size b r) := by
  have hptr : r.ptr = start ∨ start + 4 ≤ r.ptr ∧ r.ptr ≤ size := by
    rwa [PlaceFits, hphase] at hplace
  rw [readNext]
  split
  · refine ⟨⟨h.within, h.consumed_le⟩, ?_⟩
    -- a place of 4 is that of a call that has added nothing
    split
    · simp only [PlaceFits]
      omega
    · simp only [PlaceFits]
      omega
  · split
    · exact ⟨⟨h.within, h.consumed_le⟩, by simp only [PlaceFits]; omega⟩
    · rename_i hroom
      have hwide : (2 : ℤ) ^ 31 ≤ 2 ^ c.wordBits :=
        pow_le_pow_right₀ (by omega) (by rw [Platform.wordBits]; split <;> omega)
      rw [Int.emod_eq_of_lt (by omega) (by omega)] at hroom
      exact readWork_bounded h hphase (by omega) hplace (by push_cast; omega)

theorem readDone_bounded (h : r.Bounded size) (hphase : r.phase = .done) (hsize : 4 ≤ size)
    (hplace : PlaceFits size start r) :
    (readDone user r).Bounded size ∧ PlaceFits size start (readDone user r) := by
  rw [PlaceFits, hphase] at hplace
  rw [readDone]
  split
  · refine ⟨⟨List.forall_mem_append.mpr ⟨h.within, ?_⟩, hplace⟩, trivial⟩
    rw [List.forall_mem_singleton]
    exact ⟨le_rfl, hsize⟩
  · exact ⟨⟨h.within, hplace⟩, trivial⟩

/-- What a step preserves, a run preserves. -/
theorem read_bounded {waits : List Wait} {r' : Reading} (hsize : size < 2 ^ 31)
    (hfits : ReadFits size consumed) {s : Reader}
    (hrun : Machine.run (binder_thread_read c user size) (readStart c user s consumed) waits =
      some r') : r'.Bounded size := by
  obtain ⟨hp, hle, hfour, hleft⟩ := hfits
  let start := if consumed = 0 then 4 else consumed
  have hstart : 1 ≤ start ∧ start ≤ size := by
    simp only [start]
    split <;> omega
  have hbegin : (readStart c user s consumed).Bounded size ∧
      PlaceFits size start (readStart c user s consumed) := by
    have hnone : Reading.Bounded size ⟨s, consumed, consumed, [], .retry⟩ := ⟨by simp, hle⟩
    rw [readStart]
    split
    · rename_i hzero
      subst hzero
      refine put_bounded hnone le_rfl hfour fun r h hphase hptr => ⟨h, ?_⟩
      simp only [PlaceFits, id, hphase]
      exact hptr
    · rename_i hnonzero
      exact ⟨hnone, (if_neg hnonzero).symm⟩
  refine (Machine.run_invariant
    (I := fun r => r.Bounded size ∧ PlaceFits size start r) ?_ hrun hbegin).1
  rintro r wait r' hstep ⟨h, hplace⟩
  rw [binder_thread_read] at hstep
  split at hstep
  · rename_i hphase
    cases hstep
    rw [PlaceFits, hphase] at hplace
    exact readRetry_bounded h hstart.1 hleft hplace
  · rename_i hphase
    cases hstep
    exact readNext_bounded h hphase hsize hstart.1 hstart.2 hplace
  · rename_i hphase
    cases hstep
    exact readDone_bounded h hphase hfour hplace
  · cases hstep

/-! ## Buffers that are too small -/

theorem put_one (r : Reading) (d : Datum) (next : Reading → Reading) :
    r.put c (fun _ => true) [d] next = next { r with
      writes := r.writes ++ [(⟨r.ptr, d.length c⟩, d)], ptr := r.ptr + d.length c } := by
  simp [Reading.put, visit]

/-- A thread of a process, with these errors pending and told to return. -/
def pending (return_error return_error2 : U32) : Reader :=
  { todo := [], return_error, return_error2, looping := true, need_return := true
    transaction_stack := [], proc_todo := [], delivered_death := [], requested_threads := 0
    ready_threads := 1, requested_threads_started := 0, max_threads := 15 }

theorem readStart_at (s : Reader) (consumed : ℤ) :
    ∃ ws, readStart c (fun _ => true) s consumed =
      ⟨s, if consumed = 0 then 4 else consumed, consumed, ws, .retry⟩ ∧
      (consumed = 0 → (⟨0, 4⟩, .word BR_NOOP) ∈ ws) := by
  rw [readStart]
  split
  · rename_i hzero
    subst hzero
    exact ⟨[(⟨0, 4⟩, .word BR_NOOP)], put_one _ _ _, fun _ => List.mem_singleton_self _⟩
  · rename_i hnonzero
    exact ⟨[], rfl, fun hzero => absurd hzero hnonzero⟩

/-- A thread that has nothing to read and is told to return asks for a new thread. -/
theorem spawn_run (size : ℤ) (hconsumed : consumed ≠ 0) :
    ∃ r', Machine.run (binder_thread_read c (fun _ => true) size)
      (readStart c (fun _ => true) (pending BR_OK BR_OK) consumed)
      (List.replicate 3 ⟨0, pending BR_OK BR_OK⟩) = some r' ∧
      (⟨0, 4⟩, .word BR_SPAWN_LOOPER) ∈ r'.writes := by
  have hwait : binder_thread_read c (fun _ => true) size
      ⟨pending BR_OK BR_OK, consumed, consumed, [], .retry⟩ ⟨0, pending BR_OK BR_OK⟩ =
      some ⟨{ pending BR_OK BR_OK with ready_threads := 0 }, consumed, consumed, [],
        .work true⟩ := by
    simp [binder_thread_read, readRetry, pending]
  have hwork : binder_thread_read c (fun _ => true) size
      ⟨{ pending BR_OK BR_OK with ready_threads := 0 }, consumed, consumed, [], .work true⟩
      ⟨0, pending BR_OK BR_OK⟩ =
      some ⟨{ pending BR_OK BR_OK with ready_threads := 0 }, consumed, consumed, [], .done⟩ := by
    simp [binder_thread_read, readNext, Reader.first, pending]
  rw [readStart, if_neg hconsumed, List.replicate_succ, Machine.run_cons, hwait, Option.bind_some,
    List.replicate_succ, Machine.run_cons, hwork, Option.bind_some, List.replicate_one,
    Machine.run_cons, binder_thread_read, readDone]
  exact ⟨_, rfl, List.mem_singleton_self _⟩

/-- Two pending errors are put one behind the other, where the first does not end the buffer. -/
theorem errors_run (consumed : ℤ) (ws : List (Access × Datum)) (wait : Wait) (hlt : start < size) :
    ∃ r', Machine.run (binder_thread_read c (fun _ => true) size)
        ⟨pending BR_DEAD_REPLY BR_TRANSACTION_COMPLETE, start, consumed, ws, .retry⟩ [wait] =
        some r' ∧
      (⟨start, 4⟩, .word BR_TRANSACTION_COMPLETE) ∈ r'.writes ∧
      (start + 4 ≠ size → (⟨start + 4, 4⟩, .word BR_DEAD_REPLY) ∈ r'.writes) := by
  have hpending : (pending BR_DEAD_REPLY BR_TRANSACTION_COMPLETE).return_error ≠ BR_OK ∧
    (pending BR_DEAD_REPLY BR_TRANSACTION_COMPLETE).return_error2 ≠ BR_OK := by decide
  rw [Machine.run_cons, binder_thread_read, readRetry, if_pos ⟨hpending.1, hlt⟩,
    if_pos hpending.2, put_one]
  refine ⟨_, rfl, ?_, fun hend => ?_⟩
  · split
    · exact List.mem_append_right _ (List.mem_singleton_self _)
    · beta_reduce
      rw [put_one]
      exact List.mem_append_left _ (List.mem_append_right _ (List.mem_singleton_self _))
  · split
    · exact absurd ‹_› hend
    · beta_reduce
      rw [put_one]
      exact List.mem_append_right _ (List.mem_singleton_self _)

/-- The reading stays in the buffer, whatever the thread, its process, the user's memory and the
others do, iff the buffer has one of the right sizes. -/
theorem read_bounded_iff (hsize : size < 2 ^ 31) :
    (∀ user s waits r, Machine.run (binder_thread_read c user size) (readStart c user s consumed)
      waits = some r → r.Bounded size) ↔ ReadFits size consumed := by
  refine ⟨fun h => ?_, fun h user s waits r hrun => read_bounded hsize h hrun⟩
  obtain ⟨ws, hbegin, hnoop⟩ := readStart_at (c := c) (pending BR_OK BR_OK) consumed
  have hfirst := h _ _ [] _ (congrArg some hbegin)
  have hfour : 4 ≤ size := by
    by_cases hzero : consumed = 0
    · exact (hfirst.within _ (hnoop hzero)).2
    · obtain ⟨r', hrun, hspawn⟩ := spawn_run (c := c) size hzero
      exact ((h _ _ _ r' hrun).within _ hspawn).2
  have hle : consumed ≤ size := hfirst.consumed_le
  have herrors (hlt : (if consumed = 0 then 4 else consumed) < size) :
      0 ≤ (if consumed = 0 then 4 else consumed) ∧
        (size - (if consumed = 0 then 4 else consumed) = 4 ∨
          8 ≤ size - if consumed = 0 then 4 else consumed) := by
    obtain ⟨ws', hbegin', -⟩ :=
      readStart_at (c := c) (pending BR_DEAD_REPLY BR_TRANSACTION_COMPLETE) consumed
    obtain ⟨r', hrun, hone, htwo⟩ := errors_run (c := c) consumed ws' ⟨0, pending BR_OK BR_OK⟩ hlt
    rw [← hbegin'] at hrun
    have hwithin := (h _ _ _ r' hrun).within
    obtain ⟨hp, hone⟩ := hwithin _ hone
    refine ⟨hp, ?_⟩
    by_cases hend : (if consumed = 0 then 4 else consumed) + 4 = size
    · exact .inl (by omega)
    · exact .inr (by have := (hwithin _ (htwo hend)).2; simp only at this; omega)
  refine ⟨?_, hle, hfour, ?_⟩
  · by_contra hneg
    have hp := (herrors (by split <;> omega)).1
    rw [if_neg (by omega)] at hp
    exact hneg hp
  · simp only
    by_cases hlt : (if consumed = 0 then 4 else consumed) < size
    · exact .inr (herrors hlt).2
    · left
      split at hlt <;> split <;> omega

/-- Both buffers of a call, for every platform, size, place to begin at and contents. -/
theorem commandBuffers_bounded_iff (c : Platform) (size : BitVec 32) (consumed : ℤ) :
    (∀ (σ : Type) (K : Handler σ) (mem : UserMemory) (s : σ),
      (binder_thread_write c mem K size.toInt s consumed).Bounded c mem size.toInt consumed ↔
        consumed ≤ size.toInt ∧ AllFit c mem K size.toInt s consumed) ∧
    ((∀ user s waits r, Machine.run (binder_thread_read c user size.toInt)
        (readStart c user s consumed) waits = some r → r.Bounded size.toInt) ↔
      ReadFits size.toInt consumed) :=
  ⟨fun _ _ _ _ => write_bounded_iff, read_bounded_iff (BitVec.toInt_lt (x := size))⟩

/-- A write buffer that ends behind the number of `BC_FREE_BUFFER`. -/
theorem freeBuffer_cutOff :
    let c : Platform := ⟨false, 12, le_rfl⟩
    let mem : UserMemory := fun k => some (((bytes (BC.FREE_BUFFER.code c))[k.toNat]?).getD 0)
    let K : Handler Unit := ⟨fun _ => BR_OK, fun _ _ s => s⟩
    ¬(binder_thread_write c mem K 4 () 0).Bounded c mem 4 0 := by
  intro c mem K h
  have hnext : nextCommand c mem 0 = ([⟨0, 4⟩, ⟨4, 4⟩], .ok (.FREE_BUFFER, 4)) := by
    have hcommand : commandOf c (mem.word 0) = some (.FREE_BUFFER, [4]) := by decide +kernel
    have hfields : visit mem.readable [4] (0 + 4) = ([⟨4, 4⟩], true) := by decide +kernel
    rw [nextCommand, if_pos (by decide +kernel), hcommand]
    simp only [hfields]
    rfl
  rw [binder_thread_write, if_pos ⟨by decide, rfl⟩, hnext] at h
  have hout := h.within ⟨4, 4⟩ (by simp [Written.after])
  exact absurd hout (by decide)

end AudioFlinger.Driver
