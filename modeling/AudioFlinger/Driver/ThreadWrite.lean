import AudioFlinger.Driver.Pages
import AudioFlinger.Foundation.Bytes
import AudioFlinger.Foundation.UserAccess

/-!
# The commands of a write buffer

`binder_thread_write`: the loop over the commands of a user's buffer, each with
its own fields. The end of the buffer is looked at only between two commands.
What a command does to the process, to the thread and behind them is any change
of a state.
-/

namespace AudioFlinger.Driver

open Foundation Foundation.Bytes Foundation.UserAccess

def EFAULT : ℤ := 14
def EINVAL : ℤ := 22

variable (c : Platform)

/-- `sizeof(struct binder_transaction_data)`: six words of pointers and sizes and four of 32 bits. -/
def Platform.sizeofTransactionData : ℕ := 6 * c.sizeofPointer + 16

/-- `_IO`, `_IOW` and `_IOR` by their direction bits. -/
def ioc (dir type nr size : ℕ) : U32 :=
  BitVec.ofNat 32 (dir * 2 ^ 30 + size * 2 ^ 16 + type * 2 ^ 8 + nr)

def BR_OK : U32 := ioc 0 114 1 0

/-! ## Commands -/

/-- `BinderDriverCommandProtocol`. -/
inductive BC
  | TRANSACTION | REPLY | ACQUIRE_RESULT | FREE_BUFFER
  | INCREFS | ACQUIRE | RELEASE | DECREFS | INCREFS_DONE | ACQUIRE_DONE
  | ATTEMPT_ACQUIRE | REGISTER_LOOPER | ENTER_LOOPER | EXIT_LOOPER
  | REQUEST_DEATH_NOTIFICATION | CLEAR_DEATH_NOTIFICATION | DEAD_BINDER_DONE
  deriving DecidableEq

namespace BC

def all : List BC :=
  [TRANSACTION, REPLY, ACQUIRE_RESULT, FREE_BUFFER, INCREFS, ACQUIRE, RELEASE, DECREFS,
    INCREFS_DONE, ACQUIRE_DONE, ATTEMPT_ACQUIRE, REGISTER_LOOPER, ENTER_LOOPER, EXIT_LOOPER,
    REQUEST_DEATH_NOTIFICATION, CLEAR_DEATH_NOTIFICATION, DEAD_BINDER_DONE]

/-- The number of a command. The size in it is not always that of the fields. -/
def code : BC → U32
  | TRANSACTION => ioc 1 99 0 c.sizeofTransactionData
  | REPLY => ioc 1 99 1 c.sizeofTransactionData
  | ACQUIRE_RESULT => ioc 1 99 2 4
  | FREE_BUFFER => ioc 1 99 3 4
  | INCREFS => ioc 1 99 4 4
  | ACQUIRE => ioc 1 99 5 4
  | RELEASE => ioc 1 99 6 4
  | DECREFS => ioc 1 99 7 4
  | INCREFS_DONE => ioc 1 99 8 (2 * c.sizeofPointer)
  | ACQUIRE_DONE => ioc 1 99 9 (2 * c.sizeofPointer)
  | ATTEMPT_ACQUIRE => ioc 1 99 10 8
  | REGISTER_LOOPER => ioc 0 99 11 0
  | ENTER_LOOPER => ioc 0 99 12 0
  | EXIT_LOOPER => ioc 0 99 13 0
  | REQUEST_DEATH_NOTIFICATION => ioc 1 99 14 (2 * c.sizeofPointer)
  | CLEAR_DEATH_NOTIFICATION => ioc 1 99 15 (2 * c.sizeofPointer)
  | DEAD_BINDER_DONE => ioc 1 99 16 c.sizeofPointer

/-- The lengths of the fields that the driver asks for, one after another; two commands are not
supported. -/
def fields : BC → Option (List ℕ)
  | ACQUIRE_RESULT | ATTEMPT_ACQUIRE => none
  | INCREFS | ACQUIRE | RELEASE | DECREFS => some [4]
  | INCREFS_DONE | ACQUIRE_DONE => some [c.sizeofPointer, c.sizeofPointer]
  | FREE_BUFFER | DEAD_BINDER_DONE => some [c.sizeofPointer]
  | TRANSACTION | REPLY => some [c.sizeofTransactionData]
  | REGISTER_LOOPER | ENTER_LOOPER | EXIT_LOOPER => some []
  | REQUEST_DEATH_NOTIFICATION | CLEAR_DEATH_NOTIFICATION => some [4, c.sizeofPointer]

end BC

/-- The command of a number, with its fields. -/
def commandOf (cmd : U32) : Option (BC × List ℕ) :=
  (BC.all.find? fun command => command.code c = cmd).bind fun command =>
    (command.fields c).map fun ns => (command, ns)

/-! ## The loop -/

/-- The user's memory, by the place from the buffer on. -/
abbrev UserMemory := ℤ → Option Byte

namespace UserMemory

variable (mem : UserMemory)

def readable (a : Access) : Bool :=
  (List.range a.length).all fun i => (mem (a.place + i)).isSome

def read (a : Access) : List Byte :=
  (List.range a.length).map fun i => (mem (a.place + i)).getD 0

/-- The number at a place. -/
def word (p : ℤ) : U32 := BitVec.ofNat 32 (leValue (mem.read ⟨p, 4⟩))

end UserMemory

/-- What the commands change: `thread->return_error` is a part of it, and each command with the
contents of its fields is a change. -/
structure Handler (σ : Type*) where
  return_error : σ → U32
  handle : BC → List (List Byte) → σ → σ

/-- What `binder_thread_write` leaves: the fields that it has asked for and the commands that it
has processed are recorded. -/
structure Written (σ : Type*) where
  status : ℤ
  consumed : ℤ
  accesses : List Access
  processed : List BC
  state : σ

variable {σ : Type*}

/-- What was asked for and processed before. -/
def Written.after (accesses : List Access) (command : BC) (r : Written σ) : Written σ :=
  { r with accesses := accesses ++ r.accesses, processed := command :: r.processed }

variable (mem : UserMemory)

/-- The command at a place: what is asked for, and the command with the length of its fields, or
an error. -/
def nextCommand (p : ℤ) : List Access × Except ℤ (BC × ℕ) :=
  let code : Access := ⟨p, 4⟩
  if mem.readable code then
    match commandOf c (mem.word p) with
    | none => ([code], .error (-EINVAL))
    | some (command, ns) =>
      let fields := visit mem.readable ns (p + 4)
      (code :: fields.1, if fields.2 then .ok (command, ns.sum) else .error (-EFAULT))
  else ([code], .error (-EFAULT))

variable (K : Handler σ) (size : ℤ)

/-- The loop with the place of the next command, which is what `consumed` holds. -/
def binder_thread_write (s : σ) (p : ℤ) : Written σ :=
  if p < size ∧ K.return_error s = BR_OK then
    match nextCommand c mem p with
    | (accesses, .error status) => ⟨status, p, accesses, [], s⟩
    | (accesses, .ok (command, length)) =>
      (binder_thread_write (K.handle command (accesses.map mem.read) s) (p + 4 + length)).after
        accesses command
  else ⟨0, p, [], [], s⟩
termination_by (size - p).toNat
decreasing_by omega

/-- The commands lie in the buffer one after another. -/
def Commands : ℤ → List BC → ℤ → Prop
  | p, [], q => q = p
  | p, command :: commands, q => ∃ length, (nextCommand c mem p).2 = .ok (command, length) ∧
    Commands (p + 4 + length) commands q

/-- Nothing outside of the buffer was asked for, and what is consumed is a number of whole commands
that were processed. -/
structure Written.Bounded (p : ℤ) (r : Written σ) : Prop where
  within : ∀ a ∈ r.accesses, a.Within size
  whole : Commands c mem p r.processed r.consumed
  consumed_le : r.consumed ≤ size

/-- The command at a place ends within the buffer: its number, and where the driver has the command
its fields up to the first that cannot be read. -/
structure CommandFits (p : ℤ) : Prop where
  place_nonneg : 0 ≤ p
  code_le : p + 4 ≤ size
  fields : ∀ command ns, mem.readable ⟨p, 4⟩ → commandOf c (mem.word p) = some (command, ns) →
    FieldsFit mem.readable size ns (p + 4)

/-- Every command that the loop comes to ends within the buffer. -/
inductive AllFit : σ → ℤ → Prop
  | stop (s : σ) (p : ℤ) (h : ¬(p < size ∧ K.return_error s = BR_OK)) : AllFit s p
  | command (s : σ) (p : ℤ) (h : CommandFits c mem size p)
      (hnext : ∀ command length, (nextCommand c mem p).2 = .ok (command, length) →
        AllFit (K.handle command ((nextCommand c mem p).1.map mem.read) s) (p + 4 + length)) :
      AllFit s p

variable {c mem K size} {s : σ} {p : ℤ}

theorem nextCommand_within_iff (c : Platform) (mem : UserMemory) (size p : ℤ) :
    (∀ a ∈ (nextCommand c mem p).1, a.Within size) ↔ CommandFits c mem size p := by
  have hcode : (⟨p, 4⟩ : Access).Within size ↔ 0 ≤ p ∧ p + 4 ≤ size := Iff.rfl
  rw [nextCommand]
  by_cases hread : mem.readable ⟨p, 4⟩ = true
  · rw [if_pos hread]
    cases hcommand : commandOf c (mem.word p) with
    | none =>
      simp only [List.forall_mem_singleton, hcode]
      exact ⟨fun h => ⟨h.1, h.2, by simp [hcommand]⟩, fun h => ⟨h.place_nonneg, h.code_le⟩⟩
    | some found =>
      obtain ⟨command, ns⟩ := found
      simp only [List.forall_mem_cons, hcode]
      constructor
      · rintro ⟨⟨hp, hend⟩, hfields⟩
        refine ⟨hp, hend, fun command' ns' _ h => ?_⟩
        rw [hcommand] at h
        cases h
        exact (visit_within_iff (by omega)).mp hfields
      · intro h
        have hp := h.place_nonneg
        exact ⟨⟨hp, h.code_le⟩, (visit_within_iff (by omega)).mpr (h.fields _ _ hread hcommand)⟩
  · rw [if_neg hread]
    simp only [List.forall_mem_singleton, hcode]
    exact ⟨fun h => ⟨h.1, h.2, fun _ _ hyes => absurd hyes hread⟩,
      fun h => ⟨h.place_nonneg, h.code_le⟩⟩

/-- A command that was read as a whole. -/
theorem exists_fields {command : BC} {length : ℕ}
    (hnext : (nextCommand c mem p).2 = .ok (command, length)) :
    ∃ ns, mem.readable ⟨p, 4⟩ ∧ commandOf c (mem.word p) = some (command, ns) ∧
      (visit mem.readable ns (p + 4)).2 ∧ length = ns.sum := by
  rw [nextCommand] at hnext
  by_cases hread : mem.readable ⟨p, 4⟩ = true
  · rw [if_pos hread] at hnext
    cases hcommand : commandOf c (mem.word p) with
    | none => simp [hcommand] at hnext
    | some found =>
      obtain ⟨command', ns⟩ := found
      simp only [hcommand] at hnext
      by_cases hfields : (visit mem.readable ns (p + 4)).2 = true
      · rw [if_pos hfields] at hnext
        cases hnext
        exact ⟨ns, hread, rfl, hfields, rfl⟩
      · rw [if_neg hfields] at hnext
        cases hnext
  · simp [hread] at hnext

theorem CommandFits.next_le {command : BC} {length : ℕ} (h : CommandFits c mem size p)
    (hnext : (nextCommand c mem p).2 = .ok (command, length)) : p + 4 + length ≤ size := by
  obtain ⟨ns, hread, hcommand, hfields, rfl⟩ := exists_fields hnext
  exact (h.fields command ns hread hcommand).end_le hfields h.code_le

theorem bounded_after_iff {accesses : List Access} {command : BC} {length : ℕ} {r : Written σ}
    (hnext : nextCommand c mem p = (accesses, .ok (command, length))) :
    (r.after accesses command).Bounded c mem size p ↔
      CommandFits c mem size p ∧ r.Bounded c mem size (p + 4 + length) := by
  have hfits := nextCommand_within_iff c mem size p
  rw [hnext] at hfits
  constructor
  · intro h
    obtain ⟨hfirst, hrest⟩ := List.forall_mem_append.mp h.within
    obtain ⟨length', hlength, hwhole⟩ := h.whole
    rw [hnext] at hlength
    cases hlength
    exact ⟨hfits.mp hfirst, hrest, hwhole, h.consumed_le⟩
  · rintro ⟨hcommand, h⟩
    exact ⟨List.forall_mem_append.mpr ⟨hfits.mpr hcommand, h.within⟩,
      ⟨length, congrArg Prod.snd hnext, h.whole⟩, h.consumed_le⟩

theorem fits_iff (hloop : p < size ∧ K.return_error s = BR_OK) :
    AllFit c mem K size s p ↔ CommandFits c mem size p ∧
      ∀ command length, (nextCommand c mem p).2 = .ok (command, length) →
        AllFit c mem K size (K.handle command ((nextCommand c mem p).1.map mem.read) s)
          (p + 4 + length) := by
  constructor
  · intro h
    cases h with
    | stop _ _ hstop => exact absurd hloop hstop
    | command _ _ h hnext => exact ⟨h, hnext⟩
  · rintro ⟨h, hnext⟩
    exact .command s p h hnext

theorem binder_thread_write_bounded_iff (hp : p ≤ size) :
    (binder_thread_write c mem K size s p).Bounded c mem size p ↔ AllFit c mem K size s p := by
  fun_induction binder_thread_write c mem K size s p with
  | case1 s p hloop accesses status hnext =>
    have hfits := nextCommand_within_iff c mem size p
    rw [fits_iff hloop, ← hfits, hnext]
    exact ⟨fun h => ⟨h.within, by simp⟩, fun h => ⟨h.1, rfl, hp⟩⟩
  | case2 s p hloop accesses command length hnext ih =>
    rw [bounded_after_iff hnext, fits_iff hloop, hnext]
    refine and_congr_right fun h => ?_
    have hle := h.next_le (congrArg Prod.snd hnext)
    rw [ih hle]
    constructor
    · rintro hrest command' length' heq
      cases heq
      exact hrest
    · intro hrest
      exact hrest command length rfl
  | case3 s p hloop => exact ⟨fun _ => .stop s p hloop, fun _ => ⟨by simp, rfl, hp⟩⟩

/-- What the driver asks for is in the buffer, and it consumes whole commands, iff it begins before
the end and every command that it comes to ends there. -/
theorem write_bounded_iff :
    (binder_thread_write c mem K size s p).Bounded c mem size p ↔
      p ≤ size ∧ AllFit c mem K size s p := by
  by_cases hp : p ≤ size
  · rw [binder_thread_write_bounded_iff hp, and_iff_right hp]
  · refine iff_of_false (fun h => hp ?_) (fun h => hp h.1)
    have hdone : binder_thread_write c mem K size s p = ⟨0, p, [], [], s⟩ := by
      rw [binder_thread_write, if_neg fun h => hp h.1.le]
    rw [hdone] at h
    exact h.consumed_le

end AudioFlinger.Driver
