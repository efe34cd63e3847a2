import AudioFlinger.Foundation.Deferred
import AudioFlinger.Foundation.Machine
import Mathlib.Logic.Function.Basic

/-!
# Proxies of remote binders

`ProcessState::mHandleToObject` in `libs/binder/ProcessState.cpp` with the life of a `BpBinder` and the reference
counts that it keeps in the driver. The operations of `RefBase` are atomic; `INITIAL_STRONG_VALUE` is a strong
count of 0, which `forceIncStrong` and `attemptIncStrong` treat alike. An address is used again after the object
at it was freed. The driver refuses `BC_ATTEMPT_ACQUIRE` with an error, after which `talkWithDriver` keeps the
whole `mOut`: what stands before the command is processed again whenever the thread calls the driver, and what is
written behind it never.
-/

namespace AudioFlinger.Binder.ProxyTable

open Foundation Deferred

inductive Kind
  | weak
  | strong
  deriving DecidableEq

/-- A reference that a proxy takes in the driver, from `BC_INCREFS` to `BC_DECREFS` or from `BC_ACQUIRE` to
`BC_RELEASE`. -/
structure Reference where
  kind : Kind
  handle : ℕ
  stamp : ℕ
  deriving DecidableEq

/-- The destructor removes the proxy from the table, then it gives up the weak reference. -/
inductive Life
  | alive
  | expunging (thread : ℕ)
  | releasing (thread : ℕ)
  deriving DecidableEq

/-- A `BpBinder`; `strong` and `weak` are the references its users hold. -/
structure Proxy where
  mHandle : ℕ
  mStrong : ℕ
  mWeak : ℕ
  life : Life
  strong : ℕ
  weak : ℕ
  weakStamp : ℕ
  strongStamp : ℕ
  deriving DecidableEq

/-- A call of `getStrongProxyForHandle` or `getWeakProxyForHandle` that has found a proxy; `taken` after the
reference of its result. -/
structure Lookup where
  thread : ℕ
  binder : ℕ
  kind : Kind
  taken : Bool
  deriving DecidableEq

/-- `mHandleToObject` has the addresses in `binder`, `proxies` the objects that are not freed; `mLock` is held by a
lookup; `out` are the `mOut` of all threads with what the driver has processed; `kept` is what stands before a
`BC_ATTEMPT_ACQUIRE` in the `mOut` of a thread; `faulted` is an access to a freed object. -/
structure World where
  mHandleToObject : ℕ → Option ℕ
  mLock : Option Lookup
  proxies : ℕ → Option Proxy
  out : Books ℕ Reference
  kept : ℕ → Option (List (Change Reference))
  stamps : ℕ
  faulted : Bool

inductive Event
  | getProxy (thread : ℕ) (kind : Kind) (handle binder : ℕ)
  | take
  | leave
  | incStrong (binder : ℕ)
  | incWeak (binder : ℕ)
  | attemptIncStrong (thread binder : ℕ)
  | decStrong (thread binder : ℕ)
  | decWeak (thread binder : ℕ)
  | expungeHandle (binder : ℕ)
  | decWeakHandle (binder : ℕ)
  | process (thread : ℕ)

namespace Proxy

def weakReference (p : Proxy) : Reference := ⟨.weak, p.mHandle, p.weakStamp⟩

def strongReference (p : Proxy) : Reference := ⟨.strong, p.mHandle, p.strongStamp⟩

/-- `result = b` in a lookup, and a copy of a reference. -/
def inc (p : Proxy) : Kind → Proxy
  | .weak => { p with mWeak := p.mWeak + 1 }
  | .strong => { p with mWeak := p.mWeak + 1, mStrong := p.mStrong + 1 }

/-- A user has a new reference. -/
def own (p : Proxy) : Kind → Proxy
  | .weak => { p with weak := p.weak + 1 }
  | .strong => { p with strong := p.strong + 1 }

variable (p : Proxy) (kind : Kind)

@[simp] theorem inc_life : (p.inc kind).life = p.life := by cases kind <;> rfl
@[simp] theorem inc_mHandle : (p.inc kind).mHandle = p.mHandle := by cases kind <;> rfl
@[simp] theorem inc_strong : (p.inc kind).strong = p.strong := by cases kind <;> rfl
@[simp] theorem inc_weak : (p.inc kind).weak = p.weak := by cases kind <;> rfl
@[simp] theorem inc_mWeak : (p.inc kind).mWeak = p.mWeak + 1 := by cases kind <;> rfl
@[simp] theorem inc_mStrong : (p.inc kind).mStrong = p.mStrong + if kind = .strong then 1 else 0 := by
  cases kind <;> rfl

@[simp] theorem own_life : (p.own kind).life = p.life := by cases kind <;> rfl
@[simp] theorem own_mHandle : (p.own kind).mHandle = p.mHandle := by cases kind <;> rfl
@[simp] theorem own_mStrong : (p.own kind).mStrong = p.mStrong := by cases kind <;> rfl
@[simp] theorem own_mWeak : (p.own kind).mWeak = p.mWeak := by cases kind <;> rfl
@[simp] theorem own_strong : (p.own kind).strong = p.strong + if kind = .strong then 1 else 0 := by cases kind <;> rfl
theorem own_refs : (p.own kind).strong + (p.own kind).weak = p.strong + p.weak + 1 := by
  cases kind <;> simp [own] <;> omega

/-- The last weak reference deletes the object. -/
def decWeak (p : Proxy) (thread : ℕ) : Proxy :=
  { p with mWeak := p.mWeak - 1, life := if p.mWeak = 1 then .expunging thread else p.life }

end Proxy

namespace World

def new : World := ⟨fun _ => none, none, fun _ => none, ⟨[], []⟩, fun _ => none, 0, false⟩

def update (s : World) (binder : ℕ) (p : Option Proxy) : World :=
  { s with proxies := Function.update s.proxies binder p }

@[simp] theorem update_mLock (s : World) (binder : ℕ) (p : Option Proxy) : (s.update binder p).mLock = s.mLock := rfl

/-- `new BpBinder(handle)` at a free address, with the reference of the result. -/
def create (s : World) (thread : ℕ) (kind : Kind) (handle binder : ℕ) : Option World :=
  if s.proxies binder = none then
    let p : Proxy := ⟨handle, 0, 0, .alive, 0, 0, s.stamps, s.stamps + 1⟩
    let out := s.out.write thread (.inc p.weakReference)
    some { s with
      mHandleToObject := Function.update s.mHandleToObject handle (some binder)
      proxies := Function.update s.proxies binder (some ((p.inc kind).own kind))
      out := if kind = .strong then out.write thread (.inc p.strongReference) else out
      stamps := s.stamps + 2 }
  else none

/-- An access to the object at `binder`. -/
def access (s : World) (binder : ℕ) (f : Proxy → Option World) : Option World :=
  match s.proxies binder with
  | some p => f p
  | none => some { s with faulted := true }

def getProxy (s : World) (thread : ℕ) (kind : Kind) (handle binder : ℕ) : Option World :=
  if s.mLock.isSome then none
  else
    match s.mHandleToObject handle with
    | none => s.create thread kind handle binder
    | some b => s.access b fun p =>
      -- attemptIncWeak
      if p.mWeak = 0 then s.create thread kind handle binder
      else some { s.update b (some { p with mWeak := p.mWeak + 1 }) with mLock := some ⟨thread, b, kind, false⟩ }

/-- `force_set(b)`, or the assignment to a `wp`. -/
def take (s : World) (l : Lookup) : Option World :=
  s.access l.binder fun p =>
    let s := { s with mLock := some { l with taken := true } }
    if l.kind = .strong ∧ p.mStrong = 0 then
      -- onFirstRef
      let p := { p with strongStamp := s.stamps }
      some { s.update l.binder (some (p.inc l.kind)) with
        out := s.out.write l.thread (.inc p.strongReference), stamps := s.stamps + 1 }
    else some (s.update l.binder (some (p.inc l.kind)))

/-- `decWeak(this)` and the return. -/
def leave (s : World) (l : Lookup) : Option World :=
  s.access l.binder fun p =>
    some ({ s with mLock := none }.update l.binder (some ((p.own l.kind).decWeak l.thread)))

/-- What a thread has in its `mOut`. -/
def waiting (s : World) (thread : ℕ) : List (Change Reference) :=
  (s.out.pending.filter (·.1 = thread)).map Prod.snd

/-- `onIncStrongAttempted` -/
def attempted (s : World) (thread : ℕ) : World :=
  if (s.kept thread).isSome then s
  else { s with
    out := { s.out with pending := s.out.pending.filter (·.1 ≠ thread) }
    kept := Function.update s.kept thread (some (s.waiting thread)) }

def decStrong (s : World) (thread binder : ℕ) (p : Proxy) : World :=
  let s := if p.mStrong = 1 then { s with out := s.out.write thread (.dec p.strongReference) } else s
  s.update binder (some ({ p with mStrong := p.mStrong - 1, strong := p.strong - 1 }.decWeak thread))

def expungeHandle (s : World) (binder thread : ℕ) (p : Proxy) : World :=
  { s.update binder (some { p with life := .releasing thread }) with
    mHandleToObject := if s.mHandleToObject p.mHandle = some binder
      then Function.update s.mHandleToObject p.mHandle none else s.mHandleToObject }

/-- The end of the destructor. -/
def decWeakHandle (s : World) (binder thread : ℕ) (p : Proxy) : World :=
  { s.update binder none with out := s.out.write thread (.dec p.weakReference) }

def step (s : World) : Event → Option World
  | .getProxy thread kind handle binder => s.getProxy thread kind handle binder
  | .take => s.mLock.bind fun l => if l.taken then none else s.take l
  | .leave => s.mLock.bind fun l => if l.taken then s.leave l else none
  | .incStrong binder => (s.proxies binder).bind fun p =>
    if 0 < p.strong then some (s.update binder (some ((p.inc .strong).own .strong))) else none
  | .incWeak binder => (s.proxies binder).bind fun p =>
    if 0 < p.strong + p.weak then some (s.update binder (some ((p.inc .weak).own .weak))) else none
  | .attemptIncStrong thread binder => (s.proxies binder).bind fun p =>
    if p.strong + p.weak = 0 then none
    else if 0 < p.mStrong then some (s.update binder (some ((p.inc .strong).own .strong)))
    else some (s.attempted thread)
  | .decStrong thread binder => (s.proxies binder).bind fun p =>
    if 0 < p.strong then some (s.decStrong thread binder p) else none
  | .decWeak thread binder => (s.proxies binder).bind fun p =>
    if 0 < p.weak then some (s.update binder (some ({ p with weak := p.weak - 1 }.decWeak thread))) else none
  | .expungeHandle binder => (s.proxies binder).bind fun p =>
    match p.life, s.mLock with
    | .expunging thread, none => some (s.expungeHandle binder thread p)
    | _, _ => none
  | .decWeakHandle binder => (s.proxies binder).bind fun p =>
    match p.life with
    | .releasing thread => some (s.decWeakHandle binder thread p)
    | _ => none
  | .process thread =>
    match s.kept thread with
    | none => (s.out.process thread).map fun out => { s with out }
    | some cs => some { s with out := { s.out with done := s.out.done ++ cs } }

end World

end AudioFlinger.Binder.ProxyTable
