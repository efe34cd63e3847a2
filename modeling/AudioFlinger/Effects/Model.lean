import AudioFlinger.Foundation.KeyedVector
import AudioFlinger.Foundation.Machine
import Mathlib.Algebra.Order.Ring.Int

/-!
# Effects, their handles and their chains

`libs/audioflinger/Effects.cpp`: the handles of an effect, the first of which
controls it, and the suspensions of a chain, counted for each effect type. A weak
pointer to an effect is its address; it can be promoted as long as the effect is
in the chain. The answers of the audio policy to enabling an effect are a
parameter.
-/

namespace AudioFlinger.Effects

open Foundation

/-! ## Descriptors -/

structure Uuid where
  timeLow : ℕ
  rest : ℕ
deriving DecidableEq

structure Descriptor where
  type : Uuid
  uuid : Uuid
  flags : BitVec 32
deriving DecidableEq

def effectFlagTypeMask : BitVec 32 := 7#32
def effectFlagTypeInsert : BitVec 32 := 0#32
def effectFlagTypeAuxiliary : BitVec 32 := 1#32
def effectFlagTypePreProc : BitVec 32 := 3#32
def effectFlagInsertMask : BitVec 32 := 0x38#32
def effectFlagInsertFirst : BitVec 32 := 0x08#32
def effectFlagInsertLast : BitVec 32 := 0x10#32
def effectFlagInsertExclusive : BitVec 32 := 0x18#32

def audioSessionOutputStage : ℤ := -1
def audioSessionOutputMix : ℤ := 0

def Descriptor.typeFlag (d : Descriptor) : BitVec 32 := d.flags &&& effectFlagTypeMask

def Descriptor.insertPref (d : Descriptor) : BitVec 32 := d.flags &&& effectFlagInsertMask

/-- `SL_IID_VISUALIZATION`; the fields after `timeLow` as one number. -/
def slIidVisualization : Uuid := ⟨0xe46b26a0, 0xdddd11db8afd0002a5d5c51b⟩

/-- `SL_IID_VOLUME`. -/
def slIidVolume : Uuid := ⟨0x09e8ede0, 0xddde11dbb4f60002a5d5c51b⟩

/-! ## Handles -/

structure Handle where
  self : ℕ
  mPriority : ℤ
  mHasControl : Bool
  mEnabled : Bool
  mDestroyed : Bool
deriving DecidableEq

/-- A handle that is not in control. -/
def Handle.new (self : ℕ) (priority : ℤ) : Handle := ⟨self, priority, false, false, false⟩

def Handle.setControl (hasControl enabled : Bool) (h : Handle) : Handle :=
  { h with mHasControl := hasControl, mEnabled := enabled }

/-! ## Modules -/

inductive ModuleState
  | idle
  | restart
  | starting
  | active
  | stopping
  | stopped
  | destroyed
deriving DecidableEq

/-- An effect module at its address `self`. -/
structure Module where
  self : ℕ
  mId : ℤ
  mSessionId : ℤ
  mDescriptor : Descriptor
  mState : ModuleState
  mSuspended : Bool
  mPinned : Bool
  mHandles : List Handle
deriving DecidableEq

namespace Module

/-- The constructor. -/
def new (self : ℕ) (id sessionId : ℤ) (desc : Descriptor) : Module :=
  { self := self
    mId := id
    mSessionId := sessionId
    mDescriptor := desc
    mState := .idle
    mSuspended := false
    mPinned := sessionId > audioSessionOutputMix
    mHandles := [] }

/-- The key of the effect's type in the lists of suspensions. -/
def key (e : Module) : ℕ := e.mDescriptor.type.timeLow

def isEnabled (e : Module) : Bool :=
  match e.mState with
  | .restart | .starting | .active => true
  | .idle | .stopping | .stopped | .destroyed => false

/-- The switch of `setEnabled_l`. -/
def toggled : ModuleState → ModuleState
  | .idle => .starting
  | .stopped => .restart
  | .stopping => .active
  | .restart => .stopped
  | .starting => .idle
  | .active => .stopping
  | .destroyed => .destroyed

/-- `setEnabled_l`, with the answer of `AudioSystem::setEffectEnabled`, and whether its status is
`NO_ERROR`. -/
def setEnabled (policy enabled : Bool) (e : Module) : Module × Bool :=
  if enabled ≠ e.isEnabled then
    if enabled && !policy then (e, false)
    else ({ e with mState := toggled e.mState }, true)
  else (e, true)

def setSuspended (suspended : Bool) (e : Module) : Module := { e with mSuspended := suspended }

/-- `controlHandle_l`: the first handle that is not destroyed. -/
def controlHandle (e : Module) : Option Handle := e.mHandles.find? fun h => !h.mDestroyed

/-- The loop of `addHandle`, from index `i` on: where it stops, and the first handle that is not
destroyed, if the loop meets one. -/
def addHandleLoop (priority : ℤ) : List Handle → ℕ → Option Handle → ℕ × Option Handle
  | [], i, control => (i, control)
  | h :: hs, i, control =>
    if h.mDestroyed then addHandleLoop priority hs (i + 1) control
    else
      let control := control.or (some h)
      if h.mPriority ≤ priority then (i, control) else addHandleLoop priority hs (i + 1) control

/-- Write the handle at its address. -/
def updateHandle (self : ℕ) (f : Handle → Handle) (e : Module) : Module :=
  { e with mHandles := e.mHandles.map fun h => if h.self = self then f h else h }

/-- `addHandle`; the new handle takes over control if it is the first. -/
def addHandle (e : Module) (h : Handle) : Module :=
  let (i, control) := addHandleLoop h.mPriority e.mHandles 0 none
  if i = 0 then
    let enabled := (control.map Handle.mEnabled).getD false
    let e := control.elim e fun c => e.updateHandle c.self (Handle.setControl false enabled)
    { e with mHandles := e.mHandles.insertIdx i (h.setControl true enabled) }
  else { e with mHandles := e.mHandles.insertIdx i h }

/-- The first handle that is not destroyed gets control. -/
def handControl (enabled : Bool) (e : Module) : Module :=
  e.controlHandle.elim e fun c => e.updateHandle c.self (Handle.setControl true enabled)

/-- Without handles an effect is destroyed, unless it is pinned. -/
def destroyIfUnused (e : Module) : Module :=
  if e.mHandles = [] && !e.mPinned then { e with mState := .destroyed } else e

/-- `removeHandle`; control goes from the first handle to the next in line. -/
def removeHandle (e : Module) (self : ℕ) : Module :=
  match e.mHandles.findIdx? fun h => h.self = self with
  | none => e
  | some i =>
    let enabled := ((e.mHandles[i]?).map Handle.mEnabled).getD false
    let e := { e with mHandles := e.mHandles.eraseIdx i }
    (if i = 0 then e.handControl enabled else e).destroyIfUnused

/-- What `purgeHandles` returns: whether the handle in control was enabled. -/
def purgeHandles (e : Module) : Bool :=
  e.mHandles.foldl (fun enabled h => if !h.mDestroyed && h.mHasControl then h.mEnabled else enabled)
    false

/-- `setEnabled(false)` and `setSuspended(true)`. -/
def suspend (e : Module) : Module := (e.setEnabled true false).1.setSuspended true

/-- The effect when its type is restored: it is enabled as its control handle is. -/
def restore (policy : Bool) (e : Module) : Module :=
  let e := e.setSuspended false
  e.controlHandle.elim e fun h => (e.setEnabled policy h.mEnabled).1

end Module

/-! ## Chains -/

/-- The suspensions of a type; the weak pointer is the address of the suspended effect. -/
structure SuspendedEffectDesc where
  mRefCount : ℤ
  mType : Uuid
  mEffect : Option ℕ
deriving DecidableEq

structure Chain where
  mSessionId : ℤ
  mEffects : List Module
  mSuspendedEffects : KeyedVector ℕ SuspendedEffectDesc
deriving DecidableEq

/-- The key for a suspension of all effects. -/
def kKeyForSuspendAll : ℕ := 0

namespace Chain

/-- A chain without effects. -/
def new (sessionId : ℤ) : Chain := ⟨sessionId, [], .empty⟩

/-- Write the effect at its address. -/
def updateEffect (self : ℕ) (f : Module → Module) (c : Chain) : Chain :=
  { c with mEffects := c.mEffects.map fun e => if e.self = self then f e else e }

/-- Write an entry of the list of suspensions. -/
def setDesc (key : ℕ) (desc : SuspendedEffectDesc) (c : Chain) : Chain :=
  { c with mSuspendedEffects := c.mSuspendedEffects.add key desc }

/-- Remove an entry of the list of suspensions. -/
def removeDesc (key : ℕ) (c : Chain) : Chain :=
  { c with mSuspendedEffects := c.mSuspendedEffects.removeItem key }

/-- The entry of a key. -/
def desc (c : Chain) (key : ℕ) : Option SuspendedEffectDesc := c.mSuspendedEffects.valueFor key

/-- Promote a weak pointer. -/
def effectAt (c : Chain) (self : ℕ) : Option Module := c.mEffects.find? fun e => e.self = self

def getEffectFromDesc (c : Chain) (d : Descriptor) : Option Module :=
  c.mEffects.find? fun e => e.mDescriptor.uuid = d.uuid

def getEffectFromType (c : Chain) (type : Uuid) : Option Module :=
  c.mEffects.find? fun e => e.mDescriptor.type = type

def getEffectIfEnabled (c : Chain) (type : Uuid) : Option Module :=
  (c.getEffectFromType type).filter Module.isEnabled

def isEffectEligibleForSuspend (c : Chain) (d : Descriptor) : Bool :=
  !(c.mSessionId = audioSessionOutputMix &&
    (d.typeFlag = effectFlagTypeAuxiliary || d.type = slIidVisualization || d.type = slIidVolume))

def getSuspendEligibleEffects (c : Chain) : List Module :=
  c.mEffects.filter fun e => c.isEffectEligibleForSuspend e.mDescriptor

/-- `setEffectSuspended_l` with `suspend`. -/
def suspend (c : Chain) (type : Uuid) : Chain :=
  let desc := (c.desc type.timeLow).getD ⟨0, type, none⟩
  let counted := { desc with mRefCount := desc.mRefCount + 1 }
  if desc.mRefCount = 0 then
    match c.getEffectIfEnabled type with
    | some e =>
      (c.setDesc type.timeLow { counted with mEffect := some e.self }).updateEffect e.self
        Module.suspend
    | none => c.setDesc type.timeLow counted
  else c.setDesc type.timeLow counted

/-- A count that is not positive counts as 1. -/
def SuspendedEffectDesc.released (desc : SuspendedEffectDesc) : ℤ :=
  (if desc.mRefCount ≤ 0 then 1 else desc.mRefCount) - 1

/-- `setEffectSuspended_l` without `suspend`. -/
def restore (policy : ℕ → Bool) (c : Chain) (type : Uuid) : Chain :=
  match c.desc type.timeLow with
  | none => c
  | some desc =>
    if SuspendedEffectDesc.released desc = 0 then
      let c := ((desc.mEffect.bind c.effectAt).elim c fun e =>
        c.updateEffect e.self (Module.restore (policy e.self)))
      c.removeDesc type.timeLow
    else c.setDesc type.timeLow { desc with mRefCount := SuspendedEffectDesc.released desc }

def setEffectSuspended (policy : ℕ → Bool) (c : Chain) (type : Uuid) (suspend : Bool) : Chain :=
  if suspend then c.suspend type else c.restore policy type

/-- `setEffectSuspendedAll_l` with `suspend`; the type of a new entry is not read. -/
def suspendAll (c : Chain) : Chain :=
  let desc := (c.desc kKeyForSuspendAll).getD ⟨0, ⟨0, 0⟩, none⟩
  let c := c.setDesc kKeyForSuspendAll { desc with mRefCount := desc.mRefCount + 1 }
  if desc.mRefCount = 0 then
    c.getSuspendEligibleEffects.foldl (fun c e => c.suspend e.mDescriptor.type) c
  else c

/-- The types of the entries. -/
def suspendedTypes (c : Chain) : List Uuid :=
  (c.mSuspendedEffects.items.filter fun y => y.1 ≠ kKeyForSuspendAll).map fun y => y.2.mType

/-- `setEffectSuspendedAll_l` without `suspend`. -/
def restoreAll (policy : ℕ → Bool) (c : Chain) : Chain :=
  match c.desc kKeyForSuspendAll with
  | none => c
  | some desc =>
    if SuspendedEffectDesc.released desc = 0 then
      (c.suspendedTypes.foldl (fun c type => c.restore policy type) c).removeDesc kKeyForSuspendAll
    else c.setDesc kKeyForSuspendAll { desc with mRefCount := SuspendedEffectDesc.released desc }

def setEffectSuspendedAll (policy : ℕ → Bool) (c : Chain) (suspend : Bool) : Chain :=
  if suspend then c.suspendAll else c.restoreAll policy

/-- An effect that is enabled becomes the suspended one of its entry, if there is none. -/
def suspendEnabled (c : Chain) (desc : SuspendedEffectDesc) (e : Module) : Chain :=
  if desc.mEffect = none then
    (c.setDesc e.key { desc with mEffect := some e.self }).updateEffect e.self Module.suspend
  else c

def checkSuspendOnEffectEnabled (c : Chain) (e : Module) (enabled : Bool) : Chain :=
  match c.desc e.key with
  | none =>
    if enabled && (c.desc kKeyForSuspendAll).isSome &&
        c.isEffectEligibleForSuspend e.mDescriptor then
      let c := c.suspend e.mDescriptor.type
      (c.desc e.key).elim c fun desc => c.suspendEnabled desc e
    else c
  | some desc =>
    if enabled then c.suspendEnabled desc e
    else
      (c.setDesc e.key { desc with mEffect := none }).updateEffect e.self (Module.setSuspended false)

/-! ## Adding and removing effects -/

/-- What the loop of `addEffect_l` finds among the insert effects: an exclusive one, the index of
the first, the index of the last that claims the first position, and of the first that claims the
last position. -/
structure InsertScan where
  exclusive : Bool
  first : Option ℕ
  claimFirst : Option ℕ
  claimLast : Option ℕ

def insertScan : List Module → ℕ → InsertScan → InsertScan
  | [], _, s => s
  | e :: es, i, s =>
    let d := e.mDescriptor
    if d.typeFlag = effectFlagTypeInsert then
      insertScan es (i + 1)
        { exclusive := s.exclusive || decide (d.insertPref = effectFlagInsertExclusive)
          first := s.first.or (some i)
          claimFirst := if d.insertPref = effectFlagInsertFirst then some i else s.claimFirst
          claimLast :=
            if d.insertPref = effectFlagInsertLast then s.claimLast.or (some i) else s.claimLast }
    else insertScan es (i + 1) s

/-- The index at which an effect is inserted, unless effects exclude each other. -/
def insertIndex (d : Descriptor) (es : List Module) : Option ℕ :=
  if d.typeFlag = effectFlagTypeAuxiliary then some 0
  else
    let s := insertScan es 0 ⟨false, none, none, none⟩
    if s.exclusive || (s.first.isSome && decide (d.insertPref = effectFlagInsertExclusive)) then none
    else if d.insertPref = effectFlagInsertLast then some (s.claimLast.getD es.length)
    else some ((s.claimFirst.map (· + 1)).getD (s.first.getD es.length))

/-- `addEffect_l`. -/
def addEffect (c : Chain) (e : Module) : Option Chain :=
  (insertIndex e.mDescriptor c.mEffects).map fun i =>
    { c with mEffects := c.mEffects.insertIdx i e }

/-- `removeEffect_l`. -/
def removeEffect (c : Chain) (self : ℕ) : Chain :=
  { c with mEffects := c.mEffects.eraseP fun e => e.self = self }

/-! ## Calls of handles -/

/-- The handle of an effect. -/
def handleAt (c : Chain) (e h : ℕ) : Option (Module × Handle) :=
  (c.effectAt e).bind fun m => (m.mHandles.find? fun x => x.self = h).map fun x => (m, x)

/-- Write `mEnabled` of a handle. -/
def setHandleEnabled (e h : ℕ) (enabled : Bool) (c : Chain) : Chain :=
  c.updateEffect e (Module.updateHandle h fun x => { x with mEnabled := enabled })

/-- How `enable`, `disable` and `disconnect` of a handle end: without a change, with the effect's
new state kept from the thread, or with `checkSuspendOnEffectEnabled`, and whether that stands. -/
inductive Outcome
  | unchanged
  | silent
  | checked
  | refused
deriving DecidableEq

/-- `EffectHandle::enable`, and `checkSuspendOnEffectEnabled` for the chain of the effect. -/
def enable (policy : ℕ → Bool) (c : Chain) (e h : ℕ) : Chain × Outcome :=
  match c.handleAt e h with
  | none => (c, .unchanged)
  | some (m, x) =>
    if !x.mHasControl || x.mEnabled then (c, .unchanged)
    else
      let c := (c.setHandleEnabled e h true).checkSuspendOnEffectEnabled m true
      if ((c.effectAt e).map Module.mSuspended).getD false then (c, .checked)
      else if ((c.effectAt e).map fun m => (m.setEnabled (policy e) true).2).getD true then
        (c.updateEffect e fun m => (m.setEnabled (policy e) true).1, .checked)
      else ((c.checkSuspendOnEffectEnabled m false).setHandleEnabled e h false, .refused)

/-- `EffectHandle::disable`. -/
def disable (c : Chain) (e h : ℕ) : Chain × Outcome :=
  match c.handleAt e h with
  | none => (c, .unchanged)
  | some (m, x) =>
    if !x.mHasControl || !x.mEnabled then (c, .unchanged)
    else
      let c := c.setHandleEnabled e h false
      if m.mSuspended then (c, .silent)
      else
        ((c.updateEffect e fun m => (m.setEnabled true false).1).checkSuspendOnEffectEnabled m false,
          .checked)

/-- `EffectHandle::disconnect`, with `disconnectEffect` of the thread. -/
def disconnect (c : Chain) (e h : ℕ) (unpinIfLast : Bool) : Chain × Outcome :=
  match c.handleAt e h with
  | none => (c, .unchanged)
  | some (m, x) =>
    let m' := m.removeHandle h
    let c := c.updateEffect e fun m => m.removeHandle h
    if m'.mHandles = [] then
      let c := if !m.mPinned || unpinIfLast then c.removeEffect e else c
      if x.mEnabled then (c.checkSuspendOnEffectEnabled m false, .checked) else (c, .silent)
    else (c, .silent)

end Chain

end AudioFlinger.Effects
