import AudioFlinger.Binder.ReadLayout
import AudioFlinger.Binder.WriteSafety

/-!
# The table of objects

A ledger of the objects that a parcel has recorded stands beside it. Each is
acquired when it enters the table and released when it leaves, and the table
tells where those that are left lie, as long as the steps are `Regular`: the
writers record an object before the last test that can fail.
-/

namespace AudioFlinger.Binder

open Foundation Bytes RingMemory Machine

/-- The objects lie whole and apart in the data. -/
structure Parcel.Tabled (p : Parcel) : Prop where
  apart : p.mObjects.Pairwise fun o o' => o.toNat + 16 ≤ o'.toNat
  whole : ∀ o ∈ p.mObjects, o.toNat + 16 ≤ p.mDataSize.toNat

/-- A parcel to append from. -/
abbrev Source := { src : Parcel // src.Tabled }

inductive ObjectCall
  | writeObject (val : FlatBinderObject) (nullMetaData : Bool)
  | writeFileDescriptor (fd : U32) (takeOwnership : Bool)
  | appendFrom (src : Source) (offset len : U32) (dup : ℕ → U32)
  | pushAllowFds (allowFds : Bool)
  | restoreAllowFds (lastValue : Bool)
  | setDataPosition (pos : U32)
  | setDataSize (size : U32)

def Parcel.perform (p : Parcel) : ObjectCall → Status × Parcel
  | .writeObject val nullMetaData => p.writeObject val nullMetaData
  | .writeFileDescriptor fd takeOwnership => p.writeFileDescriptor fd takeOwnership
  | .appendFrom src offset len dup => p.appendFrom src.val offset len dup
  | .pushAllowFds allowFds => (.NO_ERROR, (p.pushAllowFds allowFds).2)
  | .restoreAllowFds lastValue => (.NO_ERROR, p.restoreAllowFds lastValue)
  | .setDataPosition pos => (.NO_ERROR, p.setDataPosition pos)
  | .setDataSize size => p.setDataSize size

/-! ## The ledger -/

def descriptor (fd : U32) (takeOwnership : Bool) : FlatBinderObject where
  type := BINDER_TYPE_FD
  flags := 0x7f#32 ||| FLAT_BINDER_FLAG_ACCEPTS_FDS
  binder := fd
  cookie := if takeOwnership then 1#32 else 0#32

/-- A copied file descriptor is replaced by one that the parcel owns. -/
def FlatBinderObject.dupped (obj : FlatBinderObject) (fd : U32) : FlatBinderObject :=
  if obj.type = BINDER_TYPE_FD then { obj with binder := fd, cookie := 1#32 } else obj

/-- All that stays the same of an object when it is copied. -/
def FlatBinderObject.bare (obj : FlatBinderObject) : FlatBinderObject := obj.dupped 0#32

/-- What the objects of the table are. -/
def Parcel.contents (p : Parcel) : List FlatBinderObject :=
  p.mObjects.map fun o => objectAt p.mem o.toNat

/-- An object is recorded unless it is NULL. -/
def recorded (val : FlatBinderObject) (nullMetaData : Bool) : List FlatBinderObject :=
  if nullMetaData ∨ val.binder ≠ 0#32 then [val] else []

/-- What `appendFrom` is to copy. -/
def Parcel.sources (src : Parcel) (offset len : U32) : List FlatBinderObject :=
  (src.objectsIn offset len).map fun o => objectAt src.mem o.toNat

/-- The objects that a call records. -/
def Parcel.takes (p : Parcel) : ObjectCall → List FlatBinderObject
  | .writeObject val nullMetaData => recorded val nullMetaData
  | .writeFileDescriptor fd takeOwnership => [descriptor fd takeOwnership]
  | .appendFrom src offset len dup =>
    (src.val.sources offset len).mapIdx fun i obj => obj.dupped (dup (p.mObjects.length + i))
  | _ => []

/-- The objects that a call leaves in the table. -/
def Parcel.keeps (p : Parcel) : ObjectCall → List FlatBinderObject
  | .setDataSize size => (p.mObjects.filter fun o => o < size).map fun o => objectAt p.mem o.toNat
  | _ => p.contents

structure Ledger where
  parcel : Parcel
  /-- All that was ever recorded. -/
  entered : List FlatBinderObject

def Ledger.after (s : Ledger) (c : ObjectCall) : Ledger where
  parcel := (s.parcel.perform c).2
  entered := if (s.parcel.perform c).1 = .NO_ERROR then s.entered ++ s.parcel.takes c else s.entered

def Ledger.initial (heap : List (Option (ℕ → Byte))) : Ledger where
  parcel := .initState heap []
  entered := []

def acquired (refs : List RefOp) : List FlatBinderObject :=
  refs.filterMap fun op => match op with
    | .acquire obj => some obj
    | .release _ => none

def released (refs : List RefOp) : List FlatBinderObject :=
  refs.filterMap fun op => match op with
    | .acquire _ => none
    | .release obj => some obj

/-- Each recorded object was acquired once, and is in the table or was released. -/
structure Ledger.Balanced (s : Ledger) : Prop where
  acquired : (acquired s.parcel.refs).map FlatBinderObject.bare =
    s.entered.map FlatBinderObject.bare
  held : (released s.parcel.refs ++ s.parcel.contents).Perm s.entered
  freed : (released s.parcel.freeData.refs).Perm s.entered ∧
    (Binder.acquired s.parcel.freeData.refs) = Binder.acquired s.parcel.refs

/-- The data, the position, the table and the references are the same. -/
structure Parcel.Unchanged (p q : Parcel) : Prop where
  data : ∀ i < p.mDataSize.toNat, q.mem i = p.mem i
  size : q.mDataSize = p.mDataSize
  pos : q.mDataPos = p.mDataPos
  objects : q.mObjects = p.mObjects
  refs : q.refs = p.refs

/-- What is claimed of a call. -/
structure Ledger.Holds (s : Ledger) (c : ObjectCall) : Prop where
  increasing : (s.parcel.perform c).2.mObjects.Pairwise (· < ·)
  whole : ∀ o ∈ (s.parcel.perform c).2.mObjects,
    o.toNat + 16 ≤ (s.parcel.perform c).2.mDataSize.toNat
  table : (s.parcel.perform c).2.mObjects.length ≤ (s.parcel.perform c).2.tableRoom
  contents : (s.parcel.perform c).1 = .NO_ERROR →
    (s.parcel.perform c).2.contents = s.parcel.keeps c ++ s.parcel.takes c
  balanced : (s.after c).Balanced
  error : (s.parcel.perform c).1 ≠ .NO_ERROR → s.parcel.Unchanged (s.parcel.perform c).2

/-! ## The condition -/

/-- The writers are called at the end of the data. -/
def Parcel.AtEnd (p : Parcel) : ObjectCall → Prop
  | .writeObject _ _ | .writeFileDescriptor _ _ | .appendFrom _ _ _ _ => p.mDataPos = p.mDataSize
  | _ => True

/-- The entries that the table claims to hold next are in its block. -/
def Parcel.TableHolds (p : Parcel) (n : ℕ) : Prop :=
  p.mObjects.length + n ≤ p.mObjectsCapacity.toNat → p.mObjects.length + n ≤ p.tableRoom

/-- What is recorded has room in the data and in the table, and a descriptor is allowed. -/
def Parcel.Records (p : Parcel) (val : FlatBinderObject) (nullMetaData : Bool) : Prop :=
  p.Refuses 16 ∨
    p.RoomFor 16 ∧ (recorded val nullMetaData ≠ [] →
      p.TableHolds 1 ∧ (val.type = BINDER_TYPE_FD → p.mAllowFds = true))

/-- The allocation of the table, behind that of the data. -/
def Parcel.tableGrows (p : Parcel) (len : U32) : Bool :=
  ((if p.AppendFits len.toNat then p.heap else p.heap.tail).head?.join).isSome

/-- The range cuts no object, the table has room or can grow, and descriptors are allowed. -/
def Parcel.AppendsWhole (p src : Parcel) (offset len : U32) : Prop :=
  ∀ o ∈ src.objectsIn offset len, o.toNat + 16 ≤ offset.toNat + len.toNat ∧
    p.TableHolds (src.objectsIn offset len).length ∧
    (p.mObjectsCapacity.toNat < p.mObjects.length + (src.objectsIn offset len).length →
      p.tableGrows len = true) ∧
    ((objectAt src.mem o.toNat).type = BINDER_TYPE_FD → p.mAllowFds = true)

/-- No step records what it then refuses, and none cuts an object. -/
def Parcel.Regular (p : Parcel) : ObjectCall → Prop
  | .writeObject val nullMetaData => p.Records val nullMetaData
  | .writeFileDescriptor fd takeOwnership => p.Records (descriptor fd takeOwnership) true
  | .appendFrom src offset len _ => len = 0#32 ∨
      (src.val.mDataSize < offset ∨ src.val.mDataSize < len ∨ src.val.mDataSize < offset + len) ∨
      ¬ p.AppendFits len.toNat ∧ p.newSize len.toNat ≤ p.mDataSize.toNat ∨
      p.RoomToAppend src.val offset len ∧ p.AppendsWhole src.val offset len
  | .setDataSize size => ∀ o ∈ p.mObjects, o.toNat + 16 ≤ size.toNat ∨ size.toNat ≤ o.toNat
  | _ => True

instance (p : Parcel) : ∀ c, Decidable (p.AtEnd c)
  | .writeObject _ _ => inferInstanceAs (Decidable (_ = _))
  | .writeFileDescriptor _ _ => inferInstanceAs (Decidable (_ = _))
  | .appendFrom _ _ _ _ => inferInstanceAs (Decidable (_ = _))
  | .pushAllowFds _ => isTrue trivial
  | .restoreAllowFds _ => isTrue trivial
  | .setDataPosition _ => isTrue trivial
  | .setDataSize _ => isTrue trivial

instance (p : Parcel) (n : ℕ) : Decidable (p.TableHolds n) := inferInstanceAs (Decidable (_ → _))

instance (p : Parcel) (val : FlatBinderObject) (nullMetaData : Bool) :
    Decidable (p.Records val nullMetaData) := inferInstanceAs (Decidable (_ ∨ _ ∧ (_ → _ ∧ (_ → _))))

instance (p src : Parcel) (offset len : U32) : Decidable (p.AppendsWhole src offset len) :=
  -- over the table, not over all words
  List.decidableBAll (fun o : U32 => o.toNat + 16 ≤ offset.toNat + len.toNat ∧
    p.TableHolds (src.objectsIn offset len).length ∧
    (p.mObjectsCapacity.toNat < p.mObjects.length + (src.objectsIn offset len).length →
      p.tableGrows len = true) ∧
    ((objectAt src.mem o.toNat).type = BINDER_TYPE_FD → p.mAllowFds = true)) _

instance (p : Parcel) : ∀ c, Decidable (p.Regular c)
  | .writeObject _ _ => inferInstanceAs (Decidable (p.Records _ _))
  | .writeFileDescriptor _ _ => inferInstanceAs (Decidable (p.Records _ _))
  | .appendFrom _ _ _ _ => inferInstanceAs (Decidable (_ ∨ _ ∨ _ ∨ _))
  | .pushAllowFds _ => isTrue trivial
  | .restoreAllowFds _ => isTrue trivial
  | .setDataPosition _ => isTrue trivial
  | .setDataSize size =>
    List.decidableBAll (fun o : U32 => o.toNat + 16 ≤ size.toNat ∨ size.toNat ≤ o.toNat) _

/-! ## What the steps keep -/

variable {p q r : Parcel}

theorem Parcel.Unchanged.refl (p : Parcel) : p.Unchanged p := ⟨fun _ _ => rfl, rfl, rfl, rfl, rfl⟩

/-- The calls keep these, whether they succeed or fail. -/
structure Parcel.Ordered (p : Parcel) : Prop extends p.Tabled where
  owner : p.mOwner = false
  room : p.mObjects.length ≤ p.tableRoom

/-- The objects `takes` were recorded at `offs`, from `objs`. -/
structure Parcel.Adds (p q : Parcel) (offs : List U32) (objs takes : List FlatBinderObject) :
    Prop where
  objects : q.mObjects = p.mObjects ++ offs
  refs : q.refs = p.refs ++ objs.map .acquire
  data : ∀ i < p.mDataSize.toNat, q.mem i = p.mem i
  size : p.mDataSize.toNat ≤ q.mDataSize.toNat
  contents : (offs.map fun o => objectAt q.mem o.toNat) = takes
  bare : objs.map FlatBinderObject.bare = takes.map FlatBinderObject.bare
  apart : offs.Pairwise fun o o' => o.toNat + 16 ≤ o'.toNat
  inside : ∀ o ∈ offs, p.mDataSize.toNat ≤ o.toNat ∧ o.toNat + 16 ≤ q.mDataSize.toNat
  owner : q.mOwner = false
  room : q.mObjects.length ≤ q.tableRoom

/-- A call that fails changes nothing that is seen. -/
structure Parcel.Fails (p q : Parcel) : Prop where
  unchanged : p.Unchanged q
  owner : q.mOwner = false
  room : p.mObjects.length ≤ q.tableRoom

theorem Parcel.Adds.ordered {offs : List U32} {objs takes : List FlatBinderObject}
    (h : p.Ordered) (hadds : p.Adds q offs objs takes) : q.Ordered where
  apart := by
    rw [hadds.objects]
    refine List.pairwise_append.mpr ⟨h.apart, hadds.apart, fun o ho o' ho' => ?_⟩
    exact (h.whole o ho).trans (hadds.inside o' ho').1
  whole := by
    rw [hadds.objects, List.forall_mem_append]
    exact ⟨fun o ho => (h.whole o ho).trans hadds.size, fun o ho => (hadds.inside o ho).2⟩
  owner := hadds.owner
  room := hadds.room

theorem Parcel.Fails.ordered (h : p.Ordered) (hfails : p.Fails q) : q.Ordered where
  apart := by rw [hfails.unchanged.objects]; exact h.apart
  whole := by rw [hfails.unchanged.objects, hfails.unchanged.size]; exact h.whole
  owner := hfails.owner
  room := by rw [hfails.unchanged.objects]; exact hfails.room

/-- Objects that lie apart are few. -/
theorem apart_length {os : List U32} {n size : ℕ}
    (happart : os.Pairwise fun o o' => o.toNat + 16 ≤ o'.toNat)
    (hin : ∀ o ∈ os, n ≤ o.toNat ∧ o.toNat + 16 ≤ size) : 16 * os.length ≤ size - n := by
  induction os generalizing n with
  | nil => exact Nat.zero_le _
  | cons o os ih =>
    obtain ⟨hfirst, hrest⟩ := List.pairwise_cons.mp happart
    obtain ⟨hlow, hhigh⟩ := hin o List.mem_cons_self
    have hlen := ih (n := o.toNat + 16) hrest fun o' ho' =>
      ⟨hfirst o' ho', (hin o' (List.mem_cons_of_mem _ ho')).2⟩
    rw [List.length_cons]
    omega

theorem Parcel.Tabled.few (h : p.Tabled) : 16 * p.mObjects.length ≤ p.mDataSize.toNat :=
  apart_length h.apart fun o ho => ⟨Nat.zero_le _, h.whole o ho⟩

/-! ## Writing an object -/

/-- The table has room for `k` more entries, and nothing is seen of it. -/
structure Parcel.TableReady (p q : Parcel) (k : ℕ) : Prop extends p.Unchanged q where
  block : q.mData = p.mData
  kept : p.Kept → q.Kept
  capacity : q.mDataCapacity = p.mDataCapacity
  allowFds : q.mAllowFds = p.mAllowFds
  owner : q.mOwner = p.mOwner
  table : q.mObjects.length + k ≤ q.tableRoom

theorem TableReady.refl {k : ℕ} (hroom : p.mObjects.length + k ≤ p.tableRoom) :
    p.TableReady p k :=
  ⟨Parcel.Unchanged.refl p, rfl, id, rfl, rfl, rfl, hroom⟩

theorem Parcel.Unchanged.trans (h : p.Unchanged q) (h' : q.Unchanged r) : p.Unchanged r where
  data := fun i hi => (h'.data i (by rwa [h.size])).trans (h.data i hi)
  size := h'.size.trans h.size
  pos := h'.pos.trans h.pos
  objects := h'.objects.trans h.objects
  refs := h'.refs.trans h.refs

theorem Parcel.Tabled.increasing (h : p.Tabled) : p.mObjects.Pairwise (· < ·) :=
  h.apart.imp fun hlt => BitVec.lt_def.mpr (by omega)

@[simp] theorem acquired_append (xs ys : List RefOp) :
    acquired (xs ++ ys) = acquired xs ++ acquired ys := List.filterMap_append

@[simp] theorem released_append (xs ys : List RefOp) :
    released (xs ++ ys) = released xs ++ released ys := List.filterMap_append

@[simp] theorem acquired_release (objs : List FlatBinderObject) :
    acquired (objs.map .release) = [] := by
  unfold acquired
  rw [List.filterMap_map]
  exact List.filterMap_eq_nil_iff.mpr fun _ _ => rfl

@[simp] theorem released_release (objs : List FlatBinderObject) :
    released (objs.map .release) = objs := by
  unfold released
  rw [List.filterMap_map]
  exact List.filterMap_some

structure Ledger.Inv (s : Ledger) : Prop where
  kept : s.parcel.Kept
  ordered : s.parcel.Ordered
  acquired : (acquired s.parcel.refs).map FlatBinderObject.bare =
    s.entered.map FlatBinderObject.bare
  held : (released s.parcel.refs ++ s.parcel.contents).Perm s.entered

variable {s : Ledger} {c : ObjectCall}

/-- Freeing the parcel releases what it holds. -/
theorem Ledger.Inv.balanced (h : s.Inv) : s.Balanced where
  acquired := h.acquired
  held := h.held
  freed := by
    have hrefs : s.parcel.freeData.refs =
        s.parcel.refs ++ s.parcel.contents.reverse.map .release := by
      unfold Parcel.freeData Parcel.freeDataNoInit Parcel.contents
      rw [h.ordered.owner, if_neg Bool.false_ne_true, ← List.map_reverse, List.map_map]
      rfl
    rw [hrefs, released_append, released_release, acquired_append, acquired_release,
      List.append_nil]
    exact ⟨((List.reverse_perm _).append_left _).trans h.held, rfl⟩

theorem inv_initial (heap : List (Option (ℕ → Byte))) : (Ledger.initial heap).Inv where
  kept := kept_initState heap []
  ordered := ⟨⟨List.Pairwise.nil, by rintro o ⟨⟩⟩, rfl, le_rfl⟩
  acquired := rfl
  held := List.Perm.refl _

end AudioFlinger.Binder
