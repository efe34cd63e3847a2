import AudioFlinger.Foundation.Machine
import AudioFlinger.ServiceManager.Handler
import Mathlib.Data.List.Find

/-!
# The registry as a map from names to handles

What the service manager is for: a map that a registration updates at one name
and the death of a handle at the names that have it. The handler keeps to it as
long as no two names of one length are used, since it compares lengths only, and
each death notification is for the handle of its record and of no other.
-/

namespace AudioFlinger.ServiceManager

open Foundation Machine Bytes

/-! ## Requests -/

/-- What a transaction asks for. -/
inductive Request
  | find (name : List U16)
  | add (name : List U16) (ptr : U32)
  deriving DecidableEq, Repr

/-- The request after the header; `none` for the other codes, or if there is no name. -/
def BinderIo.request (msg : BinderIo) (code : U32) : Option Request :=
  match msg.bio_get_string16 with
  | (none, _, _) => none
  | (some p, len, msg) =>
    let name := loadUnits msg.mem p len.toNat
    if code = SVC_MGR_GET_SERVICE ∨ code = SVC_MGR_CHECK_SERVICE then some (.find name)
    else if code = SVC_MGR_ADD_SERVICE then some (.add name msg.bio_get_ref.1)
    else none

def Txn.request (txn : Txn) : Option Request :=
  if txn.target ≠ svcmgr_handle then none
  else
    match (bio_init_from_txn txn).rpcHeader with
    | (some true, msg) => msg.request txn.code
    | _ => none

/-! ## The map -/

/-- The handle that a name is mapped to. -/
abbrev Services := List U16 → Option U32

def Services.register (r : Services) (name : List U16) (ptr : U32) : Services :=
  Function.update r name (some ptr)

/-- A handle is reported dead. -/
def Services.lose (r : Services) (ptr : U32) : Services :=
  fun name => if r name = some ptr then none else r name

/-- The handler beside the map. -/
structure Session where
  manager : Manager
  services : Services

def Session.init : Session := { manager := .init, services := fun _ => none }

inductive Event
  /-- A transaction, with whatever the reply buffer holds. -/
  | transact (txn : Txn) (mem : ℕ → Byte) (table : ℕ → U32) (mallocOk : Bool)
  /-- `BR_DEAD_BINDER` of the handle `ptr`, for the record `id`. -/
  | dead (ptr : U32) (id : ℕ)

/-- A registration is successful when the handler returns `0`. -/
def Services.transacted (r : Services) : Option Request → ℤ → Services
  | some (.add name ptr), 0 => r.register name ptr
  | _, _ => r

/-- A death notification is one that was requested. -/
def step (s : Session) : Event → Option Session
  | .transact txn mem table mallocOk =>
    let handled := s.manager.svcmgr_handler txn (emptyReply mem table) mallocOk
    handled.status.map fun status =>
      { manager := handled.manager, services := s.services.transacted txn.request status }
  | .dead ptr id =>
    if .linkToDeath ptr id ∈ s.manager.sent then
      some { manager := s.manager.svcinfo_death id, services := s.services.lose ptr }
    else none

/-- A lookup replies with the handle its name is mapped to, and with none if there is none. -/
def Answers (s : Session) : Event → Prop
  | .transact txn mem table mallocOk => ∀ name, txn.request = some (.find name) →
      let handled := s.manager.svcmgr_handler txn (emptyReply mem table) mallocOk
      handled.status = some 0 ∧
        handled.reply = putService (emptyReply mem table) ((s.services name).getD 0#32)
  | .dead _ _ => True

/-- The services recorded with the length of the name have the name. -/
def Manager.Distinguishes (m : Manager) (name : List U16) : Prop :=
  ∀ si ∈ m.svclist, si.name.length = name.length → si.name = name

instance (m : Manager) (name : List U16) : Decidable (m.Distinguishes name) :=
  inferInstanceAs (Decidable (∀ si ∈ m.svclist, _))

/-- A request for which the registry is searched gives a name that is told apart. -/
def Manager.Admits (m : Manager) : Option Request → Prop
  | some (.find name) => m.Distinguishes name
  | some (.add name ptr) => ptr ≠ 0#32 → m.Distinguishes name
  | none => True

instance (m : Manager) : (r : Option Request) → Decidable (m.Admits r)
  | some (.find name) => inferInstanceAs (Decidable (m.Distinguishes name))
  | some (.add _ ptr) => inferInstanceAs (Decidable (ptr ≠ 0#32 → _))
  | none => isTrue trivial

/-- Names are told apart by their lengths, and a death notification is for the handle that its
record, and no other, still has. -/
def Undisturbed (s : Session) : Event → Prop
  | .transact txn _ _ _ => s.manager.Admits txn.request
  | .dead ptr id => ∀ si ∈ s.manager.svclist, si.ptr ≠ 0#32 → (si.ptr = ptr ↔ si.id = id)

instance (s : Session) : (e : Event) → Decidable (Undisturbed s e)
  | .transact txn _ _ _ => inferInstanceAs (Decidable (s.manager.Admits txn.request))
  | .dead _ _ => inferInstanceAs (Decidable (∀ si ∈ s.manager.svclist, _))

/-! ## The handler on requests -/

/-- The record with the name. -/
def Manager.record (m : Manager) (name : List U16) : Option SvcInfo :=
  m.svclist.find? fun si => si.name = name

/-- The handle of a record, if its service is alive. -/
def SvcInfo.handle (si : SvcInfo) : Option U32 := if si.ptr = 0#32 then none else some si.ptr

def Manager.services (m : Manager) : Services := fun name => (m.record name).bind SvcInfo.handle

/-- Names are no longer than 127 units, and records have their own identities. -/
structure Manager.Ordered (m : Manager) : Prop where
  length_le : ∀ si ∈ m.svclist, si.name.length ≤ 127
  id_lt : ∀ si ∈ m.svclist, si.id < m.svclist.length
  id_inj : ∀ si ∈ m.svclist, ∀ sj ∈ m.svclist, si.id = sj.id → si = sj

/-- `do_add_service` without what it reads. -/
def Manager.add (m : Manager) (name : List U16) (ptr : U32) (mallocOk : Bool) : Bool × Manager :=
  if ptr = 0#32 ∨ name.length = 0 ∨ 127 < name.length then (false, m)
  else
    match m.find_svc (BitVec.ofNat 32 name.length) with
    | some si =>
      (true, ((if si.ptr ≠ 0#32 then m.svcinfo_death si.id else m).setPtr si.id ptr).link ptr si.id)
    | none =>
      if mallocOk then
        (true, Manager.link { m with svclist := { id := m.svclist.length, ptr, name } :: m.svclist }
          ptr m.svclist.length)
      else (false, m)

theorem do_add_service_eq (m : Manager) (msg : BinderIo) (p : ℕ) (len ptr : U32)
    (mallocOk : Bool) :
    (m.do_add_service msg (some p) len ptr mallocOk).1 =
        (m.add (loadUnits msg.mem p len.toNat) ptr mallocOk).1 ∧
      (m.do_add_service msg (some p) len ptr mallocOk).2.1 =
        (m.add (loadUnits msg.mem p len.toNat) ptr mallocOk).2 := by
  have hzero : len = 0#32 ↔ len.toNat = 0 := by
    rw [← BitVec.toNat_inj]
    rfl
  have hlong : 127#32 < len ↔ 127 < len.toNat := by
    rw [BitVec.lt_def]
    rfl
  unfold Manager.do_add_service Manager.add
  dsimp only
  rw [loadUnits_length, BitVec.ofNat_toNat, BitVec.setWidth_eq]
  simp only [hzero, hlong]
  by_cases href : ptr = 0#32 ∨ len.toNat = 0 ∨ 127 < len.toNat
  · rw [if_pos href, if_pos href]
    exact ⟨rfl, rfl⟩
  · rw [if_neg href, if_neg href]
    rcases m.find_svc len with _ | si
    · cases mallocOk <;> exact ⟨rfl, rfl⟩
    · exact ⟨rfl, rfl⟩

/-- After the header: a lookup replies with the handle that `find_svc` finds and leaves the
registry alone; a registration is that of the name; nothing else touches the registry. -/
theorem dispatch_request (m : Manager) (code : U32) (msg reply : BinderIo) (mallocOk : Bool) :
    match msg.request code with
    | some (.find name) =>
      (m.dispatch code msg reply mallocOk).manager = m ∧
        (m.dispatch code msg reply mallocOk).status = some 0 ∧
        (m.dispatch code msg reply mallocOk).reply = putService reply
          (((m.find_svc (BitVec.ofNat 32 name.length)).map SvcInfo.ptr).getD 0#32)
    | some (.add name ptr) =>
      (m.dispatch code msg reply mallocOk).manager = (m.add name ptr mallocOk).2 ∧
        (m.dispatch code msg reply mallocOk).status =
          some (if (m.add name ptr mallocOk).1 then 0 else -1)
    | none => (m.dispatch code msg reply mallocOk).manager = m := by
  unfold BinderIo.request Manager.dispatch
  have hnone := @get_ref_of_string_none msg
  revert hnone
  rcases msg.bio_get_string16 with ⟨_ | p, len, msg'⟩ <;> dsimp only <;> intro hnone
  · have hrefused : m.do_add_service msg'.bio_get_ref.2 none len msg'.bio_get_ref.1 mallocOk =
        (false, m, msg'.bio_get_ref.2) := by
      rw [hnone rfl]
      rfl
    split_ifs
    · rfl
    · rw [hrefused]
    · rcases m.svclist.drop msg.bio_get_uint32.1.toNat with _ | ⟨si, _⟩ <;> rfl
    · rfl
  · split_ifs with hget hadd hlist
    · refine ⟨rfl, rfl, ?_⟩
      rw [loadUnits_length, BitVec.ofNat_toNat, BitVec.setWidth_eq, Manager.do_find_service]
      rcases m.find_svc len with _ | si <;> rfl
    · obtain ⟨hstatus, hmanager⟩ :=
        do_add_service_eq m msg'.bio_get_ref.2 p len msg'.bio_get_ref.1 mallocOk
      rw [get_ref_mem] at hstatus hmanager
      dsimp only
      rw [← hstatus, ← hmanager]
      rcases m.do_add_service _ _ _ _ mallocOk with ⟨_ | _, m', msg''⟩ <;> exact ⟨rfl, rfl⟩
    · rcases m.svclist.drop msg.bio_get_uint32.1.toNat with _ | ⟨si, _⟩ <;> rfl
    · rfl

theorem handler_request (m : Manager) (txn : Txn) (reply : BinderIo) (mallocOk : Bool) :
    match txn.request with
    | some (.find name) =>
      (m.svcmgr_handler txn reply mallocOk).manager = m ∧
        (m.svcmgr_handler txn reply mallocOk).status = some 0 ∧
        (m.svcmgr_handler txn reply mallocOk).reply = putService reply
          (((m.find_svc (BitVec.ofNat 32 name.length)).map SvcInfo.ptr).getD 0#32)
    | some (.add name ptr) =>
      (m.svcmgr_handler txn reply mallocOk).manager = (m.add name ptr mallocOk).2 ∧
        (m.svcmgr_handler txn reply mallocOk).status =
          some (if (m.add name ptr mallocOk).1 then 0 else -1)
    | none => (m.svcmgr_handler txn reply mallocOk).manager = m := by
  unfold Txn.request Manager.svcmgr_handler
  dsimp only
  split_ifs with htarget
  · rfl
  · rcases (bio_init_from_txn txn).rpcHeader with ⟨_ | _ | _, msg⟩
    · rfl
    · rfl
    · exact dispatch_request m txn.code msg reply mallocOk

theorem request_name_lt {txn : Txn} {name : List U16} (h : txn.request = some (.find name)) :
    name.length < 2 ^ 32 := by
  have hname (msg : BinderIo) (hr : msg.request txn.code = some (.find name)) :
      name.length < 2 ^ 32 := by
    unfold BinderIo.request at hr
    revert hr
    rcases msg.bio_get_string16 with ⟨_ | p, len, msg'⟩ <;> dsimp only <;> intro hr
    · cases hr
    · split_ifs at hr <;> cases hr
      rw [loadUnits_length]
      exact len.isLt
  unfold Txn.request at h
  split_ifs at h
  revert h
  rcases (bio_init_from_txn txn).rpcHeader with ⟨_ | _ | _, msg⟩ <;> intro h
  · cases h
  · cases h
  · exact hname msg h

/-! ## The records as a map -/

/-- Where names are told apart by their lengths, `find_svc` finds the record with the name. -/
theorem Manager.Ordered.find_svc_eq {m : Manager} (ho : m.Ordered) {name : List U16}
    (hd : m.Distinguishes name) (hlt : name.length < 2 ^ 32) :
    m.find_svc (BitVec.ofNat 32 name.length) = m.record name := by
  apply List.find?_congr
  intro si hsi
  have hle := ho.length_le si hsi
  have hlen : BitVec.ofNat 32 si.name.length = BitVec.ofNat 32 name.length ↔
      si.name = name := by
    rw [← BitVec.toNat_inj, BitVec.toNat_ofNat, BitVec.toNat_ofNat, Nat.mod_eq_of_lt (by omega),
      Nat.mod_eq_of_lt hlt]
    exact ⟨hd si hsi, congrArg List.length⟩
  simp only [hlen]

theorem getD_handle (o : Option SvcInfo) :
    (o.map SvcInfo.ptr).getD 0#32 = (o.bind SvcInfo.handle).getD 0#32 := by
  rcases o with _ | si
  · rfl
  · simp only [Option.map_some, Option.getD_some, Option.bind_some, SvcInfo.handle]
    split_ifs with hzero <;> simp [hzero]

/-- The map after the records were changed without a change of names. -/
theorem record_map {m : Manager} {f : SvcInfo → SvcInfo} (hname : ∀ si, (f si).name = si.name)
    (sent : List Command) (name : List U16) :
    Manager.record { svclist := m.svclist.map f, sent := sent } name = (m.record name).map f := by
  simp only [Manager.record, List.find?_map]
  congr 2
  funext si
  simp [hname]

theorem Manager.Ordered.map {m : Manager} (ho : m.Ordered) {f : SvcInfo → SvcInfo}
    (hname : ∀ si, (f si).name = si.name) (hid : ∀ si, (f si).id = si.id) (sent : List Command) :
    Manager.Ordered { svclist := m.svclist.map f, sent := sent } where
  length_le := by
    intro si hsi
    obtain ⟨sj, hsj, rfl⟩ := List.mem_map.mp hsi
    rw [hname]
    exact ho.length_le sj hsj
  id_lt := by
    intro si hsi
    obtain ⟨sj, hsj, rfl⟩ := List.mem_map.mp hsi
    rw [hid, List.length_map]
    exact ho.id_lt sj hsj
  id_inj := by
    intro si hsi sj hsj heq
    obtain ⟨ti, hti, rfl⟩ := List.mem_map.mp hsi
    obtain ⟨tj, htj, rfl⟩ := List.mem_map.mp hsj
    rw [hid, hid] at heq
    rw [ho.id_inj ti hti tj htj heq]

theorem record_mem {m : Manager} {name : List U16} {si : SvcInfo} (h : m.record name = some si) :
    si ∈ m.svclist ∧ si.name = name := by
  exact ⟨List.mem_of_find?_eq_some h, by simpa using List.find?_some h⟩

/-- Point the record `id` at a handle. -/
def SvcInfo.point (id : ℕ) (ptr : U32) (si : SvcInfo) : SvcInfo :=
  if si.id = id then { si with ptr := ptr } else si

theorem point_name (id : ℕ) (ptr : U32) (si : SvcInfo) : (si.point id ptr).name = si.name := by
  unfold SvcInfo.point
  split_ifs <;> rfl

theorem point_id (id : ℕ) (ptr : U32) (si : SvcInfo) : (si.point id ptr).id = si.id := by
  unfold SvcInfo.point
  split_ifs <;> rfl

theorem point_handle (id : ℕ) (ptr : U32) (si : SvcInfo) :
    (si.point id ptr).handle =
      if si.id = id then if ptr = 0#32 then none else some ptr else si.handle := by
  unfold SvcInfo.point SvcInfo.handle
  split_ifs <;> rfl

theorem services_point {m : Manager} (id : ℕ) (ptr : U32) (sent : List Command)
    (name : List U16) :
    Manager.services { svclist := m.svclist.map (SvcInfo.point id ptr), sent := sent } name =
      (m.record name).bind fun si =>
        if si.id = id then if ptr = 0#32 then none else some ptr else si.handle := by
  unfold Manager.services
  rw [record_map (point_name id ptr)]
  rcases m.record name with _ | si
  · rfl
  · exact point_handle id ptr si

/-- The death of a handle that its record alone has. -/
theorem services_death {m : Manager} {ptr : U32} {id : ℕ}
    (h : ∀ si ∈ m.svclist, si.ptr ≠ 0#32 → (si.ptr = ptr ↔ si.id = id)) :
    (m.svcinfo_death id).services = m.services.lose ptr := by
  funext name
  refine (services_point id 0#32 _ name).trans ?_
  unfold Services.lose Manager.services
  rcases hrecord : m.record name with _ | si
  · simp
  · have hmem := (record_mem hrecord).1
    simp only [Option.bind_some, SvcInfo.handle, if_true]
    by_cases hzero : si.ptr = 0#32
    · simp [hzero]
    · simp [hzero, h si hmem hzero]

theorem svclist_override (m : Manager) (id : ℕ) (ptr : U32) (dies : Prop) [Decidable dies] :
    ((if dies then m.svcinfo_death id else m).setPtr id ptr).svclist =
      m.svclist.map (SvcInfo.point id ptr) := by
  split_ifs
  · simp only [Manager.setPtr, Manager.svcinfo_death, List.map_map]
    apply List.map_congr_left
    intro si _
    by_cases hid : si.id = id <;> simp [hid, SvcInfo.point]
  · rfl

/-- A new record, in front of the others. -/
theorem Manager.Ordered.cons {m : Manager} (ho : m.Ordered) {name : List U16} {ptr : U32}
    (hlen : name.length ≤ 127) (sent : List Command) :
    Manager.Ordered
      { svclist := { id := m.svclist.length, ptr := ptr, name := name } :: m.svclist
        sent := sent } where
  length_le := List.forall_mem_cons.mpr ⟨hlen, ho.length_le⟩
  id_lt := by
    refine List.forall_mem_cons.mpr ⟨Nat.lt_succ_self _, fun si hsi => ?_⟩
    exact (ho.id_lt si hsi).trans (Nat.lt_succ_self _)
  id_inj := by
    intro si hsi sj hsj heq
    rcases List.mem_cons.mp hsi with rfl | hsi <;> rcases List.mem_cons.mp hsj with rfl | hsj
    · rfl
    · exact absurd heq.symm (ho.id_lt sj hsj).ne
    · exact absurd heq (ho.id_lt si hsi).ne
    · exact ho.id_inj si hsi sj hsj heq

theorem services_cons {m : Manager} {name : List U16} {ptr : U32} (hptr : ptr ≠ 0#32)
    (sent : List Command) :
    Manager.services
        { svclist := { id := m.svclist.length, ptr := ptr, name := name } :: m.svclist
          sent := sent } = m.services.register name ptr := by
  funext other
  unfold Manager.services Services.register Manager.record
  by_cases hother : other = name
  · simp [hother, SvcInfo.handle, hptr]
  · rw [Function.update_of_ne hother, List.find?_cons_of_neg (by simpa using Ne.symm hother)]

/-- An old record, pointed at a new handle. -/
theorem services_override {m : Manager} (ho : m.Ordered) {name : List U16} {si : SvcInfo}
    (hrecord : m.record name = some si) {ptr : U32} (hptr : ptr ≠ 0#32) (sent : List Command) :
    Manager.services { svclist := m.svclist.map (SvcInfo.point si.id ptr), sent := sent } =
      m.services.register name ptr := by
  obtain ⟨hmem, hname⟩ := record_mem hrecord
  funext other
  rw [services_point]
  unfold Services.register
  by_cases hother : other = name
  · rw [hother, hrecord, Function.update_self, Option.bind_some, if_pos rfl, if_neg hptr]
  · rw [Function.update_of_ne hother]
    unfold Manager.services
    rcases hfound : m.record other with _ | sj
    · rfl
    · obtain ⟨hmem', hname'⟩ := record_mem hfound
      have hne : sj.id ≠ si.id := by
        intro hid
        rw [ho.id_inj sj hmem' si hmem hid, hname] at hname'
        exact hother hname'.symm
      rw [Option.bind_some, Option.bind_some, if_neg hne]

/-- A registration that is not refused updates the map at its name. -/
theorem services_add {m : Manager} (ho : m.Ordered) {name : List U16} {ptr : U32} {mallocOk : Bool}
    (hd : ptr ≠ 0#32 → m.Distinguishes name) :
    (m.add name ptr mallocOk).2.Ordered ∧
      (m.add name ptr mallocOk).2.services =
        if (m.add name ptr mallocOk).1 then m.services.register name ptr else m.services := by
  unfold Manager.add
  by_cases href : ptr = 0#32 ∨ name.length = 0 ∨ 127 < name.length
  · rw [if_pos href]
    exact ⟨ho, rfl⟩
  · rw [if_neg href, ho.find_svc_eq (hd fun h => href (Or.inl h)) (by omega)]
    have hptr : ptr ≠ 0#32 := fun h => href (Or.inl h)
    rcases hrecord : m.record name with _ | si
    · cases mallocOk with
      | false => exact ⟨ho, rfl⟩
      | true => exact ⟨ho.cons (by omega) _, services_cons hptr _⟩
    · have hlist := svclist_override m si.id ptr (si.ptr ≠ 0#32)
      dsimp only [Manager.link]
      rw [hlist]
      refine ⟨ho.map (point_name si.id ptr) (point_id si.id ptr) _, ?_⟩
      rw [if_pos rfl]
      exact services_override ho hrecord hptr _

/-! ## Runs -/

/-- The records hold the map. -/
structure Holds (s : Session) : Prop where
  services : s.manager.services = s.services
  ordered : s.manager.Ordered

theorem holds_init : Holds .init where
  services := rfl
  ordered := ⟨by simp [Session.init, Manager.init], by simp [Session.init, Manager.init],
    by simp [Session.init, Manager.init]⟩

theorem Holds.answers {s : Session} (h : Holds s) {e : Event} (hu : Undisturbed s e) :
    Answers s e := by
  cases e with
  | dead ptr id => trivial
  | transact txn mem table mallocOk =>
    intro name hname
    have hhandler := handler_request s.manager txn (emptyReply mem table) mallocOk
    rw [Undisturbed, hname] at hu
    rw [hname] at hhandler
    obtain ⟨-, hstatus, hreply⟩ := hhandler
    refine ⟨hstatus, ?_⟩
    rw [hreply, h.ordered.find_svc_eq hu (request_name_lt hname), getD_handle, ← h.services]
    rfl

theorem holds_step (s : Session) (e : Event) (s' : Session) (hu : Undisturbed s e)
    (hstep : step s e = some s') (h : Holds s) : Holds s' := by
  cases e with
  | dead ptr id =>
    rw [step] at hstep
    split_ifs at hstep
    cases hstep
    refine ⟨?_, h.ordered.map (point_name id 0#32) (point_id id 0#32) _⟩
    rw [← h.services]
    exact services_death hu
  | transact txn mem table mallocOk =>
    have hhandler := handler_request s.manager txn (emptyReply mem table) mallocOk
    obtain ⟨status, hstatus, rfl⟩ := Option.map_eq_some_iff.mp hstep
    rw [Undisturbed] at hu
    revert hhandler hu
    rcases txn.request with _ | name | ⟨name, ptr⟩ <;> intro hu hhandler
    · rw [hhandler]
      exact ⟨h.services, h.ordered⟩
    · rw [hhandler.1]
      exact ⟨h.services, h.ordered⟩
    · obtain ⟨hordered, hservices⟩ := services_add h.ordered hu
      rw [hhandler.1]
      refine ⟨?_, hordered⟩
      rw [hservices, h.services, Option.some_inj.mp (hstatus.symm.trans hhandler.2)]
      split_ifs <;> rfl

/-- In every run in which names are told apart by their lengths and each death notification is for
the handle of its record alone, each lookup is answered with the handle of the latest successful
registration of its name, unless that handle was reported dead. -/
theorem registry_faithful (es : List Event) (hu : Along step Undisturbed .init es) :
    Along step Answers .init es :=
  hu.imp_invariant (fun _ _ h => h.answers) holds_step holds_init

/-- A request about a name of three units, with an object after it. -/
def requestTxn (code : U32) (name : List U16) (ptr : U32) : Txn where
  target := svcmgr_handle
  code := code
  sender_euid := 0#32
  data_size := 92#32
  offs_size := 4#32
  data := fun i =>
    (bytes 0#32 ++ bytes 26#32 ++ units (svcmgr_id ++ [0#16, 0#16]) ++ bytes 3#32 ++
      units (name ++ [0#16]) ++ binderObject BINDER_TYPE_HANDLE 0#32 ptr 0#32).getD i 0#8
  offs := fun _ => 76#32

def request (code : U32) (name : List U16) (ptr : U32) : Event :=
  .transact (requestTxn code name ptr) (fun _ => 0#8) (fun _ => 0#32) true

/-- "nfc" and "sip". -/
def nfc : List U16 := [0x6e#16, 0x66#16, 0x63#16]
def sip : List U16 := [0x73#16, 0x69#16, 0x70#16]

/-- One name, registered, looked up, overridden and lost. -/
def oneName : List Event :=
  [request SVC_MGR_ADD_SERVICE nfc 7#32, request SVC_MGR_GET_SERVICE nfc 0#32,
    request SVC_MGR_ADD_SERVICE nfc 8#32, .dead 8#32 0, request SVC_MGR_CHECK_SERVICE nfc 0#32]

theorem registry_faithful_oneName :
    ((run step .init oneName).map fun s => (s.services nfc, s.manager.svclist)) =
        some (none, [{ id := 0, ptr := 0#32, name := nfc }]) ∧
      Along step Answers .init oneName :=
  ⟨by decide +kernel, registry_faithful oneName (by decide +kernel)⟩

/-- A lookup of another name of the same length finds the service. -/
theorem sameLength_confused :
    ¬ Along step Answers .init
      [request SVC_MGR_ADD_SERVICE nfc 7#32, request SVC_MGR_GET_SERVICE sip 0#32] := by
  have hrun : ((step .init (request SVC_MGR_ADD_SERVICE nfc 7#32)).map fun s =>
      (s.services sip, (s.manager.svcmgr_handler (requestTxn SVC_MGR_GET_SERVICE sip 0#32)
        (emptyReply (fun _ => 0#8) fun _ => 0#32) true).reply.data)) = some (none, 16) := by
    decide +kernel
  have hname : (requestTxn SVC_MGR_GET_SERVICE sip 0#32).request = some (.find sip) := by
    decide +kernel
  rintro ⟨-, hrest⟩
  obtain ⟨s, hs, hpair⟩ := Option.map_eq_some_iff.mp hrun
  obtain ⟨hnone, hdata⟩ := Prod.mk.injEq .. ▸ hpair
  have hreply := congrArg BinderIo.data ((hrest s hs).1 sip hname).2
  rw [hnone] at hreply
  exact absurd (hdata.symm.trans hreply) (by decide)

end AudioFlinger.ServiceManager
