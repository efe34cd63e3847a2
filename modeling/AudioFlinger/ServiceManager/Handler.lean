import AudioFlinger.ServiceManager.BinderIo

/-!
# The registry of the service manager and its request handler

A `svcinfo` record is never freed; its identity is the number of records there
were before it. `sent` collects the commands that the manager writes to the
driver. Log lines print the names they are given, so they read them.
-/

namespace AudioFlinger.ServiceManager

open Foundation Bytes RingMemory

/-- `BINDER_SERVICE_MANAGER`, which `main` takes as its handle. -/
def svcmgr_handle : U32 := 0#32

def SVC_MGR_GET_SERVICE : U32 := 1#32
def SVC_MGR_CHECK_SERVICE : U32 := 2#32
def SVC_MGR_ADD_SERVICE : U32 := 3#32
def SVC_MGR_LIST_SERVICES : U32 := 4#32

/-- "android.os.IServiceManager". -/
def svcmgr_id : List U16 :=
  [0x61#16, 0x6e#16, 0x64#16, 0x72#16, 0x6f#16, 0x69#16, 0x64#16, 0x2e#16, 0x6f#16, 0x73#16,
    0x2e#16, 0x49#16, 0x53#16, 0x65#16, 0x72#16, 0x76#16, 0x69#16, 0x63#16, 0x65#16, 0x4d#16,
    0x61#16, 0x6e#16, 0x61#16, 0x67#16, 0x65#16, 0x72#16]

/-- A registered service. `ptr` is its handle, `0` after it died. -/
structure SvcInfo where
  id : ℕ
  ptr : U32
  name : List U16
  deriving DecidableEq, Repr

/-- Commands to the driver. A death notification is requested for a record. -/
inductive Command
  | acquire (ptr : U32)
  | release (ptr : U32)
  | linkToDeath (ptr : U32) (id : ℕ)
  deriving DecidableEq, Repr

structure Manager where
  svclist : List SvcInfo
  sent : List Command
  deriving DecidableEq, Repr

def Manager.init : Manager := { svclist := [], sent := [] }

/-- `str8` reads units up to a NUL, and no more than 128. -/
def str8Count (mem : ℕ → Byte) : ℕ → ℕ → ℕ
  | 0, _ => 1
  | max + 1, x => if load 16 mem x = 0#16 then 1 else str8Count mem max (x + 2) + 1

/-- What `str8` reads to print a name. -/
def BinderIo.str8 (msg : BinderIo) (x : Option ℕ) : BinderIo :=
  match x with
  | some p => msg.touch (some p) (2 * str8Count msg.mem 127 p)
  | none => msg

/-! ## The registry -/

/-- The names are not compared, only their lengths. -/
def Manager.find_svc (m : Manager) (len : U32) : Option SvcInfo :=
  m.svclist.find? fun si => BitVec.ofNat 32 si.name.length = len

/-- `svcinfo_death`, of the record `id`. -/
def Manager.svcinfo_death (m : Manager) (id : ℕ) : Manager where
  svclist := m.svclist.map fun si => if si.id = id then { si with ptr := 0#32 } else si
  sent := m.sent ++ (m.svclist.filter fun si => si.id = id ∧ si.ptr ≠ 0#32).map fun si =>
    .release si.ptr

def Manager.do_find_service (m : Manager) (msg : BinderIo) (s : Option ℕ) (len : U32) :
    U32 × BinderIo :=
  let msg := (msg.str8 s).str8 s
  match m.find_svc len with
  | some si => (si.ptr, msg)
  | none => (0#32, msg)

/-- Point a record at a new handle. -/
def Manager.setPtr (m : Manager) (id : ℕ) (ptr : U32) : Manager :=
  { m with svclist := m.svclist.map fun si => if si.id = id then { si with ptr := ptr } else si }

/-- `binder_acquire` and `binder_link_to_death`. -/
def Manager.link (m : Manager) (ptr : U32) (id : ℕ) : Manager :=
  { m with sent := m.sent ++ [.acquire ptr, .linkToDeath ptr id] }

/-- `do_add_service`; the status is `true` for `0` and `false` for `-1`. `mallocOk` says whether
there is memory for a record. -/
def Manager.do_add_service (m : Manager) (msg : BinderIo) (s : Option ℕ) (len ptr : U32)
    (mallocOk : Bool) : Bool × Manager × BinderIo :=
  let msg := msg.str8 s
  if ptr = 0#32 ∨ len = 0#32 ∨ 127#32 < len then (false, m, msg)
  else
    let msg := msg.str8 s
    match m.find_svc len with
    | some si =>
      let m := if si.ptr ≠ 0#32 then m.svcinfo_death si.id else m
      (true, (m.setPtr si.id ptr).link ptr si.id, msg)
    | none =>
      if mallocOk then
        let id := m.svclist.length
        let name := match s with
          | some p => loadUnits msg.mem p len.toNat
          | none => []
        let m := { m with svclist := { id := id, ptr := ptr, name := name } :: m.svclist }
        (true, m.link ptr id, msg.touch s ((len.toNat + 1) * 2))
      else (false, m, msg)

/-! ## The handler -/

/-- What the handler leaves behind. The status is `none` when it dies on a NULL pointer. -/
structure Handled where
  manager : Manager
  msg : BinderIo
  reply : BinderIo
  status : Option ℤ

/-- The RPC header: the strict mode policy and the interface name. The answer is `none` when the
comparison dies on a NULL pointer. -/
def BinderIo.rpcHeader (msg : BinderIo) : Option Bool × BinderIo :=
  let (_strict_policy, msg) := msg.bio_get_uint32
  let (s, len, msg) := msg.bio_get_string16
  let msg := msg.str8 s
  if len ≠ BitVec.ofNat 32 svcmgr_id.length then (some false, msg.str8 s)
  else
    let msg := msg.touch s (2 * svcmgr_id.length)
    match s with
    | none => (none, msg)
    | some p =>
      if Stores msg.mem p (units svcmgr_id) then (some true, msg) else (some false, msg.str8 s)

/-- The reply buffer that `binder_parse` sets up: 256 bytes, the first of them for the offsets of
four objects. -/
def emptyReply (mem : ℕ → Byte) (table : ℕ → U32) : BinderIo := bio_init mem table 256#32 4#32

/-- The reply of a lookup. -/
def putService (reply : BinderIo) (ptr : U32) : BinderIo :=
  if ptr = 0#32 then reply.bio_put_uint32 0#32 else reply.bio_put_ref ptr

/-- `svcmgr_handler` after the header. -/
def Manager.dispatch (m : Manager) (code : U32) (msg reply : BinderIo) (mallocOk : Bool) :
    Handled :=
  if code = SVC_MGR_GET_SERVICE ∨ code = SVC_MGR_CHECK_SERVICE then
    let (s, len, msg) := msg.bio_get_string16
    let (ptr, msg) := m.do_find_service msg s len
    { manager := m, msg := msg, reply := putService reply ptr, status := some 0 }
  else if code = SVC_MGR_ADD_SERVICE then
    let (s, len, msg) := msg.bio_get_string16
    let (ptr, msg) := msg.bio_get_ref
    match m.do_add_service msg s len ptr mallocOk with
    | (false, m, msg) => { manager := m, msg := msg, reply := reply, status := some (-1) }
    | (true, m, msg) =>
      { manager := m, msg := msg, reply := reply.bio_put_uint32 0#32, status := some 0 }
  else if code = SVC_MGR_LIST_SERVICES then
    let (n, msg) := msg.bio_get_uint32
    match m.svclist.drop n.toNat with
    | si :: _ =>
      { manager := m
        msg := msg
        reply := reply.bio_put_string16 (some (si.name.takeWhile (· ≠ 0#16)))
        status := some 0 }
    | [] => { manager := m, msg := msg, reply := reply, status := some (-1) }
  else { manager := m, msg := msg, reply := reply, status := some (-1) }

def Manager.svcmgr_handler (m : Manager) (txn : Txn) (reply : BinderIo) (mallocOk : Bool) :
    Handled :=
  let msg := bio_init_from_txn txn
  if txn.target ≠ svcmgr_handle then
    { manager := m, msg := msg, reply := reply, status := some (-1) }
  else
    match msg.rpcHeader with
    | (none, msg) => { manager := m, msg := msg, reply := reply, status := none }
    | (some false, msg) => { manager := m, msg := msg, reply := reply, status := some (-1) }
    | (some true, msg) => m.dispatch txn.code msg reply mallocOk

end AudioFlinger.ServiceManager
