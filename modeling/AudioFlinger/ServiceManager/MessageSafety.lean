import AudioFlinger.ServiceManager.Handler

/-!
# What the service manager reads of a message

The handler reads inside the payload and off no NULL pointer, exactly when the
payload is `PayloadSafe`: the interface name it announces is there, no length
wraps when it is turned into a size, and each string ends in the payload or goes
on for as long as a log line follows it.
-/

namespace AudioFlinger.ServiceManager

open Foundation Bytes RingMemory

variable {n d : ℕ} {txn : Txn} {bio : BinderIo}

/-- All that was read, and all that was handed out, lies inside the payload. -/
def Safe (n : ℕ) (bio : BinderIo) : Prop :=
  (∀ a ∈ bio.reads, a.Inside n) ∧ ∀ a ∈ bio.lent, a.Inside n

/-- The bytes available are bytes of the payload. -/
def Room (n : ℕ) (bio : BinderIo) : Prop := bio.data + bio.data_avail.toNat ≤ n

/-- Nothing was read past yet: the cursor is at offset `d` of the payload. -/
structure Cursor (txn : Txn) (d : ℕ) (bio : BinderIo) : Prop where
  data : bio.data = d
  avail : d + bio.data_avail.toNat = txn.data_size.toNat
  mem : bio.mem = txn.data

theorem Cursor.room (h : Cursor txn d bio) : Room txn.data_size.toNat bio := by
  rw [Room, h.data, h.avail]

theorem inside_some {p size : ℕ} : Access.Inside ⟨some p, size⟩ n ↔ p + size ≤ n := by
  simp [Access.Inside]

theorem inside_none {size : ℕ} : ¬ Access.Inside ⟨none, size⟩ n := by
  rintro ⟨p, hp, -⟩
  cases hp

theorem safe_touch {ptr : Option ℕ} {size : ℕ} :
    Safe n (bio.touch ptr size) ↔ Safe n bio ∧ Access.Inside ⟨ptr, size⟩ n := by
  simp only [Safe, BinderIo.touch, List.forall_mem_append, List.forall_mem_singleton]
  tauto

theorem safe_lend {ptr : Option ℕ} {size : ℕ} :
    Safe n (bio.lend ptr size) ↔ Safe n bio ∧ ∀ p, ptr = some p → p + size ≤ n := by
  cases ptr with
  | none => simp [Safe, BinderIo.lend]
  | some p =>
    simp only [Safe, BinderIo.lend, List.forall_mem_append, Option.map_some, Option.toList_some,
      List.forall_mem_singleton, inside_some, Option.some.injEq, forall_eq']
    tauto

theorem safe_str8 {x : Option ℕ} :
    Safe n (bio.str8 x) ↔
      Safe n bio ∧ ∀ p, x = some p → p + 2 * str8Count bio.mem 127 p ≤ n := by
  cases x with
  | none => simp [BinderIo.str8]
  | some p => simp [BinderIo.str8, safe_touch, inside_some]

/-! ## Getting pointers -/

/-- What `bio_get` does to the cursor and the records. -/
theorem bio_get_keeps (size : U32) (hroom : Room n bio) :
    Room n (bio.bio_get size).2 ∧ (bio.bio_get size).2.mem = bio.mem ∧
      (bio.bio_get size).2.reads = bio.reads ∧ (bio.bio_get size).2.lent = bio.lent ∧
        ∀ p, (bio.bio_get size).1 = some p → p + (pad4 size).toNat ≤ n := by
  unfold Room at *
  rcases Nat.lt_or_ge bio.data_avail.toNat (pad4 size).toNat with h | h
  · rw [bio_get_short h]
    refine ⟨?_, rfl, rfl, rfl, fun p hp => by cases hp⟩
    exact (Nat.le_add_right _ _).trans hroom
  · rw [bio_get_fits h]
    refine ⟨?_, rfl, rfl, rfl, ?_⟩
    · dsimp only
      rw [BitVec.toNat_sub_of_le (BitVec.le_def.mpr h)]
      omega
    · rintro p ⟨⟩
      omega

theorem Cursor.bio_get (h : Cursor txn d bio) {size : U32}
    (hfits : d + (pad4 size).toNat ≤ txn.data_size.toNat) :
    (bio.bio_get size).1 = some d ∧ Cursor txn (d + (pad4 size).toNat) (bio.bio_get size).2 := by
  have havail := h.avail
  have hle : (pad4 size).toNat ≤ bio.data_avail.toNat := by omega
  rw [bio_get_fits hle]
  refine ⟨by rw [h.data], by rw [h.data], ?_, h.mem⟩
  dsimp only
  rw [BitVec.toNat_sub_of_le (BitVec.le_def.mpr hle)]
  omega

theorem Cursor.bio_get_none (h : Cursor txn d bio) {size : U32}
    (hshort : txn.data_size.toNat < d + (pad4 size).toNat) : (bio.bio_get size).1 = none := by
  have havail := h.avail
  rw [bio_get_short (by omega)]

/-- Reading a word is safe. -/
theorem get_uint32_keeps (hroom : Room n bio) :
    Room n bio.bio_get_uint32.2 ∧ bio.bio_get_uint32.2.mem = bio.mem ∧
      (Safe n bio.bio_get_uint32.2 ↔ Safe n bio) := by
  obtain ⟨hroom', hmem, hreads, hlent, hptr⟩ := bio_get_keeps 4#32 hroom
  unfold BinderIo.bio_get_uint32
  revert hroom' hmem hreads hlent hptr
  rcases bio.bio_get 4#32 with ⟨_ | p, bio'⟩ <;> dsimp only <;> intro hroom' hmem hreads hlent hptr
  · refine ⟨hroom', hmem, ?_⟩
    rw [Safe, Safe, hreads, hlent]
  · refine ⟨hroom', hmem, ?_⟩
    have hin : p + 4 ≤ n := hptr p rfl
    rw [safe_touch, safe_lend, inside_some, Safe, Safe, hreads, hlent]
    simp [hin]

/-- Getting a string is safe exactly when its pointer is followed by the whole string. -/
theorem get_string16_keeps (hroom : Room n bio) :
    Room n bio.bio_get_string16.2.2 ∧ bio.bio_get_string16.2.2.mem = bio.mem ∧
      (Safe n bio.bio_get_string16.2.2 ↔ Safe n bio ∧ ∀ p, bio.bio_get_string16.1 = some p →
        p + (bio.bio_get_string16.2.1.toNat + 1) * 2 ≤ n) := by
  obtain ⟨hroom', hmem, hsafe⟩ := get_uint32_keeps hroom
  obtain ⟨hroom'', hmem', hreads, hlent, -⟩ :=
    bio_get_keeps ((bio.bio_get_uint32.1 + 1#32) * 2#32) hroom'
  refine ⟨hroom'', hmem'.trans hmem, ?_⟩
  rw [← hsafe]
  unfold BinderIo.bio_get_string16
  dsimp only
  rw [safe_lend, Safe, Safe, hreads, hlent]

/-- Getting an object, and looking at it, is safe. -/
theorem get_ref_keeps (hroom : Room n bio) : Safe n bio.bio_get_ref.2 ↔ Safe n bio := by
  obtain ⟨-, -, hreads, hlent, hptr⟩ := bio_get_keeps objectSize hroom
  unfold BinderIo.bio_get_ref BinderIo.bio_get_obj
  dsimp only
  split_ifs
  · revert hreads hlent hptr
    rcases bio.bio_get objectSize with ⟨_ | p, bio'⟩ <;> dsimp only <;> intro hreads hlent hptr
    · rw [safe_lend, Safe, Safe, hreads, hlent]
      simp
    · have hin : p + 16 ≤ n := hptr p rfl
      have hlend : ∀ q, some p = some q → q + objectSize.toNat ≤ n := by
        rintro q ⟨⟩
        exact hin
      have hkept : Safe n bio' ↔ Safe n bio := by rw [Safe, Safe, hreads, hlent]
      split_ifs
      · rw [safe_touch, safe_touch, safe_lend, inside_some, inside_some, hkept]
        exact ⟨fun h => h.1.1.1, fun h => ⟨⟨⟨h, hlend⟩, by omega⟩, by omega⟩⟩
      · rw [safe_touch, safe_lend, inside_some, hkept]
        exact ⟨fun h => h.1.1, fun h => ⟨⟨h, hlend⟩, by omega⟩⟩
  · exact Iff.rfl

/-! ## The handler -/

/-- The string at the cursor is inside the payload, all of it and what a log line reads. -/
def SafeString (n : ℕ) (msg : BinderIo) : Prop :=
  ∀ p, msg.bio_get_string16.1 = some p →
    p + (msg.bio_get_string16.2.1.toNat + 1) * 2 ≤ n ∧ p + 2 * str8Count msg.mem 127 p ≤ n

theorem safe_find (m : Manager) (msg : BinderIo) (s : Option ℕ) (len : U32) :
    Safe n (m.do_find_service msg s len).2 ↔
      Safe n msg ∧ ∀ p, s = some p → p + 2 * str8Count msg.mem 127 p ≤ n := by
  have hmem : (msg.str8 s).mem = msg.mem := by cases s <;> rfl
  have htwice : Safe n ((msg.str8 s).str8 s) ↔
      Safe n msg ∧ ∀ p, s = some p → p + 2 * str8Count msg.mem 127 p ≤ n := by
    rw [safe_str8, safe_str8, hmem]
    tauto
  rw [← htwice]
  unfold Manager.do_find_service
  dsimp only
  rcases m.find_svc len with _ | si <;> rfl

theorem safe_add (m : Manager) (msg : BinderIo) {s : Option ℕ} {len ptr : U32} (mallocOk : Bool)
    (hnull : s = none → ptr = 0#32)
    (hstr : Safe n msg → ∀ p, s = some p → p + (len.toNat + 1) * 2 ≤ n) :
    Safe n (m.do_add_service msg s len ptr mallocOk).2.2 ↔
      Safe n msg ∧ ∀ p, s = some p → p + 2 * str8Count msg.mem 127 p ≤ n := by
  have hmem : (msg.str8 s).mem = msg.mem := by cases s <;> rfl
  have hone : Safe n (msg.str8 s) ↔
      Safe n msg ∧ ∀ p, s = some p → p + 2 * str8Count msg.mem 127 p ≤ n := safe_str8
  have htwice : Safe n ((msg.str8 s).str8 s) ↔ Safe n (msg.str8 s) := by
    rw [safe_str8, hmem, hone]
    tauto
  rw [← hone]
  unfold Manager.do_add_service
  dsimp only
  by_cases href : ptr = 0#32 ∨ len = 0#32 ∨ 127#32 < len
  · rw [if_pos href]
  · rw [if_neg href]
    rcases m.find_svc len with _ | si <;> dsimp only
    · cases mallocOk with
      | true =>
        rcases s with _ | p
        · exact absurd (Or.inl (hnull rfl)) href
        · rw [if_pos rfl, safe_touch, htwice, inside_some]
          exact and_iff_left_of_imp fun h => hstr (hone.mp h).1 p rfl
      | false => exact htwice
    · exact htwice

theorem safe_dispatch (m : Manager) (code : U32) {msg : BinderIo} (reply : BinderIo)
    (mallocOk : Bool) (hroom : Room n msg) :
    Safe n (m.dispatch code msg reply mallocOk).msg ↔
      Safe n msg ∧ (code = SVC_MGR_GET_SERVICE ∨ code = SVC_MGR_CHECK_SERVICE ∨
        code = SVC_MGR_ADD_SERVICE → SafeString n msg) := by
  obtain ⟨hroom', hmem, hstring⟩ := get_string16_keeps hroom
  unfold Manager.dispatch
  have hfirst : (Safe n msg ∧ ∀ p, msg.bio_get_string16.1 = some p →
      p + (msg.bio_get_string16.2.1.toNat + 1) * 2 ≤ n) ∧
        (∀ p, msg.bio_get_string16.1 = some p → p + 2 * str8Count msg.mem 127 p ≤ n) ↔
      Safe n msg ∧ SafeString n msg := by
    rw [and_assoc, ← forall_and]
    simp only [← imp_and]
    rfl
  split_ifs with hget hadd hlist
  · rw [safe_find, hstring, hmem, hfirst]
    have hcode : code = SVC_MGR_GET_SERVICE ∨ code = SVC_MGR_CHECK_SERVICE ∨
        code = SVC_MGR_ADD_SERVICE := by tauto
    simp only [hcode, true_imp_iff]
  · have href := get_ref_keeps hroom'
    have hsafe := safe_add m msg.bio_get_string16.2.2.bio_get_ref.2
      mallocOk get_ref_of_string_none
      fun h => (hstring.mp (href.mp h)).2
    simp only [hadd, or_true, true_imp_iff]
    rw [← hfirst, ← hstring, ← href, ← hmem, ← get_ref_mem, ← hsafe]
    rcases m.do_add_service _ _ _ _ mallocOk with ⟨_ | _, m', msg'⟩ <;> rfl
  · obtain ⟨-, -, hword⟩ := get_uint32_keeps hroom
    have hcode : ¬ (code = SVC_MGR_GET_SERVICE ∨ code = SVC_MGR_CHECK_SERVICE ∨
        code = SVC_MGR_ADD_SERVICE) := by tauto
    simp only [hcode, false_imp_iff, and_true]
    split <;> exact hword
  · have hcode : ¬ (code = SVC_MGR_GET_SERVICE ∨ code = SVC_MGR_CHECK_SERVICE ∨
        code = SVC_MGR_ADD_SERVICE) := by tauto
    simp only [hcode, false_imp_iff, and_true]

theorem safe_header {msg : BinderIo} (hroom : Room n msg) :
    Room n msg.rpcHeader.2 ∧ (Safe n msg.rpcHeader.2 ↔
      Safe n msg ∧ SafeString n msg.bio_get_uint32.2 ∧
        (msg.bio_get_uint32.2.bio_get_string16.2.1 = BitVec.ofNat 32 svcmgr_id.length →
          msg.bio_get_uint32.2.bio_get_string16.1 ≠ none)) := by
  obtain ⟨hroom₁, hmem₁, hword⟩ := get_uint32_keeps hroom
  obtain ⟨hroom₂, hmem₂, hstring⟩ := get_string16_keeps hroom₁
  rw [← hword]
  unfold BinderIo.rpcHeader SafeString
  dsimp only
  revert hroom₂ hmem₂ hstring
  rcases msg.bio_get_uint32.2.bio_get_string16 with ⟨s, len, msg'⟩
  dsimp only
  intro hroom₂ hmem₂ hstring
  have hmem : (msg'.str8 s).mem = msg'.mem := by cases s <;> rfl
  have hroom₃ : Room n (msg'.str8 s) := by cases s <;> exact hroom₂
  have hlog : Safe n (msg'.str8 s) ↔ Safe n msg.bio_get_uint32.2 ∧ ∀ p, s = some p →
      p + (len.toNat + 1) * 2 ≤ n ∧ p + 2 * str8Count msg.bio_get_uint32.2.mem 127 p ≤ n := by
    rw [safe_str8, hstring, hmem₂, and_assoc, ← forall_and]
    simp only [← imp_and]
  have hagain : Safe n ((msg'.str8 s).str8 s) ↔ Safe n (msg'.str8 s) := by
    rw [safe_str8, hmem]
    exact and_iff_left_of_imp fun h => (safe_str8.mp h).2
  by_cases hlen : len = BitVec.ofNat 32 svcmgr_id.length
  · rw [if_neg (not_not_intro hlen)]
    rcases s with _ | p
    · refine ⟨hroom₃, ?_⟩
      dsimp only
      rw [safe_touch]
      simp [inside_none, hlen]
    · have hname : Safe n ((msg'.str8 (some p)).touch (some p) (2 * svcmgr_id.length)) ↔
          Safe n (msg'.str8 (some p)) := by
        rw [safe_touch, inside_some]
        refine and_iff_left_of_imp fun h => ?_
        have hin := ((hlog.mp h).2 p rfl).1
        have hid : (BitVec.ofNat 32 svcmgr_id.length).toNat = svcmgr_id.length := by decide
        rw [hlen, hid] at hin
        omega
      dsimp only
      split_ifs
      · refine ⟨hroom₃, ?_⟩
        rw [hname, hlog]
        simp
      · refine ⟨hroom₃, ?_⟩
        rw [safe_str8]
        refine (and_iff_left_of_imp fun h => (safe_str8.mp (hname.mp h)).2).trans ?_
        rw [hname, hlog]
        simp
  · rw [if_pos hlen]
    refine ⟨by cases s <;> exact hroom₂, ?_⟩
    rw [hagain, hlog]
    simp [hlen]

/-! ## The payload -/

/-- The word at offset `d`, `0` when it is not there. -/
def Txn.wordAt (txn : Txn) (d : ℕ) : U32 :=
  if d + 4 ≤ txn.data_size.toNat then load 32 txn.data d else 0#32

/-- The units of a string whose length is at offset `d` are there, going by their size modulo
the word. -/
def Txn.Holds (txn : Txn) (d : ℕ) : Prop :=
  d + 4 + (pad4 ((txn.wordAt d + 1#32) * 2#32)).toNat ≤ txn.data_size.toNat

instance (txn : Txn) (d : ℕ) : Decidable (txn.Holds d) := inferInstanceAs (Decidable (_ ≤ _))

/-- A string that is there has a size that does not wrap, and a log line stops in the payload. -/
def Txn.StringSafe (txn : Txn) (d : ℕ) : Prop :=
  txn.Holds d → (txn.wordAt d).toNat * 2 + 5 < 2 ^ 32 ∧
    d + 4 + 2 * str8Count txn.data 127 (d + 4) ≤ txn.data_size.toNat

/-- The payload starts with a word and the name of the interface. -/
def Txn.HasHeader (txn : Txn) : Prop :=
  txn.wordAt 4 = BitVec.ofNat 32 svcmgr_id.length ∧ Stores txn.data 8 (units svcmgr_id)

structure Txn.PayloadSafe (txn : Txn) : Prop where
  announced : txn.wordAt 4 = BitVec.ofNat 32 svcmgr_id.length → txn.Holds 4
  interface : txn.StringSafe 4
  name : txn.HasHeader → txn.code = SVC_MGR_GET_SERVICE ∨ txn.code = SVC_MGR_CHECK_SERVICE ∨
    txn.code = SVC_MGR_ADD_SERVICE → txn.StringSafe 64

theorem Cursor.get_uint32 (h : Cursor txn d bio) :
    bio.bio_get_uint32.1 = txn.wordAt d ∧
      if d + 4 ≤ txn.data_size.toNat then Cursor txn (d + 4) bio.bio_get_uint32.2
      else bio.bio_get_uint32.2.data_avail = 0#32 := by
  have hpad : (pad4 4#32).toNat = 4 := by decide
  have havail := h.avail
  unfold BinderIo.bio_get_uint32 Txn.wordAt
  split_ifs with hfits
  · have hle : (pad4 4#32).toNat ≤ bio.data_avail.toNat := by omega
    rw [bio_get_fits hle]
    refine ⟨by rw [h.mem, h.data], congrArg₂ (· + ·) h.data hpad, ?_, h.mem⟩
    change _ + (bio.data_avail - pad4 4#32).toNat = _
    rw [BitVec.toNat_sub_of_le (BitVec.le_def.mpr hle)]
    omega
  · rw [bio_get_short (by omega)]
    exact ⟨rfl, rfl⟩

/-- Nothing more is found in a payload that is used up. -/
theorem get_string16_exhausted (h : bio.data_avail = 0#32) :
    bio.bio_get_string16.2.1 = 0#32 ∧ bio.bio_get_string16.1 = none := by
  have hzero : bio.data_avail.toNat = 0 := by
    rw [h]
    rfl
  have hshort : bio.bio_get 4#32 = (none, { bio.overflow with data_avail := 0#32 }) :=
    bio_get_short (by rw [hzero]; decide)
  have hword : bio.bio_get_uint32 = (0#32, { bio.overflow with data_avail := 0#32 }) := by
    rw [BinderIo.bio_get_uint32, hshort]
  have hbody : (0#32).toNat < (pad4 ((0#32 + 1#32) * 2#32)).toNat := by decide
  unfold BinderIo.bio_get_string16
  rw [hword]
  dsimp only
  rw [bio_get_short hbody]
  exact ⟨rfl, rfl⟩

/-- The string at offset `d`. -/
theorem Cursor.get_string16 (h : Cursor txn d bio) :
    bio.bio_get_string16.2.1 = txn.wordAt d ∧
      bio.bio_get_string16.1 = (if txn.Holds d then some (d + 4) else none) ∧
        (txn.Holds d → Cursor txn (d + 4 + (pad4 ((txn.wordAt d + 1#32) * 2#32)).toNat)
          bio.bio_get_string16.2.2) := by
  obtain ⟨hword, hnext⟩ := h.get_uint32
  by_cases hfits : d + 4 ≤ txn.data_size.toNat
  · rw [if_pos hfits] at hnext
    unfold BinderIo.bio_get_string16
    dsimp only
    rw [hword]
    refine ⟨rfl, ?_⟩
    by_cases hholds : txn.Holds d
    · obtain ⟨hptr, hcursor⟩ := hnext.bio_get hholds
      rw [if_pos hholds]
      exact ⟨hptr, fun _ => ⟨hcursor.data, hcursor.avail, hcursor.mem⟩⟩
    · rw [if_neg hholds]
      exact ⟨hnext.bio_get_none (Nat.not_le.mp hholds), fun h => absurd h hholds⟩
  · rw [if_neg hfits] at hnext
    have hholds : ¬ txn.Holds d := by
      unfold Txn.Holds
      lia
    have hzero : txn.wordAt d = 0#32 := if_neg hfits
    have hbody : bio.bio_get_uint32.2.data_avail.toNat <
        (pad4 ((0#32 + 1#32) * 2#32)).toNat := by
      rw [hnext]
      decide
    unfold BinderIo.bio_get_string16
    dsimp only
    rw [hword, hzero, bio_get_short hbody, if_neg hholds]
    exact ⟨rfl, rfl, fun h => absurd h hholds⟩

theorem cursor_from_txn (txn : Txn) : Cursor txn 0 (bio_init_from_txn txn) where
  data := rfl
  avail := Nat.zero_add _
  mem := rfl

/-- What the header finds: the name at offset `4`. -/
theorem header_string (txn : Txn) :
    (bio_init_from_txn txn).bio_get_uint32.2.bio_get_string16.2.1 = txn.wordAt 4 ∧
      (bio_init_from_txn txn).bio_get_uint32.2.bio_get_string16.1 =
        (if txn.Holds 4 then some 8 else none) ∧
      (txn.Holds 4 → Cursor txn (8 + (pad4 ((txn.wordAt 4 + 1#32) * 2#32)).toNat)
        (bio_init_from_txn txn).bio_get_uint32.2.bio_get_string16.2.2) := by
  obtain ⟨-, hnext⟩ := (cursor_from_txn txn).get_uint32
  by_cases hfits : 0 + 4 ≤ txn.data_size.toNat
  · rw [if_pos hfits] at hnext
    exact hnext.get_string16
  · rw [if_neg hfits] at hnext
    have hzero : txn.wordAt 4 = 0#32 := if_neg (by omega)
    have hholds : ¬ txn.Holds 4 := by
      unfold Txn.Holds
      omega
    obtain ⟨hlen, hptr⟩ := get_string16_exhausted hnext
    rw [hlen, hptr, hzero, if_neg hholds]
    exact ⟨rfl, rfl, fun h => absurd h hholds⟩

/-- The padded size of the units and the terminator, when it does not wrap. -/
theorem body_toNat {len : U32} (h : len.toNat * 2 + 5 < 2 ^ 32) :
    (pad4 ((len + 1#32) * 2#32)).toNat = ((len.toNat + 1) * 2 + 3) / 4 * 4 := by
  have hsize : ((len + 1#32) * 2#32).toNat = (len.toNat + 1) * 2 := by
    rw [BitVec.toNat_mul, BitVec.toNat_add]
    simp only [BitVec.toNat_ofNat]
    omega
  rw [pad4_toNat (by omega), hsize]

/-- A string that is there fits in the payload exactly when its size does not wrap. -/
theorem Txn.Holds.fits_iff (h : txn.Holds d) :
    d + 4 + ((txn.wordAt d).toNat + 1) * 2 ≤ txn.data_size.toNat ↔
      (txn.wordAt d).toNat * 2 + 5 < 2 ^ 32 := by
  have hsize := txn.data_size.isLt
  unfold Txn.Holds at h
  constructor
  · intro hfits
    omega
  · intro hwrap
    rw [body_toNat hwrap] at h
    omega

theorem safeString_iff (hlen : bio.bio_get_string16.2.1 = txn.wordAt d)
    (hptr : bio.bio_get_string16.1 = if txn.Holds d then some (d + 4) else none)
    (hmem : bio.mem = txn.data) : SafeString txn.data_size.toNat bio ↔ txn.StringSafe d := by
  unfold SafeString Txn.StringSafe
  rw [hlen, hptr, hmem]
  by_cases hholds : txn.Holds d
  · rw [if_pos hholds]
    simp only [Option.some.injEq, forall_eq', hholds, true_imp_iff]
    rw [hholds.fits_iff]
  · simp [hholds]

/-- The header is accepted exactly when it is there, and then the request follows at offset
`64`. -/
theorem header_accepted_iff (txn : Txn) :
    ((bio_init_from_txn txn).rpcHeader.1 = some true ↔ txn.HasHeader ∧ txn.Holds 4) ∧
      ((bio_init_from_txn txn).rpcHeader.1 = some true →
        Cursor txn 64 (bio_init_from_txn txn).rpcHeader.2) := by
  obtain ⟨hlen, hptr, hcursor⟩ := header_string txn
  obtain ⟨hroom, hmem₁, -⟩ := get_uint32_keeps (cursor_from_txn txn).room
  obtain ⟨-, hmem₂, -⟩ := get_string16_keeps hroom
  unfold BinderIo.rpcHeader Txn.HasHeader
  dsimp only
  revert hlen hptr hcursor hmem₂
  rcases (bio_init_from_txn txn).bio_get_uint32.2.bio_get_string16 with ⟨s, len, msg⟩
  dsimp only
  rintro rfl rfl hcursor hmem₂
  have hmem : msg.mem = txn.data := hmem₂.trans hmem₁
  by_cases hlen : txn.wordAt 4 = BitVec.ofNat 32 svcmgr_id.length
  · rw [if_neg (not_not_intro hlen)]
    by_cases hholds : txn.Holds 4
    · have hbody : 8 + (pad4 ((txn.wordAt 4 + 1#32) * 2#32)).toNat = 64 := by
        rw [hlen]
        decide
      have hnext := hcursor hholds
      rw [hbody] at hnext
      rw [if_pos hholds]
      change ((if Stores msg.mem 8 _ then _ else _ : Option Bool × BinderIo).1 = _ ↔ _) ∧
        ((if Stores msg.mem 8 _ then _ else _ : Option Bool × BinderIo).1 = _ →
          Cursor txn 64 (if Stores msg.mem 8 _ then _ else _ : Option Bool × BinderIo).2)
      rw [hmem]
      split_ifs with hid
      · exact ⟨by simp [hlen, hid, hholds], fun _ => ⟨hnext.data, hnext.avail, hnext.mem⟩⟩
      · simp [hid]
    · simp [hholds]
  · rw [if_pos hlen]
    simp [hlen]

/-- When the header is not accepted, nothing else of the payload is looked at. -/
theorem refused_iff {p : Prop} (hrefused : ¬ (txn.HasHeader ∧ txn.Holds 4))
    (h : p ↔ txn.StringSafe 4 ∧
      (txn.wordAt 4 = BitVec.ofNat 32 svcmgr_id.length → txn.Holds 4)) :
    p ↔ txn.PayloadSafe := by
  rw [h]
  exact ⟨fun ⟨hfirst, hholds⟩ =>
      ⟨hholds, hfirst, fun hhas => absurd ⟨hhas, hholds hhas.1⟩ hrefused⟩,
    fun hsafe => ⟨hsafe.interface, hsafe.announced⟩⟩

/-- Every pointer is followed by the bytes its user goes on to use, every read is inside the
payload and none is off a NULL pointer, exactly when the payload is safe. -/
theorem svcmgr_reads_inside_iff (m : Manager) (txn : Txn) (reply : BinderIo) (mallocOk : Bool) :
    (∀ a ∈ (m.svcmgr_handler txn reply mallocOk).msg.reads ++
        (m.svcmgr_handler txn reply mallocOk).msg.lent, a.Inside txn.data_size.toNat) ↔
      (txn.target = svcmgr_handle → txn.PayloadSafe) := by
  rw [List.forall_mem_append]
  change Safe txn.data_size.toNat (m.svcmgr_handler txn reply mallocOk).msg ↔ _
  have hstart : Safe txn.data_size.toNat (bio_init_from_txn txn) := by
    simp [Safe, bio_init_from_txn]
  by_cases htarget : txn.target = svcmgr_handle
  · obtain ⟨hlen, hptr, -⟩ := header_string txn
    obtain ⟨-, hmem, -⟩ := get_uint32_keeps (cursor_from_txn txn).room
    obtain ⟨hroom, hheader⟩ := safe_header (cursor_from_txn txn).room
    obtain ⟨haccepted, hcursor⟩ := header_accepted_iff txn
    have hannounced : (if txn.Holds 4 then some 8 else none) ≠ (none : Option ℕ) ↔ txn.Holds 4 := by
      split_ifs with hholds <;> simp [hholds]
    rw [safeString_iff hlen hptr hmem, hlen, hptr, hannounced] at hheader
    simp only [Manager.svcmgr_handler, htarget, ne_eq, not_true_eq_false, if_false, true_imp_iff]
    rcases hresult : (bio_init_from_txn txn).rpcHeader with ⟨_ | _ | _, msg⟩
    all_goals rw [hresult] at haccepted hheader hroom hcursor
    · exact refused_iff (by simpa using haccepted) (hheader.trans (and_iff_right hstart))
    · exact refused_iff (by simpa using haccepted) (hheader.trans (and_iff_right hstart))
    · have hnext := hcursor rfl
      obtain ⟨hlen', hptr', -⟩ := hnext.get_string16
      have hpresent := haccepted.mp rfl
      dsimp only
      rw [safe_dispatch m txn.code reply mallocOk hroom, hheader,
        safeString_iff hlen' hptr' hnext.mem]
      exact ⟨fun ⟨⟨_, hfirst, hholds⟩, hsecond⟩ => ⟨hholds, hfirst, fun _ => hsecond⟩,
        fun h => ⟨⟨hstart, h.interface, h.announced⟩, h.name hpresent.1⟩⟩
  · simp only [Manager.svcmgr_handler, htarget, ne_eq, not_false_eq_true, if_true, false_imp_iff,
      iff_true]
    exact hstart

/-- A payload that ends after the length of the interface name. -/
def lengthOnly (len : Byte → Byte) : Txn where
  target := svcmgr_handle
  code := SVC_MGR_CHECK_SERVICE
  sender_euid := 0#32
  data_size := 8#32
  offs_size := 0#32
  data := fun i => if i = 4 then len 26#8 else len 0#8
  offs := fun _ => 0#32

def lengthOnlyHandled (len : Byte → Byte) : Handled :=
  Manager.init.svcmgr_handler (lengthOnly len) (emptyReply (fun _ => 0#8) fun _ => 0#32) true

/-- With the expected length, the name is compared through a NULL pointer. With every byte `0xff`
the size wraps to `0`, and the pointer handed out has no byte of the payload behind it. -/
theorem lengthOnly_reads_outside :
    ((lengthOnlyHandled id).status = none ∧ ⟨none, 52⟩ ∈ (lengthOnlyHandled id).msg.reads ∧
      ¬ ∀ a ∈ (lengthOnlyHandled id).msg.reads ++ (lengthOnlyHandled id).msg.lent, a.Inside 8) ∧
    ⟨some 8, 2 ^ 33⟩ ∈ (lengthOnlyHandled fun _ => 0xff#8).msg.lent ∧
      ¬ ∀ a ∈ (lengthOnlyHandled fun _ => 0xff#8).msg.reads ++
        (lengthOnlyHandled fun _ => 0xff#8).msg.lent, a.Inside 8 := by
  decide +kernel

end AudioFlinger.ServiceManager
