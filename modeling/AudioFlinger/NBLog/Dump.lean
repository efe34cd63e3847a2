import AudioFlinger.NBLog.Decode

/-!
# What a dump reports

A dump prints the last whole entries since the dump before it, whatever the
indices and wherever its copy begins. The bytes that it does not print are
reported lost, except when the copy begins exactly with an entry.
-/

namespace AudioFlinger.NBLog

open Foundation Counter RingMemory Machine Nbaio Pieces

/-- The bytes of entries in the ring. -/
def bytes (es : List Entry) : ℕ := (es.flatMap Entry.encode).length

/-- The bytes a dump copies; what is new is known modulo `2 ^ 32`. -/
def Config.window (cfg : Config) (pending : List Entry) : ℕ :=
  min (bytes pending % 2 ^ 32) cfg.mSize.toNat

/-! ## The two copies -/

section Slots

variable (cfg : Config) {index need : U32} {p : ℕ}

theorem Config.mSize_bounds : 258 ≤ cfg.mSize.toNat ∧ cfg.mSize.toNat ≤ 2 ^ 31 :=
  ⟨cfg.large, (cfg.pow.bounds (by decide)).2⟩

theorem Config.toNat_parts (h : Counts index p) (hneed : need.toNat ≤ cfg.mSize.toNat) :
    (cfg.part1 index need).toNat = min need.toNat (cfg.mSize.toNat - p % cfg.mSize.toNat) ∧
      (cfg.part2 index need).toNat = need.toNat - (cfg.mSize.toNat - p % cfg.mSize.toNat) ∧
      cfg.part1 index need + cfg.part2 index need = need := by
  have hbounds := cfg.mSize_bounds
  have hmask := cfg.pow.toNat_mask (by decide) h
  have hlt := Nat.mod_lt p (show 0 < cfg.mSize.toNat by omega)
  have hroom : (cfg.mSize - (index &&& (cfg.mSize - 1#32))).toNat =
      cfg.mSize.toNat - p % cfg.mSize.toNat := by
    rw [BitVec.toNat_sub, hmask]
    omega
  have hone : (cfg.part1 index need).toNat =
      min need.toNat (cfg.mSize.toNat - p % cfg.mSize.toNat) := by
    unfold Config.part1
    simp only [BitVec.lt_def, hroom]
    split_ifs <;> omega
  have htwo : (cfg.part2 index need).toNat =
      need.toNat - (cfg.mSize.toNat - p % cfg.mSize.toNat) := by
    unfold Config.part2
    simp only [← BitVec.toNat_inj, BitVec.toNat_add, hmask, hone]
    split_ifs
    · rw [BitVec.toNat_sub, hone]
      omega
    · rw [BitVec.toNat_zero]
      omega
  refine ⟨hone, htwo, BitVec.eq_of_toNat_eq ?_⟩
  rw [BitVec.toNat_add, hone, htwo]
  omega

/-- The two loops of the writer are one write to the ring. -/
theorem Config.blit_parts (h : Counts index p) (mem : ℕ → Byte) {e : Entry}
    (hneed : need.toNat = e.mLength + 3) (hfit : need.toNat ≤ cfg.mSize.toNat) :
    blit (blit mem (index &&& (cfg.mSize - 1#32)).toNat
        ((List.range (cfg.part1 index need).toNat).map e.readAt)) 0
        ((List.range (cfg.part2 index need).toNat).map fun i =>
          e.readAt ((cfg.part1 index need).toNat + i)) =
      ringWrite cfg.mSize.toNat mem p e.encode := by
  obtain ⟨hone, htwo, -⟩ := cfg.toNat_parts h hfit
  have hlen := e.encode_length
  have hfirst := e.map_readAt (p := 0) (n := (cfg.part1 index need).toNat) (by lia)
  simp only [Nat.zero_add] at hfirst
  rw [cfg.pow.toNat_mask (by decide) h, hfirst, e.map_readAt (by lia), List.drop_zero]
  exact ringWrite_parts (by lia) (by lia)

/-- The two copies of the reader are one read of the ring. -/
theorem Config.slice_parts (h : Counts index p) (mem : ℕ → Byte)
    (hfit : need.toNat ≤ cfg.mSize.toNat) :
    slice mem (index &&& (cfg.mSize - 1#32)).toNat (cfg.part1 index need).toNat ++
        slice mem 0 (cfg.part2 index need).toNat =
      ringSlice cfg.mSize.toNat mem p need.toNat := by
  have hbounds := cfg.mSize_bounds
  obtain ⟨hone, htwo, -⟩ := cfg.toNat_parts h hfit
  rw [← ringRead_eq (by omega) hfit, ringRead, cfg.pow.toNat_mask (by decide) h, hone, htwo]

end Slots

/-! ## The log and the ring -/

/-- The ring is the end of the log, and the indices count modulo `2 ^ 32`. -/
structure State.Rel (cfg : Config) (b : ℕ) (s : State)
    (q : RingLog Byte b cfg.mSize.toNat) : Prop where
  mem : q.mem = s.mBuffer
  log : q.log = s.logged.flatMap Entry.encode
  rear : Counts s.mRear (b + bytes s.logged)
  shared : s.mSharedRear = s.mRear
  front : ∃ before, s.logged = before ++ s.pending ∧ Counts s.mFront (b + bytes before)

theorem rel_start (cfg : Config) (index : U32) (mem : ℕ → Byte) :
    (State.start index mem).Rel cfg index.toNat
      (RingLog.start index.toNat (by have := cfg.large; omega) mem) where
  mem := rfl
  log := rfl
  rear := counts_toNat index
  shared := rfl
  front := ⟨[], rfl, counts_toNat index⟩

theorem bytes_append (es fs : List Entry) : bytes (es ++ fs) = bytes es + bytes fs := by
  simp [bytes]

section Step

variable {cfg : Config} {b : ℕ} {s : State} {q : RingLog Byte b cfg.mSize.toNat}

theorem State.Rel.log_entry (h : s.Rel cfg b q) (e : Entry) :
    ∃ q', (s.log cfg e).Rel cfg b q' := by
  unfold State.log
  split_ifs
  · have hbounds := cfg.mSize_bounds
    have hle : e.mLength ≤ 255 := e.length_le
    have hneed : (BitVec.ofNat 32 (e.mLength + 3)).toNat = e.mLength + 3 := by
      rw [BitVec.toNat_ofNat]
      omega
    have hfit : (BitVec.ofNat 32 (e.mLength + 3)).toNat ≤ cfg.mSize.toNat := by omega
    have hbytes : bytes [e] = e.mLength + 3 := by simp [bytes]
    obtain ⟨-, -, hsum⟩ := cfg.toNat_parts h.rear hfit
    have hblit := cfg.blit_parts h.rear s.mBuffer hneed hfit
    have hrear : Counts (s.mRear + BitVec.ofNat 32 (e.mLength + 3))
        (b + bytes (s.logged ++ [e])) := by
      refine (h.rear.step _).congr ?_
      rw [hneed, bytes_append, hbytes, Nat.add_assoc]
    have hencode : e.encode.length ≤ cfg.mSize.toNat := by
      rw [e.encode_length]
      omega
    refine ⟨q.append e.encode hencode, ?_⟩
    dsimp only
    rw [hblit, hsum]
    exact
      { mem := by
          rw [RingLog.append_mem, h.mem, h.log]
          rfl
        log := by
          rw [RingLog.append_log, h.log]
          simp
        rear := hrear
        shared := rfl
        front := by
          obtain ⟨before, hlogged, hfront⟩ := h.front
          refine ⟨before, ?_, hfront⟩
          dsimp only
          rw [hlogged, List.append_assoc] }
  · exact ⟨q, h⟩

/-- The last `n` bytes of the ring are the last whole entries behind the rest of one that is cut
off. -/
theorem State.Rel.copy (h : s.Rel cfg b q) {n : ℕ} (hfit : n ≤ cfg.mSize.toNat)
    (hpending : n ≤ bytes s.pending) :
    ∃ broken, ringSlice cfg.mSize.toNat s.mBuffer (b + (bytes s.logged - n)) n =
        broken ++ (lastWhole Entry.encode n s.pending).flatMap Entry.encode ∧
      (broken = [] ∨
        ∃ e : Entry, broken <:+ e.encode ∧ broken.length < e.encode.length) := by
  obtain ⟨before, hlogged, -⟩ := h.front
  have htotal : bytes s.logged = bytes before + bytes s.pending := by
    rw [hlogged, bytes_append]
  have hlen : q.log.length = bytes s.logged := by rw [h.log, bytes]
  have hread := q.ringSlice_log (p := bytes s.logged - n) (n := n) (by omega) (by omega)
  obtain ⟨broken, hdrop, hbroken⟩ := drop_flatMap Entry.encode n s.pending
  refine ⟨broken, ?_, hbroken.imp_right fun ⟨e, _, hcut⟩ => ⟨e, hcut⟩⟩
  have hstart : bytes s.logged - n = bytes before + (bytes s.pending - n) := by omega
  have hsplit : q.log = before.flatMap Entry.encode ++ s.pending.flatMap Entry.encode := by
    rw [h.log, hlogged, List.flatMap_append]
  rw [← h.mem, hread, ← hdrop, List.take_of_length_le (by rw [List.length_drop]; omega), hstart,
    hsplit]
  exact List.drop_length_add_append _

/-- What a dump reports of the entries since the dump before it. -/
structure Report.Of (cfg : Config) (pending : List Entry) (report : Report) : Prop where
  records : report.items.flatMap Item.records =
    (lastWhole Entry.encode (cfg.window pending) pending).map Entry.record
  lost : (report.lost.getD 0#32).toNat =
    if bytes (lastWhole Entry.encode (cfg.window pending) pending) = cfg.window pending then 0
    else bytes pending % 2 ^ 32 - bytes (lastWhole Entry.encode (cfg.window pending) pending)

theorem Report.Of.nothing {pending : List Entry} (hwindow : cfg.window pending = 0) :
    Report.Of cfg pending { lost := none, maxSec := -1, items := [] } := by
  have hnone : lastWhole Entry.encode 0 pending = [] := by
    have hfits := (isLastWhole_lastWhole Entry.encode 0 pending).fits
    have hle := length_le_bytes (lastWhole Entry.encode 0 pending)
    exact List.length_eq_zero_iff.mp (by omega)
  constructor <;>
  · rw [hwindow, hnone]
    rfl

theorem State.Rel.toNat_avail (h : s.Rel cfg b q) :
    (s.mSharedRear - s.mFront).toNat = bytes s.pending % 2 ^ 32 := by
  obtain ⟨before, hlogged, hfront⟩ := h.front
  have htotal : bytes s.logged = bytes before + bytes s.pending := by
    rw [hlogged, bytes_append]
  have hdiff := h.rear.sub hfront (by omega)
  rw [h.shared, hdiff.toNat]
  congr 1
  omega

/-- The copy begins `n` bytes before the end of the log. -/
theorem State.Rel.copy_start (h : s.Rel cfg b q) {n lost : U32}
    (hsum : lost + n = s.mSharedRear - s.mFront) (hn : n.toNat ≤ bytes s.pending) :
    s.mFront + lost = s.mRear - n ∧
      Counts (s.mFront + lost) (b + (bytes s.logged - n.toNat)) := by
  have hstart : s.mFront + lost = s.mRear - n := by
    rw [h.shared] at hsum
    bv_omega
  obtain ⟨before, hlogged, -⟩ := h.front
  have htotal : bytes s.logged = bytes before + bytes s.pending := by
    rw [hlogged, bytes_append]
  refine ⟨hstart, ?_⟩
  rw [hstart]
  exact (h.rear.sub (counts_toNat n) (by omega)).congr (by omega)

/-- After a dump nothing is pending. -/
theorem State.Rel.dumped (h : s.Rel cfg b q) {front : U32} (hfront : front = s.mRear) :
    { s with mFront := front, pending := [] }.Rel cfg b q :=
  { h with front := ⟨s.logged, (List.append_nil _).symm, hfront ▸ h.rear⟩ }

theorem State.Rel.dump (h : s.Rel cfg b q) :
    ∃ report s', s.dump cfg = some (report, s') ∧ report.Of cfg s.pending ∧ s'.Rel cfg b q := by
  have havail := h.toNat_avail
  unfold State.dump
  by_cases hzero : s.mSharedRear - s.mFront = 0#32
  · have hwindow : cfg.window s.pending = 0 := by
      rw [Config.window, ← havail, hzero]
      exact Nat.zero_min _
    have hsame : s.mFront = s.mRear := by
      rw [h.shared] at hzero
      bv_omega
    exact ⟨_, _, by rw [if_pos hzero], .nothing hwindow, h.dumped hsame⟩
  · rw [if_neg hzero]
    dsimp only
    generalize hn : (if cfg.mSize < s.mSharedRear - s.mFront then cfg.mSize
      else s.mSharedRear - s.mFront) = n
    generalize hlost : (if cfg.mSize < s.mSharedRear - s.mFront then
      s.mSharedRear - s.mFront - cfg.mSize else 0#32) = lost
    have hwindow : n.toNat = cfg.window s.pending := by
      rw [← hn, Config.window, ← havail]
      simp only [BitVec.lt_def]
      split_ifs <;> omega
    have hlostNat : lost.toNat = bytes s.pending % 2 ^ 32 - n.toNat := by
      rw [← hn, ← hlost, ← havail]
      split_ifs with hlap
      · rw [BitVec.toNat_sub_of_le (BitVec.le_of_lt hlap)]
      · rw [Nat.sub_self, BitVec.toNat_zero]
    have hle : n.toNat ≤ bytes s.pending % 2 ^ 32 ∧ n.toNat ≤ cfg.mSize.toNat := by
      rw [hwindow, Config.window]
      omega
    have hmod : bytes s.pending % 2 ^ 32 ≤ bytes s.pending := Nat.mod_le _ _
    have htotal : lost + n = s.mSharedRear - s.mFront := by
      apply BitVec.eq_of_toNat_eq
      rw [BitVec.toNat_add, hlostNat, havail]
      omega
    obtain ⟨hstart, hcount⟩ := h.copy_start htotal (by omega)
    obtain ⟨-, -, hsum⟩ := cfg.toNat_parts hcount hle.2
    obtain ⟨broken, hcopy, hbroken⟩ := h.copy hle.2 (by omega)
    generalize hkept : lastWhole Entry.encode n.toNat s.pending = kept at hcopy
    have hlen := congrArg List.length hcopy
    rw [ringSlice_length] at hlen
    have hbytes : n.toNat = broken.length + bytes kept := by
      rw [hlen, List.length_append, bytes]
    obtain ⟨maxSec, hback⟩ := scanBack_whole _ broken kept hbroken [] (List.append_nil _).symm _
      (Nat.lt_succ_self _) (-1)
    have hshort : kept.length < (broken ++ kept.flatMap Entry.encode).length + 1 := by
      have hle := length_le_bytes kept
      rw [List.length_append]
      omega
    obtain ⟨items, hforward, hrecords⟩ := scanForward_whole (broken ++ kept.flatMap Entry.encode)
      kept broken.length List.drop_left _ hshort
    rw [cfg.slice_parts hcount _ hle.2, hcopy, hlen, hback, Option.bind_some]
    dsimp only
    rw [hforward, hsum, hstart, BitVec.sub_add_cancel]
    refine ⟨_, _, rfl, { records := ?_, lost := ?_ }, ?_⟩
    · rw [← hwindow, hkept]
      exact hrecords
    · have hn := n.isLt
      rw [← hwindow, hkept]
      by_cases hcut : 0 < broken.length
      · rw [if_pos hcut, if_neg (by omega), Option.getD_some, BitVec.toNat_add, hlostNat,
          BitVec.toNat_ofNat]
        omega
      · rw [if_neg hcut, if_pos (by omega)]
        rfl
    · exact h.dumped rfl

end Step

theorem rel_step {cfg : Config} {b : ℕ} (s : State) (e : LogEvent) (s' : State)
    (hstep : logStep cfg s e = some s') (h : ∃ q, s.Rel cfg b q) : ∃ q, s'.Rel cfg b q := by
  obtain ⟨q, h⟩ := h
  cases e with
  | log event data =>
    simp only [logStep, Option.dite_none_right_eq_some] at hstep
    obtain ⟨_, hstep⟩ := hstep
    split_ifs at hstep with haccept
    · cases hstep
      exact h.log_entry _
    · cases hstep
      exact ⟨q, h⟩
  | setEnabled enabled =>
    cases hstep
    exact ⟨q, { h with }⟩
  | dump =>
    obtain ⟨report, s'', hdump, -, hrel⟩ := h.dump
    simp only [logStep, hdump, Option.map_some] at hstep
    cases hstep
    exact ⟨q, hrel⟩

theorem rel_run {cfg : Config} {index : U32} {mem : ℕ → Byte} {es : List LogEvent} {s : State}
    (hrun : run (logStep cfg) (State.start index mem) es = some s) :
    ∃ q, s.Rel cfg index.toNat q :=
  run_invariant rel_step hrun ⟨_, rel_start cfg index mem⟩

/-! ## When the report is right -/

/-- The dump prints the longest run of last entries that fits in the ring and reports the other
bytes lost. -/
def Report.Faithful (cfg : Config) (pending : List Entry) (report : Report) : Prop :=
  ∃ kept, IsLastWhole Entry.encode cfg.mSize.toNat pending kept ∧
    report.items.flatMap Item.records = kept.map Entry.record ∧
    (report.lost.getD 0#32).toNat = bytes pending - bytes kept

/-- The index has not gone round, and a copy of the whole ring does not begin exactly with an
entry. -/
def Reportable (cfg : Config) (pending : List Entry) : Prop :=
  bytes pending < 2 ^ 32 ∧
    (cfg.mSize.toNat < bytes pending → ∀ kept, kept <:+ pending → bytes kept ≠ cfg.mSize.toNat)

/-- The records tell the bytes of their entries. -/
theorem bytes_eq_of_records {es fs : List Entry}
    (h : es.map Entry.record = fs.map Entry.record) : bytes es = bytes fs := by
  have hbytes (gs : List Entry) :
      bytes gs = ((gs.map Entry.record).map fun r => r.2.length + 3).sum := by
    rw [bytes, List.length_flatMap, List.map_map]
    congr 1
    apply List.map_congr_left
    intro e _
    exact e.encode_length
  rw [hbytes, hbytes, h]

theorem Report.Of.faithful_iff {cfg : Config} {pending : List Entry} {report : Report}
    (h : report.Of cfg pending) : report.Faithful cfg pending ↔ Reportable cfg pending := by
  have hbounds := cfg.mSize_bounds
  have hlost := h.lost
  have hrecords := h.records
  have hwindow : cfg.window pending = min (bytes pending % 2 ^ 32) cfg.mSize.toNat := rfl
  have hspec := isLastWhole_lastWhole Entry.encode (cfg.window pending) pending
  generalize lastWhole Entry.encode (cfg.window pending) pending = kept at *
  have hfits : bytes kept ≤ cfg.window pending := hspec.fits
  constructor
  · rintro ⟨kept', hspec', hrecords', hlost'⟩
    have hsame : bytes kept' = bytes kept := bytes_eq_of_records (hrecords' ▸ hrecords)
    have hfits' : bytes kept' ≤ cfg.mSize.toNat := hspec'.fits
    have hle : bytes kept' ≤ bytes pending := length_flatMap_le Entry.encode hspec'.suffix
    rw [hlost', hsame] at hlost
    have hround : bytes pending < 2 ^ 32 := by
      split_ifs at hlost <;> lia
    refine ⟨hround, fun hlap other hsuffix hexact => ?_⟩
    have hsub := hspec'.longest other hsuffix (Nat.le_of_eq hexact)
    have hle := length_flatMap_le Entry.encode hsub
    change bytes other ≤ bytes kept' at hle
    rw [if_pos (by lia)] at hlost
    lia
  · rintro ⟨hround, hexact⟩
    have hmod : bytes pending % 2 ^ 32 = bytes pending := Nat.mod_eq_of_lt hround
    by_cases hlap : cfg.mSize.toNat < bytes pending
    · have hring : cfg.window pending = cfg.mSize.toNat := by lia
      rw [hring] at hspec hlost
      rw [if_neg (hexact hlap kept hspec.suffix), hmod] at hlost
      exact ⟨kept, hspec, hrecords, hlost⟩
    · -- everything that is new fits
      have hall : cfg.window pending = bytes pending := by lia
      have hkept : pending <:+ kept :=
        hspec.longest pending List.suffix_rfl (Nat.le_of_eq hall.symm)
      have hsame : kept = pending :=
        hspec.suffix.eq_of_length_le hkept.length_le
      subst hsame
      rw [if_pos hall.symm] at hlost
      have hring : bytes kept ≤ cfg.mSize.toNat := Nat.le_of_not_lt hlap
      exact ⟨kept, ⟨List.suffix_rfl, hring, fun other hsuffix _ => hsuffix⟩, hrecords, by lia⟩

/-- After every run a dump stays inside its copy, and its report is right exactly when the
pending entries are reportable. -/
theorem dump_faithful_iff (cfg : Config) (index : U32) (mem : ℕ → Byte) (es : List LogEvent)
    (s : State) (hrun : run (logStep cfg) (State.start index mem) es = some s) :
    ∃ report s', s.dump cfg = some (report, s') ∧
      (report.Faithful cfg s.pending ↔ Reportable cfg s.pending) := by
  obtain ⟨q, h⟩ := rel_run hrun
  obtain ⟨report, s', hdump, hreport, -⟩ := h.dump
  exact ⟨report, s', hdump, hreport.faithful_iff⟩

def ring512 : Config where
  mSize := 512#32
  pow := ⟨9, by decide, rfl⟩
  large := by decide

/-- Strings of 3, 258 and 254 bytes, of which the last two fill a ring of 512 exactly. -/
def exactLap : List LogEvent :=
  [.log .EVENT_STRING [], .log .EVENT_STRING (List.replicate 255 0x61#8),
    .log .EVENT_STRING (List.replicate 251 0x62#8)]

theorem dump_faithful_iff_oneString : ∃ s report s',
    run (logStep ring512) (State.start 0xFFFFFFFF#32 (fun _ => 0#8))
        [.log .EVENT_STRING [0x61#8, 0x62#8], .dump, .log .EVENT_STRING [0x63#8]] = some s ∧
      s.dump ring512 = some (report, s') ∧ report.Faithful ring512 s.pending := by
  obtain ⟨s, hs⟩ : ∃ s, run (logStep ring512) (State.start 0xFFFFFFFF#32 (fun _ => 0#8))
      [.log .EVENT_STRING [0x61#8, 0x62#8], .dump, .log .EVENT_STRING [0x63#8]] = some s :=
    ⟨_, rfl⟩
  have hpending : (run (logStep ring512) (State.start 0xFFFFFFFF#32 (fun _ => 0#8))
      [.log .EVENT_STRING [0x61#8, 0x62#8], .dump, .log .EVENT_STRING [0x63#8]]).map
        (fun s => bytes s.pending) = some 4 := by decide +kernel
  rw [hs, Option.map_some, Option.some_inj] at hpending
  obtain ⟨report, s', hdump, hiff⟩ :=
    dump_faithful_iff ring512 0xFFFFFFFF#32 (fun _ => 0#8) _ s hs
  have hsize : ring512.mSize.toNat = 512 := rfl
  exact ⟨s, report, s', hs, hdump, hiff.mpr ⟨by lia, fun hlap => by lia⟩⟩

/-- The first string is lost and no loss is reported. -/
theorem exactLap_unreported : ∃ s report s',
    run (logStep ring512) (State.start 0#32 (fun _ => 0#8)) exactLap = some s ∧
      s.dump ring512 = some (report, s') ∧ report.lost = none ∧
      ¬ report.Faithful ring512 s.pending := by
  obtain ⟨s, hs⟩ : ∃ s, run (logStep ring512) (State.start 0#32 (fun _ => 0#8)) exactLap =
    some s := Option.isSome_iff_exists.mp (by decide +kernel)
  have hpending : (run (logStep ring512) (State.start 0#32 (fun _ => 0#8)) exactLap).map
      (fun s => (bytes s.pending, bytes s.pending.tail)) = some (515, 512) := by decide +kernel
  have hlost : (run (logStep ring512) (State.start 0#32 (fun _ => 0#8)) exactLap).map
      (fun s => (s.dump ring512).map fun r => r.1.lost) = some (some none) := by decide +kernel
  rw [hs, Option.map_some, Option.some_inj] at hpending hlost
  rw [Prod.mk.injEq] at hpending
  obtain ⟨q, h⟩ := rel_run hs
  obtain ⟨report, s', hdump, hreport, -⟩ := h.dump
  rw [hdump, Option.map_some, Option.some_inj] at hlost
  refine ⟨s, report, s', hs, hdump, hlost, fun hfaithful => ?_⟩
  obtain ⟨-, hexact⟩ := hreport.faithful_iff.mp hfaithful
  have hsize : ring512.mSize.toNat = 512 := rfl
  exact hexact (by omega) s.pending.tail (List.tail_suffix _) (by omega)

end AudioFlinger.NBLog
