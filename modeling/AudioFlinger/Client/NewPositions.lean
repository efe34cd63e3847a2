import AudioFlinger.Foundation.Counter

/-!
# Position notifications

The callback thread of a track tells its client of every multiple of the update
period that the server has passed. The position and the next multiple are
counters of 32 bits, each of which wraps on its own.
-/

namespace AudioFlinger.Client

open Foundation Counter

inductive Status
  | NO_ERROR
  | INVALID_OPERATION
  deriving DecidableEq, Repr

structure AudioTrack where
  /-- A callback is registered. -/
  mCbf : Bool
  mFlushed : Bool
  /-- `mCblk->server`. -/
  server : U32
  mUpdatePeriod : U32
  mNewPosition : U32
  deriving DecidableEq, Repr

def AudioTrack.getPosition (t : AudioTrack) : U32 := if t.mFlushed then 0#32 else t.server

def AudioTrack.setPositionUpdatePeriod (t : AudioTrack) (updatePeriod : U32) :
    AudioTrack × Status :=
  if t.mCbf = false then (t, .INVALID_OPERATION)
  else
    ({ t with mNewPosition := t.getPosition + updatePeriod, mUpdatePeriod := updatePeriod },
      .NO_ERROR)

/-- The loop over `EVENT_NEW_POS`: the positions of its callbacks, and the next one. It is `none`
if `fuel` rounds do not end it. -/
def newPositions (server mUpdatePeriod : U32) : ℕ → U32 → Option (List U32 × U32)
  | 0, _ => none
  | fuel + 1, mNewPosition =>
    if mNewPosition ≤ server then
      (newPositions server mUpdatePeriod fuel (mNewPosition + mUpdatePeriod)).map
        fun (callbacks, next) => (mNewPosition :: callbacks, next)
    else some ([], mNewPosition)

/-- A call that observes the server at `server`. -/
def AudioTrack.processAudioBuffer (fuel : ℕ) (t : AudioTrack) (server : U32) :
    Option (List U32 × AudioTrack) :=
  if 0#32 < t.mUpdatePeriod then
    (newPositions server t.mUpdatePeriod fuel t.mNewPosition).map
      fun (callbacks, next) => (callbacks, { t with server := server, mNewPosition := next })
  else some ([], { t with server := server })

/-! ## What is to hold -/

/-- The multiples of `period` after `passed` frames, up to `passed'`. -/
def multiples (period passed passed' : ℕ) : List ℕ :=
  (List.range' (passed / period + 1) (passed' / period - passed / period)).map (· * period)

/-- One callback for each multiple passed, and the next one within a period. -/
structure Delivered (start : U32) (passed passed' : ℕ) (callbacks : List U32) (t : AudioTrack) :
    Prop where
  callbacks : callbacks = (multiples t.mUpdatePeriod.toNat passed passed').map
    fun n => start + BitVec.ofNat 32 n
  ahead : 0 < (t.mNewPosition - t.server).toNat
  within : (t.mNewPosition - t.server).toNat ≤ t.mUpdatePeriod.toNat

/-- Every call of a run ends and delivers what is due. Before it, the server has passed `passed`
frames since it was at `start`, and it advances by the frames of the list. -/
def Notified (start : U32) : List U32 → AudioTrack → ℕ → Prop
  | [], _, _ => True
  | advance :: advances, t, passed => ∃ fuel callbacks t',
      t.processAudioBuffer fuel (t.server + advance) = some (callbacks, t') ∧
      Delivered start passed (passed + advance.toNat) callbacks t' ∧
      Notified start advances t' (passed + advance.toNat)

/-- The multiple after `passed` frames, the server after `passed'` and the multiple after that are
in one turn of the counter: all three or none of them have passed a multiple of `2 ^ 32`. -/
def SameTurn (start period passed passed' : ℕ) : Prop :=
  (start + (passed / period + 1) * period) / 2 ^ 32 = (start + passed') / 2 ^ 32 ∧
    (start + (passed' / period + 1) * period) / 2 ^ 32 = (start + passed') / 2 ^ 32

instance (start period passed passed' : ℕ) : Decidable (SameTurn start period passed passed') :=
  inferInstanceAs (Decidable (_ ∧ _))

/-- Every call of a run finds the server and the multiples in one turn. -/
def InOneTurn (start period : ℕ) : List U32 → ℕ → Prop
  | [], _ => True
  | advance :: advances, passed => SameTurn start period passed (passed + advance.toNat) ∧
      InOneTurn start period advances (passed + advance.toNat)

/-! ## The loop -/

/-- The loop ends after the first `k` positions exactly when they are reached and the next one is
not. -/
theorem newPositions_eq_some_iff {server period : U32} {fuel n : ℕ} {callbacks : List U32}
    {last : U32} :
    newPositions server period fuel (BitVec.ofNat 32 n) = some (callbacks, last) ↔
      ∃ k < fuel, callbacks = (List.range' n k period.toNat).map (BitVec.ofNat 32) ∧
        last = BitVec.ofNat 32 (n + k * period.toNat) ∧
        (∀ i < k, BitVec.ofNat 32 (n + i * period.toNat) ≤ server) ∧ server < last := by
  induction fuel generalizing n callbacks with
  | zero =>
    refine iff_of_false nofun ?_
    rintro ⟨k, hk, -⟩
    exact Nat.not_lt_zero k hk
  | succ fuel ih =>
    have hnext : BitVec.ofNat 32 n + period = BitVec.ofNat 32 (n + period.toNat) := by
      rw [BitVec.ofNat_add, BitVec.ofNat_toNat, BitVec.setWidth_eq]
    have hshift (i : ℕ) : n + period.toNat + i * period.toNat = n + (i + 1) * period.toNat := by
      rw [Nat.succ_mul]
      omega
    rw [newPositions]
    split_ifs with hreached
    · rw [hnext, Option.map_eq_some_iff]
      constructor
      · rintro ⟨⟨callbacks', last'⟩, hrest, heq⟩
        obtain ⟨rfl, rfl⟩ := Prod.mk.inj heq
        obtain ⟨k, hk, rfl, rfl, hbefore, hafter⟩ := ih.mp hrest
        refine ⟨k + 1, Nat.succ_lt_succ hk, ?_, by rw [hshift], ?_, hafter⟩
        · rw [List.range'_succ, List.map_cons]
        · intro i hi
          cases i with
          | zero => simpa using hreached
          | succ i =>
            rw [← hshift]
            exact hbefore i (Nat.lt_of_succ_lt_succ hi)
      · rintro ⟨k, hk, rfl, rfl, hbefore, hafter⟩
        cases k with
        | zero =>
          rw [Nat.zero_mul, Nat.add_zero] at hafter
          exact absurd hreached (BitVec.not_le.mpr hafter)
        | succ k =>
          refine ⟨(_, _), ih.mpr ⟨k, Nat.lt_of_succ_lt_succ hk, rfl, by rw [hshift], ?_, hafter⟩, ?_⟩
          · intro i hi
            rw [hshift]
            exact hbefore (i + 1) (Nat.succ_lt_succ hi)
          · rw [List.range'_succ, List.map_cons]
    · constructor
      · rintro heq
        obtain ⟨rfl, rfl⟩ := Prod.mk.inj (Option.some.inj heq)
        refine ⟨0, Nat.succ_pos fuel, rfl, by rw [Nat.zero_mul, Nat.add_zero], nofun, ?_⟩
        exact BitVec.not_le.mp hreached
      · rintro ⟨k, -, rfl, rfl, hbefore, -⟩
        cases k with
        | zero => simp
        | succ k =>
          have hfirst := hbefore 0 (Nat.succ_pos k)
          rw [Nat.zero_mul, Nat.add_zero] at hfirst
          exact absurd hfirst hreached

theorem AudioTrack.processAudioBuffer_eq {t : AudioTrack} (hperiod : 0 < t.mUpdatePeriod.toNat)
    (fuel : ℕ) (server : U32) :
    t.processAudioBuffer fuel server =
      (newPositions server t.mUpdatePeriod fuel t.mNewPosition).map fun (callbacks, next) =>
        (callbacks, { t with server := server, mNewPosition := next }) := by
  have hset : 0#32 < t.mUpdatePeriod := BitVec.lt_def.mpr hperiod
  rw [AudioTrack.processAudioBuffer, if_pos hset]

/-- At the last position of all, the loop does not end. -/
theorem newPositions_allOnes (period : U32) (fuel : ℕ) (next : U32) :
    newPositions (BitVec.allOnes 32) period fuel next = none := by
  induction fuel generalizing next with
  | zero => rfl
  | succ fuel ih =>
    have hreached : next ≤ BitVec.allOnes 32 := BitVec.le_def.mpr (Nat.le_sub_one_of_lt next.isLt)
    rw [newPositions, if_pos hreached, ih]
    rfl

/-! ## One call -/

theorem multiples_eq_range' (period passed passed' : ℕ) :
    multiples period passed passed' = List.range' ((passed / period + 1) * period)
      (passed' / period - passed / period) period := by
  apply List.ext_getElem
  · simp [multiples]
  · intro i _ _
    simp only [multiples, List.getElem_map, List.getElem_range']
    ring

/-- The callbacks due, as the loop counts them. -/
theorem callbacks_eq (start : U32) (period passed passed' : ℕ) :
    (multiples period passed passed').map (fun n => start + BitVec.ofNat 32 n) =
      (List.range' (start.toNat + (passed / period + 1) * period)
        (passed' / period - passed / period) period).map (BitVec.ofNat 32) := by
  rw [multiples_eq_range', ← List.map_add_range', List.map_map]
  apply List.map_congr_left
  intro n _
  rw [Function.comp_apply, BitVec.ofNat_add, BitVec.ofNat_toNat, BitVec.setWidth_eq]

/-- Between calls, the next position is the multiple after the frames passed. -/
structure Watching (start : U32) (period : ℕ) (passed : ℕ) (t : AudioTrack) : Prop where
  updatePeriod : t.mUpdatePeriod.toNat = period
  server : Counts t.server (start.toNat + passed)
  next : Counts t.mNewPosition (start.toNat + (passed / period + 1) * period)

/-- The multiples that frames `passed` and `passed'` lie between. -/
theorem multiples_bounds {period passed passed' : ℕ} (hperiod : 0 < period)
    (hle : passed ≤ passed') :
    passed < (passed / period + 1) * period ∧ passed' < (passed' / period + 1) * period ∧
      passed' / period * period ≤ passed' ∧ passed / period ≤ passed' / period :=
  ⟨Nat.lt_mul_of_div_lt (Nat.lt_succ_self _) hperiod,
    Nat.lt_mul_of_div_lt (Nat.lt_succ_self _) hperiod, Nat.div_mul_le_self _ _,
    Nat.div_le_div_right hle⟩

section Call

variable {start : U32} {period passed : ℕ} {t t' : AudioTrack} {advance : U32}

/-- The loop stops at the multiple after the server exactly when they are all in one turn. -/
theorem reached_iff {server : U32} (hperiod : 0 < period) (hlt : period < 2 ^ 32)
    (hserver : Counts server (start.toNat + (passed + advance.toNat))) :
    ((∀ i < (passed + advance.toNat) / period - passed / period,
        BitVec.ofNat 32 (start.toNat + (passed / period + 1) * period + i * period) ≤ server) ∧
      server < BitVec.ofNat 32
        (start.toNat + ((passed + advance.toNat) / period + 1) * period)) ↔
    SameTurn start.toNat period passed (passed + advance.toNat) := by
  have hadvance := advance.isLt
  obtain ⟨hbefore, hafter, hlast, hmono⟩ :=
    multiples_bounds hperiod (Nat.le_add_right passed advance.toNat)
  have hsucc := Nat.succ_mul ((passed + advance.toNat) / period) period
  rw [Nat.succ_eq_add_one] at hsucc
  have hend := hserver.lt_iff (counts_ofNat (start.toNat +
    ((passed + advance.toNat) / period + 1) * period)) (by omega) (by omega)
  rw [SameTurn, hend.trans eq_comm]
  -- a multiple that is passed is less than a turn behind the server
  have hpassed (i : ℕ) (hi : i < (passed + advance.toNat) / period - passed / period) :
      start.toNat + (passed / period + 1) * period + i * period ≤
        start.toNat + (passed + advance.toNat) := by
    have hle := Nat.mul_le_mul_right period
      (show passed / period + 1 + i ≤ (passed + advance.toNat) / period by omega)
    rw [Nat.add_mul] at hle
    omega
  have htest (i : ℕ) (hi : i < (passed + advance.toNat) / period - passed / period) :=
    (counts_ofNat (start.toNat + (passed / period + 1) * period + i * period)).le_iff hserver
      (hpassed i hi) (by omega)
  refine and_congr_left fun hturn => ⟨fun hall => ?_, fun hfirst i hi => ?_⟩
  · rcases Nat.eq_zero_or_pos ((passed + advance.toNat) / period - passed / period) with
      hnone | hsome
    · have hsame : (passed + advance.toNat) / period = passed / period := by omega
      rw [← hturn, hsame]
    · have hzero := (htest 0 hsome).mp (hall 0 hsome)
      rwa [Nat.zero_mul, Nat.add_zero] at hzero
  · refine (htest i hi).mpr (le_antisymm (Nat.div_le_div_right (hpassed i hi)) ?_)
    rw [← hfirst]
    exact Nat.div_le_div_right (Nat.le_add_right _ _)

/-- The multiple at which the loop stops. -/
theorem next_eq (hperiod : 0 < period) :
    start.toNat + (passed / period + 1) * period +
        ((passed + advance.toNat) / period - passed / period) * period =
      start.toNat + ((passed + advance.toNat) / period + 1) * period := by
  obtain ⟨-, -, -, hmono⟩ := multiples_bounds hperiod (Nat.le_add_right passed advance.toNat)
  rw [Nat.add_assoc, ← Nat.add_mul]
  congr 2
  omega

/-- The next position is within a period of the server. -/
theorem Watching.ahead (h : Watching start period passed t) (hperiod : 0 < period) :
    0 < (t.mNewPosition - t.server).toNat ∧
      (t.mNewPosition - t.server).toNat ≤ t.mUpdatePeriod.toNat := by
  obtain ⟨rfl, hserver, hnext⟩ := h
  have hlt := t.mUpdatePeriod.isLt
  obtain ⟨hafter, -, hlast, -⟩ := multiples_bounds hperiod (le_refl passed)
  have hsucc := Nat.succ_mul (passed / t.mUpdatePeriod.toNat) t.mUpdatePeriod.toNat
  rw [Nat.succ_eq_add_one] at hsucc
  rw [hnext.toNat_sub hserver (by omega) (by omega)]
  omega

theorem Watching.call (h : Watching start period passed t) (hperiod : 0 < period)
    (hturn : SameTurn start.toNat period passed (passed + advance.toNat)) :
    ∃ fuel callbacks t', t.processAudioBuffer fuel (t.server + advance) = some (callbacks, t') ∧
      Delivered start passed (passed + advance.toNat) callbacks t' ∧
      Watching start period (passed + advance.toNat) t' := by
  obtain ⟨rfl, hserver, hnext⟩ := h
  have hserver' := (hserver.step advance).congr (Nat.add_assoc _ _ _)
  obtain ⟨hall, hlast⟩ := (reached_iff hperiod t.mUpdatePeriod.isLt hserver').mpr hturn
  rw [← next_eq hperiod] at hlast
  have hloop := newPositions_eq_some_iff.mpr ⟨_, Nat.lt_succ_self _, rfl, rfl, hall, hlast⟩
  rw [← hnext.eq, ← callbacks_eq, next_eq hperiod] at hloop
  have hwatching : Watching start t.mUpdatePeriod.toNat (passed + advance.toNat)
      { t with
        server := t.server + advance
        mNewPosition := BitVec.ofNat 32 (start.toNat +
          ((passed + advance.toNat) / t.mUpdatePeriod.toNat + 1) * t.mUpdatePeriod.toNat) } :=
    ⟨rfl, hserver', rfl⟩
  obtain ⟨hahead, hwithin⟩ := hwatching.ahead hperiod
  exact ⟨_, _, _, (AudioTrack.processAudioBuffer_eq hperiod _ _).trans
    (congrArg (Option.map _) hloop), ⟨rfl, hahead, hwithin⟩, hwatching⟩

theorem Watching.of_call (h : Watching start period passed t) (hperiod : 0 < period) {fuel : ℕ}
    {callbacks : List U32}
    (hcall : t.processAudioBuffer fuel (t.server + advance) = some (callbacks, t'))
    (hdelivered : Delivered start passed (passed + advance.toNat) callbacks t') :
    SameTurn start.toNat period passed (passed + advance.toNat) ∧
      Watching start period (passed + advance.toNat) t' := by
  obtain ⟨rfl, hserver, hnext⟩ := h
  have hserver' := (hserver.step advance).congr (Nat.add_assoc _ _ _)
  rw [AudioTrack.processAudioBuffer_eq hperiod, Option.map_eq_some_iff] at hcall
  obtain ⟨⟨callbacks', next⟩, hloop, heq⟩ := hcall
  obtain ⟨rfl, rfl⟩ := Prod.mk.inj heq
  rw [hnext.eq] at hloop
  obtain ⟨k, -, hcallbacks, rfl, hall, hlast⟩ := newPositions_eq_some_iff.mp hloop
  -- the callbacks count the multiples
  have hcount : k = (passed + advance.toNat) / t.mUpdatePeriod.toNat -
      passed / t.mUpdatePeriod.toNat := by
    have hlength := congrArg List.length (hcallbacks.symm.trans hdelivered.callbacks)
    simpa [multiples] using hlength
  subst hcount
  rw [next_eq hperiod] at hlast ⊢
  exact ⟨(reached_iff hperiod t.mUpdatePeriod.isLt hserver').mp ⟨hall, hlast⟩,
    rfl, hserver', rfl⟩

end Call

/-! ## Runs -/

theorem notified_iff {start : U32} {period : ℕ} (hperiod : 0 < period) (advances : List U32)
    {t : AudioTrack} {passed : ℕ} (h : Watching start period passed t) :
    Notified start advances t passed ↔ InOneTurn start.toNat period advances passed := by
  induction advances generalizing t passed with
  | nil => exact Iff.rfl
  | cons advance advances ih =>
    rw [Notified, InOneTurn]
    constructor
    · rintro ⟨fuel, callbacks, t', hcall, hdelivered, hrest⟩
      obtain ⟨hturn, hwatching⟩ := h.of_call hperiod hcall hdelivered
      exact ⟨hturn, (ih hwatching).mp hrest⟩
    · rintro ⟨hturn, hrest⟩
      obtain ⟨fuel, callbacks, t', hcall, hdelivered, hwatching⟩ := h.call hperiod hturn
      exact ⟨fuel, callbacks, t', hcall, hdelivered, (ih hwatching).mpr hrest⟩

theorem setPositionUpdatePeriod_watching {t t' : AudioTrack} {updatePeriod : U32}
    (hplaying : t.mFlushed = false)
    (hset : t.setPositionUpdatePeriod updatePeriod = (t', .NO_ERROR)) :
    Watching t.server updatePeriod.toNat 0 t' := by
  rw [AudioTrack.setPositionUpdatePeriod] at hset
  split_ifs at hset
  · exact Status.noConfusion (Prod.mk.inj hset).2
  obtain ⟨rfl, -⟩ := Prod.mk.inj hset
  refine ⟨rfl, (counts_toNat t.server).congr (Nat.add_zero _).symm, ?_⟩
  dsimp only
  rw [AudioTrack.getPosition, hplaying, Nat.zero_div, Nat.zero_add, Nat.one_mul]
  exact (counts_toNat t.server).step updatePeriod

/-- The calls that follow the setting of a period each end, with one callback for each multiple of
it that the server has passed, exactly when the multiples never leave the turn of the server. -/
theorem positionUpdates_iff (t t' : AudioTrack) (updatePeriod : U32)
    (hperiod : 0 < updatePeriod.toNat) (hplaying : t.mFlushed = false)
    (hset : t.setPositionUpdatePeriod updatePeriod = (t', .NO_ERROR)) (advances : List U32) :
    Notified t.server advances t' 0 ↔
      InOneTurn t.server.toNat updatePeriod.toNat advances 0 :=
  notified_iff hperiod advances (setPositionUpdatePeriod_watching hplaying hset)

theorem positionUpdates_lowPositions :
    Notified 7#32 [4#32, 0#32, 25#32] ⟨true, false, 7#32, 10#32, 17#32⟩ 0 :=
  (positionUpdates_iff ⟨true, false, 7#32, 0#32, 0#32⟩ ⟨true, false, 7#32, 10#32, 17#32⟩ 10#32
    (by decide) rfl rfl [4#32, 0#32, 25#32]).mpr
    ⟨by decide, by decide, by decide, trivial⟩

/-- With a callback for every frame, the call that observes the last position before the counter
wraps never ends. -/
theorem lastPosition_neverEnds :
    (∀ fuel, AudioTrack.processAudioBuffer fuel
      (AudioTrack.setPositionUpdatePeriod ⟨true, false, 0xFFFFFFFD#32, 0#32, 0#32⟩ 1#32).1
        (0xFFFFFFFD#32 + 2#32) = none) ∧
      ¬ Notified 0xFFFFFFFD#32 [2#32]
        (AudioTrack.setPositionUpdatePeriod ⟨true, false, 0xFFFFFFFD#32, 0#32, 0#32⟩ 1#32).1 0 := by
  have hnever (fuel : ℕ) : AudioTrack.processAudioBuffer fuel
      (AudioTrack.setPositionUpdatePeriod ⟨true, false, 0xFFFFFFFD#32, 0#32, 0#32⟩ 1#32).1
        (0xFFFFFFFD#32 + 2#32) = none := by
    have hloop := newPositions_allOnes 1#32 fuel 0xFFFFFFFE#32
    exact congrArg (Option.map _) hloop
  refine ⟨hnever, ?_⟩
  rintro ⟨fuel, callbacks, t', hcall, -⟩
  exact absurd (hcall.symm.trans (hnever fuel)) nofun

end AudioFlinger.Client
