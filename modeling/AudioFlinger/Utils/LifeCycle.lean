import AudioFlinger.Utils.RefBase
import Mathlib.Algebra.Order.BigOperators.Group.List
import Mathlib.Algebra.Order.Ring.Nat

/-!
# The life cycle of a counted object

What the counts of `RefBase` mean in the middle of operations: `mStrong` is the number of strong references,
with the initial value on top until one operation has taken it away. `incStrong` takes it away without looking,
so it must not have been taken away before by an `attemptIncStrong`.
-/

namespace AudioFlinger.Utils.RefBase.World

open Foundation

variable {s t : World} {op : Op}

/-! ## The census of the operations -/

/-- In `decStrong`, before the object is deleted. -/
@[simp]
def deleting (op : Op) : ℕ := if op.pc = .decStrong1 then 1 else 0

/-- In `decWeak`, before the `weakref_impl` is deleted; `unborn` where the object goes with it. -/
@[simp]
def freeing (op : Op) : ℕ := if op.pc = .decWeak1 ∨ op.pc = .decWeak2 then 1 else 0

@[simp]
def unborn (op : Op) : ℕ := if op.pc = .decWeak2 then 1 else 0

/-- The operation will take away the initial value if it is still there. -/
@[simp]
def fixing (op : Op) : ℕ :=
  match op.pc with
  | .incStrong2 | .attempt5 | .attempt6 _ => 1
  | _ => 0

/-- The first use of the new object has not taken its weak reference yet. -/
@[simp]
def raw (op : Op) : ℕ := if op.base = some .creator ∧ (op.pc = .incStrong0 ∨ op.pc = .incWeak0) then 1 else 0

def raws (s : World) : ℕ := s.creator.toNat + s.total raw

/-- What the steps of an operation know of its counts and its base. -/
@[simp]
def WellFormed (op : Op) : Prop :=
  match op.pc with
  | .incStrong0 | .incWeak0 => op.base ≠ none
  | .attempt0 | .attemptWeak0 | .attemptWeak1 _ => op.base = some .strong ∨ op.base = some .weak
  | .attempt2 curCount | .attempt3 curCount => 0 < curCount
  | .attempt6 curCount => INITIAL_STRONG_VALUE ≤ curCount
  | _ => True

/-- The references and operations, counted. -/
@[ext]
structure Census where
  strongs : ℤ
  weaks : ℤ
  raws : ℤ
  adding : ℤ
  exposed : ℤ
  deleting : ℤ
  freeing : ℤ
  unborn : ℤ
  fixing : ℤ

def census (s : World) : Census where
  strongs := s.strongs
  weaks := s.weaks
  raws := s.raws
  adding := s.total adding
  exposed := s.total exposed
  deleting := s.total deleting
  freeing := s.total freeing
  unborn := s.total unborn
  fixing := s.total fixing

/-- The part of an operation in the census. -/
@[simp]
def weigh (op : Op) : Census where
  strongs := strongOf op
  weaks := weakOf op
  raws := raw op
  adding := adding op
  exposed := exposed op
  deleting := deleting op
  freeing := freeing op
  unborn := unborn op
  fixing := fixing op

/-- What an operation leaves behind that returns with `strong` and `weak` new references. -/
@[simp]
def left (op : Op) (strong weak : ℕ) : Census where
  strongs := ((if op.base = some .strong then 1 else 0) + strong : ℕ)
  weaks := ((if op.base = some .strong then 1 else 0) + (if op.base = some .weak then 1 else 0) + (strong + weak) : ℕ)
  raws := 0
  adding := 0
  exposed := 0
  deleting := 0
  freeing := 0
  unborn := 0
  fixing := 0

@[simp]
def Census.move (c before after : Census) : Census where
  strongs := c.strongs - before.strongs + after.strongs
  weaks := c.weaks - before.weaks + after.weaks
  raws := c.raws - before.raws + after.raws
  adding := c.adding - before.adding + after.adding
  exposed := c.exposed - before.exposed + after.exposed
  deleting := c.deleting - before.deleting + after.deleting
  freeing := c.freeing - before.freeing + after.freeing
  unborn := c.unborn - before.unborn + after.unborn
  fixing := c.fixing - before.fixing + after.fixing

theorem census_goto (hop : op ∈ t.ops) (pc : Pc) :
    (t.goto op pc).census = t.census.move (weigh op) (weigh { op with pc }) := by
  have htotal := fun f => total_goto hop f pc
  have hS := htotal strongOf
  have hW := htotal weakOf
  have hR := htotal raw
  have hheld : (t.goto op pc).strong = t.strong ∧ (t.goto op pc).weak = t.weak ∧
    (t.goto op pc).creator = t.creator := ⟨rfl, rfl, rfl⟩
  ext <;> simp only [census, Census.move, weigh, strongs, weaks, raws, hheld]
  case adding => have := htotal adding; lia
  case exposed => have := htotal exposed; lia
  case deleting => have := htotal deleting; lia
  case freeing => have := htotal freeing; lia
  case unborn => have := htotal unborn; lia
  case fixing => have := htotal fixing; lia
  all_goals lia

theorem census_finish (hop : op ∈ t.ops) (strong weak : ℕ) :
    (t.finish op strong weak).census = t.census.move (weigh op) (left op strong weak) := by
  have htotal := fun f => total_finish hop f strong weak
  have hS := htotal strongOf
  have hW := htotal weakOf
  have hR := htotal raw
  have hcreator : (t.finish op strong weak).creator = t.creator := rfl
  have hstrong : (t.finish op strong weak).strong = t.strong + strong + if op.base = some .strong then 1 else 0 := rfl
  have hweak : (t.finish op strong weak).weak = t.weak + weak + if op.base = some .weak then 1 else 0 := rfl
  ext <;> simp only [census, Census.move, weigh, left, strongs, weaks, raws, hcreator, hstrong, hweak]
  case adding => have := htotal adding; lia
  case exposed => have := htotal exposed; lia
  case deleting => have := htotal deleting; lia
  case freeing => have := htotal freeing; lia
  case unborn => have := htotal unborn; lia
  case fixing => have := htotal fixing; lia
  all_goals lia

theorem le_total (hop : op ∈ s.ops) (f : Op → ℕ) : f op ≤ s.total f := by
  rw [← total_erase hop f]
  exact Nat.le_add_right _ _

theorem total_le {f g : Op → ℕ} (hle : ∀ op, f op ≤ g op) : s.total f ≤ s.total g :=
  List.sum_le_sum fun op _ => hle op

theorem strongOf_le_weakOf (op : Op) : strongOf op ≤ weakOf op := by
  unfold strongOf weakOf
  cases op.pc <;> split <;> simp_all

theorem adding_le_fixing (op : Op) : adding op ≤ fixing op := by
  unfold adding fixing
  cases op.pc <;> simp

theorem unborn_le_freeing (op : Op) : unborn op ≤ freeing op := by
  unfold unborn freeing
  cases op.pc <;> simp

theorem fixing_le_strongOf (op : Op) : fixing op ≤ strongOf op := by
  unfold fixing strongOf
  cases op.pc <;> simp

theorem strongs_le_weaks (s : World) : s.strongs ≤ s.weaks := by
  have htotal : s.total strongOf ≤ s.total weakOf := total_le strongOf_le_weakOf
  rw [strongs, weaks]
  omega

/-- An operation that gives up a strong reference has nothing to fix. -/
theorem fixing_lt_strongs (hop : op ∈ s.ops) (hlt : fixing op < strongOf op) : s.total fixing < s.strongs := by
  have hrest : ((s.ops.erase op).map fixing).sum ≤ ((s.ops.erase op).map strongOf).sum :=
    List.sum_le_sum fun op _ => fixing_le_strongOf op
  have hfixing := total_erase hop fixing
  have hstrong := total_erase hop strongOf
  rw [strongs]
  omega

/-! ## The invariant -/

/-- The counts in terms of the census. -/
structure Counted (mStrong mWeak : ℤ) (destroyed freed : ℕ) (taken released : Bool) (c : Census) : Prop where
  few : c.strongs < INITIAL_STRONG_VALUE
  wide : c.weaks < 2 ^ 31
  strong : mStrong = c.strongs ∨ mStrong = c.strongs + INITIAL_STRONG_VALUE
  weak : mWeak = c.weaks
  first : 0 < c.raws → c.weaks = 0 ∧ c.raws = 1
  live : 0 < c.weaks + c.raws → freed = 0 ∧ c.freeing = 0
  dead : c.weaks + c.raws = 0 → freed + c.freeing = 1
  fresh : mStrong = c.strongs + INITIAL_STRONG_VALUE →
    c.deleting = 0 ∧ destroyed = freed ∧ (0 < c.strongs → 0 < c.fixing)
  fixed : mStrong = c.strongs → c.adding = 0 ∧ c.unborn = 0
  alive : mStrong = c.strongs → 0 < c.strongs → destroyed = 0 ∧ c.deleting = 0
  gone : mStrong = c.strongs → c.strongs = 0 → destroyed + c.deleting = 1 ∧ c.exposed = 0
  ended : mStrong = c.strongs → c.strongs = 0 → released = true
  taken : taken = true ↔ mStrong = c.strongs ∨ 0 < c.strongs
  once : c.adding ≤ 1

/-- What holds of every census. -/
structure Census.Sane (c : Census) : Prop where
  exposed : 0 ≤ c.exposed
  deleting : 0 ≤ c.deleting
  raws : 0 ≤ c.raws
  strongs : c.strongs ≤ c.weaks
  adding : 0 ≤ c.adding ∧ c.adding ≤ c.fixing
  fixing : c.fixing ≤ c.strongs
  unborn : 0 ≤ c.unborn ∧ c.unborn ≤ c.freeing

theorem sane (s : World) : s.census.Sane where
  exposed := Int.natCast_nonneg _
  deleting := Int.natCast_nonneg _
  raws := Int.natCast_nonneg _
  strongs := Int.ofNat_le.mpr s.strongs_le_weaks
  adding := ⟨Int.natCast_nonneg _, Int.ofNat_le.mpr (total_le adding_le_fixing)⟩
  fixing := Int.ofNat_le.mpr ((total_le fixing_le_strongOf).trans (Nat.le_add_left _ _))
  unborn := ⟨Int.natCast_nonneg _, Int.ofNat_le.mpr (total_le unborn_le_freeing)⟩

namespace Counted

variable {mStrong mWeak : ℤ} {destroyed freed : ℕ} {taken released : Bool} {c : Census}
  (h : Counted mStrong mWeak destroyed freed taken released c)

include h

theorem int32_mWeak (hs : c.Sane) {n : ℤ} (hle : -1 ≤ n)
    (hlt : mWeak + n < 2 ^ 31) : int32 (mWeak + n) = mWeak + n := by
  have := h.weak
  have := hs.strongs
  have := hs.fixing
  have := hs.adding
  exact int32_eq (by omega) hlt

theorem int32_mStrong (hs : c.Sane) {n : ℤ} (hle : -2 ^ 28 ≤ n)
    (hlt : n ≤ 1) : int32 (mStrong + n) = mStrong + n := by
  have := h.strong
  have := h.few
  have := hs.fixing
  have := hs.adding
  rw [INITIAL_STRONG_VALUE] at *
  exact int32_eq (by omega) (by omega)

theorem addWeak (hs : c.Sane) {r : ℤ} (hr : c.raws - r = 0)
    (hpos : 0 < c.weaks + c.raws) (hwide : mWeak + 1 < 2 ^ 31) :
    Counted mStrong (int32 (mWeak + 1)) destroyed freed taken released { c with weaks := c.weaks + 1, raws := c.raws - r } := by
  have hweak := h.weak
  have hstrongs := hs.strongs
  have hlive := h.live hpos
  rw [h.int32_mWeak hs (by omega) hwide]
  exact { h with
    wide := by simp only; omega
    weak := by simp only; omega
    first := by simp only; omega
    live := fun _ => hlive
    dead := by
      have := hs.fixing
      have := hs.adding
      simp only; omega }

/-- `decWeak` by one of several. -/
theorem dropWeak (hs : c.Sane) (hpos : 1 < c.weaks) :
    Counted mStrong (int32 (mWeak - 1)) destroyed freed taken released { c with weaks := c.weaks - 1 } := by
  have hweak := h.weak
  have hwide := h.wide
  have hraws := hs.raws
  have hfirst := h.first
  have hlive := h.live (by omega)
  rw [Int.sub_eq_add_neg, h.int32_mWeak hs (by omega) (by omega)]
  exact { h with
    wide := by simp only; omega
    weak := by simp only; omega
    first := by simp only; omega
    live := fun _ => hlive
    dead := by simp only; omega }

/-- `decWeak` by the last one. -/
theorem lastWeak (hs : c.Sane) (hone : c.weaks = 1) :
    Counted mStrong (int32 (mWeak - 1)) destroyed freed taken released { c with weaks := c.weaks - 1, freeing := c.freeing + 1 } := by
  have hweak := h.weak
  have hraws := hs.raws
  have hfirst := h.first
  have hlive := h.live (by omega)
  rw [Int.sub_eq_add_neg, h.int32_mWeak hs (by omega) (by omega)]
  exact { h with
    wide := by simp only; omega
    weak := by simp only; omega
    first := by simp only; omega
    live := by simp only; omega
    dead := by simp only; omega }

theorem take (hs : c.Sane) {a e f : ℤ}
    (hlive : mStrong = c.strongs → 0 < c.strongs) (hfew : c.strongs + 1 < 2 ^ 28)
    (ha : a = 0 ∧ 0 ≤ f ∨ mStrong = INITIAL_STRONG_VALUE ∧ a = 1 ∧ f = 1)
    (hf : mStrong = INITIAL_STRONG_VALUE → 0 < f) :
    Counted (int32 (mStrong + 1)) mWeak destroyed freed true released
      { c with strongs := c.strongs + 1, adding := c.adding + a, exposed := c.exposed + e, fixing := c.fixing + f } := by
  have hstrong := h.strong
  have hfresh := h.fresh
  have hfixed := h.fixed
  have halive := h.alive
  have hadding := hs.adding
  have hfixing := hs.fixing
  have honce := h.once
  rw [h.int32_mStrong hs (by lia) (by lia)]
  rw [INITIAL_STRONG_VALUE] at hstrong hfresh ha hf
  exact { h with
    few := by simp only [INITIAL_STRONG_VALUE]; lia
    strong := by simp only [INITIAL_STRONG_VALUE]; lia
    fresh := by simp only [INITIAL_STRONG_VALUE]; lia
    fixed := by simp only; lia
    alive := by simp only; lia
    gone := by simp only; lia
    ended := by simp only; lia
    taken := iff_of_true rfl (by simp only; lia)
    once := by simp only; lia }

/-- The initial value is taken away. -/
theorem fix (hs : c.Sane) {a : ℤ}
    (hfresh : mStrong = c.strongs + INITIAL_STRONG_VALUE) (hpos : 0 < c.strongs) (ha : c.adding - a = 0) :
    Counted (int32 (mStrong - INITIAL_STRONG_VALUE)) mWeak destroyed freed taken released
      { c with adding := c.adding - a, fixing := c.fixing - 1 } := by
  have hkeep := h.fresh hfresh
  have hlive := h.live
  have hunborn := hs.unborn
  have hstrongs := hs.strongs
  have hraws := hs.raws
  rw [Int.sub_eq_add_neg, h.int32_mStrong hs (by rw [INITIAL_STRONG_VALUE]; omega) (by rw [INITIAL_STRONG_VALUE]; omega)]
  rw [INITIAL_STRONG_VALUE] at hfresh ⊢
  exact { h with
    strong := by simp only [INITIAL_STRONG_VALUE]; omega
    fresh := by simp only [INITIAL_STRONG_VALUE]; omega
    fixed := by simp only; omega
    alive := by simp only; omega
    gone := by simp only; omega
    ended := by simp only; omega
    taken := iff_of_true (h.taken.mpr (.inr hpos)) (.inr hpos)
    once := by simp only; omega }

theorem settled (hs : c.Sane)
    (hlt : mStrong < INITIAL_STRONG_VALUE) :
    Counted mStrong mWeak destroyed freed taken released { c with fixing := c.fixing - 1 } := by
  have hfixing := hs.fixing
  have hadding := hs.adding
  exact { h with fresh := by simp only; omega }

/-- `decStrong` by one of several. -/
theorem dropStrong (hs : c.Sane) (hfixing : c.fixing < c.strongs)
    (hmany : mStrong ≠ 1) :
    Counted (int32 (mStrong - 1)) mWeak destroyed freed taken true { c with strongs := c.strongs - 1 } := by
  have hfew := h.few
  have hstrong := h.strong
  have hfresh := h.fresh
  have hfixed := h.fixed
  have halive := h.alive
  have hadding := hs.adding
  rw [Int.sub_eq_add_neg, h.int32_mStrong hs (by lia) (by lia)]
  rw [INITIAL_STRONG_VALUE] at hfew hstrong hfresh
  exact { h with
    few := by simp only [INITIAL_STRONG_VALUE]; lia
    strong := by simp only [INITIAL_STRONG_VALUE]; lia
    fresh := by simp only [INITIAL_STRONG_VALUE]; lia
    fixed := by simp only; lia
    alive := by simp only; lia
    gone := by simp only; lia
    ended := fun _ _ => rfl
    taken := iff_of_true (h.taken.mpr (by lia)) (by simp only; lia) }

/-- `decStrong` by the last one. -/
theorem lastStrong (hs : c.Sane) (hfixing : c.fixing < c.strongs)
    (hone : mStrong = 1) (hexposed : c.exposed = 0) :
    Counted (int32 (mStrong - 1)) mWeak destroyed freed taken true
      { c with strongs := c.strongs - 1, deleting := c.deleting + 1 } := by
  have hfew := h.few
  have hstrong := h.strong
  have hfixed := h.fixed
  have halive := h.alive
  have hadding := hs.adding
  rw [Int.sub_eq_add_neg, h.int32_mStrong hs (by omega) (by omega)]
  rw [INITIAL_STRONG_VALUE] at hfew hstrong
  exact { h with
    few := by simp only [INITIAL_STRONG_VALUE]; omega
    strong := by simp only [INITIAL_STRONG_VALUE]; omega
    fresh := by simp only [INITIAL_STRONG_VALUE]; omega
    fixed := by simp only; omega
    alive := by simp only; omega
    gone := by simp only; omega
    ended := fun _ _ => rfl
    taken := iff_of_true (h.taken.mpr (by omega)) (by simp only; omega) }

/-- The last reader of the initial value goes on to delete the object. -/
theorem bear (hinitial : mStrong = INITIAL_STRONG_VALUE) :
    Counted mStrong mWeak destroyed freed taken released { c with unborn := c.unborn + 1 } := by
  have hfew := h.few
  exact { h with fixed := by simp only; omega }

theorem free (hs : c.Sane) (hinitial : mStrong ≠ INITIAL_STRONG_VALUE)
    (hfreeing : 0 < c.freeing) :
    Counted mStrong mWeak destroyed (freed + 1) taken released { c with freeing := c.freeing - 1 } := by
  have hlive := h.live
  have hdead := h.dead
  have hraws := hs.raws
  have hstrong := h.strong
  have hstrongs := hs.strongs
  have hfixing := hs.fixing
  have hadding := hs.adding
  exact { h with
    live := by simp only; lia
    dead := by simp only; push_cast; lia
    fresh := by simp only; lia }

/-- `~RefBase` after the last strong reference. -/
theorem die (hs : c.Sane) (hdeleting : 0 < c.deleting) :
    mStrong ≠ INITIAL_STRONG_VALUE ∧ Counted mStrong mWeak (destroyed + 1) freed taken released
      { c with deleting := c.deleting - 1 } := by
  have hfew := h.few
  have hstrong := h.strong
  have hfresh := h.fresh
  have halive := h.alive
  have hgone := h.gone
  have hfixing := hs.fixing
  have hadding := hs.adding
  refine ⟨by omega, { h with fresh := ?_, alive := ?_, gone := ?_ }⟩ <;> simp only <;> push_cast <;> omega

/-- `~RefBase` after the last weak reference to an object that never had a strong one. -/
theorem stillbirth (hs : c.Sane)
    (hunborn : 0 < c.unborn) :
    mStrong = INITIAL_STRONG_VALUE ∧ Counted mStrong mWeak (destroyed + 1) (freed + 1) taken released
      { c with unborn := c.unborn - 1, freeing := c.freeing - 1 } := by
  have hstrong := h.strong
  have hlive := h.live
  have hdead := h.dead
  have hfresh := h.fresh
  have hfixed := h.fixed
  have hstrongs := hs.strongs
  have hfixing := hs.fixing
  have hadding := hs.adding
  have hsum := hs.unborn
  have hraws := hs.raws
  rw [INITIAL_STRONG_VALUE] at *
  refine ⟨by lia, { h with live := ?_, dead := ?_, fresh := ?_, fixed := ?_, alive := ?_, gone := ?_ }⟩ <;>
    simp only [INITIAL_STRONG_VALUE] <;> push_cast <;> lia

theorem enter {e : ℤ} (he : e = 0 ∨ released = false) :
    Counted mStrong mWeak destroyed freed taken released { c with exposed := c.exposed + e } := by
  refine { h with gone := fun hfixed hzero => ?_ }
  have hgone := h.gone hfixed hzero
  have hover := h.ended hfixed hzero
  obtain rfl | hreleased := he
  · simpa using hgone
  · rw [hreleased] at hover
    contradiction

theorem freed_le (hs : c.Sane) : freed ≤ 1 := by
  have hlive := h.live
  have hdead := h.dead
  have hunborn := hs.unborn
  have hraws := hs.raws
  have hstrongs := hs.strongs
  have hfixing := hs.fixing
  have hadding := hs.adding
  omega

theorem destroyed_le (hs : c.Sane) : destroyed ≤ 1 := by
  have hfreed := h.freed_le hs
  have hdeleting := hs.deleting
  obtain hfixed | hfresh := h.strong
  · have halive := h.alive hfixed
    have hgone := h.gone hfixed
    have hfixing := hs.fixing
    have hadding := hs.adding
    omega
  · have hkeep := h.fresh hfresh
    omega

theorem destroyed_eq_zero (hs : c.Sane) (hpos : 0 < c.strongs) :
    destroyed = 0 := by
  obtain hfixed | hfresh := h.strong
  · exact (h.alive hfixed hpos).1
  · have hlive := h.live
    have hkeep := h.fresh hfresh
    have hstrongs := hs.strongs
    have hraws := hs.raws
    omega

end Counted

structure Inv (s : World) : Prop where
  counted : Counted s.mStrong s.mWeak s.destroyed s.freed s.taken s.released s.census
  wellFormed : ∀ op ∈ s.ops, WellFormed op
  sound : s.faulted = false

theorem wellFormed_weighs (hwell : WellFormed op) : 0 < weakOf op + raw op + freeing op := by
  obtain ⟨pc, _ | _ | _ | _⟩ := op <;> cases pc <;> simp_all [WellFormed, weakOf, raw, freeing]

namespace Inv

variable (hinv : Inv s)

include hinv

section Uses

variable (hop : op ∈ s.ops)

include hop

theorem freed_eq_zero : s.freed = 0 := by
  have hweighs := wellFormed_weighs (hinv.wellFormed op hop)
  have hweak := le_total hop weakOf
  have hraw := le_total hop raw
  have hfreeing := le_total hop freeing
  have hlive := hinv.counted.live
  have hdead := hinv.counted.dead
  simp only [census, weaks, raws] at hlive hdead
  omega

theorem destroyed_eq_zero
    (huses : 0 < strongOf op + exposed op + deleting op + unborn op) : s.destroyed = 0 := by
  have hfreed := hinv.freed_eq_zero hop
  have hstrongs := le_total hop strongOf
  have hexposed := le_total hop exposed
  have hdeleting := le_total hop deleting
  have hunborn := le_total hop unborn
  have hstrong := hinv.counted.strong
  have hfresh := hinv.counted.fresh
  have hfixed := hinv.counted.fixed
  have halive := hinv.counted.alive
  have hgone := hinv.counted.gone
  simp only [census, strongs] at hstrong hfresh hfixed halive hgone
  omega

theorem access : (s.access false).faulted = false := by
  simp [World.access, hinv.sound, hinv.freed_eq_zero hop]

theorem access_object
    (huses : 0 < strongOf op + exposed op + deleting op + unborn op) : (s.access true).faulted = false := by
  simp [World.access, hinv.sound, hinv.freed_eq_zero hop, hinv.destroyed_eq_zero hop huses]

/-- An operation takes a step in `t`, which differs from `s` in the counts. -/
theorem goto {pc : Pc} (hadvance : s.advance op = t.goto op pc)
    (hops : t.ops = s.ops) (hcensus : t.census = s.census) (hfaulted : t.faulted = false)
    (hwell : WellFormed { op with pc }) {c : Census} (hmove : s.census.move (weigh op) (weigh { op with pc }) = c)
    (hcounted : Counted t.mStrong t.mWeak t.destroyed t.freed t.taken t.released c) : Inv (s.advance op) := by
  rw [hadvance]
  refine ⟨?_, fun op' hop' => ?_, hfaulted⟩
  · rw [census_goto (hops ▸ hop), hcensus, hmove]
    exact hcounted
  · obtain rfl | hop' := List.mem_cons.mp hop'
    · exact hwell
    · exact hinv.wellFormed op' (hops ▸ List.mem_of_mem_erase hop')

theorem finish {strong weak : ℕ} (hadvance : s.advance op = t.finish op strong weak)
    (hops : t.ops = s.ops) (hcensus : t.census = s.census) (hfaulted : t.faulted = false)
    {c : Census} (hmove : s.census.move (weigh op) (left op strong weak) = c)
    (hcounted : Counted t.mStrong t.mWeak t.destroyed t.freed t.taken t.released c) : Inv (s.advance op) := by
  rw [hadvance]
  refine ⟨?_, fun op' hop' => hinv.wellFormed op' (hops ▸ List.mem_of_mem_erase hop'), hfaulted⟩
  rw [census_finish (hops ▸ hop), hcensus, hmove]
  exact hcounted

/-- An operation only looks at a count. -/
theorem stay {pc : Pc} (hadvance : s.advance op = (s.access false).goto op pc)
    (hwell : WellFormed { op with pc }) (hsame : weigh { op with pc } = weigh op) : Inv (s.advance op) := by
  refine hinv.goto hop hadvance rfl rfl (hinv.access hop) hwell ?_ hinv.counted
  rw [hsame]
  simp

/-- The first use of the object is the only one until it has taken its reference. -/
theorem addWeak (hweighs : 0 < weakOf op + raw op) (hwide : s.mWeak + 1 < 2 ^ 31) :
    Counted s.mStrong (int32 (s.mWeak + 1)) s.destroyed s.freed s.taken s.released
      { s.census with weaks := s.census.weaks + 1, raws := s.census.raws - raw op } := by
  have hweak := le_total hop weakOf
  have hraw := le_total hop raw
  have hfirst := hinv.counted.first
  refine hinv.counted.addWeak s.sane ?_ ?_ hwide <;> simp only [census, weaks, raws] at hfirst ⊢ <;> omega

end Uses

variable {base : Option Base}

theorem incStrong0 (hop : ⟨.incStrong0, base⟩ ∈ s.ops) (hwide : s.mWeak + 1 < 2 ^ 31) :
    Inv (s.advance ⟨.incStrong0, base⟩) := by
  have hwell := hinv.wellFormed _ hop
  have hcounted := hinv.addWeak hop (by obtain _ | _ | _ | _ := base <;> simp_all) hwide
  refine hinv.goto hop rfl rfl rfl (hinv.access_object hop ?_) trivial ?_ hcounted
  · by_cases hbase : base = some .strong <;> simp [hbase]
  · simp [Census.ext_iff]
    omega

theorem attempt0 (hop : ⟨.attempt0, base⟩ ∈ s.ops) (hwide : s.mWeak + 1 < 2 ^ 31) :
    Inv (s.advance ⟨.attempt0, base⟩) := by
  have hwell : base = some .strong ∨ base = some .weak := hinv.wellFormed _ hop
  have hcounted := hinv.addWeak hop (by obtain rfl | rfl := hwell <;> simp) hwide
  refine hinv.goto hop rfl rfl rfl (hinv.access hop) trivial ?_ hcounted
  simp [Census.ext_iff]
  omega

theorem incWeak0 (hop : ⟨.incWeak0, base⟩ ∈ s.ops) (hwide : s.mWeak + 1 < 2 ^ 31) :
    Inv (s.advance ⟨.incWeak0, base⟩) := by
  have hwell := hinv.wellFormed _ hop
  have hcounted := hinv.addWeak hop (by obtain _ | _ | _ | _ := base <;> simp_all) hwide
  refine hinv.finish hop rfl rfl rfl (hinv.access hop) ?_ hcounted
  simp [Census.ext_iff]
  all_goals omega

theorem attemptWeak1 {curCount : ℤ} (hop : ⟨.attemptWeak1 curCount, base⟩ ∈ s.ops)
    (hwide : s.mWeak + 1 < 2 ^ 31) : Inv (s.advance ⟨.attemptWeak1 curCount, base⟩) := by
  have hwell : base = some .strong ∨ base = some .weak := hinv.wellFormed _ hop
  by_cases hcur : s.mWeak = curCount
  · subst hcur
    have hcounted := hinv.addWeak hop (by obtain rfl | rfl := hwell <;> simp) hwide
    refine hinv.finish hop (if_pos rfl) rfl rfl (hinv.access hop) ?_ hcounted
    simp [Census.ext_iff]
    omega
  · exact hinv.stay hop (if_neg hcur) hwell (by simp)

theorem attemptWeak0 (hop : ⟨.attemptWeak0, base⟩ ∈ s.ops) :
    Inv (s.advance ⟨.attemptWeak0, base⟩) := by
  have hwell : base = some .strong ∨ base = some .weak := hinv.wellFormed _ hop
  by_cases hcur : s.mWeak ≤ 0
  · refine hinv.finish hop (if_pos hcur) rfl rfl (hinv.access hop) ?_ hinv.counted
    simp
  · exact hinv.stay hop (if_neg hcur) hwell (by simp)

theorem incStrong1 (hop : ⟨.incStrong1, base⟩ ∈ s.ops) (hfew : (s.strongs : ℤ) + 1 < 2 ^ 28) :
    Inv (s.advance ⟨.incStrong1, base⟩) := by
  have hlive : s.mStrong = s.strongs → 0 < (s.strongs : ℤ) := by
    intro hfixed
    have hgone := hinv.counted.gone hfixed
    have hstrong := le_total hop strongOf
    have hexposed := le_total hop exposed
    by_cases hbase : base = some .strong <;> simp [hbase, census, strongs] at hstrong hexposed hgone ⊢ <;> omega
  by_cases hinitial : s.mStrong = INITIAL_STRONG_VALUE
  · refine hinv.goto hop (if_neg (not_not.mpr hinitial)) rfl rfl (hinv.access hop) trivial ?_
      (hinv.counted.take s.sane (a := 1) (e := -exposed ⟨.incStrong1, base⟩) (f := 1) hlive hfew
        (.inr ⟨hinitial, rfl, rfl⟩) fun _ => by omega)
    simp [Census.ext_iff]
    omega
  · refine hinv.finish hop (if_pos hinitial) rfl rfl (hinv.access hop) ?_
      (hinv.counted.take s.sane (a := 0) (e := -exposed ⟨.incStrong1, base⟩) (f := 0) hlive hfew
        (.inl ⟨rfl, Int.le_refl _⟩) fun h => absurd h hinitial)
    simp [Census.ext_iff]
    omega

theorem incStrong2 (hop : ⟨.incStrong2, base⟩ ∈ s.ops) : Inv (s.advance ⟨.incStrong2, base⟩) := by
  have hstrong := le_total hop strongOf
  have hadding := le_total hop adding
  have honce := hinv.counted.once
  have hfixed := hinv.counted.fixed
  have hcount := hinv.counted.strong
  simp only [census, strongs] at honce hfixed hcount
  simp only [strongOf, adding, ↓reduceIte] at hstrong hadding
  refine hinv.finish hop rfl rfl rfl (hinv.access_object hop (by simp)) ?_
    (hinv.counted.fix s.sane (a := 1) ?_ ?_ ?_)
  · simp
  all_goals simp only [census, strongs]; omega

theorem decStrong0 (hop : ⟨.decStrong0, base⟩ ∈ s.ops)
    (hlast : s.mStrong = 1 → s.total exposed = 0) : Inv (s.advance ⟨.decStrong0, base⟩) := by
  have hfixing : s.census.fixing < s.census.strongs := Int.ofNat_lt.mpr (fixing_lt_strongs hop (by simp))
  have hfaulted := hinv.access_object hop (by simp)
  by_cases hone : s.mStrong = 1
  · refine hinv.goto hop (congrArg (World.goto _ _) (if_pos hone)) rfl rfl hfaulted trivial ?_
      (hinv.counted.lastStrong s.sane hfixing hone (Int.ofNat_eq_zero.mpr (hlast hone)))
    simp [Census.ext_iff]
    omega
  · refine hinv.goto hop (congrArg (World.goto _ _) (if_neg hone)) rfl rfl hfaulted trivial ?_
      (hinv.counted.dropStrong s.sane hfixing hone)
    simp [Census.ext_iff]
    omega

theorem decStrong1 (hop : ⟨.decStrong1, base⟩ ∈ s.ops) : Inv (s.advance ⟨.decStrong1, base⟩) := by
  have hdeleting : 0 < s.census.deleting := Int.ofNat_lt.mpr (le_total hop deleting)
  obtain ⟨hinitial, hcounted⟩ := hinv.counted.die s.sane hdeleting
  have hfreed : (s.access true).destroy.freed = s.freed := if_neg hinitial
  refine hinv.goto hop rfl rfl rfl (hinv.access_object hop (by simp)) trivial ?_ (hfreed.symm ▸ hcounted)
  simp

theorem decWeak0 (hop : ⟨.decWeak0, base⟩ ∈ s.ops) : Inv (s.advance ⟨.decWeak0, base⟩) := by
  have hweak := hinv.counted.weak
  have hpos := le_total hop weakOf
  simp only [census, weaks] at hweak
  simp only [weakOf] at hpos
  by_cases hone : s.mWeak = 1
  · refine hinv.goto hop (if_neg (not_not.mpr hone)) rfl rfl (hinv.access hop) trivial ?_
      (hinv.counted.lastWeak s.sane (hinv.counted.weak ▸ hone))
    simp [Census.ext_iff]
    omega
  · refine hinv.finish hop (if_pos hone) rfl rfl (hinv.access hop) ?_ (hinv.counted.dropWeak s.sane ?_)
    · simp [Census.ext_iff]
      omega
    · simp only [census, weaks]
      omega

theorem decWeak1 (hop : ⟨.decWeak1, base⟩ ∈ s.ops) : Inv (s.advance ⟨.decWeak1, base⟩) := by
  have hfreeing : 0 < s.census.freeing := Int.ofNat_lt.mpr (le_total hop freeing)
  by_cases hinitial : s.mStrong = INITIAL_STRONG_VALUE
  · refine hinv.goto hop (if_pos hinitial) rfl rfl (hinv.access hop) trivial ?_ (hinv.counted.bear hinitial)
    simp
  · refine hinv.finish hop (if_neg hinitial) rfl rfl (hinv.access hop) ?_
      (hinv.counted.free s.sane hinitial hfreeing)
    simp

theorem decWeak2 (hop : ⟨.decWeak2, base⟩ ∈ s.ops) : Inv (s.advance ⟨.decWeak2, base⟩) := by
  have hunborn : 0 < s.census.unborn := Int.ofNat_lt.mpr (le_total hop unborn)
  obtain ⟨hinitial, hcounted⟩ := hinv.counted.stillbirth s.sane hunborn
  have hfreed : (s.access true).destroy.freed = s.freed + 1 := if_pos hinitial
  refine hinv.finish hop rfl rfl rfl (hinv.access_object hop (by simp)) ?_ (hfreed.symm ▸ hcounted)
  simp

theorem attempt1 (hop : ⟨.attempt1, base⟩ ∈ s.ops) : Inv (s.advance ⟨.attempt1, base⟩) := by
  refine hinv.stay hop rfl ?_ ?_
  · split
    · trivial
    · split <;> simp only [WellFormed] <;> omega
  · split
    · simp
    · split <;> simp

theorem attempt4 (hop : ⟨.attempt4, base⟩ ∈ s.ops) : Inv (s.advance ⟨.attempt4, base⟩) := by
  refine hinv.stay hop rfl ?_ ?_
  · split
    · trivial
    · simp only [WellFormed]
      omega
  · split <;> simp

theorem promote (hpos : 0 < s.mStrong) (hfew : (s.strongs : ℤ) + 1 < 2 ^ 28) :
    Counted (int32 (s.mStrong + 1)) s.mWeak s.destroyed s.freed true s.released
      { s.census with
        strongs := s.census.strongs + 1
        adding := s.census.adding + 0
        exposed := s.census.exposed + 0
        fixing := s.census.fixing + 1 } :=
  hinv.counted.take s.sane (fun h => h ▸ hpos) hfew (.inl ⟨rfl, by omega⟩) fun _ => by omega

theorem attempt2 {curCount : ℤ} (hop : ⟨.attempt2 curCount, base⟩ ∈ s.ops)
    (hfew : (s.strongs : ℤ) + 1 < 2 ^ 28) : Inv (s.advance ⟨.attempt2 curCount, base⟩) := by
  have hpos : 0 < curCount := hinv.wellFormed _ hop
  by_cases hcur : s.mStrong = curCount
  · subst hcur
    refine hinv.goto hop (if_pos rfl) rfl rfl (hinv.access hop) trivial ?_ (hinv.promote hpos hfew)
    simp [Census.ext_iff]
    omega
  · exact hinv.stay hop (if_neg hcur) trivial (by simp)

theorem attempt3 {curCount : ℤ} (hop : ⟨.attempt3 curCount, base⟩ ∈ s.ops)
    (hfew : (s.strongs : ℤ) + 1 < 2 ^ 28) : Inv (s.advance ⟨.attempt3 curCount, base⟩) := by
  have hpos : 0 < curCount := hinv.wellFormed _ hop
  by_cases hcur : s.mStrong = curCount
  · subst hcur
    have hfaulted : (s.access (s.mStrong < INITIAL_STRONG_VALUE)).faulted = false := by
      by_cases hused : s.mStrong < INITIAL_STRONG_VALUE
      · have hdestroyed := hinv.counted.destroyed_eq_zero s.sane
        have hstrong := hinv.counted.strong
        have hfixing := s.sane.fixing
        have hadding := s.sane.adding
        simp [World.access, hinv.sound, hinv.freed_eq_zero hop, hdestroyed (by omega)]
      · simpa [hused] using hinv.access hop
    refine hinv.goto hop (if_pos rfl) rfl rfl hfaulted trivial ?_ (hinv.promote hpos hfew)
    simp [Census.ext_iff]
    omega
  · exact hinv.stay hop (if_neg hcur) trivial (by simp)

theorem attempt5 (hop : ⟨.attempt5, base⟩ ∈ s.ops) : Inv (s.advance ⟨.attempt5, base⟩) := by
  by_cases hinitial : INITIAL_STRONG_VALUE ≤ s.mStrong
  · exact hinv.stay hop (if_pos hinitial) hinitial (by simp)
  · refine hinv.finish hop (if_neg hinitial) rfl rfl (hinv.access hop) ?_
      (hinv.counted.settled s.sane (Int.not_le.mp hinitial))
    simp

theorem attempt6 {curCount : ℤ} (hop : ⟨.attempt6 curCount, base⟩ ∈ s.ops)
    (hadding : s.mStrong = curCount → s.total adding = 0) : Inv (s.advance ⟨.attempt6 curCount, base⟩) := by
  have hinitial : INITIAL_STRONG_VALUE ≤ curCount := hinv.wellFormed _ hop
  by_cases hcur : s.mStrong = curCount
  · subst hcur
    have hcount := hinv.counted.strong
    have hfew := hinv.counted.few
    have hstrong := le_total hop strongOf
    have hadding := hadding rfl
    simp only [census, strongs] at hcount hfew
    simp only [strongOf] at hstrong
    refine hinv.finish hop (if_pos rfl) rfl rfl (hinv.access hop) ?_ (hinv.counted.fix s.sane (a := 0) ?_ ?_ ?_)
    · simp
    all_goals simp only [census, strongs]; lia
  · exact hinv.stay hop (if_neg hcur) trivial (by simp)

end Inv

/-! ## Runs -/

/-- The guards of a step. The counts do not overflow; a thread that stands in `incStrong` on a weak reference has
taken its strong one before the last is released; and `attemptIncStrong` does not take away the initial value that
`incStrong` will take away. -/
def Guarded (s : World) : Pc → Prop
  | .incStrong0 | .incWeak0 | .attempt0 | .attemptWeak1 _ => s.mWeak + 1 < 2 ^ 31
  | .incStrong1 | .attempt2 _ | .attempt3 _ => (s.strongs : ℤ) + 1 < 2 ^ 28
  | .decStrong0 => s.mStrong = 1 → s.total exposed = 0
  | .attempt6 curCount => s.mStrong = curCount → s.total adding = 0
  | _ => True

instance (s : World) : ∀ pc, Decidable (Guarded s pc)
  | .incStrong0 | .incWeak0 | .attempt0 | .attemptWeak1 _ => inferInstanceAs (Decidable (s.mWeak + 1 < 2 ^ 31))
  | .incStrong1 | .attempt2 _ | .attempt3 _ => inferInstanceAs (Decidable ((s.strongs : ℤ) + 1 < 2 ^ 28))
  | .decStrong0 => inferInstanceAs (Decidable (s.mStrong = 1 → s.total exposed = 0))
  | .attempt6 curCount => inferInstanceAs (Decidable (s.mStrong = curCount → s.total adding = 0))
  | .incStrong2 | .decStrong1 | .decWeak0 | .decWeak1 | .decWeak2 | .attempt1 | .attempt4 | .attempt5
  | .attemptWeak0 => isTrue trivial

def Sound (s : World) (e : Event) : Prop := ∀ op, e = .advance op → Guarded s op.pc

instance (s : World) : ∀ e, Decidable (Sound s e)
  | .advance op => decidable_of_iff (Guarded s op.pc) ⟨fun h _ heq => by cases heq; exact h, fun h => h op rfl⟩
  | .incStrong _ | .incWeak _ | .decStrong | .decWeak | .attemptIncStrong _ | .attemptIncWeak _ => isTrue nofun

theorem Inv.advance (hinv : Inv s) (hop : op ∈ s.ops) (hsound : Guarded s op.pc) : Inv (s.advance op) := by
  obtain ⟨pc, base⟩ := op
  cases pc with
  | incStrong0 => exact hinv.incStrong0 hop hsound
  | incStrong1 => exact hinv.incStrong1 hop hsound
  | incStrong2 => exact hinv.incStrong2 hop
  | incWeak0 => exact hinv.incWeak0 hop hsound
  | decStrong0 => exact hinv.decStrong0 hop hsound
  | decStrong1 => exact hinv.decStrong1 hop
  | decWeak0 => exact hinv.decWeak0 hop
  | decWeak1 => exact hinv.decWeak1 hop
  | decWeak2 => exact hinv.decWeak2 hop
  | attempt0 => exact hinv.attempt0 hop hsound
  | attempt1 => exact hinv.attempt1 hop
  | attempt2 => exact hinv.attempt2 hop hsound
  | attempt3 => exact hinv.attempt3 hop hsound
  | attempt4 => exact hinv.attempt4 hop
  | attempt5 => exact hinv.attempt5 hop
  | attempt6 => exact hinv.attempt6 hop hsound
  | attemptWeak0 => exact hinv.attemptWeak0 hop
  | attemptWeak1 => exact hinv.attemptWeak1 hop hsound

/-- A thread enters an operation with what it holds. -/
theorem Inv.enter (hinv : Inv s) {strong weak : ℕ} {creator : Bool} (hwell : WellFormed op)
    (hidle : freeing op = 0 ∧ deleting op = 0 ∧ fixing op = 0) (hexposed : exposed op = 0 ∨ s.released = false)
    (hstrong : strong + strongOf op = s.strong) (hweak : weak + strong + weakOf op = s.weak + s.strong)
    (hraw : creator.toNat + raw op = s.creator.toNat) :
    Inv { s with ops := op :: s.ops, strong, weak, creator } where
  counted := by
    have hadding := adding_le_fixing op
    have hunborn := unborn_le_freeing op
    have hcensus : { s with ops := op :: s.ops, strong, weak, creator }.census =
        { s.census with exposed := s.census.exposed + exposed op } := by
      ext <;> simp only [census, strongs, weaks, raws, total, List.map_cons, List.sum_cons] <;> omega
    rw [hcensus]
    exact hinv.counted.enter (hexposed.imp_left Int.ofNat_eq_zero.mpr)
  wellFormed := List.forall_mem_cons.mpr ⟨hwell, hinv.wellFormed⟩
  sound := hinv.sound

/-- Where `base` may begin at `pc`. -/
def Entry (released : Bool) (pc : Pc) (base : Base) : Prop :=
  pc = .incStrong0 ∧ (base = .strong ∨ released = false) ∨ pc = .incWeak0 ∨
    (pc = .attempt0 ∨ pc = .attemptWeak0) ∧ base ≠ .creator

theorem entry_weigh {released : Bool} {pc : Pc} {base : Base} (hentry : Entry released pc base) :
    strongOf ⟨pc, some base⟩ = (if base = .strong then 1 else 0) ∧
      weakOf ⟨pc, some base⟩ = (if base = .strong then 1 else 0) + (if base = .weak then 1 else 0) ∧
      raw ⟨pc, some base⟩ = if base = .creator then 1 else 0 := by
  obtain ⟨rfl, -⟩ | rfl | ⟨rfl | rfl, hbase⟩ := hentry <;> simp
  all_goals exact hbase

theorem Inv.begin {pc : Pc} {base : Base} (hinv : Inv s) (hentry : Entry s.released pc base)
    (hbegin : s.begin pc base = some t) : Inv t := by
  have hwell : WellFormed ⟨pc, some base⟩ := by
    obtain ⟨rfl, -⟩ | rfl | ⟨rfl | rfl, hbase⟩ := hentry <;> cases base <;> simp_all
  have hidle : freeing ⟨pc, some base⟩ = 0 ∧ deleting ⟨pc, some base⟩ = 0 ∧ fixing ⟨pc, some base⟩ = 0 := by
    obtain ⟨rfl, -⟩ | rfl | ⟨rfl | rfl, -⟩ := hentry <;> simp
  have hexposed : exposed ⟨pc, some base⟩ = 0 ∨ s.released = false := by
    obtain ⟨rfl, rfl | hreleased⟩ | rfl | ⟨rfl | rfl, -⟩ := hentry <;> simp
    exact .inr hreleased
  obtain ⟨hstrong, hweak, hraw⟩ := entry_weigh hentry
  cases base with
  | strong =>
    obtain ⟨hheld, ht⟩ := Option.ite_none_right_eq_some.mp hbegin
    cases ht
    exact hinv.enter hwell hidle hexposed (by rw [hstrong]; simp; lia) (by rw [hweak]; simp; lia)
      (by rw [hraw]; rfl)
  | weak =>
    obtain ⟨hheld, ht⟩ := Option.ite_none_right_eq_some.mp hbegin
    cases ht
    exact hinv.enter hwell hidle hexposed (by rw [hstrong]; simp) (by rw [hweak]; simp; lia)
      (by rw [hraw]; rfl)
  | creator =>
    obtain ⟨hheld, ht⟩ := Option.ite_none_right_eq_some.mp hbegin
    cases ht
    exact hinv.enter hwell hidle hexposed (by rw [hstrong]; simp) (by rw [hweak]; simp) (by rw [hraw, hheld]; rfl)

theorem Inv.step {e : Event} (hinv : Inv s) (hsound : Sound s e) (hstep : s.step e = some t) : Inv t := by
  cases e with
  | incStrong base =>
    obtain ⟨hlegal, hbegin⟩ := Option.ite_none_left_eq_some.mp hstep
    exact hinv.begin (.inl ⟨rfl, by grind⟩) hbegin
  | incWeak base => exact hinv.begin (.inr (.inl rfl)) hstep
  | decStrong =>
    obtain ⟨hheld, ht⟩ := Option.ite_none_right_eq_some.mp hstep
    cases ht
    exact hinv.enter trivial (by simp) (by simp) (by simp; omega) (by simp; omega) (by simp)
  | decWeak =>
    obtain ⟨hheld, ht⟩ := Option.ite_none_right_eq_some.mp hstep
    cases ht
    exact hinv.enter trivial (by simp) (by simp) (by simp) (by simp; omega) (by simp)
  | attemptIncStrong base =>
    obtain ⟨hbase, hbegin⟩ := Option.ite_none_left_eq_some.mp hstep
    exact hinv.begin (.inr (.inr ⟨.inl rfl, hbase⟩)) hbegin
  | attemptIncWeak base =>
    obtain ⟨hbase, hbegin⟩ := Option.ite_none_left_eq_some.mp hstep
    exact hinv.begin (.inr (.inr ⟨.inr rfl, hbase⟩)) hbegin
  | advance op =>
    obtain ⟨hop, ht⟩ := Option.ite_none_right_eq_some.mp hstep
    cases ht
    exact hinv.advance hop (hsound op rfl)

theorem inv_new : Inv new where
  counted := by constructor <;> decide
  wellFormed := nofun
  sound := rfl

/-- The object and its `weakref_impl` live as long as their references, are deleted once, and are not accessed
afterwards; between operations the counts are the numbers of references. -/
structure LifeCycle (s : World) : Prop where
  sound : s.faulted = false
  once : s.destroyed ≤ 1 ∧ s.freed ≤ 1
  alive : 0 < s.strong → s.destroyed = 0
  counted : 0 < s.weak + s.strong → s.freed = 0
  mStrong : s.ops = [] → s.mStrong = if s.taken then (s.strong : ℤ) else INITIAL_STRONG_VALUE
  mWeak : s.ops = [] → s.mWeak = s.weak + s.strong
  destroyed : s.ops = [] → s.creator = false → (s.destroyed = 1 ↔ s.strong = 0 ∧ (s.taken ∨ s.weak = 0))
  freed : s.ops = [] → s.creator = false → (s.freed = 1 ↔ s.strong = 0 ∧ s.weak = 0)

/-- The census between operations. -/
def quiet (s : World) : Census := ⟨s.strong, s.weak + s.strong, s.creator.toNat, 0, 0, 0, 0, 0, 0⟩

theorem census_quiet (hops : s.ops = []) : s.census = s.quiet := by
  have htotal : ∀ f, s.total f = 0 := fun f => by rw [total, hops]; rfl
  simp [census, quiet, strongs, weaks, raws, htotal]

/-- Between operations the initial value is there exactly where no strong reference was ever taken. -/
theorem Inv.quiet_cases (hinv : Inv s) (hops : s.ops = []) :
    (s.taken = true ∧ s.mStrong = s.strong ∧ (s.destroyed = 1 ↔ s.strong = 0)) ∨
      (s.taken = false ∧ s.mStrong = INITIAL_STRONG_VALUE ∧ s.strong = 0 ∧ s.destroyed = s.freed) := by
  have hcounted := hinv.counted
  have hdestroyed := hcounted.destroyed_eq_zero s.sane
  rw [census_quiet hops] at hcounted hdestroyed
  obtain hfixed | hfresh := hcounted.strong
  · have hgone := hcounted.gone hfixed
    simp only [quiet] at hgone hdestroyed
    exact .inl ⟨hcounted.taken.mpr (.inl hfixed), hfixed, by omega⟩
  · obtain ⟨-, hsame, hfixing⟩ := hcounted.fresh hfresh
    simp only [quiet] at hfresh hfixing
    have hstrong : s.strong = 0 := by omega
    rw [hstrong] at hfresh
    have htaken := hcounted.taken.not.mpr (by simp [quiet, hfresh, hstrong, INITIAL_STRONG_VALUE])
    exact .inr ⟨Bool.eq_false_iff.mpr htaken, by omega, hstrong, hsame⟩

theorem Inv.freed_quiet (hinv : Inv s) (hops : s.ops = []) (hcreator : s.creator = false) :
    s.freed = 1 ↔ s.strong = 0 ∧ s.weak = 0 := by
  have hlive := hinv.counted.live
  have hdead := hinv.counted.dead
  simp only [census_quiet hops, quiet, hcreator, Bool.toNat_false] at hlive hdead
  omega

theorem Inv.destroyed_quiet (hinv : Inv s) (hops : s.ops = []) (hcreator : s.creator = false) :
    s.destroyed = 1 ↔ s.strong = 0 ∧ (s.taken ∨ s.weak = 0) := by
  have hfreed := hinv.freed_quiet hops hcreator
  obtain ⟨htaken, -, hiff⟩ | ⟨htaken, -, hstrong, hsame⟩ := hinv.quiet_cases hops
  · simp [htaken, hiff]
  · simp [htaken, hsame, hfreed, hstrong]

theorem Inv.mStrong_quiet (hinv : Inv s) (hops : s.ops = []) :
    s.mStrong = if s.taken then (s.strong : ℤ) else INITIAL_STRONG_VALUE := by
  obtain ⟨htaken, hcount, -⟩ | ⟨htaken, hcount, -⟩ := hinv.quiet_cases hops
  · simpa [htaken] using hcount
  · simpa [htaken] using hcount

theorem Inv.lifeCycle (hinv : Inv s) : LifeCycle s where
  sound := hinv.sound
  once := ⟨hinv.counted.destroyed_le s.sane, hinv.counted.freed_le s.sane⟩
  alive hpos := hinv.counted.destroyed_eq_zero s.sane (Int.ofNat_lt.mpr (Nat.lt_add_right _ hpos))
  counted hpos := by
    have hraws := s.sane.raws
    refine (hinv.counted.live ?_).1
    simp only [census, weaks] at hraws ⊢
    omega
  mStrong := hinv.mStrong_quiet
  mWeak hops := by rw [hinv.counted.weak, census_quiet hops, quiet]
  destroyed := hinv.destroyed_quiet
  freed := hinv.freed_quiet

/-- The life cycle holds in every run whose steps meet the guards. -/
theorem lifeCycle_along {es : List Event} (hok : Machine.Along step Sound new es)
    (hrun : Machine.run step new es = some s) : LifeCycle s := by
  have hinv := Machine.run_invariant_along (I := Inv) (fun _ _ _ hsound hstep h => h.step hsound hstep) hok hrun inv_new
  exact hinv.lifeCycle

/-- An operation on a reference, or on the pointer of a new object, takes a step. -/
def on (base : Base) (pc : Pc) : Event := .advance ⟨pc, some base⟩

/-- The creator takes the first strong reference, a weak one is taken from it, and after the last release the
promotion fails. -/
def soundRun : List Event :=
  [.incStrong .creator, on .creator .incStrong0, on .creator .incStrong1, on .creator .incStrong2,
    .incWeak .strong, on .strong .incWeak0, .decStrong, .advance ⟨.decStrong0, none⟩,
    .attemptIncStrong .weak, on .weak .attempt0, on .weak .attempt1, .advance ⟨.decStrong1, none⟩,
    .advance ⟨.decWeak0, none⟩, on .weak .decWeak0, .decWeak, .advance ⟨.decWeak0, none⟩,
    .advance ⟨.decWeak1, none⟩]

theorem soundRun_lifeCycle : ∃ s, Machine.run step new soundRun = some s ∧ LifeCycle s := by
  have hrun := Option.eq_some_of_isSome (by decide : (Machine.run step new soundRun).isSome = true)
  exact ⟨_, hrun, lifeCycle_along (by decide) hrun⟩

/-- Two holders of weak references take the first strong references, one by `incStrong`, one by promotion. -/
def fixedTwice : List Event :=
  [.incWeak .creator, on .creator .incWeak0, .incWeak .weak, on .weak .incWeak0,
    .incStrong .weak, on .weak .incStrong0, on .weak .incStrong1,
    .attemptIncStrong .weak, on .weak .attempt0, on .weak .attempt1,
    on .weak (.attempt2 (INITIAL_STRONG_VALUE + 1)), on .weak .attempt5,
    on .weak (.attempt6 (INITIAL_STRONG_VALUE + 2)), on .weak .incStrong2]

/-- The initial value is taken away twice: no operation is left, and `mStrong` is negative. -/
theorem fixedTwice_negative : ¬ ∀ s, Machine.run step new fixedTwice = some s → LifeCycle s := by
  intro h
  have hrun := Option.eq_some_of_isSome (by decide : (Machine.run step new fixedTwice).isSome = true)
  exact absurd ((h _ hrun).mStrong (by decide)) (by decide)

end AudioFlinger.Utils.RefBase.World
