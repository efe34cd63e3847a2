import AudioFlinger.Binder.ProxyTable
import Mathlib.Tactic.Common

/-!
# One proxy for each handle

A proxy that is referenced is the one in the table, so that a handle has one at most and the destructor of an
older one leaves it there. The counts in the driver are those of the proxies once it has processed what the
threads have written.
-/

namespace AudioFlinger.Binder.ProxyTable

open Foundation Deferred

namespace World

variable {s s' : World} {a b h : ℕ} {p p' q : Proxy} {l : Lookup} {r : Reference}

/-! ## The table -/

/-- The strong reference of a lookup. -/
def strongOf (lock : Option Lookup) (a : ℕ) : ℕ :=
  match lock with
  | some l => if l.binder = a ∧ l.taken ∧ l.kind = .strong then 1 else 0
  | none => 0

/-- Its weak references: that of `attemptIncWeak` and that of the result. -/
def weakOf (lock : Option Lookup) (a : ℕ) : ℕ :=
  match lock with
  | some l => if l.binder = a then if l.taken then 2 else 1 else 0
  | none => 0

/-- The counts of a proxy are its references, and it lives while it has one. -/
structure Counted (lock : Option Lookup) (a : ℕ) (p : Proxy) : Prop where
  mStrong : p.mStrong = p.strong + strongOf lock a
  mWeak : p.mWeak = p.strong + p.weak + weakOf lock a
  alive : 0 < p.mWeak ↔ p.life = .alive

structure Listed (s : World) : Prop where
  counted : ∀ a p, s.proxies a = some p → Counted s.mLock a p
  listed : ∀ a p, s.proxies a = some p → p.life = .alive → s.mHandleToObject p.mHandle = some a
  entry : ∀ h a, s.mHandleToObject h = some a → ∃ p, s.proxies a = some p ∧ p.mHandle = h ∧ ∀ t, p.life ≠ .releasing t
  lookup : ∀ l, s.mLock = some l → (s.proxies l.binder).isSome
  sound : s.faulted = false

theorem strongOf_le_weakOf (lock : Option Lookup) (a : ℕ) : strongOf lock a ≤ weakOf lock a := by
  unfold strongOf weakOf
  split <;> grind

/-- A step that changes one proxy, and what a lookup holds of it. -/
theorem Listed.update {t : World} (hinv : Listed s) (hp : s.proxies a = some p)
    (hproxies : t.proxies = Function.update s.proxies a (some p')) (htable : t.mHandleToObject = s.mHandleToObject)
    (hfaulted : t.faulted = s.faulted) (hcounted : Counted t.mLock a p') (hhandle : p'.mHandle = p.mHandle)
    (hlife : p'.life = p.life ∨ ∃ u, p'.life = .expunging u)
    (hother : ∀ b ≠ a, strongOf t.mLock b = strongOf s.mLock b ∧ weakOf t.mLock b = weakOf s.mLock b)
    (hlookup : ∀ l, t.mLock = some l → l.binder = a ∨ s.mLock = some l) : Listed t where
  counted b q hq := by
    rw [hproxies, Function.update_apply] at hq
    split at hq
    case isTrue hb =>
      cases hq
      rwa [hb]
    case isFalse hb =>
      obtain ⟨hstrong, hweak, halive⟩ := hinv.counted b q hq
      exact ⟨by rw [(hother b hb).1, hstrong], by rw [(hother b hb).2, hweak], halive⟩
  listed b q hq halive := by
    rw [htable]
    rw [hproxies, Function.update_apply] at hq
    split at hq
    case isTrue hb =>
      cases hq
      rw [hb, hhandle]
      refine hinv.listed a p hp ?_
      grind
    case isFalse hb => exact hinv.listed b q hq halive
  entry h b hb := by
    rw [htable] at hb
    obtain ⟨q, hq, hqh, hrel⟩ := hinv.entry h b hb
    rw [hproxies, Function.update_apply]
    split
    case isTrue hba =>
      subst hba
      obtain rfl : p = q := Option.some_inj.mp (hp.symm.trans hq)
      exact ⟨p', rfl, hhandle.trans hqh, by grind⟩
    case isFalse hba => exact ⟨q, hq, hqh, hrel⟩
  lookup l hl := by
    rw [hproxies, Function.update_apply]
    split
    · rfl
    · exact hinv.lookup l ((hlookup l hl).resolve_left ‹_›)
  sound := hfaulted.trans hinv.sound

/-- A reference of a living proxy is given up. -/
theorem Counted.decWeak {lock : Option Lookup} {u : ℕ} (hpos : 0 < p.mWeak) (hlife : p.life = .alive)
    (hstrong : p.mStrong = p.strong + strongOf lock a) (hweak : p.mWeak - 1 = p.strong + p.weak + weakOf lock a) :
    Counted lock a (p.decWeak u) := by
  refine ⟨hstrong, hweak, ?_⟩
  simp only [Proxy.decWeak, hlife]
  grind

theorem decWeak_life (p : Proxy) (u : ℕ) : (p.decWeak u).life = p.life ∨ ∃ v, (p.decWeak u).life = .expunging v := by
  rw [Proxy.decWeak]
  split
  · exact .inr ⟨u, rfl⟩
  · exact .inl rfl

theorem Listed.create {thread handle binder : ℕ} {kind : Kind} (hinv : Listed s) (hlock : s.mLock = none)
    (hfree : ∀ b p, s.mHandleToObject handle = some b → s.proxies b = some p → p.mWeak = 0)
    (hcreate : s.create thread kind handle binder = some s') : Listed s' := by
  obtain ⟨hnew, hs'⟩ := Option.ite_none_right_eq_some.mp hcreate
  cases hs'
  refine ⟨fun a q hq => ?_, fun a q hq halive => ?_, fun h b hb => ?_, fun l hl => ?_, hinv.sound⟩
  · simp only [Function.update_apply] at hq
    split at hq
    case isTrue ha =>
      cases hq
      cases kind <;> exact ⟨by simp [hlock, strongOf, Proxy.inc, Proxy.own], by simp [hlock, weakOf, Proxy.inc, Proxy.own],
        by simp [Proxy.inc, Proxy.own]⟩
    case isFalse ha => exact hinv.counted a q hq
  · simp only [Function.update_apply] at hq ⊢
    split at hq
    case isTrue ha =>
      cases hq
      cases kind <;> simp [Proxy.inc, Proxy.own, ha]
    case isFalse ha =>
      have hlisted := hinv.listed a q hq halive
      rw [if_neg]
      · exact hlisted
      · rintro hh
        rw [hh] at hlisted
        exact absurd (hfree a q hlisted hq) (Nat.pos_iff_ne_zero.mp ((hinv.counted a q hq).alive.mpr halive))
  · simp only [Function.update_apply] at hb ⊢
    split at hb
    case isTrue hh =>
      cases hb
      rw [if_pos rfl]
      cases kind <;> exact ⟨_, rfl, hh.symm, by simp⟩
    case isFalse hh =>
      obtain ⟨q, hq, hqh, hrel⟩ := hinv.entry h b hb
      rw [if_neg (fun hba => by rw [hba, hnew] at hq; cases hq)]
      exact ⟨q, hq, hqh, hrel⟩
  · rw [hlock] at hl
    cases hl

theorem access_some {f : Proxy → Option World} (hsome : (s.proxies a).isSome)
    (haccess : s.access a f = some s') : ∃ p, s.proxies a = some p ∧ f p = some s' := by
  obtain ⟨p, hp⟩ := Option.isSome_iff_exists.mp hsome
  rw [World.access, hp] at haccess
  exact ⟨p, hp, haccess⟩

theorem Listed.getProxy {thread handle binder : ℕ} {kind : Kind} (hinv : Listed s)
    (hget : s.getProxy thread kind handle binder = some s') : Listed s' := by
  obtain ⟨hlock, hget⟩ := Option.ite_none_left_eq_some.mp hget
  have hlock : s.mLock = none := Option.not_isSome_iff_eq_none.mp hlock
  split at hget
  case h_1 hnone => exact hinv.create hlock (fun b p hb => by rw [hnone] at hb; cases hb) hget
  case h_2 b hb =>
    obtain ⟨q, hq, -⟩ := hinv.entry _ _ hb
    obtain ⟨p, hp, hget⟩ := access_some (hq ▸ rfl) hget
    split at hget
    case isTrue hzero =>
      refine hinv.create hlock (fun c r hc hr => ?_) hget
      obtain rfl : b = c := Option.some_inj.mp (hb.symm.trans hc)
      obtain rfl : p = r := Option.some_inj.mp (hp.symm.trans hr)
      exact hzero
    case isFalse hpos =>
      cases hget
      obtain ⟨hstrong, hweak, halive⟩ := hinv.counted b p hp
      rw [hlock] at hstrong hweak
      simp only [strongOf, weakOf] at hstrong hweak
      refine hinv.update hp rfl rfl rfl ⟨?_, ?_, ?_⟩ rfl (.inl rfl) (fun c hc => ?_) (fun l hl => ?_)
      · simp [strongOf, hstrong]
      · simp [weakOf, hweak]
      · simp [← halive, Nat.pos_iff_ne_zero, hpos]
      · simp [strongOf, weakOf, hlock, hc.symm]
      · cases hl
        exact .inl rfl

theorem Listed.take (hinv : Listed s) (hlock : s.mLock = some l) (htaken : l.taken = false)
    (htake : s.take l = some s') : Listed s' := by
  obtain ⟨p, hp, htake⟩ := access_some (hinv.lookup l hlock) htake
  obtain ⟨hstrong, hweak, halive⟩ := hinv.counted l.binder p hp
  rw [hlock] at hstrong hweak
  simp only [strongOf, weakOf, htaken, Bool.false_eq_true, false_and, and_false, ↓reduceIte] at hstrong hweak
  have hpos : p.life = .alive := halive.mp (by omega)
  have hcounted : ∀ q : Proxy, q = p ∨ q = { p with strongStamp := s.stamps } →
      Counted (some { l with taken := true }) l.binder (q.inc l.kind) := by
    rintro q (rfl | rfl) <;> refine ⟨?_, ?_, ?_⟩ <;> simp [strongOf, weakOf, hpos] <;> omega
  have hother : ∀ b ≠ l.binder, strongOf (some { l with taken := true }) b = strongOf s.mLock b ∧
      weakOf (some { l with taken := true }) b = weakOf s.mLock b := by
    intro b hb
    simp [strongOf, weakOf, hlock, hb.symm]
  have hlookup : ∀ l', some { l with taken := true } = some l' → l'.binder = l.binder ∨ s.mLock = some l' := by
    intro l' hl'
    cases hl'
    exact .inl rfl
  split at htake <;> cases htake
  · exact hinv.update hp rfl rfl rfl (hcounted _ (.inr rfl)) (by simp) (.inl (by simp)) hother hlookup
  · exact hinv.update hp rfl rfl rfl (hcounted _ (.inl rfl)) (by simp) (.inl (by simp)) hother hlookup

theorem Listed.leave (hinv : Listed s) (hlock : s.mLock = some l) (htaken : l.taken = true)
    (hleave : s.leave l = some s') : Listed s' := by
  obtain ⟨p, hp, hleave⟩ := access_some (hinv.lookup l hlock) hleave
  obtain ⟨hstrong, hweak, halive⟩ := hinv.counted l.binder p hp
  rw [hlock] at hstrong hweak
  simp only [strongOf, weakOf, htaken, true_and, ↓reduceIte] at hstrong hweak
  cases hleave
  refine hinv.update hp rfl rfl rfl (Counted.decWeak ?_ ?_ ?_ ?_) ?_ ?_ (fun b hb => ?_) nofun
  · simp
    omega
  · simpa using halive.mp (by omega)
  · simpa [strongOf] using hstrong
  · rw [Proxy.own_refs]
    simp [weakOf]
    omega
  · simp [Proxy.decWeak]
  · simpa using decWeak_life (p.own l.kind) l.thread
  · simp [strongOf, weakOf, hlock, hb.symm]

/-- A user copies a reference. -/
theorem Listed.copy (hinv : Listed s) (hp : s.proxies a = some p) (kind : Kind) (hheld : 0 < p.strong + p.weak) :
    Listed (s.update a (some ((p.inc kind).own kind))) := by
  obtain ⟨hstrong, hweak, halive⟩ := hinv.counted a p hp
  have hlife : p.life = .alive := halive.mp (by omega)
  refine hinv.update hp rfl rfl rfl ⟨?_, ?_, ?_⟩ (by simp) (.inl (by simp)) (fun _ _ => ⟨rfl, rfl⟩) fun _ hl => .inr hl
  · simp [hstrong]
    omega
  · rw [Proxy.own_refs]
    simp [hweak]
    omega
  · simp [hlife]

/-- A user drops a reference. -/
theorem Listed.drop {t : World} (hinv : Listed s) (hp : s.proxies a = some p) {u : ℕ} (hweak : q.mWeak = p.mWeak)
    (hlife : q.life = p.life) (hhandle : q.mHandle = p.mHandle) (hrefs : q.strong + q.weak + 1 = p.strong + p.weak)
    (hstrong : q.mStrong + p.strong = p.mStrong + q.strong)
    (ht : t = s.update a (some (q.decWeak u)) ∨ ∃ out, t = { s.update a (some (q.decWeak u)) with out }) :
    Listed t := by
  obtain ⟨hS, hW, halive⟩ := hinv.counted a p hp
  have hcounted : Counted s.mLock a (q.decWeak u) := by
    refine Counted.decWeak ?_ ?_ ?_ ?_
    · omega
    · exact hlife.trans (halive.mp (by omega))
    · omega
    · omega
  have hlives : (q.decWeak u).life = p.life ∨ ∃ v, (q.decWeak u).life = .expunging v := hlife ▸ decWeak_life q u
  obtain rfl | ⟨out, rfl⟩ := ht
  · exact hinv.update hp rfl rfl rfl hcounted hhandle hlives (fun _ _ => ⟨rfl, rfl⟩) fun _ hl => .inr hl
  · exact hinv.update hp rfl rfl rfl hcounted hhandle hlives (fun _ _ => ⟨rfl, rfl⟩) fun _ hl => .inr hl

theorem Listed.expungeHandle {u : ℕ} (hinv : Listed s) (hp : s.proxies a = some p) (hlife : p.life = .expunging u) :
    Listed (s.expungeHandle a u p) := by
  have hcounted := hinv.counted a p hp
  refine ⟨fun b q hq => ?_, fun b q hq halive => ?_, fun h b hb => ?_, fun l hl => ?_, hinv.sound⟩
  · simp only [World.expungeHandle, World.update, Function.update_apply] at hq
    split at hq
    case isTrue hb =>
      cases hq
      rw [hb]
      exact ⟨hcounted.mStrong, hcounted.mWeak, by simp [hcounted.alive, hlife]⟩
    case isFalse hb => exact hinv.counted b q hq
  · simp only [World.expungeHandle, World.update, Function.update_apply] at hq ⊢
    split at hq
    case isTrue hb =>
      cases hq
      cases halive
    case isFalse hb =>
      have hlisted := hinv.listed b q hq halive
      split
      case isTrue ha =>
        rw [Function.update_apply, if_neg]
        · exact hlisted
        · intro hh
          rw [hh, ha] at hlisted
          exact hb (Option.some_inj.mp hlisted).symm
      case isFalse ha => exact hlisted
  · simp only [World.expungeHandle, World.update] at hb ⊢
    have hold : s.mHandleToObject h = some b ∧ b ≠ a := by
      split at hb
      case isTrue ha =>
        rw [Function.update_apply] at hb
        split at hb
        case isTrue hh => cases hb
        case isFalse hh =>
          refine ⟨hb, ?_⟩
          rintro rfl
          obtain ⟨q, hq, hqh, -⟩ := hinv.entry h b hb
          obtain rfl : p = q := Option.some_inj.mp (hp.symm.trans hq)
          exact hh hqh.symm
      case isFalse ha =>
        refine ⟨hb, ?_⟩
        rintro rfl
        obtain ⟨q, hq, hqh, -⟩ := hinv.entry h b hb
        obtain rfl : p = q := Option.some_inj.mp (hp.symm.trans hq)
        exact ha (hqh ▸ hb)
    obtain ⟨q, hq, hqh, hrel⟩ := hinv.entry h b hold.1
    exact ⟨q, by rw [Function.update_of_ne hold.2, hq], hqh, hrel⟩
  · simp only [World.expungeHandle, World.update, Function.update_apply]
    split
    · rfl
    · exact hinv.lookup l hl

theorem Listed.decWeakHandle {u : ℕ} (hinv : Listed s) (hp : s.proxies a = some p) (hlife : p.life = .releasing u) :
    Listed (s.decWeakHandle a u p) := by
  have hentry : ∀ h, s.mHandleToObject h ≠ some a := by
    intro h hh
    obtain ⟨q, hq, -, hrel⟩ := hinv.entry h a hh
    obtain rfl : p = q := Option.some_inj.mp (hp.symm.trans hq)
    exact hrel u hlife
  have hother : ∀ {b q}, Function.update s.proxies a none b = some q → s.proxies b = some q := by
    intro b q hq
    rw [Function.update_apply] at hq
    split at hq
    · cases hq
    · exact hq
  refine ⟨fun b q hq => hinv.counted b q (hother hq), fun b q hq => hinv.listed b q (hother hq), fun h b hb => ?_,
    fun l hl => ?_, hinv.sound⟩
  · obtain ⟨q, hq, hrest⟩ := hinv.entry h b hb
    have hba : b ≠ a := fun hba => hentry h (hba ▸ hb)
    exact ⟨q, by simpa [World.decWeakHandle, World.update, hba] using hq, hrest⟩
  · have hla : l.binder ≠ a := by
      intro hla
      obtain ⟨-, hweak, halive⟩ := hinv.counted a p hp
      have hlock : s.mLock = some l := hl
      have hzero : p.mWeak = 0 := by
        by_contra hne
        exact absurd (halive.mp (Nat.pos_of_ne_zero hne)) (by simp [hlife])
      rw [hzero, hlock] at hweak
      simp only [weakOf, hla] at hweak
      grind
    simpa [World.decWeakHandle, World.update, hla] using hinv.lookup l hl

/-- What a call on a proxy comes to, where its caller holds it. -/
theorem call_some {c : Proxy → Prop} [DecidablePred c] {f : Proxy → World}
    (h : ((s.proxies a).bind fun p => if c p then some (f p) else none) = some s') :
    ∃ p, s.proxies a = some p ∧ c p ∧ f p = s' := by
  obtain ⟨p, hp, h⟩ := Option.bind_eq_some_iff.mp h
  obtain ⟨hc, ht⟩ := Option.ite_none_right_eq_some.mp h
  exact ⟨p, hp, hc, Option.some.inj ht⟩

theorem Listed.step {e : Event} (hinv : Listed s) (hstep : s.step e = some s') : Listed s' := by
  cases e with
  | getProxy thread kind handle binder => exact hinv.getProxy hstep
  | take =>
    obtain ⟨l, hl, hstep⟩ := Option.bind_eq_some_iff.mp hstep
    obtain ⟨htaken, hstep⟩ := Option.ite_none_left_eq_some.mp hstep
    exact hinv.take hl (Bool.eq_false_iff.mpr htaken) hstep
  | leave =>
    obtain ⟨l, hl, hstep⟩ := Option.bind_eq_some_iff.mp hstep
    obtain ⟨htaken, hstep⟩ := Option.ite_none_right_eq_some.mp hstep
    exact hinv.leave hl htaken hstep
  | incStrong a =>
    obtain ⟨p, hp, hheld, rfl⟩ := call_some hstep
    exact hinv.copy hp .strong (by lia)
  | incWeak a =>
    obtain ⟨p, hp, hheld, rfl⟩ := call_some hstep
    exact hinv.copy hp .weak hheld
  | attemptIncStrong u a =>
    obtain ⟨p, hp, hstep⟩ := Option.bind_eq_some_iff.mp hstep
    obtain ⟨hheld, hstep⟩ := Option.ite_none_left_eq_some.mp hstep
    split at hstep <;> cases hstep
    · exact hinv.copy hp .strong (by lia)
    · rw [attempted]
      split
      · exact hinv
      · exact ⟨hinv.counted, hinv.listed, hinv.entry, hinv.lookup, hinv.sound⟩
  | decStrong u a =>
    obtain ⟨p, hp, hheld, rfl⟩ := call_some hstep
    have hpos := (hinv.counted a p hp).mStrong
    refine hinv.drop (q := { p with mStrong := p.mStrong - 1, strong := p.strong - 1 }) (u := u) hp rfl rfl rfl
      (by simp only; lia) (by simp only; lia) ?_
    rw [World.decStrong]
    split
    · exact .inr ⟨_, rfl⟩
    · exact .inl rfl
  | decWeak u a =>
    obtain ⟨p, hp, hheld, rfl⟩ := call_some hstep
    exact hinv.drop (q := { p with weak := p.weak - 1 }) hp rfl rfl rfl (by simp only; lia) rfl (.inl rfl)
  | expungeHandle a =>
    obtain ⟨p, hp, hstep⟩ := Option.bind_eq_some_iff.mp hstep
    split at hstep
    case h_1 u hlife hlock =>
      cases hstep
      exact hinv.expungeHandle hp hlife
    case h_2 => cases hstep
  | decWeakHandle a =>
    obtain ⟨p, hp, hstep⟩ := Option.bind_eq_some_iff.mp hstep
    split at hstep
    case h_1 u hlife =>
      cases hstep
      exact hinv.decWeakHandle hp hlife
    case h_2 => cases hstep
  | process u =>
    rw [World.step] at hstep
    split at hstep
    · obtain ⟨out, hout, ht⟩ := Option.map_eq_some_iff.mp hstep
      cases ht
      exact ⟨hinv.counted, hinv.listed, hinv.entry, hinv.lookup, hinv.sound⟩
    · cases hstep
      exact ⟨hinv.counted, hinv.listed, hinv.entry, hinv.lookup, hinv.sound⟩

/-! ## The counts -/

end World

/-- The commands that were written are those of the references that `owns` has, and each has one owner. -/
structure Recorded (out : Books ℕ Reference) (stamps : ℕ) (owns : ℕ → Reference → Prop) : Prop where
  books : out.Balanced fun r => ∃ a, owns a r
  stamps : ∀ r, .inc r ∈ out.all → r.stamp < stamps
  owner : ∀ a b r, owns a r → owns b r → a = b

namespace Recorded

variable {out out' : Books ℕ Reference} {stamps n u a : ℕ} {owns owns' : ℕ → Reference → Prop} {r : Reference}

theorem congr (h : Recorded out stamps owns) (hiff : ∀ a r, owns' a r ↔ owns a r) : Recorded out stamps owns' := by
  obtain rfl : owns' = owns := funext₂ fun a r => propext (hiff a r)
  exact h

theorem inc (h : Recorded out stamps owns) (hle : stamps ≤ r.stamp) (hlt : r.stamp < n) :
    Recorded (out.write u (.inc r)) n fun b r' => owns b r' ∨ b = a ∧ r' = r where
  books := by
    have hnew : .inc r ∉ out.all := fun hmem => absurd (h.stamps r hmem) (Nat.not_lt.mpr hle)
    refine (h.books.inc hnew).congr fun r' => ?_
    simp [exists_or]
  stamps r' hr' := by
    rw [Books.all_write, List.mem_append, List.mem_singleton] at hr'
    obtain hold | hnew := hr'
    · have := h.stamps r' hold
      omega
    · cases hnew
      exact hlt
  owner b c r' := by
    have hold : ∀ d, owns d r' → r' ≠ r := by
      rintro d hd rfl
      exact absurd (h.stamps r' ((h.books.held r').mp ⟨d, hd⟩).1) (Nat.not_lt.mpr hle)
    have howner := h.owner b c r'
    have hb := hold b
    have hc := hold c
    grind

theorem dec (h : Recorded out stamps owns) (howns : owns a r) :
    Recorded (out.write u (.dec r)) stamps fun b r' => owns b r' ∧ r' ≠ r where
  books := (h.books.dec ⟨a, howns⟩).congr fun r' => by simp
  stamps r' hr' := by
    rw [Books.all_write, List.mem_append, List.mem_singleton] at hr'
    exact h.stamps r' (hr'.resolve_right nofun)
  owner b c r' hb hc := h.owner b c r' hb.1 hc.1

theorem process (h : Recorded out stamps owns) (hprocess : out.process u = some out') : Recorded out' stamps owns where
  books := h.books.process hprocess
  stamps r hr := h.stamps r ((Books.all_process hprocess).mem_iff.mp hr)
  owner := h.owner

end Recorded

/-- What a proxy has taken in the driver and not given up. -/
def Proxy.Owns (p : Proxy) (r : Reference) : Prop := r = p.weakReference ∨ 0 < p.mStrong ∧ r = p.strongReference

namespace World

variable {s s' t : World} {a b u : ℕ} {p p' : Proxy} {l : Lookup} {r : Reference}

def Owns (s : World) (a : ℕ) (r : Reference) : Prop := ∃ p, s.proxies a = some p ∧ p.Owns r

def Counts (s : World) : Prop := Recorded s.out s.stamps s.Owns

theorem owns_iff (hp : s.proxies a = some p) : s.Owns a r ↔ p.Owns r := by
  simp [Owns, hp]

theorem owns_update (ht : t.proxies = Function.update s.proxies a (some p')) :
    t.Owns b r ↔ if b = a then p'.Owns r else s.Owns b r := by
  split
  case isTrue hb =>
    rw [hb]
    exact owns_iff (by rw [ht, Function.update_self])
  case isFalse hb => rw [Owns, Owns, ht, Function.update_of_ne hb]

/-- A step that leaves the references of a proxy in the driver as they are. -/
theorem Counts.same (h : Counts s) (hp : s.proxies a = some p) (ht : t.proxies = Function.update s.proxies a (some p'))
    (hout : t.out = s.out) (hstamps : t.stamps = s.stamps) (hsame : ∀ r, p'.Owns r ↔ p.Owns r) : Counts t := by
  rw [Counts, hout, hstamps]
  refine Recorded.congr h fun b r => ?_
  rw [owns_update ht]
  split
  case isTrue hb => rw [hsame, hb, owns_iff hp]
  case isFalse hb => rfl

theorem owns_inc {kind : Kind} (hkind : kind = .strong → 0 < p.mStrong) : (p.inc kind).Owns r ↔ p.Owns r := by
  cases kind with
  | weak => rfl
  | strong =>
    have hpos := hkind rfl
    simp [Proxy.Owns, Proxy.inc, Proxy.weakReference, Proxy.strongReference, hpos]

theorem owns_own {kind : Kind} : (p.own kind).Owns r ↔ p.Owns r := by
  cases kind <;> rfl

theorem Counts.copy (h : Counts s) (hp : s.proxies a = some p) {kind : Kind}
    (hkind : kind = .strong → 0 < p.mStrong) : Counts (s.update a (some ((p.inc kind).own kind))) :=
  h.same hp rfl rfl rfl fun _ => owns_own.trans (owns_inc hkind)

theorem Counts.create {thread handle binder : ℕ} {kind : Kind} (h : Counts s)
    (hcreate : s.create thread kind handle binder = some s') : Counts s' := by
  obtain ⟨hnew, hs'⟩ := Option.ite_none_right_eq_some.mp hcreate
  cases hs'
  have hnone : ∀ b r, s.Owns b r → b ≠ binder := by
    rintro b r ⟨q, hq, -⟩ rfl
    rw [hnew] at hq
    cases hq
  have hweak := Recorded.inc (u := thread) (a := binder) (n := s.stamps + 1) (r := ⟨.weak, handle, s.stamps⟩) h
    (Nat.le_refl _) (Nat.lt_succ_self _)
  cases kind with
  | weak =>
    have hwide : Recorded _ (s.stamps + 2) _ :=
      { hweak with stamps := fun r hr => Nat.lt_succ_of_lt (hweak.stamps r hr) }
    refine hwide.congr fun b r => ?_
    rw [owns_update (s := s) rfl]
    have hb := hnone b r
    simp only [Proxy.Owns, Proxy.inc, Proxy.own, Proxy.weakReference]
    grind
  | strong =>
    refine (hweak.inc (u := thread) (a := binder) (n := s.stamps + 2) (r := ⟨.strong, handle, s.stamps + 1⟩)
      (Nat.le_refl _) (Nat.lt_succ_self _)).congr fun b r => ?_
    rw [owns_update (s := s) rfl]
    have hb := hnone b r
    simp only [Proxy.Owns, Proxy.inc, Proxy.own, Proxy.weakReference, Proxy.strongReference]
    grind

theorem Counts.take (h : Counts s) (hp : s.proxies l.binder = some p) (htake : s.take l = some s') : Counts s' := by
  rw [World.take, World.access, hp] at htake
  simp only at htake
  split at htake <;> cases htake
  case isTrue hfirst =>
    refine (Recorded.inc (a := l.binder) h (Nat.le_refl _) (Nat.lt_succ_self _)).congr fun b r => ?_
    rw [owns_update (s := s) rfl]
    split
    case isTrue hb =>
      rw [hb, owns_iff hp]
      simp [Proxy.Owns, Proxy.inc, Proxy.weakReference, Proxy.strongReference, hfirst]
    case isFalse hb => simp [hb]
  case isFalse hlater => exact h.same hp rfl rfl rfl fun r => owns_inc (by grind)

theorem Counts.decStrong (h : Counts s) (hp : s.proxies a = some p) (hpos : 0 < p.mStrong) :
    Counts (s.decStrong u a p) := by
  rw [World.decStrong]
  split
  case isTrue hone =>
    refine (Recorded.dec (a := a) (r := p.strongReference) h ((owns_iff hp).mpr (.inr ⟨hpos, rfl⟩))).congr fun b r => ?_
    rw [owns_update (s := s) rfl]
    split
    case isTrue hb =>
      rw [hb, owns_iff hp]
      simp only [Proxy.Owns, Proxy.decWeak, Proxy.weakReference, Proxy.strongReference, hone]
      grind
    case isFalse hb =>
      have howner := h.owner b a r
      rw [owns_iff hp] at howner
      grind [Proxy.Owns]
  case isFalse hmany =>
    refine h.same hp rfl rfl rfl fun r => ?_
    simp only [Proxy.Owns, Proxy.decWeak, Proxy.weakReference, Proxy.strongReference]
    grind

theorem Counts.decWeakHandle (h : Counts s) (hp : s.proxies a = some p) (hzero : p.mStrong = 0) :
    Counts (s.decWeakHandle a u p) := by
  refine (Recorded.dec (a := a) (r := p.weakReference) h ((owns_iff hp).mpr (.inl rfl))).congr fun b r => ?_
  by_cases hb : b = a
  · rw [hb, owns_iff hp]
    simp [Owns, World.decWeakHandle, World.update, Proxy.Owns, hzero]
  · have howner := h.owner b a r
    rw [owns_iff hp] at howner
    have hsame : (s.decWeakHandle a u p).Owns b r ↔ s.Owns b r := by
      simp [Owns, World.decWeakHandle, World.update, hb]
    grind [Proxy.Owns]

/-- A decrement does not overtake its increment, which waits in the buffer of another thread, and a thread whose
`BC_ATTEMPT_ACQUIRE` is refused has nothing else in its buffer. -/
def Sound (s : World) : Event → Prop
  | .process thread => s.kept thread = none → ∀ r, s.out.next thread = some (.dec r) →
    ∀ u ≠ thread, (u, .inc r) ∉ s.out.pending
  | .attemptIncStrong thread binder => ∀ p ∈ s.proxies binder, p.mStrong = 0 → s.kept thread = none →
    s.waiting thread = []
  | _ => True

/-- Nothing is processed again. -/
def Once (s : World) : Prop := ∀ thread, ∀ cs ∈ s.kept thread, cs = []

theorem attempted_out (h : s.kept u = none → s.waiting u = []) : (s.attempted u).out = s.out := by
  rw [attempted]
  split
  case isTrue => rfl
  case isFalse hnone =>
    have hnot := List.filter_eq_nil_iff.mp (List.map_eq_nil_iff.mp (h (Option.not_isSome_iff_eq_none.mp hnone)))
    have hall : s.out.pending.filter (·.1 ≠ u) = s.out.pending :=
      List.filter_eq_self.mpr fun x hx => by simpa using hnot x hx
    rw [hall]

theorem Once.attempted (honce : Once s) (h : s.kept u = none → s.waiting u = []) : Once (s.attempted u) := by
  rw [World.attempted]
  split
  case isTrue => exact honce
  case isFalse hnone =>
    intro v cs hcs
    simp only [Function.update_apply] at hcs
    split at hcs
    · cases hcs
      exact h (Option.not_isSome_iff_eq_none.mp hnone)
    · exact honce v cs hcs

theorem Counts.step {e : Event} (h : Counts s) (hinv : Listed s) (honce : Once s) (hsound : s.Sound e)
    (hstep : s.step e = some s') : Counts s' := by
  cases e with
  | getProxy thread kind handle binder =>
    obtain ⟨hlock, hget⟩ := Option.ite_none_left_eq_some.mp hstep
    split at hget
    case h_1 => exact h.create hget
    case h_2 b hb =>
      obtain ⟨q, hq, -⟩ := hinv.entry _ _ hb
      obtain ⟨p, hp, hget⟩ := access_some (hq ▸ rfl) hget
      split at hget
      case isTrue => exact h.create hget
      case isFalse =>
        cases hget
        exact h.same hp rfl rfl rfl fun _ => Iff.rfl
  | take =>
    obtain ⟨l, hl, hstep⟩ := Option.bind_eq_some_iff.mp hstep
    obtain ⟨-, hstep⟩ := Option.ite_none_left_eq_some.mp hstep
    obtain ⟨p, hp⟩ := Option.isSome_iff_exists.mp (hinv.lookup l hl)
    exact h.take hp hstep
  | leave =>
    obtain ⟨l, hl, hstep⟩ := Option.bind_eq_some_iff.mp hstep
    obtain ⟨-, hstep⟩ := Option.ite_none_right_eq_some.mp hstep
    obtain ⟨p, hp, hstep⟩ := access_some (hinv.lookup l hl) hstep
    cases hstep
    exact h.same hp rfl rfl rfl fun _ => owns_own
  | incStrong a =>
    obtain ⟨p, hp, hheld, rfl⟩ := call_some hstep
    exact h.copy hp fun _ => (hinv.counted a p hp).mStrong ▸ Nat.lt_add_right _ hheld
  | incWeak a =>
    obtain ⟨p, hp, -, rfl⟩ := call_some hstep
    exact h.copy hp nofun
  | attemptIncStrong u a =>
    obtain ⟨p, hp, hstep⟩ := Option.bind_eq_some_iff.mp hstep
    obtain ⟨-, hstep⟩ := Option.ite_none_left_eq_some.mp hstep
    split at hstep
    case isTrue hpos =>
      cases hstep
      exact h.copy hp fun _ => hpos
    case isFalse hzero =>
      cases hstep
      have hout := attempted_out (hsound p hp (Nat.eq_zero_of_not_pos hzero))
      rw [Counts, hout]
      rw [attempted]
      split <;> exact h
  | decStrong u a =>
    obtain ⟨p, hp, hheld, rfl⟩ := call_some hstep
    exact h.decStrong hp ((hinv.counted a p hp).mStrong ▸ Nat.lt_add_right _ hheld)
  | decWeak u a =>
    obtain ⟨p, hp, -, rfl⟩ := call_some hstep
    exact h.same hp rfl rfl rfl fun _ => Iff.rfl
  | expungeHandle a =>
    obtain ⟨p, hp, hstep⟩ := Option.bind_eq_some_iff.mp hstep
    split at hstep <;> cases hstep
    exact h.same hp rfl rfl rfl fun _ => Iff.rfl
  | decWeakHandle a =>
    obtain ⟨p, hp, hstep⟩ := Option.bind_eq_some_iff.mp hstep
    split at hstep
    case h_1 u hlife =>
      cases hstep
      refine h.decWeakHandle hp ?_
      obtain ⟨hstrong, hweak, halive⟩ := hinv.counted a p hp
      have hle := strongOf_le_weakOf s.mLock a
      have hdead : ¬ 0 < p.mWeak := fun hpos => by rw [hlife] at halive; exact nomatch halive.mp hpos
      lia
    case h_2 => cases hstep
  | process u =>
    rw [World.step] at hstep
    split at hstep
    case h_1 =>
      obtain ⟨out, hout, ht⟩ := Option.map_eq_some_iff.mp hstep
      cases ht
      exact Recorded.process h hout
    case h_2 cs hcs =>
      cases hstep
      obtain rfl := honce u cs hcs
      simpa [Counts] using h

/-! ## Runs -/

structure Inv (s : World) : Prop where
  listed : Listed s
  counts : Counts s
  once : Once s
  timely : s.out.Timely

/-- The step is none of the driver. -/
def Quiet (s s' : World) : Prop := s'.out.done = s.out.done ∧ s'.kept = s.kept

theorem quiet_create {thread handle binder : ℕ} {kind : Kind} (hcreate : s.create thread kind handle binder = some s') :
    Quiet s s' := by
  obtain ⟨-, hs'⟩ := Option.ite_none_right_eq_some.mp hcreate
  cases hs'
  cases kind <;> exact ⟨rfl, rfl⟩

theorem quiet_access {f : Proxy → Option World} (hf : ∀ p s', f p = some s' → Quiet s s')
    (haccess : s.access a f = some s') : Quiet s s' := by
  unfold access at haccess
  split at haccess
  · exact hf _ _ haccess
  · cases haccess
    exact ⟨rfl, rfl⟩

/-- Only the driver processes commands. -/
theorem quiet_step {e : Event} (hstep : s.step e = some s') :
    Quiet s s' ∨ (∃ thread, e = .process thread) ∨
      ∃ thread binder, e = .attemptIncStrong thread binder ∧ s' = s.attempted thread ∧
        ∃ p ∈ s.proxies binder, p.mStrong = 0 := by
  cases e with
  | getProxy thread kind handle binder =>
    obtain ⟨-, hget⟩ := Option.ite_none_left_eq_some.mp hstep
    split at hget
    · exact .inl (quiet_create hget)
    · refine .inl (quiet_access (fun p t ht => ?_) hget)
      split at ht
      · exact quiet_create ht
      · cases ht
        exact ⟨rfl, rfl⟩
  | take =>
    obtain ⟨l, -, hstep⟩ := Option.bind_eq_some_iff.mp hstep
    obtain ⟨-, hstep⟩ := Option.ite_none_left_eq_some.mp hstep
    refine .inl (quiet_access (fun p t ht => ?_) hstep)
    simp only at ht
    split at ht <;> cases ht <;> exact ⟨rfl, rfl⟩
  | leave =>
    obtain ⟨l, -, hstep⟩ := Option.bind_eq_some_iff.mp hstep
    obtain ⟨-, hstep⟩ := Option.ite_none_right_eq_some.mp hstep
    refine .inl (quiet_access (fun p t ht => ?_) hstep)
    cases ht
    exact ⟨rfl, rfl⟩
  | attemptIncStrong u binder =>
    obtain ⟨p, hp, hstep⟩ := Option.bind_eq_some_iff.mp hstep
    obtain ⟨-, hstep⟩ := Option.ite_none_left_eq_some.mp hstep
    split at hstep
    case isTrue =>
      cases hstep
      exact .inl ⟨rfl, rfl⟩
    case isFalse hzero =>
      cases hstep
      exact .inr (.inr ⟨u, binder, rfl, rfl, p, hp, Nat.eq_zero_of_not_pos hzero⟩)
  | process u => exact .inr (.inl ⟨u, rfl⟩)
  | _ =>
    obtain ⟨p, -, hstep⟩ := Option.bind_eq_some_iff.mp hstep
    grind [World.update, World.decStrong, World.expungeHandle, World.decWeakHandle, Books.write, Quiet]

theorem Inv.process (hinv : Inv s) (hsound : Sound s (.process u)) (hstep : s.step (.process u) = some s') :
    Once s' ∧ s'.out.Timely := by
  rw [World.step] at hstep
  split at hstep
  case h_1 hnone =>
    obtain ⟨out, hout, ht⟩ := Option.map_eq_some_iff.mp hstep
    cases ht
    exact ⟨hinv.once, hinv.timely.process hinv.counts.books (hsound hnone) hout⟩
  case h_2 cs hcs =>
    cases hstep
    obtain rfl := hinv.once u cs hcs
    refine ⟨hinv.once, ?_⟩
    simpa [Books.Timely] using hinv.timely

theorem Inv.step {e : Event} (hinv : Inv s) (hsound : Sound s e) (hstep : s.step e = some s') : Inv s' := by
  obtain ⟨honce, htimely⟩ : Once s' ∧ s'.out.Timely := by
    obtain ⟨hdone, hkept⟩ | ⟨u, rfl⟩ | ⟨u, b, rfl, rfl, p, hp, hzero⟩ := quiet_step hstep
    · unfold Once Books.Timely
      rw [hdone, hkept]
      exact ⟨hinv.once, hinv.timely⟩
    · exact hinv.process hsound hstep
    · rw [attempted_out (hsound p hp hzero)]
      exact ⟨hinv.once.attempted (hsound p hp hzero), hinv.timely⟩
  exact ⟨hinv.listed.step hstep, hinv.counts.step hinv.listed hinv.once hsound hstep, honce, htimely⟩

theorem inv_new : Inv new where
  listed := ⟨nofun, nofun, nofun, nofun, rfl⟩
  counts := ⟨⟨List.nodup_nil, List.nodup_nil, nofun, fun _ => by simp [Owns, new, Books.all], .nil⟩, nofun, nofun⟩
  once := nofun
  timely := nofun

/-- The number of processed commands for `handle`: `BC_INCREFS` or `BC_ACQUIRE`, `BC_DECREFS` or `BC_RELEASE`. -/
def incs (s : World) (kind : Kind) (handle : ℕ) : ℕ :=
  (Deferred.incs s.out.done).countP fun r => r.kind = kind ∧ r.handle = handle

def decs (s : World) (kind : Kind) (handle : ℕ) : ℕ :=
  (Deferred.decs s.out.done).countP fun r => r.kind = kind ∧ r.handle = handle

/-- The table yields living objects, a referenced proxy is the one in the table, and the counts in the driver are
never below zero and zero in the end. -/
structure Consistent (s : World) : Prop where
  sound : s.faulted = false
  yields : ∀ h a, s.mHandleToObject h = some a → ∃ p, s.proxies a = some p ∧ p.mHandle = h
  listed : ∀ a p, s.proxies a = some p → 0 < p.mWeak → s.mHandleToObject p.mHandle = some a
  same : ∀ a b p q, s.proxies a = some p → s.proxies b = some q → p.mHandle = q.mHandle → 0 < p.mWeak → 0 < q.mWeak →
    a = b
  expunged : ∀ b t, s.step (.expungeHandle b) = some t → ∀ h a, s.mHandleToObject h = some a → a ≠ b →
    t.mHandleToObject h = some a
  counted : ∀ kind h, s.decs kind h ≤ s.incs kind h
  settled : ∀ h, s.out.pending = [] → (∀ a p, s.proxies a = some p → p.mHandle ≠ h) →
    ∀ kind, s.incs kind h = s.decs kind h

instance (s : World) : ∀ e, Decidable (Sound s e)
  | .process thread =>
    decidable_of_iff (s.kept thread = none → ∀ c ∈ s.out.next thread, ∀ x ∈ s.out.pending, x.1 ≠ thread →
        c.decOf = none ∨ x.2.incOf ≠ c.decOf)
      ⟨fun h hkept r hr u hu hmem => by
        obtain hnone | hne := h hkept _ hr _ hmem hu
        · cases hnone
        · exact hne rfl,
      fun h hkept c hc x hx hne => by
        cases c with
        | inc => exact .inl rfl
        | dec r =>
          refine .inr fun heq => ?_
          obtain ⟨u, c | c⟩ := x
          · cases heq
            exact h hkept _ hc u hne hx
          · cases heq⟩
  | .attemptIncStrong thread binder =>
    inferInstanceAs (Decidable (∀ p ∈ s.proxies binder, p.mStrong = 0 → s.kept thread = none → s.waiting thread = []))
  | .getProxy .. | .take | .leave | .incStrong _ | .incWeak _ | .decStrong .. | .decWeak ..
  | .expungeHandle _ | .decWeakHandle _ => isTrue trivial

/-- Two threads look up handle 1; the first drops the last reference, and the object is freed. -/
def soundRun : List Event :=
  [.getProxy 0 .strong 1 8, .getProxy 1 .strong 1 9, .take, .leave, .process 0, .process 0, .decStrong 1 8,
    .decStrong 0 8, .expungeHandle 8, .decWeakHandle 8, .process 0, .process 0]

/-- Thread 0 looks up handle 1 and passes its reference to thread 1, which drops it and talks to the driver. -/
def overtakingRun : List Event :=
  [.getProxy 0 .strong 1 8, .decStrong 1 8, .process 1]

/-- A thread drops the last strong reference and promotes a weak one. -/
def refusedRun : List Event :=
  [.getProxy 0 .strong 1 8, .process 0, .process 0, .incWeak 8, .decStrong 0 8, .attemptIncStrong 0 8, .process 0,
    .process 0]

end World

end AudioFlinger.Binder.ProxyTable
