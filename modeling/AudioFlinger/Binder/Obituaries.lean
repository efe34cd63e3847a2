import AudioFlinger.Binder.DeathNotification
import AudioFlinger.Foundation.Lists
import Mathlib.Data.List.Nodup

/-!
# Obituaries are delivered once

Each request has a `binder_ref_death` in the driver until its `BR_CLEAR_DEATH_NOTIFICATION_DONE`, which gives up
the reference that the request has taken. A death that is neither attached nor waiting in a list is lost; only the
exit of a thread with such work makes one.
-/

namespace AudioFlinger.Binder.DeathNotification

open Foundation

/-! ## The driver -/

@[simp]
def attachedOf (death : Death) : ℕ := death.attached.toNat

@[simp]
def deliveredOf (death : Death) : ℕ := if death.list = .delivered then 1 else 0

/-- A death that is not attached is on its way to `BR_CLEAR_DEATH_NOTIFICATION_DONE`; the attached one waits for
the death of the node. -/
structure Fine (dead : Bool) (death : Death) : Prop where
  detached : death.attached = false → death.type = .DEAD_BINDER_AND_CLEAR ∧ death.list ≠ .unlisted ∨
    death.type = .CLEAR_DEATH_NOTIFICATION ∧ death.list ≠ .unlisted ∧ death.list ≠ .delivered
  attached : death.attached = true → if dead then death.type = .DEAD_BINDER ∧ death.list ≠ .unlisted
    else death.list = .unlisted

namespace Driver

variable {d : Driver} {death old : Death} {thread : ℕ}

theorem tally_replace (hold : old ∈ d.deaths) (new : Death) (f : Death → ℕ) :
    tally f (d.replace old new).deaths + f old = tally f d.deaths + f new := by
  rw [← tally_erase hold f, replace, tally_cons]
  omega

theorem length_replace (hold : old ∈ d.deaths) (new : Death) : (d.replace old new).deaths.length = d.deaths.length := by
  rw [replace, List.length_cons, List.length_erase_of_mem hold]
  have := List.length_pos_of_mem hold
  omega

theorem fine_replace {dead : Bool} {new : Death} (hfine : ∀ x ∈ d.deaths, Fine dead x) (hnew : Fine dead new) :
    ∀ x ∈ (d.replace old new).deaths, Fine dead x :=
  List.forall_mem_cons.mpr ⟨hnew, fun x hx => hfine x (List.mem_of_mem_erase hx)⟩

theorem todo_ne (d : Driver) (thread : ℕ) : d.todo thread ≠ .unlisted ∧ d.todo thread ≠ .delivered := by
  unfold todo
  split <;> simp

theorem death_eq_none (hzero : tally attachedOf d.deaths = 0) : d.death = none := by
  rw [tally_eq_zero] at hzero
  refine List.find?_eq_none.mpr fun x hx => ?_
  simpa using hzero x hx

theorem death_eq_some (hpos : 0 < tally attachedOf d.deaths) :
    ∃ x, d.death = some x ∧ x ∈ d.deaths ∧ x.attached = true := by
  obtain ⟨x, hx, hattached⟩ := exists_of_tally_pos hpos
  have hsome : d.death.isSome := List.find?_isSome.mpr ⟨x, hx, by cases h : x.attached <;> simp_all⟩
  obtain ⟨y, hy⟩ := Option.isSome_iff_exists.mp hsome
  exact ⟨y, hy, List.mem_of_find?_eq_some hy, List.find?_some hy⟩

theorem request_spec (hzero : tally attachedOf d.deaths = 0) (thread : ℕ) :
    ∃ new : Death, d.request thread = { d with deaths := new :: d.deaths, requests := d.requests + 1 } ∧
      new.attached = true ∧ new.list ≠ .delivered ∧ Fine d.dead new := by
  rw [request, death_eq_none hzero]
  refine ⟨_, rfl, ?_⟩
  have htodo := d.todo_ne thread
  cases hdead : d.dead
  · exact ⟨rfl, nofun, nofun, fun _ => rfl⟩
  · exact ⟨rfl, htodo.2, nofun, fun _ => ⟨rfl, htodo.1⟩⟩

theorem clear_spec (hpos : 0 < tally attachedOf d.deaths) (hfine : ∀ x ∈ d.deaths, Fine d.dead x) (thread : ℕ) :
    ∃ old new : Death, d.clear thread = { d.replace old new with clears := d.clears + 1 } ∧ old ∈ d.deaths ∧
      old.attached = true ∧ new.attached = false ∧ (new.list = .delivered ↔ old.list = .delivered) ∧
      Fine d.dead new := by
  obtain ⟨x, hdeath, hx, hattached⟩ := death_eq_some hpos
  have hfx := (hfine x hx).attached hattached
  have htodo := d.todo_ne thread
  rw [clear, hdeath]
  by_cases hlist : x.list = .unlisted
  · refine ⟨x, _, if_pos hlist, hx, hattached, rfl, ?_, fun _ => .inr ⟨rfl, htodo⟩, nofun⟩
    simp [hlist, htodo.2]
  · have htype : x.type = .DEAD_BINDER := by
      split at hfx
      · exact hfx.1
      · exact absurd hfx hlist
    exact ⟨x, _, (if_neg hlist).trans (if_neg (not_not.mpr htype)), hx, hattached, rfl, Iff.rfl,
      fun _ => .inl ⟨rfl, hlist⟩, nofun⟩

theorem deadBinderDone_spec (hlist : death.list = .delivered) (hattached : death.attached = false)
    (hfine : Fine d.dead death) (thread : ℕ) :
    ∃ new : Death, d.deadBinderDone thread death = d.replace death new ∧ new.attached = false ∧
      new.list ≠ .delivered ∧ Fine d.dead new := by
  have htodo := d.todo_ne thread
  obtain ⟨htype, -⟩ | ⟨-, -, hne⟩ := hfine.detached hattached
  · exact ⟨_, if_pos htype, hattached, htodo.2, fun _ => .inr ⟨rfl, htodo⟩,
      fun h => by simp [hattached] at h⟩
  · exact absurd hlist hne

theorem die_spec (hlive : d.dead = false) (hone : tally attachedOf d.deaths ≤ 1) (hfine : ∀ x ∈ d.deaths, Fine d.dead x) :
    ∃ deaths, d.die = { d with dead := true, deaths } ∧ deaths.length = d.deaths.length ∧
      tally attachedOf deaths = tally attachedOf d.deaths ∧ tally deliveredOf deaths = tally deliveredOf d.deaths ∧
      ∀ x ∈ deaths, Fine true x := by
  have hdetached : ∀ x ∈ d.deaths, x.attached = false → Fine true x := fun x hx hx' =>
    ⟨(hfine x hx).detached, fun h => by simp [hx'] at h⟩
  rw [die]
  obtain hzero | hpos := Nat.eq_zero_or_pos (tally attachedOf d.deaths)
  · rw [death_eq_none hzero]
    refine ⟨d.deaths, rfl, rfl, rfl, rfl, fun x hx => hdetached x hx ?_⟩
    simpa using tally_eq_zero.mp hzero x hx
  · obtain ⟨x, hdeath, hx, hattached⟩ := death_eq_some hpos
    have hlist : x.list = .unlisted := by simpa [hlive] using (hfine x hx).attached hattached
    let new : Death := { x with type := .DEAD_BINDER, list := .process }
    have hsum := tally_replace hx new
    have hsum' := hsum attachedOf
    have hdelivered := hsum deliveredOf
    simp only [hdeath]
    refine ⟨(d.replace x new).deaths, if_pos hlist, length_replace hx _, ?_, ?_, ?_⟩
    · have hsame : attachedOf new = attachedOf x := rfl
      omega
    · simpa [hlist, new] using hdelivered
    · refine List.forall_mem_cons.mpr ⟨⟨fun h => ?_, fun _ => ⟨rfl, nofun⟩⟩, fun y hy => ?_⟩
      · exact absurd (hattached.symm.trans h) nofun
      · refine hdetached y (List.mem_of_mem_erase hy) ?_
        have hrest := tally_erase hx attachedOf
        have hle := le_tally hy attachedOf
        simp only [attachedOf, hattached, Bool.toNat_true] at hrest hle
        cases hya : y.attached
        · rfl
        · rw [hya, Bool.toNat_true] at hle
          omega

theorem exitThread_eq (hnone : ∀ x ∈ d.deaths, x.list ≠ .thread thread) :
    d.exitThread thread = { d with looper := Function.update d.looper thread false } := by
  have hmap : d.deaths.map (fun death => if death.list = .thread thread then { death with list := .unlisted } else death) =
      d.deaths := (List.map_congr_left fun x hx => if_neg (hnone x hx)).trans (List.map_id _)
  rw [exitThread, hmap]

end Driver

/-! ## The tasks of the threads -/

namespace Task

/-- Holds `mLock`. -/
@[simp]
def locks : Task → ℕ
  | .linking .. | .unlinking | .clearing => 1
  | _ => 0

/-- References of the proxy: that of the caller, that of the request, that which will be given up. -/
@[simp]
def holds : Task → ℕ
  | .linking .. => 2
  | .unlinking | .clearDone => 1
  | _ => 0

@[simp]
def unlinks : Task → ℕ
  | .unlinking => 1
  | _ => 0

@[simp]
def links : Task → ℕ
  | .linking .. => 1
  | _ => 0

/-- Between `BR_DEAD_BINDER` and `BC_DEAD_BINDER_DONE`. -/
@[simp]
def mourns : Task → ℕ
  | .dead | .clearing | .reporting _ | .finished => 1
  | _ => 0

/-- After `mObitsSent = 1`. -/
@[simp]
def sent : Task → ℕ
  | .reporting _ | .finished => 1
  | _ => 0

@[simp]
def destroys : Task → ℕ
  | .destroying => 1
  | _ => 0

@[simp]
def gives : Task → ℕ
  | .clearDone => 1
  | _ => 0

@[simp]
def pending (ob : Obituary) : Task → ℕ
  | .reporting obits => obits.count ob
  | _ => 0

end Task

namespace World

variable {s t : World} {op : Op} {task : Task} {k : ℕ}

def total (s : World) (f : Task → ℕ) : ℕ := tally (fun op => f op.task) s.ops

theorem total_goto (hop : op ∈ s.ops) (task : Task) (f : Task → ℕ) : (s.goto op task).total f + f op.task = s.total f + f task := by
  have herase := tally_erase hop fun op => f op.task
  simp only [total, goto, tally_cons] at herase ⊢
  omega

theorem total_finish (hop : op ∈ s.ops) (f : Task → ℕ) : (s.finish op).total f + f op.task = s.total f := by
  have herase := tally_erase hop fun op => f op.task
  simp only [total, finish] at herase ⊢
  omega

theorem decWeak_last {u : ℕ} (hone : s.mWeak = 1) (hnone : s.mObituaries = none) :
    s.decWeak u = { s with mWeak := 0, destroyed := true } := by
  cases s
  simp_all [decWeak]

/-- The invariant; `k` references are about to be given up. -/
structure Kept (s : World) (k : ℕ) : Prop where
  lock : s.mLock.toNat = s.total Task.locks
  weak : s.mWeak = s.users + s.total Task.holds + s.driver.deaths.length + k
  attached : tally attachedOf s.driver.deaths + s.total Task.links = s.mObituaries.isSome.toNat
  delivered : tally deliveredOf s.driver.deaths = s.total Task.mourns
  requests : s.driver.requests = s.driver.clears + tally attachedOf s.driver.deaths
  clears : s.driver.requests = s.driver.dones + s.driver.deaths.length
  dones : s.driver.dones = s.released + s.total Task.gives
  sent : s.mObitsSent = true → s.mObituaries = none ∧ s.mLock = false
  told : 0 < s.total Task.sent → s.mObitsSent = true
  opened : s.mLock = true → s.mObituaries.isSome
  emptied : 0 < s.total Task.unlinks → s.mObituaries = some []
  intact : s.total Task.destroys = 0
  destroyed : s.destroyed = true → s.mWeak = 0
  sound : s.faulted = false
  granted : s.driver.failed = false
  fine : ∀ x ∈ s.driver.deaths, Fine s.driver.dead x
  books : ∀ ob, s.linked.count ob = s.unlinked.count ob + (s.mObituaries.getD []).count ob +
    s.total (Task.pending ob) + (s.reported.map Prod.fst).count ob
  fresh : ∀ ob ∈ s.linked, ob.link < s.links
  nodup : s.linked.Nodup

abbrev Inv (s : World) : Prop := s.Kept 0

namespace Kept

theorem access (h : s.Kept k) (hpos : 0 < s.mWeak) : s.access.faulted = false := by
  have hdestroyed := h.destroyed
  have hsound := h.sound
  rw [World.access, hsound]
  cases hd : s.destroyed
  · rfl
  · exact absurd (hdestroyed hd) (Nat.pos_iff_ne_zero.mp hpos)

/-- The last reference is not given up before the proxy is unlinked. -/
theorem decWeak (h : s.Kept 1) (u : ℕ) : Inv (s.decWeak u) := by
  have hweak := h.weak
  by_cases hone : s.mWeak = 1
  · have hattached := h.attached
    have hlinks : s.total Task.links ≤ s.total Task.holds := tally_le fun op _ => by cases op.task <;> simp
    have hnone : s.mObituaries = none := by
      have hdeaths : s.driver.deaths = [] := List.eq_nil_of_length_eq_zero (by omega)
      rw [hdeaths, tally_nil] at hattached
      cases hm : s.mObituaries
      · rfl
      · rw [hm, Option.isSome_some, Bool.toNat_true] at hattached
        omega
    rw [decWeak_last hone hnone]
    exact { h with
      weak := by simp only [total] at hweak ⊢; omega
      destroyed := fun _ => rfl }
  · rw [World.decWeak, if_neg hone]
    exact { h with
      weak := by simp only [total] at hweak ⊢; omega
      destroyed := fun hd => by simp only [h.destroyed hd] }

/-- A step in which one task takes the place of another, in terms of the weights of the two. -/
structure Moved (s t : World) (before after : Option Task) : Prop where
  total : ∀ f, t.total f + before.elim 0 f = s.total f + after.elim 0 f
  lock : t.mLock.toNat + before.elim 0 Task.locks = s.mLock.toNat + after.elim 0 Task.locks
  attached : tally attachedOf t.driver.deaths + after.elim 0 Task.links + s.mObituaries.isSome.toNat =
    tally attachedOf s.driver.deaths + before.elim 0 Task.links + t.mObituaries.isSome.toNat
  delivered : tally deliveredOf t.driver.deaths + before.elim 0 Task.mourns =
    tally deliveredOf s.driver.deaths + after.elim 0 Task.mourns
  requests : t.driver.requests + s.driver.clears + tally attachedOf s.driver.deaths =
    s.driver.requests + t.driver.clears + tally attachedOf t.driver.deaths
  clears : t.driver.requests + s.driver.dones + s.driver.deaths.length =
    s.driver.requests + t.driver.dones + t.driver.deaths.length
  dones : t.driver.dones + s.released + before.elim 0 Task.gives = s.driver.dones + t.released + after.elim 0 Task.gives
  sent : t.mObitsSent = true → t.mObituaries = none ∧ t.mLock = false
  kept : s.mObitsSent = true → t.mObitsSent = true
  told : 0 < after.elim 0 Task.sent → t.mObitsSent = true
  opened : t.mLock = true → t.mObituaries.isSome
  emptied : t.mLock = false ∨ after.elim 0 Task.unlinks = 0 ∧ t.mObituaries = s.mObituaries ∨ t.mObituaries = some []
  intact : after.elim 0 Task.destroys = 0
  granted : t.driver.failed = false
  fine : ∀ x ∈ t.driver.deaths, Fine t.driver.dead x
  books : ∀ ob, t.linked.count ob + s.unlinked.count ob + (s.mObituaries.getD []).count ob +
      before.elim 0 (Task.pending ob) + (s.reported.map Prod.fst).count ob =
    s.linked.count ob + t.unlinked.count ob + (t.mObituaries.getD []).count ob +
      after.elim 0 (Task.pending ob) + (t.reported.map Prod.fst).count ob

theorem moved {k' : ℕ} (before after : Option Task) (h : s.Kept k) (hmoved : Moved s t before after)
    (hweak : t.mWeak + s.users + before.elim 0 Task.holds + s.driver.deaths.length + k =
      s.mWeak + t.users + after.elim 0 Task.holds + t.driver.deaths.length + k')
    (hdestroyed : t.destroyed = true → t.mWeak = 0) (hsound : t.faulted = false)
    (hfresh : ∀ ob ∈ t.linked, ob.link < t.links) (hnodup : t.linked.Nodup) : t.Kept k' where
  lock := by
    have htotal := hmoved.total Task.locks
    have hlock := hmoved.lock
    have hold := h.lock
    lia
  weak := by
    have htotal := hmoved.total Task.holds
    have hold := h.weak
    lia
  attached := by
    have htotal := hmoved.total Task.links
    have hattached := hmoved.attached
    have hold := h.attached
    lia
  delivered := by
    have htotal := hmoved.total Task.mourns
    have hdelivered := hmoved.delivered
    have hold := h.delivered
    lia
  requests := by
    have hrequests := hmoved.requests
    have hold := h.requests
    lia
  clears := by
    have hclears := hmoved.clears
    have hold := h.clears
    lia
  dones := by
    have htotal := hmoved.total Task.gives
    have hdones := hmoved.dones
    have hold := h.dones
    lia
  sent := hmoved.sent
  told hpos := by
    have htotal := hmoved.total Task.sent
    obtain hafter | hold : 0 < after.elim 0 Task.sent ∨ 0 < s.total Task.sent := by lia
    · exact hmoved.told hafter
    · exact hmoved.kept (h.told hold)
  opened := hmoved.opened
  emptied hpos := by
    have htotal := hmoved.total Task.unlinks
    obtain hlock | ⟨hafter, hsame⟩ | hempty := hmoved.emptied
    · have hle : t.total Task.unlinks ≤ t.total Task.locks := tally_le fun op _ => by cases op.task <;> simp
      have hlocks := hmoved.total Task.locks
      have hnew := hmoved.lock
      have hold := h.lock
      rw [hlock, Bool.toNat_false] at hnew
      lia
    · rw [hsame]
      exact h.emptied (by lia)
    · exact hempty
  intact := by
    have htotal := hmoved.total Task.destroys
    have hintact := hmoved.intact
    have hold := h.intact
    lia
  destroyed := hdestroyed
  sound := hsound
  granted := hmoved.granted
  fine := hmoved.fine
  books ob := by
    have htotal := hmoved.total (Task.pending ob)
    have hbooks := hmoved.books ob
    have hold := h.books ob
    lia
  fresh := hfresh
  nodup := hnodup

theorem mWeak_pos (h : s.Kept k) (hop : op ∈ s.ops) (huse : 0 < op.task.holds + op.task.mourns) : 0 < s.mWeak := by
  have hweak := h.weak
  have hdelivered := h.delivered
  have hholds : op.task.holds ≤ s.total Task.holds := le_tally hop fun op => op.task.holds
  have hmourns : op.task.mourns ≤ s.total Task.mourns := le_tally hop fun op => op.task.mourns
  have hlength : tally deliveredOf s.driver.deaths ≤ s.driver.deaths.length := by
    refine (tally_le (g := fun _ => 1) fun x _ => ?_).trans ?_
    · simp only [deliveredOf]
      split <;> omega
    · simp [tally]
  omega

theorem clearDone (h : Inv s) (hop : op ∈ s.ops) (htask : op.task = .clearDone) :
    Kept ({ s.access with released := s.released + 1 }.finish op) 1 := by
  have htotal := total_finish hop
  have hpos := h.mWeak_pos hop (by simp [htask])
  rw [htask] at htotal
  exact h.moved (some .clearDone) none
    { total := htotal
      lock := rfl
      attached := rfl
      delivered := rfl
      requests := rfl
      clears := rfl
      dones := by simp [finish, World.access]; omega
      sent := h.sent
      kept := id
      told := nofun
      opened := h.opened
      emptied := .inr (.inl ⟨rfl, rfl⟩)
      intact := rfl
      granted := h.granted
      fine := h.fine
      books := fun _ => rfl }
    (by simp [finish, World.access]; omega) h.destroyed (h.access hpos) h.fresh h.nodup

/-- A task gives way to another, and nothing else changes. -/
theorem pass (h : s.Kept k) (hop : op ∈ s.ops) (hsent : 0 < task.sent → s.mObitsSent = true)
    (hsame : task.locks = op.task.locks ∧ task.holds = op.task.holds ∧ task.links = op.task.links ∧
      task.mourns = op.task.mourns ∧ task.gives = op.task.gives)
    (hnone : task.unlinks = 0 ∧ task.destroys = 0) (hpending : ∀ ob, task.pending ob = op.task.pending ob) :
    (s.goto op task).Kept k := by
  obtain ⟨hlocks, hholds, hlinks, hmourns, hgives⟩ := hsame
  exact h.moved (some op.task) (some task)
    { total := total_goto hop task
      lock := congrArg _ hlocks.symm
      attached := by simp only [Option.elim, hlinks, goto]
      delivered := congrArg _ hmourns.symm
      requests := rfl
      clears := rfl
      dones := by simp only [Option.elim, hgives, goto]
      sent := h.sent
      kept := id
      told := hsent
      opened := h.opened
      emptied := .inr (.inl ⟨hnone.1, rfl⟩)
      intact := hnone.2
      granted := h.granted
      fine := h.fine
      books := fun ob => by simp only [Option.elim, hpending, goto] }
    (by simp only [Option.elim, hholds, goto]) h.destroyed h.sound h.fresh h.nodup

/-! ## The steps -/

theorem acquire (h : Inv s) (hpos : 0 < s.mWeak) : Inv { s with mWeak := s.mWeak + 1, users := s.users + 1 } := by
  have hweak := h.weak
  exact { h with
    weak := by simp only [total] at hweak ⊢; omega
    destroyed := fun hd => absurd (h.destroyed hd) (Nat.pos_iff_ne_zero.mp hpos) }

theorem release (h : Inv s) (hpos : 0 < s.users) (u : ℕ) : Inv ({ s with users := s.users - 1 }.decWeak u) := by
  have hweak := h.weak
  refine decWeak ?_ u
  exact { h with weak := by simp only [total] at hweak ⊢; omega }

theorem add (h : s.Kept k) (hsome : s.mObituaries.isSome) (hunlinks : s.total Task.unlinks = 0) (recipient cookie flags : ℕ)
    (hsent : s.mObitsSent = false) : (s.add recipient cookie flags).Kept k := by
  obtain ⟨obits, hobits⟩ := Option.isSome_iff_exists.mp hsome
  have hnew : (⟨recipient, cookie, flags, s.links⟩ : Obituary) ∉ s.linked := fun hmem =>
    absurd (h.fresh _ hmem) (Nat.lt_irrefl _)
  exact { h with
    attached := by
      have hattached := h.attached
      rw [hobits] at hattached
      exact hattached
    sent := fun hs => absurd (hsent.symm.trans hs) nofun
    opened := fun _ => rfl
    emptied := fun hpos => absurd hunlinks (Nat.pos_iff_ne_zero.mp hpos)
    books := fun ob => by
      have hbooks := h.books ob
      simp only [total, World.add, Option.getD_some, List.count_append, List.count_cons, List.count_nil] at hbooks ⊢
      omega
    fresh := List.forall_mem_cons.mpr ⟨Nat.lt_succ_self _, fun ob hob => Nat.lt_succ_of_lt (h.fresh ob hob)⟩
    nodup := List.nodup_cons.mpr ⟨hnew, h.nodup⟩ }

theorem free (h : s.Kept k) (hlock : s.mLock = false) : s.total Task.locks = 0 := by
  rw [← h.lock, hlock]
  rfl

theorem unlinks_eq_zero (h : s.Kept k) (hlock : s.mLock = false) : s.total Task.unlinks = 0 := by
  have hle : s.total Task.unlinks ≤ s.total Task.locks := tally_le fun op _ => by cases op.task <;> simp
  have hfree := h.free hlock
  omega

theorem total_cons (s : World) (op : Op) (f : Task → ℕ) : tally (fun op => f op.task) (op :: s.ops) = s.total f + f op.task := by
  rw [tally_cons, total, Nat.add_comm]

theorem linkToDeath (h : Inv s) (hlock : s.mLock = false) (hpos : 0 < s.users) (hm : 0 < s.mWeak)
    (u recipient cookie flags : ℕ) : Inv (s.linkToDeath u recipient cookie flags) := by
  rw [World.linkToDeath]
  split
  case isTrue hsent => exact { h with }
  case isFalse hsent =>
    split
    case isTrue hnone =>
      exact h.moved none (some (.linking recipient cookie flags))
        { total := total_cons s _
          lock := by simp [hlock]
          attached := by simp [hnone]
          delivered := rfl
          requests := rfl
          clears := rfl
          dones := rfl
          sent := fun hs => absurd hs hsent
          kept := id
          told := nofun
          opened := fun _ => rfl
          emptied := .inr (.inr rfl)
          intact := rfl
          granted := h.granted
          fine := h.fine
          books := fun ob => by simp [hnone] }
        (by simp; omega) (fun hd => absurd (h.destroyed hd) (Nat.pos_iff_ne_zero.mp hm)) h.sound h.fresh h.nodup
    case isFalse hsome =>
      exact h.add (Option.isSome_iff_ne_none.mpr hsome) (h.unlinks_eq_zero hlock) recipient cookie flags
        (Bool.eq_false_iff.mpr hsent)

theorem unlinkToDeath (h : Inv s) (hlock : s.mLock = false) (hpos : 0 < s.users) (u : ℕ) (recipient : Option ℕ)
    (cookie flags : ℕ) : Inv (s.unlinkToDeath u recipient cookie flags) := by
  rw [World.unlinkToDeath]
  split
  case isTrue hsent => exact { h with }
  case isFalse hsent =>
    split
    case h_1 => exact { h with }
    case h_2 obit hfind =>
      have hmem := List.mem_of_find?_eq_some hfind
      obtain ⟨obits, hobits⟩ : ∃ obits, s.mObituaries = some obits := by
        cases hm : s.mObituaries
        · simp [hm] at hmem
        · exact ⟨_, rfl⟩
      have hbooks : ∀ ob, (obit :: s.unlinked).count ob + ((s.mObituaries.getD []).erase obit).count ob =
          s.unlinked.count ob + (s.mObituaries.getD []).count ob := by
        intro ob
        have hperm := (List.perm_cons_erase hmem).count_eq ob
        rw [List.count_cons] at hperm ⊢
        lia
      simp only
      split
      case isTrue hempty =>
        exact h.moved none (some .unlinking)
          { total := total_cons s _
            lock := by simp [hlock]
            attached := by simp [hobits]
            delivered := rfl
            requests := rfl
            clears := rfl
            dones := rfl
            sent := fun hs => absurd hs hsent
            kept := id
            told := nofun
            opened := fun _ => rfl
            emptied := .inr (.inr (congrArg some hempty))
            intact := rfl
            granted := h.granted
            fine := h.fine
            books := fun ob => by
              have := hbooks ob
              simp only [Option.elim, Option.getD_some, Task.pending]
              lia }
          (by simp; lia) h.destroyed h.sound h.fresh h.nodup
      case isFalse hrest =>
        have hold := h.attached
        have hunlinks := h.unlinks_eq_zero hlock
        exact { h with
          attached := by rw [hobits] at hold; exact hold
          sent := fun hs => absurd hs hsent
          opened := fun _ => rfl
          emptied := fun hpos => absurd hunlinks (Nat.pos_iff_ne_zero.mp hpos)
          books := fun ob => by
            have := hbooks ob
            have hold := h.books ob
            simp only [total, Option.getD_some] at hold ⊢
            lia }

/-- `mLock` is held by one thread. -/
theorem locked (h : s.Kept k) (hop : op ∈ s.ops) (hlocks : op.task.locks = 1) :
    s.mLock = true ∧ s.mObituaries.isSome ∧ s.mObitsSent = false ∧ s.total Task.links = op.task.links := by
  have hle : op.task.locks ≤ s.total Task.locks := le_tally hop fun op => op.task.locks
  have hlock : s.mLock = true := by
    have hold := h.lock
    cases hm : s.mLock
    · rw [hm, Bool.toNat_false] at hold
      omega
    · rfl
  refine ⟨hlock, h.opened hlock, Bool.eq_false_iff.mpr fun hs => ?_, ?_⟩
  · exact absurd (hlock.symm.trans (h.sent hs).2) nofun
  · have hone := h.lock
    have hrest := tally_erase hop fun op => op.task.locks
    have hlinks := tally_erase hop fun op => op.task.links
    have hpoint : tally (fun op => op.task.links) (s.ops.erase op) ≤ tally (fun op => op.task.locks) (s.ops.erase op) :=
      tally_le fun op _ => by cases op.task <;> simp
    rw [hlock, Bool.toNat_true] at hone
    simp only [total] at hone ⊢
    omega

theorem linking (h : Inv s) {recipient cookie flags : ℕ} (hop : op ∈ s.ops)
    (htask : op.task = .linking recipient cookie flags) :
    Inv (({ s with driver := s.driver.request op.thread, mLock := false, users := s.users + 1 }.add
      recipient cookie flags).finish op) := by
  have htotal := total_finish hop
  obtain ⟨hlock, hsome, hsent, hlinks⟩ := h.locked hop (by rw [htask]; rfl)
  have hattached := h.attached
  rw [htask] at htotal hlinks
  simp only [hsome, hlinks, Bool.toNat_true, Task.links] at hattached
  obtain ⟨new, hrequest, hnew, hlist, hfine⟩ := Driver.request_spec (d := s.driver) (by lia) op.thread
  rw [hrequest]
  have hmid : Inv ({ s with
      driver := { s.driver with deaths := new :: s.driver.deaths, requests := s.driver.requests + 1 }
      mLock := false
      users := s.users + 1 }.finish op) := by
    refine h.moved (some (.linking recipient cookie flags)) none
      { total := htotal
        lock := by simp [hlock, finish]
        attached := by simp [finish, hnew]; lia
        delivered := by simp [finish, hlist]
        requests := by simp [finish, hnew]; lia
        clears := by simp [finish]; lia
        dones := rfl
        sent := fun hs => absurd (hsent.symm.trans hs) nofun
        kept := id
        told := nofun
        opened := nofun
        emptied := .inl rfl
        intact := rfl
        granted := h.granted
        fine := List.forall_mem_cons.mpr ⟨hfine, h.fine⟩
        books := fun ob => by simp [finish] }
      (by simp [finish]; lia) h.destroyed h.sound h.fresh h.nodup
  exact hmid.add hsome (hmid.unlinks_eq_zero rfl) recipient cookie flags hsent

/-- `BC_CLEAR_DEATH_NOTIFICATION` under `mLock`: a death is attached. -/
theorem clear_spec (h : s.Kept k) (hop : op ∈ s.ops) (hlocks : op.task.locks = 1) (hlinks : op.task.links = 0) :
    ∃ deaths, s.driver.clear op.thread = { s.driver with deaths, clears := s.driver.clears + 1 } ∧
      (∀ x ∈ deaths, Fine s.driver.dead x) ∧ deaths.length = s.driver.deaths.length ∧
      tally attachedOf s.driver.deaths = 1 ∧ tally attachedOf deaths = 0 ∧
      tally deliveredOf deaths = tally deliveredOf s.driver.deaths := by
  obtain ⟨-, hsome, -, hzero⟩ := h.locked hop hlocks
  have hattached := h.attached
  rw [hsome, hzero, hlinks, Bool.toNat_true] at hattached
  obtain ⟨old, new, hclear, hold, ha, ha', hlist, hfine⟩ := Driver.clear_spec (by omega) h.fine op.thread
  have hsum := Driver.tally_replace hold new attachedOf
  have hsum' := Driver.tally_replace hold new deliveredOf
  have hsame : deliveredOf new = deliveredOf old := by simp [hlist]
  have hone : attachedOf old = 1 ∧ attachedOf new = 0 := by simp [ha, ha']
  exact ⟨_, hclear, Driver.fine_replace h.fine hfine, Driver.length_replace hold new, hattached, by omega, by omega⟩

theorem unlinking (h : Inv s) (hop : op ∈ s.ops) (htask : op.task = .unlinking) :
    Inv ({ s with
      driver := s.driver.clear op.thread
      mObituaries := none
      mLock := false
      users := s.users + 1
      answer := some .NO_ERROR }.finish op) := by
  have htotal := total_finish hop
  obtain ⟨hlock, hsome, hsent, -⟩ := h.locked hop (by rw [htask]; rfl)
  obtain ⟨deaths, hclear, hfine, hlength, hone, hzero, hdelivered⟩ :=
    h.clear_spec hop (by rw [htask]; rfl) (by rw [htask]; rfl)
  have hempty : s.mObituaries = some [] := by
    have hle : op.task.unlinks ≤ s.total Task.unlinks := le_tally hop fun op => op.task.unlinks
    rw [htask] at hle
    exact h.emptied hle
  rw [htask] at htotal
  rw [hclear]
  exact h.moved (some .unlinking) none
    { total := htotal
      lock := by simp [hlock, finish]
      attached := by simp [finish, hzero, hone, hsome]
      delivered := by simp [finish, hdelivered]
      requests := by simp [finish, hzero, hone]; omega
      clears := by simp only [finish, hlength]
      dones := rfl
      sent := fun hs => absurd (hsent.symm.trans hs) nofun
      kept := id
      told := nofun
      opened := nofun
      emptied := .inl rfl
      intact := rfl
      granted := h.granted
      fine := hfine
      books := fun ob => by simp [finish, hempty] }
    (by simp [finish, hlength]; omega) h.destroyed h.sound h.fresh h.nodup

theorem clearing (h : Inv s) (hop : op ∈ s.ops) (htask : op.task = .clearing) :
    Inv ({ s.access with
      driver := s.driver.clear op.thread
      mObituaries := none
      mObitsSent := true
      mLock := false }.goto op (.reporting (s.mObituaries.getD []))) := by
  have htotal := total_goto hop (.reporting (s.mObituaries.getD []))
  have hpos := h.mWeak_pos hop (by simp [htask])
  obtain ⟨hlock, hsome, hsent, -⟩ := h.locked hop (by rw [htask]; rfl)
  obtain ⟨deaths, hclear, hfine, hlength, hone, hzero, hdelivered⟩ :=
    h.clear_spec hop (by rw [htask]; rfl) (by rw [htask]; rfl)
  rw [htask] at htotal
  rw [hclear]
  exact h.moved (some .clearing) (some (.reporting (s.mObituaries.getD [])))
    { total := htotal
      lock := by simp [hlock, goto]
      attached := by simp [goto, hzero, hone, hsome]
      delivered := by simp [goto, hdelivered]
      requests := by simp [goto, hzero, hone, World.access]; omega
      clears := by simp only [goto, World.access, hlength]
      dones := rfl
      sent := fun _ => ⟨rfl, rfl⟩
      kept := fun _ => rfl
      told := fun _ => rfl
      opened := nofun
      emptied := .inl rfl
      intact := rfl
      granted := h.granted
      fine := hfine
      books := fun ob => by simp [goto, World.access] }
    (by simp [goto, hlength, World.access]) h.destroyed (h.access hpos) h.fresh h.nodup

theorem dead (h : Inv s) (hop : op ∈ s.ops) (htask : op.task = .dead) (hadvance : s.advance op = some t) : Inv t := by
  have hpos := h.mWeak_pos hop (by simp [htask])
  have haccess : Inv s.access := { h with sound := h.access hpos }
  simp only [advance, htask] at hadvance
  split at hadvance
  case isTrue hsent =>
    cases hadvance
    refine haccess.pass hop (fun _ => hsent) ?_ ?_ fun ob => ?_ <;> simp [htask]
  case isFalse hsent =>
    obtain ⟨hlock, hadvance⟩ := Option.ite_none_left_eq_some.mp hadvance
    have hlock := Bool.eq_false_iff.mpr hlock
    split at hadvance
    case isTrue hnone =>
      cases hadvance
      have hmid : Inv { s.access with mObitsSent := true } :=
        { haccess with
          sent := fun _ => ⟨hnone, hlock⟩
          told := fun _ => rfl }
      refine hmid.pass hop (fun _ => rfl) ?_ ?_ fun ob => ?_ <;> simp [htask]
    case isFalse hsome =>
      cases hadvance
      have htotal := total_goto hop .clearing
      rw [htask] at htotal
      exact h.moved (some .dead) (some .clearing)
        { total := htotal
          lock := by simp [hlock, goto]
          attached := rfl
          delivered := rfl
          requests := rfl
          clears := rfl
          dones := rfl
          sent := fun hs => absurd hs hsent
          kept := id
          told := nofun
          opened := fun _ => Option.isSome_iff_ne_none.mpr hsome
          emptied := .inr (.inl ⟨rfl, rfl⟩)
          intact := rfl
          granted := h.granted
          fine := h.fine
          books := fun _ => rfl }
        rfl h.destroyed (h.access hpos) h.fresh h.nodup

theorem report {alive : Bool} (h : Inv s) (hop : op ∈ s.ops) (hreport : s.report op alive = some t) : Inv t := by
  rw [World.report] at hreport
  split at hreport
  case h_1 ob obits htask =>
    cases hreport
    have htotal := total_goto hop (.reporting obits)
    have hpos := h.mWeak_pos hop (by simp [htask])
    have hsent : s.mObitsSent = true := by
      have hle : op.task.sent ≤ s.total Task.sent := le_tally hop fun op => op.task.sent
      rw [htask] at hle
      exact h.told hle
    rw [htask] at htotal
    exact h.moved (some (.reporting (ob :: obits))) (some (.reporting obits))
      { total := htotal
        lock := rfl
        attached := rfl
        delivered := rfl
        requests := rfl
        clears := rfl
        dones := rfl
        sent := h.sent
        kept := id
        told := fun _ => hsent
        opened := h.opened
        emptied := .inr (.inl ⟨rfl, rfl⟩)
        intact := rfl
        granted := h.granted
        fine := h.fine
        books := fun ob' => by simp [goto, World.access, List.count_cons]; omega }
      rfl h.destroyed (h.access hpos) h.fresh h.nodup
  case h_2 => cases hreport

theorem deadBinderDone {death : Death} (h : Inv s) (hop : op ∈ s.ops)
    (hdone : s.deadBinderDone op death = some t) : Inv t := by
  obtain ⟨htask, hdone⟩ := Option.ite_none_left_eq_some.mp hdone
  have htask : op.task = .finished := not_not.mp htask
  have htotal := total_finish hop
  have hsent : s.mObitsSent = true := by
    have hle : op.task.sent ≤ s.total Task.sent := le_tally hop fun op => op.task.sent
    rw [htask] at hle
    exact h.told hle
  have hdelivered := h.delivered
  have hmourns : op.task.mourns ≤ s.total Task.mourns := le_tally hop fun op => op.task.mourns
  rw [htask] at htotal hmourns
  split at hdone
  case isTrue hmem =>
    cases hdone
    have hattached : death.attached = false := by
      have hold := h.attached
      rw [(h.sent hsent).1] at hold
      have hle := le_tally hmem.1 attachedOf
      cases hd : death.attached
      · rfl
      · rw [attachedOf, hd, Bool.toNat_true] at hle
        simp only [Option.isSome_none, Bool.toNat_false] at hold
        omega
    obtain ⟨new, hdone, hnew, hlist, hfine⟩ :=
      Driver.deadBinderDone_spec hmem.2 hattached (h.fine _ hmem.1) op.thread
    have hsum := Driver.tally_replace hmem.1 new attachedOf
    have hsum' := Driver.tally_replace hmem.1 new deliveredOf
    have hlength := Driver.length_replace hmem.1 new
    have hweights : attachedOf death = 0 ∧ attachedOf new = 0 ∧ deliveredOf death = 1 ∧ deliveredOf new = 0 := by
      simp [hattached, hnew, hmem.2, hlist]
    rw [hdone]
    have hsame : tally attachedOf (s.driver.replace death new).deaths = tally attachedOf s.driver.deaths := by omega
    exact h.moved (some .finished) none
      { total := htotal
        lock := rfl
        attached := by simp only [finish, hsame]; rfl
        delivered := by simp only [finish, Option.elim, Task.mourns]; omega
        requests := by simp only [finish, hsame]; rfl
        clears := by simp only [finish, hlength]; rfl
        dones := rfl
        sent := h.sent
        kept := id
        told := nofun
        opened := h.opened
        emptied := .inr (.inl ⟨rfl, rfl⟩)
        intact := rfl
        granted := h.granted
        fine := Driver.fine_replace h.fine hfine
        books := fun _ => rfl }
      (by simp [finish, hlength]) h.destroyed h.sound h.fresh h.nodup
  case isFalse =>
    exfalso
    obtain ⟨hnone, -⟩ := Option.ite_none_right_eq_some.mp hdone
    obtain ⟨x, hx, hpos⟩ := exists_of_tally_pos (hdelivered.symm ▸ hmourns : 0 < tally deliveredOf s.driver.deaths)
    have hne := of_decide_eq_true (List.all_eq_true.mp hnone x hx)
    simp [hne] at hpos

theorem read {death : Death} {u : ℕ} (h : Inv s) (hread : s.read u death = some t) : Inv t := by
  obtain ⟨⟨hmem, hlist⟩, hread⟩ := Option.ite_none_right_eq_some.mp hread
  have hfine := h.fine death hmem
  have hunlisted : death.list ≠ .unlisted ∧ death.list ≠ .delivered := by
    obtain hlist | hlist := hlist <;> simp [hlist]
  split at hread
  case isTrue htype =>
    cases hread
    have hattached : death.attached = false := by
      cases hd : death.attached
      · rfl
      · have := hfine.attached hd
        split at this
        · rw [htype] at this
          exact nomatch this.1
        · exact absurd this hunlisted.1
    have hsum := tally_erase hmem attachedOf
    have hsum' := tally_erase hmem deliveredOf
    have hlength := List.length_erase_of_mem hmem
    have hpos := List.length_pos_of_mem hmem
    have hweights : attachedOf death = 0 ∧ deliveredOf death = 0 := by simp [hattached, hunlisted.2]
    exact h.moved none (some .clearDone)
      { total := total_cons s _
        lock := rfl
        attached := by simp only [Option.elim, Task.links]; lia
        delivered := by simp only [Option.elim, Task.mourns]; lia
        requests := by simp only; lia
        clears := by simp only; lia
        dones := by simp only [Option.elim, Task.gives]; lia
        sent := h.sent
        kept := id
        told := nofun
        opened := h.opened
        emptied := .inr (.inl ⟨rfl, rfl⟩)
        intact := rfl
        granted := h.granted
        fine := fun x hx => h.fine x (List.mem_of_mem_erase hx)
        books := fun _ => rfl }
      (by simp only [Option.elim, Task.holds]; lia) h.destroyed h.sound h.fresh h.nodup
  case isFalse htype =>
    cases hread
    let new : Death := { death with list := .delivered }
    have hnew : Fine s.driver.dead new := by
      refine ⟨fun hd => ?_, fun hd => ?_⟩
      · obtain ⟨hand, -⟩ | ⟨hclear, -⟩ := hfine.detached hd
        · exact .inl ⟨hand, nofun⟩
        · exact absurd hclear htype
      · have := hfine.attached hd
        split at this
        case isTrue hdead => rw [if_pos hdead]; exact ⟨this.1, nofun⟩
        case isFalse => exact absurd this hunlisted.1
    have hsum := Driver.tally_replace hmem new attachedOf
    have hsum' := Driver.tally_replace hmem new deliveredOf
    have hlength := Driver.length_replace hmem new
    have hweights : attachedOf new = attachedOf death ∧ deliveredOf death = 0 ∧ deliveredOf new = 1 :=
      ⟨rfl, if_neg hunlisted.2, rfl⟩
    have hsame : tally attachedOf (s.driver.replace death new).deaths = tally attachedOf s.driver.deaths := by lia
    have hdelivered : tally deliveredOf (s.driver.replace death new).deaths = tally deliveredOf s.driver.deaths + 1 := by
      lia
    exact h.moved none (some .dead)
      { total := total_cons s _
        lock := rfl
        attached := by simp only [hsame, new]; rfl
        delivered := hdelivered
        requests := by simp only [hsame, new]; rfl
        clears := by simp only [hlength, new]; rfl
        dones := rfl
        sent := h.sent
        kept := id
        told := nofun
        opened := h.opened
        emptied := .inr (.inl ⟨rfl, rfl⟩)
        intact := rfl
        granted := h.granted
        fine := Driver.fine_replace h.fine hnew
        books := fun _ => rfl }
      (by simp only [Option.elim, Task.holds, hlength, new]) h.destroyed h.sound h.fresh h.nodup

theorem die (h : Inv s) (hlive : s.driver.dead = false) : Inv { s with driver := s.driver.die } := by
  have hattached := h.attached
  have hone : s.mObituaries.isSome.toNat ≤ 1 := Bool.toNat_le _
  obtain ⟨deaths, hdie, hlength, hsum, hsum', hfine⟩ := Driver.die_spec hlive (by omega) h.fine
  rw [hdie]
  exact { h with
    weak := by simp only [hlength]; exact h.weak
    attached := by simp only [hsum]; exact h.attached
    delivered := by simp only [hsum']; exact h.delivered
    requests := by simp only [hsum]; exact h.requests
    clears := by simp only [hlength]; exact h.clears
    fine := hfine }

/-- A thread exits with no death work in its list. -/
def Sound (s : World) (e : Event) : Prop :=
  ∀ thread, e = .exit thread → ∀ x ∈ s.driver.deaths, x.list ≠ .thread thread

theorem step {e : Event} (h : Inv s) (hsound : Sound s e) (hstep : s.step e = some t) : Inv t := by
  cases e with
  | acquire =>
    obtain ⟨hpos, ht⟩ := Option.ite_none_right_eq_some.mp hstep
    cases ht
    exact h.acquire hpos
  | release u =>
    obtain ⟨hpos, ht⟩ := Option.ite_none_right_eq_some.mp hstep
    cases ht
    exact h.release hpos u
  | linkToDeath u recipient cookie flags =>
    obtain ⟨⟨hpos, hlock⟩, ht⟩ := Option.ite_none_right_eq_some.mp hstep
    cases ht
    have hm : 0 < s.mWeak := by
      have hweak := h.weak
      lia
    have haccess : Inv s.access := { h with sound := h.access hm }
    exact haccess.linkToDeath hlock hpos hm u recipient cookie flags
  | unlinkToDeath u recipient cookie flags =>
    obtain ⟨⟨hpos, hlock⟩, ht⟩ := Option.ite_none_right_eq_some.mp hstep
    cases ht
    have hm : 0 < s.mWeak := by
      have hweak := h.weak
      lia
    have haccess : Inv s.access := { h with sound := h.access hm }
    exact haccess.unlinkToDeath hlock hpos u recipient cookie flags
  | advance op =>
    obtain ⟨hop, hadvance⟩ := Option.ite_none_right_eq_some.mp hstep
    cases htask : op.task with
    | linking recipient cookie flags =>
      simp only [advance, htask, Option.some.injEq] at hadvance
      exact hadvance ▸ h.linking hop htask
    | unlinking =>
      simp only [advance, htask, Option.some.injEq] at hadvance
      exact hadvance ▸ h.unlinking hop htask
    | dead => exact h.dead hop htask hadvance
    | clearing =>
      simp only [advance, htask, Option.some.injEq] at hadvance
      exact hadvance ▸ h.clearing hop htask
    | reporting obits =>
      cases obits with
      | nil =>
        simp only [advance, htask, Option.some.injEq] at hadvance
        rw [← hadvance]
        refine h.pass hop (fun _ => ?_) ?_ ?_ fun ob => ?_
        · have hle : op.task.sent ≤ s.total Task.sent := le_tally hop fun op => op.task.sent
          rw [htask] at hle
          exact h.told hle
        all_goals simp [htask]
      | cons ob obits => simp [advance, htask] at hadvance
    | finished => simp [advance, htask] at hadvance
    | destroying =>
      have hle : op.task.destroys ≤ s.total Task.destroys := le_tally hop fun op => op.task.destroys
      rw [htask, h.intact] at hle
      exact absurd hle (by simp)
    | clearDone =>
      simp only [advance, htask, Option.some.injEq] at hadvance
      exact hadvance ▸ (h.clearDone hop htask).decWeak op.thread
  | report op alive =>
    obtain ⟨hop, hreport⟩ := Option.ite_none_right_eq_some.mp hstep
    exact h.report hop hreport
  | deadBinderDone op death =>
    obtain ⟨hop, hdone⟩ := Option.ite_none_right_eq_some.mp hstep
    exact h.deadBinderDone hop hdone
  | die =>
    obtain ⟨hlive, ht⟩ := Option.ite_none_left_eq_some.mp hstep
    cases ht
    exact h.die (Bool.eq_false_iff.mpr hlive)
  | enterLooper u =>
    cases hstep
    exact { h with }
  | read u death => exact h.read hstep
  | exit u =>
    obtain ⟨-, ht⟩ := Option.ite_none_right_eq_some.mp hstep
    cases ht
    rw [Driver.exitThread_eq (hsound u rfl)]
    exact { h with }

theorem new : Inv World.new where
  lock := rfl
  weak := rfl
  attached := rfl
  delivered := rfl
  requests := rfl
  clears := rfl
  dones := rfl
  sent := nofun
  told := nofun
  opened := nofun
  emptied := nofun
  intact := rfl
  destroyed := nofun
  sound := rfl
  granted := rfl
  fine := nofun
  books := fun _ => rfl
  fresh := nofun
  nodup := List.nodup_nil

end Kept

/-! ## Runs -/

/-- All work is delivered and handled. -/
def Settled (s : World) : Prop := s.ops = [] ∧ ∀ x ∈ s.driver.deaths, x.list = .unlisted

instance (s : World) : Decidable s.Settled := inferInstanceAs (Decidable (s.ops = [] ∧ ∀ x ∈ s.driver.deaths, x.list = .unlisted))

/-- No access to a destroyed proxy and no error in the driver; a link is reported once, and not after its unlink; each
request is cleared once, each clear is acknowledged once, and gives up the reference of its request. -/
structure Protocol (s : World) : Prop where
  sound : s.faulted = false ∧ s.driver.failed = false
  once : (s.reported.map Prod.fst).Nodup
  unlinked : ∀ ob ∈ s.reported.map Prod.fst, ob ∈ s.linked ∧ ob ∉ s.unlinked
  late : s.mObitsSent = true → ∀ u recipient cookie flags t, s.step (.linkToDeath u recipient cookie flags) = some t →
    t.answer = some .DEAD_OBJECT
  matched : s.driver.clears ≤ s.driver.requests ∧ s.driver.dones ≤ s.driver.clears
  released : s.released ≤ s.driver.dones ∧ s.users + s.driver.requests ≤ s.mWeak + s.released
  settled : s.Settled → s.driver.dones = s.driver.clears ∧ s.released = s.driver.clears ∧
    s.mWeak + s.released = s.users + s.driver.requests
  reported : s.Settled → s.driver.dead = true → s.driver.clears = s.driver.requests ∧ s.mWeak = s.users ∧
    ∀ ob ∈ s.linked, ob ∈ s.unlinked ∨ ob ∈ s.reported.map Prod.fst

namespace Kept

theorem count_le (h : Inv s) (ob : Obituary) : s.unlinked.count ob + (s.reported.map Prod.fst).count ob ≤ 1 := by
  have hbooks := h.books ob
  have hone := List.nodup_iff_count_le_one.mp h.nodup ob
  omega

theorem attached_le (s : World) : tally attachedOf s.driver.deaths ≤ s.driver.deaths.length := by
  refine (tally_le (g := fun _ => 1) fun x _ => Bool.toNat_le _).trans ?_
  simp [tally]

/-- A death in no list is attached. -/
theorem settled (h : Inv s) (hsettled : s.Settled) :
    tally attachedOf s.driver.deaths = s.driver.deaths.length ∧ ∀ f, s.total f = 0 := by
  refine ⟨Nat.le_antisymm (attached_le s) ?_, fun f => by rw [total, hsettled.1, tally_nil]⟩
  have hall : tally (fun _ => 1) s.driver.deaths ≤ tally attachedOf s.driver.deaths := by
    refine tally_le fun x hx => ?_
    have hlist := hsettled.2 x hx
    cases hd : x.attached
    · obtain ⟨-, hne⟩ | ⟨-, hne, -⟩ := (h.fine x hx).detached hd <;> exact absurd hlist hne
    · simp [hd]
  simpa [tally] using hall

theorem settled_dead (h : Inv s) (hsettled : s.Settled) (hdead : s.driver.dead = true) : s.driver.deaths = [] := by
  refine List.eq_nil_iff_forall_not_mem.mpr fun x hx => ?_
  have hlist := hsettled.2 x hx
  have hfine := h.fine x hx
  cases hd : x.attached
  · obtain ⟨-, hne⟩ | ⟨-, hne, -⟩ := hfine.detached hd <;> exact hne hlist
  · have hattached := hfine.attached hd
    rw [if_pos hdead] at hattached
    exact hattached.2 hlist

theorem protocol (h : Inv s) : Protocol s where
  sound := ⟨h.sound, h.granted⟩
  once := List.nodup_iff_count_le_one.mpr fun ob => by
    have hle := h.count_le ob
    lia
  unlinked ob hob := by
    have hpos := List.count_pos_iff.mpr hob
    have hle := h.count_le ob
    have hbooks := h.books ob
    exact ⟨List.count_pos_iff.mp (by lia), List.count_eq_zero.mp (by lia)⟩
  late hsent u recipient cookie flags t hstep := by
    obtain ⟨-, ht⟩ := Option.ite_none_right_eq_some.mp hstep
    cases ht
    rw [World.linkToDeath, if_pos (show s.access.mObitsSent = true from hsent)]
  matched := by
    have hle := attached_le s
    have hrequests := h.requests
    have hclears := h.clears
    lia
  released := by
    have hdones := h.dones
    have hclears := h.clears
    have hweak := h.weak
    have hle : s.total Task.gives ≤ s.total Task.holds := tally_le fun op _ => by cases op.task <;> simp
    lia
  settled hsettled := by
    obtain ⟨hattached, htotal⟩ := h.settled hsettled
    have hrequests := h.requests
    have hclears := h.clears
    have hdones := h.dones
    have hweak := h.weak
    rw [htotal] at hdones hweak
    lia
  reported hsettled hdead := by
    have hempty := h.settled_dead hsettled hdead
    obtain ⟨-, htotal⟩ := h.settled hsettled
    have hrequests := h.requests
    have hweak := h.weak
    have hattached := h.attached
    rw [hempty, tally_nil] at hrequests hattached
    rw [htotal] at hattached
    rw [hempty, htotal] at hweak
    have hnone : s.mObituaries = none := by
      cases hm : s.mObituaries
      · rfl
      · rw [hm] at hattached
        exact nomatch hattached
    refine ⟨hrequests.symm, hweak, fun ob hob => ?_⟩
    have hbooks := h.books ob
    have hpos := List.count_pos_iff.mpr hob
    rw [htotal, hnone, Option.getD_none, List.count_nil] at hbooks
    obtain hu | hr : 0 < s.unlinked.count ob ∨ 0 < (s.reported.map Prod.fst).count ob := by lia
    · exact .inl (List.count_pos_iff.mp hu)
    · exact .inr (List.count_pos_iff.mp hr)

end Kept

theorem notifications_along {es : List Event} (hok : Machine.Along step Kept.Sound World.new es)
    (hrun : Machine.run step World.new es = some s) : Protocol s := by
  have hinv : Inv s :=
    Machine.run_invariant_along (I := Inv) (fun _ _ _ hsound hstep h => h.step hsound hstep) hok hrun Kept.new
  exact hinv.protocol

instance (s : World) : ∀ e, Decidable (Kept.Sound s e)
  | .exit thread => decidable_of_iff (∀ x ∈ s.driver.deaths, x.list ≠ .thread thread)
      ⟨fun h _ he => by cases he; exact h, fun h => h thread rfl⟩
  | .acquire | .release _ | .linkToDeath .. | .unlinkToDeath .. | .advance _ | .report .. | .deadBinderDone .. | .die
  | .enterLooper _ | .read .. => isTrue nofun

/-- Looper thread 1 links to a dead binder, reads its obituary, reports it, and exits after the acknowledgement. -/
def soundRun : List Event :=
  [.enterLooper 1, .die, .linkToDeath 1 7 0 0, .advance ⟨1, .linking 7 0 0⟩,
    .read 1 ⟨.DEAD_BINDER, .thread 1, true⟩, .advance ⟨1, .dead⟩, .advance ⟨1, .clearing⟩,
    .report ⟨1, .reporting [⟨7, 0, 0, 0⟩]⟩ true, .advance ⟨1, .reporting []⟩,
    .deadBinderDone ⟨1, .finished⟩ ⟨.DEAD_BINDER_AND_CLEAR, .delivered, false⟩,
    .read 1 ⟨.CLEAR_DEATH_NOTIFICATION, .thread 1, false⟩, .advance ⟨1, .clearDone⟩, .exit 1]

theorem soundRun_protocol : ∃ s, Machine.run step World.new soundRun = some s ∧ Protocol s := by
  have hrun := Option.eq_some_of_isSome (by decide : (Machine.run step World.new soundRun).isSome = true)
  exact ⟨_, hrun, notifications_along (by decide) hrun⟩

/-- The thread exits before it has read the obituary. -/
def exitingRun : List Event :=
  [.enterLooper 1, .die, .linkToDeath 1 7 0 0, .advance ⟨1, .linking 7 0 0⟩, .exit 1]

theorem exitingRun_silent : ¬ ∀ s, Machine.run step World.new exitingRun = some s → Protocol s := by
  intro h
  have hrun := Option.eq_some_of_isSome (by decide : (Machine.run step World.new exitingRun).isSome = true)
  exact absurd ((h _ hrun).reported (by decide) (by decide)) (by decide)

end World

end AudioFlinger.Binder.DeathNotification
