import AudioFlinger.Hashtable.Buckets

/-!
# Tables that share arrays

A table is regular if its array is chained and its counts are right, or if it has
no array and no entries. Every operation takes a regular table beside other
pointers into the heap to a regular one, and leaves their arrays alone.
-/

namespace AudioFlinger.Hashtable

open Foundation SharedHeap

variable {α κ L : Type}

/-- What the parameter promises: a prime number of buckets and a capacity below it that is enough
for the entries asked for. -/
def Kind.Lawful (kind : Kind α κ L) : Prop :=
  ∀ m l n c, kind.determineCapacity m l = some (n, c) → n.Prime ∧ 1 ≤ c ∧ c < n ∧ m ≤ c

namespace Table

/-- The pointer of a table. -/
def pointer (t : Table L) : Multiset ℕ := t.mBuckets.elim 0 fun a => {a}

/-- The array of a table and the entries in it, or none of either. -/
def Contents (h : Arrays α) (t : Table L) (entries : Multiset (BitVec 30 × α)) : Prop :=
  (t.mBuckets = none ∧ entries = 0 ∧ t.mFilledBuckets = 0) ∨
    ∃ a bs, t.mBuckets = some a ∧ h.load a = some bs ∧ Chained bs t.mBucketCount ∧
      lives bs = entries ∧ filledCount bs = t.mFilledBuckets

/-- The numbers of a table. -/
structure Sized (t : Table L) (entries : Multiset (BitVec 30 × α)) : Prop where
  prime : t.mBucketCount.Prime
  capacity_pos : 1 ≤ t.mCapacity
  capacity_lt : t.mCapacity < t.mBucketCount
  filled_le : t.mFilledBuckets ≤ t.mCapacity
  size_eq : t.mSize = Multiset.card entries

structure Regular (h : Arrays α) (t : Table L) (entries : Multiset (BitVec 30 × α)) : Prop
    extends Sized t entries where
  contents : Contents h t entries

/-- A regular table beside other pointers. -/
structure Good (h : Arrays α) (P : Multiset ℕ) (t : Table L)
    (entries : Multiset (BitVec 30 × α)) : Prop where
  owned : Owned h (t.pointer + P)
  regular : Regular h t entries

/-- An operation leaves a regular table and keeps the other arrays. -/
def Leaves (h : Arrays α) (P : Multiset ℕ) (r : Except Fault (Arrays α × Table L))
    (entries : Multiset (BitVec 30 × α)) : Prop :=
  ∃ h' t', r = .ok (h', t') ∧ Good h' P t' entries ∧ Agree P h h'

variable {h h' : Arrays α} {P : Multiset ℕ} {t : Table L} {a : ℕ} {bs : Buckets α}
  {entries : Multiset (BitVec 30 × α)}

theorem pointer_none (ht : t.mBuckets = none) : t.pointer = 0 := by rw [pointer, ht]; rfl

theorem pointer_some (ht : t.mBuckets = some a) : t.pointer = {a} := by rw [pointer, ht]; rfl

theorem pointer_add (ht : t.mBuckets = some a) (P : Multiset ℕ) : t.pointer + P = a ::ₘ P := by
  rw [pointer_some ht, Multiset.singleton_add]

/-- Regularity depends on the table's own array. -/
theorem Regular.agree (hr : Regular h t entries) (hagree : Agree t.pointer h h') :
    Regular h' t entries := by
  refine { hr with contents := ?_ }
  rcases hr.contents with hnone | ⟨a, bs, ht, hload, hrest⟩
  · exact .inl hnone
  · refine .inr ⟨a, bs, ht, ?_, hrest⟩
    rw [hagree a (by rw [pointer_some ht]; exact Multiset.mem_singleton_self a), hload]

theorem array_eq (ht : t.mBuckets = some a) (hload : h.load a = some bs) : t.array h = .ok bs := by
  simp only [array, ht, hload, live]

/-! ## Steps on the heap -/

theorem dispose_spec (ho : Owned h (t.pointer + P)) :
    ∃ h', t.dispose h = .ok h' ∧ Owned h' P ∧ Agree P h h' := by
  cases ht : t.mBuckets with
  | none =>
    rw [pointer_none ht, zero_add] at ho
    exact ⟨h, by rw [dispose, ht], ho, .refl P h⟩
  | some a =>
    rw [pointer_add ht] at ho
    obtain ⟨h', hrelease, ho', hagree⟩ := ho.release
    refine ⟨h', ?_, ho', hagree⟩
    simp only [dispose, ht, hrelease, live]

theorem acquire_spec (ho : Owned h P) (ht : t.pointer ≤ P) :
    ∃ h', t.acquire h = .ok h' ∧ Owned h' (t.pointer + P) ∧ Agree P h h' := by
  cases hb : t.mBuckets with
  | none =>
    rw [pointer_none hb, zero_add]
    exact ⟨h, by rw [acquire, hb], ho, .refl P h⟩
  | some a =>
    have ha : a ∈ P := by
      rw [pointer_some hb, Multiset.singleton_le] at ht
      exact ht
    obtain ⟨h', hacquire, ho', hagree⟩ := ho.acquire ha
    refine ⟨h', ?_, ?_, hagree.mono (Multiset.le_cons_self P a)⟩
    · simp only [acquire, hb, hacquire, live]
    · rw [pointer_add hb]
      exact ho'

theorem replace_spec (ho : Owned h (t.pointer + P)) (bs : Buckets α) :
    ∃ h' a, t.replace h bs = .ok (h', { t with mBuckets := some a }) ∧ Owned h' (a ::ₘ P) ∧
      h'.load a = some bs ∧ Agree P h h' ∧ a ∉ P := by
  obtain ⟨ho₁, hload, hagree⟩ := ho.alloc bs
  set a := (h.alloc bs).1
  have hfresh : a ∉ t.pointer + P := by
    intro hmem
    exact absurd (ho.lt_fresh hmem) (lt_irrefl _)
  have ho₁' : Owned (h.alloc bs).2 (t.pointer + a ::ₘ P) := by
    rw [Multiset.add_cons]
    exact ho₁
  obtain ⟨h', hdispose, ho', hagree'⟩ := dispose_spec ho₁'
  refine ⟨h', a, ?_, ho', ?_, ?_, ?_⟩
  · simp only [replace, bind, Except.bind]
    rw [hdispose]
    rfl
  · rw [hagree' a (Multiset.mem_cons_self a P), hload]
  · have hP : P ≤ t.pointer + P := Multiset.le_add_left ..
    exact (hagree.mono hP).trans (hagree'.mono (Multiset.le_cons_self P a))
  · intro hmem
    exact hfresh (Multiset.mem_add.mpr (.inr hmem))

theorem setArray_spec (ht : t.mBuckets = some a) (ho : Owned h (a ::ₘ P)) (honly : a ∉ P)
    (bs : Buckets α) :
    ∃ h', t.setArray h bs = .ok h' ∧ Owned h' (a ::ₘ P) ∧ h'.load a = some bs ∧ Agree P h h' := by
  obtain ⟨h', hstore, ho', hload, hagree⟩ := ho.store honly bs
  refine ⟨h', ?_, ho', hload, hagree⟩
  simp only [setArray, ht, hstore, live]

theorem onlyOwner_iff (ht : t.mBuckets = some a) (ho : Owned h (a ::ₘ P)) :
    t.onlyOwner h = true ↔ a ∉ P := by
  simp only [onlyOwner, ht, decide_eq_true_eq]
  exact ho.refs_eq_one

/-! ## Editing -/

/-- What `edit` leaves: the only pointer to the array or to a copy of it. -/
structure Edited (h : Arrays α) (P : Multiset ℕ) (t : Table L) (bs : Buckets α) (h' : Arrays α)
    (a : ℕ) (bs' : Buckets α) : Prop where
  edit_eq : t.edit h = .ok (h', { t with mBuckets := some a })
  owned : Owned h' (a ::ₘ P)
  only : a ∉ P
  load : h'.load a = some bs'
  same : bs' = bs ∨ bs' = copyBuckets bs
  agree : Agree P h h'

theorem edit_spec (ht : t.mBuckets = some a) (ho : Owned h (a ::ₘ P)) (hload : h.load a = some bs) :
    ∃ h' a' bs', Edited h P t bs h' a' bs' := by
  by_cases honly : a ∈ P
  · have hshared : t.onlyOwner h = false := by
      by_contra hc
      exact (onlyOwner_iff ht ho).mp (by simpa using hc) honly
    have ho' : Owned h (t.pointer + P) := by
      rw [pointer_add ht]
      exact ho
    obtain ⟨h', a', hreplace, howned, hload', hagree, hnot⟩ := replace_spec ho' (copyBuckets bs)
    refine ⟨h', a', copyBuckets bs, ?_, howned, hnot, hload', .inr rfl, hagree⟩
    rw [edit, ht, hshared]
    simp only [Option.isSome_some, Bool.not_false, Bool.and_self, if_true, array_eq ht hload, bind,
      Except.bind]
    exact hreplace
  · have howner : t.onlyOwner h = true := (onlyOwner_iff ht ho).mpr honly
    refine ⟨h, a, bs, ?_, ho, honly, hload, .inl rfl, .refl P h⟩
    rw [edit, howner, Bool.not_true, Bool.and_false, if_neg Bool.false_ne_true]
    simp only [pure, Except.pure, ← ht]

theorem Edited.chained {bs' : Buckets α} {a' count : ℕ} (he : Edited h P t bs h' a' bs')
    (hc : Chained bs count) :
    Chained bs' count ∧ lives bs' = lives bs ∧ filledCount bs' = filledCount bs := by
  rcases he.same with rfl | rfl
  · exact ⟨hc, rfl, rfl⟩
  · exact hc.copy

theorem good_of_array (ht : t.mBuckets = some a) (ho : Owned h (a ::ₘ P))
    (hload : h.load a = some bs) (hchained : Chained bs t.mBucketCount) (hlives : lives bs = entries)
    (hfilled : filledCount bs = t.mFilledBuckets) (hs : Sized t entries) : Good h P t entries := by
  refine ⟨?_, ⟨hs, .inr ⟨a, bs, ht, hload, hchained, hlives, hfilled⟩⟩⟩
  rw [pointer_add ht]
  exact ho

theorem good_of_none (ht : t.mBuckets = none) (ho : Owned h P) (hempty : entries = 0)
    (hfilled : t.mFilledBuckets = 0) (hs : Sized t entries) : Good h P t entries := by
  refine ⟨?_, ⟨hs, .inl ⟨ht, hempty, hfilled⟩⟩⟩
  rw [pointer_none ht, zero_add]
  exact ho

theorem Good.mem_entries (hg : Good h P t entries) (ht : t.mBuckets = some a)
    (hload : h.load a = some bs) {i : ℕ} {b : Bucket α} (hb : bs[i]? = some b)
    {x : BitVec 30 × α} (hlive : b.live = some x) : x ∈ entries := by
  obtain ⟨hnone, -, -⟩ | ⟨a₀, bs₀, ht₀, hload₀, -, rfl, -⟩ := hg.regular.contents
  · rw [ht] at hnone
    cases hnone
  · rw [ht] at ht₀
    cases ht₀
    rw [hload] at hload₀
    cases hload₀
    rw [lives, Multiset.mem_coe, List.mem_filterMap]
    exact ⟨b, List.mem_of_getElem? hb, hlive⟩

/-! ## Removing -/

variable {kind : Kind α κ L}

theorem removeAt_leaves (hg : Good h P t entries) (ht : t.mBuckets = some a)
    (hload : h.load a = some bs) {i : ℕ} {b : Bucket α} (hb : bs[i]? = some b)
    {x : BitVec 30 × α} (hlive : b.live = some x) {rest : Multiset (BitVec 30 × α)}
    (hentries : entries = x ::ₘ rest) : Leaves h P (t.removeAt kind h i) rest := by
  have hr := hg.regular
  have ho := hg.owned
  rw [pointer_add ht] at ho
  obtain ⟨hnone, -, -⟩ | ⟨a₀, bs₀, ht₀, hload₀, hchained, hlives, hfilled⟩ := hr.contents
  · rw [ht] at hnone
    cases hnone
  · rw [ht] at ht₀
    cases ht₀
    rw [hload] at hload₀
    cases hload₀
    obtain ⟨h₁, a₁, bs₁, he⟩ := edit_spec ht ho hload
    obtain ⟨hchained₁, hlives₁, hfilled₁⟩ := he.chained hchained
    have hpresent : b.present = true := by
      cases hp : b.present with
      | true => rfl
      | false =>
        rw [Bucket.live, hp] at hlive
        cases hlive
    have hb₁ : bs₁[i]? = some b := by
      rcases he.same with rfl | rfl
      · exact hb
      · exact copyBuckets_present hb hpresent
    obtain ⟨hchained₂, hlives₂, hfilled₂⟩ := hchained₁.remove kind hb₁ hlive
    obtain ⟨h₂, hset, ho₂, hload₂, hagree₂⟩ :=
      @setArray_spec _ _ h₁ P { t with mBuckets := some a₁ } a₁ rfl he.owned he.only
        (bs₁.set i (b.removed kind))
    set filled := if b.collision then t.mFilledBuckets else t.mFilledBuckets - 1 with hfilledDef
    have hrest : lives (bs₁.set i (b.removed kind)) = rest := by
      rw [hlives₁, hlives, hentries, Multiset.cons_inj_right] at hlives₂
      exact hlives₂.symm
    refine ⟨h₂, { t with mBuckets := some a₁, mFilledBuckets := filled, mSize := t.mSize - 1 }, ?_,
      ?_, he.agree.trans hagree₂⟩
    · have harray : ({ t with mBuckets := some a₁ } : Table L).array h₁ = .ok bs₁ :=
        array_eq rfl he.load
      simp only [removeAt, bind, Except.bind, he.edit_eq, harray, bucketAt_eq hb₁]
      simp only [Bucket.removed] at hset
      rw [hset]
      rfl
    · have hcount : filledCount (bs₁.set i (b.removed kind)) = filled := by
        rw [hfilledDef]
        split at hfilled₂
        next hc =>
          rw [if_pos hc]
          lia
        next hc =>
          rw [if_neg hc]
          lia
      have hle : filled ≤ t.mFilledBuckets := by
        rw [hfilledDef]
        split <;> lia
      have hsize := hr.size_eq
      rw [hentries, Multiset.card_cons] at hsize
      exact good_of_array rfl ho₂ hload₂ hchained₂ hrest hcount
        { prime := hr.prime
          capacity_pos := hr.capacity_pos
          capacity_lt := hr.capacity_lt
          filled_le := hle.trans hr.filled_le
          size_eq := by
            change t.mSize - 1 = _
            lia }

/-! ## Clearing -/

theorem resetBuckets_blank (kind : Kind α κ L) (bs : Buckets α) :
    ∀ b ∈ resetBuckets kind bs, b.collision = false ∧ b.present = false := by
  intro b hb
  obtain ⟨c, -, rfl⟩ := List.mem_map.mp hb
  exact ⟨rfl, rfl⟩

theorem clear_leaves (hg : Good h P t entries) : Leaves h P (t.clear kind h) 0 := by
  have hr := hg.regular
  have ho := hg.owned
  obtain ⟨hnone, hzero, hfilled⟩ | ⟨a, bs, ht, hload, hchained, hlives, hfilled⟩ := hr.contents
  · refine ⟨h, t, ?_, ⟨ho, ?_⟩, .refl P h⟩
    · rw [clear, hnone]
      rfl
    · subst hzero
      exact hr
  · by_cases hempty : t.mFilledBuckets = 0
    · -- Without a filled bucket there is no entry.
      have hnil : lives bs = 0 := by
        apply Multiset.card_eq_zero.mp
        rw [card_lives hchained]
        apply List.countP_eq_zero.mpr
        intro b hb hpresent
        have hcount := List.countP_eq_zero.mp (hfilled.trans hempty) b hb
        rw [Bucket.filled, hpresent, Bool.or_true] at hcount
        exact hcount rfl
      refine ⟨h, { t with mSize := 0 }, ?_, ⟨ho, ?_⟩, .refl P h⟩
      · rw [clear, ht]
        simp only [Option.isSome_some, if_true, hempty, ne_eq, not_true_eq_false, if_false]
        rfl
      · exact ⟨⟨hr.prime, hr.capacity_pos, hr.capacity_lt, hr.filled_le, rfl⟩,
          .inr ⟨a, bs, ht, hload, hchained, hnil, hfilled⟩⟩
    · rw [pointer_add ht] at ho
      cases howner : t.onlyOwner h with
      | true =>
        obtain ⟨h', hset, ho', hload', hagree⟩ :=
          setArray_spec ht ho ((onlyOwner_iff ht ho).mp howner) (resetBuckets kind bs)
        obtain ⟨hchained', hlives', hfilled'⟩ := chained_blank
          ((List.length_map _).trans hchained.length_eq) (resetBuckets_blank kind bs)
        refine ⟨h', { t with mFilledBuckets := 0, mSize := 0 }, ?_, ?_, hagree⟩
        · rw [clear, ht]
          simp only [Option.isSome_some, if_true, ne_eq, hempty, not_false_eq_true, howner,
            array_eq ht hload, bind, Except.bind, hset]
          rfl
        · exact good_of_array ht ho' hload' hchained' hlives' hfilled'
            ⟨hr.prime, hr.capacity_pos, hr.capacity_lt, Nat.zero_le _, rfl⟩
      | false =>
        rw [← pointer_add ht] at ho
        obtain ⟨h', hdispose, ho', hagree⟩ := dispose_spec ho
        refine ⟨h', { t with mBuckets := none, mFilledBuckets := 0, mSize := 0 }, ?_, ?_, hagree⟩
        · rw [clear, ht]
          simp only [Option.isSome_some, if_true, ne_eq, hempty, not_false_eq_true, howner,
            Bool.false_eq_true, if_false, bind, Except.bind, hdispose]
          rfl
        · exact good_of_none rfl ho' rfl rfl
            ⟨hr.prime, hr.capacity_pos, hr.capacity_lt, Nat.zero_le _, rfl⟩

/-! ## Rehashing -/

/-- A rehash that moves the entries: the new array is the table's own, with one filled bucket for
each entry. -/
theorem rehash_moves (hk : kind.Lawful) (hg : Good h P t entries) (ht : t.mBuckets = some a)
    {m n c : ℕ} {l : L} (hdetermine : kind.determineCapacity (max m t.mSize) l = some (n, c))
    (hchange : n ≠ t.mBucketCount ∨ c ≠ t.mCapacity) (hsize : t.mSize ≠ 0) :
    ∃ h' t' a' bs', t.rehash kind h m l = .ok (h', t') ∧ Good h' P t' entries ∧ Agree P h h' ∧
      t'.mBuckets = some a' ∧ a' ∉ P ∧ h'.load a' = some bs' ∧ t'.mFilledBuckets = t.mSize ∧
      t'.mCapacity = c := by
  have hr := hg.regular
  obtain ⟨hprime, hpos, hlt, hle⟩ := hk _ _ _ _ hdetermine
  obtain ⟨hnone, -, -⟩ | ⟨a₀, bs, ht₀, hload, hchained, hlives, -⟩ := hr.contents
  · rw [ht] at hnone
    cases hnone
  · rw [ht] at ht₀
    cases ht₀
    obtain ⟨hblank, hblankLives, -⟩ := @chained_blank α n (List.replicate n Bucket.blank)
      List.length_replicate (fun b hb => by rw [List.eq_of_mem_replicate hb]; exact ⟨rfl, rfl⟩)
    have hcompact : Compact (List.replicate n (Bucket.blank : Bucket α)) := by
      intro b hb hcollision
      rw [List.eq_of_mem_replicate hb] at hcollision
      cases hcollision
    have hcard := hr.size_eq
    have hroom : Multiset.card (lives bs) +
        Multiset.card (lives (List.replicate n (Bucket.blank : Bucket α))) < n := by
      rw [hlives, hblankLives, Multiset.card_zero]
      lia
    have hentry : ∀ b ∈ bs, b.present = true → b.entry.isSome = true := by
      intro b hb
      obtain ⟨i, hi, rfl⟩ := List.mem_iff_getElem.mp hb
      exact hchained.entry i _ (List.getElem?_eq_getElem hi)
    obtain ⟨new, hmove, hnew, hnewCompact, hnewLives⟩ :=
      moveBuckets_spec hprime hblank hcompact hentry hroom
    rw [hblankLives, add_zero, hlives] at hnewLives
    set t₁ : Table L := { t with mBucketCount := n, mCapacity := c, mLoadFactor := l }
    have ho : Owned h (t₁.pointer + P) := hg.owned
    obtain ⟨h', a', hreplace, ho', hload', hagree, honly⟩ := replace_spec ho new
    refine ⟨h', { t₁ with mBuckets := some a', mFilledBuckets := t.mSize }, a', new, ?_, ?_,
      hagree, rfl, honly, hload', rfl, rfl⟩
    · simp only [rehash, hdetermine, if_pos hchange, ht, Option.isSome_some, if_true, ne_eq, hsize,
        not_false_eq_true, array_eq ht hload, bind, Except.bind, hmove]
      simp only [t₁, ht] at hreplace
      rw [hreplace]
      rfl
    · apply good_of_array rfl ho' hload' hnew hnewLives
      · rw [filledCount_compact hnew hnewCompact, hnewLives]
        exact hcard.symm
      · exact ⟨hprime, hpos, hlt, by change t.mSize ≤ c; lia, hcard⟩

theorem rehash_leaves (hk : kind.Lawful) (hg : Good h P t entries) (m : ℕ) (l : L) :
    t.rehash kind h m l = .error .aborted ∨ Leaves h P (t.rehash kind h m l) entries := by
  have hr := hg.regular
  cases hdetermine : kind.determineCapacity (max m t.mSize) l with
  | none =>
    left
    rw [rehash, hdetermine]
  | some sizes =>
    obtain ⟨n, c⟩ := sizes
    obtain ⟨hprime, hpos, hlt, hle⟩ := hk _ _ _ _ hdetermine
    right
    by_cases hchange : n ≠ t.mBucketCount ∨ c ≠ t.mCapacity
    · cases ht : t.mBuckets with
      | none =>
        have hnone : entries = 0 ∧ t.mFilledBuckets = 0 := by
          rcases hr.contents with ⟨-, hrest⟩ | ⟨a, bs, hsome, -⟩
          · exact hrest
          · rw [ht] at hsome
            cases hsome
        have ho := hg.owned
        rw [pointer_none ht, zero_add] at ho
        refine ⟨h, { t with mBucketCount := n, mCapacity := c, mLoadFactor := l }, ?_, ?_,
          .refl P h⟩
        · simp only [rehash, hdetermine, if_pos hchange, ht]
          rfl
        · refine good_of_none ht ho hnone.1 hnone.2 ⟨hprime, hpos, hlt, ?_, hr.size_eq⟩
          change t.mFilledBuckets ≤ c
          omega
      | some a =>
        by_cases hsize : t.mSize = 0
        · obtain ⟨h', hdispose, ho', hagree⟩ := dispose_spec hg.owned
          have hzero : entries = 0 := by
            have hcard := hr.size_eq
            rw [hsize] at hcard
            exact Multiset.card_eq_zero.mp hcard.symm
          set t₁ : Table L := { t with mBucketCount := n, mCapacity := c, mLoadFactor := l }
          refine ⟨h', { t₁ with mBuckets := none, mFilledBuckets := t.mSize }, ?_, ?_, hagree⟩
          · have hnot : ¬ t.mSize ≠ 0 := not_not.mpr hsize
            simp only [rehash, hdetermine, if_pos hchange, ht, Option.isSome_some, if_true,
              if_neg hnot, bind, Except.bind, hdispose]
            rfl
          · refine good_of_none rfl ho' hzero hsize ⟨hprime, hpos, hlt, ?_, hr.size_eq⟩
            change t.mSize ≤ c
            omega
        · obtain ⟨h', t', a', bs', hrehash, hgood, hagree, -⟩ :=
            rehash_moves hk hg ht hdetermine hchange hsize
          exact ⟨h', t', hrehash, hgood, hagree⟩
    · refine ⟨h, { t with mLoadFactor := l }, ?_, ⟨hg.owned, ?_⟩, .refl P h⟩
      · simp only [rehash, hdetermine, if_neg hchange]
        rfl
      · exact ⟨⟨hr.prime, hr.capacity_pos, hr.capacity_lt, hr.filled_le, hr.size_eq⟩, hr.contents⟩

/-! ## Adding -/

variable {hash : BitVec 30} {e : α}

/-- What adding leaves. -/
def Adds (h : Arrays α) (P : Multiset ℕ) (r : Except Fault (Arrays α × Table L × ℕ))
    (entries : Multiset (BitVec 30 × α)) : Prop :=
  ∃ h' t' i, r = .ok (h', t', i) ∧ Good h' P t' entries ∧ Agree P h h'

/-- A table that owns its array alone. -/
structure Sole (h : Arrays α) (P : Multiset ℕ) (t : Table L) (entries : Multiset (BitVec 30 × α))
    (a : ℕ) (bs : Buckets α) : Prop extends Sized t entries where
  mBuckets : t.mBuckets = some a
  owned : Owned h (a ::ₘ P)
  only : a ∉ P
  load : h.load a = some bs
  chained : Chained bs t.mBucketCount
  lives_eq : lives bs = entries
  filled_eq : filledCount bs = t.mFilledBuckets

theorem Sole.good (hs : Sole h P t entries a bs) : Good h P t entries :=
  good_of_array hs.mBuckets hs.owned hs.load hs.chained hs.lives_eq hs.filled_eq hs.toSized

theorem Good.sole (hg : Good h P t entries) (ht : t.mBuckets = some a) (honly : a ∉ P)
    (hload : h.load a = some bs) : Sole h P t entries a bs := by
  have ho := hg.owned
  rw [pointer_add ht] at ho
  obtain ⟨hnone, -, -⟩ | ⟨a₀, bs₀, ht₀, hload₀, hchained, hlives, hfilled⟩ := hg.regular.contents
  · rw [ht] at hnone
    cases hnone
  · rw [ht] at ht₀
    cases ht₀
    rw [hload] at hload₀
    cases hload₀
    exact ⟨hg.regular.toSized, ht, ho, honly, hload, hchained, hlives, hfilled⟩

/-- The search for a bucket, with the marks written to the array. -/
theorem Sole.seek (hs : Sole h P t entries a bs) (hash : BitVec 30) :
    ∃ h₁ bs' i b, freeBucket bs t.mBucketCount hash = .ok (bs', i) ∧
      Free bs t.mBucketCount hash bs' i b ∧ t.setArray h bs' = .ok h₁ ∧ Agree P h h₁ ∧
      Sole h₁ P t entries a bs' := by
  have habsent : ∃ b ∈ bs, b.present = false := by
    have hlt : filledCount bs < t.mBucketCount := by
      rw [hs.filled_eq]
      exact lt_of_le_of_lt hs.filled_le hs.capacity_lt
    obtain ⟨b, hb, hfalse⟩ := exists_unfilled hs.chained.length_eq hlt
    rw [Bucket.filled, Bool.or_eq_false_iff] at hfalse
    exact ⟨b, hb, hfalse.2⟩
  obtain ⟨bs', i, b, hfind, hfree⟩ :=
    freeBucket_spec hs.prime hs.chained.length_eq habsent hash
  obtain ⟨h₁, hset, ho₁, hload₁, hagree⟩ := setArray_spec hs.mBuckets hs.owned hs.only bs'
  refine ⟨h₁, bs', i, b, hfind, hfree, hset, hagree, hs.toSized, hs.mBuckets, ho₁, hs.only, hload₁,
    hs.chained.marked hfree.marked, ?_, ?_⟩
  · rw [hfree.marked.lives_eq, hs.lives_eq]
  · rw [hfree.marked.filled_eq, hs.filled_eq]

/-- The entry is placed. -/
theorem Sole.place {h₁ : Arrays α} {bs' : Buckets α} {i : ℕ} {b : Bucket α}
    (hs : Sole h P t entries a bs) (hs₁ : Sole h₁ P t entries a bs')
    (hfree : Free bs t.mBucketCount hash bs' i b)
    (hroom : b.collision = true ∨ t.mFilledBuckets < t.mCapacity) (e : α) :
    ∃ h₂, t.setArray h₁ (bs'.set i ⟨b.collision, true, hash, some e⟩) = .ok h₂ ∧
      Good h₂ P
        { t with
          mFilledBuckets := if b.collision then t.mFilledBuckets else t.mFilledBuckets + 1
          mSize := t.mSize + 1 } ((hash, e) ::ₘ entries) ∧ Agree P h₁ h₂ := by
  obtain ⟨hchained, hlives, hfilled⟩ := hfree.place hs.chained e
  obtain ⟨h₂, hset, ho₂, hload₂, hagree⟩ := setArray_spec hs₁.mBuckets hs₁.owned hs₁.only
    (bs'.set i ⟨b.collision, true, hash, some e⟩)
  refine ⟨h₂, hset, ?_, hagree⟩
  refine good_of_array (by exact hs.mBuckets) ho₂ hload₂ (by exact hchained) ?_ ?_ ?_
  · rw [hlives, hs.lives_eq]
  · rw [hfilled, hs.filled_eq]
  · refine ⟨hs.prime, hs.capacity_pos, hs.capacity_lt, ?_, ?_⟩
    · have hle := hs.filled_le
      change (if b.collision then t.mFilledBuckets else t.mFilledBuckets + 1) ≤ t.mCapacity
      split
      next hc => exact hle
      next hc =>
        rcases hroom with hcollision | hlt
        · exact absurd hcollision hc
        · exact hlt
    · rw [Multiset.card_cons, ← hs.size_eq]

/-- With room below the capacity the loop ends in its first round. -/
theorem addLoop_room (hs : Sole h P t entries a bs) (hroom : t.mFilledBuckets < t.mCapacity)
    (rounds : ℕ) :
    Adds h P (addLoop kind hash e (rounds + 1) h t) ((hash, e) ::ₘ entries) := by
  obtain ⟨h₁, bs', i, b, hfind, hfree, hset, hagree, hs₁⟩ := hs.seek hash
  obtain ⟨h₂, hset₂, hgood, hagree₂⟩ := hs.place hs₁ hfree (.inr hroom) e
  refine ⟨h₂, _, i, ?_, hgood, hagree.trans hagree₂⟩
  have hfull : (!b.collision && decide (t.mCapacity ≤ t.mFilledBuckets)) = false := by
    rw [decide_eq_false (Nat.not_le.mpr hroom), Bool.and_false]
  simp only [addLoop, bind, Except.bind, array_eq hs.mBuckets hs.load, hfind, hset,
    bucketAt_eq hfree.at_index, hfull, Bool.false_eq_true, if_false, hset₂]
  rfl

/-- The case that the loop cannot handle: no entries, no room, and a first bucket that is not
marked. -/
def Stuck (t : Table L) (bs : Buckets α) (hash : BitVec 30) : Prop :=
  t.mSize = 0 ∧ t.mCapacity ≤ t.mFilledBuckets ∧
    ¬ Collides bs (chainStart hash t.mBucketCount)

instance (t : Table L) (bs : Buckets α) (hash : BitVec 30) : Decidable (Stuck t bs hash) :=
  inferInstanceAs (Decidable (_ ∧ _ ∧ ¬ _))

/-- Otherwise two rounds are enough: the first may rehash. -/
theorem addLoop_adds (hk : kind.Lawful) (hs : Sole h P t entries a bs)
    (hstuck : ¬ Stuck t bs hash) :
    addLoop kind hash e 2 h t = .error .aborted ∨
      Adds h P (addLoop kind hash e 2 h t) ((hash, e) ::ₘ entries) := by
  obtain ⟨h₁, bs', i, b, hfind, hfree, hset, hagree, hs₁⟩ := hs.seek hash
  by_cases hfull : b.collision = false ∧ t.mCapacity ≤ t.mFilledBuckets
  · have hcond : (!b.collision && decide (t.mCapacity ≤ t.mFilledBuckets)) = true := by
      rw [hfull.1, decide_eq_true hfull.2]
      rfl
    have hunfold : addLoop kind hash e 2 h t =
        (t.rehash kind h₁ (t.mCapacity * 2) t.mLoadFactor).bind
          fun p => addLoop kind hash e 1 p.1 p.2 := by
      rw [addLoop]
      simp only [bind, Except.bind, array_eq hs.mBuckets hs.load, hfind, hset,
        bucketAt_eq hfree.at_index, hcond, if_true]
    have hsize : t.mSize ≠ 0 := by
      intro hzero
      apply hstuck
      refine ⟨hzero, hfull.2, ?_⟩
      -- Without entries the first bucket is the free one.
      have hnone : ∀ c ∈ bs, c.present = false := by
        intro c hc
        have hcard := card_lives hs.chained
        rw [hs.lives_eq, ← hs.size_eq, hzero] at hcard
        exact by simpa using List.countP_eq_zero.mp hcard.symm c hc
      obtain ⟨rfl, rfl⟩ := hfree.first hnone
      rintro ⟨c, hc, hcollision⟩
      rw [hfree.at_index] at hc
      cases hc
      rw [hfull.1] at hcollision
      cases hcollision
    rw [hunfold]
    cases hdetermine : kind.determineCapacity (max (t.mCapacity * 2) t.mSize) t.mLoadFactor with
    | none =>
      left
      rw [rehash, hdetermine]
      rfl
    | some sizes =>
      obtain ⟨n, c⟩ := sizes
      right
      obtain ⟨-, -, -, hle⟩ := hk _ _ _ _ hdetermine
      have hpos := hs.capacity_pos
      have hfilled := hs.filled_le
      have hchange : n ≠ t.mBucketCount ∨ c ≠ t.mCapacity := by
        right
        lia
      obtain ⟨h₂, t₂, a₂, bs₂, hrehash, hgood, hagree₂, ht₂, honly₂, hload₂, hfilled₂, hcapacity₂⟩ :=
        rehash_moves hk hs₁.good hs.mBuckets hdetermine hchange hsize
      have hroom : t₂.mFilledBuckets < t₂.mCapacity := by
        have hcount : t.mSize ≤ t.mFilledBuckets := by
          rw [hs.size_eq, ← hs.lives_eq, card_lives hs.chained, ← hs.filled_eq]
          apply List.countP_mono_left
          intro b _ hp
          rw [Bucket.filled, hp, Bool.or_true]
        rw [hfilled₂, hcapacity₂]
        lia
      obtain ⟨h₃, t₃, i₃, hadd, hgood₃, hagree₃⟩ :=
        @addLoop_room _ _ _ _ _ _ _ _ _ kind hash e (hgood.sole ht₂ honly₂ hload₂) hroom 0
      refine ⟨h₃, t₃, i₃, ?_, hgood₃, (hagree.trans hagree₂).trans hagree₃⟩
      rw [hrehash]
      exact hadd
  · right
    have hroom : b.collision = true ∨ t.mFilledBuckets < t.mCapacity := by
      cases hc : b.collision with
      | true => exact .inl rfl
      | false => exact .inr (Nat.lt_of_not_le fun hle => hfull ⟨hc, hle⟩)
    have hcond : (!b.collision && decide (t.mCapacity ≤ t.mFilledBuckets)) = false := by
      rcases hroom with hc | hlt
      · rw [hc]
        rfl
      · rw [decide_eq_false (Nat.not_le.mpr hlt), Bool.and_false]
    obtain ⟨h₂, hset₂, hgood, hagree₂⟩ := hs.place hs₁ hfree hroom e
    refine ⟨h₂, _, i, ?_, hgood, hagree.trans hagree₂⟩
    rw [addLoop]
    simp only [bind, Except.bind, array_eq hs.mBuckets hs.load, hfind, hset,
      bucketAt_eq hfree.at_index, hcond, Bool.false_eq_true, if_false, hset₂]
    rfl

theorem collides_copy {i : ℕ} : Collides (copyBuckets bs) i ↔ Collides bs i := by
  constructor
  · rintro ⟨c, hc, hcollision⟩
    obtain ⟨b, hb, hsame, -⟩ := copyBuckets_cookie hc
    exact ⟨b, hb, hsame ▸ hcollision⟩
  · rintro ⟨c, hc, hcollision⟩
    refine ⟨_, (copyBuckets_get i).trans (by rw [hc, Option.map_some]), ?_⟩
    split
    · exact hcollision
    · exact hcollision

theorem add_adds (hk : kind.Lawful) (hg : Good h P t entries) {hash : BitVec 32}
    (hstuck : ∀ a bs, t.mBuckets = some a → h.load a = some bs → ¬ Stuck t bs (trimHash hash)) :
    t.add kind h hash e = .error .aborted ∨
      Adds h P (t.add kind h hash e) ((trimHash hash, e) ::ₘ entries) := by
  have hr := hg.regular
  have ho := hg.owned
  cases ht : t.mBuckets with
  | none =>
    have hnone : entries = 0 ∧ t.mFilledBuckets = 0 := by
      rcases hr.contents with ⟨-, hrest⟩ | ⟨a, bs, hsome, -⟩
      · exact hrest
      · rw [ht] at hsome
        cases hsome
    rw [pointer_none ht, zero_add] at ho
    set blank : Buckets α := List.replicate t.mBucketCount Bucket.blank
    obtain ⟨ho₁, hload, hagree⟩ := ho.alloc blank
    obtain ⟨hchained, hlives, hfilled⟩ := @chained_blank α t.mBucketCount blank
      List.length_replicate (fun b hb => by rw [List.eq_of_mem_replicate hb]; exact ⟨rfl, rfl⟩)
    have honly : (h.alloc blank).1 ∉ P := fun hmem => absurd (ho.lt_fresh hmem) (lt_irrefl _)
    have hs : Sole (h.alloc blank).2 P { t with mBuckets := some (h.alloc blank).1 } entries
        (h.alloc blank).1 blank :=
      { prime := hr.prime
        capacity_pos := hr.capacity_pos
        capacity_lt := hr.capacity_lt
        filled_le := hr.filled_le
        size_eq := hr.size_eq
        mBuckets := rfl
        owned := ho₁
        only := honly
        load := hload
        chained := hchained
        lives_eq := hlives.trans hnone.1.symm
        filled_eq := hfilled.trans hnone.2.symm }
    have hroom : t.mFilledBuckets < t.mCapacity := by
      rw [hnone.2]
      exact hr.capacity_pos
    right
    obtain ⟨h', t', i, hadd, hgood, hagree'⟩ :=
      @addLoop_room _ _ _ _ _ _ _ _ _ kind (trimHash hash) e hs hroom 1
    refine ⟨h', t', i, ?_, hgood, hagree.trans hagree'⟩
    simp only [add, ht, bind, Except.bind, pure, Except.pure]
    exact hadd
  | some a =>
    obtain ⟨hnone, -, -⟩ | ⟨a₀, bs, ht₀, hload, hchained, hlives, hfilled⟩ := hr.contents
    · rw [ht] at hnone
      cases hnone
    · rw [ht] at ht₀
      cases ht₀
      rw [pointer_add ht] at ho
      obtain ⟨h₁, a₁, bs₁, he⟩ := edit_spec ht ho hload
      obtain ⟨hchained₁, hlives₁, hfilled₁⟩ := he.chained hchained
      have hs : Sole h₁ P { t with mBuckets := some a₁ } entries a₁ bs₁ :=
        { prime := hr.prime
          capacity_pos := hr.capacity_pos
          capacity_lt := hr.capacity_lt
          filled_le := hr.filled_le
          size_eq := hr.size_eq
          mBuckets := rfl
          owned := he.owned
          only := he.only
          load := he.load
          chained := hchained₁
          lives_eq := hlives₁.trans hlives
          filled_eq := hfilled₁.trans hfilled }
      have hnot : ¬ Stuck { t with mBuckets := some a₁ } bs₁ (trimHash hash) := by
        rintro ⟨hsize, hfull, hfirst⟩
        refine hstuck a bs ht hload ⟨hsize, hfull, ?_⟩
        rcases he.same with hsame | hsame
        · rw [hsame] at hfirst
          exact hfirst
        · rw [hsame, collides_copy] at hfirst
          exact hfirst
      have hunfold : t.add kind h hash e =
          addLoop kind (trimHash hash) e 2 h₁ { t with mBuckets := some a₁ } := by
        simp only [add, ht, bind, Except.bind]
        rw [he.edit_eq]
      rw [hunfold]
      rcases addLoop_adds (e := e) hk hs hnot with habort | ⟨h', t', i, hadd, hgood, hagree⟩
      · exact .inl habort
      · exact .inr ⟨h', t', i, hadd, hgood, he.agree.trans hagree⟩

/-! ## Assigning and copying -/

theorem setTo_leaves {other : Table L} (ho : Owned h (t.pointer + P))
    (hother : other.pointer ≤ P) (hr : Regular h other entries) :
    ∃ h', t.setTo h other = .ok (h', other) ∧ Good h' P other entries ∧ Agree P h h' := by
  obtain ⟨h₁, hdispose, ho₁, hagree₁⟩ := dispose_spec ho
  obtain ⟨h₂, hacquire, ho₂, hagree₂⟩ := acquire_spec ho₁ hother
  have hagree := hagree₁.trans hagree₂
  refine ⟨h₂, ?_, ⟨ho₂, hr.agree (hagree.mono hother)⟩, hagree⟩
  simp only [setTo, bind, Except.bind, hdispose, hacquire]
  rfl

theorem copy_leaves {other : Table L} (ho : Owned h P) (hother : other.pointer ≤ P)
    (hr : Regular h other entries) :
    ∃ h', copy h other = .ok (h', other) ∧ Good h' P other entries ∧ Agree P h h' := by
  obtain ⟨h', hacquire, ho', hagree⟩ := acquire_spec ho hother
  refine ⟨h', ?_, ⟨ho', hr.agree (hagree.mono hother)⟩, hagree⟩
  simp only [copy, bind, Except.bind, hacquire]
  rfl

theorem construct_good (hk : kind.Lawful) (m : ℕ) (l : L) (ho : Owned h P) :
    construct kind m l = .error .aborted ∨ ∃ t, construct kind m l = .ok t ∧ Good h P t 0 := by
  cases hdetermine : kind.determineCapacity m l with
  | none =>
    left
    simp only [construct, hdetermine]
  | some sizes =>
    obtain ⟨n, c⟩ := sizes
    obtain ⟨hprime, hpos, hlt, -⟩ := hk _ _ _ _ hdetermine
    right
    set t : Table L :=
      { mCapacity := c
        mLoadFactor := l
        mSize := 0
        mFilledBuckets := 0
        mBucketCount := n
        mBuckets := none }
    refine ⟨t, ?_, good_of_none rfl ho rfl rfl ⟨hprime, hpos, hlt, Nat.zero_le _, rfl⟩⟩
    simp only [construct, hdetermine]
    rfl

/-! ## Searching -/

variable [DecidableEq κ]

theorem find_ok (hr : Regular h t entries) (index : Option ℕ) (hash : BitVec 32) (key : κ) :
    ∃ r, t.find kind h index hash key = .ok r := by
  by_cases hsize : t.mSize = 0
  · exact ⟨none, by rw [find, if_pos hsize]; rfl⟩
  · obtain ⟨-, hzero, -⟩ | ⟨a, bs, ht, hload, hchained, hlives, hfilled⟩ := hr.contents
    · rw [hr.size_eq, hzero] at hsize
      exact absurd rfl hsize
    · have hunfilled := exists_unfilled hchained.length_eq
        (by rw [hfilled]; exact lt_of_le_of_lt hr.filled_le hr.capacity_lt)
      have hstart : chainStart (trimHash hash) t.mBucketCount < bs.length := by
        rw [hchained.length_eq]
        exact Nat.mod_lt _ hr.prime.pos
      have hb := List.getElem?_eq_getElem hstart
      have hloop : ∀ index, ∃ r, findLoop kind bs t.mBucketCount
          (chainIncrement (trimHash hash) t.mBucketCount) (trimHash hash) key t.mBucketCount index =
            .ok r :=
        fun index => findLoop_ok hr.prime hchained.length_eq hunfilled _ index
      rw [find, if_neg hsize]
      simp only [bind, Except.bind, array_eq ht hload]
      cases index with
      | some index => exact hloop index
      | none =>
        simp only [bucketAt_eq hb]
        split
        · split
          · exact ⟨_, rfl⟩
          · exact hloop _
        · split
          · exact ⟨_, rfl⟩
          · exact hloop _

theorem next_ok (hr : Regular h t entries) (index : Option ℕ) : ∃ r, t.next h index = .ok r := by
  by_cases hsize : t.mSize = 0
  · exact ⟨none, by rw [next, if_pos hsize]; rfl⟩
  · obtain ⟨-, hzero, -⟩ | ⟨a, bs, ht, hload, -⟩ := hr.contents
    · rw [hr.size_eq, hzero] at hsize
      exact absurd rfl hsize
    · rw [next, if_neg hsize]
      simp only [bind, Except.bind, array_eq ht hload]
      exact ⟨_, rfl⟩

/-- The indices that repeated calls of `find` return, from -1 on. -/
inductive Reached (kind : Kind α κ L) (h : Arrays α) (t : Table L) (hash : BitVec 32) (key : κ) :
    ℕ → Prop
  | first {i : ℕ} : t.find kind h none hash key = .ok (some i) → Reached kind h t hash key i
  | next {i j : ℕ} : Reached kind h t hash key i → t.find kind h (some i) hash key = .ok (some j) →
      Reached kind h t hash key j

/-- Every entry is reached by repeated calls with its hash code and key. -/
theorem reached_of_present (hr : Regular h t entries) (ht : t.mBuckets = some a)
    (hload : h.load a = some bs) {i : ℕ} {b : Bucket α} (hb : bs[i]? = some b)
    (hpresent : b.present = true) {hash : BitVec 32} (hhash : trimHash hash = b.hash)
    (hentry : b.entry = some e) : Reached kind h t hash (kind.getKey e) i := by
  obtain ⟨hnone, -, -⟩ | ⟨a₀, bs₀, ht₀, hload₀, hchained, hlives, hfilled⟩ := hr.contents
  · rw [ht] at hnone
    cases hnone
  · rw [ht] at ht₀
    cases ht₀
    rw [hload] at hload₀
    cases hload₀
    set count := t.mBucketCount with hcount
    have hsize : t.mSize ≠ 0 := by
      rw [hr.size_eq, ← hlives, card_lives hchained]
      exact (List.countP_pos_iff.mpr ⟨b, List.mem_of_getElem? hb, hpresent⟩).ne'
    obtain ⟨m, hm, hchain, hbefore⟩ := hchained.chained i b hb hpresent
    rw [← hhash] at hchain hbefore
    have hkey : compareBucketKey kind b (kind.getKey e) = true := by
      rw [compareBucketKey, hentry]
      simp
    have hmatch : ∃ b, bs[chain (trimHash hash) count m]? = some b ∧
        Matches kind (trimHash hash) (kind.getKey e) b := by
      rw [hchain]
      exact ⟨b, hb, hpresent, hhash.symm, hkey⟩
    have hmod : ∀ c, chain (trimHash hash) count c % count = chain (trimHash hash) count c :=
      fun c => Nat.mod_mod ..
    have hloop : ∀ c, c < m → ∃ k, c < k ∧ k ≤ m ∧
        findLoop kind bs count (chainIncrement (trimHash hash) count) (trimHash hash)
          (kind.getKey e) count (chain (trimHash hash) count c) =
            .ok (some (chain (trimHash hash) count k)) :=
      fun c hc => findLoop_reaches (hmod c) hc (by lia) (fun k _ hk => hbefore k hk) hmatch
    -- From any reached bucket of the chain the search comes nearer.
    have hon : ∀ d c, c + d = m → Reached kind h t hash (kind.getKey e)
        (chain (trimHash hash) count c) →
        Reached kind h t hash (kind.getKey e) (chain (trimHash hash) count m) := by
      intro d
      induction d using Nat.strong_induction_on with
      | _ d ih =>
        intro c hcd hreached
        by_cases hd : d = 0
        · obtain rfl : c = m := by lia
          exact hreached
        · obtain ⟨k, hck, hkm, hfind⟩ := hloop c (by lia)
          apply ih (m - k) (by lia) k (by lia)
          apply hreached.next
          rw [find, if_neg hsize]
          simp only [bind, Except.bind, array_eq ht hload]
          exact hfind
    rw [← hchain]
    have hstart : chain (trimHash hash) count 0 = chainStart (trimHash hash) count :=
      chain_zero hr.prime.pos
    by_cases hzero : m = 0
    · subst hzero
      rw [hstart] at hchain
      apply Reached.first
      rw [find, if_neg hsize]
      simp only [bind, Except.bind, array_eq ht hload, ← hcount, hchain, bucketAt_eq hb, hpresent,
        hkey, if_true]
      rw [hstart, hchain]
      rfl
    · obtain ⟨c, hc, hcollision⟩ := hbefore 0 (Nat.pos_of_ne_zero hzero)
      rw [hstart] at hc
      obtain ⟨k, hk, hkm, hfind⟩ := hloop 0 (Nat.pos_of_ne_zero hzero)
      rw [hstart] at hfind
      have hfirst : t.find kind h none hash (kind.getKey e) = .ok (some (chainStart (trimHash hash)
            count)) ∨ t.find kind h none hash (kind.getKey e) =
          .ok (some (chain (trimHash hash) count k)) := by
        rw [find, if_neg hsize]
        simp only [bind, Except.bind, array_eq ht hload, ← hcount, bucketAt_eq hc, hcollision,
          Bool.not_true, Bool.false_eq_true, if_false]
        split
        · split
          · exact .inl rfl
          · exact .inr hfind
        · exact .inr hfind
      rcases hfirst with hfirst | hfirst
      · apply hon m 0 (Nat.zero_add m)
        rw [hstart]
        exact .first hfirst
      · exact hon (m - k) k (by lia) (.first hfirst)

end Table

end AudioFlinger.Hashtable
