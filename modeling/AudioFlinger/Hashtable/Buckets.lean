import Mathlib.Algebra.BigOperators.Group.Multiset.Basic
import AudioFlinger.Foundation.HashTables
import AudioFlinger.Hashtable.Model

/-!
# Arrays of buckets

Every present bucket lies on the chain of its hash code, and the buckets before
it on the chain are marked as collisions. As long as one bucket is neither
present nor marked, searches end.
-/

namespace AudioFlinger.Hashtable

open Foundation Probing

variable {α κ L : Type}

/-! ## What an array holds -/

/-- The hash code and entry of a present bucket. -/
def Bucket.live (b : Bucket α) : Option (BitVec 30 × α) :=
  if b.present then b.entry.map fun e => (b.hash, e) else none

def Bucket.filled (b : Bucket α) : Bool := b.collision || b.present

/-- The entries of the present buckets. -/
def lives (bs : Buckets α) : Multiset (BitVec 30 × α) := (bs.filterMap Bucket.live : List _)

/-- The buckets that are present or marked. -/
def filledCount (bs : Buckets α) : ℕ := bs.countP Bucket.filled

/-- The `j`-th bucket of the chain of a hash code. -/
def chain (hash : BitVec 30) (count j : ℕ) : ℕ :=
  slot count (chainStart hash count) (chainIncrement hash count) j

/-- The bucket is marked as a collision. -/
def Collides (bs : Buckets α) (i : ℕ) : Prop := ∃ b, bs[i]? = some b ∧ b.collision = true

instance (bs : Buckets α) (i : ℕ) : Decidable (Collides bs i) :=
  decidable_of_iff ((bs[i]?).any Bucket.collision = true) (by
    unfold Collides
    cases bs[i]? <;> simp)

/-- Every present bucket is initialized and lies on its chain, behind marked buckets. -/
structure Chained (bs : Buckets α) (count : ℕ) : Prop where
  length_eq : bs.length = count
  entry : ∀ (i : ℕ) (b : Bucket α), bs[i]? = some b → b.present = true → b.entry.isSome = true
  chained : ∀ (i : ℕ) (b : Bucket α), bs[i]? = some b → b.present = true →
    ∃ j, j < count ∧ chain b.hash count j = i ∧ ∀ k, k < j → Collides bs (chain b.hash count k)

variable {bs bs' : Buckets α} {b b' : Bucket α} {i count : ℕ} {hash : BitVec 30}

theorem chainIncrement_pos (hash : BitVec 30) (count : ℕ) : 0 < chainIncrement hash count :=
  Nat.succ_pos _

theorem chainIncrement_lt (hcount : 2 ≤ count) : chainIncrement hash count < count := by
  have hmod := Nat.mod_lt ((hash.setWidth 32 >>> 7) ||| (hash.setWidth 32 <<< 25)).toNat
    (by omega : 0 < count - 1)
  unfold chainIncrement
  omega

theorem chain_zero (hcount : 0 < count) : chain hash count 0 = chainStart hash count :=
  slot_zero (Nat.mod_lt _ hcount)

theorem chainSeek_chain (j : ℕ) :
    chainSeek (chain hash count j) (chainIncrement hash count) count = chain hash count (j + 1) :=
  slot_succ ..

theorem chain_lt (hcount : 0 < count) (j : ℕ) : chain hash count j < count := slot_lt hcount ..

theorem coprime_chainIncrement (hp : count.Prime) : (chainIncrement hash count).Coprime count :=
  coprime_of_prime hp (chainIncrement_pos hash count) (chainIncrement_lt hp.two_le)

/-! ## Writing one bucket -/

theorem split_at (h : bs[i]? = some b) : bs = bs.take i ++ b :: bs.drop (i + 1) := by
  obtain ⟨hi, rfl⟩ := List.getElem?_eq_some_iff.mp h
  simp

theorem set_split (h : bs[i]? = some b) (b' : Bucket α) :
    bs.set i b' = bs.take i ++ b' :: bs.drop (i + 1) := by
  obtain ⟨hi, -⟩ := List.getElem?_eq_some_iff.mp h
  rw [List.set_eq_take_append_cons_drop, if_pos hi]

/-- One bucket's share of `lives`. -/
def Bucket.share (b : Bucket α) : Multiset (BitVec 30 × α) := b.live.elim 0 fun x => {x}

theorem lives_split (bs₁ bs₂ : Buckets α) (b : Bucket α) :
    lives (bs₁ ++ b :: bs₂) = b.share + lives (bs₁ ++ bs₂) := by
  unfold lives Bucket.share
  rw [List.filterMap_append, List.filterMap_append, List.filterMap_cons]
  cases b.live with
  | none => simp
  | some x =>
    rw [Option.elim_some, Multiset.singleton_add]
    exact Multiset.coe_eq_coe.mpr List.perm_middle

theorem lives_set (h : bs[i]? = some b) (b' : Bucket α) :
    b.share + lives (bs.set i b') = b'.share + lives bs := by
  rw [set_split h, lives_split]
  conv_rhs => rw [split_at h, lives_split]
  exact add_left_comm ..

theorem filledCount_set (h : bs[i]? = some b) (b' : Bucket α) :
    (if b.filled then 1 else 0) + filledCount (bs.set i b') =
      (if b'.filled then 1 else 0) + filledCount bs := by
  rw [set_split h]
  conv_rhs => rw [split_at h]
  simp only [filledCount, List.countP_append, List.countP_cons]
  omega

/-! ## Marking -/

/-- Some present buckets have been marked. -/
structure Marked (bs bs' : Buckets α) : Prop where
  length_eq : bs'.length = bs.length
  lives_eq : lives bs' = lives bs
  filled_eq : filledCount bs' = filledCount bs
  at_index : ∀ (i : ℕ) (b : Bucket α), bs[i]? = some b →
    ∃ b', bs'[i]? = some b' ∧ (b' = b ∨ b.present = true ∧ b' = b.collide)

theorem Marked.refl (bs : Buckets α) : Marked bs bs :=
  ⟨rfl, rfl, rfl, fun _ b h => ⟨b, h, .inl rfl⟩⟩

theorem Marked.trans {bs'' : Buckets α} (h : Marked bs bs') (h' : Marked bs' bs'') :
    Marked bs bs'' where
  length_eq := h'.length_eq.trans h.length_eq
  lives_eq := h'.lives_eq.trans h.lives_eq
  filled_eq := h'.filled_eq.trans h.filled_eq
  at_index := by
    intro i b hb
    obtain ⟨b', hb', hor⟩ := h.at_index i b hb
    obtain ⟨b'', hb'', hor'⟩ := h'.at_index i b' hb'
    refine ⟨b'', hb'', ?_⟩
    rcases hor with rfl | ⟨hpresent, rfl⟩
    · exact hor'
    · rcases hor' with rfl | ⟨-, rfl⟩
      · exact .inr ⟨hpresent, rfl⟩
      · exact .inr ⟨hpresent, rfl⟩

theorem marked_set (h : bs[i]? = some b) (hpresent : b.present = true) :
    Marked bs (bs.set i b.collide) where
  length_eq := List.length_set
  lives_eq := by
    have hshare := lives_set h b.collide
    have hsame : b.collide.share = b.share := rfl
    rw [hsame] at hshare
    exact Multiset.add_right_inj.mp hshare
  filled_eq := by
    have hcount := filledCount_set h b.collide
    have hb : b.filled = true := by rw [Bucket.filled, hpresent, Bool.or_true]
    have hb' : b.collide.filled = true := rfl
    rw [hb, hb'] at hcount
    omega
  at_index := by
    intro k c hc
    by_cases hk : k = i
    · subst hk
      rw [h] at hc
      cases hc
      refine ⟨b.collide, ?_, .inr ⟨hpresent, rfl⟩⟩
      obtain ⟨hi, -⟩ := List.getElem?_eq_some_iff.mp h
      rw [List.getElem?_set_self hi]
    · refine ⟨c, ?_, .inl rfl⟩
      rw [List.getElem?_set_ne (Ne.symm hk), hc]

theorem Marked.present (h : Marked bs bs') (hb : bs[i]? = some b) (hb' : bs'[i]? = some b') :
    b'.present = b.present ∧ b'.hash = b.hash ∧ b'.entry = b.entry ∧
      (b.collision = true → b'.collision = true) := by
  obtain ⟨c, hc, hor⟩ := h.at_index i b hb
  rw [hb'] at hc
  cases hc
  rcases hor with rfl | ⟨-, rfl⟩
  · exact ⟨rfl, rfl, rfl, fun h => h⟩
  · exact ⟨rfl, rfl, rfl, fun _ => rfl⟩

theorem Marked.get (h : Marked bs bs') (hb' : bs'[i]? = some b') : ∃ b, bs[i]? = some b := by
  obtain ⟨hi, -⟩ := List.getElem?_eq_some_iff.mp hb'
  rw [h.length_eq] at hi
  exact ⟨bs[i], List.getElem?_eq_getElem hi⟩

theorem Marked.collides (h : Marked bs bs') (hc : Collides bs i) : Collides bs' i := by
  obtain ⟨b, hb, hcollision⟩ := hc
  obtain ⟨b', hb', hor⟩ := h.at_index i b hb
  refine ⟨b', hb', ?_⟩
  rcases hor with rfl | ⟨-, rfl⟩
  · exact hcollision
  · rfl

theorem Chained.marked (h : Chained bs count) (hm : Marked bs bs') : Chained bs' count where
  length_eq := hm.length_eq.trans h.length_eq
  entry := by
    intro i b' hb' hpresent
    obtain ⟨b, hb⟩ := hm.get hb'
    obtain ⟨hp, -, he, -⟩ := hm.present hb hb'
    rw [he]
    exact h.entry i b hb (hp ▸ hpresent)
  chained := by
    intro i b' hb' hpresent
    obtain ⟨b, hb⟩ := hm.get hb'
    obtain ⟨hp, hhash, -, -⟩ := hm.present hb hb'
    obtain ⟨j, hj, hchain, hbefore⟩ := h.chained i b hb (hp ▸ hpresent)
    rw [hhash]
    exact ⟨j, hj, hchain, fun k hk => hm.collides (hbefore k hk)⟩

/-! ## The bucket for a new entry -/

theorem bucketAt_eq (h : bs[i]? = some b) : bucketAt bs i = .ok b := by
  rw [bucketAt, h]

/-- What `freeBucket` finds: a bucket that is not present, behind marked buckets on the chain. -/
structure Free (bs : Buckets α) (count : ℕ) (hash : BitVec 30) (bs' : Buckets α) (i : ℕ)
    (b : Bucket α) : Prop where
  marked : Marked bs bs'
  at_index : bs'[i]? = some b
  absent : b.present = false
  on_chain : ∃ j, j < count ∧ chain hash count j = i ∧
    ∀ k, k < j → Collides bs' (chain hash count k)
  first : (∀ c ∈ bs, c.present = false) → bs' = bs ∧ i = chainStart hash count

theorem seekFree_spec (hlength : bs.length = count) {rounds j m : ℕ} (hjm : j ≤ m)
    (hmrounds : m < j + rounds) (hm : m < count)
    (hfree : ∃ b, bs[chain hash count m]? = some b ∧ b.present = false)
    (hbefore : ∀ k, k < j → Collides bs (chain hash count k)) :
    ∃ bs' j' b, seekFree count (chainIncrement hash count) rounds bs (chain hash count j) =
        .ok (bs', chain hash count j') ∧
      Marked bs bs' ∧ j' < count ∧ bs'[chain hash count j']? = some b ∧ b.present = false ∧
      (∀ k, k < j' → Collides bs' (chain hash count k)) ∧
      ((∀ c ∈ bs, c.present = false) → bs' = bs ∧ j' = j) := by
  induction rounds generalizing bs j with
  | zero => lia
  | succ rounds ih =>
    have hlt : chain hash count j < bs.length := by
      rw [hlength]
      exact chain_lt (by lia) j
    set c := bs[chain hash count j] with hcdef
    have hc : bs[chain hash count j]? = some c := List.getElem?_eq_getElem hlt
    rw [seekFree, bucketAt_eq hc]
    cases hpresent : c.present with
    | false =>
      refine ⟨bs, j, c, ?_, .refl bs, by lia, hc, hpresent, hbefore, fun _ => ⟨rfl, rfl⟩⟩
      simp only [bind, Except.bind, hpresent, Bool.false_eq_true, if_false]
      rfl
    | true =>
      have hmark : Marked bs (bs.set (chain hash count j) c.collide) := marked_set hc hpresent
      obtain ⟨b, hb, habsent⟩ := hfree
      have hne : j ≠ m := by
        rintro rfl
        rw [hc] at hb
        cases hb
        rw [hpresent] at habsent
        cases habsent
      obtain ⟨b', hb', hor⟩ := hmark.at_index _ b hb
      have habsent' : b'.present = false := by
        rcases hor with rfl | ⟨hp, -⟩
        · exact habsent
        · rw [habsent] at hp
          cases hp
      have hbefore' : ∀ k, k < j + 1 →
          Collides (bs.set (chain hash count j) c.collide) (chain hash count k) := by
        intro k hk
        rcases Nat.lt_succ_iff_lt_or_eq.mp hk with hk | rfl
        · exact hmark.collides (hbefore k hk)
        · exact ⟨c.collide, List.getElem?_set_self hlt, rfl⟩
      obtain ⟨bs', j', d, hseek, hmarked, hj', hd, hdabsent, hbefore'', -⟩ :=
        ih (List.length_set.trans hlength) (by lia) (by lia) ⟨b', hb', habsent'⟩ hbefore'
      refine ⟨bs', j', d, ?_, hmark.trans hmarked, hj', hd, hdabsent, hbefore'', fun hnone => ?_⟩
      · simp only [bind, Except.bind, hpresent, if_true, chainSeek_chain]
        exact hseek
      · have hmem : c ∈ bs := List.getElem_mem hlt
        rw [hnone c hmem] at hpresent
        cases hpresent

/-- With a bucket that is not present, a free bucket is found. -/
theorem freeBucket_spec (hp : count.Prime) (hlength : bs.length = count)
    (hfree : ∃ b ∈ bs, b.present = false) (hash : BitVec 30) :
    ∃ bs' i b, freeBucket bs count hash = .ok (bs', i) ∧ Free bs count hash bs' i b := by
  obtain ⟨b, hmem, habsent⟩ := hfree
  obtain ⟨u, hu, rfl⟩ := List.mem_iff_getElem.mp hmem
  rw [hlength] at hu
  obtain ⟨m, hm, hmu⟩ := @slot_surjective count (chainStart hash count) _
    (@coprime_chainIncrement count hash hp) _ hu
  have hat : ∃ b, bs[chain hash count m]? = some b ∧ b.present = false := by
    refine ⟨_, ?_, habsent⟩
    change bs[slot count (chainStart hash count) (chainIncrement hash count) m]? = _
    rw [hmu]
    exact List.getElem?_eq_getElem _
  obtain ⟨bs', j, c, hseek, hmarked, hj, hc, hcabsent, hbefore, hfirst⟩ :=
    @seekFree_spec _ bs count hash hlength count 0 m (Nat.zero_le m) (by omega) hm hat
      (fun k hk => absurd hk (Nat.not_lt_zero k))
  rw [chain_zero hp.pos] at hseek
  refine ⟨bs', _, c, hseek, hmarked, hc, hcabsent, ⟨j, hj, rfl, hbefore⟩, fun hnone => ?_⟩
  obtain ⟨hbs, rfl⟩ := hfirst hnone
  exact ⟨hbs, chain_zero hp.pos⟩

variable {e : α}

/-- The entry goes into the free bucket and keeps its mark. -/
theorem Free.place {bs' : Buckets α} (hfree : Free bs count hash bs' i b)
    (h : Chained bs count) (e : α) :
    Chained (bs'.set i ⟨b.collision, true, hash, some e⟩) count ∧
      lives (bs'.set i ⟨b.collision, true, hash, some e⟩) = (hash, e) ::ₘ lives bs ∧
      filledCount (bs'.set i ⟨b.collision, true, hash, some e⟩) =
        (if b.collision then filledCount bs else filledCount bs + 1) := by
  set new : Bucket α := ⟨b.collision, true, hash, some e⟩
  have hm := hfree.marked
  have h' := h.marked hm
  have hb := hfree.at_index
  obtain ⟨hi, -⟩ := List.getElem?_eq_some_iff.mp hb
  have hcollides : ∀ k, Collides bs' k → Collides (bs'.set i new) k := by
    rintro k ⟨c, hc, hcollision⟩
    by_cases hk : k = i
    · subst hk
      rw [hb] at hc
      cases hc
      exact ⟨new, List.getElem?_set_self hi, hcollision⟩
    · exact ⟨c, by rw [List.getElem?_set_ne (Ne.symm hk), hc], hcollision⟩
  refine ⟨⟨List.length_set.trans h'.length_eq, ?_, ?_⟩, ?_, ?_⟩
  · intro k c hc hpresent
    by_cases hk : k = i
    · subst hk
      rw [List.getElem?_set_self hi] at hc
      cases hc
      rfl
    · rw [List.getElem?_set_ne (Ne.symm hk)] at hc
      exact h'.entry k c hc hpresent
  · intro k c hc hpresent
    by_cases hk : k = i
    · subst hk
      rw [List.getElem?_set_self hi] at hc
      cases hc
      obtain ⟨j, hj, hchain, hbefore⟩ := hfree.on_chain
      exact ⟨j, hj, hchain, fun n hn => hcollides _ (hbefore n hn)⟩
    · rw [List.getElem?_set_ne (Ne.symm hk)] at hc
      obtain ⟨j, hj, hchain, hbefore⟩ := h'.chained k c hc hpresent
      exact ⟨j, hj, hchain, fun n hn => hcollides _ (hbefore n hn)⟩
  · have hshare := lives_set hb new
    have hnone : b.share = 0 := by
      rw [Bucket.share, Bucket.live, if_neg (by rw [hfree.absent]; exact Bool.false_ne_true)]
      rfl
    have hsome : new.share = {(hash, e)} := rfl
    rw [hnone, hsome, zero_add, Multiset.singleton_add, hm.lives_eq] at hshare
    exact hshare
  · have hcount := filledCount_set hb new
    have hnew : new.filled = true := Bool.or_true _
    have hold : b.filled = b.collision := by rw [Bucket.filled, hfree.absent, Bool.or_false]
    rw [hnew, hold, hm.filled_eq] at hcount
    cases hcollision : b.collision with
    | false =>
      rw [hcollision] at hcount
      simp only [Bool.false_eq_true, if_false, if_true] at hcount ⊢
      omega
    | true =>
      rw [hcollision] at hcount
      simp only [if_true] at hcount ⊢
      omega

/-! ## Taking an entry out -/

variable {kind : Kind α κ L}

/-- The bucket of a removed entry. -/
def Bucket.removed (kind : Kind α κ L) (b : Bucket α) : Bucket α :=
  Bucket.destroy kind { b with present := false }

@[simp] theorem removed_fields (kind : Kind α κ L) (b : Bucket α) :
    (b.removed kind).collision = b.collision ∧ (b.removed kind).present = false ∧
      (b.removed kind).hash = b.hash := by
  unfold Bucket.removed Bucket.destroy
  split <;> exact ⟨rfl, rfl, rfl⟩

/-- Buckets that add no present one and keep the marks. -/
theorem Chained.kept (h : Chained bs count) (hlength : bs'.length = bs.length)
    (hcollides : ∀ k, Collides bs k → Collides bs' k)
    (hother : ∀ (k : ℕ) (c : Bucket α), bs'[k]? = some c → c.present = true → bs[k]? = some c) :
    Chained bs' count := by
  refine ⟨hlength.trans h.length_eq, ?_, ?_⟩
  · intro k c hc hcpresent
    exact h.entry k c (hother k c hc hcpresent) hcpresent
  · intro k c hc hcpresent
    obtain ⟨j, hj, hchain, hbefore⟩ := h.chained k c (hother k c hc hcpresent) hcpresent
    exact ⟨j, hj, hchain, fun n hn => hcollides _ (hbefore n hn)⟩

theorem Chained.remove (kind : Kind α κ L) (h : Chained bs count) (hb : bs[i]? = some b) {x : BitVec 30 × α}
    (hlive : b.live = some x) :
    Chained (bs.set i (b.removed kind)) count ∧
      lives bs = x ::ₘ lives (bs.set i (b.removed kind)) ∧
      filledCount bs = filledCount (bs.set i (b.removed kind)) + (if b.collision then 0 else 1) := by
  obtain ⟨hcollision, habsent, -⟩ := removed_fields kind b
  obtain ⟨hi, -⟩ := List.getElem?_eq_some_iff.mp hb
  have hpresent : b.present = true := by
    cases hp : b.present with
    | true => rfl
    | false =>
      rw [Bucket.live, hp] at hlive
      cases hlive
  have hcollides : ∀ k, Collides bs k → Collides (bs.set i (b.removed kind)) k := by
    rintro k ⟨c, hc, hmarked⟩
    by_cases hk : k = i
    · subst hk
      rw [hb] at hc
      cases hc
      exact ⟨_, List.getElem?_set_self hi, hcollision.trans hmarked⟩
    · exact ⟨c, by rw [List.getElem?_set_ne (Ne.symm hk), hc], hmarked⟩
  have hother : ∀ (k : ℕ) (c : Bucket α), (bs.set i (b.removed kind))[k]? = some c → c.present = true →
      bs[k]? = some c := by
    intro k c hc hcpresent
    by_cases hk : k = i
    · subst hk
      rw [List.getElem?_set_self hi] at hc
      cases hc
      rw [habsent] at hcpresent
      cases hcpresent
    · rw [List.getElem?_set_ne (Ne.symm hk)] at hc
      exact hc
  refine ⟨h.kept List.length_set hcollides hother, ?_, ?_⟩
  · have hshare := lives_set hb (b.removed kind)
    have hold : b.share = {x} := by rw [Bucket.share, hlive]; rfl
    have hnew : (b.removed kind).share = 0 := by
      rw [Bucket.share, Bucket.live, habsent]
      rfl
    rw [hold, hnew, zero_add, Multiset.singleton_add] at hshare
    exact hshare.symm
  · have hcount := filledCount_set hb (b.removed kind)
    rw [Bucket.filled, Bucket.filled, hpresent, hcollision, habsent, Bool.or_true,
      Bool.or_false] at hcount
    cases hmarked : b.collision with
    | false =>
      rw [hmarked] at hcount
      simp only [Bool.false_eq_true, if_false, if_true] at hcount ⊢
      omega
    | true =>
      rw [hmarked] at hcount
      simp only [if_true] at hcount ⊢
      omega

/-! ## Copies -/

theorem copyBuckets_get (i : ℕ) :
    (copyBuckets bs)[i]? =
      (bs[i]?).map fun b => if b.present then b else { b with entry := none } :=
  List.getElem?_map ..

theorem copyBuckets_present (hb : bs[i]? = some b) (hpresent : b.present = true) :
    (copyBuckets bs)[i]? = some b := by
  rw [copyBuckets_get, hb, Option.map_some, if_pos hpresent]

/-- A copy has the same cookies, and the same entries in the present buckets. -/
theorem copyBuckets_cookie {b' : Bucket α} (hb' : (copyBuckets bs)[i]? = some b') :
    ∃ b, bs[i]? = some b ∧ b'.collision = b.collision ∧ b'.present = b.present ∧
      b'.live = b.live ∧ (b'.present = true → b' = b) := by
  rw [copyBuckets_get, Option.map_eq_some_iff] at hb'
  obtain ⟨b, hb, rfl⟩ := hb'
  refine ⟨b, hb, ?_⟩
  cases hp : b.present with
  | true => simp [hp]
  | false => simp [hp, Bucket.live]

theorem Chained.copy (h : Chained bs count) :
    Chained (copyBuckets bs) count ∧ lives (copyBuckets bs) = lives bs ∧
      filledCount (copyBuckets bs) = filledCount bs := by
  have hcollides : ∀ k, Collides bs k → Collides (copyBuckets bs) k := by
    rintro k ⟨c, hc, hmarked⟩
    refine ⟨if c.present then c else { c with entry := none }, ?_, ?_⟩
    · rw [copyBuckets_get, hc, Option.map_some]
    · split
      · exact hmarked
      · exact hmarked
  have hother : ∀ (k : ℕ) (c : Bucket α), (copyBuckets bs)[k]? = some c → c.present = true →
      bs[k]? = some c := by
    intro k c hc hcpresent
    obtain ⟨b, hb, -, -, -, hsame⟩ := copyBuckets_cookie hc
    rw [hb, hsame hcpresent]
  refine ⟨h.kept (List.length_map _) hcollides hother, ?_, ?_⟩
  · have hlive : ∀ b : Bucket α,
        Bucket.live (if b.present then b else { b with entry := none }) = b.live := by
      intro b
      cases hp : b.present with
      | true => rfl
      | false => simp [Bucket.live, hp]
    rw [lives, copyBuckets, List.filterMap_map, lives]
    simp only [Function.comp_def, hlive]
  · have hfilled : ∀ b : Bucket α,
        Bucket.filled (if b.present then b else { b with entry := none }) = b.filled := by
      intro b
      split <;> rfl
    rw [filledCount, copyBuckets, List.countP_map]
    simp only [Function.comp_def, hfilled]
    rfl

/-- Buckets whose cookies are 0. -/
theorem chained_blank {bs : Buckets α} (hlength : bs.length = count)
    (hblank : ∀ b ∈ bs, b.collision = false ∧ b.present = false) :
    Chained bs count ∧ lives bs = 0 ∧ filledCount bs = 0 := by
  refine ⟨⟨hlength, ?_, ?_⟩, ?_, ?_⟩
  · intro i b hb hpresent
    rw [(hblank b (List.mem_of_getElem? hb)).2] at hpresent
    cases hpresent
  · intro i b hb hpresent
    rw [(hblank b (List.mem_of_getElem? hb)).2] at hpresent
    cases hpresent
  · have hnil : bs.filterMap Bucket.live = [] := by
      apply List.filterMap_eq_nil_iff.mpr
      intro b hb
      rw [Bucket.live, (hblank b hb).2]
      rfl
    rw [lives, hnil]
    rfl
  · apply List.countP_eq_zero.mpr
    intro b hb
    rw [Bucket.filled, (hblank b hb).1, (hblank b hb).2]
    decide

/-! ## Moving all entries -/

/-- Only present buckets are marked. -/
def Compact (bs : Buckets α) : Prop := ∀ b ∈ bs, b.collision = true → b.present = true

/-- The number of entries is the number of present buckets. -/
theorem card_lives (h : Chained bs count) :
    Multiset.card (lives bs) = bs.countP Bucket.present := by
  have hentry : ∀ b ∈ bs, b.present = true → b.entry.isSome = true := by
    intro b hb hpresent
    obtain ⟨i, hi, rfl⟩ := List.mem_iff_getElem.mp hb
    exact h.entry i _ (List.getElem?_eq_getElem hi) hpresent
  clear h
  rw [lives, Multiset.coe_card]
  induction bs with
  | nil => rfl
  | cons b bs ih =>
    have hrest := ih fun c hc => hentry c (List.mem_cons_of_mem b hc)
    have hhead := hentry b (List.mem_cons_self ..)
    rw [List.filterMap_cons, List.countP_cons]
    cases hp : b.present with
    | false => simp [Bucket.live, hp, hrest]
    | true =>
      obtain ⟨e, he⟩ := Option.isSome_iff_exists.mp (hhead hp)
      simp [Bucket.live, hp, he, hrest]

theorem filledCount_compact (h : Chained bs count) (hc : Compact bs) :
    filledCount bs = Multiset.card (lives bs) := by
  rw [card_lives h, filledCount]
  apply List.countP_congr
  intro b hb
  rw [Bucket.filled, Bool.or_eq_true]
  exact ⟨fun hor => hor.elim (hc b hb) id, .inr⟩

theorem exists_absent (h : Chained bs count) (hlt : Multiset.card (lives bs) < count) :
    ∃ b ∈ bs, b.present = false := by
  by_contra hall
  have hcount : bs.countP Bucket.present = bs.length := by
    apply List.countP_eq_length.mpr
    intro b hb
    by_contra hp
    exact hall ⟨b, hb, by simpa using hp⟩
  rw [card_lives h, hcount, h.length_eq] at hlt
  exact lt_irrefl _ hlt

theorem Compact.marked (hc : Compact bs) (hm : Marked bs bs') : Compact bs' := by
  intro b' hb' hcollision
  obtain ⟨i, hi, rfl⟩ := List.mem_iff_getElem.mp hb'
  have hget := List.getElem?_eq_getElem hi
  obtain ⟨b, hb⟩ := hm.get hget
  obtain ⟨hp, -, -, -⟩ := hm.present hb hget
  obtain ⟨c, hcget, hor⟩ := hm.at_index i b hb
  rw [hget] at hcget
  cases hcget
  rcases hor with hsame | ⟨hpresent, -⟩
  · rw [hp]
    rw [hsame] at hcollision
    exact hc b (List.mem_of_getElem? hb) hcollision
  · rw [hp, hpresent]

theorem Compact.set (hc : Compact bs) (hpresent : b.present = true) : Compact (bs.set i b) := by
  intro c hc' hcollision
  rcases List.mem_or_eq_of_mem_set hc' with hmem | rfl
  · exact hc c hmem hcollision
  · exact hpresent

/-- An entry that is moved keeps its hash code. -/
theorem moveBuckets_spec (hp : count.Prime) {old new : Buckets α} (hnew : Chained new count)
    (hcompact : Compact new) (hentry : ∀ b ∈ old, b.present = true → b.entry.isSome = true)
    (hroom : Multiset.card (lives old) + Multiset.card (lives new) < count) :
    ∃ new', moveBuckets count old new = .ok new' ∧ Chained new' count ∧ Compact new' ∧
      lives new' = lives old + lives new := by
  induction old generalizing new with
  | nil => exact ⟨new, rfl, hnew, hcompact, (zero_add _).symm⟩
  | cons b old ih =>
    have hrest := fun c hc => hentry c (List.mem_cons_of_mem b hc)
    have hsplit : lives (b :: old) = b.share + lives old := lives_split [] old b
    rw [hsplit, Multiset.card_add] at hroom
    rw [moveBuckets]
    cases hpresent : b.present with
    | false =>
      have hshare : b.share = 0 := by
        rw [Bucket.share, Bucket.live, hpresent]
        rfl
      rw [if_neg Bool.false_ne_true, hsplit, hshare, zero_add]
      exact ih hnew hcompact hrest (by omega)
    | true =>
      obtain ⟨e, he⟩ := Option.isSome_iff_exists.mp (hentry b (List.mem_cons_self ..) hpresent)
      have hshare : b.share = {(b.hash, e)} := by
        rw [Bucket.share, Bucket.live, hpresent, he]
        rfl
      rw [hshare, Multiset.card_singleton] at hroom
      obtain ⟨bs', i, c, hfind, hfree⟩ :=
        freeBucket_spec hp hnew.length_eq (exists_absent hnew (by omega)) b.hash
      obtain ⟨hchained, hlives, -⟩ := hfree.place hnew e
      have hcompact' := hcompact.marked hfree.marked
      have hunmarked : c.collision = false := by
        by_contra hcollision
        have hc := hcompact' c (List.mem_of_getElem? hfree.at_index) (by simpa using hcollision)
        rw [hfree.absent] at hc
        cases hc
      rw [hunmarked] at hchained hlives
      obtain ⟨new', hmove, hchained', hcompact'', hlives'⟩ :=
        ih hchained (hcompact'.set rfl) hrest (by rw [hlives, Multiset.card_cons]; omega)
      refine ⟨new', ?_, hchained', hcompact'', ?_⟩
      · simp only [if_true, bind, Except.bind, hfind, he]
        exact hmove
      · rw [hlives', hlives, hsplit, hshare, Multiset.singleton_add, Multiset.add_cons,
          Multiset.cons_add]

/-!
## Searching

A search along a chain stops at a match, or at a bucket that is not marked. It
finds every entry in turn, since the buckets before an entry are marked.
-/

variable {α κ L : Type} [DecidableEq κ] {kind : Kind α κ L} {bs : Buckets α}
  {count start inc index c rounds : ℕ} {hash : BitVec 30} {key : κ}

/-- A present bucket with the hash code and key. -/
def Matches (kind : Kind α κ L) (hash : BitVec 30) (key : κ) (b : Bucket α) : Prop :=
  b.present = true ∧ b.hash = hash ∧ compareBucketKey kind b key = true

theorem chainSeek_slot (h : index % count = slot count start inc c) :
    chainSeek index inc count = slot count start inc (c + 1) := by
  rw [chainSeek, ← Nat.mod_add_mod, h]
  exact slot_succ ..

/-- One probe of the loop. -/
theorem findLoop_succ (kind : Kind α κ L) (hash : BitVec 30) (key : κ) (rounds : ℕ)
    {b : Bucket α} (hindex : index % count = slot count start inc c)
    (hb : bs[slot count start inc (c + 1)]? = some b) :
    (Matches kind hash key b ∧
        findLoop kind bs count inc hash key (rounds + 1) index =
          .ok (some (slot count start inc (c + 1)))) ∨
      (¬ Matches kind hash key b ∧ b.collision = false ∧
        findLoop kind bs count inc hash key (rounds + 1) index = .ok none) ∨
      (¬ Matches kind hash key b ∧ b.collision = true ∧
        findLoop kind bs count inc hash key (rounds + 1) index =
          findLoop kind bs count inc hash key rounds (slot count start inc (c + 1))) := by
  rw [findLoop, chainSeek_slot hindex]
  simp only [bucketAt_eq hb, bind, Except.bind]
  by_cases hm : Matches kind hash key b
  · obtain ⟨hpresent, hhash, hkey⟩ := hm
    refine .inl ⟨⟨hpresent, hhash, hkey⟩, ?_⟩
    simp only [hpresent, hhash, hkey, decide_true, Bool.and_true, if_true]
    rfl
  · have hcond : (b.present && decide (b.hash = hash) && compareBucketKey kind b key) = false := by
      by_contra hcond
      simp only [Bool.not_eq_false, Bool.and_eq_true, decide_eq_true_iff] at hcond
      exact hm ⟨hcond.1.1, hcond.1.2, hcond.2⟩
    right
    simp only [hcond, Bool.false_eq_true, if_false]
    cases hcollision : b.collision with
    | false => exact .inl ⟨hm, rfl, rfl⟩
    | true => exact .inr ⟨hm, rfl, rfl⟩

/-- With marks up to a match the loop stops there or before. -/
theorem findLoop_reaches {t : ℕ} (hindex : index % count = slot count start inc c) (hct : c < t)
    (hrounds : t ≤ c + rounds)
    (hmarked : ∀ k, c < k → k < t → Collides bs (slot count start inc k))
    (hmatch : ∃ b, bs[slot count start inc t]? = some b ∧ Matches kind hash key b) :
    ∃ k, c < k ∧ k ≤ t ∧
      findLoop kind bs count inc hash key rounds index = .ok (some (slot count start inc k)) := by
  induction rounds generalizing c index with
  | zero => omega
  | succ rounds ih =>
    have hnext : (slot count start inc (c + 1)) % count = slot count start inc (c + 1) :=
      Nat.mod_mod ..
    by_cases hlast : c + 1 = t
    · obtain ⟨b, hb, hm⟩ := hmatch
      rw [← hlast] at hb
      rcases findLoop_succ kind hash key rounds hindex hb with ⟨-, hr⟩ | ⟨hnot, -⟩ | ⟨hnot, -⟩
      · exact ⟨c + 1, Nat.lt_succ_self c, hlast.le, hr⟩
      · exact absurd hm hnot
      · exact absurd hm hnot
    · obtain ⟨b, hb, hcollision⟩ := hmarked (c + 1) (Nat.lt_succ_self c) (by omega)
      rcases findLoop_succ kind hash key rounds hindex hb with
        ⟨-, hr⟩ | ⟨-, hunmarked, -⟩ | ⟨-, -, hr⟩
      · exact ⟨c + 1, Nat.lt_succ_self c, hct, hr⟩
      · rw [hcollision] at hunmarked
        cases hunmarked
      · obtain ⟨k, hck, hkt, hfind⟩ :=
          ih hnext (by omega) (by omega) fun k hk => hmarked k (by omega)
        exact ⟨k, by omega, hkt, hr.trans hfind⟩

/-- The loop ends at a bucket that is not marked, if not before. -/
theorem findLoop_ends {t : ℕ} (hcount : 0 < count) (hlength : bs.length = count)
    (hindex : index % count = slot count start inc c) (hct : c < t) (hrounds : t ≤ c + rounds)
    (hunmarked : ∃ b, bs[slot count start inc t]? = some b ∧ b.collision = false) :
    ∃ r, findLoop kind bs count inc hash key rounds index = .ok r := by
  induction rounds generalizing c index with
  | zero => omega
  | succ rounds ih =>
    have hlt : slot count start inc (c + 1) < bs.length := by
      rw [hlength]
      exact slot_lt hcount ..
    have hnext : (slot count start inc (c + 1)) % count = slot count start inc (c + 1) :=
      Nat.mod_mod ..
    rcases findLoop_succ kind hash key rounds hindex
        (List.getElem?_eq_getElem hlt) with ⟨-, hr⟩ | ⟨-, -, hr⟩ | ⟨-, hcollision, hr⟩
    · exact ⟨_, hr⟩
    · exact ⟨_, hr⟩
    · have hne : c + 1 ≠ t := by
        rintro rfl
        obtain ⟨b, hb, hfalse⟩ := hunmarked
        rw [List.getElem?_eq_getElem hlt] at hb
        cases hb
        rw [hcollision] at hfalse
        cases hfalse
      obtain ⟨r, hfind⟩ := ih hnext (by omega) (by omega)
      exact ⟨r, hr.trans hfind⟩

/-- From any index the loop ends, if one bucket is not filled. -/
theorem findLoop_ok (hp : count.Prime) (hlength : bs.length = count)
    (hunfilled : ∃ b ∈ bs, b.filled = false) (hash' : BitVec 30) (index : ℕ) :
    ∃ r, findLoop kind bs count (chainIncrement hash' count) hash key count index = .ok r := by
  obtain ⟨b, hmem, hfalse⟩ := hunfilled
  obtain ⟨u, hu, rfl⟩ := List.mem_iff_getElem.mp hmem
  rw [Bucket.filled, Bool.or_eq_false_iff] at hfalse
  rw [hlength] at hu
  -- A probe that is met at once is met again after a whole turn.
  obtain ⟨j, hj, hju⟩ := @slot_surjective count index _ (@coprime_chainIncrement count hash' hp) _ hu
  have hturn : ∃ t, 0 < t ∧ t ≤ count ∧ slot count index (chainIncrement hash' count) t = u := by
    by_cases hzero : j = 0
    · subst hzero
      refine ⟨count, hp.pos, le_refl _, ?_⟩
      rw [← hju, slot, slot, Nat.zero_mul, Nat.add_zero, Nat.add_mul_mod_self_left]
    · exact ⟨j, Nat.pos_of_ne_zero hzero, hj.le, hju⟩
  obtain ⟨t, hpos, hle, ht⟩ := hturn
  have hindex : index % count = slot count index (chainIncrement hash' count) 0 := by
    rw [slot, Nat.zero_mul, Nat.add_zero]
  apply findLoop_ends hp.pos hlength hindex hpos (by omega)
  refine ⟨bs[u], ?_, hfalse.1⟩
  rw [ht]
  exact List.getElem?_eq_getElem _

/-- One bucket is not filled. -/
theorem exists_unfilled (hlength : bs.length = count) (hlt : filledCount bs < count) :
    ∃ b ∈ bs, b.filled = false := by
  by_contra hall
  have hcount : filledCount bs = bs.length := by
    apply List.countP_eq_length.mpr
    intro b hb
    by_contra hf
    exact hall ⟨b, hb, by simpa using hf⟩
  omega

end AudioFlinger.Hashtable
