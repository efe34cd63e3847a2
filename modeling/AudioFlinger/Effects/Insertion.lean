import AudioFlinger.Effects.Model

/-!
# Where an effect is inserted

The position of a new effect lies in the chain, and whether there is one depends
only on which effects the chain has, not on their order.
-/

namespace AudioFlinger.Effects

variable {es es' : List Module} {e : Module} {d : Descriptor} {i : ℕ} {s : Chain.InsertScan} {c c' : Chain}

def Descriptor.isInsert (d : Descriptor) : Bool := d.typeFlag = effectFlagTypeInsert

def Descriptor.isExclusive (d : Descriptor) : Bool := d.insertPref = effectFlagInsertExclusive

namespace Chain

/-- The positions that the scan of the effects before `i` finds lie before `i`. -/
structure InsertScan.Before (s : InsertScan) (i : ℕ) : Prop where
  first : ∀ k ∈ s.first, k < i
  claimFirst : ∀ k ∈ s.claimFirst, k < i
  claimLast : ∀ k ∈ s.claimLast, k < i

theorem InsertScan.Before.mono {i' : ℕ} (h : s.Before i) (hi : i ≤ i') : s.Before i' where
  first := fun k hk => (h.first k hk).trans_le hi
  claimFirst := fun k hk => (h.claimFirst k hk).trans_le hi
  claimLast := fun k hk => (h.claimLast k hk).trans_le hi

/-- The first position that is found is kept. -/
theorem or_lt {o : Option ℕ} (ho : ∀ k ∈ o, k < i) : ∀ k ∈ o.or (some i), k < i + 1 := by
  intro k hk
  cases o with
  | none =>
    cases hk
    omega
  | some j =>
    have hj := ho j rfl
    cases hk
    omega

theorem insertScan_before (h : s.Before i) : (insertScan es i s).Before (i + es.length) := by
  induction es generalizing i s with
  | nil => exact h
  | cons e es ih =>
    have hlen : i + (e :: es).length = i + 1 + es.length := by
      rw [List.length_cons]
      omega
    rw [hlen, insertScan]
    split
    · apply ih
      refine ⟨or_lt h.first, fun k hk => ?_, fun k hk => ?_⟩
      · simp only at hk
        split at hk
        · cases hk
          omega
        · exact Nat.lt_succ_of_lt (h.claimFirst k hk)
      · simp only at hk
        split at hk
        · exact or_lt h.claimLast k hk
        · exact Nat.lt_succ_of_lt (h.claimLast k hk)
    · exact ih (h.mono (Nat.le_succ i))

theorem insertScan_found : (insertScan es i s).exclusive =
      (s.exclusive || es.any fun e => e.mDescriptor.isInsert && e.mDescriptor.isExclusive) ∧
    (insertScan es i s).first.isSome = (s.first.isSome || es.any fun e => e.mDescriptor.isInsert) := by
  induction es generalizing i s with
  | nil => simp [insertScan]
  | cons e es ih =>
    rw [insertScan]
    by_cases hinsert : e.mDescriptor.typeFlag = effectFlagTypeInsert
    · rw [if_pos hinsert]
      obtain ⟨hexclusive, hfirst⟩ := @ih (i + 1)
        { exclusive := s.exclusive || decide (e.mDescriptor.insertPref = effectFlagInsertExclusive)
          first := s.first.or (some i)
          claimFirst :=
            if e.mDescriptor.insertPref = effectFlagInsertFirst then some i else s.claimFirst
          claimLast :=
            if e.mDescriptor.insertPref = effectFlagInsertLast then s.claimLast.or (some i)
            else s.claimLast }
      rw [hexclusive, hfirst]
      simp [Descriptor.isInsert, Descriptor.isExclusive, hinsert, Bool.or_assoc]
    · rw [if_neg hinsert]
      obtain ⟨hexclusive, hfirst⟩ := @ih (i + 1) s
      rw [hexclusive, hfirst]
      simp [Descriptor.isInsert, hinsert]

theorem insertIndex_le (h : insertIndex d es = some i) : i ≤ es.length := by
  have hscan := @insertScan_before es 0 ⟨false, none, none, none⟩ ⟨nofun, nofun, nofun⟩
  rw [Nat.zero_add] at hscan
  rw [insertIndex] at h
  split at h
  · cases h
    exact Nat.zero_le _
  · simp only at h
    split at h
    · cases h
    · split at h
      · cases hlast : (insertScan es 0 ⟨false, none, none, none⟩).claimLast with
        | none =>
          rw [hlast] at h
          cases h
          exact Nat.le_refl _
        | some k =>
          rw [hlast] at h
          cases h
          exact (hscan.claimLast _ hlast).le
      · cases hclaim : (insertScan es 0 ⟨false, none, none, none⟩).claimFirst with
        | none =>
          cases hfirst : (insertScan es 0 ⟨false, none, none, none⟩).first with
          | none =>
            rw [hclaim, hfirst] at h
            cases h
            exact Nat.le_refl _
          | some k =>
            rw [hclaim, hfirst] at h
            cases h
            exact (hscan.first _ hfirst).le
        | some k =>
          rw [hclaim] at h
          cases h
          exact hscan.claimFirst k hclaim

/-- Whether an effect can be added: an exclusive effect must be the only one that is inserted. -/
theorem insertIndex_isSome : (insertIndex d es).isSome = true ↔
    d.typeFlag = effectFlagTypeAuxiliary ∨
      (∀ e ∈ es, e.mDescriptor.isInsert = true →
        e.mDescriptor.isExclusive = false ∧ d.isExclusive = false) := by
  obtain ⟨hexclusive, hfirst⟩ := @insertScan_found es 0 ⟨false, none, none, none⟩
  rw [insertIndex]
  by_cases haux : d.typeFlag = effectFlagTypeAuxiliary
  · simp [haux]
  · rw [if_neg haux]
    simp only [hexclusive, hfirst, haux, false_or, Bool.false_or, Option.isSome_none]
    by_cases hnone : ∀ e ∈ es, e.mDescriptor.isInsert = true →
        e.mDescriptor.isExclusive = false ∧ d.isExclusive = false
    · have hfree : ((es.any fun e => e.mDescriptor.isInsert && e.mDescriptor.isExclusive) ||
          (es.any (fun e => e.mDescriptor.isInsert) &&
            decide (d.insertPref = effectFlagInsertExclusive))) = false := by
        rw [Bool.or_eq_false_iff, Bool.and_eq_false_iff, List.any_eq_false, List.any_eq_false]
        refine ⟨fun e he => ?_, ?_⟩
        · have h := hnone e he
          cases hins : e.mDescriptor.isInsert with
          | false => simp
          | true => simp [(h hins).1]
        · by_cases hany : ∃ e ∈ es, e.mDescriptor.isInsert = true
          · obtain ⟨e, he, hins⟩ := hany
            exact .inr (hnone e he hins).2
          · exact .inl fun e he hins => hany ⟨e, he, hins⟩
      refine ⟨fun _ => hnone, fun _ => ?_⟩
      simp only [hfree, Bool.false_eq_true, if_false]
      split <;> rfl
    · have hbusy : ((es.any fun e => e.mDescriptor.isInsert && e.mDescriptor.isExclusive) ||
          (es.any (fun e => e.mDescriptor.isInsert) &&
            decide (d.insertPref = effectFlagInsertExclusive))) = true := by
        push Not at hnone
        obtain ⟨e, he, hins, hne⟩ := hnone
        rw [Bool.or_eq_true, Bool.and_eq_true, List.any_eq_true, List.any_eq_true]
        by_cases hex : e.mDescriptor.isExclusive = true
        · exact .inl ⟨e, he, by simp [hins, hex]⟩
        · refine .inr ⟨⟨e, he, hins⟩, ?_⟩
          have hd := hne (by simpa using hex)
          simpa [Descriptor.isExclusive] using hd
      simp [hbusy, hnone]

/-- The effects after one was added. -/
theorem addEffect_perm (h : c.addEffect e = some c') :
    c'.mSessionId = c.mSessionId ∧ c'.mSuspendedEffects = c.mSuspendedEffects ∧
      c'.mEffects.Perm (e :: c.mEffects) := by
  obtain ⟨i, hi, rfl⟩ := Option.map_eq_some_iff.mp h
  exact ⟨rfl, rfl, List.perm_insertIdx e c.mEffects (insertIndex_le hi)⟩

end Chain

end AudioFlinger.Effects
