import AudioFlinger.EffectParams.RoundTrip

/-!
# What a client can make of a commit

The size in front of a parameter, the parameter's own sizes and the indices are
all the client's. A commit is safe for exactly those contents that are a chain of
well-formed records.
-/

namespace AudioFlinger.EffectParams

open Foundation Bytes RingMemory

/-- What was read ends before the client's index, and no command is longer than its record. -/
structure Commit.Bounded (clientIndex : U32) (r : Commit) : Prop where
  reads : ∀ e ∈ r.reads, e.stop ≤ clientIndex.toNat
  passed : ∀ p ∈ r.passed, (p.psize.toNat : ℤ) ≤ p.size.toInt

/-- The commit returns, and was bounded. -/
def Safe (engine : List Passed → Answer) (c : Cblk) : Prop :=
  ∃ fuel c' r, commit fuel engine c = some (c', r) ∧ r.Bounded c.clientIndex

/-- The record at an offset ends before the client's index. -/
def Fits (buffer : ℕ → Byte) (clientIndex s : U32) : Prop :=
  (s.toNat : ℤ) + 4 + (load 32 buffer s.toNat).toInt ≤ clientIndex.toNat

/-- The size at an offset lies before the client's index, and where the record fits so do the
sizes of its parameter, whose length is at most the record's. -/
def Header (buffer : ℕ → Byte) (clientIndex s : U32) : Prop :=
  let size := load 32 buffer s.toNat
  let psize := load 32 buffer (s.toNat + 8)
  let vsize := load 32 buffer (s.toNat + 12)
  s.toNat + 4 ≤ clientIndex.toNat ∧
    (Fits buffer clientIndex s → s.toNat + 12 ≤ clientIndex.toNat ∧
      (psize ≠ 0 → s.toNat + 16 ≤ clientIndex.toNat ∧
        (vsize ≠ 0 → ((12 + roundWord psize + vsize).toNat : ℤ) ≤ size.toInt)))

/-- From an offset on there are finitely many records with good headers, one behind the other, up
to the client's index or a record that does not fit. -/
inductive Records (buffer : ℕ → Byte) (clientIndex : U32) : U32 → Prop
  | done {s : U32} (hend : clientIndex ≤ s) : Records buffer clientIndex s
  | record {s : U32} (hmore : s < clientIndex) (header : Header buffer clientIndex s)
      (next : Fits buffer clientIndex s → Records buffer clientIndex (s + load 32 buffer s.toNat)) :
      Records buffer clientIndex s

variable {buffer : ℕ → Byte} {clientIndex : U32} {engine : List Passed → Answer} {r r' : Commit}

/-! ## One round -/

namespace Commit

theorem bounded_append (r : Commit) (es : List Extent) (ps : List Passed) (hreads : r'.reads = r.reads ++ es)
    (hpassed : r'.passed = r.passed ++ ps) : r'.Bounded clientIndex ↔
      r.Bounded clientIndex ∧ (∀ e ∈ es, e.stop ≤ clientIndex.toNat) ∧
        ∀ p ∈ ps, (p.psize.toNat : ℤ) ≤ p.size.toInt := by
  constructor
  · rintro ⟨hr, hp⟩
    rw [hreads, List.forall_mem_append] at hr
    rw [hpassed, List.forall_mem_append] at hp
    exact ⟨⟨hr.1, hp.1⟩, hr.2, hp.2⟩
  · rintro ⟨⟨hr, hp⟩, hes, hps⟩
    constructor
    · rw [hreads, List.forall_mem_append]
      exact ⟨hr, hes⟩
    · rw [hpassed, List.forall_mem_append]
      exact ⟨hp, hps⟩

/-- A round stays bounded exactly where the header is good. -/
theorem round_bounded : ((r.round buffer clientIndex engine).1).Bounded clientIndex ↔
    r.Bounded clientIndex ∧ Header buffer clientIndex r.serverIndex := by
  rw [round]
  simp only
  split
  next hbehind =>
    have hfits : ¬ Fits buffer clientIndex r.serverIndex := not_le.mpr hbehind
    refine Iff.trans (bounded_append r [⟨r.serverIndex.toNat, 4⟩] [] (by simp) (by simp))
      (and_congr_right fun _ => ?_)
    simp [Header, hfits, Extent.stop]
  next hfits =>
    have hfits : Fits buffer clientIndex r.serverIndex := not_lt.mp hfits
    split
    next hpsize =>
      refine Iff.trans (bounded_append r [⟨r.serverIndex.toNat, 4⟩, ⟨r.serverIndex.toNat + 8, 4⟩] []
        (by simp) (by simp)) (and_congr_right fun _ => ?_)
      simp [Header, hfits, Extent.stop, hpsize]
    next hpsize =>
      have hpsize : load 32 buffer (r.serverIndex.toNat + 8) ≠ 0#32 := hpsize
      split
      next hvsize =>
        refine Iff.trans (bounded_append r [⟨r.serverIndex.toNat, 4⟩, ⟨r.serverIndex.toNat + 8, 4⟩,
          ⟨r.serverIndex.toNat + 12, 4⟩] [] (by simp) (by simp)) (and_congr_right fun _ => ?_)
        simp [Header, hfits, Extent.stop, hpsize, hvsize]
      next hvsize =>
        have hvsize : load 32 buffer (r.serverIndex.toNat + 12) ≠ 0#32 := hvsize
        -- whatever the engine answers, the same was read and passed
        have hpass : ∀ r' : Commit,
            r'.reads = ((r.reads ++ [⟨r.serverIndex.toNat, 4⟩]) ++ [⟨r.serverIndex.toNat + 8, 4⟩]) ++
              [⟨r.serverIndex.toNat + 12, 4⟩] →
            r'.passed = r.passed ++ [⟨r.serverIndex.toNat + 4,
              12 + roundWord (load 32 buffer (r.serverIndex.toNat + 8)) +
                load 32 buffer (r.serverIndex.toNat + 12),
              slice buffer (r.serverIndex.toNat + 4)
                (12 + roundWord (load 32 buffer (r.serverIndex.toNat + 8)) +
                  load 32 buffer (r.serverIndex.toNat + 12)).toNat,
              load 32 buffer r.serverIndex.toNat⟩] →
            (r'.Bounded clientIndex ↔
              r.Bounded clientIndex ∧ Header buffer clientIndex r.serverIndex) := by
          intro r' hreads hpassed
          refine Iff.trans (bounded_append r [⟨r.serverIndex.toNat, 4⟩, ⟨r.serverIndex.toNat + 8, 4⟩,
            ⟨r.serverIndex.toNat + 12, 4⟩] _ (by simp [hreads]) hpassed) (and_congr_right fun _ => ?_)
          simp [Header, hfits, Extent.stop, hpsize, hvsize, and_assoc]
        split
        · exact hpass _ rfl rfl
        · split
          · exact hpass _ rfl rfl
          · exact hpass _ rfl rfl

/-- Only behind a record that fits the loop goes on, with the offset behind its size. -/
theorem round_next (h : (r.round buffer clientIndex engine).2 = true) :
    Fits buffer clientIndex r.serverIndex ∧ (r.round buffer clientIndex engine).1.serverIndex =
      r.serverIndex + load 32 buffer r.serverIndex.toNat := by
  obtain ⟨-, hnext, hbehind⟩ := round_spec buffer clientIndex engine r
  refine ⟨?_, hnext h⟩
  by_contra hfits
  rw [(hbehind (not_le.mp hfits)).1] at h
  cases h

/-- Behind a record that fits the loop goes on if the engine takes everything. -/
theorem round_willing (h : Fits buffer clientIndex r.serverIndex) :
    (r.round buffer clientIndex willing).2 = true := by
  rw [round]
  simp only
  rw [if_neg (not_lt.mpr h)]
  split
  · rfl
  · split
    · rfl
    · rfl

end Commit

/-! ## The loop -/

theorem Records.loop_bounded {s : U32} (h : Records buffer clientIndex s) (hr : r.Bounded clientIndex)
    (hs : r.serverIndex = s) : ∃ fuel r', Commit.loop buffer clientIndex engine fuel r = some r' ∧
      r'.Bounded clientIndex := by
  induction h generalizing r with
  | done hend =>
    subst hs
    refine ⟨1, r, ?_, hr⟩
    rw [Commit.loop, if_neg (BitVec.not_lt.mpr hend)]
  | record hmore header next ih =>
    subst hs
    have hround : (r.round buffer clientIndex engine).1.Bounded clientIndex :=
      Commit.round_bounded.mpr ⟨hr, header⟩
    cases hgo : (r.round buffer clientIndex engine).2 with
    | false =>
      refine ⟨1, (r.round buffer clientIndex engine).1, ?_, hround⟩
      rw [Commit.loop, if_pos hmore]
      simp only
      rw [hgo, if_neg Bool.false_ne_true]
    | true =>
      obtain ⟨hfits, hserver⟩ := Commit.round_next hgo
      obtain ⟨fuel, r', hloop, hr'⟩ := ih hfits hround hserver
      refine ⟨fuel + 1, r', ?_, hr'⟩
      rw [Commit.loop, if_pos hmore]
      simp only
      rw [hgo, if_pos rfl]
      exact hloop

theorem Records.of_loop {fuel : ℕ} (h : Commit.loop buffer clientIndex willing fuel r = some r')
    (hr' : r'.Bounded clientIndex) :
    r.Bounded clientIndex ∧ Records buffer clientIndex r.serverIndex := by
  induction fuel generalizing r with
  | zero => cases h
  | succ fuel ih =>
    rw [Commit.loop] at h
    split at h
    next hmore =>
      simp only at h
      cases hgo : (r.round buffer clientIndex willing).2 with
      | false =>
        rw [hgo, if_neg Bool.false_ne_true] at h
        cases h
        obtain ⟨hr, header⟩ := Commit.round_bounded.mp hr'
        refine ⟨hr, .record hmore header fun hfits => ?_⟩
        rw [Commit.round_willing hfits] at hgo
        cases hgo
      | true =>
        rw [hgo, if_pos rfl] at h
        obtain ⟨hround, hrest⟩ := ih h
        obtain ⟨hr, header⟩ := Commit.round_bounded.mp hround
        refine ⟨hr, .record hmore header fun _ => ?_⟩
        rw [← (Commit.round_next hgo).2]
        exact hrest
    next hend =>
      cases h
      exact ⟨hr', .done (BitVec.not_lt.mp hend)⟩

/-- With every engine the commit is safe, if and only if an index is out of range or the buffer
holds a chain of records between them. -/
theorem commit_safe_iff (c : Cblk) : (∀ engine, Safe engine c) ↔
    (c.clientIndex ≤ effectParamBufferSize → c.serverIndex ≤ effectParamBufferSize →
      Records c.buffer c.clientIndex c.serverIndex) := by
  constructor
  · intro h hclient hserver
    obtain ⟨fuel, c', r, hcommit, hr⟩ := h willing
    rw [commit, if_neg (not_or.mpr ⟨BitVec.not_lt.mpr hclient, BitVec.not_lt.mpr hserver⟩)] at hcommit
    obtain ⟨r', hloop, heq⟩ := Option.map_eq_some_iff.mp hcommit
    cases heq
    exact (Records.of_loop hloop hr).2
  · intro h engine
    by_cases hrange : c.clientIndex > effectParamBufferSize ∨ c.serverIndex > effectParamBufferSize
    · refine ⟨0, ⟨c.buffer, 0, 0⟩, ⟨0, [], [], badValue, none⟩, ?_, nofun, nofun⟩
      rw [commit, if_pos hrange]
    · obtain ⟨hclient, hserver⟩ := not_or.mp hrange
      have hrecords := h (BitVec.not_lt.mp hclient) (BitVec.not_lt.mp hserver)
      obtain ⟨fuel, r, hloop, hr⟩ := @Records.loop_bounded _ _ engine
        ⟨c.serverIndex, [], [], 0, none⟩ _ hrecords ⟨nofun, nofun⟩ rfl
      refine ⟨fuel, ⟨c.buffer, 0, 0⟩, r, ?_, hr⟩
      rw [commit, if_neg hrange, hloop]
      rfl

/-- In a cleared buffer the loop stays at the first record for ever; a parameter that says it is
longer than its record is passed with its own length; and of a buffer of two bytes four are read. -/
theorem commit_trusts_client :
    (∀ fuel, commit fuel willing ⟨fun _ => 0, 16, 0⟩ = none) ∧
    (commit 9 willing ⟨fun i => [12, 0, 0, 0, 0, 0, 0, 0, 232, 3, 0, 0, 4, 0, 0, 0].getD i 0, 16, 0⟩).map
      (fun x => x.2.passed.map fun p => (p.psize, p.size)) = some [(1016, 12)] ∧
    (commit 9 willing ⟨fun _ => 0, 2, 0⟩).map (fun x => x.2.reads.map Extent.stop) = some [4] := by
  refine ⟨fun fuel => ?_, by decide, by decide⟩
  have hloop : ∀ r : Commit, r.serverIndex = 0 → Commit.loop (fun _ => 0) 16 willing fuel r = none := by
    induction fuel with
    | zero => exact fun _ _ => rfl
    | succ fuel ih =>
      intro r hr
      have hload : load 32 (fun _ => 0) r.serverIndex.toNat = 0 := rfl
      have hfits : Fits (fun _ => 0) 16 r.serverIndex := by
        rw [Fits, hload, hr]
        decide
      rw [Commit.loop, if_pos (by rw [hr]; decide)]
      simp only
      rw [Commit.round_willing hfits, if_pos rfl]
      apply ih
      rw [(Commit.round_next (Commit.round_willing hfits)).2, hload, hr]
      rfl
  rw [commit, if_neg (by decide), hloop _ rfl]
  rfl

end AudioFlinger.EffectParams
