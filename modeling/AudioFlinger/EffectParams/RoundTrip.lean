import AudioFlinger.EffectParams.Model

/-!
# What a commit makes of deferred parameters

A record is a size and a parameter, but the client's index advances by the size
alone, and the server expects the record to end before that index. So the last
record is never passed, and the others end in the size of the next one.
-/

namespace AudioFlinger.EffectParams

open Foundation Bytes RingMemory

/-- The parameters that are deferred one after the other, with everything that is written. -/
def deferAll : List Param → Cblk → Option (Cblk × List Extent)
  | [], c => some (c, [])
  | p :: ps, c =>
    match setParameterDeferred p c with
    | .error _ => none
    | .ok (c, ws) => (deferAll ps c).map fun x => (x.1, ws ++ x.2)

/-- The writes stay in the parameter area, the commit passes the parameters as they are, and both
indices are 0 after it. -/
structure RoundTrip (engine : List Passed → Answer) (ps : List Param) (c : Cblk) (writes : List Extent) :
    Prop where
  inside : ∀ w ∈ writes, w.stop ≤ effectParamBufferSize.toNat
  passed : ∃ fuel c' r, commit fuel engine c = some (c', r) ∧
    r.passed.map Passed.bytes = ps.map Param.bytes ∧ c'.clientIndex = 0 ∧ c'.serverIndex = 0

/-! ## What the client leaves -/

/-- The sizes of the records from an offset on. -/
def Sizes (mem : ℕ → Byte) : ℕ → List ℕ → Prop
  | _, [] => True
  | pos, n :: ns => (load 32 mem pos).toNat = n ∧ Sizes mem (pos + n) ns

variable {mem mem' : ℕ → Byte} {pos : ℕ} {ns : List ℕ} {c c' : Cblk} {p : Param} {ps : List Param}
  {writes : List Extent}

theorem load_congr (hsame : ∀ i, pos ≤ i → i < pos + 4 → mem' i = mem i) :
    load 32 mem' pos = load 32 mem pos := by
  have hslice : slice mem' pos (32 / 8) = slice mem pos (32 / 8) := by
    apply List.map_congr_left
    intro j hj
    have hlt : j < 4 := List.mem_range.mp hj
    exact hsame (pos + j) (Nat.le_add_right ..) (by omega)
  rw [load, load, hslice]

theorem Sizes.congr (h : Sizes mem pos ns) (hpos : ∀ n ∈ ns, 4 ≤ n)
    (hsame : ∀ i, i < pos + ns.sum → mem' i = mem i) : Sizes mem' pos ns := by
  induction ns generalizing pos with
  | nil => trivial
  | cons n ns ih =>
    rw [List.sum_cons] at hsame
    have hn := hpos n (List.mem_cons_self ..)
    obtain ⟨hload, hrest⟩ := h
    refine ⟨?_, ih hrest (fun m hm => hpos m (List.mem_cons_of_mem n hm)) fun i hi => ?_⟩
    · rw [load_congr fun i _ hi => hsame i (by omega)]
      exact hload
    · exact hsame i (by omega)

theorem Sizes.concat (h : Sizes mem pos ns) {n : ℕ} (hload : (load 32 mem (pos + ns.sum)).toNat = n) :
    Sizes mem pos (ns ++ [n]) := by
  induction ns generalizing pos with
  | nil => exact ⟨hload, trivial⟩
  | cons m ns ih =>
    obtain ⟨hm, hrest⟩ := h
    rw [List.sum_cons, ← Nat.add_assoc] at hload
    exact ⟨hm, ih hrest hload⟩

/-- A parameter that is accepted, with its writes in the area: the index advances by its rounded
size, which stands in front of it. -/
theorem setParameterDeferred_spec (h : setParameterDeferred p c = .ok (c', writes))
    (hinside : ∀ w ∈ writes, w.stop ≤ effectParamBufferSize.toNat) :
    ∃ n, 4 ≤ n ∧ c'.clientIndex.toNat = c.clientIndex.toNat + n ∧ c'.clientIndex.toNat ≤ 1024 ∧
      (load 32 c'.buffer c.clientIndex.toNat).toNat = n ∧
        (∀ i, i < c.clientIndex.toNat → c'.buffer i = c.buffer i) ∧ c'.serverIndex = c.serverIndex := by
  rw [setParameterDeferred] at h
  split at h
  · cases h
  next hsizes =>
    simp only at h
    split at h
    · cases h
    next hroom =>
      cases h
      have hdata := p.fits
      rw [p.data_length] at hdata
      have hpsize : (roundWord p.psize + p.vsize).toNat = Fields.padded p.psize.toNat + p.vsize.toNat := by
        rw [BitVec.toNat_add, roundWord_toNat (fun h => hsizes (.inl h)) (by lia)]
        exact Nat.mod_eq_of_lt (by lia)
      have htotal : (12 + (roundWord p.psize + p.vsize)).toNat =
          12 + (Fields.padded p.psize.toNat + p.vsize.toNat) := by
        rw [BitVec.toNat_add, hpsize]
        exact Nat.mod_eq_of_lt hdata
      have hwrite := hinside ⟨c.clientIndex.toNat + 4, (12 + (roundWord p.psize + p.vsize)).toNat⟩ (by simp)
      have hwrite' : c.clientIndex.toNat + 4 + (12 + (roundWord p.psize + p.vsize)).toNat ≤ 1024 := hwrite
      rw [htotal] at hwrite'
      have hpad := Fields.le_padded (12 + (Fields.padded p.psize.toNat + p.vsize.toNat))
      have hpad' : Fields.padded (12 + (Fields.padded p.psize.toNat + p.vsize.toNat)) ≤
          12 + (Fields.padded p.psize.toNat + p.vsize.toNat) + 3 := by
        rw [Fields.padded]
        lia
      have hsize : (roundWord (12 + (roundWord p.psize + p.vsize))).toNat =
          Fields.padded (12 + (Fields.padded p.psize.toNat + p.vsize.toNat)) := by
        rw [roundWord_toNat, htotal]
        · intro hzero
          rw [hzero] at htotal
          have : (0 : U32).toNat = 0 := rfl
          lia
        · rw [htotal]
          lia
      have hsum : (c.clientIndex + roundWord (12 + (roundWord p.psize + p.vsize))).toNat =
          c.clientIndex.toNat + Fields.padded (12 + (Fields.padded p.psize.toNat + p.vsize.toNat)) := by
        rw [BitVec.toNat_add, hsize]
        exact Nat.mod_eq_of_lt (by lia)
      refine ⟨_, ?_, hsum, ?_, ?_, ?_, rfl⟩
      · lia
      · have hle : (c.clientIndex + roundWord (12 + (roundWord p.psize + p.vsize))).toNat ≤
            effectParamBufferSize.toNat := BitVec.le_def.mp (BitVec.not_lt.mp hroom)
        exact hle
      · have hstored : Stores (blit (blit c.buffer c.clientIndex.toNat
            (bytes (roundWord (12 + (roundWord p.psize + p.vsize))))) (c.clientIndex.toNat + 4)
              (p.bytes.take (12 + (roundWord p.psize + p.vsize)).toNat)) c.clientIndex.toNat
                (bytes (roundWord (12 + (roundWord p.psize + p.vsize)))) :=
          (stores_blit ..).blit (.inl (by rw [bytes_length]))
        rw [hstored.load (by decide), hsize]
      · intro i hi
        change blit _ _ _ i = _
        rw [blit_miss (.inl (by lia)), blit_miss (.inl hi)]

/-- The records that are there after all parameters were deferred. -/
theorem deferAll_spec (h : deferAll ps c = some (c', writes))
    (hinside : ∀ w ∈ writes, w.stop ≤ effectParamBufferSize.toNat) (hsizes : Sizes c.buffer 0 ns)
    (hfour : ∀ n ∈ ns, 4 ≤ n) (hsum : c.clientIndex.toNat = ns.sum) (hindex : c.clientIndex.toNat ≤ 1024) :
    ∃ ns', ns'.length = ns.length + ps.length ∧ Sizes c'.buffer 0 ns' ∧ (∀ n ∈ ns', 4 ≤ n) ∧
      c'.clientIndex.toNat = ns'.sum ∧ c'.clientIndex.toNat ≤ 1024 ∧ c'.serverIndex = c.serverIndex := by
  induction ps generalizing c ns writes with
  | nil =>
    cases h
    exact ⟨ns, rfl, hsizes, hfour, hsum, hindex, rfl⟩
  | cons p ps ih =>
    rw [deferAll] at h
    cases hdefer : setParameterDeferred p c with
    | error e =>
      rw [hdefer] at h
      cases h
    | ok x =>
      obtain ⟨c₁, ws⟩ := x
      rw [hdefer] at h
      obtain ⟨⟨c₂, ws'⟩, hrest, heq⟩ := Option.map_eq_some_iff.mp h
      cases heq
      obtain ⟨n, hn, hindex', hle, hload, hsame, hserver⟩ := setParameterDeferred_spec hdefer
        fun w hw => hinside w (List.mem_append_left _ hw)
      have hlater : Sizes c₁.buffer 0 (ns ++ [n]) := by
        have hbefore : Sizes c₁.buffer 0 ns := hsizes.congr hfour fun i hi => hsame i (by omega)
        apply hbefore.concat
        rwa [Nat.zero_add, ← hsum]
      have hfour' : ∀ m ∈ ns ++ [n], 4 ≤ m := by
        intro m hm
        rcases List.mem_append.mp hm with hm | hm
        · exact hfour m hm
        · rw [List.mem_singleton.mp hm]
          exact hn
      have hsum' : c₁.clientIndex.toNat = (ns ++ [n]).sum := by
        rw [List.sum_append, List.sum_singleton, hindex', hsum]
      obtain ⟨ns', hlength, hrest'⟩ := ih hrest (fun w hw => hinside w (List.mem_append_right _ hw)) hlater
        hfour' hsum' hle
      refine ⟨ns', ?_, hserver ▸ hrest'⟩
      rw [hlength, List.length_append, List.length_singleton, List.length_cons]
      omega

/-! ## What the server passes -/

variable {engine : List Passed → Answer} {r r' : Commit} {clientIndex : U32} {n : ℕ}

/-- One round passes at most one command, and nothing of a record that ends behind the client's
index. -/
theorem round_spec (mem : ℕ → Byte) (clientIndex : U32) (engine : List Passed → Answer) (r : Commit) :
    (r.round mem clientIndex engine).1.passed.length ≤ r.passed.length + 1 ∧
      ((r.round mem clientIndex engine).2 = true →
        (r.round mem clientIndex engine).1.serverIndex = r.serverIndex + load 32 mem r.serverIndex.toNat) ∧
      ((r.serverIndex.toNat : ℤ) + 4 + (load 32 mem r.serverIndex.toNat).toInt > clientIndex.toNat →
        (r.round mem clientIndex engine).2 = false ∧
          (r.round mem clientIndex engine).1.passed = r.passed) := by
  rw [Commit.round]
  simp only
  split
  next => exact ⟨Nat.le_succ _, nofun, fun _ => ⟨rfl, rfl⟩⟩
  next hfits =>
    split
    · exact ⟨Nat.le_succ _, fun _ => rfl, fun h => absurd h hfits⟩
    · split
      · exact ⟨Nat.le_succ _, fun _ => rfl, fun h => absurd h hfits⟩
      · split
        · refine ⟨?_, nofun, fun h => absurd h hfits⟩
          rw [List.length_append]
          exact le_rfl
        · split
          · refine ⟨?_, nofun, fun h => absurd h hfits⟩
            rw [List.length_append]
            exact le_rfl
          · refine ⟨?_, fun _ => rfl, fun h => absurd h hfits⟩
            rw [List.length_append]
            exact le_rfl

/-- The last record is not passed. -/
theorem loop_passed (hsizes : Sizes mem r.serverIndex.toNat ns) (hne : ns ≠ []) (hfour : ∀ n ∈ ns, 4 ≤ n)
    (hsum : r.serverIndex.toNat + ns.sum = clientIndex.toNat) (hindex : clientIndex.toNat ≤ 1024) {fuel : ℕ}
    (hrun : Commit.loop mem clientIndex engine fuel r = some r') :
    r'.passed.length < r.passed.length + ns.length := by
  induction fuel generalizing r ns with
  | zero => cases hrun
  | succ fuel ih =>
    obtain ⟨n, ns, rfl⟩ := List.exists_cons_of_ne_nil hne
    obtain ⟨hload, hrest⟩ := hsizes
    rw [List.sum_cons] at hsum
    have hn := hfour n (List.mem_cons_self ..)
    have hlt : r.serverIndex < clientIndex := BitVec.lt_def.mpr (by lia)
    have hint : (load 32 mem r.serverIndex.toNat).toInt = n := by
      rw [BitVec.toInt_eq_toNat_of_lt (by lia), hload]
    obtain ⟨hone, hnext, hlast⟩ := round_spec mem clientIndex engine r
    rw [Commit.loop, if_pos hlt] at hrun
    simp only at hrun
    by_cases hns : ns = []
    · subst hns
      obtain ⟨hstops, hpassed⟩ := hlast (by rw [hint]; simp at hsum; lia)
      rw [hstops, if_neg Bool.false_ne_true] at hrun
      cases hrun
      rw [hpassed]
      simp
    · have hlen := List.length_pos_of_ne_nil hns
      rw [List.length_cons]
      cases hgo : (r.round mem clientIndex engine).2 with
      | false =>
        rw [hgo, if_neg Bool.false_ne_true] at hrun
        cases hrun
        lia
      | true =>
        rw [hgo, if_pos rfl] at hrun
        have hserver : (r.round mem clientIndex engine).1.serverIndex.toNat = r.serverIndex.toNat + n := by
          rw [hnext hgo, BitVec.toNat_add, hload]
          exact Nat.mod_eq_of_lt (by lia)
        rw [← hserver] at hrest
        have hlater := ih hrest hns (fun m hm => hfour m (List.mem_cons_of_mem n hm)) (by lia) hrun
        lia

/-- Only without parameters is the round trip right. -/
theorem RoundTrip.eq_nil {buffer : ℕ → Byte} (h : deferAll ps ⟨buffer, 0, 0⟩ = some (c, writes))
    (hround : RoundTrip engine ps c writes) : ps = [] := by
  by_contra hne
  obtain ⟨fuel, c', r, hcommit, hpassed, -⟩ := hround.passed
  obtain ⟨ns, hlength, hsizes, hfour, hsum, hindex, hserver⟩ :=
    @deferAll_spec [] _ _ _ _ h hround.inside trivial nofun rfl (Nat.zero_le _)
  have hserver' : c.serverIndex = 0 := hserver
  rw [List.length_nil, Nat.zero_add] at hlength
  unfold commit at hcommit
  rw [if_neg] at hcommit
  · obtain ⟨r', hloop, heq⟩ := Option.map_eq_some_iff.mp hcommit
    cases heq
    rw [hserver'] at hloop
    have hless := @loop_passed _ _ _ _ _ _ hsizes (by
      rintro rfl
      exact hne (List.eq_nil_of_length_eq_zero hlength.symm)) hfour (by
        change 0 + ns.sum = _
        omega) hindex _ hloop
    have hcount := congrArg List.length hpassed
    rw [List.length_map, List.length_map] at hcount
    simp only [List.length_nil] at hless
    omega
  · rw [hserver', not_or]
    refine ⟨?_, by decide⟩
    rw [gt_iff_lt, BitVec.not_lt, BitVec.le_def]
    exact hindex

/-- The parameters that are deferred since the last commit make the round trip only if there are
none. -/
theorem roundTrip_iff (engine : List Passed → Answer) (ps : List Param) (buffer : ℕ → Byte) (c : Cblk)
    (writes : List Extent) (h : deferAll ps ⟨buffer, 0, 0⟩ = some (c, writes)) :
    RoundTrip engine ps c writes ↔ ps = [] := by
  refine ⟨RoundTrip.eq_nil h, ?_⟩
  rintro rfl
  cases h
  exact ⟨nofun, 1, _, _, rfl, rfl, rfl, rfl⟩

/-- A parameter of four bytes with a value of `n` times the same byte. -/
def fill (n : U32) (value : Byte) (hn : n.toNat ≤ 1024) : Param where
  status := 0
  psize := 4
  vsize := n
  data := [1, 0, 0, 0] ++ List.replicate n.toNat value
  data_length := by
    rw [List.length_append, List.length_replicate]
    rfl
  fits := by
    rw [List.length_append, List.length_replicate, List.length_cons, List.length_cons, List.length_cons,
      List.length_singleton]
    omega

/-- A parameter of four bytes with a value of four bytes. -/
def smallParam (value : Byte) : Param := fill 4 value (by decide)

/-- An engine that takes every command. -/
def willing : List Passed → Answer := fun _ => ⟨0, 0⟩

theorem roundTrip_iff_small : ∃ c writes,
    deferAll [smallParam 7, smallParam 9] ⟨fun _ => 0, 0, 0⟩ = some (c, writes) ∧
      (RoundTrip willing [smallParam 7, smallParam 9] c writes ↔ [smallParam 7, smallParam 9] = []) := by
  have hrun := Option.eq_some_of_isSome (by decide :
    (deferAll [smallParam 7, smallParam 9] ⟨fun _ => 0, 0, 0⟩).isSome = true)
  exact ⟨_, _, hrun, roundTrip_iff willing _ _ _ _ hrun⟩

/-- One parameter is not passed at all; of two the first is passed, with the size of the second in
its value; and a parameter of 1024 bytes ends four bytes behind the area. -/
theorem deferred_parameters_lost :
    (∃ c writes, deferAll [smallParam 7] ⟨fun _ => 0, 0, 0⟩ = some (c, writes) ∧
      ¬ RoundTrip willing [smallParam 7] c writes ∧
        (commit 9 willing c).map (fun x => x.2.passed.map Passed.bytes) = some []) ∧
    ((deferAll [smallParam 7, smallParam 9] ⟨fun _ => 0, 0, 0⟩).bind fun x => commit 9 willing x.1).map
      (fun x => x.2.passed.map Passed.bytes) = some [(smallParam 7).bytes.take 16 ++ [20, 0, 0, 0]] ∧
    (deferAll [fill 1008 7 (by decide)] ⟨fun _ => 0, 0, 0⟩).map (fun x => x.2.map Extent.stop) =
      some [4, 1028] := by
  refine ⟨?_, by decide, by decide⟩
  have hrun := Option.eq_some_of_isSome (by decide :
    (deferAll [smallParam 7] ⟨fun _ => 0, 0, 0⟩).isSome = true)
  refine ⟨_, _, hrun, fun hround => ?_, by decide⟩
  cases hround.eq_nil hrun

end AudioFlinger.EffectParams
