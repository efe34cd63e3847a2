import AudioFlinger.Foundation.RingMemory

/-!
# Forward scans of a text in memory

A `Reading` is a value together with the indices of the memory it was read from.
`scan` repeats a body from a cursor on until the cursor has reached the stop;
`none` means that the rounds it was given were not enough. `scan_text` runs over
a text that is laid out as pieces, one round a piece.
-/

namespace AudioFlinger.Foundation.Scan

open RingMemory

/-- A value and the indices read for it. -/
@[ext] structure Reading (α : Type) where
  val : α
  reads : List ℕ

namespace Reading

instance : Monad Reading where
  pure a := ⟨a, []⟩
  bind r f := ⟨(f r.val).val, r.reads ++ (f r.val).reads⟩

variable {α β : Type}

theorem pure_eq (a : α) : (pure a : Reading α) = ⟨a, []⟩ := rfl

theorem bind_eq (r : Reading α) (f : α → Reading β) :
    r >>= f = ⟨(f r.val).val, r.reads ++ (f r.val).reads⟩ := rfl

@[simp] theorem val_pure (a : α) : (pure a : Reading α).val = a := rfl

@[simp] theorem reads_pure (a : α) : (pure a : Reading α).reads = [] := rfl

@[simp] theorem val_bind (r : Reading α) (f : α → Reading β) : (r >>= f).val = (f r.val).val := rfl

@[simp] theorem reads_bind (r : Reading α) (f : α → Reading β) :
    (r >>= f).reads = r.reads ++ (f r.val).reads := rfl

/-- A function of what was read. -/
def map (f : α → β) (r : Reading α) : Reading β := ⟨f r.val, r.reads⟩

/-- Everything read lies below `n`. -/
def Below (r : Reading α) (n : ℕ) : Prop := ∀ i ∈ r.reads, i < n

instance (r : Reading α) (n : ℕ) : Decidable (r.Below n) := List.decidableBAll _ _

/-- The same value, reached after some earlier reads. -/
def after (before : List ℕ) (r : Reading α) : Reading α := ⟨r.val, before ++ r.reads⟩

@[simp] theorem val_after (l : List ℕ) (r : Reading α) : (r.after l).val = r.val := rfl

@[simp] theorem after_nil (r : Reading α) : r.after [] = r := rfl

theorem after_after (l m : List ℕ) (r : Reading α) : (r.after m).after l = r.after (l ++ m) := by
  ext
  · rfl
  · simp [after]

theorem below_after {l : List ℕ} {r : Reading α} {n : ℕ} :
    (r.after l).Below n ↔ (∀ i ∈ l, i < n) ∧ r.Below n := by
  simp only [Below, after, List.mem_append, or_imp, forall_and]

end Reading

/-- Read one cell. -/
def read {β : Type} (src : ℕ → β) (i : ℕ) : Reading β := ⟨src i, [i]⟩

@[simp] theorem val_read {β : Type} (src : ℕ → β) (i : ℕ) : (read src i).val = src i := rfl

@[simp] theorem reads_read {β : Type} (src : ℕ → β) (i : ℕ) : (read src i).reads = [i] := rfl

variable {σ : Type}

/-- Repeat the body while the cursor is below `stop`; it returns the next cursor and accumulator. -/
def scan (stop : ℕ) (body : ℕ → σ → Reading (ℕ × σ)) : ℕ → ℕ → σ → Option (Reading (ℕ × σ))
  | 0, cur, acc => if cur < stop then none else some (pure (cur, acc))
  | rounds + 1, cur, acc =>
    if cur < stop then
      let r := body cur acc
      (scan stop body rounds r.val.1 r.val.2).map (Reading.after r.reads)
    else some (pure (cur, acc))

variable {stop : ℕ} {body : ℕ → σ → Reading (ℕ × σ)}

theorem scan_done {rounds cur : ℕ} {acc : σ} (h : stop ≤ cur) :
    scan stop body rounds cur acc = some ⟨(cur, acc), []⟩ := by
  cases rounds with
  | zero => simp [scan, Nat.not_lt.mpr h, Reading.pure_eq]
  | succ rounds => simp [scan, Nat.not_lt.mpr h, Reading.pure_eq]

theorem scan_step {rounds cur : ℕ} {acc : σ} (h : cur < stop) :
    scan stop body (rounds + 1) cur acc =
      (scan stop body rounds (body cur acc).val.1 (body cur acc).val.2).map
        (Reading.after (body cur acc).reads) := by
  simp [scan, h]

/-- One round whose outcome is known, then the rest. -/
theorem scan_cons {rounds cur : ℕ} {acc : σ} {b r : Reading (ℕ × σ)} (h : cur < stop)
    (hbody : body cur acc = b) (hrest : scan stop body rounds b.val.1 b.val.2 = some r) :
    scan stop body (rounds + 1) cur acc = some (r.after b.reads) := by
  subst hbody
  rw [scan_step h, hrest, Option.map_some]

/-- Once a scan has come to its end, more rounds change nothing. -/
theorem scan_more {rounds cur : ℕ} {acc : σ} {r : Reading (ℕ × σ)}
    (h : scan stop body rounds cur acc = some r) (k : ℕ) :
    scan stop body (rounds + k) cur acc = some r := by
  induction rounds generalizing cur acc r with
  | zero =>
    have hdone : stop ≤ cur := by
      by_contra hcur
      simp [scan, Nat.lt_of_not_le hcur] at h
    rw [scan_done hdone] at h ⊢
    exact h
  | succ rounds ih =>
    by_cases hcur : cur < stop
    · rw [scan_step hcur, Option.map_eq_some_iff] at h
      obtain ⟨r', hr', rfl⟩ := h
      rw [Nat.add_right_comm, scan_step hcur, ih hr', Option.map_some]
    · rw [scan_done (by omega)] at h ⊢
      exact h

/-! ## The positions of a scan -/

section Positions

variable {len : ℕ → ℕ}

/-- The positions at which a scan begins a round, where the round at `cur` moves on by `len cur`. -/
def starts (len : ℕ → ℕ) (stop : ℕ) : ℕ → ℕ → List ℕ
  | 0, _ => []
  | rounds + 1, cur => if cur < stop then cur :: starts len stop rounds (cur + len cur) else []

/-- Where it comes to its end. -/
def finish (len : ℕ → ℕ) (stop : ℕ) : ℕ → ℕ → ℕ
  | 0, cur => cur
  | rounds + 1, cur => if cur < stop then finish len stop rounds (cur + len cur) else cur

/-- A scan folds over its positions. -/
theorem scan_starts {put : σ → ℕ → σ} {reads : ℕ → List ℕ}
    (hbody : ∀ cur acc, body cur acc = ⟨(cur + len cur, put acc cur), reads cur⟩)
    (hlen : ∀ cur, 0 < len cur) {rounds cur : ℕ} {acc : σ} (h : stop ≤ cur + rounds) :
    scan stop body rounds cur acc =
      some ⟨(finish len stop rounds cur, (starts len stop rounds cur).foldl put acc),
        (starts len stop rounds cur).flatMap reads⟩ := by
  induction rounds generalizing cur acc with
  | zero =>
    rw [scan_done (by omega)]
    rfl
  | succ rounds ih =>
    by_cases hcur : cur < stop
    · have hpos := hlen cur
      have hrest := @ih (cur + len cur) (put acc cur) (by omega)
      rw [scan_cons hcur (hbody cur acc) hrest, starts, finish, if_pos hcur, if_pos hcur]
      rfl
    · rw [scan_done (by omega), starts, finish, if_neg hcur, if_neg hcur]
      rfl

theorem mem_starts_lt {rounds cur : ℕ} : ∀ p ∈ starts len stop rounds cur, p < stop := by
  induction rounds generalizing cur with
  | zero => simp [starts]
  | succ rounds ih =>
    rw [starts]
    split
    · rename_i hlt
      intro p hp
      cases List.mem_cons.mp hp with
      | inl heq => rw [heq]; exact hlt
      | inr htail => exact ih p htail
    · simp

/-- What each round adds is no more than it moves on. -/
theorem foldl_starts_le {g : ℕ → ℕ} (hg : ∀ p, g p ≤ len p) {rounds cur acc : ℕ} :
    (starts len stop rounds cur).foldl (fun n p => n + g p) acc + cur ≤
      acc + finish len stop rounds cur := by
  induction rounds generalizing cur acc with
  | zero => simp [starts, finish]
  | succ rounds ih =>
    have hhead := hg cur
    rw [starts, finish]
    split
    · have hrest := @ih (cur + len cur) (acc + g cur)
      rw [List.foldl_cons]
      omega
    · simp

theorem length_foldl_append {β : Type} (f : ℕ → List β) (ps : List ℕ) (xs : List β) :
    (ps.foldl (fun ys p => ys ++ f p) xs).length =
      ps.foldl (fun n p => n + (f p).length) xs.length := by
  induction ps generalizing xs with
  | nil => rfl
  | cons p ps ih => rw [List.foldl_cons, List.foldl_cons, ih, List.length_append]

end Positions

/-! ## Texts laid out as pieces -/

section Pieces

variable {β κ : Type} {src : ℕ → β} {text : κ → List β} {put : σ → κ → σ} {reads : ℕ → κ → List ℕ}

/-- A text from a position on, taken apart at its first cell. -/
theorem slice_cons_iff {x : β} {xs : List β} {cur : ℕ} :
    slice src cur (x :: xs).length = x :: xs ↔ src cur = x ∧ slice src (cur + 1) xs.length = xs := by
  rw [List.length_cons, slice_cons, List.cons.injEq]

/-- The reads of a scan over the pieces. -/
def readsOf (text : κ → List β) (reads : ℕ → κ → List ℕ) : ℕ → List κ → List ℕ
  | _, [] => []
  | cur, k :: ks => reads cur k ++ readsOf text reads (cur + (text k).length) ks

/-- A scan over a text takes one round for each piece of it. -/
theorem scan_text (hne : ∀ k, text k ≠ [])
    (hbody : ∀ cur acc k, slice src cur (text k).length = text k →
      cur + (text k).length ≤ stop →
      body cur acc = ⟨(cur + (text k).length, put acc k), reads cur k⟩)
    (ks : List κ) (cur rounds : ℕ) (acc : σ)
    (hsrc : slice src cur (ks.flatMap text).length = ks.flatMap text)
    (hstop : cur + (ks.flatMap text).length ≤ stop) :
    scan stop body (ks.length + rounds) cur acc =
      (scan stop body rounds (cur + (ks.flatMap text).length) (ks.foldl put acc)).map
        (Reading.after (readsOf text reads cur ks)) := by
  induction ks generalizing cur acc with
  | nil =>
    have hid : Reading.after (α := ℕ × σ) [] = id := rfl
    simp [readsOf, hid]
  | cons k ks ih =>
    have hpos : 0 < (text k).length := List.length_pos_of_ne_nil (hne k)
    rw [List.flatMap_cons, List.length_append] at hstop
    rw [List.flatMap_cons, List.length_append, slice_add] at hsrc
    obtain ⟨hhead, htail⟩ := List.append_inj hsrc (by simp)
    have hk := hbody cur acc k hhead (by omega)
    rw [List.length_cons, Nat.add_right_comm, scan_step (by omega), hk, ih _ _ htail (by omega),
      Option.map_map, List.flatMap_cons, List.length_append, List.foldl_cons, Nat.add_assoc]
    congr 1
    funext r
    exact Reading.after_after _ _ r

theorem length_le_flatMap (hne : ∀ k, text k ≠ []) (ks : List κ) :
    ks.length ≤ (ks.flatMap text).length := by
  induction ks with
  | nil => simp
  | cons k ks ih =>
    have hpos : 0 < (text k).length := List.length_pos_of_ne_nil (hne k)
    rw [List.flatMap_cons, List.length_append, List.length_cons]
    omega

/-- A scan over the whole text, given a round for each cell of it. -/
theorem scan_all (hne : ∀ k, text k ≠ [])
    (hbody : ∀ cur acc k, slice src cur (text k).length = text k →
      cur + (text k).length ≤ (stop : ℕ) →
      body cur acc = ⟨(cur + (text k).length, put acc k), reads cur k⟩)
    {ks : List κ} {acc : σ} (hstop : (ks.flatMap text).length = stop)
    (hsrc : slice src 0 stop = ks.flatMap text) :
    scan stop body stop 0 acc = some ⟨(stop, ks.foldl put acc), readsOf text reads 0 ks⟩ := by
  subst hstop
  have hrounds := length_le_flatMap hne ks
  have hscan := scan_text hne hbody ks 0 0 acc hsrc (by omega)
  rw [Nat.zero_add, scan_done le_rfl, Option.map_some] at hscan
  have hmore := scan_more hscan ((ks.flatMap text).length - ks.length)
  rw [show ks.length + 0 + ((ks.flatMap text).length - ks.length) =
    (ks.flatMap text).length by omega] at hmore
  rw [hmore]
  simp [Reading.after]

end Pieces

end AudioFlinger.Foundation.Scan
