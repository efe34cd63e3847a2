import AudioFlinger.Driver.Layout

/-!
# Allocating and freeing buffers

Each operation is described by what it leaves: the list of buffers, the headers, the two
trees and the pages.
-/

namespace AudioFlinger.Driver
open Foundation Foundation.SearchTree Foundation.Tile Buffers

variable {c : Platform} {p p' : Buffers c} {as bs : List ℕ} {b new size S : ℕ}
  {rb : Rebalancing ℕ}

/-! ## The two trees -/

/-- The trees hold the free and the allocated buffers. -/
structure Indexed (p : Buffers c) : Prop where
  free : (toList p.free_buffers).Perm (p.buffers.filter fun b => p.free b)
  allocated : (toList p.allocated_buffers).Perm (p.buffers.filter fun b => !p.free b)

theorem insert_free_eq (hnew : p.free new = true)
    (hfree : ∀ b ∈ toList p.free_buffers, p.free b = true) :
    ∃ t, p.binder_insert_free_buffer rb new = some { p with free_buffers := t } ∧
      (toList t).Perm (new :: toList p.free_buffers) := by
  have hturn : ∀ b ∈ toList p.free_buffers,
      (p.freeTurn (p.binder_buffer_size new) b).isSome := by
    intro b hb
    have hfb : (p.header b).free = true := hfree b hb
    rw [freeTurn, if_pos hfb]
    split <;> rfl
  obtain ⟨t, ht, hperm⟩ := link_perm new hturn
  refine ⟨rb.insertColor new t, ?_, ?_⟩
  · have hnew' : (p.header new).free = true := hnew
    rw [binder_insert_free_buffer, if_pos hnew', ht]
    rfl
  · rw [rb.insertColor_toList]
    exact hperm

theorem insert_allocated_eq (hnew : p.free new = false)
    (hallocated : ∀ b ∈ toList p.allocated_buffers, p.free b = false ∧ b ≠ new) :
    ∃ t, p.binder_insert_allocated_buffer rb new = some { p with allocated_buffers := t } ∧
      (toList t).Perm (new :: toList p.allocated_buffers) := by
  have hturn : ∀ b ∈ toList p.allocated_buffers, (p.allocatedTurn new b).isSome := by
    intro b hb
    obtain ⟨hfb, hne⟩ := hallocated b hb
    have hfb' : ¬ (p.header b).free = true := by
      rw [← Buffers.free, hfb]
      decide
    rw [allocatedTurn, if_neg hfb']
    rcases lt_or_gt_of_ne hne with hlt | hlt
    · rw [if_neg hlt.not_gt, if_pos hlt]
      rfl
    · rw [if_pos hlt]
      rfl
  obtain ⟨t, ht, hperm⟩ := link_perm new hturn
  refine ⟨rb.insertColor new t, ?_, ?_⟩
  · have hnew' : ¬ (p.header new).free = true := by
      rw [← Buffers.free, hnew]
      decide
    rw [binder_insert_allocated_buffer, if_neg hnew', ht]
    rfl
  · rw [rb.insertColor_toList]
    exact hperm

/-- The search finds a free buffer that is large enough, or none. -/
theorem bestFit_eq {t : BinaryTree ℕ} {best : Option ℕ} (hfree : ∀ b ∈ toList t, p.free b = true) :
    ∃ r, p.bestFit size t best = some r ∧ ∀ b ∈ r.1,
      (b ∈ toList t ∧ if r.2 then p.binder_buffer_size b = size
        else size < p.binder_buffer_size b) ∨ (best = some b ∧ r.2 = false) := by
  induction t generalizing best with
  | nil => exact ⟨(best, false), rfl, fun b hb => Or.inr ⟨hb, rfl⟩⟩
  | node x l r ihl ihr =>
    have hx : (p.header x).free = true := hfree x (by simp [toList])
    rw [bestFit, if_pos hx]
    by_cases hlt : size < p.binder_buffer_size x
    · rw [if_pos hlt]
      obtain ⟨res, hres, hspec⟩ := @ihl (some x) fun b hb => hfree b (by simp [toList, hb])
      refine ⟨res, hres, fun b hb => Or.inl ?_⟩
      rcases hspec b hb with ⟨hmem, hsize⟩ | ⟨hbest, hexact⟩
      · exact ⟨by simp [toList, hmem], hsize⟩
      · obtain rfl := Option.some.inj hbest
        rw [hexact]
        exact ⟨by simp [toList], hlt⟩
    · rw [if_neg hlt]
      by_cases hgt : p.binder_buffer_size x < size
      · rw [if_pos hgt]
        obtain ⟨res, hres, hspec⟩ := @ihr best fun b hb => hfree b (by simp [toList, hb])
        refine ⟨res, hres, fun b hb => ?_⟩
        rcases hspec b hb with ⟨hmem, hsize⟩ | hbest
        · exact Or.inl ⟨by simp [toList, hmem], hsize⟩
        · exact Or.inr hbest
      · rw [if_neg hgt]
        refine ⟨(some x, true), rfl, ?_⟩
        rintro b ⟨rfl⟩
        exact Or.inl ⟨by simp [toList], by simp only [if_true]; omega⟩

/-! ## Taking a buffer -/

@[simp] theorem setHeader_free_self (f : Buffer → Buffer) :
    (p.setHeader b f).free b = (f (p.header b)).free := by
  simp [setHeader, Buffers.free]

theorem setHeader_header_of_ne (f : Buffer → Buffer) {x : ℕ} (hne : x ≠ b) :
    (p.setHeader b f).header x = p.header x := Function.update_of_ne hne ..

theorem setHeader_free_of_ne (f : Buffer → Buffer) {x : ℕ} (hne : x ≠ b) :
    (p.setHeader b f).free x = p.free x := by
  rw [Buffers.free, setHeader_header_of_ne f hne, Buffers.free]

/-- Between a buffer and the next one lies no header. -/
theorem At.new_not_mem (h : At p as b bs S) (new : ℕ) (hlo : b < new) (hhi : new < b + S) :
    new ∉ as ∧ new ∉ bs := by
  constructor
  · intro hmem
    have := h.before new hmem
    omega
  · intro hmem
    have := h.behind new hmem
    omega

/-- The state after a buffer was taken: its header is written, and it is split when the rest has
room for a header. -/
structure Took (p p' : Buffers c) (as : List ℕ) (b : ℕ) (bs : List ℕ) (size : ℕ) (split : Bool)
    (data_size offsets_size : ℕ) (is_async : Bool) : Prop where
  area : p'.area = p.area
  vma : p'.vma = p.vma
  pages : p'.pages = p.pages
  buffers : p'.buffers = as ++ b :: (if split then [c.data b + size] else []) ++ bs
  taken : p'.header b = ⟨false, is_async, data_size, offsets_size⟩
  rest : split = true → p'.free (c.data b + size) = true
  kept : ∀ x ∈ as ++ bs, p'.header x = p.header x
  indexed : Indexed p'
  async : p'.free_async_space =
    if is_async then p.free_async_space - (size + c.sizeofBuffer) else p.free_async_space

theorem filter_split {f g : ℕ → Bool} (hfg : ∀ x ∈ as ++ bs, f x = g x) (ms : List ℕ) :
    (as ++ (ms ++ bs)).filter f = as.filter g ++ (ms.filter f ++ bs.filter g) := by
  rw [List.filter_append, List.filter_append,
    List.filter_congr fun x hx => hfg x (List.mem_append_left _ hx),
    @List.filter_congr _ f g bs fun x hx => hfg x (List.mem_append_right _ hx)]

/-- The buffers other than `b` are still in the tree they were in. -/
theorem At.filter_free (h : At p as b bs S) (rb : Rebalancing ℕ) (hi : Indexed p) (hfree : p.free b = true) :
    (toList (rb.erase b p.free_buffers)).Perm
        (as.filter (fun x => p.free x) ++ bs.filter (fun x => p.free x)) ∧
      (toList p.allocated_buffers).Perm
        (as.filter (fun x => !p.free x) ++ bs.filter (fun x => !p.free x)) := by
  have hfrees := hi.free
  have hallocs := hi.allocated
  rw [h.buffers, ← List.singleton_append, filter_split (fun _ _ => rfl)] at hfrees hallocs
  simp only [List.filter_singleton, hfree] at hfrees hallocs
  have hmem : b ∉ as.filter (fun x => p.free x) := fun hmem =>
    h.not_mem_left (List.mem_of_mem_filter hmem)
  have herase := hfrees.erase b
  rw [cond_true, List.singleton_append, List.erase_append_right _ hmem,
    List.erase_cons_head] at herase
  rw [rb.erase_toList]
  exact ⟨herase, hallocs⟩

section Record

variable {r : Buffers c} {data_size offsets_size : ℕ} {is_async : Bool}

theorem recordSizes_header : (r.recordSizes b size data_size offsets_size is_async).header =
    Function.update r.header b ⟨r.free b, is_async, data_size, offsets_size⟩ := rfl

theorem recordSizes_free :
    (r.recordSizes b size data_size offsets_size is_async).free = r.free := by
  funext x
  rw [Buffers.free, recordSizes_header]
  by_cases hx : x = b
  · rw [hx, Function.update_self]
  · rw [Function.update_of_ne hx, Buffers.free]

theorem recordSizes_took {split : Bool} (harea : r.area = p.area) (hvma : r.vma = p.vma)
    (hpages : r.pages = p.pages)
    (hbuffers : r.buffers = as ++ b :: (if split then [c.data b + size] else []) ++ bs)
    (htaken : r.free b = false) (hrest : split = true → r.free (c.data b + size) = true)
    (hkept : ∀ x ∈ as ++ bs, x ≠ b ∧ r.header x = p.header x) (hindexed : Indexed r)
    (hspace : r.free_async_space = p.free_async_space) :
    Took p (r.recordSizes b size data_size offsets_size is_async) as b bs size split data_size
      offsets_size is_async := by
  refine ⟨harea, hvma, hpages, hbuffers, ?_, fun hsplit => ?_, fun x hx => ?_, ⟨?_, ?_⟩, ?_⟩
  · rw [recordSizes_header, Function.update_self, htaken]
  · rw [recordSizes_free]
    exact hrest hsplit
  · rw [recordSizes_header, Function.update_of_ne (hkept x hx).1]
    exact (hkept x hx).2
  · rw [recordSizes_free]
    exact hindexed.free
  · rw [recordSizes_free]
    exact hindexed.allocated
  · rw [← hspace]
    rfl

end Record

theorem takeBuffer_took (rb : Rebalancing ℕ) (h : At p as b bs S) (hi : Indexed p) (hfree : p.free b = true)
    {buffer_size : ℕ} (hsplit : buffer_size ≠ size → c.sizeofBuffer + size < S)
    (data_size offsets_size : ℕ) (is_async : Bool) :
    ∃ p', p.takeBuffer rb b size buffer_size data_size offsets_size is_async = some p' ∧
      Took p p' as b bs size (decide (buffer_size ≠ size)) data_size offsets_size is_async := by
  obtain ⟨hfrees, hallocs⟩ := h.filter_free rb hi hfree
  have hpos := sizeofBuffer_pos c
  have hne : ∀ x ∈ as ++ bs, x ≠ b := by
    rintro x hx rfl
    exact (List.mem_append.mp hx).elim h.not_mem_left h.not_mem_right
  -- the header is marked, and the buffer is linked with the allocated ones
  set q := { p with free_buffers := rb.erase b p.free_buffers }.setHeader b
    fun h => { h with free := false } with hq
  have hqfree : ∀ x, x ≠ b → q.free x = p.free x := fun x hx =>
    setHeader_free_of_ne _ hx
  have hqheader : ∀ x, x ≠ b → q.header x = p.header x := fun x hx =>
    setHeader_header_of_ne _ hx
  have hqb : q.free b = false := setHeader_free_self _
  have hallocated : ∀ x ∈ toList q.allocated_buffers, q.free x = false ∧ x ≠ b := by
    intro x hx
    have hmem := hallocs.mem_iff.mp hx
    rw [← List.filter_append, List.mem_filter] at hmem
    have hxb := hne x hmem.1
    rw [hqfree x hxb]
    exact ⟨by simpa using hmem.2, hxb⟩
  obtain ⟨t, ht, hperm⟩ := @insert_allocated_eq c q b rb hqb hallocated
  have halloc : (toList t).Perm
      (as.filter (fun x => !p.free x) ++ b :: bs.filter (fun x => !p.free x)) :=
    (hperm.trans (hallocs.cons b)).trans List.perm_middle.symm
  rw [takeBuffer]
  dsimp only
  rw [← hq, ht]
  by_cases hbs : buffer_size ≠ size
  · have hroom := hsplit hbs
    set new := c.data b + size with hnew
    have hdata : new = b + c.sizeofBuffer + size := rfl
    have hnot := h.new_not_mem new (by lia) (by lia)
    have hnewb : new ≠ b := by lia
    have hnew' : ∀ x ∈ as ++ bs, x ≠ new := by
      rintro x hx rfl
      exact (List.mem_append.mp hx).elim hnot.1 hnot.2
    set r := { q with allocated_buffers := t, buffers := listAdd new b q.buffers }.setHeader new
      fun h => { h with free := true } with hr
    have hrfree : ∀ x ∈ as ++ bs, r.free x = p.free x := fun x hx =>
      (setHeader_free_of_ne _ (hnew' x hx)).trans (hqfree x (hne x hx))
    have hall : ∀ x ∈ toList r.free_buffers, r.free x = true := by
      intro x hx
      have hmem := hfrees.mem_iff.mp hx
      rw [← List.filter_append, List.mem_filter] at hmem
      rw [hrfree x hmem.1]
      exact hmem.2
    obtain ⟨t', ht', hperm'⟩ := @insert_free_eq c r new rb (setHeader_free_self _) hall
    refine ⟨{ r with free_buffers := t' }.recordSizes b size data_size offsets_size is_async, ?_,
      ?_⟩
    · simp only [Option.bind_eq_bind, Option.bind_some, if_pos hbs, splitBuffer]
      rw [← hnew, ← hr, ht']
      rfl
    · have hkeep : ∀ x ∈ as ++ bs, x ≠ b ∧ r.header x = p.header x := fun x hx =>
        ⟨hne x hx, (setHeader_header_of_ne _ (hnew' x hx)).trans (hqheader x (hne x hx))⟩
      have hrb : r.free b = false :=
        (setHeader_free_of_ne _ hnewb.symm).trans hqb
      have hrnew : r.free new = true := setHeader_free_self _
      have hlist : r.buffers = as ++ b :: [new] ++ bs := by
        rw [List.append_assoc]
        exact h.listAdd_eq new
      refine recordSizes_took rfl rfl rfl ?_ hrb
        (fun _ => hrnew) hkeep ⟨?_, ?_⟩ rfl
      · rw [decide_eq_true hbs]
        exact hlist
      · change (toList t').Perm (r.buffers.filter fun x => r.free x)
        rw [hlist, List.append_assoc, filter_split hrfree]
        simp only [List.filter_cons, List.filter_nil, hrb, hrnew]
        exact (hperm'.trans (hfrees.cons new)).trans List.perm_middle.symm
      · change (toList t).Perm (r.buffers.filter fun x => !r.free x)
        rw [hlist, List.append_assoc, filter_split fun x hx => congrArg not (hrfree x hx)]
        simp only [List.filter_cons, List.filter_nil, hrb, hrnew]
        exact halloc
  · refine ⟨{ q with allocated_buffers := t }.recordSizes b size data_size offsets_size is_async, ?_,
      ?_⟩
    · simp only [Option.bind_eq_bind, Option.bind_some, if_neg hbs]
    · have hkeep : ∀ x ∈ as ++ bs, x ≠ b ∧ q.header x = p.header x := fun x hx =>
        ⟨hne x hx, hqheader x (hne x hx)⟩
      have hlist : q.buffers = as ++ b :: bs := h.buffers
      refine recordSizes_took rfl rfl rfl ?_ hqb (fun hsplit => absurd (of_decide_eq_true hsplit) hbs) hkeep
        ⟨?_, ?_⟩ rfl
      · rw [decide_eq_false hbs]
        simpa using hlist
      · change (toList q.free_buffers).Perm (q.buffers.filter fun x => q.free x)
        rw [hlist, ← List.singleton_append,
          filter_split fun x hx => hqfree x (hne x hx)]
        simp only [List.filter_singleton, hqb]
        exact hfrees
      · change (toList t).Perm (q.buffers.filter fun x => !q.free x)
        rw [hlist, ← List.singleton_append,
          filter_split fun x hx => congrArg not (hqfree x (hne x hx))]
        simp only [List.filter_singleton, hqb]
        exact halloc

end AudioFlinger.Driver
