import Mathlib.Algebra.Order.Ring.Nat
import Mathlib.Tactic.Common

/-!
# The pages of a process's buffer area

`binder_update_page_range` allocates or frees the pages of a range of addresses, which
begin at the area of the process. A failed allocation frees what it has allocated. A page
that is allocated twice, or freed while absent, is a bug of the caller: the result is
`none`.
-/

namespace AudioFlinger.Driver

/-- The kernel's word and page sizes. Addresses of the area fit a word, and are numbers here. -/
structure Platform where
  wide : Bool
  PAGE_SHIFT : ℕ
  shift_le : 12 ≤ PAGE_SHIFT

namespace Platform

variable (c : Platform)

def wordBits : ℕ := if c.wide then 64 else 32

def sizeofPointer : ℕ := if c.wide then 8 else 4

/-- `sizeof(struct binder_buffer)` -/
def sizeofBuffer : ℕ := if c.wide then 80 else 40

def PAGE_SIZE : ℕ := 2 ^ c.PAGE_SHIFT

/-- `addr & PAGE_MASK` -/
def pageMask (addr : ℕ) : ℕ := addr / c.PAGE_SIZE * c.PAGE_SIZE

/-- `PAGE_ALIGN(addr)` -/
def pageAlign (addr : ℕ) : ℕ := (addr + c.PAGE_SIZE - 1) / c.PAGE_SIZE * c.PAGE_SIZE

theorem page_pos : 0 < c.PAGE_SIZE := Nat.two_pow_pos _

theorem page_ge : 4096 ≤ c.PAGE_SIZE :=
  Nat.pow_le_pow_right Nat.two_pos c.shift_le

end Platform

/-- Where the pages of a process begin and how many there are: `proc->buffer` and
`proc->buffer_size / PAGE_SIZE`. The size is at most `SZ_4M`. -/
structure Area (c : Platform) where
  first : ℕ
  count : ℕ
  first_pos : 0 < first
  count_pos : 0 < count
  size_le : count * c.PAGE_SIZE ≤ 2 ^ 22

namespace Area

variable {c : Platform} (area : Area c)

/-- `proc->buffer` -/
def buffer : ℕ := area.first * c.PAGE_SIZE

/-- `proc->buffer_size` -/
def buffer_size : ℕ := area.count * c.PAGE_SIZE

/-- The end of the area. -/
def stop : ℕ := area.buffer + area.buffer_size

/-- The index of a page in `proc->pages`. -/
def index (page_addr : ℕ) : ℕ := (page_addr - area.buffer) / c.PAGE_SIZE

/-- The address of a page. -/
def page (i : ℕ) : ℕ := area.buffer + i * c.PAGE_SIZE

end Area

/-- How the allocation of a page fails: no page, or the page cannot be mapped in the kernel, or
in user space. -/
inductive PageFailure where
  | allocPage
  | mapVmArea
  | vmInsertPage

/-- What the kernel answers during one call. -/
structure Kernel where
  /-- `get_task_mm` finds the address space of the process. -/
  mm : Bool
  fails : ℕ → Option PageFailure

section Loops

variable {c : Platform} (area : Area c)

/-- The loop at `free_range`, down from `page_addr`. -/
def freeRange (start : ℕ) : ℕ → (ℕ → Bool) → ℕ → Option (ℕ → Bool)
  | 0, pages, _ => some pages
  | fuel + 1, pages, page_addr =>
    if start ≤ page_addr then
      let i := area.index page_addr
      if i < area.count ∧ pages i = true then
        freeRange start fuel (Function.update pages i false) (page_addr - c.PAGE_SIZE)
      else none
    else some pages

/-- The loop that allocates, up from `page_addr`; when a page fails, the pages before it are freed. -/
def allocRange (kernel : Kernel) (start stop : ℕ) :
    ℕ → (ℕ → Bool) → ℕ → Option (Bool × (ℕ → Bool))
  | 0, pages, _ => some (true, pages)
  | fuel + 1, pages, page_addr =>
    if page_addr < stop then
      let i := area.index page_addr
      if i < area.count ∧ pages i = false then
        match kernel.fails page_addr with
        | none =>
          allocRange kernel start stop fuel (Function.update pages i true)
            (page_addr + c.PAGE_SIZE)
        | some .allocPage =>
          (freeRange area start area.count pages (page_addr - c.PAGE_SIZE)).map (false, ·)
        | some _ =>
          -- the page was there; it is freed first
          (freeRange area start area.count
            (Function.update (Function.update pages i true) i false)
            (page_addr - c.PAGE_SIZE)).map (false, ·)
      else none
    else some (true, pages)

/-- The result says whether the pages of the range are now allocated; it is not looked at after
freeing. -/
def binder_update_page_range (vma : Bool) (kernel : Kernel) (pages : ℕ → Bool) (allocate : Bool)
    (start stop : ℕ) : Option (Bool × (ℕ → Bool)) :=
  if stop ≤ start then some (true, pages)
  else if allocate then
    if kernel.mm && vma then allocRange area kernel start stop area.count pages start
    else some (false, pages)
  else (freeRange area start area.count pages (stop - c.PAGE_SIZE)).map (false, ·)

end Loops

/-! ## What a call does -/

/-- Pages `a` to `b` set to `v`. -/
def setRange (pages : ℕ → Bool) (a b : ℕ) (v : Bool) : ℕ → Bool :=
  fun i => if a ≤ i ∧ i < b then v else pages i

variable {c : Platform} {area : Area c} {pages : ℕ → Bool} {a b j fuel : ℕ} {v w : Bool}

@[simp] theorem setRange_self : setRange pages a a v = pages := by
  funext i
  exact if_neg (by omega)

theorem setRange_succ (h : a ≤ b) :
    Function.update (setRange pages a b v) b v = setRange pages a (b + 1) v := by
  funext i
  by_cases hi : i = b
  · subst hi
    simp [setRange, h]
  · rw [Function.update_of_ne hi, setRange, setRange]
    exact if_congr (by lia) rfl rfl

theorem setRange_pred (h : a ≤ b) :
    setRange (Function.update pages b v) a b v = setRange pages a (b + 1) v := by
  funext i
  by_cases hi : i = b
  · subst hi
    simp [setRange, h]
  · rw [setRange, setRange, Function.update_of_ne hi]
    exact if_congr (by omega) rfl rfl

theorem setRange_undo (h : ∀ i, a ≤ i → i < b → pages i = v) :
    setRange (setRange pages a b w) a b v = pages := by
  funext i
  rw [setRange]
  split
  · next hi => exact (h i hi.1 hi.2).symm
  · next hi => exact if_neg hi

theorem index_page : area.index (area.page j) = j := by
  rw [Area.index, Area.page, Nat.add_sub_cancel_left, Nat.mul_div_cancel _ c.page_pos]

theorem page_succ : area.page j + c.PAGE_SIZE = area.page (j + 1) := by
  rw [Area.page, Area.page, Nat.succ_mul, Nat.add_assoc]

theorem stop_eq_page : area.stop = area.page area.count := rfl

theorem index_le_iff {x i : ℕ} (h : area.buffer ≤ x) :
    area.index x ≤ i ↔ x < area.page i + c.PAGE_SIZE := by
  rw [Area.index, ← Nat.lt_succ_iff, Nat.div_lt_iff_lt_mul c.page_pos, Nat.succ_mul, Area.page]
  omega

theorem le_index_iff {x i : ℕ} (h : area.buffer ≤ x) : i ≤ area.index x ↔ area.page i ≤ x := by
  rw [Area.index, Nat.le_div_iff_mul_le c.page_pos, Area.page]
  omega

theorem index_mono {x y : ℕ} (h : x ≤ y) : area.index x ≤ area.index y :=
  Nat.div_le_div_right (Nat.sub_le_sub_right h _)

/-- Less than a page further lies the same page or the next one. -/
theorem index_add_le {x y : ℕ} (hx : area.buffer ≤ x) (h : y ≤ x + c.PAGE_SIZE) :
    area.index y ≤ area.index x + 1 := by
  by_cases hy : area.buffer ≤ y
  · have hpage := (@index_le_iff c area x _ hx).mp le_rfl
    rw [index_le_iff hy, ← page_succ]
    omega
  · rw [Area.index, Nat.sub_eq_zero_of_le (by omega), Nat.zero_div]
    exact Nat.zero_le _

theorem pageMask_eq {x : ℕ} (h : area.buffer ≤ x) : c.pageMask x = area.page (area.index x) := by
  obtain ⟨k, rfl⟩ := Nat.exists_eq_add_of_le h
  rw [Platform.pageMask, Area.page, Area.index, Nat.add_sub_cancel_left, Area.buffer,
    Nat.add_comm, Nat.add_mul_div_right _ _ c.page_pos, Nat.add_mul, Nat.add_comm]

theorem pageAlign_eq {x : ℕ} (h : area.buffer < x) :
    c.pageAlign x = area.page (area.index (x - 1) + 1) := by
  have hx : x + c.PAGE_SIZE - 1 = x - 1 + c.PAGE_SIZE := by omega
  rw [Platform.pageAlign, hx, Nat.add_div_right _ c.page_pos, Nat.succ_mul]
  have hmask := @pageMask_eq c area (x - 1) (by omega)
  rw [Platform.pageMask] at hmask
  rw [hmask, page_succ]

theorem page_le : area.page a ≤ area.page b ↔ a ≤ b := by
  rw [Area.page, Area.page, Nat.add_le_add_iff_left]
  exact Nat.mul_le_mul_right_iff c.page_pos

theorem page_lt : area.page a < area.page b ↔ a < b := by
  rw [← not_le, ← not_le, page_le]

/-- No page starts below the first. -/
theorem page_sub_lt (area : Area c) (j : ℕ) : area.page j - c.PAGE_SIZE < area.page j := by
  have hpos := c.page_pos
  have hfirst : 0 < area.buffer := Nat.mul_pos area.first_pos hpos
  rw [Area.page]
  omega

theorem freeRange_eq (hj : j ≤ area.count) (ha : a ≤ j) (hfuel : j - a ≤ fuel)
    (hpresent : ∀ i, a ≤ i → i < j → pages i = true) :
    freeRange area (area.page a) fuel pages (area.page j - c.PAGE_SIZE) =
      some (setRange pages a j false) := by
  induction fuel generalizing j pages with
  | zero =>
    obtain rfl : a = j := by omega
    rw [setRange_self, freeRange]
  | succ fuel ih =>
    rcases ha.eq_or_lt with rfl | hlt
    · rw [setRange_self, freeRange, if_neg]
      exact Nat.not_le.mpr (page_sub_lt area a)
    · obtain ⟨j, rfl⟩ : ∃ k, j = k + 1 := ⟨j - 1, by omega⟩
      have haj : a ≤ j := by omega
      rw [← page_succ, Nat.add_sub_cancel, freeRange, if_pos (page_le.mpr haj)]
      dsimp only
      rw [index_page, if_pos ⟨hj, hpresent j haj j.lt_succ_self⟩,
        ih (by omega) haj (by omega), setRange_pred haj]
      intro i hai hij
      rw [Function.update_of_ne (by omega)]
      exact hpresent i hai (by omega)

/-- The pages from `a` to `j` are allocated; the rest of the range is absent. -/
theorem allocRange_eq {kernel : Kernel} (hb : b ≤ area.count) (ha : a ≤ j) (hj : j ≤ b)
    (hfuel : b - j ≤ fuel) (habsent : ∀ i, a ≤ i → i < b → pages i = false) :
    allocRange area kernel (area.page a) (area.page b) fuel (setRange pages a j true)
        (area.page j) = some (true, setRange pages a b true) ∨
      allocRange area kernel (area.page a) (area.page b) fuel (setRange pages a j true)
        (area.page j) = some (false, pages) := by
  induction fuel generalizing j with
  | zero =>
    obtain rfl : j = b := by omega
    exact Or.inl rfl
  | succ fuel ih =>
    rcases hj.eq_or_lt with rfl | hlt
    · left
      rw [allocRange, if_neg (lt_irrefl _)]
    · have hnot : setRange pages a j true j = false := by
        rw [setRange, if_neg (by omega)]
        exact habsent j ha hlt
      have hset : ∀ i, a ≤ i → i < j → setRange pages a j true i = true :=
        fun i hi hij => if_pos ⟨hi, hij⟩
      have hundo : freeRange area (area.page a) area.count (setRange pages a j true)
          (area.page j - c.PAGE_SIZE) = some pages := by
        rw [freeRange_eq (hj.trans hb) ha (by omega) hset,
          setRange_undo fun i hi hij => habsent i hi (hij.trans hlt)]
      have hback : Function.update (Function.update (setRange pages a j true) j true) j false =
          setRange pages a j true := by
        rw [Function.update_idem, ← hnot, Function.update_eq_self]
      rw [allocRange, if_pos (page_lt.mpr hlt)]
      dsimp only
      rw [index_page, if_pos ⟨hlt.trans_le hb, hnot⟩, hback, hundo, setRange_succ ha, page_succ]
      cases kernel.fails (area.page j) with
      | none => exact ih (ha.trans j.le_succ) hlt (by omega)
      | some failure => cases failure <;> exact Or.inr rfl

/-- Pages that are absent are allocated, or none of them is. -/
theorem update_alloc {vma : Bool} {kernel : Kernel} (hb : b ≤ area.count)
    (habsent : ∀ i, a ≤ i → i < b → pages i = false) :
    binder_update_page_range area vma kernel pages true (area.page a) (area.page b) =
        some (true, setRange pages a b true) ∨
      binder_update_page_range area vma kernel pages true (area.page a) (area.page b) =
        some (false, pages) := by
  rw [binder_update_page_range]
  by_cases hle : area.page b ≤ area.page a
  · left
    rw [if_pos hle]
    have hba := page_le.mp hle
    congr 2
    funext i
    exact (if_neg (by omega)).symm
  · rw [if_neg hle, if_pos rfl]
    have hab : a ≤ b := (page_lt.mp (not_le.mp hle)).le
    by_cases hmm : (kernel.mm && vma) = true
    · rw [if_pos hmm]
      have hfuel : b - a ≤ area.count := (Nat.sub_le b a).trans hb
      have hrun := @allocRange_eq c area pages a b a area.count kernel hb le_rfl hab hfuel habsent
      rwa [setRange_self] at hrun
    · rw [if_neg hmm]
      exact Or.inr rfl

/-- Pages that are present are freed. -/
theorem update_free {vma : Bool} {kernel : Kernel} (hb : b ≤ area.count)
    (hpresent : ∀ i, a ≤ i → i < b → pages i = true) :
    ∃ ok, binder_update_page_range area vma kernel pages false (area.page a) (area.page b) =
      some (ok, setRange pages a b false) := by
  rw [binder_update_page_range]
  by_cases hle : area.page b ≤ area.page a
  · have hba := page_le.mp hle
    refine ⟨true, ?_⟩
    rw [if_pos hle]
    congr 2
    funext i
    exact (if_neg (by omega)).symm
  · rw [if_neg hle, if_neg (by decide),
      freeRange_eq hb (page_lt.mp (not_le.mp hle)).le (by omega) hpresent]
    exact ⟨false, rfl⟩

end AudioFlinger.Driver
