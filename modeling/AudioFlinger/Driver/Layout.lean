import AudioFlinger.Driver.Mapping

/-!
# The buffers as tiles of the area

The list of a process's buffers and their headers determine a list of tiles. The lemmas say
what the list operations and the neighbours are at a given buffer.
-/

namespace AudioFlinger.Driver
open Foundation Foundation.SearchTree Foundation.Tile Buffers

variable {c : Platform} {p p' : Buffers c} {as bs : List ℕ} {b x stop S : ℕ} {f g : ℕ → Bool}

/-- The tiles of buffers that lie before `stop`. -/
def tilesFrom (stop : ℕ) (free : ℕ → Bool) : List ℕ → List Tile
  | [] => []
  | b :: bs => ⟨b, bs.head?.getD stop - b, free b⟩ :: tilesFrom stop free bs

def Buffers.free (p : Buffers c) (b : ℕ) : Bool := (p.header b).free

def Buffers.tiles (p : Buffers c) : List Tile := tilesFrom p.area.stop p.free p.buffers

theorem tilesFrom_append : tilesFrom stop f (as ++ bs) =
    tilesFrom (bs.head?.getD stop) f as ++ tilesFrom stop f bs := by
  induction as with
  | nil => rfl
  | cons a as ih =>
    rw [List.cons_append, tilesFrom, tilesFrom, ih, List.cons_append]
    cases as <;> rfl

theorem tilesFrom_congr (h : ∀ b ∈ bs, f b = g b) : tilesFrom stop f bs = tilesFrom stop g bs := by
  induction bs with
  | nil => rfl
  | cons b bs ih =>
    rw [tilesFrom, tilesFrom, h b List.mem_cons_self,
      ih fun x hx => h x (List.mem_cons_of_mem _ hx)]

theorem map_start_tilesFrom (stop : ℕ) (f : ℕ → Bool) (bs : List ℕ) :
    (tilesFrom stop f bs).map Tile.start = bs := by
  induction bs with
  | nil => rfl
  | cons b bs ih => rw [tilesFrom, List.map_cons, ih]

theorem mem_tilesFrom {t : Tile} (ht : t ∈ tilesFrom stop f bs) :
    t.start ∈ bs ∧ t.free = f t.start := by
  induction bs with
  | nil => cases ht
  | cons b bs ih =>
    rcases List.mem_cons.mp ht with rfl | ht
    · exact ⟨List.mem_cons_self, rfl⟩
    · exact ⟨List.mem_cons_of_mem _ (ih ht).1, (ih ht).2⟩

theorem head?_tilesFrom : (tilesFrom stop f bs).head?.map Tile.start = bs.head? := by
  cases bs <;> rfl

/-- The tiles around a buffer: it reaches to the next one. -/
structure At (p : Buffers c) (as : List ℕ) (b : ℕ) (bs : List ℕ) (S : ℕ) : Prop where
  buffers : p.buffers = as ++ b :: bs
  tiles : p.tiles = tilesFrom b p.free as ++ ⟨b, S, p.free b⟩ :: tilesFrom p.area.stop p.free bs
  next : bs.head?.getD p.area.stop = b + S
  room : c.sizeofBuffer ≤ S
  before : ∀ x ∈ as, x < b
  behind : ∀ x ∈ bs, b + S ≤ x

theorem Laid.at_buffer (h : Laid p.area p.tiles) (hb : p.buffers = as ++ b :: bs) :
    ∃ S, At p as b bs S := by
  have htiles : p.tiles = tilesFrom b p.free as ++
      ⟨b, bs.head?.getD p.area.stop - b, p.free b⟩ :: tilesFrom p.area.stop p.free bs := by
    rw [Buffers.tiles, hb, tilesFrom_append]
    rfl
  rw [htiles] at h
  have hroom : c.sizeofBuffer ≤ bs.head?.getD p.area.stop - b :=
    h.room ⟨b, _, p.free b⟩ (by simp)
  have hpos := sizeofBuffer_pos c
  have hnext : bs.head?.getD p.area.stop = b + (bs.head?.getD p.area.stop - b) := by omega
  obtain ⟨has, hbs⟩ := tiles_middle.mp h.tiles
  refine ⟨_, hb, htiles, hnext, hroom, fun x hx => ?_, fun x hx => ?_⟩
  · rw [← map_start_tilesFrom b p.free as] at hx
    obtain ⟨t, ht, rfl⟩ := List.mem_map.mp hx
    have hin := has.inside ht
    have hsize := h.room t (by simp [ht])
    simp only [Tile.stop] at hin
    omega
  · rw [← map_start_tilesFrom p.area.stop p.free bs] at hx
    obtain ⟨t, ht, rfl⟩ := List.mem_map.mp hx
    exact (hbs.inside ht).1

namespace At

variable (h : At p as b bs S)
include h

theorem not_mem_left : b ∉ as := fun hmem => lt_irrefl b (h.before b hmem)

theorem not_mem_right : b ∉ bs := fun hmem => by
  have hle := h.behind b hmem
  have hroom := h.room
  have hpos := sizeofBuffer_pos c
  omega

theorem entryNext_eq : entryNext b p.buffers = bs.head? := by
  have hne : ∀ x ∈ as, decide (x ≠ b) = true := fun x hx => by
    simpa using (h.before x hx).ne
  rw [entryNext, h.buffers, List.dropWhile_append_of_pos hne]
  simp

theorem entryPrev_eq : entryPrev b p.buffers = as.getLast? := by
  have hne : ∀ x ∈ as, decide (x ≠ b) = true := fun x hx => by
    simpa using (h.before x hx).ne
  rw [entryPrev, h.buffers, List.takeWhile_append_of_pos hne]
  simp

theorem erase_eq : p.buffers.erase b = as ++ bs := by
  rw [h.buffers, List.erase_append_right _ h.not_mem_left, List.erase_cons_head]

theorem listAdd_eq (new : ℕ) : listAdd new b p.buffers = as ++ b :: new :: bs := by
  have hb := h.not_mem_left
  rw [h.buffers]
  clear h
  induction as with
  | nil => simp [listAdd]
  | cons a as ih =>
    rw [List.mem_cons, not_or] at hb
    rw [List.cons_append, listAdd, if_neg (Ne.symm hb.1), ih hb.2, List.cons_append]

theorem buffer_size_eq : p.binder_buffer_size b + c.sizeofBuffer = S := by
  have hnext := h.next
  have hroom := h.room
  rw [binder_buffer_size, h.entryNext_eq]
  cases hbs : bs.head? with
  | none =>
    rw [hbs] at hnext
    simp only [Option.getD_none, Platform.data] at hnext ⊢
    omega
  | some n =>
    rw [hbs] at hnext
    simp only [Option.getD_some, Platform.data] at hnext ⊢
    omega

end At

/-- The pages do not matter for the tiles. -/
theorem At.withPages (h : At p as b bs S) (pages : ℕ → Bool) :
    At { p with pages := pages } as b bs S :=
  ⟨h.buffers, h.tiles, h.next, h.room, h.before, h.behind⟩

end AudioFlinger.Driver
