import Mathlib.Data.List.Induction
import AudioFlinger.NBLog.Model

/-!
# The scans find the whole entries

The trailing length of an entry leads back to its start. The scan backwards
therefore stops at the first entry that is cut off, and the scan forwards from
there prints every entry in order.
-/

namespace AudioFlinger.NBLog

open Foundation RingMemory Pieces

/-! ## One entry -/

/-- The bytes of an entry in the ring. -/
def Entry.encode (e : Entry) : List Byte :=
  e.mEvent.code :: BitVec.ofNat 8 e.mLength :: (e.mData ++ [BitVec.ofNat 8 e.mLength])

def Entry.record (e : Entry) : Event × List Byte := (e.mEvent, e.mData)

@[simp] theorem Entry.encode_length (e : Entry) : e.encode.length = e.mLength + 3 := by
  simp [Entry.encode, Entry.mLength]

theorem Entry.toNat_mLength (e : Entry) : (BitVec.ofNat 8 e.mLength).toNat = e.mLength := by
  have hle := e.length_le
  rw [BitVec.toNat_ofNat]
  exact Nat.mod_eq_of_lt (Nat.lt_of_le_of_lt hle (by decide))

theorem Event.code_inj {a b : Event} (h : a.code = b.code) : a = b := by
  cases a <;> cases b <;> first | rfl | cases h

/-- `readAt` reads the encoding. -/
theorem Entry.getElem?_encode (e : Entry) {i : ℕ} (h : i < e.mLength + 3) :
    e.encode[i]? = some (e.readAt i) := by
  match i with
  | 0 => rfl
  | 1 => rfl
  | i + 2 =>
    have hzero : i + 2 ≠ 0 := by omega
    have hone : i + 2 ≠ 1 := by omega
    simp only [Entry.encode, Entry.readAt, List.getElem?_cons_succ, if_neg hzero, if_neg hone]
    by_cases hdata : i < e.mLength
    · rw [if_pos (by omega), List.getElem?_append_left hdata, Nat.add_sub_cancel,
        List.getD_eq_getElem?_getD, List.getElem?_eq_getElem hdata]
      rfl
    · have hlast : i = e.mData.length := by
        unfold Entry.mLength at *
        omega
      rw [if_neg (by omega), if_pos (by unfold Entry.mLength; omega), hlast,
        List.getElem?_append_right (Nat.le_refl _), Nat.sub_self]
      rfl

theorem Entry.map_readAt (e : Entry) {p n : ℕ} (h : p + n ≤ e.mLength + 3) :
    (List.range n).map (fun i => e.readAt (p + i)) = (e.encode.drop p).take n := by
  apply List.ext_getElem?
  intro i
  by_cases hi : i < n
  · rw [List.getElem?_map, List.getElem?_range hi, List.getElem?_take_of_lt hi,
      List.getElem?_drop, e.getElem?_encode (by omega)]
    rfl
  · rw [List.getElem?_eq_none (by simp; omega), List.getElem?_eq_none (by simp; omega)]

/-- What the scans read of an entry that begins at `p`. -/
structure Entry.At (e : Entry) (copy : List Byte) (p : ℕ) : Prop where
  event : copy[p]? = some e.mEvent.code
  first : copy[p + 1]? = some (BitVec.ofNat 8 e.mLength)
  data : readBytes copy (p + 2) e.mLength = some e.mData
  last : copy[p + e.mLength + 2]? = some (BitVec.ofNat 8 e.mLength)
  fits : p + (e.mLength + 3) ≤ copy.length

theorem Entry.at_of_drop {e : Entry} {copy rest : List Byte} {p : ℕ}
    (h : copy.drop p = e.encode ++ rest) : e.At copy p := by
  have hfits : p + (e.mLength + 3) ≤ copy.length := by
    have hlen := congrArg List.length h
    rw [List.length_drop, List.length_append, e.encode_length] at hlen
    omega
  have hget (k : ℕ) (hk : k < e.mLength + 3) : copy[p + k]? = some (e.readAt k) := by
    rw [← List.getElem?_drop, h, List.getElem?_append_left (by rw [e.encode_length]; exact hk),
      e.getElem?_encode hk]
  exact
    { event := hget 0 (by omega)
      first := hget 1 (by omega)
      data := by
        have hdrop : copy.drop (p + 2) = e.mData ++ ([BitVec.ofNat 8 e.mLength] ++ rest) := by
          rw [← List.drop_drop, h]
          simp [Entry.encode]
        rw [readBytes, if_pos (by omega), hdrop]
        exact congrArg some List.take_left
      last := by
        have hlast := hget (e.mLength + 2) (by omega)
        rw [← Nat.add_assoc] at hlast
        rw [hlast, Entry.readAt, if_neg (by omega), if_neg (by omega), if_neg (by omega),
          if_pos rfl]
      fits := hfits }

theorem drop_entry {e : Entry} {copy rest : List Byte} {p : ℕ}
    (h : copy.drop p = e.encode ++ rest) : copy.drop (p + (e.mLength + 3)) = rest := by
  rw [← List.drop_drop, h, ← e.encode_length, List.drop_left]

/-! ## The scan backwards -/

/-- The last byte of an entry that is cut off is a length that does not fit. -/
theorem broken_last {e : Entry} {broken : List Byte} (h : broken <:+ e.encode)
    (hne : broken ≠ []) : broken[broken.length - 1]? = some (BitVec.ofNat 8 e.mLength) := by
  obtain ⟨before, hbefore⟩ := h
  have hpos := List.length_pos_of_ne_nil hne
  have hlen := congrArg List.length hbefore
  rw [List.length_append, e.encode_length] at hlen
  have hlast := e.getElem?_encode (i := e.mLength + 2) (by omega)
  have hindex : e.mLength + 2 - before.length = broken.length - 1 := by omega
  rw [← hbefore, List.getElem?_append_right (by omega), hindex] at hlast
  rw [hlast, Entry.readAt, if_neg (by omega), if_neg (by omega), if_neg (by omega), if_pos rfl]

/-- The scan stops where the first whole entry begins. -/
theorem scanBack_whole (copy broken : List Byte) (kept : List Entry)
    (hbroken : broken = [] ∨
      ∃ e : Entry, broken <:+ e.encode ∧ broken.length < e.encode.length)
    (rest : List Byte) (hcopy : copy = broken ++ kept.flatMap Entry.encode ++ rest)
    (fuel : ℕ) (hfuel : (broken ++ kept.flatMap Entry.encode).length < fuel) (maxSec : ℤ) :
    ∃ m, scanBack copy fuel (broken ++ kept.flatMap Entry.encode).length maxSec =
      some (broken.length, m) := by
  induction kept using List.reverseRecOn generalizing rest fuel maxSec with
  | nil =>
    obtain ⟨fuel, rfl⟩ : ∃ n, fuel = n + 1 := ⟨fuel - 1, by lia⟩
    rw [List.flatMap_nil, List.append_nil] at hcopy ⊢
    unfold scanBack
    split_ifs with hthree
    · rcases hbroken with rfl | ⟨e, hsuffix, hshort⟩
      · simp at hthree
      · have hne : broken ≠ [] := by
          rintro rfl
          simp at hthree
        have hlast : copy[broken.length - 1]? = some (BitVec.ofNat 8 e.mLength) := by
          rw [hcopy, List.getElem?_append_left (by lia)]
          exact broken_last hsuffix hne
        rw [e.encode_length] at hshort
        simp only [hlast, Option.bind_some, e.toNat_mLength, if_pos hshort]
        exact ⟨maxSec, rfl⟩
    · exact ⟨maxSec, rfl⟩
  | append_singleton ks k ih =>
    obtain ⟨fuel, rfl⟩ : ∃ n, fuel = n + 1 := ⟨fuel - 1, by lia⟩
    generalize hp : (broken ++ ks.flatMap Entry.encode).length = p at ih
    have hbytes : (ks ++ [k]).flatMap Entry.encode = ks.flatMap Entry.encode ++ k.encode := by
      simp
    have hlen : (broken ++ (ks ++ [k]).flatMap Entry.encode).length = p + (k.mLength + 3) := by
      rw [hbytes, ← List.append_assoc, List.length_append, hp, k.encode_length]
    have hrest : copy = broken ++ ks.flatMap Entry.encode ++ (k.encode ++ rest) := by
      rw [hcopy, hbytes]
      simp only [List.append_assoc]
    have hdrop : copy.drop p = k.encode ++ rest := by
      rw [hrest, ← hp, List.drop_left]
    have hat := Entry.at_of_drop hdrop
    rw [hlen] at hfuel ⊢
    have hnext (m : ℤ) := ih (k.encode ++ rest) hrest fuel (by lia) m
    unfold scanBack
    have hlast : copy[p + (k.mLength + 3) - 1]? = some (BitVec.ofNat 8 k.mLength) := hat.last
    have hfirst : copy[p + (k.mLength + 3) - k.mLength - 2]? =
        some (BitVec.ofNat 8 k.mLength) := by
      rw [show p + (k.mLength + 3) - k.mLength - 2 = p + 1 by lia]
      exact hat.first
    have hevent : copy[p + (k.mLength + 3) - k.mLength - 3]? = some k.mEvent.code := by
      rw [show p + (k.mLength + 3) - k.mLength - 3 = p by lia]
      exact hat.event
    rw [if_pos (by lia)]
    simp only [hlast, Option.bind_some, k.toNat_mLength, hfirst, hevent,
      if_neg (show ¬ p + (k.mLength + 3) < k.mLength + 3 by lia), ne_eq, not_true_eq_false,
      if_false, Nat.add_sub_cancel]
    split_ifs with hstamp hsize
    · have hdata : readBytes copy (p + (k.mLength + 3) - k.mLength - 1) sizeofTimespec =
          some k.mData := by
        rw [show p + (k.mLength + 3) - k.mLength - 1 = p + 2 by lia, ← hsize]
        exact hat.data
      rw [hdata]
      exact hnext _
    · exact absurd (k.timestamp_length (Event.code_inj hstamp)) hsize
    · exact hnext _

/-! ## The scan forwards -/

/-- The data of a time stamp and where the next entry begins. -/
theorem Entry.At.stamp {e : Entry} {copy : List Byte} {p : ℕ} (h : e.At copy p)
    (hstamp : e.mEvent = .EVENT_TIMESTAMP) :
    e.mLength = sizeofTimespec ∧ readBytes copy (p + 2) sizeofTimespec = some e.mData := by
  have hsize : e.mLength = sizeofTimespec := e.timestamp_length hstamp
  exact ⟨hsize, hsize ▸ h.data⟩

theorem drop_eq_nil {copy : List Byte} {p : ℕ} (h : copy.drop p = []) : copy.length ≤ p :=
  List.drop_eq_nil_iff.mp h

/-- The loop takes a run of time stamps after the one at `q.j`. -/
theorem squash_stamps (copy : List Byte) (ts : Timespec) (es : List Entry) (t : Entry)
    (ht : t.mEvent = .EVENT_TIMESTAMP) (q : Squash)
    (hdrop : copy.drop q.j = t.encode ++ es.flatMap Entry.encode) (fuel : ℕ)
    (hfuel : es.length < fuel) :
    ∃ q' taken rest, squash copy ts fuel q = some q' ∧ es = taken ++ rest ∧
      (∀ e ∈ taken, e.mEvent = .EVENT_TIMESTAMP) ∧
      q'.data = q.data ++ taken.map Entry.mData ∧
      copy.drop q'.j = rest.flatMap Entry.encode := by
  induction es generalizing t q fuel with
  | nil =>
    obtain ⟨fuel, rfl⟩ : ∃ n, fuel = n + 1 := ⟨fuel - 1, by omega⟩
    have hsize := (Entry.at_of_drop hdrop).stamp ht
    have hnext := drop_entry hdrop
    rw [hsize.1] at hnext
    refine ⟨{ q with j := q.j + (sizeofTimespec + 3) }, [], [], ?_, rfl, by simp, by simp, hnext⟩
    unfold squash
    exact if_pos (drop_eq_nil hnext)
  | cons e es ih =>
    obtain ⟨fuel, rfl⟩ : ∃ n, fuel = n + 1 := ⟨fuel - 1, by omega⟩
    have hsize := (Entry.at_of_drop hdrop).stamp ht
    have hnext := drop_entry hdrop
    rw [hsize.1, List.flatMap_cons] at hnext
    have hat := Entry.at_of_drop hnext
    have hfits := hat.fits
    -- the loop may stop before any entry
    have hstop : ∃ q' taken rest, some { q with j := q.j + (sizeofTimespec + 3) } = some q' ∧
        e :: es = taken ++ rest ∧ (∀ e ∈ taken, e.mEvent = .EVENT_TIMESTAMP) ∧
        q'.data = q.data ++ taken.map Entry.mData ∧
        copy.drop q'.j = rest.flatMap Entry.encode :=
      ⟨_, [], e :: es, rfl, rfl, by simp, by simp, hnext⟩
    unfold squash
    rw [if_neg (by omega)]
    simp only [hat.event, Option.bind_some]
    split_ifs with hother
    · exact hstop
    · have hstamp : e.mEvent = .EVENT_TIMESTAMP := Event.code_inj (not_not.mp hother)
      simp only [(hat.stamp hstamp).2, Option.bind_some]
      split_ifs
      · exact hstop
      · obtain ⟨q', taken, rest, hrun, hes, htaken, hdata, hrest⟩ :=
          ih e hstamp (q.take (q.j + (sizeofTimespec + 3)) e.mData) hnext fuel
            (by simpa using hfuel)
        refine ⟨q', e :: taken, rest, hrun, by rw [hes]; rfl, ?_, ?_, hrest⟩
        · intro x hx
          rcases List.mem_cons.mp hx with rfl | hx
          · exact hstamp
          · exact htaken x hx
        · rw [hdata, List.map_cons]
          exact List.append_assoc q.data [e.mData] (taken.map Entry.mData)

theorem records_stamps {data : List Byte} {taken : List Entry}
    (h : ∀ e ∈ taken, e.mEvent = .EVENT_TIMESTAMP) :
    (data :: taken.map Entry.mData).map (fun d => (Event.EVENT_TIMESTAMP, d)) =
      (.EVENT_TIMESTAMP, data) :: taken.map Entry.record := by
  rw [List.map_cons, List.map_map]
  congr 1
  apply List.map_congr_left
  intro e he
  simp [Entry.record, h e he]

/-- Every entry has bytes. -/
theorem length_le_bytes (es : List Entry) : es.length ≤ (es.flatMap Entry.encode).length := by
  induction es with
  | nil => exact Nat.le_refl 0
  | cons e es ih =>
    rw [List.flatMap_cons, List.length_append, List.length_cons, e.encode_length]
    omega

/-- The scan prints every entry from `i` on, in order and byte for byte. -/
theorem scanForward_whole (copy : List Byte) (es : List Entry) (i : ℕ)
    (hdrop : copy.drop i = es.flatMap Entry.encode) (fuel : ℕ) (hfuel : es.length < fuel) :
    ∃ items, scanForward copy fuel i = some items ∧
      items.flatMap Item.records = es.map Entry.record := by
  induction fuel generalizing es i with
  | zero => omega
  | succ fuel ih =>
    cases es with
    | nil =>
      have hend := drop_eq_nil hdrop
      refine ⟨[], ?_, rfl⟩
      unfold scanForward
      exact if_neg (by omega)
    | cons e es =>
      rw [List.flatMap_cons] at hdrop
      have hat := Entry.at_of_drop hdrop
      have hfits := hat.fits
      obtain ⟨items, hitems, hrecords⟩ := ih es (i + (e.mLength + 3)) (drop_entry hdrop)
        (by simpa using hfuel)
      unfold scanForward
      rw [if_pos (by omega)]
      simp only [hat.event, hat.first, Option.bind_some, e.toNat_mLength]
      by_cases hstring : e.mEvent = .EVENT_STRING
      · rw [hstring, if_pos rfl, hat.data]
        refine ⟨.string e.mData :: items, by rw [Option.bind_some, hitems]; rfl, ?_⟩
        rw [List.flatMap_cons, hrecords, List.map_cons, Entry.record, hstring]
        rfl
      · have hstamp : e.mEvent = .EVENT_TIMESTAMP := by
          have hne := e.event_ne
          cases he : e.mEvent <;> simp_all
        rw [hstamp, if_neg (by decide), if_pos rfl, (hat.stamp hstamp).2, Option.bind_some]
        have hshort : es.length < copy.length + 1 := by
          have hbytes := congrArg List.length (drop_entry hdrop)
          have hle := length_le_bytes es
          rw [List.length_drop] at hbytes
          omega
        obtain ⟨q, taken, rest, hrun, hes, htaken, hdata, hrest⟩ :=
          squash_stamps copy (Timespec.ofBytes e.mData) es e hstamp (Squash.start i e.mData) hdrop
            (copy.length + 1) hshort
        rw [hrun, Option.bind_some]
        split_ifs with hmany
        · have hfewer : rest.length < fuel := by
            rw [hes, List.length_cons, List.length_append] at hfuel
            omega
          obtain ⟨items', hitems', hrecords'⟩ := ih rest q.j hrest hfewer
          have hdata' : q.data = e.mData :: taken.map Entry.mData := hdata
          refine ⟨.squashed q :: items', by rw [hitems']; rfl, ?_⟩
          rw [List.flatMap_cons, hrecords', Item.records, hdata', records_stamps htaken, hes,
            List.map_cons, List.map_append, Entry.record, hstamp]
          rfl
        · refine ⟨.timestamp e.mData :: items, by rw [hitems]; rfl, ?_⟩
          rw [List.flatMap_cons, hrecords, List.map_cons, Entry.record, hstamp]
          rfl

end AudioFlinger.NBLog
