import AudioFlinger.Binder.ReadLayout

/-!
# Values through a parcel

Values written one after another to an empty parcel are read back in the same
order, at the same positions, as long as the size to grow to never wraps. Both
halves meet at the fields that a value is laid down as.
-/

namespace AudioFlinger.Binder

open Foundation Bytes Fields RingMemory Machine

/-- A string without its terminator. -/
structure CString where
  chars : List Byte
  noNul : 0#8 ∉ chars

/-- The string that some bytes start with. -/
def CString.ofBytes (bs : List Byte) : CString where
  chars := bs.takeWhile (· != 0#8)
  noNul := fun hmem => absurd (List.mem_takeWhile_imp hmem) (by decide)

/-- Values with strong pointers to binders in `β`. -/
inductive Value (β : Type)
  | int32 (x : U32)
  | int64 (x : U64)
  | cString (s : CString)
  | string8 (s : List Byte)
  | string16 (s : List U16)
  | block (bs : List Byte)
  | strongBinder (b : β)

/-- What a reader is told of the value that comes next. -/
inductive Shape
  | int32
  | int64
  | cString
  | string8
  | string16
  | block (len : U32)
  | strongBinder

def Value.shape {β : Type} : Value β → Shape
  | .int32 _ => .int32
  | .int64 _ => .int64
  | .cString _ => .cString
  | .string8 _ => .string8
  | .string16 _ => .string16
  | .block bs => .block (BitVec.ofNat 32 bs.length)
  | .strongBinder _ => .strongBinder

/-- The pointer that a binder is known by. -/
def StrongBinder.ptr : StrongBinder → IBinderPtr
  | .null => .object 0#32
  | .localBinder b => .object b.cookie
  | .remoteBinder handle => .proxy handle

/-- The value as it is read. -/
def Value.toRead : Value StrongBinder → Value IBinderPtr
  | .int32 x => .int32 x
  | .int64 x => .int64 x
  | .cString s => .cString s
  | .string8 s => .string8 s
  | .string16 s => .string16 s
  | .block bs => .block bs
  | .strongBinder b => .strongBinder b.ptr

def Parcel.writeValue (p : Parcel) : Value StrongBinder → Status × Parcel
  | .int32 x => p.writeInt32 x
  | .int64 x => p.writeInt64 x
  | .cString s => p.writeCString s.chars
  | .string8 s => p.writeString8 s
  | .string16 s => p.writeString16 (some s)
  | .block bs => p.write bs
  | .strongBinder b => p.writeStrongBinder b

/-- Write a value; the run ends at the first write that fails. -/
def writeStep (p : Parcel) (v : Value StrongBinder) : Option Parcel :=
  match p.writeValue v with
  | (.NO_ERROR, p') => some p'
  | _ => none

def Parcel.readValue (p : Parcel) : Shape → Option (Value IBinderPtr) × Parcel
  | .int32 => (some (.int32 p.readInt32.1), p.readInt32.2)
  | .int64 => (some (.int64 p.readInt64.1), p.readInt64.2)
  | .cString =>
    (p.readCString.1.map fun str =>
      .cString (.ofBytes (slice p.mem str (p.mDataSize.toNat - str))), p.readCString.2)
  | .string8 => (some (.string8 p.readString8.1), p.readString8.2)
  | .string16 => (some (.string16 p.readString16.1), p.readString16.2)
  | .block len => ((p.read len).1.map .block, (p.read len).2)
  | .strongBinder => (some (.strongBinder p.readStrongBinder.1), p.readStrongBinder.2)

/-- A binder whose object is not NULL. -/
def Value.Recorded : Value StrongBinder → Prop
  | .strongBinder b => b.flatten.binder ≠ 0#32
  | _ => False

/-- Reading `vs` from `r` returns them and keeps up with writing them to `w`; at the end all is
read. -/
def Tracks : Parcel → Parcel → List (Value StrongBinder) → Prop
  | _, r, [] => r.mDataPos = r.mDataSize
  | w, r, v :: vs =>
    ∃ w', writeStep w v = some w' ∧
      (r.readValue v.shape).1 = some v.toRead ∧
      (r.readValue v.shape).2.mDataPos = w'.mDataPos ∧
      (v.Recorded → (findObject r.mObjects r.mNextObjectHint r.mDataPos).isSome) ∧
      Tracks w' (r.readValue v.shape).2 vs

/-! ## Layout -/

def Value.fields : Value StrongBinder → List (List Byte)
  | .int32 x => [bytes x]
  | .int64 x => [bytes x]
  | .cString s => [s.chars ++ [0#8]]
  | .string8 s => string8Fields s
  | .string16 s => string16Fields s
  | .block bs => [bs]
  | .strongBinder b => [b.flatten.bytes]

def Value.offsets (n : ℕ) : Value StrongBinder → List U32
  | .strongBinder b => b.flatten.offsets n
  | _ => []

/-- The offsets that are recorded for values written from `n` on. -/
abbrev offsetsFrom : ℕ → List (Value StrongBinder) → List U32 :=
  offsetsOf Value.fields Value.offsets

/-- No size that the write grows the data to wraps. -/
def Unwrapped (p : Parcel) (v : Value StrongBinder) : Prop :=
  Grows p.mDataSize.toNat p.mDataCapacity.toNat v.fields

instance (p : Parcel) (v : Value StrongBinder) : Decidable (Unwrapped p v) := decidableGrows _ _ _

variable {p p' r w : Parcel} {n : ℕ}

theorem flatten_type (b : StrongBinder) : b.flatten.type ≠ BINDER_TYPE_FD := by
  have hlocal : BINDER_TYPE_BINDER ≠ BINDER_TYPE_FD := by decide
  have hremote : BINDER_TYPE_HANDLE ≠ BINDER_TYPE_FD := by decide
  cases b with
  | remoteBinder handle => exact hremote
  | _ => exact hlocal

/-- Each write lays down the fields of its value. -/
theorem writeValue_extends (h : p.Open n) {v : Value StrongBinder} (hgrows : Unwrapped p v)
    (hok : p.writeValue v = (.NO_ERROR, p')) : p.Extends p' n v.fields (v.offsets n) := by
  have hsize : p.mDataSize.toNat = n := by rw [h.size, h.pos]
  rw [Unwrapped, hsize] at hgrows
  cases v with
  | int32 x => exact writeInt32_extends h hgrows hok
  | int64 x => exact writeAligned_extends (by decide) (by decide) h hgrows hok
  | cString s => exact write_extends h hgrows hok
  | string8 s => exact writeString8_extends h hgrows hok
  | string16 s => exact writeString16_extends h hgrows hok
  | block bs => exact write_extends h hgrows hok
  | strongBinder b => exact writeObject_extends (flatten_type b) h hgrows hok

theorem writeStep_some {v : Value StrongBinder} :
    writeStep p v = some p' ↔ p.writeValue v = (.NO_ERROR, p') := by
  unfold writeStep
  rcases p.writeValue v with ⟨_ | _ | _ | _ | _ | _, q⟩ <;> simp

theorem offsets_value (n : ℕ) (v : Value StrongBinder) :
    v.offsets n = [] ∨ v.offsets n = [BitVec.ofNat 32 n] ∧ 0 < extent v.fields := by
  cases v with
  | strongBinder b => exact offsets_object b.flatten n
  | _ => exact Or.inl rfl

/-! ## Reading -/

theorem ofBytes_stored {mem : ℕ → Byte} {s : CString} {k : ℕ}
    (h : Stores mem n (s.chars ++ [0#8])) (hk : s.chars.length < k) :
    CString.ofBytes (slice mem n k) = s := by
  have hsplit : slice mem n k =
      s.chars ++ 0#8 :: slice mem (n + (s.chars.length + 1)) (k - (s.chars.length + 1)) := by
    have hlen : (s.chars ++ [0#8]).length = s.chars.length + 1 := List.length_append
    have hfront : slice mem n (s.chars.length + 1) = s.chars ++ [0#8] := by
      rw [← hlen]
      exact h
    have hcat : slice mem n k = slice mem n (s.chars.length + 1) ++
        slice mem (n + (s.chars.length + 1)) (k - (s.chars.length + 1)) := by
      have hsum : k = s.chars.length + 1 + (k - (s.chars.length + 1)) := by omega
      conv_lhs => rw [hsum]
      simp [slice, List.range_add, List.map_map, Function.comp_def, Nat.add_assoc]
    rw [hcat, hfront, List.append_assoc, List.singleton_append]
  have hall : ∀ b ∈ s.chars, (b != 0#8) = true := fun b hb =>
    bne_iff_ne.mpr fun hzero => s.noNul (hzero ▸ hb)
  obtain ⟨chars, noNul⟩ := s
  unfold CString.ofBytes
  simp only [CString.mk.injEq]
  rw [hsplit, List.takeWhile_append_of_pos hall]
  simp

theorem readStrongBinder_stored {b : StrongBinder} (h : p.Reads r n)
    (hin : n + 16 ≤ p.mDataSize.toNat) (hstored : Stores p.mem n b.flatten.bytes)
    (hsorted : p.mObjects.Pairwise (· < ·)) (hmem : b.flatten.offsets n ⊆ p.mObjects) :
    r.readStrongBinder.1 = b.ptr ∧ p.Reads r.readStrongBinder.2 (n + 16) := by
  have hthere : b.flatten.cookie = 0#32 ∧ b.flatten.binder = 0#32 ∨
      BitVec.ofNat 32 n ∈ p.mObjects := by
    unfold FlatBinderObject.offsets at hmem
    by_cases hnull : b.flatten.binder = 0#32
    · refine Or.inl ⟨?_, hnull⟩
      cases b with
      | localBinder b => exact absurd hnull b.weakRefs_ne
      | _ => rfl
    · rw [if_neg hnull] at hmem
      exact Or.inr (hmem (List.mem_singleton_self _))
  obtain ⟨hobj, hreads⟩ := readObject_stored h hin hstored hsorted hthere
  unfold Parcel.readStrongBinder Parcel.unflatten_binder
  revert hobj hreads
  rcases r.readObject false with ⟨_ | off, q⟩
  · rintro ⟨⟩
  · rintro ⟨⟩ hreads
    dsimp only at hreads ⊢
    rw [hreads.mem, objectAt_stored hstored]
    cases b <;> exact ⟨rfl, hreads⟩

/-- Each read returns the value that is laid down, and stops behind it. -/
theorem readValue_stored {v : Value StrongBinder} (h : p.Reads r n)
    (hsmall : p.mDataSize.toNat < 2 ^ 31) (hin : n + extent v.fields ≤ p.mDataSize.toNat)
    (hlaid : Laid p.mem n v.fields) (hsorted : p.mObjects.Pairwise (· < ·))
    (hmem : v.offsets n ⊆ p.mObjects) :
    (r.readValue v.shape).1 = some v.toRead ∧
      p.Reads (r.readValue v.shape).2 (n + extent v.fields) := by
  cases v with
  | int32 x =>
    rw [Value.fields, extent_cons, extent_nil, padded_word, Nat.add_zero] at hin ⊢
    obtain ⟨hval, hreads⟩ := readInt32_stored h hin hlaid.1
    exact ⟨congrArg (some ∘ Value.int32) hval, hreads⟩
  | int64 x =>
    have hlen : extent (Value.int64 x).fields = 64 / 8 := by
      rw [Value.fields, extent_cons, extent_nil, bytes_length]
      rfl
    rw [hlen] at hin ⊢
    obtain ⟨hval, hreads⟩ := readAligned_stored (w := 64) (by decide) h hin hlaid.1
    refine ⟨congrArg (some ∘ Value.int64) ?_, hreads⟩
    unfold Parcel.readInt64
    dsimp only
    rw [hval, Option.getD_some]
  | cString s =>
    have hlen : (s.chars ++ [0#8]).length = s.chars.length + 1 := List.length_append
    rw [Value.fields, extent_cons, extent_nil, hlen] at hin ⊢
    have hle := le_padded (s.chars.length + 1)
    obtain ⟨hptr, hreads⟩ := readCString_stored s.noNul h hin hlaid.1
    refine ⟨?_, hreads⟩
    unfold Parcel.readValue Value.shape
    dsimp only
    rw [hptr, h.mem, h.size, Option.map_some, ofBytes_stored hlaid.1 (by omega)]
    rfl
  | string8 s =>
    have hbound : s.length + 1 < 2 ^ 31 := by
      by_cases hnil : s = []
      · rw [hnil]
        decide
      · change n + extent (string8Fields s) ≤ _ at hin
        rw [extent_string8 hnil] at hin
        have hle := le_padded (s.length + 1)
        omega
    obtain ⟨hval, hreads⟩ := readString8_stored hbound h hin hlaid
    exact ⟨congrArg (some ∘ Value.string8) hval, hreads⟩
  | string16 s =>
    have hbound : 2 * s.length + 5 < 2 ^ 32 := by
      change n + extent (string16Fields s) ≤ _ at hin
      rw [extent_string16] at hin
      have hle := le_padded (2 * (s.length + 1))
      omega
    obtain ⟨hval, hreads⟩ := readString16_stored hbound h hin hlaid
    exact ⟨congrArg (some ∘ Value.string16) hval, hreads⟩
  | block bs =>
    rw [Value.fields, extent_cons, extent_nil] at hin ⊢
    have hle := le_padded bs.length
    obtain ⟨hval, hreads⟩ := read_stored h (by omega) hin hlaid.1
    exact ⟨congrArg (Option.map Value.block) hval, hreads⟩
  | strongBinder b =>
    have hlen : extent (Value.strongBinder b).fields = 16 := by
      rw [Value.fields, extent_cons, extent_nil, FlatBinderObject.bytes_length]
      rfl
    rw [hlen] at hin ⊢
    obtain ⟨hval, hreads⟩ := readStrongBinder_stored h hin hlaid.1 hsorted hmem
    exact ⟨congrArg (some ∘ Value.strongBinder) hval, hreads⟩

/-- Reading the final parcel keeps up with the writes that led to it. -/
theorem tracks_of_reads {vs : List (Value StrongBinder)} (hw : w.Open n)
    (hgrows : Along writeStep Unwrapped w vs) (hrun : run writeStep w vs = some p)
    (h : p.Reads r n) (hsmall : p.mDataSize.toNat < 2 ^ 31)
    (hend : n + extent (vs.flatMap Value.fields) = p.mDataSize.toNat)
    (hlaid : Laid p.mem n (vs.flatMap Value.fields)) (hsorted : p.mObjects.Pairwise (· < ·))
    (hmem : offsetsFrom n vs ⊆ p.mObjects) : Tracks w r vs := by
  induction vs generalizing w r n with
  | nil =>
    apply BitVec.eq_of_toNat_eq
    rw [h.pos, h.size, ← hend]
    rfl
  | cons v vs ih =>
    obtain ⟨w', hw', hrest⟩ := run_cons_some.mp hrun
    rw [List.flatMap_cons, extent_append, ← Nat.add_assoc] at hend
    rw [List.flatMap_cons, laid_append] at hlaid
    obtain ⟨hhere, hlater⟩ := List.append_subset.mp hmem
    have hfirst := writeValue_extends hw hgrows.1 (writeStep_some.mp hw')
    obtain ⟨hval, hreads⟩ := readValue_stored h hsmall (by omega) hlaid.1 hsorted hhere
    refine ⟨w', hw', hval, ?_, ?_, ?_⟩
    · apply BitVec.eq_of_toNat_eq
      rw [hreads.pos, hfirst.after.pos]
    · intro hrecorded
      have hoffset : r.mDataPos ∈ p.mObjects := by
        have hpos : BitVec.ofNat 32 n = r.mDataPos := by
          rw [← h.pos, BitVec.ofNat_toNat, BitVec.setWidth_eq]
        cases v with
        | strongBinder b =>
          apply hhere
          change r.mDataPos ∈ b.flatten.offsets n
          rw [FlatBinderObject.offsets, if_neg hrecorded, hpos]
          exact List.mem_singleton_self _
        | _ => cases hrecorded
      rw [← h.objects] at hsorted hoffset
      obtain ⟨k, -, hfound⟩ := findObject_of_mem hsorted hoffset r.mNextObjectHint
      rw [hfound]
      rfl
    · exact ih hfirst.after (hgrows.2 w' hw') hrest hreads hend hlaid.2 hlater

theorem open_initState (heap : List (Option (ℕ → Byte))) (refs : List RefOp) :
    (Parcel.initState heap refs).Open 0 :=
  ⟨rfl, rfl, le_rfl, Nat.two_pow_pos 31, fun _ => rfl, rfl⟩

/-- What is written to an empty parcel is read back from its start. -/
theorem parcel_round_trip (heap : List (Option (ℕ → Byte))) (vs : List (Value StrongBinder))
    (hgrows : Along writeStep Unwrapped (.initState heap []) vs) {p : Parcel}
    (hrun : run writeStep (.initState heap []) vs = some p) :
    Tracks (.initState heap []) (p.setDataPosition 0#32) vs := by
  have hopen := open_initState heap []
  have hwritten : (Parcel.initState heap []).Extends p 0 (vs.flatMap Value.fields)
      (offsetsFrom 0 vs) :=
    run_lays (fun h hok hstep => writeValue_extends h hok (writeStep_some.mp hstep)) hopen hgrows hrun
  have hafter := hwritten.after
  rw [Nat.zero_add] at hafter
  have hsize : extent (vs.flatMap Value.fields) = p.mDataSize.toNat := by
    rw [hafter.size, hafter.pos]
  have hcap := hafter.capacity
  have hfits := hafter.fits
  have hobjects : p.mObjects = offsetsFrom 0 vs := hwritten.objects
  refine tracks_of_reads hopen hgrows hrun ⟨rfl, rfl, rfl, rfl⟩ (by omega) (by omega)
    hwritten.laid ?_ (hobjects ▸ List.Subset.refl _)
  rw [hobjects]
  exact (offsetsOf_increasing offsets_value (by omega)).1

/-- One value of each kind, and some that are empty. -/
def mixed : List (Value StrongBinder) :=
  [.int32 7#32, .string8 [0x61#8], .string8 [], .string16 [0x62#16, 0x63#16], .string16 [],
    .cString ⟨[0x64#8], by decide⟩, .strongBinder .null, .block [1#8, 2#8, 3#8],
    .strongBinder (.remoteBinder 5#32), .int64 9#64,
    .strongBinder (.localBinder ⟨0x100#32, 0x200#32, by decide, by decide⟩)]

theorem parcel_round_trip_mixed :
    ∃ p, run writeStep (.initState (List.replicate 12 (some fun _ => 0#8)) []) mixed = some p ∧
      Tracks (.initState (List.replicate 12 (some fun _ => 0#8)) []) (p.setDataPosition 0#32) mixed :=
  ⟨_, rfl, parcel_round_trip _ mixed (by decide +kernel) rfl⟩

/-- A word, and a block of 0x55555554 bytes. -/
def unwritten : List (Value StrongBinder) :=
  [.int32 7#32, .block (List.replicate 0x55555554 0#8)]

/-- The parcel with the word in it. -/
def oneWord : Parcel := ((Parcel.initState [some fun _ => 0#8] []).writeInt32 7#32).2

/-- The new size for the block wraps to the old one: nothing is written, and no error is set. -/
theorem oneWord_write {data : List Byte} (hlen : data.length = 0x55555554) :
    oneWord.write data = (.NO_ERROR, oneWord) := by
  have hnowrap : ¬ oneWord.mDataPos + pad4 0x55555554#32 < oneWord.mDataPos := by decide +kernel
  have hfull : ¬ oneWord.mDataPos + pad4 0x55555554#32 ≤ oneWord.mDataCapacity := by
    decide +kernel
  have hsame : (oneWord.mDataSize + pad4 0x55555554#32) * 3#32 / 2#32 ≤ oneWord.mDataSize := by
    decide +kernel
  have hgrow : oneWord.growData (pad4 0x55555554#32) = (.NO_MEMORY, oneWord) := by
    unfold Parcel.growData
    dsimp only
    rw [if_pos hsame]
  have hinplace : oneWord.writeInplace 0x55555554#32 = (none, oneWord) := by
    unfold Parcel.writeInplace Parcel.orGrow
    dsimp only
    rw [if_neg hnowrap, if_neg hfull, hgrow]
  rw [Parcel.write, hlen, hinplace]
  rfl

/-- Both writes succeed, and the block is not there to be read. -/
theorem unwritten_not_read :
    ∃ p, run writeStep (.initState [some fun _ => 0#8] []) unwritten = some p ∧
      ¬ Tracks (.initState [some fun _ => 0#8] []) (p.setDataPosition 0#32) unwritten := by
  have hlen : (List.replicate 0x55555554 0#8).length = 0x55555554 := List.length_replicate
  unfold unwritten
  revert hlen
  generalize List.replicate 0x55555554 0#8 = data
  intro hlen
  have hword : writeStep (.initState [some fun _ => 0#8] []) (.int32 7#32) = some oneWord := rfl
  have hblock : writeStep oneWord (.block data) = some oneWord :=
    writeStep_some.mpr (oneWord_write hlen)
  refine ⟨oneWord, ?_, ?_⟩
  · rw [run_cons, hword, Option.bind_some, run_cons, hblock]
    rfl
  · rintro ⟨-, -, -, -, -, -, -, hread, -⟩
    have hshort : ¬ ((oneWord.setDataPosition 0#32).readValue .int32).2.Holds 0x55555554#32 := by
      decide +kernel
    rw [Value.shape, Value.shape, hlen] at hread
    revert hshort hread
    generalize ((oneWord.setDataPosition 0#32).readValue .int32).2 = r
    intro hread hshort
    have hnone : r.read 0x55555554#32 = (none, r) := if_neg hshort
    change (r.read 0x55555554#32).1.map Value.block = _ at hread
    rw [hnone] at hread
    cases hread

end AudioFlinger.Binder
