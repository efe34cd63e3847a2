import Mathlib.Data.Nat.Digits.Defs
import AudioFlinger.Foundation.Machine
import AudioFlinger.Foundation.SharedHeap
import AudioFlinger.Foundation.HashTables

/-!
# Parameter strings

`libs/cutils/str_parms.c` and the table under it, `libs/cutils/hashmap.c`. The strings of the
table are blocks of a heap. Reading a string that was freed, freeing it again and visiting
an entry that is no longer in the table are faults, `none`. Allocation succeeds; the functions for
floats and the dump are left out.
-/

namespace AudioFlinger.StrParms

open Foundation SharedHeap

/-- A character of a C string. -/
abbrev CChar := { c : BitVec 8 // c ≠ 0#8 }

/-- A C string, without its terminator. -/
abbrev Str := List CChar

def semicolon : CChar := ⟨59#8, by decide⟩

def equalsSign : CChar := ⟨61#8, by decide⟩

def minusSign : CChar := ⟨45#8, by decide⟩

def plusSign : CChar := ⟨43#8, by decide⟩

def zero : CChar := ⟨48#8, by decide⟩

/-- Whether `char` is signed, and the width of `long` and `size_t`. -/
structure Platform where
  charSigned : Bool
  wordBits : ℕ
  wide : 32 ≤ wordBits

def ENOENT : BitVec 32 := 2#32

def ENOMEM : BitVec 32 := 12#32

def EINVAL : BitVec 32 := 22#32

/-! ## The table -/

structure Entry where
  key : ℕ
  hash : BitVec 32
  value : ℕ
deriving DecidableEq

structure Hashmap where
  buckets : List (List Entry)
  size : ℕ
deriving DecidableEq

/-- The loop of `hashmapCreate` that finds the number of buckets. -/
def doubleCount (minimumBucketCount : ℕ) : ℕ → ℕ → ℕ
  | 0, bucketCount => bucketCount
  | fuel + 1, bucketCount =>
    if bucketCount ≤ minimumBucketCount then doubleCount minimumBucketCount fuel (bucketCount <<< 1)
    else bucketCount

def hashmapCreate (initialCapacity : ℕ) : Hashmap :=
  let minimumBucketCount := initialCapacity * 4 / 3
  ⟨List.replicate (doubleCount minimumBucketCount (minimumBucketCount + 1) 1) [], 0⟩

namespace Platform

/-- `*p` as an operand of an addition. -/
def promote (p : Platform) (c : CChar) : BitVec 32 :=
  if p.charSigned then c.1.signExtend 32 else c.1.setWidth 32

def str_hash_fn (p : Platform) (str : Str) : BitVec 32 :=
  str.foldl (fun hash c => ((hash <<< 5) + hash) + p.promote c) 5381#32

def hashKey (p : Platform) (str : Str) : BitVec 32 :=
  let h := p.str_hash_fn str
  let h := h + ~~~(h <<< 9)
  let h := h ^^^ (h >>> 14)
  let h := h + (h <<< 4)
  h ^^^ (h >>> 10)

def calculateIndex (p : Platform) (bucketCount : ℕ) (hash : BitVec 32) : ℕ :=
  (hash.signExtend p.wordBits).toNat &&& (bucketCount - 1)

def expandIfNecessary (p : Platform) (map : Hashmap) : Hashmap :=
  let bucketCount := map.buckets.length
  if map.size > bucketCount * 3 / 4 then
    let newBucketCount := bucketCount <<< 1
    { map with
      buckets := Chains.spread (fun entry => p.calculateIndex newBucketCount entry.hash) map.buckets.flatten
        (List.replicate newBucketCount []) }
  else map

end Platform

/-- `equalKeys` of an entry and a key, which is a pointer into the heap or a string of the caller. -/
def equalKeys (h : Heap Str) (entry : Entry) (key : Option ℕ) (hash : BitVec 32) (text : Str) :
    Option Bool :=
  if key = some entry.key then some true
  else if entry.hash ≠ hash then some false
  else (h.load entry.key).map fun s => decide (s = text)

/-- The loop of `hashmapPut` along a bucket: the replaced value and the new bucket. -/
def putChain (h : Heap Str) (key : ℕ) (hash : BitVec 32) (text : Str) (value : ℕ) :
    List Entry → Option (Option ℕ × List Entry)
  | [] => some (none, [⟨key, hash, value⟩])
  | current :: chain =>
    match equalKeys h current (some key) hash text with
    | none => none
    | some true => some (some current.value, { current with value := value } :: chain)
    | some false => (putChain h key hash text value chain).map fun r => (r.1, current :: r.2)

def getChain (h : Heap Str) (hash : BitVec 32) (text : Str) : List Entry → Option (Option ℕ)
  | [] => some none
  | entry :: chain =>
    match equalKeys h entry none hash text with
    | none => none
    | some true => some (some entry.value)
    | some false => getChain h hash text chain

/-- The loop of `hashmapRemove`: whether an entry was removed, and the new bucket. -/
def removeChain (h : Heap Str) (key : ℕ) (hash : BitVec 32) (text : Str) :
    List Entry → Option (Bool × List Entry)
  | [] => some (false, [])
  | current :: chain =>
    match equalKeys h current (some key) hash text with
    | none => none
    | some true => some (true, chain)
    | some false => (removeChain h key hash text chain).map fun r => (r.1, current :: r.2)

namespace Platform

variable (p : Platform)

def hashmapPut (h : Heap Str) (map : Hashmap) (key value : ℕ) : Option (Option ℕ × Hashmap) := do
  let text ← h.load key
  let hash := p.hashKey text
  let index := p.calculateIndex map.buckets.length hash
  let (oldValue, chain) ← putChain h key hash text value (← map.buckets[index]?)
  let buckets := map.buckets.set index chain
  match oldValue with
  | none => return (none, p.expandIfNecessary ⟨buckets, map.size + 1⟩)
  | some oldValue => return (some oldValue, { map with buckets := buckets })

def hashmapGet (h : Heap Str) (map : Hashmap) (key : Str) : Option (Option ℕ) := do
  let hash := p.hashKey key
  getChain h hash key (← map.buckets[p.calculateIndex map.buckets.length hash]?)

def hashmapRemove (h : Heap Str) (map : Hashmap) (key : ℕ) : Option Hashmap := do
  let text ← h.load key
  let hash := p.hashKey text
  let index := p.calculateIndex map.buckets.length hash
  let (removed, chain) ← removeChain h key hash text (← map.buckets[index]?)
  if removed then return ⟨map.buckets.set index chain, map.size - 1⟩ else return map

end Platform

section ForEach

variable {σ : Type} (buckets : σ → List (List Entry)) (callback : Entry → σ → Option (Bool × σ))

/-- The inner loop of `hashmapForEach`. The entry must still be in the table when it is visited. -/
def visitChain : List Entry → σ → Option (Bool × σ)
  | [], s => some (true, s)
  | entry :: chain, s =>
    if entry ∈ (buckets s).flatten then
      match callback entry s with
      | none => none
      | some (true, s) => visitChain chain s
      | some (false, s) => some (false, s)
    else none

/-- The outer loop over the numbers of the buckets. -/
def visitBuckets : List ℕ → σ → Option σ
  | [], s => some s
  | i :: numbers, s =>
    match (buckets s)[i]?.bind fun chain => visitChain buckets callback chain s with
    | none => none
    | some (true, s) => visitBuckets numbers s
    | some (false, s) => some s

def hashmapForEach (s : σ) : Option σ :=
  visitBuckets buckets callback (List.range (buckets s).length) s

end ForEach

/-! ## The strings of the callers -/

/-- A digit of `%d`. -/
def digit (d : ℕ) : CChar :=
  ⟨BitVec.ofNat 8 (48 + d % 10), by
    have hlt : d % 10 < 10 := Nat.mod_lt _ (by decide)
    intro h
    have hnat := congrArg BitVec.toNat h
    rw [BitVec.toNat_ofNat, BitVec.toNat_ofNat] at hnat
    omega⟩

def decimalNat (n : ℕ) : Str := if n = 0 then [zero] else (Nat.digits 10 n).reverse.map digit

/-- `%d` -/
def decimal (value : BitVec 32) : Str :=
  if value.toInt < 0 then minusSign :: decimalNat value.toInt.natAbs else decimalNat value.toInt.natAbs

/-- `snprintf` into an array of `size` bytes. -/
def snprintf (size : ℕ) (text : Str) : Str := text.take (size - 1)

/-- The result of `strlcpy` and what it leaves in the array, if it writes to it. -/
def strlcpy (src : Str) (size : ℕ) : ℕ × Option Str :=
  (src.length, if size = 0 then none else some (src.take (size - 1)))

def isspace (c : CChar) : Bool := c.1 = 32#8 || (9#8 ≤ c.1 && c.1 ≤ 13#8)

/-- The value of a digit or a letter; other characters have none below 36. -/
def digitValue (c : CChar) : ℕ :=
  let c := c.1.toNat
  if 48 ≤ c ∧ c ≤ 57 then c - 48
  else if 65 ≤ c ∧ c ≤ 90 then c - 55
  else if 97 ≤ c ∧ c ≤ 122 then c - 87
  else 36

def sign (s : Str) : Bool × Str :=
  match s with
  | [] => (false, [])
  | c :: s' => if c = minusSign then (true, s') else if c = plusSign then (false, s') else (false, s)

/-- The base that the digits begin with, and the digits. -/
def radix (s : Str) : ℕ × Str :=
  match s with
  | c :: x :: d :: s' =>
    if c = zero ∧ (x.1 = 120#8 ∨ x.1 = 88#8) ∧ digitValue d < 16 then (16, d :: s')
    else if c = zero then (8, s) else (10, s)
  | c :: _ => if c = zero then (8, s) else (10, s)
  | [] => (10, [])

namespace Platform

variable (p : Platform)

/-- A `long` that overflows is the largest or the smallest one. -/
def saturate (n : ℤ) : ℤ := max (-2 ^ (p.wordBits - 1)) (min n (2 ^ (p.wordBits - 1) - 1))

/-- `strtol` with base 0: the number, and the string from `end`. -/
def strtol (s : Str) : ℤ × Str :=
  let (negative, t) := sign (s.dropWhile isspace)
  let (base, t) := radix t
  let digits := t.takeWhile fun c => digitValue c < base
  let n : ℕ := digits.foldl (fun acc c => acc * base + digitValue c) 0
  if digits = [] then (0, s)
  else (p.saturate (if negative then -n else n), t.drop digits.length)

end Platform

/-- `strtok_r` with `";"`: the token and what is left of the string. -/
def strtok_r (s : Str) : Option (Str × Str) :=
  match s.dropWhile (· = semicolon) with
  | [] => none
  | t => some (t.takeWhile (· ≠ semicolon), (t.dropWhile (· ≠ semicolon)).tail)

/-- The key and the value of a token, none if it begins with an equals sign. -/
def splitPair (kvpair : Str) : Option (Str × Str) :=
  match kvpair.dropWhile (· ≠ equalsSign) with
  | [] => some (kvpair, [])
  | _ :: value =>
    let key := kvpair.takeWhile (· ≠ equalsSign)
    if key = [] then none else some (key, value)

/-! ## The functions -/

/-- The heap, and the table of the `str_parms`. -/
structure Store where
  heap : Heap Str
  map : Hashmap

namespace Platform

variable (p : Platform)

/-- The copies go into the table; a replaced value is freed, and the copy of its key. The copies
are returned when the key was new. -/
def putCopies (key value : Str) (s : Store) : Option (Option (ℕ × ℕ) × Store) := do
  let (tmp_key, h) := s.heap.alloc key
  let (tmp_val, h) := h.alloc value
  let (old_val, map) ← p.hashmapPut h s.map tmp_key tmp_val
  match old_val with
  | some old_val => return (none, ⟨← (← h.release old_val).release tmp_key, map⟩)
  | none => return (some (tmp_key, tmp_val), ⟨h, map⟩)

def str_parms_add_str (errno : BitVec 32) (key value : Str) (s : Store) :
    Option (BitVec 32 × Store) := do
  let (added, s) ← p.putCopies key value s
  match added with
  | none => return (0#32, s)
  | some (tmp_key, tmp_val) =>
    if errno = ENOMEM then
      return (-ENOMEM, { s with heap := ← (← s.heap.release tmp_key).release tmp_val })
    else return (0#32, s)

def str_parms_add_int (errno : BitVec 32) (key : Str) (value : BitVec 32) (s : Store) :
    Option (BitVec 32 × Store) :=
  p.str_parms_add_str errno key (snprintf 12 (decimal value)) s

/-- The loop of `str_parms_create_str` over the tokens. -/
def addPairs : ℕ → Str → Store → Option Store
  | fuel, str, s =>
    match strtok_r str with
    | none => some s
    | some (kvpair, str) =>
      match fuel with
      | 0 => none
      | fuel + 1 =>
        match splitPair kvpair with
        | none => addPairs fuel str s
        | some (key, value) => (p.putCopies key value s).bind fun r => addPairs fuel str r.2

def str_parms_create_str (string : Str) (h : Heap Str) : Option Store := do
  let (str, h) := h.alloc string
  let s ← p.addPairs string.length string ⟨h, hashmapCreate 5⟩
  return { s with heap := ← s.heap.release str }

def str_parms_get_str (key : Str) (len : BitVec 32) (s : Store) : Option (BitVec 32 × Option Str) := do
  match ← p.hashmapGet s.heap s.map key with
  | none => return (-ENOENT, none)
  | some value =>
    let (n, val) := strlcpy (← s.heap.load value) (len.signExtend p.wordBits).toNat
    return (BitVec.ofNat 32 n, val)

def str_parms_get_int (key : Str) (s : Store) : Option (BitVec 32 × Option (BitVec 32)) := do
  match ← p.hashmapGet s.heap s.map key with
  | none => return (-ENOENT, none)
  | some value =>
    let value ← s.heap.load value
    let (n, rest) := p.strtol value
    return (if value ≠ [] ∧ rest = [] then 0#32 else -EINVAL, some (BitVec.ofInt 32 n))

def remove_pair (key : Option Str) (entry : Entry) (s : Store) : Option (Bool × Store) := do
  let should_continue := key.isNone
  let matched ← match key with
    | none => some true
    | some key => (s.heap.load entry.key).map fun text => decide (key = text)
  if matched then
    let map ← p.hashmapRemove s.heap s.map entry.key
    return (should_continue, ⟨← (← s.heap.release entry.key).release entry.value, map⟩)
  else return (true, s)

def str_parms_del (key : Option Str) (s : Store) : Option Store :=
  hashmapForEach (fun s : Store => s.map.buckets) (p.remove_pair key) s

/-- What is left of the heap. -/
def str_parms_destroy (s : Store) : Option (Heap Str) :=
  (hashmapForEach (fun s : Store => s.map.buckets) (p.remove_pair none) s).map Store.heap

end Platform

/-- The state of the callback is the heap and `*old_str`. -/
def combine_strings (entry : Entry) (s : Heap Str × Option ℕ) : Option (Bool × Heap Str × Option ℕ) := do
  let key ← s.1.load entry.key
  let value ← s.1.load entry.value
  match s.2 with
  | none =>
    let (new_str, h) := s.1.alloc (key ++ equalsSign :: value)
    return (true, h, some new_str)
  | some old_str =>
    let (new_str, h) := s.1.alloc ((← s.1.load old_str) ++ semicolon :: (key ++ equalsSign :: value))
    return (true, ← h.release old_str, some new_str)

def str_parms_to_str (s : Store) : Option (ℕ × Heap Str) :=
  if s.map.size > 0 then do
    let (h, str) ← hashmapForEach (fun _ => s.map.buckets) combine_strings (s.heap, none)
    return (← str, h)
  else some (s.heap.alloc [])

/-! ## Runs -/

inductive Op
  | create_str (string : Str)
  | add_str (errno : BitVec 32) (key value : Str)
  | add_int (errno : BitVec 32) (key : Str) (value : BitVec 32)
  | get_str (key : Str) (len : BitVec 32)
  | get_int (key : Str)
  | del (key : Option Str)
  | to_str
  | destroy

/-- What a call returns and leaves in `val`, or the string that it returns. -/
inductive Out
  | done
  | code (ret : BitVec 32)
  | string (ret : BitVec 32) (val : Option Str)
  | number (ret : BitVec 32) (val : Option (BitVec 32))
  | text (str : Str)
deriving DecidableEq

/-- `texts` are the strings that the callers got from `str_parms_to_str`. -/
structure World where
  heap : Heap Str
  map : Option Hashmap
  texts : List ℕ
  log : List (Op × Out)

namespace World

def new (h : Heap Str) : World := ⟨h, none, [], []⟩

def answer (w : World) (op : Op) (out : Out) : World := { w with log := w.log ++ [(op, out)] }

def put (w : World) (s : Store) : World := { w with
  heap := s.heap
  map := some s.map }

variable (p : Platform)

/-- A call on the object. -/
def call (w : World) (s : Store) : Op → Option (Out × World)
  | .create_str _ => none
  | .add_str errno key value => (p.str_parms_add_str errno key value s).map fun r => (.code r.1, w.put r.2)
  | .add_int errno key value => (p.str_parms_add_int errno key value s).map fun r => (.code r.1, w.put r.2)
  | .get_str key len => (p.str_parms_get_str key len s).map fun r => (.string r.1 r.2, w)
  | .get_int key => (p.str_parms_get_int key s).map fun r => (.number r.1 r.2, w)
  | .del key => (p.str_parms_del key s).map fun s => (.done, w.put s)
  | .to_str => do
    let (str, h) ← str_parms_to_str s
    return (.text (← h.load str), { w with
      heap := h
      texts := str :: w.texts })
  | .destroy => (p.str_parms_destroy s).map fun h => (.done, { w with
      heap := h
      map := none })

def step (w : World) (op : Op) : Option World :=
  match w.map with
  | none =>
    match op with
    | .create_str string => (p.str_parms_create_str string w.heap).map fun s => (w.put s).answer op .done
    | _ => none
  | some map => (w.call p ⟨w.heap, map⟩ op).map fun r => r.2.answer op r.1

/-- The key is in the table. -/
def present (w : World) (map : Hashmap) (key : Str) : Bool :=
  (p.hashmapGet w.heap map key).any Option.isSome

/-- An object is made when there is none and used when there is one. A key that is new is added
while `errno` is not `ENOMEM`. -/
def Allowed (w : World) (op : Op) : Prop :=
  match w.map, op with
  | none, .create_str _ => True
  | none, _ => False
  | some _, .create_str _ => False
  | some map, .add_str errno key _ => errno ≠ ENOMEM ∨ w.present p map key = true
  | some map, .add_int errno key _ => errno ≠ ENOMEM ∨ w.present p map key = true
  | some _, _ => True

instance (w : World) (op : Op) : Decidable (w.Allowed p op) := by
  unfold Allowed
  cases w.map <;> cases op <;> dsimp only <;> infer_instance

end World

end AudioFlinger.StrParms
