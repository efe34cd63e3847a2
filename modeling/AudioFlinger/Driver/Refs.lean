import Mathlib.Data.Fintype.Card
import Mathlib.Order.Bounds.Basic
import AudioFlinger.Foundation.Counter
import AudioFlinger.Foundation.Machine
import AudioFlinger.Foundation.SearchTree

/-!
# The references of a process

A process names the nodes of others by small numbers. Its references are in two
trees, by number and by node; a new one takes the first number that a walk
through the tree by number finds free.
-/

namespace AudioFlinger.Driver
open Foundation Foundation.SearchTree

/-- `struct binder_ref`: the fields that the trees are kept by. -/
structure BinderRef where
  node : U32
  desc : U32

/-- The part of `struct binder_proc` that belongs to the references. A reference is named by its
address; `ref` is what the memory holds there. -/
structure Refs where
  ref : U32 → BinderRef
  refs_by_desc : BinaryTree U32
  refs_by_node : BinaryTree U32

/-- The scan of the numbers in use from `desc` on. -/
def freeDesc : U32 → List U32 → U32
  | desc, [] => desc
  | desc, d :: ds => if desc < d then desc else freeDesc (d + 1#32) ds

namespace Refs

/-- The keys of the trees, unsigned. -/
def descKey (p : Refs) (ref : U32) : ℕ := (p.ref ref).desc.toNat

def nodeKey (p : Refs) (ref : U32) : ℕ := (p.ref ref).node.toNat

variable (rb : Rebalancing U32)

/-- The reference and the process after the call. `kzalloc` is what the allocator answers, and a
`BUG()` is `none`. -/
def binder_get_ref_for_node (p : Refs) (binder_context_mgr_node node kzalloc : U32) :
    Option (U32 × Refs) :=
  match find (turnTo p.nodeKey node.toNat) p.refs_by_node with
  | some ref => some (ref, p)
  | none =>
    if kzalloc = 0#32 then some (0#32, p)
    else
      let new_ref := kzalloc
      let p := { p with ref := Function.update p.ref new_ref ⟨node, 0#32⟩ }
      (link (turnTo p.nodeKey node.toNat) new_ref p.refs_by_node).bind fun t =>
        let desc := freeDesc (if node = binder_context_mgr_node then 0#32 else 1#32)
          ((toList p.refs_by_desc).map fun ref => (p.ref ref).desc)
        let p := { p with
          refs_by_node := rb.insertColor new_ref t
          ref := Function.update p.ref new_ref ⟨node, desc⟩ }
        (link (turnTo p.descKey desc.toNat) new_ref p.refs_by_desc).map fun t =>
          (new_ref, { p with refs_by_desc := rb.insertColor new_ref t })

def binder_delete_ref (p : Refs) (ref : U32) : Refs :=
  { p with
    refs_by_desc := rb.erase ref p.refs_by_desc
    refs_by_node := rb.erase ref p.refs_by_node }

end Refs

/-! ## Histories -/

/-- A process, and the node of the context manager. -/
structure RefSession where
  proc : Refs
  binder_context_mgr_node : U32

inductive RefEvent
  | binder_get_ref_for_node (node kzalloc : U32)
  | binder_delete_ref (ref : U32)
  | setContextManager (node : U32)

/-- The allocator answers with memory that no reference is in, and a reference is deleted once. -/
def refStep (rb : Rebalancing U32) (s : RefSession) : RefEvent → Option RefSession
  | .binder_get_ref_for_node node kzalloc =>
    if kzalloc ∈ toList s.proc.refs_by_node then none
    else (s.proc.binder_get_ref_for_node rb s.binder_context_mgr_node node kzalloc).map fun r =>
      { s with proc := r.2 }
  | .binder_delete_ref ref =>
    if ref ∈ toList s.proc.refs_by_node then
      some { s with proc := s.proc.binder_delete_ref rb ref }
    else none
  | .setContextManager node => some { s with binder_context_mgr_node := node }

/-- A process that has just opened the driver. -/
def RefSession.new (ref : U32 → BinderRef) (binder_context_mgr_node : U32) : RefSession :=
  ⟨⟨ref, .nil, .nil⟩, binder_context_mgr_node⟩

/-! ## What is to hold -/

/-- The numbers increase strictly, as do the nodes, and both trees have the same references. -/
structure Refs.InStep (p : Refs) : Prop where
  descs : Increasing p.descKey (toList p.refs_by_desc)
  nodes : Increasing p.nodeKey (toList p.refs_by_node)
  same : (toList p.refs_by_desc).Perm (toList p.refs_by_node)

/-- The numbers that a new reference to `node` may take. -/
def Refs.free (p : Refs) (binder_context_mgr_node node : U32) : Set ℕ :=
  {d | (if node = binder_context_mgr_node then 0 else 1) ≤ d ∧
    ∀ ref ∈ toList p.refs_by_desc, p.descKey ref ≠ d}

/-- `new_ref` is a new reference to `node`, of the least number that is free, and all others are as
they were. -/
structure Refs.Added (p : Refs) (binder_context_mgr_node node new_ref : U32) (p' : Refs) : Prop where
  toNode : (p'.ref new_ref).node = node
  desc : IsLeast (p.free binder_context_mgr_node node) (p'.descKey new_ref)
  others : ∀ ref, ref ≠ new_ref → p'.ref ref = p.ref ref
  refs : (toList p'.refs_by_node).Perm (new_ref :: toList p.refs_by_node)

/-- What `binder_get_ref_for_node` is to return: the reference to the node, or else a new one, or
`NULL` where there is no memory for it. -/
structure Refs.Gets (rb : Rebalancing U32) (p : Refs) (binder_context_mgr_node node kzalloc : U32) :
    Prop where
  existing : ∀ ref ∈ toList p.refs_by_node, (p.ref ref).node = node →
    p.binder_get_ref_for_node rb binder_context_mgr_node node kzalloc = some (ref, p)
  noMemory : (∀ ref ∈ toList p.refs_by_node, (p.ref ref).node ≠ node) → kzalloc = 0#32 →
    p.binder_get_ref_for_node rb binder_context_mgr_node node kzalloc = some (0#32, p)
  added : (∀ ref ∈ toList p.refs_by_node, (p.ref ref).node ≠ node) → kzalloc ≠ 0#32 →
    ∃ p', p.binder_get_ref_for_node rb binder_context_mgr_node node kzalloc = some (kzalloc, p') ∧
      p.Added binder_context_mgr_node node kzalloc p'

/-!
## Histories of references

The numbers in use increase along the tree, so that the scan meets the least one
that is free before it meets a greater one in use. Addresses are distinct, hence
there are fewer references than numbers, and the scan does not wrap.
-/

open Foundation Machine Foundation.SearchTree

/-! ## The scan -/

/-- From a number below all in use, the scan ends at the first that is not. -/
theorem freeDesc_spec {desc : U32} {ds : List U32} (hinc : Increasing BitVec.toNat ds)
    (hlow : ∀ d ∈ ds, desc.toNat ≤ d.toNat) (hroom : desc.toNat + ds.length < 2 ^ 32) :
    desc.toNat ≤ (freeDesc desc ds).toNat ∧ (∀ d ∈ ds, d.toNat ≠ (freeDesc desc ds).toNat) ∧
      ∀ e, desc.toNat ≤ e → e < (freeDesc desc ds).toNat → ∃ d ∈ ds, d.toNat = e := by
  induction ds generalizing desc with
  | nil => exact ⟨le_refl _, nofun, fun e hle hlt => absurd hlt hle.not_gt⟩
  | cons d ds ih =>
    obtain ⟨hd, hinc⟩ := List.pairwise_cons.mp hinc
    rw [freeDesc]
    split_ifs with hgap
    · refine ⟨le_refl _, ?_, fun e hle hlt => absurd hlt hle.not_gt⟩
      intro x hx
      rcases List.mem_cons.mp hx with rfl | hx
      · exact (BitVec.lt_def.mp hgap).ne'
      · exact ((BitVec.lt_def.mp hgap).trans (hd x hx)).ne'
    · have heq : d.toNat = desc.toNat :=
        le_antisymm (BitVec.le_def.mp (BitVec.not_lt.mp hgap)) (hlow d List.mem_cons_self)
      rw [List.length_cons] at hroom
      have hsucc : (d + 1#32).toNat = d.toNat + 1 := by
        rw [BitVec.toNat_add, BitVec.toNat_ofNat, Nat.mod_eq_of_lt]
        all_goals omega
      obtain ⟨hle, hfree, hused⟩ := @ih (d + 1#32) hinc
        (fun x hx => hsucc ▸ hd x hx) (by omega)
      refine ⟨by omega, ?_, ?_⟩
      · intro x hx
        rcases List.mem_cons.mp hx with rfl | hx
        · omega
        · exact hfree x hx
      · intro e hge hlt
        rcases Nat.eq_or_lt_of_le hge with rfl | hgt
        · exact ⟨d, List.mem_cons_self, heq⟩
        · obtain ⟨x, hx, hxe⟩ := hused e (by omega) hlt
          exact ⟨x, List.mem_cons_of_mem _ hx, hxe⟩

/-- From 0 or 1, the scan ends at the least number that is free. -/
theorem freeDesc_isLeast {start : U32} {ds : List U32} (hstart : start.toNat ≤ 1)
    (hinc : Increasing BitVec.toNat ds) (hroom : ds.length + 2 ≤ 2 ^ 32) :
    IsLeast {e | start.toNat ≤ e ∧ ∀ d ∈ ds, d.toNat ≠ e} (freeDesc start ds).toNat := by
  have hspec (ds' : List U32) (hinc : Increasing BitVec.toNat ds')
      (hlow : ∀ d ∈ ds', start.toNat ≤ d.toNat) (hroom : ds'.length + 2 ≤ 2 ^ 32) :
      IsLeast {e | start.toNat ≤ e ∧ ∀ d ∈ ds', d.toNat ≠ e} (freeDesc start ds').toNat := by
    obtain ⟨hle, hfree, hused⟩ := freeDesc_spec hinc hlow (by omega)
    refine ⟨⟨hle, hfree⟩, ?_⟩
    rintro e ⟨hge, hne⟩
    by_contra hlt
    obtain ⟨d, hd, hde⟩ := hused e hge (not_le.mp hlt)
    exact hne d hd hde
  cases ds with
  | nil => exact hspec [] hinc nofun hroom
  | cons d ds =>
    obtain ⟨hd, hrest⟩ := List.pairwise_cons.mp hinc
    by_cases hlow : start.toNat ≤ d.toNat
    · refine hspec _ hinc ?_ hroom
      intro x hx
      rcases List.mem_cons.mp hx with rfl | hx
      · exact hlow
      · exact hlow.trans (hd x hx).le
    · -- the number 0 is in use, and the scan starts at 1
      have hzero : d.toNat = 0 := by omega
      have hone : start.toNat = 1 := by omega
      have hskip : freeDesc start (d :: ds) = freeDesc start ds := by
        have hnot : ¬ start < d := fun hlt => by
          have := BitVec.lt_def.mp hlt
          omega
        rw [freeDesc, if_neg hnot]
        congr 1
        apply BitVec.eq_of_toNat_eq
        rw [BitVec.toNat_add, hzero, hone]
        rfl
      rw [List.length_cons] at hroom
      obtain ⟨⟨hle, hfree⟩, hleast⟩ := hspec ds hrest (fun x hx => by have := hd x hx; omega)
        (by omega)
      rw [hskip]
      refine ⟨⟨hle, ?_⟩, fun e he => hleast ⟨he.1, fun x hx => he.2 x (List.mem_cons_of_mem _ hx)⟩⟩
      intro x hx
      rcases List.mem_cons.mp hx with rfl | hx
      · omega
      · exact hfree x hx

/-- Distinct addresses, of which `NULL` and that of some other memory are not among them. -/
theorem addresses_room {refs : List U32} (hnodup : refs.Nodup) (hnull : 0#32 ∉ refs) {new : U32}
    (hnew : new ∉ refs) (hne : new ≠ 0#32) : refs.length + 2 ≤ 2 ^ 32 := by
  have hall : (new :: 0#32 :: refs).Nodup := by
    refine List.nodup_cons.mpr ⟨?_, List.nodup_cons.mpr ⟨hnull, hnodup⟩⟩
    intro hmem
    rcases List.mem_cons.mp hmem with h | h
    · exact hne h
    · exact hnew h
  have hcard := List.Nodup.length_le_card
    (hall.map (f := BitVec.toFin) fun _ _ => BitVec.eq_of_toFin_eq)
  rwa [List.length_map, Fintype.card_fin] at hcard

/-! ## One call -/

theorem increasing_congr {key key' : U32 → ℕ} {refs : List U32} (h : Increasing key refs)
    (hsame : ∀ ref ∈ refs, key' ref = key ref) : Increasing key' refs := by
  refine h.imp_of_mem fun {x y} hx hy hlt => ?_
  rwa [hsame x hx, hsame y hy]

namespace Refs

/-- The references are in step, and none of them is `NULL`. -/
structure Inv (p : Refs) : Prop where
  inStep : p.InStep
  null : 0#32 ∉ toList p.refs_by_node

variable {p : Refs} {node kzalloc : U32} (rb : Rebalancing U32) (binder_context_mgr_node : U32)

/-- The search finds the reference to a node exactly when there is one. -/
theorem find_node (h : p.InStep) (ref : U32) :
    find (turnTo p.nodeKey node.toNat) p.refs_by_node = some ref ↔
      ref ∈ toList p.refs_by_node ∧ (p.ref ref).node = node := by
  rw [find_eq_some_iff h.nodes, nodeKey, ← BitVec.toNat_eq]

/-- The scan of the numbers in use gives the least one that is free. -/
theorem Inv.least_free (h : Inv p) (node : U32) (hfresh : kzalloc ∉ toList p.refs_by_node)
    (hne : kzalloc ≠ 0#32) :
    IsLeast (p.free binder_context_mgr_node node)
      (freeDesc (if node = binder_context_mgr_node then 0#32 else 1#32)
        ((toList p.refs_by_desc).map fun ref => (p.ref ref).desc)).toNat := by
  obtain ⟨⟨hdescs, hnodes, hsame⟩, hnull⟩ := h
  have hroom := addresses_room hnodes.nodup_map.of_map hnull hfresh hne
  rw [← hsame.length_eq, ← List.length_map (fun ref => (p.ref ref).desc)] at hroom
  have hstart : (if node = binder_context_mgr_node then 0#32 else 1#32).toNat =
      if node = binder_context_mgr_node then 0 else 1 := by
    split_ifs <;> rfl
  have hle : (if node = binder_context_mgr_node then 0#32 else 1#32).toNat ≤ 1 := by
    rw [hstart]
    split_ifs
    · exact Nat.zero_le 1
    · exact le_refl 1
  have hleast := freeDesc_isLeast hle (List.pairwise_map.mpr hdescs) hroom
  rw [hstart] at hleast
  have hset : p.free binder_context_mgr_node node =
      {e | (if node = binder_context_mgr_node then 0 else 1) ≤ e ∧
        ∀ d ∈ (toList p.refs_by_desc).map fun ref => (p.ref ref).desc, d.toNat ≠ e} := by
    refine Set.ext fun e => and_congr_right fun _ => ?_
    rw [List.forall_mem_map]
    rfl
  rwa [hset]

/-- Linking a new reference into a tree by a key of which the old references keep theirs. -/
theorem linked {t : BinaryTree U32} {key : U32 → ℕ} (key' : U32 → ℕ) (hinc : Increasing key (toList t))
    (hfresh : kzalloc ∉ toList t) (hsame : ∀ ref, ref ≠ kzalloc → key' ref = key ref)
    (hnew : ∀ ref ∈ toList t, key ref ≠ key' kzalloc) :
    ∃ t', link (turnTo key' (key' kzalloc)) kzalloc t = some t' ∧
      Increasing key' (toList t') ∧ (toList t').Perm (kzalloc :: toList t) := by
  have hold (ref : U32) (href : ref ∈ toList t) : key' ref = key ref :=
    hsame ref fun heq => hfresh (heq ▸ href)
  exact Increasing.link (increasing_congr hinc hold) fun ref href => by
    rw [hold ref href]
    exact hnew ref href

/-- A new reference is linked into both trees. -/
theorem Inv.add (h : Inv p) (hnew : ∀ ref ∈ toList p.refs_by_node, (p.ref ref).node ≠ node)
    (hfresh : kzalloc ∉ toList p.refs_by_node) (hne : kzalloc ≠ 0#32) :
    ∃ p', p.binder_get_ref_for_node rb binder_context_mgr_node node kzalloc = some (kzalloc, p') ∧
      p.Added binder_context_mgr_node node kzalloc p' ∧ Inv p' := by
  have hleast := h.least_free binder_context_mgr_node node hfresh hne
  obtain ⟨⟨hdescs, hnodes, hsame⟩, hnull⟩ := h
  have hfresh' : kzalloc ∉ toList p.refs_by_desc := fun hmem => hfresh (hsame.mem_iff.mp hmem)
  have hfind : find (turnTo p.nodeKey node.toNat) p.refs_by_node = none := by
    refine Option.eq_none_iff_forall_ne_some.mpr fun ref href => ?_
    obtain ⟨hmem, hnode⟩ := (find_node ⟨hdescs, hnodes, hsame⟩ ref).mp href
    exact hnew ref hmem hnode
  -- the number is computed before it is written
  have hused : ((toList p.refs_by_desc).map fun ref =>
      (Function.update p.ref kzalloc ⟨node, 0#32⟩ ref).desc) =
        (toList p.refs_by_desc).map fun ref => (p.ref ref).desc := by
    refine List.map_congr_left fun ref href => ?_
    have hother : ref ≠ kzalloc := fun heq => hfresh' (heq ▸ href)
    rw [Function.update_of_ne hother]
  generalize hdesc : freeDesc (if node = binder_context_mgr_node then 0#32 else 1#32)
    ((toList p.refs_by_desc).map fun ref => (p.ref ref).desc) = desc at hleast
  let ref₁ := Function.update p.ref kzalloc ⟨node, 0#32⟩
  let ref₂ := Function.update ref₁ kzalloc ⟨node, desc⟩
  have hself₁ : ref₁ kzalloc = ⟨node, 0#32⟩ := Function.update_self _ _ _
  have hother₁ (ref : U32) (href : ref ≠ kzalloc) : ref₁ ref = p.ref ref :=
    Function.update_of_ne href _ _
  have hself₂ : ref₂ kzalloc = ⟨node, desc⟩ := Function.update_self _ _ _
  have hother₂ (ref : U32) (href : ref ≠ kzalloc) : ref₂ ref = p.ref ref :=
    (Function.update_of_ne href _ _).trans (hother₁ ref href)
  obtain ⟨t₁, hlink₁, hinc₁, hperm₁⟩ := linked (fun ref => (ref₁ ref).node.toNat) hnodes
    hfresh (fun ref href => by rw [hother₁ ref href]; rfl) fun ref href heq => by
      rw [hself₁] at heq
      exact hnew ref href (BitVec.eq_of_toNat_eq heq)
  obtain ⟨t₂, hlink₂, hinc₂, hperm₂⟩ := linked (fun ref => (ref₂ ref).desc.toNat) hdescs
    hfresh' (fun ref href => by rw [hother₂ ref href]; rfl) fun ref href heq => by
      rw [hself₂] at heq
      exact hleast.1.2 ref href heq
  rw [hself₁] at hlink₁
  rw [hself₂] at hlink₂
  have hnodes₂ : Increasing (fun ref => (ref₂ ref).node.toNat) (toList t₁) := by
    refine increasing_congr hinc₁ fun ref _ => ?_
    by_cases href : ref = kzalloc
    · rw [href, hself₂, hself₁]
    · rw [hother₂ ref href, hother₁ ref href]
  refine ⟨⟨ref₂, rb.insertColor kzalloc t₂, rb.insertColor kzalloc t₁⟩, ?_, ⟨?_, ?_, hother₂, ?_⟩,
    ⟨⟨?_, ?_, ?_⟩, ?_⟩⟩
  · rw [binder_get_ref_for_node, hfind]
    dsimp only
    rw [if_neg hne, hused, hdesc]
    exact Option.bind_eq_some_iff.mpr ⟨t₁, hlink₁, congrArg (Option.map _) hlink₂⟩
  · exact congrArg BinderRef.node hself₂
  · have hkey : (ref₂ kzalloc).desc.toNat = desc.toNat := by rw [hself₂]
    exact (congrArg (IsLeast _) hkey).mpr hleast
  · rwa [rb.insertColor_toList]
  · rwa [rb.insertColor_toList]
  · rwa [rb.insertColor_toList]
  · rw [rb.insertColor_toList, rb.insertColor_toList]
    exact hperm₂.trans ((hsame.cons kzalloc).trans hperm₁.symm)
  · rw [rb.insertColor_toList, hperm₁.mem_iff, List.mem_cons]
    rintro (heq | hmem)
    · exact hne heq.symm
    · exact hnull hmem

theorem Inv.delete (h : Inv p) (ref : U32) : Inv (p.binder_delete_ref rb ref) := by
  obtain ⟨⟨hdescs, hnodes, hsame⟩, hnull⟩ := h
  refine ⟨⟨?_, ?_, ?_⟩, ?_⟩
  · rw [binder_delete_ref, rb.erase_toList]
    exact hdescs.sublist List.erase_sublist
  · rw [binder_delete_ref, rb.erase_toList]
    exact hnodes.sublist List.erase_sublist
  · rw [binder_delete_ref, rb.erase_toList, rb.erase_toList]
    exact hsame.erase ref
  · rw [binder_delete_ref, rb.erase_toList]
    exact fun hmem => hnull (List.mem_of_mem_erase hmem)

/-- A deleted reference is in the trees no longer, and its number is free. -/
theorem Inv.deleted (h : Inv p) {ref : U32} (href : ref ∈ toList p.refs_by_desc) :
    (∀ r, r ∈ toList (p.binder_delete_ref rb ref).refs_by_node ↔
      r ≠ ref ∧ r ∈ toList p.refs_by_node) ∧
    ∀ d, d ∈ (p.binder_delete_ref rb ref).free binder_context_mgr_node node ↔
      d ∈ p.free binder_context_mgr_node node ∨
        (if node = binder_context_mgr_node then 0 else 1) ≤ d ∧ p.descKey ref = d := by
  have hkeys := h.inStep.descs.nodup_map
  have hkey := List.inj_on_of_nodup_map hkeys
  refine ⟨fun r => ?_, fun d => ?_⟩
  · rw [binder_delete_ref, rb.erase_toList]
    exact h.inStep.nodes.nodup_map.of_map.mem_erase_iff
  · have hmem (r : U32) : r ∈ (toList p.refs_by_desc).erase ref ↔ r ≠ ref ∧ r ∈ toList p.refs_by_desc :=
      hkeys.of_map.mem_erase_iff
    have hsame (r : U32) : (p.binder_delete_ref rb ref).descKey r = p.descKey r := rfl
    simp only [free, Set.mem_ofPred_eq, hsame]
    simp only [binder_delete_ref, rb.erase_toList, hmem]
    grind

theorem Inv.gets (h : Inv p) (hfresh : kzalloc ∉ toList p.refs_by_node) :
    p.Gets rb binder_context_mgr_node node kzalloc := by
  refine ⟨fun ref href hnode => ?_, fun hnew hnull => ?_, fun hnew hne => ?_⟩
  · rw [binder_get_ref_for_node, (find_node h.inStep ref).mpr ⟨href, hnode⟩]
  · have hfind : find (turnTo p.nodeKey node.toNat) p.refs_by_node = none := by
      refine Option.eq_none_iff_forall_ne_some.mpr fun ref href => ?_
      obtain ⟨hmem, hnode⟩ := (find_node h.inStep ref).mp href
      exact hnew ref hmem hnode
    rw [binder_get_ref_for_node, hfind]
    exact if_pos hnull
  · obtain ⟨p', hget, hadded, -⟩ := h.add rb binder_context_mgr_node hnew hfresh hne
    exact ⟨p', hget, hadded⟩

/-- Whatever the call returns, the references are in step after it. -/
theorem Inv.get (h : Inv p) (hfresh : kzalloc ∉ toList p.refs_by_node) {ref : U32} {p' : Refs}
    (hget : p.binder_get_ref_for_node rb binder_context_mgr_node node kzalloc = some (ref, p')) :
    Inv p' := by
  by_cases hexists : ∃ ref ∈ toList p.refs_by_node, (p.ref ref).node = node
  · obtain ⟨ref', href', hnode⟩ := hexists
    rw [(h.gets rb binder_context_mgr_node hfresh).existing ref' href' hnode] at hget
    cases hget
    exact h
  · have hnew (ref : U32) (href : ref ∈ toList p.refs_by_node) : (p.ref ref).node ≠ node :=
      fun hnode => hexists ⟨ref, href, hnode⟩
    by_cases hnull : kzalloc = 0#32
    · rw [(h.gets rb binder_context_mgr_node hfresh).noMemory hnew hnull] at hget
      cases hget
      exact h
    · obtain ⟨p'', hadd, -, hinv⟩ := h.add rb binder_context_mgr_node hnew hfresh hnull
      rw [hadd] at hget
      cases hget
      exact hinv

end Refs

/-! ## Every history -/

theorem refStep_inv (rb : Rebalancing U32) (s : RefSession) (e : RefEvent) (s' : RefSession)
    (hstep : refStep rb s e = some s') (h : s.proc.Inv) : s'.proc.Inv := by
  cases e with
  | binder_get_ref_for_node node kzalloc =>
    rw [refStep] at hstep
    split_ifs at hstep with hfresh
    obtain ⟨⟨ref, p'⟩, hget, rfl⟩ := Option.map_eq_some_iff.mp hstep
    exact h.get rb _ hfresh hget
  | binder_delete_ref ref =>
    rw [refStep] at hstep
    split_ifs at hstep
    cases hstep
    exact h.delete rb ref
  | setContextManager node =>
    cases hstep
    exact h

/-- After every history, the trees are in step and the call returns the reference to the node, or a
new one of the least number that is free. -/
theorem binder_get_ref_for_node_run (rb : Rebalancing U32) (ref : U32 → BinderRef)
    (binder_context_mgr_node : U32) (es : List RefEvent) (s : RefSession)
    (hrun : run (refStep rb) (.new ref binder_context_mgr_node) es = some s) :
    s.proc.InStep ∧ ∀ node kzalloc, kzalloc ∉ toList s.proc.refs_by_node →
      s.proc.Gets rb s.binder_context_mgr_node node kzalloc := by
  have hnew : (RefSession.new ref binder_context_mgr_node).proc.Inv :=
    ⟨⟨.nil, .nil, .nil⟩, nofun⟩
  have hinv : s.proc.Inv := run_invariant (I := fun s => s.proc.Inv) (refStep_inv rb) hrun hnew
  exact ⟨hinv.inStep, fun node kzalloc hfresh => hinv.gets rb _ hfresh⟩

/-- Two references, of which the first is deleted: its number is free again. -/
def holeHistory : List RefEvent :=
  [.binder_get_ref_for_node 0x100#32 0x1000#32, .binder_get_ref_for_node 0x200#32 0x2000#32,
    .binder_delete_ref 0x1000#32]

theorem binder_get_ref_for_node_hole :
    ∃ s, run (refStep .plain) (.new (fun _ => ⟨0#32, 0#32⟩) 0#32) holeHistory = some s ∧
      s.proc.InStep ∧ ∀ node kzalloc, kzalloc ∉ toList s.proc.refs_by_node →
        s.proc.Gets .plain s.binder_context_mgr_node node kzalloc := by
  have hsome : (run (refStep .plain) (.new (fun _ => ⟨0#32, 0#32⟩) 0#32) holeHistory).isSome := by
    decide +kernel
  obtain ⟨s, hrun⟩ := Option.isSome_iff_exists.mp hsome
  exact ⟨s, hrun, binder_get_ref_for_node_run .plain (fun _ => ⟨0#32, 0#32⟩) 0#32 holeHistory s hrun⟩

example : (run (refStep .plain) (.new (fun _ => ⟨0#32, 0#32⟩) 0#32) (holeHistory ++
    [.binder_get_ref_for_node 0x300#32 0x3000#32])).map (fun s => s.proc.descKey 0x3000#32) =
      some 1 := by decide +kernel

end AudioFlinger.Driver
