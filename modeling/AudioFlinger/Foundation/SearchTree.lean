import Mathlib.Data.List.Nodup
import Mathlib.Data.List.Perm.Basic
import Mathlib.Data.Tree.Basic
import Mathlib.Order.Lattice
import Mathlib.Tactic.Common

/-!
# Search trees with rebalancing

A node is linked where a descent ends, and the tree is rebalanced. How it is rebalanced is
left to a `Rebalancing`, which keeps the nodes in order. Where the keys increase, a search
finds the node of a key, and linking a new key keeps the order.
-/

namespace AudioFlinger.Foundation.SearchTree

variable {α : Type*}

/-- The nodes in order. -/
def toList : BinaryTree α → List α
  | .nil => []
  | .node x l r => toList l ++ x :: toList r

/-- Where a descent goes at a node. -/
inductive Turn where
  | left
  | right

/-- Link `new` where the descent ends; the descent fails at a node with no turn. -/
def link (turn : α → Option Turn) (new : α) : BinaryTree α → Option (BinaryTree α)
  | .nil => some (.node new .nil .nil)
  | .node x l r => (turn x).bind fun
    | .left => (link turn new l).map fun l => .node x l r
    | .right => (link turn new r).map fun r => .node x l r

/-- Insertion behind the link, and removal, of a balanced tree. -/
structure Rebalancing (α : Type*) [DecidableEq α] where
  insertColor : α → BinaryTree α → BinaryTree α
  erase : α → BinaryTree α → BinaryTree α
  insertColor_toList : ∀ x t, toList (insertColor x t) = toList t
  erase_toList : ∀ x t, toList (erase x t) = (toList t).erase x

variable {turn : α → Option Turn} {t : BinaryTree α}

theorem link_perm (new : α) (hturn : ∀ x ∈ toList t, (turn x).isSome) :
    ∃ t', link turn new t = some t' ∧ (toList t').Perm (new :: toList t) := by
  induction t with
  | nil => exact ⟨_, rfl, List.Perm.refl _⟩
  | node x l r ihl ihr =>
    obtain ⟨way, hway⟩ := Option.isSome_iff_exists.mp (hturn x (by simp [toList]))
    cases way with
    | left =>
      obtain ⟨l', hl', hperm⟩ := ihl fun y hy => hturn y (by simp [toList, hy])
      refine ⟨.node x l' r, by simp [link, hway, hl'], ?_⟩
      simpa [toList] using hperm.append_right (x :: toList r)
    | right =>
      obtain ⟨r', hr', hperm⟩ := ihr fun y hy => hturn y (by simp [toList, hy])
      refine ⟨.node x l r', by simp [link, hway, hr'], ?_⟩
      have hcons := (hperm.cons x).append_left (toList l)
      have hmiddle := @List.perm_middle _ new (toList l ++ [x]) (toList r)
      rw [toList, toList]
      exact hcons.trans (by simpa using hmiddle)

/-! ## Searching by a key -/

/-- The node at which a descent ends before it leaves the tree. -/
def find (turn : α → Option Turn) : BinaryTree α → Option α
  | .nil => none
  | .node x l r => match turn x with
    | some .left => find turn l
    | some .right => find turn r
    | none => some x

section Keys

variable {κ : Type*} [LinearOrder κ] {key : α → κ}

/-- The turns of a search for the key `k`. -/
def turnTo (key : α → κ) (k : κ) (x : α) : Option Turn :=
  if k < key x then some .left else if key x < k then some .right else none

/-- The keys increase strictly. -/
def Increasing (key : α → κ) (xs : List α) : Prop := xs.Pairwise fun x y => key x < key y

theorem Increasing.nodup_map {xs : List α} (h : Increasing key xs) : (xs.map key).Nodup :=
  (List.pairwise_map.mpr h).imp ne_of_lt

/-- What the keys on both sides of a node are. -/
theorem Increasing.node {x : α} {l r : BinaryTree α} (h : Increasing key (toList (.node x l r))) :
    Increasing key (toList l) ∧ Increasing key (toList r) ∧ (∀ y ∈ toList l, key y < key x) ∧
      ∀ y ∈ toList r, key x < key y := by
  obtain ⟨hl, hr, hcross⟩ := List.pairwise_append.mp h
  obtain ⟨hx, hr⟩ := List.pairwise_cons.mp hr
  exact ⟨hl, hr, fun y hy => hcross y hy x List.mem_cons_self, hx⟩

/-- A search in an increasing tree finds the node of the key, if there is one. -/
theorem find_eq_some_iff (h : Increasing key (toList t)) (k : κ) (x : α) :
    find (turnTo key k) t = some x ↔ x ∈ toList t ∧ key x = k := by
  induction t with
  | nil => simp [find, toList]
  | node y l r ihl ihr =>
    obtain ⟨hl, hr, hleft, hright⟩ := h.node
    rw [find, turnTo, toList, List.mem_append, List.mem_cons]
    split_ifs with hlt hgt
    · refine (ihl hl).trans (and_congr_left fun hkey => (or_iff_left ?_).symm)
      rintro (rfl | hx)
      · exact hlt.ne' hkey
      · exact (hlt.trans (hright x hx)).ne' hkey
    · refine (ihr hr).trans (and_congr_left fun hkey => ?_)
      refine ⟨fun hx => .inr (.inr hx), ?_⟩
      rintro (hx | rfl | hx)
      · exact absurd hkey ((hleft x hx).trans hgt).ne
      · exact absurd hkey hgt.ne
      · exact hx
    · have hk : key y = k := le_antisymm (not_lt.mp hlt) (not_lt.mp hgt)
      rw [Option.some_inj]
      refine ⟨fun heq => heq ▸ ⟨.inr (.inl rfl), hk⟩, ?_⟩
      rintro ⟨hx | rfl | hx, hkey⟩
      · exact absurd (hkey.trans hk.symm) (hleft x hx).ne
      · rfl
      · exact absurd (hkey.trans hk.symm) (hright x hx).ne'

/-- A key that is not in an increasing tree is linked between the smaller and the greater ones. -/
theorem link_between {new : α} (h : Increasing key (toList t))
    (hnew : ∀ x ∈ toList t, key x ≠ key new) :
    ∃ t' before after, link (turnTo key (key new)) new t = some t' ∧
      toList t = before ++ after ∧ toList t' = before ++ new :: after ∧
      (∀ x ∈ before, key x < key new) ∧ ∀ x ∈ after, key new < key x := by
  induction t with
  | nil => exact ⟨_, [], [], rfl, rfl, rfl, nofun, nofun⟩
  | node y l r ihl ihr =>
    obtain ⟨hl, hr, hleft, hright⟩ := h.node
    simp only [toList, List.mem_append, List.mem_cons] at hnew
    rcases lt_or_gt_of_ne (hnew y (.inr (.inl rfl))) with hgt | hlt
    · obtain ⟨r', before, after, hlink, hr₁, hr₂, hbefore, hafter⟩ :=
        ihr hr fun x hx => hnew x (.inr (.inr hx))
      refine ⟨.node y l r', toList l ++ y :: before, after, ?_, ?_, ?_, ?_, hafter⟩
      · rw [link, turnTo, if_neg hgt.not_gt, if_pos hgt, Option.bind_some, hlink]
        rfl
      · rw [toList, hr₁, List.append_assoc, List.cons_append]
      · rw [toList, hr₂, List.append_assoc, List.cons_append]
      · intro x hx
        rcases List.mem_append.mp hx with hx | hx
        · exact (hleft x hx).trans hgt
        · rcases List.mem_cons.mp hx with rfl | hx
          · exact hgt
          · exact hbefore x hx
    · obtain ⟨l', before, after, hlink, hl₁, hl₂, hbefore, hafter⟩ :=
        ihl hl fun x hx => hnew x (.inl hx)
      refine ⟨.node y l' r, before, after ++ y :: toList r, ?_, ?_, ?_, hbefore, ?_⟩
      · rw [link, turnTo, if_pos hlt, Option.bind_some, hlink]
        rfl
      · rw [toList, hl₁, List.append_assoc]
      · rw [toList, hl₂, List.append_assoc, List.cons_append]
      · intro x hx
        rcases List.mem_append.mp hx with hx | hx
        · exact hafter x hx
        · rcases List.mem_cons.mp hx with rfl | hx
          · exact hlt
          · exact hlt.trans (hright x hx)

theorem Increasing.link {new : α} (h : Increasing key (toList t))
    (hnew : ∀ x ∈ toList t, key x ≠ key new) :
    ∃ t', SearchTree.link (turnTo key (key new)) new t = some t' ∧ Increasing key (toList t') ∧
      (toList t').Perm (new :: toList t) := by
  obtain ⟨t', before, after, hlink, ht, ht', hbefore, hafter⟩ := link_between h hnew
  refine ⟨t', hlink, ?_, ?_⟩
  · rw [ht] at h
    obtain ⟨hb, ha, hcross⟩ := List.pairwise_append.mp h
    rw [ht']
    refine List.pairwise_append.mpr ⟨hb, List.pairwise_cons.mpr ⟨hafter, ha⟩, ?_⟩
    intro x hx y hy
    rcases List.mem_cons.mp hy with rfl | hy
    · exact hbefore x hx
    · exact hcross x hx y hy
  · rw [ht, ht']
    exact List.perm_middle

end Keys

/-- A tree of right children only. -/
def ofList : List α → BinaryTree α
  | [] => .nil
  | x :: xs => .node x .nil (ofList xs)

@[simp] theorem toList_ofList (xs : List α) : toList (ofList xs) = xs := by
  induction xs with
  | nil => rfl
  | cons x xs ih => rw [ofList, toList, ih, toList, List.nil_append]

/-- No balancing on insertion; a removal rebuilds the tree. -/
def Rebalancing.plain [DecidableEq α] : Rebalancing α where
  insertColor := fun _ t => t
  erase := fun x t => ofList ((toList t).erase x)
  insertColor_toList := fun _ _ => rfl
  erase_toList := fun _ _ => toList_ofList _

end AudioFlinger.Foundation.SearchTree
