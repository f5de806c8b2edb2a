/-
  The tree of nodes and the ways through it (`reiser4_tree_neig_place`, `reiser4_tree_ltrt_node`).

  A loaded node knows its parent place, the parent's, and so on to the root, so here a node in hand is
  its block number with that path.  The neighbour of a node is found by going up the path to the
  first place that has an item on the wanted side and down again on that side as many levels; when an
  extent stands there instead of a pointer, the node has no neighbour.

  What a tree holds is the sequence of its non-branch items from left to right, each with its place in
  its node: `Tree.slots`.  `beforePath` and `afterPath` are what lies left and right of a node, and
  `Reaches.slots_eq` cuts the sequence at any reachable node.  All statements about walks and
  searches are statements about these cuts.
-/
import Reiser4.Lib.Run
import Reiser4.Tree.Node

namespace Reiser4

open Reiser4.Lib

/-- `reiser4_tree_t`: the formatted nodes by block number, the root and the height the format
    records, and the format's block size and key policy; without a root the tree is fresh. -/
structure Tree where
  store : Nat → Option NodeImg
  root : Option Nat
  height : Nat
  blksize : Nat
  pol : KeyPol

/-- A node in hand: its block number, and the parent places (`node->p`) from its own up to the
    root's. -/
structure NodeRef where
  blk : Nat
  up : List (Nat × Nat)
  deriving DecidableEq, Repr

/-- `reiser4_place_t`; a fresh tree has places without a node. -/
structure Place where
  node : Option NodeRef
  pos : Pos
  deriving DecidableEq, Repr

/-- `DIR_LEFT`, `DIR_RIGHT`. -/
inductive Dir
  | left | right
  deriving DecidableEq, Repr

namespace Tree

/-- The items of a node; none for a block that is not a node. -/
def items (t : Tree) (blk : Nat) : List Item :=
  match t.store blk with
  | none => []
  | some n => n.items

/-- `reiser4_node_get_level`. -/
def level (t : Tree) (blk : Nat) : Nat :=
  match t.store blk with
  | none => 0
  | some n => n.level

/-- `reiser4_node_leftmost_key`. -/
def leftmostKey (t : Tree) (blk : Nat) : Option Key := (t.items blk).head?.map Item.key

/-! ## Neighbours -/

/-- `reiser4_tree_neig_place`: up to the first parent place with an item on that side; the place of
    that item and the number of levels gone up. -/
def neigPlace (t : Tree) (dir : Dir) : List (Nat × Nat) → Nat → Option (NodeRef × Nat × Nat)
  | [], _ => none
  | (blk, item) :: up, level =>
    match dir with
    | .left =>
      if 0 < item then some (⟨blk, up⟩, item - 1, level + 1) else neigPlace t dir up (level + 1)
    | .right =>
      if item + 1 < (t.items blk).length then some (⟨blk, up⟩, item + 1, level + 1)
      else neigPlace t dir up (level + 1)

/-- `reiser4_tree_child_node`: the node below a place, when a branch item stands there. -/
def childNode (t : Tree) (node : NodeRef) (item : Nat) : Option NodeRef :=
  match (t.items node.blk)[item]? with
  | none => none
  | some it =>
    match it.downLink with
    | none => none
    | some blk => if (t.store blk).isSome then some ⟨blk, (node.blk, item) :: node.up⟩ else none

/-- The loop of `reiser4_tree_ltrt_node` that goes down, on the side the node was left on. -/
def ltrtDown (t : Tree) (dir : Dir) : Nat → NodeRef → Nat → Option NodeRef
  | 0, node, _ => some node
  | level + 1, node, item =>
    match t.childNode node item with
    | none => none
    | some child =>
      ltrtDown t dir level child
        (match dir with
        | .left => (t.items child.blk).length - 1
        | .right => 0)

/-- `reiser4_tree_ltrt_node`. -/
def ltrtNode (t : Tree) (dir : Dir) (node : NodeRef) : Option NodeRef :=
  match t.neigPlace dir node.up 0 with
  | none => none
  | some (place, item, level) => t.ltrtDown dir level place item

/-! ## What the tree holds -/

/-- A non-branch item with its place in its node. -/
abbrev Slot := Item × Nat

/-- A branch item stands for what is below it, any other for itself. -/
def expand (below : Nat → List Slot) (s : Slot) : List Slot :=
  match s.1.downLink with
  | none => [s]
  | some blk => below blk

/-- The items at or below a node of the given height, from left to right. -/
def slotsBelow (t : Tree) : Nat → Nat → List Slot
  | 0, _ => []
  | h + 1, blk => (t.items blk).zipIdx.flatMap (expand (slotsBelow t h))

/-- All items of the tree. -/
def slots (t : Tree) : List Slot :=
  match t.root with
  | none => []
  | some r => t.slotsBelow t.height r

/-- The items left of a node of height `h` with the parent places `up`. -/
def beforePath (t : Tree) : Nat → List (Nat × Nat) → List Slot
  | _, [] => []
  | h, (blk, i) :: up =>
    beforePath t (h + 1) up ++ ((t.items blk).zipIdx.take i).flatMap (expand (t.slotsBelow h))

/-- The items right of it. -/
def afterPath (t : Tree) : Nat → List (Nat × Nat) → List Slot
  | _, [] => []
  | h, (blk, i) :: up =>
    ((t.items blk).zipIdx.drop (i + 1)).flatMap (expand (t.slotsBelow h)) ++ afterPath t (h + 1) up

/-- The items left of place `i` of a node of height `h`. -/
def beforeItem (t : Tree) (h : Nat) (node : NodeRef) (i : Nat) : List Slot :=
  t.beforePath h node.up ++
    ((t.items node.blk).zipIdx.take i).flatMap (expand (t.slotsBelow (h - 1)))

/-- The items from that place on. -/
def afterItem (t : Tree) (h : Nat) (node : NodeRef) (i : Nat) : List Slot :=
  ((t.items node.blk).zipIdx.drop i).flatMap (expand (t.slotsBelow (h - 1))) ++
    t.afterPath h node.up

/-- The key ranges of the units of some items. -/
def unitsOf (t : Tree) (ss : List Slot) : List URange := ss.flatMap fun s => s.1.ranges t.blksize

/-- The key ranges of all units. -/
def units (t : Tree) : List URange := t.unitsOf t.slots

/-! ## The search-tree invariant -/

/-- The subtree is of height `h` with levels as they should be, pointers carry the leftmost keys of
    the nodes they point to, and items other than pointers are on the leaf level, except for
    extents, which are on the level above. -/
def Sound (t : Tree) : Nat → Nat → Prop
  | 0, _ => False
  | h + 1, blk => ∃ n, t.store blk = some n ∧ n.level = h + 1 ∧ ∀ it ∈ n.items,
      match it.downLink with
      | some child => t.leftmostKey child = some it.key ∧ Sound t h child
      | none => it.WF t.pol t.blksize ∧ (h = 0 ∨ (h = 1 ∧ it.plug = .extent40))

/-- The search-tree invariant: the tree below the root is sound and its units are in key order. -/
structure WF (t : Tree) : Prop where
  blksize : 1 < t.blksize
  sound : ∀ r, t.root = some r → t.Sound t.height r
  ordered : t.units.Pairwise URange.Before

/-- A node that is reached from the root, with its height. -/
inductive Reaches (t : Tree) : Nat → NodeRef → Prop
  | root {r : Nat} (hr : t.root = some r) : Reaches t t.height ⟨r, []⟩
  | child {h : Nat} {node : NodeRef} {i : Nat} {it : Item} {blk : Nat} (hp : Reaches t (h + 1) node)
      (hit : (t.items node.blk)[i]? = some it) (hdown : it.downLink = some blk) :
      Reaches t h ⟨blk, (node.blk, i) :: node.up⟩

/-! ## Facts about sound nodes -/

variable {t : Tree}

theorem Sound.node {h blk : Nat} (hs : t.Sound (h + 1) blk) : ∃ n, t.store blk = some n ∧
    n.level = h + 1 ∧ n.items = t.items blk := by
  obtain ⟨n, hn, hl, -⟩ := hs
  exact ⟨n, hn, hl, by simp [items, hn]⟩

theorem Sound.level_eq {h blk : Nat} (hs : t.Sound (h + 1) blk) : t.level blk = h + 1 := by
  obtain ⟨n, hn, hl, -⟩ := hs
  simp [level, hn, hl]

theorem Sound.item {h blk : Nat} (hs : t.Sound (h + 1) blk) {it : Item} (hit : it ∈ t.items blk) :
    match it.downLink with
    | some child => t.leftmostKey child = some it.key ∧ t.Sound h child
    | none => it.WF t.pol t.blksize ∧ (h = 0 ∨ (h = 1 ∧ it.plug = .extent40)) := by
  obtain ⟨n, hn, -, hall⟩ := hs
  have hitems : t.items blk = n.items := by simp [items, hn]
  rw [hitems] at hit
  exact hall it hit

theorem Sound.child {h blk c : Nat} (hs : t.Sound (h + 1) blk) {it : Item}
    (hit : it ∈ t.items blk) (hc : it.downLink = some c) :
    t.leftmostKey c = some it.key ∧ t.Sound h c := by
  have := hs.item hit
  rw [hc] at this
  exact this

theorem Sound.plain {h blk : Nat} (hs : t.Sound (h + 1) blk) {it : Item}
    (hit : it ∈ t.items blk) (hc : it.downLink = none) :
    it.WF t.pol t.blksize ∧ (h = 0 ∨ (h = 1 ∧ it.plug = .extent40)) := by
  have := hs.item hit
  rw [hc] at this
  exact this

theorem Sound.pos {h blk : Nat} (hs : t.Sound h blk) : 0 < h := by
  cases h with
  | zero => exact absurd hs id
  | succ h => exact Nat.succ_pos h

/-- A node that a pointer names has an item, with the key of the pointer. -/
theorem leftmostKey_eq_some {blk : Nat} {k : Key} (h : t.leftmostKey blk = some k) :
    ∃ it, (t.items blk)[0]? = some it ∧ it.key = k := by
  unfold leftmostKey at h
  cases hi : t.items blk with
  | nil => simp [hi] at h
  | cons it its =>
    rw [hi] at h
    exact ⟨it, rfl, by simpa using h⟩

theorem Sound.isSome {h blk : Nat} (hs : t.Sound h blk) : (t.store blk).isSome := by
  cases h with
  | zero => exact absurd hs id
  | succ h =>
    obtain ⟨n, hn, -⟩ := hs
    simp [hn]

theorem Reaches.sound (hw : t.WF) {h : Nat} {node : NodeRef} (hr : t.Reaches h node) :
    t.Sound h node.blk := by
  induction hr with
  | root hr => exact hw.sound _ hr
  | child hp hit hdown ih => exact (ih.child (List.mem_of_getElem? hit) hdown).2

theorem expand_of_none (f : Nat → List Slot) {s : Slot} (h : s.1.downLink = none) :
    expand f s = [s] := by
  simp [expand, h]

theorem expand_of_some (f : Nat → List Slot) {s : Slot} {blk : Nat} (h : s.1.downLink = some blk) :
    expand f s = f blk := by
  simp [expand, h]

theorem zipIdx_getElem? {its : List Item} {i : Nat} {it : Item} (h : its[i]? = some it) :
    its.zipIdx[i]? = some (it, i) := by
  simp [h]

/-- One more item is left of the next place. -/
theorem flatMap_take_succ {its : List Item} {i : Nat} {it : Item} (h : its[i]? = some it)
    (f : Nat → List Slot) : (its.zipIdx.take (i + 1)).flatMap (expand f) =
      (its.zipIdx.take i).flatMap (expand f) ++ expand f (it, i) := by
  rw [List.take_add_one, zipIdx_getElem? h]
  simp

theorem flatMap_drop {its : List Item} {i : Nat} {it : Item} (h : its[i]? = some it)
    (f : Nat → List Slot) : (its.zipIdx.drop i).flatMap (expand f) =
      expand f (it, i) ++ (its.zipIdx.drop (i + 1)).flatMap (expand f) := by
  obtain ⟨hi, heq⟩ := List.getElem?_eq_some_iff.mp (zipIdx_getElem? h)
  rw [List.drop_eq_getElem_cons hi, heq, List.flatMap_cons]

theorem afterPath_child (h : Nat) (node : NodeRef) (i : Nat) :
    t.afterPath h ((node.blk, i) :: node.up) = t.afterItem (h + 1) node (i + 1) := rfl

theorem beforeItem_succ {h : Nat} {node : NodeRef} {i : Nat} {it : Item}
    (hit : (t.items node.blk)[i]? = some it) : t.beforeItem h node (i + 1) =
      t.beforeItem h node i ++ expand (t.slotsBelow (h - 1)) (it, i) := by
  unfold beforeItem
  rw [flatMap_take_succ hit, List.append_assoc]

theorem afterItem_eq {h : Nat} {node : NodeRef} {i : Nat} {it : Item}
    (hit : (t.items node.blk)[i]? = some it) : t.afterItem h node i =
      expand (t.slotsBelow (h - 1)) (it, i) ++ t.afterItem h node (i + 1) := by
  unfold afterItem
  rw [flatMap_drop hit, List.append_assoc]

theorem beforeItem_all (h : Nat) (node : NodeRef) {i : Nat} (hi : (t.items node.blk).length ≤ i) :
    t.beforeItem (h + 1) node i = t.beforePath (h + 1) node.up ++ t.slotsBelow (h + 1) node.blk := by
  unfold beforeItem
  rw [List.take_of_length_le (by simpa using hi)]
  rfl

theorem afterItem_all (h : Nat) (node : NodeRef) {i : Nat} (hi : (t.items node.blk).length ≤ i) :
    t.afterItem h node i = t.afterPath h node.up := by
  unfold afterItem
  rw [List.drop_eq_nil_of_le (by simpa using hi)]
  rfl

theorem afterItem_zero (h : Nat) (node : NodeRef) :
    t.afterItem (h + 1) node 0 = t.slotsBelow (h + 1) node.blk ++ t.afterPath (h + 1) node.up := rfl

/-- What is before a place and what is from it on make up what is around and in the node. -/
theorem beforeItem_append_afterItem (h : Nat) (node : NodeRef) (i : Nat) :
    t.beforeItem (h + 1) node i ++ t.afterItem (h + 1) node i =
      t.beforePath (h + 1) node.up ++ t.slotsBelow (h + 1) node.blk ++
        t.afterPath (h + 1) node.up := by
  unfold beforeItem afterItem
  rw [Nat.add_sub_cancel, slotsBelow]
  rw [← List.append_assoc, List.append_assoc (t.beforePath (h + 1) node.up),
    ← List.flatMap_append, List.take_append_drop]

/-- **Cutting the tree at a node**: the items left of a reachable node, in it, and right of it. -/
theorem Reaches.slots_eq {h : Nat} {node : NodeRef} (hr : t.Reaches h node) :
    t.slots = t.beforePath h node.up ++ t.slotsBelow h node.blk ++ t.afterPath h node.up := by
  induction hr with
  | root hr => simp [slots, hr, beforePath, afterPath]
  | @child h node i it blk hp hit hdown ih =>
    rw [ih, ← beforeItem_append_afterItem h node i, afterItem_eq hit,
      expand_of_some _ (s := (it, i)) hdown, ← List.append_assoc]
    rfl

/-- … and at any place of it. -/
theorem Reaches.slots_eq_place {h : Nat} {node : NodeRef} (hr : t.Reaches (h + 1) node) (i : Nat) :
    t.slots = t.beforeItem (h + 1) node i ++ t.afterItem (h + 1) node i := by
  rw [hr.slots_eq, beforeItem_append_afterItem]

/-! ## The left neighbour -/

/-- The place left of a node that `reiser4_tree_neig_place` finds has left of it, itself included,
    what is left of the node; when there is none the node is at the left edge. -/
theorem neigPlace_left_spec {h : Nat} {node : NodeRef} (hr : t.Reaches h node) : ∀ lvl : Nat,
    match t.neigPlace .left node.up lvl with
    | none => t.beforePath h node.up = []
    | some (p, item, lvl') => ∃ n, lvl' = lvl + (n + 1) ∧ t.Reaches (h + (n + 1)) p ∧
        item < (t.items p.blk).length ∧
        t.beforeItem (h + (n + 1)) p (item + 1) = t.beforePath h node.up := by
  induction hr with
  | root hr =>
    intro lvl
    rfl
  | @child h node i it blk hp hit hdown ih =>
    intro lvl
    have hi : i < (t.items node.blk).length := (List.getElem?_eq_some_iff.mp hit).1
    simp only [neigPlace]
    by_cases h0 : 0 < i
    · rw [if_pos h0]
      refine ⟨0, rfl, hp, by show i - 1 < (t.items node.blk).length; omega, ?_⟩
      rw [Nat.sub_add_cancel h0]
      rfl
    · -- the first item of its parent: what is left of the parent is left of the node
      rw [if_neg h0]
      have hi0 : i = 0 := by omega
      have hrest := ih (lvl + 1)
      have hpath : t.beforePath h ((node.blk, i) :: node.up) = t.beforePath (h + 1) node.up := by
        simp [beforePath, hi0]
      split at hrest
      · rw [hpath]
        exact hrest
      · next p item lvl' hp' =>
        obtain ⟨n, hlvl, hreach, hlen, heq⟩ := hrest
        have hh : h + 1 + (n + 1) = h + (n + 1 + 1) := by omega
        rw [hh] at hreach heq
        exact ⟨n + 1, by omega, hreach, hlen, heq.trans hpath.symm⟩

/-- Going down on the right side from a place: the node arrived at ends where the place ends. -/
theorem ltrtDown_left_spec (hw : t.WF) (h : Nat) : ∀ (n : Nat) (node : NodeRef) (i : Nat),
    t.Reaches (h + 1 + n) node → i < (t.items node.blk).length →
    (n = 0 → i + 1 = (t.items node.blk).length) →
    match t.ltrtDown .left n node i with
    | some l => t.Reaches (h + 1) l ∧ 0 < (t.items l.blk).length ∧
        t.beforePath (h + 1) l.up ++ t.slotsBelow (h + 1) l.blk =
          t.beforeItem (h + 1 + n) node (i + 1)
    | none => ∃ pre e, t.beforeItem (h + 1 + n) node (i + 1) = pre ++ [e] ∧
        e.1.plug = .extent40 ∧ e.1.WF t.pol t.blksize := by
  intro n
  induction n with
  | zero =>
    intro node i hr hi hlast
    rw [ltrtDown]
    exact ⟨hr, by omega, (beforeItem_all h node (by omega)).symm⟩
  | succ n ih =>
    intro node i hr hi hlast
    have hs : t.Sound (h + 1 + n + 1) node.blk := hr.sound hw
    have hit := List.getElem?_eq_getElem hi
    have hmem := List.mem_of_getElem? hit
    rw [beforeItem_succ hit]
    simp only [ltrtDown, childNode, hit]
    cases hd : (t.items node.blk)[i].downLink with
    | none =>
      -- an extent in the way: no node at this level
      obtain ⟨hwf, hplug⟩ := hs.plain hmem hd
      rw [expand_of_none _ (s := ((t.items node.blk)[i], i)) hd]
      refine ⟨_, _, rfl, ?_, hwf⟩
      rcases hplug with h0 | ⟨-, hp⟩
      · omega
      · exact hp
    | some c =>
      obtain ⟨hkey, hsc⟩ := hs.child hmem hd
      obtain ⟨it0, hit0, -⟩ := leftmostKey_eq_some hkey
      have hpos : 0 < (t.items c).length := (List.getElem?_eq_some_iff.mp hit0).1
      have hchild : t.Reaches (h + 1 + n) ⟨c, (node.blk, i) :: node.up⟩ := .child hr hit hd
      have hdown := ih ⟨c, (node.blk, i) :: node.up⟩ ((t.items c).length - 1) hchild
        (by show (t.items c).length - 1 < (t.items c).length; omega)
        (fun _ => Nat.sub_add_cancel hpos)
      -- what ends with the child ends with the place
      have heq : t.beforeItem (h + 1 + n) ⟨c, (node.blk, i) :: node.up⟩
          ((t.items c).length - 1 + 1) = t.beforeItem (h + 1 + n + 1) node i ++
            expand (t.slotsBelow (h + 1 + n)) ((t.items node.blk)[i], i) := by
        rw [expand_of_some _ (s := ((t.items node.blk)[i], i)) hd]
        obtain ⟨m, hm⟩ : ∃ m, h + 1 + n = m + 1 := ⟨h + n, by omega⟩
        rw [hm, beforeItem_all m _ (by show (t.items c).length ≤ _; omega)]
        rfl
      rw [heq] at hdown
      simp only [hsc.isSome, if_true]
      exact hdown

/-- **The left neighbour**: the items left of it and in it are those left of the node; without one
    the node is at the left edge or comes after an extent. -/
theorem ltrtNode_left_spec (hw : t.WF) {h : Nat} {node : NodeRef} (hr : t.Reaches (h + 1) node) :
    match t.ltrtNode .left node with
    | some l => t.Reaches (h + 1) l ∧ 0 < (t.items l.blk).length ∧
        t.beforePath (h + 1) l.up ++ t.slotsBelow (h + 1) l.blk = t.beforePath (h + 1) node.up
    | none => t.beforePath (h + 1) node.up = [] ∨ ∃ pre e, t.beforePath (h + 1) node.up =
        pre ++ [e] ∧ e.1.plug = .extent40 ∧ e.1.WF t.pol t.blksize := by
  have hplace := neigPlace_left_spec hr 0
  unfold ltrtNode
  split at hplace
  · next hn => exact Or.inl hplace
  · next p item lvl hn =>
    obtain ⟨n, rfl, hreach, hlen, heq⟩ := hplace
    have hdown := ltrtDown_left_spec hw h (n + 1) p item hreach hlen (by omega)
    rw [heq] at hdown
    simp only [Nat.zero_add]
    split at hdown
    · next l hl => exact hdown
    · next hl => exact Or.inr hdown

end Tree
end Reiser4
