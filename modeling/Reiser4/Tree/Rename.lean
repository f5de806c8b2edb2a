/-
  Moving the nodes of a tree to other blocks.

  A tree is written with the block numbers of its nodes in their parents' pointers.  `Renames f` says
  that another tree is the same up to these numbers: each node is found at its new number, with its
  pointers changed to the new numbers of its children, and no two nodes share one.  Nothing else of a
  tree depends on the numbers: it has the same items in the same order (`Renames.slots`) and stays
  a search tree (`Renames.wf`).
-/
import Mathlib.Data.List.Basic
import Mathlib.Data.List.Nodup
import Reiser4.Tree.Walk

namespace Reiser4

/-- A pointer changed by `f`; other items stay. -/
def Item.relink (f : Nat → Nat) (it : Item) : Item :=
  match it.body with
  | .nodeptr40 ptr => { it with body := .nodeptr40 (f ptr) }
  | _ => it

def NodeImg.relink (f : Nat → Nat) (n : NodeImg) : NodeImg :=
  { n with items := n.items.map (Item.relink f) }

namespace Item

variable {f g : Nat → Nat} {it : Item}

@[simp] theorem relink_key : (it.relink f).key = it.key := by
  unfold relink
  split <;> rfl

@[simp] theorem relink_downLink : (it.relink f).downLink = it.downLink.map f := by
  unfold relink downLink
  cases hb : it.body <;> simp [hb]

/-- An item that is not a pointer stays. -/
theorem relink_plain (h : it.downLink = none) : it.relink f = it := by
  unfold relink
  unfold downLink at h
  cases hb : it.body <;> simp [hb] at h ⊢

/-- Only the number in the pointer matters. -/
theorem relink_congr (h : ∀ c, it.downLink = some c → f c = g c) : it.relink f = it.relink g := by
  unfold relink
  unfold downLink at h
  cases hb : it.body with
  | nodeptr40 ptr =>
    rw [hb] at h
    have hptr : f ptr = g ptr := h ptr rfl
    simp only [hptr]
  | _ => rfl

theorem relink_id : it.relink id = it := by
  unfold relink
  cases hb : it.body with
  | nodeptr40 ptr =>
    cases it
    simp_all
  | _ => rfl

theorem relink_self (h : ∀ c, it.downLink = some c → f c = c) : it.relink f = it :=
  (relink_congr (g := id) h).trans relink_id

theorem relink_relink : (it.relink f).relink g = it.relink (g ∘ f) := by
  unfold relink
  cases hb : it.body <;> simp [hb]

end Item

namespace NodeImg

variable {f g : Nat → Nat} {n : NodeImg}

@[simp] theorem relink_level : (n.relink f).level = n.level := rfl

theorem relink_congr (h : ∀ it ∈ n.items, ∀ c, it.downLink = some c → f c = g c) :
    n.relink f = n.relink g := by
  unfold relink
  rw [List.map_congr_left fun it hit => Item.relink_congr (h it hit)]

theorem relink_id : n.relink id = n := by
  unfold relink
  rw [List.map_congr_left fun it _ => Item.relink_id]
  simp

/-- Numbers that stay change nothing. -/
theorem relink_self (h : ∀ it ∈ n.items, ∀ c, it.downLink = some c → f c = c) : n.relink f = n := by
  rw [relink_congr (g := id) h, relink_id]

theorem relink_relink : (n.relink f).relink g = n.relink (g ∘ f) := by
  unfold relink
  rw [List.map_map]
  have hcomp : Item.relink g ∘ Item.relink f = Item.relink (g ∘ f) :=
    funext fun it => Item.relink_relink
  rw [hcomp]

end NodeImg

namespace Tree

/-- The block numbers of the nodes at and below one of the given height. -/
def blocksBelow (t : Tree) : Nat → Nat → List Nat
  | 0, _ => []
  | h + 1, blk => blk :: (t.items blk).flatMap fun it =>
      match it.downLink with
      | none => []
      | some c => blocksBelow t h c

/-- The block numbers of all nodes. -/
def blocks (t : Tree) : List Nat :=
  match t.root with
  | none => []
  | some r => t.blocksBelow t.height r

variable {t t' : Tree} {f : Nat → Nat}

theorem blocksBelow_self {h blk : Nat} (hh : 0 < h) : blk ∈ t.blocksBelow h blk := by
  obtain ⟨h, rfl⟩ := Nat.exists_eq_succ_of_ne_zero (Nat.ne_of_gt hh)
  exact List.mem_cons_self

theorem blocksBelow_child {h blk : Nat} {it : Item} (hit : it ∈ t.items blk) {c : Nat}
    (hc : it.downLink = some c) {b : Nat} (hb : b ∈ t.blocksBelow h c) :
    b ∈ t.blocksBelow (h + 1) blk := by
  refine List.mem_cons_of_mem _ (List.mem_flatMap.mpr ⟨it, hit, ?_⟩)
  rw [hc]
  exact hb

/-- `t'` is `t` with the nodes moved from `b` to `f b`. -/
structure Renames (t t' : Tree) (f : Nat → Nat) : Prop where
  root : t'.root = t.root.map f
  height : t'.height = t.height
  blksize : t'.blksize = t.blksize
  pol : t'.pol = t.pol
  store : ∀ b ∈ t.blocks, t'.store (f b) = (t.store b).map (NodeImg.relink f)
  inj : ∀ a ∈ t.blocks, ∀ b ∈ t.blocks, f a = f b → a = b

/-- A part of the tree is moved. -/
def Moved (t t' : Tree) (f : Nat → Nat) (bs : List Nat) : Prop :=
  ∀ b ∈ bs, t'.store (f b) = (t.store b).map (NodeImg.relink f)

theorem Moved.items {bs : List Nat} (hm : Moved t t' f bs) {b : Nat} (hb : b ∈ bs) :
    t'.items (f b) = (t.items b).map (Item.relink f) := by
  unfold Tree.items
  rw [hm b hb]
  cases t.store b with
  | none => rfl
  | some n => rfl

theorem Moved.child {h blk : Nat} (hm : Moved t t' f (t.blocksBelow (h + 1) blk)) {it : Item}
    (hit : it ∈ t.items blk) {c : Nat} (hc : it.downLink = some c) :
    Moved t t' f (t.blocksBelow h c) :=
  fun b hb => hm b (blocksBelow_child hit hc hb)

theorem Moved.blocksBelow : ∀ {h blk : Nat}, Moved t t' f (t.blocksBelow h blk) →
    t'.blocksBelow h (f blk) = (t.blocksBelow h blk).map f
  | 0, _, _ => rfl
  | h + 1, blk, hm => by
    rw [Tree.blocksBelow, Tree.blocksBelow, hm.items List.mem_cons_self, List.flatMap_map,
      List.map_cons, List.map_flatMap]
    congr 1
    refine List.flatMap_congr fun it hit => ?_
    cases hc : it.downLink with
    | none => simp [hc]
    | some c =>
      rw [Item.relink_downLink, hc]
      exact Moved.blocksBelow (hm.child hit hc)

theorem Moved.slotsBelow : ∀ {h blk : Nat}, Moved t t' f (t.blocksBelow h blk) →
    t'.slotsBelow h (f blk) = t.slotsBelow h blk
  | 0, _, _ => rfl
  | h + 1, blk, hm => by
    rw [Tree.slotsBelow, Tree.slotsBelow, hm.items List.mem_cons_self, List.zipIdx_map,
      List.flatMap_map]
    refine List.flatMap_congr fun s hs => ?_
    have hit : s.1 ∈ t.items blk := List.fst_mem_of_mem_zipIdx hs
    cases hc : s.1.downLink with
    | none =>
      rw [expand_of_none _ hc, expand_of_none _ (by simp [hc])]
      show [((s.1.relink f), s.2)] = [s]
      rw [Item.relink_plain hc]
    | some c =>
      rw [expand_of_some _ hc, @expand_of_some _ _ (f c) (by simp [hc])]
      exact Moved.slotsBelow (hm.child hit hc)

theorem Moved.leftmostKey {h blk : Nat} (hm : Moved t t' f (t.blocksBelow (h + 1) blk)) :
    t'.leftmostKey (f blk) = t.leftmostKey blk := by
  unfold Tree.leftmostKey
  rw [hm.items List.mem_cons_self]
  cases t.items blk with
  | nil => rfl
  | cons it its => simp

theorem Moved.sound (hpol : t'.pol = t.pol) (hblksize : t'.blksize = t.blksize) :
    ∀ {h blk : Nat}, Moved t t' f (t.blocksBelow h blk) → t.Sound h blk → t'.Sound h (f blk)
  | 0, _, _, hs => hs.elim
  | h + 1, blk, hm, hs => by
    obtain ⟨n, hn, hlevel, hall⟩ := id hs
    have hitems : n.items = t.items blk := by rw [Tree.items, hn]
    refine ⟨n.relink f, by rw [hm blk List.mem_cons_self, hn]; rfl, hlevel, fun it' hit' => ?_⟩
    obtain ⟨it, hit, rfl⟩ := List.mem_map.mp hit'
    have h1 := hall it hit
    rw [hitems] at hit
    cases hc : it.downLink with
    | none =>
      rw [hc] at h1
      rw [Item.relink_plain hc, hpol, hblksize, hc]
      exact h1
    | some c =>
      rw [hc] at h1
      simp only [Item.relink_downLink, hc, Option.map_some, Item.relink_key]
      have hmc := hm.child hit hc
      refine ⟨?_, Moved.sound hpol hblksize hmc h1.2⟩
      obtain ⟨h, rfl⟩ := Nat.exists_eq_succ_of_ne_zero (Nat.ne_of_gt h1.2.pos)
      rw [hmc.leftmostKey]
      exact h1.1

namespace Renames

theorem moved (hr : Renames t t' f) {r : Nat} (hroot : t.root = some r) :
    Moved t t' f (t.blocksBelow t.height r) := by
  have hb : t.blocks = t.blocksBelow t.height r := by rw [Tree.blocks, hroot]
  intro b hmem
  exact hr.store b (by rwa [hb])

theorem blocks (hr : Renames t t' f) : t'.blocks = t.blocks.map f := by
  unfold Tree.blocks
  rw [hr.root, hr.height]
  cases hroot : t.root with
  | none => rfl
  | some r => exact (hr.moved hroot).blocksBelow

/-- The moved tree has the items of the tree, in their order. -/
theorem slots (hr : Renames t t' f) : t'.slots = t.slots := by
  unfold Tree.slots
  rw [hr.root, hr.height]
  cases hroot : t.root with
  | none => rfl
  | some r => exact (hr.moved hroot).slotsBelow

theorem units (hr : Renames t t' f) : t'.units = t.units := by
  unfold Tree.units Tree.unitsOf
  rw [hr.slots, hr.blksize]

/-- It is a search tree. -/
theorem wf (hr : Renames t t' f) (hw : t.WF) : t'.WF where
  blksize := by
    rw [hr.blksize]
    exact hw.blksize
  sound r' hroot' := by
    rw [hr.root] at hroot'
    obtain ⟨r, hroot, rfl⟩ := Option.map_eq_some_iff.mp hroot'
    rw [hr.height]
    exact (hr.moved hroot).sound hr.pol hr.blksize (hw.sound r hroot)
  ordered := by
    rw [hr.units]
    exact hw.ordered

theorem nodup (hr : Renames t t' f) (hn : t.blocks.Nodup) : t'.blocks.Nodup := by
  rw [hr.blocks]
  exact hn.map_on fun a ha b hb h => hr.inj a ha b hb h

theorem refl (t : Tree) : Renames t t id where
  root := by simp
  height := rfl
  blksize := rfl
  pol := rfl
  store b _ := by
    cases h : t.store b with
    | none => exact h
    | some n => simp [h, NodeImg.relink_id]
  inj _ _ _ _ h := h

theorem trans {t'' : Tree} {g : Nat → Nat} (hr : Renames t t' f) (hr' : Renames t' t'' g) :
    Renames t t'' (g ∘ f) where
  root := by rw [hr'.root, hr.root, Option.map_map]
  height := hr'.height.trans hr.height
  blksize := hr'.blksize.trans hr.blksize
  pol := hr'.pol.trans hr.pol
  store b hb := by
    have hfb : f b ∈ t'.blocks := by
      rw [hr.blocks]
      exact List.mem_map_of_mem hb
    show t''.store (g (f b)) = _
    rw [hr'.store (f b) hfb, hr.store b hb, Option.map_map]
    congr 1
    funext n
    exact NodeImg.relink_relink
  inj a ha b hb h := by
    have hmem : ∀ {c}, c ∈ t.blocks → f c ∈ t'.blocks := fun hc => by
      rw [hr.blocks]
      exact List.mem_map_of_mem hc
    exact hr.inj a ha b hb (hr'.inj _ (hmem ha) _ (hmem hb) h)

/-- A tree with the same nodes. -/
theorem of_store (hroot : t'.root = t.root) (hheight : t'.height = t.height)
    (hblksize : t'.blksize = t.blksize) (hpol : t'.pol = t.pol)
    (hstore : ∀ b ∈ t.blocks, t'.store b = t.store b) : Renames t t' id where
  root := by simp [hroot]
  height := hheight
  blksize := hblksize
  pol := hpol
  store b hb := by
    rw [id, hstore b hb]
    exact (refl t).store b hb
  inj _ _ _ _ h := h

end Renames
end Tree
end Reiser4
