/-
  The next item (`reiser4_tree_next_place`, `reiser4_tree_adjust_place`).

  From the last item of a node the way goes to the right neighbour, or, when an extent is in the way
  to it, to the place right of the node on the level above; from a pointer it goes down to the first
  item below.  `reiser4TreeNextPlace_spec`: from any place of a leaf the way leads to the next item of
  the sequence `Tree.slots`, and to nothing when the tree is over.
-/
import Reiser4.Tree.Order

namespace Reiser4

open Reiser4.Lib

/-- The loop of `reiser4_tree_next_place` that goes down while a branch item is at the place. -/
def firstBelow (t : Tree) : Nat → NodeRef → Nat → Run Tree Errno (NodeRef × Nat)
  | 0, _, _ => Run.hang
  | fuel + 1, node, item =>
    match (t.items node.blk)[item]? with
    | none => Run.fail .einval
    | some it =>
      match it.downLink with
      | none => pure (node, item)
      | some blk =>
        match t.store blk with
        | none => Run.fail .einval
        | some _ => firstBelow t fuel ⟨blk, (node.blk, item) :: node.up⟩ 0

/-- `reiser4_tree_adjust_place`. -/
def reiser4TreeAdjustPlace (t : Tree) (node : NodeRef) (item : Nat) : Option (NodeRef × Nat) :=
  if item ≥ (t.items node.blk).length then
    match t.ltrtNode .right node with
    | some right => some (right, 0)
    | none => (t.neigPlace .right node.up 0).map fun p => (p.1, p.2.1)
  else some (node, item)

/-- `reiser4_tree_next_place`: the place of the next item, if there is one. -/
def reiser4TreeNextPlace (fuel : Nat) (node : NodeRef) (item : Nat) :
    Run Tree Errno (Option (NodeRef × Nat)) := do
  let t ← Run.get
  match reiser4TreeAdjustPlace t node (item + 1) with
  | none => pure none
  | some (n, i) => do
    let r ← firstBelow t fuel n i
    pure (some r)

namespace Tree

variable {t : Tree}

/-! ## The right neighbour -/

/-- The place right of a node that `reiser4_tree_neig_place` finds: what is from there on is what is
    right of the node. -/
theorem neigPlace_right_spec {h : Nat} {node : NodeRef} (hr : t.Reaches h node) : ∀ lvl : Nat,
    match t.neigPlace .right node.up lvl with
    | none => t.afterPath h node.up = []
    | some (p, item, lvl') => ∃ n, lvl' = lvl + (n + 1) ∧ t.Reaches (h + (n + 1)) p ∧
        item < (t.items p.blk).length ∧
        t.afterItem (h + (n + 1)) p item = t.afterPath h node.up := by
  induction hr with
  | root hr =>
    intro lvl
    rfl
  | @child h node i it blk hp hit hdown ih =>
    intro lvl
    have hi : i < (t.items node.blk).length := (List.getElem?_eq_some_iff.mp hit).1
    simp only [neigPlace]
    by_cases h0 : i + 1 < (t.items node.blk).length
    · rw [if_pos h0]
      exact ⟨0, rfl, hp, h0, rfl⟩
    · -- the last item of its parent: what is right of the parent is right of the node
      rw [if_neg h0]
      have hrest := ih (lvl + 1)
      have hpath : t.afterPath h ((node.blk, i) :: node.up) = t.afterPath (h + 1) node.up := by
        rw [afterPath_child, afterItem_all _ _ (Nat.not_lt.mp h0)]
      split at hrest
      · rw [hpath]
        exact hrest
      · next p item lvl' hp' =>
        obtain ⟨n, hlvl, hreach, hlen, heq⟩ := hrest
        have hh : h + 1 + (n + 1) = h + (n + 1 + 1) := by omega
        rw [hh] at hreach heq
        exact ⟨n + 1, by omega, hreach, hlen, heq.trans hpath.symm⟩

/-- Below a pointer the items begin with those of its child. -/
theorem Reaches.child_spec (hw : t.WF) {h : Nat} {node : NodeRef} (hr : t.Reaches (h + 1) node)
    {i c : Nat} {it : Item} (hit : (t.items node.blk)[i]? = some it) (hd : it.downLink = some c) :
    t.Sound h c ∧ t.Reaches h ⟨c, (node.blk, i) :: node.up⟩ ∧ 0 < (t.items c).length ∧
      t.afterItem h ⟨c, (node.blk, i) :: node.up⟩ 0 = t.afterItem (h + 1) node i := by
  obtain ⟨hkey, hsc⟩ := (hr.sound hw).child (List.mem_of_getElem? hit) hd
  obtain ⟨it0, hit0, -⟩ := leftmostKey_eq_some hkey
  refine ⟨hsc, .child hr hit hd, (List.getElem?_eq_some_iff.mp hit0).1, ?_⟩
  obtain ⟨m, rfl⟩ : ∃ m, h = m + 1 := ⟨h - 1, (Nat.sub_add_cancel hsc.pos).symm⟩
  rw [afterItem_zero, afterItem_eq hit, expand_of_some _ (s := (it, i)) hd]
  rfl

/-- Going down on the left side from a place: the node arrived at begins where the place begins. -/
theorem ltrtDown_right_spec (hw : t.WF) (h : Nat) : ∀ (n : Nat) (node : NodeRef) (i : Nat),
    t.Reaches (h + 1 + n) node → i < (t.items node.blk).length → (n = 0 → i = 0) →
    ∀ r, t.ltrtDown .right n node i = some r → t.Reaches (h + 1) r ∧
      0 < (t.items r.blk).length ∧ t.afterItem (h + 1) r 0 = t.afterItem (h + 1 + n) node i := by
  intro n
  induction n with
  | zero =>
    intro node i hr hi hfirst r heq
    have hnode : node = r := Option.some.inj heq
    rw [← hnode, hfirst rfl]
    exact ⟨hr, by omega, rfl⟩
  | succ n ih =>
    intro node i hr hi _ r heq
    have hit := List.getElem?_eq_getElem hi
    simp only [ltrtDown, childNode, hit] at heq
    cases hd : (t.items node.blk)[i].downLink with
    | none => simp [hd] at heq
    | some c =>
      obtain ⟨hsc, hchild, hpos, hafter⟩ := Reaches.child_spec hw (h := h + 1 + n) hr hit hd
      simp only [hd, hsc.isSome, if_true] at heq
      obtain ⟨h1, h2, h3⟩ := ih _ 0 hchild hpos (fun _ => rfl) r heq
      exact ⟨h1, h2, h3.trans hafter⟩

/-- **The right neighbour** begins with the items right of the node. -/
theorem ltrtNode_right_spec (hw : t.WF) {h : Nat} {node r : NodeRef} (hr : t.Reaches (h + 1) node)
    (heq : t.ltrtNode .right node = some r) : t.Reaches (h + 1) r ∧ 0 < (t.items r.blk).length ∧
      t.afterItem (h + 1) r 0 = t.afterPath (h + 1) node.up := by
  have hplace := neigPlace_right_spec hr 0
  unfold ltrtNode at heq
  cases hn : t.neigPlace .right node.up 0 with
  | none => simp [hn] at heq
  | some p =>
    obtain ⟨p, item, lvl⟩ := p
    rw [hn] at hplace
    obtain ⟨n, rfl, hreach, hlen, hafter⟩ := hplace
    simp only [hn, Nat.zero_add] at heq
    obtain ⟨h1, h2, h3⟩ := ltrtDown_right_spec hw h (n + 1) p item hreach hlen (by omega) r heq
    exact ⟨h1, h2, h3.trans hafter⟩

/-! ## The next item -/

/-- Where the next item is looked for first: at a place from which on there is what comes next. -/
theorem adjustPlace_spec (hw : t.WF) {h : Nat} {node : NodeRef} (hr : t.Reaches (h + 1) node)
    (item : Nat) :
    match reiser4TreeAdjustPlace t node item with
    | none => t.afterItem (h + 1) node item = []
    | some (n, i) => ∃ h', t.Reaches (h' + 1) n ∧ i < (t.items n.blk).length ∧
        t.afterItem (h' + 1) n i = t.afterItem (h + 1) node item := by
  unfold reiser4TreeAdjustPlace
  by_cases hge : item ≥ (t.items node.blk).length
  · rw [if_pos hge, afterItem_all _ _ hge]
    cases hright : t.ltrtNode .right node with
    | some r =>
      obtain ⟨h1, h2, h3⟩ := ltrtNode_right_spec hw hr hright
      exact ⟨h, h1, h2, h3⟩
    | none =>
      have hplace := neigPlace_right_spec hr 0
      cases hn : t.neigPlace .right node.up 0 with
      | none =>
        rw [hn] at hplace
        exact hplace
      | some p =>
        rw [hn] at hplace
        obtain ⟨n, -, hreach, hlen, hafter⟩ := hplace
        exact ⟨h + 1 + n, hreach, hlen, hafter⟩
  · rw [if_neg hge]
    exact ⟨h, hr, Nat.not_le.mp hge, rfl⟩

/-- Down from a place to the first item there is from it on. -/
theorem firstBelow_spec (hw : t.WF) : ∀ (h fuel : Nat) (node : NodeRef) (i : Nat),
    t.Reaches (h + 1) node → i < (t.items node.blk).length → h < fuel →
    ∃ n j it h', (firstBelow t fuel node i).run t = some (.ok (n, j), t) ∧ t.Reaches (h' + 1) n ∧
      (t.items n.blk)[j]? = some it ∧ it.downLink = none ∧
      t.afterItem (h' + 1) n j = t.afterItem (h + 1) node i := by
  intro h
  induction h with
  | zero =>
    intro fuel node i hr hi hfuel
    obtain ⟨fuel, rfl⟩ : ∃ f, fuel = f + 1 := ⟨fuel - 1, by omega⟩
    have hit := List.getElem?_eq_getElem hi
    cases hd : (t.items node.blk)[i].downLink with
    | none =>
      refine ⟨node, i, _, 0, ?_, hr, hit, hd, rfl⟩
      simp only [firstBelow, hit, hd]
      rfl
    | some c => exact absurd ((hr.sound hw).child (List.mem_of_getElem? hit) hd).2 id
  | succ h ih =>
    intro fuel node i hr hi hfuel
    obtain ⟨fuel, rfl⟩ : ∃ f, fuel = f + 1 := ⟨fuel - 1, by omega⟩
    have hit := List.getElem?_eq_getElem hi
    cases hd : (t.items node.blk)[i].downLink with
    | none =>
      refine ⟨node, i, _, h + 1, ?_, hr, hit, hd, rfl⟩
      simp only [firstBelow, hit, hd]
      rfl
    | some c =>
      obtain ⟨hsc, hchild, hpos, hafter⟩ := hr.child_spec hw hit hd
      obtain ⟨img, himg⟩ := Option.isSome_iff_exists.mp hsc.isSome
      obtain ⟨n, j, it, h', hrun, hrest⟩ := ih fuel _ 0 hchild hpos (by omega)
      refine ⟨n, j, it, h', ?_, hrest.1, hrest.2.1, hrest.2.2.1, hrest.2.2.2.trans hafter⟩
      simp only [firstBelow, hit, hd, himg]
      exact hrun

theorem Reaches.height_le {h : Nat} {node : NodeRef} (hr : t.Reaches h node) : h ≤ t.height := by
  induction hr with
  | root hr => exact Nat.le_refl _
  | child hp hit hdown ih => omega

/-- **The next item** of the sequence, with its place; none at the end of the tree. -/
theorem reiser4TreeNextPlace_spec (hw : t.WF) {fuel : Nat} (hfuel : t.height ≤ fuel) {h : Nat}
    {node : NodeRef} (hr : t.Reaches (h + 1) node) (item : Nat) :
    match t.afterItem (h + 1) node (item + 1) with
    | [] => (reiser4TreeNextPlace fuel node item).run t = some (.ok none, t)
    | s :: rest => ∃ n h', (reiser4TreeNextPlace fuel node item).run t =
          some (.ok (some (n, s.2)), t) ∧ t.Reaches (h' + 1) n ∧
        (t.items n.blk)[s.2]? = some s.1 ∧ t.afterItem (h' + 1) n (s.2 + 1) = rest := by
  have hadj := adjustPlace_spec hw hr (item + 1)
  cases heq : reiser4TreeAdjustPlace t node (item + 1) with
  | none =>
    rw [heq] at hadj
    simp only at hadj
    rw [hadj]
    simp only [reiser4TreeNextPlace, Run.get_bind, heq]
    rfl
  | some p =>
    rw [heq] at hadj
    obtain ⟨h1, hreach, hlen, hafter⟩ := hadj
    have hh := hreach.height_le
    obtain ⟨n, j, it, h', hrun, hn, hit, hd, hjafter⟩ :=
      firstBelow_spec hw h1 fuel p.1 p.2 hreach hlen (by omega)
    rw [← hafter, ← hjafter, afterItem_eq hit, expand_of_none _ (s := (it, j)) hd]
    refine ⟨n, h', ?_, hn, hit, rfl⟩
    simp only [reiser4TreeNextPlace, Run.get_bind, heq]
    rw [Run.bind_of_ok hrun]
    rfl

end Tree
end Reiser4
