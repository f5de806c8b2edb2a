/-
  Search in the tree (`reiser4_tree_lookup`, `reiser4_tree_collision_start`).

  The search goes down from the root, at each level into the last item that is not behind the key,
  until it is on the wanted level or has no pointer to follow.  Where it has found the key, equal keys
  may still stand further left, in this item, this node or nodes to the left of it, so it walks left
  over items that cover the key.

  1. `Sees` is what the search establishes about its answer in any tree with the search-tree
     invariant.  It speaks only of items whose largest possible key is not before the key: the search
     never looks into the others.
  2. `collisionWalk_spec` and `lookupLoop_spec` prove `Sees` for the two loops, the first by the
     items left of the walk, the second by the height.
  3. `reiser4TreeLookup_sees`: every search in such a tree ends, and sees its answer, if it compares
     no entry that it cannot read (`Reads`).
-/
import Reiser4.Tree.Order

namespace Reiser4

open Reiser4.Lib

/-- `LEAF_LEVEL`. -/
def leafLevel : Nat := 1

/-- `lookup_hint_t`; the collision function comes with its own hint applied. -/
structure LookupHint where
  key : Key
  level : Nat
  collision : Option (Place → Run Tree Errno (Lookup × Place))

/-- `reiser4_tree_load_node`. -/
def reiser4TreeLoadNode (blk : Nat) : Run Tree Errno NodeImg := do
  let t ← Run.get
  match t.store blk with
  | none => Run.fail .eio
  | some n => pure n

/-! ## The leftmost of equal keys -/

/-- The loop of `reiser4_tree_collision_start` over the items left of the walk in one node; `unit`
    is the unit of the walk.  It gives `true` when it has come to the start of the node, and nothing
    when the lookup of an item comes to no answer. -/
def collisionItems (pol : KeyPol) (blksize : Nat) (items : List Item) (node : NodeRef) (key : Key) :
    Nat → Option Nat → Place → Option (Except Errno (Bool × Place))
  | 0, _, place => some (.ok (true, place))
  | i + 1, unit, place =>
    match items[i]? with
    | none => some (.error .einval)
    | some it =>
      if Key.compshort it.key key ≠ 0 then some (.ok (false, place))
      else if it.pastMaxposs pol key = true then some (.ok (false, place))
      else
        match it.lookup pol blksize key .exact with
        | some none => none
        | some (some (.present, u)) =>
          collisionItems pol blksize items node key i (some u) ⟨some node, ⟨i, some u⟩⟩
        | some (some (.absent, _)) => some (.ok (false, place))
        | none =>
          if Key.compfull it.key key = 0 then
            collisionItems pol blksize items node key i unit ⟨some node, ⟨i, unit⟩⟩
          else some (.ok (false, place))

/-- Its loop over the nodes. -/
def collisionWalk (key : Key) : Nat → NodeRef → Nat → Option Nat → Place → Run Tree Errno Place
  | 0, _, _, _, _ => Run.hang
  | fuel + 1, node, item, unit, place => do
    let t ← Run.get
    match collisionItems t.pol t.blksize (t.items node.blk) node key item unit place with
    | none => Run.hang
    | some (.error e) => Run.fail e
    | some (.ok (false, place)) => pure place
    | some (.ok (true, place)) =>
      match t.ltrtNode .left node with
      | none => pure place
      | some left => collisionWalk key fuel left (t.items left.blk).length none place

/-- `reiser4_tree_collision_start`. -/
def reiser4TreeCollisionStart (fuel : Nat) (node : NodeRef) (pos : Pos) (key : Key) :
    Run Tree Errno Place :=
  collisionWalk key fuel node pos.item pos.unit ⟨some node, pos⟩

/-! ## The descent -/

/-- The end of the search on the wanted level. -/
def lookupStop (fuel : Nat) (hint : LookupHint) (node : NodeRef) :
    Lookup → Pos → Run Tree Errno (Lookup × Place)
  | .absent, pos => pure (.absent, ⟨some node, pos⟩)
  | .present, pos => do
    let place ← reiser4TreeCollisionStart fuel node pos hint.key
    match hint.collision with
    | none => pure (.present, place)
    | some collision => collision place

/-- The loop of `reiser4_tree_lookup`; the first argument is the fuel of the walk at its end. -/
def lookupLoop (walkFuel : Nat) (hint : LookupHint) (bias : LookupBias) :
    Nat → NodeRef → Run Tree Errno (Lookup × Place)
  | 0, _ => Run.hang
  | fuel + 1, node => do
    let img ← reiser4TreeLoadNode node.blk
    let t ← Run.get
    let cbias := if img.level > hint.level then LookupBias.exact else bias
    match reiser4NodeLookup t.pol t.blksize img.items hint.key cbias with
    | none => Run.hang
    | some (.error e) => Run.fail e
    | some (.ok (res, pos)) =>
      if img.level ≤ hint.level then lookupStop walkFuel hint node res pos
      else
        match img.items[pos.item]? with
        | none => pure (.absent, ⟨some node, pos⟩)
        | some it =>
          match it.downLink with
          | none => pure (res, ⟨some node, pos⟩)
          | some blk => lookupLoop walkFuel hint bias fuel ⟨blk, (node.blk, pos.item) :: node.up⟩

/-- `reiser4_tree_lookup`. -/
def reiser4TreeLookup (fuel : Nat) (hint : LookupHint) (bias : LookupBias) :
    Run Tree Errno (Lookup × Place) := do
  let t ← Run.get
  match t.root with
  | none => pure (.absent, ⟨none, ⟨0, none⟩⟩)
  | some r => lookupLoop fuel hint bias fuel ⟨r, []⟩

namespace Tree

variable {t : Tree} {k : Key}

/-! ## What the search sees -/

/-- The search passes the item by: it may not hold the key, or it ends before it. -/
def Below (t : Tree) (k : Key) (s : Slot) : Prop :=
  s.1.pastMaxposs t.pol k = true ∨ ∀ u, u < s.1.units → s.1.unitHi t.blksize u < k

/-- A unit found at a place: it is of a non-branch item that may hold the key, and the leftmost one
    of the item that covers it. -/
structure Hit (t : Tree) (k : Key) (h : Nat) (node : NodeRef) (pos : Pos) (it : Item) : Prop where
  reaches : t.Reaches (h + 1) node
  item : (t.items node.blk)[pos.item]? = some it
  plain : it.downLink = none
  notPast : it.pastMaxposs t.pol k = false
  found : Item.FoundIn t.blksize it k (pos.unit.getD 0)

/-- What the search knows about its answer. -/
inductive Sees (t : Tree) (k : Key) : Lookup → Place → Prop
  /-- A unit covers the key, and everything left of its item was passed by. -/
  | found {h : Nat} {node : NodeRef} {pos : Pos} {it : Item} (hit : t.Hit k h node pos it)
      (hbefore : ∀ s ∈ t.beforeItem (h + 1) node pos.item, t.Below k s) :
      Sees t k .present ⟨some node, pos⟩
  /-- The key is missing in the item that may hold it. -/
  | within {h : Nat} {node : NodeRef} {i u : Nat} {it : Item} (hr : t.Reaches (h + 1) node)
      (hit : (t.items node.blk)[i]? = some it) (hplain : it.downLink = none)
      (hpast : it.pastMaxposs t.pol k = false) (hmiss : Item.MissedIn t.blksize it k u)
      (hbefore : ∀ s ∈ t.beforeItem (h + 1) node i, t.Below k s)
      (hafter : ∀ s ∈ t.afterItem (h + 1) node (i + 1), k < s.1.key) :
      Sees t k .absent ⟨some node, ⟨i, some u⟩⟩
  /-- The key is between two items. -/
  | between {h : Nat} {node : NodeRef} {i : Nat} (hr : t.Reaches (h + 1) node)
      (hbefore : ∀ s ∈ t.beforeItem (h + 1) node i, t.Below k s)
      (hafter : ∀ s ∈ t.afterItem (h + 1) node i, k < s.1.key) :
      Sees t k .absent ⟨some node, ⟨i, none⟩⟩
  /-- There is no tree. -/
  | fresh {pos : Pos} (hroot : t.root = none) : Sees t k .absent ⟨none, pos⟩

/-- An item at a place, as part of the sequence of all items. -/
theorem Reaches.slots_eq_item {h : Nat} {node : NodeRef} (hr : t.Reaches (h + 1) node) {i : Nat}
    {it : Item} (hit : (t.items node.blk)[i]? = some it) (hd : it.downLink = none) :
    t.slots = t.beforeItem (h + 1) node i ++ (it, i) :: t.afterItem (h + 1) node (i + 1) := by
  rw [hr.slots_eq_place i, afterItem_eq hit, expand_of_none _ (s := (it, i)) hd]
  rfl

theorem Hit.slots_eq {h : Nat} {node : NodeRef} {pos : Pos} {it : Item}
    (hh : t.Hit k h node pos it) : t.slots = t.beforeItem (h + 1) node pos.item ++
      (it, pos.item) :: t.afterItem (h + 1) node (pos.item + 1) :=
  hh.reaches.slots_eq_item hh.item hh.plain

theorem Hit.key_le (hw : t.WF) {h : Nat} {node : NodeRef} {pos : Pos} {it : Item}
    (hh : t.Hit k h node pos it) : it.key ≤ k := by
  have hs : (it, pos.item) ∈ t.slots := by
    rw [hh.slots_eq]
    exact List.mem_append_right _ List.mem_cons_self
  obtain ⟨hu, hc, -⟩ := hh.found
  exact le_trans ((hw.slot hs).2.key_le_unitKey hw.blksize_pos (hw.sorted hs) hu) hc.1

/-- An item that may not hold the key begins before it. -/
theorem WF.key_lt_of_past (hw : t.WF) {s : Slot} (hs : s ∈ t.slots)
    (hpast : s.1.pastMaxposs t.pol k = true) : s.1.key < k := by
  obtain ⟨m, hm, hlt⟩ := Item.pastMaxposs_eq_true.mp hpast
  exact lt_of_le_of_lt ((hw.slot hs).2.key_le_maxposs hm) hlt

/-- Items before one that may not hold the key, or that ends before it, are passed by as well. -/
theorem WF.below_of_last (hw : t.WF) {pre post : List Slot} {a : Slot}
    (hcut : t.slots = pre ++ a :: post) (ha : t.Below k a) : ∀ s ∈ pre ++ [a], t.Below k s := by
  have hmem : a ∈ t.slots := by
    rw [hcut]
    exact List.mem_append_right _ List.mem_cons_self
  have haw := (hw.slot hmem).2
  have hkey : a.1.key < k := by
    rcases ha with hpast | hall
    · exact hw.key_lt_of_past hmem hpast
    · exact lt_of_le_of_lt (hw.key_le_hi hmem haw.units_pos) (hall 0 haw.units_pos)
  intro s hs
  rcases List.mem_append.mp hs with hs | hs
  · right
    intro u hu
    exact lt_of_le_of_lt (hw.hi_le_key hcut hs List.mem_cons_self hu) hkey
  · rw [List.mem_singleton.mp hs]
    exact ha

/-- Items on the leaf level are no branches. -/
theorem Reaches.leaf_plain (hw : t.WF) {node : NodeRef} (hr : t.Reaches 1 node) {i : Nat} {it : Item}
    (hit : (t.items node.blk)[i]? = some it) : it.downLink = none := by
  cases hd : it.downLink with
  | none => rfl
  | some c => exact absurd ((hr.sound hw).child (List.mem_of_getElem? hit) hd).2 id

/-! ## What the search can read -/

/-- The search for the key compares only entries whose hashes it can read: the keys are large, or every
    directory item that may hold the key begins with it or behind it, and no item behind one of these
    begins with it as well, so that none of them is searched. -/
def Reads (t : Tree) (k : Key) : Prop :=
  t.pol = .large ∨ ∀ pre s post, t.slots = pre ++ s :: post → s.1.plug = .cde40 →
    s.1.pastMaxposs t.pol k = false → k ≤ s.1.key ∧ ∀ b ∈ post, k < b.1.key

theorem reads_of_large (h : t.pol = .large) (k : Key) : t.Reads k := Or.inl h

/-- The items of a node that a search comes to can be read. -/
theorem Reads.items (hread : t.Reads k) {h : Nat} {node : NodeRef} (hr : t.Reaches (h + 1) node) :
    ∀ it ∈ t.items node.blk, it.Reads t.pol k := by
  intro it hmem
  rcases hread with hl | hall
  · exact Or.inl hl
  · by_cases hp : it.plug = .cde40
    · obtain ⟨i, hi⟩ := List.mem_iff_getElem?.mp hmem
      have hd : it.downLink = none := by
        unfold Item.plug at hp
        unfold Item.downLink
        cases hb : it.body <;> simp [hb, Body.plug] at hp ⊢
      cases hpast : it.pastMaxposs t.pol k with
      | true => exact Or.inr (Or.inr (Or.inr hpast))
      | false => exact Or.inr (Or.inr (Or.inl (hall _ _ _ (hr.slots_eq_item hi hd) hp hpast).1))
    · exact Or.inr (Or.inl hp)

/-- Nor does the walk to the left search an item that it cannot read: the hit is behind it. -/
theorem Reads.walk (hread : t.Reads k) {pre post : List Slot} {a b : Slot}
    (hcut : t.slots = pre ++ a :: b :: post) (hb : b.1.key ≤ k) (hpast : a.1.pastMaxposs t.pol k = false) :
    t.pol = .large ∨ a.1.plug ≠ .cde40 := by
  rcases hread with hl | hall
  · exact Or.inl hl
  · exact Or.inr fun hp =>
      absurd ((hall _ _ _ hcut hp hpast).2 b List.mem_cons_self) (not_lt.mpr hb)

/-! ## The walk to the left -/

/-- The loop over the items of a node: it stops where everything further left is passed by, or comes
    to the start of the node with the leftmost hit in hand. -/
theorem collisionItems_spec (hw : t.WF) (hread : t.Reads k) {node : NodeRef} (hr : t.Reaches 1 node) :
    ∀ (i : Nat) (unit : Option Nat) (pnode : NodeRef) (ppos : Pos) (pit : Item),
      i ≤ (t.items node.blk).length → t.Hit k 0 pnode ppos pit →
      t.beforeItem 1 node i = t.beforeItem 1 pnode ppos.item →
      (unit.getD 0 = 0 ∨ unit = ppos.unit) →
      ∃ more qnode qpos qit, collisionItems t.pol t.blksize (t.items node.blk) node k i unit
          ⟨some pnode, ppos⟩ = some (.ok (more, ⟨some qnode, qpos⟩)) ∧ t.Hit k 0 qnode qpos qit ∧
        (more = false → ∀ s ∈ t.beforeItem 1 qnode qpos.item, t.Below k s) ∧
        (more = true → t.beforeItem 1 qnode qpos.item = t.beforePath 1 node.up) := by
  intro i
  induction i with
  | zero =>
    intro unit pnode ppos pit _ hp heq _
    refine ⟨true, pnode, ppos, pit, rfl, hp, fun h => by simp at h, fun _ => ?_⟩
    rw [← heq]
    simp [beforeItem]
  | succ i ih =>
    intro unit pnode ppos pit hi hp heq hunit
    obtain ⟨it, hit⟩ : ∃ it, (t.items node.blk)[i]? = some it :=
      ⟨_, List.getElem?_eq_getElem (Nat.lt_of_succ_le hi)⟩
    have hd := hr.leaf_plain hw hit
    have hsucc : t.beforeItem 1 pnode ppos.item = t.beforeItem 1 node i ++ [(it, i)] := by
      rw [← heq, beforeItem_succ hit, expand_of_none _ (s := (it, i)) hd]
    -- the item ends at or before the hit, so at or before the key
    have hcut : t.slots = t.beforeItem 1 node i ++ (it, i) ::
        (pit, ppos.item) :: t.afterItem 1 pnode (ppos.item + 1) := by
      rw [hp.slots_eq, hsucc, List.append_assoc]
      rfl
    have hmem : (it, i) ∈ t.slots := by
      rw [hcut]
      exact List.mem_append_right _ List.mem_cons_self
    have hit_wf := (hw.slot hmem).2
    have hle : ∀ v, v < it.units → it.unitHi t.blksize v ≤ pit.key := by
      intro v hv
      exact hw.hi_le_key hp.slots_eq (a := (it, i)) (by rw [hsucc]; simp) List.mem_cons_self hv
    have hlek : ∀ v, v < it.units → it.unitHi t.blksize v ≤ k :=
      fun v hv => le_trans (hle v hv) (hp.key_le hw)
    have hkey_le : it.key ≤ k :=
      le_trans (hw.key_le_hi hmem hit_wf.units_pos) (hlek 0 hit_wf.units_pos)
    have hstop : t.Below k (it, i) → ∀ s ∈ t.beforeItem 1 pnode ppos.item, t.Below k s := by
      intro hb
      rw [hsucc]
      exact hw.below_of_last hcut hb
    simp only [collisionItems, hit]
    by_cases hshort : Key.compshort it.key k = 0
    · rw [if_neg (not_not.mpr hshort)]
      by_cases hpast : it.pastMaxposs t.pol k = true
      · rw [if_pos hpast]
        exact ⟨false, pnode, ppos, pit, rfl, hp, fun _ => hstop (Or.inl hpast),
          fun h => by simp at h⟩
      · rw [if_neg hpast]
        have hpast' : it.pastMaxposs t.pol k = false := by simpa using hpast
        cases hlook : it.lookup t.pol t.blksize k .exact with
        | none =>
          have hm : it.maxpossKey t.pol = none := by
            have := (Item.lookup_isSome_iff t.pol it t.blksize k .exact).not
            rw [hlook] at this
            simpa using this
          obtain ⟨hunits, hhi⟩ := Item.single_of_maxposs_none t.blksize hm
          by_cases hk : Key.compfull it.key k = 0
          · -- a single key, the wanted one; the walk is on the first unit of its item
            have hkeq : it.key = k := Key.compfull_zero.mp hk
            have hu0 : unit.getD 0 = 0 := by
              rcases hunit with h0 | rfl
              · exact h0
              · by_contra hne
                obtain ⟨hu, -, hless⟩ := hp.found
                have h1 : pit.unitHi t.blksize 0 < k := hless 0 (Nat.pos_of_ne_zero hne)
                have hps : (pit, ppos.item) ∈ t.slots := by
                  rw [hcut]
                  simp
                have h2 := hw.key_le_hi hps (Nat.lt_of_le_of_lt (Nat.zero_le _) hu)
                have h3 := hle 0 hit_wf.units_pos
                rw [hhi, hkeq] at h3
                exact absurd (lt_of_le_of_lt (le_trans h3 h2) h1) (lt_irrefl k)
            simp only [hk, if_true]
            refine ih unit node ⟨i, unit⟩ it (Nat.le_of_succ_le hi) ?_ rfl (Or.inr rfl)
            refine ⟨hr, hit, hd, hpast', ?_⟩
            rw [hu0]
            refine ⟨by omega, ⟨?_, ?_⟩, fun v hv => absurd hv (Nat.not_lt_zero v)⟩
            · show it.unitKey t.blksize 0 ≤ k
              rw [hit_wf.key_first, hkeq]
            · show k ≤ it.unitHi t.blksize 0
              rw [hhi, hkeq]
          · simp only [hk, if_false]
            refine ⟨false, pnode, ppos, pit, rfl, hp, fun _ => hstop (Or.inr ?_),
              fun h => by simp at h⟩
            intro u hu
            have hu0 : u = 0 := by
              have : u < it.units := hu
              omega
            show it.unitHi t.blksize u < k
            rw [hu0, hhi]
            exact lt_of_le_of_ne hkey_le (fun e => hk (Key.compfull_zero.mpr e))
        | some answer =>
          obtain ⟨r, rfl⟩ := Item.lookup_answers t.blksize .exact
            (hread.walk hcut (hp.key_le hw) hpast') hlook
          -- between the item key and its largest key: the lookup of the item answers
          obtain ⟨m, hm⟩ : ∃ m, it.maxpossKey t.pol = some m := by
            have := (Item.lookup_isSome_iff t.pol it t.blksize k .exact).mp (by rw [hlook]; rfl)
            exact Option.isSome_iff_exists.mp this
          have hkm : k ≤ m := by
            rw [← not_lt]
            exact fun hlt => hpast (Item.pastMaxposs_eq_true.mpr ⟨m, hm, hlt⟩)
          have hans := Item.lookup_spec hw.blksize_pos hit_wf (hw.sorted hmem) hkey_le hm hkm hlook
          match r, hans with
          | (.present, u), hans =>
            exact ih (some u) node ⟨i, some u⟩ it (Nat.le_of_succ_le hi)
              ⟨hr, hit, hd, hpast', hans⟩ rfl (Or.inr rfl)
          | (.absent, u), hans =>
            obtain ⟨-, hlo, hup⟩ := hans
            refine ⟨false, pnode, ppos, pit, rfl, hp, fun _ => hstop (Or.inr ?_),
              fun h => by simp at h⟩
            intro v hv
            rcases Nat.lt_or_ge v u with hvu | hvu
            · exact hlo v hvu
            · have h1 := hit_wf.unitKey_le_hi hw.blksize_pos hv
              exact absurd (lt_of_lt_of_le (hup v hvu hv) (le_trans h1 (hlek v hv))) (lt_irrefl k)
    · -- another object: no unit of the item covers the key
      rw [if_pos hshort]
      refine ⟨false, pnode, ppos, pit, rfl, hp, fun _ => hstop (Or.inr ?_), fun h => by simp at h⟩
      intro u hu
      refine lt_of_le_of_ne (hlek u hu) (fun e => hshort ?_)
      refine hit_wf.compshort_of_covers hu ⟨?_, le_of_eq e.symm⟩
      exact le_trans (hit_wf.unitKey_le_hi hw.blksize_pos hu) (hlek u hu)

/-- The leaf nodes left of a node. -/
theorem slotsBelow_leaf_length (hw : t.WF) {node : NodeRef} (hr : t.Reaches 1 node) :
    (t.slotsBelow 1 node.blk).length = (t.items node.blk).length := by
  have hexp : ∀ s ∈ (t.items node.blk).zipIdx, expand (t.slotsBelow 0) s = [s] := by
    intro s hs
    obtain ⟨i, hi⟩ := List.mem_iff_getElem?.mp hs
    rw [List.getElem?_zipIdx] at hi
    cases hg : (t.items node.blk)[i]? with
    | none => simp [hg] at hi
    | some it =>
      have hs' : (it, 0 + i) = s := by simpa [hg] using hi
      rw [← hs']
      exact expand_of_none _ (hr.leaf_plain hw hg)
  calc (t.slotsBelow 1 node.blk).length
      = ((t.items node.blk).zipIdx.flatMap fun s => [s]).length := by
        rw [slotsBelow, List.flatMap_def, List.map_congr_left hexp, ← List.flatMap_def]
    _ = (t.items node.blk).length := by simp

/-- **The walk**: from a hit with everything between the walk and it passed, the walk ends at a hit
    that has nothing left of it but items that are passed by. -/
theorem collisionWalk_spec (hw : t.WF) (hread : t.Reads k) : ∀ (fuel : Nat) (node : NodeRef) (i : Nat)
    (unit : Option Nat) (pnode : NodeRef) (ppos : Pos) (pit : Item), t.Reaches 1 node →
    i ≤ (t.items node.blk).length → t.Hit k 0 pnode ppos pit →
    t.beforeItem 1 node i = t.beforeItem 1 pnode ppos.item →
    (unit.getD 0 = 0 ∨ unit = ppos.unit) → (t.beforePath 1 node.up).length < fuel →
    ∃ qnode qpos qit, (collisionWalk k fuel node i unit ⟨some pnode, ppos⟩).run t =
        some (.ok ⟨some qnode, qpos⟩, t) ∧ t.Hit k 0 qnode qpos qit ∧
      ∀ s ∈ t.beforeItem 1 qnode qpos.item, t.Below k s := by
  intro fuel
  induction fuel with
  | zero =>
    intro node i unit pnode ppos pit _ _ _ _ _ hfuel
    exact absurd hfuel (Nat.not_lt_zero _)
  | succ fuel ih =>
    intro node i unit pnode ppos pit hr hi hp heq hunit hfuel
    obtain ⟨more, qnode, qpos, qit, hres, hq, hstop, hgo⟩ :=
      collisionItems_spec hw hread hr i unit pnode ppos pit hi hp heq hunit
    simp only [collisionWalk, Run.get_bind, hres]
    cases more with
    | false => exact ⟨qnode, qpos, qit, rfl, hq, hstop rfl⟩
    | true =>
      have hpath := hgo rfl
      have hleft := ltrtNode_left_spec hw hr
      simp only
      cases hl : t.ltrtNode .left node with
      | some left =>
        rw [hl] at hleft
        -- on in the left neighbour, from its end
        obtain ⟨hlr, hlpos, hleq⟩ := hleft
        have hall : t.beforeItem 1 left (t.items left.blk).length = t.beforePath 1 node.up := by
          rw [beforeItem_all 0 left (Nat.le_refl _), hleq]
        have hlen : (t.beforePath 1 left.up).length < fuel := by
          have h1 : (t.beforePath 1 left.up ++ t.slotsBelow 1 left.blk).length =
              (t.beforePath 1 node.up).length := by rw [hleq]
          rw [List.length_append, slotsBelow_leaf_length hw hlr] at h1
          omega
        exact ih left _ none qnode qpos qit hlr (Nat.le_refl _) hq (hall.trans hpath.symm)
          (Or.inl rfl) hlen
      | none =>
        rw [hl] at hleft
        refine ⟨qnode, qpos, qit, rfl, hq, ?_⟩
        rw [hpath]
        rcases hleft with hnil | ⟨pre, e, hpe, hplug, hewf⟩
        · rw [hnil]
          intro s hs
          exact absurd hs (List.not_mem_nil)
        · -- an extent ends strictly before the next item begins
          have hcut : t.slots = pre ++ e :: ((qit, qpos.item) ::
              t.afterItem 1 qnode (qpos.item + 1)) := by
            rw [hq.slots_eq, hpath, hpe, List.append_assoc]
            rfl
          rw [hpe]
          refine hw.below_of_last hcut (Or.inr ?_)
          intro u hu
          have hcut' : t.slots = (pre ++ [e]) ++ ((qit, qpos.item) ::
              t.afterItem 1 qnode (qpos.item + 1)) := by
            rw [hcut]
            simp
          have hbef := hw.before_of_cut hcut' (List.mem_append_right _ (List.mem_singleton.mpr rfl))
            List.mem_cons_self _ (Item.mem_ranges.mpr ⟨u, hu, rfl⟩) _ (Item.mem_ranges.mpr
              ⟨0, Nat.lt_of_le_of_lt (Nat.zero_le _) hq.found.1, rfl⟩)
          have hlt := hewf.unitKey_lt_hi hw.blksize hplug hu
          have hqs : (qit, qpos.item) ∈ t.slots := by
            rw [hcut]
            simp
          rcases hbef with hbef | ⟨hsame, -, -⟩
          · have hfirst := (hw.slot hqs).2.key_first
            simp only [Item.range] at hbef
            calc e.1.unitHi t.blksize u < qit.unitKey t.blksize 0 := hbef
              _ = qit.key := hfirst
              _ ≤ k := hq.key_le hw
          · exact absurd hsame (ne_of_lt hlt)

/-! ## The descent -/

/-- The two ways the descent comes to a node: the key belongs into it and nowhere else, or it is the
    leftmost key of the node (and may be found further left as well). -/
inductive Comes (t : Tree) (k : Key) (h : Nat) (node : NodeRef) : Prop
  | around (hbefore : ∀ s ∈ t.beforePath h node.up, t.Below k s)
      (hafter : ∀ s ∈ t.afterPath h node.up, k < s.1.key)
  | onFirst (it : Item) (hit : (t.items node.blk)[0]? = some it) (hk : it.key = k)

theorem Comes.of_first_ne {h : Nat} {node : NodeRef} (hc : t.Comes k h node)
    (hne : ∀ it, (t.items node.blk)[0]? = some it → it.key ≠ k) :
    (∀ s ∈ t.beforePath h node.up, t.Below k s) ∧ ∀ s ∈ t.afterPath h node.up, k < s.1.key := by
  rcases hc with ⟨h1, h2⟩ | ⟨it, hit, hk⟩
  · exact ⟨h1, h2⟩
  · exact absurd hk (hne it hit)

/-- The first key of a node is before the key when any is. -/
theorem Reaches.first_lt (hw : t.WF) {h : Nat} {node : NodeRef} (hr : t.Reaches (h + 1) node)
    {i : Nat} {it : Item} (hit : (t.items node.blk)[i]? = some it) (hk : it.key < k) (a : Item)
    (ha : (t.items node.blk)[0]? = some a) : a.key ≠ k :=
  ne_of_lt (lt_of_le_of_lt ((hr.keysSorted hw).le ha hit (Nat.zero_le i)) hk)

/-- Everything left of an item before the key ends before the key. -/
theorem Reaches.below_of_lt (hw : t.WF) {h : Nat} {node : NodeRef} (hr : t.Reaches (h + 1) node)
    {i : Nat} {it : Item} (hit : (t.items node.blk)[i]? = some it) (hk : it.key < k) :
    ∀ s ∈ t.beforeItem (h + 1) node i, t.Below k s :=
  fun _ hs => Or.inr fun _ hu => lt_of_le_of_lt (hr.before_le hw hit hs hu) hk

/-- Everything left of a place between two items is passed by. -/
theorem Reaches.below_between (hw : t.WF) {h : Nat} {node : NodeRef} (hr : t.Reaches (h + 1) node)
    {i : Nat} (hi : i ≤ (t.items node.blk).length)
    (hpath : ∀ s ∈ t.beforePath (h + 1) node.up, t.Below k s)
    (hbefore : ∀ j a, j < i → (t.items node.blk)[j]? = some a → a.key < k)
    (hprev : ∀ a, 0 < i → (t.items node.blk)[i - 1]? = some a → a.downLink = none ∧
      (a.pastMaxposs t.pol k = true ∨ a.maxpossKey t.pol = none)) :
    ∀ s ∈ t.beforeItem (h + 1) node i, t.Below k s := by
  cases i with
  | zero => simpa [beforeItem] using hpath
  | succ j =>
    have hit := List.getElem?_eq_getElem (Nat.lt_of_succ_le hi)
    obtain ⟨hd, hcase⟩ := hprev _ (Nat.succ_pos j) hit
    have hlt := hbefore j _ (Nat.lt_succ_self j) hit
    rw [beforeItem_succ hit, expand_of_none _ (s := (_, j)) hd]
    intro s hs
    rcases List.mem_append.mp hs with hs | hs
    · exact hr.below_of_lt hw hit hlt s hs
    · rw [List.mem_singleton.mp hs]
      rcases hcase with hpast | hm
      · exact Or.inl hpast
      · -- a single key, which is before the wanted one
        obtain ⟨hunits, hhi⟩ := Item.single_of_maxposs_none t.blksize hm
        refine Or.inr fun u hu => ?_
        have hu0 : u = 0 := by
          simp only at hu
          omega
        rw [hu0]
        simp only
        rw [hhi]
        exact hlt

/-- An item whose key is the wanted one covers it with its first unit. -/
theorem WF.hit_of_key (hw : t.WF) {h : Nat} {node : NodeRef} (hr : t.Reaches (h + 1) node) {i : Nat}
    {it : Item} (hit : (t.items node.blk)[i]? = some it) (hd : it.downLink = none)
    (hk : it.key = k) : t.Hit k h node ⟨i, some 0⟩ it := by
  have hmem : (it, i) ∈ t.slots := by
    rw [hr.slots_eq_item hit hd]
    simp
  have hwf := (hw.slot hmem).2
  refine ⟨hr, hit, hd, ?_, hwf.units_pos, ⟨?_, ?_⟩, fun v hv => absurd hv (Nat.not_lt_zero v)⟩
  · rw [← Bool.not_eq_true]
    intro hpast
    obtain ⟨m, hm, hlt⟩ := Item.pastMaxposs_eq_true.mp hpast
    exact absurd (lt_of_le_of_lt (hk ▸ hwf.key_le_maxposs hm) hlt) (lt_irrefl k)
  · exact le_of_eq (hwf.key_first.trans hk)
  · have h1 := hw.key_le_hi hmem hwf.units_pos
    rw [hk] at h1
    exact h1

/-- The answer of the item before the key, by its own lookup. -/
theorem WF.answer_of_lookup (hw : t.WF) {h : Nat} {node : NodeRef} (hr : t.Reaches (h + 1) node)
    {i : Nat} {it : Item} (hit : (t.items node.blk)[i]? = some it) (hk : it.key < k)
    (hpast : it.pastMaxposs t.pol k = false) {r : Lookup × Nat}
    (hlook : it.lookup t.pol t.blksize k .exact = some (some r)) :
    it.downLink = none ∧ Item.Answers t.blksize it k r := by
  have hd : it.downLink = none := by
    cases hd : it.downLink with
    | none => rfl
    | some c =>
      rw [Item.lookup_none_of_branch hd] at hlook
      simp at hlook
  have hmem : (it, i) ∈ t.slots := by
    rw [hr.slots_eq_item hit hd]
    simp
  obtain ⟨m, hm⟩ : ∃ m, it.maxpossKey t.pol = some m := by
    have := (Item.lookup_isSome_iff t.pol it t.blksize k .exact).mp (by rw [hlook]; rfl)
    exact Option.isSome_iff_exists.mp this
  have hkm : k ≤ m := by
    rw [← not_lt]
    intro hlt
    rw [Item.pastMaxposs_eq_true.mpr ⟨m, hm, hlt⟩] at hpast
    simp at hpast
  exact ⟨hd, Item.lookup_spec hw.blksize_pos (hw.slot hmem).2 (hw.sorted hmem) (le_of_lt hk) hm hkm
    hlook⟩

theorem loadNode_run {blk : Nat} {n : NodeImg} (h : t.store blk = some n) :
    (reiser4TreeLoadNode blk).run t = some (.ok n, t) := by
  simp only [reiser4TreeLoadNode, Run.get_bind, h]
  rfl

/-- What is left to do with an answer: the collision function of the hint sees the hits on the leaf
    level. -/
def lookupEnd (t : Tree) (collision : Option (Place → Run Tree Errno (Lookup × Place))) :
    Lookup → Place → Run Tree Errno (Lookup × Place)
  | .absent, place => pure (.absent, place)
  | .present, place =>
    match collision, place.node with
    | some f, some node => if t.level node.blk ≤ leafLevel then f place else pure (.present, place)
    | _, _ => pure (.present, place)

@[simp] theorem lookupEnd_none (res : Lookup) (place : Place) :
    t.lookupEnd none res place = pure (res, place) := by
  cases res <;> rfl

/-- A hit above the leaf level is the answer. -/
theorem Hit.lookupEnd_eq (hw : t.WF) {h : Nat} {node : NodeRef} {pos : Pos} {it : Item}
    (hh : t.Hit k (h + 1) node pos it)
    (collision : Option (Place → Run Tree Errno (Lookup × Place))) :
    t.lookupEnd collision .present ⟨some node, pos⟩ = pure (.present, ⟨some node, pos⟩) := by
  have hlevel := (hh.reaches.sound hw).level_eq
  cases collision with
  | none => rfl
  | some f =>
    simp only [lookupEnd, hlevel, leafLevel]
    rw [if_neg (by omega)]

/-- The end on the leaf level: the leftmost of the hits. -/
theorem lookupStop_present (hw : t.WF) (hread : t.Reads k) {fuel : Nat} (hfuel : t.slots.length < fuel)
    {node : NodeRef} {pos : Pos} {it : Item} (hh : t.Hit k 0 node pos it)
    (collision : Option (Place → Run Tree Errno (Lookup × Place))) :
    ∃ place, (lookupStop fuel ⟨k, leafLevel, collision⟩ node .present pos).run t =
      (t.lookupEnd collision .present place).run t ∧ t.Sees k .present place := by
  have hi : pos.item ≤ (t.items node.blk).length :=
    Nat.le_of_lt (List.getElem?_eq_some_iff.mp hh.item).1
  have hlen : (t.beforePath 1 node.up).length < fuel := by
    have := congrArg List.length hh.reaches.slots_eq
    simp only [List.length_append, Nat.zero_add] at this
    omega
  obtain ⟨qnode, qpos, qit, hrun, hq, hbelow⟩ := collisionWalk_spec hw hread fuel node pos.item pos.unit
    node pos it hh.reaches hi hh rfl (Or.inr rfl) hlen
  refine ⟨⟨some qnode, qpos⟩, ?_, .found hq hbelow⟩
  rw [lookupStop, reiser4TreeCollisionStart, Run.bind_of_ok hrun]
  cases collision with
  | none => rfl
  | some f =>
    have hlevel := (hq.reaches.sound hw).level_eq
    simp only [lookupEnd, hlevel, leafLevel]
    rw [if_pos (Nat.le_refl _)]

/-- **The descent**: from a node the descent may come to, the search ends with an answer that it
    sees. -/
theorem lookupLoop_spec (hw : t.WF) (hread : t.Reads k) {walkFuel : Nat} (hwalk : t.slots.length < walkFuel)
    (collision : Option (Place → Run Tree Errno (Lookup × Place))) :
    ∀ (h fuel : Nat) (node : NodeRef), h < fuel → t.Reaches (h + 1) node →
      t.Comes k (h + 1) node →
      ∃ res place, (lookupLoop walkFuel ⟨k, leafLevel, collision⟩ .exact fuel node).run t =
        (t.lookupEnd collision res place).run t ∧ t.Sees k res place := by
  intro h
  induction h with
  | zero =>
    intro fuel node hfuel hr hc
    obtain ⟨fuel, rfl⟩ : ∃ f, fuel = f + 1 := ⟨fuel - 1, by omega⟩
    obtain ⟨n, hn, hlevel, hitems⟩ := (hr.sound hw).node
    obtain ⟨res, pos, hlook, hout⟩ := reiser4NodeLookup_outcome t.pol t.blksize
      (hr.keysSorted hw) k (hread.items hr)
    rw [lookupLoop, Run.bind_of_ok (loadNode_run hn), Run.get_bind]
    simp only [ite_self, hitems, hlook, hlevel, leafLevel, Nat.zero_add, Nat.le_refl, if_true]
    cases hout with
    | here i it hit hk =>
      obtain ⟨place, hrun, hsees⟩ := lookupStop_present hw hread hwalk
        (hw.hit_of_key hr hit (hr.leaf_plain hw hit) hk) collision
      exact ⟨_, place, hrun, hsees⟩
    | inside i it hit hk hafter hpast res u hl =>
      obtain ⟨hd, hans⟩ := hw.answer_of_lookup hr hit hk hpast hl
      cases res with
      | present =>
        have hh : t.Hit k 0 node ⟨i, some u⟩ it := ⟨hr, hit, hd, hpast, hans⟩
        obtain ⟨place, hrun, hsees⟩ := lookupStop_present hw hread hwalk hh collision
        exact ⟨_, place, hrun, hsees⟩
      | absent =>
        have haround := hc.of_first_ne (hr.first_lt hw hit hk)
        exact ⟨_, _, rfl, .within hr hit hd hpast hans (hr.below_of_lt hw hit hk)
          (fun s hs => hr.lt_after hw (fun j b hj hb => hafter j b hj hb) haround.2 hs)⟩
    | down i it hit hk hafter blk hdown =>
      rw [hr.leaf_plain hw hit] at hdown
      simp at hdown
    | between i hi hbefore hafter hprev =>
      have hne : ∀ a, (t.items node.blk)[0]? = some a → a.key ≠ k := by
        intro a ha
        rcases Nat.eq_zero_or_pos i with h0 | h0
        · exact ne_of_gt (hafter 0 a (by omega) ha)
        · exact ne_of_lt (hbefore 0 a h0 ha)
      have haround := hc.of_first_ne hne
      exact ⟨_, _, rfl, .between hr (hr.below_between hw hi haround.1 hbefore hprev)
        (fun s hs => hr.lt_after hw hafter haround.2 hs)⟩
  | succ h ih =>
    intro fuel node hfuel hr hc
    obtain ⟨fuel, rfl⟩ : ∃ f, fuel = f + 1 := ⟨fuel - 1, by omega⟩
    obtain ⟨n, hn, hlevel, hitems⟩ := (hr.sound hw).node
    obtain ⟨res, pos, hlook, hout⟩ := reiser4NodeLookup_outcome t.pol t.blksize
      (hr.keysSorted hw) k (hread.items hr)
    rw [lookupLoop, Run.bind_of_ok (loadNode_run hn), Run.get_bind]
    have hnl : ¬ h + 1 + 1 ≤ 1 := by omega
    simp only [ite_self, hitems, hlook, hlevel, leafLevel, if_neg hnl]
    cases hout with
    | here i it hit hk =>
      simp only [hit]
      cases hd : it.downLink with
      | none =>
        -- an extent: the items before it end before its first key
        have hh := hw.hit_of_key hr hit hd hk
        refine ⟨_, _, congrArg (Run.run · t) (hh.lookupEnd_eq hw collision).symm,
          .found hh fun s hs => Or.inr fun u hu => ?_⟩
        have hcut := hr.slots_eq_item hit hd
        obtain ⟨hwf, hplug⟩ := (hr.sound hw).plain (List.mem_of_getElem? hit) hd
        have hext : it.plug = .extent40 := by
          rcases hplug with h0 | ⟨-, hp⟩
          · omega
          · exact hp
        have hbef := hw.before_of_cut hcut hs List.mem_cons_self _
          (Item.mem_ranges.mpr ⟨u, hu, rfl⟩) _ (Item.mem_ranges.mpr ⟨0, hwf.units_pos, rfl⟩)
        have hlt := hwf.unitKey_lt_hi hw.blksize hext hwf.units_pos
        rcases hbef with hbef | ⟨-, -, hsame⟩
        · calc s.1.unitHi t.blksize u < it.unitKey t.blksize 0 := hbef
            _ = it.key := hwf.key_first
            _ = k := hk
        · exact absurd hsame (ne_of_lt hlt)
      | some c =>
        obtain ⟨hkey, -⟩ := (hr.sound hw).child (List.mem_of_getElem? hit) hd
        obtain ⟨it', hit', hk'⟩ := leftmostKey_eq_some hkey
        exact ih fuel ⟨c, (node.blk, i) :: node.up⟩ (by omega) (.child hr hit hd)
          (.onFirst it' hit' (hk'.trans hk))
    | inside i it hit hk hafter hpast res u hl =>
      obtain ⟨hd, hans⟩ := hw.answer_of_lookup hr hit hk hpast hl
      have haround := hc.of_first_ne (hr.first_lt hw hit hk)
      simp only [hit, hd]
      cases res with
      | present =>
        have hh : t.Hit k (h + 1) node ⟨i, some u⟩ it := ⟨hr, hit, hd, hpast, hans⟩
        exact ⟨_, _, congrArg (Run.run · t) (hh.lookupEnd_eq hw collision).symm,
          .found hh (hr.below_of_lt hw hit hk)⟩
      | absent =>
        exact ⟨_, _, rfl, .within hr hit hd hpast hans (hr.below_of_lt hw hit hk)
          (fun s hs => hr.lt_after hw (fun j b hj hb => hafter j b hj hb) haround.2 hs)⟩
    | down i it hit hk hafter blk hdown =>
      have haround := hc.of_first_ne (hr.first_lt hw hit hk)
      simp only [hit, hdown]
      exact ih fuel ⟨blk, (node.blk, i) :: node.up⟩ (by omega) (.child hr hit hdown)
        (.around (hr.below_of_lt hw hit hk)
          (fun s hs => hr.lt_after hw (fun j b hj hb => hafter j b hj hb) haround.2 hs))
    | between i hi hbefore hafter hprev =>
      have hne : ∀ a, (t.items node.blk)[0]? = some a → a.key ≠ k := by
        intro a ha
        rcases Nat.eq_zero_or_pos i with h0 | h0
        · exact ne_of_gt (hafter 0 a (by omega) ha)
        · exact ne_of_lt (hbefore 0 a h0 ha)
      have haround := hc.of_first_ne hne
      have hbelow := hr.below_between hw hi haround.1 hbefore hprev
      have habove : ∀ s ∈ t.afterItem (h + 1 + 1) node i, k < s.1.key :=
        fun s hs => hr.lt_after hw hafter haround.2 hs
      cases hit : (t.items node.blk)[i]? with
      | none => exact ⟨_, _, rfl, .between hr hbelow habove⟩
      | some it =>
        simp only
        cases hd : it.downLink with
        | none => exact ⟨_, _, rfl, .between hr hbelow habove⟩
        | some c =>
          exact ih fuel ⟨c, (node.blk, i) :: node.up⟩ (by omega) (.child hr hit hd)
            (.around hbelow (fun s hs => habove s (afterItem_subset (Nat.le_succ i) hs)))

/-- Fuel that is enough for any search. -/
def fuelBound (t : Tree) : Nat := t.height + t.slots.length + 1

/-- **The search**: in a tree with the search-tree invariant it comes to an answer that it sees. -/
theorem reiser4TreeLookup_ends (hw : t.WF) (hread : t.Reads k) {fuel : Nat} (hfuel : t.fuelBound ≤ fuel)
    (collision : Option (Place → Run Tree Errno (Lookup × Place))) :
    ∃ res place, (reiser4TreeLookup fuel ⟨k, leafLevel, collision⟩ .exact).run t =
      (t.lookupEnd collision res place).run t ∧ t.Sees k res place := by
  unfold fuelBound at hfuel
  simp only [reiser4TreeLookup, Run.get_bind]
  cases hroot : t.root with
  | none => exact ⟨_, _, rfl, .fresh hroot⟩
  | some r =>
    obtain ⟨h, hh⟩ : ∃ h, t.height = h + 1 :=
      ⟨t.height - 1, (Nat.sub_add_cancel (hw.sound r hroot).pos).symm⟩
    have hr : t.Reaches (h + 1) ⟨r, []⟩ := hh ▸ .root hroot
    exact lookupLoop_spec hw hread (by omega) collision h fuel ⟨r, []⟩ (by omega) hr
      (.around (fun s hs => absurd hs List.not_mem_nil) (fun s hs => absurd hs List.not_mem_nil))

theorem reiser4TreeLookup_sees (hw : t.WF) (hread : t.Reads k) {fuel : Nat} (hfuel : t.fuelBound ≤ fuel) :
    ∃ res place, (reiser4TreeLookup fuel ⟨k, leafLevel, none⟩ .exact).run t =
      some (.ok (res, place), t) ∧ t.Sees k res place := by
  obtain ⟨res, place, hrun, hs⟩ := reiser4TreeLookup_ends hw hread hfuel none
  rw [lookupEnd_none] at hrun
  exact ⟨res, place, hrun, hs⟩

end Tree
end Reiser4
