/-
  The round trip of `reiser4_tree_sync`.

  `Coherent` is what holds of a cache between two steps of the walk: hash table and nodes agree, each
  loaded node stands where its parent place says, counters count the loaded children and the locks of
  the walk, a clean node is on the device as it is in memory, and every block of the tree that is not
  that of a new node is marked in the allocator.

  A step of the walk gives one node a real number (`CachedTree.moveNode`) or writes and unloads one
  node (`CachedTree.unload`).  Both keep `Coherent`; the first renames one block of the tree seen through the
  cache, the second leaves that tree as it is.  So whatever the order of the steps, the tree is the
  one at the start up to the block numbers, and at the end, with no node left in memory, it is the
  tree on the device.

    1. `MoveOk.coherent_move`, `Coherent.setCounter`, `Coherent.unload`   the steps;
    2. `cbNodeAdjust_ok`, `cbNodeUnload_ok`   the routines do these steps;
    3. `reiser4TreeWalkNode_ok`   the walk of a node unloads it and all below it;
    4. `reiser4TreeSync_round_trip`.
-/
import Reiser4.Tree.Cache

namespace Reiser4

open Reiser4.Lib

/-! ## The invariant of the cache -/

namespace CachedTree

/-- A block is marked in the allocator. -/
def has (aal : AalBits) (st : CachedTree) (b : Nat) : Prop := st.alloc.bitmap.has aal b = true

/-- The item points to a loaded node. -/
def isLoaded (st : CachedTree) (it : Item) : Bool :=
  match it.downLink with
  | none => false
  | some b => (st.hash b).isSome

/-- The number of loaded children. -/
def loadedChildren (st : CachedTree) (n : CachedNode) : Nat := n.items.countP st.isLoaded

end CachedTree

/-- The cache is coherent; `locks` counts the locks that are held besides those of the children. -/
structure Coherent (aal : AalBits) (locks : Nat → Nat) (st : CachedTree) : Prop where
  bitmap : st.alloc.bitmap.WF aal
  /-- The hash table has the loaded nodes, each at its number. -/
  hashed : ∀ {id n}, st.nodes id = some n → st.hash n.nr = some id
  loaded : ∀ {b id}, st.hash b = some id → ∃ n, st.nodes id = some n ∧ n.nr = b
  root : st.root = st.formatRoot.bind st.hash
  top : ∀ {id n}, st.nodes id = some n → (n.p = none ↔ st.formatRoot = some n.nr)
  /-- The parent place of a node holds the pointer to it. -/
  parent : ∀ {id n pid i}, st.nodes id = some n → n.p = some (pid, i) → ∃ p it,
    st.nodes pid = some p ∧ p.level = n.level + 1 ∧ p.items[i]? = some it ∧
      it.downLink = some n.nr
  /-- A pointer to a loaded node is the one at its parent place. -/
  child : ∀ {pid p i it b id}, st.nodes pid = some p → p.items[i]? = some it →
    it.downLink = some b → st.hash b = some id → ∃ n, st.nodes id = some n ∧ n.p = some (pid, i)
  counter : ∀ {id n}, st.nodes id = some n → n.counter = st.loadedChildren n + locks id
  /-- The nodes that are being walked have got their numbers. -/
  walked : ∀ {id}, 0 < locks id → ∃ n, st.nodes id = some n ∧ reiser4FakeAck n.nr = false
  level : ∀ {id n}, st.nodes id = some n → n.level ≤ st.height
  clean : ∀ {id n}, st.nodes id = some n → n.dirty = false → st.device n.nr = some (.node n.img)
  real : ∀ {id n}, st.nodes id = some n → reiser4FakeAck n.nr = false → st.has aal n.nr
  /-- A pointer to a node that is not loaded names a marked block. -/
  link : ∀ {id n it b}, st.nodes id = some n → it ∈ n.items → it.downLink = some b →
    st.hash b = none → st.has aal b
  /-- A node that is not loaded is on a marked block, and so are its children. -/
  stored : ∀ {b}, b ∈ st.view.blocks → st.hash b = none → st.has aal b ∧
    ∀ it ∈ st.view.items b, ∀ c, it.downLink = some c → st.hash c = none ∧ st.has aal c
  height : 0 < st.height
  distinct : st.view.blocks.Nodup
  /-- Data has blocks of its own. -/
  data : ∀ d ∈ st.blocks, st.has aal d.nr ∧ d.nr ∉ st.view.blocks ∧ st.hash d.nr = none

namespace Coherent

variable {aal : AalBits} {locks : Nat → Nat} {st : CachedTree}

/-- A marked block is not fake. -/
theorem not_fake (hc : Coherent aal locks st) {b : Nat} (hb : st.has aal b) :
    reiser4FakeAck b = false := by
  have h1 : b < st.alloc.bitmap.total := Bitmap.has_lt hb
  have h2 := hc.bitmap.sized.total_lt
  exact reiser4FakeAck_of_lt (by omega)

/-- Two nodes have two numbers. -/
theorem nr_inj (hc : Coherent aal locks st) {x y : Nat} {m n : CachedNode}
    (hx : st.nodes x = some m) (hy : st.nodes y = some n) (h : m.nr = n.nr) : x = y := by
  have h1 := hc.hashed hx
  rw [h, hc.hashed hy] at h1
  exact (Option.some.inj h1).symm

theorem root_mem (hc : Coherent aal locks st) {r : Nat} (hr : st.formatRoot = some r) :
    r ∈ st.view.blocks := by
  unfold Tree.blocks
  show r ∈ (match st.formatRoot with | none => [] | some r => st.view.blocksBelow st.height r)
  rw [hr]
  exact Tree.blocksBelow_self hc.height

/-- No node is its own parent. -/
theorem parent_ne (hc : Coherent aal locks st) {id i : Nat} {n : CachedNode}
    (hn : st.nodes id = some n) : n.p ≠ some (id, i) := by
  intro hp
  obtain ⟨p, it, hpn, hlevel, -⟩ := hc.parent hn hp
  obtain rfl : n = p := Option.some.inj (hn.symm.trans hpn)
  omega

theorem isLoaded_iff (hc : Coherent aal locks st) {it : Item} :
    st.isLoaded it = true ↔ ∃ b id n, it.downLink = some b ∧ st.hash b = some id ∧
      st.nodes id = some n ∧ n.nr = b := by
  unfold CachedTree.isLoaded
  constructor
  · intro h
    cases hb : it.downLink with
    | none => simp [hb] at h
    | some b =>
      rw [hb] at h
      obtain ⟨id, hid⟩ := Option.isSome_iff_exists.mp h
      obtain ⟨n, hn, hnr⟩ := hc.loaded hid
      exact ⟨b, id, n, rfl, hid, hn, hnr⟩
  · rintro ⟨b, id, n, hb, hid, -⟩
    simp [hb, hid]

end Coherent

/-! ## Moving a node -/

/-- The numbers when the block `old` becomes `new`. -/
def moveNr (old new : Nat) (b : Nat) : Nat := if b = old then new else b

@[simp] theorem moveNr_old (old new : Nat) : moveNr old new old = new := if_pos rfl

theorem moveNr_inj {old new a b : Nat} (ha : a ≠ new) (hb : b ≠ new)
    (h : moveNr old new a = moveNr old new b) : a = b := by
  unfold moveNr at h
  split at h
  · split at h
    · next h1 h2 => exact h1.trans h2.symm
    · exact absurd h.symm hb
  · split at h
    · exact absurd h ha
    · exact h

theorem moveNr_of_ne {old new b : Nat} (h : b ≠ old) : moveNr old new b = b := if_neg h

def CachedNode.move (f : Nat → Nat) (touched : Bool) (n : CachedNode) : CachedNode :=
  { n with nr := f n.nr, items := n.items.map (Item.relink f), dirty := n.dirty || touched }

/-- The node `id` moves from `old` to `new`, with its parent place `p`. -/
def CachedTree.moveNode (st : CachedTree) (id old new : Nat) (p : Option (Nat × Nat))
    (alloc : Alloc40.Alloc) : CachedTree :=
  { st with
    nodes := fun x => (st.nodes x).map
      (CachedNode.move (moveNr old new) (decide (x = id) || p.any fun q => decide (q.1 = x)))
    hash := fun b => if b = new then some id else if b = old then none else st.hash b
    formatRoot := st.formatRoot.map (moveNr old new)
    alloc := alloc }

/-- The node `id` has the fake number of `n`, and the allocator gave the free block `new` for it. -/
structure MoveOk (aal : AalBits) (locks : Nat → Nat) (st : CachedTree) (id new : Nat)
    (n : CachedNode) (alloc : Alloc40.Alloc) : Prop where
  coherent : Coherent aal locks st
  node : st.nodes id = some n
  fake : reiser4FakeAck n.nr = true
  bitmap : alloc.bitmap.WF aal
  free : ¬ st.has aal new
  marks : ∀ i, alloc.bitmap.has aal i = (decide (i = new) || st.alloc.bitmap.has aal i)

namespace MoveOk

variable {aal : AalBits} {locks : Nat → Nat} {st : CachedTree} {id new : Nat} {n : CachedNode}
  {alloc : Alloc40.Alloc}

theorem has_iff (hm : MoveOk aal locks st id new n alloc) {b : Nat} :
    (st.moveNode id n.nr new n.p alloc).has aal b ↔ b = new ∨ st.has aal b := by
  unfold CachedTree.has
  show alloc.bitmap.has aal b = true ↔ _
  rw [hm.marks b, Bool.or_eq_true, decide_eq_true_eq]

theorem new_real (hm : MoveOk aal locks st id new n alloc) : reiser4FakeAck new = false := by
  have h1 : new < alloc.bitmap.total := Bitmap.has_lt (by rw [hm.marks new]; simp)
  have h2 := hm.bitmap.sized.total_lt
  exact reiser4FakeAck_of_lt (by omega)

/-- No node has the new number yet. -/
theorem hash_new (hm : MoveOk aal locks st id new n alloc) : st.hash new = none := by
  cases h : st.hash new with
  | none => rfl
  | some x =>
    obtain ⟨m, hx, rfl⟩ := hm.coherent.loaded h
    exact absurd (hm.coherent.real hx hm.new_real) hm.free

/-- The hash table has the nodes at their new numbers. -/
theorem hash_move (hm : MoveOk aal locks st id new n alloc) {b : Nat} (hb : b ≠ new) :
    (st.moveNode id n.nr new n.p alloc).hash (moveNr n.nr new b) = st.hash b := by
  show (if moveNr n.nr new b = new then some id
    else if moveNr n.nr new b = n.nr then none else st.hash (moveNr n.nr new b)) = _
  by_cases h : b = n.nr
  · rw [h, moveNr_old, if_pos rfl, hm.coherent.hashed hm.node]
  · rw [moveNr_of_ne h, if_neg hb, if_neg h]

/-- A pointer of a loaded node does not name the new block. -/
theorem link_ne (hm : MoveOk aal locks st id new n alloc) {x : Nat} {m : CachedNode}
    (hx : st.nodes x = some m) {it : Item} (hit : it ∈ m.items) {c : Nat}
    (hc : it.downLink = some c) : c ≠ new := by
  rintro rfl
  exact hm.free (hm.coherent.link hx hit hc hm.hash_new)

theorem block_ne (hm : MoveOk aal locks st id new n alloc) {b : Nat} (hb : b ∈ st.view.blocks) :
    b ≠ new := by
  rintro rfl
  exact hm.free (hm.coherent.stored hb hm.hash_new).1

/-- The moved node is pointed to at its parent place only. -/
theorem link_old (hm : MoveOk aal locks st id new n alloc) {x i : Nat} {m : CachedNode}
    (hx : st.nodes x = some m) {it : Item} (hit : m.items[i]? = some it)
    (hc : it.downLink = some n.nr) : n.p = some (x, i) := by
  obtain ⟨n', hn', hp⟩ := hm.coherent.child hx hit hc (hm.coherent.hashed hm.node)
  obtain rfl : n = n' := Option.some.inj (hm.node.symm.trans hn')
  exact hp

theorem isLoaded_move (hm : MoveOk aal locks st id new n alloc) {x : Nat} {m : CachedNode}
    (hx : st.nodes x = some m) {it : Item} (hit : it ∈ m.items) :
    (st.moveNode id n.nr new n.p alloc).isLoaded (it.relink (moveNr n.nr new)) = st.isLoaded it := by
  unfold CachedTree.isLoaded
  rw [Item.relink_downLink]
  cases hc : it.downLink with
  | none => rfl
  | some c =>
    show Option.isSome (CachedTree.hash _ (moveNr n.nr new c)) = Option.isSome (st.hash c)
    rw [hm.hash_move (hm.link_ne hx hit hc)]

/-- The nodes after the move. -/
theorem nodes_move {x : Nat} {m' : CachedNode}
    (h : (st.moveNode id n.nr new n.p alloc).nodes x = some m') :
    ∃ m, st.nodes x = some m ∧ m' = m.move (moveNr n.nr new)
      (decide (x = id) || n.p.any fun q => decide (q.1 = x)) := by
  obtain ⟨m, hm, rfl⟩ := Option.map_eq_some_iff.mp h
  exact ⟨m, hm, rfl⟩

/-- A node that is not touched has no pointer to the moved one. -/
theorem relink_untouched (hm : MoveOk aal locks st id new n alloc) {x : Nat} {m : CachedNode}
    (hx : st.nodes x = some m) (hp : ∀ i, n.p ≠ some (x, i)) :
    m.img.relink (moveNr n.nr new) = m.img := by
  refine NodeImg.relink_self fun it hit c hc => moveNr_of_ne ?_
  rintro rfl
  obtain ⟨i, hi⟩ := List.getElem?_of_mem hit
  exact hp i (hm.link_old hx hi hc)

theorem renames (hm : MoveOk aal locks st id new n alloc) :
    st.view.Renames (st.moveNode id n.nr new n.p alloc).view (moveNr n.nr new) where
  root := rfl
  height := rfl
  blksize := rfl
  pol := rfl
  store b hb := by
    have hne := hm.block_ne hb
    cases hh : st.hash b with
    | some x =>
      rw [CachedTree.view_store_loaded ((hm.hash_move hne).trans hh), CachedTree.view_store_loaded hh]
      show ((st.nodes x).map _).map CachedNode.img = _
      rw [Option.map_map, Option.map_map]
      rfl
    | none =>
      have hview := CachedTree.view_store_unloaded hh
      have hold : b ≠ n.nr := by
        rintro rfl
        rw [hm.coherent.hashed hm.node] at hh
        cases hh
      rw [CachedTree.view_store_unloaded ((hm.hash_move hne).trans hh), hview, moveNr_of_ne hold]
      change (st.device b).bind Contents.img = _
      cases hd : (st.device b).bind Contents.img with
      | none => rfl
      | some img =>
        have hitems : st.view.items b = img.items := by rw [Tree.items, hview, hd]
        rw [Option.map_some, NodeImg.relink_self]
        intro it hit c hc
        rw [← hitems] at hit
        have hcn := ((hm.coherent.stored hb hh).2 it hit c hc).1
        refine moveNr_of_ne ?_
        rintro rfl
        rw [hm.coherent.hashed hm.node] at hcn
        cases hcn
  inj a ha b hb h := moveNr_inj (hm.block_ne ha) (hm.block_ne hb) h

/-- A loaded node does not have the new number. -/
theorem nr_ne (hm : MoveOk aal locks st id new n alloc) {x : Nat} {m : CachedNode}
    (hx : st.nodes x = some m) : m.nr ≠ new := by
  rintro rfl
  have h := hm.coherent.hashed hx
  rw [hm.hash_new] at h
  cases h

/-- A number without a loaded node stays. -/
theorem moveNr_unloaded (hm : MoveOk aal locks st id new n alloc) {b : Nat}
    (hb : st.hash b = none) : moveNr n.nr new b = b := by
  refine moveNr_of_ne ?_
  rintro rfl
  rw [hm.coherent.hashed hm.node] at hb
  cases hb

/-- Giving a node its number keeps the cache coherent. -/
theorem coherent_move (hm : MoveOk aal locks st id new n alloc) :
    Coherent aal locks (st.moveNode id n.nr new n.p alloc) where
  bitmap := hm.bitmap
  hashed hx' := by
    obtain ⟨m, hx, rfl⟩ := nodes_move hx'
    exact (hm.hash_move (hm.nr_ne hx)).trans (hm.coherent.hashed hx)
  loaded {b x} hb := by
    have hmoved : ∀ {x m}, st.nodes x = some m → ∃ m', (st.moveNode id n.nr new n.p alloc).nodes x =
        some m' ∧ m'.nr = moveNr n.nr new m.nr := fun hx => ⟨_, by
      show (st.nodes _).map _ = _
      rw [hx]
      rfl, rfl⟩
    change (if b = new then some id else if b = n.nr then none else st.hash b) = some x at hb
    split at hb
    · next h =>
      cases hb
      obtain ⟨m', hm', hnr⟩ := hmoved hm.node
      exact ⟨m', hm', by rw [hnr, moveNr_old, h]⟩
    · split at hb
      · cases hb
      · next h =>
        obtain ⟨m, hx, rfl⟩ := hm.coherent.loaded hb
        obtain ⟨m', hm', hnr⟩ := hmoved hx
        exact ⟨m', hm', by rw [hnr, moveNr_of_ne h]⟩
  root := by
    show st.root = (st.formatRoot.map _).bind _
    rw [hm.coherent.root]
    cases hr : st.formatRoot with
    | none => rfl
    | some r => exact (hm.hash_move (hm.block_ne (hm.coherent.root_mem hr))).symm
  top hx' := by
    obtain ⟨m, hx, rfl⟩ := nodes_move hx'
    show m.p = none ↔ st.formatRoot.map _ = some (moveNr n.nr new m.nr)
    rw [hm.coherent.top hx]
    constructor
    · intro hr
      rw [hr]
      rfl
    · intro hr
      obtain ⟨r, hr', heq⟩ := Option.map_eq_some_iff.mp hr
      rw [hr', moveNr_inj (hm.block_ne (hm.coherent.root_mem hr')) (hm.nr_ne hx) heq]
  parent hx' hp := by
    obtain ⟨m, hx, rfl⟩ := nodes_move hx'
    obtain ⟨p, it, hpn, hlevel, hit, hlink⟩ := hm.coherent.parent hx hp
    refine ⟨_, it.relink (moveNr n.nr new), Option.map_eq_some_iff.mpr ⟨p, hpn, rfl⟩, hlevel, ?_, ?_⟩
    · show (p.items.map _)[_]? = _
      rw [List.getElem?_map, hit]
      rfl
    · rw [Item.relink_downLink, hlink]
      rfl
  child {pid p' i it' b x} hpn' hit' hlink' hb := by
    obtain ⟨p, hpn, rfl⟩ := nodes_move hpn'
    change (p.items.map _)[i]? = some it' at hit'
    rw [List.getElem?_map] at hit'
    obtain ⟨it, hit, rfl⟩ := Option.map_eq_some_iff.mp hit'
    rw [Item.relink_downLink] at hlink'
    obtain ⟨c, hlink, rfl⟩ := Option.map_eq_some_iff.mp hlink'
    rw [hm.hash_move (hm.link_ne hpn (List.mem_of_getElem? hit) hlink)] at hb
    obtain ⟨m, hx, hp⟩ := hm.coherent.child hpn hit hlink hb
    exact ⟨_, Option.map_eq_some_iff.mpr ⟨m, hx, rfl⟩, hp⟩
  counter hx' := by
    obtain ⟨m, hx, rfl⟩ := nodes_move hx'
    show m.counter = (m.items.map _).countP _ + _
    rw [hm.coherent.counter hx, CachedTree.loadedChildren, List.countP_map]
    congr 1
    refine List.countP_congr fun it hit => ?_
    rw [Function.comp_apply, hm.isLoaded_move hx hit]
  walked hl := by
    obtain ⟨m, hx, hreal⟩ := hm.coherent.walked hl
    refine ⟨_, Option.map_eq_some_iff.mpr ⟨m, hx, rfl⟩, ?_⟩
    show reiser4FakeAck (moveNr n.nr new m.nr) = false
    unfold moveNr
    split
    · exact hm.new_real
    · exact hreal
  level hx' := by
    obtain ⟨m, hx, rfl⟩ := nodes_move hx'
    show m.level ≤ st.height
    exact hm.coherent.level hx
  clean {x m'} hx' hdirty := by
    obtain ⟨m, hx, rfl⟩ := nodes_move hx'
    change (m.dirty || (decide (x = id) || n.p.any fun q => decide (q.1 = x))) = false at hdirty
    simp only [Bool.or_eq_false_iff, decide_eq_false_iff_not] at hdirty
    obtain ⟨hclean, hid, hpar⟩ := hdirty
    have hnr : m.nr ≠ n.nr := fun h => hid (hm.coherent.nr_inj hx hm.node h)
    have himg := hm.relink_untouched hx fun i hp => by simp [hp] at hpar
    show st.device (moveNr n.nr new m.nr) = some (.node (m.img.relink (moveNr n.nr new)))
    rw [moveNr_of_ne hnr, himg]
    exact hm.coherent.clean hx hclean
  real hx' hreal := by
    obtain ⟨m, hx, rfl⟩ := nodes_move hx'
    change reiser4FakeAck (moveNr n.nr new m.nr) = false at hreal
    show (st.moveNode id n.nr new n.p alloc).has aal (moveNr n.nr new m.nr)
    unfold moveNr at hreal ⊢
    split at hreal
    · next h => rw [if_pos h]; exact hm.has_iff.mpr (.inl rfl)
    · next h =>
      rw [if_neg h]
      exact hm.has_iff.mpr (.inr (hm.coherent.real hx hreal))
  link {x m' it' b} hx' hit' hlink' hb := by
    obtain ⟨m, hx, rfl⟩ := nodes_move hx'
    obtain ⟨it, hit, rfl⟩ := List.mem_map.mp hit'
    rw [Item.relink_downLink] at hlink'
    obtain ⟨c, hlink, rfl⟩ := Option.map_eq_some_iff.mp hlink'
    rw [hm.hash_move (hm.link_ne hx hit hlink)] at hb
    rw [hm.moveNr_unloaded hb]
    exact hm.has_iff.mpr (.inr (hm.coherent.link hx hit hlink hb))
  stored {b'} hb' hh := by
    rw [hm.renames.blocks] at hb'
    obtain ⟨b, hb, rfl⟩ := List.mem_map.mp hb'
    rw [hm.hash_move (hm.block_ne hb)] at hh
    have hstored := hm.coherent.stored hb hh
    have hitems : (st.moveNode id n.nr new n.p alloc).view.items (moveNr n.nr new b) =
        (st.view.items b).map (Item.relink (moveNr n.nr new)) :=
      @Tree.Moved.items _ _ _ [b] (fun b' hb' => by
        rw [List.mem_singleton.mp hb']
        exact hm.renames.store b hb) _ List.mem_cons_self
    rw [hitems]
    rw [hm.moveNr_unloaded hh]
    refine ⟨hm.has_iff.mpr (.inr hstored.1), fun it' hit' c' hc' => ?_⟩
    obtain ⟨it, hit, rfl⟩ := List.mem_map.mp hit'
    rw [Item.relink_downLink] at hc'
    obtain ⟨c, hc, rfl⟩ := Option.map_eq_some_iff.mp hc'
    obtain ⟨hcn, hchas⟩ := hstored.2 it hit c hc
    have hcne : c ≠ new := by
      rintro rfl
      exact hm.free hchas
    refine ⟨(hm.hash_move hcne).trans hcn, ?_⟩
    rw [hm.moveNr_unloaded hcn]
    exact hm.has_iff.mpr (.inr hchas)
  height := hm.coherent.height
  distinct := hm.renames.nodup hm.coherent.distinct
  data d hd := by
    obtain ⟨hhas, hblocks, hh⟩ := hm.coherent.data d hd
    have hne : d.nr ≠ new := by
      rintro h
      exact hm.free (h ▸ hhas)
    refine ⟨hm.has_iff.mpr (.inr hhas), ?_, ?_⟩
    · rw [hm.renames.blocks]
      intro hmem
      obtain ⟨b, hb, heq⟩ := List.mem_map.mp hmem
      unfold moveNr at heq
      split at heq
      · exact hne heq.symm
      · exact hblocks (heq ▸ hb)
    · have := hm.hash_move hne
      rwa [hm.moveNr_unloaded hh, hh] at this

end MoveOk

/-! ## Locks -/

namespace Coherent

variable {aal : AalBits} {locks : Nat → Nat} {st : CachedTree}

theorem view_setCounter {id c : Nat} {n : CachedNode} (hn : st.nodes id = some n) :
    (st.setNode id (some { n with counter := c })).view = st.view := by
  have hhash : (st.setNode id (some { n with counter := c })).hash = st.hash := rfl
  have hstore : (st.setNode id (some { n with counter := c })).view.store = st.view.store := by
    funext b
    cases hh : st.hash b with
    | none =>
      rw [CachedTree.view_store_unloaded hh, CachedTree.view_store_unloaded (by rw [hhash, hh])]
      rfl
    | some x =>
      rw [CachedTree.view_store_loaded hh, CachedTree.view_store_loaded (by rw [hhash, hh])]
      show ((if x = id then some { n with counter := c } else st.nodes x).map CachedNode.img) = _
      split
      · next h =>
        subst h
        show some n.img = (st.nodes x).map CachedNode.img
        rw [hn]
        rfl
      · rfl
  unfold CachedTree.view at hstore ⊢
  congr 1

/-- The counter of a node and the locks of the walk change together. -/
theorem setCounter (hc : Coherent aal locks st) {locks' : Nat → Nat} {id c : Nat} {n : CachedNode}
    (hn : st.nodes id = some n) (hother : ∀ x, x ≠ id → locks' x = locks x)
    (hcounter : c = st.loadedChildren n + locks' id)
    (hreal : 0 < locks' id → reiser4FakeAck n.nr = false) :
    Coherent aal locks' (st.setNode id (some { n with counter := c })) := by
  have hnodes : ∀ {x m'}, (st.setNode id (some { n with counter := c })).nodes x = some m' →
      ∃ m k, st.nodes x = some m ∧ m' = { m with counter := k } := by
    intro x m' h
    change (if x = id then some { n with counter := c } else st.nodes x) = some m' at h
    split at h
    · next hx =>
      cases h
      exact ⟨n, c, hx ▸ hn, rfl⟩
    · exact ⟨m', m'.counter, h, rfl⟩
  have hback : ∀ {x m}, st.nodes x = some m → ∃ k,
      (st.setNode id (some { n with counter := c })).nodes x = some { m with counter := k } := by
    intro x m hx
    by_cases h : x = id
    · subst h
      obtain rfl : n = m := Option.some.inj (hn.symm.trans hx)
      exact ⟨c, if_pos rfl⟩
    · exact ⟨m.counter, (if_neg h).trans hx⟩
  have hview := view_setCounter (c := c) hn
  exact {
    bitmap := hc.bitmap
    hashed := fun hx => by
      obtain ⟨m, k, hm, rfl⟩ := hnodes hx
      exact (hc.hashed hm :)
    loaded := fun hb => by
      obtain ⟨m, hm, hnr⟩ := hc.loaded hb
      obtain ⟨k, hk⟩ := hback hm
      exact ⟨_, hk, hnr⟩
    root := hc.root
    top := fun hx => by
      obtain ⟨m, k, hm, rfl⟩ := hnodes hx
      exact (hc.top hm :)
    parent := fun hx hp => by
      obtain ⟨m, k, hm, rfl⟩ := hnodes hx
      obtain ⟨p, it, hpn, hlevel, hit, hlink⟩ := hc.parent hm hp
      obtain ⟨k', hk⟩ := hback hpn
      exact ⟨_, it, hk, hlevel, hit, hlink⟩
    child := fun hp hit hlink hb => by
      obtain ⟨p, k, hpn, rfl⟩ := hnodes hp
      obtain ⟨m, hm, hpl⟩ := hc.child hpn hit hlink hb
      obtain ⟨k', hk⟩ := hback hm
      exact ⟨_, hk, hpl⟩
    counter := fun {x m'} hx => by
      change (if x = id then some { n with counter := c } else st.nodes x) = some m' at hx
      split at hx
      · next h =>
        cases hx
        rw [h]
        exact hcounter
      · next h =>
        rw [hother x h]
        exact hc.counter hx
    walked := fun {x} hl => by
      by_cases h : x = id
      · exact ⟨_, if_pos h, hreal (h ▸ hl)⟩
      · rw [hother x h] at hl
        obtain ⟨m, hm, hr⟩ := hc.walked hl
        exact ⟨m, (if_neg h).trans hm, hr⟩
    level := fun hx => by
      obtain ⟨m, k, hm, rfl⟩ := hnodes hx
      exact (hc.level hm :)
    clean := fun hx hd => by
      obtain ⟨m, k, hm, rfl⟩ := hnodes hx
      exact (hc.clean hm hd :)
    real := fun hx hr => by
      obtain ⟨m, k, hm, rfl⟩ := hnodes hx
      exact (hc.real hm hr :)
    link := fun hx hit hlink hb => by
      obtain ⟨m, k, hm, rfl⟩ := hnodes hx
      exact hc.link hm hit hlink hb
    stored := by
      rw [hview]
      exact hc.stored
    height := hc.height
    distinct := by
      rw [hview]
      exact hc.distinct
    data := by
      rw [hview]
      exact hc.data }

end Coherent

/-! ## Unloading a node -/

/-- One element less has the property. -/
theorem countP_eq_succ {α : Type} {p q : α → Bool} : ∀ {l : List α} {i : Nat} {a : α},
    l[i]? = some a → p a = true → q a = false →
    (∀ j x, l[j]? = some x → j ≠ i → p x = q x) → l.countP p = l.countP q + 1
  | [], i, a, ha, _, _, _ => by simp at ha
  | b :: l, 0, a, ha, hp, hq, hother => by
    obtain rfl : b = a := by simpa using ha
    have hrest : l.countP p = l.countP q := by
      refine List.countP_congr fun x hx => ?_
      obtain ⟨j, hj⟩ := List.getElem?_of_mem hx
      rw [hother (j + 1) x (by simpa using hj) (by omega)]
    rw [List.countP_cons, List.countP_cons, hrest]
    simp [hp, hq]
  | b :: l, i + 1, a, ha, hp, hq, hother => by
    have hrest : l.countP p = l.countP q + 1 :=
      countP_eq_succ (i := i) (by simpa using ha) hp hq fun j x hj hne =>
        hother (j + 1) x (by simpa using hj) (by omega)
    rw [List.countP_cons, List.countP_cons, hrest, hother 0 b rfl (by omega)]
    omega

/-- The node `id` is written and leaves the cache. -/
def CachedTree.unload (st : CachedTree) (id : Nat) (n : CachedNode) : CachedTree :=
  { st with
    nodes := fun x =>
      if x = id then none
      else (st.nodes x).map fun m => { m with
        counter := if n.p.any fun q => decide (q.1 = x) then m.counter - 1 else m.counter }
    hash := fun b => if b = n.nr then none else st.hash b
    root := if st.root = some id then none else st.root
    device := fun b => if b = n.nr then some (.node n.img) else st.device b }

namespace Coherent

variable {aal : AalBits} {locks : Nat → Nat} {st : CachedTree} {id : Nat} {n : CachedNode}

/-- The tree seen through the cache is the same. -/
theorem view_unload (hc : Coherent aal locks st) (hn : st.nodes id = some n) :
    (st.unload id n).view = st.view := by
  have hhash : ∀ b, (st.unload id n).hash b = if b = n.nr then none else st.hash b := fun _ => rfl
  have hdevice : ∀ b, (st.unload id n).device b =
      if b = n.nr then some (Contents.node n.img) else st.device b := fun _ => rfl
  have hstore : (st.unload id n).view.store = st.view.store := by
    funext b
    by_cases hb : b = n.nr
    · subst hb
      rw [CachedTree.view_store_unloaded (by rw [hhash, if_pos rfl]), hdevice, if_pos rfl,
        CachedTree.view_store_loaded (hc.hashed hn)]
      show some n.img = (st.nodes id).map CachedNode.img
      rw [hn]
      rfl
    · cases hh : st.hash b with
      | none =>
        rw [CachedTree.view_store_unloaded (by rw [hhash, if_neg hb, hh]), hdevice, if_neg hb,
          CachedTree.view_store_unloaded hh]
      | some x =>
        have hx : x ≠ id := by
          rintro rfl
          obtain ⟨m, hm, rfl⟩ := hc.loaded hh
          obtain rfl : n = m := Option.some.inj (hn.symm.trans hm)
          exact hb rfl
        rw [CachedTree.view_store_loaded (by rw [hhash, if_neg hb, hh]), CachedTree.view_store_loaded hh]
        show (if x = id then none else (st.nodes x).map _).map CachedNode.img = _
        rw [if_neg hx, Option.map_map]
        rfl
  unfold CachedTree.view at hstore ⊢
  congr 1

/-- An unlocked node has no loaded children and is not being walked. -/
theorem unlocked (hc : Coherent aal locks st) (hn : st.nodes id = some n) (hcount : n.counter = 0) :
    locks id = 0 ∧ ∀ it ∈ n.items, ∀ c, it.downLink = some c → st.hash c = none := by
  have h := hc.counter hn
  rw [hcount] at h
  refine ⟨by omega, fun it hit c hlink => ?_⟩
  have hzero : n.items.countP st.isLoaded = 0 := by
    unfold CachedTree.loadedChildren at h
    omega
  have hnot := List.countP_eq_zero.mp hzero it hit
  unfold CachedTree.isLoaded at hnot
  rw [hlink] at hnot
  simpa using hnot

/-- Unloading an unlocked node that has its number keeps the cache coherent. -/
theorem unload (hc : Coherent aal locks st) (hn : st.nodes id = some n) (hcount : n.counter = 0)
    (hreal : reiser4FakeAck n.nr = false) : Coherent aal locks (st.unload id n) := by
  obtain ⟨hlock, hlinks⟩ := hc.unlocked hn hcount
  have hnodes : ∀ {x m'}, (st.unload id n).nodes x = some m' → x ≠ id ∧ ∃ m, st.nodes x = some m ∧
      m' = { m with
        counter := if n.p.any fun q => decide (q.1 = x) then m.counter - 1 else m.counter } := by
    intro x m' h
    change (if x = id then none else (st.nodes x).map _) = some m' at h
    split at h
    · cases h
    · next hx =>
      obtain ⟨m, hm, rfl⟩ := Option.map_eq_some_iff.mp h
      exact ⟨hx, m, hm, rfl⟩
  have hback : ∀ {x m}, x ≠ id → st.nodes x = some m → ∃ k,
      (st.unload id n).nodes x = some { m with counter := k } := by
    intro x m hx hm
    refine ⟨if n.p.any fun q => decide (q.1 = x) then m.counter - 1 else m.counter,
      (if_neg hx).trans ?_⟩
    rw [hm]
    rfl
  have hnr : ∀ {x m}, x ≠ id → st.nodes x = some m → m.nr ≠ n.nr :=
    fun hx hm h => hx (hc.nr_inj hm hn h)
  have hhash : ∀ {b x}, (st.unload id n).hash b = some x → b ≠ n.nr ∧ x ≠ id ∧
      st.hash b = some x := by
    intro b x h
    change (if b = n.nr then none else st.hash b) = some x at h
    split at h
    · cases h
    · next hb =>
      refine ⟨hb, ?_, h⟩
      rintro rfl
      obtain ⟨m, hm, rfl⟩ := hc.loaded h
      obtain rfl : n = m := Option.some.inj (hn.symm.trans hm)
      exact hb rfl
  have hnone : ∀ {b}, st.hash b = none → (st.unload id n).hash b = none := by
    intro b h
    show (if b = n.nr then none else st.hash b) = none
    rw [h, ite_self]
  have hsame : ∀ {it : Item}, it.downLink ≠ some n.nr →
      (st.unload id n).isLoaded it = st.isLoaded it := by
    intro it h
    unfold CachedTree.isLoaded
    cases hlink : it.downLink with
    | none => rfl
    | some c =>
      have hne : c ≠ n.nr := by
        rintro rfl
        exact h hlink
      show Option.isSome (if c = n.nr then none else st.hash c) = _
      rw [if_neg hne]
  -- the pointer to the node is the one at its parent place
  have hplace : ∀ {x m j it}, st.nodes x = some m → m.items[j]? = some it →
      it.downLink = some n.nr → n.p = some (x, j) := by
    intro x m j it hm hit hlink
    obtain ⟨n', hn', hp⟩ := hc.child hm hit hlink (hc.hashed hn)
    obtain rfl : n = n' := Option.some.inj (hn.symm.trans hn')
    exact hp
  have hview := hc.view_unload hn
  exact {
    bitmap := hc.bitmap
    hashed := fun {x _} hx => by
      obtain ⟨hne, m, hm, rfl⟩ := hnodes hx
      exact (if_neg (hnr hne hm)).trans (hc.hashed hm :)
    loaded := fun hb => by
      obtain ⟨-, hne, hb⟩ := hhash hb
      obtain ⟨m, hm, rfl⟩ := hc.loaded hb
      obtain ⟨k, hk⟩ := hback hne hm
      exact ⟨_, hk, rfl⟩
    root := by
      show (if st.root = some id then none else st.root) = st.formatRoot.bind fun b =>
        if b = n.nr then none else st.hash b
      rw [hc.root]
      cases hr : st.formatRoot with
      | none => rfl
      | some r =>
        show (if st.hash r = some id then none else st.hash r) = if r = n.nr then none else st.hash r
        by_cases h : r = n.nr
        · rw [h, if_pos (hc.hashed hn), if_pos rfl]
        · rw [if_neg h, if_neg]
          intro hid
          obtain ⟨m, hm, rfl⟩ := hc.loaded hid
          obtain rfl : n = m := Option.some.inj (hn.symm.trans hm)
          exact h rfl
    top := fun hx => by
      obtain ⟨-, m, hm, rfl⟩ := hnodes hx
      exact (hc.top hm :)
    parent := fun {x _ pid i} hx hp => by
      obtain ⟨-, m, hm, rfl⟩ := hnodes hx
      obtain ⟨p, it, hpn, hlevel, hit, hlink⟩ := hc.parent hm hp
      have hne : pid ≠ id := by
        rintro rfl
        obtain rfl : n = p := Option.some.inj (hn.symm.trans hpn)
        have := hlinks it (List.mem_of_getElem? hit) _ hlink
        rw [hc.hashed hm] at this
        cases this
      obtain ⟨k, hk⟩ := hback hne hpn
      exact ⟨_, it, hk, hlevel, hit, hlink⟩
    child := fun hp hit hlink hb => by
      obtain ⟨-, p, hpn, rfl⟩ := hnodes hp
      obtain ⟨-, hne, hb⟩ := hhash hb
      obtain ⟨m, hm, hpl⟩ := hc.child hpn hit hlink hb
      obtain ⟨k, hk⟩ := hback hne hm
      exact ⟨_, hk, hpl⟩
    counter := fun {x _} hx => by
      obtain ⟨-, m, hm, rfl⟩ := hnodes hx
      have hcounter := hc.counter hm
      show (if n.p.any fun q => decide (q.1 = x) then m.counter - 1 else m.counter) =
        m.items.countP (st.unload id n).isLoaded + locks x
      unfold CachedTree.loadedChildren at hcounter
      split
      · next hany =>
        obtain ⟨i, hp⟩ : ∃ i, n.p = some (x, i) := by
          cases hp : n.p with
          | none => simp [hp] at hany
          | some q =>
            rw [hp] at hany
            exact ⟨q.2, by rw [← of_decide_eq_true hany]⟩
        obtain ⟨p, it, hpn, -, hit, hlink⟩ := hc.parent hn hp
        obtain rfl : p = m := Option.some.inj (hpn.symm.trans hm)
        have hcount := countP_eq_succ (p := st.isLoaded) (q := (st.unload id n).isLoaded) hit
          (hc.isLoaded_iff.mpr ⟨_, id, n, hlink, hc.hashed hn, hn, rfl⟩) (by
            unfold CachedTree.isLoaded
            rw [hlink]
            show Option.isSome (if n.nr = n.nr then none else st.hash n.nr) = false
            rw [if_pos rfl]
            rfl)
          fun j y hy hne => (hsame fun hl => hne (by
            have h := hplace hm hy hl
            rw [hp] at h
            cases h
            rfl)).symm
        rw [hcount] at hcounter
        omega
      · next hany =>
        have hcongr : m.items.countP (st.unload id n).isLoaded = m.items.countP st.isLoaded := by
          refine List.countP_congr fun it hit => ?_
          rw [hsame]
          intro hlink
          obtain ⟨j, hj⟩ := List.getElem?_of_mem hit
          exact hany (by simp [hplace hm hj hlink])
        rw [hcongr, hcounter]
    walked := fun {x} hl => by
      have hne : x ≠ id := by
        rintro rfl
        omega
      obtain ⟨m, hm, hr⟩ := hc.walked hl
      obtain ⟨k, hk⟩ := hback hne hm
      exact ⟨_, hk, hr⟩
    level := fun hx => by
      obtain ⟨-, m, hm, rfl⟩ := hnodes hx
      exact (hc.level hm :)
    clean := fun hx hd => by
      obtain ⟨hne, m, hm, rfl⟩ := hnodes hx
      exact (if_neg (hnr hne hm)).trans (hc.clean hm hd :)
    real := fun hx hr => by
      obtain ⟨-, m, hm, rfl⟩ := hnodes hx
      exact (hc.real hm hr :)
    link := fun {x _ it b} hx hit hlink hb => by
      obtain ⟨-, m, hm, rfl⟩ := hnodes hx
      by_cases h : b = n.nr
      · rw [h]
        exact hc.real hn hreal
      · exact hc.link hm hit hlink ((if_neg h).symm.trans hb)
    stored := by
      rw [hview]
      intro b hb hh
      by_cases h : b = n.nr
      · subst h
        have hitems : st.view.items n.nr = n.items := by
          have hstore : st.view.store n.nr = some n.img := by
            simp only [CachedTree.view, hc.hashed hn, hn]
            rfl
          rw [Tree.items, hstore]
          rfl
        refine ⟨hc.real hn hreal, fun it hit c hlink => ?_⟩
        rw [hitems] at hit
        have hcn := hlinks it hit c hlink
        exact ⟨hnone hcn, hc.link hn hit hlink hcn⟩
      · obtain ⟨hhas, hall⟩ := hc.stored hb ((if_neg h).symm.trans hh)
        refine ⟨hhas, fun it hit c hlink => ?_⟩
        obtain ⟨hcn, hchas⟩ := hall it hit c hlink
        exact ⟨hnone hcn, hchas⟩
    height := hc.height
    distinct := by
      rw [hview]
      exact hc.distinct
    data := by
      rw [hview]
      intro d hd
      obtain ⟨hhas, hblocks, hh⟩ := hc.data d hd
      exact ⟨hhas, hblocks, hnone hh⟩ }

end Coherent

/-! ## The steps of the walk -/

section Steps

variable {aal : AalBits} {locks : Nat → Nat} {st st' : CachedTree} {id : Nat} {n : CachedNode}

theorem cachedNode_ok {m : CachedNode} :
    (cachedNode id).run st = some (.ok m, st') ↔ st.nodes id = some m ∧ st = st' := by
  unfold cachedNode
  rw [Run.get_bind]
  cases h : st.nodes id with
  | none => simp
  | some k => simp

theorem cachedNode_run (h : st.nodes id = some n) : (cachedNode id).run st = some (.ok n, st) :=
  cachedNode_ok.mpr ⟨h, rfl⟩

/-- The pointer in the parent is changed, and the parent is dirty. -/
theorem reiser4ItemUpdateLink_run {pid i old new : Nat} {p : CachedNode} {it : Item}
    (hp : st.nodes pid = some p) (hit : p.items[i]? = some it) (hlink : it.downLink = some old) :
    (reiser4ItemUpdateLink (pid, i) new).run st = some (.ok (), st.setNode pid (some { p with
      items := p.items.set i (it.relink fun _ => new), dirty := true })) := by
  unfold reiser4ItemUpdateLink
  rw [Run.bind_of_ok (cachedNode_run hp)]
  simp only [hit]
  unfold Item.downLink at hlink
  unfold Item.relink
  cases hb : it.body <;> simp [hb] at hlink ⊢
  rfl

/-- The hash table has the node at its new number. -/
theorem reiser4TreeRehashNode_run {new x : Nat} (hn : st.nodes id = some n)
    (hh : st.hash n.nr = some x) :
    (reiser4TreeRehashNode id new).run st = some (.ok (),
      ((st.setNode id (some { n with nr := new, dirty := true })).setHash n.nr none).setHash new
        (some id)) := by
  unfold reiser4TreeRehashNode
  rw [Run.bind_of_ok (cachedNode_run hn)]
  show ((if (st.hash n.nr).isNone then Run.fail .einval else _ : Run CachedTree Errno Unit)).run _ = _
  rw [hh]
  rfl

end Steps

namespace MoveOk

variable {aal : AalBits} {locks : Nat → Nat} {st st' : CachedTree} {id new : Nat} {n : CachedNode}
  {alloc : Alloc40.Alloc}

theorem formatRoot_move (st : CachedTree) (old new : Nat) :
    st.formatRoot.map (moveNr old new) =
      if st.formatRoot = some old then some new else st.formatRoot := by
  cases hr : st.formatRoot with
  | none => rfl
  | some r =>
    unfold moveNr
    by_cases h : r = old <;> simp [h]

/-- The moved cache, written as the routines leave it. -/
theorem moveNode_eq {nodes : Nat → Option CachedNode}
    (h : nodes = (st.moveNode id n.nr new n.p alloc).nodes) :
    st.moveNode id n.nr new n.p alloc = { st with
      nodes
      hash := fun b => if b = new then some id else if b = n.nr then none else st.hash b
      formatRoot := if st.formatRoot = some n.nr then some new else st.formatRoot
      alloc } := by
  rw [h, ← formatRoot_move]
  rfl

/-- A node that neither moves nor has the pointer stays. -/
theorem move_other (hm : MoveOk aal locks st id new n alloc) {x : Nat} {m : CachedNode}
    (hx : st.nodes x = some m) (hid : x ≠ id) (hp : ∀ i, n.p ≠ some (x, i)) :
    m.move (moveNr n.nr new) (decide (x = id) || n.p.any fun q => decide (q.1 = x)) = m := by
  have hnr : m.nr ≠ n.nr := fun h => hid (hm.coherent.nr_inj hx hm.node h)
  have hitems : m.items.map (Item.relink (moveNr n.nr new)) = m.items :=
    congrArg NodeImg.items (hm.relink_untouched hx hp)
  have hany : (n.p.any fun q => decide (q.1 = x)) = false := by
    cases h : n.p with
    | none => rfl
    | some q =>
      show decide (q.1 = x) = false
      rw [decide_eq_false_iff_not]
      rintro rfl
      exact hp q.2 h
  unfold CachedNode.move
  rw [hitems, moveNr_of_ne hnr, decide_eq_false hid, hany, Bool.or_false, Bool.or_false]

theorem move_self (hm : MoveOk aal locks st id new n alloc) :
    n.move (moveNr n.nr new) (decide (id = id) || n.p.any fun q => decide (q.1 = id)) =
      { n with nr := new, dirty := true } := by
  have hitems : n.items.map (Item.relink (moveNr n.nr new)) = n.items :=
    congrArg NodeImg.items (hm.relink_untouched hm.node fun _ => hm.coherent.parent_ne hm.node)
  unfold CachedNode.move
  rw [hitems, moveNr_old, decide_eq_true rfl, Bool.true_or, Bool.or_true]

/-- The changed pointer is the only one that the move changes in the parent. -/
theorem parent_items (hm : MoveOk aal locks st id new n alloc) {pid i : Nat} {p : CachedNode}
    {it : Item} (hp : n.p = some (pid, i)) (hpn : st.nodes pid = some p)
    (hit : p.items[i]? = some it) (hlink : it.downLink = some n.nr) :
    p.items.set i (it.relink fun _ => new) = p.items.map (Item.relink (moveNr n.nr new)) := by
  refine List.ext_getElem? fun j => ?_
  rw [List.getElem?_set, List.getElem?_map]
  by_cases hj : i = j
  · subst hj
    obtain ⟨hlt, -⟩ := List.getElem?_eq_some_iff.mp hit
    rw [if_pos rfl, if_pos hlt, hit, Option.map_some]
    refine congrArg some (Item.relink_congr fun c hc => ?_)
    rw [hlink] at hc
    cases hc
    exact (moveNr_old ..).symm
  · rw [if_neg hj]
    cases hy : p.items[j]? with
    | none => rfl
    | some y =>
      refine congrArg some (Item.relink_self fun c hc => moveNr_of_ne ?_).symm
      rintro rfl
      have h := hm.link_old hpn hy hc
      rw [hp] at h
      cases h
      exact hj rfl

theorem move_parent (hm : MoveOk aal locks st id new n alloc) {pid i : Nat} {p : CachedNode}
    {it : Item} (hp : n.p = some (pid, i)) (hpn : st.nodes pid = some p)
    (hit : p.items[i]? = some it) (hlink : it.downLink = some n.nr) :
    p.move (moveNr n.nr new) (decide (pid = id) || n.p.any fun q => decide (q.1 = pid)) =
      { p with items := p.items.set i (it.relink fun _ => new), dirty := true } := by
  have hne : pid ≠ id := by
    rintro rfl
    exact hm.coherent.parent_ne hm.node hp
  have hnr : p.nr ≠ n.nr := fun h => hne (hm.coherent.nr_inj hpn hm.node h)
  have hany : (n.p.any fun q => decide (q.1 = pid)) = true := by
    rw [hp]
    exact decide_eq_true rfl
  unfold CachedNode.move
  rw [hm.parent_items hp hpn hit hlink, moveNr_of_ne hnr, hany, Bool.or_true, Bool.or_true]

/-- The state of the cache in which the node gets its number. -/
theorem adjust_run (hm : MoveOk aal locks st id new n alloc) :
    (do setRootNr n.nr new
        setParentLink n.p new
        let _ ← (reiser4TreeRehashNode id new).attempt
        pure () : Run CachedTree Errno Unit).run { st with alloc } =
      some (.ok (), st.moveNode id n.nr new n.p alloc) := by
  unfold setRootNr
  rw [Run.modify_bind]
  cases hp : n.p with
  | none =>
    have hnodes : (fun x => if x = id then some { n with nr := new, dirty := true } else st.nodes x) =
        (st.moveNode id n.nr new n.p alloc).nodes := by
      funext x
      show _ = (st.nodes x).map _
      split
      · next h =>
        rw [h, hm.node, Option.map_some, hm.move_self]
      · next h =>
        cases hx : st.nodes x with
        | none => rfl
        | some m => rw [Option.map_some, hm.move_other hx h fun i => by rw [hp]; exact nofun]
    have hrehash := @reiser4TreeRehashNode_run { st with
        alloc
        formatRoot := if st.formatRoot = some n.nr then some new else st.formatRoot }
      _ _ new _ hm.node (hm.coherent.hashed hm.node)
    show (do let _ ← (reiser4TreeRehashNode id new).attempt
             pure () : Run CachedTree Errno Unit).run _ = _
    rw [Run.run_bind, Run.run_attempt, hrehash]
    rw [← hp, moveNode_eq hnodes]
    rfl
  | some place =>
    obtain ⟨pid, i⟩ := place
    obtain ⟨p, it, hpn, -, hit, hlink⟩ := hm.coherent.parent hm.node hp
    have hne : id ≠ pid := by
      rintro rfl
      exact hm.coherent.parent_ne hm.node hp
    have hnodes : (fun x => if x = id then some { n with nr := new, dirty := true }
        else if x = pid then
          some { p with items := p.items.set i (it.relink fun _ => new), dirty := true }
        else st.nodes x) = (st.moveNode id n.nr new n.p alloc).nodes := by
      funext x
      show _ = (st.nodes x).map _
      split
      · next h =>
        rw [h, hm.node, Option.map_some, hm.move_self]
      · next h =>
        split
        · next h' =>
          rw [h', hpn, Option.map_some, hm.move_parent hp hpn hit hlink]
        · next h' =>
          cases hx : st.nodes x with
          | none => rfl
          | some m =>
            rw [Option.map_some, hm.move_other hx h fun j hj => ?_]
            rw [hp] at hj
            cases hj
            exact h' rfl
    have hlinked := @reiser4ItemUpdateLink_run { st with
        alloc
        formatRoot := if st.formatRoot = some n.nr then some new else st.formatRoot }
      _ _ _ new _ _ hpn hit hlink
    have hrehash := @reiser4TreeRehashNode_run (CachedTree.setNode { st with
          alloc
          formatRoot := if st.formatRoot = some n.nr then some new else st.formatRoot }
        pid (some { p with items := p.items.set i (it.relink fun _ => new), dirty := true }))
      _ _ new _ ((if_neg hne).trans hm.node) (hm.coherent.hashed hm.node)
    show (do reiser4ItemUpdateLink (pid, i) new
             let _ ← (reiser4TreeRehashNode id new).attempt
             pure () : Run CachedTree Errno Unit).run _ = _
    rw [Run.bind_of_ok hlinked, Run.run_bind, Run.run_attempt, hrehash]
    rw [← hp, moveNode_eq hnodes]
    rfl

end MoveOk

section Steps

variable {aal : AalBits} {locks : Nat → Nat} {st st' : CachedTree} {id : Nat} {n : CachedNode}

theorem cbNodeAdjust_ok (hf : aal.FindsZero) (hc : Coherent aal locks st)
    (hn : st.nodes id = some n) (hrun : (cbNodeAdjust aal id).run st = some (.ok (), st')) :
    (reiser4FakeAck n.nr = false ∧ st' = st) ∨
      ∃ new alloc, MoveOk aal locks st id new n alloc ∧
        st' = st.moveNode id n.nr new n.p alloc := by
  unfold cbNodeAdjust at hrun
  rw [Run.bind_of_ok (cachedNode_run hn)] at hrun
  cases hfake : reiser4FakeAck n.nr with
  | false =>
    rw [hfake] at hrun
    cases hrun
    exact .inl ⟨rfl, rfl⟩
  | true =>
    rw [hfake, if_pos rfl] at hrun
    obtain ⟨got, st1, halloc, hrest⟩ := Run.bind_ok.mp hrun
    unfold reiser4AllocAllocate at halloc
    rw [Run.get_bind] at halloc
    cases ha : Alloc40.alloc40Allocate aal st.alloc 0 1 with
    | none => simp [ha] at halloc
    | some r =>
      obtain ⟨start, found, alloc⟩ := r
      simp only [ha] at halloc
      rw [Run.modify_bind] at halloc
      cases halloc
      by_cases hfound : 0 < found
      · rw [if_pos hfound] at hrest
        obtain ⟨hwf, hfree, hmarks⟩ := Alloc40.alloc40Allocate_one hf hc.bitmap ha hfound
        have hm : MoveOk aal locks st id start n alloc :=
          ⟨hc, hn, hfake, hwf, by rw [CachedTree.has, hfree]; exact nofun, hmarks⟩
        have hmoved := hm.adjust_run
        refine .inr ⟨start, alloc, hm, ?_⟩
        rw [hmoved] at hrest
        cases hrest
        rfl
      · rw [if_neg hfound] at hrest
        cases hrest

/-- Unloading takes the node from the cache and unlocks its parent; the device stays. -/
theorem reiser4TreeUnloadNode_ok (hn : st.nodes id = some n) (hne : ∀ i, n.p ≠ some (id, i))
    (hrun : (reiser4TreeUnloadNode id).run st = some (.ok (), st')) :
    st' = { st.unload id n with device := st.device } := by
  obtain ⟨⟨⟩, st1, hdisc, hrest⟩ := Run.bind_ok.mp hrun
  cases hrest
  unfold reiser4TreeDisconnectNode at hdisc
  rw [Run.bind_of_ok (cachedNode_run hn), Run.get_bind] at hdisc
  split at hdisc
  · cases hdisc
  · rw [Run.modify_bind] at hdisc
    cases hp : n.p with
    | none =>
      rw [hp] at hdisc
      cases hdisc
      unfold CachedTree.unload CachedTree.setNode CachedTree.setHash
      simp [hp]
    | some place =>
      obtain ⟨pid, i⟩ := place
      rw [hp] at hdisc
      obtain ⟨p, st2, hget, hset⟩ := Run.bind_ok.mp hdisc
      obtain ⟨hpn, rfl⟩ := cachedNode_ok.mp hget
      cases hset
      have hpid : pid ≠ id := by
        rintro rfl
        exact hne i hp
      have hpn' : st.nodes pid = some p := hpn
      have hnodes : (fun x => if x = id then none
          else if x = pid then some { p with counter := p.counter - 1 } else st.nodes x) =
          (st.unload id n).nodes := by
        funext x
        show _ = if x = id then none else (st.nodes x).map _
        by_cases hx : x = id
        · rw [if_pos hx, if_pos hx]
        · rw [if_neg hx, if_neg hx, hp]
          by_cases hx' : x = pid
          · rw [if_pos hx', hx', hpn']
            simp
          · rw [if_neg hx']
            have hsame : ∀ m : CachedNode, { m with
                counter := if (some (pid, i)).any fun q => decide (q.1 = x) then m.counter - 1
                  else m.counter } = m := fun m => by
              have hany : ((some (pid, i)).any fun q => decide (q.1 = x)) = false :=
                decide_eq_false fun h => hx' h.symm
              rw [hany]
              rfl
            cases hm : st.nodes x with
            | none => rfl
            | some m => rw [Option.map_some, hsame m]
      show _ = { st with
        nodes := (st.unload id n).nodes
        hash := fun b => if b = n.nr then none else st.hash b
        root := if st.root = some id then none else st.root }
      rw [← hnodes]
      rfl

/-- A node that is used is left alone; another is written, if it is dirty, and unloaded. -/
theorem cbNodeUnload_ok (hc : Coherent aal locks st) (hn : st.nodes id = some n)
    (hrun : (cbNodeUnload id).run st = some (.ok (), st')) :
    (0 < n.counter ∧ st' = st) ∨ (n.counter = 0 ∧ st' = st.unload id n) := by
  unfold cbNodeUnload at hrun
  rw [Run.bind_of_ok (cachedNode_run hn)] at hrun
  have hne : ∀ i, n.p ≠ some (id, i) := fun _ => hc.parent_ne hn
  split at hrun
  · next hcount =>
    cases hrun
    exact .inl ⟨hcount, rfl⟩
  next hcount =>
  refine .inr ⟨by omega, ?_⟩
  split at hrun
  · next hdirty =>
    obtain ⟨⟨⟩, st1, hsync, hunload⟩ := Run.bind_ok.mp hrun
    have hst1 : st1 =
        (st.setBlock n.nr (.node n.img)).setNode id (some { n with dirty := false }) := by
      replace hsync := Run.orFail_ok.mp hsync
      unfold reiser4NodeSync at hsync
      rw [Run.bind_of_ok (cachedNode_run hn), Run.get_bind] at hsync
      cases hd : (st.device n.nr).isSome with
      | false => simp [hd] at hsync
      | true =>
        rw [hd] at hsync
        cases hsync
        rfl
    have hn1 : st1.nodes id = some { n with dirty := false } := by
      rw [hst1]
      exact if_pos rfl
    rw [reiser4TreeUnloadNode_ok hn1 hne hunload, hst1]
    have hnodes : (((st.setBlock n.nr (.node n.img)).setNode id
        (some { n with dirty := false })).unload id { n with dirty := false }).nodes =
        (st.unload id n).nodes := by
      funext x
      show (if x = id then none else (if x = id then _ else st.nodes x).map _) =
        if x = id then none else (st.nodes x).map _
      by_cases hx : x = id
      · rw [if_pos hx, if_pos hx]
      · rw [if_neg hx, if_neg hx, if_neg hx]
    show CachedTree.mk _ _ _ _ _ _ _ _ _ _ = _
    rw [hnodes]
    rfl
  · next hdirty =>
    rw [reiser4TreeUnloadNode_ok hn hne hrun]
    have hdev : st.device = (st.unload id n).device := by
      funext b
      show _ = if b = n.nr then some (Contents.node n.img) else st.device b
      split
      · next h =>
        rw [h, hc.clean hn (by simpa using hdirty)]
      · rfl
    rw [hdev]

end Steps

/-! ## The walk -/

/-- What happened to the cache: blocks were renamed, and nodes may have left. -/
structure Follows (st st' : CachedTree) : Prop where
  renamed : ∃ f, st.view.Renames st'.view f
  left : ∀ {x m'}, st'.nodes x = some m' →
    ∃ m, st.nodes x = some m ∧ m.level = m'.level ∧ m.p = m'.p
  blocks : st'.blocks = st.blocks

namespace Follows

variable {aal : AalBits} {locks : Nat → Nat} {st st' st'' : CachedTree} {id : Nat} {n : CachedNode}

theorem refl (st : CachedTree) : Follows st st :=
  ⟨⟨_, Tree.Renames.refl _⟩, fun h => ⟨_, h, rfl, rfl⟩, rfl⟩

theorem trans (h : Follows st st') (h' : Follows st' st'') : Follows st st'' where
  renamed := by
    obtain ⟨f, hf⟩ := h.renamed
    obtain ⟨g, hg⟩ := h'.renamed
    exact ⟨_, hf.trans hg⟩
  left hx := by
    obtain ⟨m', hx', hlevel', hp'⟩ := h'.left hx
    obtain ⟨m, hx'', hlevel, hp⟩ := h.left hx'
    exact ⟨m, hx'', hlevel.trans hlevel', hp.trans hp'⟩
  blocks := h'.blocks.trans h.blocks

theorem moveNode {new : Nat} {alloc : Alloc40.Alloc} (hm : MoveOk aal locks st id new n alloc) :
    Follows st (st.moveNode id n.nr new n.p alloc) where
  renamed := ⟨_, hm.renames⟩
  left hx := by
    obtain ⟨m, hx', rfl⟩ := MoveOk.nodes_move hx
    exact ⟨m, hx', rfl, rfl⟩
  blocks := rfl

theorem unload (hc : Coherent aal locks st) (hn : st.nodes id = some n) :
    Follows st (st.unload id n) where
  renamed := by
    rw [hc.view_unload hn]
    exact ⟨_, Tree.Renames.refl _⟩
  left {x m'} hx := by
    change (if x = id then none else (st.nodes x).map _) = some m' at hx
    split at hx
    · cases hx
    · obtain ⟨m, hx', rfl⟩ := Option.map_eq_some_iff.mp hx
      exact ⟨m, hx', rfl, rfl⟩
  blocks := rfl

theorem setCounter (hn : st.nodes id = some n) (c : Nat) :
    Follows st (st.setNode id (some { n with counter := c })) where
  renamed := by
    rw [Coherent.view_setCounter hn]
    exact ⟨_, Tree.Renames.refl _⟩
  left {x m'} hx := by
    change (if x = id then some { n with counter := c } else st.nodes x) = some m' at hx
    split at hx
    · next h =>
      cases hx
      exact ⟨n, h ▸ hn, rfl, rfl⟩
    · exact ⟨m', hx, rfl, rfl⟩
  blocks := rfl

end Follows

/-- No node is loaded at the place. -/
def Vacant (st : CachedTree) (place : Nat × Nat) : Prop :=
  ∀ ⦃y m⦄, st.nodes y = some m → m.p ≠ some place

theorem Vacant.follows {st st' : CachedTree} {place : Nat × Nat} (h : Vacant st place)
    (hf : Follows st st') : Vacant st' place := fun _ _ hy => by
  obtain ⟨m, hm, -, hp⟩ := hf.left hy
  rw [← hp]
  exact h hm

/-- The nodes being walked are at the level or above it. -/
def LockedAbove (locks : Nat → Nat) (st : CachedTree) (level : Nat) : Prop :=
  ∀ ⦃x m⦄, 0 < locks x → st.nodes x = some m → level ≤ m.level

theorem LockedAbove.follows {locks : Nat → Nat} {st st' : CachedTree} {level : Nat}
    (h : LockedAbove locks st level) (hf : Follows st st') : LockedAbove locks st' level :=
  fun _ _ hl hx => by
    obtain ⟨m, hm, hlevel, -⟩ := hf.left hx
    rw [← hlevel]
    exact h hl hm

/-- The routine takes a node, with what is loaded below it, from the cache. -/
def Unloads (aal : AalBits) (walk : Nat → Run CachedTree Errno Unit) : Prop :=
  ∀ ⦃locks : Nat → Nat⦄ ⦃st st' : CachedTree⦄ ⦃id : Nat⦄ ⦃n : CachedNode⦄, Coherent aal locks st →
    st.nodes id = some n → LockedAbove locks st (n.level + 1) →
    (walk id).run st = some (.ok (), st') →
    Coherent aal locks st' ∧ Follows st st' ∧ st'.nodes id = none

/-- One lock more. -/
def addLock (locks : Nat → Nat) (id : Nat) (x : Nat) : Nat := if x = id then locks x + 1 else locks x

namespace Coherent

variable {aal : AalBits} {locks : Nat → Nat} {st st' : CachedTree} {id : Nat} {n : CachedNode}

theorem lock (hc : Coherent aal locks st) (hn : st.nodes id = some n)
    (hreal : reiser4FakeAck n.nr = false) :
    Coherent aal (addLock locks id) (st.setNode id (some { n with counter := n.counter + 1 })) := by
  refine hc.setCounter hn (fun x hx => if_neg hx) ?_ fun _ => hreal
  rw [hc.counter hn, addLock, if_pos rfl]
  omega

theorem unlock (hc : Coherent aal (addLock locks id) st) (hn : st.nodes id = some n) :
    Coherent aal locks (st.setNode id (some { n with counter := n.counter - 1 })) ∧
      reiser4FakeAck n.nr = false := by
  have hlocks : addLock locks id id = locks id + 1 := if_pos rfl
  have hreal : reiser4FakeAck n.nr = false := by
    obtain ⟨m, hm, hr⟩ := @Coherent.walked _ _ _ hc id (by omega)
    obtain rfl : n = m := Option.some.inj (hn.symm.trans hm)
    exact hr
  refine ⟨hc.setCounter hn (fun x hx => (if_neg hx).symm) ?_ fun _ => hreal, hreal⟩
  rw [hc.counter hn, hlocks]
  omega

/-- Two nodes have two places. -/
theorem place_inj (hc : Coherent aal locks st) {x y : Nat} {m k : CachedNode} {place : Nat × Nat}
    (hx : st.nodes x = some m) (hy : st.nodes y = some k) (hm : m.p = some place)
    (hk : k.p = some place) : x = y := by
  obtain ⟨p, it, hp, -, hit, hlink⟩ := hc.parent hx hm
  obtain ⟨p', it', hp', -, hit', hlink'⟩ := hc.parent hy hk
  obtain rfl : p = p' := Option.some.inj (hp.symm.trans hp')
  obtain rfl : it = it' := Option.some.inj (hit.symm.trans hit')
  exact hc.nr_inj hx hy (Option.some.inj (hlink.symm.trans hlink'))

/-- A node all of whose places are vacant has no loaded children. -/
theorem loadedChildren_vacant (hc : Coherent aal locks st) (hn : st.nodes id = some n)
    (hv : ∀ j, Vacant st (id, j)) : st.loadedChildren n = 0 := by
  refine List.countP_eq_zero.mpr fun it hit hl => ?_
  obtain ⟨b, y, m, hlink, hh, -⟩ := hc.isLoaded_iff.mp hl
  obtain ⟨j, hj⟩ := List.getElem?_of_mem hit
  obtain ⟨k, hk, hp⟩ := hc.child hn hj hlink hh
  exact hv j hk hp

end Coherent

section Walk

variable {aal : AalBits} {walk : Nat → Run CachedTree Errno Unit} {locks : Nat → Nat}
  {st st' : CachedTree} {id : Nat} {n : CachedNode}

theorem reiser4NodeLock_run (hn : st.nodes id = some n) : (reiser4NodeLock id).run st =
    some (.ok (), st.setNode id (some { n with counter := n.counter + 1 })) := by
  unfold reiser4NodeLock
  rw [Run.bind_of_ok (cachedNode_run hn)]
  rfl

theorem reiser4NodeUnlock_ok (hrun : (reiser4NodeUnlock id).run st = some (.ok (), st')) :
    ∃ n, st.nodes id = some n ∧ st' = st.setNode id (some { n with counter := n.counter - 1 }) := by
  obtain ⟨n, st1, hget, hset⟩ := Run.bind_ok.mp hrun
  obtain ⟨hn, rfl⟩ := cachedNode_ok.mp hget
  cases hset
  exact ⟨n, hn, rfl⟩

theorem walkChild_ok (hw : Unloads aal walk) (hc : Coherent aal locks st)
    (hn : st.nodes id = some n) (hl : LockedAbove locks st n.level) {i blk : Nat} {it : Item}
    (hit : n.items[i]? = some it) (hlink : it.downLink = some blk)
    (hrun : (walkChild walk blk).run st = some (.ok (), st')) :
    Coherent aal locks st' ∧ Follows st st' ∧ Vacant st' (id, i) := by
  unfold walkChild at hrun
  rw [Run.get_bind] at hrun
  cases hh : st.hash blk with
  | none =>
    simp only [hh] at hrun
    cases hrun
    refine ⟨hc, Follows.refl st, fun y m hy hp => ?_⟩
    obtain ⟨p, it', hpn, -, hit', hlink'⟩ := hc.parent hy hp
    obtain rfl : n = p := Option.some.inj (hn.symm.trans hpn)
    obtain rfl : it = it' := Option.some.inj (hit.symm.trans hit')
    rw [Option.some.inj (hlink.symm.trans hlink'), hc.hashed hy] at hh
    cases hh
  | some child =>
    simp only [hh] at hrun
    obtain ⟨k, hk, hp⟩ := hc.child hn hit hlink hh
    obtain ⟨p, -, hpn, hlevel, -⟩ := hc.parent hk hp
    obtain rfl : n = p := Option.some.inj (hn.symm.trans hpn)
    obtain ⟨hc', hf, hnone⟩ := hw hc hk (by rwa [← hlevel]) hrun
    refine ⟨hc', hf, fun y m hy hpy => ?_⟩
    obtain ⟨m0, hm0, -, hp0⟩ := hf.left hy
    obtain rfl : y = child := hc.place_inj hm0 hk (hp0.trans hpy) hp
    rw [hnone] at hy
    cases hy

theorem walkItem_ok (hw : Unloads aal walk) (hc : Coherent aal locks st)
    (hn : st.nodes id = some n) (hreal : reiser4FakeAck n.nr = false)
    (hl : LockedAbove locks st (n.level + 1)) {i : Nat} {it : Item} (hit : n.items[i]? = some it)
    (hrun : (walkItem walk id it).run st = some (.ok (), st')) :
    Coherent aal locks st' ∧ Follows st st' ∧ Vacant st' (id, i) ∧
      ∃ n', st'.nodes id = some n' ∧ reiser4FakeAck n'.nr = false := by
  unfold walkItem at hrun
  cases hlink : it.downLink with
  | none =>
    simp only [hlink] at hrun
    cases hrun
    refine ⟨hc, Follows.refl st, fun y m hy hp => ?_, n, hn, hreal⟩
    obtain ⟨p, it', hpn, -, hit', hlink'⟩ := hc.parent hy hp
    obtain rfl : n = p := Option.some.inj (hn.symm.trans hpn)
    obtain rfl : it = it' := Option.some.inj (hit.symm.trans hit')
    rw [hlink] at hlink'
    cases hlink'
  | some blk =>
    simp only [hlink] at hrun
    rw [Run.bind_of_ok (reiser4NodeLock_run hn)] at hrun
    obtain ⟨r, st2, hattempt, hunlock⟩ := Run.bind_ok.mp hrun
    rw [Run.run_attempt] at hattempt
    obtain ⟨⟨r', st2'⟩, hchild, heq⟩ := Option.map_eq_some_iff.mp hattempt
    cases heq
    cases r' with
    | error e =>
      obtain ⟨_, _, _, hfail⟩ := Run.bind_ok.mp hunlock
      cases hfail
    | ok u =>
      have hf1 : Follows st (st.setNode id (some { n with counter := n.counter + 1 })) :=
        Follows.setCounter hn _
      have hl1 : LockedAbove (addLock locks id)
          (st.setNode id (some { n with counter := n.counter + 1 })) n.level := by
        intro x m hx hm
        obtain ⟨m0, hm0, hlevel, -⟩ := hf1.left hm
        rw [← hlevel]
        by_cases h : x = id
        · subst h
          obtain rfl : n = m0 := Option.some.inj (hn.symm.trans hm0)
          exact Nat.le_refl _
        · have hx' : 0 < locks x := by rwa [addLock, if_neg h] at hx
          exact Nat.le_of_succ_le (hl hx' hm0)
      obtain ⟨hc2, hf2, hv2⟩ := walkChild_ok hw (hc.lock hn hreal) (if_pos rfl) hl1 hit hlink hchild
      obtain ⟨n2, hn2, rfl⟩ := reiser4NodeUnlock_ok hunlock
      obtain ⟨hc3, hreal3⟩ := hc2.unlock hn2
      have hf3 := Follows.setCounter hn2 (n2.counter - 1)
      exact ⟨hc3, (hf1.trans hf2).trans hf3, hv2.follows hf3, _, if_pos rfl, hreal3⟩

/-- The walk of the items makes all places of the node vacant. -/
theorem walkItems_ok (hw : Unloads aal walk) : ∀ {fuel i : Nat} {st : CachedTree} {n : CachedNode},
    Coherent aal locks st → st.nodes id = some n → reiser4FakeAck n.nr = false →
    LockedAbove locks st (n.level + 1) → (∀ j < i, Vacant st (id, j)) →
    (walkItems walk id fuel i).run st = some (.ok (), st') →
    Coherent aal locks st' ∧ Follows st st' ∧ (∀ j, Vacant st' (id, j)) ∧
      ∃ n', st'.nodes id = some n' ∧ reiser4FakeAck n'.nr = false
  | 0, _, _, _, _, _, _, _, _, hrun => by cases hrun
  | fuel + 1, i, st, n, hc, hn, hreal, hl, hv, hrun => by
    rw [walkItems, Run.bind_of_ok (cachedNode_run hn)] at hrun
    cases hit : n.items[i]? with
    | none =>
      simp only [hit] at hrun
      cases hrun
      refine ⟨hc, Follows.refl _, fun j => ?_, n, hn, hreal⟩
      by_cases hj : j < i
      · exact hv j hj
      · intro y m hy hp
        obtain ⟨p, it, hpn, -, hit', -⟩ := hc.parent hy hp
        obtain rfl : n = p := Option.some.inj (hn.symm.trans hpn)
        obtain ⟨hlt, -⟩ := List.getElem?_eq_some_iff.mp hit'
        have := List.getElem?_eq_none_iff.mp hit
        omega
    | some it =>
      simp only [hit] at hrun
      obtain ⟨⟨⟩, st1, h1, h2⟩ := Run.bind_ok.mp hrun
      obtain ⟨hc1, hf1, hv1, n1, hn1, hreal1⟩ := walkItem_ok hw hc hn hreal hl hit h1
      have hlevel : n1.level = n.level := by
        obtain ⟨m, hm, hlevel, -⟩ := hf1.left hn1
        obtain rfl : n = m := Option.some.inj (hn.symm.trans hm)
        exact hlevel.symm
      have hl1 : LockedAbove locks st1 (n1.level + 1) := by
        rw [hlevel]
        exact hl.follows hf1
      obtain ⟨hc', hf', hv', hnode⟩ := walkItems_ok hw hc1 hn1 hreal1 hl1 (fun j hj => by
        rcases Nat.lt_succ_iff_lt_or_eq.mp hj with h | h
        · exact (hv j h).follows hf1
        · rw [h]
          exact hv1) h2
      exact ⟨hc', hf1.trans hf', hv', hnode⟩

/-- The walk of a node gives it a number, walks its children and unloads it. -/
theorem reiser4TreeWalkNode_ok (hf : aal.FindsZero) :
    ∀ fuel, Unloads aal (reiser4TreeWalkNode aal fuel)
  | 0 => fun _ _ _ _ _ _ _ _ hrun => by cases hrun
  | fuel + 1 => by
    intro locks st st' id n hc hn hl hrun
    rw [reiser4TreeWalkNode] at hrun
    obtain ⟨⟨⟩, st1, hadjust, hrest⟩ := Run.bind_ok.mp hrun
    obtain ⟨⟨⟩, st2, hitems, hunload⟩ := Run.bind_ok.mp hrest
    have hstep1 : Coherent aal locks st1 ∧ Follows st st1 ∧
        ∃ n1, st1.nodes id = some n1 ∧ reiser4FakeAck n1.nr = false ∧ n1.level = n.level := by
      rcases cbNodeAdjust_ok hf hc hn hadjust with ⟨hreal, rfl⟩ | ⟨new, alloc, hm, rfl⟩
      · exact ⟨hc, Follows.refl _, n, hn, hreal, rfl⟩
      · refine ⟨hm.coherent_move, Follows.moveNode hm, _, Option.map_eq_some_iff.mpr ⟨n, hn, rfl⟩,
          ?_, rfl⟩
        show reiser4FakeAck (moveNr n.nr new n.nr) = false
        rw [moveNr_old]
        exact hm.new_real
    obtain ⟨hc1, hf1, n1, hn1, hreal1, hlevel1⟩ := hstep1
    have hl1 : LockedAbove locks st1 (n1.level + 1) := by
      rw [hlevel1]
      exact hl.follows hf1
    obtain ⟨hc2, hf2, hv2, n2, hn2, hreal2⟩ := walkItems_ok (reiser4TreeWalkNode_ok hf fuel) hc1 hn1
      hreal1 hl1 (fun _ h => absurd h (Nat.not_lt_zero _)) hitems
    have hzero : n2.counter = 0 := by
      have hlocks : locks id = 0 := by
        by_contra h
        have := hl (Nat.pos_of_ne_zero h) hn
        omega
      rw [hc2.counter hn2, hc2.loadedChildren_vacant hn2 hv2, hlocks]
    rcases cbNodeUnload_ok hc2 hn2 hunload with ⟨hpos, -⟩ | ⟨-, rfl⟩
    · omega
    · exact ⟨hc2.unload hn2 hzero hreal2, (hf1.trans hf2).trans (Follows.unload hc2 hn2), if_pos rfl⟩

end Walk

/-! ## The round trip -/

namespace Coherent

variable {aal : AalBits} {locks : Nat → Nat} {st : CachedTree}

/-- Every loaded node hangs below the root: without a root in memory there is none. -/
theorem empty_of_root (hc : Coherent aal locks st) (hroot : st.root = none) :
    ∀ x, st.nodes x = none := by
  have hbelow : ∀ (d : Nat) {x : Nat} {m : CachedNode}, st.nodes x = some m →
      st.height - m.level < d → False := by
    intro d
    induction d with
    | zero => exact fun _ h => absurd h (Nat.not_lt_zero _)
    | succ d ih =>
      intro x m hx hd
      cases hp : m.p with
      | none =>
        rw [hc.root, (hc.top hx).mp hp] at hroot
        change st.hash m.nr = none at hroot
        rw [hc.hashed hx] at hroot
        cases hroot
      | some place =>
        obtain ⟨p, -, hpn, hlevel, -⟩ := hc.parent hx hp
        have := hc.level hpn
        exact ih hpn (by omega)
  intro x
  cases hx : st.nodes x with
  | none => rfl
  | some m => exact (hbelow _ hx (Nat.lt_succ_self _)).elim

theorem hash_of_empty (hc : Coherent aal locks st) (h : ∀ x, st.nodes x = none) (b : Nat) :
    st.hash b = none := by
  cases hh : st.hash b with
  | none => rfl
  | some x =>
    obtain ⟨m, hm, -⟩ := hc.loaded hh
    rw [h x] at hm
    cases hm

/-- Without a node in memory the tree is the one on the device. -/
theorem opened_of_empty (hc : Coherent aal locks st) (h : ∀ x, st.nodes x = none) :
    st.opened = st.view := by
  unfold CachedTree.opened CachedTree.view
  congr 1
  funext b
  rw [hc.hash_of_empty h b]

end Coherent

section RoundTrip

variable {aal : AalBits} {st st' : CachedTree}

/-- Saving data changes the blocks of data only. -/
theorem cbSaveBlocks_ok {bs : List Nat} {ds : List DataBlock} (hds : ∀ d ∈ ds, d.nr ∉ bs)
    (hrun : (Run.forEach cbSaveBlock ds).run st = some (.ok (), st')) :
    ∃ device, st' = { st with device } ∧ ∀ b ∈ bs, device b = st.device b := by
  refine Run.forEach_ensures
    (fun _ s => ∃ device, s = { st with device } ∧ ∀ b ∈ bs, device b = st.device b) ?_
    ⟨st.device, rfl, fun _ _ => rfl⟩ hrun
  rintro seen d rest s s' rfl ⟨device, rfl, hdev⟩ hstep
  have hd := hds d (by simp)
  unfold cbSaveBlock at hstep
  rw [Run.get_bind] at hstep
  cases hdirty : d.dirty with
  | false =>
    rw [hdirty] at hstep
    cases hstep
    exact ⟨device, rfl, hdev⟩
  | true =>
    simp only [hdirty, Bool.not_true, Bool.false_eq_true, if_false] at hstep
    split at hstep
    · cases hstep
      refine ⟨_, rfl, fun b hb => ?_⟩
      have hne : b ≠ d.nr := by
        rintro rfl
        exact hd hb
      exact (if_neg hne).trans (hdev b hb)
    · cases hstep

/-- The walk of the root leaves no node in memory. -/
theorem walkRoot_ok (hf : aal.FindsZero) {fuel root : Nat} (hc : Coherent aal (fun _ => 0) st)
    (hroot : st.root = some root)
    (hrun : (reiser4TreeWalkNode aal fuel root).run st = some (.ok (), st')) :
    Coherent aal (fun _ => 0) st' ∧ Follows st st' ∧ ∀ x, st'.nodes x = none := by
  obtain ⟨r, hr, hh⟩ : ∃ r, st.formatRoot = some r ∧ st.hash r = some root := by
    have h := hc.root.symm.trans hroot
    exact Option.bind_eq_some_iff.mp h
  obtain ⟨n, hn, rfl⟩ := hc.loaded hh
  obtain ⟨hc', hfol, hnone⟩ := reiser4TreeWalkNode_ok hf fuel hc hn
    (fun x m h => absurd h (Nat.lt_irrefl 0)) hrun
  refine ⟨hc', hfol, hc'.empty_of_root ?_⟩
  rw [hc'.root]
  cases hr' : st'.formatRoot with
  | none => rfl
  | some b =>
    show st'.hash b = none
    cases hb : st'.hash b with
    | none => rfl
    | some y =>
      obtain ⟨m', hm', rfl⟩ := hc'.loaded hb
      obtain ⟨m, hm, -, hp⟩ := hfol.left hm'
      have htop := (hc.top hm).mp (hp.trans ((hc'.top hm').mpr hr'))
      rw [hr, Option.some.injEq] at htop
      obtain rfl : root = y := hc.nr_inj hn hm htop
      rw [hnone] at hm'
      cases hm'

/-- **Tree sync round trip**: after a successful sync no node is left in memory, and the tree on the
    device is the cached one with its blocks renamed: each pointer, and the root in the format, names
    the block its node was written to.  The blocks are distinct, none is fake, all are marked in the
    allocator, and the units are the same. -/
theorem reiser4TreeSync_round_trip (hf : aal.FindsZero) (hc : Coherent aal (fun _ => 0) st)
    (hw : st.view.WF) (fuel : Nat)
    (hrun : (reiser4TreeSync aal fuel).run st = some (.ok (), st')) :
    (∀ x, st'.nodes x = none) ∧ (∃ f, st.view.Renames st'.opened f) ∧ st'.opened.blocks.Nodup ∧
      (∀ b ∈ st'.opened.blocks, reiser4FakeAck b = false ∧ st'.has aal b) ∧
      st'.opened.units = st.view.units ∧ st'.opened.WF := by
  have hsynced : (∀ x, st'.nodes x = none) ∧ (∃ f, st.view.Renames st'.opened f) ∧
      ∀ b ∈ st'.opened.blocks, reiser4FakeAck b = false ∧ st'.has aal b := by
    unfold reiser4TreeSync at hrun
    rw [Run.get_bind] at hrun
    cases hroot : st.root with
    | none =>
      simp only [hroot] at hrun
      cases hrun
      have hempty := hc.empty_of_root hroot
      rw [hc.opened_of_empty hempty]
      refine ⟨hempty, ⟨_, Tree.Renames.refl _⟩, fun b hb => ?_⟩
      have hmarked := (hc.stored hb (hc.hash_of_empty hempty b)).1
      exact ⟨hc.not_fake hmarked, hmarked⟩
    | some root =>
      simp only [hroot] at hrun
      obtain ⟨⟨⟩, st1, hwalk, hrest⟩ := Run.bind_ok.mp hrun
      rw [Run.get_bind] at hrest
      obtain ⟨hc1, hfol, hempty⟩ := walkRoot_ok hf hc hroot hwalk
      obtain ⟨device, rfl, hdev⟩ := @cbSaveBlocks_ok _ _ st1.view.blocks _
        (fun d hd => (hc1.data d hd).2.1) hrest
      obtain ⟨f, hren⟩ := hfol.renamed
      have hsaved : st1.view.Renames { st1 with device }.opened id := by
        refine Tree.Renames.of_store rfl rfl rfl rfl fun b hb => ?_
        show (device b).bind Contents.img = st1.view.store b
        rw [hdev b hb, ← hc1.opened_of_empty hempty]
        rfl
      refine ⟨hempty, ⟨_, hren.trans hsaved⟩, fun b hb => ?_⟩
      rw [hsaved.blocks, List.map_id] at hb
      have hmarked := (hc1.stored hb (hc1.hash_of_empty hempty b)).1
      exact ⟨hc1.not_fake hmarked, hmarked⟩
  obtain ⟨hempty, ⟨f, hren⟩, hblocks⟩ := hsynced
  exact ⟨hempty, ⟨f, hren⟩, hren.nodup hc.distinct, hblocks, hren.units, hren.wf hw⟩

end RoundTrip

/-! ## A new tree -/

/-- A twig with a pointer to a leaf, both new: the leaf holds one stat data. -/
def newTree : CachedTree where
  nodes x :=
    if x = 0 then some ⟨2 ^ 63, true, 2, [⟨⟨672, 0, 42, 0⟩, 0, .nodeptr40 (2 ^ 63 + 1)⟩], none, 1⟩
    else if x = 1 then some ⟨2 ^ 63 + 1, true, 1, [⟨⟨672, 0, 42, 0⟩, 0, .stat40 [1]⟩], some (0, 0), 0⟩
    else none
  hash b := if b = 2 ^ 63 then some 0 else if b = 2 ^ 63 + 1 then some 1 else none
  root := some 0
  formatRoot := some (2 ^ 63)
  height := 2
  blksize := 4096
  pol := .large
  alloc := ⟨0, 4096, fun _ => none, reiser4BitmapCreate 8, fun _ => 0⟩
  device b := if b < 8 then some (.data []) else none
  blocks := []

theorem newTree_nodes {x : Nat} {m : CachedNode} (h : newTree.nodes x = some m) :
    (x = 0 ∧ m = ⟨2 ^ 63, true, 2, [⟨⟨672, 0, 42, 0⟩, 0, .nodeptr40 (2 ^ 63 + 1)⟩], none, 1⟩) ∨
    (x = 1 ∧
      m = ⟨2 ^ 63 + 1, true, 1, [⟨⟨672, 0, 42, 0⟩, 0, .stat40 [1]⟩], some (0, 0), 0⟩) := by
  unfold newTree at h
  dsimp only at h
  split at h
  · next hx => exact .inl ⟨hx, (Option.some.inj h).symm⟩
  · split at h
    · next hx => exact .inr ⟨hx, (Option.some.inj h).symm⟩
    · cases h

theorem newTree_hash {b x : Nat} (h : newTree.hash b = some x) :
    (b = 2 ^ 63 ∧ x = 0) ∨ (b = 2 ^ 63 + 1 ∧ x = 1) := by
  unfold newTree at h
  dsimp only at h
  split at h
  · next hb => exact .inl ⟨hb, (Option.some.inj h).symm⟩
  · split at h
    · next hb => exact .inr ⟨hb, (Option.some.inj h).symm⟩
    · cases h

theorem newTree_coherent : Coherent .plain (fun _ => 0) newTree where
  bitmap := Alloc40.bitmapCreate_wf .plain (by decide)
  hashed h := by rcases newTree_nodes h with ⟨rfl, rfl⟩ | ⟨rfl, rfl⟩ <;> rfl
  loaded h := by rcases newTree_hash h with ⟨rfl, rfl⟩ | ⟨rfl, rfl⟩ <;> exact ⟨_, rfl, rfl⟩
  root := rfl
  top h := by rcases newTree_nodes h with ⟨rfl, rfl⟩ | ⟨rfl, rfl⟩ <;> simp [newTree]
  parent h hp := by
    rcases newTree_nodes h with ⟨rfl, rfl⟩ | ⟨rfl, rfl⟩
    · cases hp
    · cases hp
      exact ⟨_, _, rfl, rfl, rfl, rfl⟩
  child {_ _ i _ _ _} hp hit hlink hb := by
    rcases newTree_nodes hp with ⟨rfl, rfl⟩ | ⟨rfl, rfl⟩ <;> cases i <;> cases hit
    · cases hlink
      cases hb
      exact ⟨_, rfl, rfl⟩
    · cases hlink
  counter h := by rcases newTree_nodes h with ⟨rfl, rfl⟩ | ⟨rfl, rfl⟩ <;> rfl
  walked h := absurd h (Nat.lt_irrefl 0)
  level h := by rcases newTree_nodes h with ⟨rfl, rfl⟩ | ⟨rfl, rfl⟩ <;> simp [newTree]
  clean h hd := by rcases newTree_nodes h with ⟨rfl, rfl⟩ | ⟨rfl, rfl⟩ <;> cases hd
  real h hr := by
    rcases newTree_nodes h with ⟨rfl, rfl⟩ | ⟨rfl, rfl⟩ <;> exact absurd hr (by decide)
  link h hit hlink hb := by
    rcases newTree_nodes h with ⟨rfl, rfl⟩ | ⟨rfl, rfl⟩ <;>
      obtain rfl := List.mem_singleton.mp hit
    · cases hlink
      cases hb
    · cases hlink
  stored {b} hb hh := by
    have hblocks : newTree.view.blocks = [2 ^ 63, 2 ^ 63 + 1] := rfl
    rw [hblocks] at hb
    rcases List.mem_pair.mp hb with rfl | rfl <;> cases hh
  height := by decide
  distinct := by decide
  data d hd := absurd hd List.not_mem_nil

theorem newTree_wf : newTree.view.WF where
  blksize := by decide
  sound r hr := by
    have hr' : 2 ^ 63 = r := Option.some.inj hr
    subst hr'
    refine ⟨_, rfl, rfl, fun it hit => ?_⟩
    obtain rfl := List.mem_singleton.mp hit
    refine ⟨rfl, _, rfl, rfl, fun it hit => ?_⟩
    obtain rfl := List.mem_singleton.mp hit
    exact ⟨⟨⟨by decide, by decide, by decide, by decide, by decide⟩, by decide, rfl, nofun,
      fun _ h => (by rcases h with h | ⟨_, h⟩ <;> cases h), nofun⟩, Or.inl rfl⟩
  ordered := List.pairwise_singleton _ _

/-- The new tree is written to blocks 0 and 1. -/
theorem reiser4TreeSync_new_tree : ∃ st',
    (reiser4TreeSync .plain 4).run newTree = some (.ok (), st') ∧ st'.opened.blocks = [0, 1] ∧
      (∃ f, newTree.view.Renames st'.opened f) ∧ st'.opened.units = newTree.view.units := by
  obtain ⟨st', hrun, hblocks⟩ : ∃ st', (reiser4TreeSync .plain 4).run newTree = some (.ok (), st') ∧
      st'.opened.blocks = [0, 1] := ⟨_, rfl, rfl⟩
  have h := reiser4TreeSync_round_trip AalBits.plain_findsZero newTree_coherent newTree_wf 4 hrun
  exact ⟨st', hrun, hblocks, h.2.1, h.2.2.2.2.1⟩

end Reiser4
