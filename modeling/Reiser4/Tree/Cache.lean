/-
  The tree in memory and its way to the device (`reiser4_tree_sync` of `libreiser4/tree.c`).

  Loaded nodes are found by their block numbers in a hash table, know their place in their parent
  (`node->p`) and count their loaded children and other users (`node->counter`).  A new node has a fake
  block number.  `reiser4_tree_sync` walks the loaded nodes: before its children, a node gets a real
  number in place of a fake one, which goes into the format or into the pointer in its parent; after
  them it is written, if it is dirty, and unloaded.

  A node is known by an address, which stays when its number changes.  What a hook of the allocator
  would see, the links between neighbours, which are only cut here, and the messages are left out.
-/
import Mathlib.Data.Nat.Bitwise
import Reiser4.Alloc40.Alloc
import Reiser4.Tree.Rename

namespace Reiser4

open Reiser4.Lib

/-! ## Fake block numbers -/

/-- `REISER4_FAKE_BLOCKNR_MASK`. -/
def reiser4FakeBlocknrMask : Nat := 0x8000000000000000

/-- `reiser4_fake_ack`. -/
def reiser4FakeAck (blk : Nat) : Bool := blk &&& reiser4FakeBlocknrMask != 0

theorem reiser4FakeAck_of_lt {blk : Nat} (h : blk < 2 ^ 63) : reiser4FakeAck blk = false := by
  have hmask : reiser4FakeBlocknrMask = 2 ^ 63 := by decide
  unfold reiser4FakeAck
  rw [hmask, Nat.and_two_pow, Nat.testBit_lt_two_pow h]
  rfl

/-! ## The state -/

/-- What a block of the device holds: a formatted node, or data. -/
inductive Contents
  | node (img : NodeImg)
  | data (bytes : List UInt8)

def Contents.img : Contents → Option NodeImg
  | .node img => some img
  | .data _ => none

/-- `reiser4_node_t`. -/
structure CachedNode where
  /-- `block->nr`. -/
  nr : Nat
  /-- `block->dirty`. -/
  dirty : Bool
  level : Nat
  items : List Item
  /-- `p`: the parent node, and the item of the pointer there. -/
  p : Option (Nat × Nat)
  counter : Nat

def CachedNode.img (n : CachedNode) : NodeImg := ⟨n.level, n.items⟩

/-- An unformatted block in memory. -/
structure DataBlock where
  nr : Nat
  data : List UInt8
  dirty : Bool

/-- `reiser4_tree_t`, with what the file system it belongs to gives it. -/
structure CachedTree where
  /-- The nodes in memory, by their addresses. -/
  nodes : Nat → Option CachedNode
  /-- `tree->nodes`: the hash table of the loaded nodes. -/
  hash : Nat → Option Nat
  /-- `tree->root`. -/
  root : Option Nat
  /-- `get_root` of the format; none is `INVAL_BLK`. -/
  formatRoot : Option Nat
  height : Nat
  blksize : Nat
  pol : KeyPol
  alloc : Alloc40.Alloc
  device : Nat → Option Contents
  /-- `tree->blocks`. -/
  blocks : List DataBlock

namespace CachedTree

def setNode (st : CachedTree) (id : Nat) (n : Option CachedNode) : CachedTree :=
  { st with nodes := fun x => if x = id then n else st.nodes x }

def setHash (st : CachedTree) (blk : Nat) (id : Option Nat) : CachedTree :=
  { st with hash := fun b => if b = blk then id else st.hash b }

def setBlock (st : CachedTree) (blk : Nat) (c : Contents) : CachedTree :=
  { st with device := fun b => if b = blk then some c else st.device b }

/-- The tree one sees through the cache: loaded nodes are taken from there, others from the device. -/
def view (st : CachedTree) : Tree where
  store b :=
    match st.hash b with
    | some id => (st.nodes id).map CachedNode.img
    | none => (st.device b).bind Contents.img
  root := st.formatRoot
  height := st.height
  blksize := st.blksize
  pol := st.pol

theorem view_store_loaded {st : CachedTree} {b id : Nat} (h : st.hash b = some id) :
    st.view.store b = (st.nodes id).map CachedNode.img := by
  simp only [view, h]

theorem view_store_unloaded {st : CachedTree} {b : Nat} (h : st.hash b = none) :
    st.view.store b = (st.device b).bind Contents.img := by
  simp only [view, h]

/-- The tree that is opened from the device. -/
def opened (st : CachedTree) : Tree where
  store b := (st.device b).bind Contents.img
  root := st.formatRoot
  height := st.height
  blksize := st.blksize
  pol := st.pol

end CachedTree

/-! ## The nodes -/

/-- The node behind a pointer; a stale pointer is undefined. -/
def cachedNode (id : Nat) : Run CachedTree Errno CachedNode := do
  let st ← Run.get
  match st.nodes id with
  | none => Run.hang
  | some n => pure n

def setCachedNode (id : Nat) (n : CachedNode) : Run CachedTree Errno Unit :=
  Run.modify (·.setNode id (some n))

/-- `reiser4_node_lock`. -/
def reiser4NodeLock (id : Nat) : Run CachedTree Errno Unit := do
  let n ← cachedNode id
  setCachedNode id { n with counter := n.counter + 1 }

/-- `reiser4_node_unlock`. -/
def reiser4NodeUnlock (id : Nat) : Run CachedTree Errno Unit := do
  let n ← cachedNode id
  setCachedNode id { n with counter := n.counter - 1 }

/-- `reiser4_node_sync`, of a dirty node. -/
def reiser4NodeSync (id : Nat) : Run CachedTree Errno Unit := do
  let n ← cachedNode id
  let st ← Run.get
  if (st.device n.nr).isSome then do
    Run.modify (·.setBlock n.nr (.node n.img))
    setCachedNode id { n with dirty := false }
  else Run.fail .eio

/-- `reiser4_item_update_link`, of a pointer. -/
def reiser4ItemUpdateLink (place : Nat × Nat) (blk : Nat) : Run CachedTree Errno Unit := do
  let n ← cachedNode place.1
  match n.items[place.2]? with
  | none => Run.fail .eio
  | some it =>
    match it.body with
    | .nodeptr40 _ =>
      setCachedNode place.1 { n with
        items := n.items.set place.2 { it with body := .nodeptr40 blk }
        dirty := true }
    | _ => Run.fail .eio

/-! ## The tree -/

section Sync

variable (aal : AalBits)

/-- `reiser4_alloc_allocate` of one block; none is no free block. -/
def reiser4AllocAllocate : Run CachedTree Errno (Option Nat) := do
  let st ← Run.get
  match Alloc40.alloc40Allocate aal st.alloc 0 1 with
  | none => Run.hang
  | some (start, found, alloc) => do
    Run.modify fun st => { st with alloc }
    pure (if 0 < found then some start else none)

/-- `reiser4_tree_rehash_node`. -/
def reiser4TreeRehashNode (id new : Nat) : Run CachedTree Errno Unit := do
  let n ← cachedNode id
  setCachedNode id { n with nr := new, dirty := true }
  let st ← Run.get
  if (st.hash n.nr).isNone then Run.fail .einval
  else Run.modify fun st => (st.setHash n.nr none).setHash new (some id)

/-- The new number in the format, if the node is the root. -/
def setRootNr (old new : Nat) : Run CachedTree Errno Unit :=
  Run.modify fun st =>
    { st with formatRoot := if st.formatRoot = some old then some new else st.formatRoot }

/-- The new number in the parent, if the node has one. -/
def setParentLink (p : Option (Nat × Nat)) (new : Nat) : Run CachedTree Errno Unit :=
  match p with
  | none => pure ()
  | some place => reiser4ItemUpdateLink place new

/-- `cb_node_adjust`; what `reiser4_tree_rehash_node` returns is not looked at. -/
def cbNodeAdjust (id : Nat) : Run CachedTree Errno Unit := do
  let n ← cachedNode id
  if reiser4FakeAck n.nr then do
    match ← reiser4AllocAllocate aal with
    | none => Run.fail .enospc
    | some blk => do
      setRootNr n.nr blk
      setParentLink n.p blk
      let _ ← (reiser4TreeRehashNode id blk).attempt
      pure ()
  else pure ()

/-- Unlock the parent, if the node has one. -/
def unlockParent (p : Option (Nat × Nat)) : Run CachedTree Errno Unit :=
  match p with
  | none => pure ()
  | some (parent, _) => reiser4NodeUnlock parent

/-- `reiser4_tree_disconnect_node`. -/
def reiser4TreeDisconnectNode (id : Nat) : Run CachedTree Errno Unit := do
  let n ← cachedNode id
  let st ← Run.get
  if (st.hash n.nr).isNone then Run.fail .einval
  else do
    Run.modify fun st => { st.setHash n.nr none with
      root := if st.root = some id then none else st.root }
    unlockParent n.p

/-- `reiser4_tree_unload_node`. -/
def reiser4TreeUnloadNode (id : Nat) : Run CachedTree Errno Unit := do
  reiser4TreeDisconnectNode id
  Run.modify (·.setNode id none)

/-- `cb_node_unload`. -/
def cbNodeUnload (id : Nat) : Run CachedTree Errno Unit := do
  let n ← cachedNode id
  if 0 < n.counter then pure ()
  else if n.dirty then do
    (reiser4NodeSync id).orFail .eio
    reiser4TreeUnloadNode id
  else reiser4TreeUnloadNode id

/-- The child behind a pointer is walked, if it is loaded. -/
def walkChild (walk : Nat → Run CachedTree Errno Unit) (blk : Nat) : Run CachedTree Errno Unit := do
  let st ← Run.get
  match st.hash blk with
  | none => pure ()
  | some child => walk child

/-- The walk of one item of a node. -/
def walkItem (walk : Nat → Run CachedTree Errno Unit) (id : Nat) (it : Item) :
    Run CachedTree Errno Unit :=
  match it.downLink with
  | none => pure ()
  | some blk => do
    reiser4NodeLock id
    match ← (walkChild walk blk).attempt with
    | .error e => do
      reiser4NodeUnlock id
      Run.fail e
    | .ok () => reiser4NodeUnlock id

/-- The walk of the items of a node from item `i` on. -/
def walkItems (walk : Nat → Run CachedTree Errno Unit) (id : Nat) :
    Nat → Nat → Run CachedTree Errno Unit
  | 0, _ => Run.hang
  | fuel + 1, i => do
    let n ← cachedNode id
    match n.items[i]? with
    | none => pure ()
    | some it => do
      walkItem walk id it
      walkItems walk id fuel (i + 1)

/-- `reiser4_tree_walk_node` with `cb_node_adjust` before the children of a node and `cb_node_unload`
    after them. -/
def reiser4TreeWalkNode : Nat → Nat → Run CachedTree Errno Unit
  | 0, _ => Run.hang
  | fuel + 1, id => do
    cbNodeAdjust aal id
    walkItems (reiser4TreeWalkNode fuel) id fuel 0
    cbNodeUnload id

/-- `cb_save_block`. -/
def cbSaveBlock (d : DataBlock) : Run CachedTree Errno Unit := do
  let st ← Run.get
  if !d.dirty then pure ()
  else if (st.device d.nr).isSome then Run.modify (·.setBlock d.nr (.data d.data))
  else Run.fail .eio

/-- `reiser4_tree_sync`. -/
def reiser4TreeSync (fuel : Nat) : Run CachedTree Errno Unit := do
  let st ← Run.get
  match st.root with
  | none => pure ()
  | some root => do
    reiser4TreeWalkNode aal fuel root
    let st ← Run.get
    Run.forEach cbSaveBlock st.blocks

end Sync
end Reiser4
