/-
  Search of a name in a directory (`dir40_search`, `reiser4_tree_collision`, `cde40_collision`).

  The tree lookup finds the leftmost entry with the key of the name.  When keys collide the entry with
  the name may be a later one, so the collision handler walks right from there, item by item, and
  lets the item compare.

  The comparison inside an item (`cde40_collision`) goes over the units from the one it is called for,
  but the entry it reads each time is the one numbered by `pos.item`, the place of the item in its
  node.  So an item either decides at once or is gone through without a difference: `Decides` says
  which.  The entry read may lie behind the last one of the item; what the memory there reads as is a
  parameter, `beyond`.
-/
import Reiser4.Dir40.Name
import Reiser4.Tree.Exact
import Reiser4.Tree.Next

namespace Reiser4

open Reiser4.Lib

/-- The item groups (`STAT_ITEM` …). -/
inductive ItemGroup
  | stat | ptr | dir | tail | extent | ctail | blackBox
  deriving DecidableEq, Repr

/-- `plug->p.id.group`. -/
def ItemPlug.group : ItemPlug → ItemGroup
  | .stat40 => .stat
  | .bbox40 => .blackBox
  | .nodeptr40 => .ptr
  | .cde40 => .dir
  | .plain40 => .tail
  | .ctail40 => .ctail
  | .extent40 => .extent

/-- `coll_hint_t`. -/
structure CollHint where
  type : ItemGroup
  specific : List UInt8

namespace Item

/-! ## Comparing inside an item -/

/-- The entry at a number, also behind the last one. -/
def entryAt (beyond : Item → Nat → Entry) (it : Item) (es : List Entry) (i : Nat) : Entry :=
  es[i]?.getD (beyond it i)

/-- The loop of `cde40_collision`; the first argument is the number of units left. -/
def cde40CollisionLoop (pol : KeyPol) (key : Key) (read : Entry) (hash : Key) (name : List UInt8) :
    Nat → Nat → Option (Lookup × Nat)
  | 0, unit => some (.absent, unit)
  | n + 1, unit => do
    let own ← cde40GetHash pol key read
    if Key.compfull own hash ≠ 0 then some (.absent, unit)
    else
      let stored ← cde40GetName pol key read 256
      if stored = name then some (.present, unit)
      else cde40CollisionLoop pol key read hash name n (unit + 1)

/-- `cde40_collision`: the answer and the unit it leaves in the place, if the hash of the unit can be
    read. -/
def cde40Collision (beyond : Item → Nat → Entry) (pol : KeyPol) (it : Item) (es : List Entry)
    (pos : Pos) (name : List UInt8) : Option (Lookup × Nat) :=
  let unit := pos.unit.getD 0
  if unit ≥ es.length then some (.absent, unit)
  else do
    let hash ← cde40GetHash pol it.key (entryAt beyond it es unit)
    cde40CollisionLoop pol it.key (entryAt beyond it es pos.item) hash name (es.length - unit) unit

/-- `reiser4_item_collision`. -/
def collision (beyond : Item → Nat → Entry) (pol : KeyPol) (it : Item) (pos : Pos)
    (hint : CollHint) : Option (Lookup × Option Nat) :=
  match it.body with
  | .cde40 es => (cde40Collision beyond pol it es pos hint.specific).map fun r => (r.1, some r.2)
  | _ => some (.present, pos.unit)

end Item

/-! ## The collision handler -/

/-- The place a round of `reiser4_tree_collision` looks at: the one in hand, or when its units are
    used up the next item, if that is of the same plugin. -/
def collisionPlace (fuel : Nat) (node : NodeRef) (item : Nat) (unit : Option Nat) (it : Item) :
    Run Tree Errno (Option (NodeRef × Nat × Option Nat × Item)) := do
  if unit.any (fun u => u ≥ it.units) then
    let t ← Run.get
    let next ← (reiser4TreeNextPlace fuel node item).orFail .eio
    match next with
    | none => pure none
    | some (n, i) =>
      match (t.items n.blk)[i]? with
      | none => Run.fail .eio
      | some it' => if it'.plug = it.plug then pure (some (n, i, some 0, it')) else pure none
  else pure (some (node, item, unit, it))

/-- The loop of `reiser4_tree_collision`: it ends when the item was left before as many units as the
    item before it has. -/
def treeCollisionLoop (beyond : Item → Nat → Entry) (hint : CollHint) (nextFuel : Nat) :
    Nat → NodeRef → Nat → Option Nat → Item → Run Tree Errno (Lookup × Place)
  | 0, _, _, _, _ => Run.hang
  | fuel + 1, node, item, unit, it => do
    let t ← Run.get
    let cur ← collisionPlace nextFuel node item unit it
    match cur with
    | none => pure (.absent, ⟨some node, ⟨item, unit⟩⟩)
    | some (node', item', unit', it') =>
      match it'.collision beyond t.pol ⟨item', unit'⟩ hint with
      | none => Run.hang
      | some (_, after) =>
        if after.any (fun u => u < it.units) then pure (.present, ⟨some node', ⟨item', after⟩⟩)
        else treeCollisionLoop beyond hint nextFuel fuel node' item' after it'

/-- `reiser4_tree_collision`. -/
def reiser4TreeCollision (beyond : Item → Nat → Entry) (fuel : Nat) (hint : CollHint)
    (place : Place) : Run Tree Errno (Lookup × Place) := do
  let t ← Run.get
  match place.node with
  | none => Run.fail .einval
  | some node =>
    match (t.items node.blk)[place.pos.item]? with
    | none => Run.fail .einval
    | some it =>
      if it.plug.group ≠ hint.type then pure (.present, place)
      else treeCollisionLoop beyond hint fuel fuel node place.pos.item place.pos.unit it

/-- `dir40_search` with bias `FIND_EXACT` (`dir40_lookup`). -/
def dir40Search (beyond : Item → Nat → Entry) (plugs : Key.NamePlugs) (fuel : Nat)
    (objectid : Nat) (name : List UInt8) : Run Tree Errno (Lookup × Place) := do
  let t ← Run.get
  reiser4TreeLookup fuel
    ⟨Key.buildHashed t.pol plugs objectid name, leafLevel,
      some (reiser4TreeCollision beyond fuel ⟨.dir, name⟩)⟩ .exact

namespace Item

/-! ## What an item decides -/

/-- The entry that the comparison reads for an item at a place. -/
def readEntry (beyond : Item → Nat → Entry) (it : Item) (item : Nat) : Entry :=
  match it.body with
  | .cde40 es => entryAt beyond it es item
  | _ => beyond it item

/-- The item decides at the unit: the entry read has another key than the unit, or it carries the
    name. -/
def Decides (beyond : Item → Nat → Entry) (pol : KeyPol) (blksize : Nat) (name : List UInt8)
    (it : Item) (item unit : Nat) : Prop :=
  hashKey it.key (readEntry beyond it item) ≠ it.unitKey blksize unit ∨
    nameIn pol it.key (readEntry beyond it item) 256 = name

instance (beyond : Item → Nat → Entry) (pol : KeyPol) (blksize : Nat) (name : List UInt8)
    (it : Item) (item unit : Nat) : Decidable (Decides beyond pol blksize name it item unit) :=
  inferInstanceAs (Decidable (_ ∨ _))

/-- The loop compares one entry over and over: it ends at once, or behind all units. -/
theorem cde40CollisionLoop_large (key : Key) (read : Entry) (hash : Key) (name : List UInt8) :
    ∀ (n unit : Nat), cde40CollisionLoop .large key read hash name n unit =
      some (if n = 0 then (.absent, unit)
        else if hashKey key read ≠ hash then (.absent, unit)
        else if nameIn .large key read 256 = name then (.present, unit)
        else (.absent, unit + n))
  | 0, unit => rfl
  | n + 1, unit => by
    show (if Key.compfull (hashKey key read) hash ≠ 0 then some (.absent, unit)
      else if nameIn .large key read 256 = name then some (.present, unit)
      else cde40CollisionLoop .large key read hash name n (unit + 1)) = _
    rw [if_neg (Nat.succ_ne_zero n)]
    by_cases hk : hashKey key read = hash
    · rw [if_neg (not_not.mpr (Key.compfull_zero.mpr hk)), if_neg (not_not.mpr hk)]
      by_cases hn : nameIn .large key read 256 = name
      · rw [if_pos hn, if_pos hn]
      · rw [if_neg hn, if_neg hn, cde40CollisionLoop_large key read hash name n (unit + 1),
          if_neg (not_not.mpr hk), if_neg hn]
        split
        · next h0 => rw [h0]
        · rw [Nat.add_right_comm, Nat.add_assoc]
    · rw [if_pos fun h => hk (Key.compfull_zero.mp h), if_pos hk]

/-- What `cde40_collision` comes to for a unit of the item, with large keys. -/
theorem cde40Collision_large (beyond : Item → Nat → Entry) (it : Item) (es : List Entry) (pos : Pos)
    (name : List UInt8) (hlen : pos.unit.getD 0 < es.length) :
    cde40Collision beyond .large it es pos name =
      some (if hashKey it.key (entryAt beyond it es pos.item) ≠
          hashKey it.key (entryAt beyond it es (pos.unit.getD 0)) then (.absent, pos.unit.getD 0)
        else if nameIn .large it.key (entryAt beyond it es pos.item) 256 = name then
          (.present, pos.unit.getD 0)
        else (.absent, es.length)) := by
  unfold cde40Collision
  dsimp only
  rw [if_neg (Nat.not_le.mpr hlen)]
  show cde40CollisionLoop .large _ _ (hashKey it.key (entryAt beyond it es (pos.unit.getD 0))) _ _ _ = _
  rw [cde40CollisionLoop_large, if_neg (by omega), Nat.add_sub_cancel' (Nat.le_of_lt hlen)]

/-- With short keys there is no answer for a unit of the item. -/
theorem cde40Collision_short (beyond : Item → Nat → Entry) (it : Item) (es : List Entry) (pos : Pos)
    (name : List UInt8) (hlen : pos.unit.getD 0 < es.length) :
    cde40Collision beyond .short it es pos name = none :=
  if_neg (Nat.not_le.mpr hlen)

/-- The unit a directory item is left at. -/
theorem collision_unit (beyond : Item → Nat → Entry) {pol : KeyPol} (hlarge : pol = .large)
    (blksize : Nat) {it : Item} (hp : it.plug = .cde40) (item : Nat) (unit : Option Nat)
    (hu : unit.getD 0 < it.units) (hint : CollHint) :
    ∃ res, it.collision beyond pol ⟨item, unit⟩ hint =
      some (res, some (if it.Decides beyond pol blksize hint.specific item (unit.getD 0) then
        unit.getD 0 else it.units)) := by
  subst hlarge
  obtain ⟨es, hb⟩ : ∃ es, it.body = .cde40 es := by
    unfold plug at hp
    cases hb : it.body <;> simp [hb, Body.plug] at hp ⊢
  have hlen : unit.getD 0 < es.length := by simpa [units, hb] using hu
  have hkey : hashKey it.key (entryAt beyond it es (unit.getD 0)) =
      it.unitKey blksize (unit.getD 0) := by
    simp [entryAt, unitKey, hb, hlen]
  have hread : readEntry beyond it item = entryAt beyond it es item := by simp [readEntry, hb]
  have hunits : it.units = es.length := by simp [units, hb]
  have hdec : it.Decides beyond .large blksize hint.specific item (unit.getD 0) ↔
      hashKey it.key (entryAt beyond it es item) ≠
          hashKey it.key (entryAt beyond it es (unit.getD 0)) ∨
        nameIn .large it.key (entryAt beyond it es item) 256 = hint.specific := by
    unfold Decides
    rw [hread, hkey]
  have hrun := cde40Collision_large beyond it es ⟨item, unit⟩ hint.specific hlen
  simp only [collision, hb, hrun, Option.map_some, hunits, hdec]
  by_cases hk : hashKey it.key (entryAt beyond it es item) =
      hashKey it.key (entryAt beyond it es (unit.getD 0))
  · by_cases hn : nameIn .large it.key (entryAt beyond it es item) 256 = hint.specific
    · exact ⟨.present, by simp [hk, hn]⟩
    · exact ⟨.absent, by simp [hk, hn]⟩
  · exact ⟨.absent, by simp [hk]⟩

end Item
end Reiser4
