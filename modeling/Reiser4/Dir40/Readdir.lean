/-
  Reading a directory (`dir40_readdir`, `dir40_telldir`, `dir40_seekdir`).

  The position of a directory is a key with a number, `adjust`, that tells entries of one key apart.  Each reading
  looks the key up anew (`obj40_update_body`) and steps over `adjust` entries with it, from item to item and from
  node to node; then it leaves the position of the entry behind (`obj40_next_item`).  So the object keeps nothing
  of the tree between two calls, and positions can be kept and set at any time.

  `dirUnits` is what there is to read: the units of the items with the locality of the directory, in tree order.
  What a call does is said in places of this sequence:

    1. `obj40NextItem_spec`, `updateBodyLoop_spec`   from an item to the next, over the entries with the key;
    2. `Directory.updateBody_scan`                   where looking a position up comes to;
    3. `Directory.readdir_spec`, `run_spec`          a reading, a run is one of the cursor over the keys.
-/
import Reiser4.Lib.Cursor
import Reiser4.Bitmap
import Reiser4.Dir40.Name
import Reiser4.Tree.Exact
import Reiser4.Tree.Next

namespace Reiser4

open Reiser4.Lib

/-! ## The object -/

/-- `obj->body` once it is in a node. -/
structure BodyPlace where
  node : NodeRef
  item : Nat
  unit : Nat
  deriving DecidableEq, Repr

/-- `entry_hint_t` as `dir40_readdir` fills it. -/
structure DirentHint where
  place : BodyPlace
  offset : Key
  object : Nat × Nat × Nat
  name : List UInt8
  /-- The type is `ET_SPCL`, not `ET_NAME`. -/
  special : Bool
  deriving DecidableEq, Repr

/-- `REISER4_MAX_BLKSIZE`, the size of the name in the hint. -/
def reiser4MaxBlksize : Nat := 8192

/-- An entry in the hint (`cde40_fetch_units`, `dir40_entry_type`), where its hash can be read. -/
def direntHint (pol : KeyPol) (it : Item) (place : BodyPlace) (e : Entry) : DirentHint where
  place := place
  offset := Item.hashKey it.key e
  object := e.object
  name := Item.nameIn pol it.key e reiser4MaxBlksize
  special := decide (Item.nameIn pol it.key e reiser4MaxBlksize = [46]) ||
    decide (Item.nameIn pol it.key e reiser4MaxBlksize = [46, 46])

/-- `dir40_fetch`; none where there is no entry, or its hash cannot be read. -/
def dir40Fetch (t : Tree) (b : BodyPlace) : Option DirentHint := do
  let it ← (t.items b.node.blk)[b.item]?
  let e ← it.unitEntry b.unit
  let _ ← Item.cde40GetHash t.pol it.key e
  some (direntHint t.pol it b e)

/-- `balance->units` of the item at the body. -/
def bodyUnits (t : Tree) (b : BodyPlace) : Nat :=
  match (t.items b.node.blk)[b.item]? with
  | none => 0
  | some it => it.units

/-- `obj40_belong`. -/
def obj40Belong (t : Tree) (node : NodeRef) (item : Nat) (key : Key) : Lookup :=
  match (t.items node.blk)[item]? with
  | none => .absent
  | some it => if Key.compshort key it.key ≠ 0 then .absent else .present

/-- `obj40_next_item`: the next item, if it is of the object of the key. -/
def obj40NextItem (fuel : Nat) (key : Key) (node : NodeRef) (item : Nat) : Run Tree Errno (Option BodyPlace) := do
  let t ← Run.get
  let next ← reiser4TreeNextPlace fuel node item
  match next with
  | none => pure none
  | some (n, i) =>
    match obj40Belong t n i key with
    | .absent => pure none
    | .present => pure (some ⟨n, i, 0⟩)

/-- The loop of `obj40_update_body`, with `dir40_entry_comp` as the function that compares. -/
def updateBodyLoop (nextFuel : Nat) (key : Key) : Nat → Nat → BodyPlace → Run Tree Errno (Option BodyPlace)
  | 0, _, _ => Run.hang
  | fuel + 1, adjust, b => do
    let t ← Run.get
    if bodyUnits t b ≤ b.unit then
      let next ← obj40NextItem nextFuel key b.node b.item
      match next with
      | none => pure none
      | some b' => updateBodyLoop nextFuel key fuel adjust b'
    else if adjust = 0 then pure (some b)
    else
      match dir40Fetch t b with
      | none => Run.hang
      | some entry =>
        if Key.compfull entry.offset key ≠ 0 then pure (some b)
        else updateBodyLoop nextFuel key fuel (adjust - 1) ⟨b.node, b.item, b.unit + 1⟩

/-- `obj40_update_body`; without a tree there is no node to look into. -/
def obj40UpdateBody (fuel : Nat) (position : Mark Key) : Run Tree Errno (Option BodyPlace) := do
  let t ← Run.get
  let found ← reiser4TreeLookup fuel ⟨position.key, leafLevel, none⟩ .exact
  match found.2.node with
  | none => Run.hang
  | some node =>
    match found.1 with
    | .present =>
      updateBodyLoop fuel position.key fuel position.adjust ⟨node, found.2.pos.item, found.2.pos.unit.getD 0⟩
    | .absent =>
      -- an adjust is for entries with the key only
      if found.2.pos.item < (t.items node.blk).length then
        match obj40Belong t node found.2.pos.item position.key with
        | .absent => pure none
        | .present =>
          updateBodyLoop fuel position.key fuel 0 ⟨node, found.2.pos.item, found.2.pos.unit.getD 0⟩
      else
        let next ← obj40NextItem fuel position.key node found.2.pos.item
        match next with
        | none => pure none
        | some b => updateBodyLoop fuel position.key fuel 0 b

/-- The offset behind a key, in 64 bits. -/
def nextOffset (k : Key) : Key := k.setOffset ((k.offset + 1) % two64)

/-- The position that `dir40_readdir` leaves, from the one it was called with and the next entry. -/
def nextPosition (position : Mark Key) : Option DirentHint → Mark Key
  | none => ⟨nextOffset position.key, position.adjust⟩
  | some entry =>
    ⟨entry.offset, if Key.compfull entry.offset position.key = 0 then (position.adjust + 1) % two32 else 0⟩

/-- `dir40_readdir`: the entry, none at the end of the directory, and the position after it. -/
def dir40Readdir (fuel : Nat) (position : Mark Key) : Run Tree Errno (Option DirentHint × Mark Key) := do
  let t ← Run.get
  let body ← obj40UpdateBody fuel position
  match body with
  | none => pure (none, position)
  | some b => do
    let entry ← Run.lift (dir40Fetch t b)
    if b.unit + 1 ≥ bodyUnits t b then
      let next ← obj40NextItem fuel position.key b.node b.item
      match next with
      | none => pure (some entry, nextPosition position none)
      | some b' => do
        let temp ← Run.lift (dir40Fetch t b')
        pure (some entry, nextPosition position (some temp))
    else
      let temp ← Run.lift (dir40Fetch t ⟨b.node, b.item, b.unit + 1⟩)
      pure (some entry, nextPosition position (some temp))

/-- `dir40_reset`: the key of ".". -/
def dir40Reset (pol : KeyPol) (plugs : Key.NamePlugs) (objectid : Nat) : Mark Key :=
  ⟨Key.buildHashed pol plugs objectid [46], 0⟩

/-- `dir40_telldir`. -/
def dir40Telldir (position : Mark Key) : Mark Key := position

/-- `dir40_seekdir`. -/
def dir40Seekdir (_position new : Mark Key) : Mark Key := new

/-- A run of calls: the results of the readings.  `seek` sets the position that the `n`-th `tell` gave. -/
def dir40Run (fuel : Nat) : List CursorOp → Mark Key → List (Mark Key) → Run Tree Errno (List (Option DirentHint))
  | [], _, _ => pure []
  | .read :: ops, position, kept => do
    let r ← dir40Readdir fuel position
    let rs ← dir40Run fuel ops r.2 kept
    pure (r.1 :: rs)
  | .tell :: ops, position, kept => dir40Run fuel ops position (kept ++ [dir40Telldir position])
  | .seek n :: ops, position, kept =>
    dir40Run fuel ops (dir40Seekdir position (kept[n]?.getD position)) kept

/-! ## What there is to read -/

/-- The first element of the keys in a directory. -/
def dirEl0 (objectid : Nat) : Nat := objectid * 16 % two64 + Key.filenameMinor

/-- The units of an item, if it is of the directory. -/
def unitsIn (el0 : Nat) (it : Item) : List (Item × Nat) :=
  if it.key.el0 = el0 then (List.range it.units).map fun u => (it, u) else []

/-- The entries of a directory among some items. -/
def dirUnits (el0 : Nat) (ss : List Tree.Slot) : List (Item × Nat) := ss.flatMap fun s => unitsIn el0 s.1

/-- A directory of a tree.  Its items are directory items, and it has a stat data, so there is a tree. -/
structure Directory (t : Tree) where
  objectid : Nat
  wf : t.WF
  root : t.root ≠ none
  items : ∀ s ∈ t.slots, s.1.key.el0 = dirEl0 objectid → s.1.plug = .cde40

namespace Directory

variable {t : Tree}

/-- The entries in tree order. -/
def units (d : Directory t) : List (Item × Nat) := dirUnits (dirEl0 d.objectid) t.slots

/-- Their keys. -/
def keys (d : Directory t) : List Key := d.units.map fun x => x.1.unitKey t.blksize x.2

/-- The number of entries in front of a place. -/
def index (d : Directory t) (b : BodyPlace) : Nat :=
  (dirUnits (dirEl0 d.objectid) (t.beforeItem (t.level b.node.blk) b.node b.item)).length + b.unit

/-- A reading gives the entry with the number, from its place; behind the last one it gives the end. -/
def Gives (d : Directory t) (i : Nat) (r : Option DirentHint) : Prop :=
  match d.units[i]? with
  | none => r = none
  | some (it, u) => ∃ b e, it.unitEntry u = some e ∧ r = some (direntHint t.pol it b e) ∧
      (t.items b.node.blk)[b.item]? = some it ∧ b.unit = u ∧ d.index b = i

end Directory

/-! ## Where a search stops -/

namespace Tree

variable {t : Tree} {k : Key}

/-- Where a search that misses stops: not at a pointer, for it goes down there, and inside an item only if the
    item was searched. -/
def StopsAt (t : Tree) (node : NodeRef) (pos : Pos) : Prop :=
  ∀ it, (t.items node.blk)[pos.item]? = some it →
    it.downLink = none ∧ (pos.unit.isSome → (it.maxpossKey t.pol).isSome)

theorem lookupLoop_stops (hw : t.WF) (hread : t.Reads k) {walkFuel : Nat} : ∀ {fuel h : Nat} {node n : NodeRef} {pos : Pos},
    t.Reaches (h + 1) node →
    (lookupLoop walkFuel ⟨k, leafLevel, none⟩ .exact fuel node).run t = some (.ok (.absent, ⟨some n, pos⟩), t) →
    t.StopsAt n pos := by
  intro fuel
  induction fuel with
  | zero =>
    intro h node n pos _ hrun
    simp [lookupLoop] at hrun
  | succ fuel ih =>
    intro h node n pos hr hrun it hit
    obtain ⟨img, himg, hlevel, hitems⟩ := (hr.sound hw).node
    obtain ⟨res, stop, hlook, hout⟩ := reiser4NodeLookup_outcome t.pol t.blksize (hr.keysSorted hw) k
      (hread.items hr)
    rw [lookupLoop, Run.bind_of_ok (loadNode_run himg), Run.get_bind] at hrun
    simp only [ite_self, hitems, hlevel, hlook] at hrun
    -- the item was searched where the node lookup gives a unit and misses
    have hunit : res = .absent → ∀ it, (t.items node.blk)[stop.item]? = some it →
        stop.unit.isSome → (it.maxpossKey t.pol).isSome := by
      intro hres it hit hsome
      cases hout with
      | here i _ _ _ => simp at hres
      | inside i it' hit' _ _ _ res u hl =>
        obtain rfl : it' = it := Option.some.inj (hit'.symm.trans hit)
        rw [← Item.lookup_isSome_iff t.pol it' t.blksize k .exact, hl]
        rfl
      | down i _ _ _ _ _ _ => simp at hsome
      | between i _ _ _ _ => simp at hsome
    by_cases hleaf : h + 1 ≤ leafLevel
    · rw [if_pos hleaf] at hrun
      cases res with
      | absent =>
        simp only [lookupStop, Run.pure_ok, Prod.mk.injEq, Place.mk.injEq, Option.some.injEq, and_true,
          true_and] at hrun
        obtain ⟨rfl, rfl⟩ := hrun
        obtain rfl : h = 0 := by
          unfold leafLevel at hleaf
          omega
        exact ⟨hr.leaf_plain hw hit, hunit rfl it hit⟩
      | present =>
        rw [lookupStop, Run.bind_ok] at hrun
        obtain ⟨place, s, -, hrun⟩ := hrun
        simp at hrun
    · rw [if_neg hleaf] at hrun
      cases hget : (t.items node.blk)[stop.item]? with
      | none =>
        simp only [hget, Run.pure_ok, Prod.mk.injEq, Place.mk.injEq, Option.some.injEq, and_true,
          true_and] at hrun
        obtain ⟨rfl, rfl⟩ := hrun
        rw [hget] at hit
        simp at hit
      | some it' =>
        simp only [hget] at hrun
        cases hdown : it'.downLink with
        | none =>
          simp only [hdown, Run.pure_ok, Prod.mk.injEq, Place.mk.injEq, Option.some.injEq, and_true] at hrun
          obtain ⟨hres, rfl, rfl⟩ := hrun
          obtain rfl : it' = it := Option.some.inj (hget.symm.trans hit)
          exact ⟨hdown, hunit hres it' hit⟩
        | some blk =>
          simp only [hdown] at hrun
          obtain ⟨h', rfl⟩ : ∃ h', h = h' + 1 := ⟨h - 1, by unfold leafLevel at hleaf; omega⟩
          exact ih (.child hr hget hdown) hrun it hit

theorem reiser4TreeLookup_stops (hw : t.WF) (hread : t.Reads k) {fuel : Nat} {n : NodeRef} {pos : Pos}
    (hrun : (reiser4TreeLookup fuel ⟨k, leafLevel, none⟩ .exact).run t =
      some (.ok (.absent, ⟨some n, pos⟩), t)) : t.StopsAt n pos := by
  simp only [reiser4TreeLookup, Run.get_bind] at hrun
  cases hroot : t.root with
  | none => simp [hroot] at hrun
  | some r =>
    rw [hroot] at hrun
    obtain ⟨h, hh⟩ : ∃ h, t.height = h + 1 :=
      ⟨t.height - 1, (Nat.sub_add_cancel (hw.sound r hroot).pos).symm⟩
    have hr : t.Reaches (h + 1) ⟨r, []⟩ := hh ▸ .root hroot
    exact lookupLoop_stops hw hread hr hrun

end Tree

/-! ## Entries and their keys -/

theorem dirEl0_minor (objectid : Nat) : dirEl0 objectid % 16 = 0 := by
  unfold dirEl0 two64 Key.filenameMinor
  omega

/-- The entries of a directory item have its locality. -/
theorem Item.WF.unitKey_el0 {pol : KeyPol} {blksize : Nat} {it : Item} (hw : it.WF pol blksize)
    (hp : it.plug = .cde40) {u : Nat} (hu : u < it.units) : (it.unitKey blksize u).el0 = it.key.el0 := by
  obtain ⟨es, hb⟩ : ∃ es, it.body = .cde40 es := by
    unfold Item.plug at hp
    cases hb : it.body <;> simp [hb, Body.plug] at hp ⊢
  have hlen : u < es.length := by simpa [Item.units, hb] using hu
  have hmin := (hw.cde es hb).1
  unfold Key.getMinor Key.filenameMinor at hmin
  simp only [Item.unitKey, hb, List.getElem?_eq_getElem hlen, Option.map_some, Option.getD_some,
    Item.hashKey, Key.buildFilename, Key.getLocality, Key.filenameMinor]
  omega

theorem Item.maxpossKey_el0 {pol : KeyPol} {it : Item} {m : Key} (hm : it.maxpossKey pol = some m) :
    m.el0 = it.key.el0 := by
  have hord : ∀ v, (it.key.setOrdering pol v).el0 = it.key.el0 := fun v => by cases pol <;> rfl
  unfold Item.maxpossKey at hm
  cases hb : it.body <;> simp only [hb, Option.some.injEq, reduceCtorEq] at hm
  · rw [← hm, Item.cde40MaxpossKey, Key.setOffset_el0, Key.setObjectid_el0, hord]
  · rw [← hm, Item.body40MaxpossKey, Key.setOffset_el0]
  · rw [← hm, Item.body40MaxpossKey, Key.setOffset_el0]
  · rw [← hm, Item.body40MaxpossKey, Key.setOffset_el0]

/-- A directory item has an entry for each unit. -/
theorem Item.unitEntry_of_lt {it : Item} (hp : it.plug = .cde40) {u : Nat} (hu : u < it.units) (blksize : Nat) :
    ∃ e, it.unitEntry u = some e ∧ Item.hashKey it.key e = it.unitKey blksize u := by
  obtain ⟨es, hb⟩ : ∃ es, it.body = .cde40 es := by
    unfold Item.plug at hp
    cases hb : it.body <;> simp [hb, Body.plug] at hp ⊢
  have hlen : u < es.length := by simpa [Item.units, hb] using hu
  refine ⟨es[u], ?_, ?_⟩
  · simp [Item.unitEntry, hb, hlen]
  · simp [Item.unitKey, hb, hlen]

theorem obj40Belong_eq {t : Tree} {node : NodeRef} {item : Nat} {it : Item}
    (hit : (t.items node.blk)[item]? = some it) {key : Key} {objectid : Nat} (hkey : key.el0 = dirEl0 objectid) :
    obj40Belong t node item key = if it.key.el0 = dirEl0 objectid then .present else .absent := by
  have hmin : key.getMinor = Key.filenameMinor := by
    unfold Key.getMinor
    rw [hkey]
    exact dirEl0_minor objectid
  simp only [obj40Belong, hit, Key.compshort, hkey, hmin, Key.compEl, Key.filenameMinor]
  grind

@[simp] theorem dirUnits_nil (el0 : Nat) : dirUnits el0 [] = [] := rfl

theorem dirUnits_append (el0 : Nat) (ss ss' : List Tree.Slot) :
    dirUnits el0 (ss ++ ss') = dirUnits el0 ss ++ dirUnits el0 ss' := List.flatMap_append

theorem dirUnits_cons (el0 : Nat) (s : Tree.Slot) (ss : List Tree.Slot) :
    dirUnits el0 (s :: ss) = unitsIn el0 s.1 ++ dirUnits el0 ss := List.flatMap_cons

theorem mem_dirUnits {el0 : Nat} {ss : List Tree.Slot} {x : Item × Nat} :
    x ∈ dirUnits el0 ss ↔ ∃ s ∈ ss, s.1.key.el0 = el0 ∧ x.1 = s.1 ∧ x.2 < s.1.units := by
  unfold dirUnits
  rw [List.mem_flatMap]
  constructor
  · rintro ⟨s, hs, hx⟩
    unfold unitsIn at hx
    by_cases hel : s.1.key.el0 = el0
    · rw [if_pos hel, List.mem_map] at hx
      obtain ⟨u, hu, rfl⟩ := hx
      exact ⟨s, hs, hel, rfl, List.mem_range.mp hu⟩
    · rw [if_neg hel] at hx
      exact absurd hx List.not_mem_nil
  · rintro ⟨s, hs, hel, h1, h2⟩
    refine ⟨s, hs, ?_⟩
    unfold unitsIn
    rw [if_pos hel, List.mem_map]
    exact ⟨x.2, List.mem_range.mpr h2, by rw [← h1]⟩

theorem dirUnits_eq_nil {el0 : Nat} {ss : List Tree.Slot} (h : ∀ s ∈ ss, s.1.key.el0 ≠ el0) :
    dirUnits el0 ss = [] := by
  rw [List.eq_nil_iff_forall_not_mem]
  intro x hx
  obtain ⟨s, hs, hel, -⟩ := mem_dirUnits.mp hx
  exact h s hs hel

namespace Directory

variable {t : Tree} {d : Directory t}

/-! ## Places of a directory -/

/-- A place in an item of the directory, or behind its last unit. -/
structure InDir (d : Directory t) (h : Nat) (b : BodyPlace) (it : Item) : Prop where
  reaches : t.Reaches (h + 1) b.node
  item : (t.items b.node.blk)[b.item]? = some it
  plain : it.downLink = none
  mine : it.key.el0 = dirEl0 d.objectid
  unit_le : b.unit ≤ it.units

/-- What a step through the directory comes to: the entry with the number, or the end when there is none. -/
def Lands (d : Directory t) (i : Nat) (r : Option (Except Errno (Option BodyPlace) × Tree)) : Prop :=
  (∃ b h it, r = some (.ok (some b), t) ∧ d.InDir h b it ∧ b.unit < it.units ∧ d.index b = i) ∨
    r = some (.ok none, t) ∧ d.units.length = i

section InDir

variable {h : Nat} {b : BodyPlace} {it : Item}

theorem InDir.mem (hb : d.InDir h b it) : (it, b.item) ∈ t.slots := by
  rw [hb.reaches.slots_eq_item hb.item hb.plain]
  exact List.mem_append_right _ List.mem_cons_self

theorem InDir.wf (hb : d.InDir h b it) : it.WF t.pol t.blksize := (d.wf.slot hb.mem).2

theorem InDir.cde (hb : d.InDir h b it) : it.plug = .cde40 := d.items _ hb.mem hb.mine

theorem index_eq (hr : t.Reaches (h + 1) b.node) : d.index b =
    (dirUnits (dirEl0 d.objectid) (t.beforeItem (h + 1) b.node b.item)).length + b.unit := by
  unfold index
  rw [hr.level_eq d.wf]

/-- The entries around an item of the directory. -/
theorem InDir.units_eq (hb : d.InDir h b it) : d.units =
    dirUnits (dirEl0 d.objectid) (t.beforeItem (h + 1) b.node b.item) ++
      ((List.range it.units).map (fun u => (it, u)) ++
        dirUnits (dirEl0 d.objectid) (t.afterItem (h + 1) b.node (b.item + 1))) := by
  unfold units
  rw [hb.reaches.slots_eq_item hb.item hb.plain, dirUnits_append, dirUnits_cons, unitsIn, if_pos hb.mine]

/-- The entry at a place has the number of the place. -/
theorem InDir.get (hb : d.InDir h b it) (hu : b.unit < it.units) : d.units[d.index b]? = some (it, b.unit) := by
  rw [hb.units_eq, index_eq hb.reaches, List.getElem?_append_right (Nat.le_add_right _ _), Nat.add_sub_cancel_left,
    List.getElem?_append_left (by simpa using hu)]
  simp [hu]

theorem InDir.getKey (hb : d.InDir h b it) (hu : b.unit < it.units) :
    d.keys[d.index b]? = some (it.unitKey t.blksize b.unit) := by
  unfold keys
  rw [List.getElem?_map, hb.get hu]
  rfl

theorem keys_length (d : Directory t) : d.keys.length = d.units.length := List.length_map _

theorem InDir.index_lt (hb : d.InDir h b it) (hu : b.unit < it.units) : d.index b < d.units.length :=
  (List.getElem?_eq_some_iff.mp (hb.get hu)).1

/-- Behind an item as many entries are passed as it has. -/
theorem InDir.before_succ (hb : d.InDir h b it) :
    dirUnits (dirEl0 d.objectid) (t.beforeItem (h + 1) b.node (b.item + 1)) =
      dirUnits (dirEl0 d.objectid) (t.beforeItem (h + 1) b.node b.item) ++
        (List.range it.units).map (fun u => (it, u)) := by
  rw [Tree.beforeItem_succ hb.item, Tree.expand_of_none _ (s := (it, b.item)) hb.plain, dirUnits_append, dirUnits_cons,
    dirUnits_nil, List.append_nil, unitsIn, if_pos hb.mine]

/-- What comes behind an item of the directory is of the directory or behind it. -/
theorem InDir.el0_after (hb : d.InDir h b it) : ∀ s ∈ t.afterItem (h + 1) b.node (b.item + 1),
    dirEl0 d.objectid ≤ s.1.key.el0 := by
  intro s hs
  have hle := hb.reaches.le_after d.wf hb.item (Tree.afterItem_subset (Nat.le_succ _) hs)
  rw [← hb.mine, ← not_lt]
  intro hlt
  exact absurd ((Key.lt_iff _ _).mpr (Or.inl hlt)) (not_lt.mpr hle)

end InDir

/-- Items from one that is not of the directory on hold none of its entries, once its locality is reached. -/
theorem none_after {s : Tree.Slot} {pre rest : List Tree.Slot} (hcut : t.slots = pre ++ s :: rest)
    (hge : dirEl0 d.objectid ≤ s.1.key.el0) (hne : s.1.key.el0 ≠ dirEl0 d.objectid) :
    dirUnits (dirEl0 d.objectid) (s :: rest) = [] := by
  refine dirUnits_eq_nil fun x hx => ?_
  rcases List.mem_cons.mp hx with rfl | hx
  · exact hne
  · have hcut' : t.slots = (pre ++ [s]) ++ rest := by
      rw [hcut, List.append_assoc]
      rfl
    have hle := d.wf.key_le_key hcut' (List.mem_append_right _ (List.mem_singleton.mpr rfl)) hx
    have hnot := not_lt.mpr hle
    rw [Key.lt_iff] at hnot
    omega

/-- **The next item**: the next entry, or the end of the directory. -/
theorem obj40NextItem_spec {fuel : Nat} (hfuel : t.height ≤ fuel) {h : Nat} {node : NodeRef} {item : Nat}
    (hr : t.Reaches (h + 1) node)
    (hge : ∀ s ∈ t.afterItem (h + 1) node (item + 1), dirEl0 d.objectid ≤ s.1.key.el0) {key : Key}
    (hkey : key.el0 = dirEl0 d.objectid) :
    d.Lands (dirUnits (dirEl0 d.objectid) (t.beforeItem (h + 1) node (item + 1))).length
      ((obj40NextItem fuel key node item).run t) := by
  have hcut := hr.slots_eq_place (item + 1)
  have hnext := Tree.reiser4TreeNextPlace_spec d.wf hfuel hr item
  have hend : dirUnits (dirEl0 d.objectid) (t.afterItem (h + 1) node (item + 1)) = [] → d.units.length =
      (dirUnits (dirEl0 d.objectid) (t.beforeItem (h + 1) node (item + 1))).length := by
    intro hnil
    unfold units
    rw [hcut, dirUnits_append, hnil, List.append_nil]
  unfold obj40NextItem
  rw [Run.get_bind]
  rcases hafter : t.afterItem (h + 1) node (item + 1) with _ | ⟨s, rest⟩
  · rw [hafter] at hnext
    refine Or.inr ⟨?_, hend (by rw [hafter]; rfl)⟩
    rw [Run.bind_of_ok hnext]
    rfl
  · rw [hafter] at hnext hcut
    obtain ⟨n, h', hrun, hreach, hit, hrest⟩ := hnext
    rw [Run.bind_of_ok hrun]
    simp only [obj40Belong_eq hit hkey]
    by_cases hmine : s.1.key.el0 = dirEl0 d.objectid
    · rw [if_pos hmine]
      have hs : s ∈ t.slots := by
        rw [hcut]
        exact List.mem_append_right _ List.mem_cons_self
      have hplain := (d.wf.slot hs).1
      have hplace : d.InDir h' ⟨n, s.2, 0⟩ s.1 := ⟨hreach, hit, hplain, hmine, Nat.zero_le _⟩
      refine Or.inl ⟨_, h', s.1, rfl, hplace, hplace.wf.units_pos, ?_⟩
      -- both places cut the sequence in front of the same item
      have hcut' := hreach.slots_eq_item hit hplain
      rw [hrest, hcut] at hcut'
      rw [index_eq hreach, (List.append_inj' hcut' rfl).1, Nat.add_zero]
    · rw [if_neg hmine]
      refine Or.inr ⟨rfl, hend ?_⟩
      rw [hafter]
      exact none_after hcut (hge s (by rw [hafter]; exact List.mem_cons_self)) hmine

/-- The hash of every entry there is can be read. -/
def Legible (d : Directory t) : Prop := t.pol = .large ∨ d.units = []

/-- Nor does a search for a key in the directory read another one. -/
theorem Legible.reads (hread : d.Legible) {k : Key} (hk : k.el0 = dirEl0 d.objectid) : t.Reads k := by
  rcases hread with hl | hnil
  · exact Tree.reads_of_large hl k
  · refine Or.inr fun pre s post hcut hp hpast => ?_
    have hmem := Tree.mem_slots_right hcut List.mem_cons_self
    have hwf := (d.wf.slot hmem).2
    have hother : s.1.key.el0 ≠ dirEl0 d.objectid := by
      intro hel
      have hin : (s.1, 0) ∈ d.units := mem_dirUnits.mpr ⟨s, hmem, hel, rfl, hwf.units_pos⟩
      rw [hnil] at hin
      exact List.not_mem_nil hin
    -- an item in front of the directory ends there
    have hlt : k < s.1.key := by
      rw [Key.lt_iff, hk]
      rcases Nat.lt_or_gt_of_ne hother with hless | hmore
      · have hsome : (s.1.maxpossKey t.pol).isSome := by
          unfold Item.plug at hp
          unfold Item.maxpossKey
          cases hb : s.1.body <;> simp [hb, Body.plug] at hp ⊢
        obtain ⟨m, hm⟩ := Option.isSome_iff_exists.mp hsome
        have hbefore : m < k := by
          rw [Key.lt_iff, Item.maxpossKey_el0 hm, hk]
          exact Or.inl hless
        rw [Item.pastMaxposs_eq_true.mpr ⟨m, hm, hbefore⟩] at hpast
        cases hpast
      · exact Or.inl hmore
    have hcut' : t.slots = (pre ++ [s]) ++ post := by
      rw [hcut, List.append_assoc]
      rfl
    exact ⟨le_of_lt hlt, fun b hb => lt_of_lt_of_le hlt (d.wf.key_le_key hcut' (by simp) hb)⟩

/-- Fetching at a place gives the entry there. -/
theorem InDir.fetch {h : Nat} {b : BodyPlace} {it : Item} (hb : d.InDir h b it) (hread : d.Legible)
    (hu : b.unit < it.units) :
    ∃ e, it.unitEntry b.unit = some e ∧ dir40Fetch t b = some (direntHint t.pol it b e) ∧
      (direntHint t.pol it b e).offset = it.unitKey t.blksize b.unit := by
  obtain ⟨e, he, hkey⟩ := Item.unitEntry_of_lt hb.cde hu t.blksize
  refine ⟨e, he, ?_, hkey⟩
  have hlarge : t.pol = .large := hread.resolve_right fun hnil => by
    have hlt := hb.index_lt hu
    rw [hnil] at hlt
    exact Nat.not_lt_zero _ hlt
  have hhash : Item.cde40GetHash t.pol it.key e = some (Item.hashKey it.key e) := by rw [hlarge]; rfl
  simp only [dir40Fetch, hb.item, he, hhash, Option.bind_eq_bind, Option.bind_some]

theorem InDir.bodyUnits_eq {h : Nat} {b : BodyPlace} {it : Item} (hb : d.InDir h b it) :
    bodyUnits t b = it.units := by
  simp only [bodyUnits, hb.item]

theorem InDir.succ {h : Nat} {b : BodyPlace} {it : Item} (hb : d.InDir h b it) (hu : b.unit < it.units) :
    d.InDir h ⟨b.node, b.item, b.unit + 1⟩ it := ⟨hb.reaches, hb.item, hb.plain, hb.mine, hu⟩

/-- From behind the last unit of an item the next entry is the one with the number of the place. -/
theorem InDir.next {h : Nat} {b : BodyPlace} {it : Item} (hb : d.InDir h b it) (hu : b.unit = it.units) {fuel : Nat}
    (hfuel : t.height ≤ fuel) {key : Key} (hkey : key.el0 = dirEl0 d.objectid) :
    d.Lands (d.index b) ((obj40NextItem fuel key b.node b.item).run t) := by
  have hspec := obj40NextItem_spec hfuel hb.reaches hb.el0_after hkey
  rw [hb.before_succ, List.length_append, List.length_map, List.length_range, ← hu, ← index_eq hb.reaches] at hspec
  exact hspec

/-- **Over the entries with the key**: the loop stops behind `adjust` of them, or at the first other entry. -/
theorem updateBodyLoop_spec (hread : d.Legible) {nextFuel : Nat} (hnext : t.height ≤ nextFuel) {key : Key}
    (hkey : key.el0 = dirEl0 d.objectid) : ∀ {fuel adjust h : Nat} {b : BodyPlace} {it : Item}, d.InDir h b it →
    2 * (d.units.length - d.index b) + (if it.units ≤ b.unit then 1 else 0) < fuel →
    ∃ r, d.index b ≤ r ∧ r ≤ d.index b + adjust ∧ (∀ j k, d.index b ≤ j → j < r → d.keys[j]? = some k → k = key) ∧
      (r < d.index b + adjust → ∀ k, d.keys[r]? = some k → k ≠ key) ∧
      d.Lands r ((updateBodyLoop nextFuel key fuel adjust b).run t) := by
  intro fuel
  induction fuel with
  | zero =>
    intro adjust h b it _ hfuel
    exact absurd hfuel (Nat.not_lt_zero _)
  | succ fuel ih =>
    intro adjust h b it hb hfuel
    have hstay : ∀ j k, d.index b ≤ j → j < d.index b → d.keys[j]? = some k → k = key :=
      fun j k h1 h2 => absurd h1 (Nat.not_le.mpr h2)
    rw [updateBodyLoop, Run.get_bind, hb.bodyUnits_eq]
    by_cases hu : it.units ≤ b.unit
    · -- the item is over
      rw [if_pos hu] at hfuel ⊢
      rcases hb.next (Nat.le_antisymm hb.unit_le hu) hnext hkey with ⟨b', h', it', hrun, hb', hu', hi⟩ | ⟨hrun, hend⟩
      · rw [Run.bind_of_ok hrun, ← hi]
        refine ih hb' ?_
        rw [if_neg (Nat.not_le.mpr hu'), hi]
        omega
      · refine ⟨d.index b, Nat.le_refl _, Nat.le_add_right _ _, hstay, ?_, ?_⟩
        · intro _ k hk
          have hlen := (List.getElem?_eq_some_iff.mp hk).1
          rw [keys_length, hend] at hlen
          exact absurd hlen (Nat.lt_irrefl _)
        · rw [Run.bind_of_ok hrun]
          exact Or.inr ⟨rfl, hend⟩
    · have hu' := Nat.not_le.mp hu
      rw [if_neg hu] at hfuel ⊢
      have hlt := hb.index_lt hu'
      have hget := hb.getKey hu'
      have hhere : d.Lands (d.index b) (some (.ok (some b), t)) := Or.inl ⟨b, h, it, rfl, hb, hu', rfl⟩
      by_cases hadj : adjust = 0
      · rw [if_pos hadj]
        exact ⟨d.index b, Nat.le_refl _, Nat.le_add_right _ _, hstay, fun hlt' => by omega, hhere⟩
      · rw [if_neg hadj]
        obtain ⟨e, -, hfetch, hoffset⟩ := hb.fetch hread hu'
        simp only [hfetch, hoffset]
        by_cases heq : it.unitKey t.blksize b.unit = key
        · -- one more entry with the key
          rw [if_neg (not_not.mpr (Key.compfull_zero.mpr heq))]
          have hindex : d.index ⟨b.node, b.item, b.unit + 1⟩ = d.index b + 1 := rfl
          obtain ⟨r, h1, h2, h3, h4, h5⟩ := @ih (adjust - 1) h _ it (hb.succ hu') (by
            rw [hindex]
            split <;> omega)
          rw [hindex] at h1 h2 h3 h4
          refine ⟨r, by omega, by omega, ?_, fun hlt' => h4 (by omega), h5⟩
          intro j k hj hjr hk
          rcases Nat.lt_or_eq_of_le hj with hlt' | rfl
          · exact h3 j k hlt' hjr hk
          · exact (Option.some.inj (hget.symm.trans hk)).symm.trans heq
        · rw [if_pos fun h0 => heq (Key.compfull_zero.mp h0)]
          refine ⟨d.index b, Nat.le_refl _, Nat.le_add_right _ _, hstay, ?_, hhere⟩
          intro _ k hk
          rw [← Option.some.inj (hget.symm.trans hk)]
          exact heq

/-! ## The keys of a directory -/

/-- The cursor of a directory. -/
def cursor (d : Directory t) : Cursor Key where
  keys := d.keys
  wrap := two32
  bump := nextOffset
  start := ⟨dirEl0 d.objectid, 0, 0, 0⟩

theorem dir40Reset_eq (pol : KeyPol) (plugs : Key.NamePlugs) (d : Directory t) :
    dir40Reset pol plugs d.objectid = ⟨d.cursor.start, 0⟩ := by
  cases pol <;> rfl

theorem ranges_sublist (el0 : Nat) (ss : List Tree.Slot) :
    ((dirUnits el0 ss).map fun x => x.1.range t.blksize x.2).Sublist (t.unitsOf ss) := by
  induction ss with
  | nil => exact List.nil_sublist _
  | cons s ss ih =>
    rw [dirUnits_cons, List.map_append]
    refine List.Sublist.append ?_ ih
    unfold unitsIn
    by_cases hel : s.1.key.el0 = el0
    · rw [if_pos hel, List.map_map]
      exact List.Sublist.refl _
    · rw [if_neg hel]
      exact List.nil_sublist _

theorem mem_units {x : Item × Nat} (hx : x ∈ d.units) : ∃ s ∈ t.slots, s.1.key.el0 = dirEl0 d.objectid ∧
    x.1 = s.1 ∧ x.2 < s.1.units := mem_dirUnits.mp hx

/-- The keys of a directory are in order. -/
theorem keys_sorted (d : Directory t) : d.keys.Pairwise (· ≤ ·) := by
  have hp := d.wf.ordered.sublist (ranges_sublist (dirEl0 d.objectid) t.slots)
  rw [List.pairwise_map] at hp
  unfold keys
  rw [List.pairwise_map]
  refine hp.imp_of_mem fun {x y} hx _ hxy => ?_
  obtain ⟨s, hs, -, hit, hu⟩ := mem_units hx
  calc x.1.unitKey t.blksize x.2 ≤ x.1.unitHi t.blksize x.2 := by
        rw [hit]
        exact (d.wf.slot hs).2.unitKey_le_hi d.wf.blksize_pos hu
    _ ≤ y.1.unitKey t.blksize y.2 := hxy.hi_le

theorem keys_el0 {k : Key} (hk : k ∈ d.keys) : k.el0 = dirEl0 d.objectid := by
  obtain ⟨x, hx, rfl⟩ := List.mem_map.mp hk
  obtain ⟨s, hs, hel, hit, hu⟩ := mem_units hx
  rw [hit, ← hel]
  exact (d.wf.slot hs).2.unitKey_el0 (d.items s hs hel) hu

theorem start_le {k : Key} (hk : k.el0 = dirEl0 d.objectid) : d.cursor.start ≤ k := by
  rw [← not_lt, Key.lt_iff]
  show ¬ (k.el0 < dirEl0 d.objectid ∨ _)
  simp only [cursor]
  omega

theorem cursor_lawful (d : Directory t) : d.cursor.Lawful where
  sorted := d.keys_sorted
  start_le k hk := start_le (keys_el0 hk)
  bump_ne k h := by
    have hoff := congrArg Key.offset h
    simp only [cursor, nextOffset, Key.setOffset_offset] at hoff
    unfold two64 at hoff
    omega
  bump_start k hk hlt := by
    have hel := keys_el0 hk
    rw [Key.lt_iff] at hlt
    rw [← not_lt, Key.lt_iff]
    simp only [cursor, nextOffset, Key.setOffset, two64] at hlt ⊢
    omega
  wrap_pos := by
    show 0 < two32
    decide

/-! ## Looking the position up -/

section Update

variable {m : Mark Key}

/-- Entries of items with larger keys are behind it. -/
theorem gt_of_after {ss : List Tree.Slot} (hsub : ∀ s ∈ ss, s ∈ t.slots) (hb : ∀ s ∈ ss, m.key < s.1.key)
    {x : Item × Nat} (hx : x ∈ dirUnits (dirEl0 d.objectid) ss) : m.key < x.1.unitKey t.blksize x.2 := by
  obtain ⟨s, hs, -, hit, hu⟩ := mem_dirUnits.mp hx
  rw [hit]
  exact lt_of_lt_of_le (hb s hs)
    ((d.wf.slot (hsub s hs)).2.key_le_unitKey d.wf.blksize_pos (d.wf.sorted (hsub s hs)) hu)

/-- What comes behind the key is of the directory or behind it. -/
theorem el0_of_lt (hkey : m.key.el0 = dirEl0 d.objectid) {s : Tree.Slot} (h : m.key < s.1.key) :
    dirEl0 d.objectid ≤ s.1.key.el0 := by
  rw [Key.lt_iff] at h
  omega

theorem mem_drop_range {n u v : Nat} : v ∈ (List.range n).drop u ↔ u ≤ v ∧ v < n := by
  rw [List.mem_drop_iff_getElem]
  constructor
  · rintro ⟨j, hj, rfl⟩
    rw [List.length_range] at hj
    rw [List.getElem_range]
    omega
  · rintro ⟨h1, h2⟩
    refine ⟨v - u, ?_, ?_⟩
    · rw [List.length_range]
      omega
    · rw [List.getElem_range]
      omega

/-- The entries up to a place in an item, and those from it on. -/
theorem InDir.units_split {h : Nat} {b : BodyPlace} {it : Item} (hb : d.InDir h b it) : d.units =
    (dirUnits (dirEl0 d.objectid) (t.beforeItem (h + 1) b.node b.item) ++
        (List.range b.unit).map (fun u => (it, u))) ++
      (((List.range it.units).drop b.unit).map (fun u => (it, u)) ++
        dirUnits (dirEl0 d.objectid) (t.afterItem (h + 1) b.node (b.item + 1))) := by
  have hrange : List.range it.units = List.range b.unit ++ (List.range it.units).drop b.unit := by
    conv_lhs => rw [← List.take_append_drop b.unit (List.range it.units)]
    rw [List.take_range, Nat.min_eq_left hb.unit_le]
  rw [hb.units_eq]
  conv_lhs => rw [hrange, List.map_append]
  simp only [List.append_assoc]

theorem index_split {h : Nat} {b : BodyPlace} {it : Item} (hb : d.InDir h b it) :
    (dirUnits (dirEl0 d.objectid) (t.beforeItem (h + 1) b.node b.item) ++
      (List.range b.unit).map (fun u => (it, u))).length = d.index b := by
  rw [index_eq hb.reaches, List.length_append, List.length_map, List.length_range]

/-- What looking a position up goes over: the entries in front of the place that the search gives, which it passes
    by, those from there on, and how far the loop gets among these. -/
structure Scan (d : Directory t) (m : Mark Key) (as bs : List (Item × Nat)) (adjust r : Nat) : Prop where
  cut : d.units = as ++ bs
  passed : ∀ x ∈ as, x.1.pastMaxposs t.pol m.key = true ∨ x.1.unitKey t.blksize x.2 < m.key
  ahead : ∀ x ∈ bs, x.1.pastMaxposs t.pol m.key = false ∧ m.key ≤ x.1.unitKey t.blksize x.2
  adjusted : adjust = m.adjust ∨ adjust = 0 ∧ ∀ x ∈ bs, m.key < x.1.unitKey t.blksize x.2
  ge : as.length ≤ r
  le : r ≤ as.length + adjust
  same : ∀ j k, as.length ≤ j → j < r → d.keys[j]? = some k → k = m.key
  stop : r < as.length + adjust → ∀ k, d.keys[r]? = some k → k ≠ m.key

/-- Entries of passed items are passed, as the search saw them. -/
theorem passed_of_below {ss : List Tree.Slot} (hsub : ∀ s ∈ ss, s ∈ t.slots) (hb : ∀ s ∈ ss, t.Below m.key s) :
    ∀ x ∈ dirUnits (dirEl0 d.objectid) ss,
      x.1.pastMaxposs t.pol m.key = true ∨ x.1.unitKey t.blksize x.2 < m.key := by
  intro x hx
  obtain ⟨s, hs, -, hit, hu⟩ := mem_dirUnits.mp hx
  rw [hit]
  rcases hb s hs with hpast | hall
  · exact Or.inl hpast
  · exact Or.inr (lt_of_le_of_lt ((d.wf.slot (hsub s hs)).2.unitKey_le_hi d.wf.blksize_pos hu) (hall x.2 hu))

/-- Entries of items that begin at the key or behind it are ahead. -/
theorem ahead_of_le {ss : List Tree.Slot} (hsub : ∀ s ∈ ss, s ∈ t.slots) (hb : ∀ s ∈ ss, m.key ≤ s.1.key) :
    ∀ x ∈ dirUnits (dirEl0 d.objectid) ss,
      x.1.pastMaxposs t.pol m.key = false ∧ m.key ≤ x.1.unitKey t.blksize x.2 := by
  intro x hx
  obtain ⟨s, hs, -, hit, hu⟩ := mem_dirUnits.mp hx
  rw [hit]
  refine ⟨?_, (hb s hs).trans
    ((d.wf.slot (hsub s hs)).2.key_le_unitKey d.wf.blksize_pos (d.wf.sorted (hsub s hs)) hu)⟩
  cases hpast : s.1.pastMaxposs t.pol m.key with
  | false => rfl
  | true => exact absurd (d.wf.key_lt_of_past (hsub s hs) hpast) (not_lt.mpr (hb s hs))

/-- The loop from a place of the directory, with what was passed and what is ahead. -/
theorem scan_of_place (hread : d.Legible) {fuel : Nat} (hfuel : t.height ≤ fuel) (hroom : 2 * d.units.length + 1 < fuel)
    (hkey : m.key.el0 = dirEl0 d.objectid) {h : Nat} {b : BodyPlace} {it : Item} (hb : d.InDir h b it)
    {as bs : List (Item × Nat)} {adjust : Nat} (hcut : d.units = as ++ bs) (hlen : as.length = d.index b)
    (hpassed : ∀ x ∈ as, x.1.pastMaxposs t.pol m.key = true ∨ x.1.unitKey t.blksize x.2 < m.key)
    (hahead : ∀ x ∈ bs, x.1.pastMaxposs t.pol m.key = false ∧ m.key ≤ x.1.unitKey t.blksize x.2)
    (hadjust : adjust = m.adjust ∨ adjust = 0 ∧ ∀ x ∈ bs, m.key < x.1.unitKey t.blksize x.2) :
    ∃ as bs adj r, d.Scan m as bs adj r ∧ d.Lands r ((updateBodyLoop fuel m.key fuel adjust b).run t) := by
  have hmeasure : 2 * (d.units.length - d.index b) + (if it.units ≤ b.unit then 1 else 0) < fuel := by
    split <;> omega
  obtain ⟨r, h1, h2, h3, h4, hlands⟩ := @updateBodyLoop_spec _ _ hread fuel hfuel _ hkey _ adjust _ _ _ hb hmeasure
  rw [← hlen] at h1 h2 h3 h4
  exact ⟨as, bs, adjust, r, ⟨hcut, hpassed, hahead, hadjust, h1, h2, h3, h4⟩, hlands⟩

/-- When nothing is ahead the end is reached. -/
theorem scan_of_end {as : List (Item × Nat)} (hcut : d.units = as)
    (hpassed : ∀ x ∈ as, x.1.pastMaxposs t.pol m.key = true ∨ x.1.unitKey t.blksize x.2 < m.key) :
    ∃ as bs adj r, d.Scan m as bs adj r ∧ d.Lands r (some (.ok none, t)) := by
  have hnone : ∀ {P : Item × Nat → Prop}, ∀ x ∈ ([] : List (Item × Nat)), P x :=
    fun x hx => absurd hx List.not_mem_nil
  refine ⟨as, [], 0, as.length, ⟨by rw [hcut, List.append_nil], hpassed, hnone, Or.inr ⟨rfl, hnone⟩,
    Nat.le_refl _, Nat.le_refl _, fun j k h1 h2 => absurd h1 (Nat.not_le.mpr h2),
    fun h => absurd h (Nat.lt_irrefl _)⟩, Or.inr ⟨rfl, by rw [hcut]⟩⟩

/-- **The lookup of a position**: the search cuts the entries, and the loop goes on from there. -/
theorem updateBody_scan (hread : d.Legible) (hkey : m.key.el0 = dirEl0 d.objectid) {fuel : Nat} (hfuel : t.fuelBound ≤ fuel)
    (hroom : 2 * d.units.length + 1 < fuel) :
    ∃ as bs adjust r, d.Scan m as bs adjust r ∧ d.Lands r ((obj40UpdateBody fuel m).run t) := by
  obtain ⟨res, place, hrun, hs⟩ := Tree.reiser4TreeLookup_sees d.wf (hread.reads hkey) hfuel
  have hheight : t.height ≤ fuel := by
    unfold Tree.fuelBound at hfuel
    omega
  unfold obj40UpdateBody
  rw [Run.get_bind, Run.bind_of_ok hrun]
  cases hs with
  | @found h node pos it hit hbefore =>
    obtain ⟨hu, hcov, hless⟩ := hit.found
    have hmem := Tree.mem_slots_right hit.slots_eq List.mem_cons_self
    have hshort := (d.wf.slot hmem).2.compshort_of_covers hu hcov
    have hmine : it.key.el0 = dirEl0 d.objectid := by
      rw [← hkey]
      by_contra hne
      unfold Key.compshort Key.compEl at hshort
      rcases Nat.lt_or_gt_of_ne hne with hlt | hgt
      · simp [hlt] at hshort
      · simp [hne, Nat.lt_asymm hgt] at hshort
    have hb : d.InDir h ⟨node, pos.item, pos.unit.getD 0⟩ it :=
      ⟨hit.reaches, hit.item, hit.plain, hmine, Nat.le_of_lt hu⟩
    have hne : it.plug ≠ .extent40 := by
      rw [hb.cde]
      decide
    have hge : ∀ v, pos.unit.getD 0 ≤ v → v < it.units → m.key ≤ it.unitKey t.blksize v := by
      intro v hv hvu
      have hhi : it.unitHi t.blksize (pos.unit.getD 0) = it.unitKey t.blksize (pos.unit.getD 0) :=
        Item.unitHi_of_ne_extent hne _
      rcases Nat.lt_or_eq_of_le hv with hlt | rfl
      · exact hcov.2.trans ((d.wf.sorted hmem).before hlt hvu).hi_le
      · exact hcov.2.trans (le_of_eq hhi)
    refine scan_of_place hread hheight hroom hkey hb hb.units_split (index_split hb) ?_ ?_ (Or.inl rfl)
    · intro x hx
      rcases List.mem_append.mp hx with hx | hx
      · exact passed_of_below (fun s hs => Tree.mem_slots_left hit.slots_eq hs) hbefore x hx
      · obtain ⟨v, hv, rfl⟩ := List.mem_map.mp hx
        have hv' := List.mem_range.mp hv
        exact Or.inr (lt_of_le_of_lt (hb.wf.unitKey_le_hi d.wf.blksize_pos (Nat.lt_trans hv' hu)) (hless v hv'))
    · intro x hx
      rcases List.mem_append.mp hx with hx | hx
      · obtain ⟨v, hv, rfl⟩ := List.mem_map.mp hx
        obtain ⟨h1, h2⟩ := mem_drop_range.mp hv
        exact ⟨hit.notPast, hge v h1 h2⟩
      · refine ahead_of_le (fun s hs => Tree.mem_slots_right hit.slots_eq (List.mem_cons_of_mem _ hs)) ?_ x hx
        intro s hs
        have hcut' : t.slots = (t.beforeItem (h + 1) node pos.item ++ [(it, pos.item)]) ++
            t.afterItem (h + 1) node (pos.item + 1) := by
          rw [hit.slots_eq, List.append_assoc]
          rfl
        exact hcov.2.trans (d.wf.hi_le_key hcut' (List.mem_append_right _ (List.mem_singleton.mpr rfl)) hs hu)
  | @within h node i u it hr hit hplain hpast hmiss hbefore hafter =>
    obtain ⟨hle, hlo, hup⟩ := hmiss
    have hcut := hr.slots_eq_item hit hplain
    have hlt : i < (t.items node.blk).length := (List.getElem?_eq_some_iff.mp hit).1
    have hpassed := passed_of_below (d := d) (fun s hs => Tree.mem_slots_left hcut hs) hbefore
    simp only [if_pos hlt, obj40Belong_eq hit hkey]
    by_cases hmine : it.key.el0 = dirEl0 d.objectid
    · have hb : d.InDir h ⟨node, i, u⟩ it := ⟨hr, hit, hplain, hmine, hle⟩
      have hsub : ∀ s ∈ t.afterItem (h + 1) node (i + 1), s ∈ t.slots :=
        fun s hs => Tree.mem_slots_right hcut (List.mem_cons_of_mem _ hs)
      rw [if_pos hmine]
      have hbehind : ∀ x ∈ ((List.range it.units).drop u).map (fun u => (it, u)) ++
          dirUnits (dirEl0 d.objectid) (t.afterItem (h + 1) node (i + 1)),
          x.1.pastMaxposs t.pol m.key = false ∧ m.key < x.1.unitKey t.blksize x.2 := by
        intro x hx
        rcases List.mem_append.mp hx with hx | hx
        · obtain ⟨v, hv, rfl⟩ := List.mem_map.mp hx
          obtain ⟨h1, h2⟩ := mem_drop_range.mp hv
          exact ⟨hpast, hup v h1 h2⟩
        · exact ⟨(ahead_of_le hsub (fun s hs => le_of_lt (hafter s hs)) x hx).1, gt_of_after hsub hafter hx⟩
      refine scan_of_place hread hheight hroom hkey hb hb.units_split (index_split hb) ?_
        (fun x hx => ⟨(hbehind x hx).1, le_of_lt (hbehind x hx).2⟩) (Or.inr ⟨rfl, fun x hx => (hbehind x hx).2⟩)
      intro x hx
      rcases List.mem_append.mp hx with hx | hx
      · exact hpassed x hx
      · obtain ⟨v, hv, rfl⟩ := List.mem_map.mp hx
        have hv' := List.mem_range.mp hv
        exact Or.inr (lt_of_le_of_lt
          (hb.wf.unitKey_le_hi d.wf.blksize_pos (Nat.lt_of_lt_of_le hv' hle)) (hlo v hv'))
    · -- an item behind the directory
      rw [if_neg hmine]
      have hge : dirEl0 d.objectid ≤ it.key.el0 := by
        by_contra hless
        obtain ⟨m', hm'⟩ := Option.isSome_iff_exists.mp
          ((Tree.reiser4TreeLookup_stops d.wf (hread.reads hkey) hrun it hit).2 rfl)
        have hlt' : m' < m.key := by
          rw [Key.lt_iff, Item.maxpossKey_el0 hm', hkey]
          exact Or.inl (Nat.not_le.mp hless)
        have := Item.pastMaxposs_eq_true.mpr ⟨m', hm', hlt'⟩
        rw [hpast] at this
        simp at this
      refine scan_of_end ?_ hpassed
      unfold units
      rw [hcut, dirUnits_append, none_after hcut hge hmine, List.append_nil]
  | @between h node i hr hbefore hafter =>
    have hcut := hr.slots_eq_place i
    have hsub : ∀ s ∈ t.afterItem (h + 1) node i, s ∈ t.slots := fun s hs => Tree.mem_slots_right hcut hs
    have hpassed := passed_of_below (d := d) (fun s hs => Tree.mem_slots_left hcut hs) hbefore
    have hahead := ahead_of_le (d := d) hsub (fun s hs => le_of_lt (hafter s hs))
    have hunits : d.units = dirUnits (dirEl0 d.objectid) (t.beforeItem (h + 1) node i) ++
        dirUnits (dirEl0 d.objectid) (t.afterItem (h + 1) node i) := by
      unfold units
      rw [hcut, dirUnits_append]
    by_cases hlt : i < (t.items node.blk).length
    · have hit := List.getElem?_eq_getElem hlt
      obtain ⟨hplain, -⟩ := Tree.reiser4TreeLookup_stops d.wf (hread.reads hkey) hrun _ hit
      have hitem := hr.slots_eq_item hit hplain
      have hhere : ((t.items node.blk)[i], i) ∈ t.afterItem (h + 1) node i := by
        rw [Tree.afterItem_eq hit, Tree.expand_of_none _ (s := ((t.items node.blk)[i], i)) hplain]
        exact List.mem_cons_self
      simp only [if_pos hlt, obj40Belong_eq hit hkey]
      by_cases hmine : ((t.items node.blk)[i]).key.el0 = dirEl0 d.objectid
      · rw [if_pos hmine]
        have hb : d.InDir h ⟨node, i, 0⟩ (t.items node.blk)[i] := ⟨hr, hit, hplain, hmine, Nat.zero_le _⟩
        exact scan_of_place hread hheight hroom hkey hb hunits (index_eq (d := d) (b := ⟨node, i, 0⟩) hr).symm hpassed
          hahead (Or.inr ⟨rfl, fun x hx => gt_of_after hsub hafter hx⟩)
      · rw [if_neg hmine]
        refine scan_of_end ?_ hpassed
        unfold units
        rw [hitem, dirUnits_append, none_after hitem (el0_of_lt hkey (hafter _ hhere)) hmine, List.append_nil]
    · -- behind the last item of its node
      have hge := Nat.not_lt.mp hlt
      simp only [if_neg hlt]
      have hsame : t.afterItem (h + 1) node (i + 1) = t.afterItem (h + 1) node i := by
        rw [Tree.afterItem_all _ _ hge, Tree.afterItem_all _ _ (Nat.le_succ_of_le hge)]
      have hsame' : t.beforeItem (h + 1) node (i + 1) = t.beforeItem (h + 1) node i := by
        rw [Tree.beforeItem_all _ _ hge, Tree.beforeItem_all _ _ (Nat.le_succ_of_le hge)]
      have hnext := obj40NextItem_spec (d := d) hheight hr
        (fun s hs => el0_of_lt hkey (hafter s (hsame ▸ hs))) hkey
      rw [hsame'] at hnext
      rcases hnext with ⟨b, h', it, hrun', hb, hu, hi⟩ | ⟨hrun', hend⟩
      · rw [Run.bind_of_ok hrun']
        exact scan_of_place hread hheight hroom hkey hb hunits hi.symm hpassed hahead
          (Or.inr ⟨rfl, fun x hx => gt_of_after hsub hafter hx⟩)
      · rw [Run.bind_of_ok hrun']
        refine scan_of_end ?_ hpassed
        rw [hunits, List.length_append] at hend
        rw [hunits, List.eq_nil_of_length_eq_zero (by omega : (dirUnits (dirEl0 d.objectid)
          (t.afterItem (h + 1) node i)).length = 0), List.append_nil]
  | fresh hroot => exact absurd hroot d.root

/-- With nothing hidden the lookup comes to the place of the mark. -/
theorem Scan.land {as bs : List (Item × Nat)} {adjust r : Nat} (hs : d.Scan m as bs adjust r)
    (hn : t.NoneHidden m.key) (hlen : r ≤ d.units.length) : d.cursor.land m = r := by
  have has : ∀ a ∈ as.map (fun x => x.1.unitKey t.blksize x.2), a < m.key := by
    intro a ha
    obtain ⟨x, hx, rfl⟩ := List.mem_map.mp ha
    rcases hs.passed x hx with hpast | hlt
    · obtain ⟨s, hmem, -, hit, hu⟩ := mem_units (d := d) (by rw [hs.cut]; exact List.mem_append_left _ hx)
      rw [hit] at hpast ⊢
      exact lt_of_le_of_lt ((d.wf.slot hmem).2.unitKey_le_hi d.wf.blksize_pos hu) (hn s hmem hpast _ hu)
    · exact hlt
  have hbs : ∀ b ∈ bs.map (fun x => x.1.unitKey t.blksize x.2), m.key ≤ b := by
    intro b hb
    obtain ⟨x, hx, rfl⟩ := List.mem_map.mp hb
    exact (hs.ahead x hx).2
  have hkeys : d.cursor.keys =
      as.map (fun x => x.1.unitKey t.blksize x.2) ++ bs.map fun x => x.1.unitKey t.blksize x.2 := by
    show d.keys = _
    unfold keys
    rw [hs.cut, List.map_append]
  have hbelow : below d.cursor.keys m.key = as.length := by
    rw [hkeys, below_append has hbs, List.length_map]
  have hge := hs.ge
  have hle := hs.le
  rcases hs.adjusted with hadj | ⟨hadj, hgt⟩
  · rw [hadj] at hle
    refine Cursor.land_of_scan d.keys_sorted (hlen.trans (Nat.le_of_eq d.keys_length.symm)) (by omega) (by omega) ?_ ?_
    · rw [hbelow]
      exact hs.same
    · rw [hbelow, ← hadj]
      exact hs.stop
  · -- no entry has the key
    have hupto : upto d.cursor.keys m.key = as.length := by
      rw [hkeys, upto_append (fun a ha => le_of_lt (has a ha)), List.length_map]
      intro b hb
      obtain ⟨x, hx, rfl⟩ := List.mem_map.mp hb
      exact hgt x hx
    show min (below d.cursor.keys m.key + m.adjust) (upto d.cursor.keys m.key) = r
    omega

theorem Lands.le {i : Nat} {r : Option (Except Errno (Option BodyPlace) × Tree)} (hl : d.Lands i r) :
    i ≤ d.units.length := by
  rcases hl with ⟨b, h, it, -, hb, hu, hi⟩ | ⟨-, hend⟩
  · rw [← hi]
    exact Nat.le_of_lt (hb.index_lt hu)
  · exact Nat.le_of_eq hend.symm

theorem updateBody_spec (hread : d.Legible) (hn : t.NoneHidden m.key) (hkey : m.key.el0 = dirEl0 d.objectid) {fuel : Nat}
    (hfuel : t.fuelBound ≤ fuel) (hroom : 2 * d.units.length + 1 < fuel) :
    d.Lands (d.cursor.land m) ((obj40UpdateBody fuel m).run t) := by
  obtain ⟨as, bs, adjust, r, hscan, hlands⟩ := updateBody_scan hread hkey hfuel hroom
  rw [hscan.land hn hlands.le]
  exact hlands

end Update

/-! ## Reading -/

section Read

variable {m : Mark Key}

/-- The entry at a place is the one with the number of the place. -/
theorem InDir.gives {h : Nat} {b : BodyPlace} {it : Item} (hb : d.InDir h b it) (hread : d.Legible) (hu : b.unit < it.units) :
    d.Gives (d.index b) (dir40Fetch t b) := by
  obtain ⟨e, he, hfetch, -⟩ := hb.fetch hread hu
  unfold Gives
  rw [hb.get hu, hfetch]
  exact ⟨b, e, he, rfl, hb.item, rfl, rfl⟩

theorem next_of_key {i : Nat} {k : Key} (hland : d.cursor.land m = i) (hk : d.keys[i + 1]? = some k) :
    d.cursor.next m = ⟨k, if k = m.key then (m.adjust + 1) % two32 else 0⟩ := by
  have hget : d.cursor.keys[i + 1]? = some k := hk
  unfold Cursor.next
  rw [hland, hget]
  by_cases heq : k = m.key
  · simp only [if_pos heq]
    rfl
  · simp only [if_neg heq]

theorem next_of_end {i : Nat} (hland : d.cursor.land m = i) (hend : d.units.length = i + 1) :
    d.cursor.next m = ⟨nextOffset m.key, m.adjust⟩ := by
  have hlen : d.cursor.keys.length = i + 1 := d.keys_length.trans hend
  unfold Cursor.next
  rw [hland, List.getElem?_eq_none (Nat.le_of_eq hlen), hlen]
  exact if_pos (Nat.lt_succ_self i)

theorem next_of_done (hland : d.units.length = d.cursor.land m) : d.cursor.next m = m := by
  have hlen : d.cursor.keys.length = d.cursor.land m := d.keys_length.trans hland
  unfold Cursor.next
  rw [List.getElem?_eq_none (by omega), hlen]
  exact if_neg (Nat.lt_irrefl _)

/-- The position that is left when the next entry is at a place. -/
theorem nextPosition_eq (hread : d.Legible) {h : Nat} {b : BodyPlace} {it : Item} (hb : d.InDir h b it) (hu : b.unit < it.units)
    (hi : d.index b = d.cursor.land m + 1) :
    ∃ temp, dir40Fetch t b = some temp ∧ nextPosition m (some temp) = d.cursor.next m := by
  obtain ⟨e, -, hfetch, hoffset⟩ := hb.fetch hread hu
  have hget := hb.getKey hu
  rw [hi] at hget
  refine ⟨_, hfetch, ?_⟩
  rw [next_of_key rfl hget, nextPosition, hoffset]
  by_cases heq : it.unitKey t.blksize b.unit = m.key
  · rw [if_pos (Key.compfull_zero.mpr heq), if_pos heq]
  · rw [if_neg fun h0 => heq (Key.compfull_zero.mp h0), if_neg heq]

/-- **A reading** is one of the cursor over the keys. -/
theorem readdir_spec (hread : d.Legible) (hn : t.NoneHidden m.key) (hkey : m.key.el0 = dirEl0 d.objectid) {fuel : Nat}
    (hfuel : t.fuelBound ≤ fuel) (hroom : 2 * d.units.length + 1 < fuel) :
    ∃ r, (dir40Readdir fuel m).run t = some (.ok (r, d.cursor.next m), t) ∧ d.Gives (d.cursor.land m) r := by
  have hheight : t.height ≤ fuel := by
    unfold Tree.fuelBound at hfuel
    omega
  unfold dir40Readdir
  rw [Run.get_bind]
  rcases updateBody_spec hread hn hkey hfuel hroom with ⟨b, h, it, hrun, hb, hu, hi⟩ | ⟨hrun, hend⟩
  · obtain ⟨e, he, hfetch, -⟩ := hb.fetch hread hu
    have hgives := hb.gives hread hu
    rw [hi, hfetch] at hgives
    refine ⟨_, ?_, hgives⟩
    rw [Run.bind_of_ok hrun]
    simp only [hfetch, hb.bodyUnits_eq]
    rw [Run.bind_of_ok (Run.lift_some _ _)]
    have hsucc := hb.succ hu
    have hindex : d.index ⟨b.node, b.item, b.unit + 1⟩ = d.cursor.land m + 1 := by rw [← hi]; rfl
    by_cases hlast : it.units ≤ b.unit + 1
    · rw [if_pos hlast]
      have hnext := hsucc.next (Nat.le_antisymm hu hlast) hheight hkey
      rw [hindex] at hnext
      rcases hnext with ⟨b', h', it', hrun', hb', hu', hi'⟩ | ⟨hrun', hend⟩
      · obtain ⟨temp, htemp, hpos⟩ := nextPosition_eq hread hb' hu' hi'
        rw [Run.bind_of_ok hrun']
        simp only [htemp]
        rw [Run.bind_of_ok (Run.lift_some _ _), hpos]
        rfl
      · rw [Run.bind_of_ok hrun', next_of_end rfl hend]
        rfl
    · rw [if_neg hlast]
      obtain ⟨temp, htemp, hpos⟩ := nextPosition_eq hread hsucc (Nat.not_le.mp hlast) hindex
      rw [htemp, Run.bind_of_ok (Run.lift_some _ _), hpos]
      rfl
  · refine ⟨none, ?_, ?_⟩
    · rw [Run.bind_of_ok hrun, next_of_done hend]
      rfl
    · unfold Gives
      rw [List.getElem?_eq_none (Nat.le_of_eq hend)]

/-- Reading keeps the position in the directory. -/
theorem next_el0 (hkey : m.key.el0 = dirEl0 d.objectid) : (d.cursor.next m).key.el0 = dirEl0 d.objectid := by
  unfold Cursor.next
  cases hget : d.cursor.keys[d.cursor.land m + 1]? with
  | some k => exact keys_el0 (List.mem_of_getElem? hget)
  | none =>
    dsimp only
    split
    · exact hkey
    · exact hkey

/-- **A run** is one of the cursor, when nothing is hidden from any position in the directory. -/
theorem run_spec (hread : d.Legible) (hn : ∀ k : Key, k.el0 = dirEl0 d.objectid → t.NoneHidden k) {fuel : Nat}
    (hfuel : t.fuelBound ≤ fuel) (hroom : 2 * d.units.length + 1 < fuel) : ∀ (ops : List CursorOp) {m : Mark Key}
    {kept : List (Mark Key)}, m.key.el0 = dirEl0 d.objectid → (∀ p ∈ kept, p.key.el0 = dirEl0 d.objectid) →
    ∃ rs, (dir40Run fuel ops m kept).run t = some (.ok rs, t) ∧ List.Forall₂ d.Gives (d.cursor.run ops m kept) rs := by
  intro ops
  induction ops with
  | nil =>
    intro m kept _ _
    exact ⟨[], rfl, .nil⟩
  | cons op ops ih =>
    intro m kept hm hkept
    cases op with
    | read =>
      obtain ⟨r, hrun, hgives⟩ := readdir_spec hread (hn m.key hm) hm hfuel hroom
      obtain ⟨rs, hruns, hall⟩ := ih (next_el0 hm) hkept
      refine ⟨r :: rs, ?_, .cons hgives hall⟩
      rw [dir40Run, Run.bind_of_ok hrun, Run.bind_of_ok hruns]
      rfl
    | tell =>
      refine ih hm fun p hp => ?_
      rcases List.mem_append.mp hp with hp | hp
      · exact hkept p hp
      · rw [List.mem_singleton.mp hp]
        exact hm
    | seek n =>
      refine ih ?_ hkept
      show (kept[n]?.getD m).key.el0 = _
      cases hget : kept[n]? with
      | none => exact hm
      | some p => exact hkept p (List.mem_of_getElem? hget)

end Read

end Directory
end Reiser4
