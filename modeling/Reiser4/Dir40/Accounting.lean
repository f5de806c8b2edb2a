/-
  Directories: creation, adding and removing entries (`dir40_create`, `dir40_add_entry`,
  `dir40_rem_entry`), and the size and bytes fields of the stat data.

  The entries of a directory are spread over items, and the tree splits, shifts and merges these items
  as it likes.  The tree's insertion and removal are answers here: the tree they leave, and whether
  they failed; `Inserted` and `Removed` are what they do when they succeed, which leaves the
  division into items open.

    1. `Tree.dirBytes_eq`   the byte counts of the items add up to those of the entries, whatever the
       division;
    2. `Holds`              the entries are a map, the fields are right;
    3. `Holds.add`, `Holds.rem`, `Holds.create`   one call;
    4. `dir40_finite_map`   every run.
-/
import Reiser4.Cde40.Layout
import Reiser4.Dir40.Entry
import Reiser4.Dir40.Exact

namespace Reiser4

open Reiser4.Lib
open Reiser4.Cde40 (enSize haSize obSize)

/-! ## Bytes -/

/-- `cde40_overhead`: the number of units. -/
def cde40Overhead : Nat := 2

/-- `cde40_prep_insert` of one entry: `hint->len`, which is also `hint->bytes`. -/
def cde40PrepInsert (pol : KeyPol) (hash : Key) (name : List UInt8) : Nat :=
  enSize pol + obSize pol + if hash.hashed pol then name.length + 1 else 0

namespace Item

/-- `cde40_get_len`: the body of an entry; a stored name has a terminator.  The code asks the hash for
    that, so it gets the length with large keys only. -/
def cde40GetLen (pol : KeyPol) (key : Key) (e : Entry) : Nat :=
  obSize pol + if (hashKey key e).hashed pol then e.name.length + 1 else 0

/-- What `cde40_shrink` takes out for one entry: `hint->bytes` of `cde40_delete`. -/
def cde40Shrink (pol : KeyPol) (key : Key) (e : Entry) : Nat := enSize pol + cde40GetLen pol key e

/-- `place->len` of a directory item. -/
def cde40Len (pol : KeyPol) (key : Key) (es : List Entry) : Nat :=
  cde40Overhead + (es.map (cde40Shrink pol key)).sum

/-- `cde40_bytes`. -/
def cde40Bytes (pol : KeyPol) (key : Key) (es : List Entry) : Nat := cde40Len pol key es - 2

/-- The entries of an item. -/
def entries (it : Item) : List Entry :=
  match it.body with
  | .cde40 es => es
  | _ => []

/-- `object->bytes` of a directory item. -/
def dirBytes (pol : KeyPol) (it : Item) : Nat :=
  match it.body with
  | .cde40 es => cde40Bytes pol it.key es
  | _ => 0

/-- The length of an entry does not depend on its item. -/
theorem cde40Shrink_key (pol : KeyPol) (key key' : Key) (e : Entry) :
    cde40Shrink pol key e = cde40Shrink pol key' e := by
  unfold cde40Shrink cde40GetLen
  cases pol <;> rfl

/-- The length of a new entry is what was asked for it. -/
theorem cde40Shrink_newEntry (pol : KeyPol) (key hash : Key) (name : List UInt8)
    (object : Nat × Nat × Nat) :
    cde40Shrink pol key (newEntry pol hash name object) = cde40PrepInsert pol hash name := by
  have hh : (hashKey key (newEntry pol hash name object)).hashed pol = hash.hashed pol := by
    cases pol <;> rfl
  unfold cde40Shrink cde40GetLen cde40PrepInsert
  rw [hh, Nat.add_assoc]
  unfold newEntry
  split <;> rfl

theorem dirBytes_eq (pol : KeyPol) (key : Key) (it : Item) :
    it.dirBytes pol = (it.entries.map (cde40Shrink pol key)).sum := by
  unfold dirBytes entries
  cases it.body with
  | cde40 es =>
    show cde40Overhead + _ - 2 = _
    rw [List.map_congr_left fun e _ => cde40Shrink_key pol it.key key e]
    exact Nat.add_sub_cancel_left ..
  | _ => rfl

end Item

/-! ## The directory in the tree -/

/-- The locality of the items of a directory. -/
def dirLocality (oid : Nat) : Nat := oid % two60

/-- An entry with the locality of its item. -/
abbrev Located := Nat × Entry

def Item.located (it : Item) : List Located := it.entries.map fun e => (it.key.getLocality, e)

namespace Tree

/-- The items of a directory. -/
def dirItems (t : Tree) (oid : Nat) : List Item :=
  (t.slots.map Prod.fst).filter fun it => it.plug = .cde40 ∧ it.key.getLocality = dirLocality oid

/-- The entries of a directory, in the order of the tree. -/
def dirEntries (t : Tree) (oid : Nat) : List Entry := (t.dirItems oid).flatMap Item.entries

/-- The byte counts that the plugin gives for the items of a directory. -/
def dirBytes (t : Tree) (oid : Nat) : Nat := ((t.dirItems oid).map (Item.dirBytes t.pol)).sum

/-- The entries of all directories. -/
def allEntries (t : Tree) : List Located := (t.slots.map Prod.fst).flatMap Item.located

/-- **The bytes of a directory** are those of its entries, however they are divided into items. -/
theorem dirBytes_eq (t : Tree) (oid : Nat) (key : Key) :
    t.dirBytes oid = ((t.dirEntries oid).map (Item.cde40Shrink t.pol key)).sum := by
  unfold dirBytes dirEntries
  induction t.dirItems oid with
  | nil => rfl
  | cons it its ih =>
    rw [List.map_cons, List.sum_cons, List.flatMap_cons, List.map_append, List.sum_append, ih,
      Item.dirBytes_eq t.pol key]

/-- The entries of a directory among all. -/
theorem dirEntries_eq (t : Tree) (oid : Nat) : t.dirEntries oid =
    (t.allEntries.filter fun x => x.1 = dirLocality oid).map Prod.snd := by
  unfold dirEntries dirItems allEntries
  induction t.slots.map Prod.fst with
  | nil => rfl
  | cons it its ih =>
    have hsnd : (it.located.map Prod.snd) = it.entries := by
      unfold Item.located
      rw [List.map_map]
      exact List.map_id _
    rw [List.flatMap_cons, List.filter_append, List.map_append, ← ih]
    by_cases hloc : it.key.getLocality = dirLocality oid
    · have hall : (it.located.filter fun x => x.1 = dirLocality oid) = it.located := by
        refine List.filter_eq_self.mpr fun x hx => ?_
        obtain ⟨e, -, rfl⟩ := List.mem_map.mp hx
        exact decide_eq_true hloc
      rw [hall, hsnd]
      by_cases hp : it.plug = .cde40
      · rw [List.filter_cons_of_pos (by simp [hp, hloc]), List.flatMap_cons]
      · have hnone : it.entries = [] := by
          unfold Item.entries
          cases hb : it.body <;> simp [Item.plug, hb, Body.plug] at hp ⊢
        rw [List.filter_cons_of_neg (by simp [hp]), hnone, List.nil_append]
    · have hnone : (it.located.filter fun x => x.1 = dirLocality oid) = [] := by
        refine List.filter_eq_nil_iff.mpr fun x hx => ?_
        obtain ⟨e, -, rfl⟩ := List.mem_map.mp hx
        simpa using hloc
      rw [List.filter_cons_of_neg (by simp [hloc]), hnone, List.map_nil, List.nil_append]

end Tree

/-! ## The operations -/

namespace Dir40

/-- An object: the key that an entry has for it. -/
abbrev Object := Nat × Nat × Nat

/-- A directory: the tree it is in, and the fields of its stat data. -/
structure State where
  tree : Tree
  /-- `sdhint_lw_t.size`. -/
  size : Nat
  /-- `sdhint_unix_t.bytes`. -/
  bytes : Nat

/-- What a modification of the tree leaves, and its error. -/
structure TreeAnswer where
  tree : Tree
  err : Option Errno

/-- The answers in `obj40_touch`: `getSize` and `getBytes` are whether the reading fails. -/
structure TouchAnswers where
  update : Option Errno
  getSize : Bool
  getBytes : Bool
  setSize : Option Errno
  setBytes : Option Errno

/-- An answer without a result. -/
def answer (err : Option Errno) : Run State Errno Unit :=
  match err with
  | none => pure ()
  | some e => Run.fail e

/-- A modification of the tree. -/
def modifyTree (a : TreeAnswer) : Run State Errno Unit := do
  Run.modify ({ · with tree := a.tree })
  answer a.err

/-- `uint64_t` arithmetic. -/
def add64 (a : Nat) (b : Int) : Nat := ((a + b) % (two64 : Int)).toNat

/-- `obj40_set_size`, unless it does not change. -/
def touchSize (err : Option Errno) (fsize : Nat) (size : Int) : Run State Errno Unit :=
  if size = 0 then pure ()
  else do
    answer err
    Run.modify ({ · with size := add64 fsize size })

/-- `obj40_set_bytes`, unless they do not change. -/
def touchBytes (err : Option Errno) (fbytes : Nat) (bytes : Int) : Run State Errno Unit :=
  if bytes = 0 then pure ()
  else do
    answer err
    Run.modify ({ · with bytes := add64 fbytes bytes })

/-- `obj40_touch`; `obj40_get_size` fails with `MAX_UINT64`, `obj40_get_bytes` with 0. -/
def obj40Touch (a : TouchAnswers) (size bytes : Int) : Run State Errno Unit := do
  answer a.update
  let d ← Run.get
  touchSize a.setSize (if a.getSize then maxUint64 else d.size) size
  touchBytes a.setBytes (if a.getBytes then 0 else d.bytes) bytes

section Calls

variable (beyond : Item → Nat → Entry) (plugs : Key.NamePlugs) (fuel : Nat) (oid : Nat)

/-- `dir40_search` with bias `FIND_EXACT`; it leaves the tree alone. -/
def search (name : List UInt8) : Run State Errno (Lookup × Place) :=
  ⟨fun d => ((dir40Search beyond plugs fuel oid name).run d.tree).map fun r => (r.1, d)⟩

/-- The item at a place; `obj40_valid_item` refuses a place behind the last item. -/
def itemAt (place : Place) : Run State Errno Item := do
  let d ← Run.get
  match place.node with
  | none => Run.hang
  | some node =>
    match (d.tree.items node.blk)[place.pos.item]? with
    | none => Run.fail .einval
    | some it => pure it

/-- The entry is inserted with the plugin of the item at its place; what another plugin than that of
    directories makes of it is undefined. -/
def insertEntry (insert : TreeAnswer) (touch : TouchAnswers) (name : List UInt8) (it : Item) :
    Run State Errno Unit := do
  let d ← Run.get
  if it.plug ≠ .cde40 then Run.hang
  else do
    modifyTree insert
    obj40Touch touch 1
      (cde40PrepInsert d.tree.pol (Key.buildHashed d.tree.pol plugs oid name) name)

/-- `dir40_add_entry`. -/
def dir40AddEntry (insert : TreeAnswer) (touch : TouchAnswers) (name : List UInt8) :
    Run State Errno Unit := do
  match ← (search beyond plugs fuel oid name).attempt with
  | .ok (.absent, place) => do
    let it ← itemAt place
    insertEntry plugs oid insert touch name it
  | _ => Run.fail .einval

/-- The entry at the place of an item is removed; behind its last entry there is none. -/
def removeEntry (remove : TreeAnswer) (touch : TouchAnswers) (it : Item) (unit : Nat) :
    Run State Errno Unit := do
  let d ← Run.get
  match it.unitEntry unit with
  | none => Run.hang
  | some e => do
    modifyTree remove
    obj40Touch touch (-1) (-(Item.cde40Shrink d.tree.pol it.key e : Nat))

/-- `dir40_rem_entry`. -/
def dir40RemEntry (remove : TreeAnswer) (touch : TouchAnswers) (name : List UInt8) :
    Run State Errno Unit := do
  match ← (search beyond plugs fuel oid name).attempt with
  | .ok (.present, place) => do
    let it ← itemAt place
    removeEntry remove touch it (place.pos.unit.getD 0)
  | _ => Run.fail .einval

/-- `.`. -/
def dotName : List UInt8 := [46]

/-- The stat data is created with one entry; where that fails the body is removed again (`undo`). -/
def createStat (stat undo : TreeAnswer) (bytes : Nat) : Run State Errno Unit := do
  match ← (modifyTree stat).attempt with
  | .ok () => Run.modify ({ · with size := 1, bytes })
  | .error e => do
    let _ ← (modifyTree undo).attempt
    Run.fail e

/-- The lookup of `dir40_create`, for a place to insert at. -/
def searchConv : Run State Errno (Lookup × Place) :=
  ⟨fun d => ((reiser4TreeLookup fuel ⟨Key.buildHashed d.tree.pol plugs oid dotName, leafLevel, none⟩
    .conv).run d.tree).map fun r => (r.1, d)⟩

/-- `dir40_create`. -/
def dir40Create (insert stat undo : TreeAnswer) : Run State Errno Unit := do
  match ← (searchConv plugs fuel oid).attempt with
  | .ok (.absent, _) => do
    let d ← Run.get
    modifyTree insert
    createStat stat undo
      (cde40PrepInsert d.tree.pol (Key.buildHashed d.tree.pol plugs oid dotName) dotName)
  | _ => Run.fail .eio

end Calls

/-! ## What the tree does -/

/-- The entries of all directories are as they were. -/
structure Kept (t t' : Tree) : Prop where
  wf : t'.WF
  pol : t'.pol = t.pol
  entries : t'.allEntries = t.allEntries

/-- One entry was inserted; the items may be divided anew. -/
structure Inserted (t t' : Tree) (x : Located) : Prop where
  wf : t'.WF
  pol : t'.pol = t.pol
  entries : ∃ pre post, t.allEntries = pre ++ post ∧ t'.allEntries = pre ++ x :: post

/-- One entry was removed; the items may be divided anew. -/
structure Removed (t t' : Tree) (x : Located) : Prop where
  wf : t'.WF
  pol : t'.pol = t.pol
  entries : ∃ pre post, t.allEntries = pre ++ x :: post ∧ t'.allEntries = pre ++ post

/-- The insertion succeeds, or fails and changes no entries. -/
def TreeAnswer.Inserts (a : TreeAnswer) (t : Tree) (x : Located) : Prop :=
  match a.err with
  | none => Inserted t a.tree x
  | some _ => Kept t a.tree

/-- The removal succeeds, or fails and changes no entries. -/
def TreeAnswer.Removes (a : TreeAnswer) (t : Tree) (x : Located) : Prop :=
  match a.err with
  | none => Removed t a.tree x
  | some _ => Kept t a.tree

/-- Nothing in `obj40_touch` fails. -/
def TouchAnswers.fine : TouchAnswers := ⟨none, false, false, none, none⟩

/-! ## The directory as a map -/

/-- The entry of a name and an object. -/
def entryOf (pol : KeyPol) (plugs : Key.NamePlugs) (oid : Nat) (p : List UInt8 × Object) : Entry :=
  newEntry pol (Key.buildHashed pol plugs oid p.1) p.1 p.2

/-- The directory holds the names with their objects, and its fields count them.  The keys are large:
    with short ones no entry is found, put in or taken out, because its hash cannot be read. -/
structure Holds (plugs : Key.NamePlugs) (oid : Nat) (d : State) (l : List (List UInt8 × Object)) :
    Prop where
  wf : d.tree.WF
  names : ∀ p ∈ l, ValidName p.1
  nodup : (l.map Prod.fst).Nodup
  entries : d.tree.dirEntries oid = l.map (entryOf d.tree.pol plugs oid)
  size : d.size = l.length
  bytes : d.bytes = d.tree.dirBytes oid
  room : d.tree.dirBytes oid < two64
  large : d.tree.pol = .large

section Facts

variable {plugs : Key.NamePlugs} {oid : Nat} {d : State} {l : List (List UInt8 × Object)}

theorem dirEntries_congr {t t' : Tree} (h : t'.allEntries = t.allEntries) (oid : Nat) :
    t'.dirEntries oid = t.dirEntries oid := by
  rw [Tree.dirEntries_eq, Tree.dirEntries_eq, h]

theorem dirBytes_congr {t t' : Tree} (hpol : t'.pol = t.pol) (h : t'.allEntries = t.allEntries)
    (oid : Nat) : t'.dirBytes oid = t.dirBytes oid := by
  rw [t.dirBytes_eq oid ⟨0, 0, 0, 0⟩, t'.dirBytes_eq oid ⟨0, 0, 0, 0⟩, dirEntries_congr h, hpol]

theorem Holds.kept (h : Holds plugs oid d l) {t : Tree} (hk : Kept d.tree t) :
    Holds plugs oid { d with tree := t } l := by
  have hbytes := dirBytes_congr hk.pol hk.entries oid
  refine ⟨hk.wf, h.names, h.nodup, ?_, h.size, ?_, ?_, hk.pol.trans h.large⟩
  · show t.dirEntries oid = l.map (entryOf t.pol plugs oid)
    rw [dirEntries_congr hk.entries, hk.pol]
    exact h.entries
  · show d.bytes = t.dirBytes oid
    rw [hbytes]
    exact h.bytes
  · show t.dirBytes oid < two64
    rw [hbytes]
    exact h.room

/-- Every entry has bytes. -/
theorem length_le_dirBytes (t : Tree) (oid : Nat) :
    (t.dirEntries oid).length ≤ t.dirBytes oid := by
  rw [t.dirBytes_eq oid ⟨0, 0, 0, 0⟩]
  induction t.dirEntries oid with
  | nil => exact Nat.le_refl _
  | cons e es ih =>
    have hpos : 0 < Item.cde40Shrink t.pol ⟨0, 0, 0, 0⟩ e := by
      unfold Item.cde40Shrink enSize haSize
      cases t.pol <;> dsimp only <;> omega
    rw [List.length_cons, List.map_cons, List.sum_cons]
    omega

/-- An entry more, with its bytes. -/
theorem dirBytes_inserted {t t' : Tree} {pol : KeyPol} {hash : Key} {name : List UInt8}
    {object : Object} (hpol : t.pol = pol) (h : Inserted t t'
      (dirLocality oid, newEntry pol hash name object)) :
    t'.dirBytes oid = t.dirBytes oid + cde40PrepInsert pol hash name := by
  obtain ⟨pre, post, hpre, hpost⟩ := h.entries
  have hpol' : t'.pol = pol := h.pol.trans hpol
  rw [t.dirBytes_eq oid ⟨0, 0, 0, 0⟩, t'.dirBytes_eq oid ⟨0, 0, 0, 0⟩, Tree.dirEntries_eq,
    Tree.dirEntries_eq, hpre, hpost, hpol, hpol']
  simp only [List.filter_append, List.map_append, List.sum_append, List.filter_cons, decide_true,
    if_true, List.map_cons, List.sum_cons, Item.cde40Shrink_newEntry]
  omega

/-- An entry less, with its bytes. -/
theorem dirBytes_removed {t t' : Tree} {e : Entry} (h : Removed t t' (dirLocality oid, e))
    (key : Key) : t'.dirBytes oid + Item.cde40Shrink t.pol key e = t.dirBytes oid := by
  obtain ⟨pre, post, hpre, hpost⟩ := h.entries
  rw [t.dirBytes_eq oid key, t'.dirBytes_eq oid key, Tree.dirEntries_eq, Tree.dirEntries_eq, hpre,
    hpost, h.pol]
  simp only [List.filter_append, List.map_append, List.sum_append, List.filter_cons, decide_true,
    if_true, List.map_cons, List.sum_cons]
  omega

/-- The name of an entry. -/
theorem entryOf_name {pol : KeyPol} {p : List UInt8 × Object} (hv : ValidName p.1) (key : Key) :
    Item.nameIn pol key (entryOf pol plugs oid p) 256 = p.1 :=
  nameIn_newEntry pol plugs oid hv key p.2

end Facts

/-! ## What the search finds -/

section Calls

variable {beyond : Item → Nat → Entry} {plugs : Key.NamePlugs} {fuel oid : Nat} {d : State}
  {l : List (List UInt8 × Object)} {name : List UInt8}

/-- The search for a name that the items settle. -/
theorem search_run (hw : d.tree.WF) (hlarge : d.tree.pol = .large) (hfuel : d.tree.fuelBound ≤ fuel)
    (hs : d.tree.SearchSettles beyond (Key.buildHashed d.tree.pol plugs oid name) name) :
    ∃ res place, (search beyond plugs fuel oid name).run d = some (.ok (res, place), d) ∧
      d.tree.NameExact (Key.buildHashed d.tree.pol plugs oid name) name res place := by
  obtain ⟨res, place, hrun, hiff⟩ := Tree.dir40Search_spec hw beyond plugs oid name hfuel rfl
    (Or.inl hlarge)
  refine ⟨res, place, ?_, hiff.mpr hs⟩
  show ((dir40Search beyond plugs fuel oid name).run d.tree).map _ = _
  rw [hrun]
  rfl

/-- The items of a directory are those with the locality of its names. -/
theorem buildHashed_locality {key : Key} {pol : KeyPol} :
    key.getLocality * 16 + Key.filenameMinor = (Key.buildHashed pol plugs oid name).el0 ↔
      key.getLocality = dirLocality oid := by
  rw [Key.buildHashed_el0]
  unfold dirLocality two60 two64 Key.filenameMinor
  omega

theorem mem_entries_iff {it : Item} {e : Entry} : e ∈ it.entries ↔ ∃ u, it.unitEntry u = some e := by
  unfold Item.entries Item.unitEntry
  cases it.body with
  | cde40 es => exact List.mem_iff_getElem?
  | _ => simp

/-- The entries of a directory are in the items with its locality. -/
theorem mem_dirEntries {t : Tree} {e : Entry} : e ∈ t.dirEntries oid ↔
    ∃ s ∈ t.slots, ∃ u, s.1.unitEntry u = some e ∧ s.1.key.getLocality = dirLocality oid := by
  unfold Tree.dirEntries Tree.dirItems
  rw [List.mem_flatMap]
  constructor
  · rintro ⟨it, hit, he⟩
    obtain ⟨hmem, hprop⟩ := List.mem_filter.mp hit
    obtain ⟨s, hs, rfl⟩ := List.mem_map.mp hmem
    obtain ⟨u, hu⟩ := mem_entries_iff.mp he
    exact ⟨s, hs, u, hu, (of_decide_eq_true hprop).2⟩
  · rintro ⟨s, hs, u, hu, hloc⟩
    have hplug : s.1.plug = .cde40 := by
      unfold Item.unitEntry at hu
      cases hb : s.1.body <;> simp [hb, Item.plug, Body.plug] at hu ⊢
    exact ⟨s.1, List.mem_filter.mpr ⟨List.mem_map_of_mem hs, decide_eq_true ⟨hplug, hloc⟩⟩,
      mem_entries_iff.mpr ⟨u, hu⟩⟩

/-- The entry of a directory that carries a name. -/
theorem Holds.entry_of_mem (h : Holds plugs oid d l) {e : Entry} (he : e ∈ d.tree.dirEntries oid)
    {key : Key} (hname : Item.nameIn d.tree.pol key e 256 = name) :
    ∃ object, (name, object) ∈ l ∧ e = entryOf d.tree.pol plugs oid (name, object) := by
  rw [h.entries] at he
  obtain ⟨⟨n, object⟩, hp, rfl⟩ := List.mem_map.mp he
  rw [entryOf_name (h.names _ hp)] at hname
  obtain rfl : n = name := hname
  exact ⟨object, hp, rfl⟩

/-- A name is carried by an entry exactly when the directory has it. -/
theorem Holds.carries_iff (h : Holds plugs oid d l) :
    (∃ s ∈ d.tree.slots, ∃ u,
      s.1.Carries d.tree.pol u (Key.buildHashed d.tree.pol plugs oid name) name) ↔
        ∃ object, (name, object) ∈ l := by
  constructor
  · rintro ⟨s, hs, u, e, he, hkey, hname⟩
    have hloc : s.1.key.getLocality = dirLocality oid :=
      buildHashed_locality.mp (congrArg Key.el0 hkey)
    obtain ⟨object, hp, -⟩ := h.entry_of_mem (mem_dirEntries.mpr ⟨s, hs, u, he, hloc⟩) hname
    exact ⟨object, hp⟩
  · rintro ⟨object, hp⟩
    have hmem : entryOf d.tree.pol plugs oid (name, object) ∈ d.tree.dirEntries oid := by
      rw [h.entries]
      exact List.mem_map_of_mem hp
    obtain ⟨s, hs, u, he, hloc⟩ := mem_dirEntries.mp hmem
    exact ⟨s, hs, u, _, he, hashKey_newEntry (buildHashed_locality.mpr hloc),
      entryOf_name (h.names _ hp) _⟩

/-! ## The parts of a call -/

@[simp] theorem modifyTree_ok {t : Tree} :
    (modifyTree ⟨t, none⟩).run d = some (.ok (), { d with tree := t }) := rfl

@[simp] theorem modifyTree_error {t : Tree} {e : Errno} :
    (modifyTree ⟨t, some e⟩).run d = some (.error e, { d with tree := t }) := rfl

theorem obj40Touch_fine {size bytes : Int} (hs : size ≠ 0) (hb : bytes ≠ 0) :
    (obj40Touch .fine size bytes).run d =
      some (.ok (), { d with size := add64 d.size size, bytes := add64 d.bytes bytes }) := by
  have hsize : ∀ d : State, (touchSize none d.size size).run d =
      some (.ok (), { d with size := add64 d.size size }) := by
    intro d
    unfold touchSize
    rw [if_neg hs]
    rfl
  have hbytes : ∀ d' : State, (touchBytes none d.bytes bytes).run d' =
      some (.ok (), { d' with bytes := add64 d.bytes bytes }) := by
    intro d'
    unfold touchBytes
    rw [if_neg hb]
    rfl
  show (touchSize none d.size size >>= fun _ => touchBytes none d.bytes bytes).run d = _
  rw [Run.bind_of_ok (hsize d), hbytes]

theorem add64_add {a b : Nat} (h : a + b < two64) : add64 a b = a + b := by
  unfold add64 two64 at *
  omega

theorem add64_sub {a b : Nat} (hle : b ≤ a) (ha : a < two64) : add64 a (-(b : Nat)) = a - b := by
  unfold add64 two64 at *
  omega

theorem itemAt_state {place : Place} {r : Except Errno Item} {d' : State}
    (h : (itemAt place).run d = some (r, d')) : d' = d ∧ ∀ it, r = .ok it →
      ∃ node, place.node = some node ∧ (d.tree.items node.blk)[place.pos.item]? = some it := by
  unfold itemAt at h
  rw [Run.get_bind] at h
  cases hn : place.node with
  | none =>
    rw [hn] at h
    cases h
  | some node =>
    simp only [hn] at h
    cases hit : (d.tree.items node.blk)[place.pos.item]? with
    | none =>
      simp only [hit] at h
      cases h
      exact ⟨rfl, nofun⟩
    | some it =>
      simp only [hit] at h
      cases h
      refine ⟨rfl, fun it' hr => ?_⟩
      cases hr
      exact ⟨node, rfl, hit⟩

/-! ## One entry more, one entry less -/

/-- The entries of a directory among entries of all. -/
def ofDir (oid : Nat) (xs : List Located) : List Entry :=
  (xs.filter fun x => x.1 = dirLocality oid).map Prod.snd

theorem ofDir_append (xs ys : List Located) : ofDir oid (xs ++ ys) = ofDir oid xs ++ ofDir oid ys := by
  unfold ofDir
  rw [List.filter_append, List.map_append]

theorem ofDir_cons (e : Entry) (xs : List Located) :
    ofDir oid ((dirLocality oid, e) :: xs) = e :: ofDir oid xs := by
  unfold ofDir
  rw [List.filter_cons_of_pos (by simp), List.map_cons]

theorem Holds.inserted (h : Holds plugs oid d l) {object : Object} (hv : ValidName name)
    (hnew : ∀ o, (name, o) ∉ l) {t : Tree} {bytes : Nat}
    (hbytes : bytes = cde40PrepInsert d.tree.pol (Key.buildHashed d.tree.pol plugs oid name) name)
    (hi : Inserted d.tree t (dirLocality oid, entryOf d.tree.pol plugs oid (name, object)))
    (hroom : d.tree.dirBytes oid + bytes < two64) :
    ∃ l', Holds plugs oid ⟨t, add64 d.size 1, add64 d.bytes bytes⟩ l' ∧
      ∀ p, p ∈ l' ↔ p ∈ l ∨ p = (name, object) := by
  obtain ⟨pre, post, hpre, hpost⟩ := hi.entries
  have hold : d.tree.dirEntries oid = ofDir oid pre ++ ofDir oid post := by
    rw [Tree.dirEntries_eq, hpre]
    exact ofDir_append pre post
  have hnow : t.dirEntries oid =
      ofDir oid pre ++ entryOf d.tree.pol plugs oid (name, object) :: ofDir oid post := by
    rw [Tree.dirEntries_eq, hpost]
    exact (ofDir_append pre _).trans (congrArg _ (ofDir_cons _ post))
  -- the map is cut where the entries are
  obtain ⟨l1, l2, rfl, h1, h2⟩ := List.map_eq_append_iff.mp (h.entries.symm.trans hold)
  have hmem : ∀ p, p ∈ l1 ++ (name, object) :: l2 ↔ p ∈ l1 ++ l2 ∨ p = (name, object) := by
    intro p
    simp only [List.mem_append, List.mem_cons]
    tauto
  have hsum : t.dirBytes oid = d.tree.dirBytes oid + bytes := by
    rw [hbytes]
    exact dirBytes_inserted rfl hi
  have hlen : (l1 ++ l2).length ≤ d.tree.dirBytes oid := by
    have := length_le_dirBytes d.tree oid
    rwa [h.entries, List.length_map] at this
  have hpos : 0 < bytes := by
    rw [hbytes]
    unfold cde40PrepInsert enSize haSize
    cases d.tree.pol <;> dsimp only <;> omega
  refine ⟨l1 ++ (name, object) :: l2, ⟨hi.wf, ?_, ?_, ?_, ?_, ?_, ?_, hi.pol.trans h.large⟩, hmem⟩
  · intro p hp
    rcases (hmem p).mp hp with hp | rfl
    · exact h.names p hp
    · exact hv
  · have hnodup := h.nodup
    rw [List.map_append] at hnodup
    rw [List.map_append, List.map_cons, List.perm_middle.nodup_iff, List.nodup_cons, List.mem_append]
    refine ⟨?_, hnodup⟩
    rw [← List.mem_append, ← List.map_append]
    intro hin
    obtain ⟨⟨n, o⟩, hp, hn⟩ := List.mem_map.mp hin
    obtain rfl : n = name := hn
    exact hnew o hp
  · show t.dirEntries oid = _
    rw [hnow, hi.pol, ← h1, ← h2, List.map_append, List.map_cons]
  · show add64 d.size 1 = _
    rw [h.size] at *
    have hadd : add64 (l1 ++ l2).length 1 = (l1 ++ l2).length + 1 := add64_add (b := 1) (by omega)
    rw [hadd]
    simp only [List.length_append, List.length_cons]
    omega
  · show add64 d.bytes bytes = t.dirBytes oid
    rw [h.bytes, hsum]
    exact add64_add hroom
  · show t.dirBytes oid < two64
    rw [hsum]
    exact hroom

theorem Holds.removed (h : Holds plugs oid d l) {object : Object} (hp : (name, object) ∈ l) {t : Tree}
    {key : Key} (hr : Removed d.tree t (dirLocality oid, entryOf d.tree.pol plugs oid (name, object))) :
    ∃ l', Holds plugs oid ⟨t, add64 d.size (-1), add64 d.bytes
      (-(Item.cde40Shrink d.tree.pol key (entryOf d.tree.pol plugs oid (name, object)) : Nat))⟩ l' ∧
        ∀ p, p ∈ l' ↔ p ∈ l ∧ p.1 ≠ name := by
  obtain ⟨pre, post, hpre, hpost⟩ := hr.entries
  have hold : d.tree.dirEntries oid =
      ofDir oid pre ++ entryOf d.tree.pol plugs oid (name, object) :: ofDir oid post := by
    rw [Tree.dirEntries_eq, hpre]
    exact (ofDir_append pre _).trans (congrArg _ (ofDir_cons _ post))
  have hnow : t.dirEntries oid = ofDir oid pre ++ ofDir oid post := by
    rw [Tree.dirEntries_eq, hpost]
    exact ofDir_append pre post
  obtain ⟨l1, l2', rfl, h1, h2'⟩ := List.map_eq_append_iff.mp (h.entries.symm.trans hold)
  obtain ⟨⟨n, o⟩, l2, rfl, he, h2⟩ := List.map_eq_cons_iff.mp h2'
  -- the entry that went is the one with the name
  obtain rfl : n = name := by
    have hn := congrArg (fun e => Item.nameIn d.tree.pol ⟨0, 0, 0, 0⟩ e 256) he
    rwa [entryOf_name (h.names (n, o) (by simp)), entryOf_name (h.names _ hp)] at hn
  have hnodup := h.nodup
  rw [List.map_append, List.map_cons, List.perm_middle.nodup_iff, List.nodup_cons, ← List.map_append]
    at hnodup
  have hother : ∀ p ∈ l1 ++ l2, p.1 ≠ n := by
    intro p hp hn
    exact hnodup.1 (List.mem_map.mpr ⟨p, hp, hn⟩)
  have hmem : ∀ p, p ∈ l1 ++ l2 ↔ p ∈ l1 ++ (n, o) :: l2 ∧ p.1 ≠ n := by
    intro p
    constructor
    · intro hp
      refine ⟨?_, hother p hp⟩
      rcases List.mem_append.mp hp with h | h <;> simp [h]
    · rintro ⟨hp, hne⟩
      rcases List.mem_append.mp hp with h | h
      · exact List.mem_append_left _ h
      · rcases List.mem_cons.mp h with rfl | h
        · exact absurd rfl hne
        · exact List.mem_append_right _ h
  have hsum := dirBytes_removed hr key
  have hroom := h.room
  refine ⟨l1 ++ l2, ⟨hr.wf, ?_, hnodup.2, ?_, ?_, ?_, ?_, hr.pol.trans h.large⟩, hmem⟩
  · exact fun p hp => h.names p ((hmem p).mp hp).1
  · show t.dirEntries oid = _
    rw [hnow, hr.pol, ← h1, ← h2, List.map_append]
  · show add64 d.size (-1) = _
    have hlen : (l1 ++ (n, o) :: l2).length ≤ d.tree.dirBytes oid := by
      have := length_le_dirBytes d.tree oid
      rwa [h.entries, List.length_map] at this
    have hsize := h.size
    simp only [List.length_append, List.length_cons] at hsize hlen ⊢
    have hsub : add64 d.size (-1) = d.size - 1 := add64_sub (b := 1) (by omega) (by omega)
    rw [hsub]
    omega
  · show add64 d.bytes _ = t.dirBytes oid
    rw [h.bytes, add64_sub (by omega) hroom]
    omega
  · show t.dirBytes oid < two64
    omega

/-! ## One call -/

/-- What `dir40_add_entry` of a name needs of the state and of its answers. -/
structure AddOk (beyond : Item → Nat → Entry) (plugs : Key.NamePlugs) (fuel oid : Nat) (d : State)
    (insert : TreeAnswer) (touch : TouchAnswers) (name : List UInt8) (object : Object) : Prop where
  valid : ValidName name
  enough : d.tree.fuelBound ≤ fuel
  settles : d.tree.SearchSettles beyond (Key.buildHashed d.tree.pol plugs oid name) name
  inserts : insert.Inserts d.tree (dirLocality oid, entryOf d.tree.pol plugs oid (name, object))
  fine : touch = .fine
  room : d.tree.dirBytes oid +
    cde40PrepInsert d.tree.pol (Key.buildHashed d.tree.pol plugs oid name) name < two64

/-- What `dir40_rem_entry` of a name needs of the state and of its answers: the tree removes the entry
    at the place it is given. -/
structure RemOk (beyond : Item → Nat → Entry) (plugs : Key.NamePlugs) (fuel oid : Nat) (d : State)
    (remove : TreeAnswer) (touch : TouchAnswers) (name : List UInt8) : Prop where
  enough : d.tree.fuelBound ≤ fuel
  settles : d.tree.SearchSettles beyond (Key.buildHashed d.tree.pol plugs oid name) name
  removes : ∀ place it e, (search beyond plugs fuel oid name).run d = some (.ok (.present, place), d) →
    (itemAt place).run d = some (.ok it, d) → it.unitEntry (place.pos.unit.getD 0) = some e →
      remove.Removes d.tree (it.key.getLocality, e)
  fine : touch = .fine

/-- A name that is there cannot be added. -/
theorem Holds.add_present (h : Holds plugs oid d l) {object : Object} (hp : (name, object) ∈ l)
    (hfuel : d.tree.fuelBound ≤ fuel)
    (hs : d.tree.SearchSettles beyond (Key.buildHashed d.tree.pol plugs oid name) name)
    (insert : TreeAnswer) (touch : TouchAnswers) :
    (dir40AddEntry beyond plugs fuel oid insert touch name).run d = some (.error .einval, d) := by
  obtain ⟨res, place, hrun, hexact⟩ := search_run h.wf h.large hfuel hs
  obtain rfl : res = .present := hexact.present_iff.mpr (h.carries_iff.mpr ⟨object, hp⟩)
  have hatt := Run.attempt_of_ok hrun
  unfold dir40AddEntry
  rw [Run.bind_of_ok hatt]
  rfl

/-- A name that is not there cannot be removed. -/
theorem Holds.rem_absent (h : Holds plugs oid d l) (hp : ∀ object, (name, object) ∉ l)
    (hfuel : d.tree.fuelBound ≤ fuel)
    (hs : d.tree.SearchSettles beyond (Key.buildHashed d.tree.pol plugs oid name) name)
    (remove : TreeAnswer) (touch : TouchAnswers) :
    (dir40RemEntry beyond plugs fuel oid remove touch name).run d = some (.error .einval, d) := by
  obtain ⟨res, place, hrun, hexact⟩ := search_run h.wf h.large hfuel hs
  have hatt := Run.attempt_of_ok hrun
  unfold dir40RemEntry
  rw [Run.bind_of_ok hatt]
  cases res with
  | absent => rfl
  | present =>
    obtain ⟨object, hin⟩ := h.carries_iff.mp (hexact.present_iff.mp rfl)
    exact absurd hin (hp object)

/-- **Adding an entry**: a success makes the map one entry larger, a failure leaves it. -/
theorem Holds.add (h : Holds plugs oid d l) {insert : TreeAnswer} {touch : TouchAnswers}
    {object : Object} (hok : AddOk beyond plugs fuel oid d insert touch name object)
    {r : Except Errno Unit} {d' : State}
    (hrun : (dir40AddEntry beyond plugs fuel oid insert touch name).run d = some (r, d')) :
    (r = .ok () ∧ ∃ l', Holds plugs oid d' l' ∧ (∀ o, (name, o) ∉ l) ∧
      ∀ p, p ∈ l' ↔ p ∈ l ∨ p = (name, object)) ∨ ((∃ e, r = .error e) ∧ Holds plugs oid d' l) := by
  by_cases hin : ∃ o, (name, o) ∈ l
  · obtain ⟨o, hp⟩ := hin
    rw [h.add_present hp hok.enough hok.settles] at hrun
    cases hrun
    exact Or.inr ⟨⟨_, rfl⟩, h⟩
  have hnew : ∀ o, (name, o) ∉ l := fun o hp => hin ⟨o, hp⟩
  obtain ⟨res, place, hsearch, hexact⟩ := search_run h.wf h.large hok.enough hok.settles
  obtain rfl : res = .absent := by
    cases res with
    | absent => rfl
    | present => exact absurd (h.carries_iff.mp (hexact.present_iff.mp rfl)) hin
  have hatt := Run.attempt_of_ok hsearch
  unfold dir40AddEntry at hrun
  rw [Run.bind_of_ok hatt] at hrun
  simp only [Run.run_bind] at hrun
  match hitem : (itemAt place).run d with
  | none => simp [hitem] at hrun
  | some (.error e, d1) =>
    -- the place is behind the last item
    obtain ⟨rfl, -⟩ := itemAt_state hitem
    simp only [hitem, Option.some.injEq, Prod.mk.injEq] at hrun
    obtain ⟨rfl, rfl⟩ := hrun
    exact Or.inr ⟨⟨e, rfl⟩, h⟩
  | some (.ok it, d1) =>
    obtain ⟨rfl, -⟩ := itemAt_state hitem
    simp only [hitem] at hrun
    unfold insertEntry at hrun
    rw [Run.get_bind] at hrun
    split at hrun
    · cases hrun
    obtain ⟨t, err⟩ := insert
    have hins := hok.inserts
    cases err with
    | some e =>
      rw [Run.run_bind, modifyTree_error] at hrun
      cases hrun
      exact Or.inr ⟨⟨e, rfl⟩, h.kept hins⟩
    | none =>
      have hpos : ((cde40PrepInsert d1.tree.pol (Key.buildHashed d1.tree.pol plugs oid name) name :
          Nat) : Int) ≠ 0 := by
        unfold cde40PrepInsert enSize haSize
        cases d1.tree.pol <;> dsimp only <;> omega
      rw [Run.bind_of_ok modifyTree_ok, hok.fine, obj40Touch_fine (by decide) hpos] at hrun
      cases hrun
      obtain ⟨l', hl', hmem⟩ := h.inserted hok.valid hnew rfl hins hok.room
      exact Or.inl ⟨rfl, l', hl', hnew, hmem⟩

/-- **Removing an entry**: a success makes the map one entry smaller, a failure leaves it. -/
theorem Holds.rem (h : Holds plugs oid d l) {remove : TreeAnswer} {touch : TouchAnswers}
    (hok : RemOk beyond plugs fuel oid d remove touch name) {r : Except Errno Unit} {d' : State}
    (hrun : (dir40RemEntry beyond plugs fuel oid remove touch name).run d = some (r, d')) :
    (r = .ok () ∧ ∃ l', Holds plugs oid d' l' ∧ ∀ p, p ∈ l' ↔ p ∈ l ∧ p.1 ≠ name) ∨
      ((∃ e, r = .error e) ∧ Holds plugs oid d' l) := by
  by_cases hin : ∃ o, (name, o) ∈ l
  swap
  · rw [h.rem_absent (fun o hp => hin ⟨o, hp⟩) hok.enough hok.settles] at hrun
    cases hrun
    exact Or.inr ⟨⟨_, rfl⟩, h⟩
  obtain ⟨res, place, hsearch, hexact⟩ := search_run h.wf h.large hok.enough hok.settles
  obtain rfl : res = .present := hexact.present_iff.mpr (h.carries_iff.mpr hin)
  -- the place is that of the entry with the name
  obtain ⟨node, it, hnode, hit, hcarries⟩ := hexact.entry rfl
  have hatt := Run.attempt_of_ok hsearch
  have hitem : (itemAt place).run d = some (.ok it, d) := by
    unfold itemAt
    rw [Run.get_bind]
    simp only [hnode, hit]
    rfl
  obtain ⟨e, hentry, hkey, hname⟩ := hcarries
  have hloc : it.key.getLocality = dirLocality oid :=
    buildHashed_locality.mp (congrArg Key.el0 hkey)
  have hrem := hok.removes place it e hsearch hitem hentry
  unfold dir40RemEntry at hrun
  rw [Run.bind_of_ok hatt] at hrun
  simp only [Run.bind_of_ok hitem] at hrun
  unfold removeEntry at hrun
  rw [Run.get_bind] at hrun
  simp only [Option.mem_def.mp hentry] at hrun
  obtain ⟨t, err⟩ := remove
  rw [hloc] at hrem
  cases err with
  | some err =>
    rw [Run.run_bind, modifyTree_error] at hrun
    cases hrun
    exact Or.inr ⟨⟨err, rfl⟩, h.kept hrem⟩
  | none =>
    have hremoved : Removed d.tree t (dirLocality oid, e) := hrem
    have hmem : e ∈ d.tree.dirEntries oid := by
      obtain ⟨pre, post, hpre, -⟩ := hremoved.entries
      rw [Tree.dirEntries_eq, hpre]
      simp
    obtain ⟨object, hp, rfl⟩ := h.entry_of_mem hmem hname
    have hpos : -((Item.cde40Shrink d.tree.pol it.key
        (entryOf d.tree.pol plugs oid (name, object)) : Nat) : Int) ≠ 0 := by
      unfold Item.cde40Shrink enSize haSize
      cases d.tree.pol <;> dsimp only <;> omega
    rw [Run.bind_of_ok modifyTree_ok, hok.fine, obj40Touch_fine (by decide) hpos] at hrun
    cases hrun
    obtain ⟨l', hl', hmem'⟩ := @Holds.removed _ _ _ _ _ h _ hp _ it.key hremoved
    exact Or.inl ⟨rfl, l', hl', hmem'⟩

/-- **Creating a directory**: when it succeeds, the directory has one entry. -/
theorem Holds.create (hw : d.tree.WF) (hlarge : d.tree.pol = .large) (hempty : d.tree.dirEntries oid = [])
    {insert stat undo : TreeAnswer} {object : Object}
    (hins : insert.Inserts d.tree
      (dirLocality oid, entryOf d.tree.pol plugs oid (dotName, object)))
    (hstat : stat.err = none → Kept insert.tree stat.tree) {d' : State}
    (hrun : (dir40Create plugs fuel oid insert stat undo).run d = some (.ok (), d')) :
    Holds plugs oid d' [(dotName, object)] := by
  obtain ⟨t, err⟩ := insert
  obtain ⟨t', err'⟩ := stat
  unfold dir40Create at hrun
  obtain ⟨res, d1, hsearch, hgo⟩ := Run.bind_ok.mp hrun
  clear hrun
  obtain rfl : d1 = d := by
    rw [Run.run_attempt] at hsearch
    obtain ⟨⟨res, d2⟩, hs, heq⟩ := Option.map_eq_some_iff.mp hsearch
    obtain ⟨⟨res', t1⟩, -, heq'⟩ := Option.map_eq_some_iff.mp hs
    cases heq'
    cases heq
    rfl
  split at hgo
  swap
  · cases hgo
  rw [Run.get_bind] at hgo
  obtain ⟨⟨⟩, d2, hmod, hstore⟩ := Run.bind_ok.mp hgo
  cases err with
  | some e => cases hmod
  | none =>
    cases hmod
    have hdone : Inserted d1.tree t
        (dirLocality oid, entryOf d1.tree.pol plugs oid (dotName, object)) := hins
    cases err' with
    | some e =>
      -- whatever the undoing does, the creation fails
      obtain ⟨res, d3, hatt, hundo⟩ := Run.bind_ok.mp hstore
      cases hatt
      obtain ⟨_, d4, -, hfail⟩ := Run.bind_ok.mp hundo
      cases hfail
    | none =>
      cases hstore
      have hkept : Kept t t' := hstat rfl
      -- an empty directory, with its fields right, is the place to start from
      have hbytes0 : d1.tree.dirBytes oid = 0 := by
        rw [d1.tree.dirBytes_eq oid ⟨0, 0, 0, 0⟩, hempty]
        rfl
      have h0 : Holds plugs oid ⟨d1.tree, 0, 0⟩ [] :=
        ⟨hw, nofun, List.nodup_nil, hempty, rfl, hbytes0.symm, by
          show d1.tree.dirBytes oid < two64
          rw [hbytes0]
          decide, hlarge⟩
      have hdot : ValidName dotName := by
        refine ⟨by decide, fun c hc => ?_, by decide⟩
        rw [List.mem_singleton.mp hc]
        decide
      have hsmall : cde40PrepInsert d1.tree.pol
          (Key.buildHashed d1.tree.pol plugs oid dotName) dotName < two64 := by
        unfold cde40PrepInsert enSize haSize obSize two64
        cases d1.tree.pol <;> dsimp only <;> split <;> decide
      obtain ⟨l', hl', hmem⟩ := h0.inserted hdot nofun rfl hdone (by
        show d1.tree.dirBytes oid + _ < two64
        rw [hbytes0, Nat.zero_add]
        exact hsmall)
      obtain ⟨p, rfl⟩ : ∃ p, l' = [p] := by
        have hsize := hl'.size
        have hone : add64 0 1 = 1 := rfl
        simp only [hone] at hsize
        exact List.length_eq_one_iff.mp hsize.symm
      obtain rfl : p = (dotName, object) := by simpa using hmem p
      have hkeep := hl'.kept hkept
      rw [show add64 0 1 = 1 from rfl, show add64 0 (cde40PrepInsert d1.tree.pol
        (Key.buildHashed d1.tree.pol plugs oid dotName) dotName : Nat) = _ from
          add64_add (by rwa [Nat.zero_add]), Nat.zero_add] at hkeep
      exact hkeep

end Calls

/-! ## Runs -/

/-- What a directory should hold. -/
abbrev DirMap := List UInt8 → Option Object

/-- Only a call that succeeds changes the map. -/
def DirMap.after (m m' : DirMap) (r : Except Errno Unit) : DirMap :=
  match r with
  | .ok () => m'
  | .error _ => m

/-- The directories that a creation in a tree with large keys and any calls after it make, each with
    the map that the calls define. -/
inductive Made (beyond : Item → Nat → Entry) (plugs : Key.NamePlugs) (oid : Nat) :
    State → DirMap → Prop
  | create {fuel : Nat} {d d' : State} {insert stat undo : TreeAnswer} {object : Object}
      (hw : d.tree.WF) (hlarge : d.tree.pol = .large) (hempty : d.tree.dirEntries oid = [])
      (hins : insert.Inserts d.tree
        (dirLocality oid, entryOf d.tree.pol plugs oid (dotName, object)))
      (hstat : stat.err = none → Kept insert.tree stat.tree)
      (hrun : (dir40Create plugs fuel oid insert stat undo).run d = some (.ok (), d')) :
      Made beyond plugs oid d' (Function.update (fun _ => none) dotName (some object))
  | add {fuel : Nat} {d d' : State} {m : DirMap} {insert : TreeAnswer} {touch : TouchAnswers}
      {name : List UInt8} {object : Object} {r : Except Errno Unit} (h : Made beyond plugs oid d m)
      (hok : AddOk beyond plugs fuel oid d insert touch name object)
      (hrun : (dir40AddEntry beyond plugs fuel oid insert touch name).run d = some (r, d')) :
      Made beyond plugs oid d' (m.after (Function.update m name (some object)) r)
  | rem {fuel : Nat} {d d' : State} {m : DirMap} {remove : TreeAnswer} {touch : TouchAnswers}
      {name : List UInt8} {r : Except Errno Unit} (h : Made beyond plugs oid d m)
      (hok : RemOk beyond plugs fuel oid d remove touch name)
      (hrun : (dir40RemEntry beyond plugs fuel oid remove touch name).run d = some (r, d')) :
      Made beyond plugs oid d' (m.after (Function.update m name none) r)

section Runs

variable {beyond : Item → Nat → Entry} {plugs : Key.NamePlugs} {oid : Nat} {d : State} {m : DirMap}

/-- The entries are the map, all along a run. -/
theorem Made.holds (h : Made beyond plugs oid d m) :
    ∃ l, Holds plugs oid d l ∧ ∀ name object, m name = some object ↔ (name, object) ∈ l := by
  induction h with
  | create hw hlarge hempty hins hstat hrun =>
    refine ⟨_, Holds.create hw hlarge hempty hins hstat hrun, fun name object => ?_⟩
    by_cases hn : name = dotName
    · subst hn
      simp [eq_comm]
    · simp [hn]
  | @add _ _ _ m _ _ name object _ _ hok hrun ih =>
    obtain ⟨l, hl, hmap⟩ := ih
    rcases hl.add hok hrun with ⟨rfl, l', hl', hnew, hmem⟩ | ⟨⟨e, rfl⟩, hl'⟩
    · refine ⟨l', hl', fun n o => ?_⟩
      rw [hmem, DirMap.after]
      by_cases hn : n = name
      · subst hn
        simp [hnew, eq_comm]
      · simp [hn, hmap]
    · exact ⟨l, hl', hmap⟩
  | @rem _ _ _ m _ _ name _ _ hok hrun ih =>
    obtain ⟨l, hl, hmap⟩ := ih
    rcases hl.rem hok hrun with ⟨rfl, l', hl', hmem⟩ | ⟨⟨e, rfl⟩, hl'⟩
    · refine ⟨l', hl', fun n o => ?_⟩
      rw [hmem, DirMap.after]
      by_cases hn : n = name
      · subst hn
        simp
      · simp [hn, hmap]
    · exact ⟨l, hl', hmap⟩

/-- **A directory is a finite map with exact accounting**: its entries are those of the map, one for
    each name; the size is their number and the bytes are those of its items; a name that is there
    cannot be added, nor one that is not there removed. -/
theorem dir40_finite_map (h : Made beyond plugs oid d m) :
    (∀ e, e ∈ d.tree.dirEntries oid ↔ ∃ name object, m name = some object ∧
      e = entryOf d.tree.pol plugs oid (name, object)) ∧
    (∀ key, ((d.tree.dirEntries oid).map fun e =>
      Item.nameIn d.tree.pol key e 256).Nodup) ∧
    d.size = (d.tree.dirEntries oid).length ∧ d.bytes = d.tree.dirBytes oid ∧
    ∀ name fuel, d.tree.fuelBound ≤ fuel →
      d.tree.SearchSettles beyond (Key.buildHashed d.tree.pol plugs oid name) name →
        ∀ answer touch,
          (m name ≠ none → (dir40AddEntry beyond plugs fuel oid answer touch name).run d =
            some (.error .einval, d)) ∧
          (m name = none → (dir40RemEntry beyond plugs fuel oid answer touch name).run d =
            some (.error .einval, d)) := by
  obtain ⟨l, hl, hmap⟩ := h.holds
  refine ⟨fun e => ?_, fun key => ?_, ?_, hl.bytes, ?_⟩
  · rw [hl.entries, List.mem_map]
    constructor
    · rintro ⟨⟨name, object⟩, hp, rfl⟩
      exact ⟨name, object, (hmap name object).mpr hp, rfl⟩
    · rintro ⟨name, object, hm, rfl⟩
      exact ⟨(name, object), (hmap name object).mp hm, rfl⟩
  · have hnames : (l.map (entryOf d.tree.pol plugs oid)).map
        (fun e => Item.nameIn d.tree.pol key e 256) = l.map Prod.fst := by
      rw [List.map_map]
      exact List.map_congr_left fun p hp => entryOf_name (hl.names p hp) key
    rw [hl.entries, hnames]
    exact hl.nodup
  · rw [hl.entries, List.length_map]
    exact hl.size
  · intro name fuel hfuel hs answer touch
    refine ⟨fun hm => ?_, fun hm => ?_⟩
    · obtain ⟨object, hobject⟩ := Option.ne_none_iff_exists'.mp hm
      exact hl.add_present ((hmap name object).mp hobject) hfuel hs answer touch
    · refine hl.rem_absent (fun object hp => ?_) hfuel hs answer touch
      rw [(hmap name object).mpr hp] at hm
      cases hm

end Runs

/-! ## Two names with one key -/

/-- The stat data of the root directory and of one in it. -/
def rootStat : Item := ⟨⟨657, 0, 42, 0⟩, 0, .stat40 []⟩
def dirStat : Item := ⟨⟨673, 0, 65536, 0⟩, 0, .stat40 []⟩

def dotEntry : Entry := ⟨0, 0, 0, (42, 0, 65536), []⟩

/-- 24 times "A". -/
def longName : List UInt8 := List.replicate 24 65

def longEntry : Entry :=
  ⟨0x0141414141414141, 0x4141414141414141, 0xc0c0c0c010101010, (65536, 0, 65537), longName⟩

/-- 23 times "A" and a "B", which has the same key. -/
def otherName : List UInt8 := List.replicate 23 65 ++ [66]

/-- A leaf with stat data and one with a directory item. -/
def sampleTree (stats : List Item) (es : List Entry) : Tree where
  store blk :=
    if blk = 23 then
      some ⟨2, [⟨⟨657, 0, 42, 0⟩, 0, .nodeptr40 24⟩, ⟨⟨1048576, 0, 0, 0⟩, 0, .nodeptr40 25⟩]⟩
    else if blk = 24 then some ⟨1, stats⟩
    else if blk = 25 then some ⟨1, [⟨⟨1048576, 0, 0, 0⟩, 0, .cde40 es⟩]⟩
    else none
  root := some 23
  height := 2
  blksize := 4096
  pol := .large

/-- The tree with the root directory only. -/
def emptyTree : Tree where
  store blk :=
    if blk = 23 then some ⟨2, [⟨⟨657, 0, 42, 0⟩, 0, .nodeptr40 24⟩]⟩
    else if blk = 24 then some ⟨1, [rootStat]⟩
    else none
  root := some 23
  height := 2
  blksize := 4096
  pol := .large

theorem stat_wf {key : Key} (h : key.Fits .large) : (⟨key, 0, .stat40 []⟩ : Item).WF .large 4096 where
  key_fits := h
  units_pos := Nat.one_pos
  key_first := rfl
  cde es hb := nomatch hb
  tail ds hb := by rcases hb with hb | ⟨s, hb⟩ <;> cases hb
  extent us hb := nomatch hb

theorem rootStat_wf : rootStat.WF .large 4096 :=
  stat_wf ⟨by decide, by decide, by decide, by decide, by decide⟩

theorem dirStat_wf : dirStat.WF .large 4096 :=
  stat_wf ⟨by decide, by decide, by decide, by decide, by decide⟩

theorem emptyTree_wf : emptyTree.WF where
  blksize := by decide
  sound r hr := by
    obtain rfl : 23 = r := Option.some.inj hr
    refine ⟨_, rfl, rfl, fun it hit => ?_⟩
    rw [List.mem_singleton.mp hit]
    refine ⟨by decide, _, rfl, rfl, fun it hit => ?_⟩
    rw [List.mem_singleton.mp hit]
    exact ⟨rootStat_wf, Or.inl rfl⟩
  ordered := by decide

theorem dirKey_fits : (⟨1048576, 0, 0, 0⟩ : Key).Fits .large :=
  ⟨by decide, by decide, by decide, by decide, by decide⟩

theorem dirItem_wf {es : List Entry} (hes : es = [dotEntry] ∨ es = [dotEntry, longEntry]) :
    (⟨⟨1048576, 0, 0, 0⟩, 0, .cde40 es⟩ : Item).WF .large 4096 where
  key_fits := dirKey_fits
  units_pos := by rcases hes with rfl | rfl <;> decide
  key_first := by rcases hes with rfl | rfl <;> decide
  cde es' hb := by
    cases hb
    have hfits : ∀ e ∈ [dotEntry, longEntry],
        (Item.hashKey ⟨1048576, 0, 0, 0⟩ e).Fits .large := by
      intro e he
      simp only [List.mem_cons, List.not_mem_nil, or_false] at he
      rcases he with rfl | rfl
      · exact ⟨by decide, by decide, by decide, by decide, by decide⟩
      · exact ⟨by decide, by decide, by decide, by decide, by decide⟩
    have hminor : (⟨1048576, 0, 0, 0⟩ : Key).getMinor = Key.filenameMinor := rfl
    refine ⟨hminor, fun e he => hfits e ?_⟩
    rcases hes with rfl | rfl
    · exact List.mem_cons.mpr (Or.inl (List.mem_singleton.mp he))
    · exact he
  tail ds hb := by rcases hb with hb | ⟨s, hb⟩ <;> cases hb
  extent us hb := nomatch hb

/-- The leaves of a sample tree are sound, whatever stat data of the two is in the first one. -/
theorem sampleTree_sound {stats : List Item} {es : List Entry}
    (hstats : ∀ it ∈ stats, it = rootStat ∨ it = dirStat) (hfirst : stats.head? = some rootStat)
    (hes : es = [dotEntry] ∨ es = [dotEntry, longEntry]) (r : Nat)
    (hr : (sampleTree stats es).root = some r) : (sampleTree stats es).Sound 2 r := by
  obtain rfl : 23 = r := Option.some.inj hr
  obtain ⟨rest, rfl⟩ : ∃ rest, stats = rootStat :: rest := by
    cases stats with
    | nil => cases hfirst
    | cons it rest =>
      cases hfirst
      exact ⟨rest, rfl⟩
  refine ⟨_, rfl, rfl, fun it hit => ?_⟩
  simp only [List.mem_cons, List.not_mem_nil, or_false] at hit
  rcases hit with rfl | rfl
  · refine ⟨rfl, _, rfl, rfl, fun it hit => ?_⟩
    rcases hstats it hit with rfl | rfl
    · exact ⟨rootStat_wf, Or.inl rfl⟩
    · exact ⟨dirStat_wf, Or.inl rfl⟩
  · refine ⟨rfl, _, rfl, rfl, fun it hit => ?_⟩
    rw [List.mem_singleton.mp hit]
    exact ⟨dirItem_wf hes, Or.inl rfl⟩

/-- The directory with its first entry, before its stat data, with it, and with the long name. -/
def bodyTree : Tree := sampleTree [rootStat] [dotEntry]
def madeTree : Tree := sampleTree [rootStat, dirStat] [dotEntry]
def longTree : Tree := sampleTree [rootStat, dirStat] [dotEntry, longEntry]

theorem bodyTree_wf : bodyTree.WF where
  blksize := by decide
  sound := sampleTree_sound (by simp) rfl (Or.inl rfl)
  ordered := by decide

theorem madeTree_wf : madeTree.WF where
  blksize := by decide
  sound := sampleTree_sound (by simp) rfl (Or.inl rfl)
  ordered := by decide

theorem longTree_wf : longTree.WF where
  blksize := by decide
  sound := sampleTree_sound (by simp) rfl (Or.inr rfl)
  ordered := by decide

/-- A search that answers leaves the directory as it is. -/
theorem search_answers {α : Type} {x : Run Tree Errno α} {t : Tree} {a : α} (d : State)
    (h : (x.run t).map (fun r => r.1.toOption) = some (some a)) :
    ((x.run t).map fun r => (r.1, d)) = some (.ok a, d) := by
  obtain ⟨⟨res, t'⟩, hrun, hres⟩ := Option.map_eq_some_iff.mp h
  rw [hrun]
  cases res with
  | error e => cases hres
  | ok b =>
    obtain rfl : b = a := Option.some.inj hres
    rfl

/-- The directory is created in a tree with the root directory. -/
theorem made_dot : Made Tree.zeroBeyond Tree.degPlugs 65536 ⟨madeTree, 1, 50⟩
    (Function.update (fun _ => none) dotName (some (42, 0, 65536))) := by
  refine @Made.create _ _ _ 6 ⟨emptyTree, 0, 0⟩ _ ⟨bodyTree, none⟩ ⟨madeTree, none⟩ ⟨madeTree, none⟩ _
    emptyTree_wf rfl (by decide)
    ⟨bodyTree_wf, rfl, [], [], by decide, by decide⟩
    (fun _ => ⟨madeTree_wf, rfl, by decide⟩) ?_
  have hsearch : (searchConv Tree.degPlugs 6 65536).run ⟨emptyTree, 0, 0⟩ =
      some (.ok (.absent, ⟨some ⟨24, [(23, 0)]⟩, ⟨1, none⟩⟩), ⟨emptyTree, 0, 0⟩) :=
    search_answers _ (by decide +kernel)
  unfold dir40Create
  rw [Run.bind_of_ok (Run.attempt_of_ok hsearch)]
  rfl

/-- No unit of the tree has the key. -/
theorem settles_of_no_unit {t : Tree} {k : Key} {name : List UInt8}
    (h : ∀ s ∈ t.slots, ∀ u, u < s.1.units →
      ¬ (s.1.unitKey t.blksize u ≤ k ∧ k ≤ s.1.unitHi t.blksize u)) :
    t.SearchSettles Tree.zeroBeyond k name := by
  refine Or.inr ⟨fun pre s rest u hl => ?_, fun s hs u hc => ?_⟩
  · refine h s ?_ u hl.found.1 hl.found.2.1
    rw [hl.cut]
    simp
  · obtain ⟨-, hu, hlo, hhi⟩ := hc.unit t.blksize
    exact h s hs u hu ⟨hlo.le, hhi.ge⟩

theorem madeTree_settles : madeTree.SearchSettles Tree.zeroBeyond Tree.degKey longName :=
  settles_of_no_unit (by decide)

theorem longKey : Key.buildHashed .large Tree.degPlugs 65536 longName = Tree.degKey := by
  decide

/-- The long name is added. -/
theorem made_long : Made Tree.zeroBeyond Tree.degPlugs 65536 ⟨longTree, 2, 125⟩
    (Function.update (Function.update (fun _ => none) dotName (some (42, 0, 65536))) longName
      (some (65536, 0, 65537))) := by
  refine @Made.add _ _ _ 6 _ _ _ ⟨longTree, none⟩ .fine _ (65536, 0, 65537) (.ok ()) made_dot ⟨?_, by decide, ?_, ?_, rfl, ?_⟩ ?_
  · refine ⟨by decide, fun c hc => ?_, by decide⟩
    rw [List.eq_of_mem_replicate hc]
    decide
  · show madeTree.SearchSettles _ (Key.buildHashed .large _ _ _) _
    rw [longKey]
    exact madeTree_settles
  · exact ⟨longTree_wf, rfl, [(65536, dotEntry)], [], by decide, by decide⟩
  · decide
  · have hsearch : (search Tree.zeroBeyond Tree.degPlugs 6 65536 longName).run ⟨madeTree, 1, 50⟩ =
        some (.ok (.absent, ⟨some ⟨25, [(23, 1)]⟩, ⟨0, some 1⟩⟩), ⟨madeTree, 1, 50⟩) :=
      search_answers _ (by decide +kernel)
    unfold dir40AddEntry
    rw [Run.bind_of_ok (Run.attempt_of_ok hsearch)]
    rfl

/-- The leftmost unit with the key of both names. -/
theorem longTree_leftmost : longTree.Leftmost Tree.degKey [(rootStat, 0), (dirStat, 1)]
    (⟨⟨1048576, 0, 0, 0⟩, 0, .cde40 [dotEntry, longEntry]⟩, 0) [] 1 where
  cut := by decide
  notPast := by decide
  found := ⟨by decide, ⟨by decide, by decide⟩, by decide⟩
  below x hx := by
    simp only [List.mem_cons, List.not_mem_nil, or_false] at hx
    rcases hx with rfl | rfl
    · exact Or.inr (by decide)
    · exact Or.inr (by decide)

/-- The name that was added is not added again. -/
theorem dir40_finite_map_long : longTree.dirEntries 65536 = [dotEntry, longEntry] ∧
    longTree.dirBytes 65536 = 125 ∧
    (dir40AddEntry Tree.zeroBeyond Tree.degPlugs 6 65536 ⟨longTree, none⟩ .fine longName).run
      ⟨longTree, 2, 125⟩ = some (.error .einval, ⟨longTree, 2, 125⟩) := by
  obtain ⟨hmem, -, -, hbytes, hcalls⟩ := dir40_finite_map made_long
  have hsettles : longTree.SearchSettles Tree.zeroBeyond
      (Key.buildHashed .large Tree.degPlugs 65536 longName) longName := by
    rw [longKey, longTree_leftmost.searchSettles_iff]
    refine ⟨rfl, ?_⟩
    rw [Tree.Settles, if_pos (by decide)]
    decide
  exact ⟨by decide, hbytes.symm, (hcalls longName 6 (by decide) hsettles
    ⟨longTree, none⟩ .fine).1 (by decide)⟩

/-- The other name is not in the directory.  Removing it succeeds, and removes the long name. -/
theorem dir40RemEntry_removes_other : ∃ d m remove,
    Made Tree.zeroBeyond Tree.degPlugs 65536 d m ∧ m otherName = none ∧
    m longName = some (65536, 0, 65537) ∧ remove.Removes d.tree (65536, longEntry) ∧
    ∃ d', (dir40RemEntry Tree.zeroBeyond Tree.degPlugs 6 65536 remove .fine otherName).run d =
      some (.ok (), d') ∧ d'.tree.dirEntries 65536 = [dotEntry] := by
  refine ⟨_, _, ⟨madeTree, none⟩, made_long, by decide, by decide, ?_,
    ⟨madeTree, 1, 50⟩, ?_, by decide⟩
  · exact ⟨madeTree_wf, rfl, [(65536, dotEntry)], [], by decide, by decide⟩
  · have hsearch : (search Tree.zeroBeyond Tree.degPlugs 6 65536 otherName).run ⟨longTree, 2, 125⟩ =
        some (.ok (.present, ⟨some ⟨25, [(23, 1)]⟩, ⟨0, some 1⟩⟩), ⟨longTree, 2, 125⟩) :=
      search_answers _ (by decide +kernel)
    unfold dir40RemEntry
    rw [Run.bind_of_ok (Run.attempt_of_ok hsearch)]
    rfl

end Dir40
end Reiser4
