/-
  Items and their units.

  An item of a node has a key, flags and a body whose layout belongs to its plugin.  Here a body is
  the sequence of units the plugin sees in it:

    * `stat40`, `bbox40`  one unit, the whole body;
    * `nodeptr40`         one unit, a block number; the only branch item;
    * `cde40`             one unit an entry: the hash part of its key, the object it names, its name;
                          `hashKey` is the key it stands for, `cde40GetHash` what the code can read;
    * `plain40`, `ctail40`  one unit a byte (`tail40`), after a one-byte cluster shift in a `ctail40`;
    * `extent40`          one unit a run of blocks, `width` blocks from `start` on.

  A unit covers the keys from its own key to `unitHi`: a single key, except for an extent unit, which
  covers the offsets of all bytes of its blocks.
-/
import Reiser4.Key
import Reiser4.LibAux.BinSearch

namespace Reiser4

/-! ## Bodies -/

/-- A directory entry (`entryN_t`, `objidN_t` and the name after it). -/
structure Entry where
  /-- The hash part: ordering, full objectid and offset of the entry's key. -/
  ordering : Nat
  objectid : Nat
  offset : Nat
  /-- The key of the object's stat data: locality, ordering, objectid. -/
  object : Nat × Nat × Nat
  /-- The stored name; empty when the name is packed in the key. -/
  name : List UInt8
  deriving DecidableEq, Repr

/-- `extent40_t`; start 0 is a hole, start 1 unallocated blocks. -/
structure ExtentUnit where
  start : Nat
  width : Nat
  deriving DecidableEq, Repr

/-- `EXTENT_HOLE_UNIT`. -/
def extentHoleUnit : Nat := 0
/-- `EXTENT_UNALLOC_UNIT`. -/
def extentUnallocUnit : Nat := 1

/-- The body of an item, by plugin. -/
inductive Body
  | stat40 (data : List UInt8)
  | bbox40 (data : List UInt8)
  | nodeptr40 (ptr : Nat)
  | cde40 (entries : List Entry)
  | plain40 (data : List UInt8)
  | ctail40 (shift : UInt8) (data : List UInt8)
  | extent40 (units : List ExtentUnit)
  deriving DecidableEq, Repr

/-- `ITEM_..._ID`, which is also the identity of the plugin. -/
inductive ItemPlug
  | stat40 | bbox40 | nodeptr40 | cde40 | plain40 | ctail40 | extent40
  deriving DecidableEq, Repr

def Body.plug : Body → ItemPlug
  | .stat40 _ => .stat40
  | .bbox40 _ => .bbox40
  | .nodeptr40 _ => .nodeptr40
  | .cde40 _ => .cde40
  | .plain40 _ => .plain40
  | .ctail40 _ _ => .ctail40
  | .extent40 _ => .extent40

/-- An item as its node holds it. -/
structure Item where
  key : Key
  flags : Nat
  body : Body
  deriving DecidableEq, Repr

namespace Item

def plug (it : Item) : ItemPlug := it.body.plug

/-- `reiser4_item_down_link`, for a branch item (`reiser4_item_branch`). -/
def downLink (it : Item) : Option Nat :=
  match it.body with
  | .nodeptr40 ptr => some ptr
  | _ => none

/-! ## Units -/

/-- `balance->units`. -/
def units (it : Item) : Nat :=
  match it.body with
  | .stat40 _ | .bbox40 _ | .nodeptr40 _ => 1
  | .cde40 es => es.length
  | .plain40 ds | .ctail40 _ ds => ds.length
  | .extent40 us => us.length

/-- `extent40_offset` in blocks: the blocks of the first `u` units. -/
def extentBlocks (us : List ExtentUnit) (u : Nat) : Nat := ((us.take u).map ExtentUnit.width).sum

/-- The key that the hash part of an entry stands for; that of a short key has no ordering, which is 0. -/
def hashKey (key : Key) (e : Entry) : Key :=
  Key.buildFilename key.getLocality e.ordering e.objectid e.offset

/-- `cde40_get_hash`.  A program built for both kinds of keys asks every entry for its ordering, and
    `ha_get_ordering` follows a null pointer in one with short keys: the hash cannot be read there. -/
def cde40GetHash (pol : KeyPol) (key : Key) (e : Entry) : Option Key :=
  match pol with
  | .short => none
  | .large => some (hashKey key e)

/-- The key of unit `u`; items without `balance->fetch_key` have one unit. -/
def unitKey (blksize : Nat) (it : Item) (u : Nat) : Key :=
  match it.body with
  | .stat40 _ | .bbox40 _ | .nodeptr40 _ => it.key
  | .cde40 es => (es[u]?.map (hashKey it.key)).getD it.key
  | .plain40 _ | .ctail40 _ _ => it.key.setOffset (it.key.offset + u)
  | .extent40 us => it.key.setOffset (it.key.offset + extentBlocks us u * blksize)

/-- The largest key unit `u` covers. -/
def unitHi (blksize : Nat) (it : Item) (u : Nat) : Key :=
  match it.body with
  | .extent40 us => it.key.setOffset (it.key.offset + extentBlocks us (u + 1) * blksize - 1)
  | _ => unitKey blksize it u

/-! ## The largest key an item may hold -/

/-- `body40_maxposs_key`. -/
def body40MaxpossKey (pol : KeyPol) (key : Key) : Key := key.setOffset (Key.maximal pol).offset

/-- `cde40_maxposs_key`: the objectid is set by the setter that leaves the band alone. -/
def cde40MaxpossKey (pol : KeyPol) (key : Key) : Key :=
  ((key.setOrdering pol (Key.maximal pol).ordering).setObjectid
    (Key.maximal pol).getObjectid).setOffset (Key.maximal pol).offset

/-- `balance->maxposs_key`, where the plugin has it. -/
def maxpossKey (pol : KeyPol) (it : Item) : Option Key :=
  match it.body with
  | .stat40 _ | .bbox40 _ | .nodeptr40 _ => none
  | .cde40 _ => some (cde40MaxpossKey pol it.key)
  | .plain40 _ | .ctail40 _ _ | .extent40 _ => some (body40MaxpossKey pol it.key)

/-! ## Well-formed items -/

end Item

/-- All elements of the key fit their 64 bits; a short key has no ordering. -/
structure Key.Fits (pol : KeyPol) (k : Key) : Prop where
  el0 : k.el0 < two64
  ordering : k.ordering < two64
  el2 : k.el2 < two64
  offset : k.offset < two64
  short : pol = .short → k.ordering = 0

/-- The body agrees with the key: an item has a unit, its key is that of the first one, and the
    offsets of a file body stay below 2^64. -/
structure Item.WF (pol : KeyPol) (blksize : Nat) (it : Item) : Prop where
  key_fits : it.key.Fits pol
  units_pos : 0 < it.units
  key_first : it.unitKey blksize 0 = it.key
  /-- The keys of directory entries fit too, and the item key is a file name key. -/
  cde : ∀ es, it.body = .cde40 es → it.key.getMinor = Key.filenameMinor ∧
    ∀ e ∈ es, (Item.hashKey it.key e).Fits pol
  tail : ∀ ds, (it.body = .plain40 ds ∨ ∃ shift, it.body = .ctail40 shift ds) →
    it.key.offset + ds.length < two64
  extent : ∀ us, it.body = .extent40 us → (∀ u ∈ us, 0 < u.width) ∧
    it.key.offset + Item.extentBlocks us us.length * blksize < two64

namespace Item

theorem unitHi_of_ne_extent {blksize : Nat} {it : Item} (h : it.plug ≠ .extent40) (u : Nat) :
    it.unitHi blksize u = it.unitKey blksize u := by
  unfold unitHi
  cases hb : it.body with
  | extent40 us => exact absurd (by simp [plug, hb, Body.plug]) h
  | _ => rfl

@[simp] theorem extentBlocks_zero (us : List ExtentUnit) : extentBlocks us 0 = 0 := rfl

theorem extentBlocks_cons (x : ExtentUnit) (us : List ExtentUnit) (u : Nat) :
    extentBlocks (x :: us) (u + 1) = x.width + extentBlocks us u := rfl

theorem extentBlocks_mono (us : List ExtentUnit) {u v : Nat} (h : u ≤ v) :
    extentBlocks us u ≤ extentBlocks us v := by
  induction us generalizing u v with
  | nil => simp [extentBlocks]
  | cons x us ih =>
    cases u with
    | zero => simp
    | succ u =>
      cases v with
      | zero => omega
      | succ v =>
        rw [extentBlocks_cons, extentBlocks_cons]
        have := ih (u := u) (v := v) (by omega)
        omega

theorem extentBlocks_succ {us : List ExtentUnit} {u : Nat} {x : ExtentUnit} (h : us[u]? = some x) :
    extentBlocks us (u + 1) = extentBlocks us u + x.width := by
  induction us generalizing u with
  | nil => simp at h
  | cons y us ih =>
    cases u with
    | zero =>
      simp only [List.getElem?_cons_zero, Option.some.injEq] at h
      simp [extentBlocks_cons, h]
    | succ u =>
      rw [extentBlocks_cons, extentBlocks_cons, ih (by simpa using h)]
      omega

end Item
end Reiser4
