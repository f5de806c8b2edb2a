/-
  Names and the keys of directory entries (`build_hashed`, `get_name`, `cde40_get_name`).

  A short name is packed into its key: the first 7 characters into the element that also carries the
  fibre, then 8 into each further one.  A longer name leaves its first part there and a hash of the
  rest in the offset, with a bit that says so; its text is stored with the entry.  The hash and the
  fibre are plugins of their own and stay parameters here.

  Names are the bytes before the terminating zero.
-/
import Reiser4.Item.Body

namespace Reiser4

/-- The number of values of the 7 characters beside the fibre; also `HASHED_NAME_MASK`. -/
def two56 : Nat := 72057594037927936

/-- `HASHED_NAME_MASK`. -/
def hashedNameMask : Nat := two56

/-- `aux_pack_string`: up to `8 - start` characters, in the high bytes after the first `start`. -/
def auxPackString (name : List UInt8) (start : Nat) : Nat :=
  let cs := name.take (8 - start)
  cs.foldl (fun value c => value * 256 + c.toNat) 0 * 256 ^ (8 - cs.length - start)

/-- `aux_unpack_string`: the bytes from the highest on, less the zeros. -/
def auxUnpackString (value : Nat) : List UInt8 :=
  ((List.range 8).map fun i => UInt8.ofNat (value / 256 ^ (7 - i) % 256)).filter (· ≠ 0)

namespace Key

/-- The hash and the fibre plugin of a directory. -/
structure NamePlugs where
  /-- `hash->build`, of the part of the name that does not fit. -/
  hash : List UInt8 → UInt64
  /-- `fibre->build`. -/
  fibre : List UInt8 → UInt8

/-- The fibre's place in the first element of the name; it has 7 bits there. -/
def fibreBits (plugs : NamePlugs) (name : List UInt8) : Nat :=
  ((plugs.fibre name).toNat * (2 * two56)) % two64

/-- `key_large_build_hash`. -/
def largeBuildHash (plugs : NamePlugs) (name : List UInt8) (key : Key) : Key :=
  if name = [46] then key
  else
    let ordering := auxPackString name 1
    let objectid := if name.length > 7 then auxPackString (name.drop 7) 0 else 0
    if name.length ≤ 7 + 8 + 8 then
      let offset := if name.length > 15 then auxPackString (name.drop 15) 0 else 0
      ({ key with ordering := ordering ||| fibreBits plugs name }.setObjectid objectid).setOffset
        offset
    else
      let offset := (plugs.hash (name.drop 15)).toNat
      ({ key with ordering := ordering ||| hashedNameMask ||| fibreBits plugs name }.setObjectid
        objectid).setOffset offset

/-- `key_short_build_hash`. -/
def shortBuildHash (plugs : NamePlugs) (name : List UInt8) (key : Key) : Key :=
  if name = [46] then key
  else
    let objectid := auxPackString name 1
    if name.length ≤ 7 + 8 then
      let offset := if name.length > 7 then auxPackString (name.drop 7) 0 else 0
      { key with el2 := objectid ||| fibreBits plugs name, offset := offset }
    else
      let offset := (plugs.hash (name.drop 7)).toNat
      { key with el2 := objectid ||| hashedNameMask ||| fibreBits plugs name, offset := offset }

/-- `build_hashed`: the key of a name in the directory with that objectid. -/
def buildHashed (pol : KeyPol) (plugs : NamePlugs) (objectid : Nat) (name : List UInt8) : Key :=
  let key : Key := ⟨objectid * 16 % two64 + filenameMinor, 0, 0, 0⟩
  match pol with
  | .large => largeBuildHash plugs name key
  | .short => shortBuildHash plugs name key

/-- `hashed`. -/
def hashed (pol : KeyPol) (k : Key) : Bool :=
  match pol with
  | .large => k.ordering / hashedNameMask % 2 = 1
  | .short => k.el2 / hashedNameMask % 2 = 1

/-- `get_name`: the name packed in a key that is not hashed. -/
def getName (pol : KeyPol) (k : Key) : List UInt8 :=
  match pol with
  | .large =>
    if k.el2 = 0 ∧ k.offset = 0 ∧ k.ordering = 0 then [46]
    else auxUnpackString (k.ordering % two56) ++ auxUnpackString k.el2 ++ auxUnpackString k.offset
  | .short =>
    if k.el2 = 0 ∧ k.offset = 0 then [46]
    else auxUnpackString (k.el2 % two56) ++ auxUnpackString k.offset

end Key

namespace Item

/-- The name of an entry, as it comes into a buffer of `len` bytes. -/
def nameIn (pol : KeyPol) (key : Key) (e : Entry) (len : Nat) : List UInt8 :=
  if (hashKey key e).hashed pol then e.name.take len
  else (hashKey key e).getName pol

/-- `cde40_get_name`, into a buffer of `len` bytes; it asks the hash whether there is a name beside it. -/
def cde40GetName (pol : KeyPol) (key : Key) (e : Entry) (len : Nat) : Option (List UInt8) :=
  (cde40GetHash pol key e).map fun _ => nameIn pol key e len

/-- Entry `u` of a directory item. -/
def unitEntry (it : Item) (u : Nat) : Option Entry :=
  match it.body with
  | .cde40 es => es[u]?
  | _ => none

/-- Entry `u` of the item has the key and carries the name. -/
def Carries (pol : KeyPol) (it : Item) (u : Nat) (k : Key) (name : List UInt8) : Prop :=
  ∃ e ∈ it.unitEntry u, hashKey it.key e = k ∧ nameIn pol it.key e 256 = name

instance (pol : KeyPol) (it : Item) (u : Nat) (k : Key) (name : List UInt8) :
    Decidable (it.Carries pol u k name) :=
  inferInstanceAs (Decidable (∃ e ∈ it.unitEntry u, _ ∧ _))

/-- The entry is one that the item covers with that unit. -/
theorem Carries.unit {pol : KeyPol} (blksize : Nat) {it : Item} {u : Nat} {k : Key}
    {name : List UInt8} (h : it.Carries pol u k name) :
    it.plug = .cde40 ∧ u < it.units ∧ it.unitKey blksize u = k ∧ it.unitHi blksize u = k := by
  obtain ⟨e, he, hk, -⟩ := h
  obtain ⟨es, hb, he⟩ : ∃ es, it.body = .cde40 es ∧ es[u]? = some e := by
    unfold unitEntry at he
    cases hb : it.body <;> simp [hb] at he ⊢
    exact he
  have hlen : u < es.length := (List.getElem?_eq_some_iff.mp he).1
  refine ⟨by simp [plug, hb, Body.plug], by simpa [units, hb] using hlen, ?_, ?_⟩
  · simp [unitKey, hb, he, hk]
  · simp [unitHi, unitKey, hb, he, hk]

end Item

/-- The name is read back from its key: "ext.c" with a fibre in the large policy. -/
example : (Key.buildHashed .large ⟨fun _ => 0, fun _ => 99⟩ 65536 [101, 120, 116, 46, 99]).getName
    .large = [101, 120, 116, 46, 99] := by decide

end Reiser4
