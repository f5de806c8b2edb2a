/-
  The bytes of a directory item (`cde40`).

      units | header 0 | … | header n-1 | body 0 | … | body n-1

  A header is the hash part of an entry's key and the 16-bit offset of its body in the item; a body is
  the key of the object and, when the name is not packed in the key of the entry, the name with its zero
  byte.  The accessors below are the macros of `cde40.h`, on the memory of the node.

    1. `WF`        the offsets begin at the end of the headers, every body begins where the one before it
                   ends, and the last one ends with the item;
    2. `Chain`     the same for a list of entries, header by header;
    3. `WF.holds`, `Holds.wf`   an item is well formed exactly when it holds a list of entries, and
                   `cde40_fetch_units` then reads that list.
-/
import Reiser4.Bitmap
import Reiser4.Dir40.Name

namespace Reiser4

open Reiser4.Lib

/-- `REISER4_MAX_BLKSIZE`: a block is no larger, and the name buffer of an entry hint has this size. -/
def maxBlksize : Nat := 8192

/-- The number of values of a 16-bit field. -/
def two16 : Nat := 65536

/-- `MAX_UINT32`, the unit of a position that is a whole item. -/
def maxUint32 : Nat := 4294967295

theorem two16_eq : two16 = 65536 := rfl

theorem maxBlksize_eq : maxBlksize = 8192 := rfl

/-- A 16-bit number less a smaller one, by the arithmetic of the code. -/
theorem dec_mod {a b : Nat} (hb : b ≤ a) (ha : a < two16) : (a + (two32 - b)) % two16 = a - b := by
  unfold two16 two32 at *
  omega

/-- `entry_hint_t`, what a directory entry is made of; the name without its zero byte. -/
structure EntryHint where
  /-- The key of the entry in its directory. -/
  offset : Key
  /-- The key of the stat data of the object. -/
  object : Key
  name : List UInt8
  deriving DecidableEq, Repr

namespace Cde40

variable (pol : KeyPol) (mem : Bytes) (body loc : Nat)

/-! ## Accessors -/

/-- `ob_size`. -/
def obSize : Nat :=
  match pol with
  | .short => 16
  | .large => 24

/-- `ha_size`. -/
def haSize : Nat :=
  match pol with
  | .short => 16
  | .large => 24

/-- `en_size`: the hash and the 16-bit offset. -/
def enSize : Nat := haSize pol + 2

/-- `ha_get_ordering`.  In a program for both kinds of keys it follows a null pointer when they are
    short: there is nothing to read. -/
def haGetOrdering (ha : Nat) : Option Nat :=
  match pol with
  | .short => none
  | .large => some (mem.getLe 8 ha)

/-- `ha_get_objectid`. -/
def haGetObjectid (ha : Nat) : Nat :=
  match pol with
  | .short => mem.getLe 8 ha
  | .large => mem.getLe 8 (ha + 8)

/-- `ha_get_offset`. -/
def haGetOffset (ha : Nat) : Nat :=
  match pol with
  | .short => mem.getLe 8 (ha + 8)
  | .large => mem.getLe 8 (ha + 16)

/-- `ha_set_ordering`. -/
def haSetOrdering (ha v : Nat) : Bytes :=
  match pol with
  | .short => mem
  | .large => mem.setLe 8 ha v

/-- `ha_set_objectid`. -/
def haSetObjectid (ha v : Nat) : Bytes :=
  match pol with
  | .short => mem.setLe 8 ha v
  | .large => mem.setLe 8 (ha + 8) v

/-- `ha_set_offset`. -/
def haSetOffset (ha v : Nat) : Bytes :=
  match pol with
  | .short => mem.setLe 8 (ha + 8) v
  | .large => mem.setLe 8 (ha + 16) v

/-- `en_get_offset`. -/
def enGetOffset (en : Nat) : Nat := mem.getLe 2 (en + haSize pol)

/-- `en_set_offset`. -/
def enSetOffset (en v : Nat) : Bytes := mem.setLe 2 (en + haSize pol) v

/-- `en_inc_offset`. -/
def enIncOffset (en v : Nat) : Bytes := enSetOffset pol mem en (enGetOffset pol mem en + v)

/-- `en_dec_offset`; the difference is one of 32-bit numbers. -/
def enDecOffset (en v : Nat) : Bytes :=
  enSetOffset pol mem en (enGetOffset pol mem en + (two32 - v))

/-- `cde_get_units`. -/
def getUnits : Nat := mem.getLe 2 body

/-- `cde_set_units`. -/
def setUnits (v : Nat) : Bytes := mem.setLe 2 body v

/-- `cde40_entry`: the address of a header. -/
def entry (pos : Nat) : Nat := body + 2 + pos * enSize pol

/-- `cde40_objid`: the address of a body. -/
def objid (pos : Nat) : Nat := body + enGetOffset pol mem (entry pol body pos)

/-! ## Reading an entry

  An entry is what the bytes of its header and its body stand for, with either kind of keys.  The code
  can read all of it with large keys only, since `cde40_get_hash` asks for the ordering, and it needs
  the hash for the length of an entry and for its name. -/

/-- The key that the header at `ha` stands for, in an item whose key has the locality `loc`; the
    ordering of a short key is 0. -/
def hashAt (ha : Nat) : Key :=
  Key.buildFilename loc ((haGetOrdering pol mem ha).getD 0) (haGetObjectid pol mem ha)
    (haGetOffset pol mem ha)

/-- `cde40_get_obj`, for the body at `ob`: the first `ob_size` bytes of a key, the others zero. -/
def objAt (ob : Nat) : Key :=
  match pol with
  | .short => ⟨mem.getLe 8 ob, 0, mem.getLe 8 (ob + 8), 0⟩
  | .large => ⟨mem.getLe 8 ob, mem.getLe 8 (ob + 8), mem.getLe 8 (ob + 16), 0⟩

/-- The name of an entry, as it comes into the name buffer of an entry hint. -/
def nameAt (ha ob : Nat) : List UInt8 :=
  if (hashAt pol mem loc ha).hashed pol then mem.cstr maxBlksize (ob + obSize pol)
  else (hashAt pol mem loc ha).getName pol

/-- The length of a body.  `aal_strlen` has no bound; here it looks at 64 KiB, more than an item can
    have. -/
def lenAt (ha ob : Nat) : Nat :=
  if (hashAt pol mem loc ha).hashed pol then
    obSize pol + (mem.cstr two16 (ob + obSize pol)).length + 1
  else obSize pol

/-- The key of an entry. -/
def unitHash (pos : Nat) : Key := hashAt pol mem loc (entry pol body pos)

/-- The length of the body of an entry. -/
def unitLen (pos : Nat) : Nat := lenAt pol mem loc (entry pol body pos) (objid pol mem body pos)

/-- One entry of the item. -/
def unitAt (pos : Nat) : EntryHint where
  offset := unitHash pol mem body loc pos
  object := objAt pol mem (objid pol mem body pos)
  name := nameAt pol mem loc (entry pol body pos) (objid pol mem body pos)

/-- The `count` entries from `pos` on. -/
def unitsAt (pos count : Nat) : List EntryHint :=
  (List.range' pos count).map (unitAt pol mem body loc)

/-- `cde40_get_hash`. -/
def getHash (pos : Nat) : Option Key :=
  (haGetOrdering pol mem (entry pol body pos)).map fun ordering =>
    Key.buildFilename loc ordering (haGetObjectid pol mem (entry pol body pos))
      (haGetOffset pol mem (entry pol body pos))

/-- `cde40_get_len`; the hash tells whether a name is stored. -/
def getLen (pos : Nat) : Option Nat :=
  (getHash pol mem body loc pos).map fun hash =>
    if hash.hashed pol then
      obSize pol + (mem.cstr two16 (objid pol mem body pos + obSize pol)).length + 1
    else obSize pol

/-- `cde40_regsize`: the size of the bodies of `count` entries from `pos` on. -/
def regsize (pos count : Nat) : Option Nat :=
  if count = 0 then some 0
  else
    let start := enGetOffset pol mem (entry pol body pos)
    if pos + count < getUnits mem body then
      some (enGetOffset pol mem (entry pol body (pos + count)) - start)
    else
      (getLen pol mem body loc (pos + count - 1)).map fun size =>
        size + (enGetOffset pol mem (entry pol body (pos + count - 1)) - start)

/-! ## Well-formed items -/

/-- The item at `body` with `len` bytes: the bodies follow the headers and one another, up to the end of
    the item, and the item fits in a block. -/
structure WF (len : Nat) : Prop where
  start : 0 < getUnits mem body →
    enGetOffset pol mem (entry pol body 0) = 2 + getUnits mem body * enSize pol
  next : ∀ i, i + 1 < getUnits mem body → enGetOffset pol mem (entry pol body (i + 1)) =
    enGetOffset pol mem (entry pol body i) + unitLen pol mem body loc i
  last : 0 < getUnits mem body →
    enGetOffset pol mem (entry pol body (getUnits mem body - 1)) +
      unitLen pol mem body loc (getUnits mem body - 1) = len
  empty : getUnits mem body = 0 → len = 2
  size : len ≤ maxBlksize

/-- An entry that can be put in a directory of the locality `loc`: its key is one of that directory, the
    numbers fit their fields, and the name is the one that the key has, or is stored beside it. -/
structure Fits (e : EntryHint) : Prop where
  here : e.offset = Key.buildFilename loc e.offset.ordering e.offset.el2 e.offset.offset
  offset : e.offset.Fits pol
  object : e.object.Fits pol
  statdata : e.object.offset = 0
  packed : e.offset.hashed pol = false → e.name = e.offset.getName pol
  stored : e.offset.hashed pol = true → 0 ∉ e.name

/-- The bytes of an entry's body. -/
def unitSize (e : EntryHint) : Nat :=
  if e.offset.hashed pol then obSize pol + e.name.length + 1 else obSize pol

/-- The bytes of the bodies of a list of entries. -/
def bodies (es : List EntryHint) : Nat := (es.map (unitSize pol)).sum

/-- The bytes that entries take in an item: their headers and their bodies. -/
def took (es : List EntryHint) : Nat := es.length * enSize pol + bodies pol es

/-- The header at `ha` and the body at `ob` hold the entry. -/
structure EntryAt (ha ob : Nat) (e : EntryHint) : Prop where
  hash : hashAt pol mem loc ha = e.offset
  object : objAt pol mem ob = e.object
  packed : e.offset.hashed pol = false → e.name = e.offset.getName pol
  stored : e.offset.hashed pol = true →
    mem.HoldsStr (ob + obSize pol) e.name ∧ 0 ∉ e.name ∧ e.name.length < maxBlksize

/-- The headers from `ha` on are those of the entries, and the bodies follow one another from the offset
    `off` on. -/
def Chain : Nat → Nat → List EntryHint → Prop
  | _, _, [] => True
  | ha, off, e :: es =>
    enGetOffset pol mem ha = off ∧ EntryAt pol mem loc ha (body + off) e ∧
      Chain (ha + enSize pol) (off + unitSize pol e) es

/-- The item at `body` holds the entries and has `len` bytes. -/
structure Holds (es : List EntryHint) (len : Nat) : Prop where
  units : getUnits mem body = es.length
  chain : Chain pol mem body loc (body + 2) (2 + es.length * enSize pol) es
  length : len = 2 + es.length * enSize pol + bodies pol es
  size : len ≤ maxBlksize

/-! ## What an entry depends on -/

section Read

variable {pol : KeyPol} {mem mem' : Bytes} {body body' loc ha ha' ob ob' off off' : Nat} {e : EntryHint}
  {es fs : List EntryHint}

/-- A number of the moved bytes. -/
theorem getLe_moved {n m o o' : Nat} (k : Nat) (hk : k + n ≤ m)
    (h : ∀ a, a < m → mem' (o' + a) = mem (o + a)) :
    mem'.getLe n (o' + k) = mem.getLe n (o + k) :=
  Bytes.getLe_congr n _ _ _ _ fun i hi => by
    have := h (k + i) (by omega)
    rwa [← Nat.add_assoc, ← Nat.add_assoc] at this

/-- With large keys the code reads what there is. -/
theorem getHash_large (pos : Nat) :
    getHash .large mem body loc pos = some (unitHash .large mem body loc pos) := rfl

theorem getLen_large (pos : Nat) :
    getLen .large mem body loc pos = some (unitLen .large mem body loc pos) := rfl

theorem getHash_some {pos : Nat} {hash : Key} (h : getHash pol mem body loc pos = some hash) :
    hash = unitHash pol mem body loc pos := by
  cases pol with
  | short => cases h
  | large => exact (Option.some.inj h).symm

theorem getLen_some {pos size : Nat} (h : getLen pol mem body loc pos = some size) :
    size = unitLen pol mem body loc pos := by
  cases pol with
  | short => cases h
  | large => exact (Option.some.inj h).symm

/-- The hash depends on the hash part of the header. -/
theorem hashAt_moved (h : ∀ a, a < haSize pol → mem' (ha' + a) = mem (ha + a)) :
    hashAt pol mem' loc ha' = hashAt pol mem loc ha := by
  cases pol with
  | short =>
    have h0 := getLe_moved (n := 8) 0 (by decide) h
    have h8 := getLe_moved (n := 8) 8 (by decide) h
    show Key.buildFilename loc 0 _ _ = Key.buildFilename loc 0 _ _
    exact congr_arg₂ (Key.buildFilename loc 0) h0 h8
  | large =>
    have h0 := getLe_moved (n := 8) 0 (by decide) h
    have h8 := getLe_moved (n := 8) 8 (by decide) h
    have h16 := getLe_moved (n := 8) 16 (by decide) h
    show Key.buildFilename loc _ _ _ = Key.buildFilename loc _ _ _
    rw [show haGetOrdering .large mem' ha' = haGetOrdering .large mem ha from congrArg some h0,
      show haGetObjectid .large mem' ha' = haGetObjectid .large mem ha from h8,
      show haGetOffset .large mem' ha' = haGetOffset .large mem ha from h16]

/-- The object depends on the first bytes of the body. -/
theorem objAt_moved (h : ∀ a, a < obSize pol → mem' (ob' + a) = mem (ob + a)) :
    objAt pol mem' ob' = objAt pol mem ob := by
  cases pol with
  | short =>
    have h0 := getLe_moved (n := 8) 0 (by decide) h
    have h8 := getLe_moved (n := 8) 8 (by decide) h
    show Key.mk (mem'.getLe 8 (ob' + 0)) 0 _ 0 = _
    rw [h0, h8]
    rfl
  | large =>
    have h0 := getLe_moved (n := 8) 0 (by decide) h
    have h8 := getLe_moved (n := 8) 8 (by decide) h
    have h16 := getLe_moved (n := 8) 16 (by decide) h
    show Key.mk (mem'.getLe 8 (ob' + 0)) _ _ 0 = _
    rw [h0, h8, h16]
    rfl

theorem obSize_le_unitSize : obSize pol ≤ unitSize pol e := by
  unfold unitSize
  split <;> omega

theorem obSize_pos : 0 < obSize pol := by
  cases pol <;> decide

/-- An entry depends on the hash part of its header and on its body. -/
theorem EntryAt.moved (he : EntryAt pol mem loc ha ob e)
    (hh : ∀ a, a < haSize pol → mem' (ha' + a) = mem (ha + a))
    (hb : ∀ a, a < unitSize pol e → mem' (ob' + a) = mem (ob + a)) :
    EntryAt pol mem' loc ha' ob' e where
  hash := (hashAt_moved hh).trans he.hash
  object := (objAt_moved fun a ha => hb a (Nat.lt_of_lt_of_le ha obSize_le_unitSize)).trans he.object
  packed := he.packed
  stored := by
    intro hhash
    obtain ⟨hstr, hzero, hlen⟩ := he.stored hhash
    refine ⟨hstr.congr fun i hi => ?_, hzero, hlen⟩
    have := hb (obSize pol + i) (by unfold unitSize; rw [if_pos hhash]; omega)
    rwa [← Nat.add_assoc, ← Nat.add_assoc] at this

/-- What an entry reads back as. -/
theorem EntryAt.name_eq (he : EntryAt pol mem loc ha ob e) : nameAt pol mem loc ha ob = e.name := by
  unfold nameAt
  rw [he.hash]
  by_cases hhash : e.offset.hashed pol = true
  · obtain ⟨hstr, hzero, hlen⟩ := he.stored hhash
    rw [if_pos hhash, hstr.cstr_eq hzero hlen]
  · rw [if_neg hhash, ← he.packed (by simpa using hhash)]

theorem EntryAt.len_eq (he : EntryAt pol mem loc ha ob e) : lenAt pol mem loc ha ob = unitSize pol e := by
  unfold lenAt unitSize
  rw [he.hash]
  by_cases hhash : e.offset.hashed pol = true
  · obtain ⟨hstr, hzero, hlen⟩ := he.stored hhash
    rw [if_pos hhash, if_pos hhash, hstr.cstr_eq hzero (Nat.lt_trans hlen (by decide))]
  · rw [if_neg hhash, if_neg hhash]

/-- What is read of an entry that fits in a block is what it holds. -/
theorem entryAt_read (hlen : lenAt pol mem loc ha ob ≤ maxBlksize) :
    EntryAt pol mem loc ha ob ⟨hashAt pol mem loc ha, objAt pol mem ob, nameAt pol mem loc ha ob⟩ where
  hash := rfl
  object := rfl
  packed := by
    intro hhash
    show nameAt pol mem loc ha ob = _
    unfold nameAt
    rw [if_neg (by simpa using hhash)]
  stored := by
    intro hhash
    show mem.HoldsStr _ (nameAt pol mem loc ha ob) ∧ 0 ∉ nameAt pol mem loc ha ob ∧ _
    unfold lenAt at hlen
    rw [if_pos hhash] at hlen
    have hshort : (mem.cstr two16 (ob + obSize pol)).length < maxBlksize := by omega
    have hstr := Bytes.holdsStr_cstr (n := two16) (Nat.lt_trans hshort (by decide))
    have heq : nameAt pol mem loc ha ob = mem.cstr two16 (ob + obSize pol) := by
      unfold nameAt
      rw [if_pos hhash]
      exact hstr.cstr_eq (Bytes.cstr_no_zero _ _ _) hshort
    rw [heq]
    exact ⟨hstr, Bytes.cstr_no_zero _ _ _, hshort⟩

/-! ## Chains of entries -/

@[simp] theorem bodies_nil : bodies pol [] = 0 := rfl

@[simp] theorem bodies_cons : bodies pol (e :: es) = unitSize pol e + bodies pol es := by
  simp [bodies]

@[simp] theorem bodies_append : bodies pol (es ++ fs) = bodies pol es + bodies pol fs := by
  simp [bodies]

theorem bodies_take_succ {i : Nat} (hi : i < es.length) : bodies pol (es.take (i + 1)) =
    bodies pol (es.take i) + unitSize pol (es.get ⟨i, hi⟩) := by
  rw [List.take_succ_eq_append_getElem hi, bodies_append, bodies_cons, bodies_nil, Nat.add_zero]
  rfl

theorem chain_append : ∀ {es : List EntryHint} {ha off : Nat},
    Chain pol mem body loc ha off (es ++ fs) ↔ Chain pol mem body loc ha off es ∧
      Chain pol mem body loc (ha + es.length * enSize pol) (off + bodies pol es) fs
  | [], ha, off => by
    simp [Chain]
  | e :: es, ha, off => by
    rw [List.cons_append, Chain, Chain, chain_append, bodies_cons, List.length_cons, Nat.succ_mul,
      ← Nat.add_assoc off, Nat.add_comm (es.length * enSize pol), ← Nat.add_assoc ha]
    simp only [and_assoc]

/-- A chain keeps its entries where the hash parts of the headers and the bodies are moved, and the
    offsets with the bodies. -/
theorem Chain.moved : ∀ {es : List EntryHint} {ha ha' off off' : Nat},
    Chain pol mem body loc ha off es →
    (∀ i, i < es.length → ∀ a, a < haSize pol →
      mem' (ha' + i * enSize pol + a) = mem (ha + i * enSize pol + a)) →
    (∀ i, i < es.length → enGetOffset pol mem' (ha' + i * enSize pol) + off =
      enGetOffset pol mem (ha + i * enSize pol) + off') →
    (∀ a, a < bodies pol es → mem' (body' + off' + a) = mem (body + off + a)) →
    Chain pol mem' body' loc ha' off' es
  | [], _, _, _, _, _, _, _, _ => trivial
  | e :: es, ha, ha', off, off', ⟨ho, he, hrest⟩, hhash, hoff, hbody => by
    refine ⟨?_, ?_, ?_⟩
    · have := hoff 0 (Nat.succ_pos _)
      rw [Nat.zero_mul, Nat.add_zero, Nat.add_zero, ho] at this
      omega
    · refine he.moved (fun a hlt => ?_) fun a hlt => ?_
      · have := hhash 0 (Nat.succ_pos _) a hlt
        rwa [Nat.zero_mul, Nat.add_zero, Nat.add_zero] at this
      · exact hbody a (by rw [bodies_cons]; omega)
    · refine Chain.moved hrest (fun i hi a hlt => ?_) (fun i hi => ?_) fun a hlt => ?_
      · have := hhash (i + 1) (Nat.succ_lt_succ hi) a hlt
        rwa [Nat.succ_mul, Nat.add_comm (i * _), ← Nat.add_assoc, ← Nat.add_assoc] at this
      · have := hoff (i + 1) (Nat.succ_lt_succ hi)
        rw [Nat.succ_mul, Nat.add_comm (i * _), ← Nat.add_assoc, ← Nat.add_assoc] at this
        omega
      · have := hbody (unitSize pol e + a) (by rw [bodies_cons]; omega)
        rwa [← Nat.add_assoc, ← Nat.add_assoc, Nat.add_assoc body', Nat.add_assoc body] at this

/-- What a chain says of its entry number `i`. -/
theorem Chain.at : ∀ {es : List EntryHint} {ha off : Nat}, Chain pol mem body loc ha off es →
    ∀ i (h : i < es.length),
      enGetOffset pol mem (ha + i * enSize pol) = off + bodies pol (es.take i) ∧
        EntryAt pol mem loc (ha + i * enSize pol) (body + (off + bodies pol (es.take i)))
          (es.get ⟨i, h⟩)
  | [], _, _, _, _, h => absurd h (Nat.not_lt_zero _)
  | e :: es, ha, off, ⟨ho, he, hrest⟩, 0, _ => by
    rw [Nat.zero_mul, List.take_zero, bodies_nil, Nat.add_zero, Nat.add_zero]
    exact ⟨ho, he⟩
  | e :: es, ha, off, ⟨ho, he, hrest⟩, i + 1, h => by
    have := hrest.at i (Nat.lt_of_succ_lt_succ h)
    rw [List.take_succ_cons, bodies_cons, Nat.succ_mul, Nat.add_comm (i * _), ← Nat.add_assoc,
      ← Nat.add_assoc off]
    exact this

end Read

/-! ## Well-formed items hold entries -/

section Items

variable {pol : KeyPol} {mem : Bytes} {body loc len : Nat} {es : List EntryHint}

namespace Holds

variable (h : Holds pol mem body loc es len)

include h

/-- The offset of an entry. -/
theorem offset_eq {i : Nat} (hi : i < es.length) : enGetOffset pol mem (entry pol body i) =
    2 + es.length * enSize pol + bodies pol (es.take i) :=
  (h.chain.at i hi).1

theorem entryAt {i : Nat} (hi : i < es.length) :
    EntryAt pol mem loc (entry pol body i) (objid pol mem body i) (es.get ⟨i, hi⟩) := by
  unfold objid
  rw [h.offset_eq hi]
  exact (h.chain.at i hi).2

theorem unitLen_eq {i : Nat} (hi : i < es.length) :
    unitLen pol mem body loc i = unitSize pol (es.get ⟨i, hi⟩) :=
  (h.entryAt hi).len_eq

/-- The entries that the bytes stand for are those the item holds. -/
theorem unitsAt_eq : unitsAt pol mem body loc 0 (getUnits mem body) = es := by
  rw [h.units]
  apply List.ext_getElem
  · simp [unitsAt]
  · intro i hi hi'
    have he := h.entryAt hi'
    simp only [unitsAt, List.getElem_map, List.getElem_range', Nat.zero_add, Nat.one_mul]
    show EntryHint.mk (hashAt pol mem loc (entry pol body i)) _ _ = _
    rw [he.hash, he.object, he.name_eq]
    rfl

/-- An item that holds entries is well formed. -/
theorem wf : WF pol mem body loc len where
  start := by
    intro hpos
    rw [h.units] at hpos ⊢
    rw [h.offset_eq hpos, List.take_zero, bodies_nil, Nat.add_zero]
  next := by
    intro i hi
    rw [h.units] at hi
    rw [h.offset_eq hi, h.offset_eq (Nat.lt_of_succ_lt hi), h.unitLen_eq (Nat.lt_of_succ_lt hi),
      bodies_take_succ (Nat.lt_of_succ_lt hi), ← Nat.add_assoc]
  last := by
    intro hpos
    rw [h.units] at hpos ⊢
    have hlast : es.length - 1 < es.length := by omega
    rw [h.offset_eq hlast, h.unitLen_eq hlast, Nat.add_assoc, ← bodies_take_succ hlast,
      Nat.sub_add_cancel hpos, List.take_length, ← h.length]
  empty := by
    intro h0
    rw [h.units] at h0
    have hnil := List.eq_nil_of_length_eq_zero h0
    rw [h.length, hnil, bodies_nil]
    simp
  size := h.size

/-- An item holds the same entries wherever its bytes are moved. -/
theorem moved {mem' : Bytes} {body' : Nat}
    (hbytes : ∀ a, a < len → mem' (body' + a) = mem (body + a)) :
    Holds pol mem' body' loc es len := by
  have hlen := h.length
  have hen : enSize pol = haSize pol + 2 := rfl
  have hin : ∀ i, i < es.length → i * enSize pol + enSize pol ≤ es.length * enSize pol := by
    intro i hi
    rw [← Nat.succ_mul]
    exact Nat.mul_le_mul_right _ hi
  refine ⟨?_, ?_, h.length, h.size⟩
  · rw [← h.units]
    exact Bytes.getLe_congr 2 _ _ _ _ fun a ha => hbytes a (by omega)
  · refine h.chain.moved (fun i hi a ha => ?_) (fun i hi => ?_) fun a ha => ?_
    · have := hin i hi
      have := hbytes (2 + i * enSize pol + a) (by omega)
      rwa [← Nat.add_assoc, ← Nat.add_assoc, ← Nat.add_assoc, ← Nat.add_assoc] at this
    · have := hin i hi
      have hkeep : enGetOffset pol mem' (body' + 2 + i * enSize pol) =
          enGetOffset pol mem (body + 2 + i * enSize pol) :=
        Bytes.getLe_congr 2 _ _ _ _ fun a ha => by
          have := hbytes (2 + i * enSize pol + haSize pol + a) (by omega)
          rwa [← Nat.add_assoc, ← Nat.add_assoc, ← Nat.add_assoc, ← Nat.add_assoc, ← Nat.add_assoc,
            ← Nat.add_assoc] at this
      rw [hkeep]
    · have := hbytes (2 + es.length * enSize pol + a) (by omega)
      rwa [← Nat.add_assoc body', ← Nat.add_assoc body] at this

end Holds

theorem unitsAt_succ (pos count : Nat) : unitsAt pol mem body loc pos (count + 1) =
    unitAt pol mem body loc pos :: unitsAt pol mem body loc (pos + 1) count := rfl

/-- In a well-formed item the offsets increase. -/
theorem WF.offset_lt (h : WF pol mem body loc len) : ∀ {i j : Nat}, i < j → j < getUnits mem body →
    enGetOffset pol mem (entry pol body i) < enGetOffset pol mem (entry pol body j) := by
  intro i j hij
  have hpos : 0 < unitLen pol mem body loc i := by
    unfold unitLen lenAt
    have := @obSize_pos pol
    split <;> omega
  induction j with
  | zero => omega
  | succ j ih =>
    intro hj
    have hnext := h.next j hj
    by_cases heq : i = j
    · subst heq
      omega
    · have := ih (by omega) (by omega)
      omega

/-- The chain of the entries from `i` on, built from the last one. -/
theorem WF.chain (h : WF pol mem body loc len) : ∀ (n i : Nat), i + n + 1 = getUnits mem body →
    Chain pol mem body loc (entry pol body i) (enGetOffset pol mem (entry pol body i))
        (unitsAt pol mem body loc i (n + 1)) ∧
      enGetOffset pol mem (entry pol body i) +
        bodies pol (unitsAt pol mem body loc i (n + 1)) = len := by
  -- an entry that ends inside the item is read as what it holds
  have hread : ∀ i, enGetOffset pol mem (entry pol body i) + unitLen pol mem body loc i ≤ len →
      EntryAt pol mem loc (entry pol body i) (objid pol mem body i) (unitAt pol mem body loc i) ∧
        unitLen pol mem body loc i = unitSize pol (unitAt pol mem body loc i) := by
    intro i hle
    have hsize := h.size
    have he := @entryAt_read pol mem loc (entry pol body i) (objid pol mem body i)
      (show unitLen pol mem body loc i ≤ maxBlksize by omega)
    exact ⟨he, he.len_eq⟩
  intro n
  induction n with
  | zero =>
    intro i hi
    have hlast := h.last (by omega)
    rw [show getUnits mem body - 1 = i by omega] at hlast
    obtain ⟨he, hlen⟩ := hread i (Nat.le_of_eq hlast)
    refine ⟨⟨rfl, he, trivial⟩, ?_⟩
    rw [unitsAt_succ, bodies_cons, ← hlen]
    exact hlast
  | succ n ih =>
    intro i hi
    obtain ⟨hchain, hsum⟩ := ih (i + 1) (by omega)
    have hnext := h.next i (by omega)
    obtain ⟨he, hlen⟩ := hread i (by omega)
    refine ⟨?_, ?_⟩
    · rw [unitsAt_succ]
      refine ⟨rfl, he, ?_⟩
      rw [← hlen, ← hnext]
      have hentry : entry pol body i + enSize pol = entry pol body (i + 1) := by
        unfold entry
        rw [Nat.succ_mul, ← Nat.add_assoc]
      rw [hentry]
      exact hchain
    · rw [unitsAt_succ, bodies_cons, ← hlen, ← Nat.add_assoc, ← hnext]
      exact hsum

/-- **A well-formed item holds the entries that are read of it.** -/
theorem WF.holds (h : WF pol mem body loc len) :
    Holds pol mem body loc (unitsAt pol mem body loc 0 (getUnits mem body)) len := by
  have hcount : (unitsAt pol mem body loc 0 (getUnits mem body)).length = getUnits mem body := by
    simp [unitsAt]
  cases hn : getUnits mem body with
  | zero =>
    refine ⟨hn, trivial, ?_, h.size⟩
    rw [h.empty hn]
    simp [unitsAt]
  | succ n =>
    obtain ⟨hchain, hsum⟩ := h.chain n 0 (by omega)
    have hstart := h.start (by omega)
    rw [hn] at hcount hstart
    refine ⟨by rw [hcount, hn], ?_, ?_, h.size⟩
    · rw [hcount, ← hstart]
      show Chain pol mem body loc (body + 2) _ _
      rw [show body + 2 = entry pol body 0 by simp [entry]]
      exact hchain
    · rw [hcount, ← hstart, hsum]

end Items

end Cde40

end Reiser4
