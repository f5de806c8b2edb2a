/-
  Editing a directory item (`cde40_prep_insert`, `cde40_insert_units`, `cde40_remove_units`).

    1. `putEntries_chain`   the loop over the new entries writes them as a chain, in the room made by
                            `cde40_expand` and nowhere else;
    2. `insert_ok`, `remove_ok`   one edit that comes to an end: the entries, the key and the length;
    3. `apply_some`, `apply_short`   when it does: with short keys it reads a hash and faults;
    4. `edits_law`   any sequence of edits.
-/
import Reiser4.Cde40.Expand

namespace Reiser4

open Reiser4.Lib

namespace Cde40

/-- The part of `reiser4_place_t` that belongs to a directory item, with the memory of its node. -/
structure Place where
  mem : Bytes
  body : Nat
  len : Nat
  key : Key
  unit : Nat

/-- The part of `trans_hint_t` that is used here. -/
structure TransHint where
  specific : List EntryHint
  count : Nat
  len : Nat
  bytes : Nat
  overhead : Nat
  deriving DecidableEq, Repr

variable (pol : KeyPol)

/-- `cde40_overhead`: the number of units. -/
def overhead : Nat := 2

/-- `cde40_prep_insert`. -/
def prepInsert (hint : TransHint) : TransHint :=
  let len := (hint.specific.take hint.count).foldl (fun len e =>
    if e.offset.hashed pol then len + obSize pol + (e.name.length + 1) else len + obSize pol)
    (hint.count * enSize pol)
  { hint with len := len, bytes := len, overhead := overhead }

/-- The hash fields of a new header. -/
def setHash (mem : Bytes) (en : Nat) (hash : Key) : Bytes :=
  let mem := haSetOrdering pol mem en hash.ordering
  let mem := haSetObjectid pol mem en hash.el2
  haSetOffset pol mem en hash.offset

/-- The first `ob_size` bytes of the key of the object, copied to the body. -/
def putObject (mem : Bytes) (objid : Nat) (object : Key) : Bytes :=
  match pol with
  | .short => (mem.setLe 8 objid object.el0).setLe 8 (objid + 8) object.el2
  | .large => ((mem.setLe 8 objid object.el0).setLe 8 (objid + 8) object.ordering).setLe 8
      (objid + 16) object.el2

/-- One round of the loop over the new entries: the memory and the offset of the next body. -/
def putEntry (mem : Bytes) (body en offset : Nat) (e : EntryHint) : Bytes × Nat :=
  let objid := body + offset
  let mem := enSetOffset pol mem en offset
  let mem := setHash pol mem en e.offset
  let mem := putObject pol mem objid e.object
  let offset := offset + obSize pol
  if e.offset.hashed pol then
    let len := e.name.length
    let mem := mem.putStr (body + offset) e.name
    let offset := offset + len
    (mem.fill (body + offset) 1 0, offset + 1)
  else (mem, offset)

/-- The loop over the new entries. -/
def putEntries (body : Nat) : List EntryHint → Bytes → Nat → Nat → Bytes
  | [], mem, _, _ => mem
  | e :: es, mem, en, offset =>
    let r := putEntry pol mem body en offset e
    putEntries body es r.1 (en + enSize pol) r.2

/-- `cde40_insert_units`. -/
def insertUnits (place : Place) (hint : TransHint) : Option Place := do
  let place :=
    if place.unit = maxUint32 then { place with mem := setUnits place.mem place.body 0, unit := 0 }
    else place
  let r ← expand pol place.mem place.body place.key.getLocality place.unit hint.count hint.len
  let mem := putEntries pol place.body (hint.specific.take hint.count) r.1
    (entry pol place.body place.unit) r.2
  let mem := setUnits mem place.body (getUnits mem place.body + hint.count)
  let key ← (if place.unit = 0 then getHash pol mem place.body place.key.getLocality 0
    else some place.key)
  some { place with mem := mem, key := key }

/-- `cde40_delete`, which is `cde40_remove_units` at the position of the place. -/
def removeUnits (place : Place) (hint : TransHint) : Option (Place × TransHint) := do
  let r ← shrink pol place.mem place.body place.key.getLocality place.unit (u32 hint.count)
  let units := getUnits r.1 place.body
  let key ← (if place.unit = 0 ∧ 0 < units then getHash pol r.1 place.body place.key.getLocality 0
    else some place.key)
  some ({ place with mem := r.1, key := key },
    { hint with len := r.2, bytes := r.2, overhead := if units = 0 then overhead else 0 })

/-! ## The new entries -/

section Put

variable {pol : KeyPol} {mem : Bytes} {body loc en offset : Nat} {e : EntryHint} {es : List EntryHint}

theorem setHash_out (hash : Key) (a : Nat) (h : a < en ∨ en + haSize pol ≤ a) :
    setHash pol mem en hash a = mem a := by
  cases pol with
  | short =>
    have hsize : haSize .short = 16 := rfl
    show ((mem.setLe 8 en _).setLe 8 (en + 8) _) a = mem a
    rw [Bytes.setLe_out _ _ _ _ _ (by omega), Bytes.setLe_out _ _ _ _ _ (by omega)]
  | large =>
    have hsize : haSize .large = 24 := rfl
    show (((mem.setLe 8 en _).setLe 8 (en + 8) _).setLe 8 (en + 16) _) a = mem a
    rw [Bytes.setLe_out _ _ _ _ _ (by omega), Bytes.setLe_out _ _ _ _ _ (by omega),
      Bytes.setLe_out _ _ _ _ _ (by omega)]

/-- A number that fits its field reads back, also when a later field has been written. -/
theorem getLe8_set {o v : Nat} (hv : v < two64) : (mem.setLe 8 o v).getLe 8 o = v :=
  Bytes.getLe_setLe_of_lt 8 _ _ _ hv

theorem getLe8_other {o o' v : Nat} (h : o + 8 ≤ o' ∨ o' + 8 ≤ o) :
    (mem.setLe 8 o' v).getLe 8 o = mem.getLe 8 o :=
  Bytes.getLe_setLe_disj 8 8 _ _ _ _ h

/-- The hash of a new entry reads back. -/
theorem hashAt_setHash (hfit : e.offset.Fits pol)
    (hhere : e.offset = Key.buildFilename loc e.offset.ordering e.offset.el2 e.offset.offset) :
    hashAt pol (setHash pol mem en e.offset) loc en = e.offset := by
  refine Eq.trans ?_ hhere.symm
  cases pol with
  | short =>
    show Key.buildFilename loc 0 (((mem.setLe 8 en _).setLe 8 (en + 8) _).getLe 8 en)
      (((mem.setLe 8 en _).setLe 8 (en + 8) _).getLe 8 (en + 8)) = Key.buildFilename loc _ _ _
    rw [getLe8_other (Or.inl (Nat.le_refl _)), getLe8_set hfit.el2, getLe8_set hfit.offset,
      hfit.short rfl]
  | large =>
    show Key.buildFilename loc
      ((((mem.setLe 8 en _).setLe 8 (en + 8) _).setLe 8 (en + 16) _).getLe 8 en)
      ((((mem.setLe 8 en _).setLe 8 (en + 8) _).setLe 8 (en + 16) _).getLe 8 (en + 8))
      ((((mem.setLe 8 en _).setLe 8 (en + 8) _).setLe 8 (en + 16) _).getLe 8 (en + 16)) =
        Key.buildFilename loc _ _ _
    rw [getLe8_other (Or.inl (by omega)), getLe8_other (Or.inl (Nat.le_refl _)),
      getLe8_set hfit.ordering, getLe8_other (Or.inl (by omega)), getLe8_set hfit.el2,
      getLe8_set hfit.offset]

theorem putObject_out (object : Key) (o a : Nat) (h : a < o ∨ o + obSize pol ≤ a) :
    putObject pol mem o object a = mem a := by
  cases pol with
  | short =>
    have hsize : obSize .short = 16 := rfl
    show ((mem.setLe 8 o _).setLe 8 (o + 8) _) a = mem a
    rw [Bytes.setLe_out _ _ _ _ _ (by omega), Bytes.setLe_out _ _ _ _ _ (by omega)]
  | large =>
    have hsize : obSize .large = 24 := rfl
    show (((mem.setLe 8 o _).setLe 8 (o + 8) _).setLe 8 (o + 16) _) a = mem a
    rw [Bytes.setLe_out _ _ _ _ _ (by omega), Bytes.setLe_out _ _ _ _ _ (by omega),
      Bytes.setLe_out _ _ _ _ _ (by omega)]

/-- The object of a new entry reads back: the key of a stat data has offset 0. -/
theorem objAt_putObject {o : Nat} {object : Key} (hfit : object.Fits pol) (hoff : object.offset = 0) :
    objAt pol (putObject pol mem o object) o = object := by
  obtain ⟨el0, ordering, el2, off⟩ := object
  subst hoff
  cases pol with
  | short =>
    have hord : ordering = 0 := hfit.short rfl
    show Key.mk (((mem.setLe 8 o _).setLe 8 (o + 8) _).getLe 8 o) 0
      (((mem.setLe 8 o _).setLe 8 (o + 8) _).getLe 8 (o + 8)) 0 = _
    rw [getLe8_other (Or.inl (Nat.le_refl _)), getLe8_set hfit.el0, getLe8_set hfit.el2, hord]
  | large =>
    show Key.mk ((((mem.setLe 8 o _).setLe 8 (o + 8) _).setLe 8 (o + 16) _).getLe 8 o)
      ((((mem.setLe 8 o _).setLe 8 (o + 8) _).setLe 8 (o + 16) _).getLe 8 (o + 8))
      ((((mem.setLe 8 o _).setLe 8 (o + 8) _).setLe 8 (o + 16) _).getLe 8 (o + 16)) 0 = _
    rw [getLe8_other (Or.inl (by omega)), getLe8_other (Or.inl (Nat.le_refl _)),
      getLe8_set hfit.el0, getLe8_other (Or.inl (by omega)), getLe8_set hfit.ordering,
      getLe8_set hfit.el2]

/-- The body of a new entry. -/
def putBody (pol : KeyPol) (mem : Bytes) (o : Nat) (e : EntryHint) : Bytes :=
  if e.offset.hashed pol then
    ((putObject pol mem o e.object).putStr (o + obSize pol) e.name).fill
      (o + obSize pol + e.name.length) 1 0
  else putObject pol mem o e.object

/-- One round writes a header and a body, and goes on behind the body. -/
theorem putEntry_eq : putEntry pol mem body en offset e =
    (putBody pol (setHash pol (enSetOffset pol mem en offset) en e.offset) (body + offset) e,
      offset + unitSize pol e) := by
  unfold putEntry putBody unitSize
  dsimp only
  split
  · simp only [Nat.add_assoc]
  · rfl

theorem putBody_out (o a : Nat) (h : a < o ∨ o + unitSize pol e ≤ a) :
    putBody pol mem o e a = mem a := by
  unfold putBody
  unfold unitSize at h
  by_cases hhash : e.offset.hashed pol = true
  · rw [if_pos hhash] at h ⊢
    rw [Bytes.fill_out _ _ _ _ _ (by omega), Bytes.putStr_out _ _ _ _ (by omega),
      putObject_out _ _ _ (by omega)]
  · rw [if_neg hhash] at h ⊢
    exact putObject_out _ _ _ h

/-- A new entry is where it was put. -/
theorem putEntry_at (hfit : Fits pol loc e) (hapart : en + enSize pol ≤ body + offset)
    (hoff : offset + unitSize pol e ≤ maxBlksize) :
    enGetOffset pol (putEntry pol mem body en offset e).1 en = offset ∧
      EntryAt pol (putEntry pol mem body en offset e).1 loc en (body + offset) e := by
  have hen : enSize pol = haSize pol + 2 := rfl
  have hblk := maxBlksize_eq
  rw [putEntry_eq]
  -- the body is behind the header
  have hheader : ∀ a, a < en + enSize pol →
      putBody pol (setHash pol (enSetOffset pol mem en offset) en e.offset) (body + offset) e a =
        setHash pol (enSetOffset pol mem en offset) en e.offset a :=
    fun a ha => putBody_out _ _ (Or.inl (by omega))
  refine ⟨?_, ?_, ?_, hfit.packed, fun hhash => ⟨⟨fun i hi => ?_, ?_⟩, hfit.stored hhash, ?_⟩⟩
  · have hkeep : enGetOffset pol
        (putBody pol (setHash pol (enSetOffset pol mem en offset) en e.offset) (body + offset) e) en =
        enGetOffset pol (enSetOffset pol mem en offset) en :=
      Bytes.getLe_congr 2 _ _ _ _ fun a ha => by
        rw [hheader _ (by omega), setHash_out _ _ (Or.inr (by omega))]
    show enGetOffset pol (putBody pol _ _ e) en = offset
    rw [hkeep, enGetOffset_set]
    exact Nat.mod_eq_of_lt (by unfold two16; omega)
  · refine (hashAt_moved fun a ha => hheader _ (by omega)).trans ?_
    exact hashAt_setHash hfit.offset hfit.here
  · have hobject := @objAt_putObject pol (setHash pol (enSetOffset pol mem en offset) en e.offset)
      (body + offset) e.object hfit.object hfit.statdata
    rw [← hobject]
    refine objAt_moved fun a ha => ?_
    show putBody pol _ _ e _ = _
    unfold putBody
    split
    · rw [Bytes.fill_out _ _ _ _ _ (by omega), Bytes.putStr_out _ _ _ _ (by omega)]
    · rfl
  · show putBody pol _ _ e _ = _
    unfold putBody
    rw [if_pos hhash, Bytes.fill_out _ _ _ _ _ (by omega), Bytes.putStr_in _ _ _ _ hi]
  · show putBody pol _ _ e _ = _
    unfold putBody
    rw [if_pos hhash, Bytes.fill_in _ _ _ _ _ (Nat.le_refl _) (by omega)]
  · unfold unitSize at hoff
    rw [if_pos hhash] at hoff
    have := @obSize_pos pol
    omega

theorem putEntry_out (a : Nat) (hheader : a < en ∨ en + enSize pol ≤ a)
    (hbody : a < body + offset ∨ body + offset + unitSize pol e ≤ a) :
    (putEntry pol mem body en offset e).1 a = mem a := by
  have hen : enSize pol = haSize pol + 2 := rfl
  rw [putEntry_eq]
  show putBody pol _ _ e a = mem a
  rw [putBody_out _ _ hbody, setHash_out _ _ (by omega), enSetOffset_out _ _ _ _ (by omega)]

theorem putEntries_out : ∀ (es : List EntryHint) {mem : Bytes} {en offset : Nat} (a : Nat),
    a < en ∨ en + es.length * enSize pol ≤ a →
    a < body + offset ∨ body + offset + bodies pol es ≤ a →
    putEntries pol body es mem en offset a = mem a
  | [], _, _, _, _, _, _ => rfl
  | e :: es, mem, en, offset, a, hheader, hbody => by
    rw [List.length_cons, Nat.succ_mul] at hheader
    rw [bodies_cons] at hbody
    show putEntries pol body es (putEntry pol mem body en offset e).1 (en + enSize pol)
      (putEntry pol mem body en offset e).2 a = mem a
    rw [putEntries_out es a (by omega) (by rw [putEntry_eq]; omega),
      putEntry_out a (by omega) (by omega)]

/-- **The new entries are a chain**, if their bodies go behind their headers. -/
theorem putEntries_chain : ∀ (es : List EntryHint) {mem : Bytes} {en offset : Nat},
    (∀ e ∈ es, Fits pol loc e) → en + es.length * enSize pol ≤ body + offset →
    offset + bodies pol es ≤ maxBlksize →
    Chain pol (putEntries pol body es mem en offset) body loc en offset es
  | [], _, _, _, _, _, _ => trivial
  | e :: es, mem, en, offset, hfit, hapart, hoff => by
    rw [List.length_cons, Nat.succ_mul] at hapart
    rw [bodies_cons] at hoff
    obtain ⟨hoffset, hentry⟩ := @putEntry_at pol mem body loc en offset e
      (hfit e List.mem_cons_self) (by omega) (by omega)
    have hnext : (putEntry pol mem body en offset e).2 = offset + unitSize pol e := by
      rw [putEntry_eq]
    -- the later rounds write behind this header and behind this body
    have hlater : ∀ a, a < en + enSize pol ∨ (body + offset ≤ a ∧ a < body + offset + unitSize pol e) →
        putEntries pol body (e :: es) mem en offset a = (putEntry pol mem body en offset e).1 a := by
      intro a ha
      refine putEntries_out es a ?_ ?_
      · omega
      · rw [hnext]
        omega
    have hen : enSize pol = haSize pol + 2 := rfl
    refine ⟨?_, ?_, ?_⟩
    · refine Eq.trans ?_ hoffset
      exact Bytes.getLe_congr 2 _ _ _ _ fun a ha => hlater _ (Or.inl (by omega))
    · exact hentry.moved (fun a ha => hlater _ (Or.inl (by omega)))
        fun a ha => hlater _ (Or.inr (by omega))
    · have ih := @putEntries_chain es (putEntry pol mem body en offset e).1 (en + enSize pol)
        (offset + unitSize pol e) (fun x hx => hfit x (List.mem_cons_of_mem _ hx)) (by omega) (by omega)
      show Chain pol (putEntries pol body es _ _ (putEntry pol mem body en offset e).2) _ _ _ _ _
      rw [hnext]
      exact ih

end Put

/-! ## Insertion -/

section Insert

variable {pol : KeyPol} {mem mem' : Bytes} {body loc len pos : Nat} {es new : List EntryHint}

/-- A chain stays where its headers and its bodies are left alone. -/
theorem Chain.kept {ha off : Nat} (h : Chain pol mem body loc ha off es)
    (hheader : ∀ a, ha ≤ a → a < ha + es.length * enSize pol → mem' a = mem a)
    (hbody : ∀ a, body + off ≤ a → a < body + off + bodies pol es → mem' a = mem a) :
    Chain pol mem' body loc ha off es := by
  have hen : enSize pol = haSize pol + 2 := rfl
  have hin : ∀ i, i < es.length → i * enSize pol + enSize pol ≤ es.length * enSize pol := by
    intro i hi
    rw [← Nat.succ_mul]
    exact Nat.mul_le_mul_right _ hi
  refine h.moved (fun i hi a ha => ?_) (fun i hi => ?_) fun a ha => hbody _ (by omega) (by omega)
  · have := hin i hi
    exact hheader _ (by omega) (by omega)
  · have := hin i hi
    have hkeep : enGetOffset pol mem' (ha + i * enSize pol) = enGetOffset pol mem (ha + i * enSize pol) :=
      Bytes.getLe_congr 2 _ _ _ _ fun a ha => hheader _ (by omega) (by omega)
    rw [hkeep]

/-- `cde40_prep_insert` asks for what the entries take. -/
theorem prepInsert_len (hint : TransHint) (hcount : hint.count = hint.specific.length) :
    (prepInsert pol hint).len = took pol hint.specific := by
  have hfold : ∀ (es : List EntryHint) (len : Nat), es.foldl (fun len e =>
      if e.offset.hashed pol then len + obSize pol + (e.name.length + 1) else len + obSize pol) len =
      len + bodies pol es := by
    intro es
    induction es with
    | nil => exact fun len => rfl
    | cons e es ih =>
      intro len
      rw [List.foldl_cons, ih, bodies_cons]
      unfold unitSize
      by_cases hhash : e.offset.hashed pol = true
      · rw [if_pos hhash, if_pos hhash]
        omega
      · rw [if_neg hhash, if_neg hhash]
        omega
  unfold prepInsert
  dsimp only
  rw [hfold, hcount, List.take_length]
  rfl

/-- The bytes of `cde40_insert_units` when the room is made and the entries are put in it. -/
def insertBytes (pol : KeyPol) (body pos : Nat) (new : List EntryHint) (r : Bytes × Nat) : Bytes :=
  let m := putEntries pol body new r.1 (entry pol body pos) r.2
  setUnits m body (getUnits m body + new.length)

/-- **An insertion puts the new entries at the position**, and writes nothing behind the item. -/
theorem Holds.insert_holds (h : Holds pol mem body loc es len) (hpos : pos ≤ es.length)
    (hfit : ∀ e ∈ new, Fits pol loc e) (hsize : len + took pol new ≤ maxBlksize) {r : Bytes × Nat}
    (hr : expand pol mem body loc pos new.length (took pol new) = some r) :
    Holds pol (insertBytes pol body pos new r) body loc (es.take pos ++ (new ++ es.drop pos))
        (len + took pol new) ∧
      ∀ a, a < body ∨ body + len + took pol new ≤ a →
        insertBytes pol body pos new r a = mem a := by
  have htook : took pol new = new.length * enSize pol + bodies pol new := rfl
  have hroom := h.expand_room hpos (by omega : new.length * enSize pol ≤ took pol new) hsize hr
  have hlen := h.length
  have hblk := maxBlksize_eq
  have h16 := two16_eq
  have hen : enSize pol = haSize pol + 2 := rfl
  have hparts := @bodies_take_add_drop pol es pos
  have hadd := @entry_add pol body pos new.length
  have hzero : body + 2 ≤ entry pol body pos := Nat.le_add_right _ _
  have hnn : (es.length + new.length) * enSize pol =
      es.length * enSize pol + new.length * enSize pol := Nat.add_mul _ _ _
  have htop : entry pol body (pos + new.length) + (es.length - pos) * enSize pol =
      body + 2 + (es.length + new.length) * enSize pol := by
    rw [← entry_add, show pos + new.length + (es.length - pos) = es.length + new.length by omega]
    rfl
  have hnew : (es.take pos ++ (new ++ es.drop pos)).length = es.length + new.length := by
    rw [List.length_append, List.length_append, List.length_take, List.length_drop]
    omega
  have hentries : es.length + new.length ≤ (es.length + new.length) * enSize pol :=
    Nat.le_mul_of_pos_right _ (by omega)
  have hoffset : r.2 = 2 + (es.length + new.length) * enSize pol + bodies pol (es.take pos) := by
    rw [h.expand_eq hpos hr]
    dsimp only
    omega
  have hbytes : insertBytes pol body pos new r =
      setUnits (putEntries pol body new r.1 (entry pol body pos) r.2) body
        (getUnits (putEntries pol body new r.1 (entry pol body pos) r.2) body + new.length) := rfl
  rw [hbytes, hoffset]
  have hput := @putEntries_out pol body new r.1 (entry pol body pos)
    (2 + (es.length + new.length) * enSize pol + bodies pol (es.take pos))
  have hchain := @putEntries_chain pol body loc new r.1 (entry pol body pos)
    (2 + (es.length + new.length) * enSize pol + bodies pol (es.take pos)) hfit (by omega) (by omega)
  generalize putEntries pol body new r.1 (entry pol body pos)
    (2 + (es.length + new.length) * enSize pol + bodies pol (es.take pos)) = m at *
  have hunits : getUnits m body = es.length := by
    rw [← hroom.units]
    exact Bytes.getLe_congr 2 _ _ _ _ fun a ha => hput _ (Or.inl (by omega)) (Or.inl (by omega))
  refine ⟨⟨?_, ?_, ?_, by omega⟩, fun a ha => ?_⟩
  · rw [getUnits_set, hunits, hnew, Nat.mod_eq_of_lt (by omega)]
  · refine Chain.setUnits ?_ _ (Nat.le_refl _) (Nat.le_add_right _ _)
    rw [hnew, chain_append, chain_append, List.length_take, Nat.min_eq_left hpos]
    refine ⟨?_, hchain, ?_⟩
    · refine hroom.front.kept (fun a hlo hhi => ?_) fun a hlo hhi => ?_
      · rw [List.length_take, Nat.min_eq_left hpos] at hhi
        have : entry pol body pos = body + 2 + pos * enSize pol := rfl
        have hle : pos * enSize pol ≤ es.length * enSize pol := Nat.mul_le_mul_right _ hpos
        exact hput a (Or.inl (by omega)) (Or.inl (by omega))
      · exact hput a (Or.inr (by omega)) (Or.inl (by omega))
    · have hback := hroom.back
      rw [hadd, show 2 + es.length * enSize pol + bodies pol (es.take pos) + took pol new =
        2 + (es.length + new.length) * enSize pol + bodies pol (es.take pos) + bodies pol new by
          omega] at hback
      refine hback.kept (fun a hlo hhi => ?_) fun a hlo hhi => ?_
      · rw [List.length_drop] at hhi
        exact hput a (Or.inr (by omega)) (Or.inl (by omega))
      · exact hput a (Or.inr (by omega)) (Or.inr (by omega))
  · rw [hnew, bodies_append, bodies_append]
    omega
  · rw [setUnits_out _ _ _ (by omega), hput a (by omega) (by omega), hroom.frame a (by omega)]

end Insert

/-! ## Edits -/

namespace Place

variable (pol : KeyPol) (p : Place)

/-- The number of entries. -/
def units : Nat := getUnits p.mem p.body

/-- The entries. -/
def entries : List EntryHint := unitsAt pol p.mem p.body p.key.getLocality 0 p.units

/-- A well-formed item whose key is the key of its first entry. -/
structure WF : Prop where
  item : Cde40.WF pol p.mem p.body p.key.getLocality p.len
  key : 0 < p.units → p.key = unitHash pol p.mem p.body p.key.getLocality 0

end Place

/-- A change of the item: the first entries of a new item (the position is the item, not a unit), new
    entries at a position, or `count` entries from a position on. -/
inductive Edit
  | create (es : List EntryHint)
  | insert (unit : Nat) (es : List EntryHint)
  | remove (unit count : Nat)

namespace Edit

/-- The hint of an insertion, prepared by `cde40_prep_insert`. -/
def hint (pol : KeyPol) (es : List EntryHint) : TransHint := prepInsert pol ⟨es, es.length, 0, 0, 0⟩

/-- The place and the hint of a removal, as `cde40_remove_units` leaves them. -/
def removed (pol : KeyPol) (p : Place) (unit count : Nat) : Option (Place × TransHint) :=
  removeUnits pol { p with unit := unit } ⟨[], count, 0, 0, 0⟩

/-- The item after the edit, with the room the node gave for it and the bytes the node took back, if
    the edit comes to its end. -/
def apply (pol : KeyPol) (p : Place) : Edit → Option Place
  | create es =>
    (insertUnits pol { p with unit := maxUint32 } (hint pol es)).map fun q =>
      { q with len := (hint pol es).overhead + (hint pol es).len }
  | insert unit es =>
    (insertUnits pol { p with unit := unit } (hint pol es)).map fun q =>
      { q with len := p.len + (hint pol es).len }
  | remove unit count =>
    (removed pol p unit count).map fun r => { r.1 with len := p.len - r.2.len }

/-- The edit is one of this item: there are entries to insert, they fit the directory and the block, and
    the position is one of the item. -/
def Allowed (pol : KeyPol) (p : Place) : Edit → Prop
  | create es => es ≠ [] ∧ (∀ e ∈ es, Fits pol p.key.getLocality e) ∧ 2 + took pol es ≤ maxBlksize
  | insert unit es => unit ≤ p.units ∧ es ≠ [] ∧ (∀ e ∈ es, Fits pol p.key.getLocality e) ∧
      p.len + took pol es ≤ maxBlksize
  | remove unit count => unit < p.units ∧ unit + count < two32

/-- What the edit is for. -/
def list : Edit → List EntryHint → List EntryHint
  | create es, _ => es
  | insert unit es, old => old.take unit ++ (es ++ old.drop unit)
  | remove unit count, old => old.take unit ++ old.drop (unit + count)

end Edit

section Edits

variable {pol : KeyPol} {p : Place} {es : List EntryHint}

theorem getLocality_unitHash (mem : Bytes) (body loc pos : Nat) :
    (unitHash pol mem body loc pos).getLocality = loc := by
  show (loc * 16 + 0) / 16 = loc
  omega

/-- The item of a place holds the entries that are read of it. -/
theorem Place.WF.holds (h : p.WF pol) :
    Holds pol p.mem p.body p.key.getLocality (p.entries pol) p.len := h.item.holds

theorem Place.WF.length_entries (h : p.WF pol) : (p.entries pol).length = p.units :=
  h.holds.units.symm

/-- A place is well formed when its item holds entries and its key is that of the first one. -/
theorem Place.wf_of_holds (h : Holds pol p.mem p.body p.key.getLocality es p.len)
    (hkey : 0 < p.units → p.key = unitHash pol p.mem p.body p.key.getLocality 0) :
    p.WF pol ∧ p.entries pol = es :=
  ⟨⟨h.wf, hkey⟩, h.unitsAt_eq⟩

/-- The key of the first entry is on its header. -/
theorem unitHash_zero_kept {mem mem' : Bytes} {body loc len len' : Nat} {e : EntryHint}
    {fs fs' : List EntryHint} (h : Holds pol mem body loc (e :: fs) len)
    (h' : Holds pol mem' body loc (e :: fs') len') :
    unitHash pol mem' body loc 0 = unitHash pol mem body loc 0 := by
  have hold := (h.entryAt (Nat.succ_pos _)).hash
  have hnew := (h'.entryAt (Nat.succ_pos _)).hash
  exact hnew.trans hold.symm

theorem hint_count (es : List EntryHint) : (Edit.hint pol es).count = es.length := rfl

theorem hint_specific (es : List EntryHint) : (Edit.hint pol es).specific = es := rfl

theorem hint_len (es : List EntryHint) : (Edit.hint pol es).len = took pol es :=
  prepInsert_len _ rfl

/-- What `cde40_insert_units` leaves at a unit, with a prepared hint. -/
theorem insertUnits_eq (hunit : p.unit ≠ maxUint32) {q : Place}
    (hq : insertUnits pol p (Edit.hint pol es) = some q) : ∃ r,
      expand pol p.mem p.body p.key.getLocality p.unit es.length (took pol es) = some r ∧
      q = { p with
        mem := insertBytes pol p.body p.unit es r
        key :=
          if p.unit = 0 then
            unitHash pol (insertBytes pol p.body p.unit es r) p.body p.key.getLocality 0
          else p.key } := by
  unfold insertUnits at hq
  dsimp only at hq
  rw [if_neg hunit, hint_count, hint_specific, hint_len, List.take_length] at hq
  obtain ⟨r, hr, hq⟩ := Option.bind_eq_some_iff.mp hq
  obtain ⟨key, hkey, hq⟩ := Option.bind_eq_some_iff.mp hq
  refine ⟨r, hr, ?_⟩
  rw [← Option.some.inj hq]
  by_cases h0 : p.unit = 0
  · rw [if_pos h0] at hkey
    rw [if_pos h0, getHash_some hkey]
    rfl
  · rw [if_neg h0] at hkey
    rw [if_neg h0, ← Option.some.inj hkey]
    rfl

/-- **An insertion at a unit.** -/
theorem insert_ok {old : List EntryHint} {len : Nat}
    (h : Holds pol p.mem p.body p.key.getLocality old len)
    (hkey : 0 < old.length → p.key = unitHash pol p.mem p.body p.key.getLocality 0)
    (hunit : p.unit ≤ old.length) (hfit : ∀ e ∈ es, Fits pol p.key.getLocality e)
    (hsize : len + took pol es ≤ maxBlksize) {left : Place}
    (hleft : insertUnits pol p (Edit.hint pol es) = some left) :
    let q := { left with len := len + took pol es }
    q.WF pol ∧ q.entries pol = old.take p.unit ++ (es ++ old.drop p.unit) ∧
      q.key.getLocality = p.key.getLocality := by
  have hlen := h.length
  have hblk := maxBlksize_eq
  have hfew : old.length ≤ old.length * enSize pol :=
    Nat.le_mul_of_pos_right _ (Nat.succ_pos _)
  have hmax : p.unit ≠ maxUint32 := by
    unfold maxUint32
    have := h.size
    omega
  obtain ⟨r, hr, rfl⟩ := insertUnits_eq hmax hleft
  obtain ⟨hholds, -⟩ := h.insert_holds hunit hfit hsize hr
  intro q
  have hloc : q.key.getLocality = p.key.getLocality := by
    show (if p.unit = 0 then _ else p.key).getLocality = _
    split
    · exact getLocality_unitHash _ _ _ _
    · rfl
  have hq : Holds pol q.mem q.body q.key.getLocality (old.take p.unit ++ (es ++ old.drop p.unit))
      q.len := by
    rw [hloc]
    exact hholds
  have hfirst : 0 < q.units → q.key = unitHash pol q.mem q.body q.key.getLocality 0 := by
    intro _
    rw [hloc]
    show (if p.unit = 0 then _ else p.key) = _
    by_cases h0 : p.unit = 0
    · rw [if_pos h0]
    · -- the first entry is still the first, so its key is
      rw [if_neg h0]
      have hq' := hq
      rw [hloc] at hq'
      obtain ⟨e, fs, rfl⟩ : ∃ e fs, old = e :: fs :=
        List.exists_cons_of_length_pos (by omega)
      obtain ⟨k, hk⟩ := Nat.exists_eq_succ_of_ne_zero h0
      rw [hk, List.take_succ_cons, List.cons_append] at hq'
      exact (hkey (Nat.succ_pos _)).trans (unitHash_zero_kept h hq').symm
  obtain ⟨hwf, hentries⟩ := Place.wf_of_holds hq hfirst
  exact ⟨hwf, hentries, hloc⟩

/-- **A removal**: the entries, the key, and the length that the hint reports. -/
theorem remove_ok (h : p.WF pol) {unit count : Nat} (hunit : unit < p.units)
    (hwrap : unit + count < two32) {r : Place × TransHint} (hr : Edit.removed pol p unit count = some r) :
    let q := { r.1 with len := p.len - r.2.len }
    q.WF pol ∧ q.entries pol = (p.entries pol).take unit ++ (p.entries pol).drop (unit + count) ∧
      q.key.getLocality = p.key.getLocality ∧
      r.2.len = took pol (((p.entries pol).drop unit).take count) ∧ r.2.bytes = r.2.len := by
  have hold := h.holds
  have hlength := h.length_entries
  have hcount : u32 count = count := u32_of_lt (by omega)
  obtain ⟨m, hshrink, hr⟩ := Option.bind_eq_some_iff.mp hr
  obtain ⟨key, hkey, hr⟩ := Option.bind_eq_some_iff.mp hr
  obtain rfl := (Option.some.inj hr).symm
  dsimp only at hshrink hkey
  rw [hcount] at hshrink
  obtain ⟨hremoved, hholds, -⟩ := hold.shrink_holds (by omega : unit < (p.entries pol).length) hwrap hshrink
  intro q
  have hqkey : q.key = if unit = 0 ∧ 0 < getUnits q.mem p.body then
      unitHash pol q.mem p.body p.key.getLocality 0 else p.key := by
    show key = if unit = 0 ∧ 0 < getUnits m.1 p.body then _ else _
    by_cases h0 : unit = 0 ∧ 0 < getUnits m.1 p.body
    · rw [if_pos h0] at hkey ⊢
      exact getHash_some hkey
    · rw [if_neg h0] at hkey ⊢
      exact (Option.some.inj hkey).symm
  have hloc : q.key.getLocality = p.key.getLocality := by
    rw [hqkey]
    split
    · exact getLocality_unitHash _ _ _ _
    · rfl
  have hq : Holds pol q.mem q.body q.key.getLocality
      ((p.entries pol).take unit ++ (p.entries pol).drop (unit + count)) q.len := by
    rw [hloc]
    show Holds _ m.1 _ _ _ (p.len - m.2)
    rw [hremoved]
    exact hholds
  have hfirst : 0 < q.units → q.key = unitHash pol q.mem q.body q.key.getLocality 0 := by
    intro hpos
    rw [hloc, hqkey]
    by_cases h0 : unit = 0
    · rw [if_pos ⟨h0, hpos⟩]
    · -- the first entry is still the first, so its key is
      rw [if_neg fun hand => h0 hand.1]
      have hkey := h.key (by omega)
      have hq' := hq
      rw [hloc] at hq'
      obtain ⟨e, fs, hes⟩ : ∃ e fs, p.entries pol = e :: fs :=
        List.exists_cons_of_length_pos (by omega)
      obtain ⟨k, hk⟩ := Nat.exists_eq_succ_of_ne_zero h0
      rw [hes, hk, List.take_succ_cons, List.cons_append] at hq'
      rw [hes] at hold
      exact hkey.trans (unitHash_zero_kept hold hq').symm
  obtain ⟨hwf, hentries⟩ := Place.wf_of_holds hq hfirst
  exact ⟨hwf, hentries, hloc, hremoved, rfl⟩

/-- The first entries of a new item: its units are none before the insertion. -/
theorem insertUnits_create (hint : TransHint) :
    insertUnits pol { p with unit := maxUint32 } hint =
      insertUnits pol { p with mem := setUnits p.mem p.body 0, unit := 0 } hint := by
  unfold insertUnits
  dsimp only
  rw [if_pos rfl, if_neg (show ¬ 0 = maxUint32 by decide)]

theorem holds_nil (mem : Bytes) (body loc : Nat) : Holds pol (setUnits mem body 0) body loc [] 2 where
  units := by
    rw [getUnits_set]
    rfl
  chain := trivial
  length := by simp
  size := by decide

/-- **One edit** that comes to its end does what it is for. -/
theorem edit_ok (h : p.WF pol) {e : Edit} (he : e.Allowed pol p) {q : Place} (hq : e.apply pol p = some q) :
    q.WF pol ∧ q.entries pol = e.list (p.entries pol) ∧ q.key.getLocality = p.key.getLocality := by
  cases e with
  | create es =>
    obtain ⟨-, hfit, hsize⟩ := he
    obtain ⟨left, hleft, rfl⟩ := Option.map_eq_some_iff.mp hq
    rw [insertUnits_create] at hleft
    have hok := @insert_ok pol { p with mem := setUnits p.mem p.body 0, unit := 0 } es [] 2
      (holds_nil _ _ _) (fun h0 => absurd h0 (Nat.lt_irrefl 0)) (Nat.le_refl 0) hfit hsize left hleft
    rw [List.drop_nil, List.append_nil, List.take_nil, List.nil_append] at hok
    rw [show (Edit.hint pol es).overhead + (Edit.hint pol es).len = 2 + took pol es from
      congrArg (2 + ·) (hint_len es)]
    exact hok
  | insert unit es =>
    obtain ⟨hunit, -, hfit, hsize⟩ := he
    have hlen := h.length_entries
    obtain ⟨left, hleft, rfl⟩ := Option.map_eq_some_iff.mp hq
    have hok := @insert_ok pol { p with unit := unit } es (p.entries pol) p.len h.holds
      (fun h0 => h.key (by omega)) (by show unit ≤ _; omega) hfit hsize left hleft
    rw [hint_len]
    exact hok
  | remove unit count =>
    obtain ⟨hunit, hwrap⟩ := he
    obtain ⟨r, hr, rfl⟩ := Option.map_eq_some_iff.mp hq
    obtain ⟨hwf, hentries, hloc, -⟩ := remove_ok h hunit hwrap hr
    exact ⟨hwf, hentries, hloc⟩

/-! ### The end of an edit -/

/-- The edit does nothing and asks for no hash. -/
def Edit.Idle : Edit → Prop
  | create _ | insert _ _ => False
  | remove unit count => unit ≠ 0 ∧ count = 0

theorem insertUnits_some (hlarge : pol = .large) (hint : TransHint) : ∃ q, insertUnits pol p hint = some q := by
  subst hlarge
  unfold insertUnits
  dsimp only
  generalize (if p.unit = maxUint32 then { p with mem := setUnits p.mem p.body 0, unit := 0 } else p) = place
  obtain ⟨r, hr⟩ := @expand_large place.mem place.body place.key.getLocality place.unit hint.count hint.len
  rw [hr]
  simp only [Option.bind_eq_bind, Option.bind_some, getHash_large]
  split <;> exact ⟨_, rfl⟩

/-- An edit comes to its end with large keys, or if it is idle. -/
theorem apply_some (h : p.WF pol) {e : Edit} (he : e.Allowed pol p) (hread : pol = .large ∨ e.Idle) :
    ∃ q, e.apply pol p = some q := by
  cases e with
  | create es =>
    obtain ⟨q, hq⟩ := @insertUnits_some pol { p with unit := maxUint32 }
      (hread.resolve_right id) (Edit.hint pol es)
    exact ⟨_, Option.map_eq_some_iff.mpr ⟨q, hq, rfl⟩⟩
  | insert unit es =>
    obtain ⟨q, hq⟩ := @insertUnits_some pol { p with unit := unit } (hread.resolve_right id) (Edit.hint pol es)
    exact ⟨_, Option.map_eq_some_iff.mpr ⟨q, hq, rfl⟩⟩
  | remove unit count =>
    obtain ⟨hunit, hwrap⟩ := he
    have hlen := h.length_entries
    have hcount : u32 count = count := u32_of_lt (by omega)
    obtain ⟨r, hr⟩ := h.holds.shrink_some (by omega : unit < (p.entries pol).length) hwrap
      (hread.imp_right And.right)
    have hkey : ∃ key, (if unit = 0 ∧ 0 < getUnits r.1 p.body then
        getHash pol r.1 p.body p.key.getLocality 0 else some p.key) = some key := by
      rcases hread with rfl | ⟨hne, -⟩
      · rw [getHash_large]
        split <;> exact ⟨_, rfl⟩
      · rw [if_neg fun hand => hne hand.1]
        exact ⟨_, rfl⟩
    obtain ⟨key, hkey⟩ := hkey
    have hremoved : ∃ left, Edit.removed pol p unit count = some left := by
      unfold Edit.removed removeUnits
      dsimp only
      rw [hcount, hr]
      simp only [Option.bind_eq_bind, Option.bind_some, hkey]
      exact ⟨_, rfl⟩
    obtain ⟨left, hleft⟩ := hremoved
    exact ⟨_, Option.map_eq_some_iff.mpr ⟨left, hleft, rfl⟩⟩

/-- With short keys another one does not. -/
theorem apply_short (hs : pol = .short) (h : p.WF pol) {e : Edit} (he : e.Allowed pol p) (hidle : ¬ e.Idle) :
    e.apply pol p = none := by
  subst hs
  have hunits : getUnits p.mem p.body = (p.entries .short).length := h.length_entries.symm
  -- whatever the unit, one of the hashes is asked for
  have hinsert : ∀ (q : Place) (es : List EntryHint), q.unit ≤ getUnits q.mem q.body →
      q.unit ≠ maxUint32 → insertUnits .short q (Edit.hint .short es) = none := by
    intro q es hle hmax
    rw [Option.eq_none_iff_forall_ne_some]
    intro left hleft
    unfold insertUnits at hleft
    dsimp only at hleft
    rw [if_neg hmax] at hleft
    obtain ⟨r, hr, hleft⟩ := Option.bind_eq_some_iff.mp hleft
    obtain ⟨key, hkey, -⟩ := Option.bind_eq_some_iff.mp hleft
    by_cases h0 : q.unit = 0
    · rw [if_pos h0] at hkey
      cases hkey
    · obtain ⟨offset, hoffset, hr⟩ := Option.bind_eq_some_iff.mp hr
      obtain ⟨front, -, hr⟩ := Option.bind_eq_some_iff.mp hr
      obtain ⟨second, hsecond, -⟩ := Option.bind_eq_some_iff.mp hr
      by_cases hlt : q.unit < getUnits q.mem q.body
      · unfold regsize at hsecond
        dsimp only at hsecond
        rw [if_neg (by omega), if_neg (by omega)] at hsecond
        cases hsecond
      · unfold expandOffset at hoffset
        dsimp only at hoffset
        rw [if_pos (by omega), if_neg hlt] at hoffset
        cases hoffset
  cases e with
  | create es =>
    show (insertUnits .short { p with unit := maxUint32 } _).map _ = none
    rw [insertUnits_create, hinsert _ es (Nat.zero_le _) (by decide : (0 : Nat) ≠ maxUint32)]
    rfl
  | insert unit es =>
    have hlen := h.holds.length
    have hsize := h.holds.size
    have hblk := maxBlksize_eq
    have hfew : (p.entries .short).length ≤ (p.entries .short).length * enSize .short :=
      Nat.le_mul_of_pos_right _ (Nat.succ_pos _)
    have hunit : unit ≤ getUnits p.mem p.body := he.1
    have hmax : unit ≠ maxUint32 := by
      unfold maxUint32
      omega
    show (insertUnits .short { p with unit := unit } _).map _ = none
    rw [hinsert { p with unit := unit } es hunit hmax]
    rfl
  | remove unit count =>
    obtain ⟨hunit, hwrap⟩ := he
    have hcount : u32 count = count := u32_of_lt (by omega)
    have hunit' : unit < (p.entries .short).length := hunits ▸ hunit
    show (removeUnits .short { p with unit := unit } ⟨[], count, 0, 0, 0⟩).map _ = none
    unfold removeUnits
    dsimp only
    rw [hcount]
    rcases Nat.eq_zero_or_pos count with rfl | hpos
    · -- nothing goes, but the key of the item is taken from its first entry
      obtain rfl : unit = 0 := by
        by_contra hne
        exact hidle ⟨hne, rfl⟩
      obtain ⟨r, hr⟩ := h.holds.shrink_some hunit' hwrap (Or.inr rfl)
      obtain ⟨-, hholds, -⟩ := h.holds.shrink_holds hunit' hwrap hr
      have hleft : 0 < getUnits r.1 p.body := by
        rw [hholds.units, List.take_zero, List.nil_append, Nat.zero_add, List.drop_zero]
        exact hunit'
      rw [hr]
      simp only [Option.bind_eq_bind, Option.bind_some, true_and, if_pos hleft]
      rfl
    · rw [h.holds.shrink_short hunit' hwrap hpos]
      rfl

/-! ### Sequences -/

/-- The item after a sequence of edits. -/
def Edit.run (pol : KeyPol) : Place → List Edit → Option Place
  | p, [] => some p
  | p, e :: edits => do
    let q ← e.apply pol p
    run pol q edits

/-- Every edit of the sequence is one of the item it is applied to. -/
def Edit.AllAllowed (pol : KeyPol) : Place → List Edit → Prop
  | _, [] => True
  | p, e :: edits => e.Allowed pol p ∧ ∀ q, e.apply pol p = some q → AllAllowed pol q edits

theorem edits_ok : ∀ {edits : List Edit} {p q : Place}, p.WF pol → Edit.AllAllowed pol p edits →
    Edit.run pol p edits = some q →
    q.WF pol ∧ q.entries pol = edits.foldl (fun es e => e.list es) (p.entries pol)
  | [], _, _, h, _, hrun => by
    obtain rfl := Option.some.inj hrun
    exact ⟨h, rfl⟩
  | e :: edits, p, q, h, ⟨he, hall⟩, hrun => by
    obtain ⟨p', hp', hrun⟩ := Option.bind_eq_some_iff.mp hrun
    obtain ⟨hwf, hentries, -⟩ := edit_ok h he hp'
    have ih := edits_ok hwf (hall p' hp') hrun
    rw [hentries] at ih
    exact ih

theorem run_append : ∀ {pre edits : List Edit} {p q : Place}, Edit.run pol p (pre ++ edits) = some q →
    ∃ mid, Edit.run pol p pre = some mid ∧ Edit.run pol mid edits = some q
  | [], _, p, _, hrun => ⟨p, rfl, hrun⟩
  | e :: pre, edits, p, q, hrun => by
    obtain ⟨p', hp', hrun⟩ := Option.bind_eq_some_iff.mp hrun
    obtain ⟨mid, hmid, hrest⟩ := run_append hrun
    exact ⟨mid, Option.bind_eq_some_iff.mpr ⟨p', hp', hmid⟩, hrest⟩

theorem allAllowed_append : ∀ {pre edits : List Edit} {p mid : Place},
    Edit.AllAllowed pol p (pre ++ edits) → Edit.run pol p pre = some mid →
      Edit.AllAllowed pol p pre ∧ Edit.AllAllowed pol mid edits
  | [], _, _, _, h, hrun => by
    obtain rfl := Option.some.inj hrun
    exact ⟨trivial, h⟩
  | e :: pre, edits, p, mid, ⟨he, hall⟩, hrun => by
    obtain ⟨p', hp', hrun⟩ := Option.bind_eq_some_iff.mp hrun
    obtain ⟨-, hrest⟩ := allAllowed_append (hall p' hp') hrun
    refine ⟨⟨he, fun q hq => ?_⟩, hrest⟩
    obtain rfl := Option.some.inj (hp'.symm.trans hq)
    exact (allAllowed_append (hall p' hp') hrun).1

/-- A sequence comes to its end exactly with large keys, or if all its edits are idle. -/
theorem run_some_iff : ∀ {edits : List Edit} {p : Place}, p.WF pol → Edit.AllAllowed pol p edits →
    ((∃ q, Edit.run pol p edits = some q) ↔ pol = .large ∨ ∀ e ∈ edits, e.Idle)
  | [], p, _, _ => iff_of_true ⟨p, rfl⟩ (Or.inr fun e he => absurd he List.not_mem_nil)
  | e :: edits, p, h, ⟨he, hall⟩ => by
    constructor
    · rintro ⟨q, hrun⟩
      obtain ⟨p', hp', hrun⟩ := Option.bind_eq_some_iff.mp hrun
      cases hpol : pol with
      | large => exact Or.inl rfl
      | short =>
        have hfirst : e.Idle := by
          by_contra hidle
          rw [apply_short hpol h he hidle] at hp'
          cases hp'
        obtain ⟨hwf, -⟩ := edit_ok h he hp'
        rcases (run_some_iff hwf (hall p' hp')).mp ⟨q, hrun⟩ with hl | hrest
        · rw [hpol] at hl
          cases hl
        · refine Or.inr fun e' he' => ?_
          rcases List.mem_cons.mp he' with rfl | he'
          · exact hfirst
          · exact hrest e' he'
    · intro hread
      obtain ⟨p', hp'⟩ := apply_some h he (hread.imp_right fun hidle => hidle e List.mem_cons_self)
      obtain ⟨hwf, -⟩ := edit_ok h he hp'
      obtain ⟨q, hrun⟩ := (run_some_iff hwf (hall p' hp')).mpr
        (hread.imp_right fun hidle e' he' => hidle e' (List.mem_cons_of_mem _ he'))
      exact ⟨q, Option.bind_eq_some_iff.mpr ⟨p', hp', hrun⟩⟩

/-- What editing an item is for: the edits come to their end, the item is well formed, with increasing
    offsets and the key of its first entry, it has the entries that the edits leave, and every removal
    reports the bytes that the removed entries took. -/
def Edited (pol : KeyPol) (p : Place) (edits : List Edit) : Prop :=
  ∃ q, Edit.run pol p edits = some q ∧ q.WF pol ∧
    (∀ i j, i < j → j < q.units →
      enGetOffset pol q.mem (entry pol q.body i) < enGetOffset pol q.mem (entry pol q.body j)) ∧
    q.entries pol = edits.foldl (fun es e => e.list es) (p.entries pol) ∧
    ∀ pre unit count post, edits = pre ++ Edit.remove unit count :: post →
      ∃ mid r, Edit.run pol p pre = some mid ∧ Edit.removed pol mid unit count = some r ∧
        r.2.len = took pol (((mid.entries pol).drop unit).take count)

/-- **Editing a directory item** works out, whatever the edits, exactly with large keys: with short ones
    every edit that changes something, or is one of the first unit, asks for a hash. -/
theorem edits_law (pol : KeyPol) (p : Place) (edits : List Edit) (hwf : p.WF pol)
    (hall : Edit.AllAllowed pol p edits) :
    Edited pol p edits ↔ pol = .large ∨ ∀ e ∈ edits, e.Idle := by
  rw [← run_some_iff hwf hall]
  constructor
  · rintro ⟨q, hrun, -⟩
    exact ⟨q, hrun⟩
  · rintro ⟨q, hrun⟩
    obtain ⟨hok, hentries⟩ := edits_ok hwf hall hrun
    refine ⟨q, hrun, hok, fun i j hij hj => hok.item.offset_lt hij hj, hentries, ?_⟩
    rintro pre unit count post rfl
    obtain ⟨mid, hmid, hrest⟩ := run_append hrun
    obtain ⟨hpre, ⟨hunit, hwrap⟩, -⟩ := allAllowed_append hall hmid
    obtain ⟨q', happly, -⟩ := Option.bind_eq_some_iff.mp hrest
    obtain ⟨r, hr, -⟩ := Option.map_eq_some_iff.mp happly
    obtain ⟨-, -, -, hlen, -⟩ := remove_ok (edits_ok hwf hpre hmid).1 hunit hwrap hr
    exact ⟨mid, r, hmid, hr, hlen⟩

end Edits

/-- An item without entries, in the directory with the locality 5. -/
def emptyItem : Place where
  mem := setUnits Bytes.zero 0 0
  body := 0
  len := 2
  key := Key.buildFilename 5 0 0 0
  unit := 0

/-- The entry `.`, whose name is in its key. -/
def dotHint : EntryHint := ⟨Key.buildFilename 5 0 0 0, ⟨81, 0, 42, 0⟩, [46]⟩

/-- An entry with a hashed key, whose name is stored beside it. -/
def longHint : EntryHint := ⟨Key.buildFilename 5 hashedNameMask 7 9, ⟨81, 0, 43, 0⟩, [97, 98, 99]⟩

theorem dotHint_fits : Fits .large 5 dotHint :=
  ⟨rfl, ⟨by decide, by decide, by decide, by decide, nofun⟩,
    ⟨by decide, by decide, by decide, by decide, nofun⟩, rfl, fun _ => by decide, fun h => by
      exact absurd h (by decide)⟩

theorem longHint_fits : Fits .large 5 longHint :=
  ⟨rfl, ⟨by decide, by decide, by decide, by decide, nofun⟩,
    ⟨by decide, by decide, by decide, by decide, nofun⟩, rfl, fun h => by
      exact absurd h (by decide), fun _ => by decide⟩

theorem emptyItem_wf : emptyItem.WF .large ∧ emptyItem.entries .large = [] := by
  have h : Holds .large emptyItem.mem emptyItem.body emptyItem.key.getLocality [] emptyItem.len :=
    holds_nil _ _ _
  refine Place.wf_of_holds h fun hpos => ?_
  have hunits : emptyItem.units = 0 := h.units
  omega

/-- Two entries are put in an empty item, and the first is taken out again. -/
theorem edits_law_sample : Edited .large emptyItem [.insert 0 [longHint, dotHint], .remove 0 1] ∧
    [Edit.insert 0 [longHint, dotHint], .remove 0 1].foldl (fun es e => e.list es)
      (emptyItem.entries .large) = [dotHint] := by
  obtain ⟨hwf, hempty⟩ := emptyItem_wf
  have hinsert : (Edit.insert 0 [longHint, dotHint]).Allowed .large emptyItem :=
    ⟨Nat.zero_le _, by decide, by
      intro e he
      rcases List.mem_cons.mp he with rfl | he
      · exact longHint_fits
      · rw [List.mem_singleton.mp he]
        exact dotHint_fits, by decide⟩
  have hall : Edit.AllAllowed .large emptyItem [.insert 0 [longHint, dotHint], .remove 0 1] := by
    refine ⟨hinsert, fun q hq => ⟨?_, fun _ _ => trivial⟩⟩
    obtain ⟨hwf', hentries, -⟩ := edit_ok hwf hinsert hq
    have hunits := hwf'.length_entries
    rw [hentries, hempty] at hunits
    exact ⟨by rw [← hunits]; decide, by decide⟩
  refine ⟨(edits_law .large emptyItem _ hwf hall).mpr (Or.inl rfl), ?_⟩
  rw [hempty]
  rfl

/-- The empty item, with the entry that is to be its first one: with short keys the insertion does not
    come to its end. -/
theorem edits_fault : emptyItem.WF .short ∧
    Edit.AllAllowed .short emptyItem [.insert 0 [dotHint]] ∧
    (Edit.insert 0 [dotHint]).apply .short emptyItem = none ∧
    ¬ Edited .short emptyItem [.insert 0 [dotHint]] := by
  have hholds : Holds .short emptyItem.mem emptyItem.body emptyItem.key.getLocality [] emptyItem.len :=
    holds_nil _ _ _
  have hwf : emptyItem.WF .short := (Place.wf_of_holds hholds fun hpos => by
    have hunits : emptyItem.units = 0 := hholds.units
    omega).1
  have hfits : Fits .short 5 dotHint :=
    ⟨rfl, ⟨by decide, by decide, by decide, by decide, by decide⟩,
      ⟨by decide, by decide, by decide, by decide, by decide⟩, rfl, fun _ => by decide, fun h => by
        exact absurd h (by decide)⟩
  have hinsert : (Edit.insert 0 [dotHint]).Allowed .short emptyItem :=
    ⟨Nat.zero_le _, by decide, by
      intro e he
      rw [List.mem_singleton.mp he]
      exact hfits, by decide⟩
  have hnone := apply_short rfl hwf hinsert id
  refine ⟨hwf, ⟨hinsert, fun _ _ => trivial⟩, hnone, ?_⟩
  rintro ⟨q, hrun, -⟩
  obtain ⟨q', hq', -⟩ := Option.bind_eq_some_iff.mp hrun
  rw [hnone] at hq'
  cases hq'

end Cde40

end Reiser4
