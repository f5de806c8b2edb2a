/-
  Merging a recovered directory item into the tree (`repair_tree_insert`, `cde40_prep_insert_raw`,
  `cde40_insert_raw`).

  The entries are inserted by rounds.  Each looks up the key of the next entry, compares the entries from there
  on with the one found, and inserts those below it; if there are none it takes the next entry for the one found
  and passes over the entries that agree.  The row of the directory's items may be cut differently by each
  insertion, as it makes room.

    1. `repairTreeLookup_spec`    where a round starts: in front of the entries that are not below the key;
    2. `insertRound_round`        a round on the items is a round on the list of their entries;
    3. `repairTreeInsert_iff`     when the rounds end with the entries of both items, each once.
-/
import Mathlib
import Reiser4.Dir40.Accounting
import Reiser4.Lib.RunMerge

namespace Reiser4.Cde40

open Reiser4.Item Reiser4.Lib.RunMerge

/-- A directory item, as a place shows it. -/
structure CdeItem where
  key : Key
  es : List Entry
  deriving DecidableEq, Repr

/-- `strcmp` of two strings without zeros. -/
def aalStrcmp : List UInt8 → List UInt8 → Int
  | [], [] => 0
  | [], _ :: _ => -1
  | _ :: _, [] => 1
  | c :: cs, d :: ds => if c = d then aalStrcmp cs ds else (c.toNat : Int) - d.toNat

/-- `cde40_comp_entry`, with the keys of the two items. -/
def cde40CompEntry (pol : KeyPol) (key1 : Key) (e1 : Entry) (key2 : Key) (e2 : Entry) : Int :=
  let hash1 := hashKey key1 e1
  let hash2 := hashKey key2 e2
  let comp := Key.compfull hash1 hash2
  if comp ≠ 0 then comp
  else if hash1.hashed pol = false ∨ hash2.hashed pol = false then 0
  else aalStrcmp e1.name e2.name

/-- `cde_get_offset`: where the body of an entry starts. -/
def cdeGetOffset (pol : KeyPol) (it : CdeItem) (pos : Nat) : Nat :=
  cde40Overhead + it.es.length * Cde40.enSize pol + ((it.es.take pos).map (cde40GetLen pol it.key)).sum

/-- What `cde40_prep_insert_raw` sets in `trans_hint_t`. -/
structure RawHint where
  bytes : Nat
  count : Nat
  len : Nat
  overhead : Nat
  deriving DecidableEq, Repr

/-- `cde40_prep_insert_raw`; no unit is `MAX_UINT32`, the position of a new item. -/
def cde40PrepInsertRaw (pol : KeyPol) (place : CdeItem) (unit : Option Nat) (src : CdeItem) (spos : Nat) : RawHint :=
  let send :=
    match unit.bind fun u => place.es[u]? with
    | some e => spos + ((src.es.drop spos).takeWhile fun s => 0 < cde40CompEntry pol place.key e src.key s).length
    | none => src.es.length
  let count := send - spos
  let offset := if send = src.es.length then cde40Len pol src.key src.es else cdeGetOffset pol src send
  ⟨0, count, count * Cde40.enSize pol + offset - cdeGetOffset pol src spos, cde40Overhead⟩

/-- The loop of `cde40_insert_raw` over entries that agree. -/
def cde40MatchLoop (pol : KeyPol) (key1 key2 : Key) : List Entry → List Entry → Nat
  | d :: ds, s :: ss => if cde40CompEntry pol key1 d key2 s = 0 then cde40MatchLoop pol key1 key2 ds ss + 1 else 0
  | _, _ => 0

/-- The key `cde40_insert_raw` sets for the next round, `trans->maxkey`. -/
def nextKey (pol : KeyPol) (src : CdeItem) (spos : Nat) : Key :=
  match src.es[spos]? with
  | none => cde40MaxpossKey pol src.key
  | some e => hashKey src.key e

/-- `cde40_insert_raw`: the item, the next unit of `src`, and the key to go on with. -/
def cde40InsertRaw (pol : KeyPol) (place : CdeItem) (unit : Option Nat) (src : CdeItem) (spos count : Nat)
    (offset : Key) : CdeItem × Nat × Key :=
  let u := unit.getD 0
  let new := (src.es.drop spos).take count
  let spos' :=
    if count ≠ 0 then spos + count
    else spos + 1 + cde40MatchLoop pol place.key src.key (place.es.drop (u + 1)) (src.es.drop (spos + 1))
  let es :=
    if count = 0 then place.es
    else if unit = none then new
    else place.es.take u ++ (new ++ place.es.drop u)
  let key := if u = 0 ∧ count ≠ 0 then offset else place.key
  (⟨key, es⟩, spos', nextKey pol src spos')

/-! ## The tree, as the row of the directory's items -/

/-- A position in the row; no unit is `MAX_UINT32`. -/
structure RowPlace where
  item : Nat
  unit : Option Nat
  deriving DecidableEq, Repr

/-- `reiser4_tree_collision_start`: to the left as long as items have the key. -/
def collisionStart (items : List CdeItem) (k : Key) : Nat → Nat → RowPlace
  | 0, u => ⟨0, some u⟩
  | i + 1, u =>
    match items[i]? with
    | none => ⟨i + 1, some u⟩
    | some it =>
      match entryLookup it.key it.es k .exact with
      | (.present, v) => collisionStart items k i v
      | (.absent, _) => ⟨i + 1, some u⟩

/-- `reiser4_tree_lookup` on the row: in the last item that does not start behind the key. -/
def rowLookup (items : List CdeItem) (k : Key) : Lookup × RowPlace :=
  match items.countP fun it => it.key ≤ k with
  | 0 => (.absent, ⟨0, none⟩)
  | i + 1 =>
    match items[i]? with
    | none => (.absent, ⟨i + 1, none⟩)
    | some it =>
      match entryLookup it.key it.es k .exact with
      | (.present, u) => (.present, collisionStart items k i u)
      | (.absent, u) => (.absent, ⟨i, some u⟩)

/-- `reiser4_place_right`: a unit behind those of its item. -/
def placeRight (items : List CdeItem) (place : RowPlace) : Bool :=
  match items[place.item]?, place.unit with
  | some it, some u => it.es.length ≤ u
  | _, _ => false

/-- `cde40_maxreal_key`. -/
def cde40MaxrealKey (it : CdeItem) : Key := (it.es.getLast?.map (hashKey it.key)).getD it.key

/-- `repair_tree_lookup`; the items of the row may be in different nodes, behind the last one there is none of
    the directory. -/
def repairTreeLookup (items : List CdeItem) (src : CdeItem) (k : Key) : Lookup × RowPlace :=
  match rowLookup items k with
  | (.present, place) => (.present, place)
  | (.absent, place) =>
    let dst := if placeRight items place then ⟨place.item + 1, none⟩ else place
    match items[dst.item]? with
    | none => (.absent, dst)
    | some it => (if 0 ≤ Key.compfull (cde40MaxrealKey src) it.key then .present else .absent, dst)

/-- The position `repair_tree_insert` gives to `reiser4_tree_modify`. -/
def insertUnit : Lookup × RowPlace → Option Nat
  | (.present, place) => some (place.unit.getD 0)
  | (.absent, place) => place.unit

/-- `reiser4_tree_modify` with the callbacks of `repair_tree_insert`: the row, and the key for the next round; `room` is
    what `reiser4_tree_expand` makes of the row when something is inserted. -/
def treeModify (pol : KeyPol) (room : List CdeItem → List CdeItem) (src : CdeItem) (items : List CdeItem) (spos : Nat)
    (offset : Key) (item : Nat) (unit : Option Nat) : List CdeItem × Key :=
  let place := if unit = none then ⟨offset, []⟩ else items.getD item ⟨offset, []⟩
  let hint := cde40PrepInsertRaw pol place unit src spos
  let r := cde40InsertRaw pol place unit src spos hint.count offset
  let items := if unit = none then items.insertIdx item r.1 else items.set item r.1
  (if hint.count = 0 then items else room items, r.2.2)

/-- One turn of the loop of `repair_tree_insert`. -/
def insertRound (pol : KeyPol) (room : List CdeItem → List CdeItem) (src : CdeItem) (items : List CdeItem) (spos : Nat)
    (offset : Key) : List CdeItem × Key :=
  let dst := repairTreeLookup items src offset
  treeModify pol room src items spos offset dst.2.item (insertUnit dst)

theorem aalStrcmp_lt : ∀ {cs ds : List UInt8}, aalStrcmp cs ds < 0 ↔ cs.map UInt8.toNat < ds.map UInt8.toNat
  | [], [] => by
    constructor
    · intro h
      exact absurd h (by decide)
    · intro h
      exact absurd h (lt_irrefl _)
  | [], d :: ds => by
    rw [aalStrcmp]
    exact ⟨fun _ => List.Lex.nil, fun _ => by decide⟩
  | c :: cs, [] => by
    rw [aalStrcmp]
    exact ⟨fun h => absurd h (by decide), fun h => nomatch h⟩
  | c :: cs, d :: ds => by
    rw [aalStrcmp, List.map_cons, List.map_cons, List.cons_lt_cons_iff]
    by_cases h : c = d
    · rw [if_pos h, aalStrcmp_lt, h]
      simp
    · have hne : c.toNat ≠ d.toNat := fun heq => h (UInt8.toNat_inj.mp heq)
      rw [if_neg h]
      omega

theorem aalStrcmp_eq : ∀ {cs ds : List UInt8}, aalStrcmp cs ds = 0 ↔ cs = ds
  | [], [] => by simp [aalStrcmp]
  | [], d :: ds => by simp [aalStrcmp]
  | c :: cs, [] => by simp [aalStrcmp]
  | c :: cs, d :: ds => by
    rw [aalStrcmp]
    by_cases h : c = d
    · rw [if_pos h, aalStrcmp_eq, h]
      simp
    · have hne : c.toNat ≠ d.toNat := fun heq => h (UInt8.toNat_inj.mp heq)
      rw [if_neg h]
      constructor
      · intro h0
        omega
      · intro heq
        exact absurd (List.cons.inj heq).1 h

/-- The key of an entry, and its name where that is not in the key. -/
def rank (pol : KeyPol) (key : Key) (e : Entry) : Key ×ₗ List Nat :=
  toLex (hashKey key e, if (hashKey key e).hashed pol then e.name.map UInt8.toNat else [])

/-- The key of a rank. -/
def rankKey (r : Key ×ₗ List Nat) : Key := (ofLex r).1

theorem rankKey_mono : Monotone rankKey := Prod.Lex.monotone_fst_ofLex

@[simp] theorem rankKey_rank (pol : KeyPol) (key : Key) (e : Entry) : rankKey (rank pol key e) = hashKey key e := rfl

section Compare

variable {pol : KeyPol} {key1 key2 : Key} {e1 e2 : Entry}

/-- **`cde40_comp_entry`** compares the ranks. -/
theorem cde40CompEntry_lt : cde40CompEntry pol key1 e1 key2 e2 < 0 ↔ rank pol key1 e1 < rank pol key2 e2 := by
  rw [rank, rank, Prod.Lex.toLex_lt_toLex, cde40CompEntry]
  dsimp only
  by_cases hcomp : Key.compfull (hashKey key1 e1) (hashKey key2 e2) = 0
  · have heq := Key.compfull_zero.mp hcomp
    rw [if_neg (fun h => h hcomp), heq]
    by_cases hhash : (hashKey key2 e2).hashed pol = true
    · rw [if_neg (by simp [hhash]), hhash, aalStrcmp_lt]
      simp
    · rw [if_pos (Or.inl (by simpa using hhash)), if_neg hhash, if_neg hhash]
      simp
  · have hne : hashKey key1 e1 ≠ hashKey key2 e2 := fun h => hcomp (Key.compfull_zero.mpr h)
    rw [if_pos hcomp, Key.compfull_lt]
    constructor
    · exact Or.inl
    · rintro (h | ⟨h, -⟩)
      · exact h
      · exact absurd h hne

theorem cde40CompEntry_zero : cde40CompEntry pol key1 e1 key2 e2 = 0 ↔ rank pol key1 e1 = rank pol key2 e2 := by
  rw [rank, rank, toLex_inj, Prod.mk.injEq, cde40CompEntry]
  by_cases hcomp : Key.compfull (hashKey key1 e1) (hashKey key2 e2) = 0
  · have heq := Key.compfull_zero.mp hcomp
    rw [if_neg (fun h => h hcomp), heq]
    by_cases hhash : (hashKey key2 e2).hashed pol = true
    · rw [if_neg (by simp [hhash]), hhash, aalStrcmp_eq, if_pos rfl, if_pos rfl]
      rw [List.map_inj_right fun _ _ h => UInt8.toNat_inj.mp h]
      simp
    · rw [if_pos (Or.inl (by simpa using hhash)), if_neg hhash, if_neg hhash]
      simp
  · have hne : hashKey key1 e1 ≠ hashKey key2 e2 := fun h => hcomp (Key.compfull_zero.mpr h)
    rw [if_pos hcomp]
    exact ⟨fun h => absurd h hcomp, fun h => absurd h.1 hne⟩

theorem cde40CompEntry_pos : 0 < cde40CompEntry pol key1 e1 key2 e2 ↔ rank pol key2 e2 < rank pol key1 e1 := by
  have hlt := @cde40CompEntry_lt pol key1 key2 e1 e2
  have hzero := @cde40CompEntry_zero pol key1 key2 e1 e2
  constructor
  · intro h
    refine lt_of_not_ge fun hle => ?_
    rcases lt_or_eq_of_le hle with h' | h'
    · have := hlt.mpr h'
      omega
    · have := hzero.mpr h'
      omega
  · intro h
    have h1 : ¬cde40CompEntry pol key1 e1 key2 e2 < 0 := fun h' => lt_asymm h (hlt.mp h')
    have h2 : cde40CompEntry pol key1 e1 key2 e2 ≠ 0 := fun h' => (ne_of_lt h) (hzero.mp h').symm
    omega

/-- Only the directory of an item's key is in the keys of its entries. -/
theorem cde40GetHash_congr {e : Entry} (h : key1.getLocality = key2.getLocality) :
    hashKey key1 e = hashKey key2 e := by
  rw [hashKey, hashKey, h]

theorem rank_congr {e : Entry} (h : key1.getLocality = key2.getLocality) : rank pol key1 e = rank pol key2 e := by
  rw [rank, rank, cde40GetHash_congr h]

end Compare

/-! ## The search in one item -/

/-- The position of a search is behind the entries below the key. -/
theorem entryLookup_splits {key k : Key} {es : List Entry} (hs : (es.map (hashKey key)).Pairwise (· ≤ ·)) :
    (entryLookup key es k .exact).2 ≤ es.length ∧
      (∀ a ∈ es.take (entryLookup key es k .exact).2, hashKey key a < k) ∧
      (∀ a ∈ es.drop (entryLookup key es k .exact).2, k ≤ hashKey key a) ∧
      ((entryLookup key es k .exact).1 = .present → (entryLookup key es k .exact).2 < es.length ∧
        ∃ a ∈ es, hashKey key a = k) := by
  obtain ⟨it, hit⟩ : ∃ it : Item, it = ⟨key, 0, .cde40 es⟩ := ⟨_, rfl⟩
  have hunit : ∀ v (h : v < es.length), it.unitKey 0 v = hashKey key es[v] := by
    intro v h
    rw [hit]
    show (es[v]?.map (hashKey key)).getD key = _
    rw [List.getElem?_eq_getElem h]
    rfl
  have hhi : ∀ v, it.unitHi 0 v = it.unitKey 0 v := unitHi_of_ne_extent (by rw [hit]; exact nofun)
  have hunits : it.units = es.length := by rw [hit]; rfl
  have hsorted : it.Sorted 0 := by
    rw [Item.Sorted, Item.ranges, hunits]
    refine List.pairwise_map.mpr (List.pairwise_iff_getElem.mpr fun i j hi hj hij => ?_)
    rw [List.length_range] at hi hj
    have hle := List.pairwise_iff_getElem.mp hs i j (by simpa using hi) (by simpa using hj) hij
    rw [List.getElem_map, List.getElem_map] at hle
    rw [List.getElem_range, List.getElem_range, URange.Before, Item.range, Item.range]
    dsimp only
    rw [hhi, hhi, hunit i hi, hunit j hj]
    rcases lt_or_eq_of_le hle with h | h
    · exact Or.inl h
    · exact Or.inr ⟨rfl, h, rfl⟩
  have hspec := @entryLookup_spec 0 it es k (by rw [hit]) hsorted
  have hkey : it.key = key := by rw [hit]
  rw [hkey] at hspec
  have hbefore : ∀ {u : Nat}, (∀ v, v < u → it.unitHi 0 v < k) → ∀ a ∈ es.take u, hashKey key a < k := by
    intro u h a ha
    obtain ⟨v, hv, rfl⟩ := List.mem_take_iff_getElem.mp ha
    have := h v (by omega)
    rw [hhi, hunit v (by omega)] at this
    exact this
  rcases hres : entryLookup key es k .exact with ⟨_ | _, u⟩
  · rw [hres] at hspec
    obtain ⟨hu, hsmall, hbig⟩ := hspec
    rw [hunits] at hu
    refine ⟨hu, hbefore hsmall, fun a ha => ?_, by simp⟩
    obtain ⟨v, hv, rfl⟩ := List.mem_drop_iff_getElem.mp ha
    have hv' : u + v < es.length := Nat.add_comm u v ▸ hv
    have := hbig (u + v) (Nat.le_add_right u v) (by omega)
    rw [hunit (u + v) hv'] at this
    exact le_of_lt this
  · rw [hres] at hspec
    obtain ⟨hu, ⟨hlo, hup⟩, hsmall⟩ := hspec
    rw [hunits] at hu
    simp only [Item.range, hhi] at hlo hup
    rw [hunit u hu] at hlo hup
    have heq : hashKey key es[u] = k := le_antisymm hlo hup
    refine ⟨Nat.le_of_lt hu, hbefore hsmall, fun a ha => ?_, fun _ => ⟨hu, es[u], List.getElem_mem hu, heq⟩⟩
    obtain ⟨v, hv, rfl⟩ := List.mem_drop_iff_getElem.mp ha
    rw [← heq]
    rcases Nat.eq_zero_or_pos v with h0 | hpos
    · subst h0
      exact le_refl _
    · have hv' : u + v < es.length := Nat.add_comm u v ▸ hv
      have := List.pairwise_iff_getElem.mp hs u (u + v) (by simpa using hu) (by simpa using hv') (by omega)
      rw [List.getElem_map, List.getElem_map] at this
      exact this

/-! ## Items in a row -/

/-- An item with the key of its first entry and the entries in order. -/
structure CdeItem.WF (pol : KeyPol) (it : CdeItem) : Prop where
  key_eq : it.es.head?.map (hashKey it.key) = some it.key
  sorted : it.es.Pairwise fun a b => cde40CompEntry pol it.key a it.key b < 0

/-- Items of one directory in order, with no border between entries of one key. -/
structure Row (pol : KeyPol) (key : Key) (items : List CdeItem) : Prop where
  wf : ∀ it ∈ items, it.WF pol
  dir : ∀ it ∈ items, it.key.getLocality = key.getLocality
  apart : items.Pairwise fun p q => ∀ a ∈ p.es, ∀ b ∈ q.es, hashKey key a < hashKey key b

/-- The entries of a row. -/
def rowEntries (items : List CdeItem) : List Entry := items.flatMap CdeItem.es

section Rows

variable {pol : KeyPol} {key : Key} {items : List CdeItem} {it : CdeItem}

theorem CdeItem.WF.head (h : it.WF pol) : ∃ e es, it.es = e :: es ∧ it.key = hashKey it.key e := by
  obtain ⟨hkey, -⟩ := h
  cases hes : it.es with
  | nil =>
    rw [hes] at hkey
    cases hkey
  | cons e es =>
    rw [hes] at hkey
    exact ⟨e, es, rfl, (Option.some.inj hkey).symm⟩

theorem CdeItem.WF.ranks (h : it.WF pol) : (it.es.map (rank pol it.key)).Pairwise (· < ·) :=
  List.pairwise_map.mpr (h.sorted.imp cde40CompEntry_lt.mp)

theorem CdeItem.WF.hashes (h : it.WF pol) : (it.es.map (hashKey it.key)).Pairwise (· ≤ ·) :=
  List.pairwise_map.mpr (h.sorted.imp fun hlt => rankKey_mono (le_of_lt (cde40CompEntry_lt.mp hlt)))

/-- The key of an item is the smallest of its keys. -/
theorem CdeItem.WF.key_le (h : it.WF pol) {a : Entry} (ha : a ∈ it.es) : it.key ≤ hashKey it.key a := by
  obtain ⟨e, es, hes, hkey⟩ := h.head
  have hs := h.hashes
  rw [hes] at ha
  rw [hes, List.map_cons] at hs
  rcases List.mem_cons.mp ha with rfl | ha
  · exact le_of_eq hkey
  · refine le_of_eq_of_le hkey ?_
    exact List.rel_of_pairwise_cons hs (List.mem_map_of_mem ha)

/-- The entries of a row are in order. -/
theorem Row.ranks (h : Row pol key items) : ((rowEntries items).map (rank pol key)).Pairwise (· < ·) := by
  refine List.pairwise_map.mpr (List.pairwise_flatMap.mpr ⟨fun it hit => ?_, ?_⟩)
  · have hs := (h.wf it hit).sorted
    refine hs.imp fun hlt => ?_
    rw [← rank_congr (h.dir it hit), ← rank_congr (h.dir it hit)]
    exact cde40CompEntry_lt.mp hlt
  · refine h.apart.imp fun hpq a ha b hb => ?_
    exact rankKey_mono.reflect_lt (hpq a ha b hb)

theorem Row.hashes (h : Row pol key items) (hit : it ∈ items) : (it.es.map (hashKey it.key)).Pairwise (· ≤ ·) :=
  (h.wf it hit).hashes

/-- The key of an item as one of the directory. -/
theorem Row.head (h : Row pol key items) (hit : it ∈ items) :
    ∃ e es, it.es = e :: es ∧ it.key = hashKey key e := by
  obtain ⟨e, es, hes, hkey⟩ := (h.wf it hit).head
  exact ⟨e, es, hes, hkey.trans (cde40GetHash_congr (h.dir it hit))⟩

theorem Row.key_le (h : Row pol key items) (hit : it ∈ items) {a : Entry} (ha : a ∈ it.es) :
    it.key ≤ hashKey key a := by
  rw [← cde40GetHash_congr (h.dir it hit)]
  exact (h.wf it hit).key_le ha

theorem Row.keys (h : Row pol key items) : items.Pairwise fun p q => (∀ a ∈ p.es, hashKey key a < q.key) := by
  refine List.Pairwise.imp_of_mem ?_ h.apart
  intro p q hp hq hpq a ha
  obtain ⟨e, es, hes, hkey⟩ := h.head hq
  rw [hkey]
  exact hpq a ha e (by rw [hes]; exact List.mem_cons_self ..)

/-- The items that do not start behind a key are the first ones. -/
theorem Row.split (h : Row pol key items) (k : Key) : ∃ ps qs, items = ps ++ qs ∧
    (items.countP fun it => it.key ≤ k) = ps.length ∧ (∀ p ∈ ps, p.key ≤ k) ∧ ∀ q ∈ qs, k < q.key := by
  have hkeys := h.keys
  have hhead : ∀ it ∈ items, ∃ e ∈ it.es, it.key = hashKey key e := fun it hit => by
    obtain ⟨e, es, hes, hkey⟩ := h.head hit
    exact ⟨e, by rw [hes]; exact List.mem_cons_self .., hkey⟩
  clear h
  induction items with
  | nil => exact ⟨[], [], rfl, rfl, nofun, nofun⟩
  | cons it items ih =>
    obtain ⟨hfirst, hrest⟩ := List.pairwise_cons.mp hkeys
    by_cases hle : it.key ≤ k
    · obtain ⟨ps, qs, hsplit, hcount, hps, hqs⟩ := ih hrest fun x hx => hhead x (List.mem_cons_of_mem _ hx)
      refine ⟨it :: ps, qs, by rw [hsplit]; rfl, ?_, ?_, hqs⟩
      · have hpos : decide (it.key ≤ k) = true := decide_eq_true hle
        rw [List.countP_cons, hcount, List.length_cons, hpos]
        rfl
      · intro p hp
        rcases List.mem_cons.mp hp with rfl | hp
        · exact hle
        · exact hps p hp
    · have hlt : ∀ q ∈ it :: items, k < q.key := by
        intro q hq
        rcases List.mem_cons.mp hq with rfl | hq
        · exact lt_of_not_ge hle
        · obtain ⟨e, he, hkey⟩ := hhead it (List.mem_cons_self ..)
          refine lt_trans (lt_of_not_ge hle) ?_
          rw [hkey]
          exact hfirst q hq e he
      refine ⟨[], it :: items, rfl, ?_, nofun, hlt⟩
      exact List.countP_eq_zero.mpr fun q hq => by simpa using hlt q hq

/-- What the place of a key is: in an item in front of the entries that are not below it, or, where all entries from
    there on are behind the last one to be inserted, between two items. -/
inductive Lands (key : Key) (items : List CdeItem) (k last : Key) : Lookup × RowPlace → Prop
  | inside {ps qs : List CdeItem} {it : CdeItem} {u : Nat} {unit : Option Nat} (hsplit : items = ps ++ it :: qs)
      (hunit : unit.getD 0 = u) (hu : u < it.es.length) (hps : ∀ p ∈ ps, ∀ a ∈ p.es, hashKey key a < k)
      (hbefore : ∀ a ∈ it.es.take u, hashKey key a < k) (hbehind : ∀ a ∈ it.es.drop u, k ≤ hashKey key a) :
      Lands key items k last (.present, ⟨ps.length, unit⟩)
  | new {ps qs : List CdeItem} (hsplit : items = ps ++ qs) (hps : ∀ p ∈ ps, ∀ a ∈ p.es, hashKey key a < k)
      (hqs : ∀ q ∈ qs, ∀ a ∈ q.es, last < hashKey key a) : Lands key items k last (.absent, ⟨ps.length, none⟩)

/-- Nothing is to be found to the left of an item that has the key. -/
theorem collisionStart_eq (h : Row pol key items) {ps qs : List CdeItem} (hsplit : items = ps ++ it :: qs) {k : Key}
    {a : Entry} (ha : a ∈ it.es) (hak : hashKey key a = k) (u : Nat) :
    collisionStart items k ps.length u = ⟨ps.length, some u⟩ := by
  rcases List.eq_nil_or_concat ps with rfl | ⟨ps', p, rfl⟩
  · rfl
  · rw [List.concat_eq_append] at hsplit ⊢
    have hget : items[ps'.length]? = some p := by
      rw [hsplit, List.append_assoc, List.getElem?_append_right (Nat.le_refl _), Nat.sub_self]
      rfl
    have hp : p ∈ items := List.mem_of_getElem? hget
    have hapart : ∀ b ∈ p.es, hashKey key b < k := by
      intro b hb
      rw [← hak]
      have := h.apart
      rw [hsplit] at this
      exact (List.pairwise_append.mp this).2.2 p (List.mem_append_right _ (List.mem_cons_self ..)) it
        (List.mem_cons_self ..) b hb a ha
    obtain ⟨-, -, -, hpresent⟩ := entryLookup_splits (k := k) (h.hashes hp)
    rw [List.length_append, List.length_singleton, collisionStart, hget]
    dsimp only
    match hres : entryLookup p.key p.es k .exact with
    | (.present, v) =>
      rw [hres] at hpresent
      obtain ⟨-, b, hb, hbk⟩ := hpresent rfl
      rw [cde40GetHash_congr (h.dir p hp)] at hbk
      exact absurd (hapart b hb) (not_lt.mpr (le_of_eq hbk.symm))
    | (.absent, v) => rfl

/-- **Where a round starts.** -/
theorem repairTreeLookup_spec (h : Row pol key items) (src : CdeItem) {k : Key} (hk : k ≤ cde40MaxrealKey src) :
    Lands key items k (cde40MaxrealKey src) (repairTreeLookup items src k) := by
  obtain ⟨ps, qs, hsplit, hcount, hps, hqs⟩ := h.split k
  -- a place in front of the items that start behind the key
  have hgap : (∀ p ∈ ps, ∀ a ∈ p.es, hashKey key a < k) →
      Lands key items k (cde40MaxrealKey src) (match items[ps.length]? with
        | none => (.absent, ⟨ps.length, none⟩)
        | some it => (if 0 ≤ Key.compfull (cde40MaxrealKey src) it.key then .present else .absent,
            ⟨ps.length, none⟩)) := by
    intro hbelow
    have hget : items[ps.length]? = qs[0]? := by
      rw [hsplit, List.getElem?_append_right (Nat.le_refl _), Nat.sub_self]
    rw [hget]
    cases qs with
    | nil => exact .new hsplit hbelow nofun
    | cons q qs =>
      have hq : q ∈ items := by
        rw [hsplit]
        exact List.mem_append_right _ (List.mem_cons_self ..)
      obtain ⟨e, es, hes, -⟩ := h.head hq
      show Lands key items k _ (if 0 ≤ Key.compfull (cde40MaxrealKey src) q.key then _ else _, _)
      by_cases hover : 0 ≤ Key.compfull (cde40MaxrealKey src) q.key
      · rw [if_pos hover]
        refine .inside hsplit rfl ?_ hbelow nofun fun a ha => ?_
        · rw [hes]
          exact Nat.succ_pos _
        · exact le_of_lt (lt_of_lt_of_le (hqs q (List.mem_cons_self ..)) (h.key_le hq ha))
      · rw [if_neg hover]
        have hlast : cde40MaxrealKey src < q.key := Key.compfull_lt.mp (by omega)
        refine .new hsplit hbelow fun q' hq' a ha => ?_
        rcases List.mem_cons.mp hq' with rfl | hq'
        · exact lt_of_lt_of_le hlast (h.key_le hq ha)
        · have hkeys := h.keys
          rw [hsplit] at hkeys
          have hbig := List.rel_of_pairwise_cons (List.pairwise_append.mp hkeys).2.1 hq' e
            (by rw [hes]; exact List.mem_cons_self ..)
          have hmem : q' ∈ items := by
            rw [hsplit]
            exact List.mem_append_right _ (List.mem_cons_of_mem _ hq')
          refine lt_trans hlast (lt_of_le_of_lt (h.key_le hq ?_) (lt_of_lt_of_le hbig (h.key_le hmem ha)))
          rw [hes]
          exact List.mem_cons_self ..
  rcases List.eq_nil_or_concat ps with rfl | ⟨ps', it, rfl⟩
  · have hright : placeRight items ⟨0, none⟩ = false := by
      unfold placeRight
      cases items[0]? <;> rfl
    rw [repairTreeLookup, rowLookup, hcount]
    dsimp only [List.length_nil]
    rw [hright]
    exact hgap nofun
  · rw [List.concat_eq_append] at hsplit hcount hps hgap
    have hsplit' : items = ps' ++ it :: qs := by rw [hsplit, List.append_assoc]; rfl
    have hlen : (ps' ++ [it]).length = ps'.length + 1 := List.length_append
    have hit : it ∈ items := by
      rw [hsplit']
      exact List.mem_append_right _ (List.mem_cons_self ..)
    have hget : items[ps'.length]? = some it := by
      rw [hsplit', List.getElem?_append_right (Nat.le_refl _), Nat.sub_self]
      rfl
    have hitk : it.key ≤ k := hps it (List.mem_append_right _ (List.mem_cons_self ..))
    have hbelow : ∀ p ∈ ps', ∀ a ∈ p.es, hashKey key a < k := by
      intro p hp a ha
      have hkeys := h.keys
      rw [hsplit'] at hkeys
      exact lt_of_lt_of_le ((List.pairwise_append.mp hkeys).2.2 p hp it (List.mem_cons_self ..) a ha) hitk
    obtain ⟨hle, hbefore, hbehind, hpresent⟩ := entryLookup_splits (k := k) (h.hashes hit)
    simp only [cde40GetHash_congr (h.dir it hit)] at hbefore hbehind hpresent
    rw [hlen] at hcount hgap
    rw [repairTreeLookup, rowLookup, hcount]
    dsimp only
    rw [hget]
    dsimp only
    match hres : entryLookup it.key it.es k .exact with
    | (.present, u) =>
      rw [hres] at hle hbefore hbehind hpresent
      obtain ⟨hu, a, ha, hak⟩ := hpresent rfl
      dsimp only
      rw [collisionStart_eq h hsplit' ha hak u]
      exact .inside hsplit' rfl hu hbelow hbefore hbehind
    | (.absent, u) =>
      rw [hres] at hle hbefore hbehind
      have hright : placeRight items ⟨ps'.length, some u⟩ = decide (it.es.length ≤ u) := by
        rw [placeRight, hget]
      dsimp only
      rw [hright]
      by_cases hend : it.es.length ≤ u
      · -- behind the entries of the item
        rw [if_pos (decide_eq_true hend)]
        refine hgap fun p hp => ?_
        rcases List.mem_append.mp hp with hp | hp
        · exact hbelow p hp
        · rw [List.mem_singleton] at hp
          rw [hp]
          rw [List.take_of_length_le hend] at hbefore
          exact hbefore
      · have hover : 0 ≤ Key.compfull (cde40MaxrealKey src) it.key := by
          refine not_lt.mp fun hlt => ?_
          exact absurd (Key.compfull_lt.mp hlt) (not_lt.mpr (le_trans hitk hk))
        rw [if_neg (by simpa using hend)]
        dsimp only
        rw [hget]
        dsimp only
        rw [if_pos hover]
        exact .inside (u := u) hsplit' rfl (by omega) hbelow hbefore hbehind

/-- A row with one more item. -/
theorem Row.insert {ps qs : List CdeItem} (h : Row pol key (ps ++ qs)) (hwf : it.WF pol)
    (hdir : it.key.getLocality = key.getLocality)
    (hps : ∀ p ∈ ps, ∀ a ∈ p.es, ∀ b ∈ it.es, hashKey key a < hashKey key b)
    (hqs : ∀ q ∈ qs, ∀ a ∈ q.es, ∀ b ∈ it.es, hashKey key b < hashKey key a) : Row pol key (ps ++ it :: qs) := by
  have hmem : ∀ x ∈ ps ++ it :: qs, x = it ∨ x ∈ ps ++ qs := by
    intro x hx
    rcases List.mem_append.mp hx with hx | hx
    · exact Or.inr (List.mem_append_left _ hx)
    · rcases List.mem_cons.mp hx with hx | hx
      · exact Or.inl hx
      · exact Or.inr (List.mem_append_right _ hx)
  obtain ⟨hp, hq, hpq⟩ := List.pairwise_append.mp h.apart
  constructor
  · intro x hx
    rcases hmem x hx with rfl | hx
    · exact hwf
    · exact h.wf x hx
  · intro x hx
    rcases hmem x hx with rfl | hx
    · exact hdir
    · exact h.dir x hx
  · refine List.pairwise_append.mpr ⟨hp, List.pairwise_cons.mpr ⟨fun q hqm b hb a ha => hqs q hqm a ha b hb, hq⟩, ?_⟩
    intro p hpm x hx
    rcases List.mem_cons.mp hx with rfl | hx
    · exact fun a ha b hb => hps p hpm a ha b hb
    · exact hpq p hpm x hx

theorem Row.remove {ps qs : List CdeItem} (h : Row pol key (ps ++ it :: qs)) : Row pol key (ps ++ qs) := by
  have hsub : (ps ++ qs).Sublist (ps ++ it :: qs) := (List.Sublist.refl ps).append (List.sublist_cons_self it qs)
  exact ⟨fun x hx => h.wf x (hsub.subset hx), fun x hx => h.dir x (hsub.subset hx), h.apart.sublist hsub⟩

end Rows

/-! ## The loops of the plugin -/

section Loops

variable {pol : KeyPol} {key key1 key2 : Key}

/-- The loop over entries that agree stops where they do not, or where one of the items ends. -/
theorem cde40MatchLoop_spec (h1 : key1.getLocality = key.getLocality) (h2 : key2.getLocality = key.getLocality) :
    ∀ {ds ss : List Entry}, cde40MatchLoop pol key1 key2 ds ss ≤ ds.length ∧
      cde40MatchLoop pol key1 key2 ds ss ≤ ss.length ∧
      (ss.take (cde40MatchLoop pol key1 key2 ds ss)).map (rank pol key) =
        (ds.take (cde40MatchLoop pol key1 key2 ds ss)).map (rank pol key) ∧
      ∀ d ∈ (ds.drop (cde40MatchLoop pol key1 key2 ds ss)).head?,
        ∀ s ∈ (ss.drop (cde40MatchLoop pol key1 key2 ds ss)).head?, rank pol key d ≠ rank pol key s
  | [], ss => ⟨Nat.le_refl _, Nat.zero_le _, rfl, nofun⟩
  | d :: ds, [] => ⟨Nat.zero_le _, Nat.le_refl _, rfl, fun _ _ => nofun⟩
  | d :: ds, s :: ss => by
    have hzero := @cde40CompEntry_zero pol key1 key2 d s
    rw [rank_congr h1, rank_congr h2] at hzero
    rw [cde40MatchLoop]
    by_cases hcomp : cde40CompEntry pol key1 d key2 s = 0
    · obtain ⟨hd, hs, hsame, hstop⟩ := @cde40MatchLoop_spec h1 h2 ds ss
      rw [if_pos hcomp]
      refine ⟨Nat.succ_le_succ hd, Nat.succ_le_succ hs, ?_, hstop⟩
      rw [List.take_succ_cons, List.take_succ_cons, List.map_cons, List.map_cons, hsame, hzero.mp hcomp]
    · rw [if_neg hcomp]
      refine ⟨Nat.zero_le _, Nat.zero_le _, rfl, ?_⟩
      intro d' hd' s' hs' heq
      cases hd'
      cases hs'
      exact hcomp (hzero.mpr heq)

/-- The first entries that are below an entry, and the one that is not. -/
theorem takeWhile_below {p : Entry → Bool} {ss : List Entry} :
    ∃ n, n = (ss.takeWhile p).length ∧ n ≤ ss.length ∧ ss.take n = ss.takeWhile p ∧
      (∀ s ∈ ss.take n, p s = true) ∧ ∀ s ∈ (ss.drop n).head?, p s = false := by
  have hfirst := List.takeWhile_prefix p (l := ss)
  have htake : ss.take (ss.takeWhile p).length = ss.takeWhile p := (List.prefix_iff_eq_take.mp hfirst).symm
  have hdrop : ss.drop (ss.takeWhile p).length = ss.dropWhile p := by
    have hboth := (List.take_append_drop (ss.takeWhile p).length ss).trans
      (List.takeWhile_append_dropWhile (p := p) (l := ss)).symm
    rw [htake] at hboth
    exact List.append_cancel_left hboth
  refine ⟨_, rfl, hfirst.length_le, htake, fun s hs => ?_, fun s hs => ?_⟩
  · rw [htake] at hs
    exact (List.all_eq_true.mp (List.all_takeWhile (p := p) (l := ss))) s hs
  · rw [hdrop] at hs
    have := List.head?_dropWhile_not p ss
    cases hd : ss.dropWhile p with
    | nil =>
      rw [hd] at hs
      cases hs
    | cons z zs =>
      rw [hd] at hs this
      cases hs
      simpa using this

end Loops

/-! ## One round -/

section OneRound

variable {pol : KeyPol} {room : List CdeItem → List CdeItem} {src : CdeItem} {items items' : List CdeItem}
variable {spos spos' : Nat} {offset : Key}

/-- The ranks of the entries that are to be inserted. -/
def srcRanks (pol : KeyPol) (src : CdeItem) : List (Key ×ₗ List Nat) := src.es.map (rank pol src.key)

/-- The ranks of the entries of a row. -/
def rowRanks (pol : KeyPol) (key : Key) (items : List CdeItem) : List (Key ×ₗ List Nat) :=
  (rowEntries items).map (rank pol key)

/-- Making room changes the borders only, and puts none between entries of one key. -/
def KeepsRow (pol : KeyPol) (key : Key) (room : List CdeItem → List CdeItem) : Prop :=
  ∀ items, Row pol key items → Row pol key (room items) ∧ rowEntries (room items) = rowEntries items

/-- What a round does to the row. -/
structure After (pol : KeyPol) (src : CdeItem) (items : List CdeItem) (spos : Nat) (items' : List CdeItem)
    (spos' : Nat) : Prop where
  row : Row pol src.key items'
  round : Round rankKey (rowRanks pol src.key items) ((srcRanks pol src).drop spos) (rowRanks pol src.key items')
    ((srcRanks pol src).drop spos')
  kept : ∀ e ∈ rowEntries items, e ∈ rowEntries items'
  source : ∀ e ∈ rowEntries items', e ∈ rowEntries items ∨ e ∈ src.es

theorem After.makeRoom (h : After pol src items spos items' spos') (hroom : KeepsRow pol src.key room) :
    After pol src items spos (room items') spos' := by
  obtain ⟨hrow, hsame⟩ := hroom items' h.row
  constructor
  · exact hrow
  · rw [rowRanks, rowRanks, hsame]
    exact h.round
  · rw [hsame]
    exact h.kept
  · rw [hsame]
    exact h.source

/-- The entries from a unit on have its key or larger ones. -/
theorem CdeItem.WF.hash_le (hsrc : src.WF pol) {e : Entry} (hspos : src.es[spos]? = some e) {s : Entry}
    (hs : s ∈ src.es.drop spos) : hashKey src.key e ≤ hashKey src.key s := by
  obtain ⟨hlt, rfl⟩ := List.getElem?_eq_some_iff.mp hspos
  rw [List.drop_eq_getElem_cons hlt] at hs
  rcases List.mem_cons.mp hs with rfl | hs
  · exact le_refl _
  · have hsorted := hsrc.hashes
    rw [← List.take_append_drop spos src.es, List.drop_eq_getElem_cons hlt, List.map_append] at hsorted
    have htail := (List.pairwise_append.mp hsorted).2.1
    rw [List.map_cons] at htail
    exact List.rel_of_pairwise_cons htail (List.mem_map_of_mem hs)

theorem CdeItem.WF.le_maxreal (hsrc : src.WF pol) {s : Entry} (hs : s ∈ src.es) :
    hashKey src.key s ≤ cde40MaxrealKey src := by
  rcases List.eq_nil_or_concat src.es with hnil | ⟨es, e, hes⟩
  · rw [hnil] at hs
    cases hs
  · rw [List.concat_eq_append] at hes
    have hlast : cde40MaxrealKey src = hashKey src.key e := by
      rw [cde40MaxrealKey, hes, List.getLast?_concat]
      rfl
    have hsorted := hsrc.hashes
    rw [hes] at hs hsorted
    rw [hlast]
    rcases List.mem_append.mp hs with hs | hs
    · rw [List.map_append] at hsorted
      exact (List.pairwise_append.mp hsorted).2.2 _ (List.mem_map_of_mem hs) _ (List.mem_singleton.mpr rfl)
    · rw [List.mem_singleton.mp hs]

/-- An item whose first entry is that of a key's unit. -/
theorem getLocality_hashKey (key : Key) (e : Entry) : (hashKey key e).getLocality = key.getLocality := by
  have h : (hashKey key e).el0 = key.getLocality * 16 + 0 := rfl
  rw [Key.getLocality, h]
  omega

/-- All that is left goes into an item of its own. -/
theorem after_new (hrow : Row pol src.key items) (hsrc : src.WF pol) {e : Entry} (hspos : src.es[spos]? = some e)
    (hoffset : offset = hashKey src.key e) {ps qs : List CdeItem} (hsplit : items = ps ++ qs)
    (hps : ∀ p ∈ ps, ∀ a ∈ p.es, hashKey src.key a < offset)
    (hqs : ∀ q ∈ qs, ∀ a ∈ q.es, cde40MaxrealKey src < hashKey src.key a) :
    After pol src items spos (ps ++ ⟨offset, src.es.drop spos⟩ :: qs) src.es.length := by
  obtain ⟨hlt, hget⟩ := List.getElem?_eq_some_iff.mp hspos
  have hdrop : src.es.drop spos = e :: src.es.drop (spos + 1) := by
    rw [List.drop_eq_getElem_cons hlt, hget]
  have hloc : offset.getLocality = src.key.getLocality := by rw [hoffset, getLocality_hashKey]
  have hlow : ∀ p ∈ ps, ∀ a ∈ p.es, ∀ b ∈ src.es.drop spos, hashKey src.key a < hashKey src.key b :=
    fun p hp a ha b hb => lt_of_lt_of_le (hps p hp a ha) (hoffset ▸ hsrc.hash_le hspos hb)
  have hhigh : ∀ q ∈ qs, ∀ a ∈ q.es, ∀ b ∈ src.es.drop spos, hashKey src.key b < hashKey src.key a :=
    fun q hq a ha b hb => lt_of_le_of_lt (hsrc.le_maxreal (List.mem_of_mem_drop hb)) (hqs q hq a ha)
  have hentries : rowEntries (ps ++ ⟨offset, src.es.drop spos⟩ :: qs) =
      rowEntries ps ++ (src.es.drop spos ++ rowEntries qs) := by
    rw [rowEntries, List.flatMap_append, List.flatMap_cons]
    rfl
  have hentries0 : rowEntries items = rowEntries ps ++ rowEntries qs := by
    rw [rowEntries, hsplit, List.flatMap_append]
    rfl
  constructor
  · rw [hsplit] at hrow
    refine hrow.insert ⟨?_, ?_⟩ hloc hlow hhigh
    · show (src.es.drop spos).head?.map (hashKey offset) = some offset
      rw [hdrop, List.head?_cons, Option.map_some, cde40GetHash_congr hloc, ← hoffset]
    · refine (hsrc.sorted.sublist (List.drop_sublist spos src.es)).imp fun {a b} hab => ?_
      rw [cde40CompEntry_lt, rank_congr hloc, rank_congr hloc]
      exact cde40CompEntry_lt.mp hab
  · rw [rowRanks, rowRanks, hentries, hentries0, srcRanks, ← List.map_drop, ← List.map_drop, List.drop_length,
      List.map_append, List.map_append, List.map_append]
    have hround := @Round.insert _ _ _ _ rankKey ((rowEntries ps).map (rank pol src.key))
      ((rowEntries qs).map (rank pol src.key)) ((src.es.drop spos).map (rank pol src.key)) [] ?_ ?_ ?_ nofun
    · rw [List.append_nil] at hround
      exact hround
    · rw [hdrop]
      exact List.cons_ne_nil _ _
    · intro x hx y hy
      obtain ⟨a, ha, rfl⟩ := List.mem_map.mp hx
      obtain ⟨b, hb, rfl⟩ := List.mem_map.mp hy
      obtain ⟨p, hp, hap⟩ := List.mem_flatMap.mp ha
      exact hlow p hp a hap b hb
    · intro y hy x hx
      obtain ⟨b, hb, rfl⟩ := List.mem_map.mp hy
      obtain ⟨a, ha, rfl⟩ := List.mem_map.mp hx
      obtain ⟨q, hq, haq⟩ := List.mem_flatMap.mp ha
      exact rankKey_mono.reflect_lt (hhigh q hq a haq b hb)
  · intro a ha
    rw [hentries0] at ha
    rw [hentries]
    rcases List.mem_append.mp ha with ha | ha
    · exact List.mem_append_left _ ha
    · exact List.mem_append_right _ (List.mem_append_right _ ha)
  · intro a ha
    rw [hentries] at ha
    rw [hentries0]
    rcases List.mem_append.mp ha with ha | ha
    · exact Or.inl (List.mem_append_left _ ha)
    · rcases List.mem_append.mp ha with ha | ha
      · exact Or.inr (List.mem_of_mem_drop ha)
      · exact Or.inl (List.mem_append_right _ ha)

/-- Entries go into the item that was found, in front of those that are not below the key. -/
theorem after_insert (hrow : Row pol src.key items) (hsrc : src.WF pol) (hready : Ready rankKey (srcRanks pol src)
      (rowRanks pol src.key items) ((srcRanks pol src).drop spos)) {e : Entry} (hspos : src.es[spos]? = some e)
    (hoffset : offset = hashKey src.key e) {ps qs : List CdeItem} {it : CdeItem} {u n : Nat}
    (hsplit : items = ps ++ it :: qs) (hps : ∀ p ∈ ps, ∀ a ∈ p.es, hashKey src.key a < offset)
    (hbefore : ∀ a ∈ it.es.take u, hashKey src.key a < offset) {d : Entry} (hd : it.es[u]? = some d)
    (hn : 0 < n)
    (hlow : ∀ s ∈ (src.es.drop spos).take n, rank pol src.key s < rank pol src.key d)
    (hstop : ∀ s ∈ (src.es.drop (spos + n)).head?, rank pol src.key d ≤ rank pol src.key s) :
    After pol src items spos (ps ++ ⟨if u = 0 then offset else it.key,
      it.es.take u ++ ((src.es.drop spos).take n ++ it.es.drop u)⟩ :: qs) (spos + n) := by
  obtain ⟨hlt, hget⟩ := List.getElem?_eq_some_iff.mp hspos
  obtain ⟨hu, hdget⟩ := List.getElem?_eq_some_iff.mp hd
  have hit : it ∈ items := by
    rw [hsplit]
    exact List.mem_append_right _ (List.mem_cons_self ..)
  have hitloc := hrow.dir it hit
  have hnew : (src.es.drop spos).take n = e :: (src.es.drop (spos + 1)).take (n - 1) := by
    rw [List.drop_eq_getElem_cons hlt, hget, show n = (n - 1) + 1 from by omega, List.take_succ_cons]
    rfl
  have hrest : it.es.drop u = d :: it.es.drop (u + 1) := by rw [List.drop_eq_getElem_cons hu, hdget]
  have hloc : offset.getLocality = src.key.getLocality := by rw [hoffset, getLocality_hashKey]
  have hentries : ∀ key' es', rowEntries (ps ++ ⟨key', it.es.take u ++ (es' ++ it.es.drop u)⟩ :: qs) =
      (rowEntries ps ++ it.es.take u) ++ (es' ++ (it.es.drop u ++ rowEntries qs)) := by
    intro key' es'
    rw [rowEntries, List.flatMap_append, List.flatMap_cons]
    show rowEntries ps ++ ((it.es.take u ++ (es' ++ it.es.drop u)) ++ rowEntries qs) = _
    simp only [List.append_assoc]
  have hentries0 : rowEntries items = (rowEntries ps ++ it.es.take u) ++ (it.es.drop u ++ rowEntries qs) := by
    have h := hentries it.key []
    rw [List.nil_append, List.take_append_drop, List.nil_append] at h
    rw [hsplit]
    exact h
  have hbound : ∀ a ∈ it.es.drop u ++ rowEntries qs, rank pol src.key d ≤ rank pol src.key a := by
    intro a ha
    have hs := hrow.ranks
    rw [hentries0, hrest, List.map_append] at hs
    have htail := (List.pairwise_append.mp hs).2.1
    rw [List.cons_append, List.map_cons] at htail
    rw [hrest, List.cons_append] at ha
    rcases List.mem_cons.mp ha with rfl | ha
    · exact le_refl _
    · exact le_of_lt (List.rel_of_pairwise_cons htail (List.mem_map_of_mem ha))
  have hround : Round rankKey (rowRanks pol src.key items) ((srcRanks pol src).drop spos)
      ((rowEntries ps ++ it.es.take u ++ ((src.es.drop spos).take n ++ (it.es.drop u ++ rowEntries qs))).map
        (rank pol src.key)) ((srcRanks pol src).drop (spos + n)) := by
    have h := @Round.insert _ _ _ _ rankKey ((rowEntries ps ++ it.es.take u).map (rank pol src.key))
      ((it.es.drop u ++ rowEntries qs).map (rank pol src.key)) (((src.es.drop spos).take n).map (rank pol src.key))
      ((src.es.drop (spos + n)).map (rank pol src.key)) ?_ ?_ ?_ ?_
    · have hts : (srcRanks pol src).drop spos = ((src.es.drop spos).take n).map (rank pol src.key) ++
          (src.es.drop (spos + n)).map (rank pol src.key) := by
        rw [srcRanks, ← List.map_drop, ← List.map_append, ← List.drop_drop, List.take_append_drop]
      have hts' : (srcRanks pol src).drop (spos + n) = (src.es.drop (spos + n)).map (rank pol src.key) := by
        rw [srcRanks, ← List.map_drop]
      have hold : rowRanks pol src.key items = (rowEntries ps ++ it.es.take u).map (rank pol src.key) ++
          (it.es.drop u ++ rowEntries qs).map (rank pol src.key) := by
        rw [rowRanks, hentries0, List.map_append]
      have hnewer : (rowEntries ps ++ it.es.take u ++ ((src.es.drop spos).take n ++ (it.es.drop u ++ rowEntries qs))).map
          (rank pol src.key) = (rowEntries ps ++ it.es.take u).map (rank pol src.key) ++
            (((src.es.drop spos).take n).map (rank pol src.key) ++
              (it.es.drop u ++ rowEntries qs).map (rank pol src.key)) := by
        exact List.map_append.trans (congrArg _ List.map_append)
      rw [hold, hnewer, hts, hts']
      exact h
    · rw [hnew]
      exact List.cons_ne_nil _ _
    · intro x hx y hy
      obtain ⟨a, ha, rfl⟩ := List.mem_map.mp hx
      obtain ⟨b, hb, rfl⟩ := List.mem_map.mp hy
      have hab : hashKey src.key a < offset := by
        rcases List.mem_append.mp ha with ha | ha
        · obtain ⟨p, hp, hap⟩ := List.mem_flatMap.mp ha
          exact hps p hp a hap
        · exact hbefore a ha
      exact lt_of_lt_of_le hab (hoffset ▸ hsrc.hash_le hspos (List.mem_of_mem_take hb))
    · intro y hy x hx
      obtain ⟨b, hb, rfl⟩ := List.mem_map.mp hy
      obtain ⟨a, ha, rfl⟩ := List.mem_map.mp hx
      exact lt_of_lt_of_le (hlow b hb) (hbound a ha)
    · intro t ht
      rw [List.head?_map] at ht
      obtain ⟨s, hs, rfl⟩ := Option.mem_map.mp ht
      refine ⟨rank pol src.key d, ?_, hstop s hs⟩
      rw [hrest]
      rfl
  have hsorted := (hround.ready rankKey_mono hsrc.ranks hready).1.sorted
  have hinto : ∀ b ∈ it.es.take u ++ ((src.es.drop spos).take n ++ it.es.drop u),
      b ∈ it.es ∨ b ∈ (src.es.drop spos).take n := by
    intro b hb
    rcases List.mem_append.mp hb with hb | hb
    · exact Or.inl (List.mem_of_mem_take hb)
    · rcases List.mem_append.mp hb with hb | hb
      · exact Or.inr hb
      · exact Or.inl (List.mem_of_mem_drop hb)
  constructor
  · rw [hsplit] at hrow
    refine hrow.remove.insert ⟨?_, ?_⟩ ?_ ?_ ?_
    · by_cases h0 : u = 0
      · rw [if_pos h0, h0, List.take_zero, List.nil_append, hnew]
        show some (hashKey offset e) = some offset
        rw [cde40GetHash_congr hloc, ← hoffset]
      · obtain ⟨e0, es0, hes0, hkey0⟩ := (hrow.wf it (List.mem_append_right _ (List.mem_cons_self ..))).head
        rw [if_neg h0]
        show (it.es.take u ++ _).head?.map (hashKey it.key) = some it.key
        rw [hes0, show u = (u - 1) + 1 from by omega, List.take_succ_cons]
        exact congrArg some hkey0.symm
    · have hloc' : (if u = 0 then offset else it.key).getLocality = src.key.getLocality := by
        split
        · exact hloc
        · exact hitloc
      have hsub : (it.es.take u ++ ((src.es.drop spos).take n ++ it.es.drop u)).Sublist
          (rowEntries ps ++ it.es.take u ++ ((src.es.drop spos).take n ++ (it.es.drop u ++ rowEntries qs))) := by
        have hmid : rowEntries ps ++ it.es.take u ++ ((src.es.drop spos).take n ++ (it.es.drop u ++ rowEntries qs)) =
            rowEntries ps ++ ((it.es.take u ++ ((src.es.drop spos).take n ++ it.es.drop u)) ++ rowEntries qs) := by
          simp only [List.append_assoc]
        rw [hmid]
        exact (List.sublist_append_left ..).trans (List.sublist_append_right ..)
      refine (List.pairwise_map.mp (hsorted.sublist (hsub.map _))).imp fun {a b} hab => ?_
      rw [cde40CompEntry_lt, rank_congr hloc', rank_congr hloc']
      exact hab
    · show (if u = 0 then offset else it.key).getLocality = src.key.getLocality
      split
      · exact hloc
      · exact hitloc
    · intro p hp a ha b hb
      rcases hinto b hb with hb | hb
      · exact (List.pairwise_append.mp hrow.apart).2.2 p hp it (List.mem_cons_self ..) a ha b hb
      · exact lt_of_lt_of_le (hps p hp a ha) (hoffset ▸ hsrc.hash_le hspos (List.mem_of_mem_take hb))
    · intro q hq a ha b hb
      have hbehind := List.rel_of_pairwise_cons (List.pairwise_append.mp hrow.apart).2.1 hq
      rcases hinto b hb with hb | hb
      · exact hbehind b hb a ha
      · exact lt_of_le_of_lt (rankKey_mono (le_of_lt (hlow b hb))) (hbehind d (List.mem_of_getElem? hd) a ha)
  · show Round rankKey _ _ ((rowEntries _).map _) _
    rw [hentries]
    exact hround
  · intro a ha
    rw [hentries0] at ha
    rw [hentries]
    rcases List.mem_append.mp ha with ha | ha
    · exact List.mem_append_left _ ha
    · exact List.mem_append_right _ (List.mem_append_right _ ha)
  · intro a ha
    rw [hentries] at ha
    rw [hentries0]
    rcases List.mem_append.mp ha with ha | ha
    · exact Or.inl (List.mem_append_left _ ha)
    · rcases List.mem_append.mp ha with ha | ha
      · exact Or.inr (List.mem_of_mem_drop (List.mem_of_mem_take ha))
      · exact Or.inl (List.mem_append_right _ ha)

/-- Where the entry that was found is not above the next one, the row stays as it is. -/
theorem after_skip (hrow : Row pol src.key items) {e : Entry} (hspos : src.es[spos]? = some e)
    (hoffset : offset = hashKey src.key e) {ps qs : List CdeItem} {it : CdeItem} {u m : Nat}
    (hsplit : items = ps ++ it :: qs) (hps : ∀ p ∈ ps, ∀ a ∈ p.es, hashKey src.key a < offset)
    (hbefore : ∀ a ∈ it.es.take u, hashKey src.key a < offset)
    (hbehind : ∀ a ∈ it.es.drop u, offset ≤ hashKey src.key a) {d : Entry} (hd : it.es[u]? = some d)
    (hle : rank pol src.key d ≤ rank pol src.key e)
    (hm : m = cde40MatchLoop pol it.key src.key (it.es.drop (u + 1)) (src.es.drop (spos + 1))) :
    After pol src items spos items (spos + 1 + m) := by
  obtain ⟨hlt, hget⟩ := List.getElem?_eq_some_iff.mp hspos
  obtain ⟨hu, hdget⟩ := List.getElem?_eq_some_iff.mp hd
  have hit : it ∈ items := by
    rw [hsplit]
    exact List.mem_append_right _ (List.mem_cons_self ..)
  have hrest : it.es.drop u = d :: it.es.drop (u + 1) := by rw [List.drop_eq_getElem_cons hu, hdget]
  have hnext : src.es.drop spos = e :: src.es.drop (spos + 1) := by rw [List.drop_eq_getElem_cons hlt, hget]
  have hdrop : src.es.drop (spos + 1 + m) = (src.es.drop (spos + 1)).drop m := List.drop_drop.symm
  obtain ⟨hmd, hms, hsame, hstop⟩ := @cde40MatchLoop_spec pol src.key it.key src.key (hrow.dir it hit) rfl
    (it.es.drop (u + 1)) (src.es.drop (spos + 1))
  rw [← hm] at hmd hms hsame hstop
  have hkey : hashKey src.key d = hashKey src.key e := by
    refine le_antisymm (rankKey_mono hle) ?_
    rw [← hoffset]
    exact hbehind d (by rw [hrest]; exact List.mem_cons_self ..)
  have hentries : rowEntries items =
      (rowEntries ps ++ it.es.take u) ++ d :: (it.es.drop (u + 1) ++ rowEntries qs) := by
    rw [hsplit, rowEntries, List.flatMap_append, List.flatMap_cons]
    show rowEntries ps ++ (it.es ++ rowEntries qs) = _
    rw [← List.cons_append, ← hrest, List.append_assoc, ← List.append_assoc (it.es.take u), List.take_append_drop]
  refine ⟨hrow, ?_, fun a ha => ha, fun a ha => Or.inl ha⟩
  have h := @Round.skip _ _ _ _ rankKey ((rowEntries ps ++ it.es.take u).map (rank pol src.key))
    ((it.es.drop (u + 1) ++ rowEntries qs).map (rank pol src.key))
    (((src.es.drop (spos + 1)).take m).map (rank pol src.key))
    ((src.es.drop (spos + 1 + m)).map (rank pol src.key)) (rank pol src.key d) (rank pol src.key e) hle hkey ?_ ?_ ?_
  · have hts : (srcRanks pol src).drop spos = rank pol src.key e ::
        (((src.es.drop (spos + 1)).take m).map (rank pol src.key) ++
          (src.es.drop (spos + 1 + m)).map (rank pol src.key)) := by
      rw [srcRanks, ← List.map_drop, hnext, List.map_cons, ← List.map_append, hdrop, List.take_append_drop]
    have hts' : (srcRanks pol src).drop (spos + 1 + m) = (src.es.drop (spos + 1 + m)).map (rank pol src.key) := by
      rw [srcRanks, ← List.map_drop]
    rw [rowRanks, hentries, hts, hts', List.map_append, List.map_cons]
    exact h
  · intro x hx
    obtain ⟨a, ha, rfl⟩ := List.mem_map.mp hx
    show hashKey src.key a < hashKey src.key e
    rw [← hoffset]
    rcases List.mem_append.mp ha with ha | ha
    · obtain ⟨p, hp, hap⟩ := List.mem_flatMap.mp ha
      exact hps p hp a hap
    · exact hbefore a ha
  · rw [hsame, List.map_append]
    have htaken := List.take_prefix m (it.es.drop (u + 1))
    exact (htaken.map _).trans (List.prefix_append ..)
  · -- the entry behind the ones that agree differs, or is in the next item and has a larger key
    intro y hy hyk
    rw [List.length_map, List.length_take, Nat.min_eq_left hms, ← List.map_drop, List.head?_map]
    rw [List.head?_map] at hy
    obtain ⟨s, hs, rfl⟩ := Option.mem_map.mp hy
    rw [hdrop] at hs
    intro heq
    obtain ⟨a, ha, hay⟩ := Option.map_eq_some_iff.mp heq
    rw [List.drop_append_of_le_length hmd] at ha
    cases hlast : (it.es.drop (u + 1)).drop m with
    | cons d' ds =>
      rw [hlast, List.cons_append, List.head?_cons] at ha
      obtain rfl := Option.some.inj ha
      exact hstop d' (by rw [hlast]; rfl) s hs hay
    | nil =>
      rw [hlast, List.nil_append] at ha
      obtain ⟨q, hq, haq⟩ := List.mem_flatMap.mp (List.mem_of_mem_head? ha)
      have hapart := hrow.apart
      rw [hsplit] at hapart
      have hlarge := List.rel_of_pairwise_cons (List.pairwise_append.mp hapart).2.1 hq d (List.mem_of_getElem? hd) a haq
      rw [hkey, ← rankKey_rank pol, ← rankKey_rank pol src.key a, hay, hyk] at hlarge
      exact lt_irrefl _ hlarge

/-- In a new item everything that is left is inserted. -/
theorem treeModify_new {ps qs : List CdeItem} (hlt : spos < src.es.length) : treeModify pol room src (ps ++ qs) spos offset
    ps.length none = (room (ps ++ ⟨offset, src.es.drop spos⟩ :: qs), nextKey pol src src.es.length) := by
  have hcount : (cde40PrepInsertRaw pol ⟨offset, []⟩ none src spos).count = src.es.length - spos := rfl
  have hne : src.es.length - spos ≠ 0 := by omega
  have hinsert : ∀ x : CdeItem, (ps ++ qs).insertIdx ps.length x = ps ++ x :: qs := by
    intro x
    induction ps with
    | nil => rfl
    | cons p ps ih => exact congrArg (p :: ·) ih
  unfold treeModify
  dsimp only
  rw [if_pos rfl, hcount, if_neg hne, if_pos rfl, hinsert]
  unfold cde40InsertRaw
  dsimp only
  rw [if_pos hne, if_neg hne, if_pos rfl, if_pos ⟨rfl, hne⟩, show spos + (src.es.length - spos) = src.es.length from by omega,
    List.take_of_length_le (by rw [List.length_drop])]

/-- In an item that is there the entries below the one at the place are inserted, or none. -/
theorem treeModify_old {ps qs : List CdeItem} {it : CdeItem} {u : Nat} {d : Entry} (hd : it.es[u]? = some d)
    (hspos : spos < src.es.length) (hloc : it.key.getLocality = src.key.getLocality) :
    ∃ n, spos + n ≤ src.es.length ∧
      (∀ s ∈ (src.es.drop spos).take n, rank pol src.key s < rank pol src.key d) ∧
      (∀ s ∈ (src.es.drop (spos + n)).head?, rank pol src.key d ≤ rank pol src.key s) ∧
      treeModify pol room src (ps ++ it :: qs) spos offset ps.length (some u) =
        if n = 0 then (ps ++ it :: qs, nextKey pol src (spos + 1 +
          cde40MatchLoop pol it.key src.key (it.es.drop (u + 1)) (src.es.drop (spos + 1))))
        else (room (ps ++ ⟨if u = 0 then offset else it.key,
          it.es.take u ++ ((src.es.drop spos).take n ++ it.es.drop u)⟩ :: qs), nextKey pol src (spos + n)) := by
  obtain ⟨n, hn, hle, -, hlow, hstop⟩ := @takeWhile_below
    (fun s => 0 < cde40CompEntry pol it.key d src.key s) (src.es.drop spos)
  rw [List.length_drop] at hle
  have hcount : (cde40PrepInsertRaw pol it (some u) src spos).count = n := by
    unfold cde40PrepInsertRaw
    dsimp only [Option.bind_some]
    rw [hd, hn]
    exact Nat.add_sub_cancel_left ..
  have hpos : ∀ s, (0 < cde40CompEntry pol it.key d src.key s) ↔ rank pol src.key s < rank pol src.key d := by
    intro s
    rw [cde40CompEntry_pos, rank_congr hloc]
  have hget : (ps ++ it :: qs).getD ps.length ⟨offset, []⟩ = it := by
    rw [List.getD_eq_getElem?_getD, List.getElem?_append_right (Nat.le_refl _), Nat.sub_self]
    rfl
  have hset : ∀ x : CdeItem, (ps ++ it :: qs).set ps.length x = ps ++ x :: qs := by
    intro x
    rw [List.set_append_right ps.length x (Nat.le_refl _), Nat.sub_self]
    rfl
  have hsome : some u ≠ none := Option.some_ne_none u
  refine ⟨n, by omega, fun s hs => ?_, fun s hs => ?_, ?_⟩
  · exact (hpos s).mp (of_decide_eq_true (hlow s hs))
  · rw [← List.drop_drop] at hs
    exact not_lt.mp fun hlt => absurd ((hpos s).mpr hlt) (of_decide_eq_false (hstop s hs))
  · unfold treeModify
    dsimp only
    rw [if_neg hsome, hget, hcount, if_neg hsome, hset]
    unfold cde40InsertRaw
    dsimp only [Option.getD_some]
    by_cases h0 : n = 0
    · rw [if_pos h0, if_pos h0, if_pos h0, if_neg (fun h => h.2 h0), if_neg (fun h => h h0)]
    · rw [if_neg h0, if_neg h0, if_pos h0, if_neg h0, if_neg hsome]
      by_cases hu0 : u = 0
      · rw [if_pos ⟨hu0, h0⟩, if_pos hu0]
      · rw [if_neg (fun h => hu0 h.1), if_neg hu0]

/-- **A round on the items is a round on the entries.** -/
theorem insertRound_round (hroom : KeepsRow pol src.key room) (hrow : Row pol src.key items) (hsrc : src.WF pol)
    (hready : Ready rankKey (srcRanks pol src) (rowRanks pol src.key items) ((srcRanks pol src).drop spos)) {e : Entry}
    (hspos : src.es[spos]? = some e) (hoffset : offset = hashKey src.key e) : ∃ spos',
    After pol src items spos (insertRound pol room src items spos offset).1 spos' ∧
      (insertRound pol room src items spos offset).2 = nextKey pol src spos' := by
  obtain ⟨hlt, hget⟩ := List.getElem?_eq_some_iff.mp hspos
  have hlands := repairTreeLookup_spec hrow src (hoffset ▸ hsrc.le_maxreal (List.mem_of_getElem? hspos))
  unfold insertRound
  dsimp only
  match hdst : repairTreeLookup items src offset, hlands with
  | _, @Lands.new _ _ _ _ ps qs hsplit hps hqs =>
    dsimp only [insertUnit]
    rw [hsplit, treeModify_new hlt]
    rw [hsplit] at hrow
    exact ⟨src.es.length, (after_new hrow hsrc hspos hoffset rfl hps hqs).makeRoom hroom, rfl⟩
  | _, @Lands.inside _ _ _ _ ps qs it u unit hsplit hunit hu hps hbefore hbehind =>
    dsimp only [insertUnit]
    rw [hunit]
    have hd : it.es[u]? = some it.es[u] := List.getElem?_eq_getElem hu
    have hit : it ∈ items := by
      rw [hsplit]
      exact List.mem_append_right _ (List.mem_cons_self ..)
    obtain ⟨n, hfit, hlow, hstop, heq⟩ := @treeModify_old pol room src spos offset ps qs it u _ hd hlt (hrow.dir it hit)
    rw [hsplit, heq]
    rw [hsplit] at hrow hready
    by_cases h0 : n = 0
    · rw [if_pos h0]
      rw [h0, Nat.add_zero, List.drop_eq_getElem_cons hlt, hget] at hstop
      exact ⟨_, after_skip hrow hspos hoffset rfl hps hbefore hbehind hd (hstop e rfl) rfl, rfl⟩
    · rw [if_neg h0]
      have hafter := after_insert hrow hsrc hready hspos hoffset rfl hps hbefore hd (Nat.pos_of_ne_zero h0) hlow hstop
      exact ⟨spos + n, hafter.makeRoom hroom, rfl⟩

/-! ## The next round -/

/-- No entry has the largest key a directory item may hold. -/
def Bounded (pol : KeyPol) (src : CdeItem) : Prop := ∀ e ∈ src.es, hashKey src.key e < cde40MaxpossKey pol src.key

/-- The next round starts at the first entry with the key of the next one. -/
theorem next_unit (hsrc : src.WF pol) {s : Entry} (hs : src.es[spos]? = some s) :
    ∃ e, src.es[(entryLookup src.key src.es (hashKey src.key s) .exact).2]? = some e ∧
      hashKey src.key e = hashKey src.key s ∧
      (srcRanks pol src).drop (entryLookup src.key src.es (hashKey src.key s) .exact).2 =
        back rankKey (srcRanks pol src) ((srcRanks pol src).drop spos) := by
  obtain ⟨hle, hbefore, hbehind, -⟩ := entryLookup_splits (k := hashKey src.key s) hsrc.hashes
  obtain ⟨n, hn⟩ : ∃ n, n = (entryLookup src.key src.es (hashKey src.key s) .exact).2 := ⟨_, rfl⟩
  rw [← hn] at hle hbefore hbehind ⊢
  obtain ⟨hlt, hget⟩ := List.getElem?_eq_some_iff.mp hs
  have hnspos : n ≤ spos := by
    by_contra hbig
    have hmem : s ∈ src.es.take n := List.mem_take_iff_getElem.mpr ⟨spos, by omega, hget⟩
    exact lt_irrefl _ (hbefore s hmem)
  have hnlt : n < src.es.length := by omega
  have hhead : hashKey src.key src.es[n] = hashKey src.key s := by
    refine le_antisymm ?_ ?_
    · refine hsrc.hash_le (List.getElem?_eq_getElem hnlt) ?_
      have hat : src.es[n + (spos - n)]? = some s := by
        rw [show n + (spos - n) = spos from by omega]
        exact hs
      obtain ⟨hlt', hget'⟩ := List.getElem?_eq_some_iff.mp hat
      exact List.mem_drop_iff_getElem.mpr ⟨spos - n, by omega, hget'⟩
    · exact hbehind _ (by rw [List.drop_eq_getElem_cons hnlt]; exact List.mem_cons_self ..)
  refine ⟨src.es[n], List.getElem?_eq_getElem hnlt, hhead, ?_⟩
  have hfrom : (srcRanks pol src).drop spos = rank pol src.key s :: (srcRanks pol src).drop (spos + 1) := by
    rw [srcRanks, ← List.map_drop, ← List.map_drop, List.drop_eq_getElem_cons hlt, hget, List.map_cons]
  have hcut : srcRanks pol src = (src.es.take n).map (rank pol src.key) ++ (srcRanks pol src).drop n := by
    rw [srcRanks, ← List.map_drop, ← List.map_append, List.take_append_drop]
  rw [hfrom]
  show _ = (srcRanks pol src).dropWhile fun y => decide (rankKey y < hashKey src.key s)
  conv_rhs => rw [hcut]
  rw [List.dropWhile_append_of_pos]
  · rw [srcRanks, ← List.map_drop, List.drop_eq_getElem_cons hnlt, List.map_cons]
    refine (List.dropWhile_cons_of_neg ?_).symm
    rw [rankKey_rank, hhead, decide_eq_true_eq]
    exact lt_irrefl _
  · intro y hy
    obtain ⟨a, ha, rfl⟩ := List.mem_map.mp hy
    exact decide_eq_true (hbefore a ha)

/-- Behind the last entry the loop ends, as long as no entry has the largest key. -/
theorem next_end (hsrc : src.WF pol) :
    src.es.length ≤ (entryLookup src.key src.es (cde40MaxpossKey pol src.key) .exact).2 ↔ Bounded pol src := by
  obtain ⟨hle, hbefore, hbehind, -⟩ := entryLookup_splits (k := cde40MaxpossKey pol src.key) hsrc.hashes
  obtain ⟨n, hn⟩ : ∃ n, n = (entryLookup src.key src.es (cde40MaxpossKey pol src.key) .exact).2 := ⟨_, rfl⟩
  rw [← hn] at hle hbefore hbehind ⊢
  constructor
  · intro hend e he
    rw [List.take_of_length_le hend] at hbefore
    exact hbefore e he
  · intro hall
    by_contra hlt
    have hmem : src.es[n] ∈ src.es.drop n := by
      rw [List.drop_eq_getElem_cons (by omega)]
      exact List.mem_cons_self ..
    exact absurd (hall _ (List.mem_of_mem_drop hmem)) (not_lt.mpr (hbehind _ hmem))

/-- Between two rounds. -/
structure Going (pol : KeyPol) (src : CdeItem) (items : List CdeItem) (spos : Nat) (offset : Key) : Prop where
  row : Row pol src.key items
  ready : Ready rankKey (srcRanks pol src) (rowRanks pol src.key items) ((srcRanks pol src).drop spos)
  unit : ∃ e, src.es[spos]? = some e ∧ offset = hashKey src.key e

/-- What the turn of the loop does, and whether it is the last. -/
theorem Going.step (hroom : KeepsRow pol src.key room) (hsrc : src.WF pol) (hbound : Bounded pol src)
    (h : Going pol src items spos offset) : ∃ spos',
      After pol src items spos (insertRound pol room src items spos offset).1 spos' ∧
      let next := (entryLookup src.key src.es (insertRound pol room src items spos offset).2 .exact).2
      (src.es.length ≤ next ∧ back rankKey (srcRanks pol src) ((srcRanks pol src).drop spos') = []) ∨
        (next < src.es.length ∧
          (srcRanks pol src).drop next = back rankKey (srcRanks pol src) ((srcRanks pol src).drop spos') ∧
          Going pol src (insertRound pol room src items spos offset).1 next
            (insertRound pol room src items spos offset).2) := by
  obtain ⟨e, he, hoffset⟩ := h.unit
  obtain ⟨spos', hafter, hkey⟩ := insertRound_round hroom h.row hsrc h.ready he hoffset
  refine ⟨spos', hafter, ?_⟩
  dsimp only
  rw [hkey]
  cases hs : src.es[spos']? with
  | none =>
    have hnext : nextKey pol src spos' = cde40MaxpossKey pol src.key := by rw [nextKey, hs]
    have hnone : (srcRanks pol src).drop spos' = [] := by
      rw [srcRanks, ← List.map_drop, List.drop_of_length_le (List.getElem?_eq_none_iff.mp hs)]
      rfl
    rw [hnext, hnone]
    exact Or.inl ⟨(next_end hsrc).mpr hbound, rfl⟩
  | some s =>
    have hnext : nextKey pol src spos' = hashKey src.key s := by rw [nextKey, hs]
    obtain ⟨e', he', hsame, hback⟩ := @next_unit pol src spos' hsrc s hs
    rw [hnext]
    refine Or.inr ⟨(List.getElem?_eq_some_iff.mp he').1, hback, hafter.row, ?_, e', he', hsame.symm⟩
    rw [hback]
    exact (hafter.round.ready rankKey_mono hsrc.ranks h.ready).1

end OneRound

end Reiser4.Cde40
