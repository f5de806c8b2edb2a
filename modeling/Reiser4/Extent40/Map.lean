/-
  What an extent item says about its file blocks.

  The units of an item stand for its file blocks in order.  A file block has no block at all (a hole),
  has one in memory only (unallocated), or is at a disk block; block numbers have 64 bits.  The map of
  the item is the list of these places, from the first file block on, so its length is the number of
  blocks the item covers.
-/
import Reiser4.Bitmap
import Reiser4.Item.Body

namespace Reiser4

/-- Where a file block is. -/
inductive BlockPlace
  | hole
  | unalloc
  | disk (nr : Nat)
  deriving DecidableEq, Repr

/-- What a unit stands for. -/
inductive UnitKind
  | hole | unalloc | disk
  deriving DecidableEq, Repr

def BlockPlace.kind : BlockPlace → UnitKind
  | .hole => .hole
  | .unalloc => .unalloc
  | .disk _ => .disk

namespace ExtentUnit

def kind (e : ExtentUnit) : UnitKind :=
  if e.start = extentHoleUnit then .hole
  else if e.start = extentUnallocUnit then .unalloc
  else .disk

/-- The numbers of a unit are 64-bit fields. -/
structure Stored (e : ExtentUnit) : Prop where
  start : e.start < two64
  width : e.width < two64

/-- Where block `i` of a unit is. -/
def place (e : ExtentUnit) (i : Nat) : BlockPlace :=
  match e.kind with
  | .hole => .hole
  | .unalloc => .unalloc
  | .disk => .disk (u64 (e.start + i))

/-- Where the blocks of a unit are. -/
def places (e : ExtentUnit) : List BlockPlace := (List.range e.width).map e.place

@[simp] theorem places_length (e : ExtentUnit) : e.places.length = e.width := by
  simp [places]

/-- A unit of `w + v` blocks: the first `w`, then the others. -/
theorem places_add (start w v : Nat) :
    places ⟨start, w + v⟩ =
      places ⟨start, w⟩ ++ (List.range v).map fun i => place ⟨start, w + v⟩ (w + i) := by
  unfold places
  rw [List.range_add, List.map_append, List.map_map]
  rfl

theorem places_take (e : ExtentUnit) {n : Nat} (h : n ≤ e.width) :
    e.places.take n = places ⟨e.start, n⟩ := by
  obtain ⟨v, hv⟩ := Nat.exists_eq_add_of_le h
  have hsplit := places_add e.start n v
  rw [← hv] at hsplit
  rw [show e.places = _ from hsplit, List.take_left' (by simp)]

theorem places_getElem? (e : ExtentUnit) (i : Nat) :
    e.places[i]? = if i < e.width then some (e.place i) else none := by
  unfold places
  rw [List.getElem?_map]
  by_cases h : i < e.width
  · rw [if_pos h, List.getElem?_range h]
    rfl
  · rw [if_neg h, List.getElem?_eq_none (by simpa using h)]
    rfl

/-- A unit without its first blocks, if what is left begins where they end. -/
theorem places_drop {e : ExtentUnit} {start n : Nat}
    (h : ∀ i, e.place (n + i) = place ⟨start, e.width - n⟩ i) :
    e.places.drop n = places ⟨start, e.width - n⟩ := by
  apply List.ext_getElem?
  intro i
  rw [List.getElem?_drop, places_getElem?, places_getElem?]
  show _ = if i < e.width - n then _ else _
  by_cases hi : n + i < e.width
  · rw [if_pos hi, if_pos (by omega), h]
  · rw [if_neg hi, if_neg (by omega)]

@[simp] theorem place_kind (e : ExtentUnit) (i : Nat) : (e.place i).kind = e.kind := by
  unfold place
  cases e.kind <;> rfl

theorem kind_eq_disk {e : ExtentUnit} : e.kind = .disk ↔ 2 ≤ e.start := by
  unfold kind extentHoleUnit extentUnallocUnit
  split
  · simp
    omega
  · split <;> simp <;> omega

theorem place_of_disk {e : ExtentUnit} (h : 2 ≤ e.start) (i : Nat) :
    e.place i = .disk (u64 (e.start + i)) := by
  unfold place
  rw [kind_eq_disk.mpr h]

end ExtentUnit

/-- The map of an item. -/
def extentPlaces (us : List ExtentUnit) : List BlockPlace := us.flatMap ExtentUnit.places

@[simp] theorem extentPlaces_nil : extentPlaces [] = [] := rfl

@[simp] theorem extentPlaces_cons (e : ExtentUnit) (us : List ExtentUnit) :
    extentPlaces (e :: us) = e.places ++ extentPlaces us := rfl

@[simp] theorem extentPlaces_append (us vs : List ExtentUnit) :
    extentPlaces (us ++ vs) = extentPlaces us ++ extentPlaces vs := List.flatMap_append

/-- The number of blocks an item covers. -/
def totalWidth (us : List ExtentUnit) : Nat := (us.map ExtentUnit.width).sum

@[simp] theorem totalWidth_nil : totalWidth [] = 0 := rfl

@[simp] theorem totalWidth_cons (e : ExtentUnit) (us : List ExtentUnit) :
    totalWidth (e :: us) = e.width + totalWidth us := List.sum_cons

@[simp] theorem totalWidth_append (us vs : List ExtentUnit) :
    totalWidth (us ++ vs) = totalWidth us + totalWidth vs := by
  simp [totalWidth]

@[simp] theorem extentPlaces_length (us : List ExtentUnit) :
    (extentPlaces us).length = totalWidth us := by
  induction us with
  | nil => rfl
  | cons e us ih => simp [ih]

end Reiser4
