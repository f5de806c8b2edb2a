/-
  Keys (`key_large`, `key_short`, `key_common`).

  A key body is an array of 64-bit elements.  The large policy has four: locality with the minor in
  its low 4 bits, ordering, objectid with the band in its high 4 bits, offset; the short policy has
  no ordering.  Here a key always carries the four elements and a short key has ordering 0, which is
  also what `get_ordering` of the short plugin returns; with that the comparisons of the two plugins
  are the same functions.

    * `compfull` compares all elements, from the first;
    * `compshort` tells whether two items are of one object: the first element, and unless the minor
      is that of a file name also the ordering and the objectid element;
    * `setObjectid` writes the low 60 bits only.
-/
import Mathlib.Data.Prod.Lex
import Mathlib.Order.Lattice

namespace Reiser4

/-- The key policy of a tree (`keypol` 3 or 4). -/
inductive KeyPol
  | short | large
  deriving DecidableEq, Repr

/-- `reiser4_key_t`. -/
structure Key where
  /-- Locality in the high 60 bits, minor in the low 4. -/
  el0 : Nat
  ordering : Nat
  /-- Band in the high 4 bits, objectid in the low 60. -/
  el2 : Nat
  offset : Nat
  deriving DecidableEq, Repr

/-- The number of values of a 64-bit word. -/
def two64 : Nat := 18446744073709551616

/-- The number of values of the objectid field. -/
def two60 : Nat := 1152921504606846976

/-- `MAX_UINT64`. -/
def maxUint64 : Nat := 18446744073709551615

namespace Key

/-! ## Fields -/

/-- `KEY_FILENAME_MINOR`. -/
def filenameMinor : Nat := 0

def getLocality (k : Key) : Nat := k.el0 / 16
def getMinor (k : Key) : Nat := k.el0 % 16

/-- `get_objectid`: the low 60 bits of the element. -/
def getObjectid (k : Key) : Nat := k.el2 % two60

/-- `set_objectid`: the band stays. -/
def setObjectid (k : Key) (v : Nat) : Key :=
  { k with el2 := k.el2 / two60 * two60 ||| v }

/-- `set_ordering`: short keys have none. -/
def setOrdering (pol : KeyPol) (k : Key) (v : Nat) : Key :=
  match pol with
  | .short => k
  | .large => { k with ordering := v }

def setOffset (k : Key) (v : Nat) : Key := { k with offset := v }

/-- `key_large_maximal`; its elements are those of `key_common_maximal`. -/
def maximal (pol : KeyPol) : Key where
  el0 := maxUint64
  ordering := match pol with
    | .short => 0
    | .large => maxUint64
  el2 := maxUint64
  offset := maxUint64

/-- The key of a directory entry, from the locality of the item and the hash of the entry
    (`build_generic` with `KEY_FILENAME_TYPE`). -/
def buildFilename (locality ordering objectid offset : Nat) : Key where
  el0 := locality * 16 + filenameMinor
  ordering := ordering
  el2 := objectid
  offset := offset

/-! ## Comparison -/

/-- `kl_comp_el` on one element. -/
def compEl (a b : Nat) : Int := if a < b then -1 else if a = b then 0 else 1

/-- `compfull`. -/
def compfull (a b : Key) : Int :=
  if compEl a.el0 b.el0 ≠ 0 then compEl a.el0 b.el0
  else if compEl a.ordering b.ordering ≠ 0 then compEl a.ordering b.ordering
  else if compEl a.el2 b.el2 ≠ 0 then compEl a.el2 b.el2
  else compEl a.offset b.offset

/-- `compshort`. -/
def compshort (a b : Key) : Int :=
  if compEl a.el0 b.el0 ≠ 0 then compEl a.el0 b.el0
  else if a.getMinor = filenameMinor then 0
  else if compEl a.ordering b.ordering ≠ 0 then compEl a.ordering b.ordering
  else compEl a.el2 b.el2

/-! ## The order behind `compfull` -/

/-- The elements as a tuple in lexicographic order. -/
def toTuple (k : Key) : Nat ×ₗ Nat ×ₗ Nat ×ₗ Nat :=
  toLex (k.el0, toLex (k.ordering, toLex (k.el2, k.offset)))

theorem toTuple_injective : Function.Injective toTuple := by
  intro a b h
  cases a
  cases b
  simp only [toTuple, toLex_inj, Prod.mk.injEq] at h
  obtain ⟨rfl, rfl, rfl, rfl⟩ := h
  rfl

instance : LinearOrder Key := LinearOrder.lift' toTuple toTuple_injective

theorem lt_iff (a b : Key) : a < b ↔
    a.el0 < b.el0 ∨ (a.el0 = b.el0 ∧ (a.ordering < b.ordering ∨ (a.ordering = b.ordering ∧
      (a.el2 < b.el2 ∨ (a.el2 = b.el2 ∧ a.offset < b.offset))))) := by
  show toTuple a < toTuple b ↔ _
  simp only [toTuple, Prod.Lex.toLex_lt_toLex]

/-- `compfull` is the three-valued comparison of the order. -/
theorem compfull_eq (a b : Key) : compfull a b = if a < b then -1 else if a = b then 0 else 1 := by
  have heq : a = b ↔ a.el0 = b.el0 ∧ a.ordering = b.ordering ∧ a.el2 = b.el2 ∧
      a.offset = b.offset := by
    cases a
    cases b
    simp
  simp only [compfull, compEl, lt_iff, heq]
  grind

theorem compfull_neg {a b : Key} : compfull a b = -1 ↔ a < b := by
  rw [compfull_eq]
  split
  · simp [*]
  · split <;> simp [*]

theorem compfull_zero {a b : Key} : compfull a b = 0 ↔ a = b := by
  rw [compfull_eq]
  split
  · next h => simp [ne_of_lt h]
  · split <;> simp [*]

theorem compfull_lt {a b : Key} : compfull a b < 0 ↔ a < b := by
  rw [compfull_eq]
  split
  · simp [*]
  · split <;> simp [*]

theorem compfull_pos {a b : Key} : 0 < compfull a b ↔ b < a := by
  rw [compfull_eq]
  split
  · next h => simp [le_of_lt h]
  · split
    · next h => simp [h]
    · next h1 h2 => simp [lt_of_le_of_ne (not_lt.mp h1) (fun e => h2 e.symm)]

theorem compfull_range (a b : Key) :
    compfull a b = -1 ∨ compfull a b = 0 ∨ compfull a b = 1 := by
  rw [compfull_eq]
  split
  · simp
  · split <;> simp

/-- Comparing ever larger keys with a fixed one gives ever larger results. -/
theorem compfull_mono {a b : Key} (h : a ≤ b) (k : Key) : compfull a k ≤ compfull b k := by
  rw [compfull_eq, compfull_eq]
  split
  · split
    · simp
    · split <;> simp
  · next h1 =>
    rw [if_neg (fun hb => h1 (lt_of_le_of_lt h hb))]
    split
    · split <;> simp
    · next h2 =>
      have hk : k < a := lt_of_le_of_ne (not_lt.mp h1) (fun e => h2 e.symm)
      rw [if_neg (ne_of_gt (lt_of_lt_of_le hk h))]

@[simp] theorem maximal_offset (pol : KeyPol) : (maximal pol).offset = maxUint64 := by
  cases pol
  · rfl
  · rfl

@[simp] theorem setOffset_el0 (k : Key) (v : Nat) : (k.setOffset v).el0 = k.el0 := rfl
@[simp] theorem setOffset_ordering (k : Key) (v : Nat) :
    (k.setOffset v).ordering = k.ordering := rfl
@[simp] theorem setOffset_el2 (k : Key) (v : Nat) : (k.setOffset v).el2 = k.el2 := rfl
@[simp] theorem setOffset_offset (k : Key) (v : Nat) : (k.setOffset v).offset = v := rfl
@[simp] theorem setObjectid_el0 (k : Key) (v : Nat) : (k.setObjectid v).el0 = k.el0 := by
  cases k
  rfl
@[simp] theorem setObjectid_ordering (k : Key) (v : Nat) :
    (k.setObjectid v).ordering = k.ordering := by
  cases k
  rfl

/-- Filling up the low bits makes an element no smaller. -/
theorem le_setObjectid_maximal (pol : KeyPol) (k : Key) :
    k.el2 ≤ (k.setObjectid (maximal pol).getObjectid).el2 := by
  have hmax : (maximal pol).getObjectid = two60 - 1 := by cases pol <;> decide
  have hpow : two60 = 2 ^ 60 := by decide
  have hpos : 0 < two60 := by decide
  rw [hmax, setObjectid]
  calc k.el2 = two60 * (k.el2 / two60) + k.el2 % two60 := (Nat.div_add_mod _ _).symm
    _ ≤ two60 * (k.el2 / two60) + (two60 - 1) :=
      Nat.add_le_add_left (Nat.le_sub_one_of_lt (Nat.mod_lt _ hpos)) _
    _ = two60 * (k.el2 / two60) ||| (two60 - 1) := by
      rw [hpow]
      exact Nat.two_pow_add_eq_or_of_lt (Nat.sub_lt (Nat.two_pow_pos 60) Nat.one_pos) _
    _ = k.el2 / two60 * two60 ||| (two60 - 1) := by rw [Nat.mul_comm]

/-- Keys of one object are equal in `compshort`. -/
theorem compshort_self (a : Key) : compshort a a = 0 := by
  simp [compshort, compEl]

end Key
end Reiser4
