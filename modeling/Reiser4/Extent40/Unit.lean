/-
  The two searches for the unit of an offset (`extent40_unit`, `extent40_lookup`).

  Both walk the units and add up what they cover, in bytes: `extent40_lookup` in 64 bits from the
  offset of the item key on, `extent40_unit` from 0 in a `uint32_t`, though it compares the sum with a
  64-bit offset.  Each stops at the first unit whose end it takes to be past the offset, and runs to
  the number of units when there is none.

    1. `unitLoop_eq_findIdx`, `lookupLoop_eq_findIdx`   the loops, as searches over the unit numbers;
    2. `extent40Unit_eq_lookup_iff`   they agree exactly when the first unit that is past the offset in
       one count is past it in the other;
    3. `searchesMeet_iff`   on an item that ends in the file: no unit holds the offset, or the end of
       the one that does is past the offset in 32 bits too;
    4. `extent40Unit_eq_lookup`   so they agree on an item of less than 4 GiB.
-/
import Reiser4.Bitmap
import Reiser4.Item.Lookup

namespace Reiser4

namespace Item

/-! ## The searches -/

/-- The loop of `extent40_unit`; `width` is what the units before `i` cover, in 32 bits. -/
def extent40UnitLoop (blksize offset : Nat) : List ExtentUnit → Nat → Nat → Nat
  | [], _, i => i
  | x :: us, width, i =>
    let width := u32 (width + x.width * blksize)
    if offset < width then i else extent40UnitLoop blksize offset us width (i + 1)

/-- `extent40_unit`. -/
def extent40Unit (blksize : Nat) (us : List ExtentUnit) (offset : Nat) : Nat :=
  extent40UnitLoop blksize offset us 0 0

/-- The end of unit `i` in bytes, from `base` on and modulo `size`. -/
def endOf (blksize : Nat) (us : List ExtentUnit) (base size i : Nat) : Nat :=
  (base + extentBlocks us (i + 1) * blksize) % size

/-- The first unit that ends past `wanted`, in the count from `base` on modulo `size`. -/
def firstPast (blksize : Nat) (us : List ExtentUnit) (base size wanted : Nat) : Nat :=
  (List.range us.length).findIdx fun i => decide (wanted < endOf blksize us base size i)

section Loops

variable {blksize : Nat}

/-- The unit behind the first one: the first one is a part of what the count begins with. -/
theorem endOf_cons (x : ExtentUnit) (us : List ExtentUnit) (base size i : Nat) :
    endOf blksize (x :: us) base size (i + 1) =
      endOf blksize us ((base + x.width * blksize) % size) size i := by
  show (base + extentBlocks (x :: us) (i + 1 + 1) * blksize) % size =
    ((base + x.width * blksize) % size + extentBlocks us (i + 1) * blksize) % size
  rw [extentBlocks_cons, Nat.mod_add_mod, Nat.add_mul, Nat.add_assoc]

theorem endOf_zero (x : ExtentUnit) (us : List ExtentUnit) (base size : Nat) :
    endOf blksize (x :: us) base size 0 = (base + x.width * blksize) % size := by
  show (base + extentBlocks (x :: us) (0 + 1) * blksize) % size = _
  rw [extentBlocks_cons, extentBlocks_zero, Nat.add_zero]

theorem firstPast_cons (x : ExtentUnit) (us : List ExtentUnit) (base size wanted : Nat) :
    firstPast blksize (x :: us) base size wanted =
      if wanted < (base + x.width * blksize) % size then 0
      else firstPast blksize us ((base + x.width * blksize) % size) size wanted + 1 := by
  have htail : ((fun i => decide (wanted < endOf blksize (x :: us) base size i)) ∘ Nat.succ) =
      fun i => decide (wanted < endOf blksize us ((base + x.width * blksize) % size) size i) := by
    funext i
    show decide (wanted < endOf blksize (x :: us) base size (i + 1)) = _
    rw [endOf_cons]
  unfold firstPast
  rw [List.length_cons, List.range_succ_eq_map, List.findIdx_cons, List.findIdx_map, htail,
    endOf_zero]
  by_cases h : wanted < (base + x.width * blksize) % size
  · rw [decide_eq_true h, if_pos h]
    rfl
  · rw [decide_eq_false h, if_neg h]
    rfl

theorem unitLoop_eq_findIdx (offset : Nat) : ∀ (us : List ExtentUnit) (width i : Nat),
    extent40UnitLoop blksize offset us width i = i + firstPast blksize us width two32 offset
  | [], _, _ => rfl
  | x :: us, width, i => by
    rw [extent40UnitLoop, firstPast_cons]
    show (if offset < (width + x.width * blksize) % two32 then i else _) = _
    split
    · rfl
    · rw [unitLoop_eq_findIdx offset us]
      show i + 1 + firstPast blksize us ((width + x.width * blksize) % two32) two32 offset = _
      omega

theorem lookupLoop_eq_findIdx (wanted : Nat) : ∀ (us : List ExtentUnit) (offset i : Nat),
    (extent40LookupLoop blksize wanted us offset i).getD (i + us.length) =
      i + firstPast blksize us offset two64 wanted
  | [], _, _ => rfl
  | x :: us, offset, i => by
    have ih := lookupLoop_eq_findIdx wanted us ((offset + x.width * blksize) % two64) (i + 1)
    rw [extent40LookupLoop, firstPast_cons]
    show (if wanted < (offset + x.width * blksize) % two64 then some i else _).getD _ = _
    split
    · rfl
    · rw [List.length_cons, Nat.add_comm us.length 1, ← Nat.add_assoc, ih]
      omega

/-- `extent40_lookup` leaves the position at the first unit past the wanted offset. -/
theorem extent40Lookup_pos (key : Key) (us : List ExtentUnit) (wanted : Key) (bias : LookupBias) :
    (extent40Lookup blksize key us wanted bias).2 =
      firstPast blksize us key.offset two64 wanted.offset := by
  have hloop := @lookupLoop_eq_findIdx blksize wanted.offset us key.offset 0
  rw [Nat.zero_add, Nat.zero_add] at hloop
  rw [← hloop]
  unfold extent40Lookup
  cases extent40LookupLoop blksize wanted.offset us key.offset 0 <;> rfl

end Loops

/-- Two searches over the same numbers end at the same one exactly when the first number that either
    of them accepts is accepted by both. -/
theorem findIdx_range_eq_iff (p q : Nat → Bool) (n : Nat) :
    (List.range n).findIdx p = (List.range n).findIdx q ↔
      ∀ i < n, (∀ j < i, p j = false ∧ q j = false) → p i = q i := by
  constructor
  · intro heq i hi hbefore
    have hle : ∀ r : Nat → Bool, (∀ j < i, r j = false) →
        (r i = true ↔ (List.range n).findIdx r = i) := by
      intro r hr
      rw [List.findIdx_eq (by simpa using hi)]
      simp only [List.getElem_range]
      constructor
      · intro h
        exact ⟨h, fun j hj => hr j hj⟩
      · exact fun h => h.1
    have hp := hle p fun j hj => (hbefore j hj).1
    have hq := hle q fun j hj => (hbefore j hj).2
    rw [heq, ← hq] at hp
    exact Bool.eq_iff_iff.mpr hp
  · intro hall
    -- Compare the searches over longer and longer ranges: while neither has accepted a number, the
    -- next one is accepted by both or by none.
    have key : ∀ m ≤ n, (List.range m).findIdx p = (List.range m).findIdx q ∧
        ((List.range m).findIdx p = m → ∀ j < m, p j = false ∧ q j = false) := by
      intro m
      induction m with
      | zero => exact fun _ => ⟨rfl, fun _ j hj => absurd hj (Nat.not_lt_zero j)⟩
      | succ m ih =>
        intro hm
        obtain ⟨heq, hnone⟩ := ih (by omega)
        have hlen : (List.range m).length = m := List.length_range
        rw [List.range_succ, List.findIdx_append, List.findIdx_append, hlen, ← heq]
        by_cases hlt : (List.range m).findIdx p < m
        · rw [if_pos hlt, if_pos hlt]
          refine ⟨rfl, fun h => ?_⟩
          omega
        · have hle : (List.range m).findIdx p ≤ (List.range m).length := List.findIdx_le_length
          have hm' := hnone (by omega)
          have hboth := hall m (by omega) hm'
          rw [if_neg hlt, if_neg hlt, List.findIdx_singleton, List.findIdx_singleton, ← hboth]
          refine ⟨rfl, fun h j hj => ?_⟩
          cases hpm : p m with
          | true =>
            rw [hpm] at h
            simp at h
          | false =>
            rcases Nat.lt_succ_iff_lt_or_eq.mp hj with hj | rfl
            · exact hm' j hj
            · exact ⟨hpm, hboth ▸ hpm⟩
    exact (key n (Nat.le_refl n)).1

/-! ## When they agree -/

/-- The first unit that is past the offset in 32 bits from the item's start, or in 64 bits from the
    offset of its key, is past it in both counts. -/
def SearchesMeet (blksize : Nat) (key : Key) (us : List ExtentUnit) (offset : Nat) : Prop :=
  let past32 (i : Nat) : Prop := offset < endOf blksize us 0 two32 i
  let past64 (i : Nat) : Prop := u64 (key.offset + offset) < endOf blksize us key.offset two64 i
  ∀ i < us.length, (∀ j < i, ¬past32 j ∧ ¬past64 j) → (past32 i ↔ past64 i)

/-- **`extent40_unit` returns the unit `extent40_lookup` finds if and only if** the first unit past
    the offset in one of the two counts is past it in the other. -/
theorem extent40Unit_eq_lookup_iff (blksize : Nat) (key : Key) (us : List ExtentUnit) (offset : Nat)
    (bias : LookupBias) :
    extent40Unit blksize us offset =
        (extent40Lookup blksize key us (key.setOffset (u64 (key.offset + offset))) bias).2 ↔
      SearchesMeet blksize key us offset := by
  rw [extent40Lookup_pos]
  unfold extent40Unit
  rw [unitLoop_eq_findIdx, Nat.zero_add]
  unfold firstPast
  rw [findIdx_range_eq_iff]
  unfold SearchesMeet
  simp only [decide_eq_false_iff_not, decide_eq_decide]
  rfl

/-- The unit that holds the byte offset, if there is one, ends behind it in 32 bits too. -/
def HolderEndsPast (blksize : Nat) (us : List ExtentUnit) (offset : Nat) : Prop :=
  ∀ i < us.length, extentBlocks us i * blksize ≤ offset → offset < extentBlocks us (i + 1) * blksize →
    offset < extentBlocks us (i + 1) * blksize % two32

section Fits

variable {blksize : Nat} {key : Key} {us : List ExtentUnit} {offset : Nat}

theorem past32_iff (i : Nat) :
    offset < endOf blksize us 0 two32 i ↔ offset < extentBlocks us (i + 1) * blksize % two32 := by
  unfold endOf
  rw [Nat.zero_add]

/-- Where the item ends in the file, nothing wraps in 64 bits. -/
theorem past64_iff (hend : key.offset + extentBlocks us us.length * blksize < two64)
    (hoff : key.offset + offset < two64) {i : Nat} (hi : i < us.length) :
    u64 (key.offset + offset) < endOf blksize us key.offset two64 i ↔
      offset < extentBlocks us (i + 1) * blksize := by
  have hle : extentBlocks us (i + 1) * blksize ≤ extentBlocks us us.length * blksize :=
    Nat.mul_le_mul_right _ (extentBlocks_mono us (by omega))
  unfold endOf
  rw [Nat.mod_eq_of_lt (by omega), show u64 (key.offset + offset) = key.offset + offset from Nat.mod_eq_of_lt hoff]
  omega

/-- The condition for an item that ends in the file: only the unit that holds the offset matters. -/
theorem searchesMeet_iff (hend : key.offset + extentBlocks us us.length * blksize < two64)
    (hoff : key.offset + offset < two64) :
    SearchesMeet blksize key us offset ↔ HolderEndsPast blksize us offset := by
  constructor
  · intro h i hi hfront hpast
    have hbefore : ∀ j < i, ¬offset < endOf blksize us 0 two32 j ∧
        ¬u64 (key.offset + offset) < endOf blksize us key.offset two64 j := by
      intro j hj
      -- The units in front end at the offset or before it.
      have hle : extentBlocks us (j + 1) * blksize ≤ extentBlocks us i * blksize :=
        Nat.mul_le_mul_right _ (extentBlocks_mono us hj)
      have hmod : extentBlocks us (j + 1) * blksize % two32 ≤ extentBlocks us (j + 1) * blksize := Nat.mod_le _ _
      rw [past32_iff, past64_iff hend hoff (by omega)]
      omega
    exact (past32_iff i).mp ((h i hi hbefore).mpr ((past64_iff hend hoff hi).mpr hpast))
  · intro h i hi hbefore
    show offset < endOf blksize us 0 two32 i ↔ u64 (key.offset + offset) < endOf blksize us key.offset two64 i
    rw [past32_iff, past64_iff hend hoff hi]
    refine ⟨fun hpast => Nat.lt_of_lt_of_le hpast (Nat.mod_le _ _), fun hpast => h i hi ?_ hpast⟩
    cases i with
    | zero =>
      rw [extentBlocks_zero, Nat.zero_mul]
      exact Nat.zero_le offset
    | succ i =>
      have hno : ¬u64 (key.offset + offset) < endOf blksize us key.offset two64 i := (hbefore i (Nat.lt_succ_self i)).2
      rw [past64_iff hend hoff (by omega)] at hno
      exact Nat.le_of_not_lt hno

/-- **The searches agree** on an item of less than 4 GiB that ends in the file. -/
theorem extent40Unit_eq_lookup (bias : LookupBias) (hsize : extentBlocks us us.length * blksize < two32)
    (hend : key.offset + extentBlocks us us.length * blksize < two64)
    (hoff : key.offset + offset < two64) :
    extent40Unit blksize us offset =
      (extent40Lookup blksize key us (key.setOffset (u64 (key.offset + offset))) bias).2 := by
  rw [extent40Unit_eq_lookup_iff, searchesMeet_iff hend hoff]
  intro i hi _ hpast
  have hle : extentBlocks us (i + 1) * blksize ≤ extentBlocks us us.length * blksize :=
    Nat.mul_le_mul_right _ (extentBlocks_mono us (by omega))
  rw [Nat.mod_eq_of_lt (by omega)]
  exact hpast

end Fits

/-- Byte 5 of an item whose first unit covers exactly 4 GiB is in that unit; `extent40_unit`, whose
    sum is back at 0 there, returns the second one. -/
theorem extent40Unit_wraps :
    extent40Unit 4096 [⟨100, 1048576⟩, ⟨2000000, 1⟩] 5 = 1 ∧
      (extent40Lookup 4096 ⟨4, 0, 0, 0⟩ [⟨100, 1048576⟩, ⟨2000000, 1⟩]
        ((⟨4, 0, 0, 0⟩ : Key).setOffset (u64 (0 + 5))) .exact).2 = 0 := by
  decide

end Item
end Reiser4
