/-
  The units of an extent item in the memory of its node.

  A unit is two little-endian 64-bit numbers, start and width, so unit `i` of the item whose body is at
  `body` is at `body + 16 * i`.  `unitsAt` reads the first `n` units; what the routines do to the memory
  is seen there as a list operation: a changed unit is replaced, a move by one unit erases one.
-/
import Reiser4.Lib.Bytes
import Reiser4.Extent40.Map

namespace Reiser4

open Reiser4.Lib

/-- The unit at index `i`. -/
def unitAt (mem : Bytes) (body i : Nat) : ExtentUnit where
  start := mem.getLe 8 (body + 16 * i)
  width := mem.getLe 8 (body + 16 * i + 8)

/-- The first `n` units. -/
def unitsAt (mem : Bytes) (body n : Nat) : List ExtentUnit := (List.range n).map (unitAt mem body)

/-- `et40_set_start`. -/
def setStart (mem : Bytes) (body i v : Nat) : Bytes := mem.setLe 8 (body + 16 * i) v

/-- `et40_set_width`. -/
def setWidth (mem : Bytes) (body i v : Nat) : Bytes := mem.setLe 8 (body + 16 * i + 8) v

section Memory

variable {mem mem' : Bytes} {body i n : Nat}

@[simp] theorem unitsAt_length : (unitsAt mem body n).length = n := by
  simp [unitsAt]

theorem unitsAt_getElem? (h : i < n) : (unitsAt mem body n)[i]? = some (unitAt mem body i) := by
  simp [unitsAt, h]

/-- A unit depends on its 16 bytes only. -/
theorem unitAt_congr {body' j : Nat}
    (h : ∀ a, a < 16 → mem' (body' + 16 * j + a) = mem (body + 16 * i + a)) :
    unitAt mem' body' j = unitAt mem body i := by
  have hstart : mem'.getLe 8 (body' + 16 * j) = mem.getLe 8 (body + 16 * i) :=
    Bytes.getLe_congr 8 _ _ _ _ fun a ha => h a (by omega)
  have hwidth : mem'.getLe 8 (body' + 16 * j + 8) = mem.getLe 8 (body + 16 * i + 8) :=
    Bytes.getLe_congr 8 _ _ _ _ fun a ha => by
      have := h (8 + a) (by omega)
      rwa [← Nat.add_assoc, ← Nat.add_assoc] at this
  unfold unitAt
  rw [hstart, hwidth]

/-- A change of one unit replaces it. -/
theorem unitsAt_set (h : ∀ a, a < body + 16 * i ∨ body + 16 * i + 16 ≤ a → mem' a = mem a) :
    unitsAt mem' body n = (unitsAt mem body n).set i (unitAt mem' body i) := by
  apply List.ext_getElem?
  intro j
  by_cases hj : j < n
  · rw [unitsAt_getElem? hj]
    by_cases hij : i = j
    · subst hij
      rw [List.getElem?_set_self (by simpa using hj)]
    · rw [List.getElem?_set_ne hij, unitsAt_getElem? hj,
        unitAt_congr fun a ha => h _ (by omega)]
  · rw [List.getElem?_eq_none (by simpa using hj), List.getElem?_eq_none (by simpa using hj)]

/-- The units behind unit `i`, moved up by one, erase it; a move that goes beyond the item changes
    nothing more of it. -/
theorem unitsAt_move {size : Nat} (hi : i ≤ n) (hsize : 16 * (n - i) ≤ size) :
    unitsAt (mem.move (body + 16 * i) (body + 16 * (i + 1)) size) body n =
      (unitsAt mem body (n + 1)).eraseIdx i := by
  apply List.ext_getElem?
  intro j
  by_cases hj : j < n
  · rw [unitsAt_getElem? hj, List.getElem?_eraseIdx]
    by_cases hji : j < i
    · rw [if_pos hji, unitsAt_getElem? (by omega)]
      refine congrArg some (unitAt_congr fun a ha => Bytes.move_out _ _ _ _ _ ?_)
      omega
    · rw [if_neg hji, unitsAt_getElem? (by omega)]
      refine congrArg some (unitAt_congr fun a ha => ?_)
      rw [Bytes.move_in _ _ _ _ _ (by omega) (by omega)]
      congr 1
      omega
  · rw [List.getElem?_eq_none (by simpa using hj), List.getElem?_eq_none]
    rw [List.length_eraseIdx_of_lt (by rw [unitsAt_length]; omega), unitsAt_length]
    omega

/-- What a unit holds after a change of its width. -/
theorem unitAt_setWidth (v : Nat) :
    unitAt (setWidth mem body i v) body i = ⟨(unitAt mem body i).start, u64 v⟩ := by
  unfold unitAt setWidth
  rw [Bytes.getLe_setLe, Bytes.getLe_setLe_disj _ _ _ _ _ _ (Or.inl (Nat.le_refl _))]
  rfl

theorem unitAt_setStart (v : Nat) :
    unitAt (setStart mem body i v) body i = ⟨u64 v, (unitAt mem body i).width⟩ := by
  unfold unitAt setStart
  rw [Bytes.getLe_setLe, Bytes.getLe_setLe_disj _ _ _ _ _ _ (Or.inr (Nat.le_refl _))]
  rfl

theorem setWidth_out {a : Nat} (v : Nat) (h : a < body + 16 * i ∨ body + 16 * i + 16 ≤ a) :
    setWidth mem body i v a = mem a := Bytes.setLe_out _ _ _ _ _ (by omega)

theorem setStart_out {a : Nat} (v : Nat) (h : a < body + 16 * i ∨ body + 16 * i + 16 ≤ a) :
    setStart mem body i v a = mem a := Bytes.setLe_out _ _ _ _ _ (by omega)

/-- The numbers of a unit in memory are 64-bit numbers. -/
theorem unitAt_stored : (unitAt mem body i).Stored :=
  ⟨Bytes.getLe_lt 8 _ _, Bytes.getLe_lt 8 _ _⟩

end Memory

end Reiser4
