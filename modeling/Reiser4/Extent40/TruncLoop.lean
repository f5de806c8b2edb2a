/-
  The loop of `extent40_trunc_units` on the list of units.

  From the position on, the units are a list, and the loop takes blocks off its front.  With `eskip` 0 a
  round either takes the whole first unit, or a part of it and is the last one; `TruncCall.loop_spec`
  says what a run leaves behind, provided start and width of the units it meets survive their 32-bit
  copies (`Small`) and there are blocks enough.  What it adds to `hint->bytes` is, in blocks, what the
  units lose and once more the blocks of the unit that goes in part.
-/
import Reiser4.Extent40.Trunc
import Reiser4.Item.Extent

namespace Reiser4

open Reiser4.Lib

/-! ## Blocks off the front of a list of units -/

namespace ExtentUnit

/-- Start and width survive a copy through 32-bit locals. -/
structure Small (e : ExtentUnit) : Prop where
  start : e.start < two32
  width : e.width < two32

/-- The unit without its first `n` blocks. -/
def behead (e : ExtentUnit) (n : Nat) : ExtentUnit where
  start := if 2 ≤ e.start then e.start + n else e.start
  width := e.width - n

end ExtentUnit

/-- The units without their first `n` blocks. -/
def cutHead : Nat → List ExtentUnit → List ExtentUnit
  | _, [] => []
  | n, e :: us =>
    if n = 0 then e :: us
    else if n < e.width then e.behead n :: us
    else cutHead (n - e.width) us

/-- The units the first `n` blocks are in. -/
def cutUnits : Nat → List ExtentUnit → List ExtentUnit
  | _, [] => []
  | n, e :: us => if n = 0 then [] else e :: cutUnits (n - e.width) us

/-- The disk regions of the first `n` blocks. -/
def cutRegions : Nat → List ExtentUnit → List (Nat × Nat)
  | _, [] => []
  | n, e :: us =>
    if n = 0 then [] else regionOf e.start (min n e.width) ++ cutRegions (n - e.width) us

/-- How many of the first `n` blocks are not in a hole. -/
def cutCredit : Nat → List ExtentUnit → Nat
  | _, [] => 0
  | n, e :: us =>
    if n = 0 then 0 else creditOf e.start (min n e.width) + cutCredit (n - e.width) us

/-- How many of the first `n` blocks are in a unit that has more. -/
def cutPart : Nat → List ExtentUnit → Nat
  | _, [] => 0
  | n, e :: us => if n = 0 then 0 else if n < e.width then n else cutPart (n - e.width) us

/-- The blocks the loop counts for the first `n`: the last unit is counted once more if it has others. -/
def cutCounted (n : Nat) (us : List ExtentUnit) : Nat := cutCredit n us + cutPart n us

section Lists

theorem cutHead_zero (us : List ExtentUnit) : cutHead 0 us = us := by
  cases us <;> rfl

theorem cutHead_length_le : ∀ (n : Nat) (us : List ExtentUnit), (cutHead n us).length ≤ us.length
  | _, [] => Nat.le_refl _
  | n, e :: us => by
    rw [cutHead]
    split
    · exact Nat.le_refl _
    · split
      · exact Nat.le_refl _
      · exact Nat.le_succ_of_le (cutHead_length_le _ us)

theorem cutUnits_sub {n : Nat} {us : List ExtentUnit} {e : ExtentUnit} (h : e ∈ cutUnits n us) :
    e ∈ us := by
  induction us generalizing n with
  | nil => exact h
  | cons x us ih =>
    rw [cutUnits] at h
    split at h
    · cases h
    · rcases List.mem_cons.mp h with rfl | h
      · exact List.mem_cons_self
      · exact List.mem_cons_of_mem _ (ih h)

/-- The first units of a longer cut are those of a shorter one. -/
theorem cutUnits_mono {n m : Nat} (h : n ≤ m) {us : List ExtentUnit} {e : ExtentUnit}
    (he : e ∈ cutUnits n us) : e ∈ cutUnits m us := by
  induction us generalizing n m with
  | nil => exact he
  | cons x us ih =>
    rw [cutUnits] at he ⊢
    split at he
    · cases he
    · rw [if_neg (by omega)]
      rcases List.mem_cons.mp he with rfl | he
      · exact List.mem_cons_self
      · exact List.mem_cons_of_mem _ (ih (by omega) he)

/-- The units that are left have the blocks that are left. -/
theorem cutHead_places : ∀ (n : Nat) (us : List ExtentUnit),
    (∀ e ∈ cutUnits n us, e.start < two32) → n < two32 →
    extentPlaces (cutHead n us) = (extentPlaces us).drop n
  | _, [], _, _ => by simp [cutHead]
  | n, e :: us, hsmall, hn => by
    rw [cutHead, cutUnits] at *
    by_cases h0 : n = 0
    · rw [if_pos h0, h0, List.drop_zero]
    · rw [if_neg h0] at hsmall ⊢
      have hstart := hsmall e List.mem_cons_self
      by_cases hlt : n < e.width
      · rw [if_pos hlt, extentPlaces_cons, extentPlaces_cons,
          List.drop_append_of_le_length (by rw [ExtentUnit.places_length]; omega)]
        congr 1
        have hsum : e.start + n < two64 := by
          unfold two32 at hstart hn
          unfold two64
          omega
        refine (@ExtentUnit.places_drop e (e.behead n).start n fun i => ?_).symm
        unfold ExtentUnit.place ExtentUnit.kind ExtentUnit.behead extentHoleUnit extentUnallocUnit
        by_cases hdisk : 2 ≤ e.start
        · rw [if_pos hdisk, if_neg (by omega), if_neg (by omega)]
          show BlockPlace.disk _ = _
          rw [if_neg (show ¬ e.start + n = 0 by omega), if_neg (show ¬ e.start + n = 1 by omega),
            Nat.add_assoc]
        · rw [if_neg hdisk]
          rcases (show e.start = 0 ∨ e.start = 1 by omega) with h | h <;> rw [h] <;> rfl
      · have hgone : e.places.drop n = [] :=
          List.drop_eq_nil_of_le (by rw [ExtentUnit.places_length]; omega)
        rw [if_neg hlt, cutHead_places (n - e.width) us
          (fun x hx => hsmall x (List.mem_cons_of_mem _ hx)) (by omega), extentPlaces_cons,
          List.drop_append, hgone, ExtentUnit.places_length, List.nil_append]

/-- The blocks of a unit that are not in a hole, and those of a list of units. -/
def allocBlocks (us : List ExtentUnit) : Nat := (us.map ExtentUnit.credit).sum

@[simp] theorem allocBlocks_nil : allocBlocks [] = 0 := rfl

@[simp] theorem allocBlocks_cons (e : ExtentUnit) (us : List ExtentUnit) :
    allocBlocks (e :: us) = e.credit + allocBlocks us := List.sum_cons

@[simp] theorem allocBlocks_append (us vs : List ExtentUnit) :
    allocBlocks (us ++ vs) = allocBlocks us + allocBlocks vs := by
  simp [allocBlocks]

/-- The units lose what is credited. -/
theorem cutHead_alloc : ∀ (n : Nat) (us : List ExtentUnit),
    allocBlocks (cutHead n us) + cutCredit n us = allocBlocks us
  | _, [] => rfl
  | n, e :: us => by
    rw [cutHead, cutCredit]
    by_cases h0 : n = 0
    · rw [if_pos h0, if_pos h0, Nat.add_zero]
    · rw [if_neg h0, if_neg h0]
      by_cases hlt : n < e.width
      · have hcredit : (e.behead n).credit + creditOf e.start n = e.credit := by
          unfold ExtentUnit.credit ExtentUnit.behead creditOf
          dsimp only
          by_cases hs : e.start = 0
          · rw [hs]
            rfl
          · have : ¬ (if 2 ≤ e.start then e.start + n else e.start) = 0 := by
              split <;> omega
            rw [if_neg this, if_neg hs, if_neg hs]
            omega
        have hrest : cutCredit (n - e.width) us = 0 := by
          rw [show n - e.width = 0 by omega]
          cases us <;> rfl
        rw [if_pos hlt, allocBlocks_cons, allocBlocks_cons, Nat.min_eq_left (Nat.le_of_lt hlt), hrest]
        omega
      · have ih := cutHead_alloc (n - e.width) us
        have hcredit : creditOf e.start (min n e.width) = e.credit := by
          rw [Nat.min_eq_right (by omega)]
          rfl
        rw [if_neg hlt, allocBlocks_cons, hcredit]
        omega

/-- No unit goes in part exactly when the cut ends where a unit ends. -/
theorem cutPart_eq_zero_iff : ∀ {n : Nat} {us : List ExtentUnit}, n ≤ totalWidth us →
    (cutPart n us = 0 ↔ ∃ k, n = totalWidth (us.take k))
  | n, [], h => by
    have h0 : n = 0 := Nat.le_zero.mp h
    rw [h0]
    exact ⟨fun _ => ⟨0, rfl⟩, fun _ => rfl⟩
  | n, e :: us, h => by
    rw [cutPart]
    by_cases h0 : n = 0
    · rw [if_pos h0]
      exact ⟨fun _ => ⟨0, h0⟩, fun _ => rfl⟩
    · rw [if_neg h0]
      rw [totalWidth_cons] at h
      by_cases hlt : n < e.width
      · rw [if_pos hlt]
        constructor
        · intro hz
          exact absurd hz h0
        · rintro ⟨k, hk⟩
          cases k with
          | zero => exact hk
          | succ k =>
            rw [List.take_succ_cons, totalWidth_cons] at hk
            omega
      · rw [if_neg hlt, cutPart_eq_zero_iff (by omega)]
        constructor
        · rintro ⟨k, hk⟩
          refine ⟨k + 1, ?_⟩
          rw [List.take_succ_cons, totalWidth_cons]
          omega
        · rintro ⟨k, hk⟩
          cases k with
          | zero => exact absurd hk h0
          | succ k =>
            rw [List.take_succ_cons, totalWidth_cons] at hk
            exact ⟨k, by omega⟩

theorem cutPart_le (n : Nat) (us : List ExtentUnit) : cutPart n us ≤ n := by
  induction us generalizing n with
  | nil => exact Nat.zero_le n
  | cons e us ih =>
    rw [cutPart]
    split
    · exact Nat.zero_le n
    · split
      · exact Nat.le_refl n
      · exact Nat.le_trans (ih _) (Nat.sub_le _ _)

end Lists

/-! ## One round -/

/-- The data cache that notes which blocks are taken out of it. -/
def noteDrop (offset : Nat) : Run Calls Errno Unit :=
  Run.modify fun c => { c with dropped := c.dropped ++ [offset] }

theorem noteDrops_run (l : List Nat) (calls : Calls) :
    (Run.forEach noteDrop l).run calls =
      some (.ok (), { calls with dropped := calls.dropped ++ l }) := by
  induction l generalizing calls with
  | nil => simp [Run.forEach]
  | cons o l ih =>
    show (noteDrop o >>= fun _ => Run.forEach noteDrop l).run calls = _
    rw [Run.bind_of_ok (show (noteDrop o).run calls = _ from rfl), ih]
    simp

namespace TruncCall

variable {c : TruncCall} {s : TruncState} {calls : Calls}

/-- The calls of one round, on a unit whose start survives its copy. -/
theorem notify_run {n : Nat} (hstart : (c.unit s).start < two32) :
    ∃ dropped, (c.notify noteDrop noteFree noteRegion s n).run calls =
      some (.ok (), ⟨calls.regions ++
        (if 2 ≤ (c.unit s).start then [(u32 ((c.unit s).start + c.eskip s), n)] else []),
        calls.free + creditOf (c.unit s).start n, dropped⟩) := by
  refine ⟨calls.dropped ++ (List.range n).map fun i => u64 (s.offset + i * c.blksize), ?_⟩
  unfold notify
  refine (Run.bind_of_ok (noteDrops_run _ calls)).trans ?_
  rw [u32_of_lt hstart]
  unfold creditOf extentHoleUnit extentUnallocUnit
  by_cases h0 : (c.unit s).start = 0
  · simp [h0]
  · by_cases h1 : (c.unit s).start = 1
    · simp [h1, noteFree]
    · have h2 : 2 ≤ (c.unit s).start := by omega
      dsimp only
      rw [if_neg h0, if_neg h1, if_pos h2, if_neg h0]
      rfl

/-- A round on a unit whose numbers survive their copies, without blocks to skip, goes for the blocks
    of the size or of the unit. -/
theorem remove_of_noskip (hsmall : (c.unit s).Small) (hskip : c.eskip s = 0) :
    c.remove s = min (s.size / c.blksize) (c.unit s).width := by
  have hroom : u32 ((c.unit s).width + (two32 - 0)) = (c.unit s).width := by
    have := hsmall.width
    unfold u32 two32 at *
    omega
  unfold remove
  rw [hskip, u32_of_lt hsmall.width, hroom]

/-- The memory and the counts after a round that takes a part of the unit. -/
theorem change_part {n : Nat} (hsmall : (c.unit s).Small) (hskip : c.eskip s = 0)
    (hn : n < (c.unit s).width) :
    (c.change s n).2 = (0, (creditOf (c.unit s).start n + n) * c.blksize) ∧
      unitAt (c.change s n).1 c.body c.pos = (c.unit s).behead n ∧
      ∀ a, a < c.body + 16 * c.pos ∨ c.body + 16 * c.pos + 16 ≤ a →
        (c.change s n).1 a = s.mem a := by
  have hstored : (c.unit s).Stored := unitAt_stored
  have hwidth : u64 ((c.unit s).width + (two64 - n)) = (c.unit s).width - n := by
    have := hstored.width
    unfold u64 two64 at *
    omega
  have hstart : u64 ((c.unit s).start + n) = (c.unit s).start + n := by
    have h1 := hsmall.start
    have h2 := hsmall.width
    unfold u64
    unfold two32 at h1 h2
    omega
  have hcount : (if (c.unit s).start = extentHoleUnit then 0 else n * c.blksize) + n * c.blksize =
      (creditOf (c.unit s).start n + n) * c.blksize := by
    unfold creditOf extentHoleUnit
    split
    · rw [Nat.zero_add, Nat.zero_add]
    · rw [Nat.add_mul]
  unfold change
  dsimp only
  rw [hskip, u32_of_lt hsmall.start, u32_of_lt hsmall.width, if_neg (by simp), if_pos hn, hcount]
  refine ⟨rfl, ?_, ?_⟩
  · show unitAt (setWidth _ c.body c.pos _) c.body c.pos = _
    rw [unitAt_setWidth, hwidth]
    unfold ExtentUnit.behead
    split
    · next h =>
      unfold extentHoleUnit extentUnallocUnit at h
      rw [if_neg (by omega)]
      rfl
    · next h =>
      unfold extentHoleUnit extentUnallocUnit at h
      rw [if_pos (by omega), unitAt_setStart, hstart]
  · intro a ha
    show setWidth _ c.body c.pos _ a = _
    rw [setWidth_out _ ha]
    split
    · rfl
    · exact setStart_out _ ha

/-- The memory and the counts after a round that takes the whole unit, where `n` units are left in
    front of and behind it. -/
theorem change_whole {k n : Nat} (hsmall : (c.unit s).Small) (hskip : c.eskip s = 0)
    (hk : (c.unit s).width ≤ k) (hpos : c.pos ≤ n) (hunits : n < c.units) :
    (c.change s k).2 =
        (16, (if (c.unit s).start = 0 then 0 else k) * c.blksize) ∧
      unitsAt (c.change s k).1 c.body n = (unitsAt s.mem c.body (n + 1)).eraseIdx c.pos ∧
      (c.pos = 0 ∨ c.units = c.pos + 1 →
        ∀ a, a < c.body ∨ c.body + 16 * c.units ≤ a → (c.change s k).1 a = s.mem a) := by
  unfold change
  dsimp only
  rw [hskip, u32_of_lt hsmall.start, u32_of_lt hsmall.width, if_neg (by simp), if_neg (by omega)]
  refine ⟨?_, ?_, ?_⟩
  · show (16, _) = _
    unfold extentHoleUnit
    split
    · rw [Nat.zero_mul]
    · rfl
  · show unitsAt (if _ then _ else _) c.body n = _
    split
    · refine unitsAt_move hpos ?_
      unfold moveSize
      omega
    · have hn : n = c.pos := by omega
      subst hn
      apply List.ext_getElem?
      intro j
      by_cases hj : j < c.pos
      · rw [unitsAt_getElem? hj, List.getElem?_eraseIdx_of_lt hj, unitsAt_getElem? (by omega)]
      · rw [List.getElem?_eq_none (by simpa using hj), List.getElem?_eq_none]
        rw [List.length_eraseIdx_of_lt (by rw [unitsAt_length]; omega), unitsAt_length]
        omega
  · intro hends a ha
    show (if _ then _ else _ : Bytes) a = _
    split
    · refine Bytes.move_out _ _ _ _ _ ?_
      unfold moveSize
      omega
    · rfl

/-- A round that skips blocks of the unit takes those behind them. -/
theorem remove_of_skip (hsmall : (c.unit s).Small) (hskip : c.eskip s ≤ (c.unit s).width) :
    c.remove s = min (s.size / c.blksize) ((c.unit s).width - c.eskip s) := by
  have hroom : u32 ((c.unit s).width + (two32 - c.eskip s)) = (c.unit s).width - c.eskip s := by
    have := hsmall.width
    unfold u32 two32 at *
    omega
  unfold remove
  rw [u32_of_lt hsmall.width, hroom]

/-- The memory and the counts after such a round: the unit is shorter by the blocks taken. -/
theorem change_skip {n : Nat} (hsmall : (c.unit s).Small) (hskip : c.eskip s ≠ 0)
    (hn : n ≤ (c.unit s).width) :
    (c.change s n).2 = (0, (creditOf (c.unit s).start n + n) * c.blksize) ∧
      unitAt (c.change s n).1 c.body c.pos = ⟨(c.unit s).start, (c.unit s).width - n⟩ ∧
      ∀ a, a < c.body + 16 * c.pos ∨ c.body + 16 * c.pos + 16 ≤ a →
        (c.change s n).1 a = s.mem a := by
  have hwidth : u64 ((c.unit s).width + (two64 - n)) = (c.unit s).width - n := by
    have := hsmall.width
    unfold two32 at this
    unfold u64 two64
    omega
  have hcount : (if (c.unit s).start = extentHoleUnit then 0 else n * c.blksize) + n * c.blksize =
      (creditOf (c.unit s).start n + n) * c.blksize := by
    unfold creditOf extentHoleUnit
    split
    · rw [Nat.zero_add, Nat.zero_add]
    · rw [Nat.add_mul]
  unfold change
  dsimp only
  rw [if_pos hskip, u32_of_lt hsmall.start, hcount]
  refine ⟨rfl, ?_, ?_⟩
  · show unitAt (setWidth _ c.body c.pos _) c.body c.pos = _
    rw [unitAt_setWidth, hwidth]
    rfl
  · intro a ha
    exact setWidth_out _ ha

/-! ## A run -/

/-- The item in the memory has the units `front` in front of the position and `tail` from it on. -/
structure Holds (c : TruncCall) (mem : Bytes) (front tail : List ExtentUnit) : Prop where
  pos : c.pos = front.length
  fits : front.length + tail.length ≤ c.units
  units : unitsAt mem c.body (front.length + tail.length) = front ++ tail

theorem Holds.unit {e : ExtentUnit} {front rest : List ExtentUnit}
    (h : Holds c s.mem front (e :: rest)) : c.unit s = e := by
  have hget : (unitsAt s.mem c.body (front.length + (e :: rest).length))[front.length]? =
      (front ++ e :: rest)[front.length]? := by rw [h.units]
  rw [unitsAt_getElem? (by simp), List.getElem?_append_right (Nat.le_refl _), Nat.sub_self] at hget
  unfold TruncCall.unit
  rw [h.pos]
  exact Option.some.inj hget

/-- What a run leaves that takes `n` blocks from `tail`. -/
structure Leaves (c : TruncCall) (front tail : List ExtentUnit) (n : Nat) (s s' : TruncState) :
    Prop where
  units : unitsAt s'.mem c.body (front.length + (cutHead n tail).length) = front ++ cutHead n tail
  len : s'.len + 16 * (cutHead n tail).length = s.len + 16 * tail.length
  bytes : s'.bytes = u64 (s.bytes + cutCounted n tail * c.blksize)
  frame : c.pos = 0 ∨ c.units = c.pos + 1 →
    ∀ a, a < c.body ∨ c.body + 16 * c.units ≤ a → s'.mem a = s.mem a

section Run

variable {front : List ExtentUnit}

/-- Nothing is left to do when the rest of the size is less than a block. -/
theorem loop_done (fuel : Nat) (h : s.size / c.blksize = 0) :
    (c.loop noteDrop noteFree noteRegion fuel s).run calls = some (.ok s, calls) := by
  cases fuel with
  | zero => rfl
  | succ fuel =>
    have hzero : c.remove s = 0 := by
      unfold remove
      rw [h, Nat.zero_min]
    rw [loop, if_pos hzero]
    rfl

theorem Leaves.none {tail : List ExtentUnit} (h : Holds c s.mem front tail) (hb : s.bytes < two64) :
    Leaves c front tail 0 s s := by
  have hcount : cutCounted 0 tail = 0 := by
    cases tail <;> rfl
  constructor
  · rw [cutHead_zero]
    exact h.units
  · rw [cutHead_zero]
  · rw [hcount, Nat.zero_mul, Nat.add_zero, u64_of_lt hb]
  · intro _ a _
    rfl

/-- The state after a round for the blocks of the whole unit at the position. -/
theorem Holds.next_whole {e : ExtentUnit} {rest : List ExtentUnit}
    (h : Holds c s.mem front (e :: rest)) (hsmall : e.Small) (hskip : c.eskip s = 0) :
    Holds c (c.next s e.width).mem front rest := by
  have hunit := h.unit
  have hfits : front.length + (rest.length + 1) ≤ c.units := h.fits
  obtain ⟨-, hmem, -⟩ := @change_whole c s e.width (front.length + rest.length) (hunit ▸ hsmall) hskip
    (by rw [hunit]) (by have := h.pos; omega) (by omega)
  refine ⟨h.pos, by omega, ?_⟩
  show unitsAt (c.change s e.width).1 c.body (front.length + rest.length) = _
  have hall : unitsAt s.mem c.body (front.length + rest.length + 1) = front ++ e :: rest := h.units
  rw [hmem, hall, h.pos, List.eraseIdx_append_of_length_le (Nat.le_refl _), Nat.sub_self]
  rfl

/-- The state after a round for a part of the unit at the position. -/
theorem Holds.next_part {e : ExtentUnit} {rest : List ExtentUnit} {n : Nat}
    (h : Holds c s.mem front (e :: rest)) (hsmall : e.Small) (hskip : c.eskip s = 0)
    (hn : n < e.width) : Holds c (c.next s n).mem front (e.behead n :: rest) := by
  have hunit := h.unit
  obtain ⟨-, hnew, hrest⟩ := @change_part c s n (hunit ▸ hsmall) hskip (hunit ▸ hn)
  refine ⟨h.pos, h.fits, ?_⟩
  show unitsAt (c.change s n).1 c.body (front.length + (e :: rest).length) = _
  rw [unitsAt_set hrest, hnew, h.units, hunit, h.pos, List.set_append_right _ _ (Nat.le_refl _),
    Nat.sub_self]
  rfl

/-- The state after a round that skips blocks of the unit at the position. -/
theorem Holds.next_skip {e : ExtentUnit} {rest : List ExtentUnit} {n : Nat}
    (h : Holds c s.mem front (e :: rest)) (hsmall : e.Small) (hskip : c.eskip s ≠ 0)
    (hn : n ≤ e.width) : Holds c (c.next s n).mem front (⟨e.start, e.width - n⟩ :: rest) := by
  have hunit := h.unit
  obtain ⟨-, hnew, hrest⟩ := @change_skip c s n (hunit ▸ hsmall) hskip (hunit ▸ hn)
  refine ⟨h.pos, h.fits, ?_⟩
  show unitsAt (c.change s n).1 c.body (front.length + (e :: rest).length) = _
  rw [unitsAt_set hrest, hnew, h.units, hunit, h.pos, List.set_append_right _ _ (Nat.le_refl _),
    Nat.sub_self]
  rfl

/-- The first round of a run that skips blocks. -/
theorem loop_skip {e : ExtentUnit} {rest : List ExtentUnit} {fuel n : Nat}
    (h : Holds c s.mem front (e :: rest)) (hsmall : e.Small) (hskip : c.eskip s ≤ e.width)
    (hn : min (s.size / c.blksize) (e.width - c.eskip s) = n) (hpos : n ≠ 0) :
    ∃ dropped, (c.loop noteDrop noteFree noteRegion (fuel + 1) s).run calls =
      (c.loop noteDrop noteFree noteRegion fuel (c.next s n)).run
        ⟨calls.regions ++ (if 2 ≤ e.start then [(u32 (e.start + c.eskip s), n)] else []),
          calls.free + creditOf e.start n, dropped⟩ := by
  have hunit := h.unit
  have hremove : c.remove s = n := by
    rw [remove_of_skip (hunit ▸ hsmall) (hunit ▸ hskip), hunit, hn]
  obtain ⟨dropped, hcalls⟩ := @notify_run c s calls n (hunit ▸ hsmall.start)
  rw [hunit] at hcalls
  refine ⟨dropped, ?_⟩
  rw [loop, hremove, if_neg hpos, Run.bind_of_ok hcalls]

/-- **A run without blocks to skip** takes the blocks of the size off the front of the units. -/
theorem loop_spec : ∀ (tail : List ExtentUnit) (s : TruncState) (calls : Calls) (fuel : Nat),
    Holds c s.mem front tail → 0 < c.blksize → (c.epos = 0 ∨ s.size < c.count) → s.size ≤ fuel →
    s.bytes < two64 → (∀ e ∈ cutUnits (s.size / c.blksize) tail, e.Small ∧ 0 < e.width) →
    s.size / c.blksize ≤ totalWidth tail →
    ∃ s' dropped, (c.loop noteDrop noteFree noteRegion fuel s).run calls =
        some (.ok s', ⟨calls.regions ++ cutRegions (s.size / c.blksize) tail,
          calls.free + cutCredit (s.size / c.blksize) tail, dropped⟩) ∧
      Leaves c front tail (s.size / c.blksize) s s'
  | [], s, calls, fuel, h, _, _, _, hb, _, henough => by
    have hzero : s.size / c.blksize = 0 := Nat.le_zero.mp henough
    refine ⟨s, calls.dropped, ?_, ?_⟩
    · rw [loop_done fuel hzero]
      simp [cutRegions, cutCredit]
    · rw [hzero]
      exact Leaves.none h hb
  | e :: rest, s, calls, fuel, h, hblk, hskip, hfuel, hb, hsmall, henough => by
    by_cases hzero : s.size / c.blksize = 0
    · refine ⟨s, calls.dropped, ?_, ?_⟩
      · rw [loop_done fuel hzero, hzero]
        simp [cutRegions, cutCredit]
      · rw [hzero]
        exact Leaves.none h hb
    · obtain ⟨m, hm⟩ : ∃ m, m = s.size / c.blksize := ⟨_, rfl⟩
      rw [← hm] at hsmall henough hzero ⊢
      rw [cutUnits, if_neg hzero] at hsmall
      obtain ⟨hse, hwe⟩ := hsmall e List.mem_cons_self
      have hunit := h.unit
      have hnoskip : c.eskip s = 0 := by
        unfold eskip
        rcases hskip with hskip | hskip
        · rw [hskip, ite_self]
        · rw [if_neg (by omega)]
      have hsize : m * c.blksize ≤ s.size := by
        rw [hm]
        exact Nat.div_mul_le_self _ _
      have hremove : c.remove s = min m e.width := by
        rw [remove_of_noskip (hunit ▸ hse) hnoskip, hunit, hm]
      obtain ⟨dropped, hcalls⟩ := @notify_run c s calls (min m e.width) (hunit ▸ hse.start)
      rw [hunit, hnoskip, Nat.add_zero, u32_of_lt hse.start] at hcalls
      obtain ⟨fuel, rfl⟩ : ∃ f, fuel = f + 1 := by
        refine Nat.exists_eq_succ_of_ne_zero fun h0 => hzero ?_
        rw [hm, show s.size = 0 by omega, Nat.zero_div]
      rw [loop, hremove, if_neg (by omega), Run.bind_of_ok hcalls]
      rw [cutRegions, cutCredit, if_neg hzero, if_neg hzero, ← List.append_assoc, ← Nat.add_assoc]
      have hregion : (if 2 ≤ e.start then [(e.start, min m e.width)] else []) =
          regionOf e.start (min m e.width) := rfl
      rw [hregion]
      by_cases hlt : m < e.width
      · -- A part of the unit: what is left of the size is less than a block.
        have hrest : m - e.width = 0 := by omega
        have hmod : (c.next s m).size / c.blksize = 0 := by
          show (s.size - m * c.blksize) / c.blksize = 0
          rw [hm, Nat.mul_comm, ← Nat.mod_eq_sub]
          exact Nat.div_eq_of_lt (Nat.mod_lt _ hblk)
        have hnone : ∀ us : List ExtentUnit, cutRegions 0 us = [] ∧ cutCredit 0 us = 0 := by
          intro us
          cases us <;> exact ⟨rfl, rfl⟩
        rw [Nat.min_eq_left (Nat.le_of_lt hlt), hrest, (hnone rest).1, (hnone rest).2,
          List.append_nil, Nat.add_zero]
        refine ⟨_, dropped, loop_done fuel hmod, ?_⟩
        obtain ⟨hcounts, -, hframe⟩ := @change_part c s m (hunit ▸ hse) hnoskip (hunit ▸ hlt)
        have hheld := h.next_part hse hnoskip hlt
        have hcut : cutHead m (e :: rest) = e.behead m :: rest := by
          rw [cutHead, if_neg hzero, if_pos hlt]
        have hcounted : cutCounted m (e :: rest) = creditOf e.start m + m := by
          unfold cutCounted
          rw [cutCredit, cutPart, if_neg hzero, if_neg hzero, if_pos hlt, hrest, (hnone rest).2,
            Nat.min_eq_left (Nat.le_of_lt hlt), Nat.add_zero]
        constructor
        · rw [hcut]
          exact hheld.units
        · rw [hcut]
          show s.len + (c.change s m).2.1 + _ = _
          rw [hcounts]
          rfl
        · show u64 (s.bytes + (c.change s m).2.2) = _
          rw [hcounts, hcounted, hunit]
        · intro _ a ha
          have hfits := h.fits
          rw [List.length_cons] at hfits
          have hpos := h.pos
          exact hframe a (by omega)
      · -- The whole unit: the next one is at the position then.
        have hw : e.width ≤ m := by omega
        have hdiv : (c.next s e.width).size / c.blksize = m - e.width := by
          show (s.size - e.width * c.blksize) / c.blksize = _
          rw [hm, Nat.mul_comm, Nat.sub_mul_div]
        have hless : (c.next s e.width).size < s.size := by
          show s.size - e.width * c.blksize < s.size
          have := Nat.mul_pos hwe hblk
          have := Nat.mul_le_mul_right c.blksize hw
          omega
        have hfits : front.length + (rest.length + 1) ≤ c.units := h.fits
        obtain ⟨hcounts, -, hframe⟩ := @change_whole c s e.width (front.length + rest.length)
          (hunit ▸ hse) hnoskip (by rw [hunit]) (by have := h.pos; omega) (by omega)
        rw [totalWidth_cons] at henough
        rw [Nat.min_eq_right hw]
        obtain ⟨s', dropped', hrun, hleft⟩ := loop_spec rest (c.next s e.width)
          ⟨calls.regions ++ regionOf e.start e.width, calls.free + creditOf e.start e.width, dropped⟩
          fuel (h.next_whole hse hnoskip) hblk (by omega) (by omega) (u64_lt _)
          (by
            rw [hdiv]
            exact fun x hx => hsmall x (List.mem_cons_of_mem _ hx))
          (by
            rw [hdiv]
            omega)
        rw [hdiv] at hrun hleft
        refine ⟨s', dropped', hrun, ?_⟩
        have hcut : cutHead m (e :: rest) = cutHead (m - e.width) rest := by
          rw [cutHead, if_neg hzero, if_neg hlt]
        have hcounted : cutCounted m (e :: rest) =
            creditOf e.start e.width + cutCounted (m - e.width) rest := by
          unfold cutCounted
          rw [cutCredit, cutPart, if_neg hzero, if_neg hzero, if_neg hlt, Nat.min_eq_right hw,
            Nat.add_assoc]
        constructor
        · rw [hcut]
          exact hleft.units
        · rw [hcut, List.length_cons, hleft.len]
          show s.len + (c.change s e.width).2.1 + _ = _
          rw [hcounts]
          show s.len + 16 + _ = _
          omega
        · rw [hleft.bytes, hcounted]
          show u64 (u64 (s.bytes + (c.change s e.width).2.2) + _) = _
          rw [hcounts, hunit]
          show u64 (u64 (s.bytes + creditOf e.start e.width * c.blksize) + _) = _
          rw [Nat.add_mul]
          unfold u64
          omega
        · intro hends a ha
          rw [hleft.frame hends a ha]
          exact hframe hends a ha

end Run

end TruncCall

end Reiser4
