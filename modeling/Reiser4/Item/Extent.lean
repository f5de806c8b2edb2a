/-
  Joining the units of an extent item (`extent40_join_units`).

  A unit stands for `width` file blocks: holes (start 0), blocks that have no place yet (start 1), or
  the disk blocks from `start` on.  The item maps its file blocks, in order, to what the units say.

  Two neighbours are joined when both are holes, or when the second starts where the first ends:
  `start + width` of the first is compared with `start` of the second, whatever the two stand for.  So
  a hole of `w` blocks in front of the disk block `w` is joined with it, and the block is lost.  The
  widths are added in 64 bits.

    1. `joinLoop_map`   one induction over the units: what is joined well keeps the map, and anything
                        else loses disk blocks or file blocks for good;
    2. `extent40JoinUnits_map_iff`   the map is kept exactly when every join is one of like units.
-/
import Reiser4.Bitmap
import Reiser4.Item.Body
import Mathlib.Data.List.ReduceOption

namespace Reiser4

/-! ## The loop -/

/-- The test of `extent40_join_units` on two neighbours. -/
def joins (p e : ExtentUnit) : Bool :=
  (p.start == extentHoleUnit && e.start == extentHoleUnit) || u64 (p.start + p.width) == e.start

/-- The loop of `extent40_join_units` with `fix` set: `done` are the units in front of the current
    one, last first.  The result is what is left, and the number of units cut out. -/
def joinLoop : List ExtentUnit → List ExtentUnit → List ExtentUnit × Nat
  | done, [] => (done.reverse, 0)
  | [], e :: rest =>
    if e.width = 0 then
      let r := joinLoop [] rest
      (r.1, r.2 + 1)
    else joinLoop [e] rest
  | p :: done, e :: rest =>
    if e.width = 0 ∨ joins p e then
      let r := joinLoop ({ p with width := u64 (p.width + e.width) } :: done) rest
      (r.1, r.2 + 1)
    else joinLoop (e :: p :: done) rest

/-- `extent40_join_units`. -/
def extent40JoinUnits (us : List ExtentUnit) : List ExtentUnit × Nat := joinLoop [] us

/-! ## The map of an item -/

/-- The unit stands for disk blocks. -/
def ExtentUnit.isDisk (e : ExtentUnit) : Bool :=
  !(e.start == extentHoleUnit || e.start == extentUnallocUnit)

/-- What the file blocks of a unit are mapped to. -/
def ExtentUnit.blocks (e : ExtentUnit) : List (Option Nat) :=
  if e.isDisk then (List.range' e.start e.width).map some else List.replicate e.width none

/-- The map from the file blocks of the item to disk blocks. -/
def extentMap (us : List ExtentUnit) : List (Option Nat) := us.flatMap ExtentUnit.blocks

@[simp] theorem extentMap_nil : extentMap [] = [] := rfl

@[simp] theorem extentMap_cons (e : ExtentUnit) (us : List ExtentUnit) :
    extentMap (e :: us) = e.blocks ++ extentMap us := rfl

@[simp] theorem extentMap_append (us vs : List ExtentUnit) :
    extentMap (us ++ vs) = extentMap us ++ extentMap vs := List.flatMap_append

/-- The disk blocks of the item, in order. -/
def extentDisk (us : List ExtentUnit) : List Nat := (extentMap us).reduceOption

@[simp] theorem blocks_length (e : ExtentUnit) : e.blocks.length = e.width := by
  unfold ExtentUnit.blocks
  split <;> simp

theorem isDisk_iff (e : ExtentUnit) : e.isDisk = true ↔ 2 ≤ e.start := by
  unfold ExtentUnit.isDisk extentHoleUnit extentUnallocUnit
  simp only [Bool.not_eq_true', Bool.or_eq_false_iff, beq_eq_false_iff_ne]
  omega

theorem blocks_reduce_disk {e : ExtentUnit} (h : e.isDisk = true) :
    e.blocks.reduceOption = List.range' e.start e.width := by
  unfold ExtentUnit.blocks
  rw [if_pos h]
  simp [List.reduceOption, List.filterMap_map]

theorem blocks_reduce_hole {e : ExtentUnit} (h : e.isDisk = false) : e.blocks.reduceOption = [] := by
  unfold ExtentUnit.blocks
  rw [if_neg (by rw [h]; decide)]
  simp [List.reduceOption]

/-- The number of disk blocks of a map. -/
def diskCount (l : List (Option Nat)) : Nat := l.reduceOption.length

theorem diskCount_append (l l' : List (Option Nat)) :
    diskCount (l ++ l') = diskCount l + diskCount l' := by
  simp [diskCount, List.reduceOption_append]

theorem diskCount_blocks (e : ExtentUnit) :
    diskCount e.blocks = if e.isDisk then e.width else 0 := by
  unfold diskCount
  cases h : e.isDisk with
  | true => simp [blocks_reduce_disk h]
  | false => simp [blocks_reduce_hole h]

/-! ## Which joins keep the map -/

/-- A join of like units whose width fits. -/
def joinOk (p e : ExtentUnit) : Bool :=
  p.isDisk == e.isDisk && decide (p.width + e.width < two64)

/-- Every join of the loop is one of like units: `last` is the unit in front of the current one, with
    what has been joined to it. -/
def joinsOk : Option ExtentUnit → List ExtentUnit → Bool
  | _, [] => true
  | none, e :: rest => if e.width = 0 then joinsOk none rest else joinsOk (some e) rest
  | some p, e :: rest =>
    if e.width = 0 then joinsOk (some p) rest
    else if joins p e then
      joinOk p e && joinsOk (some { p with width := p.width + e.width }) rest
    else joinsOk (some e) rest

/-- The numbers fit their fields, and the disk blocks are below 2^64. -/
structure ExtentUnit.Fits (e : ExtentUnit) : Prop where
  start : e.start < two64
  width : e.width < two64
  disk : e.isDisk = true → e.start + e.width < two64

theorem u64_of_lt {n : Nat} (h : n < two64) : u64 n = n := Nat.mod_eq_of_lt h

theorem u64_lt (n : Nat) : u64 n < two64 := Nat.mod_lt _ (by decide)

section Joining

variable {p e : ExtentUnit}

/-- A disk unit is joined only with the one behind it on disk. -/
theorem joins_disk (hp : p.Fits) (hdisk : p.isDisk = true) (h : joins p e = true) :
    e.start = p.start + p.width := by
  have h2 := (isDisk_iff p).mp hdisk
  unfold joins extentHoleUnit at h
  rw [u64_of_lt (hp.disk hdisk)] at h
  simp only [Bool.or_eq_true, Bool.and_eq_true, beq_iff_eq] at h
  omega

/-- A unit joined with a like one stands for the blocks of both. -/
theorem blocks_join (hp : p.Fits) (h : joins p e = true) (hok : joinOk p e = true) :
    ({ p with width := u64 (p.width + e.width) } : ExtentUnit).blocks = p.blocks ++ e.blocks := by
  unfold joinOk at hok
  simp only [Bool.and_eq_true, beq_iff_eq, decide_eq_true_eq] at hok
  obtain ⟨hlike, hfit⟩ := hok
  rw [u64_of_lt hfit]
  have hkind : ({ p with width := p.width + e.width } : ExtentUnit).isDisk = p.isDisk := rfl
  unfold ExtentUnit.blocks
  rw [hkind, ← hlike]
  cases hdisk : p.isDisk with
  | true =>
    rw [if_pos rfl, if_pos rfl, if_pos rfl, joins_disk hp hdisk h, ← List.map_append,
      List.range'_append_1]
  | false =>
    rw [if_neg (by decide), if_neg (by decide), if_neg (by decide), List.replicate_append_replicate]

/-- The unit that is left by a join fits again. -/
theorem fits_join (hp : p.Fits) (he : e.Fits) (h : joins p e = true ∨ e.width = 0) :
    ({ p with width := u64 (p.width + e.width) } : ExtentUnit).Fits := by
  refine ⟨hp.start, u64_lt _, ?_⟩
  intro hdisk
  have hdisk' : p.isDisk = true := hdisk
  have hend := hp.disk hdisk'
  show p.start + u64 (p.width + e.width) < two64
  rcases h with h | h
  · have hstart := joins_disk hp hdisk' h
    have h2 := (isDisk_iff p).mp hdisk'
    have hedisk : e.isDisk = true := (isDisk_iff e).mpr (by omega)
    have := he.disk hedisk
    rw [u64_of_lt (by omega)]
    omega
  · rw [h, Nat.add_zero, u64_of_lt hp.width]
    exact hend

/-- A join of unlike units, or of two whose width does not fit, loses disk blocks or file blocks. -/
theorem join_loses (hp : p.Fits) (he : e.Fits) (hpos : e.width ≠ 0) (h : joins p e = true)
    (hok : joinOk p e = false) :
    let q : ExtentUnit := { p with width := u64 (p.width + e.width) }
    diskCount q.blocks ≤ diskCount p.blocks + diskCount e.blocks ∧
      q.width ≤ p.width + e.width ∧
      (diskCount q.blocks < diskCount p.blocks + diskCount e.blocks ∨
        q.width < p.width + e.width) := by
  intro q
  have hpdisk : p.isDisk = false := by
    cases hdisk : p.isDisk with
    | false => rfl
    | true =>
      -- Behind a disk unit comes a disk unit, and both end below 2^64.
      exfalso
      have hstart := joins_disk hp hdisk h
      have h2 := (isDisk_iff p).mp hdisk
      have hedisk : e.isDisk = true := (isDisk_iff e).mpr (by omega)
      have := he.disk hedisk
      unfold joinOk at hok
      rw [hdisk, hedisk, decide_eq_true (show p.width + e.width < two64 by omega)] at hok
      cases hok
  have hq : q.isDisk = false := hpdisk
  have hwidth : q.width ≤ p.width + e.width := Nat.mod_le _ _
  rw [diskCount_blocks, diskCount_blocks, diskCount_blocks, hq, hpdisk]
  cases hedisk : e.isDisk with
  | true =>
    refine ⟨by simp, hwidth, Or.inl ?_⟩
    simp
    omega
  | false =>
    have hover : two64 ≤ p.width + e.width := by
      unfold joinOk at hok
      rw [hpdisk, hedisk] at hok
      simpa using hok
    have := u64_lt (p.width + e.width)
    refine ⟨by simp, hwidth, Or.inr ?_⟩
    show u64 (p.width + e.width) < _
    omega

end Joining

/-- The map of what the loop leaves, against that of what it began with: the same if all joins are
    good, otherwise with fewer disk blocks or fewer file blocks. -/
theorem joinLoop_map : ∀ (rest done : List ExtentUnit), (∀ e ∈ done, e.Fits) →
    (∀ e ∈ rest, e.Fits) →
    let before := extentMap (done.reverse ++ rest)
    let after := extentMap (joinLoop done rest).1
    diskCount after ≤ diskCount before ∧ after.length ≤ before.length ∧
      (joinsOk done.head? rest = true → after = before) ∧
      (joinsOk done.head? rest = false →
        diskCount after < diskCount before ∨ after.length < before.length)
  | [], done, _, _ => by
    intro before after
    have heq : after = before := by
      show extentMap (joinLoop done []).1 = extentMap (done.reverse ++ [])
      rw [joinLoop, List.append_nil]
    rw [heq]
    refine ⟨Nat.le_refl _, Nat.le_refl _, fun _ => rfl, ?_⟩
    intro hno
    rw [joinsOk] at hno
    cases hno
  | e :: rest, [], _, hrest => by
    have hrest' : ∀ e ∈ rest, e.Fits := fun x hx => hrest x (List.mem_cons_of_mem _ hx)
    have he : e.Fits := hrest e (by simp)
    rw [joinLoop]
    by_cases h0 : e.width = 0
    · have hnil : e.blocks = [] := List.eq_nil_of_length_eq_zero (by rw [blocks_length, h0])
      have ih := joinLoop_map rest [] (by simp) hrest'
      rw [if_pos h0]
      simpa [joinsOk, h0, hnil] using ih
    · have ih := joinLoop_map rest [e] (by simpa using he) hrest'
      rw [if_neg h0]
      simpa [joinsOk, h0] using ih
  | e :: rest, p :: done, hdone, hrest => by
    have hrest' : ∀ e ∈ rest, e.Fits := fun x hx => hrest x (List.mem_cons_of_mem _ hx)
    have hdone' : ∀ e ∈ done, e.Fits := fun x hx => hdone x (List.mem_cons_of_mem _ hx)
    have he : e.Fits := hrest e (by simp)
    have hp : p.Fits := hdone p (by simp)
    rw [joinLoop]
    by_cases hjoin : e.width = 0 ∨ joins p e = true
    · rw [if_pos hjoin]
      have hq := fits_join hp he hjoin.symm
      obtain ⟨h1, h2, h3, h4⟩ := joinLoop_map rest
        ({ p with width := u64 (p.width + e.width) } :: done)
        (fun x hx => by
          rcases List.mem_cons.mp hx with rfl | hx
          · exact hq
          · exact hdone' x hx) hrest'
      simp only [List.reverse_cons, List.append_assoc, extentMap_append, List.cons_append,
        List.nil_append, extentMap_cons, diskCount_append, List.length_append, blocks_length,
        List.head?_cons] at h1 h2 h3 h4 ⊢
      by_cases h0 : e.width = 0
      · -- Nothing is joined to the unit.
        have hnil : e.blocks = [] := List.eq_nil_of_length_eq_zero (by rw [blocks_length, h0])
        have hwidth : u64 (p.width + e.width) = p.width := by
          rw [h0, Nat.add_zero, u64_of_lt hp.width]
        have hcount : diskCount ([] : List (Option Nat)) = 0 := rfl
        rw [hwidth] at h1 h2 h3 h4 ⊢
        rw [joinsOk, if_pos h0, hnil, hcount, h0]
        simp only [List.nil_append, Nat.zero_add]
        exact ⟨h1, h2, h3, h4⟩
      · have hj : joins p e = true := hjoin.resolve_left h0
        rw [joinsOk, if_neg h0, if_pos hj]
        cases hok : joinOk p e with
        | true =>
          have hblocks := blocks_join hp hj hok
          have hwidth : u64 (p.width + e.width) = p.width + e.width := by
            apply u64_of_lt
            unfold joinOk at hok
            simp only [Bool.and_eq_true, decide_eq_true_eq] at hok
            exact hok.2
          rw [hwidth] at hblocks h1 h2 h3 h4 ⊢
          have hcount := congrArg diskCount hblocks
          rw [diskCount_append] at hcount
          rw [hblocks] at h3
          rw [hcount] at h1 h4
          rw [Bool.true_and]
          refine ⟨by omega, by omega, ?_, ?_⟩
          · intro hrest
            rw [h3 hrest, List.append_assoc]
          · intro hrest
            have := h4 hrest
            omega
        | false =>
          obtain ⟨hl1, hl2, hl3⟩ := join_loses hp he h0 hj hok
          dsimp only at hl1 hl2 hl3
          refine ⟨by omega, by omega, ?_, ?_⟩
          · intro hno
            cases hno
          · intro _
            omega
    · rw [if_neg hjoin]
      rw [not_or] at hjoin
      have ih := joinLoop_map rest (e :: p :: done) (fun x hx => by
        rcases List.mem_cons.mp hx with rfl | hx
        · exact he
        · exact hdone x hx) hrest'
      simpa [joinsOk, hjoin.1, hjoin.2] using ih

/-- **Joining keeps the map of an item if and only if** every join is one of like units whose width
    fits. -/
theorem extent40JoinUnits_map_iff {us : List ExtentUnit} (h : ∀ e ∈ us, e.Fits) :
    extentMap (extent40JoinUnits us).1 = extentMap us ↔ joinsOk none us = true := by
  obtain ⟨-, -, hok, hno⟩ := joinLoop_map us [] (by simp) h
  constructor
  · intro heq
    by_contra hbad
    have := hno (by simpa using hbad)
    have heq' : extentMap (joinLoop [] us).1 = extentMap ([].reverse ++ us) := heq
    rw [heq'] at this
    omega
  · exact hok

/-- The second result is the number of units cut out. -/
theorem joinLoop_count (done rest : List ExtentUnit) :
    (joinLoop done rest).1.length + (joinLoop done rest).2 = done.length + rest.length := by
  fun_induction joinLoop done rest with
  | case1 done => simp
  | case2 e rest h0 r ih =>
    show (joinLoop [] rest).1.length + ((joinLoop [] rest).2 + 1) = _
    rw [List.length_cons]
    omega
  | case3 e rest h0 ih =>
    simp only [List.length_cons, List.length_nil] at ih ⊢
    omega
  | case4 p done e rest hjoin r ih =>
    simp only [List.length_cons, r] at ih ⊢
    omega
  | case5 p done e rest hjoin ih =>
    simp only [List.length_cons] at ih ⊢
    omega

/-- The loop leaves nothing exactly when no unit has a width. -/
theorem joinLoop_eq_nil : ∀ (rest done : List ExtentUnit),
    (joinLoop done rest).1 = [] ↔ done = [] ∧ ∀ e ∈ rest, e.width = 0
  | [], done => by
    rw [joinLoop]
    simp
  | e :: rest, [] => by
    rw [joinLoop]
    by_cases h0 : e.width = 0
    · rw [if_pos h0]
      have := joinLoop_eq_nil rest []
      simpa [h0] using this
    · rw [if_neg h0, joinLoop_eq_nil rest [e]]
      simp [h0]
  | e :: rest, p :: done => by
    rw [joinLoop]
    split
    · have := joinLoop_eq_nil rest ({ p with width := u64 (p.width + e.width) } :: done)
      simpa using this
    · rw [joinLoop_eq_nil rest]
      simp

end Reiser4
