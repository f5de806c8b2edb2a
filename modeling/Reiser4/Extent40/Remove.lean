/-
  Removing units from an extent item (`extent40_remove_units`).

  Where a region callback is given, the blocks of every unit that is not a hole are credited to the free
  count, and every unit with disk blocks is reported; start and width are copied through 32-bit locals
  for this.  Then the units behind the removed ones are moved up and, when the first unit went, the item
  key is set to the key of the first unit that is left: but by then that unit is the first of the item,
  so its key is computed as the old one.

    1. `removeRegions_run`   what the loop over the removed units reports and credits, call by call;
    2. `regions_eq_iff`, `credits_eq_iff`   the copies are right exactly when nothing was cut off;
    3. `extent40RemoveUnits_iff`   the law of the routine holds exactly under `RemoveOk`.
-/
import Reiser4.Lib.Run
import Reiser4.Extent40.Map
import Reiser4.Aal

namespace Reiser4

open Reiser4.Lib

/-- The part of `reiser4_place_t` that belongs to the item: `unit` is `none` for `MAX_UINT32`. -/
structure ExtentPlace where
  key : Key
  unit : Option Nat
  units : List ExtentUnit
  deriving DecidableEq, Repr

/-! ## The routine -/

section Routine

variable {σ : Type} (incFree : Nat → Run σ Errno Unit)

/-- One removed unit: `tree_ops.inc_free` for the blocks it has, the callback for those on disk. -/
def removeRegion (regionFunc : Nat → Nat → Run σ Errno Unit) (e : ExtentUnit) : Run σ Errno Unit :=
  let start := u32 e.start
  let width := u32 e.width
  if start = extentHoleUnit then pure ()
  else if start = extentUnallocUnit then incFree width
  else do
    incFree width
    regionFunc start width

/-- `extent40_offset`, in bytes. -/
def extent40Offset (blksize : Nat) (us : List ExtentUnit) (pos : Nat) : Nat :=
  u64 (Item.extentBlocks us pos * blksize)

/-- `extent40_fetch_key`.  The unit `MAX_UINT32` is far behind the item, and the loop over the units in
    front of it ends in no known way. -/
def extent40FetchKey (blksize : Nat) (place : ExtentPlace) : Run σ Errno Key :=
  match place.unit with
  | none => Run.hang
  | some u => pure (place.key.setOffset (u64 (place.key.offset + extent40Offset blksize place.units u)))

/-- The calls of `extent40_remove_units` for the removed units. -/
def removeRegions (regionFunc : Option (Nat → Nat → Run σ Errno Unit)) (removed : List ExtentUnit) :
    Run σ Errno Unit :=
  match regionFunc with
  | some f => Run.forEach (removeRegion incFree f) removed
  | none => pure ()

/-- The move of the units behind the removed ones, and the update of the item key behind it; the result
    is the place with what is left, and `hint->len`. -/
def removeMove (blksize : Nat) (place : ExtentPlace) (pos count : Nat) :
    Run σ Errno (ExtentPlace × Nat) :=
  let place := { place with units := place.units.take pos ++ place.units.drop (pos + count) }
  if pos = 0 then do
    let key ← extent40FetchKey blksize place
    pure ({ place with key }, 16 * count)
  else pure (place, 16 * count)

/-- `extent40_remove_units`. -/
def extent40RemoveUnits (regionFunc : Option (Nat → Nat → Run σ Errno Unit)) (blksize : Nat)
    (place : ExtentPlace) (count : Nat) : Run σ Errno (ExtentPlace × Nat) := do
  let pos := place.unit.getD 0
  removeRegions incFree regionFunc ((place.units.drop pos).take count)
  removeMove blksize place pos count

end Routine

/-! ## What is reported -/

/-- What the callbacks were told: the regions in order, and the blocks credited; `dropped` are the file
    offsets of the blocks taken out of the data cache. -/
structure Calls where
  regions : List (Nat × Nat)
  free : Nat
  dropped : List Nat
  deriving DecidableEq, Repr

/-- Callbacks that note what they are told. -/
def noteFree (n : Nat) : Run Calls Errno Unit := Run.modify fun c => { c with free := c.free + n }

def noteRegion (start width : Nat) : Run Calls Errno Unit :=
  Run.modify fun c => { c with regions := c.regions ++ [(start, width)] }

/-- The disk region of a unit, if it has one, and the number of blocks it takes up, as numbers. -/
def regionOf (start width : Nat) : List (Nat × Nat) := if 2 ≤ start then [(start, width)] else []

def creditOf (start width : Nat) : Nat := if start = 0 then 0 else width

namespace ExtentUnit

def region (e : ExtentUnit) : List (Nat × Nat) := regionOf e.start e.width

def credit (e : ExtentUnit) : Nat := creditOf e.start e.width

/-- The same after a copy through 32-bit locals. -/
def region32 (e : ExtentUnit) : List (Nat × Nat) := regionOf (u32 e.start) (u32 e.width)

def credit32 (e : ExtentUnit) : Nat := creditOf (u32 e.start) (u32 e.width)

/-- Start and width of a unit with blocks survive the copy. -/
def Narrow (e : ExtentUnit) : Prop := e.start ≠ 0 → e.start < two32 ∧ e.width < two32

end ExtentUnit

theorem removeRegion_run (e : ExtentUnit) (c : Calls) :
    (removeRegion noteFree noteRegion e).run c =
      some (.ok (), { c with regions := c.regions ++ e.region32, free := c.free + e.credit32 }) := by
  unfold removeRegion ExtentUnit.region32 ExtentUnit.credit32 regionOf creditOf extentHoleUnit
    extentUnallocUnit
  by_cases h0 : u32 e.start = 0
  · simp [h0]
  · by_cases h1 : u32 e.start = 1
    · simp [h1, noteFree]
    · have h2 : 2 ≤ u32 e.start := by omega
      rw [if_neg h0, if_neg h1, if_pos h2, if_neg h0]
      rfl

/-- The loop over the removed units notes all of them, in order. -/
theorem removeRegions_run (us : List ExtentUnit) (c : Calls) :
    (Run.forEach (removeRegion noteFree noteRegion) us).run c =
      some (.ok (), { c with
        regions := c.regions ++ us.flatMap ExtentUnit.region32
        free := c.free + (us.map ExtentUnit.credit32).sum }) := by
  induction us generalizing c with
  | nil => simp [Run.forEach]
  | cons e us ih =>
    show (removeRegion noteFree noteRegion e >>= fun _ =>
      Run.forEach (removeRegion noteFree noteRegion) us).run c = _
    rw [Run.bind_of_ok (removeRegion_run e c), ih]
    simp [Nat.add_assoc]

/-- The reported regions are the regions of the units exactly when these have 32-bit numbers. -/
theorem regions_eq_iff (us : List ExtentUnit) :
    us.flatMap ExtentUnit.region32 = us.flatMap ExtentUnit.region ↔
      ∀ e ∈ us, 2 ≤ e.start → e.start < two32 ∧ e.width < two32 := by
  constructor
  · intro heq e he h2
    have hmem : (e.start, e.width) ∈ us.flatMap ExtentUnit.region := by
      rw [List.mem_flatMap]
      refine ⟨e, he, ?_⟩
      unfold ExtentUnit.region regionOf
      rw [if_pos h2]
      exact List.mem_singleton.mpr rfl
    rw [← heq, List.mem_flatMap] at hmem
    obtain ⟨x, -, hx⟩ := hmem
    unfold ExtentUnit.region32 regionOf at hx
    split at hx
    · rw [List.mem_singleton, Prod.mk.injEq] at hx
      exact ⟨hx.1 ▸ u32_lt _, hx.2 ▸ u32_lt _⟩
    · cases hx
  · intro h
    induction us with
    | nil => rfl
    | cons e us ih =>
      have htail := ih fun x hx => h x (List.mem_cons_of_mem _ hx)
      have hhead : e.region32 = e.region := by
        unfold ExtentUnit.region32 ExtentUnit.region regionOf
        by_cases h2 : 2 ≤ e.start
        · obtain ⟨hs, hw⟩ := h e (by simp) h2
          rw [u32_of_lt hs, u32_of_lt hw]
        · rw [u32_of_lt (show e.start < two32 by unfold two32; omega), if_neg h2, if_neg h2]
      rw [List.flatMap_cons, List.flatMap_cons, hhead, htail]

theorem credit32_le (e : ExtentUnit) : e.credit32 ≤ e.credit := by
  unfold ExtentUnit.credit32 ExtentUnit.credit creditOf
  by_cases h0 : e.start = 0
  · rw [h0]
    simp [u32]
  · rw [if_neg h0]
    split
    · exact Nat.zero_le _
    · exact u32_le _

/-- The credited blocks are those of the units exactly when no unit is credited with fewer. -/
theorem credits_eq_iff (us : List ExtentUnit) :
    (us.map ExtentUnit.credit32).sum = (us.map ExtentUnit.credit).sum ↔
      ∀ e ∈ us, e.credit32 = e.credit := by
  induction us with
  | nil => simp
  | cons e us ih =>
    have hle : (us.map ExtentUnit.credit32).sum ≤ (us.map ExtentUnit.credit).sum := by
      clear ih
      induction us with
      | nil => exact Nat.le_refl _
      | cons x us ih =>
        have := credit32_le x
        simp only [List.map_cons, List.sum_cons]
        omega
    have := credit32_le e
    simp only [List.map_cons, List.sum_cons, List.forall_mem_cons]
    rw [← ih]
    omega

/-- **Both are right if and only if** the units with blocks have 32-bit numbers. -/
theorem calls_eq_iff (us : List ExtentUnit) :
    (us.flatMap ExtentUnit.region32 = us.flatMap ExtentUnit.region ∧
        (us.map ExtentUnit.credit32).sum = (us.map ExtentUnit.credit).sum) ↔
      ∀ e ∈ us, e.Narrow := by
  rw [regions_eq_iff, credits_eq_iff]
  constructor
  · rintro ⟨hregions, hcredits⟩ e he h0
    by_cases h2 : 2 ≤ e.start
    · exact hregions e he h2
    · have h1 : e.start = 1 := by omega
      have hc := hcredits e he
      unfold ExtentUnit.credit32 ExtentUnit.credit creditOf at hc
      rw [h1, u32_of_lt (by decide), if_neg (by decide), if_neg (by decide)] at hc
      exact ⟨by rw [h1]; decide, hc ▸ u32_lt _⟩
  · intro h
    refine ⟨fun e he h2 => h e he (by omega), fun e he => ?_⟩
    unfold ExtentUnit.credit32 ExtentUnit.credit creditOf
    by_cases h0 : e.start = 0
    · rw [h0]
      rfl
    · obtain ⟨hs, hw⟩ := h e he h0
      rw [u32_of_lt hs, u32_of_lt hw]

/-! ## The law -/

/-- The offset in the file of the first byte of a unit. -/
def unitOffset (blksize : Nat) (place : ExtentPlace) (i : Nat) : Nat :=
  u64 (place.key.offset + extent40Offset blksize place.units i)

/-- What removing `count` units is to do: `called` tells whether there is a region callback. -/
def RemovesWell (called : Bool) (blksize : Nat) (place : ExtentPlace) (count : Nat) (c : Calls) : Prop :=
  let pos := place.unit.getD 0
  let removed := (place.units.drop pos).take count
  ∃ place' c', (extent40RemoveUnits noteFree (if called then some noteRegion else none) blksize place
      count).run c = some (.ok (place', 16 * count), c') ∧
    place'.units = place.units.take pos ++ place.units.drop (pos + count) ∧
    (called = true → c'.regions = c.regions ++ removed.flatMap ExtentUnit.region) ∧
    c'.free = c.free + (removed.map ExtentUnit.credit).sum ∧
    (pos = 0 ∨ pos + count = place.units.length → ∀ i < place'.units.length,
      unitOffset blksize place' i = unitOffset blksize place (if i < pos then i else i + count))

/-- The unit is not `MAX_UINT32`; the numbers of the removed units with blocks survive their copy, and
    without a callback there are no such blocks; and where the first unit is removed, all are, or those
    removed cover no bytes. -/
structure RemoveOk (called : Bool) (blksize : Nat) (place : ExtentPlace) (count : Nat) : Prop where
  unit : place.unit ≠ none
  narrow : called = true → ∀ e ∈ (place.units.drop (place.unit.getD 0)).take count, e.Narrow
  silent : called = false →
    (((place.units.drop (place.unit.getD 0)).take count).map ExtentUnit.credit).sum = 0
  key : place.unit = some 0 → place.units.length ≤ count ∨ extent40Offset blksize place.units count = 0

section Law

variable {called : Bool} {blksize count : Nat} {place : ExtentPlace} {c : Calls}

/-- What the callbacks are told by a call that removes the units `us`. -/
def noted (called : Bool) (us : List ExtentUnit) (c : Calls) : Calls :=
  if called then
    { c with
      regions := c.regions ++ us.flatMap ExtentUnit.region32
      free := c.free + (us.map ExtentUnit.credit32).sum }
  else c

/-- What the routine leaves: without the removed units, under the key it had. -/
def leftPlace (blksize : Nat) (place : ExtentPlace) (u count : Nat) : ExtentPlace where
  key := if u = 0 then place.key.setOffset (u64 (place.key.offset + extent40Offset blksize
    (place.units.take u ++ place.units.drop (u + count)) u)) else place.key
  unit := place.unit
  units := place.units.take u ++ place.units.drop (u + count)

theorem removeRegions_noted (us : List ExtentUnit) :
    (removeRegions noteFree (if called then some noteRegion else none) us).run c =
      some (.ok (), noted called us c) := by
  cases called with
  | true => exact removeRegions_run us c
  | false => rfl

theorem removeMove_run {u : Nat} (hu : place.unit = some u) :
    (removeMove blksize place u count).run c =
      some (.ok (leftPlace blksize place u count, 16 * count), c) := by
  unfold removeMove leftPlace extent40FetchKey
  dsimp only
  rw [hu]
  by_cases h0 : u = 0
  · rw [if_pos h0, if_pos h0]
    rfl
  · rw [if_neg h0, if_neg h0]
    rfl

theorem extent40RemoveUnits_run {u : Nat} (hu : place.unit = some u) :
    (extent40RemoveUnits noteFree (if called then some noteRegion else none) blksize place count).run c =
      some (.ok (leftPlace blksize place u count, 16 * count),
        noted called ((place.units.drop u).take count) c) := by
  have hpos : place.unit.getD 0 = u := by rw [hu]; rfl
  unfold extent40RemoveUnits
  rw [hpos]
  exact (Run.bind_of_ok (removeRegions_noted _)).trans (removeMove_run hu)

/-- For the unit `MAX_UINT32` the routine does not end in any known way. -/
theorem extent40RemoveUnits_hang (hu : place.unit = none) :
    (extent40RemoveUnits noteFree (if called then some noteRegion else none) blksize place count).run c =
      none := by
  have hpos : place.unit.getD 0 = 0 := by rw [hu]; rfl
  unfold extent40RemoveUnits
  rw [hpos]
  refine (Run.bind_of_ok (removeRegions_noted _)).trans ?_
  unfold removeMove extent40FetchKey
  rw [hu]
  rfl

/-- The units in front of the removed ones are where they were. -/
theorem leftPlace_before {u i : Nat} (h : i < u) (hu : u ≤ place.units.length) :
    unitOffset blksize (leftPlace blksize place u count) i = unitOffset blksize place i := by
  have hne : u ≠ 0 := by omega
  unfold unitOffset leftPlace extent40Offset Item.extentBlocks
  rw [if_neg hne]
  show u64 (_ + u64 ((((List.take u place.units ++ _).take i).map _).sum * _)) = _
  rw [List.take_append_of_le_length (by rw [List.length_take]; omega), List.take_take,
    Nat.min_eq_left (Nat.le_of_lt h)]

/-- Where units are removed from the front, those left move to the front of the file range. -/
theorem leftPlace_front (i : Nat) :
    unitOffset blksize (leftPlace blksize place 0 count) i = unitOffset blksize place (i + count) ↔
      extent40Offset blksize place.units count = 0 := by
  have hsplit : Item.extentBlocks place.units (i + count) =
      Item.extentBlocks place.units count + Item.extentBlocks (place.units.drop count) i := by
    unfold Item.extentBlocks
    rw [Nat.add_comm i count, List.take_add, List.map_append, List.sum_append]
  have hleft : unitOffset blksize (leftPlace blksize place 0 count) i =
      u64 (place.key.offset + Item.extentBlocks (place.units.drop count) i * blksize) := by
    unfold unitOffset leftPlace extent40Offset
    rw [if_pos rfl]
    show u64 (u64 (place.key.offset + u64 (Item.extentBlocks ([] ++ _) 0 * blksize)) +
      u64 (Item.extentBlocks ([] ++ List.drop (0 + count) place.units) i * blksize)) = _
    rw [List.nil_append, Item.extentBlocks_zero, Nat.zero_add]
    unfold u64
    omega
  rw [hleft]
  unfold unitOffset extent40Offset
  rw [hsplit, Nat.add_mul]
  unfold u64
  omega

/-- **The routine reports and credits what it removes and leaves the other units where they were, if and
    only if** the call is as `RemoveOk` says. -/
theorem extent40RemoveUnits_iff (hrange : place.unit.getD 0 + count ≤ place.units.length) :
    RemovesWell called blksize place count c ↔ RemoveOk called blksize place count := by
  unfold RemovesWell
  cases hu : place.unit with
  | none =>
    rw [extent40RemoveUnits_hang hu]
    constructor
    · rintro ⟨_, _, hrun, -⟩
      cases hrun
    · intro h
      exact absurd hu h.unit
  | some u =>
    have hpos : place.unit.getD 0 = u := by rw [hu]; rfl
    rw [hpos] at hrange
    rw [extent40RemoveUnits_run hu]
    constructor
    · rintro ⟨place', c', hrun, -, hregions, hfree, hmap⟩
      simp only [Option.some.injEq, Prod.mk.injEq, Except.ok.injEq, and_true] at hrun
      obtain ⟨rfl, rfl⟩ := hrun
      refine ⟨by rw [hu]; exact Option.some_ne_none u, ?_, ?_, ?_⟩
      · rintro rfl
        rw [hpos]
        apply (calls_eq_iff _).mp
        exact ⟨List.append_cancel_left (hregions rfl), Nat.add_left_cancel hfree⟩
      · rintro rfl
        rw [hpos]
        have hfree' : c.free = c.free + _ := hfree
        exact (Nat.add_eq_left.mp hfree'.symm)
      · intro hzero
        obtain rfl : u = 0 := Option.some.inj (hu.symm.trans hzero)
        by_cases hall : place.units.length ≤ count
        · exact Or.inl hall
        · refine Or.inr ?_
          have hlen : 0 < (leftPlace blksize place 0 count).units.length := by
            show 0 < ([] ++ place.units.drop (0 + count)).length
            rw [List.nil_append, List.length_drop]
            omega
          have h0 := hmap (Or.inl rfl) 0 hlen
          rw [Option.getD_some, if_neg (Nat.lt_irrefl 0)] at h0
          exact (leftPlace_front 0).mp h0
    · intro hok
      refine ⟨_, _, rfl, rfl, ?_, ?_, ?_⟩
      · rintro rfl
        have hn := hok.narrow rfl
        rw [hpos] at hn
        exact congrArg _ ((calls_eq_iff _).mpr hn).1
      · cases called with
        | true =>
          have hn := hok.narrow rfl
          rw [hpos] at hn
          exact congrArg _ ((calls_eq_iff _).mpr hn).2
        | false =>
          have hs := hok.silent rfl
          rw [hpos] at hs
          rw [Option.getD_some, hs]
          rfl
      · intro hends i hi
        rw [Option.getD_some] at hends ⊢
        by_cases hbefore : i < u
        · rw [if_pos hbefore]
          exact leftPlace_before hbefore (by omega)
        · rw [if_neg hbefore]
          have hlen : i < (place.units.take u ++ place.units.drop (u + count)).length := hi
          rw [List.length_append, List.length_take, List.length_drop] at hlen
          have h0 : u = 0 := by omega
          subst h0
          rcases hok.key hu with hall | hnone
          · omega
          · exact (leftPlace_front i).mpr hnone

end Law

/-- The two units at the end of an item are removed, a hole and one with disk blocks. -/
theorem extent40RemoveUnits_tail :
    RemovesWell true 4096 ⟨⟨4, 0, 0, 0⟩, some 1, [⟨50, 4⟩, ⟨0, 2⟩, ⟨90, 3⟩]⟩ 2 ⟨[], 7, []⟩ :=
  (extent40RemoveUnits_iff (by decide)).mpr
    { unit := by decide
      narrow := by
        intro _ e he h0
        have hmem : e ∈ [⟨0, 2⟩, ⟨90, 3⟩] := he
        simp only [List.mem_cons, List.not_mem_nil, or_false] at hmem
        rcases hmem with rfl | rfl <;> exact ⟨by decide, by decide⟩
      silent := by decide
      key := by decide }

/-- The first of two units is removed: the other one, from block 4 of the file on, is from block 0 on
    then.  A unit at disk block 2^32 + 5 is reported as one at block 5. -/
theorem extent40RemoveUnits_front :
    (extent40RemoveUnits noteFree (some noteRegion) 4096
      ⟨⟨4, 0, 0, 0⟩, some 0, [⟨4294967301, 4⟩, ⟨90, 3⟩]⟩ 1).run ⟨[], 7, []⟩ =
        some (.ok (⟨⟨4, 0, 0, 0⟩, some 0, [⟨90, 3⟩]⟩, 16), ⟨[(5, 4)], 11, []⟩) ∧
      ¬ RemovesWell true 4096 ⟨⟨4, 0, 0, 0⟩, some 0, [⟨4294967301, 4⟩, ⟨90, 3⟩]⟩ 1 ⟨[], 7, []⟩ := by
  have hrun : (extent40RemoveUnits noteFree (some noteRegion) 4096
      ⟨⟨4, 0, 0, 0⟩, some 0, [⟨4294967301, 4⟩, ⟨90, 3⟩]⟩ 1).run ⟨[], 7, []⟩ =
        some (.ok (⟨⟨4, 0, 0, 0⟩, some 0, [⟨90, 3⟩]⟩, 16), ⟨[(5, 4)], 11, []⟩) := by decide
  refine ⟨hrun, ?_⟩
  rintro ⟨place', c', hrun', -, hregions, -⟩
  rw [if_pos rfl, hrun] at hrun'
  simp only [Option.some.injEq, Prod.mk.injEq, Except.ok.injEq, and_true] at hrun'
  obtain ⟨rfl, rfl⟩ := hrun'
  exact absurd (hregions rfl) (by decide)

end Reiser4
