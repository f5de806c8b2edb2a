/-
  The block allocator (`alloc40_create`, `alloc40_open`, `alloc40_sync`, `alloc40_valid` and the
  operations on the bitmap).

  On the device the bitmap is cut into pieces of `blksize - 4` bytes, one for each bitmap block, each
  behind its checksum; the last piece may be shorter and is filled up with 0xff.  The callbacks for
  fetching, writing and validating a bitmap block compute the piece each for themselves, from the
  block number.  The checksum function is a parameter.

  The checksums the allocator keeps in memory are indexed by piece and not bounded here.
-/
import Reiser4.Alloc40.Layout

namespace Reiser4.Alloc40

open Reiser4.Lib

/-- `alloc40_t`. -/
structure Alloc where
  state : Nat
  blksize : Nat
  device : Device
  bitmap : Bitmap
  /-- The checksum of each piece of the bitmap, as loaded. -/
  crc : Nat → Nat

/-- `state |= (1 << ENTITY_DIRTY)`. -/
def Alloc.mkdirty (a : Alloc) : Alloc := { a with state := a.state ||| entityDirty }

/-- `state &= ~(1 << ENTITY_DIRTY)`. -/
def Alloc.mkclean (a : Alloc) : Alloc := { a with state := a.state &&& (two32 - 1 - entityDirty) }

/-- `alloc40_create`. -/
def alloc40Create (device : Device) (blksize blocks : Nat) : Alloc where
  state := entityDirty
  blksize := blksize
  device := device
  bitmap := reiser4BitmapCreate blocks
  crc := fun _ => 0

/-! ## The pieces of the bitmap -/

/-- The bytes of the bitmap in one bitmap block. -/
def Alloc.mapsize (a : Alloc) : Nat := a.blksize - crcSize

/-- The piece a bitmap block holds. -/
def Alloc.piece (a : Alloc) (start : Nat) : Nat := start / a.mapsize / 8

/-- Where the piece of a bitmap block begins in the map. -/
def Alloc.current (a : Alloc) (start : Nat) : Nat := a.mapsize * a.piece start

/-- The length of that piece. -/
def Alloc.chunk (a : Alloc) (start : Nat) : Nat :=
  if a.bitmap.size - a.current start > a.mapsize then a.mapsize
  else a.bitmap.size - a.current start

/-- The checksum of a piece; a short one is filled up with 0xff. -/
def Alloc.adlerOf (adler32 : List UInt8 → UInt32) (a : Alloc) (start : Nat) : Nat :=
  if a.chunk start < a.mapsize then
    let fake := (Bytes.zero.fill 0 a.mapsize 0xff).copy 0 a.bitmap.map (a.current start)
      (a.chunk start)
    (adler32 (fake.slice 0 a.mapsize)).toNat
  else (adler32 (a.bitmap.map.slice (a.current start) (a.chunk start))).toNat

section Callbacks

variable (adler32 : List UInt8 → UInt32)

/-- `cb_fetch_bitmap`.  A piece that begins behind the map is undefined. -/
def cbFetchBitmap (start : Nat) : Run Alloc Errno Unit := do
  let a ← Run.get
  match aalBlockLoad a.device start with
  | none => Run.fail .eio
  | some block =>
    if a.current start ≤ a.bitmap.size then
      Run.modify fun a => { a with
        bitmap := { a.bitmap with
          map := a.bitmap.map.copy (a.current start) block.data crcSize (a.chunk start) }
        crc := fun k => if k = a.piece start then block.data.getLe 4 0 else a.crc k }
    else Run.hang

/-- The block `cb_sync_bitmap` writes. -/
def syncBlock (a : Alloc) (start : Nat) : Block where
  nr := start
  data := ((Bytes.zero.fill 0 a.blksize 0xff).copy crcSize a.bitmap.map (a.current start)
    (a.chunk start)).setLe 4 0 (a.adlerOf adler32 start)

/-- `cb_sync_bitmap`. -/
def cbSyncBitmap (start : Nat) : Run Alloc Errno Unit := do
  let a ← Run.get
  if a.current start ≤ a.bitmap.size then
    match aalBlockWrite a.device (syncBlock adler32 a start) with
    | none => Run.fail .eio
    | some device => Run.modify fun a => { a with device }
  else Run.hang

/-- `cb_valid_block`; the warning of `inval_func` is left out. -/
def cbValidBlock (start : Nat) : Run Alloc Errno Unit := do
  let a ← Run.get
  if a.current start ≤ a.bitmap.size then
    if a.crc (a.piece start) ≠ a.adlerOf adler32 start then Run.fail .estruct
    else pure ()
  else Run.hang

/-- `alloc40_open`; an error stands for the NULL it returns. -/
def alloc40Open (aal : AalBits) (fuel : Nat) (device : Device) (blksize blocks : Nat) :
    Option (Except Errno Alloc) :=
  let a : Alloc := { state := 0, blksize, device, bitmap := reiser4BitmapCreate blocks,
                       crc := fun _ => 0 }
  match (alloc40Layout fuel blksize blocks cbFetchBitmap).run a with
  | none => none
  | some (.error e, _) => some (.error e)
  | some (.ok (), a) =>
    (reiser4BitmapCalcMarked aal a.bitmap).map fun bitmap => .ok { a with bitmap }

/-- `alloc40_sync`. -/
def alloc40Sync (fuel : Nat) : Run Alloc Errno Unit := do
  let a ← Run.get
  alloc40Layout fuel a.blksize a.bitmap.total (cbSyncBitmap adler32)
  Run.modify Alloc.mkclean

/-- `alloc40_valid`. -/
def alloc40Valid (fuel : Nat) : Run Alloc Errno Unit := do
  let a ← Run.get
  alloc40Layout fuel a.blksize a.bitmap.total (cbValidBlock adler32)

end Callbacks

/-! ## The operations -/

section Operations

variable (aal : AalBits)

/-- `alloc40_occupy`. -/
def alloc40Occupy (a : Alloc) (start count : Nat) : Option Alloc :=
  (reiser4BitmapMarkRegion aal a.bitmap start count).map fun bitmap => { a with bitmap }.mkdirty

/-- `alloc40_release`. -/
def alloc40Release (a : Alloc) (start count : Nat) : Option Alloc :=
  (reiser4BitmapClearRegion aal a.bitmap start count).map fun bitmap => { a with bitmap }.mkdirty

/-- `alloc40_allocate`: the start of the region found, and its length. -/
def alloc40Allocate (a : Alloc) (start count : Nat) : Option (Nat × Nat × Alloc) :=
  let (start, found) := aal.findZeroBits a.bitmap.map a.bitmap.total start count
  if 0 < found then
    (reiser4BitmapMarkRegion aal a.bitmap start found).map
      fun bitmap => (start, found, { a with bitmap }.mkdirty)
  else some (start, found, a)

/-- `alloc40_assign`; the bitmaps have the same total and size. -/
def alloc40Assign (a : Alloc) (bitmap : Bitmap) : Alloc :=
  { a with
    bitmap := { a.bitmap with
      map := a.bitmap.map.copy 0 bitmap.map 0 bitmap.size
      marked := bitmap.marked } }.mkdirty

/-- `alloc40_occupied`. -/
def alloc40Occupied (a : Alloc) (start count : Nat) : Option Bool :=
  reiser4BitmapTestRegion aal a.bitmap start count true

end Operations

/-- `alloc40_used` and `alloc40_free`. -/
def alloc40Used (a : Alloc) : Nat := a.bitmap.marked
def alloc40Free (a : Alloc) : Nat := reiser4BitmapCleared a.bitmap

/-- A change of the allocator's bitmap; an assigned bitmap is a well-formed one of the same length. -/
inductive Op (aal : AalBits) (total : Nat)
  | occupy (start count : Nat)
  | release (start count : Nat)
  | allocate (start count : Nat)
  | assign (bitmap : Bitmap) (wf : bitmap.WF aal) (htotal : bitmap.total = total)

/-- One change. -/
def Op.apply {aal : AalBits} {total : Nat} : Op aal total → Alloc → Option Alloc
  | .occupy start count, a => alloc40Occupy aal a start count
  | .release start count, a => alloc40Release aal a start count
  | .allocate start count, a => (alloc40Allocate aal a start count).map fun r => r.2.2
  | .assign bitmap _ _, a => some (alloc40Assign a bitmap)

/-- A sequence of changes. -/
def applyAll {aal : AalBits} {total : Nat} : List (Op aal total) → Alloc → Option Alloc
  | [], a => some a
  | op :: ops, a => (op.apply a).bind (applyAll ops)

/-! ## The allocator keeps its bitmap well formed -/

/-- An allocator for `total` blocks. -/
structure Alloc.WF (aal : AalBits) (blksize total : Nat) (device : Device) (a : Alloc) :
    Prop where
  blksize : a.blksize = blksize
  total : a.bitmap.total = total
  device : a.device = device
  bitmap : a.bitmap.WF aal

@[simp] theorem mkdirty_bitmap (a : Alloc) : a.mkdirty.bitmap = a.bitmap := rfl
@[simp] theorem mkdirty_blksize (a : Alloc) : a.mkdirty.blksize = a.blksize := rfl
@[simp] theorem mkdirty_device (a : Alloc) : a.mkdirty.device = a.device := rfl

theorem Alloc.WF.setBitmap {aal : AalBits} {blksize total : Nat} {device : Device} {a : Alloc}
    (h : a.WF aal blksize total device) {b : Bitmap} (hb : b.WF aal) (ht : b.total = total) :
    ({ a with bitmap := b }.mkdirty).WF aal blksize total device :=
  ⟨h.blksize, ht, h.device, hb⟩

/-- An assigned bitmap is that of the allocator. -/
theorem assign_has {aal : AalBits} {a : Alloc} {bitmap : Bitmap} (h : bitmap.Sized)
    (ht : a.bitmap.total = bitmap.total) (i : Nat) :
    (alloc40Assign a bitmap).bitmap.has aal i = bitmap.has aal i := by
  show (decide (i < a.bitmap.total) && aal.test (a.bitmap.map.copy 0 bitmap.map 0 bitmap.size) i) = _
  rw [ht]
  by_cases hi : i < bitmap.total
  · have hroom : i / 8 < bitmap.size := h.room hi
    have hbyte := Bytes.copy_in a.bitmap.map 0 bitmap.map 0 bitmap.size (i / 8) (by omega) (by omega)
    simp only [Bitmap.has, BitOrder.test, hbyte, Nat.sub_zero, Nat.add_zero]
  · simp [Bitmap.has, hi]

/-- Every change keeps the allocator well formed. -/
theorem Op.apply_wf {aal : AalBits} {blksize total : Nat} {device : Device} (op : Op aal total)
    {a a' : Alloc} (h : a.WF aal blksize total device) (hop : op.apply a = some a') :
    a'.WF aal blksize total device := by
  cases op with
  | occupy start count =>
    obtain ⟨b, hb, rfl⟩ := Option.map_eq_some_iff.mp hop
    obtain ⟨hwf, ht, -⟩ := markRegion_spec h.bitmap hb
    exact h.setBitmap hwf (ht.trans h.total)
  | release start count =>
    obtain ⟨b, hb, rfl⟩ := Option.map_eq_some_iff.mp hop
    obtain ⟨hwf, ht, -⟩ := clearRegion_spec h.bitmap hb
    exact h.setBitmap hwf (ht.trans h.total)
  | allocate start count =>
    obtain ⟨r, hr, rfl⟩ := Option.map_eq_some_iff.mp hop
    unfold alloc40Allocate at hr
    dsimp only at hr
    split at hr
    · obtain ⟨b, hb, rfl⟩ := Option.map_eq_some_iff.mp hr
      obtain ⟨hwf, ht, -⟩ := markRegion_spec h.bitmap hb
      exact h.setBitmap hwf (ht.trans h.total)
    · cases hr
      exact h
  | assign bitmap wf htotal =>
    cases hop
    have ht : a.bitmap.total = bitmap.total := h.total.trans htotal.symm
    have hwf : (alloc40Assign a bitmap).bitmap.WF aal := by
      refine ⟨h.bitmap.sized, ?_⟩
      show bitmap.marked = _
      rw [wf.marked]
      unfold Bitmap.count
      rw [funext (assign_has wf.sized ht), show (alloc40Assign a bitmap).bitmap.total = _ from ht]
    exact ⟨h.blksize, h.total, h.device, hwf⟩

/-- Every sequence of changes does. -/
theorem applyAll_wf {aal : AalBits} {blksize total : Nat} {device : Device} :
    ∀ (ops : List (Op aal total)) {a a' : Alloc}, a.WF aal blksize total device →
      applyAll ops a = some a' → a'.WF aal blksize total device
  | [], a, a', h, hops => by
    cases hops
    exact h
  | op :: ops, a, a', h, hops => by
    obtain ⟨a1, h1, h2⟩ := Option.bind_eq_some_iff.mp hops
    exact applyAll_wf ops (op.apply_wf h h1) h2

/-- Blocks that were free are taken. -/
theorem alloc40Allocate_spec {aal : AalBits} {a a' : Alloc} {hint count start found : Nat}
    (hf : aal.FindsZero) (h : a.bitmap.WF aal)
    (hrun : alloc40Allocate aal a hint count = some (start, found, a')) :
    found ≤ count ∧ start + found ≤ a.bitmap.total ∧ a'.bitmap.WF aal ∧
      a'.bitmap.total = a.bitmap.total ∧
      (∀ i, start ≤ i → i < start + found → a.bitmap.has aal i = false) ∧
      ∀ i, a'.bitmap.has aal i =
        (decide (start ≤ i ∧ i < start + found) || a.bitmap.has aal i) := by
  obtain ⟨hcount, htotal, hzero⟩ := hf a.bitmap.map a.bitmap.total hint count
  unfold alloc40Allocate at hrun
  generalize aal.findZeroBits a.bitmap.map a.bitmap.total hint count = r at hcount htotal hzero hrun
  obtain ⟨s, n⟩ := r
  dsimp only at hcount htotal hzero hrun
  split at hrun
  · obtain ⟨b, hb, he⟩ := Option.map_eq_some_iff.mp hrun
    cases he
    obtain ⟨hwf, hsame, hhas⟩ := markRegion_spec h hb
    refine ⟨hcount, htotal, hwf, hsame, fun i h1 h2 => ?_, fun i => ?_⟩
    · rw [Bitmap.has_of_lt (by omega)]
      exact hzero i h1 h2
    · show b.has aal i = _
      rw [hhas i, Bitmap.regionHas, decide_eq_true htotal, Bool.true_and]
  · cases hrun
    refine ⟨hcount, htotal, h, rfl, fun i h1 h2 => by omega, fun i => ?_⟩
    have hout : ¬(start ≤ i ∧ i < start + found) := by omega
    rw [decide_eq_false hout, Bool.false_or]

/-- One block that was free is taken. -/
theorem alloc40Allocate_one {aal : AalBits} {a a' : Alloc} {blk found : Nat} (hf : aal.FindsZero)
    (h : a.bitmap.WF aal) (hrun : alloc40Allocate aal a 0 1 = some (blk, found, a'))
    (hfound : 0 < found) : a'.bitmap.WF aal ∧ a.bitmap.has aal blk = false ∧
      ∀ i, a'.bitmap.has aal i = (decide (i = blk) || a.bitmap.has aal i) := by
  obtain ⟨hcount, -, hwf, -, hfree, hhas⟩ := alloc40Allocate_spec hf h hrun
  obtain rfl : found = 1 := by omega
  refine ⟨hwf, hfree blk (le_refl _) (Nat.lt_succ_self _), fun i => ?_⟩
  rw [hhas i]
  congr 2
  rw [eq_iff_iff]
  omega

/-- A new bitmap is well formed when its byte count fits the field. -/
theorem bitmapCreate_wf (aal : AalBits) {total : Nat} (h : (total + 7) / 8 < two32) :
    (reiser4BitmapCreate total).WF aal := by
  have hsize : (reiser4BitmapCreate total).size = (total + 7) / 8 := by
    unfold reiser4BitmapCreate u32 u64
    unfold two32 at h ⊢
    rw [Nat.mod_eq_of_lt (a := total + 7) (by omega), Nat.mod_eq_of_lt h]
  refine ⟨⟨hsize, by rw [hsize]; exact h⟩, ?_⟩
  show 0 = (List.range total).countP _
  symm
  apply List.countP_eq_zero.mpr
  intro i hi
  simp [Bitmap.has, reiser4BitmapCreate, BitOrder.test_zero]

end Reiser4.Alloc40
