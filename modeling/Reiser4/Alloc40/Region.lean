/-
  The regions of the block allocator (`alloc40_layout_bad`, `alloc40_region`).

  A region is the set of blocks one bitmap block describes.  `alloc40_layout_bad` looks for regions
  that cannot be trusted: the checksum of the bitmap block is wrong, or the bitmap block is marked
  free.  It hands its callback the bitmap block, with a width of 1.
-/
import Reiser4.Alloc40.RoundTrip

namespace Reiser4.Alloc40

open Reiser4.Lib

section Regions

variable {σ : Type} (aal : AalBits) (adler32 : List UInt8 → UInt32)

/-- `cb_check_layout`; the allocator is only read. -/
def cbCheckLayout (a : Alloc) (func : Nat → Nat → Run σ Errno Unit) (start : Nat) :
    Run σ Errno Unit :=
  match (cbValidBlock adler32 start).run a with
  | none => Run.hang
  | some (.ok (), _) => do
    let occupied ← Run.lift (alloc40Occupied aal a start 1)
    if occupied then pure () else func start 1
  | some (.error .estruct, _) => func start 1
  | some (.error e, _) => Run.fail e

/-- `alloc40_layout_bad`. -/
def alloc40LayoutBad (fuel : Nat) (a : Alloc) (func : Nat → Nat → Run σ Errno Unit) :
    Run σ Errno Unit :=
  alloc40Layout fuel a.blksize a.bitmap.total (cbCheckLayout aal adler32 a func)

/-- `alloc40_region`. -/
def alloc40Region (a : Alloc) (blk : Nat) (func : Nat → Nat → Run σ Errno Unit) :
    Run σ Errno Unit :=
  let size := blocksPerBitmap a.blksize
  let start := blk / size * size
  func start (if u64 (start + size) > a.bitmap.total then a.bitmap.total - start else size)

/-- `alloc40_extract`. -/
def alloc40Extract (a : Alloc) (bitmap : Bitmap) : Bitmap :=
  { bitmap with
    map := bitmap.map.copy 0 a.bitmap.map 0 bitmap.size
    marked := a.bitmap.marked }

/-- The bitmap block cannot be trusted. -/
def Broken (a : Alloc) (start : Nat) : Prop :=
  a.crc (a.piece start) ≠ a.adlerOf adler32 start ∨ a.bitmap.has aal start = false

instance (a : Alloc) (start : Nat) : Decidable (Broken aal adler32 a start) :=
  inferInstanceAs (Decidable (_ ∨ _))

variable {aal adler32}

/-- `cb_check_layout` calls its function for a broken bitmap block and for no other. -/
theorem checkLayout_cases {a : Alloc} {func : Nat → Nat → Run σ Errno Unit} {start : Nat}
    {s s' : σ} {r : Except Errno Unit} (hs : a.bitmap.Sized)
    (hrun : (cbCheckLayout aal adler32 a func start).run s = some (r, s')) :
    (Broken aal adler32 a start ∧ (func start 1).run s = some (r, s')) ∨
      (¬Broken aal adler32 a start ∧ r = .ok () ∧ s' = s) := by
  have hvalid : ∀ r s', (cbValidBlock adler32 start).run a = some (r, s') →
      (r = .error .estruct ∧ a.crc (a.piece start) ≠ a.adlerOf adler32 start) ∨
        (r = .ok () ∧ a.crc (a.piece start) = a.adlerOf adler32 start) := by
    intro r s' h
    unfold cbValidBlock at h
    rw [Run.get_bind] at h
    split at h
    · split at h
      · next hne =>
        cases h
        exact Or.inl ⟨rfl, hne⟩
      · next heq =>
        cases h
        exact Or.inr ⟨rfl, not_not.mp heq⟩
    · cases h
  unfold cbCheckLayout at hrun
  cases hv : (cbValidBlock adler32 start).run a with
  | none =>
    rw [hv] at hrun
    cases hrun
  | some p =>
    obtain ⟨r1, s1⟩ := p
    rw [hv] at hrun
    rcases hvalid r1 s1 hv with ⟨rfl, hne⟩ | ⟨rfl, heq⟩
    · exact Or.inl ⟨Or.inl hne, hrun⟩
    · have hocc : alloc40Occupied aal a start 1 = some (a.bitmap.has aal start) :=
        testRegion_marked_one hs start
      dsimp only at hrun
      rw [hocc, Run.bind_of_ok (Run.lift_some _ _)] at hrun
      cases hbit : a.bitmap.has aal start with
      | true =>
        rw [hbit] at hrun
        cases hrun
        refine Or.inr ⟨?_, rfl, rfl⟩
        rintro (h | h)
        · exact h heq
        · rw [hbit] at h
          cases h
      | false =>
        rw [hbit] at hrun
        exact Or.inl ⟨Or.inr hbit, hrun⟩

/-- The blocks of the region of a block. -/
theorem region_mem {a : Alloc} {blk j : Nat} (h : BlksizeOk a.blksize)
    (htotal : a.bitmap.total < 34359738368) (hblk : blk < a.bitmap.total) :
    let size := blocksPerBitmap a.blksize
    let start := blk / size * size
    let count := if u64 (start + size) > a.bitmap.total then a.bitmap.total - start else size
    start + count ≤ a.bitmap.total ∧
      (start ≤ j ∧ j < start + count ↔ j / size = blk / size ∧ j < a.bitmap.total) := by
  intro size start count
  have hpos : 0 < size := blocksPerBitmap_pos h
  have hle : start ≤ blk := Nat.div_mul_le_self blk size
  have hsize : size < 524288 := by
    have := h.field
    show (a.blksize - crcSize) * 8 < 524288
    omega
  have hwrap : u64 (start + size) = start + size := Nat.mod_eq_of_lt (by omega)
  have hdiv : j / size = blk / size ↔ start ≤ j ∧ j < start + size := by
    rw [Nat.div_eq_iff hpos]
    show start ≤ j ∧ j ≤ start + size - 1 ↔ _
    omega
  have hcount : count = if start + size > a.bitmap.total then a.bitmap.total - start else size := by
    show (if u64 (start + size) > _ then _ else _) = _
    rw [hwrap]
  rw [hdiv, hcount]
  split
  · constructor
    · omega
    · omega
  · constructor
    · omega
    · omega

end Regions

end Reiser4.Alloc40
