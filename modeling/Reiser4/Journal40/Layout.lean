/-
  The layout bitmaps of the journal's check and of pack.

  Both make bitmaps for the blocks below the end of the area (`reiser4_bitmap_create`), and test and mark blocks of the
  area in them.  The byte count of a map is a 32-bit field, so a very long area has blocks that are not in its map.

    1. `Layout`   a bitmap for the area, and the blocks that are marked in it;
    2. `Layout.test`, `Layout.mark`, `Layout.clear`   what the routines do with it;
    3. `Area.maps_of_len`, `Area.last_unmapped`   when the area has a block that is not in the map.
-/
import Reiser4.Bitmap

namespace Reiser4.Journal40

open Reiser4.Lib

/-- `journal->area`: the first block of the format, and its end. -/
structure Area where
  start : Nat
  len : Nat
  deriving DecidableEq, Repr

/-- The bytes of a map for the area. -/
def Area.mapSize (area : Area) : Nat := (reiser4BitmapCreate area.len).size

/-- Block `blk` is in the map. -/
def Area.Maps (area : Area) (blk : Nat) : Prop := blk / 8 < area.mapSize

/-- `aal_memset` of the map to zero. -/
def clearMap (b : Bitmap) : Bitmap := { b with map := fun i => if i < b.size then 0 else b.map i }

/-- A bitmap for the area with the blocks that are marked. -/
structure Layout (aal : AalBits) (area : Area) (marked : Nat → Prop) (b : Bitmap) : Prop where
  total : b.total = area.len
  size : b.size = area.mapSize
  has : ∀ i, b.has aal i = true ↔ marked i
  inside : ∀ i, marked i → area.Maps i

variable {aal : AalBits} {area : Area} {marked : Nat → Prop} {b : Bitmap}

theorem Layout.created : Layout aal area (fun _ => False) (reiser4BitmapCreate area.len) where
  total := rfl
  size := rfl
  has := by
    intro i
    have hzero : aal.test (reiser4BitmapCreate area.len).map i = false := aal.toBitOrder.test_zero i
    unfold Bitmap.has
    rw [hzero, Bool.and_false]
    exact ⟨nofun, nofun⟩
  inside := fun _ h => h.elim

theorem Layout.congr {marked' : Nat → Prop} (h : Layout aal area marked b) (heq : ∀ i, marked i ↔ marked' i) :
    Layout aal area marked' b where
  total := h.total
  size := h.size
  has := fun i => (h.has i).trans (heq i)
  inside := fun i hi => h.inside i ((heq i).mpr hi)

/-- A test of a block of the area. -/
theorem Layout.test (h : Layout aal area marked b) {blk : Nat} (hlt : blk < area.len) (hmap : area.Maps blk) :
    reiser4BitmapTest aal b blk = some (b.has aal blk) := by
  have htotal : blk < b.total := by rwa [h.total]
  have hsize : blk / 8 < b.size := by rwa [h.size]
  unfold reiser4BitmapTest
  rw [if_neg (Nat.not_le.mpr htotal), if_pos hsize, Bitmap.has_of_lt htotal]

/-- It leaves the map where the block is not in it. -/
theorem Layout.test_none (h : Layout aal area marked b) {blk : Nat} (hlt : blk < area.len) (hmap : ¬area.Maps blk) :
    reiser4BitmapTest aal b blk = none := by
  have htotal : blk < b.total := by rwa [h.total]
  have hsize : ¬blk / 8 < b.size := by rwa [h.size]
  unfold reiser4BitmapTest
  rw [if_neg (Nat.not_le.mpr htotal), if_neg hsize]

/-- One more block is marked. -/
theorem Layout.mark (h : Layout aal area marked b) {blk : Nat} (hlt : blk < area.len) (hmap : area.Maps blk) :
    ∃ b', reiser4BitmapMark aal b blk = some b' ∧ Layout aal area (fun i => i = blk ∨ marked i) b' := by
  have htotal : blk < b.total := by rwa [h.total]
  have hsize : blk / 8 < b.size := by rwa [h.size]
  have hinside : ∀ i, i = blk ∨ marked i → area.Maps i := by
    rintro i (rfl | hi)
    · exact hmap
    · exact h.inside i hi
  unfold reiser4BitmapMark
  rw [if_neg (Nat.not_le.mpr htotal), if_pos hsize]
  by_cases hset : aal.test b.map blk = true
  · rw [if_pos hset]
    refine ⟨b, rfl, h.total, h.size, fun i => ?_, hinside⟩
    rw [h.has i]
    refine ⟨Or.inr, ?_⟩
    rintro (rfl | hi)
    · rw [← h.has i, Bitmap.has_of_lt htotal]
      exact hset
    · exact hi
  · rw [if_neg hset]
    refine ⟨_, rfl, h.total, h.size, fun i => ?_, hinside⟩
    rw [← h.has i]
    unfold Bitmap.has
    dsimp only
    rw [aal.test_setBit]
    by_cases hi : i = blk
    · subst hi
      simp [htotal]
    · simp [hi]

/-- The map is zeroed. -/
theorem Layout.clear (h : Layout aal area marked b) : Layout aal area (fun _ => False) (clearMap b) where
  total := h.total
  size := h.size
  has := by
    intro i
    refine ⟨fun hi => ?_, nofun⟩
    unfold Bitmap.has clearMap BitOrder.test at hi
    dsimp only at hi
    by_cases hin : i / 8 < b.size
    · rw [if_pos hin] at hi
      simp at hi
    · -- A block that is not in the map is never marked.
      rw [if_neg hin] at hi
      have hmarked := h.inside i ((h.has i).mp hi)
      rw [Area.Maps, ← h.size] at hmarked
      exact hin hmarked
  inside := fun _ hf => hf.elim

/-- In an area of fewer than `2 ^ 35 - 7` blocks every block is in the map. -/
theorem Area.mapSize_of_len (h : (area.len + 7) / 8 < two32) : area.mapSize = (area.len + 7) / 8 := by
  have hlt : area.len + 7 < 18446744073709551616 := by
    unfold two32 at h
    omega
  show u32 (u64 (area.len + 7) / 8) = _
  rw [show u64 (area.len + 7) = area.len + 7 from Nat.mod_eq_of_lt hlt, u32_of_lt h]

theorem Area.maps_of_len (h : (area.len + 7) / 8 < two32) {blk : Nat} (hlt : blk < area.len) : area.Maps blk := by
  rw [Area.Maps, Area.mapSize_of_len h]
  omega

/-- In a longer one the last block is not. -/
theorem Area.last_unmapped (h : two32 ≤ (area.len + 7) / 8) : ¬area.Maps (area.len - 1) := by
  have hlt : area.mapSize < two32 := u32_lt _
  unfold Area.Maps
  omega

end Reiser4.Journal40
