/-
  Comparing two block bitmaps (`librepair/repair.c`).

  The whole bytes are compared first and their bits recounted where the bytes differ; the bits of the last
  byte, which the bitmap may use in part, are left to a second loop.  That loop starts at the bit whose number
  is the byte count of the map, not at the first bit behind the whole bytes.

    1. `diffBits_spec`, `compareBytes_spec`   what the two loops count;
    2. `bitmapCompare_spec`   the answer in terms of the bitmaps;
    3. `bitmapCompare_iff`    the answer is the number of differing blocks exactly when the second loop, where it
                              is, meets as many differences as there are in the last byte.
-/
import Reiser4.Bitmap

namespace Reiser4

open Reiser4.Lib

section Program

variable (aal : AalBits) (b1 b2 : Bitmap)

/-- The bit loops of `repair_bitmap_compare`: `n` bits from `i` on. -/
def diffBits : Nat → Nat → Option Nat
  | 0, _ => some 0
  | n + 1, i => do
    let t1 ← reiser4BitmapTest aal b1 i
    let t2 ← reiser4BitmapTest aal b2 i
    let diff ← diffBits n (i + 1)
    pure (diff + if t1 ≠ t2 then 1 else 0)

/-- The byte loop of `repair_bitmap_compare`: `n` bytes from `j` on. -/
def compareBytes : Nat → Nat → Option Nat
  | 0, _ => some 0
  | n + 1, j =>
    (if b1.map j = b2.map j then some 0 else diffBits aal b1 b2 8 (j * 8)).bind fun diff =>
      (compareBytes n (j + 1)).map (diff + ·)

/-- `repair_bitmap_compare`; the messages it may print are left out. -/
def repairBitmapCompare : Option Nat :=
  let bytes := b1.total / 8
  -- `aal_memcmp` reads this many bytes of both maps
  if bytes ≤ b1.size ∧ bytes ≤ b2.size then
    (if b1.map.slice 0 bytes = b2.map.slice 0 bytes then some 0 else compareBytes aal b1 b2 bytes 0).bind fun diff =>
      (diffBits aal b1 b2 (b1.total % 8) b1.size).map (diff + ·)
  else none

end Program

section Specs

variable {aal : AalBits} {b1 b2 : Bitmap}

/-- The blocks `start .. start + n` on which the two differ. -/
def diffCount (aal : AalBits) (b1 b2 : Bitmap) (start n : Nat) : Nat :=
  (List.range' start n).countP fun i => b1.has aal i != b2.has aal i

theorem diffCount_append (start m n : Nat) :
    diffCount aal b1 b2 start (m + n) = diffCount aal b1 b2 start m + diffCount aal b1 b2 (start + m) n := by
  unfold diffCount
  rw [← List.range'_append_1, List.countP_append]

theorem diffBits_spec (h1 : b1.Sized) (h2 : b2.Sized) :
    ∀ n i, diffBits aal b1 b2 n i = some (diffCount aal b1 b2 i n)
  | 0, _ => rfl
  | n + 1, i => by
    rw [diffBits, test_spec h1, test_spec h2, diffBits_spec h1 h2 n (i + 1)]
    show some (_ + _) = some (List.countP _ (List.range' i (n + 1)))
    rw [List.range'_succ, List.countP_cons]
    congr 2
    cases b1.has aal i <;> cases b2.has aal i <;> rfl

/-- Equal bytes have equal bits. -/
theorem diffCount_eq_zero {start n : Nat} (htotal : b1.total = b2.total)
    (hbytes : ∀ i, start ≤ i → i < start + n → b1.map (i / 8) = b2.map (i / 8)) :
    diffCount aal b1 b2 start n = 0 := by
  refine List.countP_eq_zero.mpr fun i hi => ?_
  obtain ⟨hle, hlt⟩ := List.mem_range'_1.mp hi
  have hsame : b1.has aal i = b2.has aal i := by
    unfold Bitmap.has BitOrder.test
    rw [htotal, hbytes i hle hlt]
  rw [hsame, bne_self_eq_false]
  exact Bool.false_ne_true

theorem compareBytes_spec (h1 : b1.Sized) (h2 : b2.Sized) (htotal : b1.total = b2.total) :
    ∀ n j, compareBytes aal b1 b2 n j = some (diffCount aal b1 b2 (j * 8) (n * 8))
  | 0, j => by
    rw [Nat.zero_mul]
    rfl
  | n + 1, j => by
    have hbyte : (if b1.map j = b2.map j then some 0 else diffBits aal b1 b2 8 (j * 8)) =
        some (diffCount aal b1 b2 (j * 8) 8) := by
      by_cases heq : b1.map j = b2.map j
      · rw [if_pos heq, diffCount_eq_zero htotal]
        intro i hle hlt
        rw [show i / 8 = j by omega]
        exact heq
      · rw [if_neg heq]
        exact diffBits_spec h1 h2 8 (j * 8)
    rw [compareBytes, hbyte, compareBytes_spec h1 h2 htotal n (j + 1), Nat.succ_mul n 8, Nat.add_comm (n * 8) 8,
      diffCount_append, Nat.succ_mul j 8]
    rfl

/-- The answer: the differences of the whole bytes, and those the second loop meets. -/
theorem bitmapCompare_spec (h1 : b1.Sized) (h2 : b2.Sized) (htotal : b1.total = b2.total) :
    repairBitmapCompare aal b1 b2 = some (diffCount aal b1 b2 0 (b1.total / 8 * 8) +
      diffCount aal b1 b2 b1.size (b1.total % 8)) := by
  have hs1 := h1.1
  have hs2 := h2.1
  have hwhole : (if b1.map.slice 0 (b1.total / 8) = b2.map.slice 0 (b1.total / 8) then some 0
      else compareBytes aal b1 b2 (b1.total / 8) 0) = some (diffCount aal b1 b2 0 (b1.total / 8 * 8)) := by
    by_cases heq : b1.map.slice 0 (b1.total / 8) = b2.map.slice 0 (b1.total / 8)
    · rw [if_pos heq, diffCount_eq_zero htotal]
      intro i _ hlt
      have hi : i / 8 < b1.total / 8 := by omega
      have hget := congrArg (fun s => s[i / 8]?) heq
      rw [Bytes.slice_getElem? _ _ _ _ hi, Bytes.slice_getElem? _ _ _ _ hi, Nat.zero_add] at hget
      exact Option.some.inj hget
    · rw [if_neg heq, compareBytes_spec h1 h2 htotal, Nat.zero_mul]
  unfold repairBitmapCompare
  rw [if_pos (by omega), hwhole, diffBits_spec h1 h2]
  rfl

/-- The byte count that the bitmap routines give a map of this length. -/
def Bitmap.Shaped (b : Bitmap) : Prop := b.size = (reiser4BitmapCreate b.total).size

theorem Bitmap.Shaped.sized_iff {b : Bitmap} (h : b.Shaped) : b.Sized ↔ b.total + 7 < 34359738368 := by
  have hsize : b.size = u32 (u64 (b.total + 7) / 8) := h
  unfold Bitmap.Sized
  rw [hsize]
  unfold u32 u64 two32
  omega

/-- The map of a longer bitmap has no room for its whole bytes. -/
theorem bitmapCompare_none (hshape : b1.Shaped) (h : 34359738368 ≤ b1.total + 7) :
    repairBitmapCompare aal b1 b2 = none := by
  have hsize : b1.size = u32 (u64 (b1.total + 7) / 8) := hshape
  unfold repairBitmapCompare
  refine if_neg fun hread => ?_
  obtain ⟨hread1, -⟩ := hread
  rw [hsize] at hread1
  unfold u32 u64 two32 at hread1
  omega

/-- **Comparing bitmaps**: for two bitmaps of one length the answer is the number of blocks on which they
    differ exactly when the map has room for its bits, and as many of the `total % 8` bits from bit `size` on
    differ as of the last `total % 8` bits. -/
theorem bitmapCompare_iff (aal : AalBits) (b1 b2 : Bitmap) (hshape1 : b1.Shaped) (hshape2 : b2.Shaped)
    (htotal : b1.total = b2.total) :
    repairBitmapCompare aal b1 b2 = some (diffCount aal b1 b2 0 b1.total) ↔
      b1.total + 7 < 34359738368 ∧
        diffCount aal b1 b2 b1.size (b1.total % 8) = diffCount aal b1 b2 (b1.total / 8 * 8) (b1.total % 8) := by
  by_cases hroom : b1.total + 7 < 34359738368
  · have h1 : b1.Sized := hshape1.sized_iff.mpr hroom
    have h2 : b2.Sized := hshape2.sized_iff.mpr (htotal ▸ hroom)
    have hsplit : diffCount aal b1 b2 0 b1.total =
        diffCount aal b1 b2 0 (b1.total / 8 * 8) + diffCount aal b1 b2 (b1.total / 8 * 8) (b1.total % 8) := by
      conv_lhs => rw [← Nat.div_add_mod' b1.total 8]
      rw [diffCount_append, Nat.zero_add]
    rw [bitmapCompare_spec h1 h2 htotal, hsplit]
    constructor
    · intro heq
      exact ⟨hroom, Nat.add_left_cancel (Option.some.inj heq)⟩
    · rintro ⟨-, heq⟩
      rw [heq]
  · rw [bitmapCompare_none hshape1 (by omega)]
    constructor
    · intro h
      cases h
    · rintro ⟨h, -⟩
      exact absurd h hroom

theorem bitmapCompare_iff_sample :
    repairBitmapCompare AalBits.plain (reiser4BitmapCreate 16) { reiser4BitmapCreate 16 with map := fun _ => 5 } =
      some 4 := by
  rw [bitmapCompare_iff AalBits.plain (reiser4BitmapCreate 16) { reiser4BitmapCreate 16 with map := fun _ => 5 }
    rfl rfl rfl |>.mpr ⟨by decide, by decide +kernel⟩]
  decide +kernel

/-- Twelve blocks, and only block 9 is marked in one bitmap: the second loop looks at the blocks 2 to 5. -/
theorem bitmapCompare_misses :
    ¬ (∀ b1 b2 : Bitmap, b1.Shaped → b2.Shaped → b1.total = b2.total →
      repairBitmapCompare AalBits.plain b1 b2 = some (diffCount AalBits.plain b1 b2 0 b1.total)) := by
  intro h
  have hrun := h (reiser4BitmapCreate 12) { reiser4BitmapCreate 12 with map := fun j => if j = 1 then 2 else 0 }
    rfl rfl rfl
  revert hrun
  decide +kernel

end Specs

end Reiser4
