/-
  Block bitmaps (`libreiser4/bitmap.c`).

  The bits themselves are set, cleared and searched by routines of `libaal`, which is not part of this
  repository; they come as a parameter `AalBits` that carries what they are documented to do.  Nothing
  depends on where a bit sits in its byte, only that bit `i` sits in byte `i / 8`.

  The byte count of a map is a 32-bit field, so for very long file systems the map is shorter than its
  bits need.  An access outside the map is undefined and ends the routine here with `none`.

    1. `Bitmap.WF`      the map has room for all bits and `marked` is their number;
    2. `calc_spec`      on a well-formed bitmap the counting loop counts;
    3. `markRegion_spec`, `clearRegion_spec`, `mark_has`   what the writers change;
    4. `findMarked_spec`, `testRegion_spec`   the searches.
-/
import Reiser4.Aal
import Mathlib.Data.List.Count
import Mathlib.Data.Fintype.EquivFin
import Mathlib.Tactic.Ring

namespace Reiser4

open Reiser4.Lib

/-- The number of values of a 32-bit word. -/
def two32 : Nat := 4294967296

/-- A value stored in a `uint32_t`. -/
def u32 (n : Nat) : Nat := n % two32

theorem u32_of_lt {n : Nat} (h : n < two32) : u32 n = n := Nat.mod_eq_of_lt h

theorem u32_lt (n : Nat) : u32 n < two32 := Nat.mod_lt _ (by decide)

theorem u32_le (n : Nat) : u32 n ≤ n := Nat.mod_le _ _

/-- A value stored in a `uint64_t`. -/
def u64 (n : Nat) : Nat := n % 18446744073709551616

/-- `INVAL_BLK`. -/
def invalBlk : Nat := 18446744073709551615

/-! ## The bit operations of `libaal` -/

/-- Where the bits of a byte are. -/
structure BitOrder where
  pos : Nat → Nat
  pos_lt : ∀ k, k < 8 → pos k < 8

/-- `aal_test_bit`. -/
def BitOrder.test (o : BitOrder) (m : Bytes) (i : Nat) : Bool :=
  (m (i / 8)).toBitVec.getLsbD (o.pos (i % 8))

theorem BitOrder.test_zero (o : BitOrder) (i : Nat) : o.test Bytes.zero i = false := by
  unfold BitOrder.test Bytes.zero
  simp

/-- The routines of `libaal` on bits, with their documented behaviour. -/
structure AalBits extends BitOrder where
  setBit : Bytes → Nat → Bytes
  clearBit : Bytes → Nat → Bytes
  setBits : Bytes → Nat → Nat → Bytes
  clearBits : Bytes → Nat → Nat → Bytes
  /-- `aal_find_next_zero_bit(map, total, start)`. -/
  findNextZeroBit : Bytes → Nat → Nat → Nat
  /-- `aal_find_next_set_bit(map, total, start)`. -/
  findNextSetBit : Bytes → Nat → Nat → Nat
  /-- `aal_find_zero_bits(map, total, &start, count)`: the start of what was found, and its length. -/
  findZeroBits : Bytes → Nat → Nat → Nat → Nat × Nat
  test_setBit : ∀ m i j, toBitOrder.test (setBit m i) j = (decide (j = i) || toBitOrder.test m j)
  test_clearBit : ∀ m i j,
    toBitOrder.test (clearBit m i) j = (!decide (j = i) && toBitOrder.test m j)
  test_setBits : ∀ m s n j,
    toBitOrder.test (setBits m s n) j = (decide (s ≤ j ∧ j < s + n) || toBitOrder.test m j)
  test_clearBits : ∀ m s n j,
    toBitOrder.test (clearBits m s n) j = (!decide (s ≤ j ∧ j < s + n) && toBitOrder.test m j)
  findNextZeroBit_before : ∀ m total s j, s ≤ j → j < total → j < findNextZeroBit m total s →
    toBitOrder.test m j = true
  findNextZeroBit_at : ∀ m total s, findNextZeroBit m total s < total →
    s ≤ findNextZeroBit m total s ∧ toBitOrder.test m (findNextZeroBit m total s) = false
  findNextSetBit_before : ∀ m total s j, s ≤ j → j < total → j < findNextSetBit m total s →
    toBitOrder.test m j = false
  findNextSetBit_at : ∀ m total s, findNextSetBit m total s < total →
    s ≤ findNextSetBit m total s ∧ toBitOrder.test m (findNextSetBit m total s) = true

attribute [simp] AalBits.test_setBit AalBits.test_clearBit AalBits.test_setBits
  AalBits.test_clearBits

/-- The bytes with these bits, bit `k` of a byte being that of weight `2 ^ k`. -/
def ofBits (p : Nat → Bool) : Bytes :=
  fun j => ⟨(BitVec.ofBoolListLE ((List.range 8).map fun k => p (8 * j + k))).cast (by simp)⟩

/-- The order of the bits on a little-endian machine. -/
def BitOrder.plain : BitOrder := ⟨id, fun _ h => h⟩

theorem test_ofBits (p : Nat → Bool) (i : Nat) : BitOrder.plain.test (ofBits p) i = p i := by
  have hlt : i % 8 < 8 := Nat.mod_lt _ (by decide)
  have hsplit : 8 * (i / 8) + i % 8 = i := Nat.div_add_mod i 8
  unfold BitOrder.test ofBits BitOrder.plain
  dsimp only [id]
  rw [BitVec.getLsbD_cast, BitVec.getLsbD_ofBoolListLE, List.getD_eq_getElem?_getD,
    List.getElem?_map, List.getElem?_range hlt]
  show p (8 * (i / 8) + i % 8) = p i
  rw [hsplit]

/-- The first bit from `s` on that has the property. -/
def firstBit (p : Nat → Bool) (total s : Nat) : Nat := ((List.range' s (total - s)).find? p).getD total

theorem firstBit_before {p : Nat → Bool} {total s j : Nat} (h1 : s ≤ j) (h2 : j < total)
    (h3 : j < firstBit p total s) : p j = false := by
  unfold firstBit at h3
  cases hf : (List.range' s (total - s)).find? p with
  | none =>
    simpa using List.find?_range'_eq_none.mp hf j h1 (by omega)
  | some k =>
    rw [hf] at h3
    simpa using (List.find?_range'_eq_some.mp hf).2.2 j h1 h3

theorem firstBit_at {p : Nat → Bool} {total s : Nat} (h : firstBit p total s < total) :
    s ≤ firstBit p total s ∧ p (firstBit p total s) = true := by
  unfold firstBit at h ⊢
  cases hf : (List.range' s (total - s)).find? p with
  | none => simp [hf] at h
  | some k =>
    have hk := List.mem_range'_1.mp (List.mem_of_find?_eq_some hf)
    exact ⟨hk.1, List.find?_some hf⟩

/-- The routines of `libaal`, bit by bit. -/
def AalBits.plain : AalBits where
  toBitOrder := BitOrder.plain
  setBit m i := ofBits fun j => decide (j = i) || BitOrder.plain.test m j
  clearBit m i := ofBits fun j => !decide (j = i) && BitOrder.plain.test m j
  setBits m s n := ofBits fun j => decide (s ≤ j ∧ j < s + n) || BitOrder.plain.test m j
  clearBits m s n := ofBits fun j => !decide (s ≤ j ∧ j < s + n) && BitOrder.plain.test m j
  findNextZeroBit m total s := firstBit (fun j => !BitOrder.plain.test m j) total s
  findNextSetBit m total s := firstBit (BitOrder.plain.test m) total s
  findZeroBits m total s n :=
    let start := firstBit (fun j => !BitOrder.plain.test m j) total s
    (start, min n (firstBit (BitOrder.plain.test m) total start - start))
  test_setBit m i j := test_ofBits _ _
  test_clearBit m i j := test_ofBits _ _
  test_setBits m s n j := test_ofBits _ _
  test_clearBits m s n j := test_ofBits _ _
  findNextZeroBit_before m total s j h1 h2 h3 := by
    simpa using firstBit_before h1 h2 h3
  findNextZeroBit_at m total s h := by
    simpa using firstBit_at h
  findNextSetBit_before m total s j h1 h2 h3 := by
    simpa using firstBit_before h1 h2 h3
  findNextSetBit_at m total s h := firstBit_at h

/-- `aal_set_bit` as a change of one byte. -/
def setBitByte (m : Bytes) (i : Nat) : Bytes :=
  fun k => if k = i / 8 then m k ||| ⟨BitVec.twoPow 8 (i % 8)⟩ else m k

theorem test_setBitByte (m : Bytes) (i j : Nat) :
    BitOrder.plain.test (setBitByte m i) j = (decide (j = i) || BitOrder.plain.test m j) := by
  have hlt : i % 8 < 8 := Nat.mod_lt _ (by decide)
  unfold BitOrder.test setBitByte BitOrder.plain
  dsimp only [id]
  by_cases hbyte : j / 8 = i / 8
  · have heq : i % 8 = j % 8 ↔ j = i := by omega
    rw [if_pos hbyte, UInt8.toBitVec_or, BitVec.getLsbD_or, BitVec.getLsbD_twoPow, decide_eq_true hlt,
      Bool.true_and, Bool.or_comm, decide_eq_decide.mpr heq]
  · have hne : j ≠ i := fun h => hbyte (by rw [h])
    rw [if_neg hbyte, decide_eq_false hne, Bool.false_or]

/-- The routines of `libaal`, with single bits set byte by byte. -/
def AalBits.bytewise : AalBits :=
  { AalBits.plain with
    setBit := setBitByte
    test_setBit := test_setBitByte }

/-- `aal_find_zero_bits` finds bits of the map that are not set, at most as many as wanted. -/
def AalBits.FindsZero (aal : AalBits) : Prop :=
  ∀ m total s n, (aal.findZeroBits m total s n).2 ≤ n ∧
    (aal.findZeroBits m total s n).1 + (aal.findZeroBits m total s n).2 ≤ total ∧
    ∀ j, (aal.findZeroBits m total s n).1 ≤ j →
      j < (aal.findZeroBits m total s n).1 + (aal.findZeroBits m total s n).2 →
      aal.test m j = false

theorem firstBit_le (p : Nat → Bool) (total s : Nat) : firstBit p total s ≤ total := by
  unfold firstBit
  cases hf : (List.range' s (total - s)).find? p with
  | none => exact le_refl _
  | some k =>
    have hk := List.mem_range'_1.mp (List.mem_of_find?_eq_some hf)
    show k ≤ total
    omega

theorem AalBits.plain_findsZero : AalBits.plain.FindsZero := by
  intro m total s n
  obtain ⟨z, hz⟩ : ∃ z, firstBit (fun j => !BitOrder.plain.test m j) total s = z := ⟨_, rfl⟩
  obtain ⟨e, he⟩ : ∃ e, firstBit (BitOrder.plain.test m) total z = e := ⟨_, rfl⟩
  have hfind : AalBits.plain.findZeroBits m total s n = (z, min n (e - z)) := by
    rw [← he, ← hz]
    rfl
  have hzt : z ≤ total := hz ▸ firstBit_le _ _ _
  have het : e ≤ total := he ▸ firstBit_le _ _ _
  rw [hfind]
  refine ⟨Nat.min_le_left _ _, ?_, fun j h1 h2 => ?_⟩
  · dsimp only
    omega
  · dsimp only at h1 h2
    have hlt : j < firstBit (BitOrder.plain.test m) total z := by
      rw [he]
      omega
    exact firstBit_before h1 (by omega) hlt

/-! ## Bitmaps -/

/-- `reiser4_bitmap_t`. -/
structure Bitmap where
  marked : Nat
  total : Nat
  /-- The bytes of the map, a `uint32_t`. -/
  size : Nat
  map : Bytes

/-- `reiser4_bitmap_create`. -/
def reiser4BitmapCreate (len : Nat) : Bitmap where
  marked := 0
  total := len
  size := u32 (u64 (len + 7) / 8)
  map := Bytes.zero

/-- `reiser4_bitmap_clone`. -/
def reiser4BitmapClone (b : Bitmap) : Bitmap :=
  let clone := reiser4BitmapCreate b.total
  { clone with marked := b.marked, map := clone.map.copy 0 b.map 0 clone.size }

section Operations

variable (aal : AalBits)

/-- `reiser4_bitmap_test`. -/
def reiser4BitmapTest (b : Bitmap) (bit : Nat) : Option Bool :=
  if b.total ≤ bit then some false
  else if bit / 8 < b.size then some (aal.test b.map bit)
  else none

/-- `reiser4_bitmap_mark`. -/
def reiser4BitmapMark (b : Bitmap) (bit : Nat) : Option Bitmap :=
  if b.total ≤ bit then some b
  else if bit / 8 < b.size then
    if aal.test b.map bit then some b
    else some { b with map := aal.setBit b.map bit, marked := b.marked + 1 }
  else none

/-- `reiser4_bitmap_clear`. -/
def reiser4BitmapClear (b : Bitmap) (bit : Nat) : Option Bitmap :=
  if b.total ≤ bit then some b
  else if bit / 8 < b.size then
    if aal.test b.map bit then
      some { b with map := aal.clearBit b.map bit, marked := b.marked - 1 }
    else some b
  else none

/-- The loop of `reiser4_bitmap_calc`: `n` bits from `i` on. -/
def calcLoop (b : Bitmap) (marked : Bool) : Nat → Nat → Option Nat
  | 0, _ => some 0
  | n + 1, i => do
    let t ← reiser4BitmapTest aal b i
    let bits ← calcLoop b marked n (i + 1)
    pure (bits + if t = marked then 1 else 0)

/-- `reiser4_bitmap_calc`. -/
def reiser4BitmapCalc (b : Bitmap) (start count : Nat) (marked : Bool) : Option Nat :=
  calcLoop aal b marked (u64 (start + count) - start) start

/-- The bits `start .. start + count` are in the map. -/
def Bitmap.holds (b : Bitmap) (start count : Nat) : Prop :=
  count = 0 ∨ (start + count - 1) / 8 < b.size

instance (b : Bitmap) (start count : Nat) : Decidable (b.holds start count) :=
  inferInstanceAs (Decidable (_ ∨ _))

/-- The bound checks of the region routines. -/
def Bitmap.bounded (b : Bitmap) (start count : Nat) : Prop :=
  start < b.total ∧ u64 (start + count + invalBlk) < b.total

instance (b : Bitmap) (start count : Nat) : Decidable (b.bounded start count) :=
  inferInstanceAs (Decidable (_ ∧ _))

/-- `reiser4_bitmap_mark_region`. -/
def reiser4BitmapMarkRegion (b : Bitmap) (start count : Nat) : Option Bitmap :=
  if b.bounded start count then do
    let num ← reiser4BitmapCalc aal b start count false
    if b.holds start count then
      some { b with map := aal.setBits b.map start count, marked := b.marked + num }
    else none
  else some b

/-- `reiser4_bitmap_clear_region`. -/
def reiser4BitmapClearRegion (b : Bitmap) (start count : Nat) : Option Bitmap :=
  if b.bounded start count then do
    let num ← reiser4BitmapCalc aal b start count true
    if b.holds start count then
      some { b with map := aal.clearBits b.map start count, marked := b.marked - num }
    else none
  else some b

/-- `reiser4_bitmap_find_cleared` and `reiser4_bitmap_find_marked`, by the routine of `libaal`. -/
def bitmapFind (find : Bytes → Nat → Nat → Nat) (b : Bitmap) (start : Nat) : Option Nat :=
  if b.total ≤ start then some invalBlk
  else
    let bit := find b.map b.total start
    if b.total ≤ bit then if b.holds start (b.total - start) then some invalBlk else none
    else if bit / 8 < b.size then some bit else none

def reiser4BitmapFindCleared (b : Bitmap) (start : Nat) : Option Nat :=
  bitmapFind aal.findNextZeroBit b start

def reiser4BitmapFindMarked (b : Bitmap) (start : Nat) : Option Nat :=
  bitmapFind aal.findNextSetBit b start

/-- `reiser4_bitmap_test_region`: no bit of the region has the other value. -/
def reiser4BitmapTestRegion (b : Bitmap) (start count : Nat) (marked : Bool) : Option Bool :=
  if b.bounded start count then do
    let next ← if marked then reiser4BitmapFindCleared aal b start
      else reiser4BitmapFindMarked aal b start
    pure !(decide (start ≤ next ∧ next < u64 (start + count)))
  else some false

/-- `reiser4_bitmap_calc_marked`. -/
def reiser4BitmapCalcMarked (b : Bitmap) : Option Bitmap := do
  let marked ← reiser4BitmapCalc aal b 0 b.total true
  pure { b with marked }

/-- `reiser4_bitmap_invert`; `size * 8` is computed in 32 bits. -/
def reiser4BitmapInvert (b : Bitmap) : Bitmap :=
  { b with
    map := (List.range' b.total (u32 (b.size * 8) - b.total)).foldl aal.clearBit
      fun i => if i < b.size then ~~~b.map i else b.map i
    marked := b.total - b.marked }

end Operations

/-- `reiser4_bitmap_cleared`. -/
def reiser4BitmapCleared (b : Bitmap) : Nat := b.total - b.marked

/-! ## The set a bitmap stands for -/

namespace Bitmap

variable (aal : AalBits)

/-- Block `i` is marked. -/
def has (b : Bitmap) (i : Nat) : Bool := decide (i < b.total) && aal.test b.map i

/-- The number of marked blocks. -/
def count (b : Bitmap) : Nat := (List.range b.total).countP (b.has aal)

/-- The map has room for all bits, and its byte count fits its field. -/
def Sized (b : Bitmap) : Prop := b.size = (b.total + 7) / 8 ∧ b.size < two32

/-- **The well-formed bitmap**: all bits are in the map, and `marked` is how many are set. -/
structure WF (b : Bitmap) : Prop where
  sized : b.Sized
  marked : b.marked = b.count aal

end Bitmap

section Specs

variable {aal : AalBits} {b b' : Bitmap}

theorem Bitmap.Sized.room (h : b.Sized) {i : Nat} (hi : i < b.total) : i / 8 < b.size := by
  have := h.1
  omega

theorem Bitmap.Sized.total_lt (h : b.Sized) : b.total < 34359738368 := by
  have h1 := h.1
  have h2 := h.2
  unfold two32 at h2
  omega

theorem Bitmap.has_of_lt {i : Nat} (h : i < b.total) : b.has aal i = aal.test b.map i := by
  simp [Bitmap.has, h]

theorem Bitmap.has_lt {i : Nat} (h : b.has aal i = true) : i < b.total := by
  simp only [Bitmap.has, Bool.and_eq_true, decide_eq_true_eq] at h
  exact h.1

theorem test_spec (h : b.Sized) (bit : Nat) :
    reiser4BitmapTest aal b bit = some (b.has aal bit) := by
  unfold reiser4BitmapTest Bitmap.has
  split
  · next hle => simp [Nat.not_lt.mpr hle]
  · next hlt => simp [h.room (Nat.lt_of_not_le hlt), Nat.lt_of_not_le hlt]

theorem calcLoop_spec (h : b.Sized) (marked : Bool) (n : Nat) :
    ∀ i, calcLoop aal b marked n i =
      some ((List.range' i n).countP fun j => b.has aal j == marked) := by
  induction n with
  | zero => intro i; rfl
  | succ n ih =>
    intro i
    rw [calcLoop, test_spec h, ih (i + 1), List.range'_succ, List.countP_cons]
    simp

/-- The bound checks let a region through that lies in the bitmap, or one that leaves the map. -/
theorem bounded_iff (h : b.Sized) {start count : Nat} (hc : 0 < count) :
    b.bounded start count ∧ b.holds start count ↔ start + count ≤ b.total := by
  have h1 := h.1
  have h2 := h.total_lt
  unfold Bitmap.bounded Bitmap.holds u64 invalBlk
  constructor
  · rintro ⟨⟨h1, h2⟩, h3⟩
    omega
  · intro hle
    refine ⟨⟨?_, ?_⟩, Or.inr ?_⟩ <;> omega

theorem calc_spec (h : b.Sized) {start count : Nat} (hle : start + count ≤ b.total)
    (marked : Bool) : reiser4BitmapCalc aal b start count marked =
      some ((List.range' start count).countP fun j => b.has aal j == marked) := by
  have := h.total_lt
  unfold reiser4BitmapCalc u64
  rw [Nat.mod_eq_of_lt (by omega), Nat.add_sub_cancel_left, calcLoop_spec h]

/-- A counting loop that leaves the map is undefined. -/
theorem calcLoop_none {marked : Bool} {n i j : Nat} (hij : i ≤ j) (hjn : j < i + n)
    (hj : j < b.total) (hmap : b.size ≤ j / 8) : calcLoop aal b marked n i = none := by
  induction n generalizing i with
  | zero => omega
  | succ n ih =>
    rw [calcLoop]
    rcases Nat.eq_or_lt_of_le hij with rfl | hlt
    · have : reiser4BitmapTest aal b i = none := by
        unfold reiser4BitmapTest
        rw [if_neg (by omega), if_neg (by omega)]
      rw [this]
      rfl
    · rw [ih hlt (by omega)]
      cases reiser4BitmapTest aal b i <;> rfl

/-- Counting over a range in three parts. -/
theorem countP_range_split (p : Nat → Bool) {start count total : Nat}
    (h : start + count ≤ total) : (List.range total).countP p =
      (List.range' 0 start).countP p + (List.range' start count).countP p +
        (List.range' (start + count) (total - (start + count))).countP p := by
  have h1 := List.range'_append_1 (s := 0) (m := start) (n := count)
  have h2 := List.range'_append_1 (s := 0) (m := start + count) (n := total - (start + count))
  rw [Nat.zero_add] at h1 h2
  rw [← List.countP_append, h1, ← List.countP_append, h2, List.range_eq_range']
  congr 2
  omega

theorem countP_range'_congr {p q : Nat → Bool} {s n : Nat}
    (h : ∀ i, s ≤ i → i < s + n → p i = q i) :
    (List.range' s n).countP p = (List.range' s n).countP q := by
  apply List.countP_congr
  intro i hi
  have := List.mem_range'_1.mp hi
  rw [h i this.1 this.2]

/-- The bits of a region that have the value, and those that have the other one. -/
theorem countP_eq_add (p : Nat → Bool) (l : List Nat) :
    l.length = l.countP (fun j => p j == true) + l.countP fun j => p j == false := by
  have h := List.length_eq_countP_add_countP p (l := l)
  have h1 : (fun j => p j == true) = p := by
    funext j
    cases p j <;> rfl
  have h2 : (fun j => p j == false) = fun j => decide ¬p j = true := by
    funext j
    cases p j <;> rfl
  rw [h1, h2]
  exact h

variable (aal) in
/-- Changing the bits of one region changes the count by what changes there. -/
theorem Bitmap.count_of_region {start n : Nat} (h : start + n ≤ b.total)
    (htotal : b'.total = b.total)
    (hout : ∀ i, i < start ∨ start + n ≤ i → b'.has aal i = b.has aal i) :
    b'.count aal + (List.range' start n).countP (b.has aal) =
      b.count aal + (List.range' start n).countP (b'.has aal) := by
  unfold Bitmap.count
  rw [htotal, countP_range_split (b'.has aal) h, countP_range_split (b.has aal) h,
    countP_range'_congr (s := 0) (q := b.has aal),
    countP_range'_congr (s := start + n) (q := b.has aal)]
  · omega
  · intro i h1 h2
    exact hout i (Or.inr h1)
  · intro i h1 h2
    exact hout i (Or.inl (by omega))

theorem countP_const_true {p : Nat → Bool} {s n : Nat} (h : ∀ i, s ≤ i → i < s + n → p i = true) :
    (List.range' s n).countP p = n := by
  rw [countP_range'_congr (q := fun _ => true) h]
  simp

theorem countP_const_false {p : Nat → Bool} {s n : Nat}
    (h : ∀ i, s ≤ i → i < s + n → p i = false) : (List.range' s n).countP p = 0 := by
  rw [countP_range'_congr (q := fun _ => false) h]
  simp

/-! ## What the routines do on a well-formed bitmap -/

/-- The region lies in the bitmap and holds block `i`. -/
def Bitmap.regionHas (b : Bitmap) (start count i : Nat) : Bool :=
  decide (start + count ≤ b.total) && decide (start ≤ i ∧ i < start + count)

/-- A region routine writes a region of the bitmap, or it changes nothing and the region is not one
    of the bitmap. -/
theorem region_cases (h : b.Sized) {start count : Nat} {marked : Bool} {f : Nat → Bitmap}
    (hr : (if b.bounded start count then do
        let num ← reiser4BitmapCalc aal b start count marked
        if b.holds start count then some (f num) else none
      else some b) = some b') :
    (start + count ≤ b.total ∧
      b' = f ((List.range' start count).countP fun j => b.has aal j == marked)) ∨
    (b' = b ∧ ∀ i, b.regionHas start count i = false) := by
  have hempty : ¬start + count ≤ b.total ∨ count = 0 →
      ∀ i, b.regionHas start count i = false := by
    intro hno i
    simp only [Bitmap.regionHas, Bool.and_eq_false_iff, decide_eq_false_iff_not]
    omega
  by_cases hle : start + count ≤ b.total
  · split at hr
    · rw [calc_spec h hle] at hr
      simp only [Option.bind_eq_bind, Option.bind_some] at hr
      split at hr
      · cases hr
        exact Or.inl ⟨hle, rfl⟩
      · cases hr
    · next hb =>
      cases hr
      rcases Nat.eq_zero_or_pos count with h0 | hc
      · exact Or.inr ⟨rfl, hempty (Or.inr h0)⟩
      · exact absurd ((bounded_iff h hc).mpr hle).1 hb
  · split at hr
    · next hb =>
      -- The bound checks have let a region through that leaves the map.
      have hc : 0 < count := by
        have := hb.1
        omega
      have hm : ¬b.holds start count := fun hm => hle ((bounded_iff h hc).mp ⟨hb, hm⟩)
      cases hcalc : reiser4BitmapCalc aal b start count marked with
      | none => simp [hcalc] at hr
      | some num => simp [hcalc, hm] at hr
    · cases hr
      exact Or.inr ⟨rfl, hempty (Or.inl hle)⟩

theorem beq_true_fun (p : Nat → Bool) : (fun j => p j == true) = p := by
  funext j
  cases p j <;> rfl

/-- What a region routine of either kind leaves alone. -/
theorem markRegion_size {start count : Nat} (hr : reiser4BitmapMarkRegion aal b start count = some b') :
    b'.total = b.total ∧ b'.size = b.size := by
  unfold reiser4BitmapMarkRegion at hr
  split at hr
  · cases hcalc : reiser4BitmapCalc aal b start count false with
    | none => simp [hcalc] at hr
    | some num =>
      simp only [hcalc, Option.bind_eq_bind, Option.bind_some] at hr
      split at hr
      · cases hr
        exact ⟨rfl, rfl⟩
      · cases hr
  · cases hr
    exact ⟨rfl, rfl⟩

/-- `reiser4_bitmap_mark_region` adds the region, if it lies in the bitmap. -/
theorem markRegion_has (h : b.Sized) {start count : Nat}
    (hr : reiser4BitmapMarkRegion aal b start count = some b') (i : Nat) :
    b'.has aal i = (b.regionHas start count i || b.has aal i) := by
  rcases region_cases h hr with ⟨hle, he⟩ | ⟨rfl, hno⟩
  · simp only [he, Bitmap.has, Bitmap.regionHas, AalBits.test_setBits, hle, decide_true,
      Bool.true_and]
    by_cases hi : start ≤ i ∧ i < start + count
    · have : i < b.total := by omega
      simp [hi, this]
    · simp [hi]
  · rw [hno, Bool.false_or]

/-- The counter follows the bits. -/
theorem markRegion_spec (h : b.WF aal) {start count : Nat}
    (hr : reiser4BitmapMarkRegion aal b start count = some b') :
    b'.WF aal ∧ b'.total = b.total ∧
      ∀ i, b'.has aal i = (b.regionHas start count i || b.has aal i) := by
  have hhas := markRegion_has h.sized hr
  have htotal := (markRegion_size hr).1
  refine ⟨?_, htotal, hhas⟩
  rcases region_cases h.sized hr with ⟨hle, he⟩ | ⟨rfl, -⟩
  · have hcount := Bitmap.count_of_region aal hle htotal (fun i hi => by
      have : ¬(start ≤ i ∧ i < start + count) := by omega
      rw [hhas i]
      simp [Bitmap.regionHas, this])
    have hall := countP_const_true (p := b'.has aal) (s := start) (n := count)
      (fun i h1 h2 => by
        rw [hhas i]
        simp [Bitmap.regionHas, hle, h1, h2])
    have hparts := countP_eq_add (b.has aal) (List.range' start count)
    rw [beq_true_fun, List.length_range'] at hparts
    have hmarked : b'.marked =
        b.marked + (List.range' start count).countP fun j => b.has aal j == false := by rw [he]
    have := h.marked
    refine ⟨?_, by omega⟩
    rw [he]
    exact h.sized
  · exact h

/-- `reiser4_bitmap_clear_region` takes the region out, if it lies in the bitmap. -/
theorem clearRegion_spec (h : b.WF aal) {start count : Nat}
    (hr : reiser4BitmapClearRegion aal b start count = some b') :
    b'.WF aal ∧ b'.total = b.total ∧
      ∀ i, b'.has aal i = (!b.regionHas start count i && b.has aal i) := by
  rcases region_cases h.sized hr with ⟨hle, he⟩ | ⟨rfl, hno⟩
  · have htotal : b'.total = b.total := by rw [he]
    have hhas (i : Nat) : b'.has aal i = (!b.regionHas start count i && b.has aal i) := by
      simp only [he, Bitmap.has, Bitmap.regionHas, AalBits.test_clearBits, hle, decide_true,
        Bool.true_and]
      by_cases hi : start ≤ i ∧ i < start + count
      · simp [hi]
      · simp [hi]
    have hcount := Bitmap.count_of_region aal hle htotal (fun i hi => by
      have : ¬(start ≤ i ∧ i < start + count) := by omega
      rw [hhas i]
      simp [Bitmap.regionHas, this])
    have hnone := countP_const_false (p := b'.has aal) (s := start) (n := count)
      (fun i h1 h2 => by
        rw [hhas i]
        simp [Bitmap.regionHas, hle, h1, h2])
    have hmarked : b'.marked = b.marked - (List.range' start count).countP (b.has aal) := by
      rw [he, beq_true_fun]
    have := h.marked
    refine ⟨⟨?_, ?_⟩, htotal, hhas⟩
    · rw [he]
      exact h.sized
    · omega
  · refine ⟨h, rfl, ?_⟩
    intro i
    rw [hno, Bool.not_false, Bool.true_and]

theorem mark_size {bit : Nat} (hr : reiser4BitmapMark aal b bit = some b') :
    b'.total = b.total ∧ b'.size = b.size := by
  unfold reiser4BitmapMark at hr
  split at hr
  · cases hr
    exact ⟨rfl, rfl⟩
  · split at hr
    · split at hr
      · cases hr
        exact ⟨rfl, rfl⟩
      · cases hr
        exact ⟨rfl, rfl⟩
    · cases hr

variable (aal) in
/-- `reiser4_bitmap_mark` adds one block, if it is below the total. -/
theorem mark_has (h : b.Sized) (bit : Nat) : ∃ b', reiser4BitmapMark aal b bit = some b' ∧
    ∀ i, b'.has aal i = (decide (i = bit ∧ bit < b.total) || b.has aal i) := by
  unfold reiser4BitmapMark
  by_cases hle : b.total ≤ bit
  · rw [if_pos hle]
    refine ⟨b, rfl, ?_⟩
    intro i
    have : ¬(i = bit ∧ bit < b.total) := by omega
    simp [this]
  have hlt : bit < b.total := Nat.lt_of_not_le hle
  rw [if_neg hle, if_pos (h.room hlt)]
  cases ht : aal.test b.map bit with
  | true =>
    refine ⟨b, rfl, ?_⟩
    intro i
    by_cases hi : i = bit
    · simp [hi, hlt, Bitmap.has, ht]
    · simp [hi]
  | false =>
    refine ⟨{ b with map := aal.setBit b.map bit, marked := b.marked + 1 }, rfl, ?_⟩
    intro i
    simp only [Bitmap.has, AalBits.test_setBit, hlt, and_true]
    by_cases hi : i = bit
    · simp [hi, hlt]
    · simp [hi]

variable (aal) in
/-- `reiser4_bitmap_clear` takes one block out. -/
theorem clear_has (h : b.Sized) (bit : Nat) : ∃ b', reiser4BitmapClear aal b bit = some b' ∧
    b'.Sized ∧ b'.total = b.total ∧ ∀ i, b'.has aal i = (!decide (i = bit) && b.has aal i) := by
  unfold reiser4BitmapClear
  by_cases hle : b.total ≤ bit
  · rw [if_pos hle]
    refine ⟨b, rfl, h, rfl, fun i => ?_⟩
    by_cases hi : i = bit
    · have : ¬i < b.total := by omega
      simp [Bitmap.has, this]
    · simp [hi]
  rw [if_neg hle, if_pos (h.room (Nat.lt_of_not_le hle))]
  cases ht : aal.test b.map bit with
  | true =>
    refine ⟨_, rfl, h, rfl, fun i => ?_⟩
    simp only [Bitmap.has, AalBits.test_clearBit]
    cases decide (i = bit) <;> simp
  | false =>
    refine ⟨b, rfl, h, rfl, fun i => ?_⟩
    by_cases hi : i = bit
    · simp [hi, Bitmap.has, ht]
    · simp [hi]

/-- The clone of a bitmap has its bits. -/
theorem clone_spec (h : b.Sized) : (reiser4BitmapClone b).Sized ∧
    (reiser4BitmapClone b).size = b.size ∧ ∀ j < b.size, (reiser4BitmapClone b).map j = b.map j := by
  have hsize : (reiser4BitmapClone b).size = b.size := by
    show u32 (u64 (b.total + 7) / 8) = b.size
    have h1 := h.1
    have h2 := h.2
    have := h.total_lt
    unfold u32 u64
    rw [Nat.mod_eq_of_lt (a := b.total + 7) (by omega), ← h1, Nat.mod_eq_of_lt h2]
  refine ⟨⟨by rw [hsize]; exact h.1, by rw [hsize]; exact h.2⟩, hsize, fun j hj => ?_⟩
  have hin := Bytes.copy_in (reiser4BitmapCreate b.total).map 0 b.map 0
    (reiser4BitmapCreate b.total).size j (Nat.zero_le _) (by rw [Nat.zero_add]; exact hsize ▸ hj)
  exact hin

/-- A bitmap with all blocks of another one, and no more of them, has the same blocks. -/
theorem Bitmap.has_of_count_le (htotal : b'.total = b.total)
    (hsub : ∀ i, b.has aal i = true → b'.has aal i = true) (hcount : b'.count aal ≤ b.count aal)
    {i : Nat} (hi : b'.has aal i = true) : b.has aal i = true := by
  unfold Bitmap.count at hcount
  rw [htotal, List.countP_eq_length_filter, List.countP_eq_length_filter] at hcount
  have hsubl : ((List.range b.total).filter (b.has aal)).Sublist
      ((List.range b.total).filter (b'.has aal)) :=
    List.monotone_filter_right _ hsub
  have heq := hsubl.eq_of_length_le hcount
  have hmem : i ∈ (List.range b.total).filter (b'.has aal) :=
    List.mem_filter.mpr ⟨List.mem_range.mpr (htotal ▸ Bitmap.has_lt hi), hi⟩
  rw [← heq] at hmem
  exact (List.mem_filter.mp hmem).2

/-- `reiser4_bitmap_calc_marked` repairs the counter. -/
theorem calcMarked_spec (h : b.Sized) :
    reiser4BitmapCalcMarked aal b = some { b with marked := b.count aal } := by
  unfold reiser4BitmapCalcMarked
  rw [calc_spec h (Nat.le_of_eq (Nat.zero_add _))]
  simp [Bitmap.count, List.range_eq_range']

/-- On a map that is too short the bits cannot be counted. -/
theorem calcMarked_none (htotal : b.total < 18446744073709551616) (h : b.size * 8 < b.total) :
    reiser4BitmapCalcMarked aal b = none := by
  unfold reiser4BitmapCalcMarked reiser4BitmapCalc u64
  rw [Nat.zero_add, Nat.mod_eq_of_lt htotal, Nat.sub_zero,
    calcLoop_none (j := b.size * 8) (Nat.zero_le _) (by omega) h (by omega)]
  rfl

@[simp] theorem Bitmap.has_marked (m : Nat) (i : Nat) :
    Bitmap.has aal { b with marked := m } i = b.has aal i := rfl

/-- What a search from a block of the bitmap answers: the next block with the property, or that there
    is none. -/
theorem bitmapFind_spec {find : Bytes → Nat → Nat → Nat} {p : Nat → Bool} {start : Nat} (h : b.Sized)
    (hs : start < b.total)
    (hbefore : ∀ j, start ≤ j → j < b.total → j < find b.map b.total start → p j = false)
    (hat : find b.map b.total start < b.total →
      start ≤ find b.map b.total start ∧ p (find b.map b.total start) = true) :
    (bitmapFind find b start = some invalBlk ∧ ∀ j, start ≤ j → j < b.total → p j = false) ∨
    ∃ next, bitmapFind find b start = some next ∧ start ≤ next ∧ next < b.total ∧ p next = true ∧
      ∀ j, start ≤ j → j < next → p j = false := by
  unfold bitmapFind
  rw [if_neg (by omega)]
  by_cases hend : b.total ≤ find b.map b.total start
  · have hmap : b.holds start (b.total - start) := by
      have := h.1
      unfold Bitmap.holds
      omega
    left
    refine ⟨by simp only [if_pos hend, if_pos hmap], ?_⟩
    intro j h1 h2
    exact hbefore j h1 h2 (by omega)
  · have hlt : find b.map b.total start < b.total := Nat.lt_of_not_le hend
    have hroom := h.room hlt
    right
    refine ⟨find b.map b.total start, by simp only [if_neg hend, if_pos hroom], (hat hlt).1, hlt,
      (hat hlt).2, ?_⟩
    intro j h1 h2
    exact hbefore j h1 (by omega) h2

variable (aal) in
/-- `reiser4_bitmap_find_marked`: the next block of the set. -/
theorem findMarked_spec (h : b.Sized) (start : Nat) :
    (reiser4BitmapFindMarked aal b start = some invalBlk ∧
      ∀ j, start ≤ j → b.has aal j = false) ∨
    ∃ next, reiser4BitmapFindMarked aal b start = some next ∧ start ≤ next ∧
      b.has aal next = true ∧ ∀ j, start ≤ j → j < next → b.has aal j = false := by
  by_cases hs : start < b.total
  · rcases bitmapFind_spec (p := aal.test b.map) h hs
      (aal.findNextSetBit_before b.map b.total start) (aal.findNextSetBit_at b.map b.total start)
      with ⟨hf, hno⟩ | ⟨next, hf, h1, h2, h3, h4⟩
    · refine Or.inl ⟨hf, ?_⟩
      intro j hj
      by_cases hjt : j < b.total
      · rw [Bitmap.has_of_lt hjt, hno j hj hjt]
      · simp [Bitmap.has, hjt]
    · refine Or.inr ⟨next, hf, h1, by rw [Bitmap.has_of_lt h2, h3], ?_⟩
      intro j hj hlt
      rw [Bitmap.has_of_lt (by omega), h4 j hj hlt]
  · refine Or.inl ⟨?_, ?_⟩
    · unfold reiser4BitmapFindMarked bitmapFind
      rw [if_pos (by omega)]
    · intro j hj
      have : ¬j < b.total := by omega
      simp [Bitmap.has, this]

variable (aal) in
/-- `reiser4_bitmap_test_region` on a region of the bitmap: do all its blocks have the value? -/
theorem testRegion_spec (h : b.Sized) {start count : Nat} (hc : 0 < count)
    (hle : start + count ≤ b.total) (marked : Bool) :
    ∃ t, reiser4BitmapTestRegion aal b start count marked = some t ∧
      (t = true ↔ ∀ j, start ≤ j → j < start + count → b.has aal j = marked) := by
  have htotal := h.total_lt
  have hsum : u64 (start + count) = start + count := Nat.mod_eq_of_lt (by omega)
  have hs : start < b.total := by omega
  -- The search is for a block with the other value.
  have hfind : ∃ next, (if marked then reiser4BitmapFindCleared aal b start
      else reiser4BitmapFindMarked aal b start) = some next ∧
      (¬(start ≤ next ∧ next < start + count) ↔
        ∀ j, start ≤ j → j < start + count → aal.test b.map j = marked) := by
    have hinval : ¬(start ≤ invalBlk ∧ invalBlk < start + count) := by
      unfold invalBlk
      omega
    cases marked with
    | true =>
      rcases bitmapFind_spec (p := fun j => !aal.test b.map j) h hs
        (fun j h1 h2 h3 => by simpa using aal.findNextZeroBit_before b.map b.total start j h1 h2 h3)
        (fun hlt => by simpa using aal.findNextZeroBit_at b.map b.total start hlt)
        with ⟨hf, hno⟩ | ⟨next, hf, h1, h2, h3, h4⟩
      · refine ⟨invalBlk, hf, fun _ j h1 h2 => ?_, fun _ => hinval⟩
        simpa using hno j h1 (by omega)
      · refine ⟨next, hf, fun hout j hj1 hj2 => ?_, fun hall hin => ?_⟩
        · simpa using h4 j hj1 (by omega)
        · simp [hall next hin.1 hin.2] at h3
    | false =>
      rcases bitmapFind_spec (p := aal.test b.map) h hs
        (aal.findNextSetBit_before b.map b.total start)
        (aal.findNextSetBit_at b.map b.total start)
        with ⟨hf, hno⟩ | ⟨next, hf, h1, h2, h3, h4⟩
      · exact ⟨invalBlk, hf, fun _ j h1 h2 => hno j h1 (by omega), fun _ => hinval⟩
      · refine ⟨next, hf, fun hout j hj1 hj2 => h4 j hj1 (by omega), fun hall hin => ?_⟩
        rw [hall next hin.1 hin.2] at h3
        cases h3
  obtain ⟨next, hnext, hiff⟩ := hfind
  refine ⟨!decide (start ≤ next ∧ next < start + count), ?_, ?_⟩
  · unfold reiser4BitmapTestRegion
    rw [if_pos ((bounded_iff h hc).mpr hle).1, hsum]
    cases marked with
    | true =>
      have hfound : reiser4BitmapFindCleared aal b start = some next := hnext
      simp only [if_true, hfound]
      rfl
    | false =>
      have hfound : reiser4BitmapFindMarked aal b start = some next := hnext
      simp only [Bool.false_eq_true, if_false, hfound]
      rfl
  · rw [Bool.not_eq_true', decide_eq_false_iff_not, hiff]
    constructor
    · intro hall j h1 h2
      rw [Bitmap.has_of_lt (by omega), hall j h1 h2]
    · intro hall j h1 h2
      rw [← hall j h1 h2, Bitmap.has_of_lt (by omega)]

/-- On one block it tests that block. -/
theorem testRegion_marked_one (h : b.Sized) (i : Nat) :
    reiser4BitmapTestRegion aal b i 1 true = some (b.has aal i) := by
  by_cases hi : i < b.total
  · obtain ⟨t, ht, hiff⟩ := testRegion_spec aal h Nat.one_pos (Nat.succ_le_of_lt hi) true
    rw [ht, Option.some.injEq, Bool.eq_iff_iff, hiff]
    constructor
    · intro hall
      exact hall i (Nat.le_refl i) (Nat.lt_succ_self i)
    · intro hbit j h1 h2
      rw [show j = i by omega]
      exact hbit
  · have hb : ¬b.bounded i 1 := by
      unfold Bitmap.bounded
      omega
    unfold reiser4BitmapTestRegion
    rw [if_neg hb]
    simp [Bitmap.has, hi]

/-! ## Whole bytes -/

/-- No two bits of a byte are in one place, so every place is that of a bit. -/
theorem AalBits.pos_surj (aal : AalBits) {k : Nat} (hk : k < 8) : ∃ l, l < 8 ∧ aal.pos l = k := by
  have hinj : Function.Injective fun l : Fin 8 => (⟨aal.pos l, aal.pos_lt l l.isLt⟩ : Fin 8) := by
    intro i j hij
    have hpos : aal.pos i = aal.pos j := congrArg Fin.val hij
    by_contra hne
    -- Setting bit `i` of a zero byte sets bit `j` too.
    have hi := aal.test_setBit Bytes.zero i i
    have hj := aal.test_setBit Bytes.zero i j
    have hval : (j : Nat) ≠ i := fun h => hne (Fin.ext h.symm)
    rw [BitOrder.test_zero, decide_eq_false hval, Bool.or_false] at hj
    rw [decide_eq_true rfl, Bool.true_or] at hi
    unfold BitOrder.test at hi hj
    rw [Nat.div_eq_of_lt i.isLt, Nat.mod_eq_of_lt i.isLt, hpos] at hi
    rw [Nat.div_eq_of_lt j.isLt, Nat.mod_eq_of_lt j.isLt, hi] at hj
    cases hj
  obtain ⟨l, hl⟩ := Finite.surjective_of_injective hinj ⟨k, hk⟩
  exact ⟨l, l.isLt, congrArg Fin.val hl⟩

theorem BitOrder.test_or (o : BitOrder) (m m' : Bytes) (i : Nat) :
    o.test (fun j => m j ||| m' j) i = (o.test m i || o.test m' i) := by
  unfold BitOrder.test
  simp

theorem BitOrder.test_and_not (o : BitOrder) (m m' : Bytes) (i : Nat) :
    o.test (fun j => m j &&& ~~~m' j) i = (o.test m i && !o.test m' i) := by
  have := o.pos_lt (i % 8) (Nat.mod_lt _ (by decide))
  unfold BitOrder.test
  simp [this]

theorem getLsbD_not_and (x y : UInt8) {k : Nat} (hk : k < 8) :
    (~~~x &&& y).toBitVec.getLsbD k = (!x.toBitVec.getLsbD k && y.toBitVec.getLsbD k) := by
  rw [UInt8.toBitVec_and, UInt8.toBitVec_not, BitVec.getLsbD_and, BitVec.getLsbD_not,
    decide_eq_true hk, Bool.true_and]

/-- A byte with a bit set holds a block whose bit is set. -/
theorem AalBits.byte_ne_zero (aal : AalBits) (m m' : Bytes) (i : Nat) :
    ~~~m i &&& m' i ≠ 0 ↔ ∃ j, j / 8 = i ∧ aal.test m j = false ∧ aal.test m' j = true := by
  constructor
  · intro hne
    by_contra hno
    apply hne
    apply UInt8.toBitVec_inj.mp
    apply BitVec.eq_of_getLsbD_eq
    intro k hk
    obtain ⟨l, hl, rfl⟩ := aal.pos_surj hk
    have hdiv : (8 * i + l) / 8 = i := by omega
    have hmod : (8 * i + l) % 8 = l := by omega
    have htest : ∀ n : Bytes, aal.test n (8 * i + l) = (n i).toBitVec.getLsbD (aal.pos l) := by
      intro n
      unfold BitOrder.test
      rw [hdiv, hmod]
    have hbits : ¬(aal.test m (8 * i + l) = false ∧ aal.test m' (8 * i + l) = true) :=
      fun h => hno ⟨8 * i + l, hdiv, h⟩
    rw [htest, htest] at hbits
    rw [getLsbD_not_and _ _ hk]
    show _ = BitVec.getLsbD 0#8 _
    rw [BitVec.getLsbD_zero]
    cases h1 : (m i).toBitVec.getLsbD (aal.pos l) with
    | true => rfl
    | false =>
      cases h2 : (m' i).toBitVec.getLsbD (aal.pos l) with
      | true => exact absurd ⟨h1, h2⟩ hbits
      | false => rfl
  · rintro ⟨j, rfl, h1, h2⟩ hzero
    have := aal.pos_lt (j % 8) (Nat.mod_lt _ (by decide))
    have hbit := getLsbD_not_and (m (j / 8)) (m' (j / 8)) this
    unfold BitOrder.test at h1 h2
    rw [hzero, h1, h2] at hbit
    simp at hbit

/-- Clearing bits that are not asked for. -/
theorem AalBits.test_clear_foldl (aal : AalBits) {i : Nat} :
    ∀ (l : List Nat) (m : Bytes), i ∉ l → aal.test (l.foldl aal.clearBit m) i = aal.test m i
  | [], _, _ => rfl
  | j :: l, m, h => by
    rw [List.foldl_cons, test_clear_foldl aal l _ fun hl => h (List.mem_cons_of_mem _ hl),
      aal.test_clearBit]
    have : i ≠ j := fun he => h (by simp [he])
    simp [this]

/-- `reiser4_bitmap_invert` complements the set. -/
theorem invert_has (h : b.Sized) {i : Nat} (hi : i < b.total) :
    (reiser4BitmapInvert aal b).has aal i = !b.has aal i := by
  have hpos := aal.pos_lt (i % 8) (Nat.mod_lt _ (by decide))
  have htotal : (reiser4BitmapInvert aal b).total = b.total := rfl
  rw [Bitmap.has_of_lt (by rw [htotal]; exact hi), Bitmap.has_of_lt hi]
  unfold reiser4BitmapInvert
  rw [AalBits.test_clear_foldl aal _ _ (fun hmem => by
    have := (List.mem_range'_1.mp hmem).1
    omega)]
  unfold BitOrder.test
  dsimp only
  rw [if_pos (h.room hi)]
  simp [hpos]

end Specs
end Reiser4
