/-
  Any sequence of bitmap operations.

  The counter of a bitmap is kept up to date by the bits that an operation finds, so it stays right as
  long as every operation writes the bits it was meant to write.  Two do not always:

    * the bound checks of a region look at its first and its last bit; the number of the last bit is
      computed in 64 bits, and a region that runs over the end of the numbers passes for a short one;
    * `reiser4_bitmap_invert` clears what it has set behind the last bit, up to `size * 8`, which is
      computed in 32 bits.

  `NoWrap` and `Allowed` say when this does not happen.

    1. `BitmapOp.apply_wf`     a single operation and the counter;
    2. `BitmapOp.apply_clean`  and the bits behind the last one;
    3. `bitmap_counters_iff`   all runs.
-/
import Reiser4.Bitmap
import Reiser4.Key
import Reiser4.Lib.Steps

namespace Reiser4

open Reiser4.Lib

/-- The operations on a bitmap. -/
inductive BitmapOp
  | mark (bit : Nat)
  | clear (bit : Nat)
  | markRegion (start count : Nat)
  | clearRegion (start count : Nat)
  | invert
  | clone

namespace BitmapOp

/-- The bitmap the run goes on with; for `clone` that is the clone. -/
def apply (aal : AalBits) (b : Bitmap) : BitmapOp → Option Bitmap
  | mark bit => reiser4BitmapMark aal b bit
  | clear bit => reiser4BitmapClear aal b bit
  | markRegion start count => reiser4BitmapMarkRegion aal b start count
  | clearRegion start count => reiser4BitmapClearRegion aal b start count
  | invert => some (reiser4BitmapInvert aal b)
  | clone => some (reiser4BitmapClone b)

/-- The arguments are 64-bit numbers. -/
def Word : BitmapOp → Prop
  | mark bit | clear bit => bit < two64
  | markRegion start count | clearRegion start count => start < two64 ∧ count < two64
  | invert | clone => True

/-- What the operation is asked to change does not lie inside the bitmap. -/
def Outside (b : Bitmap) : BitmapOp → Prop
  | mark bit | clear bit => b.total ≤ bit
  | markRegion start count | clearRegion start count => b.total < start + count
  | invert | clone => False

/-- The number of the last bit of a region is not above the 64-bit numbers, unless the first one is
    already refused. -/
def NoWrap (b : Bitmap) : BitmapOp → Prop
  | markRegion start count | clearRegion start count => start < b.total → start + count ≤ two64
  | mark _ | clear _ | invert | clone => True

/-- The bits of the map can be numbered in 32 bits, or all of them are bits of the bitmap. -/
def Masked (b : Bitmap) : BitmapOp → Prop
  | invert => b.size * 8 < two32 ∨ b.total % 8 = 0
  | mark _ | clear _ | markRegion _ _ | clearRegion _ _ | clone => True

/-- The condition under which an operation does what it is meant to do. -/
def Allowed (b : Bitmap) (op : BitmapOp) : Prop := op.NoWrap b ∧ op.Masked b

end BitmapOp

/-- A bitmap whose counter is right and that has no bit set behind its last one. -/
structure Bitmap.Clean (aal : AalBits) (b : Bitmap) : Prop where
  wf : b.WF aal
  beyond : ∀ i, b.total ≤ i → i < b.size * 8 → aal.test b.map i = false

section Specs

variable {aal : AalBits} {b b' : Bitmap}

/-! ## Single bits -/

/-- A change of one bit changes the count by one. -/
theorem Bitmap.count_of_bit {bit : Nat} (hbit : bit < b.total) (htotal : b'.total = b.total)
    (hout : ∀ i, i ≠ bit → b'.has aal i = b.has aal i) :
    b'.count aal + (if b.has aal bit then 1 else 0) =
      b.count aal + (if b'.has aal bit then 1 else 0) := by
  have h := @Bitmap.count_of_region aal b b' bit 1 hbit htotal fun i hi => hout i (by omega)
  simpa [List.countP_cons] using h

theorem mark_wf (h : b.WF aal) (bit : Nat) : ∃ b', reiser4BitmapMark aal b bit = some b' ∧
    b'.WF aal ∧ (b.total ≤ bit → b' = b) ∧ b'.size = b.size ∧ b'.total = b.total ∧
      ∀ i, i ≠ bit → aal.test b'.map i = aal.test b.map i := by
  unfold reiser4BitmapMark
  by_cases hle : b.total ≤ bit
  · rw [if_pos hle]
    exact ⟨b, rfl, h, fun _ => rfl, rfl, rfl, fun _ _ => rfl⟩
  have hlt : bit < b.total := Nat.lt_of_not_le hle
  rw [if_neg hle, if_pos (h.sized.room hlt)]
  by_cases ht : aal.test b.map bit = true
  · rw [if_pos ht]
    exact ⟨b, rfl, h, fun _ => rfl, rfl, rfl, fun _ _ => rfl⟩
  · rw [if_neg ht]
    have htest : ∀ i, i ≠ bit → aal.test (aal.setBit b.map bit) i = aal.test b.map i := by
      intro i hi
      rw [aal.test_setBit, decide_eq_false hi, Bool.false_or]
    refine ⟨_, rfl, ⟨h.sized, ?_⟩, fun hge => absurd hge hle, rfl, rfl, htest⟩
    have hcount := @Bitmap.count_of_bit aal b
      { b with map := aal.setBit b.map bit, marked := b.marked + 1 } bit hlt rfl fun i hi => by
        show (decide (i < b.total) && aal.test (aal.setBit b.map bit) i) = _
        rw [htest i hi]
        rfl
    have hbefore : b.has aal bit = false := by
      rw [Bitmap.has_of_lt hlt]
      simpa using ht
    have hafter : Bitmap.has aal { b with map := aal.setBit b.map bit, marked := b.marked + 1 } bit =
        true := by
      show (decide (bit < b.total) && aal.test (aal.setBit b.map bit) bit) = true
      rw [aal.test_setBit, decide_eq_true hlt, decide_eq_true rfl]
      rfl
    rw [hbefore, hafter, if_neg Bool.false_ne_true, if_pos rfl, Nat.add_zero] at hcount
    rw [hcount]
    exact congrArg (· + 1) h.marked

theorem clear_wf (h : b.WF aal) (bit : Nat) : ∃ b', reiser4BitmapClear aal b bit = some b' ∧
    b'.WF aal ∧ (b.total ≤ bit → b' = b) ∧ b'.size = b.size ∧ b'.total = b.total ∧
      ∀ i, i ≠ bit → aal.test b'.map i = aal.test b.map i := by
  unfold reiser4BitmapClear
  by_cases hle : b.total ≤ bit
  · rw [if_pos hle]
    exact ⟨b, rfl, h, fun _ => rfl, rfl, rfl, fun _ _ => rfl⟩
  have hlt : bit < b.total := Nat.lt_of_not_le hle
  rw [if_neg hle, if_pos (h.sized.room hlt)]
  by_cases ht : aal.test b.map bit = true
  · rw [if_pos ht]
    have htest : ∀ i, i ≠ bit → aal.test (aal.clearBit b.map bit) i = aal.test b.map i := by
      intro i hi
      rw [aal.test_clearBit, decide_eq_false hi, Bool.not_false, Bool.true_and]
    refine ⟨_, rfl, ⟨h.sized, ?_⟩, fun hge => absurd hge hle, rfl, rfl, htest⟩
    have hcount := @Bitmap.count_of_bit aal b
      { b with map := aal.clearBit b.map bit, marked := b.marked - 1 } bit hlt rfl fun i hi => by
        show (decide (i < b.total) && aal.test (aal.clearBit b.map bit) i) = _
        rw [htest i hi]
        rfl
    have hbefore : b.has aal bit = true := by rw [Bitmap.has_of_lt hlt, ht]
    have hafter : Bitmap.has aal { b with map := aal.clearBit b.map bit, marked := b.marked - 1 } bit =
        false := by
      show (decide (bit < b.total) && aal.test (aal.clearBit b.map bit) bit) = false
      rw [aal.test_clearBit, decide_eq_true rfl, Bool.not_true, Bool.false_and, Bool.and_false]
    rw [hbefore, hafter, if_pos rfl, if_neg Bool.false_ne_true, Nat.add_zero] at hcount
    have := h.marked
    show b.marked - 1 = _
    omega
  · rw [if_neg ht]
    exact ⟨b, rfl, h, fun _ => rfl, rfl, rfl, fun _ _ => rfl⟩

/-! ## Regions -/

/-- A region routine whose region does not wrap is defined. -/
theorem region_some (h : b.Sized) {start count : Nat} {marked : Bool} {f : Nat → Bitmap}
    (hwrap : start < b.total → start + count ≤ two64) :
    ∃ b', (if b.bounded start count then do
        let num ← reiser4BitmapCalc aal b start count marked
        if b.holds start count then some (f num) else none
      else some b) = some b' := by
  have htotal := h.total_lt
  by_cases hb : b.bounded start count
  · rw [if_pos hb]
    have hle : start + count ≤ b.total ∧ b.holds start count := by
      by_cases h0 : count = 0
      · have := hb.1
        exact ⟨by omega, Or.inl h0⟩
      · have h1 := hwrap hb.1
        have h2 := hb.2
        unfold u64 invalBlk at h2
        unfold two64 at h1
        have hle : start + count ≤ b.total := by omega
        exact ⟨hle, ((bounded_iff h (Nat.pos_of_ne_zero h0)).mpr hle).2⟩
    rw [calc_spec h hle.1]
    exact ⟨f _, if_pos hle.2⟩
  · rw [if_neg hb]
    exact ⟨b, rfl⟩

/-- One that wraps leaves the map. -/
theorem region_none (h : b.Sized) {start count : Nat} {marked : Bool} {f : Nat → Bitmap}
    (hcount : count < two64) (hstart : start < b.total) (hwrap : two64 < start + count) :
    (if b.bounded start count then do
        let num ← reiser4BitmapCalc aal b start count marked
        if b.holds start count then some (f num) else none
      else some b) = none := by
  have htotal := h.total_lt
  have hsize := h.2
  have hb : b.bounded start count := by
    refine ⟨hstart, ?_⟩
    unfold u64 invalBlk
    unfold two64 at hcount hwrap
    omega
  have hm : ¬b.holds start count := by
    unfold Bitmap.holds
    unfold two64 at hwrap
    unfold two32 at hsize
    omega
  rw [if_pos hb]
  cases reiser4BitmapCalc aal b start count marked with
  | none => rfl
  | some num => exact if_neg hm

/-- A region routine, of either kind: it is defined unless the region wraps, and a region that is not in
    the bitmap changes nothing. -/
theorem region_iff (h : b.Sized) {start count : Nat} (hcount : count < two64) {marked : Bool}
    {f : Nat → Bitmap} {R : Option Bitmap}
    (hR : R = if b.bounded start count then do
        let num ← reiser4BitmapCalc aal b start count marked
        if b.holds start count then some (f num) else none
      else some b) :
    (start < b.total → start + count ≤ two64) ↔ ∃ b', R = some b' ∧ (b.total < start + count → b' = b) := by
  subst hR
  constructor
  · intro hwrap
    obtain ⟨b', hb'⟩ := @region_some aal b h start count marked f hwrap
    refine ⟨b', hb', fun hout => ?_⟩
    rcases region_cases h hb' with ⟨hle, -⟩ | ⟨heq, -⟩
    · omega
    · exact heq
  · rintro ⟨b', hb', -⟩ hstart
    by_contra hwrap
    rw [region_none h hcount hstart (by omega)] at hb'
    cases hb'

/-! ## Whole maps -/

/-- A bit that is asked for is clear afterwards. -/
theorem AalBits.test_clear_foldl_mem (aal : AalBits) {i : Nat} :
    ∀ (l : List Nat) (m : Bytes), i ∈ l → aal.test (l.foldl aal.clearBit m) i = false
  | [], _, h => absurd h List.not_mem_nil
  | j :: l, m, h => by
    rw [List.foldl_cons]
    by_cases hl : i ∈ l
    · exact test_clear_foldl_mem aal l _ hl
    · have hj : i = j := (List.mem_cons.mp h).resolve_right hl
      rw [aal.test_clear_foldl l _ hl, aal.test_clearBit, decide_eq_true hj, Bool.not_true, Bool.false_and]

theorem countP_not (p : Nat → Bool) (l : List Nat) :
    l.countP (fun i => !p i) + l.countP p = l.length := by
  induction l with
  | nil => rfl
  | cons a l ih =>
    rw [List.countP_cons, List.countP_cons, List.length_cons]
    cases p a <;> simp <;> omega

/-- Inverting a bitmap keeps its counter right. -/
theorem invert_wf (h : b.WF aal) : (reiser4BitmapInvert aal b).WF aal := by
  refine ⟨h.sized, ?_⟩
  have hcongr : (reiser4BitmapInvert aal b).count aal =
      (List.range b.total).countP fun i => !b.has aal i := by
    unfold Bitmap.count
    exact List.countP_congr fun i hi => by rw [invert_has h.sized (List.mem_range.mp hi)]
  have hnot := countP_not (b.has aal) (List.range b.total)
  rw [List.length_range] at hnot
  have hmarked : b.marked = (List.range b.total).countP (b.has aal) := h.marked
  rw [hcongr]
  show b.total - b.marked = _
  omega

/-- What it leaves behind the last bit: nothing, where the 32-bit numbers go that far. -/
theorem invert_beyond (h : b.Sized) {i : Nat} (hlo : b.total ≤ i) (hi : i < b.size * 8) :
    aal.test (reiser4BitmapInvert aal b).map i =
      if b.size * 8 < two32 then false else !aal.test b.map i := by
  have h1 := h.1
  show aal.test ((List.range' b.total (u32 (b.size * 8) - b.total)).foldl aal.clearBit _) i = _
  by_cases h32 : b.size * 8 < two32
  · rw [if_pos h32, u32_of_lt h32]
    exact aal.test_clear_foldl_mem _ _ (List.mem_range'_1.mpr ⟨hlo, by omega⟩)
  · have hempty : u32 (b.size * 8) - b.total = 0 := by
      unfold u32 two32 at *
      omega
    rw [if_neg h32, hempty]
    show aal.test (fun i => if i < b.size then ~~~b.map i else b.map i) i = _
    have hpos := aal.pos_lt (i % 8) (Nat.mod_lt _ (by decide))
    have hroom : i / 8 < b.size := by omega
    unfold BitOrder.test
    simp [hpos, hroom]

/-- The clone has the bits of the bitmap. -/
theorem clone_test (h : b.Sized) {i : Nat} (hi : i < b.size * 8) :
    aal.test (reiser4BitmapClone b).map i = aal.test b.map i := by
  unfold BitOrder.test
  rw [(clone_spec h).2.2 _ (by omega)]

theorem clone_wf (h : b.WF aal) : (reiser4BitmapClone b).WF aal := by
  refine ⟨(clone_spec h.sized).1, ?_⟩
  have h1 := h.sized.1
  show b.marked = (List.range b.total).countP _
  rw [h.marked]
  refine List.countP_congr fun i hi => ?_
  have hi := List.mem_range.mp hi
  rw [Bitmap.has_of_lt hi, Bitmap.has_of_lt (show i < (reiser4BitmapClone b).total from hi),
    clone_test h.sized (by omega)]

/-! ## One operation -/

/-- **An operation keeps the counter right** exactly where its region does not wrap; it changes nothing
    where it is asked for something outside. -/
theorem BitmapOp.apply_wf (h : b.WF aal) {op : BitmapOp} (hw : op.Word) :
    op.NoWrap b ↔ ∃ b', op.apply aal b = some b' ∧ (op.Outside b → b' = b) ∧ b'.WF aal := by
  cases op with
  | mark bit =>
    obtain ⟨b', hb', hwf, hsame, -⟩ := mark_wf h bit
    exact ⟨fun _ => ⟨b', hb', hsame, hwf⟩, fun _ => trivial⟩
  | clear bit =>
    obtain ⟨b', hb', hwf, hsame, -⟩ := clear_wf h bit
    exact ⟨fun _ => ⟨b', hb', hsame, hwf⟩, fun _ => trivial⟩
  | markRegion start count =>
    have hiff := @region_iff aal b h.sized start count hw.2 false _
      (reiser4BitmapMarkRegion aal b start count) rfl
    constructor
    · intro hwrap
      obtain ⟨b', hb', hsame⟩ := hiff.mp hwrap
      exact ⟨b', hb', hsame, (markRegion_spec h hb').1⟩
    · rintro ⟨b', hb', hsame, -⟩
      exact hiff.mpr ⟨b', hb', hsame⟩
  | clearRegion start count =>
    have hiff := @region_iff aal b h.sized start count hw.2 true _
      (reiser4BitmapClearRegion aal b start count) rfl
    constructor
    · intro hwrap
      obtain ⟨b', hb', hsame⟩ := hiff.mp hwrap
      exact ⟨b', hb', hsame, (clearRegion_spec h hb').1⟩
    · rintro ⟨b', hb', hsame, -⟩
      exact hiff.mpr ⟨b', hb', hsame⟩
  | invert => exact ⟨fun _ => ⟨_, rfl, False.elim, invert_wf h⟩, fun _ => trivial⟩
  | clone => exact ⟨fun _ => ⟨_, rfl, False.elim, clone_wf h⟩, fun _ => trivial⟩

/-- The bits behind the last one, after an operation that is defined. -/
theorem BitmapOp.apply_beyond (h : b.Clean aal) {op : BitmapOp} (hb' : op.apply aal b = some b') :
    op.Masked b ↔ ∀ i, b'.total ≤ i → i < b'.size * 8 → aal.test b'.map i = false := by
  cases op with
  | mark bit =>
    refine ⟨fun _ => ?_, fun _ => trivial⟩
    obtain ⟨c, hc, -, hsame, hsize, htotal, htest⟩ := mark_wf h.wf bit
    obtain rfl : c = b' := Option.some.inj (hc.symm.trans hb')
    intro i hlo hi
    rw [htotal] at hlo
    rw [hsize] at hi
    by_cases hout : b.total ≤ bit
    · rw [hsame hout]
      exact h.beyond i hlo hi
    · rw [htest i (by omega)]
      exact h.beyond i hlo hi
  | clear bit =>
    refine ⟨fun _ => ?_, fun _ => trivial⟩
    obtain ⟨c, hc, -, hsame, hsize, htotal, htest⟩ := clear_wf h.wf bit
    obtain rfl : c = b' := Option.some.inj (hc.symm.trans hb')
    intro i hlo hi
    rw [htotal] at hlo
    rw [hsize] at hi
    by_cases hout : b.total ≤ bit
    · rw [hsame hout]
      exact h.beyond i hlo hi
    · rw [htest i (by omega)]
      exact h.beyond i hlo hi
  | markRegion start count =>
    refine ⟨fun _ i hlo hi => ?_, fun _ => trivial⟩
    rcases region_cases h.wf.sized hb' with ⟨hle, heq⟩ | ⟨heq, -⟩
    · rw [heq] at hlo hi ⊢
      have hlo' : b.total ≤ i := hlo
      show aal.test (aal.setBits b.map start count) i = false
      rw [aal.test_setBits, decide_eq_false (by omega), Bool.false_or]
      exact h.beyond i hlo' hi
    · rw [heq] at hlo hi ⊢
      exact h.beyond i hlo hi
  | clearRegion start count =>
    refine ⟨fun _ i hlo hi => ?_, fun _ => trivial⟩
    rcases region_cases h.wf.sized hb' with ⟨hle, heq⟩ | ⟨heq, -⟩
    · rw [heq] at hlo hi ⊢
      show aal.test (aal.clearBits b.map start count) i = false
      rw [aal.test_clearBits, h.beyond i hlo hi, Bool.and_false]
    · rw [heq] at hlo hi ⊢
      exact h.beyond i hlo hi
  | invert =>
    obtain rfl : reiser4BitmapInvert aal b = b' := Option.some.inj hb'
    have hsize := h.wf.sized.1
    constructor
    · intro hmask i hlo hi
      have hlo' : b.total ≤ i := hlo
      have hi' : i < b.size * 8 := hi
      rw [invert_beyond h.wf.sized hlo hi]
      rcases hmask with h32 | hfull
      · rw [if_pos h32]
      · omega
    · intro hclear
      by_contra hmask
      have hmask : ¬(b.size * 8 < two32 ∨ b.total % 8 = 0) := hmask
      have hlast := hclear b.total (Nat.le_refl _) (show b.total < b.size * 8 by omega)
      rw [invert_beyond h.wf.sized (Nat.le_refl _) (by omega), if_neg (fun h32 => hmask (Or.inl h32)),
        h.beyond _ (Nat.le_refl _) (by omega)] at hlast
      cases hlast
  | clone =>
    refine ⟨fun _ i hlo hi => ?_, fun _ => trivial⟩
    obtain rfl : reiser4BitmapClone b = b' := Option.some.inj hb'
    rw [(clone_spec h.wf.sized).2.1] at hi
    rw [clone_test h.wf.sized hi]
    exact h.beyond i hlo hi

theorem BitmapOp.apply_clean (h : b.Clean aal) {op : BitmapOp} (hw : op.Word) :
    op.Allowed b ↔ ∃ b', op.apply aal b = some b' ∧ (op.Outside b → b' = b) ∧ b'.Clean aal := by
  constructor
  · rintro ⟨hwrap, hmask⟩
    obtain ⟨b', hb', hsame, hwf⟩ := (apply_wf h.wf hw).mp hwrap
    exact ⟨b', hb', hsame, hwf, (apply_beyond h hb').mp hmask⟩
  · rintro ⟨b', hb', hsame, hclean⟩
    exact ⟨(apply_wf h.wf hw).mpr ⟨b', hb', hsame, hclean.wf⟩, (apply_beyond h hb').mpr hclean.beyond⟩

end Specs

/-! ## All runs -/

/-- **The counter of a bitmap**: a run of operations keeps it right and sets no bit behind the last one,
    and what lies outside the bitmap changes nothing, exactly when no region wraps and every inversion
    can mask the last byte. -/
theorem bitmap_counters_iff (aal : AalBits) (b : Bitmap) (ops : List BitmapOp) (h : b.Clean aal)
    (hw : ∀ op ∈ ops, op.Word) :
    Steps.Safe (BitmapOp.apply aal) (Bitmap.Clean aal)
        (fun b op b' => op.Outside b → b' = b) b ops ↔
      Steps.Allowed (BitmapOp.apply aal) BitmapOp.Allowed b ops :=
  Steps.safe_iff_allowed (W := BitmapOp.Word) (fun _ _ hb hop => BitmapOp.apply_clean hb hop) h hw

/-- A new bitmap is clean. -/
theorem create_clean (aal : AalBits) {len : Nat} (h : len + 7 < 34359738368) :
    (reiser4BitmapCreate len).Clean aal where
  wf :=
    { sized := by
        have hsize : (reiser4BitmapCreate len).size = (len + 7) / 8 := by
          show u32 (u64 (len + 7) / 8) = _
          unfold u32 u64 two32
          omega
        refine ⟨hsize, ?_⟩
        rw [hsize]
        unfold two32
        omega
      marked := by
        have hzero : ∀ i, (reiser4BitmapCreate len).has aal i = false := by
          intro i
          show (_ && aal.test Bytes.zero i) = false
          rw [BitOrder.test_zero, Bool.and_false]
        show 0 = (List.range len).countP _
        exact (List.countP_eq_zero.mpr fun i _ => by rw [hzero]; exact Bool.false_ne_true).symm }
  beyond := fun i _ _ => BitOrder.test_zero _ i

theorem bitmap_counters_sample :
    Steps.Safe (BitmapOp.apply AalBits.plain) (Bitmap.Clean AalBits.plain)
      (fun b op b' => op.Outside b → b' = b) (reiser4BitmapCreate 12) [.markRegion 3 5, .invert] := by
  refine (bitmap_counters_iff AalBits.plain (reiser4BitmapCreate 12) [.markRegion 3 5, .invert]
    (create_clean _ (by decide)) ?_).mpr ?_
  · intro op hop
    obtain rfl | rfl : op = .markRegion 3 5 ∨ op = .invert := by simpa using hop
    · exact ⟨by decide, by decide⟩
    · trivial
  · refine ⟨⟨fun _ => by decide, trivial⟩, fun b' hb' => ⟨⟨trivial, Or.inl ?_⟩, fun _ _ => trivial⟩⟩
    rw [(markRegion_size hb').2]
    decide

/-- In a bitmap of 16 bits the region from bit 8 with `2 ^ 64 - 1` bits passes the checks, although it
    leaves the bitmap. -/
theorem bitmap_counters_fail :
    ¬Steps.Safe (BitmapOp.apply AalBits.plain) (Bitmap.Clean AalBits.plain)
      (fun b op b' => op.Outside b → b' = b) (reiser4BitmapCreate 16)
      [.markRegion 8 18446744073709551615] := by
  rintro ⟨-, b', hb', -⟩
  have hnone : reiser4BitmapMarkRegion AalBits.plain (reiser4BitmapCreate 16) 8 18446744073709551615 =
      none := rfl
  have hsome : reiser4BitmapMarkRegion AalBits.plain (reiser4BitmapCreate 16) 8 18446744073709551615 =
      some b' := hb'
  rw [hnone] at hsome
  cases hsome

end Reiser4
