/-
  Resizing a bitmap (`reiser4_bitmap_resize`).

  The map is resized in bytes.  Where it gets longer, the bits behind the old last one are cleared first
  (up to `size * 8`, in 32 bits), and the counter stays; where it does not, the bits of the last byte are
  kept as they are, and the counter is computed anew.  So bits that a shorter length has cut off come
  back when the bitmap grows again within its last byte.

    1. `Resized`          the law;
    2. `resize_iff`       when a resize keeps it;
    3. `bitmap_resize_iff`   runs of resizes and of the other operations.
-/
import Reiser4.Bitmap.Runs

namespace Reiser4

open Reiser4.Lib

/-- `reiser4_bitmap_resize`. -/
def reiser4BitmapResize (aal : AalBits) (b : Bitmap) (len : Nat) : Option Bitmap :=
  let size := u32 (u64 (len + 7) / 8)
  if b.size < size then
    let map := Bytes.zero.copy 0 b.map 0 b.size
    -- the bits that were out of bounds; `size * 8` is computed in 32 bits
    let map := (List.range' b.total (u32 (b.size * 8) - b.total)).foldl aal.clearBit map
    some { b with map, total := len, size }
  else
    reiser4BitmapCalcMarked aal { b with map := Bytes.zero.copy 0 b.map 0 size, total := len, size }

/-- What a resize to `len` has to do: the bits below both lengths keep their values, and no bit at or
    above the old length is set. -/
structure Resized (aal : AalBits) (b : Bitmap) (len : Nat) (b' : Bitmap) : Prop where
  total : b'.total = len
  kept : ∀ i, i < b.total → i < len → b'.has aal i = b.has aal i
  clear : ∀ i, b.total ≤ i → b'.has aal i = false

/-- The bits of the map behind the last one, below `len`, are clear. -/
def Bitmap.SpareClear (aal : AalBits) (b : Bitmap) (len : Nat) : Prop :=
  ∀ i, b.total ≤ i → i < len → i < b.size * 8 → aal.test b.map i = false

/-- A resize that keeps the law: the new byte count fits its field, and a bitmap that gets longer gets at
    least a byte, with its old bits numbered in 32 bits, or has nothing behind its last bit. -/
def ResizeAllowed (aal : AalBits) (b : Bitmap) (len : Nat) : Prop :=
  len + 7 < 34359738368 ∧
    (b.total < len → (b.size < (len + 7) / 8 ∧ b.size * 8 < two32) ∨ b.SpareClear aal len)

section Specs

variable {aal : AalBits} {b b' : Bitmap} {len : Nat}

/-- The bytes of a map that are taken over. -/
theorem test_copied (map : Bytes) (size i : Nat) :
    aal.test (Bytes.zero.copy 0 map 0 size) i = (decide (i < size * 8) && aal.test map i) := by
  unfold BitOrder.test
  by_cases hi : i < size * 8
  · rw [decide_eq_true hi, Bool.true_and, Bytes.copy_in _ _ _ _ _ _ (Nat.zero_le _) (by omega)]
    simp
  · rw [decide_eq_false hi, Bool.false_and, Bytes.copy_out _ _ _ _ _ _ (Or.inr (by omega))]
    unfold Bytes.zero
    simp

theorem u32_size (h : len + 7 < 34359738368) : u32 (u64 (len + 7) / 8) = (len + 7) / 8 := by
  unfold u32 u64 two32
  omega

/-- A bit that is no more or not yet in the map is clear, in a longer map. -/
theorem resize_longer_test (h : b.Sized) {i : Nat} :
    aal.test ((List.range' b.total (u32 (b.size * 8) - b.total)).foldl aal.clearBit
      (Bytes.zero.copy 0 b.map 0 b.size)) i =
      (decide (i < b.size * 8) && aal.test b.map i &&
        (decide (i < b.total) || decide (two32 ≤ b.size * 8))) := by
  have h1 := h.1
  by_cases hi : i < b.total
  · rw [aal.test_clear_foldl _ _ (fun hmem => by have := (List.mem_range'_1.mp hmem).1; omega),
      test_copied, decide_eq_true hi, Bool.true_or, Bool.and_true]
  · rw [decide_eq_false hi, Bool.false_or]
    by_cases h32 : two32 ≤ b.size * 8
    · have hempty : u32 (b.size * 8) - b.total = 0 := by
        unfold u32 two32 at *
        omega
      rw [hempty, decide_eq_true h32, Bool.and_true]
      exact test_copied _ _ _
    · rw [decide_eq_false h32, Bool.and_false, u32_of_lt (by omega)]
      by_cases hin : i < b.size * 8
      · exact aal.test_clear_foldl_mem _ _ (List.mem_range'_1.mpr ⟨by omega, by omega⟩)
      · rw [aal.test_clear_foldl _ _ (fun hmem => by have := (List.mem_range'_1.mp hmem).2; omega),
          test_copied, decide_eq_false hin, Bool.false_and]

/-- Bits that are not set do not count. -/
theorem countP_range_longer {p : Nat → Bool} {n m : Nat} (hle : n ≤ m)
    (h : ∀ i, n ≤ i → i < m → p i = false) : (List.range m).countP p = (List.range n).countP p := by
  have hsplit := @countP_range_split p n (m - n) m (by omega)
  rw [countP_const_false (fun i h1 h2 => h i h1 (by omega)), Nat.add_sub_cancel' hle, Nat.sub_self,
    ← List.range_eq_range'] at hsplit
  simpa using hsplit

/-- The bitmap after a resize that takes no more bytes, but for its counter. -/
def shortened (b : Bitmap) (len : Nat) : Bitmap :=
  { b with map := Bytes.zero.copy 0 b.map 0 ((len + 7) / 8), total := len, size := (len + 7) / 8 }

/-- A resize that takes no more bytes computes the counter anew. -/
theorem resize_shorter (h : b.Sized) (hfit : len + 7 < 34359738368) (hle : (len + 7) / 8 ≤ b.size) :
    reiser4BitmapResize aal b len =
      some { shortened b len with marked := (shortened b len).count aal } := by
  have h2 := h.2
  have hsized : (shortened b len).Sized := by
    refine ⟨rfl, ?_⟩
    show (len + 7) / 8 < two32
    omega
  unfold reiser4BitmapResize
  dsimp only
  rw [u32_size hfit, if_neg (Nat.not_lt.mpr hle)]
  exact calcMarked_spec hsized

/-- Its bits are those of the map. -/
theorem shortened_has {i m : Nat} (hi : i < len) :
    Bitmap.has aal { shortened b len with marked := m } i = aal.test b.map i := by
  show (decide (i < len) && aal.test (Bytes.zero.copy 0 b.map 0 ((len + 7) / 8)) i) = _
  rw [decide_eq_true hi, test_copied, decide_eq_true (show i < (len + 7) / 8 * 8 by omega)]
  rfl

/-- **A resize keeps the law** and the counter exactly under the condition. -/
theorem resize_iff (h : b.WF aal) :
    ResizeAllowed aal b len ↔
      ∃ b', reiser4BitmapResize aal b len = some b' ∧ Resized aal b len b' ∧ b'.WF aal := by
  have h1 := h.sized.1
  have h2 := h.sized.2
  constructor
  · rintro ⟨hfit, hgrow⟩
    have hnew : (len + 7) / 8 < two32 := by
      unfold two32
      omega
    by_cases hlonger : b.size < (len + 7) / 8
    · -- a longer map: the counter stays, for there is nothing behind the old length
      have hrun : reiser4BitmapResize aal b len = some { b with
          map := (List.range' b.total (u32 (b.size * 8) - b.total)).foldl aal.clearBit
            (Bytes.zero.copy 0 b.map 0 b.size)
          total := len
          size := (len + 7) / 8 } := by
        unfold reiser4BitmapResize
        dsimp only
        rw [u32_size hfit, if_pos hlonger]
      obtain ⟨c, hc⟩ : ∃ c, c = { b with
          map := (List.range' b.total (u32 (b.size * 8) - b.total)).foldl aal.clearBit
            (Bytes.zero.copy 0 b.map 0 b.size)
          total := len
          size := (len + 7) / 8 } := ⟨_, rfl⟩
      rw [← hc] at hrun
      have htotal : c.total = len := by rw [hc]
      have hbeyond : ∀ i, b.total ≤ i → b.has aal i = false := by
        intro i hi
        unfold Bitmap.has
        rw [decide_eq_false (Nat.not_lt.mpr hi), Bool.false_and]
      have hhas : ∀ i, c.has aal i = b.has aal i := by
        intro i
        have htest : aal.test c.map i = (decide (i < b.size * 8) && aal.test b.map i &&
            (decide (i < b.total) || decide (two32 ≤ b.size * 8))) := by
          rw [hc]
          exact resize_longer_test h.sized
        by_cases hi : i < b.total
        · rw [Bitmap.has_of_lt (show i < c.total by omega), Bitmap.has_of_lt hi, htest, decide_eq_true hi,
            decide_eq_true (show i < b.size * 8 by omega), Bool.true_and, Bool.true_or, Bool.and_true]
        · rw [hbeyond i (by omega)]
          by_cases hl : i < len
          · rw [Bitmap.has_of_lt (show i < c.total by omega), htest, decide_eq_false hi, Bool.false_or]
            by_cases hin : i < b.size * 8
            · rcases hgrow (by omega) with ⟨-, h32⟩ | hspare
              · rw [decide_eq_false (show ¬two32 ≤ b.size * 8 by omega), Bool.and_false]
              · rw [hspare i (by omega) hl hin, Bool.and_false, Bool.false_and]
            · rw [decide_eq_false hin, Bool.false_and, Bool.false_and]
          · unfold Bitmap.has
            rw [decide_eq_false (by omega), Bool.false_and]
      refine ⟨c, hrun, ⟨htotal, fun i _ _ => hhas i, fun i hi => (hhas i).trans (hbeyond i hi)⟩, ?_, ?_⟩
      · rw [hc]
        exact ⟨rfl, hnew⟩
      · have hlong : (List.range len).countP (c.has aal) = (List.range b.total).countP (c.has aal) :=
          countP_range_longer (by omega) fun i hi _ => (hhas i).trans (hbeyond i hi)
        have hsame : c.has aal = b.has aal := funext hhas
        show c.marked = (List.range c.total).countP _
        rw [htotal, hlong, hsame, hc]
        exact h.marked
    · -- no more bytes: the counter is computed anew
      have hkept : ∀ i, i < len → Bitmap.has aal
          { shortened b len with marked := (shortened b len).count aal } i = aal.test b.map i :=
        fun i hi => shortened_has hi
      refine ⟨_, resize_shorter h.sized hfit (Nat.not_lt.mp hlonger),
        ⟨rfl, fun i hi hl => ?_, fun i hi => ?_⟩, ⟨⟨rfl, hnew⟩, rfl⟩⟩
      · rw [hkept i hl, Bitmap.has_of_lt hi]
      · by_cases hl : i < len
        · rw [hkept i hl]
          rcases hgrow (by omega) with ⟨hmore, -⟩ | hspare
          · exact absurd hmore hlonger
          · exact hspare i hi hl (by omega)
        · exact Bool.and_eq_false_iff.mpr (Or.inl (decide_eq_false hl))
  · rintro ⟨b', hb', hlaw, hwf⟩
    -- the byte count that is stored is the one the length needs
    have hfit : len + 7 < 34359738368 := by
      have h3 := hwf.sized.1
      have h4 := hwf.sized.2
      rw [hlaw.total] at h3
      unfold two32 at h4
      omega
    refine ⟨hfit, fun hlt => ?_⟩
    by_cases hlonger : b.size < (len + 7) / 8
    · by_cases h32 : b.size * 8 < two32
      · exact Or.inl ⟨hlonger, h32⟩
      · -- the bits behind the last one have been taken over
        refine Or.inr fun i hlo hi hin => ?_
        unfold reiser4BitmapResize at hb'
        dsimp only at hb'
        rw [u32_size hfit, if_pos hlonger] at hb'
        have hclear := hlaw.clear i hlo
        rw [← Option.some.inj hb', Bitmap.has_of_lt (show i < len from hi)] at hclear
        have htest := @resize_longer_test aal b h.sized i
        rw [decide_eq_true hin, decide_eq_true (show two32 ≤ b.size * 8 by omega), Bool.true_and,
          Bool.or_true, Bool.and_true] at htest
        rw [← htest]
        exact hclear
    · refine Or.inr fun i hlo hi hin => ?_
      rw [resize_shorter h.sized hfit (Nat.not_lt.mp hlonger)] at hb'
      have hclear := hlaw.clear i hlo
      rw [← Option.some.inj hb', shortened_has hi] at hclear
      exact hclear

end Specs

/-! ## All runs -/

/-- A resize, or one of the other operations. -/
inductive ResizeOp
  | resize (len : Nat)
  | op (op : BitmapOp)

namespace ResizeOp

def apply (aal : AalBits) (b : Bitmap) : ResizeOp → Option Bitmap
  | resize len => reiser4BitmapResize aal b len
  | op o => o.apply aal b

/-- The arguments are 64-bit numbers. -/
def Word : ResizeOp → Prop
  | resize len => len < two64
  | op o => o.Word

/-- The condition under which a step does what it is meant to do. -/
def Allowed (aal : AalBits) (b : Bitmap) : ResizeOp → Prop
  | resize len => ResizeAllowed aal b len
  | op o => o.NoWrap b

/-- What a step has to do. -/
def Does (aal : AalBits) (b : Bitmap) : ResizeOp → Bitmap → Prop
  | resize len, b' => Resized aal b len b'
  | op o, b' => o.Outside b → b' = b

end ResizeOp

/-- **The resize law**: in a run of resizes and other operations every resize keeps the bits below both
    lengths, sets none at or above the old one, and the counter is right throughout, exactly when every
    step meets its condition. -/
theorem bitmap_resize_iff (aal : AalBits) (b : Bitmap) (ops : List ResizeOp) (h : b.WF aal)
    (hw : ∀ op ∈ ops, op.Word) :
    Steps.Safe (ResizeOp.apply aal) (Bitmap.WF aal) (ResizeOp.Does aal) b ops ↔
      Steps.Allowed (ResizeOp.apply aal) (ResizeOp.Allowed aal) b ops := by
  refine Steps.safe_iff_allowed (W := ResizeOp.Word) (fun b op hb hop => ?_) h hw
  cases op with
  | resize len => exact resize_iff hb
  | op o => exact BitmapOp.apply_wf hb hop

/-- A bitmap of 12 bits grows to 20 and shrinks to 9. -/
theorem bitmap_resize_sample :
    Steps.Safe (ResizeOp.apply AalBits.plain) (Bitmap.WF AalBits.plain) (ResizeOp.Does AalBits.plain)
      (reiser4BitmapCreate 12) [.resize 20, .op (.mark 19), .resize 9] := by
  refine (bitmap_resize_iff AalBits.plain (reiser4BitmapCreate 12)
    [.resize 20, .op (.mark 19), .resize 9] (create_clean _ (by decide)).wf ?_).mpr ?_
  · intro op hop
    obtain rfl | rfl | rfl : op = .resize 20 ∨ op = .op (.mark 19) ∨ op = .resize 9 := by
      simpa using hop
    · show 20 < two64
      decide
    · show 19 < two64
      decide
    · show 9 < two64
      decide
  · have hgrow : ResizeAllowed AalBits.plain (reiser4BitmapCreate 12) 20 :=
      ⟨by decide, fun _ => Or.inl ⟨by decide, by decide⟩⟩
    refine ⟨hgrow, fun b hb => ⟨trivial, fun c hc => ⟨⟨by decide, fun hlt => absurd hlt ?_⟩, fun _ _ =>
      trivial⟩⟩⟩
    obtain ⟨b', hb', hlaw, -⟩ := (resize_iff (create_clean AalBits.plain (by decide)).wf).mp hgrow
    obtain rfl : b' = b := Option.some.inj (hb'.symm.trans hb)
    rw [(mark_size hc).1, hlaw.total]
    decide

/-- Bit 2 is cut off by a length of one bit and comes back with one of 4. -/
theorem bitmap_resize_fail :
    ¬Steps.Safe (ResizeOp.apply AalBits.plain) (Bitmap.WF AalBits.plain) (ResizeOp.Does AalBits.plain)
      (reiser4BitmapCreate 4) [.op (.mark 2), .resize 1, .resize 4] := by
  rintro ⟨-, b, hb, -, -, c, hc, -, hcwf, d, hd, hlaw, -⟩
  have hmark : reiser4BitmapMark AalBits.plain (reiser4BitmapCreate 4) 2 = some b := hb
  obtain ⟨b', hb', hbwf, -⟩ := mark_wf (@create_clean AalBits.plain 4 (by decide)).wf 2
  obtain rfl : b' = b := Option.some.inj (hb'.symm.trans hmark)
  have hbit : AalBits.plain.test b'.map 2 = true := by
    rw [← Option.some.inj hmark]
    decide
  have hsize : b'.size = 1 := by
    rw [(mark_size hmark).2]
    decide
  have hshort := @resize_shorter AalBits.plain b' 1 hbwf.sized (by decide) (by omega)
  obtain rfl := Option.some.inj (hshort.symm.trans hc)
  have hback := @resize_shorter AalBits.plain _ 4 hcwf.sized (by decide)
    (show (4 + 7) / 8 ≤ (1 + 7) / 8 by decide)
  have hclear := hlaw.clear 2 (show 1 ≤ 2 by decide)
  rw [← Option.some.inj (hback.symm.trans hd), shortened_has (by decide)] at hclear
  have hcopy := @test_copied AalBits.plain b'.map 1 2
  rw [hbit] at hcopy
  exact Bool.false_ne_true (hclear.symm.trans hcopy)

end Reiser4
