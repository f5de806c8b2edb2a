/-
  The byte count of `extent40_trunc_units`.

  `hint->bytes` is what `obj40_truncate` takes off the bytes field of the stat data, so it is to be what
  `extent40_bytes` of the item has lost.  In every round the blocks of the unit are counted unless they
  are a hole; where the unit goes in part, they are counted once more, hole or not.  So the count is right
  exactly when no unit goes in part.
-/
import Reiser4.Extent40.TruncLaw

namespace Reiser4

open Reiser4.Lib

/-- The routine returns, and its count is what the item's own has lost. -/
def AccountsWell (a : TruncArgs) (calls : Calls) : Prop :=
  ∃ r calls', (extent40TruncUnits noteDrop noteFree noteRegion a).run calls = some (.ok r, calls') ∧
    r.bytes + extent40Bytes a.blksize (unitsAt r.mem a.body (a.units - r.len / 16)) =
      extent40Bytes a.blksize a.extents

namespace TruncArgs

/-- The blocks skipped in the first round: none if the size is not the count, as 32-bit numbers. -/
def skipBlocks (a : TruncArgs) : Nat := if sizeInt32 a.cutCount = a.cutCount then a.epos else 0

/-- The units the loop meets have 32-bit numbers. -/
def Narrow (a : TruncArgs) : Prop :=
  ∀ e ∈ cutUnits (a.skipBlocks + a.loopBlocks) (a.extents.drop a.pos), e.Small

/-- No unit goes in part: the loop has no block to go for, or skips all blocks of the unit and takes
    none, or skips none and ends where a unit ends. -/
def WholeUnits (a : TruncArgs) : Prop :=
  a.loopBlocks = 0 ∨ (∃ e ∈ (a.extents.drop a.pos).head?, a.skipBlocks = e.width) ∨
    (a.skipBlocks = 0 ∧ ∃ k, a.loopBlocks = totalWidth ((a.extents.drop a.pos).take k))

end TruncArgs

section Accounting

variable {a : TruncArgs} {calls : Calls}

theorem credit_le_width (e : ExtentUnit) : e.credit ≤ e.width := by
  unfold ExtentUnit.credit creditOf
  split
  · exact Nat.zero_le _
  · exact Nat.le_refl _

theorem allocBlocks_le (us : List ExtentUnit) : allocBlocks us ≤ totalWidth us := by
  induction us with
  | nil => exact Nat.le_refl _
  | cons e us ih =>
    rw [allocBlocks_cons, totalWidth_cons]
    exact Nat.add_le_add (credit_le_width e) ih

/-- The item loses `lost` allocated blocks, and `lost` and `extra` are counted: the count is right if
    there is nothing extra. -/
theorem accounts_iff (h : a.WF) {us : List ExtentUnit} {bytes lost extra : Nat}
    (halloc : allocBlocks us + lost = allocBlocks a.extents)
    (hbytes : bytes = u64 ((lost + extra) * a.blksize)) (hextra : extra * a.blksize < 2147483648) :
    bytes + extent40Bytes a.blksize us = extent40Bytes a.blksize a.extents ↔ extra = 0 := by
  have hfits := h.fits
  have hle := Nat.mul_le_mul_right a.blksize (allocBlocks_le a.extents)
  have hsum : allocBlocks us * a.blksize + lost * a.blksize = allocBlocks a.extents * a.blksize := by
    rw [← Nat.add_mul, halloc]
  have hzero : extra = 0 ↔ extra * a.blksize = 0 := by
    rw [Nat.mul_eq_zero]
    have := h.blksize
    omega
  have hbefore : extent40Bytes a.blksize a.extents = allocBlocks a.extents * a.blksize :=
    u64_of_lt (by omega)
  have hafter : extent40Bytes a.blksize us = allocBlocks us * a.blksize := u64_of_lt (by omega)
  rw [hbytes, hbefore, hafter, hzero, Nat.add_mul]
  unfold u64
  unfold two64 at hfits
  omega

theorem loopBlocks_size (a : TruncArgs) : a.loopBlocks * a.blksize ≤ a.start.size ∧
    a.start.size < 2147483648 := ⟨Nat.div_mul_le_self _ _, (sizeInt32_le _).2⟩

/-- There are blocks enough from the position on. -/
theorem TruncArgs.WF.enough (h : a.WF) :
    a.loopBlocks + (a.first - totalWidth (a.extents.take a.pos)) ≤
      totalWidth (a.extents.drop a.pos) := by
  have h1 := loopBlocks_le a
  have h2 := h.blocks_le
  have h3 := totalWidth_drop a
  have h4 := h.first_le
  have h5 := h.border.2.1
  omega

/-- A cut of some blocks is longer than what is skipped. -/
theorem skip_le_of_loopBlocks (h : a.loopBlocks ≠ 0) : a.skip ≤ a.count :=
  skip_le_of_blocks fun h0 => h (Nat.le_zero.mp (h0 ▸ loopBlocks_le a))

/-- The count of a run, from what the loop leaves. -/
theorem accountsWell_iff (h : a.WF) (hblocks : a.loopBlocks ≠ 0) {s : TruncState} {calls' : Calls}
    (us : List ExtentUnit) (lost : Nat) {extra : Nat}
    (hloop : (a.call.loop noteDrop noteFree noteRegion a.start.size a.start).run calls =
      some (.ok s, calls'))
    (hlen : s.len + 16 * us.length = 16 * a.units) (hunits : unitsAt s.mem a.body us.length = us)
    (halloc : allocBlocks us + lost = allocBlocks a.extents)
    (hbytes : s.bytes = u64 ((lost + extra) * a.blksize)) (hextra : extra ≤ a.loopBlocks) :
    AccountsWell a calls ↔ extra = 0 := by
  have hrun := extent40TruncUnits_run (skip_le_of_loopBlocks hblocks) hloop
  have hleft : a.units - s.len / 16 = us.length := by omega
  have hsmall : extra * a.blksize < 2147483648 := by
    have := Nat.mul_le_mul_right a.blksize hextra
    have := loopBlocks_size a
    omega
  rw [← accounts_iff h halloc hbytes hsmall]
  unfold AccountsWell
  constructor
  · rintro ⟨r, c, hr, heq⟩
    rw [hrun] at hr
    simp only [Option.some.injEq, Prod.mk.injEq, Except.ok.injEq] at hr
    obtain ⟨rfl, -⟩ := hr
    rwa [hleft, hunits] at heq
  · intro heq
    refine ⟨_, _, hrun, ?_⟩
    show s.bytes + extent40Bytes a.blksize (unitsAt s.mem a.body (a.units - s.len / 16)) = _
    rwa [hleft, hunits]

/-- A run that skips no block. -/
theorem accountsWell_noskip (h : a.WF) (hblocks : a.loopBlocks ≠ 0) (hskip : a.skipBlocks = 0)
    (hnarrow : a.Narrow) : AccountsWell a calls ↔
      ∃ k, a.loopBlocks = totalWidth ((a.extents.drop a.pos).take k) := by
  have hholds := h.holds
  have henough := h.enough
  have hskip' : a.epos = 0 ∨ a.start.size < a.cutCount := by
    have hle := (sizeInt32_le a.cutCount).1
    unfold TruncArgs.skipBlocks at hskip
    split at hskip
    · exact Or.inl hskip
    · exact Or.inr (by show sizeInt32 a.cutCount < a.cutCount; omega)
  obtain ⟨s, dropped, hloop, hleft⟩ := TruncCall.loop_spec (a.extents.drop a.pos) a.start calls
    a.start.size hholds h.blksize hskip' (Nat.le_refl _) (show 0 < two64 by decide)
    (fun e he => ⟨hnarrow e (by rw [hskip, Nat.zero_add]; exact he),
      h.widths e (List.mem_of_mem_drop (cutUnits_sub he))⟩)
    (show a.loopBlocks ≤ _ by omega)
  have hcut := cutHead_alloc a.loopBlocks (a.extents.drop a.pos)
  have hfront : allocBlocks (a.extents.take a.pos) + allocBlocks (a.extents.drop a.pos) =
      allocBlocks a.extents := by rw [← allocBlocks_append, List.take_append_drop]
  have hlength : (a.extents.take a.pos).length + (a.extents.drop a.pos).length = a.units := by
    rw [← List.length_append, List.take_append_drop, extents_length]
  have hlen : s.len + 16 * (cutHead a.loopBlocks (a.extents.drop a.pos)).length =
      0 + 16 * (a.extents.drop a.pos).length := hleft.len
  rw [← cutPart_eq_zero_iff (show a.loopBlocks ≤ totalWidth (a.extents.drop a.pos) by omega)]
  refine accountsWell_iff h hblocks
    (a.extents.take a.pos ++ cutHead a.loopBlocks (a.extents.drop a.pos))
    (cutCredit a.loopBlocks (a.extents.drop a.pos)) hloop ?_ ?_ ?_ ?_ (cutPart_le _ _)
  · rw [List.length_append]
    omega
  · rw [List.length_append]
    exact hleft.units
  · rw [allocBlocks_append]
    omega
  · have hbytes : s.bytes = u64 (0 + cutCounted a.loopBlocks (a.extents.drop a.pos) * a.blksize) :=
      hleft.bytes
    rw [hbytes, Nat.zero_add]
    rfl

/-- A run that skips blocks of the unit: right if it skips all of them, as nothing is taken then. -/
theorem accountsWell_skip (h : a.WF) (hblocks : a.loopBlocks ≠ 0) (hskip : a.skipBlocks ≠ 0)
    (hnarrow : a.Narrow) {e : ExtentUnit} {rest : List ExtentUnit}
    (he : a.extents.drop a.pos = e :: rest) : AccountsWell a calls ↔ a.skipBlocks = e.width := by
  have hholds := h.holds
  have henough := h.enough
  have hborder := h.border
  have hse : e.Small := hnarrow e (by
    rw [he, cutUnits, if_neg (by omega)]
    exact List.mem_cons_self)
  have hsize : sizeInt32 a.cutCount = a.cutCount := by
    by_contra hne
    exact hskip (if_neg hne)
  have hwidth : totalWidth (a.extents.take (a.pos + 1)) =
      totalWidth (a.extents.take a.pos) + e.width := by
    have hget : a.extents[a.pos]? = some e := by
      rw [← Nat.add_zero a.pos, ← List.getElem?_drop, he]
      rfl
    rw [List.take_add_one, hget, totalWidth_append]
    simp
  have hd : a.skipBlocks = a.first - totalWidth (a.extents.take a.pos) := by
    have := hse.width
    unfold TruncArgs.skipBlocks
    rw [if_pos hsize, h.epos_eq]
    exact u32_of_lt (by omega)
  have heskip : a.call.eskip a.start = a.skipBlocks := rfl
  have hunit : a.call.unit a.start = e := by
    rw [he] at hholds
    exact hholds.unit
  by_cases hall : a.skipBlocks = e.width
  · -- Nothing is taken from a unit all of whose blocks are skipped.
    refine iff_of_true ?_ hall
    have hremove : a.call.remove a.start = 0 := by
      rw [TruncCall.remove_of_skip (hunit ▸ hse) (by rw [heskip, hunit, hall]), heskip, hunit, hall,
        Nat.sub_self, Nat.min_zero]
    have hloop : (a.call.loop noteDrop noteFree noteRegion a.start.size a.start).run calls =
        some (.ok a.start, calls) := by
      cases a.start.size with
      | zero => rfl
      | succ fuel =>
        rw [TruncCall.loop, if_pos hremove]
        rfl
    have hlen := extents_length a
    refine (@accountsWell_iff a calls h hblocks a.start calls a.extents 0 0 hloop ?_ ?_
      (Nat.add_zero _) ?_ (Nat.zero_le _)).mpr rfl
    · show 0 + 16 * a.extents.length = _
      rw [hlen, Nat.zero_add]
    · rw [hlen]
      rfl
    · rw [Nat.zero_mul]
      rfl
  · refine iff_of_false ?_ hall
    -- The first round counts its blocks twice.
    rw [he] at hholds henough
    rw [totalWidth_cons] at henough
    obtain ⟨n, hn⟩ : ∃ n, n = min a.loopBlocks (e.width - a.skipBlocks) := ⟨_, rfl⟩
    have hn0 : n ≠ 0 := by omega
    obtain ⟨fuel, hfuel⟩ : ∃ f, a.start.size = f + 1 := by
      refine Nat.exists_eq_succ_of_ne_zero fun h0 => hblocks ?_
      show a.start.size / a.blksize = 0
      rw [h0, Nat.zero_div]
    obtain ⟨dropped, hfirst⟩ := @TruncCall.loop_skip a.call a.start calls _ _ _ fuel n hholds hse
      (by rw [heskip]; omega) (by rw [heskip, hn]; rfl) hn0
    have hnext := hholds.next_skip hse (by rw [heskip]; exact hskip) (show n ≤ e.width by omega)
    obtain ⟨hcounts, -, -⟩ := @TruncCall.change_skip a.call a.start n (hunit ▸ hse)
      (by rw [heskip]; exact hskip) (by rw [hunit]; omega)
    have hmul : n * a.blksize ≤ a.start.size := by
      have := Nat.mul_le_mul_right a.blksize (show n ≤ a.loopBlocks by omega)
      have := (loopBlocks_size a).1
      omega
    have hdiv : (a.call.next a.start n).size / a.call.blksize = a.loopBlocks - n := by
      show (a.start.size - n * a.blksize) / a.blksize = _
      rw [Nat.mul_comm, Nat.sub_mul_div]
      rfl
    have hsub : a.skipBlocks + a.loopBlocks - e.width = a.loopBlocks - (e.width - a.skipBlocks) := by
      omega
    obtain ⟨s, dropped', hloop, hleft⟩ := TruncCall.loop_spec (⟨e.start, e.width - n⟩ :: rest)
      (a.call.next a.start n) _ fuel hnext h.blksize
      (Or.inr (by
        show a.start.size - n * a.blksize < a.cutCount
        have := Nat.mul_pos (Nat.pos_of_ne_zero hn0) h.blksize
        have : a.start.size = a.cutCount := hsize
        omega))
      (by
        show a.start.size - n * a.blksize ≤ fuel
        have := Nat.mul_pos (Nat.pos_of_ne_zero hn0) h.blksize
        omega)
      (u64_lt _)
      (fun x hx => by
        rw [hdiv, cutUnits] at hx
        by_cases hdone : a.loopBlocks - n = 0
        · rw [if_pos hdone] at hx
          cases hx
        · rw [if_neg hdone] at hx
          rcases List.mem_cons.mp hx with rfl | hx
          · exact ⟨⟨hse.start, Nat.lt_of_le_of_lt (Nat.sub_le _ _) hse.width⟩, by
              show 0 < e.width - n
              omega⟩
          · have hin : x ∈ rest := cutUnits_sub hx
            refine ⟨hnarrow x ?_, h.widths x (List.mem_of_mem_drop (he ▸ List.mem_cons_of_mem _ hin))⟩
            rw [he, cutUnits, if_neg (by omega)]
            refine List.mem_cons_of_mem _ (cutUnits_mono ?_ hx)
            show a.loopBlocks - n - (e.width - n) ≤ _
            omega)
      (by
        rw [hdiv, totalWidth_cons]
        show a.loopBlocks - n ≤ e.width - n + totalWidth rest
        omega)
    rw [hdiv] at hloop hleft
    rw [← hfuel] at hfirst
    have hcut := cutHead_alloc (a.loopBlocks - n) (⟨e.start, e.width - n⟩ :: rest)
    have hcredit : ExtentUnit.credit ⟨e.start, e.width - n⟩ + creditOf e.start n = e.credit := by
      unfold ExtentUnit.credit creditOf
      dsimp only
      split
      · rfl
      · omega
    have hfront : allocBlocks (a.extents.take a.pos) + (e.credit + allocBlocks rest) =
        allocBlocks a.extents := by
      rw [← allocBlocks_cons, ← he, ← allocBlocks_append, List.take_append_drop]
    have hlength : (a.extents.take a.pos).length + (rest.length + 1) = a.units := by
      have := congrArg List.length (List.take_append_drop a.pos a.extents)
      rw [he, List.length_append, extents_length] at this
      exact this
    have hlen : s.len + 16 * (cutHead (a.loopBlocks - n) (⟨e.start, e.width - n⟩ :: rest)).length =
        0 + (a.call.change a.start n).2.1 + 16 * (rest.length + 1) := hleft.len
    rw [hcounts] at hlen
    dsimp only at hlen
    rw [allocBlocks_cons] at hcut
    rw [@accountsWell_iff a calls h hblocks s _
      (a.extents.take a.pos ++ cutHead (a.loopBlocks - n) (⟨e.start, e.width - n⟩ :: rest))
      (creditOf e.start n + cutCredit (a.loopBlocks - n) (⟨e.start, e.width - n⟩ :: rest))
      (n + cutPart (a.loopBlocks - n) (⟨e.start, e.width - n⟩ :: rest)) (hfirst.trans hloop)
      ?_ ?_ ?_ ?_ ?_]
    · omega
    · rw [List.length_append]
      omega
    · rw [List.length_append]
      exact hleft.units
    · rw [allocBlocks_append]
      omega
    · have hbytes : s.bytes = u64 (u64 (0 + (a.call.change a.start n).2.2) +
          cutCounted (a.loopBlocks - n) (⟨e.start, e.width - n⟩ :: rest) * a.blksize) := hleft.bytes
      rw [hbytes, hcounts, hunit]
      show u64 (u64 (0 + (creditOf e.start n + n) * a.blksize) + _ * a.blksize) = _
      unfold cutCounted
      rw [Nat.zero_add]
      have hsplit : ∀ x y : Nat, u64 (u64 x + y) = u64 (x + y) := by
        intro x y
        unfold u64
        omega
      rw [hsplit, ← Nat.add_mul]
      congr 2
      omega
    · have := cutPart_le (a.loopBlocks - n) (⟨e.start, e.width - n⟩ :: rest)
      omega

/-- **The byte count is what the item's own has lost if and only if** no unit goes in part, on units
    whose numbers have 32 bits. -/
theorem extent40TruncUnits_bytes_iff (h : a.WF) (hnarrow : a.Narrow) :
    AccountsWell a calls ↔ a.WholeUnits := by
  obtain ⟨e, rest, he⟩ : ∃ e rest, a.extents.drop a.pos = e :: rest := by
    apply List.exists_cons_of_length_pos
    have := h.pos
    rw [List.length_drop, extents_length]
    omega
  unfold TruncArgs.WholeUnits
  by_cases hblocks : a.loopBlocks = 0
  · refine iff_of_true ?_ (Or.inl hblocks)
    obtain ⟨key, result, hrun, -⟩ := extent40TruncUnits_none hblocks calls
    refine ⟨_, _, hrun, ?_⟩
    show 0 + extent40Bytes a.blksize (unitsAt a.mem a.body (a.units - 0 / 16)) = _
    rw [Nat.zero_div, Nat.sub_zero, Nat.zero_add]
    rfl
  · have hhead : (∃ x ∈ (a.extents.drop a.pos).head?, a.skipBlocks = x.width) ↔
        a.skipBlocks = e.width := by
      rw [he, List.head?_cons]
      simp
    rw [or_iff_right hblocks, hhead]
    by_cases hskip : a.skipBlocks = 0
    · have hwe : 0 < e.width := h.widths e (List.mem_of_mem_drop (he ▸ List.mem_cons_self))
      rw [accountsWell_noskip h hblocks hskip hnarrow, or_iff_right (by omega), and_iff_right hskip]
    · rw [accountsWell_skip h hblocks hskip hnarrow he, or_iff_left fun hh => hskip hh.1]

end Accounting

/-- The first unit of three is cut. -/
theorem extent40TruncUnits_bytes_whole : AccountsWell (threeCut 0 0 16384) ⟨[], 0, []⟩ := by
  refine (extent40TruncUnits_bytes_iff (threeCut_wf 16384)
    fun e he => threeCut_small 0 0 16384 e (List.mem_of_mem_drop (cutUnits_sub he))).mpr ?_
  refine Or.inr (Or.inr ⟨by decide +kernel, 1, ?_⟩)
  rw [threeCut_extents]
  decide +kernel

/-- The first unit and one block of the second are cut: five blocks, and the count is that of six. -/
theorem extent40TruncUnits_bytes_part :
    ((extent40TruncUnits noteDrop noteFree noteRegion (threeCut 0 0 20480)).run ⟨[], 0, []⟩).map
        (fun p => p.1.toOption.map fun r => r.bytes) = some (some 24576) ∧
      ¬ AccountsWell (threeCut 0 0 20480) ⟨[], 0, []⟩ := by
  constructor
  · decide +kernel
  · rintro ⟨r, calls', hrun, hcount⟩
    have hleft : ((extent40TruncUnits noteDrop noteFree noteRegion (threeCut 0 0 20480)).run
        ⟨[], 0, []⟩).map (fun p => p.1.toOption.map fun r =>
          r.bytes + extent40Bytes 4096 (unitsAt r.mem 0 (3 - r.len / 16))) = some (some 40960) := by
      decide +kernel
    rw [hrun] at hleft
    have hsum : r.bytes + extent40Bytes 4096 (unitsAt r.mem 0 (3 - r.len / 16)) = 40960 :=
      Option.some.inj (Option.some.inj hleft)
    have hbefore : extent40Bytes 4096 (threeCut 0 0 20480).extents = 36864 := by
      rw [threeCut_extents]
      decide
    have hsame := hsum.symm.trans (hcount.trans hbefore)
    exact absurd hsame (by decide)

end Reiser4
