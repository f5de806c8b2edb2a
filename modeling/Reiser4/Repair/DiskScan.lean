/-
  What the disk scan is told to look at (`repair_ds_prepare` of `librepair/repair.c`).

  The scan bitmap is built from the on-disk allocator and the blocks already met, one byte of the maps
  at a time.  A byte with a met block that is free on disk makes the code distrust the whole region of
  that byte, which it marks in the allocator's copy, so the bytes behind it read other bits than were
  on disk; the bytes in front of it have been read already.

    1. `cbRegionMark_spec`   what marking a region does to both bitmaps;
    2. `layoutBad_spec`      the copy and the scan bitmap behind the pass over broken regions;
    3. `scanByte_spec`       one byte, with the invariant `Scanned` of the loop;
    4. `repairDsPrepare_scan`     the set the code scans;
    5. `repairDsPrepare_exact_iff`   when it is the set it should scan.

  The branch that reads the bitmap from a file and the assertions on the three other bitmaps of the
  pass are left out.
-/
import Reiser4.Alloc40.Region

namespace Reiser4.Repair

open Reiser4.Lib Reiser4.Alloc40

/-- The bitmaps of `repair_control_t` the pass uses. -/
structure Control where
  bmAlloc : Bitmap
  bmScan : Bitmap
  bmMet : Bitmap
  bmLeaf : Bitmap
  bmTwig : Bitmap

section Model

variable (aal : AalBits) (adler32 : List UInt8 → UInt32)

/-- The body of the loop of `cb_region_mark`. -/
def scanBlock (i : Nat) : Run Control Errno Unit := do
  let c ← Run.get
  let met ← Run.lift (reiser4BitmapTest aal c.bmMet i)
  if met then pure ()
  else do
    let b ← Run.lift (reiser4BitmapMark aal c.bmScan i)
    Run.modify fun c => { c with bmScan := b }

/-- The loop of `cb_region_mark`; its counter has 32 bits, the bound 64. -/
def scanLoop (bound : Nat) : Nat → Nat → Run Control Errno Unit
  | 0, _ => Run.hang
  | fuel + 1, i =>
    if i < bound then do
      scanBlock aal i
      scanLoop bound fuel (u32 (i + 1))
    else pure ()

/-- `cb_region_mark`. -/
def cbRegionMark (fuel blk count : Nat) : Run Control Errno Unit := do
  let c ← Run.get
  let b ← Run.lift (reiser4BitmapMarkRegion aal c.bmAlloc blk count)
  Run.modify fun c => { c with bmAlloc := b }
  scanLoop aal (u64 (blk + count)) fuel (u32 blk)

/-- One byte of the loop over the maps.  What `reiser4_alloc_region` returns is not looked at. -/
def scanByte (fuel : Nat) (a : Alloc) (i : Nat) : Run Control Errno Unit := do
  let c ← Run.get
  if i < c.bmAlloc.size ∧ i < c.bmScan.size then
    if ~~~c.bmAlloc.map i &&& c.bmMet.map i ≠ 0 then do
      let _ ← (alloc40Region a (i * 8) (cbRegionMark aal fuel)).attempt
      pure ()
    else Run.modify fun c => { c with bmScan := { c.bmScan with
      map := fun j => if j = i then c.bmScan.map j ||| (c.bmAlloc.map j &&& ~~~c.bmMet.map j)
        else c.bmScan.map j } }
  else Run.hang

/-- `repair_ds_prepare` without a bitmap file; `whole` is the flag `REPAIR_WHOLE`. -/
def repairDsPrepare (fuel : Nat) (whole : Bool) (a : Alloc) (fsLen : Nat) :
    Run Control Errno Unit := do
  Run.modify fun c => { c with
    bmScan := reiser4BitmapCreate fsLen
    bmAlloc := if whole then reiser4BitmapInvert aal (reiser4BitmapCreate fsLen)
      else alloc40Extract a (reiser4BitmapCreate fsLen) }
  alloc40LayoutBad aal adler32 fuel a (cbRegionMark aal fuel)
  let c ← Run.get
  Run.forEach (scanByte aal fuel a) (List.range c.bmMet.size)
  let c ← Run.get
  let scan ← Run.lift (reiser4BitmapCalcMarked aal c.bmScan)
  let leaf ← Run.lift (reiser4BitmapClearRegion aal c.bmLeaf 0 c.bmLeaf.total)
  let twig ← Run.lift (reiser4BitmapClearRegion aal c.bmTwig 0 c.bmTwig.total)
  Run.modify fun c => { c with bmScan := scan, bmLeaf := leaf, bmTwig := twig }

end Model

/-! ## Marking a region -/

/-- The bitmaps of the pass are those of a file system of `len` blocks, with room for all bits. -/
structure Shaped (len : Nat) (met : Bitmap) (c : Control) : Prop where
  metIs : c.bmMet = met
  total : c.bmAlloc.total = len ∧ c.bmScan.total = len ∧ met.total = len
  size : c.bmAlloc.size = (len + 7) / 8 ∧ c.bmScan.size = (len + 7) / 8 ∧
    met.size = (len + 7) / 8
  fits : (len + 7) / 8 < two32

section Shaped

variable {len : Nat} {met : Bitmap} {c : Control}

theorem Shaped.alloc_sized (h : Shaped len met c) : c.bmAlloc.Sized :=
  ⟨by rw [h.size.1, h.total.1], by rw [h.size.1]; exact h.fits⟩

theorem Shaped.scan_sized (h : Shaped len met c) : c.bmScan.Sized :=
  ⟨by rw [h.size.2.1, h.total.2.1], by rw [h.size.2.1]; exact h.fits⟩

theorem Shaped.met_sized (h : Shaped len met c) : met.Sized :=
  ⟨by rw [h.size.2.2, h.total.2.2], by rw [h.size.2.2]; exact h.fits⟩

theorem Shaped.setScan (h : Shaped len met c) {b : Bitmap}
    (hb : b.total = c.bmScan.total ∧ b.size = c.bmScan.size) :
    Shaped len met { c with bmScan := b } :=
  ⟨h.metIs, ⟨h.total.1, hb.1.trans h.total.2.1, h.total.2.2⟩,
    ⟨h.size.1, hb.2.trans h.size.2.1, h.size.2.2⟩, h.fits⟩

theorem Shaped.setAlloc (h : Shaped len met c) {b : Bitmap}
    (hb : b.total = c.bmAlloc.total ∧ b.size = c.bmAlloc.size) :
    Shaped len met { c with bmAlloc := b } :=
  ⟨h.metIs, ⟨hb.1.trans h.total.1, h.total.2⟩, ⟨hb.2.trans h.size.1, h.size.2⟩, h.fits⟩

end Shaped

section Marking

variable {aal : AalBits} {len : Nat} {met : Bitmap}

variable (aal) in
/-- A block that was not met is scanned. -/
theorem scanBlock_spec {c : Control} (h : Shaped len met c) (i : Nat) :
    ∃ c', (scanBlock aal i).run c = some (.ok (), c') ∧ Shaped len met c' ∧
      c'.bmAlloc = c.bmAlloc ∧ ∀ j, c'.bmScan.has aal j =
        (decide (j = i ∧ i < len) && !met.has aal i || c.bmScan.has aal j) := by
  unfold scanBlock
  rw [Run.get_bind, h.metIs, test_spec h.met_sized, Run.bind_of_ok (Run.lift_some _ _)]
  cases hmet : met.has aal i with
  | true => exact ⟨c, rfl, h, rfl, by simp⟩
  | false =>
    obtain ⟨b, hb, hhas⟩ := mark_has aal h.scan_sized i
    refine ⟨{ c with bmScan := b }, ?_, h.setScan (mark_size hb), rfl, ?_⟩
    · simp only [Bool.false_eq_true, if_false]
      rw [hb, Run.bind_of_ok (Run.lift_some _ _)]
      rfl
    · intro j
      show b.has aal j = _
      rw [hhas j, h.total.2.1]
      simp

/-- The counter of the loop never reaches a bound that has more than 32 bits. -/
theorem scanLoop_hang {bound : Nat} (hbound : two32 ≤ bound) :
    ∀ (fuel i : Nat) (c : Control), i < two32 → Shaped len met c →
      (scanLoop aal bound fuel i).run c = none
  | 0, _, _, _, _ => rfl
  | fuel + 1, i, c, hi, h => by
    obtain ⟨c1, h1, hc1, -⟩ := scanBlock_spec aal h i
    rw [scanLoop, if_pos (by omega), Run.bind_of_ok h1]
    exact scanLoop_hang hbound fuel _ c1 (Nat.mod_lt _ (by decide)) hc1

theorem scanLoop_spec {bound : Nat} (hbound : bound < two32) :
    ∀ {fuel i : Nat} {c c' : Control} {r : Except Errno Unit}, Shaped len met c →
      (scanLoop aal bound fuel i).run c = some (r, c') →
      r = .ok () ∧ Shaped len met c' ∧ c'.bmAlloc = c.bmAlloc ∧ ∀ j, c'.bmScan.has aal j =
        (decide (i ≤ j ∧ j < bound ∧ j < len) && !met.has aal j || c.bmScan.has aal j)
  | 0, _, _, _, _, _, hrun => by cases hrun
  | fuel + 1, i, c, c', r, h, hrun => by
    obtain ⟨c1, h1, hc1, halloc1, hscan1⟩ := scanBlock_spec aal h i
    rw [scanLoop] at hrun
    split at hrun
    · next hlt =>
      rw [Run.bind_of_ok h1] at hrun
      have hnext : u32 (i + 1) = i + 1 := Nat.mod_eq_of_lt (by omega)
      rw [hnext] at hrun
      obtain ⟨hr, hc', halloc, hscan⟩ := scanLoop_spec hbound hc1 hrun
      refine ⟨hr, hc', halloc.trans halloc1, ?_⟩
      intro j
      rw [hscan j, hscan1 j]
      by_cases hj : j = i
      · subst hj
        simp [hlt]
      · have hsame : (i + 1 ≤ j ∧ j < bound ∧ j < len) ↔ (i ≤ j ∧ j < bound ∧ j < len) := by omega
        have hno : ¬(j = i ∧ i < len) := fun h => hj h.1
        rw [decide_eq_decide.mpr hsame, decide_eq_false hno, Bool.false_and, Bool.false_or]
    · next hge =>
      cases hrun
      refine ⟨rfl, h, rfl, ?_⟩
      intro j
      have : ¬(i ≤ j ∧ j < bound ∧ j < len) := by omega
      simp [this]

/-- `cb_region_mark` marks the region in the copy of the allocator's bitmap, if it lies in the file
    system, and those of its blocks that were not met in the scan bitmap. -/
theorem cbRegionMark_spec {fuel blk count : Nat} {c c' : Control} {r : Except Errno Unit}
    (h : Shaped len met c) (hwrap : blk + count < 18446744073709551616)
    (hrun : (cbRegionMark aal fuel blk count).run c = some (r, c')) :
    r = .ok () ∧ Shaped len met c' ∧
      (∀ j, c'.bmAlloc.has aal j = (c.bmAlloc.regionHas blk count j || c.bmAlloc.has aal j)) ∧
      ∀ j, c'.bmScan.has aal j = (decide (blk ≤ j ∧ j < blk + count ∧ j < len) &&
        !met.has aal j || c.bmScan.has aal j) := by
  unfold cbRegionMark at hrun
  rw [Run.get_bind] at hrun
  cases hb : reiser4BitmapMarkRegion aal c.bmAlloc blk count with
  | none =>
    rw [hb] at hrun
    cases hrun
  | some b =>
    rw [hb, Run.bind_of_ok (Run.lift_some _ _), Run.modify_bind] at hrun
    have hsum : u64 (blk + count) = blk + count := Nat.mod_eq_of_lt hwrap
    rw [hsum] at hrun
    have hc1 : Shaped len met { c with bmAlloc := b } := h.setAlloc (markRegion_size hb)
    -- The loop has ended, so the bound fits the counter.
    have hcounter : u32 blk < two32 := Nat.mod_lt _ (by decide)
    have hbound : blk + count < two32 := by
      by_contra hge
      rw [scanLoop_hang (Nat.le_of_not_lt hge) fuel _ _ hcounter hc1] at hrun
      cases hrun
    have hblk : u32 blk = blk := Nat.mod_eq_of_lt (by omega)
    rw [hblk] at hrun
    obtain ⟨hr, hc', halloc, hscan⟩ := scanLoop_spec hbound hc1 hrun
    refine ⟨hr, hc', ?_, hscan⟩
    intro j
    rw [halloc]
    exact markRegion_has h.alloc_sized hb j

/-- The length of the scan bitmap stays. -/
def SameScan (c c' : Control) : Prop :=
  c'.bmScan.total = c.bmScan.total ∧ c'.bmScan.size = c.bmScan.size

theorem SameScan.trans {c c' c'' : Control} (h : SameScan c c') (h' : SameScan c' c'') :
    SameScan c c'' := ⟨h'.1.trans h.1, h'.2.trans h.2⟩

/-- Marking cannot fail. -/
theorem scanBlock_ok {i : Nat} {c c' : Control} {r : Except Errno Unit}
    (h : (scanBlock aal i).run c = some (r, c')) : r = .ok () ∧ SameScan c c' := by
  unfold scanBlock at h
  rw [Run.get_bind] at h
  cases ht : reiser4BitmapTest aal c.bmMet i with
  | none =>
    rw [ht] at h
    cases h
  | some t =>
    rw [ht, Run.bind_of_ok (Run.lift_some _ _)] at h
    split at h
    · cases h
      exact ⟨rfl, rfl, rfl⟩
    · cases hm : reiser4BitmapMark aal c.bmScan i with
      | none =>
        rw [hm] at h
        cases h
      | some b =>
        rw [hm] at h
        cases h
        exact ⟨rfl, mark_size hm⟩

theorem scanLoop_ok {bound : Nat} : ∀ {fuel i : Nat} {c c' : Control} {r : Except Errno Unit},
    (scanLoop aal bound fuel i).run c = some (r, c') → r = .ok () ∧ SameScan c c'
  | 0, _, _, _, _, h => by cases h
  | fuel + 1, i, c, c', r, h => by
    rw [scanLoop] at h
    split at h
    · rw [Run.run_bind] at h
      cases hb : (scanBlock aal i).run c with
      | none =>
        rw [hb] at h
        cases h
      | some p =>
        obtain ⟨r1, c1⟩ := p
        obtain ⟨hr1, hsame⟩ := scanBlock_ok hb
        rw [hb, hr1] at h
        obtain ⟨hr, hsame'⟩ := scanLoop_ok h
        exact ⟨hr, hsame.trans hsame'⟩
    · cases h
      exact ⟨rfl, rfl, rfl⟩

theorem cbRegionMark_ok {fuel blk count : Nat} {c c' : Control} {r : Except Errno Unit}
    (hrun : (cbRegionMark aal fuel blk count).run c = some (r, c')) :
    r = .ok () ∧ SameScan c c' := by
  unfold cbRegionMark at hrun
  rw [Run.get_bind] at hrun
  cases hb : reiser4BitmapMarkRegion aal c.bmAlloc blk count with
  | none =>
    rw [hb] at hrun
    cases hrun
  | some b =>
    rw [hb, Run.bind_of_ok (Run.lift_some _ _), Run.modify_bind] at hrun
    obtain ⟨hr, hsame⟩ := scanLoop_ok hrun
    exact ⟨hr, hsame⟩

/-- The scan bitmap has this length. -/
def ScanLen (total size : Nat) (c : Control) : Prop :=
  c.bmScan.total = total ∧ c.bmScan.size = size

theorem cbRegionMark_keeps {total size : Nat} (fuel blk count : Nat) :
    Run.Keeps (ScanLen total size) (cbRegionMark aal fuel blk count) := by
  intro c r c' hI hrun
  obtain ⟨-, hsame⟩ := cbRegionMark_ok hrun
  exact ⟨hsame.1.trans hI.1, hsame.2.trans hI.2⟩

/-- The pass over the broken regions does not change the length. -/
theorem layoutBad_keeps {adler32 : List UInt8 → UInt32} {total size : Nat} (fuel : Nat) (a : Alloc) :
    Run.Keeps (ScanLen total size)
      (alloc40LayoutBad aal adler32 fuel a (cbRegionMark aal fuel)) := by
  apply layoutLoop_keeps
  intro b
  unfold cbCheckLayout
  split
  · exact Run.Keeps.hang
  · refine Run.Keeps.bind (I := ScanLen total size) (Run.Keeps.lift _) ?_
    intro occupied
    split
    · exact Run.Keeps.ret ()
    · exact cbRegionMark_keeps _ _ _
  · exact cbRegionMark_keeps _ _ _
  · exact Run.Keeps.fail _

/-- Nor does a byte of the loop. -/
theorem scanByte_keeps {total size : Nat} (fuel : Nat) (a : Alloc) (i : Nat) :
    Run.Keeps (ScanLen total size) (scanByte aal fuel a i) := by
  intro c r c' hI hrun
  unfold scanByte at hrun
  rw [Run.get_bind] at hrun
  split at hrun
  · split at hrun
    · have hkeep : Run.Keeps (ScanLen total size) (do
          let _ ← (alloc40Region a (i * 8) (cbRegionMark aal fuel)).attempt
          pure ()) :=
        Run.Keeps.bind (Run.Keeps.attempt (cbRegionMark_keeps _ _ _)) fun _ => Run.Keeps.ret ()
      exact hkeep c r c' hI hrun
    · cases hrun
      exact hI
  · cases hrun

end Marking

/-! ## The regions that are broken -/

section Layout

variable {aal : AalBits} {adler32 : List UInt8 → UInt32} {len : Nat} {met : Bitmap} {a : Alloc}

/-- The pass over the broken regions marks their bitmap blocks. -/
theorem layoutBad_spec {fuel : Nat} {c c' : Control} (hblk : BlksizeOk a.blksize)
    (ha : a.bitmap.Sized) (htotal : a.bitmap.total = len) (h : Shaped len met c)
    (hrun : (alloc40LayoutBad aal adler32 fuel a (cbRegionMark aal fuel)).run c =
      some (.ok (), c')) :
    ∃ blks, visited fuel a.blksize len = some blks ∧ Shaped len met c' ∧
      (∀ j, j < len → (c'.bmAlloc.has aal j = true ↔
        (j ∈ blks ∧ Broken aal adler32 a j) ∨ c.bmAlloc.has aal j = true)) ∧
      ∀ j, j < len → (c'.bmScan.has aal j = true ↔
        ((j ∈ blks ∧ Broken aal adler32 a j) ∧ met.has aal j = false) ∨
          c.bmScan.has aal j = true) := by
  unfold alloc40LayoutBad at hrun
  rw [htotal] at hrun
  obtain ⟨blks, hvis, hrun⟩ := alloc40Layout_forEach (by
    intro b s r s' hb
    rcases checkLayout_cases ha hb with ⟨-, hfunc⟩ | ⟨-, hr, -⟩
    · exact (cbRegionMark_ok hfunc).1
    · exact hr) hrun
  refine ⟨blks, hvis, ?_⟩
  have hlen : len < 34359738368 := by
    rw [← htotal]
    exact ha.total_lt
  have hmem := (visits_mem hblk hlen (visited_visits hvis)).2
  refine Run.forEach_ensures (fun seen c' => Shaped len met c' ∧
      (∀ j, j < len → (c'.bmAlloc.has aal j = true ↔
        (j ∈ seen ∧ Broken aal adler32 a j) ∨ c.bmAlloc.has aal j = true)) ∧
      ∀ j, j < len → (c'.bmScan.has aal j = true ↔
        ((j ∈ seen ∧ Broken aal adler32 a j) ∧ met.has aal j = false) ∨
          c.bmScan.has aal j = true)) ?_ ⟨h, by simp, by simp⟩ hrun
  rintro seen v rest s s' hsplit ⟨hs, halloc, hscan⟩ hv
  have hvlt : v < alloc40Blocknr a.blksize + len := ((hmem v).mp (by simp [hsplit])).1
  have hblocknr : alloc40Blocknr a.blksize ≤ 65538 := by
    unfold alloc40Blocknr masterOffset
    have := Nat.div_le_self 65536 a.blksize
    omega
  rcases checkLayout_cases ha hv with ⟨hbroken, hfunc⟩ | ⟨hok, -, rfl⟩
  · obtain ⟨-, hs', halloc', hscan'⟩ := cbRegionMark_spec hs (by omega) hfunc
    refine ⟨hs', ?_, ?_⟩
    · intro j hj
      rw [halloc' j, Bool.or_eq_true, halloc j hj]
      unfold Bitmap.regionHas
      rw [hs.total.1, Bool.and_eq_true, decide_eq_true_eq, decide_eq_true_eq, List.mem_append,
        List.mem_singleton]
      constructor
      · rintro (⟨-, h1, h2⟩ | ⟨h1, h2⟩ | h1)
        · have : j = v := by omega
          exact Or.inl ⟨Or.inr this, this ▸ hbroken⟩
        · exact Or.inl ⟨Or.inl h1, h2⟩
        · exact Or.inr h1
      · rintro (⟨h1 | rfl, h2⟩ | h1)
        · exact Or.inr (Or.inl ⟨h1, h2⟩)
        · exact Or.inl ⟨by omega, by omega, by omega⟩
        · exact Or.inr (Or.inr h1)
    · intro j hj
      rw [hscan' j, Bool.or_eq_true, hscan j hj, Bool.and_eq_true, decide_eq_true_eq,
        Bool.not_eq_true', List.mem_append, List.mem_singleton]
      constructor
      · rintro (⟨⟨h1, h2, -⟩, h3⟩ | ⟨⟨h1, h2⟩, h3⟩ | h1)
        · have : j = v := by omega
          exact Or.inl ⟨⟨Or.inr this, this ▸ hbroken⟩, h3⟩
        · exact Or.inl ⟨⟨Or.inl h1, h2⟩, h3⟩
        · exact Or.inr h1
      · rintro (⟨⟨h1 | rfl, h2⟩, h3⟩ | h1)
        · exact Or.inr (Or.inl ⟨⟨h1, h2⟩, h3⟩)
        · exact Or.inl ⟨⟨by omega, by omega, hj⟩, h3⟩
        · exact Or.inr (Or.inr h1)
  · have hnew : ∀ j, (j ∈ seen ++ [v] ∧ Broken aal adler32 a j) ↔
        (j ∈ seen ∧ Broken aal adler32 a j) := by
      intro j
      rw [List.mem_append, List.mem_singleton]
      constructor
      · rintro ⟨h1 | rfl, h2⟩
        · exact ⟨h1, h2⟩
        · exact absurd h2 hok
      · rintro ⟨h1, h2⟩
        exact ⟨Or.inl h1, h2⟩
    exact ⟨hs, fun j hj => by rw [hnew, halloc j hj], fun j hj => by rw [hnew, hscan j hj]⟩

end Layout

/-! ## The loop over the bytes -/

section Bytes

variable {aal : AalBits} {len : Nat} {met : Bitmap} {a : Alloc} {marked scanned : Nat → Bool}

/-- No bit behind the end of the bitmap is set. -/
def Tight (aal : AalBits) (b : Bitmap) : Prop := ∀ j, b.total ≤ j → aal.test b.map j = false

/-- Among the first `n` bytes there is a met block of the region that is not marked. -/
def Distrusted (aal : AalBits) (len bpb : Nat) (met : Bitmap) (marked : Nat → Bool) (n r : Nat) :
    Prop :=
  ∃ m, m / 8 < n ∧ m < len ∧ m / bpb = r ∧ met.has aal m = true ∧ marked m = false

/-- The invariant of the loop: `marked` is the copy of the allocator's bitmap in front of the loop and
    `scanned` the scan bitmap; `n` bytes are done. -/
structure Scanned (aal : AalBits) (len bpb : Nat) (met : Bitmap) (marked scanned : Nat → Bool)
    (n : Nat) (c : Control) : Prop where
  shaped : Shaped len met c
  alloc : ∀ j, j < len → (c.bmAlloc.has aal j = true ↔
    marked j = true ∨ Distrusted aal len bpb met marked n (j / bpb))
  scan : ∀ j, j < len → (c.bmScan.has aal j = true ↔ met.has aal j = false ∧
    (scanned j = true ∨ Distrusted aal len bpb met marked n (j / bpb) ∨
      (j / 8 < n ∧ marked j = true)))

/-- The blocks of a byte are in one region. -/
theorem same_region {blksize m n : Nat} (h : m / 8 = n) :
    m / blocksPerBitmap blksize = n * 8 / blocksPerBitmap blksize := by
  unfold blocksPerBitmap
  rw [Nat.mul_comm (blksize - crcSize) 8, ← Nat.div_div_eq_div_mul, ← Nat.div_div_eq_div_mul, h,
    Nat.mul_div_cancel _ (by decide)]

/-- One more byte. -/
theorem distrusted_succ {blksize n r : Nat} :
    Distrusted aal len (blocksPerBitmap blksize) met marked (n + 1) r ↔
      Distrusted aal len (blocksPerBitmap blksize) met marked n r ∨
        (n * 8 / blocksPerBitmap blksize = r ∧
          ∃ m, m / 8 = n ∧ m < len ∧ met.has aal m = true ∧ marked m = false) := by
  constructor
  · rintro ⟨m, h1, h2, h3, h4, h5⟩
    rcases Nat.lt_succ_iff_lt_or_eq.mp h1 with hlt | heq
    · exact Or.inl ⟨m, hlt, h2, h3, h4, h5⟩
    · refine Or.inr ⟨?_, m, heq, h2, h4, h5⟩
      rw [← h3, same_region heq]
  · rintro (⟨m, h1, h2⟩ | ⟨hr, m, h1, h2, h3, h4⟩)
    · exact ⟨m, Nat.lt_succ_of_lt h1, h2⟩
    · refine ⟨m, by omega, h2, ?_, h3, h4⟩
      rw [← hr, same_region h1]

/-- A byte that does not make the code distrust its region leaves every region as it was. -/
theorem distrusted_succ_of_quiet {blksize n r : Nat} {c : Control}
    (h : Scanned aal len (blocksPerBitmap blksize) met marked scanned n c)
    (hquiet : ∀ m, m / 8 = n → m < len → met.has aal m = true → c.bmAlloc.has aal m = true) :
    Distrusted aal len (blocksPerBitmap blksize) met marked (n + 1) r ↔
      Distrusted aal len (blocksPerBitmap blksize) met marked n r := by
  rw [distrusted_succ]
  constructor
  · rintro (hd | ⟨hr, m, h1, h2, h3, h4⟩)
    · exact hd
    · rcases (h.alloc m h2).mp (hquiet m h1 h2 h3) with hm | hd
      · rw [h4] at hm
        cases hm
      · rw [← hr, ← same_region h1]
        exact hd
  · exact Or.inl

/-- The byte test finds a met block that is free. -/
theorem fires_iff {n : Nat} {c : Control} (hs : Shaped len met c) (htight : Tight aal met) :
    ~~~c.bmAlloc.map n &&& met.map n ≠ 0 ↔
      ∃ m, m / 8 = n ∧ m < len ∧ met.has aal m = true ∧ c.bmAlloc.has aal m = false := by
  rw [aal.byte_ne_zero]
  constructor
  · rintro ⟨m, h1, h2, h3⟩
    have hm : m < len := by
      by_contra hge
      rw [htight m (by rw [hs.total.2.2]; omega)] at h3
      cases h3
    refine ⟨m, h1, hm, ?_, ?_⟩
    · rw [Bitmap.has_of_lt (by rw [hs.total.2.2]; exact hm), h3]
    · rw [Bitmap.has_of_lt (by rw [hs.total.1]; exact hm), h2]
  · rintro ⟨m, h1, hm, h2, h3⟩
    rw [Bitmap.has_of_lt (by rw [hs.total.2.2]; exact hm)] at h2
    rw [Bitmap.has_of_lt (by rw [hs.total.1]; exact hm)] at h3
    exact ⟨m, h1, h3, h2⟩

/-- A byte with a met block that is free: its whole region is marked. -/
theorem scanned_of_region {fuel n m : Nat} {c c' : Control} {r : Except Errno Unit}
    (hblk : BlksizeOk a.blksize) (htotal : a.bitmap.total = len) (hn : n * 8 < len)
    (h : Scanned aal len (blocksPerBitmap a.blksize) met marked scanned n c)
    (hm8 : m / 8 = n) (hm : m < len) (hmet : met.has aal m = true)
    (hfree : c.bmAlloc.has aal m = false)
    (hrun : (alloc40Region a (n * 8) (cbRegionMark aal fuel)).run c = some (r, c')) :
    Scanned aal len (blocksPerBitmap a.blksize) met marked scanned (n + 1) c' := by
  have hs := h.shaped
  have hlen : len < 34359738368 := by
    rw [← hs.total.1]
    exact hs.alloc_sized.total_lt
  have hmarked : marked m = false := by
    cases hmark : marked m with
    | false => rfl
    | true =>
      rw [(h.alloc m hm).mpr (Or.inl hmark)] at hfree
      cases hfree
  unfold alloc40Region at hrun
  have hin : n * 8 < a.bitmap.total := by
    rw [htotal]
    exact hn
  have hregion := fun j => region_mem (j := j) hblk (by rw [htotal]; exact hlen) hin
  dsimp only at hrun hregion
  generalize n * 8 / blocksPerBitmap a.blksize * blocksPerBitmap a.blksize = start at hrun hregion
  generalize (if u64 (start + blocksPerBitmap a.blksize) > a.bitmap.total
    then a.bitmap.total - start else blocksPerBitmap a.blksize) = count at hrun hregion
  rw [htotal] at hregion
  have hend : start + count ≤ len := (hregion 0).1
  obtain ⟨-, hs', halloc, hscan⟩ := cbRegionMark_spec hs (by omega) hrun
  have hwhole (j : Nat) (hj : j < len) : start ≤ j ∧ j < start + count ↔
      n * 8 / blocksPerBitmap a.blksize = j / blocksPerBitmap a.blksize := by
    rw [(hregion j).2]
    exact ⟨fun h => h.1.symm, fun h => ⟨h.symm, hj⟩⟩
  have hwitness : ∃ m, m / 8 = n ∧ m < len ∧ met.has aal m = true ∧ marked m = false :=
    ⟨m, hm8, hm, hmet, hmarked⟩
  refine ⟨hs', ?_, ?_⟩
  · intro j hj
    rw [halloc j, Bool.or_eq_true, h.alloc j hj, distrusted_succ]
    unfold Bitmap.regionHas
    rw [hs.total.1, Bool.and_eq_true, decide_eq_true_eq, decide_eq_true_eq, hwhole j hj]
    constructor
    · rintro (⟨-, hr⟩ | hm' | hd)
      · exact Or.inr (Or.inr ⟨hr, hwitness⟩)
      · exact Or.inl hm'
      · exact Or.inr (Or.inl hd)
    · rintro (hm' | hd | ⟨hr, -⟩)
      · exact Or.inr (Or.inl hm')
      · exact Or.inr (Or.inr hd)
      · exact Or.inl ⟨hend, hr⟩
  · intro j hj
    have hin : start ≤ j ∧ j < start + count ∧ j < len ↔
        n * 8 / blocksPerBitmap a.blksize = j / blocksPerBitmap a.blksize := by
      rw [← hwhole j hj]
      exact ⟨fun h => ⟨h.1, h.2.1⟩, fun h => ⟨h.1, h.2, hj⟩⟩
    rw [hscan j, Bool.or_eq_true, h.scan j hj, distrusted_succ, Bool.and_eq_true,
      decide_eq_true_eq, Bool.not_eq_true', hin]
    constructor
    · rintro (⟨hr, hno⟩ | ⟨hno, h1 | h1 | ⟨h1, h2⟩⟩)
      · exact ⟨hno, Or.inr (Or.inl (Or.inr ⟨hr, hwitness⟩))⟩
      · exact ⟨hno, Or.inl h1⟩
      · exact ⟨hno, Or.inr (Or.inl (Or.inl h1))⟩
      · exact ⟨hno, Or.inr (Or.inr ⟨Nat.lt_succ_of_lt h1, h2⟩)⟩
    · rintro ⟨hno, h1 | (h1 | ⟨hr, -⟩) | ⟨h1, h2⟩⟩
      · exact Or.inr ⟨hno, Or.inl h1⟩
      · exact Or.inr ⟨hno, Or.inr (Or.inl h1)⟩
      · exact Or.inl ⟨hr, hno⟩
      · rcases Nat.lt_succ_iff_lt_or_eq.mp h1 with hlt | heq
        · exact Or.inr ⟨hno, Or.inr (Or.inr ⟨hlt, h2⟩)⟩
        · exact Or.inl ⟨(same_region heq).symm, hno⟩

/-- A byte without one: its own marked blocks that were not met are added. -/
theorem scanned_of_byte {n : Nat} {c : Control} {b : Bitmap}
    (h : Scanned aal len (blocksPerBitmap a.blksize) met marked scanned n c)
    (hquiet : ∀ m, m / 8 = n → m < len → met.has aal m = true → c.bmAlloc.has aal m = true)
    (hb : b = { c.bmScan with
      map := fun j => if j = n then c.bmScan.map j ||| (c.bmAlloc.map j &&& ~~~met.map j)
        else c.bmScan.map j }) :
    Scanned aal len (blocksPerBitmap a.blksize) met marked scanned (n + 1)
      { c with bmScan := b } := by
  have hs := h.shaped
  refine ⟨hs.setScan (by rw [hb]; exact ⟨rfl, rfl⟩), ?_, ?_⟩
  · intro j hj
    rw [distrusted_succ_of_quiet h hquiet]
    exact h.alloc j hj
  · intro j hj
    rw [distrusted_succ_of_quiet h hquiet]
    have hscan := h.scan j hj
    have halloc := h.alloc j hj
    have hbtotal : b.total = len := by
      rw [hb]
      exact hs.total.2.1
    show b.has aal j = true ↔ _
    rw [Bitmap.has_of_lt (by rw [hbtotal]; exact hj)]
    rw [Bitmap.has_of_lt (by rw [hs.total.2.1]; exact hj)] at hscan
    rw [Bitmap.has_of_lt (by rw [hs.total.1]; exact hj)] at halloc
    rw [Bitmap.has_of_lt (by rw [hs.total.2.2]; exact hj)] at hscan ⊢
    by_cases hbyte : j / 8 = n
    · have htest : aal.test b.map j =
          (aal.test c.bmScan.map j || (aal.test c.bmAlloc.map j && !aal.test met.map j)) := by
        rw [hb, ← BitOrder.test_and_not, ← BitOrder.test_or]
        unfold BitOrder.test
        dsimp only
        rw [if_pos hbyte]
      rw [htest, Bool.or_eq_true, hscan, Bool.and_eq_true, halloc, Bool.not_eq_true']
      constructor
      · rintro (⟨hno, h1 | h1 | ⟨h1, h2⟩⟩ | ⟨h1 | h1, hno⟩)
        · exact ⟨hno, Or.inl h1⟩
        · exact ⟨hno, Or.inr (Or.inl h1)⟩
        · exact ⟨hno, Or.inr (Or.inr ⟨Nat.lt_succ_of_lt h1, h2⟩)⟩
        · exact ⟨hno, Or.inr (Or.inr ⟨by omega, h1⟩)⟩
        · exact ⟨hno, Or.inr (Or.inl h1)⟩
      · rintro ⟨hno, h1 | h1 | ⟨-, h2⟩⟩
        · exact Or.inl ⟨hno, Or.inl h1⟩
        · exact Or.inl ⟨hno, Or.inr (Or.inl h1)⟩
        · exact Or.inr ⟨Or.inl h2, hno⟩
    · have htest : aal.test b.map j = aal.test c.bmScan.map j := by
        rw [hb]
        unfold BitOrder.test
        dsimp only
        rw [if_neg hbyte]
      have hlt : j / 8 < n + 1 ↔ j / 8 < n := by omega
      rw [htest, hscan, hlt]

/-- Step lemma of the loop. -/
theorem scanByte_spec {fuel n : Nat} {c c' : Control} (hblk : BlksizeOk a.blksize)
    (htotal : a.bitmap.total = len) (htight : Tight aal met) (hn : n < (len + 7) / 8)
    (h : Scanned aal len (blocksPerBitmap a.blksize) met marked scanned n c)
    (hrun : (scanByte aal fuel a n).run c = some (.ok (), c')) :
    Scanned aal len (blocksPerBitmap a.blksize) met marked scanned (n + 1) c' := by
  have hs := h.shaped
  unfold scanByte at hrun
  rw [Run.get_bind] at hrun
  rw [if_pos ⟨by rw [hs.size.1]; exact hn, by rw [hs.size.2.1]; exact hn⟩, hs.metIs] at hrun
  split at hrun
  · next hne =>
    obtain ⟨m, hm8, hm, hmet, hfree⟩ := (fires_iff hs htight).mp hne
    obtain ⟨res, c1, h1, h2⟩ := Run.bind_ok.mp hrun
    cases h2
    rw [Run.run_attempt] at h1
    obtain ⟨⟨r, c2⟩, hreg, he⟩ := Option.map_eq_some_iff.mp h1
    cases he
    exact scanned_of_region hblk htotal (by omega) h hm8 hm hmet hfree hreg
  · next hzero =>
    cases hrun
    apply scanned_of_byte h
    · intro m h1 h2 h3
      by_contra hno
      exact hzero ((fires_iff hs htight).mpr ⟨m, h1, h2, h3, by simpa using hno⟩)
    · rw [hs.metIs]

theorem range_append_cons {n i : Nat} {seen rest : List Nat} (h : List.range n = seen ++ i :: rest) :
    i = seen.length ∧ i < n := by
  have hlt : seen.length < n := by
    have := congrArg List.length h
    simp at this
    omega
  have hget : (List.range n)[seen.length]? = some i := by simp [h]
  rw [List.getElem?_range hlt, Option.some.injEq] at hget
  omega

/-- Run lemma of the loop, from a scan bitmap without met blocks. -/
theorem scanBytes_run {fuel : Nat} {c c' : Control} (hblk : BlksizeOk a.blksize)
    (htotal : a.bitmap.total = len) (htight : Tight aal met) (h : Shaped len met c)
    (hscan : ∀ j, j < len → c.bmScan.has aal j = true → met.has aal j = false)
    (hrun : (Run.forEach (scanByte aal fuel a) (List.range c.bmMet.size)).run c =
      some (.ok (), c')) :
    Scanned aal len (blocksPerBitmap a.blksize) met (c.bmAlloc.has aal) (c.bmScan.has aal)
      c.bmMet.size c' := by
  have hinv := Run.forEach_ensures (fun seen s => Scanned aal len (blocksPerBitmap a.blksize)
    met (c.bmAlloc.has aal) (c.bmScan.has aal) seen.length s) (by
      intro seen i rest s s' hsplit hs hrun
      obtain ⟨rfl, hlt⟩ := range_append_cons hsplit
      rw [List.length_append, List.length_singleton]
      refine scanByte_spec hblk htotal htight ?_ hs hrun
      rw [h.metIs, h.size.2.2] at hlt
      exact hlt) (by
      have hno : ∀ r, ¬Distrusted aal len (blocksPerBitmap a.blksize) met (c.bmAlloc.has aal) 0 r := by
        rintro r ⟨m, hm, -⟩
        exact absurd hm (Nat.not_lt_zero _)
      refine ⟨h, ?_, ?_⟩
      · intro j hj
        simp [hno]
      · intro j hj
        simp only [List.length_nil, hno, Nat.not_lt_zero, false_and, or_false]
        exact ⟨fun hs => ⟨hscan j hj hs, hs⟩, fun hs => hs.2⟩) hrun
  rw [List.length_range] at hinv
  exact hinv

end Bytes

/-! ## The whole pass -/

section Pass

variable {aal : AalBits} {adler32 : List UInt8 → UInt32} {fsLen : Nat} {met : Bitmap} {a : Alloc}

/-- The allocator and the met blocks are those of one file system. -/
structure Prepared (aal : AalBits) (fsLen : Nat) (a : Alloc) (met : Bitmap) : Prop where
  blksize : BlksizeOk a.blksize
  len : fsLen < 18446744073709551616
  allocTotal : a.bitmap.total = fsLen
  allocSize : a.bitmap.size = (reiser4BitmapCreate fsLen).size
  metTotal : met.total = fsLen
  metSize : met.size = (reiser4BitmapCreate fsLen).size
  tight : Tight aal met

/-- The block is taken as allocated when the loop over the bytes begins. -/
def Taken (aal : AalBits) (adler32 : List UInt8 → UInt32) (whole : Bool) (a : Alloc)
    (blks : List Nat) (j : Nat) : Prop :=
  whole = true ∨ a.bitmap.has aal j = true ∨ (j ∈ blks ∧ Broken aal adler32 a j)

theorem createSize (h : (fsLen + 7) / 8 < two32) :
    (reiser4BitmapCreate fsLen).size = (fsLen + 7) / 8 :=
  (bitmapCreate_wf AalBits.plain h).sized.1

theorem create_has (j : Nat) : (reiser4BitmapCreate fsLen).has aal j = false := by
  unfold Bitmap.has reiser4BitmapCreate
  rw [BitOrder.test_zero, Bool.and_false]

/-- The copy of the allocator's bitmap the pass begins with. -/
theorem initial_has (whole : Bool) (h : Prepared aal fsLen a met) (hfits : (fsLen + 7) / 8 < two32)
    {j : Nat} (hj : j < fsLen) :
    (if whole then reiser4BitmapInvert aal (reiser4BitmapCreate fsLen)
      else alloc40Extract a (reiser4BitmapCreate fsLen)).has aal j = true ↔
      whole = true ∨ a.bitmap.has aal j = true := by
  have hsized := (bitmapCreate_wf aal hfits).sized
  cases whole with
  | true =>
    rw [if_pos rfl, invert_has hsized hj, create_has]
    simp
  | false =>
    have htotal : (alloc40Extract a (reiser4BitmapCreate fsLen)).total = fsLen := rfl
    have hroom : j / 8 < (reiser4BitmapCreate fsLen).size := hsized.room hj
    have hbyte : (alloc40Extract a (reiser4BitmapCreate fsLen)).map (j / 8) =
        a.bitmap.map (j / 8) := by
      unfold alloc40Extract
      dsimp only
      rw [Bytes.copy_in _ _ _ _ _ _ (Nat.zero_le _) (by omega)]
      rfl
    rw [if_neg (by decide), Bitmap.has_of_lt (by rw [htotal]; exact hj),
      Bitmap.has_of_lt (by rw [h.allocTotal]; exact hj)]
    unfold BitOrder.test
    rw [hbyte]
    simp

/-- Where the bits of a bitmap could be counted, its byte count fits. -/
theorem fits_of_calcMarked {b b' : Bitmap} (hlen : fsLen < 18446744073709551616)
    (htotal : b.total = fsLen) (hsize : b.size = (reiser4BitmapCreate fsLen).size)
    (h : reiser4BitmapCalcMarked aal b = some b') : (fsLen + 7) / 8 < two32 := by
  by_contra hlong
  have hlt : (reiser4BitmapCreate fsLen).size < two32 := Nat.mod_lt _ (by decide)
  rw [calcMarked_none (by rw [htotal]; exact hlen)] at h
  · cases h
  · rw [htotal, hsize]
    unfold two32 at hlt hlong
    omega

theorem lift_ok {α : Type} {o : Option α} {x : α} {c c' : Control}
    (h : (Run.lift o : Run Control Errno α).run c = some (.ok x, c')) : o = some x := by
  cases o with
  | none => cases h
  | some y =>
    cases h
    rfl

/-- **The set that is scanned**: what was not met and is taken as allocated, and all that was not met
    in a region with a met block that is not. -/
theorem repairDsPrepare_scan {fuel : Nat} {whole : Bool} {c c' : Control}
    (h : Prepared aal fsLen a c.bmMet)
    (hrun : (repairDsPrepare aal adler32 fuel whole a fsLen).run c = some (.ok (), c')) :
    (fsLen + 7) / 8 < two32 ∧ c'.bmScan.marked = c'.bmScan.count aal ∧
      c'.bmScan.total = fsLen ∧
      ∃ blks, visited fuel a.blksize fsLen = some blks ∧ ∀ j, j < fsLen →
        (c'.bmScan.has aal j = true ↔ c.bmMet.has aal j = false ∧
          (Taken aal adler32 whole a blks j ∨ ∃ m, m < fsLen ∧
            m / blocksPerBitmap a.blksize = j / blocksPerBitmap a.blksize ∧
            c.bmMet.has aal m = true ∧ ¬Taken aal adler32 whole a blks m)) := by
  unfold repairDsPrepare at hrun
  rw [Run.modify_bind] at hrun
  obtain ⟨⟨⟩, c1, hlayout, hrun⟩ := Run.bind_ok.mp hrun
  rw [Run.get_bind] at hrun
  obtain ⟨⟨⟩, c2, hloop, hrun⟩ := Run.bind_ok.mp hrun
  rw [Run.get_bind] at hrun
  obtain ⟨scan, c3, hcalc, hrun⟩ := Run.bind_ok.mp hrun
  obtain ⟨leaf, c4, -, hrun⟩ := Run.bind_ok.mp hrun
  obtain ⟨twig, c5, -, hend⟩ := Run.bind_ok.mp hrun
  -- Counting the scan bitmap has succeeded, so the map has room for all bits.
  have hlen : ScanLen fsLen (reiser4BitmapCreate fsLen).size c2 := by
    have h1 : ScanLen fsLen (reiser4BitmapCreate fsLen).size _ :=
      layoutBad_keeps fuel a _ _ _ ⟨rfl, rfl⟩ hlayout
    exact Run.Keeps.forEach (scanByte_keeps fuel a) _ _ _ _ h1 hloop
  replace hcalc := lift_ok hcalc
  cases hend
  have hfits := fits_of_calcMarked h.len hlen.1 hlen.2 hcalc
  have hcreate := createSize hfits
  have hsized : a.bitmap.Sized := by
    refine ⟨?_, ?_⟩
    · rw [h.allocSize, h.allocTotal, hcreate]
    · rw [h.allocSize, hcreate]
      exact hfits
  have hshape : Shaped fsLen c.bmMet { c with
      bmScan := reiser4BitmapCreate fsLen
      bmAlloc := if whole then reiser4BitmapInvert aal (reiser4BitmapCreate fsLen)
        else alloc40Extract a (reiser4BitmapCreate fsLen) } := by
    refine ⟨rfl, ⟨?_, rfl, h.metTotal⟩, ⟨?_, hcreate, by rw [h.metSize, hcreate]⟩, hfits⟩
    · cases whole <;> rfl
    · rw [← hcreate]
      cases whole <;> rfl
  obtain ⟨blks, hvis, hshape1, halloc1, hscan1⟩ :=
    layoutBad_spec h.blksize hsized h.allocTotal hshape hlayout
  have htaken : ∀ j, j < fsLen →
      (c1.bmAlloc.has aal j = true ↔ Taken aal adler32 whole a blks j) := by
    intro j hj
    rw [halloc1 j hj]
    show _ ∨ (if whole then _ else _ : Bitmap).has aal j = true ↔ _
    rw [initial_has whole h hfits hj]
    unfold Taken
    rw [or_comm, or_assoc]
  have hscan1' : ∀ j, j < fsLen → (c1.bmScan.has aal j = true ↔
      (j ∈ blks ∧ Broken aal adler32 a j) ∧ c.bmMet.has aal j = false) := by
    intro j hj
    rw [hscan1 j hj]
    show _ ∨ (reiser4BitmapCreate fsLen).has aal j = true ↔ _
    rw [create_has]
    simp
  have hloop' := scanBytes_run h.blksize h.allocTotal h.tight hshape1
    (fun j hj hs => ((hscan1' j hj).mp hs).2) hloop
  have hsize : c1.bmMet.size = (fsLen + 7) / 8 := by rw [hshape1.metIs, hshape1.size.2.2]
  rw [calcMarked_spec hloop'.shaped.scan_sized, Option.some.injEq] at hcalc
  rw [← hcalc]
  refine ⟨hfits, rfl, hlen.1, blks, hvis, ?_⟩
  intro j hj
  rw [Bitmap.has_marked, hloop'.scan j hj, hsize]
  refine and_congr_right ?_
  intro hno
  have hbyte : j / 8 < (fsLen + 7) / 8 := by omega
  constructor
  · rintro (h1 | ⟨m, -, h2, h3, h4, h5⟩ | ⟨-, h1⟩)
    · exact Or.inl (Or.inr (Or.inr ((hscan1' j hj).mp h1).1))
    · refine Or.inr ⟨m, h2, h3, h4, ?_⟩
      rw [← htaken m h2, h5]
      decide
    · exact Or.inl ((htaken j hj).mp h1)
  · rintro (h1 | ⟨m, h2, h3, h4, h5⟩)
    · exact Or.inr (Or.inr ⟨hbyte, (htaken j hj).mpr h1⟩)
    · refine Or.inr (Or.inl ⟨m, by omega, h2, h3, h4, ?_⟩)
      rw [← htaken m h2] at h5
      simpa using h5

/-- The region of the block is one whose bitmap block is broken. -/
def InBroken (aal : AalBits) (adler32 : List UInt8 → UInt32) (fsLen : Nat) (a : Alloc) (j : Nat) :
    Prop :=
  ∃ blks, Visits a.blksize fsLen blks ∧ ∃ v ∈ blks, Broken aal adler32 a v ∧
    j / blocksPerBitmap a.blksize = v / blocksPerBitmap a.blksize

/-- The region of the block has a met block that is free on disk. -/
def InMetFree (aal : AalBits) (fsLen : Nat) (a : Alloc) (met : Bitmap) (j : Nat) : Prop :=
  ∃ m, m < fsLen ∧ m / blocksPerBitmap a.blksize = j / blocksPerBitmap a.blksize ∧
    met.has aal m = true ∧ a.bitmap.has aal m = false

/-- The blocks to be scanned: those not met that are allocated on disk, or lie in a broken region, or
    in a region with a met block that is free. -/
def ToScan (aal : AalBits) (adler32 : List UInt8 → UInt32) (fsLen : Nat) (a : Alloc) (met : Bitmap)
    (j : Nat) : Prop :=
  j < fsLen ∧ met.has aal j = false ∧
    (a.bitmap.has aal j = true ∨ InBroken aal adler32 fsLen a j ∨ InMetFree aal fsLen a met j)

/-- The scan bitmap is that set, and its count the number of its blocks. -/
def ScanExact (aal : AalBits) (adler32 : List UInt8 → UInt32) (fsLen : Nat) (a : Alloc)
    (met scan : Bitmap) : Prop :=
  (∀ j, scan.has aal j = true ↔ ToScan aal adler32 fsLen a met j) ∧ scan.marked = scan.count aal

/-- Nothing of a broken region is missed: each of its blocks that was not met is allocated on disk or
    is the bitmap block itself, or another block than that was met and is free.  With `REPAIR_WHOLE`
    nothing is scanned too much. -/
def Covered (aal : AalBits) (adler32 : List UInt8 → UInt32) (whole : Bool) (fsLen : Nat) (a : Alloc)
    (met : Bitmap) : Prop :=
  if whole then
    ∀ j, j < fsLen → met.has aal j = false → a.bitmap.has aal j = true ∨
      InBroken aal adler32 fsLen a j ∨ InMetFree aal fsLen a met j
  else
    ∀ blks, Visits a.blksize fsLen blks → ∀ v ∈ blks, Broken aal adler32 a v → ∀ j, j < fsLen →
      j / blocksPerBitmap a.blksize = v / blocksPerBitmap a.blksize → met.has aal j = false →
      a.bitmap.has aal j = true ∨ j = v ∨ ∃ m, m < fsLen ∧ m ≠ v ∧
        m / blocksPerBitmap a.blksize = v / blocksPerBitmap a.blksize ∧
        met.has aal m = true ∧ a.bitmap.has aal m = false

/-- **The scan bitmap is the set of the blocks to be scanned if and only if** `Covered` holds. -/
theorem repairDsPrepare_exact_iff (aal : AalBits) (adler32 : List UInt8 → UInt32) (fuel : Nat)
    (whole : Bool) (fsLen : Nat) (a : Alloc) (c c' : Control) (h : Prepared aal fsLen a c.bmMet)
    (hrun : (repairDsPrepare aal adler32 fuel whole a fsLen).run c = some (.ok (), c')) :
    ScanExact aal adler32 fsLen a c.bmMet c'.bmScan ↔
      Covered aal adler32 whole fsLen a c.bmMet := by
  obtain ⟨hfits, hmarked, htotal, blks, hvis, hscan⟩ := repairDsPrepare_scan h hrun
  have hlen : fsLen < 34359738368 := (bitmapCreate_wf aal hfits).sized.total_lt
  have hv := visited_visits hvis
  have hexact : ScanExact aal adler32 fsLen a c.bmMet c'.bmScan ↔
      ∀ j, j < fsLen → (c'.bmScan.has aal j = true ↔ ToScan aal adler32 fsLen a c.bmMet j) := by
    constructor
    · rintro ⟨hset, -⟩ j -
      exact hset j
    · intro hset
      refine ⟨?_, hmarked⟩
      intro j
      by_cases hj : j < fsLen
      · exact hset j hj
      · constructor
        · intro hhas
          exact absurd (Bitmap.has_lt hhas) (by rw [htotal]; exact hj)
        · intro ht
          exact absurd ht.1 hj
  rw [hexact]
  unfold Covered
  cases whole with
  | true =>
    -- Everything is taken as allocated.
    have hall : ∀ j, j < fsLen → (c'.bmScan.has aal j = true ↔ c.bmMet.has aal j = false) := by
      intro j hj
      rw [hscan j hj]
      exact ⟨fun hs => hs.1, fun hno => ⟨hno, Or.inl (Or.inl rfl)⟩⟩
    rw [if_pos rfl]
    constructor
    · intro hset j hj hno
      exact ((hset j hj).mp ((hall j hj).mpr hno)).2.2
    · intro hcov j hj
      rw [hall j hj]
      exact ⟨fun hno => ⟨hj, hno, hcov j hj hno⟩, fun ht => ht.2.1⟩
  | false =>
    rw [if_neg (by decide)]
    have hone : ∀ v ∈ blks, ∀ w ∈ blks,
        v / blocksPerBitmap a.blksize = w / blocksPerBitmap a.blksize → v = w :=
      fun v h1 w h2 => visits_piece_inj h.blksize hlen hv h1 h2
    have htaken : ∀ j, Taken aal adler32 false a blks j ↔
        a.bitmap.has aal j = true ∨ (j ∈ blks ∧ Broken aal adler32 a j) := by
      intro j
      unfold Taken
      simp
    constructor
    · intro hset blks' hv' v hmem hbroken j hj hregion hno
      rw [visits_unique hv' hv] at hmem
      have ht : ToScan aal adler32 fsLen a c.bmMet j :=
        ⟨hj, hno, Or.inr (Or.inl ⟨blks, hv, v, hmem, hbroken, hregion⟩)⟩
      obtain ⟨-, h1 | ⟨m, h2, h3, h4, h5⟩⟩ := (hscan j hj).mp ((hset j hj).mpr ht)
      · rcases (htaken j).mp h1 with h1 | ⟨h1, -⟩
        · exact Or.inl h1
        · exact Or.inr (Or.inl (hone j h1 v hmem hregion))
      · rw [htaken, not_or] at h5
        refine Or.inr (Or.inr ⟨m, h2, ?_, h3.trans hregion, h4, by simpa using h5.1⟩)
        rintro rfl
        exact h5.2 ⟨hmem, hbroken⟩
    · intro hcov j hj
      -- A broken region is scanned as far as the condition says.
      have hbrk : ∀ v ∈ blks, Broken aal adler32 a v →
          j / blocksPerBitmap a.blksize = v / blocksPerBitmap a.blksize →
          c.bmMet.has aal j = false → c'.bmScan.has aal j = true := by
        intro v hmem hbroken hregion hno
        rw [hscan j hj]
        refine ⟨hno, ?_⟩
        rcases hcov blks hv v hmem hbroken j hj hregion hno with h1 | rfl | ⟨m, h1, h2, h3, h4, h5⟩
        · exact Or.inl ((htaken j).mpr (Or.inl h1))
        · exact Or.inl ((htaken j).mpr (Or.inr ⟨hmem, hbroken⟩))
        · refine Or.inr ⟨m, h1, h3.trans hregion.symm, h4, ?_⟩
          rw [htaken, not_or]
          refine ⟨by rw [h5]; decide, ?_⟩
          rintro ⟨h6, -⟩
          exact h2 (hone m h6 v hmem h3)
      constructor
      · intro hs
        obtain ⟨hno, h1 | ⟨m, h2, h3, h4, h5⟩⟩ := (hscan j hj).mp hs
        · rcases (htaken j).mp h1 with h1 | ⟨h1, h2⟩
          · exact ⟨hj, hno, Or.inl h1⟩
          · exact ⟨hj, hno, Or.inr (Or.inl ⟨blks, hv, j, h1, h2, rfl⟩)⟩
        · rw [htaken, not_or] at h5
          exact ⟨hj, hno, Or.inr (Or.inr ⟨m, h2, h3, h4, by simpa using h5.1⟩)⟩
      · rintro ⟨-, hno, h1 | ⟨blks', hv', v, h1, h2, h3⟩ | ⟨m, h1, h2, h3, h4⟩⟩
        · rw [hscan j hj]
          exact ⟨hno, Or.inl ((htaken j).mpr (Or.inl h1))⟩
        · rw [visits_unique hv' hv] at h1
          exact hbrk v h1 h2 h3 hno
        · by_cases hm : m ∈ blks ∧ Broken aal adler32 a m
          · exact hbrk m hm.1 hm.2 h2.symm hno
          · rw [hscan j hj]
            refine ⟨hno, Or.inr ⟨m, h1, h2, h3, ?_⟩⟩
            rw [htaken, not_or]
            exact ⟨by rw [h4]; decide, hm⟩

end Pass

/-- A file system of 20 blocks of 4 KiB; blocks 5 and 18, its bitmap block, are allocated on disk. -/
def sampleAlloc (crc : Nat) : Alloc where
  state := 0
  blksize := 4096
  device := fun _ => none
  bitmap :=
    { marked := 2, total := 20, size := 3, map := ofBits fun j => decide (j = 5) || decide (j = 18) }
  crc := fun _ => crc

/-- No block was met. -/
def sampleControl : Control where
  bmAlloc := reiser4BitmapCreate 0
  bmScan := reiser4BitmapCreate 0
  bmMet := reiser4BitmapCreate 20
  bmLeaf := reiser4BitmapCreate 20
  bmTwig := reiser4BitmapCreate 20

theorem sample_prepared (crc : Nat) :
    Prepared AalBits.plain 20 (sampleAlloc crc) sampleControl.bmMet :=
  ⟨blksizeOk_4096, by decide, rfl, rfl, rfl, rfl, fun j _ => BitOrder.test_zero _ j⟩

/-- The only bitmap block is block 18. -/
theorem sample_visits : Visits 4096 20 [18] := visits_iff.mpr ⟨2, by decide⟩

theorem sample_has (crc j : Nat) (hj : j < 20) :
    (sampleAlloc crc).bitmap.has AalBits.plain j = (decide (j = 5) || decide (j = 18)) := by
  rw [Bitmap.has_of_lt hj]
  exact test_ofBits (fun j => decide (j = 5) || decide (j = 18)) j

/-- Block 7, which is free on disk, was met. -/
def metControl : Control := { sampleControl with
  bmMet := { reiser4BitmapCreate 20 with marked := 1, map := ofBits fun j => decide (j = 7) } }

theorem met_prepared (crc : Nat) : Prepared AalBits.bytewise 20 (sampleAlloc crc) metControl.bmMet := by
  refine ⟨blksizeOk_4096, by decide, rfl, rfl, rfl, rfl, fun j hj => ?_⟩
  rw [show metControl.bmMet.map = ofBits fun j => decide (j = 7) from rfl]
  have hle : 20 ≤ j := hj
  exact (test_ofBits _ j).trans (decide_eq_false (by omega))

/-- With a wrong checksum the region is broken; since a free block of it was met the scan bitmap is exact. -/
theorem repairDsPrepare_exact_met : ∃ c',
    (repairDsPrepare AalBits.bytewise (fun _ => 1) 100 false (sampleAlloc 0) 20).run metControl =
      some (.ok (), c') ∧
    ScanExact AalBits.bytewise (fun _ => 1) 20 (sampleAlloc 0) metControl.bmMet c'.bmScan := by
  obtain ⟨⟨⟩, c', hrun⟩ := Run.succeeds_iff.mp (show (repairDsPrepare AalBits.bytewise (fun _ => 1) 100
    false (sampleAlloc 0) 20).succeeds metControl = true by decide +kernel)
  refine ⟨c', hrun, (repairDsPrepare_exact_iff AalBits.bytewise (fun _ => 1) 100 false 20 (sampleAlloc 0)
    metControl c' (met_prepared 0) hrun).mpr ?_⟩
  intro blks hv v hmem _ j _ _ _
  rw [visits_unique hv sample_visits, List.mem_singleton] at hmem
  subst hmem
  refine Or.inr (Or.inr ⟨7, by decide, by decide, by decide, ?_, ?_⟩)
  · rw [Bitmap.has_of_lt (by decide)]
    exact test_ofBits (fun j => decide (j = 7)) 7
  · show (sampleAlloc 0).bitmap.has AalBits.plain 7 = false
    rw [sample_has 0 7 (by decide)]
    decide

/-- With a wrong checksum the region is broken, but block 0 is not scanned. -/
theorem repairDsPrepare_misses : ∃ c',
    (repairDsPrepare AalBits.plain (fun _ => 1) 100 false (sampleAlloc 0) 20).run sampleControl =
      some (.ok (), c') ∧
    ¬ScanExact AalBits.plain (fun _ => 1) 20 (sampleAlloc 0) sampleControl.bmMet c'.bmScan := by
  obtain ⟨⟨⟩, c', hrun⟩ := Run.succeeds_iff.mp (show (repairDsPrepare AalBits.plain (fun _ => 1) 100
    false (sampleAlloc 0) 20).succeeds sampleControl = true by decide)
  refine ⟨c', hrun, ?_⟩
  rintro ⟨hset, -⟩
  have hmet : ∀ j, sampleControl.bmMet.has AalBits.plain j = false := create_has
  have hbroken : InBroken AalBits.plain (fun _ => 1) 20 (sampleAlloc 0) 0 :=
    ⟨[18], sample_visits, 18, by simp, Or.inl (by decide), by decide⟩
  obtain ⟨-, -, -, blks, hvis, hscan⟩ := repairDsPrepare_scan (sample_prepared 0) hrun
  have h0 := (hscan 0 (by decide)).mp ((hset 0).mpr ⟨by decide, hmet 0, Or.inr (Or.inl hbroken)⟩)
  rcases h0.2 with (h | h | ⟨h, -⟩) | ⟨m, -, -, h, -⟩
  · cases h
  · rw [sample_has 0 0 (by decide)] at h
    cases h
  · have hblks : blks = [18] := visits_unique (visited_visits hvis) sample_visits
    rw [hblks] at h
    simp at h
  · rw [hmet m] at h
    cases h

end Reiser4.Repair
