/-
  The layout of the backups, as the file system walks it and as `repair_backup_open` does.

  Both call `reiser4_backup_layout_body` with the block size and the length; the file system with its own
  allocator, `repair_backup_open` with one created for the whole device.  The end of the last region is that of
  the allocator, so a copy can differ where a region is cut to one block.  The block numbers that the loop tries
  do not depend on the length; none of them is one of the first two blocks of a region, for any block size.

    1. `expBlock_apart`      the crux: no block number of the loop is at the start of a region;
    2. `backupBlocks_congr`  the loop looks at the copies of these block numbers only;
    3. `copyAt_secondBlock`  there both allocators give the second block of the region;
    4. `backupLayout_agree`  the two layouts.
-/
import Reiser4.Format40.Backup

namespace Reiser4.Fs

open Reiser4.Lib Reiser4.Alloc40 Reiser4.Format40

/-- `reiser4_backup_layout_body`. -/
def reiser4BackupLayoutBody {σ : Type} (f : Nat → Nat → Run σ Errno Unit) (fuel : Nat) (a : Alloc)
    (blksize len : Nat) : Run σ Errno Unit :=
  backupLoop f a blksize len fuel 0 2

/-- The walk of `repair_backup_open` over the backups of a file system of `len` blocks, on a device of `blocks`
    blocks of `unit` bytes. -/
def repairBackupLayout {σ : Type} (f : Nat → Nat → Run σ Errno Unit) (fuel : Nat) (device : Device)
    (blocks unit blksize len : Nat) : Run σ Errno Unit :=
  reiser4BackupLayoutBody f fuel (alloc40Create device blksize (repairFormatLenOld blocks unit blksize)) blksize len

/-! ## The block numbers of the loop -/

/-- The `k`-th block number of the loop. -/
def expBlock : Nat → Nat
  | 0 => 2
  | k + 1 => backupExpLayout (expBlock k)

theorem lt_expBlock : 36028797018963968 < expBlock 95 := by decide +kernel

/-- The block sizes there are. -/
theorem blksize_cases {blksize : Nat} (h : cbBsCheck blksize = true) :
    blksize = 512 ∨ blksize = 1024 ∨ blksize = 2048 ∨ blksize = 4096 ∨ blksize = 8192 := by
  unfold cbBsCheck at h
  simp only [Bool.and_eq_true, decide_eq_true_eq, beq_iff_eq] at h
  obtain ⟨⟨hlow, hhigh⟩, hpow⟩ := h
  obtain ⟨k, rfl⟩ := (Nat.and_sub_one_eq_zero_iff_isPowerOfTwo (by omega)).mp hpow
  have h9 : 9 ≤ k := (Nat.pow_le_pow_iff_right (show 1 < 2 by decide)).mp hlow
  have h13 : k ≤ 13 := (Nat.pow_le_pow_iff_right (show 1 < 2 by decide)).mp (show 2 ^ k ≤ 2 ^ 13 from hhigh)
  rcases (show k = 9 ∨ k = 10 ∨ k = 11 ∨ k = 12 ∨ k = 13 by omega) with rfl | rfl | rfl | rfl | rfl <;> decide

/-- **No block number of the loop is one of the first two blocks of a region.** -/
theorem expBlock_apart {blksize k : Nat} (h : cbBsCheck blksize = true) (hk : k < 95) :
    2 ≤ expBlock k % blocksPerBitmap blksize := by
  have hall : ∀ b ∈ [512, 1024, 2048, 4096, 8192], ∀ k < 95, 2 ≤ expBlock k % blocksPerBitmap b := by
    decide +kernel
  refine hall blksize ?_ k hk
  rcases blksize_cases h with rfl | rfl | rfl | rfl | rfl <;> decide

variable {len : Nat}

/-- The loop looks at the copies of its own block numbers only, up to the length. -/
theorem backupBlocks_congr {c c' : Nat → Nat} (hlen : len < expBlock 95)
    (hc : ∀ k < 95, expBlock k ≤ len → c (expBlock k) = c' (expBlock k)) :
    ∀ fuel prev k, k < 95 → prev ≤ len →
      backupBlocks c len fuel prev (expBlock k) = backupBlocks c' len fuel prev (expBlock k)
  | 0, _, _, _, _ => rfl
  | fuel + 1, prev, k, hk, hprev => by
    rw [backupBlocks, backupBlocks, show backupExpLayout (expBlock k) = expBlock (k + 1) from rfl]
    by_cases hend : len < expBlock (k + 1)
    · have hback : ¬ expBlock (k + 1) ≤ prev := by omega
      rw [if_neg hback, if_neg hback, if_pos hend, if_pos hend]
    have hk1 : k + 1 < 95 := by
      by_contra hlast
      have : k + 1 = 95 := by omega
      rw [this] at hend
      exact hend hlen
    have hsame := hc (k + 1) hk1 (Nat.le_of_not_lt hend)
    have ih : ∀ prev, prev ≤ len → backupBlocks c len fuel prev (expBlock (k + 1)) =
        backupBlocks c' len fuel prev (expBlock (k + 1)) :=
      fun prev => backupBlocks_congr hlen hc fuel prev (k + 1) hk1
    rw [← hsame, ih prev hprev, if_neg hend, if_neg hend]
    by_cases hcopy : len < c (expBlock (k + 1))
    · rw [if_pos hcopy, if_pos hcopy]
    · rw [if_neg hcopy, if_neg hcopy, ih _ (Nat.le_of_not_lt hcopy)]

/-- A loop that ended has fuel enough. -/
theorem backupBlocks_mono {c : Nat → Nat} : ∀ {fuel fuel' prev blk : Nat} {blks : List Nat}, fuel ≤ fuel' →
    backupBlocks c len fuel prev blk = some blks → backupBlocks c len fuel' prev blk = some blks
  | 0, _, _, _, _, _, h => by cases h
  | fuel + 1, 0, _, _, _, hle, _ => by omega
  | fuel + 1, fuel' + 1, prev, blk, blks, hle, h => by
    rw [backupBlocks] at h ⊢
    split at h
    · next hprev =>
      rw [if_pos hprev]
      exact backupBlocks_mono (Nat.le_of_succ_le_succ hle) h
    next hprev =>
    rw [if_neg hprev]
    split at h
    · next hend =>
      rw [if_pos hend]
      exact h
    next hend =>
    rw [if_neg hend]
    split at h
    · next hcopy =>
      rw [if_pos hcopy]
      exact h
    next hcopy =>
    rw [if_neg hcopy]
    split at h
    · next hback =>
      rw [if_pos hback]
      exact backupBlocks_mono (Nat.le_of_succ_le_succ hle) h
    · next hback =>
      rw [if_neg hback]
      obtain ⟨rest, hrest, hblks⟩ := Option.map_eq_some_iff.mp h
      rw [backupBlocks_mono (Nat.le_of_succ_le_succ hle) hrest]
      exact congrArg some hblks

/-! ## The copies -/

/-- The second block of the region of a block number of the loop; 0 for any other number. -/
def secondBlock (blksize len blk : Nat) : Nat :=
  if blk ≤ len ∧ 2 ≤ blk % blocksPerBitmap blksize then
    max (backupStart blksize) (blk / blocksPerBitmap blksize * blocksPerBitmap blksize + 1)
  else 0

/-- An allocator that has this block does not cut the region in front of its third block. -/
theorem copyAt_secondBlock {blksize total blk : Nat} (h : Accepted blksize len) (htotal : total < 36028797018963968)
    (hle : len ≤ total) (hblk : blk ≤ len) (hmod : 2 ≤ blk % blocksPerBitmap blksize) :
    copyAt blksize total blk = secondBlock blksize len blk := by
  have hpos := h.bounds.2
  have hhigh : blocksPerBitmap blksize ≤ 65536 := by
    have := h.high
    unfold blocksPerBitmap
    omega
  have hdiv : blk / blocksPerBitmap blksize * blocksPerBitmap blksize + blk % blocksPerBitmap blksize = blk :=
    Nat.div_add_mod' blk _
  unfold copyAt secondBlock
  dsimp only
  generalize blk / blocksPerBitmap blksize * blocksPerBitmap blksize = start at hdiv ⊢
  rw [if_pos (And.intro hblk hmod), if_neg]
  rw [show u64 (start + blocksPerBitmap blksize) = start + blocksPerBitmap blksize from
    Nat.mod_eq_of_lt (by omega)]
  split <;> omega

/-- A length that the check of a backup accepts. -/
theorem accepted_of_old {blocks unit blksize : Nat} (hb : cbBsCheck blksize = true)
    (hl : repairFormatCheckLenOld blocks unit blksize len = true) : Accepted blksize len ∧
      len ≤ repairFormatLenOld blocks unit blksize ∧ repairFormatLenOld blocks unit blksize < 36028797018963968 := by
  unfold cbBsCheck at hb
  unfold repairFormatCheckLenOld at hl
  simp only [Bool.and_eq_true, decide_eq_true_eq] at hb hl
  have hmax : repairFormatLenOld blocks unit blksize < 36028797018963968 := by
    unfold repairFormatLenOld
    rw [Nat.div_lt_iff_lt_mul (by omega)]
    have h1 : u64 (blocks * unit) < 18446744073709551616 := Nat.mod_lt _ (by decide)
    calc _ < 36028797018963968 * 512 := h1
      _ ≤ 36028797018963968 * blksize := Nat.mul_le_mul_left _ hb.1.1
  exact ⟨⟨hb.1.1, hb.1.2, hl.2, Nat.lt_of_le_of_lt hl.1 hmax⟩, hl.1, hmax⟩

/-- What is known of a second block. -/
theorem secondBlock_spec {blksize blk : Nat} (h : Accepted blksize len) (hne : 0 < secondBlock blksize len blk) :
    secondBlock blksize len blk < len ∧ backupStart blksize ≤ secondBlock blksize len blk ∧
      (secondBlock blksize len blk = backupStart blksize ∨
        secondBlock blksize len blk % blocksPerBitmap blksize = 1) := by
  have hpos := h.bounds.2
  have hmin := h.min_le
  have hstart : backupStart blksize < len := by
    unfold backupStart
    unfold fsMinSize at hmin
    omega
  have hdiv : blk / blocksPerBitmap blksize * blocksPerBitmap blksize + blk % blocksPerBitmap blksize = blk :=
    Nat.div_add_mod' blk _
  have hone : (blk / blocksPerBitmap blksize * blocksPerBitmap blksize + 1) % blocksPerBitmap blksize = 1 := by
    rw [Nat.mul_comm, Nat.mul_add_mod, Nat.mod_eq_of_lt (by omega)]
  unfold secondBlock at hne ⊢
  by_cases hin : blk ≤ len ∧ 2 ≤ blk % blocksPerBitmap blksize
  · rw [if_pos hin]
    rcases Nat.le_total (blk / blocksPerBitmap blksize * blocksPerBitmap blksize + 1) (backupStart blksize)
      with hle | hle
    · rw [Nat.max_eq_left hle]
      exact ⟨hstart, le_refl _, Or.inl rfl⟩
    · rw [Nat.max_eq_right hle]
      exact ⟨by omega, hle, Or.inr hone⟩
  · rw [if_neg hin] at hne
    omega

/-! ## The two layouts -/

/-- The blocks that both walks report. -/
theorem backups_of {blksize : Nat} (hb : cbBsCheck blksize = true) (h : Accepted blksize len) :
    ∃ backups : List Nat, (∀ fuel total, len + 3 ≤ fuel → len ≤ total → total < 36028797018963968 →
        backupBlocks (copyAt blksize total) len fuel 0 2 = some backups) ∧
      backups.Pairwise (· < ·) ∧ ∀ c ∈ backups, c < len ∧ backupStart blksize ≤ c ∧
        (c = backupStart blksize ∨ c % blocksPerBitmap blksize = 1) := by
  have hmax := h.lt_max
  have hlast := lt_expBlock
  have hshared : ∀ fuel total, len ≤ total → total < 36028797018963968 →
      backupBlocks (copyAt blksize total) len fuel 0 2 = backupBlocks (secondBlock blksize len) len fuel 0 2 := by
    intro fuel total hle htotal
    refine backupBlocks_congr (by omega) (fun k hk hblk => ?_) fuel 0 0 (by decide) (Nat.zero_le _)
    exact copyAt_secondBlock h htotal hle hblk (expBlock_apart hb hk)
  obtain ⟨backups, hrun, hsorted, hmem⟩ := @backupBlocks_spec (secondBlock blksize len) len (by omega) (len + 3)
    0 2 (le_refl _) (by omega) (Nat.zero_le _) (by omega)
  refine ⟨backups, fun fuel total hfuel hle htotal => ?_, hsorted, fun c hc => ?_⟩
  · rw [hshared fuel total hle htotal]
    exact backupBlocks_mono hfuel hrun
  · obtain ⟨hc0, -, b, rfl⟩ := hmem c hc
    exact secondBlock_spec h hc0

/-- **Layout agreement**: the backups of a file system are increasing blocks in front of its end, none of them a
    bitmap block; and the walk of the device, for the length in a backup block, visits the same. -/
theorem backupLayout_agree {blocks unit blksize len : Nat} (hb : cbBsCheck blksize = true)
    (hl : repairFormatCheckLenOld blocks unit blksize len = true) :
    ∃ (backups : List Nat) (enough : Nat), ∀ fuel, enough ≤ fuel →
      (∀ fs, Shape blksize len fs → ∀ (σ : Type) (f : Nat → Nat → Run σ Errno Unit) (s : σ),
        (reiser4BackupLayout f fuel fs).run s = (Run.forEach (fun b => f b 1) backups).run s) ∧
      (∀ (device : Device) (σ : Type) (f : Nat → Nat → Run σ Errno Unit) (s : σ),
        (repairBackupLayout f fuel device blocks unit blksize len).run s =
          (Run.forEach (fun b => f b 1) backups).run s) ∧
      backups.Pairwise (· < ·) ∧ (∀ b ∈ backups, b < len) ∧
      ∃ bitmaps : List Nat, (∀ b ∈ backups, b ∉ bitmaps) ∧ ∀ fs, Shape blksize len fs →
        Lists (fun _ f => reiser4AllocLayout f fuel fs.alloc) (bitmaps.map fun b => (b, 1)) := by
  obtain ⟨h, hle, hmax⟩ := accepted_of_old hb hl
  obtain ⟨backups, hrun, hsorted, hmem⟩ := backups_of hb h
  obtain ⟨enough, hareas⟩ := h.areas
  refine ⟨backups, max enough (len + 3), fun fuel hfuel => ⟨?_, ?_, hsorted, fun b hc => (hmem b hc).1, ?_⟩⟩
  · intro fs hs σ f s
    unfold reiser4BackupLayout
    rw [hs.blksize_eq, hs.len_eq]
    refine backupLoop_eq ?_ s
    rw [show backupCopy fs.alloc blksize = copyAt blksize len from
      funext (backupCopy_eq fs.alloc hs.alloc_blksize hs.alloc_total)]
    exact hrun fuel len (by omega) (le_refl _) h.lt_max
  · intro device σ f s
    refine backupLoop_eq ?_ s
    rw [show backupCopy (alloc40Create device blksize (repairFormatLenOld blocks unit blksize)) blksize =
      copyAt blksize (repairFormatLenOld blocks unit blksize) from funext (backupCopy_eq _ rfl rfl)]
    exact hrun fuel _ (by omega) hle hmax
  · obtain ⟨bitmaps, others, hp, hlists⟩ := hareas fuel (by omega)
    have hp' : Placed blksize len bitmaps backups :=
      ⟨hp.nodup, hp.bitmap, hsorted, fun c hc => (hmem c hc).2⟩
    exact ⟨bitmaps, fun b hc hb => hp'.disjoint h hb hc, fun fs hs => (hlists fs hs).1⟩

/-- A callback that notes the blocks it is called for. -/
theorem forEach_noted : ∀ (blks s : List Nat),
    (Run.forEach (fun b => (Run.modify (· ++ [b]) : Run (List Nat) Errno Unit)) blks).run s = some (.ok (), s ++ blks)
  | [], s => by
    rw [List.append_nil]
    rfl
  | b :: blks, s => by
    rw [Run.forEach, Run.modify_bind, forEach_noted blks, List.append_assoc]
    rfl

/-- In 50000 blocks of 4 KiB there are two backups: the first block behind the static areas, and the block behind the
    second bitmap block. -/
theorem backupLayout_agree_sample :
    ∃ enough : Nat, ∀ fuel, enough ≤ fuel →
      (∀ fs, Shape 4096 50000 fs → ∀ (σ : Type) (f : Nat → Nat → Run σ Errno Unit) (s : σ),
        (reiser4BackupLayout f fuel fs).run s = (Run.forEach (fun b => f b 1) [22, 32737]).run s) ∧
      ∀ (device : Device) (σ : Type) (f : Nat → Nat → Run σ Errno Unit) (s : σ),
        (repairBackupLayout f fuel device 1048576 512 4096 50000).run s =
          (Run.forEach (fun b => f b 1) [22, 32737]).run s := by
  obtain ⟨backups, enough, h⟩ := @backupLayout_agree 1048576 512 4096 50000 (by decide) (by decide)
  have hloop : backupBlocks (backupCopy (alloc40Create (fun _ => none) 4096 131072) 4096) 50000 (max enough 40) 0 2 =
      some [22, 32737] := by
    rw [show backupCopy (alloc40Create (fun _ => none) 4096 131072) 4096 = copyAt 4096 131072 from
      funext (backupCopy_eq _ rfl rfl)]
    exact backupBlocks_mono (Nat.le_max_right enough 40) (by decide)
  have hnoted := (h (max enough 40) (Nat.le_max_left enough 40)).2.1 (fun _ => none) (List Nat)
    (fun b _ => Run.modify (· ++ [b])) []
  have hbackups : backups = [22, 32737] := by
    rw [forEach_noted] at hnoted
    have hwalk := (backupLoop_eq hloop ([] : List Nat)).symm.trans hnoted
    rw [forEach_noted] at hwalk
    exact (List.append_cancel_left (Prod.mk.inj (Option.some.inj hwalk)).2).symm
  subst hbackups
  exact ⟨enough, fun fuel hfuel => ⟨(h fuel hfuel).1, (h fuel hfuel).2.1⟩⟩

end Reiser4.Fs
