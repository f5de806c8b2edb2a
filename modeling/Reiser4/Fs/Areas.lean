/-
  The static areas of a file system (`reiser4_fs_layout`, `reiser4_fs_belongs`, `reiser4_fs_create`,
  `reiser4_journal_create`).

  The master super block, the format, the journal, the status, the bitmaps and the backups are placed by
  seven functions, each by a formula of its own, and each calls a callback for its regions.  `Lists`
  says of a layout which calls these are; the layout of the file system, the search for an owner and
  the marking of the blocks are then the same list, run with different callbacks.

    1. `fsLayout_lists`      the calls of the whole layout;
    2. `owned_of`            a block without an owner is one of no region;
    3. `areas_nodup`         no block is in two areas;
    4. `created`             what is marked after the creation;
    5. `reiser4FsAreas_iff`  all of it holds as long as the bitmap fits its byte count.
-/
import Reiser4.Alloc40.Region

namespace Reiser4

/-- `reiser4_fs_t`. -/
structure Fs where
  blksize : Nat
  /-- The block count of the format. -/
  len : Nat
  /-- The free block count of the format. -/
  free : Nat
  alloc : Alloc40.Alloc
  /-- Is the journal there? -/
  journal : Bool

end Reiser4

namespace Reiser4.Fs

open Reiser4.Lib Reiser4.Alloc40

/-! ## Where the areas are -/

/-- `REISER4_MASTER_BLOCKNR`. -/
def masterBlocknr (blksize : Nat) : Nat := masterOffset / blksize

/-- `FORMAT40_BLOCKNR`. -/
def format40Blocknr (blksize : Nat) : Nat := masterBlocknr blksize + 1

/-- `JOURNAL40_BLOCKNR`: the header; the footer is the block behind it. -/
def journal40Blocknr (blksize : Nat) : Nat := masterBlocknr blksize + 3

/-- `REISER4_STATUS_BLOCKNR`. -/
def statusBlocknr (blksize : Nat) : Nat := masterBlocknr blksize + 5

/-- `REISER4_BACKUP_START`. -/
def backupStart (blksize : Nat) : Nat := masterBlocknr blksize + 6

/-- `REISER4_FS_MIN_SIZE`. -/
def fsMinSize (blksize : Nat) : Nat := 9 + masterBlocknr blksize

/-! ## The layouts -/

section Layouts

variable {σ : Type} (f : Nat → Nat → Run σ Errno Unit)

/-- `reiser4_master_layout`. -/
def reiser4MasterLayout (blksize : Nat) : Run σ Errno Unit := f (masterBlocknr blksize) 1

/-- `format40_layout`: the blocks in front of the format super block, and that one. -/
def format40Layout (blksize : Nat) : Run σ Errno Unit := do
  f 0 (format40Blocknr blksize)
  f (format40Blocknr blksize) 1

/-- `journal40_layout`. -/
def journal40Layout (blksize : Nat) : Run σ Errno Unit := f (journal40Blocknr blksize) 2

/-- `reiser4_status_layout`. -/
def reiser4StatusLayout (blksize : Nat) : Run σ Errno Unit := f (statusBlocknr blksize) 1

/-- `reiser4_alloc_layout`. -/
def reiser4AllocLayout (fuel : Nat) (a : Alloc) : Run σ Errno Unit :=
  alloc40Layout fuel a.blksize a.bitmap.total fun blk => f blk 1

/-- `cb_region` of the backups. -/
def cbRegion (blk count : Nat) : Run Nat Errno Unit :=
  Run.modify fun _ => if count = 1 then 0 else blk + 1

/-- The second block of the region of a block, 0 when the region has no other than the first. -/
def regionCopy (a : Alloc) (blk : Nat) : Nat :=
  match (alloc40Region a blk cbRegion).run 0 with
  | some (_, copy) => copy
  | none => 0

/-- `BACKUP_EXP_LAYOUT`. -/
def backupExpLayout (blk : Nat) : Nat := u64 (blk * 3) / 2

/-- The copy in the region of a block, not in front of the first backup. -/
def backupCopy (a : Alloc) (blksize blk : Nat) : Nat :=
  if regionCopy a blk < backupStart blksize then backupStart blksize else regionCopy a blk

/-- The loop of `reiser4_backup_layout_body`. -/
def backupLoop (a : Alloc) (blksize len : Nat) : Nat → Nat → Nat → Run σ Errno Unit
  | 0, _, _ => Run.hang
  | fuel + 1, prev, blk =>
    let blk := backupExpLayout blk
    if blk ≤ prev then backupLoop a blksize len fuel prev blk
    else if len < blk then pure ()
    else
      let copy := backupCopy a blksize blk
      if len < copy then pure ()
      else if copy ≤ prev then backupLoop a blksize len fuel prev blk
      else do
        f copy 1
        backupLoop a blksize len fuel copy blk

/-- `reiser4_backup_layout`. -/
def reiser4BackupLayout (fuel : Nat) (fs : Fs) : Run σ Errno Unit :=
  backupLoop f fs.alloc fs.blksize fs.len fuel 0 2

/-- `reiser4_fs_layout`; the oid allocator has no area. -/
def reiser4FsLayout (fuel : Nat) (fs : Fs) : Run σ Errno Unit := do
  reiser4MasterLayout f fs.blksize
  format40Layout f fs.blksize
  if fs.journal then journal40Layout f fs.blksize else pure ()
  reiser4StatusLayout f fs.blksize
  reiser4AllocLayout f fuel fs.alloc
  reiser4BackupLayout f fuel fs

end Layouts

/-! ## The owner of a block -/

/-- `reiser4_owner_t`, as far as blocks can have them. -/
inductive Owner
  | master | format | journal | status | alloc | backup | unknown
  deriving DecidableEq, Repr

/-- `cb_check_block`.  Where it answers 1 the layouts stop, as they do for any answer but 0 and
    `-ESTRUCT`. -/
def cbCheckBlock (blk start width : Nat) : Run Unit Errno Unit :=
  if start ≤ blk ∧ blk < start + width then Run.fail .einval else pure ()

/-- A layout with `cb_check_block`: did it answer anything but 0? -/
def checks (layout : Run Unit Errno Unit) : Option Bool :=
  match layout.run () with
  | none => none
  | some (.ok (), _) => some false
  | some (.error _, _) => some true

/-- `reiser4_fs_belongs`. -/
def reiser4FsBelongs (fuel : Nat) (fs : Fs) (blk : Nat) : Option Owner := do
  if ← checks (reiser4MasterLayout (cbCheckBlock blk) fs.blksize) then return .master
  if ← checks (format40Layout (cbCheckBlock blk) fs.blksize) then return .format
  if fs.journal then
    if ← checks (journal40Layout (cbCheckBlock blk) fs.blksize) then return .journal
  if ← checks (reiser4StatusLayout (cbCheckBlock blk) fs.blksize) then return .status
  if ← checks (reiser4AllocLayout (cbCheckBlock blk) fuel fs.alloc) then return .alloc
  if ← checks (reiser4BackupLayout (cbCheckBlock blk) fuel fs) then return .backup
  return .unknown

/-! ## Creation -/

/-- `cb_bs_check`: the block sizes there can be. -/
def cbBsCheck (blksize : Nat) : Bool :=
  decide (512 ≤ blksize ∧ blksize ≤ 8192) && (blksize &&& (blksize - 1)) == 0

/-- `FS_LEN_ADJUST`. -/
def fsLenAdjust : Nat := 64 * 1024

/-- `reiser4_format_len`, of a device of `blocks` blocks of `unit` bytes. -/
def reiser4FormatLen (blocks unit blksize : Nat) : Nat :=
  u64 (u64 (blocks * unit) / fsLenAdjust * fsLenAdjust) / blksize

/-- `reiser4_format_check_len`: the length is accepted. -/
def reiser4FormatCheckLen (blocks unit blksize len : Nat) : Bool :=
  decide (len ≤ reiser4FormatLen blocks unit blksize ∧ fsMinSize blksize ≤ len)

section Creation

variable (aal : AalBits)

/-- `reiser4_alloc_occupy`, without a hook. -/
def reiser4AllocOccupy (start width : Nat) : Run Alloc Errno Unit := do
  let a ← Run.get
  let a' ← Run.lift (alloc40Occupy aal a start width)
  Run.modify fun _ => a'

/-- `reiser4_fs_create`, on a device whose length accepts the file system. -/
def reiser4FsCreate (fuel : Nat) (device : Device) (blksize len : Nat) : Option (Except Errno Fs) :=
  let fs : Fs := ⟨blksize, len, 0, alloc40Create device blksize len, false⟩
  match (reiser4FsLayout (reiser4AllocOccupy aal) fuel fs).run fs.alloc with
  | none => none
  | some (.error e, _) => some (.error e)
  | some (.ok (), a) => some (.ok { fs with alloc := a, free := alloc40Free a })

/-- `reiser4_format_dec_free`. -/
def reiser4FormatDecFree (count : Nat) : Run Fs Errno Unit :=
  if count = 0 then pure ()
  else do
    let fs ← Run.get
    if fs.free < count then Run.fail .enospc
    else Run.modify fun fs => { fs with free := fs.free - count }

/-- `cb_action_mark`. -/
def cbActionMark (start width : Nat) : Run Fs Errno Unit := do
  reiser4FormatDecFree width
  let fs ← Run.get
  let a ← Run.lift (alloc40Occupy aal fs.alloc start width)
  Run.modify fun fs => { fs with alloc := a }

/-- `reiser4_journal_create`: the blocks are marked, and the file system has a journal. -/
def reiser4JournalCreate : Run Fs Errno Unit := do
  let fs ← Run.get
  journal40Layout (cbActionMark aal) fs.blksize
  Run.modify fun fs => { fs with journal := true }

end Creation

/-! ## What a layout reports -/

/-- A callback that records its calls. -/
def cbReport (start width : Nat) : Run (List (Nat × Nat)) Errno Unit :=
  Run.modify fun rs => rs ++ [(start, width)]

/-- The regions a layout reports, in order. -/
def reported (layout : Run (List (Nat × Nat)) Errno Unit) : Option (List (Nat × Nat)) :=
  match layout.run [] with
  | some (.ok (), rs) => some rs
  | _ => none

/-- The block lies in one of the regions. -/
def hit (blk : Nat) (rs : List (Nat × Nat)) : Bool :=
  rs.any fun r => decide (r.1 ≤ blk ∧ blk < r.1 + r.2)

/-- The blocks of the regions. -/
def blocksOf (rs : List (Nat × Nat)) : List Nat := rs.flatMap fun r => List.range' r.1 r.2

/-- The blocks of the master, the format super block, the journal, the status, the bitmaps and the
    backups are distinct.  The first region of the format are the blocks in front of its super block,
    the master among them. -/
def Distinct (fuel : Nat) (fs : Fs) : Prop :=
  ∃ master format journal status alloc backup,
    reported (reiser4MasterLayout cbReport fs.blksize) = some master ∧
    reported (format40Layout cbReport fs.blksize) = some format ∧
    reported (journal40Layout cbReport fs.blksize) = some journal ∧
    reported (reiser4StatusLayout cbReport fs.blksize) = some status ∧
    reported (reiser4AllocLayout cbReport fuel fs.alloc) = some alloc ∧
    reported (reiser4BackupLayout cbReport fuel fs) = some backup ∧
    (blocksOf (master ++ format.drop 1 ++ journal ++ status ++ alloc ++ backup)).Nodup

/-- The owner is unknown exactly of the blocks in no region of the layout. -/
def Owned (fuel : Nat) (fs : Fs) : Prop :=
  ∃ rs, reported (reiser4FsLayout cbReport fuel fs) = some rs ∧
    ∀ blk, ∃ owner, reiser4FsBelongs fuel fs blk = some owner ∧
      (owner = .unknown ↔ hit blk rs = false)

/-- The blocks below the length that are occupied are those of the regions of the layout. -/
def Covered (aal : AalBits) (fuel : Nat) (fs : Fs) : Prop :=
  ∃ rs, reported (reiser4FsLayout cbReport fuel fs) = some rs ∧
    ∀ blk < fs.len, alloc40Occupied aal fs.alloc blk 1 = some (hit blk rs)

/-- **The static areas are in order**: of a file system just created, and with the journal. -/
def AreasOk (aal : AalBits) (fuel : Nat) (device : Device) (blksize len : Nat) : Prop :=
  ∃ fs fs', reiser4FsCreate aal fuel device blksize len = some (.ok fs) ∧
    (reiser4JournalCreate aal).run fs = some (.ok (), fs') ∧
    Distinct fuel fs' ∧ Owned fuel fs ∧ Owned fuel fs' ∧ Covered aal fuel fs' ∧
    fs'.free = alloc40Free fs'.alloc

/-! ## A layout is a list of calls -/

/-- The callback never answers `-ESTRUCT`. -/
def Plain {σ : Type} (f : Nat → Nat → Run σ Errno Unit) : Prop :=
  ∀ start width s s', (f start width).run s ≠ some (.error .estruct, s')

/-- The layout calls its function for these regions, up to the first failure. -/
def Lists (layout : (σ : Type) → (Nat → Nat → Run σ Errno Unit) → Run σ Errno Unit)
    (rs : List (Nat × Nat)) : Prop :=
  ∀ (σ : Type) (f : Nat → Nat → Run σ Errno Unit), Plain f → ∀ s,
    (layout σ f).run s = (Run.forEach (fun r => f r.1 r.2) rs).run s

theorem Lists.nil : Lists (fun _ _ => pure ()) [] := fun _ _ _ _ => rfl

theorem Lists.one (start width : Nat) : Lists (fun _ f => f start width) [(start, width)] := by
  intro σ f _ s
  rw [Run.forEach_singleton]

theorem Lists.seq {l l' : (σ : Type) → (Nat → Nat → Run σ Errno Unit) → Run σ Errno Unit}
    {rs rs' : List (Nat × Nat)} (h : Lists l rs) (h' : Lists l' rs') :
    Lists (fun σ f => l σ f >>= fun _ => l' σ f) (rs ++ rs') := by
  intro σ f hf s
  rw [Run.forEach_append, Run.run_bind, h σ f hf, ← Run.run_bind]
  exact Run.bind_congr fun _ s1 _ => h' σ f hf s1

theorem cbReport_plain : Plain cbReport := by
  intro start width s s' h
  cases h

theorem cbCheckBlock_plain (blk : Nat) : Plain (cbCheckBlock blk) := by
  intro start width s s' h
  unfold cbCheckBlock at h
  split at h
  · cases h
  · cases h

theorem reiser4AllocOccupy_plain (aal : AalBits) : Plain (reiser4AllocOccupy aal) := by
  intro start width s s' h
  unfold reiser4AllocOccupy at h
  rw [Run.get_bind] at h
  cases ho : alloc40Occupy aal s start width with
  | none =>
    rw [ho] at h
    cases h
  | some a =>
    rw [ho] at h
    cases h

/-- The recorded regions are those of the list. -/
theorem Lists.reported {l : (σ : Type) → (Nat → Nat → Run σ Errno Unit) → Run σ Errno Unit}
    {rs : List (Nat × Nat)} (h : Lists l rs) : reported (l _ cbReport) = some rs := by
  have hrun : ∀ (rs seen : List (Nat × Nat)),
      (Run.forEach (fun r : Nat × Nat => cbReport r.1 r.2) rs).run seen =
        some (.ok (), seen ++ rs) := by
    intro rs
    induction rs with
    | nil => simp
    | cons r rs ih =>
      intro seen
      rw [Run.forEach]
      show (Run.forEach _ rs).run (seen ++ [r]) = _
      rw [ih, List.append_assoc]
      rfl
  unfold Fs.reported
  rw [h _ _ cbReport_plain, hrun]
  rfl

/-- A check finds the block in one of the regions, or in none. -/
theorem Lists.checks {l : (σ : Type) → (Nat → Nat → Run σ Errno Unit) → Run σ Errno Unit}
    {rs : List (Nat × Nat)} (h : Lists l rs) (blk : Nat) :
    checks (l _ (cbCheckBlock blk)) = some (hit blk rs) := by
  unfold Fs.checks
  rw [h _ _ (cbCheckBlock_plain blk)]
  clear h
  induction rs with
  | nil => rfl
  | cons r rs ih =>
    rw [Run.forEach, Run.run_bind]
    by_cases hr : r.1 ≤ blk ∧ blk < r.1 + r.2
    · simp [cbCheckBlock, hit, hr]
    · have hskip : hit blk (r :: rs) = hit blk rs := by
        unfold hit
        rw [List.any_cons, decide_eq_false hr, Bool.false_or]
      rw [hskip, ← ih]
      unfold cbCheckBlock
      rw [if_neg hr]
      rfl

/-! ## The regions -/

/-- The block of the region of a block that a backup goes to. -/
def copyAt (blksize len blk : Nat) : Nat :=
  let size := blocksPerBitmap blksize
  let start := blk / size * size
  let count := if u64 (start + size) > len then len - start else size
  max (backupStart blksize) (if count = 1 then 0 else start + 1)

theorem backupCopy_eq (a : Alloc) {blksize len : Nat} (hb : a.blksize = blksize)
    (ht : a.bitmap.total = len) (blk : Nat) : backupCopy a blksize blk = copyAt blksize len blk := by
  subst hb ht
  have hcopy : regionCopy a blk =
      (let size := blocksPerBitmap a.blksize
       let start := blk / size * size
       let count := if u64 (start + size) > a.bitmap.total then a.bitmap.total - start else size
       if count = 1 then 0 else start + 1) := rfl
  have hmax : ∀ x y : Nat, (if x < y then y else x) = max y x := by
    intro x y
    split <;> omega
  unfold backupCopy
  rw [hmax, hcopy]
  rfl

/-- The blocks the loop of the backups reports. -/
def backupBlocks (copyOf : Nat → Nat) (len : Nat) : Nat → Nat → Nat → Option (List Nat)
  | 0, _, _ => none
  | fuel + 1, prev, blk =>
    let blk := backupExpLayout blk
    if blk ≤ prev then backupBlocks copyOf len fuel prev blk
    else if len < blk then some []
    else if len < copyOf blk then some []
    else if copyOf blk ≤ prev then backupBlocks copyOf len fuel prev blk
    else (backupBlocks copyOf len fuel (copyOf blk) blk).map (copyOf blk :: ·)

theorem backupLoop_eq {σ : Type} {f : Nat → Nat → Run σ Errno Unit} {a : Alloc}
    {blksize len : Nat} : ∀ {fuel prev blk : Nat} {blks : List Nat},
      backupBlocks (backupCopy a blksize) len fuel prev blk = some blks → ∀ s,
      (backupLoop f a blksize len fuel prev blk).run s =
        (Run.forEach (fun b => f b 1) blks).run s
  | 0, _, _, _, h, _ => by cases h
  | fuel + 1, prev, blk, blks, h, s => by
    rw [backupBlocks] at h
    rw [backupLoop]
    dsimp only at h ⊢
    split at h
    · next hprev =>
      rw [if_pos hprev]
      exact backupLoop_eq h s
    · next hprev =>
      rw [if_neg hprev]
      split at h
      · next hend =>
        cases h
        rw [if_pos hend]
        rfl
      · next hend =>
        rw [if_neg hend]
        split at h
        · next hcopy =>
          cases h
          rw [if_pos hcopy]
          rfl
        · next hcopy =>
          rw [if_neg hcopy]
          split at h
          · next hback =>
            rw [if_pos hback]
            exact backupLoop_eq h s
          · next hback =>
            rw [if_neg hback]
            obtain ⟨rest, hrest, rfl⟩ := Option.map_eq_some_iff.mp h
            rw [Run.forEach]
            exact Run.bind_congr fun _ s1 _ => backupLoop_eq hrest s1

/-- The loop ends, and reports increasing copies of blocks. -/
theorem backupBlocks_spec {copyOf : Nat → Nat} {len : Nat} (hlen : len < 4611686018427387904) :
    ∀ (fuel prev blk : Nat), 2 ≤ blk → blk ≤ len + 2 → prev ≤ len → len + 3 ≤ fuel + blk →
      ∃ blks, backupBlocks copyOf len fuel prev blk = some blks ∧ blks.Pairwise (· < ·) ∧
        ∀ c ∈ blks, prev < c ∧ c ≤ len ∧ ∃ b, c = copyOf b := by
  intro fuel
  induction fuel with
  | zero =>
    intro prev blk _ hblk _ hle
    omega
  | succ fuel ih =>
    intro prev blk h2 hblk hprev hle
    have hexp : backupExpLayout blk = blk * 3 / 2 := by
      unfold backupExpLayout
      rw [show u64 (blk * 3) = blk * 3 from Nat.mod_eq_of_lt (by omega)]
    -- The next block is behind this one, and in the file system unless the loop ends.
    obtain ⟨next, hnext⟩ : ∃ next, next = blk * 3 / 2 := ⟨_, rfl⟩
    rw [backupBlocks, hexp, ← hnext]
    split
    · exact ih prev next (by omega) (by omega) hprev (by omega)
    split
    · exact ⟨[], rfl, List.Pairwise.nil, by simp⟩
    split
    · exact ⟨[], rfl, List.Pairwise.nil, by simp⟩
    split
    · exact ih prev next (by omega) (by omega) hprev (by omega)
    · next hcopy hback =>
      obtain ⟨rest, hrest, hsorted, hmem⟩ :=
        ih (copyOf next) next (by omega) (by omega) (by omega) (by omega)
      refine ⟨copyOf next :: rest, by rw [hrest]; rfl, ?_, ?_⟩
      · exact List.pairwise_cons.mpr ⟨fun c hc => (hmem c hc).1, hsorted⟩
      · intro c hc
        rcases List.mem_cons.mp hc with rfl | hc
        · exact ⟨by omega, by omega, next, rfl⟩
        · obtain ⟨h1, h2, h3⟩ := hmem c hc
          exact ⟨by omega, h2, h3⟩

/-- A file system of this block size and length, whatever is marked in it. -/
structure Shape (blksize len : Nat) (fs : Fs) : Prop where
  blksize_eq : fs.blksize = blksize
  len_eq : fs.len = len
  alloc_blksize : fs.alloc.blksize = blksize
  alloc_total : fs.alloc.bitmap.total = len

/-- Where the bitmaps and the backups are. -/
structure Placed (blksize len : Nat) (bitmaps backups : List Nat) : Prop where
  nodup : bitmaps.Nodup
  bitmap : ∀ b, b ∈ bitmaps ↔ b < alloc40Blocknr blksize + len ∧
    (b = alloc40Blocknr blksize ∨ (blocksPerBitmap blksize ∣ b ∧ alloc40Blocknr blksize < b))
  sorted : backups.Pairwise (· < ·)
  backup : ∀ c ∈ backups, backupStart blksize ≤ c ∧
    (c = backupStart blksize ∨ c % blocksPerBitmap blksize = 1)

/-- What an accepted block size and length say. -/
structure Accepted (blksize len : Nat) : Prop where
  low : 512 ≤ blksize
  high : blksize ≤ 8192
  min_le : fsMinSize blksize ≤ len
  lt_max : len < 36028797018963968

theorem accepted_of {blocks unit blksize len : Nat} (hb : cbBsCheck blksize = true)
    (hl : reiser4FormatCheckLen blocks unit blksize len = true) : Accepted blksize len := by
  unfold cbBsCheck at hb
  unfold reiser4FormatCheckLen at hl
  simp only [Bool.and_eq_true, decide_eq_true_eq] at hb hl
  refine ⟨hb.1.1, hb.1.2, hl.2, Nat.lt_of_le_of_lt hl.1 ?_⟩
  unfold reiser4FormatLen
  rw [Nat.div_lt_iff_lt_mul (by omega)]
  have h1 : u64 (u64 (blocks * unit) / fsLenAdjust * fsLenAdjust) < 18446744073709551616 :=
    Nat.mod_lt _ (by decide)
  calc _ < 36028797018963968 * 512 := h1
    _ ≤ 36028797018963968 * blksize := Nat.mul_le_mul_left _ hb.1.1

section Regions

variable {blksize len : Nat} (h : Accepted blksize len)
include h

theorem Accepted.blksizeOk : BlksizeOk blksize := by
  have := h.low
  have := h.high
  exact ⟨by unfold crcSize; omega, by omega⟩

/-- The master is in the first 128 blocks, which the first bitmap describes. -/
theorem Accepted.bounds : masterBlocknr blksize ≤ 128 ∧ 4064 ≤ blocksPerBitmap blksize := by
  have h1 := h.low
  refine ⟨?_, ?_⟩
  · unfold masterBlocknr masterOffset
    rw [Nat.div_le_iff_le_mul_add_pred (by omega)]
    omega
  · unfold blocksPerBitmap crcSize
    omega

/-- A backup is the first block there is room for, or the second block of a region. -/
theorem Accepted.copyAt_cases (blk : Nat) : backupStart blksize ≤ copyAt blksize len blk ∧
    (copyAt blksize len blk = backupStart blksize ∨
      copyAt blksize len blk % blocksPerBitmap blksize = 1) := by
  have hb := h.bounds.2
  unfold copyAt
  dsimp only
  generalize (if u64 _ > len then _ else _) = count
  refine ⟨Nat.le_max_left _ _, ?_⟩
  split
  · exact Or.inl (Nat.max_eq_left (Nat.zero_le _))
  · rcases Nat.le_total (blk / blocksPerBitmap blksize * blocksPerBitmap blksize + 1)
      (backupStart blksize) with hle | hle
    · exact Or.inl (Nat.max_eq_left hle)
    · right
      rw [Nat.max_eq_right hle, Nat.mul_comm, Nat.mul_add_mod, Nat.mod_eq_of_lt (by omega)]

/-- The layouts of the bitmaps and of the backups, for every file system of the shape. -/
theorem Accepted.areas : ∃ enough, ∀ fuel, enough ≤ fuel → ∃ bitmaps backups : List Nat,
    Placed blksize len bitmaps backups ∧ ∀ fs, Shape blksize len fs →
      Lists (fun _ f => reiser4AllocLayout f fuel fs.alloc) (bitmaps.map fun b => (b, 1)) ∧
      Lists (fun _ f => reiser4BackupLayout f fuel fs) (backups.map fun b => (b, 1)) := by
  have hmax := h.lt_max
  obtain ⟨enough, bitmaps, hvisit, hnodup, hmem⟩ :=
    @layoutBlocks_mem _ len h.blksizeOk (by omega)
  refine ⟨max enough (len + 3), fun fuel hfuel => ?_⟩
  obtain ⟨backups, hbackups, hsorted, hcopies⟩ :=
    @backupBlocks_spec (copyAt blksize len) len (by omega) fuel 0 2
      (le_refl _) (by omega) (Nat.zero_le _) (by omega)
  refine ⟨bitmaps, backups, ⟨hnodup, hmem, hsorted, fun c hc => ?_⟩, fun fs hs => ⟨?_, ?_⟩⟩
  · obtain ⟨-, -, b, rfl⟩ := hcopies c hc
    exact h.copyAt_cases b
  · intro σ f hf s
    unfold reiser4AllocLayout alloc40Layout
    rw [Run.forEach_map, hs.alloc_blksize, hs.alloc_total]
    exact layoutLoop_eq_forEach (fun b => hf b 1) (hvisit fuel (by omega)) s
  · intro σ f hf s
    unfold reiser4BackupLayout
    rw [Run.forEach_map, hs.blksize_eq, hs.len_eq]
    refine backupLoop_eq ?_ s
    rw [show backupCopy fs.alloc blksize = copyAt blksize len from
      funext (backupCopy_eq fs.alloc hs.alloc_blksize hs.alloc_total)]
    exact hbackups

end Regions

/-- The regions of the fixed areas. -/
def fixedRegions (blksize : Nat) (journal : Bool) : List (Nat × Nat) :=
  [(masterBlocknr blksize, 1), (0, format40Blocknr blksize), (format40Blocknr blksize, 1)] ++
    (if journal then [(journal40Blocknr blksize, 2)] else []) ++ [(statusBlocknr blksize, 1)]

/-- The regions of the whole layout. -/
def fsRegions (blksize : Nat) (journal : Bool) (bitmaps backups : List Nat) : List (Nat × Nat) :=
  fixedRegions blksize journal ++ (bitmaps.map fun b => (b, 1)) ++ backups.map fun b => (b, 1)

/-! ## The whole layout -/

section Whole

variable {blksize len fuel : Nat} {bitmaps backups : List Nat} {fs : Fs}

/-- **The calls of the whole layout.** -/
theorem fsLayout_lists (hs : Shape blksize len fs)
    (ha : Lists (fun _ f => reiser4AllocLayout f fuel fs.alloc) (bitmaps.map fun b => (b, 1)))
    (hb : Lists (fun _ f => reiser4BackupLayout f fuel fs) (backups.map fun b => (b, 1))) :
    Lists (fun _ f => reiser4FsLayout f fuel fs) (fsRegions blksize fs.journal bitmaps backups) := by
  have hjournal : Lists (fun _ f => if fs.journal then journal40Layout f fs.blksize else pure ())
      (if fs.journal then [(journal40Blocknr blksize, 2)] else []) := by
    rw [hs.blksize_eq]
    split
    · exact Lists.one _ 2
    · exact Lists.nil
  have hformat : Lists (fun _ f => format40Layout f fs.blksize)
      ([(0, format40Blocknr blksize)] ++ [(format40Blocknr blksize, 1)]) := by
    rw [hs.blksize_eq]
    exact (Lists.one _ _).seq (Lists.one _ _)
  have hmaster := Lists.one (masterBlocknr fs.blksize) 1
  have hstatus := Lists.one (statusBlocknr fs.blksize) 1
  rw [hs.blksize_eq] at hmaster hstatus
  have hall := hmaster.seq (hformat.seq (hjournal.seq (hstatus.seq (ha.seq hb))))
  intro σ f hf s
  simp only [fsRegions, fixedRegions, List.append_assoc]
  refine Eq.trans ?_ (hall σ f hf s)
  unfold reiser4FsLayout reiser4MasterLayout reiser4StatusLayout
  rw [hs.blksize_eq]
  split
  · rfl
  · rfl
/-! ## No block is in two areas -/

theorem blocksOf_append (rs rs' : List (Nat × Nat)) :
    blocksOf (rs ++ rs') = blocksOf rs ++ blocksOf rs' := List.flatMap_append

theorem blocksOf_single (l : List Nat) : blocksOf (l.map fun b => (b, 1)) = l := by
  unfold blocksOf
  rw [List.flatMap_map]
  exact List.flatMap_singleton' l

/-- A bitmap block is the first one, or behind all the fixed areas. -/
theorem Placed.bitmap_cases (h : Accepted blksize len) (hp : Placed blksize len bitmaps backups)
    {b : Nat} (hb : b ∈ bitmaps) :
    b = masterBlocknr blksize + 2 ∨ (blocksPerBitmap blksize ∣ b ∧ 4064 ≤ b) := by
  rcases ((hp.bitmap b).mp hb).2 with rfl | ⟨hdvd, hlt⟩
  · exact Or.inl rfl
  · have h1 := h.bounds.2
    have h2 : blocksPerBitmap blksize ≤ b := Nat.le_of_dvd (by omega) hdvd
    exact Or.inr ⟨hdvd, by omega⟩

/-- A backup is no bitmap block. -/
theorem Placed.disjoint (h : Accepted blksize len) (hp : Placed blksize len bitmaps backups)
    {b : Nat} (hb : b ∈ bitmaps) : b ∉ backups := by
  intro hc
  obtain ⟨h1, h2⟩ := h.bounds
  obtain ⟨hle, hcase⟩ := hp.backup b hc
  unfold backupStart at hle hcase
  rcases hp.bitmap_cases h hb with rfl | ⟨hdvd, hge⟩
  · omega
  · rw [Nat.dvd_iff_mod_eq_zero] at hdvd
    omega

/-- **No block is in two areas.** -/
theorem areas_nodup (h : Accepted blksize len) (hp : Placed blksize len bitmaps backups) :
    (blocksOf ([(masterBlocknr blksize, 1)] ++ [(format40Blocknr blksize, 1)] ++
      [(journal40Blocknr blksize, 2)] ++ [(statusBlocknr blksize, 1)] ++
      (bitmaps.map fun b => (b, 1)) ++ backups.map fun b => (b, 1))).Nodup := by
  have hm := h.bounds.1
  have hfixed : blocksOf ([(masterBlocknr blksize, 1)] ++ [(format40Blocknr blksize, 1)] ++
      [(journal40Blocknr blksize, 2)] ++ [(statusBlocknr blksize, 1)]) =
      [masterBlocknr blksize, masterBlocknr blksize + 1, masterBlocknr blksize + 3,
        masterBlocknr blksize + 4, masterBlocknr blksize + 5] := rfl
  rw [blocksOf_append, blocksOf_append, blocksOf_single, blocksOf_single, hfixed, List.append_assoc]
  refine List.nodup_append'.mpr ⟨?_, List.nodup_append'.mpr ⟨hp.nodup, ?_, ?_⟩, ?_⟩
  · simp
  · exact hp.sorted.imp fun hlt => Nat.ne_of_lt hlt
  · exact fun b hb hc => hp.disjoint h hb hc
  · intro b hb hb'
    have hrange : masterBlocknr blksize ≤ b ∧ b ≤ masterBlocknr blksize + 5 ∧
        b ≠ masterBlocknr blksize + 2 := by
      simp only [List.mem_cons, List.not_mem_nil, or_false] at hb
      omega
    rcases List.mem_append.mp hb' with hbm | hbk
    · rcases hp.bitmap_cases h hbm with rfl | ⟨-, hge⟩
      · omega
      · omega
    · have := (hp.backup b hbk).1
      unfold backupStart at this
      omega

theorem distinct_of (h : Accepted blksize len) (hp : Placed blksize len bitmaps backups)
    (hs : Shape blksize len fs)
    (ha : Lists (fun _ f => reiser4AllocLayout f fuel fs.alloc) (bitmaps.map fun b => (b, 1)))
    (hb : Lists (fun _ f => reiser4BackupLayout f fuel fs) (backups.map fun b => (b, 1))) :
    Distinct fuel fs := by
  unfold Distinct
  rw [hs.blksize_eq]
  exact ⟨_, [(0, format40Blocknr blksize), (format40Blocknr blksize, 1)], _, _, _, _,
    rfl, rfl, rfl, rfl, ha.reported, hb.reported, areas_nodup h hp⟩

/-! ## The owner of a block -/

theorem hit_append (blk : Nat) (rs rs' : List (Nat × Nat)) :
    hit blk (rs ++ rs') = (hit blk rs || hit blk rs') := List.any_append

/-- **A block without an owner is one of no region.** -/
theorem owned_of (hs : Shape blksize len fs)
    (ha : Lists (fun _ f => reiser4AllocLayout f fuel fs.alloc) (bitmaps.map fun b => (b, 1)))
    (hb : Lists (fun _ f => reiser4BackupLayout f fuel fs) (backups.map fun b => (b, 1))) :
    Owned fuel fs := by
  refine ⟨_, (fsLayout_lists hs ha hb).reported, fun blk => ?_⟩
  have hmaster := (Lists.one (masterBlocknr blksize) 1).checks blk
  have hformat := ((Lists.one 0 (format40Blocknr blksize)).seq
    (Lists.one (format40Blocknr blksize) 1)).checks blk
  have hjournal := (Lists.one (journal40Blocknr blksize) 2).checks blk
  have hstatus := (Lists.one (statusBlocknr blksize) 1).checks blk
  unfold reiser4FsBelongs reiser4MasterLayout format40Layout journal40Layout reiser4StatusLayout
  rw [hs.blksize_eq, hmaster, hformat, hjournal, hstatus, ha.checks blk, hb.checks blk]
  have hrs : hit blk (fsRegions blksize fs.journal bitmaps backups) =
      (hit blk [(masterBlocknr blksize, 1)] ||
        (hit blk ([(0, format40Blocknr blksize)] ++ [(format40Blocknr blksize, 1)]) ||
          (hit blk (if fs.journal then [(journal40Blocknr blksize, 2)] else []) ||
            (hit blk [(statusBlocknr blksize, 1)] ||
              (hit blk (bitmaps.map fun b => (b, 1)) || hit blk (backups.map fun b => (b, 1))))))) := by
    simp only [fsRegions, fixedRegions, ← hit_append, List.append_assoc]
    rfl
  rw [hrs]
  -- The search asks the areas in this order and stops at the first one with the block.
  generalize hit blk [(masterBlocknr blksize, 1)] = m
  generalize hit blk ([(0, format40Blocknr blksize)] ++ _) = f
  generalize hit blk [(statusBlocknr blksize, 1)] = s
  generalize hit blk (bitmaps.map fun b => (b, 1)) = a
  generalize hit blk (backups.map fun b => (b, 1)) = b
  cases fs.journal with
  | true =>
    simp only [if_true]
    generalize hit blk [(journal40Blocknr blksize, 2)] = j
    match m, f, j, s, a, b with
    | true, _, _, _, _, _ => exact ⟨.master, rfl, by simp⟩
    | false, true, _, _, _, _ => exact ⟨.format, rfl, by simp⟩
    | false, false, true, _, _, _ => exact ⟨.journal, rfl, by simp⟩
    | false, false, false, true, _, _ => exact ⟨.status, rfl, by simp⟩
    | false, false, false, false, true, _ => exact ⟨.alloc, rfl, by simp⟩
    | false, false, false, false, false, true => exact ⟨.backup, rfl, by simp⟩
    | false, false, false, false, false, false => exact ⟨.unknown, rfl, by simp⟩
  | false =>
    match m, f, s, a, b with
    | true, _, _, _, _ => exact ⟨.master, rfl, by simp⟩
    | false, true, _, _, _ => exact ⟨.format, rfl, by simp⟩
    | false, false, true, _, _ => exact ⟨.status, rfl, by simp⟩
    | false, false, false, true, _ => exact ⟨.alloc, rfl, by simp⟩
    | false, false, false, false, true => exact ⟨.backup, rfl, by simp⟩
    | false, false, false, false, false => exact ⟨.unknown, rfl, by simp [hit]⟩

end Whole

/-! ## Creation -/

section Creation

variable {aal : AalBits} {blksize len : Nat} {device : Device} {a : Alloc}

/-- A region of the bitmap, or one behind its end, can be marked. -/
theorem occupy_spec (h : a.WF aal blksize len device) {start count : Nat} (hc : 0 < count)
    (hin : start + count ≤ len ∨ len ≤ start) : ∃ a', alloc40Occupy aal a start count = some a' ∧
      a'.WF aal blksize len device ∧ ∀ i < len, a'.bitmap.has aal i =
        (decide (start ≤ i ∧ i < start + count) || a.bitmap.has aal i) := by
  have hmark : ∃ b, reiser4BitmapMarkRegion aal a.bitmap start count = some b := by
    unfold reiser4BitmapMarkRegion
    rcases hin with hle | hge
    · rw [← h.total] at hle
      obtain ⟨hbound, hholds⟩ := (bounded_iff h.bitmap.sized hc).mpr hle
      rw [if_pos hbound, calc_spec h.bitmap.sized hle]
      exact ⟨_, if_pos hholds⟩
    · rw [← h.total] at hge
      exact ⟨_, if_neg fun hb => Nat.not_lt.mpr hge hb.1⟩
  obtain ⟨b, hb⟩ := hmark
  obtain ⟨hwf, htotal, hhas⟩ := markRegion_spec h.bitmap hb
  refine ⟨_, by unfold alloc40Occupy; rw [hb]; rfl, h.setBitmap hwf (htotal.trans h.total),
    fun i hi => ?_⟩
  show b.has aal i = _
  rw [hhas i, Bitmap.regionHas, h.total]
  rcases hin with hle | hge
  · rw [decide_eq_true hle, Bool.true_and]
  · have hout : ¬(start ≤ i ∧ i < start + count) := by omega
    rw [decide_eq_false hout, Bool.and_false]

/-- Regions that can be marked are all marked. -/
theorem occupy_all : ∀ {rs : List (Nat × Nat)} {a : Alloc}, a.WF aal blksize len device →
    (∀ r ∈ rs, 0 < r.2 ∧ (r.1 + r.2 ≤ len ∨ len ≤ r.1)) → ∃ a',
      (Run.forEach (fun r => reiser4AllocOccupy aal r.1 r.2) rs).run a = some (.ok (), a') ∧
      a'.WF aal blksize len device ∧
      ∀ i < len, a'.bitmap.has aal i = (hit i rs || a.bitmap.has aal i)
  | [], a, h, _ => ⟨a, rfl, h, fun _ _ => rfl⟩
  | r :: rs, a, h, hfit => by
    obtain ⟨hc, hin⟩ := hfit r (List.mem_cons_self ..)
    obtain ⟨a1, h1, hwf1, hhas1⟩ := occupy_spec h hc hin
    have hrest := fun r' (hr' : r' ∈ rs) => hfit r' (List.mem_cons_of_mem _ hr')
    obtain ⟨a2, h2, hwf2, hhas2⟩ := occupy_all hwf1 hrest
    have hstep : (reiser4AllocOccupy aal r.1 r.2).run a = some (.ok (), a1) := by
      unfold reiser4AllocOccupy
      rw [Run.get_bind, h1]
      rfl
    refine ⟨a2, by rw [Run.forEach, Run.bind_of_ok hstep, h2], hwf2, fun i hi => ?_⟩
    rw [hhas2 i hi, hhas1 i hi]
    show _ = (List.any (r :: rs) _ || _)
    rw [List.any_cons, ← Bool.or_assoc, Bool.or_comm (hit i rs)]
    rfl

theorem hit_eq (blk : Nat) (rs : List (Nat × Nat)) : hit blk rs = decide (blk ∈ blocksOf rs) := by
  rw [Bool.eq_iff_iff]
  simp only [hit, blocksOf, List.any_eq_true, decide_eq_true_eq, List.mem_flatMap,
    List.mem_range'_1]

variable {fuel : Nat} {bitmaps backups : List Nat}

/-- The regions can be marked: the fixed areas lie in the file system, all others are single blocks. -/
theorem regions_fit (h : Accepted blksize len) (journal : Bool) :
    ∀ r ∈ fsRegions blksize journal bitmaps backups,
      0 < r.2 ∧ (r.1 + r.2 ≤ len ∨ len ≤ r.1) := by
  have hmin := h.min_le
  unfold fsMinSize at hmin
  have hsingle : ∀ (l : List Nat), ∀ r ∈ l.map fun b => (b, 1),
      0 < r.2 ∧ (r.1 + r.2 ≤ len ∨ len ≤ r.1) := by
    intro l r hr
    obtain ⟨b, -, rfl⟩ := List.mem_map.mp hr
    exact ⟨Nat.one_pos, by omega⟩
  intro r hr
  unfold fsRegions at hr
  rcases List.mem_append.mp hr with hr | hr
  · rcases List.mem_append.mp hr with hr | hr
    · cases journal <;>
        simp only [fixedRegions, format40Blocknr, journal40Blocknr, statusBlocknr, if_true,
          Bool.false_eq_true, if_false, List.cons_append, List.nil_append, List.mem_cons,
          List.not_mem_nil, or_false] at hr
      · rcases hr with rfl | rfl | rfl | rfl <;> exact ⟨by omega, by omega⟩
      · rcases hr with rfl | rfl | rfl | rfl | rfl <;> exact ⟨by omega, by omega⟩
    · exact hsingle _ r hr
  · exact hsingle _ r hr

/-- The journal's blocks are those of no other region. -/
theorem journal_apart (h : Accepted blksize len) (hp : Placed blksize len bitmaps backups) {i : Nat}
    (hi : journal40Blocknr blksize ≤ i ∧ i < journal40Blocknr blksize + 2) :
    hit i (fsRegions blksize false bitmaps backups) = false := by
  have hm := h.bounds.1
  unfold journal40Blocknr at hi
  rw [hit_eq, decide_eq_false_iff_not]
  unfold fsRegions
  rw [blocksOf_append, blocksOf_append, blocksOf_single, blocksOf_single]
  intro hmem
  rcases List.mem_append.mp hmem with hmem | hc
  · rcases List.mem_append.mp hmem with hf | hb
    · simp only [blocksOf, fixedRegions, format40Blocknr, statusBlocknr, Bool.false_eq_true, if_false,
        List.append_nil, List.cons_append, List.nil_append, List.mem_flatMap, List.mem_cons,
        List.not_mem_nil, or_false, exists_eq_or_imp, exists_eq_left, List.mem_range'_1] at hf
      omega
    · rcases hp.bitmap_cases h hb with rfl | ⟨-, hge⟩
      · omega
      · omega
  · have := (hp.backup i hc).1
    unfold backupStart at this
    omega

theorem hit_journal (blk : Nat) : hit blk (fsRegions blksize true bitmaps backups) =
    (decide (journal40Blocknr blksize ≤ blk ∧ blk < journal40Blocknr blksize + 2) ||
      hit blk (fsRegions blksize false bitmaps backups)) := by
  simp only [fsRegions, fixedRegions, hit_append, if_true, Bool.false_eq_true, if_false]
  rw [show hit blk [] = false from rfl,
    show hit blk [(journal40Blocknr blksize, 2)] = _ from Bool.or_false _]
  simp only [Bool.or_false, ← Bool.or_assoc]
  rw [Bool.or_comm (hit blk _) (decide _)]

/-- The calls for the file system that is created. -/
theorem create_run (hs : Lists (fun _ f => reiser4FsLayout f fuel
      ⟨blksize, len, 0, alloc40Create device blksize len, false⟩)
      (fsRegions blksize false bitmaps backups)) :
    reiser4FsCreate aal fuel device blksize len =
      match (Run.forEach (fun r => reiser4AllocOccupy aal r.1 r.2)
          (fsRegions blksize false bitmaps backups)).run (alloc40Create device blksize len) with
      | none => none
      | some (.error e, _) => some (.error e)
      | some (.ok (), a) => some (.ok ⟨blksize, len, alloc40Free a, a, false⟩) := by
  unfold reiser4FsCreate
  dsimp only
  rw [hs _ _ (reiser4AllocOccupy_plain aal)]

/-- **What is marked after the creation.** -/
theorem created (h : Accepted blksize len) (hfits : (len + 7) / 8 < two32)
    (hs : Lists (fun _ f => reiser4FsLayout f fuel
      ⟨blksize, len, 0, alloc40Create device blksize len, false⟩)
      (fsRegions blksize false bitmaps backups)) :
    ∃ a, reiser4FsCreate aal fuel device blksize len =
        some (.ok ⟨blksize, len, alloc40Free a, a, false⟩) ∧
      a.WF aal blksize len device ∧
      ∀ i < len, a.bitmap.has aal i = hit i (fsRegions blksize false bitmaps backups) := by
  have hempty : (alloc40Create device blksize len).WF aal blksize len device :=
    ⟨rfl, rfl, rfl, bitmapCreate_wf aal hfits⟩
  obtain ⟨a, hrun, hwf, hhas⟩ := occupy_all hempty (regions_fit h false)
  refine ⟨a, by rw [create_run hs, hrun], hwf, fun i hi => ?_⟩
  have hzero : (alloc40Create device blksize len).bitmap.has aal i = false := by
    simp [Bitmap.has, alloc40Create, reiser4BitmapCreate, BitOrder.test_zero]
  rw [hhas i hi, hzero, Bool.or_false]

/-- The journal takes two free blocks. -/
theorem journal_created (h : Accepted blksize len) (hp : Placed blksize len bitmaps backups)
    (hwf : a.WF aal blksize len device)
    (hhas : ∀ i < len, a.bitmap.has aal i = hit i (fsRegions blksize false bitmaps backups)) :
    ∃ a', (reiser4JournalCreate aal).run ⟨blksize, len, alloc40Free a, a, false⟩ =
        some (.ok (), ⟨blksize, len, alloc40Free a', a', true⟩) ∧
      a'.WF aal blksize len device ∧
      ∀ i < len, a'.bitmap.has aal i = hit i (fsRegions blksize true bitmaps backups) := by
  obtain ⟨start, hstart⟩ : ∃ start, start = journal40Blocknr blksize := ⟨_, rfl⟩
  have hin : start + 2 ≤ len := by
    have := h.min_le
    unfold fsMinSize at this
    rw [hstart]
    unfold journal40Blocknr
    omega
  obtain ⟨a', ha', hwf', hhas'⟩ := occupy_spec hwf Nat.two_pos (Or.inl hin)
  -- Both blocks were free, so the count of marked blocks grows by two.
  have hcount : a'.bitmap.marked = a.bitmap.marked + 2 := by
    have hle : start + 2 ≤ a.bitmap.total := by rw [hwf.total]; exact hin
    have hregion := Bitmap.count_of_region aal hle (hwf'.total.trans hwf.total.symm) (fun i hi => by
      by_cases hlt : i < len
      · have hout : ¬(start ≤ i ∧ i < start + 2) := by omega
        rw [hhas' i hlt, decide_eq_false hout, Bool.false_or]
      · simp [Bitmap.has, hwf.total, hwf'.total, hlt])
    have hnew := countP_const_true (p := a'.bitmap.has aal) (s := start) (n := 2) (fun i h1 h2 => by
      rw [hhas' i (by omega), decide_eq_true ⟨h1, h2⟩, Bool.true_or])
    have hold := countP_const_false (p := a.bitmap.has aal) (s := start) (n := 2) (fun i h1 h2 => by
      rw [hhas i (by omega)]
      exact journal_apart h hp ⟨hstart ▸ h1, hstart ▸ h2⟩)
    have h1 := hwf.bitmap.marked
    have h2 := hwf'.bitmap.marked
    omega
  have hfree : alloc40Free a = alloc40Free a' + 2 := by
    have hle : a'.bitmap.marked ≤ len := by
      rw [hwf'.bitmap.marked, ← hwf'.total]
      exact List.countP_le_length.trans (Nat.le_of_eq List.length_range)
    have h1 := hwf.total
    have h2 := hwf'.total
    unfold alloc40Free reiser4BitmapCleared
    omega
  refine ⟨a', ?_, hwf', fun i hi => ?_⟩
  · have henough : ¬alloc40Free a < 2 := by omega
    have hsub : alloc40Free a - 2 = alloc40Free a' := by omega
    unfold reiser4JournalCreate journal40Layout cbActionMark reiser4FormatDecFree
    rw [Run.get_bind]
    dsimp only
    rw [if_neg (by decide), ← hstart]
    simp only [Run.run_bind, Run.run_get, Run.run_modify, if_neg henough, ha', Run.lift_some, hsub]
  · rw [hhas' i hi, hhas i hi, hit_journal, hstart]

/-- A bitmap that does not fit its byte count lacks the bits of its last bitmap block, which cannot be
    marked. -/
theorem not_created (h : Accepted blksize len) (hp : Placed blksize len bitmaps backups)
    (hover : two32 ≤ (len + 7) / 8)
    (hs : Lists (fun _ f => reiser4FsLayout f fuel
      ⟨blksize, len, 0, alloc40Create device blksize len, false⟩)
      (fsRegions blksize false bitmaps backups)) (fs : Fs) :
    reiser4FsCreate aal fuel device blksize len ≠ some (.ok fs) := by
  have hmax := h.lt_max
  have hhigh := h.high
  have hm := h.bounds
  obtain ⟨bpb, hbpb⟩ : ∃ bpb, bpb = blocksPerBitmap blksize := ⟨_, rfl⟩
  have hbpb_le : bpb ≤ 65536 := by
    rw [hbpb]
    unfold blocksPerBitmap
    omega
  obtain ⟨last, hlast⟩ : ∃ last, last = (len - 1) / bpb * bpb := ⟨_, rfl⟩
  have hlast_le : last ≤ len - 1 := hlast ▸ Nat.div_mul_le_self _ _
  have hlast_gt : len - 1 < last + bpb := by
    have := @lt_succ_mul bpb (by omega) (len - 1)
    rw [Nat.add_mul, Nat.one_mul, ← hlast] at this
    exact this
  unfold two32 at hover
  have hmem : (last, 1) ∈ fsRegions blksize false bitmaps backups := by
    have hb : last ∈ bitmaps := by
      rw [hp.bitmap, ← hbpb, show alloc40Blocknr blksize = masterBlocknr blksize + 2 from rfl]
      exact ⟨by omega, Or.inr ⟨Dvd.intro_left _ hlast.symm, by omega⟩⟩
    unfold fsRegions
    simp only [List.mem_append, List.mem_map]
    exact Or.inl (Or.inr ⟨last, hb, rfl⟩)
  have hsize : (reiser4BitmapCreate len).size ≤ last / 8 := by
    unfold reiser4BitmapCreate u32 u64 two32
    dsimp only
    omega
  intro hok
  rw [create_run hs] at hok
  match hrun : (Run.forEach (fun r => reiser4AllocOccupy aal r.1 r.2)
      (fsRegions blksize false bitmaps backups)).run (alloc40Create device blksize len) with
  | none =>
    rw [hrun] at hok
    cases hok
  | some (.error e, a) =>
    rw [hrun] at hok
    cases hok
  | some (.ok (), a) =>
    -- No call has been for the last bitmap block.
    have hkept := Run.forEach_ensures (fun (seen : List (Nat × Nat)) (a : Alloc) =>
      (a.bitmap.total = len ∧ a.bitmap.size = (reiser4BitmapCreate len).size) ∧
        (last, 1) ∉ seen) (fun seen r rest s s' _ hI hr => by
      obtain ⟨⟨htotal, hsz⟩, hseen⟩ := hI
      unfold reiser4AllocOccupy alloc40Occupy at hr
      rw [Run.get_bind] at hr
      cases hmark : reiser4BitmapMarkRegion aal s.bitmap r.1 r.2 with
      | none =>
        rw [hmark] at hr
        cases hr
      | some b =>
        rw [hmark] at hr
        cases hr
        obtain ⟨h1, h2⟩ := markRegion_size hmark
        refine ⟨⟨h1.trans htotal, h2.trans hsz⟩, fun hin => ?_⟩
        rcases List.mem_append.mp hin with hin | hin
        · exact hseen hin
        · obtain rfl := List.mem_singleton.mp hin
          have hnone : reiser4BitmapMarkRegion aal s.bitmap last 1 = none := by
            have hbound : s.bitmap.bounded last 1 := by
              unfold Bitmap.bounded u64 invalBlk
              omega
            have hcalc : reiser4BitmapCalc aal s.bitmap last 1 false = none := by
              unfold reiser4BitmapCalc
              rw [show u64 (last + 1) = last + 1 from Nat.mod_eq_of_lt (by omega)]
              exact calcLoop_none (le_refl _) (by omega) (by omega) (by omega)
            unfold reiser4BitmapMarkRegion
            rw [if_pos hbound, hcalc]
            rfl
          rw [hnone] at hmark
          cases hmark) (s := alloc40Create device blksize len) ⟨⟨rfl, rfl⟩, by simp⟩ hrun
    exact hkept.2 hmem

/-- **The static areas are in order if and only if** the bitmap fits its 32-bit byte count. -/
theorem reiser4FsAreas_iff (aal : AalBits) (device : Device) (blocks unit blksize len : Nat)
    (hb : cbBsCheck blksize = true) (hl : reiser4FormatCheckLen blocks unit blksize len = true) :
    (∃ enough, ∀ fuel, enough ≤ fuel → AreasOk aal fuel device blksize len) ↔
      (len + 7) / 8 < two32 := by
  have h := accepted_of hb hl
  obtain ⟨enough, hareas⟩ := h.areas
  constructor
  · rintro ⟨enough', hok⟩
    by_contra hover
    obtain ⟨bitmaps, backups, hp, hlists⟩ := hareas (max enough enough') (Nat.le_max_left _ _)
    obtain ⟨fs, -, hcreate, -⟩ := hok (max enough enough') (Nat.le_max_right _ _)
    have hs : Shape blksize len ⟨blksize, len, 0, alloc40Create device blksize len, false⟩ :=
      ⟨rfl, rfl, rfl, rfl⟩
    have hl := fsLayout_lists hs (hlists _ hs).1 (hlists _ hs).2
    exact not_created h hp (Nat.le_of_not_lt hover) hl fs hcreate
  · intro hfits
    refine ⟨enough, fun fuel hfuel => ?_⟩
    obtain ⟨bitmaps, backups, hp, hlists⟩ := hareas fuel hfuel
    have hs : Shape blksize len ⟨blksize, len, 0, alloc40Create device blksize len, false⟩ :=
      ⟨rfl, rfl, rfl, rfl⟩
    obtain ⟨a, hcreate, hwf, hhas⟩ := @created aal _ _ _ _ _ _ h hfits
      (fsLayout_lists hs (hlists _ hs).1 (hlists _ hs).2)
    obtain ⟨a', hjournal, hwf', hhas'⟩ := journal_created h hp hwf hhas
    have hs1 : Shape blksize len ⟨blksize, len, alloc40Free a, a, false⟩ :=
      ⟨rfl, rfl, hwf.blksize, hwf.total⟩
    have hs2 : Shape blksize len ⟨blksize, len, alloc40Free a', a', true⟩ :=
      ⟨rfl, rfl, hwf'.blksize, hwf'.total⟩
    refine ⟨_, _, hcreate, hjournal, distinct_of h hp hs2 (hlists _ hs2).1 (hlists _ hs2).2,
      owned_of hs1 (hlists _ hs1).1 (hlists _ hs1).2,
      owned_of hs2 (hlists _ hs2).1 (hlists _ hs2).2, ?_, rfl⟩
    refine ⟨_, (fsLayout_lists hs2 (hlists _ hs2).1 (hlists _ hs2).2).reported, fun blk hblk => ?_⟩
    show alloc40Occupied aal a' blk 1 = _
    rw [show alloc40Occupied aal a' blk 1 = _ from testRegion_marked_one hwf'.bitmap.sized blk,
      hhas' blk hblk]

/-- The areas of a file system of 40000 blocks of 4 KiB. -/
theorem reiser4FsAreas_40000 :
    ∃ enough, ∀ fuel, enough ≤ fuel → AreasOk AalBits.plain fuel (fun _ => none) 4096 40000 :=
  (reiser4FsAreas_iff AalBits.plain (fun _ => none) 40000 4096 4096 40000 (by decide)
    (by decide)).mpr (by decide)

/-- A file system of 2^35 blocks cannot be created in any known way: its bitmap has no bytes. -/
theorem reiser4FsAreas_2_35 : cbBsCheck 4096 = true ∧
    reiser4FormatCheckLen 34359738368 4096 4096 34359738368 = true ∧
    ¬∃ enough, ∀ fuel, enough ≤ fuel →
      AreasOk AalBits.plain fuel (fun _ => none) 4096 34359738368 := by
  have hb : cbBsCheck 4096 = true := by decide
  have hl : reiser4FormatCheckLen 34359738368 4096 4096 34359738368 = true := by decide
  refine ⟨hb, hl, ?_⟩
  rintro ⟨enough', hok⟩
  have h := accepted_of hb hl
  obtain ⟨enough, hareas⟩ := h.areas
  obtain ⟨bitmaps, backups, hp, hlists⟩ := hareas (max enough enough') (Nat.le_max_left _ _)
  obtain ⟨fs, -, hcreate, -⟩ := hok (max enough enough') (Nat.le_max_right _ _)
  have hs : Shape 4096 34359738368
      ⟨4096, 34359738368, 0, alloc40Create (fun _ => none) 4096 34359738368, false⟩ :=
    ⟨rfl, rfl, rfl, rfl⟩
  have hlist := fsLayout_lists hs (hlists _ hs).1 (hlists _ hs).2
  exact not_created h hp (by decide) hlist fs hcreate

end Creation

end Reiser4.Fs
