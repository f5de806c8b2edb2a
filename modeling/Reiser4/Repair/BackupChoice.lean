/-
  The choice of a backup (`repair_backup_open`).

  For each block size the blocks where a file system of the length of the device has its backups are read.  The
  valid ones are counted in a sorted list; then the walk is repeated for the length each of them holds.  The backup
  with the largest share of its blocks is taken, one that agrees with the super blocks having 33 points more.

    1. `walkBackups_eq`, `layout_pos`   the walks end; an accepted length has a backup block;
    2. `scanSize_run`                   one block size: the valid backups of its layout are counted;
    3. `gather_run`                     all block sizes;
    4. `choose_max`, `Best.app_iff`     the scan for the largest weight, in a byte;
    5. `repairBackupOpen_best`          the whole.
-/
import Reiser4.Fs.Backups
import Reiser4.Lib.Tally
import Reiser4.Repair.TwigScan

namespace Reiser4.Repair

open Reiser4.Lib Reiser4.Alloc40 Reiser4.Fs Reiser4.Format40

/-! ## The candidates -/

/-- `backup_hint_t` in the list: a backup, how many blocks hold it and how many its file system has. -/
structure Candidate where
  hint : BackupHint
  count : Nat
  total : Nat

/-- `aal_memcmp`. -/
def aalMemcmp (d d' : Bytes) (n : Nat) : Ordering := compare (d.slice 0 n) (d'.slice 0 n)

/-- `repair_backup_hint_cmp`. -/
def repairBackupHintCmp (list hint : BackupHint) (size : Nat) : Ordering :=
  if list.size < hint.size then .lt
  else if hint.size < list.size then .gt
  else aalMemcmp list.block hint.block size

/-- The comparison of the walk through the list: all bytes of the block. -/
def hintCmp (cur hint : BackupHint) : Ordering := repairBackupHintCmp cur hint cur.size

/-- The candidates count their hints. -/
def candidates : Counter BackupHint Candidate where
  key := Candidate.hint
  times := Candidate.count
  one hint := ⟨hint, 1, 0⟩
  more cand := { cand with count := cand.count + 1 }
  key_one _ := rfl
  times_one _ := rfl
  key_more _ := rfl
  times_more _ := rfl

/-- A division, if there is one. -/
def divide (n d : Nat) : Option Nat := if d = 0 then none else some (n / d)

/-- `reiser4_backup_layout_body` with an allocator created for it.  `alloc40_create` and `alloc40_region` divide by
    what a bitmap block describes. -/
def walkBackups {σ : Type} (f : Nat → Nat → Run σ Errno Unit) (fuel : Nat) (device : Device) (size total len : Nat) :
    Run σ Errno Unit := do
  let _ ← Run.lift (divide total (blocksPerBitmap size))
  reiser4BackupLayoutBody f fuel (alloc40Create device size total) size len

/-- `cb_backup_count`. -/
def cbBackupCount (_ _ : Nat) : Run Candidate Errno Unit :=
  Run.modify fun hint => { hint with total := hint.total + 1 }

/-- Run a routine on each element of a list, up to the first failure. -/
def onEach {β : Type} (x : Run β Errno Unit) : List β → Option (Except Errno Unit × List β)
  | [] => some (.ok (), [])
  | b :: list =>
    match x.run b with
    | none => none
    | some (.error e, b') => some (.error e, b' :: list)
    | some (.ok (), b') => (onEach x list).map fun r => (r.1, b' :: r.2)

section Program

variable (blocks unit : Nat) (disk : Nat → Device)

/-- `cb_save_backup`: the block is read, checked and looked for in the list. -/
def cbSaveBackup (size blk _count : Nat) : Run (List Candidate) Errno Unit :=
  match disk size blk with
  | none => Run.fail .eio
  | some block =>
    match repairFsCheckBackup blocks unit { freshHint size with block, nr := blk } with
    | none => pure ()
    | some hint => Run.modify (candidates.add hintCmp hint)

/-- The total of one element of the list, where it is not known yet. -/
def countTotal (fuel size : Nat) : Run Candidate Errno Unit := do
  let hint ← Run.get
  if hint.total ≠ 0 then pure ()
  else do
    walkBackups cbBackupCount fuel (disk size) size (repairFormatLenOld blocks unit size) hint.hint.blocks
    Run.modify fun hint => if hint.total < hint.count then { hint with count := hint.total } else hint

/-- One block size. -/
def scanSize (fuel size : Nat) : Run (List Candidate) Errno Unit := do
  let len := repairFormatLenOld blocks unit size
  walkBackups (cbSaveBackup blocks unit disk size) fuel (disk size) size len len
  ⟨onEach (countTotal blocks unit disk fuel size)⟩

/-- From `REISER4_MIN_BLKSIZE` to `REISER4_MAX_BLKSIZE`. -/
def blksizes : List Nat := [512, 1024, 2048, 4096, 8192]

/-- The list of all candidates. -/
def gather (fuel : Nat) : Run (List Candidate) Errno Unit := Run.forEach (scanSize blocks unit disk fuel) blksizes

/-- `fs->master` and `fs->format`, both open.  The magic of the format was found in a block of the block size. -/
structure OpenFs where
  master : Bytes
  super : Bytes
  opened : Opened master super
  magic_fits : sbMagic + 15 ≤ getMsBlksize master 0

/-- The backup of the super blocks, if they are open and it is a valid one; its blocks are counted. -/
def ondiskBackup (fuel : Nat) : Option OpenFs → Run (List Candidate) Errno (Option BackupHint)
  | none => pure none
  | some fs =>
    let size := getMsBlksize fs.master 0
    if size = 0 then Run.fail .enomem
    else
      match repairFsCheckBackup blocks unit (backupOf fs.master fs.super none) with
      | none => pure none
      | some hint => do
        let r ← Run.lift ((walkBackups cbBackupCount fuel (disk size) size hint.blocks hint.blocks).run ⟨hint, 0, 0⟩)
        match r.1 with
        | .error e => Run.fail e
        | .ok () => pure (some hint)

end Program

/-! ## The choice -/

/-- A value assigned to an `int`. -/
def asInt (n : Nat) : Int := (n : Int).bmod two32

/-- The variables of the scan. -/
structure Choice where
  max : Nat
  app : Option Candidate
  found : Nat

/-- Does the backup agree with the super blocks, as far as the plugin set? -/
def matchesOndisk (ondisk : Option BackupHint) (cand : Candidate) : Bool :=
  match ondisk with
  | none => false
  | some ondisk => repairBackupHintCmp cand.hint ondisk ondisk.bkPset == .eq

/-- The weight of a candidate in the scan. -/
def candWeight (ondisk : Option BackupHint) (cand : Candidate) : Option Int :=
  (divide (u64 (cand.count * 66)) cand.total).map fun share =>
    asInt (u64 (share + (matchesOndisk ondisk cand).toNat * 33))

/-- One round of the scan. -/
def chooseStep (ondisk : Option BackupHint) (s : Choice) (cand : Candidate) : Option Choice :=
  let matched := matchesOndisk ondisk cand
  let found := if s.found = 0 then matched.toNat else s.found
  (candWeight ondisk cand).map fun weight =>
    if (s.max : Int) < weight ∨ (weight = s.max ∧ matched = true) then
      -- `max` is an `uint8_t`
      ⟨(weight % 256).toNat, some cand, if found ≠ 0 ∧ matched = false then 2 else found⟩
    else { s with found }

def choose (ondisk : Option BackupHint) (list : List Candidate) : Option Choice :=
  list.foldlM (chooseStep ondisk) ⟨0, none, 0⟩

/-- `repair_backup_open`; an error is the NULL. -/
def repairBackupOpen (blocks unit : Nat) (disk : Nat → Device) (fuel : Nat) (fs : Option OpenFs) (mode : Mode) :
    Run (List Candidate) Errno Candidate := do
  gather blocks unit disk fuel
  let list ← Run.get
  if list.isEmpty then Run.fail .einval
  else do
    let ondisk ← ondiskBackup blocks unit disk fuel fs
    let choice ← Run.lift (choose ondisk list)
    match choice.app with
    | none => Run.fail .einval
    | some app =>
      if app.total ≠ app.count ∧ mode ≠ .build then Run.fail .einval
      else if ondisk.isSome ∧ choice.found ≠ 1 ∧ app.count = 1 ∧ app.count ≠ app.total then Run.fail .einval
      else pure app

/-! ## What is to be gathered -/

section Spec

variable (blocks unit : Nat) (disk : Nat → Device)

/-- The backup blocks of a file system of `len` blocks, with an allocator for `total`. -/
def backupLayout (size total len : Nat) : List Nat := (backupBlocks (copyAt size total) len (len + 3) 0 2).getD []

/-- The backup blocks for the length of the device. -/
def deviceLayout (size : Nat) : List Nat :=
  backupLayout size (repairFormatLenOld blocks unit size) (repairFormatLenOld blocks unit size)

/-- The valid backup in a block.  A block whose number is not below the length in it is none. -/
def backupAt (size blk : Nat) : Option BackupHint := do
  let block ← disk size blk
  repairFsCheckBackup blocks unit { freshHint size with block, nr := blk }

/-- The block holds this backup. -/
def carries (hint : BackupHint) (blk : Nat) : Bool :=
  match backupAt blocks unit disk hint.size blk with
  | none => false
  | some found => hintCmp hint found == .eq

/-- The list holds each valid backup of the block sizes once, in order, with its counts. -/
structure Gathered (sizes : List Nat) (list : List Candidate) : Prop where
  sorted : candidates.Ascending hintCmp list
  valid : ∀ cand ∈ list, ∃ size ∈ sizes, ∃ blk ∈ deviceLayout blocks unit size,
    backupAt blocks unit disk size blk = some cand.hint
  complete : ∀ size ∈ sizes, ∀ blk ∈ deviceLayout blocks unit size, ∀ hint,
    backupAt blocks unit disk size blk = some hint → ∃! cand, cand ∈ list ∧ hintCmp cand.hint hint = .eq
  total : ∀ cand ∈ list, 0 < cand.total ∧ cand.total = (backupLayout cand.hint.size
    (repairFormatLenOld blocks unit cand.hint.size) cand.hint.blocks).length
  count : ∀ cand ∈ list, cand.count =
    min ((deviceLayout blocks unit cand.hint.size).countP (carries blocks unit disk cand.hint)) cand.total

/-- 66 points for all blocks, 33 for the super blocks. -/
def weightOf (ondisk : Option BackupHint) (cand : Candidate) : Nat :=
  cand.count * 66 / cand.total + if matchesOndisk ondisk cand then 33 else 0

/-- The valid backup of the super blocks. -/
def ondiskOf (fs : Option OpenFs) : Option BackupHint := do
  let fs ← fs
  repairFsCheckBackup blocks unit (backupOf fs.master fs.super none)

/-- The one that is taken: of the candidates with the largest weight the last that agrees with the super blocks, or the
    first if none of them does. -/
structure Chosen (ondisk : Option BackupHint) (list : List Candidate) (app : Candidate) : Prop where
  pos : 0 < weightOf ondisk app
  place : ∃ pre post, list = pre ++ app :: post ∧
    (∀ cand ∈ pre, weightOf ondisk cand < weightOf ondisk app ∨
      (weightOf ondisk cand = weightOf ondisk app ∧ matchesOndisk ondisk app = true)) ∧
    ∀ cand ∈ post, weightOf ondisk cand < weightOf ondisk app ∨
      (weightOf ondisk cand = weightOf ondisk app ∧ matchesOndisk ondisk cand = false)

/-- Some backup agrees with the super blocks. -/
def Met (ondisk : Option BackupHint) (list : List Candidate) : Prop :=
  ∃ cand ∈ list, matchesOndisk ondisk cand = true

/-- Behind a backup that agrees stands one that does not, and it is heavier than all before it. -/
def Overtaken (ondisk : Option BackupHint) (list : List Candidate) : Prop :=
  ∃ pre cand post, list = pre ++ cand :: post ∧ Met ondisk pre ∧ matchesOndisk ondisk cand = false ∧
    ∀ before ∈ pre, weightOf ondisk before < weightOf ondisk cand

/-- The chosen backup is returned: all its blocks are there, unless the file system is rebuilt; and one that a single
    block holds is not taken against the super blocks. -/
structure Returned (mode : Mode) (ondisk : Option BackupHint) (list : List Candidate) (app : Candidate) : Prop where
  chosen : Chosen ondisk list app
  whole : app.count = app.total ∨ mode = .build
  agreed : ondisk.isSome → app.count = 1 → app.count ≠ app.total → Met ondisk list ∧ ¬Overtaken ondisk list

end Spec

/-! ## The walks -/

theorem backupBlocks_length {c : Nat → Nat} {len : Nat} : ∀ {fuel prev blk : Nat} {blks : List Nat},
    backupBlocks c len fuel prev blk = some blks → blks.length ≤ fuel
  | 0, _, _, _, h => by cases h
  | fuel + 1, prev, blk, blks, h => by
    rw [backupBlocks] at h
    split at h
    · exact Nat.le_succ_of_le (backupBlocks_length h)
    split at h
    · cases h
      exact Nat.zero_le _
    split at h
    · cases h
      exact Nat.zero_le _
    split at h
    · exact Nat.le_succ_of_le (backupBlocks_length h)
    · obtain ⟨rest, hrest, rfl⟩ := Option.map_eq_some_iff.mp h
      exact Nat.succ_le_succ (backupBlocks_length hrest)

/-- The fuel of the layout is enough. -/
theorem backupLayout_run {size total len fuel : Nat} (hlen : len < 4611686018427387904) (hfuel : len + 3 ≤ fuel) :
    backupBlocks (copyAt size total) len fuel 0 2 = some (backupLayout size total len) := by
  obtain ⟨blks, hrun, -, -⟩ := @backupBlocks_spec (copyAt size total) len hlen (len + 3) 0 2 (le_refl _)
    (Nat.le_add_left _ _) (Nat.zero_le _) (Nat.le_add_right _ _)
  unfold backupLayout
  rw [hrun]
  exact backupBlocks_mono hfuel hrun

theorem backupLayout_length {size total len : Nat} (hlen : len < 4611686018427387904) :
    (backupLayout size total len).length ≤ len + 3 :=
  backupBlocks_length (backupLayout_run hlen (le_refl _))

/-- A walk ends, and calls its function for the blocks of the layout. -/
theorem walkBackups_eq {σ : Type} (f : Nat → Nat → Run σ Errno Unit) {fuel size total len : Nat} (device : Device)
    (hsize : 0 < blocksPerBitmap size) (hlen : len < 4611686018427387904) (hfuel : len + 3 ≤ fuel) (s : σ) :
    (walkBackups f fuel device size total len).run s =
      (Run.forEach (fun b => f b 1) (backupLayout size total len)).run s := by
  have hdiv : divide total (blocksPerBitmap size) = some (total / blocksPerBitmap size) :=
    if_neg (Nat.pos_iff_ne_zero.mp hsize)
  have hrun := @backupLayout_run size total len fuel hlen hfuel
  unfold walkBackups reiser4BackupLayoutBody
  rw [hdiv, Run.bind_of_ok (Run.lift_some _ s)]
  refine backupLoop_eq ?_ s
  rw [show backupCopy (alloc40Create device size total) size = copyAt size total from
    funext (backupCopy_eq _ rfl rfl)]
  exact hrun

/-- The walk that counts. -/
theorem countWalk {fuel size total len : Nat} (device : Device) (hsize : 0 < blocksPerBitmap size)
    (hlen : len < 4611686018427387904) (hfuel : len + 3 ≤ fuel) (cand : Candidate) :
    (walkBackups cbBackupCount fuel device size total len).run cand =
      some (.ok (), { cand with total := cand.total + (backupLayout size total len).length }) := by
  have hcount : ∀ (blks : List Nat) (cand : Candidate), (Run.forEach (fun b => cbBackupCount b 1) blks).run cand =
      some (.ok (), { cand with total := cand.total + blks.length }) := by
    intro blks
    induction blks with
    | nil => exact fun cand => rfl
    | cons b blks ih =>
      intro cand
      rw [Run.forEach]
      show (Run.forEach _ blks).run { cand with total := cand.total + 1 } = _
      rw [ih, List.length_cons, Nat.add_right_comm, Nat.add_assoc]
  rw [walkBackups_eq _ device hsize hlen hfuel]
  exact hcount _ cand

/-- **A length that is accepted has a backup block**: the first one is at the start of the backups. -/
theorem layout_pos {size total len : Nat} (h : Accepted size len) : 0 < (backupLayout size total len).length := by
  have hmin := h.min_le
  have hlow := h.low
  have hmax := h.lt_max
  have hstart : backupStart size < len := by
    unfold backupStart
    unfold fsMinSize at hmin
    omega
  have hper : 3 < blocksPerBitmap size := by
    unfold blocksPerBitmap crcSize
    omega
  have h6 : 6 ≤ backupStart size := by
    unfold backupStart
    omega
  have hcopy : copyAt size total 3 = backupStart size := by
    unfold copyAt
    dsimp only
    have hone : ∀ (c : Prop) [Decidable c], (if c then 0 else 0 + 1) ≤ 6 := by
      intro c _
      split <;> omega
    rw [Nat.div_eq_of_lt hper, Nat.zero_mul]
    exact Nat.max_eq_left (Nat.le_trans (hone _) h6)
  have hrun := @backupLayout_run size total len (len + 3) (by omega) (le_refl _)
  rw [backupBlocks, show backupExpLayout 2 = 3 from rfl, if_neg (by decide), if_neg (by omega), hcopy, if_neg (by omega),
    if_neg (by omega)] at hrun
  obtain ⟨rest, -, heq⟩ := Option.map_eq_some_iff.mp hrun
  rw [← heq]
  exact Nat.succ_pos _

/-! ## A valid backup -/

/-- What the check leaves of a hint that it accepts. -/
structure CheckedHint (blocks unit : Nat) (hint found : BackupHint) : Prop where
  block : found.block = hint.block
  size : found.size = hint.size
  len : repairFormatCheckLenOld blocks unit hint.size found.blocks = true
  pset : found.bkPset = 111

/-- The check of the plugin set leaves all but the end of it alone. -/
theorem psetCheck_eq {hint found : BackupHint} (h : repairPsetCheckBackup hint = some found) :
    ∃ last, found = { hint with bkLast := last } := by
  unfold repairPsetCheckBackup at h
  dsimp only at h
  split at h
  · cases h
  split at h
  · obtain rfl := Option.some.inj h
    exact ⟨hint.bkLast, rfl⟩
  split at h
  · obtain rfl := Option.some.inj h
    exact ⟨_, rfl⟩
  · cases h

theorem checkBackup_checked {blocks unit : Nat} {hint found : BackupHint}
    (h : repairFsCheckBackup blocks unit hint = some found) : CheckedHint blocks unit hint found := by
  unfold repairFsCheckBackup at h
  split at h
  · cases h
  obtain ⟨h1, hm, h⟩ := Option.bind_eq_some_iff.mp h
  obtain ⟨h2, hf, hp⟩ := Option.bind_eq_some_iff.mp h
  -- The master super block: its block size is that of the hint.
  unfold repairMasterCheckBackup at hm
  split at hm
  · cases hm
  split at hm
  · cases hm
  next hsize =>
  obtain rfl := Option.some.inj hm
  -- The format.
  unfold repairFormatCheckBackup at hf
  split at hf
  · cases hf
  obtain ⟨h3, hc, hf⟩ := Option.bind_eq_some_iff.mp hf
  split at hf
  · next hlen =>
    obtain rfl := Option.some.inj hf
    unfold format40CheckBackup at hc
    split at hc
    · cases hc
    split at hc
    · cases hc
    split at hc
    · cases hc
    obtain rfl := Option.some.inj hc
    dsimp only at hlen hsize hp
    rw [Decidable.of_not_not hsize] at hlen
    obtain ⟨last, rfl⟩ := psetCheck_eq hp
    exact ⟨rfl, rfl, hlen, rfl⟩
  · cases hf

/-- The block sizes come first, then the bytes. -/
theorem hintCmp_eq : hintCmp = compareLex (compareOn BackupHint.size) (compareOn fun h => h.block.slice 0 h.size) := by
  funext a b
  unfold hintCmp repairBackupHintCmp aalMemcmp compareLex compareOn
  rcases Nat.lt_trichotomy a.size b.size with hlt | heq | hgt
  · rw [if_pos hlt, Nat.compare_eq_lt.mpr hlt]
    rfl
  · rw [heq, if_neg (Nat.lt_irrefl _), if_neg (Nat.lt_irrefl _), Nat.compare_eq_eq.mpr rfl]
    show _ = compare (a.block.slice 0 a.size) (b.block.slice 0 b.size)
    rw [heq]
  · rw [if_neg (Nat.lt_asymm hgt), if_pos hgt, Nat.compare_eq_gt.mpr hgt]
    rfl

instance : Std.TransCmp hintCmp := by
  rw [hintCmp_eq]
  infer_instance

theorem hintCmp_lt {a b : BackupHint} (h : a.size < b.size) : hintCmp a b = .lt := if_pos h

/-! ## One block size -/

theorem onEach_run {β : Type} {x : Run β Errno Unit} {g : β → β} : ∀ {l : List β},
    (∀ b ∈ l, x.run b = some (.ok (), g b)) → onEach x l = some (.ok (), l.map g)
  | [], _ => rfl
  | b :: l, h => by
    rw [onEach, h b (List.mem_cons_self ..)]
    dsimp only
    rw [onEach_run fun b' hb' => h b' (List.mem_cons_of_mem _ hb')]
    rfl

section Gathering

variable {blocks unit : Nat} {disk : Nat → Device}

/-- The blocks are read and counted, or one of them cannot be read. -/
theorem saveAll_run {size : Nat} : ∀ (blks : List Nat) (list : List Candidate),
    ((∀ blk ∈ blks, (disk size blk).isSome) ∧
      (Run.forEach (fun b => cbSaveBackup blocks unit disk size b 1) blks).run list = some (.ok (),
        (blks.filterMap (backupAt blocks unit disk size)).foldl (fun l a => candidates.add hintCmp a l) list)) ∨
    ((∃ blk ∈ blks, disk size blk = none) ∧ ∃ list',
      (Run.forEach (fun b => cbSaveBackup blocks unit disk size b 1) blks).run list = some (.error .eio, list'))
  | [], list => Or.inl ⟨nofun, rfl⟩
  | blk :: blks, list => by
    rw [Run.forEach]
    cases hread : disk size blk with
    | none =>
      refine Or.inr ⟨⟨blk, List.mem_cons_self .., hread⟩, list, ?_⟩
      rw [Run.run_bind, cbSaveBackup, hread]
      rfl
    | some block =>
      -- The list behind this block.
      obtain ⟨list1, hrun1, hlist1⟩ : ∃ list1,
          (cbSaveBackup blocks unit disk size blk 1).run list = some (.ok (), list1) ∧
          ∀ rest, ((blk :: rest).filterMap (backupAt blocks unit disk size)).foldl
              (fun l a => candidates.add hintCmp a l) list =
            (rest.filterMap (backupAt blocks unit disk size)).foldl (fun l a => candidates.add hintCmp a l) list1 := by
        unfold cbSaveBackup
        rw [hread]
        dsimp only
        have hat : backupAt blocks unit disk size blk =
            repairFsCheckBackup blocks unit { freshHint size with block, nr := blk } := by
          unfold backupAt
          rw [hread]
          rfl
        cases hcheck : repairFsCheckBackup blocks unit { freshHint size with block, nr := blk } with
        | none =>
          refine ⟨list, rfl, fun rest => ?_⟩
          rw [List.filterMap_cons_none (hat.trans hcheck)]
        | some hint =>
          refine ⟨candidates.add hintCmp hint list, rfl, fun rest => ?_⟩
          rw [List.filterMap_cons_some (hat.trans hcheck), List.foldl_cons]
      rw [Run.bind_of_ok hrun1, hlist1]
      rcases saveAll_run blks list1 with ⟨hall, hrun⟩ | ⟨⟨blk', hmem, hnone⟩, list', hrun⟩
      · refine Or.inl ⟨fun blk' hmem => ?_, hrun⟩
        rcases List.mem_cons.mp hmem with rfl | hmem
        · rw [hread]
          rfl
        · exact hall blk' hmem
      · exact Or.inr ⟨⟨blk', List.mem_cons_of_mem _ hmem, hnone⟩, list', hrun⟩

/-- What is known of the lengths of a device. -/
theorem formatLen_lt {size : Nat} (hsize : 67 ≤ size) :
    repairFormatLenOld blocks unit size < 288230376151711744 ∧
      repairFormatLenOld blocks unit size ≤ u64 (blocks * unit) := by
  have h64 : u64 (blocks * unit) < 18446744073709551616 := Nat.mod_lt _ (by decide)
  refine ⟨?_, Nat.div_le_self _ _⟩
  unfold repairFormatLenOld
  rw [Nat.div_lt_iff_lt_mul (by omega)]
  calc u64 (blocks * unit) < 288230376151711744 * 64 := h64
    _ ≤ 288230376151711744 * size := Nat.mul_le_mul_left _ (by omega)

theorem mem_blksizes {size : Nat} (h : size ∈ blksizes) : cbBsCheck size = true ∧ 512 ≤ size := by
  revert size
  decide

/-- A candidate with its counts. -/
def settled (blocks unit size : Nat) (cand : Candidate) : Candidate :=
  if cand.total ≠ 0 then cand
  else
    let total := (backupLayout size (repairFormatLenOld blocks unit size) cand.hint.blocks).length
    { cand with count := min cand.count total, total }

theorem countTotal_run {fuel size : Nat} (hs : size ∈ blksizes) (hfuel : u64 (blocks * unit) + 3 ≤ fuel)
    {cand : Candidate} (hlen : cand.total = 0 → cand.hint.blocks ≤ repairFormatLenOld blocks unit size) :
    (countTotal blocks unit disk fuel size).run cand = some (.ok (), settled blocks unit size cand) := by
  have hsize := (mem_blksizes hs).2
  obtain ⟨hmax, hle⟩ := @formatLen_lt blocks unit size (by omega)
  unfold countTotal settled
  rw [Run.get_bind]
  by_cases htotal : cand.total ≠ 0
  · rw [if_pos htotal, if_pos htotal]
    rfl
  rw [if_neg htotal, if_neg htotal]
  have hblocks := hlen (Decidable.of_not_not htotal)
  have hper : 0 < blocksPerBitmap size := by
    unfold blocksPerBitmap crcSize
    omega
  rw [Run.bind_of_ok (countWalk (disk size) hper (by omega) (by omega) cand), Run.run_modify,
    Decidable.of_not_not htotal, Nat.zero_add]
  dsimp only
  split
  · next hlt => rw [Nat.min_eq_right (Nat.le_of_lt hlt)]
  · next hge => rw [Nat.min_eq_left (Nat.le_of_not_lt hge)]

theorem backupAt_checked {size blk : Nat} {hint : BackupHint} (h : backupAt blocks unit disk size blk = some hint) :
    hint.size = size ∧ repairFormatCheckLenOld blocks unit size hint.blocks = true := by
  obtain ⟨block, -, hcheck⟩ := Option.bind_eq_some_iff.mp h
  have hc := checkBackup_checked hcheck
  exact ⟨hc.size, hc.len⟩

/-- The elements behind the walk of the list have no total. -/
theorem foldl_total (hints : List BackupHint) : ∀ (list : List Candidate), (∀ cand ∈ list, cand.total = 0) →
    ∀ cand ∈ hints.foldl (fun l a => candidates.add hintCmp a l) list, cand.total = 0 := by
  have hadd : ∀ (a : BackupHint) (list : List Candidate), (∀ cand ∈ list, cand.total = 0) →
      ∀ cand ∈ candidates.add hintCmp a list, cand.total = 0 := by
    intro a list
    induction list with
    | nil =>
      intro _ cand hmem
      rw [List.mem_singleton.mp hmem]
      rfl
    | cons b list ih =>
      intro h cand hmem
      rw [Counter.add] at hmem
      split at hmem
      · rcases List.mem_cons.mp hmem with rfl | hmem
        · exact h _ (List.mem_cons_self ..)
        · exact ih (fun c hc => h c (List.mem_cons_of_mem _ hc)) cand hmem
      · rcases List.mem_cons.mp hmem with rfl | hmem
        · exact h b (List.mem_cons_self ..)
        · exact h cand (List.mem_cons_of_mem _ hmem)
      · rcases List.mem_cons.mp hmem with rfl | hmem
        · rfl
        · exact h cand hmem
  induction hints with
  | nil => exact fun list h => h
  | cons a hints ih => exact fun list h => ih _ (hadd a list h)

/-- The candidates of smaller block sizes come first. -/
theorem Gathered.append {sizes : List Nat} {size : Nat} {list new : List Candidate} (hlt : ∀ s ∈ sizes, s < size)
    (h : Gathered blocks unit disk sizes list) (hn : Gathered blocks unit disk [size] new) :
    Gathered blocks unit disk (sizes ++ [size]) (list ++ new) := by
  have hsorted : candidates.Ascending hintCmp (list ++ new) := by
    refine List.pairwise_append.mpr ⟨h.sorted, hn.sorted, fun a ha b hb => hintCmp_lt ?_⟩
    obtain ⟨s, hs, blk, -, hat⟩ := h.valid a ha
    obtain ⟨s', hs', blk', -, hat'⟩ := hn.valid b hb
    obtain rfl := List.mem_singleton.mp hs'
    show a.hint.size < b.hint.size
    rw [(backupAt_checked hat).1, (backupAt_checked hat').1]
    exact hlt s hs
  constructor
  · exact hsorted
  · intro cand hmem
    rcases List.mem_append.mp hmem with hmem | hmem
    · obtain ⟨s, hs, hblk⟩ := h.valid cand hmem
      exact ⟨s, List.mem_append_left _ hs, hblk⟩
    · obtain ⟨s, hs, hblk⟩ := hn.valid cand hmem
      exact ⟨s, List.mem_append_right _ hs, hblk⟩
  · intro s hs blk hblk hint hat
    have hex : ∃ cand, cand ∈ list ++ new ∧ hintCmp cand.hint hint = .eq := by
      rcases List.mem_append.mp hs with hs | hs
      · obtain ⟨cand, ⟨hmem, heq⟩, -⟩ := h.complete s hs blk hblk hint hat
        exact ⟨cand, List.mem_append_left _ hmem, heq⟩
      · obtain ⟨cand, ⟨hmem, heq⟩, -⟩ := hn.complete s hs blk hblk hint hat
        exact ⟨cand, List.mem_append_right _ hmem, heq⟩
    obtain ⟨cand, hmem, heq⟩ := hex
    refine ⟨cand, ⟨hmem, heq⟩, fun cand' ⟨hmem', heq'⟩ => hsorted.unique hmem' hmem ?_⟩
    show hintCmp cand'.hint cand.hint = .eq
    rw [Std.TransCmp.congr_left heq']
    exact Std.OrientedCmp.eq_comm.mp heq
  · intro cand hmem
    rcases List.mem_append.mp hmem with hmem | hmem
    · exact h.total cand hmem
    · exact hn.total cand hmem
  · intro cand hmem
    rcases List.mem_append.mp hmem with hmem | hmem
    · exact h.count cand hmem
    · exact hn.count cand hmem

section OneSize

variable {size : Nat} {hints : List BackupHint} {new : List Candidate}

theorem settled_eq {cand : Candidate} (h : cand.total = 0) : settled blocks unit size cand = { cand with
    count := min cand.count (backupLayout size (repairFormatLenOld blocks unit size) cand.hint.blocks).length
    total := (backupLayout size (repairFormatLenOld blocks unit size) cand.hint.blocks).length } := by
  unfold settled
  rw [if_neg (not_not.mpr h)]

theorem settled_hint (cand : Candidate) : (settled blocks unit size cand).hint = cand.hint := by
  unfold settled
  split <;> rfl

/-- The counters of the valid backups of one block size, with their totals. -/
theorem settled_gathered (hs : size ∈ blksizes)
    (hhints : hints = (deviceLayout blocks unit size).filterMap (backupAt blocks unit disk size))
    (ht : candidates.Tallied hintCmp hints new) (hzero : ∀ cand ∈ new, cand.total = 0) :
    Gathered blocks unit disk [size] (new.map (settled blocks unit size)) := by
  have hbs := (mem_blksizes hs).1
  have hhint : ∀ cand ∈ new, ∃ blk ∈ deviceLayout blocks unit size,
      backupAt blocks unit disk size blk = some cand.hint := by
    intro cand hmem
    have hin : cand.hint ∈ hints := ht.key_mem cand hmem
    rw [hhints] at hin
    exact List.mem_filterMap.mp hin
  have hsorted : candidates.Ascending hintCmp (new.map (settled blocks unit size)) := by
    refine List.pairwise_map.mpr (ht.ascending.imp fun {a b} hcmp => ?_)
    show hintCmp (settled blocks unit size a).hint (settled blocks unit size b).hint = .lt
    rw [settled_hint, settled_hint]
    exact hcmp
  constructor
  · exact hsorted
  · intro cand' hmem
    obtain ⟨cand, hin, rfl⟩ := List.mem_map.mp hmem
    rw [settled_hint]
    exact ⟨size, List.mem_singleton_self _, hhint cand hin⟩
  · intro s hs' blk hblk hint hat
    obtain rfl := List.mem_singleton.mp hs'
    have hin : hint ∈ hints := by
      rw [hhints]
      exact List.mem_filterMap.mpr ⟨blk, hblk, hat⟩
    obtain ⟨cand, hmem, heq⟩ := ht.complete hint hin
    refine ⟨settled blocks unit s cand, ⟨List.mem_map_of_mem hmem, ?_⟩, fun cand' ⟨hmem', heq'⟩ => ?_⟩
    · rw [settled_hint]
      exact heq
    · refine hsorted.unique hmem' (List.mem_map_of_mem hmem) ?_
      show hintCmp cand'.hint (settled blocks unit s cand).hint = .eq
      rw [settled_hint, Std.TransCmp.congr_left heq']
      exact Std.OrientedCmp.eq_comm.mp heq
  · intro cand' hmem
    obtain ⟨cand, hin, rfl⟩ := List.mem_map.mp hmem
    obtain ⟨blk, -, hat⟩ := hhint cand hin
    obtain ⟨hsize, hlen⟩ := backupAt_checked hat
    rw [settled_eq (hzero cand hin)]
    dsimp only
    rw [hsize]
    exact ⟨layout_pos (accepted_of_old hbs hlen).1, rfl⟩
  · intro cand' hmem
    obtain ⟨cand, hin, rfl⟩ := List.mem_map.mp hmem
    obtain ⟨blk, -, hat⟩ := hhint cand hin
    have hsize := (backupAt_checked hat).1
    have htimes : cand.count = hints.countP fun a => hintCmp cand.hint a == .eq := ht.times cand hin
    rw [settled_eq (hzero cand hin)]
    dsimp only
    rw [hsize, htimes, hhints, List.countP_filterMap]
    refine congrArg (min · _) (List.countP_congr fun blk _ => ?_)
    unfold carries
    rw [hsize]
    cases backupAt blocks unit disk size blk with
    | none => simp
    | some a => simp

end OneSize

/-- **One block size**: its valid backups are counted behind those of the smaller sizes; or a block of the layout
    cannot be read. -/
theorem scanSize_run {fuel size : Nat} {sizes : List Nat} (hs : size ∈ blksizes) (hlt : ∀ s ∈ sizes, s < size)
    (hfuel : u64 (blocks * unit) + 3 ≤ fuel) {list : List Candidate} (h : Gathered blocks unit disk sizes list) :
    ((∀ blk ∈ deviceLayout blocks unit size, (disk size blk).isSome) ∧ ∃ list',
      (scanSize blocks unit disk fuel size).run list = some (.ok (), list') ∧
        Gathered blocks unit disk (sizes ++ [size]) list') ∨
    ((∃ blk ∈ deviceLayout blocks unit size, disk size blk = none) ∧ ∃ list',
      (scanSize blocks unit disk fuel size).run list = some (.error .eio, list')) := by
  obtain ⟨hbs, hsize⟩ := mem_blksizes hs
  obtain ⟨hmax, hle⟩ := @formatLen_lt blocks unit size (by omega)
  have hper : 0 < blocksPerBitmap size := by
    unfold blocksPerBitmap crcSize
    omega
  have hwalk : (walkBackups (cbSaveBackup blocks unit disk size) fuel (disk size) size
      (repairFormatLenOld blocks unit size) (repairFormatLenOld blocks unit size)).run list =
      (Run.forEach (fun b => cbSaveBackup blocks unit disk size b 1) (deviceLayout blocks unit size)).run list :=
    walkBackups_eq _ (disk size) hper (by omega) (by omega) list
  unfold scanSize
  dsimp only
  rcases @saveAll_run blocks unit disk size (deviceLayout blocks unit size) list with ⟨hall, hrun⟩ |
    ⟨hnone, list', hrun⟩
  · obtain ⟨hints, hhints⟩ : ∃ hints, hints = (deviceLayout blocks unit size).filterMap
      (backupAt blocks unit disk size) := ⟨_, rfl⟩
    rw [← hhints] at hrun
    have hhint : ∀ a ∈ hints, a.size = size ∧ repairFormatCheckLenOld blocks unit size a.blocks = true := by
      intro a ha
      rw [hhints] at ha
      obtain ⟨blk, -, hat⟩ := List.mem_filterMap.mp ha
      exact backupAt_checked hat
    -- The new candidates come behind the old ones.
    obtain ⟨new, hnew⟩ : ∃ new, new = hints.foldl (fun l a => candidates.add hintCmp a l) [] := ⟨_, rfl⟩
    have ht : candidates.Tallied hintCmp hints new := by
      rw [hnew]
      exact Counter.tallied_foldl hints
    have hbehind : hints.foldl (fun l a => candidates.add hintCmp a l) list = list ++ new := by
      have happ := @Counter.foldl_add_append _ _ candidates hintCmp list hints [] (by
        intro a ha cand hmem
        obtain ⟨s, hs', blk, -, hat⟩ := h.valid cand hmem
        refine hintCmp_lt ?_
        show cand.hint.size < a.size
        rw [(hhint a ha).1, (backupAt_checked hat).1]
        exact hlt s hs')
      rw [List.append_nil] at happ
      rw [hnew]
      exact happ
    have hzero : ∀ cand ∈ new, cand.total = 0 := by
      rw [hnew]
      exact foldl_total hints [] nofun
    have hsettle : onEach (countTotal blocks unit disk fuel size) (list ++ new) =
        some (.ok (), list ++ new.map (settled blocks unit size)) := by
      have hold : list.map (settled blocks unit size) = list := by
        refine (List.map_congr_left fun cand hmem => ?_).trans (List.map_id list)
        exact if_pos (Nat.pos_iff_ne_zero.mp (h.total cand hmem).1)
      rw [onEach_run (g := settled blocks unit size), List.map_append, hold]
      intro cand hmem
      refine countTotal_run hs hfuel fun htotal => ?_
      rcases List.mem_append.mp hmem with hmem | hmem
      · have := (h.total cand hmem).1
        omega
      · exact (accepted_of_old hbs (hhint _ (ht.key_mem cand hmem)).2).2.1
    refine Or.inl ⟨hall, list ++ new.map (settled blocks unit size), ?_, h.append hlt (settled_gathered hs hhints ht hzero)⟩
    rw [Run.bind_of_ok (hwalk.trans hrun), hbehind]
    exact hsettle
  · refine Or.inr ⟨hnone, list', ?_⟩
    rw [Run.run_bind, hwalk, hrun]

/-- The layout of every block size can be read. -/
def Readable (blocks unit : Nat) (disk : Nat → Device) (sizes : List Nat) : Prop :=
  ∀ size ∈ sizes, ∀ blk ∈ deviceLayout blocks unit size, (disk size blk).isSome

/-- The block sizes one behind the other. -/
theorem scanSizes_run {fuel : Nat} (hfuel : u64 (blocks * unit) + 3 ≤ fuel) : ∀ {rest sizes : List Nat}
    {list : List Candidate}, (∀ size ∈ rest, size ∈ blksizes) → (sizes ++ rest).Pairwise (· < ·) →
    Gathered blocks unit disk sizes list →
    (Readable blocks unit disk rest ∧ ∃ list',
      (Run.forEach (scanSize blocks unit disk fuel) rest).run list = some (.ok (), list') ∧
        Gathered blocks unit disk (sizes ++ rest) list') ∨
    (¬Readable blocks unit disk rest ∧ ∃ list',
      (Run.forEach (scanSize blocks unit disk fuel) rest).run list = some (.error .eio, list'))
  | [], sizes, list, _, _, h => by
    refine Or.inl ⟨nofun, list, rfl, ?_⟩
    rw [List.append_nil]
    exact h
  | size :: rest, sizes, list, hin, hsort, h => by
    rw [Run.forEach]
    have hlt : ∀ s ∈ sizes, s < size := fun s hs => (List.pairwise_append.mp hsort).2.2 s hs size (List.mem_cons_self ..)
    rcases scanSize_run (hin size (List.mem_cons_self ..)) hlt hfuel h with ⟨hall, list1, hrun, h1⟩ |
      ⟨⟨blk, hblk, hnone⟩, list1, hrun⟩
    · rw [List.append_cons] at hsort
      rw [Run.bind_of_ok hrun, List.append_cons]
      rcases scanSizes_run hfuel (fun s hs => hin s (List.mem_cons_of_mem _ hs)) hsort h1 with ⟨hread, hok⟩ |
        ⟨hno, herr⟩
      · refine Or.inl ⟨fun s hs => ?_, hok⟩
        rcases List.mem_cons.mp hs with rfl | hs
        · exact hall
        · exact hread s hs
      · exact Or.inr ⟨fun hread => hno fun s hs => hread s (List.mem_cons_of_mem _ hs), herr⟩
    · refine Or.inr ⟨fun hread => ?_, list1, ?_⟩
      · have hsome := hread size (List.mem_cons_self ..) blk hblk
        rw [hnone] at hsome
        cases hsome
      · rw [Run.run_bind, hrun]

/-- **The list of candidates.** -/
theorem gather_run {fuel : Nat} (hfuel : u64 (blocks * unit) + 3 ≤ fuel) :
    (Readable blocks unit disk blksizes ∧ ∃ list,
      (gather blocks unit disk fuel).run [] = some (.ok (), list) ∧ Gathered blocks unit disk blksizes list) ∨
    (¬Readable blocks unit disk blksizes ∧ ∃ list, (gather blocks unit disk fuel).run [] = some (.error .eio, list)) := by
  have hempty : Gathered blocks unit disk [] [] := by
    constructor
    · exact List.Pairwise.nil
    · exact nofun
    · exact nofun
    · exact nofun
    · exact nofun
  have hsorted : ([] ++ blksizes).Pairwise (· < ·) := by decide
  exact scanSizes_run hfuel (fun _ h => h) hsorted hempty

end Gathering

/-! ## The scan for the largest weight -/

section Choosing

variable {ondisk : Option BackupHint}

/-- The counts of a candidate that was settled. -/
structure Countable (cand : Candidate) : Prop where
  total_pos : 0 < cand.total
  count_le : cand.count ≤ cand.total
  total_lt : cand.total < 36028797018963971

theorem asInt_small {n : Nat} (h : n ≤ 99) : asInt n = n := by
  unfold asInt two32
  rw [Int.bmod_eq_of_le (by omega) (by omega)]

theorem weightOf_le {cand : Candidate} (h : Countable cand) : weightOf ondisk cand ≤ 99 := by
  have hshare : cand.count * 66 / cand.total ≤ 66 := by
    rw [Nat.div_le_iff_le_mul_add_pred h.total_pos]
    have hmul : cand.count * 66 ≤ cand.total * 66 := Nat.mul_le_mul_right 66 h.count_le
    omega
  unfold weightOf
  split <;> omega

theorem candWeight_eq {cand : Candidate} (h : Countable cand) :
    candWeight ondisk cand = some (weightOf ondisk cand : Int) := by
  have hle := @weightOf_le ondisk cand h
  have hlt : cand.count * 66 < 18446744073709551616 := by
    have := h.count_le
    have := h.total_lt
    omega
  have hcount : u64 (cand.count * 66) = cand.count * 66 := Nat.mod_eq_of_lt hlt
  have hsum : cand.count * 66 / cand.total + (matchesOndisk ondisk cand).toNat * 33 = weightOf ondisk cand := by
    unfold weightOf
    cases matchesOndisk ondisk cand <;> rfl
  have h64 : u64 (weightOf ondisk cand) = weightOf ondisk cand :=
    Nat.mod_eq_of_lt (Nat.lt_of_le_of_lt hle (by decide))
  have hdiv : divide (cand.count * 66) cand.total = some (cand.count * 66 / cand.total) :=
    if_neg (Nat.pos_iff_ne_zero.mp h.total_pos)
  unfold candWeight
  rw [hcount, hdiv, Option.map_some, hsum, h64, asInt_small hle]

/-- A round, without the widths of the variables. -/
theorem chooseStep_eq (s : Choice) {cand : Candidate} (h : Countable cand) {matched : Bool}
    (hm : matchesOndisk ondisk cand = matched) {found : Nat}
    (hf : found = if s.found = 0 then matched.toNat else s.found) :
    chooseStep ondisk s cand = some (
      if s.max < weightOf ondisk cand ∨ (weightOf ondisk cand = s.max ∧ matched = true) then
        ⟨weightOf ondisk cand, some cand, if found ≠ 0 ∧ matched = false then 2 else found⟩
      else { s with found }) := by
  subst hm
  have hle := @weightOf_le ondisk cand h
  have hbyte : ((weightOf ondisk cand : Int) % 256).toNat = weightOf ondisk cand := by omega
  have hcond : ((s.max : Int) < (weightOf ondisk cand : Int) ∨
      ((weightOf ondisk cand : Int) = s.max ∧ matchesOndisk ondisk cand = true)) ↔
      (s.max < weightOf ondisk cand ∨ (weightOf ondisk cand = s.max ∧ matchesOndisk ondisk cand = true)) := by
    rw [Int.ofNat_lt, Int.ofNat_inj]
  unfold chooseStep
  rw [candWeight_eq h, Option.map_some, hbyte, ← hf]
  by_cases hc : s.max < weightOf ondisk cand ∨ (weightOf ondisk cand = s.max ∧ matchesOndisk ondisk cand = true)
  · rw [if_pos hc, if_pos (hcond.mpr hc)]
  · rw [if_neg hc, if_neg fun h => hc (hcond.mp h)]

/-- A backup that agrees has weight. -/
theorem weightOf_pos {cand : Candidate} (h : matchesOndisk ondisk cand = true) : 0 < weightOf ondisk cand := by
  unfold weightOf
  rw [if_pos h]
  exact Nat.add_pos_right _ (by decide)

theorem Chosen.mem {list : List Candidate} {app : Candidate} (h : Chosen ondisk list app) : app ∈ list := by
  obtain ⟨pre, post, rfl, -, -⟩ := h.place
  exact List.mem_append_right _ (List.mem_cons_self ..)

theorem Chosen.largest {list : List Candidate} {app : Candidate} (h : Chosen ondisk list app) :
    ∀ cand ∈ list, weightOf ondisk cand ≤ weightOf ondisk app := by
  obtain ⟨pre, post, rfl, hpre, hpost⟩ := h.place
  intro cand hmem
  rcases List.mem_append.mp hmem with hmem | hmem
  · have := hpre cand hmem
    omega
  rcases List.mem_cons.mp hmem with rfl | hmem
  · exact Nat.le_refl _
  · have := hpost cand hmem
    omega

/-- One of two places is in front of the other, and neither gives way. -/
theorem Chosen.unique {list : List Candidate} {app app' : Candidate} (h : Chosen ondisk list app)
    (h' : Chosen ondisk list app') : app = app' := by
  -- The one in front would have given way to the one behind.
  have hfront : ∀ {a b : Candidate} {pre mid post : List Candidate},
      (∀ cand ∈ mid ++ b :: post, weightOf ondisk cand < weightOf ondisk a ∨
        (weightOf ondisk cand = weightOf ondisk a ∧ matchesOndisk ondisk cand = false)) →
      (∀ cand ∈ pre ++ a :: mid, weightOf ondisk cand < weightOf ondisk b ∨
        (weightOf ondisk cand = weightOf ondisk b ∧ matchesOndisk ondisk b = true)) → False := by
    intro a b pre mid post ha hb
    have h1 := ha b (List.mem_append_right _ (List.mem_cons_self ..))
    have h2 := hb a (List.mem_append_right _ (List.mem_cons_self ..))
    cases hm : matchesOndisk ondisk b with
    | false =>
      have hlt : weightOf ondisk a < weightOf ondisk b := h2.resolve_right fun h => by simp [hm] at h
      omega
    | true =>
      have hlt : weightOf ondisk b < weightOf ondisk a := h1.resolve_right fun h => by simp [hm] at h
      omega
  obtain ⟨pre, post, hlist, hpre, hpost⟩ := h.place
  obtain ⟨pre', post', hlist', hpre', hpost'⟩ := h'.place
  rcases List.append_eq_append_iff.mp (hlist.symm.trans hlist') with ⟨mid, hp, ha⟩ | ⟨mid, hp, ha⟩
  · cases mid with
    | nil => exact (List.cons.inj ha).1
    | cons c mid =>
      obtain ⟨rfl, rfl⟩ := List.cons.inj ha
      rw [hp] at hpre'
      exact (hfront hpost hpre').elim
  · cases mid with
    | nil => exact (List.cons.inj ha).1.symm
    | cons c mid =>
      obtain ⟨rfl, rfl⟩ := List.cons.inj ha
      rw [hp] at hpre
      exact (hfront hpost' hpre).elim

/-- One more candidate, which is not taken. -/
theorem Chosen.snoc {seen : List Candidate} {app cand : Candidate} (h : Chosen ondisk seen app)
    (hkeep : weightOf ondisk cand < weightOf ondisk app ∨
      (weightOf ondisk cand = weightOf ondisk app ∧ matchesOndisk ondisk cand = false)) :
    Chosen ondisk (seen ++ [cand]) app := by
  obtain ⟨pre, post, rfl, hpre, hpost⟩ := h.place
  refine ⟨h.pos, pre, post ++ [cand], List.append_assoc .., hpre, fun c hmem => ?_⟩
  rcases List.mem_append.mp hmem with hmem | hmem
  · exact hpost c hmem
  · rw [List.mem_singleton.mp hmem]
    exact hkeep

theorem met_snoc {seen : List Candidate} {cand : Candidate} :
    Met ondisk (seen ++ [cand]) ↔ Met ondisk seen ∨ matchesOndisk ondisk cand = true := by
  constructor
  · rintro ⟨c, hmem, hc⟩
    rcases List.mem_append.mp hmem with hmem | hmem
    · exact Or.inl ⟨c, hmem, hc⟩
    · rw [List.mem_singleton.mp hmem] at hc
      exact Or.inr hc
  · rintro (⟨c, hmem, hc⟩ | hc)
    · exact ⟨c, List.mem_append_left _ hmem, hc⟩
    · exact ⟨cand, List.mem_append_right _ (List.mem_singleton_self _), hc⟩

theorem overtaken_snoc {seen : List Candidate} {cand : Candidate} :
    Overtaken ondisk (seen ++ [cand]) ↔ Overtaken ondisk seen ∨
      (Met ondisk seen ∧ matchesOndisk ondisk cand = false ∧
        ∀ before ∈ seen, weightOf ondisk before < weightOf ondisk cand) := by
  constructor
  · rintro ⟨pre, c, post, hlist, hmet, hno, hlt⟩
    rcases List.eq_nil_or_concat post with rfl | ⟨post, last, rfl⟩
    · obtain ⟨rfl, hc⟩ := List.append_inj' hlist rfl
      obtain rfl := List.singleton_inj.mp hc
      exact Or.inr ⟨hmet, hno, hlt⟩
    · rw [List.concat_eq_append, ← List.cons_append, ← List.append_assoc] at hlist
      exact Or.inl ⟨pre, c, post, (List.append_inj' hlist rfl).1, hmet, hno, hlt⟩
  · rintro (⟨pre, c, post, rfl, hmet, hno, hlt⟩ | ⟨hmet, hno, hlt⟩)
    · exact ⟨pre, c, post ++ [cand], List.append_assoc .., hmet, hno, hlt⟩
    · exact ⟨seen, cand, [], rfl, hmet, hno, hlt⟩

/-- What `found` says of the backups so far. -/
structure Found (ondisk : Option BackupHint) (seen : List Candidate) (found : Nat) : Prop where
  zero : found = 0 ↔ ¬Met ondisk seen
  one : found = 1 ↔ Met ondisk seen ∧ ¬Overtaken ondisk seen

section FoundStep

variable {seen : List Candidate} {found : Nat} {cand : Candidate}

theorem Found.agree (h : Found ondisk seen found) (hm : matchesOndisk ondisk cand = true) :
    Found ondisk (seen ++ [cand]) (if found = 0 then 1 else found) := by
  have hmet : Met ondisk (seen ++ [cand]) := met_snoc.mpr (Or.inr hm)
  have hover : Overtaken ondisk (seen ++ [cand]) ↔ Overtaken ondisk seen := by
    rw [overtaken_snoc, or_iff_left]
    rintro ⟨-, hno, -⟩
    rw [hm] at hno
    cases hno
  constructor
  · simp only [hmet, not_true, iff_false]
    split <;> omega
  · simp only [hmet, true_and, hover]
    by_cases hz : found = 0
    · rw [if_pos hz]
      refine iff_of_true rfl fun ⟨pre, c, post, hl, ⟨c', hmem, hc⟩, _⟩ => h.zero.mp hz ⟨c', ?_, hc⟩
      rw [hl]
      exact List.mem_append_left _ hmem
    · rw [if_neg hz, h.one, and_iff_right (Classical.not_not.mp fun hno => hz (h.zero.mpr hno))]

theorem Found.differ (h : Found ondisk seen found) (hm : matchesOndisk ondisk cand = false)
    (hlow : ¬(Met ondisk seen ∧ ∀ before ∈ seen, weightOf ondisk before < weightOf ondisk cand)) :
    Found ondisk (seen ++ [cand]) found := by
  have hmet : Met ondisk (seen ++ [cand]) ↔ Met ondisk seen := by simp [met_snoc, hm]
  have hover : Overtaken ondisk (seen ++ [cand]) ↔ Overtaken ondisk seen := by
    rw [overtaken_snoc, or_iff_left]
    exact fun ⟨hmet, _, hlt⟩ => hlow ⟨hmet, hlt⟩
  constructor
  · rw [hmet]
    exact h.zero
  · rw [hmet, hover]
    exact h.one

theorem Found.overtake (h : Found ondisk seen found) (hm : matchesOndisk ondisk cand = false) (hne : found ≠ 0)
    (hlt : ∀ before ∈ seen, weightOf ondisk before < weightOf ondisk cand) : Found ondisk (seen ++ [cand]) 2 := by
  have hmet : Met ondisk seen := Classical.not_not.mp fun hno => hne (h.zero.mpr hno)
  have hover : Overtaken ondisk (seen ++ [cand]) := overtaken_snoc.mpr (Or.inr ⟨hmet, hm, hlt⟩)
  exact ⟨iff_of_false (by decide) (not_not_intro (met_snoc.mpr (Or.inl hmet))),
    iff_of_false (by decide) fun h => h.2 hover⟩

end FoundStep

/-- What the scan has taken so far. -/
structure Best (ondisk : Option BackupHint) (seen : List Candidate) (s : Choice) : Prop where
  untaken : s.app = none → s.max = 0 ∧ ∀ cand ∈ seen, weightOf ondisk cand = 0
  taken : ∀ app, s.app = some app → s.max = weightOf ondisk app ∧ Chosen ondisk seen app
  found : Found ondisk seen s.found

theorem Best.le_max {seen : List Candidate} {s : Choice} (h : Best ondisk seen s) :
    ∀ cand ∈ seen, weightOf ondisk cand ≤ s.max := by
  intro cand hmem
  cases happ : s.app with
  | none =>
    rw [(h.untaken happ).2 cand hmem]
    exact Nat.zero_le _
  | some app =>
    obtain ⟨hmax, hchosen⟩ := h.taken app happ
    rw [hmax]
    exact hchosen.largest cand hmem

/-- Where a backup agrees, the largest weight is one of the candidates'. -/
theorem Best.max_lt {seen : List Candidate} {s : Choice} (h : Best ondisk seen s) (hmet : Met ondisk seen) {n : Nat}
    (hlt : ∀ cand ∈ seen, weightOf ondisk cand < n) : s.max < n := by
  cases happ : s.app with
  | none =>
    obtain ⟨cand, hmem, -⟩ := hmet
    rw [(h.untaken happ).1]
    exact Nat.zero_lt_of_lt (hlt cand hmem)
  | some app =>
    obtain ⟨hmax, hchosen⟩ := h.taken app happ
    rw [hmax]
    exact hlt app hchosen.mem

theorem Best.step {seen : List Candidate} {s : Choice} (h : Best ondisk seen s) {cand : Candidate}
    (hc : Countable cand) : ∃ s', chooseStep ondisk s cand = some s' ∧ Best ondisk (seen ++ [cand]) s' := by
  have hle := h.le_max
  refine ⟨_, chooseStep_eq s hc rfl rfl, ?_⟩
  split
  · next hbetter =>
    refine ⟨nofun, fun app happ => ?_, ?_⟩
    · obtain rfl := Option.some.inj happ
      refine ⟨rfl, ?_, seen, [], rfl, fun c hmem => ?_, nofun⟩
      · rcases hbetter with hlt | ⟨-, hm⟩
        · exact Nat.zero_lt_of_lt hlt
        · exact weightOf_pos hm
      · have hc := hle c hmem
        rcases hbetter with hlt | ⟨heq, hm⟩
        · exact Or.inl (Nat.lt_of_le_of_lt hc hlt)
        · rw [← heq] at hc
          exact (Nat.lt_or_eq_of_le hc).imp_right fun heq => ⟨heq, hm⟩
    · dsimp only
      cases hm : matchesOndisk ondisk cand with
      | true =>
        rw [if_neg fun h => nomatch h.2]
        exact h.found.agree hm
      | false =>
        have hlt : ∀ before ∈ seen, weightOf ondisk before < weightOf ondisk cand := fun before hmem =>
          Nat.lt_of_le_of_lt (hle before hmem) (hbetter.resolve_right fun h => by simp [hm] at h)
        by_cases hz : s.found = 0
        · rw [if_pos hz]
          have hdiffer := h.found.differ hm fun h' => h.found.zero.mp hz h'.1
          rw [hz] at hdiffer
          exact hdiffer
        · rw [if_neg hz, if_pos ⟨hz, rfl⟩]
          exact h.found.overtake hm hz hlt
  · next hworse =>
    refine ⟨fun happ => ?_, fun app happ => ?_, ?_⟩
    · obtain ⟨hzero, hall⟩ := h.untaken happ
      refine ⟨hzero, fun c hmem => ?_⟩
      rcases List.mem_append.mp hmem with hmem | hmem
      · exact hall c hmem
      · rw [List.mem_singleton.mp hmem]
        omega
    · obtain ⟨hmax, hchosen⟩ := h.taken app happ
      refine ⟨hmax, hchosen.snoc ?_⟩
      rw [← hmax]
      refine (Nat.lt_or_eq_of_le (Nat.le_of_not_lt fun hlt => hworse (Or.inl hlt))).imp_right fun heq => ⟨heq, ?_⟩
      exact Bool.eq_false_iff.mpr fun hm => hworse (Or.inr ⟨heq, hm⟩)
    · dsimp only
      cases hm : matchesOndisk ondisk cand with
      | true => exact h.found.agree hm
      | false =>
        have hdiffer := h.found.differ hm fun ⟨hmet, hlt⟩ => hworse (Or.inl (h.max_lt hmet hlt))
        split
        · next hz =>
          rw [hz] at hdiffer
          exact hdiffer
        · exact hdiffer

theorem Best.run : ∀ {list seen : List Candidate} {s : Choice}, Best ondisk seen s → (∀ cand ∈ list, Countable cand) →
    ∃ s', list.foldlM (chooseStep ondisk) s = some s' ∧ Best ondisk (seen ++ list) s'
  | [], seen, s, h, _ => by
    refine ⟨s, rfl, ?_⟩
    rw [List.append_nil]
    exact h
  | cand :: list, seen, s, h, hall => by
    obtain ⟨s1, hstep, h1⟩ := h.step (hall cand (List.mem_cons_self ..))
    obtain ⟨s', hrun, h'⟩ := h1.run fun c hc => hall c (List.mem_cons_of_mem _ hc)
    refine ⟨s', ?_, ?_⟩
    · rw [List.foldlM_cons, hstep]
      exact hrun
    · rw [List.append_cons]
      exact h'

/-- **The scan finds the largest weight**, and divides by no zero. -/
theorem choose_max {list : List Candidate} (h : ∀ cand ∈ list, Countable cand) :
    ∃ s, choose ondisk list = some s ∧ Best ondisk list s := by
  have hnotMet : ¬Met ondisk [] := nofun
  have hnone : Best ondisk [] ⟨0, none, 0⟩ :=
    ⟨fun _ => ⟨rfl, nofun⟩, nofun, iff_of_true rfl hnotMet, iff_of_false (by decide) fun h => hnotMet h.1⟩
  exact hnone.run h

/-- What is chosen, is chosen by the scan. -/
theorem Best.app_iff {list : List Candidate} {s : Choice} (h : Best ondisk list s) {app : Candidate} :
    s.app = some app ↔ Chosen ondisk list app := by
  refine ⟨fun happ => (h.taken app happ).2, fun hchosen => ?_⟩
  cases happ : s.app with
  | none =>
    have hpos := hchosen.pos
    rw [(h.untaken happ).2 app hchosen.mem] at hpos
    cases hpos
  | some app' => rw [(h.taken app' happ).2.unique hchosen]

end Choosing

/-! ## The whole -/

section Whole

variable {blocks unit : Nat} {disk : Nat → Device}

theorem Gathered.countable {list : List Candidate} (h : Gathered blocks unit disk blksizes list) {cand : Candidate}
    (hmem : cand ∈ list) : Countable cand := by
  obtain ⟨hpos, htotal⟩ := h.total cand hmem
  obtain ⟨size, hs, blk, -, hat⟩ := h.valid cand hmem
  obtain ⟨hsize, hlen⟩ := backupAt_checked hat
  obtain ⟨hbs, hlow⟩ := mem_blksizes hs
  have hmax := (accepted_of_old hbs hlen).1.lt_max
  refine ⟨hpos, ?_, ?_⟩
  · rw [h.count cand hmem]
    exact Nat.min_le_right _ _
  · rw [htotal]
    exact Nat.lt_of_le_of_lt (backupLayout_length (by omega)) (by omega)

/-- The backup of the super blocks is checked, and its walk ends. -/
theorem ondiskBackup_run {fuel : Nat} (hfuel : u64 (blocks * unit) + 3 ≤ fuel) (list : List Candidate) :
    ∀ fs : Option OpenFs,
      (ondiskBackup blocks unit disk fuel fs).run list = some (.ok (ondiskOf blocks unit fs), list)
  | none => rfl
  | some fs => by
    have hfits := fs.magic_fits
    unfold sbMagic at hfits
    obtain ⟨hmax, hle⟩ := @formatLen_lt blocks unit (getMsBlksize fs.master 0) hfits
    have hper : 0 < blocksPerBitmap (getMsBlksize fs.master 0) := by
      unfold blocksPerBitmap crcSize
      omega
    unfold ondiskBackup ondiskOf
    dsimp only [Option.bind_eq_bind, Option.bind_some]
    rw [if_neg (by omega)]
    cases hcheck : repairFsCheckBackup blocks unit (backupOf fs.master fs.super none) with
    | none => rfl
    | some hint =>
      have hc := checkBackup_checked hcheck
      have hlen := hc.len
      have hsize : (backupOf fs.master fs.super none).size = getMsBlksize fs.master 0 := by
        unfold backupOf reiser4FsBackup
        split <;> rfl
      rw [hsize] at hlen
      unfold repairFormatCheckLenOld at hlen
      rw [decide_eq_true_eq] at hlen
      dsimp only
      rw [countWalk _ hper (by omega) (by omega)]
      rfl

/-- **The choice of a backup**: for every content of the device the call ends.  Where all blocks of the layouts can be
    read, the list holds each valid backup once, in order and with its counts, and what is returned has the largest
    weight: the chosen backup, if it is not refused. -/
theorem repairBackupOpen_best (blocks unit : Nat) (disk : Nat → Device) (fs : Option OpenFs) (mode : Mode) :
    ∃ enough, ∀ fuel, enough ≤ fuel →
      (Readable blocks unit disk blksizes ∧ ∃ list, Gathered blocks unit disk blksizes list ∧
        ∃ r, (repairBackupOpen blocks unit disk fuel fs mode).run [] = some (r, list) ∧
          (∀ app, r = .ok app → app ∈ list ∧ ∀ cand ∈ list,
            weightOf (ondiskOf blocks unit fs) cand ≤ weightOf (ondiskOf blocks unit fs) app) ∧
          (∀ app, r = .ok app ↔ Returned mode (ondiskOf blocks unit fs) list app) ∧
          ∀ e, r = .error e → e = .einval) ∨
      (¬Readable blocks unit disk blksizes ∧ ∃ list,
        (repairBackupOpen blocks unit disk fuel fs mode).run [] = some (.error .eio, list)) := by
  refine ⟨u64 (blocks * unit) + 3, fun fuel hfuel => ?_⟩
  rcases @gather_run blocks unit disk fuel hfuel with ⟨hread, list, hrun, h⟩ | ⟨hno, list, hrun⟩
  · refine Or.inl ⟨hread, list, h, ?_⟩
    obtain ⟨r, hr, hok, herr⟩ : ∃ r, (repairBackupOpen blocks unit disk fuel fs mode).run [] = some (r, list) ∧
        (∀ app, r = .ok app ↔ Returned mode (ondiskOf blocks unit fs) list app) ∧ ∀ e, r = .error e → e = .einval := by
      unfold repairBackupOpen
      rw [Run.bind_of_ok hrun, Run.get_bind]
      by_cases hempty : list.isEmpty = true
      · rw [if_pos hempty]
        refine ⟨_, rfl, fun app => ⟨nofun, fun hret => ?_⟩, fun e he => (Except.error.inj he).symm⟩
        have hmem := hret.chosen.mem
        rw [List.isEmpty_iff.mp hempty] at hmem
        cases hmem
      rw [if_neg hempty]
      obtain ⟨s, hchoose, hbest⟩ := @choose_max (ondiskOf blocks unit fs) list fun cand hmem => h.countable hmem
      rw [Run.bind_of_ok (ondiskBackup_run hfuel list fs), hchoose, Run.bind_of_ok (Run.lift_some s list)]
      have happ := @Best.app_iff _ list s hbest
      cases hs : s.app with
      | none =>
        refine ⟨_, rfl, fun app => ⟨nofun, fun hret => ?_⟩, fun e he => (Except.error.inj he).symm⟩
        have hsome := happ.mpr hret.chosen
        rw [hs] at hsome
        cases hsome
      | some app =>
        have hone : ∀ app', Returned mode (ondiskOf blocks unit fs) list app' → app' = app := fun app' hret =>
          Option.some.inj ((happ.mpr hret.chosen).symm.trans hs)
        dsimp only
        split
        · next hpart =>
          refine ⟨_, rfl, fun app' => ⟨nofun, fun hret => ?_⟩, fun e he => (Except.error.inj he).symm⟩
          obtain rfl := hone app' hret
          exact (hret.whole.elim hpart.1.symm hpart.2).elim
        split
        · next hwhole hpoor =>
          refine ⟨_, rfl, fun app' => ⟨nofun, fun hret => ?_⟩, fun e he => (Except.error.inj he).symm⟩
          obtain rfl := hone app' hret
          exact (hpoor.2.1 (hbest.found.one.mpr (hret.agreed hpoor.1 hpoor.2.2.1 hpoor.2.2.2))).elim
        · next hwhole hrich =>
          refine ⟨_, rfl, fun app' => ⟨fun heq => ?_, fun hret => ?_⟩, nofun⟩
          · obtain rfl := Except.ok.inj heq
            refine ⟨happ.mp hs, ?_, fun hsome hcount hne => hbest.found.one.mp ?_⟩
            · exact Decidable.or_iff_not_imp_left.mpr fun hne =>
                Decidable.of_not_not fun hmode => hwhole ⟨fun heq => hne heq.symm, hmode⟩
            · exact Decidable.of_not_not fun hfound => hrich ⟨hsome, hfound, hcount, hne⟩
          · rw [hone app' hret]
    refine ⟨r, hr, fun app happ => ?_, hok, herr⟩
    have hchosen := ((hok app).mp happ).chosen
    exact ⟨hchosen.mem, hchosen.largest⟩
  · refine Or.inr ⟨hno, list, ?_⟩
    unfold repairBackupOpen
    rw [Run.run_bind, hrun]

end Whole

/-! ## A device of 6000 blocks -/

/-- The master super block of a file system with blocks of 512 bytes. -/
def smallMaster : Bytes := sampleMaster.setLe 2 18 512

/-- Its format40 super block. -/
def smallSuper (len : Nat) : Bytes := setSbBlockCount (sampleSuper 0) len

/-- The file system of `len` blocks, open. -/
def smallFs (len : Nat) (opened : Opened smallMaster (smallSuper len)) : OpenFs where
  master := smallMaster
  super := smallSuper len
  opened := opened
  magic_fits := by decide +kernel

theorem smallFs_opened : Opened smallMaster (smallSuper 5500) :=
  ⟨by decide +kernel, by decide +kernel, by decide +kernel⟩

/-- The backups are at 134 and 4065: one of 6000 blocks and one of `len`. -/
def smallDisk (len size blk : Nat) : Option Bytes :=
  if size = 512 then some (backupOf smallMaster (smallSuper (if blk = 134 then 6000 else len)) none).block
  else some Bytes.zero

/-- The counts and the length of the backup that is returned. -/
def returnedCounts (fs : Option OpenFs) (mode : Mode) (len : Nat) : Option (Nat × Nat × Nat) :=
  match (repairBackupOpen 6000 512 (smallDisk len) 30 fs mode).run [] with
  | some (.ok app, _) => some (app.count, app.total, app.hint.blocks)
  | _ => none

/-- Two copies of one backup are taken.  Of two backups the one that agrees with the super blocks is taken for a build,
    and none otherwise. -/
theorem repairBackupOpen_small :
    (returnedCounts none .check 6000 = some (2, 2, 6000) ∧
      returnedCounts (some (smallFs 5500 smallFs_opened)) .build 5500 = some (1, 2, 5500) ∧
      returnedCounts (some (smallFs 5500 smallFs_opened)) .check 5500 = none) ∧
    ∃ enough, ∀ fuel, enough ≤ fuel →
      (Readable 6000 512 (smallDisk 6000) blksizes ∧ ∃ list, Gathered 6000 512 (smallDisk 6000) blksizes list ∧
        ∃ r, (repairBackupOpen 6000 512 (smallDisk 6000) fuel none .check).run [] = some (r, list) ∧
          (∀ app, r = .ok app → app ∈ list ∧ ∀ cand ∈ list,
            weightOf (ondiskOf 6000 512 none) cand ≤ weightOf (ondiskOf 6000 512 none) app) ∧
          (∀ app, r = .ok app ↔ Returned .check (ondiskOf 6000 512 none) list app) ∧
          ∀ e, r = .error e → e = .einval) ∨
      (¬Readable 6000 512 (smallDisk 6000) blksizes ∧ ∃ list,
        (repairBackupOpen 6000 512 (smallDisk 6000) fuel none .check).run [] = some (.error .eio, list)) :=
  ⟨⟨by decide +kernel, by decide +kernel, by decide +kernel⟩, repairBackupOpen_best 6000 512 (smallDisk 6000) none .check⟩

end Reiser4.Repair
