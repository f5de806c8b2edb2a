/-
  The backup of the super blocks (`reiser4_fs_backup`, `repair_fs_check_backup`,
  `format40_regenerate`).

  A backup block holds a version byte, the master super block, the permanent fields of the format40
  super block and, for format versions above 0, the ids of the plugin set.  The writer, the check and
  the routine that builds a new format from the backup each list the fields for themselves.

    1. `section_holds`, `section_magic`   what the format's section of a backup holds;
    2. `regenerated_restored`             what the regenerated format takes from it;
    3. `checkBackup_iff`                  which backups are accepted;
    4. `backupRoundTrip_iff`              when nothing is lost.
-/
import Reiser4.Fs.Areas
import Reiser4.Lib.Bytes

namespace Reiser4.Format40

open Reiser4.Lib Reiser4.Fs

/-! ## The fields -/

/-- `REISER4_MASTER_MAGIC`. -/
def masterMagic : List UInt8 := [0x52, 0x65, 0x49, 0x73, 0x45, 0x72, 0x34, 0]

/-- `FORMAT40_MAGIC`. -/
def format40Magic : List UInt8 :=
  [0x52, 0x65, 0x49, 0x73, 0x45, 0x72, 0x34, 0x30, 0x46, 0x6f, 0x52, 0x6d, 0x41, 0x74, 0]

/-- `PSET_MAGIC`, without the byte that ends the string. -/
def psetMagic : List UInt8 := [0x50, 0x73, 0x45, 0x74]

/-- A string constant. -/
def strBytes (s : List UInt8) : Bytes := fun i => s.getD i 0

/-- `sizeof(reiser4_master_sb_t)`. -/
def masterSize : Nat := 52

/-- The fields of `reiser4_master_sb_t` at offset `o`. -/
def getMsFormat (d : Bytes) (o : Nat) : Nat := d.getLe 2 (o + 16)
def getMsBlksize (d : Bytes) (o : Nat) : Nat := d.getLe 2 (o + 18)

/-- The fields of `format40_super_t`. -/
def getSbBlockCount (d : Bytes) : Nat := d.getLe 8 0
def setSbBlockCount (d : Bytes) (v : Nat) : Bytes := d.setLe 8 0 v
def setSbRootBlock (d : Bytes) (v : Nat) : Bytes := d.setLe 8 16 v
def getSbMkfsId (d : Bytes) : Nat := d.getLe 4 48
def setSbMkfsId (d : Bytes) (v : Nat) : Bytes := d.setLe 4 48 v
def sbMagic : Nat := 52
def setSbTreeHeight (d : Bytes) (v : Nat) : Bytes := d.setLe 2 68 v
def getSbPolicy (d : Bytes) : Nat := d.getLe 2 70
def setSbPolicy (d : Bytes) (v : Nat) : Bytes := d.setLe 2 70 v
def getSbFlags (d : Bytes) : Nat := d.getLe 8 72
def setSbFlags (d : Bytes) (v : Nat) : Bytes := d.setLe 8 72 v
/-- The version without `FORMAT40_UPDATE_BACKUP`, the highest of its 32 bits. -/
def getSbVersion (d : Bytes) : Nat := d.getLe 4 80 % 2147483648
def setSbVersion (d : Bytes) (v : Nat) : Bytes := d.setLe 4 80 v
/-- `sb_update_backup`. -/
def sbUpdateBackup (d : Bytes) : Bool := decide (2147483648 ≤ d.getLe 4 80)
def getSbNodePid (d : Bytes) : Nat := d.getLe 4 84

/-- `sizeof(format40_backup_t)`. -/
def backupSize : Nat := 50

/-- The fields of `format40_backup_t` at offset `o`; the magic is at the offset itself. -/
def getBkBlockCount (d : Bytes) (o : Nat) : Nat := d.getLe 8 (o + 16)
def getBkMkfsId (d : Bytes) (o : Nat) : Nat := d.getLe 4 (o + 24)
def getBkPolicy (d : Bytes) (o : Nat) : Nat := d.getLe 2 (o + 28)
def getBkFlags (d : Bytes) (o : Nat) : Nat := d.getLe 8 (o + 30)
def getBkVersion (d : Bytes) (o : Nat) : Nat := d.getLe 4 (o + 38) % 2147483648

/-- `get_release_number_minor`. -/
def getReleaseNumberMinor : Nat := 2

/-- The policy plugins there are: `TAIL_NEVER_ID`, `TAIL_ALWAYS_ID` and `TAIL_SMART_ID`. -/
def policyKnown (id : Nat) : Bool := decide (id < 3)

/-- The format plugin there is: `FORMAT_REISER40_ID`. -/
def formatKnown (id : Nat) : Bool := decide (id = 0)

/-- `PSET_STORE_LAST`. -/
def psetStoreLast : Nat := 14

/-- `defprof.pid[pset_prof[i]].max`. -/
def psetMax (i : Nat) : Nat := [5, 1, 1, 3, 5, 4, 9, 9, 1, 1, 3, 5, 5, 5].getD i 0

/-- `backup_hint_t`: the block with its size and number, where the sections begin, and what the check
    finds. -/
structure BackupHint where
  block : Bytes
  size : Nat
  nr : Nat
  bkMaster : Nat
  bkFormat : Nat
  bkPset : Nat
  bkLast : Nat
  blocks : Nat
  version : Nat

/-- A hint with an empty block. -/
def freshHint (size : Nat) : BackupHint := ⟨Bytes.zero, size, 0, 0, 0, 0, 0, 0, 0⟩

/-! ## Writing a backup -/

/-- `reiser4_master_backup`. -/
def reiser4MasterBackup (master : Bytes) (hint : BackupHint) : BackupHint :=
  { hint with
    block := (hint.block.copy hint.bkMaster master 0 masterSize).fill (hint.bkMaster + masterSize) 8 0
    bkFormat := hint.bkMaster + masterSize + 8 }

/-- What `format40_backup` writes at offset `o`. -/
def format40Section (super block : Bytes) (o : Nat) : Bytes :=
  let block := block.copy o super sbMagic 16
  let block := block.setLe 8 (o + 16) (getSbBlockCount super)
  let block := block.setLe 4 (o + 24) (getSbMkfsId super)
  let block := block.setLe 2 (o + 28) (getSbPolicy super)
  let block := block.setLe 8 (o + 30) (getSbFlags super)
  let block := block.setLe 8 (o + 42) 0
  block.setLe 4 (o + 38) (getSbVersion super)

/-- `format40_backup`. -/
def format40Backup (super : Bytes) (hint : BackupHint) : BackupHint :=
  { hint with
    block := format40Section super hint.block hint.bkFormat
    bkPset := hint.bkFormat + backupSize
    version := getSbVersion super }

/-- The first `n` plugin ids, at offset `o`. -/
def storeIds (ids : Nat → Nat) (o : Nat) : Nat → Bytes → Bytes
  | 0, block => block
  | n + 1, block => (storeIds ids o n block).setLe 4 (o + 4 * n) (ids n)

/-- `reiser4_pset_backup`; `tree` are the ids of the tree's plugin set, if there is a tree. -/
def reiser4PsetBackup (tree : Option (Nat → Nat)) (hint : BackupHint) : BackupHint :=
  let block := hint.block.putStr hint.bkPset psetMagic
  match tree with
  | none => { hint with block }
  | some ids =>
    { hint with
      block := storeIds ids (hint.bkPset + psetMagic.length) psetStoreLast block
      bkLast := hint.bkLast + 4 * (psetStoreLast + 5) }

/-- `reiser4_fs_backup`. -/
def reiser4FsBackup (master super : Bytes) (tree : Option (Nat → Nat)) (hint : BackupHint) :
    BackupHint :=
  let hint := { hint with block := hint.block.fill 0 1 0, bkMaster := 1 }
  let hint := format40Backup super (reiser4MasterBackup master hint)
  if getSbVersion super = 0 then hint else reiser4PsetBackup tree hint

/-! ## Checking it -/

/-- `repair_master_check_backup`; here and below `none` is `RE_FATAL`. -/
def repairMasterCheckBackup (hint : BackupHint) : Option BackupHint :=
  if Bytes.strneq 8 hint.block hint.bkMaster (strBytes masterMagic) 0 = false then none
  else if getMsBlksize hint.block hint.bkMaster ≠ hint.size then none
  else some { hint with bkFormat := hint.bkMaster + masterSize + 8 }

/-- `format40_check_backup`. -/
def format40CheckBackup (hint : BackupHint) : Option BackupHint :=
  if hint.block.memeq hint.bkFormat format40Magic = false then none
  else if getBkBlockCount hint.block hint.bkFormat ≤ hint.nr then none
  else if policyKnown (getBkPolicy hint.block hint.bkFormat) = false then none
  else some { hint with
    bkPset := hint.bkFormat + backupSize
    blocks := getBkBlockCount hint.block hint.bkFormat
    version := getBkVersion hint.block hint.bkFormat }

/-- `repair_format_len_old`, of a device of `blocks` blocks of `unit` bytes. -/
def repairFormatLenOld (blocks unit blksize : Nat) : Nat := u64 (blocks * unit) / blksize

/-- `repair_format_check_len_old`: the length is accepted. -/
def repairFormatCheckLenOld (blocks unit blksize len : Nat) : Bool :=
  decide (len ≤ repairFormatLenOld blocks unit blksize ∧ fsMinSize blksize ≤ len)

/-- `repair_format_check_backup`. -/
def repairFormatCheckBackup (blocks unit : Nat) (hint : BackupHint) : Option BackupHint :=
  if formatKnown (getMsFormat hint.block hint.bkMaster) = false then none
  else do
    let hint ← format40CheckBackup hint
    if repairFormatCheckLenOld blocks unit (getMsBlksize hint.block hint.bkMaster) hint.blocks then
      some hint
    else none

/-- `repair_pset_check_backup`. -/
def repairPsetCheckBackup (hint : BackupHint) : Option BackupHint :=
  let present := Bytes.strneq 4 hint.block hint.bkPset (strBytes psetMagic) 0
  if (hint.version = 0 ∧ present = true) ∨ (0 < hint.version ∧ present = false) then none
  else if hint.version = 0 then some hint
  else if ∀ i, i < psetStoreLast →
      hint.block.getLe 4 (hint.bkPset + psetMagic.length + 4 * i) < psetMax i then
    some { hint with bkLast := hint.bkLast + 4 * (psetStoreLast + 5) }
  else none

/-- `repair_fs_check_backup`. -/
def repairFsCheckBackup (blocks unit : Nat) (hint : BackupHint) : Option BackupHint :=
  if hint.block 0 ≠ 0 then none
  else do
    let hint ← repairMasterCheckBackup { hint with bkMaster := 1 }
    let hint ← repairFormatCheckBackup blocks unit hint
    repairPsetCheckBackup hint

/-! ## Building a format from it -/

/-- `format40_regenerate`: the super block; `none` is the NULL for a version that is not known. -/
def format40Regenerate (hint : BackupHint) : Option Bytes :=
  let o := hint.bkFormat
  if getReleaseNumberMinor < getBkVersion hint.block o then none
  else
    let super := Bytes.zero.strncpy sbMagic hint.block o 16
    let super := setSbBlockCount super (getBkBlockCount hint.block o)
    let super := setSbFlags super (getBkFlags hint.block o)
    let super := setSbMkfsId super (getBkMkfsId hint.block o)
    let super := setSbPolicy super (getBkPolicy hint.block o)
    let super := setSbTreeHeight super 2
    let super := setSbRootBlock super invalBlk
    some (setSbVersion super (getBkVersion hint.block o))

/-! ## The round trip -/

/-- The super blocks of a file system that is open: the magics are there, and the format plugin is
    known. -/
structure Opened (master super : Bytes) : Prop where
  masterMagic : ∀ i, i < 8 → master i = strBytes masterMagic i
  format : formatKnown (getMsFormat master 0) = true
  superMagic : ∀ i, i < 15 → super (sbMagic + i) = strBytes format40Magic i

/-- The permanent fields of two format40 super blocks agree. -/
structure SamePermanent (super super' : Bytes) : Prop where
  blockCount : getSbBlockCount super' = getSbBlockCount super
  mkfsId : getSbMkfsId super' = getSbMkfsId super
  policy : getSbPolicy super' = getSbPolicy super
  flags : getSbFlags super' = getSbFlags super
  version : getSbVersion super' = getSbVersion super
  nodePid : getSbNodePid super' = getSbNodePid super

/-- The format's section of a backup. -/
def formatSection (hint : BackupHint) : List UInt8 := hint.block.slice hint.bkFormat backupSize

/-- The backup of a file system, in a block of its block size. -/
def backupOf (master super : Bytes) (tree : Option (Nat → Nat)) : BackupHint :=
  reiser4FsBackup master super tree (freshHint (getMsBlksize master 0))

/-- **Nothing is lost**: the regenerated format has the permanent fields and the same backup, and the
    backup block is accepted wherever it is read. -/
def RoundTrips (blocks unit : Nat) (master super : Bytes) (tree : Option (Nat → Nat)) : Prop :=
  (∃ super', format40Regenerate (backupOf master super tree) = some super' ∧
    SamePermanent super super' ∧
    formatSection (backupOf master super' tree) = formatSection (backupOf master super tree)) ∧
  ∀ hint : BackupHint, hint.block = (backupOf master super tree).block →
    hint.size = getMsBlksize master 0 → hint.nr < getSbBlockCount super →
    (repairFsCheckBackup blocks unit hint).isSome = true

/-! ## The section of the format -/

section Section

variable (super block : Bytes) (o : Nat)

theorem section_out {i : Nat} (h : i < o ∨ o + 50 ≤ i) :
    format40Section super block o i = block i := by
  unfold format40Section
  rw [Bytes.setLe_out _ _ _ _ _ (by omega), Bytes.setLe_out _ _ _ _ _ (by omega),
    Bytes.setLe_out _ _ _ _ _ (by omega), Bytes.setLe_out _ _ _ _ _ (by omega),
    Bytes.setLe_out _ _ _ _ _ (by omega), Bytes.setLe_out _ _ _ _ _ (by omega),
    Bytes.copy_out _ _ _ _ _ _ (by omega)]

theorem section_magic {i : Nat} (h : i < 16) :
    format40Section super block o (o + i) = super (sbMagic + i) := by
  unfold format40Section
  rw [Bytes.setLe_out _ _ _ _ _ (by omega), Bytes.setLe_out _ _ _ _ _ (by omega),
    Bytes.setLe_out _ _ _ _ _ (by omega), Bytes.setLe_out _ _ _ _ _ (by omega),
    Bytes.setLe_out _ _ _ _ _ (by omega), Bytes.setLe_out _ _ _ _ _ (by omega),
    Bytes.copy_in _ _ _ _ _ _ (by omega) (by omega), Nat.add_sub_cancel_left, Nat.add_comm]

/-- What the section holds. -/
structure Holds (super d : Bytes) (o : Nat) : Prop where
  blockCount : getBkBlockCount d o = getSbBlockCount super
  mkfsId : getBkMkfsId d o = getSbMkfsId super
  policy : getBkPolicy d o = getSbPolicy super
  flags : getBkFlags d o = getSbFlags super
  version : getBkVersion d o = getSbVersion super
  magic : ∀ i, i < 16 → d (o + i) = super (sbMagic + i)

theorem section_holds : Holds super (format40Section super block o) o := by
  have hversion : getSbVersion super < 256 ^ 4 :=
    Nat.lt_of_lt_of_le (Nat.mod_lt _ (by decide)) (by decide)
  refine ⟨?_, ?_, ?_, ?_, ?_, fun i hi => section_magic super block o hi⟩
  · unfold getBkBlockCount format40Section
    dsimp only
    rw [Bytes.getLe_setLe_disj _ _ _ _ _ _ (by omega), Bytes.getLe_setLe_disj _ _ _ _ _ _ (by omega),
      Bytes.getLe_setLe_disj _ _ _ _ _ _ (by omega), Bytes.getLe_setLe_disj _ _ _ _ _ _ (by omega),
      Bytes.getLe_setLe_disj _ _ _ _ _ _ (by omega)]
    exact Bytes.getLe_setLe_of_lt _ _ _ _ (Bytes.getLe_lt 8 super 0)
  · unfold getBkMkfsId format40Section
    dsimp only
    rw [Bytes.getLe_setLe_disj _ _ _ _ _ _ (by omega), Bytes.getLe_setLe_disj _ _ _ _ _ _ (by omega),
      Bytes.getLe_setLe_disj _ _ _ _ _ _ (by omega), Bytes.getLe_setLe_disj _ _ _ _ _ _ (by omega)]
    exact Bytes.getLe_setLe_of_lt _ _ _ _ (Bytes.getLe_lt 4 super 48)
  · unfold getBkPolicy format40Section
    dsimp only
    rw [Bytes.getLe_setLe_disj _ _ _ _ _ _ (by omega), Bytes.getLe_setLe_disj _ _ _ _ _ _ (by omega),
      Bytes.getLe_setLe_disj _ _ _ _ _ _ (by omega)]
    exact Bytes.getLe_setLe_of_lt _ _ _ _ (Bytes.getLe_lt 2 super 70)
  · unfold getBkFlags format40Section
    dsimp only
    rw [Bytes.getLe_setLe_disj _ _ _ _ _ _ (by omega), Bytes.getLe_setLe_disj _ _ _ _ _ _ (by omega)]
    exact Bytes.getLe_setLe_of_lt _ _ _ _ (Bytes.getLe_lt 8 super 72)
  · unfold getBkVersion format40Section
    dsimp only
    rw [Bytes.getLe_setLe_of_lt _ _ _ _ hversion]
    exact Nat.mod_eq_of_lt (Nat.mod_lt _ (by decide))

/-- A section holds what the super block has, wherever its bytes are. -/
theorem Holds.congr {super d d' : Bytes} {o : Nat} (h : Holds super d o)
    (heq : ∀ i, i < 50 → d' (o + i) = d (o + i)) : Holds super d' o := by
  have hget : ∀ n p, p + n ≤ 50 → d'.getLe n (o + p) = d.getLe n (o + p) := by
    intro n p hp
    refine Bytes.getLe_congr n d' d _ _ fun i hi => ?_
    rw [Nat.add_assoc]
    exact heq (p + i) (by omega)
  refine ⟨(hget 8 16 (by decide)).trans h.blockCount, (hget 4 24 (by decide)).trans h.mkfsId,
    (hget 2 28 (by decide)).trans h.policy, (hget 8 30 (by decide)).trans h.flags, ?_,
    fun i hi => (heq i (by omega)).trans (h.magic i hi)⟩
  unfold getBkVersion
  rw [hget 4 38 (by decide)]
  exact h.version

/-- Super blocks with the same magic and fields have the same section. -/
theorem section_congr {super super' : Bytes} (hm : ∀ i, i < 16 → super' (sbMagic + i) = super (sbMagic + i))
    (hc : getSbBlockCount super' = getSbBlockCount super) (hid : getSbMkfsId super' = getSbMkfsId super)
    (hp : getSbPolicy super' = getSbPolicy super) (hf : getSbFlags super' = getSbFlags super)
    (hv : getSbVersion super' = getSbVersion super) :
    format40Section super' block o = format40Section super block o := by
  have hcopy : block.copy o super' sbMagic 16 = block.copy o super sbMagic 16 := by
    funext i
    by_cases hi : o ≤ i ∧ i < o + 16
    · rw [Bytes.copy_in _ _ _ _ _ _ hi.1 hi.2, Bytes.copy_in _ _ _ _ _ _ hi.1 hi.2, Nat.add_comm]
      exact hm (i - o) (by omega)
    · rw [Bytes.copy_out _ _ _ _ _ _ (by omega), Bytes.copy_out _ _ _ _ _ _ (by omega)]
  unfold format40Section
  rw [hcopy, hc, hid, hp, hf, hv]

end Section

/-! ## The backup block -/

theorem storeIds_out (ids : Nat → Nat) (o : Nat) : ∀ (n : Nat) (b : Bytes) (i : Nat),
    i < o ∨ o + 4 * n ≤ i → storeIds ids o n b i = b i
  | 0, _, _, _ => rfl
  | n + 1, b, i, h => by
    rw [storeIds, Bytes.setLe_out _ _ _ _ _ (by omega)]
    exact storeIds_out ids o n b i (by omega)

theorem storeIds_get (ids : Nat → Nat) (o : Nat) : ∀ (n : Nat) (b : Bytes) (k : Nat), k < n →
    (storeIds ids o n b).getLe 4 (o + 4 * k) = ids k % 256 ^ 4
  | n + 1, b, k, h => by
    rw [storeIds]
    rcases Nat.eq_or_lt_of_le (Nat.le_of_lt_succ h) with rfl | hlt
    · exact Bytes.getLe_setLe 4 _ _ _
    · rw [Bytes.getLe_setLe_disj _ _ _ _ _ _ (by omega)]
      exact storeIds_get ids o n b k hlt

/-- The block with the version byte and the master super block. -/
def masterBlock (master : Bytes) : Bytes :=
  ((Bytes.zero.fill 0 1 0).copy 1 master 0 masterSize).fill 53 8 0

theorem masterBlock_master {master : Bytes} {i : Nat} (h : i < 52) :
    masterBlock master (1 + i) = master i := by
  unfold masterBlock masterSize
  rw [Bytes.fill_out _ _ _ _ _ (by omega), Bytes.copy_in _ _ _ _ _ _ (by omega) (by omega)]
  simp

theorem masterBlock_zero {master : Bytes} {i : Nat} (h : i = 0 ∨ 53 ≤ i) :
    masterBlock master i = 0 := by
  unfold masterBlock masterSize
  by_cases hi : 53 ≤ i ∧ i < 53 + 8
  · exact Bytes.fill_in _ _ _ _ _ hi.1 hi.2
  · rw [Bytes.fill_out _ _ _ _ _ (by omega), Bytes.copy_out _ _ _ _ _ _ (by omega)]
    unfold Bytes.fill Bytes.zero
    split <;> rfl

section Block

variable (master super : Bytes) (tree : Option (Nat → Nat))

/-- The plugin ids the backup of a tree has. -/
def storedId (tree : Option (Nat → Nat)) (i : Nat) : Nat :=
  match tree with
  | none => 0
  | some ids => ids i % 256 ^ 4

/-- The sections of a backup. -/
structure Written (super master : Bytes) (tree : Option (Nat → Nat)) (hint : BackupHint) : Prop where
  bkFormat : hint.bkFormat = 61
  low : ∀ i, i < 111 → hint.block i = format40Section super (masterBlock master) 61 i
  plain : getSbVersion super = 0 → ∀ i, i < 4 → hint.block (111 + i) = 0
  magic : getSbVersion super ≠ 0 → ∀ i, i < 4 → hint.block (111 + i) = strBytes psetMagic i
  ids : getSbVersion super ≠ 0 → ∀ i, i < psetStoreLast →
    hint.block.getLe 4 (115 + 4 * i) = storedId tree i

theorem backupOf_written : Written super master tree (backupOf master super tree) := by
  obtain ⟨b, hb⟩ : ∃ b, b = format40Section super (masterBlock master) 61 := ⟨_, rfl⟩
  have hzero : ∀ i, 111 ≤ i → b i = 0 := by
    intro i hi
    rw [hb, section_out super (masterBlock master) 61 (Or.inr hi)]
    exact masterBlock_zero (Or.inr (by omega))
  have hput : ∀ i, i < 111 ∨ 115 ≤ i → b.putStr 111 psetMagic i = b i :=
    fun i hi => if_neg (by
      show ¬(111 ≤ i ∧ i < 111 + 4)
      omega)
  have hmagic : ∀ i, i < 4 → b.putStr 111 psetMagic (111 + i) = strBytes psetMagic i := by
    intro i hi
    unfold Bytes.putStr
    rw [if_pos (by
      show 111 ≤ 111 + i ∧ 111 + i < 111 + 4
      omega), Nat.add_sub_cancel_left]
    rfl
  unfold backupOf reiser4FsBackup
  dsimp only
  by_cases hv : getSbVersion super = 0
  · rw [if_pos hv]
    refine ⟨rfl, fun i hi => rfl, fun _ i hi => ?_, fun h => absurd hv h, fun h => absurd hv h⟩
    have := hzero (111 + i) (Nat.le_add_right _ _)
    rw [hb] at this
    exact this
  · rw [if_neg hv]
    cases tree with
    | none =>
      refine ⟨rfl, fun i hi => ?_, fun h => absurd h hv, fun _ i hi => ?_, fun _ i hi => ?_⟩
      · rw [← hb, ← hput i (Or.inl hi), hb]
        rfl
      · rw [← hmagic i hi, hb]
        rfl
      · have hz : ∀ j, j < 4 → b.putStr 111 psetMagic (115 + 4 * i + j) = UInt8.ofNat (0 / 256 ^ j) := by
          intro j hj
          rw [hput _ (Or.inr (by omega)), hzero _ (by omega), Nat.zero_div]
          rfl
        have hget := Bytes.getLe_digits 4 _ _ 0 hz
        rw [hb] at hget
        exact hget
    | some ids =>
      have hstore : ∀ i, i < 115 →
          storeIds ids 115 psetStoreLast (b.putStr 111 psetMagic) i = b.putStr 111 psetMagic i :=
        fun i hi => storeIds_out ids 115 _ _ i (Or.inl hi)
      refine ⟨rfl, fun i hi => ?_, fun h => absurd h hv, fun _ i hi => ?_, fun _ i hi => ?_⟩
      · rw [← hb, ← hput i (Or.inl hi), ← hstore i (by omega), hb]
        rfl
      · rw [← hmagic i hi, ← hstore (111 + i) (by omega), hb]
        rfl
      · have hget := storeIds_get ids 115 psetStoreLast (b.putStr 111 psetMagic) i hi
        rw [hb] at hget
        exact hget

end Block

/-! ## The regenerated format -/

/-- The super block `format40_regenerate` builds. -/
def regenerated (d : Bytes) (o : Nat) : Bytes :=
  let super := Bytes.zero.strncpy sbMagic d o 16
  let super := setSbBlockCount super (getBkBlockCount d o)
  let super := setSbFlags super (getBkFlags d o)
  let super := setSbMkfsId super (getBkMkfsId d o)
  let super := setSbPolicy super (getBkPolicy d o)
  let super := setSbTreeHeight super 2
  let super := setSbRootBlock super invalBlk
  setSbVersion super (getBkVersion d o)

theorem format40Regenerate_eq (hint : BackupHint) : format40Regenerate hint =
    if getReleaseNumberMinor < getBkVersion hint.block hint.bkFormat then none
    else some (regenerated hint.block hint.bkFormat) := rfl

section Regenerated

variable (d : Bytes) (o : Nat)

/-- What the regenerated format takes from the backup; the node plugin id is not there. -/
structure Restored (d : Bytes) (o : Nat) (super : Bytes) : Prop where
  blockCount : getSbBlockCount super = getBkBlockCount d o
  mkfsId : getSbMkfsId super = getBkMkfsId d o
  policy : getSbPolicy super = getBkPolicy d o
  flags : getSbFlags super = getBkFlags d o
  version : getSbVersion super = getBkVersion d o
  nodePid : getSbNodePid super = 0
  magic : ∀ i, i < 16 → super (sbMagic + i) = Bytes.zero.strncpy sbMagic d o 16 (sbMagic + i)

theorem regenerated_restored : Restored d o (regenerated d o) := by
  have hversion : getBkVersion d o < 2147483648 := Nat.mod_lt _ (by decide)
  unfold regenerated setSbBlockCount setSbFlags setSbMkfsId setSbPolicy setSbTreeHeight
    setSbRootBlock setSbVersion sbMagic
  refine ⟨?_, ?_, ?_, ?_, ?_, ?_, fun i hi => ?_⟩
  · unfold getSbBlockCount
    rw [Bytes.getLe_setLe_disj _ _ _ _ _ _ (by omega), Bytes.getLe_setLe_disj _ _ _ _ _ _ (by omega),
      Bytes.getLe_setLe_disj _ _ _ _ _ _ (by omega), Bytes.getLe_setLe_disj _ _ _ _ _ _ (by omega),
      Bytes.getLe_setLe_disj _ _ _ _ _ _ (by omega), Bytes.getLe_setLe_disj _ _ _ _ _ _ (by omega)]
    exact Bytes.getLe_setLe_of_lt _ _ _ _ (Bytes.getLe_lt 8 d (o + 16))
  · unfold getSbMkfsId
    rw [Bytes.getLe_setLe_disj _ _ _ _ _ _ (by omega), Bytes.getLe_setLe_disj _ _ _ _ _ _ (by omega),
      Bytes.getLe_setLe_disj _ _ _ _ _ _ (by omega), Bytes.getLe_setLe_disj _ _ _ _ _ _ (by omega)]
    exact Bytes.getLe_setLe_of_lt _ _ _ _ (Bytes.getLe_lt 4 d (o + 24))
  · unfold getSbPolicy
    rw [Bytes.getLe_setLe_disj _ _ _ _ _ _ (by omega), Bytes.getLe_setLe_disj _ _ _ _ _ _ (by omega),
      Bytes.getLe_setLe_disj _ _ _ _ _ _ (by omega)]
    exact Bytes.getLe_setLe_of_lt _ _ _ _ (Bytes.getLe_lt 2 d (o + 28))
  · unfold getSbFlags
    rw [Bytes.getLe_setLe_disj _ _ _ _ _ _ (by omega), Bytes.getLe_setLe_disj _ _ _ _ _ _ (by omega),
      Bytes.getLe_setLe_disj _ _ _ _ _ _ (by omega), Bytes.getLe_setLe_disj _ _ _ _ _ _ (by omega),
      Bytes.getLe_setLe_disj _ _ _ _ _ _ (by omega)]
    exact Bytes.getLe_setLe_of_lt _ _ _ _ (Bytes.getLe_lt 8 d (o + 30))
  · unfold getSbVersion
    rw [Bytes.getLe_setLe_of_lt _ _ _ _ (Nat.lt_trans hversion (by decide))]
    exact Nat.mod_eq_of_lt hversion
  · have hzero : ∀ j, j < 4 → Bytes.zero.strncpy 52 d o 16 (84 + j) = UInt8.ofNat (0 / 256 ^ j) := by
      intro j hj
      rw [Bytes.strncpy_out _ _ _ _ _ _ (by omega), Nat.zero_div]
      rfl
    unfold getSbNodePid
    rw [Bytes.getLe_setLe_disj _ _ _ _ _ _ (by omega), Bytes.getLe_setLe_disj _ _ _ _ _ _ (by omega),
      Bytes.getLe_setLe_disj _ _ _ _ _ _ (by omega), Bytes.getLe_setLe_disj _ _ _ _ _ _ (by omega),
      Bytes.getLe_setLe_disj _ _ _ _ _ _ (by omega), Bytes.getLe_setLe_disj _ _ _ _ _ _ (by omega),
      Bytes.getLe_setLe_disj _ _ _ _ _ _ (by omega)]
    exact Bytes.getLe_digits 4 _ _ 0 hzero
  · unfold sbMagic
    rw [Bytes.setLe_out _ _ _ _ _ (by omega), Bytes.setLe_out _ _ _ _ _ (by omega),
      Bytes.setLe_out _ _ _ _ _ (by omega), Bytes.setLe_out _ _ _ _ _ (by omega),
      Bytes.setLe_out _ _ _ _ _ (by omega), Bytes.setLe_out _ _ _ _ _ (by omega),
      Bytes.setLe_out _ _ _ _ _ (by omega)]

end Regenerated

/-- No byte of the magic before its end is zero. -/
theorem format40Magic_ne : ∀ i, i < 14 → strBytes format40Magic i ≠ 0 := by decide

/-- The magic is copied as a string: the byte behind its end is lost. -/
theorem strncpy_magic {d : Bytes} {o : Nat} (h : ∀ i, i < 15 → d (o + i) = strBytes format40Magic i) :
    (∀ i, i < 15 → Bytes.zero.strncpy sbMagic d o 16 (sbMagic + i) = d (o + i)) ∧
      Bytes.zero.strncpy sbMagic d o 16 (sbMagic + 15) = 0 := by
  constructor
  · intro i hi
    refine Bytes.strncpy_in _ _ _ _ _ _ (by omega) fun j hj => ?_
    rw [h j (by omega)]
    exact format40Magic_ne j (by omega)
  · have hend : d (o + 14) = 0 := h 14 (by decide)
    exact Bytes.strncpy_end _ _ _ _ _ _ (by decide) (show 14 < 15 by decide) hend

/-! ## What is accepted, and what comes back -/

section RoundTrip

variable {blocks unit : Nat} {master super : Bytes} {tree : Option (Nat → Nat)}

/-- The backup is one the check knows: a policy plugin, a length for the device, and the ids of known
    plugins. -/
def Acceptable (blocks unit : Nat) (master super : Bytes) (tree : Option (Nat → Nat)) : Prop :=
  policyKnown (getSbPolicy super) = true ∧
    repairFormatCheckLenOld blocks unit (getMsBlksize master 0) (getSbBlockCount super) = true ∧
    (getSbVersion super = 0 ∨ ∀ i, i < psetStoreLast → storedId tree i < psetMax i)

/-- The fields of the master super block in the backup block. -/
theorem Written.masterBytes {hint : BackupHint} (h : Written super master tree hint) :
    hint.block 0 = 0 ∧ (∀ i, i < 52 → hint.block (1 + i) = master i) := by
  refine ⟨?_, fun i hi => ?_⟩
  · rw [h.low 0 (by decide), section_out super (masterBlock master) 61 (Or.inl (by decide))]
    exact masterBlock_zero (Or.inl rfl)
  · rw [h.low (1 + i) (by omega), section_out super (masterBlock master) 61 (Or.inl (by omega))]
    exact masterBlock_master hi

/-- The fields of the format in the backup block. -/
theorem Written.holds {hint : BackupHint} (h : Written super master tree hint) :
    Holds super hint.block 61 :=
  (section_holds super (masterBlock master) 61).congr fun i hi => h.low (61 + i) (by omega)

/-- **Which backups are accepted**, at a block number below the length. -/
theorem checkBackup_iff (ho : Opened master super) {hint : BackupHint}
    (hb : hint.block = (backupOf master super tree).block) (hsize : hint.size = getMsBlksize master 0)
    (hnr : hint.nr < getSbBlockCount super) :
    (repairFsCheckBackup blocks unit hint).isSome = true ↔ Acceptable blocks unit master super tree := by
  have hw := backupOf_written master super tree
  obtain ⟨h0, hmaster⟩ := hw.masterBytes
  have hh := hw.holds
  rw [← hb] at h0 hmaster hh
  have hget : ∀ p, p + 2 ≤ 52 → hint.block.getLe 2 (1 + p) = master.getLe 2 (0 + p) := by
    intro p hp
    refine Bytes.getLe_congr 2 _ _ _ _ fun i hi => ?_
    rw [Nat.zero_add, Nat.add_assoc]
    exact hmaster (p + i) (by omega)
  have hstr : Bytes.strneq 8 hint.block 1 (strBytes masterMagic) 0 = true :=
    Bytes.strneq_refl fun i hi => by
      rw [Nat.zero_add, hmaster i (by omega)]
      exact ho.masterMagic i hi
  have hblksize : getMsBlksize hint.block 1 = getMsBlksize master 0 := hget 18 (by decide)
  have hformat : formatKnown (getMsFormat hint.block 1) = true := by
    rw [show getMsFormat hint.block 1 = getMsFormat master 0 from hget 16 (by decide)]
    exact ho.format
  have hmagic : hint.block.memeq 61 format40Magic = true := by
    refine Bytes.memeq_iff.mpr fun i hi => ?_
    have hi' : i < 15 := hi
    rw [hh.magic i (by omega), ho.superMagic i hi']
    simp [strBytes, List.getD_eq_getElem?_getD, hi]
  have hnr' : ¬getSbBlockCount super ≤ hint.nr := Nat.not_le.mpr hnr
  -- The plugin set is there for versions above 0 only, as the check wants it.
  have hpset : ∀ h' : BackupHint, h'.block = hint.block → h'.bkPset = 111 →
      h'.version = getSbVersion super →
      ((repairPsetCheckBackup h').isSome = true ↔
        getSbVersion super = 0 ∨ ∀ i, i < psetStoreLast → storedId tree i < psetMax i) := by
    intro h' hblock hbk hver
    unfold repairPsetCheckBackup
    rw [hblock, hbk, hver]
    by_cases hv : getSbVersion super = 0
    · have hplain := hw.plain hv
      rw [← hb] at hplain
      have habsent : Bytes.strneq 4 hint.block 111 (strBytes psetMagic) 0 = false := by
        have h111 : hint.block 111 = 0 := hplain 0 (by decide)
        rw [Bytes.strneq, h111]
        rfl
      simp [hv, habsent]
    · have hset := hw.magic hv
      have hids := hw.ids hv
      rw [← hb] at hset hids
      have hpresent : Bytes.strneq 4 hint.block 111 (strBytes psetMagic) 0 = true :=
        Bytes.strneq_refl fun i hi => by
          rw [Nat.zero_add]
          exact hset i hi
      have hall : (∀ i, i < psetStoreLast →
          hint.block.getLe 4 (111 + psetMagic.length + 4 * i) < psetMax i) ↔
          ∀ i, i < psetStoreLast → storedId tree i < psetMax i := by
        refine forall_congr' fun i => forall_congr' fun hi => ?_
        rw [← hids i hi]
        rfl
      simp only [hpresent, hv, hall, false_and, Bool.true_eq_false, and_false, or_false,
        if_false, false_or]
      split
      · next hyes => simpa using hyes
      · next hno => simpa using hno
  unfold repairFsCheckBackup repairMasterCheckBackup repairFormatCheckBackup format40CheckBackup
    Acceptable
  simp only [h0, hstr, hblksize, hsize, hformat, hmagic, hh.blockCount, hh.policy, hh.version, hnr',
    masterSize, backupSize, ne_eq, not_true_eq_false, if_false, Bool.true_eq_false,
    Option.bind_eq_bind, Option.bind_some]
  cases hp : policyKnown (getSbPolicy super) with
  | false => simp
  | true =>
    simp only [Bool.true_eq_false, if_false, Option.bind_some, hblksize, true_and]
    cases hl : repairFormatCheckLenOld blocks unit (getMsBlksize master 0) (getSbBlockCount super) with
    | false => simp
    | true =>
      simp only [if_true, Option.bind_some, true_and]
      exact hpset _ rfl rfl rfl

/-- **When the format comes back.** -/
theorem regenerate_iff (ho : Opened master super) :
    (∃ super', format40Regenerate (backupOf master super tree) = some super' ∧
      SamePermanent super super' ∧
      formatSection (backupOf master super' tree) = formatSection (backupOf master super tree)) ↔
      getSbNodePid super = 0 ∧ getSbVersion super ≤ getReleaseNumberMinor ∧
        super (sbMagic + 15) = 0 := by
  have hw := backupOf_written master super tree
  have hh := hw.holds
  obtain ⟨d, hd⟩ : ∃ d, d = (backupOf master super tree).block := ⟨_, rfl⟩
  rw [← hd] at hh
  have hr := regenerated_restored d 61
  obtain ⟨super1, hs1⟩ : ∃ super1, super1 = regenerated d 61 := ⟨_, rfl⟩
  rw [← hs1] at hr
  have hmagic : ∀ i, i < 15 → d (61 + i) = strBytes format40Magic i := fun i hi =>
    (hh.magic i (by omega)).trans (ho.superMagic i hi)
  obtain ⟨hcopied, hlost⟩ := strncpy_magic hmagic
  have hlast : super1 (sbMagic + 15) = 0 := (hr.magic 15 (by decide)).trans hlost
  have hrun : format40Regenerate (backupOf master super tree) =
      if getReleaseNumberMinor < getSbVersion super then none else some super1 := by
    rw [format40Regenerate_eq, hw.bkFormat, ← hd, hh.version, ← hs1]
  -- The sections of the two backups, byte by byte.
  have hsection : formatSection (backupOf master super1 tree) =
      formatSection (backupOf master super tree) ↔ super (sbMagic + 15) = 0 := by
    have hw1 := backupOf_written master super1 tree
    have hh1 := hw1.holds
    unfold formatSection
    rw [hw1.bkFormat, hw.bkFormat, ← hd]
    constructor
    · intro heq
      have hbyte := congrArg (fun l : List UInt8 => l[15]?) heq
      rw [Bytes.slice_getElem? _ _ _ _ (by decide), Bytes.slice_getElem? _ _ _ _ (by decide),
        Option.some.injEq, hh1.magic 15 (by decide), hh.magic 15 (by decide)] at hbyte
      rw [← hbyte]
      exact hlast
    · intro hz
      have hm : ∀ i, i < 16 → super1 (sbMagic + i) = super (sbMagic + i) := by
        intro i hi
        rcases Nat.eq_or_lt_of_le (Nat.le_of_lt_succ hi) with rfl | hlt
        · rw [hlast, hz]
        · rw [hr.magic i hi, hcopied i hlt]
          exact hh.magic i hi
      refine Bytes.slice_congr _ _ _ _ _ fun i hi => ?_
      have hi' : i < 50 := hi
      rw [hw1.low (61 + i) (by omega), hd, hw.low (61 + i) (by omega),
        section_congr (masterBlock master) 61 hm (hr.blockCount.trans hh.blockCount)
          (hr.mkfsId.trans hh.mkfsId) (hr.policy.trans hh.policy) (hr.flags.trans hh.flags)
          (hr.version.trans hh.version)]
  constructor
  · rintro ⟨super', hsome, hsame, heq⟩
    rw [hrun] at hsome
    split at hsome
    · cases hsome
    · next hv =>
      obtain rfl := Option.some.inj hsome
      exact ⟨hsame.nodePid.symm.trans hr.nodePid, Nat.le_of_not_lt hv, hsection.mp heq⟩
  · rintro ⟨hpid, hv, hz⟩
    refine ⟨super1, by rw [hrun, if_neg (Nat.not_lt.mpr hv)], ⟨hr.blockCount.trans hh.blockCount,
      hr.mkfsId.trans hh.mkfsId, hr.policy.trans hh.policy, hr.flags.trans hh.flags,
      hr.version.trans hh.version, hr.nodePid.trans hpid.symm⟩, hsection.mpr hz⟩

/-- **Nothing is lost if and only if** the node plugin is the default one, the version is known, no
    byte stands behind the magic, and the check knows the backup. -/
theorem backupRoundTrip_iff (blocks unit : Nat) (master super : Bytes) (tree : Option (Nat → Nat))
    (ho : Opened master super) :
    RoundTrips blocks unit master super tree ↔
      (getSbNodePid super = 0 ∧ getSbVersion super ≤ getReleaseNumberMinor ∧
        super (sbMagic + 15) = 0) ∧
      (0 < getSbBlockCount super → Acceptable blocks unit master super tree) := by
  unfold RoundTrips
  rw [regenerate_iff ho]
  refine and_congr_right fun _ => ⟨fun h hpos => ?_, fun h hint hb hsize hnr => ?_⟩
  · exact (@checkBackup_iff _ _ _ _ _ ho { backupOf master super tree with
      size := getMsBlksize master 0, nr := 0 } rfl rfl hpos).mp (h _ rfl rfl hpos)
  · exact (checkBackup_iff ho hb hsize hnr).mpr (h (Nat.zero_lt_of_lt hnr))

end RoundTrip

/-! ## Two file systems -/

/-- The master super block of a file system with blocks of 4 KiB. -/
def sampleMaster : Bytes := (Bytes.zero.putStr 0 masterMagic).setLe 2 18 4096

/-- The format40 super block of 40000 blocks, whose node plugin is `pid`. -/
def sampleSuper (pid : Nat) : Bytes :=
  (setSbBlockCount (Bytes.zero.putStr sbMagic format40Magic) 40000).setLe 4 84 pid

theorem sample_opened (pid : Nat) : Opened sampleMaster (sampleSuper pid) := by
  refine ⟨by decide +kernel, by decide +kernel, fun i hi => ?_⟩
  have hi' : sbMagic + i < 84 := by
    unfold sbMagic
    omega
  unfold sampleSuper
  rw [Bytes.setLe_out _ _ _ _ _ (Or.inl hi')]
  revert i
  decide +kernel

/-- With the default node plugin nothing is lost. -/
theorem backupRoundTrip_40000 : Opened sampleMaster (sampleSuper 0) ∧
    RoundTrips 40000 4096 sampleMaster (sampleSuper 0) none :=
  ⟨sample_opened 0, (backupRoundTrip_iff 40000 4096 sampleMaster (sampleSuper 0) none
    (sample_opened 0)).mpr ⟨by decide +kernel,
      fun _ => ⟨by decide +kernel, by decide +kernel, Or.inl (by decide +kernel)⟩⟩⟩

/-- `NODE_REISER41_ID` is lost: the regenerated format has the default node plugin. -/
theorem backupRoundTrip_node41 : Opened sampleMaster (sampleSuper 1) ∧
    ¬RoundTrips 40000 4096 sampleMaster (sampleSuper 1) none := by
  refine ⟨sample_opened 1, fun h => ?_⟩
  have hpid : getSbNodePid (sampleSuper 1) = 0 := ((regenerate_iff (sample_opened 1)).mp h.1).1
  exact absurd hpid (by decide +kernel)

end Reiser4.Format40
