/-
  The check of the super blocks (`repair_master_check_struct`, `repair_format_check_struct`).

  The master super block and the format may each be open or not, and a backup may have been found.  With
  a backup the fields are set to what it has, but for the plugins the profile overrides; without one
  they are checked for what can be checked, and what is missing is asked for or created.

    1. `masterCheck_build`, `formatCheck_build`   what the checks leave in build mode;
    2. `masterCheck_check`, `formatCheck_check`   that they find nothing there in check mode;
    3. `superBlocks_follow`                       both, one behind the other.
-/
import Reiser4.Format40.CheckStruct

namespace Reiser4.Repair

open Reiser4.Lib Reiser4.Fs Reiser4.Format40

/-! ## The master super block -/

/-- `reiser4_master_t`: the super block, and whether it has to be written. -/
structure Master where
  ent : Bytes
  dirty : Bool

/-- The setters of `reiser4_master_sb_t`; the uuid is at 20, the label at 36, both of 16 bytes. -/
def setMsFormat (e : Bytes) (v : Nat) : Bytes := e.setLe 2 16 v
def setMsBlksize (e : Bytes) (v : Nat) : Bytes := e.setLe 2 18 v

/-- `reiser4_master_set_uuid`: a copy of 16 bytes. -/
def setMsUuid (e : Bytes) (uuid : Option (Bytes × Nat)) : Bytes :=
  match uuid with
  | none => e.fill 20 16 0
  | some (b, o) => (e.fill 20 16 0).copy 20 b o 16

/-- `reiser4_master_set_label`: a copy of a string. -/
def setMsLabel (e : Bytes) (label : Option (Bytes × Nat)) : Bytes :=
  match label with
  | none => e.fill 36 16 0
  | some (b, o) => (e.fill 36 16 0).strncpy 36 b o 16

/-- `reiser4_master_create`, with a hint that has nothing but the block size. -/
def reiser4MasterCreate (blksize : Nat) : Bytes :=
  setMsLabel (setMsUuid (setMsBlksize (Bytes.zero.strncpy 0 (strBytes masterMagic) 0 8) blksize) none) none

/-- `INVAL_PID`. -/
def invalPid : Nat := 65535

/-- `MAX_UINT64`. -/
def maxUint64 : Nat := 18446744073709551615

/-! ## What the checks work on -/

/-- `reiser4_fs_t`: what is open of it, and the block size of the device. -/
structure RepairFs where
  master : Option Master
  format : Option Format
  backup : Option BackupHint
  bs : Nat

/-- The profile, the answers of the user, and the device. -/
structure RepairEnv where
  overFormat : Bool
  format : Nat
  overPolicy : Bool
  policy : Nat
  overKey : Bool
  key : Nat
  /-- `REPAIR_YES`: the user is not asked. -/
  yes : Bool
  yesMaster : Bool
  yesVersion : Bool
  askBlksize : Nat → Nat
  askBlocks : Nat → Nat
  askKey : Nat → Nat
  /-- `aal_device_len`, by the block size of the device. -/
  devLen : Nat → Nat
  /-- `aal_device_set_bs` succeeds. -/
  setBs : Nat → Bool
  /-- `format40_open`, by the block size. -/
  format40Open : Nat → Option Bytes
  format40Create : FormatHint → Option Bytes
  format_known : formatKnown format = true
  policy_known : policyKnown policy = true
  key_known : key ≤ keyLargeId

/-- A routine that can return at once. -/
abbrev Check (α : Type) := Run RepairFs (Except Errno RepairFlags) α

/-- `return`. -/
def stop {α : Type} (r : Except Errno RepairFlags) : Check α := Run.fail r

/-- The bytes of the master super block. -/
def RepairFs.ent (fs : RepairFs) : Bytes :=
  match fs.master with
  | none => Bytes.zero
  | some m => m.ent

/-- A change of the master super block. -/
def RepairFs.setEnt (fs : RepairFs) (g : Bytes → Bytes) : RepairFs :=
  { fs with master := some ⟨g fs.ent, true⟩ }

/-- The format that was checked. -/
def RepairFs.setFormat (fs : RepairFs) (f : Format) : RepairFs := { fs with format := some f }

/-- `reiser4_format_open`. -/
def reiser4FormatOpen (env : RepairEnv) (ent : Bytes) : Option Format :=
  if formatKnown (getMsFormat ent 0) then (env.format40Open (getMsBlksize ent 0)).map (⟨·, false⟩)
  else none

/-! ## `repair_master_check_struct` -/

section MasterCheck

variable (env : RepairEnv) (mode : Mode)

/-- A field that differs is set, in the modes that do so, or ends the check. -/
def fixMaster (fixes : Bool) (answer : RepairFlags) (differs : Bytes → Bool) (g : Bytes → Bytes) :
    Check Unit := do
  let fs ← Run.get
  if differs fs.ent then
    if fixes then Run.modify fun fs => fs.setEnt g else stop (.ok answer)
  else pure ()

/-- A new master super block, from the backup or with a block size that is asked for. -/
def masterNew : Check Unit := do
  if mode ≠ .build then stop (.ok .reFatal)
  else
    let fs ← Run.get
    match fs.backup with
    | some hint =>
      Run.modify fun fs =>
        let e := reiser4MasterCreate (getMsBlksize hint.block hint.bkMaster)
        let e := setMsUuid e (some (hint.block, hint.bkMaster + 20))
        let e := setMsLabel e (some (hint.block, hint.bkMaster + 36))
        { fs with master := some ⟨setMsFormat e (getMsFormat hint.block hint.bkMaster), true⟩ }
    | none =>
      if env.yes = false ∧ env.yesMaster = false then stop (.error .einval)
      else
        Run.modify fun fs =>
          let e := reiser4MasterCreate (if env.yes then 4096 else env.askBlksize 4096)
          { fs with master := some ⟨setMsFormat (setMsLabel (setMsUuid e none) none) invalPid, true⟩ }

/-- The format plugin id of the backup, if the profile does not override it. -/
def masterFormat (hint : BackupHint) : Check Unit :=
  let format := getMsFormat hint.block hint.bkMaster
  if env.overFormat then pure ()
  else fixMaster (mode == .build) .reFatal (fun e => getMsFormat e 0 != format) (setMsFormat · format)

/-- The uuids are compared as strings. -/
def sameUuid (hint : BackupHint) (e : Bytes) : Bool :=
  Bytes.strneq 16 e 20 hint.block (hint.bkMaster + 20)

def sameLabel (hint : BackupHint) (e : Bytes) : Bool :=
  Bytes.strneq 16 e 36 hint.block (hint.bkMaster + 36)

/-- The open master super block against the backup. -/
def masterByBackup (hint : BackupHint) : Check Unit := do
  let blksize := getMsBlksize hint.block hint.bkMaster
  fixMaster (mode == .build) .reFatal (fun e => getMsBlksize e 0 != blksize) (setMsBlksize · blksize)
  masterFormat env mode hint
  fixMaster (mode != .check) .reFixable (fun e => !sameUuid hint e)
    (setMsUuid · (some (hint.block, hint.bkMaster + 20)))
  fixMaster (mode != .check) .reFixable (fun e => !sameLabel hint e)
    (setMsLabel · (some (hint.block, hint.bkMaster + 36)))

/-- The open master super block without a backup. -/
def masterAlone : Check Unit :=
  fixMaster (mode == .build) .reFatal (fun e => !cbBsCheck (getMsBlksize e 0))
    (setMsBlksize · (if env.yes then 4096 else env.askBlksize 4096))

/-- The block size of the device. -/
def masterSetBs : Check Unit := do
  let fs ← Run.get
  if env.setBs (getMsBlksize fs.ent 0) = false then stop (.error .einval)
  else Run.modify fun fs => { fs with bs := getMsBlksize fs.ent 0 }

/-- A format that is open is of the one plugin there is; it is closed when the id is of another. -/
def masterClose (fs : RepairFs) : RepairFs :=
  if formatKnown (getMsFormat fs.ent 0) then fs else { fs with format := none }

/-- With neither a backup nor a format the id is the one of the profile. -/
def masterDefault : Check Unit := do
  let fs ← Run.get
  if env.overFormat = false ∧ fs.backup.isNone ∧ fs.format.isNone ∧ mode = .build then
    fixMaster true .clean (fun e => getMsFormat e 0 != env.format) (setMsFormat · env.format)
  else pure ()

/-- The block size of the device, and the format plugin of the profile. -/
def masterUse : Check Unit := do
  masterSetBs env
  fixMaster (mode == .build) .reFatal (fun e => env.overFormat && getMsFormat e 0 != env.format)
    (setMsFormat · env.format)
  Run.modify masterClose
  masterDefault env mode

/-- The master super block is created, or checked with the backup or without. -/
def masterFields : Check Unit := do
  let fs ← Run.get
  match fs.master, fs.backup with
  | none, _ => masterNew env mode
  | some _, some hint => masterByBackup env mode hint
  | some _, none => masterAlone env mode

/-- `repair_master_check_struct`; a run that ends without `return` returns 0. -/
def repairMasterCheckStruct : Check Unit := do
  masterFields env mode
  masterUse env mode

end MasterCheck

/-! ## `repair_format_check_struct` -/

section FormatCheck

variable (env : RepairEnv) (mode : Mode)

/-- `hint.blocks`: the length of the device, or, without a backup, of the format if it can be so;
    `none` is `RE_FATAL`. -/
def formatBlocks (fs : RepairFs) (blksize : Nat) : Option Nat :=
  let old := repairFormatLenOld (env.devLen fs.bs) fs.bs blksize
  let len := reiser4FormatLen (env.devLen fs.bs) fs.bs blksize
  match fs.backup with
  | some _ => some old
  | none =>
    let confirm := fun blocks hint =>
      if blocks ≠ hint ∧ mode = .build then
        let blocks := if blocks ≠ maxUint64 then blocks else len
        if env.yes then blocks else env.askBlocks blocks
      else hint
    match fs.format with
    | none => some (confirm maxUint64 old)
    | some f =>
      let valid := repairFormatCheckLenOld (env.devLen fs.bs) fs.bs blksize (getSbBlockCount f.super)
      if valid = false ∧ mode ≠ .build then none
      else
        let blocks := if valid then getSbBlockCount f.super else maxUint64
        some (confirm blocks (if blocks = len then len else old))

/-- The hint for the check of the format: the plugins the profile overrides, or that are asked for. -/
def formatHint (fs : RepairFs) (blksize blocks : Nat) : FormatHint :=
  let asked := fs.backup.isNone && mode == .build
  { policyMask := env.overPolicy
    keyMask := env.overKey || asked
    policy := env.policy
    key := if env.overKey then env.key else if asked && !env.yes then env.askKey env.key else env.key
    blksize, blocks }

/-- The format: the one that is open, or regenerated from the backup, or created. -/
def formatEntity (fs : RepairFs) (desc : FormatHint) : Check Format :=
  match fs.format with
  | some f => pure f
  | none =>
    if formatKnown (getMsFormat fs.ent 0) = false then stop (.error .einval)
    else
      match fs.backup with
      | some hint =>
        match format40Regenerate hint with
        | none => stop (.error .einval)
        | some super => pure ⟨super, true⟩
      | none =>
        match env.format40Create desc with
        | none => stop (.error .einval)
        | some super => pure ⟨super, true⟩

/-- The format is opened again when the master super block has been changed. -/
def formatReopen (fs : RepairFs) : RepairFs :=
  if fs.format.isNone ∧ formatKnown (getMsFormat fs.ent 0) = true ∧
      (fs.master.map Master.dirty).getD false = true then
    { fs with format := reiser4FormatOpen env fs.ent }
  else fs

/-- `repair_format_check_struct`. -/
def repairFormatCheckStruct : Check RepairFlags := do
  Run.modify (formatReopen env)
  let fs ← Run.get
  if fs.format.isNone ∧ mode ≠ .build then stop (.ok .reFatal)
  else
    let blksize := getMsBlksize fs.ent 0
    match formatBlocks env mode fs blksize with
    | none => stop (.ok .reFatal)
    | some blocks =>
      let desc := formatHint env mode fs blksize blocks
      let format ← formatEntity env fs desc
      let checked :=
        if fs.backup.isSome ∨ fs.format.isSome then
          format40CheckStruct env.yesVersion mode fs.backup desc format
        else (.ok .clean, format)
      Run.modify fun fs => fs.setFormat checked.2
      match checked.1 with
      | .ok res => pure res
      | .error e => stop (.error e)

/-- What `repair_fs_open` does between the two: an open format is opened again. -/
def repairFsReopen (fs : RepairFs) : RepairFs :=
  if fs.format.isSome then { fs with format := reiser4FormatOpen env fs.ent } else fs

end FormatCheck

/-! ## The fields of the master super block -/

section Fields

theorem reads_msFormat : Bytes.Reads (getMsFormat · 0) 16 2 := Bytes.reads_getLe 2 16
theorem reads_msBlksize : Bytes.Reads (getMsBlksize · 0) 18 2 := Bytes.reads_getLe 2 18

theorem reads_uuid (hint : BackupHint) : Bytes.Reads (sameUuid hint) 20 16 :=
  Bytes.reads_strneq 16 20 _ _

theorem reads_label (hint : BackupHint) : Bytes.Reads (sameLabel hint) 36 16 :=
  Bytes.reads_strneq 16 36 _ _

theorem writes_msFormat (v : Nat) : Bytes.Writes (setMsFormat · v) 16 2 :=
  Bytes.writes_setLe 2 16 fun _ => v

theorem writes_msBlksize (v : Nat) : Bytes.Writes (setMsBlksize · v) 18 2 :=
  Bytes.writes_setLe 2 18 fun _ => v

theorem writes_msUuid (uuid : Option (Bytes × Nat)) : Bytes.Writes (setMsUuid · uuid) 20 16 := by
  intro b i h
  unfold setMsUuid
  cases uuid with
  | none => exact Bytes.fill_out _ _ _ _ _ h
  | some x => exact (Bytes.copy_out _ _ _ _ _ _ h).trans (Bytes.fill_out _ _ _ _ _ h)

theorem writes_msLabel (label : Option (Bytes × Nat)) : Bytes.Writes (setMsLabel · label) 36 16 := by
  intro b i h
  unfold setMsLabel
  cases label with
  | none => exact Bytes.fill_out _ _ _ _ _ h
  | some x => exact (Bytes.strncpy_out _ _ _ _ _ _ h).trans (Bytes.fill_out _ _ _ _ _ h)

theorem getMsFormat_set (e : Bytes) {v : Nat} (h : v < 65536) : getMsFormat (setMsFormat e v) 0 = v :=
  Bytes.getLe_setLe_of_lt 2 e 16 v h

theorem getMsBlksize_set (e : Bytes) {v : Nat} (h : v < 65536) : getMsBlksize (setMsBlksize e v) 0 = v :=
  Bytes.getLe_setLe_of_lt 2 e 18 v h

theorem sameUuid_set (hint : BackupHint) (e : Bytes) :
    sameUuid hint (setMsUuid e (some (hint.block, hint.bkMaster + 20))) = true := by
  refine Bytes.strneq_refl fun i hi => ?_
  show (Bytes.copy _ 20 _ _ 16) (20 + i) = _
  rw [Bytes.copy_in _ _ _ _ _ _ (by omega) (by omega), Nat.add_sub_cancel_left, Nat.add_comm]

theorem sameLabel_set (hint : BackupHint) (e : Bytes) :
    sameLabel hint (setMsLabel e (some (hint.block, hint.bkMaster + 36))) = true :=
  Bytes.strneq_strncpy _ 36 _ _ 16

theorem msBlksize_lt (d : Bytes) (o : Nat) : getMsBlksize d o < 65536 := Bytes.getLe_lt 2 d (o + 18)
theorem msFormat_lt (d : Bytes) (o : Nat) : getMsFormat d o < 65536 := Bytes.getLe_lt 2 d (o + 16)

end Fields

/-! ## The checks of the master super block -/

section MasterSpec

variable {env : RepairEnv} {hint : BackupHint} {fs fs' : RepairFs}

/-- The master super block has the fields of the backup; the format plugin can be one the profile
    overrides. -/
structure MasterFollows (env : RepairEnv) (hint : BackupHint) (e : Bytes) : Prop where
  blksize : getMsBlksize e 0 = getMsBlksize hint.block hint.bkMaster
  format : getMsFormat e 0 = if env.overFormat then env.format else getMsFormat hint.block hint.bkMaster
  uuid : sameUuid hint e = true
  label : sameLabel hint e = true

/-- In a mode that fixes, the check goes on with the field set. -/
theorem fixMaster_run {answer : RepairFlags} {differs : Bytes → Bool} {g : Bytes → Bytes} :
    (fixMaster true answer differs g).run fs =
      some (.ok (), if differs fs.ent then fs.setEnt g else fs) := by
  show (if differs fs.ent then (Run.modify fun fs => fs.setEnt g : Check Unit) else pure ()).run fs = _
  split <;> rfl

/-- Where nothing differs nothing is done. -/
theorem fixMaster_same {fixes : Bool} {answer : RepairFlags} {differs : Bytes → Bool} {g : Bytes → Bytes}
    (h : differs fs.ent = false) : (fixMaster fixes answer differs g).run fs = some (.ok (), fs) := by
  show (if differs fs.ent then (if fixes then (Run.modify fun fs => fs.setEnt g : Check Unit)
    else stop (.ok answer)) else pure ()).run fs = _
  rw [h]
  rfl

/-- The state after a check that fixes. -/
structure Fixed {α : Type} (F : Bytes → α) (v : α) (o n : Nat) (fs fs' : RepairFs) : Prop where
  sets : F fs'.ent = v
  keeps : ∀ {β : Type} {G : Bytes → β} {p m : Nat}, Bytes.Reads G p m → p + m ≤ o ∨ o + n ≤ p →
    G fs'.ent = G fs.ent
  master : fs.master.isSome = true → fs'.master.isSome = true
  format : fs'.format = fs.format
  backup : fs'.backup = fs.backup
  bs : fs'.bs = fs.bs

theorem fixMaster_fixed {α : Type} {o n : Nat} (fs : RepairFs) (answer : RepairFlags)
    (differs : Bytes → Bool) (g : Bytes → Bytes) (F : Bytes → α) (v : α) (hd : differs fs.ent = false → F fs.ent = v)
    (hg : differs fs.ent = true → F (g fs.ent) = v) (hw : Bytes.Writes g o n) :
    ∃ fs', (fixMaster true answer differs g).run fs = some (.ok (), fs') ∧ Fixed F v o n fs fs' := by
  refine ⟨_, fixMaster_run, ?_⟩
  cases h : differs fs.ent with
  | false => exact ⟨hd h, fun _ _ => rfl, id, rfl, rfl, rfl⟩
  | true => exact ⟨hg h, fun hG hp => hG.apart hw hp _, fun _ => rfl, rfl, rfl, rfl⟩

/-- The fields of the backup, before the format plugin of the profile. -/
structure Backed (env : RepairEnv) (hint : BackupHint) (e : Bytes) : Prop where
  blksize : getMsBlksize e 0 = getMsBlksize hint.block hint.bkMaster
  format : env.overFormat = false → getMsFormat e 0 = getMsFormat hint.block hint.bkMaster
  uuid : sameUuid hint e = true
  label : sameLabel hint e = true

/-- A new master super block is the one of the backup. -/
theorem masterNew_build {fs1 : RepairFs} (hb : fs.backup = some hint)
    (h : (masterNew env .build).run fs = some (.ok (), fs1)) :
    Backed env hint fs1.ent ∧ fs1.master.isSome = true ∧ fs1.backup = fs.backup := by
  unfold masterNew at h
  rw [if_neg (not_not_intro rfl), Run.get_bind, hb] at h
  obtain rfl := (Prod.mk.inj (Option.some.inj h)).2
  refine ⟨⟨?_, fun _ => getMsFormat_set _ (msFormat_lt _ _), ?_, ?_⟩, rfl, rfl⟩
  · show getMsBlksize (setMsFormat _ _) 0 = _
    rw [reads_msBlksize.apart (writes_msFormat _) (by decide),
      reads_msBlksize.apart (writes_msLabel _) (by decide),
      reads_msBlksize.apart (writes_msUuid _) (by decide)]
    unfold reiser4MasterCreate
    rw [reads_msBlksize.apart (writes_msLabel _) (by decide),
      reads_msBlksize.apart (writes_msUuid _) (by decide)]
    exact getMsBlksize_set _ (msBlksize_lt _ _)
  · show sameUuid hint (setMsFormat _ _) = true
    rw [(reads_uuid hint).apart (writes_msFormat _) (by decide),
      (reads_uuid hint).apart (writes_msLabel _) (by decide)]
    exact sameUuid_set hint _
  · show sameLabel hint (setMsFormat _ _) = true
    rw [(reads_label hint).apart (writes_msFormat _) (by decide)]
    exact sameLabel_set hint _

/-- An open master super block gets the fields of the backup. -/
theorem masterByBackup_build (hm : fs.master.isSome = true) : ∃ fs1,
    (masterByBackup env .build hint).run fs = some (.ok (), fs1) ∧ Backed env hint fs1.ent ∧
      fs1.master.isSome = true ∧ fs1.backup = fs.backup := by
  obtain ⟨fs1, h1, f1⟩ := fixMaster_fixed fs .reFatal
    (fun e => getMsBlksize e 0 != getMsBlksize hint.block hint.bkMaster)
    (setMsBlksize · (getMsBlksize hint.block hint.bkMaster)) (getMsBlksize · 0) _
    (fun hd => bne_eq_false_iff_eq.mp hd) (fun _ => getMsBlksize_set _ (msBlksize_lt _ _)) (writes_msBlksize _)
  obtain ⟨fs2, h2, hformat, hkeep2, hm2, hb2⟩ : ∃ fs2,
      (masterFormat env .build hint).run fs1 = some (.ok (), fs2) ∧
      (env.overFormat = false → getMsFormat fs2.ent 0 = getMsFormat hint.block hint.bkMaster) ∧
      (∀ {β : Type} {G : Bytes → β} {p m : Nat}, Bytes.Reads G p m → p + m ≤ 16 ∨ 18 ≤ p →
        G fs2.ent = G fs1.ent) ∧
      (fs1.master.isSome = true → fs2.master.isSome = true) ∧ fs2.backup = fs1.backup := by
    unfold masterFormat
    cases hover : env.overFormat with
    | true => exact ⟨fs1, rfl, nofun, fun _ _ => rfl, id, rfl⟩
    | false =>
      obtain ⟨fs2, h2, f2⟩ := fixMaster_fixed fs1 .reFatal
        (fun e => getMsFormat e 0 != getMsFormat hint.block hint.bkMaster)
        (setMsFormat · (getMsFormat hint.block hint.bkMaster)) (getMsFormat · 0) _
        (fun hd => bne_eq_false_iff_eq.mp hd) (fun _ => getMsFormat_set _ (msFormat_lt _ _))
        (writes_msFormat _)
      exact ⟨fs2, h2, fun _ => f2.sets, fun hG hp => f2.keeps hG hp, f2.master, f2.backup⟩
  obtain ⟨fs3, h3, f3⟩ := fixMaster_fixed fs2 .reFixable (fun e => !sameUuid hint e)
    (setMsUuid · (some (hint.block, hint.bkMaster + 20))) (sameUuid hint) true
    (fun hd => by simpa using hd) (fun _ => sameUuid_set hint _) (writes_msUuid _)
  obtain ⟨fs4, h4, f4⟩ := fixMaster_fixed fs3 .reFixable (fun e => !sameLabel hint e)
    (setMsLabel · (some (hint.block, hint.bkMaster + 36))) (sameLabel hint) true
    (fun hd => by simpa using hd) (fun _ => sameLabel_set hint _) (writes_msLabel _)
  refine ⟨fs4, ?_, ⟨?_, fun hover => ?_, ?_, f4.sets⟩, f4.master (f3.master (hm2 (f1.master hm))), ?_⟩
  · unfold masterByBackup
    dsimp only
    refine (Run.bind_of_ok h1).trans ?_
    refine (Run.bind_of_ok h2).trans ?_
    exact (Run.bind_of_ok h3).trans h4
  · rw [f4.keeps reads_msBlksize (by decide), f3.keeps reads_msBlksize (by decide),
      hkeep2 reads_msBlksize (by decide)]
    exact f1.sets
  · rw [f4.keeps reads_msFormat (by decide), f3.keeps reads_msFormat (by decide)]
    exact hformat hover
  · rw [f4.keeps (reads_uuid hint) (by decide)]
    exact f3.sets
  · rw [f4.backup, f3.backup, hb2, f1.backup]

/-- The device takes the block size, and the profile its format plugin. -/
theorem masterUse_build {fs1 : RepairFs} (hb : fs.backup = some hint) (hf : Backed env hint fs.ent)
    (hm : fs.master.isSome = true) (h : (masterUse env .build).run fs = some (.ok (), fs1)) :
    MasterFollows env hint fs1.ent ∧ fs1.master.isSome = true ∧ fs1.backup = some hint ∧
      env.setBs (getMsBlksize fs1.ent 0) = true ∧ fs1.bs = getMsBlksize fs1.ent 0 ∧
      (fs1.format.isSome = true → formatKnown (getMsFormat fs1.ent 0) = true) := by
  have hprof : env.format < 65536 := by
    have := of_decide_eq_true env.format_known
    omega
  unfold masterUse at h
  obtain ⟨_, fs2, h2, h⟩ := Run.bind_ok.mp h
  obtain ⟨hset, hfs2⟩ : env.setBs (getMsBlksize fs.ent 0) = true ∧
      { fs with bs := getMsBlksize fs.ent 0 } = fs2 := by
    unfold masterSetBs at h2
    rw [Run.get_bind] at h2
    split at h2
    · cases h2
    · next hset => exact ⟨by simpa using hset, (Prod.mk.inj (Option.some.inj h2)).2⟩
  subst hfs2
  obtain ⟨fs3, h3, f3⟩ := fixMaster_fixed { fs with bs := getMsBlksize fs.ent 0 } .reFatal
    (fun e => env.overFormat && getMsFormat e 0 != env.format)
    (setMsFormat · env.format) (getMsFormat · 0)
    (if env.overFormat then env.format else getMsFormat fs.ent 0)
    (fun hd => by
      split
      · next hover => simpa [hover] using hd
      · rfl)
    (fun hd => by
      rw [if_pos (Bool.and_eq_true_iff.mp hd).1]
      exact getMsFormat_set _ hprof)
    (writes_msFormat _)
  have h4 := (Run.bind_of_ok h3).symm.trans h
  rw [Run.modify_bind] at h4
  have hblksize : getMsBlksize fs3.ent 0 = getMsBlksize fs.ent 0 := f3.keeps reads_msBlksize (by decide)
  have hb3 : fs3.backup = some hint := f3.backup.trans hb
  have hclose : (masterClose fs3).ent = fs3.ent ∧ (masterClose fs3).master = fs3.master ∧
      (masterClose fs3).backup = fs3.backup ∧ (masterClose fs3).bs = fs3.bs ∧
      ((masterClose fs3).format.isSome = true → formatKnown (getMsFormat fs3.ent 0) = true) := by
    unfold masterClose
    split
    · next hk => exact ⟨rfl, rfl, rfl, rfl, fun _ => hk⟩
    · exact ⟨rfl, rfl, rfl, rfl, nofun⟩
  obtain ⟨hent, hmaster, hbackup, hbs, hopen⟩ := hclose
  obtain rfl : masterClose fs3 = fs1 := by
    unfold masterDefault at h4
    rw [Run.get_bind, hbackup, hb3, if_neg (by simp)] at h4
    exact (Prod.mk.inj (Option.some.inj h4)).2
  rw [hent, hmaster, hbackup, hbs, hblksize]
  refine ⟨⟨hblksize.trans hf.blksize, ?_, ?_, ?_⟩, f3.master hm, hb3, hset, f3.bs, hopen⟩
  · rw [f3.sets]
    split
    · rfl
    · next hover => exact hf.format (by simpa using hover)
  · exact (f3.keeps (reads_uuid hint) (by decide)).trans hf.uuid
  · exact (f3.keeps (reads_label hint) (by decide)).trans hf.label

/-- **The master super block follows the backup.** -/
theorem masterCheck_build {fs1 : RepairFs} (hb : fs.backup = some hint)
    (h : (repairMasterCheckStruct env .build).run fs = some (.ok (), fs1)) :
    MasterFollows env hint fs1.ent ∧ fs1.master.isSome = true ∧ fs1.backup = some hint ∧
      env.setBs (getMsBlksize fs1.ent 0) = true ∧ fs1.bs = getMsBlksize fs1.ent 0 ∧
      (fs1.format.isSome = true → formatKnown (getMsFormat fs1.ent 0) = true) := by
  unfold repairMasterCheckStruct at h
  obtain ⟨⟨⟩, fs2, h2, h⟩ := Run.bind_ok.mp h
  have hfields : Backed env hint fs2.ent ∧ fs2.master.isSome = true ∧ fs2.backup = fs.backup := by
    unfold masterFields at h2
    rw [Run.get_bind, hb] at h2
    split at h2
    · exact masterNew_build hb h2
    · next m hint' hm heq =>
      obtain rfl := Option.some.inj heq
      obtain ⟨fs3, h3, hback⟩ := @masterByBackup_build env hint fs
        (by rw [hm]; rfl)
      obtain rfl := (Prod.mk.inj (Option.some.inj (h3.symm.trans h2))).2
      exact hback
    · next heq => cases heq
  obtain ⟨hback, hm2, hb2⟩ := hfields
  exact masterUse_build (hb2.trans hb) hback hm2 h

/-- **In check mode it finds nothing in such a state**, and changes nothing. -/
theorem masterCheck_check (hb : fs.backup = some hint) (hm : fs.master.isSome = true)
    (hf : MasterFollows env hint fs.ent) (hset : env.setBs (getMsBlksize fs.ent 0) = true)
    (hbs : fs.bs = getMsBlksize fs.ent 0)
    (hopen : fs.format.isSome = true → formatKnown (getMsFormat fs.ent 0) = true) :
    (repairMasterCheckStruct env .check).run fs = some (.ok (), fs) := by
  have hfields : (masterFields env .check).run fs = some (.ok (), fs) := by
    have hformat : (masterFormat env .check hint).run fs = some (.ok (), fs) := by
      have hf' := hf.format
      unfold masterFormat
      dsimp only
      split
      · rfl
      · next hover =>
        rw [if_neg hover] at hf'
        exact fixMaster_same (by
          rw [hf']
          exact bne_self_eq_false _)
    have hback : (masterByBackup env .check hint).run fs = some (.ok (), fs) := by
      unfold masterByBackup
      dsimp only
      refine (Run.bind_of_ok (fixMaster_same (by
        rw [hf.blksize]
        exact bne_self_eq_false _))).trans ?_
      refine (Run.bind_of_ok hformat).trans ?_
      refine (Run.bind_of_ok (fixMaster_same (by
        rw [hf.uuid]
        rfl))).trans ?_
      exact fixMaster_same (by
        rw [hf.label]
        rfl)
    obtain ⟨m, hm⟩ := Option.isSome_iff_exists.mp hm
    unfold masterFields
    rw [Run.get_bind, hb, hm]
    exact hback
  have hsetBs : (masterSetBs env).run fs = some (.ok (), fs) := by
    unfold masterSetBs
    have heq : { fs with bs := getMsBlksize fs.ent 0 } = fs := by
      rw [← hbs]
    rw [Run.get_bind, hset, if_neg Bool.true_eq_false.mp, Run.run_modify, heq]
  have hclose : masterClose fs = fs := by
    unfold masterClose
    split
    · rfl
    · next hk =>
      have hnone : fs.format = none := by
        cases hf : fs.format with
        | none => rfl
        | some f => exact absurd (hopen (by rw [hf]; rfl)) hk
      rw [← hnone]
  unfold repairMasterCheckStruct masterUse
  refine (Run.bind_of_ok hfields).trans ?_
  refine (Run.bind_of_ok hsetBs).trans ?_
  refine (Run.bind_of_ok (fixMaster_same ?_)).trans ?_
  · have hf' := hf.format
    split at hf'
    · next hover =>
      rw [hf', bne_self_eq_false, Bool.and_false]
    · next hover => rw [(Bool.not_eq_true _).mp hover, Bool.false_and]
  · rw [Run.modify_bind, hclose]
    unfold masterDefault
    rw [Run.get_bind, if_neg (by simp)]
    rfl

end MasterSpec

/-! ## The check of the format -/

section FormatSpec

variable {env : RepairEnv} {hint : BackupHint} {fs fs' : RepairFs}

/-- What the profile asks of the format, when there is a backup. -/
def descOf (env : RepairEnv) (fs : RepairFs) : FormatHint :=
  formatHint env .build fs (getMsBlksize fs.ent 0)
    (repairFormatLenOld (env.devLen fs.bs) fs.bs (getMsBlksize fs.ent 0))

/-- The format that is checked: the one that is open, or is opened again, or the regenerated one. -/
inductive CheckedFormat (env : RepairEnv) (hint : BackupHint) (fs : RepairFs) : Format → Prop
  | opened {f : Format} (h : fs.format = some f) : CheckedFormat env hint fs f
  | reopened {f : Format} (h : reiser4FormatOpen env fs.ent = some f) : CheckedFormat env hint fs f
  | regenerated {super : Bytes} (h : format40Regenerate hint = some super) :
    CheckedFormat env hint fs ⟨super, true⟩

theorem formatHint_known (mode : Mode) (hb : fs.backup = some hint) (blksize blocks : Nat) :
    (formatHint env mode fs blksize blocks).Known := by
  refine ⟨env.policy_known, ?_⟩
  unfold formatHint
  dsimp only
  rw [hb]
  split
  · exact env.key_known
  · exact env.key_known

/-- With a backup the hint does not depend on the mode. -/
theorem formatHint_mode (mode : Mode) (hb : fs.backup = some hint) (blksize blocks : Nat) :
    formatHint env mode fs blksize blocks = formatHint env .build fs blksize blocks := by
  unfold formatHint
  rw [hb]
  rfl

theorem reiser4FormatOpen_known {e : Bytes} {f : Format} (h : reiser4FormatOpen env e = some f) :
    formatKnown (getMsFormat e 0) = true := by
  unfold reiser4FormatOpen at h
  split at h
  · next hk => exact hk
  · cases h

/-- What the reopening changes is the format. -/
theorem formatReopen_spec : (formatReopen env fs).ent = fs.ent ∧
    (formatReopen env fs).backup = fs.backup ∧ (formatReopen env fs).bs = fs.bs ∧
    (∀ f, (formatReopen env fs).setFormat f = fs.setFormat f) ∧
    ∀ f, (formatReopen env fs).format = some f →
      fs.format = some f ∨ reiser4FormatOpen env fs.ent = some f := by
  unfold formatReopen
  split
  · exact ⟨rfl, rfl, rfl, fun _ => rfl, fun f h => Or.inr h⟩
  · exact ⟨rfl, rfl, rfl, fun _ => rfl, fun f h => Or.inl h⟩

/-- The format comes from where `CheckedFormat` says. -/
theorem formatEntity_ok {desc : FormatHint} {fs1 fs2 : RepairFs} {f : Format} (hb : fs1.backup = some hint)
    (h : (formatEntity env fs1 desc).run fs2 = some (.ok f, fs')) : fs' = fs2 ∧
      (fs1.format = some f ∨ formatKnown (getMsFormat fs1.ent 0) = true ∧
        ∃ super, format40Regenerate hint = some super ∧ f = ⟨super, true⟩) := by
  unfold formatEntity at h
  split at h
  · next f' hf' =>
    obtain ⟨h1, h2⟩ := Prod.mk.inj (Option.some.inj h)
    obtain rfl := Except.ok.inj h1
    exact ⟨h2.symm, Or.inl hf'⟩
  · split at h
    · cases h
    · next hk =>
      rw [hb] at h
      dsimp only at h
      split at h
      · cases h
      · next super hs =>
        obtain ⟨h1, h2⟩ := Prod.mk.inj (Option.some.inj h)
        obtain rfl := Except.ok.inj h1
        exact ⟨h2.symm, Or.inr ⟨by simpa using hk, super, hs, rfl⟩⟩

/-- **The format follows the backup.** -/
theorem formatCheck_build {fs2 : RepairFs} {res : RepairFlags} (hb : fs.backup = some hint)
    (hopen : fs.format.isSome = true → formatKnown (getMsFormat fs.ent 0) = true)
    (h : (repairFormatCheckStruct env .build).run fs = some (.ok res, fs2)) (hf : res.fatal = false) :
    res = .clean ∧ formatKnown (getMsFormat fs.ent 0) = true ∧ ∃ f f', CheckedFormat env hint fs f ∧
      fs2 = fs.setFormat f' ∧ SuperFollows hint (descOf env fs) f.super f'.super := by
  obtain ⟨hent, hbackup, hbs, hwith, hformat⟩ := @formatReopen_spec env fs
  unfold repairFormatCheckStruct at h
  rw [Run.modify_bind, Run.get_bind] at h
  generalize formatReopen env fs = fs1 at h hent hbackup hbs hwith hformat
  have hb1 : fs1.backup = some hint := hbackup.trans hb
  have hblocks : formatBlocks env .build fs1 (getMsBlksize fs1.ent 0) =
      some (repairFormatLenOld (env.devLen fs1.bs) fs1.bs (getMsBlksize fs1.ent 0)) := by
    unfold formatBlocks
    rw [hb1]
  rw [if_neg (fun hn => hn.2 rfl)] at h
  dsimp only at h
  rw [hblocks] at h
  dsimp only at h
  obtain ⟨f, fs3, hentity, h⟩ := Run.bind_ok.mp h
  obtain ⟨rfl, hfrom⟩ := formatEntity_ok hb1 hentity
  rw [Run.modify_bind, if_pos (Or.inl (by rw [hb1]; rfl)), hb1] at h
  have hdesc : formatHint env .build fs3 (getMsBlksize fs3.ent 0)
      (repairFormatLenOld (env.devLen fs3.bs) fs3.bs (getMsBlksize fs3.ent 0)) = descOf env fs := by
    unfold descOf formatHint
    rw [hent, hbs, hb1, hb]
  rw [hdesc] at h
  obtain ⟨f', hf'⟩ : ∃ f', f' = (format40CheckStruct env.yesVersion .build (some hint)
    (descOf env fs) f).2 := ⟨_, rfl⟩
  split at h
  · next res' hres' =>
    obtain ⟨h1, h2⟩ := Prod.mk.inj (Option.some.inj h)
    obtain rfl := Except.ok.inj h1
    have hcheck : format40CheckStruct env.yesVersion .build (some hint) (descOf env fs) f =
        (.ok res', f') := Prod.ext hres' hf'.symm
    obtain ⟨hclean, hfollows⟩ := checkStruct_build (formatHint_known _ hb _ _) hcheck hf
    rw [← hf', hwith] at h2
    rcases hfrom with hfmt | ⟨hk, super, hs, rfl⟩
    · rcases hformat f hfmt with hfmt | hfmt
      · exact ⟨hclean, hopen (by rw [hfmt]; rfl), f, f', .opened hfmt, h2.symm, hfollows⟩
      · exact ⟨hclean, reiser4FormatOpen_known hfmt, f, f', .reopened hfmt, h2.symm, hfollows⟩
    · exact ⟨hclean, hent ▸ hk, _, f', .regenerated hs, h2.symm, hfollows⟩
  · cases h

/-- **In check mode it finds nothing in such a state**, and changes nothing. -/
theorem formatCheck_check {f f0 : Format} (hb : fs.backup = some hint) (hfs : fs.format = some f)
    (hf : SuperFollows hint (descOf env fs) f0.super f.super)
    (hv : ¬VersionPending hint f0.super) :
    (repairFormatCheckStruct env .check).run fs = some (.ok .clean, fs) := by
  have hreopen : formatReopen env fs = fs := by
    unfold formatReopen
    rw [if_neg fun h => by
      have := h.1
      rw [hfs] at this
      cases this]
  have hblocks : formatBlocks env .check fs (getMsBlksize fs.ent 0) =
      some (repairFormatLenOld (env.devLen fs.bs) fs.bs (getMsBlksize fs.ent 0)) := by
    unfold formatBlocks
    rw [hb]
  have hentity : ∀ desc, (formatEntity env fs desc).run fs = some (.ok f, fs) := by
    intro desc
    unfold formatEntity
    rw [hfs]
    rfl
  have hcheck := checkStruct_check env.yesVersion f.dirty hf hv
  have hsame : fs.setFormat f = fs := by
    unfold RepairFs.setFormat
    rw [← hfs]
  unfold repairFormatCheckStruct
  rw [Run.modify_bind, Run.get_bind, hreopen, if_neg fun h => by
    have := h.1
    rw [hfs] at this
    cases this]
  dsimp only
  rw [hblocks]
  dsimp only
  refine (Run.bind_of_ok (hentity _)).trans ?_
  rw [Run.modify_bind, if_pos (Or.inl (by rw [hb]; rfl)), hb, formatHint_mode .check hb]
  rw [show formatHint env .build fs (getMsBlksize fs.ent 0)
    (repairFormatLenOld (env.devLen fs.bs) fs.bs (getMsBlksize fs.ent 0)) = descOf env fs from rfl, hcheck]
  show some (Except.ok RepairFlags.clean, fs.setFormat f) = some (.ok .clean, fs)
  rw [hsame]

end FormatSpec

/-! ## One behind the other -/

section Both

variable {env : RepairEnv} {hint : BackupHint}

/-- **The super blocks follow the backup.**  After both checks in build mode, with the format as the
    first has left it or opened again, the master super block and the format have the fields of the
    backup, or the plugins of the profile, and a version of the super block that is newer; unless such a
    version has been kept, both checks then find nothing in check mode and change nothing. -/
theorem superBlocks_follow (env : RepairEnv) (hint : BackupHint) (fs fs1 mid fs2 : RepairFs)
    (res : RepairFlags) (hb : fs.backup = some hint)
    (hmaster : (repairMasterCheckStruct env .build).run fs = some (.ok (), fs1))
    (hmid : mid = fs1 ∨ mid = repairFsReopen env fs1)
    (hformat : (repairFormatCheckStruct env .build).run mid = some (.ok res, fs2))
    (hfatal : res.fatal = false) :
    MasterFollows env hint fs2.ent ∧ ∃ f f', CheckedFormat env hint mid f ∧ fs2.format = some f' ∧
      SuperFollows hint (descOf env mid) f.super f'.super ∧
      (¬VersionPending hint f.super →
        (repairMasterCheckStruct env .check).run fs2 = some (.ok (), fs2) ∧
        (repairFormatCheckStruct env .check).run fs2 = some (.ok .clean, fs2)) := by
  obtain ⟨hf1, hm1, hb1, hset, hbs, hopen1⟩ := masterCheck_build hb hmaster
  -- Opening the format again changes the format only.
  obtain ⟨hent, hm, hbk, hbsm, hopen⟩ : mid.ent = fs1.ent ∧ mid.master = fs1.master ∧
      mid.backup = fs1.backup ∧ mid.bs = fs1.bs ∧
      (mid.format.isSome = true → formatKnown (getMsFormat fs1.ent 0) = true) := by
    rcases hmid with rfl | rfl
    · exact ⟨rfl, rfl, rfl, rfl, hopen1⟩
    · unfold repairFsReopen
      split
      · next hs => exact ⟨rfl, rfl, rfl, rfl, fun _ => hopen1 hs⟩
      · exact ⟨rfl, rfl, rfl, rfl, hopen1⟩
  have hbm : mid.backup = some hint := hbk.trans hb1
  obtain ⟨-, hknown, f, f', hchecked, rfl, hfollows⟩ := formatCheck_build hbm
    (fun h => hent ▸ hopen h) hformat hfatal
  have hent2 : (mid.setFormat f').ent = fs1.ent := hent
  rw [hent2]
  refine ⟨hf1, f, f', hchecked, rfl, hfollows, fun hv => ⟨?_, ?_⟩⟩
  · refine @masterCheck_check _ _ (mid.setFormat f') hbm ?_ (hent2 ▸ hf1) (hent2 ▸ hset) ?_
      fun _ => ?_
    · show mid.master.isSome = true
      rw [hm]
      exact hm1
    · rw [hent2]
      exact hbsm.trans hbs
    · rw [hent2, ← hent]
      exact hknown
  · exact @formatCheck_check _ _ (mid.setFormat f') _ _ hbm rfl hfollows hv

end Both

/-! ## Two file systems -/

/-- Nothing overridden, a device that takes any block size, and no format to open. -/
def sampleEnv : RepairEnv where
  overFormat := false
  format := 0
  overPolicy := false
  policy := 2
  overKey := false
  key := 1
  yes := true
  yesMaster := true
  yesVersion := true
  askBlksize n := n
  askBlocks n := n
  askKey n := n
  devLen _ := 40000
  setBs _ := true
  format40Open _ := none
  format40Create _ := none
  format_known := rfl
  policy_known := rfl
  key_known := Nat.le_refl 1

/-- The backup of a file system of version 1. -/
def version1Hint : BackupHint :=
  backupOf sampleMaster (setSbVersion (sampleSuper 0) 1) (some fun _ => 0)

/-- Neither super block is open. -/
def lostFs : RepairFs := ⟨none, none, some version1Hint, 4096⟩

/-- Both are open, and the format has been updated to version 2, with `FORMAT40_UPDATE_BACKUP`. -/
def updatedFs : RepairFs :=
  ⟨some ⟨sampleMaster, false⟩, some ⟨setSbVersion (sampleSuper 0) (2147483648 + 2), false⟩,
    some version1Hint, 4096⟩

/-- Both checks in build mode. -/
def bothChecks : Check RepairFlags := do
  repairMasterCheckStruct sampleEnv .build
  repairFormatCheckStruct sampleEnv .build

/-- They end, not fatally, with a version. -/
def endsWith (fs : RepairFs) (version : Nat) : Bool :=
  match bothChecks.run fs with
  | some (.ok res, fs') => !res.fatal && (fs'.format.map fun f => getSbVersion f.super == version).getD false
  | _ => false

theorem endsWith_runs (fs : RepairFs) (version : Nat) (h : endsWith fs version = true) :
    ∃ fs1 fs2 res f, (repairMasterCheckStruct sampleEnv .build).run fs = some (.ok (), fs1) ∧
      (repairFormatCheckStruct sampleEnv .build).run fs1 = some (.ok res, fs2) ∧ res.fatal = false ∧
      fs2.format = some f ∧ getSbVersion f.super = version := by
  unfold endsWith at h
  split at h
  · next res fs' hrun =>
    obtain ⟨⟨⟩, fs1, h1, h2⟩ := Run.bind_ok.mp hrun
    obtain ⟨hres, hv⟩ := Bool.and_eq_true_iff.mp h
    cases hf : fs'.format with
    | none =>
      rw [hf] at hv
      cases hv
    | some f =>
      rw [hf] at hv
      exact ⟨fs1, fs', res, f, h1, h2, by simpa using hres, hf, by simpa using hv⟩
  · cases h

/-- Super blocks that are lost are built from the backup. -/
theorem superBlocks_lost : ∃ fs1 fs2 res,
    (repairMasterCheckStruct sampleEnv .build).run lostFs = some (.ok (), fs1) ∧
    (repairFormatCheckStruct sampleEnv .build).run fs1 = some (.ok res, fs2) ∧ res.fatal = false ∧
    MasterFollows sampleEnv version1Hint fs2.ent := by
  obtain ⟨fs1, fs2, res, f, h1, h2, hres, -⟩ := endsWith_runs lostFs 1
    (by decide +kernel)
  exact ⟨fs1, fs2, res, h1, h2, hres,
    (superBlocks_follow sampleEnv version1Hint lostFs fs1 fs1 fs2 res rfl h1 (Or.inl rfl) h2 hres).1⟩

/-- The version of the super block is not set to the one of an accepted backup. -/
theorem superBlocks_updated : (repairFsCheckBackup 40000 4096 version1Hint).isSome = true ∧
    ∃ fs1 fs2 res f, (repairMasterCheckStruct sampleEnv .build).run updatedFs = some (.ok (), fs1) ∧
      (repairFormatCheckStruct sampleEnv .build).run fs1 = some (.ok res, fs2) ∧ res.fatal = false ∧
      fs2.format = some f ∧
      getSbVersion f.super ≠ getBkVersion version1Hint.block version1Hint.bkFormat := by
  refine ⟨by decide +kernel, ?_⟩
  obtain ⟨fs1, fs2, res, f, h1, h2, hres, hf, hv⟩ := endsWith_runs updatedFs 2
    (by decide +kernel)
  refine ⟨fs1, fs2, res, f, h1, h2, hres, hf, ?_⟩
  rw [hv]
  decide +kernel

end Reiser4.Repair
