/-
  The check of the format40 super block (`format40_check_struct`).

  Field by field the super block is compared with the backup, if there is one, or with what the caller
  asks for; each check says for itself in which modes it fixes what it finds.  The result collects what
  was found and not fixed.

    1. `fixSuper`            one such check;
    2. `checkStruct_build`   what a super block has after a check in build mode;
    3. `checkStruct_check`   that one with these fields passes in check mode.
-/
import Reiser4.Format40.Backup
import Reiser4.Repair.NodeCheck

namespace Reiser4.Format40

open Reiser4.Lib Reiser4.Fs Reiser4.Repair

/-- `format40_t`: the super block, and whether it has to be written. -/
structure Format where
  super : Bytes
  dirty : Bool

/-- A change of the super block, with `format40_mkdirty`. -/
def Format.set (f : Format) (g : Bytes → Bytes) : Format := ⟨g f.super, true⟩

/-- `format_hint_t`, with the bits `PM_POLICY` and `PM_KEY` of its mask. -/
structure FormatHint where
  policyMask : Bool
  keyMask : Bool
  policy : Nat
  key : Nat
  blksize : Nat
  blocks : Nat

/-- `KEY_LARGE_ID`; `KEY_SHORT_ID` is 0. -/
def keyLargeId : Nat := 1

/-- `format40_get_key`: the bit `FORMAT40_KEY_LARGE`, the lowest of the flags. -/
def format40GetKey (super : Bytes) : Nat := if getSbFlags super % 2 = 1 then keyLargeId else 0

/-- `format40_set_key`. -/
def format40SetKey (super : Bytes) (key : Nat) : Bytes :=
  setSbFlags super (getSbFlags super / 2 * 2 + if key = keyLargeId then 1 else 0)

/-! ## The checks -/

/-- A field that differs is set, in the modes that do so, or answered. -/
def fixSuper (differs fixes : Bool) (answer : RepairFlags) (g : Bytes → Bytes) (x : RepairFlags × Format) :
    RepairFlags × Format :=
  if differs then if fixes then (x.1, x.2.set g) else (x.1.join answer, x.2) else x

/-- The magic. -/
def checkMagic (mode : Mode) (x : RepairFlags × Format) : RepairFlags × Format :=
  fixSuper (!Bytes.strneq 15 x.2.super sbMagic (strBytes format40Magic) 0) (mode == .build) .reFatal
    (fun s => s.strncpy sbMagic (strBytes format40Magic) 0 15) x

/-- The version; the left side is a value returned at once.  `yes` is the answer to whether a version
    that is too high is to be fixed. -/
def checkVersion (yes : Bool) (mode : Mode) (hint : Option BackupHint) (x : RepairFlags × Format) :
    Except (Except Errno RepairFlags) (RepairFlags × Format) :=
  let version := getSbVersion x.2.super
  match hint with
  | some hint =>
    let backup := getBkVersion hint.block hint.bkFormat
    if getReleaseNumberMinor < backup ∨
        getReleaseNumberMinor < version ∧ sbUpdateBackup x.2.super = true then .error (.ok .reFatal)
    else if backup < version ∧ version ≤ getReleaseNumberMinor ∧ sbUpdateBackup x.2.super = true then
      .ok (fixSuper true (mode != .check) .reFixable (fun s => setSbVersion s version) x)
    else
      .ok (fixSuper (version != backup) (mode == .build) .reFatal (fun s => setSbVersion s backup) x)
  | none =>
    if getReleaseNumberMinor < version then
      if mode ≠ .build then .error (.ok .reFatal)
      else if yes = false then .error (.error .einval)
      else .ok (x.1, x.2.set fun s => setSbVersion s getReleaseNumberMinor)
    else .ok x

/-- The policy: of the caller, of the backup, or any that is known. -/
def checkPolicy (mode : Mode) (hint : Option BackupHint) (desc : FormatHint) (x : RepairFlags × Format) :
    RepairFlags × Format :=
  let policy := getSbPolicy x.2.super
  if desc.policyMask then
    fixSuper (desc.policy != policy) (mode != .check) .reFixable (fun s => setSbPolicy s desc.policy) x
  else
    match hint with
    | some hint =>
      let backup := getBkPolicy hint.block hint.bkFormat
      fixSuper (policy != backup) (mode != .check) .reFixable (fun s => setSbPolicy s backup) x
    | none =>
      fixSuper (!policyKnown policy) (mode != .check) .reFixable (fun s => setSbPolicy s desc.policy) x

/-- The key: of the caller, or with all the flags of the backup. -/
def checkKey (mode : Mode) (hint : Option BackupHint) (desc : FormatHint) (x : RepairFlags × Format) :
    RepairFlags × Format :=
  if desc.keyMask then
    fixSuper (desc.key != format40GetKey x.2.super) (mode == .build) .reFatal
      (fun s => format40SetKey s desc.key) x
  else
    match hint with
    | some hint =>
      let backup := getBkFlags hint.block hint.bkFormat
      fixSuper (getSbFlags x.2.super != backup) (mode == .build) .reFatal (fun s => setSbFlags s backup) x
    | none => x

/-- The block count. -/
def checkBlockCount (mode : Mode) (hint : Option BackupHint) (desc : FormatHint)
    (x : RepairFlags × Format) : RepairFlags × Format :=
  let count :=
    match hint with
    | some hint => getBkBlockCount hint.block hint.bkFormat
    | none => desc.blocks
  fixSuper (getSbBlockCount x.2.super != count) (mode == .build) .reFatal
    (fun s => setSbBlockCount s count) x

/-- The mkfs id, which only a backup has. -/
def checkMkfsId (mode : Mode) (hint : Option BackupHint) (x : RepairFlags × Format) :
    RepairFlags × Format :=
  match hint with
  | some hint =>
    let backup := getBkMkfsId hint.block hint.bkFormat
    fixSuper (getSbMkfsId x.2.super != backup) (mode == .build) .reFatal (fun s => setSbMkfsId s backup) x
  | none => x

/-- `format40_check_struct`. -/
def format40CheckStruct (yes : Bool) (mode : Mode) (hint : Option BackupHint) (desc : FormatHint)
    (format : Format) : Except Errno RepairFlags × Format :=
  let x := checkMagic mode (.clean, format)
  match checkVersion yes mode hint x with
  | .error res => (res, x.2)
  | .ok x =>
    let x := checkKey mode hint desc (checkPolicy mode hint desc x)
    let x := checkMkfsId mode hint (checkBlockCount mode hint desc x)
    (.ok x.1, x.2)

/-! ## One check -/

section Fix

variable {α : Type} {F : Bytes → α} {differs fixes : Bool} {answer : RepairFlags} {g : Bytes → Bytes}
  {x : RepairFlags × Format}

/-- What the change leaves alone the check leaves alone. -/
theorem fixSuper_keeps (h : F (g x.2.super) = F x.2.super) :
    F (fixSuper differs fixes answer g x).2.super = F x.2.super := by
  unfold fixSuper
  cases differs with
  | false => rfl
  | true =>
    cases fixes with
    | false => rfl
    | true => exact h

/-- In a mode that fixes, the field has its value afterwards, and nothing is answered. -/
theorem fixSuper_sets [DecidableEq α] {v : α} (hd : differs = false → F x.2.super = v)
    (h : F (g x.2.super) = v) : F (fixSuper differs true answer g x).2.super = v := by
  unfold fixSuper
  cases differs with
  | false => exact hd rfl
  | true => exact h

theorem fixSuper_fixes : (fixSuper differs true answer g x).1 = x.1 := by
  unfold fixSuper
  cases differs <;> rfl

/-- Where nothing differs nothing is done. -/
theorem fixSuper_same (h : differs = false) : fixSuper differs fixes answer g x = x := by
  rw [h]
  rfl

end Fix

/-! ## Where the fields are -/

section Ranges

theorem reads_version : Bytes.Reads getSbVersion 80 4 :=
  (Bytes.reads_getLe 4 80).comp (· % 2147483648)

theorem reads_updateBackup : Bytes.Reads sbUpdateBackup 80 4 :=
  (Bytes.reads_getLe 4 80).comp fun v => decide (2147483648 ≤ v)

theorem reads_policy : Bytes.Reads getSbPolicy 70 2 := Bytes.reads_getLe 2 70
theorem reads_flags : Bytes.Reads getSbFlags 72 8 := Bytes.reads_getLe 8 72

theorem reads_key : Bytes.Reads format40GetKey 72 8 :=
  reads_flags.comp fun v => if v % 2 = 1 then keyLargeId else 0

theorem reads_blockCount : Bytes.Reads getSbBlockCount 0 8 := Bytes.reads_getLe 8 0

/-- The magic is the one of format40. -/
def magicOk (super : Bytes) : Bool := Bytes.strneq 15 super sbMagic (strBytes format40Magic) 0

theorem reads_magic : Bytes.Reads magicOk 52 15 := Bytes.reads_strneq 15 52 _ 0

end Ranges

/-! ## Which fields a check can change -/

section Keeps

variable {α : Type} {F : Bytes → α} {o n : Nat} {mode : Mode} {hint : Option BackupHint} {desc : FormatHint}
  {x : RepairFlags × Format}

theorem checkMagic_keeps (hF : Bytes.Reads F o n) (h : o + n ≤ 52 ∨ 67 ≤ o) :
    F (checkMagic mode x).2.super = F x.2.super :=
  fixSuper_keeps (hF.apart (Bytes.writes_strncpy 52 _ 0 15) h _)

theorem checkPolicy_keeps (hF : Bytes.Reads F o n) (h : o + n ≤ 70 ∨ 72 ≤ o) :
    F (checkPolicy mode hint desc x).2.super = F x.2.super := by
  have hset : ∀ v s, F (setSbPolicy s v) = F s := fun v s =>
    hF.apart (Bytes.writes_setLe 2 70 fun _ => v) h s
  unfold checkPolicy
  dsimp only
  split
  · exact fixSuper_keeps (hset _ _)
  · split
    · exact fixSuper_keeps (hset _ _)
    · exact fixSuper_keeps (hset _ _)

theorem checkKey_keeps (hF : Bytes.Reads F o n) (h : o + n ≤ 72 ∨ 80 ≤ o) :
    F (checkKey mode hint desc x).2.super = F x.2.super := by
  have hset : ∀ v s, F (setSbFlags s v) = F s := fun v s =>
    hF.apart (Bytes.writes_setLe 8 72 fun _ => v) h s
  unfold checkKey
  split
  · exact fixSuper_keeps (hset _ _)
  · split
    · exact fixSuper_keeps (hset _ _)
    · rfl

theorem checkBlockCount_keeps (hF : Bytes.Reads F o n) (h : 8 ≤ o) :
    F (checkBlockCount mode hint desc x).2.super = F x.2.super :=
  fixSuper_keeps (hF.apart (Bytes.writes_setLe 8 0 fun _ => _) (Or.inr h) _)

theorem checkMkfsId_keeps (hF : Bytes.Reads F o n) (h : o + n ≤ 48 ∨ 52 ≤ o) :
    F (checkMkfsId mode hint x).2.super = F x.2.super := by
  unfold checkMkfsId
  split
  · exact fixSuper_keeps (hF.apart (Bytes.writes_setLe 4 48 fun _ => _) h _)
  · rfl

end Keeps

/-! ## In build mode, with a backup -/

/-- A newer version of the super block, which the backup is to follow. -/
def VersionPending (hint : BackupHint) (super : Bytes) : Prop :=
  getBkVersion hint.block hint.bkFormat < getSbVersion super ∧
    getSbVersion super ≤ getReleaseNumberMinor ∧ sbUpdateBackup super = true

instance (hint : BackupHint) (super : Bytes) : Decidable (VersionPending hint super) :=
  inferInstanceAs (Decidable (_ ∧ _ ∧ _))

/-- What the caller asks for are ids of plugins. -/
structure FormatHint.Known (desc : FormatHint) : Prop where
  policy : policyKnown desc.policy = true
  key : desc.key ≤ keyLargeId

/-- The super block `super'` has the fields of the backup, or those the caller asks for; its version is
    the one of `super` where that is newer. -/
structure SuperFollows (hint : BackupHint) (desc : FormatHint) (super super' : Bytes) : Prop where
  magic : magicOk super' = true
  version : getSbVersion super' =
    if VersionPending hint super then getSbVersion super else getBkVersion hint.block hint.bkFormat
  known : getBkVersion hint.block hint.bkFormat ≤ getReleaseNumberMinor
  policy : getSbPolicy super' =
    if desc.policyMask then desc.policy else getBkPolicy hint.block hint.bkFormat
  flags : if desc.keyMask then format40GetKey super' = desc.key
    else getSbFlags super' = getBkFlags hint.block hint.bkFormat
  blockCount : getSbBlockCount super' = getBkBlockCount hint.block hint.bkFormat
  mkfsId : getSbMkfsId super' = getBkMkfsId hint.block hint.bkFormat

section Build

variable {hint : BackupHint} {desc : FormatHint} {x : RepairFlags × Format}

theorem checkMagic_build : magicOk (checkMagic .build x).2.super = true ∧ (checkMagic .build x).1 = x.1 := by
  refine ⟨fixSuper_sets (fun hd => ?_) ?_, fixSuper_fixes⟩
  · unfold magicOk
    rwa [Bool.not_eq_false'] at hd
  · refine Bytes.strneq_iff.mpr fun i hi hnz => ?_
    rw [Bytes.strncpy_in _ _ _ _ _ _ hi fun j hj => ?_]
    rw [Nat.zero_add]
    exact format40Magic_ne j (by omega)

theorem checkPolicy_build (hk : desc.Known) : getSbPolicy (checkPolicy .build (some hint) desc x).2.super =
    (if desc.policyMask then desc.policy else getBkPolicy hint.block hint.bkFormat) ∧
      (checkPolicy .build (some hint) desc x).1 = x.1 := by
  have hpolicy : desc.policy < 256 ^ 2 :=
    Nat.lt_trans (of_decide_eq_true hk.policy) (by decide)
  unfold checkPolicy
  dsimp only
  split
  · refine ⟨fixSuper_sets (fun hd => ?_) (Bytes.getLe_setLe_of_lt 2 _ 70 _ hpolicy), fixSuper_fixes⟩
    exact (bne_eq_false_iff_eq.mp hd).symm
  · refine ⟨fixSuper_sets (fun hd => bne_eq_false_iff_eq.mp hd)
      (Bytes.getLe_setLe_of_lt 2 _ 70 _ (Bytes.getLe_lt 2 _ _)), fixSuper_fixes⟩

/-- The key bit is set, the other flags stay. -/
theorem format40GetKey_setKey (super : Bytes) {key : Nat} (h : key ≤ keyLargeId) :
    format40GetKey (format40SetKey super key) = key := by
  have hlt : getSbFlags super < 256 ^ 8 := Bytes.getLe_lt 8 super 72
  have hbound : getSbFlags super / 2 * 2 + (if key = keyLargeId then 1 else 0) < 256 ^ 8 := by
    split <;> omega
  unfold format40GetKey format40SetKey
  rw [show getSbFlags (setSbFlags super _) = _ from Bytes.getLe_setLe_of_lt 8 super 72 _ hbound]
  unfold keyLargeId at h ⊢
  split
  · split <;> omega
  · split <;> omega

theorem checkKey_build (hk : desc.Known) :
    (if desc.keyMask then format40GetKey (checkKey .build (some hint) desc x).2.super = desc.key
      else getSbFlags (checkKey .build (some hint) desc x).2.super =
        getBkFlags hint.block hint.bkFormat) ∧
      (checkKey .build (some hint) desc x).1 = x.1 := by
  unfold checkKey
  split
  · exact ⟨fixSuper_sets (fun hd => (bne_eq_false_iff_eq.mp hd).symm) (format40GetKey_setKey _ hk.key),
      fixSuper_fixes⟩
  · exact ⟨fixSuper_sets (fun hd => bne_eq_false_iff_eq.mp hd)
      (Bytes.getLe_setLe_of_lt 8 _ 72 _ (Bytes.getLe_lt 8 _ _)), fixSuper_fixes⟩

theorem checkBlockCount_build : getSbBlockCount (checkBlockCount .build (some hint) desc x).2.super =
    getBkBlockCount hint.block hint.bkFormat ∧
      (checkBlockCount .build (some hint) desc x).1 = x.1 :=
  ⟨fixSuper_sets (fun hd => bne_eq_false_iff_eq.mp hd)
    (Bytes.getLe_setLe_of_lt 8 _ 0 _ (Bytes.getLe_lt 8 _ _)), fixSuper_fixes⟩

theorem checkMkfsId_build : getSbMkfsId (checkMkfsId .build (some hint) x).2.super =
    getBkMkfsId hint.block hint.bkFormat ∧ (checkMkfsId .build (some hint) x).1 = x.1 :=
  ⟨fixSuper_sets (fun hd => bne_eq_false_iff_eq.mp hd)
    (Bytes.getLe_setLe_of_lt 4 _ 48 _ (Bytes.getLe_lt 4 _ _)), fixSuper_fixes⟩

theorem getSbVersion_set (s : Bytes) {v : Nat} (h : v < 2147483648) :
    getSbVersion (setSbVersion s v) = v := by
  unfold getSbVersion
  rw [show (setSbVersion s v).getLe 4 80 = v from
    Bytes.getLe_setLe_of_lt 4 s 80 v (Nat.lt_trans h (by decide))]
  exact Nat.mod_eq_of_lt h

/-- The version is the one of the backup, or a newer one of the super block. -/
theorem checkVersion_build {yes : Bool} {x' : RepairFlags × Format}
    (h : checkVersion yes .build (some hint) x = .ok x') :
    getBkVersion hint.block hint.bkFormat ≤ getReleaseNumberMinor ∧ x'.1 = x.1 ∧
      getSbVersion x'.2.super = (if VersionPending hint x.2.super then getSbVersion x.2.super
        else getBkVersion hint.block hint.bkFormat) ∧
      ∀ {α : Type} {F : Bytes → α} {o n : Nat}, Bytes.Reads F o n → o + n ≤ 80 ∨ 84 ≤ o →
        F x'.2.super = F x.2.super := by
  have hversion : getSbVersion x.2.super < 2147483648 := Nat.mod_lt _ (by decide)
  have hbackup : getBkVersion hint.block hint.bkFormat < 2147483648 := Nat.mod_lt _ (by decide)
  have hset : ∀ {α : Type} {F : Bytes → α} {o n : Nat}, Bytes.Reads F o n → o + n ≤ 80 ∨ 84 ≤ o →
      ∀ v s, F (setSbVersion s v) = F s := fun hF ho v s =>
    hF.apart (Bytes.writes_setLe 4 80 fun _ => v) ho s
  unfold checkVersion at h
  dsimp only at h
  split at h
  · cases h
  · next hfatal =>
    have hle := Nat.le_of_not_lt (not_or.mp hfatal).1
    split at h
    · next hp =>
      obtain rfl := Except.ok.inj h
      rw [if_pos (show VersionPending hint x.2.super from hp)]
      exact ⟨hle, fixSuper_fixes, fixSuper_sets nofun (getSbVersion_set _ hversion),
        fun hF ho => fixSuper_keeps (hset hF ho _ _)⟩
    · next hp =>
      obtain rfl := Except.ok.inj h
      rw [if_neg (show ¬VersionPending hint x.2.super from hp)]
      exact ⟨hle, fixSuper_fixes, fixSuper_sets (fun hd => bne_eq_false_iff_eq.mp hd)
        (getSbVersion_set _ hbackup), fun hF ho => fixSuper_keeps (hset hF ho _ _)⟩

/-- **A check in build mode that is not fatal** leaves a super block that follows the backup. -/
theorem checkStruct_build {yes : Bool} {f f' : Format} {res : RepairFlags} (hk : desc.Known)
    (h : format40CheckStruct yes .build (some hint) desc f = (.ok res, f')) (hf : res.fatal = false) :
    res = .clean ∧ SuperFollows hint desc f.super f'.super := by
  unfold format40CheckStruct at h
  dsimp only at h
  obtain ⟨hmagic, hres1⟩ := checkMagic_build (x := (.clean, f))
  have hkeep1 : ∀ {α : Type} {F : Bytes → α} {o n : Nat}, Bytes.Reads F o n → 67 ≤ o →
      F (checkMagic .build (.clean, f)).2.super = F f.super := fun hF ho =>
    checkMagic_keeps hF (Or.inr ho)
  generalize checkMagic .build (.clean, f) = x1 at h hmagic hres1 hkeep1
  split at h
  · next r hr =>
    -- The only early answer with a backup is fatal.
    obtain ⟨rfl, -⟩ := Prod.mk.inj h
    unfold checkVersion at hr
    dsimp only at hr
    split at hr
    · cases hr
      cases hf
    · split at hr <;> cases hr
  · next x2 h2 =>
    obtain ⟨hknown, hres2, hversion, hkeep2⟩ := checkVersion_build h2
    have hpending : VersionPending hint x1.2.super ↔ VersionPending hint f.super := by
      unfold VersionPending
      rw [hkeep1 reads_version (by decide), hkeep1 reads_updateBackup (by decide)]
    obtain ⟨hpolicy, hres3⟩ := @checkPolicy_build hint _ x2 hk
    generalize hx3 : checkPolicy .build (some hint) desc x2 = x3 at h hpolicy hres3
    obtain ⟨hflags, hres4⟩ := @checkKey_build hint _ x3 hk
    generalize hx4 : checkKey .build (some hint) desc x3 = x4 at h hflags hres4
    obtain ⟨hcount, hres5⟩ := @checkBlockCount_build hint desc x4
    generalize hx5 : checkBlockCount .build (some hint) desc x4 = x5 at h hcount hres5
    obtain ⟨hmkfs, hres6⟩ := @checkMkfsId_build hint x5
    generalize hx6 : checkMkfsId .build (some hint) x5 = x6 at h hmkfs hres6
    obtain ⟨hr, rfl⟩ := Prod.mk.inj h
    -- What the checks behind a field do not change.
    have hkeep6 : ∀ {α : Type} {F : Bytes → α} {o n : Nat}, Bytes.Reads F o n → 52 ≤ o →
        F x6.2.super = F x4.2.super := fun hF ho => by
      rw [← hx6, checkMkfsId_keeps hF (Or.inr ho), ← hx5,
        checkBlockCount_keeps hF (Nat.le_trans (by decide) ho)]
    have hkeep4 : ∀ {α : Type} {F : Bytes → α} {o n : Nat}, Bytes.Reads F o n → 52 ≤ o →
        o + n ≤ 72 ∨ 80 ≤ o → F x6.2.super = F x3.2.super := fun hF ho h => by
      rw [hkeep6 hF ho, ← hx4, checkKey_keeps hF h]
    have hkeep3 : ∀ {α : Type} {F : Bytes → α} {o n : Nat}, Bytes.Reads F o n → 52 ≤ o →
        o + n ≤ 70 ∨ 80 ≤ o → F x6.2.super = F x2.2.super := fun hF ho h => by
      rw [hkeep4 hF ho (by omega), ← hx3, checkPolicy_keeps hF (by omega)]
    refine ⟨?_, ?_, ?_, hknown, ?_, ?_, ?_, hmkfs⟩
    · rw [← Except.ok.inj hr, hres6, hres5, hres4, hres3, hres2, hres1]
    · rw [hkeep3 reads_magic (by decide) (by decide), hkeep2 reads_magic (by decide)]
      exact hmagic
    · rw [hkeep3 reads_version (by decide) (by decide), hversion, hkeep1 reads_version (by decide)]
      exact if_congr hpending rfl rfl
    · rw [hkeep4 reads_policy (by decide) (by decide)]
      exact hpolicy
    · split at hflags
      · next hm =>
        rw [if_pos hm, hkeep6 reads_key (by decide)]
        exact hflags
      · next hm =>
        rw [if_neg hm, hkeep6 reads_flags (by decide)]
        exact hflags
    · rw [← hx6, checkMkfsId_keeps reads_blockCount (by decide)]
      exact hcount

end Build

/-! ## Again, in check mode -/

section Again

variable {hint : BackupHint} {desc : FormatHint} {super super' : Bytes}

/-- **A super block that follows the backup passes**, unless it has kept a newer version. -/
theorem checkStruct_check (yes dirty : Bool) (h : SuperFollows hint desc super super')
    (hv : ¬VersionPending hint super) :
    format40CheckStruct yes .check (some hint) desc ⟨super', dirty⟩ =
      (.ok .clean, ⟨super', dirty⟩) := by
  have hversion := h.version
  rw [if_neg hv] at hversion
  have hmagic : checkMagic .check (.clean, ⟨super', dirty⟩) = (.clean, ⟨super', dirty⟩) :=
    fixSuper_same (by
      rw [show Bytes.strneq 15 super' sbMagic (strBytes format40Magic) 0 = true from h.magic]
      rfl)
  have hchecked : checkVersion yes .check (some hint) (.clean, ⟨super', dirty⟩) =
      .ok (.clean, ⟨super', dirty⟩) := by
    unfold checkVersion
    dsimp only
    rw [hversion, if_neg (by have := h.known; omega), if_neg (by omega), fixSuper_same]
    exact bne_self_eq_false _
  have hpolicy : checkPolicy .check (some hint) desc (.clean, ⟨super', dirty⟩) =
      (.clean, ⟨super', dirty⟩) := by
    have hp := h.policy
    unfold checkPolicy
    dsimp only
    split at hp
    · next hm =>
      rw [if_pos hm, fixSuper_same]
      rw [hp]
      exact bne_self_eq_false _
    · next hm =>
      rw [if_neg hm, fixSuper_same]
      rw [hp]
      exact bne_self_eq_false _
  have hkey : checkKey .check (some hint) desc (.clean, ⟨super', dirty⟩) =
      (.clean, ⟨super', dirty⟩) := by
    have hf := h.flags
    unfold checkKey
    split at hf
    · next hm =>
      rw [if_pos hm, fixSuper_same]
      rw [hf]
      exact bne_self_eq_false _
    · next hm =>
      rw [if_neg hm]
      dsimp only
      rw [fixSuper_same]
      rw [hf]
      exact bne_self_eq_false _
  have hcount : checkBlockCount .check (some hint) desc (.clean, ⟨super', dirty⟩) =
      (.clean, ⟨super', dirty⟩) := fixSuper_same (by
    rw [h.blockCount]
    exact bne_self_eq_false _)
  have hmkfs : checkMkfsId .check (some hint) (.clean, ⟨super', dirty⟩) =
      (.clean, ⟨super', dirty⟩) := fixSuper_same (by
    rw [h.mkfsId]
    exact bne_self_eq_false _)
  unfold format40CheckStruct
  dsimp only
  rw [hmagic, hchecked]
  dsimp only
  rw [hpolicy, hkey, hcount, hmkfs]

end Again

end Reiser4.Format40
