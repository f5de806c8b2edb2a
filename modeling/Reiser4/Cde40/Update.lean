/-
  Changing the key of an entry (`cde40_update_key`).

  The entry's hash is in its header.  `cde40_set_hash` is handed the new key, but what it stores are the
  fields of the item key, whatever unit and key it was called for.

    1. `unitAt_kept`     what the write leaves alone: all other entries;
    2. `updateKey_iff`   the entry gets the key it is given exactly when that is the one of the item; with
                         short keys no hash can be read back at all.
-/
import Reiser4.Cde40.Edit

namespace Reiser4

open Reiser4.Lib

namespace Cde40

variable (pol : KeyPol)

/-- `cde40_set_hash`; the fields it stores are those of `place->key`, the key it is given is not read. -/
def cde40SetHash (place : Place) (pos : Nat) (_key : Key) : Place :=
  let hash := entry pol place.body pos
  let ordering := place.key.ordering
  let objectid := place.key.el2
  let offset := place.key.offset
  let mem := haSetOrdering pol place.mem hash ordering
  let mem := haSetObjectid pol mem hash objectid
  { place with mem := haSetOffset pol mem hash offset }

/-- `cde40_update_key`. -/
def updateKey (place : Place) (key : Key) : Place := cde40SetHash pol place place.unit key

/-- `cde40_fetch_key`. -/
def fetchKey (place : Place) : Option Key :=
  getHash pol place.mem place.body place.key.getLocality place.unit

/-- The file name key with the fields of a key. -/
def entryKey (k : Key) : Key := Key.buildFilename k.getLocality k.ordering k.el2 k.offset

section Specs

variable {pol : KeyPol} {mem mem' : Bytes} {body loc len : Nat} {p : Place}

/-- A string depends on the bytes from its address on. -/
theorem cstr_congr : ∀ (n : Nat) {o : Nat}, (∀ a, o ≤ a → mem' a = mem a) →
    mem'.cstr n o = mem.cstr n o
  | 0, _, _ => rfl
  | n + 1, o, h => by
    rw [Bytes.cstr, Bytes.cstr, h o (Nat.le_refl o), cstr_congr n fun a ha => h a (by omega)]

/-- The entries behind and in front of a header depend on other bytes than its hash. -/
theorem unitAt_kept (h : WF pol mem body loc len) {unit i : Nat} (hunit : unit < getUnits mem body)
    (hi : i < getUnits mem body) (hne : i ≠ unit)
    (hout : ∀ a, a < entry pol body unit ∨ entry pol body unit + haSize pol ≤ a → mem' a = mem a) :
    unitAt pol mem' body loc i = unitAt pol mem body loc i := by
  have hsize : enSize pol = haSize pol + 2 := rfl
  -- the headers do not overlap, and the bodies are behind all of them
  have happart : entry pol body i + enSize pol ≤ entry pol body unit ∨
      entry pol body unit + enSize pol ≤ entry pol body i := by
    unfold entry
    rcases Nat.lt_or_gt_of_ne hne with hlt | hgt
    · have hle : (i + 1) * enSize pol ≤ unit * enSize pol := Nat.mul_le_mul_right _ hlt
      rw [Nat.succ_mul] at hle
      omega
    · have hle : (unit + 1) * enSize pol ≤ i * enSize pol := Nat.mul_le_mul_right _ hgt
      rw [Nat.succ_mul] at hle
      omega
  have hbehind : entry pol body unit + enSize pol ≤ body + enGetOffset pol mem (entry pol body i) := by
    have hstart := h.start (by omega)
    have hle : (unit + 1) * enSize pol ≤ getUnits mem body * enSize pol := Nat.mul_le_mul_right _ hunit
    have hmono : enGetOffset pol mem (entry pol body 0) ≤ enGetOffset pol mem (entry pol body i) := by
      rcases Nat.eq_zero_or_pos i with h0 | hpos
      · rw [h0]
      · exact Nat.le_of_lt (h.offset_lt hpos hi)
    rw [Nat.succ_mul] at hle
    unfold entry at *
    omega
  have hhash : hashAt pol mem' loc (entry pol body i) = hashAt pol mem loc (entry pol body i) :=
    hashAt_moved fun a ha => hout _ (by omega)
  have hoff : enGetOffset pol mem' (entry pol body i) = enGetOffset pol mem (entry pol body i) :=
    Bytes.getLe_congr 2 _ _ _ _ fun a ha => hout _ (by omega)
  have hob : objid pol mem' body i = objid pol mem body i := by
    unfold objid
    rw [hoff]
  have hobj : objAt pol mem' (objid pol mem body i) = objAt pol mem (objid pol mem body i) :=
    objAt_moved fun a _ => hout _ (Or.inr (by unfold objid; omega))
  have hname : nameAt pol mem' loc (entry pol body i) (objid pol mem body i) =
      nameAt pol mem loc (entry pol body i) (objid pol mem body i) := by
    unfold nameAt
    rw [hhash, @cstr_congr mem mem' _ _ fun a ha => hout a (Or.inr (by unfold objid at ha; omega))]
  unfold unitAt unitHash
  rw [hhash, hob, hobj, hname]

/-- What `cde40_set_hash` stores reads back. -/
theorem unitHash_setHash (hfit : p.key.Fits pol) (pos : Nat) (key : Key) :
    unitHash pol (cde40SetHash pol p pos key).mem p.body p.key.getLocality pos = entryKey p.key :=
  hashAt_setHash (e := ⟨entryKey p.key, p.key, []⟩)
    ⟨by
      show p.key.getLocality * 16 + 0 < two64
      have := hfit.el0
      unfold Key.getLocality
      omega, hfit.ordering, hfit.el2, hfit.offset, hfit.short⟩ rfl

/-- **Updating the key of an entry** leaves all other entries as they are, but the entry has the new key
    afterwards exactly when keys are large and the new key is the one of the item. -/
theorem updateKey_iff (pol : KeyPol) (p : Place) (key : Key)
    (h : Cde40.WF pol p.mem p.body p.key.getLocality p.len) (hfit : p.key.Fits pol)
    (hunit : p.unit < p.units) :
    (fetchKey pol (updateKey pol p key) = some key ∧
      ∀ i, i < p.units → i ≠ p.unit →
        unitAt pol (updateKey pol p key).mem p.body p.key.getLocality i =
          unitAt pol p.mem p.body p.key.getLocality i) ↔ pol = .large ∧ key = entryKey p.key := by
  have hread : unitHash pol (updateKey pol p key).mem p.body p.key.getLocality p.unit = entryKey p.key :=
    unitHash_setHash hfit p.unit key
  constructor
  · rintro ⟨hfetch, -⟩
    cases pol with
    | short => cases hfetch
    | large => exact ⟨rfl, (getHash_some hfetch).trans hread⟩
  · rintro ⟨rfl, heq⟩
    refine ⟨?_, fun i hi hne => unitAt_kept h hunit hi hne fun a ha => setHash_out p.key a ha⟩
    show getHash .large (updateKey .large p key).mem p.body p.key.getLocality p.unit = some key
    rw [getHash_large, hread, heq]

/-- An item with one entry. -/
def oneEntry : Place := ((Edit.insert 0 [dotHint]).apply .large emptyItem).getD emptyItem

theorem oneEntry_wf : oneEntry.WF .large := by
  have hinsert : (Edit.insert 0 [dotHint]).Allowed .large emptyItem :=
    ⟨Nat.zero_le _, by decide, by
      intro e he
      rw [List.mem_singleton.mp he]
      exact dotHint_fits, by decide⟩
  obtain ⟨q, hq⟩ := apply_some emptyItem_wf.1 hinsert (Or.inl rfl)
  have hone : oneEntry = q := congrArg (Option.getD · emptyItem) hq
  rw [hone]
  exact (edit_ok emptyItem_wf.1 hinsert hq).1

theorem oneEntry_key : oneEntry.key = Key.buildFilename 5 0 0 0 := by decide +kernel

theorem updateKey_oneEntry :
    fetchKey .large (updateKey .large oneEntry (Key.buildFilename 5 0 0 0)) =
      some (Key.buildFilename 5 0 0 0) :=
  ((updateKey_iff .large oneEntry (Key.buildFilename 5 0 0 0) oneEntry_wf.item
    ⟨by decide +kernel, by decide +kernel, by decide +kernel, by decide +kernel, nofun⟩
    (by decide +kernel)).mpr ⟨rfl, by rw [oneEntry_key]; decide⟩).1

/-- The entry `.` keeps its key when it is given another one. -/
theorem updateKey_fail : oneEntry.WF .large ∧ oneEntry.unit < oneEntry.units ∧
    (Key.buildFilename 5 0 7 9).getLocality = oneEntry.key.getLocality ∧
    fetchKey .large (updateKey .large oneEntry (Key.buildFilename 5 0 7 9)) ≠
      some (Key.buildFilename 5 0 7 9) :=
  ⟨oneEntry_wf, by decide +kernel, by decide +kernel, by decide +kernel⟩

end Specs

end Cde40

end Reiser4
