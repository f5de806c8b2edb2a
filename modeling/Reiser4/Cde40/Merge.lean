/-
  Fusing two directory items that lie side by side (`cde40_merge`).

  The number of units of the right item goes; its headers change places with the bodies of the left one
  through a buffer, and the offsets of both are corrected, each by another amount.

    1. `mergeParts_byte`   where the four parts are before the offsets are corrected;
    2. `merge_holds`       the left item then holds the entries of both.
-/
import Reiser4.Cde40.Expand

namespace Reiser4

open Reiser4.Lib

namespace Cde40

/-- The memory of `cde40_merge` when the parts are in place: the item on the right has given up its
    number of units, and its headers stand between the headers and the bodies of the left one. -/
def mergeParts (pol : KeyPol) (mem : Bytes) (lbody llen rbody rlen : Nat) : Bytes :=
  let units := getUnits mem lbody
  let size := getUnits mem rbody * enSize pol
  let offset := 2 + units * enSize pol
  let mem := setUnits mem lbody (units + getUnits mem rbody)
  let mem := mem.move rbody (rbody + 2) (rlen - 2)
  let buf := Bytes.copy Bytes.zero 0 mem rbody size
  let mem := mem.move (lbody + offset + size) (lbody + offset) (llen - offset)
  mem.copy (lbody + offset) buf 0 size

/-- `cde40_merge`: the memory, and the space released in the node. -/
def merge (pol : KeyPol) (mem : Bytes) (lbody llen rbody rlen : Nat) : Bytes × Nat :=
  let units := getUnits mem lbody
  let size := getUnits mem rbody * enSize pol
  let mem := mergeParts pol mem lbody llen rbody rlen
  let mem := moveOffsets pol (fun m en => enIncOffset pol m en size) units mem (entry pol lbody 0)
  let mem := moveOffsets pol (fun m en => enIncOffset pol m en (llen - 2))
    (getUnits mem lbody - units) mem (entry pol lbody units)
  (mem, 2)

section Merge

variable {pol : KeyPol} {mem : Bytes} {lbody llen rlen loc : Nat} {es fs : List EntryHint}

/-- **Where the parts are.** -/
theorem mergeParts_byte (hes : Holds pol mem lbody loc es llen)
    (hfs : Holds pol mem (lbody + llen) loc fs rlen) (a : Nat) (ha : a < lbody ∨ lbody + 2 ≤ a) :
    mergeParts pol mem lbody llen (lbody + llen) rlen a =
      if a < lbody + 2 + es.length * enSize pol then mem a
      else if a < lbody + 2 + (es.length + fs.length) * enSize pol then mem (a + bodies pol es + 2)
      else if a < lbody + 2 + (es.length + fs.length) * enSize pol + bodies pol es then
        mem (a - fs.length * enSize pol)
      else if a < lbody + llen + rlen - 2 then mem (a + 2)
      else mem a := by
  have hleft := hes.length
  have hright := hfs.length
  have hnn : (es.length + fs.length) * enSize pol =
      es.length * enSize pol + fs.length * enSize pol := Nat.add_mul _ _ _
  have hunits : ∀ v a, a < lbody ∨ lbody + 2 ≤ a → setUnits mem lbody v a = mem a :=
    fun v a h => setUnits_out _ _ _ h
  unfold mergeParts
  rw [hes.units, hfs.units]
  by_cases h1 : a < lbody + 2 + es.length * enSize pol
  · rw [if_pos h1, Bytes.copy_out _ _ _ _ _ _ (by omega), Bytes.move_out _ _ _ _ _ (by omega),
      Bytes.move_out _ _ _ _ _ (by omega), hunits _ _ ha]
  · rw [if_neg h1]
    by_cases h2 : a < lbody + 2 + (es.length + fs.length) * enSize pol
    · -- a header of the right item, out of the buffer
      rw [if_pos h2, Bytes.copy_in _ _ _ _ _ _ (by omega) (by omega),
        Bytes.copy_in _ _ _ _ _ _ (by omega) (by omega),
        Bytes.move_in _ _ _ _ _ (by omega) (by omega), hunits _ _ (by omega)]
      congr 1
      omega
    · rw [if_neg h2, Bytes.copy_out _ _ _ _ _ _ (by omega)]
      by_cases h3 : a < lbody + 2 + (es.length + fs.length) * enSize pol + bodies pol es
      · rw [if_pos h3, Bytes.move_in _ _ _ _ _ (by omega) (by omega),
          Bytes.move_out _ _ _ _ _ (by omega), hunits _ _ (by omega)]
        congr 1
        omega
      · rw [if_neg h3, Bytes.move_out _ _ _ _ _ (by omega)]
        by_cases h4 : a < lbody + llen + rlen - 2
        · rw [if_pos h4, Bytes.move_in _ _ _ _ _ (by omega) (by omega), hunits _ _ (by omega)]
          congr 1
          omega
        · rw [if_neg h4, Bytes.move_out _ _ _ _ _ (by omega), hunits _ _ ha]

/-- **`cde40_merge`** leaves the entries of both items in the left one, and touches nothing else. -/
theorem merge_holds (hes : Holds pol mem lbody loc es llen)
    (hfs : Holds pol mem (lbody + llen) loc fs rlen) (hfit : llen + rlen ≤ maxBlksize) :
    Holds pol (merge pol mem lbody llen (lbody + llen) rlen).1 lbody loc (es ++ fs) (llen + rlen - 2) ∧
      ∀ a, a < lbody ∨ lbody + llen + rlen ≤ a →
        (merge pol mem lbody llen (lbody + llen) rlen).1 a = mem a := by
  have hleft := hes.length
  have hright := hfs.length
  have hblk := maxBlksize_eq
  have h16 := two16_eq
  have hen : enSize pol = haSize pol + 2 := rfl
  have hnn : (es.length + fs.length) * enSize pol =
      es.length * enSize pol + fs.length * enSize pol := Nat.add_mul _ _ _
  have hmany : es.length + fs.length ≤ (es.length + fs.length) * enSize pol :=
    Nat.le_mul_of_pos_right _ (by omega)
  have hbyte := mergeParts_byte hes hfs
  have hcount : getUnits (mergeParts pol mem lbody llen (lbody + llen) rlen) lbody =
      es.length + fs.length := by
    have hunits : getUnits (setUnits mem lbody (es.length + fs.length)) lbody = es.length + fs.length := by
      rw [getUnits_set, Nat.mod_eq_of_lt (by omega)]
    rw [← hunits]
    refine Bytes.getLe_congr 2 _ _ _ _ fun a ha => ?_
    unfold mergeParts
    rw [hes.units, hfs.units, Bytes.copy_out _ _ _ _ _ _ (by omega),
      Bytes.move_out _ _ _ _ _ (by omega), Bytes.move_out _ _ _ _ _ (by omega)]
  obtain ⟨hrest, hfront, hback⟩ := @expandOffsets_spec pol
    (mergeParts pol mem lbody llen (lbody + llen) rlen) lbody es.length (llen - 2)
    (es.length + fs.length) (fs.length * enSize pol) (Nat.le_add_right _ _)
  have hmerge : (merge pol mem lbody llen (lbody + llen) rlen).1 =
      expandOffsets pol (mergeParts pol mem lbody llen (lbody + llen) rlen) lbody
        (es.length + fs.length) es.length (fs.length * enSize pol) (llen - 2) := by
    -- the loop over the left offsets does not touch the number of units
    have hkeep : getUnits (moveOffsets pol (fun m en => enIncOffset pol m en (fs.length * enSize pol))
        es.length (mergeParts pol mem lbody llen (lbody + llen) rlen) (entry pol lbody 0)) lbody =
        es.length + fs.length := by
      obtain ⟨hset, hout⟩ := @enIncOffset_spec pol (fs.length * enSize pol)
      obtain ⟨hsame, -⟩ := @moveOffsets_entry pol _ (fun v => (v + fs.length * enSize pol) % two16)
        hset hout (mergeParts pol mem lbody llen (lbody + llen) rlen) lbody 0 es.length
      rw [← hcount]
      refine Bytes.getLe_congr 2 _ _ _ _ fun a ha => hsame _ fun i _ _ => Or.inl ?_
      have : lbody + 2 ≤ entry pol lbody i := Nat.le_add_right _ _
      omega
    unfold merge expandOffsets
    dsimp only
    rw [hes.units, hfs.units, hkeep]
  have htop : entry pol lbody (es.length + fs.length) =
      lbody + 2 + (es.length + fs.length) * enSize pol := rfl
  have hmid : entry pol lbody es.length = lbody + 2 + es.length * enSize pol := rfl
  -- what is in no offset is where the parts have been put
  have hplain : ∀ a, (a < lbody + 2 ∨ lbody + 2 + (es.length + fs.length) * enSize pol ≤ a) →
      (merge pol mem lbody llen (lbody + llen) rlen).1 a =
        mergeParts pol mem lbody llen (lbody + llen) rlen a := by
    intro a ha
    rw [hmerge]
    refine hrest a fun i hi => ?_
    have := @entry_lt pol lbody i (es.length + fs.length) hi
    have : lbody + 2 ≤ entry pol lbody i := Nat.le_add_right _ _
    rw [entry_succ]
    omega
  have hhash : ∀ i a, a < haSize pol →
      (merge pol mem lbody llen (lbody + llen) rlen).1 (entry pol lbody i + a) =
        mergeParts pol mem lbody llen (lbody + llen) rlen (entry pol lbody i + a) := by
    intro i a ha
    rw [hmerge]
    exact hrest _ fun j _ => hash_apart ha
  refine ⟨⟨?_, ?_, ?_, by omega⟩, fun a ha => ?_⟩
  · rw [List.length_append, ← hcount]
    exact Bytes.getLe_congr 2 _ _ _ _ fun a ha => hplain _ (Or.inl (by omega))
  · rw [List.length_append, chain_append]
    constructor
    · refine hes.chain.moved (fun i hi a ha => ?_) (fun i hi => ?_) fun a ha => ?_
      · have := @entry_lt pol lbody i es.length hi
        show (merge pol mem lbody llen (lbody + llen) rlen).1 (entry pol lbody i + a) =
          mem (entry pol lbody i + a)
        have h2 : lbody + 2 ≤ entry pol lbody i := Nat.le_add_right _ _
        rw [hhash i a ha, hbyte _ (Or.inr (by omega)), if_pos (by omega)]
      · have := @entry_lt pol lbody i es.length hi
        have h2 : lbody + 2 ≤ entry pol lbody i := Nat.le_add_right _ _
        have hold := hes.offset_eq hi
        have hsmall := @bodies_take_add_drop pol es i
        have hsame : enGetOffset pol (mergeParts pol mem lbody llen (lbody + llen) rlen)
            (entry pol lbody i) = enGetOffset pol mem (entry pol lbody i) :=
          Bytes.getLe_congr 2 _ _ _ _ fun a ha => by
            rw [hbyte _ (Or.inr (by omega)), if_pos (by omega)]
        show enGetOffset pol (merge pol mem lbody llen (lbody + llen) rlen).1 (entry pol lbody i) + _ =
          enGetOffset pol mem (entry pol lbody i) + _
        rw [hmerge, hfront i hi, hsame, hold, Nat.mod_eq_of_lt (by omega)]
        omega
      · rw [hplain _ (Or.inr (by omega)), hbyte _ (Or.inr (by omega)), if_neg (by omega),
          if_neg (by omega), if_pos (by omega)]
        congr 1
        omega
    · refine hfs.chain.moved (fun i hi a ha => ?_) (fun i hi => ?_) fun a ha => ?_
      · have hlt := @entry_lt pol lbody (es.length + i) (es.length + fs.length) (by omega)
        have hadd := @entry_add pol lbody es.length i
        show (merge pol mem lbody llen (lbody + llen) rlen).1
          (entry pol lbody es.length + i * enSize pol + a) = _
        rw [← hadd, hhash _ a ha, hbyte _ (Or.inr (by omega)), if_neg (by omega), if_pos (by omega)]
        congr 1
        omega
      · have hlt := @entry_lt pol lbody (es.length + i) (es.length + fs.length) (by omega)
        have hadd := @entry_add pol lbody es.length i
        have hold := hfs.offset_eq hi
        have hsmall := @bodies_take_add_drop pol fs i
        have hentry : entry pol (lbody + llen) i = lbody + llen + 2 + i * enSize pol := rfl
        have hsame : enGetOffset pol (mergeParts pol mem lbody llen (lbody + llen) rlen)
            (entry pol lbody (es.length + i)) = enGetOffset pol mem (entry pol (lbody + llen) i) :=
          Bytes.getLe_congr 2 _ _ _ _ fun a ha => by
            rw [hbyte _ (Or.inr (by omega)), if_neg (by omega), if_pos (by omega)]
            congr 1
            omega
        show enGetOffset pol (merge pol mem lbody llen (lbody + llen) rlen).1
          (entry pol lbody es.length + i * enSize pol) + _ =
          enGetOffset pol mem (entry pol (lbody + llen) i) + _
        rw [← hadd, hmerge, hback _ (Nat.le_add_right _ _) (by omega), hsame, hold,
          Nat.mod_eq_of_lt (by omega)]
        omega
      · rw [hplain _ (Or.inr (by omega)), hbyte _ (Or.inr (by omega)), if_neg (by omega),
          if_neg (by omega), if_neg (by omega), if_pos (by omega)]
        congr 1
        omega
  · rw [List.length_append, bodies_append]
    omega
  · rw [hplain _ (by omega), hbyte _ (by omega)]
    by_cases h0 : a < lbody
    · rw [if_pos (by omega)]
    · rw [if_neg (by omega), if_neg (by omega), if_neg (by omega), if_neg (by omega)]

end Merge

end Cde40

end Reiser4
