/-
  The entry that is stored for a name (`cde40_prep_insert`, `cde40_insert_units`).

  The name comes back from the entry, whether it is packed into the key or stored beside it
  (`nameIn_newEntry`): packing writes the characters as the digits of a number in base 256,
  unpacking reads the digits and drops the zeros, which no name has.
-/
import Mathlib.Data.List.Induction
import Mathlib.Data.Nat.Bitwise
import Reiser4.Dir40.Name

namespace Reiser4

/-! ## Characters as digits -/

/-- The number with the characters as its digits in base 256, the first one highest. -/
def beNat (cs : List UInt8) : Nat := cs.foldl (fun value c => value * 256 + c.toNat) 0

@[simp] theorem beNat_nil : beNat [] = 0 := rfl

theorem beNat_snoc (cs : List UInt8) (c : UInt8) : beNat (cs ++ [c]) = beNat cs * 256 + c.toNat := by
  unfold beNat
  rw [List.foldl_append]
  rfl

theorem beNat_lt (cs : List UInt8) : beNat cs < 256 ^ cs.length := by
  induction cs using List.reverseRecOn with
  | nil => exact Nat.one_pos
  | append_singleton cs c ih =>
    have hc := c.toNat_lt
    rw [beNat_snoc, List.length_append, List.length_singleton, pow_succ]
    omega

theorem beNat_append_zeros (cs : List UInt8) (p : Nat) :
    beNat (cs ++ List.replicate p 0) = beNat cs * 256 ^ p := by
  induction p with
  | zero => simp
  | succ p ih =>
    rw [List.replicate_succ', ← List.append_assoc, beNat_snoc, ih, pow_succ, Nat.mul_assoc]
    rfl

theorem beNat_zeros_append (s : Nat) (cs : List UInt8) :
    beNat (List.replicate s 0 ++ cs) = beNat cs := by
  induction cs using List.reverseRecOn with
  | nil =>
    have h := beNat_append_zeros [] s
    rw [List.nil_append] at h
    rw [List.append_nil, h, beNat_nil, Nat.zero_mul]
  | append_singleton cs c ih =>
    rw [← List.append_assoc, beNat_snoc, beNat_snoc, ih]

/-- The digits read back. -/
theorem beNat_digits (cs : List UInt8) :
    (List.range cs.length).map (fun i => UInt8.ofNat (beNat cs / 256 ^ (cs.length - 1 - i) % 256)) =
      cs := by
  induction cs using List.reverseRecOn with
  | nil => rfl
  | append_singleton cs c ih =>
    have hc := c.toNat_lt
    rw [List.length_append, List.length_singleton, List.range_succ, List.map_append, beNat_snoc]
    congr 1
    · calc (List.range cs.length).map _
          = (List.range cs.length).map
              (fun i => UInt8.ofNat (beNat cs / 256 ^ (cs.length - 1 - i) % 256)) := by
            refine List.map_congr_left fun i hi => ?_
            have hlt := List.mem_range.mp hi
            have hexp : cs.length + 1 - 1 - i = (cs.length - 1 - i) + 1 := by omega
            have hdiv : (beNat cs * 256 + c.toNat) / 256 = beNat cs := by omega
            rw [hexp, pow_succ, Nat.mul_comm (256 ^ _), ← Nat.div_div_eq_div_mul, hdiv]
        _ = cs := ih
    · simp only [List.map_singleton, Nat.add_sub_cancel, Nat.sub_self, pow_zero, Nat.div_one]
      have hmod : (beNat cs * 256 + c.toNat) % 256 = c.toNat := by omega
      rw [hmod, UInt8.ofNat_toNat]

/-! ## Packed names -/

/-- Bytes without a zero, as a C string has them. -/
def NoZero (cs : List UInt8) : Prop := ∀ c ∈ cs, c ≠ 0

theorem NoZero.take {cs : List UInt8} (h : NoZero cs) (n : Nat) : NoZero (cs.take n) :=
  fun c hc => h c (List.mem_of_mem_take hc)

theorem NoZero.drop {cs : List UInt8} (h : NoZero cs) (n : Nat) : NoZero (cs.drop n) :=
  fun c hc => h c (List.mem_of_mem_drop hc)

theorem auxPackString_eq (name : List UInt8) (start : Nat) :
    auxPackString name start = beNat (List.replicate start 0 ++ (name.take (8 - start) ++
      List.replicate (8 - (name.take (8 - start)).length - start) 0)) := by
  rw [beNat_zeros_append, beNat_append_zeros]
  rfl

theorem auxPackString_lt (name : List UInt8) : auxPackString name 1 < two56 := by
  have h : auxPackString name 1 = beNat (name.take 7 ++
      List.replicate (8 - (name.take 7).length - 1) 0) := by
    rw [beNat_append_zeros]
    rfl
  have hlt := beNat_lt (name.take 7 ++ List.replicate (8 - (name.take 7).length - 1) 0)
  have hlen : (name.take 7 ++ List.replicate (8 - (name.take 7).length - 1) (0 : UInt8)).length =
      7 := by
    simp
    omega
  rw [hlen] at hlt
  rw [h]
  exact hlt

theorem auxPackString_nil (start : Nat) : auxPackString [] start = 0 := by
  simp [auxPackString]

/-- **Packed characters come back.** -/
theorem auxUnpackString_pack {name : List UInt8} (hz : NoZero name) {start : Nat} (hs : start ≤ 8) :
    auxUnpackString (auxPackString name start) = name.take (8 - start) := by
  rw [auxPackString_eq]
  generalize hcs : name.take (8 - start) = cs
  have hnz : NoZero cs := hcs ▸ hz.take _
  have hlen : cs.length ≤ 8 - start := by
    rw [← hcs, List.length_take]
    omega
  obtain ⟨full, hfull⟩ : ∃ full, full = List.replicate start (0 : UInt8) ++ (cs ++
    List.replicate (8 - cs.length - start) 0) := ⟨_, rfl⟩
  have hdigits : (List.range 8).map (fun i => UInt8.ofNat (beNat full / 256 ^ (7 - i) % 256)) =
      full := by
    have hlen8 : full.length = 8 := by
      rw [hfull]
      simp
      omega
    have h := beNat_digits full
    rw [hlen8] at h
    exact h
  rw [← hfull, auxUnpackString, hdigits, hfull, List.filter_append, List.filter_append,
    List.filter_replicate_of_neg (by simp), List.filter_replicate_of_neg (by simp),
    List.filter_eq_self.mpr (fun c hc => by simpa using hnz c hc), List.nil_append, List.append_nil]

theorem auxPackString_ne_zero {name : List UInt8} (hz : NoZero name) (hne : name ≠ []) :
    auxPackString name 1 ≠ 0 := by
  intro h
  have hback := @auxUnpackString_pack _ hz 1 (by omega)
  rw [h, ← auxPackString_nil 0, @auxUnpackString_pack [] (fun _ h => nomatch h) _ (by omega)]
    at hback
  cases name with
  | nil => exact hne rfl
  | cons c cs => simp at hback

/-! ## Names and keys -/

/-- A name that a directory entry can have: not empty, of less than 256 characters. -/
structure ValidName (name : List UInt8) : Prop where
  nonempty : name ≠ []
  noZero : NoZero name
  short : name.length < 256

namespace Key

variable (plugs : NamePlugs) {name : List UInt8}

/-- The fibre leaves the low 57 bits alone. -/
theorem fibreBits_testBit {i : Nat} (hi : i < 57) : (fibreBits plugs name).testBit i = false := by
  have hpow : fibreBits plugs name = (plugs.fibre name).toNat * 2 ^ 57 % 2 ^ 64 := rfl
  rw [hpow, Nat.testBit_mod_two_pow, Nat.testBit_mul_two_pow]
  simp
  omega

theorem or_fibreBits_mod (x : Nat) : (x ||| fibreBits plugs name) % two56 = x % two56 := by
  have hzero : fibreBits plugs name % 2 ^ 56 = 0 := by
    refine Nat.eq_of_testBit_eq fun i => ?_
    rw [Nat.testBit_mod_two_pow, Nat.zero_testBit]
    by_cases hi : i < 56
    · rw [fibreBits_testBit plugs (by omega), Bool.and_false]
    · rw [decide_eq_false hi, Bool.false_and]
  show (x ||| fibreBits plugs name) % 2 ^ 56 = x % 2 ^ 56
  rw [Nat.or_mod_two_pow, hzero, Nat.or_zero]

/-- The bit of a hashed name. -/
theorem hashed_bit (x : Nat) : (x / hashedNameMask % 2 = 1) ↔ x.testBit 56 = true := by
  rw [Nat.testBit_eq_decide_div_mod_eq, decide_eq_true_eq]
  rfl

theorem pack_testBit (name : List UInt8) : (auxPackString name 1).testBit 56 = false :=
  Nat.testBit_lt_two_pow (auxPackString_lt name)

/-- The first part of a name in its element. -/
theorem pack_or_mod (hz : NoZero name) :
    auxUnpackString ((auxPackString name 1 ||| fibreBits plugs name) % two56) = name.take 7 := by
  rw [or_fibreBits_mod, Nat.mod_eq_of_lt (auxPackString_lt name)]
  exact auxUnpackString_pack hz (by omega)

theorem pack_or_ne_zero (hz : NoZero name) (hne : name ≠ []) :
    auxPackString name 1 ||| fibreBits plugs name ≠ 0 := by
  intro h
  have h56 := congrArg (· % two56) h
  simp only [or_fibreBits_mod, Nat.mod_eq_of_lt (auxPackString_lt name)] at h56
  exact auxPackString_ne_zero hz hne h56

/-- The longest name that fits a key. -/
def packedChars : KeyPol → Nat
  | .large => 23
  | .short => 15

theorem pack_drop_eq {name : List UInt8} {n : Nat} :
    (if name.length > n then auxPackString (name.drop n) 0 else 0) =
      auxPackString (name.drop n) 0 := by
  split
  · rfl
  · next h => rw [List.drop_eq_nil_of_le (by omega), auxPackString_nil]

/-- A name is stored beside its key exactly when it does not fit. -/
theorem hashed_buildHashed (pol : KeyPol) (oid : Nat) (name : List UInt8) :
    (buildHashed pol plugs oid name).hashed pol = decide (packedChars pol < name.length) := by
  rw [Bool.eq_iff_iff, decide_eq_true_iff]
  have hmask : hashedNameMask.testBit 56 = true := by decide
  have hfibre := @fibreBits_testBit plugs name 56 (by omega)
  have hpack := pack_testBit name
  cases pol with
  | large =>
    show decide ((largeBuildHash plugs name _).ordering / hashedNameMask % 2 = 1) = true ↔
      23 < name.length
    rw [decide_eq_true_iff, hashed_bit]
    unfold largeBuildHash
    by_cases hdot : name = [46]
    · rw [if_pos hdot, hdot]
      simp
    · rw [if_neg hdot]
      by_cases hlen : name.length ≤ 7 + 8 + 8
      · simp only [hlen, if_true, setOffset_ordering, setObjectid_ordering, Nat.testBit_or, hpack,
          hfibre]
        simp
        omega
      · simp only [hlen, if_false, setOffset_ordering, setObjectid_ordering, Nat.testBit_or, hpack,
          hfibre, hmask]
        simp
        omega
  | short =>
    show decide ((shortBuildHash plugs name _).el2 / hashedNameMask % 2 = 1) = true ↔
      15 < name.length
    rw [decide_eq_true_iff, hashed_bit]
    unfold shortBuildHash
    by_cases hdot : name = [46]
    · rw [if_pos hdot, hdot]
      simp
    · rw [if_neg hdot]
      by_cases hlen : name.length ≤ 7 + 8
      · simp only [hlen, if_true, Nat.testBit_or, hpack, hfibre]
        simp
        omega
      · simp only [hlen, if_false, Nat.testBit_or, hpack, hfibre, hmask]
        simp
        omega

/-- A name that fits its key comes back from it. -/
theorem getName_buildHashed (pol : KeyPol) (oid : Nat) {name : List UInt8} (hv : ValidName name)
    (hfits : name.length ≤ packedChars pol) :
    (buildHashed pol plugs oid name).getName pol = name := by
  have hne := pack_or_ne_zero plugs hv.noZero hv.nonempty
  have hfirst := pack_or_mod plugs hv.noZero
  have hunpack : ∀ n, auxUnpackString (auxPackString (name.drop n) 0) = (name.drop n).take 8 :=
    fun n => auxUnpackString_pack (hv.noZero.drop n) (by omega)
  cases pol with
  | large =>
    have hlen : name.length ≤ 7 + 8 + 8 := hfits
    show getName .large (largeBuildHash plugs name _) = name
    unfold largeBuildHash
    by_cases hdot : name = [46]
    · rw [if_pos hdot, hdot]
      rfl
    · simp only [if_neg hdot, if_pos hlen, pack_drop_eq]
      have hel2 : (setObjectid ⟨oid * 16 % two64 + filenameMinor,
          auxPackString name 1 ||| fibreBits plugs name, 0, 0⟩ (auxPackString (name.drop 7) 0)).el2 =
          auxPackString (name.drop 7) 0 := by
        simp [setObjectid]
      unfold getName
      simp only [setOffset_el2, setOffset_offset, setOffset_ordering, setObjectid_ordering, hel2, hne,
        and_false, if_false, hfirst, hunpack]
      have hrest : name.drop 15 = (name.drop 7).drop 8 := by rw [List.drop_drop]
      rw [List.append_assoc, hrest, List.take_of_length_le (l := (name.drop 7).drop 8)
        (by simp; omega), List.take_append_drop, List.take_append_drop]
  | short =>
    have hlen : name.length ≤ 7 + 8 := hfits
    show getName .short (shortBuildHash plugs name _) = name
    unfold shortBuildHash
    by_cases hdot : name = [46]
    · rw [if_pos hdot, hdot]
      rfl
    · simp only [if_neg hdot, if_pos hlen, pack_drop_eq]
      unfold getName
      simp only [hne, false_and, if_false, hfirst, hunpack]
      rw [List.take_of_length_le (i := 8) (by simp; omega), List.take_append_drop]

theorem buildHashed_el0 (pol : KeyPol) (oid : Nat) (name : List UInt8) :
    (buildHashed pol plugs oid name).el0 = oid * 16 % two64 + filenameMinor := by
  cases pol with
  | large =>
    show (largeBuildHash plugs name _).el0 = _
    unfold largeBuildHash
    split
    · rfl
    · dsimp only
      split <;> simp
  | short =>
    show (shortBuildHash plugs name _).el0 = _
    unfold shortBuildHash
    split
    · rfl
    · dsimp only
      split <;> rfl

end Key

/-! ## The new entry -/

/-- An entry as `cde40_insert_units` writes it. -/
def newEntry (pol : KeyPol) (hash : Key) (name : List UInt8) (object : Nat × Nat × Nat) : Entry where
  ordering := hash.ordering
  objectid := hash.el2
  offset := hash.offset
  object := object
  name := if hash.hashed pol then name else []

/-- The key of an entry is that of its name, in an item of its directory. -/
theorem hashKey_newEntry {pol : KeyPol} {hash key : Key} {name : List UInt8}
    {object : Nat × Nat × Nat} (hkey : key.getLocality * 16 + Key.filenameMinor = hash.el0) :
    Item.hashKey key (newEntry pol hash name object) = hash := by
  cases hash
  unfold Item.hashKey newEntry Key.buildFilename
  rw [hkey]

/-- **The name comes back** from the entry that is stored for it. -/
theorem nameIn_newEntry (pol : KeyPol) (plugs : Key.NamePlugs) (oid : Nat) {name : List UInt8}
    (hv : ValidName name) (key : Key) (object : Nat × Nat × Nat) :
    Item.nameIn pol key
      (newEntry pol (Key.buildHashed pol plugs oid name) name object) 256 = name := by
  have hhashed := Key.hashed_buildHashed plugs pol oid name
  have hget := Key.getName_buildHashed plugs pol oid hv
  generalize Key.buildHashed pol plugs oid name = hash at hhashed hget ⊢
  have hh : (Item.hashKey key (newEntry pol hash name object)).hashed pol = hash.hashed pol := by
    cases pol <;> rfl
  have hg : (Item.hashKey key (newEntry pol hash name object)).getName pol =
      hash.getName pol := by
    cases pol <;> rfl
  unfold Item.nameIn
  rw [hh, hg, hhashed]
  by_cases hlong : Key.packedChars pol < name.length
  · rw [if_pos (decide_eq_true hlong)]
    show (if hash.hashed pol then name else []).take 256 = name
    rw [hhashed, if_pos (decide_eq_true hlong), List.take_of_length_le (Nat.le_of_lt hv.short)]
  · rw [if_neg (by simpa using hlong)]
    exact hget (by omega)

end Reiser4
