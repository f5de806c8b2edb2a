/-
  What the key of a short name says about the name (`key_large_build_hash`, `key_short_build_hash`, `get_name`).

  A name that fits is spread over the elements of the key: 7 characters beside the fibre, then 8 and, in large
  keys, 8 more.  Each part is the big-endian number of its characters with zeros behind them; so nothing of the
  name is lost, and the elements compare like the names.

    1. `packString_eq`, `unpackString_padNat`   the two packing loops on one element;
    2. `buildHashed_eq`                        the elements of the key;
    3. `getName_build`                         reading the name back;
    4. `names_in_keys`                         the name, injectivity and order.
-/
import Reiser4.Lib.BigEndian
import Reiser4.Dir40.Name

namespace Reiser4.Key

open Reiser4.Lib

/-- The characters a key has room for: `ORDERING_CHARS + OBJECTID_CHARS + OFFSET_CHARS`, for short keys
    `OBJECTID_CHARS + OFFSET_CHARS`. -/
def nameChars : KeyPol → Nat
  | .large => 23
  | .short => 15

/-- A name that is stored in its key. -/
structure Stored (pol : KeyPol) (name : List UInt8) : Prop where
  ne_nil : name ≠ []
  no_zero : 0 ∉ name
  fits : name.length ≤ nameChars pol

/-! ## The packing loops -/

theorem foldl_padNat : ∀ (w : Nat) (cs : List UInt8) (v : Nat), cs.length ≤ w →
    cs.foldl (fun value c => value * 256 + c.toNat) v * 256 ^ (w - cs.length) = v * 256 ^ w + padNat w cs
  | w, [], v, _ => by rw [padNat_nil]; rfl
  | w + 1, c :: cs, v, h => by
    rw [List.foldl_cons, List.length_cons, Nat.add_sub_add_right,
      foldl_padNat w cs _ (Nat.le_of_succ_le_succ h), padNat]
    ring

theorem padNat_take : ∀ (w : Nat) (s : List UInt8), padNat w (s.take w) = padNat w s
  | 0, _ => rfl
  | w + 1, [] => rfl
  | w + 1, c :: s => by rw [List.take_succ_cons, padNat, padNat, padNat_take w s]

/-- `aux_pack_string` on one element. -/
theorem packString_eq {name : List UInt8} {start : Nat} :
    auxPackString name start = padNat (8 - start) name := by
  have hlen : (name.take (8 - start)).length ≤ 8 - start := List.length_take_le _ _
  unfold auxPackString
  dsimp only
  rw [show 8 - (name.take (8 - start)).length - start = 8 - start - (name.take (8 - start)).length by omega,
    foldl_padNat _ _ _ hlen, Nat.zero_mul, Nat.zero_add, padNat_take]

/-- `aux_unpack_string` of one element, with or without a place for the fibre. -/
theorem unpackString_padNat {name : List UInt8} (h : 0 ∉ name) :
    auxUnpackString (padNat 8 name) = name.take 8 ∧ auxUnpackString (padNat 7 name) = name.take 7 := by
  have hdigits : ∀ v, auxUnpackString v = (padDigits 8 v).filter (· ≠ 0) := fun v => rfl
  constructor
  · rw [hdigits, filter_padDigits h]
  · have hhigh : padNat 7 name / 256 ^ 7 = 0 := Nat.div_eq_of_lt (padNat_lt 7 name)
    rw [hdigits, padDigits, hhigh]
    exact filter_padDigits h

/-! ## The key of a name -/

section Keys

variable {pol : KeyPol} {plugs : NamePlugs} {objectid : Nat} {name : List UInt8}

/-- The fibre is above the 7 characters and the bit of hashed names. -/
theorem or_fibreBits : padNat 7 name ||| fibreBits plugs name =
    2 ^ 56 * ((plugs.fibre name).toNat % 128 * 2) + padNat 7 name := by
  have hfibre : fibreBits plugs name = 2 ^ 56 * ((plugs.fibre name).toNat % 128 * 2) := by
    unfold fibreBits two56 two64
    omega
  rw [hfibre, Nat.two_pow_add_eq_or_of_lt (i := 56) (padNat_lt 7 name), Nat.or_comm]

/-- The first element of the name: the fibre and 7 characters. -/
def firstElement (plugs : NamePlugs) (name : List UInt8) : Nat :=
  2 ^ 56 * ((plugs.fibre name).toNat % 128 * 2) + padNat 7 name

/-- A part of the name that is not there is packed as 0. -/
theorem pack_rest (k : Nat) : (if name.length > k then auxPackString (name.drop k) 0 else 0) =
    padNat 8 (name.drop k) := by
  by_cases h : name.length > k
  · rw [if_pos h, packString_eq]
  · rw [if_neg h, List.drop_eq_nil_of_le (by omega), padNat_nil]

/-- **The elements of the key** of a name other than dot. -/
theorem buildHashed_eq (hs : Stored pol name) (hdot : name ≠ [46]) :
    buildHashed pol plugs objectid name = match pol with
      | .large => ⟨objectid * 16 % two64 + filenameMinor, firstElement plugs name, padNat 8 (name.drop 7),
          padNat 8 (name.drop 15)⟩
      | .short => ⟨objectid * 16 % two64 + filenameMinor, 0, firstElement plugs name, padNat 8 (name.drop 7)⟩ := by
  have hfits := hs.fits
  have hfirst : auxPackString name 1 ||| fibreBits plugs name = firstElement plugs name := by
    rw [packString_eq]
    exact or_fibreBits
  cases pol with
  | large =>
    show largeBuildHash plugs name _ = _
    unfold largeBuildHash
    rw [if_neg hdot]
    dsimp only
    rw [if_pos (show name.length ≤ 7 + 8 + 8 from hfits), pack_rest, pack_rest, hfirst]
    unfold setOffset setObjectid
    dsimp only
    rw [Nat.zero_div, Nat.zero_mul, Nat.zero_or]
  | short =>
    show shortBuildHash plugs name _ = _
    unfold shortBuildHash
    rw [if_neg hdot]
    dsimp only
    rw [if_pos (show name.length ≤ 7 + 8 from hfits), pack_rest, hfirst]

theorem firstElement_mod : firstElement plugs name % two56 = padNat 7 name := by
  have hlt : padNat 7 name < two56 := padNat_lt 7 name
  unfold firstElement
  rw [show (2 : Nat) ^ 56 = two56 from rfl, Nat.mul_add_mod, Nat.mod_eq_of_lt hlt]

theorem firstElement_not_hashed : firstElement plugs name / hashedNameMask % 2 = 0 := by
  have hlt : padNat 7 name < two56 := padNat_lt 7 name
  unfold firstElement hashedNameMask
  unfold two56 at hlt ⊢
  omega

theorem firstElement_ne_zero (hs : Stored pol name) : firstElement plugs name ≠ 0 := by
  have hpos : padNat 7 [] < padNat 7 name := by
    match name, hs.ne_nil, hs.no_zero with
    | c :: s, _, hz =>
      have hc : 0 < c.toNat := by
        refine Nat.pos_of_ne_zero fun h0 => hz ?_
        rw [show c = 0 from UInt8.toNat_inj.mp h0]
        exact List.mem_cons_self
      rw [padNat_nil, padNat]
      exact Nat.add_pos_left (Nat.mul_pos hc (Nat.pow_pos (by decide))) _
  unfold firstElement
  omega

/-- **The name is read back from its key**, which is not that of a hashed name. -/
theorem getName_build (hs : Stored pol name) : hashed pol (buildHashed pol plugs objectid name) = false ∧
    getName pol (buildHashed pol plugs objectid name) = name := by
  by_cases hdot : name = [46]
  · have hkey : buildHashed pol plugs objectid name = ⟨objectid * 16 % two64 + filenameMinor, 0, 0, 0⟩ := by
      rw [hdot]
      cases pol with
      | large =>
        show largeBuildHash plugs [46] _ = _
        rw [largeBuildHash, if_pos rfl]
      | short =>
        show shortBuildHash plugs [46] _ = _
        rw [shortBuildHash, if_pos rfl]
    rw [hkey, hdot]
    cases pol with
    | large =>
      refine ⟨decide_eq_false (show ¬ 0 / hashedNameMask % 2 = 1 by decide), ?_⟩
      rw [getName, if_pos (And.intro rfl (And.intro rfl rfl))]
    | short =>
      refine ⟨decide_eq_false (show ¬ 0 / hashedNameMask % 2 = 1 by decide), ?_⟩
      rw [getName, if_pos (And.intro rfl rfl)]
  rw [buildHashed_eq hs hdot]
  have hfits := hs.fits
  have hzero : ∀ k, 0 ∉ name.drop k := fun k hmem => hs.no_zero (List.mem_of_mem_drop hmem)
  have hne := @firstElement_ne_zero pol plugs name hs
  have hlast : ∀ k, name.length ≤ k + 8 → (name.drop k).take 8 = name.drop k := fun k hk =>
    List.take_of_length_le (by rw [List.length_drop]; omega)
  cases pol with
  | large =>
    refine ⟨decide_eq_false ?_, ?_⟩
    · dsimp only
      rw [firstElement_not_hashed]
      decide
    · rw [getName, if_neg (fun h => hne h.2.2), firstElement_mod, (unpackString_padNat hs.no_zero).2,
        (unpackString_padNat (hzero 7)).1, (unpackString_padNat (hzero 15)).1, hlast 15 hfits, List.append_assoc,
        show name.drop 15 = (name.drop 7).drop 8 by rw [List.drop_drop], List.take_append_drop,
        List.take_append_drop]
  | short =>
    refine ⟨decide_eq_false ?_, ?_⟩
    · dsimp only
      rw [firstElement_not_hashed]
      decide
    · rw [getName, if_neg (fun h => hne h.1), firstElement_mod, (unpackString_padNat hs.no_zero).2,
        (unpackString_padNat (hzero 7)).1, hlast 7 hfits, List.take_append_drop]

/-- The keys of names with one fibre are in the order of the names. -/
theorem build_lt_iff {name' : List UInt8} (hs : Stored pol name) (hs' : Stored pol name') (hdot : name ≠ [46])
    (hdot' : name' ≠ [46]) (hfibre : plugs.fibre name = plugs.fibre name') :
    buildHashed pol plugs objectid name < buildHashed pol plugs objectid name' ↔ name < name' := by
  have hfirst : firstElement plugs name' = 2 ^ 56 * ((plugs.fibre name).toNat % 128 * 2) + padNat 7 name' := by
    rw [hfibre]
    rfl
  have hwhole := fun (s : List UInt8) => padNat_append 16 7 s
  have hrest := fun (s : List UInt8) => padNat_append 8 8 (s.drop 7)
  have hlt := fun (s : List UInt8) => padNat_lt 8 s
  rw [buildHashed_eq hs hdot, buildHashed_eq hs' hdot', lt_iff]
  cases pol with
  | large =>
    rw [← padNat_lt_iff hs.no_zero hs'.no_zero hs.fits hs'.fits]
    show _ ∨ _ ↔ padNat (7 + 16) name < padNat (7 + 16) name'
    have h1 := hlt (name.drop 7)
    have h2 := hlt (name'.drop 7)
    have h3 := hlt (name.drop 15)
    have h4 := hlt (name'.drop 15)
    rw [hwhole, hwhole, hrest, hrest, List.drop_drop, List.drop_drop]
    dsimp only
    rw [hfirst, show firstElement plugs name = 2 ^ 56 * ((plugs.fibre name).toNat % 128 * 2) + padNat 7 name from rfl]
    norm_num at h1 h2 h3 h4 ⊢
    omega
  | short =>
    rw [← padNat_lt_iff hs.no_zero hs'.no_zero hs.fits hs'.fits]
    show _ ∨ _ ↔ padNat (7 + 8) name < padNat (7 + 8) name'
    have h1 := hlt (name.drop 7)
    have h2 := hlt (name'.drop 7)
    rw [padNat_append, padNat_append]
    dsimp only
    rw [hfirst, show firstElement plugs name = 2 ^ 56 * ((plugs.fibre name).toNat % 128 * 2) + padNat 7 name from rfl]
    norm_num at h1 h2 ⊢
    omega

end Keys

/-- **Names in keys**: a name that fits is read back from its key, equal keys have equal names, and under a fibre
    that does not look at the name the keys compare as the names do. -/
theorem names_in_keys (pol : KeyPol) (plugs : NamePlugs) (objectid objectid' : Nat) {name name' : List UInt8}
    (hs : Stored pol name) (hs' : Stored pol name') :
    (hashed pol (buildHashed pol plugs objectid name) = false ∧
      getName pol (buildHashed pol plugs objectid name) = name) ∧
    (buildHashed pol plugs objectid name = buildHashed pol plugs objectid' name' → name = name') ∧
    ((∀ n m, plugs.fibre n = plugs.fibre m) → name ≠ [46] → name' ≠ [46] →
      compfull (buildHashed pol plugs objectid name) (buildHashed pol plugs objectid name') =
        if name < name' then -1 else if name = name' then 0 else 1) := by
  have hread := @getName_build pol plugs objectid name hs
  refine ⟨hread, fun heq => ?_, fun hfibre hdot hdot' => ?_⟩
  · rw [← hread.2, heq]
    exact (getName_build hs').2
  · have hinj : buildHashed pol plugs objectid name = buildHashed pol plugs objectid name' ↔ name = name' := by
      constructor
      · intro heq
        rw [← hread.2, heq]
        exact (getName_build hs').2
      · rintro rfl
        rfl
    simp only [compfull_eq, build_lt_iff hs hs' hdot hdot' (hfibre _ _), hinj]

/-- "reiser4progs.spec". -/
def specName : List UInt8 := [114, 101, 105, 115, 101, 114, 52, 112, 114, 111, 103, 115, 46, 115, 112, 101, 99]

/-- The name in a large key, and "reiser4progs" in a short one beside "reiser4". -/
theorem names_in_keys_sample :
    ((hashed .large (buildHashed .large ⟨fun _ => 0, fun _ => 0⟩ 42 specName) = false ∧
      getName .large (buildHashed .large ⟨fun _ => 0, fun _ => 0⟩ 42 specName) = specName) ∧
    compfull (buildHashed .large ⟨fun _ => 0, fun _ => 0⟩ 42 specName)
      (buildHashed .large ⟨fun _ => 0, fun _ => 0⟩ 42 (specName.take 12)) = 1) ∧
    (hashed .short (buildHashed .short ⟨fun _ => 0, fun _ => 0⟩ 42 (specName.take 12)) = false ∧
      getName .short (buildHashed .short ⟨fun _ => 0, fun _ => 0⟩ 42 (specName.take 12)) = specName.take 12) ∧
    (buildHashed .short ⟨fun _ => 0, fun _ => 0⟩ 42 (specName.take 12) =
      buildHashed .short ⟨fun _ => 0, fun _ => 0⟩ 43 (specName.take 7) → specName.take 12 = specName.take 7) := by
  obtain ⟨hlarge, -, horder⟩ := @names_in_keys .large ⟨fun _ => 0, fun _ => 0⟩ 42 43 specName (specName.take 12)
    ⟨by decide, by decide, by decide⟩ ⟨by decide, by decide, by decide⟩
  obtain ⟨hshort, hinj, -⟩ := @names_in_keys .short ⟨fun _ => 0, fun _ => 0⟩ 42 43 (specName.take 12)
    (specName.take 7) ⟨by decide, by decide, by decide⟩ ⟨by decide, by decide, by decide⟩
  refine ⟨⟨hlarge, ?_⟩, hshort, hinj⟩
  rw [horder (fun _ _ => rfl) (by decide) (by decide)]
  decide

end Reiser4.Key
