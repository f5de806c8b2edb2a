/-
  The check of a stat data item (`stat40.c`, `stat40_repair.c`, the `sdext_*_repair.c`).

  The item is a 16-bit mask, the extensions that the mask names in the order of their ids, and, when bit 15 of the
  mask is set, a further mask with its extensions.  All registered extensions have an id below 15, so a further
  mask names nothing.  The length of an extension is fixed, or read from its own bytes, or, for the crypto
  extension, given by what the plugin set in front of it says.

  The check goes over the item, asks every extension and sums up the lengths; a plugin set that lost slots is
  shortened on the way.  What the item has behind the sum is reported to be cut, and the mask is set to the
  extensions that were met.  Three things escape it:

    * the crypto extension is not asked, and nobody asks whether the mask itself is inside the item;
    * a further mask is in the sum, but when bit 15 is taken out of the mask in front of it nobody looks for it;
    * a plugin set that was shortened is not asked again, and the bits of its slots have moved.

  The lookup of a plugin is a parameter, as in the check of a plugin set.

    1. `traverse_eq`         the walk over an item: the mask, the extensions, the further masks;
    2. `walk_spec`           the crux: what the checks of the extensions leave is laid out as they say;
    3. `checkStruct_spec`    what a successful check leaves;
    4. `stat40CheckStruct_iff`   when this is an item that the next check accepts as it is.
-/
import Reiser4.Stat40.PlugSet

namespace Reiser4.Stat40

open Reiser4.Lib Reiser4.Repair

/-! ## The extensions -/

/-- The registered extension plugins. -/
inductive Sdext
  | lw | unix | lt | symlink | pset | flags | crypto | hset
  deriving DecidableEq, Repr

/-- `SDEXT_LW_ID` and the others. -/
def Sdext.id : Sdext → Nat
  | .lw => 0
  | .unix => 1
  | .lt => 2
  | .symlink => 3
  | .pset => 4
  | .flags => 5
  | .crypto => 7
  | .hset => 8

/-- `factory_ops.ifind(SDEXT_PLUG_TYPE, id)`: there is no plugin for `SDEXT_CAPS_ID`. -/
def ifind : Nat → Option Sdext
  | 0 => some .lw
  | 1 => some .unix
  | 2 => some .lt
  | 3 => some .symlink
  | 4 => some .pset
  | 5 => some .flags
  | 7 => some .crypto
  | 8 => some .hset
  | _ => none

/-- `STAT40_EXTNR` and `sizeof(stat40_t)`. -/
def stat40Extnr : Nat := 64
def stat40Size : Nat := 2

/-- `st40_get_extmask` and `st40_set_extmask` at an offset. -/
def getExtmask (b : Bytes) (o : Nat) : Nat := b.getLe 2 o
def setExtmask (b : Bytes) (o v : Nat) : Bytes := b.setLe 2 o v

/-- The pointer as the number that `reiser4_keysign_size` shifts by. -/
def PlugRef.addr : PlugRef → Nat
  | .null => 0
  | .inval => 2 ^ 64 - 1
  | .param v => v
  | .plug ptr => ptr

/-- `reiser4_keysign_size`, stored in 16 bits.  The processor takes the shift count modulo 32. -/
def reiser4KeysignSize (digest : PlugRef) : Nat := 4 * 2 ^ (digest.addr % 32) % 2 ^ 16

/-- Where a walk is in an item: the offset, and `info.digest`. -/
structure StatEntity where
  offset : Nat
  digest : PlugRef
  deriving DecidableEq, Repr

section Program

variable (find : Nat → Nat → Bool → PlugRef) (placeLen : Nat)

/-- `aal_strlen`.  It is asked of a string whose zero byte the check has seen in the item, so it looks there. -/
def aalStrlen (b : Bytes) (o : Nat) : Nat := (b.cstr (placeLen - o) o).length

/-- `sdext_crypto_length`. -/
def sdextCryptoLength (digest : PlugRef) : Nat := if digest = .inval then 0 else 2 + reiser4KeysignSize digest

/-- The `length` method without a hint. -/
def Sdext.length (p : Sdext) (b : Bytes) (s : StatEntity) : Nat :=
  match p with
  | .lw => 14
  | .unix => 28
  | .lt => 12
  | .symlink => aalStrlen placeLen b s.offset + 1
  | .pset => sdextPlugLength b s.offset
  | .flags => 4
  | .crypto => sdextCryptoLength s.digest
  | .hset => sdextPlugLength b s.offset

/-- The loop of `sdext_plug_info`: `n` slots from `i` on.  It compares the member with `SDEXT_PSET_ID`. -/
def plugInfoLoop (b : Bytes) (o : Nat) : Nat → Nat → PlugRef
  | 0, _ => .null
  | n + 1, i =>
    if getMember b o i ≠ Sdext.pset.id then plugInfoLoop b o n (i + 1)
    else if find (getMember b o i) (getPid b o i) true = .inval then .null
    else find (getMember b o i) (getPid b o i) true

/-- The `info` method; those of the other extensions leave the digest alone. -/
def Sdext.info (p : Sdext) (b : Bytes) (s : StatEntity) : StatEntity :=
  match p with
  | .pset => { s with digest := plugInfoLoop find b s.offset (getCount b s.offset) 0 }
  | .hset => { s with digest := .null }
  | _ => s

/-- `sdext_lw_check_struct`, `sdext_unix_check_struct`, `sdext_lt_check_struct` and `sdext_flags_check_struct`, for
    an extension of so many bytes.  Here and below no result is `RE_FATAL`, and a result comes with the length in
    the repair hint. -/
def fixedCheckStruct (size : Nat) (b : Bytes) (s : StatEntity) : Option (Bytes × Nat) :=
  if placeLen < s.offset + size then none else some (b, 0)

/-- `sdext_symlink_check_struct`: the source goes on to a zero byte behind the item, with the same answer. -/
def symlinkCheckStruct (b : Bytes) (s : StatEntity) : Option (Bytes × Nat) :=
  if placeLen ≤ s.offset + (b.cstr (placeLen - s.offset) s.offset).length then none else some (b, 0)

/-- The `check_struct` method.  The crypto extension has none registered. -/
def Sdext.checkStruct (mode : Mode) (p : Sdext) (b : Bytes) (s : StatEntity) : Option (Bytes × Nat) :=
  match p with
  | .lw => fixedCheckStruct placeLen 14 b s
  | .unix => fixedCheckStruct placeLen 28 b s
  | .lt => fixedCheckStruct placeLen 12 b s
  | .symlink => symlinkCheckStruct placeLen b s
  | .pset => sdextPlugCheckStruct find true mode b s.offset placeLen 0
  | .flags => fixedCheckStruct placeLen 4 b s
  | .crypto => some (b, 0)
  | .hset => sdextPlugCheckStruct find false mode b s.offset placeLen 0

/-! ## The walk over an item -/

section Traverse

variable {α : Type}

/-- `ext_func_t`: the item, where the walk is, `stat->plug` (none at a mask), the mask, and the callback's data. -/
abbrev ExtFunc (α : Type) : Type := Bytes → StatEntity → Option Sdext → Nat → α → Except RepairError (Bytes × α)

/-- `extmask << (chunks * 16)`: a shift of an `int`, widened to 64 bits. -/
def shiftExtmask (extmask chunks : Nat) : Nat :=
  ((BitVec.ofNat 32 extmask <<< (chunks * 16 % 32)).signExtend 64).toNat

variable (extFunc : ExtFunc α)

/-- The second half of a round of `stat40_traverse`: the extension with number `i`. -/
def traverseExt (i extmask chunks : Nat) (s : StatEntity) (b : Bytes) (a : α) :
    Except RepairError (StatEntity × Bytes × α) :=
  if extmask.testBit (i - (chunks - 1) * 16) = false then .ok (s, b, a)
  else
    match ifind i with
    | none => .ok (s, b, a)
    | some p =>
      match extFunc b s (some p) extmask a with
      | .error e => .error e
      | .ok (b, a) =>
        let s := p.info find b s
        .ok ({ s with offset := s.offset + p.length placeLen b s }, b, a)

/-- The loop of `stat40_traverse`: `n` rounds from `i` on. -/
def traverseLoop : Nat → Nat → Nat → Nat → StatEntity → Bytes → α → Except RepairError (Bytes × α)
  | 0, _, _, _, _, b, a => .ok (b, a)
  | n + 1, i, extmask, chunks, s, b, a =>
    if i = 0 ∨ (i + 1) % 16 = 0 then
      if 0 < i ∧ (extmask.testBit 15 = false ∨ i + 1 = stat40Extnr) then .ok (b, a)
      else
        let extmask := getExtmask b s.offset
        match extFunc b s none (shiftExtmask extmask chunks) a with
        | .error e => .error e
        | .ok (b, a) =>
          let s := { s with offset := s.offset + stat40Size }
          if 0 < i then traverseLoop n (i + 1) extmask (chunks + 1) s b a
          else
            match traverseExt find placeLen extFunc i extmask (chunks + 1) s b a with
            | .error e => .error e
            | .ok (s, b, a) => traverseLoop n (i + 1) extmask (chunks + 1) s b a
    else
      match traverseExt find placeLen extFunc i extmask chunks s b a with
      | .error e => .error e
      | .ok (s, b, a) => traverseLoop n (i + 1) extmask chunks s b a

/-- `stat40_traverse`. -/
def stat40Traverse (b : Bytes) (a : α) : Except RepairError (Bytes × α) :=
  traverseLoop find placeLen extFunc stat40Extnr 0 0 0 ⟨0, .null⟩ b a

end Traverse

/-! ## The check -/

/-- `repair_stat_hint_t`. -/
structure RepairStatHint where
  extmask : Nat
  goodmask : Nat
  len : Nat
  deriving DecidableEq, Repr

/-- The bits in the mask for an extension that was found. -/
def addGood (good : Nat) (p : Sdext) : Nat :=
  let good := good ||| 2 ^ p.id
  let chunk := p.id / 16
  if 0 < chunk then good ||| 2 ^ (chunk * 16 - 1) else good

/-- The item without the bytes an extension lost: `removed` bytes behind its `len` are closed. -/
def closeGap (b : Bytes) (o len removed : Nat) : Bytes :=
  if removed = 0 then b
  else b.move (o + len) (o + (len + removed)) (placeLen - o - (len + removed))

/-- `cb_check_ext`. -/
def cbCheckExt (mode : Mode) : ExtFunc RepairStatHint := fun b s plug extmask hint =>
  match plug with
  | none => .ok (b, { hint with extmask := hint.extmask ||| extmask, len := hint.len + stat40Size })
  | some p =>
    let goodmask := addGood hint.goodmask p
    match p.checkStruct find placeLen mode b s with
    | none => .error .fatal
    | some (b, removed) =>
      let len := p.length placeLen b s
      .ok (closeGap placeLen b s.offset len removed, { hint with goodmask := goodmask, len := hint.len + len })

/-- `cb_fix_mask`. -/
def cbFixMask : ExtFunc Nat := fun b s plug _ mask =>
  match plug with
  | some _ => .ok (b, mask)
  | none => .ok (setExtmask b s.offset (mask % 2 ^ 16), mask / 2 ^ 16)

/-- `stat40_check_struct`: the item and the length in the repair hint. -/
def stat40CheckStruct (mode : Mode) (b : Bytes) : Except RepairError (Bytes × Nat) :=
  match stat40Traverse find placeLen (cbCheckExt find placeLen mode) b ⟨0, 0, 0⟩ with
  | .error _ => .error .fatal
  | .ok (b, stat) =>
    if stat.len < placeLen ∧ mode ≠ .build then .error .fatal
    else
      let hintLen := if stat.len < placeLen then placeLen - stat.len else 0
      if stat.extmask = stat.goodmask then .ok (b, hintLen)
      else if mode = .check then .error .fixable
      else
        match stat40Traverse find placeLen cbFixMask b stat.goodmask with
        | .error e => .error e
        | .ok (b, _) => .ok (b, hintLen)

end Program

/-! ## Specification -/

section Specification

variable (find : Nat → Nat → Bool → PlugRef) (placeLen : Nat)

/-- A callback that notes the masks and the extensions of an item, with offset and length. -/
def cbPieces : ExtFunc (List (Nat × Nat)) := fun b s plug _ pieces =>
  match plug with
  | none => .ok (b, pieces ++ [(s.offset, stat40Size)])
  | some p => .ok (b, pieces ++ [(s.offset, p.length placeLen b s)])

/-- The masks and the extensions of an item. -/
def pieces (b : Bytes) : List (Nat × Nat) :=
  match stat40Traverse find placeLen (cbPieces placeLen) b [] with
  | .error _ => []
  | .ok (_, l) => l

/-- The item consists of its masks and the extensions that they name. -/
structure Consists (b : Bytes) : Prop where
  sum : ((pieces find placeLen b).map Prod.snd).sum = placeLen
  inside : ∀ x ∈ pieces find placeLen b, x.1 + x.2 ≤ placeLen

/-- **A sound check**: where it succeeds in build mode, the item cut by the length it reports, whatever comes to
    stand behind it, consists of its masks and their extensions, and another check, in any mode, leaves it as it
    is. -/
def CheckSound (b : Bytes) : Prop :=
  ∀ b' n, stat40CheckStruct find placeLen .build b = .ok (b', n) →
    ∀ c : Bytes, (∀ i < placeLen - n, c i = b' i) →
      Consists find (placeLen - n) c ∧ ∀ mode, stat40CheckStruct find (placeLen - n) mode c = .ok (c, 0)

/-- The registered extensions that a mask names. -/
def named (mask : Nat) : List Sdext := (List.range 15).filterMap fun i => if mask.testBit i then ifind i else none

/-- `is_pset` of an extension that is a set of plugins. -/
def Sdext.setKind : Sdext → Option Bool
  | .pset => some true
  | .hset => some false
  | _ => none

/-- Where a walk goes on behind an extension. -/
def Sdext.next (p : Sdext) (b : Bytes) (s : StatEntity) : StatEntity :=
  { p.info find b s with offset := (p.info find b s).offset + p.length placeLen b (p.info find b s) }

/-- An extension checked: where the next one is, and the item. -/
def passExt (mode : Mode) (p : Sdext) (s : StatEntity) (b : Bytes) : Option (StatEntity × Bytes) :=
  (p.checkStruct find placeLen mode b s).map fun r =>
    let b' := closeGap placeLen r.1 s.offset (p.length placeLen r.1 s) r.2
    (p.next find placeLen b' s, b')

/-- The extensions of an item checked one behind the other. -/
def walk (mode : Mode) : List Sdext → StatEntity → Bytes → Option (StatEntity × Bytes)
  | [], s, b => some (s, b)
  | p :: ps, s, b =>
    match passExt find placeLen mode p s b with
    | none => none
    | some (s, b) => walk mode ps s b

/-- Each slot that a plugin set keeps has a member that is no less than its new number. -/
def Stable : List Sdext → StatEntity → Bytes → Prop
  | [], _, _ => True
  | p :: ps, s, b =>
    (∀ isPset, p.setKind = some isPset →
        ∀ (j : Nat) (slot : Nat × Nat), (kept find isPset b s.offset)[j]? = some slot → j ≤ slot.1) ∧
      ∀ s' b', passExt find placeLen .build p s b = some (s', b') → Stable ps s' b'

end Specification

/-! ## The walk over an item -/

section Walk

variable {find : Nat → Nat → Bool → PlugRef} {placeLen : Nat} {α : Type} {extFunc : ExtFunc α}

/-- The extensions with these numbers, of the first mask. -/
def traverseExts (find : Nat → Nat → Bool → PlugRef) (placeLen : Nat) (extFunc : ExtFunc α) (mask : Nat) :
    List Nat → StatEntity → Bytes → α → Except RepairError (StatEntity × Bytes × α)
  | [], s, b, a => .ok (s, b, a)
  | i :: is, s, b, a =>
    match traverseExt find placeLen extFunc i mask 1 s b a with
    | .error e => .error e
    | .ok (s, b, a) => traverseExts find placeLen extFunc mask is s b a

/-- The rounds up to the place of a further mask. -/
theorem traverseLoop_exts {mask : Nat} : ∀ (k i : Nat) (s : StatEntity) (b : Bytes) (a : α), 0 < i → i + k = 15 →
    traverseLoop find placeLen extFunc (49 + k) i mask 1 s b a =
      match traverseExts find placeLen extFunc mask (List.range' i k) s b a with
      | .error e => .error e
      | .ok (s, b, a) => traverseLoop find placeLen extFunc 49 15 mask 1 s b a
  | 0, i, s, b, a, _, hik => by
    rw [show i = 15 by omega]
    rfl
  | k + 1, i, s, b, a, hi, hik => by
    have hround : ¬ (i = 0 ∨ (i + 1) % 16 = 0) := by omega
    rw [← Nat.add_assoc, traverseLoop, if_neg hround, List.range'_succ, traverseExts]
    cases traverseExt find placeLen extFunc i mask 1 s b a with
    | error e => rfl
    | ok r => exact traverseLoop_exts k (i + 1) r.1 r.2.1 r.2.2 (Nat.succ_pos i) (by omega)

/-- **The walk over an item**: the mask, its extensions, and what a further mask brings. -/
theorem traverse_eq (b : Bytes) (a : α) : stat40Traverse find placeLen extFunc b a =
    match extFunc b ⟨0, .null⟩ none (shiftExtmask (getExtmask b 0) 0) a with
    | .error e => .error e
    | .ok (b', a) =>
      match traverseExts find placeLen extFunc (getExtmask b 0) (List.range 15) ⟨2, .null⟩ b' a with
      | .error e => .error e
      | .ok (s, b', a) => traverseLoop find placeLen extFunc 49 15 (getExtmask b 0) 1 s b' a := by
  show traverseLoop find placeLen extFunc (63 + 1) 0 0 0 ⟨0, .null⟩ b a = _
  rw [traverseLoop, if_pos (Or.inl rfl), if_neg (by omega)]
  dsimp only
  cases extFunc b ⟨0, .null⟩ none (shiftExtmask (getExtmask b 0) 0) a with
  | error e => rfl
  | ok r =>
    dsimp only
    rw [if_neg (Nat.lt_irrefl 0), List.range_eq_range', List.range'_succ, traverseExts]
    show (match traverseExt find placeLen extFunc 0 (getExtmask b 0) 1 ⟨2, .null⟩ r.1 r.2 with
      | .error e => Except.error e
      | .ok (s, b', a) => traverseLoop find placeLen extFunc (49 + 14) 1 (getExtmask b 0) 1 s b' a) = _
    cases traverseExt find placeLen extFunc 0 (getExtmask b 0) 1 ⟨2, .null⟩ r.1 r.2 with
    | error e => rfl
    | ok r => exact traverseLoop_exts 14 1 r.1 r.2.1 r.2.2 (by omega) rfl

theorem ifind_none {i : Nat} (h : 15 ≤ i) : ifind i = none := by
  unfold ifind
  split <;> first | omega | rfl

/-- Without a further mask the walk ends there. -/
theorem traverseLoop_last {mask : Nat} (h : mask.testBit 15 = false) (s : StatEntity) (b : Bytes) (a : α) :
    traverseLoop find placeLen extFunc 49 15 mask 1 s b a = .ok (b, a) := by
  rw [traverseLoop, if_pos (Or.inr rfl), if_pos ⟨by omega, Or.inl h⟩]

/-- Further masks name no extension: what their callback preserves is preserved. -/
theorem traverseLoop_masks {P : Bytes → α → Prop} {o : Nat}
    (hcb : ∀ b s m a, o ≤ s.offset → P b a → ∃ b' a', extFunc b s none m a = .ok (b', a') ∧ P b' a') :
    ∀ (n i mask chunks : Nat) (s : StatEntity) (b : Bytes) (a : α), 15 ≤ i → o ≤ s.offset → P b a →
      ∃ b' a', traverseLoop find placeLen extFunc n i mask chunks s b a = .ok (b', a') ∧ P b' a'
  | 0, _, _, _, _, b, a, _, _, hP => ⟨b, a, rfl, hP⟩
  | n + 1, i, mask, chunks, s, b, a, hi, ho, hP => by
    have hext : ∀ chunks, traverseExt find placeLen extFunc i mask chunks s b a = .ok (s, b, a) := by
      intro chunks
      rw [traverseExt, ifind_none hi]
      split <;> rfl
    rw [traverseLoop]
    by_cases hround : i = 0 ∨ (i + 1) % 16 = 0
    · rw [if_pos hround]
      by_cases hlast : 0 < i ∧ (mask.testBit 15 = false ∨ i + 1 = stat40Extnr)
      · rw [if_pos hlast]
        exact ⟨b, a, rfl, hP⟩
      · obtain ⟨b', a', hrun, hP'⟩ := hcb b s (shiftExtmask (getExtmask b s.offset) chunks) a ho hP
        rw [if_neg hlast]
        dsimp only
        rw [hrun]
        dsimp only
        rw [if_pos (by omega)]
        exact traverseLoop_masks hcb n (i + 1) _ _ _ b' a' (by omega) (Nat.le_add_right_of_le ho) hP'
    · rw [if_neg hround, hext]
      exact traverseLoop_masks hcb n (i + 1) mask chunks s b a (by omega) ho hP

/-- A further mask is read first. -/
theorem traverseLoop_further {mask : Nat} (h : mask.testBit 15 = true) (s : StatEntity) (b : Bytes) (a : α) :
    traverseLoop find placeLen extFunc (48 + 1) 15 mask 1 s b a =
      match extFunc b s none (shiftExtmask (getExtmask b s.offset) 1) a with
      | .error e => .error e
      | .ok (b', a) => traverseLoop find placeLen extFunc 48 (15 + 1) (getExtmask b s.offset) (1 + 1)
          { s with offset := s.offset + stat40Size } b' a := by
  rw [traverseLoop, if_pos (Or.inr rfl), if_neg (by rw [h]; decide)]
  dsimp only
  cases extFunc b s none (shiftExtmask (getExtmask b s.offset) 1) a with
  | error e => rfl
  | ok r =>
    dsimp only
    rw [if_pos (by omega)]

end Walk

/-! ## One extension -/

section Extension

variable {find : Nat → Nat → Bool → PlugRef} {len len' o : Nat} {isPset : Bool} {b c : Bytes} {s : StatEntity}
  {p : Sdext} {mode : Mode}

theorem Sdext.info_offset : (p.info find b s).offset = s.offset := by
  cases p <;> rfl

theorem Sdext.length_info : p.length len b (p.info find b s) = p.length len b s := by
  cases p <;> rfl

theorem Sdext.next_offset : (p.next find len b s).offset = s.offset + p.length len b s := by
  unfold next
  rw [info_offset, length_info]

/-- A set of plugins that is in the item, has a slot, and only valid ones. -/
structure ProperSet (find : Nat → Nat → Bool → PlugRef) (isPset : Bool) (len : Nat) (b : Bytes) (o : Nat) : Prop where
  pos : 0 < getCount b o
  count_le : getCount b o ≤ psetStoreLast
  inside : o + plugSize + slotSize * getCount b o ≤ len
  valid : ∀ i < getCount b o, valid find isPset (slotAt b (o + plugSize) i) = true

/-- What the check asks of an extension. -/
def Sdext.Proper (find : Nat → Nat → Bool → PlugRef) (len : Nat) (p : Sdext) (b : Bytes) (s : StatEntity) : Prop :=
  match p with
  | .lw => s.offset + 14 ≤ len
  | .unix => s.offset + 28 ≤ len
  | .lt => s.offset + 12 ≤ len
  | .symlink => s.offset + aalStrlen len b s.offset < len
  | .pset => ProperSet find true len b s.offset
  | .flags => s.offset + 4 ≤ len
  | .crypto => True
  | .hset => ProperSet find false len b s.offset

theorem ProperSet.length (h : ProperSet find isPset len b o) :
    sdextPlugLength b o = plugSize + slotSize * getCount b o := by
  rw [sdextPlugLength, slotsLength, if_neg (Nat.ne_of_gt h.pos), Nat.add_comm]

/-- All but the crypto extension end in the item. -/
theorem Sdext.Proper.end_le (h : p.Proper find len b s) (hp : p ≠ .crypto) : s.offset + p.length len b s ≤ len := by
  have hset : ∀ {isPset}, ProperSet find isPset len b s.offset → s.offset + sdextPlugLength b s.offset ≤ len := by
    intro isPset h
    rw [h.length, ← Nat.add_assoc]
    exact h.inside
  cases p with
  | crypto => exact absurd rfl hp
  | pset => exact hset h
  | hset => exact hset h
  | symlink => exact h
  | _ => exact h

/-! A set depends on its count and its slots. -/

theorem slots_same (h : ∀ x, o ≤ x → x < o + plugSize + slotSize * getCount b o → c x = b x) :
    ∀ i < getCount b o, slotAt c (o + plugSize) i = slotAt b (o + plugSize) i := by
  intro i hi
  refine slotAt_congr fun k hk => h _ ?_ ?_
  · omega
  · unfold slotSize plugSize at *
    omega

theorem plugInfoLoop_congr : ∀ (n i : Nat), (∀ k, i ≤ k → k < i + n →
      slotAt c (o + plugSize) k = slotAt b (o + plugSize) k) → plugInfoLoop find c o n i = plugInfoLoop find b o n i
  | 0, _, _ => rfl
  | n + 1, i, h => by
    have hslot := h i (Nat.le_refl i) (by omega)
    have hmember : getMember c o i = getMember b o i := congrArg Prod.fst hslot
    have hpid : getPid c o i = getPid b o i := congrArg Prod.snd hslot
    have hrest := plugInfoLoop_congr n (i + 1) fun k h1 h2 => h k (by omega) (by omega)
    rw [plugInfoLoop, plugInfoLoop, hmember, hpid, hrest]

/-- A set whose bytes are the same is the same set. -/
theorem ProperSet.congr (h : ProperSet find isPset len b o)
    (hc : ∀ x, o ≤ x → x < o + sdextPlugLength b o → c x = b x) (hlen : o + sdextPlugLength b o ≤ len') :
    ProperSet find isPset len' c o ∧ getCount c o = getCount b o ∧
      ∀ i < getCount b o, slotAt c (o + plugSize) i = slotAt b (o + plugSize) i := by
  rw [h.length, ← Nat.add_assoc] at hc hlen
  have hcount : getCount c o = getCount b o :=
    Bytes.getLe_congr 2 c b o o fun i hi => hc (o + i) (by omega) (by unfold plugSize; omega)
  have hslots := slots_same hc
  refine ⟨⟨hcount ▸ h.pos, hcount ▸ h.count_le, hcount ▸ hlen, fun i hi => ?_⟩, hcount, hslots⟩
  rw [hcount] at hi
  rw [hslots i hi]
  exact h.valid i hi

/-- A string whose bytes are the same has the same length. -/
theorem aalStrlen_congr (h : o + aalStrlen len b o < len)
    (hc : ∀ x, o ≤ x → x < o + (aalStrlen len b o + 1) → c x = b x) (hlen : o + (aalStrlen len b o + 1) ≤ len') :
    aalStrlen len' c o = aalStrlen len b o := by
  obtain ⟨-, hne, hend⟩ := Bytes.cstr_spec (len - o) b o
  unfold aalStrlen at *
  refine Bytes.cstr_length_eq (by omega) (fun i hi => ?_) ?_
  · rw [hc _ (by omega) (by omega)]
    exact hne i hi
  · rw [hc _ (by omega) (by omega)]
    exact hend (by omega)

/-- **An extension depends on its own bytes**. -/
theorem Sdext.Proper.congr (h : p.Proper find len b s)
    (hc : ∀ x, s.offset ≤ x → x < s.offset + p.length len b s → c x = b x)
    (hlen : p ≠ .crypto → s.offset + p.length len b s ≤ len') :
    p.Proper find len' c s ∧ p.next find len' c s = p.next find len b s := by
  have hset : ∀ {isPset}, ProperSet find isPset len b s.offset →
      (∀ x, s.offset ≤ x → x < s.offset + sdextPlugLength b s.offset → c x = b x) →
      s.offset + sdextPlugLength b s.offset ≤ len' →
      ProperSet find isPset len' c s.offset ∧ sdextPlugLength c s.offset = sdextPlugLength b s.offset ∧
        plugInfoLoop find c s.offset (getCount c s.offset) 0 = plugInfoLoop find b s.offset (getCount b s.offset) 0 := by
    intro isPset h hc hlen
    obtain ⟨hset, hcount, hslots⟩ := h.congr hc hlen
    refine ⟨hset, by rw [sdextPlugLength, hcount, sdextPlugLength], ?_⟩
    rw [hcount]
    exact plugInfoLoop_congr _ _ fun k _ hk => hslots k (by omega)
  cases p with
  | crypto => exact ⟨trivial, rfl⟩
  | pset =>
    obtain ⟨h, hlength, hinfo⟩ := hset h hc (hlen (by decide))
    refine ⟨h, ?_⟩
    unfold next info length
    dsimp only
    rw [hlength, hinfo]
  | hset =>
    obtain ⟨h, hlength, -⟩ := hset h hc (hlen (by decide))
    refine ⟨h, ?_⟩
    unfold next info length
    dsimp only
    rw [hlength]
  | symlink =>
    have hstr := aalStrlen_congr h hc (hlen (by decide))
    have hend := hlen (by decide)
    constructor
    · show s.offset + aalStrlen len' c s.offset < len'
      rw [hstr]
      exact hend
    · unfold next info length
      dsimp only
      rw [hstr]
  | lw => exact ⟨hlen (by decide), rfl⟩
  | unix => exact ⟨hlen (by decide), rfl⟩
  | lt => exact ⟨hlen (by decide), rfl⟩
  | flags => exact ⟨hlen (by decide), rfl⟩

/-! ## A set checked again -/

/-- While each member is no less than its slot, every slot sets its own bit. -/
theorem metBefore_full {member : Nat → Nat} : ∀ {n : Nat}, (∀ i < n, i ≤ member i ∧ member i < psetStoreLast) →
    metBefore member n = 2 ^ n - 1
  | 0, _ => rfl
  | n + 1, h => by
    have ih := @metBefore_full member n fun i hi => h i (Nat.lt_succ_of_lt hi)
    obtain ⟨hle, hlt⟩ := h n (Nat.lt_succ_self n)
    have hbit : (2 ^ n - 1).testBit (member n) = false := by
      rw [Nat.testBit_two_pow_sub_one]
      exact decide_eq_false (Nat.not_lt.mpr hle)
    rw [metBefore, ih, if_pos ⟨hlt, hbit⟩]
    refine Nat.eq_of_testBit_eq fun k => ?_
    rw [Nat.testBit_or, Nat.testBit_two_pow_sub_one, Nat.testBit_two_pow_sub_one, Nat.testBit_two_pow, ← Bool.decide_or]
    exact decide_eq_decide.mpr (by omega)

/-- All slots are kept when no member is less than the number of its slot. -/
theorem keeps_all_iff (h : ProperSet find isPset len b o) :
    (∀ i < getCount b o, keeps find isPset b o i = true) ↔ ∀ i < getCount b o, i ≤ getMember b o i := by
  have hmember : ∀ i < getCount b o, getMember b o i < psetStoreLast := by
    intro i hi
    have := h.valid i hi
    rw [Stat40.valid, Bool.and_eq_true, decide_eq_true_eq] at this
    exact this.1
  have hkeeps : ∀ i < getCount b o, (∀ j < i, j ≤ getMember b o j) →
      (keeps find isPset b o i = true ↔ i ≤ getMember b o i) := by
    intro i hi hall
    have hfull := metBefore_full fun j hj => ⟨hall j hj, hmember j (hj.trans hi)⟩
    have hvalid : valid find isPset (getMember b o i, getPid b o i) = true := h.valid i hi
    rw [keeps, hvalid, hfull, Nat.testBit_two_pow_sub_one, Bool.true_and, Bool.not_eq_true', decide_eq_false_iff_not]
    exact Nat.not_lt
  constructor
  · intro hk i
    induction i using Nat.strong_induction_on with
    | _ i ih => exact fun hi => (hkeeps i hi fun j hj => ih j hj (hj.trans hi)).mp (hk i hi)
  · intro hle i hi
    exact (hkeeps i hi fun j hj => hle j (hj.trans hi)).mpr (hle i hi)

/-- The check of a set finds nothing then, and finds something else. -/
theorem ProperSet.recheck (h : ProperSet find isPset len b o) :
    ((∀ i < getCount b o, i ≤ getMember b o i) →
      ∀ mode, sdextPlugCheckStruct find isPset mode b o len 0 = some (b, 0)) ∧
    (¬ (∀ i < getCount b o, i ≤ getMember b o i) →
      sdextPlugCheckStruct find isPset .check b o len 0 = none) := by
  obtain ⟨hbits, -⟩ := @checkLoop_spec find isPset b o (getCount b o) 0 ⟨0, 0, 0⟩ rfl
  have hzero : (checkLoop find isPset b o (getCount b o) 0 ⟨0, 0, 0⟩).rmmask = 0 ↔
      ∀ i < getCount b o, i ≤ getMember b o i := by
    rw [← keeps_all_iff h]
    constructor
    · intro h0 i hi
      have hbit := hbits i
      rw [h0, Nat.zero_testBit, Bool.false_or, decide_eq_true (by omega), Bool.true_and] at hbit
      rw [← Bool.not_not (keeps find isPset b o i), ← hbit]
      rfl
    · intro hk
      refine Nat.eq_of_testBit_eq fun i => ?_
      rw [hbits, Nat.zero_testBit, Bool.false_or]
      by_cases hi : i < getCount b o
      · rw [hk i hi, Bool.not_true, Bool.and_false]
      · rw [decide_eq_false (by omega), Bool.false_and]
  have hle := Nat.not_lt.mpr h.count_le
  have hin : ¬ (sdextPlugLength b o = 0 ∨ len < o + sdextPlugLength b o) := by
    have hinside := h.inside
    rw [h.length]
    unfold plugSize at *
    omega
  constructor
  · intro hm mode
    unfold sdextPlugCheckStruct
    dsimp only
    rw [if_neg hle, if_neg hin, if_pos (hzero.mpr hm)]
  · intro hm
    unfold sdextPlugCheckStruct
    dsimp only
    rw [if_neg hle, if_neg hin, if_neg fun h0 => hm (hzero.mp h0), if_pos (by decide)]

/-! ## What the check leaves of an extension -/

theorem closeGap_below {l removed x : Nat} (h : x < o + l) : closeGap len b o l removed x = b x := by
  unfold closeGap
  split
  · rfl
  · exact Bytes.move_out _ _ _ _ _ (Or.inl h)

/-- A set that was checked: the slots that are kept, and what was behind the set. -/
theorem passSet_spec {b1 : Bytes} {removed : Nat}
    (h : sdextPlugCheckStruct find isPset .build b o len 0 = some (b1, removed)) :
    ∀ c, c = closeGap len b1 o (sdextPlugLength b1 o) removed →
      ProperSet find isPset len c o ∧ sdextPlugLength c o = sdextPlugLength b1 o ∧
        slots c o = kept find isPset b o ∧ ∀ x < o, c x = b x := by
  rintro c rfl
  obtain ⟨haccept, hreject⟩ := @plugCheck_spec find isPset b o len
  by_cases hchk : Checked find isPset b o len
  swap
  · rw [hreject hchk] at h
    cases h
  obtain ⟨b', hrun, hslots, hout⟩ := haccept hchk
  obtain ⟨rfl, -⟩ := Prod.mk.inj (Option.some.inj (hrun.symm.trans h))
  have hcount : getCount b' o = (kept find isPset b o).length := by
    rw [← hslots, slots_eq, List.length_map, List.length_range]
  have hle : (kept find isPset b o).length ≤ getCount b o := by
    rw [kept, List.length_map]
    exact (List.length_filter_le _ _).trans (Nat.le_of_eq List.length_range)
  have hpos : 0 < (kept find isPset b o).length := by
    obtain ⟨i, hi, hk⟩ := hchk.some_kept
    rw [kept, List.length_map]
    exact List.length_pos_of_mem (List.mem_filter.mpr ⟨List.mem_range.mpr hi, hk⟩)
  have hin := hchk.inside
  have hset : ProperSet find isPset len b' o := by
    refine ⟨hcount ▸ hpos, (hcount.trans_le hle).trans hchk.count_le, ?_, fun i hi => ?_⟩
    · rw [hcount]
      unfold slotSize at *
      omega
    · have hmem : slotAt b' (o + plugSize) i ∈ kept find isPset b o := by
        rw [← hslots]
        exact List.mem_map.mpr ⟨i, List.mem_range.mpr hi, rfl⟩
      obtain ⟨j, hj, heq⟩ := List.mem_map.mp hmem
      have hkeep := (List.mem_filter.mp hj).2
      rw [keeps, Bool.and_eq_true] at hkeep
      rw [← heq]
      exact hkeep.1
  have hend : o + sdextPlugLength b' o ≤ len := by
    rw [hset.length, ← Nat.add_assoc]
    exact hset.inside
  obtain ⟨hset', hcount', hslots'⟩ := hset.congr (fun x _ hx => @closeGap_below _ _ _ _ removed x hx) hend
  refine ⟨hset', by rw [sdextPlugLength, hcount', sdextPlugLength], ?_, fun x hx => ?_⟩
  · rw [← hslots, slots_eq, slots_eq, hcount']
    exact List.map_congr_left fun i hi => hslots' i (List.mem_range.mp hi)
  · rw [closeGap_below (by omega)]
    exact hout x (Or.inl hx)

theorem fixedCheckStruct_some {size : Nat} {r : Bytes × Nat} (h : fixedCheckStruct len size b s = some r) :
    s.offset + size ≤ len ∧ r = (b, 0) := by
  unfold fixedCheckStruct at h
  split at h
  · cases h
  · exact ⟨by omega, (Option.some.inj h).symm⟩

theorem symlinkCheckStruct_some {r : Bytes × Nat} (h : symlinkCheckStruct len b s = some r) :
    s.offset + aalStrlen len b s.offset < len ∧ r = (b, 0) := by
  unfold symlinkCheckStruct at h
  split at h
  · cases h
  · exact ⟨by unfold aalStrlen; omega, (Option.some.inj h).symm⟩

/-- **An extension that was checked** is what the check asks for, the walk goes on behind it, and in front of it
    nothing has changed. -/
theorem passExt_spec {s' : StatEntity} {b' : Bytes} (h : passExt find len .build p s b = some (s', b')) :
    s' = p.next find len b' s ∧ p.Proper find len b' s ∧ (∀ x < s.offset, b' x = b x) ∧
      ∀ isPset, p.setKind = some isPset → slots b' s.offset = kept find isPset b s.offset := by
  obtain ⟨⟨b1, removed⟩, hrun, heq⟩ := Option.map_eq_some_iff.mp h
  obtain ⟨rfl, hb'⟩ := Prod.mk.inj heq
  rw [hb']
  refine ⟨rfl, ?_⟩
  have hplain : ∀ {l}, (b1, removed) = (b, 0) → closeGap len b1 s.offset l removed = b := by
    intro l h
    obtain ⟨rfl, rfl⟩ := Prod.mk.inj h
    exact if_pos rfl
  have hnone : ∀ {Q : Bool → Prop}, ∀ isPset, (none : Option Bool) = some isPset → Q isPset :=
    fun _ h => absurd h nofun
  have hset : ∀ {isPset}, sdextPlugCheckStruct find isPset .build b s.offset len 0 = some (b1, removed) →
      closeGap len b1 s.offset (sdextPlugLength b1 s.offset) removed = b' →
      ProperSet find isPset len b' s.offset ∧ (∀ x < s.offset, b' x = b x) ∧
        ∀ k, some isPset = some k → slots b' s.offset = kept find k b s.offset := by
    intro isPset hrun hb'
    obtain ⟨hset, -, hslots, hbelow⟩ := passSet_spec hrun _ hb'.symm
    refine ⟨hset, hbelow, fun k hk => ?_⟩
    rw [← Option.some.inj hk]
    exact hslots
  cases p with
  | pset => exact hset hrun hb'
  | hset => exact hset hrun hb'
  | symlink =>
    obtain ⟨hin, hr⟩ := symlinkCheckStruct_some hrun
    obtain rfl : b = b' := (hplain hr).symm.trans hb'
    exact ⟨hin, fun _ _ => rfl, hnone⟩
  | crypto =>
    obtain rfl : b = b' := (hplain (Option.some.inj hrun).symm).symm.trans hb'
    exact ⟨trivial, fun _ _ => rfl, hnone⟩
  | _ =>
    obtain ⟨hin, hr⟩ := fixedCheckStruct_some hrun
    obtain rfl : b = b' := (hplain hr).symm.trans hb'
    exact ⟨hin, fun _ _ => rfl, hnone⟩

/-- The gap behind an extension is not part of it. -/
theorem length_closeGap {b1 : Bytes} {removed : Nat} (h : p.checkStruct find len mode b s = some (b1, removed)) :
    p.length len (closeGap len b1 s.offset (p.length len b1 s) removed) s = p.length len b1 s := by
  have hset : ∀ {isPset}, sdextPlugCheckStruct find isPset mode b s.offset len 0 = some (b1, removed) →
      sdextPlugLength (closeGap len b1 s.offset (sdextPlugLength b1 s.offset) removed) s.offset =
        sdextPlugLength b1 s.offset := by
    intro isPset h
    by_cases hmode : mode = .build
    · rw [hmode] at h
      exact (passSet_spec h _ rfl).2.1
    · have hzero : removed = 0 := by
        unfold sdextPlugCheckStruct at h
        dsimp only at h
        split at h
        · cases h
        split at h
        · cases h
        split at h
        · exact (Prod.mk.inj (Option.some.inj h)).2.symm
        · cases h
      rw [hzero, closeGap, if_pos rfl]
  cases p with
  | pset => exact hset h
  | hset => exact hset h
  | symlink =>
    obtain ⟨-, hr⟩ := symlinkCheckStruct_some h
    rw [(Prod.mk.inj hr).2, closeGap, if_pos rfl]
  | _ => rfl

/-- No member is less than the number of its slot. -/
def Sdext.Settled (p : Sdext) (b : Bytes) (o : Nat) : Prop :=
  ∀ isPset, p.setKind = some isPset → ∀ i < getCount b o, i ≤ getMember b o i

/-- An extension as the check asks for it passes, when no bit of a set has moved. -/
theorem Sdext.Proper.recheck (h : p.Proper find len b s) :
    (p.Settled b s.offset → ∀ mode, p.checkStruct find len mode b s = some (b, 0)) ∧
      (¬ p.Settled b s.offset → p.checkStruct find len .check b s = none) := by
  have hset : ∀ {isPset}, ProperSet find isPset len b s.offset →
      ((∀ k, some isPset = some k → ∀ i < getCount b s.offset, i ≤ getMember b s.offset i) →
        ∀ mode, sdextPlugCheckStruct find isPset mode b s.offset len 0 = some (b, 0)) ∧
      (¬ (∀ k, some isPset = some k → ∀ i < getCount b s.offset, i ≤ getMember b s.offset i) →
        sdextPlugCheckStruct find isPset .check b s.offset len 0 = none) := by
    intro isPset h
    obtain ⟨hyes, hno⟩ := h.recheck
    exact ⟨fun hm => hyes (hm isPset rfl), fun hm => hno fun hall => hm fun _ _ => hall⟩
  have hplain : ∀ {Q : Prop}, ¬ (∀ isPset, (none : Option Bool) = some isPset →
      ∀ i < getCount b s.offset, i ≤ getMember b s.offset i) → Q := fun h => absurd (fun _ hk => absurd hk nofun) h
  cases p with
  | pset => exact hset h
  | hset => exact hset h
  | crypto => exact ⟨fun _ _ => rfl, hplain⟩
  | symlink => exact ⟨fun _ _ => if_neg (Nat.not_le.mpr h), hplain⟩
  | _ => exact ⟨fun _ _ => if_neg (Nat.not_lt.mpr h), hplain⟩

end Extension

/-! ## The extensions of an item -/

section Layout

variable {find : Nat → Nat → Bool → PlugRef} {len len' : Nat} {b c : Bytes}

/-- Extensions as the check asks for them, one behind the other from one place to another. -/
def Laid (find : Nat → Nat → Bool → PlugRef) (len : Nat) (b : Bytes) : List Sdext → StatEntity → StatEntity → Prop
  | [], s, s' => s' = s
  | p :: ps, s, s' => p.Proper find len b s ∧ Laid find len b ps (p.next find len b s) s'

/-- No member of a set in them is less than the number of its slot. -/
def Settled (find : Nat → Nat → Bool → PlugRef) (len : Nat) (b : Bytes) : List Sdext → StatEntity → Prop
  | [], _ => True
  | p :: ps, s => p.Settled b s.offset ∧ Settled find len b ps (p.next find len b s)

theorem Laid.offset_le : ∀ {ps : List Sdext} {s s' : StatEntity}, Laid find len b ps s s' → s.offset ≤ s'.offset
  | [], _, _, h => Nat.le_of_eq (congrArg StatEntity.offset h.symm)
  | p :: ps, s, s', h => by
    have hrest := Laid.offset_le h.2
    rw [Sdext.next_offset] at hrest
    omega

/-- Extensions depend on their bytes, in an item that has room for them. -/
theorem Laid.congr : ∀ {ps : List Sdext} {s s' : StatEntity}, Laid find len b ps s s' →
    (∀ x, s.offset ≤ x → x < s'.offset → c x = b x) → (s'.offset ≤ len' ∨ len ≤ len') →
    Laid find len' c ps s s' ∧ (Settled find len' c ps s ↔ Settled find len b ps s)
  | [], _, _, h, _, _ => ⟨h, Iff.rfl⟩
  | p :: ps, s, s', h, hc, hlen => by
    obtain ⟨hp, hrest⟩ := h
    have hle := hrest.offset_le
    rw [Sdext.next_offset] at hle
    have hend : p ≠ .crypto → s.offset + p.length len b s ≤ len' := by
      intro hne
      have := hp.end_le hne
      omega
    have hown : ∀ x, s.offset ≤ x → x < s.offset + p.length len b s → c x = b x :=
      fun x h1 h2 => hc x h1 (by omega)
    obtain ⟨hp', hnext⟩ := hp.congr hown hend
    obtain ⟨hrest', hsettled⟩ := hrest.congr (fun x h1 h2 => hc x (by rw [Sdext.next_offset] at h1; omega) h2) hlen
    refine ⟨⟨hp', hnext ▸ hrest'⟩, ?_⟩
    rw [Settled, Settled, hnext]
    refine and_congr ?_ hsettled
    refine forall₂_congr fun isPset hk => ?_
    have hset : ∀ {isPset}, ProperSet find isPset len b s.offset →
        (∀ x, s.offset ≤ x → x < s.offset + sdextPlugLength b s.offset → c x = b x) →
        ((∀ i < getCount c s.offset, i ≤ getMember c s.offset i) ↔
          ∀ i < getCount b s.offset, i ≤ getMember b s.offset i) := by
      intro isPset h hc
      obtain ⟨-, hcount, hslots⟩ := h.congr hc (Nat.le_refl _)
      rw [hcount]
      refine forall₂_congr fun i hi => ?_
      rw [show getMember c s.offset i = getMember b s.offset i from congrArg Prod.fst (hslots i hi)]
    cases p with
    | pset => exact hset hp hown
    | hset => exact hset hp hown
    | _ => cases hk

/-- **The crux**: where the checks of the extensions succeed they leave extensions as they ask for them, and no bit
    of a set has moved when that was so of the slots it keeps. -/
theorem walk_spec : ∀ {ps : List Sdext} {s s' : StatEntity} {b b' : Bytes},
    walk find len .build ps s b = some (s', b') →
    (∀ x < s.offset, b' x = b x) ∧ Laid find len b' ps s s' ∧ (Stable find len ps s b ↔ Settled find len b' ps s)
  | [], s, s', b, b', h => by
    obtain ⟨rfl, rfl⟩ := Prod.mk.inj (Option.some.inj h)
    exact ⟨fun _ _ => rfl, rfl, Iff.rfl⟩
  | p :: ps, s, s', b, b', h => by
    rw [walk] at h
    cases hpass : passExt find len .build p s b with
    | none =>
      rw [hpass] at h
      cases h
    | some r =>
      obtain ⟨s1, b1⟩ := r
      rw [hpass] at h
      obtain ⟨hs1, hproper, hbelow, hslots⟩ := passExt_spec hpass
      obtain ⟨hbelow', hlaid, hstable⟩ := walk_spec h
      have hs1o : s1.offset = s.offset + p.length len b1 s := by
        rw [hs1, Sdext.next_offset]
      -- behind the extension nothing of it changes
      have hone : Laid find len b1 [p] s s1 := ⟨hproper, hs1⟩
      obtain ⟨⟨hproper', hnext⟩, hsettled⟩ := hone.congr (fun x _ hx => hbelow' x hx) (Or.inr (Nat.le_refl len))
      refine ⟨fun x hx => (hbelow' x (by omega)).trans (hbelow x hx), ⟨hproper', hnext ▸ hlaid⟩, ?_⟩
      rw [Stable, Settled, ← hnext]
      refine and_congr ?_ ?_
      · have hfirst : p.Settled b' s.offset ↔ p.Settled b1 s.offset := by
          rw [Settled, Settled, Settled, Settled, and_true, and_true] at hsettled
          exact hsettled
        rw [hfirst]
        refine forall₂_congr fun isPset hk => ?_
        rw [← hslots isPset hk, slots_eq]
        constructor
        · intro h i hi
          exact h i _ (by rw [List.getElem?_map, List.getElem?_range hi]; rfl)
        · intro h j slot hj
          rw [List.getElem?_map] at hj
          obtain ⟨i, hi, rfl⟩ := Option.map_eq_some_iff.mp hj
          obtain ⟨hlt, heq⟩ := List.getElem?_eq_some_iff.mp hi
          rw [List.getElem_range] at heq
          rw [List.length_range] at hlt
          rw [← heq]
          exact h j hlt
      · rw [hpass]
        constructor
        · intro h
          exact hstable.mp (h s1 b1 rfl)
        · intro h s2 b2 heq
          obtain ⟨rfl, rfl⟩ := Prod.mk.inj (Option.some.inj heq)
          exact hstable.mpr h

/-- Extensions as the check asks for them are left as they are, when no bit of a set has moved. -/
theorem Laid.recheck : ∀ {ps : List Sdext} {s s' : StatEntity}, Laid find len b ps s s' →
    (Settled find len b ps s → ∀ mode, walk find len mode ps s b = some (s', b)) ∧
      (¬ Settled find len b ps s → walk find len .check ps s b = none)
  | [], s, s', h => by
    obtain rfl : s' = s := h
    exact ⟨fun _ _ => rfl, fun h => absurd trivial h⟩
  | p :: ps, s, s', h => by
    obtain ⟨hp, hrest⟩ := h
    obtain ⟨hyes, hno⟩ := hp.recheck
    obtain ⟨hyes', hno'⟩ := hrest.recheck
    have hpass : ∀ mode, p.Settled b s.offset → passExt find len mode p s b = some (p.next find len b s, b) := by
      intro mode hm
      unfold passExt
      rw [hyes hm mode]
      rfl
    rw [Settled]
    constructor
    · rintro ⟨hm, hms⟩ mode
      rw [walk, hpass mode hm]
      exact hyes' hms mode
    · intro hm
      rw [walk]
      by_cases hfirst : p.Settled b s.offset
      · rw [hpass .check hfirst]
        exact hno' fun hms => hm ⟨hfirst, hms⟩
      · unfold passExt
        rw [hno hfirst]
        rfl

end Layout

/-! ## The mask -/

section Mask

/-- The bits of the extensions that were found. -/
def goodOf (ps : List Sdext) : Nat := ps.foldl addGood 0

theorem ifind_id {i : Nat} {p : Sdext} (h : ifind i = some p) : p.id = i := by
  unfold ifind at h
  split at h <;> cases h <;> rfl

theorem addGood_eq (good : Nat) (p : Sdext) : addGood good p = good ||| 2 ^ p.id := by
  cases p <;> rfl

theorem testBit_foldl_addGood (i : Nat) : ∀ (ps : List Sdext) (good : Nat),
    (ps.foldl addGood good).testBit i = (good.testBit i || ps.any fun p => p.id == i)
  | [], good => by simp
  | p :: ps, good => by
    rw [List.foldl_cons, testBit_foldl_addGood i ps, addGood_eq, Nat.testBit_or, Nat.testBit_two_pow, List.any_cons,
      Bool.or_assoc]
    rfl

theorem testBit_goodOf (ps : List Sdext) (i : Nat) : (goodOf ps).testBit i = ps.any fun p => p.id == i := by
  rw [goodOf, testBit_foldl_addGood, Nat.zero_testBit, Bool.false_or]

theorem goodOf_lt (ps : List Sdext) : goodOf ps < 2 ^ 15 := by
  refine Nat.lt_pow_two_of_testBit _ fun i hi => ?_
  rw [testBit_goodOf, List.any_eq_false]
  intro p _
  have hid : p.id < 15 := by cases p <;> decide
  rw [beq_iff_eq]
  omega

/-- The bits of the named extensions name these. -/
theorem named_goodOf (mask : Nat) : named (goodOf (named mask)) = named mask := by
  unfold named
  refine List.filterMap_congr fun i hi => ?_
  rw [testBit_goodOf]
  cases hfind : ifind i with
  | none => rw [ite_self, ite_self]
  | some p =>
    have hiff : ((List.range 15).filterMap fun i => if mask.testBit i then ifind i else none).any (fun q => q.id == i) =
        mask.testBit i := by
      rw [Bool.eq_iff_iff, List.any_eq_true]
      constructor
      · rintro ⟨q, hq, hid⟩
        obtain ⟨j, -, hj⟩ := List.mem_filterMap.mp hq
        by_cases hbit : mask.testBit j = true
        · rw [if_pos hbit] at hj
          rw [beq_iff_eq, ifind_id hj] at hid
          rw [← hid]
          exact hbit
        · rw [if_neg hbit] at hj
          cases hj
      · intro hbit
        exact ⟨p, List.mem_filterMap.mpr ⟨i, hi, by rw [if_pos hbit, hfind]⟩, by rw [beq_iff_eq, ifind_id hfind]⟩
    rw [hiff]

theorem getExtmask_lt (b : Bytes) (o : Nat) : getExtmask b o < 2 ^ 16 := Bytes.getLe_lt 2 b o

/-- The first mask is not shifted. -/
theorem shiftExtmask_zero {mask : Nat} (h : mask < 2 ^ 16) : shiftExtmask mask 0 = mask := by
  have hval : (BitVec.ofNat 32 mask).toNat = mask := by
    rw [BitVec.toNat_ofNat]
    exact Nat.mod_eq_of_lt (by omega)
  have hmsb : (BitVec.ofNat 32 mask).msb = false := by
    rw [BitVec.msb_eq_false_iff_two_mul_lt, hval]
    omega
  unfold shiftExtmask
  rw [show 0 * 16 % 32 = 0 from rfl, BitVec.shiftLeft_zero, BitVec.signExtend_eq_setWidth_of_msb_false hmsb,
    BitVec.toNat_setWidth, hval]
  exact Nat.mod_eq_of_lt (by omega)

theorem getExtmask_congr {b c : Bytes} (h : ∀ x < 2, c x = b x) : getExtmask c 0 = getExtmask b 0 :=
  Bytes.getLe_congr 2 c b 0 0 fun i hi => h (0 + i) (by omega)

end Mask

/-! ## The walks of the check -/

section Check

variable {find : Nat → Nat → Bool → PlugRef} {len : Nat} {mode : Mode} {b c : Bytes} {α : Type} {extFunc : ExtFunc α}

theorem traverseExt_eq (i mask : Nat) (s : StatEntity) (b : Bytes) (a : α) :
    traverseExt find len extFunc i mask 1 s b a =
      match if mask.testBit i then ifind i else none with
      | none => .ok (s, b, a)
      | some p =>
        match extFunc b s (some p) mask a with
        | .error e => .error e
        | .ok (b, a) => .ok (p.next find len b s, b, a) := by
  unfold traverseExt
  rw [show i - (1 - 1) * 16 = i by omega]
  cases mask.testBit i with
  | false => rfl
  | true =>
    rw [if_neg (by decide), if_pos rfl]
    rfl

/-- The check of the extensions is the walk over them, and sums up their lengths. -/
theorem traverseExts_check (mask : Nat) : ∀ (is : List Nat) (s : StatEntity) (b : Bytes) (hint : RepairStatHint),
    hint.len = s.offset →
    traverseExts find len (cbCheckExt find len mode) mask is s b hint =
      match walk find len mode (is.filterMap fun i => if mask.testBit i then ifind i else none) s b with
      | none => .error .fatal
      | some (s', b') => .ok (s', b', ⟨hint.extmask,
          (is.filterMap fun i => if mask.testBit i then ifind i else none).foldl addGood hint.goodmask, s'.offset⟩)
  | [], s, b, ⟨_, _, _⟩, h => by
    obtain rfl := h
    rfl
  | i :: is, s, b, hint, h => by
    rw [traverseExts, traverseExt_eq, List.filterMap_cons]
    cases if mask.testBit i then ifind i else none with
    | none => exact traverseExts_check mask is s b hint h
    | some p =>
      dsimp only
      rw [walk, List.foldl_cons]
      unfold passExt
      have hcb : cbCheckExt find len mode b s (some p) mask hint =
          match p.checkStruct find len mode b s with
          | none => .error .fatal
          | some (b1, removed) => .ok (closeGap len b1 s.offset (p.length len b1 s) removed,
              { hint with goodmask := addGood hint.goodmask p, len := hint.len + p.length len b1 s }) := rfl
      rw [hcb]
      cases hrun : p.checkStruct find len mode b s with
      | none => rfl
      | some r =>
        obtain ⟨b1, removed⟩ := r
        refine traverseExts_check mask is _ _ _ ?_
        show hint.len + p.length len b1 s = _
        rw [Sdext.next_offset, length_closeGap hrun, h]

/-- A walk that reads, over extensions as the check asks for them. -/
theorem traverseExts_laid {P : StatEntity → α → Prop} (mask : Nat)
    (hcb : ∀ p s a, P s a → ∃ a', extFunc b s (some p) mask a = .ok (b, a') ∧ P (p.next find len b s) a') :
    ∀ (is : List Nat) (s s' : StatEntity) (a : α),
      Laid find len b (is.filterMap fun i => if mask.testBit i then ifind i else none) s s' → P s a →
      ∃ a', traverseExts find len extFunc mask is s b a = .ok (s', b, a') ∧ P s' a'
  | [], s, s', a, h, hP => by
    obtain rfl : s' = s := h
    exact ⟨a, rfl, hP⟩
  | i :: is, s, s', a, h, hP => by
    rw [List.filterMap_cons] at h
    rw [traverseExts, traverseExt_eq]
    revert h
    cases if mask.testBit i then ifind i else none with
    | none => exact fun h => traverseExts_laid mask hcb is s s' a h hP
    | some p =>
      intro h
      obtain ⟨a', hrun, hP'⟩ := hcb p s a hP
      dsimp only
      rw [hrun]
      exact traverseExts_laid mask hcb is _ s' a' h.2 hP'

/-- The first walk of the check. -/
theorem traverse_check (mode : Mode) (b : Bytes) :
    stat40Traverse find len (cbCheckExt find len mode) b ⟨0, 0, 0⟩ =
      match walk find len mode (named (getExtmask b 0)) ⟨2, .null⟩ b with
      | none => .error .fatal
      | some (s, b1) => traverseLoop find len (cbCheckExt find len mode) 49 15 (getExtmask b 0) 1 s b1
          ⟨getExtmask b 0, goodOf (named (getExtmask b 0)), s.offset⟩ := by
  have hcb : cbCheckExt find len mode b ⟨0, .null⟩ none (shiftExtmask (getExtmask b 0) 0) ⟨0, 0, 0⟩ =
      .ok (b, ⟨getExtmask b 0, 0, 2⟩) := by
    rw [shiftExtmask_zero (getExtmask_lt b 0)]
    show Except.ok (b, RepairStatHint.mk (0 ||| getExtmask b 0) 0 2) = _
    rw [Nat.zero_or]
  have hexts := @traverseExts_check find len mode (getExtmask b 0) (List.range 15) ⟨2, .null⟩ b
    ⟨getExtmask b 0, 0, 2⟩ rfl
  rw [traverse_eq, hcb]
  dsimp only
  rw [hexts]
  unfold named goodOf
  cases walk find len mode ((List.range 15).filterMap fun i =>
      if (getExtmask b 0).testBit i then ifind i else none) ⟨2, .null⟩ b with
  | none => rfl
  | some r => rfl

/-- Further masks are in the sum and stay in the mask. -/
theorem traverseLoop_check {mask : Nat} (s : StatEntity) (b : Bytes) {hint : RepairStatHint}
    (hbit : hint.extmask.testBit 15 = true) (h : mask.testBit 15 = true) :
    ∃ hint', traverseLoop find len (cbCheckExt find len mode) 49 15 mask 1 s b hint = .ok (b, hint') ∧
      hint'.extmask.testBit 15 = true ∧ hint'.goodmask = hint.goodmask ∧ hint.len + 2 ≤ hint'.len := by
  have hfirst := @traverseLoop_further find len _ (cbCheckExt find len mode) mask h s b hint
  rw [show 49 = 48 + 1 from rfl, hfirst]
  obtain ⟨b', hint', hrun, rfl, hP⟩ := @traverseLoop_masks find len _ (cbCheckExt find len mode)
    (fun b' hint' => b' = b ∧ hint'.extmask.testBit 15 = true ∧ hint'.goodmask = hint.goodmask ∧
      hint.len + 2 ≤ hint'.len) s.offset
    (fun b' s' m hint' _ hP => ⟨b', _, rfl, hP.1, by rw [Nat.testBit_or, hP.2.1, Bool.true_or], hP.2.2.1,
      Nat.le_add_right_of_le hP.2.2.2⟩)
    48 (15 + 1) (getExtmask b s.offset) (1 + 1) { s with offset := s.offset + stat40Size } b
    { hint with extmask := hint.extmask ||| shiftExtmask (getExtmask b s.offset) 1, len := hint.len + stat40Size }
    (by omega) (Nat.le_add_right _ _) ⟨rfl, by rw [Nat.testBit_or, hbit, Bool.true_or], rfl, Nat.le_refl _⟩
  exact ⟨hint', hrun, hP⟩

/-- The second walk of the check sets the first mask and leaves the extensions. -/
theorem traverse_fix {s : StatEntity} {good : Nat} (hgood : good < 2 ^ 16)
    (h : Laid find len b (named (getExtmask b 0)) ⟨2, .null⟩ s) :
    ∃ b' rest, stat40Traverse find len cbFixMask b good = .ok (b', rest) ∧ getExtmask b' 0 = good ∧
      ∀ x, 2 ≤ x → x < s.offset → b' x = b x := by
  obtain ⟨b1, hb1⟩ : ∃ b1, b1 = setExtmask b 0 (good % 2 ^ 16) := ⟨_, rfl⟩
  have hsame : ∀ x, 2 ≤ x → b1 x = b x := fun x hx => by
    rw [hb1]
    exact Bytes.setLe_out _ _ _ _ _ (Or.inr hx)
  have hmask : getExtmask b1 0 = good := by
    rw [hb1, Nat.mod_eq_of_lt hgood]
    exact Bytes.getLe_setLe_of_lt 2 b 0 good hgood
  obtain ⟨hlaid, -⟩ := h.congr (fun x h1 _ => hsame x h1) (Or.inr (Nat.le_refl len))
  obtain ⟨rest, hexts, -⟩ := @traverseExts_laid find len b1 _ cbFixMask (fun _ _ => True) (getExtmask b 0)
    (fun p s a _ => ⟨a, rfl, trivial⟩) (List.range 15) ⟨2, .null⟩ s (good / 2 ^ 16) hlaid trivial
  have hrun : stat40Traverse find len cbFixMask b good =
      traverseLoop find len cbFixMask 49 15 (getExtmask b 0) 1 s b1 rest := by
    have hcb : cbFixMask b ⟨0, .null⟩ none (shiftExtmask (getExtmask b 0) 0) good = .ok (b1, good / 2 ^ 16) := by
      rw [hb1]
      rfl
    rw [traverse_eq, hcb]
    dsimp only
    rw [hexts]
  obtain ⟨b', rest', hloop, hbelow⟩ := @traverseLoop_masks find len _ cbFixMask
    (fun c _ => ∀ x < s.offset, c x = b1 x) s.offset
    (fun c s' m a hs' hP => ⟨setExtmask c s'.offset (a % 2 ^ 16), a / 2 ^ 16, rfl, fun x hx => by
      rw [← hP x hx]
      exact Bytes.setLe_out _ _ _ _ _ (Or.inl (by omega))⟩)
    49 15 (getExtmask b 0) 1 s b1 rest (Nat.le_refl 15) (Nat.le_refl _) (fun _ _ => rfl)
  have hle : 2 ≤ s.offset := h.offset_le
  refine ⟨b', rest', hrun.trans hloop, ?_, fun x h1 h2 => (hbelow x h2).trans (hsame x h1)⟩
  rw [← hmask]
  exact getExtmask_congr fun x hx => hbelow x (by omega)

/-- The mask of an item that names nothing else than its extensions names no further mask. -/
theorem no_further {mask : Nat} (h : goodOf (named mask) = mask) : mask.testBit 15 = false := by
  rw [← h]
  exact Nat.testBit_lt_two_pow (goodOf_lt _)

/-- The masks and extensions of an item that is laid out so. -/
theorem pieces_laid {s : StatEntity} (hgood : goodOf (named (getExtmask b 0)) = getExtmask b 0)
    (h : Laid find len b (named (getExtmask b 0)) ⟨2, .null⟩ s) :
    ((pieces find len b).map Prod.snd).sum = s.offset ∧ ∀ x ∈ pieces find len b, x.1 + x.2 ≤ s.offset := by
  obtain ⟨l, hexts, hP⟩ := @traverseExts_laid find len b _ (cbPieces len)
    (fun s l => (l.map Prod.snd).sum = s.offset ∧ ∀ x ∈ l, x.1 + x.2 ≤ s.offset) (getExtmask b 0)
    (fun p s l hP => by
      refine ⟨_, rfl, ?_, fun x hx => ?_⟩
      · rw [List.map_append, List.sum_append, hP.1, Sdext.next_offset]
        rfl
      · rw [Sdext.next_offset]
        rcases List.mem_append.mp hx with hx | hx
        · exact Nat.le_add_right_of_le (hP.2 x hx)
        · rw [List.mem_singleton.mp hx])
    (List.range 15) ⟨2, .null⟩ s [(0, 2)] h ⟨rfl, fun x hx => by rw [List.mem_singleton.mp hx]; exact Nat.le_refl 2⟩
  have hrun : stat40Traverse find len (cbPieces len) b [] = .ok (b, l) := by
    have hcb : cbPieces len b ⟨0, .null⟩ none (shiftExtmask (getExtmask b 0) 0) [] = .ok (b, [(0, 2)]) := rfl
    rw [traverse_eq, hcb]
    dsimp only
    rw [hexts]
    exact traverseLoop_last (no_further hgood) s b l
  rw [show pieces find len b = l by rw [pieces, hrun]]
  exact hP

/-- The check of an item that is laid out so and filled finds nothing, in any mode, unless a bit of a set has
    moved. -/
theorem check_laid {s : StatEntity} (hgood : goodOf (named (getExtmask b 0)) = getExtmask b 0)
    (h : Laid find len b (named (getExtmask b 0)) ⟨2, .null⟩ s) (hlen : s.offset = len) :
    (Settled find len b (named (getExtmask b 0)) ⟨2, .null⟩ →
      ∀ mode, stat40CheckStruct find len mode b = .ok (b, 0)) ∧
    (¬ Settled find len b (named (getExtmask b 0)) ⟨2, .null⟩ →
      stat40CheckStruct find len .check b = .error .fatal) := by
  obtain ⟨hyes, hno⟩ := h.recheck
  constructor
  · intro hsettled mode
    unfold stat40CheckStruct
    rw [traverse_check, hyes hsettled mode]
    dsimp only
    rw [traverseLoop_last (no_further hgood)]
    dsimp only
    rw [if_neg (by omega), if_pos hgood.symm, if_neg (by omega)]
  · intro hsettled
    unfold stat40CheckStruct
    rw [traverse_check, hno hsettled]

/-- **What a check leaves** that succeeds: the extensions that its walk leaves, and the mask that names them. -/
theorem checkStruct_spec {s : StatEntity} {b1 : Bytes}
    (h : walk find len .build (named (getExtmask b 0)) ⟨2, .null⟩ b = some (s, b1)) :
    ∃ b' total, stat40CheckStruct find len .build b = .ok (b', len - total) ∧
      getExtmask b' 0 = goodOf (named (getExtmask b 0)) ∧ (∀ x, 2 ≤ x → x < s.offset → b' x = b1 x) ∧
      ((getExtmask b 0).testBit 15 = false → total = s.offset) ∧
      ((getExtmask b 0).testBit 15 = true → s.offset + 2 ≤ total) := by
  obtain ⟨hbelow, hlaid, -⟩ := walk_spec h
  have hmask : getExtmask b1 0 = getExtmask b 0 := getExtmask_congr hbelow
  have hfirst : ∃ hint, stat40Traverse find len (cbCheckExt find len .build) b ⟨0, 0, 0⟩ = .ok (b1, hint) ∧
      hint.goodmask = goodOf (named (getExtmask b 0)) ∧
      ((getExtmask b 0).testBit 15 = false → hint.extmask = getExtmask b 0 ∧ hint.len = s.offset) ∧
      ((getExtmask b 0).testBit 15 = true → hint.extmask.testBit 15 = true ∧ s.offset + 2 ≤ hint.len) := by
    rw [traverse_check, h]
    dsimp only
    cases hbit : (getExtmask b 0).testBit 15 with
    | false => exact ⟨_, traverseLoop_last hbit s b1 _, rfl, fun _ => ⟨rfl, rfl⟩, fun h => absurd h (by decide)⟩
    | true =>
      obtain ⟨hint, hrun, hext, hgood, hlen⟩ := @traverseLoop_check find len .build _ s b1
        ⟨getExtmask b 0, goodOf (named (getExtmask b 0)), s.offset⟩ hbit hbit
      exact ⟨hint, hrun, hgood, fun h => absurd h (by decide), fun _ => ⟨hext, hlen⟩⟩
  obtain ⟨hint, hrun, hgood, hlast, hfurther⟩ := hfirst
  have hcut : (if hint.len < len then len - hint.len else 0) = len - hint.len := by
    split <;> omega
  unfold stat40CheckStruct
  rw [hrun]
  dsimp only
  rw [if_neg (fun h => h.2 rfl), hcut, hgood]
  by_cases heq : hint.extmask = goodOf (named (getExtmask b 0))
  · rw [if_pos heq]
    refine ⟨b1, hint.len, rfl, ?_, fun _ _ _ => rfl, fun h => (hlast h).2, fun h => (hfurther h).2⟩
    cases hbit : (getExtmask b 0).testBit 15 with
    | false => rw [hmask, ← heq, (hlast hbit).1]
    | true =>
      have := (hfurther hbit).1
      rw [heq, Nat.testBit_lt_two_pow (goodOf_lt _)] at this
      exact absurd this (by decide)
  · rw [if_neg heq, if_neg (by decide)]
    obtain ⟨b', rest, hfix, hmask', hsame⟩ := traverse_fix (Nat.lt_trans (goodOf_lt (named (getExtmask b 0))) (by decide))
      (hmask.symm ▸ hlaid)
    rw [hfix]
    exact ⟨b', hint.len, rfl, hmask', hsame, fun h => (hlast h).2, fun h => (hfurther h).2⟩

/-- The check fails with its walk. -/
theorem checkStruct_error (h : walk find len mode (named (getExtmask b 0)) ⟨2, .null⟩ b = none) :
    stat40CheckStruct find len mode b = .error .fatal := by
  unfold stat40CheckStruct
  rw [traverse_check, h]

end Check

/-! ## The law -/

/-- What the check leaves of an item is an item as it should be, when its extensions end where a walk over them with
    their checks ends: the item has room for them, and nothing else when its mask asks for a further mask; and no
    slot that a plugin set keeps has a member less than its new number. -/
structure Clean (find : Nat → Nat → Bool → PlugRef) (len : Nat) (b : Bytes) (s : StatEntity) : Prop where
  room : s.offset ≤ len
  full : (getExtmask b 0).testBit 15 = true → s.offset = len
  stable : Stable find len (named (getExtmask b 0)) ⟨2, .null⟩ b

/-- **The check of a stat data** is sound for an item whose extensions it accepts exactly when that is so. -/
theorem stat40CheckStruct_iff (find : Nat → Nat → Bool → PlugRef) (len : Nat) (b : Bytes) :
    CheckSound find len b ↔ ∀ s b1,
      walk find len .build (named (getExtmask b 0)) ⟨2, .null⟩ b = some (s, b1) → Clean find len b s := by
  have hgood : ∀ {c}, getExtmask c 0 = goodOf (named (getExtmask b 0)) →
      named (getExtmask c 0) = named (getExtmask b 0) ∧ goodOf (named (getExtmask c 0)) = getExtmask c 0 := by
    intro c h
    rw [h, named_goodOf]
    exact ⟨rfl, rfl⟩
  constructor
  · intro hsound s b1 hwalk
    obtain ⟨-, hlaid, hstable⟩ := walk_spec hwalk
    obtain ⟨b', total, hrun, hmask, hsame, hlast, hfurther⟩ := checkStruct_spec hwalk
    obtain ⟨hnamed, hgood⟩ := hgood hmask
    have htotal : s.offset ≤ total := by
      cases hbit : (getExtmask b 0).testBit 15 with
      | false => exact Nat.le_of_eq (hlast hbit).symm
      | true =>
        have := hfurther hbit
        omega
    have hfit : s.offset ≤ len - (len - total) ∨ len ≤ len - (len - total) := by omega
    obtain ⟨hlaid', hsettled⟩ := hlaid.congr hsame hfit
    obtain ⟨hconsists, hagain⟩ := hsound b' _ hrun b' fun _ _ => rfl
    rw [← hnamed] at hlaid' hsettled hstable
    have hfull : s.offset = len - (len - total) := (pieces_laid hgood hlaid').1.symm.trans hconsists.sum
    refine ⟨by omega, fun hbit => ?_, ?_⟩
    · have := hfurther hbit
      omega
    · rw [← hnamed, hstable, ← hsettled]
      by_contra hno
      have hagain := hagain .check
      rw [(check_laid hgood hlaid' hfull).2 hno] at hagain
      cases hagain
  · intro hclean b' n hrun c hc
    cases hwalk : walk find len .build (named (getExtmask b 0)) ⟨2, .null⟩ b with
    | none =>
      rw [checkStruct_error hwalk] at hrun
      cases hrun
    | some r =>
      obtain ⟨s, b1⟩ := r
      obtain ⟨-, hlaid, hstable⟩ := walk_spec hwalk
      obtain ⟨b2, total, hrun', hmask, hsame, hlast, hfurther⟩ := checkStruct_spec hwalk
      obtain ⟨rfl, rfl⟩ := Prod.mk.inj (Except.ok.inj (hrun'.symm.trans hrun))
      have hcl := hclean s b1 hwalk
      have hroom := hcl.room
      have hfull : s.offset = len - (len - total) := by
        cases hbit : (getExtmask b 0).testBit 15 with
        | false =>
          have := hlast hbit
          omega
        | true =>
          have := hfurther hbit
          have := hcl.full hbit
          omega
      rw [← hfull] at hc ⊢
      have hle : 2 ≤ s.offset := hlaid.offset_le
      have hmaskc : getExtmask c 0 = goodOf (named (getExtmask b 0)) :=
        (getExtmask_congr fun x hx => hc x (by omega)).trans hmask
      obtain ⟨hnamed, hgood⟩ := hgood hmaskc
      obtain ⟨hlaid', hsettled⟩ := hlaid.congr (fun x h1 h2 => (hc x h2).trans (hsame x h1 h2))
        (Or.inl (Nat.le_refl s.offset))
      have hstill := hsettled.mpr (hstable.mp hcl.stable)
      rw [← hnamed] at hlaid' hstill
      obtain ⟨hsum, hin⟩ := pieces_laid hgood hlaid'
      exact ⟨⟨hsum, hin⟩, (check_laid hgood hlaid' rfl).1 hstill⟩

/-- A mask of bit 15 alone and a further mask of zero: the bit is taken out of the first, and the other stays. -/
theorem stat40CheckStruct_further :
    ¬ CheckSound (fun _ _ _ => .null) 4 (Bytes.zero.putStr 0 [0, 128, 0, 0]) := by
  intro hsound
  have hrun : (stat40CheckStruct (fun _ _ _ => .null) 4 .build (Bytes.zero.putStr 0 [0, 128, 0, 0])).toOption.map
      (fun r => (r.1.slice 0 4, r.2)) = some ([0, 0, 0, 0], 0) := by decide +kernel
  have hagain : (stat40CheckStruct (fun _ _ _ => .null) 4 .build Bytes.zero).toOption.map Prod.snd = some 2 := by
    decide +kernel
  cases hb' : stat40CheckStruct (fun _ _ _ => .null) 4 .build (Bytes.zero.putStr 0 [0, 128, 0, 0]) with
  | error e =>
    rw [hb'] at hrun
    cases hrun
  | ok r =>
    rw [hb'] at hrun
    obtain ⟨hslice, hcut⟩ := Prod.mk.inj (Option.some.inj hrun)
    have hzero : ∀ i < 4 - r.2, Bytes.zero i = r.1 i := by
      intro i hi
      have hget := Bytes.slice_getElem? r.1 0 4 i (by omega)
      rw [hslice, show ([0, 0, 0, 0] : List UInt8) = Bytes.zero.slice 0 4 from rfl,
        Bytes.slice_getElem? Bytes.zero 0 4 i (by omega), Nat.zero_add] at hget
      exact Option.some.inj hget
    have hclean := (hsound r.1 r.2 hb' Bytes.zero hzero).2 .build
    rw [hcut, Nat.sub_zero] at hclean
    rw [hclean] at hagain
    exact absurd hagain (by decide)

end Reiser4.Stat40
