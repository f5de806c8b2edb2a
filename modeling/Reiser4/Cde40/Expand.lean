/-
  Making room for entries and closing it (`cde40_expand`, `cde40_cut`, `cde40_shrink`).

  Both routines move two parts of the item: the headers from the position on together with the bodies
  in front of it, by the size of the headers, and the bodies from the position on, by that size and the
  size of the bodies in between.  The offsets are corrected in place, before the moves in `cde40_expand`
  and after them in `cde40_cut`.

    1. `moveOffsets`   the loops over the offsets: each is corrected, nothing else changes;
    2. `Holds.expand_byte`, `Holds.cut_bytes`   what the moves leave at each address;
    3. `Holds.expand_room`   the entries on both sides of the room;
    4. `Holds.cut_holds`   the item without the entries that were cut.
-/
import Reiser4.Cde40.Layout

namespace Reiser4

open Reiser4.Lib

namespace Cde40

variable (pol : KeyPol)

/-! ## The routines -/

/-- The loops over the offsets of `n` headers from `en` on, which apply `en_inc_offset` or
    `en_dec_offset` with the same number to each. -/
def moveOffsets (step : Bytes → Nat → Bytes) : Nat → Bytes → Nat → Bytes
  | 0, mem, _ => mem
  | n + 1, mem, en => moveOffsets step n (step mem en) (en + enSize pol)

/-- The offset at which new entries go, from the start of the item, before the headers are made room
    for. -/
def expandOffset (mem : Bytes) (body loc pos : Nat) : Option Nat :=
  let units := getUnits mem body
  if 0 < units then
    if pos < units then some (enGetOffset pol mem (entry pol body pos))
    else
      (getLen pol mem body loc (units - 1)).map fun len =>
        enGetOffset pol mem (entry pol body (units - 1)) + len
  else some 2

/-- The changes that `cde40_expand` makes, when it knows the offset and the sizes of the two parts. -/
def expandParts (mem : Bytes) (body pos count len offset first second : Nat) : Bytes :=
  let units := getUnits mem body
  let headers := count * enSize pol
  let mem := moveOffsets pol (fun m en => enIncOffset pol m en headers) pos mem (entry pol body 0)
  let mem := moveOffsets pol (fun m en => enIncOffset pol m en len) (units - pos) mem
    (entry pol body pos)
  let mem := if pos < units then mem.move (body + offset + len) (body + offset) second else mem
  if 0 < first then mem.move (entry pol body pos + headers) (entry pol body pos) first else mem

/-- `cde40_expand`: the memory with the room made, and the offset of the first new body. -/
def expand (mem : Bytes) (body loc pos count len : Nat) : Option (Bytes × Nat) := do
  let units := getUnits mem body
  let offset ← expandOffset pol mem body loc pos
  let front ← regsize pol mem body loc 0 pos
  let second ← regsize pol mem body loc pos (units - pos)
  some (expandParts pol mem body pos count len offset ((units - pos) * enSize pol + front) second,
    offset + count * enSize pol)

/-- The changes that `cde40_cut` makes, when it knows the sizes of the two parts and of what goes. -/
def cutParts (mem : Bytes) (body pos count first second remove : Nat) : Bytes :=
  let units := getUnits mem body
  let headers := count * enSize pol
  let mem := mem.move (entry pol body pos) (entry pol body pos + enSize pol * count) first
  let mem := moveOffsets pol (fun m en => enDecOffset pol m en headers) pos mem (entry pol body 0)
  let mem :=
    if 0 < second then
      let src := body + enGetOffset pol mem (entry pol body pos)
      let mem := mem.move (src - (headers + remove)) src second
      moveOffsets pol (fun m en => enDecOffset pol m en (headers + remove))
        (units - count - pos) mem (entry pol body pos)
    else mem
  setUnits mem body (getUnits mem body + (two32 - count))

/-- `cde40_cut`: the memory without the entries, and the bytes that they took. -/
def cut (mem : Bytes) (body loc pos count len : Nat) : Option (Bytes × Nat) :=
  let units := getUnits mem body
  let count := if units < u32 (pos + count) then units - pos else count
  if count = 0 then some (mem, 0)
  else do
    let front ← regsize pol mem body loc 0 pos
    let second :=
      if pos + count = units then 0 else len - enGetOffset pol mem (entry pol body (pos + count))
    let remove ← (if pos + count = units then some (len - enGetOffset pol mem (entry pol body pos))
      else regsize pol mem body loc pos count)
    some (cutParts pol mem body pos count ((units - (pos + count)) * enSize pol + front) second remove,
      remove + count * enSize pol)

/-- `cde40_shrink`: cuts the entries of an item whose length is where its last entry ends. -/
def shrink (mem : Bytes) (body loc pos count : Nat) : Option (Bytes × Nat) :=
  let units := getUnits mem body
  let count := if units < u32 (pos + count) then units - pos else count
  if count = 0 then some (mem, 0)
  else do
    let len ← getLen pol mem body loc (units - 1)
    cut pol mem body loc pos count (enGetOffset pol mem (entry pol body (units - 1)) + len)

/-! ## The loops -/

section Loops

variable {pol : KeyPol} {step : Bytes → Nat → Bytes} {d : Nat → Nat}

/-- A loop over the offsets changes each as its step does, and no other byte, if the step changes the
    offset of its header and no other byte. -/
theorem moveOffsets_spec
    (hset : ∀ m en, enGetOffset pol (step m en) en = d (enGetOffset pol m en))
    (hout : ∀ m en a, a < en + haSize pol ∨ en + enSize pol ≤ a → step m en a = m a) :
    ∀ (n : Nat) (mem : Bytes) (en : Nat),
      (∀ a, (∀ i, i < n → a < en + i * enSize pol + haSize pol ∨ en + (i + 1) * enSize pol ≤ a) →
        moveOffsets pol step n mem en a = mem a) ∧
      (∀ i, i < n → enGetOffset pol (moveOffsets pol step n mem en) (en + i * enSize pol) =
        d (enGetOffset pol mem (en + i * enSize pol)))
  | 0, _, _ => ⟨fun _ _ => rfl, fun _ hi => absurd hi (Nat.not_lt_zero _)⟩
  | n + 1, mem, en => by
    obtain ⟨ihout, ihset⟩ := moveOffsets_spec hset hout n (step mem en) (en + enSize pol)
    have hsize : enSize pol = haSize pol + 2 := rfl
    -- the offset of another header is not changed by this step
    have hother : ∀ i, enGetOffset pol (step mem en) (en + enSize pol + i * enSize pol) =
        enGetOffset pol mem (en + enSize pol + i * enSize pol) := by
      intro i
      refine Bytes.getLe_congr 2 _ _ _ _ fun j hj => hout mem en _ (Or.inr ?_)
      omega
    constructor
    · intro a ha
      show moveOffsets pol step n (step mem en) (en + enSize pol) a = mem a
      have hrest := ihout a fun i hi => by
        have := ha (i + 1) (Nat.succ_lt_succ hi)
        rw [Nat.succ_mul, Nat.succ_mul (i + 1), Nat.succ_mul i] at this
        rw [Nat.succ_mul]
        omega
      rw [hrest]
      refine hout mem en a ?_
      have := ha 0 (Nat.succ_pos n)
      omega
    · intro i hi
      show enGetOffset pol (moveOffsets pol step n (step mem en) (en + enSize pol)) _ = _
      cases i with
      | zero =>
        rw [Nat.zero_mul, Nat.add_zero]
        -- the later steps are behind this header
        have hkeep : enGetOffset pol (moveOffsets pol step n (step mem en) (en + enSize pol)) en =
            enGetOffset pol (step mem en) en := by
          refine Bytes.getLe_congr 2 _ _ _ _ fun j hj => ihout _ fun i hi => Or.inl ?_
          omega
        rw [hkeep, hset]
      | succ i =>
        rw [Nat.succ_mul, Nat.add_comm (i * enSize pol), ← Nat.add_assoc,
          ihset i (Nat.lt_of_succ_lt_succ hi), hother]

theorem enSetOffset_out (m : Bytes) (en v a : Nat)
    (h : a < en + haSize pol ∨ en + enSize pol ≤ a) : enSetOffset pol m en v a = m a := by
  have hsize : enSize pol = haSize pol + 2 := rfl
  exact Bytes.setLe_out 2 _ _ _ _ (by omega)

theorem enGetOffset_set (m : Bytes) (en v : Nat) :
    enGetOffset pol (enSetOffset pol m en v) en = v % two16 :=
  Bytes.getLe_setLe 2 _ _ _

theorem entry_succ {body : Nat} (i : Nat) : entry pol body (i + 1) = entry pol body i + enSize pol := by
  unfold entry
  rw [Nat.succ_mul, ← Nat.add_assoc]

theorem entry_add {body : Nat} (i j : Nat) :
    entry pol body (i + j) = entry pol body i + j * enSize pol := by
  unfold entry
  rw [Nat.add_mul, ← Nat.add_assoc]

theorem entry_lt {body i j : Nat} (h : i < j) : entry pol body i + enSize pol ≤ entry pol body j := by
  rw [← entry_succ]
  exact Nat.add_le_add_left (Nat.mul_le_mul_right _ h) _

/-- A byte of the hash part of a header is in no offset field. -/
theorem hash_apart {body i j a : Nat} (ha : a < haSize pol) :
    entry pol body i + a < entry pol body j + haSize pol ∨ entry pol body (j + 1) ≤ entry pol body i + a := by
  have hsize : enSize pol = haSize pol + 2 := rfl
  rcases Nat.lt_trichotomy i j with h | h | h
  · have := @entry_lt pol body _ _ h
    omega
  · subst h
    omega
  · have := @entry_lt pol body _ _ h
    rw [entry_succ]
    omega

/-- A loop over the offsets of the headers from `k` on. -/
theorem moveOffsets_entry
    (hset : ∀ m en, enGetOffset pol (step m en) en = d (enGetOffset pol m en))
    (hout : ∀ m en a, a < en + haSize pol ∨ en + enSize pol ≤ a → step m en a = m a)
    (mem : Bytes) (body k n : Nat) :
    (∀ a, (∀ i, k ≤ i → i < k + n → a < entry pol body i + haSize pol ∨ entry pol body (i + 1) ≤ a) →
      moveOffsets pol step n mem (entry pol body k) a = mem a) ∧
    (∀ i, k ≤ i → i < k + n → enGetOffset pol (moveOffsets pol step n mem (entry pol body k))
      (entry pol body i) = d (enGetOffset pol mem (entry pol body i))) := by
  obtain ⟨hrest, hmoved⟩ := moveOffsets_spec hset hout n mem (entry pol body k)
  constructor
  · intro a ha
    refine hrest a fun i hi => ?_
    rw [← entry_add, ← entry_add]
    exact ha (k + i) (Nat.le_add_right _ _) (Nat.add_lt_add_left hi _)
  · intro i hk hi
    obtain ⟨j, rfl⟩ := Nat.exists_eq_add_of_le hk
    have := hmoved j (Nat.lt_of_add_lt_add_left hi)
    rwa [← entry_add] at this

end Loops

/-! ## Sizes of the parts -/

section Parts

variable {pol : KeyPol} {mem : Bytes} {body loc len : Nat} {es : List EntryHint}

/-- `cde40_regsize` is the size of the bodies. -/
theorem Holds.regsize_eq (h : Holds pol mem body loc es len) {pos count size : Nat}
    (hle : pos + count ≤ es.length) (hr : regsize pol mem body loc pos count = some size) :
    size = bodies pol ((es.drop pos).take count) := by
  have hsum : bodies pol (es.take pos) + bodies pol ((es.drop pos).take count) =
      bodies pol (es.take (pos + count)) := by
    rw [← bodies_append, ← List.take_add]
  unfold regsize at hr
  by_cases h0 : count = 0
  · rw [if_pos h0] at hr
    rw [h0, List.take_zero, bodies_nil]
    exact (Option.some.inj hr).symm
  · rw [if_neg h0, h.units] at hr
    dsimp only at hr
    rw [h.offset_eq (show pos < es.length by omega)] at hr
    by_cases hlt : pos + count < es.length
    · rw [if_pos hlt, h.offset_eq hlt] at hr
      have := Option.some.inj hr
      omega
    · have hlast : pos + count - 1 < es.length := by omega
      have hsucc := @bodies_take_succ pol es _ hlast
      rw [Nat.sub_add_cancel (by omega : 1 ≤ pos + count)] at hsucc
      have hmono : bodies pol (es.take pos) ≤ bodies pol (es.take (pos + count - 1)) := by
        rw [show pos + count - 1 = pos + (count - 1) by omega, List.take_add, bodies_append]
        exact Nat.le_add_right _ _
      rw [if_neg hlt, h.offset_eq hlast] at hr
      obtain ⟨last, hread, rfl⟩ := Option.map_eq_some_iff.mp hr
      rw [getLen_some hread, h.unitLen_eq hlast]
      omega

/-- In front of the last entry no hash is read for it. -/
theorem Holds.regsize_inner (h : Holds pol mem body loc es len) {pos count : Nat}
    (hlt : pos + count < es.length) :
    regsize pol mem body loc pos count = some (bodies pol ((es.drop pos).take count)) := by
  obtain ⟨size, hr⟩ : ∃ size, regsize pol mem body loc pos count = some size := by
    unfold regsize
    rw [h.units, if_pos hlt]
    split <;> exact ⟨_, rfl⟩
  rw [hr, h.regsize_eq (Nat.le_of_lt hlt) hr]

theorem regsize_large (pos count : Nat) : ∃ size, regsize .large mem body loc pos count = some size := by
  unfold regsize
  dsimp only
  rw [getLen_large]
  split
  · exact ⟨_, rfl⟩
  · split <;> exact ⟨_, rfl⟩

/-- New entries go behind the bodies of the entries in front of them. -/
theorem Holds.expandOffset_eq (h : Holds pol mem body loc es len) {pos offset : Nat}
    (hpos : pos ≤ es.length) (hr : expandOffset pol mem body loc pos = some offset) :
    offset = 2 + es.length * enSize pol + bodies pol (es.take pos) := by
  unfold expandOffset at hr
  rw [h.units] at hr
  dsimp only at hr
  by_cases h0 : 0 < es.length
  · rw [if_pos h0] at hr
    by_cases hlt : pos < es.length
    · rw [if_pos hlt, h.offset_eq hlt] at hr
      exact (Option.some.inj hr).symm
    · have hlast : es.length - 1 < es.length := by omega
      rw [if_neg hlt, h.offset_eq hlast] at hr
      obtain ⟨last, hread, rfl⟩ := Option.map_eq_some_iff.mp hr
      rw [getLen_some hread, h.unitLen_eq hlast, Nat.add_assoc, ← bodies_take_succ hlast,
        Nat.sub_add_cancel h0, show pos = es.length by omega]
  · have hnil : es = [] := List.eq_nil_of_length_eq_zero (by omega)
    subst hnil
    rw [if_neg h0] at hr
    rw [← Option.some.inj hr, List.take_nil, bodies_nil]
    simp

theorem expandOffset_large (pos : Nat) : ∃ offset, expandOffset .large mem body loc pos = some offset := by
  unfold expandOffset
  dsimp only
  rw [getLen_large]
  split
  · split <;> exact ⟨_, rfl⟩
  · exact ⟨_, rfl⟩

theorem bodies_take_add_drop (pos : Nat) :
    bodies pol (es.take pos) + bodies pol (es.drop pos) = bodies pol es := by
  rw [← bodies_append, List.take_append_drop]

end Parts

/-! ## Making room -/

section Expand

variable {pol : KeyPol} {mem : Bytes} {body loc len : Nat} {es : List EntryHint} {pos count size : Nat}
  {r : Bytes × Nat}

theorem move_zero (m : Bytes) (dst src : Nat) : m.move dst src 0 = m := by
  funext i
  exact Bytes.move_out _ _ _ _ _ (by omega)

/-- A move that is made only where there is something to move. -/
theorem ite_move {c : Prop} [Decidable c] {n : Nat} (m : Bytes) (dst src : Nat) (h : ¬ c → n = 0) :
    (if c then m.move dst src n else m) = m.move dst src n := by
  by_cases hc : c
  · rw [if_pos hc]
  · rw [if_neg hc, h hc, move_zero]

/-- The memory of `cde40_expand` when the offsets are corrected and nothing has been moved. -/
def expandOffsets (pol : KeyPol) (mem : Bytes) (body units pos headers len : Nat) : Bytes :=
  moveOffsets pol (fun m en => enIncOffset pol m en len) (units - pos)
    (moveOffsets pol (fun m en => enIncOffset pol m en headers) pos mem (entry pol body 0))
    (entry pol body pos)

theorem enIncOffset_spec (v : Nat) :
    (∀ m en, enGetOffset pol (enIncOffset pol m en v) en = (enGetOffset pol m en + v) % two16) ∧
    (∀ m en a, a < en + haSize pol ∨ en + enSize pol ≤ a → enIncOffset pol m en v a = m a) :=
  ⟨fun m en => enGetOffset_set m en _, fun m en a ha => enSetOffset_out m en _ a ha⟩

theorem expandOffsets_spec {units headers : Nat} (hpos : pos ≤ units) :
    (∀ a, (∀ i, i < units → a < entry pol body i + haSize pol ∨ entry pol body (i + 1) ≤ a) →
      expandOffsets pol mem body units pos headers size a = mem a) ∧
    (∀ i, i < pos → enGetOffset pol (expandOffsets pol mem body units pos headers size)
      (entry pol body i) = (enGetOffset pol mem (entry pol body i) + headers) % two16) ∧
    (∀ i, pos ≤ i → i < units → enGetOffset pol (expandOffsets pol mem body units pos headers size)
      (entry pol body i) = (enGetOffset pol mem (entry pol body i) + size) % two16) := by
  obtain ⟨hset1, hout1⟩ := @enIncOffset_spec pol headers
  obtain ⟨hset2, hout2⟩ := @enIncOffset_spec pol size
  obtain ⟨hrest1, hfront⟩ := @moveOffsets_entry pol _ (fun v => (v + headers) % two16) hset1 hout1
    mem body 0 pos
  obtain ⟨hrest2, hback⟩ := @moveOffsets_entry pol _ (fun v => (v + size) % two16) hset2 hout2
    (moveOffsets pol (fun m en => enIncOffset pol m en headers) pos mem (entry pol body 0)) body pos
    (units - pos)
  have hsize : enSize pol = haSize pol + 2 := rfl
  -- each loop leaves the offsets of the other one alone
  have hother : ∀ {i j a : Nat}, i ≠ j → a < 2 →
      entry pol body i + haSize pol + a < entry pol body j + haSize pol ∨
        entry pol body (j + 1) ≤ entry pol body i + haSize pol + a := by
    intro i j a hij ha
    rcases Nat.lt_or_gt_of_ne hij with h | h
    · have := @entry_lt pol body _ _ h
      omega
    · have := @entry_lt pol body _ _ h
      rw [entry_succ]
      omega
  refine ⟨fun a ha => ?_, fun i hi => ?_, fun i hlo hi => ?_⟩
  · unfold expandOffsets
    rw [hrest2 a fun i _ hi => ha i (by omega), hrest1 a fun i _ hi => ha i (by omega)]
  · rw [← hfront i (Nat.zero_le i) (by omega)]
    exact Bytes.getLe_congr 2 _ _ _ _ fun a ha => hrest2 _ fun j hj _ => hother (by omega) ha
  · have hkeep : enGetOffset pol (moveOffsets pol (fun m en => enIncOffset pol m en headers) pos mem
        (entry pol body 0)) (entry pol body i) = enGetOffset pol mem (entry pol body i) :=
      Bytes.getLe_congr 2 _ _ _ _ fun a ha => hrest1 _ fun j _ hj => hother (by omega) ha
    rw [← hkeep]
    exact hback i hlo (by omega)

/-- What `cde40_expand` does to an item, in the sizes of its entries. -/
theorem Holds.expand_eq (h : Holds pol mem body loc es len) (hpos : pos ≤ es.length)
    (hr : expand pol mem body loc pos count size = some r) :
    r = (expandParts pol mem body pos count size (2 + es.length * enSize pol + bodies pol (es.take pos))
        ((es.length - pos) * enSize pol + bodies pol (es.take pos)) (bodies pol (es.drop pos)),
      2 + es.length * enSize pol + bodies pol (es.take pos) + count * enSize pol) := by
  unfold expand at hr
  rw [h.units] at hr
  obtain ⟨offset, hoffset, hr⟩ := Option.bind_eq_some_iff.mp hr
  obtain ⟨front, hfront, hr⟩ := Option.bind_eq_some_iff.mp hr
  obtain ⟨second, hsecond, hr⟩ := Option.bind_eq_some_iff.mp hr
  have h1 := h.expandOffset_eq hpos hoffset
  have h2 := h.regsize_eq (by omega) hfront
  have h3 := h.regsize_eq (by omega) hsecond
  rw [List.drop_zero] at h2
  rw [List.take_of_length_le (by rw [List.length_drop])] at h3
  rw [← Option.some.inj hr, h1, h2, h3]

/-- With large keys it comes to an end. -/
theorem expand_large (pos count size : Nat) : ∃ r, expand .large mem body loc pos count size = some r := by
  obtain ⟨offset, hoffset⟩ := @expandOffset_large mem body loc pos
  obtain ⟨front, hfront⟩ := @regsize_large mem body loc 0 pos
  obtain ⟨second, hsecond⟩ := @regsize_large mem body loc pos (getUnits mem body - pos)
  unfold expand
  simp only [hoffset, hfront, hsecond, Option.bind_eq_bind, Option.bind_some]
  exact ⟨_, rfl⟩

/-- **What `cde40_expand` leaves at each address**: the two parts are where they belong. -/
theorem Holds.expand_byte (h : Holds pol mem body loc es len) (hpos : pos ≤ es.length)
    (hr : expand pol mem body loc pos count size = some r) (a : Nat) :
    r.1 a =
      if entry pol body pos + count * enSize pol ≤ a ∧
          a < body + 2 + es.length * enSize pol + bodies pol (es.take pos) + count * enSize pol then
        expandOffsets pol mem body es.length pos (count * enSize pol) size (a - count * enSize pol)
      else if body + 2 + es.length * enSize pol + bodies pol (es.take pos) + size ≤ a ∧
          a < body + len + size then
        expandOffsets pol mem body es.length pos (count * enSize pol) size (a - size)
      else expandOffsets pol mem body es.length pos (count * enSize pol) size a := by
  have hparts := @bodies_take_add_drop pol es pos
  have hlen := h.length
  have hentry : entry pol body pos + (es.length - pos) * enSize pol =
      body + 2 + es.length * enSize pol := by
    rw [← entry_add, Nat.add_sub_cancel' hpos]
    rfl
  rw [h.expand_eq hpos hr]
  unfold expandParts
  dsimp only
  rw [h.units, ite_move, ite_move]
  · show ((expandOffsets pol mem body es.length pos (count * enSize pol) size).move _ _ _).move
      _ _ _ a = _
    generalize expandOffsets pol mem body es.length pos (count * enSize pol) size = m
    by_cases h1 : entry pol body pos + count * enSize pol ≤ a ∧
        a < body + 2 + es.length * enSize pol + bodies pol (es.take pos) + count * enSize pol
    · rw [if_pos h1, Bytes.move_in _ _ _ _ _ h1.1 (by omega), Bytes.move_out _ _ _ _ _ (by omega)]
      congr 1
      omega
    · rw [if_neg h1, Bytes.move_out _ _ _ _ _ (by omega)]
      by_cases h2 : body + 2 + es.length * enSize pol + bodies pol (es.take pos) + size ≤ a ∧
          a < body + len + size
      · rw [if_pos h2, Bytes.move_in _ _ _ _ _ (by omega) (by omega)]
        congr 1
        omega
      · rw [if_neg h2, Bytes.move_out _ _ _ _ _ (by omega)]
  · intro hge
    rw [List.drop_eq_nil_of_le (by omega), bodies_nil]
  · omega

/-- The entries of an item on both sides of a position. -/
theorem Holds.split (h : Holds pol mem body loc es len) (pos : Nat) (hpos : pos ≤ es.length) :
    Chain pol mem body loc (body + 2) (2 + es.length * enSize pol) (es.take pos) ∧
      Chain pol mem body loc (entry pol body pos)
        (2 + es.length * enSize pol + bodies pol (es.take pos)) (es.drop pos) := by
  have hchain := h.chain
  conv at hchain => arg 7; rw [← List.take_append_drop pos es]
  rw [chain_append, List.length_take, Nat.min_eq_left hpos] at hchain
  exact hchain

/-- **`cde40_expand`** leaves the entries in front of the position and those behind it, with a room
    between them that the offsets already count. -/
structure Room (pol : KeyPol) (mem mem' : Bytes) (body loc : Nat) (es : List EntryHint)
    (len pos count size : Nat) : Prop where
  units : getUnits mem' body = es.length
  front : Chain pol mem' body loc (body + 2) (2 + (es.length + count) * enSize pol) (es.take pos)
  back : Chain pol mem' body loc (entry pol body (pos + count))
    (2 + es.length * enSize pol + bodies pol (es.take pos) + size) (es.drop pos)
  frame : ∀ a, a < body ∨ body + len + size ≤ a → mem' a = mem a

theorem Holds.expand_room (h : Holds pol mem body loc es len) (hpos : pos ≤ es.length)
    (hsize : count * enSize pol ≤ size) (hfit : len + size ≤ maxBlksize)
    (hr : expand pol mem body loc pos count size = some r) :
    Room pol mem r.1 body loc es len pos count size := by
  obtain ⟨hrest, hfront, hback⟩ := @expandOffsets_spec pol mem body pos size es.length
    (count * enSize pol) hpos
  have hbyte := @Holds.expand_byte pol mem body loc len es pos count size r h hpos hr
  have hparts := @bodies_take_add_drop pol es pos
  have hlen := h.length
  have hen : enSize pol = haSize pol + 2 := rfl
  have htop : entry pol body es.length = body + 2 + es.length * enSize pol := rfl
  have hnc : (es.length + count) * enSize pol = es.length * enSize pol + count * enSize pol :=
    Nat.add_mul _ _ _
  have hpc : entry pol body pos ≤ entry pol body es.length :=
    Nat.add_le_add_left (Nat.mul_le_mul_right _ hpos) _
  have hzero : body + 2 ≤ entry pol body pos := Nat.le_add_right _ _
  have hblk := maxBlksize_eq
  have h16 := two16_eq
  -- a byte of no header is moved as it was
  have hbody : ∀ a, body + 2 + es.length * enSize pol ≤ a ∨ a < body + 2 →
      expandOffsets pol mem body es.length pos (count * enSize pol) size a = mem a := by
    intro a ha
    refine hrest a fun i hi => ?_
    have := @entry_lt pol body _ _ hi
    have h0 : body + 2 ≤ entry pol body i := Nat.le_add_right _ _
    rw [entry_succ]
    omega
  -- a byte in front of the position stays where it is
  have hstay : ∀ a, a < entry pol body pos →
      r.1 a =
        expandOffsets pol mem body es.length pos (count * enSize pol) size a := by
    intro a ha
    rw [hbyte, if_neg (by omega), if_neg (by omega)]
  have hchains := h.split pos hpos
  refine ⟨?_, ?_, ?_, ?_⟩
  · rw [← h.units]
    refine Bytes.getLe_congr 2 _ _ _ _ fun i hi => ?_
    rw [hstay _ (by omega), hbody _ (Or.inr (by omega))]
  · refine hchains.1.moved (fun i hi a ha => ?_) (fun i hi => ?_) fun a ha => ?_
    · rw [List.length_take, Nat.min_eq_left hpos] at hi
      have hlt := @entry_lt pol body _ _ hi
      show r.1 (entry pol body i + a) = mem (entry pol body i + a)
      rw [hstay _ (by omega)]
      exact hrest _ fun j _ => hash_apart ha
    · rw [List.length_take, Nat.min_eq_left hpos] at hi
      have hlt := @entry_lt pol body _ _ hi
      have hkeep : enGetOffset pol r.1 (entry pol body i) =
          enGetOffset pol (expandOffsets pol mem body es.length pos (count * enSize pol) size)
            (entry pol body i) :=
        Bytes.getLe_congr 2 _ _ _ _ fun a ha => hstay _ (by omega)
      have hold := h.offset_eq (show i < es.length by omega)
      have hsmall : bodies pol (es.take i) ≤ bodies pol es := by
        rw [← @bodies_take_add_drop pol es i]
        exact Nat.le_add_right _ _
      show enGetOffset pol r.1 (entry pol body i) + _ =
        enGetOffset pol mem (entry pol body i) + _
      rw [hkeep, hfront i hi, hold, Nat.mod_eq_of_lt (by omega)]
      omega
    · rw [hbyte, if_pos (by omega), show body + (2 + (es.length + count) * enSize pol) + a -
        count * enSize pol = body + (2 + es.length * enSize pol) + a by omega, hbody _ (Or.inl (by omega))]
  · refine hchains.2.moved (fun i hi a ha => ?_) (fun i hi => ?_) fun a ha => ?_
    · rw [List.length_drop] at hi
      have hlt := @entry_lt pol body _ _ (show pos + i < es.length by omega)
      have hadd := @entry_add pol body pos i
      have hcount := @entry_add pol body pos count
      rw [hbyte, if_pos (by omega), show entry pol body (pos + count) + i * enSize pol + a -
        count * enSize pol = entry pol body (pos + i) + a by omega, hrest _ fun j _ => hash_apart ha,
        hadd]
    · rw [List.length_drop] at hi
      have hlt := @entry_lt pol body _ _ (show pos + i < es.length by omega)
      have hadd := @entry_add pol body pos i
      have hcount := @entry_add pol body pos count
      have hkeep : enGetOffset pol r.1
          (entry pol body (pos + count) + i * enSize pol) =
          enGetOffset pol (expandOffsets pol mem body es.length pos (count * enSize pol) size)
            (entry pol body (pos + i)) :=
        Bytes.getLe_congr 2 _ _ _ _ fun a ha => by
          rw [hbyte, if_pos (by omega), show entry pol body (pos + count) + i * enSize pol +
            haSize pol + a - count * enSize pol = entry pol body (pos + i) + haSize pol + a by omega]
      have hold := h.offset_eq (show pos + i < es.length by omega)
      have hsmall : bodies pol (es.take (pos + i)) ≤ bodies pol es := by
        rw [← @bodies_take_add_drop pol es (pos + i)]
        exact Nat.le_add_right _ _
      rw [hkeep, hback (pos + i) (by omega) (by omega), ← hadd, hold, Nat.mod_eq_of_lt (by omega)]
      omega
    · rw [hbyte, if_neg (by omega), if_pos (by omega), show body + (2 + es.length * enSize pol +
        bodies pol (es.take pos) + size) + a - size = body + (2 + es.length * enSize pol +
        bodies pol (es.take pos)) + a by omega, hbody _ (Or.inl (by omega))]
  · intro a ha
    rw [hbyte, if_neg (by omega), if_neg (by omega), hbody _ (by omega)]

end Expand

/-! ## Cutting entries out -/

section Cut

variable {pol : KeyPol} {mem : Bytes} {body loc len : Nat} {es : List EntryHint} {pos count : Nat}

theorem enDecOffset_spec (v : Nat) :
    (∀ m en, enGetOffset pol (enDecOffset pol m en v) en =
      (enGetOffset pol m en + (two32 - v)) % two16) ∧
    (∀ m en a, a < en + haSize pol ∨ en + enSize pol ≤ a → enDecOffset pol m en v a = m a) :=
  ⟨fun m en => enGetOffset_set m en _, fun m en a ha => enSetOffset_out m en _ a ha⟩

/-- The memory of `cde40_cut` when the headers and the bodies in front of the position are where they
    belong: `first` bytes have been moved by the headers that go. -/
def cutFront (pol : KeyPol) (mem : Bytes) (body pos count first : Nat) : Bytes :=
  moveOffsets pol (fun m en => enDecOffset pol m en (count * enSize pol)) pos
    (mem.move (entry pol body pos) (entry pol body pos + enSize pol * count) first) (entry pol body 0)

/-- The memory when the bodies behind the position are there too. -/
def cutBack (pol : KeyPol) (mem : Bytes) (body pos count units src dst size : Nat) : Bytes :=
  moveOffsets pol (fun m en => enDecOffset pol m en (src - dst)) (units - count - pos)
    (mem.move dst src size) (entry pol body pos)

/-- Behind the position the first move is what there is; in front of it only offsets have changed. -/
theorem cutFront_spec (first : Nat) :
    (∀ a, entry pol body pos ≤ a → cutFront pol mem body pos count first a =
      if a < entry pol body pos + first then mem (a + count * enSize pol) else mem a) ∧
    (∀ a, a < entry pol body pos →
      (∀ i, i < pos → a < entry pol body i + haSize pol ∨ entry pol body (i + 1) ≤ a) →
      cutFront pol mem body pos count first a = mem a) ∧
    (∀ i, i < pos → enGetOffset pol (cutFront pol mem body pos count first) (entry pol body i) =
      (enGetOffset pol mem (entry pol body i) + (two32 - count * enSize pol)) % two16) := by
  obtain ⟨hset, hout⟩ := @enDecOffset_spec pol (count * enSize pol)
  obtain ⟨hrest, hdec⟩ := @moveOffsets_entry pol _
    (fun v => (v + (two32 - count * enSize pol)) % two16) hset hout
    (mem.move (entry pol body pos) (entry pol body pos + enSize pol * count) first) body 0 pos
  have hen : enSize pol = haSize pol + 2 := rfl
  refine ⟨fun a ha => ?_, fun a ha hfield => ?_, fun i hi => ?_⟩
  · unfold cutFront
    rw [hrest a fun i _ hi => Or.inr ?_]
    · by_cases hlt : a < entry pol body pos + first
      · rw [if_pos hlt, Bytes.move_in _ _ _ _ _ ha hlt, Nat.mul_comm]
        congr 1
        omega
      · rw [if_neg hlt, Bytes.move_out _ _ _ _ _ (by omega)]
    · have := @entry_lt pol body i pos (by omega)
      rw [entry_succ]
      omega
  · unfold cutFront
    rw [hrest a fun i _ hi => hfield i (by omega), Bytes.move_out _ _ _ _ _ (by omega)]
  · have hkeep : enGetOffset pol
        (mem.move (entry pol body pos) (entry pol body pos + enSize pol * count) first)
        (entry pol body i) = enGetOffset pol mem (entry pol body i) :=
      Bytes.getLe_congr 2 _ _ _ _ fun a ha => by
        have := @entry_lt pol body i pos hi
        rw [Bytes.move_out _ _ _ _ _ (by omega)]
    rw [← hkeep]
    exact hdec i (Nat.zero_le i) (by omega)

/-- The second move, and the offsets of the headers that are left behind the position. -/
theorem cutBack_spec (units src dst size : Nat) (hunits : pos + count ≤ units)
    (hdst : entry pol body (units - count) ≤ dst) :
    (∀ a, dst ≤ a → cutBack pol mem body pos count units src dst size a =
      if a < dst + size then mem (a - dst + src) else mem a) ∧
    (∀ a, a < dst →
      (∀ i, pos ≤ i → i < units - count →
        a < entry pol body i + haSize pol ∨ entry pol body (i + 1) ≤ a) →
      cutBack pol mem body pos count units src dst size a = mem a) ∧
    (∀ i, pos ≤ i → i < units - count →
      enGetOffset pol (cutBack pol mem body pos count units src dst size) (entry pol body i) =
        (enGetOffset pol mem (entry pol body i) + (two32 - (src - dst))) % two16) := by
  obtain ⟨hset, hout⟩ := @enDecOffset_spec pol (src - dst)
  obtain ⟨hrest, hdec⟩ := @moveOffsets_entry pol _
    (fun v => (v + (two32 - (src - dst))) % two16) hset hout (mem.move dst src size) body pos
    (units - count - pos)
  have hen : enSize pol = haSize pol + 2 := rfl
  refine ⟨fun a ha => ?_, fun a ha hfield => ?_, fun i hlo hi => ?_⟩
  · unfold cutBack
    rw [hrest a fun i _ hi => Or.inr ?_]
    · by_cases hlt : a < dst + size
      · rw [if_pos hlt, Bytes.move_in _ _ _ _ _ ha hlt]
      · rw [if_neg hlt, Bytes.move_out _ _ _ _ _ (by omega)]
    · have := @entry_lt pol body i (units - count) (by omega)
      rw [entry_succ]
      omega
  · unfold cutBack
    rw [hrest a fun i hlo hi => hfield i hlo (by omega), Bytes.move_out _ _ _ _ _ (by omega)]
  · have hkeep : enGetOffset pol (mem.move dst src size) (entry pol body i) =
        enGetOffset pol mem (entry pol body i) :=
      Bytes.getLe_congr 2 _ _ _ _ fun a ha => by
        have := @entry_lt pol body i (units - count) hi
        rw [Bytes.move_out _ _ _ _ _ (by omega)]
    rw [← hkeep]
    exact hdec i hlo (by omega)

/-- The entries in front of those that are cut, those, and those behind them. -/
theorem bodies_three (pos count : Nat) :
    bodies pol (es.take pos) + bodies pol ((es.drop pos).take count) +
        bodies pol (es.drop (pos + count)) = bodies pol es ∧
      bodies pol (es.take (pos + count)) =
        bodies pol (es.take pos) + bodies pol ((es.drop pos).take count) := by
  have htake : bodies pol (es.take (pos + count)) =
      bodies pol (es.take pos) + bodies pol ((es.drop pos).take count) := by
    rw [List.take_add, bodies_append]
  have hall := @bodies_take_add_drop pol es (pos + count)
  omega

/-- What `cde40_cut` does to an item, in the sizes of its entries. -/
theorem Holds.cut_eq (h : Holds pol mem body loc es len) (hpos : pos < es.length) (hc : 0 < count)
    (hle : pos + count ≤ es.length) :
    let split := body + 2 + es.length * enSize pol + bodies pol (es.take pos)
    let gone := bodies pol ((es.drop pos).take count)
    let front := cutFront pol mem body pos count
      ((es.length - (pos + count)) * enSize pol + bodies pol (es.take pos))
    let moved :=
      if pos + count < es.length then
        cutBack pol front body pos count es.length (split + gone) (split - count * enSize pol)
          (bodies pol (es.drop (pos + count)))
      else front
    cut pol mem body loc pos count len =
      some (setUnits moved body (getUnits moved body + (two32 - count)), gone + count * enSize pol) := by
  intro split gone front moved
  obtain ⟨hbodies, htake⟩ := @bodies_three pol es pos count
  have hlen := h.length
  have hen : enSize pol = haSize pol + 2 := rfl
  have hkeep : ¬ es.length < u32 (pos + count) := Nat.not_lt.mpr (Nat.le_trans (u32_le _) hle)
  have hfirst : regsize pol mem body loc 0 pos = some (bodies pol (es.take pos)) := by
    rw [h.regsize_inner (by omega), List.drop_zero]
  have hgone : (if pos + count = es.length then some (len - enGetOffset pol mem (entry pol body pos))
      else regsize pol mem body loc pos count) = some gone := by
    by_cases hend : pos + count = es.length
    · rw [if_pos hend, h.offset_eq hpos]
      have : bodies pol (es.drop (pos + count)) = 0 := by
        rw [List.drop_eq_nil_of_le (by omega), bodies_nil]
      show some _ = some (bodies pol ((es.drop pos).take count))
      congr 1
      omega
    · rw [if_neg hend, h.regsize_inner (by omega)]
  have hsecond : (if pos + count = es.length then 0
      else len - enGetOffset pol mem (entry pol body (pos + count))) =
      bodies pol (es.drop (pos + count)) := by
    by_cases hend : pos + count = es.length
    · rw [if_pos hend, List.drop_eq_nil_of_le (by omega), bodies_nil]
    · rw [if_neg hend, h.offset_eq (show pos + count < es.length by omega)]
      omega
  -- the source of the second move is where the first move has put the offset of its header
  have hsrc : pos + count < es.length →
      body + enGetOffset pol front (entry pol body pos) = split + gone := by
    intro hlt
    have hadd := @entry_add pol body pos count
    have hpart : enSize pol ≤ (es.length - (pos + count)) * enSize pol :=
      Nat.le_mul_of_pos_left _ (by omega)
    have hread : enGetOffset pol front (entry pol body pos) =
        enGetOffset pol mem (entry pol body (pos + count)) :=
      Bytes.getLe_congr 2 _ _ _ _ fun a ha => by
        rw [show front = cutFront pol mem body pos count _ from rfl,
          (cutFront_spec _).1 _ (by omega), if_pos (by omega)]
        congr 1
        omega
    rw [hread, h.offset_eq hlt, htake]
    omega
  unfold cut
  dsimp only
  rw [h.units, if_neg hkeep, if_neg (by omega), hfirst, hgone, hsecond]
  simp only [Option.bind_eq_bind, Option.bind_some]
  unfold cutParts
  dsimp only
  rw [h.units]
  have hmoved : (if 0 < bodies pol (es.drop (pos + count)) then
      moveOffsets pol (fun m en => enDecOffset pol m en (count * enSize pol + gone))
        (es.length - count - pos)
        (front.move (body + enGetOffset pol front (entry pol body pos) -
          (count * enSize pol + gone)) (body + enGetOffset pol front (entry pol body pos))
          (bodies pol (es.drop (pos + count)))) (entry pol body pos)
      else front) = moved := by
    by_cases hlt : pos + count < es.length
    · have hpositive : 0 < bodies pol (es.drop (pos + count)) := by
        rw [List.drop_eq_getElem_cons hlt, bodies_cons]
        have := @obSize_le_unitSize pol es[pos + count]
        have := @obSize_pos pol
        omega
      have hroom : count * enSize pol ≤ split := by
        have : count * enSize pol ≤ es.length * enSize pol := Nat.mul_le_mul_right _ (by omega)
        omega
      show _ = if pos + count < es.length then _ else _
      rw [if_pos hpositive, if_pos hlt, hsrc hlt]
      unfold cutBack
      rw [show split + gone - (split - count * enSize pol) = count * enSize pol + gone by omega,
        show split + gone - (count * enSize pol + gone) = split - count * enSize pol by omega]
    · have hnone : ¬ 0 < bodies pol (es.drop (pos + count)) := by
        rw [List.drop_eq_nil_of_le (by omega), bodies_nil]
        omega
      show _ = if pos + count < es.length then _ else _
      rw [if_neg hnone, if_neg hlt]
  exact congrArg (fun m => some (setUnits m body (getUnits m body + (two32 - count)),
    gone + count * enSize pol)) hmoved

/-- The bytes of the item when both parts have been moved: the headers and the bodies in front of the
    position by the headers that go, the bodies behind it by these and the bodies that go. -/
structure CutBytes (pol : KeyPol) (mem mem' : Bytes) (body : Nat) (es : List EntryHint)
    (pos count headers gone : Nat) : Prop where
  /-- The bodies in front. -/
  front : ∀ a, body + 2 + (es.length - count) * enSize pol ≤ a →
    a < body + 2 + (es.length - count) * enSize pol + bodies pol (es.take pos) →
    mem' a = mem (a + headers)
  /-- The bodies behind. -/
  back : ∀ a, body + 2 + (es.length - count) * enSize pol + bodies pol (es.take pos) ≤ a →
    a < body + 2 + (es.length - count) * enSize pol + bodies pol (es.take pos) +
      bodies pol (es.drop (pos + count)) → mem' a = mem (a + (headers + gone))
  hashFront : ∀ i, i < pos → ∀ a, a < haSize pol →
    mem' (entry pol body i + a) = mem (entry pol body i + a)
  hashBack : ∀ i, pos ≤ i → i < es.length - count → ∀ a, a < haSize pol →
    mem' (entry pol body i + a) = mem (entry pol body (i + count) + a)
  offsetFront : ∀ i, i < pos → enGetOffset pol mem' (entry pol body i) =
    (enGetOffset pol mem (entry pol body i) + (two32 - headers)) % two16
  offsetBack : ∀ i, pos ≤ i → i < es.length - count → enGetOffset pol mem' (entry pol body i) =
    (enGetOffset pol mem (entry pol body (i + count)) + (two32 - (headers + gone))) % two16
  frame : ∀ a, a < body + 2 ∨ body + 2 + es.length * enSize pol + bodies pol es ≤ a → mem' a = mem a

theorem cutFront_bytes (hle : pos + count ≤ es.length) :
    let first := (es.length - (pos + count)) * enSize pol + bodies pol (es.take pos)
    let front := cutFront pol mem body pos count first
    (∀ a, entry pol body pos ≤ a →
      a < body + 2 + (es.length - count) * enSize pol + bodies pol (es.take pos) →
      front a = mem (a + count * enSize pol)) ∧
    (∀ a, body + 2 + (es.length - count) * enSize pol + bodies pol (es.take pos) ≤ a →
      front a = mem a) ∧
    (∀ a, a < body + 2 → front a = mem a) ∧
    (∀ i, i < pos → ∀ a, a < haSize pol → front (entry pol body i + a) = mem (entry pol body i + a)) ∧
    (∀ i, i < pos → enGetOffset pol front (entry pol body i) =
      (enGetOffset pol mem (entry pol body i) + (two32 - count * enSize pol)) % two16) := by
  intro first front
  obtain ⟨hmove, hrest, hoff⟩ := @cutFront_spec pol mem body pos count first
  have hen : enSize pol = haSize pol + 2 := rfl
  -- the first move ends where the bodies in front of the position now end
  have hend : entry pol body pos + first =
      body + 2 + (es.length - count) * enSize pol + bodies pol (es.take pos) := by
    have : entry pol body pos + (es.length - (pos + count)) * enSize pol =
        body + 2 + (es.length - count) * enSize pol := by
      rw [← entry_add, show pos + (es.length - (pos + count)) = es.length - count by omega]
      rfl
    show _ + (_ + _) = _
    omega
  have hpart : entry pol body pos ≤ body + 2 + (es.length - count) * enSize pol :=
    Nat.add_le_add_left (Nat.mul_le_mul_right _ (by omega)) _
  refine ⟨fun a hlo hhi => ?_, fun a hlo => ?_, fun a hlt => ?_, fun i hi a ha => ?_, hoff⟩
  · show cutFront pol mem body pos count first a = _
    rw [hmove a hlo, if_pos (by omega)]
  · show cutFront pol mem body pos count first a = _
    rw [hmove a (by omega), if_neg (by omega)]
  · have hzero : body + 2 ≤ entry pol body pos := Nat.le_add_right _ _
    refine hrest a (by omega) fun i _ => Or.inl ?_
    have : body + 2 ≤ entry pol body i := Nat.le_add_right _ _
    omega
  · have := @entry_lt pol body i pos hi
    exact hrest _ (by omega) fun j _ => hash_apart ha

theorem Holds.cut_bytes (h : Holds pol mem body loc es len) (hpos : pos < es.length) (hc : 0 < count)
    (hle : pos + count ≤ es.length) :
    ∃ moved, cut pol mem body loc pos count len =
        some (setUnits moved body (getUnits moved body + (two32 - count)),
          bodies pol ((es.drop pos).take count) + count * enSize pol) ∧
      CutBytes pol mem moved body es pos count (count * enSize pol)
        (bodies pol ((es.drop pos).take count)) := by
  refine ⟨_, h.cut_eq hpos hc hle, ?_⟩
  obtain ⟨hfront, hbehind, hbefore, hhash, hoff⟩ := @cutFront_bytes pol mem body es pos count hle
  obtain ⟨hbodies, -⟩ := @bodies_three pol es pos count
  have hen : enSize pol = haSize pol + 2 := rfl
  have htop : entry pol body (es.length - count) = body + 2 + (es.length - count) * enSize pol := rfl
  have hpart : entry pol body pos ≤ body + 2 + (es.length - count) * enSize pol :=
    Nat.add_le_add_left (Nat.mul_le_mul_right _ (by omega)) _
  have hnn : (es.length - count) * enSize pol + count * enSize pol = es.length * enSize pol := by
    rw [← Nat.add_mul, Nat.sub_add_cancel (by omega)]
  -- a header that is left behind the position has been moved with the bodies in front
  have hheader : ∀ i, pos ≤ i → i < es.length - count → ∀ a, a < enSize pol →
      cutFront pol mem body pos count
        ((es.length - (pos + count)) * enSize pol + bodies pol (es.take pos)) (entry pol body i + a) =
        mem (entry pol body (i + count) + a) := by
    intro i hlo hi a ha
    have hlt := @entry_lt pol body i (es.length - count) hi
    have hge : entry pol body pos ≤ entry pol body i :=
      Nat.add_le_add_left (Nat.mul_le_mul_right _ hlo) _
    rw [hfront _ (by omega) (by omega), entry_add]
    congr 1
    omega
  by_cases hlt : pos + count < es.length
  · rw [if_pos hlt]
    generalize cutFront pol mem body pos count
      ((es.length - (pos + count)) * enSize pol + bodies pol (es.take pos)) = front at *
    rw [show body + 2 + es.length * enSize pol + bodies pol (es.take pos) - count * enSize pol =
      body + 2 + (es.length - count) * enSize pol + bodies pol (es.take pos) by omega]
    obtain ⟨hmove, hrest, hdec⟩ := @cutBack_spec pol front body pos count es.length
      (body + 2 + es.length * enSize pol + bodies pol (es.take pos) +
        bodies pol ((es.drop pos).take count))
      (body + 2 + (es.length - count) * enSize pol + bodies pol (es.take pos))
      (bodies pol (es.drop (pos + count))) hle (by omega)
    rw [show body + 2 + es.length * enSize pol + bodies pol (es.take pos) +
        bodies pol ((es.drop pos).take count) -
        (body + 2 + (es.length - count) * enSize pol + bodies pol (es.take pos)) =
      count * enSize pol + bodies pol ((es.drop pos).take count) by omega] at hdec
    generalize cutBack pol front body pos count es.length
      (body + 2 + es.length * enSize pol + bodies pol (es.take pos) +
        bodies pol ((es.drop pos).take count))
      (body + 2 + (es.length - count) * enSize pol + bodies pol (es.take pos))
      (bodies pol (es.drop (pos + count))) = moved at *
    -- a byte in front of the bodies behind, in no header behind the position
    have hkeep : ∀ a, a < body + 2 + (es.length - count) * enSize pol + bodies pol (es.take pos) →
        (a < entry pol body pos ∨ body + 2 + (es.length - count) * enSize pol ≤ a) →
        moved a = front a := by
      intro a ha hout
      refine hrest a ha fun i hlo hi => ?_
      have hlt := @entry_lt pol body i (es.length - count) hi
      have hge : entry pol body pos ≤ entry pol body i :=
        Nat.add_le_add_left (Nat.mul_le_mul_right _ hlo) _
      rw [entry_succ]
      omega
    constructor
    · intro a hlo hhi
      rw [hkeep a hhi (Or.inr hlo), hfront a (by omega) hhi]
    · intro a hlo hhi
      rw [hmove a hlo, if_pos hhi, hbehind _ (by omega)]
      congr 1
      omega
    · intro i hi a ha
      have := @entry_lt pol body i pos hi
      rw [hkeep _ (by omega) (Or.inl (by omega)), hhash i hi a ha]
    · intro i hlo hi a ha
      have := @entry_lt pol body i (es.length - count) hi
      rw [hrest _ (by omega) fun j _ _ => hash_apart ha, hheader i hlo hi a (by omega)]
    · intro i hi
      have := @entry_lt pol body i pos hi
      rw [← hoff i hi]
      exact Bytes.getLe_congr 2 _ _ _ _ fun a ha => hkeep _ (by omega) (Or.inl (by omega))
    · intro i hlo hi
      have hsame : enGetOffset pol front (entry pol body i) =
          enGetOffset pol mem (entry pol body (i + count)) :=
        Bytes.getLe_congr 2 _ _ _ _ fun a ha => by
          rw [Nat.add_assoc, Nat.add_assoc]
          exact hheader i hlo hi _ (by omega)
      rw [hdec i hlo hi, hsame]
    · intro a ha
      rcases ha with ha | ha
      · have : body + 2 ≤ entry pol body pos := Nat.le_add_right _ _
        rw [hkeep a (by omega) (Or.inl (by omega)), hbefore a ha]
      · rw [hmove a (by omega), if_neg (by omega), hbehind a (by omega)]
  · rw [if_neg hlt]
    have hnone : bodies pol (es.drop (pos + count)) = 0 := by
      rw [List.drop_eq_nil_of_le (by omega), bodies_nil]
    constructor
    · intro a hlo hhi
      rw [hfront a (by omega) hhi]
    · intro a hlo hhi
      omega
    · exact hhash
    · intro i hlo hi
      omega
    · exact hoff
    · intro i hlo hi
      omega
    · intro a ha
      rcases ha with ha | ha
      · exact hbefore a ha
      · exact hbehind a (by omega)

theorem setUnits_out (m : Bytes) (v a : Nat) (h : a < body ∨ body + 2 ≤ a) :
    setUnits m body v a = m a := Bytes.setLe_out 2 _ _ _ _ h

theorem getUnits_set (m : Bytes) (v : Nat) : getUnits (setUnits m body v) body = v % two16 :=
  Bytes.getLe_setLe 2 _ _ _

/-- A chain is behind the number of units. -/
theorem Chain.setUnits {ha off : Nat} (h : Chain pol mem body loc ha off es) (v : Nat)
    (hha : body + 2 ≤ ha) (hoff : 2 ≤ off) : Chain pol (setUnits mem body v) body loc ha off es := by
  refine h.moved (fun i _ a _ => setUnits_out _ _ _ (Or.inr (by omega))) (fun i _ => ?_)
    fun a _ => setUnits_out _ _ _ (Or.inr (by omega))
  have hkeep : enGetOffset pol (Cde40.setUnits mem body v) (ha + i * enSize pol) =
      enGetOffset pol mem (ha + i * enSize pol) :=
    Bytes.getLe_congr 2 _ _ _ _ fun a _ => setUnits_out _ _ _ (Or.inr (by omega))
  rw [hkeep]

/-- **`cde40_cut` removes the entries** and gives back the bytes they took. -/
theorem Holds.cut_holds (h : Holds pol mem body loc es len) (hpos : pos < es.length) (hc : 0 < count)
    (hle : pos + count ≤ es.length) :
    ∃ mem', cut pol mem body loc pos count len =
        some (mem', bodies pol ((es.drop pos).take count) + count * enSize pol) ∧
      Holds pol mem' body loc (es.take pos ++ es.drop (pos + count))
        (len - (bodies pol ((es.drop pos).take count) + count * enSize pol)) ∧
      ∀ a, a < body ∨ body + len ≤ a → mem' a = mem a := by
  obtain ⟨moved, hcut, hm⟩ := h.cut_bytes hpos hc hle
  obtain ⟨hbodies, htake⟩ := @bodies_three pol es pos count
  have hlen := h.length
  have hfit := h.size
  have hblk := maxBlksize_eq
  have h16 := two16_eq
  have hen : enSize pol = haSize pol + 2 := rfl
  have hnew : (es.take pos ++ es.drop (pos + count)).length = es.length - count := by
    rw [List.length_append, List.length_take, List.length_drop]
    omega
  have hnn : (es.length - count) * enSize pol + count * enSize pol = es.length * enSize pol := by
    rw [← Nat.add_mul, Nat.sub_add_cancel (by omega)]
  have hentries : es.length ≤ es.length * enSize pol := Nat.le_mul_of_pos_right _ (by omega)
  refine ⟨_, hcut, ⟨?_, ?_, ?_, by omega⟩, fun a ha => ?_⟩
  · have hunits : getUnits moved body = es.length := by
      rw [← h.units]
      exact Bytes.getLe_congr 2 _ _ _ _ fun a ha => hm.frame _ (Or.inl (by omega))
    rw [getUnits_set, hunits, hnew, dec_mod (by omega) (by omega)]
  · refine Chain.setUnits ?_ _ (Nat.le_refl _) (Nat.le_add_right _ _)
    rw [chain_append, hnew, List.length_take, Nat.min_eq_left (Nat.le_of_lt hpos)]
    constructor
    · refine (h.split pos (Nat.le_of_lt hpos)).1.moved (fun i hi a ha => ?_) (fun i hi => ?_)
        fun a ha => ?_
      · rw [List.length_take, Nat.min_eq_left (Nat.le_of_lt hpos)] at hi
        exact hm.hashFront i hi a ha
      · rw [List.length_take, Nat.min_eq_left (Nat.le_of_lt hpos)] at hi
        have hold := h.offset_eq (show i < es.length by omega)
        have hsmall := @bodies_take_add_drop pol es i
        show enGetOffset pol moved (entry pol body i) + _ =
          enGetOffset pol mem (entry pol body i) + _
        rw [hm.offsetFront i hi, hold, dec_mod (by omega) (by omega)]
        omega
      · rw [hm.front _ (by omega) (by omega)]
        congr 1
        omega
    · refine (h.split (pos + count) hle).2.moved (fun i hi a ha => ?_) (fun i hi => ?_)
        fun a ha => ?_
      · rw [List.length_drop] at hi
        have := hm.hashBack (pos + i) (by omega) (by omega) a ha
        rwa [Nat.add_right_comm pos i count, entry_add, entry_add (pos + count)] at this
      · rw [List.length_drop] at hi
        have hold := h.offset_eq (show pos + count + i < es.length by omega)
        have hsmall := @bodies_take_add_drop pol es (pos + count + i)
        have hmore : bodies pol (es.take (pos + count + i)) =
            bodies pol (es.take (pos + count)) + bodies pol ((es.drop (pos + count)).take i) := by
          rw [← bodies_append, ← List.take_add]
        have hnow := hm.offsetBack (pos + i) (by omega) (by omega)
        rw [Nat.add_right_comm pos i count, hold] at hnow
        have hthis : body + 2 + pos * enSize pol + i * enSize pol = entry pol body (pos + i) :=
          (entry_add pos i).symm
        rw [hthis, hnow, ← entry_add, hold, dec_mod (by omega) (by omega)]
        omega
      · rw [hm.back _ (by omega) (by omega)]
        congr 1
        omega
  · rw [hnew, bodies_append]
    omega
  · rw [setUnits_out _ _ _ (by omega), hm.frame _ (by omega)]

/-- **`cde40_shrink`**, for any count: entries beyond the end are not asked for. -/
theorem Holds.shrink_holds (h : Holds pol mem body loc es len) (hpos : pos < es.length)
    (hwrap : pos + count < two32) {r : Bytes × Nat} (hr : shrink pol mem body loc pos count = some r) :
    r.2 = took pol ((es.drop pos).take count) ∧
      Holds pol r.1 body loc (es.take pos ++ es.drop (pos + count))
        (len - took pol ((es.drop pos).take count)) ∧
      ∀ a, a < body ∨ body + len ≤ a → r.1 a = mem a := by
  obtain ⟨n, hn⟩ : ∃ n, n = min count (es.length - pos) := ⟨_, rfl⟩
  have hclip : (if es.length < u32 (pos + count) then es.length - pos else count) = n := by
    rw [u32_of_lt hwrap]
    split <;> omega
  have hgone : (es.drop pos).take count = (es.drop pos).take n := by
    rw [hn, ← List.length_drop, ← List.take_eq_take_min]
  have hrest : es.drop (pos + count) = es.drop (pos + n) := by
    by_cases hle : pos + count ≤ es.length
    · rw [show n = count by omega]
    · rw [List.drop_eq_nil_of_le (by omega), List.drop_eq_nil_of_le (by omega)]
  have hlen : enGetOffset pol mem (entry pol body (es.length - 1)) +
      unitLen pol mem body loc (es.length - 1) = len := by
    have := h.wf.last (by rw [h.units]; omega)
    rwa [h.units] at this
  unfold shrink at hr
  dsimp only at hr
  rw [h.units, hclip] at hr
  rw [hgone, hrest]
  by_cases h0 : n = 0
  · have hnone : took pol [] = 0 := by simp [took]
    rw [if_pos h0] at hr
    rw [← Option.some.inj hr, h0, List.take_zero, Nat.add_zero, List.take_append_drop, hnone]
    exact ⟨rfl, h, fun _ _ => rfl⟩
  · rw [if_neg h0] at hr
    obtain ⟨last, hread, hr⟩ := Option.bind_eq_some_iff.mp hr
    rw [getLen_some hread, hlen] at hr
    obtain ⟨mem', hcut, hholds, hframe⟩ := h.cut_holds hpos (by omega : 0 < n) (by omega)
    have htook : bodies pol ((es.drop pos).take n) + n * enSize pol =
        took pol ((es.drop pos).take n) := by
      unfold took
      rw [List.length_take, List.length_drop, Nat.min_eq_left (by omega), Nat.add_comm]
    rw [htook] at hcut hholds
    rw [← Option.some.inj (hcut.symm.trans hr)]
    exact ⟨rfl, hholds, hframe⟩

/-- It comes to an end with large keys, or when it has nothing to do. -/
theorem Holds.shrink_some (h : Holds pol mem body loc es len) (hpos : pos < es.length)
    (hwrap : pos + count < two32) (hread : pol = .large ∨ count = 0) :
    ∃ r, shrink pol mem body loc pos count = some r := by
  unfold shrink
  dsimp only
  rw [h.units, u32_of_lt hwrap]
  obtain ⟨n, hn⟩ : ∃ n, n = if es.length < pos + count then es.length - pos else count := ⟨_, rfl⟩
  have hle : pos + n ≤ es.length ∧ n ≤ count := by
    rw [hn]
    split <;> omega
  rw [← hn]
  by_cases h0 : n = 0
  · rw [if_pos h0]
    exact ⟨_, rfl⟩
  · rw [if_neg h0]
    obtain rfl : pol = .large := hread.resolve_right fun hc => h0 (by omega)
    obtain ⟨mem', hcut, -⟩ := h.cut_holds hpos (Nat.pos_of_ne_zero h0) hle.1
    have hlen : enGetOffset .large mem (entry .large body (es.length - 1)) +
        unitLen .large mem body loc (es.length - 1) = len := by
      have := h.wf.last (by rw [h.units]; omega)
      rwa [h.units] at this
    rw [getLen_large]
    simp only [Option.bind_eq_bind, Option.bind_some, hlen, hcut]
    exact ⟨_, rfl⟩

/-- With short keys it does not. -/
theorem Holds.shrink_short (h : Holds .short mem body loc es len) (hpos : pos < es.length)
    (hwrap : pos + count < two32) (hc : 0 < count) : shrink .short mem body loc pos count = none := by
  unfold shrink
  dsimp only
  rw [h.units, u32_of_lt hwrap, if_neg (by split <;> omega)]
  rfl

end Cut

end Cde40

end Reiser4
