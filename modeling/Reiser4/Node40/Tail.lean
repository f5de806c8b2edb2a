/-
  The bytes of a tail item (`tail40.c`) and the cut in its node (`node40_trunc`).

  A tail is a header of `off` bytes, none for `plain40` and one for `ctail40`, and then a byte for each unit.  A
  write either goes over bytes that the item has, and asks for no room, or appends to it, and asks for as many
  bytes as are to be written or as a node can hold.  What the item holds behind the position decides how much is
  written or read.  A cut moves the bytes behind it down; the node then takes the last bytes of the item, or the
  whole item when no unit is left.

  The count has 64 bits and the position 32.  The room asked for is an `int`, so a count with bit 31 asks for a
  negative one; and the sum that says whether a write fits into the item has 32 bits, so it can come out small.

    1. `tail40_writesRead`   a write read back;
    2. `WF.trimmed_of`       a node one of whose items has lost bytes;
    3. `node40Trunc_cuts`    the cut;
    4. `tail40_iff`          the counts with which all is well.
-/
import Reiser4.Node40.Merge
import Reiser4.Node40.Cut
import Reiser4.LibAux.BinSearch

namespace Reiser4

open Reiser4.Lib

namespace Node40

/-! ## The methods -/

/-- What the methods use of `trans_hint_t` before they set anything in it: no source is a hole. -/
structure TailHint where
  count : Nat
  offset : Key
  specific : Option Bytes

/-- What `tail40_prep_write` sets in the hint. -/
structure WriteNeed where
  len : Int
  overhead : Nat
  maxkey : Key

section Methods

variable (mem : Bytes) (p : Place) (unit : Nat)

/-- The unit of a position; `MAX_UINT32` is the whole item, from its start. -/
def startUnit : Nat := if unit = maxUint32 then 0 else unit

/-- `tail40_pos`. -/
def tail40Pos : Nat := u32 (unit + p.off)

/-- `tail40_units`. -/
def tail40Units : Nat := u32 (p.len + (two32 - p.off))

/-- `place->len - tail40_pos(place)`. -/
def tail40Right : Nat := u32 (p.len + (two32 - tail40Pos p unit))

/-- The bytes that `tail40_read_units` copies out. -/
def tail40ReadUnits (count : Nat) : List UInt8 :=
  let unit := startUnit unit
  let n := if p.len < u64 (tail40Pos p unit + count) then tail40Right p unit else u32 count
  mem.slice (p.body + tail40Pos p unit) n

/-- `tail40_prep_write`, in a node that can have an item of `maxspace` bytes. -/
def tail40PrepWrite (maxspace : Nat) (hint : TailHint) : WriteNeed :=
  let len : Int :=
    if unit = maxUint32 then toInt hint.count
    else if tail40Right p unit ≠ 0 then 0
    else toInt hint.count
  let maxkey :=
    if unit = maxUint32 then hint.offset
    else
      let maxreal := body40MaxrealKey p.key (tail40Units p)
      maxreal.setOffset (u64 (maxreal.offset + 1))
  let most := toInt (maxspace - p.off)
  { len := if most < len then most else len
    overhead := p.off
    maxkey := maxkey }

/-- What `tail40_write_units` leaves: the memory, the number of bytes written and `hint->bytes`. -/
structure Written where
  mem : Bytes
  count : Nat
  bytes : Nat

/-- `tail40_write_units`; the key that it gets for unit 0 is the key of the item. -/
def tail40WriteUnits (hint : TailHint) (maxkey : Key) : Written :=
  let unit := startUnit unit
  let count := u32 hint.count
  let count := if p.len < u32 (count + tail40Pos p unit) then tail40Right p unit else count
  let last := u64 (hint.offset.offset + count)
  { mem :=
      match hint.specific with
      | some data => mem.copy (p.body + tail40Pos p unit) data 0 count
      | none => mem.fill (p.body + tail40Pos p unit) count 0
    count := count
    bytes := if maxkey.offset < last then last - maxkey.offset else 0 }

/-- What `tail40_trunc_units` leaves: the memory, the key of the item, what it sets in the hint, and the count. -/
structure Truncated where
  mem : Bytes
  key : Key
  overhead : Nat
  len : Int
  count : Nat

/-- `body40_get_key`, for items whose units are bytes. -/
def body40GetKey (pos : Nat) : Key := p.key.setOffset (u64 (p.key.offset + u32 pos))

/-- `tail40_trunc_units`; all its sums have 64 bits. -/
def tail40TruncUnits (count : Nat) : Truncated :=
  let unit := startUnit unit
  let pos := tail40Pos p unit
  let count := if p.len < u64 (pos + count) then tail40Right p unit else count
  let stop := u64 (pos + count)
  { mem := if stop < p.len then mem.move (p.body + pos) (p.body + stop) (p.len - stop) else mem
    key := if unit = 0 ∧ stop < p.len then body40GetKey p (unit + count) else p.key
    overhead := if count = tail40Units p then p.off else 0
    len := toInt count
    count := count }

end Methods

section Program

variable (pol : KeyPol) (node : NodeBlock)

/-- `node40_maxspace` and `node41_maxspace`, for a node header of `hs` bytes. -/
def maxspace (hs : Nat) : Nat := (node.size + (two32 - hs) + (two32 - ihSize pol)) % two16

/-- A key copied into an item header. -/
def ihSetKey (mem : Bytes) (ih : Nat) (key : Key) : Bytes :=
  match pol with
  | .short => ((mem.setLe 8 ih key.el0).setLe 8 (ih + 8) key.el2).setLe 8 (ih + 16) key.offset
  | .large =>
    (((mem.setLe 8 ih key.el0).setLe 8 (ih + 8) key.ordering).setLe 8 (ih + 16) key.el2).setLe 8 (ih + 24) key.offset

/-- A 64-bit count as the `int64_t` that a method returns. -/
def int64 (n : Nat) : Int := if n < 9223372036854775808 then n else n - 18446744073709551616

/-- `node40_trunc` of a tail item: the node and the result. -/
def node40Trunc (pos unit count : Nat) : Except Errno (NodeBlock × Int) :=
  match fetch pol node pos with
  | .error e => .error e
  | .ok p =>
    let t := tail40TruncUnits node.mem p unit count
    let node := { node with mem := t.mem }
    if int64 t.count < 0 then .ok (node, int64 t.count)
    else
      let len := toUint32 (t.overhead + t.len)
      let copyKey (node : NodeBlock) : NodeBlock :=
        { node with mem := ihSetKey pol node.mem (ihAt pol node pos) t.key }
      if 0 < len then
        if p.len ≤ len then .ok (shrink pol node pos maxUint32 p.len 1, int64 t.count)
        else .ok (copyKey (shrink pol node pos 0 len (u32 t.count)), int64 t.count)
      else .ok (copyKey node, int64 t.count)

end Program

/-! ## Specification -/

/-- The byte of a unit. -/
def unitByte (mem : Bytes) (p : Place) (i : Nat) : UInt8 := mem (p.body + p.off + i)

/-- The bytes to be written. -/
def source (hint : TailHint) (i : Nat) : UInt8 :=
  match hint.specific with
  | some data => data i
  | none => 0

/-- The item with the room that was asked for: a new item, or the item as it was with so many bytes more. -/
structure Expanded (mem mem' : Bytes) (p p' : Place) (unit : Nat) (need : WriteNeed) : Prop where
  off : p'.off = p.off
  len : (p'.len : Int) = (if unit = maxUint32 then (need.overhead : Int) else p.len) + need.len
  kept : unit ≠ maxUint32 → ∀ a < p.len, mem' (p'.body + a) = mem (p.body + a)

/-- **A write that can be read back**: the room asked for is not negative, and in an item with this room the write
    fills as much of the range as the item holds, the same range is read as it was written, and nothing else has
    changed. -/
def WritesRead (space : Nat) (mem : Bytes) (p : Place) (unit : Nat) (hint : TailHint) : Prop :=
  let need := tail40PrepWrite p unit space hint
  0 ≤ need.len ∧ ∀ mem' p', Expanded mem mem' p p' unit need →
    let w := tail40WriteUnits mem' p' unit hint need.maxkey
    w.count = min hint.count (tail40Units p' - startUnit unit) ∧
      tail40ReadUnits w.mem p' unit hint.count = (List.range w.count).map (source hint) ∧
      (∀ a, a < p'.body + p'.off + startUnit unit ∨ p'.body + p'.off + startUnit unit + w.count ≤ a →
        w.mem a = mem' a) ∧
      (unit ≠ maxUint32 → ∀ i < tail40Units p, i < unit ∨ unit + w.count ≤ i →
        unitByte w.mem p' i = unitByte mem p i)

/-- **A cut**: the bytes from the position on, as many as are to be cut or as there are, are gone; the key has moved
    by as many when the cut starts at the first byte; an item without units is gone as well, and the other items
    are as they were. -/
def Cuts (hs : Nat) (pol : KeyPol) (node : NodeBlock) (pos : Nat) (p : Place) (unit count : Nat) : Prop :=
  let n := min count (tail40Units p - startUnit unit)
  ∃ node', node40Trunc pol node pos unit count = .ok (node', (n : Int)) ∧ WF pol node' hs ∧
    if n = tail40Units p then Removed pol node node' pos
    else
      getNumItems node' = getNumItems node ∧
        (∀ i < getNumItems node, i ≠ pos → item pol node' i = item pol node i) ∧
        item pol node' pos =
          { item pol node pos with
            key := if startUnit unit = 0 then p.key.setOffset (u64 (p.key.offset + n)) else p.key
            body := (item pol node pos).body.take (p.off + startUnit unit) ++
              (item pol node pos).body.drop (p.off + startUnit unit + n) }

/-- The counts that the sums of the code can hold: with bytes of the item behind the position, the end of the
    range, and a count that has not lost more than the item can take; without, a room that is not negative. -/
def CountFits (p : Place) (unit count : Nat) : Prop :=
  if unit = maxUint32 ∨ tail40Right p unit = 0 then u32 count < 2147483648
  else p.off + unit + u32 count < two32 ∧ (count < two32 ∨ tail40Right p unit ≤ u32 count)

/-! ## Writing -/

section Write

variable {p : Place} {unit s : Nat}

theorem toInt_u32 (n : Nat) : toInt n = if u32 n < 2147483648 then (u32 n : Int) else (u32 n : Int) - 4294967296 := by
  unfold toInt u32 two32
  split <;> omega

/-- The fields of a position in an item, without the arithmetic of the machine. -/
theorem tail40_fields (hlen : p.len < 1048576) (hs : s + p.off ≤ p.len) :
    tail40Pos p s = s + p.off ∧ tail40Right p s = p.len - (s + p.off) ∧ tail40Units p = p.len - p.off := by
  have hpos : tail40Pos p s = s + p.off := u32_of_lt (by unfold two32; omega)
  refine ⟨hpos, ?_, ?_⟩
  · unfold tail40Right u32 two32
    rw [hpos]
    omega
  · unfold tail40Units u32 two32
    omega

/-- What is written, into an item that ends where the sum of the code can tell. -/
theorem tail40WriteUnits_spec (mem : Bytes) (hint : TailHint) (maxkey : Key) (hlen : p.len < 1048576)
    (hs : startUnit unit + p.off ≤ p.len) (hsum : startUnit unit + p.off + u32 hint.count < two32) :
    (tail40WriteUnits mem p unit hint maxkey).count = min (u32 hint.count) (p.len - (startUnit unit + p.off)) ∧
      (∀ i < (tail40WriteUnits mem p unit hint maxkey).count,
        (tail40WriteUnits mem p unit hint maxkey).mem (p.body + (startUnit unit + p.off) + i) = source hint i) ∧
      ∀ a, a < p.body + (startUnit unit + p.off) ∨
          p.body + (startUnit unit + p.off) + (tail40WriteUnits mem p unit hint maxkey).count ≤ a →
        (tail40WriteUnits mem p unit hint maxkey).mem a = mem a := by
  obtain ⟨hpos, hright, -⟩ := tail40_fields hlen hs
  have hcount : (tail40WriteUnits mem p unit hint maxkey).count =
      min (u32 hint.count) (p.len - (startUnit unit + p.off)) := by
    unfold tail40WriteUnits
    dsimp only
    rw [hpos, hright, Nat.add_comm (u32 hint.count), u32_of_lt hsum]
    by_cases hover : p.len < startUnit unit + p.off + u32 hint.count
    · rw [if_pos hover]
      omega
    · rw [if_neg hover]
      omega
  have hmem : (tail40WriteUnits mem p unit hint maxkey).mem =
      match hint.specific with
      | some data => mem.copy (p.body + (startUnit unit + p.off)) data 0
          (tail40WriteUnits mem p unit hint maxkey).count
      | none => mem.fill (p.body + (startUnit unit + p.off)) (tail40WriteUnits mem p unit hint maxkey).count 0 := by
    rw [← hpos]
    rfl
  refine ⟨hcount, fun i hi => ?_, fun a ha => ?_⟩
  · rw [hmem, source]
    cases hint.specific with
    | some data =>
      dsimp only
      rw [Bytes.copy_in _ _ _ _ _ _ (by omega) (by omega)]
      congr 1
      omega
    | none =>
      dsimp only
      exact Bytes.fill_in _ _ _ _ _ (by omega) (by omega)
  · rw [hmem]
    cases hint.specific with
    | some data =>
      dsimp only
      exact Bytes.copy_out _ _ _ _ _ _ (by omega)
    | none =>
      dsimp only
      exact Bytes.fill_out _ _ _ _ _ (by omega)

/-- What is read. -/
theorem tail40ReadUnits_spec (mem : Bytes) {count : Nat} (hlen : p.len < 1048576)
    (hs : startUnit unit + p.off ≤ p.len) (hsum : startUnit unit + p.off + count < two64) :
    tail40ReadUnits mem p unit count =
      mem.slice (p.body + (startUnit unit + p.off)) (min count (p.len - (startUnit unit + p.off))) := by
  obtain ⟨hpos, hright, -⟩ := tail40_fields hlen hs
  unfold tail40ReadUnits
  dsimp only
  rw [hpos, hright, show u64 (startUnit unit + p.off + count) = startUnit unit + p.off + count from
    Nat.mod_eq_of_lt hsum]
  by_cases hover : p.len < startUnit unit + p.off + count
  · rw [if_pos hover, Nat.min_eq_right (by omega)]
  · rw [if_neg hover, u32_of_lt (by unfold two32; omega), Nat.min_eq_left (by omega)]

/-- A write whose count is not cut short, read back. -/
theorem tail40_write_read (mem : Bytes) (hint : TailHint) (maxkey : Key) (hlen : p.len < 1048576)
    (hs : startUnit unit + p.off ≤ p.len) (hsum : startUnit unit + p.off + u32 hint.count < two32)
    (hcount : hint.count < two64)
    (hmin : min (u32 hint.count) (p.len - (startUnit unit + p.off)) =
      min hint.count (p.len - (startUnit unit + p.off))) :
    (tail40WriteUnits mem p unit hint maxkey).count = min hint.count (p.len - (startUnit unit + p.off)) ∧
      tail40ReadUnits (tail40WriteUnits mem p unit hint maxkey).mem p unit hint.count =
        (List.range (tail40WriteUnits mem p unit hint maxkey).count).map (source hint) ∧
      ∀ a, a < p.body + (startUnit unit + p.off) ∨
          p.body + (startUnit unit + p.off) + (tail40WriteUnits mem p unit hint maxkey).count ≤ a →
        (tail40WriteUnits mem p unit hint maxkey).mem a = mem a := by
  obtain ⟨hn, hin, hout⟩ := tail40WriteUnits_spec mem hint maxkey hlen hs hsum
  have hsum64 : startUnit unit + p.off + hint.count < two64 := by
    unfold u32 two32 two64 at *
    omega
  refine ⟨hn.trans hmin, ?_, hout⟩
  rw [tail40ReadUnits_spec _ hlen hs hsum64, ← hmin, ← hn, Bytes.slice]
  exact List.map_congr_left fun i hi => hin i (List.mem_range.mp hi)

/-- **A write read back** is what was written exactly when the sums of the code hold the count. -/
theorem tail40_writesRead {space : Nat} {mem : Bytes} {hint : TailHint} (hoff : p.off ≤ p.len) (hlen : p.len ≤ 8192)
    (hspace : p.off ≤ space) (hspace16 : space < two16) (hunit : unit ≤ p.len - p.off ∨ unit = maxUint32)
    (hcount : hint.count < two64) : WritesRead space mem p unit hint ↔ CountFits p unit hint.count := by
  have hmax : maxUint32 = 4294967295 := rfl
  have h16 := two16_eq
  have h32 : two32 = 4294967296 := rfl
  have h64 : two64 = 18446744073709551616 := rfl
  have hsmall := u32_lt hint.count
  have hle := u32_le hint.count
  have hmost : toInt (space - p.off) = (space : Int) - p.off := toInt_of_range (by omega) (by omega)
  -- nothing of the item behind the position: a new item, or bytes are appended
  by_cases hend : unit = maxUint32 ∨ tail40Right p unit = 0
  · have hneed : (tail40PrepWrite p unit space hint).len =
        if (space : Int) - p.off < toInt hint.count then (space : Int) - p.off else toInt hint.count := by
      unfold tail40PrepWrite
      dsimp only
      rw [hmost]
      rcases hend with hnew | hright
      · rw [if_pos hnew]
      · by_cases hnew : unit = maxUint32
        · rw [if_pos hnew]
        · rw [if_neg hnew, if_neg (not_not_intro hright)]
    have hstart : unit = maxUint32 ∧ startUnit unit = 0 ∨
        unit ≠ maxUint32 ∧ startUnit unit = unit ∧ unit + p.off = p.len := by
      unfold startUnit
      by_cases hnew : unit = maxUint32
      · exact Or.inl ⟨hnew, if_pos hnew⟩
      · have hin : unit ≤ p.len - p.off := hunit.resolve_right hnew
        have hzero := hend.resolve_left hnew
        rw [(tail40_fields (by omega) (show unit + p.off ≤ p.len by omega)).2.1] at hzero
        exact Or.inr ⟨hnew, if_neg hnew, by omega⟩
    rw [CountFits, if_pos hend]
    rw [toInt_u32] at hneed
    constructor
    · rintro ⟨hpos, -⟩
      by_contra hbig
      rw [hneed, if_neg hbig] at hpos
      split at hpos <;> omega
    · intro hfit
      rw [if_pos hfit] at hneed
      have hasked : ∃ asked : Nat, (tail40PrepWrite p unit space hint).len = asked ∧
          asked ≤ u32 hint.count ∧ asked < two16 := by
        rw [hneed]
        split
        · exact ⟨space - p.off, by omega, by omega, by omega⟩
        · exact ⟨u32 hint.count, rfl, Nat.le_refl _, by omega⟩
      obtain ⟨asked, hlenEq, hasked, hasked16⟩ := hasked
      refine ⟨by rw [hlenEq]; exact Int.natCast_nonneg _, fun mem' p' hexp => ?_⟩
      have hover : (tail40PrepWrite p unit space hint).overhead = p.off := rfl
      have hlen' := hexp.len
      have hoff' := hexp.off
      rw [hlenEq, hover] at hlen'
      -- the position is where the room begins
      have hroom : startUnit unit + p'.off + asked = p'.len := by
        rcases hstart with ⟨hnew, hzero⟩ | ⟨hnew, hsame, hall⟩
        · rw [if_pos hnew] at hlen'
          omega
        · rw [if_neg hnew] at hlen'
          omega
      have hshort : p'.len < 1048576 := by
        rcases hstart with ⟨hnew, -⟩ | ⟨hnew, -, -⟩
        · rw [if_pos hnew] at hlen'
          omega
        · rw [if_neg hnew] at hlen'
          omega
      obtain ⟨hn, hread, hout⟩ := @tail40_write_read p' unit mem' hint (tail40PrepWrite p unit space hint).maxkey
        hshort (by omega) (by omega) hcount (by omega)
      have hunits := (tail40_fields hshort (show startUnit unit + p'.off ≤ p'.len by omega)).2.2
      dsimp only
      refine ⟨by rw [hn, hunits]; omega, hread, fun a ha => hout a (by omega), fun hnew i hi houtside => ?_⟩
      have hsame := (hstart.resolve_left fun h => hnew h.1).2
      rw [(tail40_fields (by omega) (show unit + p.off ≤ p.len by omega)).2.2] at hi
      unfold unitByte
      rw [hout _ (by omega), hoff', Nat.add_assoc, Nat.add_assoc, hexp.kept hnew _ (by omega)]
  · -- bytes of the item are overwritten
    rw [not_or] at hend
    obtain ⟨hnew, hright⟩ := hend
    have hin : unit ≤ p.len - p.off := hunit.resolve_right hnew
    have hfit : unit + p.off ≤ p.len := by omega
    obtain ⟨hposEq, hrightEq, hunitsEq⟩ := tail40_fields (show p.len < 1048576 by omega) hfit
    have hstart : startUnit unit = unit := if_neg hnew
    have hneed : (tail40PrepWrite p unit space hint).len = 0 := by
      unfold tail40PrepWrite
      dsimp only
      rw [hmost, if_neg hnew, if_pos hright, if_neg (by omega)]
    rw [CountFits, if_neg (not_or.mpr ⟨hnew, hright⟩), hrightEq]
    rw [hrightEq] at hright
    constructor
    · rintro ⟨-, hall⟩
      obtain ⟨hn, -, -, -⟩ := hall mem p ⟨rfl, by rw [if_neg hnew, hneed, Int.add_zero], fun _ _ _ => rfl⟩
      rw [hunitsEq, hstart] at hn
      by_cases hsum : unit + p.off + u32 hint.count < two32
      · have hspec := (tail40WriteUnits_spec mem hint (tail40PrepWrite p unit space hint).maxkey
          (show p.len < 1048576 by omega) (by rw [hstart]; exact hfit) (by rw [hstart]; exact hsum)).1
        rw [hspec, hstart] at hn
        unfold u32 at *
        omega
      · -- the sum has wrapped, so all of the count is written
        have hwhole : (tail40WriteUnits mem p unit hint (tail40PrepWrite p unit space hint).maxkey).count =
            u32 hint.count := by
          unfold tail40WriteUnits
          dsimp only
          rw [hstart, hposEq, if_neg]
          have hwrap : ∀ x, two32 ≤ x → x < 2 * two32 → u32 x = x - two32 := by
            intro x h1 h2
            unfold u32 two32 at *
            omega
          rw [hwrap _ (by omega) (by omega)]
          omega
        rw [hwhole] at hn
        omega
    · rintro ⟨hsum, hwhole⟩
      refine ⟨by rw [hneed], fun mem' p' hexp => ?_⟩
      have hlen' := hexp.len
      have hoff' := hexp.off
      rw [hneed, if_neg hnew, Int.add_zero] at hlen'
      have hsame : p'.len = p.len := by omega
      have hmin : min (u32 hint.count) (p'.len - (startUnit unit + p'.off)) =
          min hint.count (p'.len - (startUnit unit + p'.off)) := by
        rw [hstart, hsame, hoff']
        rcases hwhole with hlt | hge
        · rw [u32_of_lt hlt]
        · omega
      obtain ⟨hn, hread, hout⟩ := @tail40_write_read p' unit mem' hint (tail40PrepWrite p unit space hint).maxkey
        (by omega) (by omega) (by omega) hcount hmin
      have hunits := (tail40_fields (show p'.len < 1048576 by omega)
        (show startUnit unit + p'.off ≤ p'.len by omega)).2.2
      dsimp only
      refine ⟨by rw [hn, hunits]; omega, hread, fun a ha => hout a (by omega), fun _ i hi houtside => ?_⟩
      rw [hunitsEq] at hi
      unfold unitByte
      rw [hout _ (by omega), hoff', Nat.add_assoc, Nat.add_assoc, hexp.kept hnew _ (by omega)]

end Write

/-! ## The key of an item -/

section SetKey

variable {pol : KeyPol} {mem : Bytes} {ih : Nat} {key : Key}

theorem ihSetKey_out (a : Nat) (h : a < ih ∨ ih + keySize pol ≤ a) : ihSetKey pol mem ih key a = mem a := by
  cases pol with
  | short =>
    have hkey : keySize .short = 24 := rfl
    unfold ihSetKey
    dsimp only
    rw [Bytes.setLe_out _ _ _ _ _ (by omega), Bytes.setLe_out _ _ _ _ _ (by omega),
      Bytes.setLe_out _ _ _ _ _ (by omega)]
  | large =>
    have hkey : keySize .large = 32 := rfl
    unfold ihSetKey
    dsimp only
    rw [Bytes.setLe_out _ _ _ _ _ (by omega), Bytes.setLe_out _ _ _ _ _ (by omega),
      Bytes.setLe_out _ _ _ _ _ (by omega), Bytes.setLe_out _ _ _ _ _ (by omega)]

/-- A key that an item header can hold. -/
structure HeldKey (pol : KeyPol) (key : Key) : Prop where
  el0 : key.el0 < 256 ^ 8
  ordering : key.ordering < 256 ^ 8
  el2 : key.el2 < 256 ^ 8
  offset : key.offset < 256 ^ 8
  short : pol = .short → key.ordering = 0

theorem heldKey_ihGetKey (pol : KeyPol) (mem : Bytes) (ih : Nat) : HeldKey pol (ihGetKey pol mem ih) := by
  cases pol with
  | short =>
    exact ⟨Bytes.getLe_lt .., Nat.pow_pos (by decide), Bytes.getLe_lt .., Bytes.getLe_lt .., fun _ => rfl⟩
  | large =>
    exact ⟨Bytes.getLe_lt .., Bytes.getLe_lt .., Bytes.getLe_lt .., Bytes.getLe_lt .., fun h => nomatch h⟩

theorem ihGetKey_ihSetKey (h : HeldKey pol key) : ihGetKey pol (ihSetKey pol mem ih key) ih = key := by
  obtain ⟨h0, h1, h2, h3, hshort⟩ := h
  cases pol with
  | short =>
    unfold ihGetKey ihSetKey
    dsimp only
    rw [Bytes.getLe_setLe_of_lt 8 _ (ih + 16) _ h3, Bytes.getLe_setLe_disj 8 8 _ (ih + 16) (ih + 8) _ (by omega),
      Bytes.getLe_setLe_of_lt 8 _ (ih + 8) _ h2, Bytes.getLe_setLe_disj 8 8 _ (ih + 16) ih _ (by omega),
      Bytes.getLe_setLe_disj 8 8 _ (ih + 8) ih _ (by omega), Bytes.getLe_setLe_of_lt 8 _ ih _ h0, ← hshort rfl]
  | large =>
    unfold ihGetKey ihSetKey
    dsimp only
    rw [Bytes.getLe_setLe_of_lt 8 _ (ih + 24) _ h3, Bytes.getLe_setLe_disj 8 8 _ (ih + 24) (ih + 16) _ (by omega),
      Bytes.getLe_setLe_of_lt 8 _ (ih + 16) _ h2, Bytes.getLe_setLe_disj 8 8 _ (ih + 24) (ih + 8) _ (by omega),
      Bytes.getLe_setLe_disj 8 8 _ (ih + 16) (ih + 8) _ (by omega), Bytes.getLe_setLe_of_lt 8 _ (ih + 8) _ h1,
      Bytes.getLe_setLe_disj 8 8 _ (ih + 24) ih _ (by omega), Bytes.getLe_setLe_disj 8 8 _ (ih + 16) ih _ (by omega),
      Bytes.getLe_setLe_disj 8 8 _ (ih + 8) ih _ (by omega), Bytes.getLe_setLe_of_lt 8 _ ih _ h0]

end SetKey

/-! ## A shorter item -/

section Trim

variable {pol : KeyPol} {node node' : NodeBlock} {hs pos n : Nat}

/-- A node one of whose items has lost bytes is well formed, and its other items are as they were. -/
theorem WF.trimmed_of (h : WF pol node hs) (hpos : pos < getNumItems node)
    (hn : n < bound pol node (pos + 1) - bound pol node pos) (hsize : node'.size = node.size)
    (hitems : getNumItems node' = getNumItems node) (hspace : getFreeSpace node' = getFreeSpace node + n)
    (hbound : ∀ i, i ≤ getNumItems node → bound pol node' i = if i ≤ pos then bound pol node i else bound pol node i - n)
    (hhead : ∀ i, i < getNumItems node → i ≠ pos → ∀ a, a < ihSize pol → (a < keySize pol ∨ keySize pol + 2 ≤ a) →
      node'.mem (ihAt pol node i + a) = node.mem (ihAt pol node i + a))
    (hfront : ∀ a, 8 ≤ a → a < bound pol node pos → node'.mem a = node.mem a)
    (hback : ∀ a, bound pol node (pos + 1) ≤ a + n → a + n < getFreeSpaceStart node → node'.mem a = node.mem (a + n)) :
    WF pol node' hs ∧ ∀ i < getNumItems node, i ≠ pos → item pol node' i = item pol node i := by
  have hheader := h.header
  have hstart := h.start
  have hat : ∀ i, ihAt pol node' i = ihAt pol node i := by
    intro i
    unfold ihAt
    rw [hsize]
  have htop : getFreeSpaceStart node' = getFreeSpaceStart node - n := by
    have h1 := hbound (getNumItems node) (Nat.le_refl _)
    rw [if_neg (by omega), bound_top] at h1
    rwa [← @bound_top pol node', hitems]
  have hend : bound pol node (pos + 1) ≤ getFreeSpaceStart node := by
    rw [← @bound_top pol node]
    exact h.bound_mono hpos (Nat.le_refl _)
  refine ⟨⟨hheader, ?_, ?_, ?_, ?_⟩, ?_⟩
  · rw [hbound 0 (Nat.zero_le _), if_pos (Nat.zero_le _), hstart]
  · intro i hi
    rw [hitems] at hi
    have horder := h.order i hi
    rw [hbound i (by omega), hbound (i + 1) (by omega)]
    rcases Nat.lt_trichotomy i pos with hlt | rfl | hgt
    · rw [if_pos (Nat.le_of_lt hlt), if_pos (show i + 1 ≤ pos from hlt)]
      exact horder
    · rw [if_pos (Nat.le_refl _), if_neg (by omega)]
      omega
    · rw [if_neg (by omega), if_neg (by omega)]
      have hmono := h.bound_mono (show pos + 1 ≤ i by omega) (Nat.le_of_lt hi)
      omega
  · have hcount := h.space
    rw [htop, hspace, hitems, hsize]
    omega
  · rw [hsize]
    exact h.size
  · intro i hi hne
    obtain ⟨hkey, hflags, hpid⟩ := head_moved (hhead i hi hne)
    have hlow := h.bound_mono (Nat.zero_le i) (Nat.le_of_lt hi)
    unfold item
    rw [hat, hkey, hflags, hpid, hbound i (by omega), hbound (i + 1) (by omega)]
    by_cases hlt : i < pos
    · have hmono := h.bound_mono (show i + 1 ≤ pos from hlt) (Nat.le_of_lt hpos)
      rw [if_pos (Nat.le_of_lt hlt), if_pos (show i + 1 ≤ pos from hlt)]
      congr 1
      exact Bytes.slice_congr _ _ _ _ _ fun a ha => hfront _ (by omega) (by omega)
    · have hmono := h.bound_mono (show pos + 1 ≤ i by omega) (Nat.le_of_lt hi)
      have htop' := h.bound_mono (show i + 1 ≤ getNumItems node from hi) (Nat.le_refl _)
      rw [bound_top] at htop'
      rw [if_neg (by omega), if_neg (by omega)]
      congr 1
      rw [show bound pol node (i + 1) - n - (bound pol node i - n) = bound pol node (i + 1) - bound pol node i by omega]
      refine Bytes.slice_congr _ _ _ _ _ fun a ha => ?_
      rw [hback _ (by omega) (by omega)]
      congr 1
      omega

/-- The bytes of an item from which a range is cut. -/
theorem slice_cut {b b' : Bytes} {o len q : Nat} (hq : q + n ≤ len) (hlow : ∀ j < q, b' (o + j) = b (o + j))
    (hhigh : ∀ j, q ≤ j → j < len - n → b' (o + j) = b (o + (j + n))) :
    b'.slice o (len - n) = (b.slice o len).take q ++ (b.slice o len).drop (q + n) := by
  refine List.ext_getElem? fun j => ?_
  have hlen : ((b.slice o len).take q).length = q := by
    rw [List.length_take, Bytes.slice_length]
    omega
  by_cases hj : j < len - n
  · rw [Bytes.slice_getElem? _ _ _ _ hj]
    by_cases hjq : j < q
    · rw [List.getElem?_append_left (by omega), List.getElem?_take_of_lt hjq, Bytes.slice_getElem? _ _ _ _ (by omega),
        hlow j hjq]
    · rw [List.getElem?_append_right (by omega), hlen, List.getElem?_drop,
        Bytes.slice_getElem? _ _ _ _ (show q + n + (j - q) < len by omega), hhigh j (by omega) hj]
      congr 3
      omega
  · rw [List.getElem?_eq_none (by rw [Bytes.slice_length]; omega), List.getElem?_eq_none]
    rw [List.length_append, hlen, List.length_drop, Bytes.slice_length]
    omega

end Trim

/-! ## The cut -/

section Cut

variable {pol : KeyPol} {node : NodeBlock} {hs pos unit count : Nat} {p : Place}

/-- What `tail40_trunc_units` makes of an item, without the arithmetic of the machine. -/
theorem tail40TruncUnits_spec (mem : Bytes) (hlen : p.len ≤ 8192) (hs : startUnit unit + p.off ≤ p.len)
    (hsum : startUnit unit + p.off + count < two64) :
    ∃ n, n = min count (p.len - (startUnit unit + p.off)) ∧ (tail40TruncUnits mem p unit count).count = n ∧
      (tail40TruncUnits mem p unit count).len = n ∧
      (tail40TruncUnits mem p unit count).overhead = (if n = p.len - p.off then p.off else 0) ∧
      (tail40TruncUnits mem p unit count).key =
        (if startUnit unit = 0 ∧ n < p.len - p.off then p.key.setOffset (u64 (p.key.offset + n)) else p.key) ∧
      (∀ a, a < p.body + (startUnit unit + p.off) ∨ p.body + p.len ≤ a + n →
        (tail40TruncUnits mem p unit count).mem a = mem a) ∧
      ∀ a, p.body + (startUnit unit + p.off) ≤ a → a + n < p.body + p.len →
        (tail40TruncUnits mem p unit count).mem a = mem (a + n) := by
  have h64 : two64 = 18446744073709551616 := rfl
  obtain ⟨hpos, hright, hunits⟩ := tail40_fields (show p.len < 1048576 by omega) hs
  obtain ⟨n, hn⟩ : ∃ n, n = min count (p.len - (startUnit unit + p.off)) := ⟨_, rfl⟩
  have hcut : (if p.len < u64 (tail40Pos p (startUnit unit) + count) then tail40Right p (startUnit unit) else count) =
      n := by
    rw [hpos, hright, show u64 (startUnit unit + p.off + count) = startUnit unit + p.off + count from
      Nat.mod_eq_of_lt hsum]
    by_cases hover : p.len < startUnit unit + p.off + count
    · rw [if_pos hover]
      omega
    · rw [if_neg hover]
      omega
  have hstop : u64 (startUnit unit + p.off + n) = startUnit unit + p.off + n := Nat.mod_eq_of_lt (by omega)
  have hmem : (tail40TruncUnits mem p unit count).mem =
      if startUnit unit + p.off + n < p.len then
        mem.move (p.body + (startUnit unit + p.off)) (p.body + (startUnit unit + p.off + n))
          (p.len - (startUnit unit + p.off + n))
      else mem := by
    unfold tail40TruncUnits
    dsimp only
    rw [hcut, hpos, hstop]
  refine ⟨n, hn, ?_, ?_, ?_, ?_, fun a ha => ?_, fun a hlo hhi => ?_⟩
  · unfold tail40TruncUnits
    dsimp only
    rw [hcut]
  · unfold tail40TruncUnits
    dsimp only
    rw [hcut]
    exact toInt_of_range (by omega) (by omega)
  · unfold tail40TruncUnits
    dsimp only
    rw [hcut, hunits]
  · unfold tail40TruncUnits
    dsimp only
    rw [hcut, hpos, hstop]
    unfold body40GetKey
    rw [u32_of_lt (show startUnit unit + n < two32 by unfold two32; omega)]
    by_cases hzero : startUnit unit = 0
    · rw [hzero, Nat.zero_add]
      refine if_congr (and_congr_right' ?_) (by rw [Nat.zero_add]) rfl
      omega
    · rw [if_neg (fun h => hzero h.1), if_neg (fun h => hzero h.1)]
  · rw [hmem]
    split
    · exact Bytes.move_out _ _ _ _ _ (by omega)
    · rfl
  · rw [hmem, if_pos (by omega), Bytes.move_in _ _ _ _ _ hlo (by omega)]
    congr 1
    omega

/-- The items of a node whose item has been cut, shrunk and given its key. -/
theorem WF.cut_item (h : WF pol node hs) (hpos : pos < getNumItems node) {mem : Bytes} {node' : NodeBlock} {key : Key}
    {n q : Nat} (hq : q + n ≤ bound pol node (pos + 1) - bound pol node pos)
    (hn : n < bound pol node (pos + 1) - bound pol node pos)
    (hout : ∀ a, a < bound pol node pos + q ∨ bound pol node (pos + 1) ≤ a + n → mem a = node.mem a)
    (hin : ∀ a, bound pol node pos + q ≤ a → a + n < bound pol node (pos + 1) → mem a = node.mem (a + n))
    (hshrunk : Shrunk pol { node with mem := mem } node' pos n) (hkey : HeldKey pol key) :
    WF pol { node' with mem := ihSetKey pol node'.mem (ihAt pol node' pos) key } hs ∧
      getNumItems { node' with mem := ihSetKey pol node'.mem (ihAt pol node' pos) key } = getNumItems node ∧
      (∀ i < getNumItems node, i ≠ pos →
        item pol { node' with mem := ihSetKey pol node'.mem (ihAt pol node' pos) key } i = item pol node i) ∧
      item pol { node' with mem := ihSetKey pol node'.mem (ihAt pol node' pos) key } pos =
        { item pol node pos with
          key := key
          body := (item pol node pos).body.take q ++ (item pol node pos).body.drop (q + n) } := by
  have hheader := h.header
  have hstart := h.start
  have hihsize : ihSize pol = keySize pol + 6 := rfl
  have hfirst := h.bound_mono (Nat.zero_le pos) (Nat.le_of_lt hpos)
  have hnext : bound pol node (pos + 1) ≤ getFreeSpaceStart node := by
    rw [← @bound_top pol node]
    exact h.bound_mono hpos (Nat.le_refl _)
  -- the node after the item plugin: only bytes of the item have changed
  have hbodies : ∀ a, a < 8 ∨ getFreeSpaceStart node ≤ a → mem a = node.mem a := fun a ha => hout a (by omega)
  obtain ⟨hwf1, hitems1, hspace1, hstart1, hbound1⟩ := h.same hbodies
  have hat : ∀ i, ihAt pol node' i = ihAt pol node i := by
    intro i
    unfold ihAt
    rw [hshrunk.size]
  have hlow : ∀ i, i < getNumItems node → getFreeSpaceStart node ≤ ihAt pol node i := fun i hi => by
    have := h.start_le_ihAt hi
    omega
  rw [hat]
  obtain ⟨final, hfinal⟩ : ∃ m, m = ihSetKey pol node'.mem (ihAt pol node pos) key := ⟨_, rfl⟩
  rw [← hfinal]
  have hset : ∀ a, a < ihAt pol node pos ∨ ihAt pol node pos + keySize pol ≤ a → final a = node'.mem a := fun a ha => by
    rw [hfinal, ihSetKey_out a ha]
  have hposlow := hlow pos hpos
  -- the other headers, and the offset of this one, are outside the key
  have hapart : ∀ i, i < getNumItems node → i ≠ pos → ∀ a, a < ihSize pol →
      ihAt pol node i + a < ihAt pol node pos ∨ ihAt pol node pos + keySize pol ≤ ihAt pol node i + a := by
    intro i hi hne a ha
    rcases Nat.lt_trichotomy i pos with hlt | heq | hgt
    · have := h.ihAt_lt hlt hpos
      omega
    · exact absurd heq hne
    · have := h.ihAt_lt hgt hi
      omega
  have hoffset : ∀ i, i < getNumItems node → ihGetOffset pol final (ihAt pol node i) =
      ihGetOffset pol node'.mem (ihAt pol node i) := by
    intro i hi
    refine Bytes.getLe_congr 2 _ _ _ _ fun a ha => hset _ ?_
    by_cases heq : i = pos
    · rw [heq]
      omega
    · have := hapart i hi heq (keySize pol + a) (by omega)
      omega
  have hfield : ∀ o, o + 2 ≤ 8 → final.getLe 2 o = node'.mem.getLe 2 o := fun o ho =>
    Bytes.getLe_congr 2 _ _ _ _ fun a ha => hset _ (Or.inl (by omega))
  have hitems : getNumItems { node' with mem := final } = getNumItems node :=
    (hfield 2 (by omega)).trans (hshrunk.items.trans hitems1)
  have hspace : getFreeSpace { node' with mem := final } = getFreeSpace node + n :=
    (hfield 4 (by omega)).trans (hshrunk.space.trans (by rw [hspace1]))
  have hfree : getFreeSpaceStart { node' with mem := final } = getFreeSpaceStart node - n :=
    (hfield 6 (by omega)).trans (hshrunk.start.trans (by rw [hstart1]))
  have hbound : ∀ i, i ≤ getNumItems node → bound pol { node' with mem := final } i =
      if i ≤ pos then bound pol node i else bound pol node i - n := by
    intro i hi
    by_cases htop : i = getNumItems node
    · rw [if_neg (by omega), htop, ← hitems, bound_top, hfree, hitems, bound_top]
    · have hi' : i < getNumItems node := by omega
      have hi1 : i < getNumItems { node with mem := mem } := by omega
      rw [bound_lt (show i < getNumItems { node' with mem := final } by omega)]
      show ihGetOffset pol final (ihAt pol node' i) = _
      rw [hat, hoffset i hi']
      by_cases hle : i ≤ pos
      · rw [if_pos hle, ← hbound1]
        exact hshrunk.offsetFront i hle hi1
      · rw [if_neg hle, ← hbound1]
        exact hshrunk.offsetBack i (by omega) hi1
  have hhead : ∀ i, i < getNumItems node → ∀ a, a < ihSize pol → (a < keySize pol ∨ keySize pol + 2 ≤ a) →
      node'.mem (ihAt pol node i + a) = node.mem (ihAt pol node i + a) := by
    intro i hi a ha hkeep
    have hi1 : i < getNumItems { node with mem := mem } := by omega
    have := hshrunk.head i hi1 a ha hkeep
    have hilow := hlow i hi
    exact this.trans (hbodies _ (Or.inr (Nat.le_trans hilow (Nat.le_add_right _ _))))
  have hfront : ∀ a, 8 ≤ a → a < bound pol node (pos + 1) - n → final a = mem a := by
    intro a h8 ha
    rw [hset _ (Or.inl (by omega))]
    exact hshrunk.bodyFront a h8 (by rw [hbound1]; exact ha)
  have hback : ∀ a, bound pol node (pos + 1) ≤ a + n → a + n < getFreeSpaceStart node → final a = node.mem (a + n) := by
    intro a hlo hhi
    rw [hset _ (Or.inl (by omega))]
    have := hshrunk.bodyBack a (by rw [hbound1]; omega) (by rw [hstart1]; omega)
    exact this.trans (hout _ (Or.inr (by omega)))
  obtain ⟨hwf, hothers⟩ := @WF.trimmed_of pol node { node' with mem := final } hs pos n h hpos hn hshrunk.size hitems
    hspace hbound (fun i hi hne a ha hkeep => by
      show final _ = _
      rw [hset _ (hapart i hi hne a ha)]
      exact hhead i hi a ha hkeep)
    (fun a h8 ha => by
      show final a = _
      rw [hfront a h8 (by omega), hout a (Or.inl (by omega))])
    hback
  refine ⟨hwf, hitems, hothers, ?_⟩
  -- the item itself
  have hkeyEq : ihGetKey pol final (ihAt pol node pos) = key := by
    rw [hfinal]
    exact ihGetKey_ihSetKey hkey
  have hrest : ∀ k, keySize pol + 2 ≤ k → k + 2 ≤ ihSize pol →
      final.getLe 2 (ihAt pol node pos + k) = node.mem.getLe 2 (ihAt pol node pos + k) := by
    intro k hk hk2
    refine Bytes.getLe_congr 2 _ _ _ _ fun a ha => ?_
    rw [hset _ (Or.inr (by omega)), Nat.add_assoc]
    exact hhead pos hpos _ (by omega) (Or.inr (by omega))
  have hflags : ihGetFlags pol final (ihAt pol node pos) = ihGetFlags pol node.mem (ihAt pol node pos) := by
    have := hrest (keySize pol + 2) (by omega) (by omega)
    rwa [← Nat.add_assoc] at this
  have hpid : ihGetPid pol final (ihAt pol node pos) = ihGetPid pol node.mem (ihAt pol node pos) := by
    have := hrest (keySize pol + 4) (by omega) (by omega)
    rwa [← Nat.add_assoc] at this
  have hat' : ihAt pol { node' with mem := final } pos = ihAt pol node pos := hat pos
  unfold item
  rw [hat', hbound pos (by omega), hbound (pos + 1) (by omega), if_pos (Nat.le_refl _), if_neg (by omega)]
  dsimp only
  rw [hkeyEq, hflags, hpid]
  congr 1
  rw [show bound pol node (pos + 1) - n - bound pol node pos = bound pol node (pos + 1) - bound pol node pos - n by omega]
  refine slice_cut hq (fun j hj => ?_) fun j hjq hj => ?_
  · rw [hfront _ (by omega) (by omega), hout _ (Or.inl (by omega))]
  · rw [hfront _ (by omega) (by omega), hin _ (by omega) (by omega), Nat.add_assoc]

/-- **The cut** of a tail in its node, for every count with which the end of the range is a number of 64 bits. -/
theorem node40Trunc_cuts (h : WF pol node hs) (hpos : pos < getNumItems node) (hp : fetch pol node pos = .ok p)
    (hoff : p.off ≤ 1) (hunit : unit ≤ tail40Units p ∨ unit = maxUint32)
    (hsum : startUnit unit + p.off + count < two64) : Cuts hs pol node pos p unit count := by
  have h64 : two64 = 18446744073709551616 := rfl
  have h32 : two32 = 4294967296 := rfl
  obtain ⟨hbody, hlen, hkey, -, -⟩ := h.fetched hpos hp
  have horder := h.order pos hpos
  have hsmall := h.small
  have hmono := h.bound_mono (show pos + 1 ≤ getNumItems node from hpos) (Nat.le_refl _)
  have hplen : p.len ≤ 8192 := by omega
  have hunits : tail40Units p = p.len - p.off :=
    (@tail40_fields p 0 (by omega) (by omega)).2.2
  have hin : startUnit unit + p.off ≤ p.len := by
    unfold startUnit
    rcases hunit with hin | hnew
    · by_cases hnew : unit = maxUint32
      · rw [if_pos hnew]
        omega
      · rw [if_neg hnew]
        omega
    · rw [if_pos hnew]
      omega
  obtain ⟨n, hn, hcount, htlen, hover, htkey, hout, hin⟩ := @tail40TruncUnits_spec unit count p node.mem hplen hin hsum
  obtain ⟨t, ht⟩ : ∃ t, t = tail40TruncUnits node.mem p unit count := ⟨_, rfl⟩
  rw [← ht] at hcount htlen hover htkey hout hin
  have hint : int64 n = n := if_pos (by omega)
  unfold Cuts
  dsimp only
  rw [hunits, show min count (p.len - p.off - startUnit unit) = n by omega]
  -- the routine, by the length that it shrinks the node by
  have hrun : ∀ total, toUint32 (t.overhead + t.len) = total → node40Trunc pol node pos unit count =
      if 0 < total then
        if p.len ≤ total then .ok (shrink pol { node with mem := t.mem } pos maxUint32 p.len 1, (n : Int))
        else
          let node' := shrink pol { node with mem := t.mem } pos 0 total (u32 n)
          .ok ({ node' with mem := ihSetKey pol node'.mem (ihAt pol node' pos) t.key }, (n : Int))
      else .ok ({ node with mem := ihSetKey pol t.mem (ihAt pol node pos) t.key }, (n : Int)) := by
    intro total htotal
    unfold node40Trunc
    rw [hp]
    dsimp only
    rw [← ht, htotal, hcount, hint, if_neg (by omega)]
    rfl
  by_cases hall : n = p.len - p.off
  · -- no unit is left: the item goes
    have htotal : toUint32 (t.overhead + t.len) = p.len := by
      rw [hover, if_pos hall, htlen]
      have := @toUint32_of_range ((p.off : Int) + (n : Int)) (by omega) (by omega)
      omega
    have hmem : t.mem = node.mem := by
      funext a
      exact hout a (by omega)
    have hremoved := h.removed hpos
    rw [h.node40Size_eq hpos, ← hlen] at hremoved
    have hret : node40Trunc pol node pos unit count = .ok (shrink pol node pos maxUint32 p.len 1, (n : Int)) := by
      rw [hrun _ htotal, if_pos (by omega), if_pos (Nat.le_refl _), hmem]
    refine ⟨_, hret, hremoved.1, ?_⟩
    rw [if_pos hall]
    exact hremoved.2
  · have htotal : toUint32 (t.overhead + t.len) = n := by
      rw [hover, if_neg hall, htlen]
      have := @toUint32_of_range (((0 : Nat) : Int) + (n : Int)) (by omega) (by omega)
      omega
    have hheld : HeldKey pol t.key := by
      have hold : HeldKey pol p.key := by
        rw [hkey]
        exact heldKey_ihGetKey ..
      rw [htkey]
      split
      · exact ⟨hold.el0, hold.ordering, hold.el2, Nat.mod_lt _ (by decide), hold.short⟩
      · exact hold
    have hkeyEq : t.key = if startUnit unit = 0 then p.key.setOffset (u64 (p.key.offset + n)) else p.key := by
      rw [htkey]
      exact if_congr (and_iff_left (by omega)) rfl rfl
    have hbodies : ∀ a, a < 8 ∨ getFreeSpaceStart node ≤ a → t.mem a = node.mem a := by
      intro a ha
      have hheader := h.header
      have hfirst := h.bound_mono (Nat.zero_le pos) (Nat.le_of_lt hpos)
      have hstart := h.start
      rw [bound_top] at hmono
      exact hout a (by omega)
    obtain ⟨hwf1, hitems1, -, -, hbound1⟩ := h.same hbodies
    have hcut := fun node' (hshrunk : Shrunk pol { node with mem := t.mem } node' pos n) =>
      h.cut_item hpos (show p.off + startUnit unit + n ≤ bound pol node (pos + 1) - bound pol node pos by omega)
        (show n < bound pol node (pos + 1) - bound pol node pos by omega)
        (fun a ha => hout a (by omega)) (fun a hlo hhi => hin a (by omega) (by omega)) hshrunk hheld
    by_cases hzero : n = 0
    · obtain ⟨hwf, hitems, hothers, hitem⟩ := hcut { node with mem := t.mem } (hzero ▸ Shrunk.refl pos)
      refine ⟨_, (hrun _ htotal).trans (if_neg (by omega)), hwf, ?_⟩
      rw [if_neg hall, ← hkeyEq]
      exact ⟨hitems, hothers, hitem⟩
    · obtain ⟨hwf, hitems, hothers, hitem⟩ := hcut _ (hwf1.shrink_room (show 0 ≠ maxUint32 by decide) (by rw [hitems1]; exact hpos)
        (by rw [hbound1, hbound1]; omega))
      refine ⟨_, (hrun _ htotal).trans ((if_pos (by omega)).trans (if_neg (by omega))), hwf, ?_⟩
      rw [if_neg hall, ← hkeyEq]
      exact ⟨hitems, hothers, hitem⟩

end Cut

/-! ## The law -/

section Law

variable {pol : KeyPol} {node : NodeBlock} {hs pos unit : Nat} {p : Place}

/-- A node with an item can have an item of more than one byte. -/
theorem WF.maxspace_pos (h : WF pol node hs) (hpos : pos < getNumItems node) :
    1 ≤ maxspace pol node hs ∧ maxspace pol node hs < two16 := by
  have hsize := h.size
  have hspace := h.space
  have hstart := h.start
  have horder := h.order 0 (by omega)
  have hmono := h.bound_mono (show 0 + 1 ≤ getNumItems node by omega) (Nat.le_refl _)
  have hone : ihSize pol ≤ getNumItems node * ihSize pol := Nat.le_mul_of_pos_left _ (by omega)
  have hblk := maxBlksize_eq
  rw [bound_top] at hmono
  have heq : maxspace pol node hs = node.size - hs - ihSize pol := by
    unfold maxspace two16 two32
    omega
  have h16 := two16_eq
  omega

/-- **The tail operations** in any well-formed node, on any tail, at any of its positions: a write is read back and
    a cut takes out what it should, exactly for the counts that the sums of the code can hold. -/
theorem tail40_iff (h : WF pol node hs) (hpos : pos < getNumItems node) (hp : fetch pol node pos = .ok p)
    (hplug : p.plug = .plain40 ∨ p.plug = .ctail40) (hunit : unit ≤ tail40Units p ∨ unit = maxUint32)
    (hint : TailHint) (hcount : hint.count < two64) :
    WritesRead (maxspace pol node hs) node.mem p unit hint ∧ Cuts hs pol node pos p unit hint.count ↔
      CountFits p unit hint.count := by
  obtain ⟨hbody, hlen, -, -, hinit⟩ := h.fetched hpos hp
  have hoff : p.off ≤ 1 := by
    rw [hinit]
    rcases hplug with hplain | hctail
    · rw [hplain]
      decide
    · rw [hctail]
      decide
  have horder := h.order pos hpos
  have hsmall := h.small
  have hmono := h.bound_mono (show pos + 1 ≤ getNumItems node from hpos) (Nat.le_refl _)
  have hunits : tail40Units p = p.len - p.off := (@tail40_fields p 0 (by omega) (by omega)).2.2
  obtain ⟨hspace, hspace16⟩ := h.maxspace_pos hpos
  have hwrite := @tail40_writesRead p unit (maxspace pol node hs) node.mem hint (by omega) (by omega) (by omega) hspace16
    (by rw [← hunits]; exact hunit) hcount
  constructor
  · rintro ⟨hwr, -⟩
    exact hwrite.mp hwr
  · intro hfits
    refine ⟨hwrite.mpr hfits, node40Trunc_cuts h hpos hp hoff hunit ?_⟩
    -- the end of the range is a number of 64 bits
    have hstart : startUnit unit ≤ unit := by
      unfold startUnit
      split
      · exact Nat.zero_le _
      · exact Nat.le_refl _
    have hzero : unit = maxUint32 → startUnit unit = 0 := fun hnew => if_pos hnew
    have hmax : maxUint32 = 4294967295 := rfl
    unfold CountFits u32 at hfits
    unfold two32 two64 at *
    by_cases hend : unit = maxUint32 ∨ tail40Right p unit = 0
    · rw [if_pos hend] at hfits
      rcases hunit with hin | hnew
      · omega
      · have := hzero hnew
        omega
    · rw [if_neg hend] at hfits
      omega

/-- A tail of three bytes. -/
def threeBytes : NodeBlock where
  mem := (((((Bytes.zero.setLe 2 2 1).setLe 2 4 451).setLe 2 6 31).setLe 3 28 0x0b0907).setLe 2 506 28).setLe 2 510 6
  size := 512

theorem threeBytes_wf : WF .short threeBytes 28 where
  header := Nat.le_refl _
  start := by decide +kernel
  order := by decide +kernel
  space := by decide +kernel
  size := by decide +kernel

/-- Two bytes at the second one go over bytes of the item, and both are cut; of three at the last one, one goes over
    a byte, two are appended, and one byte is there to be cut. -/
theorem tail40_threeBytes :
    (WritesRead (maxspace .short threeBytes 28) threeBytes.mem ⟨0, 28, 3, ⟨0, 0, 0, 0⟩, .plain40, 0⟩ 1
        ⟨2, ⟨0, 0, 0, 1⟩, none⟩ ∧
      Cuts 28 .short threeBytes 0 ⟨0, 28, 3, ⟨0, 0, 0, 0⟩, .plain40, 0⟩ 1 2) ∧
    WritesRead (maxspace .short threeBytes 28) threeBytes.mem ⟨0, 28, 3, ⟨0, 0, 0, 0⟩, .plain40, 0⟩ 2
        ⟨3, ⟨0, 0, 0, 2⟩, none⟩ ∧
      Cuts 28 .short threeBytes 0 ⟨0, 28, 3, ⟨0, 0, 0, 0⟩, .plain40, 0⟩ 2 3 := by
  have hpos : 0 < getNumItems threeBytes := by decide +kernel
  have hp : fetch .short threeBytes 0 = .ok ⟨0, 28, 3, ⟨0, 0, 0, 0⟩, .plain40, 0⟩ := by decide +kernel
  constructor
  · exact (tail40_iff threeBytes_wf hpos hp (Or.inl rfl) (Or.inl (by decide)) ⟨2, ⟨0, 0, 0, 1⟩, none⟩
      (by decide)).mpr (by unfold CountFits; decide)
  · exact (tail40_iff threeBytes_wf hpos hp (Or.inl rfl) (Or.inl (by decide)) ⟨3, ⟨0, 0, 0, 2⟩, none⟩
      (by decide)).mpr (by unfold CountFits; decide)

/-- As many bytes as a 32-bit number counts, at the second one: the end of the range comes out as 0, so it seems to
    lie inside the item and the bytes behind the item are overwritten. -/
theorem tail40_wraps : ¬ (WritesRead (maxspace .short threeBytes 28) threeBytes.mem
      ⟨0, 28, 3, ⟨0, 0, 0, 0⟩, .plain40, 0⟩ 1 ⟨4294967295, ⟨0, 0, 0, 1⟩, none⟩ ∧
    Cuts 28 .short threeBytes 0 ⟨0, 28, 3, ⟨0, 0, 0, 0⟩, .plain40, 0⟩ 1 4294967295) := by
  rintro ⟨⟨-, hwrite⟩, -⟩
  have hcount := (hwrite threeBytes.mem ⟨0, 28, 3, ⟨0, 0, 0, 0⟩, .plain40, 0⟩
    ⟨rfl, by decide, fun _ _ _ => rfl⟩).1
  revert hcount
  decide

end Law

end Node40

end Reiser4
