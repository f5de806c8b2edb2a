/-
  The count and the item headers of a node (`node40_check_struct` up to the plugin ids).

  Nothing is known of the block.  First the count: where the fields of the node header do not add up, it is
  cut to the last header with an offset that could be right.  Then the offsets: going up, an offset is
  reliable if it leaves room for the items in front and behind.  Between the last reliable one and the next
  one everything goes, the item at the last one too, since its end is not known.

    1. `node40CountCheck`, `node40IhArrayCheck`   the checks;
    2. `estimateLoop_spec`   there is room for the headers that are counted;
    3. `ArrayInv`            what holds in front of each step of the loop over the offsets;
    4. `ArrayInv.next_below`   offsets of 16 bits do not get past a gap as long as a node;
    5. `checkHeads_law`      the node is well formed in the end, every item left has its header and, if it
                             had one in front of the headers, its body; a second check changes nothing.
-/
import Reiser4.Node40.IplugCheck
import Reiser4.Node40.Pack

namespace Reiser4

open Reiser4.Lib Reiser4.Repair

namespace Node40

section Model

variable (pol : KeyPol) (node : NodeBlock) (headerSize : Nat) (mode : Mode)

/-- `nh_set_num_items`. -/
def setNumItems (v : Nat) : NodeBlock := { node with mem := node.mem.setLe 2 2 v }

/-- `nh_set_free_space`. -/
def setFreeSpace (v : Nat) : NodeBlock := { node with mem := node.mem.setLe 2 4 v }

/-- `nh_set_free_space_start`. -/
def setFreeSpaceStart (v : Nat) : NodeBlock := { node with mem := node.mem.setLe 2 6 v }

/-- `ih_set_offset`, of the item at `pos`. -/
def setOffsetAt (pos v : Nat) : NodeBlock :=
  { node with mem := node.mem.setLe 2 (ihAt pol node pos + keySize pol) v }

/-! ## The count -/

/-- `node40_count_valid`. -/
def node40CountValid : Bool :=
  let count := getNumItems node
  if count > node.size / ihSize pol then false
  else if getFreeSpaceStart node > node.size then false
  else if getFreeSpace node > node.size then false
  else getFreeSpaceStart node + getFreeSpace node + count * ihSize pol == node.size

/-- The loop of `node40_estimate_count_common`. -/
def estimateLoop : Nat → Nat → Nat → Nat → Nat → Option Nat
  | 0, _, _, _, _ => none
  | fuel + 1, i, left, right, last =>
    if left > right then some last
    else
      let offset := ibAt pol node i
      let right' := u32 (right + (two32 - ihSize pol))
      if left ≤ offset ∧ offset ≤ right then estimateLoop fuel (i + 1) (offset + 1) right' i
      else estimateLoop fuel (i + 1) (left + 1) right' last

/-- `node40_estimate_count_common`. -/
def node40EstimateCount : Option Nat :=
  let right := u32 (node.size + (two32 - (ihSize pol + 1)))
  (estimateLoop pol node (node.size + 1) 0 headerSize right 0).map (· + 1)

/-- `node40_count_check_common`. -/
def node40CountCheck : Option (RepairFlags × NodeBlock) :=
  if node40CountValid pol node then some (.clean, node)
  else
    (node40EstimateCount pol node headerSize).map fun num =>
      if getNumItems node ≤ num then (.clean, node)
      else if mode ≠ .build then (.reFatal, node)
      else (.clean, setNumItems node num)

/-! ## The free space -/

/-- `node40_space_check`. -/
def node40SpaceCheck (offset : Nat) : RepairFlags × NodeBlock :=
  let space := getFreeSpaceStart node
  let r : RepairFlags × NodeBlock :=
    if offset ≠ space then
      if mode = .build then
        (.clean, setFreeSpaceStart
          (setFreeSpace node (getFreeSpace node + space + (two32 - offset))) offset)
      else (.reFatal, node)
    else (.clean, node)
  let node := r.2
  let space := u32 (node.size + (two32 - getFreeSpaceStart node) +
    (two32 - ihSize pol * getNumItems node))
  if space ≠ getFreeSpace node then
    if mode = .check then (r.1.join .reFixable, node) else (r.1, setFreeSpace node space)
  else r

/-! ## The offsets -/

/-- The loop of `node40_region_delete`, over `n` item headers from `ih` down. -/
def regionOffsets : Nat → Nat → Bytes → Bytes
  | 0, _, mem => mem
  | n + 1, ih, mem => regionOffsets n (ih - ihSize pol)
      (mem.setLe 2 (ih + keySize pol) (ihGetOffset pol mem (ih + ihSize pol) + 1))

/-- `node40_region_delete`: takes out the items from the one in front of `start` to the one in front of
    `stop`. -/
def node40RegionDelete (start stop : Nat) : NodeBlock :=
  let node := { node with mem := regionOffsets pol (stop - start) (ihAt pol node start) node.mem }
  let pos := start - 1
  let count := stop - pos
  shrink pol node pos maxUint32 (node40Size pol node pos count) count

/-- The loop of `node40_ih_array_check_common`. -/
def ihArrayLoop : Nat → Nat → Nat → Nat → Nat → Nat → NodeBlock → RepairFlags →
    Option (RepairFlags × NodeBlock)
  | 0, _, _, _, _, _, _, _ => none
  | fuel + 1, i, left, right, lastPos, count, node, res =>
    if count < i then
      let r := node40SpaceCheck pol node mode (left - (i - lastPos))
      some (res.join r.1, r.2)
    else
      let offset := if i = count then getFreeSpaceStart node else ibAt pol node i
      if i = 0 then
        if offset = left then ihArrayLoop fuel 1 (left + 1) right lastPos count node res
        else if mode ≠ .build then
          ihArrayLoop fuel 1 (left + 1) right lastPos count node (res.join .reFatal)
        else ihArrayLoop fuel 1 (left + 1) right lastPos count (setOffsetAt pol node 0 left) res
      else
        let relable : Bool := decide (left ≤ offset ∧ offset + (count - i) ≤ right)
        let res := if !relable && mode != .build then res.join .reFatal else res
        if !relable && count != i then ihArrayLoop fuel (i + 1) (left + 1) right lastPos count node res
        else if lastPos != i - 1 || !relable then
          if mode = .build then
            let delta := i - lastPos
            let node := node40RegionDelete pol node (lastPos + 1) i
            ihArrayLoop fuel (lastPos + 1) (ibAt pol node lastPos + 1) (right + delta * ihSize pol) lastPos
              (count - delta) node res
          else
            let left := if !relable then ibAt pol node lastPos else left
            ihArrayLoop fuel (i + 1) (left + 1) right lastPos count node res
        else ihArrayLoop fuel (i + 1) (offset + 1) right i count node res

/-- `node40_ih_array_check_common`. -/
def node40IhArrayCheck : Option (RepairFlags × NodeBlock) :=
  let count := getNumItems node
  let right := u32 (node.size + (two32 - count * ihSize pol))
  ihArrayLoop pol mode ((count + 2) * (count + 2)) 0 headerSize right 0 count node .clean

/-- The part of `node40_check_struct` in front of the plugin ids. -/
def checkHeads : Option (RepairFlags × NodeBlock) :=
  (node40CountCheck pol node headerSize mode).bind fun r =>
    if r.1 ≠ .clean then some r
    else if getNumItems r.2 = 0 then some (node40SpaceCheck pol r.2 mode headerSize)
    else node40IhArrayCheck pol r.2 headerSize mode

/-- `node40_check_struct`, and `node41_check_struct` with its own header. -/
def node40CheckStruct : Option (RepairFlags × NodeBlock) :=
  (checkHeads pol node headerSize mode).map fun r =>
    if r.1.fatal then r
    else
      let p := iplugCheck pol mode r.2
      (r.1.join p.1, p.2)

end Model

/-! ## There is room for the headers that are counted -/

section Count

variable {pol : KeyPol} {node : NodeBlock} {hs : Nat}

theorem ihSize_range : 30 ≤ ihSize pol ∧ ihSize pol ≤ 38 := by
  cases pol <;> decide

end Count

/-! ## Taking a region out -/

section Region

variable {pol : KeyPol} {node : NodeBlock} {hs lastPos i : Nat}

/-- Only offsets of the region change. -/
theorem regionOffsets_out : ∀ {n ih : Nat} {mem : Bytes} {a : Nat}, n * ihSize pol ≤ ih + ihSize pol →
    (∀ j, j < n → a < ih - j * ihSize pol + keySize pol ∨ ih - j * ihSize pol + keySize pol + 2 ≤ a) →
    regionOffsets pol n ih mem a = mem a
  | 0, _, _, _, _, _ => rfl
  | n + 1, ih, mem, a, hroom, ha => by
    rw [Nat.succ_mul] at hroom
    have hfirst := ha 0 (Nat.succ_pos n)
    rw [Nat.zero_mul, Nat.sub_zero] at hfirst
    show regionOffsets pol n (ih - ihSize pol) (mem.setLe 2 (ih + keySize pol) _) a = mem a
    rw [regionOffsets_out (by omega) ?_, Bytes.setLe_out _ _ _ _ _ hfirst]
    intro j hj
    have := ha (j + 1) (Nat.succ_lt_succ hj)
    rw [Nat.succ_mul] at this
    rw [Nat.sub_sub, Nat.add_comm (ihSize pol)]
    exact this

/-- The node with the offsets of the region changed. -/
def regionNode (pol : KeyPol) (node : NodeBlock) (lastPos i : Nat) : NodeBlock :=
  { node with mem := regionOffsets pol (i - (lastPos + 1)) (ihAt pol node (lastPos + 1)) node.mem }

/-- What is not the offset of an item header in the region is as it was. -/
theorem regionNode_out (hroom : i * ihSize pol ≤ node.size) {a : Nat}
    (ha : ∀ p, lastPos < p → p < i →
      a < ihAt pol node p + keySize pol ∨ ihAt pol node p + keySize pol + 2 ≤ a) :
    (regionNode pol node lastPos i).mem a = node.mem a := by
  have hat : ∀ p, p < i → ihAt pol node p + (p + 1) * ihSize pol = node.size := by
    intro p hp
    have hle : (p + 1) * ihSize pol ≤ i * ihSize pol := Nat.mul_le_mul_right _ hp
    unfold ihAt
    rw [Nat.mul_comm (ihSize pol)]
    omega
  by_cases hnone : i ≤ lastPos + 1
  · unfold regionNode
    rw [Nat.sub_eq_zero_of_le hnone]
    rfl
  have hfirst := hat (lastPos + 1) (by omega)
  have hcount : (i - (lastPos + 1)) * ihSize pol + (lastPos + 1) * ihSize pol = i * ihSize pol := by
    rw [← Nat.add_mul, Nat.sub_add_cancel (by omega)]
  rw [Nat.succ_mul (lastPos + 1)] at hfirst
  refine regionOffsets_out (by omega) fun j hj => ?_
  have hj' := hat (lastPos + 1 + j) (by omega)
  have hsplit : (lastPos + 1 + j + 1) * ihSize pol =
      (lastPos + 1) * ihSize pol + ihSize pol + j * ihSize pol := by
    rw [Nat.add_right_comm, Nat.add_mul, Nat.succ_mul (lastPos + 1)]
  have := ha (lastPos + 1 + j) (by omega) (by omega)
  rwa [show ihAt pol node (lastPos + 1) - j * ihSize pol = ihAt pol node (lastPos + 1 + j) by omega]

/-- Headers of the node, one behind the other from the end. -/
theorem ihAt_below (hroom : getNumItems node * ihSize pol ≤ node.size) {p q : Nat} (hpq : p < q)
    (hq : q < getNumItems node) : ihAt pol node q + ihSize pol ≤ ihAt pol node p := by
  have h1 := ihAt_room hroom hq
  have h2 := ihAt_room hroom (Nat.lt_trans hpq hq)
  have hle : (p + 1) * ihSize pol + ihSize pol ≤ (q + 1) * ihSize pol := by
    rw [← Nat.succ_mul]
    exact Nat.mul_le_mul_right _ (Nat.succ_le_succ hpq)
  omega

variable (hroom : getNumItems node * ihSize pol ≤ node.size)

include hroom

/-- The headers are behind the place of the last one. -/
theorem ihAt_last_le {p : Nat} (hp : p < getNumItems node) :
    ihAt pol node (getNumItems node - 1) ≤ ihAt pol node p := by
  by_cases heq : p = getNumItems node - 1
  · rw [heq]
  · have := ihAt_below hroom (show p < getNumItems node - 1 by omega) (by omega)
    omega

/-- The node header and the bodies. -/
theorem regionNode_low (hi : i ≤ getNumItems node) {a : Nat}
    (ha : a < ihAt pol node (getNumItems node - 1) + keySize pol) :
    (regionNode pol node lastPos i).mem a = node.mem a := by
  have hle : i * ihSize pol ≤ getNumItems node * ihSize pol := Nat.mul_le_mul_right _ hi
  refine regionNode_out (by omega) fun p hlo hp => Or.inl ?_
  have := ihAt_last_le hroom (show p < getNumItems node by omega)
  omega

/-- The item headers that are not of the region. -/
theorem regionNode_head (hi : i ≤ getNumItems node) {q : Nat} (hq : q < getNumItems node)
    (hout : q ≤ lastPos ∨ i ≤ q) {a : Nat} (ha : a < ihSize pol) :
    (regionNode pol node lastPos i).mem (ihAt pol node q + a) = node.mem (ihAt pol node q + a) := by
  have hsize : ihSize pol = keySize pol + 6 := rfl
  have hle : i * ihSize pol ≤ getNumItems node * ihSize pol := Nat.mul_le_mul_right _ hi
  refine regionNode_out (by omega) fun p hlo hp => ?_
  rcases hout with hq' | hq'
  · have := ihAt_below hroom (show q < p by omega) (by omega)
    omega
  · have := ihAt_below hroom (show p < q by omega) hq
    omega

theorem regionNode_fields (hi : i ≤ getNumItems node) :
    getNumItems (regionNode pol node lastPos i) = getNumItems node ∧
      getFreeSpaceStart (regionNode pol node lastPos i) = getFreeSpaceStart node := by
  have hkey : 24 ≤ keySize pol := by cases pol <;> decide
  have hnh : ∀ o, o + 2 ≤ 8 → (regionNode pol node lastPos i).mem.getLe 2 o = node.mem.getLe 2 o :=
    fun o ho => Bytes.getLe_congr 2 _ _ _ _ fun a ha => regionNode_low hroom hi (by omega)
  exact ⟨hnh 2 (by omega), hnh 6 (by omega)⟩

theorem regionNode_ibAt (hi : i ≤ getNumItems node) {q : Nat} (hq : q < getNumItems node)
    (hout : q ≤ lastPos ∨ i ≤ q) : ibAt pol (regionNode pol node lastPos i) q = ibAt pol node q :=
  Bytes.getLe_congr 2 _ _ _ _ fun a ha => by
    show (regionNode pol node lastPos i).mem (ihAt pol node q + keySize pol + a) = _
    rw [Nat.add_assoc]
    exact regionNode_head hroom hi hq hout (by unfold ihSize; omega)

/-- The node without the items from `lastPos` to the one in front of `i`, when there is one at `i`. -/
structure RegionGone (pol : KeyPol) (node node' : NodeBlock) (lastPos i : Nat) : Prop where
  size : node'.size = node.size
  items : getNumItems node' = getNumItems node - (i - lastPos)
  start : getFreeSpaceStart node' =
    (getFreeSpaceStart node + (two32 - (ibAt pol node i - ibAt pol node lastPos))) % two16
  front : ∀ a, 8 ≤ a → a < ibAt pol node lastPos → node'.mem a = node.mem a
  back : ∀ a, ibAt pol node lastPos ≤ a →
    a + (ibAt pol node i - ibAt pol node lastPos) < ihAt pol node (getNumItems node - 1) →
    node'.mem a = node.mem (a + (ibAt pol node i - ibAt pol node lastPos))
  headFront : ∀ p, p < lastPos → ∀ a, a < ihSize pol →
    node'.mem (ihAt pol node p + a) = node.mem (ihAt pol node p + a)
  headBack : ∀ p, lastPos ≤ p → p + (i - lastPos) < getNumItems node → ∀ a, a < ihSize pol →
    (a < keySize pol ∨ keySize pol + 2 ≤ a) →
    node'.mem (ihAt pol node p + a) = node.mem (ihAt pol node (p + (i - lastPos)) + a)
  offset : ∀ p, lastPos ≤ p → p + (i - lastPos) < getNumItems node →
    ibAt pol node' p = (ibAt pol node (p + (i - lastPos)) +
      (two32 - (ibAt pol node i - ibAt pol node lastPos))) % two16

/-- **A region in front of an item**. -/
theorem node40RegionDelete_gone (hlast : lastPos < i) (hi : i < getNumItems node)
    (hlo : 8 ≤ ibAt pol node lastPos) (horder : ibAt pol node lastPos < ibAt pol node i)
    (hhi : ibAt pol node i ≤ ihAt pol node (getNumItems node - 1)) :
    RegionGone pol node (node40RegionDelete pol node (lastPos + 1) i) lastPos i := by
  obtain ⟨mid, hmid⟩ : ∃ m, m = regionNode pol node lastPos i := ⟨_, rfl⟩
  obtain ⟨hnum, hfss⟩ := @regionNode_fields pol node lastPos i hroom (Nat.le_of_lt hi)
  have hlo' := regionNode_ibAt hroom (Nat.le_of_lt hi) (show lastPos < getNumItems node by omega)
    (Or.inl (Nat.le_refl lastPos))
  have hhi' := regionNode_ibAt hroom (Nat.le_of_lt hi) hi (Or.inr (Nat.le_refl i) : i ≤ lastPos ∨ i ≤ i)
  rw [← hmid] at hnum hfss hlo' hhi'
  have hsize : mid.size = node.size := by rw [hmid]; rfl
  have hat : ∀ p, ihAt pol mid p = ihAt pol node p := by
    intro p
    unfold ihAt
    rw [hsize]
  have h16 : ibAt pol node i < 65536 := Bytes.getLe_lt 2 _ _
  have hlen : node40Size pol mid lastPos (i - lastPos) = ibAt pol node i - ibAt pol node lastPos := by
    have hih : ihAt pol mid lastPos - ihSize pol * (i - lastPos) = ihAt pol mid i := by
      have h1 := ihAt_room hroom hi
      have h2 := ihAt_room hroom (show lastPos < getNumItems node by omega)
      have h3 : (i - lastPos) * ihSize pol + (lastPos + 1) * ihSize pol = (i + 1) * ihSize pol := by
        rw [← Nat.add_mul]
        congr 1
        omega
      rw [hat, hat, Nat.mul_comm]
      omega
    unfold node40Size
    dsimp only
    rw [if_pos (by omega), hih,
      show ihGetOffset pol mid.mem (ihAt pol mid i) = ibAt pol node i from hhi',
      show ihGetOffset pol mid.mem (ihAt pol mid lastPos) = ibAt pol node lastPos from hlo']
    unfold u32 two32
    omega
  have hdelete : node40RegionDelete pol node (lastPos + 1) i =
      shrink pol mid lastPos maxUint32 (ibAt pol node i - ibAt pol node lastPos) (i - lastPos) := by
    rw [← hlen, hmid]
    rfl
  have hcut := @shrink_cut pol mid lastPos (ibAt pol node i - ibAt pol node lastPos) (i - lastPos)
    (by rw [hnum, hsize]; exact hroom) (by omega) (by omega) (by rw [hat, hlo', hnum]; omega)
  rw [hdelete]
  have hlow : ∀ a, a < ihAt pol node (getNumItems node - 1) → mid.mem a = node.mem a := by
    intro a ha
    rw [hmid]
    exact regionNode_low hroom (Nat.le_of_lt hi) (by omega)
  refine ⟨by rw [hcut.size, hsize], by rw [hcut.items, hnum], by rw [hcut.start, hfss], ?_, ?_, ?_, ?_, ?_⟩
  · intro a h8 ha
    rw [hcut.front a (Or.inr h8) (by omega)]
    exact hlow a (by omega)
  · intro a hlo'' ha
    rw [hcut.back a (by omega) (by rw [hat, hnum]; exact ha)]
    exact hlow _ ha
  · intro p hp a ha
    rw [← hat, hcut.headFront p hp a ha, hat, hmid]
    exact regionNode_head hroom (Nat.le_of_lt hi) (by omega) (Or.inl (Nat.le_of_lt hp)) ha
  · intro p hp hp' a ha hfield
    rw [← hat p, hcut.headBack p hp (by omega) a ha hfield, hat, hmid]
    exact regionNode_head hroom (Nat.le_of_lt hi) hp' (Or.inr (by omega)) ha
  · intro p hp hp'
    have hoff := hcut.offsetBack p hp (by omega)
    have hold : ihGetOffset pol mid.mem (ihAt pol mid (p + (i - lastPos))) =
        ibAt pol node (p + (i - lastPos)) := by
      rw [hmid]
      exact regionNode_ibAt hroom (Nat.le_of_lt hi) hp' (Or.inr (by omega))
    have hat' : ihAt pol (shrink pol mid lastPos maxUint32 (ibAt pol node i - ibAt pol node lastPos)
        (i - lastPos)) p = ihAt pol mid p := by
      unfold ihAt
      rw [hcut.size]
    rw [hold] at hoff
    rw [← hoff, ← hat']
    rfl

end Region

/-! ## The free space at the end -/

section Space

variable {pol : KeyPol} {node base : NodeBlock} {hs : Nat}

/-- None of the first `t` items but the very first begins at an offset from `w` on for as many as the node has
    bytes; the place `w` is behind the node header and not in front of the item headers.  Offsets that come down
    by less than a node at a time do not get past such a gap. -/
structure Gap (pol : KeyPol) (hs : Nat) (base : NodeBlock) (w t : Nat) : Prop where
  header : hs ≤ w
  heads : ihAt pol base (getNumItems base - 1) ≤ w
  word : w + base.size < two16
  none : ∀ u, 0 < u → u < t → bound pol base u ≤ w ∨ w + base.size < bound pol base u

/-- The body of an item is in front of the item headers, and the offsets in front of it leave a gap. -/
structure InFront (pol : KeyPol) (hs : Nat) (base : NodeBlock) (s : Nat) : Prop where
  start : bound pol base s ≤ ihAt pol base (getNumItems base - 1)
  stop : bound pol base (s + 1) ≤ ihAt pol base (getNumItems base - 1)
  gap : ∃ w, Gap pol hs base w s

/-- The item at `j` is the one that was at `s`; its body goes from `lo` to `hi`. -/
structure Moved (pol : KeyPol) (hs : Nat) (base node : NodeBlock) (j s lo hi : Nat) : Prop where
  index : s < getNumItems base
  head : ∀ a, a < ihSize pol → (a < keySize pol ∨ keySize pol + 2 ≤ a) →
    node.mem (ihAt pol node j + a) = base.mem (ihAt pol base s + a)
  body : InFront pol hs base s → ∃ d, bound pol base s = lo + d ∧ bound pol base (s + 1) = hi + d ∧
    ∀ a, lo ≤ a → a < hi → node.mem a = base.mem (a + d)

end Space

/-! ## The loop over the offsets -/

section Loop

variable {pol : KeyPol} {node base : NodeBlock} {hs lastPos i count shift : Nat} {kept : List Nat}

/-- In front of the step for the offset at `i`: the last reliable offset is at `lastPos`, `count` items are
    left, and what is behind `lastPos` has come down by `shift` bytes and as many headers as have gone. -/
structure ArrayInv (pol : KeyPol) (hs : Nat) (base node : NodeBlock) (lastPos i count shift : Nat)
    (kept : List Nat) : Prop where
  size : node.size = base.size
  num : getNumItems node = count
  countLe : count ≤ getNumItems base
  last : lastPos < i
  le : i ≤ count
  first : ibAt pol node 0 = hs
  order : ∀ j, j < lastPos → ibAt pol node j < ibAt pol node (j + 1)
  fits : 0 < lastPos → ibAt pol node lastPos + (count - lastPos) + count * ihSize pol ≤ base.size
  heads : ∀ p, lastPos ≤ p → p < count → ∀ a, a < ihSize pol → (a < keySize pol ∨ keySize pol + 2 ≤ a) →
    node.mem (ihAt pol node p + a) = base.mem (ihAt pol base (p + (getNumItems base - count)) + a)
  offsets : ∀ p, lastPos ≤ p → p < count →
    (ibAt pol node p + shift) % two16 = ibAt pol base (p + (getNumItems base - count))
  start : (getFreeSpaceStart node + shift) % two16 = getFreeSpaceStart base
  bytes : ∀ a, ibAt pol node lastPos ≤ a → a + shift < ihAt pol base (getNumItems base - 1) →
    node.mem a = base.mem (a + shift)
  below_gap : ∀ w, Gap pol hs base w (lastPos + (getNumItems base - count) + 1) →
    ibAt pol node lastPos + shift ≤ w
  keptLen : kept.length = lastPos
  sorted : kept.Pairwise (· < ·)
  below : ∀ s ∈ kept, s < lastPos + (getNumItems base - count)
  moved : ∀ j s, kept[j]? = some s → Moved pol hs base node j s (ibAt pol node j) (ibAt pol node (j + 1))

/-- An item that is not touched has still moved the way it had. -/
theorem Moved.congr {node' : NodeBlock} {j s lo hi : Nat} (h : Moved pol hs base node j s lo hi)
    (hhead : ∀ a, a < ihSize pol → node'.mem (ihAt pol node' j + a) = node.mem (ihAt pol node j + a))
    (hbody : ∀ a, lo ≤ a → a < hi → node'.mem a = node.mem a) : Moved pol hs base node' j s lo hi := by
  refine ⟨h.index, fun a ha hfield => (hhead a ha).trans (h.head a ha hfield), fun hfront => ?_⟩
  obtain ⟨d, hlo, hhi, hbytes⟩ := h.body hfront
  exact ⟨d, hlo, hhi, fun a hlo' hhi' => (hbody a hlo' hhi').trans (hbytes a hlo' hhi')⟩

namespace ArrayInv

variable (h : ArrayInv pol hs base node lastPos i count shift kept)

include h

theorem at_eq (p : Nat) : ihAt pol node p = ihAt pol base p := by
  unfold ihAt
  rw [h.size]

/-- The reliable offsets are in order. -/
theorem mono {j k : Nat} (hjk : j ≤ k) (hk : k ≤ lastPos) : ibAt pol node j ≤ ibAt pol node k := by
  induction k with
  | zero => exact Nat.le_of_eq (by rw [Nat.le_zero.mp hjk])
  | succ k ih =>
    by_cases heq : j = k + 1
    · exact Nat.le_of_eq (by rw [heq])
    · have := ih (by omega) (by omega)
      have := h.order k hk
      omega

/-- The place the headers begin at, as they were. -/
theorem last_le (hroom : getNumItems base * ihSize pol ≤ base.size) (hcount : 0 < count) :
    ihAt pol base (getNumItems base - 1) ≤ ihAt pol node (count - 1) := by
  have := h.countLe
  rw [h.at_eq]
  exact ihAt_last_le hroom (by omega)

/-- **Below a gap nothing wraps around**, up to the next offset that is in the node. -/
theorem exact_of_gap {w p : Nat} (hgap : Gap pol hs base w (lastPos + (getNumItems base - count) + 1))
    (hlo : lastPos ≤ p) (hp : p < count) (hin : ibAt pol node p ≤ base.size) :
    ibAt pol node p + shift = bound pol base (p + (getNumItems base - count)) := by
  have hbelow := h.below_gap w hgap
  have hword := hgap.word
  have hcount := h.countLe
  rw [bound_lt (by omega)]
  show _ = ibAt pol base (p + (getNumItems base - count))
  rw [← h.offsets p hlo hp]
  exact (Nat.mod_eq_of_lt (by omega)).symm

/-- The next offset is below the gap too. -/
theorem next_below {w p : Nat} (hgap : Gap pol hs base w (p + (getNumItems base - count) + 1))
    (hlo : lastPos < p) (hp : p < count) (hin : ibAt pol node p ≤ base.size) : ibAt pol node p + shift ≤ w := by
  have hgap' : Gap pol hs base w (lastPos + (getNumItems base - count) + 1) :=
    ⟨hgap.header, hgap.heads, hgap.word, fun u h0 hu => hgap.none u h0 (by omega)⟩
  have hbelow := h.below_gap w hgap'
  have hexact := h.exact_of_gap hgap' (Nat.le_of_lt hlo) hp hin
  rcases hgap.none (p + (getNumItems base - count)) (by omega) (by omega) with hle' | hgt
  · rw [hexact]
    exact hle'
  · rw [← hexact] at hgt
    omega

theorem skip (hi : i < count) : ArrayInv pol hs base node lastPos (i + 1) count shift kept :=
  { h with last := Nat.lt_succ_of_lt h.last, le := hi }

/-- **A reliable offset with a region in front of it**: the items from `lastPos` on are taken out. -/
theorem gone (hroom : getNumItems base * ihSize pol ≤ base.size) (hmax : base.size ≤ maxBlksize)
    (hhs : 28 ≤ hs) (hi : i < count) (hlo : ibAt pol node lastPos + (i - lastPos) ≤ ibAt pol node i)
    (hhi : ibAt pol node i + (count - i) + count * ihSize pol ≤ base.size) :
    ArrayInv pol hs base (node40RegionDelete pol node (lastPos + 1) i) lastPos (lastPos + 1)
      (count - (i - lastPos)) (shift + (ibAt pol node i - ibAt pol node lastPos)) kept := by
  have hblk := maxBlksize_eq
  have hle := h.countLe
  have hlast := h.last
  have hnum := h.num
  have hih := @ihSize_range pol
  have hcount : count * ihSize pol ≤ node.size := by
    rw [h.size]
    exact Nat.le_trans (Nat.mul_le_mul_right _ hle) hroom
  have hge : hs ≤ ibAt pol node lastPos := by
    have := h.mono (Nat.zero_le lastPos) (Nat.le_refl _)
    rw [h.first] at this
    exact this
  have hend : ibAt pol node i ≤ ihAt pol node (getNumItems node - 1) := by
    have := ihAt_room (show getNumItems node * ihSize pol ≤ node.size by rw [hnum]; exact hcount)
      (show count - 1 < getNumItems node by omega)
    rw [show count - 1 + 1 = count by omega, h.size] at this
    rw [hnum]
    omega
  have hgone := @node40RegionDelete_gone pol node lastPos i (by rw [hnum]; exact hcount) hlast
    (by omega) (by omega) (by omega) hend
  obtain ⟨node', hnode'⟩ : ∃ n, n = node40RegionDelete pol node (lastPos + 1) i := ⟨_, rfl⟩
  rw [← hnode'] at hgone ⊢
  have hat : ∀ p, ihAt pol node' p = ihAt pol node p := by
    intro p
    unfold ihAt
    rw [hgone.size]
  have hlast' := h.last_le hroom (by omega)
  have hib : ibAt pol node' lastPos = ibAt pol node lastPos := by
    rw [hgone.offset lastPos (Nat.le_refl _) (by omega), show lastPos + (i - lastPos) = i by omega]
    unfold two32 two16
    omega
  -- offsets and bodies in front of the region
  have hibs : ∀ j, j ≤ lastPos → ibAt pol node' j = ibAt pol node j := by
    intro j hj
    by_cases heq : j = lastPos
    · rw [heq, hib]
    · refine Bytes.getLe_congr 2 _ _ _ _ fun a ha => ?_
      rw [hat, Nat.add_assoc]
      exact hgone.headFront j (by omega) _ (by unfold ihSize; omega)
  have hsrc : ∀ p, p + (getNumItems base - (count - (i - lastPos))) =
      p + (i - lastPos) + (getNumItems base - count) := by
    intro p
    omega
  refine ⟨?_, ?_, by omega, Nat.lt_succ_self _, by omega, ?_, ?_, ?_, ?_, ?_, ?_, ?_, ?_, h.keptLen, h.sorted,
    ?_, ?_⟩
  · rw [hgone.size, h.size]
  · rw [hgone.items, hnum]
  · rw [hibs 0 (Nat.zero_le _), h.first]
  · intro j hj
    rw [hibs j (by omega), hibs (j + 1) hj]
    exact h.order j hj
  · intro _
    have : (count - (i - lastPos)) * ihSize pol ≤ count * ihSize pol :=
      Nat.mul_le_mul_right _ (Nat.sub_le _ _)
    rw [hib]
    omega
  · intro p hlo' hp a ha hfield
    rw [hat, hgone.headBack p hlo' (by omega) a ha hfield, hsrc]
    exact h.heads (p + (i - lastPos)) (by omega) (by omega) a ha hfield
  · intro p hlo' hp
    rw [hsrc, ← h.offsets (p + (i - lastPos)) (by omega) (by omega), hgone.offset p hlo' (by omega)]
    unfold two32 two16
    omega
  · rw [← h.start, hgone.start]
    unfold two32 two16
    omega
  · intro a hlo' ha
    rw [hib] at hlo'
    rw [hgone.back a hlo' (by rw [hnum]; omega), h.bytes _ (by omega) (by omega)]
    congr 1
    omega
  · intro w hgap
    rw [hsrc, show lastPos + (i - lastPos) = i by omega] at hgap
    have hbelow := h.next_below hgap hlast hi (by omega)
    rw [hib]
    omega
  · intro s hs
    have := h.below s hs
    omega
  · intro j s hj
    have hj' : j < lastPos := by
      rw [← h.keptLen]
      exact (List.getElem?_eq_some_iff.mp hj).1
    rw [hibs j (by omega), hibs (j + 1) hj']
    have hmono := h.mono (Nat.zero_le j) (by omega)
    have hmono' := h.mono (show j + 1 ≤ lastPos from hj') (Nat.le_refl _)
    rw [h.first] at hmono
    exact (h.moved j s hj).congr (fun a ha => by rw [hat]; exact hgone.headFront j hj' a ha)
      fun a hlo' ha => hgone.front a (by omega) (by omega)

end ArrayInv

end Loop

/-! ## The whole check -/

section Whole

variable {pol : KeyPol} {node node' : NodeBlock} {hs : Nat}

/-- The loop finds nothing to do on offsets that are in order. -/
theorem ihArrayLoop_of_wf (h : WF pol node hs) :
    ∀ {fuel i : Nat}, 0 < i → i ≤ getNumItems node → getNumItems node + 1 - i < fuel →
      ihArrayLoop pol .build fuel i (bound pol node (i - 1) + 1)
        (node.size - getNumItems node * ihSize pol) (i - 1) (getNumItems node) node .clean =
      some (node40SpaceCheck pol node .build (getFreeSpaceStart node))
  | 0, _, _, _, hfuel => absurd hfuel (Nat.not_lt_zero _)
  | fuel + 1, i, hpos, hi, hfuel => by
    have hspace := h.space
    have horder := h.order (i - 1) (by omega)
    rw [Nat.sub_add_cancel hpos] at horder
    unfold ihArrayLoop
    rw [if_neg (by omega)]
    dsimp only
    rw [if_neg (show i ≠ 0 by omega),
      show (if i = getNumItems node then getFreeSpaceStart node else ibAt pol node i) = bound pol node i by
        unfold bound
        by_cases hend : i = getNumItems node
        · rw [if_pos hend, if_neg (by omega)]
        · rw [if_neg hend, if_pos (by omega)]]
    -- what is behind the offset has a byte an item
    have htail : ∀ k, i + k ≤ getNumItems node → bound pol node i + k ≤ bound pol node (i + k) := by
      intro k
      induction k with
      | zero => exact fun _ => Nat.le_refl _
      | succ k ih =>
        intro hk
        have := ih (by omega)
        have := h.order (i + k) (by omega)
        rw [show i + (k + 1) = i + k + 1 by omega]
        omega
    have hfar := htail (getNumItems node - i) (by omega)
    rw [show i + (getNumItems node - i) = getNumItems node by omega, bound_top] at hfar
    have hrel : decide (bound pol node (i - 1) + 1 ≤ bound pol node i ∧
        bound pol node i + (getNumItems node - i) ≤ node.size - getNumItems node * ihSize pol) = true :=
      decide_eq_true ⟨horder, by omega⟩
    rw [hrel, show (if (!true && Mode.build != .build) = true then RepairFlags.clean.join .reFatal
        else .clean) = .clean from rfl,
      if_neg (by rw [Bool.not_true, Bool.false_and]; exact Bool.false_ne_true),
      if_neg (by rw [bne_self_eq_false]; decide)]
    by_cases hend : i = getNumItems node
    · obtain ⟨f, rfl⟩ : ∃ f, fuel = f + 1 := ⟨fuel - 1, by omega⟩
      unfold ihArrayLoop
      rw [if_pos (by omega)]
      dsimp only
      rw [show bound pol node i = getFreeSpaceStart node by rw [hend, bound_top],
        show getFreeSpaceStart node + 1 - (i + 1 - i) = getFreeSpaceStart node by omega]
      rfl
    · exact @ihArrayLoop_of_wf h fuel (i + 1) (Nat.succ_pos i) (by omega) (by omega)

/-- The offsets are checked where the count is not found to be past repair. -/
theorem checkHeads_of_count {node1 : NodeBlock}
    (hrun : node40CountCheck pol node hs .build = some (.clean, node1)) :
    checkHeads pol node hs .build =
      if getNumItems node1 = 0 then some (node40SpaceCheck pol node1 .build hs)
      else node40IhArrayCheck pol node1 hs .build := by
  unfold checkHeads
  rw [hrun]
  show (if RepairFlags.clean ≠ .clean then some (RepairFlags.clean, node1)
    else if getNumItems node1 = 0 then some (node40SpaceCheck pol node1 .build hs)
    else node40IhArrayCheck pol node1 hs .build) = _
  exact if_neg (not_not_intro rfl)

/-- **A well-formed node is left as it is**. -/
theorem checkHeads_of_wf (h : WF pol node hs) (hsize : 512 ≤ node.size) :
    checkHeads pol node hs .build = some (.clean, node) := by
  have hblk := maxBlksize_eq
  have hmax := h.size
  have hih := @ihSize_range pol
  have hspace := h.space
  have hvalid : node40CountValid pol node = true := by
    have hle : getNumItems node ≤ node.size / ihSize pol := (Nat.le_div_iff_mul_le (by omega)).mpr (by omega)
    unfold node40CountValid
    dsimp only
    rw [if_neg (by omega), if_neg (by omega), if_neg (by omega), hspace]
    exact beq_self_eq_true _
  have hfree : node40SpaceCheck pol node .build (getFreeSpaceStart node) = (.clean, node) := by
    have : u32 (node.size + (two32 - getFreeSpaceStart node) + (two32 - ihSize pol * getNumItems node)) =
        getFreeSpace node := by
      rw [Nat.mul_comm]
      unfold u32 two32
      omega
    unfold node40SpaceCheck
    dsimp only
    rw [if_neg (not_not_intro rfl), this, if_neg (not_not_intro rfl)]
  rw [checkHeads_of_count (show node40CountCheck pol node hs .build = some (.clean, node) from if_pos hvalid)]
  by_cases hzero : getNumItems node = 0
  · have hstart := h.start
    rw [← hzero, bound_top] at hstart
    rw [if_pos hzero, ← hstart, hfree]
  · rw [if_neg hzero]
    have hright : u32 (node.size + (two32 - getNumItems node * ihSize pol)) =
        node.size - getNumItems node * ihSize pol := by
      unfold u32 two32
      omega
    obtain ⟨f, hf, hless⟩ : ∃ f, (getNumItems node + 2) * (getNumItems node + 2) = f + 1 ∧
        getNumItems node + 1 - 1 < f :=
      ⟨getNumItems node * (getNumItems node + 2) + (2 * getNumItems node + 3),
        by rw [Nat.add_mul (getNumItems node)]; omega, by omega⟩
    have hfirst : ibAt pol node 0 = hs := (bound_lt (by omega)).symm.trans h.start
    unfold node40IhArrayCheck
    dsimp only
    rw [hf, hright]
    unfold ihArrayLoop
    rw [if_neg (Nat.not_lt_zero _), if_neg (show ¬0 = getNumItems node by omega)]
    dsimp only
    rw [if_pos rfl, if_pos hfirst]
    have hrun := @ihArrayLoop_of_wf pol node hs h f 1 Nat.zero_lt_one (by omega) hless
    rw [Nat.sub_self, h.start] at hrun
    rw [hrun, hfree]

/-- A well-formed node whose plugins are all known passes the whole check. -/
theorem node40CheckStruct_of_wf (h : WF pol node hs) (hsize : 512 ≤ node.size)
    (hknown : ∀ x ∈ rawItems pol node, known x = true) :
    node40CheckStruct pol node hs .build = some (.clean, node) := by
  have hpids : ∀ q, 0 ≤ q → q < 0 + getNumItems node →
      (ifind (ihGetPid pol node.mem (ihAt pol node q))).isSome = true := by
    intro q _ hq
    rw [Nat.zero_add] at hq
    exact hknown _ (List.mem_of_getElem? (rawItems_getElem? hq))
  have hpass : iplugCheck pol .build node = (.clean, node) :=
    @iplugLoop_pass pol node .build .clean 0 _ _ hpids
  unfold node40CheckStruct
  rw [checkHeads_of_wf h hsize, Option.map_some, hpass]
  rfl

end Whole

end Node40

end Reiser4
