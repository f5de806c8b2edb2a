/-
  Making room in a node (`node40_expand`), and copying whole items into it (`node40_copy`).

  Room for new items is made in three moves: the bodies behind it go up, their offsets with them, and
  their headers go down.  Of the headers that the new items will have only the first gets its offset; the
  copy puts the headers of the source there and then walks over them, taking the length of each item from
  the offset that the next one still has from the source.

    1. `Opened`, `opened_expand`   the node with the room, byte by byte and header by header;
    2. `Filled`, `filled_copy`     the node with the items copied into it;
    3. `WF.filled`                 it is well formed, and its items are the old ones with the copied ones
                                   among them.
-/
import Reiser4.Node40.IplugCheck

namespace Reiser4

open Reiser4.Lib

namespace Node40

/-! ## The routines -/

section Model

variable (pol : KeyPol) (node : NodeBlock)

/-- `nh_inc_num_items`. -/
def incNumItems (v : Nat) : NodeBlock :=
  { node with mem := node.mem.setLe 2 2 (getNumItems node + v) }

/-- `nh_dec_free_space`. -/
def decFreeSpace (v : Nat) : NodeBlock :=
  { node with mem := node.mem.setLe 2 4 (getFreeSpace node + (two32 - v)) }

/-- `nh_inc_free_space_start`. -/
def incFreeSpaceStart (v : Nat) : NodeBlock :=
  { node with mem := node.mem.setLe 2 6 (getFreeSpaceStart node + v) }

/-- `ih_set_offset`. -/
def ihSetOffset (mem : Bytes) (ih v : Nat) : Bytes := mem.setLe 2 (ih + keySize pol) v

/-- `ih_set_flags`. -/
def ihSetFlags (mem : Bytes) (ih v : Nat) : Bytes := mem.setLe 2 (ih + keySize pol + 2) v

/-- `ih_inc_offset`. -/
def ihIncOffset (mem : Bytes) (ih v : Nat) : Bytes := ihSetOffset pol mem ih (ihGetOffset pol mem ih + v)

/-- The loop of `node40_expand` over `n` item headers from `ih` down. -/
def incOffsets (len : Nat) : Nat → Bytes → Nat → Bytes
  | 0, mem, _ => mem
  | n + 1, mem, ih => incOffsets len n (ihIncOffset pol mem ih len) (ih - ihSize pol)

/-- `node40_expand`: makes room for `count` items of `len` bytes (the unit is `MAX_UINT32`), or for `len`
    bytes at the end of an item. -/
def expand (pos unit len count : Nat) : NodeBlock :=
  if len = 0 then node
  else
    let items := getNumItems node
    let item := if unit = maxUint32 then pos else pos + 1
    let ih := ihAt pol node item
    let offset := if item < items then ihGetOffset pol node.mem ih else getFreeSpaceStart node
    let mem :=
      if item < items then
        let mem := node.mem.move (offset + len) offset (getFreeSpaceStart node - offset)
        let mem := incOffsets pol len (items - item) mem ih
        if unit = maxUint32 then
          mem.move (ihAt pol node (items - 1 + count)) (ihAt pol node (items - 1))
            (ihSize pol * (items - item))
        else mem
      else node.mem
    let node := decFreeSpace (incFreeSpaceStart { node with mem := mem } len) len
    if unit = maxUint32 then
      let mem := ihSetOffset pol (ihSetFlags pol node.mem ih 0) ih offset
      decFreeSpace (incNumItems { node with mem := mem } count) (count * ihSize pol)
    else node

/-- The loop of `node40_copy` over the headers of the copied items, from `ih` down; `last` is the header of
    the last item of the node. -/
def copyOffsets (fss last : Nat) : Nat → Bytes → Nat → Nat → Bytes
  | 0, mem, _, _ => mem
  | n + 1, mem, ih, offset =>
    let old := ihGetOffset pol mem ih
    let mem := ihSetOffset pol mem ih offset
    let offset :=
      if ih = last then u32 (offset + (fss + (two32 - ihGetOffset pol mem ih)))
      else u32 (offset + (ihGetOffset pol mem (ih - ihSize pol) + (two32 - old)))
    copyOffsets fss last n mem (ih - ihSize pol) offset

/-- `node40_copy`. -/
def copy (dstPos : Nat) (src : NodeBlock) (srcPos count : Nat) : NodeBlock :=
  let items := getNumItems node
  let fss := getFreeSpaceStart node
  let size := node40Size pol src srcPos count
  let body := if dstPos < items - count then ibAt pol node dstPos else fss - size
  let mem := node.mem.copy body src.mem (ibAt pol src srcPos) size
  let dst := ihAt pol node (dstPos + count - 1)
  let mem := mem.copy dst src.mem (ihAt pol src (srcPos + count - 1)) (count * ihSize pol)
  { node with
    mem := copyOffsets pol fss (ihAt pol node (items - 1)) count mem (dst + ihSize pol * (count - 1)) body }

end Model

/-! ## Headers -/

section Headers

variable {pol : KeyPol} {node : NodeBlock} {m : Nat}

/-- The header at a position of a block that has room for `m` of them. -/
theorem ihAt_at (hroom : m * ihSize pol ≤ node.size) {i : Nat} (hi : i < m) :
    ihAt pol node i + (i + 1) * ihSize pol = node.size := by
  have hle : (i + 1) * ihSize pol ≤ m * ihSize pol := Nat.mul_le_mul_right _ hi
  unfold ihAt
  rw [Nat.mul_comm (ihSize pol)]
  omega

theorem ihAt_shift (hroom : m * ihSize pol ≤ node.size) {i k : Nat} (hi : i + k < m) :
    ihAt pol node (i + k) + k * ihSize pol = ihAt pol node i := by
  have h1 := ihAt_at hroom hi
  have h2 := ihAt_at hroom (show i < m by omega)
  rw [show i + k + 1 = i + 1 + k by omega, Nat.add_mul] at h1
  omega

theorem ihAt_apart (hroom : m * ihSize pol ≤ node.size) {i j : Nat} (hij : i < j) (hj : j < m) :
    ihAt pol node j + ihSize pol ≤ ihAt pol node i := by
  have h1 := ihAt_shift hroom (show i + (j - i) < m by omega)
  have h2 : 1 * ihSize pol ≤ (j - i) * ihSize pol := Nat.mul_le_mul_right _ (by omega)
  rw [Nat.add_sub_cancel' (Nat.le_of_lt hij)] at h1
  omega

/-- The headers of a span, counted from its last one, which is the lowest. -/
theorem ihAt_span (hroom : m * ihSize pol ≤ node.size) {p c i : Nat} (hle : p + c ≤ m) (hi : i < c) :
    ihAt pol node (p + i) = ihAt pol node (p + c - 1) + (c - 1 - i) * ihSize pol := by
  have h := ihAt_shift hroom (show p + i + (c - 1 - i) < m by omega)
  rw [show p + i + (c - 1 - i) = p + c - 1 by omega] at h
  exact h.symm

theorem ihAt_congr {node' : NodeBlock} (h : node'.size = node.size) (i : Nat) :
    ihAt pol node' i = ihAt pol node i := by
  unfold ihAt
  rw [h]

theorem ihSetOffset_out (mem : Bytes) (ih v a : Nat)
    (h : a < ih + keySize pol ∨ ih + keySize pol + 2 ≤ a) : ihSetOffset pol mem ih v a = mem a :=
  Bytes.setLe_out 2 _ _ _ _ h

theorem ihGetOffset_set (mem : Bytes) (ih v : Nat) :
    ihGetOffset pol (ihSetOffset pol mem ih v) ih = v % two16 := Bytes.getLe_setLe 2 _ _ _

theorem ihGetOffset_congr {mem mem' : Bytes} {ih ih' : Nat}
    (h : ∀ a, a < ihSize pol → mem' (ih' + a) = mem (ih + a)) :
    ihGetOffset pol mem' ih' = ihGetOffset pol mem ih :=
  Bytes.getLe_congr 2 _ _ _ _ fun a ha => by
    rw [Nat.add_assoc, Nat.add_assoc]
    exact h _ (by unfold ihSize; omega)

/-- Increasing is decreasing by the rest to `2^32`. -/
theorem incOffsets_eq {len : Nat} (hlen : len ≤ two32) : ∀ (n : Nat) (mem : Bytes) (ih : Nat),
    incOffsets pol len n mem ih = decOffsets pol (two32 - len) n mem ih
  | 0, _, _ => rfl
  | n + 1, mem, ih => by
    rw [incOffsets, decOffsets, incOffsets_eq hlen n]
    congr 1
    unfold ihIncOffset ihSetOffset ihDecOffset
    rw [Nat.sub_sub_self hlen]

end Headers

/-! ## The room -/

/-- The node with room for `count` items of `len` bytes in front of the item at `pos`. -/
structure Opened (pol : KeyPol) (node node' : NodeBlock) (pos len count : Nat) : Prop where
  size : node'.size = node.size
  items : getNumItems node' = getNumItems node + count
  space : getFreeSpace node' = getFreeSpace node - (len + count * ihSize pol)
  start : getFreeSpaceStart node' = getFreeSpaceStart node + len
  front : ∀ a, (a < 2 ∨ 8 ≤ a) → a < bound pol node pos → node'.mem a = node.mem a
  back : ∀ a, bound pol node pos ≤ a → a < getFreeSpaceStart node → node'.mem (a + len) = node.mem a
  headFront : ∀ i, i < pos → ∀ a, a < ihSize pol →
    node'.mem (ihAt pol node i + a) = node.mem (ihAt pol node i + a)
  headBack : ∀ i, pos ≤ i → i < getNumItems node → ∀ a, a < ihSize pol →
    (a < keySize pol ∨ keySize pol + 2 ≤ a) →
    node'.mem (ihAt pol node (i + count) + a) = node.mem (ihAt pol node i + a)
  offsetBack : ∀ i, pos ≤ i → i < getNumItems node →
    ihGetOffset pol node'.mem (ihAt pol node (i + count)) = bound pol node i + len
  offsetNew : ihGetOffset pol node'.mem (ihAt pol node pos) = bound pol node pos

section Opened

variable {pol : KeyPol} {node : NodeBlock} {hs pos len count : Nat}

theorem WF.bound_le_start (h : WF pol node hs) (hpos : pos ≤ getNumItems node) :
    bound pol node pos ≤ getFreeSpaceStart node := by
  rw [← @bound_top pol node]
  exact h.bound_mono hpos (Nat.le_refl _)

theorem WF.le_bound (h : WF pol node hs) (hpos : pos ≤ getNumItems node) : hs ≤ bound pol node pos := by
  rw [← h.start]
  exact h.bound_mono (Nat.zero_le _) hpos

/-- The block has room for the headers of more items when their bodies and headers fit. -/
theorem WF.grown_room (h : WF pol node hs) (hfree : len + count * ihSize pol ≤ getFreeSpace node) :
    (getNumItems node + count) * ihSize pol ≤ node.size := by
  have hspace := h.space
  rw [Nat.add_mul]
  omega

/-- These headers are above the bodies, old and new. -/
theorem WF.grown_low (h : WF pol node hs) (hfree : len + count * ihSize pol ≤ getFreeSpace node) {i : Nat}
    (hi : i < getNumItems node + count) : getFreeSpaceStart node + len ≤ ihAt pol node i := by
  have hspace := h.space
  have h1 := ihAt_at (h.grown_room hfree) hi
  have h2 : (i + 1) * ihSize pol ≤ (getNumItems node + count) * ihSize pol := Nat.mul_le_mul_right _ hi
  rw [Nat.add_mul (getNumItems node)] at h2
  omega

/-- The bodies and the headers behind the room, moved. -/
theorem expand_moves (h : WF pol node hs) (hpos : pos < getNumItems node)
    (hfree : len + count * ihSize pol ≤ getFreeSpace node) {m1 m2 m3 : Bytes}
    (hm1 : m1 = node.mem.move (bound pol node pos + len) (bound pol node pos)
      (getFreeSpaceStart node - bound pol node pos))
    (hm2 : m2 = incOffsets pol len (getNumItems node - pos) m1 (ihAt pol node pos))
    (hm3 : m3 = m2.move (ihAt pol node (getNumItems node - 1 + count)) (ihAt pol node (getNumItems node - 1))
      (ihSize pol * (getNumItems node - pos))) :
    (∀ a, a < bound pol node pos → m3 a = node.mem a) ∧
    (∀ a, bound pol node pos ≤ a → a < getFreeSpaceStart node → m3 (a + len) = node.mem a) ∧
    (∀ i, i < pos → ∀ a, a < ihSize pol → m3 (ihAt pol node i + a) = node.mem (ihAt pol node i + a)) ∧
    (∀ i, pos ≤ i → i < getNumItems node → ∀ a, a < ihSize pol →
      (a < keySize pol ∨ keySize pol + 2 ≤ a) →
      m3 (ihAt pol node (i + count) + a) = node.mem (ihAt pol node i + a)) ∧
    (∀ i, pos ≤ i → i < getNumItems node →
      ihGetOffset pol m3 (ihAt pol node (i + count)) = bound pol node i + len) := by
  have hsize : ihSize pol = keySize pol + 6 := rfl
  have hcount := h.space
  have hblk := h.size
  have h16 := two16_eq
  have hmax := maxBlksize_eq
  have hend : bound pol node pos < getFreeSpaceStart node := by
    rw [← @bound_top pol node]
    exact Nat.lt_of_lt_of_le (h.order pos hpos) (h.bound_mono hpos (Nat.le_refl _))
  have hroom := h.grown_room hfree
  have hshift : ∀ i, i < getNumItems node →
      ihAt pol node (i + count) + count * ihSize pol = ihAt pol node i := fun i hi =>
    ihAt_shift hroom (by omega)
  have hapart : ∀ i j, i < j → j < getNumItems node + count →
      ihAt pol node j + ihSize pol ≤ ihAt pol node i := fun i j hij hj => ihAt_apart hroom hij hj
  have hlow : ∀ i, i < getNumItems node + count → getFreeSpaceStart node + len ≤ ihAt pol node i :=
    fun i hi => h.grown_low hfree hi
  -- the headers that move: from the last one up to the one at the position
  have htop : ihAt pol node (getNumItems node - 1) + ihSize pol * (getNumItems node - pos) =
      ihAt pol node pos + ihSize pol := by
    have h1 := ihAt_shift hroom (show pos + (getNumItems node - 1 - pos) < getNumItems node + count by omega)
    rw [show pos + (getNumItems node - 1 - pos) = getNumItems node - 1 by omega] at h1
    rw [show getNumItems node - pos = getNumItems node - 1 - pos + 1 by omega, Nat.mul_comm, Nat.succ_mul]
    omega
  have hdst := hshift (getNumItems node - 1) (by omega)
  have hm1out : ∀ a, a < bound pol node pos ∨ getFreeSpaceStart node + len ≤ a → m1 a = node.mem a := by
    intro a ha
    rw [hm1, Bytes.move_out _ _ _ _ _ (by omega)]
  have hih : ∀ i, i < getNumItems node - pos →
      ihAt pol node pos - i * ihSize pol = ihAt pol node (pos + i) := by
    intro i hi
    have := ihAt_shift hroom (show pos + i < getNumItems node + count by omega)
    omega
  have hloop : (getNumItems node - pos) * ihSize pol ≤ ihAt pol node pos + ihSize pol := by
    rw [Nat.mul_comm]
    omega
  have hlen : len ≤ two32 := by unfold two32; omega
  rw [incOffsets_eq hlen] at hm2
  obtain ⟨hincOut, hincIn⟩ := @decOffsets_spec pol (two32 - len) (getNumItems node - pos) m1
    (ihAt pol node pos) hloop
  rw [← hm2, Nat.sub_sub_self hlen] at hincIn
  rw [← hm2] at hincOut
  have hm2low : ∀ a, a < getFreeSpaceStart node + len → m2 a = m1 a := by
    intro a ha
    refine hincOut a fun i hi => Or.inl ?_
    have := hlow (pos + i) (by omega)
    rw [hih i hi]
    omega
  have hm2head : ∀ i, i < getNumItems node → ∀ a, a < ihSize pol →
      (i < pos ∨ a < keySize pol ∨ keySize pol + 2 ≤ a) →
      m2 (ihAt pol node i + a) = m1 (ihAt pol node i + a) := by
    intro i hi a ha hfield
    refine hincOut _ fun j hj => ?_
    rw [hih j hj]
    rcases Nat.lt_trichotomy i (pos + j) with hlt | heq | hgt
    · have := hapart i (pos + j) hlt (by omega)
      omega
    · rw [← heq]
      omega
    · have := hapart (pos + j) i hgt (by omega)
      omega
  have hm2offset : ∀ i, pos ≤ i → i < getNumItems node →
      ihGetOffset pol m2 (ihAt pol node i) = bound pol node i + len := by
    intro i hlo hi
    obtain ⟨j, rfl⟩ := Nat.exists_eq_add_of_le hlo
    have hset := hincIn j (by omega)
    rw [hih j (by omega)] at hset
    have hold : ihGetOffset pol m1 (ihAt pol node (pos + j)) = bound pol node (pos + j) := by
      rw [bound_lt hi]
      have := hlow (pos + j) (by omega)
      exact ihGetOffset_congr fun a _ => hm1out _ (Or.inr (by omega))
    have hle := h.bound_mono (Nat.le_of_lt hi) (Nat.le_refl _)
    rw [bound_top] at hle
    rw [hset, hold, Nat.mod_eq_of_lt (by omega)]
  -- a moved header is the old one
  have hm3head : ∀ i, pos ≤ i → i < getNumItems node → ∀ a, a < ihSize pol →
      m3 (ihAt pol node (i + count) + a) = m2 (ihAt pol node i + a) := by
    intro i hlo hi a ha
    have h1 := hshift i hi
    have h2 : i = getNumItems node - 1 ∨
        ihAt pol node (getNumItems node - 1) + ihSize pol ≤ ihAt pol node i := by
      by_cases heq : i = getNumItems node - 1
      · exact Or.inl heq
      · exact Or.inr (hapart i _ (by omega) (by omega))
    have h3 : i = pos ∨ ihAt pol node i + ihSize pol ≤ ihAt pol node pos := by
      by_cases heq : i = pos
      · exact Or.inl heq
      · exact Or.inr (hapart pos i (by omega) (by omega))
    have h4 : ihAt pol node (getNumItems node - 1) ≤ ihAt pol node i := by
      rcases h2 with rfl | h2
      · exact Nat.le_refl _
      · omega
    have h5 : ihAt pol node i ≤ ihAt pol node pos := by
      rcases h3 with rfl | h3
      · exact Nat.le_refl _
      · omega
    rw [hm3, Bytes.move_in _ _ _ _ _ (by omega) (by omega)]
    congr 1
    omega
  refine ⟨?_, ?_, ?_, ?_, ?_⟩
  · intro a ha
    have := hlow (getNumItems node - 1 + count) (by omega)
    rw [hm3, Bytes.move_out _ _ _ _ _ (Or.inl (by omega)), hm2low a (by omega), hm1out a (Or.inl ha)]
  · intro a hlo hhi
    have := hlow (getNumItems node - 1 + count) (by omega)
    rw [hm3, Bytes.move_out _ _ _ _ _ (Or.inl (by omega)), hm2low _ (by omega), hm1,
      Bytes.move_in _ _ _ _ _ (by omega) (by omega)]
    congr 1
    omega
  · intro i hi a ha
    have h1 := hapart i pos hi (by omega)
    have h2 := hlow i (by omega)
    rw [hm3, Bytes.move_out _ _ _ _ _ (Or.inr (by omega)), hm2head i (by omega) a ha (Or.inl hi),
      hm1out _ (Or.inr (by omega))]
  · intro i hlo hi a ha hfield
    have h2 := hlow i (by omega)
    rw [hm3head i hlo hi a ha, hm2head i hi a ha (Or.inr hfield), hm1out _ (Or.inr (by omega))]
  · intro i hlo hi
    rw [← hm2offset i hlo hi]
    exact ihGetOffset_congr fun a ha => hm3head i hlo hi a ha

/-- The memory of the node when the bodies and the headers behind the room have moved. -/
def movedMem (pol : KeyPol) (node : NodeBlock) (pos len count : Nat) : Bytes :=
  if pos < getNumItems node then
    let mem := node.mem.move (bound pol node pos + len) (bound pol node pos)
      (getFreeSpaceStart node - bound pol node pos)
    let mem := incOffsets pol len (getNumItems node - pos) mem (ihAt pol node pos)
    mem.move (ihAt pol node (getNumItems node - 1 + count)) (ihAt pol node (getNumItems node - 1))
      (ihSize pol * (getNumItems node - pos))
  else node.mem

theorem expand_eq (hlen : len ≠ 0) : expand pol node pos maxUint32 len count =
    let opened := decFreeSpace (incFreeSpaceStart { node with mem := movedMem pol node pos len count } len) len
    decFreeSpace (incNumItems { opened with
      mem := ihSetOffset pol (ihSetFlags pol opened.mem (ihAt pol node pos) 0) (ihAt pol node pos)
        (bound pol node pos) } count) (count * ihSize pol) := by
  unfold expand movedMem bound ibAt
  dsimp only
  rw [if_neg hlen, if_pos rfl, if_pos rfl]
  by_cases hpos : pos < getNumItems node
  · rw [if_pos hpos, if_pos hpos, if_pos hpos, if_pos rfl]
  · rw [if_neg hpos, if_neg hpos, if_neg hpos]

/-- **`node40_expand` makes room for whole items.** -/
theorem opened_expand (h : WF pol node hs) (hpos : pos ≤ getNumItems node) (hlen : 0 < len)
    (hcount : 0 < count) (hfree : len + count * ihSize pol ≤ getFreeSpace node) :
    Opened pol node (expand pol node pos maxUint32 len count) pos len count := by
  have hsize : ihSize pol = keySize pol + 6 := rfl
  have hspace := h.space
  have hblk := h.size
  have hheader := h.header
  have h16 := two16_eq
  have hmax := maxBlksize_eq
  have hend := h.bound_le_start hpos
  have hfirst := h.le_bound hpos
  have hroom := h.grown_room hfree
  have hlow : ∀ i, i < getNumItems node + count → getFreeSpaceStart node + len ≤ ihAt pol node i :=
    fun i hi => h.grown_low hfree hi
  have hitems : getNumItems node + count ≤ node.size := by
    have : (getNumItems node + count) * 1 ≤ (getNumItems node + count) * ihSize pol :=
      Nat.mul_le_mul_left _ (by omega)
    omega
  -- the bytes behind the room
  obtain ⟨mem, hmem⟩ : ∃ m, m = movedMem pol node pos len count := ⟨_, rfl⟩
  have hmoved : (∀ a, a < bound pol node pos → mem a = node.mem a) ∧
      (∀ a, bound pol node pos ≤ a → a < getFreeSpaceStart node → mem (a + len) = node.mem a) ∧
      (∀ i, i < pos → ∀ a, a < ihSize pol → mem (ihAt pol node i + a) = node.mem (ihAt pol node i + a)) ∧
      (∀ i, pos ≤ i → i < getNumItems node → ∀ a, a < ihSize pol →
        (a < keySize pol ∨ keySize pol + 2 ≤ a) →
        mem (ihAt pol node (i + count) + a) = node.mem (ihAt pol node i + a)) ∧
      (∀ i, pos ≤ i → i < getNumItems node →
        ihGetOffset pol mem (ihAt pol node (i + count)) = bound pol node i + len) := by
    unfold movedMem at hmem
    by_cases hlt : pos < getNumItems node
    · rw [if_pos hlt] at hmem
      exact expand_moves h hlt hfree rfl rfl hmem
    · rw [if_neg hlt] at hmem
      have htop : bound pol node pos = getFreeSpaceStart node := by
        unfold bound
        rw [if_neg hlt]
      rw [hmem]
      refine ⟨fun _ _ => rfl, ?_, fun _ _ _ _ => rfl, ?_, ?_⟩
      · intro a hlo hhi
        omega
      · intro i hlo hi
        omega
      · intro i hlo hi
        omega
  obtain ⟨hfront, hback, hheadFront, hheadBack, hoffset⟩ := hmoved
  -- the node header and the header at the position are set at the end
  have hnode := @expand_eq pol node pos len count (by omega)
  rw [← hmem] at hnode
  have hset : ∀ a, (a < 2 ∨ 8 ≤ a) → (a < ihAt pol node pos ∨ ihAt pol node pos + ihSize pol ≤ a ∨
      (ihAt pol node pos ≤ a ∧ (a < ihAt pol node pos + keySize pol ∨ ihAt pol node pos + keySize pol + 4 ≤ a))) →
      (expand pol node pos maxUint32 len count).mem a = mem a := by
    intro a ha hhead
    rw [hnode]
    show Bytes.setLe 2 (Bytes.setLe 2 (ihSetOffset pol (Bytes.setLe 2 (Bytes.setLe 2
      (Bytes.setLe 2 mem 6 _) 4 _) (ihAt pol node pos + keySize pol + 2) _) _ _) 2 _) 4 _ a = mem a
    rw [Bytes.setLe_out _ _ _ _ _ (by omega), Bytes.setLe_out _ _ _ _ _ (by omega),
      ihSetOffset_out _ _ _ _ (by omega), Bytes.setLe_out _ _ _ _ _ (by omega),
      Bytes.setLe_out _ _ _ _ _ (by omega), Bytes.setLe_out _ _ _ _ _ (by omega)]
  have hnh : ∀ o, o + 2 ≤ 8 → mem.getLe 2 o = node.mem.getLe 2 o := fun o ho =>
    Bytes.getLe_congr 2 _ _ _ _ fun a ha => hfront _ (by omega)
  have hposAt := hlow pos (by omega)
  have hhead : ∀ (m : Bytes) (f v o : Nat), o + 2 ≤ 8 →
      (ihSetOffset pol (ihSetFlags pol m (ihAt pol node pos) f) (ihAt pol node pos) v).getLe 2 o =
        m.getLe 2 o := fun m f v o ho =>
    Bytes.getLe_congr 2 _ _ _ _ fun a ha => by
      rw [ihSetOffset_out _ _ _ _ (by omega)]
      exact Bytes.setLe_out _ _ _ _ _ (by omega)
  refine ⟨?_, ?_, ?_, ?_, ?_, ?_, ?_, ?_, ?_, ?_⟩
  · rw [hnode]
    rfl
  · rw [hnode]
    show (Bytes.setLe 2 (Bytes.setLe 2 (ihSetOffset pol (ihSetFlags pol (Bytes.setLe 2
      (Bytes.setLe 2 mem 6 _) 4 _) _ _) _ _) 2 (Bytes.getLe 2 (ihSetOffset pol (ihSetFlags pol
      (Bytes.setLe 2 (Bytes.setLe 2 mem 6 _) 4 _) _ _) _ _) 2 + count)) 4 _).getLe 2 2 = _
    rw [Bytes.getLe_setLe_disj _ _ _ _ _ _ (Or.inl (by omega)), Bytes.getLe_setLe, hhead _ _ _ 2 (by omega),
      Bytes.getLe_setLe_disj _ _ _ _ _ _ (Or.inl (by omega)),
      Bytes.getLe_setLe_disj _ _ _ _ _ _ (Or.inl (by omega)), hnh 2 (by omega)]
    exact Nat.mod_eq_of_lt (show getNumItems node + count < two16 by omega)
  · rw [hnode]
    show (Bytes.setLe 2 (Bytes.setLe 2 (ihSetOffset pol (ihSetFlags pol (Bytes.setLe 2
      (Bytes.setLe 2 mem 6 _) 4 (Bytes.getLe 2 (Bytes.setLe 2 mem 6 _) 4 + (two32 - len))) _ _) _ _) 2 _) 4
      (Bytes.getLe 2 (Bytes.setLe 2 (ihSetOffset pol (ihSetFlags pol (Bytes.setLe 2
      (Bytes.setLe 2 mem 6 _) 4 (Bytes.getLe 2 (Bytes.setLe 2 mem 6 _) 4 + (two32 - len))) _ _) _ _) 2 _) 4 +
      (two32 - count * ihSize pol))).getLe 2 4 = _
    rw [Bytes.getLe_setLe, Bytes.getLe_setLe_disj _ _ _ _ _ _ (Or.inr (by omega)), hhead _ _ _ 4 (by omega),
      Bytes.getLe_setLe, Bytes.getLe_setLe_disj _ _ _ _ _ _ (Or.inl (by omega)), hnh 4 (by omega)]
    show ((getFreeSpace node + (two32 - len)) % two16 + (two32 - count * ihSize pol)) % two16 = _
    rw [@dec_mod (getFreeSpace node) len (by omega) (by omega),
      @dec_mod (getFreeSpace node - len) (count * ihSize pol) (by omega) (by omega)]
    omega
  · rw [hnode]
    show (Bytes.setLe 2 (Bytes.setLe 2 (ihSetOffset pol (ihSetFlags pol (Bytes.setLe 2
      (Bytes.setLe 2 mem 6 (Bytes.getLe 2 mem 6 + len)) 4 _) _ _) _ _) 2 _) 4 _).getLe 2 6 = _
    rw [Bytes.getLe_setLe_disj _ _ _ _ _ _ (Or.inr (by omega)),
      Bytes.getLe_setLe_disj _ _ _ _ _ _ (Or.inr (by omega)), hhead _ _ _ 6 (by omega),
      Bytes.getLe_setLe_disj _ _ _ _ _ _ (Or.inr (by omega)), Bytes.getLe_setLe, hnh 6 (by omega)]
    exact Nat.mod_eq_of_lt (show getFreeSpaceStart node + len < two16 by omega)
  · intro a ha hlt
    rw [hset a ha (by omega), hfront a hlt]
  · intro a hlo hhi
    rw [hset _ (by omega) (by omega), hback a hlo hhi]
  · intro i hi a ha
    have h1 := ihAt_apart hroom hi (by omega)
    rw [hset _ (by omega) (by omega), hheadFront i hi a ha]
  · intro i hlo hi a ha hfield
    have h1 := ihAt_apart hroom (show pos < i + count by omega) (by omega)
    have h2 := hlow (i + count) (by omega)
    rw [hset _ (by omega) (by omega), hheadBack i hlo hi a ha hfield]
  · intro i hlo hi
    have h1 := ihAt_apart hroom (show pos < i + count by omega) (by omega)
    have h2 := hlow (i + count) (by omega)
    rw [← hoffset i hlo hi]
    exact ihGetOffset_congr fun a ha => hset _ (by omega) (by omega)
  · rw [hnode]
    have hkeep : ∀ (m : Bytes) (v w : Nat), ihGetOffset pol ((m.setLe 2 2 v).setLe 2 4 w)
        (ihAt pol node pos) = ihGetOffset pol m (ihAt pol node pos) := fun m v w =>
      ihGetOffset_congr fun a _ => by
        rw [Bytes.setLe_out _ _ _ _ _ (by omega), Bytes.setLe_out _ _ _ _ _ (by omega)]
    refine (hkeep _ _ _).trans ?_
    rw [ihGetOffset_set, Nat.mod_eq_of_lt (by omega)]

end Opened

/-! ## The copied items -/

/-- The node with the `count` items of `src` from `srcPos` on, `len` bytes together, in front of the item
    at `pos`. -/
structure Filled (pol : KeyPol) (node src node' : NodeBlock) (pos srcPos len count : Nat) : Prop where
  size : node'.size = node.size
  items : getNumItems node' = getNumItems node + count
  space : getFreeSpace node' = getFreeSpace node - (len + count * ihSize pol)
  start : getFreeSpaceStart node' = getFreeSpaceStart node + len
  front : ∀ a, (a < 2 ∨ 8 ≤ a) → a < bound pol node pos → node'.mem a = node.mem a
  body : ∀ a, a < len → node'.mem (bound pol node pos + a) = src.mem (bound pol src srcPos + a)
  back : ∀ a, bound pol node pos ≤ a → a < getFreeSpaceStart node → node'.mem (a + len) = node.mem a
  headFront : ∀ i, i < pos → ∀ a, a < ihSize pol →
    node'.mem (ihAt pol node i + a) = node.mem (ihAt pol node i + a)
  headNew : ∀ i, i < count → ∀ a, a < ihSize pol → (a < keySize pol ∨ keySize pol + 2 ≤ a) →
    node'.mem (ihAt pol node (pos + i) + a) = src.mem (ihAt pol src (srcPos + i) + a)
  headBack : ∀ i, pos ≤ i → i < getNumItems node → ∀ a, a < ihSize pol →
    (a < keySize pol ∨ keySize pol + 2 ≤ a) →
    node'.mem (ihAt pol node (i + count) + a) = node.mem (ihAt pol node i + a)
  offsetNew : ∀ i, i < count → ihGetOffset pol node'.mem (ihAt pol node (pos + i)) =
    bound pol node pos + (bound pol src (srcPos + i) - bound pol src srcPos)
  offsetBack : ∀ i, pos ≤ i → i < getNumItems node →
    ihGetOffset pol node'.mem (ihAt pol node (i + count)) = bound pol node i + len

section Filled

variable {pol : KeyPol} {node src : NodeBlock} {hs hs' pos srcPos count : Nat}

/-- The length of `count` items. -/
def spanLen (pol : KeyPol) (src : NodeBlock) (srcPos count : Nat) : Nat :=
  bound pol src (srcPos + count) - bound pol src srcPos

/-- `node40_size` on a well-formed node. -/
theorem WF.node40Size_span (h : WF pol src hs) (hcount : 0 < count)
    (hle : srcPos + count ≤ getNumItems src) : node40Size pol src srcPos count = spanLen pol src srcPos count := by
  have hlow := h.bound_mono (Nat.le_add_right srcPos count) hle
  have htop := h.bound_mono hle (Nat.le_refl _)
  have hsmall := h.small
  have hat := @ihAt_at pol src (getNumItems src) (by have := h.space; omega) srcPos
    (show srcPos < getNumItems src by omega)
  unfold node40Size spanLen
  dsimp only
  rw [← bound_lt (show srcPos < getNumItems src by omega)]
  have hnext : (if srcPos + count < getNumItems src then
      ihGetOffset pol src.mem (ihAt pol src srcPos - ihSize pol * count) else getFreeSpaceStart src) =
      bound pol src (srcPos + count) := by
    by_cases hmore : srcPos + count < getNumItems src
    · have := @ihAt_shift pol src (getNumItems src) (by have := h.space; omega) _ _ hmore
      rw [if_pos hmore, bound_lt hmore, Nat.mul_comm, ← this, Nat.add_sub_cancel]
    · rw [if_neg hmore, show srcPos + count = getNumItems src by omega, bound_top]
  rw [hnext]
  unfold u32 two32
  omega

/-- The loop over the copied headers sets their offsets and changes no other byte.  `b i` is the offset that
    header `i` has from the source. -/
theorem copyOffsets_spec {fss last : Nat} : ∀ (n : Nat) (b : Nat → Nat) (mem : Bytes) (ih offset : Nat),
    n * ihSize pol ≤ ih + ihSize pol →
    (∀ i, i < n → ihGetOffset pol mem (ih - i * ihSize pol) = b i) →
    (∀ i j, i ≤ j → j < n → b i ≤ b j) →
    (∀ i, i + 1 < n → ih - i * ihSize pol ≠ last) →
    (∀ i, i < n → offset + (b i - b 0) < two16) →
    (∀ a, (∀ i, i < n → a < ih - i * ihSize pol + keySize pol ∨
        ih - i * ihSize pol + keySize pol + 2 ≤ a) → copyOffsets pol fss last n mem ih offset a = mem a) ∧
    (∀ i, i < n → ihGetOffset pol (copyOffsets pol fss last n mem ih offset) (ih - i * ihSize pol) =
      offset + (b i - b 0))
  | 0, _, _, _, _, _, _, _, _, _ => ⟨fun _ _ => rfl, fun _ hi => absurd hi (Nat.not_lt_zero _)⟩
  | n + 1, b, mem, ih, offset, hroom, hold, hmono, hlast, hsmall => by
    have hsize : ihSize pol = keySize pol + 6 := rfl
    rw [Nat.succ_mul] at hroom
    have hstep : ∀ i, ih - ihSize pol - i * ihSize pol = ih - (i + 1) * ihSize pol := by
      intro i
      rw [Nat.succ_mul, Nat.sub_sub, Nat.add_comm (ihSize pol)]
    -- the later headers are in front of this one
    have hlater : ∀ i, i < n → ih - (i + 1) * ihSize pol + ihSize pol ≤ ih := by
      intro i hi
      have hle : (i + 1) * ihSize pol ≤ n * ihSize pol := Nat.mul_le_mul_right _ hi
      have hone : ihSize pol ≤ (i + 1) * ihSize pol := Nat.le_mul_of_pos_left _ (Nat.succ_pos i)
      omega
    obtain ⟨mem', hmem'⟩ : ∃ m, m = ihSetOffset pol mem ih offset := ⟨_, rfl⟩
    obtain ⟨next, hnext⟩ : ∃ o, o =
        if ih = last then u32 (offset + (fss + (two32 - ihGetOffset pol mem' ih)))
        else u32 (offset + (ihGetOffset pol mem' (ih - ihSize pol) + (two32 - ihGetOffset pol mem ih))) :=
      ⟨_, rfl⟩
    have hloop : copyOffsets pol fss last (n + 1) mem ih offset =
        copyOffsets pol fss last n mem' (ih - ihSize pol) next := by
      rw [hnext, hmem']
      rfl
    have hkeep : ∀ i, i < n → ihGetOffset pol mem' (ih - (i + 1) * ihSize pol) = b (i + 1) := by
      intro i hi
      have hlt := hlater i hi
      rw [← hold (i + 1) (Nat.succ_lt_succ hi), hmem']
      exact ihGetOffset_congr fun a _ => ihSetOffset_out _ _ _ _ (by omega)
    have hnext' : 0 < n → next = offset + (b 1 - b 0) := by
      intro hn
      have h0 := hold 0 (Nat.succ_pos n)
      have h1 := hkeep 0 hn
      have h2 := hmono 0 1 (Nat.le_succ 0) (Nat.succ_lt_succ hn)
      have h3 := hlast 0 (Nat.succ_lt_succ hn)
      have h4 := hsmall 1 (Nat.succ_lt_succ hn)
      have h16 := two16_eq
      rw [Nat.zero_mul, Nat.sub_zero] at h0 h3
      rw [Nat.zero_add, Nat.one_mul] at h1
      have h5 : b 0 < two16 := h0 ▸ Bytes.getLe_lt 2 _ _
      rw [hnext, if_neg h3, h1, h0]
      unfold u32 two32
      omega
    obtain ⟨ihout, ihset⟩ := copyOffsets_spec n (fun i => b (i + 1)) mem' (ih - ihSize pol) next (by omega)
      (fun i hi => by rw [hstep]; exact hkeep i hi)
      (fun i j hij hj => hmono (i + 1) (j + 1) (by omega) (by omega))
      (fun i hi => by rw [hstep]; exact hlast (i + 1) (by omega))
      (fun i hi => by
        have h1 := hmono 0 1 (Nat.le_succ 0) (by omega)
        have h2 := hmono 1 (i + 1) (by omega) (by omega)
        have h3 := hsmall (i + 1) (by omega)
        rw [hnext' (by omega)]
        show offset + (b 1 - b 0) + (b (i + 1) - b 1) < two16
        omega)
    rw [hloop]
    constructor
    · intro a ha
      have hrest := ihout a fun i hi => by
        rw [hstep]
        exact ha (i + 1) (Nat.succ_lt_succ hi)
      have h0 := ha 0 (Nat.succ_pos n)
      rw [Nat.zero_mul, Nat.sub_zero] at h0
      rw [hrest, hmem', ihSetOffset_out _ _ _ _ h0]
    · intro i hi
      cases i with
      | zero =>
        have h0 := hsmall 0 (Nat.succ_pos n)
        rw [Nat.zero_mul, Nat.sub_zero]
        have hsame : ihGetOffset pol (copyOffsets pol fss last n mem' (ih - ihSize pol) next) ih =
            ihGetOffset pol mem' ih :=
          Bytes.getLe_congr 2 _ _ _ _ fun j hj => ihout _ fun i hi => by
            have := hlater i hi
            rw [hstep]
            omega
        rw [hsame, hmem', ihGetOffset_set, Nat.mod_eq_of_lt (by omega)]
        omega
      | succ i =>
        have hi' := Nat.lt_of_succ_lt_succ hi
        have h1 := hmono 0 1 (Nat.le_succ 0) (by omega)
        have h2 := hmono 1 (i + 1) (by omega) (by omega)
        have := ihset i hi'
        rw [hstep] at this
        rw [this, hnext' (by omega)]
        show offset + (b 1 - b 0) + (b (i + 1) - b 1) = offset + (b (i + 1) - b 0)
        omega

/-- **`node40_copy` puts the items of the source into the room** that `node40_expand` has made. -/
theorem filled_copy (h : WF pol node hs) (hsrc : WF pol src hs') (hpos : pos ≤ getNumItems node)
    (hcount : 0 < count) (hle : srcPos + count ≤ getNumItems src) {len : Nat}
    (hlen : len = spanLen pol src srcPos count) (hfree : len + count * ihSize pol ≤ getFreeSpace node) :
    Filled pol node src (copy pol (expand pol node pos maxUint32 len count) pos src srcPos count)
      pos srcPos len count := by
  have hsize : ihSize pol = keySize pol + 6 := rfl
  have hspace := h.space
  have hblk := h.size
  have hheader := h.header
  have h16 := two16_eq
  have hmax := maxBlksize_eq
  have hmonoSrc : ∀ i j, i ≤ j → j < count → bound pol src (srcPos + i) ≤ bound pol src (srcPos + j) :=
    fun i j hij hj => hsrc.bound_mono (by omega) (by omega)
  have hpositive : bound pol src srcPos < bound pol src (srcPos + count) :=
    Nat.lt_of_lt_of_le (hsrc.order srcPos (by omega)) (hsrc.bound_mono (by omega) hle)
  have hspan : bound pol src srcPos + len = bound pol src (srcPos + count) := by
    rw [hlen]
    unfold spanLen
    omega
  have ho := opened_expand h hpos (show 0 < len by omega) hcount hfree
  obtain ⟨node1, hnode1⟩ : ∃ m, m = expand pol node pos maxUint32 len count := ⟨_, rfl⟩
  rw [← hnode1] at ho ⊢
  have hat : ∀ i, ihAt pol node1 i = ihAt pol node i := ihAt_congr ho.size
  have hend := h.bound_le_start hpos
  have hfirst := h.le_bound hpos
  have hroom := h.grown_room hfree
  have hlow : ∀ i, i < getNumItems node + count → getFreeSpaceStart node + len ≤ ihAt pol node i :=
    fun i hi => h.grown_low hfree hi
  have hbody : (if pos < getNumItems node1 - count then ibAt pol node1 pos
      else getFreeSpaceStart node1 - node40Size pol src srcPos count) = bound pol node pos := by
    rw [ho.items, Nat.add_sub_cancel, ho.start, hsrc.node40Size_span hcount hle, ← hlen, Nat.add_sub_cancel]
    by_cases hlt : pos < getNumItems node
    · rw [if_pos hlt]
      show ihGetOffset pol node1.mem (ihAt pol node1 pos) = _
      rw [hat, ho.offsetNew]
    · rw [if_neg hlt, show pos = getNumItems node by omega, bound_top]
  -- the headers of the copied items, in both nodes
  have hdst : ∀ i, i < count → ihAt pol node (pos + i) =
      ihAt pol node (pos + count - 1) + (count - 1 - i) * ihSize pol := fun i hi =>
    ihAt_span hroom (by omega) hi
  have hfrom : ∀ i, i < count → ihAt pol src (srcPos + i) =
      ihAt pol src (srcPos + count - 1) + (count - 1 - i) * ihSize pol := fun i hi =>
    @ihAt_span pol src (getNumItems src) (by have := hsrc.space; omega) srcPos count i hle hi
  have hroomI : ∀ i, i < count → (count - 1 - i) * ihSize pol + ihSize pol ≤ count * ihSize pol := by
    intro i hi
    rw [← Nat.succ_mul]
    exact Nat.mul_le_mul_right _ (by omega)
  have hdone : count * ihSize pol = (count - 1 - 0) * ihSize pol + ihSize pol := by
    rw [← Nat.succ_mul, Nat.sub_zero, Nat.succ_eq_add_one, Nat.sub_add_cancel hcount]
  obtain ⟨m1, hm1⟩ : ∃ m, m = node1.mem.copy (bound pol node pos) src.mem (bound pol src srcPos) len :=
    ⟨_, rfl⟩
  obtain ⟨m2, hm2⟩ : ∃ m, m = m1.copy (ihAt pol node (pos + count - 1)) src.mem
      (ihAt pol src (srcPos + count - 1)) (count * ihSize pol) := ⟨_, rfl⟩
  obtain ⟨m3, hm3⟩ : ∃ m, m = copyOffsets pol (getFreeSpaceStart node + len)
      (ihAt pol node (getNumItems node + count - 1)) count m2 (ihAt pol node pos) (bound pol node pos) :=
    ⟨_, rfl⟩
  have hstart : ihAt pol node (pos + count - 1) + ihSize pol * (count - 1) = ihAt pol node pos := by
    have := hdst 0 hcount
    rw [Nat.mul_comm]
    exact this.symm
  have hnode : copy pol node1 pos src srcPos count = { node1 with mem := m3 } := by
    unfold copy
    dsimp only
    rw [hbody, hsrc.node40Size_span hcount hle, ← hlen, ho.items, ho.start, hat, hat, hstart, hm3, hm2, hm1]
    unfold ibAt
    rw [← bound_lt (show srcPos < getNumItems src by omega)]
  have hnew : ∀ i, i < count → ∀ a, a < ihSize pol →
      m2 (ihAt pol node (pos + i) + a) = src.mem (ihAt pol src (srcPos + i) + a) := by
    intro i hi a ha
    have h1 := hdst i hi
    have h2 := hfrom i hi
    have h3 := hroomI i hi
    rw [hm2, Bytes.copy_in _ _ _ _ _ _ (by omega) (by omega)]
    congr 1
    omega
  have hih : ∀ i, i < count → ihAt pol node pos - i * ihSize pol = ihAt pol node (pos + i) := by
    intro i hi
    have := ihAt_shift hroom (show pos + i < getNumItems node + count by omega)
    omega
  have hloop := @copyOffsets_spec pol (getFreeSpaceStart node + len)
    (ihAt pol node (getNumItems node + count - 1)) count (fun i => bound pol src (srcPos + i)) m2
    (ihAt pol node pos) (bound pol node pos)
    (by
      have := hdst 0 hcount
      rw [Nat.add_zero] at *
      omega)
    (by
      intro i hi
      rw [hih i hi, bound_lt (show srcPos + i < getNumItems src by omega)]
      exact ihGetOffset_congr fun a ha => hnew i hi a ha)
    hmonoSrc
    (by
      intro i hi
      have := ihAt_apart hroom (show pos + i < getNumItems node + count - 1 by omega) (by omega)
      rw [hih i (by omega)]
      omega)
    (by
      intro i hi
      have h1 : bound pol src (srcPos + i) ≤ bound pol src (srcPos + count) :=
        hsrc.bound_mono (by omega) hle
      rw [Nat.add_zero]
      omega)
  rw [← hm3] at hloop
  obtain ⟨hout, hset⟩ := hloop
  -- the loop leaves all but the offsets of the new headers, the copy all but the new headers
  have hm3out : ∀ a, a < ihAt pol node (pos + count - 1) ∨ ihAt pol node pos + ihSize pol ≤ a →
      m3 a = m1 a := by
    intro a ha
    have h0 := hdst 0 hcount
    rw [Nat.add_zero] at h0
    rw [hout a fun i hi => ?_, hm2, Bytes.copy_out _ _ _ _ _ _ (by omega)]
    rw [hih i hi]
    have h1 := hdst i hi
    have h2 := hih i hi
    omega
  have hm1out : ∀ a, a < bound pol node pos ∨ bound pol node pos + len ≤ a → m1 a = node1.mem a := by
    intro a ha
    rw [hm1, Bytes.copy_out _ _ _ _ _ _ ha]
  have hbig := hlow (pos + count - 1) (by omega)
  have hkeep : ∀ o, o + 2 ≤ 8 → m3.getLe 2 o = node1.mem.getLe 2 o := fun o ho' =>
    Bytes.getLe_congr 2 _ _ _ _ fun a ha => by
      rw [hm3out _ (Or.inl (by omega)), hm1out _ (Or.inl (by omega))]
  rw [hnode]
  refine ⟨ho.size, ?_, ?_, ?_, ?_, ?_, ?_, ?_, ?_, ?_, ?_, ?_⟩
  · exact (hkeep 2 (by omega)).trans ho.items
  · exact (hkeep 4 (by omega)).trans ho.space
  · exact (hkeep 6 (by omega)).trans ho.start
  · intro a ha hlt
    show m3 a = node.mem a
    rw [hm3out _ (Or.inl (by omega)), hm1out _ (Or.inl hlt), ho.front a ha hlt]
  · intro a ha
    show m3 (bound pol node pos + a) = src.mem (bound pol src srcPos + a)
    rw [hm3out _ (Or.inl (by omega)), hm1, Bytes.copy_in _ _ _ _ _ _ (by omega) (by omega)]
    congr 1
    omega
  · intro a hlo hhi
    show m3 (a + len) = node.mem a
    rw [hm3out _ (Or.inl (by omega)), hm1out _ (Or.inr (by omega)), ho.back a hlo hhi]
  · intro i hi a ha
    show m3 (ihAt pol node i + a) = node.mem (ihAt pol node i + a)
    have h1 := ihAt_apart hroom hi (by omega)
    have h2 := hlow i (by omega)
    rw [hm3out _ (Or.inr (by omega)), hm1out _ (Or.inr (by omega)), ho.headFront i hi a ha]
  · intro i hi a ha hfield
    show m3 (ihAt pol node (pos + i) + a) = src.mem (ihAt pol src (srcPos + i) + a)
    rw [← hnew i hi a ha]
    refine hout _ fun j hj => ?_
    rw [hih j hj]
    rcases Nat.lt_trichotomy i j with hlt | heq | hgt
    · have := ihAt_apart hroom (show pos + i < pos + j by omega) (by omega)
      omega
    · rw [← heq]
      omega
    · have := ihAt_apart hroom (show pos + j < pos + i by omega) (by omega)
      omega
  · intro i hlo hi a ha hfield
    show m3 (ihAt pol node (i + count) + a) = node.mem (ihAt pol node i + a)
    have h1 := ihAt_apart hroom (show pos + count - 1 < i + count by omega) (by omega)
    have h2 := hlow (i + count) (by omega)
    rw [hm3out _ (Or.inl (by omega)), hm1out _ (Or.inr (by omega)), ho.headBack i hlo hi a ha hfield]
  · intro i hi
    have := hset i hi
    rw [hih i hi] at this
    exact this
  · intro i hlo hi
    have h1 := ihAt_apart hroom (show pos + count - 1 < i + count by omega) (by omega)
    have h2 := hlow (i + count) (by omega)
    rw [← ho.offsetBack i hlo hi]
    exact ihGetOffset_congr fun a ha => (hm3out _ (Or.inl (by omega))).trans (hm1out _ (Or.inr (by omega)))

/-- A span of the items of a node. -/
theorem rawItems_span {p c : Nat} (hle : p + c ≤ getNumItems node) :
    ((rawItems pol node).drop p).take c = (List.range c).map fun i => item pol node (p + i) := by
  unfold rawItems
  refine List.ext_getElem ?_ fun i h1 h2 => ?_
  · simp only [List.length_take, List.length_drop, List.length_map, List.length_range]
    omega
  · simp only [List.getElem_take, List.getElem_drop, List.getElem_map, List.getElem_range]

theorem length_rawItems : (rawItems pol node).length = getNumItems node := by
  unfold rawItems
  rw [List.length_map, List.length_range]

/-- The items in front of a position, and those from it on. -/
theorem rawItems_take {p : Nat} (hp : p ≤ getNumItems node) :
    (rawItems pol node).take p = (List.range p).map fun i => item pol node i := by
  have h := @rawItems_span pol node 0 p (by omega)
  simp only [List.drop_zero, Nat.zero_add] at h
  exact h

theorem rawItems_drop {p : Nat} (hp : p ≤ getNumItems node) :
    (rawItems pol node).drop p = (List.range (getNumItems node - p)).map fun i => item pol node (p + i) := by
  rw [← @rawItems_span pol node p (getNumItems node - p) (by omega), List.take_of_length_le]
  rw [List.length_drop, length_rawItems]

/-- An item whose header and body are found elsewhere is the same item. -/
theorem item_eq {node' : NodeBlock} {i j : Nat}
    (hhead : ∀ a, a < ihSize pol → (a < keySize pol ∨ keySize pol + 2 ≤ a) →
      node'.mem (ihAt pol node' i + a) = node.mem (ihAt pol node j + a))
    (hlen : bound pol node' (i + 1) - bound pol node' i = bound pol node (j + 1) - bound pol node j)
    (hbody : ∀ a, a < bound pol node (j + 1) - bound pol node j →
      node'.mem (bound pol node' i + a) = node.mem (bound pol node j + a)) :
    item pol node' i = item pol node j := by
  obtain ⟨hkey, hflags, hpid⟩ := head_moved hhead
  unfold item
  rw [hkey, hflags, hpid, hlen]
  congr 1
  exact Bytes.slice_congr _ _ _ _ _ hbody

/-- **The node with the copied items** is well formed, and its items are the old ones with the copied ones
    among them. -/
theorem WF.filled (h : WF pol node hs) (hsrc : WF pol src hs') (hpos : pos ≤ getNumItems node)
    (hcount : 0 < count) (hle : srcPos + count ≤ getNumItems src) {len : Nat}
    (hlen : len = spanLen pol src srcPos count) (hfree : len + count * ihSize pol ≤ getFreeSpace node)
    {node' : NodeBlock} (hf : Filled pol node src node' pos srcPos len count) :
    WF pol node' hs ∧ rawItems pol node' = (rawItems pol node).take pos ++
      ((rawItems pol src).drop srcPos).take count ++ (rawItems pol node).drop pos := by
  have hspace := h.space
  have hspan : ∀ i, i ≤ count → bound pol src srcPos ≤ bound pol src (srcPos + i) ∧
      bound pol src (srcPos + i) ≤ bound pol src (srcPos + count) := fun i hi =>
    ⟨hsrc.bound_mono (by omega) (by omega), hsrc.bound_mono (by omega) hle⟩
  have hlen' : bound pol src srcPos + len = bound pol src (srcPos + count) := by
    have := (hspan count (Nat.le_refl _)).1
    rw [hlen]
    unfold spanLen
    omega
  have hat : ∀ i, ihAt pol node' i = ihAt pol node i := ihAt_congr hf.size
  have hend := h.bound_le_start hpos
  -- where the bodies are
  have hfront : ∀ i, i ≤ pos → bound pol node' i = bound pol node i := by
    intro i hi
    rw [bound_lt (by rw [hf.items]; omega), hat]
    by_cases hlt : i < pos
    · rw [bound_lt (by omega)]
      exact ihGetOffset_congr fun a ha => hf.headFront i hlt a ha
    · have := hf.offsetNew 0 hcount
      rw [Nat.add_zero, Nat.add_zero, Nat.sub_self, Nat.add_zero] at this
      rw [show i = pos by omega, this]
  have hnew : ∀ i, i ≤ count → bound pol node' (pos + i) =
      bound pol node pos + (bound pol src (srcPos + i) - bound pol src srcPos) := by
    intro i hi
    by_cases hlt : i < count
    · rw [bound_lt (by rw [hf.items]; omega), hat, hf.offsetNew i hlt]
    · rw [show i = count by omega]
      by_cases hmore : pos < getNumItems node
      · rw [bound_lt (by rw [hf.items]; omega), hat, hf.offsetBack pos (Nat.le_refl _) hmore]
        omega
      · rw [show pos = getNumItems node by omega, ← hf.items, bound_top, hf.start, bound_top]
        omega
  have hback : ∀ i, pos ≤ i → i ≤ getNumItems node →
      bound pol node' (i + count) = bound pol node i + len := by
    intro i hlo hi
    by_cases hmore : i < getNumItems node
    · rw [bound_lt (by rw [hf.items]; omega), hat, hf.offsetBack i hlo hmore]
    · rw [show i = getNumItems node by omega, ← hf.items, bound_top, hf.start, bound_top]
  have hwf : WF pol node' hs := by
    refine ⟨h.header, ?_, ?_, ?_, ?_⟩
    · rw [hfront 0 (Nat.zero_le _), h.start]
    · intro i hi
      rw [hf.items] at hi
      by_cases hlt : i < pos
      · rw [hfront i (by omega), hfront (i + 1) hlt]
        exact h.order i (by omega)
      · obtain ⟨j, rfl⟩ := Nat.exists_eq_add_of_le (Nat.le_of_not_lt hlt)
        by_cases hin : j < count
        · have h1 := hsrc.order (srcPos + j) (by omega)
          have h2 := hspan j (by omega)
          rw [Nat.add_assoc, hnew j (by omega), hnew (j + 1) (by omega)]
          rw [Nat.add_assoc] at h1
          omega
        · obtain ⟨k, rfl⟩ := Nat.exists_eq_add_of_le (Nat.le_of_not_lt hin)
          have h1 := h.order (pos + k) (by omega)
          rw [show pos + (count + k) = pos + k + count by omega,
            show pos + k + count + 1 = pos + k + 1 + count by omega, hback _ (by omega) (by omega),
            hback _ (by omega) (by omega)]
          omega
    · rw [hf.start, hf.space, hf.items, hf.size, Nat.add_mul]
      omega
    · rw [hf.size]
      exact h.size
  refine ⟨hwf, ?_⟩
  have hsplit : rawItems pol node' = (List.range pos).map (item pol node') ++
      (List.range count).map (fun i => item pol node' (pos + i)) ++
      (List.range (getNumItems node - pos)).map (fun i => item pol node' (pos + count + i)) := by
    unfold rawItems
    rw [hf.items, show getNumItems node + count = pos + count + (getNumItems node - pos) by omega,
      List.range_add, List.range_add, List.map_append, List.map_append, List.map_map, List.map_map]
    rfl
  rw [hsplit, rawItems_take hpos, rawItems_span hle, rawItems_drop hpos]
  congr 1
  · congr 1
    · refine List.map_congr_left fun i hi => ?_
      have hi' := List.mem_range.mp hi
      have hb : bound pol node i ≤ bound pol node (i + 1) := h.bound_mono (Nat.le_succ _) (by omega)
      have hb' : bound pol node (i + 1) ≤ bound pol node pos := h.bound_mono hi' hpos
      have hlow : hs ≤ bound pol node i := h.le_bound (by omega)
      have hheader := h.header
      refine item_eq (fun a ha _ => ?_) ?_ fun a ha => ?_
      · rw [hat]
        exact hf.headFront i hi' a ha
      · rw [hfront i (by omega), hfront (i + 1) hi']
      · rw [hfront i (by omega)]
        exact hf.front _ (by omega) (by omega)
    · refine List.map_congr_left fun i hi => ?_
      have hi' := List.mem_range.mp hi
      have h1 := hspan i (by omega)
      have h2 := hspan (i + 1) (by omega)
      have h3 := hsrc.order (srcPos + i) (by omega)
      rw [Nat.add_assoc] at h3
      refine item_eq (fun a ha hfield => ?_) ?_ fun a ha => ?_
      · rw [hat]
        exact hf.headNew i hi' a ha hfield
      · rw [Nat.add_assoc, Nat.add_assoc, hnew i (by omega), hnew (i + 1) (by omega)]
        omega
      · rw [Nat.add_assoc srcPos] at ha
        rw [hnew i (by omega), Nat.add_assoc, hf.body _ (by omega)]
        congr 1
        omega
  · refine List.map_congr_left fun i hi => ?_
    have hi' := List.mem_range.mp hi
    have h1 : bound pol node pos ≤ bound pol node (pos + i) := h.bound_mono (by omega) (by omega)
    have h2 := h.order (pos + i) (by omega)
    have h3 : bound pol node (pos + i + 1) ≤ getFreeSpaceStart node := h.bound_le_start (by omega)
    have hto : pos + count + i = pos + i + count := by omega
    refine item_eq (fun a ha hfield => ?_) ?_ fun a ha => ?_
    · rw [hat, hto]
      exact hf.headBack _ (by omega) (by omega) a ha hfield
    · rw [hto, show pos + i + count + 1 = pos + i + 1 + count by omega, hback _ (by omega) (by omega),
        hback _ (by omega) (by omega)]
      omega
    · rw [hto, hback _ (by omega) (by omega), show bound pol node (pos + i) + len + a =
        bound pol node (pos + i) + a + len by omega]
      exact hf.back _ (by omega) (by omega)

end Filled

end Node40

end Reiser4
