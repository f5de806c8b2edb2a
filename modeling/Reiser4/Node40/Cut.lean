/-
  Taking whole items out of a node (`node40_shrink` with the unit `MAX_UINT32`).

  The bodies behind the removed ones come down over them, together with everything up to the item
  headers; the headers of the items behind come up over those of the removed ones.  The repair calls
  this on nodes whose other offsets may be anything, so the first lemmas ask only for what the moves
  themselves need.

    1. `Cut`              the node in the end, byte by byte and header by header;
    2. `shrink_cut`       `node40_shrink` ends there;
    3. `WF.removed`       on a well-formed node one item is gone and the others are as they were.
-/
import Reiser4.Node40.Layout

namespace Reiser4

open Reiser4.Lib

namespace Node40

/-- `node40_size`: the bytes of the bodies of `count` items from `pos` on. -/
def node40Size (pol : KeyPol) (node : NodeBlock) (pos count : Nat) : Nat :=
  let ih := ihAt pol node pos
  let len :=
    if pos + count < getNumItems node then ihGetOffset pol node.mem (ih - ihSize pol * count)
    else getFreeSpaceStart node
  u32 (len + (two32 - ihGetOffset pol node.mem ih))

/-- The node after `count` items from `pos` on are gone, with `len` bytes of bodies; there are items
    behind them. -/
structure Cut (pol : KeyPol) (node node' : NodeBlock) (pos len count : Nat) : Prop where
  size : node'.size = node.size
  items : getNumItems node' = getNumItems node - count
  space : getFreeSpace node' = (getFreeSpace node + (len + count * ihSize pol)) % two16
  start : getFreeSpaceStart node' = (getFreeSpaceStart node + (two32 - len)) % two16
  front : ∀ a, (a < 2 ∨ 8 ≤ a) → a < ibAt pol node pos → node'.mem a = node.mem a
  back : ∀ a, ibAt pol node pos ≤ a → a + len < ihAt pol node (getNumItems node - 1) →
    node'.mem a = node.mem (a + len)
  /-- What is between the bodies and the headers that have been moved. -/
  stale : ∀ a, ihAt pol node (getNumItems node - 1) ≤ a + len →
    a < ihAt pol node (getNumItems node - 1) + count * ihSize pol → node'.mem a = node.mem a
  headFront : ∀ i, i < pos → ∀ a, a < ihSize pol →
    node'.mem (ihAt pol node i + a) = node.mem (ihAt pol node i + a)
  headBack : ∀ i, pos ≤ i → i + count < getNumItems node → ∀ a, a < ihSize pol →
    (a < keySize pol ∨ keySize pol + 2 ≤ a) →
    node'.mem (ihAt pol node i + a) = node.mem (ihAt pol node (i + count) + a)
  offsetBack : ∀ i, pos ≤ i → i + count < getNumItems node →
    ihGetOffset pol node'.mem (ihAt pol node i) =
      (ihGetOffset pol node.mem (ihAt pol node (i + count)) + (two32 - len)) % two16

section Cut

variable {pol : KeyPol} {node node' : NodeBlock} {hs pos len count : Nat}

/-- The headers of a node that has room for them. -/
theorem ihAt_room (hroom : getNumItems node * ihSize pol ≤ node.size) {i : Nat}
    (hi : i < getNumItems node) : ihAt pol node i + (i + 1) * ihSize pol = node.size := by
  have hle : (i + 1) * ihSize pol ≤ getNumItems node * ihSize pol := Nat.mul_le_mul_right _ hi
  unfold ihAt
  rw [Nat.mul_comm (ihSize pol)]
  omega

/-- **`node40_shrink` cuts whole items out**, when there are items behind them. -/
theorem shrink_cut (hroom : getNumItems node * ihSize pol ≤ node.size)
    (hmore : pos + count < getNumItems node) (hfirst : 8 ≤ ibAt pol node pos)
    (hlast : ibAt pol node pos + len ≤ ihAt pol node (getNumItems node - 1)) :
    Cut pol node (shrink pol node pos maxUint32 len count) pos len count := by
  have hsize : ihSize pol = keySize pol + 6 := rfl
  have hat : ∀ i, i < getNumItems node → ihAt pol node i + (i + 1) * ihSize pol = node.size :=
    fun i hi => ihAt_room hroom hi
  obtain ⟨last, hlastAt⟩ : ∃ l, l = ihAt pol node (getNumItems node - 1) := ⟨_, rfl⟩
  obtain ⟨dst, hdst⟩ : ∃ d, d = ibAt pol node pos := ⟨_, rfl⟩
  rw [← hlastAt, ← hdst] at hlast
  rw [← hdst] at hfirst
  have hlastSum : last + getNumItems node * ihSize pol = node.size := by
    have := hat (getNumItems node - 1) (by omega)
    rw [hlastAt]
    rwa [Nat.sub_add_cancel (by omega)] at this
  -- where the headers are, counted from the last one
  have hfrom : ∀ i, i < getNumItems node →
      ihAt pol node i = last + (getNumItems node - 1 - i) * ihSize pol := by
    intro i hi
    have h1 := hat i hi
    have h2 : (getNumItems node - 1 - i) * ihSize pol + (i + 1) * ihSize pol =
        getNumItems node * ihSize pol := by
      rw [← Nat.add_mul]
      congr 1
      omega
    omega
  -- the two moves
  obtain ⟨m1, hm1⟩ : ∃ m, m = node.mem.move dst (dst + len) (last - (dst + len)) := ⟨_, rfl⟩
  obtain ⟨m2, hm2⟩ : ∃ m, m = m1.move (last + count * ihSize pol) last
      ((getNumItems node - (pos + count)) * ihSize pol) := ⟨_, rfl⟩
  obtain ⟨m3, hm3⟩ : ∃ m, m = decOffsets pol len (getNumItems node - count - pos) m2
      (ihAt pol node pos) := ⟨_, rfl⟩
  have hrest : getNumItems node - (pos + count) = getNumItems node - count - pos := by omega
  have htop : last + count * ihSize pol + (getNumItems node - (pos + count)) * ihSize pol =
      ihAt pol node pos + ihSize pol := by
    rw [hfrom pos (by omega), Nat.add_assoc, Nat.add_assoc, ← Nat.add_mul, ← Nat.succ_mul]
    congr 2
    omega
  have hm1back : ∀ a, dst ≤ a → a + len < last → m1 a = node.mem (a + len) := by
    intro a hlo hhi
    rw [hm1, Bytes.move_in _ _ _ _ _ hlo (by omega)]
    congr 1
    omega
  have hm1out : ∀ a, a < dst ∨ last ≤ a + len → m1 a = node.mem a := by
    intro a ha
    rw [hm1, Bytes.move_out _ _ _ _ _ (by omega)]
  have hm2out : ∀ a, a < last + count * ihSize pol ∨ ihAt pol node pos + ihSize pol ≤ a →
      m2 a = m1 a := by
    intro a ha
    rw [hm2, Bytes.move_out _ _ _ _ _ (by omega)]
  have hm2in : ∀ i, pos ≤ i → i + count < getNumItems node → ∀ a, a < ihSize pol →
      m2 (ihAt pol node i + a) = node.mem (ihAt pol node (i + count) + a) := by
    intro i hlo hi a ha
    have h1 := hfrom i (by omega)
    have h2 := hfrom (i + count) hi
    have h3 : (getNumItems node - 1 - i) * ihSize pol =
        (getNumItems node - 1 - (i + count)) * ihSize pol + count * ihSize pol := by
      rw [← Nat.add_mul]
      congr 1
      omega
    have h4 : (getNumItems node - 1 - i) * ihSize pol + ihSize pol ≤
        count * ihSize pol + (getNumItems node - (pos + count)) * ihSize pol := by
      rw [← Nat.add_mul, ← Nat.succ_mul]
      exact Nat.mul_le_mul_right _ (by omega)
    rw [hm2, Bytes.move_in _ _ _ _ _ (by omega) (by omega), hm1out _ (Or.inr (by omega))]
    congr 1
    omega
  -- the loop goes over the headers from the position on
  have hih : ∀ i, pos + i < getNumItems node - count →
      ihAt pol node pos - i * ihSize pol = ihAt pol node (pos + i) := by
    intro i hi
    have h1 := hfrom pos (by omega)
    have h2 := hfrom (pos + i) (by omega)
    have h3 : (getNumItems node - 1 - pos) * ihSize pol =
        (getNumItems node - 1 - (pos + i)) * ihSize pol + i * ihSize pol := by
      rw [← Nat.add_mul]
      congr 1
      omega
    omega
  have hloop : (getNumItems node - count - pos) * ihSize pol ≤ ihAt pol node pos + ihSize pol := by
    rw [← hrest]
    omega
  obtain ⟨hdecOut, hdecIn⟩ := @decOffsets_spec pol len (getNumItems node - count - pos) m2
    (ihAt pol node pos) hloop
  rw [← hm3] at hdecOut hdecIn
  -- outside the moved headers, and inside them but for the offsets, the loop changes nothing
  have hgap : ∀ i j, i < getNumItems node → j < getNumItems node → i < j →
      ihAt pol node j + ihSize pol ≤ ihAt pol node i := by
    intro i j hi hj hij
    have h1 := hfrom i hi
    have h2 := hfrom j hj
    have h3 : (getNumItems node - 1 - j) * ihSize pol + ihSize pol ≤
        (getNumItems node - 1 - i) * ihSize pol := by
      rw [← Nat.succ_mul]
      exact Nat.mul_le_mul_right _ (by omega)
    omega
  have hm3low : ∀ a, a < last + count * ihSize pol → m3 a = m2 a := by
    intro a ha
    refine hdecOut a fun i hi => Or.inl ?_
    rw [hih i (by omega), hfrom (pos + i) (by omega)]
    have : count * ihSize pol ≤ (getNumItems node - 1 - (pos + i)) * ihSize pol :=
      Nat.mul_le_mul_right _ (by omega)
    omega
  have hm3head : ∀ i, i < getNumItems node - count → ∀ a, a < ihSize pol →
      (i < pos ∨ a < keySize pol ∨ keySize pol + 2 ≤ a) →
      m3 (ihAt pol node i + a) = m2 (ihAt pol node i + a) := by
    intro i hi a ha hfield
    refine hdecOut _ fun j hj => ?_
    rw [hih j (by omega)]
    rcases Nat.lt_trichotomy i (pos + j) with hlt | heq | hgt
    · have := hgap i (pos + j) (by omega) (by omega) hlt
      omega
    · rw [← heq]
      omega
    · have := hgap (pos + j) i (by omega) (by omega) hgt
      omega
  have hnode : shrink pol node pos maxUint32 len count = decFreeSpaceStart
      (incFreeSpace (decNumItems { node with mem := m3 } count) (len + count * ihSize pol)) len := by
    unfold shrink
    dsimp only
    rw [if_pos rfl, if_pos hmore, ← hlastAt, ← hdst, ← hm1, ← hm2, ← hm3]
  have hset : ∀ a, a < 2 ∨ 8 ≤ a → (shrink pol node pos maxUint32 len count).mem a = m3 a := by
    intro a ha
    rw [hnode]
    show (((m3.setLe 2 2 _).setLe 2 4 _).setLe 2 6 _) a = m3 a
    rw [Bytes.setLe_out _ _ _ _ _ (by omega), Bytes.setLe_out _ _ _ _ _ (by omega),
      Bytes.setLe_out _ _ _ _ _ (by omega)]
  have hnh : ∀ o, o + 2 ≤ 8 → m3.getLe 2 o = node.mem.getLe 2 o := fun o ho =>
    Bytes.getLe_congr 2 _ _ _ _ fun a ha => by
      rw [hm3low _ (by omega), hm2out _ (Or.inl (by omega)), hm1out _ (Or.inl (by omega))]
  refine ⟨?_, ?_, ?_, ?_, ?_, ?_, ?_, ?_, ?_, ?_⟩
  · rw [hnode]
    rfl
  · rw [hnode]
    show (((m3.setLe 2 2 (m3.getLe 2 2 + (two32 - count))).setLe 2 4 _).setLe 2 6 _).getLe 2 2 = _
    rw [Bytes.getLe_setLe_disj _ _ _ _ _ _ (Or.inl (by omega)),
      Bytes.getLe_setLe_disj _ _ _ _ _ _ (Or.inl (by omega)), Bytes.getLe_setLe, hnh 2 (by omega)]
    exact dec_mod (show count ≤ getNumItems node by omega) (Bytes.getLe_lt 2 _ _)
  · rw [hnode]
    show (((m3.setLe 2 2 _).setLe 2 4 ((m3.setLe 2 2 _).getLe 2 4 + _)).setLe 2 6 _).getLe 2 4 = _
    rw [Bytes.getLe_setLe_disj _ _ _ _ _ _ (Or.inl (by omega)), Bytes.getLe_setLe,
      Bytes.getLe_setLe_disj _ _ _ _ _ _ (Or.inr (by omega)), hnh 4 (by omega)]
    rfl
  · rw [hnode]
    show (((m3.setLe 2 2 _).setLe 2 4 _).setLe 2 6
      (((m3.setLe 2 2 _).setLe 2 4 _).getLe 2 6 + (two32 - len))).getLe 2 6 = _
    rw [Bytes.getLe_setLe, Bytes.getLe_setLe_disj _ _ _ _ _ _ (Or.inr (by omega)),
      Bytes.getLe_setLe_disj _ _ _ _ _ _ (Or.inr (by omega)), hnh 6 (by omega)]
    rfl
  · intro a hnode' ha
    rw [hset a hnode', hm3low a (by omega), hm2out a (Or.inl (by omega)), hm1out a (Or.inl (by omega))]
  · intro a hlo hhi
    rw [← hlastAt] at hhi
    rw [hset a (Or.inr (by omega)), hm3low a (by omega), hm2out a (Or.inl (by omega)),
      hm1back a (by omega) hhi]
  · intro a hlo hhi
    rw [← hlastAt] at hlo hhi
    rw [hset a (Or.inr (by omega)), hm3low a hhi, hm2out a (Or.inl hhi), hm1out a (Or.inr hlo)]
  · intro i hi a ha
    have hpos := hgap i pos (by omega) (by omega) hi
    have hbig : 8 ≤ ihAt pol node i := by
      rw [hfrom i (by omega)]
      omega
    rw [hset _ (Or.inr (by omega)), hm3head i (by omega) a ha (Or.inl hi),
      hm2out _ (Or.inr (by omega)), hm1out _ (Or.inr (by rw [hfrom i (by omega)]; omega))]
  · intro i hlo hi a ha hfield
    have hbig : 8 ≤ ihAt pol node i := by
      rw [hfrom i (by omega)]
      omega
    rw [hset _ (Or.inr (by omega)), hm3head i (by omega) a ha (Or.inr hfield), hm2in i hlo hi a ha]
  · intro i hlo hi
    obtain ⟨j, rfl⟩ := Nat.exists_eq_add_of_le hlo
    have hbig : 8 ≤ ihAt pol node (pos + j) := by
      rw [hfrom (pos + j) (by omega)]
      omega
    have hdec := hdecIn j (by omega)
    rw [hih j (by omega)] at hdec
    have hold : ihGetOffset pol m2 (ihAt pol node (pos + j)) =
        ihGetOffset pol node.mem (ihAt pol node (pos + j + count)) :=
      Bytes.getLe_congr 2 _ _ _ _ fun a ha => by
        rw [Nat.add_assoc, Nat.add_assoc]
        exact hm2in (pos + j) hlo hi _ (by omega)
    have hsame : ihGetOffset pol (shrink pol node pos maxUint32 len count).mem (ihAt pol node (pos + j)) =
        ihGetOffset pol m3 (ihAt pol node (pos + j)) :=
      Bytes.getLe_congr 2 _ _ _ _ fun a ha => hset _ (Or.inr (by omega))
    rw [hsame, hdec, hold]

/-- **`node40_shrink` cuts the last items off**: only the node header changes. -/
theorem shrink_last (hlast : getNumItems node ≤ pos + count) (hcount : count ≤ getNumItems node) :
    (shrink pol node pos maxUint32 len count).size = node.size ∧
      getNumItems (shrink pol node pos maxUint32 len count) = getNumItems node - count ∧
      getFreeSpace (shrink pol node pos maxUint32 len count) =
        (getFreeSpace node + (len + count * ihSize pol)) % two16 ∧
      getFreeSpaceStart (shrink pol node pos maxUint32 len count) =
        (getFreeSpaceStart node + (two32 - len)) % two16 ∧
      ∀ a, (a < 2 ∨ 8 ≤ a) → (shrink pol node pos maxUint32 len count).mem a = node.mem a := by
  have hnode : shrink pol node pos maxUint32 len count = decFreeSpaceStart
      (incFreeSpace (decNumItems node count) (len + count * ihSize pol)) len := by
    unfold shrink
    dsimp only
    rw [if_pos rfl, if_neg (Nat.not_lt.mpr hlast)]
  rw [hnode]
  refine ⟨rfl, ?_, ?_, ?_, ?_⟩
  · show (((node.mem.setLe 2 2 (getNumItems node + (two32 - count))).setLe 2 4 _).setLe 2 6 _).getLe 2 2 = _
    rw [Bytes.getLe_setLe_disj _ _ _ _ _ _ (Or.inl (by omega)),
      Bytes.getLe_setLe_disj _ _ _ _ _ _ (Or.inl (by omega)), Bytes.getLe_setLe]
    exact dec_mod hcount (Bytes.getLe_lt 2 _ _)
  · show (((node.mem.setLe 2 2 _).setLe 2 4 ((node.mem.setLe 2 2 _).getLe 2 4 + _)).setLe 2 6 _).getLe 2 4 = _
    rw [Bytes.getLe_setLe_disj _ _ _ _ _ _ (Or.inl (by omega)), Bytes.getLe_setLe,
      Bytes.getLe_setLe_disj _ _ _ _ _ _ (Or.inr (by omega))]
    rfl
  · show (((node.mem.setLe 2 2 _).setLe 2 4 _).setLe 2 6
      (((node.mem.setLe 2 2 _).setLe 2 4 _).getLe 2 6 + (two32 - len))).getLe 2 6 = _
    rw [Bytes.getLe_setLe, Bytes.getLe_setLe_disj _ _ _ _ _ _ (Or.inr (by omega)),
      Bytes.getLe_setLe_disj _ _ _ _ _ _ (Or.inr (by omega))]
    rfl
  · intro a ha
    show (((node.mem.setLe 2 2 _).setLe 2 4 _).setLe 2 6 _) a = node.mem a
    rw [Bytes.setLe_out _ _ _ _ _ (by omega), Bytes.setLe_out _ _ _ _ _ (by omega),
      Bytes.setLe_out _ _ _ _ _ (by omega)]

end Cut

/-! ## One item of a well-formed node -/

section Remove

variable {pol : KeyPol} {node node' : NodeBlock} {hs pos : Nat}

/-- The node without the item at `pos`. -/
structure Removed (pol : KeyPol) (node node' : NodeBlock) (pos : Nat) : Prop where
  items : getNumItems node' = getNumItems node - 1
  front : ∀ i, i < pos → item pol node' i = item pol node i
  back : ∀ i, pos ≤ i → i + 1 < getNumItems node → item pol node' i = item pol node (i + 1)

/-- Offsets, headers and bodies of the node without an item; a node that has them is well formed. -/
theorem WF.removed_of (h : WF pol node hs) (hpos : pos < getNumItems node)
    (hsize : node'.size = node.size) (hitems : getNumItems node' = getNumItems node - 1)
    (hspace : getFreeSpace node' =
      getFreeSpace node + (bound pol node (pos + 1) - bound pol node pos + ihSize pol))
    (hbound : ∀ i, i < getNumItems node → bound pol node' i =
      if i ≤ pos then bound pol node i
      else bound pol node (i + 1) - (bound pol node (pos + 1) - bound pol node pos))
    (hhead : ∀ i, i + 1 < getNumItems node → ∀ a, a < ihSize pol →
      (a < keySize pol ∨ keySize pol + 2 ≤ a) → node'.mem (ihAt pol node i + a) =
        node.mem (ihAt pol node (if i < pos then i else i + 1) + a))
    (hfront : ∀ a, 8 ≤ a → a < bound pol node pos → node'.mem a = node.mem a)
    (hback : ∀ a, bound pol node pos ≤ a →
      a + (bound pol node (pos + 1) - bound pol node pos) < getFreeSpaceStart node →
      node'.mem a = node.mem (a + (bound pol node (pos + 1) - bound pol node pos))) :
    WF pol node' hs ∧ Removed pol node node' pos := by
  have hheader := h.header
  have hstart := h.start
  have horder : bound pol node pos < bound pol node (pos + 1) := h.order pos hpos
  have hend : bound pol node (pos + 1) ≤ getFreeSpaceStart node := by
    rw [← @bound_top pol node]
    exact h.bound_mono hpos (Nat.le_refl _)
  have hat : ∀ i, ihAt pol node' i = ihAt pol node i := by
    intro i
    unfold ihAt
    rw [hsize]
  have htop : getFreeSpaceStart node' =
      getFreeSpaceStart node - (bound pol node (pos + 1) - bound pol node pos) := by
    rw [← @bound_top pol node', hitems, hbound _ (by omega)]
    by_cases hle : getNumItems node - 1 ≤ pos
    · have hlast : pos + 1 = getNumItems node := by omega
      have htop' := @bound_top pol node
      rw [← hlast] at htop'
      rw [if_pos hle, show getNumItems node - 1 = pos by omega]
      omega
    · rw [if_neg hle, Nat.sub_add_cancel (by omega), bound_top]
  refine ⟨⟨hheader, ?_, ?_, ?_, ?_⟩, hitems, ?_, ?_⟩
  · rw [hbound 0 (by omega), if_pos (Nat.zero_le _), hstart]
  · intro i hi
    rw [hbound i (by omega), hbound (i + 1) (by omega)]
    rcases Nat.lt_trichotomy i pos with hlt | rfl | hgt
    · rw [if_pos (Nat.le_of_lt hlt), if_pos (show i + 1 ≤ pos from hlt)]
      exact h.order i (by omega)
    · rw [if_pos (Nat.le_refl _), if_neg (by omega)]
      have := h.order (i + 1) (by omega)
      omega
    · rw [if_neg (by omega), if_neg (by omega)]
      have h1 := h.order (i + 1) (by omega)
      have h2 := h.bound_mono (show pos + 1 ≤ i + 1 by omega) (by omega)
      omega
  · have hcount := h.space
    have hn : (getNumItems node - 1) * ihSize pol + ihSize pol = getNumItems node * ihSize pol := by
      rw [← Nat.succ_mul, Nat.succ_eq_add_one, Nat.sub_add_cancel (by omega)]
    rw [htop, hspace, hitems, hsize]
    omega
  · rw [hsize]
    exact h.size
  · -- an item in front
    intro i hi
    have hhead' : ∀ a, a < ihSize pol → (a < keySize pol ∨ keySize pol + 2 ≤ a) →
        node'.mem (ihAt pol node i + a) = node.mem (ihAt pol node i + a) := by
      intro a ha hfield
      have := hhead i (by omega) a ha hfield
      rwa [if_pos hi] at this
    obtain ⟨hkey, hflags, hpid⟩ := head_moved hhead'
    have h1 := h.bound_mono (Nat.zero_le i) (by omega)
    have h2 := h.bound_mono (show i + 1 ≤ pos from hi) (by omega)
    unfold item
    rw [hat, hkey, hflags, hpid, hbound i (by omega), hbound (i + 1) (by omega),
      if_pos (Nat.le_of_lt hi), if_pos (show i + 1 ≤ pos from hi)]
    congr 1
    exact Bytes.slice_congr _ _ _ _ _ fun a ha => hfront _ (by omega) (by omega)
  · -- one behind
    intro i hlo hi
    have hhead' : ∀ a, a < ihSize pol → (a < keySize pol ∨ keySize pol + 2 ≤ a) →
        node'.mem (ihAt pol node i + a) = node.mem (ihAt pol node (i + 1) + a) := by
      intro a ha hfield
      have := hhead i hi a ha hfield
      rwa [if_neg (by omega)] at this
    obtain ⟨hkey, hflags, hpid⟩ := head_moved hhead'
    have h1 := h.bound_mono (show pos + 1 ≤ i + 1 by omega) (by omega)
    have h2 := h.bound_mono (show i + 1 + 1 ≤ getNumItems node from hi) (Nat.le_refl _)
    have h3 := h.order (i + 1) hi
    rw [bound_top] at h2
    have hlow : bound pol node' i =
        bound pol node (i + 1) - (bound pol node (pos + 1) - bound pol node pos) := by
      rw [hbound i (by omega)]
      by_cases hle : i ≤ pos
      · rw [if_pos hle, show i = pos by omega]
        omega
      · rw [if_neg hle]
    unfold item
    rw [hat, hkey, hflags, hpid, hlow, hbound (i + 1) hi, if_neg (by omega)]
    congr 1
    rw [show bound pol node (i + 1 + 1) - (bound pol node (pos + 1) - bound pol node pos) -
      (bound pol node (i + 1) - (bound pol node (pos + 1) - bound pol node pos)) =
      bound pol node (i + 1 + 1) - bound pol node (i + 1) by omega]
    refine Bytes.slice_congr _ _ _ _ _ fun a ha => ?_
    rw [hback _ (by omega) (by omega)]
    congr 1
    omega

/-- The size of an item. -/
theorem WF.node40Size_eq (h : WF pol node hs) (hpos : pos < getNumItems node) :
    node40Size pol node pos 1 = bound pol node (pos + 1) - bound pol node pos := by
  have horder : bound pol node pos < bound pol node (pos + 1) := h.order pos hpos
  have hsmall := h.small
  have hmono : bound pol node (pos + 1) ≤ bound pol node (getNumItems node) :=
    h.bound_mono hpos (Nat.le_refl _)
  unfold node40Size
  dsimp only
  rw [← bound_lt hpos]
  have hnext : (if pos + 1 < getNumItems node then
      ihGetOffset pol node.mem (ihAt pol node pos - ihSize pol * 1) else getFreeSpaceStart node) =
      bound pol node (pos + 1) := by
    by_cases hmore : pos + 1 < getNumItems node
    · rw [if_pos hmore, bound_lt hmore, Nat.mul_one, ← h.ihAt_succ hmore, Nat.add_sub_cancel]
    · rw [if_neg hmore, show pos + 1 = getNumItems node by omega, bound_top]
  rw [hnext]
  unfold u32 two32
  omega

/-- **Removing an item** of a well-formed node. -/
theorem WF.removed (h : WF pol node hs) (hpos : pos < getNumItems node) :
    WF pol (shrink pol node pos maxUint32 (node40Size pol node pos 1) 1) hs ∧
      Removed pol node (shrink pol node pos maxUint32 (node40Size pol node pos 1) 1) pos := by
  have hheader := h.header
  have hcount := h.space
  have hblk := h.size
  have h16 := two16_eq
  have hmax := maxBlksize_eq
  have horder : bound pol node pos < bound pol node (pos + 1) := h.order pos hpos
  have hend : bound pol node (pos + 1) ≤ getFreeSpaceStart node := by
    rw [← @bound_top pol node]
    exact h.bound_mono hpos (Nat.le_refl _)
  have hfirst : hs ≤ bound pol node pos := by
    have := h.bound_mono (Nat.zero_le pos) (Nat.le_of_lt hpos)
    rwa [h.start] at this
  have hone : ihSize pol ≤ getNumItems node * ihSize pol := Nat.le_mul_of_pos_left _ (by omega)
  rw [h.node40Size_eq hpos]
  obtain ⟨len, hlen⟩ : ∃ l, l = bound pol node (pos + 1) - bound pol node pos := ⟨_, rfl⟩
  rw [← hlen]
  have hib : ibAt pol node pos = bound pol node pos := (bound_lt hpos).symm
  have hdec : ∀ v, len ≤ v → v < two16 → (v + (two32 - len)) % two16 = v - len := fun v h1 h2 =>
    dec_mod h1 h2
  by_cases hmore : pos + 1 < getNumItems node
  · have hlast := h.start_le_ihAt (show getNumItems node - 1 < getNumItems node by omega)
    have hcut := @shrink_cut pol node pos len 1 (by omega) hmore (by omega) (by omega)
    have hstart : getFreeSpaceStart (shrink pol node pos maxUint32 len 1) =
        getFreeSpaceStart node - len := by
      rw [hcut.start, hdec _ (by omega) (by omega)]
    have hat : ∀ i, ihAt pol (shrink pol node pos maxUint32 len 1) i = ihAt pol node i := by
      intro i
      unfold ihAt
      rw [hcut.size]
    refine h.removed_of hpos hcut.size hcut.items ?_ ?_ ?_ ?_ ?_
    · rw [hcut.space, ← hlen, Nat.one_mul, Nat.mod_eq_of_lt (by omega)]
    · intro i hi
      rw [← hlen]
      by_cases htop : i = getNumItems node - 1
      · rw [if_neg (by omega), htop, ← hcut.items, bound_top, hstart, hcut.items,
          Nat.sub_add_cancel (by omega), bound_top]
      · have hi' : i < getNumItems (shrink pol node pos maxUint32 len 1) := by
          have := hcut.items
          omega
        rw [bound_lt hi', hat]
        by_cases hle : i < pos
        · rw [if_pos (by omega), bound_lt hi]
          exact Bytes.getLe_congr 2 _ _ _ _ fun a ha => by
            rw [Nat.add_assoc]
            exact hcut.headFront i hle _ (by unfold ihSize; omega)
        · have hnext := h.bound_mono (show pos + 1 ≤ i + 1 by omega) (by omega)
          have hfar := h.bound_mono (show i + 1 ≤ getNumItems node by omega) (Nat.le_refl _)
          rw [bound_top] at hfar
          rw [hcut.offsetBack i (by omega) (by omega), ← bound_lt (show i + 1 < getNumItems node by omega),
            hdec _ (by omega) (by omega)]
          by_cases heq : i = pos
          · rw [if_pos (by omega), heq]
            omega
          · rw [if_neg (by omega)]
    · intro i hi a ha hfield
      by_cases hle : i < pos
      · rw [if_pos hle]
        exact hcut.headFront i hle a ha
      · rw [if_neg hle]
        exact hcut.headBack i (by omega) hi a ha hfield
    · intro a h8 ha
      exact hcut.front a (Or.inr h8) (by omega)
    · intro a hlo hhi
      rw [← hlen] at hhi ⊢
      exact hcut.back a (by omega) (by omega)
  · obtain ⟨hsize, hitems, hspace, hstart, hmem⟩ := @shrink_last pol node pos len 1 (by omega) (by omega)
    have hlast : pos + 1 = getNumItems node := by omega
    have hat : ∀ i, ihAt pol (shrink pol node pos maxUint32 len 1) i = ihAt pol node i := by
      intro i
      unfold ihAt
      rw [hsize]
    have htop := @bound_top pol node
    rw [← hlast] at htop
    refine h.removed_of hpos hsize hitems ?_ ?_ ?_ ?_ ?_
    · rw [hspace, ← hlen, Nat.one_mul, Nat.mod_eq_of_lt (by omega)]
    · intro i hi
      rw [if_pos (by omega)]
      by_cases heq : i = pos
      · have hnew := @bound_top pol (shrink pol node pos maxUint32 len 1)
        rw [hitems, ← hlast, Nat.add_sub_cancel] at hnew
        rw [heq, hnew, hstart, hdec _ (by omega) (by omega)]
        omega
      · have h8 := h.start_le_ihAt hi
        rw [bound_lt (by omega), bound_lt hi, hat]
        exact Bytes.getLe_congr 2 _ _ _ _ fun a ha => hmem _ (Or.inr (by omega))
    · intro i hi a ha _
      rw [if_pos (by omega)]
      have h8 := h.start_le_ihAt (show i < getNumItems node by omega)
      exact hmem _ (Or.inr (by omega))
    · intro a h8 _
      exact hmem a (Or.inr h8)
    · intro a hlo hhi
      omega

end Remove

end Node40

end Reiser4
