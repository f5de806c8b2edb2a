/-
  Fusing two items of a node (`node40_merge`).

  The item plugin puts the bodies together and says what space that released; the right item is shrunk
  by it, and then its header goes.

    1. `Fused`        the node in the end: where the headers, the offsets and the bodies are;
    2. `fused_merge`  `node40_merge` ends there, for whatever the plugin has done to the two bodies;
    3. `joins_cde40`, `joins_plain40`, `joins_ctail40`, `joins_extent40`   the units of the fused item,
       plugin by plugin;
    4. `node40Merge_concatenates`   the law.
-/
import Reiser4.Node40.Layout
import Reiser4.Cde40.Merge
import Reiser4.Extent40.Memory
import Reiser4.Extent40.Remove

namespace Reiser4

open Reiser4.Lib

namespace Node40

variable (pol : KeyPol) (node : NodeBlock)

/-! ## The routine -/

/-- `balance->merge`: what the plugins that have the method do to the bodies of two neighbours, and the
    space that it releases. -/
def mergeMethod (mem : Bytes) (left right : Place) : Option (Bytes × Nat) :=
  match left.plug with
  | .cde40 => some (Cde40.merge pol mem left.body left.len right.body right.len)
  | .ctail40 => some (mem.move right.body (right.body + 1) (right.len - 1), 1)
  | _ => none

/-- The second stage: the header of the right item goes. -/
def dropHeader (items left right : Nat) : NodeBlock :=
  let mem :=
    if right < items - 1 then
      let delta := (items - right - 1) * ihSize pol
      node.mem.move (ihAt pol node left - delta) (ihAt pol node right - delta) delta
    else node.mem
  incFreeSpace (decNumItems { node with mem := mem } 1) (ihSize pol)

/-- `node40_merge`. -/
def merge (left right : Nat) : Except Errno NodeBlock :=
  let items := getNumItems node
  if 1 < left - right ∨ 1 < right - left then .error .einval
  else do
    let l ← fetch pol node left
    let r ← fetch pol node right
    let node :=
      match mergeMethod pol node.mem l r with
      | some (mem, space) =>
        let node := { node with mem := mem }
        if space ≠ 0 then shrink pol node right 0 space 1 else node
      | none => node
    return dropHeader pol node items left right

/-! ## The node in the end -/

section Fused

variable {pol : KeyPol} {node : NodeBlock} {hs left space : Nat} {mem : Bytes}

/-- The node after items `left` and `left + 1` have become one, `space` bytes of which are gone; `mem`
    is the memory that the plugin has left. -/
structure Fused (pol : KeyPol) (node node' : NodeBlock) (mem : Bytes) (left space : Nat) : Prop where
  size : node'.size = node.size
  items : getNumItems node' = getNumItems node - 1
  free : getFreeSpace node' = getFreeSpace node + (space + ihSize pol)
  start : getFreeSpaceStart node' = getFreeSpaceStart node - space
  headFront : ∀ i, i ≤ left → ∀ a, a < ihSize pol → (a < keySize pol ∨ keySize pol + 2 ≤ a) →
    node'.mem (ihAt pol node i + a) = node.mem (ihAt pol node i + a)
  headBack : ∀ i, left < i → i + 1 < getNumItems node → ∀ a, a < ihSize pol →
    (a < keySize pol ∨ keySize pol + 2 ≤ a) →
    node'.mem (ihAt pol node i + a) = node.mem (ihAt pol node (i + 1) + a)
  offsetFront : ∀ i, i ≤ left → ihGetOffset pol node'.mem (ihAt pol node i) = bound pol node i
  offsetBack : ∀ i, left < i → i + 1 < getNumItems node →
    ihGetOffset pol node'.mem (ihAt pol node i) = bound pol node (i + 1) - space
  bodyFront : ∀ a, 8 ≤ a → a < bound pol node (left + 2) - space → node'.mem a = mem a
  bodyBack : ∀ a, bound pol node (left + 2) - space ≤ a → a < getFreeSpaceStart node - space →
    node'.mem a = mem (a + space)

/-- A change of bodies leaves the node header and the item headers. -/
theorem WF.same (h : WF pol node hs)
    (hmem : ∀ a, a < 8 ∨ getFreeSpaceStart node ≤ a → mem a = node.mem a) :
    WF pol { node with mem := mem } hs ∧ getNumItems { node with mem := mem } = getNumItems node ∧
      getFreeSpace { node with mem := mem } = getFreeSpace node ∧
      getFreeSpaceStart { node with mem := mem } = getFreeSpaceStart node ∧
      ∀ i, bound pol { node with mem := mem } i = bound pol node i := by
  have hfield : ∀ o, o + 2 ≤ 8 → mem.getLe 2 o = node.mem.getLe 2 o := fun o ho =>
    Bytes.getLe_congr 2 _ _ _ _ fun a ha => hmem _ (Or.inl (by omega))
  have hitems : getNumItems { node with mem := mem } = getNumItems node := hfield 2 (by omega)
  have hspace : getFreeSpace { node with mem := mem } = getFreeSpace node := hfield 4 (by omega)
  have hstart : getFreeSpaceStart { node with mem := mem } = getFreeSpaceStart node :=
    hfield 6 (by omega)
  have hbound : ∀ i, bound pol { node with mem := mem } i = bound pol node i := by
    intro i
    unfold bound
    rw [hitems, hstart]
    by_cases hi : i < getNumItems node
    · rw [if_pos hi, if_pos hi]
      refine Bytes.getLe_congr 2 _ _ _ _ fun a ha => hmem _ (Or.inr ?_)
      have hle : getFreeSpaceStart node + getFreeSpace node ≤ ihAt pol { node with mem := mem } i :=
        h.start_le_ihAt hi
      omega
    · rw [if_neg hi, if_neg hi]
  refine ⟨⟨h.header, ?_, ?_, ?_, h.size⟩, hitems, hspace, hstart, hbound⟩
  · rw [hbound, h.start]
  · intro i hi
    rw [hitems] at hi
    rw [hbound, hbound]
    exact h.order i hi
  · rw [hitems, hspace, hstart]
    exact h.space

/-- The second stage, on a node that has been shrunk. -/
theorem fused_dropHeader (h : WF pol node hs) {mid : NodeBlock} (hright : left + 1 < getNumItems node)
    (hmid : Shrunk pol node mid (left + 1) space)
    (hspace : space ≤ bound pol node (left + 2) - bound pol node (left + 1)) :
    Fused pol node (dropHeader pol mid (getNumItems node) left (left + 1)) node.mem left space := by
  have hihsize : ihSize pol = keySize pol + 6 := rfl
  have hheader := h.header
  have hcount := h.space
  have hsize := h.size
  have hblk := maxBlksize_eq
  have hsmall := h.small
  have htop := @bound_top pol node
  have hat : ∀ i, ihAt pol mid i = ihAt pol node i := by
    intro i
    unfold ihAt
    rw [hmid.size]
  have hfirst : 28 ≤ bound pol node (left + 1) := by
    have := h.bound_mono (Nat.zero_le (left + 1)) (Nat.le_of_lt hright)
    have := h.start
    omega
  have hend : bound pol node (left + 2) ≤ getFreeSpaceStart node := by
    rw [← htop]
    exact h.bound_mono hright (Nat.le_refl _)
  have horder : bound pol node (left + 1) < bound pol node (left + 2) := h.order (left + 1) hright
  have hitems : getNumItems node ≤ getNumItems node * ihSize pol :=
    Nat.le_mul_of_pos_right _ (by omega)
  -- where the headers behind the right item go
  obtain ⟨delta, hdelta⟩ : ∃ d, d = (getNumItems node - (left + 1) - 1) * ihSize pol := ⟨_, rfl⟩
  have hright_at := h.ihAt_succ hright
  have hbottom : delta ≤ ihAt pol node (left + 1) ∧
      ihAt pol node (left + 1) - delta = ihAt pol node (getNumItems node - 1) := by
    have h1 := h.ihAt_add hright
    have h2 := h.ihAt_add (show getNumItems node - 1 < getNumItems node by omega)
    have h3 : (getNumItems node - (left + 1) - 1) * ihSize pol + (left + 1 + 1) * ihSize pol =
        (getNumItems node - 1 + 1) * ihSize pol := by
      rw [← Nat.add_mul]
      congr 1
      omega
    omega
  obtain ⟨moved, hmoved⟩ : ∃ m, m = mid.mem.move (ihAt pol node left - delta)
      (ihAt pol node (left + 1) - delta) delta := ⟨_, rfl⟩
  have hnode : dropHeader pol mid (getNumItems node) left (left + 1) =
      incFreeSpace (decNumItems { mid with mem := moved } 1) (ihSize pol) := by
    unfold dropHeader
    dsimp only
    rw [hat, hat, ← hdelta, Cde40.ite_move, hmoved]
    intro hlast
    rw [hdelta, show getNumItems node - (left + 1) - 1 = 0 by omega, Nat.zero_mul]
  have hbehind : ∀ a, a < ihAt pol node left - delta ∨ ihAt pol node left ≤ a → moved a = mid.mem a := by
    intro a ha
    rw [hmoved, Bytes.move_out _ _ _ _ _ (by omega)]
  have hinside : ∀ a, ihAt pol node left - delta ≤ a → a < ihAt pol node left →
      moved a = mid.mem (a - ihSize pol) := by
    intro a hlo hhi
    rw [hmoved, Bytes.move_in _ _ _ _ _ hlo (by omega)]
    congr 1
    omega
  have hset : ∀ a, 8 ≤ a → (dropHeader pol mid (getNumItems node) left (left + 1)).mem a = moved a := by
    intro a ha
    rw [hnode]
    show ((moved.setLe 2 2 _).setLe 2 4 _) a = moved a
    rw [Bytes.setLe_out _ _ _ _ _ (by omega), Bytes.setLe_out _ _ _ _ _ (by omega)]
  have hlast := h.start_le_ihAt (show getNumItems node - 1 < getNumItems node by omega)
  have hlow : getFreeSpaceStart node ≤ ihAt pol node left - delta := by omega
  have hnh : ∀ o, o + 2 ≤ 8 → moved.getLe 2 o = mid.mem.getLe 2 o := fun o ho =>
    Bytes.getLe_congr 2 _ _ _ _ fun a ha => hbehind _ (Or.inl (by omega))
  -- a header in front of the right item stays, one behind it comes one place up
  have hfront : ∀ i, i ≤ left → ihAt pol node left ≤ ihAt pol node i := by
    intro i hi
    by_cases heq : i = left
    · rw [heq]
    · have := h.ihAt_lt (show i < left by omega) (by omega)
      omega
  have hback : ∀ i, left < i → i + 1 < getNumItems node →
      ihAt pol node left - delta ≤ ihAt pol node i ∧ ihAt pol node i + ihSize pol ≤ ihAt pol node left ∧
        ihAt pol node i - ihSize pol = ihAt pol node (i + 1) := by
    intro i hlo hi
    have h1 := h.ihAt_lt hlo (by omega)
    have h2 := h.ihAt_succ hi
    have h3 : ihAt pol node (getNumItems node - 1) ≤ ihAt pol node (i + 1) := by
      by_cases heq : i + 1 = getNumItems node - 1
      · rw [heq]
      · have := h.ihAt_lt (show i + 1 < getNumItems node - 1 by omega) (by omega)
        omega
    omega
  have hhigh : 8 ≤ ihAt pol node left - delta := by omega
  refine ⟨?_, ?_, ?_, ?_, ?_, ?_, ?_, ?_, ?_, ?_⟩
  · rw [hnode]
    exact hmid.size
  · rw [hnode]
    show ((moved.setLe 2 2 (moved.getLe 2 2 + (two32 - 1))).setLe 2 4 _).getLe 2 2 = _
    rw [Bytes.getLe_setLe_disj _ _ _ _ _ _ (Or.inl (by omega)), Bytes.getLe_setLe, hnh 2 (by omega),
      show mid.mem.getLe 2 2 = getNumItems node from hmid.items]
    exact dec_mod (by omega) (show getNumItems node < two16 by unfold two16; omega)
  · rw [hnode]
    show ((moved.setLe 2 2 _).setLe 2 4 ((moved.setLe 2 2 _).getLe 2 4 + ihSize pol)).getLe 2 4 = _
    rw [Bytes.getLe_setLe, Bytes.getLe_setLe_disj _ _ _ _ _ _ (Or.inr (by omega)), hnh 4 (by omega),
      show mid.mem.getLe 2 4 = _ from hmid.space, Nat.add_assoc]
    have hone : ihSize pol ≤ getNumItems node * ihSize pol := Nat.le_mul_of_pos_left _ (by omega)
    exact Nat.mod_eq_of_lt (show _ < 65536 by omega)
  · rw [hnode]
    show ((moved.setLe 2 2 _).setLe 2 4 _).getLe 2 6 = _
    rw [Bytes.getLe_setLe_disj _ _ _ _ _ _ (Or.inr (by omega)),
      Bytes.getLe_setLe_disj _ _ _ _ _ _ (Or.inr (by omega)), hnh 6 (by omega)]
    exact hmid.start
  · intro i hi a ha hfield
    have := hfront i hi
    rw [hset _ (by omega), hbehind _ (Or.inr (by omega)), hmid.head i (by omega) a ha hfield]
  · intro i hlo hi a ha hfield
    obtain ⟨h1, h2, h3⟩ := hback i hlo hi
    rw [hset _ (by omega), hinside _ (by omega) (by omega), show ihAt pol node i + a - ihSize pol =
      ihAt pol node (i + 1) + a by omega, hmid.head (i + 1) hi a ha hfield]
  · intro i hi
    have := hfront i hi
    rw [← hmid.offsetFront i (by omega) (by omega)]
    refine Bytes.getLe_congr 2 _ _ _ _ fun a ha => ?_
    rw [hset _ (by omega), hbehind _ (Or.inr (by omega))]
  · intro i hlo hi
    obtain ⟨h1, h2, h3⟩ := hback i hlo hi
    rw [← hmid.offsetBack (i + 1) (by omega) hi]
    refine Bytes.getLe_congr 2 _ _ _ _ fun a ha => ?_
    rw [hset _ (by omega), hinside _ (by omega) (by omega)]
    congr 1
    omega
  · intro a h8 ha
    rw [hset a h8, hbehind a (Or.inl (by omega)), hmid.bodyFront a h8 ha]
  · intro a hlo hhi
    rw [hset a (by omega), hbehind a (Or.inl (by omega)), hmid.bodyBack a hlo hhi]

theorem Shrunk.refl (pos : Nat) : Shrunk pol node node pos 0 where
  size := rfl
  items := rfl
  space := rfl
  start := rfl
  head := fun _ _ _ _ _ => rfl
  offsetFront := fun _ _ hi => (bound_lt hi).symm
  offsetBack := fun _ _ hi => (bound_lt hi).symm
  bodyFront := fun _ _ _ => rfl
  bodyBack := fun _ _ _ => rfl

/-- **`node40_merge`** ends with a fused item, whatever the plugin has done to the two bodies. -/
theorem fused_merge (h : WF pol node hs) (hright : left + 1 < getNumItems node) {l r : Place}
    (hl : fetch pol node left = .ok l) (hr : fetch pol node (left + 1) = .ok r)
    (hplug : (mergeMethod pol node.mem l r).getD (node.mem, 0) = (mem, space))
    (hout : ∀ a, a < bound pol node left ∨ bound pol node (left + 2) ≤ a → mem a = node.mem a)
    (hspace : space ≤ bound pol node (left + 2) - bound pol node (left + 1)) :
    ∃ node', merge pol node left (left + 1) = .ok node' ∧ Fused pol node node' mem left space := by
  have hheader := h.header
  have hstart : hs ≤ bound pol node left := by
    have := h.bound_mono (Nat.zero_le left) (by omega)
    rwa [h.start] at this
  have hend : bound pol node (left + 2) ≤ getFreeSpaceStart node := by
    rw [← @bound_top pol node]
    exact h.bound_mono hright (Nat.le_refl _)
  obtain ⟨hwf, hitems, hfree, hfss, hbound⟩ := @WF.same pol node hs mem h
    fun a ha => hout a (by omega)
  -- the shrunk node, also where there is nothing to shrink
  obtain ⟨mid, hmid, hshrunk⟩ : ∃ mid, mid = (if space ≠ 0 then
      shrink pol { node with mem := mem } (left + 1) 0 space 1 else { node with mem := mem }) ∧
      Shrunk pol { node with mem := mem } mid (left + 1) space := by
    refine ⟨_, rfl, ?_⟩
    by_cases h0 : space = 0
    · rw [if_neg (not_not.mpr h0), h0]
      exact Shrunk.refl _
    · rw [if_pos h0]
      exact hwf.shrink_room (by decide) (by rw [hitems]; exact hright)
        (by rw [hbound, hbound]; exact hspace)
  have hfused := fused_dropHeader hwf (by rw [hitems]; exact hright) hshrunk
    (by rw [hbound, hbound]; exact hspace)
  rw [hitems] at hfused
  refine ⟨dropHeader pol mid (getNumItems node) left (left + 1), ?_, ?_⟩
  · unfold merge
    dsimp only
    rw [if_neg (by omega), hl, hr]
    show Except.ok (dropHeader pol (match mergeMethod pol node.mem l r with
      | some (mem, space) =>
        if space ≠ 0 then shrink pol { node with mem := mem } (left + 1) 0 space 1
        else { node with mem := mem }
      | none => node) _ _ _) = _
    rw [hmid]
    cases hmethod : mergeMethod pol node.mem l r with
    | none =>
      rw [hmethod] at hplug
      obtain ⟨rfl, rfl⟩ := Prod.mk.injEq _ _ _ _ ▸ hplug
      rfl
    | some res =>
      rw [hmethod] at hplug
      have : res = (mem, space) := hplug
      rw [this]
  · have hhead : ∀ i, i < getNumItems node → ∀ a, mem (ihAt pol node i + a) =
        node.mem (ihAt pol node i + a) := by
      intro i hi a
      have := h.start_le_ihAt hi
      exact hout _ (Or.inr (by omega))
    refine ⟨hfused.size, ?_, ?_, ?_, ?_, ?_, ?_, ?_, ?_, ?_⟩
    · rw [hfused.items, hitems]
    · rw [hfused.free, hfree]
    · rw [hfused.start, hfss]
    · intro i hi a ha hfield
      rw [← hhead i (by omega)]
      exact hfused.headFront i hi a ha hfield
    · intro i hlo hi a ha hfield
      rw [← hhead (i + 1) hi]
      exact hfused.headBack i hlo (by rw [hitems]; exact hi) a ha hfield
    · intro i hi
      rw [← hbound i]
      exact hfused.offsetFront i hi
    · intro i hlo hi
      rw [← hbound (i + 1)]
      exact hfused.offsetBack i hlo (by rw [hitems]; exact hi)
    · intro a h8 ha
      rw [← hbound] at ha
      exact hfused.bodyFront a h8 ha
    · intro a hlo hhi
      rw [← hbound] at hlo
      rw [← hfss] at hhi
      exact hfused.bodyBack a hlo hhi

namespace Fused

variable {node' : NodeBlock} (hf : Fused pol node node' mem left space) (h : WF pol node hs)
  (hright : left + 1 < getNumItems node)
  (hspace : space ≤ bound pol node (left + 2) - bound pol node (left + 1))

include hf

theorem ihAt_eq (i : Nat) : ihAt pol node' i = ihAt pol node i := by
  unfold ihAt
  rw [hf.size]

include hright

/-- The items up to the fused one begin where they did. -/
theorem bound_front {i : Nat} (hi : i ≤ left) : bound pol node' i = bound pol node i := by
  have hitems := hf.items
  rw [bound_lt (by omega), hf.ihAt_eq, hf.offsetFront i hi]

omit hright in
/-- The later ones, and the free space, begin where the one behind them did, less the space. -/
theorem bound_back {i : Nat} (hlo : left < i) (hi : i < getNumItems node) :
    bound pol node' i = bound pol node (i + 1) - space := by
  have hitems := hf.items
  by_cases hlast : i + 1 = getNumItems node
  · have hi' : i = getNumItems node' := by omega
    rw [hi', bound_top, ← hi', hlast, bound_top, hf.start]
  · rw [bound_lt (by omega), hf.ihAt_eq, hf.offsetBack i hlo (by omega)]

include h hspace

/-- The node is well formed. -/
theorem wf : WF pol node' hs := by
  have hitems := hf.items
  have horder : bound pol node (left + 1) < bound pol node (left + 2) := h.order (left + 1) hright
  have hmid := h.order left (by omega)
  have hend : bound pol node (left + 2) ≤ getFreeSpaceStart node := by
    rw [← @bound_top pol node]
    exact h.bound_mono hright (Nat.le_refl _)
  have hcount := h.space
  have hn : (getNumItems node - 1) * ihSize pol + ihSize pol = getNumItems node * ihSize pol := by
    rw [← Nat.succ_mul, Nat.succ_eq_add_one, Nat.sub_add_cancel (by omega)]
  refine ⟨h.header, ?_, ?_, ?_, ?_⟩
  · rw [hf.bound_front hright (Nat.zero_le _), h.start]
  · intro i hi
    rcases Nat.lt_trichotomy i left with hlt | heq | hgt
    · rw [hf.bound_front hright (by omega), hf.bound_front hright hlt]
      exact h.order i (by omega)
    · rw [heq, hf.bound_front hright (Nat.le_refl _), hf.bound_back (by omega) hright]
      show _ < bound pol node (left + 2) - space
      omega
    · have h1 : bound pol node (left + 2) ≤ bound pol node (i + 1) :=
        h.bound_mono (by omega) (by omega)
      have h2 := h.order (i + 1) (by omega)
      rw [hf.bound_back hgt (by omega), hf.bound_back (by omega) (by omega)]
      omega
  · rw [hf.start, hf.free, hf.items, hf.size]
    omega
  · rw [hf.size]
    exact h.size

end Fused

end Fused

/-! ## Units -/

section Units

/-- What a unit of an item is made of, in the items that can be fused: a directory entry, a byte of a
    file or an extent. -/
inductive UnitData
  | entry (e : EntryHint)
  | byte (b : UInt8)
  | extent (u : ExtentUnit)
  deriving DecidableEq, Repr

/-- The units of an item with their keys (`fetch_key`), for the plugins whose items can be fused. -/
def unitsOf (pol : KeyPol) (node : NodeBlock) (p : Place) : List (Key × UnitData) :=
  match p.plug with
  | .cde40 =>
    (Cde40.unitsAt pol node.mem p.body p.key.getLocality 0 (Cde40.getUnits node.mem p.body)).map
      fun e => (e.offset, .entry e)
  | .plain40 | .ctail40 =>
    (List.range (p.len - p.off)).map fun i =>
      (p.key.setOffset (u64 (p.key.offset + i)), .byte (node.mem (p.body + p.off + i)))
  | .extent40 =>
    (List.range (p.len / 16)).map fun i =>
      (p.key.setOffset (u64 (p.key.offset +
        extent40Offset node.size (unitsAt node.mem p.body (p.len / 16)) i)),
        .extent (unitAt node.mem p.body i))
  | _ => []

/-- The size of a file body item in bytes of the file: `units` of a tail, `extent40_offset` of all units
    of an extent item. -/
def fileSize (node : NodeBlock) (p : Place) : Nat :=
  match p.plug with
  | .extent40 => extent40Offset node.size (unitsAt node.mem p.body (p.len / 16)) (p.len / 16)
  | _ => p.len - p.off

/-- `body40_maxreal_key`. -/
def body40MaxrealKey (key : Key) (size : Nat) : Key :=
  key.setOffset (u64 (u64 (key.offset + size) + (two64 - 1)))

/-- `body40_mergeable`. -/
def body40Mergeable (node : NodeBlock) (l r : Place) : Bool :=
  let maxkey := body40MaxrealKey l.key (fileSize node l)
  decide (Key.compfull (maxkey.setOffset (u64 (maxkey.offset + 1))) r.key = 0)

/-- `ctail40_mergeable`: in one cluster, whose size is in the header of the item. -/
def ctail40Mergeable (node : NodeBlock) (l r : Place) : Bool :=
  let shift := (node.mem l.body).toNat
  decide (l.key.offset / 2 ^ shift = r.key.offset / 2 ^ shift) && body40Mergeable node l r

/-- `reiser4_item_mergeable`. -/
def mergeable (node : NodeBlock) (l r : Place) : Bool :=
  decide (l.plug = r.plug) &&
    match l.plug with
    | .cde40 => decide (Key.compshort l.key r.key = 0)
    | .plain40 | .extent40 => body40Mergeable node l r
    | .ctail40 => ctail40Mergeable node l r
    | _ => false

/-- An item whose body is what its plugin makes of it. -/
def ItemOk (pol : KeyPol) (mem : Bytes) (p : Place) : Prop :=
  match p.plug with
  | .cde40 => Cde40.WF pol mem p.body p.key.getLocality p.len
  | .extent40 => p.len % 16 = 0
  | .ctail40 => 1 ≤ p.len
  | _ => True

/-- A well-formed node: its items are well formed too. -/
structure Ok (pol : KeyPol) (node : NodeBlock) (hs : Nat) : Prop where
  wf : WF pol node hs
  items : ∀ i, i < getNumItems node → ∃ p, fetch pol node i = .ok p ∧ ItemOk pol node.mem p

/-- Two items of one directory have one locality. -/
theorem locality_of_compshort {a b : Key} (h : Key.compshort a b = 0) :
    a.getLocality = b.getLocality := by
  have hel : Key.compEl a.el0 b.el0 = 0 := by
    by_contra hne
    unfold Key.compshort at h
    rw [if_pos hne] at h
    exact hne h
  have heq : a.el0 = b.el0 := by
    unfold Key.compEl at hel
    by_cases h1 : a.el0 < b.el0
    · rw [if_pos h1] at hel
      exact absurd hel (by decide)
    · rw [if_neg h1] at hel
      by_contra h2
      rw [if_neg h2] at hel
      exact absurd hel (by decide)
  unfold Key.getLocality
  rw [heq]

theorem u64_add_u64 (a b : Nat) : u64 (u64 a + b) = u64 (a + b) := Nat.mod_add_mod _ _ _

theorem u64_add_u64_right (a b : Nat) : u64 (a + u64 b) = u64 (a + b) := Nat.add_mod_mod _ _ _

theorem offset_setOffset (k : Key) (v : Nat) : (k.setOffset v).offset = v := rfl

theorem setOffset_setOffset (k : Key) (v w : Nat) : (k.setOffset v).setOffset w = k.setOffset w := rfl

/-- File body items are fused where the right one goes on with the key that follows the left one. -/
theorem body40Mergeable_iff {node : NodeBlock} {l r : Place} : body40Mergeable node l r = true ↔
    r.key = l.key.setOffset (u64 (l.key.offset + fileSize node l)) := by
  have hoffset : u64 (u64 (u64 (l.key.offset + fileSize node l) + (two64 - 1)) + 1) =
      u64 (l.key.offset + fileSize node l) := by
    rw [u64_add_u64, Nat.add_assoc]
    unfold u64 two64
    omega
  have hmax : (body40MaxrealKey l.key (fileSize node l)).offset =
      u64 (u64 (l.key.offset + fileSize node l) + (two64 - 1)) := by
    unfold body40MaxrealKey
    exact offset_setOffset _ _
  have hset : ∀ v, (body40MaxrealKey l.key (fileSize node l)).setOffset v = l.key.setOffset v := by
    unfold body40MaxrealKey
    exact fun v => setOffset_setOffset _ _ _
  unfold body40Mergeable
  dsimp only
  rw [decide_eq_true_iff, Key.compfull_zero, hset, hmax, hoffset]
  exact eq_comm

/-- The units of two parts of an item, one after the other. -/
theorem range_add_map {α : Type} {f g h : Nat → α} {n m : Nat} (hg : ∀ i, i < n → f i = g i)
    (hh : ∀ i, i < m → f (n + i) = h i) :
    (List.range (n + m)).map f = (List.range n).map g ++ (List.range m).map h := by
  rw [List.range_add, List.map_append, List.map_map]
  congr 1
  · exact List.map_congr_left fun i hi => hg i (List.mem_range.mp hi)
  · exact List.map_congr_left fun i hi => hh i (List.mem_range.mp hi)

/-- The units of two extent items whose bodies are side by side. -/
theorem unitsAt_add {mem mem' : Bytes} {body n m : Nat}
    (h : ∀ a, a < 16 * (n + m) → mem' (body + a) = mem (body + a)) :
    unitsAt mem' body (n + m) = unitsAt mem body n ++ unitsAt mem (body + 16 * n) m := by
  refine range_add_map (fun i hi => ?_) fun i hi => ?_
  · refine unitAt_congr fun a ha => ?_
    rw [Nat.add_assoc]
    exact h _ (by omega)
  · refine unitAt_congr fun a ha => ?_
    rw [show body + 16 * n + 16 * i + a = body + (16 * (n + i) + a) by omega, Nat.add_assoc]
    exact h _ (by omega)

theorem extentBlocks_append (us vs : List ExtentUnit) (i : Nat) :
    Item.extentBlocks (us ++ vs) (us.length + i) =
      Item.extentBlocks us us.length + Item.extentBlocks vs i := by
  unfold Item.extentBlocks
  rw [List.take_append, List.take_of_length_le (by omega), Nat.add_sub_cancel_left, List.map_append,
    List.sum_append, List.take_length]

theorem extentBlocks_front (us vs : List ExtentUnit) {i : Nat} (hi : i ≤ us.length) :
    Item.extentBlocks (us ++ vs) i = Item.extentBlocks us i := by
  unfold Item.extentBlocks
  rw [List.take_append_of_le_length hi]

variable {node node' : NodeBlock} {l r : Place} {mem : Bytes} {space : Nat}

/-- The fused item of two file body items: the units of a tail. -/
theorem units_tail {b : Nat → UInt8} (m : Place)
    (hkey : r.key = l.key.setOffset (u64 (l.key.offset + (l.len - l.off)))) (hm : m.key = l.key)
    (hlen : m.len - m.off = l.len - l.off + (r.len - r.off))
    (hl : ∀ i, i < l.len - l.off → b i = node.mem (l.body + l.off + i))
    (hr : ∀ i, i < r.len - r.off → b (l.len - l.off + i) = node.mem (r.body + r.off + i)) :
    (List.range (m.len - m.off)).map (fun i =>
      (m.key.setOffset (u64 (m.key.offset + i)), UnitData.byte (b i))) =
    (List.range (l.len - l.off)).map (fun i =>
      (l.key.setOffset (u64 (l.key.offset + i)), UnitData.byte (node.mem (l.body + l.off + i)))) ++
    (List.range (r.len - r.off)).map (fun i =>
      (r.key.setOffset (u64 (r.key.offset + i)), UnitData.byte (node.mem (r.body + r.off + i)))) := by
  rw [hlen, hm]
  refine range_add_map (fun i hi => ?_) fun i hi => ?_
  · rw [hl i hi]
  · rw [hr i hi, hkey]
    show (l.key.setOffset _, _) = (l.key.setOffset (u64 (u64 _ + i)), _)
    rw [u64_add_u64, ← Nat.add_assoc l.key.offset]

/-- The space that the fusion of two items releases in the node: the number of units of a directory item,
    the header of a `ctail40` item. -/
def released : ItemPlug → Nat
  | .cde40 => 2
  | .ctail40 => 1
  | _ => 0

/-- What a plugin makes of two mergeable neighbours: `mem` and the released space are such that the units
    of the one item that is left are those of the left one and then those of the right one. -/
def Joins (pol : KeyPol) (node : NodeBlock) (l r : Place) (mem : Bytes) : Prop :=
  ∀ (node' : NodeBlock) (m : Place), node'.size = node.size → m.body = l.body →
    m.len = l.len + r.len - released l.plug → m.key = l.key → m.plug = l.plug → m.off = l.off →
    (∀ a, a < m.len → node'.mem (l.body + a) = mem (l.body + a)) →
    unitsOf pol node' m = unitsOf pol node l ++ unitsOf pol node r ∧ ItemOk pol node'.mem m

/-- Directory items. -/
theorem joins_cde40 {pol : KeyPol} (hside : r.body = l.body + l.len)
    (hfit : l.len + r.len ≤ maxBlksize) (hl : l.plug = .cde40) (hr : r.plug = .cde40)
    (hloc : l.key.getLocality = r.key.getLocality) (hlok : ItemOk pol node.mem l)
    (hrok : ItemOk pol node.mem r) :
    Joins pol node l r (Cde40.merge pol node.mem l.body l.len r.body r.len).1 := by
  intro node' m _ hbody hlen hkey hplug _ hbytes
  have hles : Cde40.WF pol node.mem l.body l.key.getLocality l.len := by
    unfold ItemOk at hlok
    rwa [hl] at hlok
  have hres : Cde40.WF pol node.mem r.body r.key.getLocality r.len := by
    unfold ItemOk at hrok
    rwa [hr] at hrok
  have hholds := hres.holds
  rw [hside, ← hloc] at hholds
  obtain ⟨hmerge, -⟩ := Cde40.merge_holds hles.holds hholds hfit
  rw [← hside] at hmerge
  have hspace : released l.plug = 2 := by rw [hl]; rfl
  rw [hspace] at hlen
  have hm := @Cde40.Holds.moved pol _ l.body l.key.getLocality (l.len + r.len - 2) _ hmerge node'.mem
    l.body fun a ha => hbytes a (by omega)
  constructor
  · unfold unitsOf
    rw [hplug, hl, hr, hbody, hkey]
    show (Cde40.unitsAt _ _ _ _ _ _).map _ = (Cde40.unitsAt _ _ _ _ _ _).map _ ++
      (Cde40.unitsAt _ _ _ _ _ _).map _
    rw [hm.unitsAt_eq, List.map_append, hside, hloc]
  · unfold ItemOk
    rw [hplug, hl, hbody, hkey, hlen]
    exact hm.wf

/-- Tails of files, that have nothing but their bytes. -/
theorem joins_plain40 {pol : KeyPol} (hside : r.body = l.body + l.len) (hl : l.plug = .plain40)
    (hr : r.plug = .plain40) (hol : l.off = 0) (hor : r.off = 0)
    (hmerge : body40Mergeable node l r = true) : Joins pol node l r node.mem := by
  intro node' m _ hbody hlen hkey hplug hoff hbytes
  have hspace : released l.plug = 0 := by rw [hl]; rfl
  have hsize : fileSize node l = l.len - l.off := by unfold fileSize; rw [hl]
  rw [body40Mergeable_iff, hsize] at hmerge
  constructor
  · unfold unitsOf
    rw [hplug, hl, hr, hbody]
    refine units_tail m hmerge hkey (by omega) (fun i hi => ?_) fun i hi => ?_
    · rw [hoff, Nat.add_assoc, hbytes _ (by omega)]
    · rw [hoff, show l.body + l.off + (l.len - l.off + i) = l.body + (l.len + i) by omega,
        hbytes _ (by omega)]
      congr 1
      omega
  · unfold ItemOk
    rw [hplug, hl]
    trivial

/-- Compressed tails: the header of the right one goes. -/
theorem joins_ctail40 {pol : KeyPol} (hside : r.body = l.body + l.len) (hl : l.plug = .ctail40)
    (hr : r.plug = .ctail40) (hol : l.off = 1) (hor : r.off = 1)
    (hmerge : body40Mergeable node l r = true) (hlok : ItemOk pol node.mem l)
    (hrok : ItemOk pol node.mem r) :
    Joins pol node l r (node.mem.move r.body (r.body + 1) (r.len - 1)) := by
  intro node' m _ hbody hlen hkey hplug hoff hbytes
  have hspace : released l.plug = 1 := by rw [hl]; rfl
  have hsize : fileSize node l = l.len - l.off := by unfold fileSize; rw [hl]
  have hl1 : 1 ≤ l.len := by
    unfold ItemOk at hlok
    rwa [hl] at hlok
  have hr1 : 1 ≤ r.len := by
    unfold ItemOk at hrok
    rwa [hr] at hrok
  rw [body40Mergeable_iff, hsize] at hmerge
  constructor
  · unfold unitsOf
    rw [hplug, hl, hr, hbody]
    refine units_tail m hmerge hkey (by omega) (fun i hi => ?_) fun i hi => ?_
    · rw [hoff, Nat.add_assoc, hbytes _ (by omega), Bytes.move_out _ _ _ _ _ (by omega)]
    · rw [hoff, show l.body + l.off + (l.len - l.off + i) = l.body + (l.len + i) by omega,
        hbytes _ (by omega), Bytes.move_in _ _ _ _ _ (by omega) (by omega)]
      congr 1
      omega
  · unfold ItemOk
    rw [hplug, hl]
    show 1 ≤ m.len
    omega

/-- Extents. -/
theorem joins_extent40 {pol : KeyPol} (hside : r.body = l.body + l.len) (hl : l.plug = .extent40)
    (hr : r.plug = .extent40) (hmerge : body40Mergeable node l r = true)
    (hlok : ItemOk pol node.mem l) (hrok : ItemOk pol node.mem r) : Joins pol node l r node.mem := by
  intro node' m hsize hbody hlen hkey hplug _ hbytes
  have hspace : released l.plug = 0 := by rw [hl]; rfl
  have hl16 : l.len % 16 = 0 := by
    unfold ItemOk at hlok
    rwa [hl] at hlok
  have hr16 : r.len % 16 = 0 := by
    unfold ItemOk at hrok
    rwa [hr] at hrok
  have hfile : fileSize node l =
      extent40Offset node.size (unitsAt node.mem l.body (l.len / 16)) (l.len / 16) := by
    unfold fileSize
    rw [hl]
  rw [body40Mergeable_iff, hfile] at hmerge
  have hcount : m.len / 16 = l.len / 16 + r.len / 16 := by omega
  have hunits : unitsAt node'.mem m.body (m.len / 16) =
      unitsAt node.mem l.body (l.len / 16) ++ unitsAt node.mem r.body (r.len / 16) := by
    rw [hbody, hcount, hside, show l.body + l.len = l.body + 16 * (l.len / 16) by omega]
    exact unitsAt_add fun a ha => hbytes a (by omega)
  have hlenl : (unitsAt node.mem l.body (l.len / 16)).length = l.len / 16 := unitsAt_length
  constructor
  · unfold unitsOf
    rw [hplug, hl, hr]
    show (List.range (m.len / 16)).map _ = (List.range (l.len / 16)).map _ ++
      (List.range (r.len / 16)).map _
    rw [hunits, hcount, hkey, hsize]
    refine range_add_map (fun i hi => ?_) fun i hi => ?_
    · have hunit : unitAt node'.mem m.body i = unitAt node.mem l.body i := by
        rw [hbody]
        refine unitAt_congr fun a ha => ?_
        rw [Nat.add_assoc]
        exact hbytes _ (by omega)
      unfold extent40Offset
      rw [hunit, extentBlocks_front _ _ (by omega)]
    · have hunit : unitAt node'.mem m.body (l.len / 16 + i) = unitAt node.mem r.body i := by
        rw [hbody]
        refine unitAt_congr fun a ha => ?_
        rw [show l.body + 16 * (l.len / 16 + i) + a = l.body + (l.len + 16 * i + a) by omega,
          hbytes _ (by omega), hside]
        congr 1
        omega
      have hblocks := extentBlocks_append (unitsAt node.mem l.body (l.len / 16))
        (unitsAt node.mem r.body (r.len / 16)) i
      rw [hlenl] at hblocks
      rw [hunit, hmerge]
      unfold extent40Offset
      show (l.key.setOffset _, _) = (l.key.setOffset (u64 (u64 _ + u64 _)), _)
      rw [hblocks, Nat.add_mul, u64_add_u64, u64_add_u64_right, u64_add_u64_right, Nat.add_right_comm,
        u64_add_u64_right, Nat.add_right_comm, Nat.add_assoc]
  · unfold ItemOk
    rw [hplug, hl]
    show m.len % 16 = 0
    omega

end Units

/-! ## The law -/

section Law

variable {pol : KeyPol} {node node' : NodeBlock} {hs left space : Nat} {mem : Bytes} {l r : Place}

/-- An item whose bytes have been moved is as well formed as it was. -/
theorem ItemOk.moved {mem' : Bytes} {p q : Place} (h : ItemOk pol mem p) (hplug : q.plug = p.plug)
    (hkey : q.key = p.key) (hlen : q.len = p.len)
    (hbytes : ∀ a, a < p.len → mem' (q.body + a) = mem (p.body + a)) : ItemOk pol mem' q := by
  unfold ItemOk at h ⊢
  rw [hplug, hlen, hkey]
  cases hp : p.plug with
  | cde40 =>
    rw [hp] at h
    have hwf : Cde40.WF pol mem p.body p.key.getLocality p.len := h
    exact (hwf.holds.moved hbytes).wf
  | extent40 => rwa [hp] at h
  | ctail40 => rwa [hp] at h
  | stat40 => trivial
  | nodeptr40 => trivial
  | plain40 => trivial
  | bbox40 => trivial

/-- The fields of a fetched item. -/
theorem WF.fetched (h : WF pol node hs) {i : Nat} (hi : i < getNumItems node) {p : Place}
    (hp : fetch pol node i = .ok p) :
    p.body = bound pol node i ∧ p.len = bound pol node (i + 1) - bound pol node i ∧
      p.key = ihGetKey pol node.mem (ihAt pol node i) ∧
      ifind (ihGetPid pol node.mem (ihAt pol node i)) = some p.plug ∧ p.off = initOff p.plug := by
  obtain ⟨plug, hplug, rfl⟩ := (h.fetch_eq hi).mp hp
  exact ⟨rfl, rfl, rfl, hplug, rfl⟩

/-- The place of an item tells its length and its bytes. -/
theorem item_body {i j : Nat} (h : item pol node' j = item pol node i) :
    bound pol node' (j + 1) - bound pol node' j = bound pol node (i + 1) - bound pol node i ∧
      ∀ a, a < bound pol node (i + 1) - bound pol node i →
        node'.mem (bound pol node' j + a) = node.mem (bound pol node i + a) := by
  have hbody : node'.mem.slice (bound pol node' j) (bound pol node' (j + 1) - bound pol node' j) =
      node.mem.slice (bound pol node i) (bound pol node (i + 1) - bound pol node i) :=
    congrArg RawItem.body h
  have hlen := congrArg List.length hbody
  rw [Bytes.slice_length, Bytes.slice_length] at hlen
  refine ⟨hlen, fun a ha => ?_⟩
  have hat := congrArg (fun l => l[a]?) hbody
  rw [Bytes.slice_getElem? _ _ _ _ (by omega), Bytes.slice_getElem? _ _ _ _ ha] at hat
  exact Option.some.inj hat

/-- An item that another node has with the same header and bytes is as well formed there. -/
theorem WF.item_ok (h : WF pol node hs) {hs' : Nat} (h' : WF pol node' hs') {i j : Nat}
    (hi : i < getNumItems node) (hj : j < getNumItems node')
    (hitem : item pol node' j = item pol node i) {p : Place} (hp : fetch pol node i = .ok p)
    (hok : ItemOk pol node.mem p) : ∃ q, fetch pol node' j = .ok q ∧ ItemOk pol node'.mem q := by
  obtain ⟨hbody, hlen, hkey, hplug, -⟩ := h.fetched hi hp
  obtain ⟨hlen', hbytes⟩ := item_body hitem
  have hkey' : ihGetKey pol node'.mem (ihAt pol node' j) = ihGetKey pol node.mem (ihAt pol node i) :=
    congrArg RawItem.key hitem
  have hpid : ihGetPid pol node'.mem (ihAt pol node' j) = ihGetPid pol node.mem (ihAt pol node i) :=
    congrArg RawItem.pid hitem
  refine ⟨_, (h'.fetch_eq hj).mpr ⟨p.plug, by rw [hpid, hplug], rfl⟩, ?_⟩
  refine hok.moved rfl (hkey'.trans hkey.symm) (hlen'.trans hlen.symm) fun a ha => ?_
  show node'.mem (bound pol node' j + a) = _
  rw [hbody]
  exact hbytes a (by omega)

/-- The items in front of the fused ones are as they were. -/
theorem Fused.item_front (hf : Fused pol node node' mem left space) (h : WF pol node hs)
    (hright : left + 1 < getNumItems node)
    (hspace : space ≤ bound pol node (left + 2) - bound pol node (left + 1))
    (hout : ∀ a, a < bound pol node left ∨ bound pol node (left + 2) ≤ a → mem a = node.mem a)
    {i : Nat} (hi : i < left) : item pol node' i = item pol node i := by
  have hheader := h.header
  have hstart := h.start
  have h0 := h.bound_mono (Nat.zero_le i) (by omega)
  have h1 := h.bound_mono (show i + 1 ≤ left by omega) (by omega)
  have h2 : bound pol node left < bound pol node (left + 1) := h.order left (by omega)
  have h3 : bound pol node (left + 1) < bound pol node (left + 2) := h.order (left + 1) hright
  obtain ⟨hkey, hflags, hpid⟩ := head_moved (hf.headFront i (by omega))
  unfold item
  rw [hf.ihAt_eq, hkey, hflags, hpid, hf.bound_front hright (Nat.le_of_lt hi),
    hf.bound_front hright (show i + 1 ≤ left from hi)]
  congr 1
  refine Bytes.slice_congr _ _ _ _ _ fun a ha => ?_
  rw [hf.bodyFront _ (by omega) (by omega), hout _ (Or.inl (by omega))]

/-- The items behind them have come one place up. -/
theorem Fused.item_back (hf : Fused pol node node' mem left space) (h : WF pol node hs)
    (hright : left + 1 < getNumItems node)
    (hspace : space ≤ bound pol node (left + 2) - bound pol node (left + 1))
    (hout : ∀ a, a < bound pol node left ∨ bound pol node (left + 2) ≤ a → mem a = node.mem a)
    {i : Nat} (hlo : left < i) (hi : i + 1 < getNumItems node) :
    item pol node' i = item pol node (i + 1) := by
  have h1 := h.bound_mono (show left + 2 ≤ i + 1 by omega) (by omega)
  have h2 := h.order (i + 1) hi
  have h3 := h.bound_mono (show i + 1 + 1 ≤ getNumItems node by omega) (Nat.le_refl _)
  have h4 : bound pol node (left + 1) < bound pol node (left + 2) := h.order (left + 1) hright
  rw [bound_top] at h3
  obtain ⟨hkey, hflags, hpid⟩ := head_moved (hf.headBack i hlo hi)
  unfold item
  rw [hf.ihAt_eq, hkey, hflags, hpid, hf.bound_back hlo (by omega),
    hf.bound_back (by omega) hi]
  congr 1
  rw [show bound pol node (i + 1 + 1) - space - (bound pol node (i + 1) - space) =
    bound pol node (i + 1 + 1) - bound pol node (i + 1) by omega]
  refine Bytes.slice_congr _ _ _ _ _ fun a ha => ?_
  rw [hf.bodyBack _ (by omega) (by omega), hout _ (Or.inr (by omega))]
  congr 1
  omega

/-- **What the plugins do to two mergeable neighbours.** -/
theorem Ok.joins (h : Ok pol node hs) (hright : left + 1 < getNumItems node)
    (hl : fetch pol node left = .ok l) (hr : fetch pol node (left + 1) = .ok r)
    (hmerge : mergeable node l r = true) :
    ∃ mem, (mergeMethod pol node.mem l r).getD (node.mem, 0) = (mem, released l.plug) ∧
      (∀ a, a < bound pol node left ∨ bound pol node (left + 2) ≤ a → mem a = node.mem a) ∧
      released l.plug ≤ bound pol node (left + 2) - bound pol node (left + 1) ∧
      Joins pol node l r mem := by
  have h1 : bound pol node left < bound pol node (left + 1) := h.wf.order left (by omega)
  have h2 : bound pol node (left + 1) < bound pol node (left + 2) := h.wf.order (left + 1) hright
  have h3 : bound pol node (left + 2) ≤ bound pol node (getNumItems node) :=
    h.wf.bound_mono hright (Nat.le_refl _)
  have hsmall := h.wf.small
  have hblk := maxBlksize_eq
  obtain ⟨hlbody, hllen, -, -, hloff⟩ := h.wf.fetched (Nat.lt_of_succ_lt hright) hl
  obtain ⟨hrbody, hrlen, -, -, hroff⟩ := h.wf.fetched hright hr
  obtain ⟨l', hl', hlok⟩ := h.items left (Nat.lt_of_succ_lt hright)
  obtain ⟨r', hr', hrok⟩ := h.items (left + 1) hright
  obtain rfl : l = l' := by rw [hl] at hl'; exact Except.ok.inj hl'
  obtain rfl : r = r' := by rw [hr] at hr'; exact Except.ok.inj hr'
  have hside : r.body = l.body + l.len := by omega
  have hrlen' : r.len = bound pol node (left + 2) - bound pol node (left + 1) := hrlen
  unfold mergeable at hmerge
  rw [Bool.and_eq_true, decide_eq_true_iff] at hmerge
  obtain ⟨hplug, hmerge⟩ := hmerge
  cases hp : l.plug with
  | cde40 =>
    rw [hp] at hmerge hplug
    have hloc := locality_of_compshort (of_decide_eq_true hmerge)
    have hlwf : Cde40.WF pol node.mem l.body l.key.getLocality l.len := by
      unfold ItemOk at hlok
      rwa [hp] at hlok
    have hrwf : Cde40.WF pol node.mem r.body r.key.getLocality r.len := by
      unfold ItemOk at hrok
      rwa [← hplug] at hrok
    have hlen := hrwf.holds.length
    have hfs := hrwf.holds
    rw [hside, ← hloc] at hfs
    have hframe := (Cde40.merge_holds hlwf.holds hfs (by omega)).2
    refine ⟨(Cde40.merge pol node.mem l.body l.len r.body r.len).1, ?_, ?_, ?_, ?_⟩
    · unfold mergeMethod
      rw [hp]
      rfl
    · intro a ha
      rw [hside]
      exact hframe a (by omega)
    · show 2 ≤ _
      omega
    · exact joins_cde40 hside (by omega) hp hplug.symm hloc hlok hrok
  | plain40 =>
    rw [hp] at hmerge hplug
    refine ⟨node.mem, ?_, fun _ _ => rfl, Nat.zero_le _, ?_⟩
    · unfold mergeMethod
      rw [hp]
      rfl
    · exact joins_plain40 hside hp hplug.symm (by rw [hloff, hp]; rfl) (by rw [hroff, ← hplug]; rfl) hmerge
  | ctail40 =>
    rw [hp] at hmerge hplug
    have hbody : body40Mergeable node l r = true := by
      have hboth : ctail40Mergeable node l r = true := hmerge
      unfold ctail40Mergeable at hboth
      exact ((Bool.and_eq_true _ _).mp hboth).2
    refine ⟨node.mem.move r.body (r.body + 1) (r.len - 1), ?_, ?_, ?_, ?_⟩
    · unfold mergeMethod
      rw [hp]
      rfl
    · intro a ha
      exact Bytes.move_out _ _ _ _ _ (by omega)
    · show 1 ≤ _
      omega
    · exact joins_ctail40 hside hp hplug.symm (by rw [hloff, hp]; rfl) (by rw [hroff, ← hplug]; rfl) hbody
        hlok hrok
  | extent40 =>
    rw [hp] at hmerge hplug
    refine ⟨node.mem, ?_, fun _ _ => rfl, Nat.zero_le _, ?_⟩
    · unfold mergeMethod
      rw [hp]
      rfl
    · exact joins_extent40 hside hp hplug.symm hmerge hlok hrok
  | stat40 => rw [hp] at hmerge; exact absurd hmerge Bool.false_ne_true
  | nodeptr40 => rw [hp] at hmerge; exact absurd hmerge Bool.false_ne_true
  | bbox40 => rw [hp] at hmerge; exact absurd hmerge Bool.false_ne_true

/-- The fused item, as it is fetched. -/
theorem Fused.fetch_left (hf : Fused pol node node' mem left space) (h : WF pol node hs)
    (hright : left + 1 < getNumItems node)
    (hspace : space ≤ bound pol node (left + 2) - bound pol node (left + 1))
    (hl : fetch pol node left = .ok l) (hr : fetch pol node (left + 1) = .ok r) :
    ∃ m, fetch pol node' left = .ok m ∧ m.body = l.body ∧ m.len = l.len + r.len - space ∧
      m.key = l.key ∧ m.plug = l.plug ∧ m.off = l.off := by
  have h1 : bound pol node left < bound pol node (left + 1) := h.order left (by omega)
  have h2 : bound pol node (left + 1) < bound pol node (left + 2) := h.order (left + 1) hright
  have hitems := hf.items
  obtain ⟨hkey, -, hpid⟩ := head_moved (hf.headFront left (Nat.le_refl _))
  obtain ⟨hlbody, hllen, hlkey, hlplug, hloff⟩ := h.fetched (Nat.lt_of_succ_lt hright) hl
  obtain ⟨-, hrlen, -, -, -⟩ := h.fetched hright hr
  have hrlen' : r.len = bound pol node (left + 2) - bound pol node (left + 1) := hrlen
  have hnext : bound pol node' (left + 1) = bound pol node (left + 2) - space :=
    hf.bound_back (Nat.lt_succ_self left) hright
  refine ⟨_, ((hf.wf h hright hspace).fetch_eq (by omega)).mpr ⟨l.plug, ?_, rfl⟩, ?_, ?_, ?_, rfl, ?_⟩
  · rw [hf.ihAt_eq, hpid, hlplug]
  · rw [hlbody]
    exact hf.bound_front hright (Nat.le_refl _)
  · show bound pol node' (left + 1) - bound pol node' left = _
    rw [hnext, hf.bound_front hright (Nat.le_refl _)]
    omega
  · rw [hlkey]
    show ihGetKey pol node'.mem (ihAt pol node' left) = _
    rw [hf.ihAt_eq, hkey]
  · exact hloff.symm

/-- **`node40_merge`** of two mergeable neighbours: one item is left with the units of the left one and
    then those of the right one, under the key and the flags of the left one; the other items stay as
    they were, and the header of the right one and what the plugin released is free. -/
theorem node40Merge_concatenates (h : Ok pol node hs) (hright : left + 1 < getNumItems node)
    (hl : fetch pol node left = .ok l) (hr : fetch pol node (left + 1) = .ok r)
    (hmerge : mergeable node l r = true) :
    ∃ node' m, merge pol node left (left + 1) = .ok node' ∧ Ok pol node' hs ∧
      getNumItems node' = getNumItems node - 1 ∧ fetch pol node' left = .ok m ∧ m.key = l.key ∧
      m.plug = l.plug ∧ (item pol node' left).flags = (item pol node left).flags ∧
      unitsOf pol node' m = unitsOf pol node l ++ unitsOf pol node r ∧
      getFreeSpace node' = getFreeSpace node + (released l.plug + ihSize pol) ∧
      (∀ i, i < left → item pol node' i = item pol node i) ∧
      (∀ i, left < i → i + 1 < getNumItems node → item pol node' i = item pol node (i + 1)) := by
  obtain ⟨mem, hplug, hout, hspace, hjoins⟩ := h.joins hright hl hr hmerge
  obtain ⟨node', hrun, hf⟩ := fused_merge h.wf hright hl hr hplug hout hspace
  have hitems := hf.items
  have hwf := hf.wf h.wf hright hspace
  obtain ⟨m, hm, hbody, hlen, hkey, hmplug, hoff⟩ := hf.fetch_left h.wf hright hspace hl hr
  have hfront : ∀ i, i < left → item pol node' i = item pol node i := fun i hi =>
    hf.item_front h.wf hright hspace hout hi
  have hback : ∀ i, left < i → i + 1 < getNumItems node →
      item pol node' i = item pol node (i + 1) := fun i hlo hi =>
    hf.item_back h.wf hright hspace hout hlo hi
  have h1 : bound pol node left < bound pol node (left + 1) := h.wf.order left (by omega)
  have h2 : bound pol node (left + 1) < bound pol node (left + 2) := h.wf.order (left + 1) hright
  have hstart : hs ≤ bound pol node left := by
    have := h.wf.bound_mono (Nat.zero_le left) (by omega)
    rwa [h.wf.start] at this
  have hheader := h.wf.header
  obtain ⟨hlbody, hllen, -, -, -⟩ := h.wf.fetched (Nat.lt_of_succ_lt hright) hl
  obtain ⟨-, hrlen, -, -, -⟩ := h.wf.fetched hright hr
  have hrlen' : r.len = bound pol node (left + 2) - bound pol node (left + 1) := hrlen
  obtain ⟨hunits, hok⟩ := hjoins node' m hf.size hbody hlen hkey hmplug hoff
    fun a ha => hf.bodyFront _ (by omega) (by omega)
  refine ⟨node', m, hrun, ⟨hwf, ?_⟩, hitems, hm, hkey, hmplug, ?_, hunits, hf.free, hfront, hback⟩
  · -- an item is well formed as the one it was, or is the fused one
    intro i hi
    rcases Nat.lt_trichotomy i left with hlt | heq | hgt
    · obtain ⟨p, hp, hpok⟩ := h.items i (by omega)
      exact h.wf.item_ok hwf (by omega) hi (hfront i hlt) hp hpok
    · rw [heq]
      exact ⟨m, hm, hok⟩
    · obtain ⟨p, hp, hpok⟩ := h.items (i + 1) (by omega)
      exact h.wf.item_ok hwf (by omega) hi (hback i hgt (by omega)) hp hpok
  · obtain ⟨-, hflags, -⟩ := head_moved (hf.headFront left (Nat.le_refl _))
    show ihGetFlags pol node'.mem (ihAt pol node' left) = _
    rw [hf.ihAt_eq, hflags]
    rfl

/-- Two tails of one byte each, the second with the key that follows the first. -/
def twoTails : NodeBlock where
  mem := (((((((((Bytes.zero.setLe 2 2 2).setLe 2 4 422).setLe 2 6 30).setLe 2 28 0x0907).setLe 2 506 28).setLe
    2 510 6).setLe 8 468 1).setLe 2 476 29).setLe 2 480 6)
  size := 512

theorem twoTails_ok : Ok .short twoTails 28 where
  wf :=
    { header := Nat.le_refl _
      start := by decide +kernel
      order := by decide +kernel
      space := by decide +kernel
      size := by decide +kernel }
  items := by
    intro i hi
    have hn : getNumItems twoTails = 2 := by decide +kernel
    obtain rfl | rfl : i = 0 ∨ i = 1 := by omega
    · exact ⟨⟨0, 28, 1, ⟨0, 0, 0, 0⟩, .plain40, 0⟩, by decide +kernel, trivial⟩
    · exact ⟨⟨1, 29, 1, ⟨0, 0, 0, 1⟩, .plain40, 0⟩, by decide +kernel, trivial⟩

theorem node40Merge_twoTails : ∃ node' m, merge .short twoTails 0 1 = .ok node' ∧
    Ok .short node' 28 ∧ getNumItems node' = 1 ∧ fetch .short node' 0 = .ok m ∧
    unitsOf .short node' m = [(⟨0, 0, 0, 0⟩, .byte 7), (⟨0, 0, 0, 1⟩, .byte 9)] := by
  obtain ⟨node', m, hrun, hok, hitems, hm, -, -, -, hunits, -⟩ :=
    node40Merge_concatenates twoTails_ok (show 0 + 1 < getNumItems twoTails by decide +kernel)
      (show fetch .short twoTails 0 = .ok ⟨0, 28, 1, ⟨0, 0, 0, 0⟩, .plain40, 0⟩ by decide +kernel)
      (show fetch .short twoTails 1 = .ok ⟨1, 29, 1, ⟨0, 0, 0, 1⟩, .plain40, 0⟩ by decide +kernel) (by decide +kernel)
  exact ⟨node', m, hrun, hok, hitems.trans (by decide +kernel), hm, hunits.trans (by decide +kernel)⟩

end Law

end Node40

end Reiser4
