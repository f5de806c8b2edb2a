/-
  Key order along the leaves.

  The search-tree invariant speaks of the units of all items in one sequence.  The searches see items
  and node borders, so the lemmas here carry the order over to them: between two items
  (`WF.hi_le_key`), to the item keys of one node (`Reaches.keysSorted`), and to what is left and right
  of a place whose item, pointer or not, has a given key (`Reaches.before_le`, `Reaches.le_after`).
-/
import Reiser4.Tree.Walk

namespace Reiser4

theorem le_maxUint64 {n : Nat} (h : n < two64) : n ≤ maxUint64 := by
  unfold two64 at h
  unfold maxUint64
  omega

/-- A key that fits is not after the largest possible key of its directory item. -/
theorem Key.le_cde40MaxpossKey {pol : KeyPol} {k : Key} (hf : k.Fits pol) :
    k ≤ Item.cde40MaxpossKey pol k := by
  have hel2 := Key.le_setObjectid_maximal pol (k.setOrdering pol (Key.maximal pol).ordering)
  have hoff : k.offset ≤ (Key.maximal pol).offset := by
    rw [Key.maximal_offset]
    exact le_maxUint64 hf.offset
  have hord : k.ordering ≤ (k.setOrdering pol (Key.maximal pol).ordering).ordering := by
    cases pol with
    | short => exact Nat.le_refl _
    | large => exact le_maxUint64 hf.ordering
  have h2 : (k.setOrdering pol (Key.maximal pol).ordering).el2 = k.el2 := by cases pol <;> rfl
  have h0 : (k.setOrdering pol (Key.maximal pol).ordering).el0 = k.el0 := by cases pol <;> rfl
  unfold Item.cde40MaxpossKey
  generalize (Key.maximal pol).offset = off at hoff
  generalize (Key.maximal pol).getObjectid = obj at hel2
  generalize k.setOrdering pol (Key.maximal pol).ordering = k' at *
  rw [← not_lt, Key.lt_iff, Key.setOffset_el0, Key.setOffset_ordering, Key.setOffset_el2,
    Key.setOffset_offset, Key.setObjectid_el0, Key.setObjectid_ordering]
  omega

namespace Item

/-! ## Units of a well-formed item -/

/-- The unit covers at least its own key. -/
theorem WF.unitKey_le_hi {pol : KeyPol} {blksize : Nat} {it : Item} (hblk : 0 < blksize)
    (hw : it.WF pol blksize) {u : Nat} (hu : u < it.units) :
    it.unitKey blksize u ≤ it.unitHi blksize u := by
  by_cases hp : it.plug = .extent40
  · obtain ⟨us, hb⟩ : ∃ us, it.body = .extent40 us := by
      unfold plug at hp
      cases hb : it.body <;> simp [hb, Body.plug] at hp ⊢
    have hlen : u < us.length := by simpa [units, hb] using hu
    have hx := List.getElem?_eq_getElem hlen
    have hpos : 0 < us[u].width * blksize :=
      Nat.mul_pos ((hw.extent us hb).1 _ (List.mem_of_getElem? hx)) hblk
    have hsum := extentBlocks_succ hx
    simp only [unitKey, unitHi, hb]
    rw [hsum, Nat.add_mul, ← not_lt, Key.lt_iff]
    simp only [Key.setOffset]
    omega
  · rw [unitHi_of_ne_extent hp]

/-- An extent unit covers more than one key. -/
theorem WF.unitKey_lt_hi {pol : KeyPol} {blksize : Nat} {it : Item} (hblk : 1 < blksize)
    (hw : it.WF pol blksize) (hp : it.plug = .extent40) {u : Nat} (hu : u < it.units) :
    it.unitKey blksize u < it.unitHi blksize u := by
  obtain ⟨us, hb⟩ : ∃ us, it.body = .extent40 us := by
    unfold plug at hp
    cases hb : it.body <;> simp [hb, Body.plug] at hp ⊢
  have hlen : u < us.length := by simpa [units, hb] using hu
  have hx := List.getElem?_eq_getElem hlen
  have hpos : blksize ≤ us[u].width * blksize :=
    Nat.le_mul_of_pos_left _ ((hw.extent us hb).1 _ (List.mem_of_getElem? hx))
  have hsum := extentBlocks_succ hx
  simp only [unitKey, unitHi, hb]
  rw [hsum, Nat.add_mul, Key.lt_iff]
  refine Or.inr ⟨rfl, Or.inr ⟨rfl, Or.inr ⟨rfl, ?_⟩⟩⟩
  simp only [Key.setOffset]
  omega

/-- The item key is the smallest of its unit keys. -/
theorem WF.key_le_unitKey {pol : KeyPol} {blksize : Nat} {it : Item} (hblk : 0 < blksize)
    (hw : it.WF pol blksize) (hs : it.Sorted blksize) {u : Nat} (hu : u < it.units) :
    it.key ≤ it.unitKey blksize u := by
  cases u with
  | zero => rw [hw.key_first]
  | succ u =>
    calc it.key = it.unitKey blksize 0 := hw.key_first.symm
      _ ≤ it.unitHi blksize 0 := hw.unitKey_le_hi hblk hw.units_pos
      _ ≤ it.unitKey blksize (u + 1) := (hs.before (Nat.succ_pos u) hu).hi_le

/-- The item key is a possible one. -/
theorem WF.key_le_maxposs {pol : KeyPol} {blksize : Nat} {it : Item} (hw : it.WF pol blksize)
    {m : Key} (hm : it.maxpossKey pol = some m) : it.key ≤ m := by
  have hf := hw.key_fits
  have hbody : it.key ≤ body40MaxpossKey pol it.key := by
    rw [body40MaxpossKey, ← not_lt, lt_setOffset_iff ⟨rfl, rfl, rfl⟩, Key.maximal_offset, not_lt]
    exact le_maxUint64 hf.offset
  unfold maxpossKey at hm
  cases hb : it.body with
  | stat40 d => simp [hb] at hm
  | bbox40 d => simp [hb] at hm
  | nodeptr40 p => simp [hb] at hm
  | cde40 es =>
    simp only [hb, Option.some.injEq] at hm
    rw [← hm]
    exact Key.le_cde40MaxpossKey hf
  | plain40 ds =>
    simp only [hb, Option.some.injEq] at hm
    rw [← hm]
    exact hbody
  | ctail40 s ds =>
    simp only [hb, Option.some.injEq] at hm
    rw [← hm]
    exact hbody
  | extent40 us =>
    simp only [hb, Option.some.injEq] at hm
    rw [← hm]
    exact hbody

/-- A non-branch item without a largest key has one unit, with the item key. -/
theorem single_of_maxposs_none {pol : KeyPol} (blksize : Nat) {it : Item}
    (hm : it.maxpossKey pol = none) : it.units = 1 ∧ it.unitHi blksize 0 = it.key := by
  unfold maxpossKey at hm
  cases hb : it.body <;> simp [hb] at hm <;> simp [units, unitHi, unitKey, hb]

/-- A unit that covers a key is of an item of the same object. -/
theorem WF.compshort_of_covers {pol : KeyPol} {blksize : Nat} {it : Item} (hw : it.WF pol blksize)
    {u : Nat} (hu : u < it.units) {k : Key} (hc : (it.range blksize u).Covers k) :
    Key.compshort it.key k = 0 := by
  obtain ⟨h1, h2⟩ := hc
  simp only [range] at h1 h2
  cases hb : it.body with
  | stat40 d =>
    simp only [unitHi, unitKey, hb] at h1 h2
    rw [le_antisymm h1 h2]
    exact Key.compshort_self _
  | bbox40 d =>
    simp only [unitHi, unitKey, hb] at h1 h2
    rw [le_antisymm h1 h2]
    exact Key.compshort_self _
  | nodeptr40 p =>
    simp only [unitHi, unitKey, hb] at h1 h2
    rw [le_antisymm h1 h2]
    exact Key.compshort_self _
  | cde40 es =>
    -- a file name key: only the locality counts
    have hlen : u < es.length := by simpa [units, hb] using hu
    simp only [unitHi, unitKey, hb, List.getElem?_eq_getElem hlen, Option.map_some,
      Option.getD_some] at h1 h2
    have hk := le_antisymm h1 h2
    have hmin := (hw.cde es hb).1
    have hel0 : it.key.el0 = k.el0 := by
      rw [← hk]
      simp only [hashKey, Key.buildFilename, Key.getLocality]
      unfold Key.getMinor at hmin
      simp only [Key.filenameMinor] at hmin ⊢
      omega
    simp [Key.compshort, Key.compEl, hel0, hmin]
  | plain40 ds =>
    simp only [unitHi, unitKey, hb] at h1 h2
    rw [← le_antisymm h1 h2]
    simp [Key.compshort, Key.compEl, Key.setOffset]
  | ctail40 s ds =>
    simp only [unitHi, unitKey, hb] at h1 h2
    rw [← le_antisymm h1 h2]
    simp [Key.compshort, Key.compEl, Key.setOffset]
  | extent40 us =>
    simp only [unitHi, unitKey, hb] at h1 h2
    have h1' := not_lt.mpr h1
    have h2' := not_lt.mpr h2
    rw [Key.lt_iff] at h1' h2'
    simp only [Key.setOffset] at h1' h2'
    have h0 : it.key.el0 = k.el0 := by omega
    have ho : it.key.ordering = k.ordering := by omega
    have h3 : it.key.el2 = k.el2 := by omega
    simp [Key.compshort, Key.compEl, h0, ho, h3]

end Item

namespace Tree

variable {t : Tree}

/-! ## Order between items -/

/-- All units of one item are before all units of the other. -/
def SlotBefore (t : Tree) (a b : Slot) : Prop :=
  ∀ x ∈ a.1.ranges t.blksize, ∀ y ∈ b.1.ranges t.blksize, x.Before y

theorem WF.pairwise (hw : t.WF) : (∀ s ∈ t.slots, s.1.Sorted t.blksize) ∧
    t.slots.Pairwise t.SlotBefore :=
  List.pairwise_flatMap.mp hw.ordered

/-- The items of a sound subtree are no branches, and well formed. -/
theorem slotsBelow_plain : ∀ (h blk : Nat), t.Sound h blk → ∀ s ∈ t.slotsBelow h blk,
    s.1.downLink = none ∧ s.1.WF t.pol t.blksize := by
  intro h
  induction h with
  | zero =>
    intro blk hs
    exact absurd hs id
  | succ h ih =>
    intro blk hs s hmem
    rw [slotsBelow, List.mem_flatMap] at hmem
    obtain ⟨x, hx, hmem⟩ := hmem
    have hit : x.1 ∈ t.items blk := by
      obtain ⟨i, hi⟩ := List.mem_iff_getElem?.mp hx
      rw [List.getElem?_zipIdx] at hi
      cases hg : (t.items blk)[i]? with
      | none => simp [hg] at hi
      | some it =>
        have : (it, 0 + i) = x := by simpa [hg] using hi
        rw [← this]
        exact List.mem_of_getElem? hg
    cases hd : x.1.downLink with
    | none =>
      rw [expand_of_none _ hd, List.mem_singleton] at hmem
      rw [hmem]
      exact ⟨hd, (hs.plain hit hd).1⟩
    | some c =>
      rw [expand_of_some _ hd] at hmem
      exact ih c (hs.child hit hd).2 s hmem

theorem WF.slot (hw : t.WF) {s : Slot} (hs : s ∈ t.slots) :
    s.1.downLink = none ∧ s.1.WF t.pol t.blksize := by
  unfold slots at hs
  cases hr : t.root with
  | none => simp [hr] at hs
  | some r =>
    rw [hr] at hs
    exact slotsBelow_plain _ _ (hw.sound r hr) s hs

theorem WF.sorted (hw : t.WF) {s : Slot} (hs : s ∈ t.slots) : s.1.Sorted t.blksize :=
  hw.pairwise.1 s hs

theorem WF.blksize_pos (hw : t.WF) : 0 < t.blksize := Nat.lt_trans Nat.one_pos hw.blksize

/-- What is left of a cut is before what is right of it. -/
theorem WF.before_of_cut (hw : t.WF) {pre post : List Slot} (hcut : t.slots = pre ++ post)
    {a b : Slot} (ha : a ∈ pre) (hb : b ∈ post) : t.SlotBefore a b := by
  have hp := hw.pairwise.2
  rw [hcut, List.pairwise_append] at hp
  exact hp.2.2 a ha b hb

theorem mem_slots_left {pre post : List Slot} (hcut : t.slots = pre ++ post) {a : Slot}
    (ha : a ∈ pre) : a ∈ t.slots := by
  rw [hcut]
  exact List.mem_append_left _ ha

theorem mem_slots_right {pre post : List Slot} (hcut : t.slots = pre ++ post) {b : Slot}
    (hb : b ∈ post) : b ∈ t.slots := by
  rw [hcut]
  exact List.mem_append_right _ hb

/-- Units left of a cut end at or before the item keys right of it. -/
theorem WF.hi_le_key (hw : t.WF) {pre post : List Slot} (hcut : t.slots = pre ++ post)
    {a b : Slot} (ha : a ∈ pre) (hb : b ∈ post) {u : Nat} (hu : u < a.1.units) :
    a.1.unitHi t.blksize u ≤ b.1.key := by
  have hbw := (hw.slot (mem_slots_right hcut hb)).2
  have hbefore := hw.before_of_cut hcut ha hb _ (Item.mem_ranges.mpr ⟨u, hu, rfl⟩) _
    (Item.mem_ranges.mpr ⟨0, hbw.units_pos, rfl⟩)
  calc a.1.unitHi t.blksize u ≤ b.1.unitKey t.blksize 0 := hbefore.hi_le
    _ = b.1.key := hbw.key_first

/-- The item key is no larger than the end of any unit. -/
theorem WF.key_le_hi (hw : t.WF) {s : Slot} (hs : s ∈ t.slots) {u : Nat} (hu : u < s.1.units) :
    s.1.key ≤ s.1.unitHi t.blksize u :=
  le_trans ((hw.slot hs).2.key_le_unitKey hw.blksize_pos (hw.sorted hs) hu)
    ((hw.slot hs).2.unitKey_le_hi hw.blksize_pos hu)

/-- Item keys are in order across a cut. -/
theorem WF.key_le_key (hw : t.WF) {pre post : List Slot} (hcut : t.slots = pre ++ post)
    {a b : Slot} (ha : a ∈ pre) (hb : b ∈ post) : a.1.key ≤ b.1.key := by
  have hpos := (hw.slot (mem_slots_left hcut ha)).2.units_pos
  exact le_trans (hw.key_le_hi (mem_slots_left hcut ha) hpos) (hw.hi_le_key hcut ha hb hpos)

/-! ## Order around a place -/

/-- The first item below a node has the leftmost key of the node. -/
theorem slotsBelow_head : ∀ (h blk : Nat) (it : Item), t.Sound h blk →
    (t.items blk)[0]? = some it → ∃ s rest, t.slotsBelow h blk = s :: rest ∧ s.1.key = it.key := by
  intro h
  induction h with
  | zero =>
    intro blk it hs
    exact absurd hs id
  | succ h ih =>
    intro blk it hs hit
    have hmem := List.mem_of_getElem? hit
    have hexp : t.slotsBelow (h + 1) blk = expand (t.slotsBelow h) (it, 0) ++
        ((t.items blk).zipIdx.drop 1).flatMap (expand (t.slotsBelow h)) := by
      rw [← flatMap_drop hit]
      rfl
    rw [hexp]
    cases hd : it.downLink with
    | none =>
      rw [expand_of_none _ (s := (it, 0)) hd]
      exact ⟨_, _, rfl, rfl⟩
    | some c =>
      obtain ⟨hkey, hsc⟩ := hs.child hmem hd
      obtain ⟨it', hit', hk'⟩ := leftmostKey_eq_some hkey
      obtain ⟨s, rest, hrest, hk⟩ := ih c it' hsc hit'
      rw [expand_of_some _ (s := (it, 0)) hd, hrest]
      exact ⟨s, _, rfl, hk.trans hk'⟩

/-- The first item from a place on has the key of the item there. -/
theorem Reaches.afterItem_head (hw : t.WF) {h : Nat} {node : NodeRef} (hr : t.Reaches (h + 1) node)
    {i : Nat} {it : Item} (hit : (t.items node.blk)[i]? = some it) :
    ∃ s rest, t.afterItem (h + 1) node i = s :: rest ∧ s.1.key = it.key := by
  have hmem := List.mem_of_getElem? hit
  rw [afterItem_eq hit]
  cases hd : it.downLink with
  | none =>
    rw [expand_of_none _ (s := (it, i)) hd]
    exact ⟨_, _, rfl, rfl⟩
  | some c =>
    obtain ⟨hkey, hsc⟩ := (hr.sound hw).child hmem hd
    obtain ⟨it', hit', hk'⟩ := leftmostKey_eq_some hkey
    obtain ⟨s, rest, hrest, hk⟩ := slotsBelow_head h c it' hsc hit'
    rw [expand_of_some _ (s := (it, i)) hd, Nat.add_sub_cancel, hrest]
    exact ⟨s, _, rfl, hk.trans hk'⟩

/-- Everything left of a place ends at or before the key of the item there. -/
theorem Reaches.before_le (hw : t.WF) {h : Nat} {node : NodeRef} (hr : t.Reaches (h + 1) node)
    {i : Nat} {it : Item} (hit : (t.items node.blk)[i]? = some it) {s : Slot}
    (hs : s ∈ t.beforeItem (h + 1) node i) {u : Nat} (hu : u < s.1.units) :
    s.1.unitHi t.blksize u ≤ it.key := by
  obtain ⟨b, rest, hb, hk⟩ := hr.afterItem_head hw hit
  rw [← hk]
  refine hw.hi_le_key (hr.slots_eq_place i) hs ?_ hu
  rw [hb]
  exact List.mem_cons_self

/-- Everything from a place on has item keys no smaller than the one there. -/
theorem Reaches.le_after (hw : t.WF) {h : Nat} {node : NodeRef} (hr : t.Reaches (h + 1) node)
    {i : Nat} {it : Item} (hit : (t.items node.blk)[i]? = some it) {s : Slot}
    (hs : s ∈ t.afterItem (h + 1) node i) : it.key ≤ s.1.key := by
  obtain ⟨b, rest, hb, hk⟩ := hr.afterItem_head hw hit
  rw [hb] at hs
  rw [← hk]
  rcases List.mem_cons.mp hs with rfl | hs
  · exact le_refl _
  · have hcut : t.slots = (t.beforeItem (h + 1) node i ++ [b]) ++ rest := by
      rw [hr.slots_eq_place i, hb, List.append_assoc]
      rfl
    exact hw.key_le_key hcut (List.mem_append_right _ (List.mem_singleton.mpr rfl)) hs

/-- From a later place on there is less. -/
theorem afterItem_subset {h : Nat} {node : NodeRef} {i j : Nat} (hij : i ≤ j) {s : Slot}
    (hs : s ∈ t.afterItem h node j) : s ∈ t.afterItem h node i := by
  unfold afterItem at hs ⊢
  rcases List.mem_append.mp hs with hs | hs
  · obtain ⟨x, hx, hs⟩ := List.mem_flatMap.mp hs
    refine List.mem_append_left _ (List.mem_flatMap.mpr ⟨x, ?_, hs⟩)
    exact List.drop_subset_drop_left _ hij hx
  · exact List.mem_append_right _ hs

/-- The item keys of a node are in order. -/
theorem Reaches.keysSorted (hw : t.WF) {h : Nat} {node : NodeRef} (hr : t.Reaches (h + 1) node) :
    KeysSorted (t.items node.blk) := by
  unfold KeysSorted
  rw [List.pairwise_iff_getElem]
  intro i j hi hj hij
  have ha := List.getElem?_eq_getElem hi
  have hb := List.getElem?_eq_getElem hj
  obtain ⟨s, rest, hs, hk⟩ := hr.afterItem_head hw hb
  rw [← hk]
  refine hr.le_after hw ha (afterItem_subset (Nat.le_of_lt hij) ?_)
  rw [hs]
  exact List.mem_cons_self

/-- When the keys behind a place in its node are larger than `k`, and those right of the node, so
    are all item keys from there on. -/
theorem Reaches.lt_after (hw : t.WF) {h : Nat} {node : NodeRef} (hr : t.Reaches (h + 1) node)
    {i : Nat} {k : Key} (hafter : ∀ j b, i ≤ j → (t.items node.blk)[j]? = some b → k < b.key)
    (hpath : ∀ s ∈ t.afterPath (h + 1) node.up, k < s.1.key) {s : Slot}
    (hs : s ∈ t.afterItem (h + 1) node i) : k < s.1.key := by
  by_cases hi : i < (t.items node.blk).length
  · have hit := List.getElem?_eq_getElem hi
    exact lt_of_lt_of_le (hafter i _ (Nat.le_refl i) hit) (hr.le_after hw hit hs)
  · rw [afterItem_all _ _ (Nat.not_lt.mp hi)] at hs
    exact hpath s hs

end Tree
end Reiser4
