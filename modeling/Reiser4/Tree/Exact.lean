/-
  Exactness of the tree lookup.

  The right answer to a search speaks of all units of the tree: the leftmost one that covers the key,
  or a place between those before the key and those after it.  What the search sees leaves out the
  items whose largest possible key is before the key, and `cde40_maxposs_key` gives a largest key
  that entries of the item may exceed: it fills up the low 60 bits of the objectid element and leaves
  the band, the high 4 bits, as it is in the item key.  So the answer is the right one exactly when no
  such item is in the way (`reiser4TreeLookup_exact_iff`).
-/
import Reiser4.Tree.Lookup

namespace Reiser4

open Reiser4.Lib

namespace Tree

variable {t : Tree} {k : Key}

/-! ## Exactness -/

/-- The key ranges of the units before a place. -/
def unitsBefore (t : Tree) (place : Place) : List URange :=
  match place.node with
  | none => []
  | some n => t.unitsOf (t.beforeItem (t.level n.blk) n place.pos.item) ++
      (((t.items n.blk)[place.pos.item]?.map (Item.ranges t.blksize)).getD []).take
        (place.pos.unit.getD 0)

/-- The right answer to a search: `PRESENT` when a unit covers the key, with the leftmost such unit;
    else `ABSENT`, with a place between the units before the key and those after it. -/
structure Exact (t : Tree) (k : Key) (res : Lookup) (place : Place) : Prop where
  present_iff : res = .present ↔ ∃ r ∈ t.units, r.Covers k
  leftmost : res = .present → ∃ r post, t.units = t.unitsBefore place ++ r :: post ∧ r.Covers k ∧
    ∀ x ∈ t.unitsBefore place, ¬ x.Covers k
  ordered : res = .absent → ∃ post, t.units = t.unitsBefore place ++ post ∧
    (∀ x ∈ t.unitsBefore place, x.hi < k) ∧ ∀ x ∈ post, k < x.lo

/-- The search for a key on the leaf level ends, with the right answer. -/
def LookupExact (t : Tree) (k : Key) : Prop :=
  ∃ bound, ∀ fuel, bound ≤ fuel → ∃ res place,
    (reiser4TreeLookup fuel ⟨k, leafLevel, none⟩ .exact).run t = some (.ok (res, place), t) ∧
      t.Exact k res place

/-- An item whose largest possible key is before the key has no unit that reaches the key. -/
def NoneHidden (t : Tree) (k : Key) : Prop :=
  ∀ s ∈ t.slots, s.1.pastMaxposs t.pol k = true →
    ∀ u, u < s.1.units → s.1.unitHi t.blksize u < k

theorem mem_unitsOf {ss : List Slot} {x : URange} :
    x ∈ t.unitsOf ss ↔ ∃ s ∈ ss, ∃ u, u < s.1.units ∧ s.1.range t.blksize u = x := by
  simp only [unitsOf, List.mem_flatMap, Item.mem_ranges]

/-- Units from a place on lie behind a key that is smaller than their item keys. -/
theorem lt_lo_of_lt_key (hw : t.WF) {ss : List Slot} (hsub : ∀ s ∈ ss, s ∈ t.slots)
    (hlt : ∀ s ∈ ss, k < s.1.key) : ∀ x ∈ t.unitsOf ss, k < x.lo := by
  intro x hx
  obtain ⟨s, hs, u, hu, rfl⟩ := mem_unitsOf.mp hx
  exact lt_of_lt_of_le (hlt s hs) ((hw.slot (hsub s hs)).2.key_le_unitKey hw.blksize_pos
    (hw.sorted (hsub s hs)) hu)

/-- With nothing hidden, the units passed by are those before the key. -/
theorem NoneHidden.hi_lt (hn : t.NoneHidden k) {ss : List Slot} (hsub : ∀ s ∈ ss, s ∈ t.slots)
    (hb : ∀ s ∈ ss, t.Below k s) : ∀ x ∈ t.unitsOf ss, x.hi < k := by
  intro x hx
  obtain ⟨s, hs, u, hu, rfl⟩ := mem_unitsOf.mp hx
  rcases hb s hs with hpast | hall
  · exact hn s (hsub s hs) hpast u hu
  · exact hall u hu

theorem Reaches.level_eq (hw : t.WF) {h : Nat} {node : NodeRef} (hr : t.Reaches (h + 1) node) :
    t.level node.blk = h + 1 := (hr.sound hw).level_eq

theorem mem_ranges_take {blksize : Nat} {it : Item} {u : Nat} {x : URange}
    (hx : x ∈ (it.ranges blksize).take u) :
    ∃ v, v < u ∧ v < it.units ∧ it.range blksize v = x := by
  obtain ⟨v, hv, rfl⟩ := List.mem_take_iff_getElem.mp hx
  rw [Item.ranges_length] at hv
  exact ⟨v, by omega, by omega, by simp [Item.ranges]⟩

theorem mem_ranges_drop {blksize : Nat} {it : Item} {u : Nat} {x : URange}
    (hx : x ∈ (it.ranges blksize).drop u) :
    ∃ v, u ≤ v ∧ v < it.units ∧ it.range blksize v = x := by
  obtain ⟨v, hv, rfl⟩ := List.mem_drop_iff_getElem.mp hx
  rw [Item.ranges_length] at hv
  exact ⟨u + v, by omega, by omega, by simp [Item.ranges]⟩

/-- The units around a place in an item. -/
theorem Reaches.units_eq (hw : t.WF) {h : Nat} {node : NodeRef} (hr : t.Reaches (h + 1) node)
    (pos : Pos) {it : Item} (hit : (t.items node.blk)[pos.item]? = some it)
    (hd : it.downLink = none) : t.units = t.unitsBefore ⟨some node, pos⟩ ++
      ((it.ranges t.blksize).drop (pos.unit.getD 0) ++
        t.unitsOf (t.afterItem (h + 1) node (pos.item + 1))) := by
  unfold units unitsBefore
  simp only [hr.level_eq hw, hit, Option.map_some, Option.getD_some]
  rw [hr.slots_eq_item hit hd, List.append_assoc,
    ← List.append_assoc ((it.ranges t.blksize).take _), List.take_append_drop]
  simp only [unitsOf, List.flatMap_append, List.flatMap_cons]

/-- The units before a place in an item. -/
theorem Reaches.unitsBefore_eq (hw : t.WF) {h : Nat} {node : NodeRef} (hr : t.Reaches (h + 1) node)
    (pos : Pos) {it : Item} (hit : (t.items node.blk)[pos.item]? = some it) :
    t.unitsBefore ⟨some node, pos⟩ = t.unitsOf (t.beforeItem (h + 1) node pos.item) ++
      (it.ranges t.blksize).take (pos.unit.getD 0) := by
  unfold unitsBefore
  simp only [hr.level_eq hw, hit, Option.map_some, Option.getD_some]

theorem Reaches.unitsBefore_none (hw : t.WF) {h : Nat} {node : NodeRef}
    (hr : t.Reaches (h + 1) node) (i : Nat) : t.unitsBefore ⟨some node, ⟨i, none⟩⟩ =
      t.unitsOf (t.beforeItem (h + 1) node i) := by
  unfold unitsBefore
  simp only [hr.level_eq hw, Option.getD_none, List.take_zero, List.append_nil]

/-- A miss with the units before and after it in order is exact. -/
theorem exact_of_split {place : Place} {post : List URange}
    (heq : t.units = t.unitsBefore place ++ post) (hlo : ∀ x ∈ t.unitsBefore place, x.hi < k)
    (hup : ∀ x ∈ post, k < x.lo) : t.Exact k .absent place where
  present_iff := by
    refine ⟨fun h => by simp at h, ?_⟩
    rintro ⟨r, hr, h1, h2⟩
    rw [heq] at hr
    rcases List.mem_append.mp hr with hr | hr
    · exact absurd (lt_of_le_of_lt h2 (hlo r hr)) (lt_irrefl k)
    · exact absurd (lt_of_lt_of_le (hup r hr) h1) (lt_irrefl k)
  leftmost h := by simp at h
  ordered _ := ⟨post, heq, hlo, hup⟩

/-- With nothing hidden, an answer that the search sees is the right one. -/
theorem Sees.exact (hw : t.WF) (hn : t.NoneHidden k) {res : Lookup} {place : Place}
    (hs : t.Sees k res place) : t.Exact k res place := by
  cases hs with
  | @found h node pos it hh hbefore =>
    obtain ⟨hu, hc, hless⟩ := hh.found
    have hlen : pos.unit.getD 0 < (it.ranges t.blksize).length := by
      rw [Item.ranges_length]
      exact hu
    have hunits := hh.reaches.units_eq hw pos hh.item hh.plain
    have hget : (it.ranges t.blksize)[pos.unit.getD 0] = it.range t.blksize (pos.unit.getD 0) := by
      simp [Item.ranges]
    rw [List.drop_eq_getElem_cons hlen, hget, List.cons_append] at hunits
    refine ⟨⟨fun _ => ⟨_, ?_, hc⟩, fun _ => rfl⟩, fun _ => ⟨_, _, hunits, hc, ?_⟩,
      fun h => by simp at h⟩
    · rw [hunits]
      exact List.mem_append_right _ List.mem_cons_self
    · intro x hx hcov
      rw [hh.reaches.unitsBefore_eq hw pos hh.item] at hx
      have hlt : x.hi < k := by
        rcases List.mem_append.mp hx with hx | hx
        · exact hn.hi_lt (fun s hs => mem_slots_left hh.slots_eq hs) hbefore x hx
        · obtain ⟨v, hv, -, rfl⟩ := mem_ranges_take hx
          exact hless v hv
      exact absurd (lt_of_le_of_lt hcov.2 hlt) (lt_irrefl k)
  | @within h node i u it hr hit hplain hpast hmiss hbefore hafter =>
    obtain ⟨-, hlo, hup⟩ := hmiss
    have hcut := hr.slots_eq_item hit hplain
    refine exact_of_split (hr.units_eq hw ⟨i, some u⟩ hit hplain) ?_ ?_
    · intro x hx
      rw [hr.unitsBefore_eq hw ⟨i, some u⟩ hit] at hx
      rcases List.mem_append.mp hx with hx | hx
      · exact hn.hi_lt (fun s hs => mem_slots_left hcut hs) hbefore x hx
      · obtain ⟨v, hv, -, rfl⟩ := mem_ranges_take hx
        exact hlo v hv
    · intro x hx
      rcases List.mem_append.mp hx with hx | hx
      · obtain ⟨v, huv, hv, rfl⟩ := mem_ranges_drop hx
        exact hup v huv hv
      · exact lt_lo_of_lt_key hw (fun s hs => mem_slots_right hcut (List.mem_cons_of_mem _ hs))
          hafter x hx
  | @between h node i hr hbefore hafter =>
    have hcut := hr.slots_eq_place i
    have hunits : t.units = t.unitsBefore ⟨some node, ⟨i, none⟩⟩ ++
        t.unitsOf (t.afterItem (h + 1) node i) := by
      rw [hr.unitsBefore_none hw, units, hcut]
      simp only [unitsOf, List.flatMap_append]
    refine exact_of_split hunits ?_ ?_
    · rw [hr.unitsBefore_none hw]
      exact hn.hi_lt (fun s hs => mem_slots_left hcut hs) hbefore
    · exact lt_lo_of_lt_key hw (fun s hs => mem_slots_right hcut hs) hafter
  | @fresh pos hroot =>
    have hunits : t.units = [] := by simp [units, slots, hroot, unitsOf]
    have hsplit : t.units = t.unitsBefore ⟨none, pos⟩ ++ [] := hunits
    exact exact_of_split hsplit
      (fun x hx => absurd hx List.not_mem_nil) (fun x hx => absurd hx List.not_mem_nil)

/-- A right answer that the search sees leaves nothing hidden. -/
theorem Sees.noneHidden (hw : t.WF) {res : Lookup} {place : Place} (hs : t.Sees k res place)
    (he : t.Exact k res place) : t.NoneHidden k := by
  intro s hmem hpast u hu
  by_contra hge
  have hge := not_lt.mp hge
  have hkey := hw.key_lt_of_past hmem hpast
  have hx : ∀ {ss : List Slot}, s ∈ ss → s.1.range t.blksize u ∈ t.unitsOf ss :=
    fun hs => mem_unitsOf.mpr ⟨s, hs, u, hu, rfl⟩
  cases hs with
  | @found h node pos it hh hbefore =>
    have hcut := hh.slots_eq
    rw [hcut] at hmem
    rcases List.mem_append.mp hmem with hs | hs
    · -- left of the hit: the unit ends at the key, so it covers it
      obtain ⟨r, post, -, -, hless⟩ := he.leftmost rfl
      rw [hh.reaches.unitsBefore_eq hw pos hh.item] at hless
      refine hless _ (List.mem_append_left _ (hx hs)) ⟨?_, hge⟩
      calc s.1.unitKey t.blksize u ≤ s.1.unitHi t.blksize u :=
            (hw.slot (mem_slots_left hcut hs)).2.unitKey_le_hi hw.blksize_pos hu
        _ ≤ it.key := hw.hi_le_key hcut hs List.mem_cons_self hu
        _ ≤ k := hh.key_le hw
    · rcases List.mem_cons.mp hs with rfl | hs
      · simp [hh.notPast] at hpast
      · -- right of the hit: it begins behind the key
        have hcut' : t.slots = (t.beforeItem (h + 1) node pos.item ++ [(it, pos.item)]) ++
            t.afterItem (h + 1) node (pos.item + 1) := by
          rw [hcut]
          simp
        obtain ⟨hu0, hc, -⟩ := hh.found
        have h1 := hw.hi_le_key hcut' (List.mem_append_right _ (List.mem_singleton.mpr rfl)) hs hu0
        exact absurd (lt_of_le_of_lt (le_trans hc.2 h1) hkey) (lt_irrefl k)
  | @within h node i u' it hr hit hplain hpast' hmiss hbefore hafter =>
    rw [hr.slots_eq_item hit hplain] at hmem
    rcases List.mem_append.mp hmem with hs | hs
    · obtain ⟨post, -, hlo, -⟩ := he.ordered rfl
      rw [hr.unitsBefore_eq hw ⟨i, some u'⟩ hit] at hlo
      exact absurd (lt_of_le_of_lt hge (hlo _ (List.mem_append_left _ (hx hs)))) (lt_irrefl k)
    · rcases List.mem_cons.mp hs with rfl | hs
      · simp [hpast'] at hpast
      · exact lt_asymm hkey (hafter s hs)
  | @between h node i hr hbefore hafter =>
    rw [hr.slots_eq_place i] at hmem
    rcases List.mem_append.mp hmem with hs | hs
    · obtain ⟨post, -, hlo, -⟩ := he.ordered rfl
      rw [hr.unitsBefore_none hw] at hlo
      exact absurd (lt_of_le_of_lt hge (hlo _ (hx hs))) (lt_irrefl k)
    · exact lt_asymm hkey (hafter s hs)
  | fresh hroot => simp [slots, hroot] at hmem

/-- **Tree lookup is exact**, where it compares no entry that it cannot read, exactly when no item
    that may not hold the key, by its largest possible key, has a unit that reaches it. -/
theorem reiser4TreeLookup_exact_iff (t : Tree) (hw : t.WF) (k : Key) (hread : t.Reads k) :
    t.LookupExact k ↔ t.NoneHidden k := by
  constructor
  · rintro ⟨bound, hrun⟩
    obtain ⟨res, place, hrun1, he⟩ := hrun _ (Nat.le_max_left bound t.fuelBound)
    obtain ⟨res', place', hrun2, hs⟩ :=
      reiser4TreeLookup_sees hw hread (Nat.le_max_right bound t.fuelBound)
    have heq := hrun1.symm.trans hrun2
    simp only [Option.some.injEq, Prod.mk.injEq, Except.ok.injEq, and_true] at heq
    obtain ⟨rfl, rfl⟩ := heq
    exact hs.noneHidden hw he
  · intro hn
    refine ⟨t.fuelBound, fun fuel hfuel => ?_⟩
    obtain ⟨res, place, hrun, hs⟩ := reiser4TreeLookup_sees hw hread hfuel
    exact ⟨res, place, hrun, hs.exact hw hn⟩

/-! ## A directory with a hidden entry -/

/-- Only directory items hide units: the largest key of a file body item has the largest offset. -/
theorem cde_of_hidden {pol : KeyPol} {blksize : Nat} {it : Item} (hw : it.WF pol blksize)
    (hpast : it.pastMaxposs pol k = true) {u : Nat} (hu : u < it.units)
    (hge : k ≤ it.unitHi blksize u) : it.plug = .cde40 := by
  obtain ⟨m, hm, hlt⟩ := Item.pastMaxposs_eq_true.mp hpast
  have hbody : ∀ off : Nat, off ≤ maxUint64 → m = Item.body40MaxpossKey pol it.key →
      it.unitHi blksize u ≠ it.key.setOffset off := by
    intro off hoff hmeq heq
    rw [heq] at hge
    refine absurd (lt_of_lt_of_le hlt hge) ?_
    rw [hmeq, Item.body40MaxpossKey, not_lt, Key.maximal_offset]
    exact (Item.setOffset_le_iff (k := it.key.setOffset off) ⟨rfl, rfl, rfl⟩ _).mpr hoff
  unfold Item.plug
  cases hb : it.body with
  | cde40 es => rfl
  | stat40 d => simp [Item.maxpossKey, hb] at hm
  | bbox40 d => simp [Item.maxpossKey, hb] at hm
  | nodeptr40 p => simp [Item.maxpossKey, hb] at hm
  | plain40 ds =>
    have hlen : u < ds.length := by simpa [Item.units, hb] using hu
    have hfit := hw.tail ds (Or.inl hb)
    simp only [Item.maxpossKey, hb, Option.some.injEq] at hm
    exact absurd (by simp [Item.unitHi, Item.unitKey, hb])
      (hbody (it.key.offset + u) (le_maxUint64 (by omega)) hm.symm)
  | ctail40 s ds =>
    have hlen : u < ds.length := by simpa [Item.units, hb] using hu
    have hfit := hw.tail ds (Or.inr ⟨s, hb⟩)
    simp only [Item.maxpossKey, hb, Option.some.injEq] at hm
    exact absurd (by simp [Item.unitHi, Item.unitKey, hb])
      (hbody (it.key.offset + u) (le_maxUint64 (by omega)) hm.symm)
  | extent40 us =>
    have hlen : u + 1 ≤ us.length := by
      rw [Item.units, hb] at hu
      exact hu
    have hfit := (hw.extent us hb).2
    have hmono := Nat.mul_le_mul_right blksize (Item.extentBlocks_mono us hlen)
    simp only [Item.maxpossKey, hb, Option.some.injEq] at hm
    exact absurd (by simp [Item.unitHi, hb])
      (hbody (it.key.offset + Item.extentBlocks us (u + 1) * blksize - 1)
        (le_maxUint64 (by omega)) hm.symm)

instance (a b : URange) : Decidable (a.Before b) :=
  inferInstanceAs (Decidable (a.hi < b.lo ∨ a.lo = a.hi ∧ a.hi = b.lo ∧ b.lo = b.hi))

/-- A directory item with the entries "." and a long name: seven bytes 255, then "AAAAAAAAAAAAAAAAA"
    and an extension of one byte 255.  Its ordering is all ones, its band is 4. -/
def bandItem : Item where
  key := ⟨1048576, 0, 0, 0⟩
  flags := 0
  body := .cde40
    [⟨0, 0, 0, (42, 0, 65536), []⟩,
     ⟨maxUint64, 4702111234474983745, 1311768467463790320, (65536, 0, 65537),
       List.replicate 7 255 ++ List.replicate 17 65 ++ [46, 255]⟩]

/-- The key of the long name. -/
def bandKey : Key := ⟨1048576, maxUint64, 4702111234474983745, 1311768467463790320⟩

/-- A twig node with one pointer to a leaf with that item. -/
def bandTree : Tree where
  store blk :=
    if blk = 23 then some ⟨2, [⟨⟨1048576, 0, 0, 0⟩, 0, .nodeptr40 24⟩]⟩
    else if blk = 24 then some ⟨1, [bandItem]⟩
    else none
  root := some 23
  height := 2
  blksize := 4096
  pol := .large

theorem bandItem_wf : bandItem.WF .large 4096 where
  key_fits := ⟨by decide, by decide, by decide, by decide, by decide⟩
  units_pos := by decide
  key_first := by decide
  cde es hb := by
    simp only [bandItem, Body.cde40.injEq] at hb
    subst hb
    refine ⟨by decide, ?_⟩
    intro e he
    simp only [List.mem_cons, List.not_mem_nil, or_false] at he
    rcases he with rfl | rfl
    · exact ⟨by decide, by decide, by decide, by decide, by decide⟩
    · exact ⟨by decide, by decide, by decide, by decide, by decide⟩
  tail ds hb := by
    rcases hb with hb | ⟨s, hb⟩ <;> simp [bandItem] at hb
  extent us hb := by simp [bandItem] at hb

theorem bandTree_wf : bandTree.WF where
  blksize := by decide
  sound r hr := by
    have hr23 : 23 = r := Option.some.inj hr
    subst hr23
    refine ⟨_, rfl, rfl, ?_⟩
    intro it hit
    rw [List.mem_singleton.mp hit]
    refine ⟨by decide, _, rfl, rfl, ?_⟩
    intro it hit
    rw [List.mem_singleton.mp hit]
    exact ⟨bandItem_wf, Or.inl rfl⟩
  ordered := by decide

/-- The name "." is found where it is. -/
theorem reiser4TreeLookup_exact_dot :
    bandTree.WF ∧ bandTree.NoneHidden ⟨1048576, 0, 0, 0⟩ ∧
      bandTree.LookupExact ⟨1048576, 0, 0, 0⟩ := by
  have hn : bandTree.NoneHidden ⟨1048576, 0, 0, 0⟩ := by
    unfold NoneHidden
    decide
  exact ⟨bandTree_wf, hn, (reiser4TreeLookup_exact_iff bandTree bandTree_wf _
    (reads_of_large rfl _)).mpr hn⟩

/-- The long name is there, and is not found: the search gives a place behind the item, whatever
    the fuel. -/
theorem reiser4TreeLookup_misses_band :
    bandTree.WF ∧ (∃ r ∈ bandTree.units, r.Covers bandKey) ∧
      ((reiser4TreeLookup 5 ⟨bandKey, leafLevel, none⟩ .exact).run bandTree).map
          (fun r => r.1.toOption) =
        some (some (.absent, ⟨some ⟨24, [(23, 0)]⟩, ⟨1, none⟩⟩)) ∧
      ¬ bandTree.LookupExact bandKey := by
  refine ⟨bandTree_wf, ?_, by decide +kernel, ?_⟩
  · refine ⟨⟨bandKey, bandKey⟩, ?_, le_refl _, le_refl _⟩
    decide
  · rintro ⟨bound, hrun⟩
    obtain ⟨res, place, hrun1, he⟩ := hrun _ (Nat.le_max_left bound bandTree.fuelBound)
    obtain ⟨res', place', hrun2, hs⟩ :=
      reiser4TreeLookup_sees bandTree_wf (reads_of_large rfl bandKey) (Nat.le_max_right bound bandTree.fuelBound)
    have heq := hrun1.symm.trans hrun2
    simp only [Option.some.injEq, Prod.mk.injEq, Except.ok.injEq, and_true] at heq
    obtain ⟨rfl, rfl⟩ := heq
    have hn := hs.noneHidden bandTree_wf he (bandItem, 0) (by decide) (by decide) 1
      (by decide)
    exact absurd hn (by decide)

end Tree
end Reiser4
