/-
  Exactness of the directory lookup.

  A search for a name is exact when it answers `PRESENT` just when some entry with the key of the name
  carries the name, and then with the place of such an entry.  The walk over colliding entries decides
  at the first item whose entry read differs from the unit it stands on or carries the name, and it
  also stops, past the end, at an item with fewer entries than the one before it.  `Settles` follows
  the items the same way and says for each kind of stop when it is right;
  `dir40Search_exact_iff` is that the search is exact if and only if the walk settles the name, as far
  as the hashes of the entries can be read (`ReadsName`).
-/
import Reiser4.Dir40.Search

namespace Reiser4

open Reiser4.Lib

namespace Tree

variable {t : Tree} {k : Key} {beyond : Item → Nat → Entry} {name : List UInt8}

/-- No entry with the key carries the name. -/
def Nobody (t : Tree) (k : Key) (name : List UInt8) : Prop :=
  ∀ s ∈ t.slots, ∀ u, ¬ s.1.Carries t.pol u k name

/-- The right answer to the search for a name with that key. -/
structure NameExact (t : Tree) (k : Key) (name : List UInt8) (res : Lookup) (place : Place) :
    Prop where
  present_iff : res = .present ↔ ∃ s ∈ t.slots, ∃ u, s.1.Carries t.pol u k name
  entry : res = .present → ∃ n it, place.node = some n ∧
    (t.items n.blk)[place.pos.item]? = some it ∧
      it.Carries t.pol (place.pos.unit.getD 0) k name

/-- The items right of one with `prev` entries that did not decide settle the name: the next item
    decides, and its first entry is one with the name; or it does not, is not shorter, and the
    items right of it settle the name; or there is none, and no entry carries the name. -/
def SettlesRight (t : Tree) (beyond : Item → Nat → Entry) (k : Key) (name : List UInt8) :
    Nat → List Slot → Prop
  | _, [] => t.Nobody k name
  | prev, s :: rest =>
    if s.1.plug ≠ .cde40 then t.Nobody k name
    else if s.1.Decides beyond t.pol t.blksize name s.2 0 then s.1.Carries t.pol 0 k name
    else if s.1.units < prev then False
    else SettlesRight t beyond k name s.1.units rest

/-- The items from one on, entered at a unit, settle the name. -/
def Settles (t : Tree) (beyond : Item → Nat → Entry) (k : Key) (name : List UInt8) (s : Slot)
    (u : Nat) (rest : List Slot) : Prop :=
  if s.1.Decides beyond t.pol t.blksize name s.2 u then s.1.Carries t.pol u k name
  else t.SettlesRight beyond k name s.1.units rest

/-- The leftmost unit with the key, as the tree lookup sees it, with the items left and right of its
    item. -/
structure Leftmost (t : Tree) (k : Key) (pre : List Slot) (s : Slot) (rest : List Slot) (u : Nat) :
    Prop where
  cut : t.slots = pre ++ s :: rest
  notPast : s.1.pastMaxposs t.pol k = false
  found : Item.FoundIn t.blksize s.1 k u
  below : ∀ x ∈ pre, t.Below k x

/-- What the search needs: the leftmost unit with the key is a directory entry and the items from it
    on settle the name; or there is none, and no entry carries the name. -/
def SearchSettles (t : Tree) (beyond : Item → Nat → Entry) (k : Key) (name : List UInt8) : Prop :=
  (∃ pre s rest u, t.Leftmost k pre s rest u ∧ s.1.plug = .cde40 ∧
    t.Settles beyond k name s u rest) ∨
  ((∀ pre s rest u, ¬ t.Leftmost k pre s rest u) ∧ t.Nobody k name)

/-! ## Right answers -/

theorem nameExact_absent {place : Place} : t.NameExact k name .absent place ↔ t.Nobody k name := by
  constructor
  · intro h s hs u hc
    have := h.present_iff.mpr ⟨s, hs, u, hc⟩
    simp at this
  · intro h
    refine ⟨⟨fun h => by simp at h, ?_⟩, fun h => by simp at h⟩
    rintro ⟨s, hs, u, hc⟩
    exact absurd hc (h s hs u)

theorem nameExact_present {node : NodeRef} {pos : Pos} {s : Slot} (hs : s ∈ t.slots)
    (hit : (t.items node.blk)[pos.item]? = some s.1) :
    t.NameExact k name .present ⟨some node, pos⟩ ↔
      s.1.Carries t.pol (pos.unit.getD 0) k name := by
  constructor
  · intro h
    obtain ⟨n, it, hn, hi, hc⟩ := h.entry rfl
    have hnode : node = n := Option.some.inj hn
    rw [← hnode, hit] at hi
    rw [Option.some.inj hi]
    exact hc
  · intro hc
    exact ⟨⟨fun _ => ⟨s, hs, _, hc⟩, fun _ => rfl⟩, fun _ => ⟨node, s.1, rfl, hit, hc⟩⟩

/-- A directory item that is in the tree is on the leaf level. -/
theorem Reaches.leaf_of_cde (hw : t.WF) {h : Nat} {node : NodeRef} (hr : t.Reaches (h + 1) node)
    {i : Nat} {it : Item} (hit : (t.items node.blk)[i]? = some it) (hp : it.plug = .cde40) :
    h = 0 := by
  have hd : it.downLink = none := by
    unfold Item.plug at hp
    unfold Item.downLink
    cases hb : it.body <;> simp [hb, Body.plug] at hp ⊢
  rcases ((hr.sound hw).plain (List.mem_of_getElem? hit) hd).2 with h0 | ⟨-, hext⟩
  · exact h0
  · rw [hp] at hext
    simp at hext

/-! ## The walk over the items -/

/-- **The collision loop** past the end of an item: its answer is right exactly when the items to the
    right settle the name. -/
theorem treeCollisionLoop_spec (hw : t.WF) (hlarge : t.pol = .large) {nextFuel : Nat} (hnext : t.height ≤ nextFuel) :
    ∀ (rest : List Slot) (fuel : Nat) (node : NodeRef) (item : Nat) (it : Item),
      t.Reaches 1 node → (t.items node.blk)[item]? = some it → it.plug = .cde40 →
      t.afterItem 1 node (item + 1) = rest → rest.length < fuel →
      ∃ res place, (treeCollisionLoop beyond ⟨.dir, name⟩ nextFuel fuel node item (some it.units)
          it).run t = some (.ok (res, place), t) ∧
        (t.NameExact k name res place ↔ t.SettlesRight beyond k name it.units rest) := by
  intro rest
  induction rest with
  | nil =>
    intro fuel node item it hr hit hp hrest hfuel
    obtain ⟨fuel, rfl⟩ : ∃ f, fuel = f + 1 := ⟨fuel - 1, by simp at hfuel; omega⟩
    have hn := reiser4TreeNextPlace_spec hw hnext hr item
    rw [Nat.zero_add, hrest] at hn
    refine ⟨.absent, ⟨some node, ⟨item, some it.units⟩⟩, ?_, nameExact_absent⟩
    have hcur : (collisionPlace nextFuel node item (some it.units) it).run t =
        some (.ok none, t) := by
      simp only [collisionPlace, Option.any_some, ge_iff_le, Nat.le_refl, decide_true, if_true,
        Run.get_bind]
      rw [Run.bind_of_ok (Run.orFail_of_ok hn)]
      rfl
    rw [treeCollisionLoop, Run.get_bind, Run.bind_of_ok hcur]
    rfl
  | cons s rest ih =>
    intro fuel node item it hr hit hp hrest hfuel
    obtain ⟨fuel, rfl⟩ : ∃ f, fuel = f + 1 := ⟨fuel - 1, by simp at hfuel; omega⟩
    have hn := reiser4TreeNextPlace_spec hw hnext hr item
    rw [Nat.zero_add, hrest] at hn
    obtain ⟨n, h', hrun, hreach, hsit, hafter⟩ := hn
    have hmem : s ∈ t.slots := by
      have hin : s ∈ t.afterItem 1 node (item + 1) := by
        rw [hrest]
        exact List.mem_cons_self
      exact mem_slots_right (hr.slots_eq_place (item + 1)) hin
    by_cases hsp : s.1.plug = .cde40
    · -- the next directory item, entered at its first entry
      have hh0 := hreach.leaf_of_cde hw hsit hsp
      subst hh0
      have hpos := (hw.slot hmem).2.units_pos
      have hitpos : 0 < it.units := by
        have hin : (it, item) ∈ t.slots := by
          rw [hr.slots_eq_item hit (hr.leaf_plain hw hit)]
          simp
        exact (hw.slot hin).2.units_pos
      have hcur : (collisionPlace nextFuel node item (some it.units) it).run t =
          some (.ok (some (n, s.2, some 0, s.1)), t) := by
        simp only [collisionPlace, Option.any_some, ge_iff_le, Nat.le_refl, decide_true, if_true,
          Run.get_bind]
        rw [Run.bind_of_ok (Run.orFail_of_ok hrun)]
        simp only [hsit, hsp, hp, if_true]
        rfl
      obtain ⟨answer, hunit⟩ := Item.collision_unit beyond hlarge t.blksize hsp s.2 (some 0) hpos
        ⟨.dir, name⟩
      rw [treeCollisionLoop, Run.get_bind, Run.bind_of_ok hcur]
      simp only [hunit, Option.getD_some, Option.any_some, SettlesRight, hsp, ne_eq, not_true_eq_false,
        if_false]
      by_cases hdec : s.1.Decides beyond t.pol t.blksize name s.2 0
      · simp only [if_pos hdec, hitpos, decide_true, if_true]
        exact ⟨.present, _, rfl, nameExact_present hmem hsit⟩
      · simp only [if_neg hdec]
        by_cases hshort : s.1.units < it.units
        · -- shorter than the item before it: a place behind its last entry
          simp only [hshort, decide_true, if_true]
          refine ⟨.present, _, rfl, (nameExact_present hmem hsit).trans ?_⟩
          refine iff_of_false (fun hc => ?_) id
          have := hc.unit t.blksize
          exact absurd this.2.1 (Nat.lt_irrefl _)
        · simp only [hshort, decide_false, if_false]
          exact ih fuel n s.2 s.1 hreach hsit hsp hafter (by simp at hfuel; omega)
    · refine ⟨.absent, ⟨some node, ⟨item, some it.units⟩⟩, ?_, ?_⟩
      · have hcur : (collisionPlace nextFuel node item (some it.units) it).run t =
            some (.ok none, t) := by
          simp only [collisionPlace, Option.any_some, ge_iff_le, Nat.le_refl, decide_true, if_true,
            Run.get_bind]
          rw [Run.bind_of_ok (Run.orFail_of_ok hrun)]
          simp only [hsit, hsp, hp, if_false]
          rfl
        rw [treeCollisionLoop, Run.get_bind, Run.bind_of_ok hcur]
        rfl
      · rw [nameExact_absent, SettlesRight, if_pos hsp]

/-- The collision handler at the leftmost entry with the key. -/
theorem reiser4TreeCollision_spec (hw : t.WF) (hlarge : t.pol = .large) {fuel : Nat} (hfuel : t.fuelBound ≤ fuel)
    {node : NodeRef} {pos : Pos} {it : Item} (hh : t.Hit k 0 node pos it) (hp : it.plug = .cde40) :
    ∃ res place, (reiser4TreeCollision beyond fuel ⟨.dir, name⟩ ⟨some node, pos⟩).run t =
        some (.ok (res, place), t) ∧
      (t.NameExact k name res place ↔ t.Settles beyond k name (it, pos.item) (pos.unit.getD 0)
        (t.afterItem 1 node (pos.item + 1))) := by
  unfold fuelBound at hfuel
  obtain ⟨fuel, rfl⟩ : ∃ f, fuel = f + 1 := ⟨fuel - 1, by omega⟩
  have hu := hh.found.1
  have hmem : (it, pos.item) ∈ t.slots := by
    rw [hh.slots_eq]
    simp
  have hlen : (t.afterItem 1 node (pos.item + 1)).length < fuel := by
    have := congrArg List.length hh.slots_eq
    simp only [List.length_append, List.length_cons, Nat.zero_add] at this
    omega
  have hused : ¬ pos.unit.any (fun u => decide (u ≥ it.units)) = true := by
    cases hpu : pos.unit with
    | none => simp
    | some u =>
      rw [hpu] at hu
      simpa using hu
  have hcur : (collisionPlace (fuel + 1) node pos.item pos.unit it).run t =
      some (.ok (some (node, pos.item, pos.unit, it)), t) := by
    rw [collisionPlace, if_neg hused]
    rfl
  obtain ⟨answer, hunit⟩ := Item.collision_unit beyond hlarge t.blksize hp pos.item pos.unit hu
    ⟨.dir, name⟩
  have hgroup : it.plug.group = .dir := by rw [hp]; rfl
  simp only [reiser4TreeCollision, Run.get_bind, hh.item, hgroup, ne_eq, not_true_eq_false,
    if_false]
  rw [treeCollisionLoop, Run.get_bind, Run.bind_of_ok hcur]
  simp only [hunit, Option.any_some, Settles]
  by_cases hdec : it.Decides beyond t.pol t.blksize name pos.item (pos.unit.getD 0)
  · simp only [if_pos hdec, hu, decide_true, if_true]
    exact ⟨.present, _, rfl, nameExact_present hmem hh.item⟩
  · simp only [if_neg hdec, Nat.lt_irrefl, decide_false]
    exact treeCollisionLoop_spec hw hlarge (by omega) _ fuel node pos.item it hh.reaches hh.item hp rfl
      hlen

/-! ## The search -/

/-- There is one leftmost unit at most. -/
theorem Leftmost.unique {pre pre' rest rest' : List Slot} {s s' : Slot} {u u' : Nat}
    (h : t.Leftmost k pre s rest u) (h' : t.Leftmost k pre' s' rest' u') :
    pre = pre' ∧ s = s' ∧ rest = rest' ∧ u = u' := by
  -- an item that is passed by has no unit with the key
  have hno : ∀ {p r q : List Slot} {x : Slot} {v : Nat}, t.Leftmost k p x r v → x ∈ q →
      ¬ ∀ y ∈ q, t.Below k y := by
    intro p r q x v hx hmem hall
    rcases hall x hmem with hpast | hlt
    · rw [hx.notPast] at hpast
      simp at hpast
    · exact absurd (lt_of_le_of_lt hx.found.2.1.2 (hlt v hx.found.1)) (lt_irrefl k)
  have hcut := h.cut.symm.trans h'.cut
  rcases List.append_eq_append_iff.mp hcut with ⟨a, ha, hb⟩ | ⟨a, ha, hb⟩
  · cases a with
    | nil =>
      simp only [List.append_nil, List.nil_append, List.cons.injEq] at ha hb
      obtain ⟨rfl, rfl⟩ := hb
      refine ⟨ha.symm, rfl, rfl, ?_⟩
      rcases Nat.lt_trichotomy u u' with hlt | heq | hlt
      · exact absurd (lt_of_le_of_lt h.found.2.1.2 (h'.found.2.2 u hlt)) (lt_irrefl k)
      · exact heq
      · exact absurd (lt_of_le_of_lt h'.found.2.1.2 (h.found.2.2 u' hlt)) (lt_irrefl k)
    | cons x a =>
      simp only [List.cons_append, List.cons.injEq] at hb
      refine absurd h'.below (hno h ?_)
      rw [ha, hb.1]
      simp
  · cases a with
    | nil =>
      simp only [List.append_nil, List.nil_append, List.cons.injEq] at ha hb
      obtain ⟨rfl, rfl⟩ := hb
      refine ⟨ha, rfl, rfl, ?_⟩
      rcases Nat.lt_trichotomy u u' with hlt | heq | hlt
      · exact absurd (lt_of_le_of_lt h.found.2.1.2 (h'.found.2.2 u hlt)) (lt_irrefl k)
      · exact heq
      · exact absurd (lt_of_le_of_lt h'.found.2.1.2 (h.found.2.2 u' hlt)) (lt_irrefl k)
    | cons x a =>
      simp only [List.cons_append, List.cons.injEq] at hb
      refine absurd h.below (hno h' ?_)
      rw [ha, hb.1]
      simp

theorem Hit.leftmost {h : Nat} {node : NodeRef} {pos : Pos} {it : Item}
    (hh : t.Hit k h node pos it) (hbelow : ∀ s ∈ t.beforeItem (h + 1) node pos.item, t.Below k s) :
    t.Leftmost k (t.beforeItem (h + 1) node pos.item) (it, pos.item)
      (t.afterItem (h + 1) node (pos.item + 1)) (pos.unit.getD 0) :=
  ⟨hh.slots_eq, hh.notPast, hh.found, hbelow⟩

/-- After a miss that the search sees there is no unit with the key to be seen. -/
theorem Sees.no_leftmost (hw : t.WF) {place : Place} (hs : t.Sees k .absent place)
    (pre : List Slot) (s : Slot) (rest : List Slot) (u : Nat) : ¬ t.Leftmost k pre s rest u := by
  intro hl
  have hmem : s ∈ t.slots := by
    rw [hl.cut]
    simp
  have hbelow : ¬ t.Below k s := by
    rintro (hpast | hlt)
    · rw [hl.notPast] at hpast
      simp at hpast
    · exact absurd (lt_of_le_of_lt hl.found.2.1.2 (hlt u hl.found.1)) (lt_irrefl k)
  have habove : ¬ k < s.1.key := fun hlt => absurd (lt_of_lt_of_le hlt (le_trans
    ((hw.slot hmem).2.key_le_unitKey hw.blksize_pos (hw.sorted hmem) hl.found.1) hl.found.2.1.1))
    (lt_irrefl k)
  cases hs with
  | @within h node i u' it hr hit hplain hpast hmiss hbefore hafter =>
    rw [hr.slots_eq_item hit hplain] at hmem
    rcases List.mem_append.mp hmem with hs | hs
    · exact hbelow (hbefore s hs)
    · rcases List.mem_cons.mp hs with rfl | hs
      · obtain ⟨hu, ⟨h1, h2⟩, -⟩ := hl.found
        rcases Nat.lt_or_ge u u' with hlt | hge
        · exact absurd (lt_of_le_of_lt h2 (hmiss.2.1 u hlt)) (lt_irrefl k)
        · exact absurd (lt_of_lt_of_le (hmiss.2.2 u hge hu) h1) (lt_irrefl k)
      · exact habove (hafter s hs)
  | @between h node i hr hbefore hafter =>
    rw [hr.slots_eq_place i] at hmem
    rcases List.mem_append.mp hmem with hs | hs
    · exact hbelow (hbefore s hs)
    · exact habove (hafter s hs)
  | fresh hroot => simp [slots, hroot] at hmem

/-- A hit that is no directory entry is never right. -/
theorem not_nameExact_of_plug {h : Nat} {node : NodeRef} {pos : Pos} {it : Item}
    (hh : t.Hit k h node pos it) (hp : it.plug ≠ .cde40) :
    ¬ t.NameExact k name .present ⟨some node, pos⟩ := by
  have hmem : (it, pos.item) ∈ t.slots := by
    rw [hh.slots_eq]
    simp
  rw [nameExact_present hmem hh.item]
  intro hc
  exact hp (hc.unit t.blksize).1

/-- With a leftmost unit in hand, what the search needs is about that one. -/
theorem Leftmost.searchSettles_iff {pre rest : List Slot} {s : Slot} {u : Nat}
    (hl : t.Leftmost k pre s rest u) : t.SearchSettles beyond k name ↔
      s.1.plug = .cde40 ∧ t.Settles beyond k name s u rest := by
  constructor
  · rintro (⟨pre', s', rest', u', hl', hp, hs⟩ | ⟨hno, -⟩)
    · obtain ⟨-, rfl, rfl, rfl⟩ := hl.unique hl'
      exact ⟨hp, hs⟩
    · exact absurd hl (hno _ _ _ _)
  · rintro ⟨hp, hs⟩
    exact Or.inl ⟨pre, s, rest, u, hl, hp, hs⟩

/-- The search for a name reads the hashes of entries only where it can: the keys are large, or no
    directory item may hold the key of the name. -/
def ReadsName (t : Tree) (k : Key) : Prop :=
  t.pol = .large ∨ ∀ s ∈ t.slots, s.1.plug = .cde40 → s.1.pastMaxposs t.pol k = false → k < s.1.key

theorem ReadsName.reads (hread : t.ReadsName k) (hw : t.WF) : t.Reads k := by
  rcases hread with hl | hall
  · exact Or.inl hl
  · refine Or.inr fun pre s post hcut hp hpast => ?_
    have hlt := hall s (by rw [hcut]; simp) hp hpast
    have hcut' : t.slots = (pre ++ [s]) ++ post := by
      rw [hcut, List.append_assoc]
      rfl
    exact ⟨le_of_lt hlt, fun b hb => lt_of_lt_of_le hlt (hw.key_le_key hcut' (by simp) hb)⟩

/-- A hit in a directory item is one with large keys. -/
theorem ReadsName.large (hread : t.ReadsName k) (hw : t.WF) {h : Nat} {node : NodeRef} {pos : Pos}
    {it : Item} (hh : t.Hit k h node pos it) (hp : it.plug = .cde40) : t.pol = .large := by
  refine hread.resolve_right fun hall => ?_
  have hmem : (it, pos.item) ∈ t.slots := by
    rw [hh.slots_eq]
    simp
  exact absurd (hall _ hmem hp hh.notPast) (not_lt.mpr (hh.key_le hw))

/-- **The search for a name**: it ends, and its answer is right exactly when the items from the
    leftmost entry with the key on settle the name. -/
theorem dir40Search_spec (hw : t.WF) (beyond : Item → Nat → Entry) (plugs : Key.NamePlugs)
    (objectid : Nat) (name : List UInt8) {fuel : Nat} (hfuel : t.fuelBound ≤ fuel)
    (hk : k = Key.buildHashed t.pol plugs objectid name) (hread : t.ReadsName k) :
    ∃ res place, (dir40Search beyond plugs fuel objectid name).run t =
      some (.ok (res, place), t) ∧
        (t.NameExact k name res place ↔ t.SearchSettles beyond k name) := by
  obtain ⟨res, place, hrun, hs⟩ := reiser4TreeLookup_ends hw (hread.reads hw) hfuel
    (some (reiser4TreeCollision beyond fuel ⟨.dir, name⟩))
  simp only [dir40Search, Run.get_bind, ← hk]
  rw [hrun]
  cases res with
  | absent =>
    refine ⟨.absent, place, rfl, ?_⟩
    rw [nameExact_absent]
    constructor
    · exact fun hno => Or.inr ⟨hs.no_leftmost hw, hno⟩
    · rintro (⟨pre, s, rest, u, hl, -⟩ | ⟨-, hno⟩)
      · exact absurd hl (hs.no_leftmost hw _ _ _ _)
      · exact hno
  | present =>
    cases hs with
    | @found h node pos it hh hbelow =>
      have hl := hh.leftmost hbelow
      rw [hl.searchSettles_iff]
      by_cases hp : it.plug = .cde40
      · have h0 := hh.reaches.leaf_of_cde hw hh.item hp
        subst h0
        obtain ⟨res, place, hcoll, hiff⟩ := reiser4TreeCollision_spec hw (hread.large hw hh hp) hfuel hh hp
        refine ⟨res, place, ?_, ?_⟩
        · have hlevel := (hh.reaches.sound hw).level_eq
          simp only [lookupEnd, hlevel, leafLevel, Nat.zero_add, Nat.le_refl, if_true]
          exact hcoll
        · rw [hiff]
          exact ⟨fun h => ⟨hp, h⟩, fun h => h.2⟩
      · -- not a directory item: the handler leaves it alone
        refine ⟨.present, ⟨some node, pos⟩, ?_,
          iff_of_false (not_nameExact_of_plug hh hp) (fun h => hp h.1)⟩
        have hcoll : (reiser4TreeCollision beyond fuel ⟨.dir, name⟩ ⟨some node, pos⟩).run t =
            some (.ok (.present, ⟨some node, pos⟩), t) := by
          have hgroup : it.plug.group ≠ .dir := by
            intro hg
            cases hpl : it.plug <;> rw [hpl] at hg hp <;> simp [ItemPlug.group] at hg hp
          simp only [reiser4TreeCollision, Run.get_bind, hh.item, ne_eq, hgroup, not_false_eq_true,
            if_true]
          rfl
        simp only [lookupEnd]
        split
        · exact hcoll
        · rfl

/-- The search for a name in the directory ends, with the right answer. -/
def SearchExact (t : Tree) (beyond : Item → Nat → Entry) (plugs : Key.NamePlugs) (objectid : Nat)
    (name : List UInt8) : Prop :=
  ∃ bound, ∀ fuel, bound ≤ fuel → ∃ res place,
    (dir40Search beyond plugs fuel objectid name).run t = some (.ok (res, place), t) ∧
      t.NameExact (Key.buildHashed t.pol plugs objectid name) name res place

/-- **Directory lookup is exact**, where the hashes it needs can be read, exactly when the items from
    the leftmost entry with the key on settle the name. -/
theorem dir40Search_exact_iff (t : Tree) (hw : t.WF) (beyond : Item → Nat → Entry)
    (plugs : Key.NamePlugs) (objectid : Nat) (name : List UInt8)
    (hread : t.ReadsName (Key.buildHashed t.pol plugs objectid name)) :
    t.SearchExact beyond plugs objectid name ↔
      t.SearchSettles beyond (Key.buildHashed t.pol plugs objectid name) name := by
  constructor
  · rintro ⟨bound, hrun⟩
    obtain ⟨res, place, hrun1, he⟩ := hrun _ (Nat.le_max_left bound t.fuelBound)
    obtain ⟨res', place', hrun2, hiff⟩ := dir40Search_spec hw beyond plugs objectid name
      (Nat.le_max_right bound t.fuelBound) rfl hread
    have heq := hrun1.symm.trans hrun2
    simp only [Option.some.injEq, Prod.mk.injEq, Except.ok.injEq, and_true] at heq
    obtain ⟨rfl, rfl⟩ := heq
    exact hiff.mp he
  · intro hs
    refine ⟨t.fuelBound, fun fuel hfuel => ?_⟩
    obtain ⟨res, place, hrun, hiff⟩ := dir40Search_spec hw beyond plugs objectid name hfuel rfl hread
    exact ⟨res, place, hrun, hiff.mpr hs⟩

/-! ## Two names with one key -/

/-- `deg_hash` and `lexic_fibre`: all hashes are equal, and there is no fibre. -/
def degPlugs : Key.NamePlugs := ⟨fun _ => 0xc0c0c0c010101010, fun _ => 0⟩

/-- A directory item with "." and a name of 24 times "A". -/
def degItem : Item where
  key := ⟨1048576, 0, 0, 0⟩
  flags := 0
  body := .cde40
    [⟨0, 0, 0, (42, 0, 65536), []⟩,
     ⟨0x0141414141414141, 0x4141414141414141, 0xc0c0c0c010101010, (65536, 0, 65537),
       List.replicate 24 65⟩]

/-- A twig node with one pointer to a leaf with that item. -/
def degTree : Tree where
  store blk :=
    if blk = 23 then some ⟨2, [⟨⟨1048576, 0, 0, 0⟩, 0, .nodeptr40 24⟩]⟩
    else if blk = 24 then some ⟨1, [degItem]⟩
    else none
  root := some 23
  height := 2
  blksize := 4096
  pol := .large

/-- The key of the long name, and of all long names with the same first 15 characters. -/
def degKey : Key := ⟨1048576, 0x0141414141414141, 0x4141414141414141, 0xc0c0c0c010101010⟩

theorem degItem_wf : degItem.WF .large 4096 where
  key_fits := ⟨by decide, by decide, by decide, by decide, by decide⟩
  units_pos := by decide
  key_first := by decide
  cde es hb := by
    simp only [degItem, Body.cde40.injEq] at hb
    subst hb
    refine ⟨by decide, ?_⟩
    intro e he
    simp only [List.mem_cons, List.not_mem_nil, or_false] at he
    rcases he with rfl | rfl
    · exact ⟨by decide, by decide, by decide, by decide, by decide⟩
    · exact ⟨by decide, by decide, by decide, by decide, by decide⟩
  tail ds hb := by
    rcases hb with hb | ⟨s, hb⟩ <;> simp [degItem] at hb
  extent us hb := by simp [degItem] at hb

theorem degTree_wf : degTree.WF where
  blksize := by decide
  sound r hr := by
    have hr23 : 23 = r := Option.some.inj hr
    subst hr23
    refine ⟨_, rfl, rfl, ?_⟩
    intro it hit
    rw [List.mem_singleton.mp hit]
    refine ⟨by decide, _, rfl, rfl, ?_⟩
    intro it hit
    rw [List.mem_singleton.mp hit]
    exact ⟨degItem_wf, Or.inl rfl⟩
  ordered := by decide

theorem degTree_leftmost : degTree.Leftmost degKey [] (degItem, 0) [] 1 where
  cut := by decide
  notPast := by decide
  found := ⟨by decide, ⟨by decide, by decide⟩, by decide⟩
  below x hx := absurd hx List.not_mem_nil

/-- Memory of zeros behind the last entry. -/
def zeroBeyond : Item → Nat → Entry := fun _ _ => ⟨0, 0, 0, (0, 0, 0), []⟩

/-- The name that is there is found. -/
theorem dir40Search_exact_there : degTree.WF ∧
    degTree.SearchSettles zeroBeyond (Key.buildHashed .large degPlugs 65536 (List.replicate 24 65))
      (List.replicate 24 65) ∧
    degTree.SearchExact zeroBeyond degPlugs 65536 (List.replicate 24 65) := by
  have hkey : Key.buildHashed .large degPlugs 65536 (List.replicate 24 65) = degKey := by
    decide
  have hs : degTree.SearchSettles zeroBeyond
      (Key.buildHashed degTree.pol degPlugs 65536 (List.replicate 24 65)) (List.replicate 24 65) := by
    show degTree.SearchSettles zeroBeyond
      (Key.buildHashed .large degPlugs 65536 (List.replicate 24 65)) _
    rw [hkey]
    refine degTree_leftmost.searchSettles_iff.mpr ⟨rfl, ?_⟩
    rw [Settles, if_pos (by decide)]
    decide
  exact ⟨degTree_wf, hs, (dir40Search_exact_iff degTree degTree_wf _ _ _ _ (Or.inl rfl)).mpr hs⟩

/-- A name of 23 times "A" and a "B" has the same key.  It is not in the directory, and the search
    answers `PRESENT` with the entry of the other name. -/
theorem dir40Search_finds_other : degTree.WF ∧
    (∀ s ∈ degTree.slots, ∀ u, ¬ s.1.Carries .large u degKey (List.replicate 23 65 ++ [66])) ∧
    ((dir40Search zeroBeyond degPlugs 5 65536 (List.replicate 23 65 ++ [66])).run degTree).map
        (fun r => r.1.toOption) =
      some (some (.present, ⟨some ⟨24, [(23, 0)]⟩, ⟨0, some 1⟩⟩)) ∧
    ¬ degTree.SearchExact zeroBeyond degPlugs 65536 (List.replicate 23 65 ++ [66]) := by
  have hkey : Key.buildHashed .large degPlugs 65536 (List.replicate 23 65 ++ [66]) = degKey := by
    decide
  refine ⟨degTree_wf, ?_, by decide +kernel, ?_⟩
  · intro s hs u hc
    have hs : s = (degItem, 0) := List.mem_singleton.mp hs
    subst hs
    have hu := (hc.unit 4096).2.1
    have h01 : u = 0 ∨ u = 1 := by
      have : u < 2 := hu
      omega
    rcases h01 with rfl | rfl
    · exact absurd hc (by decide)
    · exact absurd hc (by decide)
  · rintro ⟨bound, hrun⟩
    obtain ⟨res, place, hrun1, he⟩ := hrun _ (Nat.le_max_left bound degTree.fuelBound)
    obtain ⟨res', place', hrun2, hiff⟩ := dir40Search_spec degTree_wf zeroBeyond degPlugs 65536
      (List.replicate 23 65 ++ [66]) (Nat.le_max_right bound degTree.fuelBound) rfl
      (Or.inl rfl)
    have heq := hrun1.symm.trans hrun2
    simp only [Option.some.injEq, Prod.mk.injEq, Except.ok.injEq, and_true] at heq
    obtain ⟨rfl, rfl⟩ := heq
    have hs : degTree.SearchSettles zeroBeyond
        (Key.buildHashed .large degPlugs 65536 (List.replicate 23 65 ++ [66]))
        (List.replicate 23 65 ++ [66]) := hiff.mp he
    rw [hkey, degTree_leftmost.searchSettles_iff, Settles, if_pos (by decide)] at hs
    exact absurd hs.2 (by decide)

end Tree
end Reiser4
