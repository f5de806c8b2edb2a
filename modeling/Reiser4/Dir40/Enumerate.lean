/-
  Enumerating a directory.

  Readings in a row, with positions kept and set in between, are to give every entry once, in tree order, and then
  the end.  By `Directory.run_spec` a run of the calls is a run of the cursor over the keys, and `Cursor.right_iff`
  says when those are in order; what is left is the tree lookup, which does not see an entry whose key is past the
  largest one that its item may hold.

    1. `Directory.readdir_hidden`, `Enumerates.not_hidden`   such an entry is never read at its key;
    2. `Directory.dir40Readdir_iff`                          the crux: what an enumeration in order needs;
    3. `dir40Readdir_again`                                  a directory that is read without an end.

  A directory made by `dir40_create` has an entry with the key of ".", which is the smallest one; the others of
  the conditions are about its names.  The last name of a directory may well have a key with the largest offset:
  in the large policy the last 8 of 23 characters are the offset.
-/
import Reiser4.Dir40.Readdir

namespace Reiser4

open Reiser4.Lib

namespace Directory

variable {t : Tree} {d : Directory t}

/-- All runs of readings, with positions kept and set in between, go through the entries in tree order. -/
def Enumerates (d : Directory t) (plugs : Key.NamePlugs) : Prop :=
  ∃ bound, ∀ fuel, bound ≤ fuel → ∀ ops, ∃ rs,
    (dir40Run fuel ops (dir40Reset t.pol plugs d.objectid) []).run t = some (.ok rs, t) ∧
      List.Forall₂ d.Gives (cursorWalk d.units.length ops 0 []) rs

/-- What an enumeration in order needs. -/
structure Readable (d : Directory t) : Prop where
  /-- The keys are large, or there is no entry. -/
  legible : d.Legible
  /-- No entry has a key past the largest one its item may hold. -/
  shown : ∀ s ∈ t.slots, s.1.key.el0 = dirEl0 d.objectid → ∀ u, u < s.1.units →
    s.1.pastMaxposs t.pol (s.1.unitKey t.blksize u) = false
  /-- The directory is empty or has an entry with the key of ".", or its first two entries have different keys. -/
  first : d.keys = [] ∨ d.keys[0]? = some ⟨dirEl0 d.objectid, 0, 0, 0⟩ ∨
    ∃ a b, d.keys[0]? = some a ∧ d.keys[1]? = some b ∧ a ≠ b
  /-- No more than 2^32 entries have one key. -/
  runs : ∀ i k, d.keys[i]? = some k → i - below d.keys k < two32
  /-- The last key has an offset behind it. -/
  last : ∀ k, d.keys.getLast? = some k → k.offset ≠ maxUint64

/-! ## Hidden entries -/

/-- Only the directory's own items can hide entries from a key in it. -/
theorem noneHidden_of_own {k : Key} (hk : k.el0 = dirEl0 d.objectid)
    (hown : ∀ s ∈ t.slots, s.1.key.el0 = dirEl0 d.objectid → s.1.pastMaxposs t.pol k = true →
      ∀ u, u < s.1.units → s.1.unitHi t.blksize u < k) : t.NoneHidden k := by
  intro s hs hpast u hu
  by_contra hge
  have hwf := (d.wf.slot hs).2
  have hcde := Tree.cde_of_hidden hwf hpast hu (not_lt.mp hge)
  have hkey := d.wf.key_lt_of_past hs hpast
  have hne : s.1.plug ≠ .extent40 := by
    rw [hcde]
    decide
  have hhi : s.1.unitHi t.blksize u = s.1.unitKey t.blksize u := Item.unitHi_of_ne_extent hne u
  have hunit := hwf.unitKey_el0 hcde hu
  -- the item begins in front of the key and reaches it, so it is of the directory
  have hel : s.1.key.el0 = dirEl0 d.objectid := by
    have h1 := not_lt.mpr (not_lt.mp hge)
    rw [hhi, Key.lt_iff] at h1
    rw [Key.lt_iff] at hkey
    omega
  exact hge (hown s hs hel hpast u hu)

/-- Nothing is hidden from the position a directory is read from at first. -/
theorem noneHidden_start (d : Directory t) : t.NoneHidden d.cursor.start := by
  refine noneHidden_of_own rfl fun s hs hel hpast => ?_
  exact absurd (d.wf.key_lt_of_past hs hpast) (not_lt.mpr (start_le hel))

/-- With all entries shown nothing is hidden from any position. -/
theorem noneHidden_of_shown (hshown : ∀ s ∈ t.slots, s.1.key.el0 = dirEl0 d.objectid → ∀ u, u < s.1.units →
    s.1.pastMaxposs t.pol (s.1.unitKey t.blksize u) = false) {k : Key} (hk : k.el0 = dirEl0 d.objectid) :
    t.NoneHidden k := by
  refine noneHidden_of_own hk fun s hs hel hpast u hu => ?_
  by_contra hge
  obtain ⟨mx, hmx, hlt⟩ := Item.pastMaxposs_eq_true.mp hpast
  have hne : s.1.plug ≠ .extent40 := by
    rw [d.items s hs hel]
    decide
  have hle : k ≤ s.1.unitKey t.blksize u := by
    rw [← Item.unitHi_of_ne_extent hne u]
    exact not_lt.mp hge
  have hpast' := Item.pastMaxposs_eq_true.mpr ⟨mx, hmx, lt_of_lt_of_le hlt hle⟩
  rw [hshown s hs hel u hu] at hpast'
  simp at hpast'

/-- An entry by its number: its item, and the items around that. -/
theorem exists_cut {el0 : Nat} : ∀ {ss : List Tree.Slot} {i : Nat} {it : Item} {u : Nat},
    (dirUnits el0 ss)[i]? = some (it, u) → ∃ pre s post, ss = pre ++ s :: post ∧ s.1 = it ∧ it.key.el0 = el0 ∧
      i = (dirUnits el0 pre).length + u ∧ u < it.units
  | [], _, _, _, h => by simp at h
  | s :: ss, i, it, u, h => by
    rw [dirUnits_cons] at h
    by_cases hi : i < (unitsIn el0 s.1).length
    · rw [List.getElem?_append_left hi] at h
      unfold unitsIn at h hi
      by_cases hel : s.1.key.el0 = el0
      · rw [if_pos hel] at h hi
        rw [List.length_map, List.length_range] at hi
        rw [List.getElem?_map, List.getElem?_range hi, Option.map_some, Option.some.injEq, Prod.mk.injEq] at h
        obtain ⟨rfl, rfl⟩ := h
        exact ⟨[], s, ss, rfl, rfl, hel, (Nat.zero_add _).symm, hi⟩
      · rw [if_neg hel] at hi
        exact absurd hi (Nat.not_lt_zero _)
    · rw [List.getElem?_append_right (Nat.not_lt.mp hi)] at h
      obtain ⟨pre, s', post, rfl, h1, h2, h3, h4⟩ := exists_cut h
      refine ⟨s :: pre, s', post, rfl, h1, h2, ?_, h4⟩
      rw [dirUnits_cons, List.length_append]
      omega

/-- The entry with the number has a key past the largest one its item may hold. -/
def HiddenAt (d : Directory t) (i : Nat) : Prop :=
  ∃ it u, d.units[i]? = some (it, u) ∧ it.pastMaxposs t.pol (it.unitKey t.blksize u) = true

section Hidden

variable {i j : Nat} {k : Key} {m : Mark Key} {fuel : Nat}

/-- The first entry is never hidden. -/
theorem not_hiddenAt_zero (d : Directory t) : ¬ d.HiddenAt 0 := by
  rintro ⟨it, u, hget, hpast⟩
  obtain ⟨pre, s, post, hcut, rfl, -, hi, -⟩ := exists_cut hget
  obtain rfl : u = 0 := by omega
  have hmem := Tree.mem_slots_right hcut List.mem_cons_self
  have hlt := d.wf.key_lt_of_past hmem hpast
  rw [(d.wf.slot hmem).2.key_first] at hlt
  exact lt_irrefl _ hlt

theorem units_get {pre post : List Tree.Slot} {s : Tree.Slot} (hcut : t.slots = pre ++ s :: post)
    (hel : s.1.key.el0 = dirEl0 d.objectid) {u : Nat} (hu : u < s.1.units) :
    d.units[(dirUnits (dirEl0 d.objectid) pre).length + u]? = some (s.1, u) := by
  unfold units
  rw [hcut, dirUnits_append, List.getElem?_append_right (Nat.le_add_right _ _), Nat.add_sub_cancel_left, dirUnits_cons,
    unitsIn, if_pos hel, List.getElem?_append_left (by simpa using hu)]
  simp [hu]

/-- Nothing is hidden from the keys in front of the first hidden entry. -/
theorem noneHidden_before (hmin : ∀ j, j < i → ¬ d.HiddenAt j) (hj : j < i) (hk : d.keys[j]? = some k) :
    t.NoneHidden k := by
  refine noneHidden_of_own (keys_el0 (List.mem_of_getElem? hk)) fun s hs hel hpast u hu => ?_
  by_contra hge
  obtain ⟨pre, post, hcut⟩ := List.append_of_mem hs
  obtain ⟨mx, hmx, hlt⟩ := Item.pastMaxposs_eq_true.mp hpast
  have hne : s.1.plug ≠ .extent40 := by
    rw [d.items s hs hel]
    decide
  have hle : k ≤ s.1.unitKey t.blksize u := by
    rw [← Item.unitHi_of_ne_extent hne u]
    exact not_lt.mp hge
  have hlater : i ≤ (dirUnits (dirEl0 d.objectid) pre).length + u := by
    by_contra hless
    exact hmin _ (Nat.not_le.mp hless)
      ⟨s.1, u, units_get hcut hel hu, Item.pastMaxposs_eq_true.mpr ⟨mx, hmx, lt_of_lt_of_le hlt hle⟩⟩
  unfold keys at hk
  rw [List.getElem?_map] at hk
  obtain ⟨x, hx, rfl⟩ := Option.map_eq_some_iff.mp hk
  by_cases hpre : j < (dirUnits (dirEl0 d.objectid) pre).length
  · -- an entry of an item in front: it ends where this one begins
    have hmem : x ∈ dirUnits (dirEl0 d.objectid) pre := by
      unfold units at hx
      rw [hcut, dirUnits_append, List.getElem?_append_left hpre] at hx
      exact List.mem_of_getElem? hx
    obtain ⟨a, ha, -, hit, hu'⟩ := mem_dirUnits.mp hmem
    have hmema := Tree.mem_slots_left hcut ha
    have hkey := d.wf.key_lt_of_past hs hpast
    rw [hit] at hkey
    exact absurd (lt_of_lt_of_le hkey ((d.wf.slot hmema).2.unitKey_le_hi d.wf.blksize_pos hu'))
      (not_lt.mpr (d.wf.hi_le_key hcut ha List.mem_cons_self hu'))
  · -- an entry of the item itself
    obtain ⟨v, rfl⟩ : ∃ v, j = (dirUnits (dirEl0 d.objectid) pre).length + v :=
      ⟨j - (dirUnits (dirEl0 d.objectid) pre).length, by omega⟩
    have hget := units_get hcut hel (u := v) (by omega)
    obtain rfl : x = (s.1, v) := Option.some.inj (hx.symm.trans hget)
    exact hmin _ hj ⟨s.1, v, hget, hpast⟩

/-- What a reading gives is the entry at the place looked up. -/
theorem readdir_entry {b : BodyPlace} (hbody : (obj40UpdateBody fuel m).run t = some (.ok (some b), t))
    {r : Option DirentHint} {m' : Mark Key} {t' : Tree} (hrun : (dir40Readdir fuel m).run t = some (.ok (r, m'), t')) :
    r = dir40Fetch t b := by
  unfold dir40Readdir at hrun
  rw [Run.get_bind, Run.bind_of_ok hbody] at hrun
  simp only at hrun
  cases hfetch : dir40Fetch t b with
  | none =>
    rw [hfetch, Run.bind_ok] at hrun
    obtain ⟨_, _, hlift, -⟩ := hrun
    simp at hlift
  | some entry =>
    rw [hfetch, Run.bind_of_ok (Run.lift_some _ _)] at hrun
    by_cases hlast : bodyUnits t b ≤ b.unit + 1
    · rw [if_pos hlast, Run.bind_ok] at hrun
      obtain ⟨next, s, -, hrun⟩ := hrun
      cases next with
      | none =>
        obtain ⟨heq, -⟩ := Run.pure_ok.mp hrun
        exact (congrArg Prod.fst heq).symm
      | some b' =>
        obtain ⟨_, _, -, hrun⟩ := Run.bind_ok.mp hrun
        obtain ⟨heq, -⟩ := Run.pure_ok.mp hrun
        exact (congrArg Prod.fst heq).symm
    · rw [if_neg hlast] at hrun
      obtain ⟨_, _, -, hrun⟩ := Run.bind_ok.mp hrun
      obtain ⟨heq, -⟩ := Run.pure_ok.mp hrun
      exact (congrArg Prod.fst heq).symm

/-- A reading tells which entry it gave. -/
theorem Gives.unique {r : Option DirentHint} (hi : d.Gives i r) (hj : d.Gives j r) (hle : i ≤ d.units.length)
    (hle' : j ≤ d.units.length) : i = j := by
  unfold Gives at hi hj
  cases hx : d.units[i]? with
  | none =>
    rw [hx] at hi
    have hend := List.getElem?_eq_none_iff.mp hx
    cases hy : d.units[j]? with
    | none =>
      have hend' := List.getElem?_eq_none_iff.mp hy
      omega
    | some y =>
      rw [hy] at hj
      obtain ⟨b, e, -, hr, -⟩ := hj
      rw [hi] at hr
      simp at hr
  | some x =>
    rw [hx] at hi
    obtain ⟨b, e, -, hr, -, -, hindex⟩ := hi
    cases hy : d.units[j]? with
    | none =>
      rw [hy] at hj
      rw [hj] at hr
      simp at hr
    | some y =>
      rw [hy] at hj
      obtain ⟨b', e', -, hr', -, -, hindex'⟩ := hj
      have hplace := congrArg DirentHint.place (Option.some.inj (hr.symm.trans hr'))
      simp only [direntHint] at hplace
      rw [← hindex, ← hindex', hplace]

/-- **A hidden entry** is not what a reading at its key gives. -/
theorem readdir_hidden (hlegible : d.Legible) (hi : d.HiddenAt i) (hk : d.keys[i]? = some m.key) (hfuel : t.fuelBound ≤ fuel)
    (hroom : 2 * d.units.length + 1 < fuel) {r : Option DirentHint} {m' : Mark Key} {t' : Tree}
    (hrun : (dir40Readdir fuel m).run t = some (.ok (r, m'), t')) : ¬ d.Gives i r := by
  intro hgives
  obtain ⟨it, u, hget, hpast⟩ := hi
  have hlt : i < d.units.length := (List.getElem?_eq_some_iff.mp hget).1
  have hself : it.unitKey t.blksize u = m.key := by
    unfold keys at hk
    rw [List.getElem?_map, hget] at hk
    exact Option.some.inj hk
  obtain ⟨as, bs, adjust, r0, hscan, hlands⟩ := updateBody_scan hlegible (keys_el0 (List.mem_of_getElem? hk)) hfuel hroom
  -- the search passes the entry by
  have hpassed : i < as.length := by
    by_contra hge
    have hget' := hget
    rw [hscan.cut, List.getElem?_append_right (Nat.not_lt.mp hge)] at hget'
    have hahead := (hscan.ahead _ (List.mem_of_getElem? hget')).1
    rw [← hself, hpast] at hahead
    simp at hahead
  have hge := hscan.ge
  rcases hlands with ⟨b, h, it', hbody, hb, hu, hindex⟩ | ⟨hbody, -⟩
  · rw [readdir_entry hbody hrun] at hgives
    have heq := hgives.unique (hb.gives hlegible hu) (Nat.le_of_lt hlt) (Nat.le_of_lt (hb.index_lt hu))
    omega
  · unfold dir40Readdir at hrun
    rw [Run.get_bind, Run.bind_of_ok hbody] at hrun
    obtain ⟨heq, -⟩ := Run.pure_ok.mp hrun
    have hr : r = none := (congrArg Prod.fst heq).symm
    unfold Gives at hgives
    rw [hget, hr] at hgives
    obtain ⟨_, _, -, hno, -⟩ := hgives
    simp at hno

/-- Readings in order up to a hidden entry: the one for it fails. -/
theorem reads_meet_hidden (hlegible : d.Legible) (hmin : ∀ j, j < i → ¬ d.HiddenAt j) (hi : d.HiddenAt i) (hfuel : t.fuelBound ≤ fuel)
    (hroom : 2 * d.units.length + 1 < fuel) : ∀ {l j : Nat} {m : Mark Key} {rs : List (Option DirentHint)},
    j + l = i → (j = 0 ∧ m.key = d.cursor.start ∨ d.keys[j]? = some m.key) →
    (dir40Run fuel (List.replicate (l + 1) .read) m []).run t = some (.ok rs, t) →
    ¬ List.Forall₂ d.Gives (cursorWalk d.units.length (List.replicate (l + 1) .read) j []) rs := by
  obtain ⟨it, u, hget, -⟩ := id hi
  have hlt : i < d.units.length := (List.getElem?_eq_some_iff.mp hget).1
  intro l
  induction l with
  | zero =>
    intro j m rs hj hm hrun hall
    obtain rfl : j = i := hj
    obtain ⟨⟨r, m'⟩, t', hread, hrest⟩ := Run.bind_ok.mp hrun
    rcases hm with ⟨rfl, -⟩ | hm
    · exact d.not_hiddenAt_zero hi
    · obtain ⟨rs', t'', -, hpure⟩ := Run.bind_ok.mp hrest
      obtain ⟨hrs, -⟩ := Run.pure_ok.mp hpure
      rw [← hrs] at hall
      cases hall with
      | cons hgives _ => exact readdir_hidden hlegible hi hm hfuel hroom hread hgives
  | succ l ih =>
    intro j m rs hj hm hrun hall
    obtain ⟨⟨r, m'⟩, t', hread, hrest⟩ := Run.bind_ok.mp hrun
    obtain ⟨rs', t'', hruns, hpure⟩ := Run.bind_ok.mp hrest
    obtain ⟨hrs, hend⟩ := Run.pure_ok.mp hpure
    have hjlt : j < i := by omega
    have hkey : m.key.el0 = dirEl0 d.objectid := by
      rcases hm with ⟨-, hm⟩ | hm
      · rw [hm]
        rfl
      · exact keys_el0 (List.mem_of_getElem? hm)
    have hn : t.NoneHidden m.key := by
      rcases hm with ⟨-, hm⟩ | hm
      · rw [hm]
        exact noneHidden_start d
      · exact noneHidden_before hmin hjlt hm
    obtain ⟨r0, hspec, hgives0⟩ := readdir_spec hlegible hn hkey hfuel hroom
    have heq := hread.symm.trans hspec
    simp only [Option.some.injEq, Prod.mk.injEq, Except.ok.injEq] at heq
    obtain ⟨⟨rfl, rfl⟩, hsame⟩ := heq
    rw [hsame, hend] at hruns
    rw [← hrs] at hall
    cases hall with
    | cons hgives hall =>
      have hlen := d.cursor.land_le_length m
      rw [show d.cursor.keys.length = d.units.length from d.keys_length] at hlen
      have hland := hgives0.unique hgives hlen (by omega)
      obtain ⟨k', hk'⟩ : ∃ k', d.keys[j + 1]? = some k' :=
        ⟨_, List.getElem?_eq_getElem (by rw [keys_length]; omega)⟩
      have hnext := next_of_key hland hk'
      refine ih (show j + 1 + l = i by omega) (Or.inr ?_) hruns ?_
      · rw [hk', hnext]
      · rw [show min (j + 1) d.units.length = j + 1 by omega] at hall
        exact hall

end Hidden

/-! ## Exactness -/

/-- With short keys a reading gives no entry. -/
theorem readdir_short (hs : t.pol = .short) {m m' : Mark Key} {fuel : Nat} {entry : DirentHint} {t' : Tree} :
    (dir40Readdir fuel m).run t ≠ some (.ok (some entry, m'), t') := by
  intro hrun
  have hfetch : ∀ b, dir40Fetch t b = none := by
    intro b
    unfold dir40Fetch Item.cde40GetHash
    rw [hs]
    simp
  unfold dir40Readdir at hrun
  rw [Run.get_bind] at hrun
  obtain ⟨body, t'', -, hrun⟩ := Run.bind_ok.mp hrun
  cases body with
  | none =>
    obtain ⟨heq, -⟩ := Run.pure_ok.mp hrun
    cases heq
  | some b =>
    simp only [hfetch] at hrun
    obtain ⟨_, _, hlift, -⟩ := Run.bind_ok.mp hrun
    simp at hlift

/-- A directory that is enumerated has its entries read. -/
theorem Enumerates.legible {plugs : Key.NamePlugs} (he : d.Enumerates plugs) : d.Legible := by
  cases hpol : t.pol with
  | large => exact Or.inl hpol
  | short =>
    refine Or.inr ?_
    by_contra hne
    obtain ⟨x, xs, hunits⟩ := List.exists_cons_of_ne_nil hne
    obtain ⟨bound, hall⟩ := he
    obtain ⟨rs, hrun, hgives⟩ := hall bound (Nat.le_refl _) [.read]
    obtain ⟨⟨r, m'⟩, t', hread, hrest⟩ := Run.bind_ok.mp hrun
    obtain ⟨rs', t'', -, hpure⟩ := Run.bind_ok.mp hrest
    obtain ⟨hrs, -⟩ := Run.pure_ok.mp hpure
    rw [← hrs] at hgives
    cases hgives with
    | cons hfirst _ =>
      unfold Gives at hfirst
      rw [hunits] at hfirst
      obtain ⟨b, e, -, rfl, -⟩ := hfirst
      exact readdir_short hpol hread

/-- In a directory that is enumerated in order no entry is hidden. -/
theorem Enumerates.not_hidden {plugs : Key.NamePlugs} (he : d.Enumerates plugs) (i : Nat) : ¬ d.HiddenAt i := by
  induction i using Nat.strong_induction_on with
  | _ i hmin =>
    intro hi
    have hlegible := he.legible
    obtain ⟨bound, hall⟩ := he
    obtain ⟨rs, hrun, hgives⟩ := hall (bound + t.fuelBound + 2 * d.units.length + 2) (by omega)
      (List.replicate (i + 1) .read)
    rw [dir40Reset_eq] at hrun
    exact reads_meet_hidden hlegible hmin hi (by omega) (by omega) (Nat.zero_add i) (Or.inl ⟨rfl, rfl⟩) hrun hgives

theorem gives_unique {is : List Nat} {rs : List (Option DirentHint)} (h : List.Forall₂ d.Gives is rs) :
    ∀ {js : List Nat}, (∀ i ∈ is, i ≤ d.units.length) → (∀ j ∈ js, j ≤ d.units.length) →
      List.Forall₂ d.Gives js rs → is = js := by
  induction h with
  | nil =>
    intro js _ _ h'
    cases h'
    rfl
  | cons h1 _ ih =>
    intro js hi hj h'
    cases h' with
    | cons h2 hs' =>
      rw [h1.unique h2 (hi _ List.mem_cons_self) (hj _ List.mem_cons_self),
        ih (fun i h => hi i (List.mem_cons_of_mem _ h)) (fun j h => hj j (List.mem_cons_of_mem _ h)) hs']

theorem key_offset_lt {k : Key} (hk : k ∈ d.keys) : k.offset < two64 := by
  obtain ⟨x, hx, rfl⟩ := List.mem_map.mp hk
  obtain ⟨s, hs, hel, hit, hu⟩ := mem_units hx
  obtain ⟨es, hb⟩ : ∃ es, s.1.body = .cde40 es := by
    have hp := d.items s hs hel
    unfold Item.plug at hp
    cases hb : s.1.body <;> simp [hb, Body.plug] at hp ⊢
  obtain ⟨e, he, hkey⟩ := Item.unitEntry_of_lt (d.items s hs hel) hu t.blksize
  simp only [Item.unitEntry, hb] at he
  rw [hit, ← hkey]
  exact (((d.wf.slot hs).2.cde es hb).2 e (List.mem_of_getElem? he)).offset

/-- The offset behind a key is behind it unless it is the last one. -/
theorem lt_nextOffset_iff {k : Key} (hk : k.offset < two64) : k < nextOffset k ↔ k.offset ≠ maxUint64 := by
  rw [Key.lt_iff]
  unfold two64 at hk
  simp only [nextOffset, Key.setOffset, two64, maxUint64, true_and, Nat.lt_irrefl, false_or]
  omega

theorem Readable.right (h : d.Readable) : d.cursor.Right := by
  refine (Cursor.right_iff d.cursor_lawful).mpr ⟨h.first, h.runs, fun k hk => ?_⟩
  exact (lt_nextOffset_iff (key_offset_lt (List.mem_of_getLast? hk))).mpr (h.last k hk)

/-- The run of a directory just opened gives what the cursor gives. -/
theorem run_of_shown (hread : d.Legible) (hshown : ∀ s ∈ t.slots, s.1.key.el0 = dirEl0 d.objectid → ∀ u, u < s.1.units →
      s.1.pastMaxposs t.pol (s.1.unitKey t.blksize u) = false)
    {fuel : Nat} (hfuel : t.fuelBound ≤ fuel) (hroom : 2 * d.units.length + 1 < fuel) (ops : List CursorOp) :
    ∃ rs, (dir40Run fuel ops ⟨d.cursor.start, 0⟩ []).run t = some (.ok rs, t) ∧
      List.Forall₂ d.Gives (d.cursor.run ops ⟨d.cursor.start, 0⟩ []) rs :=
  run_spec hread (fun _ hk => noneHidden_of_shown hshown hk) hfuel hroom ops rfl
    (fun _ hp => absurd hp List.not_mem_nil)

theorem Enumerates.readable {plugs : Key.NamePlugs} (he : d.Enumerates plugs) : d.Readable := by
  have hshown : ∀ s ∈ t.slots, s.1.key.el0 = dirEl0 d.objectid → ∀ u, u < s.1.units →
      s.1.pastMaxposs t.pol (s.1.unitKey t.blksize u) = false := by
    intro s hs hel u hu
    cases hpast : s.1.pastMaxposs t.pol (s.1.unitKey t.blksize u) with
    | false => rfl
    | true =>
      obtain ⟨pre, post, hcut⟩ := List.append_of_mem hs
      exact absurd ⟨s.1, u, units_get hcut hel hu, hpast⟩ (he.not_hidden _)
  have hright : d.cursor.Right := by
    intro ops
    have hlegible := he.legible
    obtain ⟨bound, hall⟩ := he
    obtain ⟨rs, hrun, hgives⟩ := hall (bound + t.fuelBound + 2 * d.units.length + 2) (by omega) ops
    obtain ⟨rs', hrun', hgives'⟩ := run_of_shown hlegible hshown
      (show t.fuelBound ≤ bound + t.fuelBound + 2 * d.units.length + 2 by omega) (by omega) ops
    rw [dir40Reset_eq] at hrun
    have heq := hrun.symm.trans hrun'
    simp only [Option.some.injEq, Prod.mk.injEq, Except.ok.injEq, and_true] at heq
    subst heq
    rw [show d.cursor.keys.length = d.units.length from d.keys_length]
    refine gives_unique hgives' ?_ ?_ hgives
    · intro i hi
      exact (d.cursor.run_le_length ops _ _ i hi).trans (Nat.le_of_eq d.keys_length)
    · exact cursorWalk_le ops (Nat.zero_le _) (fun p hp => absurd hp List.not_mem_nil)
  have hfits := (Cursor.right_iff d.cursor_lawful).mp hright
  refine ⟨he.legible, hshown, hfits.first, hfits.runs, fun k hk => ?_⟩
  exact (lt_nextOffset_iff (key_offset_lt (List.mem_of_getLast? hk))).mp (hfits.last k hk)

/-- **Enumerating a directory**: all runs go through the entries in tree order and then to the end, exactly when
    their hashes can be read, no entry is hidden in its item, the first reading knows the key it reads, the counter holds the entries of one key
    and the last key has an offset behind it. -/
theorem dir40Readdir_iff (d : Directory t) (plugs : Key.NamePlugs) : d.Enumerates plugs ↔ d.Readable := by
  constructor
  · exact Enumerates.readable
  · intro h
    refine ⟨t.fuelBound + 2 * d.units.length + 2, fun fuel hfuel ops => ?_⟩
    obtain ⟨rs, hrun, hgives⟩ := run_of_shown h.legible h.shown (show t.fuelBound ≤ fuel by omega) (by omega) ops
    refine ⟨rs, by rw [dir40Reset_eq]; exact hrun, ?_⟩
    rw [h.right ops, show d.cursor.keys.length = d.units.length from d.keys_length] at hgives
    exact hgives

/-! ## A directory without an end -/

/-- A directory item with the entries ".", ".." and a name of 23 characters: seven "A", eight "B" and eight bytes
    255, all of them in its key. -/
def lastNameItem : Item where
  key := ⟨1048576, 0, 0, 0⟩
  flags := 0
  body := .cde40
    [⟨0, 0, 0, (42, 0, 65536), []⟩,
     ⟨12998426463567872, 0, 0, (41, 0, 42), []⟩,
     ⟨18367622009667905, 4774451407313060418, maxUint64, (65536, 0, 65537), []⟩]

/-- The name is what its key says. -/
example : Key.buildHashed .large ⟨fun _ => 0, fun _ => 0⟩ 65536
      (List.replicate 7 65 ++ List.replicate 8 66 ++ List.replicate 8 255) =
    ⟨1048576, 18367622009667905, 4774451407313060418, maxUint64⟩ := by decide

/-- A twig node with a pointer to a leaf with the stat data of the directory and that item. -/
def lastNameTree : Tree where
  store blk :=
    if blk = 23 then some ⟨2, [⟨⟨673, 0, 65536, 0⟩, 0, .nodeptr40 24⟩]⟩
    else if blk = 24 then
      some ⟨1, [⟨⟨673, 0, 65536, 0⟩, 0, .stat40 [1, 0, 237, 65, 2, 0, 0, 0, 3, 0, 0, 0, 0, 0, 0, 0]⟩, lastNameItem]⟩
    else none
  root := some 23
  height := 2
  blksize := 4096
  pol := .large

theorem lastNameItem_wf : lastNameItem.WF .large 4096 where
  key_fits := ⟨by decide, by decide, by decide, by decide, by decide⟩
  units_pos := by decide
  key_first := by decide
  cde es hb := by
    simp only [lastNameItem, Body.cde40.injEq] at hb
    subst hb
    refine ⟨by decide, ?_⟩
    intro e he
    simp only [List.mem_cons, List.not_mem_nil, or_false] at he
    rcases he with rfl | rfl | rfl
    · exact ⟨by decide, by decide, by decide, by decide, by decide⟩
    · exact ⟨by decide, by decide, by decide, by decide, by decide⟩
    · exact ⟨by decide, by decide, by decide, by decide, by decide⟩
  tail ds hb := by
    rcases hb with hb | ⟨s, hb⟩ <;> simp [lastNameItem] at hb
  extent us hb := by simp [lastNameItem] at hb

/-- A stat data is well formed when its key fits. -/
theorem statItem_wf {key : Key} (hf : key.Fits .large) (data : List UInt8) :
    (⟨key, 0, .stat40 data⟩ : Item).WF .large 4096 where
  key_fits := hf
  units_pos := Nat.one_pos
  key_first := rfl
  cde es hb := by simp at hb
  tail ds hb := by
    rcases hb with hb | ⟨s, hb⟩ <;> simp at hb
  extent us hb := by simp at hb

theorem lastNameTree_wf : lastNameTree.WF where
  blksize := by decide
  sound r hr := by
    have hr23 : 23 = r := Option.some.inj hr
    subst hr23
    refine ⟨_, rfl, rfl, ?_⟩
    intro it hit
    rw [List.mem_singleton.mp hit]
    refine ⟨by decide, _, rfl, rfl, ?_⟩
    intro it hit
    rcases List.mem_cons.mp hit with rfl | hit
    · exact ⟨statItem_wf ⟨by decide, by decide, by decide, by decide, by decide⟩ _, Or.inl rfl⟩
    · rw [List.mem_singleton.mp hit]
      exact ⟨lastNameItem_wf, Or.inl rfl⟩
  ordered := by decide

/-- The directory with that item. -/
def lastNameDir : Directory lastNameTree where
  objectid := 65536
  wf := lastNameTree_wf
  root := by decide
  items := by decide

/-- **A directory without an end**: behind its last name the position wraps to the front of the name, which is read
    again and again; so the directory is not enumerated as it should be. -/
theorem dir40Readdir_again :
    ((dir40Run 20 (List.replicate 5 .read) (dir40Reset .large ⟨fun _ => 0, fun _ => 0⟩ 65536) []).run
        lastNameTree).map (fun r => r.1.toOption.map fun rs => rs.map fun h => h.map fun h => h.place.unit) =
      some (some [some 0, some 1, some 2, some 2, some 2]) ∧
      ¬ lastNameDir.Enumerates ⟨fun _ => 0, fun _ => 0⟩ := by
  refine ⟨by decide +kernel, fun he => ?_⟩
  have hlast : lastNameDir.keys.getLast? = some ⟨1048576, 18367622009667905, 4774451407313060418, maxUint64⟩ := by
    decide
  exact he.readable.last _ hlast rfl

end Directory

/-- Positions can be kept and set: "." and "..", and ".." again from where it was. -/
example : ((dir40Run 20 [.read, .tell, .read, .seek 0, .read] (dir40Reset .large ⟨fun _ => 0, fun _ => 0⟩ 65536)
    []).run Directory.lastNameTree).map (fun r => r.1.toOption.map fun rs => rs.map fun h => h.map DirentHint.name) =
      some (some [some [46], some [46, 46], some [46, 46]]) := by decide +kernel

end Reiser4
