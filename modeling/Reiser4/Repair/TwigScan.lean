/-
  The pass over the twigs (`repair_twig_scan` of `librepair/twig_scan.c`, `extent40_check_layout`).

  The pass visits the twigs in the order of their block numbers and in each of them the items.  An
  extent unit whose blocks are outside the file system or already met becomes a hole; the blocks of any
  other are marked as met.  Then neighbouring units are joined.

  The specification is a fold over the units in the same order, `refuse`, that knows of the bitmap only
  the set it stands for; `Adds` says what such a fold does to the set.  The code's run is compared with
  the fold from below:

    1. `itemRegionCheck_spec`, `checkUnits_spec`   one unit, the units of an item;
    2. `nodeTrav_spec`     the items of a twig;
    3. `twigLoop_spec`     the twigs, by the marks of their bitmap;
    4. `repairTwigScan_disjoint_iff`   when the pass leaves disjoint extents and keeps the maps.

  What memory holds behind an item is a parameter: cutting a unit out of an item moves in the 16 bytes
  behind the item.  In fix mode that shows when no unit of the item has a width.
-/
import Reiser4.Item.Extent
import Reiser4.Aal
import Reiser4.Lib.Run

namespace Reiser4.Repair

open Reiser4.Lib

/-- `RM_CHECK`, `RM_FIX` and `RM_BUILD`. -/
inductive Mode
  | check | fix | build
  deriving DecidableEq, Repr

/-- What a check answers: 0, `RE_FIXABLE` or `RE_FATAL`. -/
inductive RepairError
  | ok | fixable | fatal
  deriving DecidableEq, Repr

/-- A twig in memory. -/
structure Twig where
  items : List Item
  dirty : Bool

/-- `repair_ts_t`, with the twigs the tree can open and the counters of `repair_data_t`. -/
structure Ts where
  bmMet : Bitmap
  bmUsed : Option Bitmap
  bmTwig : Bitmap
  nodes : Nat → Option Twig
  badUnfmPtrs : Nat
  readTwigs : Nat
  fixedTwigs : Nat
  fixable : Nat
  fatal : Nat

section Model

variable (aal : AalBits)

/-- Mark the region in `bm_used`, where there is one. -/
def markUsed (start count : Nat) : Run Ts Errno Unit := do
  let ts ← Run.get
  match ts.bmUsed with
  | none => pure ()
  | some used => do
    let used ← Run.lift (reiser4BitmapMarkRegion aal used start count)
    Run.modify fun ts => { ts with bmUsed := some used }

/-- `cb_item_region_check`. -/
def cbItemRegionCheck (start count : Nat) : Run Ts Errno RepairError := do
  let ts ← Run.get
  if start ≥ ts.bmMet.total ∨ count > ts.bmMet.total ∨ start > ts.bmMet.total - count then do
    Run.modify fun ts => { ts with badUnfmPtrs := ts.badUnfmPtrs + 1 }
    pure .fatal
  else do
    let free ← Run.lift (reiser4BitmapTestRegion aal ts.bmMet start count false)
    if free = false then do
      Run.modify fun ts => { ts with badUnfmPtrs := ts.badUnfmPtrs + 1 }
      pure .fixable
    else do
      markUsed aal start count
      let ts ← Run.get
      let met ← Run.lift (reiser4BitmapMarkRegion aal ts.bmMet start count)
      Run.modify fun ts => { ts with bmMet := met }
      pure .ok

/-- The loop of `extent40_check_layout`: the units afterwards, and its result. -/
def checkUnits (mode : Mode) (func : Nat → Nat → Run Ts Errno RepairError) :
    List ExtentUnit → Run Ts Errno (List ExtentUnit × RepairError)
  | [] => pure ([], .ok)
  | e :: us =>
    if e.start = extentHoleUnit ∨ e.start = extentUnallocUnit ∨ e.width = 0 then do
      let r ← checkUnits mode func us
      pure (e :: r.1, r.2)
    else do
      let res ← func e.start e.width
      let r ← checkUnits mode func us
      if res = .ok then pure (e :: r.1, r.2)
      else if mode ≠ .check then pure ({ e with start := 0 } :: r.1, r.2)
      else pure (e :: r.1, .fixable)

/-- The end of `extent40_check_layout` and `repair_item_check_fini`.  Every unit cut out moves the unit
    `behind` the item into its last place; when all are cut out the length of the item stays, and with
    it that many copies. -/
def finishUnits (behind : ExtentUnit) (us : List ExtentUnit) : List ExtentUnit × RepairError :=
  let r := extent40JoinUnits us
  if r.2 = 0 then (r.1, .ok)
  else if r.1 = [] then (List.replicate us.length behind, .fatal)
  else (r.1, .ok)

/-- `repair_item_check_layout`; only extents have a layout to check here.  What the check itself has
    answered is dropped when no unit was cut out.  The second part says whether the node is dirty. -/
def repairItemCheckLayout (mode : Mode) (behind : ExtentUnit) (it : Item) :
    Run Ts Errno (Item × Bool × RepairError) :=
  match it.body with
  | .extent40 us => do
    let r ← checkUnits mode (cbItemRegionCheck aal) us
    if mode = .check then pure (it, false, .ok)
    else
      let f := finishUnits behind r.1
      pure ({ it with body := .extent40 f.1 }, r.1 != us || (extent40JoinUnits r.1).2 != 0, f.2)
  | _ => pure (it, false, .ok)

/-- `cb_check_layout`: the item that is left, if any, and whether the node is dirty. -/
def cbCheckLayout (mode : Mode) (behind : ExtentUnit) (it : Item) :
    Run Ts Errno (Option Item × Bool) :=
  if it.downLink.isSome then pure (some it, false)
  else do
    let r ← repairItemCheckLayout aal mode behind it
    match r.2.2 with
    | .ok => pure (some r.1, r.2.1)
    | .fixable => do
      Run.modify fun ts => { ts with fixable := ts.fixable + 1 }
      pure (some r.1, r.2.1)
    | .fatal =>
      if mode = .build then pure (none, true)
      else do
        Run.modify fun ts => { ts with fatal := ts.fatal + 1 }
        pure (some r.1, r.2.1)

/-- `reiser4_node_trav` with this callback; the items are numbered as they are visited. -/
def nodeTrav (mode : Mode) (behind : Nat → ExtentUnit) : Nat → List Item →
    Run Ts Errno (List Item × Bool)
  | _, [] => pure ([], false)
  | k, it :: rest => do
    let r ← cbCheckLayout aal mode (behind k) it
    let s ← nodeTrav mode behind (k + 1) rest
    pure (r.1.toList ++ s.1, r.2 || s.2)

/-- The loop of `repair_twig_scan`. -/
def twigLoop (mode : Mode) (behind : Nat → Nat → ExtentUnit) : Nat → Nat → Run Ts Errno Unit
  | 0, _ => Run.hang
  | fuel + 1, blk => do
    let ts ← Run.get
    let blk ← Run.lift (reiser4BitmapFindMarked aal ts.bmTwig blk)
    if blk = invalBlk then pure ()
    else do
      Run.modify fun ts => { ts with readTwigs := ts.readTwigs + 1 }
      match ts.nodes blk with
      | none => Run.fail .einval
      | some twig => do
        let r ← nodeTrav aal mode (behind blk) 0 twig.items
        Run.modify fun ts => { ts with
          nodes := fun n =>
            if n = blk then some { items := r.1, dirty := twig.dirty || r.2 } else ts.nodes n
          fixedTwigs := ts.fixedTwigs + if twig.dirty || r.2 then 1 else 0 }
        twigLoop mode behind fuel (blk + 1)

/-- `repair_twig_scan`. -/
def repairTwigScan (mode : Mode) (behind : Nat → Nat → ExtentUnit) (fuel : Nat) :
    Run Ts Errno Unit :=
  twigLoop aal mode behind fuel 0

end Model

/-! ## The units that are refused -/

/-- The blocks of the unit are in the file system and none of them is met. -/
def regionFree (total : Nat) (m : Nat → Bool) (e : ExtentUnit) : Bool :=
  decide (e.start + e.width ≤ total) && (List.range' e.start e.width).all fun j => !m j

/-- The set with the blocks of the unit. -/
def markUnit (m : Nat → Bool) (e : ExtentUnit) : Nat → Bool :=
  fun j => decide (e.start ≤ j ∧ j < e.start + e.width) || m j

/-- First come, first served: a unit whose blocks are not free becomes a hole. -/
def refuse (total : Nat) : (Nat → Bool) → List ExtentUnit → (Nat → Bool) × List ExtentUnit
  | m, [] => (m, [])
  | m, e :: us =>
    if e.isDisk && e.width != 0 then
      if regionFree total m e then
        let r := refuse total (markUnit m e) us
        (r.1, e :: r.2)
      else
        let r := refuse total m us
        (r.1, { e with start := extentHoleUnit } :: r.2)
    else
      let r := refuse total m us
      (r.1, e :: r.2)

/-- The same for an item. -/
def refuseItem (total : Nat) (m : Nat → Bool) (it : Item) : (Nat → Bool) × Item :=
  match it.body with
  | .extent40 us =>
    let r := refuse total m us
    (r.1, { it with body := .extent40 r.2 })
  | _ => (m, it)

/-- For the items of a twig. -/
def refuseItems (total : Nat) : (Nat → Bool) → List Item → (Nat → Bool) × List Item
  | m, [] => (m, [])
  | m, it :: rest =>
    let r := refuseItem total m it
    let s := refuseItems total r.1 rest
    (s.1, r.2 :: s.2)

/-- And for the twigs. -/
def refuseTwigs (total : Nat) : (Nat → Bool) → List (List Item) → (Nat → Bool) × List (List Item)
  | m, [] => (m, [])
  | m, items :: rest =>
    let r := refuseItems total m items
    let s := refuseTwigs total r.1 rest
    (s.1, r.2 :: s.2)

/-- The disk blocks of an item, and of a twig. -/
def itemDisk (it : Item) : List Nat :=
  match it.body with
  | .extent40 us => extentDisk us
  | _ => []

def itemsDisk (items : List Item) : List Nat := items.flatMap itemDisk

/-- The blocks `d` are added to the set `m`: they are blocks of the file system, no two are the same,
    and none was in the set. -/
structure Adds (total : Nat) (m m' : Nat → Bool) (d : List Nat) : Prop where
  mem : ∀ j, m' j = true ↔ m j = true ∨ j ∈ d
  nodup : d.Nodup
  inside : ∀ j ∈ d, j < total
  fresh : ∀ j ∈ d, m j = false

section Adds

variable {total : Nat} {m m' m'' : Nat → Bool} {d d' : List Nat}

theorem Adds.refl (total : Nat) (m : Nat → Bool) : Adds total m m [] :=
  ⟨by simp, List.nodup_nil, by simp, by simp⟩

theorem Adds.trans (h : Adds total m m' d) (h' : Adds total m' m'' d') :
    Adds total m m'' (d ++ d') := by
  have hout : ∀ j ∈ d', m' j = false → m j = false ∧ j ∉ d := by
    intro j _ hno
    have := h.mem j
    rw [hno] at this
    simp only [Bool.false_eq_true, false_iff, not_or] at this
    exact ⟨by simpa using this.1, this.2⟩
  refine ⟨?_, ?_, ?_, ?_⟩
  · intro j
    rw [h'.mem, h.mem, List.mem_append, or_assoc]
  · refine List.nodup_append.mpr ⟨h.nodup, h'.nodup, ?_⟩
    rintro j hj k hk rfl
    exact (hout j hk (h'.fresh j hk)).2 hj
  · intro j hj
    rcases List.mem_append.mp hj with hj | hj
    · exact h.inside j hj
    · exact h'.inside j hj
  · intro j hj
    rcases List.mem_append.mp hj with hj | hj
    · exact h.fresh j hj
    · exact (hout j hj (h'.fresh j hj)).1

/-- The units of an item add the blocks of those that are not refused. -/
theorem refuse_adds (total : Nat) : ∀ (us : List ExtentUnit) (m : Nat → Bool),
    Adds total m (refuse total m us).1 (extentDisk (refuse total m us).2)
  | [], m => Adds.refl total m
  | e :: us, m => by
    rw [refuse]
    cases hdisk : e.isDisk && e.width != 0 with
    | false =>
      -- A unit without disk blocks adds nothing.
      have hnone : e.blocks.reduceOption = [] := by
        rcases Bool.and_eq_false_iff.mp hdisk with h | h
        · exact blocks_reduce_hole h
        · have h0 : e.width = 0 := by simpa using h
          have hnil : e.blocks = [] := List.eq_nil_of_length_eq_zero (by rw [blocks_length, h0])
          rw [hnil]
          rfl
      rw [if_neg (by decide)]
      show Adds total m _ (extentMap (e :: _)).reduceOption
      rw [extentMap_cons, List.reduceOption_append, hnone, List.nil_append]
      exact refuse_adds total us m
    | true =>
      rw [if_pos rfl]
      have hd : e.isDisk = true := by
        cases h : e.isDisk with
        | true => rfl
        | false => simp [h] at hdisk
      cases hfree : regionFree total m e with
      | false =>
        have hhole : ({ e with start := extentHoleUnit } : ExtentUnit).blocks.reduceOption = [] :=
          blocks_reduce_hole rfl
        rw [if_neg (by decide)]
        show Adds total m _ (extentMap (_ :: _)).reduceOption
        rw [extentMap_cons, List.reduceOption_append, hhole, List.nil_append]
        exact refuse_adds total us m
      | true =>
        rw [if_pos rfl]
        show Adds total m _ (extentMap (e :: _)).reduceOption
        rw [extentMap_cons, List.reduceOption_append, blocks_reduce_disk hd]
        refine Adds.trans ?_ (refuse_adds total us (markUnit m e))
        unfold regionFree at hfree
        simp only [Bool.and_eq_true, decide_eq_true_eq, List.all_eq_true, Bool.not_eq_true'] at hfree
        refine ⟨?_, List.nodup_range', ?_, hfree.2⟩
        · intro j
          unfold markUnit
          rw [Bool.or_eq_true, decide_eq_true_eq, List.mem_range'_1, or_comm]
        · intro j hj
          have := List.mem_range'_1.mp hj
          omega

theorem refuseItem_adds (total : Nat) (m : Nat → Bool) (it : Item) :
    Adds total m (refuseItem total m it).1 (itemDisk (refuseItem total m it).2) := by
  unfold refuseItem itemDisk
  cases hb : it.body with
  | extent40 us => exact refuse_adds total us m
  | stat40 _ | bbox40 _ | nodeptr40 _ | cde40 _ | plain40 _ | ctail40 _ _ =>
    simp only [hb]
    exact Adds.refl total m

theorem refuseItems_adds (total : Nat) : ∀ (items : List Item) (m : Nat → Bool),
    Adds total m (refuseItems total m items).1 (itemsDisk (refuseItems total m items).2)
  | [], m => Adds.refl total m
  | it :: rest, m => (refuseItem_adds total m it).trans (refuseItems_adds total rest _)

theorem refuseTwigs_adds (total : Nat) : ∀ (twigs : List (List Item)) (m : Nat → Bool),
    Adds total m (refuseTwigs total m twigs).1 ((refuseTwigs total m twigs).2.flatMap itemsDisk)
  | [], m => Adds.refl total m
  | items :: rest, m => (refuseItems_adds total items m).trans (refuseTwigs_adds total rest _)

end Adds

/-! ## What the code does -/

section Specs

variable {aal : AalBits} {mode : Mode}

/-- What no check changes. -/
structure Frame (ts ts' : Ts) : Prop where
  sized : ts'.bmMet.Sized
  total : ts'.bmMet.total = ts.bmMet.total
  twig : ts'.bmTwig = ts.bmTwig
  nodes : ts'.nodes = ts.nodes

theorem Frame.trans {ts ts' ts'' : Ts} (h : Frame ts ts') (h' : Frame ts' ts'') : Frame ts ts'' :=
  ⟨h'.sized, h'.total.trans h.total, h'.twig.trans h.twig, h'.nodes.trans h.nodes⟩

theorem lift_run {α : Type} {o : Option α} {x : α} {ts ts' : Ts}
    (h : (Run.lift o : Run Ts Errno α).run ts = some (.ok x, ts')) : o = some x ∧ ts' = ts := by
  cases o with
  | none => cases h
  | some y =>
    cases h
    exact ⟨rfl, rfl⟩

theorem markUsed_frame {start count : Nat} {ts ts' : Ts} (hs : ts.bmMet.Sized)
    (hrun : (markUsed aal start count).run ts = some (.ok (), ts')) :
    Frame ts ts' ∧ ts'.bmMet = ts.bmMet := by
  unfold markUsed at hrun
  rw [Run.get_bind] at hrun
  split at hrun
  · cases hrun
    exact ⟨⟨hs, rfl, rfl, rfl⟩, rfl⟩
  · obtain ⟨used, ts1, h1, h2⟩ := Run.bind_ok.mp hrun
    obtain ⟨-, rfl⟩ := lift_run h1
    cases h2
    exact ⟨⟨hs, rfl, rfl, rfl⟩, rfl⟩

/-- One unit: its region is marked when it is free, and refused otherwise. -/
theorem itemRegionCheck_spec {e : ExtentUnit} {ts ts' : Ts} {res : RepairError}
    (hs : ts.bmMet.Sized) (hpos : 0 < e.width)
    (hrun : (cbItemRegionCheck aal e.start e.width).run ts = some (.ok res, ts')) :
    Frame ts ts' ∧
      if regionFree ts.bmMet.total (ts.bmMet.has aal) e then
        res = .ok ∧ ts'.bmMet.has aal = markUnit (ts.bmMet.has aal) e
      else res ≠ .ok ∧ ts'.bmMet = ts.bmMet := by
  unfold cbItemRegionCheck at hrun
  rw [Run.get_bind] at hrun
  split at hrun
  · next hout =>
    have hfree : regionFree ts.bmMet.total (ts.bmMet.has aal) e = false := by
      unfold regionFree
      rw [decide_eq_false (by omega), Bool.false_and]
    rw [hfree]
    cases hrun
    exact ⟨⟨hs, rfl, rfl, rfl⟩, by decide, rfl⟩
  · next hin =>
    have hle : e.start + e.width ≤ ts.bmMet.total := by omega
    obtain ⟨t, ht, htest⟩ := testRegion_spec aal hs hpos hle false
    have hfree : regionFree ts.bmMet.total (ts.bmMet.has aal) e = t := by
      unfold regionFree
      rw [decide_eq_true hle, Bool.true_and, Bool.eq_iff_iff, htest, List.all_eq_true]
      constructor
      · intro hall j h1 h2
        simpa using hall j (List.mem_range'_1.mpr ⟨h1, h2⟩)
      · intro hall j hj
        obtain ⟨h1, h2⟩ := List.mem_range'_1.mp hj
        simp [hall j h1 h2]
    rw [ht, Run.bind_of_ok (Run.lift_some _ _)] at hrun
    rw [hfree]
    cases t with
    | false =>
      cases hrun
      exact ⟨⟨hs, rfl, rfl, rfl⟩, by decide, rfl⟩
    | true =>
      simp only [Bool.true_eq_false, if_false] at hrun
      obtain ⟨⟨⟩, ts1, h1, h2⟩ := Run.bind_ok.mp hrun
      obtain ⟨hframe, hmet⟩ := markUsed_frame hs h1
      rw [Run.get_bind] at h2
      obtain ⟨met, ts2, h3, h4⟩ := Run.bind_ok.mp h2
      obtain ⟨hmark, rfl⟩ := lift_run h3
      cases h4
      rw [hmet] at hmark
      obtain ⟨htotal, hsize⟩ := markRegion_size hmark
      have hhas : met.has aal = markUnit (ts.bmMet.has aal) e := by
        funext j
        rw [markRegion_has hs hmark j]
        unfold Bitmap.regionHas markUnit
        rw [decide_eq_true hle, Bool.true_and]
      refine ⟨⟨⟨?_, ?_⟩, htotal, hframe.twig, hframe.nodes⟩, rfl, hhas⟩
      · show met.size = (met.total + 7) / 8
        rw [hsize, htotal]
        exact hs.1
      · show met.size < two32
        rw [hsize]
        exact hs.2

/-- The units of an item, when the pass repairs. -/
theorem checkUnits_spec (hmode : mode ≠ .check) :
    ∀ {us us' : List ExtentUnit} {ts ts' : Ts} {res : RepairError}, ts.bmMet.Sized →
      (checkUnits mode (cbItemRegionCheck aal) us).run ts = some (.ok (us', res), ts') →
      Frame ts ts' ∧ us' = (refuse ts.bmMet.total (ts.bmMet.has aal) us).2 ∧
        ts'.bmMet.has aal = (refuse ts.bmMet.total (ts.bmMet.has aal) us).1
  | [], us', ts, ts', res, hs, hrun => by
    cases hrun
    exact ⟨⟨hs, rfl, rfl, rfl⟩, rfl, rfl⟩
  | e :: us, us', ts, ts', res, hs, hrun => by
    rw [checkUnits] at hrun
    rw [refuse]
    split at hrun
    · next hskip =>
      have hno : (e.isDisk && e.width != 0) = false := by
        unfold ExtentUnit.isDisk
        rcases hskip with h | h | h
        · simp [h]
        · simp [h]
        · simp [h]
      obtain ⟨⟨us1, res1⟩, ts1, h1, h2⟩ := Run.bind_ok.mp hrun
      cases h2
      obtain ⟨hframe, hus, hmet⟩ := checkUnits_spec hmode hs h1
      rw [hno, if_neg (by decide)]
      exact ⟨hframe, by rw [hus], hmet⟩
    · next hcheck =>
      rw [not_or, not_or] at hcheck
      have hyes : (e.isDisk && e.width != 0) = true := by
        unfold ExtentUnit.isDisk
        simp [hcheck.1, hcheck.2.1, hcheck.2.2]
      obtain ⟨res1, ts1, h1, h2⟩ := Run.bind_ok.mp hrun
      obtain ⟨⟨us2, res2⟩, ts2, h3, h4⟩ := Run.bind_ok.mp h2
      obtain ⟨hframe1, hres⟩ := itemRegionCheck_spec hs (Nat.pos_of_ne_zero hcheck.2.2) h1
      obtain ⟨hframe, hus, hmet⟩ := checkUnits_spec hmode hframe1.sized h3
      rw [hframe1.total] at hus hmet
      rw [hyes, if_pos rfl]
      split at hres
      · next hfree =>
        obtain ⟨rfl, hmark⟩ := hres
        rw [if_pos rfl] at h4
        cases h4
        rw [hmark] at hus hmet
        rw [if_pos hfree]
        exact ⟨hframe1.trans hframe, by rw [hus], hmet⟩
      · next hfree =>
        obtain ⟨hne, hsame⟩ := hres
        rw [if_neg hne] at h4
        cases h4
        rw [hsame] at hus hmet
        rw [if_neg hfree]
        exact ⟨hframe1.trans hframe, by rw [hus]; rfl, hmet⟩

/-- All units of the item have no width, and there are some. -/
def emptied (it : Item) : Bool :=
  match it.body with
  | .extent40 us => !us.isEmpty && us.all fun e => e.width == 0
  | _ => false

/-- What becomes of an item once its refused units are holes. -/
def settleItem (mode : Mode) (behind : ExtentUnit) (z : Item) : Option Item :=
  match z.body with
  | .extent40 us =>
    if mode = .build ∧ emptied z = true then none
    else some { z with body := .extent40 (finishUnits behind us).1 }
  | _ => some z

/-- The item is given up exactly when all its units were cut out. -/
theorem finishUnits_fatal {behind : ExtentUnit} {z : Item} {us : List ExtentUnit}
    (hz : z.body = .extent40 us) :
    (finishUnits behind us).2 = if emptied z then .fatal else .ok := by
  have hlen := joinLoop_count [] us
  have hnil := joinLoop_eq_nil us []
  unfold finishUnits extent40JoinUnits emptied
  rw [hz]
  dsimp only
  have hemp : (!us.isEmpty && us.all fun e => e.width == 0) = true ↔
      us ≠ [] ∧ ∀ e ∈ us, e.width = 0 := by
    simp
  rw [List.length_nil, Nat.zero_add] at hlen
  split
  · next h0 =>
    rw [if_neg]
    rw [hemp]
    rintro ⟨hne, hall⟩
    rw [hnil.mpr ⟨rfl, hall⟩, h0] at hlen
    exact hne (List.eq_nil_of_length_eq_zero (by simpa using hlen.symm))
  · next h0 =>
    split
    · next hj =>
      rw [if_pos]
      rw [hemp]
      refine ⟨?_, (hnil.mp hj).2⟩
      rintro rfl
      simp [joinLoop] at h0
    · next hj =>
      rw [if_neg]
      rw [hemp]
      rintro ⟨-, hall⟩
      exact hj (hnil.mpr ⟨rfl, hall⟩)

/-- One item. -/
theorem cbCheckLayout_spec (hmode : mode ≠ .check) {behind : ExtentUnit} {it : Item} {ts ts' : Ts}
    {r : Option Item × Bool} (hs : ts.bmMet.Sized)
    (hrun : (cbCheckLayout aal mode behind it).run ts = some (.ok r, ts')) :
    Frame ts ts' ∧
      r.1 = settleItem mode behind (refuseItem ts.bmMet.total (ts.bmMet.has aal) it).2 ∧
      ts'.bmMet.has aal = (refuseItem ts.bmMet.total (ts.bmMet.has aal) it).1 := by
  unfold cbCheckLayout at hrun
  unfold refuseItem
  cases hb : it.body with
  | extent40 us =>
    have hlink : it.downLink = none := by
      unfold Item.downLink
      rw [hb]
    rw [hlink, if_neg (by decide)] at hrun
    obtain ⟨p, ts1, h1, h2⟩ := Run.bind_ok.mp hrun
    unfold repairItemCheckLayout at h1
    rw [hb] at h1
    obtain ⟨⟨us1, res⟩, ts2, h3, h4⟩ := Run.bind_ok.mp h1
    obtain ⟨hframe, hus, hmet⟩ := checkUnits_spec hmode hs h3
    rw [if_neg hmode] at h4
    cases h4
    obtain ⟨z, hz⟩ : ∃ z : Item, z = { it with body := .extent40 us1 } := ⟨_, rfl⟩
    have hbody : z.body = .extent40 us1 := by rw [hz]
    have hfatal : (finishUnits behind us1).2 = if emptied z then .fatal else .ok :=
      finishUnits_fatal hbody
    dsimp only at h2 ⊢
    rw [← hus, ← hz]
    unfold settleItem
    rw [hfatal] at h2
    have hsame : ({ it with body := .extent40 (finishUnits behind us1).1 } : Item) =
        { z with body := .extent40 (finishUnits behind us1).1 } := by rw [hz]
    rw [hbody]
    dsimp only
    cases hemp : emptied z with
    | false =>
      rw [hemp] at h2
      cases h2
      rw [if_neg (by simp), ← hsame]
      exact ⟨hframe, rfl, hmet⟩
    | true =>
      rw [hemp, if_pos rfl] at h2
      dsimp only at h2
      by_cases hbuild : mode = .build
      · rw [if_pos hbuild] at h2
        cases h2
        rw [if_pos ⟨hbuild, rfl⟩]
        exact ⟨hframe, rfl, hmet⟩
      · rw [if_neg hbuild] at h2
        cases h2
        rw [if_neg (fun h => hbuild h.1), ← hsame]
        exact ⟨⟨hframe.sized, hframe.total, hframe.twig, hframe.nodes⟩, rfl, hmet⟩
  | nodeptr40 ptr =>
    have hlink : it.downLink = some ptr := by
      unfold Item.downLink
      rw [hb]
    rw [hlink] at hrun
    cases hrun
    unfold settleItem
    rw [hb]
    exact ⟨⟨hs, rfl, rfl, rfl⟩, rfl, rfl⟩
  | stat40 _ | bbox40 _ | cde40 _ | plain40 _ | ctail40 _ _ =>
    have hlink : it.downLink = none := by
      unfold Item.downLink
      rw [hb]
    rw [hlink, if_neg (by decide)] at hrun
    unfold repairItemCheckLayout at hrun
    rw [hb] at hrun
    cases hrun
    unfold settleItem
    rw [hb]
    exact ⟨⟨hs, rfl, rfl, rfl⟩, rfl, rfl⟩

/-- The items of a twig, the first one being number `k`. -/
def settleItems (mode : Mode) (behind : Nat → ExtentUnit) : Nat → List Item → List Item
  | _, [] => []
  | k, z :: zs => (settleItem mode (behind k) z).toList ++ settleItems mode behind (k + 1) zs

theorem nodeTrav_spec (hmode : mode ≠ .check) {behind : Nat → ExtentUnit} :
    ∀ {items : List Item} {k : Nat} {ts ts' : Ts} {r : List Item × Bool}, ts.bmMet.Sized →
      (nodeTrav aal mode behind k items).run ts = some (.ok r, ts') →
      Frame ts ts' ∧
        r.1 = settleItems mode behind k
          (refuseItems ts.bmMet.total (ts.bmMet.has aal) items).2 ∧
        ts'.bmMet.has aal = (refuseItems ts.bmMet.total (ts.bmMet.has aal) items).1
  | [], k, ts, ts', r, hs, hrun => by
    cases hrun
    exact ⟨⟨hs, rfl, rfl, rfl⟩, rfl, rfl⟩
  | it :: rest, k, ts, ts', r, hs, hrun => by
    rw [nodeTrav] at hrun
    obtain ⟨p, ts1, h1, h2⟩ := Run.bind_ok.mp hrun
    obtain ⟨q, ts2, h3, h4⟩ := Run.bind_ok.mp h2
    cases h4
    obtain ⟨hframe1, hp, hmet1⟩ := cbCheckLayout_spec hmode hs h1
    obtain ⟨hframe, hq, hmet⟩ := nodeTrav_spec hmode hframe1.sized h3
    rw [hframe1.total, hmet1] at hq hmet
    rw [refuseItems]
    refine ⟨hframe1.trans hframe, ?_, hmet⟩
    show p.1.toList ++ q.1 = _
    rw [hp, hq]
    rfl

/-- The items of a twig, none for a block that is not one. -/
def itemsAt (nodes : Nat → Option Twig) (blk : Nat) : List Item :=
  match nodes blk with
  | none => []
  | some twig => twig.items

/-- The marked blocks from `blk` on, in order. -/
def marksFrom (aal : AalBits) (b : Bitmap) (blk : Nat) : List Nat :=
  (List.range' blk (b.total - blk)).filter (b.has aal)

theorem marksFrom_nil {b : Bitmap} {blk : Nat} (h : ∀ j, blk ≤ j → b.has aal j = false) :
    marksFrom aal b blk = [] := by
  unfold marksFrom
  rw [List.filter_eq_nil_iff]
  intro j hj
  rw [h j (List.mem_range'_1.mp hj).1]
  decide

theorem marksFrom_cons {b : Bitmap} {blk next : Nat} (hle : blk ≤ next)
    (hnext : b.has aal next = true) (h : ∀ j, blk ≤ j → j < next → b.has aal j = false) :
    marksFrom aal b blk = next :: marksFrom aal b (next + 1) := by
  have hlt := Bitmap.has_lt hnext
  unfold marksFrom
  have hsplit : List.range' blk (b.total - blk) =
      List.range' blk (next - blk) ++ next :: List.range' (next + 1) (b.total - (next + 1)) := by
    have h1 : next :: List.range' (next + 1) (b.total - (next + 1)) =
        List.range' next (b.total - next) := by
      rw [show b.total - next = b.total - (next + 1) + 1 by omega, List.range'_succ]
    have h2 := List.range'_append_1 (s := blk) (m := next - blk) (n := b.total - next)
    rw [show blk + (next - blk) = next by omega] at h2
    rw [h1, h2]
    congr 1
    omega
  have hfront : (List.range' blk (next - blk)).filter (b.has aal) = [] := by
    rw [List.filter_eq_nil_iff]
    intro j hj
    obtain ⟨h1, h2⟩ := List.mem_range'_1.mp hj
    rw [h j h1 (by omega)]
    decide
  rw [hsplit, List.filter_append, hfront, List.nil_append, List.filter_cons, if_pos hnext]

theorem mem_marksFrom {b : Bitmap} {blk j : Nat} (h : j ∈ marksFrom aal b blk) : blk ≤ j := by
  unfold marksFrom at h
  exact (List.mem_range'_1.mp (List.mem_filter.mp h).1).1

/-- The twigs, by the marks of their bitmap from `blk` on. -/
theorem twigLoop_spec (hmode : mode ≠ .check) {behind : Nat → Nat → ExtentUnit} :
    ∀ {fuel blk : Nat} {ts ts' : Ts}, ts.bmMet.Sized → ts.bmTwig.Sized →
      (twigLoop aal mode behind fuel blk).run ts = some (.ok (), ts') →
      let bs := marksFrom aal ts.bmTwig blk
      let r := refuseTwigs ts.bmMet.total (ts.bmMet.has aal) (bs.map (itemsAt ts.nodes))
      ts'.bmMet.has aal = r.1 ∧ (∀ b, b ∉ bs → ts'.nodes b = ts.nodes b) ∧
        bs.map (itemsAt ts'.nodes) =
          List.zipWith (fun b zs => settleItems mode (behind b) 0 zs) bs r.2
  | 0, _, _, _, _, _, hrun => by cases hrun
  | fuel + 1, blk, ts, ts', hs, ht, hrun => by
    intro bs r
    rw [twigLoop, Run.get_bind] at hrun
    rcases findMarked_spec aal ht blk with ⟨hf, hno⟩ | ⟨next, hf, hle, hhas, hbefore⟩
    · rw [hf, Run.bind_of_ok (Run.lift_some _ _), if_pos rfl] at hrun
      cases hrun
      have hbs : bs = [] := marksFrom_nil hno
      refine ⟨?_, fun b _ => rfl, ?_⟩
      · show _ = (refuseTwigs _ _ (bs.map _)).1
        rw [hbs]
        rfl
      · rw [hbs]
        rfl
    · have hlt := Bitmap.has_lt hhas
      have htotal := ht.total_lt
      have hbs : bs = next :: marksFrom aal ts.bmTwig (next + 1) := marksFrom_cons hle hhas hbefore
      have hvalid : next ≠ invalBlk := by
        unfold invalBlk
        omega
      rw [hf, Run.bind_of_ok (Run.lift_some _ _), if_neg hvalid, Run.modify_bind] at hrun
      cases hnode : ts.nodes next with
      | none =>
        simp only [hnode] at hrun
        cases hrun
      | some twig =>
        simp only [hnode] at hrun
        obtain ⟨p, ts1, h1, h2⟩ := Run.bind_ok.mp hrun
        obtain ⟨hframe, hp, hmet⟩ := nodeTrav_spec hmode
          (show Bitmap.Sized { ts with readTwigs := ts.readTwigs + 1 }.bmMet from hs) h1
        rw [Run.modify_bind] at h2
        obtain ⟨ts2, hts2⟩ : ∃ ts2 : Ts, ts2 = { ts1 with
            nodes := fun n => if n = next then some { items := p.1, dirty := twig.dirty || p.2 }
              else ts1.nodes n
            fixedTwigs := ts1.fixedTwigs + if twig.dirty || p.2 then 1 else 0 } := ⟨_, rfl⟩
        rw [← hts2] at h2
        have hs2 : ts2.bmMet = ts1.bmMet := by rw [hts2]
        have ht2 : ts2.bmTwig = ts.bmTwig := by
          rw [hts2]
          exact hframe.twig
        have hn2 : ∀ n, ts2.nodes n = if n = next then
            some { items := p.1, dirty := twig.dirty || p.2 } else ts.nodes n := by
          intro n
          rw [hts2]
          show (if n = next then _ else ts1.nodes n) = _
          rw [hframe.nodes]
        obtain ⟨hmet', hout, hitems⟩ := twigLoop_spec hmode (by rw [hs2]; exact hframe.sized)
          (by rw [ht2]; exact ht) h2
        rw [hs2, ht2, hframe.total] at hmet'
        rw [ht2] at hout
        rw [hs2, ht2, hframe.total] at hitems
        -- The later twigs are other blocks.
        have hlater : ∀ b ∈ marksFrom aal ts.bmTwig (next + 1), b ≠ next := by
          intro b hb heq
          have := mem_marksFrom hb
          omega
        have hsame : (marksFrom aal ts.bmTwig (next + 1)).map (itemsAt ts2.nodes) =
            (marksFrom aal ts.bmTwig (next + 1)).map (itemsAt ts.nodes) := by
          apply List.map_congr_left
          intro b hb
          unfold itemsAt
          rw [hn2, if_neg (hlater b hb)]
        have hself : next ∉ marksFrom aal ts.bmTwig (next + 1) := fun hb => hlater next hb rfl
        have hfirst : itemsAt ts.nodes next = twig.items := by
          unfold itemsAt
          rw [hnode]
        have hresult : itemsAt ts'.nodes next = p.1 := by
          unfold itemsAt
          rw [hout next hself, hn2, if_pos rfl]
        rw [hsame, hmet] at hmet' hitems
        refine ⟨?_, ?_, ?_⟩
        · show _ = (refuseTwigs _ _ (bs.map _)).1
          rw [hbs, List.map_cons, refuseTwigs, hfirst]
          exact hmet'
        · intro b hb
          rw [hbs, List.mem_cons, not_or] at hb
          rw [hout b hb.2, hn2, if_neg hb.1]
        · show bs.map _ = List.zipWith _ bs (refuseTwigs _ _ (bs.map _)).2
          rw [hbs, List.map_cons, List.map_cons, refuseTwigs, hfirst, hresult, hp, List.zipWith_cons_cons,
            hitems]

end Specs

/-! ## Disjoint extents -/

section Disjoint

/-- The same item, but for how an extent divides its blocks into units. -/
inductive SameItem : Item → Item → Prop
  | extent {key : Key} {flags : Nat} {us us' : List ExtentUnit} (h : extentMap us' = extentMap us) :
      SameItem ⟨key, flags, .extent40 us⟩ ⟨key, flags, .extent40 us'⟩
  | other {it : Item} (h : ∀ us, it.body ≠ .extent40 us) : SameItem it it

theorem SameItem.map {z it : Item} (h : SameItem z it) {us us' : List ExtentUnit}
    (hz : z.body = .extent40 us) (hit : it.body = .extent40 us') : extentMap us' = extentMap us := by
  cases h with
  | extent hmap =>
    cases hz
    cases hit
    exact hmap
  | other hoth => exact absurd hz (hoth us)

/-- In build mode an item whose units all have no width is removed. -/
def stays (mode : Mode) (z : Item) : Bool := !(mode == .build && emptied z)

/-- The items of a twig, of which only empty ones may have gone. -/
def SameItems (mode : Mode) (zs items : List Item) : Prop :=
  List.Forall₂ SameItem (zs.filter (stays mode)) items

/-- The twigs of the pass. -/
def scannedTwigs (aal : AalBits) (ts : Ts) : List Nat := marksFrom aal ts.bmTwig 0

/-- The disk blocks of the extents in the scanned twigs. -/
def scannedDisk (aal : AalBits) (ts ts' : Ts) : List Nat :=
  (scannedTwigs aal ts).flatMap fun b => itemsDisk (itemsAt ts'.nodes b)

/-- The items of the scanned twigs with the refused units turned into holes. -/
def scannedHoles (aal : AalBits) (ts : Ts) : List (List Item) :=
  (refuseTwigs ts.bmMet.total (ts.bmMet.has aal)
    ((scannedTwigs aal ts).map (itemsAt ts.nodes))).2

/-- The extents left are inside the file system, disjoint, and disjoint from what was met; the met
    blocks are the old ones and theirs; and the items map their blocks as before, but for the refused
    units. -/
structure ExtentsDisjoint (aal : AalBits) (mode : Mode) (ts ts' : Ts) : Prop where
  inside : ∀ j ∈ scannedDisk aal ts ts', j < ts.bmMet.total
  disjoint : (scannedDisk aal ts ts').Nodup
  fresh : ∀ j ∈ scannedDisk aal ts ts', ts.bmMet.has aal j = false
  met : ∀ j, ts'.bmMet.has aal j = true ↔
    ts.bmMet.has aal j = true ∨ j ∈ scannedDisk aal ts ts'
  maps : List.Forall₂ (SameItems mode) (scannedHoles aal ts)
    ((scannedTwigs aal ts).map (itemsAt ts'.nodes))

/-- Every join in the item is one of like units; and in fix mode, if none of its units has a width, the
    16 bytes behind it are a unit without a width. -/
def ItemOk (mode : Mode) (behind : ExtentUnit) (z : Item) : Prop :=
  match z.body with
  | .extent40 us => joinsOk none us = true ∧ (mode = .fix → emptied z = true → behind.width = 0)
  | _ => True

/-- Every number of an extent unit fits its 64 bits. -/
def FieldsFit (items : List Item) : Prop :=
  ∀ it ∈ items, ∀ us, it.body = .extent40 us → ∀ e ∈ us, e.start < two64 ∧ e.width < two64

/-- The units that are not refused end below 2^64. -/
def UnitsFit (z : Item) : Prop := ∀ us, z.body = .extent40 us → ∀ e ∈ us, e.Fits

variable {mode : Mode} {behind : ExtentUnit}

theorem refuse_fits {total : Nat} (htotal : total < two64) : ∀ (us : List ExtentUnit)
    (m : Nat → Bool), (∀ e ∈ us, e.start < two64 ∧ e.width < two64) →
    ∀ e ∈ (refuse total m us).2, e.Fits
  | [], _, _ => by simp [refuse]
  | e :: us, m, h => by
    have he := h e (by simp)
    have hus : ∀ x ∈ us, x.start < two64 ∧ x.width < two64 :=
      fun x hx => h x (List.mem_cons_of_mem _ hx)
    rw [refuse]
    cases hdisk : e.isDisk && e.width != 0 with
    | false =>
      rw [if_neg (by decide)]
      intro x hx
      rcases List.mem_cons.mp hx with rfl | hx
      · refine ⟨he.1, he.2, ?_⟩
        intro hd
        have h0 : x.width = 0 := by simpa [hd] using hdisk
        rw [h0]
        exact he.1
      · exact refuse_fits htotal us m hus x hx
    | true =>
      rw [if_pos rfl]
      cases hfree : regionFree total m e with
      | false =>
        rw [if_neg (by decide)]
        intro x hx
        rcases List.mem_cons.mp hx with rfl | hx
        · exact ⟨Nat.pos_of_ne_zero (by decide), he.2, fun hd => by cases hd⟩
        · exact refuse_fits htotal us m hus x hx
      | true =>
        rw [if_pos rfl]
        intro x hx
        rcases List.mem_cons.mp hx with rfl | hx
        · refine ⟨he.1, he.2, ?_⟩
          intro _
          unfold regionFree at hfree
          simp only [Bool.and_eq_true, decide_eq_true_eq] at hfree
          omega
        · exact refuse_fits htotal us _ hus x hx

theorem refuseItems_fits {total : Nat} (htotal : total < two64) : ∀ (items : List Item)
    (m : Nat → Bool), FieldsFit items → ∀ z ∈ (refuseItems total m items).2, UnitsFit z
  | [], _, _ => by simp [refuseItems]
  | it :: rest, m, h => by
    intro z hz
    rw [refuseItems] at hz
    rcases List.mem_cons.mp hz with rfl | hz
    · intro us hus
      unfold refuseItem at hus
      cases hb : it.body with
      | extent40 vs =>
        simp only [hb, Body.extent40.injEq] at hus
        rw [← hus]
        exact refuse_fits htotal vs m (h it (by simp) vs hb)
      | stat40 _ | bbox40 _ | nodeptr40 _ | cde40 _ | plain40 _ | ctail40 _ _ => simp [hb] at hus
    · exact refuseItems_fits htotal rest _ (fun x hx => h x (List.mem_cons_of_mem _ hx)) z hz

theorem refuseTwigs_fits {total : Nat} (htotal : total < two64) : ∀ (twigs : List (List Item))
    (m : Nat → Bool), (∀ items ∈ twigs, FieldsFit items) →
    ∀ zs ∈ (refuseTwigs total m twigs).2, ∀ z ∈ zs, UnitsFit z
  | [], _, _ => by simp [refuseTwigs]
  | items :: rest, m, h => by
    intro zs hzs
    rw [refuseTwigs] at hzs
    rcases List.mem_cons.mp hzs with rfl | hzs
    · exact refuseItems_fits htotal items m (h items (by simp))
    · exact refuseTwigs_fits htotal rest _ (fun x hx => h x (List.mem_cons_of_mem _ hx)) zs hzs

theorem refuseTwigs_length (total : Nat) : ∀ (twigs : List (List Item)) (m : Nat → Bool),
    (refuseTwigs total m twigs).2.length = twigs.length
  | [], _ => rfl
  | items :: rest, m => by
    rw [refuseTwigs, List.length_cons, List.length_cons, refuseTwigs_length total rest]

theorem emptied_iff {z : Item} {us : List ExtentUnit} (hz : z.body = .extent40 us) :
    emptied z = true ↔ us ≠ [] ∧ ∀ e ∈ us, e.width = 0 := by
  unfold emptied
  rw [hz]
  simp

/-- Without a width nothing is joined and nothing is mapped. -/
theorem joinsOk_of_empty : ∀ {us : List ExtentUnit}, (∀ e ∈ us, e.width = 0) →
    joinsOk none us = true ∧ extentMap us = []
  | [], _ => ⟨rfl, rfl⟩
  | e :: us, h => by
    have h0 := h e (by simp)
    have hnil : e.blocks = [] := List.eq_nil_of_length_eq_zero (by rw [blocks_length, h0])
    have hus : ∀ x ∈ us, x.width = 0 := fun x hx => h x (List.mem_cons_of_mem _ hx)
    obtain ⟨h1, h2⟩ := joinsOk_of_empty hus
    rw [joinsOk, if_pos h0, extentMap_cons, hnil, h2]
    exact ⟨h1, rfl⟩

theorem extentMap_replicate {n : Nat} (hn : n ≠ 0) (e : ExtentUnit) :
    extentMap (List.replicate n e) = [] ↔ e.width = 0 := by
  constructor
  · intro hnil
    obtain ⟨k, rfl⟩ := Nat.exists_eq_succ_of_ne_zero hn
    rw [List.replicate_succ, extentMap_cons, List.append_eq_nil_iff] at hnil
    rw [← blocks_length e, hnil.1]
    rfl
  · intro h0
    exact (joinsOk_of_empty fun x hx => by rw [List.eq_of_mem_replicate hx, h0]).2

/-- The units an item ends up with. -/
theorem finishUnits_units {z : Item} {us : List ExtentUnit} (hz : z.body = .extent40 us) :
    (finishUnits behind us).1 =
      if emptied z then List.replicate us.length behind else (extent40JoinUnits us).1 := by
  have hfatal : (finishUnits behind us).2 = if emptied z then .fatal else .ok :=
    finishUnits_fatal hz
  unfold finishUnits at hfatal ⊢
  dsimp only at hfatal ⊢
  by_cases h0 : (extent40JoinUnits us).2 = 0
  · rw [if_pos h0] at hfatal ⊢
    cases hemp : emptied z with
    | true =>
      rw [hemp] at hfatal
      cases hfatal
    | false => rfl
  · rw [if_neg h0] at hfatal ⊢
    by_cases hnil : (extent40JoinUnits us).1 = []
    · rw [if_pos hnil] at hfatal ⊢
      cases hemp : emptied z with
      | true => rfl
      | false =>
        rw [hemp] at hfatal
        cases hfatal
    · rw [if_neg hnil] at hfatal ⊢
      cases hemp : emptied z with
      | true =>
        rw [hemp] at hfatal
        cases hfatal
      | false => rfl

variable (behind) in
/-- An item that is removed has nothing to lose. -/
theorem settleItem_gone {z : Item} (h : stays mode z = false) :
    settleItem mode behind z = none ∧ ItemOk mode behind z ∧ itemDisk z = [] := by
  unfold stays at h
  simp only [Bool.not_eq_false', Bool.and_eq_true, beq_iff_eq] at h
  obtain ⟨hbuild, hemp⟩ := h
  unfold settleItem ItemOk itemDisk
  cases hb : z.body with
  | extent40 us =>
    obtain ⟨h1, h2⟩ := joinsOk_of_empty ((emptied_iff hb).mp hemp).2
    refine ⟨if_pos ⟨hbuild, hemp⟩, ⟨h1, ?_⟩, ?_⟩
    · intro hfix
      rw [hbuild] at hfix
      cases hfix
    · show (extentMap us).reduceOption = []
      rw [h2]
      rfl
  | stat40 _ | bbox40 _ | nodeptr40 _ | cde40 _ | plain40 _ | ctail40 _ _ =>
    unfold emptied at hemp
    rw [hb] at hemp
    cases hemp

variable (behind) in
/-- An item that stays keeps its map exactly when its joins are good. -/
theorem settleItem_same {z : Item} (hmode : mode ≠ .check) (hfit : UnitsFit z)
    (h : stays mode z = true) :
    ∃ it, settleItem mode behind z = some it ∧ (SameItem z it ↔ ItemOk mode behind z) := by
  unfold settleItem ItemOk
  cases hb : z.body with
  | extent40 us =>
    have hno : ¬(mode = .build ∧ emptied z = true) := by
      rintro ⟨h1, h2⟩
      simp [stays, h1, h2] at h
    refine ⟨_, if_neg hno, ?_⟩
    have hsame : SameItem z { z with body := .extent40 (finishUnits behind us).1 } ↔
        extentMap (finishUnits behind us).1 = extentMap us := by
      constructor
      · intro hs
        exact hs.map hb rfl
      · obtain ⟨key, flags, body⟩ := z
        cases hb
        exact SameItem.extent
    rw [hsame, finishUnits_units hb]
    cases hemp : emptied z with
    | false =>
      rw [if_neg (by decide), extent40JoinUnits_map_iff (hfit us hb)]
      simp
    | true =>
      obtain ⟨hne, hall⟩ := (emptied_iff hb).mp hemp
      obtain ⟨h1, h2⟩ := joinsOk_of_empty hall
      have hfix : mode = .fix := by
        cases mode with
        | check => exact absurd rfl hmode
        | fix => rfl
        | build => exact absurd ⟨rfl, hemp⟩ hno
      rw [if_pos rfl, h2, extentMap_replicate (by simpa using hne)]
      simp [h1, hfix]
  | stat40 _ | bbox40 _ | nodeptr40 _ | cde40 _ | plain40 _ | ctail40 _ _ =>
    refine ⟨z, rfl, iff_of_true (SameItem.other ?_) trivial⟩
    intro us hus
    rw [hb] at hus
    cases hus

/-- The items of a twig keep their maps exactly when all their joins are good. -/
theorem settleItems_same (hmode : mode ≠ .check) {behind : Nat → ExtentUnit} :
    ∀ {zs : List Item} {k : Nat}, (∀ z ∈ zs, UnitsFit z) →
      (SameItems mode zs (settleItems mode behind k zs) ↔
        ∀ i z, zs[i]? = some z → ItemOk mode (behind (k + i)) z)
  | [], k, _ => by
    unfold SameItems
    simp [settleItems]
  | z :: zs, k, hfit => by
    have ih : SameItems mode zs (settleItems mode behind (k + 1) zs) ↔
        ∀ i w, zs[i]? = some w → ItemOk mode (behind (k + 1 + i)) w :=
      settleItems_same hmode fun x hx => hfit x (List.mem_cons_of_mem _ hx)
    have hsplit : (∀ i w, (z :: zs)[i]? = some w → ItemOk mode (behind (k + i)) w) ↔
        ItemOk mode (behind k) z ∧
          ∀ i w, zs[i]? = some w → ItemOk mode (behind (k + 1 + i)) w := by
      constructor
      · intro hall
        refine ⟨hall 0 z rfl, ?_⟩
        intro i w hw
        have := hall (i + 1) w (by simpa using hw)
        rwa [show k + (i + 1) = k + 1 + i by omega] at this
      · rintro ⟨h1, h2⟩ i w hw
        cases i with
        | zero =>
          cases hw
          exact h1
        | succ i =>
          have := h2 i w (by simpa using hw)
          rwa [show k + 1 + i = k + (i + 1) by omega] at this
    rw [hsplit, ← ih]
    unfold SameItems
    rw [settleItems]
    cases hstays : stays mode z with
    | false =>
      obtain ⟨h1, h2, -⟩ := settleItem_gone (behind k) hstays
      rw [h1, List.filter_cons, hstays, if_neg (by decide)]
      exact ⟨fun h => ⟨h2, h⟩, fun h => h.2⟩
    | true =>
      obtain ⟨it, h1, h2⟩ := settleItem_same (behind k) hmode (hfit z (by simp)) hstays
      rw [h1, List.filter_cons, hstays, if_pos rfl, ← h2]
      show List.Forall₂ SameItem (z :: _) (it :: _) ↔ _
      exact List.forall₂_cons

theorem SameItem.disk {z it : Item} (h : SameItem z it) : itemDisk it = itemDisk z := by
  cases h with
  | extent hmap =>
    show (extentMap _).reduceOption = (extentMap _).reduceOption
    rw [hmap]
  | other => rfl

/-- Items with the same maps have the same disk blocks. -/
theorem SameItems.disk {zs items : List Item} (h : SameItems mode zs items) :
    itemsDisk items = itemsDisk zs := by
  have hfilter : itemsDisk (zs.filter (stays mode)) = itemsDisk zs := by
    clear h
    induction zs with
    | nil => rfl
    | cons z zs ih =>
      rw [List.filter_cons]
      unfold itemsDisk at ih ⊢
      cases hstays : stays mode z with
      | false =>
        rw [if_neg (by decide), ih, List.flatMap_cons,
          (settleItem_gone ⟨0, 0⟩ hstays).2.2, List.nil_append]
      | true => rw [if_pos rfl, List.flatMap_cons, List.flatMap_cons, ih]
  rw [← hfilter]
  unfold SameItems at h
  generalize zs.filter (stays mode) = ws at h
  induction h with
  | nil => rfl
  | cons hsame _ ih =>
    unfold itemsDisk at ih ⊢
    rw [List.flatMap_cons, List.flatMap_cons, hsame.disk, ih]

theorem sameTwigs_disk {zss itemss : List (List Item)}
    (h : List.Forall₂ (SameItems mode) zss itemss) :
    itemss.flatMap itemsDisk = zss.flatMap itemsDisk := by
  induction h with
  | nil => rfl
  | cons hsame _ ih => rw [List.flatMap_cons, List.flatMap_cons, hsame.disk, ih]

/-- Two lists one of which is computed from the other. -/
theorem forall₂_zipWith {α β γ : Type} {R : β → γ → Prop} {f : α → β → γ} :
    ∀ {as : List α} {bs : List β}, bs.length = as.length →
      (List.Forall₂ R bs (List.zipWith f as bs) ↔ List.Forall₂ (fun a b => R b (f a b)) as bs)
  | [], [], _ => by simp
  | [], _ :: _, h => by simp at h
  | _ :: _, [], h => by simp at h
  | a :: as, b :: bs, h => by
    rw [List.zipWith_cons_cons, List.forall₂_cons, List.forall₂_cons,
      forall₂_zipWith (by simpa using h)]

theorem forall₂_congr {α β : Type} {R S : α → β → Prop} {as : List α} :
    ∀ {bs : List β}, (∀ a b, b ∈ bs → (R a b ↔ S a b)) →
      (List.Forall₂ R as bs ↔ List.Forall₂ S as bs) := by
  induction as with
  | nil =>
    intro bs _
    cases bs <;> simp
  | cons a as ih =>
    intro bs h
    cases bs with
    | nil => simp
    | cons b bs =>
      rw [List.forall₂_cons, List.forall₂_cons, h a b (by simp),
        ih fun a' b' hb => h a' b' (List.mem_cons_of_mem _ hb)]

/-- All joins of the pass are of like units. -/
def JoinsLike (aal : AalBits) (mode : Mode) (behind : Nat → Nat → ExtentUnit) (ts : Ts) : Prop :=
  List.Forall₂ (fun b zs => ∀ i z, zs[i]? = some z → ItemOk mode (behind b i) z)
    (scannedTwigs aal ts) (scannedHoles aal ts)

/-- **The pass leaves disjoint extents and keeps the maps if and only if** all its joins are of like
    units. -/
theorem repairTwigScan_disjoint_iff (aal : AalBits) (mode : Mode)
    (behind : Nat → Nat → ExtentUnit) (fuel : Nat) (ts ts' : Ts) (hmode : mode ≠ .check)
    (hmet : ts.bmMet.Sized) (htwig : ts.bmTwig.Sized)
    (hfields : ∀ b, FieldsFit (itemsAt ts.nodes b))
    (hrun : (repairTwigScan aal mode behind fuel).run ts = some (.ok (), ts')) :
    ExtentsDisjoint aal mode ts ts' ↔ JoinsLike aal mode behind ts := by
  obtain ⟨hmet', -, hitems⟩ := twigLoop_spec hmode hmet htwig hrun
  have hadds := refuseTwigs_adds ts.bmMet.total
    ((scannedTwigs aal ts).map (itemsAt ts.nodes)) (ts.bmMet.has aal)
  have htotal : ts.bmMet.total < two64 := Nat.lt_trans hmet.total_lt (by decide)
  have hfits := refuseTwigs_fits htotal ((scannedTwigs aal ts).map (itemsAt ts.nodes))
    (ts.bmMet.has aal) (by
      intro items hmem
      obtain ⟨b, -, rfl⟩ := List.mem_map.mp hmem
      exact hfields b)
  have hlen : (scannedHoles aal ts).length = (scannedTwigs aal ts).length := by
    unfold scannedHoles
    rw [refuseTwigs_length, List.length_map]
  have hsettled : (scannedTwigs aal ts).map (itemsAt ts'.nodes) =
      List.zipWith (fun b zs => settleItems mode (behind b) 0 zs) (scannedTwigs aal ts)
        (scannedHoles aal ts) := hitems
  have hmaps : List.Forall₂ (SameItems mode) (scannedHoles aal ts)
      ((scannedTwigs aal ts).map (itemsAt ts'.nodes)) ↔ JoinsLike aal mode behind ts := by
    rw [hsettled, forall₂_zipWith hlen]
    apply forall₂_congr
    intro b zs hzs
    have hsame : SameItems mode zs (settleItems mode (behind b) 0 zs) ↔
        ∀ i z, zs[i]? = some z → ItemOk mode (behind b (0 + i)) z :=
      settleItems_same hmode (hfits zs hzs)
    simpa using hsame
  rw [← hmaps]
  constructor
  · exact fun h => h.maps
  · intro h
    -- The disk blocks left are those of the units that were not refused.
    have hdisk : scannedDisk aal ts ts' = (scannedHoles aal ts).flatMap itemsDisk := by
      unfold scannedDisk
      rw [← List.flatMap_map (itemsAt ts'.nodes) itemsDisk]
      exact sameTwigs_disk h
    refine ⟨?_, ?_, ?_, ?_, h⟩
    · rw [hdisk]
      exact hadds.inside
    · rw [hdisk]
      exact hadds.nodup
    · rw [hdisk]
      exact hadds.fresh
    · rw [hdisk, hmet']
      exact hadds.mem

end Disjoint

/-- The key of the sample item. -/
def sampleKey : Key := ⟨0, 0, 0, 0⟩

/-- A twig in block 2 of a file system of 20 blocks; no block was met. -/
def sampleTs (us : List ExtentUnit) : Ts where
  bmMet := reiser4BitmapCreate 20
  bmUsed := none
  bmTwig := { marked := 1, total := 20, size := 3, map := ofBits fun j => decide (j = 2) }
  nodes := fun b => if b = 2 then some ⟨[⟨sampleKey, 0, .extent40 us⟩], false⟩ else none
  badUnfmPtrs := 0
  readTwigs := 0
  fixedTwigs := 0
  fixable := 0
  fatal := 0

/-- What memory holds behind the sample item. -/
def sampleBehind : Nat → Nat → ExtentUnit := fun _ _ => ⟨0, 0⟩

theorem sampleTs_fieldsFit {us : List ExtentUnit} (h : ∀ e ∈ us, e.start < two64 ∧ e.width < two64)
    (b : Nat) : FieldsFit (itemsAt (sampleTs us).nodes b) := by
  intro it hit vs hvs
  unfold itemsAt sampleTs at hit
  by_cases hb : b = 2
  · simp only [if_pos hb, List.mem_singleton] at hit
    rw [hit] at hvs
    cases hvs
    exact h
  · simp [if_neg hb] at hit

/-- A unit, a second one that starts in a block of the first, and a third behind the first: the second
    becomes a hole and nothing is joined. -/
theorem repairTwigScan_disjoint_fix : ∃ ts',
    (repairTwigScan AalBits.plain .fix sampleBehind 3).run (sampleTs [⟨5, 2⟩, ⟨6, 1⟩, ⟨7, 1⟩]) =
      some (.ok (), ts') ∧
    ExtentsDisjoint AalBits.plain .fix (sampleTs [⟨5, 2⟩, ⟨6, 1⟩, ⟨7, 1⟩]) ts' := by
  obtain ⟨⟨⟩, ts', hrun⟩ := Run.succeeds_iff.mp (show (repairTwigScan AalBits.plain .fix sampleBehind
    3).succeeds (sampleTs [⟨5, 2⟩, ⟨6, 1⟩, ⟨7, 1⟩]) = true by decide)
  have htwigs : scannedTwigs AalBits.plain (sampleTs [⟨5, 2⟩, ⟨6, 1⟩, ⟨7, 1⟩]) = [2] := by
    decide
  have hholes : scannedHoles AalBits.plain (sampleTs [⟨5, 2⟩, ⟨6, 1⟩, ⟨7, 1⟩]) =
      [[⟨sampleKey, 0, .extent40 [⟨5, 2⟩, ⟨0, 1⟩, ⟨7, 1⟩]⟩]] := by decide
  refine ⟨ts', hrun, (repairTwigScan_disjoint_iff AalBits.plain .fix sampleBehind 3 _ ts' (by decide)
    ⟨by decide, by decide⟩ ⟨by decide, by decide⟩ (sampleTs_fieldsFit (by decide)) hrun).mpr ?_⟩
  unfold JoinsLike
  rw [htwigs, hholes]
  refine List.Forall₂.cons ?_ List.Forall₂.nil
  intro i z hz
  cases i with
  | zero =>
    cases hz
    exact ⟨by decide, fun _ _ => rfl⟩
  | succ i => cases hz

/-- A hole of 5 blocks in front of block 5: the pass joins both, and block 5 is not mapped any more. -/
theorem repairTwigScan_loses : ∃ ts',
    (repairTwigScan AalBits.plain .fix sampleBehind 3).run (sampleTs [⟨0, 5⟩, ⟨5, 1⟩]) =
      some (.ok (), ts') ∧
    ¬ExtentsDisjoint AalBits.plain .fix (sampleTs [⟨0, 5⟩, ⟨5, 1⟩]) ts' := by
  obtain ⟨⟨⟩, ts', hrun⟩ := Run.succeeds_iff.mp (show (repairTwigScan AalBits.plain .fix sampleBehind
    3).succeeds (sampleTs [⟨0, 5⟩, ⟨5, 1⟩]) = true by decide)
  have hholes : scannedHoles AalBits.plain (sampleTs [⟨0, 5⟩, ⟨5, 1⟩]) =
      [[⟨sampleKey, 0, .extent40 [⟨0, 5⟩, ⟨5, 1⟩]⟩]] := by decide
  refine ⟨ts', hrun, ?_⟩
  intro h
  have hmaps := h.maps
  have hmode : Mode.fix ≠ .check := by decide
  have hmet : (sampleTs [⟨0, 5⟩, ⟨5, 1⟩]).bmMet.Sized := ⟨by decide, by decide⟩
  have htwig : (sampleTs [⟨0, 5⟩, ⟨5, 1⟩]).bmTwig.Sized := ⟨by decide, by decide⟩
  obtain ⟨-, -, hitems⟩ := twigLoop_spec hmode hmet htwig hrun
  have hsettled : (scannedTwigs AalBits.plain (sampleTs [⟨0, 5⟩, ⟨5, 1⟩])).map (itemsAt ts'.nodes) =
      [[⟨sampleKey, 0, .extent40 [⟨0, 6⟩]⟩]] := hitems.trans (by decide)
  rw [hholes, hsettled] at hmaps
  have hitem := (List.forall₂_cons.mp hmaps).1
  have hsame := (List.forall₂_cons.mp hitem).1.map rfl rfl
  exact absurd hsame (by decide)

end Reiser4.Repair
