/-
  The pass over the disk (`repair_disk_scan` of `librepair/disk_scan.c`).

  The pass opens every marked block that looks like a node, checks the leaves and the twigs and keeps
  those that are worth to be inserted.  One variable, `res`, holds the result of the last check and is
  what the pass returns; one counter, `tmp`, collects stat data items and is emptied into the counter
  of files only behind a check that is not fatal.

    1. `diskVisit_spec`, `diskLoop_spec`   one block, the blocks by the marks of the scan bitmap;
    2. `tally_files`          what the counters hold behind the pass;
    3. `repairDiskScan_keeps_iff`   when the pass keeps what it should keep.
-/
import Reiser4.Repair.NodeCheck

namespace Reiser4.Repair

open Reiser4.Lib

/-- A formatted node as it is opened. -/
structure ScanNode (ι : Type) where
  level : Nat
  mstamp : Nat
  items : List ι
  dirty : Bool

/-- What `repair_ds_t` holds for the whole pass. -/
structure DsHint where
  mode : Mode
  mkidok : Bool
  mkid : Nat

/-- The rest of `repair_ds_t` and its counters, with what the blocks of the device open as. -/
structure Ds (ι : Type) where
  blocks : Nat → Option (ScanNode ι)
  bmMet : Bitmap
  bmLeaf : Bitmap
  bmTwig : Bitmap
  /-- `*ds->stat.files`. -/
  files : Nat
  /-- `ds->stat.tmp`: stat data items not yet in `files`. -/
  tmp : Nat
  readNodes : Nat
  goodNodes : Nat
  goodTwigs : Nat
  fixedTwigs : Nat
  goodLeaves : Nat
  fixedLeaves : Nat
  /-- The variable `res` of the pass. -/
  res : RepairFlags

section Model

variable {ι : Type} (aal : AalBits) (M : NodeMethods ι) (H : DsHint)

/-- `repair_node_open`; make id 0 is none. -/
def repairNodeOpen (blocks : Nat → Option (ScanNode ι)) (blk mkid : Nat) : Option (ScanNode ι) :=
  match blocks blk with
  | none => none
  | some node => if mkid ≠ 0 ∧ mkid ≠ node.mstamp then none else some node

/-- `reiser4_node_fini`: a dirty node is written. -/
def nodeFini (blk : Nat) (node : ScanNode ι) : Run (Ds ι) Errno Unit :=
  Run.modify fun ds => { ds with blocks := fun b =>
    if b = blk ∧ node.dirty then some { node with dirty := false } else ds.blocks b }

/-- `repair_node_clear_flags`. -/
def repairNodeClearFlags (node : ScanNode ι) : ScanNode ι :=
  { node with
    items := node.items.map fun it => (M.clearFlags it).1
    dirty := node.dirty || node.items.any fun it => (M.clearFlags it).2 }

/-- The bitmap of the level gets the block. -/
def diskMark (blk : Nat) (node : ScanNode ι) : Run (Ds ι) Errno Unit := do
  let ds ← Run.get
  let fixed := if node.dirty then 1 else 0
  if node.level = twigLevel then do
    let twig ← Run.lift (reiser4BitmapMark aal ds.bmTwig blk)
    Run.modify fun ds => { ds with
      bmTwig := twig
      goodNodes := ds.goodNodes + 1
      goodTwigs := ds.goodTwigs + 1
      fixedTwigs := ds.fixedTwigs + fixed }
  else do
    let leaf ← Run.lift (reiser4BitmapMark aal ds.bmLeaf blk)
    Run.modify fun ds => { ds with
      bmLeaf := leaf
      goodNodes := ds.goodNodes + 1
      goodLeaves := ds.goodLeaves + 1
      fixedLeaves := ds.fixedLeaves + fixed }

/-- A node that is kept: its flags are cleared, and a new make id is set. -/
def diskKeep (blk : Nat) (node : ScanNode ι) : Run (Ds ι) Errno Unit := do
  diskMark aal blk node
  let node := repairNodeClearFlags M node
  nodeFini blk (if !H.mkidok ∧ H.mkid ≠ node.mstamp then
    { node with mstamp := H.mkid, dirty := true } else node)

/-- The two checks of a leaf or a twig: the result, and the node they leave. -/
def diskCheck (node : ScanNode ι) : Run (Ds ι) Errno (RepairFlags × ScanNode ι) := do
  let ds ← Run.get
  let r := repairNodeCheckStruct M H.mode (countPlug M .stat40) node.items ds.tmp
  Run.modify fun ds => { ds with tmp := r.data }
  let node := { node with items := r.items, dirty := node.dirty || r.dirty }
  match r.res with
  | .error e => Run.fail e
  | .ok res =>
    if res.fatal then pure (res, node)
    else do
      Run.modify fun ds => { ds with files := ds.files + ds.tmp, tmp := 0 }
      match repairNodeCheckLevel M node.level node.items with
      | .error e => Run.fail e
      | .ok level => pure (res.join level, node)

/-- The part of the loop of `repair_disk_scan` for a leaf or a twig. -/
def diskData (blk : Nat) (node : ScanNode ι) : Run (Ds ι) Errno Unit := do
  let r ← diskCheck M H node
  Run.modify fun ds => { ds with res := r.1 }
  if r.1 ≠ .clean ∨ r.2.items.isEmpty then nodeFini blk r.2 else diskKeep aal M H blk r.2

/-- The body of the loop of `repair_disk_scan`. -/
def diskVisit (blk : Nat) : Run (Ds ι) Errno Unit := do
  Run.modify fun ds => { ds with readNodes := ds.readNodes + 1 }
  let ds ← Run.get
  match repairNodeOpen ds.blocks blk (if H.mkidok then H.mkid else 0) with
  | none => pure ()
  | some node => do
    let met ← Run.lift (reiser4BitmapMark aal ds.bmMet blk)
    Run.modify fun ds => { ds with bmMet := met }
    if repairTreeDataLevel node.level then diskData aal M H blk node else nodeFini blk node

/-- The loop of `repair_disk_scan`. -/
def diskLoop (scan : Bitmap) : Nat → Nat → Run (Ds ι) Errno RepairFlags
  | 0, _ => Run.hang
  | fuel + 1, blk => do
    let blk ← Run.lift (reiser4BitmapFindMarked aal scan blk)
    if blk = invalBlk then do
      let ds ← Run.get
      pure ds.res
    else do
      diskVisit aal M H blk
      diskLoop scan fuel (blk + 1)

/-- `repair_disk_scan`. -/
def repairDiskScan (scan : Bitmap) (fuel : Nat) : Run (Ds ι) Errno RepairFlags := do
  Run.modify fun ds => { ds with res := .clean }
  diskLoop aal M H scan fuel 0

end Model

/-! ## What the checks say of a node -/

section Verdict

variable {ι : Type} (M : NodeMethods ι) (H : DsHint)

/-- What the check of the node answers and leaves. -/
def ScanNode.check (node : ScanNode ι) : NodeCheck ι Nat :=
  repairNodeCheckStruct M H.mode (countPlug M .stat40) node.items 0

/-- The results of the two checks together; a node with a fatal error is not checked further. -/
def ScanNode.result (node : ScanNode ι) : Except Errno RepairFlags :=
  match (node.check M H).res with
  | .error e => .error e
  | .ok res => if res.fatal then .ok res
    else (repairNodeCheckLevel M node.level (node.check M H).items).map res.join

/-- The node passes the checks without a fatal result and is not empty then. -/
def ScanNode.good (node : ScanNode ι) : Bool :=
  (match node.result M H with
    | .error _ => false
    | .ok res => !res.fatal) && !(node.check M H).items.isEmpty

/-- The code keeps the node: the checks have nothing to say at all. -/
def ScanNode.kept (node : ScanNode ι) : Bool :=
  (match node.result M H with
    | .error _ => false
    | .ok res => res == .clean) && !(node.check M H).items.isEmpty

/-- The node a block opens as. -/
def opened (blocks : Nat → Option (ScanNode ι)) (blk : Nat) : Option (ScanNode ι) :=
  repairNodeOpen blocks blk (if H.mkidok then H.mkid else 0)

/-- The leaf or twig a block opens as. -/
def dataNode (blocks : Nat → Option (ScanNode ι)) (blk : Nat) : Option (ScanNode ι) :=
  (opened H blocks blk).filter fun node => repairTreeDataLevel node.level

/-- The block opens as a node of the level that the predicate holds of. -/
def marks (p : ScanNode ι → Bool) (level : Nat) (blocks : Nat → Option (ScanNode ι)) (blk : Nat) :
    Bool :=
  (dataNode H blocks blk).any fun node => node.level == level && p node

/-- The counters `files`, `tmp` and `res` behind the check of a node. -/
def tally (t : Nat × Nat × RepairFlags) (node : ScanNode ι) : Nat × Nat × RepairFlags :=
  match (node.check M H).res, node.result M H with
  | .ok res, .ok all =>
    if res.fatal then (t.1, t.2.1 + (node.check M H).data, all)
    else (t.1 + (t.2.1 + (node.check M H).data), 0, all)
  | _, _ => t

end Verdict

/-! ## One block -/

section Visit

variable {ι : Type} {aal : AalBits} {M : NodeMethods ι} {H : DsHint}

/-- The bitmap has gained the blocks that `p` holds of. -/
structure Gains (aal : AalBits) (p : Nat → Bool) (b b' : Bitmap) : Prop where
  total : b'.total = b.total
  size : b'.size = b.size
  has : ∀ j, b'.has aal j = (p j || b.has aal j)

theorem Gains.refl (aal : AalBits) (b : Bitmap) : Gains aal (fun _ => false) b b :=
  ⟨rfl, rfl, fun _ => rfl⟩

theorem Gains.trans {p q : Nat → Bool} {b b' b'' : Bitmap} (h1 : Gains aal p b b')
    (h2 : Gains aal q b' b'') : Gains aal (fun j => q j || p j) b b'' :=
  ⟨by rw [h2.total, h1.total], by rw [h2.size, h1.size], fun j => by
    rw [h2.has, h1.has, Bool.or_assoc]⟩

theorem Gains.congr {p q : Nat → Bool} {b b' : Bitmap} (h : Gains aal p b b')
    (hpq : ∀ j, p j = q j) : Gains aal q b b' :=
  ⟨h.total, h.size, fun j => by rw [h.has, hpq]⟩

theorem Gains.sized {p : Nat → Bool} {b b' : Bitmap} (h : Gains aal p b b')
    (hb : b.Sized) : b'.Sized :=
  ⟨by rw [h.size, h.total, hb.1], by rw [h.size]; exact hb.2⟩

/-- Only this block, if `p`. -/
def only (blk : Nat) (p : Bool) (j : Nat) : Bool := decide (j = blk) && p

theorem only_false (blk j : Nat) : only blk false j = false := Bool.and_false _

theorem only_or (blk : Nat) (p q : Bool) (j : Nat) :
    (only blk q j || only blk p j) = only blk (q || p) j := by
  unfold only
  cases decide (j = blk) <;> simp

variable (aal) in
theorem mark_gains {b : Bitmap} (hb : b.Sized) {blk : Nat} (hlt : blk < b.total) :
    ∃ b', reiser4BitmapMark aal b blk = some b' ∧ Gains aal (only blk true) b b' := by
  obtain ⟨b', hm, hhas⟩ := mark_has aal hb blk
  obtain ⟨htotal, hsize⟩ := mark_size hm
  refine ⟨b', hm, htotal, hsize, fun j => ?_⟩
  rw [hhas j, only, Bool.and_true]
  simp [hlt]

/-- The bitmaps of the pass are those of a file system of `len` blocks. -/
structure DsShaped (len : Nat) (ds : Ds ι) : Prop where
  met : ds.bmMet.Sized ∧ ds.bmMet.total = len
  leaf : ds.bmLeaf.Sized ∧ ds.bmLeaf.total = len
  twig : ds.bmTwig.Sized ∧ ds.bmTwig.total = len

/-- What a visit of one block changes. -/
structure Visited (aal : AalBits) (blk : Nat) (met leaf twig : Bool)
    (counts : Nat × Nat × RepairFlags) (ds ds' : Ds ι) : Prop where
  counts : (ds'.files, ds'.tmp, ds'.res) = counts
  read : ds'.readNodes = ds.readNodes
  blocks : ∀ b, b ≠ blk → ds'.blocks b = ds.blocks b
  met : Gains aal (only blk met) ds.bmMet ds'.bmMet
  leaf : Gains aal (only blk leaf) ds.bmLeaf ds'.bmLeaf
  twig : Gains aal (only blk twig) ds.bmTwig ds'.bmTwig

theorem Gains.none (blk : Nat) (b : Bitmap) : Gains aal (only blk false) b b :=
  (Gains.refl aal b).congr fun j => (only_false blk j).symm

theorem Gains.both {blk : Nat} {p q : Bool} {b b' b'' : Bitmap} (h1 : Gains aal (only blk p) b b')
    (h2 : Gains aal (only blk q) b' b'') : Gains aal (only blk (q || p)) b b'' :=
  (h1.trans h2).congr (only_or blk p q)

theorem Visited.trans {blk : Nat} {m1 m2 l1 l2 t1 t2 : Bool} {c1 c2 : Nat × Nat × RepairFlags}
    {ds ds1 ds2 : Ds ι} (h1 : Visited aal blk m1 l1 t1 c1 ds ds1)
    (h2 : Visited aal blk m2 l2 t2 c2 ds1 ds2) :
    Visited aal blk (m2 || m1) (l2 || l1) (t2 || t1) c2 ds ds2 :=
  ⟨h2.counts, by rw [h2.read, h1.read], fun b hb => by rw [h2.blocks b hb, h1.blocks b hb],
    h1.met.both h2.met, h1.leaf.both h2.leaf, h1.twig.both h2.twig⟩

variable (aal) in
theorem nodeFini_spec (blk : Nat) (node : ScanNode ι) (ds : Ds ι) :
    ∃ ds', (nodeFini blk node).run ds = some (.ok (), ds') ∧
      Visited aal blk false false false (ds.files, ds.tmp, ds.res) ds ds' := by
  refine ⟨_, rfl, rfl, rfl, ?_, Gains.none _ _, Gains.none _ _, Gains.none _ _⟩
  intro b hb
  show (if b = blk ∧ _ then _ else ds.blocks b) = _
  rw [if_neg fun h => hb h.1]

/-- A visit that goes on with writing the node. -/
theorem Visited.fini {blk : Nat} {met leaf twig : Bool} {counts : Nat × Nat × RepairFlags}
    {ds ds' : Ds ι} (h : Visited aal blk met leaf twig counts ds ds') (node : ScanNode ι) :
    ∃ ds'', (nodeFini blk node).run ds' = some (.ok (), ds'') ∧
      Visited aal blk met leaf twig counts ds ds'' := by
  obtain ⟨ds'', hrun, hv⟩ := nodeFini_spec aal blk node ds'
  rw [h.counts] at hv
  exact ⟨ds'', hrun, h.trans hv⟩

variable (aal) in
/-- A node of the leaf or twig level is marked in the bitmap of its level. -/
theorem diskMark_spec {len blk : Nat} {ds : Ds ι} (h : DsShaped len ds) (hlt : blk < len)
    (node : ScanNode ι) (hlevel : repairTreeDataLevel node.level = true) :
    ∃ ds', (diskMark aal blk node).run ds = some (.ok (), ds') ∧
      Visited aal blk false (node.level == leafLevel) (node.level == twigLevel)
        (ds.files, ds.tmp, ds.res) ds ds' := by
  unfold diskMark
  rw [Run.get_bind]
  dsimp only
  by_cases htwig : node.level = twigLevel
  · obtain ⟨b', hm, hg⟩ := mark_gains aal h.twig.1 (h.twig.2.symm ▸ hlt)
    rw [if_pos htwig, hm, Run.bind_of_ok (Run.lift_some _ _), htwig]
    exact ⟨_, rfl, rfl, rfl, fun _ _ => rfl, Gains.none _ _, Gains.none _ _, hg⟩
  · obtain ⟨b', hm, hg⟩ := mark_gains aal h.leaf.1 (h.leaf.2.symm ▸ hlt)
    have hleaf : node.level = leafLevel :=
      ((repairTreeDataLevel_iff _).mp hlevel).resolve_right htwig
    rw [if_neg htwig, hm, Run.bind_of_ok (Run.lift_some _ _), hleaf]
    exact ⟨_, rfl, rfl, rfl, fun _ _ => rfl, Gains.none _ _, hg, Gains.none _ _⟩

/-- The checks of a leaf or twig, by what they answer. -/
theorem diskCheck_spec (ds : Ds ι) (node : ScanNode ι) :
    match node.result M H with
    | .error e => ∃ ds', (diskCheck M H node).run ds = some (.error e, ds')
    | .ok res => ∃ t : Nat × Nat, tally M H (ds.files, ds.tmp, ds.res) node = (t.1, t.2, res) ∧
        (diskCheck M H node).run ds = some (.ok (res, { node with
          items := (node.check M H).items
          dirty := node.dirty || (node.check M H).dirty }), { ds with files := t.1, tmp := t.2 }) := by
  unfold diskCheck tally ScanNode.result
  rw [Run.get_bind]
  dsimp only
  rw [repairNodeCheckStruct_from, ← ScanNode.check, Run.modify_bind]
  cases hres : (node.check M H).res with
  | error e => exact ⟨_, rfl⟩
  | ok res =>
    cases hfatal : res.fatal with
    | true =>
      dsimp only
      simp only [hfatal, if_true]
      exact ⟨(ds.files, ds.tmp + (node.check M H).data), rfl, rfl⟩
    | false =>
      dsimp only
      cases hlevel : repairNodeCheckLevel M node.level (node.check M H).items with
      | error e =>
        simp only [hfatal, Bool.false_eq_true, if_false]
        exact ⟨_, rfl⟩
      | ok level =>
        simp only [hfatal, Bool.false_eq_true, if_false, Except.map]
        exact ⟨(ds.files + (ds.tmp + (node.check M H).data), 0), rfl, rfl⟩

variable (aal M H) in
/-- One leaf or twig. -/
theorem diskData_spec {len blk : Nat} {ds : Ds ι} (h : DsShaped len ds) (hlt : blk < len)
    {node : ScanNode ι} (hlevel : repairTreeDataLevel node.level = true) :
    match node.result M H with
    | .error e => ∃ ds', (diskData aal M H blk node).run ds = some (.error e, ds')
    | .ok _ => ∃ ds', (diskData aal M H blk node).run ds = some (.ok (), ds') ∧
        Visited aal blk false (node.level == leafLevel && node.kept M H)
          (node.level == twigLevel && node.kept M H)
          (tally M H (ds.files, ds.tmp, ds.res) node) ds ds' := by
  have hcheck := diskCheck_spec (M := M) (H := H) ds node
  unfold diskData ScanNode.kept
  cases hres : node.result M H with
  | error e =>
    rw [hres] at hcheck
    obtain ⟨ds', hrun⟩ := hcheck
    exact ⟨ds', by rw [Run.run_bind, hrun]⟩
  | ok res =>
    rw [hres] at hcheck
    obtain ⟨t, ht, hrun⟩ := hcheck
    dsimp only
    rw [Run.bind_of_ok hrun, Run.modify_bind, ht]
    obtain ⟨ds1, hds1⟩ : ∃ ds1 : Ds ι, ds1 = { ds with files := t.1, tmp := t.2, res := res } :=
      ⟨_, rfl⟩
    have hstart : Visited aal blk false false false (t.1, t.2, res) ds ds1 := by
      rw [hds1]
      exact ⟨rfl, rfl, fun _ _ => rfl, Gains.none _ _, Gains.none _ _, Gains.none _ _⟩
    have hshaped : DsShaped len ds1 := by
      rw [hds1]
      exact ⟨h.met, h.leaf, h.twig⟩
    have hrun1 : ∀ {α : Type} (x : Run (Ds ι) Errno α),
        x.run { ds with files := t.1, tmp := t.2, res := res } = x.run ds1 := by
      intro α x
      rw [hds1]
    change ∃ ds', Run.run _ { ds with files := t.1, tmp := t.2, res := res } = _ ∧ _
    rw [hrun1]
    by_cases hkeep : res = .clean ∧ (node.check M H).items.isEmpty = false
    · rw [if_neg (by simp [hkeep.1, hkeep.2])]
      have hyes : (res == RepairFlags.clean && !(node.check M H).items.isEmpty) = true := by
        grind
      rw [hyes, Bool.and_true, Bool.and_true]
      unfold diskKeep
      obtain ⟨ds2, hmark, hv⟩ := diskMark_spec aal hshaped hlt { node with
        items := (node.check M H).items
        dirty := node.dirty || (node.check M H).dirty } hlevel
      rw [hstart.counts] at hv
      have hboth := hstart.trans hv
      simp only [Bool.or_false] at hboth
      rw [Run.bind_of_ok hmark]
      exact hboth.fini _
    · rw [if_pos (by grind)]
      have hno : (res == RepairFlags.clean && !(node.check M H).items.isEmpty) = false := by
        grind
      rw [hno, Bool.and_false, Bool.and_false]
      exact hstart.fini _

/-- The counters behind a block. -/
def tallyBlk (M : NodeMethods ι) (H : DsHint) (blocks : Nat → Option (ScanNode ι))
    (t : Nat × Nat × RepairFlags) (blk : Nat) : Nat × Nat × RepairFlags :=
  match dataNode H blocks blk with
  | none => t
  | some node => tally M H t node

/-- The check of the block ends with an error. -/
def fails (M : NodeMethods ι) (H : DsHint) (blocks : Nat → Option (ScanNode ι)) (blk : Nat) : Bool :=
  (dataNode H blocks blk).any fun node =>
    match node.result M H with
    | .error _ => true
    | .ok _ => false

variable (aal M H) in
/-- One block of the scan. -/
theorem diskVisit_spec {len blk : Nat} {ds : Ds ι} (h : DsShaped len ds) (hlt : blk < len) :
    if fails M H ds.blocks blk then ∃ e ds', (diskVisit aal M H blk).run ds = some (.error e, ds')
    else ∃ ds', (diskVisit aal M H blk).run ds = some (.ok (), ds') ∧
      Visited aal blk (opened H ds.blocks blk).isSome
        (marks H (ScanNode.kept M H) leafLevel ds.blocks blk)
        (marks H (ScanNode.kept M H) twigLevel ds.blocks blk)
        (tallyBlk M H ds.blocks (ds.files, ds.tmp, ds.res) blk)
        { ds with readNodes := ds.readNodes + 1 } ds' := by
  unfold diskVisit fails marks tallyBlk dataNode
  rw [Run.modify_bind, Run.get_bind]
  change if _ then ∃ e ds', Run.run (match opened H ds.blocks blk with | none => _ | some _ => _) _ = _
    else ∃ ds', Run.run (match opened H ds.blocks blk with | none => _ | some _ => _) _ = _ ∧ _
  cases hnode : opened H ds.blocks blk with
  | none =>
    simp only [Option.filter_none, Option.any_none, Bool.false_eq_true, if_false]
    exact ⟨_, rfl, rfl, rfl, fun _ _ => rfl, Gains.none _ _, Gains.none _ _, Gains.none _ _⟩
  | some node =>
    obtain ⟨met, hm, hg⟩ := mark_gains aal h.met.1 (h.met.2.symm ▸ hlt)
    obtain ⟨ds1, hds1⟩ : ∃ ds1 : Ds ι, ds1 = { ds with
        readNodes := ds.readNodes + 1
        bmMet := met } := ⟨_, rfl⟩
    have hmet : Visited aal blk true false false (ds.files, ds.tmp, ds.res)
        { ds with readNodes := ds.readNodes + 1 } ds1 := by
      rw [hds1]
      exact ⟨rfl, rfl, fun _ _ => rfl, hg, Gains.none _ _, Gains.none _ _⟩
    have hshaped : DsShaped len ds1 := by
      rw [hds1]
      exact ⟨⟨hg.sized h.met.1, hg.total.trans h.met.2⟩, h.leaf, h.twig⟩
    dsimp only
    rw [show reiser4BitmapMark aal _ blk = some met from hm, Run.bind_of_ok (Run.lift_some _ _),
      Run.modify_bind]
    change if _ then ∃ e ds', Run.run _ { ds with
        readNodes := ds.readNodes + 1
        bmMet := met } = _ else ∃ ds', Run.run _ { ds with
        readNodes := ds.readNodes + 1
        bmMet := met } = _ ∧ _
    rw [← hds1]
    by_cases hlevel : repairTreeDataLevel node.level = true
    · rw [if_pos hlevel, Option.filter_some_pos (by exact hlevel)]
      have hdata := diskData_spec aal M H hshaped hlt hlevel
      cases hres : node.result M H with
      | error e =>
        rw [hres] at hdata
        simp only [Option.any_some, hres, if_true]
        exact ⟨e, hdata⟩
      | ok res =>
        rw [hres] at hdata
        obtain ⟨ds', hrun, hv⟩ := hdata
        rw [hmet.counts] at hv
        have hboth := hmet.trans hv
        simp only [Bool.or_false, Bool.false_or] at hboth
        simp only [Option.any_some, hres, Bool.false_eq_true, if_false]
        exact ⟨ds', hrun, hboth⟩
    · rw [if_neg hlevel, Option.filter_some_neg (by simpa using hlevel)]
      simp only [Option.any_none, Bool.false_eq_true, if_false]
      exact hmet.fini node

/-! ## The pass -/

/-- What the pass over a list of blocks changes. -/
structure DiskScanned (aal : AalBits) (M : NodeMethods ι) (H : DsHint) (blks : List Nat)
    (ds ds' : Ds ι) : Prop where
  counts : (ds'.files, ds'.tmp, ds'.res) =
    blks.foldl (tallyBlk M H ds.blocks) (ds.files, ds.tmp, ds.res)
  read : ds'.readNodes = ds.readNodes + blks.length
  met : Gains aal (fun j => decide (j ∈ blks) && (opened H ds.blocks j).isSome) ds.bmMet ds'.bmMet
  leaf : Gains aal
    (fun j => decide (j ∈ blks) && marks H (ScanNode.kept M H) leafLevel ds.blocks j)
    ds.bmLeaf ds'.bmLeaf
  twig : Gains aal
    (fun j => decide (j ∈ blks) && marks H (ScanNode.kept M H) twigLevel ds.blocks j)
    ds.bmTwig ds'.bmTwig

theorem Visited.shaped {len blk : Nat} {met leaf twig : Bool} {c : Nat × Nat × RepairFlags} {n : Nat}
    {ds ds' : Ds ι} (hv : Visited aal blk met leaf twig c { ds with readNodes := n } ds')
    (h : DsShaped len ds) : DsShaped len ds' :=
  ⟨⟨hv.met.sized h.met.1, hv.met.total.trans h.met.2⟩,
    ⟨hv.leaf.sized h.leaf.1, hv.leaf.total.trans h.leaf.2⟩,
    ⟨hv.twig.sized h.twig.1, hv.twig.total.trans h.twig.2⟩⟩

theorem opened_congr {blocks blocks' : Nat → Option (ScanNode ι)} {blk : Nat}
    (h : blocks blk = blocks' blk) : opened H blocks blk = opened H blocks' blk := by
  unfold opened repairNodeOpen
  rw [h]

theorem dataNode_congr {blocks blocks' : Nat → Option (ScanNode ι)} {blk : Nat}
    (h : blocks blk = blocks' blk) : dataNode H blocks blk = dataNode H blocks' blk := by
  unfold dataNode
  rw [opened_congr h]

theorem foldl_tallyBlk_congr {blocks blocks' : Nat → Option (ScanNode ι)} :
    ∀ (blks : List Nat) (t : Nat × Nat × RepairFlags), (∀ b ∈ blks, blocks b = blocks' b) →
      blks.foldl (tallyBlk M H blocks) t = blks.foldl (tallyBlk M H blocks') t
  | [], _, _ => rfl
  | b :: blks, t, h => by
    rw [List.foldl_cons, List.foldl_cons,
      foldl_tallyBlk_congr blks _ fun b' hb' => h b' (List.mem_cons_of_mem _ hb')]
    unfold tallyBlk
    rw [dataNode_congr (h b List.mem_cons_self)]

/-- A block in front of the others. -/
theorem Gains.cons {f : (Nat → Option (ScanNode ι)) → Nat → Bool} {blk : Nat} {blks : List Nat}
    {blocks blocks' : Nat → Option (ScanNode ι)} (hf : ∀ b ∈ blks, f blocks' b = f blocks b)
    {b b' b'' : Bitmap} (h1 : Gains aal (only blk (f blocks blk)) b b')
    (h2 : Gains aal (fun j => decide (j ∈ blks) && f blocks' j) b' b'') :
    Gains aal (fun j => decide (j ∈ blk :: blks) && f blocks j) b b'' := by
  refine (h1.trans h2).congr fun j => ?_
  unfold only
  by_cases hj : j ∈ blks
  · rw [hf j hj]
    simp only [List.mem_cons, hj, or_true, decide_true, Bool.true_and]
    by_cases hblk : j = blk
    · simp [hblk]
    · simp [hblk]
  · by_cases hblk : j = blk
    · subst hblk
      simp [hj]
    · simp [hj, hblk]

variable (aal M H) in
/-- The blocks of the scan, by the marks from `blk` on. -/
theorem diskLoop_spec {scan : Bitmap} (hscan : scan.Sized) :
    ∀ (fuel blk : Nat) {ds : Ds ι}, DsShaped scan.total ds →
      (marksFrom aal scan blk).length < fuel →
      if (marksFrom aal scan blk).any (fails M H ds.blocks) then
        ∃ e ds', (diskLoop aal M H scan fuel blk).run ds = some (.error e, ds')
      else ∃ ds', (diskLoop aal M H scan fuel blk).run ds = some (.ok ds'.res, ds') ∧
        DiskScanned aal M H (marksFrom aal scan blk) ds ds'
  | 0, _, _, _, hfuel => by omega
  | fuel + 1, blk, ds, h, hfuel => by
    rw [diskLoop]
    rcases findMarked_spec aal hscan blk with ⟨hf, hno⟩ | ⟨next, hf, hle, hhas, hbefore⟩
    · rw [hf, Run.bind_of_ok (Run.lift_some _ _), if_pos rfl, marksFrom_nil hno]
      refine ⟨ds, rfl, rfl, rfl, ?_, ?_, ?_⟩
      all_goals exact (Gains.refl _ _).congr fun j => by simp
    · have hlt := Bitmap.has_lt hhas
      have htotal := hscan.total_lt
      have hvalid : next ≠ invalBlk := by
        unfold invalBlk
        omega
      rw [marksFrom_cons hle hhas hbefore] at hfuel ⊢
      rw [hf, Run.bind_of_ok (Run.lift_some _ _), if_neg hvalid, List.any_cons]
      have hvisit := diskVisit_spec aal M H h hlt
      cases hfails : fails M H ds.blocks next with
      | true =>
        rw [hfails, if_pos rfl] at hvisit
        obtain ⟨e, ds', hrun⟩ := hvisit
        rw [Bool.true_or, if_pos rfl]
        exact ⟨e, ds', by rw [Run.run_bind, hrun]⟩
      | false =>
        rw [hfails, if_neg Bool.false_ne_true] at hvisit
        obtain ⟨ds1, hrun, hv⟩ := hvisit
        rw [Bool.false_or, Run.bind_of_ok hrun]
        have hrest : ∀ b ∈ marksFrom aal scan (next + 1), ds1.blocks b = ds.blocks b := by
          intro b hb
          have := mem_marksFrom hb
          exact hv.blocks b (by omega)
        have ih := diskLoop_spec hscan fuel (next + 1) (hv.shaped h)
          (by simpa using hfuel)
        have hany : (marksFrom aal scan (next + 1)).any (fails M H ds1.blocks) =
            (marksFrom aal scan (next + 1)).any (fails M H ds.blocks) := by
          rw [Bool.eq_iff_iff, List.any_eq_true, List.any_eq_true]
          refine exists_congr fun b => and_congr_right fun hb => ?_
          unfold fails
          rw [dataNode_congr (hrest b hb)]
        rw [hany] at ih
        cases hlater : (marksFrom aal scan (next + 1)).any (fails M H ds.blocks) with
        | true =>
          rw [hlater, if_pos rfl] at ih
          rw [if_pos rfl]
          exact ih
        | false =>
          rw [hlater, if_neg Bool.false_ne_true] at ih
          rw [if_neg Bool.false_ne_true]
          obtain ⟨ds', hrun', hs⟩ := ih
          have hmarks : ∀ (level : Nat), ∀ b ∈ marksFrom aal scan (next + 1),
              marks H (ScanNode.kept M H) level ds1.blocks b =
                marks H (ScanNode.kept M H) level ds.blocks b := by
            intro level b hb
            unfold marks
            rw [dataNode_congr (hrest b hb)]
          refine ⟨ds', hrun', ?_, ?_, ?_, ?_, ?_⟩
          · rw [hs.counts, hv.counts, List.foldl_cons]
            exact foldl_tallyBlk_congr _ _ hrest
          · rw [hs.read, hv.read, List.length_cons]
            show ds.readNodes + 1 + _ = _
            omega
          · exact Gains.cons (f := fun blocks j => (opened H blocks j).isSome)
              (fun b hb => by rw [opened_congr (hrest b hb)]) hv.met hs.met
          · exact Gains.cons (f := marks H (ScanNode.kept M H) leafLevel) (hmarks _) hv.leaf hs.leaf
          · exact Gains.cons (f := marks H (ScanNode.kept M H) twigLevel) (hmarks _) hv.twig hs.twig

/-- The leaves and twigs of the scan. -/
def scannedNodes (aal : AalBits) (H : DsHint) (scan : Bitmap) (blocks : Nat → Option (ScanNode ι)) :
    List (ScanNode ι) :=
  (marksFrom aal scan 0).filterMap (dataNode H blocks)

theorem foldl_tallyBlk (blocks : Nat → Option (ScanNode ι)) :
    ∀ (blks : List Nat) (t : Nat × Nat × RepairFlags), blks.foldl (tallyBlk M H blocks) t =
      (blks.filterMap (dataNode H blocks)).foldl (tally M H) t
  | [], _ => rfl
  | b :: blks, t => by
    rw [List.foldl_cons, foldl_tallyBlk blocks blks, tallyBlk]
    cases hnode : dataNode H blocks b with
    | none => rw [List.filterMap_cons_none hnode]
    | some node => rw [List.filterMap_cons_some hnode, List.foldl_cons]

/-- The checks of the nodes end without an error. -/
def Ends (M : NodeMethods ι) (H : DsHint) (nodes : List (ScanNode ι)) : Prop :=
  ∀ node ∈ nodes, ∃ res, node.result M H = .ok res

/-- A node whose checks end without an error. -/
theorem tally_ok {node : ScanNode ι} {all : RepairFlags} (h : node.result M H = .ok all)
    (t : Nat × Nat × RepairFlags) :
    (tally M H t node).1 + (tally M H t node).2.1 = t.1 + t.2.1 + (node.check M H).data ∧
      (tally M H t node).2.2 = all ∧ (all.fatal = false → (tally M H t node).2.1 = 0) := by
  have hresult := h
  unfold ScanNode.result at hresult
  unfold tally
  cases hres : (node.check M H).res with
  | error e =>
    rw [hres] at hresult
    cases hresult
  | ok res =>
    rw [hres] at hresult
    dsimp only at hresult ⊢
    rw [h]
    cases hfatal : res.fatal with
    | true =>
      rw [hfatal, if_pos rfl] at hresult
      cases hresult
      simp only [hfatal, if_true]
      exact ⟨by omega, trivial, fun hno => absurd hno.symm Bool.false_ne_true⟩
    | false =>
      simp only [hfatal, Bool.false_eq_true, if_false]
      exact ⟨by omega, trivial, fun _ => trivial⟩

/-- What was counted is in `files` or still in `tmp`. -/
theorem tally_files : ∀ {nodes : List (ScanNode ι)}, Ends M H nodes → ∀ t : Nat × Nat × RepairFlags,
    (nodes.foldl (tally M H) t).1 + (nodes.foldl (tally M H) t).2.1 =
      t.1 + t.2.1 + (nodes.map fun node => (node.check M H).data).sum
  | [], _, _ => rfl
  | node :: nodes, h, t => by
    obtain ⟨all, hall⟩ := h node List.mem_cons_self
    obtain ⟨hsum, -, -⟩ := tally_ok hall t
    have ih := tally_files (fun n hn => h n (List.mem_cons_of_mem _ hn)) (tally M H t node)
    rw [List.foldl_cons, ih, hsum, List.map_cons, List.sum_cons]
    omega

/-- The last node decides what the pass returns. -/
theorem tally_last {nodes : List (ScanNode ι)} (h : Ends M H nodes) {t : Nat × Nat × RepairFlags}
    (hres : t.2.2 = .clean) (htmp : t.2.1 = 0) :
    ((nodes.foldl (tally M H) t).2.2 = .clean ↔
        ∀ node, nodes.getLast? = some node → node.result M H = .ok .clean) ∧
      ((nodes.foldl (tally M H) t).2.2 = .clean → (nodes.foldl (tally M H) t).2.1 = 0) := by
  rcases List.eq_nil_or_concat nodes with rfl | ⟨front, node, rfl⟩
  · refine ⟨⟨fun _ node hnone => ?_, fun _ => hres⟩, fun _ => htmp⟩
    cases hnone
  · obtain ⟨all, hall⟩ := h node (by simp)
    obtain ⟨-, hlast, hzero⟩ := tally_ok hall (front.foldl (tally M H) t)
    rw [List.concat_eq_append, List.foldl_append, List.foldl_cons, List.foldl_nil, hlast]
    refine ⟨?_, fun hclean => hzero (by rw [hclean]; rfl)⟩
    simp [hall]

/-- The stat data items of a good node have been counted. -/
theorem good_counted {node : ScanNode ι} (h : node.good M H = true) :
    (node.check M H).data = plugCount M .stat40 (node.check M H).items := by
  unfold ScanNode.good ScanNode.result at h
  cases hres : (node.check M H).res with
  | error e =>
    rw [hres] at h
    cases h
  | ok res =>
    rw [hres] at h
    cases hfatal : res.fatal with
    | true => simp [hfatal] at h
    | false => exact repairNodeCheckStruct_counted .stat40 hres hfatal

/-- A sum over a list is that over a part of it exactly when the rest adds nothing. -/
theorem sum_filter_eq_iff {α : Type} (f : α → Nat) (p : α → Bool) (l : List α) :
    (l.map f).sum = ((l.filter p).map f).sum ↔ ∀ x ∈ l, p x = false → f x = 0 := by
  have hsplit : (l.map f).sum = ((l.filter p).map f).sum + ((l.filter fun x => !p x).map f).sum := by
    induction l with
    | nil => rfl
    | cons x l ih =>
      cases hp : p x <;> simp [hp, ih] <;> omega
  rw [hsplit, Nat.add_eq_left, List.sum_eq_zero_iff_forall_eq_nat]
  simp only [List.mem_map, List.mem_filter, Bool.not_eq_true']
  constructor
  · exact fun h x hx hp => h _ ⟨x, ⟨hx, hp⟩, rfl⟩
  · rintro h _ ⟨x, ⟨hx, hp⟩, rfl⟩
    exact h x hx hp

/-! ## When the pass keeps every readable node -/

/-- What the pass owes: every marked block visited, the bitmaps grown by the blocks that open and by the
    good leaves and twigs, the files by the stat data items of these. -/
structure KeepsReadable (aal : AalBits) (M : NodeMethods ι) (H : DsHint) (scan : Bitmap)
    (ds ds' : Ds ι) : Prop where
  read : ds'.readNodes = ds.readNodes + (marksFrom aal scan 0).length
  met : Gains aal (fun j => scan.has aal j && (opened H ds.blocks j).isSome) ds.bmMet ds'.bmMet
  leaf : Gains aal (fun j => scan.has aal j && marks H (ScanNode.good M H) leafLevel ds.blocks j)
    ds.bmLeaf ds'.bmLeaf
  twig : Gains aal (fun j => scan.has aal j && marks H (ScanNode.good M H) twigLevel ds.blocks j)
    ds.bmTwig ds'.bmTwig
  files : ds'.files = ds.files + (((scannedNodes aal H scan ds.blocks).filter (ScanNode.good M H)).map
    fun node => plugCount M .stat40 (node.check M H).items).sum

/-- No node of the scan spoils the pass. -/
structure Unspoiled (aal : AalBits) (M : NodeMethods ι) (H : DsHint) (scan : Bitmap) (ds : Ds ι) :
    Prop where
  /-- The checks of every leaf and twig end without an error. -/
  ends : Ends M H (scannedNodes aal H scan ds.blocks)
  /-- Nothing is wrong with the last leaf or twig. -/
  last : ∀ node, (scannedNodes aal H scan ds.blocks).getLast? = some node →
    node.result M H = .ok .clean
  /-- Nothing is wrong with a good one, or its block was marked before. -/
  clean : ∀ blk node, scan.has aal blk = true → dataNode H ds.blocks blk = some node →
    node.good M H = true → node.result M H = .ok .clean ∨
      (if node.level = twigLevel then ds.bmTwig else ds.bmLeaf).has aal blk = true
  /-- No stat data item is counted in one that is not good. -/
  stats : ∀ node ∈ scannedNodes aal H scan ds.blocks, node.good M H = false →
    (node.check M H).data = 0

theorem decide_mem_marksFrom (b : Bitmap) (j : Nat) :
    decide (j ∈ marksFrom aal b 0) = b.has aal j := by
  rw [Bool.eq_iff_iff, decide_eq_true_iff]
  unfold marksFrom
  rw [List.mem_filter, List.mem_range'_1]
  refine ⟨fun h => h.2, fun h => ⟨⟨Nat.zero_le _, ?_⟩, h⟩⟩
  have := Bitmap.has_lt h
  omega

/-- The sum over the good nodes, counted or left. -/
theorem good_sum (nodes : List (ScanNode ι)) :
    ((nodes.filter (ScanNode.good M H)).map fun node => (node.check M H).data).sum =
      ((nodes.filter (ScanNode.good M H)).map fun node =>
        plugCount M .stat40 (node.check M H).items).sum := by
  congr 1
  refine List.map_congr_left fun node hnode => ?_
  exact good_counted (List.mem_filter.mp hnode).2

variable (aal) in
theorem any_fails_iff (scan : Bitmap) (blocks : Nat → Option (ScanNode ι)) :
    (marksFrom aal scan 0).any (fails M H blocks) = false ↔
      Ends M H (scannedNodes aal H scan blocks) := by
  unfold Ends scannedNodes fails
  simp only [List.any_eq_false, List.mem_filterMap]
  constructor
  · rintro hno node ⟨b, hb, hnode⟩
    have hok := hno b hb
    rw [hnode, Option.any_some] at hok
    cases hres : node.result M H with
    | error e => simp [hres] at hok
    | ok res => exact ⟨res, rfl⟩
  · intro hends b hb
    cases hnode : dataNode H blocks b with
    | none => simp
    | some node =>
      obtain ⟨res, hres⟩ := hends node ⟨b, hb, hnode⟩
      simp [hres]

/-- A kept node is a good one that has nothing wrong with it. -/
theorem kept_iff (node : ScanNode ι) :
    node.kept M H = true ↔ node.good M H = true ∧ node.result M H = .ok .clean := by
  unfold ScanNode.kept ScanNode.good
  cases node.result M H with
  | error e => simp
  | ok res =>
    simp only [Bool.and_eq_true, beq_iff_eq, Except.ok.injEq]
    constructor
    · rintro ⟨rfl, hne⟩
      exact ⟨⟨rfl, hne⟩, rfl⟩
    · rintro ⟨⟨-, hne⟩, rfl⟩
      exact ⟨rfl, hne⟩

theorem marks_iff (p : ScanNode ι → Bool) (level : Nat) (blocks : Nat → Option (ScanNode ι))
    (blk : Nat) : marks H p level blocks blk = true ↔
      ∃ node, dataNode H blocks blk = some node ∧ node.level = level ∧ p node = true := by
  unfold marks
  rw [Option.any_eq_true]
  simp only [Bool.and_eq_true, beq_iff_eq]

/-- What a bitmap has gained of more blocks than those known. -/
theorem Gains.more_iff {p q : Nat → Bool} {b b' : Bitmap} (h : Gains aal p b b')
    (hpq : ∀ j, p j = true → q j = true) :
    Gains aal q b b' ↔ ∀ j, q j = true → p j = true ∨ b.has aal j = true := by
  constructor
  · intro hq j hj
    have hboth := (hq.has j).symm.trans (h.has j)
    rw [hj, Bool.true_or] at hboth
    exact Bool.or_eq_true _ _ ▸ hboth.symm
  · intro hall
    refine ⟨h.total, h.size, fun j => ?_⟩
    rw [h.has j]
    cases hq : q j with
    | true =>
      rcases hall j hq with hp | hb
      · rw [hp]
      · rw [hb, Bool.or_true, Bool.or_true]
    | false =>
      cases hp : p j with
      | true => rw [hpq j hp] at hq; cases hq
      | false => rfl

/-- The bitmaps have gained the good nodes when these are the kept ones. -/
theorem DiskScanned.marks_iff {scan : Bitmap} {ds ds' : Ds ι}
    (hs : DiskScanned aal M H (marksFrom aal scan 0) ds ds') :
    (Gains aal (fun j => scan.has aal j && marks H (ScanNode.good M H) leafLevel ds.blocks j)
        ds.bmLeaf ds'.bmLeaf ∧
      Gains aal (fun j => scan.has aal j && marks H (ScanNode.good M H) twigLevel ds.blocks j)
        ds.bmTwig ds'.bmTwig) ↔
    ∀ blk node, scan.has aal blk = true → dataNode H ds.blocks blk = some node →
      node.good M H = true → node.result M H = .ok .clean ∨
        (if node.level = twigLevel then ds.bmTwig else ds.bmLeaf).has aal blk = true := by
  have hmore : ∀ (level : Nat) (j : Nat),
      (decide (j ∈ marksFrom aal scan 0) && marks H (ScanNode.kept M H) level ds.blocks j) = true →
      (scan.has aal j && marks H (ScanNode.good M H) level ds.blocks j) = true := by
    intro level j hj
    rw [Bool.and_eq_true, decide_mem_marksFrom, Repair.marks_iff] at hj
    obtain ⟨hin, node, hnode, hlevel, hkept⟩ := hj
    rw [Bool.and_eq_true, Repair.marks_iff]
    exact ⟨hin, node, hnode, hlevel, ((kept_iff node).mp hkept).1⟩
  rw [hs.leaf.more_iff (hmore leafLevel), hs.twig.more_iff (hmore twigLevel)]
  simp only [Bool.and_eq_true, decide_mem_marksFrom, Repair.marks_iff, kept_iff]
  constructor
  · rintro ⟨hleaf, htwig⟩ blk node hin hnode hgood
    have hlevel : node.level = leafLevel ∨ node.level = twigLevel := by
      have hdata := hnode
      unfold dataNode at hdata
      exact (repairTreeDataLevel_iff _).mp (Option.filter_eq_some_iff.mp hdata).2
    rcases hlevel with hlevel | hlevel
    · rw [if_neg (by rw [hlevel]; decide)]
      rcases hleaf blk ⟨hin, node, hnode, hlevel, hgood⟩ with hkept | hmarked
      · obtain ⟨-, node', hnode', -, -, hclean⟩ := hkept
        rw [hnode] at hnode'
        cases hnode'
        exact .inl hclean
      · exact .inr hmarked
    · rw [if_pos hlevel]
      rcases htwig blk ⟨hin, node, hnode, hlevel, hgood⟩ with hkept | hmarked
      · obtain ⟨-, node', hnode', -, -, hclean⟩ := hkept
        rw [hnode] at hnode'
        cases hnode'
        exact .inl hclean
      · exact .inr hmarked
  · intro hall
    constructor
    · rintro blk ⟨hin, node, hnode, hlevel, hgood⟩
      have hor := hall blk node hin hnode hgood
      rw [if_neg (by rw [hlevel]; decide)] at hor
      exact hor.imp_left fun hclean => ⟨hin, node, hnode, hlevel, hgood, hclean⟩
    · rintro blk ⟨hin, node, hnode, hlevel, hgood⟩
      have hor := hall blk node hin hnode hgood
      rw [if_pos hlevel] at hor
      exact hor.imp_left fun hclean => ⟨hin, node, hnode, hlevel, hgood, hclean⟩

variable (aal) in
/-- **The pass returns success and keeps every readable node exactly when no node spoils it**: it
    returns the result of the last check, and counts the stat data items of a node it gives up to the
    next node it does not. -/
theorem repairDiskScan_keeps_iff {scan : Bitmap} (hscan : scan.Sized) {ds : Ds ι}
    (h : DsShaped scan.total ds) (htmp : ds.tmp = 0) {fuel : Nat}
    (hfuel : (marksFrom aal scan 0).length < fuel) :
    (∃ ds', (repairDiskScan aal M H scan fuel).run ds = some (.ok .clean, ds') ∧
      KeepsReadable aal M H scan ds ds') ↔ Unspoiled aal M H scan ds := by
  have hloop := diskLoop_spec aal M H hscan fuel 0
    (show DsShaped scan.total { ds with res := .clean } from ⟨h.met, h.leaf, h.twig⟩) hfuel
  rw [repairDiskScan, Run.modify_bind]
  by_cases hends : Ends M H (scannedNodes aal H scan ds.blocks)
  · rw [if_neg (by rw [(any_fails_iff aal scan ds.blocks).mpr hends]; exact Bool.false_ne_true)]
      at hloop
    obtain ⟨ds', hrun, hs⟩ := hloop
    have hcounts := hs.counts
    rw [foldl_tallyBlk] at hcounts
    obtain ⟨hlast, hzero⟩ := tally_last hends (t := (ds.files, ds.tmp, .clean)) rfl htmp
    have hsum := tally_files hends (ds.files, ds.tmp, .clean)
    rw [← scannedNodes] at hcounts
    rw [← hcounts] at hlast hzero hsum
    have hmet : Gains aal (fun j => scan.has aal j && (opened H ds.blocks j).isSome)
        ds.bmMet ds'.bmMet := hs.met.congr fun j => by
      rw [decide_mem_marksFrom]
    have hfiles : ds'.res = .clean → (ds'.files = ds.files +
        (((scannedNodes aal H scan ds.blocks).filter (ScanNode.good M H)).map
          fun node => plugCount M .stat40 (node.check M H).items).sum ↔
        ∀ node ∈ scannedNodes aal H scan ds.blocks, node.good M H = false →
          (node.check M H).data = 0) := by
      intro hclean
      have hempty : ds'.tmp = 0 := hzero hclean
      rw [← sum_filter_eq_iff, ← good_sum]
      dsimp only at hsum
      omega
    constructor
    · rintro ⟨ds'', hrun', hk⟩
      obtain ⟨hres, rfl⟩ : ds'.res = .clean ∧ ds' = ds'' := by
        have heq := hrun.symm.trans hrun'
        simpa using heq
      exact ⟨hends, hlast.mp hres, hs.marks_iff.mp ⟨hk.leaf, hk.twig⟩, (hfiles hres).mp hk.files⟩
    · intro hu
      have hres : ds'.res = .clean := hlast.mpr hu.last
      have hmarks := hs.marks_iff.mpr hu.clean
      rw [hres] at hrun
      exact ⟨ds', hrun, hs.read, hmet, hmarks.1, hmarks.2,
        (hfiles hres).mpr hu.stats⟩
  · constructor
    · rintro ⟨ds', hrun, -⟩
      have hany : (marksFrom aal scan 0).any (fails M H ds.blocks) = true := by
        rw [← Bool.not_eq_false, any_fails_iff]
        exact hends
      rw [if_pos hany] at hloop
      obtain ⟨e, ds'', hrun'⟩ := hloop
      rw [hrun] at hrun'
      cases hrun'
    · exact fun hu => absurd hu.ends hends

end Visit

/-! ## Samples -/

/-- The methods on nodes with nothing but sound stat data items, each of which is its key. -/
def statMethods : NodeMethods Key where
  checkStruct _ items := (.ok .clean, items, false)
  fetch _ := true
  plug _ := .stat40
  key := id
  updateKey _ key := key
  keyCheckStruct key := (.clean, key)
  itemCheckStruct _ key := (.ok .clean, key, false)
  maxrealKey key := .ok key
  clearFlags key := (key, false)
  plug_updateKey _ _ := rfl

/-- The stat data key of an object of directory 42. -/
def statKey (oid : Nat) : Key := ⟨42 * 16 + 1, 0, oid, 0⟩

/-- Leaves with these stat data items from block 2 on. -/
def sampleDs (leaves : List (List Nat)) : Ds Key where
  blocks b := if b < 2 then none
    else (leaves[b - 2]?).map fun oids => ⟨leafLevel, 7, oids.map statKey, false⟩
  bmMet := reiser4BitmapCreate 20
  bmLeaf := reiser4BitmapCreate 20
  bmTwig := reiser4BitmapCreate 20
  files := 0
  tmp := 0
  readNodes := 0
  goodNodes := 0
  goodTwigs := 0
  fixedTwigs := 0
  goodLeaves := 0
  fixedLeaves := 0
  res := .clean

/-- Blocks 2, 3 and 4 are to be scanned. -/
def sampleScan : Bitmap :=
  { marked := 3, total := 20, size := 3, map := ofBits fun j => decide (2 ≤ j ∧ j < 5) }

/-- The make id is 7. -/
def sampleHint : DsHint := ⟨.build, true, 7⟩

/-- Three leaves with sound keys. -/
theorem repairDiskScan_keeps_three :
    ∃ ds', (repairDiskScan AalBits.plain statMethods sampleHint sampleScan 4).run
        (sampleDs [[65, 66], [70], [80]]) = some (.ok .clean, ds') ∧
      KeepsReadable AalBits.plain statMethods sampleHint sampleScan (sampleDs [[65, 66], [70], [80]])
        ds' := by
  have hmap : ∀ b : Bitmap, b = reiser4BitmapCreate 20 → b.Sized ∧ b.total = 20 := by
    rintro _ rfl
    exact ⟨⟨by decide, by decide⟩, rfl⟩
  have hall : ∀ node ∈ scannedNodes AalBits.plain sampleHint sampleScan
      (sampleDs [[65, 66], [70], [80]]).blocks,
      node.result statMethods sampleHint = .ok .clean ∧ node.good statMethods sampleHint = true := by
    decide
  refine (repairDiskScan_keeps_iff AalBits.plain (M := statMethods) (H := sampleHint)
    ⟨by decide, by decide⟩ ⟨hmap _ rfl, hmap _ rfl, hmap _ rfl⟩ rfl (by decide)).mpr
    ⟨?_, ?_, ?_, ?_⟩
  · exact fun node hnode => ⟨_, (hall node hnode).1⟩
  · exact fun node hnode => (hall node (List.mem_of_getLast? hnode)).1
  · intro blk node hblk hnode _
    rw [← decide_mem_marksFrom, decide_eq_true_iff] at hblk
    exact .inl (hall node (List.mem_filterMap.mpr ⟨blk, hblk, hnode⟩)).1
  · intro node hnode hgood
    rw [(hall node hnode).2] at hgood
    cases hgood

/-- Three leaves; the keys of the first and of the last are in the wrong order.  The pass returns
    `RE_FATAL`, and the stat data item met in the first is counted with the second. -/
theorem repairDiskScan_spoiled :
    ∃ ds', (repairDiskScan AalBits.plain statMethods sampleHint sampleScan 4).run
        (sampleDs [[66, 65], [70], [81, 80]]) = some (.ok .reFatal, ds') ∧ ds'.files = 2 ∧
      ¬∃ ds'', (repairDiskScan AalBits.plain statMethods sampleHint sampleScan 4).run
          (sampleDs [[66, 65], [70], [81, 80]]) = some (.ok .clean, ds'') ∧
        KeepsReadable AalBits.plain statMethods sampleHint sampleScan
          (sampleDs [[66, 65], [70], [81, 80]]) ds'' := by
  have hrun : ((repairDiskScan AalBits.plain statMethods sampleHint sampleScan 4).run
      (sampleDs [[66, 65], [70], [81, 80]])).map (fun r => (r.1.toOption, r.2.files)) =
        some (some .reFatal, 2) := by decide
  obtain ⟨⟨res, ds'⟩, hsome, hres⟩ := Option.map_eq_some_iff.mp hrun
  obtain ⟨hres, hfiles⟩ := Prod.mk.inj hres
  cases res with
  | error e => cases hres
  | ok res =>
    cases hres
    refine ⟨ds', hsome, hfiles, ?_⟩
    rintro ⟨ds'', hclean, -⟩
    rw [hsome] at hclean
    cases hclean

end Reiser4.Repair
