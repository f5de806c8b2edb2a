/-
  The allocator while the file system is repaired (`repair_am_prepare`, `repair_sem_prepare` and the
  allocator's callbacks).

  The passes that find the blocks in use keep them in bitmaps of their own; the passes that change the
  tree allocate from the allocator, so its bitmap is replaced first.  In build mode it becomes the
  bitmap of all blocks met, and later that of all blocks used; in fix mode the bits of the used blocks
  are added to what it was.

  Both preparations have an exception.  In build mode nothing is assigned when no block but those of
  the format was met, and the allocator stays as it was opened.  In fix mode the bits are added without
  counting them.

    1. `allocate_spec`, `release_spec`   what an allocation and a release change;
    2. `Inv`                    the blocks of the tree, of the unconnected nodes and of their extents
                                are occupied;
    3. `Step.inv`, `run_inv`    every change of the tree keeps it;
    4. `repairAllocator_iff`    when it holds from the preparation on.
-/
import Reiser4.Fs.Areas
import Reiser4.Repair.TwigScan
import Mathlib.Logic.Relation

namespace Reiser4.Repair

open Reiser4.Lib Reiser4.Alloc40

/-- `repair_control_t`, as far as the passes that change the tree use it; a bitmap that was closed is
    NULL. -/
structure AllocControl where
  mode : Mode
  fs : Fs
  bmUsed : Option Bitmap
  bmTwig : Option Bitmap
  bmLeaf : Option Bitmap
  bmMet : Option Bitmap
  bmAlloc : Option Bitmap
  /-- The number of blocks of the format area. -/
  sysblk : Nat
  /-- Are `cb_alloc` and `cb_release` the hooks of the allocator? -/
  hook : Bool

section Model

variable (aal : AalBits)

/-! ## The hooks -/

/-- `cb_alloc`. -/
def cbAlloc (c : AllocControl) (start count : Nat) : Option AllocControl := do
  let used ← c.bmUsed
  let used ← reiser4BitmapMarkRegion aal used start count
  some { c with bmUsed := some used }

/-- `cb_release`. -/
def cbRelease (c : AllocControl) (start count : Nat) : Option AllocControl := do
  let used ← c.bmUsed
  let used ← reiser4BitmapClearRegion aal used start count
  some { c with bmUsed := some used }

/-- `reiser4_alloc_allocate`: the start of what was found, and its length. -/
def reiser4AllocAllocate (c : AllocControl) (count : Nat) : Option (Nat × Nat × AllocControl) := do
  let (start, blocks, alloc) ← alloc40Allocate aal c.fs.alloc 0 count
  let c := { c with fs := { c.fs with alloc } }
  if 0 < blocks ∧ c.hook then
    let c ← cbAlloc aal c start blocks
    some (start, blocks, c)
  else some (start, blocks, c)

/-- `reiser4_alloc_release`. -/
def reiser4AllocRelease (c : AllocControl) (start count : Nat) : Option AllocControl := do
  let alloc ← alloc40Release aal c.fs.alloc start count
  let c := { c with fs := { c.fs with alloc } }
  if c.hook then cbRelease aal c start count else some c

/-! ## The preparations -/

/-- The first `n` bytes of a map without the bits of another one. -/
def clearBytes (n : Nat) (b b' : Bitmap) : Option Bitmap :=
  if n ≤ b.size ∧ n ≤ b'.size then
    some { b with map := fun i => if i < n then b.map i &&& ~~~b'.map i else b.map i }
  else none

/-- The first `n` bytes of a map with the bits of another one. -/
def orBytes (n : Nat) (b b' : Bitmap) : Option Bitmap :=
  if n ≤ b.size ∧ n ≤ b'.size then
    some { b with map := fun i => if i < n then b.map i ||| b'.map i else b.map i }
  else none

/-- `repair_am_prepare`. -/
def repairAmPrepare (c : AllocControl) : Option AllocControl := do
  let used ← c.bmUsed
  let met ← c.bmMet
  let twig ← c.bmTwig
  let leaf ← c.bmLeaf
  let twig ← clearBytes met.size twig used
  let leaf ← clearBytes met.size leaf used
  let met ← reiser4BitmapCalcMarked aal met
  let fs := if met.marked ≠ c.sysblk then
      { c.fs with alloc := alloc40Assign c.fs.alloc met, free := met.total - met.marked }
    else c.fs
  let twig ← reiser4BitmapCalcMarked aal twig
  let leaf ← reiser4BitmapCalcMarked aal leaf
  some { c with fs, bmTwig := some twig, bmLeaf := some leaf, bmMet := none }

/-- `repair_sem_prepare`. -/
def repairSemPrepare (c : AllocControl) : Option AllocControl := do
  let _ ← c.bmTwig
  let used ← c.bmUsed
  let c := { c with bmTwig := none }
  match c.mode with
  | .build =>
    let _ ← c.bmLeaf
    let fs := if used.marked ≠ c.sysblk then
        { c.fs with alloc := alloc40Assign c.fs.alloc used, free := used.total - used.marked }
      else c.fs
    some { c with fs, bmLeaf := none, bmUsed := none, hook := false }
  | .check =>
    let bmAlloc := alloc40Extract c.fs.alloc (reiser4BitmapCreate c.fs.len)
    some { c with bmAlloc }
  | .fix =>
    let bmAlloc := alloc40Extract c.fs.alloc (reiser4BitmapCreate c.fs.len)
    let bmTemp ← orBytes used.size (reiser4BitmapClone bmAlloc) used
    some { c with bmAlloc, fs := { c.fs with alloc := alloc40Assign c.fs.alloc bmTemp } }

/-- The preparation of the first pass that allocates: `repair_am_prepare` in build mode, else
    `repair_sem_prepare`. -/
def prepare (c : AllocControl) : Option AllocControl :=
  match c.mode with
  | .build => repairAmPrepare aal c
  | _ => repairSemPrepare c

/-! ## What the passes do with the bitmaps -/

/-- The bitmap a loop of `repair_add_missing` goes through: that of the twigs, then of the leaves. -/
def clearKept (leaf : Bool) (c : AllocControl) (blk : Nat) : Option AllocControl :=
  if leaf then do
    let b ← c.bmLeaf
    let b ← reiser4BitmapClear aal b blk
    some { c with bmLeaf := some b }
  else do
    let b ← c.bmTwig
    let b ← reiser4BitmapClear aal b blk
    some { c with bmTwig := some b }

/-- What `repair_am_nodes_insert` does with the bitmaps for a node it has attached to the tree. -/
def amAttached (leaf : Bool) (c : AllocControl) (blk : Nat) : Option AllocControl := do
  let c ← clearKept aal leaf c blk
  let used ← c.bmUsed
  let used ← reiser4BitmapMarkRegion aal used blk 1
  some { c with bmUsed := some used }

/-- What `repair_add_missing` does for a node that is empty, or whose items have been inserted. -/
def amDropped (leaf : Bool) (c : AllocControl) (blk : Nat) : Option AllocControl := do
  let c ← clearKept aal leaf c blk
  reiser4AllocRelease aal c blk 1

/-- `cb_item_mark_region`. -/
def cbItemMarkRegion (c : AllocControl) (start count : Nat) : Option AllocControl :=
  if start = 0 then some c
  else do
    let used ← c.bmUsed
    let used ← reiser4BitmapMarkRegion aal used start count
    some { c with bmUsed := some used }

end Model

/-! ## The blocks in use -/

/-- The repair between two changes: the control data, and which blocks are in use. -/
structure State where
  c : AllocControl
  /-- The blocks of the nodes and of the extents of the tree. -/
  tree : Nat → Prop
  /-- The blocks of the extents in the unconnected nodes. -/
  data : Nat → Prop

section Safety

variable (aal : AalBits)

/-- An optional bitmap has the block. -/
def bmHas (b : Option Bitmap) (i : Nat) : Prop := ∃ b', b = some b' ∧ b'.has aal i = true

/-- The block is an unconnected node's that is kept for the insertion. -/
def AllocControl.kept (c : AllocControl) (i : Nat) : Prop :=
  bmHas aal c.bmTwig i ∨ bmHas aal c.bmLeaf i

/-- One change of the tree, as the allocator sees it. -/
inductive Step : State → State → Prop
  /-- Blocks are allocated for a node or an extent. -/
  | allocate {s : State} {count start blocks : Nat} {c : AllocControl}
      (run : reiser4AllocAllocate aal s.c count = some (start, blocks, c)) :
      Step s ⟨c, fun i => s.tree i ∨ (start ≤ i ∧ i < start + blocks), s.data⟩
  /-- Blocks are released that are the tree's and nothing else's. -/
  | release {s : State} {start count : Nat} {c : AllocControl}
      (own : ∀ i, start ≤ i → i < start + count → s.tree i ∧ ¬s.c.kept aal i ∧ ¬s.data i)
      (run : reiser4AllocRelease aal s.c start count = some c) :
      Step s ⟨c, fun i => s.tree i ∧ ¬(start ≤ i ∧ i < start + count), s.data⟩
  /-- An unconnected node becomes one of the tree. -/
  | attach {s : State} {leaf : Bool} {blk : Nat} {c : AllocControl}
      (kept : bmHas aal (if leaf then s.c.bmLeaf else s.c.bmTwig) blk)
      (run : amAttached aal leaf s.c blk = some c) :
      Step s ⟨c, fun i => s.tree i ∨ i = blk, s.data⟩
  /-- An unconnected node is thrown away; it is nothing else. -/
  | drop {s : State} {leaf : Bool} {blk : Nat} {c : AllocControl}
      (kept : bmHas aal (if leaf then s.c.bmLeaf else s.c.bmTwig) blk)
      (one : ¬bmHas aal (if leaf then s.c.bmTwig else s.c.bmLeaf) blk)
      (own : ¬s.tree blk ∧ ¬s.data blk) (run : amDropped aal leaf s.c blk = some c) :
      Step s ⟨c, s.tree, s.data⟩
  /-- An extent of an unconnected node becomes one of the tree. -/
  | extent {s : State} {start count : Nat} {c : AllocControl} (start_pos : start ≠ 0)
      (own : ∀ i, start ≤ i → i < start + count → s.data i)
      (run : cbItemMarkRegion aal s.c start count = some c) :
      Step s ⟨c, fun i => s.tree i ∨ (start ≤ i ∧ i < start + count), s.data⟩
  /-- Extents of unconnected nodes are gone: they are the tree's now, or not inserted. -/
  | forget {s : State} {data : Nat → Prop} (sub : ∀ i, data i → s.data i) : Step s ⟨s.c, s.tree, data⟩
  /-- In build mode the semantic pass begins when no unconnected node is left. -/
  | semantic {s : State} {c : AllocControl} (build : s.c.mode = .build)
      (none_kept : ∀ i, ¬s.c.kept aal i) (none_data : ∀ i, ¬s.data i)
      (run : repairSemPrepare s.c = some c) : Step s ⟨c, s.tree, s.data⟩

/-- **The allocator is safe**: what is used is occupied, the occupied blocks are counted, and no block
    in use is handed out. -/
structure Safe (s : State) : Prop where
  used_occupied : ∀ i, bmHas aal s.c.bmUsed i → s.c.fs.alloc.bitmap.has aal i = true
  counted : alloc40Used s.c.fs.alloc = s.c.fs.alloc.bitmap.count aal
  fresh : ∀ count start blocks c, reiser4AllocAllocate aal s.c count = some (start, blocks, c) →
    ∀ i, start ≤ i → i < start + blocks → ¬s.tree i ∧ ¬s.c.kept aal i ∧ ¬s.data i

/-- A bitmap of the file system. -/
structure Fits (len : Nat) (b : Bitmap) : Prop where
  sized : b.Sized
  total_eq : b.total = len

/-- What the earlier passes leave: the blocks of the tree are used, and in build mode what is used or
    unconnected has been met. -/
structure Left (s : State) : Prop where
  alloc : s.c.fs.alloc.bitmap.WF aal
  alloc_fits : Fits s.c.fs.len s.c.fs.alloc.bitmap
  hook : s.c.hook = true
  used : ∃ used, s.c.bmUsed = some used ∧ used.WF aal ∧ Fits s.c.fs.len used ∧
    s.c.sysblk ≤ used.marked ∧ ∀ i, s.tree i → used.has aal i = true
  build : s.c.mode = .build → ∃ met twig leaf, s.c.bmMet = some met ∧ s.c.bmTwig = some twig ∧
    s.c.bmLeaf = some leaf ∧ Fits s.c.fs.len met ∧ Fits s.c.fs.len twig ∧ Fits s.c.fs.len leaf ∧
    (∀ i, bmHas aal s.c.bmUsed i ∨ bmHas aal s.c.bmTwig i ∨ bmHas aal s.c.bmLeaf i ∨ s.data i →
      met.has aal i = true)
  fix : s.c.mode = .fix → s.c.bmTwig.isSome = true ∧ s.c.bmLeaf = none ∧ ∀ i, ¬s.data i

/-- The allocator as it was opened has the used blocks; in build mode it also does when another block
    than those of the format was met. -/
def Trusted (c : AllocControl) : Prop :=
  (c.mode = .build ∧ ∃ met, c.bmMet = some met ∧ met.count aal ≠ c.sysblk) ∨
    ∀ i, bmHas aal c.bmUsed i → c.fs.alloc.bitmap.has aal i = true

end Safety

/-! ## What the allocator does -/

section Specs

variable {aal : AalBits} {len : Nat} {c c' : AllocControl} {start count blocks : Nat}

/-- The blocks of the region. -/
def inRegion (start count i : Nat) : Prop := start ≤ i ∧ i < start + count

instance (start count i : Nat) : Decidable (inRegion start count i) :=
  inferInstanceAs (Decidable (_ ∧ _))

/-- Marking blocks of the bitmap. -/
theorem markRegion_in {b b' : Bitmap} (h : b.WF aal) (hin : start + count ≤ b.total)
    (hr : reiser4BitmapMarkRegion aal b start count = some b') (i : Nat) :
    b'.has aal i = (decide (inRegion start count i) || b.has aal i) := by
  obtain ⟨-, -, hhas⟩ := markRegion_spec h hr
  rw [hhas i, Bitmap.regionHas, decide_eq_true hin, Bool.true_and]
  rfl

/-- What neither an allocation nor a release touches. -/
structure SameKept (c c' : AllocControl) : Prop where
  mode : c'.mode = c.mode
  hook : c'.hook = c.hook
  twig : c'.bmTwig = c.bmTwig
  leaf : c'.bmLeaf = c.bmLeaf

theorem cbAlloc_run (h : cbAlloc aal c start count = some c') : ∃ used used', c.bmUsed = some used ∧
    reiser4BitmapMarkRegion aal used start count = some used' ∧
    c' = { c with bmUsed := some used' } := by
  unfold cbAlloc at h
  obtain ⟨used, hused, h⟩ := Option.bind_eq_some_iff.mp h
  obtain ⟨used', hmark, h⟩ := Option.bind_eq_some_iff.mp h
  cases h
  exact ⟨used, used', hused, hmark, rfl⟩

theorem cbRelease_run (h : cbRelease aal c start count = some c') : ∃ used used',
    c.bmUsed = some used ∧ reiser4BitmapClearRegion aal used start count = some used' ∧
    c' = { c with bmUsed := some used' } := by
  unfold cbRelease at h
  obtain ⟨used, hused, h⟩ := Option.bind_eq_some_iff.mp h
  obtain ⟨used', hclear, h⟩ := Option.bind_eq_some_iff.mp h
  cases h
  exact ⟨used, used', hused, hclear, rfl⟩

/-- An allocation takes blocks that were free, and marks them used. -/
theorem allocate_spec (hf : aal.FindsZero) (h : c.fs.alloc.bitmap.WF aal)
    (hrun : reiser4AllocAllocate aal c count = some (start, blocks, c')) :
    SameKept c c' ∧ start + blocks ≤ c.fs.alloc.bitmap.total ∧ c'.fs.alloc.bitmap.WF aal ∧
      c'.fs.alloc.bitmap.total = c.fs.alloc.bitmap.total ∧
      (∀ i, inRegion start blocks i → c.fs.alloc.bitmap.has aal i = false) ∧
      (∀ i, c'.fs.alloc.bitmap.has aal i =
        (decide (inRegion start blocks i) || c.fs.alloc.bitmap.has aal i)) ∧
      (c'.bmUsed = c.bmUsed ∧ (c.hook = true → blocks = 0) ∨ ∃ used used', c.bmUsed = some used ∧
        reiser4BitmapMarkRegion aal used start blocks = some used' ∧ c'.bmUsed = some used') := by
  unfold reiser4AllocAllocate at hrun
  obtain ⟨⟨s, n, alloc⟩, halloc, hrun⟩ := Option.bind_eq_some_iff.mp hrun
  obtain ⟨-, hin, hwf, htotal, hfree, hhas⟩ := alloc40Allocate_spec hf h halloc
  dsimp only at hrun
  split at hrun
  · next hhook =>
    obtain ⟨c1, hcb, hrun⟩ := Option.bind_eq_some_iff.mp hrun
    cases hrun
    obtain ⟨used, used', hused, hmark, rfl⟩ := cbAlloc_run hcb
    exact ⟨⟨rfl, rfl, rfl, rfl⟩, hin, hwf, htotal, fun i hi => hfree i hi.1 hi.2, hhas,
      Or.inr ⟨used, used', hused, hmark, rfl⟩⟩
  · next hhook =>
    cases hrun
    refine ⟨⟨rfl, rfl, rfl, rfl⟩, hin, hwf, htotal, fun i hi => hfree i hi.1 hi.2, hhas,
      Or.inl ⟨rfl, fun hh => ?_⟩⟩
    have : ¬0 < blocks := fun hpos => hhook ⟨hpos, hh⟩
    omega

/-- A release frees at most the blocks of the region. -/
theorem release_spec (h : c.fs.alloc.bitmap.WF aal)
    (hrun : reiser4AllocRelease aal c start count = some c') :
    SameKept c c' ∧ c'.fs.alloc.bitmap.WF aal ∧
      c'.fs.alloc.bitmap.total = c.fs.alloc.bitmap.total ∧
      (∀ i, c'.fs.alloc.bitmap.has aal i =
        (!c.fs.alloc.bitmap.regionHas start count i && c.fs.alloc.bitmap.has aal i)) ∧
      (c'.bmUsed = c.bmUsed ∧ c.hook = false ∨ ∃ used used', c.bmUsed = some used ∧
        reiser4BitmapClearRegion aal used start count = some used' ∧ c'.bmUsed = some used') := by
  unfold reiser4AllocRelease at hrun
  obtain ⟨alloc, halloc, hrun⟩ := Option.bind_eq_some_iff.mp hrun
  obtain ⟨b, hb, rfl⟩ := Option.map_eq_some_iff.mp halloc
  obtain ⟨hwf, htotal, hhas⟩ := clearRegion_spec h hb
  dsimp only at hrun
  split at hrun
  · obtain ⟨used, used', hused, hclear, rfl⟩ := cbRelease_run hrun
    exact ⟨⟨rfl, rfl, rfl, rfl⟩, hwf, htotal, hhas, Or.inr ⟨used, used', hused, hclear, rfl⟩⟩
  · next hhook =>
    cases hrun
    exact ⟨⟨rfl, rfl, rfl, rfl⟩, hwf, htotal, hhas, Or.inl ⟨rfl, by simpa using hhook⟩⟩

/-- One block fewer is kept. -/
theorem clearKept_spec {leaf : Bool} {blk : Nat} (htwig : ∀ b, c.bmTwig = some b → Fits len b)
    (hleaf : ∀ b, c.bmLeaf = some b → Fits len b) (hrun : clearKept aal leaf c blk = some c') :
    (∃ twig leaf, c' = { c with bmTwig := twig, bmLeaf := leaf }) ∧
      (∀ b, c'.bmTwig = some b → Fits len b) ∧ (∀ b, c'.bmLeaf = some b → Fits len b) ∧
      ∀ i, c'.kept aal i → c.kept aal i ∧
        (i = blk → bmHas aal (if leaf then c.bmTwig else c.bmLeaf) blk) := by
  unfold clearKept at hrun
  cases leaf with
  | true =>
    obtain ⟨b, hb, hrun⟩ := Option.bind_eq_some_iff.mp hrun
    obtain ⟨b', hb', hrun⟩ := Option.bind_eq_some_iff.mp hrun
    cases hrun
    obtain ⟨b1, h1, hsized, htotal, hhas⟩ := clear_has aal (hleaf b hb).sized blk
    obtain rfl : b1 = b' := Option.some.inj (h1.symm.trans hb')
    refine ⟨⟨_, _, rfl⟩, htwig, fun b2 h2 => ?_, fun i hi => ?_⟩
    · cases h2
      exact ⟨hsized, htotal.trans (hleaf b hb).total_eq⟩
    · rcases hi with hi | ⟨b2, h2, hbit⟩
      · exact ⟨Or.inl hi, fun he => he ▸ hi⟩
      · cases h2
        rw [hhas i, Bool.and_eq_true, Bool.not_eq_true', decide_eq_false_iff_not] at hbit
        exact ⟨Or.inr ⟨b, hb, hbit.2⟩, fun he => absurd he hbit.1⟩
  | false =>
    obtain ⟨b, hb, hrun⟩ := Option.bind_eq_some_iff.mp hrun
    obtain ⟨b', hb', hrun⟩ := Option.bind_eq_some_iff.mp hrun
    cases hrun
    obtain ⟨b1, h1, hsized, htotal, hhas⟩ := clear_has aal (htwig b hb).sized blk
    obtain rfl : b1 = b' := Option.some.inj (h1.symm.trans hb')
    refine ⟨⟨_, _, rfl⟩, fun b2 h2 => ?_, hleaf, fun i hi => ?_⟩
    · cases h2
      exact ⟨hsized, htotal.trans (htwig b hb).total_eq⟩
    · rcases hi with ⟨b2, h2, hbit⟩ | hi
      · cases h2
        rw [hhas i, Bool.and_eq_true, Bool.not_eq_true', decide_eq_false_iff_not] at hbit
        exact ⟨Or.inl ⟨b, hb, hbit.2⟩, fun he => absurd he hbit.1⟩
      · exact ⟨Or.inr hi, fun he => he ▸ hi⟩

end Specs

/-! ## The invariant -/

section Invariant

variable {aal : AalBits} {len : Nat} {s s' : State}

/-- The bitmap of the used blocks is kept by the hooks, or the passes that need it are over. -/
def UsedOk (aal : AalBits) (len : Nat) (s : State) : Prop :=
  (∃ used, s.c.hook = true ∧ s.c.bmUsed = some used ∧ used.WF aal ∧ used.total = len ∧
    (∀ i, used.has aal i = true → s.c.fs.alloc.bitmap.has aal i = true) ∧
    ∀ i, s.tree i → used.has aal i = true) ∨
  (s.c.hook = false ∧ s.c.bmUsed = none)

/-- **The invariant**: whatever is in use is occupied. -/
structure Inv (aal : AalBits) (len : Nat) (s : State) : Prop where
  alloc : s.c.fs.alloc.bitmap.WF aal
  alloc_total : s.c.fs.alloc.bitmap.total = len
  tree : ∀ i, s.tree i → s.c.fs.alloc.bitmap.has aal i = true
  kept : ∀ i, s.c.kept aal i → s.c.fs.alloc.bitmap.has aal i = true
  data : ∀ i, s.data i → s.c.fs.alloc.bitmap.has aal i = true
  twig : ∀ b, s.c.bmTwig = some b → Fits len b
  leaf : ∀ b, s.c.bmLeaf = some b → Fits len b
  used : UsedOk aal len s

theorem SameKept.kept {c c' : AllocControl} (h : SameKept c c') (i : Nat) :
    c'.kept aal i ↔ c.kept aal i := by
  unfold AllocControl.kept
  rw [h.twig, h.leaf]

theorem Inv.allocate (hf : aal.FindsZero) (h : Inv aal len s) {count start blocks : Nat}
    {c : AllocControl} (hrun : reiser4AllocAllocate aal s.c count = some (start, blocks, c)) :
    Inv aal len ⟨c, fun i => s.tree i ∨ (start ≤ i ∧ i < start + blocks), s.data⟩ := by
  obtain ⟨hsame, hin, hwf, htotal, -, hhas, hused⟩ := allocate_spec hf h.alloc hrun
  have hstay : ∀ i, s.c.fs.alloc.bitmap.has aal i = true → c.fs.alloc.bitmap.has aal i = true := by
    intro i hi
    rw [hhas i, hi, Bool.or_true]
  have hnew : ∀ i, inRegion start blocks i → c.fs.alloc.bitmap.has aal i = true := by
    intro i hi
    rw [hhas i, decide_eq_true hi, Bool.true_or]
  refine ⟨hwf, htotal.trans h.alloc_total, ?_, ?_, fun i hi => hstay i (h.data i hi), ?_, ?_, ?_⟩
  · rintro i (hi | hi)
    · exact hstay i (h.tree i hi)
    · exact hnew i hi
  · exact fun i hi => hstay i (h.kept i ((hsame.kept i).mp hi))
  · exact fun b hb => h.twig b (hsame.twig ▸ hb)
  · exact fun b hb => h.leaf b (hsame.leaf ▸ hb)
  · rcases h.used with ⟨used, hhook, hu, huwf, hut, hocc, htree⟩ | ⟨hhook, hu⟩
    · left
      rcases hused with ⟨hsu, hzero⟩ | ⟨used1, used', hu1, hmark, hsu⟩
      · -- Nothing was found.
        refine ⟨used, hsame.hook.trans hhook, hsu.trans hu, huwf, hut,
          fun i hi => hstay i (hocc i hi), ?_⟩
        rintro i (hi | hi)
        · exact htree i hi
        · have := hzero hhook
          omega
      · obtain rfl : used = used1 := Option.some.inj (hu.symm.trans hu1)
        have hmarked := markRegion_in huwf (by rw [hut, ← h.alloc_total]; exact hin) hmark
        refine ⟨used', hsame.hook.trans hhook, hsu, (markRegion_spec huwf hmark).1,
          (markRegion_spec huwf hmark).2.1.trans hut, fun i hi => ?_, ?_⟩
        · rw [hmarked i, Bool.or_eq_true, decide_eq_true_eq] at hi
          rcases hi with hi | hi
          · exact hnew i hi
          · exact hstay i (hocc i hi)
        · rintro i (hi | hi)
          · rw [hmarked i, htree i hi, Bool.or_true]
          · rw [hmarked i, decide_eq_true (show inRegion start blocks i from hi), Bool.true_or]
    · right
      rcases hused with ⟨hsu, -⟩ | ⟨used1, -, hu1, -, -⟩
      · exact ⟨hsame.hook.trans hhook, hsu.trans hu⟩
      · rw [hu] at hu1
        cases hu1

/-- A region that is released has only blocks of the region. -/
theorem regionHas_in {b : Bitmap} {start count i : Nat} (h : b.regionHas start count i = true) :
    start ≤ i ∧ i < start + count := by
  unfold Bitmap.regionHas at h
  simp only [Bool.and_eq_true, decide_eq_true_eq] at h
  exact h.2

/-- Releasing blocks that are not in use any more. -/
theorem Inv.release {tree : Nat → Prop} (h : Inv aal len s) {start count : Nat} {c : AllocControl}
    (hrun : reiser4AllocRelease aal s.c start count = some c)
    (htree : ∀ i, tree i → s.tree i ∧ ¬(start ≤ i ∧ i < start + count))
    (hkept : ∀ i, s.c.kept aal i → ¬(start ≤ i ∧ i < start + count))
    (hdata : ∀ i, s.data i → ¬(start ≤ i ∧ i < start + count)) :
    Inv aal len ⟨c, tree, s.data⟩ := by
  obtain ⟨hsame, hwf, htotal, hhas, hused⟩ := release_spec h.alloc hrun
  have hstay : ∀ i, ¬(start ≤ i ∧ i < start + count) → s.c.fs.alloc.bitmap.has aal i = true →
      c.fs.alloc.bitmap.has aal i = true := by
    intro i hout hi
    have hno : s.c.fs.alloc.bitmap.regionHas start count i = false :=
      Bool.eq_false_iff.mpr fun hr => hout (regionHas_in hr)
    rw [hhas i, hno, hi]
    rfl
  refine ⟨hwf, htotal.trans h.alloc_total, fun i hi => hstay i (htree i hi).2 (h.tree i (htree i hi).1),
    ?_, fun i hi => hstay i (hdata i hi) (h.data i hi), ?_, ?_, ?_⟩
  · intro i hi
    have hi' := (hsame.kept i).mp hi
    exact hstay i (hkept i hi') (h.kept i hi')
  · exact fun b hb => h.twig b (hsame.twig ▸ hb)
  · exact fun b hb => h.leaf b (hsame.leaf ▸ hb)
  · rcases h.used with ⟨used, hhook, hu, huwf, hut, hocc, htu⟩ | ⟨hhook, hu⟩
    · left
      rcases hused with ⟨-, hno⟩ | ⟨used1, used', hu1, hclear, hsu⟩
      · rw [hhook] at hno
        cases hno
      · obtain rfl : used = used1 := Option.some.inj (hu.symm.trans hu1)
        obtain ⟨hwf', ht', hhas'⟩ := clearRegion_spec huwf hclear
        have hregion : ∀ i, used.regionHas start count i =
            s.c.fs.alloc.bitmap.regionHas start count i := by
          intro i
          unfold Bitmap.regionHas
          rw [hut, h.alloc_total]
        refine ⟨used', hsame.hook.trans hhook, hsu, hwf', ht'.trans hut, fun i hi => ?_, fun i hi => ?_⟩
        · rw [hhas' i, Bool.and_eq_true, hregion i] at hi
          rw [hhas i, hi.1, hocc i hi.2]
          rfl
        · have hno : used.regionHas start count i = false :=
            Bool.eq_false_iff.mpr fun hr => (htree i hi).2 (regionHas_in hr)
          rw [hhas' i, hno, htu i (htree i hi).1]
          rfl
    · right
      rcases hused with ⟨hsu, -⟩ | ⟨used1, -, hu1, -, -⟩
      · exact ⟨hsame.hook.trans hhook, hsu.trans hu⟩
      · rw [hu] at hu1
        cases hu1

/-- Blocks that are occupied are marked used and become the tree's. -/
theorem Inv.use (h : Inv aal len s) {start count : Nat} {used used' : Bitmap}
    (hu : s.c.bmUsed = some used)
    (hocc : ∀ i, start ≤ i → i < start + count → s.c.fs.alloc.bitmap.has aal i = true)
    (hmark : reiser4BitmapMarkRegion aal used start count = some used') :
    Inv aal len ⟨{ s.c with bmUsed := some used' },
      fun i => s.tree i ∨ (start ≤ i ∧ i < start + count), s.data⟩ := by
  refine ⟨h.alloc, h.alloc_total, ?_, h.kept, h.data, h.twig, h.leaf, Or.inl ?_⟩
  · rintro i (hi | hi)
    · exact h.tree i hi
    · exact hocc i hi.1 hi.2
  · rcases h.used with ⟨used1, hhook, hu1, huwf, hut, hsub, htree⟩ | ⟨-, hno⟩
    · obtain rfl : used = used1 := Option.some.inj (hu.symm.trans hu1)
      obtain ⟨hwf', ht', hhas'⟩ := markRegion_spec huwf hmark
      refine ⟨used', hhook, rfl, hwf', ht'.trans hut, fun i hi => ?_, fun i hi => ?_⟩
      · rw [hhas' i, Bool.or_eq_true] at hi
        rcases hi with hi | hi
        · exact hocc i (regionHas_in hi).1 (regionHas_in hi).2
        · exact hsub i hi
      · rcases hi with hi | hi
        · rw [hhas' i, htree i hi, Bool.or_true]
        · -- The last block of the region is one of the file system.
          have hlast := Bitmap.has_lt (hocc (start + count - 1) (by omega) (by omega))
          have hin : start + count ≤ used.total := by
            rw [hut, ← h.alloc_total]
            omega
          rw [markRegion_in huwf hin hmark i, decide_eq_true (show inRegion start count i from hi),
            Bool.true_or]
    · rw [hu] at hno
      cases hno

/-- With fewer kept nodes, the rest as it was. -/
theorem Inv.dropKept (h : Inv aal len s) {c : AllocControl} {leaf : Bool} {blk : Nat}
    (hrun : clearKept aal leaf s.c blk = some c) : Inv aal len ⟨c, s.tree, s.data⟩ := by
  obtain ⟨⟨twig, leaf', rfl⟩, htwig, hleaf, hkept⟩ := clearKept_spec h.twig h.leaf hrun
  exact ⟨h.alloc, h.alloc_total, h.tree, fun i hi => h.kept i (hkept i hi).1, h.data, htwig, hleaf,
    h.used⟩

/-- Behind `repair_sem_prepare` of build mode the used blocks are the occupied ones, or they stay
    occupied. -/
theorem Inv.semantic (h : Inv aal len s) {c : AllocControl} (hbuild : s.c.mode = .build)
    (hdata : ∀ i, ¬s.data i) (hrun : repairSemPrepare s.c = some c) :
    Inv aal len ⟨c, s.tree, s.data⟩ := by
  unfold repairSemPrepare at hrun
  obtain ⟨twig, -, hrun⟩ := Option.bind_eq_some_iff.mp hrun
  obtain ⟨used, hu, hrun⟩ := Option.bind_eq_some_iff.mp hrun
  dsimp only at hrun
  rw [hbuild] at hrun
  obtain ⟨leaf, -, hrun⟩ := Option.bind_eq_some_iff.mp hrun
  cases hrun
  rcases h.used with ⟨used1, -, hu1, huwf, hut, -, htree⟩ | ⟨-, hno⟩
  · obtain rfl : used = used1 := Option.some.inj (hu.symm.trans hu1)
    have hnone : ∀ {P : Nat → Prop} i, (bmHas aal none i ∨ bmHas aal none i) → P i := by
      rintro P i (⟨b, hb, -⟩ | ⟨b, hb, -⟩) <;> cases hb
    by_cases hsys : used.marked ≠ s.c.sysblk
    · have ht := h.alloc_total.trans hut.symm
      have hhas := @assign_has aal _ _ huwf.sized ht
      have hcount : (alloc40Assign s.c.fs.alloc used).bitmap.WF aal := by
        refine ⟨h.alloc.sized, ?_⟩
        show used.marked = _
        rw [huwf.marked]
        unfold Bitmap.count
        rw [funext hhas, show (alloc40Assign s.c.fs.alloc used).bitmap.total = _ from ht]
      rw [if_pos hsys]
      exact ⟨hcount, h.alloc_total, fun i hi => (hhas i).trans (htree i hi), hnone,
        fun i hi => absurd hi (hdata i), nofun, nofun, Or.inr ⟨rfl, rfl⟩⟩
    · rw [if_neg hsys]
      exact ⟨h.alloc, h.alloc_total, h.tree, hnone, fun i hi => absurd hi (hdata i), nofun, nofun,
        Or.inr ⟨rfl, rfl⟩⟩
  · rw [hu] at hno
    cases hno

/-- **Every change of the tree keeps the invariant.** -/
theorem Step.inv (hf : aal.FindsZero) (h : Inv aal len s) (hstep : Step aal s s') :
    Inv aal len s' := by
  cases hstep with
  | allocate run => exact h.allocate hf run
  | release own run =>
    exact h.release run (fun i hi => hi) (fun i hi hin => (own i hin.1 hin.2).2.1 hi)
      fun i hi hin => (own i hin.1 hin.2).2.2 hi
  | @attach leaf blk c kept run =>
    unfold amAttached at run
    obtain ⟨c1, hclear, run⟩ := Option.bind_eq_some_iff.mp run
    obtain ⟨used, hu, run⟩ := Option.bind_eq_some_iff.mp run
    obtain ⟨used', hmark, run⟩ := Option.bind_eq_some_iff.mp run
    cases run
    have h1 := h.dropKept hclear
    have hocc : s.c.fs.alloc.bitmap.has aal blk = true := by
      refine h.kept blk ?_
      cases leaf with
      | true => exact Or.inr kept
      | false => exact Or.inl kept
    have halloc : c1.fs = s.c.fs := by
      obtain ⟨⟨_, _, rfl⟩, -⟩ := clearKept_spec h.twig h.leaf hclear
      rfl
    have h2 := h1.use hu (fun i hi1 hi2 => by
      obtain rfl : i = blk := by omega
      show c1.fs.alloc.bitmap.has aal i = true
      rw [halloc]
      exact hocc) hmark
    have htree : (fun i => s.tree i ∨ (blk ≤ i ∧ i < blk + 1)) = fun i => s.tree i ∨ i = blk := by
      funext i
      rw [show (blk ≤ i ∧ i < blk + 1) ↔ i = blk by omega]
    exact htree ▸ h2
  | @drop leaf blk c kept one own run =>
    unfold amDropped at run
    obtain ⟨c1, hclear, run⟩ := Option.bind_eq_some_iff.mp run
    have hspec := (clearKept_spec h.twig h.leaf hclear).2.2.2
    have hone : ∀ {i}, (blk ≤ i ∧ i < blk + 1) → i = blk := by omega
    exact (h.dropKept hclear).release run
      (fun i hi => ⟨hi, fun hin => own.1 (hone hin ▸ hi)⟩)
      (fun i hi hin => one ((hspec i hi).2 (hone hin)))
      fun i hi hin => own.2 (hone hin ▸ hi)
  | extent start_pos own run =>
    unfold cbItemMarkRegion at run
    rw [if_neg start_pos] at run
    obtain ⟨used, hu, run⟩ := Option.bind_eq_some_iff.mp run
    obtain ⟨used', hmark, run⟩ := Option.bind_eq_some_iff.mp run
    cases run
    exact h.use hu (fun i h1 h2 => h.data i (own i h1 h2)) hmark
  | forget sub =>
    exact ⟨h.alloc, h.alloc_total, h.tree, h.kept, fun i hi => h.data i (sub i hi), h.twig, h.leaf,
      h.used⟩
  | semantic build none_kept none_data run => exact h.semantic build none_data run

/-- So does every run of changes. -/
theorem run_inv (hf : aal.FindsZero) (h : Inv aal len s)
    (hrun : Relation.ReflTransGen (Step aal) s s') : Inv aal len s' := by
  induction hrun with
  | refl => exact h
  | tail _ hstep ih => exact hstep.inv hf ih

/-- The invariant makes the allocator safe. -/
theorem Inv.safe (hf : aal.FindsZero) (h : Inv aal len s) : Safe aal s := by
  refine ⟨?_, h.alloc.marked, ?_⟩
  · rintro i ⟨used, hu, hi⟩
    rcases h.used with ⟨used1, -, hu1, -, -, hocc, -⟩ | ⟨-, hno⟩
    · obtain rfl : used = used1 := Option.some.inj (hu.symm.trans hu1)
      exact hocc i hi
    · rw [hu] at hno
      cases hno
  · intro count start blocks c hrun i h1 h2
    have hfree := (allocate_spec hf h.alloc hrun).2.2.2.2.1 i ⟨h1, h2⟩
    have hno : ¬s.c.fs.alloc.bitmap.has aal i = true := by simp [hfree]
    exact ⟨fun ht => hno (h.tree i ht), fun hk => hno (h.kept i hk), fun hd => hno (h.data i hd)⟩

end Invariant

/-! ## The preparations -/

section Prepare

variable {aal : AalBits} {len : Nat} {s : State}

theorem Fits.size_eq {b b' : Bitmap} (h : Fits len b) (h' : Fits len b') : b.size = b'.size := by
  rw [h.sized.1, h'.sized.1, h.total_eq, h'.total_eq]

/-- A bitmap without the blocks of another one. -/
theorem clearBytes_spec {b b' m : Bitmap} (h : Fits len b) (h' : Fits len b') (hm : Fits len m) :
    ∃ b1, clearBytes m.size b b' = some b1 ∧ Fits len b1 ∧
      ∀ i, b1.has aal i = true → b.has aal i = true := by
  refine ⟨_, if_pos ⟨(hm.size_eq h).le, (hm.size_eq h').le⟩, ⟨h.sized, h.total_eq⟩, fun i hi => ?_⟩
  have hlt := Bitmap.has_lt hi
  change i < b.total at hlt
  have hbyte : i / 8 < m.size := hm.size_eq h ▸ h.sized.room hlt
  have htest := aal.test_and_not b.map b'.map i
  change (decide (i < b.total) && _) = true at hi
  show (decide (i < b.total) && _) = true
  unfold BitOrder.test at htest hi ⊢
  dsimp only at hi htest
  rw [if_pos hbyte, htest] at hi
  simp only [Bool.and_eq_true] at hi ⊢
  exact ⟨hi.1, hi.2.1⟩

/-- A bitmap with the blocks of another one. -/
theorem orBytes_spec {b b' : Bitmap} (h : Fits len b) (h' : Fits len b') :
    ∃ b1, orBytes b'.size b b' = some b1 ∧ Fits len b1 ∧ b1.marked = b.marked ∧
      ∀ i, b1.has aal i = (b.has aal i || b'.has aal i) := by
  refine ⟨_, if_pos ⟨(h'.size_eq h).le, le_refl _⟩, ⟨h.sized, h.total_eq⟩, rfl, fun i => ?_⟩
  show (decide (i < b.total) && _) = (decide (i < b.total) && _ || decide (i < b'.total) && _)
  rw [h.total_eq, h'.total_eq, ← Bool.and_or_distrib_left, ← aal.test_or b.map b'.map i]
  by_cases hi : i < len
  · have hbyte : i / 8 < b'.size := h'.sized.room (h'.total_eq ▸ hi)
    unfold BitOrder.test
    dsimp only
    rw [if_pos hbyte]
  · rw [decide_eq_false hi, Bool.false_and, Bool.false_and]

/-- The copy of the allocator's bitmap that `repair_sem_prepare` adds the used blocks to. -/
theorem extract_clone_spec {a : Alloc} (h : Fits len a.bitmap) :
    Fits len (reiser4BitmapClone (alloc40Extract a (reiser4BitmapCreate len))) ∧
      ∀ i, (reiser4BitmapClone (alloc40Extract a (reiser4BitmapCreate len))).has aal i =
        a.bitmap.has aal i := by
  have hsize : (reiser4BitmapCreate len).size = a.bitmap.size := by
    have h1 := h.sized.1
    have h2 := h.sized.2
    have h3 := h.sized.total_lt
    rw [h.total_eq] at h1 h3
    show u32 (u64 (len + 7) / 8) = _
    unfold u32 u64
    rw [Nat.mod_eq_of_lt (a := len + 7) (by omega), ← h1, Nat.mod_eq_of_lt h2]
  have hextract : (alloc40Extract a (reiser4BitmapCreate len)).Sized := by
    refine ⟨?_, ?_⟩
    · show (reiser4BitmapCreate len).size = (len + 7) / 8
      rw [hsize, h.sized.1, h.total_eq]
    · show (reiser4BitmapCreate len).size < two32
      rw [hsize]
      exact h.sized.2
  obtain ⟨hsized, -, hmap⟩ := clone_spec hextract
  refine ⟨⟨hsized, rfl⟩, fun i => ?_⟩
  show (decide (i < len) && _) = (decide (i < a.bitmap.total) && _)
  rw [h.total_eq]
  by_cases hi : i < len
  · have hroom : i / 8 < (reiser4BitmapCreate len).size := by
      rw [hsize]
      exact h.sized.room (h.total_eq ▸ hi)
    have hcopy := Bytes.copy_in (reiser4BitmapCreate len).map 0 a.bitmap.map 0
      (reiser4BitmapCreate len).size (i / 8) (Nat.zero_le _) (by omega)
    unfold BitOrder.test
    rw [hmap (i / 8) hroom, show (alloc40Extract a (reiser4BitmapCreate len)).map (i / 8) = _ from hcopy]
    rfl
  · rw [decide_eq_false hi, Bool.false_and, Bool.false_and]

/-- **Build mode**: the met blocks become the occupied ones, unless only the format was met. -/
theorem amPrepare_spec (h : Left aal s) (hb : s.c.mode = .build) :
    ∃ c, repairAmPrepare aal s.c = some c ∧
      (Trusted aal s.c → Inv aal s.c.fs.len ⟨c, s.tree, s.data⟩) ∧
      (¬Trusted aal s.c → ¬Safe aal ⟨c, s.tree, s.data⟩) := by
  obtain ⟨used, hused, huwf, hufits, hsys, htree⟩ := h.used
  obtain ⟨met, twig, leaf, hmet, htwig, hleaf, hmfits, htfits, hlfits, hsub⟩ := h.build hb
  obtain ⟨twig1, ht1, htfits1, hts⟩ := @clearBytes_spec aal _ _ _ _ htfits hufits hmfits
  obtain ⟨leaf1, hl1, hlfits1, hls⟩ := @clearBytes_spec aal _ _ _ _ hlfits hufits hmfits
  obtain ⟨met', hmet'⟩ : ∃ met', met' = { met with marked := met.count aal } := ⟨_, rfl⟩
  obtain ⟨fs, hfs⟩ : ∃ fs, fs = if met'.marked ≠ s.c.sysblk then
      { s.c.fs with alloc := alloc40Assign s.c.fs.alloc met', free := met'.total - met'.marked }
    else s.c.fs := ⟨_, rfl⟩
  obtain ⟨c, hc⟩ : ∃ c : AllocControl, c = { s.c with
      fs
      bmTwig := some { twig1 with marked := twig1.count aal }
      bmLeaf := some { leaf1 with marked := leaf1.count aal }
      bmMet := none } := ⟨_, rfl⟩
  have hrun : repairAmPrepare aal s.c = some c := by
    unfold repairAmPrepare
    simp only [hused, hmet, htwig, hleaf, ht1, hl1, calcMarked_spec hmfits.sized,
      calcMarked_spec htfits1.sized, calcMarked_spec hlfits1.sized, Option.bind_eq_bind,
      Option.bind_some, ← hmet', ← hfs]
    rw [hc, ← hused]
  have husub : ∀ i, used.has aal i = true → met.has aal i = true :=
    fun i hi => hsub i (Or.inl ⟨used, hused, hi⟩)
  have hkept : ∀ i, c.kept aal i → met.has aal i = true := by
    rintro i (⟨b, hbt, hi⟩ | ⟨b, hbl, hi⟩)
    · rw [hc] at hbt
      cases hbt
      exact hsub i (Or.inr (Or.inl ⟨twig, htwig, hts i hi⟩))
    · rw [hc] at hbl
      cases hbl
      exact hsub i (Or.inr (Or.inr (Or.inl ⟨leaf, hleaf, hls i hi⟩)))
  have hdata : ∀ i, s.data i → met.has aal i = true :=
    fun i hi => hsub i (Or.inr (Or.inr (Or.inr hi)))
  -- What is left to show: the allocator's bitmap is right and has all blocks that were met.
  have hinv : fs.alloc.bitmap.WF aal → fs.alloc.bitmap.total = s.c.fs.len →
      (∀ i, met.has aal i = true → fs.alloc.bitmap.has aal i = true) →
      Inv aal s.c.fs.len ⟨c, s.tree, s.data⟩ := by
    intro hwf htotal hocc
    rw [hc] at hkept ⊢
    refine ⟨hwf, htotal, fun i hi => hocc i (husub i (htree i hi)), fun i hi => hocc i (hkept i hi),
      fun i hi => hocc i (hdata i hi), fun b hbt => ?_, fun b hbl => ?_,
      Or.inl ⟨used, h.hook, hused, huwf, hufits.total_eq, fun i hi => hocc i (husub i hi), htree⟩⟩
    · cases hbt
      exact ⟨htfits1.sized, htfits1.total_eq⟩
    · cases hbl
      exact ⟨hlfits1.sized, hlfits1.total_eq⟩
  refine ⟨c, hrun, fun htrust => ?_, fun htrust hsafe => htrust ?_⟩
  · by_cases hne : met'.marked ≠ s.c.sysblk
    · rw [if_pos hne] at hfs
      have hms : met'.Sized := hmet' ▸ hmfits.sized
      have ht : s.c.fs.alloc.bitmap.total = met'.total := by
        rw [h.alloc_fits.total_eq, hmet']
        exact hmfits.total_eq.symm
      have hhas : ∀ i, fs.alloc.bitmap.has aal i = met.has aal i := by
        intro i
        rw [hfs, show met.has aal i = met'.has aal i by rw [hmet']; rfl]
        exact assign_has hms ht i
      have htotal : fs.alloc.bitmap.total = s.c.fs.len := by
        rw [hfs]
        exact h.alloc_fits.total_eq
      refine hinv ⟨?_, ?_⟩ htotal fun i hi => (hhas i).trans hi
      · rw [hfs]
        exact h.alloc.sized
      · have hmarked : fs.alloc.bitmap.marked = met.count aal := by
          rw [hfs, show met.count aal = met'.marked by rw [hmet']]
          rfl
        rw [hmarked]
        unfold Bitmap.count
        rw [funext hhas, htotal, hmfits.total_eq]
    · -- Only the format was met, so what was met is used.
      rw [if_neg hne] at hfs
      have hcount : met.count aal = s.c.sysblk := by
        rw [hmet'] at hne
        exact not_not.mp hne
      have hocc : ∀ i, bmHas aal s.c.bmUsed i → s.c.fs.alloc.bitmap.has aal i = true := by
        rcases htrust with ⟨-, m, hm, hno⟩ | hall
        · rw [hmet] at hm
          cases hm
          exact absurd hcount hno
        · exact hall
      have hback : ∀ i, met.has aal i = true → used.has aal i = true := fun i hi =>
        Bitmap.has_of_count_le (hmfits.total_eq.trans hufits.total_eq.symm) husub
          (by rw [hcount, ← huwf.marked]; exact hsys) hi
      rw [hfs] at hinv
      exact hinv h.alloc h.alloc_fits.total_eq fun i hi => hocc i ⟨used, hused, hback i hi⟩
  · -- Nothing has been assigned.
    by_cases hne : met.count aal ≠ s.c.sysblk
    · exact Or.inl ⟨hb, met, hmet, hne⟩
    · rw [if_neg (by rw [hmet']; exact hne)] at hfs
      have hocc := hsafe.used_occupied
      rw [hc, hfs] at hocc
      exact Or.inr hocc

/-- **Fix mode**: the used blocks are added to the occupied ones, but not to their number. -/
theorem semPrepare_spec (h : Left aal s) (hm : s.c.mode = .fix) :
    ∃ c, repairSemPrepare s.c = some c ∧
      (Trusted aal s.c → Inv aal s.c.fs.len ⟨c, s.tree, s.data⟩) ∧
      (¬Trusted aal s.c → ¬Safe aal ⟨c, s.tree, s.data⟩) := by
  obtain ⟨used, hused, huwf, hufits, -, htree⟩ := h.used
  obtain ⟨hsome, hleaf, hdata⟩ := h.fix hm
  obtain ⟨twig, htwig⟩ := Option.isSome_iff_exists.mp hsome
  obtain ⟨bmAlloc, hbm⟩ : ∃ b, b = alloc40Extract s.c.fs.alloc (reiser4BitmapCreate s.c.fs.len) :=
    ⟨_, rfl⟩
  obtain ⟨hcfits, hchas⟩ := @extract_clone_spec aal _ _ h.alloc_fits
  rw [← hbm] at hcfits hchas
  obtain ⟨temp, htemp, htfits, hmarked, hthas⟩ := @orBytes_spec aal _ _ _ hcfits hufits
  have hmarked' : temp.marked = s.c.fs.alloc.bitmap.marked := by
    rw [hmarked, hbm]
    rfl
  obtain ⟨a, ha⟩ : ∃ a, a = alloc40Assign s.c.fs.alloc temp := ⟨_, rfl⟩
  have hhas : ∀ i, a.bitmap.has aal i = (s.c.fs.alloc.bitmap.has aal i || used.has aal i) := by
    intro i
    rw [ha, assign_has htfits.sized (h.alloc_fits.total_eq.trans htfits.total_eq.symm) i, hthas i,
      hchas i]
  have htotal : a.bitmap.total = s.c.fs.alloc.bitmap.total := by
    rw [ha]
    rfl
  have hrun : repairSemPrepare s.c = some { s.c with
      bmTwig := none, bmAlloc := some bmAlloc, fs := { s.c.fs with alloc := a } } := by
    unfold repairSemPrepare
    simp only [hused, htwig, hm, htemp, Option.bind_eq_bind, Option.bind_some, ← hbm, ← ha]
  have hocc : ∀ i, used.has aal i = true → a.bitmap.has aal i = true := by
    intro i hi
    rw [hhas i, hi, Bool.or_true]
  refine ⟨_, hrun, fun htrust => ?_, fun htrust hsafe => htrust (Or.inr ?_)⟩
  · have hsub : ∀ i, used.has aal i = true → s.c.fs.alloc.bitmap.has aal i = true := by
      intro i hi
      rcases htrust with ⟨hbuild, -⟩ | hall
      · rw [hm] at hbuild
        cases hbuild
      · exact hall i ⟨used, hused, hi⟩
    have hsame : ∀ i, a.bitmap.has aal i = s.c.fs.alloc.bitmap.has aal i := by
      intro i
      rw [hhas i]
      cases hi : used.has aal i with
      | false => rw [Bool.or_false]
      | true => rw [hsub i hi, Bool.or_true]
    have hwf : a.bitmap.WF aal := by
      refine ⟨by rw [ha]; exact h.alloc.sized, ?_⟩
      have hkeep : a.bitmap.marked = s.c.fs.alloc.bitmap.marked := by
        rw [ha, ← hmarked']
        rfl
      rw [hkeep, h.alloc.marked]
      unfold Bitmap.count
      rw [funext hsame, htotal]
    refine ⟨hwf, htotal.trans h.alloc_fits.total_eq, fun i hi => hocc i (htree i hi), ?_,
      fun i hi => absurd hi (hdata i), nofun, fun b hb => ?_,
      Or.inl ⟨used, h.hook, hused, huwf, hufits.total_eq, hocc, htree⟩⟩
    · rintro i (⟨b, hb, -⟩ | ⟨b, hb, -⟩)
      · cases hb
      · rw [show (_ : Option Bitmap) = none from hleaf] at hb
        cases hb
    · rw [show (_ : Option Bitmap) = none from hleaf] at hb
      cases hb
  · rintro i ⟨used1, hu1, hi⟩
    obtain rfl : used = used1 := Option.some.inj (hused.symm.trans hu1)
    have hcount : a.bitmap.count aal = s.c.fs.alloc.bitmap.count aal := by
      have hcounted : a.bitmap.marked = a.bitmap.count aal := hsafe.counted
      rw [← hcounted, ← h.alloc.marked, ← hmarked', ha]
      rfl
    exact Bitmap.has_of_count_le htotal (fun j hj => by rw [hhas j, hj, Bool.true_or]) hcount.le
      (hocc i hi)

/-- **The allocator is safe in every state of every run if and only if** it had all used blocks when
    it was opened, or in build mode a block behind those of the format was met. -/
theorem repairAllocator_iff (aal : AalBits) (hf : aal.FindsZero) (s : State) (h : Left aal s)
    (hmode : s.c.mode ≠ .check) :
    (∃ c, prepare aal s.c = some c ∧
      ∀ s', Relation.ReflTransGen (Step aal) ⟨c, s.tree, s.data⟩ s' → Safe aal s') ↔
      Trusted aal s.c := by
  have hspec : ∃ c, prepare aal s.c = some c ∧
      (Trusted aal s.c → Inv aal s.c.fs.len ⟨c, s.tree, s.data⟩) ∧
      (¬Trusted aal s.c → ¬Safe aal ⟨c, s.tree, s.data⟩) := by
    unfold prepare
    cases hm : s.c.mode with
    | check => exact absurd hm hmode
    | fix => exact semPrepare_spec h hm
    | build => exact amPrepare_spec h hm
  obtain ⟨c, hrun, hyes, hno⟩ := hspec
  constructor
  · rintro ⟨c', hrun', hall⟩
    obtain rfl : c = c' := Option.some.inj (hrun.symm.trans hrun')
    by_contra htrust
    exact hno htrust (hall _ .refl)
  · intro htrust
    exact ⟨c, hrun, fun s' hs' => (run_inv hf (hyes htrust) hs').safe hf⟩

/-! ## A file system of 32 blocks -/

/-- The first `n` of 32 blocks. -/
def sampleBitmap (n : Nat) : Bitmap where
  marked := n
  total := 32
  size := 4
  map := ofBits fun i => decide (i < n)

theorem sampleBitmap_has (n i : Nat) :
    (sampleBitmap n).has AalBits.plain i = (decide (i < 32) && decide (i < n)) := by
  show (decide (i < 32) && BitOrder.plain.test (ofBits fun i => decide (i < n)) i) = _
  rw [test_ofBits]

theorem sampleBitmap_fits (n : Nat) : Fits 32 (sampleBitmap n) := by
  have hsize : 4 = (32 + 7) / 8 ∧ 4 < two32 := by decide
  exact ⟨hsize, rfl⟩

theorem sampleBitmap_wf {n : Nat} (h : n ≤ 32) : (sampleBitmap n).WF AalBits.plain := by
  refine ⟨(sampleBitmap_fits n).sized, ?_⟩
  have hcount : ∀ n < 33, n = (List.range 32).countP fun i => decide (i < 32) && decide (i < n) := by
    decide
  show n = (List.range 32).countP _
  rw [funext (sampleBitmap_has n)]
  exact hcount n (by omega)

/-- A file system in fix mode: 25 blocks of the format, and behind them the root of the tree; the first
    `disk` blocks are marked on the device. -/
def sampleState (disk : Nat) : State where
  c := {
    mode := .fix
    fs := ⟨4096, 32, 6, ⟨0, 4096, fun _ => none, sampleBitmap disk, fun _ => 0⟩, true⟩
    bmUsed := some (sampleBitmap 26)
    bmTwig := some (sampleBitmap 0)
    bmLeaf := none
    bmMet := none
    bmAlloc := none
    sysblk := 25
    hook := true }
  tree := fun i => i = 25
  data := fun _ => False

theorem sampleState_left {disk : Nat} (h : disk ≤ 32) : Left AalBits.plain (sampleState disk) := by
  have hsys : 25 ≤ 26 := by decide
  refine ⟨sampleBitmap_wf h, sampleBitmap_fits disk, rfl, ⟨sampleBitmap 26, rfl,
    sampleBitmap_wf (by decide), sampleBitmap_fits 26, hsys, ?_⟩, nofun,
    fun _ => ⟨rfl, rfl, fun _ h => h⟩⟩
  rintro i rfl
  rw [sampleBitmap_has]
  rfl

/-- With the root marked on the device the allocator is safe. -/
theorem repairAllocator_marked : ∃ c, prepare AalBits.plain (sampleState 26).c = some c ∧
    ∀ s', Relation.ReflTransGen (Step AalBits.plain)
      ⟨c, (sampleState 26).tree, (sampleState 26).data⟩ s' → Safe AalBits.plain s' :=
  (repairAllocator_iff AalBits.plain AalBits.plain_findsZero (sampleState 26)
    (sampleState_left (by decide)) nofun).mpr (Or.inr fun _ ⟨_, hb, hi⟩ => by cases hb; exact hi)

/-- With the root not marked on the device its block is occupied but not counted. -/
theorem repairAllocator_unmarked : Left AalBits.plain (sampleState 25) ∧
    ¬∃ c, prepare AalBits.plain (sampleState 25).c = some c ∧
      ∀ s', Relation.ReflTransGen (Step AalBits.plain)
        ⟨c, (sampleState 25).tree, (sampleState 25).data⟩ s' → Safe AalBits.plain s' := by
  have hleft := @sampleState_left 25 (by decide)
  refine ⟨hleft, ?_⟩
  rintro ⟨c, hrun, hall⟩
  obtain ⟨c', hrun', -, hno⟩ := semPrepare_spec hleft rfl
  obtain rfl : c' = c := Option.some.inj (hrun'.symm.trans hrun)
  refine hno ?_ (hall _ .refl)
  rintro (⟨hbuild, -⟩ | hocc)
  · cases hbuild
  · have h25 := hocc 25 ⟨sampleBitmap 26, rfl, by rw [sampleBitmap_has]; rfl⟩
    change (sampleBitmap 25).has AalBits.plain 25 = true at h25
    rw [sampleBitmap_has] at h25
    cases h25

end Prepare

end Reiser4.Repair
