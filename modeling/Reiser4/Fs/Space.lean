/-
  The accounting of space: the free count of the super block beside the bitmap of the allocator.

  A new node gets a fake number, and one block is taken from the free count at once; a block is looked
  for only when the tree is flushed (`cb_node_adjust`).  The blocks of a new extent are paid for in the
  same way and never looked for.  A node or an extent that goes gives its blocks back to the count,
  and to the allocator those that were real.

  `Books` is the ledger of who has what.  `Accounted` says that the bitmap has exactly the blocks of
  the owners, each once, and that the free count is what the bitmap leaves less what is paid for and
  has no block yet.

    1. `Accounted.used`, `Accounted.room`   what follows of the counters;
    2. one lemma a call: it ends, and keeps the account;
    3. `space_run`   so does every run of calls, and no flush is ever out of space.
-/
import Mathlib.Logic.Relation
import Reiser4.Fs.Areas
import Reiser4.Tree.Cache
import Reiser4.Extent40.Remove

namespace Reiser4

/-- `aal_find_zero_bits`, asked from the first bit on, finds something when there is something. -/
def AalBits.FindsAny (aal : AalBits) : Prop :=
  ∀ m total n, 0 < n → (∃ i < total, aal.test m i = false) → 0 < (aal.findZeroBits m total 0 n).2

theorem AalBits.plain_findsAny : AalBits.plain.FindsAny := by
  rintro m total n hn ⟨i, hi, hfree⟩
  obtain ⟨z, hz⟩ : ∃ z, firstBit (fun j => !BitOrder.plain.test m j) total 0 = z := ⟨_, rfl⟩
  obtain ⟨e, he⟩ : ∃ e, firstBit (BitOrder.plain.test m) total z = e := ⟨_, rfl⟩
  have hfind : AalBits.plain.findZeroBits m total 0 n = (z, min n (e - z)) := by
    rw [← he, ← hz]
    rfl
  have hzt : z < total := by
    by_contra hge
    have hbefore := firstBit_before (p := fun j => !BitOrder.plain.test m j) (Nat.zero_le i) hi
      (by rw [hz]; omega)
    have htest : BitOrder.plain.test m i = false := hfree
    rw [htest] at hbefore
    exact absurd hbefore (by decide)
  have hzero : BitOrder.plain.test m z = false := by
    have := (firstBit_at (p := fun j => !BitOrder.plain.test m j) (s := 0) (hz ▸ hzt)).2
    rw [hz] at this
    simpa using this
  have hze : z < e := by
    rcases Nat.lt_or_ge e total with hlt | hge
    · obtain ⟨hle, hset⟩ := firstBit_at (p := BitOrder.plain.test m) (he ▸ hlt)
      rw [he] at hle hset
      refine Nat.lt_of_le_of_ne hle fun heq => ?_
      rw [← heq, hzero] at hset
      cases hset
    · omega
  rw [hfind]
  show 0 < min n (e - z)
  omega

end Reiser4

namespace Reiser4.Fs

open Reiser4.Lib Reiser4.Alloc40

/-! ## The calls -/

/-- `REISER4_FAKE_BLOCKNR_VAL`. -/
def reiser4FakeBlocknrVal : Nat := 0xf000000000000000

/-- A file system that is worked on, and `fake_gen`. -/
structure Session where
  fs : Fs
  fakeGen : Nat

/-- A routine of the file system leaves the generator alone. -/
def onFs {α : Type} (x : Run Fs Errno α) : Run Session Errno α :=
  ⟨fun s => (x.run s.fs).map fun r => (r.1, { s with fs := r.2 })⟩

/-- `reiser4_fake_get`. -/
def reiser4FakeGet : Run Session Errno Nat := do
  let s ← Run.get
  Run.modify fun s => { s with fakeGen := u64 (s.fakeGen + 1) }
  pure (u64 (s.fakeGen + 1) ||| reiser4FakeBlocknrVal)

/-- `reiser4_format_inc_free`. -/
def reiser4FormatIncFree (count : Nat) : Run Fs Errno Unit :=
  if count = 0 then pure ()
  else Run.modify fun fs => { fs with free := u64 (fs.free + count) }

section Calls

variable (aal : AalBits)

/-- `reiser4_alloc_allocate`, without a hook: the start, and the number of blocks. -/
def reiser4AllocAllocate (count : Nat) : Run Fs Errno (Nat × Nat) := do
  let fs ← Run.get
  let r ← Run.lift (alloc40Allocate aal fs.alloc 0 count)
  Run.modify fun fs => { fs with alloc := r.2.2 }
  pure (r.1, r.2.1)

/-- `reiser4_alloc_release`, without a hook. -/
def reiser4AllocRelease (start count : Nat) : Run Fs Errno Unit := do
  let fs ← Run.get
  let a ← Run.lift (alloc40Release aal fs.alloc start count)
  Run.modify fun fs => { fs with alloc := a }

/-- `reiser4_tree_alloc_node`: the number of the node.  The node itself is not made here. -/
def reiser4TreeAllocNode : Run Session Errno Nat := do
  let blk ← reiser4FakeGet
  onFs (reiser4FormatDecFree 1)
  pure blk

/-- `reiser4_tree_release_node`, of the node with this number. -/
def reiser4TreeReleaseNode (nr : Nat) : Run Fs Errno Unit := do
  if reiser4FakeAck nr then pure () else reiser4AllocRelease aal nr 1
  reiser4FormatIncFree 1

/-- The number `cb_node_adjust` gives a node. -/
def cbNodeAdjustNr (nr : Nat) : Run Fs Errno Nat :=
  if reiser4FakeAck nr then do
    let r ← reiser4AllocAllocate aal 1
    if r.2 = 0 then Run.fail .enospc else pure r.1
  else pure nr

/-- A call that asks for blocks or gives them back. -/
inductive Call
  | allocNode
  | adjustNode (nr : Nat)
  | releaseNode (nr : Nat)
  /-- `extent40_alloc_block`. -/
  | allocBlocks (count : Nat)
  /-- `extent40_remove_units`, of one unit. -/
  | removeUnit (e : ExtentUnit)
  | mark (start width : Nat)

/-- The call; those without a result give 0. -/
def Call.run : Call → Run Session Errno Nat
  | .allocNode => reiser4TreeAllocNode
  | .adjustNode nr => onFs (cbNodeAdjustNr aal nr)
  | .releaseNode nr => onFs do
    reiser4TreeReleaseNode aal nr
    pure 0
  | .allocBlocks count => onFs do
    reiser4FormatDecFree count
    pure 0
  | .removeUnit e => onFs do
    removeRegion reiser4FormatIncFree (reiser4AllocRelease aal) e
    pure 0
  | .mark start width => onFs do
    cbActionMark aal start width
    pure 0

end Calls

/-! ## The ledger -/

/-- Who has blocks. -/
structure Books where
  /-- The numbers of the nodes, fake or real. -/
  nodes : List Nat
  /-- The regions of the extents, and those that were marked for other use. -/
  regions : List (Nat × Nat)
  /-- The blocks of extents that are not allocated. -/
  pending : Nat

/-- The blocks with an owner. -/
def Books.owned (b : Books) : List Nat :=
  b.nodes.filter (fun nr => !reiser4FakeAck nr) ++ blocksOf b.regions

/-- The nodes without a block. -/
def Books.fakes (b : Books) : Nat := b.nodes.countP reiser4FakeAck

/-- The ledger without the unit of an extent. -/
def Books.withoutUnit (b : Books) (e : ExtentUnit) : Books :=
  if e.start = extentHoleUnit then b
  else if e.start = extentUnallocUnit then { b with pending := b.pending - e.width }
  else { b with regions := b.regions.erase (e.start, e.width) }

/-- The entry a call makes. -/
def Call.book (b : Books) : Call → Except Errno Nat → Books
  | _, .error _ => b
  | .allocNode, .ok nr => { b with nodes := nr :: b.nodes }
  | .adjustNode nr, .ok new => { b with nodes := new :: b.nodes.erase nr }
  | .releaseNode nr, .ok _ => { b with nodes := b.nodes.erase nr }
  | .allocBlocks count, .ok _ => { b with pending := b.pending + count }
  | .removeUnit e, .ok _ => b.withoutUnit e
  | .mark start width, .ok _ => { b with regions := (start, width) :: b.regions }

/-- The caller has what it gives back, and marks what nobody has.  Numbers of extents fit the 32 bits
    through which they are given back. -/
def Call.Owned (aal : AalBits) (s : Session) (b : Books) : Call → Prop
  | .allocNode => True
  | .adjustNode nr => nr ∈ b.nodes
  | .releaseNode nr => nr ∈ b.nodes
  | .allocBlocks _ => True
  | .removeUnit e => e.start < two32 ∧ e.width < two32 ∧
      (e.start ≠ extentHoleUnit → if e.start = extentUnallocUnit then e.width ≤ b.pending
        else 0 < e.width ∧ (e.start, e.width) ∈ b.regions)
  | .mark start width => 0 < width ∧ start + width ≤ s.fs.alloc.bitmap.total ∧
      ∀ i, start ≤ i → i < start + width → s.fs.alloc.bitmap.has aal i = false

/-- One call of an owner. -/
inductive Step (aal : AalBits) : Session × Books → Session × Books → Prop
  | call {s s' : Session} {b : Books} {r : Except Errno Nat} (c : Call) (hown : c.Owned aal s b)
      (hrun : (c.run aal).run s = some (r, s')) : Step aal (s, b) (s', c.book b r)

/-- **The account is right**; `base` are the blocks no call is about. -/
structure Accounted (aal : AalBits) (base : List Nat) (s : Session) (b : Books) : Prop where
  bitmap : s.fs.alloc.bitmap.WF aal
  distinct : (base ++ b.owned).Nodup
  marked : ∀ i, s.fs.alloc.bitmap.has aal i = true ↔ i ∈ base ++ b.owned
  free : s.fs.free + (base ++ b.owned).length + b.fakes + b.pending = s.fs.alloc.bitmap.total

namespace Accounted

variable {aal : AalBits} {base : List Nat} {s : Session} {b : Books}

/-- What the allocator counts. -/
theorem used (h : Accounted aal base s b) :
    alloc40Used s.fs.alloc = (base ++ b.owned).length := by
  show s.fs.alloc.bitmap.marked = _
  rw [h.bitmap.marked]
  unfold Bitmap.count
  rw [List.countP_eq_length_filter]
  apply List.Perm.length_eq
  rw [List.perm_ext_iff_of_nodup (List.nodup_range.filter _) h.distinct]
  intro i
  rw [List.mem_filter, List.mem_range, ← h.marked]
  exact ⟨fun hi => hi.2, fun hi => ⟨Bitmap.has_lt hi, hi⟩⟩

/-- What is paid for fits in what the bitmap leaves. -/
theorem room (h : Accounted aal base s b) :
    s.fs.free + b.fakes + b.pending = alloc40Free s.fs.alloc := by
  have hused : s.fs.alloc.bitmap.marked = _ := h.used
  have hfree := h.free
  unfold alloc40Free reiser4BitmapCleared
  omega

/-- A block that is not marked. -/
theorem exists_free (h : Accounted aal base s b) (hpos : 0 < b.fakes) :
    ∃ i < s.fs.alloc.bitmap.total, s.fs.alloc.bitmap.has aal i = false := by
  by_contra hnone
  have hall : ∀ i < s.fs.alloc.bitmap.total, s.fs.alloc.bitmap.has aal i = true := by
    intro i hi
    by_contra hi'
    exact hnone ⟨i, hi, by simpa using hi'⟩
  have hle : s.fs.alloc.bitmap.total ≤ (base ++ b.owned).length := by
    have hsub : List.range s.fs.alloc.bitmap.total ⊆ base ++ b.owned := fun i hi =>
      (h.marked i).mp (hall i (List.mem_range.mp hi))
    have := (List.nodup_range.subperm hsub).length_le
    rwa [List.length_range] at this
  have := h.free
  omega

/-! ## How an account changes -/

variable {s' : Session} {b' : Books}

/-- Only the counters change. -/
theorem recount (h : Accounted aal base s b) (halloc : s'.fs.alloc = s.fs.alloc)
    (howned : b'.owned.Perm b.owned)
    (hfree : s'.fs.free + b'.fakes + b'.pending = s.fs.free + b.fakes + b.pending) :
    Accounted aal base s' b' := by
  have hperm : (base ++ b'.owned).Perm (base ++ b.owned) := howned.append_left base
  refine ⟨halloc ▸ h.bitmap, hperm.nodup_iff.mpr h.distinct, fun i => ?_, ?_⟩
  · rw [halloc, h.marked, hperm.mem_iff]
  · have := h.free
    rw [halloc, hperm.length_eq]
    omega

/-- Free blocks get an owner. -/
theorem take (h : Accounted aal base s b) {xs : List Nat} (hwf : s'.fs.alloc.bitmap.WF aal)
    (htotal : s'.fs.alloc.bitmap.total = s.fs.alloc.bitmap.total) (hxs : xs.Nodup)
    (hwas : ∀ i ∈ xs, s.fs.alloc.bitmap.has aal i = false)
    (hhas : ∀ i, s'.fs.alloc.bitmap.has aal i = (decide (i ∈ xs) || s.fs.alloc.bitmap.has aal i))
    (howned : b'.owned.Perm (xs ++ b.owned))
    (hfree : s'.fs.free + xs.length + b'.fakes + b'.pending =
      s.fs.free + b.fakes + b.pending) : Accounted aal base s' b' := by
  have hperm : (base ++ b'.owned).Perm (xs ++ (base ++ b.owned)) :=
    (howned.append_left base).trans (by
      rw [← List.append_assoc, ← List.append_assoc]
      exact List.perm_append_comm.append_right _)
  refine ⟨hwf, hperm.nodup_iff.mpr (List.nodup_append.mpr ⟨hxs, h.distinct, ?_⟩), fun i => ?_, ?_⟩
  · rintro i hi _ hj rfl
    have := (h.marked i).mpr hj
    rw [hwas i hi] at this
    cases this
  · rw [hhas i, Bool.or_eq_true, decide_eq_true_eq, h.marked, hperm.mem_iff]
    exact List.mem_append.symm
  · have := h.free
    rw [htotal, hperm.length_eq, List.length_append]
    omega

/-- Blocks lose their owner. -/
theorem give (h : Accounted aal base s b) {xs : List Nat} (hwf : s'.fs.alloc.bitmap.WF aal)
    (htotal : s'.fs.alloc.bitmap.total = s.fs.alloc.bitmap.total)
    (hhas : ∀ i, s'.fs.alloc.bitmap.has aal i = (!decide (i ∈ xs) && s.fs.alloc.bitmap.has aal i))
    (howned : b.owned.Perm (xs ++ b'.owned))
    (hfree : s'.fs.free + b'.fakes + b'.pending =
      s.fs.free + xs.length + b.fakes + b.pending) : Accounted aal base s' b' := by
  have hperm : (base ++ b.owned).Perm (xs ++ (base ++ b'.owned)) :=
    (howned.append_left base).trans (by
      rw [← List.append_assoc, ← List.append_assoc]
      exact List.perm_append_comm.append_right _)
  obtain ⟨-, hdistinct, hapart⟩ := List.nodup_append.mp (hperm.nodup_iff.mp h.distinct)
  refine ⟨hwf, hdistinct, fun i => ?_, ?_⟩
  · rw [hhas i, Bool.and_eq_true, Bool.not_eq_true', decide_eq_false_iff_not, h.marked,
      hperm.mem_iff, List.mem_append]
    constructor
    · rintro ⟨hout, hin⟩
      exact hin.resolve_left hout
    · exact fun hin => ⟨fun hi => hapart i hi i hin rfl, Or.inr hin⟩
  · have := h.free
    rw [hperm.length_eq, List.length_append] at this
    rw [htotal]
    omega

end Accounted

/-! ## The calls, one by one -/

section Specs

variable {aal : AalBits} {base : List Nat} {s : Session} {b : Books}

theorem onFs_run {α : Type} {x : Run Fs Errno α} {r : Except Errno α} {fs : Fs}
    (h : x.run s.fs = some (r, fs)) : (onFs x).run s = some (r, { s with fs }) := by
  show (x.run s.fs).map _ = _
  rw [h]
  rfl

/-- A number of the generator is fake. -/
theorem reiser4FakeAck_fake (n : Nat) : reiser4FakeAck (n ||| reiser4FakeBlocknrVal) = true := by
  have hmask : reiser4FakeBlocknrMask = 2 ^ 63 := by decide
  have hval : Nat.testBit reiser4FakeBlocknrVal 63 = true := by decide
  unfold reiser4FakeAck
  rw [hmask, Nat.and_two_pow, Nat.testBit_or, hval, Bool.or_true]
  decide

/-- `reiser4_format_dec_free` takes the blocks, or refuses and changes nothing. -/
theorem decFree_ok {fs : Fs} {count : Nat} (h : count ≤ fs.free) :
    (reiser4FormatDecFree count).run fs =
      some (.ok (), { fs with free := fs.free - count }) := by
  unfold reiser4FormatDecFree
  split
  · next hzero =>
    rw [hzero]
    rfl
  · rw [Run.get_bind, if_neg (Nat.not_lt.mpr h)]
    rfl

theorem decFree_refuses {fs : Fs} {count : Nat} (h : fs.free < count) :
    (reiser4FormatDecFree count).run fs = some (.error .enospc, fs) := by
  unfold reiser4FormatDecFree
  rw [if_neg (by omega), Run.get_bind, if_pos h]
  rfl

/-- `reiser4_format_inc_free`, where the count does not wrap. -/
theorem incFree_run (fs : Fs) {count : Nat} (h : fs.free + count < 18446744073709551616) :
    (reiser4FormatIncFree count).run fs =
      some (.ok (), { fs with free := fs.free + count }) := by
  unfold reiser4FormatIncFree
  split
  · next hzero =>
    rw [hzero]
    rfl
  · rw [Run.run_modify, u64, Nat.mod_eq_of_lt h]

/-- Blocks given back to the free count do not wrap it. -/
theorem Accounted.free_fits (h : Accounted aal base s b) {n : Nat}
    (hn : n ≤ (base ++ b.owned).length + b.fakes + b.pending) :
    s.fs.free + n < 18446744073709551616 := by
  have h1 := h.free
  have h2 := h.bitmap.sized.total_lt
  omega

/-- The blocks of the nodes of a list with one more. -/
theorem owned_cons (nr : Nat) (nodes : List Nat) (regions : List (Nat × Nat)) (pending : Nat) :
    (Books.mk (nr :: nodes) regions pending).owned =
      if reiser4FakeAck nr then (Books.mk nodes regions pending).owned
      else nr :: (Books.mk nodes regions pending).owned := by
  unfold Books.owned
  rw [List.filter_cons]
  cases reiser4FakeAck nr <;> rfl

theorem fakes_cons (nr : Nat) (nodes : List Nat) (regions : List (Nat × Nat)) (pending : Nat) :
    (Books.mk (nr :: nodes) regions pending).fakes =
      (Books.mk nodes regions pending).fakes + if reiser4FakeAck nr then 1 else 0 := by
  unfold Books.fakes
  rw [List.countP_cons]

/-- A node of the ledger, put in front. -/
theorem owned_erase {nr : Nat} (h : nr ∈ b.nodes) :
    b.owned.Perm (Books.mk (nr :: b.nodes.erase nr) b.regions b.pending).owned ∧
      b.fakes = (Books.mk (nr :: b.nodes.erase nr) b.regions b.pending).fakes := by
  have hperm := List.perm_cons_erase h
  exact ⟨(hperm.filter _).append_right _, hperm.countP_eq _⟩

/-- A region of the ledger, put in front. -/
theorem owned_region {r : Nat × Nat} (h : r ∈ b.regions) :
    b.owned.Perm (List.range' r.1 r.2 ++
      (Books.mk b.nodes (b.regions.erase r) b.pending).owned) := by
  have hperm : (blocksOf b.regions).Perm (blocksOf (r :: b.regions.erase r)) :=
    (List.perm_cons_erase h).flatMap_right _
  unfold Books.owned
  refine (hperm.append_left _).trans ?_
  show (_ ++ (List.range' r.1 r.2 ++ blocksOf (b.regions.erase r))).Perm _
  rw [← List.append_assoc, ← List.append_assoc]
  exact List.perm_append_comm.append_right _

/-- A region of the bitmap can be cleared. -/
theorem release_spec (h : s.fs.alloc.bitmap.WF aal) {start count : Nat} (hc : 0 < count)
    (hin : start + count ≤ s.fs.alloc.bitmap.total) : ∃ a,
      (reiser4AllocRelease aal start count).run s.fs = some (.ok (), { s.fs with alloc := a }) ∧
      a.bitmap.WF aal ∧ a.bitmap.total = s.fs.alloc.bitmap.total ∧ ∀ i, a.bitmap.has aal i =
        (!decide (i ∈ List.range' start count) && s.fs.alloc.bitmap.has aal i) := by
  obtain ⟨hbound, hholds⟩ := (bounded_iff h.sized hc).mpr hin
  obtain ⟨b, hb⟩ : ∃ b, reiser4BitmapClearRegion aal s.fs.alloc.bitmap start count = some b := by
    unfold reiser4BitmapClearRegion
    rw [if_pos hbound, calc_spec h.sized hin]
    exact ⟨_, if_pos hholds⟩
  obtain ⟨hwf, htotal, hhas⟩ := clearRegion_spec h hb
  refine ⟨{ s.fs.alloc with bitmap := b }.mkdirty, ?_, hwf, htotal, fun i => ?_⟩
  · unfold reiser4AllocRelease alloc40Release
    rw [Run.get_bind, hb]
    rfl
  · show b.has aal i = _
    rw [hhas i, Bitmap.regionHas, decide_eq_true hin, Bool.true_and]
    simp only [List.mem_range'_1]

/-- One block, where there is one. -/
theorem allocate_spec (hf : aal.FindsZero) (hany : aal.FindsAny) (h : s.fs.alloc.bitmap.WF aal)
    (hfree : ∃ i < s.fs.alloc.bitmap.total, s.fs.alloc.bitmap.has aal i = false) : ∃ blk a,
      (reiser4AllocAllocate aal 1).run s.fs = some (.ok (blk, 1), { s.fs with alloc := a }) ∧
      a.bitmap.WF aal ∧ a.bitmap.total = s.fs.alloc.bitmap.total ∧
      s.fs.alloc.bitmap.has aal blk = false ∧
      ∀ i, a.bitmap.has aal i = (decide (i ∈ [blk]) || s.fs.alloc.bitmap.has aal i) := by
  obtain ⟨i, hi, hclear⟩ := hfree
  rw [Bitmap.has_of_lt hi] at hclear
  have hpos := hany s.fs.alloc.bitmap.map s.fs.alloc.bitmap.total 1 Nat.one_pos ⟨i, hi, hclear⟩
  obtain ⟨hle, hin, -⟩ := hf s.fs.alloc.bitmap.map s.fs.alloc.bitmap.total 0 1
  obtain ⟨blk, n, hfind⟩ : ∃ blk n, aal.findZeroBits s.fs.alloc.bitmap.map
      s.fs.alloc.bitmap.total 0 1 = (blk, n) := ⟨_, _, rfl⟩
  rw [hfind] at hpos hle hin
  obtain rfl : n = 1 := by
    dsimp only at hpos hle
    omega
  obtain ⟨hbound, hholds⟩ := (bounded_iff h.sized Nat.one_pos).mpr hin
  obtain ⟨b, hb⟩ : ∃ b, reiser4BitmapMarkRegion aal s.fs.alloc.bitmap blk 1 = some b := by
    unfold reiser4BitmapMarkRegion
    rw [if_pos hbound, calc_spec h.sized hin]
    exact ⟨_, if_pos hholds⟩
  have hrun : alloc40Allocate aal s.fs.alloc 0 1 =
      some (blk, 1, { s.fs.alloc with bitmap := b }.mkdirty) := by
    unfold alloc40Allocate
    rw [hfind]
    dsimp only
    rw [if_pos Nat.one_pos, hb]
    rfl
  obtain ⟨-, -, hwf, htotal, hwas, hhas⟩ := alloc40Allocate_spec hf h hrun
  refine ⟨blk, _, ?_, hwf, htotal, hwas blk (le_refl _) (Nat.lt_succ_self _), fun i => ?_⟩
  · unfold reiser4AllocAllocate
    rw [Run.get_bind, hrun]
    rfl
  · rw [hhas i]
    congr 1
    rw [decide_eq_decide, List.mem_singleton]
    omega

/-- A node is made, or the file system is full. -/
theorem allocNode_spec (h : Accounted aal base s b) : ∃ r s', reiser4TreeAllocNode.run s =
    some (r, s') ∧ Accounted aal base s' (Call.allocNode.book b r) := by
  obtain ⟨gen, hgen⟩ : ∃ gen, gen = u64 (s.fakeGen + 1) := ⟨_, rfl⟩
  have hget : reiser4FakeGet.run s =
      some (.ok (gen ||| reiser4FakeBlocknrVal), { s with fakeGen := gen }) := by
    rw [hgen]
    rfl
  unfold reiser4TreeAllocNode
  rw [Run.bind_of_ok hget]
  rcases Nat.lt_or_ge s.fs.free 1 with hfull | hroom
  · rw [Run.run_bind, onFs_run (s := { s with fakeGen := gen }) (decFree_refuses hfull)]
    exact ⟨_, _, rfl, h.recount rfl (List.Perm.refl _) rfl⟩
  · rw [Run.run_bind, onFs_run (s := { s with fakeGen := gen }) (decFree_ok hroom)]
    have hfake := reiser4FakeAck_fake gen
    refine ⟨_, _, rfl, h.recount rfl ?_ ?_⟩
    · show (Books.mk (_ :: b.nodes) b.regions b.pending).owned.Perm b.owned
      rw [owned_cons, if_pos hfake]
    · show s.fs.free - 1 + (Books.mk (_ :: b.nodes) b.regions b.pending).fakes + b.pending = _
      rw [fakes_cons, if_pos hfake]
      show s.fs.free - 1 + (b.fakes + 1) + b.pending = _
      omega

/-- A node that is flushed gets a block of its own: there is always one. -/
theorem adjustNode_spec (hf : aal.FindsZero) (hany : aal.FindsAny) (h : Accounted aal base s b)
    {nr : Nat} (hnr : nr ∈ b.nodes) : ∃ new s', (onFs (cbNodeAdjustNr aal nr)).run s =
      some (.ok new, s') ∧ reiser4FakeAck new = false ∧
      Accounted aal base s' ((Call.adjustNode nr).book b (.ok new)) := by
  obtain ⟨howned, hfakes⟩ := owned_erase hnr
  by_cases hfake : reiser4FakeAck nr = true
  · rw [owned_cons, if_pos hfake] at howned
    rw [fakes_cons, if_pos hfake] at hfakes
    obtain ⟨blk, a, hrun, hwf, htotal, hwas, hhas⟩ :=
      allocate_spec hf hany h.bitmap (h.exists_free (by omega))
    have hreal : reiser4FakeAck blk = false := by
      have h1 : blk < a.bitmap.total := @Bitmap.has_lt aal _ _ (by rw [hhas blk]; simp)
      have h2 := hwf.sized.total_lt
      exact reiser4FakeAck_of_lt (by omega)
    have hcall : (cbNodeAdjustNr aal nr).run s.fs = some (.ok blk, { s.fs with alloc := a }) := by
      unfold cbNodeAdjustNr
      rw [if_pos hfake, Run.bind_of_ok hrun]
      rfl
    refine ⟨blk, _, onFs_run hcall, hreal,
      @Accounted.take _ _ _ _ _ _ h [blk] hwf htotal (List.nodup_singleton _) ?_ hhas ?_ ?_⟩
    · intro i hi
      rw [List.mem_singleton.mp hi]
      exact hwas
    · show (Books.mk (blk :: b.nodes.erase nr) b.regions b.pending).owned.Perm _
      rw [owned_cons, if_neg (by simp [hreal])]
      exact (howned.symm.cons blk)
    · show s.fs.free + 1 + (Books.mk (blk :: b.nodes.erase nr) b.regions b.pending).fakes +
        b.pending = _
      rw [fakes_cons, if_neg (by simp [hreal])]
      omega
  · have hcall : (cbNodeAdjustNr aal nr).run s.fs = some (.ok nr, s.fs) := by
      unfold cbNodeAdjustNr
      rw [if_neg hfake]
      rfl
    refine ⟨nr, _, onFs_run hcall, by simpa using hfake, h.recount rfl howned.symm ?_⟩
    show s.fs.free + (Books.mk (nr :: b.nodes.erase nr) b.regions b.pending).fakes +
      b.pending = _
    rw [← hfakes]

/-- A node that goes gives back what it has. -/
theorem releaseNode_spec (h : Accounted aal base s b) {nr : Nat} (hnr : nr ∈ b.nodes) :
    ∃ s', (onFs (do reiser4TreeReleaseNode aal nr; pure 0)).run s = some (.ok 0, s') ∧
      Accounted aal base s' ((Call.releaseNode nr).book b (.ok 0)) := by
  obtain ⟨howned, hfakes⟩ := owned_erase hnr
  by_cases hfake : reiser4FakeAck nr = true
  · rw [owned_cons, if_pos hfake] at howned
    rw [fakes_cons, if_pos hfake] at hfakes
    have hinc := @incFree_run s.fs 1 (h.free_fits (by omega))
    have hcall : (reiser4TreeReleaseNode aal nr).run s.fs =
        some (.ok (), { s.fs with free := s.fs.free + 1 }) := by
      unfold reiser4TreeReleaseNode
      rw [if_pos hfake]
      exact hinc
    refine ⟨_, onFs_run (Run.bind_of_ok hcall), h.recount rfl howned.symm ?_⟩
    show s.fs.free + 1 + (Books.mk (b.nodes.erase nr) b.regions b.pending).fakes + b.pending = _
    omega
  · rw [owned_cons, if_neg hfake] at howned
    rw [fakes_cons, if_neg hfake] at hfakes
    have hin : nr ∈ b.owned := howned.mem_iff.mpr (List.mem_cons_self ..)
    have hlt : nr < s.fs.alloc.bitmap.total :=
      Bitmap.has_lt ((h.marked nr).mpr (List.mem_append_right _ hin))
    obtain ⟨a, hrun, hwf, htotal, hhas⟩ := release_spec h.bitmap Nat.one_pos hlt
    have hlen : b.owned.length = _ := howned.length_eq
    rw [List.length_cons] at hlen
    have hinc := @incFree_run { s.fs with alloc := a } 1
      (h.free_fits (by rw [List.length_append]; omega))
    have hcall : (reiser4TreeReleaseNode aal nr).run s.fs =
        some (.ok (), { s.fs with alloc := a, free := s.fs.free + 1 }) := by
      unfold reiser4TreeReleaseNode
      rw [if_neg hfake]
      exact (Run.bind_of_ok hrun).trans hinc
    refine ⟨_, onFs_run (Run.bind_of_ok hcall),
      @Accounted.give _ _ _ _ _ _ h [nr] hwf htotal hhas howned ?_⟩
    show s.fs.free + 1 + (Books.mk (b.nodes.erase nr) b.regions b.pending).fakes + b.pending =
      s.fs.free + 1 + _ + _
    omega

/-- The blocks of an extent are paid for, or the file system is full. -/
theorem allocBlocks_spec (h : Accounted aal base s b) (count : Nat) : ∃ r s',
    (onFs (do reiser4FormatDecFree count; pure 0)).run s = some (r, s') ∧
      Accounted aal base s' ((Call.allocBlocks count).book b r) := by
  rcases Nat.lt_or_ge s.fs.free count with hfull | hroom
  · have hcall : (do reiser4FormatDecFree count; pure 0 : Run Fs Errno Nat).run s.fs =
        some (.error .enospc, s.fs) := by
      rw [Run.run_bind, decFree_refuses hfull]
    exact ⟨_, _, onFs_run hcall, h.recount rfl (List.Perm.refl _) rfl⟩
  · refine ⟨_, _, onFs_run (Run.bind_of_ok (decFree_ok hroom)),
      h.recount rfl (List.Perm.refl _) ?_⟩
    show s.fs.free - count + b.fakes + (b.pending + count) = _
    omega

/-- A unit that goes gives back what it has. -/
theorem removeUnit_spec (h : Accounted aal base s b) {e : ExtentUnit}
    (hown : (Call.removeUnit e).Owned aal s b) : ∃ s',
    (onFs (do removeRegion reiser4FormatIncFree (reiser4AllocRelease aal) e; pure 0)).run s =
      some (.ok 0, s') ∧ Accounted aal base s' ((Call.removeUnit e).book b (.ok 0)) := by
  obtain ⟨hstart, hwidth, hhas⟩ := hown
  have hregion : removeRegion reiser4FormatIncFree (reiser4AllocRelease aal) e =
      if e.start = extentHoleUnit then pure ()
      else if e.start = extentUnallocUnit then reiser4FormatIncFree e.width
      else reiser4FormatIncFree e.width >>= fun _ =>
        reiser4AllocRelease aal e.start e.width := by
    unfold removeRegion
    rw [u32_of_lt hstart, u32_of_lt hwidth]
  rw [hregion]
  show ∃ s', _ ∧ Accounted aal base s' (b.withoutUnit e)
  unfold Books.withoutUnit
  by_cases hhole : e.start = extentHoleUnit
  · rw [if_pos hhole, if_pos hhole]
    exact ⟨s, onFs_run rfl, h⟩
  · have hthis := hhas hhole
    rw [if_neg hhole, if_neg hhole]
    by_cases hunalloc : e.start = extentUnallocUnit
    · rw [if_pos hunalloc] at hthis ⊢
      rw [if_pos hunalloc]
      have hinc := incFree_run s.fs (h.free_fits (n := e.width) (by omega))
      refine ⟨_, onFs_run (Run.bind_of_ok hinc), h.recount rfl (List.Perm.refl _) ?_⟩
      show s.fs.free + e.width + b.fakes + (b.pending - e.width) = _
      omega
    · rw [if_neg hunalloc] at hthis ⊢
      rw [if_neg hunalloc]
      obtain ⟨hpos, hmem⟩ := hthis
      have howned := owned_region hmem
      have hlen := howned.length_eq
      rw [List.length_append, List.length_range'] at hlen
      have hinc := incFree_run s.fs (h.free_fits (n := e.width) (by
        rw [List.length_append]
        omega))
      -- The last block of the region is marked, so the region lies in the bitmap.
      have hin : e.start + e.width ≤ s.fs.alloc.bitmap.total := by
        have hlast : e.start + e.width - 1 ∈ b.owned := howned.mem_iff.mpr
          (List.mem_append_left _ (List.mem_range'_1.mpr (by dsimp only; omega)))
        have := Bitmap.has_lt ((h.marked _).mpr (List.mem_append_right base hlast))
        omega
      obtain ⟨a, hrun, hwf, htotal, hhas'⟩ := release_spec
        (s := { s with fs := { s.fs with free := s.fs.free + e.width } }) h.bitmap hpos hin
      have hcall := (Run.bind_of_ok hinc (f := fun _ =>
        reiser4AllocRelease aal e.start e.width)).trans hrun
      refine ⟨_, onFs_run (Run.bind_of_ok hcall),
        @Accounted.give _ _ _ _ _ _ h (List.range' e.start e.width) hwf htotal hhas' howned ?_⟩
      rw [List.length_range']
      rfl

/-- Free blocks are marked, or the file system is full. -/
theorem mark_spec (h : Accounted aal base s b) {start width : Nat}
    (hown : (Call.mark start width).Owned aal s b) : ∃ r s',
    (onFs (do cbActionMark aal start width; pure 0)).run s = some (r, s') ∧
      Accounted aal base s' ((Call.mark start width).book b r) := by
  obtain ⟨hpos, hin, hwas⟩ := hown
  rcases Nat.lt_or_ge s.fs.free width with hfull | hroom
  · have hcall : (do cbActionMark aal start width; pure 0 : Run Fs Errno Nat).run s.fs =
        some (.error .enospc, s.fs) := by
      unfold cbActionMark
      rw [Run.bind_assoc_run, Run.run_bind, decFree_refuses hfull]
    exact ⟨_, _, onFs_run hcall, h.recount rfl (List.Perm.refl _) rfl⟩
  · have hwf : s.fs.alloc.WF aal s.fs.alloc.blksize s.fs.alloc.bitmap.total s.fs.alloc.device :=
      ⟨rfl, rfl, rfl, h.bitmap⟩
    obtain ⟨a, hocc, hwf', hhas⟩ := occupy_spec hwf hpos (Or.inl hin)
    have hcall : (cbActionMark aal start width).run s.fs =
        some (.ok (), { s.fs with free := s.fs.free - width, alloc := a }) := by
      unfold cbActionMark
      rw [Run.bind_of_ok (decFree_ok hroom), Run.get_bind]
      dsimp only
      rw [hocc]
      rfl
    refine ⟨_, _, onFs_run (Run.bind_of_ok hcall),
      @Accounted.take _ _ _ _ _ _ h (List.range' start width) hwf'.bitmap hwf'.total
        List.nodup_range' ?_ ?_ ?_ ?_⟩
    · intro i hi
      have := List.mem_range'_1.mp hi
      exact hwas i this.1 this.2
    · intro i
      by_cases hi : i < s.fs.alloc.bitmap.total
      · show a.bitmap.has aal i = _
        rw [hhas i hi]
        simp only [List.mem_range'_1]
      · have hout : i ∉ List.range' start width := by
          rw [List.mem_range'_1]
          omega
        have hold : s.fs.alloc.bitmap.has aal i = false := by simp [Bitmap.has, hi]
        have hnew : a.bitmap.has aal i = false := by simp [Bitmap.has, hwf'.total, hi]
        show a.bitmap.has aal i = _
        rw [decide_eq_false hout, hold, hnew]
        rfl
    · show (b.nodes.filter _ ++ (List.range' start width ++ blocksOf b.regions)).Perm
        (List.range' start width ++ (b.nodes.filter _ ++ blocksOf b.regions))
      rw [← List.append_assoc, ← List.append_assoc]
      exact List.perm_append_comm.append_right _
    · show s.fs.free - width + (List.range' start width).length + b.fakes + b.pending = _
      rw [List.length_range']
      omega

/-! ## Runs -/

/-- Every call of an owner ends, and keeps the account. -/
theorem call_spec (hf : aal.FindsZero) (hany : aal.FindsAny) (h : Accounted aal base s b) (c : Call)
    (hown : c.Owned aal s b) :
    ∃ r s', (c.run aal).run s = some (r, s') ∧ Accounted aal base s' (c.book b r) := by
  cases c with
  | allocNode => exact allocNode_spec h
  | adjustNode nr =>
    obtain ⟨new, s', hrun, -, hacc⟩ := adjustNode_spec hf hany h hown
    exact ⟨_, s', hrun, hacc⟩
  | releaseNode nr =>
    obtain ⟨s', hrun, hacc⟩ := releaseNode_spec h hown
    exact ⟨_, s', hrun, hacc⟩
  | allocBlocks count => exact allocBlocks_spec h count
  | removeUnit e =>
    obtain ⟨s', hrun, hacc⟩ := removeUnit_spec h hown
    exact ⟨_, s', hrun, hacc⟩
  | mark start width => exact mark_spec h hown

theorem step_accounted (hf : aal.FindsZero) (hany : aal.FindsAny) {st st' : Session × Books}
    (h : Accounted aal base st.1 st.2) (hstep : Step aal st st') :
    Accounted aal base st'.1 st'.2 := by
  obtain ⟨c, hown, hrun⟩ := hstep
  obtain ⟨r, s', hrun', hacc⟩ := call_spec hf hany h c hown
  rw [hrun] at hrun'
  cases hrun'
  exact hacc

theorem run_accounted (hf : aal.FindsZero) (hany : aal.FindsAny) {st st' : Session × Books}
    (h : Accounted aal base st.1 st.2) (hrun : Relation.ReflTransGen (Step aal) st st') :
    Accounted aal base st'.1 st'.2 := by
  induction hrun with
  | refl => exact h
  | tail _ hstep ih => exact step_accounted hf hany ih hstep

/-! ## From the creation on -/

/-- The blocks that are marked. -/
def occupied (aal : AalBits) (fs : Fs) : List Nat :=
  (List.range fs.alloc.bitmap.total).filter (fs.alloc.bitmap.has aal)

/-- A file system whose free count is that of its allocator, before anyone asks for a block. -/
theorem accounted_start {fs : Fs} (hwf : fs.alloc.bitmap.WF aal)
    (hfree : fs.free = alloc40Free fs.alloc) (gen : Nat) :
    Accounted aal (fs.occupied aal) ⟨fs, gen⟩ ⟨[], [], 0⟩ := by
  have howned : (Books.mk [] [] 0).owned = [] := rfl
  refine ⟨hwf, ?_, fun i => ?_, ?_⟩
  · rw [howned, List.append_nil]
    exact List.nodup_range.filter _
  · rw [howned, List.append_nil]
    unfold occupied
    rw [List.mem_filter, List.mem_range]
    exact ⟨fun hi => ⟨Bitmap.has_lt hi, hi⟩, fun hi => hi.2⟩
  · have hlen : (fs.occupied aal).length = fs.alloc.bitmap.marked := by
      rw [hwf.marked]
      exact (List.countP_eq_length_filter ..).symm
    have hle : fs.alloc.bitmap.marked ≤ fs.alloc.bitmap.total := by
      rw [hwf.marked]
      exact List.countP_le_length.trans (Nat.le_of_eq List.length_range)
    show fs.free + (fs.occupied aal ++ (Books.mk [] [] 0).owned).length + 0 + 0 = _
    rw [howned, List.append_nil, hlen, hfree]
    show fs.alloc.bitmap.total - fs.alloc.bitmap.marked + _ + 0 + 0 = fs.alloc.bitmap.total
    omega

/-- **Space is accounted for, and a flush finds its blocks.**  Whatever calls follow the creation of a
    file system, each of them ends; the bitmap has the areas of the file system and the blocks of the
    owners, each once, and the free count is what the bitmap leaves less what is paid for and has
    no block.  So every node that is flushed gets a block. -/
theorem space_run (hf : aal.FindsZero) (hany : aal.FindsAny) (device : Device)
    (blocks unit blksize len : Nat) (hb : cbBsCheck blksize = true)
    (hl : reiser4FormatCheckLen blocks unit blksize len = true) (hfits : (len + 7) / 8 < two32) :
    ∃ enough, ∀ fuel, enough ≤ fuel → ∃ fs fs',
      reiser4FsCreate aal fuel device blksize len = some (.ok fs) ∧
      (reiser4JournalCreate aal).run fs = some (.ok (), fs') ∧
      ∀ gen st, Relation.ReflTransGen (Step aal) (⟨fs', gen⟩, ⟨[], [], 0⟩) st →
        Accounted aal (fs'.occupied aal) st.1 st.2 ∧
        st.1.fs.free + st.2.fakes + st.2.pending = alloc40Free st.1.fs.alloc ∧
        (∀ c : Call, c.Owned aal st.1 st.2 → ∃ r s, (c.run aal).run st.1 = some (r, s)) ∧
        ∀ nr ∈ st.2.nodes, ∃ new s,
          ((Call.adjustNode nr).run aal).run st.1 = some (.ok new, s) ∧
          reiser4FakeAck new = false := by
  have h := accepted_of hb hl
  obtain ⟨enough, hareas⟩ := h.areas
  refine ⟨enough, fun fuel hfuel => ?_⟩
  obtain ⟨bitmaps, backups, hp, hlists⟩ := hareas fuel hfuel
  have hs : Shape blksize len ⟨blksize, len, 0, alloc40Create device blksize len, false⟩ :=
    ⟨rfl, rfl, rfl, rfl⟩
  obtain ⟨a, hcreate, hwf, hhas⟩ := @created aal _ _ _ _ _ _ h hfits
    (fsLayout_lists hs (hlists _ hs).1 (hlists _ hs).2)
  obtain ⟨a', hjournal, hwf', -⟩ := journal_created h hp hwf hhas
  refine ⟨_, _, hcreate, hjournal, fun gen st hrun => ?_⟩
  have hacc := run_accounted hf hany (accounted_start hwf'.bitmap rfl gen) hrun
  refine ⟨hacc, hacc.room, fun c hown => ?_, fun nr hnr => ?_⟩
  · obtain ⟨r, s, hcall, -⟩ := call_spec hf hany hacc c hown
    exact ⟨r, s, hcall⟩
  · obtain ⟨new, s, hcall, hreal, -⟩ := adjustNode_spec hf hany hacc hnr
    exact ⟨new, s, hcall, hreal⟩

/-- The space of a file system of 40000 blocks of 4 KiB. -/
theorem space_run_40000 : ∃ enough, ∀ fuel, enough ≤ fuel → ∃ fs fs',
    reiser4FsCreate AalBits.plain fuel (fun _ => none) 4096 40000 = some (.ok fs) ∧
    (reiser4JournalCreate AalBits.plain).run fs = some (.ok (), fs') ∧
    ∀ gen st, Relation.ReflTransGen (Step AalBits.plain) (⟨fs', gen⟩, ⟨[], [], 0⟩) st →
      Accounted AalBits.plain (fs'.occupied AalBits.plain) st.1 st.2 ∧
      st.1.fs.free + st.2.fakes + st.2.pending = alloc40Free st.1.fs.alloc ∧
      (∀ c : Call, c.Owned AalBits.plain st.1 st.2 →
        ∃ r s, (c.run AalBits.plain).run st.1 = some (r, s)) ∧
      ∀ nr ∈ st.2.nodes, ∃ new s,
        ((Call.adjustNode nr).run AalBits.plain).run st.1 = some (.ok new, s) ∧
        reiser4FakeAck new = false :=
  space_run AalBits.plain_findsZero AalBits.plain_findsAny (fun _ => none) 40000 4096 4096 40000
    (by decide) (by decide) (by decide)

end Specs

end Reiser4.Fs
