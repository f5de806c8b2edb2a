/-
  The check of the journal's structure (`journal40_check_struct` of `journal40_repair.c`).

  The check is a traverse with two callbacks.  `cb_journal_txh_check` sees the transaction headers, the
  newest first; `cb_journal_sec_check` then sees the log, wandered and original blocks, those of the
  oldest transaction first.  Both answer a violation with `-ESTRUCT`, which ends the traverse, and
  `cur_txh` then names the oldest problem transaction: the journal is cut in front of it.

  Which transaction that is can need other traverses, nested in the callback: one of the current
  transaction without callbacks, and one of the journal that looks for the place where a block was met
  before.

  The two bitmaps of the check have a bit for each block below the end of the area; an access outside a map
  is undefined (`none`).  `layout_func` is a parameter; it answers whether the callback it is given has
  returned non-zero for one of the regions of the format.
-/
import Reiser4.Journal40.Layout
import Reiser4.Journal40.Traverse

namespace Reiser4.Journal40

open Reiser4.Lib

/-- `layout_func_t` with its data: calls the function for regions of the format, given by start and
    width, and tells whether one of the calls (or the layout itself) returned non-zero. -/
abbrev LayoutFunc := (Nat → Nat → Bool) → Bool

/-- `TF_SAME_TXH_BREAK`. -/
def tfSameTxhBreak : Nat := 1
/-- `TF_DATA_AREA_ONLY`. -/
def tfDataAreaOnly : Nat := 2

/-- `journal40_check_t`, but for the layout function. -/
structure CheckData where
  journalLayout : Bitmap
  currentLayout : Bitmap
  curTxh : Nat
  wantedBlk : Nat
  foundType : BlockType
  flags : Nat

/-- `cb_check_format_block`. -/
def cbCheckFormatBlock (blk start width : Nat) : Bool :=
  decide (start ≤ blk ∧ blk < u64 (start + width))

/-- `journal40_blk_format_check`: is the block out of bounds, or of the format area when that is to be
    checked? -/
def journal40BlkFormatCheck (area : Area) (layoutFunc : LayoutFunc) (blk flags : Nat) : Bool :=
  if blk ≥ area.len ∨ blk < area.start then true
  else if flags.testBit tfDataAreaOnly = false then false
  else layoutFunc (cbCheckFormatBlock blk)

/-- `cb_find_txh_blk`. -/
def cbFindTxhBlk : TxhFunc CheckData := fun blk => do
  let s ← Run.get
  if s.data.wantedBlk = blk then do
    Run.modify fun s => { s with data := { s.data with foundType := .txh } }
    Run.fail .estruct
  else if s.data.curTxh = blk ∧ s.data.flags.testBit tfSameTxhBreak = true then do
    Run.modify fun s => { s with data := { s.data with foundType := .inv } }
    Run.fail .estruct
  else pure ()

/-- `cb_find_sec_blk`. -/
def cbFindSecBlk : SecFunc CheckData := fun txhBlock blk blkType => do
  let s ← Run.get
  if s.data.wantedBlk = blk then do
    Run.modify fun s => { s with
      data := { s.data with wantedBlk := txhBlock.nr, foundType := blkType } }
    Run.fail .estruct
  else pure ()

section Check

variable (aal : AalBits) (area : Area) (layoutFunc : LayoutFunc)

/-- `reiser4_bitmap_test` of one of the layouts. -/
def testLayout (layout : CheckData → Bitmap) (blk : Nat) : Run (JState CheckData) Errno Bool := do
  let s ← Run.get
  Run.lift (reiser4BitmapTest aal (layout s.data) blk)

/-- `reiser4_bitmap_mark` of the layout of the journal, -/
def markJournal (blk : Nat) : Run (JState CheckData) Errno Unit := do
  let s ← Run.get
  let journalLayout ← Run.lift (reiser4BitmapMark aal s.data.journalLayout blk)
  Run.modify fun s => { s with data := { s.data with journalLayout } }

/-- and of that of the current transaction. -/
def markCurrent (blk : Nat) : Run (JState CheckData) Errno Unit := do
  let s ← Run.get
  let currentLayout ← Run.lift (reiser4BitmapMark aal s.data.currentLayout blk)
  Run.modify fun s => { s with data := { s.data with currentLayout } }

/-- `cb_journal_txh_check`. -/
def cbJournalTxhCheck : TxhFunc CheckData := fun blk => do
  Run.modify fun s => { s with data := { s.data with flags := 1 <<< tfDataAreaOnly } }
  let s ← Run.get
  if journal40BlkFormatCheck area layoutFunc blk s.data.flags then Run.fail .estruct
  else do
    let met ← testLayout aal CheckData.journalLayout blk
    if met then Run.fail .estruct else markJournal aal blk

/-- The end of `cb_journal_sec_check`: the block is now met. -/
def markMet (blk : Nat) : Run (JState CheckData) Errno Unit := do
  markJournal aal blk
  markCurrent aal blk

/-- A log record that was met in another transaction.  If the current transaction closes, the problem
    is the oldest transaction with that block, else the current one. -/
def lgrConflict (fuel : Nat) (txhBlock : Block) (blk : Nat) : Run (JState CheckData) Errno Unit := do
  let res ← (journal40TraverseTrans fuel txhBlock none none).attempt
  match res with
  | .ok () => do
    Run.modify fun s => { s with data := { s.data with wantedBlk := blk } }
    let res ← (journal40Traverse fuel none none (some cbFindSecBlk)).attempt
    match res with
    | .error .estruct => do
      Run.modify fun s => { s with data := { s.data with curTxh := s.data.wantedBlk } }
      Run.fail .estruct
    | .error e => Run.fail e
    | .ok () => pure ()
  | .error .estruct => Run.fail .estruct
  | .error e => Run.fail e

/-- A wandered block that was met in another transaction.  The problem is the current transaction, or
    the oldest one with that block when it is a wandered or an original block there. -/
def wanConflict (fuel blk : Nat) : Run (JState CheckData) Errno Unit := do
  Run.modify fun s => { s with data := { s.data with wantedBlk := blk, flags := 0 } }
  let res ← (journal40Traverse fuel (some cbFindTxhBlk) none (some cbFindSecBlk)).attempt
  match res with
  | .error .estruct => do
    let s ← Run.get
    if s.data.foundType = .wan ∨ s.data.foundType = .org then
      Run.modify fun s => { s with data := { s.data with curTxh := s.data.wantedBlk } }
    Run.fail .estruct
  | .error e => Run.fail e
  | .ok () => pure ()

/-- An original location that was met in another transaction.  It may not be the header of the current
    or of a newer one. -/
def orgConflict (fuel blk : Nat) : Run (JState CheckData) Errno Unit := do
  Run.modify fun s => { s with
    data := { s.data with wantedBlk := blk, flags := 1 <<< tfSameTxhBreak } }
  let res ← (journal40Traverse fuel (some cbFindTxhBlk) none none).attempt
  match res with
  | .error .estruct => do
    let s ← Run.get
    if s.data.foundType ≠ .inv then Run.fail .estruct
    else markMet aal blk
  | .error e => Run.fail e
  | .ok () => pure ()

/-- The block was marked in the layout of the journal before. -/
def metBefore (fuel : Nat) (txhBlock : Block) (blk : Nat) (blkType : BlockType) :
    Run (JState CheckData) Errno Unit := do
  let met ← testLayout aal CheckData.currentLayout blk
  if met then Run.fail .estruct
  else match blkType with
    | .lgr => lgrConflict fuel txhBlock blk
    | .wan => wanConflict fuel blk
    | .org => orgConflict aal fuel blk
    | .inv | .txh => markMet aal blk

/-- A log record is read, and its magic checked. -/
def checkRecord (blk : Nat) (blkType : BlockType) : Run (JState CheckData) Errno Unit :=
  if blkType = .lgr then do
    let log ← loadBlock blk
    if log.data.memeq 0 lgrMagic then pure () else Run.fail .estruct
  else pure ()

/-- The block is looked up in the layout of the journal. -/
def checkLayout (fuel : Nat) (txhBlock : Block) (blk : Nat) (blkType : BlockType) :
    Run (JState CheckData) Errno Unit := do
  let met ← testLayout aal CheckData.journalLayout blk
  if met then metBefore aal fuel txhBlock blk blkType
  else markMet aal blk

/-- A new transaction starts with an empty layout of its own. -/
def startTrans (txhNr : Nat) : Run (JState CheckData) Errno Unit :=
  Run.modify fun s =>
    if s.data.curTxh ≠ txhNr then
      { s with data := { s.data with currentLayout := clearMap s.data.currentLayout, curTxh := txhNr } }
    else s

/-- `cb_journal_sec_check`. -/
def cbJournalSecCheck (fuel : Nat) : SecFunc CheckData := fun txhBlock blk blkType => do
  startTrans txhBlock.nr
  Run.modify fun s => { s with
    data := { s.data with flags := if blkType = .org then 0 else 1 <<< tfDataAreaOnly } }
  let s ← Run.get
  if journal40BlkFormatCheck area layoutFunc blk s.data.flags then Run.fail .estruct
  else do
    checkRecord blk blkType
    checkLayout aal fuel txhBlock blk blkType

/-- The data a check starts with. -/
def CheckData.initial : CheckData :=
  ⟨reiser4BitmapCreate area.len, reiser4BitmapCreate area.len, 0, 0, .inv, 0⟩

/-- `set_jh_last_commited` and `journal40_mkdirty`. -/
def cutJournal (j : Journal) (lastCommited : Nat) : Journal :=
  journal40Mkdirty { j with
    header := { j.header with data := setJhLastCommited j.header.data lastCommited } }

/-- What `journal40_check_struct` does with the answer of the traverse. -/
def checkEnd : Except Errno Unit → Run (JState CheckData) Errno Unit
  | .ok () => pure ()
  | .error .estruct => do
    let s ← Run.get
    if s.data.curTxh = 0 then
      Run.modify fun s => { s with
        journal := cutJournal s.journal (getJfLastFlushed s.journal.footer.data) }
    else do
      let tx ← loadBlock s.data.curTxh
      Run.modify fun s => { s with journal := cutJournal s.journal (getThPrevTx tx.data) }
  | .error e => Run.fail e

/-- The body of `journal40_check_struct`, over the data it allocates. -/
def checkBody (fuel : Nat) : Run (JState CheckData) Errno Unit := do
  let ret ← (journal40Traverse fuel (some (cbJournalTxhCheck aal area layoutFunc)) none
    (some (cbJournalSecCheck aal area layoutFunc fuel))).attempt
  checkEnd ret

/-- `journal40_check_struct`. -/
def journal40CheckStruct (fuel : Nat) : Run Journal Errno Unit :=
  ⟨fun j => ((checkBody aal area layoutFunc fuel).run { journal := j, data := CheckData.initial area }).map
    fun r => (r.1, r.2.journal)⟩

end Check

/-! ## Properties of the callbacks -/

section Closed

variable {aal : AalBits} {j : Journal} {area : Area} {layoutFunc : LayoutFunc} {fuel : Nat}

/-- The journal is the one the check was called for. -/
def Unchanged (j : Journal) (s : JState CheckData) : Prop := s.journal = j

/-- A property of runs that the steps of the callbacks have. -/
structure CheckClosed (aal : AalBits) (I : JState CheckData → Prop)
    (P : (α : Type) → Run (JState CheckData) Errno α → Prop) : Prop where
  closed : Run.Closed I P
  data : ∀ f : JState CheckData → JState CheckData, (∀ s, (f s).journal = s.journal ∧
    (f s).data.journalLayout = s.data.journalLayout ∧ (f s).data.currentLayout = s.data.currentLayout) →
    P Unit (Run.modify f)
  start : ∀ nr, P Unit (startTrans nr)
  testJournal : ∀ blk, P Bool (testLayout aal CheckData.journalLayout blk)
  testCurrent : ∀ blk, P Bool (testLayout aal CheckData.currentLayout blk)
  markJournal : ∀ blk, P Unit (markJournal aal blk)
  markCurrent : ∀ blk, P Unit (markCurrent aal blk)

variable {I : JState CheckData → Prop} {P : (α : Type) → Run (JState CheckData) Errno α → Prop}

theorem loadBlock_closed (hP : Run.Closed I P) (nr : Nat) : P Block (loadBlock nr) := by
  apply hP.bind hP.get
  intro s
  cases aalBlockLoad s.journal.device nr with
  | none => exact hP.fail _
  | some b => exact hP.ret b

theorem cbFindTxhBlk_closed (hP : CheckClosed aal I P) (nr : Nat) :
    P Unit (cbFindTxhBlk nr) := by
  apply hP.closed.bind hP.closed.get
  intro s
  split
  · exact hP.closed.bind (hP.data _ fun _ => ⟨rfl, rfl, rfl⟩) fun _ => hP.closed.fail _
  · split
    · exact hP.closed.bind (hP.data _ fun _ => ⟨rfl, rfl, rfl⟩) fun _ => hP.closed.fail _
    · exact hP.closed.ret ()

theorem cbFindSecBlk_closed (hP : CheckClosed aal I P) (tx : Block) (nr : Nat)
    (ty : BlockType) : P Unit (cbFindSecBlk tx nr ty) := by
  apply hP.closed.bind hP.closed.get
  intro s
  split
  · exact hP.closed.bind (hP.data _ fun _ => ⟨rfl, rfl, rfl⟩) fun _ => hP.closed.fail _
  · exact hP.closed.ret ()

theorem cbJournalTxhCheck_closed (hP : CheckClosed aal I P) (nr : Nat) :
    P Unit (cbJournalTxhCheck aal area layoutFunc nr) := by
  refine hP.closed.bind (hP.data _ fun _ => ⟨rfl, rfl, rfl⟩) fun _ => ?_
  apply hP.closed.bind hP.closed.get
  intro s
  split
  · exact hP.closed.fail _
  · apply hP.closed.bind (hP.testJournal nr)
    intro met
    split
    · exact hP.closed.fail _
    · exact hP.markJournal nr

theorem markMet_closed (hP : CheckClosed aal I P) (blk : Nat) : P Unit (markMet aal blk) :=
  hP.closed.bind (hP.markJournal blk) fun _ => hP.markCurrent blk

theorem checkRecord_closed (hP : CheckClosed aal I P) (blk : Nat) (ty : BlockType) :
    P Unit (checkRecord blk ty) := by
  unfold checkRecord
  split
  · apply hP.closed.bind (loadBlock_closed hP.closed blk)
    intro log
    split
    · exact hP.closed.ret ()
    · exact hP.closed.fail _
  · exact hP.closed.ret ()

/-- The nested traverses have the property. -/
structure NestedClosed (P : (α : Type) → Run (JState CheckData) Errno α → Prop) (fuel : Nat)
    (tx : Block) : Prop where
  trans : P Unit (journal40TraverseTrans fuel tx none none)
  find : ∀ (txh : Option (TxhFunc CheckData)) (sec : Option (SecFunc CheckData)),
    (∀ f ∈ txh, f = cbFindTxhBlk) → (∀ f ∈ sec, f = cbFindSecBlk) →
    P Unit (journal40Traverse fuel txh none sec)

variable {tx : Block}

theorem lgrConflict_closed (hP : CheckClosed aal I P) (hnested : NestedClosed P fuel tx)
    (blk : Nat) : P Unit (lgrConflict fuel tx blk) := by
  apply hP.closed.bind (hP.closed.attempt hnested.trans)
  rintro (e | _)
  · cases e <;> exact hP.closed.fail _
  · refine hP.closed.bind (hP.data _ fun _ => ⟨rfl, rfl, rfl⟩) fun _ => ?_
    apply hP.closed.bind (hP.closed.attempt (hnested.find _ _ (by simp) (by simp)))
    rintro (e | _)
    · cases e with
      | estruct => exact hP.closed.bind (hP.data _ fun _ => ⟨rfl, rfl, rfl⟩) fun _ => hP.closed.fail _
      | eio | einval | enomem | enospc => exact hP.closed.fail _
    · exact hP.closed.ret ()

theorem wanConflict_closed (hP : CheckClosed aal I P) (hnested : NestedClosed P fuel tx)
    (blk : Nat) : P Unit (wanConflict fuel blk) := by
  refine hP.closed.bind (hP.data _ fun _ => ⟨rfl, rfl, rfl⟩) fun _ => ?_
  apply hP.closed.bind (hP.closed.attempt (hnested.find _ _ (by simp) (by simp)))
  rintro (e | _)
  · cases e with
    | estruct =>
      apply hP.closed.bind hP.closed.get
      intro s
      split
      · exact hP.closed.bind (hP.data _ fun _ => ⟨rfl, rfl, rfl⟩) fun _ => hP.closed.fail _
      · exact hP.closed.fail _
    | eio | einval | enomem | enospc => exact hP.closed.fail _
  · exact hP.closed.ret ()

theorem orgConflict_closed (hP : CheckClosed aal I P) (hnested : NestedClosed P fuel tx)
    (blk : Nat) : P Unit (orgConflict aal fuel blk) := by
  refine hP.closed.bind (hP.data _ fun _ => ⟨rfl, rfl, rfl⟩) fun _ => ?_
  apply hP.closed.bind (hP.closed.attempt (hnested.find _ _ (by simp) (by simp)))
  rintro (e | _)
  · cases e with
    | estruct =>
      apply hP.closed.bind hP.closed.get
      intro s
      split
      · exact hP.closed.fail _
      · exact markMet_closed hP blk
    | eio | einval | enomem | enospc => exact hP.closed.fail _
  · exact hP.closed.ret ()

theorem checkLayout_closed (hP : CheckClosed aal I P) (hnested : NestedClosed P fuel tx)
    (blk : Nat) (ty : BlockType) : P Unit (checkLayout aal fuel tx blk ty) := by
  apply hP.closed.bind (hP.testJournal blk)
  intro met
  split
  · apply hP.closed.bind (hP.testCurrent blk)
    intro again
    split
    · exact hP.closed.fail _
    · cases ty with
      | lgr => exact lgrConflict_closed hP hnested blk
      | wan => exact wanConflict_closed hP hnested blk
      | org => exact orgConflict_closed hP hnested blk
      | inv | txh => exact markMet_closed hP blk
  · exact markMet_closed hP blk

/-- The callback has a property that the nested traverses have. -/
theorem cbJournalSecCheck_closed (hP : CheckClosed aal I P) (hnested : NestedClosed P fuel tx)
    (nr : Nat) (ty : BlockType) : P Unit (cbJournalSecCheck aal area layoutFunc fuel tx nr ty) := by
  apply hP.closed.bind (hP.start tx.nr)
  intro _
  refine hP.closed.bind (hP.data _ fun _ => ⟨rfl, rfl, rfl⟩) fun _ => ?_
  apply hP.closed.bind hP.closed.get
  intro s
  split
  · exact hP.closed.fail _
  · exact hP.closed.bind (checkRecord_closed hP nr ty) fun _ => checkLayout_closed hP hnested nr ty

/-- To leave the journal alone is such a property. -/
theorem checkClosed_keeps (aal : AalBits) (j : Journal) :
    CheckClosed aal (Unchanged j) fun _ x => Run.Keeps (Unchanged j) x where
  closed := Run.keeps_closed (Unchanged j)
  data := fun f hf => Run.Keeps.modify f fun s hs => (hf s).1.trans hs
  start := by
    refine fun nr => Run.Keeps.modify _ fun s hs => ?_
    split <;> exact hs
  testJournal := fun _ => Run.Keeps.bind Run.Keeps.get fun _ => Run.Keeps.lift _
  testCurrent := fun _ => Run.Keeps.bind Run.Keeps.get fun _ => Run.Keeps.lift _
  markJournal := fun _ => Run.Keeps.bind Run.Keeps.get fun _ =>
    Run.Keeps.bind (Run.Keeps.lift _) fun _ => Run.Keeps.modify _ fun _ hs => hs
  markCurrent := fun _ => Run.Keeps.bind Run.Keeps.get fun _ =>
    Run.Keeps.bind (Run.Keeps.lift _) fun _ => Run.Keeps.modify _ fun _ hs => hs

/-- The callbacks leave the journal alone. -/
theorem cbJournalTxhCheck_keeps (nr : Nat) :
    Run.Keeps (Unchanged j) (cbJournalTxhCheck aal area layoutFunc nr) :=
  cbJournalTxhCheck_closed (checkClosed_keeps aal j) nr

theorem cbFindTxhBlk_keeps (nr : Nat) : Run.Keeps (Unchanged j) (cbFindTxhBlk nr) :=
  cbFindTxhBlk_closed (checkClosed_keeps AalBits.plain j) nr

theorem cbFindSecBlk_keeps (tx : Block) (nr : Nat) (ty : BlockType) :
    Run.Keeps (Unchanged j) (cbFindSecBlk tx nr ty) :=
  cbFindSecBlk_closed (checkClosed_keeps AalBits.plain j) tx nr ty

theorem cbJournalSecCheck_keeps (tx : Block) (nr : Nat) (ty : BlockType) :
    Run.Keeps (Unchanged j) (cbJournalSecCheck aal area layoutFunc fuel tx nr ty) := by
  refine cbJournalSecCheck_closed (checkClosed_keeps aal j) ⟨?_, ?_⟩ nr ty
  · exact logLoop_keeps none none (by simp) (by simp) tx fuel _
  · intro txh sec htxh hsec
    refine journal40Traverse_keeps none sec (by simp) ?_ txh ?_ fuel
    · intro f hf tx nr ty
      rw [hsec f hf]
      exact cbFindSecBlk_keeps tx nr ty
    · intro f hf nr
      rw [htxh f hf]
      exact cbFindTxhBlk_keeps nr

end Closed

end Reiser4.Journal40
