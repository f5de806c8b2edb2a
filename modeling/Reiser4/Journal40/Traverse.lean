/-
  The journal traverse (`journal40_traverse`, `journal40_traverse_trans`) and the replay built on it.

  The traverse reads the transaction headers from the newest committed one back along `prev_tx` to
  the last flushed one, stacking them, and then walks the stack from its top, so from the oldest
  transaction to the newest.  In a transaction it follows the chain of log records until it is back
  at the header, and in a record the entries up to the first zero wandered number.  Three callbacks
  (each may be absent) see the header numbers, the secondary blocks and the loaded wandered blocks.

  None of the two block chains is checked for cycles by the code (`FIXME-VITALY`), so both loops take
  a fuel argument and `hang` when it is used up.  The entry loop is bounded by the capacity of a
  block and needs none.
-/
import Reiser4.Journal40.Format

namespace Reiser4.Journal40

open Reiser4.Lib

variable {δ : Type}

/-- `journal40_txh_func_t`: sees the number of each transaction header. -/
abbrev TxhFunc (δ : Type) := Nat → Run (JState δ) Errno Unit
/-- `journal40_han_func_t`: sees each loaded wandered block and its original location. -/
abbrev HanFunc (δ : Type) := Block → Nat → Run (JState δ) Errno Unit
/-- `journal40_sec_func_t`: sees each log, wandered and original block number with its type. -/
abbrev SecFunc (δ : Type) := Block → Nat → BlockType → Run (JState δ) Errno Unit

/-- A callback that may be absent: absent ones are skipped. -/
def optCall : Option (Run (JState δ) Errno Unit) → Run (JState δ) Errno Unit
  | none => pure ()
  | some f => f

@[simp] theorem optCall_none {α : Type} (g : α → Run (JState δ) Errno Unit) :
    optCall (Option.map g none) = pure () := rfl
@[simp] theorem optCall_some {α : Type} (g : α → Run (JState δ) Errno Unit) (f : α) :
    optCall (Option.map g (some f)) = g f := rfl

/-- `aal_block_load` from the journal's device, with the `-EIO` its callers answer a failure with. -/
def loadBlock (nr : Nat) : Run (JState δ) Errno Block := do
  let s ← Run.get
  match aalBlockLoad s.journal.device nr with
  | none => Run.fail .eio
  | some b => pure b

/-! ## One transaction -/

/-- The loop over the entries of a log record; `o` is the offset of the next entry, the first
    argument the number of entries left in the block. -/
def entriesLoop (han : Option (HanFunc δ)) (sec : Option (SecFunc δ)) (txBlock : Block)
    (log : Bytes) : Nat → Nat → Run (JState δ) Errno Unit
  | 0, _ => pure ()
  | n + 1, o =>
    if getLeWandered log o = 0 then pure ()
    else do
      optCall (sec.map (fun f => f txBlock (getLeWandered log o) .wan))
      optCall (sec.map (fun f => f txBlock (getLeOriginal log o) .org))
      match han with
      | none => pure ()
      | some f => do
        let wan ← loadBlock (getLeWandered log o)
        f wan (getLeOriginal log o)
      entriesLoop han sec txBlock log n (o + lrEntrySize)

/-- The loop over the chain of log records of a transaction. -/
def logLoop (han : Option (HanFunc δ)) (sec : Option (SecFunc δ)) (txBlock : Block) :
    Nat → Nat → Run (JState δ) Errno Unit
  | 0, _ => Run.hang
  | fuel + 1, logBlk =>
    if logBlk = txBlock.nr then pure ()
    else do
      optCall (sec.map (fun f => f txBlock logBlk .lgr))
      let log ← loadBlock logBlk
      if log.data.memeq 0 lgrMagic then do
        let s ← Run.get
        entriesLoop han sec txBlock log.data (lrCapacity s.journal.blksize) lrHeaderSize
        logLoop han sec txBlock fuel (getLhNextBlock log.data)
      else Run.fail .estruct

/-- `journal40_traverse_trans`. -/
def journal40TraverseTrans (fuel : Nat) (txBlock : Block) (han : Option (HanFunc δ))
    (sec : Option (SecFunc δ)) : Run (JState δ) Errno Unit :=
  logLoop han sec txBlock fuel (getThNextBlock txBlock.data)

/-! ## All transactions -/

/-- The first loop: from `txhBlk` back along `prev_tx` to the last flushed transaction.  Each header
    is put in front of `txList`, so the oldest ends up at its head. -/
def txhLoop (txh : Option (TxhFunc δ)) (lastFlushed : Nat) :
    Nat → Nat → List Block → Run (JState δ) Errno (List Block)
  | 0, _, _ => Run.hang
  | fuel + 1, txhBlk, txList =>
    if txhBlk = lastFlushed then pure txList
    else do
      optCall (txh.map (fun f => f txhBlk))
      let tx ← loadBlock txhBlk
      if tx.data.memeq 0 txhMagic then
        txhLoop txh lastFlushed fuel (getThPrevTx tx.data) (tx :: txList)
      else Run.fail .estruct

/-- The second loop: the stacked transactions, oldest first. -/
def transLoop (fuel : Nat) (han : Option (HanFunc δ)) (sec : Option (SecFunc δ)) :
    List Block → Run (JState δ) Errno Unit
  | [] => pure ()
  | tx :: txList => do
    journal40TraverseTrans fuel tx han sec
    transLoop fuel han sec txList

/-- `journal40_traverse`. -/
def journal40Traverse (fuel : Nat) (txh : Option (TxhFunc δ)) (han : Option (HanFunc δ))
    (sec : Option (SecFunc δ)) : Run (JState δ) Errno Unit := do
  let s ← Run.get
  let lastCommited := getJhLastCommited s.journal.header.data
  let lastFlushed := getJfLastFlushed s.journal.footer.data
  let txList ← txhLoop txh lastFlushed fuel lastCommited []
  transLoop fuel han sec txList

/-! ## The traverse keeps what its callbacks keep -/

section Keeps

variable {I : JState δ → Prop}

theorem optCall_keeps {α : Type} (f : Option α) (g : α → Run (JState δ) Errno Unit)
    (h : ∀ a ∈ f, Run.Keeps I (g a)) : Run.Keeps I (optCall (f.map g)) := by
  cases f with
  | none => exact Run.Keeps.ret ()
  | some a => exact h a rfl

theorem loadBlock_keeps (nr : Nat) : Run.Keeps I (loadBlock nr) := by
  refine Run.Keeps.bind Run.Keeps.get ?_
  intro s
  cases aalBlockLoad s.journal.device nr with
  | none => exact Run.Keeps.fail _
  | some b => exact Run.Keeps.ret b

variable (han : Option (HanFunc δ)) (sec : Option (SecFunc δ))
  (hhan : ∀ f ∈ han, ∀ b o, Run.Keeps I (f b o))
  (hsec : ∀ f ∈ sec, ∀ b n t, Run.Keeps I (f b n t))

include hhan hsec

theorem entriesLoop_keeps (tx : Block) (log : Bytes) (n : Nat) :
    ∀ o, Run.Keeps I (entriesLoop han sec tx log n o) := by
  induction n with
  | zero =>
    intro o
    exact Run.Keeps.ret ()
  | succ n ih =>
    intro o
    rw [entriesLoop]
    split
    · exact Run.Keeps.ret ()
    · refine Run.Keeps.bind (optCall_keeps sec _ (fun f hf => hsec f hf _ _ _)) (fun _ => ?_)
      refine Run.Keeps.bind (optCall_keeps sec _ (fun f hf => hsec f hf _ _ _)) (fun _ => ?_)
      cases han with
      | none => exact ih _
      | some f =>
        refine Run.Keeps.bind (loadBlock_keeps _) (fun b => ?_)
        exact Run.Keeps.bind (hhan f rfl _ _) (fun _ => ih _)

theorem logLoop_keeps (tx : Block) (fuel : Nat) :
    ∀ blk, Run.Keeps I (logLoop han sec tx fuel blk) := by
  induction fuel with
  | zero =>
    intro blk
    exact Run.Keeps.hang
  | succ fuel ih =>
    intro blk
    rw [logLoop]
    split
    · exact Run.Keeps.ret ()
    · refine Run.Keeps.bind (optCall_keeps sec _ (fun f hf => hsec f hf _ _ _)) (fun _ => ?_)
      refine Run.Keeps.bind (loadBlock_keeps _) (fun b => ?_)
      split
      · refine Run.Keeps.bind Run.Keeps.get (fun s => ?_)
        exact Run.Keeps.bind (entriesLoop_keeps han sec hhan hsec tx _ _ _) (fun _ => ih _)
      · exact Run.Keeps.fail _

theorem transLoop_keeps (fuel : Nat) (l : List Block) :
    Run.Keeps I (transLoop fuel han sec l) := by
  induction l with
  | nil => exact Run.Keeps.ret ()
  | cons tx l ih =>
    exact Run.Keeps.bind (logLoop_keeps han sec hhan hsec tx fuel _) (fun _ => ih)

omit hhan hsec in
theorem txhLoop_keeps (txh : Option (TxhFunc δ)) (htxh : ∀ f ∈ txh, ∀ n, Run.Keeps I (f n))
    (lastFlushed fuel : Nat) : ∀ blk acc, Run.Keeps I (txhLoop txh lastFlushed fuel blk acc) := by
  induction fuel with
  | zero =>
    intro blk acc
    exact Run.Keeps.hang
  | succ fuel ih =>
    intro blk acc
    rw [txhLoop]
    split
    · exact Run.Keeps.ret acc
    · refine Run.Keeps.bind (optCall_keeps txh _ (fun f hf => htxh f hf _)) (fun _ => ?_)
      refine Run.Keeps.bind (loadBlock_keeps _) (fun b => ?_)
      split
      · exact ih _ _
      · exact Run.Keeps.fail _

/-- **Frame rule of the traverse**: on any device content it keeps what its callbacks keep. -/
theorem journal40Traverse_keeps (txh : Option (TxhFunc δ))
    (htxh : ∀ f ∈ txh, ∀ n, Run.Keeps I (f n)) (fuel : Nat) :
    Run.Keeps I (journal40Traverse fuel txh han sec) := by
  refine Run.Keeps.bind Run.Keeps.get (fun s => ?_)
  refine Run.Keeps.bind (txhLoop_keeps txh htxh _ _ _ _) (fun l => ?_)
  exact transLoop_keeps han sec hhan hsec fuel l

end Keeps

/-! ## Replay -/

/-- `replay_count_t`. -/
structure ReplayCount where
  txCount : Nat
  blkCount : Nat
  deriving DecidableEq, Repr

/-- `cb_replay`: write the wandered block over its original location. -/
def cbReplay : HanFunc δ := fun block orig => do
  let s ← Run.get
  match aalBlockWrite s.journal.device (aalBlockMove block orig) with
  | none => Run.fail .eio
  | some dev => Run.modify (fun s => { s with journal := s.journal.withDevice dev })

/-- `cb_print_replay`: count the log records and the wandered blocks.  The message it prints for
    each log record is left out. -/
def cbPrintReplay : SecFunc ReplayCount := fun _ _ type => do
  if type = .wan then
    Run.modify (fun s => { s with data := { s.data with blkCount := s.data.blkCount + 1 } })
  if type = .lgr then
    Run.modify (fun s => { s with data := { s.data with txCount := s.data.txCount + 1 } })

/-- `journal40_update_format`: the counters of the footer go to the format and oid entities, if
    the footer names a flushed transaction. -/
def journal40UpdateFormat (j : Journal) : Journal :=
  if getJfLastFlushed j.footer.data = 0 then j
  else
    { j with
      format := format40SetFree j.format (getJfFreeBlocks j.footer.data)
      oid := oid40SetUsedOid (oid40SetNextOid j.oid (getJfNextOid j.footer.data))
        (getJfUsedOids j.footer.data) }

/-- The footer after the newest committed transaction `nr`, with header block `th`, is flushed. -/
def footerOfTx (footer th : Bytes) (nr : Nat) : Bytes :=
  setJfNextOid (setJfUsedOids (setJfFreeBlocks (setJfLastFlushed footer nr)
    (getThFreeBlocks th)) (getThUsedOids th)) (getThNextOid th)

/-- `journal40_update`: the footer takes the values of the newest committed transaction. -/
def journal40Update : Run (JState δ) Errno Unit := do
  let s ← Run.get
  let lastCommited := getJhLastCommited s.journal.header.data
  let lastFlushed := getJfLastFlushed s.journal.footer.data
  if lastFlushed = lastCommited then pure ()
  else do
    let tx ← loadBlock lastCommited
    if tx.data.memeq 0 txhMagic then
      Run.modify (fun s => { s with
        journal := journal40Mkdirty { s.journal with
          footer := { s.journal.footer with
            data := footerOfTx s.journal.footer.data tx.data lastCommited } } })
    else Run.fail .einval

/-- `journal40_invalidate`. -/
def journal40Invalidate (j : Journal) : Journal :=
  journal40Mkdirty { j with
    header := { j.header with data := setJhLastCommited j.header.data 0 }
    footer := { j.footer with
      data := setJfNextOid (setJfUsedOids (setJfFreeBlocks (setJfLastFlushed j.footer.data 0)
        0) 0) 0 } }

/-- The body of `journal40_replay`, over the counters it allocates. -/
def replayBody (fuel : Nat) : Run (JState ReplayCount) Errno Unit := do
  journal40Traverse fuel none (some cbReplay) (some cbPrintReplay)
  Run.modify (fun s => { s with journal := journal40UpdateFormat s.journal })
  journal40Update
  Run.modify (fun s => { s with journal := journal40Invalidate s.journal })

/-- `journal40_replay`. -/
def journal40Replay (fuel : Nat) : Run Journal Errno Unit :=
  ⟨fun j => ((replayBody fuel).run { journal := j, data := ⟨0, 0⟩ }).map
    (fun r => (r.1, r.2.journal))⟩

end Reiser4.Journal40
