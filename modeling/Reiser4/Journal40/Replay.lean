/-
  Replay is last-writer-wins.

  The abstract journal is a list of transactions, oldest first; a transaction is its header and its
  log records, and a log record a list of copies (wandered, original).  `WellFormed j txs` says that
  the device of `j` carries exactly these transactions between the last flushed and the newest
  committed one, and that no log or wandered block is overwritten before it is read.

  The refinement has three steps, one for each loop of the code:

    * `entriesLoop_replay`  the entries of one record are `replayed` on the device, in order;
    * `logLoop_replay`      so are the records of one transaction: the chain that is still ahead is
                            not overwritten by the copies made so far (`LogChain.congr`);
    * `transLoop_replay`    so are the transactions, in the order `txhLoop_replay` has stacked them.

  Together the whole run plays `copies txs` on the device, and `replayed_eq_overlay` turns this into
  the statement about the newest entry of each block.
-/
import Reiser4.Journal40.Traverse
import Reiser4.Lib.Overlay

namespace Reiser4.Journal40

open Reiser4.Lib

/-! ## The abstract journal -/

/-- The entries of a log record block: the pairs (wandered, original) from offset `o` on, up to the
    first zero wandered number, `n` at most. -/
def lrEntries (log : Bytes) : Nat → Nat → List (Nat × Nat)
  | 0, _ => []
  | n + 1, o =>
    if getLeWandered log o = 0 then []
    else (getLeWandered log o, getLeOriginal log o) :: lrEntries log n (o + lrEntrySize)

/-- A log record: its block and its entries (wandered, original). -/
structure LogRec where
  nr : Nat
  entries : List (Nat × Nat)

/-- A transaction: its header block and its log records, in chain order. -/
structure Tx where
  nr : Nat
  header : Bytes
  logs : List LogRec

namespace Tx

/-- The header as it is loaded. -/
def block (t : Tx) : Block := { nr := t.nr, data := t.header }

/-- The copies the transaction asks for, in the order they are made. -/
def copies (t : Tx) : List (Nat × Nat) := t.logs.flatMap LogRec.entries

/-- The log and wandered blocks of the transaction. -/
def used (t : Tx) : List Nat := t.logs.map LogRec.nr ++ t.copies.map Prod.fst

/-- The blocks of the journal that belong to the transaction. -/
def own (t : Tx) : List Nat := t.nr :: t.used

/-- The original locations the transaction writes to. -/
def originals (t : Tx) : List Nat := t.copies.map Prod.snd

end Tx

/-- The copies of a whole journal, oldest first. -/
def copies (txs : List Tx) : List (Nat × Nat) := txs.flatMap Tx.copies

/-- The wandered block of the newest copy that goes to `o`. -/
def newestWandered (log : List (Nat × Nat)) (o : Nat) : Option Nat :=
  (log.reverse.find? (fun p => p.2 = o)).map Prod.fst

/-- From block `blk` on, the device carries the chain of log records `logs` back to header `nr`. -/
def LogChain (dev : Device) (blksize nr : Nat) : Nat → List LogRec → Prop
  | blk, [] => blk = nr
  | blk, l :: logs => blk ≠ nr ∧ l.nr = blk ∧ ∃ d, dev blk = some d ∧ d.memeq 0 lgrMagic = true ∧
      l.entries = lrEntries d (lrCapacity blksize) lrHeaderSize ∧
      LogChain dev blksize nr (getLhNextBlock d) logs

/-- The device carries the transaction `t`. -/
def TxOn (dev : Device) (blksize : Nat) (t : Tx) : Prop :=
  dev t.nr = some t.header ∧ t.header.memeq 0 txhMagic = true ∧
    LogChain dev blksize t.nr (getThNextBlock t.header) t.logs

/-- From block `blk` back to the last flushed transaction the device carries `ts`, newest first. -/
def TxChain (dev : Device) (blksize lastFlushed : Nat) : Nat → List Tx → Prop
  | blk, [] => blk = lastFlushed
  | blk, t :: ts => blk ≠ lastFlushed ∧ t.nr = blk ∧ TxOn dev blksize t ∧
      TxChain dev blksize lastFlushed (getThPrevTx t.header) ts

/-- **The well-formed journal**: `txs` are its unflushed transactions, oldest first; their log and
    wandered blocks are pairwise distinct, and none of them is an original location of the same or
    an older transaction. -/
structure WellFormed (j : Journal) (txs : List Tx) : Prop where
  chain : TxChain j.device j.blksize (getJfLastFlushed j.footer.data)
    (getJhLastCommited j.header.data) txs.reverse
  distinct : (txs.flatMap Tx.used).Nodup
  own : ∀ t ∈ txs, ∀ b ∈ t.used, b ∉ t.originals
  older : txs.Pairwise (fun old new => ∀ b ∈ new.used, b ∉ old.originals)

/-- The chain depends only on the blocks of its log records. -/
theorem LogChain.congr {dev dev' : Device} {blksize nr : Nat} :
    ∀ {logs : List LogRec} {blk : Nat}, (∀ l ∈ logs, dev' l.nr = dev l.nr) →
      LogChain dev blksize nr blk logs → LogChain dev' blksize nr blk logs
  | [], _, _, h => h
  | l :: logs, blk, hd, ⟨hne, hnr, d, hblk, hm, he, hrest⟩ => by
    have hl : dev' blk = dev blk := by rw [← hnr]; exact hd l (by simp)
    exact ⟨hne, hnr, d, hl.trans hblk, hm, he,
      LogChain.congr (fun l' hl' => hd l' (by simp [hl'])) hrest⟩

theorem TxChain.congr {dev dev' : Device} {blksize lf : Nat} : ∀ {ts : List Tx} {blk : Nat},
    TxChain dev blksize lf blk ts →
      (∀ t ∈ ts, dev' t.nr = dev t.nr ∧ ∀ l ∈ t.logs, dev' l.nr = dev l.nr) →
      TxChain dev' blksize lf blk ts
  | [], _, h, _ => h
  | t :: _, _, ⟨hne, hnr, ⟨hd, hm, hlogs⟩, hrest⟩, hsame => by
    obtain ⟨h1, h2⟩ := hsame t (by simp)
    exact ⟨hne, hnr, ⟨h1.trans hd, hm, hlogs.congr h2⟩,
      hrest.congr fun t' ht' => hsame t' (List.mem_cons_of_mem _ ht')⟩

/-- The log records of a chain, as the device carries them. -/
theorem LogChain.mem {dev : Device} {blksize nr : Nat} : ∀ {logs : List LogRec} {blk : Nat},
    LogChain dev blksize nr blk logs → ∀ l ∈ logs, ∃ d, dev l.nr = some d ∧
      d.memeq 0 lgrMagic = true ∧ l.entries = lrEntries d (lrCapacity blksize) lrHeaderSize
  | [], _, _, l, hl => absurd hl (by simp)
  | l' :: logs, blk, ⟨_, hnr, d, hd, hm, he, hrest⟩, l, hl => by
    rcases List.mem_cons.mp hl with rfl | hl
    · exact ⟨d, by rw [hnr, hd], hm, he⟩
    · exact LogChain.mem hrest l hl

/-! ## The callbacks -/

/-- Loading a block leaves the state alone and gives what the device holds. -/
theorem loadBlock_ok {δ : Type} {nr : Nat} {s s' : JState δ} {b : Block}
    (h : (loadBlock nr).run s = some (.ok b, s')) :
    s' = s ∧ ∃ d, s.journal.device nr = some d ∧ b = { nr, data := d } := by
  rw [loadBlock, Run.get_bind, aalBlockLoad] at h
  cases hd : s.journal.device nr with
  | none => simp [hd] at h
  | some d =>
    simp only [hd, Option.map_some, Run.pure_ok] at h
    exact ⟨h.2.symm, d, rfl, h.1.symm⟩

/-- The counting callback never fails and never touches the journal. -/
theorem cbPrintReplay_ok {tx : Block} {nr : Nat} {ty : BlockType} {s s' : JState ReplayCount}
    {r : Except Errno Unit} (h : (cbPrintReplay tx nr ty).run s = some (r, s')) :
    s'.journal = s.journal := by
  unfold cbPrintReplay at h
  cases ty <;> cases h <;> rfl

/-- The replaying callback puts the block at its original location. -/
theorem cbReplay_ok {δ : Type} {b : Block} {o : Nat} {s s' : JState δ}
    (h : (cbReplay b o).run s = some (.ok (), s')) :
    s'.journal = s.journal.withDevice (put s.journal.device o (some b.data)) := by
  rw [cbReplay, Run.get_bind, aalBlockWrite, aalBlockMove] at h
  by_cases hd : (s.journal.device o).isSome
  · simp only [hd, if_true, Run.run_modify, Option.some.injEq, Prod.mk.injEq] at h
    rw [← h.2]
    rfl
  · simp [hd] at h

/-! ## The three loops -/

/-- The loop over the entries of one record plays them on the device. -/
theorem entriesLoop_replay (tx : Block) (log : Bytes) (n : Nat) :
    ∀ (o : Nat) (s s' : JState ReplayCount),
    (entriesLoop (some cbReplay) (some cbPrintReplay) tx log n o).run s = some (.ok (), s') →
    s'.journal = s.journal.withDevice (replayed s.journal.device (lrEntries log n o)) := by
  induction n with
  | zero =>
    intro o s s' h
    rw [entriesLoop, Run.pure_ok] at h
    rw [← h.2]
    rfl
  | succ n ih =>
    intro o s s' h
    rw [entriesLoop] at h
    rw [lrEntries]
    by_cases hz : getLeWandered log o = 0
    · rw [if_pos hz, Run.pure_ok] at h
      rw [if_pos hz, ← h.2]
      rfl
    · rw [if_neg hz] at h ⊢
      simp only [optCall_some] at h
      obtain ⟨_, s1, h1, h⟩ := Run.bind_ok.mp h
      obtain ⟨_, s2, h2, h⟩ := Run.bind_ok.mp h
      obtain ⟨wan, s3, hl, h⟩ := Run.bind_ok.mp h
      obtain ⟨rfl, d, hd, rfl⟩ := loadBlock_ok hl
      obtain ⟨_, s4, hc, h⟩ := Run.bind_ok.mp h
      have e1 : s1.journal = s.journal := cbPrintReplay_ok h1
      have e2 : s3.journal = s1.journal := cbPrintReplay_ok h2
      rw [e2, e1] at hd
      rw [ih _ s4 s' h, cbReplay_ok hc, e2, e1, replayed_cons, hd]
      rfl

/-- The loop over the log records of one transaction plays all their entries, because the records
    still ahead are not overwritten. -/
theorem logLoop_replay (tx : Block) : ∀ (logs : List LogRec) (fuel blk : Nat)
    (s s' : JState ReplayCount),
    LogChain s.journal.device s.journal.blksize tx.nr blk logs →
    (∀ l ∈ logs, ∀ p ∈ logs.flatMap LogRec.entries, p.2 ≠ l.nr) →
    (logLoop (some cbReplay) (some cbPrintReplay) tx fuel blk).run s = some (.ok (), s') →
    s'.journal = s.journal.withDevice
      (replayed s.journal.device (logs.flatMap LogRec.entries)) := by
  intro logs
  induction logs with
  | nil =>
    intro fuel blk s s' hchain _ h
    cases fuel with
    | zero => simp [logLoop] at h
    | succ fuel =>
      have hblk : blk = tx.nr := hchain
      rw [logLoop, if_pos hblk, Run.pure_ok] at h
      rw [← h.2]
      rfl
  | cons l logs ih =>
    intro fuel blk s s' hchain hfresh h
    obtain ⟨hne, hnr, d, hd, hm, he, hrest⟩ := hchain
    cases fuel with
    | zero => simp [logLoop] at h
    | succ fuel =>
      rw [logLoop, if_neg hne, optCall_some] at h
      obtain ⟨_, s1, h1, h⟩ := Run.bind_ok.mp h
      obtain ⟨log, s2, h2, h⟩ := Run.bind_ok.mp h
      obtain ⟨rfl, d', hd', rfl⟩ := loadBlock_ok h2
      have e1 : s2.journal = s.journal := cbPrintReplay_ok h1
      have hdd : d' = d := by rw [e1, hd] at hd'; exact (Option.some.inj hd').symm
      subst hdd
      rw [if_pos hm, Run.get_bind] at h
      obtain ⟨_, s3, h3, h⟩ := Run.bind_ok.mp h
      have e3 := entriesLoop_replay tx d' _ _ s2 s3 h3
      rw [e1, ← he] at e3
      -- the copies of this record leave the rest of the chain in place
      have hchain3 : LogChain s3.journal.device s3.journal.blksize tx.nr (getLhNextBlock d') logs := by
        rw [e3]
        refine LogChain.congr ?_ hrest
        intro l' hl'
        refine replayed_other _ _ _ ?_
        intro p hp
        exact hfresh l' (by simp [hl']) p (by simp [hp])
      have hih := ih fuel _ s3 s' hchain3 (by
        intro l' hl' p hp
        refine hfresh l' (by simp [hl']) p ?_
        rw [List.flatMap_cons, List.mem_append]
        exact Or.inr hp) h
      rw [hih, e3, List.flatMap_cons, replayed_append]
      rfl

/-- The first loop stacks the headers, so the oldest transaction is on top. -/
theorem txhLoop_replay {δ : Type} (lastFlushed : Nat) (s : JState δ) : ∀ (ts : List Tx)
    (fuel blk : Nat) (acc l : List Block) (s' : JState δ),
    TxChain s.journal.device s.journal.blksize lastFlushed blk ts →
    (txhLoop none lastFlushed fuel blk acc).run s = some (.ok l, s') →
    s' = s ∧ l = (ts.map Tx.block).reverse ++ acc := by
  intro ts
  induction ts with
  | nil =>
    intro fuel blk acc l s' hchain h
    cases fuel with
    | zero => simp [txhLoop] at h
    | succ fuel =>
      have hblk : blk = lastFlushed := hchain
      rw [txhLoop, if_pos hblk, Run.pure_ok] at h
      exact ⟨h.2.symm, h.1.symm⟩
  | cons t ts ih =>
    intro fuel blk acc l s' hchain h
    obtain ⟨hne, hnr, ⟨hd, hm, _⟩, hrest⟩ := hchain
    cases fuel with
    | zero => simp [txhLoop] at h
    | succ fuel =>
      rw [txhLoop, if_neg hne, optCall_none, Run.pure_bind] at h
      obtain ⟨tx, s2, h2, h⟩ := Run.bind_ok.mp h
      obtain ⟨rfl, d, hd', rfl⟩ := loadBlock_ok h2
      have hdd : d = t.header := by rw [← hnr, hd] at hd'; exact (Option.some.inj hd').symm
      subst hdd
      rw [if_pos hm] at h
      obtain ⟨hs, hl⟩ := ih fuel _ _ l s' hrest h
      refine ⟨hs, ?_⟩
      rw [hl, List.map_cons, List.reverse_cons, List.append_assoc]
      simp [Tx.block, hnr]

/-- The copies of one transaction do not reach the log blocks of a transaction that they are
    disjoint from. -/
theorem replayed_used (dev : Device) (t t' : Tx) (h : ∀ b ∈ t'.used, b ∉ t.originals) (l : LogRec)
    (hl : l ∈ t'.logs) : replayed dev t.copies l.nr = dev l.nr := by
  refine replayed_other dev _ _ ?_
  intro p hp e
  refine h l.nr ?_ ?_
  · exact List.mem_append_left _ (List.mem_map_of_mem hl)
  · rw [← e]
    exact List.mem_map_of_mem hp

/-- The second loop plays the copies of all transactions, oldest first. -/
theorem transLoop_replay (fuel : Nat) : ∀ (txs : List Tx) (s s' : JState ReplayCount),
    (∀ t ∈ txs, LogChain s.journal.device s.journal.blksize t.nr (getThNextBlock t.header) t.logs) →
    (∀ t ∈ txs, ∀ b ∈ t.used, b ∉ t.originals) →
    txs.Pairwise (fun old new => ∀ b ∈ new.used, b ∉ old.originals) →
    (transLoop fuel (some cbReplay) (some cbPrintReplay) (txs.map Tx.block)).run s =
      some (.ok (), s') →
    s'.journal = s.journal.withDevice (replayed s.journal.device (copies txs)) := by
  intro txs
  induction txs with
  | nil =>
    intro s s' _ _ _ h
    rw [List.map_nil, transLoop, Run.pure_ok] at h
    rw [← h.2]
    rfl
  | cons t txs ih =>
    intro s s' hchain hown holder h
    rw [List.map_cons, transLoop] at h
    obtain ⟨_, s1, h1, h⟩ := Run.bind_ok.mp h
    obtain ⟨hnew, holder'⟩ := List.pairwise_cons.mp holder
    have e1 := logLoop_replay t.block t.logs fuel _ s s1 (hchain t (by simp)) (by
      intro l hl p hp e
      refine hown t (by simp) l.nr (List.mem_append_left _ (List.mem_map_of_mem hl)) ?_
      rw [← e]
      exact List.mem_map_of_mem hp) h1
    have hih := ih s1 s' (by
      intro t' ht'
      rw [e1]
      refine LogChain.congr ?_ (hchain t' (by simp [ht']))
      intro l hl
      exact replayed_used _ t t' (hnew t' ht') l hl)
      (fun t' ht' => hown t' (by simp [ht'])) holder' h
    rw [hih, e1, copies, copies, List.flatMap_cons, replayed_append]
    rfl

/-! ## The whole replay -/

theorem TxChain.mem {dev : Device} {blksize lf : Nat} : ∀ {ts : List Tx} {blk : Nat},
    TxChain dev blksize lf blk ts → ∀ t ∈ ts, TxOn dev blksize t
  | [], _, _, t, ht => absurd ht (by simp)
  | t' :: ts, _, ⟨_, _, hon, hrest⟩, t, ht => by
    rcases List.mem_cons.mp ht with rfl | ht
    · exact hon
    · exact TxChain.mem hrest t ht

/-- The traverse with the replaying callbacks plays the copies of the journal on the device. -/
theorem journal40Traverse_replay {j : Journal} {txs : List Tx} (hw : WellFormed j txs) {fuel : Nat}
    {n : ReplayCount} {s' : JState ReplayCount}
    (h : (journal40Traverse fuel none (some cbReplay) (some cbPrintReplay)).run ⟨j, n⟩ =
      some (.ok (), s')) :
    s'.journal = j.withDevice (replayed j.device (copies txs)) := by
  rw [journal40Traverse, Run.get_bind] at h
  obtain ⟨l, s1, h1, h⟩ := Run.bind_ok.mp h
  obtain ⟨rfl, rfl⟩ := txhLoop_replay _ _ txs.reverse _ _ _ _ _ hw.chain h1
  rw [List.append_nil, ← List.map_reverse, List.reverse_reverse] at h
  refine transLoop_replay fuel txs _ s' ?_ hw.own hw.older h
  intro t ht
  exact (TxChain.mem hw.chain t (List.mem_reverse.mpr ht)).2.2

/-- The steps after the traverse do not write to the device. -/
theorem journal40Update_device {δ : Type} {s s' : JState δ}
    (h : journal40Update.run s = some (.ok (), s')) : s'.journal.device = s.journal.device := by
  simp only [journal40Update, Run.get_bind] at h
  by_cases he : getJfLastFlushed s.journal.footer.data = getJhLastCommited s.journal.header.data
  · rw [if_pos he, Run.pure_ok] at h
    rw [← h.2]
  · rw [if_neg he] at h
    obtain ⟨tx, s1, h1, h⟩ := Run.bind_ok.mp h
    obtain ⟨rfl, _⟩ := loadBlock_ok h1
    by_cases hm : tx.data.memeq 0 txhMagic = true
    · rw [if_pos hm, Run.run_modify, Option.some.injEq, Prod.mk.injEq] at h
      rw [← h.2]
      rfl
    · rw [if_neg hm] at h
      exact absurd h Run.fail_ok

theorem journal40UpdateFormat_device (j : Journal) :
    (journal40UpdateFormat j).device = j.device := by
  unfold journal40UpdateFormat
  split <;> rfl

theorem journal40Invalidate_device (j : Journal) : (journal40Invalidate j).device = j.device := rfl

/-- A successful replay is a successful traverse, then the update of the format, then the update of
    the footer, then the invalidation. -/
theorem journal40Replay_ok {fuel : Nat} {j j' : Journal}
    (h : (journal40Replay fuel).run j = some (.ok (), j')) :
    ∃ s1 s2 : JState ReplayCount,
      (journal40Traverse fuel none (some cbReplay) (some cbPrintReplay)).run ⟨j, ⟨0, 0⟩⟩ =
        some (.ok (), s1) ∧
      journal40Update.run { s1 with journal := journal40UpdateFormat s1.journal } =
        some (.ok (), s2) ∧
      j' = journal40Invalidate s2.journal := by
  simp only [journal40Replay, Option.map_eq_some_iff] at h
  obtain ⟨⟨r, s⟩, hr, he⟩ := h
  simp only [Prod.mk.injEq] at he
  obtain ⟨rfl, rfl⟩ := he
  rw [replayBody] at hr
  obtain ⟨_, s1, h1, hr⟩ := Run.bind_ok.mp hr
  rw [Run.modify_bind] at hr
  obtain ⟨_, s3, h3, hr⟩ := Run.bind_ok.mp hr
  rw [Run.run_modify, Option.some.injEq, Prod.mk.injEq] at hr
  exact ⟨s1, s3, h1, h3, by rw [← hr.2]⟩

/-- No copy of a well-formed journal reads what an older copy has written. -/
theorem WellFormed.readsFresh {j : Journal} {txs : List Tx} (hw : WellFormed j txs) :
    ReadsFresh (copies txs) := by
  refine List.pairwise_flatMap.mpr ⟨?_, ?_⟩
  · intro t ht
    refine List.pairwise_iff_forall_sublist.mpr ?_
    intro p q hpq e
    have hp : p ∈ t.copies := hpq.subset (by simp)
    have hq : q ∈ t.copies := hpq.subset (by simp)
    refine hw.own t ht q.1 (List.mem_append_right _ (List.mem_map_of_mem hq)) ?_
    rw [e]
    exact List.mem_map_of_mem hp
  · refine hw.older.imp ?_
    intro t t' h p hp q hq e
    refine h q.1 (List.mem_append_right _ (List.mem_map_of_mem hq)) ?_
    rw [e]
    exact List.mem_map_of_mem hp

/-- Playing fresh copies, seen from one block: the newest copy to it decides. -/
theorem replayed_newest (dev : Device) (log : List (Nat × Nat)) (hf : ReadsFresh log) (b : Nat) :
    replayed dev log b = match newestWandered log b with
      | some w => dev w
      | none => dev b := by
  unfold newestWandered
  cases hfind : log.reverse.find? (fun p => p.2 = b) with
  | none =>
    refine replayed_other dev log b ?_
    intro p hp
    simpa using List.find?_eq_none.mp hfind p (List.mem_reverse.mpr hp)
  | some p =>
    obtain ⟨hp, l, m, hlog, hl⟩ := List.find?_eq_some_iff_append.mp hfind
    have hb : p.2 = b := by simpa using hp
    have hlog' : log = m.reverse ++ (p.1, b) :: l.reverse := by
      rw [← hb, ← List.reverse_reverse log, hlog]
      simp
    rw [hlog'] at hf ⊢
    refine replayed_last dev m.reverse l.reverse p.1 b hf ?_
    intro q hq
    simpa using hl q (List.mem_reverse.mp hq)

/-- **Replay is last-writer-wins.**  After a successful replay of a well-formed journal a block that
    is the original location of some entry holds what the wandered block of the newest such entry
    held before, and every other block is unchanged. -/
theorem journal40Replay_newest (j j' : Journal) (txs : List Tx) (fuel : Nat)
    (hw : WellFormed j txs) (h : (journal40Replay fuel).run j = some (.ok (), j')) (b : Nat) :
    j'.device b = match newestWandered (copies txs) b with
      | some w => j.device w
      | none => j.device b := by
  obtain ⟨s1, s2, h1, h2, rfl⟩ := journal40Replay_ok h
  rw [journal40Invalidate_device, journal40Update_device h2, journal40UpdateFormat_device,
    journal40Traverse_replay hw h1]
  exact replayed_newest j.device (copies txs) hw.readsFresh b

/-! ## A journal of two transactions that write the same block -/

/-- The header block of a transaction. -/
def sampleTxHeader (prev next free used oid : Nat) : Bytes :=
  let b := Bytes.putStr Bytes.zero 0 txhMagic
  let b := (b.setLe 8 24 prev).setLe 8 32 next
  ((b.setLe 8 40 free).setLe 8 48 used).setLe 8 56 oid

/-- A log record block with one entry. -/
def sampleLog (next orig wan : Nat) : Bytes :=
  let b := (Bytes.putStr Bytes.zero 0 lgrMagic).setLe 8 24 next
  (b.setLe 8 lrHeaderSize orig).setLe 8 (lrHeaderSize + 8) wan

/-- Transaction 20 copies block 22 to 30, the newer transaction 23 copies block 25 to 30. -/
def sampleDevice : Device
  | 20 => some (sampleTxHeader 0 21 7 8 9)
  | 21 => some (sampleLog 20 30 22)
  | 22 => some (Bytes.zero.fill 0 512 1)
  | 23 => some (sampleTxHeader 20 24 70 80 90)
  | 24 => some (sampleLog 23 30 25)
  | 25 => some (Bytes.zero.fill 0 512 2)
  | 30 => some Bytes.zero
  | _ => none

/-- The journal on that device: nothing is flushed, 23 is the newest committed transaction. -/
def sampleJournal : Journal where
  blksize := 512
  state := 0
  device := sampleDevice
  format := { freeBlocks := 1, state := 0 }
  oid := { next := 2, used := 3, state := 0 }
  header := { nr := 18, data := setJhLastCommited Bytes.zero 23 }
  footer := { nr := 19, data := Bytes.zero }

/-- Its transactions, oldest first. -/
def sampleTxs : List Tx :=
  [{ nr := 20, header := sampleTxHeader 0 21 7 8 9, logs := [{ nr := 21, entries := [(22, 30)] }] },
   { nr := 23, header := sampleTxHeader 20 24 70 80 90,
     logs := [{ nr := 24, entries := [(25, 30)] }] }]

/-- A log record of the sample is a chain of its own, back to the header of its transaction. -/
theorem sampleLog_chain (nr log orig wan : Nat) (hne : log ≠ nr)
    (hd : sampleDevice log = some (sampleLog nr orig wan))
    (hm : (sampleLog nr orig wan).memeq 0 lgrMagic = true)
    (he : lrEntries (sampleLog nr orig wan) (lrCapacity 512) lrHeaderSize = [(wan, orig)])
    (hn : getLhNextBlock (sampleLog nr orig wan) = nr) :
    LogChain sampleDevice 512 nr log [{ nr := log, entries := [(wan, orig)] }] :=
  ⟨hne, rfl, _, hd, hm, he.symm, hn⟩

theorem sampleJournal_wellFormed : WellFormed sampleJournal sampleTxs where
  chain := by
    have h20 : getThNextBlock (sampleTxHeader 0 21 7 8 9) = 21 := by decide +kernel
    have h23 : getThNextBlock (sampleTxHeader 20 24 70 80 90) = 24 := by decide +kernel
    have p20 : getThPrevTx (sampleTxHeader 0 21 7 8 9) = 0 := by decide +kernel
    have p23 : getThPrevTx (sampleTxHeader 20 24 70 80 90) = 20 := by decide +kernel
    have lf : getJfLastFlushed sampleJournal.footer.data = 0 := by decide +kernel
    have lc : getJhLastCommited sampleJournal.header.data = 23 := by decide +kernel
    rw [lf, lc]
    refine ⟨by decide, rfl, ⟨rfl, by decide +kernel, ?_⟩, ?_⟩
    · rw [h23]
      exact sampleLog_chain 23 24 30 25 (by decide) rfl (by decide +kernel) (by decide +kernel)
        (by decide +kernel)
    · rw [p23]
      refine ⟨by decide, rfl, ⟨rfl, by decide +kernel, ?_⟩, p20⟩
      rw [h20]
      exact sampleLog_chain 20 21 30 22 (by decide) rfl (by decide +kernel) (by decide +kernel)
        (by decide +kernel)
  distinct := by decide
  own := by decide
  older := by decide

theorem sampleJournal_replays : (journal40Replay 3).succeeds sampleJournal = true := by
  decide +kernel

/-- Block 30 ends with what block 25, and not block 22, held. -/
theorem journal40Replay_newest_sample : ∃ j', (journal40Replay 3).run sampleJournal = some (.ok (), j') ∧
    j'.device 30 = sampleJournal.device 25 := by
  obtain ⟨_, j', h⟩ := Run.succeeds_iff.mp sampleJournal_replays
  exact ⟨j', h, journal40Replay_newest sampleJournal j' sampleTxs 3 sampleJournal_wellFormed h 30⟩

end Reiser4.Journal40
