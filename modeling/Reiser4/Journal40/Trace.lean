/-
  The journal traverse as a list of events.

  A traverse whose callbacks leave the journal alone meets, in every transaction, the same blocks in
  the same order, however far the callbacks let it go: the trace of the transaction.

    1. `logLoop_trace`, `transLoop_trace`   the loops call the callback for each event of the trace, and
       then end as the chain ends;
    2. `txhLoop_chain`      the first loop calls its callback for each header of the chain;
    3. `logTrace_closed`    a trace that ends at its header is that of log records on the device.
-/
import Reiser4.Journal40.Termination
import Reiser4.Journal40.Replay

namespace Reiser4.Journal40

open Reiser4.Lib

/-- A block the traverse meets, and as what. -/
abbrev Event := Nat × BlockType

/-- How the chain of the log records ends: back at the header, at a block that cannot be read, at a
    block that is no log record, or not within the fuel. -/
inductive Finish
  | closed | unread | broken | going
  deriving DecidableEq, Repr

/-- The end of the loop over the log records. -/
def Finish.run {σ : Type} : Finish → Run σ Errno Unit
  | .closed => pure ()
  | .unread => Run.fail .eio
  | .broken => Run.fail .estruct
  | .going => Run.hang

/-- The events of the entries (wandered, original) of a log record. -/
def entryEvents (entries : List (Nat × Nat)) : List Event :=
  entries.flatMap fun p => [(p.1, .wan), (p.2, .org)]

/-- The events of the log records from `blk` on, and the end of their chain. -/
def logTrace (dev : Device) (blksize nr : Nat) : Nat → Nat → List Event × Finish
  | 0, _ => ([], .going)
  | fuel + 1, blk =>
    if blk = nr then ([], .closed)
    else match dev blk with
      | none => ([(blk, .lgr)], .unread)
      | some d =>
        if d.memeq 0 lgrMagic then
          let r := logTrace dev blksize nr fuel (getLhNextBlock d)
          ((blk, .lgr) :: (entryEvents (lrEntries d (lrCapacity blksize) lrHeaderSize) ++ r.1), r.2)
        else ([(blk, .lgr)], .broken)

/-- The trace of a transaction. -/
def txTrace (j : Journal) (fuel nr : Nat) : List Event × Finish :=
  logTrace j.device j.blksize nr fuel (logStart j.device nr)

/-- The blocks of events. -/
def blocksOf (evs : List Event) : List Nat := evs.map Prod.fst

/-- The call of the callback for an event. -/
def secCall {δ : Type} (sec : Option (SecFunc δ)) (tx : Block) (e : Event) :
    Run (JState δ) Errno Unit := optCall (sec.map fun f => f tx e.1 e.2)

/-- The call of the callback for a header. -/
def txhCall {δ : Type} (txh : Option (TxhFunc δ)) (nr : Nat) : Run (JState δ) Errno Unit :=
  optCall (txh.map fun f => f nr)

/-- One transaction, as its trace says. -/
def transRun {δ : Type} (j : Journal) (fuel : Nat) (sec : Option (SecFunc δ)) (nr : Nat) :
    Run (JState δ) Errno Unit := do
  Run.forEach (secCall sec (headerBlock j.device nr)) (txTrace j fuel nr).1
  (txTrace j fuel nr).2.run

/-! ## The loops -/

section Loops

variable {δ : Type} {j : Journal} {sec : Option (SecFunc δ)} {txh : Option (TxhFunc δ)}

/-- The loop over the entries of a record calls the callback for each event. -/
theorem entriesLoop_trace (tx : Block) (log : Bytes) (n : Nat) : ∀ (o : Nat) (s : JState δ),
    (entriesLoop none sec tx log n o).run s =
      (Run.forEach (secCall sec tx) (entryEvents (lrEntries log n o))).run s := by
  induction n with
  | zero => exact fun _ _ => rfl
  | succ n ih =>
    intro o s
    rw [entriesLoop, lrEntries]
    by_cases hz : getLeWandered log o = 0
    · rw [if_pos hz, if_pos hz]
      rfl
    · rw [if_neg hz, if_neg hz]
      show _ = (Run.forEach _ ((_, _) :: (_, _) :: entryEvents (lrEntries log n _))).run s
      rw [Run.forEach, Run.forEach]
      apply Run.bind_congr
      intro _ s1 _
      apply Run.bind_congr
      intro _ s2 _
      exact ih _ s2

theorem secCalls_keep (hsec : ∀ f ∈ sec, ∀ tx nr ty, Run.Keeps (fun s => s.journal = j) (f tx nr ty))
    (tx : Block) (evs : List Event) :
    Run.Keeps (fun s => s.journal = j) (Run.forEach (secCall sec tx) evs) :=
  Run.Keeps.forEach (fun _ => optCall_keeps _ _ fun f hf => hsec f hf _ _ _) evs

/-- The loop over the log records calls the callback for the events of the trace. -/
theorem logLoop_trace
    (hsec : ∀ f ∈ sec, ∀ tx nr ty, Run.Keeps (fun s => s.journal = j) (f tx nr ty)) (tx : Block)
    (fuel : Nat) : ∀ (blk : Nat) (s : JState δ), s.journal = j →
      (logLoop none sec tx fuel blk).run s = (do
        Run.forEach (secCall sec tx) (logTrace j.device j.blksize tx.nr fuel blk).1
        (logTrace j.device j.blksize tx.nr fuel blk).2.run).run s := by
  induction fuel with
  | zero => exact fun _ _ _ => rfl
  | succ fuel ih =>
    intro blk s hs
    rw [logLoop, logTrace]
    by_cases hblk : blk = tx.nr
    · rw [if_pos hblk, if_pos hblk]
      rfl
    · rw [if_neg hblk, if_neg hblk]
      -- Whatever the block holds, its first event is the log record itself.
      have hcall : ∀ (rest : List Event) (fin : Finish) (k : Unit → Run (JState δ) Errno Unit),
          (∀ s1 : JState δ, s1.journal = j → (k ()).run s1 =
            (do Run.forEach (secCall sec tx) rest; fin.run).run s1) →
          (optCall (sec.map fun f => f tx blk .lgr) >>= k).run s =
            (do Run.forEach (secCall sec tx) ((blk, .lgr) :: rest); fin.run).run s := by
        intro rest fin k hk
        rw [Run.forEach, Run.bind_assoc_run]
        apply Run.bind_congr
        intro _ s1 h1
        exact hk s1 (optCall_keeps _ _ (fun f hf => hsec f hf _ _ _) s _ s1 hs h1)
      cases hd : j.device blk with
      | none =>
        apply hcall
        intro s1 hs1
        rw [Run.run_bind, loadBlock_run, hs1, hd]
        rfl
      | some d =>
        dsimp only
        by_cases hmagic : d.memeq 0 lgrMagic = true
        · rw [if_pos hmagic]
          apply hcall
          intro s1 hs1
          rw [Run.run_bind, loadBlock_run, hs1, hd]
          dsimp only
          rw [if_pos hmagic, Run.get_bind, hs1, Run.run_bind, entriesLoop_trace, ← Run.run_bind,
            Run.forEach_append_bind]
          apply Run.bind_congr
          intro _ s2 h2
          exact ih _ s2 (secCalls_keep hsec tx _ s1 _ s2 hs1 h2)
        · rw [if_neg hmagic]
          apply hcall
          intro s1 hs1
          rw [Run.run_bind, loadBlock_run, hs1, hd]
          dsimp only
          rw [if_neg hmagic]
          rfl

/-- The loop over the stacked transactions calls the callback for their events. -/
theorem transLoop_trace
    (hsec : ∀ f ∈ sec, ∀ tx nr ty, Run.Keeps (fun s => s.journal = j) (f tx nr ty)) (fuel : Nat)
    (ns : List Nat) : ∀ s : JState δ, s.journal = j →
      (transLoop fuel none sec (ns.map (headerBlock j.device))).run s =
        (Run.forEach (transRun j fuel sec) ns).run s := by
  induction ns with
  | nil => exact fun _ _ => rfl
  | cons nr ns ih =>
    intro s hs
    have htrans : (journal40TraverseTrans fuel (headerBlock j.device nr) none sec).run s =
        (transRun j fuel sec nr).run s := logLoop_trace hsec _ fuel _ s hs
    rw [List.map_cons, transLoop, Run.forEach, Run.run_bind, htrans, ← Run.run_bind]
    apply Run.bind_congr
    intro _ s1 h1
    rw [← htrans, journal40TraverseTrans, logLoop_trace hsec _ _ _ _ hs] at h1
    obtain ⟨_, s2, h2, h3⟩ := Run.bind_ok.mp h1
    have hs2 := secCalls_keep hsec _ _ s _ s2 hs h2
    refine ih s1 ?_
    revert h3
    cases (logTrace j.device j.blksize (headerBlock j.device nr).nr fuel
      (getThNextBlock (headerBlock j.device nr).data)).2 with
    | closed =>
      intro h3
      cases h3
      exact hs2
    | unread | broken | going =>
      intro h3
      cases h3

/-- The loop over the headers calls the callback for each header of the chain, the newest first. -/
theorem txhLoop_chain (htxh : ∀ f ∈ txh, ∀ nr, Run.Keeps (fun s => s.journal = j) (f nr))
    {lastFlushed : Nat} {ns : List Nat} : ∀ {fuel blk : Nat} (txList : List Block) {s : JState δ},
      Chain (prevLink j.device) lastFlushed blk ns → ns.length < fuel → s.journal = j →
      (txhLoop txh lastFlushed fuel blk txList).run s = (do
        Run.forEach (txhCall txh) ns
        pure (ns.reverse.map (headerBlock j.device) ++ txList)).run s := by
  induction ns with
  | nil =>
    intro fuel blk txList s hchain hlen _
    cases fuel with
    | zero => exact absurd hlen (Nat.not_lt_zero _)
    | succ fuel =>
      rw [txhLoop, if_pos (show blk = lastFlushed from hchain)]
      rfl
  | cons n ns ih =>
    intro fuel blk txList s hchain hlen hs
    cases fuel with
    | zero => exact absurd hlen (Nat.not_lt_zero _)
    | succ fuel =>
      obtain ⟨hne, rfl, c, hc, hns⟩ := hchain
      unfold prevLink at hc
      cases hd : j.device n with
      | none =>
        rw [hd] at hc
        cases hc
      | some d =>
        rw [hd] at hc
        dsimp only at hc
        by_cases hmagic : d.memeq 0 txhMagic = true
        · rw [if_pos hmagic, Option.some.injEq] at hc
          have hheader : headerBlock j.device n = { nr := n, data := d } := by
            unfold headerBlock
            rw [hd]
            rfl
          rw [txhLoop, if_neg hne, Run.forEach, Run.bind_assoc_run]
          apply Run.bind_congr
          intro _ s1 h1
          have hs1 : s1.journal = j := optCall_keeps _ _ (fun f hf => htxh f hf n) s _ s1 hs h1
          rw [Run.run_bind, loadBlock_run, hs1, hd]
          dsimp only
          rw [if_pos hmagic, hc, ih _ hns (Nat.lt_of_succ_lt_succ hlen) hs1, List.reverse_cons,
            List.map_append, List.append_assoc, ← hheader]
          rfl
        · rw [if_neg hmagic] at hc
          cases hc

end Loops

/-! ## The traces -/

section Traces

variable {dev : Device} {blksize nr : Nat}

/-- The events of a log record. -/
def LogRec.events (l : LogRec) : List Event := (l.nr, .lgr) :: entryEvents l.entries

/-- The events of a transaction. -/
def Tx.events (t : Tx) : List Event := t.logs.flatMap LogRec.events

/-- A trace that gets back to the header is that of the log records on the way. -/
theorem logTrace_closed {fuel : Nat} : ∀ {blk : Nat},
    (logTrace dev blksize nr fuel blk).2 = .closed → ∃ logs, LogChain dev blksize nr blk logs ∧
      (logTrace dev blksize nr fuel blk).1 = logs.flatMap LogRec.events := by
  induction fuel with
  | zero => exact fun h => by cases h
  | succ fuel ih =>
    intro blk h
    rw [logTrace] at h ⊢
    by_cases hblk : blk = nr
    · rw [if_pos hblk]
      exact ⟨[], hblk, rfl⟩
    · rw [if_neg hblk] at h ⊢
      cases hd : dev blk with
      | none =>
        rw [hd] at h
        cases h
      | some d =>
        rw [hd] at h
        dsimp only at h ⊢
        by_cases hmagic : d.memeq 0 lgrMagic = true
        · rw [if_pos hmagic] at h ⊢
          obtain ⟨logs, hchain, hevents⟩ := ih h
          refine ⟨⟨blk, lrEntries d (lrCapacity blksize) lrHeaderSize⟩ :: logs,
            ⟨hblk, rfl, d, hd, hmagic, rfl, hchain⟩, ?_⟩
          rw [List.flatMap_cons, ← hevents]
          rfl
        · rw [if_neg hmagic] at h
          cases h

/-- More fuel does not change a trace that is complete. -/
theorem logTrace_mono {fuel fuel' : Nat} (hle : fuel ≤ fuel') : ∀ {blk : Nat},
    (logTrace dev blksize nr fuel blk).2 = .closed →
      logTrace dev blksize nr fuel' blk = logTrace dev blksize nr fuel blk := by
  induction fuel generalizing fuel' with
  | zero => exact fun h => by cases h
  | succ fuel ih =>
    intro blk h
    cases fuel' with
    | zero => exact absurd hle (Nat.not_succ_le_zero _)
    | succ fuel' =>
      rw [logTrace] at h ⊢
      rw [logTrace]
      by_cases hblk : blk = nr
      · rw [if_pos hblk, if_pos hblk]
      · rw [if_neg hblk] at h ⊢
        rw [if_neg hblk]
        cases hd : dev blk with
        | none => rfl
        | some d =>
          rw [hd] at h
          dsimp only at h ⊢
          by_cases hmagic : d.memeq 0 lgrMagic = true
          · rw [if_pos hmagic] at h ⊢
            rw [if_pos hmagic, ih (Nat.le_of_succ_le_succ hle) h]
          · rw [if_neg hmagic] at h
            cases h

/-- The events are log records, wandered blocks and original locations. -/
theorem logTrace_types {fuel : Nat} : ∀ {blk : Nat}, ∀ e ∈ (logTrace dev blksize nr fuel blk).1,
    e.2 = .lgr ∨ e.2 = .wan ∨ e.2 = .org := by
  induction fuel with
  | zero => exact fun e he => by cases he
  | succ fuel ih =>
    intro blk e he
    rw [logTrace] at he
    split at he
    · cases he
    · split at he
      · rw [List.mem_singleton.mp he]
        exact Or.inl rfl
      · split at he
        · rcases List.mem_cons.mp he with rfl | he
          · exact Or.inl rfl
          · rcases List.mem_append.mp he with he | he
            · obtain ⟨p, -, hp⟩ := List.mem_flatMap.mp he
              simp only [List.mem_cons, List.not_mem_nil, or_false] at hp
              rcases hp with rfl | rfl
              · exact Or.inr (Or.inl rfl)
              · exact Or.inr (Or.inr rfl)
            · exact ih e he
        · rw [List.mem_singleton.mp he]
          exact Or.inl rfl

end Traces

end Reiser4.Journal40
