/-
  When the journal traverse ends.

  Both chains of the journal come from the disk, and the traverse remembers none of the blocks it has
  seen.  What a traverse and the check built on it need is `NoLoops`: the chain of transaction headers
  meets no block twice, and neither does the chain of log records of any transaction the traverse gets
  to.  The check also needs an area whose blocks are all in its maps.

    1. `logLoop_returns`, `transLoop_returns`, `txhLoop_returns`   the loops end, with any callbacks
       that return and leave the blocks of the two chains alone;
    2. `checkStruct_returns`   so does the check, whose callback runs other traverses;
    3. `noLoops_of_returns`    a traverse without callbacks ends only then;
    4. `lastJournal_undefined` in a long area the check leaves its maps on a journal without loops;
    5. `journal40Traverse_ends_iff`   together.
-/
import Reiser4.Journal40.Check
import Reiser4.Lib.Links

namespace Reiser4.Journal40

open Reiser4.Lib

/-! ## The two chains -/

/-- The link from a transaction header to the one before it. -/
def prevLink (dev : Device) (nr : Nat) : Option Nat :=
  match dev nr with
  | none => none
  | some d => if d.memeq 0 txhMagic then some (getThPrevTx d) else none

/-- The link from a log record to the next one. -/
def logLink (dev : Device) (nr : Nat) : Option Nat :=
  match dev nr with
  | none => none
  | some d => if d.memeq 0 lgrMagic then some (getLhNextBlock d) else none

/-- The transaction header in a block. -/
def headerBlock (dev : Device) (nr : Nat) : Block := { nr, data := (dev nr).getD Bytes.zero }

/-- The first log record of a transaction. -/
def logStart (dev : Device) (nr : Nat) : Nat := getThNextBlock (headerBlock dev nr).data

/-- `ns` are the unflushed transactions, the newest first. -/
def HeaderChain (j : Journal) (ns : List Nat) : Prop :=
  Chain (prevLink j.device) (getJfLastFlushed j.footer.data) (getJhLastCommited j.header.data) ns

/-- The log records of the transaction lead back to its header. -/
def Closed (dev : Device) (nr : Nat) : Prop := ∃ ls, Chain (logLink dev) nr (logStart dev nr) ls

/-- No chain the traverse follows meets a block twice.  It follows the chain of the headers, and where
    that ends at the last flushed transaction, the chains of the log records, the oldest transaction
    first, up to the first one that does not lead back to its header. -/
structure NoLoops (j : Journal) : Prop where
  headers : NoRepeat (prevLink j.device) (getJfLastFlushed j.footer.data)
    (getJhLastCommited j.header.data)
  logs : ∀ ns, HeaderChain j ns → ∀ older tx newer, ns.reverse = older ++ tx :: newer →
    (∀ t ∈ older, Closed j.device t) → NoRepeat (logLink j.device) tx (logStart j.device tx)

/-- A block on the chain of the transaction headers. -/
def OnChain (j : Journal) (b : Nat) : Prop :=
  ∃ n, walk (prevLink j.device) (getJfLastFlushed j.footer.data) n
    (getJhLastCommited j.header.data) = some b

/-- A block of one of the chains. -/
def Linked (j : Journal) (b : Nat) : Prop :=
  OnChain j b ∨
    ∃ tx, OnChain j tx ∧ ∃ n, walk (logLink j.device) tx n (logStart j.device tx) = some b

/-- The blocks of the chains are as they were. -/
def LinksSame {δ : Type} (j : Journal) (s : JState δ) : Prop :=
  ∀ b, Linked j b → s.journal.device b = j.device b

/-- More links than there are block numbers. -/
def linkFuel : Nat := 18446744073709551618

/-- The traverse ends, with every choice of callbacks that return and leave the chains as they are,
    and so does the check. -/
structure TraversalEnds (aal : AalBits) (area : Area) (layoutFunc : LayoutFunc) (j : Journal) : Prop where
  traverse : ∀ (δ : Type) (txh : Option (TxhFunc δ)) (han : Option (HanFunc δ))
    (sec : Option (SecFunc δ)) (data : δ),
    (∀ f ∈ txh, ∀ nr, Run.Total (LinksSame j) (f nr)) →
    (∀ f ∈ han, ∀ block orig, Run.Total (LinksSame j) (f block orig)) →
    (∀ f ∈ sec, ∀ tx nr ty, Run.Total (LinksSame j) (f tx nr ty)) →
    ∃ fuel, (journal40Traverse fuel txh han sec).run ⟨j, data⟩ ≠ none
  check : ∃ fuel, (journal40CheckStruct aal area layoutFunc fuel).run j ≠ none

theorem prevLink_lt {dev : Device} {a b : Nat} (h : prevLink dev a = some b) :
    b ∈ Finset.range 18446744073709551616 := by
  unfold prevLink at h
  split at h
  · cases h
  · split at h
    · cases h
      exact Finset.mem_range.mpr (Bytes.getLe_lt 8 _ 24)
    · cases h

theorem logLink_lt {dev : Device} {a b : Nat} (h : logLink dev a = some b) :
    b ∈ Finset.range 18446744073709551616 := by
  unfold logLink at h
  split at h
  · cases h
  · split at h
    · cases h
      exact Finset.mem_range.mpr (Bytes.getLe_lt 8 _ 24)
    · cases h

theorem card_lt_linkFuel : (Finset.range 18446744073709551616).card + 1 < linkFuel := by
  rw [Finset.card_range]
  decide

theorem loadBlock_run {δ : Type} (nr : Nat) (s : JState δ) :
    (loadBlock nr).run s = match s.journal.device nr with
      | none => some (.error .eio, s)
      | some d => some (.ok { nr, data := d }, s) := by
  rw [loadBlock, Run.get_bind, aalBlockLoad]
  cases s.journal.device nr <;> rfl

/-! ## The loops end -/

section Returns

variable {δ : Type} {I : JState δ → Prop} {han : Option (HanFunc δ)} {sec : Option (SecFunc δ)}

theorem optCall_total {α : Type} {o : Option α} {g : α → Run (JState δ) Errno Unit}
    (h : ∀ f ∈ o, Run.Total I (g f)) : Run.Total I (optCall (o.map g)) := by
  cases o with
  | none => exact Run.Total.ret ()
  | some f => exact h f rfl

theorem loadBlock_total (nr : Nat) : Run.Total I (loadBlock (δ := δ) nr) := by
  intro s hI
  rw [loadBlock_run]
  cases s.journal.device nr with
  | none => exact ⟨_, s, rfl, hI⟩
  | some d => exact ⟨_, s, rfl, hI⟩

theorem entriesLoop_total {txBlock : Block} {log : Bytes}
    (hhan : ∀ f ∈ han, ∀ block orig, Run.Total I (f block orig))
    (hsec : ∀ f ∈ sec, ∀ nr ty, Run.Total I (f txBlock nr ty)) (n : Nat) :
    ∀ o, Run.Total I (entriesLoop han sec txBlock log n o) := by
  induction n with
  | zero => exact fun _ => Run.Total.ret ()
  | succ n ih =>
    intro o
    rw [entriesLoop]
    split
    · exact Run.Total.ret ()
    · apply Run.Total.bind (optCall_total fun f hf => hsec f hf _ _)
      intro _
      apply Run.Total.bind (optCall_total fun f hf => hsec f hf _ _)
      intro _
      cases han with
      | none => exact ih _
      | some f =>
        apply Run.Total.bind (loadBlock_total _)
        intro wan
        apply Run.Total.bind (hhan f rfl _ _)
        exact fun _ => ih _

/-- The chain of log records is followed to its end. -/
theorem logLoop_returns {j : Journal} (hlinks : ∀ s, I s → LinksSame j s) {txBlock : Block}
    (hhan : ∀ f ∈ han, ∀ block orig, Run.Total I (f block orig))
    (hsec : ∀ f ∈ sec, ∀ nr ty, Run.Total I (f txBlock nr ty)) {fuel n blk : Nat} (hn : n < fuel)
    (hend : walk (logLink j.device) txBlock.nr n blk = none)
    (hlinked : ∀ m b, walk (logLink j.device) txBlock.nr m blk = some b → Linked j b)
    {s : JState δ} (hs : I s) :
    ∃ r s', (logLoop han sec txBlock fuel blk).run s = some (r, s') ∧ I s' ∧
      (r = .ok () → ∃ ls, Chain (logLink j.device) txBlock.nr blk ls) := by
  induction fuel generalizing n blk s with
  | zero => exact absurd hn (Nat.not_lt_zero n)
  | succ fuel ih =>
    rw [logLoop]
    by_cases hblk : blk = txBlock.nr
    · rw [if_pos hblk]
      exact ⟨.ok (), s, rfl, hs, fun _ => ⟨[], hblk⟩⟩
    · rw [if_neg hblk]
      obtain ⟨r, s1, h1, hI1⟩ := optCall_total (o := sec)
        (g := fun f => f txBlock blk .lgr) (fun f hf => hsec f hf _ _) s hs
      cases r with
      | error e =>
        refine ⟨.error e, s1, by rw [Run.run_bind, h1], hI1, ?_⟩
        exact fun h => by cases h
      | ok _ =>
        have hdev : s1.journal.device blk = j.device blk :=
          hlinks s1 hI1 blk (hlinked 0 blk (walk_zero hblk))
        rw [Run.bind_of_ok h1, Run.run_bind, loadBlock_run, hdev]
        cases hd : j.device blk with
        | none => exact ⟨.error .eio, s1, rfl, hI1, fun h => by cases h⟩
        | some d =>
          dsimp only
          by_cases hmagic : d.memeq 0 lgrMagic = true
          · have hnext : logLink j.device blk = some (getLhNextBlock d) := by
              unfold logLink
              rw [hd]
              exact if_pos hmagic
            rw [if_pos hmagic, Run.get_bind]
            obtain ⟨r, s2, h2, hI2⟩ := entriesLoop_total hhan hsec
              (lrCapacity s1.journal.blksize) lrHeaderSize s1 hI1
            cases r with
            | error e =>
              refine ⟨.error e, s2, by rw [Run.run_bind, h2], hI2, ?_⟩
              exact fun h => by cases h
            | ok _ =>
              rw [Run.bind_of_ok h2]
              cases n with
              | zero =>
                rw [walk_zero hblk] at hend
                cases hend
              | succ n =>
                rw [walk_succ hblk hnext] at hend
                obtain ⟨r, s3, h3, hI3, hchain⟩ := ih (Nat.lt_of_succ_lt_succ hn) hend
                  (fun m b hm => hlinked (m + 1) b (by rw [walk_succ hblk hnext, hm])) hI2
                refine ⟨r, s3, h3, hI3, ?_⟩
                intro hok
                obtain ⟨ls, hls⟩ := hchain hok
                exact ⟨blk :: ls, hblk, rfl, _, hnext, hls⟩
          · rw [if_neg hmagic]
            exact ⟨.error .estruct, s1, rfl, hI1, fun h => by cases h⟩

/-- The chain of transaction headers is followed to its end. -/
theorem txhLoop_returns {j : Journal} (hlinks : ∀ s, I s → LinksSame j s) {txh : Option (TxhFunc δ)}
    (htxh : ∀ f ∈ txh, ∀ nr, Run.Total I (f nr)) {fuel n blk : Nat} (hn : n < fuel)
    (hend : walk (prevLink j.device) (getJfLastFlushed j.footer.data) n blk = none)
    (hlinked : ∀ m b, walk (prevLink j.device) (getJfLastFlushed j.footer.data) m blk = some b →
      Linked j b) {s : JState δ} (hs : I s) (txList : List Block) :
    ∃ r s', (txhLoop txh (getJfLastFlushed j.footer.data) fuel blk txList).run s = some (r, s') ∧
      I s' ∧ ∀ l, r = .ok l →
        ∃ ns, Chain (prevLink j.device) (getJfLastFlushed j.footer.data) blk ns ∧
          l = ns.reverse.map (headerBlock j.device) ++ txList := by
  induction fuel generalizing n blk s txList with
  | zero => exact absurd hn (Nat.not_lt_zero n)
  | succ fuel ih =>
    rw [txhLoop]
    by_cases hblk : blk = getJfLastFlushed j.footer.data
    · rw [if_pos hblk]
      refine ⟨.ok txList, s, rfl, hs, ?_⟩
      intro l hl
      cases hl
      exact ⟨[], hblk, rfl⟩
    · rw [if_neg hblk]
      obtain ⟨r, s1, h1, hI1⟩ := optCall_total (o := txh) (g := fun f => f blk)
        (fun f hf => htxh f hf _) s hs
      cases r with
      | error e =>
        refine ⟨.error e, s1, by rw [Run.run_bind, h1], hI1, ?_⟩
        exact fun l hl => by cases hl
      | ok _ =>
        have hdev : s1.journal.device blk = j.device blk :=
          hlinks s1 hI1 blk (hlinked 0 blk (walk_zero hblk))
        rw [Run.bind_of_ok h1, Run.run_bind, loadBlock_run, hdev]
        cases hd : j.device blk with
        | none => exact ⟨.error .eio, s1, rfl, hI1, fun l hl => by cases hl⟩
        | some d =>
          dsimp only
          by_cases hmagic : d.memeq 0 txhMagic = true
          · have hnext : prevLink j.device blk = some (getThPrevTx d) := by
              unfold prevLink
              rw [hd]
              exact if_pos hmagic
            have hheader : headerBlock j.device blk = { nr := blk, data := d } := by
              unfold headerBlock
              rw [hd]
              rfl
            rw [if_pos hmagic]
            cases n with
            | zero =>
              rw [walk_zero hblk] at hend
              cases hend
            | succ n =>
              rw [walk_succ hblk hnext] at hend
              obtain ⟨r, s2, h2, hI2, hchain⟩ := ih (Nat.lt_of_succ_lt_succ hn) hend
                (fun m b hm => hlinked (m + 1) b (by rw [walk_succ hblk hnext, hm])) hI1
                ({ nr := blk, data := d } :: txList)
              refine ⟨r, s2, h2, hI2, ?_⟩
              intro l hl
              obtain ⟨ns, hns, hlist⟩ := hchain l hl
              refine ⟨blk :: ns, ⟨hblk, rfl, _, hnext, hns⟩, ?_⟩
              rw [hlist, List.reverse_cons, List.map_append, List.append_assoc, ← hheader]
              rfl
          · rw [if_neg hmagic]
            exact ⟨.error .estruct, s1, rfl, hI1, fun l hl => by cases hl⟩

/-- A transaction whose chain repeats nothing is followed to its end. -/
theorem traverseTrans_returns {j : Journal} (hlinks : ∀ s, I s → LinksSame j s) {tx : Nat}
    (hhan : ∀ f ∈ han, ∀ block orig, Run.Total I (f block orig))
    (hsec : ∀ f ∈ sec, ∀ nr ty, Run.Total I (f (headerBlock j.device tx) nr ty))
    (hon : OnChain j tx) (hno : NoRepeat (logLink j.device) tx (logStart j.device tx))
    {s : JState δ} (hs : I s) :
    ∃ r s', (journal40TraverseTrans linkFuel (headerBlock j.device tx) han sec).run s =
      some (r, s') ∧ I s' ∧ (r = .ok () → Closed j.device tx) :=
  logLoop_returns hlinks hhan hsec card_lt_linkFuel
    (walk_none_of_noRepeat (fun _ _ => logLink_lt) hno)
    (fun n _ hn => Or.inr ⟨tx, hon, n, hn⟩) hs

/-- The stacked transactions are gone through up to the first one that does not lead back. -/
theorem transLoop_returns {j : Journal} (hlinks : ∀ s, I s → LinksSame j s)
    (hhan : ∀ f ∈ han, ∀ block orig, Run.Total I (f block orig))
    (hsec : ∀ f ∈ sec, ∀ tx, OnChain j tx →
      NoRepeat (logLink j.device) tx (logStart j.device tx) →
      ∀ nr ty, Run.Total I (f (headerBlock j.device tx) nr ty))
    (hloops : NoLoops j) {ns : List Nat} (hchain : HeaderChain j ns) {rest : List Nat} :
    ∀ older : List Nat, ns.reverse = older ++ rest → (∀ t ∈ older, Closed j.device t) →
      Run.Total I (transLoop linkFuel han sec (rest.map (headerBlock j.device))) := by
  induction rest with
  | nil => exact fun _ _ _ => Run.Total.ret ()
  | cons tx rest ih =>
    intro older hsplit hclosed s hs
    have hno := hloops.logs ns hchain older tx rest hsplit hclosed
    have hmem : tx ∈ ns := by
      rw [← List.mem_reverse, hsplit]
      simp
    have hon : OnChain j tx := by
      obtain ⟨m, hm⟩ := List.mem_iff_getElem?.mp hmem
      exact ⟨m, by rw [Chain.walk_eq hchain, hm]⟩
    obtain ⟨r, s1, h1, hI1, hclosed1⟩ :=
      traverseTrans_returns hlinks hhan (fun f hf => hsec f hf tx hon hno) hon hno hs
    rw [List.map_cons, transLoop]
    cases r with
    | error e => exact ⟨.error e, s1, by rw [Run.run_bind, h1], hI1⟩
    | ok _ =>
      rw [Run.bind_of_ok h1]
      refine ih (older ++ [tx]) (by rw [hsplit]; simp) ?_ s1 hI1
      intro t ht
      rcases List.mem_append.mp ht with ht | ht
      · exact hclosed t ht
      · rw [List.mem_singleton.mp ht]
        exact hclosed1 rfl

/-- A traverse whose callbacks return ends. -/
theorem journal40Traverse_total {j : Journal} (hlinks : ∀ s, I s → LinksSame j s)
    {txh : Option (TxhFunc δ)} (htxh : ∀ f ∈ txh, ∀ nr, Run.Total I (f nr))
    (hhan : ∀ f ∈ han, ∀ block orig, Run.Total I (f block orig))
    (hsec : ∀ f ∈ sec, ∀ tx, OnChain j tx →
      NoRepeat (logLink j.device) tx (logStart j.device tx) →
      ∀ nr ty, Run.Total I (f (headerBlock j.device tx) nr ty))
    (hloops : NoLoops j) {s : JState δ} (hjournal : s.journal = j) (hs : I s) :
    ∃ r s', (journal40Traverse linkFuel txh han sec).run s = some (r, s') ∧ I s' := by
  have hend := walk_none_of_noRepeat (fun _ _ => prevLink_lt) hloops.headers
  obtain ⟨r, s1, h1, hI1, hl⟩ := txhLoop_returns hlinks htxh card_lt_linkFuel hend
    (fun m b hm => Or.inl ⟨m, hm⟩) hs []
  rw [journal40Traverse, Run.get_bind, hjournal]
  cases r with
  | error e => exact ⟨.error e, s1, by rw [Run.run_bind, h1], hI1⟩
  | ok l =>
    obtain ⟨ns, hns, rfl⟩ := hl l rfl
    rw [Run.bind_of_ok h1, List.append_nil]
    exact transLoop_returns hlinks hhan hsec hloops hns [] rfl (by simp) s1 hI1

end Returns

/-! ## The check ends -/

section Check

variable {aal : AalBits} {area : Area} {layoutFunc : LayoutFunc} {j : Journal}

/-- The journal is the one the check was called for, and every bit of the two layouts is in its map. -/
structure Checking (j : Journal) (s : JState CheckData) : Prop where
  journal : s.journal = j
  journalLayout : s.data.journalLayout.Sized
  currentLayout : s.data.currentLayout.Sized

theorem Checking.first (j : Journal) (h : (area.len + 7) / 8 < two32) :
    Checking j { journal := j, data := CheckData.initial area } := by
  have hsized : (reiser4BitmapCreate area.len).Sized :=
    ⟨Area.mapSize_of_len h, (Area.mapSize_of_len h).trans_lt h⟩
  exact ⟨rfl, hsized, hsized⟩

theorem testLayout_total {layout : CheckData → Bitmap}
    (hlayout : ∀ s, Checking j s → (layout s.data).Sized) (blk : Nat) :
    Run.Total (Checking j) (testLayout aal layout blk) := by
  intro s hs
  refine ⟨.ok ((layout s.data).has aal blk), s, ?_, hs⟩
  unfold testLayout
  rw [Run.get_bind, test_spec (hlayout s hs)]
  rfl

theorem sized_mark {b : Bitmap} (h : b.Sized) (blk : Nat) :
    ∃ b', reiser4BitmapMark aal b blk = some b' ∧ b'.Sized := by
  obtain ⟨b', hmark, -⟩ := mark_has aal h blk
  obtain ⟨htotal, hsize⟩ := mark_size hmark
  refine ⟨b', hmark, ?_⟩
  unfold Bitmap.Sized
  rw [htotal, hsize]
  exact h

/-- To end is a property that the steps of the callbacks have. -/
theorem checkClosed_total (aal : AalBits) (j : Journal) :
    CheckClosed aal (Checking j) fun _ x => Run.Total (Checking j) x where
  closed := Run.total_closed (Checking j)
  data := fun f hf => Run.Total.modify f fun s hs => by
    obtain ⟨h1, h2, h3⟩ := hf s
    refine ⟨h1.trans hs.journal, ?_, ?_⟩
    · rw [h2]
      exact hs.journalLayout
    · rw [h3]
      exact hs.currentLayout
  start := fun nr => Run.Total.modify _ fun s hs => by
    split
    · exact ⟨hs.journal, hs.journalLayout, hs.currentLayout⟩
    · exact hs
  testJournal := testLayout_total fun _ hs => hs.journalLayout
  testCurrent := testLayout_total fun _ hs => hs.currentLayout
  markJournal := fun blk s hs => by
    obtain ⟨b, hmark, hsized⟩ := @sized_mark aal _ hs.journalLayout blk
    refine ⟨.ok (), { s with data := { s.data with journalLayout := b } }, ?_, hs.journal, hsized, hs.currentLayout⟩
    unfold markJournal
    rw [Run.get_bind, hmark]
    rfl
  markCurrent := fun blk s hs => by
    obtain ⟨b, hmark, hsized⟩ := @sized_mark aal _ hs.currentLayout blk
    refine ⟨.ok (), { s with data := { s.data with currentLayout := b } }, ?_, hs.journal, hs.journalLayout, hsized⟩
    unfold markCurrent
    rw [Run.get_bind, hmark]
    rfl

theorem checking_links (s : JState CheckData) (h : Checking j s) : LinksSame j s := by
  intro b _
  rw [h.journal]

/-- A nested traverse that looks for a block ends. -/
theorem findTraverse_total (hloops : NoLoops j) {txh : Option (TxhFunc CheckData)}
    {sec : Option (SecFunc CheckData)} (htxh : ∀ f ∈ txh, f = cbFindTxhBlk)
    (hsec : ∀ f ∈ sec, f = cbFindSecBlk) :
    Run.Total (Checking j) (journal40Traverse linkFuel txh none sec) := by
  intro s hs
  refine journal40Traverse_total checking_links ?_ (by simp) ?_ hloops hs.journal hs
  · intro f hf nr
    rw [htxh f hf]
    exact cbFindTxhBlk_closed (checkClosed_total AalBits.plain j) nr
  · intro f hf tx _ _ nr ty
    rw [hsec f hf]
    exact cbFindSecBlk_closed (checkClosed_total AalBits.plain j) _ nr ty

/-- The callback ends for a transaction whose own chain does. -/
theorem cbJournalSecCheck_total (hloops : NoLoops j) {tx : Nat} (hon : OnChain j tx)
    (hno : NoRepeat (logLink j.device) tx (logStart j.device tx)) (nr : Nat) (ty : BlockType) :
    Run.Total (Checking j)
      (cbJournalSecCheck aal area layoutFunc linkFuel (headerBlock j.device tx) nr ty) := by
  have htrans : Run.Total (Checking j)
      (journal40TraverseTrans linkFuel (headerBlock j.device tx) none none) := by
    intro s hs
    have hhan : ∀ f ∈ (none : Option (HanFunc CheckData)), ∀ block orig,
        Run.Total (Checking j) (f block orig) := by simp
    have hsec : ∀ f ∈ (none : Option (SecFunc CheckData)), ∀ nr ty,
        Run.Total (Checking j) (f (headerBlock j.device tx) nr ty) := by simp
    obtain ⟨r, s1, h1, hI1, -⟩ := traverseTrans_returns checking_links hhan hsec hon hno hs
    exact ⟨r, s1, h1, hI1⟩
  exact cbJournalSecCheck_closed (checkClosed_total aal j)
    ⟨htrans, fun _ _ htxh hsec => findTraverse_total hloops htxh hsec⟩ nr ty

/-- The check ends where no chain repeats a block and the area is short enough. -/
theorem checkStruct_returns (aal : AalBits) (layoutFunc : LayoutFunc) (hlen : (area.len + 7) / 8 < two32)
    (hloops : NoLoops j) : (journal40CheckStruct aal area layoutFunc linkFuel).run j ≠ none := by
  have htxh : ∀ f ∈ some (cbJournalTxhCheck aal area layoutFunc), ∀ nr,
      Run.Total (Checking j) (f nr) := by
    intro f hf nr
    cases hf
    exact cbJournalTxhCheck_closed (checkClosed_total aal j) nr
  have hhan : ∀ f ∈ (none : Option (HanFunc CheckData)), ∀ block orig,
      Run.Total (Checking j) (f block orig) := by simp
  have hsec : ∀ f ∈ some (cbJournalSecCheck aal area layoutFunc linkFuel), ∀ tx, OnChain j tx →
      NoRepeat (logLink j.device) tx (logStart j.device tx) →
      ∀ nr ty, Run.Total (Checking j) (f (headerBlock j.device tx) nr ty) := by
    intro f hf tx hon hno nr ty
    cases hf
    exact cbJournalSecCheck_total hloops hon hno nr ty
  obtain ⟨r, s, hrun, -⟩ :=
    journal40Traverse_total checking_links htxh hhan hsec hloops rfl (Checking.first j hlen)
  have hcut : ∀ f : JState CheckData → JState CheckData,
      Run.Total (ε := Errno) (fun _ => True) (Run.modify f) :=
    fun f => Run.Total.modify f fun _ _ => trivial
  have hend : Run.Total (fun _ => True) (checkEnd r) := by
    cases r with
    | ok _ => exact Run.Total.ret ()
    | error e =>
      cases e with
      | estruct =>
        apply Run.Total.bind Run.Total.get
        intro s1
        split
        · exact hcut _
        · exact Run.Total.bind (loadBlock_total _) fun _ => hcut _
      | eio | einval | enomem | enospc => exact Run.Total.fail _
  obtain ⟨r2, s2, h2, -⟩ := hend s trivial
  show Option.map _ _ ≠ none
  rw [checkBody, Run.run_bind, Run.run_attempt, hrun]
  simp [h2]

end Check

/-! ## Where a chain repeats a block -/

section Loops

variable {δ : Type}

theorem entriesLoop_none (tx : Block) (log : Bytes) (n : Nat) : ∀ (o : Nat) (s : JState δ),
    (entriesLoop none none tx log n o).run s = some (.ok (), s) := by
  induction n with
  | zero => exact fun _ _ => rfl
  | succ n ih =>
    intro o s
    rw [entriesLoop]
    split
    · rfl
    · exact ih _ s

/-- Without callbacks a transaction is left only when its chain ends; then the state is the same. -/
theorem logLoop_none {tx : Block} {s : JState δ} {fuel : Nat} : ∀ {blk : Nat},
    (logLoop none none tx fuel blk).run s ≠ none →
      walk (logLink s.journal.device) tx.nr fuel blk = none ∧
      ((∃ ls, Chain (logLink s.journal.device) tx.nr blk ls) →
        (logLoop none none tx fuel blk).run s = some (.ok (), s)) := by
  induction fuel with
  | zero => exact fun h => absurd rfl h
  | succ fuel ih =>
    intro blk h
    rw [logLoop] at h ⊢
    by_cases hblk : blk = tx.nr
    · rw [hblk, if_pos rfl, walk_stop]
      exact ⟨rfl, fun _ => rfl⟩
    · rw [if_neg hblk, optCall_none, Run.pure_bind, Run.run_bind, loadBlock_run] at h ⊢
      rw [walk, if_neg hblk]
      cases hd : s.journal.device blk with
      | none =>
        have hno : logLink s.journal.device blk = none := by
          unfold logLink
          rw [hd]
        rw [hno]
        refine ⟨rfl, ?_⟩
        rintro ⟨ls, hls⟩
        obtain ⟨c, -, hc, -⟩ := hls.link hblk
        rw [hno] at hc
        cases hc
      | some d =>
        rw [hd] at h
        dsimp only at h ⊢
        by_cases hmagic : d.memeq 0 lgrMagic = true
        · have hnext : logLink s.journal.device blk = some (getLhNextBlock d) := by
            unfold logLink
            rw [hd]
            exact if_pos hmagic
          rw [if_pos hmagic, Run.get_bind, Run.bind_of_ok (entriesLoop_none _ _ _ _ _)] at h ⊢
          obtain ⟨h1, h2⟩ := ih h
          rw [hnext]
          refine ⟨h1, ?_⟩
          rintro ⟨ls, hls⟩
          obtain ⟨c, ls', hc, -, hls'⟩ := hls.link hblk
          rw [hnext, Option.some.injEq] at hc
          exact h2 ⟨ls', hc ▸ hls'⟩
        · have hno : logLink s.journal.device blk = none := by
            unfold logLink
            rw [hd]
            exact if_neg hmagic
          rw [hno]
          refine ⟨rfl, ?_⟩
          rintro ⟨ls, hls⟩
          obtain ⟨c, -, hc, -⟩ := hls.link hblk
          rw [hno] at hc
          cases hc

/-- The same for the transaction headers; then the headers are stacked. -/
theorem txhLoop_none {lastFlushed : Nat} {s : JState δ} {fuel : Nat} : ∀ {blk : Nat}
    (txList : List Block), (txhLoop none lastFlushed fuel blk txList).run s ≠ none →
      walk (prevLink s.journal.device) lastFlushed fuel blk = none ∧
      ∀ ns, Chain (prevLink s.journal.device) lastFlushed blk ns →
        (txhLoop none lastFlushed fuel blk txList).run s =
          some (.ok (ns.reverse.map (headerBlock s.journal.device) ++ txList), s) := by
  induction fuel with
  | zero => exact fun _ h => absurd rfl h
  | succ fuel ih =>
    intro blk txList h
    rw [txhLoop] at h ⊢
    by_cases hblk : blk = lastFlushed
    · rw [hblk, if_pos rfl, walk_stop]
      refine ⟨rfl, ?_⟩
      intro ns hns
      cases ns with
      | nil => rfl
      | cons b ns => exact absurd rfl hns.1
    · rw [if_neg hblk, optCall_none, Run.pure_bind, Run.run_bind, loadBlock_run] at h ⊢
      rw [walk, if_neg hblk]
      cases hd : s.journal.device blk with
      | none =>
        have hno : prevLink s.journal.device blk = none := by
          unfold prevLink
          rw [hd]
        rw [hno]
        refine ⟨rfl, ?_⟩
        intro ns hns
        obtain ⟨c, -, hc, -⟩ := hns.link hblk
        rw [hno] at hc
        cases hc
      | some d =>
        rw [hd] at h
        dsimp only at h ⊢
        by_cases hmagic : d.memeq 0 txhMagic = true
        · have hnext : prevLink s.journal.device blk = some (getThPrevTx d) := by
            unfold prevLink
            rw [hd]
            exact if_pos hmagic
          have hheader : headerBlock s.journal.device blk = { nr := blk, data := d } := by
            unfold headerBlock
            rw [hd]
            rfl
          rw [if_pos hmagic] at h ⊢
          obtain ⟨h1, h2⟩ := ih _ h
          rw [hnext]
          refine ⟨h1, ?_⟩
          intro ns hns
          obtain ⟨c, ns', hc, rfl, hns'⟩ := hns.link hblk
          rw [hnext, Option.some.injEq] at hc
          rw [h2 ns' (hc ▸ hns'), List.reverse_cons, List.map_append, List.append_assoc, ← hheader]
          rfl
        · have hno : prevLink s.journal.device blk = none := by
            unfold prevLink
            rw [hd]
            exact if_neg hmagic
          rw [hno]
          refine ⟨rfl, ?_⟩
          intro ns hns
          obtain ⟨c, -, hc, -⟩ := hns.link hblk
          rw [hno] at hc
          cases hc

/-- Behind transactions that lead back the next one is gone through. -/
theorem transLoop_none {s : JState δ} {fuel : Nat} {rest : List Block} {older : List Nat}
    (hclosed : ∀ t ∈ older, Closed s.journal.device t)
    (h : (transLoop fuel none none
      (older.map (headerBlock s.journal.device) ++ rest)).run s ≠ none) :
    (transLoop fuel none none rest).run s ≠ none := by
  induction older with
  | nil => exact h
  | cons t older ih =>
    apply ih fun t' ht' => hclosed t' (List.mem_cons_of_mem _ ht')
    intro hnone
    apply h
    rw [List.map_cons, List.cons_append, transLoop, Run.run_bind]
    by_cases hreturns : (journal40TraverseTrans fuel (headerBlock s.journal.device t) none
      none).run s = none
    · rw [hreturns]
    · have hok := (logLoop_none hreturns).2 (hclosed t (by simp))
      rw [journal40TraverseTrans, hok]
      exact hnone

/-- A traverse without callbacks ends only where no chain repeats a block. -/
theorem noLoops_of_returns {j : Journal} {fuel : Nat} {data : δ}
    (h : (journal40Traverse fuel none none none).run ⟨j, data⟩ ≠ none) : NoLoops j := by
  rw [journal40Traverse, Run.get_bind] at h
  dsimp only at h
  have htxh : (txhLoop none (getJfLastFlushed j.footer.data) fuel
      (getJhLastCommited j.header.data) []).run ⟨j, data⟩ ≠ none := by
    intro hnone
    rw [Run.run_bind, hnone] at h
    exact h rfl
  obtain ⟨hends, hlist⟩ := txhLoop_none [] htxh
  refine ⟨noRepeat_of_ends hends, ?_⟩
  intro ns hns older tx newer hsplit hclosed
  rw [Run.bind_of_ok (hlist ns hns), List.append_nil, hsplit, List.map_append] at h
  have htx := transLoop_none hclosed h
  rw [List.map_cons, transLoop] at htx
  have hlog : (journal40TraverseTrans fuel (headerBlock j.device tx) none none).run
      ⟨j, data⟩ ≠ none := by
    intro hnone
    rw [Run.run_bind, hnone] at htx
    exact htx rfl
  exact noRepeat_of_ends (logLoop_none hlog).1

end Loops

/-! ## A long area -/

section Long

variable {aal : AalBits} {area : Area} {layoutFunc : LayoutFunc}

/-- The last block of the area has a block number, and is not one of the format. -/
structure Area.LastFree (area : Area) (layoutFunc : LayoutFunc) : Prop where
  pos : area.start < area.len
  number : area.len ≤ 18446744073709551616
  free : layoutFunc (cbCheckFormatBlock (area.len - 1)) = false

/-- A journal whose newest transaction is in the last block of the area; nothing can be read. -/
def lastJournal (area : Area) : Journal where
  blksize := 512
  state := 0
  device := fun _ => none
  format := { freeBlocks := 1, state := 0 }
  oid := { next := 2, used := 3, state := 0 }
  header := { nr := 18, data := setJhLastCommited Bytes.zero (area.len - 1) }
  footer := { nr := 19, data := Bytes.zero }

theorem lastJournal_flushed (area : Area) : getJfLastFlushed (lastJournal area).footer.data = 0 :=
  (Bytes.getLe_digits 8 Bytes.zero 0 0 fun i _ => by simp [Bytes.zero]).trans (Nat.zero_mod _)

theorem lastJournal_commited (h : area.LastFree layoutFunc) :
    getJhLastCommited (lastJournal area).header.data = area.len - 1 := by
  have hnumber := h.number
  have hpos := h.pos
  exact Bytes.getLe_setLe_of_lt 8 Bytes.zero 0 (area.len - 1) (by omega)

theorem lastJournal_noLoops (area : Area) : NoLoops (lastJournal area) := by
  have hlink : ∀ b, prevLink (lastJournal area).device b = none := fun _ => rfl
  refine ⟨?_, fun ns hns older tx newer hsplit _ => ?_⟩
  · -- The walk has no second block.
    have hends : walk (prevLink (lastJournal area).device) (getJfLastFlushed (lastJournal area).footer.data) 1
        (getJhLastCommited (lastJournal area).header.data) = none := by
      rw [walk, hlink]
      split <;> rfl
    exact noRepeat_of_ends hends
  · cases ns with
    | nil => simp at hsplit
    | cons n ns =>
      obtain ⟨-, -, c, hc, -⟩ := hns
      rw [hlink] at hc
      cases hc

/-- The check tests a bit that is not in its map. -/
theorem lastJournal_undefined (h : area.LastFree layoutFunc) (hlen : two32 ≤ (area.len + 7) / 8) (fuel : Nat) :
    (journal40CheckStruct aal area layoutFunc fuel).run (lastJournal area) = none := by
  have hpos := h.pos
  have hlt : area.len - 1 < area.len := by omega
  have hne : area.len - 1 ≠ 0 := by
    unfold two32 at hlen
    omega
  have htest : reiser4BitmapTest aal (reiser4BitmapCreate area.len) (area.len - 1) = none :=
    Layout.created.test_none hlt (Area.last_unmapped hlen)
  have hformat : journal40BlkFormatCheck area layoutFunc (area.len - 1) (1 <<< tfDataAreaOnly) = false := by
    unfold journal40BlkFormatCheck
    rw [if_neg (by omega), if_neg (by decide)]
    exact h.free
  have hlook : ∀ flags, (testLayout aal CheckData.journalLayout (area.len - 1)).run
      { journal := lastJournal area, data := { CheckData.initial area with flags } } = none := by
    intro flags
    rw [testLayout, Run.get_bind]
    show (Run.lift (reiser4BitmapTest aal (reiser4BitmapCreate area.len) (area.len - 1))).run _ = none
    rw [htest, Run.lift_none]
  have hcall : (cbJournalTxhCheck aal area layoutFunc (area.len - 1)).run
      { journal := lastJournal area, data := CheckData.initial area } = none := by
    rw [cbJournalTxhCheck, Run.modify_bind, Run.get_bind]
    dsimp only
    rw [hformat, if_neg (by decide), Run.run_bind, hlook]
  have hloop : (journal40Traverse fuel (some (cbJournalTxhCheck aal area layoutFunc)) none
      (some (cbJournalSecCheck aal area layoutFunc fuel))).run
      { journal := lastJournal area, data := CheckData.initial area } = none := by
    rw [journal40Traverse, Run.get_bind]
    dsimp only
    rw [lastJournal_flushed, lastJournal_commited h, Run.run_bind]
    cases fuel with
    | zero => rfl
    | succ fuel =>
      have hfirst : (optCall ((some (cbJournalTxhCheck aal area layoutFunc)).map fun f => f (area.len - 1))).run
          { journal := lastJournal area, data := CheckData.initial area } = none := hcall
      rw [txhLoop, if_neg hne, Run.run_bind, hfirst]
  show Option.map _ ((checkBody aal area layoutFunc fuel).run _) = none
  rw [checkBody, Run.run_bind, Run.run_attempt, hloop]
  rfl

end Long

/-- **The traverse and the check end if and only if** no chain they follow repeats a block, where every block of the
    area is in the maps of the check.  In a longer area the check leaves its maps on some journal without loops. -/
theorem journal40Traverse_ends_iff (aal : AalBits) (area : Area) (layoutFunc : LayoutFunc) :
    ((area.len + 7) / 8 < two32 → ∀ j, TraversalEnds aal area layoutFunc j ↔ NoLoops j) ∧
    (∀ j, TraversalEnds aal area layoutFunc j → NoLoops j) ∧
    (area.LastFree layoutFunc → (∀ j, NoLoops j → TraversalEnds aal area layoutFunc j) →
      (area.len + 7) / 8 < two32) := by
  have hnecessary : ∀ j, TraversalEnds aal area layoutFunc j → NoLoops j := by
    intro j h
    obtain ⟨fuel, hfuel⟩ := h.traverse Unit none none none () (by simp) (by simp) (by simp)
    exact noLoops_of_returns hfuel
  refine ⟨fun hlen j => ⟨hnecessary j, fun h => ?_⟩, hnecessary, fun hlast hall => ?_⟩
  · refine ⟨?_, linkFuel, checkStruct_returns aal layoutFunc hlen h⟩
    intro δ txh han sec data htxh hhan hsec
    obtain ⟨r, s, hrun, -⟩ := journal40Traverse_total (fun _ hs => hs) htxh hhan
      (fun f hf tx _ _ => hsec f hf _) h rfl (show LinksSame j ⟨j, data⟩ from fun _ _ => rfl)
    refine ⟨linkFuel, ?_⟩
    rw [hrun]
    exact Option.some_ne_none _
  · by_contra hlen
    obtain ⟨fuel, hfuel⟩ := (hall _ (lastJournal_noLoops area)).check
    exact hfuel (lastJournal_undefined hlast (Nat.le_of_not_lt hlen) fuel)

/-- A journal whose newest transaction names itself as the one before it. -/
def loopJournal : Journal where
  blksize := 512
  state := 0
  device := fun nr =>
    if nr = 20 then some ((Bytes.putStr Bytes.zero 0 txhMagic).setLe 8 24 20) else none
  format := { freeBlocks := 1, state := 0 }
  oid := { next := 2, used := 3, state := 0 }
  header := { nr := 18, data := setJhLastCommited Bytes.zero 20 }
  footer := { nr := 19, data := Bytes.zero }

/-- Its traverse never ends. -/
theorem journal40Traverse_loops : ¬TraversalEnds AalBits.plain ⟨16, 100⟩ (fun _ => false) loopJournal := by
  intro h
  obtain ⟨fuel, hfuel⟩ := h.traverse Unit none none none () (by simp) (by simp) (by simp)
  have hno := (noLoops_of_returns hfuel).headers
  have hlink : prevLink loopJournal.device 20 = some 20 := by decide +kernel
  have hlast : getJfLastFlushed loopJournal.footer.data = 0 := by decide +kernel
  have hfirst : getJhLastCommited loopJournal.header.data = 20 := by decide +kernel
  rw [hlast, hfirst] at hno
  have h1 : walk (prevLink loopJournal.device) 0 1 20 = some 20 := by
    rw [walk_succ (by decide) hlink, walk_zero (by decide)]
  exact absurd (hno 0 1 20 (walk_zero (by decide)) h1) (by decide)

end Reiser4.Journal40
