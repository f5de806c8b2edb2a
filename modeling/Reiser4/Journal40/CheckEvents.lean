/-
  The events the check sees.

  The check goes through the transactions from the oldest one, so when it stops at a transaction, the
  older ones have passed, and the transaction it blames is the current one or an older one.

    1. `findSec_trans`, `findTxh_headers`   what the nested traverses find;
    2. `secCheck_spec`     one event: it passes if and only if it is `EventOk`, else the current
       transaction or an older one is blamed;
    3. `transCheck_spec`   so for the events of one transaction;
    4. `transChecks_spec`  so for all transactions, up to the first one that does not pass.
-/
import Reiser4.Journal40.Trace

namespace Reiser4.Journal40

open Reiser4.Lib

/-! ## The nested traverses -/

section Find

variable {j : Journal}

theorem cbFindSec_keeps : ∀ f ∈ some cbFindSecBlk, ∀ tx nr ty,
    Run.Keeps (fun s => s.journal = j) (f tx nr ty) := by
  intro f hf tx nr ty
  cases hf
  exact cbFindSecBlk_keeps tx nr ty

theorem cbFindTxh_keeps : ∀ f ∈ some cbFindTxhBlk, ∀ nr,
    Run.Keeps (fun s => s.journal = j) (f nr) := by
  intro f hf nr
  cases hf
  exact cbFindTxhBlk_keeps nr

theorem none_sec_keeps : ∀ f ∈ (none : Option (SecFunc CheckData)), ∀ tx nr ty,
    Run.Keeps (fun s => s.journal = j) (f tx nr ty) := fun f hf => by cases hf

theorem none_txh_keeps : ∀ f ∈ (none : Option (TxhFunc CheckData)), ∀ nr,
    Run.Keeps (fun s => s.journal = j) (f nr) := fun f hf => by cases hf

/-- A traverse of a journal whose header chain is known. -/
theorem traverse_trace {txh : Option (TxhFunc CheckData)} {sec : Option (SecFunc CheckData)}
    (htxh : ∀ f ∈ txh, ∀ nr, Run.Keeps (fun s => s.journal = j) (f nr))
    (hsec : ∀ f ∈ sec, ∀ tx nr ty, Run.Keeps (fun s => s.journal = j) (f tx nr ty))
    {ns : List Nat} {fuel : Nat} (hchain : HeaderChain j ns) (hlen : ns.length < fuel)
    {s : JState CheckData} (hs : s.journal = j) :
    (journal40Traverse fuel txh none sec).run s = (do
      Run.forEach (txhCall txh) ns
      Run.forEach (transRun j fuel sec) ns.reverse).run s := by
  rw [journal40Traverse, Run.get_bind, hs, Run.run_bind, txhLoop_chain htxh [] hchain hlen hs,
    ← Run.run_bind, Run.bind_assoc_run]
  apply Run.bind_congr
  intro _ s1 h1
  have hs1 : s1.journal = j :=
    Run.Keeps.forEach (fun nr => optCall_keeps _ _ fun f hf => htxh f hf nr) ns s _ s1 hs h1
  rw [Run.pure_bind, List.append_nil]
  exact transLoop_trace hsec fuel ns.reverse s1 hs1

/-- Looking for a block in a transaction. -/
theorem findSec_events (tx : Block) : ∀ (evs : List Event) (s : JState CheckData),
    (s.data.wantedBlk ∉ blocksOf evs →
      (Run.forEach (secCall (some cbFindSecBlk) tx) evs).run s = some (.ok (), s)) ∧
    (s.data.wantedBlk ∈ blocksOf evs → ∃ ty,
      (Run.forEach (secCall (some cbFindSecBlk) tx) evs).run s = some (.error .estruct,
        { s with data := { s.data with wantedBlk := tx.nr, foundType := ty } }))
  | [], s => ⟨fun _ => rfl, fun h => by cases h⟩
  | e :: evs, s => by
    have hcall : (secCall (some cbFindSecBlk) tx e).run s =
        if s.data.wantedBlk = e.1 then some (.error .estruct,
          { s with data := { s.data with wantedBlk := tx.nr, foundType := e.2 } })
        else some (.ok (), s) := by
      show (cbFindSecBlk tx e.1 e.2).run s = _
      unfold cbFindSecBlk
      rw [Run.get_bind]
      split <;> rfl
    obtain ⟨h1, h2⟩ := findSec_events tx evs s
    rw [Run.forEach, Run.run_bind, hcall]
    by_cases hw : s.data.wantedBlk = e.1
    · rw [if_pos hw]
      refine ⟨fun hno => absurd ?_ hno, fun _ => ⟨e.2, rfl⟩⟩
      rw [hw]
      exact List.mem_cons_self
    · rw [if_neg hw]
      refine ⟨fun hno => h1 fun hmem => hno (List.mem_cons_of_mem _ hmem), ?_⟩
      intro hmem
      rcases List.mem_cons.mp hmem with heq | hmem
      · exact absurd heq hw
      · exact h2 hmem

/-- Looking for a block in the transactions up to one that has it: it is found. -/
theorem findSec_trans {fuel nr : Nat} (post : List Nat) {s : JState CheckData}
    (hnr : s.data.wantedBlk ∈ blocksOf (txTrace j fuel nr).1) :
    ∀ {pre : List Nat}, (∀ t ∈ pre, (txTrace j fuel t).2 = .closed) →
      ∃ t ∈ pre ++ [nr], ∃ ty,
        (Run.forEach (transRun j fuel (some cbFindSecBlk)) (pre ++ nr :: post)).run s =
          some (.error .estruct, { s with data := { s.data with wantedBlk := t, foundType := ty } })
  | [], _ => by
    obtain ⟨ty, hty⟩ := (findSec_events (headerBlock j.device nr) _ s).2 hnr
    refine ⟨nr, by simp, ty, ?_⟩
    rw [List.nil_append, Run.forEach, Run.run_bind, transRun, Run.run_bind, hty]
    rfl
  | t :: pre, hclosed => by
    obtain ⟨h1, h2⟩ := findSec_events (headerBlock j.device t) (txTrace j fuel t).1 s
    by_cases hw : s.data.wantedBlk ∈ blocksOf (txTrace j fuel t).1
    · obtain ⟨ty, hty⟩ := h2 hw
      refine ⟨t, by simp, ty, ?_⟩
      rw [List.cons_append, Run.forEach, Run.run_bind, transRun, Run.run_bind, hty]
      rfl
    · obtain ⟨u, hu, ty, hty⟩ := findSec_trans post hnr
        (fun t' ht' => hclosed t' (List.mem_cons_of_mem _ ht'))
      refine ⟨u, List.mem_cons_of_mem _ hu, ty, ?_⟩
      have hrun : (transRun j fuel (some cbFindSecBlk) t).run s = some (.ok (), s) := by
        rw [transRun, Run.bind_of_ok (h1 hw), hclosed t (by simp)]
        rfl
      rw [List.cons_append, Run.forEach, Run.bind_of_ok hrun, hty]

/-- Looking for a block among the headers. -/
theorem findTxh_headers : ∀ (ns : List Nat) (s : JState CheckData),
    s.data.flags.testBit tfSameTxhBreak = false →
    (Run.forEach (txhCall (some cbFindTxhBlk)) ns).run s =
      if s.data.wantedBlk ∈ ns then
        some (.error .estruct, { s with data := { s.data with foundType := .txh } })
      else some (.ok (), s)
  | [], s, _ => rfl
  | n :: ns, s, hflags => by
    have hcall : (txhCall (some cbFindTxhBlk) n).run s =
        if s.data.wantedBlk = n then
          some (.error .estruct, { s with data := { s.data with foundType := .txh } })
        else some (.ok (), s) := by
      show (cbFindTxhBlk n).run s = _
      unfold cbFindTxhBlk
      rw [Run.get_bind, hflags]
      split
      · rfl
      · rw [if_neg (fun h => Bool.false_ne_true h.2)]
        rfl
    rw [Run.forEach, Run.run_bind, hcall]
    by_cases hw : s.data.wantedBlk = n
    · rw [if_pos hw, if_pos (by rw [hw]; exact List.mem_cons_self)]
    · rw [if_neg hw]
      dsimp only
      rw [findTxh_headers ns s hflags]
      by_cases hmem : s.data.wantedBlk ∈ ns
      · rw [if_pos hmem, if_pos (List.mem_cons_of_mem _ hmem)]
      · rw [if_neg hmem, if_neg (fun h => (List.mem_cons.mp h).elim hw hmem)]

/-- Looking for a block among the headers down to the current one. -/
theorem findTxh_current (older : List Nat) : ∀ (newer : List Nat) (s : JState CheckData),
    s.data.flags.testBit tfSameTxhBreak = true → s.data.curTxh ∉ newer →
    (Run.forEach (txhCall (some cbFindTxhBlk)) (newer ++ s.data.curTxh :: older)).run s =
      some (.error .estruct, { s with data := { s.data with
        foundType := if s.data.wantedBlk ∈ newer ++ [s.data.curTxh] then .txh else .inv } })
  | newer, s, hflags, hcur => by
    have hcall : ∀ n, (txhCall (some cbFindTxhBlk) n).run s =
        if s.data.wantedBlk = n then
          some (.error .estruct, { s with data := { s.data with foundType := .txh } })
        else if s.data.curTxh = n then
          some (.error .estruct, { s with data := { s.data with foundType := .inv } })
        else some (.ok (), s) := by
      intro n
      show (cbFindTxhBlk n).run s = _
      unfold cbFindTxhBlk
      rw [Run.get_bind, hflags]
      split
      · rfl
      · by_cases hcur : s.data.curTxh = n
        · rw [if_pos ⟨hcur, rfl⟩, if_pos hcur]
          rfl
        · rw [if_neg (fun h => hcur h.1), if_neg hcur]
          rfl
    induction newer with
    | nil =>
      rw [List.nil_append, List.nil_append, Run.forEach, Run.run_bind, hcall]
      by_cases hw : s.data.wantedBlk = s.data.curTxh
      · rw [if_pos hw, if_pos (by rw [hw]; exact List.mem_cons_self)]
      · rw [if_neg hw, if_pos rfl, if_neg (by simpa using hw)]
    | cons n newer ih =>
      rw [List.cons_append, List.cons_append, Run.forEach, Run.run_bind, hcall]
      by_cases hw : s.data.wantedBlk = n
      · rw [if_pos hw, if_pos (by rw [hw]; exact List.mem_cons_self)]
      · have hne : s.data.curTxh ≠ n := fun h => hcur (by rw [h]; exact List.mem_cons_self)
        rw [if_neg hw, if_neg hne]
        dsimp only
        rw [ih fun h => hcur (List.mem_cons_of_mem _ h)]
        have hiff : s.data.wantedBlk ∈ newer ++ [s.data.curTxh] ↔
            s.data.wantedBlk ∈ n :: (newer ++ [s.data.curTxh]) := by simp [hw]
        simp only [hiff]

end Find

/-! ## One event -/

/-- The event keeps the rules, in transaction `nr` of the journal `older ++ nr :: newer`, behind the
    events `seen`. -/
structure EventOk (j : Journal) (area : Area) (layoutFunc : LayoutFunc) (fuel : Nat)
    (older : List Nat) (nr : Nat) (newer : List Nat) (seen : List Event) (e : Event) : Prop where
  bounds : area.start ≤ e.1 ∧ e.1 < area.len
  maps : area.Maps e.1
  format : e.2 ≠ .org → layoutFunc (cbCheckFormatBlock e.1) = false
  record : e.2 = .lgr → ∃ d, j.device e.1 = some d ∧ d.memeq 0 lgrMagic = true
  once : e.1 ∉ blocksOf seen
  fresh : e.2 ≠ .org → e.1 ∉ older ++ nr :: newer ∧
    ∀ t ∈ older, e.1 ∉ blocksOf (txTrace j fuel t).1
  original : e.2 = .org → e.1 ∉ nr :: newer

/-- Transaction `nr` is the one the check has come to: the older ones have passed. -/
structure Place (j : Journal) (fuel : Nat) (older : List Nat) (nr : Nat) (newer : List Nat) :
    Prop where
  chain : HeaderChain j (older ++ nr :: newer).reverse
  length : (older ++ nr :: newer).length < fuel
  closed : ∀ t ∈ older, (txTrace j fuel t).2 = .closed

/-- The state of the check behind the events `seen` of transaction `nr`. -/
structure At (aal : AalBits) (area : Area) (j : Journal) (fuel : Nat) (older : List Nat) (nr : Nat)
    (newer : List Nat) (seen : List Event) (s : JState CheckData) : Prop where
  journal : s.journal = j
  layout : Layout aal area (fun b => b ∈ older ++ nr :: newer ∨
    (∃ t ∈ older, b ∈ blocksOf (txTrace j fuel t).1) ∨ b ∈ blocksOf seen) s.data.journalLayout
  current : Layout aal area (fun b => b ∈ blocksOf seen) s.data.currentLayout
  cur : s.data.curTxh = nr

/-- The state between two events, `seen` being those of transaction `nr`: when these are none, the
    check may not have noticed the transaction yet. -/
structure Ready (aal : AalBits) (area : Area) (j : Journal) (fuel : Nat) (older : List Nat) (nr : Nat)
    (newer : List Nat) (seen : List Event) (s : JState CheckData) : Prop where
  journal : s.journal = j
  layout : Layout aal area (fun b => b ∈ older ++ nr :: newer ∨
    (∃ t ∈ older, b ∈ blocksOf (txTrace j fuel t).1) ∨ b ∈ blocksOf seen) s.data.journalLayout
  fits : ∃ marked, Layout aal area marked s.data.currentLayout
  current : s.data.curTxh = nr → Layout aal area (fun b => b ∈ blocksOf seen) s.data.currentLayout
  started : seen ≠ [] → s.data.curTxh = nr
  known : s.data.curTxh ∈ older ++ [nr] ∨
    (s.data.curTxh = 0 ∧ Layout aal area (fun _ => False) s.data.currentLayout)

section Event

variable {aal : AalBits} {j : Journal} {area : Area} {layoutFunc : LayoutFunc} {fuel nr : Nat}
  {older newer : List Nat} {seen : List Event} {s s' : JState CheckData} {r : Except Errno Unit}

theorem Place.nodup (h : Place j fuel older nr newer) : (older ++ nr :: newer).Nodup :=
  List.nodup_reverse.mp (Chain.nodup h.chain)

/-- The headers, the newest first. -/
theorem Place.reverse_eq (older : List Nat) (nr : Nat) (newer : List Nat) :
    (older ++ nr :: newer).reverse = newer.reverse ++ nr :: older.reverse := by simp

/-- The traverse that looks for a block that is in the trace of the current transaction, or in an older
    one, finds it. -/
theorem findSec_traverse (h : Place j fuel older nr newer) (hs : s.journal = j)
    (hmem : s.data.wantedBlk ∈ blocksOf (txTrace j fuel nr).1) :
    ∃ t ∈ older ++ [nr], ∃ ty, (journal40Traverse fuel none none (some cbFindSecBlk)).run s =
      some (.error .estruct,
        { s with data := { s.data with wantedBlk := t, foundType := ty } }) := by
  obtain ⟨t, ht, ty, hrun⟩ := findSec_trans newer hmem h.closed
  refine ⟨t, ht, ty, ?_⟩
  have hheaders : ∀ (ns : List Nat) (s1 : JState CheckData),
      (Run.forEach (txhCall none) ns).run s1 = some (.ok (), s1) := by
    intro ns
    induction ns with
    | nil => exact fun _ => rfl
    | cons n ns ih => exact fun s1 => ih s1
  rw [traverse_trace none_txh_keeps cbFindSec_keeps h.chain (by rw [List.length_reverse]; exact h.length) hs,
    Run.bind_of_ok (hheaders _ s), List.reverse_reverse]
  exact hrun

theorem mem_blocksOf_snoc {b : Nat} {e : Event} :
    b ∈ blocksOf (seen ++ [e]) ↔ b ∈ blocksOf seen ∨ b = e.1 := by
  unfold blocksOf
  simp

/-- A test of a layout, for a block of the area in its map. -/
theorem testLayout_run {layout : CheckData → Bitmap} {marked : Nat → Prop}
    (h : Layout aal area marked (layout s.data)) {blk : Nat} (hlt : blk < area.len) (hmap : area.Maps blk) :
    (testLayout aal layout blk).run s = some (.ok ((layout s.data).has aal blk), s) := by
  unfold testLayout
  rw [Run.get_bind, h.test hlt hmap]
  rfl

/-- A block that is not in the map. -/
theorem testLayout_none {layout : CheckData → Bitmap} {marked : Nat → Prop}
    (h : Layout aal area marked (layout s.data)) {blk : Nat} (hlt : blk < area.len) (hmap : ¬area.Maps blk) :
    (testLayout aal layout blk).run s = none := by
  unfold testLayout
  rw [Run.get_bind, h.test_none hlt hmap]
  rfl

theorem markJournal_run {marked : Nat → Prop} (h : Layout aal area marked s.data.journalLayout) {blk : Nat}
    (hlt : blk < area.len) (hmap : area.Maps blk) : ∃ b,
      (markJournal aal blk).run s = some (.ok (), { s with data := { s.data with journalLayout := b } }) ∧
      Layout aal area (fun i => i = blk ∨ marked i) b := by
  obtain ⟨b, hmark, hb⟩ := h.mark hlt hmap
  refine ⟨b, ?_, hb⟩
  unfold markJournal
  rw [Run.get_bind, hmark]
  rfl

theorem markMet_at (h : At aal area j fuel older nr newer seen s) (e : Event) (hlt : e.1 < area.len)
    (hmap : area.Maps e.1) : ∃ s', (markMet aal e.1).run s = some (.ok (), s') ∧
      At aal area j fuel older nr newer (seen ++ [e]) s' := by
  obtain ⟨b1, hrun1, hb1⟩ := markJournal_run h.layout hlt hmap
  obtain ⟨b2, hmark2, hb2⟩ := h.current.mark hlt hmap
  refine ⟨{ s with data := { s.data with journalLayout := b1, currentLayout := b2 } }, ?_, h.journal,
    hb1.congr fun b => ?_, hb2.congr fun b => ?_, h.cur⟩
  · unfold markMet markCurrent
    rw [Run.bind_of_ok hrun1, Run.get_bind, hmark2]
    rfl
  · rw [mem_blocksOf_snoc, or_comm, or_assoc, or_assoc]
  · rw [mem_blocksOf_snoc, or_comm]

/-- A log record met in another transaction: the journal is cut, or the check fails. -/
theorem lgrConflict_spec (h : Place j fuel older nr newer) (hat : At aal area j fuel older nr newer seen s)
    {blk : Nat} (hblk : blk ∈ blocksOf (txTrace j fuel nr).1)
    (hrun : (lgrConflict fuel (headerBlock j.device nr) blk).run s = some (r, s')) :
    r ≠ .ok () ∧ (r = .error .estruct → s'.journal = j ∧ s'.data.curTxh ∈ older ++ [nr]) := by
  have htrans : (journal40TraverseTrans fuel (headerBlock j.device nr) none none).run s =
      (txTrace j fuel nr).2.run.run s := by
    have hcalls : ∀ (evs : List Event) (s1 : JState CheckData),
        (Run.forEach (secCall none (headerBlock j.device nr)) evs).run s1 = some (.ok (), s1) := by
      intro evs
      induction evs with
      | nil => exact fun _ => rfl
      | cons e evs ih => exact fun s1 => ih s1
    rw [journal40TraverseTrans, logLoop_trace none_sec_keeps _ _ _ _ hat.journal,
      Run.bind_of_ok (hcalls _ s)]
    rfl
  unfold lgrConflict at hrun
  rw [Run.run_bind, Run.run_attempt, htrans] at hrun
  have hhere : s.journal = j ∧ s.data.curTxh ∈ older ++ [nr] := ⟨hat.journal, by rw [hat.cur]; simp⟩
  cases hfin : (txTrace j fuel nr).2 with
  | going =>
    rw [hfin] at hrun
    cases hrun
  | unread =>
    rw [hfin] at hrun
    cases hrun
    exact ⟨by simp, by simp⟩
  | broken =>
    rw [hfin] at hrun
    cases hrun
    exact ⟨by simp, fun _ => hhere⟩
  | closed =>
    rw [hfin] at hrun
    obtain ⟨s1, hs1⟩ : ∃ s1 : JState CheckData,
      s1 = { s with data := { s.data with wantedBlk := blk } } := ⟨_, rfl⟩
    obtain ⟨t, ht, ty, hfind⟩ := findSec_traverse h (s := s1) (by rw [hs1]; exact hat.journal)
      (by rw [hs1]; exact hblk)
    change ((journal40Traverse fuel none none (some cbFindSecBlk)).attempt >>= _).run _ = _ at hrun
    subst hs1
    rw [Run.run_bind, Run.run_attempt] at hrun
    dsimp only at hrun hfind
    rw [hfind] at hrun
    cases hrun
    exact ⟨by simp, fun _ => ⟨hat.journal, ht⟩⟩

/-- A wandered block met in another transaction: the journal is cut. -/
theorem wanConflict_spec (h : Place j fuel older nr newer) (hat : At aal area j fuel older nr newer seen s)
    {blk : Nat} (hblk : blk ∈ blocksOf (txTrace j fuel nr).1)
    (hrun : (wanConflict fuel blk).run s = some (r, s')) :
    r = .error .estruct ∧ s'.journal = j ∧ s'.data.curTxh ∈ older ++ [nr] := by
  obtain ⟨s1, hs1⟩ : ∃ s1 : JState CheckData,
    s1 = { s with data := { s.data with wantedBlk := blk, flags := 0 } } := ⟨_, rfl⟩
  have hwanted : s1.data.wantedBlk = blk := by rw [hs1]
  have hjournal : s1.journal = j := by rw [hs1]; exact hat.journal
  have hcur : s1.data.curTxh = nr := by rw [hs1]; exact hat.cur
  have hhere : s1.data.curTxh ∈ older ++ [nr] := by rw [hcur]; simp
  have hflags : s1.data.flags.testBit tfSameTxhBreak = false := by
    rw [hs1]
    show Nat.testBit 0 tfSameTxhBreak = false
    decide
  unfold wanConflict at hrun
  rw [Run.modify_bind, ← hs1, Run.run_bind, Run.run_attempt, traverse_trace cbFindTxh_keeps
    cbFindSec_keeps h.chain (by rw [List.length_reverse]; exact h.length) hjournal, Run.run_bind,
    findTxh_headers _ s1 hflags] at hrun
  by_cases hheader : s1.data.wantedBlk ∈ (older ++ nr :: newer).reverse
  · -- The block is a header: the current transaction is the problem.
    rw [if_pos hheader] at hrun
    cases hrun
    exact ⟨rfl, hjournal, hhere⟩
  · rw [if_neg hheader, List.reverse_reverse] at hrun
    obtain ⟨t, ht, ty, hfind⟩ := findSec_trans newer (s := s1)
      (by rw [hwanted]; exact hblk) h.closed
    dsimp only at hrun
    rw [hfind] at hrun
    change (Run.get >>= _).run _ = _ at hrun
    rw [Run.get_bind] at hrun
    dsimp only at hrun
    by_cases hty : ty = .wan ∨ ty = .org
    · rw [if_pos hty] at hrun
      cases hrun
      exact ⟨rfl, hjournal, ht⟩
    · rw [if_neg hty] at hrun
      cases hrun
      exact ⟨rfl, hjournal, hhere⟩

/-- An original location met in another transaction: it passes unless it is the header of the current
    or of a newer one. -/
theorem orgConflict_spec (h : Place j fuel older nr newer) (hat : At aal area j fuel older nr newer seen s)
    {blk : Nat} (hlt : blk < area.len) (hmap : area.Maps blk) :
    (blk ∈ nr :: newer → ∃ s', (orgConflict aal fuel blk).run s = some (.error .estruct, s') ∧
      s'.journal = j ∧ s'.data.curTxh = nr) ∧
    (blk ∉ nr :: newer → ∃ s', (orgConflict aal fuel blk).run s = some (.ok (), s') ∧
      At aal area j fuel older nr newer (seen ++ [(blk, .org)]) s') := by
  obtain ⟨s1, hs1⟩ : ∃ s1 : JState CheckData, s1 = { s with
    data := { s.data with wantedBlk := blk, flags := 1 <<< tfSameTxhBreak } } := ⟨_, rfl⟩
  have hwanted : s1.data.wantedBlk = blk := by rw [hs1]
  have hjournal : s1.journal = j := by rw [hs1]; exact hat.journal
  have hcur : s1.data.curTxh = nr := by rw [hs1]; exact hat.cur
  have hflags : s1.data.flags.testBit tfSameTxhBreak = true := by
    rw [hs1]
    show Nat.testBit (1 <<< tfSameTxhBreak) tfSameTxhBreak = true
    decide
  have hnodup := h.nodup
  have hnot : s1.data.curTxh ∉ newer.reverse := by
    rw [hcur, List.mem_reverse]
    exact (List.nodup_cons.mp (List.nodup_append.mp hnodup).2.1).1
  have hfind := findTxh_current older.reverse newer.reverse s1 hflags hnot
  rw [hcur, ← Place.reverse_eq] at hfind
  have hmem : s1.data.wantedBlk ∈ newer.reverse ++ [nr] ↔ blk ∈ nr :: newer := by
    rw [hwanted, List.mem_append, List.mem_reverse, List.mem_singleton, List.mem_cons, or_comm]
  have hrun : ∀ ft : BlockType,
      (if s1.data.wantedBlk ∈ newer.reverse ++ [nr] then BlockType.txh else .inv) = ft →
      (orgConflict aal fuel blk).run s =
        (if ft ≠ .inv then Run.fail .estruct else markMet aal blk : Run (JState CheckData) Errno Unit).run
          { s1 with data := { s1.data with foundType := ft } } := by
    intro ft hft
    unfold orgConflict
    rw [Run.modify_bind, ← hs1, Run.run_bind, Run.run_attempt, traverse_trace cbFindTxh_keeps
      none_sec_keeps h.chain (by rw [List.length_reverse]; exact h.length) hjournal, Run.run_bind,
      hfind, hft]
    rfl
  constructor
  · intro hin
    rw [hrun .txh (if_pos (hmem.mpr hin)), if_pos (by decide)]
    exact ⟨_, rfl, hjournal, hcur⟩
  · intro hno
    rw [hrun .inv (if_neg fun hin => hno (hmem.mp hin)), if_neg (by decide)]
    refine markMet_at ?_ (blk, .org) hlt hmap
    rw [hs1]
    exact ⟨hat.journal, hat.layout, hat.current, hat.cur⟩

theorem At.ready (h : At aal area j fuel older nr newer seen s) : Ready aal area j fuel older nr newer seen s :=
  ⟨h.journal, h.layout, ⟨_, h.current⟩, fun _ => h.current, fun _ => h.cur, Or.inl (by rw [h.cur]; simp)⟩

variable (aal area layoutFunc) in
/-- The first lines of the callback: the current transaction is noticed. -/
theorem secCheck_start (h : Ready aal area j fuel older nr newer seen s) (e : Event) :
    ∃ s1, At aal area j fuel older nr newer seen s1 ∧
      (cbJournalSecCheck aal area layoutFunc fuel (headerBlock j.device nr) e.1 e.2).run s =
        (if journal40BlkFormatCheck area layoutFunc e.1
            (if e.2 = .org then 0 else 1 <<< tfDataAreaOnly) then Run.fail .estruct
          else do
            checkRecord e.1 e.2
            checkLayout aal fuel (headerBlock j.device nr) e.1 e.2 :
          Run (JState CheckData) Errno Unit).run s1 := by
  unfold cbJournalSecCheck startTrans
  rw [Run.modify_bind, Run.modify_bind, Run.get_bind]
  by_cases hcur : s.data.curTxh = (headerBlock j.device nr).nr
  · refine ⟨_, ?_, rfl⟩
    rw [if_neg (not_not_intro hcur)]
    exact ⟨h.journal, h.layout, h.current hcur, hcur⟩
  · refine ⟨_, ?_, rfl⟩
    rw [if_pos hcur]
    have hnil : seen = [] := by
      by_contra hne
      exact hcur (h.started hne)
    obtain ⟨marked, hmarked⟩ := h.fits
    refine ⟨h.journal, h.layout, hmarked.clear.congr fun b => ?_, rfl⟩
    rw [hnil]
    exact ⟨False.elim, nofun⟩

variable (area layoutFunc) in
theorem formatCheck_iff (e : Event) :
    journal40BlkFormatCheck area layoutFunc e.1 (if e.2 = .org then 0 else 1 <<< tfDataAreaOnly) =
        false ↔
      (area.start ≤ e.1 ∧ e.1 < area.len) ∧
        (e.2 ≠ .org → layoutFunc (cbCheckFormatBlock e.1) = false) := by
  have h0 : Nat.testBit 0 tfDataAreaOnly = false := by decide
  have h1 : Nat.testBit (1 <<< tfDataAreaOnly) tfDataAreaOnly = true := by decide
  unfold journal40BlkFormatCheck
  by_cases hout : e.1 ≥ area.len ∨ e.1 < area.start
  · rw [if_pos hout]
    constructor
    · intro h
      cases h
    · rintro ⟨h, -⟩
      omega
  · rw [if_neg hout]
    have hin : area.start ≤ e.1 ∧ e.1 < area.len := by omega
    by_cases horg : e.2 = .org
    · rw [if_pos horg, h0, if_pos rfl]
      exact ⟨fun _ => ⟨hin, fun hne => absurd horg hne⟩, fun _ => rfl⟩
    · rw [if_neg horg, h1, if_neg (by decide)]
      exact ⟨fun h => ⟨hin, fun _ => h⟩, fun h => h.2 horg⟩

theorem checkRecord_run (hs : s.journal = j) (e : Event) :
    (checkRecord e.1 e.2).run s = some (.ok (), s) ∧
        (e.2 = .lgr → ∃ d, j.device e.1 = some d ∧ d.memeq 0 lgrMagic = true) ∨
      (∃ err, (checkRecord e.1 e.2).run s = some (.error err, s)) ∧
        ¬(e.2 = .lgr → ∃ d, j.device e.1 = some d ∧ d.memeq 0 lgrMagic = true) := by
  unfold checkRecord
  by_cases hlgr : e.2 = .lgr
  · rw [if_pos hlgr, Run.run_bind, loadBlock_run, hs]
    cases hd : j.device e.1 with
    | none =>
      refine Or.inr ⟨⟨_, rfl⟩, ?_⟩
      intro h
      obtain ⟨d, hd', -⟩ := h hlgr
      cases hd'
    | some d =>
      dsimp only
      by_cases hmagic : d.memeq 0 lgrMagic = true
      · rw [if_pos hmagic]
        exact Or.inl ⟨rfl, fun _ => ⟨d, rfl, hmagic⟩⟩
      · rw [if_neg hmagic]
        refine Or.inr ⟨⟨_, rfl⟩, ?_⟩
        intro h
        obtain ⟨d', hd', hm⟩ := h hlgr
        cases hd'
        exact hmagic hm
  · rw [if_neg hlgr]
    exact Or.inl ⟨rfl, fun h => absurd h hlgr⟩

/-- The check of the layout: an event whose block is not in the way passes, any other cuts the journal
    or fails. -/
theorem checkLayout_spec (h : Place j fuel older nr newer) (hat : At aal area j fuel older nr newer seen s)
    {e : Event} (htype : e.2 = .lgr ∨ e.2 = .wan ∨ e.2 = .org)
    (hblk : e.1 ∈ blocksOf (txTrace j fuel nr).1) (hlt : e.1 < area.len) (hmap : area.Maps e.1) :
    let x := checkLayout aal fuel (headerBlock j.device nr) e.1 e.2
    let good := e.1 ∉ blocksOf seen ∧ (e.2 ≠ .org → e.1 ∉ older ++ nr :: newer ∧
        ∀ t ∈ older, e.1 ∉ blocksOf (txTrace j fuel t).1) ∧ (e.2 = .org → e.1 ∉ nr :: newer)
    (good → ∃ s', x.run s = some (.ok (), s') ∧ At aal area j fuel older nr newer (seen ++ [e]) s') ∧
      (¬good → ∀ r s', x.run s = some (r, s') → r ≠ .ok () ∧
        (r = .error .estruct → s'.journal = j ∧ s'.data.curTxh ∈ older ++ [nr])) := by
  intro x good
  have hhere : s.journal = j ∧ s.data.curTxh ∈ older ++ [nr] := ⟨hat.journal, by rw [hat.cur]; simp⟩
  have hx : x.run s = (if s.data.journalLayout.has aal e.1 then
        metBefore aal fuel (headerBlock j.device nr) e.1 e.2
      else markMet aal e.1 : Run (JState CheckData) Errno Unit).run s := by
    show (checkLayout aal fuel (headerBlock j.device nr) e.1 e.2).run s = _
    unfold checkLayout
    rw [Run.bind_of_ok (testLayout_run hat.layout hlt hmap)]
  rw [hx]
  by_cases hlayout : s.data.journalLayout.has aal e.1 = true
  · rw [if_pos hlayout]
    unfold metBefore
    rw [Run.bind_of_ok (testLayout_run hat.current hlt hmap)]
    have hmet := (hat.layout.has e.1).mp hlayout
    by_cases hseen : s.data.currentLayout.has aal e.1 = true
    · rw [if_pos hseen]
      refine ⟨fun hg => absurd ((hat.current.has e.1).mp hseen) hg.1, ?_⟩
      intro _ r s' hrun
      cases hrun
      exact ⟨by simp, fun _ => hhere⟩
    · rw [if_neg hseen]
      have hnot : e.1 ∉ blocksOf seen := fun hm => hseen ((hat.current.has e.1).mpr hm)
      have hbad : e.2 ≠ .org → ¬good := by
        intro horg hg
        obtain ⟨h1, h2⟩ := hg.2.1 horg
        rcases hmet with hm | ⟨t, ht, hm⟩ | hm
        · exact h1 hm
        · exact h2 t ht hm
        · exact hnot hm
      rcases htype with hty | hty | hty
      · have horg : e.2 ≠ .org := by rw [hty]; decide
        refine ⟨fun hg => absurd hg (hbad horg), ?_⟩
        intro _ r s' hrun
        rw [hty] at hrun
        exact lgrConflict_spec h hat hblk hrun
      · have horg : e.2 ≠ .org := by rw [hty]; decide
        refine ⟨fun hg => absurd hg (hbad horg), ?_⟩
        intro _ r s' hrun
        rw [hty] at hrun
        obtain ⟨h1, h2⟩ := wanConflict_spec h hat hblk hrun
        exact ⟨by simp [h1], fun _ => h2⟩
      · rw [hty]
        obtain ⟨h1, h2⟩ := orgConflict_spec h hat hlt hmap
        by_cases hin : e.1 ∈ nr :: newer
        · refine ⟨fun hg => absurd hin (hg.2.2 hty), ?_⟩
          intro _ r s' hrun
          obtain ⟨s1, hs1, hj, hc⟩ := h1 hin
          dsimp only at hrun
          rw [hs1] at hrun
          cases hrun
          exact ⟨by simp, fun _ => ⟨hj, by rw [hc]; simp⟩⟩
        · refine ⟨fun _ => ?_, ?_⟩
          · obtain ⟨s1, hs1, hat1⟩ := h2 hin
            rw [← hty] at hat1
            exact ⟨s1, hs1, hat1⟩
          · intro hb
            exact absurd ⟨hnot, fun horg => absurd hty horg, fun _ => hin⟩ hb
  · rw [if_neg hlayout]
    refine ⟨fun _ => markMet_at hat e hlt hmap, ?_⟩
    intro hbad
    have hno := fun hm => hlayout ((hat.layout.has e.1).mpr hm)
    refine absurd ⟨?_, ?_, ?_⟩ hbad
    · exact fun hm => hno (Or.inr (Or.inr hm))
    · exact fun _ => ⟨fun hm => hno (Or.inl hm), fun t ht hm => hno (Or.inr (Or.inl ⟨t, ht, hm⟩))⟩
    · exact fun _ hm => hno (Or.inl (List.mem_append_right _ hm))

variable (aal area layoutFunc) in
/-- **One event.**  If it keeps the rules it passes; if not, the journal is cut in front of the current
    transaction or an older one, or the check fails. -/
theorem secCheck_spec (h : Place j fuel older nr newer) (hready : Ready aal area j fuel older nr newer seen s)
    {e : Event} (he : e ∈ (txTrace j fuel nr).1) :
    let x := cbJournalSecCheck aal area layoutFunc fuel (headerBlock j.device nr) e.1 e.2
    (EventOk j area layoutFunc fuel older nr newer seen e →
      ∃ s', x.run s = some (.ok (), s') ∧ At aal area j fuel older nr newer (seen ++ [e]) s') ∧
    (¬EventOk j area layoutFunc fuel older nr newer seen e → ∀ r s', x.run s = some (r, s') →
      r ≠ .ok () ∧ (r = .error .estruct → s'.journal = j ∧ s'.data.curTxh ∈ older ++ [nr])) := by
  intro x
  obtain ⟨s1, hat, hstart⟩ := secCheck_start aal area layoutFunc hready e
  have hhere : s1.journal = j ∧ s1.data.curTxh ∈ older ++ [nr] :=
    ⟨hat.journal, by rw [hat.cur]; simp⟩
  have hformat := formatCheck_iff area layoutFunc e
  rw [show x.run s = _ from hstart]
  generalize journal40BlkFormatCheck area layoutFunc e.1
    (if e.2 = .org then 0 else 1 <<< tfDataAreaOnly) = bad at hformat
  cases bad with
  | true =>
    rw [if_pos rfl]
    constructor
    · intro hok
      cases hformat.mpr ⟨hok.bounds, hok.format⟩
    · intro _ r s' hrun
      cases hrun
      exact ⟨nofun, fun _ => hhere⟩
  | false =>
    obtain ⟨hbounds, hfmt⟩ := hformat.mp rfl
    rw [if_neg (by decide), Run.run_bind]
    rcases checkRecord_run hat.journal e with ⟨hrec, hrecord⟩ | ⟨⟨err, hrec⟩, hno⟩
    · rw [hrec]
      have hblk : e.1 ∈ blocksOf (txTrace j fuel nr).1 := List.mem_map_of_mem he
      by_cases hmap : area.Maps e.1
      · obtain ⟨h1, h2⟩ := checkLayout_spec h hat (logTrace_types e he) hblk hbounds.2 hmap
        constructor
        · exact fun hok => h1 ⟨hok.once, hok.fresh, hok.original⟩
        · intro hbad
          apply h2
          rintro ⟨honce, hfresh, horiginal⟩
          exact hbad ⟨hbounds, hmap, hfmt, hrecord, honce, hfresh, horiginal⟩
      · -- The test leaves the map.
        refine ⟨fun hok => absurd hok.maps hmap, fun _ r s' hrun => ?_⟩
        dsimp only at hrun
        unfold checkLayout at hrun
        rw [Run.run_bind, testLayout_none hat.layout hbounds.2 hmap] at hrun
        cases hrun
    · rw [hrec]
      refine ⟨fun hok => absurd hok.record hno, ?_⟩
      intro _ r s' hrun
      cases hrun
      exact ⟨nofun, fun _ => hhere⟩

/-! ## One transaction -/

/-- All events of transaction `nr` keep the rules, and its log records lead back to the header. -/
structure TxOk (j : Journal) (area : Area) (layoutFunc : LayoutFunc) (fuel : Nat) (older : List Nat)
    (nr : Nat) (newer : List Nat) : Prop where
  events : ∀ pre e post, (txTrace j fuel nr).1 = pre ++ e :: post →
    EventOk j area layoutFunc fuel older nr newer pre e
  closed : (txTrace j fuel nr).2 = .closed

/-- Where the check stops in front of a transaction: at this one or at an older one. -/
def Blames (j : Journal) (nrs : List Nat) (r : Except Errno Unit) (s : JState CheckData) : Prop :=
  r ≠ .ok () ∧ (r = .error .estruct → s.journal = j ∧ s.data.curTxh ∈ nrs)

variable (aal area layoutFunc) in
/-- The events that are left of a transaction. -/
theorem eventsCheck_spec (h : Place j fuel older nr newer) : ∀ (rest seen : List Event)
    (s : JState CheckData), (txTrace j fuel nr).1 = seen ++ rest →
    Ready aal area j fuel older nr newer seen s →
    let x := Run.forEach (secCall (some (cbJournalSecCheck aal area layoutFunc fuel))
      (headerBlock j.device nr)) rest
    let good := ∀ pre e post, rest = pre ++ e :: post →
      EventOk j area layoutFunc fuel older nr newer (seen ++ pre) e
    (good → ∃ s', x.run s = some (.ok (), s') ∧ Ready aal area j fuel older nr newer (seen ++ rest) s') ∧
    (¬good → ∀ r s', x.run s = some (r, s') → Blames j (older ++ [nr]) r s')
  | [], seen, s, _, hready => by
    refine ⟨fun _ => ⟨s, rfl, by rwa [List.append_nil]⟩, fun hbad => absurd ?_ hbad⟩
    intro pre e post hnil
    cases pre <;> cases hnil
  | e :: rest, seen, s, htrace, hready => by
    intro x good
    have he : e ∈ (txTrace j fuel nr).1 := by rw [htrace]; simp
    obtain ⟨h1, h2⟩ := secCheck_spec aal area layoutFunc h hready he
    by_cases hok : EventOk j area layoutFunc fuel older nr newer seen e
    · obtain ⟨s1, hs1, hat⟩ := h1 hok
      have hrest : (txTrace j fuel nr).1 = (seen ++ [e]) ++ rest := by rw [htrace]; simp
      obtain ⟨h3, h4⟩ := eventsCheck_spec h rest (seen ++ [e]) s1 hrest hat.ready
      have hx : x.run s = (Run.forEach (secCall (some (cbJournalSecCheck aal area layoutFunc fuel))
          (headerBlock j.device nr)) rest).run s1 := Run.bind_of_ok hs1
      have hgood : good ↔ ∀ pre e' post, rest = pre ++ e' :: post →
          EventOk j area layoutFunc fuel older nr newer ((seen ++ [e]) ++ pre) e' := by
        constructor
        · intro hg pre e' post hsplit
          have := hg (e :: pre) e' post (by rw [hsplit]; rfl)
          rwa [List.append_assoc]
        · intro hg pre e' post hsplit
          cases pre with
          | nil =>
            cases hsplit
            rwa [List.append_nil]
          | cons e1 pre =>
            cases hsplit
            have := hg pre e' post rfl
            rwa [List.append_assoc] at this
      rw [hx]
      constructor
      · intro hg
        obtain ⟨s2, hs2, hready2⟩ := h3 (hgood.mp hg)
        refine ⟨s2, hs2, ?_⟩
        rwa [List.append_assoc] at hready2
      · exact fun hbad => h4 fun hg => hbad (hgood.mpr hg)
    · constructor
      · intro hg
        have := hg [] e rest rfl
        rw [List.append_nil] at this
        exact absurd this hok
      · intro _ r s' hrun
        have hno : ∀ a s1, (secCall (some (cbJournalSecCheck aal area layoutFunc fuel))
            (headerBlock j.device nr) e).run s ≠ some (.ok a, s1) :=
          fun _ s1 hs1 => (h2 hok _ s1 hs1).1 rfl
        obtain ⟨err, rfl, hs1⟩ := Run.error_of_bind hno hrun
        exact h2 hok _ s' hs1

theorem logTrace_broken {dev : Device} {blksize : Nat} : ∀ {fuel blk : Nat},
    (logTrace dev blksize nr fuel blk).2 = .broken → (logTrace dev blksize nr fuel blk).1 ≠ []
  | 0, _, h => by cases h
  | fuel + 1, blk, h => by
    rw [logTrace] at h ⊢
    split at h
    · cases h
    · rename_i hblk
      rw [if_neg hblk]
      split
      · exact List.cons_ne_nil _ _
      · split
        · exact List.cons_ne_nil _ _
        · exact List.cons_ne_nil _ _

/-- The state between two transactions. -/
structure Between (aal : AalBits) (area : Area) (j : Journal) (fuel : Nat) (older newer : List Nat)
    (s : JState CheckData) : Prop where
  journal : s.journal = j
  layout : Layout aal area (fun b => b ∈ older ++ newer ∨ ∃ t ∈ older, b ∈ blocksOf (txTrace j fuel t).1)
    s.data.journalLayout
  fits : ∃ marked, Layout aal area marked s.data.currentLayout
  known : s.data.curTxh ∈ older ∨
    (s.data.curTxh = 0 ∧ Layout aal area (fun _ => False) s.data.currentLayout)

theorem Between.ready (h : Place j fuel older nr newer) (hs : Between aal area j fuel older (nr :: newer) s) :
    Ready aal area j fuel older nr newer [] s where
  journal := hs.journal
  layout := by
    refine hs.layout.congr fun b => ?_
    constructor
    · rintro (hb | hb)
      · exact Or.inl hb
      · exact Or.inr (Or.inl hb)
    · rintro (hb | hb | hb)
      · exact Or.inl hb
      · exact Or.inr hb
      · cases hb
  fits := hs.fits
  current := by
    intro hcur
    rcases hs.known with hknown | ⟨-, hempty⟩
    · rw [hcur] at hknown
      have hdisjoint := (List.nodup_append.mp h.nodup).2.2
      exact absurd rfl (hdisjoint nr hknown nr List.mem_cons_self)
    · exact hempty.congr fun b => ⟨False.elim, nofun⟩
  started := fun hne => absurd rfl hne
  known := hs.known.imp (fun hb => List.mem_append_left _ hb) id

theorem Ready.between (hs : Ready aal area j fuel older nr newer (txTrace j fuel nr).1 s) :
    Between aal area j fuel (older ++ [nr]) newer s where
  journal := hs.journal
  layout := by
    refine hs.layout.congr fun b => ?_
    rw [List.append_assoc, List.singleton_append]
    constructor
    · rintro (hb | ⟨t, ht, hb⟩ | hb)
      · exact Or.inl hb
      · exact Or.inr ⟨t, List.mem_append_left _ ht, hb⟩
      · exact Or.inr ⟨nr, by simp, hb⟩
    · rintro (hb | ⟨t, ht, hb⟩)
      · exact Or.inl hb
      · rcases List.mem_append.mp ht with ht | ht
        · exact Or.inr (Or.inl ⟨t, ht, hb⟩)
        · rw [List.mem_singleton.mp ht] at hb
          exact Or.inr (Or.inr hb)
  fits := hs.fits
  known := hs.known

variable (aal area layoutFunc) in
/-- **One transaction.** -/
theorem transCheck_spec (h : Place j fuel older nr newer)
    (hs : Between aal area j fuel older (nr :: newer) s) :
    let x := transRun j fuel (some (cbJournalSecCheck aal area layoutFunc fuel)) nr
    (TxOk j area layoutFunc fuel older nr newer →
      ∃ s', x.run s = some (.ok (), s') ∧ Between aal area j fuel (older ++ [nr]) newer s') ∧
    (¬TxOk j area layoutFunc fuel older nr newer →
      ∀ r s', x.run s = some (r, s') → Blames j (older ++ [nr]) r s') := by
  intro x
  obtain ⟨h1, h2⟩ := eventsCheck_spec aal area layoutFunc h (txTrace j fuel nr).1 [] s rfl (hs.ready h)
  constructor
  · intro hok
    obtain ⟨s1, hs1, hready⟩ := h1 hok.events
    refine ⟨s1, ?_, hready.between⟩
    show (transRun j fuel _ nr).run s = _
    rw [transRun, Run.bind_of_ok hs1, hok.closed]
    rfl
  · intro hbad r s' hrun
    by_cases hevents : ∀ pre e post, (txTrace j fuel nr).1 = pre ++ e :: post →
        EventOk j area layoutFunc fuel older nr newer pre e
    · -- All events pass, so the chain of the log records does not lead back.
      obtain ⟨s1, hs1, hready⟩ := h1 hevents
      change (transRun j fuel _ nr).run s = _ at hrun
      rw [transRun, Run.bind_of_ok hs1] at hrun
      cases hfin : (txTrace j fuel nr).2 with
      | closed => exact absurd ⟨hevents, hfin⟩ hbad
      | going =>
        rw [hfin] at hrun
        cases hrun
      | unread =>
        rw [hfin] at hrun
        cases hrun
        exact ⟨nofun, nofun⟩
      | broken =>
        rw [hfin] at hrun
        cases hrun
        have hcur : s'.data.curTxh = nr := hready.started (logTrace_broken hfin)
        exact ⟨nofun, fun _ => ⟨hready.journal, by rw [hcur]; simp⟩⟩
    · have hblames := h2 hevents
      obtain ⟨err, rfl, hs1⟩ := Run.error_of_bind (fun _ s1 hs1 => (hblames _ s1 hs1).1 rfl) hrun
      exact hblames _ s' hs1

/-! ## All transactions -/

/-- The transactions `ns`, the oldest of a journal that goes on with `newer`, all pass. -/
def AllOk (j : Journal) (area : Area) (layoutFunc : LayoutFunc) (fuel : Nat) (ns newer : List Nat) :
    Prop :=
  ∀ pre t post, ns = pre ++ t :: post → TxOk j area layoutFunc fuel pre t (post ++ newer)

theorem AllOk.nil : AllOk j area layoutFunc fuel [] newer := by
  intro pre t post h
  cases pre <;> cases h

theorem AllOk.snoc (h : AllOk j area layoutFunc fuel older (nr :: newer))
    (hnr : TxOk j area layoutFunc fuel older nr newer) :
    AllOk j area layoutFunc fuel (older ++ [nr]) newer := by
  intro pre t post hsplit
  rcases List.eq_nil_or_concat post with rfl | ⟨post', t', rfl⟩
  · obtain ⟨rfl, htail⟩ := List.append_inj' hsplit rfl
    cases htail
    exact hnr
  · rw [List.concat_eq_append, ← List.cons_append, ← List.append_assoc] at hsplit
    obtain ⟨rfl, htail⟩ := List.append_inj' hsplit rfl
    cases htail
    rw [List.concat_eq_append, List.append_assoc]
    exact h pre t post' rfl

/-- The older part of transactions that pass. -/
theorem AllOk.prefix {ms : List Nat} (h : AllOk j area layoutFunc fuel (older ++ ms) newer) :
    AllOk j area layoutFunc fuel older (ms ++ newer) := by
  intro pre t post hsplit
  rw [← List.append_assoc]
  apply h pre t (post ++ ms)
  rw [hsplit, List.append_assoc, List.cons_append]

theorem AllOk.closed (h : AllOk j area layoutFunc fuel older newer) :
    ∀ t ∈ older, (txTrace j fuel t).2 = .closed := by
  intro t ht
  obtain ⟨pre, post, hsplit⟩ := List.append_of_mem ht
  exact (h pre t post hsplit).closed

/-- In front of a transaction that is blamed, all have passed. -/
theorem AllOk.blamed (h : AllOk j area layoutFunc fuel older (nr :: newer)) {t : Nat}
    (ht : t ∈ older ++ [nr]) : ∃ pre post, older ++ nr :: newer = pre ++ t :: post ∧
      AllOk j area layoutFunc fuel pre (t :: post) := by
  rcases List.mem_append.mp ht with ht | ht
  · obtain ⟨pre, post, rfl⟩ := List.append_of_mem ht
    refine ⟨pre, post ++ nr :: newer, by simp, ?_⟩
    exact h.prefix
  · rw [List.mem_singleton.mp ht]
    exact ⟨older, newer, rfl, h⟩

variable (aal area layoutFunc) in
/-- **All transactions.**  They pass if and only if every one does; if not, the one that is blamed has
    only such ones in front of it that pass. -/
theorem transChecks_spec : ∀ (newer older : List Nat) (s : JState CheckData),
    HeaderChain j (older ++ newer).reverse → (older ++ newer).length < fuel →
    AllOk j area layoutFunc fuel older newer → Between aal area j fuel older newer s →
    let x := Run.forEach (transRun j fuel (some (cbJournalSecCheck aal area layoutFunc fuel))) newer
    (AllOk j area layoutFunc fuel (older ++ newer) [] → ∃ s', x.run s = some (.ok (), s')) ∧
    ∀ r s', x.run s = some (r, s') →
      (r = .ok () → AllOk j area layoutFunc fuel (older ++ newer) []) ∧
      (r = .error .estruct → s'.journal = j ∧ ∃ pre post,
        older ++ newer = pre ++ s'.data.curTxh :: post ∧
        AllOk j area layoutFunc fuel pre (s'.data.curTxh :: post))
  | [], older, s, _, _, hgood, _ => by
    refine ⟨fun _ => ⟨s, rfl⟩, ?_⟩
    intro r s' hrun
    cases hrun
    refine ⟨fun _ => by rwa [List.append_nil], nofun⟩
  | nr :: newer, older, s, hchain, hlen, hgood, hs => by
    intro x
    have hplace : Place j fuel older nr newer := ⟨hchain, hlen, hgood.closed⟩
    obtain ⟨h1, h2⟩ := transCheck_spec aal area layoutFunc hplace hs
    have happend : older ++ nr :: newer = (older ++ [nr]) ++ newer := by simp
    by_cases hok : TxOk j area layoutFunc fuel older nr newer
    · obtain ⟨s1, hs1, hbetween⟩ := h1 hok
      have hx : x.run s = (Run.forEach (transRun j fuel
          (some (cbJournalSecCheck aal area layoutFunc fuel))) newer).run s1 := Run.bind_of_ok hs1
      rw [happend] at hchain hlen ⊢
      rw [hx]
      exact transChecks_spec newer (older ++ [nr]) s1 hchain hlen (hgood.snoc hok) hbetween
    · constructor
      · exact fun hall => absurd (by simpa using hall older nr newer rfl) hok
      · intro r s' hrun
        have hblames := h2 hok
        obtain ⟨err, rfl, hs1⟩ := Run.error_of_bind (fun _ s1 hs1 => (hblames _ s1 hs1).1 rfl) hrun
        refine ⟨nofun, ?_⟩
        intro hstruct
        cases hstruct
        obtain ⟨hj, hcur⟩ := (hblames _ s' hs1).2 rfl
        exact ⟨hj, hgood.blamed hcur⟩

end Event

end Reiser4.Journal40
