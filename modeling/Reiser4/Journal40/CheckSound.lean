/-
  The check of the journal is sound.

  A journal passes the check if its headers, and all the events of its transactions, keep the rules
  (`Passes`).  Where the check finds a problem, it cuts the journal in front of the transaction it
  blames.  What is left behind are transactions that have passed already, and a cut only takes newer
  ones away, so what is left passes again.

    1. `headersCheck_spec`, `txhLoop_ok`   the first loop accepts the headers of a chain that ends;
    2. `checkTraverse_spec`   the traverse succeeds on the journals that pass, and when it does not, the
       transactions in front of the one it blames pass;
    3. `Passes.cut`           so does the journal cut there;
    4. `Passes.rules`         the transactions of a journal that passes keep the rules;
    5. `journal40CheckStruct_sound_iff`   together.
-/
import Reiser4.Journal40.CheckEvents

namespace Reiser4.Journal40

open Reiser4.Lib

variable {aal : AalBits} {j : Journal} {area : Area} {layoutFunc : LayoutFunc} {fuel : Nat}

/-! ## The headers -/

/-- The header block may be where it is. -/
structure HeaderOk (area : Area) (layoutFunc : LayoutFunc) (nr : Nat) : Prop where
  bounds : area.start ≤ nr ∧ nr < area.len
  maps : area.Maps nr
  format : layoutFunc (cbCheckFormatBlock nr) = false

theorem txhCheck_run (layoutFunc : LayoutFunc) (nr : Nat) {s : JState CheckData} {marked : Nat → Prop}
    (hl : Layout aal area marked s.data.journalLayout) :
    (HeaderOk area layoutFunc nr ∧ ¬marked nr → ∃ b,
      (cbJournalTxhCheck aal area layoutFunc nr).run s = some (.ok (), { s with data := { s.data with
        flags := 1 <<< tfDataAreaOnly, journalLayout := b } }) ∧
      Layout aal area (fun i => i = nr ∨ marked i) b) ∧
    (¬(HeaderOk area layoutFunc nr ∧ ¬marked nr) → ∀ a s',
      (cbJournalTxhCheck aal area layoutFunc nr).run s ≠ some (.ok a, s')) := by
  have hformat := formatCheck_iff area layoutFunc (nr, .txh)
  change journal40BlkFormatCheck area layoutFunc nr (1 <<< tfDataAreaOnly) = false ↔
    (area.start ≤ nr ∧ nr < area.len) ∧ (BlockType.txh ≠ .org → _) at hformat
  obtain ⟨s1, hs1⟩ : ∃ s1 : JState CheckData,
    s1 = { s with data := { s.data with flags := 1 <<< tfDataAreaOnly } } := ⟨_, rfl⟩
  have hl1 : Layout aal area marked s1.data.journalLayout := by
    rw [hs1]
    exact hl
  have hrun : (cbJournalTxhCheck aal area layoutFunc nr).run s =
      (if journal40BlkFormatCheck area layoutFunc nr (1 <<< tfDataAreaOnly) then Run.fail .estruct
        else do
          let met ← testLayout aal CheckData.journalLayout nr
          if met then Run.fail .estruct else markJournal aal nr : Run (JState CheckData) Errno Unit).run s1 := by
    unfold cbJournalTxhCheck
    rw [Run.modify_bind, Run.get_bind, hs1]
  rw [hrun]
  generalize journal40BlkFormatCheck area layoutFunc nr (1 <<< tfDataAreaOnly) = bad at hformat
  cases bad with
  | true =>
    rw [if_pos rfl]
    refine ⟨fun h => ?_, fun _ a s' hrun => by cases hrun⟩
    cases hformat.mpr ⟨h.1.bounds, fun _ => h.1.format⟩
  | false =>
    obtain ⟨hbounds, hfmt⟩ := hformat.mp rfl
    rw [if_neg (by decide)]
    by_cases hmap : area.Maps nr
    · rw [Run.bind_of_ok (testLayout_run hl1 hbounds.2 hmap)]
      by_cases hmarked : marked nr
      · rw [if_pos ((hl1.has nr).mpr hmarked)]
        exact ⟨fun h => absurd hmarked h.2, fun _ a s' hrun => by cases hrun⟩
      · rw [if_neg fun h => hmarked ((hl1.has nr).mp h)]
        obtain ⟨b, hmark, hb⟩ := markJournal_run hl1 hbounds.2 hmap
        refine ⟨fun _ => ⟨b, ?_, hb⟩, fun hbad => absurd ?_ hbad⟩
        · rw [hmark, hs1]
        · exact ⟨⟨hbounds, hmap, hfmt (by decide)⟩, hmarked⟩
    · -- The test leaves the map.
      refine ⟨fun h => absurd h.1.maps hmap, fun _ a s' hrun => ?_⟩
      rw [Run.run_bind, testLayout_none hl1 hbounds.2 hmap] at hrun
      cases hrun

/-- The headers pass if and only if each may be where it is, and none is there twice. -/
theorem headersCheck_spec (layoutFunc : LayoutFunc) : ∀ (ns : List Nat) {s : JState CheckData}
    {marked : Nat → Prop}, Layout aal area marked s.data.journalLayout →
    let x := Run.forEach (txhCall (some (cbJournalTxhCheck aal area layoutFunc))) ns
    let good := (∀ nr ∈ ns, HeaderOk area layoutFunc nr ∧ ¬marked nr) ∧ ns.Nodup
    (good → ∃ s', x.run s = some (.ok (), s') ∧ s'.journal = s.journal ∧
      s'.data.curTxh = s.data.curTxh ∧ s'.data.currentLayout = s.data.currentLayout ∧
      Layout aal area (fun b => b ∈ ns ∨ marked b) s'.data.journalLayout) ∧
    (¬good → ∀ a s', x.run s ≠ some (.ok a, s'))
  | [], s, marked, hl => by
    refine ⟨fun _ => ⟨s, rfl, rfl, rfl, rfl, hl.congr fun b => by simp⟩, fun hbad => absurd ?_ hbad⟩
    exact ⟨by simp, List.nodup_nil⟩
  | nr :: ns, s, marked, hl => by
    intro x good
    obtain ⟨h1, h2⟩ := txhCheck_run layoutFunc nr hl
    by_cases hok : HeaderOk area layoutFunc nr ∧ ¬marked nr
    · obtain ⟨b, hrun1, hb⟩ := h1 hok
      obtain ⟨s1, hs1⟩ : ∃ s1 : JState CheckData, s1 = { s with data := { s.data with
        flags := 1 <<< tfDataAreaOnly, journalLayout := b } } := ⟨_, rfl⟩
      have hl1 : Layout aal area (fun i => i = nr ∨ marked i) s1.data.journalLayout := by
        rw [hs1]
        exact hb
      obtain ⟨h3, h4⟩ := headersCheck_spec layoutFunc ns hl1
      have hx : x.run s = (Run.forEach (txhCall (some (cbJournalTxhCheck aal area layoutFunc))) ns).run s1 := by
        rw [hs1]
        exact Run.bind_of_ok hrun1
      have hgood : good ↔ (∀ n ∈ ns, HeaderOk area layoutFunc n ∧ ¬(n = nr ∨ marked n)) ∧ ns.Nodup := by
        constructor
        · rintro ⟨hall, hnodup⟩
          obtain ⟨hnot, hnodup⟩ := List.nodup_cons.mp hnodup
          refine ⟨fun n hn => ?_, hnodup⟩
          obtain ⟨ha, hfree⟩ := hall n (List.mem_cons_of_mem _ hn)
          refine ⟨ha, ?_⟩
          rintro (rfl | hm)
          · exact hnot hn
          · exact hfree hm
        · rintro ⟨hall, hnodup⟩
          refine ⟨fun n hn => ?_, List.nodup_cons.mpr ⟨fun hn => ?_, hnodup⟩⟩
          · rcases List.mem_cons.mp hn with rfl | hn
            · exact hok
            · exact ⟨(hall n hn).1, fun hm => (hall n hn).2 (Or.inr hm)⟩
          · exact (hall nr hn).2 (Or.inl rfl)
      rw [hx, hgood]
      refine ⟨fun hg => ?_, h4⟩
      obtain ⟨s', hrun, hj, hcur, hcurrent, hlayout⟩ := h3 hg
      rw [hs1] at hj hcur hcurrent
      refine ⟨s', hrun, hj, hcur, hcurrent, hlayout.congr fun b => ?_⟩
      rw [List.mem_cons, or_left_comm, or_assoc]
    · refine ⟨fun hg => absurd (hg.1 nr List.mem_cons_self) hok, fun _ a s' hrun => ?_⟩
      obtain ⟨_, s1, hs1, -⟩ := Run.bind_ok.mp hrun
      exact h2 hok _ s1 hs1

/-- The first loop succeeds only on a chain that ends. -/
theorem txhLoop_ok {δ : Type} {txh : Option (TxhFunc δ)}
    (htxh : ∀ f ∈ txh, ∀ nr, Run.Keeps (fun s => s.journal = j) (f nr)) {lastFlushed : Nat} :
    ∀ {fuel blk : Nat} {txList l : List Block} {s s' : JState δ}, s.journal = j →
      (txhLoop txh lastFlushed fuel blk txList).run s = some (.ok l, s') →
      ∃ ns, Chain (prevLink j.device) lastFlushed blk ns ∧ ns.length < fuel
  | 0, _, _, _, _, _, _, hrun => by cases hrun
  | fuel + 1, blk, txList, l, s, s', hs, hrun => by
    rw [txhLoop] at hrun
    by_cases hblk : blk = lastFlushed
    · exact ⟨[], hblk, Nat.succ_pos fuel⟩
    · rw [if_neg hblk] at hrun
      obtain ⟨_, s1, h1, hrun⟩ := Run.bind_ok.mp hrun
      have hs1 : s1.journal = j := optCall_keeps _ _ (fun f hf => htxh f hf blk) s _ s1 hs h1
      rw [Run.run_bind, loadBlock_run, hs1] at hrun
      cases hd : j.device blk with
      | none =>
        rw [hd] at hrun
        cases hrun
      | some d =>
        rw [hd] at hrun
        dsimp only at hrun
        by_cases hmagic : d.memeq 0 txhMagic = true
        · rw [if_pos hmagic] at hrun
          obtain ⟨ns, hns, hlen⟩ := txhLoop_ok htxh hs1 hrun
          refine ⟨blk :: ns, ⟨hblk, rfl, _, ?_, hns⟩, Nat.succ_lt_succ hlen⟩
          unfold prevLink
          rw [hd]
          exact if_pos hmagic
        · rw [if_neg hmagic] at hrun
          cases hrun

/-! ## The traverse -/

/-- The transactions `ns` of the journal, the oldest first, keep the rules as the check sees them. -/
structure Passes (j : Journal) (area : Area) (layoutFunc : LayoutFunc) (fuel : Nat) (ns : List Nat) :
    Prop where
  chain : HeaderChain j ns.reverse
  length : ns.length < fuel
  headers : ∀ nr ∈ ns, HeaderOk area layoutFunc nr
  events : AllOk j area layoutFunc fuel ns []

variable (aal area layoutFunc) in
theorem txhCheck_mem : ∀ f ∈ some (cbJournalTxhCheck aal area layoutFunc), ∀ nr,
    Run.Keeps (fun s => s.journal = j) (f nr) := by
  intro f hf nr
  cases hf
  exact cbJournalTxhCheck_keeps nr

variable (aal area layoutFunc fuel) in
theorem secCheck_mem : ∀ f ∈ some (cbJournalSecCheck aal area layoutFunc fuel), ∀ tx nr ty,
    Run.Keeps (fun s => s.journal = j) (f tx nr ty) := by
  intro f hf tx nr ty
  cases hf
  exact cbJournalSecCheck_keeps tx nr ty

/-- No header callback notices a transaction. -/
theorem txhLoop_notices (fuel blk : Nat) (lastFlushed : Nat) (txList : List Block) :
    Run.Keeps (fun s : JState CheckData => s.data.curTxh = 0)
      (txhLoop (some (cbJournalTxhCheck aal area layoutFunc)) lastFlushed fuel blk txList) := by
  refine txhLoop_keeps _ ?_ lastFlushed fuel blk txList
  intro f hf nr
  cases hf
  refine Run.Keeps.bind (Run.Keeps.modify _ fun s hs => hs) fun _ => ?_
  refine Run.Keeps.bind Run.Keeps.get fun s => ?_
  split
  · exact Run.Keeps.fail _
  · refine Run.Keeps.bind (Run.Keeps.bind Run.Keeps.get fun _ => Run.Keeps.lift _) fun met => ?_
    split
    · exact Run.Keeps.fail _
    · exact Run.Keeps.bind Run.Keeps.get fun _ =>
        Run.Keeps.bind (Run.Keeps.lift _) fun _ => Run.Keeps.modify _ fun s hs => hs

/-- The traverse of the check. -/
def checkTraverse (aal : AalBits) (area : Area) (layoutFunc : LayoutFunc) (fuel : Nat) :
    Run (JState CheckData) Errno Unit :=
  journal40Traverse fuel (some (cbJournalTxhCheck aal area layoutFunc)) none
    (some (cbJournalSecCheck aal area layoutFunc fuel))

/-- Where the check has to cut: no transaction is blamed, or those in front of it pass. -/
def CutAt (j : Journal) (area : Area) (layoutFunc : LayoutFunc) (fuel curTxh : Nat) : Prop :=
  curTxh = 0 ∨ ∃ pre post, HeaderChain j (pre ++ curTxh :: post).reverse ∧
    (pre ++ curTxh :: post).length < fuel ∧ (∀ nr ∈ pre, HeaderOk area layoutFunc nr) ∧
    AllOk j area layoutFunc fuel pre (curTxh :: post)

/-- The traverse of a journal whose header chain is known: the headers, then the transactions. -/
theorem checkTraverse_chain {ns : List Nat} (hchain : HeaderChain j ns.reverse)
    (hlen : ns.length < fuel) :
    (checkTraverse aal area layoutFunc fuel).run ⟨j, CheckData.initial area⟩ = (do
      Run.forEach (txhCall (some (cbJournalTxhCheck aal area layoutFunc))) ns.reverse
      Run.forEach (transRun j fuel (some (cbJournalSecCheck aal area layoutFunc fuel))) ns).run
        ⟨j, CheckData.initial area⟩ := by
  have htrace := traverse_trace (txhCheck_mem aal area layoutFunc)
    (secCheck_mem aal area layoutFunc fuel) hchain (by rwa [List.length_reverse])
    (show (JState.mk j (CheckData.initial area)).journal = j from rfl)
  rwa [List.reverse_reverse] at htrace

/-- The state behind the headers. -/
theorem between_start {ns : List Nat} {s : JState CheckData} (hj : s.journal = j)
    (hcur : s.data.curTxh = 0) (hcurrent : s.data.currentLayout = reiser4BitmapCreate area.len)
    (hlayout : Layout aal area (fun b => b ∈ ns.reverse ∨ False) s.data.journalLayout) :
    Between aal area j fuel [] ns s := by
  have hempty : Layout aal area (fun _ => False) s.data.currentLayout := by
    rw [hcurrent]
    exact Layout.created
  refine ⟨hj, hlayout.congr fun b => ?_, ⟨_, hempty⟩, Or.inr ⟨hcur, hempty⟩⟩
  rw [List.mem_reverse]
  constructor
  · rintro (hb | hb)
    · exact Or.inl hb
    · exact hb.elim
  · rintro (hb | ⟨t, ht, -⟩)
    · exact Or.inl hb
    · cases ht

/-- The traverse succeeds on the journals that pass, and on no others. -/
theorem checkTraverse_spec :
    let x := checkTraverse aal area layoutFunc fuel
    (∀ ns, Passes j area layoutFunc fuel ns → ∃ s', x.run ⟨j, CheckData.initial area⟩ = some (.ok (), s')) ∧
    ∀ r s', x.run ⟨j, CheckData.initial area⟩ = some (r, s') →
      (r = .ok () → ∃ ns, Passes j area layoutFunc fuel ns) ∧
      (r = .error .estruct → CutAt j area layoutFunc fuel s'.data.curTxh) := by
  intro x
  have hfirst : Layout aal area (fun _ => False) (JState.mk j (CheckData.initial area)).data.journalLayout :=
    Layout.created
  -- Behind the headers of a chain that ends, the transactions are checked.
  have hmain : ∀ ns, HeaderChain j ns.reverse → ns.length < fuel →
      ∀ s1, (Run.forEach (txhCall (some (cbJournalTxhCheck aal area layoutFunc))) ns.reverse).run
        ⟨j, CheckData.initial area⟩ = some (.ok (), s1) →
      (∀ nr ∈ ns, HeaderOk area layoutFunc nr) ∧ Between aal area j fuel [] ns s1 := by
    intro ns hchain hlen s1 h1
    obtain ⟨hgood, hbad⟩ := headersCheck_spec layoutFunc ns.reverse hfirst
    by_cases hg : (∀ nr ∈ ns.reverse, HeaderOk area layoutFunc nr ∧ ¬False) ∧ ns.reverse.Nodup
    · obtain ⟨s', hrun, hj, hcur, hcurrent, hlayout⟩ := hgood hg
      rw [hrun] at h1
      cases h1
      exact ⟨fun nr hnr => (hg.1 nr (List.mem_reverse.mpr hnr)).1,
        between_start hj hcur hcurrent hlayout⟩
    · exact absurd h1 (hbad hg _ s1)
  constructor
  · intro ns hp
    obtain ⟨hgood, -⟩ := headersCheck_spec layoutFunc ns.reverse hfirst
    have hnodup : ns.reverse.Nodup := Chain.nodup hp.chain
    obtain ⟨s1, h1, -⟩ := hgood
      ⟨fun nr hnr => ⟨hp.headers nr (List.mem_reverse.mp hnr), not_false⟩, hnodup⟩
    obtain ⟨-, hbetween⟩ := hmain ns hp.chain hp.length s1 h1
    obtain ⟨s', hrun⟩ := (transChecks_spec aal area layoutFunc ns [] s1 hp.chain hp.length AllOk.nil
      hbetween).1 hp.events
    refine ⟨s', ?_⟩
    show (checkTraverse aal area layoutFunc fuel).run _ = _
    rw [checkTraverse_chain hp.chain hp.length, Run.bind_of_ok h1, hrun]
  · intro r s' hrun
    by_cases hok : ∃ l s1, (txhLoop (some (cbJournalTxhCheck aal area layoutFunc))
        (getJfLastFlushed j.footer.data) fuel (getJhLastCommited j.header.data) []).run
        ⟨j, CheckData.initial area⟩ = some (.ok l, s1)
    · obtain ⟨l, s1, hloop⟩ := hok
      obtain ⟨ns, hchain, hlen⟩ := txhLoop_ok (txhCheck_mem aal area layoutFunc) rfl hloop
      obtain ⟨ns, rfl⟩ : ∃ ms : List Nat, ns = ms.reverse := ⟨ns.reverse, by simp⟩
      rw [List.length_reverse] at hlen
      have hloop' := txhLoop_chain (txhCheck_mem aal area layoutFunc) [] hchain
        (by rwa [List.length_reverse]) (show (JState.mk j (CheckData.initial area)).journal = j from rfl)
      rw [hloop] at hloop'
      obtain ⟨_, s2, h1, -⟩ := Run.bind_ok.mp hloop'.symm
      obtain ⟨hheaders, hbetween⟩ := hmain ns hchain hlen s2 h1
      change (checkTraverse aal area layoutFunc fuel).run _ = _ at hrun
      rw [checkTraverse_chain hchain hlen, Run.bind_of_ok h1] at hrun
      obtain ⟨h2, h3⟩ := (transChecks_spec aal area layoutFunc ns [] s2 hchain hlen AllOk.nil
        hbetween).2 r s' hrun
      refine ⟨fun hr => ⟨ns, hchain, hlen, hheaders, h2 hr⟩, fun hr => Or.inr ?_⟩
      obtain ⟨-, pre, post, hsplit, hall⟩ := h3 hr
      rw [List.nil_append] at hsplit
      rw [hsplit] at hchain hlen hheaders
      exact ⟨pre, post, hchain, hlen, fun nr hnr => hheaders nr (List.mem_append_left _ hnr), hall⟩
    · have hno : ∀ l s1, (txhLoop (some (cbJournalTxhCheck aal area layoutFunc))
          (getJfLastFlushed j.footer.data) fuel (getJhLastCommited j.header.data) []).run
          ⟨j, CheckData.initial area⟩ ≠ some (.ok l, s1) := fun l s1 h1 => hok ⟨l, s1, h1⟩
      obtain ⟨e, rfl, hloop⟩ := Run.error_of_bind hno hrun
      exact ⟨nofun, fun _ => Or.inl (txhLoop_notices fuel _ _ [] _ _ _ rfl hloop)⟩

/-! ## The cut -/

section Cut

theorem cutJournal_lastCommited (j : Journal) {nr : Nat} (h : nr < 256 ^ 8) :
    getJhLastCommited (cutJournal j nr).header.data = nr :=
  Bytes.getLe_setLe_of_lt 8 j.header.data 0 nr h

/-- What a transaction may do does not depend on the newer ones that are cut off. -/
theorem AllOk.cut {pre newer : List Nat} (h : AllOk j area layoutFunc fuel pre newer) (nr : Nat) :
    AllOk (cutJournal j nr) area layoutFunc fuel pre [] := by
  intro older t post hsplit
  have hok := h older t post hsplit
  have hsub : ∀ b, b ∈ older ++ t :: (post ++ []) → b ∈ older ++ t :: (post ++ newer) := by
    intro b hb
    simp only [List.append_nil, List.mem_append, List.mem_cons] at hb ⊢
    rcases hb with hb | hb | hb
    · exact Or.inl hb
    · exact Or.inr (Or.inl hb)
    · exact Or.inr (Or.inr (Or.inl hb))
  refine ⟨fun seen e rest htrace => ?_, hok.closed⟩
  have he := hok.events seen e rest htrace
  refine ⟨he.bounds, he.maps, he.format, he.record, he.once, fun horg => ?_, fun horg hb => ?_⟩
  · obtain ⟨h1, h2⟩ := he.fresh horg
    exact ⟨fun hb => h1 (hsub _ hb), h2⟩
  · apply he.original horg
    rw [List.append_nil] at hb
    rw [← List.cons_append]
    exact List.mem_append_left _ hb

/-- Nothing is left. -/
theorem Passes.cut_all (hfuel : 0 < fuel) :
    Passes (cutJournal j (getJfLastFlushed j.footer.data)) area layoutFunc fuel [] where
  chain := cutJournal_lastCommited j (Bytes.getLe_lt 8 _ 0)
  length := hfuel
  headers := fun nr hnr => by cases hnr
  events := AllOk.nil

/-- What is left in front of a transaction, when it passed, still passes. -/
theorem Passes.cut {pre post : List Nat} {t : Nat} {d : Bytes}
    (hchain : HeaderChain j (pre ++ t :: post).reverse) (hlen : (pre ++ t :: post).length < fuel)
    (hheaders : ∀ nr ∈ pre, HeaderOk area layoutFunc nr)
    (hall : AllOk j area layoutFunc fuel pre (t :: post)) (hd : j.device t = some d) :
    Passes (cutJournal j (getThPrevTx d)) area layoutFunc fuel pre where
  chain := by
    rw [Place.reverse_eq] at hchain
    obtain ⟨c, hc, hrest⟩ := hchain.behind
    unfold prevLink at hc
    rw [hd] at hc
    dsimp only at hc
    split at hc
    · cases hc
      show Chain _ _ (getJhLastCommited (cutJournal j (getThPrevTx d)).header.data) _
      rw [cutJournal_lastCommited j (show getThPrevTx d < 256 ^ 8 from Bytes.getLe_lt 8 d 24)]
      exact hrest
    · cases hc
  length := by
    rw [List.length_append] at hlen
    exact Nat.lt_of_le_of_lt (Nat.le_add_right _ _) hlen
  headers := hheaders
  events := hall.cut _

/-- What the check leaves behind passes it. -/
theorem journal40CheckStruct_passes {j' : Journal}
    (h : (journal40CheckStruct aal area layoutFunc fuel).run j = some (.ok (), j')) :
    ∃ ns, Passes j' area layoutFunc fuel ns := by
  obtain ⟨⟨r, s1⟩, hbody, hres⟩ := Option.map_eq_some_iff.mp h
  cases hres
  change ((checkTraverse aal area layoutFunc fuel).attempt >>= checkEnd).run _ = _ at hbody
  obtain ⟨ret, s2, hret, hend⟩ := Run.bind_ok.mp hbody
  rw [Run.run_attempt] at hret
  obtain ⟨⟨r2, s2⟩, hrun, hres⟩ := Option.map_eq_some_iff.mp hret
  cases hres
  obtain ⟨hok, hstruct⟩ := checkTraverse_spec.2 r2 s2 hrun
  have hj : s2.journal = j :=
    journal40Traverse_keeps none _ (by simp) (secCheck_mem aal area layoutFunc fuel) _
      (txhCheck_mem aal area layoutFunc) fuel _ _ _ rfl hrun
  have hfuel : 0 < fuel := by
    apply Nat.pos_of_ne_zero
    rintro rfl
    cases hrun
  cases r2 with
  | ok _ =>
    cases hend
    rw [hj]
    exact hok rfl
  | error e =>
    cases e with
    | eio | einval | enomem | enospc => cases hend
    | estruct =>
      rw [checkEnd, Run.get_bind] at hend
      by_cases hcur : s2.data.curTxh = 0
      · rw [if_pos hcur] at hend
        cases hend
        dsimp only
        rw [hj]
        exact ⟨[], Passes.cut_all hfuel⟩
      · rw [if_neg hcur, Run.run_bind, loadBlock_run, hj] at hend
        rcases hstruct rfl with hzero | ⟨pre, post, hchain, hlen, hheaders, hall⟩
        · exact absurd hzero hcur
        · cases hd : j.device s2.data.curTxh with
          | none =>
            rw [hd] at hend
            cases hend
          | some d =>
            rw [hd] at hend
            cases hend
            dsimp only
            rw [hj]
            exact ⟨pre, Passes.cut hchain hlen hheaders hall hd⟩

/-- More fuel changes nothing. -/
theorem Passes.mono {ns : List Nat} {fuel' : Nat} (h : Passes j area layoutFunc fuel ns)
    (hle : fuel ≤ fuel') : Passes j area layoutFunc fuel' ns where
  chain := h.chain
  length := Nat.lt_of_lt_of_le h.length hle
  headers := h.headers
  events := by
    have htrace : ∀ t ∈ ns, txTrace j fuel' t = txTrace j fuel t :=
      fun t ht => logTrace_mono hle (h.events.closed t ht)
    intro older t post hsplit
    have hok := h.events older t post hsplit
    have ht : t ∈ ns := by rw [hsplit]; simp
    refine ⟨fun seen e rest hsplit' => ?_, by rw [htrace t ht]; exact hok.closed⟩
    rw [htrace t ht] at hsplit'
    have he := hok.events seen e rest hsplit'
    refine ⟨he.bounds, he.maps, he.format, he.record, he.once, fun horg => ?_, he.original⟩
    refine ⟨(he.fresh horg).1, fun u hu => ?_⟩
    rw [htrace u (by rw [hsplit]; exact List.mem_append_left _ hu)]
    exact (he.fresh horg).2 u hu

/-- A journal that passes is left as it is. -/
theorem Passes.unchanged {ns : List Nat} (h : Passes j area layoutFunc fuel ns) :
    (journal40CheckStruct aal area layoutFunc fuel).run j = some (.ok (), j) := by
  obtain ⟨s', hrun⟩ := checkTraverse_spec.1 ns h
  have hj : s'.journal = j :=
    journal40Traverse_keeps none _ (by simp) (secCheck_mem aal area layoutFunc fuel) _
      (txhCheck_mem aal area layoutFunc) fuel _ _ _ rfl hrun
  have hbody : (checkBody aal area layoutFunc fuel).run ⟨j, CheckData.initial area⟩ = some (.ok (), s') := by
    show ((checkTraverse aal area layoutFunc fuel).attempt >>= checkEnd).run _ = _
    rw [Run.run_bind, Run.run_attempt, hrun]
    rfl
  show Option.map _ _ = _
  rw [hbody, Option.map_some, hj]

end Cut

/-! ## The rules -/

/-- **The rules of the journal**, for its transactions, oldest first. -/
structure Rules (area : Area) (layoutFunc : LayoutFunc) (txs : List Tx) : Prop where
  /-- Headers, log records and wandered blocks lie in the area, -/
  area : ∀ t ∈ txs, ∀ b ∈ t.own, area.start ≤ b ∧ b < area.len
  /-- outside the format area, -/
  format : ∀ t ∈ txs, ∀ b ∈ t.own, layoutFunc (cbCheckFormatBlock b) = false
  /-- and occur once. -/
  once : (txs.flatMap Tx.own).Nodup
  /-- No original location is a block of the same transaction, -/
  same : ∀ t ∈ txs, ∀ b ∈ t.own, b ∉ t.originals
  /-- nor of a newer one. -/
  newer : txs.Pairwise fun old new => ∀ b ∈ new.own, b ∉ old.originals

section Rules

theorem pairwise_of_split {α : Type} {R : α → α → Prop} (l : List α)
    (h : ∀ pre b post, l = pre ++ b :: post → ∀ a ∈ pre, R a b) : l.Pairwise R := by
  induction l using List.reverseRecOn with
  | nil => exact List.Pairwise.nil
  | append_singleton l b ih =>
    refine List.pairwise_append.mpr ⟨ih fun pre c post hl => ?_, List.pairwise_singleton R b, ?_⟩
    · exact h pre c (post ++ [b]) (by rw [hl]; simp)
    · intro a ha c hc
      rw [List.mem_singleton.mp hc]
      exact h l b [] rfl a ha

theorem mem_entryEvents {entries : List (Nat × Nat)} {e : Event} :
    e ∈ entryEvents entries ↔ ∃ p ∈ entries, e = (p.1, .wan) ∨ e = (p.2, .org) := by
  unfold entryEvents
  rw [List.mem_flatMap]
  simp only [List.mem_cons, List.not_mem_nil, or_false]

/-- The blocks of a transaction are met as what they are. -/
theorem mem_events {t : Tx} {e : Event} : e ∈ t.events ↔
    (∃ l ∈ t.logs, e = (l.nr, .lgr)) ∨ ∃ p ∈ t.copies, e = (p.1, .wan) ∨ e = (p.2, .org) := by
  unfold Tx.events Tx.copies
  rw [List.mem_flatMap]
  constructor
  · rintro ⟨l, hl, he⟩
    rcases List.mem_cons.mp he with he | he
    · exact Or.inl ⟨l, hl, he⟩
    · obtain ⟨p, hp, he⟩ := mem_entryEvents.mp he
      exact Or.inr ⟨p, List.mem_flatMap.mpr ⟨l, hl, hp⟩, he⟩
  · rintro (⟨l, hl, he⟩ | ⟨p, hp, he⟩)
    · exact ⟨l, hl, by rw [he]; exact List.mem_cons_self⟩
    · obtain ⟨l, hl, hp⟩ := List.mem_flatMap.mp hp
      exact ⟨l, hl, List.mem_cons_of_mem _ (mem_entryEvents.mpr ⟨p, hp, he⟩)⟩

theorem used_event {t : Tx} {b : Nat} (h : b ∈ t.used) :
    ∃ ty, ty ≠ .org ∧ (b, ty) ∈ t.events := by
  rcases List.mem_append.mp h with hb | hb
  · obtain ⟨l, hl, rfl⟩ := List.mem_map.mp hb
    exact ⟨.lgr, by decide, mem_events.mpr (Or.inl ⟨l, hl, rfl⟩)⟩
  · obtain ⟨p, hp, rfl⟩ := List.mem_map.mp hb
    exact ⟨.wan, by decide, mem_events.mpr (Or.inr ⟨p, hp, Or.inl rfl⟩)⟩

theorem original_event {t : Tx} {b : Nat} (h : b ∈ t.originals) : (b, .org) ∈ t.events := by
  obtain ⟨p, hp, rfl⟩ := List.mem_map.mp h
  exact mem_events.mpr (Or.inr ⟨p, hp, Or.inr rfl⟩)

/-- The blocks of a transaction, met as log records and wandered blocks, are among its events. -/
theorem used_sublist : ∀ logs : List LogRec,
    ((logs.flatMap LogRec.events).filter fun e => e.2 = .lgr).map Prod.fst = logs.map LogRec.nr ∧
    ((logs.flatMap LogRec.events).filter fun e => e.2 = .wan).map Prod.fst =
      (logs.flatMap LogRec.entries).map Prod.fst
  | [] => ⟨rfl, rfl⟩
  | l :: logs => by
    obtain ⟨h1, h2⟩ := used_sublist logs
    have hentries : ∀ entries : List (Nat × Nat),
        (entryEvents entries).filter (fun e => e.2 = .lgr) = [] ∧
        ((entryEvents entries).filter fun e => e.2 = .wan).map Prod.fst = entries.map Prod.fst := by
      intro entries
      induction entries with
      | nil => exact ⟨rfl, rfl⟩
      | cons p entries ih =>
        constructor
        · exact ih.1
        · show p.1 :: ((entryEvents entries).filter fun e => e.2 = .wan).map Prod.fst = _
          rw [ih.2]
          rfl
    rw [List.flatMap_cons, List.filter_append, List.filter_append, List.map_append, List.map_append,
      h1, h2, List.flatMap_cons, List.map_append]
    refine ⟨?_, ?_⟩
    · show (l.nr :: ((entryEvents l.entries).filter fun e => e.2 = .lgr).map Prod.fst) ++ _ = _
      rw [(hentries l.entries).1]
      rfl
    · show ((entryEvents l.entries).filter fun e => e.2 = .wan).map Prod.fst ++ _ = _
      rw [(hentries l.entries).2]

/-- What is met once is one block of the transaction. -/
theorem used_nodup {t : Tx} (h : (blocksOf t.events).Nodup) :
    t.used.Nodup ∧ ∀ b ∈ t.used, b ∉ t.originals := by
  have hsame : ∀ e ∈ t.events, ∀ e' ∈ t.events, e.1 = e'.1 → e = e' :=
    fun e he e' he' heq => List.inj_on_of_nodup_map h he he' heq
  obtain ⟨hlgr, hwan⟩ := used_sublist t.logs
  refine ⟨List.nodup_append.mpr ⟨?_, ?_, ?_⟩, fun b hb horg => ?_⟩
  · rw [← hlgr]
    exact h.sublist (List.filter_sublist.map _)
  · show ((t.logs.flatMap LogRec.entries).map Prod.fst).Nodup
    rw [← hwan]
    exact h.sublist (List.filter_sublist.map _)
  · rintro b hb _ hb' rfl
    obtain ⟨l, hl, rfl⟩ := List.mem_map.mp hb
    obtain ⟨p, hp, heq⟩ := List.mem_map.mp hb'
    have := hsame (l.nr, .lgr) (mem_events.mpr (Or.inl ⟨l, hl, rfl⟩)) (p.1, .wan)
      (mem_events.mpr (Or.inr ⟨p, hp, Or.inl rfl⟩)) heq.symm
    cases congrArg Prod.snd this
  · obtain ⟨ty, hty, he⟩ := used_event hb
    have := hsame (b, ty) he (b, .org) (original_event horg) rfl
    cases this
    exact hty rfl

/-- What the check knows of the transaction `t`, behind the transactions `pre`. -/
structure Fresh (pre : List Tx) (t : Tx) (post : List Tx) : Prop where
  once : (blocksOf t.events).Nodup
  headers : ∀ b ∈ t.used, b ∉ (pre ++ t :: post).map Tx.nr
  older : ∀ b ∈ t.used, ∀ o ∈ pre, b ∉ blocksOf o.events
  originals : ∀ b ∈ t.originals, b ∉ (t :: post).map Tx.nr

/-- From what the check knows of each transaction, no two of them share a block. -/
theorem own_nodup {txs : List Tx} (hnodup : (txs.map Tx.nr).Nodup)
    (hfresh : ∀ pre t post, txs = pre ++ t :: post → Fresh pre t post) :
    (txs.flatMap Tx.own).Nodup := by
  have hheaders : ∀ t ∈ txs, ∀ b ∈ t.used, b ∉ txs.map Tx.nr := by
    intro t ht b hb
    obtain ⟨pre, post, hsplit⟩ := List.append_of_mem ht
    rw [hsplit]
    exact (hfresh pre t post hsplit).headers b hb
  refine List.nodup_flatMap.mpr ⟨fun t ht => ?_, pairwise_of_split txs fun pre t post hsplit o ho => ?_⟩
  · obtain ⟨pre, post, hsplit⟩ := List.append_of_mem ht
    refine List.nodup_cons.mpr ⟨fun hb => ?_, (used_nodup (hfresh pre t post hsplit).once).1⟩
    exact hheaders t ht _ hb (List.mem_map_of_mem ht)
  · have ht : t ∈ txs := by rw [hsplit]; simp
    have homem : o ∈ txs := by rw [hsplit]; exact List.mem_append_left _ ho
    intro b hbo hbt
    rcases List.mem_cons.mp hbo with rfl | hbo
    · rcases List.mem_cons.mp hbt with heq | hbt
      · rw [hsplit, List.map_append] at hnodup
        exact (List.nodup_append.mp hnodup).2.2 o.nr (List.mem_map_of_mem ho) t.nr (by simp) heq
      · exact hheaders t ht _ hbt (List.mem_map_of_mem homem)
    · rcases List.mem_cons.mp hbt with rfl | hbt
      · exact hheaders o homem _ hbo (List.mem_map_of_mem ht)
      · obtain ⟨ty, -, he⟩ := used_event hbo
        exact (hfresh pre t post hsplit).older b hbt o ho (List.mem_map_of_mem he)

/-- And no transaction writes over a block of itself or of a newer one. -/
theorem originals_spared {txs : List Tx}
    (hfresh : ∀ pre t post, txs = pre ++ t :: post → Fresh pre t post) :
    (∀ t ∈ txs, ∀ b ∈ t.own, b ∉ t.originals) ∧
    txs.Pairwise fun old new => ∀ b ∈ new.own, b ∉ old.originals := by
  constructor
  · intro t ht b hb horg
    obtain ⟨pre, post, hsplit⟩ := List.append_of_mem ht
    have hf := hfresh pre t post hsplit
    rcases List.mem_cons.mp hb with rfl | hb
    · exact hf.originals _ horg (by simp)
    · exact (used_nodup hf.once).2 b hb horg
  · refine pairwise_of_split txs fun pre t post hsplit o ho b hb horg => ?_
    rcases List.mem_cons.mp hb with rfl | hb
    · obtain ⟨pre1, pre2, rfl⟩ := List.append_of_mem ho
      have hf := hfresh pre1 o (pre2 ++ t :: post) (by rw [hsplit]; simp)
      exact hf.originals _ horg (by simp)
    · exact (hfresh pre t post hsplit).older b hb o ho (List.mem_map_of_mem (original_event horg))

/-- The transactions a chain of headers stands for, where all their log records lead back. -/
theorem txs_of_chain {j : Journal} {fuel lastFlushed : Nat} : ∀ {ns : List Nat} {blk : Nat},
    Chain (prevLink j.device) lastFlushed blk ns → (∀ n ∈ ns, (txTrace j fuel n).2 = .closed) →
    ∃ ts : List Tx, ts.map Tx.nr = ns ∧ TxChain j.device j.blksize lastFlushed blk ts ∧
      ∀ t ∈ ts, t.events = (txTrace j fuel t.nr).1
  | [], _, h, _ => ⟨[], rfl, h, fun t ht => by cases ht⟩
  | n :: ns, blk, ⟨hne, hn, c, hc, hns⟩, hclosed => by
    subst hn
    obtain ⟨ts, hmap, hchain, hevents⟩ := txs_of_chain hns
      fun m hm => hclosed m (List.mem_cons_of_mem _ hm)
    obtain ⟨logs, hlogs, htrace⟩ := logTrace_closed (hclosed n List.mem_cons_self)
    unfold prevLink at hc
    cases hd : j.device n with
    | none =>
      rw [hd] at hc
      cases hc
    | some d =>
      rw [hd] at hc
      dsimp only at hc
      split at hc
      · rename_i hmagic
        cases hc
        have hstart : logStart j.device n = getThNextBlock d := by
          unfold logStart headerBlock
          rw [hd]
          rfl
        rw [hstart] at hlogs
        refine ⟨⟨n, d, logs⟩ :: ts, by rw [List.map_cons, hmap],
          ⟨hne, rfl, ⟨hd, hmagic, hlogs⟩, hchain⟩, fun t ht => ?_⟩
        rcases List.mem_cons.mp ht with rfl | ht
        · exact htrace.symm
        · exact hevents t ht
      · cases hc

/-- The transactions of a journal that passes keep the rules. -/
theorem Passes.rules {ns : List Nat} (h : Passes j area layoutFunc fuel ns) :
    ∃ txs : List Tx, TxChain j.device j.blksize (getJfLastFlushed j.footer.data)
      (getJhLastCommited j.header.data) txs.reverse ∧ Rules area layoutFunc txs := by
  obtain ⟨ts, hmap, hchain, hevents⟩ := txs_of_chain h.chain fun n hn =>
    h.events.closed n (List.mem_reverse.mp hn)
  obtain ⟨txs, rfl⟩ : ∃ txs : List Tx, ts = txs.reverse := ⟨ts.reverse, by simp⟩
  rw [List.map_reverse, List.reverse_inj] at hmap
  refine ⟨txs, hchain, ?_⟩
  have hnodup : (txs.map Tx.nr).Nodup := by
    rw [hmap]
    exact List.nodup_reverse.mp (Chain.nodup h.chain)
  have hheader : ∀ t ∈ txs, HeaderOk area layoutFunc t.nr := by
    intro t ht
    apply h.headers
    rw [← hmap]
    exact List.mem_map_of_mem ht
  have hok : ∀ pre t post, txs = pre ++ t :: post →
      TxOk j area layoutFunc fuel (pre.map Tx.nr) t.nr (post.map Tx.nr) := by
    intro pre t post hsplit
    have := h.events (pre.map Tx.nr) t.nr (post.map Tx.nr) (by rw [← hmap, hsplit]; simp)
    rwa [List.append_nil] at this
  have hevent : ∀ pre t post, txs = pre ++ t :: post → ∀ e ∈ t.events,
      ∃ seen, EventOk j area layoutFunc fuel (pre.map Tx.nr) t.nr (post.map Tx.nr) seen e := by
    intro pre t post hsplit e he
    rw [hevents t (by rw [hsplit]; simp)] at he
    obtain ⟨seen, rest, htrace⟩ := List.append_of_mem he
    exact ⟨seen, (hok pre t post hsplit).events seen e rest htrace⟩
  have hfresh : ∀ pre t post, txs = pre ++ t :: post → Fresh pre t post := by
    intro pre t post hsplit
    refine ⟨?_, fun b hb => ?_, fun b hb o ho => ?_, fun b hb => ?_⟩
    · refine List.pairwise_map.mpr (pairwise_of_split _ fun seen e rest htrace a ha heq => ?_)
      rw [hevents t (by rw [hsplit]; simp)] at htrace
      apply ((hok pre t post hsplit).events seen e rest htrace).once
      rw [← heq]
      exact List.mem_map_of_mem ha
    · obtain ⟨ty, hty, he⟩ := used_event hb
      obtain ⟨seen, hgood⟩ := hevent pre t post hsplit _ he
      rw [List.map_append, List.map_cons]
      exact (hgood.fresh hty).1
    · obtain ⟨ty, hty, he⟩ := used_event hb
      obtain ⟨seen, hgood⟩ := hevent pre t post hsplit _ he
      rw [hevents o (by rw [hsplit]; simp [ho])]
      exact (hgood.fresh hty).2 o.nr (List.mem_map_of_mem ho)
    · obtain ⟨seen, hgood⟩ := hevent pre t post hsplit _ (original_event hb)
      exact hgood.original rfl
  have howns : ∀ t ∈ txs, ∀ b ∈ t.own,
      (area.start ≤ b ∧ b < area.len) ∧ layoutFunc (cbCheckFormatBlock b) = false := by
    intro t ht b hb
    rcases List.mem_cons.mp hb with rfl | hb
    · exact ⟨(hheader t ht).bounds, (hheader t ht).format⟩
    · obtain ⟨pre, post, hsplit⟩ := List.append_of_mem ht
      obtain ⟨ty, hty, he⟩ := used_event hb
      obtain ⟨seen, hgood⟩ := hevent pre t post hsplit _ he
      exact ⟨hgood.bounds, hgood.format hty⟩
  obtain ⟨hsame, hnewer⟩ := originals_spared hfresh
  exact ⟨fun t ht b hb => (howns t ht b hb).1, fun t ht b hb => (howns t ht b hb).2,
    own_nodup hnodup hfresh, hsame, hnewer⟩

end Rules

/-! ## Together -/

/-- The claim for one device content: where the loops end the check accesses no bit outside its maps, and if it
    succeeds, the transactions that can be reached from the header it leaves behind keep the rules, and another check
    succeeds and changes nothing. -/
structure CheckSound (aal : AalBits) (area : Area) (layoutFunc : LayoutFunc) (j : Journal) : Prop where
  defined : NoLoops j → ∃ fuel, (journal40CheckStruct aal area layoutFunc fuel).run j ≠ none
  rules : ∀ fuel j', (journal40CheckStruct aal area layoutFunc fuel).run j = some (.ok (), j') →
    ∃ txs : List Tx, TxChain j'.device j'.blksize (getJfLastFlushed j'.footer.data)
      (getJhLastCommited j'.header.data) txs.reverse ∧ Rules area layoutFunc txs
  again : ∀ fuel j', (journal40CheckStruct aal area layoutFunc fuel).run j = some (.ok (), j') →
    ∀ fuel' ≥ fuel, (journal40CheckStruct aal area layoutFunc fuel').run j' = some (.ok (), j')

/-- **The check of the journal is sound** on every device content, if every block of the area is in its maps.  In a
    longer area there is a device content on which it leaves its maps. -/
theorem journal40CheckStruct_sound_iff (aal : AalBits) (area : Area) (layoutFunc : LayoutFunc) :
    ((area.len + 7) / 8 < two32 → ∀ j, CheckSound aal area layoutFunc j) ∧
    (area.LastFree layoutFunc → (∀ j, CheckSound aal area layoutFunc j) → (area.len + 7) / 8 < two32) := by
  constructor
  · intro hlen j
    refine ⟨fun hloops => ⟨linkFuel, checkStruct_returns aal layoutFunc hlen hloops⟩, fun fuel j' h => ?_,
      fun fuel j' h fuel' hle => ?_⟩
    · obtain ⟨ns, hpasses⟩ := journal40CheckStruct_passes h
      exact hpasses.rules
    · obtain ⟨ns, hpasses⟩ := journal40CheckStruct_passes h
      exact (hpasses.mono hle).unchanged
  · intro hlast hall
    by_contra hlen
    obtain ⟨fuel, hfuel⟩ := (hall (lastJournal area)).defined (lastJournal_noLoops area)
    exact hfuel (lastJournal_undefined hlast (Nat.le_of_not_lt hlen) fuel)

/-- In an area of `2 ^ 35` blocks the maps have no byte at all. -/
theorem journal40CheckStruct_long :
    ¬CheckSound AalBits.plain ⟨16, 34359738368⟩ (fun _ => false) (lastJournal ⟨16, 34359738368⟩) := by
  intro h
  have hlast : Area.LastFree ⟨16, 34359738368⟩ (fun _ => false) := ⟨by decide, by decide, rfl⟩
  obtain ⟨fuel, hfuel⟩ := h.defined (lastJournal_noLoops _)
  exact hfuel (lastJournal_undefined hlast (by decide) fuel)

/-- A check of the sample journal, with block 25 in the format area. -/
theorem sampleJournal_cut : ((journal40CheckStruct AalBits.bytewise ⟨16, 40⟩ (fun f => f 25 1) 3).run
    sampleJournal).map (fun r => (r.1.toBool, getJhLastCommited r.2.header.data)) = some (true, 20) := by
  decide +kernel

/-- Transaction 23 has block 25 as a wandered block: the sample journal is cut, and transaction 20 is left. -/
theorem journal40CheckStruct_sound_sample : ∃ j',
    (journal40CheckStruct AalBits.bytewise ⟨16, 40⟩ (fun f => f 25 1) 3).run sampleJournal = some (.ok (), j') ∧
    getJhLastCommited j'.header.data = 20 ∧
    ∃ txs : List Tx, TxChain j'.device j'.blksize (getJfLastFlushed j'.footer.data)
      (getJhLastCommited j'.header.data) txs.reverse ∧ Rules ⟨16, 40⟩ (fun f => f 25 1) txs := by
  obtain ⟨⟨r, j'⟩, h, hcut⟩ := Option.map_eq_some_iff.mp sampleJournal_cut
  obtain ⟨hok, hlast⟩ := Prod.mk.inj hcut
  cases r with
  | error e => cases hok
  | ok u => exact ⟨j', h, hlast, ((journal40CheckStruct_sound_iff AalBits.bytewise ⟨16, 40⟩ fun f => f 25 1).1
      (by decide) sampleJournal).rules 3 j' h⟩

end Reiser4.Journal40
