/-
  A replay that is cut off, and the next one.

  The power may fail while a replay writes to an original location: the writes before are done, the
  block that was being written holds anything, and nothing else has changed.  The header and the
  footer still name the same transactions (they are written last, by `journal40_sync`, one after the
  other), so the next start replays all of them from the beginning.

  `Torn O dev dev'`: the device `dev'` is `dev` outside the original locations `O`.

    1. `journal40Traverse_guided`   what a traverse of a well-formed journal reads is never in `O`, and
                                    what it writes always is: one walk through the loops;
    2. `cut_torn`                   so a replay that is cut off leaves a torn device;
    3. `replay_torn`                and a replay of a torn device ends as one of the whole device;
    4. `recover_survives`           after any number of cuts, and again and again;
    5. `recover_between_iff`        but not always when it is cut between the header and the footer.
-/
import Mathlib.Logic.Relation
import Reiser4.Lib.Uniform
import Reiser4.Journal40.Replay
import Reiser4.Fs.Areas

namespace Reiser4.Journal40

open Reiser4.Lib

/-! ## The calls around a replay -/

/-- `cb_fetch_journal`. -/
def cbFetchJournal (start _width : Nat) : Run Journal Errno Unit := do
  let j ← Run.get
  match aalBlockLoad j.device start with
  | none => Run.fail .eio
  | some header => do
    Run.modify fun j => { j with header }
    match aalBlockLoad j.device (start + 1) with
    | none => Run.fail .eio
    | some footer => Run.modify fun j => { j with footer }

/-- `journal40_open`; an error stands for the NULL it returns. -/
def journal40Open (device : Device) (blksize : Nat) (format : FormatEnt) (oid : OidEnt) :
    Option (Except Errno Journal) :=
  let j : Journal := { blksize, state := 0, device, format, oid, header := ⟨0, Bytes.zero⟩,
                       footer := ⟨0, Bytes.zero⟩ }
  ((Fs.journal40Layout cbFetchJournal blksize).run j).map fun r => r.1.map fun _ => r.2

/-- `cb_sync_journal`. -/
def cbSyncJournal (_start _width : Nat) : Run Journal Errno Unit := do
  let j ← Run.get
  match aalBlockWrite j.device j.header with
  | none => Run.fail .eio
  | some device => do
    Run.modify fun j => j.withDevice device
    match aalBlockWrite device j.footer with
    | none => Run.fail .eio
    | some device => Run.modify fun j => j.withDevice device

/-- `journal40_sync`. -/
def journal40Sync : Run Journal Errno Unit := do
  let j ← Run.get
  Fs.journal40Layout cbSyncJournal j.blksize
  Run.modify fun j => { j with state := j.state &&& (two32 - 1 - entityDirty) }

/-- The start of a repair, as far as it is about the journal: it is opened, replayed and written back.
    The result is what is on the device then. -/
def recover (fuel blksize : Nat) (format : FormatEnt) (oid : OidEnt) (device : Device) :
    Option (Except Errno Device) :=
  match journal40Open device blksize format oid with
  | none => none
  | some (.error e) => some (.error e)
  | some (.ok j) =>
    ((do journal40Replay fuel; journal40Sync : Run Journal Errno Unit).run j).map
      fun r => r.1.map fun _ => r.2.device

/-! ## Torn devices -/

/-- The devices are the same outside `O`, and can be read in the same places. -/
structure Torn (O : List Nat) (dev dev' : Device) : Prop where
  same : ∀ b, b ∉ O → dev' b = dev b
  readable : ∀ b, (dev' b).isSome = (dev b).isSome

theorem Torn.refl (O : List Nat) (dev : Device) : Torn O dev dev := ⟨fun _ _ => rfl, fun _ => rfl⟩

theorem Torn.trans {O : List Nat} {dev dev' dev'' : Device} (h : Torn O dev dev')
    (h' : Torn O dev' dev'') : Torn O dev dev'' :=
  ⟨fun b hb => (h'.same b hb).trans (h.same b hb), fun b => (h'.readable b).trans (h.readable b)⟩

/-- A write to one of the original locations. -/
theorem Torn.write {O : List Nat} {dev dev' dev'' : Device} (h : Torn O dev dev') {b : Block}
    (hb : b.nr ∈ O) (hw : aalBlockWrite dev' b = some dev'') : Torn O dev dev'' := by
  unfold aalBlockWrite at hw
  split at hw
  · next hsome =>
    cases hw
    refine ⟨fun n hn => ?_, fun n => ?_⟩
    · have hne : n ≠ b.nr := fun he => hn (he ▸ hb)
      rw [if_neg hne]
      exact h.same n hn
    · split
      · next he =>
        rw [he, ← h.readable, hsome]
        rfl
      · exact h.readable n
  · cases hw

/-- The journal of the state is `j` on a torn device. -/
structure TornLog {δ : Type} (O : List Nat) (j : Journal) (s : JState δ) : Prop where
  blksize : s.journal.blksize = j.blksize
  header : s.journal.header = j.header
  footer : s.journal.footer = j.footer
  torn : Torn O j.device s.journal.device

/-! ## One walk through the traverse -/

section Guided

open Run

variable {δ : Type} {O : List Nat} {j : Journal}
  {P : (α : Type) → Run (JState δ) Errno α → Prop} (hP : Guided (TornLog O j) P)
  {han : HanFunc δ} {sec : SecFunc δ}
  (hload : ∀ b, b ∉ O → P Block (loadBlock b))
  (hhan : ∀ b o, o ∈ O → P Unit (han b o)) (hsec : ∀ tx n t, P Unit (sec tx n t))

/-- What a block outside `O` holds is known. -/
theorem loadBlock_known {b : Nat} {d : Bytes} (hb : b ∉ O) (hd : j.device b = some d)
    (s : JState δ) (blk : Block) (s' : JState δ) (hs : TornLog O j s)
    (h : (loadBlock b).run s = some (.ok blk, s')) : blk = { nr := b, data := d } := by
  obtain ⟨-, d', hd', rfl⟩ := loadBlock_ok h
  rw [hs.torn.same b hb, hd] at hd'
  rw [Option.some.inj hd']

include hP hload hhan hsec

/-- The entries are read from outside `O` and written into it. -/
theorem entriesLoop_guided (tx : Block) (log : Bytes) (n : Nat) : ∀ o,
    (∀ p ∈ lrEntries log n o, p.1 ∉ O ∧ p.2 ∈ O) →
    P Unit (entriesLoop (some han) (some sec) tx log n o) := by
  induction n with
  | zero =>
    intro o _
    exact hP.ret ()
  | succ n ih =>
    intro o hin
    rw [entriesLoop]
    rw [lrEntries] at hin
    split
    · exact hP.ret ()
    · next hne =>
      rw [if_neg hne] at hin
      obtain ⟨hw, ho⟩ := hin _ (List.mem_cons_self ..)
      refine hP.bind (hsec _ _ _) fun _ => hP.bind (hsec _ _ _) fun _ => ?_
      refine hP.bind (hload _ hw) fun wan => hP.bind (hhan wan _ ho) fun _ => ?_
      exact ih _ fun p hp => hin p (List.mem_cons_of_mem _ hp)

/-- The log records of a chain are where they were. -/
theorem logLoop_guided (tx : Block) : ∀ (fuel : Nat) (logs : List LogRec) (blk : Nat),
    LogChain j.device j.blksize tx.nr blk logs →
    (∀ l ∈ logs, l.nr ∉ O ∧ ∀ p ∈ l.entries, p.1 ∉ O ∧ p.2 ∈ O) →
    P Unit (logLoop (some han) (some sec) tx fuel blk) := by
  intro fuel
  induction fuel with
  | zero =>
    intro logs blk _ _
    exact hP.hang
  | succ fuel ih =>
    intro logs blk hchain hin
    rw [logLoop]
    cases logs with
    | nil =>
      have hblk : blk = tx.nr := hchain
      rw [if_pos hblk]
      exact hP.ret ()
    | cons l logs =>
      obtain ⟨hne, rfl, d, hd, hm, he, hrest⟩ := hchain
      obtain ⟨hnr, hentries⟩ := hin l (List.mem_cons_self ..)
      rw [if_neg hne]
      refine hP.bind (hsec _ _ _) fun _ => ?_
      refine hP.bind_known _ (hload _ hnr) (loadBlock_known hnr hd) ?_
      rw [if_pos hm]
      refine hP.get_known (x := entriesLoop (some han) (some sec) tx d (lrCapacity j.blksize)
        lrHeaderSize >>= fun _ => logLoop (some han) (some sec) tx fuel (getLhNextBlock d))
        (fun s hs => by rw [hs.blksize]) ?_
      refine hP.bind (entriesLoop_guided hP hload hhan hsec tx d _ _ fun p hp => ?_) fun _ => ?_
      · exact hentries p (he ▸ hp)
      · exact ih logs _ hrest fun l' hl' => hin l' (List.mem_cons_of_mem _ hl')

omit hhan hsec in
/-- So are the headers. -/
theorem txhLoop_guided (lastFlushed : Nat) : ∀ (fuel : Nat) (ts : List Tx) (blk : Nat)
    (acc : List Block), TxChain j.device j.blksize lastFlushed blk ts → (∀ t ∈ ts, t.nr ∉ O) →
    P (List Block) (txhLoop none lastFlushed fuel blk acc) := by
  intro fuel
  induction fuel with
  | zero =>
    intro ts blk acc _ _
    exact hP.hang
  | succ fuel ih =>
    intro ts blk acc hchain hout
    rw [txhLoop]
    cases ts with
    | nil =>
      have hblk : blk = lastFlushed := hchain
      rw [if_pos hblk]
      exact hP.ret acc
    | cons t ts =>
      obtain ⟨hne, rfl, ⟨hd, hm, -⟩, hrest⟩ := hchain
      have hnr := hout t (List.mem_cons_self ..)
      rw [if_neg hne]
      refine hP.bind (hP.ret ()) fun _ => ?_
      refine hP.bind_known _ (hload _ hnr) (loadBlock_known hnr hd) ?_
      rw [if_pos hm]
      exact ih ts _ _ hrest fun t' ht' => hout t' (List.mem_cons_of_mem _ ht')

theorem transLoop_guided (fuel : Nat) : ∀ (txs : List Tx),
    (∀ t ∈ txs, LogChain j.device j.blksize t.nr (getThNextBlock t.header) t.logs ∧
      ∀ l ∈ t.logs, l.nr ∉ O ∧ ∀ p ∈ l.entries, p.1 ∉ O ∧ p.2 ∈ O) →
    P Unit (transLoop fuel (some han) (some sec) (txs.map Tx.block)) := by
  intro txs
  induction txs with
  | nil =>
    intro _
    exact hP.ret ()
  | cons t txs ih =>
    intro hin
    obtain ⟨hchain, hlogs⟩ := hin t (List.mem_cons_self ..)
    refine hP.bind (logLoop_guided hP hload hhan hsec t.block fuel t.logs _ hchain hlogs) fun _ => ?_
    exact ih fun t' ht' => hin t' (List.mem_cons_of_mem _ ht')

end Guided

/-- The original locations of all transactions. -/
def originals (txs : List Tx) : List Nat := txs.flatMap Tx.originals

/-- No block of a transaction is an original location of any: the blocks of a transaction that is not
    flushed are not free for another one. -/
def Apart (txs : List Tx) : Prop := ∀ t ∈ txs, ∀ b ∈ t.own, b ∉ originals txs

theorem Apart.logs {txs : List Tx} (h : Apart txs) {t : Tx} (ht : t ∈ txs) {l : LogRec}
    (hl : l ∈ t.logs) :
    l.nr ∉ originals txs ∧ ∀ p ∈ l.entries, p.1 ∉ originals txs ∧ p.2 ∈ originals txs := by
  have hused : ∀ b ∈ t.used, b ∉ originals txs := fun b hb =>
    h t ht b (List.mem_cons_of_mem _ hb)
  refine ⟨hused _ (List.mem_append_left _ (List.mem_map_of_mem hl)), fun p hp => ?_⟩
  have hcopy : p ∈ t.copies := List.mem_flatMap.mpr ⟨l, hl, hp⟩
  exact ⟨hused _ (List.mem_append_right _ (List.mem_map_of_mem hcopy)),
    List.mem_flatMap.mpr ⟨t, ht, List.mem_map_of_mem hcopy⟩⟩

/-- A torn device carries the same transactions. -/
theorem TornLog.chain {δ : Type} {j : Journal} {txs : List Tx} {s : JState δ}
    (hw : WellFormed j txs) (ha : Apart txs) (hs : TornLog (originals txs) j s) :
    TxChain s.journal.device s.journal.blksize (getJfLastFlushed j.footer.data)
      (getJhLastCommited j.header.data) txs.reverse := by
  rw [hs.blksize]
  refine hw.chain.congr fun t ht => ?_
  have ht' := List.mem_reverse.mp ht
  exact ⟨hs.torn.same _ (ha t ht' _ (List.mem_cons_self ..)),
    fun l hl => hs.torn.same _ (ha.logs ht' hl).1⟩

/-- **The traverse reads outside the original locations and writes into them.** -/
theorem journal40Traverse_guided {δ : Type} {j : Journal} {txs : List Tx}
    {P : (α : Type) → Run (JState δ) Errno α → Prop}
    (hP : Run.Guided (TornLog (originals txs) j) P) {han : HanFunc δ} {sec : SecFunc δ}
    (hload : ∀ b, b ∉ originals txs → P Block (loadBlock b))
    (hhan : ∀ b o, o ∈ originals txs → P Unit (han b o)) (hsec : ∀ tx n t, P Unit (sec tx n t))
    (hw : WellFormed j txs) (ha : Apart txs) (fuel : Nat) :
    P Unit (journal40Traverse fuel none (some han) (some sec)) := by
  refine hP.get_known (x := txhLoop none (getJfLastFlushed j.footer.data) fuel
    (getJhLastCommited j.header.data) [] >>= transLoop fuel (some han) (some sec))
    (fun s hs => by rw [hs.header, hs.footer]) ?_
  have hnr : ∀ t ∈ txs.reverse, t.nr ∉ originals txs := fun t ht =>
    ha t (List.mem_reverse.mp ht) _ (List.mem_cons_self ..)
  refine hP.bind_known (txs.map Tx.block) (txhLoop_guided hP hload _ _ _ _ [] hw.chain hnr) ?_ ?_
  · intro s l s' hs h
    obtain ⟨-, hl⟩ := txhLoop_replay _ _ txs.reverse _ _ _ _ _ (hs.chain hw ha) h
    rw [hl, List.append_nil, ← List.map_reverse, List.reverse_reverse]
  · refine transLoop_guided hP hload hhan hsec fuel txs fun t ht => ⟨?_, fun l hl => ha.logs ht hl⟩
    exact (TxChain.mem hw.chain t (List.mem_reverse.mpr ht)).2.2

/-! ## A replay that is cut off -/

/-- `cb_replay` on a device that does `writes` writes and loses power in the next one, which leaves
    `torn` in the block. -/
def cbReplayCut (writes : Nat) (torn : Bytes) : HanFunc ReplayCount := fun block orig => do
  let s ← Run.get
  if s.data.blkCount ≤ writes then cbReplay block orig
  else do
    cbReplay { block with data := torn } orig
    Run.fail .eio

section Cut

variable {O : List Nat} {j : Journal}

theorem loadBlock_uniform {b : Nat} (hb : b ∉ O) :
    Run.Uniform (TornLog O j) (loadBlock (δ := ReplayCount) b) := by
  refine ⟨loadBlock_keeps b, fun s t blk s' hs ht h => ?_⟩
  obtain ⟨-, d, hd, rfl⟩ := loadBlock_ok h
  have hdev : t.journal.device b = some d := by
    rw [ht.torn.same b hb, ← hs.torn.same b hb, hd]
  refine ⟨t, ?_⟩
  rw [loadBlock, Run.get_bind, aalBlockLoad, hdev]
  rfl

theorem cbReplay_keeps_torn (b : Block) {o : Nat} (ho : o ∈ O) :
    Run.Keeps (TornLog O j) (cbReplay (δ := ReplayCount) b o) := by
  intro s r s' hs h
  rw [cbReplay, Run.get_bind] at h
  cases hw : aalBlockWrite s.journal.device (aalBlockMove b o) with
  | none =>
    rw [hw] at h
    cases h
    exact hs
  | some dev =>
    rw [hw] at h
    cases h
    exact ⟨hs.blksize, hs.header, hs.footer, hs.torn.write ho hw⟩

theorem cbReplay_uniform (b : Block) {o : Nat} (ho : o ∈ O) :
    Run.Uniform (TornLog O j) (cbReplay (δ := ReplayCount) b o) := by
  refine ⟨cbReplay_keeps_torn b ho, fun s t r s' hs ht h => ?_⟩
  have hsome : (s.journal.device o).isSome = true := by
    rw [cbReplay, Run.get_bind, aalBlockWrite, aalBlockMove] at h
    by_contra hno
    simp [hno] at h
  have hsome' : (t.journal.device o).isSome = true := by
    rw [ht.torn.readable, ← hs.torn.readable, hsome]
  obtain ⟨dev, hdev⟩ : ∃ dev, aalBlockWrite t.journal.device (aalBlockMove b o) = some dev :=
    ⟨_, if_pos hsome'⟩
  exact ⟨_, by rw [cbReplay, Run.get_bind, hdev]; rfl⟩

theorem cbPrintReplay_uniform (tx : Block) (nr : Nat) (ty : BlockType) :
    Run.Uniform (TornLog O j) (cbPrintReplay tx nr ty) := by
  refine ⟨fun s r s' hs h => ?_, fun s t r s' _ _ h => ?_⟩
  · have he := cbPrintReplay_ok h
    exact ⟨by rw [he, hs.blksize], by rw [he, hs.header], by rw [he, hs.footer],
      by rw [he]; exact hs.torn⟩
  · cases ty <;> exact ⟨_, rfl⟩

theorem cbReplayCut_keeps (writes : Nat) (torn : Bytes) (b : Block) {o : Nat} (ho : o ∈ O) :
    Run.Keeps (TornLog O j) (cbReplayCut writes torn b o) := by
  refine Run.Keeps.bind Run.Keeps.get fun s => ?_
  split
  · exact cbReplay_keeps_torn b ho
  · exact Run.Keeps.bind (cbReplay_keeps_torn _ ho) fun _ => Run.Keeps.fail _

variable {txs : List Tx}

/-- **A replay that is cut off leaves a torn device**, and nothing else changed. -/
theorem cut_torn (hw : WellFormed j txs) (ha : Apart txs) {fuel writes : Nat} {torn : Bytes}
    {n : ReplayCount} {r : Except Errno Unit} {s : JState ReplayCount}
    (h : (journal40Traverse fuel none (some (cbReplayCut writes torn)) (some cbPrintReplay)).run
      ⟨j, n⟩ = some (r, s)) : TornLog (originals txs) j s :=
  journal40Traverse_guided (Run.keeps_guided _) (fun b _ => loadBlock_keeps b)
    (fun b _ ho => cbReplayCut_keeps writes torn b ho)
    (fun tx nr ty => (cbPrintReplay_uniform tx nr ty).1) hw ha fuel ⟨j, n⟩ r s
    ⟨rfl, rfl, rfl, Torn.refl _ _⟩ h

/-! ## The replay of a torn device -/

/-- What counts of a journal on its device. -/
structure Alike (a b : Journal) : Prop where
  blksize : b.blksize = a.blksize
  device : b.device = a.device
  header : b.header = a.header
  footer : b.footer = a.footer

/-- The step behind the traverse looks at nothing else. -/
theorem journal40Update_alike {s s' t : JState ReplayCount} (h : Alike s.journal t.journal)
    (hrun : journal40Update.run s = some (.ok (), s')) :
    ∃ t', journal40Update.run t = some (.ok (), t') ∧ Alike s'.journal t'.journal := by
  simp only [journal40Update, Run.get_bind] at hrun ⊢
  rw [h.header, h.footer]
  split at hrun
  · next he =>
    cases hrun
    exact ⟨t, by rw [if_pos he]; rfl, h⟩
  · next hne =>
    obtain ⟨tx, s1, h1, h2⟩ := Run.bind_ok.mp hrun
    obtain ⟨rfl, d, hd, rfl⟩ := loadBlock_ok h1
    have hload : (loadBlock (getJhLastCommited s1.journal.header.data)).run t =
        some (.ok { nr := getJhLastCommited s1.journal.header.data, data := d }, t) := by
      rw [loadBlock, Run.get_bind, aalBlockLoad, h.device, hd]
      rfl
    rw [if_neg hne, Run.bind_of_ok hload]
    split at h2
    · next hm =>
      cases h2
      rw [if_pos hm]
      refine ⟨_, rfl, h.blksize, h.device, h.header, ?_⟩
      show (⟨t.journal.footer.nr, footerOfTx t.journal.footer.data d _⟩ : Block) = _
      rw [h.footer]
      rfl
    · exact absurd h2 Run.fail_ok

theorem journal40UpdateFormat_alike {a b : Journal} (h : Alike a b) :
    Alike (journal40UpdateFormat a) (journal40UpdateFormat b) := by
  have hsame (x : Journal) : Alike x (journal40UpdateFormat x) := by
    unfold journal40UpdateFormat
    split <;> exact ⟨rfl, rfl, rfl, rfl⟩
  have ha := hsame a
  have hb := hsame b
  exact ⟨by rw [hb.blksize, h.blksize, ha.blksize], by rw [hb.device, h.device, ha.device],
    by rw [hb.header, h.header, ha.header], by rw [hb.footer, h.footer, ha.footer]⟩

theorem journal40Invalidate_alike {a b : Journal} (h : Alike a b) :
    Alike (journal40Invalidate a) (journal40Invalidate b) := by
  refine ⟨h.blksize, h.device, ?_, ?_⟩
  · show (⟨b.header.nr, setJhLastCommited b.header.data 0⟩ : Block) = _
    rw [h.header]
    rfl
  · show (⟨b.footer.nr, _⟩ : Block) = _
    rw [h.footer]
    rfl

theorem WellFormed.torn (hw : WellFormed j txs) (ha : Apart txs) {j₁ : Journal} {n : ReplayCount}
    (hs : TornLog (originals txs) j ⟨j₁, n⟩) : WellFormed j₁ txs := by
  refine ⟨?_, hw.distinct, hw.own, hw.older⟩
  have hchain := hs.chain hw ha
  rwa [← hs.header, ← hs.footer] at hchain

/-- The copies of the transactions are made from outside the original locations, so they overlay a
    torn device as they do the whole one. -/
theorem replayed_torn (hw : WellFormed j txs) (ha : Apart txs) {dev : Device}
    (ht : Torn (originals txs) j.device dev) :
    replayed dev (copies txs) = replayed j.device (copies txs) := by
  funext b
  rw [replayed_newest _ _ hw.readsFresh, replayed_newest _ _ hw.readsFresh]
  cases hnew : newestWandered (copies txs) b with
  | none =>
    refine ht.same b fun hb => ?_
    obtain ⟨t, htx, hbt⟩ := List.mem_flatMap.mp hb
    obtain ⟨p, hp, rfl⟩ := List.mem_map.mp hbt
    unfold newestWandered at hnew
    rw [Option.map_eq_none_iff, List.find?_eq_none] at hnew
    have := hnew p (List.mem_reverse.mpr (List.mem_flatMap.mpr ⟨t, htx, hp⟩))
    simp at this
  | some w =>
    unfold newestWandered at hnew
    obtain ⟨p, hfind, rfl⟩ := Option.map_eq_some_iff.mp hnew
    obtain ⟨t, htx, hp⟩ := List.mem_flatMap.mp
      (List.mem_reverse.mp (List.mem_of_find?_eq_some hfind))
    refine ht.same _ (ha t htx _ (List.mem_cons_of_mem _ (List.mem_append_right _ ?_)))
    exact List.mem_map_of_mem hp

/-- A successful replay, step by step. -/
theorem journal40Replay_of_ok {fuel : Nat} {s1 s2 : JState ReplayCount}
    (h1 : (journal40Traverse fuel none (some cbReplay) (some cbPrintReplay)).run ⟨j, ⟨0, 0⟩⟩ =
      some (.ok (), s1))
    (h2 : journal40Update.run { s1 with journal := journal40UpdateFormat s1.journal } =
      some (.ok (), s2)) :
    (journal40Replay fuel).run j = some (.ok (), journal40Invalidate s2.journal) := by
  show ((replayBody fuel).run ⟨j, ⟨0, 0⟩⟩).map _ = _
  unfold replayBody
  rw [Run.bind_of_ok h1, Run.modify_bind, Run.bind_of_ok h2]
  rfl

/-- **The replay of a torn device** ends as that of the whole one. -/
theorem replay_torn (hw : WellFormed j txs) (ha : Apart txs) {j' j₁ : Journal} {fuel : Nat}
    (hs : TornLog (originals txs) j (⟨j₁, ⟨0, 0⟩⟩ : JState ReplayCount))
    (hrun : (journal40Replay fuel).run j = some (.ok (), j')) :
    ∃ j₁', (journal40Replay fuel).run j₁ = some (.ok (), j₁') ∧ Alike j' j₁' := by
  obtain ⟨s1, s2, h1, h2, rfl⟩ := journal40Replay_ok hrun
  have huniform := journal40Traverse_guided (Run.uniform_guided _) (fun b hb => loadBlock_uniform hb)
    (fun b o ho => cbReplay_uniform b ho) cbPrintReplay_uniform hw ha fuel
  have hself : TornLog (originals txs) j (⟨j, ⟨0, 0⟩⟩ : JState ReplayCount) :=
    ⟨rfl, rfl, rfl, Torn.refl _ _⟩
  obtain ⟨t1, ht1⟩ := huniform.2 _ _ _ _ hself hs h1
  have hs1 := huniform.1 _ _ _ hself h1
  have hst1 := huniform.1 _ _ _ hs ht1
  have halike : Alike s1.journal t1.journal := by
    refine ⟨by rw [hst1.blksize, hs1.blksize], ?_, by rw [hst1.header, hs1.header],
      by rw [hst1.footer, hs1.footer]⟩
    rw [journal40Traverse_replay hw h1, journal40Traverse_replay (hw.torn ha hs) ht1]
    exact replayed_torn hw ha hs.torn
  obtain ⟨t2, ht2, halike2⟩ := journal40Update_alike
    (t := { t1 with journal := journal40UpdateFormat t1.journal })
    (journal40UpdateFormat_alike halike) h2
  exact ⟨_, journal40Replay_of_ok ht1 ht2, journal40Invalidate_alike halike2⟩

end Cut

/-! ## From one start to the next -/

/-- The journal of a device, just opened. -/
def opened (blksize : Nat) (format : FormatEnt) (oid : OidEnt) (header footer : Bytes)
    (device : Device) : Journal where
  blksize := blksize
  state := 0
  device := device
  format := format
  oid := oid
  header := ⟨Fs.journal40Blocknr blksize, header⟩
  footer := ⟨Fs.journal40Blocknr blksize + 1, footer⟩

/-- The device carries the unflushed transactions `txs`, and none of them is for a block of one of
    them, nor for the header or the footer. -/
structure Recoverable (blksize : Nat) (txs : List Tx) (header footer : Bytes) (device : Device) :
    Prop where
  header_on : device (Fs.journal40Blocknr blksize) = some header
  footer_on : device (Fs.journal40Blocknr blksize + 1) = some footer
  wellFormed : ∀ format oid, WellFormed (opened blksize format oid header footer device) txs
  apart : Apart txs
  header_out : Fs.journal40Blocknr blksize ∉ originals txs
  footer_out : Fs.journal40Blocknr blksize + 1 ∉ originals txs

/-- One start on the device is cut off while the journal is replayed. -/
inductive Cut (blksize : Nat) (dev : Device) : Device → Prop
  | replay {fuel writes : Nat} {torn : Bytes} {format : FormatEnt} {oid : OidEnt} {j : Journal}
      {r : Except Errno Unit} {s : JState ReplayCount}
      (hopen : journal40Open dev blksize format oid = some (.ok j))
      (hrun : (journal40Traverse fuel none (some (cbReplayCut writes torn))
        (some cbPrintReplay)).run ⟨j, ⟨0, 0⟩⟩ = some (r, s)) : Cut blksize dev s.journal.device

/-- The footer `journal40_invalidate` leaves. -/
def zeroFooter (footer : Bytes) : Bytes :=
  setJfNextOid (setJfUsedOids (setJfFreeBlocks (setJfLastFlushed footer 0) 0) 0) 0

theorem setJhLastCommited_zero (d : Bytes) :
    setJhLastCommited (setJhLastCommited d 0) 0 = setJhLastCommited d 0 := by
  funext i
  unfold setJhLastCommited Bytes.setLe
  split <;> rfl

theorem zeroFooter_zero (d : Bytes) : zeroFooter (zeroFooter d) = zeroFooter d := by
  funext i
  unfold zeroFooter setJfNextOid setJfUsedOids setJfFreeBlocks setJfLastFlushed Bytes.setLe
  split_ifs <;> rfl

/-- What the update wrote into the footer is lost again. -/
theorem zeroFooter_ofTx (footer th : Bytes) (nr : Nat) :
    zeroFooter (footerOfTx footer th nr) = zeroFooter footer := by
  funext i
  unfold footerOfTx zeroFooter setJfNextOid setJfUsedOids setJfFreeBlocks setJfLastFlushed
    Bytes.setLe
  split_ifs <;> rfl

theorem getJfLastFlushed_zero (d : Bytes) : getJfLastFlushed (zeroFooter d) = 0 := by
  unfold getJfLastFlushed zeroFooter setJfNextOid setJfUsedOids setJfFreeBlocks setJfLastFlushed
  rw [Bytes.getLe_setLe_disj _ _ _ _ _ _ (by omega), Bytes.getLe_setLe_disj _ _ _ _ _ _ (by omega),
    Bytes.getLe_setLe_disj _ _ _ _ _ _ (by omega), Bytes.getLe_setLe]
  rfl

theorem getJhLastCommited_zero (d : Bytes) : getJhLastCommited (setJhLastCommited d 0) = 0 := by
  unfold getJhLastCommited setJhLastCommited
  rw [Bytes.getLe_setLe]
  rfl

section Starts

variable {blksize : Nat} {txs : List Tx} {header footer : Bytes} {dev : Device}

theorem journal40Open_ok (hh : dev (Fs.journal40Blocknr blksize) = some header)
    (hf : dev (Fs.journal40Blocknr blksize + 1) = some footer) (format : FormatEnt) (oid : OidEnt) :
    journal40Open dev blksize format oid =
      some (.ok (opened blksize format oid header footer dev)) := by
  unfold journal40Open Fs.journal40Layout cbFetchJournal
  simp only [Run.get_bind, aalBlockLoad, hh, hf, Option.map_some, Run.modify_bind, Run.run_modify]
  rfl

/-- The journal is written back: first the header, then the footer. -/
theorem journal40Sync_ok {j : Journal} (hh : (j.device j.header.nr).isSome = true)
    (hf : (j.device j.footer.nr).isSome = true) : ∃ j', journal40Sync.run j = some (.ok (), j') ∧
      j'.device = put (put j.device j.header.nr (some j.header.data)) j.footer.nr
        (some j.footer.data) := by
  have hf' : (put j.device j.header.nr (some j.header.data) j.footer.nr).isSome = true := by
    unfold put
    split
    · rfl
    · exact hf
  have h1 : aalBlockWrite j.device j.header =
      some (put j.device j.header.nr (some j.header.data)) := if_pos hh
  have h2 : aalBlockWrite (put j.device j.header.nr (some j.header.data)) j.footer =
      some (put (put j.device j.header.nr (some j.header.data)) j.footer.nr
        (some j.footer.data)) := if_pos hf'
  unfold journal40Sync Fs.journal40Layout cbSyncJournal
  simp only [Run.run_bind, Run.run_get, h1, h2, Run.run_modify]
  exact ⟨_, rfl, rfl⟩

/-- What a replay leaves of the journal. -/
theorem replay_shape {j j' : Journal} (hw : WellFormed j txs) (ha : Apart txs) {fuel : Nat}
    (hrun : (journal40Replay fuel).run j = some (.ok (), j')) :
    j'.blksize = j.blksize ∧ j'.device = replayed j.device (copies txs) ∧
      Torn (originals txs) j.device j'.device ∧
      j'.header = ⟨j.header.nr, setJhLastCommited j.header.data 0⟩ ∧
      j'.footer = ⟨j.footer.nr, zeroFooter j.footer.data⟩ := by
  obtain ⟨s1, s2, h1, h2, rfl⟩ := journal40Replay_ok hrun
  have hdev := journal40Traverse_replay hw h1
  have hs1 := (journal40Traverse_guided (Run.uniform_guided _) (fun b hb => loadBlock_uniform hb)
    (fun b o ho => cbReplay_uniform b ho) cbPrintReplay_uniform hw ha fuel).1 _ _ _
    ⟨rfl, rfl, rfl, Torn.refl _ _⟩ h1
  -- The update leaves all but the fields of the footer that are then zeroed.
  have hsame : s2.journal.blksize = s1.journal.blksize ∧ s2.journal.device = s1.journal.device ∧
      s2.journal.header = s1.journal.header ∧ s2.journal.footer.nr = s1.journal.footer.nr ∧
      zeroFooter s2.journal.footer.data = zeroFooter s1.journal.footer.data := by
    have hformat : Alike s1.journal (journal40UpdateFormat s1.journal) := by
      unfold journal40UpdateFormat
      split <;> exact ⟨rfl, rfl, rfl, rfl⟩
    rw [← hformat.blksize, ← hformat.device, ← hformat.header, ← hformat.footer]
    simp only [journal40Update, Run.get_bind] at h2
    split at h2
    · cases h2
      exact ⟨rfl, rfl, rfl, rfl, rfl⟩
    · obtain ⟨tx, s3, h3, h4⟩ := Run.bind_ok.mp h2
      obtain ⟨rfl, -⟩ := loadBlock_ok h3
      split at h4
      · cases h4
        exact ⟨rfl, rfl, rfl, rfl, zeroFooter_ofTx _ _ _⟩
      · exact absurd h4 Run.fail_ok
  obtain ⟨hb, hd, hh, hf, hzero⟩ := hsame
  have hdevice : (journal40Invalidate s2.journal).device = s1.journal.device := hd
  refine ⟨hb.trans hs1.blksize, ?_, ?_, ?_, ?_⟩
  · rw [hdevice, hdev]
    rfl
  · rw [hdevice]
    exact hs1.torn
  · show (⟨s2.journal.header.nr, setJhLastCommited s2.journal.header.data 0⟩ : Block) = _
    rw [hh, hs1.header]
  · show (⟨s2.journal.footer.nr, zeroFooter s2.journal.footer.data⟩ : Block) = _
    rw [hf, hzero, hs1.footer]

/-- A start is a replay, and the header and the footer written back. -/
theorem recover_of_replay (hr : Recoverable blksize txs header footer dev) {fuel : Nat}
    {format : FormatEnt} {oid : OidEnt} {j' : Journal}
    (hrun : (journal40Replay fuel).run (opened blksize format oid header footer dev) =
      some (.ok (), j')) :
    recover fuel blksize format oid dev = some (.ok (put
      (put j'.device j'.header.nr (some j'.header.data)) j'.footer.nr (some j'.footer.data))) := by
  obtain ⟨-, -, ht, hh, hf⟩ := replay_shape (hr.wellFormed format oid) hr.apart hrun
  have hhead : (j'.device j'.header.nr).isSome = true := by
    rw [ht.readable, hh]
    show (dev (Fs.journal40Blocknr blksize)).isSome = true
    rw [hr.header_on]
    rfl
  have hfoot : (j'.device j'.footer.nr).isSome = true := by
    rw [ht.readable, hf]
    show (dev (Fs.journal40Blocknr blksize + 1)).isSome = true
    rw [hr.footer_on]
    rfl
  obtain ⟨j'', hsync, hdevice⟩ := journal40Sync_ok hhead hfoot
  unfold recover
  rw [journal40Open_ok hr.header_on hr.footer_on]
  dsimp only
  rw [Run.bind_of_ok hrun, hsync, ← hdevice]
  rfl

/-- A start that succeeds has replayed the journal. -/
theorem replay_of_recover (hh : dev (Fs.journal40Blocknr blksize) = some header)
    (hf : dev (Fs.journal40Blocknr blksize + 1) = some footer) {fuel : Nat} {format : FormatEnt} {oid : OidEnt} {dev' : Device}
    (hrun : recover fuel blksize format oid dev = some (.ok dev')) : ∃ j',
      (journal40Replay fuel).run (opened blksize format oid header footer dev) =
        some (.ok (), j') := by
  unfold recover at hrun
  rw [journal40Open_ok hh hf] at hrun
  obtain ⟨⟨r, j2⟩, hboth, hok⟩ := Option.map_eq_some_iff.mp hrun
  cases r with
  | error e => cases hok
  | ok u =>
    obtain ⟨⟨⟩, j', hreplay, -⟩ := Run.bind_ok.mp hboth
    exact ⟨j', hreplay⟩

/-- A cut leaves a device that carries the same transactions. -/
theorem Recoverable.torn (hr : Recoverable blksize txs header footer dev) {cut : Device}
    (ht : Torn (originals txs) dev cut) : Recoverable blksize txs header footer cut := by
  refine ⟨?_, ?_, fun format oid => ?_, hr.apart, hr.header_out, hr.footer_out⟩
  · rw [ht.same _ hr.header_out, hr.header_on]
  · rw [ht.same _ hr.footer_out, hr.footer_on]
  · exact (hr.wellFormed format oid).torn (n := ⟨0, 0⟩) hr.apart ⟨rfl, rfl, rfl, ht⟩

theorem Cut.torn (hr : Recoverable blksize txs header footer dev) {cut : Device}
    (h : Cut blksize dev cut) : Torn (originals txs) dev cut := by
  obtain ⟨hopen, hrun⟩ := h
  rw [journal40Open_ok hr.header_on hr.footer_on] at hopen
  cases hopen
  exact (cut_torn (hr.wellFormed _ _) hr.apart hrun).torn

theorem cuts_torn (hr : Recoverable blksize txs header footer dev) {cut : Device}
    (h : Relation.ReflTransGen (Cut blksize) dev cut) : Torn (originals txs) dev cut := by
  induction h with
  | refl => exact Torn.refl _ _
  | tail _ hcut ih => exact ih.trans (hcut.torn (hr.torn ih))

/-! ## Once more -/

/-- A device whose journal names no transaction has nothing to replay. -/
theorem recoverable_empty (hh : dev (Fs.journal40Blocknr blksize) = some header)
    (hf : dev (Fs.journal40Blocknr blksize + 1) = some footer)
    (hcommited : getJhLastCommited header = 0) (hflushed : getJfLastFlushed footer = 0) :
    Recoverable blksize [] header footer dev := by
  refine ⟨hh, hf, fun format oid => ⟨?_, List.nodup_nil, by simp, List.Pairwise.nil⟩, ?_, ?_, ?_⟩
  · show getJhLastCommited header = getJfLastFlushed footer
    rw [hcommited, hflushed]
  · intro t ht
    cases ht
  · exact List.not_mem_nil
  · exact List.not_mem_nil

/-- A start without a transaction zeroes the header and the footer. -/
theorem recover_empty (hh : dev (Fs.journal40Blocknr blksize) = some header)
    (hf : dev (Fs.journal40Blocknr blksize + 1) = some footer)
    (hcommited : getJhLastCommited header = 0) (hflushed : getJfLastFlushed footer = 0) {fuel : Nat}
    (hfuel : 0 < fuel) (format : FormatEnt) (oid : OidEnt) :
    recover fuel blksize format oid dev = some (.ok (put (put dev (Fs.journal40Blocknr blksize)
      (some (setJhLastCommited header 0))) (Fs.journal40Blocknr blksize + 1)
      (some (zeroFooter footer)))) := by
  obtain ⟨n, rfl⟩ : ∃ n, fuel = n + 1 := ⟨fuel - 1, by omega⟩
  have hr := recoverable_empty hh hf hcommited hflushed
  obtain ⟨j, hj⟩ : ∃ j, j = opened blksize format oid header footer dev := ⟨_, rfl⟩
  have hnone : getJhLastCommited j.header.data = getJfLastFlushed j.footer.data := by
    rw [hj]
    exact hcommited.trans hflushed.symm
  have htraverse : (journal40Traverse (n + 1) none (some cbReplay) (some cbPrintReplay)).run
      ⟨j, ⟨0, 0⟩⟩ = some (.ok (), ⟨j, ⟨0, 0⟩⟩) := by
    rw [journal40Traverse, Run.get_bind]
    dsimp only
    rw [txhLoop, if_pos hnone]
    rfl
  have hformat : journal40UpdateFormat j = j := by
    rw [hj]
    exact if_pos hflushed
  have hupdate : journal40Update.run (⟨journal40UpdateFormat j, ⟨0, 0⟩⟩ : JState ReplayCount) =
      some (.ok (), ⟨j, ⟨0, 0⟩⟩) := by
    rw [hformat, journal40Update, Run.get_bind]
    dsimp only
    rw [if_pos hnone.symm]
    rfl
  have hreplay := journal40Replay_of_ok htraverse hupdate
  rw [hj] at hreplay
  rw [recover_of_replay hr hreplay]
  rfl

/-- The next start, and any later one, finds nothing to do. -/
theorem recover_again (hh : dev (Fs.journal40Blocknr blksize) = some (setJhLastCommited header 0))
    (hf : dev (Fs.journal40Blocknr blksize + 1) = some (zeroFooter footer)) {fuel : Nat}
    (hfuel : 0 < fuel) (format : FormatEnt) (oid : OidEnt) :
    recover fuel blksize format oid dev = some (.ok dev) := by
  rw [recover_empty hh hf (getJhLastCommited_zero header) (getJfLastFlushed_zero footer) hfuel,
    zeroFooter_zero, setJhLastCommited_zero]
  congr 2
  funext b
  unfold put
  split
  · next hb => rw [hb, hf]
  · split
    · next hb => rw [hb, hh]
    · rfl

/-- What a start leaves on the device. -/
theorem recover_result (hr : Recoverable blksize txs header footer dev) {fuel : Nat}
    {format : FormatEnt} {oid : OidEnt} {dev' : Device}
    (hrun : recover fuel blksize format oid dev = some (.ok dev')) :
    dev' = put (put (replayed dev (copies txs)) (Fs.journal40Blocknr blksize)
      (some (setJhLastCommited header 0))) (Fs.journal40Blocknr blksize + 1)
      (some (zeroFooter footer)) := by
  obtain ⟨j', hreplay⟩ := replay_of_recover hr.header_on hr.footer_on hrun
  obtain ⟨-, hdev, -, hh, hf⟩ := replay_shape (hr.wellFormed format oid) hr.apart hreplay
  have hfinal := recover_of_replay hr hreplay
  rw [hrun, hdev, hh, hf] at hfinal
  exact Except.ok.inj (Option.some.inj hfinal)

/-- **Recovery survives any number of power failures.**  Suppose a start on the device would replay its
    transactions.  However often a start was cut off before, in whatever write to an original
    location and whatever that write left behind: the start that is not cut off leaves the same
    device, where each original location holds what its newest wandered block held, and the
    starts after it leave that device as it is. -/
theorem recover_survives (hr : Recoverable blksize txs header footer dev) {fuel : Nat}
    {format : FormatEnt} {oid : OidEnt} {dev' : Device}
    (hrun : recover fuel blksize format oid dev = some (.ok dev')) {cut : Device}
    (hcut : Relation.ReflTransGen (Cut blksize) dev cut) (format' : FormatEnt) (oid' : OidEnt) :
    recover fuel blksize format' oid' cut = some (.ok dev') ∧
      (∀ b, b ≠ Fs.journal40Blocknr blksize → b ≠ Fs.journal40Blocknr blksize + 1 →
        dev' b = match newestWandered (copies txs) b with
          | some w => dev w
          | none => dev b) ∧
      ∀ fuel', 0 < fuel' → recover fuel' blksize format' oid' dev' = some (.ok dev') := by
  have ht := cuts_torn hr hcut
  obtain ⟨n, hn⟩ : ∃ n, n = Fs.journal40Blocknr blksize := ⟨_, rfl⟩
  have hfinal := recover_result hr hrun
  rw [← hn] at hfinal
  refine ⟨?_, fun b h1 h2 => ?_, fun fuel' hfuel => ?_⟩
  · obtain ⟨j', hreplay⟩ := replay_of_recover hr.header_on hr.footer_on hrun
    have hlog : TornLog (originals txs) (opened blksize format oid header footer dev)
        (⟨opened blksize format' oid' header footer cut, ⟨0, 0⟩⟩ : JState ReplayCount) :=
      ⟨rfl, rfl, rfl, ht⟩
    obtain ⟨j₁', hreplay', halike⟩ := replay_torn (hr.wellFormed format oid) hr.apart hlog hreplay
    rw [recover_of_replay (hr.torn ht) hreplay', halike.device, halike.header, halike.footer, ← hrun,
      recover_of_replay hr hreplay]
  · rw [hfinal, put_other _ _ _ _ (hn ▸ h2), put_other _ _ _ _ (hn ▸ h1)]
    exact replayed_newest dev (copies txs) (hr.wellFormed format oid).readsFresh b
  · refine @recover_again blksize header footer _ ?_ ?_ _ hfuel format' oid'
    · rw [hfinal, ← hn, put_other _ _ _ _ (by omega), put_same]
    · rw [hfinal, ← hn, put_same]

/-! ## Between the header and the footer -/

/-- The device when power fails in `journal40_sync` behind the first of its two writes. -/
def halfSynced (blksize : Nat) (txs : List Tx) (header : Bytes) (dev : Device) : Device :=
  put (replayed dev (copies txs)) (Fs.journal40Blocknr blksize) (some (setJhLastCommited header 0))

/-- A header that names no transaction beside a footer that names one: the walk back starts in the boot
    sector and never gets to the flushed transaction. -/
theorem txhLoop_lost {lastFlushed : Nat} (hflushed : lastFlushed ≠ 0)
    (hboot : ∀ d, j.device 0 = some d → d.memeq 0 txhMagic = false) {fuel : Nat} {c : ReplayCount}
    {r : Except Errno (List Block)} {s : JState ReplayCount}
    (hrun : (txhLoop none lastFlushed fuel 0 []).run ⟨j, c⟩ = some (r, s)) :
    (∃ e, r = .error e) ∧ s = ⟨j, c⟩ := by
  cases fuel with
  | zero => cases hrun
  | succ fuel =>
    rw [txhLoop, if_neg (Ne.symm hflushed), optCall_none, Run.pure_bind, loadBlock] at hrun
    cases hd : j.device 0 with
    | none =>
      rw [Run.run_bind, Run.get_bind, aalBlockLoad, hd] at hrun
      cases hrun
      exact ⟨⟨_, rfl⟩, rfl⟩
    | some d =>
      rw [Run.run_bind, Run.get_bind, aalBlockLoad, hd] at hrun
      dsimp only [Option.map_some, Run.run_pure] at hrun
      rw [if_neg (by rw [hboot d hd]; decide)] at hrun
      cases hrun
      exact ⟨⟨_, rfl⟩, rfl⟩

/-- So the replay fails, and it leaves the journal and the device as they are. -/
theorem replay_lost {j' : Journal} (hcommited : getJhLastCommited j.header.data = 0)
    (hflushed : getJfLastFlushed j.footer.data ≠ 0)
    (hboot : ∀ d, j.device 0 = some d → d.memeq 0 txhMagic = false) {fuel : Nat} {r : Except Errno Unit}
    (hrun : (journal40Replay fuel).run j = some (r, j')) : (∃ e, r = .error e) ∧ j' = j := by
  obtain ⟨⟨r', s⟩, hbody, heq⟩ := Option.map_eq_some_iff.mp hrun
  cases heq
  rw [replayBody, Run.run_bind, journal40Traverse, Run.get_bind] at hbody
  dsimp only at hbody
  rw [hcommited, Run.run_bind] at hbody
  cases hloop : (txhLoop none (getJfLastFlushed j.footer.data) fuel 0 []).run (⟨j, ⟨0, 0⟩⟩ : JState ReplayCount) with
  | none =>
    rw [hloop] at hbody
    cases hbody
  | some x =>
    obtain ⟨x, t⟩ := x
    obtain ⟨⟨e, rfl⟩, rfl⟩ := txhLoop_lost hflushed hboot hloop
    rw [hloop] at hbody
    cases hbody
    exact ⟨⟨e, rfl⟩, rfl⟩

/-- **Power lost between the header and the footer** is made good by the next start if and only if the
    footer named no flushed transaction; otherwise no later start ends well. -/
theorem recover_between_iff (hr : Recoverable blksize txs header footer dev) {fuel : Nat}
    {format : FormatEnt} {oid : OidEnt} {dev' : Device}
    (hrun : recover fuel blksize format oid dev = some (.ok dev'))
    (hzero : 0 ∉ originals txs) (hboot : ∀ d, dev 0 = some d → d.memeq 0 txhMagic = false)
    {fuel' : Nat} (hfuel : 0 < fuel') (format' : FormatEnt) (oid' : OidEnt) :
    ((∃ dev'', recover fuel' blksize format' oid' (halfSynced blksize txs header dev) =
      some (.ok dev'')) ↔ getJfLastFlushed footer = 0) ∧ (getJfLastFlushed footer = 0 →
    recover fuel' blksize format' oid' (halfSynced blksize txs header dev) = some (.ok dev')) := by
  obtain ⟨n, hn⟩ : ∃ n, n = Fs.journal40Blocknr blksize := ⟨_, rfl⟩
  have hpos : n ≠ 0 := by
    rw [hn]
    unfold Fs.journal40Blocknr
    omega
  have houtside : ∀ b, b ∉ originals txs → replayed dev (copies txs) b = dev b := by
    intro b hb
    refine replayed_other _ _ _ fun p hp he => hb ?_
    obtain ⟨t, ht, hpt⟩ := List.mem_flatMap.mp hp
    exact List.mem_flatMap.mpr ⟨t, ht, List.mem_map.mpr ⟨p, hpt, he⟩⟩
  have hh : halfSynced blksize txs header dev (Fs.journal40Blocknr blksize) =
      some (setJhLastCommited header 0) := put_same _ _ _
  have hf : halfSynced blksize txs header dev (Fs.journal40Blocknr blksize + 1) = some footer := by
    unfold halfSynced
    rw [put_other _ _ _ _ (by omega), houtside _ hr.footer_out, hr.footer_on]
  have hgood : getJfLastFlushed footer = 0 →
      recover fuel' blksize format' oid' (halfSynced blksize txs header dev) = some (.ok dev') := by
    intro hflushed
    rw [recover_empty hh hf (getJhLastCommited_zero header) hflushed hfuel, recover_result hr hrun,
      setJhLastCommited_zero]
    congr 3
    funext b
    unfold halfSynced put
    split <;> rfl
  refine ⟨⟨?_, fun hflushed => ⟨dev', hgood hflushed⟩⟩, hgood⟩
  rintro ⟨dev'', hrun'⟩
  by_contra hflushed
  obtain ⟨j', hreplay⟩ := replay_of_recover hh hf hrun'
  have hfirst : ∀ d, halfSynced blksize txs header dev 0 = some d → d.memeq 0 txhMagic = false := by
    intro d hd
    unfold halfSynced at hd
    rw [put_other _ _ _ _ (hn ▸ Ne.symm hpos), houtside 0 hzero] at hd
    exact hboot d hd
  obtain ⟨⟨e, he⟩, -⟩ := replay_lost (getJhLastCommited_zero header) hflushed hfirst hreplay
  cases he

end Starts

/-! ## The journal of two transactions, on a disk -/

/-- Nothing is flushed, and 23 is the newest committed transaction. -/
def sampleDisk : Device := fun b =>
  if b = 131 then some (setJhLastCommited Bytes.zero 23)
  else if b = 132 then some Bytes.zero
  else sampleDevice b

def sampleOpened : Journal :=
  opened 512 ⟨1, 0⟩ ⟨2, 3, 0⟩ (setJhLastCommited Bytes.zero 23) Bytes.zero sampleDisk

theorem sampleDisk_recoverable :
    Recoverable 512 sampleTxs (setJhLastCommited Bytes.zero 23) Bytes.zero sampleDisk := by
  have hn : Fs.journal40Blocknr 512 = 131 := by decide
  refine ⟨by rw [hn]; rfl, by rw [hn]; rfl, fun format oid => ?_, ?_, ?_, ?_⟩
  · refine ⟨?_, sampleJournal_wellFormed.distinct, sampleJournal_wellFormed.own,
      sampleJournal_wellFormed.older⟩
    refine sampleJournal_wellFormed.chain.congr fun t ht => ?_
    have ht' : t ∈ sampleTxs := List.mem_reverse.mp ht
    simp only [sampleTxs, List.mem_cons, List.not_mem_nil, or_false] at ht'
    rcases ht' with rfl | rfl <;> exact ⟨rfl, by simp; rfl⟩
  · unfold Apart
    decide
  · rw [hn]
    decide
  · rw [hn]
    decide

theorem sampleOpened_replays : (journal40Replay 3).succeeds sampleOpened = true := by
  decide +kernel

/-- The power fails in the first write. -/
theorem sampleOpened_cut : ((journal40Traverse 3 none (some (cbReplayCut 0 Bytes.zero))
    (some cbPrintReplay)).run ⟨sampleOpened, ⟨0, 0⟩⟩).isSome = true := by
  decide +kernel

/-- The start after that ends as if nothing had happened. -/
theorem recover_survives_sample : ∃ dev' cut, Cut 512 sampleDisk cut ∧
    recover 3 512 ⟨1, 0⟩ ⟨2, 3, 0⟩ sampleDisk = some (.ok dev') ∧
    recover 3 512 ⟨1, 0⟩ ⟨2, 3, 0⟩ cut = some (.ok dev') := by
  obtain ⟨_, j', hreplay⟩ := Run.succeeds_iff.mp sampleOpened_replays
  obtain ⟨⟨r, s⟩, hcut⟩ := Option.isSome_iff_exists.mp sampleOpened_cut
  have hr := sampleDisk_recoverable
  have hrun := recover_of_replay hr hreplay
  have hone : Cut 512 sampleDisk s.journal.device :=
    Cut.replay (journal40Open_ok hr.header_on hr.footer_on _ _) hcut
  exact ⟨_, _, hone, hrun,
    (recover_survives hr hrun (Relation.ReflTransGen.single hone) ⟨1, 0⟩ ⟨2, 3, 0⟩).1⟩

/-- The disk when transaction 20 is flushed already. -/
def flushedDisk : Device := put sampleDisk 132 (some (setJfLastFlushed Bytes.zero 20))

/-- Only transaction 23 is left then. -/
def flushedTxs : List Tx :=
  [{ nr := 23, header := sampleTxHeader 20 24 70 80 90, logs := [{ nr := 24, entries := [(25, 30)] }] }]

def flushedOpened : Journal :=
  opened 512 ⟨1, 0⟩ ⟨2, 3, 0⟩ (setJhLastCommited Bytes.zero 23) (setJfLastFlushed Bytes.zero 20) flushedDisk

theorem flushedTxs_chain : TxChain sampleDevice 512 20 23 flushedTxs.reverse := by
  have h23 : getThNextBlock (sampleTxHeader 20 24 70 80 90) = 24 := by decide +kernel
  have p23 : getThPrevTx (sampleTxHeader 20 24 70 80 90) = 20 := by decide +kernel
  refine ⟨by decide, rfl, ⟨rfl, by decide +kernel, ?_⟩, p23⟩
  rw [h23]
  exact sampleLog_chain 23 24 30 25 (by decide) rfl (by decide +kernel) (by decide +kernel) (by decide +kernel)

theorem flushedDisk_recoverable : Recoverable 512 flushedTxs (setJhLastCommited Bytes.zero 23)
    (setJfLastFlushed Bytes.zero 20) flushedDisk := by
  have hn : Fs.journal40Blocknr 512 = 131 := by decide
  have hf : getJfLastFlushed (setJfLastFlushed Bytes.zero 20) = 20 := by decide +kernel
  have hc : getJhLastCommited (setJhLastCommited Bytes.zero 23) = 23 := by decide +kernel
  refine ⟨by rw [hn]; rfl, by rw [hn]; rfl, fun format oid => ?_, ?_, ?_, ?_⟩
  · refine ⟨?_, by decide, by decide, by decide⟩
    show TxChain flushedDisk 512 (getJfLastFlushed (setJfLastFlushed Bytes.zero 20))
      (getJhLastCommited (setJhLastCommited Bytes.zero 23)) flushedTxs.reverse
    rw [hf, hc]
    refine flushedTxs_chain.congr fun t ht => ?_
    have ht' : t ∈ flushedTxs := List.mem_reverse.mp ht
    simp only [flushedTxs, List.mem_cons, List.not_mem_nil, or_false] at ht'
    subst ht'
    exact ⟨rfl, by simp; rfl⟩
  · unfold Apart
    decide
  · rw [hn]
    decide
  · rw [hn]
    decide

theorem flushedOpened_replays : (journal40Replay 2).succeeds flushedOpened = true := by
  decide +kernel

/-- The two disks, with power lost between the header and the footer: the next start makes it good where nothing was
    flushed, and no start ends well any more where transaction 20 was. -/
theorem recover_between_sample :
    (∃ dev', recover 3 512 ⟨1, 0⟩ ⟨2, 3, 0⟩ (halfSynced 512 sampleTxs (setJhLastCommited Bytes.zero 23)
      sampleDisk) = some (.ok dev')) ∧
    ¬∃ dev', recover 3 512 ⟨1, 0⟩ ⟨2, 3, 0⟩ (halfSynced 512 flushedTxs (setJhLastCommited Bytes.zero 23)
      flushedDisk) = some (.ok dev') := by
  obtain ⟨_, j', hreplay⟩ := Run.succeeds_iff.mp sampleOpened_replays
  obtain ⟨_, j'', hreplay'⟩ := Run.succeeds_iff.mp flushedOpened_replays
  have hr := sampleDisk_recoverable
  have hr' := flushedDisk_recoverable
  have hrun := recover_of_replay hr hreplay
  have hrun' := recover_of_replay hr' hreplay'
  constructor
  · exact ⟨_, (recover_between_iff hr hrun (by decide) (fun d hd => by cases hd) (by decide) ⟨1, 0⟩
      ⟨2, 3, 0⟩).2 (by decide +kernel)⟩
  · intro h
    exact absurd ((recover_between_iff hr' hrun' (by decide) (fun d hd => by cases hd) (by decide) ⟨1, 0⟩
      ⟨2, 3, 0⟩).1.mp h) (by decide +kernel)

end Reiser4.Journal40
