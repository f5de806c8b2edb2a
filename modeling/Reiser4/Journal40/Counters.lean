/-
  The counters after a replay.

  A transaction header records the free block count, the used oids and the next oid of the file
  system as that transaction leaves it.  `journal40_replay` hands such values to the format and the
  oid entity in `journal40_update_format`, and only then lets `journal40_update` copy them from the
  newest transaction to the footer.  So what reaches the entities are the values the footer held
  BEFORE the replay, those of the last transaction flushed earlier (`journal40Replay_entities`), and
  nothing at all when no transaction was flushed before.

  `journal40Replay_counters_iff` says on which journals this agrees with the header of the newest
  committed transaction.  The traverse itself is out of the picture by one frame lemma: it keeps any
  invariant that its callbacks keep (`journal40Traverse_keeps`).
-/
import Reiser4.Journal40.Replay

namespace Reiser4.Journal40

open Reiser4.Lib

variable {δ : Type}

/-- The replaying callback writes to the device only. -/
theorem cbReplay_keeps (f : Journal) (b : Block) (o : Nat) :
    Run.Keeps (fun s : JState δ => ∃ dev, s.journal = f.withDevice dev) (cbReplay b o) := by
  refine Run.Keeps.bind Run.Keeps.get (fun s => ?_)
  cases aalBlockWrite s.journal.device (aalBlockMove b o) with
  | none => exact Run.Keeps.fail _
  | some dev =>
    refine Run.Keeps.modify _ ?_
    rintro s' ⟨d, hd⟩
    exact ⟨dev, by rw [hd, Journal.withDevice_withDevice]⟩

/-- A replaying traverse, whatever it meets, changes nothing but the device. -/
theorem journal40Traverse_device_only {fuel : Nat} {j : Journal} {n : ReplayCount}
    {s' : JState ReplayCount} {r : Except Errno Unit}
    (h : (journal40Traverse fuel none (some cbReplay) (some cbPrintReplay)).run ⟨j, n⟩ =
      some (r, s')) : ∃ dev, s'.journal = j.withDevice dev := by
  have keeps : Run.Keeps (fun s : JState ReplayCount => ∃ dev, s.journal = j.withDevice dev)
      (journal40Traverse fuel none (some cbReplay) (some cbPrintReplay)) := by
    refine journal40Traverse_keeps _ _ ?_ ?_ none ?_ fuel
    · rintro f ⟨⟩ b o
      exact cbReplay_keeps j b o
    · rintro f ⟨⟩ b nr t s r s' ⟨dev, hd⟩ h
      exact ⟨dev, (cbPrintReplay_ok h).trans hd⟩
    · rintro f ⟨⟩
  exact keeps ⟨j, n⟩ r s' ⟨j.device, rfl⟩ h

/-! ## What reaches the entities -/

/-- Free blocks, next oid and used oids. -/
structure Counters where
  free : Nat
  next : Nat
  used : Nat
  deriving DecidableEq, Repr

/-- The counters the format and oid entities hold. -/
def entityCounters (j : Journal) : Counters := ⟨j.format.freeBlocks, j.oid.next, j.oid.used⟩

/-- The counters the footer keeps, those of the last flushed transaction. -/
def footerCounters (j : Journal) : Counters :=
  ⟨getJfFreeBlocks j.footer.data, getJfNextOid j.footer.data, getJfUsedOids j.footer.data⟩

/-- The counters a transaction header records. -/
def txCounters (th : Bytes) : Counters := ⟨getThFreeBlocks th, getThNextOid th, getThUsedOids th⟩

/-- `journal40_update_format`, seen on the counters. -/
theorem entityCounters_updateFormat (j : Journal) :
    entityCounters (journal40UpdateFormat j) =
      if getJfLastFlushed j.footer.data = 0 then entityCounters j else footerCounters j := by
  unfold journal40UpdateFormat
  split
  · rfl
  · simp [entityCounters, footerCounters, oid40SetNextOid, oid40SetUsedOid]

/-- `journal40_update` leaves the entities alone. -/
theorem journal40Update_entities {s s' : JState δ} (h : journal40Update.run s = some (.ok (), s')) :
    entityCounters s'.journal = entityCounters s.journal := by
  simp only [journal40Update, Run.get_bind] at h
  by_cases he : getJfLastFlushed s.journal.footer.data = getJhLastCommited s.journal.header.data
  · rw [if_pos he, Run.pure_ok] at h
    rw [h.2]
  · rw [if_neg he] at h
    obtain ⟨tx, s1, h1, h⟩ := Run.bind_ok.mp h
    obtain ⟨rfl, _⟩ := loadBlock_ok h1
    by_cases hm : tx.data.memeq 0 txhMagic = true
    · rw [if_pos hm, Run.run_modify, Option.some.injEq, Prod.mk.injEq] at h
      rw [← h.2]
      rfl
    · rw [if_neg hm] at h
      exact absurd h Run.fail_ok

/-- **The counters after a replay** are those the footer held before it, or the old ones when no
    transaction had been flushed; the replayed transactions have no part in it. -/
theorem journal40Replay_entities {fuel : Nat} {j j' : Journal}
    (h : (journal40Replay fuel).run j = some (.ok (), j')) :
    entityCounters j' =
      if getJfLastFlushed j.footer.data = 0 then entityCounters j else footerCounters j := by
  obtain ⟨s1, s2, h1, h2, rfl⟩ := journal40Replay_ok h
  obtain ⟨dev, hdev⟩ := journal40Traverse_device_only h1
  calc entityCounters (journal40Invalidate s2.journal)
      = entityCounters s2.journal := rfl
    _ = entityCounters (journal40UpdateFormat s1.journal) := journal40Update_entities h2
    _ = entityCounters (journal40UpdateFormat (j.withDevice dev)) := by rw [hdev]
    _ = _ := entityCounters_updateFormat (j.withDevice dev)

/-- A successful replay with an unflushed transaction has read the header of the newest one. -/
theorem journal40Replay_reads_newest {fuel : Nat} {j j' : Journal}
    (hne : getJhLastCommited j.header.data ≠ getJfLastFlushed j.footer.data)
    (h : (journal40Replay fuel).run j = some (.ok (), j')) :
    ∃ th, j.device (getJhLastCommited j.header.data) = some th := by
  obtain ⟨s1, s2, h1, h2, rfl⟩ := journal40Replay_ok h
  rw [journal40Traverse, Run.get_bind] at h1
  obtain ⟨l, s3, h3, -⟩ := Run.bind_ok.mp h1
  cases fuel with
  | zero => simp [txhLoop] at h3
  | succ fuel =>
    rw [txhLoop, if_neg hne, optCall_none, Run.pure_bind] at h3
    obtain ⟨tx, s4, h4, -⟩ := Run.bind_ok.mp h3
    obtain ⟨rfl, d, hd, -⟩ := loadBlock_ok h4
    exact ⟨d, hd⟩

/-! ## When they are the counters of the newest transaction -/

/-- What a replay should do to the counters: with an unflushed transaction the entities take the
    values recorded in the header of the newest committed one; with none, and none flushed, they
    keep theirs. -/
def CountersFollow (j j' : Journal) : Prop :=
  (getJhLastCommited j.header.data ≠ getJfLastFlushed j.footer.data →
    ∃ th, j.device (getJhLastCommited j.header.data) = some th ∧
      entityCounters j' = txCounters th) ∧
  (getJhLastCommited j.header.data = getJfLastFlushed j.footer.data →
    getJfLastFlushed j.footer.data = 0 → entityCounters j' = entityCounters j)

/-- The journals on which the footer (or, with nothing flushed, the entities themselves) already
    hold what the newest unflushed transaction records. -/
def CountersAlready (j : Journal) : Prop :=
  getJhLastCommited j.header.data ≠ getJfLastFlushed j.footer.data →
    ∃ th, j.device (getJhLastCommited j.header.data) = some th ∧
      (if getJfLastFlushed j.footer.data = 0 then entityCounters j else footerCounters j) =
        txCounters th

/-- **A replay brings the counters up to date exactly on the journals where they already are.** -/
theorem journal40Replay_counters_iff (fuel : Nat) (j j' : Journal)
    (h : (journal40Replay fuel).run j = some (.ok (), j')) :
    CountersFollow j j' ↔ CountersAlready j := by
  unfold CountersFollow CountersAlready
  rw [journal40Replay_entities h]
  constructor
  · intro hf
    exact hf.1
  · intro ha
    refine ⟨ha, ?_⟩
    intro _ h0
    rw [if_pos h0]

/-- On the sample journal the format entity keeps its free block count 1, while the newest
    transaction records 70. -/
theorem journal40Replay_counters_stale :
    ¬ ∀ (fuel : Nat) (j j' : Journal), (journal40Replay fuel).run j = some (.ok (), j') →
      CountersFollow j j' := by
  intro hall
  obtain ⟨_, j', h⟩ := Run.succeeds_iff.mp sampleJournal_replays
  have hf := hall 3 sampleJournal j' h
  obtain ⟨th, hth, he⟩ := hf.1 (by decide +kernel)
  rw [journal40Replay_entities h] at he
  have hlc : getJhLastCommited sampleJournal.header.data = 23 := by decide +kernel
  rw [hlc] at hth
  have hth' : th = sampleTxHeader 20 24 70 80 90 := (Option.some.inj hth).symm
  rw [hth'] at he
  exact absurd he (by decide +kernel)

/-- The sample journal with the entities already at the counters of its newest transaction. -/
def upToDateJournal : Journal :=
  { sampleJournal with format := ⟨70, 0⟩, oid := { next := 90, used := 80, state := 0 } }

/-- On that journal the counters are right after the replay, as the condition says. -/
theorem journal40Replay_counters_upToDate :
    ∃ j', (journal40Replay 3).run upToDateJournal = some (.ok (), j') ∧
      CountersFollow upToDateJournal j' := by
  obtain ⟨_, j', h⟩ := Run.succeeds_iff.mp
    (show (journal40Replay 3).succeeds upToDateJournal = true by decide +kernel)
  refine ⟨j', h, (journal40Replay_counters_iff 3 upToDateJournal j' h).mpr ?_⟩
  intro _
  have hlc : getJhLastCommited upToDateJournal.header.data = 23 := by decide +kernel
  rw [hlc]
  exact ⟨sampleTxHeader 20 24 70 80 90, rfl, by decide +kernel⟩

end Reiser4.Journal40
