/-
  The layout of the block allocator (`alloc40_layout`).

  A bitmap block holds a checksum and then one bit for each of `bpb` blocks.  The first bitmap block
  is a fixed block near the start of the device; the others are the multiples of `bpb`.

  The loop runs while the block is below `start + total`, not below `total`, so it also visits a
  multiple of `bpb` in the `start` blocks behind the end of the file system, if there is one
  (`alloc40Layout_exact_iff`).  All numbers are 64-bit and wrap, so the loop takes a fuel argument.
-/
import Reiser4.Bitmap
import Reiser4.Lib.Run

namespace Reiser4.Alloc40

open Reiser4.Lib

/-- `CRC_SIZE`. -/
def crcSize : Nat := 4

/-- `REISER4_MASTER_OFFSET`. -/
def masterOffset : Nat := 65536

/-- `ALLOC40_BLOCKNR`: the first bitmap block. -/
def alloc40Blocknr (blksize : Nat) : Nat := masterOffset / blksize + 2

/-- The number of blocks one bitmap block describes. -/
def blocksPerBitmap (blksize : Nat) : Nat := (blksize - crcSize) * 8

/-- The block sizes there can be: room for more than a checksum, and the 16 bits of `ms_blksize`. -/
structure BlksizeOk (blksize : Nat) : Prop where
  room : crcSize < blksize
  field : blksize < 65536

section Loop

variable {σ : Type}

/-- The bitmap block after `blk`. -/
def nextBitmap (bpb blk : Nat) : Nat := u64 ((blk / bpb + 1) * bpb)

/-- The loop of `alloc40_layout`.  `bad` is the result so far: 0, or `-ESTRUCT` of some block.  Any
    other error ends the loop (joined by `|=` with an `-ESTRUCT` before it; here it is returned as
    it is). -/
def layoutLoop (bpb bound : Nat) (regionFunc : Nat → Run σ Errno Unit) :
    Nat → Nat → Bool → Run σ Errno Unit
  | 0, _, _ => Run.hang
  | fuel + 1, blk, bad =>
    if blk < bound then do
      let res ← (regionFunc blk).attempt
      match res with
      | .ok () => layoutLoop bpb bound regionFunc fuel (nextBitmap bpb blk) bad
      | .error .estruct => layoutLoop bpb bound regionFunc fuel (nextBitmap bpb blk) true
      | .error e => Run.fail e
    else if bad then Run.fail .estruct
    else pure ()

/-- `alloc40_layout`, of an allocator for `total` blocks; the width it passes is always 1. -/
def alloc40Layout (fuel blksize total : Nat) (regionFunc : Nat → Run σ Errno Unit) :
    Run σ Errno Unit :=
  layoutLoop (blocksPerBitmap blksize) (u64 (alloc40Blocknr blksize + total)) regionFunc fuel
    (alloc40Blocknr blksize) false

/-- The blocks the loop visits. -/
def layoutBlocks (bpb bound : Nat) : Nat → Nat → Option (List Nat)
  | 0, _ => none
  | fuel + 1, blk =>
    if blk < bound then (layoutBlocks bpb bound fuel (nextBitmap bpb blk)).map (blk :: ·)
    else some []

/-- A callback that succeeds on each of the blocks is called for them in this order. -/
theorem layoutLoop_of_forEach {bpb bound : Nat} {f : Nat → Run σ Errno Unit} :
    ∀ {fuel blk : Nat} {blks : List Nat} {s s' : σ}, layoutBlocks bpb bound fuel blk = some blks →
      (Run.forEach f blks).run s = some (.ok (), s') →
      (layoutLoop bpb bound f fuel blk false).run s = some (.ok (), s')
  | 0, _, _, _, _, h, _ => by simp [layoutBlocks] at h
  | fuel + 1, blk, blks, s, s', h, hf => by
    rw [layoutBlocks] at h
    rw [layoutLoop]
    split at h
    · next hlt =>
      obtain ⟨rest, hrest, rfl⟩ := Option.map_eq_some_iff.mp h
      rw [Run.forEach] at hf
      obtain ⟨⟨⟩, s1, h1, h2⟩ := Run.bind_ok.mp hf
      rw [if_pos hlt, Run.run_bind, Run.run_attempt, h1]
      exact layoutLoop_of_forEach hrest h2
    · next hlt =>
      cases h
      rw [if_neg hlt]
      simpa using hf

/-- A callback that never answers `-ESTRUCT` is called for the blocks up to its first failure. -/
theorem layoutLoop_eq_forEach {bpb bound : Nat} {f : Nat → Run σ Errno Unit}
    (hf : ∀ b s s', (f b).run s ≠ some (.error .estruct, s')) :
    ∀ {fuel blk : Nat} {blks : List Nat}, layoutBlocks bpb bound fuel blk = some blks → ∀ s,
      (layoutLoop bpb bound f fuel blk false).run s = (Run.forEach f blks).run s
  | 0, _, _, h, _ => by simp [layoutBlocks] at h
  | fuel + 1, blk, blks, h, s => by
    rw [layoutBlocks] at h
    rw [layoutLoop]
    split at h
    · next hlt =>
      obtain ⟨rest, hrest, rfl⟩ := Option.map_eq_some_iff.mp h
      rw [if_pos hlt, Run.forEach, Run.run_bind, Run.run_bind, Run.run_attempt]
      rcases hrun : (f blk).run s with _ | ⟨e | ⟨⟩, s1⟩
      · rfl
      · have hne : e ≠ .estruct := fun he => hf blk s s1 (he ▸ hrun)
        cases e <;> first | rfl | exact absurd rfl hne
      · exact layoutLoop_eq_forEach hf hrest s1
    · next hlt =>
      cases h
      rw [if_neg hlt]
      rfl

/-- A callback that never fails is called for every visited block. -/
theorem layoutLoop_forEach {bpb bound : Nat} {f : Nat → Run σ Errno Unit}
    (hf : ∀ b s r s', (f b).run s = some (r, s') → r = .ok ()) :
    ∀ {fuel blk : Nat} {s s' : σ},
      (layoutLoop bpb bound f fuel blk false).run s = some (.ok (), s') →
      ∃ blks, layoutBlocks bpb bound fuel blk = some blks ∧
        (Run.forEach f blks).run s = some (.ok (), s')
  | 0, _, _, _, h => by cases h
  | fuel + 1, blk, s, s', h => by
    rw [layoutLoop] at h
    rw [layoutBlocks]
    split at h
    · next hlt =>
      obtain ⟨res, s1, h1, h2⟩ := Run.bind_ok.mp h
      rw [Run.run_attempt] at h1
      obtain ⟨⟨r, s2⟩, hr, he⟩ := Option.map_eq_some_iff.mp h1
      cases he
      have hok := hf blk _ r _ hr
      rw [hok] at hr h2
      obtain ⟨rest, hrest, hrun⟩ := layoutLoop_forEach hf h2
      refine ⟨blk :: rest, by rw [if_pos hlt, hrest]; rfl, ?_⟩
      rw [Run.forEach, Run.bind_of_ok hr]
      exact hrun
    · next hlt =>
      refine ⟨[], by rw [if_neg hlt], ?_⟩
      simpa using h

/-- What the callback keeps, the layout keeps. -/
theorem layoutLoop_keeps {I : σ → Prop} {f : Nat → Run σ Errno Unit}
    (h : ∀ b, Run.Keeps I (f b)) (bpb bound : Nat) :
    ∀ (fuel blk : Nat) (bad : Bool), Run.Keeps I (layoutLoop bpb bound f fuel blk bad) := by
  intro fuel
  induction fuel with
  | zero => exact fun blk bad => Run.Keeps.hang
  | succ fuel ih =>
    intro blk bad
    rw [layoutLoop]
    split
    · apply Run.Keeps.bind (Run.Keeps.attempt (h blk))
      intro res
      split
      · exact ih _ _
      · exact ih _ _
      · exact Run.Keeps.fail _
    · split
      · exact Run.Keeps.fail _
      · exact Run.Keeps.ret ()

/-- With a callback that only records, the run is the list of visited blocks. -/
theorem layoutLoop_modify {bpb bound : Nat} (g : Nat → σ → σ) :
    ∀ (fuel blk : Nat) (s : σ),
      (layoutLoop bpb bound (fun b => Run.modify (g b)) fuel blk false).run s =
        (layoutBlocks bpb bound fuel blk).map
          fun blks => (.ok (), blks.foldl (fun s b => g b s) s)
  | 0, _, _ => rfl
  | fuel + 1, blk, s => by
    rw [layoutLoop, layoutBlocks]
    split
    · rw [Run.run_bind, Run.run_attempt, Run.run_modify]
      simp only [Option.map_some, Option.map_map]
      rw [layoutLoop_modify g fuel]
      rfl
    · rfl

end Loop

/-! ## Which blocks are visited -/

/-- The layout of an allocator for `total` blocks visits exactly `blks`, in this order: so it does
    for every callback that keeps account of its calls. -/
def Visits (blksize total : Nat) (blks : List Nat) : Prop :=
  ∃ enough, ∀ fuel, enough ≤ fuel → ∀ (σ : Type) (g : Nat → σ → σ) (s : σ),
    (alloc40Layout fuel blksize total fun b => Run.modify (g b)).run s =
      some (.ok (), blks.foldl (fun s b => g b s) s)

theorem layoutBlocks_mono {bpb bound : Nat} :
    ∀ {fuel blk : Nat} {blks : List Nat}, layoutBlocks bpb bound fuel blk = some blks →
      ∀ {more : Nat}, fuel ≤ more → layoutBlocks bpb bound more blk = some blks
  | 0, _, _, h, _, _ => by simp [layoutBlocks] at h
  | fuel + 1, blk, blks, h, 0, hle => by omega
  | fuel + 1, blk, blks, h, more + 1, hle => by
    rw [layoutBlocks] at h ⊢
    split at h
    · next hlt =>
      obtain ⟨rest, hrest, rfl⟩ := Option.map_eq_some_iff.mp h
      rw [if_pos hlt, layoutBlocks_mono hrest (Nat.le_of_succ_le_succ hle)]
      rfl
    · next hlt => rw [if_neg hlt, h]

theorem visits_iff {blksize total : Nat} {blks : List Nat} : Visits blksize total blks ↔
    ∃ fuel, layoutBlocks (blocksPerBitmap blksize) (u64 (alloc40Blocknr blksize + total)) fuel
      (alloc40Blocknr blksize) = some blks := by
  unfold Visits alloc40Layout
  constructor
  · rintro ⟨enough, h⟩
    have hrun := h enough (Nat.le_refl _) (List Nat) (fun b l => l ++ [b]) []
    rw [layoutLoop_modify] at hrun
    obtain ⟨l, hl, heq⟩ := Option.map_eq_some_iff.mp hrun
    have hfold : ∀ (xs acc : List Nat), xs.foldl (fun l b => l ++ [b]) acc = acc ++ xs := by
      intro xs
      induction xs with
      | nil => simp
      | cons x xs ih => simp [ih]
    simp only [hfold, List.nil_append, Prod.mk.injEq, true_and] at heq
    exact ⟨enough, by rw [hl, heq]⟩
  · rintro ⟨enough, h⟩
    refine ⟨enough, ?_⟩
    intro fuel hle σ g s
    rw [layoutLoop_modify, layoutBlocks_mono h hle]
    rfl

theorem visits_unique {blksize total : Nat} {blks blks' : List Nat} (h : Visits blksize total blks)
    (h' : Visits blksize total blks') : blks = blks' := by
  obtain ⟨fuel, hf⟩ := visits_iff.mp h
  obtain ⟨fuel', hf'⟩ := visits_iff.mp h'
  have h1 := layoutBlocks_mono hf (Nat.le_max_left fuel fuel')
  have h2 := layoutBlocks_mono hf' (Nat.le_max_right fuel fuel')
  rw [h1, Option.some.injEq] at h2
  exact h2

/-- The callback is called once for the first bitmap block and once for each multiple of `bpb` that
    is a block of the file system, and for no block behind its end. -/
def VisitsExactly (blksize total : Nat) : Prop :=
  ∃ blks, Visits blksize total blks ∧ blks.Nodup ∧
    (∀ b, b ∈ blks ↔ b = alloc40Blocknr blksize ∨
      ∃ k, 1 ≤ k ∧ b = k * blocksPerBitmap blksize ∧ b < total) ∧
    ∀ b ∈ blks, b < total

/-- The first multiple of `bpb` that is not below `total`. -/
def nextMultiple (bpb total : Nat) : Nat := (total + bpb - 1) / bpb * bpb

section Arithmetic

variable {bpb total x : Nat}

theorem le_nextMultiple (hb : 0 < bpb) : total ≤ nextMultiple bpb total := by
  unfold nextMultiple
  have h1 := Nat.div_add_mod (total + bpb - 1) bpb
  have h2 := Nat.mod_lt (total + bpb - 1) hb
  rw [Nat.mul_comm] at h1
  omega

theorem nextMultiple_le (hb : 0 < bpb) (hx : bpb ∣ x) (hle : total ≤ x) :
    nextMultiple bpb total ≤ x := by
  unfold nextMultiple
  obtain ⟨k, rfl⟩ := hx
  rw [Nat.mul_comm bpb k] at hle ⊢
  apply Nat.mul_le_mul_right
  have h : total + bpb - 1 < (k + 1) * bpb := by
    rw [Nat.add_mul]
    omega
  exact Nat.le_of_lt_succ ((Nat.div_lt_iff_lt_mul hb).mpr h)

theorem dvd_nextMultiple : bpb ∣ nextMultiple bpb total := Dvd.intro_left _ rfl

/-- The multiple after a block is the least one above it. -/
theorem lt_succ_mul (hb : 0 < bpb) (blk : Nat) : blk < (blk / bpb + 1) * bpb := by
  have h1 := Nat.div_add_mod blk bpb
  have h2 := Nat.mod_lt blk hb
  rw [Nat.add_mul, Nat.one_mul, Nat.mul_comm]
  omega

theorem succ_mul_le {blk : Nat} (hb : 0 < bpb) (hx : bpb ∣ x) (hlt : blk < x) :
    (blk / bpb + 1) * bpb ≤ x := by
  obtain ⟨k, rfl⟩ := hx
  rw [Nat.mul_comm bpb k] at hlt ⊢
  apply Nat.mul_le_mul_right
  exact Nat.succ_le_of_lt ((Nat.div_lt_iff_lt_mul hb).mpr hlt)

end Arithmetic

/-- Every visited block but the first comes after another one, and the last is followed by a number
    that ends the loop. -/
theorem layoutBlocks_chain {bpb bound : Nat} :
    ∀ {fuel blk : Nat} {blks : List Nat}, layoutBlocks bpb bound fuel blk = some blks →
      (∀ b ∈ blks, b < bound ∧ (b = blk ∨ ∃ u ∈ blks, b = nextBitmap bpb u)) ∧
      (blk < bound → blk ∈ blks ∧ ∃ v ∈ blks, bound ≤ nextBitmap bpb v)
  | 0, _, _, h => by simp [layoutBlocks] at h
  | fuel + 1, blk, blks, h => by
    rw [layoutBlocks] at h
    split at h
    · next hlt =>
      obtain ⟨rest, hrest, rfl⟩ := Option.map_eq_some_iff.mp h
      obtain ⟨ih1, ih2⟩ := layoutBlocks_chain hrest
      constructor
      · intro b hb
        rcases List.mem_cons.mp hb with rfl | hb
        · exact ⟨hlt, Or.inl rfl⟩
        · obtain ⟨hbound, heq | ⟨u, hu, heq⟩⟩ := ih1 b hb
          · exact ⟨hbound, Or.inr ⟨blk, by simp, heq⟩⟩
          · exact ⟨hbound, Or.inr ⟨u, List.mem_cons_of_mem _ hu, heq⟩⟩
      · intro _
        refine ⟨by simp, ?_⟩
        by_cases hnext : nextBitmap bpb blk < bound
        · obtain ⟨-, v, hv, hend⟩ := ih2 hnext
          exact ⟨v, List.mem_cons_of_mem _ hv, hend⟩
        · exact ⟨blk, by simp, Nat.le_of_not_lt hnext⟩
    · next hlt =>
      cases h
      exact ⟨by simp, fun h => absurd h hlt⟩

/-- As long as no number wraps, the loop visits the multiples of `bpb` up to the bound. -/
theorem layoutBlocks_of_lt {bpb bound : Nat} (hb : 0 < bpb)
    (hwrap : ∀ x, x < bound → (x / bpb + 1) * bpb < 18446744073709551616) :
    ∀ (fuel blk : Nat), bound ≤ fuel + blk → ∃ blks,
      layoutBlocks bpb bound (fuel + 1) blk = some blks ∧ blks.Nodup ∧
      ∀ b, b ∈ blks ↔ b < bound ∧ (b = blk ∨ (bpb ∣ b ∧ blk < b)) := by
  intro fuel
  induction fuel with
  | zero =>
    intro blk hle
    have hstop : ¬blk < bound := by omega
    refine ⟨[], by rw [layoutBlocks, if_neg hstop], List.nodup_nil, ?_⟩
    intro b
    simp only [List.not_mem_nil, false_iff]
    omega
  | succ fuel ih =>
    intro blk hle
    rw [layoutBlocks]
    by_cases hlt : blk < bound
    · have hnext : nextBitmap bpb blk = (blk / bpb + 1) * bpb := Nat.mod_eq_of_lt (hwrap blk hlt)
      have hgt := lt_succ_mul hb blk
      obtain ⟨rest, hrest, hnodup, hmem⟩ := ih (nextBitmap bpb blk) (by omega)
      refine ⟨blk :: rest, by rw [if_pos hlt, hrest]; rfl, ?_, ?_⟩
      · refine List.nodup_cons.mpr ⟨?_, hnodup⟩
        intro hin
        have := (hmem blk).mp hin
        omega
      · intro b
        rw [List.mem_cons, hmem, hnext]
        constructor
        · rintro (rfl | ⟨hbound, rfl | ⟨hdvd, hlt'⟩⟩)
          · exact ⟨hlt, Or.inl rfl⟩
          · exact ⟨hbound, Or.inr ⟨Dvd.intro_left _ rfl, hgt⟩⟩
          · exact ⟨hbound, Or.inr ⟨hdvd, by omega⟩⟩
        · rintro ⟨hbound, rfl | ⟨hdvd, hlt'⟩⟩
          · exact Or.inl rfl
          · have := succ_mul_le hb hdvd hlt'
            rcases Nat.eq_or_lt_of_le this with heq | hlt''
            · exact Or.inr ⟨hbound, Or.inl heq.symm⟩
            · exact Or.inr ⟨hbound, Or.inr ⟨hdvd, hlt''⟩⟩
    · refine ⟨[], by rw [if_neg hlt], List.nodup_nil, ?_⟩
      intro b
      simp only [List.not_mem_nil, false_iff]
      omega

theorem blocksPerBitmap_pos {blksize : Nat} (h : BlksizeOk blksize) :
    0 < blocksPerBitmap blksize := by
  have := h.room
  unfold blocksPerBitmap
  omega

theorem alloc40Blocknr_pos (blksize : Nat) : 0 < alloc40Blocknr blksize := by
  unfold alloc40Blocknr
  exact Nat.succ_pos _

/-- When the numbers do not wrap and no multiple is behind the end, the layout is exact. -/
theorem visitsExactly_of {blksize total : Nat} (h : BlksizeOk blksize)
    (hstart : alloc40Blocknr blksize < total)
    (hfirst : alloc40Blocknr blksize ≤ blocksPerBitmap blksize)
    (hend : alloc40Blocknr blksize + total ≤ nextMultiple (blocksPerBitmap blksize) total)
    (hwrap : nextMultiple (blocksPerBitmap blksize) total < 18446744073709551616) :
    VisitsExactly blksize total := by
  have hb := blocksPerBitmap_pos h
  have hbound : u64 (alloc40Blocknr blksize + total) = alloc40Blocknr blksize + total :=
    Nat.mod_eq_of_lt (by omega)
  -- A multiple in front of the bound is one in front of the end.
  have hmult : ∀ x, blocksPerBitmap blksize ∣ x → x < alloc40Blocknr blksize + total →
      x < total := by
    intro x hx hlt
    by_contra hge
    have := nextMultiple_le hb hx (Nat.le_of_not_lt hge)
    omega
  have hwraps : ∀ x, x < alloc40Blocknr blksize + total →
      (x / blocksPerBitmap blksize + 1) * blocksPerBitmap blksize < 18446744073709551616 := by
    intro x hx
    by_contra hge
    have h1 : x < nextMultiple (blocksPerBitmap blksize) total := by omega
    have h2 := succ_mul_le hb dvd_nextMultiple h1
    omega
  obtain ⟨blks, hblks, hnodup, hmem⟩ := layoutBlocks_of_lt hb hwraps
    (alloc40Blocknr blksize + total) (alloc40Blocknr blksize) (by omega)
  refine ⟨blks, visits_iff.mpr ⟨_, by rw [hbound]; exact hblks⟩, hnodup, ?_, ?_⟩
  · intro b
    rw [hmem]
    constructor
    · rintro ⟨hlt, heq | ⟨⟨k, hk⟩, hgt⟩⟩
      · exact Or.inl heq
      · refine Or.inr ⟨k, ?_, by rw [hk, Nat.mul_comm], hmult b ⟨k, hk⟩ hlt⟩
        rcases Nat.eq_zero_or_pos k with rfl | hpos
        · have := alloc40Blocknr_pos blksize
          omega
        · exact hpos
    · rintro (rfl | ⟨k, hk, rfl, hlt⟩)
      · exact ⟨by omega, Or.inl rfl⟩
      · have : blocksPerBitmap blksize ≤ k * blocksPerBitmap blksize := Nat.le_mul_of_pos_left _ hk
        refine ⟨by omega, ?_⟩
        rcases Nat.eq_or_lt_of_le (Nat.le_trans hfirst this) with heq | hlt'
        · exact Or.inl heq.symm
        · exact Or.inr ⟨Dvd.intro_left _ rfl, hlt'⟩
  · intro b hmemb
    obtain ⟨hlt, rfl | ⟨hdvd, -⟩⟩ := (hmem b).mp hmemb
    · exact hstart
    · exact hmult b hdvd hlt

/-- An exact layout has the first bitmap block in front of the end and of the second multiple, and
    the first multiple behind the end is out of its reach. -/
theorem bounds_of_visitsExactly {blksize total : Nat} (h : BlksizeOk blksize)
    (htotal : total < 18446744073709551616) (hv : VisitsExactly blksize total) :
    alloc40Blocknr blksize < total ∧ alloc40Blocknr blksize ≤ blocksPerBitmap blksize ∧
      alloc40Blocknr blksize + total ≤ nextMultiple (blocksPerBitmap blksize) total ∧
      nextMultiple (blocksPerBitmap blksize) total < 18446744073709551616 := by
  have hb := blocksPerBitmap_pos h
  obtain ⟨blks, hvis, -, hmem, hlt⟩ := hv
  obtain ⟨fuel, hblks⟩ := visits_iff.mp hvis
  obtain ⟨hchain, hlast⟩ := layoutBlocks_chain hblks
  have hstart := (hmem (alloc40Blocknr blksize)).mpr (Or.inl rfl)
  have hstart_lt := hlt _ hstart
  have hin := (hchain _ hstart).1
  have hbound : u64 (alloc40Blocknr blksize + total) = alloc40Blocknr blksize + total := by
    unfold u64 at hin ⊢
    omega
  rw [hbound] at hchain hlast hin
  -- The last visited block: the multiple after it has not wrapped.
  obtain ⟨-, v, hv, hend⟩ := hlast hin
  have hv_lt := hlt v hv
  have hgt := lt_succ_mul hb v
  have hstep : (v / blocksPerBitmap blksize + 1) * blocksPerBitmap blksize ≤
      v + blocksPerBitmap blksize := by
    have h1 := Nat.div_mul_le_self v (blocksPerBitmap blksize)
    rw [Nat.add_mul, Nat.one_mul]
    omega
  have hnowrap : (v / blocksPerBitmap blksize + 1) * blocksPerBitmap blksize <
      18446744073709551616 := by
    by_contra hge
    have hsmall : blocksPerBitmap blksize < 18446744073709551616 := by
      have := h.field
      unfold blocksPerBitmap
      omega
    have hmod : nextBitmap (blocksPerBitmap blksize) v < blocksPerBitmap blksize := by
      unfold nextBitmap u64
      omega
    have hdiv : v / blocksPerBitmap blksize = 0 := Nat.div_eq_of_lt (by omega)
    rw [hdiv, Nat.zero_add, Nat.one_mul] at hge
    exact hge hsmall
  have hnext : nextBitmap (blocksPerBitmap blksize) v =
      (v / blocksPerBitmap blksize + 1) * blocksPerBitmap blksize := Nat.mod_eq_of_lt hnowrap
  have hle_next : nextMultiple (blocksPerBitmap blksize) total ≤
      nextBitmap (blocksPerBitmap blksize) v :=
    nextMultiple_le hb (by rw [hnext]; exact Dvd.intro_left _ rfl) (by omega)
  have hnext_le : (v / blocksPerBitmap blksize + 1) * blocksPerBitmap blksize ≤
      nextMultiple (blocksPerBitmap blksize) total :=
    succ_mul_le hb dvd_nextMultiple (Nat.lt_of_lt_of_le hv_lt (le_nextMultiple hb))
  refine ⟨hstart_lt, ?_, by omega, by omega⟩
  -- The multiple `bpb` itself is visited, and what comes before it is the start.
  by_contra hfirst
  have hbpb := (hmem (blocksPerBitmap blksize)).mpr
    (Or.inr ⟨1, Nat.le_refl 1, (Nat.one_mul _).symm, by omega⟩)
  obtain ⟨-, heq | ⟨u, hu, heq⟩⟩ := hchain _ hbpb
  · omega
  · have hu_lt := hlt u hu
    have hu_gt := lt_succ_mul hb u
    have hu_le := Nat.div_mul_le_self u (blocksPerBitmap blksize)
    have hu_ge : blocksPerBitmap blksize ≤ u := by
      rcases (hmem u).mp hu with rfl | ⟨k, hk, rfl, -⟩
      · omega
      · exact Nat.le_mul_of_pos_left _ hk
    have hone : 1 ≤ u / blocksPerBitmap blksize := (Nat.one_le_div_iff hb).mpr hu_ge
    have htwo : 2 * blocksPerBitmap blksize ≤
        (u / blocksPerBitmap blksize + 1) * blocksPerBitmap blksize :=
      Nat.mul_le_mul_right _ (by omega)
    rw [Nat.add_mul, Nat.one_mul] at htwo hu_gt
    unfold nextBitmap u64 at heq
    rw [Nat.add_mul, Nat.one_mul] at heq
    omega

/-- **The layout is exact if and only if** the first bitmap block is in front of the end and not
    behind the second one, and the first multiple of `bpb` from the end on is at least `start` blocks
    behind it and still a block number. -/
theorem alloc40Layout_exact_iff (blksize total : Nat) (h : BlksizeOk blksize)
    (htotal : total < 18446744073709551616) :
    VisitsExactly blksize total ↔
      alloc40Blocknr blksize < total ∧ alloc40Blocknr blksize ≤ blocksPerBitmap blksize ∧
        alloc40Blocknr blksize + total ≤ nextMultiple (blocksPerBitmap blksize) total ∧
        nextMultiple (blocksPerBitmap blksize) total < 18446744073709551616 := by
  constructor
  · exact bounds_of_visitsExactly h htotal
  · rintro ⟨hstart, hfirst, hend, hwrap⟩
    exact visitsExactly_of h hstart hfirst hend hwrap

theorem blksizeOk_4096 : BlksizeOk 4096 := ⟨by decide, by decide⟩

/-- A file system of 4 KiB blocks that ends in the middle of a bitmap's range. -/
theorem alloc40Layout_exact_40000 : VisitsExactly 4096 40000 :=
  (alloc40Layout_exact_iff 4096 40000 blksizeOk_4096 (by decide)).mpr (by decide)

/-- A file system of exactly one bitmap's range: the block behind its end is visited. -/
theorem alloc40Layout_overruns : ¬VisitsExactly 4096 32736 := by
  rintro ⟨blks, hvis, -, -, hlt⟩
  obtain ⟨fuel, hblks⟩ := visits_iff.mp hvis
  have hthree : layoutBlocks (blocksPerBitmap 4096) (u64 (alloc40Blocknr 4096 + 32736)) 3
      (alloc40Blocknr 4096) = some [18, 32736] := by decide
  have h1 := layoutBlocks_mono hblks (Nat.le_max_left fuel 3)
  have h2 := layoutBlocks_mono hthree (Nat.le_max_right fuel 3)
  rw [h1, Option.some.injEq] at h2
  have := hlt 32736 (by simp [h2])
  omega

/-! ## The visited blocks and the pieces -/

/-- As long as no number wraps, the layout visits the first bitmap block and the multiples behind
    it. -/
theorem layoutBlocks_mem {blksize total : Nat} (h : BlksizeOk blksize)
    (htotal : total < 4611686018427387904) : ∃ enough blks, (∀ fuel, enough ≤ fuel →
      layoutBlocks (blocksPerBitmap blksize) (u64 (alloc40Blocknr blksize + total)) fuel
        (alloc40Blocknr blksize) = some blks) ∧ blks.Nodup ∧
    ∀ b, b ∈ blks ↔ b < alloc40Blocknr blksize + total ∧
      (b = alloc40Blocknr blksize ∨ (blocksPerBitmap blksize ∣ b ∧ alloc40Blocknr blksize < b)) := by
  have hstart : alloc40Blocknr blksize ≤ 65538 := by
    unfold alloc40Blocknr masterOffset
    have := Nat.div_le_self 65536 blksize
    omega
  have hbpb : blocksPerBitmap blksize < 524288 := by
    have := h.field
    unfold blocksPerBitmap
    omega
  have hbound : u64 (alloc40Blocknr blksize + total) = alloc40Blocknr blksize + total :=
    Nat.mod_eq_of_lt (by omega)
  have hwraps : ∀ x, x < alloc40Blocknr blksize + total →
      (x / blocksPerBitmap blksize + 1) * blocksPerBitmap blksize < 18446744073709551616 := by
    intro x hx
    have := Nat.div_mul_le_self x (blocksPerBitmap blksize)
    rw [Nat.add_mul, Nat.one_mul]
    omega
  obtain ⟨blks, hblks, hnodup, hmem⟩ := layoutBlocks_of_lt (blocksPerBitmap_pos h) hwraps
    (alloc40Blocknr blksize + total) (alloc40Blocknr blksize) (by omega)
  rw [hbound]
  exact ⟨_, blks, fun fuel hle => layoutBlocks_mono hblks hle, hnodup, hmem⟩

/-- So it does on a file system whose bitmap fits its byte count. -/
theorem visits_mem {blksize total : Nat} {blks : List Nat} (h : BlksizeOk blksize)
    (htotal : total < 34359738368) (hv : Visits blksize total blks) : blks.Nodup ∧
    ∀ b, b ∈ blks ↔ b < alloc40Blocknr blksize + total ∧
      (b = alloc40Blocknr blksize ∨ (blocksPerBitmap blksize ∣ b ∧ alloc40Blocknr blksize < b)) := by
  obtain ⟨enough, blks', hblks', hspec⟩ := @layoutBlocks_mem _ total h (by omega)
  rw [visits_unique hv (visits_iff.mpr ⟨enough, hblks' enough (Nat.le_refl _)⟩)]
  exact hspec

/-- Two visited blocks hold different pieces. -/
theorem visits_piece_inj {blksize total : Nat} {blks : List Nat} (h : BlksizeOk blksize)
    (htotal : total < 34359738368) (hv : Visits blksize total blks) {b b' : Nat} (hb : b ∈ blks)
    (hb' : b' ∈ blks) (hp : b / blocksPerBitmap blksize = b' / blocksPerBitmap blksize) :
    b = b' := by
  have hpos := blocksPerBitmap_pos h
  -- The first block lies in front of every later multiple, so in an earlier piece.
  have hfirst : ∀ c, blocksPerBitmap blksize ∣ c → alloc40Blocknr blksize < c →
      alloc40Blocknr blksize / blocksPerBitmap blksize ≠ c / blocksPerBitmap blksize := by
    intro c hdvd hlt heq
    have h1 := Nat.div_mul_cancel hdvd
    have h2 := Nat.div_mul_le_self (alloc40Blocknr blksize) (blocksPerBitmap blksize)
    have h3 := lt_succ_mul hpos (alloc40Blocknr blksize)
    have h4 := succ_mul_le hpos hdvd hlt
    rw [heq] at h4
    rw [Nat.add_mul, h1] at h4
    omega
  obtain ⟨-, h1⟩ := ((visits_mem h htotal hv).2 b).mp hb
  obtain ⟨-, h2⟩ := ((visits_mem h htotal hv).2 b').mp hb'
  rcases h1 with rfl | ⟨hd1, hl1⟩
  · rcases h2 with rfl | ⟨hd2, hl2⟩
    · rfl
    · exact absurd hp (hfirst _ hd2 hl2)
  · rcases h2 with rfl | ⟨hd2, hl2⟩
    · exact absurd hp.symm (hfirst _ hd1 hl1)
    · rw [← Nat.div_mul_cancel hd1, ← Nat.div_mul_cancel hd2, hp]

/-- A layout that stays inside the file system has its first block in the first piece: otherwise it
    would reach a multiple behind the end. -/
theorem first_lt_of_layout {blksize total : Nat} {blks : List Nat} (h : BlksizeOk blksize)
    (hpos : 0 < total) (htotal : total < 34359738368) (hv : Visits blksize total blks)
    (hlt : ∀ b ∈ blks, b < total) : alloc40Blocknr blksize < blocksPerBitmap blksize := by
  by_contra hge
  have hmem := (visits_mem h htotal hv).2
  have hstart := hlt _ ((hmem _).mpr ⟨by omega, Or.inl rfl⟩)
  have hle : total ≤ nextMultiple (blocksPerBitmap blksize) total :=
    le_nextMultiple (blocksPerBitmap_pos h)
  have hup : nextMultiple (blocksPerBitmap blksize) total < total + blocksPerBitmap blksize := by
    have h1 := Nat.div_mul_le_self (total + blocksPerBitmap blksize - 1) (blocksPerBitmap blksize)
    have h2 := blocksPerBitmap_pos h
    unfold nextMultiple
    omega
  have := hlt _ ((hmem (nextMultiple (blocksPerBitmap blksize) total)).mpr
    ⟨by omega, Or.inr ⟨dvd_nextMultiple, by omega⟩⟩)
  omega

/-- When the first bitmap block lies in the first piece, every piece is held by a visited block. -/
theorem visits_covers {blksize total : Nat} {blks : List Nat} (h : BlksizeOk blksize)
    (htotal : total < 34359738368) (hv : Visits blksize total blks)
    (hfirst : alloc40Blocknr blksize < blocksPerBitmap blksize) {i : Nat} (hi : i < total) :
    ∃ b ∈ blks, i / blocksPerBitmap blksize = b / blocksPerBitmap blksize := by
  have hpos := blocksPerBitmap_pos h
  rcases Nat.eq_zero_or_pos (i / blocksPerBitmap blksize) with h0 | hk
  · refine ⟨alloc40Blocknr blksize, ?_, ?_⟩
    · exact ((visits_mem h htotal hv).2 _).mpr ⟨by omega, Or.inl rfl⟩
    · rw [h0, Nat.div_eq_of_lt hfirst]
  · refine ⟨i / blocksPerBitmap blksize * blocksPerBitmap blksize, ?_, ?_⟩
    · have h1 := Nat.div_mul_le_self i (blocksPerBitmap blksize)
      have h2 : blocksPerBitmap blksize ≤ i / blocksPerBitmap blksize * blocksPerBitmap blksize :=
        Nat.le_mul_of_pos_left _ hk
      exact ((visits_mem h htotal hv).2 _).mpr
        ⟨by omega, Or.inr ⟨Dvd.intro_left _ rfl, by omega⟩⟩
    · rw [Nat.mul_div_cancel _ hpos]

/-- The blocks `alloc40_layout` visits, if the fuel is enough. -/
def visited (fuel blksize total : Nat) : Option (List Nat) :=
  layoutBlocks (blocksPerBitmap blksize) (u64 (alloc40Blocknr blksize + total)) fuel
    (alloc40Blocknr blksize)

theorem visited_visits {fuel blksize total : Nat} {blks : List Nat}
    (h : visited fuel blksize total = some blks) : Visits blksize total blks :=
  visits_iff.mpr ⟨fuel, h⟩

section

variable {σ : Type} {fuel blksize total : Nat} {f : Nat → Run σ Errno Unit} {s s' : σ}

/-- A callback that succeeds on all visited blocks makes the whole layout succeed. -/
theorem alloc40Layout_of_forEach {blks : List Nat} (h : visited fuel blksize total = some blks)
    (hf : (Run.forEach f blks).run s = some (.ok (), s')) :
    (alloc40Layout fuel blksize total f).run s = some (.ok (), s') :=
  layoutLoop_of_forEach h hf

/-- A callback that never fails is called for every visited block. -/
theorem alloc40Layout_forEach (hf : ∀ b s r s', (f b).run s = some (r, s') → r = .ok ())
    (hrun : (alloc40Layout fuel blksize total f).run s = some (.ok (), s')) :
    ∃ blks, visited fuel blksize total = some blks ∧
      (Run.forEach f blks).run s = some (.ok (), s') :=
  layoutLoop_forEach hf hrun

end

end Reiser4.Alloc40
