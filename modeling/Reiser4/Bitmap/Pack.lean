/-
  A bitmap in a stream (`reiser4_bitmap_pack`, `reiser4_bitmap_unpack`).

  Behind the magic and the total there are run lengths: how many bits are set, how many are then clear, and
  so on.  The first run can be empty.  The reader adds the lengths up in 64 bits and compares each sum with
  the total.

    1. `runsLoop_packLoop`      a bitmap comes back from its own runs;
    2. `bitmapRoundTrips_iff`   when a bitmap comes back from the bytes it was written to;
    3. `bitmapUnpack_iff`       on any stream, when the reader takes nothing else for a bitmap.
-/
import Reiser4.Bitmap.Runs
import Reiser4.Lib.Stream

namespace Reiser4

open Reiser4.Lib Reiser4.Lib.Stream

section Model

variable (aal : AalBits)

/-- `AUX_BITMAP_MAGIC`, with the zero byte. -/
def auxBitmapMagic : List UInt8 := [82, 52, 66, 116, 77, 112, 0]

/-- The loop of `reiser4_bitmap_pack`: the run lengths from bit `count` on. -/
def packLoop (b : Bitmap) : Nat → Nat → Bool → Option (List Nat)
  | 0, _, _ => none
  | fuel + 1, count, set =>
    (if set then reiser4BitmapFindCleared aal b count else reiser4BitmapFindMarked aal b count).bind fun i =>
      if i = invalBlk then some [b.total - count]
      else (packLoop b fuel (count + (i - count)) (!set)).map fun runs => (i - count) :: runs

/-- `reiser4_bitmap_pack`: what is written to the stream. -/
def reiser4BitmapPack (b : Bitmap) : Option (List UInt8) :=
  (packLoop aal b (b.total + 2) 0 true).map fun runs =>
    auxBitmapMagic ++ bytesOf 8 b.total ++ runs.flatMap (bytesOf 8)

/-- The loop of `reiser4_bitmap_unpack`; the answer is no bitmap where the stream is not one. -/
def unpackLoop (total : Nat) : Nat → List UInt8 → Nat → Bool → Bitmap → Option (Option Bitmap)
  | 0, _, _, _, _ => none
  | fuel + 1, stream, bit, set, b =>
    if stream.length < 8 then some (if bit = total then some b else none)
    else
      let count := numberOf 8 (stream.take 8)
      if total < u64 (bit + count) then some none
      else
        (if set then reiser4BitmapMarkRegion aal b bit count else some b).bind fun b =>
          unpackLoop total fuel (stream.drop 8) (u64 (bit + count)) (!set) b

/-- `reiser4_bitmap_unpack`. -/
def reiser4BitmapUnpack (stream : List UInt8) : Option (Option Bitmap) :=
  if stream.length < 7 then some none
  else if stream.take 7 ≠ auxBitmapMagic then some none
  else
    let stream := stream.drop 7
    if stream.length < 8 then some none
    else
      let total := numberOf 8 (stream.take 8)
      unpackLoop aal total stream.length (stream.drop 8) 0 true (reiser4BitmapCreate total)

end Model

/-! ## Streams as run lengths -/

section Streams

/-- The run lengths in a stream; fewer than 8 bytes at the end are none. -/
def streamWords : Nat → List UInt8 → List Nat
  | 0, _ => []
  | fuel + 1, stream =>
    if stream.length < 8 then [] else numberOf 8 (stream.take 8) :: streamWords fuel (stream.drop 8)

/-- The total in the stream of a bitmap. -/
def streamTotal (stream : List UInt8) : Nat := numberOf 8 ((stream.drop 7).take 8)

/-- The run lengths in the stream of a bitmap. -/
def streamRuns (stream : List UInt8) : List Nat := streamWords stream.length (stream.drop 15)

/-- The loop of the reader, over the run lengths. -/
def runsLoop (aal : AalBits) (total : Nat) : List Nat → Nat → Bool → Bitmap → Option (Option Bitmap)
  | [], bit, _, b => some (if bit = total then some b else none)
  | count :: runs, bit, set, b =>
    if total < u64 (bit + count) then some none
    else
      (if set then reiser4BitmapMarkRegion aal b bit count else some b).bind fun b =>
        runsLoop aal total runs (u64 (bit + count)) (!set) b

variable {aal : AalBits} {total : Nat}

theorem unpackLoop_eq : ∀ {fuel fuel' : Nat} {stream : List UInt8} {bit : Nat} {set : Bool} {b : Bitmap},
    stream.length < fuel → stream.length ≤ fuel' →
    unpackLoop aal total fuel stream bit set b = runsLoop aal total (streamWords fuel' stream) bit set b
  | 0, _, _, _, _, _, h, _ => absurd h (Nat.not_lt_zero _)
  | fuel + 1, fuel', stream, bit, set, b, h, h' => by
    unfold unpackLoop
    by_cases hshort : stream.length < 8
    · have hnone : streamWords fuel' stream = [] := by
        cases fuel' with
        | zero => rfl
        | succ _ => exact if_pos hshort
      rw [if_pos hshort, hnone]
      rfl
    · obtain ⟨f, rfl⟩ : ∃ f, fuel' = f + 1 := ⟨fuel' - 1, by omega⟩
      have hwords : streamWords (f + 1) stream =
          numberOf 8 (stream.take 8) :: streamWords f (stream.drop 8) := if_neg hshort
      rw [if_neg hshort, hwords]
      dsimp only
      unfold runsLoop
      by_cases hbig : total < u64 (bit + numberOf 8 (stream.take 8))
      · rw [if_pos hbig, if_pos hbig]
      · rw [if_neg hbig, if_neg hbig]
        congr 1
        funext b'
        exact unpackLoop_eq (by rw [List.length_drop]; omega) (by rw [List.length_drop]; omega)

theorem streamWords_lt : ∀ {fuel : Nat} {stream : List UInt8}, ∀ n ∈ streamWords fuel stream, n < two64
  | 0, _, n, h => absurd h List.not_mem_nil
  | fuel + 1, stream, n, h => by
    unfold streamWords at h
    by_cases hshort : stream.length < 8
    · rw [if_pos hshort] at h
      exact absurd h List.not_mem_nil
    · rw [if_neg hshort] at h
      rcases List.mem_cons.mp h with rfl | h
      · exact numberOf_lt
      · exact streamWords_lt n h

/-- Run lengths that were written are read. -/
theorem streamWords_flatMap : ∀ {runs : List Nat} {fuel : Nat}, (∀ n ∈ runs, n < two64) →
    8 * runs.length ≤ fuel → streamWords fuel (runs.flatMap (bytesOf 8)) = runs
  | [], 0, _, _ => rfl
  | [], _ + 1, _, _ => rfl
  | n :: runs, 0, _, h => by
    rw [List.length_cons] at h
    omega
  | n :: runs, fuel + 1, hlt, h => by
    rw [List.length_cons] at h
    have hlen : ¬ ((n :: runs).flatMap (bytesOf 8)).length < 8 := by
      rw [List.flatMap_cons, List.length_append, bytesOf_length]
      omega
    unfold streamWords
    rw [if_neg hlen, List.flatMap_cons, List.take_left' bytesOf_length, List.drop_left' bytesOf_length,
      numberOf_bytesOf (hlt n List.mem_cons_self),
      streamWords_flatMap (fun m hm => hlt m (List.mem_cons_of_mem _ hm)) (by omega)]

end Streams

/-! ## A bitmap comes back -/

section RoundTrip

variable {aal : AalBits} {b c : Bitmap}

/-- The next bit of the other kind, or that there is none. -/
theorem find_spec (h : b.Sized) {count : Nat} (hcount : count < b.total) (set : Bool) :
    ((if set then reiser4BitmapFindCleared aal b count else reiser4BitmapFindMarked aal b count) =
        some invalBlk ∧ ∀ j, count ≤ j → j < b.total → b.has aal j = set) ∨
    ∃ next, (if set then reiser4BitmapFindCleared aal b count else reiser4BitmapFindMarked aal b count) =
        some next ∧ count ≤ next ∧ next < b.total ∧ b.has aal next = !set ∧
        ∀ j, count ≤ j → j < next → b.has aal j = set := by
  have hfind : ∃ find, (if set then reiser4BitmapFindCleared aal b count
      else reiser4BitmapFindMarked aal b count) = bitmapFind find b count ∧
      (∀ j, count ≤ j → j < b.total → j < find b.map b.total count →
        (aal.test b.map j != set) = false) ∧
      (find b.map b.total count < b.total → count ≤ find b.map b.total count ∧
        (aal.test b.map (find b.map b.total count) != set) = true) := by
    cases set with
    | true =>
      refine ⟨aal.findNextZeroBit, rfl, fun j h1 h2 h3 => ?_, fun hlt => ?_⟩
      · rw [aal.findNextZeroBit_before b.map b.total count j h1 h2 h3]
        rfl
      · obtain ⟨hge, hbit⟩ := aal.findNextZeroBit_at b.map b.total count hlt
        rw [hbit]
        exact ⟨hge, rfl⟩
    | false =>
      refine ⟨aal.findNextSetBit, rfl, fun j h1 h2 h3 => ?_, fun hlt => ?_⟩
      · rw [aal.findNextSetBit_before b.map b.total count j h1 h2 h3]
        rfl
      · obtain ⟨hge, hbit⟩ := aal.findNextSetBit_at b.map b.total count hlt
        rw [hbit]
        exact ⟨hge, rfl⟩
  obtain ⟨find, hrun, hbefore, hat⟩ := hfind
  rw [hrun]
  have hsame : ∀ {j}, (aal.test b.map j != set) = false → aal.test b.map j = set := by
    intro j hj
    cases hb : aal.test b.map j <;> cases set <;> rw [hb] at hj <;> first | rfl | cases hj
  rcases @bitmapFind_spec b find (fun j => aal.test b.map j != set) count h hcount hbefore hat with
    ⟨hf, hnone⟩ | ⟨next, hf, hge, hlt, hnext, hbetween⟩
  · refine Or.inl ⟨hf, fun j h1 h2 => ?_⟩
    rw [Bitmap.has_of_lt h2]
    exact hsame (hnone j h1 h2)
  · refine Or.inr ⟨next, hf, hge, hlt, ?_, fun j h1 h2 => ?_⟩
    · rw [Bitmap.has_of_lt hlt]
      cases hb : aal.test b.map next <;> cases set <;> rw [hb] at hnext <;> first | rfl | cases hnext
    · rw [Bitmap.has_of_lt (by omega)]
      exact hsame (hbetween j h1 h2)

/-- One run of the reader: the bits in front of its end are those of the bitmap that was written. -/
theorem unpackRun (hb : b.Sized) (hc : c.WF aal) (htotal : c.total = b.total) {count n : Nat} {set : Bool}
    (hhas : ∀ i, c.has aal i = (decide (i < count) && b.has aal i)) (hle : count + n ≤ b.total)
    (hrun : ∀ j, count ≤ j → j < count + n → b.has aal j = set) :
    ∃ c', (if set then reiser4BitmapMarkRegion aal c count n else some c) = some c' ∧ c'.WF aal ∧
      c'.total = b.total ∧ ∀ i, c'.has aal i = (decide (i < count + n) && b.has aal i) := by
  have hlt := hb.total_lt
  cases set with
  | true =>
    obtain ⟨c', hc'⟩ : ∃ c', reiser4BitmapMarkRegion aal c count n = some c' :=
      region_some hc.sized fun _ => by
        unfold two64
        omega
    obtain ⟨hwf, htot, hset⟩ := markRegion_spec hc hc'
    refine ⟨c', hc', hwf, htot.trans htotal, fun i => ?_⟩
    rw [hset, hhas, Bitmap.regionHas, htotal, decide_eq_true hle, Bool.true_and]
    by_cases hi : count ≤ i ∧ i < count + n
    · rw [decide_eq_true hi, decide_eq_true hi.2, hrun i hi.1 hi.2]
      rfl
    · rw [decide_eq_false hi, Bool.false_or]
      congr 1
      exact decide_eq_decide.mpr (by constructor <;> omega)
  | false =>
    refine ⟨c, rfl, hc, htotal, fun i => ?_⟩
    rw [hhas]
    by_cases hi : count ≤ i ∧ i < count + n
    · rw [hrun i hi.1 hi.2, Bool.and_false, Bool.and_false]
    · congr 1
      exact decide_eq_decide.mpr (by constructor <;> omega)

/-- **The runs of a bitmap make it again**, from any bit on.  The first run can be empty; then the bit is not
    of the kind that is looked for, and the next run is not empty. -/
theorem runsLoop_packLoop (hb : b.Sized) : ∀ {fuel count : Nat} {set : Bool} {c : Bitmap},
    (count < b.total ∨ b.total = 0 ∧ count = 0) →
    b.total - count + (if b.has aal count = set then 0 else 1) < fuel → c.WF aal → c.total = b.total →
    (∀ i, c.has aal i = (decide (i < count) && b.has aal i)) →
    ∃ runs c', packLoop aal b fuel count set = some runs ∧ (∀ n ∈ runs, n < two64) ∧ runs.length ≤ fuel ∧
      runsLoop aal b.total runs count set c = some (some c') ∧ c'.WF aal ∧ c'.total = b.total ∧
      ∀ i, c'.has aal i = b.has aal i
  | 0, _, _, _, _, hfuel, _, _, _ => absurd hfuel (Nat.not_lt_zero _)
  | fuel + 1, count, set, c, hcount, hfuel, hc, htotal, hhas => by
    have hlt := hb.total_lt
    have hword : ∀ {n : Nat}, n ≤ b.total → n < two64 := by
      intro n hn
      unfold two64
      omega
    have hsum : ∀ {n : Nat}, count + n ≤ b.total → u64 (count + n) = count + n := by
      intro n hn
      exact Nat.mod_eq_of_lt (by omega)
    -- the last run
    have hlast : (∀ j, count ≤ j → j < b.total → b.has aal j = set) →
        ∃ c', runsLoop aal b.total [b.total - count] count set c = some (some c') ∧ c'.WF aal ∧
          c'.total = b.total ∧ ∀ i, c'.has aal i = b.has aal i := by
      intro hall
      have hend : count + (b.total - count) = b.total := by omega
      obtain ⟨c', hrun, hwf, htot, hset⟩ := unpackRun hb hc htotal hhas (Nat.le_of_eq hend)
        fun j h1 h2 => hall j h1 (by omega)
      refine ⟨c', ?_, hwf, htot, fun i => ?_⟩
      · unfold runsLoop
        rw [hsum (Nat.le_of_eq hend), hend, if_neg (Nat.lt_irrefl _), hrun]
        show runsLoop aal b.total [] b.total (!set) c' = _
        unfold runsLoop
        rw [if_pos rfl]
      · rw [hset, hend]
        by_cases hi : i < b.total
        · rw [decide_eq_true hi, Bool.true_and]
        · rw [decide_eq_false hi, Bool.false_and, Bitmap.has, decide_eq_false hi, Bool.false_and]
    rcases hcount with hcount | ⟨hzero, hcount0⟩
    · rcases @find_spec aal b hb count hcount set with ⟨hfind, hall⟩ | ⟨next, hfind, hge, hnext, hother, hbetween⟩
      · obtain ⟨c', hrun, hpost⟩ := hlast hall
        refine ⟨[b.total - count], c', ?_, fun n hn => ?_, Nat.succ_le_succ (Nat.zero_le _), hrun, hpost⟩
        · unfold packLoop
          rw [hfind]
          rfl
        · rw [List.mem_singleton.mp hn]
          exact hword (Nat.sub_le _ _)
      · have hto : count + (next - count) = next := by omega
        obtain ⟨c1, hrun, hwf, htot, hset⟩ := unpackRun hb hc htotal hhas (show count + (next - count) ≤ b.total by
          omega) fun j h1 h2 => hbetween j h1 (by omega)
        rw [hto] at hset
        -- the next run is not empty
        have hmore : b.total - next + (if b.has aal next = !set then 0 else 1) < fuel := by
          rw [if_pos hother]
          by_cases hbit : b.has aal count = set
          · have : next ≠ count := by
              rintro rfl
              rw [hbit] at hother
              cases set <;> cases hother
            rw [if_pos hbit] at hfuel
            omega
          · rw [if_neg hbit] at hfuel
            omega
        obtain ⟨runs, c', hpack, hwords, hlen, hrest, hpost⟩ := runsLoop_packLoop hb (Or.inl hnext) hmore hwf htot
          hset
        refine ⟨(next - count) :: runs, c', ?_, fun n hn => ?_, Nat.succ_le_succ hlen, ?_, hpost⟩
        · have hvalid : next ≠ invalBlk := by
            unfold invalBlk
            omega
          unfold packLoop
          rw [hfind]
          show (if next = invalBlk then _ else _) = _
          rw [if_neg hvalid, hto, hpack]
          rfl
        · rcases List.mem_cons.mp hn with rfl | hn
          · exact hword (by omega)
          · exact hwords n hn
        · unfold runsLoop
          rw [hsum (by omega), hto, if_neg (by omega), hrun]
          exact hrest
    · obtain ⟨c', hrun, hpost⟩ := hlast fun j _ h2 => by omega
      refine ⟨[b.total - count], c', ?_, fun n hn => ?_, Nat.succ_le_succ (Nat.zero_le _), hrun, hpost⟩
      · have hfind : (if set then reiser4BitmapFindCleared aal b count
            else reiser4BitmapFindMarked aal b count) = some invalBlk := by
          have hle : b.total ≤ count := by omega
          cases set
          · show bitmapFind aal.findNextSetBit b count = _
            unfold bitmapFind
            rw [if_pos hle]
          · show bitmapFind aal.findNextZeroBit b count = _
            unfold bitmapFind
            rw [if_pos hle]
        unfold packLoop
        rw [hfind]
        rfl
      · rw [List.mem_singleton.mp hn]
        exact hword (Nat.sub_le _ _)

/-- Exactly the bytes that were written make a bitmap with the same total, the same bits and the same
    counter. -/
def Bitmap.RoundTrips (aal : AalBits) (b : Bitmap) : Prop :=
  ∃ bytes b', reiser4BitmapPack aal b = some bytes ∧ reiser4BitmapUnpack aal bytes = some (some b') ∧
    b'.total = b.total ∧ (∀ i, b'.has aal i = b.has aal i) ∧ b'.marked = b.marked

theorem Bitmap.WF.roundTrips (h : b.WF aal) : b.RoundTrips aal := by
  have hlt := h.sized.total_lt
  have hclean := create_clean aal (show b.total + 7 < 34359738368 by
    have := h.sized.2
    have := h.sized.1
    unfold two32 at *
    omega)
  have hempty : ∀ i, (reiser4BitmapCreate b.total).has aal i = (decide (i < 0) && b.has aal i) := by
    intro i
    rw [decide_eq_false (Nat.not_lt_zero i), Bool.false_and]
    show (_ && aal.test Bytes.zero i) = false
    rw [BitOrder.test_zero, Bool.and_false]
  obtain ⟨runs, b', hpack, hwords, hlen, hrun, hwf, htot, hhas⟩ := @runsLoop_packLoop aal b h.sized
    (b.total + 2) 0 true (reiser4BitmapCreate b.total) (by omega) (by split <;> omega) hclean.wf rfl hempty
  refine ⟨auxBitmapMagic ++ bytesOf 8 b.total ++ runs.flatMap (bytesOf 8), b', ?_, ?_, htot, hhas, ?_⟩
  · unfold reiser4BitmapPack
    rw [hpack]
    rfl
  · have hmagic : auxBitmapMagic.length = 7 := rfl
    have hdrop : (auxBitmapMagic ++ bytesOf 8 b.total ++ runs.flatMap (bytesOf 8)).drop 7 =
        bytesOf 8 b.total ++ runs.flatMap (bytesOf 8) := by
      rw [List.append_assoc]
      exact List.drop_left' hmagic
    unfold reiser4BitmapUnpack
    rw [if_neg (by rw [List.append_assoc, List.length_append, hmagic]; omega),
      if_neg (by rw [List.append_assoc, List.take_left' hmagic]; exact not_not_intro rfl)]
    dsimp only
    rw [hdrop, if_neg (by rw [List.length_append, bytesOf_length]; omega), List.take_left' bytesOf_length,
      List.drop_left' bytesOf_length, numberOf_bytesOf (show b.total < 256 ^ 8 by omega)]
    have hsize : (runs.flatMap (bytesOf 8)).length = 8 * runs.length := by
      rw [List.length_flatMap]
      simp [Nat.mul_comm]
    rw [@unpackLoop_eq aal b.total _ (8 * runs.length) _ 0 true _ (by
      rw [List.length_append, bytesOf_length]
      omega) (Nat.le_of_eq hsize), streamWords_flatMap hwords (Nat.le_refl _)]
    exact hrun
  · rw [hwf.marked, h.marked]
    unfold Bitmap.count
    rw [htot]
    congr 1
    exact funext hhas

/-- A bitmap as `reiser4_bitmap_create` makes it for any 64-bit total, with any bits. -/
structure Bitmap.Created (aal : AalBits) (b : Bitmap) : Prop where
  total : b.total < two64
  size : b.size = u32 (u64 (b.total + 7) / 8)
  marked : b.marked = b.count aal

theorem Bitmap.Created.wf (h : b.Created aal) (hfits : (b.total + 7) / 8 < two32) : b.WF aal := by
  have hsum : u64 (b.total + 7) = b.total + 7 := Nat.mod_eq_of_lt (by unfold two32 at hfits; omega)
  have hsize := h.size
  rw [hsum, u32_of_lt hfits] at hsize
  exact ⟨⟨hsize, hsize ▸ hfits⟩, h.marked⟩

/-- The byte of the last bit is behind the map when the byte count does not fit. -/
theorem Bitmap.Created.last_outside (h : b.Created aal) (hlong : two32 ≤ (b.total + 7) / 8) :
    b.size ≤ (b.total - 1) / 8 := by
  have htotal := h.total
  rw [h.size]
  by_cases hwrap : b.total + 7 < two64
  · have hkeep : u64 (b.total + 7) = b.total + 7 := Nat.mod_eq_of_lt hwrap
    have hlt := u32_lt ((b.total + 7) / 8)
    rw [hkeep]
    omega
  · have hsmall : u64 (b.total + 7) < 8 := by
      unfold u64
      unfold two64 at *
      omega
    rw [Nat.div_eq_of_lt hsmall]
    exact Nat.zero_le _

/-- The writer looks at every bit, the last one too. -/
theorem packLoop_reads (htotal : b.total < two64) : ∀ {fuel count : Nat} {set : Bool} {runs : List Nat},
    count < b.total → packLoop aal b fuel count set = some runs → (b.total - 1) / 8 < b.size
  | 0, _, _, _, _, hrun => by cases hrun
  | fuel + 1, count, set, runs, hcount, hrun => by
    obtain ⟨find, hfind, hge⟩ : ∃ find : Bytes → Nat → Nat → Nat,
        (if set then reiser4BitmapFindCleared aal b count else reiser4BitmapFindMarked aal b count) =
          bitmapFind find b count ∧
        (find b.map b.total count < b.total → count ≤ find b.map b.total count) := by
      cases set with
      | true => exact ⟨aal.findNextZeroBit, rfl, fun hlt => (aal.findNextZeroBit_at _ _ _ hlt).1⟩
      | false => exact ⟨aal.findNextSetBit, rfl, fun hlt => (aal.findNextSetBit_at _ _ _ hlt).1⟩
    unfold packLoop at hrun
    rw [hfind] at hrun
    obtain ⟨i, hi, hrest⟩ := Option.bind_eq_some_iff.mp hrun
    unfold bitmapFind at hi
    rw [if_neg (Nat.not_le.mpr hcount)] at hi
    dsimp only at hi
    by_cases hend : b.total ≤ find b.map b.total count
    · -- no bit of the other kind: the search has come to the end
      rw [if_pos hend] at hi
      by_cases hmap : b.holds count (b.total - count)
      · rcases hmap with hzero | hlast
        · omega
        · rwa [show count + (b.total - count) - 1 = b.total - 1 by omega] at hlast
      · rw [if_neg hmap] at hi
        cases hi
    · rw [if_neg hend] at hi
      have hlt : find b.map b.total count < b.total := Nat.lt_of_not_le hend
      by_cases hmap : find b.map b.total count / 8 < b.size
      · rw [if_pos hmap] at hi
        obtain rfl := Option.some.inj hi
        have hvalid : find b.map b.total count ≠ invalBlk := by
          unfold invalBlk
          unfold two64 at htotal
          omega
        rw [if_neg hvalid] at hrest
        obtain ⟨more, hmore, -⟩ := Option.map_eq_some_iff.mp hrest
        have hle := hge hlt
        exact packLoop_reads htotal (by omega) hmore
      · rw [if_neg hmap] at hi
        cases hi

/-- **Pack and unpack** give a bitmap back exactly where its byte count fits the 32 bits it is kept in. -/
theorem bitmapRoundTrips_iff (aal : AalBits) (b : Bitmap) (h : b.Created aal) :
    b.RoundTrips aal ↔ (b.total + 7) / 8 < two32 := by
  constructor
  · rintro ⟨bytes, b', hpack, -⟩
    by_contra hlong
    have hout := h.last_outside (Nat.le_of_not_lt hlong)
    obtain ⟨runs, hrun, -⟩ := Option.map_eq_some_iff.mp hpack
    have hpos : 0 < b.total := by
      unfold two32 at hlong
      omega
    have hin := packLoop_reads h.total hpos hrun
    omega
  · intro hfits
    exact (h.wf hfits).roundTrips

theorem bitmapRoundTrips_sample : ∃ b, reiser4BitmapMarkRegion AalBits.plain (reiser4BitmapCreate 12) 3 5 = some b ∧
    b.total = 12 ∧ b.RoundTrips AalBits.plain := by
  have hwf := (create_clean AalBits.plain (show 12 + 7 < 34359738368 by decide)).wf
  obtain ⟨b, hb⟩ : ∃ b, reiser4BitmapMarkRegion AalBits.plain (reiser4BitmapCreate 12) 3 5 = some b :=
    region_some hwf.sized fun _ => by decide
  obtain ⟨hmarked, htotal, -⟩ := markRegion_spec hwf hb
  have hsize : b.size = 2 := by
    rw [hmarked.sized.1, htotal]
    rfl
  have hcreated : b.Created AalBits.plain :=
    ⟨by rw [htotal]; decide, by rw [htotal, hsize]; decide, hmarked.marked⟩
  exact ⟨b, hb, htotal, (bitmapRoundTrips_iff AalBits.plain b hcreated).mpr (by rw [htotal]; decide)⟩

/-- An empty bitmap of 2^35 blocks has no byte at all. -/
theorem bitmapRoundTrips_long : ¬ (reiser4BitmapCreate 34359738368).RoundTrips AalBits.plain := by
  rintro ⟨bytes, b', hpack, -⟩
  obtain ⟨runs, hrun, -⟩ := Option.map_eq_some_iff.mp hpack
  have hin := @packLoop_reads AalBits.plain (reiser4BitmapCreate 34359738368) (by decide) _ _ _ _
    (by decide : 0 < 34359738368) hrun
  exact absurd hin (by decide)

end RoundTrip

/-! ## Any stream -/

section AnyStream

variable {aal : AalBits} {b b' : Bitmap} {total : Nat}

/-- Bit `i` is in a set run, the first of the runs beginning at `bit` and being set or not. -/
def inSetRun : List Nat → Nat → Bool → Nat → Bool
  | [], _, _, _ => false
  | n :: runs, bit, set, i => (set && decide (bit ≤ i ∧ i < bit + n)) || inSetRun runs (bit + n) (!set) i

/-- The sums of the runs, in 64 bits, are not beyond the total, and the last is the total. -/
def Passes (total : Nat) : List Nat → Nat → Prop
  | [], bit => bit = total
  | n :: runs, bit => u64 (bit + n) ≤ total ∧ Passes total runs (u64 (bit + n))

/-- A set run that is got to, and that the bound checks let through, is in the map. -/
def MarksInMap (total : Nat) : List Nat → Nat → Bool → Prop
  | [], _, _ => True
  | n :: runs, bit, set => u64 (bit + n) ≤ total →
      (set = true → (reiser4BitmapCreate total).bounded bit n → (reiser4BitmapCreate total).holds bit n) ∧
        MarksInMap total runs (u64 (bit + n)) (!set)

/-- **The reader rejects what is not a bitmap**: it never leaves the map, and where it answers a bitmap the
    lengths of the runs add up to the total, and the bits are those of the set runs. -/
def UnpackSound (aal : AalBits) (stream : List UInt8) : Prop :=
  reiser4BitmapUnpack aal stream ≠ none ∧
    ∀ b, reiser4BitmapUnpack aal stream = some (some b) →
      (streamRuns stream).sum = streamTotal stream ∧ b.total = streamTotal stream ∧
        ∀ i, aal.test b.map i = inSetRun (streamRuns stream) 0 true i

/-- The magic and the total are in the stream. -/
def Headed (stream : List UInt8) : Prop := 15 ≤ stream.length ∧ stream.take 7 = auxBitmapMagic

theorem calcLoop_some {marked : Bool} : ∀ {n i : Nat},
    (∀ j, i ≤ j → j < i + n → j < b.total → j / 8 < b.size) → ∃ v, calcLoop aal b marked n i = some v
  | 0, _, _ => ⟨0, rfl⟩
  | n + 1, i, h => by
    obtain ⟨v, hv⟩ := @calcLoop_some marked n (i + 1) fun j h1 h2 => h j (by omega) (by omega)
    have htest : ∃ t, reiser4BitmapTest aal b i = some t := by
      unfold reiser4BitmapTest
      by_cases hi : b.total ≤ i
      · exact ⟨false, if_pos hi⟩
      · rw [if_neg hi, if_pos (h i (Nat.le_refl _) (by omega) (by omega))]
        exact ⟨_, rfl⟩
    obtain ⟨t, ht⟩ := htest
    exact ⟨v + if t = marked then 1 else 0, by rw [calcLoop, ht, hv]; rfl⟩

/-- `reiser4_bitmap_mark_region` is defined unless the bound checks let a region through that is not in the
    map. -/
theorem markRegion_some_iff {start count : Nat} (hstart : start < two64) (hcount : count < two64) :
    (∃ b', reiser4BitmapMarkRegion aal b start count = some b') ↔
      (b.bounded start count → b.holds start count) := by
  unfold reiser4BitmapMarkRegion
  by_cases hb : b.bounded start count
  · rw [if_pos hb]
    constructor
    · rintro ⟨b', h⟩ -
      by_contra hm
      cases hcalc : reiser4BitmapCalc aal b start count false with
      | none => rw [hcalc] at h; cases h
      | some num =>
        rw [hcalc] at h
        exact absurd ((if_neg hm).symm.trans h) (by rintro ⟨⟩)
    · intro h
      have hm := h hb
      obtain ⟨num, hnum⟩ : ∃ num, reiser4BitmapCalc aal b start count false = some num := by
        refine calcLoop_some fun j h1 h2 _ => ?_
        unfold u64 at h2
        unfold two64 at hstart hcount
        rcases hm with h0 | hm
        · omega
        · have : j / 8 ≤ (start + count - 1) / 8 := Nat.div_le_div_right (by omega)
          omega
      rw [hnum]
      exact ⟨_, if_pos hm⟩
  · rw [if_neg hb]
    exact ⟨fun _ h => absurd h hb, fun _ => ⟨b, rfl⟩⟩

/-- A region that does not wrap and is not beyond the total is set. -/
theorem markRegion_test {start count : Nat} (hr : reiser4BitmapMarkRegion aal b start count = some b')
    (hle : start + count ≤ b.total) (htotal : b.total < two64) (i : Nat) :
    aal.test b'.map i = (decide (start ≤ i ∧ i < start + count) || aal.test b.map i) := by
  unfold reiser4BitmapMarkRegion at hr
  by_cases hb : b.bounded start count
  · rw [if_pos hb] at hr
    cases hcalc : reiser4BitmapCalc aal b start count false with
    | none => rw [hcalc] at hr; cases hr
    | some num =>
      rw [hcalc] at hr
      by_cases hm : b.holds start count
      · obtain rfl := Option.some.inj ((if_pos hm).symm.trans hr)
        exact aal.test_setBits _ _ _ _
      · exact absurd ((if_neg hm).symm.trans hr) (by rintro ⟨⟩)
  · rw [if_neg hb] at hr
    obtain rfl := Option.some.inj hr
    have h0 : count = 0 := by
      by_contra hne
      refine hb ⟨by omega, ?_⟩
      unfold u64 invalBlk
      unfold two64 at htotal
      omega
    rw [decide_eq_false (by omega), Bool.false_or]

/-- The reader does not leave the map, when the set runs are in it. -/
theorem runsLoop_ne_none : ∀ {runs : List Nat} {bit : Nat} {set : Bool} {b : Bitmap}, (∀ n ∈ runs, n < two64) →
    bit < two64 → b.total = total → b.size = (reiser4BitmapCreate total).size →
    (runsLoop aal total runs bit set b ≠ none ↔ MarksInMap total runs bit set)
  | [], bit, _, b, _, _, _, _ => by
    unfold runsLoop
    exact ⟨fun _ => trivial, fun _ => Option.some_ne_none _⟩
  | n :: runs, bit, set, b, hruns, hbit, htotal, hsize => by
    have hword : ∀ m ∈ runs, m < two64 := fun m hm => hruns m (List.mem_cons_of_mem _ hm)
    have hnext : u64 (bit + n) < two64 := Nat.mod_lt _ (by decide)
    unfold runsLoop MarksInMap
    by_cases hbig : total < u64 (bit + n)
    · rw [if_pos hbig]
      exact ⟨fun _ h => absurd h (by omega), fun _ => Option.some_ne_none _⟩
    rw [if_neg hbig]
    have hle : u64 (bit + n) ≤ total := Nat.le_of_not_lt hbig
    cases set with
    | true =>
      have hbound : b.bounded bit n ↔ (reiser4BitmapCreate total).bounded bit n := by
        unfold Bitmap.bounded
        rw [htotal]
        exact Iff.rfl
      have hhold : b.holds bit n ↔ (reiser4BitmapCreate total).holds bit n := by
        unfold Bitmap.holds
        rw [hsize]
      have hsome := @markRegion_some_iff aal b bit n hbit (hruns n List.mem_cons_self)
      rw [hbound, hhold] at hsome
      rw [if_pos rfl]
      cases hmark : reiser4BitmapMarkRegion aal b bit n with
      | none =>
        rw [hmark] at hsome
        constructor
        · exact fun h => absurd rfl h
        · intro h
          obtain ⟨b', hb'⟩ := hsome.mpr ((h hle).1 rfl)
          cases hb'
      | some b1 =>
        obtain ⟨htot, hsz⟩ := markRegion_size hmark
        have ih := @runsLoop_ne_none runs (u64 (bit + n)) false b1 hword hnext (htot.trans htotal)
          (hsz.trans hsize)
        constructor
        · exact fun h _ => ⟨fun _ => hsome.mp ⟨b1, hmark⟩, ih.mp h⟩
        · exact fun h => ih.mpr (h hle).2
    | false =>
      have ih := @runsLoop_ne_none runs (u64 (bit + n)) true b hword hnext htotal hsize
      rw [if_neg Bool.false_ne_true]
      constructor
      · exact fun h _ => ⟨fun hset => absurd hset Bool.false_ne_true, ih.mp h⟩
      · exact fun h => ih.mpr (h hle).2

/-- A bitmap is the answer exactly when the sums pass. -/
theorem runsLoop_passes : ∀ {runs : List Nat} {bit : Nat} {set : Bool} {b : Bitmap},
    runsLoop aal total runs bit set b ≠ none →
    ((∃ b', runsLoop aal total runs bit set b = some (some b')) ↔ Passes total runs bit)
  | [], bit, _, b, _ => by
    unfold runsLoop Passes
    by_cases h : bit = total
    · rw [if_pos h]
      exact ⟨fun _ => h, fun _ => ⟨b, rfl⟩⟩
    · rw [if_neg h]
      constructor
      · rintro ⟨b', hb'⟩
        cases hb'
      · exact fun h' => absurd h' h
  | n :: runs, bit, set, b, hne => by
    unfold runsLoop at hne ⊢
    unfold Passes
    by_cases hbig : total < u64 (bit + n)
    · rw [if_pos hbig]
      constructor
      · rintro ⟨b', hb'⟩
        cases hb'
      · exact fun h => absurd h.1 (by omega)
    rw [if_neg hbig] at hne ⊢
    cases hstep : (if set = true then reiser4BitmapMarkRegion aal b bit n else some b) with
    | none =>
      rw [hstep] at hne
      exact absurd rfl hne
    | some b1 =>
      rw [hstep] at hne
      have ih := @runsLoop_passes runs (u64 (bit + n)) (!set) b1 hne
      exact ⟨fun h => ⟨Nat.le_of_not_lt hbig, ih.mp h⟩, fun h => ih.mpr h.2⟩

/-- The bits, when no sum wraps. -/
theorem runsLoop_test : ∀ {runs : List Nat} {bit : Nat} {set : Bool} {b b' : Bitmap}, b.total = total →
    bit + runs.sum < two64 → total < two64 → runsLoop aal total runs bit set b = some (some b') →
    bit + runs.sum = total ∧ b'.total = total ∧
      ∀ i, aal.test b'.map i = (inSetRun runs bit set i || aal.test b.map i)
  | [], bit, _, b, b', htotal, _, _, hrun => by
    unfold runsLoop at hrun
    by_cases h : bit = total
    · rw [if_pos h] at hrun
      obtain rfl := Option.some.inj (Option.some.inj hrun)
      exact ⟨h, htotal, fun i => (Bool.false_or _).symm⟩
    · rw [if_neg h] at hrun
      cases hrun
  | n :: runs, bit, set, b, b', htotal, hsum, hlt, hrun => by
    rw [List.sum_cons] at hsum ⊢
    have hwrap : u64 (bit + n) = bit + n := Nat.mod_eq_of_lt (by unfold two64 at hsum; omega)
    unfold runsLoop at hrun
    by_cases hbig : total < u64 (bit + n)
    · rw [if_pos hbig] at hrun
      cases hrun
    rw [if_neg hbig, hwrap] at hrun
    rw [hwrap] at hbig
    cases hstep : (if set = true then reiser4BitmapMarkRegion aal b bit n else some b) with
    | none =>
      rw [hstep] at hrun
      cases hrun
    | some b1 =>
      rw [hstep] at hrun
      have htot1 : b1.total = total := by
        cases set with
        | true => exact (markRegion_size hstep).1.trans htotal
        | false =>
          obtain rfl := Option.some.inj hstep
          exact htotal
      obtain ⟨hend, htot, htest⟩ := runsLoop_test htot1 (by omega) hlt hrun
      refine ⟨by omega, htot, fun i => ?_⟩
      rw [htest]
      cases set with
      | true =>
        rw [markRegion_test hstep (by omega) (by omega), inSetRun, Bool.true_and, Bool.or_left_comm,
          Bool.or_assoc]
      | false =>
        obtain rfl := Option.some.inj hstep
        rw [inSetRun, Bool.false_and, Bool.false_or]

theorem bitmapUnpack_headed {stream : List UInt8} (h : Headed stream) : reiser4BitmapUnpack aal stream =
    runsLoop aal (streamTotal stream) (streamRuns stream) 0 true
      (reiser4BitmapCreate (streamTotal stream)) := by
  have hlen := h.1
  unfold reiser4BitmapUnpack
  rw [if_neg (by omega), if_neg (not_not_intro h.2)]
  dsimp only
  rw [if_neg (by rw [List.length_drop]; omega), List.drop_drop]
  exact unpackLoop_eq (by rw [List.length_drop, List.length_drop]; omega) (by rw [List.length_drop]; omega)

/-- **Malformed streams**: the reader rejects them exactly when every set run that it gets to is in the map if
    it passes the bound checks, and runs whose sums pass in 64 bits add up to less than `2 ^ 64`. -/
theorem bitmapUnpack_iff (aal : AalBits) (stream : List UInt8) : UnpackSound aal stream ↔
    (Headed stream → MarksInMap (streamTotal stream) (streamRuns stream) 0 true ∧
      (Passes (streamTotal stream) (streamRuns stream) 0 → (streamRuns stream).sum < two64)) := by
  have htotal : streamTotal stream < two64 := numberOf_lt
  have hruns : ∀ n ∈ streamRuns stream, n < two64 := streamWords_lt
  by_cases hhead : Headed stream
  · have hloop := @bitmapUnpack_headed aal stream hhead
    have hmap := @runsLoop_ne_none aal (streamTotal stream) (streamRuns stream) 0 true
      (reiser4BitmapCreate (streamTotal stream)) hruns (by decide) rfl rfl
    constructor
    · rintro ⟨hne, hsound⟩ -
      rw [hloop] at hne
      refine ⟨hmap.mp hne, fun hpass => ?_⟩
      obtain ⟨b', hb'⟩ := (runsLoop_passes hne).mpr hpass
      rw [(hsound b' (hloop.trans hb')).1]
      exact htotal
    · intro hcond
      obtain ⟨hmarks, hsum⟩ := hcond hhead
      have hne := hmap.mpr hmarks
      refine ⟨by rw [hloop]; exact hne, fun b' hb' => ?_⟩
      rw [hloop] at hb'
      have hlt := hsum ((runsLoop_passes hne).mp ⟨b', hb'⟩)
      obtain ⟨hend, htot, htest⟩ := @runsLoop_test aal (streamTotal stream) (streamRuns stream) 0 true _ b' rfl
        (by rw [Nat.zero_add]; exact hlt) htotal hb'
      rw [Nat.zero_add] at hend
      refine ⟨hend, htot, fun i => ?_⟩
      rw [htest]
      show (_ || aal.test Bytes.zero i) = _
      rw [BitOrder.test_zero, Bool.or_false]
  · have hnull : reiser4BitmapUnpack aal stream = some none := by
      unfold reiser4BitmapUnpack
      by_cases h7 : stream.length < 7
      · rw [if_pos h7]
      · rw [if_neg h7]
        by_cases hmagic : stream.take 7 = auxBitmapMagic
        · rw [if_neg (not_not_intro hmagic)]
          dsimp only
          rw [if_pos]
          rw [List.length_drop]
          by_contra hlt
          exact hhead ⟨by omega, hmagic⟩
        · rw [if_pos hmagic]
    constructor
    · exact fun _ h => absurd h hhead
    · intro _
      rw [UnpackSound, hnull]
      exact ⟨Option.some_ne_none _, fun b hb => by cases hb⟩

/-- Four bits; a clear run of `2 ^ 64 - 1` bits takes the reader from bit 2 back to bit 1. -/
def wrappedStream : List UInt8 :=
  auxBitmapMagic ++ bytesOf 8 4 ++ [2, 18446744073709551615, 3].flatMap (bytesOf 8)

theorem bitmapUnpack_wraps : ¬ UnpackSound AalBits.plain wrappedStream := by
  rintro ⟨-, hsound⟩
  have hrun : (reiser4BitmapUnpack AalBits.plain wrappedStream).map (Option.map Bitmap.total) =
      some (some 4) := by decide +kernel
  obtain ⟨o, ho, hsome⟩ := Option.map_eq_some_iff.mp hrun
  obtain ⟨b, rfl, -⟩ := Option.map_eq_some_iff.mp hsome
  have hsum := (hsound b ho).1
  revert hsum
  decide +kernel

end AnyStream

end Reiser4
