/-
  Binary search over an abstract array (`aux_bin_search`).

  The array is only seen through the comparison callback: `comp i` is `-1`, `0` or `1` when the
  element at `i` is before, at or after the wanted one.  The loop keeps `left ≤ right + 1`; `right`
  is a signed number in the code and goes to `-1` when the wanted element is before all others.

  `binLoop_spec` carries the two loop invariants (everything below `left` is before the needle,
  everything above `right` is after it); `auxBinSearch_found` and `auxBinSearch_absent` are its
  instances for the whole array.  With equal elements the search may stop at any one of them.

  The code counts in 32 bits: `count` is unsigned, `left` and `right` are signed, and so is their
  sum.  `auxBinSearch32` is the search as the machine does it, with the positions it asks for;
  `auxBinSearch32_iff` says up to which length it is the search above.
-/
import Mathlib

namespace Reiser4

/-- The halving loop of `aux_bin_search`: found or not, and the position it stores. -/
def binLoop (comp : Nat → Int) (left : Nat) (right : Int) : Bool × Nat :=
  if (left : Int) ≤ right then
    let i := ((left + right) / 2).toNat
    if comp i = -1 then binLoop comp (i + 1) right
    else if comp i = 1 then binLoop comp left ((i : Int) - 1)
    else (true, i)
  else (false, left)
termination_by (right + 1 - left).toNat
decreasing_by all_goals omega

/-- `aux_bin_search` over `count` elements. -/
def auxBinSearch (count : Nat) (comp : Nat → Int) : Bool × Nat :=
  if count = 0 then (false, 0) else binLoop comp 0 ((count : Int) - 1)

/-- A comparison with a fixed needle along an ordered array of `count` elements. -/
structure CompMono (count : Nat) (comp : Nat → Int) : Prop where
  range : ∀ i, comp i = -1 ∨ comp i = 0 ∨ comp i = 1
  mono : ∀ i j, i ≤ j → j < count → comp i ≤ comp j

/-- The loop keeps: below `left` everything is before the needle, above `right` after it. -/
theorem binLoop_spec (count : Nat) (comp : Nat → Int) (hc : CompMono count comp) :
    ∀ (left : Nat) (right : Int), right < count → (left : Int) ≤ right + 1 →
      (∀ i, i < left → comp i = -1) →
      (∀ i : Nat, right < i → i < count → comp i = 1) →
      ((binLoop comp left right).1 = true →
        (binLoop comp left right).2 < count ∧ comp (binLoop comp left right).2 = 0) ∧
      ((binLoop comp left right).1 = false →
        (binLoop comp left right).2 ≤ count ∧
        (∀ i, i < (binLoop comp left right).2 → comp i = -1) ∧
        (∀ i, (binLoop comp left right).2 ≤ i → i < count → comp i = 1)) := by
  intro left right
  induction left, right using binLoop.induct comp with
  | case1 left right hle i hres ih =>
    -- the middle element is before the needle: go on to its right
    intro hr hlr hlo hhi
    have hi : i = ((left + right) / 2).toNat := rfl
    rw [binLoop, if_pos hle]
    simp only [← hi, if_pos hres]
    refine ih hr (by omega) ?_ hhi
    intro j hj
    rcases hc.range j with h | h | h
    · exact h
    all_goals
      have := hc.mono j i (by omega) (by omega)
      omega
  | case2 left right hle i hres hres1 ih =>
    -- the middle element is after the needle: go on to its left
    intro hr hlr hlo hhi
    have hi : i = ((left + right) / 2).toNat := rfl
    rw [binLoop, if_pos hle]
    simp only [← hi, if_neg hres, if_pos hres1]
    refine ih (by omega) (by omega) hlo ?_
    intro j hj hjc
    rcases hc.range j with h | h | h
    · have := hc.mono i j (by omega) hjc
      omega
    · have := hc.mono i j (by omega) hjc
      omega
    · exact h
  | case3 left right hle i hres hres1 =>
    intro hr hlr _ _
    have hi : i = ((left + right) / 2).toNat := rfl
    have h0 : comp i = 0 := by
      rcases hc.range i with h | h | h
      · exact absurd h hres
      · exact h
      · exact absurd h hres1
    rw [binLoop, if_pos hle]
    simp only [← hi, if_neg hres, if_neg hres1]
    exact ⟨fun _ => ⟨by omega, h0⟩, fun h => by simp at h⟩
  | case4 left right hle =>
    -- the interval is empty, `left` splits the array
    intro hr hlr hlo hhi
    rw [binLoop, if_neg hle]
    refine ⟨fun h => by simp at h, fun _ => ⟨by omega, hlo, ?_⟩⟩
    intro i hi hic
    exact hhi i (by simp only at hi; omega) hic

/-- A hit is a position of the array whose element compares equal. -/
theorem auxBinSearch_found {count : Nat} {comp : Nat → Int} (hc : CompMono count comp)
    (h : (auxBinSearch count comp).1 = true) :
    (auxBinSearch count comp).2 < count ∧ comp (auxBinSearch count comp).2 = 0 := by
  unfold auxBinSearch at h ⊢
  by_cases h0 : count = 0
  · rw [if_pos h0] at h
    simp at h
  · rw [if_neg h0] at h ⊢
    exact (binLoop_spec count comp hc 0 _ (by omega) (by omega)
      (fun i hi => absurd hi (Nat.not_lt_zero i)) (fun i hi hic => by omega)).1 h

/-- A miss splits the array: everything before the position is before the needle, the rest after. -/
theorem auxBinSearch_absent {count : Nat} {comp : Nat → Int} (hc : CompMono count comp)
    (h : (auxBinSearch count comp).1 = false) :
    (auxBinSearch count comp).2 ≤ count ∧
      (∀ i, i < (auxBinSearch count comp).2 → comp i = -1) ∧
      (∀ i, (auxBinSearch count comp).2 ≤ i → i < count → comp i = 1) := by
  unfold auxBinSearch at h ⊢
  by_cases h0 : count = 0
  · rw [if_pos h0]
    exact ⟨Nat.zero_le _, fun i hi => absurd hi (Nat.not_lt_zero i), fun i _ hi => by omega⟩
  · rw [if_neg h0] at h ⊢
    exact (binLoop_spec count comp hc 0 _ (by omega) (by omega)
      (fun i hi => absurd hi (Nat.not_lt_zero i)) (fun i hi hic => by omega)).2 h

/-- With five elements 10, 20, 20, 30, 40 a search for 20 stops at position 2. -/
example : auxBinSearch 5 (fun i =>
    let x := [10, 20, 20, 30, 40].getD i 0
    if x < 20 then -1 else if x = 20 then 0 else 1) = (true, 2) := by decide +kernel

/-! ## In 32 bits -/

/-- The value of an `int`, for a number that was computed. -/
def toInt (n : Int) : Int := (n + 2 ^ 31) % 2 ^ 32 - 2 ^ 31

/-- The value of a `uint32_t`. -/
def toUint32 (n : Int) : Nat := (n % 2 ^ 32).toNat

theorem toInt_of_range {n : Int} (h1 : -2 ^ 31 ≤ n) (h2 : n < 2 ^ 31) : toInt n = n := by
  unfold toInt
  omega

theorem toUint32_of_range {n : Int} (h1 : 0 ≤ n) (h2 : n < 2 ^ 32) : (toUint32 n : Int) = n := by
  unfold toUint32
  omega

/-- What a search has done: the positions it asked for, and its answer. -/
structure Searched where
  asked : List Nat
  found : Bool
  pos : Nat
  deriving DecidableEq, Repr

/-- The loop of `aux_bin_search`, with the positions asked for so far.  No result is a loop that
    goes on. -/
def binLoop32 (comp : Nat → Int) : Nat → Int → Int → List Nat → Option Searched
  | 0, _, _, _ => none
  | fuel + 1, left, right, asked =>
    let i := (toInt (right + left)).tdiv 2
    if left ≤ right then
      let res := comp (toUint32 i)
      let asked := asked ++ [toUint32 i]
      if res = -1 then binLoop32 comp fuel (toInt (i + 1)) right asked
      else if res = 1 then binLoop32 comp fuel left (toInt (i - 1)) asked
      else some ⟨asked, true, toUint32 i⟩
    else some ⟨asked, false, toUint32 left⟩

/-- `aux_bin_search`; `right` takes the value of an unsigned number. -/
def auxBinSearch32 (fuel : Nat) (count : UInt32) (comp : Nat → Int) : Option Searched :=
  if count = 0 then some ⟨[], false, 0⟩ else binLoop32 comp fuel 0 (toInt (count.toNat - 1)) []

/-- **The contract of the search** for arrays of a length, whatever is compared: it ends, asks for
    positions of the array only, finds an element that compares equal when there is one, and gives
    the number of the smaller ones otherwise. -/
def SearchContract (count : UInt32) : Prop :=
  ∀ comp, CompMono count.toNat comp → ∃ bound r,
    (∀ fuel, bound ≤ fuel → auxBinSearch32 fuel count comp = some r) ∧
    (∀ i ∈ r.asked, i < count.toNat) ∧
    (r.found = true ↔ ∃ i < count.toNat, comp i = 0) ∧
    (r.found = true → r.pos < count.toNat ∧ comp r.pos = 0) ∧
    (r.found = false → r.pos = (List.range count.toNat).countP fun i => decide (comp i = -1))

/-- While the sum of the bounds fits an `int`, the middle is the one of the loop above. -/
theorem middle_eq {left i : Nat} {right : Int} (hle : (left : Int) ≤ right) (hsum : right + left < 2 ^ 31)
    (hi : i = ((left + right) / 2).toNat) : (toInt (right + left)).tdiv 2 = i ∧ toUint32 (i : Int) = i := by
  constructor
  · rw [toInt_of_range (by omega) hsum, Int.tdiv_eq_ediv_of_nonneg (by omega)]
    omega
  · have := @toUint32_of_range i (by omega) (by omega)
    omega

/-- In a short array the loop is the one above, and asks for positions of the array only. -/
theorem binLoop32_eq {comp : Nat → Int} {count : Nat} (hcount : count ≤ 2 ^ 30) :
    ∀ (left : Nat) (right : Int), right < count → (left : Int) ≤ right + 1 →
      ∃ more, (∀ i ∈ more, i < count) ∧ ∀ fuel asked, (right + 1 - left).toNat < fuel →
        binLoop32 comp fuel left right asked =
          some ⟨asked ++ more, (binLoop comp left right).1, (binLoop comp left right).2⟩ := by
  intro left right
  induction left, right using binLoop.induct comp with
  | case1 left right hle i hres ih =>
    intro hr hlr
    have hi : i = ((left + right) / 2).toNat := rfl
    obtain ⟨hmid, hpos⟩ := middle_eq hle (by omega) hi
    obtain ⟨more, hmore, hrun⟩ := ih hr (by omega)
    refine ⟨i :: more, ?_, ?_⟩
    · intro j hj
      rcases List.mem_cons.mp hj with rfl | hj
      · omega
      · exact hmore j hj
    · intro fuel asked hfuel
      rcases fuel with _ | fuel
      · omega
      have hnext := hrun fuel (asked ++ [i]) (by omega)
      rw [binLoop32, hmid, if_pos hle, hpos, if_pos hres, toInt_of_range (by omega) (by omega), binLoop, if_pos hle]
      simp only [← hi, if_pos hres]
      rw [show (i : Int) + 1 = ((i + 1 : Nat) : Int) by omega, hnext, List.append_assoc]
      rfl
  | case2 left right hle i hres hres1 ih =>
    intro hr hlr
    have hi : i = ((left + right) / 2).toNat := rfl
    obtain ⟨hmid, hpos⟩ := middle_eq hle (by omega) hi
    obtain ⟨more, hmore, hrun⟩ := ih (by omega) (by omega)
    refine ⟨i :: more, ?_, ?_⟩
    · intro j hj
      rcases List.mem_cons.mp hj with rfl | hj
      · omega
      · exact hmore j hj
    · intro fuel asked hfuel
      rcases fuel with _ | fuel
      · omega
      have hnext := hrun fuel (asked ++ [i]) (by omega)
      rw [binLoop32, hmid, if_pos hle, hpos, if_neg hres, if_pos hres1, toInt_of_range (by omega) (by omega), binLoop,
        if_pos hle]
      simp only [← hi, if_neg hres, if_pos hres1]
      rw [hnext, List.append_assoc]
      rfl
  | case3 left right hle i hres hres1 =>
    intro hr hlr
    have hi : i = ((left + right) / 2).toNat := rfl
    obtain ⟨hmid, hpos⟩ := middle_eq hle (by omega) hi
    refine ⟨[i], ?_, ?_⟩
    · intro j hj
      rw [List.mem_singleton.mp hj]
      omega
    · intro fuel asked hfuel
      rcases fuel with _ | fuel
      · omega
      rw [binLoop32, hmid, if_pos hle, hpos, if_neg hres, if_neg hres1, binLoop, if_pos hle]
      simp only [← hi, if_neg hres, if_neg hres1]
  | case4 left right hle =>
    intro hr hlr
    have hpos : toUint32 (left : Int) = left := by
      have := @toUint32_of_range left (by omega) (by omega)
      omega
    refine ⟨[], fun j hj => absurd hj List.not_mem_nil, ?_⟩
    intro fuel asked hfuel
    rcases fuel with _ | fuel
    · omega
    rw [binLoop32, if_neg hle, hpos, binLoop, if_neg hle, List.append_nil]

/-- The position that splits the array into smaller and larger elements is the number of smaller ones. -/
theorem smaller_count {comp : Nat → Int} {count pos : Nat} (hle : pos ≤ count)
    (hlo : ∀ i, i < pos → comp i = -1) (hhi : ∀ i, pos ≤ i → i < count → comp i = 1) :
    (List.range count).countP (fun i => decide (comp i = -1)) = pos := by
  induction count with
  | zero =>
    rw [List.range_zero, List.countP_nil]
    omega
  | succ count ih =>
    rw [List.range_succ, List.countP_append, List.countP_singleton]
    rcases Nat.lt_or_eq_of_le hle with hlt | rfl
    · have hlast : comp count = 1 := hhi count (by omega) (Nat.lt_succ_self count)
      rw [ih (by omega) (fun i h1 h2 => hhi i h1 (by omega)), hlast]
      rfl
    · have hlast : comp count = -1 := hlo count (Nat.lt_succ_self count)
      have hall : (List.range count).countP (fun i => decide (comp i = -1)) = count := by
        rw [List.countP_eq_length.mpr, List.length_range]
        intro i hi
        have := List.mem_range.mp hi
        exact decide_eq_true (hlo i (by omega))
      rw [hall, hlast]
      rfl

/-- With everything in the array smaller, the left bound goes up until the sum of the bounds is
    negative; then the search asks behind the array. -/
theorem binLoop32_overflow {comp : Nat → Int} {count : Nat} (hcount : 2 ^ 30 < count) (hmax : count ≤ 2 ^ 31)
    (hin : ∀ i, i < count → comp i = -1) (hout : ∀ i, count ≤ i → comp i = 0) :
    ∀ (fuel left : Nat) (asked : List Nat), left < count → (count - left : Nat) < fuel →
      ∃ asked' pos, binLoop32 comp fuel left ((count : Int) - 1) asked = some ⟨asked', true, pos⟩
  | 0, _, _, _, h => absurd h (Nat.not_lt_zero _)
  | fuel + 1, left, asked, hleft, hfuel => by
    have hle : (left : Int) ≤ (count : Int) - 1 := by omega
    rw [binLoop32, if_pos hle]
    by_cases hsum : (count : Int) - 1 + left < 2 ^ 31
    · obtain ⟨i, hi⟩ : ∃ i : Nat, i = ((left + ((count : Int) - 1)) / 2).toNat := ⟨_, rfl⟩
      obtain ⟨hmid, hpos⟩ := middle_eq hle hsum hi
      rw [hmid, hpos, if_pos (hin i (by omega)), toInt_of_range (by omega) (by omega),
        show (i : Int) + 1 = ((i + 1 : Nat) : Int) by omega]
      exact binLoop32_overflow hcount hmax hin hout fuel (i + 1) _ (by omega) (by omega)
    · have hneg : count ≤ toUint32 ((toInt ((count : Int) - 1 + left)).tdiv 2) := by
        have hval : toInt ((count : Int) - 1 + left) = (count : Int) - 1 + left - 2 ^ 32 := by
          unfold toInt
          omega
        rw [hval, Int.tdiv_eq_ediv, toUint32]
        simp only [show Int.sign 2 = 1 from rfl]
        split <;> omega
      have hzero := hout _ hneg
      rw [if_neg (by rw [hzero]; decide), if_neg (by rw [hzero]; decide)]
      exact ⟨_, _, rfl⟩

/-- The contract is not kept for longer arrays. -/
theorem SearchContract.small {count : UInt32} (hcontract : SearchContract count) : count.toNat ≤ 2 ^ 30 := by
  have hlt : count.toNat < 2 ^ 32 := count.toNat_lt
  have hne : 0 < count.toNat → ¬ count = 0 := by
    rintro h rfl
    exact absurd h (by decide)
  by_contra hbig
  by_cases hmax : count.toNat ≤ 2 ^ 31
  · -- everything smaller than the needle
    obtain ⟨bound, r, hrun, -, hfound, -⟩ := hcontract (fun i => if i < count.toNat then -1 else 0)
      ⟨fun i => by by_cases h : i < count.toNat <;> simp [h], fun i j h1 h2 =>
        Int.le_of_eq ((if_pos (by omega)).trans (if_pos h2).symm)⟩
    have hend := hrun (bound + 2 ^ 32) (by omega)
    rw [auxBinSearch32, if_neg (hne (by omega)), toInt_of_range (by omega) (by omega)] at hend
    obtain ⟨asked, pos, hloop⟩ := binLoop32_overflow (by omega) hmax (fun i h => if_pos h)
      (fun i h => if_neg (by omega)) (bound + 2 ^ 32) 0 [] (by omega) (by omega)
    have hr := Option.some.inj (hend.symm.trans hloop)
    obtain ⟨i, hi, hcomp⟩ := hfound.mp (by rw [hr])
    rw [if_pos hi] at hcomp
    exact absurd hcomp (by decide)
  · -- the right bound is negative, and nothing is compared
    obtain ⟨bound, r, hrun, -, hfound, -⟩ := hcontract (fun _ => 0)
      ⟨fun _ => Or.inr (Or.inl rfl), fun _ _ _ _ => Int.le_refl 0⟩
    have hend := hrun (bound + 1) (Nat.le_succ bound)
    have hneg : ¬ (0 : Int) ≤ toInt (count.toNat - 1) := by
      unfold toInt
      omega
    rw [auxBinSearch32, if_neg (hne (by omega)), binLoop32, if_neg hneg] at hend
    have hr : r.found = true := hfound.mpr ⟨0, by omega, rfl⟩
    rw [← Option.some.inj hend] at hr
    exact absurd hr (by decide)

/-- **The search in 32 bits** keeps its contract exactly for arrays of no more than 2^30 elements. -/
theorem auxBinSearch32_iff (count : UInt32) : SearchContract count ↔ count.toNat ≤ 2 ^ 30 := by
  constructor
  · exact SearchContract.small
  · intro hsmall comp hc
    have hfound := auxBinSearch_found hc
    have habsent := auxBinSearch_absent hc
    have hrun : ∃ asked, (∀ i ∈ asked, i < count.toNat) ∧ ∀ fuel, count.toNat + 1 ≤ fuel →
        auxBinSearch32 fuel count comp = some ⟨asked, (auxBinSearch count.toNat comp).1, (auxBinSearch count.toNat comp).2⟩ := by
      by_cases h0 : count = 0
      · subst h0
        exact ⟨[], fun i hi => absurd hi List.not_mem_nil, fun _ _ => rfl⟩
      · have hpos : count.toNat ≠ 0 := fun h => h0 (UInt32.toNat_inj.mp h)
        obtain ⟨more, hin, hloop⟩ := @binLoop32_eq comp _ hsmall 0 ((count.toNat : Int) - 1) (by omega) (by omega)
        refine ⟨more, hin, fun fuel hfuel => ?_⟩
        rw [auxBinSearch32, if_neg h0, toInt_of_range (by omega) (by omega), auxBinSearch, if_neg hpos]
        exact hloop fuel [] (by omega)
    obtain ⟨asked, hin, hend⟩ := hrun
    refine ⟨count.toNat + 1, _, hend, hin, ⟨fun h => ⟨_, hfound h⟩, ?_⟩, hfound, ?_⟩
    · rintro ⟨i, hi, hzero⟩
      by_contra hno
      obtain ⟨-, hlo, hhi⟩ := habsent (by simpa using hno)
      rcases Nat.lt_or_ge i (auxBinSearch count.toNat comp).2 with h | h
      · have := hlo i h
        omega
      · have := hhi i h hi
        omega
    · intro h
      obtain ⟨hle, hlo, hhi⟩ := habsent h
      exact (smaller_count hle hlo hhi).symm

/-- With one element more the sum of the bounds is too large for an `int`. -/
theorem auxBinSearch32_long : ¬ SearchContract 1073741825 := by
  intro hcontract
  exact absurd hcontract.small (by decide)

end Reiser4
