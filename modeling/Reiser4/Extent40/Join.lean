/-
  What joining the units of an extent item does to its map (`extent40_join_units`).

  The test on two neighbours compares `start + width` of the first with `start` of the second whatever
  the two stand for, so a hole of `w` blocks takes in the unit at disk block `w`, and an unallocated
  unit of `w` blocks the one at block `w + 1`; the widths are added in 64 bits.  What is left has no two
  neighbours that pass the test, and the result is the number of units cut out, in every case.

    1. `joinLoop_width`, `joinLoop_prefix`   a width that does not fit loses blocks for good; where all
       fit, the units behind the current one are final but for the width of the last;
    2. `joinLoop_places`, `joinLoop_ne`   joins of like units keep the map, the first other one changes it;
    3. `extent40JoinUnits_iff`   the whole law holds exactly when every join is one of like units.
-/
import Reiser4.Item.Extent
import Reiser4.Extent40.Map
import Mathlib.Data.List.Chain

namespace Reiser4

/-! ## Which joins are good -/

/-- The width of the joined unit fits its field. -/
def joinFits (p e : ExtentUnit) : Bool := decide (p.width + e.width < two64)

/-- The units stand for the same, and their blocks fit one unit. -/
def joinAlike (p e : ExtentUnit) : Bool := decide (p.kind = e.kind) && joinFits p e

/-- Every join of the loop passes `test`: `last` is the unit in front of the current one, with what has
    been joined to it. -/
def joinsPass (test : ExtentUnit → ExtentUnit → Bool) : Option ExtentUnit → List ExtentUnit → Bool
  | _, [] => true
  | none, e :: rest => if e.width = 0 then joinsPass test none rest else joinsPass test (some e) rest
  | some p, e :: rest =>
    if e.width = 0 then joinsPass test (some p) rest
    else if joins p e then
      test p e && joinsPass test (some { p with width := u64 (p.width + e.width) }) rest
    else joinsPass test (some e) rest

/-- A join after all: the unit in front with the width of both. -/
def joined (p e : ExtentUnit) : ExtentUnit := { p with width := u64 (p.width + e.width) }

@[simp] theorem joined_start (p e : ExtentUnit) : (joined p e).start = p.start := rfl

@[simp] theorem joined_width (p e : ExtentUnit) : (joined p e).width = u64 (p.width + e.width) := rfl

@[simp] theorem joined_kind (p e : ExtentUnit) : (joined p e).kind = p.kind := rfl

section OneJoin

variable {p e : ExtentUnit}

theorem joined_stored (hp : p.Stored) : (joined p e).Stored := ⟨hp.start, u64_lt _⟩

/-- A unit without blocks changes nothing. -/
theorem joined_of_zero (hp : p.Stored) (h : e.width = 0) : joined p e = p := by
  unfold joined
  rw [h, Nat.add_zero, u64_of_lt hp.width]

/-- The joined unit begins with the blocks of the first one. -/
theorem joined_places (hfit : joinFits p e = true) : (joined p e).places =
    p.places ++ (List.range e.width).map fun i => (joined p e).place (p.width + i) := by
  have hfit' : p.width + e.width < two64 := by simpa [joinFits] using hfit
  have hsplit := ExtentUnit.places_add p.start p.width e.width
  unfold joined
  rw [u64_of_lt hfit']
  exact hsplit

/-- Like units are joined to a unit with the blocks of both. -/
theorem joined_alike (h : joins p e = true) (hok : joinAlike p e = true) :
    (joined p e).places = p.places ++ e.places := by
  unfold joinAlike at hok
  simp only [Bool.and_eq_true, decide_eq_true_eq] at hok
  obtain ⟨hkind, hfit⟩ := hok
  rw [joined_places hfit]
  congr 1
  unfold ExtentUnit.places
  apply List.map_congr_left
  intro i _
  unfold ExtentUnit.place
  rw [joined_kind, ← hkind]
  cases hdisk : p.kind with
  | hole => rfl
  | unalloc => rfl
  | disk =>
    -- Behind a disk unit the test has only its second half.
    have h2 := ExtentUnit.kind_eq_disk.mp hdisk
    have hstart : u64 (p.start + p.width) = e.start := by
      unfold joins extentHoleUnit at h
      simp only [Bool.or_eq_true, Bool.and_eq_true, beq_iff_eq] at h
      omega
    show BlockPlace.disk (u64 (p.start + (p.width + i))) = .disk (u64 (e.start + i))
    rw [← hstart]
    unfold u64
    congr 1
    omega

end OneJoin

/-! ## The loop -/

section Loop

variable {test : ExtentUnit → ExtentUnit → Bool}

/-- All units, those behind and those ahead, have 64-bit numbers. -/
def AllStored (done rest : List ExtentUnit) : Prop := ∀ e ∈ done ++ rest, e.Stored

theorem AllStored.push {done rest : List ExtentUnit} {e : ExtentUnit}
    (h : AllStored done (e :: rest)) : AllStored (e :: done) rest := by
  intro x hx
  apply h x
  simp only [List.cons_append, List.mem_cons, List.mem_append] at hx ⊢
  tauto

theorem AllStored.skip {done rest : List ExtentUnit} {e : ExtentUnit}
    (h : AllStored done (e :: rest)) : AllStored done rest := by
  intro x hx
  apply h x
  simp only [List.mem_append, List.mem_cons] at hx ⊢
  tauto

theorem AllStored.last {p : ExtentUnit} {done rest : List ExtentUnit}
    (h : AllStored (p :: done) rest) : p.Stored := h p (by simp)

theorem AllStored.join {p e : ExtentUnit} {done rest : List ExtentUnit}
    (h : AllStored (p :: done) (e :: rest)) : AllStored (joined p e :: done) rest := by
  intro x hx
  simp only [List.cons_append, List.mem_cons, List.mem_append] at hx
  rcases hx with rfl | hx
  · exact joined_stored h.last
  · apply h x
    simp only [List.cons_append, List.mem_cons, List.mem_append]
    tauto

/-- The number of blocks never grows, and shrinks exactly when a width does not fit. -/
theorem joinLoop_width (done rest : List ExtentUnit) (h : AllStored done rest) :
    totalWidth (joinLoop done rest).1 ≤ totalWidth done.reverse + totalWidth rest ∧
      (joinsPass joinFits done.head? rest = false →
        totalWidth (joinLoop done rest).1 < totalWidth done.reverse + totalWidth rest) := by
  fun_induction joinLoop done rest with
  | case1 done => simp [joinsPass]
  | case2 e rest h0 r ih =>
    obtain ⟨hle, hlt⟩ := ih h.skip
    simpa [joinsPass, h0] using And.intro hle hlt
  | case3 e rest h0 ih =>
    obtain ⟨hle, hlt⟩ := ih h.push
    simp only [List.reverse_cons, totalWidth_append, totalWidth_cons, totalWidth_nil,
      List.head?_cons, List.reverse_nil] at hle hlt ⊢
    simp only [List.head?_nil, joinsPass, h0, if_false]
    refine ⟨by omega, fun hp => ?_⟩
    have := hlt hp
    omega
  | case4 p done e rest hjoin r ih =>
    obtain ⟨hle, hlt⟩ := ih h.join
    have hmod : u64 (p.width + e.width) ≤ p.width + e.width := Nat.mod_le _ _
    simp only [List.reverse_cons, totalWidth_append, totalWidth_cons, totalWidth_nil,
      List.head?_cons, r] at hle hlt ⊢
    refine ⟨by omega, fun hp => ?_⟩
    by_cases h0 : e.width = 0
    · rw [joinsPass, if_pos h0] at hp
      have hsame : ({ p with width := u64 (p.width + e.width) } : ExtentUnit) = p :=
        joined_of_zero h.last h0
      rw [hsame] at hlt ⊢
      have := hlt hp
      omega
    · rw [joinsPass, if_neg h0, if_pos (hjoin.resolve_left h0)] at hp
      cases hfit : joinFits p e with
      | true =>
        rw [hfit, Bool.true_and] at hp
        have := hlt hp
        omega
      | false =>
        have hbig : ¬ p.width + e.width < two64 := by simpa [joinFits] using hfit
        have := u64_lt (p.width + e.width)
        omega
  | case5 p done e rest hjoin ih =>
    obtain ⟨hle, hlt⟩ := ih h.push
    rw [not_or] at hjoin
    simp only [List.reverse_cons, totalWidth_append, totalWidth_cons, totalWidth_nil,
      List.head?_cons] at hle hlt ⊢
    rw [joinsPass, if_neg hjoin.1, if_neg hjoin.2]
    refine ⟨by omega, fun hp => ?_⟩
    have := hlt hp
    omega

/-- Where all widths fit, the units behind the current one are final, but for what is joined to the
    last of them. -/
theorem joinLoop_prefix (done rest : List ExtentUnit) (h : AllStored done rest)
    (hfit : joinsPass joinFits done.head? rest = true) :
    extentPlaces done.reverse <+: extentPlaces (joinLoop done rest).1 := by
  fun_induction joinLoop done rest with
  | case1 done => exact List.prefix_refl _
  | case2 e rest h0 r ih => exact List.nil_prefix
  | case3 e rest h0 ih => exact List.nil_prefix
  | case4 p done e rest hjoin r ih =>
    by_cases h0 : e.width = 0
    · have hsame : ({ p with width := u64 (p.width + e.width) } : ExtentUnit) = p :=
        joined_of_zero h.last h0
      rw [List.head?_cons, joinsPass, if_pos h0] at hfit
      simp only [hsame, r] at ih ⊢
      exact ih h.skip hfit
    · rw [List.head?_cons, joinsPass, if_neg h0, if_pos (hjoin.resolve_left h0),
        Bool.and_eq_true] at hfit
      refine List.IsPrefix.trans ?_ (ih h.join hfit.2)
      have hplaces := joined_places hfit.1
      unfold joined at hplaces
      rw [List.reverse_cons, List.reverse_cons, extentPlaces_append, extentPlaces_append,
        extentPlaces_cons, extentPlaces_cons, hplaces]
      simp only [extentPlaces_nil, List.append_nil, ← List.append_assoc]
      exact List.prefix_append _ _
  | case5 p done e rest hjoin ih =>
    rw [not_or] at hjoin
    rw [List.head?_cons, joinsPass, if_neg hjoin.1, if_neg hjoin.2] at hfit
    refine List.IsPrefix.trans ?_ (ih h.push hfit)
    rw [List.reverse_cons (a := e), extentPlaces_append]
    exact List.prefix_append _ _

/-- Joins of like units keep the map. -/
theorem joinLoop_places (done rest : List ExtentUnit) (h : AllStored done rest)
    (hok : joinsPass joinAlike done.head? rest = true) :
    extentPlaces (joinLoop done rest).1 = extentPlaces done.reverse ++ extentPlaces rest := by
  fun_induction joinLoop done rest with
  | case1 done => simp
  | case2 e rest h0 r ih =>
    have hnil : e.places = [] := List.eq_nil_of_length_eq_zero (by simpa using h0)
    rw [List.head?_nil, joinsPass, if_pos h0] at hok
    rw [extentPlaces_cons, hnil]
    exact ih h.skip hok
  | case3 e rest h0 ih =>
    rw [List.head?_nil, joinsPass, if_neg h0] at hok
    rw [ih h.push hok]
    simp
  | case4 p done e rest hjoin r ih =>
    by_cases h0 : e.width = 0
    · have hnil : e.places = [] := List.eq_nil_of_length_eq_zero (by simpa using h0)
      have hsame : ({ p with width := u64 (p.width + e.width) } : ExtentUnit) = p :=
        joined_of_zero h.last h0
      rw [List.head?_cons, joinsPass, if_pos h0] at hok
      simp only [hsame, r] at ih ⊢
      rw [extentPlaces_cons, hnil]
      exact ih h.skip hok
    · rw [List.head?_cons, joinsPass, if_neg h0, if_pos (hjoin.resolve_left h0),
        Bool.and_eq_true] at hok
      have hplaces := joined_alike (hjoin.resolve_left h0) hok.1
      unfold joined at hplaces
      show extentPlaces (joinLoop _ rest).1 = _
      rw [ih h.join hok.2]
      simp [hplaces]
  | case5 p done e rest hjoin ih =>
    rw [not_or] at hjoin
    rw [List.head?_cons, joinsPass, if_neg hjoin.1, if_neg hjoin.2] at hok
    rw [ih h.push hok]
    simp

/-- A join of unlike units changes the map, if all widths fit: behind the first unit comes a block of
    its kind, where the second unit has one of another kind. -/
theorem joinLoop_ne (done rest : List ExtentUnit) (h : AllStored done rest)
    (hfit : joinsPass joinFits done.head? rest = true)
    (hbad : joinsPass joinAlike done.head? rest = false) :
    extentPlaces (joinLoop done rest).1 ≠ extentPlaces done.reverse ++ extentPlaces rest := by
  fun_induction joinLoop done rest with
  | case1 done =>
    rw [joinsPass] at hbad
    cases hbad
  | case2 e rest h0 r ih =>
    have hnil : e.places = [] := List.eq_nil_of_length_eq_zero (by simpa using h0)
    rw [List.head?_nil, joinsPass, if_pos h0] at hfit hbad
    rw [extentPlaces_cons, hnil]
    exact ih h.skip hfit hbad
  | case3 e rest h0 ih =>
    rw [List.head?_nil, joinsPass, if_neg h0] at hfit hbad
    have := ih h.push hfit hbad
    simpa using this
  | case4 p done e rest hjoin r ih =>
    by_cases h0 : e.width = 0
    · have hnil : e.places = [] := List.eq_nil_of_length_eq_zero (by simpa using h0)
      have hsame : ({ p with width := u64 (p.width + e.width) } : ExtentUnit) = p :=
        joined_of_zero h.last h0
      rw [List.head?_cons, joinsPass, if_pos h0] at hfit hbad
      simp only [hsame, r] at ih ⊢
      rw [extentPlaces_cons, hnil]
      exact ih h.skip hfit hbad
    · have hj := hjoin.resolve_left h0
      rw [List.head?_cons, joinsPass, if_neg h0, if_pos hj, Bool.and_eq_true] at hfit
      rw [List.head?_cons, joinsPass, if_neg h0, if_pos hj] at hbad
      cases hok : joinAlike p e with
      | true =>
        have hplaces := joined_alike hj hok
        unfold joined at hplaces
        rw [hok, Bool.true_and] at hbad
        have := ih h.join hfit.2 hbad
        simp only [List.reverse_cons, extentPlaces_append, extentPlaces_cons, hplaces,
          extentPlaces_nil, List.append_nil, List.append_assoc] at this ⊢
        exact this
      | false =>
        have hkind : p.kind ≠ e.kind := by
          unfold joinAlike at hok
          rw [hfit.1, Bool.and_true] at hok
          simpa using hok
        intro heq
        obtain ⟨tail, htail⟩ := joinLoop_prefix _ rest h.join hfit.2
        have hplaces := joined_places hfit.1
        have hafter : extentPlaces (joinLoop (joined p e :: done) rest).1 =
            extentPlaces (done.reverse ++ [p]) ++
              (((List.range e.width).map fun i => (joined p e).place (p.width + i)) ++ tail) := by
          rw [← htail, List.reverse_cons, extentPlaces_append, extentPlaces_append,
            extentPlaces_cons, hplaces]
          simp
        have hbefore : extentPlaces (p :: done).reverse ++ extentPlaces (e :: rest) =
            extentPlaces (done.reverse ++ [p]) ++ (e.places ++ extentPlaces rest) := by
          rw [List.reverse_cons, extentPlaces_cons e rest]
        -- Both maps go on with the first block of the second unit.
        have hrest := List.append_cancel_left (hafter.symm.trans (heq.trans hbefore))
        obtain ⟨w, hw⟩ := Nat.exists_eq_succ_of_ne_zero h0
        unfold ExtentUnit.places at hrest
        rw [hw, List.range_succ_eq_map] at hrest
        simp only [List.map_cons, List.cons_append, List.cons.injEq] at hrest
        have hhead := congrArg BlockPlace.kind hrest.1
        rw [ExtentUnit.place_kind, ExtentUnit.place_kind, joined_kind] at hhead
        exact hkind hhead
  | case5 p done e rest hjoin ih =>
    rw [not_or] at hjoin
    rw [List.head?_cons, joinsPass, if_neg hjoin.1, if_neg hjoin.2] at hfit hbad
    have := ih h.push hfit hbad
    simpa using this

/-- What is left has a width everywhere. -/
theorem joinLoop_width_ne_zero (done rest : List ExtentUnit) (h : AllStored done rest)
    (hok : joinsPass joinAlike done.head? rest = true) (hdone : ∀ e ∈ done, e.width ≠ 0) :
    ∀ e ∈ (joinLoop done rest).1, e.width ≠ 0 := by
  fun_induction joinLoop done rest with
  | case1 done =>
    intro e he
    exact hdone e (List.mem_reverse.mp he)
  | case2 e rest h0 r ih =>
    rw [List.head?_nil, joinsPass, if_pos h0] at hok
    exact ih h.skip hok hdone
  | case3 e rest h0 ih =>
    rw [List.head?_nil, joinsPass, if_neg h0] at hok
    exact ih h.push hok (by simpa using h0)
  | case4 p done e rest hjoin r ih =>
    have hp : p.width ≠ 0 := hdone p (by simp)
    have hdone' : ∀ x ∈ done, x.width ≠ 0 := fun x hx => hdone x (List.mem_cons_of_mem _ hx)
    have hq : joinsPass joinAlike (some { p with width := u64 (p.width + e.width) }) rest = true ∧
        u64 (p.width + e.width) ≠ 0 := by
      by_cases h0 : e.width = 0
      · have hsame : ({ p with width := u64 (p.width + e.width) } : ExtentUnit) = p :=
          joined_of_zero h.last h0
        have hwidth : u64 (p.width + e.width) = p.width := congrArg ExtentUnit.width hsame
        rw [List.head?_cons, joinsPass, if_pos h0] at hok
        rw [hsame, hwidth]
        exact ⟨hok, hp⟩
      · rw [List.head?_cons, joinsPass, if_neg h0, if_pos (hjoin.resolve_left h0),
          Bool.and_eq_true] at hok
        have hfit : joinFits p e = true := (Bool.and_eq_true _ _ ▸ hok.1).2
        rw [joinFits, decide_eq_true_eq] at hfit
        refine ⟨hok.2, ?_⟩
        rw [u64_of_lt hfit]
        omega
    refine ih h.join hq.1 ?_
    intro x hx
    rcases List.mem_cons.mp hx with rfl | hx
    · exact hq.2
    · exact hdone' x hx
  | case5 p done e rest hjoin ih =>
    rw [not_or] at hjoin
    rw [List.head?_cons, joinsPass, if_neg hjoin.1, if_neg hjoin.2] at hok
    apply ih h.push hok
    intro x hx
    rcases List.mem_cons.mp hx with rfl | hx
    · exact hjoin.1
    · exact hdone x hx

end Loop

/-- No two neighbours of what is left pass the test: a join does not change where the unit in front
    starts, nor anything before it. -/
theorem joinLoop_apart (done rest : List ExtentUnit)
    (h : List.IsChain (fun e p => joins p e = false) done) :
    List.IsChain (fun p e => joins p e = false) (joinLoop done rest).1 := by
  fun_induction joinLoop done rest with
  | case1 done => exact List.isChain_reverse.mpr h
  | case2 e rest h0 r ih => exact ih h
  | case3 e rest h0 ih => exact ih (List.isChain_singleton _)
  | case4 p done e rest hjoin r ih =>
    apply ih
    cases done with
    | nil => exact List.isChain_singleton _
    | cons x done => exact List.isChain_cons_cons.mpr (List.isChain_cons_cons.mp h)
  | case5 p done e rest hjoin ih =>
    rw [not_or] at hjoin
    exact ih (List.isChain_cons_cons.mpr ⟨by simpa using hjoin.2, h⟩)

/-! ## The law -/

/-- What joining is to do with the units of an item. -/
structure JoinsWell (us : List ExtentUnit) : Prop where
  width : totalWidth (extent40JoinUnits us).1 = totalWidth us
  map : extentPlaces (extent40JoinUnits us).1 = extentPlaces us
  nonempty : ∀ e ∈ (extent40JoinUnits us).1, e.width ≠ 0
  apart : List.IsChain (fun p e => joins p e = false) (extent40JoinUnits us).1
  count : (extent40JoinUnits us).1.length + (extent40JoinUnits us).2 = us.length

/-- **Joining keeps the map, leaves no empty unit and no two that pass the test, and counts what it cuts
    out, if and only if** every join is one of like units whose width fits. -/
theorem extent40JoinUnits_iff {us : List ExtentUnit} (h : ∀ e ∈ us, e.Stored) :
    JoinsWell us ↔ joinsPass joinAlike none us = true := by
  have hall : AllStored [] us := h
  constructor
  · intro hwell
    by_contra hbad
    have hbad' : joinsPass joinAlike none us = false := by simpa using hbad
    cases hfit : joinsPass joinFits none us with
    | true => exact joinLoop_ne [] us hall hfit hbad' hwell.map
    | false =>
      have hlt := (joinLoop_width [] us hall).2 hfit
      have heq : totalWidth (joinLoop [] us).1 = totalWidth us := hwell.width
      simp at hlt
      omega
  · intro hok
    have hmap : extentPlaces (extent40JoinUnits us).1 = extentPlaces us :=
      joinLoop_places [] us hall hok
    have hwidth := congrArg List.length hmap
    rw [extentPlaces_length, extentPlaces_length] at hwidth
    exact
      { width := hwidth
        map := hmap
        nonempty := joinLoop_width_ne_zero [] us hall hok (by simp)
        apart := joinLoop_apart [] us List.isChain_nil
        count := by
          have := joinLoop_count [] us
          rwa [List.length_nil, Nat.zero_add] at this }

/-- Two holes and two neighbouring allocated units become one of each. -/
theorem extent40JoinUnits_two : JoinsWell [⟨0, 2⟩, ⟨0, 3⟩, ⟨70, 1⟩, ⟨71, 4⟩] :=
  (extent40JoinUnits_iff (by
    intro e he
    simp only [List.mem_cons, List.not_mem_nil, or_false] at he
    rcases he with rfl | rfl | rfl | rfl <;> exact ⟨by decide, by decide⟩)).mpr (by decide)

/-- A hole of 5 blocks takes in the unit at disk block 5, and the block is a hole then. -/
theorem extent40JoinUnits_hole : extent40JoinUnits [⟨0, 5⟩, ⟨5, 1⟩] = ([⟨0, 6⟩], 1) ∧
    extentPlaces [⟨0, 6⟩] ≠ extentPlaces [⟨0, 5⟩, ⟨5, 1⟩] ∧ ¬ JoinsWell [⟨0, 5⟩, ⟨5, 1⟩] := by
  have hjoin : extent40JoinUnits [⟨0, 5⟩, ⟨5, 1⟩] = ([⟨0, 6⟩], 1) := by decide
  have hmap : extentPlaces [⟨0, 6⟩] ≠ extentPlaces [⟨0, 5⟩, ⟨5, 1⟩] := by decide
  refine ⟨hjoin, hmap, fun h => hmap ?_⟩
  have := h.map
  rwa [hjoin] at this

end Reiser4
