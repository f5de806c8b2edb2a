/-
  The plugin set and the heir set of a stat data (`sdext_plug.c`, `sdext_plug_repair.c`).

  The extension is a 16-bit count and as many slots, each a member of the set and the id of its plugin, both of
  16 bits.  In build mode `sdext_plug_check_struct` takes out the slots it finds broken: it collects them in a
  mask and then moves the slots behind a broken one over it, one after the other.

  The mask of the members that were met gets the bit of the slot, not that of the member.  So a member counts as
  met already when its number is that of an earlier slot which was not broken before its plugin was looked for.

  The lookup of a plugin (`pset_ops.find`, by member, id and kind of set) is a parameter.

    1. `checkLoop_spec`     the masks after the walk over the slots;
    2. `compact_spec`       the crux: the loop that removes slots leaves those that are not in the mask;
    3. `plugCheck_spec`     what a successful check leaves;
    4. `plugCheck_iff`      when these are the first valid slots of the members, by the mask;
    5. `plugCheck_sound`    a condition on the slots themselves under which they are.
-/
import Reiser4.Lib.Bytes
import Reiser4.Repair.TwigScan

namespace Reiser4.Stat40

open Reiser4.Lib Reiser4.Repair

/-! ## The extension -/

/-- `PSET_STORE_LAST`. -/
def psetStoreLast : Nat := 14

/-- What a pointer to a plugin stands for in a plugin set: `NULL`, `INVAL_PTR`, the value of a parameter, or
    the plugin there. -/
inductive PlugRef
  | null | inval
  | param (value : Nat)
  | plug (ptr : Nat)
  deriving DecidableEq, Repr

/-- `sizeof(sdext_plug_t)` and `sizeof(sdext_plug_slot_t)`. -/
def plugSize : Nat := 2
def slotSize : Nat := 4

/-- The fields of the extension at offset `o`. -/
def getCount (b : Bytes) (o : Nat) : Nat := b.getLe 2 o
def setCount (b : Bytes) (o v : Nat) : Bytes := b.setLe 2 o v
def getMember (b : Bytes) (o n : Nat) : Nat := b.getLe 2 (o + plugSize + slotSize * n)
def getPid (b : Bytes) (o n : Nat) : Nat := b.getLe 2 (o + plugSize + slotSize * n + 2)
def setMember (b : Bytes) (o n v : Nat) : Bytes := b.setLe 2 (o + plugSize + slotSize * n) v
def setPid (b : Bytes) (o n v : Nat) : Bytes := b.setLe 2 (o + plugSize + slotSize * n + 2) v

/-- The length of an extension of so many slots. -/
def slotsLength (count : Nat) : Nat := slotSize * count + if count = 0 then 0 else plugSize

/-- `sdext_plug_length` of the extension in an item. -/
def sdextPlugLength (b : Bytes) (o : Nat) : Nat := slotsLength (getCount b o)

/-- `sdhint_plug_t`. -/
structure SdhintPlug where
  plugMask : Nat
  plug : Nat → PlugRef

section Program

variable (find : Nat → Nat → Bool → PlugRef) (isPset : Bool)

/-- The loop of `sdext_plug_open`: `n` slots from `i` on.  No hint is `-EIO`. -/
def openLoop (b : Bytes) (o : Nat) : Nat → Nat → SdhintPlug → Option SdhintPlug
  | 0, _, hint => some hint
  | n + 1, i, hint =>
    let mem := getMember b o i
    let id := getPid b o i
    if psetStoreLast ≤ mem then none
    else if hint.plugMask.testBit mem then none
    else if find mem id isPset = .inval then none
    else
      let ref := if find mem id isPset = .null then .param id else find mem id isPset
      openLoop b o n (i + 1)
        { plugMask := hint.plugMask ||| 2 ^ mem, plug := Function.update hint.plug mem ref }

/-- `sdext_plug_open`. -/
def sdextPlugOpen (b : Bytes) (o : Nat) : Option SdhintPlug :=
  openLoop find isPset b o (getCount b o) 0 ⟨0, fun _ => .null⟩

/-- The members that were met, the slots to remove and their number. -/
structure Found where
  metmask : Nat
  rmmask : Nat
  remove : Nat

/-- The walk of `sdext_plug_check_struct` over the slots: `n` slots from `i` on. -/
def checkLoop (b : Bytes) (o : Nat) : Nat → Nat → Found → Found
  | 0, _, s => s
  | n + 1, i, s =>
    let mem := getMember b o i
    if psetStoreLast ≤ mem then checkLoop b o n (i + 1) { s with rmmask := s.rmmask ||| 2 ^ i, remove := s.remove + 1 }
    else if s.metmask.testBit mem then
      checkLoop b o n (i + 1) { s with rmmask := s.rmmask ||| 2 ^ i, remove := s.remove + 1 }
    else
      -- the bit of the slot
      let met := s.metmask ||| 2 ^ i
      if find mem (getPid b o i) isPset = .inval then
        checkLoop b o n (i + 1) ⟨met, s.rmmask ||| 2 ^ i, s.remove + 1⟩
      else checkLoop b o n (i + 1) { s with metmask := met }

/-- The loop that removes slots: `n` slots from `i` on, the first at `dst`, with `len` bytes. -/
def compact (rmmask : Nat) : Nat → Nat → Nat → Nat → Bytes → Bytes
  | 0, _, _, _, b => b
  | n + 1, i, dst, len, b =>
    let len := len - slotSize
    if rmmask.testBit i then compact rmmask n (i + 1) dst len (b.move dst (dst + slotSize) len)
    else compact rmmask n (i + 1) (dst + slotSize) len b

/-- `sdext_plug_check_struct`, of the extension at `o` in an item of `placeLen` bytes; `hintLen` is the length in
    the repair hint.  No result is `RE_FATAL`. -/
def sdextPlugCheckStruct (mode : Mode) (b : Bytes) (o placeLen hintLen : Nat) : Option (Bytes × Nat) :=
  let count := getCount b o
  if psetStoreLast < count then none
  else
    let len := sdextPlugLength b o
    if len = 0 ∨ placeLen < o + len then none
    else
      let s := checkLoop find isPset b o count 0 ⟨0, 0, 0⟩
      if s.rmmask = 0 then some (b, hintLen)
      else if mode ≠ .build then none
      else if s.remove = count then none
      else
        let b := compact s.rmmask count 0 (o + plugSize) (len - plugSize) b
        some (setCount b o (count - s.remove), s.remove * slotSize)

end Program

/-! ## Specification -/

section Specification

variable (find : Nat → Nat → Bool → PlugRef) (isPset : Bool) (b : Bytes) (o : Nat)

/-- The slots of the extension, members and ids. -/
def slots : List (Nat × Nat) := (List.range (getCount b o)).map fun i => (getMember b o i, getPid b o i)

/-- A slot of a known member with a valid id. -/
def valid (slot : Nat × Nat) : Bool :=
  decide (slot.1 < psetStoreLast) && decide (find slot.1 slot.2 isPset ≠ .inval)

/-- The first valid slot of each member, behind these slots. -/
def firstValid (seen : List (Nat × Nat)) : List (Nat × Nat) → List (Nat × Nat)
  | [] => []
  | slot :: rest =>
    if valid find isPset slot && !seen.any fun x => valid find isPset x && x.1 == slot.1 then
      slot :: firstValid (seen ++ [slot]) rest
    else firstValid (seen ++ [slot]) rest

/-- **A sound check**: where it succeeds in build mode it leaves the first valid slots of the members, reports
    the length of the others, and the result can be opened. -/
def PlugCheckSound (placeLen : Nat) : Prop :=
  ∀ b' len', sdextPlugCheckStruct find isPset .build b o placeLen 0 = some (b', len') →
    slots b' o = firstValid find isPset [] (slots b o) ∧
      len' = slotSize * ((slots b o).length - (slots b' o).length) ∧
      ∃ hint, sdextPlugOpen find isPset b' o = some hint

/-- The mask of the members met, in front of a slot: a bit for each slot of a known member whose own bit was
    not set. -/
def metBefore (member : Nat → Nat) : Nat → Nat
  | 0 => 0
  | i + 1 =>
    if member i < psetStoreLast ∧ (metBefore member i).testBit (member i) = false then
      metBefore member i ||| 2 ^ i
    else metBefore member i

/-- The check keeps slot `i`. -/
def keeps (i : Nat) : Bool :=
  valid find isPset (getMember b o i, getPid b o i) && !(metBefore (getMember b o) i).testBit (getMember b o i)

end Specification

/-! ## The walk over the slots -/

section Walk

variable {find : Nat → Nat → Bool → PlugRef} {isPset : Bool} {b : Bytes} {o : Nat}

/-- The masks after the walk: the slots that the check does not keep, and how many they are. -/
theorem checkLoop_spec : ∀ (n i : Nat) (s : Found), s.metmask = metBefore (getMember b o) i →
    (∀ k, (checkLoop find isPset b o n i s).rmmask.testBit k =
      (s.rmmask.testBit k || (decide (i ≤ k ∧ k < i + n) && !keeps find isPset b o k))) ∧
    (checkLoop find isPset b o n i s).remove =
      s.remove + (List.range' i n).countP fun k => !keeps find isPset b o k
  | 0, i, s, _ => by
    refine ⟨fun k => ?_, rfl⟩
    rw [decide_eq_false (by omega), Bool.false_and, Bool.or_false]
    rfl
  | n + 1, i, s, hmet => by
    have hstep : ∀ s' : Found, s'.metmask = metBefore (getMember b o) (i + 1) →
        (keeps find isPset b o i = true → s'.rmmask = s.rmmask ∧ s'.remove = s.remove) →
        (keeps find isPset b o i = false → s'.rmmask = s.rmmask ||| 2 ^ i ∧ s'.remove = s.remove + 1) →
        (∀ k, (checkLoop find isPset b o n (i + 1) s').rmmask.testBit k =
          (s.rmmask.testBit k || (decide (i ≤ k ∧ k < i + (n + 1)) && !keeps find isPset b o k))) ∧
        (checkLoop find isPset b o n (i + 1) s').remove =
          s.remove + (List.range' i (n + 1)).countP fun k => !keeps find isPset b o k := by
      intro s' hmet' hkept hgone
      obtain ⟨hbits, hcount⟩ := checkLoop_spec n (i + 1) s' hmet'
      rw [List.range'_succ, List.countP_cons, hcount]
      cases hk : keeps find isPset b o i with
      | true =>
        obtain ⟨hrm, hrem⟩ := hkept hk
        refine ⟨fun k => ?_, by rw [hrem]; rfl⟩
        rw [hbits, hrm]
        by_cases heq : k = i
        · rw [heq, hk, Bool.not_true, Bool.and_false, Bool.and_false]
        · rw [show decide (i + 1 ≤ k ∧ k < i + 1 + n) = decide (i ≤ k ∧ k < i + (n + 1)) from
            decide_eq_decide.mpr (by omega)]
      | false =>
        obtain ⟨hrm, hrem⟩ := hgone hk
        refine ⟨fun k => ?_, by rw [hrem, Bool.not_false, if_pos rfl]; omega⟩
        rw [hbits, hrm, Nat.testBit_or, Nat.testBit_two_pow]
        by_cases heq : k = i
        · have hin : decide (i ≤ i ∧ i < i + (n + 1)) = true := decide_eq_true (by omega)
          rw [heq, hk, hin]
          simp
        · rw [decide_eq_false (fun h => heq h.symm), Bool.or_false,
            show decide (i + 1 ≤ k ∧ k < i + 1 + n) = decide (i ≤ k ∧ k < i + (n + 1)) from
              decide_eq_decide.mpr (by omega)]
    have hmetNext : metBefore (getMember b o) (i + 1) =
        if getMember b o i < psetStoreLast ∧ s.metmask.testBit (getMember b o i) = false then s.metmask ||| 2 ^ i
        else s.metmask := by
      rw [metBefore, hmet]
    have hkeeps : keeps find isPset b o i = (valid find isPset (getMember b o i, getPid b o i) &&
        !s.metmask.testBit (getMember b o i)) := by
      rw [hmet]
      rfl
    rw [checkLoop]
    by_cases hmem : psetStoreLast ≤ getMember b o i
    · have hk : keeps find isPset b o i = false := by
        rw [hkeeps, valid, decide_eq_false (Nat.not_lt.mpr hmem), Bool.false_and, Bool.false_and]
      rw [if_pos hmem]
      refine hstep _ ?_ (fun h => absurd (h.symm.trans hk) (by decide)) fun _ => ⟨rfl, rfl⟩
      rw [hmetNext, if_neg (by omega)]
    rw [if_neg hmem]
    cases hbit : s.metmask.testBit (getMember b o i) with
    | true =>
      have hk : keeps find isPset b o i = false := by
        rw [hkeeps, hbit, Bool.not_true, Bool.and_false]
      rw [if_pos rfl]
      refine hstep _ ?_ (fun h => absurd (h.symm.trans hk) (by decide)) fun _ => ⟨rfl, rfl⟩
      rw [hmetNext, hbit, if_neg (fun h => absurd h.2 (by decide))]
    | false =>
      have hnext : s.metmask ||| 2 ^ i = metBefore (getMember b o) (i + 1) := by
        rw [hmetNext, hbit, if_pos ⟨Nat.lt_of_not_le hmem, rfl⟩]
      rw [if_neg (by decide)]
      dsimp only
      by_cases hinval : find (getMember b o i) (getPid b o i) isPset = .inval
      · have hk : keeps find isPset b o i = false := by
          rw [hkeeps, valid, decide_eq_false (not_not_intro hinval), Bool.and_false, Bool.false_and]
        rw [if_pos hinval]
        exact hstep _ hnext (fun h => absurd (h.symm.trans hk) (by decide)) fun _ => ⟨rfl, rfl⟩
      · have hk : keeps find isPset b o i = true := by
          rw [hkeeps, valid, hbit, decide_eq_true (Nat.lt_of_not_le hmem), decide_eq_true hinval]
          rfl
        rw [if_neg hinval]
        exact hstep _ hnext (fun _ => ⟨rfl, rfl⟩) fun h => absurd (h.symm.trans hk) (by decide)

end Walk

/-! ## The removal of slots -/

/-- The slot with this number of those that begin at an offset. -/
def slotAt (b : Bytes) (a i : Nat) : Nat × Nat := (b.getLe 2 (a + slotSize * i), b.getLe 2 (a + slotSize * i + 2))

/-- The first `n` slots from an offset on that a mask does not name, the first slot having number `i` in it. -/
def leftOver (rmmask i n : Nat) (b : Bytes) (a : Nat) : List (Nat × Nat) :=
  ((List.range n).filter fun k => !rmmask.testBit (i + k)).map (slotAt b a)

theorem slotAt_succ (b : Bytes) (a i : Nat) : slotAt b a (i + 1) = slotAt b (a + slotSize) i := by
  unfold slotAt
  rw [show a + slotSize * (i + 1) = a + slotSize + slotSize * i by ring]

theorem slotAt_congr {b b' : Bytes} {a a' i j : Nat}
    (h : ∀ k, k < slotSize → b (a + slotSize * i + k) = b' (a' + slotSize * j + k)) : slotAt b a i = slotAt b' a' j := by
  unfold slotAt
  refine Prod.ext (Bytes.getLe_congr _ _ _ _ _ fun k hk => h k (by unfold slotSize; omega)) ?_
  refine Bytes.getLe_congr _ _ _ _ _ fun k hk => ?_
  rw [Nat.add_assoc, Nat.add_assoc (a' + slotSize * j)]
  exact h (2 + k) (by unfold slotSize; omega)

/-- The first of the slots, then the others. -/
theorem leftOver_succ (rmmask i n : Nat) (b : Bytes) (a : Nat) : leftOver rmmask i (n + 1) b a =
    (if rmmask.testBit i then [] else [slotAt b a 0]) ++ leftOver rmmask (i + 1) n b (a + slotSize) := by
  have hrest : ((List.range n).map Nat.succ |>.filter fun k => !rmmask.testBit (i + k)).map (slotAt b a) =
      leftOver rmmask (i + 1) n b (a + slotSize) := by
    rw [List.filter_map, List.map_map]
    unfold leftOver
    rw [show (fun k => !rmmask.testBit (i + k)) ∘ Nat.succ = fun k => !rmmask.testBit (i + 1 + k) from
      funext fun k => by rw [Function.comp_apply, Nat.succ_eq_add_one, Nat.add_comm k 1, Nat.add_assoc]]
    exact List.map_congr_left fun k _ => slotAt_succ b a k
  unfold leftOver
  rw [List.range_succ_eq_map, List.filter_cons, Nat.add_zero]
  cases rmmask.testBit i with
  | true => exact hrest
  | false => exact congrArg (slotAt b a 0 :: ·) hrest

/-- **The removal**: the slots that the mask does not name are left, one behind the other, and nothing outside
    the slots has changed. -/
theorem compact_spec (rmmask : Nat) : ∀ (n i dst : Nat) (b : Bytes),
    (List.range (leftOver rmmask i n b dst).length).map (slotAt (compact rmmask n i dst (slotSize * n) b) dst) =
      leftOver rmmask i n b dst ∧
    ∀ a, a < dst ∨ dst + slotSize * n ≤ a → compact rmmask n i dst (slotSize * n) b a = b a
  | 0, _, _, _ => ⟨rfl, fun _ _ => rfl⟩
  | n + 1, i, dst, b => by
    have hlen : slotSize * (n + 1) - slotSize = slotSize * n := by
      unfold slotSize
      omega
    rw [compact, hlen, leftOver_succ]
    cases hbit : rmmask.testBit i with
    | true =>
      rw [if_pos rfl, if_pos rfl, List.nil_append]
      obtain ⟨hlist, hout⟩ := compact_spec rmmask n (i + 1) dst (b.move dst (dst + slotSize) (slotSize * n))
      -- the slots that came up
      have hmoved : leftOver rmmask (i + 1) n (b.move dst (dst + slotSize) (slotSize * n)) dst =
          leftOver rmmask (i + 1) n b (dst + slotSize) := by
        unfold leftOver
        refine List.map_congr_left fun k hk => slotAt_congr fun j hj => ?_
        have hkn : k < n := List.mem_range.mp (List.mem_filter.mp hk).1
        unfold slotSize at hj ⊢
        rw [Bytes.move_in _ _ _ _ _ (by omega) (by omega)]
        congr 1
        omega
      rw [hmoved] at hlist
      refine ⟨hlist, fun a ha => ?_⟩
      unfold slotSize at ha hout ⊢
      rw [hout a (by omega), Bytes.move_out _ _ _ _ _ (by omega)]
    | false =>
      rw [if_neg Bool.false_ne_true, if_neg Bool.false_ne_true, List.singleton_append]
      obtain ⟨hlist, hout⟩ := compact_spec rmmask n (i + 1) (dst + slotSize) b
      constructor
      · have hfirst : slotAt (compact rmmask n (i + 1) (dst + slotSize) (slotSize * n) b) dst 0 = slotAt b dst 0 := by
          refine slotAt_congr fun k hk => hout _ (Or.inl ?_)
          omega
        rw [List.length_cons, List.range_succ_eq_map, List.map_cons, List.map_map, hfirst]
        refine congrArg (slotAt b dst 0 :: ·) (Eq.trans (List.map_congr_left fun k _ => ?_) hlist)
        exact slotAt_succ _ _ _
      · intro a ha
        refine hout a ?_
        unfold slotSize at ha ⊢
        omega

/-! ## A successful check -/

section Check

variable {find : Nat → Nat → Bool → PlugRef} {isPset : Bool} {b : Bytes} {o placeLen : Nat}

/-- The slots that the check keeps. -/
def kept (find : Nat → Nat → Bool → PlugRef) (isPset : Bool) (b : Bytes) (o : Nat) : List (Nat × Nat) :=
  ((List.range (getCount b o)).filter (keeps find isPset b o)).map (slotAt b (o + plugSize))

/-- What the check asks for: a count of slots that are there, one of which it keeps. -/
structure Checked (find : Nat → Nat → Bool → PlugRef) (isPset : Bool) (b : Bytes) (o placeLen : Nat) : Prop where
  count_le : getCount b o ≤ psetStoreLast
  inside : o + plugSize + slotSize * getCount b o ≤ placeLen
  some_kept : ∃ i < getCount b o, keeps find isPset b o i = true

theorem slots_eq (b : Bytes) (o : Nat) : slots b o = (List.range (getCount b o)).map (slotAt b (o + plugSize)) := rfl

/-- The check succeeds exactly then, leaves the slots that it keeps and reports the length of the others. -/
theorem plugCheck_spec :
    (Checked find isPset b o placeLen → ∃ b',
      sdextPlugCheckStruct find isPset .build b o placeLen 0 =
        some (b', slotSize * ((slots b o).length - (kept find isPset b o).length)) ∧
      slots b' o = kept find isPset b o ∧
      ∀ a, a < o ∨ o + plugSize + slotSize * getCount b o ≤ a → b' a = b a) ∧
    (¬ Checked find isPset b o placeLen → sdextPlugCheckStruct find isPset .build b o placeLen 0 = none) := by
  obtain ⟨count, hcount⟩ : ∃ count, count = getCount b o := ⟨_, rfl⟩
  obtain ⟨s, hs⟩ : ∃ s, s = checkLoop find isPset b o count 0 ⟨0, 0, 0⟩ := ⟨_, rfl⟩
  obtain ⟨hbits, hremove⟩ := @checkLoop_spec find isPset b o count 0 ⟨0, 0, 0⟩ rfl
  rw [← hs] at hbits hremove
  rw [← List.range_eq_range', Nat.zero_add] at hremove
  have hrm : ∀ k, s.rmmask.testBit k = (decide (k < count) && !keeps find isPset b o k) := by
    intro k
    rw [hbits k, Nat.zero_testBit, Bool.false_or, Nat.zero_add, decide_eq_decide.mpr (and_iff_right (Nat.zero_le k))]
  have hkept : leftOver s.rmmask 0 count b (o + plugSize) = kept find isPset b o := by
    unfold leftOver kept
    rw [← hcount]
    refine congrArg (List.map _) (List.filter_congr fun k hk => ?_)
    rw [Nat.zero_add, hrm, decide_eq_true (List.mem_range.mp hk), Bool.true_and, Bool.not_not]
  have hsplit : (kept find isPset b o).length + s.remove = count := by
    have hall := List.length_eq_countP_add_countP (keeps find isPset b o) (l := List.range count)
    rw [List.length_range] at hall
    rw [hremove, kept, ← hcount, List.length_map, ← List.countP_eq_length_filter]
    conv_rhs => rw [hall]
    refine congrArg (_ + ·) (List.countP_congr fun k _ => ?_)
    cases keeps find isPset b o k <;> decide
  have hsome : 0 < (kept find isPset b o).length ↔ ∃ i < count, keeps find isPset b o i = true := by
    rw [kept, ← hcount, List.length_map, List.length_pos_iff_exists_mem]
    simp only [List.mem_filter, List.mem_range]
  have hslots : (slots b o).length = count := by
    rw [slots_eq, List.length_map, List.length_range, hcount]
  have hnone : s.rmmask = 0 → kept find isPset b o = slots b o ∧ s.remove = 0 := by
    intro hzero
    have hkeep : ∀ k < count, keeps find isPset b o k = true := by
      intro k hk
      have hbit := hrm k
      rw [hzero, Nat.zero_testBit, decide_eq_true hk, Bool.true_and] at hbit
      rw [← Bool.not_not (keeps find isPset b o k), ← hbit]
      rfl
    constructor
    · rw [slots_eq, kept, ← hcount]
      exact congrArg (List.map _) (List.filter_eq_self.mpr fun k hk => hkeep k (List.mem_range.mp hk))
    · rw [hremove, List.countP_eq_zero]
      intro k hk
      rw [hkeep k (List.mem_range.mp hk)]
      exact Bool.false_ne_true
  have hlen : sdextPlugLength b o = slotSize * count + if count = 0 then 0 else plugSize := by
    rw [sdextPlugLength, slotsLength, hcount]
  rw [hslots]
  unfold sdextPlugCheckStruct
  dsimp only
  rw [← hcount, ← hs, hlen]
  constructor
  · rintro ⟨hle, hin, i, hi, hkeep⟩
    rw [← hcount] at hle hin hi
    have hpos := hsome.mpr ⟨i, hi, hkeep⟩
    unfold slotSize plugSize at *
    rw [if_neg (show ¬ count = 0 by omega), if_neg (by omega), if_neg (by omega)]
    by_cases hzero : s.rmmask = 0
    · obtain ⟨hall, hrem⟩ := hnone hzero
      rw [if_pos hzero]
      exact ⟨b, by rw [show count - (kept find isPset b o).length = 0 by omega], hall.symm, fun _ _ => rfl⟩
    · rw [if_neg hzero, if_neg (not_not_intro rfl), if_neg (by omega)]
      obtain ⟨hlist, hout⟩ := compact_spec s.rmmask count 0 (o + 2) b
      unfold slotSize at hlist hout
      rw [hkept] at hlist
      rw [show 4 * count + 2 - 2 = 4 * count by omega]
      refine ⟨_, by rw [show count - (kept find isPset b o).length = s.remove by omega, Nat.mul_comm s.remove 4], ?_,
        fun a ha => ?_⟩
      · rw [slots_eq]
        have hget : getCount (setCount (compact s.rmmask count 0 (o + 2) (4 * count) b) o (count - s.remove)) o =
            (kept find isPset b o).length := by
          unfold getCount setCount
          rw [Bytes.getLe_setLe_of_lt _ _ _ _ (by unfold psetStoreLast at hle; omega)]
          omega
        rw [hget]
        refine Eq.trans (List.map_congr_left fun k _ => slotAt_congr fun j _ => ?_) hlist
        exact Bytes.setLe_out _ _ _ _ _ (by unfold plugSize; omega)
      · unfold setCount
        rw [Bytes.setLe_out _ _ _ _ _ (by omega), hout a (by omega)]
  · intro hno
    by_cases hle : psetStoreLast < count
    · rw [if_pos hle]
    rw [if_neg hle]
    by_cases hz : count = 0
    · rw [if_pos hz, hz]
      exact if_pos (Or.inl rfl)
    rw [if_neg hz]
    by_cases hin : slotSize * count + plugSize = 0 ∨ placeLen < o + (slotSize * count + plugSize)
    · rw [if_pos hin]
    rw [if_neg hin]
    have hnokept : (kept find isPset b o).length = 0 := by
      by_contra hpos
      refine hno ⟨?_, ?_, ?_⟩
      · rw [← hcount]
        omega
      · rw [← hcount]
        omega
      · rw [← hcount]
        exact hsome.mp (Nat.pos_of_ne_zero hpos)
    rw [if_neg, if_neg (not_not_intro rfl), if_pos (by omega)]
    intro hzero
    have := (hnone hzero).2
    omega

/-! ## The first valid slots -/

/-- Slot `i` is the first valid one of its member. -/
def isFirst (find : Nat → Nat → Bool → PlugRef) (isPset : Bool) (slot : Nat → Nat × Nat) (i : Nat) : Bool :=
  valid find isPset (slot i) &&
    !((List.range i).map slot).any fun x => valid find isPset x && x.1 == (slot i).1

theorem isFirst_iff {slot : Nat → Nat × Nat} {i : Nat} : isFirst find isPset slot i = true ↔
    valid find isPset (slot i) = true ∧ ∀ j < i, valid find isPset (slot j) = true → (slot j).1 ≠ (slot i).1 := by
  simp [isFirst]

theorem firstValid_filter (slot : Nat → Nat × Nat) : ∀ n i,
    firstValid find isPset ((List.range i).map slot) ((List.range' i n).map slot) =
      ((List.range' i n).filter (isFirst find isPset slot)).map slot
  | 0, _ => rfl
  | n + 1, i => by
    have hseen : (List.range i).map slot ++ [slot i] = (List.range (i + 1)).map slot := by
      rw [List.range_succ, List.map_append]
      rfl
    rw [List.range'_succ, List.map_cons, firstValid, hseen, firstValid_filter slot n (i + 1), List.filter_cons,
      show (valid find isPset (slot i) && !((List.range i).map slot).any
        fun x => valid find isPset x && x.1 == (slot i).1) = isFirst find isPset slot i from rfl]
    by_cases hfirst : isFirst find isPset slot i = true
    · rw [if_pos hfirst, if_pos hfirst]
      rfl
    · rw [if_neg hfirst, if_neg hfirst]

/-- The first valid slots have different members. -/
theorem isFirst_nodup (slot : Nat → Nat × Nat) (n : Nat) :
    (((List.range n).filter (isFirst find isPset slot)).map fun i => (slot i).1).Nodup := by
  refine List.Nodup.map_on (fun i hi j hj hij => ?_) (List.nodup_range.filter _)
  obtain ⟨hvi, hfi⟩ := isFirst_iff.mp (List.mem_filter.mp hi).2
  obtain ⟨hvj, hfj⟩ := isFirst_iff.mp (List.mem_filter.mp hj).2
  rcases Nat.lt_trichotomy i j with h | h | h
  · exact absurd hij (hfj i h hvi)
  · exact h
  · exact absurd hij.symm (hfi j h hvj)

/-- A member once met stays met. -/
theorem metBefore_mono {member : Nat → Nat} {m i : Nat} (h : (metBefore member i).testBit m = true) :
    ∀ {j : Nat}, i ≤ j → (metBefore member j).testBit m = true := by
  intro j hij
  induction j, hij using Nat.le_induction with
  | base => exact h
  | succ j _ ih =>
    rw [metBefore]
    split
    · rw [Nat.testBit_or, ih, Bool.true_or]
    · exact ih

/-- For each slot that is valid, a member met and an earlier valid slot of the member are the same. -/
def MeetsMembers (find : Nat → Nat → Bool → PlugRef) (isPset : Bool) (b : Bytes) (o : Nat) : Prop :=
  ∀ i < getCount b o, valid find isPset (slotAt b (o + plugSize) i) = true →
    ((metBefore (getMember b o) i).testBit (getMember b o i) = true ↔
      ∃ j < i, valid find isPset (slotAt b (o + plugSize) j) = true ∧ getMember b o j = getMember b o i)

/-- The check keeps the first valid slots exactly then. -/
theorem kept_iff : kept find isPset b o = firstValid find isPset [] (slots b o) ↔ MeetsMembers find isPset b o := by
  obtain ⟨slot, hslot⟩ : ∃ slot, slot = slotAt b (o + plugSize) := ⟨_, rfl⟩
  have hmember : ∀ i, getMember b o i = (slot i).1 := fun i => by rw [hslot]; rfl
  have hfirst : firstValid find isPset [] (slots b o) =
      ((List.range (getCount b o)).filter (isFirst find isPset slot)).map slot := by
    rw [slots_eq, ← hslot, List.range_eq_range']
    exact firstValid_filter slot _ 0
  have hkeeps : ∀ i, keeps find isPset b o i = true ↔ valid find isPset (slot i) = true ∧
      (metBefore (getMember b o) i).testBit (slot i).1 = false := by
    intro i
    rw [keeps, Bool.and_eq_true, Bool.not_eq_true', hslot]
    rfl
  rw [hfirst, kept, ← hslot]
  unfold MeetsMembers
  rw [← hslot]
  simp only [hmember]
  constructor
  · intro heq
    have hmems := congrArg (List.map Prod.fst) heq
    rw [List.map_map, List.map_map] at hmems
    -- what the check keeps has different members, and all that have a valid slot
    have hnodup : (((List.range (getCount b o)).filter (keeps find isPset b o)).map fun i => (slot i).1).Nodup := by
      show (List.map (Prod.fst ∘ slot) _).Nodup
      rw [hmems]
      exact isFirst_nodup slot _
    have hkept : ∀ i < getCount b o, isFirst find isPset slot i = true → keeps find isPset b o i = true := by
      intro i hi hf
      have hmem : (slot i).1 ∈ ((List.range (getCount b o)).filter (isFirst find isPset slot)).map (Prod.fst ∘ slot) :=
        List.mem_map.mpr ⟨i, List.mem_filter.mpr ⟨List.mem_range.mpr hi, hf⟩, rfl⟩
      rw [← hmems] at hmem
      obtain ⟨k, hk, hsame⟩ := List.mem_map.mp hmem
      obtain ⟨hkn, hkk⟩ := List.mem_filter.mp hk
      have hsame : (slot k).1 = (slot i).1 := hsame
      obtain ⟨hvk, hmk⟩ := (hkeeps k).mp hkk
      obtain ⟨hvi, hfi⟩ := isFirst_iff.mp hf
      rcases Nat.lt_trichotomy k i with h | h | h
      · exact absurd hsame (hfi k h hvk)
      · exact h ▸ hkk
      · refine (hkeeps i).mpr ⟨hvi, ?_⟩
        by_contra hmet
        rw [Bool.not_eq_false] at hmet
        have := metBefore_mono hmet (Nat.le_of_lt h)
        rw [← hsame, hmk] at this
        exact Bool.false_ne_true this
    intro i hi hvi
    constructor
    · intro hmet
      by_contra hno
      have hf : isFirst find isPset slot i = true :=
        isFirst_iff.mpr ⟨hvi, fun j hj hvj hsame => hno ⟨j, hj, hvj, hsame⟩⟩
      rw [((hkeeps i).mp (hkept i hi hf)).2] at hmet
      exact Bool.false_ne_true hmet
    · intro hex
      by_contra hmet
      rw [Bool.not_eq_true] at hmet
      -- the first of the valid slots of this member
      obtain ⟨j, ⟨hj, hvj, hsame⟩, hleast⟩ := (⟨Nat.find hex, Nat.find_spec hex, fun k hk => Nat.find_min hex hk⟩ :
        ∃ j, (j < i ∧ valid find isPset (slot j) = true ∧ (slot j).1 = (slot i).1) ∧
          ∀ k < j, ¬ (k < i ∧ valid find isPset (slot k) = true ∧ (slot k).1 = (slot i).1))
      have hfj : isFirst find isPset slot j = true :=
        isFirst_iff.mpr ⟨hvj, fun k hk hvk hsk => hleast k hk ⟨by omega, hvk, hsk.trans hsame⟩⟩
      have hin : ∀ k < getCount b o, keeps find isPset b o k = true →
          k ∈ (List.range (getCount b o)).filter (keeps find isPset b o) :=
        fun k hk hkk => List.mem_filter.mpr ⟨List.mem_range.mpr hk, hkk⟩
      have hji := List.inj_on_of_nodup_map hnodup (hin j (by omega) (hkept j (by omega) hfj))
        (hin i hi ((hkeeps i).mpr ⟨hvi, hmet⟩)) hsame
      omega
  · intro h
    refine congrArg (List.map slot) (List.filter_congr fun i hi => ?_)
    rw [Bool.eq_iff_iff, hkeeps, isFirst_iff]
    refine and_congr_right fun hvi => ?_
    have hmet := h i (List.mem_range.mp hi) hvi
    constructor
    · intro hbit j hj hvj hsame
      rw [hmet.mpr ⟨j, hj, hvj, hsame⟩] at hbit
      exact Bool.false_ne_true hbit.symm
    · intro hno
      by_contra hbit
      rw [Bool.not_eq_false] at hbit
      obtain ⟨j, hj, hvj, hsame⟩ := hmet.mp hbit
      exact hno j hj hvj hsame

/-! ## The law -/

/-- Valid slots of different members can be opened. -/
theorem openLoop_some : ∀ (n i : Nat) (hint : SdhintPlug), (∀ k, i ≤ k → k < i + n →
      valid find isPset (slotAt b (o + plugSize) k) = true ∧ hint.plugMask.testBit (getMember b o k) = false ∧
        ∀ j, i ≤ j → j < k → getMember b o j ≠ getMember b o k) →
    ∃ hint', openLoop find isPset b o n i hint = some hint'
  | 0, _, hint, _ => ⟨hint, rfl⟩
  | n + 1, i, hint, h => by
    obtain ⟨hvalid, hnew, -⟩ := h i (le_refl _) (by omega)
    rw [valid, Bool.and_eq_true, decide_eq_true_eq, decide_eq_true_eq] at hvalid
    have hmem : ¬ psetStoreLast ≤ getMember b o i := Nat.not_le.mpr hvalid.1
    have hfind : ¬ find (getMember b o i) (getPid b o i) isPset = .inval := hvalid.2
    rw [openLoop, if_neg hmem, if_neg (by rw [hnew]; exact Bool.false_ne_true), if_neg hfind]
    refine openLoop_some n (i + 1) _ fun k hik hkn => ?_
    obtain ⟨hvk, hbit, hdiff⟩ := h k (by omega) (by omega)
    refine ⟨hvk, ?_, fun j hij hjk => hdiff j (by omega) hjk⟩
    rw [Nat.testBit_or, hbit, Nat.testBit_two_pow, decide_eq_false (hdiff i (le_refl _) (by omega))]
    rfl

/-- First valid slots can be opened. -/
theorem open_firstValid {b' : Bytes} {slot : Nat → Nat × Nat} {n : Nat}
    (h : slots b' o = ((List.range n).filter (isFirst find isPset slot)).map slot) :
    ∃ hint, sdextPlugOpen find isPset b' o = some hint := by
  have hget : ∀ k < getCount b' o, slotAt b' (o + plugSize) k ∈ slots b' o := fun k hk =>
    List.mem_map.mpr ⟨k, List.mem_range.mpr hk, rfl⟩
  have hnodup : ((slots b' o).map Prod.fst).Nodup := by
    rw [h, List.map_map]
    exact isFirst_nodup slot n
  rw [slots_eq, List.map_map] at hnodup
  refine openLoop_some _ 0 _ fun k _ hk => ⟨?_, Nat.zero_testBit _, fun j _ hjk hsame => ?_⟩
  · have hmem := hget k (by omega)
    rw [h] at hmem
    obtain ⟨i, hi, heq⟩ := List.mem_map.mp hmem
    rw [← heq]
    exact (isFirst_iff.mp (List.mem_filter.mp hi).2).1
  · have := List.inj_on_of_nodup_map hnodup (List.mem_range.mpr (show j < getCount b' o by omega))
      (List.mem_range.mpr (show k < getCount b' o by omega)) hsame
    omega

/-- **The check of a plugin set** is sound for an extension that it accepts exactly when it takes for met the
    members that have an earlier valid slot. -/
theorem plugCheck_iff (find : Nat → Nat → Bool → PlugRef) (isPset : Bool) (b : Bytes) (o placeLen : Nat) :
    PlugCheckSound find isPset b o placeLen ↔
      (Checked find isPset b o placeLen → MeetsMembers find isPset b o) := by
  obtain ⟨haccept, hreject⟩ := @plugCheck_spec find isPset b o placeLen
  constructor
  · intro hsound hchk
    obtain ⟨b', hrun, hslots, -⟩ := haccept hchk
    rw [← kept_iff, ← hslots]
    exact (hsound b' _ hrun).1
  · intro h b' len' hrun
    by_cases hchk : Checked find isPset b o placeLen
    · obtain ⟨b1, hrun1, hslots, -⟩ := haccept hchk
      obtain ⟨rfl, rfl⟩ := Prod.mk.inj (Option.some.inj (hrun1.symm.trans hrun))
      have hfirst := kept_iff.mpr (h hchk)
      refine ⟨hslots.trans hfirst, by rw [hslots], ?_⟩
      have hfilter := @firstValid_filter find isPset (slotAt b (o + plugSize)) (getCount b o) 0
      rw [← List.range_eq_range'] at hfilter
      exact open_firstValid ((hslots.trans hfirst).trans hfilter)
    · rw [hreject hchk] at hrun
      cases hrun

/-- A bit of the mask is that of an earlier slot of a known member, whose own bit was not set. -/
theorem metBefore_bit {member : Nat → Nat} {m : Nat} : ∀ {i : Nat}, (metBefore member i).testBit m = true ↔
    m < i ∧ member m < psetStoreLast ∧ (metBefore member m).testBit (member m) = false
  | 0 => by simp [metBefore]
  | i + 1 => by
    have ih := @metBefore_bit member m i
    rw [metBefore]
    by_cases hset : member i < psetStoreLast ∧ (metBefore member i).testBit (member i) = false
    · rw [if_pos hset, Nat.testBit_or, Bool.or_eq_true, ih, Nat.testBit_two_pow, decide_eq_true_eq]
      constructor
      · rintro (⟨hlt, hm⟩ | rfl)
        · exact ⟨by omega, hm⟩
        · exact ⟨by omega, hset⟩
      · rintro ⟨hlt, hm⟩
        rcases Nat.lt_succ_iff_lt_or_eq.mp hlt with hlt | rfl
        · exact Or.inl ⟨hlt, hm⟩
        · exact Or.inr rfl
    · rw [if_neg hset, ih]
      constructor
      · exact fun h => ⟨by omega, h.2⟩
      · rintro ⟨hlt, hm⟩
        rcases Nat.lt_succ_iff_lt_or_eq.mp hlt with hlt | rfl
        · exact ⟨hlt, hm⟩
        · exact absurd hm hset

/-- There is an earlier valid slot of the same member. -/
def ValidBefore (find : Nat → Nat → Bool → PlugRef) (isPset : Bool) (b : Bytes) (o i : Nat) : Prop :=
  ∃ j < i, valid find isPset (slotAt b (o + plugSize) j) = true ∧ getMember b o j = getMember b o i

instance (i : Nat) : Decidable (ValidBefore find isPset b o i) :=
  inferInstanceAs (Decidable (∃ j < i, _ ∧ _))

/-- The slot whose number is a valid slot's member tells whether the member was met: where there is an earlier
    valid slot of the member, it is an earlier slot of a known member that is not below its own number; and
    where there is none, it is no earlier slot, or one of an unknown member. -/
def MembersTold (find : Nat → Nat → Bool → PlugRef) (isPset : Bool) (b : Bytes) (o : Nat) : Prop :=
  ∀ i < getCount b o, valid find isPset (slotAt b (o + plugSize) i) = true →
    if ValidBefore find isPset b o i then
      getMember b o i < i ∧ getMember b o i ≤ getMember b o (getMember b o i) ∧
        getMember b o (getMember b o i) < psetStoreLast
    else i ≤ getMember b o i ∨ psetStoreLast ≤ getMember b o (getMember b o i)

theorem MembersTold.meets (h : MembersTold find isPset b o) : MeetsMembers find isPset b o := by
  intro i hi hv
  have htold := h i hi hv
  rw [metBefore_bit]
  constructor
  · rintro ⟨hlt, hknown, -⟩
    by_contra hno
    rw [if_neg (show ¬ ValidBefore find isPset b o i from hno)] at htold
    omega
  · intro hex
    rw [if_pos (show ValidBefore find isPset b o i from hex)] at htold
    obtain ⟨hlt, hge, hknown⟩ := htold
    refine ⟨hlt, hknown, ?_⟩
    -- the bits set in front of a slot are below its number
    rw [← Bool.not_eq_true, metBefore_bit]
    omega

/-- **The check of a plugin set** is sound where the members are told by the slots of their numbers. -/
theorem plugCheck_sound (find : Nat → Nat → Bool → PlugRef) (isPset : Bool) (b : Bytes) (o placeLen : Nat)
    (h : getCount b o ≤ psetStoreLast → o + plugSize + slotSize * getCount b o ≤ placeLen →
      MembersTold find isPset b o) : PlugCheckSound find isPset b o placeLen :=
  (plugCheck_iff find isPset b o placeLen).mpr fun hchk => (h hchk.count_le hchk.inside).meets

/-- Four slots, of the members 0, 5 and 0 again, and of member 7 with an id that is none. -/
theorem plugCheck_fourSlots : PlugCheckSound (fun _ id _ => if id < 5 then .plug id else .inval) true
    (Bytes.zero.putStr 0 [4, 0, 0, 0, 1, 0, 5, 0, 2, 0, 0, 0, 3, 0, 7, 0, 9, 0]) 0 18 := by
  refine plugCheck_sound _ _ _ _ _ fun _ _ => ?_
  have hcount : getCount (Bytes.zero.putStr 0 [4, 0, 0, 0, 1, 0, 5, 0, 2, 0, 0, 0, 3, 0, 7, 0, 9, 0]) 0 = 4 := by
    decide +kernel
  unfold MembersTold
  rw [hcount]
  decide +kernel

/-- Two slots of member 5: the bit of slot 0 is set for the first, so the second is not found broken. -/
theorem plugCheck_duplicate : ¬ PlugCheckSound (fun _ id _ => if id < 5 then .plug id else .inval) true
    (Bytes.zero.putStr 0 [2, 0, 5, 0, 0, 0, 5, 0, 1, 0]) 0 10 := by
  intro hsound
  have hrun : (sdextPlugCheckStruct (fun _ id _ => if id < 5 then .plug id else .inval) true .build
      (Bytes.zero.putStr 0 [2, 0, 5, 0, 0, 0, 5, 0, 1, 0]) 0 10 0).map (fun r => (slots r.1 0, r.2)) =
      some ([(5, 0), (5, 1)], 0) := by decide +kernel
  obtain ⟨⟨b', len'⟩, hb', heq⟩ := Option.map_eq_some_iff.mp hrun
  have hslots := (hsound b' len' hb').1
  rw [(Prod.mk.inj heq).1] at hslots
  revert hslots
  decide +kernel

end Check

end Reiser4.Stat40
