/-
  The plugin set of an object on disk and back (`pset.c`, `sdext_plug.c`).

  Of the members of an object's set only those are stored that differ from the set of the tree, and the object
  plugin.  As long as no object exists the tree has no set, and all members are stored but the directory plugin.
  At the opening the members that are not stored come from the set of the tree, or, without one, from the profile.

  A slot of a set is one pointer, to a plugin or with the value of a parameter in it; `NULL` is the parameter 0.

    1. `psetBuildMask_testBit`   which members are stored;
    2. `initLoop_spec`           the slots written, one behind the other;
    3. `openLoop_spec`           the slots read back;
    4. `psetRoundTrip`           the members after the completion are those of the object.
-/
import Mathlib.Data.Nat.Bitwise
import Mathlib.Tactic.IntervalCases
import Reiser4.Object.Factory
import Reiser4.Stat40.PlugSet

namespace Reiser4.Stat40

open Reiser4.Lib Reiser4.Repair Reiser4.Object

/-! ## Plugin sets -/

/-- The members of a set that the code names, and how many members there are. -/
def psetObj : Nat := 0x0
def psetDir : Nat := 0x1
def psetHash : Nat := 0x4
def psetLast : Nat := psetStoreLast + 3

/-- `pset_prof`: the slots of the profile, by member. -/
def psetProf : List Nat :=
  [0x0, 0x1, 0x15, 0x14, 0x12, 0x13, 0x16, 0x17, 0xf, 0x10, 0xd, 0xe, 0x11, 0x6, 0x19, 0x1a, 0x1b]

/-- `hset_prof`. -/
def hsetProf : List Nat :=
  [profLast, profLast, profLast, profLast, 0x1c, 0x1d, profLast, 0x1e, profLast, profLast, profLast, profLast,
    profLast, profLast]

/-- `PSET_UNUSED` and `HSET_UNUSED`. -/
def psetUnused : Nat := 0
def hsetUnused : Nat := 0

/-- `pset_plugin_unused` and `hset_plugin_unused`. -/
def psetPluginUnused (id : Nat) : Bool := psetUnused.testBit id
def hsetPluginUnused (id : Nat) : Bool := hsetUnused.testBit id

@[simp] theorem psetPluginUnused_eq (id : Nat) : psetPluginUnused id = false := Nat.zero_testBit id

/-- The slot as a pointer: the parameter 0 is `NULL`. -/
def PlugRef.pointer : PlugRef → PlugRef
  | .param 0 => .null
  | ref => ref

/-- The slot as an `unsigned long`. -/
def PlugRef.value : PlugRef → Nat
  | .null => 0
  | .inval => 2 ^ 64 - 1
  | .param value => value
  | .plug ptr => ptr

/-- What of `tree_entity_t` is about plugin sets: the default set of the file system. -/
structure TreePset where
  pset : Nat → PlugRef

/-- What of `object_info_t` is about plugin sets; `reiser4_pset_t` is `sdhint_plug_t`. -/
structure ObjectInfo where
  pset : SdhintPlug
  hset : SdhintPlug

section Program

variable (img : Image) (prof : Profile)

/-- The slot of the profile for a member. -/
def psetSlot (mem : Nat) : ProfileSlot := prof.pid (psetProf.getD mem profLast)

/-- The loop of `reiser4_tset_init` that collects the members with parameters: `n` members from `i` on. -/
def paramMaskLoop : Nat → Nat → Nat → Nat
  | 0, _, mask => mask
  | n + 1, i, mask =>
    paramMaskLoop n (i + 1) (if (psetSlot prof i).id.type = paramPlugType then mask ||| 2 ^ i else mask)

/-- `tree->ent.param_mask`. -/
def paramMask : Nat := paramMaskLoop prof psetLast 0 0

/-- `reiser4_profile_plug`; without such a plugin there is a complaint. -/
def profilePlug (slot : Nat) : PlugRef :=
  match img.factoryIfind (prof.pid slot).id.type (prof.pid slot).id.id with
  | some a => .plug a
  | none => .null

/-- `reiser4_pset_plug`, which is `reiser4_pset_find` for a plugin set. -/
def psetPlug (member id : Nat) : PlugRef :=
  if psetPluginUnused member then .inval
  else if (psetSlot prof member).id.type = paramPlugType then
    if id < (psetSlot prof member).max then .null else .inval
  else
    match img.factoryIfind (psetSlot prof member).id.type id with
    | some a => .plug a
    | none => .inval

/-- `pset_tree_isready`. -/
def psetTreeIsready (tree : TreePset) : Bool := (tree.pset psetHash).pointer != .null

/-- A loop over the members of a set that fills slots: `n` members from `i` on. -/
def fillLoop (skip : Nat → Bool) (fill : Nat → PlugRef) : Nat → Nat → (Nat → PlugRef) → Nat → PlugRef
  | 0, _, plug => plug
  | n + 1, i, plug => fillLoop skip fill n (i + 1) (if skip i then plug else Function.update plug i (fill i))

/-- The loop of `reiser4_pset_root` over the heir set: `n` members from `i` on. -/
def heirLoop : Nat → Nat → SdhintPlug → SdhintPlug
  | 0, _, hset => hset
  | n + 1, i, hset =>
    let slot := hsetProf.getD i profLast
    if ¬ prof.mask.testBit slot ∨ hsetPluginUnused i then heirLoop n (i + 1) hset
    else heirLoop n (i + 1) ⟨hset.plugMask ||| 2 ^ i, Function.update hset.plug i (profilePlug img prof slot)⟩

/-- `reiser4_pset_root`. -/
def psetRoot (info : ObjectInfo) : ObjectInfo :=
  { pset := { info.pset with
      plug := fillLoop (fun i => info.pset.plugMask.testBit i || psetPluginUnused i)
        (fun i =>
          -- the root is a directory
          if i = psetObj then profilePlug img prof profDirfile
          else if (psetSlot prof i).id.type = paramPlugType then .param (psetSlot prof i).id.id
          else profilePlug img prof (psetProf.getD i profLast))
        psetLast 0 info.pset.plug }
    hset := heirLoop img prof psetStoreLast 0 info.hset }

/-- `reiser4_pset_complete`. -/
def psetComplete (tree : TreePset) (info : ObjectInfo) : ObjectInfo :=
  if psetTreeIsready tree then
    { info with pset := { info.pset with
        plug := fillLoop info.pset.plugMask.testBit tree.pset psetLast 0 info.pset.plug } }
  else psetRoot img prof info

/-- `mask & ~bits`, of a 64-bit mask. -/
def without (mask bits : Nat) : Nat := mask &&& (2 ^ 64 - (bits + 1))

/-- The loop of `reiser4_pset_build_mask`: `n` members from `i` on. -/
def buildMaskLoop (tree : TreePset) (plug : Nat → PlugRef) : Nat → Nat → Nat → Nat
  | 0, _, mask => mask
  | n + 1, i, mask =>
    if psetPluginUnused i then buildMaskLoop tree plug n (i + 1) mask
    else if (tree.pset i).pointer ≠ (plug i).pointer then buildMaskLoop tree plug n (i + 1) (mask ||| 2 ^ i)
    else buildMaskLoop tree plug n (i + 1) (without mask (2 ^ i))

/-- `reiser4_pset_build_mask`. -/
def psetBuildMask (tree : TreePset) (plug : Nat → PlugRef) : Nat :=
  if psetTreeIsready tree then buildMaskLoop tree plug psetStoreLast 0 0 ||| 2 ^ psetObj
  else without (2 ^ psetStoreLast - 1) (2 ^ psetDir ||| psetUnused)

/-- The loop of `sdext_plug_length` over the bits of a mask; 64 rounds are enough. -/
def countLoop : Nat → Nat → Nat → Nat
  | 0, _, count => count
  | n + 1, mask, count =>
    if mask = 0 then count else countLoop n (mask / 2) (if mask.testBit 0 then count + 1 else count)

/-- `sdext_plug_length` of a hint. -/
def sdextPlugHintLength (hint : SdhintPlug) : Nat := slotsLength (countLoop 64 hint.plugMask 0)

/-- The id that `sdext_plug_init` writes for a member; there is none behind a pointer that is no plugin. -/
def slotId (paramMask : Nat) (plug : Nat → PlugRef) (mem : Nat) : Option Nat :=
  if paramMask.testBit mem then some (plug mem).value
  else
    match plug mem with
    | .plug a => some (img.plugAt a).id.id
    | _ => none

/-- The loop of `sdext_plug_init`: `n` members from `mem` on, with `count` slots in front.  No result is an access
    through a pointer that is no plugin. -/
def initLoop (paramMask : Nat) (hint : SdhintPlug) (o : Nat) : Nat → Nat → Nat → Bytes → Option (Bytes × Nat)
  | 0, _, count, b => some (b, count)
  | n + 1, mem, count, b =>
    if ¬ hint.plugMask.testBit mem then initLoop paramMask hint o n (mem + 1) count b
    else
      match slotId img paramMask hint.plug mem with
      | none => none
      | some id =>
        initLoop paramMask hint o n (mem + 1) (count + 1) (setPid (setMember b o count mem) o count id)

/-- `sdext_plug_init`, of an extension at offset `o`. -/
def sdextPlugInit (paramMask : Nat) (hint : SdhintPlug) (b : Bytes) (o : Nat) : Option Bytes :=
  (initLoop img paramMask hint o psetStoreLast 0 0 b).map fun r => setCount r.1 o r.2

/-- What a member's slot can hold: a parameter in its range, or a plugin that the factory finds for the member. -/
def Accepted (mem : Nat) (ref : PlugRef) : Prop :=
  if (psetSlot prof mem).id.type = paramPlugType then
    ∃ value, value < (psetSlot prof mem).max ∧ ref.pointer = (PlugRef.param value).pointer
  else ∃ id a, img.factoryIfind (psetSlot prof mem).id.type id = some a ∧ ref = .plug a

end Program

/-! ## The masks -/

theorem without_testBit {mask bits : Nat} (hmask : mask < 2 ^ 64) (hbits : bits < 2 ^ 64) (k : Nat) :
    (without mask bits).testBit k = (mask.testBit k && !bits.testBit k) := by
  rw [without, Nat.testBit_and, Nat.testBit_two_pow_sub_succ hbits]
  by_cases hk : k < 64
  · rw [decide_eq_true hk, Bool.true_and]
  · have hhigh : mask.testBit k = false :=
      Nat.testBit_lt_two_pow (Nat.lt_of_lt_of_le hmask (Nat.pow_le_pow_right (by decide) (Nat.le_of_not_lt hk)))
    rw [hhigh, Bool.false_and, Bool.false_and]

theorem without_lt {mask bits n : Nat} (h : mask < 2 ^ n) : without mask bits < 2 ^ n :=
  Nat.lt_of_le_of_lt Nat.and_le_left h

/-- The members that the loop of `reiser4_pset_build_mask` has gone over have their bit where they differ. -/
theorem buildMaskLoop_testBit (tree : TreePset) (plug : Nat → PlugRef) : ∀ (n i mask : Nat), i + n ≤ 64 →
    mask < 2 ^ 64 → ∀ k, (buildMaskLoop tree plug n i mask).testBit k =
      if i ≤ k ∧ k < i + n then decide ((tree.pset k).pointer ≠ (plug k).pointer) else mask.testBit k
  | 0, i, mask, _, _, k => by
    rw [if_neg (by omega)]
    rfl
  | n + 1, i, mask, hn, hmask, k => by
    have hbit : (2 : Nat) ^ i < 2 ^ 64 := Nat.pow_lt_pow_right (by decide) (by omega)
    rw [buildMaskLoop, psetPluginUnused_eq, if_neg Bool.false_ne_true]
    by_cases hdiff : (tree.pset i).pointer ≠ (plug i).pointer
    · rw [if_pos hdiff, buildMaskLoop_testBit tree plug n (i + 1) _ (by omega) (Nat.or_lt_two_pow hmask hbit)]
      by_cases hk : k = i
      · rw [hk, if_neg (by omega), if_pos (by omega), decide_eq_true hdiff, Nat.testBit_or, Nat.testBit_two_pow_self,
          Bool.or_true]
      · rw [Nat.testBit_or, Nat.testBit_two_pow_of_ne (Ne.symm hk), Bool.or_false]
        exact if_congr (by omega) rfl rfl
    · rw [if_neg hdiff, buildMaskLoop_testBit tree plug n (i + 1) _ (by omega) (without_lt hmask)]
      by_cases hk : k = i
      · rw [hk, if_neg (by omega), if_pos (by omega), decide_eq_false hdiff, without_testBit hmask hbit,
          Nat.testBit_two_pow_self, Bool.not_true, Bool.and_false]
      · rw [without_testBit hmask hbit, Nat.testBit_two_pow_of_ne (Ne.symm hk), Bool.not_false, Bool.and_true]
        exact if_congr (by omega) rfl rfl

/-- **The members that are stored**: with a set of the tree, the object plugin and what differs from that set;
    without one, all but the directory plugin. -/
theorem psetBuildMask_testBit (tree : TreePset) (plug : Nat → PlugRef) (k : Nat) :
    (psetBuildMask tree plug).testBit k = true ↔ k < psetStoreLast ∧
      if psetTreeIsready tree then k = psetObj ∨ (tree.pset k).pointer ≠ (plug k).pointer else k ≠ psetDir := by
  rw [psetBuildMask]
  by_cases hready : psetTreeIsready tree = true
  · rw [if_pos hready, if_pos hready, Nat.testBit_or, buildMaskLoop_testBit tree plug _ 0 0 (by decide) (by decide),
      Nat.testBit_two_pow, Bool.or_eq_true, decide_eq_true_eq, Nat.zero_add]
    by_cases hk : k < psetStoreLast
    · rw [if_pos ⟨Nat.zero_le k, hk⟩, decide_eq_true_eq, and_iff_right hk, or_comm, eq_comm]
    · rw [if_neg (fun h => hk h.2), Nat.zero_testBit]
      constructor
      · rintro (h | h)
        · exact absurd h Bool.false_ne_true
        · exact absurd (show k < psetStoreLast by rw [← h]; decide) hk
      · intro h
        exact absurd h.1 hk
  · rw [if_neg hready, if_neg hready, without_testBit (by decide) (by decide), Bool.and_eq_true,
      Nat.testBit_two_pow_sub_one, decide_eq_true_eq, Bool.not_eq_true',
      show 2 ^ psetDir ||| psetUnused = 2 ^ psetDir from rfl, Nat.testBit_two_pow, decide_eq_false_iff_not, eq_comm]

/-- The members with parameters have their bit in the mask of the tree. -/
theorem paramMaskLoop_testBit (prof : Profile) : ∀ (n i mask k : Nat), (paramMaskLoop prof n i mask).testBit k =
    if i ≤ k ∧ k < i + n then mask.testBit k || decide ((psetSlot prof k).id.type = paramPlugType) else mask.testBit k
  | 0, i, mask, k => by
    rw [if_neg (by omega)]
    rfl
  | n + 1, i, mask, k => by
    rw [paramMaskLoop, paramMaskLoop_testBit prof n (i + 1)]
    by_cases hk : k = i
    · rw [hk, if_neg (show ¬(i + 1 ≤ i ∧ i < i + 1 + n) by omega), if_pos (show i ≤ i ∧ i < i + (n + 1) by omega)]
      by_cases hparam : (psetSlot prof i).id.type = paramPlugType
      · rw [if_pos hparam, Nat.testBit_or, Nat.testBit_two_pow_self, decide_eq_true hparam]
      · rw [if_neg hparam, decide_eq_false hparam, Bool.or_false]
    · have hsame : (if (psetSlot prof i).id.type = paramPlugType then mask ||| 2 ^ i else mask).testBit k =
          mask.testBit k := by
        by_cases hparam : (psetSlot prof i).id.type = paramPlugType
        · rw [if_pos hparam, Nat.testBit_or, Nat.testBit_two_pow_of_ne (Ne.symm hk), Bool.or_false]
        · rw [if_neg hparam]
      rw [hsame]
      exact if_congr (by omega) rfl rfl

theorem paramMask_testBit {prof : Profile} {k : Nat} (hk : k < psetLast) :
    (paramMask prof).testBit k = decide ((psetSlot prof k).id.type = paramPlugType) := by
  rw [paramMask, paramMaskLoop_testBit, if_pos ⟨Nat.zero_le k, by omega⟩, Nat.zero_testBit, Bool.false_or]

/-- A parameter of a stored member fits into a slot. -/
theorem psetSlot_max (prof : Profile) : ∀ mem < psetStoreLast, (psetSlot prof mem).id.type = paramPlugType →
    (psetSlot prof mem).max = 1 := by
  show ∀ mem < psetStoreLast, (defprofPid.getD (psetProf.getD mem profLast) ⟨⟨0, 0, lastPlugType⟩, 0⟩).id.type =
    paramPlugType → (defprofPid.getD (psetProf.getD mem profLast) ⟨⟨0, 0, lastPlugType⟩, 0⟩).max = 1
  decide

/-! ## The length -/

/-- The members from `mem` on that a mask names. -/
def membersOf (mask mem n : Nat) : List Nat := (List.range' mem n).filter mask.testBit

theorem membersOf_succ (mask mem n : Nat) : membersOf mask mem (n + 1) =
    if mask.testBit mem then mem :: membersOf mask (mem + 1) n else membersOf mask (mem + 1) n := by
  rw [membersOf, List.range'_succ, List.filter_cons]
  rfl

theorem mem_membersOf {mask mem n k : Nat} : k ∈ membersOf mask mem n ↔ (mem ≤ k ∧ k < mem + n) ∧ mask.testBit k = true := by
  rw [membersOf, List.mem_filter, List.mem_range'_1]

theorem membersOf_nodup (mask mem n : Nat) : (membersOf mask mem n).Nodup := (List.nodup_range' (n := n)).filter _

/-- Half a mask names the members one lower. -/
theorem membersOf_half (mask : Nat) : ∀ n mem, (membersOf (mask / 2) mem n).length = (membersOf mask (mem + 1) n).length
  | 0, _ => rfl
  | n + 1, mem => by
    rw [membersOf_succ, membersOf_succ, Nat.testBit_succ]
    by_cases hbit : (mask / 2).testBit mem = true
    · rw [if_pos hbit, if_pos hbit, List.length_cons, List.length_cons, membersOf_half mask n (mem + 1)]
    · rw [if_neg hbit, if_neg hbit, membersOf_half mask n (mem + 1)]

/-- The loop counts the bits. -/
theorem countLoop_eq : ∀ (n mask count : Nat), countLoop n mask count = count + (membersOf mask 0 n).length
  | 0, _, _ => rfl
  | n + 1, mask, count => by
    rw [countLoop, membersOf_succ]
    by_cases hzero : mask = 0
    · have hnone : membersOf mask 0 (n + 1) = [] := by
        rw [membersOf, hzero]
        exact List.filter_eq_nil_iff.mpr fun k _ => by rw [Nat.zero_testBit]; exact Bool.false_ne_true
      rw [membersOf_succ] at hnone
      rw [if_pos hzero, hnone]
      rfl
    · rw [if_neg hzero, countLoop_eq n, membersOf_half]
      by_cases hbit : mask.testBit 0 = true
      · rw [if_pos hbit, if_pos hbit, List.length_cons]
        omega
      · rw [if_neg hbit, if_neg hbit]

/-- A mask of members that can be stored has no others to count. -/
theorem membersOf_stored {mask : Nat} (h : ∀ k, mask.testBit k = true → k < psetStoreLast) :
    ∀ n, psetStoreLast ≤ n → (membersOf mask 0 n).length = (membersOf mask 0 psetStoreLast).length := by
  intro n hn
  have hnone : membersOf mask psetStoreLast (n - psetStoreLast) = [] := by
    refine List.filter_eq_nil_iff.mpr fun k hk hbit => ?_
    have := h k hbit
    have := (List.mem_range'_1.mp hk).1
    omega
  have hsplit : membersOf mask 0 n = membersOf mask 0 psetStoreLast ++ membersOf mask psetStoreLast (n - psetStoreLast) := by
    rw [membersOf, membersOf, membersOf, ← List.filter_append]
    have happend := @List.range'_append_1 0 psetStoreLast (n - psetStoreLast)
    rw [Nat.zero_add, Nat.add_sub_cancel' hn] at happend
    rw [happend]
  rw [hsplit, hnone, List.append_nil]

/-! ## The slots written and read -/

section Slots

variable {img : Image} {paramMask : Nat} {hint : SdhintPlug} {o : Nat}

/-- Writing a slot leaves what is in front of it. -/
theorem setSlot_out (b : Bytes) (o n mem id i : Nat)
    (h : i < o + plugSize + slotSize * n ∨ o + plugSize + slotSize * (n + 1) ≤ i) :
    setPid (setMember b o n mem) o n id i = b i := by
  unfold setPid setMember plugSize slotSize at *
  rw [Bytes.setLe_out _ _ _ _ _ (by omega), Bytes.setLe_out _ _ _ _ _ (by omega)]

/-- A slot read as it was written. -/
theorem slotAt_setSlot (b : Bytes) (o n mem id : Nat) (hmem : mem < 2 ^ 16) (hid : id < 2 ^ 16) :
    slotAt (setPid (setMember b o n mem) o n id) (o + plugSize) n = (mem, id) := by
  unfold slotAt setPid setMember
  rw [Bytes.getLe_setLe_of_lt _ _ _ _ hid, Bytes.getLe_setLe_disj _ _ _ _ _ _ (by omega),
    Bytes.getLe_setLe_of_lt _ _ _ _ hmem]

/-- **The slots written**: those of the members that the mask names, one behind the other, and nothing else. -/
theorem initLoop_spec {idOf : Nat → Nat} : ∀ (n mem count : Nat) (b : Bytes), mem + n ≤ psetStoreLast →
    (∀ k, hint.plugMask.testBit k = true → slotId img paramMask hint.plug k = some (idOf k) ∧ idOf k < 2 ^ 16) →
    ∃ b', initLoop img paramMask hint o n mem count b =
        some (b', count + (membersOf hint.plugMask mem n).length) ∧
      (∀ i, i < o + plugSize + slotSize * count ∨
        o + plugSize + slotSize * (count + (membersOf hint.plugMask mem n).length) ≤ i → b' i = b i) ∧
      ∀ k (hk : k < (membersOf hint.plugMask mem n).length), slotAt b' (o + plugSize) (count + k) =
        ((membersOf hint.plugMask mem n)[k], idOf (membersOf hint.plugMask mem n)[k])
  | 0, mem, count, b, _, _ => ⟨b, rfl, fun _ _ => rfl, fun k hk => absurd hk (Nat.not_lt_zero k)⟩
  | n + 1, mem, count, b, hn, hid => by
    rw [initLoop]
    by_cases hbit : hint.plugMask.testBit mem = true
    · obtain ⟨hslot, hsmall⟩ := hid mem hbit
      have hmem : mem < 2 ^ 16 := by
        unfold psetStoreLast at hn
        omega
      have hnamed : membersOf hint.plugMask mem (n + 1) = mem :: membersOf hint.plugMask (mem + 1) n := by
        rw [membersOf_succ, if_pos hbit]
      rw [if_neg (not_not_intro hbit), hslot, hnamed]
      dsimp only
      obtain ⟨b', hrun, hout, hin⟩ := initLoop_spec n (mem + 1) (count + 1)
        (setPid (setMember b o count mem) o count (idOf mem)) (by omega) hid
      refine ⟨b', by rw [hrun, List.length_cons, Nat.add_assoc, Nat.add_comm 1], fun i hi => ?_, fun k hk => ?_⟩
      · have hslots : slotSize * count ≤ slotSize * (count + 1) := Nat.mul_le_mul_left _ (Nat.le_succ count)
        have hlater : slotSize * (count + 1) ≤ slotSize * (count + 1 + (membersOf hint.plugMask (mem + 1) n).length) :=
          Nat.mul_le_mul_left _ (Nat.le_add_right _ _)
        rw [List.length_cons, show count + ((membersOf hint.plugMask (mem + 1) n).length + 1) =
          count + 1 + (membersOf hint.plugMask (mem + 1) n).length by omega] at hi
        rw [hout i (by omega), setSlot_out _ _ _ _ _ _ (by omega)]
      · match k, hk with
        | 0, _ =>
          have hkeep : slotAt b' (o + plugSize) count =
              slotAt (setPid (setMember b o count mem) o count (idOf mem)) (o + plugSize) count := by
            refine slotAt_congr fun j hj => hout _ (Or.inl ?_)
            unfold slotSize at *
            omega
          exact hkeep.trans (slotAt_setSlot b o count mem (idOf mem) hmem hsmall)
        | k + 1, hk =>
          rw [show count + (k + 1) = count + 1 + k by omega]
          exact hin k (Nat.lt_of_succ_lt_succ hk)
    · rw [if_pos hbit, membersOf_succ, if_neg hbit]
      exact initLoop_spec n (mem + 1) count b (by omega) hid

end Slots

/-- **The slots read**: slots of different new members with ids that are found leave the members and what was
    found for them in the hint. -/
theorem openLoop_spec {find : Nat → Nat → Bool → PlugRef} {isPset : Bool} {b : Bytes} {o : Nat} {idOf : Nat → Nat} :
    ∀ (members : List Nat) (i : Nat) (hint : SdhintPlug), members.Nodup →
    (∀ m ∈ members, m < psetStoreLast ∧ hint.plugMask.testBit m = false ∧ find m (idOf m) isPset ≠ .inval) →
    (∀ k (hk : k < members.length), slotAt b (o + plugSize) (i + k) = (members[k], idOf members[k])) →
    ∃ hint', openLoop find isPset b o members.length i hint = some hint' ∧
      (∀ k, hint'.plugMask.testBit k = (hint.plugMask.testBit k || decide (k ∈ members))) ∧
      ∀ k, hint'.plug k =
        if k ∈ members then if find k (idOf k) isPset = .null then .param (idOf k) else find k (idOf k) isPset
        else hint.plug k
  | [], i, hint, _, _, _ => ⟨hint, rfl, fun k => (Bool.or_false _).symm, fun k => (if_neg List.not_mem_nil).symm⟩
  | m :: rest, i, hint, hnodup, hok, hslots => by
    obtain ⟨hmem, hnew, hfind⟩ := hok m (List.mem_cons_self ..)
    obtain ⟨hnotin, hrest⟩ := List.nodup_cons.mp hnodup
    have hslot : slotAt b (o + plugSize) i = (m, idOf m) := hslots 0 (Nat.zero_lt_succ _)
    have hgetMember : getMember b o i = m := congrArg Prod.fst hslot
    have hgetPid : getPid b o i = idOf m := congrArg Prod.snd hslot
    rw [List.length_cons, openLoop, hgetMember, hgetPid]
    dsimp only
    rw [if_neg (Nat.not_le.mpr hmem), if_neg (by rw [hnew]; exact Bool.false_ne_true), if_neg hfind]
    obtain ⟨hint', hrun, hmask, hplug⟩ := openLoop_spec rest (i + 1)
      { plugMask := hint.plugMask ||| 2 ^ m,
        plug := Function.update hint.plug m
          (if find m (idOf m) isPset = .null then .param (idOf m) else find m (idOf m) isPset) } hrest
      (fun k hk => by
        obtain ⟨hk1, hk2, hk3⟩ := hok k (List.mem_cons_of_mem _ hk)
        refine ⟨hk1, ?_, hk3⟩
        have hne : m ≠ k := fun h => hnotin (h ▸ hk)
        rw [Nat.testBit_or, hk2, Nat.testBit_two_pow_of_ne hne]
        rfl)
      (fun k hk => by
        rw [show i + 1 + k = i + (k + 1) by omega]
        exact hslots (k + 1) (Nat.succ_lt_succ hk))
    refine ⟨hint', hrun, fun k => ?_, fun k => ?_⟩
    · rw [hmask, Nat.testBit_or, Nat.testBit_two_pow, Bool.or_assoc, ← Bool.decide_or]
      refine congrArg (hint.plugMask.testBit k || ·) (decide_eq_decide.mpr ?_)
      rw [List.mem_cons, eq_comm]
    · rw [hplug]
      by_cases hk : k = m
      · rw [hk, if_neg hnotin, if_pos (List.mem_cons_self ..)]
        exact Function.update_self ..
      · have hcons : k ∈ m :: rest ↔ k ∈ rest := by
          rw [List.mem_cons, or_iff_right hk]
        rw [if_congr hcons rfl rfl]
        exact if_congr Iff.rfl rfl (Function.update_of_ne hk _ _)

/-- What the loops over the members fill in. -/
theorem fillLoop_eq (skip : Nat → Bool) (fill : Nat → PlugRef) : ∀ (n i : Nat) (plug : Nat → PlugRef) (k : Nat),
    fillLoop skip fill n i plug k = if (i ≤ k ∧ k < i + n) ∧ skip k = false then fill k else plug k
  | 0, i, plug, k => by
    rw [if_neg (by omega)]
    rfl
  | n + 1, i, plug, k => by
    rw [fillLoop, fillLoop_eq skip fill n (i + 1)]
    by_cases hk : k = i
    · rw [hk, if_neg (fun h => absurd h.1.1 (Nat.not_succ_le_self i))]
      by_cases hskip : skip i = true
      · rw [if_pos hskip, if_neg (fun h => absurd (hskip.symm.trans h.2) (by decide))]
      · rw [if_neg hskip, if_pos ⟨by omega, Bool.eq_false_iff.mpr hskip⟩]
        exact Function.update_self ..
    · have hsame : (if skip i = true then plug else Function.update plug i (fill i)) k = plug k := by
        by_cases hskip : skip i = true
        · rw [if_pos hskip]
        · rw [if_neg hskip]
          exact Function.update_of_ne hk _ _
      rw [hsame]
      exact if_congr (and_congr_left' (by omega)) rfl rfl

/-! ## The round trip -/

section RoundTrip

variable (img : Image) (prof : Profile)

/-- The plugin set of an object comes back: the hint of the members that the mask chooses is written, in the space
    that its length gives; the extension has that length and is read into a set of these members; and the
    completed set has them all as the object's set does. -/
def RoundTrip (tree : TreePset) (plug : Nat → PlugRef) (b : Bytes) (o : Nat) : Prop :=
  let mask := psetBuildMask tree plug
  ∃ b' hint, sdextPlugInit img (paramMask prof) ⟨mask, plug⟩ b o = some b' ∧
    (∀ i, i < o ∨ o + sdextPlugHintLength ⟨mask, plug⟩ ≤ i → b' i = b i) ∧
    sdextPlugLength b' o = sdextPlugHintLength ⟨mask, plug⟩ ∧
    sdextPlugOpen (fun mem id _ => psetPlug img prof mem id) true b' o = some hint ∧
    hint.plugMask = mask ∧
    ∀ hset m, mask.testBit m = true →
      ((psetComplete img prof tree ⟨hint, hset⟩).pset.plug m).pointer = (plug m).pointer

variable {img prof}

/-- The id that stands for what a slot holds, and what is found under it. -/
theorem Accepted.slotId {mem : Nat} {plug : Nat → PlugRef} (hmem : mem < psetStoreLast)
    (h : Accepted img prof mem (plug mem)) : ∃ id, slotId img (paramMask prof) plug mem = some id ∧ id < 2 ^ 16 ∧
      psetPlug img prof mem id ≠ .inval ∧
      (if psetPlug img prof mem id = .null then PlugRef.param id else psetPlug img prof mem id).pointer =
        (plug mem).pointer := by
  have hbit : (paramMask prof).testBit mem = decide ((psetSlot prof mem).id.type = paramPlugType) :=
    paramMask_testBit (Nat.lt_of_lt_of_le hmem (Nat.le_add_right _ _))
  rw [Stat40.slotId, hbit]
  unfold Accepted at h
  by_cases hparam : (psetSlot prof mem).id.type = paramPlugType
  · rw [if_pos hparam] at h
    obtain ⟨value, hmax, hsame⟩ := h
    rw [psetSlot_max prof mem hmem hparam] at hmax
    obtain rfl : value = 0 := by omega
    have hfind : psetPlug img prof mem 0 = .null := by
      rw [psetPlug, psetPluginUnused_eq, if_neg Bool.false_ne_true, if_pos hparam, psetSlot_max prof mem hmem hparam,
        if_pos Nat.zero_lt_one]
    have hzero : (plug mem).value = 0 := by
      cases hplug : plug mem with
      | null => rfl
      | inval =>
        rw [hplug] at hsame
        cases hsame
      | plug ptr =>
        rw [hplug] at hsame
        cases hsame
      | param v =>
        cases v with
        | zero => rfl
        | succ v =>
          rw [hplug] at hsame
          cases hsame
    refine ⟨0, by rw [decide_eq_true hparam, if_pos rfl, hzero], by decide, ?_, ?_⟩
    · rw [hfind]
      exact fun h => nomatch h
    · rw [hfind, if_pos rfl, hsame]
  · rw [if_neg hparam] at h
    obtain ⟨id, a, hfind, hplug⟩ := h
    obtain ⟨-, hid, -⟩ := img.factoryIfind_spec hfind
    have hsmall := img.factoryIfind_lt hfind
    have hfound : psetPlug img prof mem id = .plug a := by
      rw [psetPlug, psetPluginUnused_eq, if_neg Bool.false_ne_true, if_neg hparam, hfind]
    rw [decide_eq_false hparam, if_neg Bool.false_ne_true, hplug]
    refine ⟨id, by rw [← hid], by omega, ?_, ?_⟩
    · rw [hfound]
      exact fun h => nomatch h
    · rw [hfound, if_neg (fun h => nomatch h)]

/-- A member that is stored is not filled in. -/
theorem psetComplete_stored (tree : TreePset) (info : ObjectInfo) {m : Nat}
    (h : info.pset.plugMask.testBit m = true) : (psetComplete img prof tree info).pset.plug m = info.pset.plug m := by
  rw [psetComplete]
  by_cases hready : psetTreeIsready tree = true
  · rw [if_pos hready]
    dsimp only
    rw [fillLoop_eq, if_neg (fun hfill => absurd (h.symm.trans hfill.2) (by decide))]
  · rw [if_neg hready, psetRoot]
    dsimp only
    rw [fillLoop_eq, if_neg]
    rintro ⟨-, hskip⟩
    rw [h, Bool.true_or] at hskip
    cases hskip

/-- **The round trip of a plugin set**: for every set of the tree and every set of an object, in any item and at any
    offset, whatever builtin plugins were loaded, the stored members come back, if each can be found by its id. -/
theorem psetRoundTrip (img : Image) (prof : Profile) (tree : TreePset) (plug : Nat → PlugRef) (b : Bytes) (o : Nat)
    (h : ∀ m, (psetBuildMask tree plug).testBit m = true → Accepted img prof m (plug m)) :
    RoundTrip img prof tree plug b o := by
  obtain ⟨mask, hmask⟩ : ∃ mask, mask = psetBuildMask tree plug := ⟨_, rfl⟩
  unfold RoundTrip
  dsimp only
  rw [← hmask] at h ⊢
  have hstored : ∀ m, mask.testBit m = true → m < psetStoreLast := fun m hm =>
    ((psetBuildMask_testBit tree plug m).mp (hmask ▸ hm)).1
  -- an id for each stored member
  have hids : ∀ m, ∃ id, mask.testBit m = true → slotId img (paramMask prof) plug m = some id ∧ id < 2 ^ 16 ∧
      psetPlug img prof m id ≠ .inval ∧
      (if psetPlug img prof m id = .null then PlugRef.param id else psetPlug img prof m id).pointer =
        (plug m).pointer := by
    intro m
    by_cases hm : mask.testBit m = true
    · obtain ⟨id, hid⟩ := (h m hm).slotId (hstored m hm)
      exact ⟨id, fun _ => hid⟩
    · exact ⟨0, fun hm' => absurd hm' hm⟩
  choose idOf hidOf using hids
  obtain ⟨b1, hinit, hout, hslots⟩ := @initLoop_spec img (paramMask prof) ⟨mask, plug⟩ o idOf psetStoreLast 0 0 b
    (by decide) fun k hk => ⟨(hidOf k hk).1, (hidOf k hk).2.1⟩
  dsimp only at hinit hout hslots
  obtain ⟨members, hmembers⟩ : ∃ members, members = membersOf mask 0 psetStoreLast := ⟨_, rfl⟩
  rw [← hmembers, Nat.zero_add] at hinit
  have hin : ∀ m, m ∈ members ↔ mask.testBit m = true := by
    intro m
    rw [hmembers, mem_membersOf]
    exact and_iff_right_of_imp fun hm => ⟨Nat.zero_le m, by rw [Nat.zero_add]; exact hstored m hm⟩
  -- the object plugin is stored, so there is a slot
  have hsome : members.length ≠ 0 := by
    have hobj : psetObj ∈ members := by
      rw [hin, hmask, psetBuildMask_testBit]
      refine ⟨by decide, ?_⟩
      by_cases hready : psetTreeIsready tree = true
      · rw [if_pos hready]
        exact Or.inl rfl
      · rw [if_neg hready]
        decide
    exact Nat.ne_of_gt (List.length_pos_of_mem hobj)
  have hfew : members.length ≤ psetStoreLast := by
    rw [hmembers, membersOf]
    exact (List.length_filter_le ..).trans (by rw [List.length_range'])
  have hlength : sdextPlugHintLength ⟨mask, plug⟩ = slotSize * members.length + plugSize := by
    rw [sdextPlugHintLength, countLoop_eq, membersOf_stored hstored 64 (by decide), ← hmembers, slotsLength,
      Nat.zero_add, if_neg hsome]
  have hget : getCount (setCount b1 o members.length) o = members.length := by
    unfold getCount setCount
    refine Bytes.getLe_setLe_of_lt _ _ _ _ ?_
    unfold psetStoreLast at hfew
    omega
  obtain ⟨hint, hopen, hbits, hplug⟩ := @openLoop_spec (fun mem id _ => psetPlug img prof mem id) true
    (setCount b1 o members.length) o idOf members 0 ⟨0, fun _ => .null⟩ (hmembers ▸ membersOf_nodup ..)
    (fun m hm => ⟨hstored m ((hin m).mp hm), Nat.zero_testBit m, (hidOf m ((hin m).mp hm)).2.2.1⟩)
    (fun k hk => by
      have hcount : slotAt (setCount b1 o members.length) (o + plugSize) (0 + k) =
          slotAt b1 (o + plugSize) (0 + k) :=
        slotAt_congr fun j _ => Bytes.setLe_out _ _ _ _ _ (by unfold plugSize; omega)
      rw [hcount]
      subst hmembers
      exact hslots k hk)
  have hmaskEq : hint.plugMask = mask := by
    refine Nat.eq_of_testBit_eq fun k => ?_
    rw [hbits, Nat.zero_testBit, Bool.false_or, Bool.eq_iff_iff, decide_eq_true_eq, hin]
  refine ⟨setCount b1 o members.length, hint, ?_, fun i hi => ?_, ?_, ?_, hmaskEq, fun hset m hm => ?_⟩
  · rw [sdextPlugInit, hinit]
    rfl
  · rw [hlength] at hi
    unfold setCount
    rw [Bytes.setLe_out _ _ _ _ _ (by unfold plugSize at hi; omega)]
    subst hmembers
    exact hout i (by rw [Nat.zero_add]; omega)
  · rw [sdextPlugLength, hget, hlength, slotsLength, if_neg hsome]
  · rw [sdextPlugOpen, hget]
    exact hopen
  · rw [psetComplete_stored tree ⟨hint, hset⟩ (hmaskEq ▸ hm), hplug, if_pos ((hin m).mpr hm)]
    exact (hidOf m hm).2.2.2

/-- The builtin plugins of two directories, loaded one after the other, the address of each its number in the list. -/
def dirImage : Image where
  plugAt a := builtinPlugs.getD a ⟨⟨0, 0, formatPlugType⟩, "format40"⟩
  loaded := [4, 5, 11, 20, 21, 31, 34, 38, 40, 47, 48]
  builtin := by decide

/-- With a set of the tree the members that are not stored come back as well. -/
theorem psetComplete_unstored {tree : TreePset} {plug : Nat → PlugRef} (hready : psetTreeIsready tree = true)
    {info : ObjectInfo} (hmask : info.pset.plugMask = psetBuildMask tree plug) {m : Nat} (hm : m < psetStoreLast)
    (hbit : (psetBuildMask tree plug).testBit m = false) :
    ((psetComplete img prof tree info).pset.plug m).pointer = (plug m).pointer := by
  have hsame : (tree.pset m).pointer = (plug m).pointer := by
    by_contra hdiff
    have hset := (psetBuildMask_testBit tree plug m).mpr ⟨hm, by rw [if_pos hready]; exact Or.inr hdiff⟩
    exact absurd (hset.symm.trans hbit) (by decide)
  rw [psetComplete, if_pos hready]
  dsimp only
  rw [fillLoop_eq, hmask, if_pos ⟨⟨Nat.zero_le m, Nat.lt_of_lt_of_le hm (by decide)⟩, hbit⟩, hsame]

/-- A tree with the hash `r5` and the fibre `ext_1`. -/
def teaTree : TreePset := ⟨fun m => if m = psetHash then .plug 4 else if m = 5 then .plug 11 else .null⟩

/-- A directory with the hash `tea` in it. -/
def teaSet (m : Nat) : PlugRef :=
  if m = psetHash then .plug 5 else if m = psetObj then .plug 31 else if m = 5 then .plug 11 else .null

/-- The set of the first directory; the members 2, 8 and 9 are parameters. -/
def rootSet (m : Nat) : PlugRef :=
  [PlugRef.plug 31, .null, .param 0, .plug 38, .plug 4, .plug 11, .plug 21, .plug 20, .param 0, .param 0, .plug 40,
    .plug 47, .plug 48, .plug 34].getD m .null

theorem teaSet_mask : psetBuildMask teaTree teaSet = 2 ^ psetObj + 2 ^ psetHash := by decide +kernel

theorem teaSet_accepted (m : Nat) (h : (psetBuildMask teaTree teaSet).testBit m = true) :
    Accepted dirImage defprof m (teaSet m) := by
  have hstored := ((psetBuildMask_testBit teaTree teaSet m).mp h).1
  have hwhich : ∀ m < psetStoreLast, (2 ^ psetObj + 2 ^ psetHash).testBit m = true → m = psetObj ∨ m = psetHash := by
    decide
  rw [teaSet_mask] at h
  rcases hwhich m hstored h with rfl | rfl
  · exact ⟨1, 31, by decide +kernel, rfl⟩
  · exact ⟨2, 5, by decide +kernel, rfl⟩

theorem rootSet_accepted {m : Nat} (hm : m < psetStoreLast) (hdir : m ≠ psetDir) :
    Accepted dirImage defprof m (rootSet m) := by
  unfold psetStoreLast at hm
  interval_cases m
  · exact ⟨1, 31, by decide +kernel, rfl⟩
  · exact absurd rfl hdir
  · exact ⟨0, by decide, rfl⟩
  · exact ⟨2, 38, by decide +kernel, rfl⟩
  · exact ⟨1, 4, by decide +kernel, rfl⟩
  · exact ⟨2, 11, by decide +kernel, rfl⟩
  · exact ⟨0, 21, by decide +kernel, rfl⟩
  · exact ⟨2, 20, by decide +kernel, rfl⟩
  · exact ⟨0, by decide, rfl⟩
  · exact ⟨0, by decide, rfl⟩
  · exact ⟨0, 40, by decide +kernel, rfl⟩
  · exact ⟨4, 47, by decide +kernel, rfl⟩
  · exact ⟨0, 48, by decide +kernel, rfl⟩
  · exact ⟨4, 34, by decide +kernel, rfl⟩

/-- The directory stores its object plugin and its hash, and the fibre is filled in; the first directory, without a set
    of the tree, stores all but the directory plugin. -/
theorem psetRoundTrip_tea :
    (psetBuildMask teaTree teaSet = 2 ^ psetObj + 2 ^ psetHash ∧
      RoundTrip dirImage defprof teaTree teaSet Bytes.zero 0) ∧
    (∀ info : ObjectInfo, info.pset.plugMask = psetBuildMask teaTree teaSet →
      ((psetComplete dirImage defprof teaTree info).pset.plug 5).pointer = .plug 11) ∧
    RoundTrip dirImage defprof ⟨fun _ => .null⟩ rootSet Bytes.zero 0 := by
  refine ⟨⟨teaSet_mask, psetRoundTrip dirImage defprof teaTree teaSet Bytes.zero 0 teaSet_accepted⟩, fun info h => ?_,
    psetRoundTrip dirImage defprof _ rootSet Bytes.zero 0 fun m hm => ?_⟩
  · exact psetComplete_unstored (show psetTreeIsready teaTree = true by decide) h (by decide)
      (show (psetBuildMask teaTree teaSet).testBit 5 = false by decide +kernel)
  · obtain ⟨hstored, hne⟩ := (psetBuildMask_testBit _ rootSet m).mp hm
    exact rootSet_accepted hstored hne

end RoundTrip

end Reiser4.Stat40
