/-
  Items of unknown plugins (`node40_iplug_check`).

  Build mode removes them inside the loop over the item headers.  The loop has saved the number of items
  and goes on with the next position after a removal, so that

    * it does not look at the item that comes up to the position of a removed one;
    * in the end it looks at headers behind the shortened array, which are left of those that came up.

  A header that is left has the plugin id of the last item, as long as the bodies that came down over it
  did not reach it.

    1. `Walk`, `Walk.drop`    what is kept in front of each step, and a removal;
    2. `iplugCheck_sweeps`    the check leaves what `sweep` leaves;
    3. `iplugCheck_purges`    when these are the items of known plugins.
-/
import Reiser4.Lib.Sweep
import Reiser4.Node40.Cut
import Reiser4.Repair.NodeCheck

namespace Reiser4

open Reiser4.Lib Reiser4.Repair

namespace Node40

section Model

variable (pol : KeyPol)

/-- The items of a node. -/
def rawItems (node : NodeBlock) : List RawItem := (List.range (getNumItems node)).map (item pol node)

/-- The plugin of the item is found (`factory_ops.ifind`). -/
def known (x : RawItem) : Bool := (ifind x.pid).isSome

/-- The loop of `node40_iplug_check` from a position on, for `n` more positions. -/
def iplugLoop (mode : Mode) : Nat → Nat → NodeBlock → RepairFlags → RepairFlags × NodeBlock
  | 0, _, node, res => (res, node)
  | n + 1, pos, node, res =>
    if (ifind (ihGetPid pol node.mem (ihAt pol node pos))).isSome then iplugLoop mode n (pos + 1) node res
    else if mode ≠ .build then iplugLoop mode n (pos + 1) node (res.join .reFatal)
    else
      -- `node40_shrink` does not fail, and its result takes the place of `res`.
      let len := node40Size pol node pos 1
      iplugLoop mode n (pos + 1) (shrink pol node pos maxUint32 len 1) .clean

/-- `node40_iplug_check`. -/
def iplugCheck (mode : Mode) (node : NodeBlock) : RepairFlags × NodeBlock :=
  iplugLoop pol mode (getNumItems node) 0 node .clean

/-- The bodies of the unknown items are long enough, `k` of them being in front: the bodies that come
    down when one is removed do not reach the plugin ids of the headers left behind. -/
def LongBodies : Nat → List RawItem → Prop
  | _, [] => True
  | k, x :: l =>
    (known x = true → LongBodies k l) ∧
      (known x = false → (k = 0 ∨ 2 + (k - 1) * ihSize pol ≤ x.body.length) ∧ LongBodies (k + 1) l)

end Model

section Items

variable {pol : KeyPol} {node node' : NodeBlock} {hs pos : Nat}

@[simp] theorem rawItems_length : (rawItems pol node).length = getNumItems node := by
  unfold rawItems
  rw [List.length_map, List.length_range]

theorem rawItems_getElem? {i : Nat} (hi : i < getNumItems node) :
    (rawItems pol node)[i]? = some (item pol node i) := by
  unfold rawItems
  rw [List.getElem?_map, List.getElem?_range hi]
  rfl

/-- The item behind a part of the list. -/
theorem rawItems_at {pre l : List RawItem} {x : RawItem} (h : rawItems pol node = pre ++ x :: l) :
    pre.length < getNumItems node ∧ item pol node pre.length = x := by
  have hlen : (rawItems pol node).length = pre.length + (l.length + 1) := by
    rw [h, List.length_append, List.length_cons]
  rw [rawItems_length] at hlen
  refine ⟨by omega, ?_⟩
  have hx := @rawItems_getElem? pol node pre.length (by omega)
  rw [h, List.getElem?_append_right (Nat.le_refl _), Nat.sub_self] at hx
  exact (Option.some.inj hx).symm

/-- The list without the removed item. -/
theorem Removed.items_eq {pre l : List RawItem} {x : RawItem}
    (h : rawItems pol node = pre ++ x :: l) (hr : Removed pol node node' pre.length) :
    rawItems pol node' = pre ++ l := by
  have hlen : (rawItems pol node).length = pre.length + (l.length + 1) := by
    rw [h, List.length_append, List.length_cons]
  rw [rawItems_length] at hlen
  have hcount := hr.items
  refine List.ext_getElem? fun i => ?_
  by_cases hi : i < getNumItems node'
  · rw [rawItems_getElem? hi]
    by_cases hfront : i < pre.length
    · rw [hr.front i hfront, ← rawItems_getElem? (show i < getNumItems node by omega), h,
        List.getElem?_append_left hfront, List.getElem?_append_left hfront]
    · rw [hr.back i (by omega) (by omega), ← rawItems_getElem? (show i + 1 < getNumItems node by omega), h,
        List.getElem?_append_right (by omega), List.getElem?_append_right (by omega),
        show i + 1 - pre.length = i - pre.length + 1 by omega, List.getElem?_cons_succ]
  · rw [List.getElem?_eq_none (by rw [rawItems_length]; omega),
      List.getElem?_eq_none (by rw [List.length_append]; omega)]

/-- The plugin id in a header behind the array after a removal. -/
theorem WF.stale_pid (h : WF pol node hs) (hpos : pos < getNumItems node) {n k : Nat}
    (hn : getNumItems node + k = n) (hroom : n * ihSize pol ≤ node.size)
    (hlong : k = 0 ∨ 2 + (k - 1) * ihSize pol ≤ node40Size pol node pos 1) {q : Nat}
    (hlo : getNumItems node - 1 ≤ q) (hq : q < n) :
    let node' := shrink pol node pos maxUint32 (node40Size pol node pos 1) 1
    ihGetPid pol node'.mem (ihAt pol node' q) = ihGetPid pol node.mem (ihAt pol node q) := by
  have hsize : ihSize pol = keySize pol + 6 := rfl
  have hheader := h.header
  have hone : ihSize pol ≤ getNumItems node * ihSize pol := Nat.le_mul_of_pos_left _ (by omega)
  have hfirst : hs ≤ bound pol node pos := by
    have := h.bound_mono (Nat.zero_le pos) (Nat.le_of_lt hpos)
    rwa [h.start] at this
  have horder : bound pol node pos < bound pol node (pos + 1) := h.order pos hpos
  have hend : bound pol node (pos + 1) ≤ getFreeSpaceStart node := by
    rw [← @bound_top pol node]
    exact h.bound_mono hpos (Nat.le_refl _)
  have hlast := h.start_le_ihAt (show getNumItems node - 1 < getNumItems node by omega)
  have hat : ihAt pol node (getNumItems node - 1) + getNumItems node * ihSize pol = node.size := by
    have := h.ihAt_add (show getNumItems node - 1 < getNumItems node by omega)
    rwa [Nat.sub_add_cancel (by omega)] at this
  have hkey : 24 ≤ keySize pol := by cases pol <;> decide
  rw [h.node40Size_eq hpos] at hlong ⊢
  obtain ⟨len, hlen⟩ : ∃ l, l = bound pol node (pos + 1) - bound pol node pos := ⟨_, rfl⟩
  rw [← hlen] at hlong ⊢
  dsimp only
  by_cases hmore : pos + 1 < getNumItems node
  · have hcut := @shrink_cut pol node pos len 1 (by omega) hmore
      (by rw [show ibAt pol node pos = bound pol node pos from (bound_lt hpos).symm]; omega)
      (by rw [show ibAt pol node pos = bound pol node pos from (bound_lt hpos).symm]; omega)
    have hsame : ihAt pol (shrink pol node pos maxUint32 len 1) q = ihAt pol node q := by
      unfold ihAt
      rw [hcut.size]
    rw [hsame]
    -- the header is `q - (items - 1)` headers in front of the last one
    have hq' : ihAt pol node q + (q - (getNumItems node - 1)) * ihSize pol =
        ihAt pol node (getNumItems node - 1) := by
      have h1 : (q + 1) * ihSize pol ≤ n * ihSize pol := Nat.mul_le_mul_right _ hq
      have h2 : (q - (getNumItems node - 1)) * ihSize pol + getNumItems node * ihSize pol =
          (q + 1) * ihSize pol := by
        rw [← Nat.add_mul]
        congr 1
        omega
      have h3 : ihAt pol node q = node.size - (q + 1) * ihSize pol := by
        unfold ihAt
        rw [Nat.mul_comm]
      omega
    refine Bytes.getLe_congr 2 _ _ _ _ fun a ha => ?_
    by_cases heq : q = getNumItems node - 1
    · rw [heq]
      exact hcut.stale _ (by omega) (by omega)
    · have hk : (q - (getNumItems node - 1)) * ihSize pol ≤ k * ihSize pol :=
        Nat.mul_le_mul_right _ (by omega)
      have hk' : k * ihSize pol = (k - 1) * ihSize pol + ihSize pol := by
        rw [← Nat.succ_mul, Nat.succ_eq_add_one, Nat.sub_add_cancel (by omega)]
      have hstep : ihSize pol ≤ (q - (getNumItems node - 1)) * ihSize pol :=
        Nat.le_mul_of_pos_left _ (by omega)
      exact hcut.stale _ (by omega) (by omega)
  · obtain ⟨hsize', -, -, -, hmem⟩ := @shrink_last pol node pos len 1 (by omega) (by omega)
    have hsame : ihAt pol (shrink pol node pos maxUint32 len 1) q = ihAt pol node q := by
      unfold ihAt
      rw [hsize']
    rw [hsame]
    exact Bytes.getLe_congr 2 _ _ _ _ fun a ha => hmem _ (Or.inr (by omega))

end Items

/-! ## The loop -/

theorem longBodies_anti {pol : KeyPol} : ∀ {l : List RawItem} {k : Nat},
    LongBodies pol (k + 1) l → LongBodies pol k l
  | [], _, _ => trivial
  | x :: l, k, h => by
    refine ⟨fun hx => longBodies_anti (h.1 hx), fun hx => ?_⟩
    obtain ⟨hbody, hrest⟩ := h.2 hx
    refine ⟨?_, longBodies_anti hrest⟩
    have hle : (k - 1) * ihSize pol ≤ k * ihSize pol := Nat.mul_le_mul_right _ (Nat.sub_le k 1)
    rw [Nat.add_sub_cancel] at hbody
    omega

/-- The bodies behind an item that is not looked at. -/
theorem longBodies_behind {pol : KeyPol} {y : RawItem} {l : List RawItem} {k : Nat}
    (h : LongBodies pol k (y :: l)) : LongBodies pol k l := by
  cases hy : known y with
  | true => exact h.1 hy
  | false => exact longBodies_anti (h.2 hy).2

section Loop

variable {pol : KeyPol} {node cur : NodeBlock} {hs n pid pos k : Nat} {pre l : List RawItem} {x : RawItem}

/-- In front of a step at `pre.length`: the items in front are done, `l` are to come, and `k` of the `n`
    items have been removed.  The headers behind the array have the plugin id `pid`, which the last item
    has too as long as it is to come. -/
structure Walk (pol : KeyPol) (hs n pid : Nat) (cur : NodeBlock) (pre l : List RawItem) (k : Nat) :
    Prop where
  wf : WF pol cur hs
  items : rawItems pol cur = pre ++ l
  count : getNumItems cur + k = n
  room : n * ihSize pol ≤ cur.size
  stale : ∀ q, getNumItems cur ≤ q → q < n → ihGetPid pol cur.mem (ihAt pol cur q) = pid
  last : ∀ y, l.getLast? = some y → y.pid = pid

theorem Walk.start (h : WF pol node hs)
    (hpid : ∀ y, (rawItems pol node).getLast? = some y → y.pid = pid) :
    Walk pol hs (getNumItems node) pid node [] (rawItems pol node) 0 where
  wf := h
  items := rfl
  count := rfl
  room := by
    have := h.space
    omega
  stale := fun q hlo hhi => absurd hlo (Nat.not_le.mpr hhi)
  last := hpid

theorem Walk.length_eq (h : Walk pol hs n pid cur pre l k) : pre.length + l.length = getNumItems cur := by
  rw [← List.length_append, ← h.items, rawItems_length]

/-- An item that stays. -/
theorem Walk.keep (h : Walk pol hs n pid cur pre (x :: l) k) :
    Walk pol hs n pid cur (pre ++ [x]) l k where
  wf := h.wf
  items := by rw [List.append_assoc, h.items]; rfl
  count := h.count
  room := h.room
  stale := h.stale
  last := by
    intro y hy
    refine h.last y ?_
    cases l with
    | nil => exact absurd hy (by simp)
    | cons z l => rwa [List.getLast?_cons_cons]

/-- **An item that is removed.** -/
theorem Walk.drop (h : Walk pol hs n pid cur pre (x :: l) k)
    (hlong : k = 0 ∨ 2 + (k - 1) * ihSize pol ≤ x.body.length) :
    Walk pol hs n pid (shrink pol cur pre.length maxUint32 (node40Size pol cur pre.length 1) 1) pre l
      (k + 1) := by
  obtain ⟨hpos, hx⟩ := rawItems_at h.items
  obtain ⟨hwf, hr⟩ := h.wf.removed hpos
  have hsize : node40Size pol cur pre.length 1 = x.body.length := by
    rw [h.wf.node40Size_eq hpos, ← hx]
    unfold item Bytes.slice
    rw [List.length_map, List.length_range]
  have hcount := hr.items
  have hn := h.count
  have hnode : (shrink pol cur pre.length maxUint32 (node40Size pol cur pre.length 1) 1).size =
      cur.size := by
    unfold shrink decFreeSpaceStart incFreeSpace decNumItems
    dsimp only
    rw [if_pos rfl]
    split <;> rfl
  refine ⟨hwf, hr.items_eq h.items, by omega, by rw [hnode]; exact h.room, ?_, ?_⟩
  · intro q hlo hq
    rw [hcount] at hlo
    have hsame := h.wf.stale_pid hpos hn h.room (by rw [hsize]; exact hlong) hlo hq
    dsimp only at hsame
    rw [hsame]
    by_cases heq : q = getNumItems cur - 1
    · -- the header of the last item is left where it was
      rw [heq]
      have hlen := h.length_eq
      have hlast := @rawItems_getElem? pol cur (getNumItems cur - 1) (by omega)
      refine h.last (item pol cur (getNumItems cur - 1)) ?_
      rw [← hlast, h.items, ← hlen, List.length_cons, List.getElem?_append_right (by omega),
        List.getLast?_eq_getElem?, List.length_cons]
      congr 1
      omega
    · exact h.stale q (by omega) hq
  · intro y hy
    refine h.last y ?_
    cases l with
    | nil => exact absurd hy (by simp)
    | cons z l => rwa [List.getLast?_cons_cons]

/-- The loop goes over headers of known plugins. -/
theorem iplugLoop_pass {mode : Mode} {res : RepairFlags} {f : Nat} : ∀ {j pos : Nat},
    (∀ q, pos ≤ q → q < pos + j → (ifind (ihGetPid pol cur.mem (ihAt pol cur q))).isSome = true) →
    iplugLoop pol mode (j + f) pos cur res = iplugLoop pol mode f (pos + j) cur res
  | 0, pos, _ => by rw [Nat.zero_add, Nat.add_zero]
  | j + 1, pos, hall => by
    rw [show j + 1 + f = j + f + 1 by omega, iplugLoop, if_pos (hall pos (Nat.le_refl _) (by omega)),
      iplugLoop_pass fun q hlo hhi => hall q (by omega) (by omega)]
    congr 1
    omega

theorem iplugLoop_keep {f : Nat} {res : RepairFlags} (h : Walk pol hs n pid cur pre (x :: l) k)
    (hx : known x = true) : iplugLoop pol .build (f + 1) pre.length cur res =
      iplugLoop pol .build f (pre ++ [x]).length cur res := by
  obtain ⟨-, hat⟩ := rawItems_at h.items
  rw [List.length_append, iplugLoop, if_pos]
  · rfl
  · rw [← hat] at hx
    exact hx

theorem iplugLoop_drop {f : Nat} {res : RepairFlags} (h : Walk pol hs n pid cur pre (x :: l) k)
    (hx : known x = false) : iplugLoop pol .build (f + 1) pre.length cur res =
      iplugLoop pol .build f (pre.length + 1)
        (shrink pol cur pre.length maxUint32 (node40Size pol cur pre.length 1) 1) .clean := by
  obtain ⟨-, hat⟩ := rawItems_at h.items
  have hno : ¬ (ifind (ihGetPid pol cur.mem (ihAt pol cur pre.length))).isSome = true := by
    rw [← hat] at hx
    show ¬ known (item pol cur pre.length) = true
    rw [hx]
    exact Bool.false_ne_true
  rw [iplugLoop, if_neg hno, if_neg (not_not_intro rfl)]

/-- **The loop leaves what `sweep` leaves**, and what is to come are headers behind the array. -/
theorem Walk.sweeps : ∀ {l pre : List RawItem} {cur : NodeBlock} {k f : Nat} {res : RepairFlags},
    Walk pol hs n pid cur pre l k → LongBodies pol k l → pre.length + f = n →
    ∃ cur' k' f' pos' res', iplugLoop pol .build f pre.length cur res =
        iplugLoop pol .build f' pos' cur' res' ∧
      Walk pol hs n pid cur' (pre ++ sweep known l) [] k' ∧ pos' + f' = n ∧ getNumItems cur' ≤ pos'
  | [], pre, cur, k, f, res, h, _, hf => by
    have hlen := h.length_eq
    refine ⟨cur, k, f, pre.length, res, rfl, ?_, hf, ?_⟩
    · rw [show sweep known ([] : List RawItem) = [] from rfl, List.append_nil]
      exact h
    · rw [← hlen]
      exact Nat.le_refl _
  | [x], pre, cur, k, f, res, h, hlong, hf => by
    have hlen := h.length_eq
    have hcount := h.count
    rw [List.length_singleton] at hlen
    obtain ⟨f, rfl⟩ : ∃ g, f = g + 1 := ⟨f - 1, by omega⟩
    cases hx : known x with
    | true =>
      rw [iplugLoop_keep h hx, sweep_keep hx]
      refine ⟨cur, k, f, (pre ++ [x]).length, res, rfl, h.keep, ?_, ?_⟩
      · rw [List.length_append, List.length_singleton]
        omega
      · rw [List.length_append, List.length_singleton]
        omega
    | false =>
      rw [iplugLoop_drop h hx, sweep_last hx, List.append_nil]
      have hdrop := h.drop (hlong.2 hx).1
      have hlen' := hdrop.length_eq
      rw [List.length_nil] at hlen'
      exact ⟨_, k + 1, f, pre.length + 1, _, rfl, hdrop, by omega, by omega⟩
  | x :: y :: l, pre, cur, k, f, res, h, hlong, hf => by
    have hlen := h.length_eq
    have hcount := h.count
    rw [List.length_cons] at hlen
    obtain ⟨f, rfl⟩ : ∃ g, f = g + 1 := ⟨f - 1, by omega⟩
    cases hx : known x with
    | true =>
      rw [iplugLoop_keep h hx, sweep_keep hx]
      have := @Walk.sweeps (y :: l) (pre ++ [x]) cur k f res h.keep (hlong.1 hx)
        (by rw [List.length_append, List.length_singleton]; omega)
      rwa [List.append_assoc] at this
    | false =>
      -- the item behind comes up to this position, and the loop is already at the next one
      rw [iplugLoop_drop h hx, sweep_drop hx]
      obtain ⟨hbody, hrest⟩ := hlong.2 hx
      have := @Walk.sweeps l (pre ++ [y]) _ (k + 1) f .clean (h.drop hbody).keep (longBodies_behind hrest)
        (by rw [List.length_append, List.length_singleton]; omega)
      rwa [List.append_assoc, List.length_append] at this

end Loop

/-! ## The check -/

section Check

variable {pol : KeyPol} {node : NodeBlock} {hs : Nat}

/-- **The check leaves what `sweep` leaves**, when the last item is of a known plugin. -/
theorem iplugCheck_sweeps (h : WF pol node hs) (hlong : LongBodies pol 0 (rawItems pol node))
    (hlast : ∀ y, (rawItems pol node).getLast? = some y → known y = true) :
    WF pol (iplugCheck pol .build node).2 hs ∧
      rawItems pol (iplugCheck pol .build node).2 = sweep known (rawItems pol node) := by
  obtain ⟨pid, hpid, hknown⟩ : ∃ pid, (∀ y, (rawItems pol node).getLast? = some y → y.pid = pid) ∧
      (ifind pid).isSome = true := by
    cases hy : (rawItems pol node).getLast? with
    | none => exact ⟨0, fun y h => absurd h (by simp), rfl⟩
    | some y => exact ⟨y.pid, fun z hz => by rw [Option.some.inj hz], hlast y hy⟩
  obtain ⟨cur, k, f, pos, res, hrun, hwalk, hn, hpos⟩ :=
    @Walk.sweeps _ _ _ _ _ _ _ _ (getNumItems node) .clean (Walk.start h hpid) hlong (Nat.zero_add _)
  have hpass : iplugLoop pol .build f pos cur res = (res, cur) := by
    refine iplugLoop_pass (f := 0) fun q hlo hhi => ?_
    rw [hwalk.stale q (by omega) (by omega)]
    exact hknown
  have hcheck : iplugCheck pol .build node = (res, cur) := hrun.trans hpass
  rw [hcheck]
  refine ⟨hwalk.wf, ?_⟩
  have := hwalk.items
  rwa [List.append_nil] at this

/-- An unknown item behind known ones. -/
theorem iplugCheck_last (h : WF pol node hs) {pre : List RawItem} {x : RawItem}
    (hitems : rawItems pol node = pre ++ [x]) (hpre : ∀ y ∈ pre, known y = true)
    (hx : known x = false) :
    WF pol (iplugCheck pol .build node).2 hs ∧ rawItems pol (iplugCheck pol .build node).2 = pre := by
  have hlast : ∀ y, (rawItems pol node).getLast? = some y → y.pid = x.pid := by
    intro y hy
    rw [hitems, List.getLast?_append_of_ne_nil _ (List.cons_ne_nil x [])] at hy
    obtain rfl := Option.some.inj hy
    rfl
  have hstart := Walk.start h hlast
  have hwalk : Walk pol hs (getNumItems node) x.pid node pre [x] 0 :=
    ⟨h, hitems, rfl, hstart.room, hstart.stale, fun y hy => congrArg _ (Option.some.inj hy).symm⟩
  have hlen := hwalk.length_eq
  have hpass : iplugCheck pol .build node = iplugLoop pol .build 1 pre.length node .clean := by
    have := @iplugLoop_pass pol node .build .clean 1 pre.length 0 fun q _ hq => by
      have hq' : q < pre.length := by omega
      have hat := @rawItems_getElem? pol node q (by omega)
      rw [hitems, List.getElem?_append_left hq'] at hat
      exact hpre _ (List.mem_of_getElem? hat)
    rw [Nat.zero_add] at this
    rw [← this]
    unfold iplugCheck
    rw [← hlen]
    rfl
  have hcheck := hpass.trans (iplugLoop_drop hwalk hx (f := 0))
  rw [hcheck]
  have hdrop := hwalk.drop (Or.inl rfl)
  refine ⟨hdrop.wf, ?_⟩
  have := hdrop.items
  rwa [List.append_nil] at this

/-- What the check is for: a well-formed node with the items of known plugins. -/
def Purges (pol : KeyPol) (hs : Nat) (node : NodeBlock) : Prop :=
  WF pol (iplugCheck pol .build node).2 hs ∧
    rawItems pol (iplugCheck pol .build node).2 = (rawItems pol node).filter known

/-- No two unknown items are neighbours. -/
def Apart (l : List RawItem) : Prop := List.IsChain (fun x y => known x = true ∨ known y = true) l

/-- The last item is of a known plugin. -/
def EndsKnown (l : List RawItem) : Prop := ∀ y, l.getLast? = some y → known y = true

/-- **The check removes the items of unknown plugins**, where no two of them are neighbours, the last item
    is of a known plugin or the only other one, and the removed bodies are not too short.  With the last
    item known and bodies of that length it does so only if no two are neighbours. -/
theorem iplugCheck_purges (h : WF pol node hs) :
    (Apart (rawItems pol node) ∧ (EndsKnown (rawItems pol node) ∨
        ∃ pre x, rawItems pol node = pre ++ [x] ∧ ∀ y ∈ pre, known y = true) ∧
      LongBodies pol 0 (rawItems pol node) → Purges pol hs node) ∧
    (EndsKnown (rawItems pol node) → LongBodies pol 0 (rawItems pol node) →
      (Purges pol hs node ↔ Apart (rawItems pol node))) := by
  have hiff : EndsKnown (rawItems pol node) → LongBodies pol 0 (rawItems pol node) →
      (Purges pol hs node ↔ Apart (rawItems pol node)) := by
    intro hlast hlong
    obtain ⟨hwf, hitems⟩ := iplugCheck_sweeps h hlong hlast
    unfold Purges Apart
    rw [hitems, sweep_eq_filter_iff]
    exact ⟨fun hp => hp.2, fun ha => ⟨hwf, ha⟩⟩
  refine ⟨?_, hiff⟩
  rintro ⟨hapart, hlast | ⟨pre, x, hitems, hpre⟩, hlong⟩
  · exact (hiff hlast hlong).mpr hapart
  · cases hx : known x with
    | true =>
      refine (hiff (fun y hy => ?_) hlong).mpr hapart
      rw [hitems, List.getLast?_append_of_ne_nil _ (List.cons_ne_nil x [])] at hy
      rw [← Option.some.inj hy]
      exact hx
    | false =>
      obtain ⟨hwf, hleft⟩ := iplugCheck_last h hitems hpre hx
      refine ⟨hwf, ?_⟩
      rw [hleft, hitems, List.filter_append, List.filter_eq_self.mpr hpre,
        List.filter_cons_of_neg (by rw [hx]; exact Bool.false_ne_true), List.filter_nil, List.append_nil]

/-- Three items of one byte each, with the given plugin ids. -/
def threeItems (p0 p1 p2 : Nat) : NodeBlock where
  mem := ((((((((((Bytes.zero.setLe 2 2 3).setLe 2 4 391).setLe 2 6 31).setLe 3 28 0x0b0907).setLe 2 506 28).setLe
    2 510 p0).setLe 2 476 29).setLe 2 480 p1).setLe 2 446 30).setLe 2 450 p2)
  size := 512

theorem threeItems_wf : WF .short (threeItems 99 6 7) 28 ∧ WF .short (threeItems 99 99 6) 28 := by
  constructor
  · exact ⟨Nat.le_refl _, by decide +kernel, by decide +kernel, by decide +kernel, by decide +kernel⟩
  · exact ⟨Nat.le_refl _, by decide +kernel, by decide +kernel, by decide +kernel, by decide +kernel⟩

theorem iplugCheck_oneUnknown : Purges .short 28 (threeItems 99 6 7) := by
  have hitems : rawItems .short (threeItems 99 6 7) = [⟨⟨0, 0, 0, 0⟩, 0, 99, [7]⟩,
    ⟨⟨0, 0, 0, 0⟩, 0, 6, [9]⟩, ⟨⟨0, 0, 0, 0⟩, 0, 7, [11]⟩] := by decide +kernel
  refine (iplugCheck_purges threeItems_wf.1).1 ⟨?_, Or.inl ?_, ?_⟩
  · rw [hitems]
    unfold Apart
    decide
  · rw [hitems]
    intro y hy
    obtain rfl := Option.some.inj hy
    rfl
  · rw [hitems]
    exact ⟨nofun, fun _ => ⟨Or.inl rfl, fun _ => ⟨fun _ => trivial, nofun⟩, nofun⟩⟩

/-- The second of two unknown neighbours is left in the node. -/
theorem iplugCheck_neighbours : WF .short (threeItems 99 99 6) 28 ∧
    ¬ Purges .short 28 (threeItems 99 99 6) := by
  refine ⟨threeItems_wf.2, fun hp => ?_⟩
  have hlen := congrArg List.length hp.2
  revert hlen
  decide +kernel

end Check

end Node40

end Reiser4
