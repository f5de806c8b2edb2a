/-
  The check of the items, on the bytes of a node (`repair_node_items_check`, `repair_item_check_struct`).

  The loop fetches an item, lets its plugins check the key and the body, shrinks the node where the body
  has to be cut, removes what cannot be repaired, and compares the keys of the items with one another.
  The methods of the plugins are parameters: they look at the key of an item and the bytes of its body.

    1. `repairNodeItemsCheck`      the loop over a node;
    2. `itemsCheckLoop_inOrder`    what the loop over a list of items says of their ranges;
    3. `itemsLoop_refines`         as long as no last key is read behind a cut, the loop over the node is
                                   the one over the list of its items (the place has the old length);
    4. `repairNodeItemsCheck_iff`  when the check does what it is for.
-/
import Reiser4.Node40.IplugCheck
import Reiser4.Node40.Tail

namespace Reiser4.Repair

open Reiser4.Lib

/-! ## Ranges of keys -/

section Ranges

variable {ι δ : Type} (M : NodeMethods ι)

/-- The item after its check. -/
def mended (it : ι) : ι := (M.itemCheckStruct .build it).2.1

/-- The check of the body is not fatal. -/
def passes (it : ι) : Bool :=
  match (M.itemCheckStruct .build it).1 with
  | .ok ret => !ret.fatal
  | .error _ => false

/-- The last real key of the item is not below its key. -/
def inRange (it : ι) : Bool :=
  match M.maxrealKey (mended M it) with
  | .ok m => decide (M.key it ≤ m)
  | .error _ => false

/-- The last key of the item, and its key where that is not below it. -/
def highKey (it : ι) : Key :=
  match M.maxrealKey (mended M it) with
  | .ok m => max (M.key it) m
  | .error _ => M.key it

/-- The ranges of the items follow one another. -/
def InOrder (l : List ι) : Prop := l.Pairwise fun a b => highKey M a ≤ M.key b

/-- The items come behind the key the last one has left. -/
def Follows (prev : Option Key) (l : List ι) : Prop :=
  (∀ p, prev = some p → ∀ b ∈ l, p ≤ M.key b) ∧ InOrder M l

variable {M}

theorem key_le_highKey (it : ι) : M.key it ≤ highKey M it := by
  unfold highKey
  cases M.maxrealKey (mended M it) with
  | error e => exact le_refl _
  | ok m => exact le_max_left _ _

theorem follows_cons {prev : Option Key} {it : ι} {l : List ι} : Follows M prev (it :: l) ↔
    (∀ p, prev = some p → p ≤ M.key it) ∧ Follows M (some (highKey M it)) l := by
  unfold Follows InOrder
  rw [List.pairwise_cons]
  constructor
  · rintro ⟨hprev, hhead, htail⟩
    refine ⟨fun p hp => hprev p hp it List.mem_cons_self, ?_, htail⟩
    rintro p hp b hb
    obtain rfl := Option.some.inj hp
    exact hhead b hb
  · rintro ⟨hit, hfirst, htail⟩
    have hhead : ∀ b ∈ l, highKey M it ≤ M.key b := fun b hb => hfirst _ rfl b hb
    refine ⟨fun p hp b hb => ?_, hhead, htail⟩
    rcases List.mem_cons.mp hb with rfl | hb
    · exact hit p hp
    · exact le_trans (hit p hp) (le_trans (key_le_highKey it) (hhead b hb))

/-- What the check makes of one item, when its key is as it should be. -/
inductive Outcome (M : NodeMethods ι) (it : ι) (s : ItemsCheck) : ItemCheck ι → Prop
  | fails (e : Errno) (it' : ι) (s' : ItemsCheck) : Outcome M it s (.stop (.error e) it' s')
  | broken (s' : ItemsCheck) (body : passes M it = false) (prev : s'.prev = s.prev)
      (res : s'.res.fatal = s.res.fatal) : Outcome M it s (.broken (mended M it) s')
  | disorder (it' : ι) (s' : ItemsCheck) (body : passes M it = true) (p : Key)
      (prev : s.prev = some p) (lt : M.key it < p) : Outcome M it s (.stop (.ok .reFatal) it' s')
  | outOfRange (s' : ItemsCheck) (body : passes M it = true) (range : inRange M it = false)
      (behind : ∀ p, s.prev = some p → p ≤ M.key it) (prev : s'.prev = some (highKey M it))
      (res : s'.res.fatal = s.res.fatal) : Outcome M it s (.broken (mended M it) s')
  | stays (s' : ItemsCheck) (body : passes M it = true) (range : inRange M it = true)
      (behind : ∀ p, s.prev = some p → p ≤ M.key it) (prev : s'.prev = some (highKey M it))
      (res : s'.res.fatal = s.res.fatal) : Outcome M it s (.sound (mended M it) (mended M it) s')

/-- **One item.** -/
theorem itemCheck_outcome {it : ι} {s : ItemsCheck}
    (hkey : (M.keyCheckStruct (M.key it)).2 = M.key it) : Outcome M it s (itemCheck M .build it s) := by
  have hsame : Key.compfull (M.key it) (M.key it) = 0 := Key.compfull_zero.mpr rfl
  have hmended : (M.itemCheckStruct .build it).2.1 = mended M it := rfl
  unfold itemCheck
  simp only [hkey, hsame, bne_self_eq_false, Bool.false_and, Bool.false_eq_true, if_false, Bool.or_false,
    hmended]
  by_cases hfetch : (!M.fetch it) = true
  · rw [if_pos hfetch]
    exact .fails _ _ _
  rw [if_neg hfetch]
  cases hstruct : (M.itemCheckStruct .build it).1 with
  | error e => exact .fails _ _ _
  | ok ret =>
    have hpasses : passes M it = !ret.fatal := by
      unfold passes
      rw [hstruct]
    dsimp only
    by_cases hfatal : ret.fatal = true
    · rw [if_pos hfatal]
      rw [hfatal] at hpasses
      exact .broken _ hpasses rfl rfl
    rw [if_neg hfatal]
    rw [Bool.eq_false_iff.mpr hfatal] at hpasses
    have hres : (s.res.join ret).fatal = s.res.fatal := by
      rw [RepairFlags.join_fatal, Bool.eq_false_iff.mpr hfatal, Bool.or_false]
    by_cases hprev : s.prev.any (fun p => decide (0 < Key.compfull p (M.key it))) = true
    · rw [if_pos hprev]
      cases hp : s.prev with
      | none => rw [hp] at hprev; exact absurd hprev Bool.false_ne_true
      | some p =>
        rw [hp] at hprev
        exact .disorder _ _ hpasses p hp (Key.compfull_pos.mp (of_decide_eq_true hprev))
    rw [if_neg hprev]
    have hbehind : ∀ p, s.prev = some p → p ≤ M.key it := by
      intro p hp
      refine not_lt.mp fun hlt => hprev ?_
      rw [hp]
      exact decide_eq_true (Key.compfull_pos.mpr hlt)
    cases hmax : M.maxrealKey (mended M it) with
    | error e => exact .fails _ _ _
    | ok m =>
      have hhigh : highKey M it = max (M.key it) m := by
        unfold highKey
        rw [hmax]
      have hrange : inRange M it = decide (M.key it ≤ m) := by
        unfold inRange
        rw [hmax]
      dsimp only
      by_cases hlt : 0 < Key.compfull (M.key it) m
      · rw [if_pos hlt]
        have hlt' : m < M.key it := Key.compfull_pos.mp hlt
        refine .outOfRange _ hpasses ?_ hbehind ?_ hres
        · rw [hrange]
          exact decide_eq_false (not_le.mpr hlt')
        · rw [hhigh, max_eq_left (le_of_lt hlt')]
      · rw [if_neg hlt]
        have hle : M.key it ≤ m := not_lt.mp fun h => hlt (Key.compfull_pos.mpr h)
        refine .stays _ hpasses ?_ hbehind ?_ hres
        · rw [hrange]
          exact decide_eq_true hle
        · rw [hhigh, max_eq_right hle]

variable {func : ι → δ → δ}

/-- **What the loop says of the ranges**, in build mode, when the keys pass their check unchanged: a fatal
    result means that the items whose bodies pass are not in order; otherwise they are, and the items left
    are those of them that are in range. -/
theorem itemsCheckLoop_inOrder : ∀ {rest done : List ι} {s : ItemsCheck} {data : δ} {f : RepairFlags},
    (∀ it ∈ rest, (M.keyCheckStruct (M.key it)).2 = M.key it) → s.res.fatal = false →
    (itemsCheckLoop M .build func done rest s data).res = .ok f →
    (f.fatal = true → ¬ Follows M s.prev (rest.filter (passes M))) ∧
    (f.fatal = false → Follows M s.prev (rest.filter (passes M)) ∧
      (itemsCheckLoop M .build func done rest s data).items =
        done.reverse ++ (rest.filter fun it => passes M it && inRange M it).map (mended M))
  | [], done, s, data, f, _, hs, hrun => by
    rw [itemsCheckLoop] at hrun ⊢
    obtain rfl := Except.ok.inj hrun
    refine ⟨fun hf => absurd hf (by rw [hs]; exact Bool.false_ne_true), fun _ => ⟨?_, ?_⟩⟩
    · exact ⟨fun _ _ _ hb => absurd hb List.not_mem_nil, List.Pairwise.nil⟩
    · rw [List.filter_nil, List.map_nil, List.append_nil]
  | it :: rest, done, s, data, f, hkeys, hs, hrun => by
    have hrest : ∀ b ∈ rest, (M.keyCheckStruct (M.key b)).2 = M.key b := fun b hb =>
      hkeys b (List.mem_cons_of_mem it hb)
    have hout := @itemCheck_outcome _ M it s (hkeys it List.mem_cons_self)
    rw [itemsCheckLoop] at hrun ⊢
    cases hit : itemCheck M .build it s with
    | stop res it' s' =>
      rw [hit] at hout hrun
      cases hout with
      | fails e => cases hrun
      | disorder _ _ body p prev lt =>
        obtain rfl := Except.ok.inj hrun
        refine ⟨fun _ hfollows => ?_, fun hf => by cases hf⟩
        rw [List.filter_cons_of_pos body, follows_cons] at hfollows
        exact absurd (hfollows.1 p prev) (not_le.mpr lt)
    | broken it' s' =>
      rw [hit] at hout hrun
      dsimp only at hrun ⊢
      rw [if_pos rfl] at hrun ⊢
      cases hout with
      | broken _ body prev res =>
        have ih := @itemsCheckLoop_inOrder rest done { s' with dirty := true } data f hrest (res.trans hs) hrun
        rw [List.filter_cons_of_neg (by rw [body]; exact Bool.false_ne_true),
          List.filter_cons_of_neg (by rw [body]; exact Bool.false_ne_true), ← prev]
        exact ih
      | outOfRange _ body range behind prev res =>
        have ih := @itemsCheckLoop_inOrder rest done { s' with dirty := true } data f hrest (res.trans hs) hrun
        rw [List.filter_cons_of_pos body, follows_cons,
          List.filter_cons_of_neg (by rw [range, Bool.and_false]; exact Bool.false_ne_true), ← prev]
        exact ⟨fun hf hfollows => ih.1 hf hfollows.2,
          fun hf => ⟨⟨behind, (ih.2 hf).1⟩, (ih.2 hf).2⟩⟩
    | sound it' place s' =>
      rw [hit] at hout hrun
      cases hout with
      | stays _ body range behind prev res =>
        have ih := itemsCheckLoop_inOrder hrest (res.trans hs) hrun
        rw [prev] at ih
        rw [List.filter_cons_of_pos body, follows_cons,
          List.filter_cons_of_pos (by rw [body, range]; rfl), List.map_cons]
        refine ⟨fun hf hfollows => ih.1 hf hfollows.2, fun hf => ⟨⟨behind, (ih.2 hf).1⟩, ?_⟩⟩
        rw [(ih.2 hf).2, List.reverse_cons, List.append_assoc]
        rfl

end Ranges

end Reiser4.Repair

namespace Reiser4.Node40

open Reiser4.Lib Reiser4.Repair

/-! ## The loop over a node -/

/-- What `check_struct` of an item plugin answers, the length it leaves in the hint, and the body. -/
structure BodyCheck where
  res : Except Errno RepairFlags
  len : Nat
  body : List UInt8

/-- The methods of the key plugin and of the item plugins. -/
structure ItemMethods where
  keyCheckStruct : Key → RepairFlags × Key
  checkStruct : ItemPlug → Mode → Key → List UInt8 → BodyCheck
  /-- `balance->maxreal_key`, where the plugin has it. -/
  maxrealKey : ItemPlug → Option (Key → List UInt8 → Except Errno Key)
  /-- A body is changed in its place. -/
  checkStruct_length : ∀ plug mode key body,
    (checkStruct plug mode key body).body.length = body.length

/-- What the check leaves of a node. -/
structure ItemsRun (δ : Type) where
  res : Except Errno RepairFlags
  node : NodeBlock
  data : δ

/-- What becomes of one item, with the variables of the loop: the node, `prev` and `res`. -/
inductive NodeItem
  /-- The check ends here. -/
  | stop (res : Except Errno RepairFlags) (node : NodeBlock)
  /-- `error_remove_item`. -/
  | broken (node : NodeBlock) (prev : Option Key) (res : RepairFlags)
  /-- The item stays. -/
  | sound (node : NodeBlock) (place : Place) (prev : Option Key) (res : RepairFlags)

section Model

variable {δ : Type} (M : ItemMethods) (pol : KeyPol) (mode : Mode) (func : NodeBlock → Place → δ → δ)
  (node : NodeBlock)

/-- `node40_set_key`. -/
def setKey (pos : Nat) (key : Key) : NodeBlock :=
  let ih := ihAt pol node pos
  { node with
    mem :=
      match pol with
      | .short => ((node.mem.setLe 8 ih key.el0).setLe 8 (ih + 8) key.el2).setLe 8 (ih + 16) key.offset
      | .large => (((node.mem.setLe 8 ih key.el0).setLe 8 (ih + 8) key.ordering).setLe 8 (ih + 16)
          key.el2).setLe 8 (ih + 24) key.offset }

/-- `repair_item_check_fini`. -/
def repairItemCheckFini (place : Place) (len : Nat) : RepairFlags × NodeBlock :=
  if place.len = len then (.reFatal, node) else (.clean, shrink pol node place.item 0 len 1)

/-- `repair_item_check_struct`. -/
def repairItemCheckStruct (place : Place) : Except Errno RepairFlags × NodeBlock :=
  let b := M.checkStruct place.plug mode place.key (node.mem.slice place.body place.len)
  let node := { node with mem := node.mem.putStr place.body b.body }
  match b.res with
  | .error e => (.error e, node)
  | .ok res =>
    if res ≠ .clean ∨ b.len = 0 then (.ok res, node)
    else
      let r := repairItemCheckFini pol node place b.len
      (.ok r.1, r.2)

/-- `reiser4_item_maxreal_key`; the place has the length and the key it was fetched with. -/
def itemMaxrealKey (place : Place) : Except Errno Key :=
  match M.maxrealKey place.plug with
  | none => .ok place.key
  | some f => f place.key (node.mem.slice place.body place.len)

/-- The body of the loop of `repair_node_items_check`, without the callback. -/
def nodeItemCheck (pos : Nat) (prev : Option Key) (res : RepairFlags) : NodeItem :=
  match fetch pol node pos with
  | .error _ => .stop (.error .einval) node
  | .ok place =>
    -- `ret = check_struct < 0`: the answer itself is lost.
    let key := (M.keyCheckStruct place.key).2
    let wrong := Key.compfull key place.key != 0
    let node := if wrong && mode != .check then setKey pol node pos key else node
    let res := if wrong && mode = .check then res.join .reFixable else res
    let r := repairItemCheckStruct M pol mode node place
    match r.1 with
    | .error e => .stop (.error e) r.2
    | .ok ret =>
      if ret.fatal then .broken r.2 prev res
      else
        let res := res.join ret
        if prev.any fun p => decide (0 < Key.compfull p key) then .stop (.ok .reFatal) r.2
        else
          match itemMaxrealKey M r.2 place with
          | .error e => .stop (.error e) r.2
          | .ok maxreal =>
            if 0 < Key.compfull key maxreal then .broken r.2 (some key) res
            else .sound r.2 place (some maxreal) res

/-- The loop of `repair_node_items_check`.  The callback does not fail, and `reiser4_node_remove` takes the
    item out by its size. -/
def itemsLoop : Nat → Nat → Nat → NodeBlock → Option Key → RepairFlags → δ → Option (ItemsRun δ)
  | 0, _, _, _, _, _, _ => none
  | fuel + 1, pos, count, node, prev, res, data =>
    if pos < count then
      match nodeItemCheck M pol mode node pos prev res with
      | .stop res node => some ⟨res, node, data⟩
      | .broken node prev res =>
        if mode ≠ .build then itemsLoop fuel (pos + 1) count node prev (res.join .reFatal) data
        else
          let node := shrink pol node pos maxUint32 (node40Size pol node pos 1) 1
          itemsLoop fuel pos (getNumItems node) node prev res data
      | .sound node place prev res => itemsLoop fuel (pos + 1) count node prev res (func node place data)
    else some ⟨.ok res, node, data⟩

/-- `repair_node_items_check`. -/
def repairNodeItemsCheck (data : δ) : Option (ItemsRun δ) :=
  itemsLoop M pol mode func (getNumItems node + 1) 0 (getNumItems node) node none .clean data

/-! ## The same, item by item -/

/-- The plugin of an item. -/
def plugOf (it : RawItem) : ItemPlug := (ifind it.pid).getD .stat40

/-- The methods on a list of items. -/
def ItemMethods.onItems : NodeMethods RawItem where
  checkStruct _ l := (.ok .clean, l, false)
  fetch := known
  plug := plugOf
  key := RawItem.key
  updateKey it key := { it with key }
  keyCheckStruct := M.keyCheckStruct
  itemCheckStruct mode it :=
    let b := M.checkStruct (plugOf it) mode it.key it.body
    let it' := { it with body := b.body }
    match b.res with
    | .error e => (.error e, it', false)
    | .ok res =>
      if res ≠ .clean ∨ b.len = 0 then (.ok res, it', false)
      else if it.body.length = b.len then (.ok .reFatal, it', false)
      else (.ok .clean, { it with body := b.body.take (it.body.length - b.len) }, false)
  maxrealKey it :=
    match M.maxrealKey (plugOf it) with
    | none => .ok it.key
    | some f => f it.key it.body
  clearFlags it := (it, false)
  plug_updateKey _ _ := rfl

/-- The check of the body asks for some bytes less, and then the last real key, which is taken with the old
    length, depends on what is behind the bytes that are left. -/
def ReadsCut (it : RawItem) : Prop :=
  let b := M.checkStruct (plugOf it) .build it.key it.body
  let left := b.body.take (it.body.length - b.len)
  b.res = .ok .clean ∧ b.len ≠ 0 ∧ it.body.length ≠ b.len ∧
    (it.body.length < b.len ∨ ∃ f behind, M.maxrealKey (plugOf it) = some f ∧ behind.length = b.len ∧
      f it.key (left ++ behind) ≠ f it.key left)

end Model

section Body

variable {pol : KeyPol} {node : NodeBlock} {hs : Nat} {pre l : List RawItem} {x : RawItem}

theorem slice_add (b : Bytes) (o n m : Nat) : b.slice o (n + m) = b.slice o n ++ b.slice (o + n) m := by
  unfold Bytes.slice
  rw [List.range_add, List.map_append, List.map_map]
  refine congrArg _ (List.map_congr_left fun i _ => ?_)
  rw [Function.comp_apply, Nat.add_assoc]

/-- The length of a body. -/
theorem rawItems_body (hitems : rawItems pol node = pre ++ x :: l) :
    node.mem.slice (bound pol node pre.length) (bound pol node (pre.length + 1) - bound pol node pre.length) =
      x.body ∧
    x.body.length = bound pol node (pre.length + 1) - bound pol node pre.length := by
  obtain ⟨-, hx⟩ := rawItems_at hitems
  rw [← hx]
  exact ⟨rfl, Bytes.slice_length _ _ _⟩

/-- **Another body of the same length** in place of one. -/
theorem WF.putBody (h : WF pol node hs) (hitems : rawItems pol node = pre ++ x :: l) {body : List UInt8}
    (hlen : body.length = x.body.length) :
    let node' : NodeBlock := { node with mem := node.mem.putStr (bound pol node pre.length) body }
    WF pol node' hs ∧ rawItems pol node' = pre ++ { x with body } :: l ∧
      bound pol node' pre.length = bound pol node pre.length := by
  intro node'
  obtain ⟨hpos, hx⟩ := rawItems_at hitems
  obtain ⟨-, hbody⟩ := rawItems_body hitems
  have hheader := h.header
  have horder : bound pol node pre.length < bound pol node (pre.length + 1) := h.order _ hpos
  have hstart : hs ≤ bound pol node pre.length := by
    have := h.bound_mono (Nat.zero_le pre.length) (Nat.le_of_lt hpos)
    rwa [h.start] at this
  have hend : bound pol node (pre.length + 1) ≤ getFreeSpaceStart node := by
    rw [← @bound_top pol node]
    exact h.bound_mono hpos (Nat.le_refl _)
  have hout : ∀ a, (a < bound pol node pre.length ∨ bound pol node (pre.length + 1) ≤ a) →
      node'.mem a = node.mem a := fun a ha => Bytes.putStr_out _ _ _ _ (by omega)
  have hfield : ∀ o, o + 2 ≤ 8 → node'.mem.getLe 2 o = node.mem.getLe 2 o := fun o ho =>
    Bytes.getLe_congr 2 _ _ _ _ fun a ha => hout _ (Or.inl (by omega))
  have hcount : getNumItems node' = getNumItems node := hfield 2 (by omega)
  have hfss : getFreeSpaceStart node' = getFreeSpaceStart node := hfield 6 (by omega)
  have hfree : getFreeSpace node' = getFreeSpace node := hfield 4 (by omega)
  have hat : ∀ i, ihAt pol node' i = ihAt pol node i := fun i => rfl
  have hhead : ∀ i, i < getNumItems node → ∀ a, node'.mem (ihAt pol node i + a) =
      node.mem (ihAt pol node i + a) := by
    intro i hi a
    have := h.start_le_ihAt hi
    exact hout _ (Or.inr (by omega))
  have hbound : ∀ i, i ≤ getNumItems node → bound pol node' i = bound pol node i := by
    intro i hi
    by_cases hlt : i < getNumItems node
    · rw [bound_lt hlt, bound_lt (by rw [hcount]; exact hlt), hat]
      exact Bytes.getLe_congr 2 _ _ _ _ fun a ha => by
        rw [Nat.add_assoc]
        exact hhead i hlt _
    · have htop := @bound_top pol node'
      rw [hcount] at htop
      rw [show i = getNumItems node by omega, htop, bound_top, hfss]
  have hwf : WF pol node' hs := by
    refine ⟨hheader, ?_, ?_, ?_, h.size⟩
    · rw [hbound 0 (Nat.zero_le _), h.start]
    · intro i hi
      rw [hcount] at hi
      rw [hbound i (Nat.le_of_lt hi), hbound (i + 1) hi]
      exact h.order i hi
    · rw [hfss, hfree, hcount]
      exact h.space
  have hlist : (rawItems pol node).length = pre.length + (l.length + 1) := by
    rw [hitems, List.length_append, List.length_cons]
  rw [rawItems_length] at hlist
  refine ⟨hwf, List.ext_getElem? fun i => ?_, hbound _ (Nat.le_of_lt hpos)⟩
  by_cases hi : i < getNumItems node
  · obtain ⟨hkey, hflags, hpid⟩ := @head_moved pol node.mem node'.mem (ihAt pol node i) (ihAt pol node i)
      fun a _ _ => hhead i hi a
    rw [rawItems_getElem? (by rw [hcount]; exact hi)]
    by_cases heq : i = pre.length
    · rw [heq, List.getElem?_append_right (Nat.le_refl _), Nat.sub_self, List.getElem?_cons_zero]
      rw [heq] at hkey hflags hpid
      congr 1
      unfold item
      rw [hat, hkey, hflags, hpid, hbound _ (Nat.le_of_lt hpos), hbound _ hpos, ← hx]
      have hslice : node'.mem.slice (bound pol node pre.length)
          (bound pol node (pre.length + 1) - bound pol node pre.length) = body := by
        rw [← hbody, ← hlen]
        refine List.ext_getElem? fun j => ?_
        by_cases hj : j < body.length
        · rw [Bytes.slice_getElem? _ _ _ _ hj, List.getElem?_eq_getElem hj]
          exact congrArg some (Bytes.putStr_in _ _ _ j hj)
        · rw [List.getElem?_eq_none (by rw [Bytes.slice_length]; omega),
            List.getElem?_eq_none (by omega)]
      rw [hslice]
      rfl
    · have hsame : item pol node' i = item pol node i := by
        have horder := h.order i hi
        unfold item
        rw [hat, hkey, hflags, hpid, hbound i (Nat.le_of_lt hi), hbound (i + 1) hi]
        congr 1
        refine Bytes.slice_congr _ _ _ _ _ fun a ha => hout _ ?_
        rcases Nat.lt_or_gt_of_ne heq with hlt | hgt
        · have := h.bound_mono (show i + 1 ≤ pre.length from hlt) (Nat.le_of_lt hpos)
          exact Or.inl (by omega)
        · have := h.bound_mono (show pre.length + 1 ≤ i from hgt) (Nat.le_of_lt hi)
          exact Or.inr (by omega)
      rw [hsame, ← rawItems_getElem? hi, hitems]
      by_cases hlt : i < pre.length
      · rw [List.getElem?_append_left hlt, List.getElem?_append_left hlt]
      · rw [List.getElem?_append_right (by omega), List.getElem?_append_right (by omega),
          show i - pre.length = (i - pre.length - 1) + 1 by omega, List.getElem?_cons_succ,
          List.getElem?_cons_succ]
  · rw [List.getElem?_eq_none (by rw [rawItems_length, hcount]; omega),
      List.getElem?_eq_none (by rw [List.length_append, List.length_cons]; omega)]

/-- **A body without its end** in place of one. -/
theorem WF.cutEnd (h : WF pol node hs) (hitems : rawItems pol node = pre ++ x :: l) {len : Nat}
    (hlen : len < x.body.length) :
    let node' := shrink pol node pre.length 0 len 1
    WF pol node' hs ∧
      rawItems pol node' = pre ++ { x with body := x.body.take (x.body.length - len) } :: l ∧
      bound pol node' pre.length = bound pol node pre.length := by
  intro node'
  obtain ⟨hpos, hx⟩ := rawItems_at hitems
  obtain ⟨hslice, hbody⟩ := rawItems_body hitems
  have hheader := h.header
  have hstart := h.start
  have hfirst := h.bound_mono (Nat.zero_le pre.length) (Nat.le_of_lt hpos)
  have hend : bound pol node (pre.length + 1) ≤ getFreeSpaceStart node := by
    rw [← @bound_top pol node]
    exact h.bound_mono hpos (Nat.le_refl _)
  have hshrunk : Shrunk pol node node' pre.length len :=
    h.shrink_room (by decide : (0 : Nat) ≠ maxUint32) hpos (by omega)
  have hat : ∀ i, ihAt pol node' i = ihAt pol node i := by
    intro i
    unfold ihAt
    rw [hshrunk.size]
  have hbound : ∀ i, i ≤ getNumItems node →
      bound pol node' i = if i ≤ pre.length then bound pol node i else bound pol node i - len := by
    intro i hi
    by_cases htop : i = getNumItems node
    · rw [if_neg (by omega), htop, ← hshrunk.items, bound_top, hshrunk.start, hshrunk.items, bound_top]
    · have hi' : i < getNumItems node := by omega
      rw [bound_lt (by rw [hshrunk.items]; exact hi'), hat]
      by_cases hle : i ≤ pre.length
      · rw [if_pos hle]
        exact hshrunk.offsetFront i hle hi'
      · rw [if_neg hle]
        exact hshrunk.offsetBack i (by omega) hi'
  obtain ⟨hwf, hothers⟩ := @WF.trimmed_of pol node node' hs pre.length len h hpos (by omega) hshrunk.size
    hshrunk.items hshrunk.space hbound (fun i hi _ a ha hkeep => hshrunk.head i hi a ha hkeep)
    (fun a h8 ha => hshrunk.bodyFront a h8 (by omega))
    (fun a hlo hhi => hshrunk.bodyBack a (by omega) (by omega))
  have hhere : bound pol node' pre.length = bound pol node pre.length := by
    rw [hbound _ (Nat.le_of_lt hpos), if_pos (Nat.le_refl _)]
  have hitem : item pol node' pre.length = { x with body := x.body.take (x.body.length - len) } := by
    obtain ⟨hkey, hflags, hpid⟩ := @head_moved pol node.mem node'.mem (ihAt pol node pre.length)
      (ihAt pol node pre.length) fun a ha hkeep => hshrunk.head _ hpos a ha hkeep
    rw [← hx]
    unfold item
    rw [hat, hkey, hflags, hpid, hhere, hbound (pre.length + 1) hpos, if_neg (by omega)]
    dsimp only
    congr 1
    rw [Bytes.slice_length]
    refine List.ext_getElem? fun j => ?_
    by_cases hj : j < bound pol node (pre.length + 1) - len - bound pol node pre.length
    · have hin : bound pol node pre.length + j < bound pol node (pre.length + 1) - len := by omega
      rw [Bytes.slice_getElem? _ _ _ _ hj, List.getElem?_take_of_lt (by omega),
        Bytes.slice_getElem? _ _ _ _ (by omega), hshrunk.bodyFront _ (by omega) hin]
    · rw [List.getElem?_eq_none (by rw [Bytes.slice_length]; omega),
        List.getElem?_eq_none (by rw [List.length_take, Bytes.slice_length]; omega)]
  refine ⟨hwf, ?_, hhere⟩
  have hlist : getNumItems node = pre.length + (l.length + 1) := by
    rw [← @rawItems_length pol, hitems, List.length_append, List.length_cons]
  refine List.ext_getElem? fun i => ?_
  by_cases hi : i < getNumItems node
  · rw [rawItems_getElem? (by rw [hshrunk.items]; exact hi)]
    by_cases heq : i = pre.length
    · rw [heq, hitem, List.getElem?_append_right (Nat.le_refl _), Nat.sub_self, List.getElem?_cons_zero]
    · rw [hothers i hi heq, ← rawItems_getElem? hi, hitems]
      rcases Nat.lt_or_gt_of_ne heq with hlt | hgt
      · rw [List.getElem?_append_left hlt, List.getElem?_append_left hlt]
      · obtain ⟨k, hk⟩ : ∃ k, i - pre.length = k + 1 := ⟨i - pre.length - 1, by omega⟩
        rw [List.getElem?_append_right (by omega), List.getElem?_append_right (by omega), hk,
          List.getElem?_cons_succ, List.getElem?_cons_succ]
  · rw [List.getElem?_eq_none (by rw [rawItems_length, hshrunk.items]; omega),
      List.getElem?_eq_none (by rw [List.length_append, List.length_cons]; omega)]

end Body

/-! ## The loop over the node is the one over its items -/

section Refines

variable {δ : Type} {M : ItemMethods} {pol : KeyPol} {hs : Nat} {func : NodeBlock → Place → δ → δ}

/-- The same becomes of an item in the node and in the list. -/
inductive Agrees (pol : KeyPol) (hs : Nat) (pre l : List RawItem) : NodeItem → ItemCheck RawItem → Prop
  | stop (res : Except Errno RepairFlags) (node : NodeBlock) (it : RawItem) (s : ItemsCheck)
      (wf : WF pol node hs) (items : rawItems pol node = pre ++ it :: l) :
      Agrees pol hs pre l (.stop res node) (.stop res it s)
  | broken (node : NodeBlock) (it : RawItem) (s : ItemsCheck) (wf : WF pol node hs)
      (items : rawItems pol node = pre ++ it :: l) :
      Agrees pol hs pre l (.broken node s.prev s.res) (.broken it s)
  | sound (node : NodeBlock) (place : Place) (it it' : RawItem) (s : ItemsCheck) (wf : WF pol node hs)
      (items : rawItems pol node = pre ++ it :: l) :
      Agrees pol hs pre l (.sound node place s.prev s.res) (.sound it it' s)

/-- **The check of one body** in the node is the one in the list, and so is the last real key then. -/
theorem repairItemCheckStruct_agrees {node : NodeBlock} {pre l : List RawItem} {x : RawItem} {place : Place}
    (h : WF pol node hs) (hitems : rawItems pol node = pre ++ x :: l)
    (hfetch : fetch pol node pre.length = .ok place) (hcut : ¬ ReadsCut M x) :
    ∃ r x' node', M.onItems.itemCheckStruct .build x = (r, x', false) ∧
      repairItemCheckStruct M pol .build node place = (r, node') ∧ WF pol node' hs ∧
      rawItems pol node' = pre ++ x' :: l ∧
      ∀ ret, r = .ok ret → ret.fatal = false → itemMaxrealKey M node' place = M.onItems.maxrealKey x' := by
  obtain ⟨hpos, hx⟩ := rawItems_at hitems
  obtain ⟨hslice, hlen⟩ := rawItems_body hitems
  have hpid : ihGetPid pol node.mem (ihAt pol node pre.length) = x.pid := by
    rw [← hx]
    rfl
  have hihkey : ihGetKey pol node.mem (ihAt pol node pre.length) = x.key := by
    rw [← hx]
    rfl
  obtain ⟨plug, hplug, rfl⟩ := (h.fetch_eq hpos).mp hfetch
  rw [hpid] at hplug
  rw [hihkey]
  have hplugOf : plugOf x = plug := by
    unfold plugOf
    rw [hplug]
    rfl
  obtain ⟨b, hb⟩ : ∃ b, b = M.checkStruct plug .build x.key x.body := ⟨_, rfl⟩
  have hblen : b.body.length = x.body.length := by
    rw [hb]
    exact M.checkStruct_length _ _ _ _
  -- the body that the check of the plugin leaves in its place
  obtain ⟨hwf, hput, hbefore⟩ := h.putBody hitems hblen
  obtain ⟨node1, hnode1⟩ : ∃ n, n = ({ node with
    mem := node.mem.putStr (bound pol node pre.length) b.body } : NodeBlock) := ⟨_, rfl⟩
  rw [← hnode1] at hwf hput hbefore
  have hread : node1.mem.slice (bound pol node pre.length)
      (bound pol node (pre.length + 1) - bound pol node pre.length) = b.body := by
    rw [← hlen, ← hblen, hnode1]
    refine List.ext_getElem? fun j => ?_
    by_cases hj : j < b.body.length
    · rw [Bytes.slice_getElem? _ _ _ _ hj, List.getElem?_eq_getElem hj]
      exact congrArg some (Bytes.putStr_in _ _ _ j hj)
    · rw [List.getElem?_eq_none (by rw [Bytes.slice_length]; omega),
        List.getElem?_eq_none (by omega)]
  have hmax : itemMaxrealKey M node1
      { item := pre.length
        body := bound pol node pre.length
        len := bound pol node (pre.length + 1) - bound pol node pre.length
        key := x.key
        plug := plug
        off := initOff plug } = M.onItems.maxrealKey { x with body := b.body } := by
    unfold itemMaxrealKey ItemMethods.onItems
    dsimp only
    rw [hread, show plugOf { x with body := b.body } = plug from hplugOf]
  unfold repairItemCheckStruct ItemMethods.onItems
  dsimp only
  rw [hplugOf, hslice, ← hb, ← hnode1]
  cases hres : b.res with
  | error e => exact ⟨_, _, _, rfl, rfl, hwf, hput, nofun⟩
  | ok res =>
    dsimp only
    by_cases hkeep : res ≠ .clean ∨ b.len = 0
    · rw [if_pos hkeep, if_pos hkeep]
      exact ⟨_, _, _, rfl, rfl, hwf, hput, fun _ _ _ => hmax⟩
    rw [if_neg hkeep, if_neg hkeep]
    unfold repairItemCheckFini
    dsimp only
    rw [← hlen]
    by_cases hall : x.body.length = b.len
    · rw [if_pos hall, if_pos hall]
      refine ⟨_, _, _, rfl, rfl, hwf, hput, fun ret hret hfatal => ?_⟩
      obtain rfl := Except.ok.inj hret
      cases hfatal
    · rw [if_neg hall, if_neg hall]
      -- the end of the body goes, and the last key does not depend on what comes there
      have hclean : b.res = .ok .clean := hres.trans (congrArg _ (not_not.mp fun hne => hkeep (Or.inl hne)))
      have hless : ¬ (x.body.length < b.len ∨ ∃ f behind, M.maxrealKey plug = some f ∧ behind.length = b.len ∧
          f x.key (b.body.take (x.body.length - b.len) ++ behind) ≠
            f x.key (b.body.take (x.body.length - b.len))) := by
        intro hbad
        refine hcut ?_
        unfold ReadsCut
        dsimp only
        rw [hplugOf, ← hb]
        exact ⟨hclean, fun h0 => hkeep (Or.inr h0), hall, hbad⟩
      have hin : b.len < b.body.length := by
        rw [hblen]
        exact lt_of_le_of_ne (Nat.le_of_not_lt fun hlt => hless (Or.inl hlt)) (Ne.symm hall)
      obtain ⟨hwf', hcutItems, hhere⟩ := hwf.cutEnd hput hin
      dsimp only at hcutItems
      rw [hblen] at hcutItems
      refine ⟨_, _, _, rfl, rfl, hwf', hcutItems, fun _ _ _ => ?_⟩
      obtain ⟨node2, hnode2⟩ : ∃ n, n = shrink pol node1 pre.length 0 b.len 1 := ⟨_, rfl⟩
      rw [← hnode2] at hcutItems hhere ⊢
      obtain ⟨hleft, hleftLen⟩ := rawItems_body hcutItems
      rw [← hleftLen, hhere, hbefore] at hleft
      dsimp only at hleft
      unfold itemMaxrealKey
      dsimp only
      rw [show plugOf { x with body := b.body.take (x.body.length - b.len) } = plug from hplugOf]
      cases hf : M.maxrealKey plug with
      | none => rfl
      | some f =>
        dsimp only
        -- what is read is the body that is left and the bytes behind it
        have hsplit : node2.mem.slice (bound pol node pre.length) x.body.length =
            b.body.take (x.body.length - b.len) ++
              node2.mem.slice (bound pol node pre.length + (x.body.length - b.len)) b.len := by
          have htake : (b.body.take (x.body.length - b.len)).length = x.body.length - b.len := by
            rw [List.length_take]
            omega
          have hsum : x.body.length = (x.body.length - b.len) + b.len := by omega
          rw [htake] at hleft
          conv_lhs => rw [hsum, slice_add, hleft]
        rw [hsplit]
        by_contra hne
        exact hless (Or.inr ⟨f, _, hf, Bytes.slice_length _ _ _, hne⟩)

/-- **One item**, whose key passes its check unchanged and whose last key is not read behind a cut. -/
theorem nodeItemCheck_agrees {node : NodeBlock} {pre l : List RawItem} {x : RawItem} {s : ItemsCheck}
    (h : WF pol node hs) (hitems : rawItems pol node = pre ++ x :: l)
    (hkey : (M.keyCheckStruct x.key).2 = x.key) (hcut : ¬ ReadsCut M x) :
    Agrees pol hs pre l (nodeItemCheck M pol .build node pre.length s.prev s.res)
      (itemCheck M.onItems .build x s) := by
  obtain ⟨hpos, hx⟩ := rawItems_at hitems
  have hsame : Key.compfull x.key x.key = 0 := Key.compfull_zero.mpr rfl
  have hpid : ihGetPid pol node.mem (ihAt pol node pre.length) = x.pid := by
    rw [← hx]
    rfl
  have hihkey : ihGetKey pol node.mem (ihAt pol node pre.length) = x.key := by
    rw [← hx]
    rfl
  unfold itemCheck nodeItemCheck
  cases hplug : ifind x.pid with
  | none =>
    have hfetch : fetch pol node pre.length = .error .einval := by
      unfold fetch
      dsimp only
      rw [hpid, hplug]
    have hunknown : (!M.onItems.fetch x) = true := by
      show (!known x) = true
      unfold known
      rw [hplug]
      rfl
    rw [hfetch, if_pos hunknown]
    exact .stop _ _ _ _ h hitems
  | some plug =>
    have hknown : ¬ (!M.onItems.fetch x) = true := by
      show ¬ (!known x) = true
      unfold known
      rw [hplug]
      exact Bool.false_ne_true
    obtain ⟨place, hfetch, hplace⟩ : ∃ place, fetch pol node pre.length = .ok place ∧ place.key = x.key :=
      ⟨_, (h.fetch_eq hpos).mpr ⟨plug, hpid ▸ hplug, rfl⟩, hihkey⟩
    obtain ⟨r, x', node', hlist, hcheck, hwf, hput, hmax⟩ :=
      repairItemCheckStruct_agrees h hitems hfetch hcut
    rw [hfetch, if_neg hknown]
    dsimp only
    rw [show M.onItems.key x = x.key from rfl, show M.onItems.keyCheckStruct = M.keyCheckStruct from rfl,
      hplace, hkey, hsame, hlist]
    simp only [bne_self_eq_false, Bool.false_and, Bool.false_eq_true, if_false, Bool.or_false]
    rw [hcheck]
    dsimp only
    cases hres : r with
    | error e => exact .stop _ _ _ _ hwf hput
    | ok ret =>
      dsimp only
      by_cases hfatal : ret.fatal = true
      · rw [if_pos hfatal, if_pos hfatal]
        exact .broken _ _ ⟨s.prev, s.res, _⟩ hwf hput
      rw [if_neg hfatal, if_neg hfatal]
      by_cases hprev : s.prev.any (fun p => decide (0 < Key.compfull p x.key)) = true
      · rw [if_pos hprev, if_pos hprev]
        exact .stop _ _ _ _ hwf hput
      rw [if_neg hprev, if_neg hprev, hmax ret hres (Bool.eq_false_iff.mpr hfatal)]
      cases M.onItems.maxrealKey x' with
      | error e => exact .stop _ _ _ _ hwf hput
      | ok m =>
        dsimp only
        by_cases hlt : 0 < Key.compfull x.key m
        · rw [if_pos hlt, if_pos hlt]
          exact .broken _ _ ⟨some x.key, s.res.join ret, _⟩ hwf hput
        · rw [if_neg hlt, if_neg hlt]
          exact .sound _ _ _ _ ⟨some m, s.res.join ret, _⟩ hwf hput

/-- **The loop over the node** leaves what the loop over its items leaves. -/
theorem itemsLoop_refines : ∀ {l pre : List RawItem} {node : NodeBlock} {s : ItemsCheck} {data : δ}
    {fuel : Nat}, WF pol node hs → rawItems pol node = pre ++ l →
    (∀ x ∈ l, (M.keyCheckStruct x.key).2 = x.key) → (∀ x ∈ l, ¬ ReadsCut M x) → l.length < fuel →
    ∃ run, itemsLoop M pol .build func fuel pre.length (getNumItems node) node s.prev s.res data = some run ∧
      run.res = (itemsCheckLoop M.onItems .build (fun _ d => d) pre.reverse l s ()).res ∧
      WF pol run.node hs ∧
      rawItems pol run.node = (itemsCheckLoop M.onItems .build (fun _ d => d) pre.reverse l s ()).items
  | [], pre, node, s, data, fuel, h, hitems, _, _, hfuel => by
    obtain ⟨fuel, rfl⟩ : ∃ g, fuel = g + 1 := ⟨fuel - 1, by omega⟩
    have hcount : getNumItems node = pre.length := by
      rw [← @rawItems_length pol, hitems, List.append_nil]
    refine ⟨⟨.ok s.res, node, data⟩, ?_, rfl, h, ?_⟩
    · rw [itemsLoop, hcount, if_neg (Nat.lt_irrefl _)]
    · rw [hitems, List.append_nil, itemsCheckLoop, List.reverse_reverse]
  | x :: l, pre, node, s, data, fuel, h, hitems, hkeys, hcuts, hfuel => by
    obtain ⟨g, rfl⟩ : ∃ g, fuel = g + 1 := ⟨fuel - 1, by omega⟩
    rw [List.length_cons] at hfuel
    obtain ⟨hpos, -⟩ := rawItems_at hitems
    have hagrees := nodeItemCheck_agrees (s := s) h hitems (hkeys x List.mem_cons_self)
      (hcuts x List.mem_cons_self)
    have hkeys' : ∀ y ∈ l, (M.keyCheckStruct y.key).2 = y.key := fun y hy =>
      hkeys y (List.mem_cons_of_mem x hy)
    have hcuts' : ∀ y ∈ l, ¬ ReadsCut M y := fun y hy => hcuts y (List.mem_cons_of_mem x hy)
    have hnum : ∀ {node' : NodeBlock} {it : RawItem}, rawItems pol node' = pre ++ it :: l →
        getNumItems node' = getNumItems node := by
      intro node' it h'
      rw [← @rawItems_length pol, ← @rawItems_length pol, h', hitems, List.length_append,
        List.length_append, List.length_cons, List.length_cons]
    rw [itemsLoop, if_pos hpos, itemsCheckLoop]
    generalize nodeItemCheck M pol .build node pre.length s.prev s.res = a at hagrees ⊢
    generalize itemCheck M.onItems .build x s = c at hagrees ⊢
    cases hagrees with
    | stop res node' it s' wf items =>
      exact ⟨_, rfl, rfl, wf, by rw [items, List.reverse_reverse]⟩
    | broken node' it s' wf items =>
      dsimp only
      obtain ⟨hpos', -⟩ := rawItems_at items
      obtain ⟨hwf', hremoved⟩ := wf.removed hpos'
      rw [if_neg (not_not_intro rfl), if_pos rfl]
      exact itemsLoop_refines (s := { s' with dirty := true }) hwf' (hremoved.items_eq items) hkeys' hcuts'
        (by omega)
    | sound node' place it it' s' wf items =>
      dsimp only
      have hsplit : rawItems pol node' = (pre ++ [it]) ++ l := by
        rw [items, List.append_assoc]
        rfl
      have := @itemsLoop_refines l (pre ++ [it]) node' s' (func node' place data) g wf hsplit hkeys' hcuts'
        (by omega)
      rw [List.length_append, List.reverse_append, hnum items] at this
      exact this

end Refines

/-! ## What the check is for -/

section Law

variable (M : ItemMethods)

/-- The item after its repair. -/
def repaired (it : RawItem) : RawItem :=
  { mended M.onItems it with key := (M.keyCheckStruct it.key).2 }

/-- The last real key of an item. -/
def lastKey (it : RawItem) : Key :=
  match M.onItems.maxrealKey it with
  | .ok m => m
  | .error _ => it.key

/-- It is not below the key. -/
def rangeOk (it : RawItem) : Bool :=
  match M.onItems.maxrealKey it with
  | .ok m => decide (it.key ≤ m)
  | .error _ => false

/-- The key ranges do not go down. -/
def KeysInOrder (l : List RawItem) : Prop := l.Pairwise fun a b => lastKey M a ≤ b.key

/-- The items to stay: the checks of the key and of the body do not fail, and the last real key of what is
    left is not below its key. -/
def staying (l : List RawItem) : List RawItem :=
  (l.filter fun it => !(M.keyCheckStruct it.key).1.fatal && passes M.onItems it &&
    rangeOk M (repaired M it)).map (repaired M)

/-- A fatal result only where the items to stay are not in order; otherwise they are, and they are left. -/
def ChecksItems {δ : Type} (pol : KeyPol) (hs : Nat) (func : NodeBlock → Place → δ → δ) (node : NodeBlock)
    (data : δ) : Prop :=
  ∃ run, repairNodeItemsCheck M pol .build func node data = some run ∧ ∀ f, run.res = .ok f →
    (f.fatal = true → ¬ KeysInOrder M (staying M (rawItems pol node))) ∧
    (f.fatal = false → WF pol run.node hs ∧ rawItems pol run.node = staying M (rawItems pol node) ∧
      KeysInOrder M (staying M (rawItems pol node)))

/-- The keys pass their check unchanged, and no last key is read behind a cut. -/
structure Plain (l : List RawItem) : Prop where
  keys : ∀ it ∈ l, M.keyCheckStruct it.key = (.clean, it.key)
  bodies : ∀ it ∈ l, ¬ ReadsCut M it

/-- Items to be removed for their range are compared too: they do not disturb the order. -/
def RemovedInOrder (l : List RawItem) : Prop :=
  KeysInOrder M (staying M l) → InOrder M.onItems (l.filter (passes M.onItems))

variable {M} {δ : Type} {pol : KeyPol} {hs : Nat} {func : NodeBlock → Place → δ → δ} {node : NodeBlock}
  {data : δ}

theorem Plain.repaired_eq {l : List RawItem} (h : Plain M l) {it : RawItem} (hit : it ∈ l) :
    repaired M it = mended M.onItems it ∧ (mended M.onItems it).key = it.key := by
  have hkey : (mended M.onItems it).key = it.key := by
    unfold mended ItemMethods.onItems
    dsimp only
    cases (M.checkStruct (plugOf it) .build it.key it.body).res with
    | error e => rfl
    | ok res =>
      dsimp only
      split
      · rfl
      · split <;> rfl
  refine ⟨?_, hkey⟩
  unfold repaired
  rw [h.keys it hit, ← hkey]

/-- The items that stay are those the loop compares and leaves. -/
theorem Plain.staying_eq {l : List RawItem} (h : Plain M l) : staying M l =
    (l.filter fun it => passes M.onItems it && inRange M.onItems it).map (mended M.onItems) := by
  have hfilter : (l.filter fun it => !(M.keyCheckStruct it.key).1.fatal && passes M.onItems it &&
      rangeOk M (repaired M it)) = l.filter fun it => passes M.onItems it && inRange M.onItems it := by
    refine List.filter_congr fun it hit => ?_
    obtain ⟨hrep, hkey⟩ := h.repaired_eq hit
    have hrange : rangeOk M (repaired M it) = inRange M.onItems it := by
      unfold rangeOk inRange
      rw [hrep, hkey]
      rfl
    rw [h.keys it hit, hrange]
    rfl
  unfold staying
  rw [hfilter]
  exact List.map_congr_left fun it hit => (h.repaired_eq (List.mem_of_mem_filter hit)).1

theorem Plain.inOrder_iff {l : List RawItem} (h : Plain M l) : KeysInOrder M (staying M l) ↔
    InOrder M.onItems (l.filter fun it => passes M.onItems it && inRange M.onItems it) := by
  rw [h.staying_eq]
  unfold KeysInOrder InOrder
  rw [List.pairwise_map]
  refine List.Pairwise.iff_of_mem fun {a b} ha hb => ?_
  obtain ⟨-, hkey⟩ := h.repaired_eq (List.mem_of_mem_filter hb)
  have hrange : inRange M.onItems a = true := (Bool.and_eq_true _ _ ▸ List.of_mem_filter ha).2
  have hlast : lastKey M (mended M.onItems a) = highKey M.onItems a := by
    unfold lastKey highKey
    unfold inRange at hrange
    cases hm : M.onItems.maxrealKey (mended M.onItems a) with
    | error e =>
      rw [hm] at hrange
      cases hrange
    | ok m =>
      rw [hm] at hrange
      exact (max_eq_right (of_decide_eq_true hrange)).symm
  rw [hlast, hkey]
  rfl

/-- **The check of the items** does what it is for where the keys pass unchanged, no last key is read
    behind a cut and the items removed for their range are in order with the others.  Among nodes of the
    first two kinds it does so only then. -/
theorem repairNodeItemsCheck_iff (h : WF pol node hs) :
    (Plain M (rawItems pol node) ∧ RemovedInOrder M (rawItems pol node) →
      ChecksItems M pol hs func node data) ∧
    (Plain M (rawItems pol node) →
      (∃ run f, repairNodeItemsCheck M pol .build func node data = some run ∧ run.res = .ok f) →
      ChecksItems M pol hs func node data → RemovedInOrder M (rawItems pol node)) := by
  have hmain : Plain M (rawItems pol node) →
      ∃ run, repairNodeItemsCheck M pol .build func node data = some run ∧ ∀ f, run.res = .ok f →
        (f.fatal = true → ¬ InOrder M.onItems ((rawItems pol node).filter (passes M.onItems))) ∧
        (f.fatal = false → InOrder M.onItems ((rawItems pol node).filter (passes M.onItems)) ∧
          WF pol run.node hs ∧ rawItems pol run.node = staying M (rawItems pol node)) := by
    intro hplain
    have hkeys : ∀ it ∈ rawItems pol node, (M.keyCheckStruct it.key).2 = it.key := fun it hit => by
      rw [hplain.keys it hit]
    obtain ⟨run, hrun, hres, hwf, hitems⟩ := @itemsLoop_refines δ M pol hs func (rawItems pol node) [] node
      ⟨none, .clean, false⟩ data (getNumItems node + 1) h rfl hkeys hplain.bodies
      (by rw [rawItems_length]; exact Nat.lt_succ_self _)
    refine ⟨run, hrun, fun f hf => ?_⟩
    obtain ⟨hbad, hgood⟩ := itemsCheckLoop_inOrder (M := M.onItems) hkeys rfl (hres ▸ hf)
    have hnone : ∀ l, InOrder M.onItems l ↔ Follows M.onItems none l := fun l =>
      ⟨fun hl => ⟨fun p hp => (by cases hp), hl⟩, fun hl => hl.2⟩
    refine ⟨fun hfatal hin => hbad hfatal ((hnone _).mp hin), fun hfatal => ?_⟩
    obtain ⟨hfollows, hleft⟩ := hgood hfatal
    refine ⟨(hnone _).mpr hfollows, hwf, ?_⟩
    rw [hitems, hplain.staying_eq]
    exact hleft
  constructor
  · rintro ⟨hplain, hremoved⟩
    obtain ⟨run, hrun, hf⟩ := hmain hplain
    refine ⟨run, hrun, fun f hok => ⟨fun hfatal hin => (hf f hok).1 hfatal (hremoved hin), fun hfatal => ?_⟩⟩
    obtain ⟨hin, hwf, hitems⟩ := (hf f hok).2 hfatal
    refine ⟨hwf, hitems, hplain.inOrder_iff.mpr ?_⟩
    -- the items that stay are some of those that pass
    have hsub : ((rawItems pol node).filter fun it => passes M.onItems it && inRange M.onItems it).Sublist
        ((rawItems pol node).filter (passes M.onItems)) :=
      List.monotone_filter_right _ fun it hit => (Bool.and_eq_true _ _ ▸ hit).1
    exact hin.sublist hsub
  · rintro hplain ⟨run, f, hrun, hok⟩ ⟨run', hrun', hchecks⟩ hin
    obtain ⟨run'', hrun'', hf⟩ := hmain hplain
    obtain rfl := Option.some.inj (hrun.symm.trans hrun')
    obtain rfl := Option.some.inj (hrun.symm.trans hrun'')
    cases hfatal : f.fatal with
    | true => exact absurd hin ((hchecks f hok).1 hfatal)
    | false => exact ((hf f hok).2 hfatal).1

/-- `key_large_check_struct`; `oid & !KEY_LARGE_BAND_MASK` is 0. -/
def keyLargeCheckStruct (key : Key) : RepairFlags × Key :=
  -- `KEY_LAST_MINOR`
  if 5 ≤ key.getMinor then (.reFatal, key)
  else
    let key := if key.getLocality / two60 ≠ 0 then { key with el0 := key.getMinor } else key
    if key.getMinor = Key.filenameMinor then (.clean, key)
    else (.clean, if key.el2 / two60 ≠ 0 then { key with el2 := 0 } else key)

/-- The methods for a node of tails with large keys: `tail40_check_struct` and `tail40_maxreal_key`. -/
def tailMethods : ItemMethods where
  keyCheckStruct := keyLargeCheckStruct
  checkStruct plug _ _ body := ⟨.ok (if body.length ≤ initOff plug then .reFatal else .clean), 0, body⟩
  maxrealKey plug := some fun key body =>
    .ok (key.setOffset ((key.offset + (body.length - initOff plug) + maxUint64) % two64))
  checkStruct_length _ _ _ _ := rfl

/-- Two tails of one byte each, with the minor `m` in the key of the second. -/
def twoTailKeys (m : Nat) : NodeBlock where
  mem := (((((((((Bytes.zero.setLe 2 2 2).setLe 2 4 406).setLe 2 6 30).setLe 2 28 0x0907).setLe 8 474 20).setLe
    2 506 28).setLe 2 510 6).setLe 8 436 (32 + m)).setLe 2 468 29).setLe 2 472 6
  size := 512

theorem twoTailKeys_wf : WF .large (twoTailKeys 4) 28 ∧ WF .large (twoTailKeys 15) 28 :=
  ⟨⟨Nat.le_refl _, by decide +kernel, by decide +kernel, by decide +kernel, by decide +kernel⟩,
    ⟨Nat.le_refl _, by decide +kernel, by decide +kernel, by decide +kernel, by decide +kernel⟩⟩

theorem repairNodeItemsCheck_twoTails :
    ChecksItems tailMethods .large 28 (fun _ _ n => n + 1) (twoTailKeys 4) 0 := by
  have hitems : rawItems .large (twoTailKeys 4) =
      [⟨⟨20, 0, 0, 0⟩, 0, 6, [7]⟩, ⟨⟨36, 0, 0, 0⟩, 0, 6, [9]⟩] := by decide +kernel
  refine (repairNodeItemsCheck_iff twoTailKeys_wf.1).1 ⟨⟨?_, ?_⟩, ?_⟩
  · rw [hitems]
    decide +kernel
  · intro it _ hcut
    exact hcut.2.1 rfl
  · intro _
    rw [hitems]
    unfold InOrder
    decide +kernel

/-- The key check fails, and the item stays. -/
theorem repairNodeItemsCheck_keyLost : WF .large (twoTailKeys 15) 28 ∧
    ¬ ChecksItems tailMethods .large 28 (fun _ _ n => n + 1) (twoTailKeys 15) 0 := by
  refine ⟨twoTailKeys_wf.2, ?_⟩
  rintro ⟨run, hrun, hchecks⟩
  have heval : (repairNodeItemsCheck tailMethods .large .build (fun _ _ n => n + 1) (twoTailKeys 15) 0).map
      (fun run => (match run.res with
        | .ok f => some f
        | .error _ => none, getNumItems run.node)) = some (some .clean, 2) := by decide +kernel
  rw [hrun] at heval
  obtain ⟨hres, hnum⟩ := Prod.mk.inj (Option.some.inj heval)
  have hok : run.res = .ok .clean := by
    cases hr : run.res with
    | error e => rw [hr] at hres; cases hres
    | ok f =>
      rw [hr] at hres
      exact congrArg _ (Option.some.inj hres)
  have hlen := congrArg List.length ((hchecks _ hok).2 rfl).2.1
  rw [rawItems_length, hnum] at hlen
  revert hlen
  decide +kernel

end Law

end Reiser4.Node40
