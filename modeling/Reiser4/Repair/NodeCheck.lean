/-
  The check of one node (`librepair/node.c`).

  fsck checks a node it has found by the methods of its plugins: first the node plugin puts the array
  of item headers in order, then every item is checked by its own plugin.  In build mode what cannot be
  repaired is cut out of the node, so that a node with a fatal result is one that has to be given up.

  The methods are those of whatever plugins the node and its items have; `NodeMethods` is the part of
  their tables that the check calls.

    1. `repairNodeCheckStruct`, `repairNodeCheckLevel`   the checks;
    2. `repairNodeCheckStruct_counted`   a check that counts items and is not fatal has counted those it left.
-/
import Reiser4.Repair.TwigScan
import Mathlib.Data.List.Count

namespace Reiser4.Repair

/-- A set of `RE_FIXABLE` and `RE_FATAL`. -/
structure RepairFlags where
  fixable : Bool
  fatal : Bool
  deriving DecidableEq, Repr

namespace RepairFlags

/-- No error. -/
def clean : RepairFlags := ⟨false, false⟩

def reFixable : RepairFlags := ⟨true, false⟩
def reFatal : RepairFlags := ⟨false, true⟩

/-- `|=`. -/
def join (a b : RepairFlags) : RepairFlags := ⟨a.fixable || b.fixable, a.fatal || b.fatal⟩

@[simp] theorem join_fatal (a b : RepairFlags) : (a.join b).fatal = (a.fatal || b.fatal) := rfl

end RepairFlags

/-- What the check of a node calls of the plugins: of the node plugin, of the plugins of the items, of
    the key plugin. -/
structure NodeMethods (ι : Type) where
  /-- `check_struct` of the node plugin: the result, the items, and whether the node got dirty. -/
  checkStruct : Mode → List ι → Except Errno RepairFlags × List ι × Bool
  /-- `reiser4_place_fetch` finds the plugin of the item. -/
  fetch : ι → Bool
  plug : ι → ItemPlug
  key : ι → Key
  /-- `reiser4_node_update_key`. -/
  updateKey : ι → Key → ι
  /-- `check_struct` of the key plugin: the result, and the key. -/
  keyCheckStruct : Key → RepairFlags × Key
  /-- `repair_item_check_struct`: the result, the item, and whether the node got dirty. -/
  itemCheckStruct : Mode → ι → Except Errno RepairFlags × ι × Bool
  /-- `reiser4_item_maxreal_key`. -/
  maxrealKey : ι → Except Errno Key
  /-- `reiser4_item_clear_flags`: the item, and whether the node got dirty. -/
  clearFlags : ι → ι × Bool
  plug_updateKey : ∀ it k, plug (updateKey it k) = plug it

/-! ## The items -/

/-- What the check of a node answers, and what it leaves: the items, whether the node got dirty, and
    the data of the callback. -/
structure NodeCheck (ι δ : Type) where
  res : Except Errno RepairFlags
  items : List ι
  dirty : Bool
  data : δ

/-- The variables of the loop over the items: `prev` is the key the next item may not be smaller
    than. -/
structure ItemsCheck where
  prev : Option Key
  res : RepairFlags
  dirty : Bool

/-- What becomes of one item. -/
inductive ItemCheck (ι : Type)
  /-- The check of the node ends here. -/
  | stop (res : Except Errno RepairFlags) (it : ι) (s : ItemsCheck)
  /-- The item cannot be repaired (`error_remove_item`). -/
  | broken (it : ι) (s : ItemsCheck)
  /-- The item stays, and `place` is handed to the callback. -/
  | sound (it place : ι) (s : ItemsCheck)

section Model

variable {ι δ : Type} (M : NodeMethods ι) (mode : Mode) (func : ι → δ → δ)

/-- The body of the loop of `repair_node_items_check`, without the callback. -/
def itemCheck (it : ι) (s : ItemsCheck) : ItemCheck ι :=
  if !M.fetch it then .stop (.error .einval) it s
  else
    -- `ret = check_struct < 0`: the answer itself is lost, so a key is at most corrected.
    let key := (M.keyCheckStruct (M.key it)).2
    let wrong := Key.compfull key (M.key it) != 0
    let fixes := wrong && mode != .check
    let s := { s with
      res := if wrong && !fixes then s.res.join .reFixable else s.res
      dirty := s.dirty || fixes }
    -- The place keeps the key it was fetched with.
    let r := M.itemCheckStruct mode it
    let mine := if fixes then M.updateKey r.2.1 key else r.2.1
    let s := { s with dirty := s.dirty || r.2.2 }
    match r.1 with
    | .error e => .stop (.error e) mine s
    | .ok ret =>
      if ret.fatal then .broken mine s
      else
        let s := { s with res := s.res.join ret }
        if s.prev.any fun p => decide (0 < Key.compfull p key) then .stop (.ok .reFatal) mine s
        else
          match M.maxrealKey r.2.1 with
          | .error e => .stop (.error e) mine s
          | .ok maxreal =>
            if 0 < Key.compfull key maxreal then .broken mine { s with prev := some key }
            else .sound mine r.2.1 { s with prev := some maxreal }

/-- The loop of `repair_node_items_check`; `done` are the items in front of the current one, last
    first.  The callback does not fail. -/
def itemsCheckLoop : List ι → List ι → ItemsCheck → δ → NodeCheck ι δ
  | done, [], s, data => ⟨.ok s.res, done.reverse, s.dirty, data⟩
  | done, it :: rest, s, data =>
    match itemCheck M mode it s with
    | .stop res it s => ⟨res, done.reverse ++ it :: rest, s.dirty, data⟩
    | .broken it s =>
      if mode = .build then itemsCheckLoop done rest { s with dirty := true } data
      else itemsCheckLoop (it :: done) rest { s with res := s.res.join .reFatal } data
    | .sound it place s => itemsCheckLoop (it :: done) rest s (func place data)

/-- `repair_node_items_check`. -/
def repairNodeItemsCheck (items : List ι) (data : δ) : NodeCheck ι δ :=
  itemsCheckLoop M mode func [] items ⟨none, .clean, false⟩ data

/-- `repair_node_check_struct`. -/
def repairNodeCheckStruct (items : List ι) (data : δ) : NodeCheck ι δ :=
  match M.checkStruct mode items with
  | (.error e, items, w) => ⟨.error e, items, w, data⟩
  | (.ok res, items, w) =>
    if res.fatal then ⟨.ok res, items, w, data⟩
    else
      let r := repairNodeItemsCheck M mode func items data
      { r with res := r.res.map res.join, dirty := w || r.dirty }

/-- `LEAF_LEVEL` and `TWIG_LEVEL`. -/
def leafLevel : Nat := 1
def twigLevel : Nat := 2

/-- `repair_tree_legal_level`. -/
def repairTreeLegalLevel (plug : ItemPlug) (level : Nat) : Bool :=
  match plug with
  | .nodeptr40 => level != leafLevel
  | .extent40 => level == twigLevel
  | _ => level == leafLevel

/-- `repair_tree_data_level`: some item that is no branch is legal on the level. -/
def repairTreeDataLevel (level : Nat) : Bool :=
  level != 0 && [ItemPlug.stat40, .bbox40, .nodeptr40, .cde40, .plain40, .ctail40, .extent40].any
    fun plug => repairTreeLegalLevel plug level && plug != .nodeptr40

/-- The loop of `repair_node_check_level`. -/
def checkLevelLoop (level : Nat) : List ι → Except Errno RepairFlags
  | [] => .ok .clean
  | it :: rest =>
    if !M.fetch it then .error .einval
    else if !repairTreeLegalLevel (M.plug it) level then .ok .reFatal
    else checkLevelLoop level rest

/-- `repair_node_check_level`. -/
def repairNodeCheckLevel (level : Nat) (items : List ι) : Except Errno RepairFlags :=
  if level = 0 then .ok .reFatal else checkLevelLoop M level items

end Model

theorem repairTreeDataLevel_iff (level : Nat) :
    repairTreeDataLevel level = true ↔ level = leafLevel ∨ level = twigLevel := by
  unfold repairTreeDataLevel repairTreeLegalLevel leafLevel twigLevel
  simp only [List.any_cons, List.any_nil, Bool.or_false]
  simp
  omega

/-! ## Counting the items that are left -/

section Counted

variable {ι δ : Type} {M : NodeMethods ι} {mode : Mode}

/-- What is known of the outcome for one item. -/
def ItemCheck.Sane (M : NodeMethods ι) (before : RepairFlags) : ItemCheck ι → Prop
  | .stop res _ _ => ∀ f, res = .ok f → f.fatal = true
  | .broken _ s => before.fatal = true → s.res.fatal = true
  | .sound it place s => M.plug it = M.plug place ∧ (before.fatal = true → s.res.fatal = true)

theorem ItemCheck.sane_ite {before : RepairFlags} {c : Prop} [Decidable c] {x y : ItemCheck ι}
    (hx : x.Sane M before) (hy : y.Sane M before) : (if c then x else y).Sane M before := by
  split
  · exact hx
  · exact hy

variable (M mode) in
theorem itemCheck_sane (it : ι) (s : ItemsCheck) : (itemCheck M mode it s).Sane M s.res := by
  have hres : ∀ b : Bool, s.res.fatal = true →
      (if b = true then s.res.join .reFixable else s.res).fatal = true := by
    intro b h
    cases b <;> simp [h]
  have hplug : ∀ (b : Bool) (it' : ι) (k : Key),
      M.plug (if b = true then M.updateKey it' k else it') = M.plug it' := by
    intro b it' k
    cases b <;> simp [M.plug_updateKey]
  have herr : ∀ (e : Errno) (mine : ι) (s' : ItemsCheck),
      (ItemCheck.stop (.error e) mine s').Sane M s.res := by
    intro e mine s' f h
    cases h
  unfold itemCheck
  refine ItemCheck.sane_ite (herr _ _ _) ?_
  dsimp only
  cases hr : (M.itemCheckStruct mode it).1 with
  | error e => exact herr _ _ _
  | ok ret =>
    have hjoin : s.res.fatal = true → ∀ b : Bool,
        ((if b = true then s.res.join .reFixable else s.res).join ret).fatal = true := by
      intro h b
      rw [RepairFlags.join_fatal, hres b h, Bool.true_or]
    dsimp only
    refine ItemCheck.sane_ite ?_ (ItemCheck.sane_ite ?_ ?_)
    · exact hres _
    · intro f h
      cases h
      rfl
    · cases hm : M.maxrealKey (M.itemCheckStruct mode it).2.1 with
      | error e => exact herr _ _ _
      | ok maxreal =>
        dsimp only
        refine ItemCheck.sane_ite ?_ ?_
        · exact fun h => hjoin h _
        · exact ⟨hplug _ _ _, fun h => hjoin h _⟩

/-- A fatal error stays. -/
theorem itemsCheckLoop_fatal (func : ι → δ → δ) : ∀ (rest done : List ι) (s : ItemsCheck) (data : δ),
    s.res.fatal = true → ∀ f, (itemsCheckLoop M mode func done rest s data).res = .ok f →
      f.fatal = true
  | [], _, s, _, hs, f, h => by
    rw [itemsCheckLoop] at h
    cases h
    exact hs
  | it :: rest, done, s, data, hs, f, h => by
    have hsane := itemCheck_sane M mode it s
    rw [itemsCheckLoop] at h
    cases hit : itemCheck M mode it s with
    | stop res it' s' =>
      rw [hit] at hsane h
      exact hsane f h
    | broken it' s' =>
      rw [hit] at hsane h
      dsimp only at h
      split at h
      · exact itemsCheckLoop_fatal func rest _ { s' with dirty := true } data (hsane hs) f h
      · exact itemsCheckLoop_fatal func rest _ _ data (by simp [RepairFlags.reFatal]) f h
    | sound it' place s' =>
      rw [hit] at hsane h
      exact itemsCheckLoop_fatal func rest _ s' _ (hsane.2 hs) f h

/-- The callback that counts the items of a plugin. -/
def countPlug (M : NodeMethods ι) (plug : ItemPlug) (it : ι) (n : Nat) : Nat :=
  n + if M.plug it = plug then 1 else 0

/-- The number of items of a plugin. -/
def plugCount (M : NodeMethods ι) (plug : ItemPlug) (items : List ι) : Nat :=
  items.countP fun it => M.plug it = plug

theorem plugCount_cons (plug : ItemPlug) (it : ι) (items : List ι) :
    plugCount M plug (it :: items) =
      plugCount M plug items + if M.plug it = plug then 1 else 0 := by
  simp [plugCount, List.countP_cons]

theorem itemsCheckLoop_counted (plug : ItemPlug) : ∀ (rest done : List ι) (s : ItemsCheck) (n : Nat)
    (f : RepairFlags), (itemsCheckLoop M mode (countPlug M plug) done rest s n).res = .ok f →
      f.fatal = false →
      (itemsCheckLoop M mode (countPlug M plug) done rest s n).data + plugCount M plug done =
        n + plugCount M plug (itemsCheckLoop M mode (countPlug M plug) done rest s n).items
  | [], done, s, n, f, _, _ => by
    rw [itemsCheckLoop]
    simp [plugCount]
  | it :: rest, done, s, n, f, h, hf => by
    have hsane := itemCheck_sane M mode it s
    rw [itemsCheckLoop] at h ⊢
    cases hit : itemCheck M mode it s with
    | stop res it' s' =>
      rw [hit] at hsane h
      rw [hsane f h] at hf
      cases hf
    | broken it' s' =>
      rw [hit] at h
      dsimp only at h ⊢
      split
      · next hb =>
        rw [if_pos hb] at h
        exact itemsCheckLoop_counted plug rest done _ n f h hf
      · next hb =>
        -- In the other modes the item stays, and the result is fatal.
        rw [if_neg hb] at h
        have hfatal := itemsCheckLoop_fatal _ rest _ _ n (by simp [RepairFlags.reFatal]) f h
        rw [hfatal] at hf
        cases hf
    | sound it' place s' =>
      rw [hit] at hsane h
      dsimp only at h ⊢
      have ih := itemsCheckLoop_counted plug rest (it' :: done) s' _ f h hf
      rw [plugCount_cons, hsane.1, countPlug] at ih
      rw [countPlug]
      omega

variable (M mode) in
/-- The count starts from what it is given, and nothing else depends on it. -/
theorem itemsCheckLoop_from (plug : ItemPlug) : ∀ (rest done : List ι) (s : ItemsCheck) (m n : Nat),
    itemsCheckLoop M mode (countPlug M plug) done rest s (m + n) =
      { itemsCheckLoop M mode (countPlug M plug) done rest s n with
        data := m + (itemsCheckLoop M mode (countPlug M plug) done rest s n).data }
  | [], done, s, m, n => by
    rw [itemsCheckLoop, itemsCheckLoop]
  | it :: rest, done, s, m, n => by
    rw [itemsCheckLoop, itemsCheckLoop]
    cases hit : itemCheck M mode it s with
    | stop res it' s' => rfl
    | broken it' s' =>
      dsimp only
      split
      · exact itemsCheckLoop_from plug rest _ _ m n
      · exact itemsCheckLoop_from plug rest _ _ m n
    | sound it' place s' =>
      dsimp only
      have hadd : countPlug M plug place (m + n) = m + countPlug M plug place n := by
        unfold countPlug
        omega
      rw [hadd]
      exact itemsCheckLoop_from plug rest _ _ m _

theorem repairNodeCheckStruct_from (plug : ItemPlug) (items : List ι) (n : Nat) :
    repairNodeCheckStruct M mode (countPlug M plug) items n =
      { repairNodeCheckStruct M mode (countPlug M plug) items 0 with
        data := n + (repairNodeCheckStruct M mode (countPlug M plug) items 0).data } := by
  unfold repairNodeCheckStruct
  match M.checkStruct mode items with
  | (.error e, items', w) => rfl
  | (.ok res, items', w) =>
    dsimp only
    split
    · rfl
    · unfold repairNodeItemsCheck
      have hfrom := itemsCheckLoop_from M mode plug items' []
        ⟨none, .clean, false⟩ n 0
      rw [Nat.add_zero] at hfrom
      rw [hfrom]

/-- **A check that is not fatal has counted the items it left.** -/
theorem repairNodeCheckStruct_counted (plug : ItemPlug) {items : List ι} {f : RepairFlags}
    (h : (repairNodeCheckStruct M mode (countPlug M plug) items 0).res = .ok f)
    (hf : f.fatal = false) :
    (repairNodeCheckStruct M mode (countPlug M plug) items 0).data =
      plugCount M plug (repairNodeCheckStruct M mode (countPlug M plug) items 0).items := by
  unfold repairNodeCheckStruct at h ⊢
  match hs : M.checkStruct mode items with
  | (.error e, items', w) =>
    rw [hs] at h
    cases h
  | (.ok res, items', w) =>
    rw [hs] at h
    dsimp only at h ⊢
    split
    · next hres =>
      rw [if_pos hres] at h
      cases h
      rw [hf] at hres
      cases hres
    · next hres =>
      rw [if_neg hres] at h
      unfold repairNodeItemsCheck at h ⊢
      cases hloop : (itemsCheckLoop M mode (countPlug M plug) [] items'
          ⟨none, .clean, false⟩ 0).res with
      | error e =>
        simp only [hloop] at h
        cases h
      | ok g =>
        simp only [hloop] at h
        cases h
        rw [RepairFlags.join_fatal, Bool.or_eq_false_iff] at hf
        have hcount := itemsCheckLoop_counted plug items' [] _ 0 g hloop hf.2
        simpa [plugCount] using hcount

end Counted

end Reiser4.Repair
