/-
  Shifting whole items into a neighbour (`node40_predict`, `node40_move`).

  The prediction walks over the items of the source from the border on and counts those that fit into the
  neighbour.  It carries the insert point along: when the point's item is taken and the point may go with
  it, the point goes over and the walk ends; otherwise the walk ends in front of that item.

    1. `WF.taken`              `node40_shrink` takes a span of items out;
    2. `Predicted`             what is so at each step of the walk: bytes, space and the place of the point
                               in the row of both nodes;
    3. `predictLoop_predicted` and at its end, with the reason why it ended (`Ended`);
    4. `node40Move_shifts`     the items of both nodes stay in their order, and so does the point.
-/
import Reiser4.Node40.Expand
import Reiser4.Node40.Merge

namespace Reiser4

open Reiser4.Lib

namespace Node40

/-! ## The routines -/

/-- The flags of `shift_hint_t.control` (`enum shift_flags`). -/
structure ShiftFlags where
  allowLeft : Bool
  allowRight : Bool
  movePoint : Bool
  updatePoint : Bool
  allowMerge : Bool
  holdPos : Bool
  deriving DecidableEq, Repr

/-- `shift_hint_t`; `pos` is `item` and `unit`, and of `result` there is the bit `SF_MOVE_POINT`. -/
structure ShiftHint where
  create : Bool
  update : Bool
  itemsNumber : Nat
  unitsNumber : Nat
  itemsBytes : Nat
  unitsBytes : Nat
  control : ShiftFlags
  movePoint : Bool
  item : Nat
  unit : Nat
  deriving DecidableEq, Repr

section Model

variable (pol : KeyPol) (src dst : NodeBlock)

/-- `balance->units` of the item plugins. -/
def placeUnits (mem : Bytes) (p : Place) : Nat :=
  match p.plug with
  | .cde40 => Cde40.getUnits mem p.body
  | .extent40 => p.len / 16
  | .plain40 | .ctail40 => u32 (p.len + (two32 - p.off))
  | .stat40 | .nodeptr40 | .bbox40 => 1

/-- What `node40_predict` does about the insert point before it takes an item, and whether it goes on. -/
def predictPoint (srcItems dstItems : Nat) (hint : ShiftHint) : Except Errno (ShiftHint × Bool) :=
  if hint.control.updatePoint then
    if hint.control.allowLeft then
      if hint.item = 0 then do
        -- The item is the first one of the node, however many have been counted.
        let place ← fetch pol src 0
        let units := placeUnits src.mem place
        if hint.control.movePoint ∧ (hint.unit = maxUint32 ∨ u32 (units + (two32 - 1)) ≤ hint.unit) then
          return ({ hint with movePoint := true, item := dstItems }, true)
        else return (hint, false)
      else return ({ hint with item := hint.item - 1 }, true)
    else if srcItems - 1 ≤ hint.item then
      if hint.item = srcItems - 1 then
        if hint.control.movePoint ∧ (hint.unit = maxUint32 ∨ hint.unit = 0) then
          return ({ hint with movePoint := true, item := 0 }, true)
        else return (hint, decide (hint.unit = maxUint32))
      else if hint.control.movePoint then return ({ hint with movePoint := true, item := 0 }, false)
      else return (hint, false)
    else return (hint, true)
  else return (hint, true)

/-- The length of the item whose header is at `cur`, as `node40_predict` takes it. -/
def predictLen (cur : Nat) : Nat :=
  let ih := ihAt pol src cur
  if cur = getNumItems src - 1 then u32 (getFreeSpaceStart src + (two32 - ihGetOffset pol src.mem ih))
  else u32 (ihGetOffset pol src.mem (ih - ihSize pol) + (two32 - ihGetOffset pol src.mem ih))

/-- The loop of `node40_predict`, with the number of items that are left. -/
def predictLoop : Nat → Nat → Nat → Nat → ShiftHint → Except Errno ShiftHint
  | 0, _, _, space, hint => .ok { hint with unitsBytes := space }
  | srcItems + 1, cur, dstItems, space, hint =>
    let stop (hint : ShiftHint) : Except Errno ShiftHint := .ok { hint with unitsBytes := space }
    if hint.movePoint then stop hint
    else if ¬ hint.control.movePoint ∧ hint.control.allowRight ∧ srcItems + 1 ≤ hint.item then stop hint
    else
      let len := predictLen pol src cur
      if space < len + ihSize pol then stop hint
      else do
        let (hint, more) ← predictPoint pol src (srcItems + 1) dstItems hint
        if more then
          predictLoop srcItems (if hint.control.allowLeft then cur + 1 else cur - 1) (dstItems + 1)
            (space - (len + ihSize pol))
            { hint with itemsNumber := hint.itemsNumber + 1, itemsBytes := hint.itemsBytes + len }
        else stop hint

/-- `node40_predict`. -/
def predict (hint : ShiftHint) : Except Errno ShiftHint :=
  let srcItems := getNumItems src
  if srcItems = 0 then .ok hint
  else
    predictLoop pol src srcItems (if hint.control.allowLeft then 0 else srcItems - 1) (getNumItems dst)
      (getFreeSpace dst) hint

/-- `node40_move`: the source, the neighbour and the hint afterwards. -/
def move (hint : ShiftHint) : Except Errno (NodeBlock × NodeBlock × ShiftHint) := do
  let dstItems := getNumItems dst
  let srcItems := getNumItems src
  let hint ← predict pol src dst hint
  if hint.itemsNumber = 0 ∨ hint.itemsBytes = 0 then return (src, dst, hint)
  else
    let srcPos := if hint.control.allowLeft then 0 else srcItems - hint.itemsNumber
    let dstPos := if hint.control.allowLeft then dstItems else 0
    let dst := expand pol dst dstPos maxUint32 hint.itemsBytes hint.itemsNumber
    let dst := copy pol dst dstPos src srcPos hint.itemsNumber
    let src := shrink pol src srcPos maxUint32 hint.itemsBytes hint.itemsNumber
    return (src, dst, { hint with update := true })

end Model

/-! ## Taking a span of items out -/

section Taken

variable {pol : KeyPol} {node : NodeBlock} {hs pos count : Nat}

/-- The node without `count` items from `pos` on, whose bodies have `len` bytes. -/
structure Taken (pol : KeyPol) (node node' : NodeBlock) (pos len count : Nat) : Prop where
  size : node'.size = node.size
  items : getNumItems node' = getNumItems node - count
  space : getFreeSpace node' = getFreeSpace node + (len + count * ihSize pol)
  boundFront : ∀ i, i ≤ pos → bound pol node' i = bound pol node i
  boundBack : ∀ i, pos ≤ i → i + count ≤ getNumItems node →
    bound pol node' i = bound pol node (i + count) - len
  headFront : ∀ i, i < pos → ∀ a, a < ihSize pol →
    node'.mem (ihAt pol node i + a) = node.mem (ihAt pol node i + a)
  headBack : ∀ i, pos ≤ i → i + count < getNumItems node → ∀ a, a < ihSize pol →
    (a < keySize pol ∨ keySize pol + 2 ≤ a) →
    node'.mem (ihAt pol node i + a) = node.mem (ihAt pol node (i + count) + a)
  front : ∀ a, 8 ≤ a → a < bound pol node pos → node'.mem a = node.mem a
  back : ∀ a, bound pol node pos ≤ a → a + len < getFreeSpaceStart node → node'.mem a = node.mem (a + len)

theorem spanLen_add (h : WF pol node hs) (hle : pos + count ≤ getNumItems node) :
    bound pol node pos + spanLen pol node pos count = bound pol node (pos + count) := by
  have := h.bound_mono (Nat.le_add_right pos count) hle
  unfold spanLen
  omega

theorem taken_shrink (h : WF pol node hs) (hcount : 0 < count) (hle : pos + count ≤ getNumItems node) :
    Taken pol node (shrink pol node pos maxUint32 (spanLen pol node pos count) count) pos
      (spanLen pol node pos count) count := by
  have hsize : ihSize pol = keySize pol + 6 := rfl
  have hspace := h.space
  have hblk := h.size
  have hheader := h.header
  have h16 := two16_eq
  have hmax := maxBlksize_eq
  have hspan := spanLen_add h hle
  obtain ⟨len, hlen⟩ : ∃ l, l = spanLen pol node pos count := ⟨_, rfl⟩
  rw [← hlen] at hspan ⊢
  have hend := h.bound_le_start hle
  have hfirst : hs ≤ bound pol node pos := h.le_bound (by omega)
  have hcountLe : count * ihSize pol ≤ getNumItems node * ihSize pol := Nat.mul_le_mul_right _ (by omega)
  have hib : ibAt pol node pos = bound pol node pos := (bound_lt (by omega)).symm
  have hdec : ∀ v, len ≤ v → v < two16 → (v + (two32 - len)) % two16 = v - len := fun v h1 h2 =>
    dec_mod h1 h2
  by_cases hmore : pos + count < getNumItems node
  · have hlast := h.start_le_ihAt (show getNumItems node - 1 < getNumItems node by omega)
    have hcut := @shrink_cut pol node pos len count (by omega) hmore (by omega) (by omega)
    obtain ⟨node', hnode'⟩ : ∃ m, m = shrink pol node pos maxUint32 len count := ⟨_, rfl⟩
    rw [← hnode'] at hcut ⊢
    have hat : ∀ i, ihAt pol node' i = ihAt pol node i := ihAt_congr hcut.size
    have hstart : getFreeSpaceStart node' = getFreeSpaceStart node - len := by
      rw [hcut.start, hdec _ (by omega) (by omega)]
    have hboundBack : ∀ i, pos ≤ i → i + count ≤ getNumItems node →
        bound pol node' i = bound pol node (i + count) - len := by
      intro i hlo hi
      by_cases hlt : i + count < getNumItems node
      · have h1 : bound pol node (pos + count) ≤ bound pol node (i + count) :=
          h.bound_mono (by omega) (by omega)
        have h2 : bound pol node (i + count) ≤ getFreeSpaceStart node := h.bound_le_start (by omega)
        rw [bound_lt (by rw [hcut.items]; omega), hat, hcut.offsetBack i hlo hlt, ← bound_lt hlt,
          hdec _ (by omega) (by omega)]
      · rw [show i + count = getNumItems node by omega, bound_top,
          show i = getNumItems node' by rw [hcut.items]; omega, bound_top, hstart]
    refine ⟨hcut.size, hcut.items, ?_, ?_, hboundBack, hcut.headFront, hcut.headBack, ?_, ?_⟩
    · rw [hcut.space, Nat.mod_eq_of_lt (by omega)]
    · intro i hi
      by_cases hlt : i < pos
      · rw [bound_lt (by rw [hcut.items]; omega), hat, bound_lt (by omega)]
        exact ihGetOffset_congr fun a ha => hcut.headFront i hlt a ha
      · rw [show i = pos by omega, hboundBack pos (Nat.le_refl _) hle]
        omega
    · intro a h8 ha
      exact hcut.front a (Or.inr h8) (by omega)
    · intro a hlo hhi
      exact hcut.back a (by omega) (by omega)
  · obtain ⟨hsize', hitems, hfree, hstart, hmem⟩ := @shrink_last pol node pos len count (by omega) (by omega)
    obtain ⟨node', hnode'⟩ : ∃ m, m = shrink pol node pos maxUint32 len count := ⟨_, rfl⟩
    rw [← hnode'] at hsize' hitems hfree hstart hmem ⊢
    have hat : ∀ i, ihAt pol node' i = ihAt pol node i := ihAt_congr hsize'
    have htop := @bound_top pol node
    have htop' := @bound_top pol node'
    rw [hitems, hstart, hdec _ (by omega) (by omega), show getNumItems node - count = pos by omega] at htop'
    have hfront : ∀ i, i ≤ pos → bound pol node' i = bound pol node i := by
      intro i hi
      by_cases hlt : i < pos
      · have := h.start_le_ihAt (show i < getNumItems node by omega)
        rw [bound_lt (by omega), hat, bound_lt (by omega)]
        exact ihGetOffset_congr fun a _ => hmem _ (Or.inr (by omega))
      · rw [show i = pos by omega, htop']
        rw [show getNumItems node = pos + count by omega] at htop
        omega
    refine ⟨hsize', hitems, ?_, hfront, ?_, ?_, ?_, ?_, ?_⟩
    · rw [hfree, Nat.mod_eq_of_lt (by omega)]
    · intro i hlo hi
      rw [show i = pos by omega, hfront pos (Nat.le_refl _)]
      omega
    · intro i hi a ha
      have := h.start_le_ihAt (show i < getNumItems node by omega)
      exact hmem _ (Or.inr (by omega))
    · intro i hlo hi
      omega
    · intro a h8 _
      exact hmem a (Or.inr h8)
    · intro a hlo hhi
      rw [show getNumItems node = pos + count by omega] at htop
      omega

/-- **Taking `count` items out** of a well-formed node leaves the others as they were. -/
theorem WF.taken (h : WF pol node hs) (hle : pos + count ≤ getNumItems node)
    {node' : NodeBlock} (ht : Taken pol node node' pos (spanLen pol node pos count) count) :
    WF pol node' hs ∧
      rawItems pol node' = (rawItems pol node).take pos ++ (rawItems pol node).drop (pos + count) := by
  have hspace := h.space
  have hheader := h.header
  have hspan := spanLen_add h hle
  obtain ⟨len, hlen⟩ : ∃ l, l = spanLen pol node pos count := ⟨_, rfl⟩
  rw [← hlen] at hspan ht
  have hat : ∀ i, ihAt pol node' i = ihAt pol node i := ihAt_congr ht.size
  have hstart : getFreeSpaceStart node' = getFreeSpaceStart node - len := by
    have := ht.boundBack (getNumItems node - count) (by omega) (by omega)
    rwa [← ht.items, bound_top, ht.items, Nat.sub_add_cancel (by omega), bound_top] at this
  have hend := h.bound_le_start hle
  refine ⟨⟨hheader, ?_, ?_, ?_, ?_⟩, ?_⟩
  · rw [ht.boundFront 0 (Nat.zero_le _), h.start]
  · intro i hi
    rw [ht.items] at hi
    by_cases hlt : i < pos
    · rw [ht.boundFront i (by omega), ht.boundFront (i + 1) hlt]
      exact h.order i (by omega)
    · have h1 := h.order (i + count) (by omega)
      have h2 : bound pol node (pos + count) ≤ bound pol node (i + count) :=
        h.bound_mono (by omega) (by omega)
      rw [ht.boundBack i (by omega) (by omega), ht.boundBack (i + 1) (by omega) (by omega),
        show i + 1 + count = i + count + 1 by omega]
      omega
  · have hn : (getNumItems node - count) * ihSize pol + count * ihSize pol =
        getNumItems node * ihSize pol := by
      rw [← Nat.add_mul, Nat.sub_add_cancel (by omega)]
    rw [hstart, ht.space, ht.items, ht.size]
    omega
  · rw [ht.size]
    exact h.size
  · have hsplit : rawItems pol node' = (List.range pos).map (item pol node') ++
        (List.range (getNumItems node - (pos + count))).map fun i => item pol node' (pos + i) := by
      unfold rawItems
      rw [ht.items, show getNumItems node - count = pos + (getNumItems node - (pos + count)) by omega,
        List.range_add, List.map_append, List.map_map]
      rfl
    rw [hsplit, rawItems_take (show pos ≤ getNumItems node by omega), rawItems_drop hle]
    congr 1
    · refine List.map_congr_left fun i hi => ?_
      have hi' := List.mem_range.mp hi
      have hb : bound pol node i ≤ bound pol node (i + 1) := h.bound_mono (Nat.le_succ _) (by omega)
      have hb' : bound pol node (i + 1) ≤ bound pol node pos := h.bound_mono hi' (by omega)
      have hlow : hs ≤ bound pol node i := h.le_bound (by omega)
      refine item_eq (fun a ha _ => ?_) ?_ fun a ha => ?_
      · rw [hat]
        exact ht.headFront i hi' a ha
      · rw [ht.boundFront i (by omega), ht.boundFront (i + 1) hi']
      · rw [ht.boundFront i (by omega)]
        exact ht.front _ (by omega) (by omega)
    · refine List.map_congr_left fun i hi => ?_
      have hi' := List.mem_range.mp hi
      have h1 : bound pol node (pos + count) ≤ bound pol node (pos + count + i) :=
        h.bound_mono (by omega) (by omega)
      have h2 := h.order (pos + count + i) (by omega)
      have h3 : bound pol node (pos + count + i + 1) ≤ getFreeSpaceStart node := h.bound_le_start (by omega)
      have hto : pos + i + count = pos + count + i := by omega
      refine item_eq (fun a ha hfield => ?_) ?_ fun a ha => ?_
      · rw [hat, ← hto]
        exact ht.headBack _ (by omega) (by omega) a ha hfield
      · rw [ht.boundBack _ (by omega) (by omega), ht.boundBack _ (by omega) (by omega), hto,
          show pos + i + 1 + count = pos + count + i + 1 by omega]
        omega
      · rw [ht.boundBack _ (by omega) (by omega), hto, ht.back _ (by omega) (by omega)]
        congr 1
        omega

end Taken

/-! ## The prediction -/

/-- The place of the item that the insert point is at, in the row of the items of both nodes: `n` items of
    the source and `dn` of the neighbour at the start. -/
def ShiftHint.rowItem (n dn : Nat) (hint : ShiftHint) : Nat :=
  if hint.control.allowLeft then
    if hint.movePoint then hint.item else dn + hint.itemsNumber + hint.item
  else if hint.movePoint then n - hint.itemsNumber + hint.item
  else hint.item

/-- The insert point is at the item at the border, or is what the walk may not pass. -/
def ShiftHint.AtBorder (n : Nat) (hint : ShiftHint) : Prop :=
  if hint.control.allowLeft then hint.control.updatePoint = true ∧ hint.item = 0
  else n ≤ hint.itemsNumber + hint.item + 1

/-- What looking after the insert point does in front of an item. -/
structure PointStep (n dn : Nat) (hint hint' : ShiftHint) (more : Bool) : Prop where
  rest : hint' = { hint with movePoint := hint'.movePoint, item := hint'.item }
  point : hint.control.updatePoint = true →
    ShiftHint.rowItem n dn { hint' with itemsNumber := hint.itemsNumber + more.toNat } = hint.rowItem n dn
  inside : hint.control.updatePoint = true → hint'.movePoint = false →
    hint'.item ≤ n - (hint.itemsNumber + more.toNat)
  free : hint.control.updatePoint = false → hint' = hint
  border : more = false → hint'.movePoint = true ∨ hint'.AtBorder n

section Predict

variable {pol : KeyPol} {src dst : NodeBlock} {n dn srcItems : Nat} {hint : ShiftHint}

theorem predictPoint_step (hfetch : ∃ p, fetch pol src 0 = .ok p) (hsum : srcItems + hint.itemsNumber = n)
    (hpos : 0 < srcItems) (hpoint : hint.movePoint = false)
    (hinside : hint.control.updatePoint = true → hint.item ≤ srcItems) :
    ∃ hint' more, predictPoint pol src srcItems (dn + hint.itemsNumber) hint = .ok (hint', more) ∧
      PointStep n dn hint hint' more := by
  obtain ⟨place, hplace⟩ := hfetch
  unfold predictPoint
  by_cases hupdate : hint.control.updatePoint = true
  · have hin := hinside hupdate
    rw [if_pos hupdate]
    by_cases hleft : hint.control.allowLeft = true
    · rw [if_pos hleft]
      by_cases hitem : hint.item = 0
      · rw [if_pos hitem, hplace]
        by_cases hgo : hint.control.movePoint = true ∧ (hint.unit = maxUint32 ∨
            u32 (placeUnits src.mem place + (two32 - 1)) ≤ hint.unit)
        · refine ⟨_, true, if_pos hgo, rfl, ?_, ?_, ?_, nofun⟩
          · intro _
            simp [ShiftHint.rowItem, hleft, hpoint, hitem]
          · intro _ hm
            cases hm
          · intro hu
            rw [hupdate] at hu
            cases hu
        · refine ⟨hint, false, if_neg hgo, rfl, fun _ => rfl, fun _ _ => ?_, fun _ => rfl, fun _ => Or.inr ?_⟩
          · rw [hitem]
            exact Nat.zero_le _
          · unfold ShiftHint.AtBorder
            rw [if_pos hleft]
            exact ⟨hupdate, hitem⟩
      · rw [if_neg hitem]
        refine ⟨_, true, rfl, rfl, ?_, ?_, ?_, nofun⟩
        · intro _
          simp only [ShiftHint.rowItem, hleft, hpoint, if_true, Bool.toNat_true]
          have : dn + (hint.itemsNumber + 1) + (hint.item - 1) = dn + hint.itemsNumber + hint.item := by omega
          simpa using this
        · intro _ _
          show hint.item - 1 ≤ n - (hint.itemsNumber + 1)
          omega
        · intro hu
          rw [hupdate] at hu
          cases hu
    · have hright : hint.control.allowLeft = false := by simpa using hleft
      rw [if_neg hleft]
      by_cases hend : srcItems - 1 ≤ hint.item
      · rw [if_pos hend]
        by_cases hlast : hint.item = srcItems - 1
        · rw [if_pos hlast]
          by_cases hgo : hint.control.movePoint = true ∧ (hint.unit = maxUint32 ∨ hint.unit = 0)
          · refine ⟨_, true, if_pos hgo, rfl, ?_, ?_, ?_, nofun⟩
            · intro _
              have : n - (hint.itemsNumber + 1) + 0 = hint.item := by omega
              simpa [ShiftHint.rowItem, hright, hpoint] using this
            · intro _ hm
              cases hm
            · intro hu
              rw [hupdate] at hu
              cases hu
          · refine ⟨hint, decide (hint.unit = maxUint32), if_neg hgo, rfl, ?_, ?_, fun _ => rfl, ?_⟩
            · intro _
              simp [ShiftHint.rowItem, hright, hpoint]
            · intro _ _
              have : (decide (hint.unit = maxUint32)).toNat ≤ 1 := Bool.toNat_le _
              omega
            · intro _
              refine Or.inr ?_
              unfold ShiftHint.AtBorder
              rw [if_neg hleft]
              omega
        · rw [if_neg hlast]
          by_cases hmove : hint.control.movePoint = true
          · rw [if_pos hmove]
            refine ⟨_, false, rfl, rfl, ?_, ?_, ?_, fun _ => Or.inl rfl⟩
            · intro _
              have : n - hint.itemsNumber + 0 = hint.item := by omega
              simpa [ShiftHint.rowItem, hright, hpoint] using this
            · intro _ hm
              cases hm
            · intro hu
              rw [hupdate] at hu
              cases hu
          · rw [if_neg hmove]
            refine ⟨hint, false, rfl, rfl, fun _ => rfl, fun _ _ => ?_, fun _ => rfl, fun _ => Or.inr ?_⟩
            · show hint.item ≤ n - (hint.itemsNumber + 0)
              omega
            · unfold ShiftHint.AtBorder
              rw [if_neg hleft]
              omega
      · rw [if_neg hend]
        refine ⟨hint, true, rfl, rfl, ?_, ?_, fun _ => rfl, nofun⟩
        · intro _
          simp [ShiftHint.rowItem, hright, hpoint]
        · intro _ _
          show hint.item ≤ n - (hint.itemsNumber + 1)
          omega
  · rw [if_neg hupdate]
    refine ⟨hint, true, rfl, rfl, fun hu => absurd hu hupdate, fun hu => absurd hu hupdate, fun _ => rfl, nofun⟩

/-- The length of an item. -/
theorem predictLen_eq {hs cur : Nat} (h : WF pol src hs) (hcur : cur < getNumItems src) :
    predictLen pol src cur = bound pol src (cur + 1) - bound pol src cur := by
  have horder := h.order cur hcur
  have hmono := h.bound_mono (show cur + 1 ≤ getNumItems src from hcur) (Nat.le_refl _)
  have hsmall := h.small
  unfold predictLen
  dsimp only
  rw [← bound_lt hcur]
  by_cases hlast : cur = getNumItems src - 1
  · rw [if_pos hlast, ← @bound_top pol src, show getNumItems src = cur + 1 by omega]
    unfold u32 two32
    omega
  · have hnext : cur + 1 < getNumItems src := by omega
    rw [if_neg hlast, ← h.ihAt_succ hnext, Nat.add_sub_cancel, ← bound_lt hnext]
    unfold u32 two32
    omega

/-- Where the counted items begin in the source. -/
def ShiftHint.from (n : Nat) (hint : ShiftHint) : Nat :=
  if hint.control.allowLeft then 0 else n - hint.itemsNumber

/-- Where the next item is in the source. -/
def ShiftHint.next (n : Nat) (hint : ShiftHint) : Nat :=
  if hint.control.allowLeft then hint.itemsNumber else n - hint.itemsNumber - 1

/-- A state of the prediction that began with `start`; `space` bytes are left in the neighbour. -/
structure Predicted (pol : KeyPol) (src dst : NodeBlock) (start : ShiftHint) (space : Nat) (hint : ShiftHint) :
    Prop where
  rest : hint = { start with itemsNumber := hint.itemsNumber, itemsBytes := hint.itemsBytes,
                             unitsBytes := hint.unitsBytes, movePoint := hint.movePoint, item := hint.item }
  count : hint.itemsNumber ≤ getNumItems src
  bytes : hint.itemsBytes = spanLen pol src (hint.from (getNumItems src)) hint.itemsNumber
  space : hint.itemsBytes + hint.itemsNumber * ihSize pol + space = getFreeSpace dst
  point : start.control.updatePoint = true →
    hint.rowItem (getNumItems src) (getNumItems dst) = start.rowItem (getNumItems src) (getNumItems dst)
  inside : start.control.updatePoint = true → hint.movePoint = false →
    hint.item ≤ getNumItems src - hint.itemsNumber
  free : start.control.updatePoint = false → hint.item = start.item ∧ hint.movePoint = false

/-- Why the walk has ended: nothing is left, the next item does not fit, the insert point is at the border
    or has gone over, or it is behind all items and has to stay. -/
def Ended (pol : KeyPol) (src : NodeBlock) (hint : ShiftHint) : Prop :=
  hint.itemsNumber = getNumItems src ∨
    hint.unitsBytes < spanLen pol src (hint.next (getNumItems src)) 1 + ihSize pol ∨
    hint.movePoint = true ∨ hint.AtBorder (getNumItems src) ∨
    (hint.control.movePoint = false ∧ hint.control.allowRight = true ∧
      getNumItems src ≤ hint.itemsNumber + hint.item)

/-- The bytes of the counted items and the next one. -/
theorem spanLen_next {hs : Nat} (h : WF pol src hs) (hmore : hint.itemsNumber < getNumItems src) :
    spanLen pol src (hint.from (getNumItems src)) hint.itemsNumber +
        spanLen pol src (hint.next (getNumItems src)) 1 =
      spanLen pol src (ShiftHint.from (getNumItems src) { hint with itemsNumber := hint.itemsNumber + 1 })
        (hint.itemsNumber + 1) := by
  unfold ShiftHint.from ShiftHint.next spanLen
  by_cases hleft : hint.control.allowLeft = true
  · have h1 := h.bound_mono (Nat.zero_le hint.itemsNumber) (Nat.le_of_lt hmore)
    have h2 := h.bound_mono (Nat.le_succ hint.itemsNumber) hmore
    rw [if_pos hleft, if_pos hleft, if_pos hleft, Nat.zero_add, Nat.zero_add]
    rw [Nat.succ_eq_add_one] at h2
    omega
  · rw [if_neg hleft, if_neg hleft, if_neg hleft]
    dsimp only
    rw [Nat.sub_add_cancel (by omega), show getNumItems src - hint.itemsNumber - 1 + 1 =
      getNumItems src - hint.itemsNumber by omega, show getNumItems src - (hint.itemsNumber + 1) =
      getNumItems src - hint.itemsNumber - 1 by omega, show getNumItems src - hint.itemsNumber - 1 +
      (hint.itemsNumber + 1) = getNumItems src by omega]
    have h1 := h.bound_mono (show getNumItems src - hint.itemsNumber - 1 ≤ getNumItems src - hint.itemsNumber by
      omega) (by omega)
    have h2 := h.bound_mono (show getNumItems src - hint.itemsNumber ≤ getNumItems src by omega) (Nat.le_refl _)
    omega

/-- **The walk** keeps the prediction, and says why it ends. -/
theorem predictLoop_predicted {hs : Nat} (h : WF pol src hs) (hfetch : ∃ p, fetch pol src 0 = .ok p)
    {start : ShiftHint} : ∀ (srcItems cur space : Nat) (hint : ShiftHint),
    srcItems + hint.itemsNumber = getNumItems src → (0 < srcItems → cur = hint.next (getNumItems src)) →
    Predicted pol src dst start space hint →
    ∃ hint', predictLoop pol src srcItems cur (getNumItems dst + hint.itemsNumber) space hint = .ok hint' ∧
      Predicted pol src dst start hint'.unitsBytes hint' ∧ Ended pol src hint'
  | 0, _, space, hint, hsum, _, hp =>
    ⟨{ hint with unitsBytes := space }, rfl,
      ⟨by rw [hp.rest], hp.count, hp.bytes, hp.space, hp.point, hp.inside, hp.free⟩, Or.inl (by
        show hint.itemsNumber = getNumItems src
        omega)⟩
  | srcItems + 1, cur, space, hint, hsum, hcur, hp => by
    have hcontrol : hint.control = start.control := by rw [hp.rest]
    have hstop : ∀ why : Ended pol src { hint with unitsBytes := space }, ∃ hint',
        (Except.ok { hint with unitsBytes := space } : Except Errno ShiftHint) = .ok hint' ∧
        Predicted pol src dst start hint'.unitsBytes hint' ∧ Ended pol src hint' := fun why =>
      ⟨_, rfl, ⟨by rw [hp.rest], hp.count, hp.bytes, hp.space, hp.point, hp.inside, hp.free⟩, why⟩
    have hcur' := hcur (Nat.succ_pos _)
    have hlt : hint.next (getNumItems src) < getNumItems src := by
      unfold ShiftHint.next
      split <;> omega
    unfold predictLoop
    dsimp only
    by_cases hmoved : hint.movePoint = true
    · rw [if_pos hmoved]
      exact hstop (Or.inr (Or.inr (Or.inl hmoved)))
    rw [if_neg hmoved]
    by_cases hguard : ¬ hint.control.movePoint = true ∧ hint.control.allowRight = true ∧ srcItems + 1 ≤ hint.item
    · rw [if_pos hguard]
      refine hstop (Or.inr (Or.inr (Or.inr (Or.inr ⟨by simpa using hguard.1, hguard.2.1, ?_⟩))))
      show getNumItems src ≤ hint.itemsNumber + hint.item
      omega
    rw [if_neg hguard]
    have hlen : predictLen pol src cur = spanLen pol src (hint.next (getNumItems src)) 1 := by
      rw [hcur', predictLen_eq h hlt]
      rfl
    rw [hlen]
    by_cases hfull : space < spanLen pol src (hint.next (getNumItems src)) 1 + ihSize pol
    · rw [if_pos hfull]
      exact hstop (Or.inr (Or.inl hfull))
    rw [if_neg hfull]
    obtain ⟨hint', more, hpoint, hs'⟩ := @predictPoint_step pol src (getNumItems src) (getNumItems dst)
      (srcItems + 1) hint hfetch hsum (Nat.succ_pos _) (by simpa using hmoved) (by
        intro hu
        have := hp.inside (hcontrol ▸ hu) (by simpa using hmoved)
        omega)
    have hcontrol' : hint'.control = start.control := by rw [hs'.rest, hcontrol]
    have hnumber : hint'.itemsNumber = hint.itemsNumber := by rw [hs'.rest]
    have hbytes : hint'.itemsBytes = hint.itemsBytes := by rw [hs'.rest]
    have hrest : hint' = { start with
        itemsNumber := hint'.itemsNumber, itemsBytes := hint'.itemsBytes, unitsBytes := hint'.unitsBytes,
        movePoint := hint'.movePoint, item := hint'.item } := by
      rw [hs'.rest, hp.rest]
    have hfree : start.control.updatePoint = false → hint'.item = start.item ∧ hint'.movePoint = false := by
      intro hu
      rw [hs'.free (by rw [hcontrol]; exact hu)]
      exact hp.free hu
    rw [hpoint]
    cases more with
    | false =>
      have hpointEq := hs'.point
      have hinside := hs'.inside
      rw [hcontrol, Bool.toNat_false, Nat.add_zero] at hpointEq
      rw [hcontrol, Bool.toNat_false, Nat.add_zero] at hinside
      refine ⟨{ hint' with unitsBytes := space }, rfl, ⟨by rw [hrest], ?_, ?_, ?_, ?_, ?_, hfree⟩, ?_⟩
      · show hint'.itemsNumber ≤ _
        rw [hnumber]
        exact hp.count
      · show hint'.itemsBytes = spanLen pol src (hint'.from (getNumItems src)) hint'.itemsNumber
        rw [hbytes, hp.bytes, hnumber]
        unfold ShiftHint.from
        rw [hcontrol', hcontrol, hnumber]
      · show hint'.itemsBytes + hint'.itemsNumber * ihSize pol + space = _
        rw [hbytes, hnumber]
        exact hp.space
      · intro hu
        rw [← hp.point hu, ← hpointEq hu]
        show _ = ShiftHint.rowItem _ _ { hint' with itemsNumber := hint.itemsNumber }
        rw [← hnumber]
        rfl
      · intro hu hm
        show hint'.item ≤ getNumItems src - hint'.itemsNumber
        rw [hnumber]
        exact hinside hu hm
      · rcases hs'.border rfl with hm | hb
        · exact Or.inr (Or.inr (Or.inl hm))
        · exact Or.inr (Or.inr (Or.inr (Or.inl hb)))
    | true =>
      have hpointEq := hs'.point
      have hinside := hs'.inside
      rw [hcontrol, Bool.toNat_true] at hpointEq hinside
      obtain ⟨next, hnext⟩ : ∃ x : ShiftHint, x = { hint' with
          itemsNumber := hint'.itemsNumber + 1,
          itemsBytes := hint'.itemsBytes + spanLen pol src (hint.next (getNumItems src)) 1 } := ⟨_, rfl⟩
      have hnextNumber : next.itemsNumber = hint.itemsNumber + 1 := by rw [hnext, ← hnumber]
      have hnextControl : next.control = start.control := by rw [hnext, hcontrol']
      have hspan := @spanLen_next pol src hint hs h (by omega)
      have hpred : Predicted pol src dst start
          (space - (spanLen pol src (hint.next (getNumItems src)) 1 + ihSize pol)) next := by
        refine ⟨?_, ?_, ?_, ?_, ?_, ?_, ?_⟩
        · rw [hnext, hrest]
        · rw [hnextNumber]
          omega
        · have hto : next.itemsBytes = hint.itemsBytes + spanLen pol src (hint.next (getNumItems src)) 1 := by
            rw [hnext, ← hbytes]
          rw [hto, hp.bytes, hspan, hnextNumber]
          unfold ShiftHint.from
          rw [hnextControl, hnextNumber, hcontrol]
        · have hto : next.itemsBytes = hint.itemsBytes + spanLen pol src (hint.next (getNumItems src)) 1 := by
            rw [hnext, ← hbytes]
          have := hp.space
          rw [hto, hnextNumber, Nat.succ_mul]
          omega
        · intro hu
          rw [← hp.point hu, ← hpointEq hu, hnext, hnumber]
          rfl
        · intro hu hm
          rw [hnext] at hm
          rw [hnextNumber, hnext]
          exact hinside hu hm
        · intro hu
          rw [hnext]
          exact hfree hu
      obtain ⟨final, hfinal, hpf, hend⟩ := predictLoop_predicted h hfetch srcItems
        (if hint'.control.allowLeft then cur + 1 else cur - 1)
        (space - (spanLen pol src (hint.next (getNumItems src)) 1 + ihSize pol)) next (by omega) (by
          intro hmore
          unfold ShiftHint.next at hcur' ⊢
          rw [hnextControl, hcontrol', hnextNumber]
          rw [hcontrol] at hcur'
          by_cases hleft : start.control.allowLeft = true
          · rw [if_pos hleft] at hcur' ⊢
            rw [if_pos hleft, hcur']
          · rw [if_neg hleft] at hcur' ⊢
            rw [if_neg hleft, hcur']
            omega) hpred
      refine ⟨final, ?_, hpf, hend⟩
      rw [hnextNumber, ← Nat.add_assoc, hnext] at hfinal
      exact hfinal

end Predict

/-! ## The law -/

section Law

variable {pol : KeyPol} {src dst : NodeBlock} {hs hs' : Nat} {start : ShiftHint}

/-- What `node40_move` does to the two nodes and to the insert point. -/
structure Shifts (pol : KeyPol) (src dst src' dst' : NodeBlock) (start hint : ShiftHint) : Prop where
  /-- The items of both nodes stay in their order. -/
  row : if start.control.allowLeft then
      rawItems pol dst' ++ rawItems pol src' = rawItems pol dst ++ rawItems pol src
    else rawItems pol src' ++ rawItems pol dst' = rawItems pol src ++ rawItems pol dst
  counted : getNumItems dst' = getNumItems dst + hint.itemsNumber
  space : 0 < getNumItems src → hint.unitsBytes = getFreeSpace dst'
  /-- The insert point is at the place of the row where it was. -/
  point : start.control.updatePoint = true → hint.unit = start.unit ∧
    ShiftHint.rowItem (getNumItems src') (getNumItems dst') { hint with itemsNumber := 0 } =
      start.rowItem (getNumItems src) (getNumItems dst)
  ended : Ended pol src hint
  update : hint.update = (start.update || decide (0 < hint.itemsNumber))

theorem predict_predicted (h : WF pol src hs)
    (hfetch : 0 < getNumItems src → ∃ p, fetch pol src 0 = .ok p) (hnumber : start.itemsNumber = 0)
    (hbytes : start.itemsBytes = 0) (hpoint : start.movePoint = false)
    (hinside : start.item ≤ getNumItems src) (hmore : 0 < getNumItems src) :
    ∃ hint, predict pol src dst start = .ok hint ∧
      Predicted pol src dst start hint.unitsBytes hint ∧ Ended pol src hint := by
  have hstart : Predicted pol src dst start (getFreeSpace dst) start := by
    refine ⟨rfl, ?_, ?_, ?_, fun _ => rfl, fun _ _ => ?_, fun _ => ⟨rfl, hpoint⟩⟩
    · rw [hnumber]
      exact Nat.zero_le _
    · rw [hbytes, hnumber]
      unfold spanLen
      rw [Nat.add_zero, Nat.sub_self]
    · rw [hbytes, hnumber, Nat.zero_mul, Nat.zero_add]
    · rw [hnumber]
      exact hinside
  have hloop := predictLoop_predicted h (hfetch hmore) (getNumItems src)
    (if start.control.allowLeft then 0 else getNumItems src - 1) (getFreeSpace dst) start
    (by rw [hnumber, Nat.add_zero]) (fun _ => by
      unfold ShiftHint.next
      rw [hnumber, Nat.sub_zero]) hstart
  rw [hnumber, Nat.add_zero] at hloop
  unfold predict
  dsimp only
  rw [if_neg (by omega)]
  exact hloop

/-- What goes over the border of two rows leaves the row of both as it is. -/
theorem row_moved {α : Type} (xs ys : List α) (left : Bool) {n srcPos dstPos : Nat} (hn : n ≤ xs.length)
    (hsrc : srcPos = if left then 0 else xs.length - n) (hdst : dstPos = if left then ys.length else 0) :
    if left then
      (ys.take dstPos ++ (xs.drop srcPos).take n ++ ys.drop dstPos) ++
        (xs.take srcPos ++ xs.drop (srcPos + n)) = ys ++ xs
    else
      (xs.take srcPos ++ xs.drop (srcPos + n)) ++
        (ys.take dstPos ++ (xs.drop srcPos).take n ++ ys.drop dstPos) = xs ++ ys := by
  cases left with
  | true =>
    rw [if_pos rfl] at hsrc hdst ⊢
    rw [hsrc, hdst, List.take_length, List.drop_length, List.drop_zero, List.take_zero, List.append_nil,
      List.nil_append, Nat.zero_add, List.append_assoc, List.take_append_drop]
  | false =>
    rw [if_neg (by decide)] at hsrc hdst ⊢
    have hto : srcPos + n = xs.length := by omega
    have hall : (xs.drop srcPos).take n = xs.drop srcPos :=
      List.take_of_length_le (by rw [List.length_drop]; omega)
    rw [hdst, hto, hall, List.drop_length, List.take_zero, List.drop_zero, List.append_nil,
      List.nil_append, ← List.append_assoc, List.take_append_drop]

section Counted

variable {hint : ShiftHint} {srcPos dstPos : Nat}

/-- Without items that fit nothing is moved. -/
theorem move_nothing (hrun : predict pol src dst start = .ok hint) (hnone : hint.itemsNumber = 0) :
    move pol src dst start = .ok (src, dst, hint) := by
  unfold move
  dsimp only
  rw [hrun]
  show (if hint.itemsNumber = 0 ∨ hint.itemsBytes = 0 then _ else _) = _
  rw [if_pos (Or.inl hnone)]
  rfl

theorem move_counted (hrun : predict pol src dst start = .ok hint) (hcount : 0 < hint.itemsNumber)
    (hbytes : 0 < hint.itemsBytes) (hsrcPos : srcPos = hint.from (getNumItems src))
    (hdstPos : dstPos = if hint.control.allowLeft then getNumItems dst else 0) :
    move pol src dst start =
      .ok (shrink pol src srcPos maxUint32 hint.itemsBytes hint.itemsNumber,
        copy pol (expand pol dst dstPos maxUint32 hint.itemsBytes hint.itemsNumber) dstPos src srcPos
          hint.itemsNumber,
        { hint with update := true }) := by
  unfold move
  dsimp only
  rw [hrun]
  show (if hint.itemsNumber = 0 ∨ hint.itemsBytes = 0 then _ else _) = _
  rw [if_neg (by omega), ← hdstPos]
  have hfrom : (if hint.control.allowLeft then 0 else getNumItems src - hint.itemsNumber) = srcPos :=
    hsrcPos.symm
  rw [hfrom]
  rfl

theorem Predicted.from_le (hp : Predicted pol src dst start hint.unitsBytes hint)
    (hsrcPos : srcPos = hint.from (getNumItems src)) : srcPos + hint.itemsNumber ≤ getNumItems src := by
  have := hp.count
  rw [hsrcPos]
  unfold ShiftHint.from
  split <;> omega

theorem Predicted.bytes_pos (h : WF pol src hs) (hp : Predicted pol src dst start hint.unitsBytes hint)
    (hcount : 0 < hint.itemsNumber) (hsrcPos : srcPos = hint.from (getNumItems src)) :
    0 < hint.itemsBytes := by
  have hle := hp.from_le hsrcPos
  have hspan := spanLen_add h hle
  have horder := h.order srcPos (by omega)
  have hmono := h.bound_mono (show srcPos + 1 ≤ srcPos + hint.itemsNumber by omega) hle
  rw [hp.bytes, ← hsrcPos]
  omega

/-- The law when nothing is moved. -/
theorem Predicted.shifts_nothing (hp : Predicted pol src dst start hint.unitsBytes hint)
    (hend : Ended pol src hint) (hnone : hint.itemsNumber = 0) : Shifts pol src dst src dst start hint := by
  have hspace := hp.space
  have hzero := hp.bytes
  rw [hnone] at hzero hspace
  unfold spanLen at hzero
  rw [Nat.add_zero, Nat.sub_self] at hzero
  refine ⟨by split <;> rfl, ?_, ?_, fun hu => ⟨by rw [hp.rest], ?_⟩, hend, ?_⟩
  · rw [hnone, Nat.add_zero]
  · intro _
    omega
  · rw [← hp.point hu, ← hnone]
  · rw [show hint.update = start.update by rw [hp.rest], hnone]
    simp

/-- The law when the counted items are moved. -/
theorem Predicted.shifts (h : WF pol src hs) (hd : WF pol dst hs')
    (hp : Predicted pol src dst start hint.unitsBytes hint) (hend : Ended pol src hint)
    (hcount : 0 < hint.itemsNumber) (hsrcPos : srcPos = hint.from (getNumItems src))
    (hdstPos : dstPos = if hint.control.allowLeft then getNumItems dst else 0) {src' dst' : NodeBlock}
    (hsrc' : src' = shrink pol src srcPos maxUint32 hint.itemsBytes hint.itemsNumber)
    (hdst' : dst' = copy pol (expand pol dst dstPos maxUint32 hint.itemsBytes hint.itemsNumber) dstPos src
      srcPos hint.itemsNumber) :
    WF pol src' hs ∧ WF pol dst' hs' ∧
      Shifts pol src dst src' dst' start { hint with update := true } := by
  have hcontrol : hint.control = start.control := by rw [hp.rest]
  have hle := hp.from_le hsrcPos
  have hbytes : hint.itemsBytes = spanLen pol src srcPos hint.itemsNumber := by
    rw [hp.bytes, hsrcPos]
  have hdstLe : dstPos ≤ getNumItems dst := by
    rw [hdstPos]
    split <;> omega
  have hfree : hint.itemsBytes + hint.itemsNumber * ihSize pol ≤ getFreeSpace dst := by
    have := hp.space
    omega
  have hfilled := filled_copy hd h hdstLe hcount hle hbytes hfree
  have htaken := taken_shrink h hcount hle
  rw [← hdst'] at hfilled
  rw [← hbytes, ← hsrc'] at htaken
  obtain ⟨hwfDst, hitemsDst⟩ := hd.filled h hdstLe hcount hle hbytes hfree hfilled
  obtain ⟨hwfSrc, hitemsSrc⟩ := h.taken hle (by rw [← hbytes]; exact htaken)
  refine ⟨hwfSrc, hwfDst, ⟨?_, hfilled.items, ?_, fun hu => ⟨by rw [hp.rest], ?_⟩, hend, ?_⟩⟩
  · unfold ShiftHint.from at hsrcPos
    rw [hcontrol] at hsrcPos hdstPos
    rw [hitemsDst, hitemsSrc]
    exact row_moved (rawItems pol src) (rawItems pol dst) start.control.allowLeft
      (by rw [length_rawItems]; exact hp.count) (by rw [length_rawItems]; exact hsrcPos)
      (by rw [length_rawItems]; exact hdstPos)
  · intro _
    have := hp.space
    rw [hfilled.space]
    show hint.unitsBytes = _
    omega
  · rw [← hp.point hu, htaken.items, hfilled.items]
    unfold ShiftHint.rowItem
    dsimp only
    rw [Nat.add_zero, Nat.sub_zero]
  · show true = _
    rw [decide_eq_true hcount, Bool.or_true]

end Counted

/-- **`node40_move`** moves the items from the border of a well-formed node into its well-formed neighbour
    until one does not fit or is held by the insert point; no item is lost, changed or brought out of its
    order, and the insert point stays where it was among them. -/
theorem node40Move_shifts (h : WF pol src hs) (hd : WF pol dst hs')
    (hfetch : 0 < getNumItems src → ∃ p, fetch pol src 0 = .ok p) (hnumber : start.itemsNumber = 0)
    (hbytes : start.itemsBytes = 0) (hpoint : start.movePoint = false)
    (hinside : start.item ≤ getNumItems src) :
    ∃ src' dst' hint, move pol src dst start = .ok (src', dst', hint) ∧ WF pol src' hs ∧ WF pol dst' hs' ∧
      Shifts pol src dst src' dst' start hint := by
  by_cases hempty : getNumItems src = 0
  · have hrun : predict pol src dst start = .ok start := by
      unfold predict
      dsimp only
      rw [if_pos hempty]
    refine ⟨src, dst, start, move_nothing hrun hnumber, h, hd,
      ⟨by split <;> rfl, ?_, ?_, fun _ => ⟨rfl, ?_⟩, Or.inl ?_, ?_⟩⟩
    · rw [hnumber, Nat.add_zero]
    · intro hmore
      omega
    · rw [← hnumber]
    · rw [hnumber, hempty]
    · rw [hnumber]
      simp
  · obtain ⟨hint, hrun, hp, hend⟩ := @predict_predicted pol src dst hs start h hfetch hnumber hbytes hpoint hinside
      (by omega)
    by_cases hnone : hint.itemsNumber = 0
    · exact ⟨src, dst, hint, move_nothing hrun hnone, h, hd, hp.shifts_nothing hend hnone⟩
    · have hcount : 0 < hint.itemsNumber := Nat.pos_of_ne_zero hnone
      obtain ⟨hwfSrc, hwfDst, hshifts⟩ := hp.shifts h hd hend hcount rfl rfl rfl rfl
      exact ⟨_, _, _, move_counted hrun hcount (hp.bytes_pos h hcount rfl) rfl rfl, hwfSrc, hwfDst, hshifts⟩

/-- A left shift that takes the insert point along; the point is behind the first item. -/
def leftShift : ShiftHint where
  create := false
  update := false
  itemsNumber := 0
  unitsNumber := 0
  itemsBytes := 0
  unitsBytes := 0
  control := ⟨true, false, true, true, true, false⟩
  movePoint := false
  item := 1
  unit := maxUint32

theorem node40Move_twoTails : ∃ src' dst' hint, move .short twoTails twoTails leftShift = .ok (src', dst', hint) ∧
    WF .short src' 28 ∧ WF .short dst' 28 ∧ Shifts .short twoTails twoTails src' dst' leftShift hint :=
  node40Move_shifts twoTails_ok.wf twoTails_ok.wf
    (fun _ => ⟨⟨0, 28, 1, ⟨0, 0, 0, 0⟩, .plain40, 0⟩, by decide +kernel⟩) rfl rfl rfl
    (show 1 ≤ getNumItems twoTails by decide +kernel)

end Law

end Node40

end Reiser4
