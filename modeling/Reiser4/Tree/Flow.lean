/-
  Reading and writing the body of a file (`reiser4_flow_read`, `reiser4_flow_write`).

  Both functions look up the item at an offset and go on from item to item: what is between two items is read as
  zeros.  A write looks for a convenient place (`FIND_CONV`): behind the last unit of an item it goes on in that item, up
  to the next one, whatever its offset is; only in front of all items it makes an item of its own.  Here the body is the
  list of the items in the order of their keys, and their leaves have room; a run of bytes that the tree keeps in several
  items has the same bytes.

    1. `flowRead_eq`       a read gives the bytes up to the last item, zeros for those that are not there;
    2. `byteAt_flowWrite`  a write that joins an item changes the bytes of its range only;
    3. `stopOf_flowWrite`  where the last item then ends;
    4. `From.flowWrite`    the items stay in order.
-/
import Mathlib.Tactic.Common

namespace Reiser4.Tree

/-- An item of a body: the offset of its key and its units. -/
structure Piece where
  off : Nat
  data : List UInt8
  deriving DecidableEq, Repr

/-- The offset behind its last unit. -/
def Piece.stop (p : Piece) : Nat := p.off + p.data.length

/-- The byte of an offset, if an item has it. -/
def byteAt : List Piece → Nat → Option UInt8
  | [], _ => none
  | p :: rest, x => if p.off ≤ x ∧ x < p.stop then p.data[x - p.off]? else byteAt rest x

/-- Where the last item ends. -/
def stopOf : List Piece → Nat
  | [] => 0
  | p :: rest => max p.stop (stopOf rest)

/-- The items begin at `a` or behind it, in order; none is empty. -/
def From : Nat → List Piece → Prop
  | _, [] => True
  | a, p :: rest => a ≤ p.off ∧ p.data ≠ [] ∧ From p.stop rest

/-- `reiser4_flow_read` of `size` bytes. -/
def flowRead : List Piece → Nat → Nat → List UInt8
  | [], _, _ => []
  | p :: rest, off, size =>
    if size = 0 then []
    else if p.stop ≤ off then flowRead rest off size
    else
      -- the hole in front of the item, then its bytes
      let hole := min (p.off - off) size
      let read := (p.data.drop (off - p.off)).take (size - hole)
      List.replicate hole 0 ++ read ++ flowRead rest (off + hole + read.length) (size - hole - read.length)

/-- How many of `n` bytes at `off` are in front of the next item (`reiser4_tree_next_key`). -/
def roomFor (rest : List Piece) (off n : Nat) : Nat :=
  match rest with
  | [] => n
  | next :: _ => min n (next.off - off)

/-- The next item begins at the offset or in front of it. -/
def nextFits : List Piece → Nat → Bool
  | [], _ => false
  | next :: _, off => decide (next.off ≤ off)

/-- `reiser4_flow_write`. -/
def flowWrite : List Piece → Nat → List UInt8 → List Piece
  | [], off, data => if data = [] then [] else [⟨off, data⟩]
  | p :: rest, off, data =>
    if data = [] then p :: rest
    else if nextFits rest off then p :: flowWrite rest off data
    else
      -- in front of the item; then over its bytes, and behind its last unit up to the next item
      let gap := data.take (p.off - off)
      let more := data.drop (p.off - off)
      let room := roomFor rest (max off p.off) more.length
      let unit := min (max off p.off - p.off) p.data.length
      (if gap = [] then [] else [⟨off, gap⟩]) ++
        ⟨p.off, p.data.take unit ++ more.take room ++ p.data.drop (unit + (more.take room).length)⟩ ::
        flowWrite rest (max off p.off + room) (more.drop room)

/-! ## Items in order -/

theorem From.mono {a b : Nat} (hle : b ≤ a) : ∀ {items : List Piece}, From a items → From b items
  | [], _ => trivial
  | _ :: _, h => ⟨Nat.le_trans hle h.1, h.2⟩

theorem Piece.lt_stop {p : Piece} (h : p.data ≠ []) : p.off < p.stop := by
  have := List.length_pos_iff.mpr h
  unfold Piece.stop
  omega

/-- In front of the items there is no byte. -/
theorem From.byteAt_none {x : Nat} : ∀ {a : Nat} {items : List Piece}, From a items → x < a → byteAt items x = none
  | _, [], _, _ => rfl
  | a, p :: rest, h, hx => by
    obtain ⟨hle, hne, hrest⟩ := h
    have hlt := Piece.lt_stop hne
    rw [byteAt, if_neg (by omega)]
    exact hrest.byteAt_none (by omega)

theorem byteAt_stop {x : Nat} : ∀ {items : List Piece}, stopOf items ≤ x → byteAt items x = none
  | [], _ => rfl
  | p :: rest, h => by
    rw [stopOf] at h
    rw [byteAt, if_neg (by omega)]
    exact byteAt_stop (by omega)

/-! ## Reading -/

/-- **What a read gives.** -/
theorem flowRead_get : ∀ {a : Nat} {items : List Piece}, From a items → ∀ off size i,
    (flowRead items off size)[i]? =
      if i < size ∧ off + i < stopOf items then some ((byteAt items (off + i)).getD 0) else none
  | _, [], _, off, size, i => by
    rw [flowRead, stopOf, if_neg (by omega)]
    rfl
  | a, p :: rest, h, off, size, i => by
    obtain ⟨-, hne, hrest⟩ := h
    have hlt := Piece.lt_stop hne
    have hstop : p.stop = p.off + p.data.length := rfl
    rw [flowRead, stopOf, byteAt]
    by_cases hsize : size = 0
    · rw [if_pos hsize, if_neg (by omega)]
      rfl
    rw [if_neg hsize]
    by_cases hbefore : p.stop ≤ off
    · rw [if_pos hbefore, flowRead_get hrest, if_neg (show ¬(p.off ≤ off + i ∧ off + i < p.stop) by omega)]
      refine if_congr ?_ rfl rfl
      constructor
      · omega
      · omega
    rw [if_neg hbefore]
    dsimp only
    obtain ⟨hole, hhole⟩ : ∃ hole, hole = min (p.off - off) size := ⟨_, rfl⟩
    obtain ⟨read, hread⟩ : ∃ read, read = (p.data.drop (off - p.off)).take (size - hole) := ⟨_, rfl⟩
    rw [← hhole, ← hread]
    have hlen : read.length = min (size - hole) (p.data.length - (off - p.off)) := by
      rw [hread, List.length_take, List.length_drop]
    rw [List.append_assoc]
    by_cases hi : i < hole
    · -- In the hole.
      rw [List.getElem?_append_left (by rw [List.length_replicate]; exact hi),
        List.getElem?_replicate, if_pos hi, if_neg (show ¬(p.off ≤ off + i ∧ off + i < p.stop) by omega),
        hrest.byteAt_none (show off + i < p.stop by omega), if_pos (by omega)]
      rfl
    rw [List.getElem?_append_right (by rw [List.length_replicate]; omega), List.length_replicate]
    by_cases hin : i - hole < read.length
    · -- In the item.
      rw [List.getElem?_append_left hin, if_pos (by omega), if_pos (by omega), hread, List.getElem?_take,
        if_pos (by omega), List.getElem?_drop, List.getElem?_eq_getElem (by omega)]
      have hpos : off - p.off + (i - hole) = off + i - p.off := by omega
      simp only [hpos]
      rw [List.getElem?_eq_getElem (by omega)]
      rfl
    · -- Behind it.
      rw [List.getElem?_append_right (by omega), flowRead_get hrest]
      by_cases hfull : size - hole - read.length = 0
      · rw [if_neg (by omega), if_neg (by omega)]
      · have hstart : off + hole + read.length = p.stop := by omega
        rw [hstart, show p.stop + (i - hole - read.length) = off + i by omega,
          if_neg (show ¬(p.off ≤ off + i ∧ off + i < p.stop) by omega)]
        refine if_congr ?_ rfl rfl
        constructor
        · omega
        · omega

theorem flowRead_eq {a : Nat} {items : List Piece} (h : From a items) (off size : Nat) :
    flowRead items off size =
      (List.range (min size (stopOf items - off))).map fun i => (byteAt items (off + i)).getD 0 := by
  refine List.ext_getElem? fun i => ?_
  rw [flowRead_get h, List.getElem?_map]
  by_cases hi : i < size ∧ off + i < stopOf items
  · rw [if_pos hi, List.getElem?_range (by omega)]
    rfl
  · rw [if_neg hi, List.getElem?_eq_none (by rw [List.length_range]; omega)]
    rfl

/-! ## Writing -/

/-- A write there joins the body: an item has the offset, or ends at it, or all items begin behind it. -/
def Joins (items : List Piece) (off : Nat) : Prop :=
  (∀ p ∈ items, off < p.off) ∨ ∃ p ∈ items, p.off ≤ off ∧ off ≤ p.stop

instance (items : List Piece) (off : Nat) : Decidable (Joins items off) := inferInstanceAs (Decidable (_ ∨ _))

theorem From.le_off {a : Nat} {items : List Piece} (h : From a items) : ∀ p ∈ items, a ≤ p.off := by
  induction items generalizing a with
  | nil => exact nofun
  | cons q rest ih =>
    intro p hp
    obtain ⟨hle, hne, hrest⟩ := h
    rcases List.mem_cons.mp hp with rfl | hp
    · exact hle
    · have hlt := Piece.lt_stop hne
      exact Nat.le_trans (Nat.le_trans hle (Nat.le_of_lt hlt)) (ih hrest p hp)

/-- Where the next item fits, it joins too. -/
theorem Joins.next {p : Piece} {rest : List Piece} {off : Nat} (h : Joins (p :: rest) off) (hrest : From p.stop rest)
    (hfits : nextFits rest off = true) : Joins rest off := by
  cases rest with
  | nil => cases hfits
  | cons next rest =>
    have hnext : next.off ≤ off := of_decide_eq_true hfits
    have hlt := Piece.lt_stop hrest.2.1
    rcases h with h | ⟨q, hq, hle⟩
    · exact absurd (h next (by simp)) (Nat.not_lt.mpr hnext)
    · rcases List.mem_cons.mp hq with rfl | hq
      · -- The item in front ends where the next one begins.
        have := hrest.1
        exact Or.inr ⟨next, List.mem_cons_self .., hnext, by omega⟩
      · exact Or.inr ⟨q, hq, hle⟩

/-- Else the write meets the item or stands in front of it. -/
theorem Joins.here {p : Piece} {rest : List Piece} {off : Nat} (h : Joins (p :: rest) off) (hrest : From p.stop rest)
    (hfits : nextFits rest off = false) : off ≤ p.stop := by
  rcases h with h | ⟨q, hq, hle⟩
  · have := h p (List.mem_cons_self ..)
    unfold Piece.stop
    omega
  · rcases List.mem_cons.mp hq with rfl | hq
    · exact hle.2
    · cases rest with
      | nil => cases hq
      | cons next rest =>
        have hnext : ¬next.off ≤ off := of_decide_eq_false hfits
        have hfrom : From next.off (next :: rest) := ⟨Nat.le_refl _, hrest.2⟩
        have := hfrom.le_off q hq
        omega

/-- The parts of a write that meets the item `p`; it goes on at `next`. -/
structure Parts (p : Piece) (rest : List Piece) (off : Nat) (data gap onto more : List UInt8) (next : Nat) : Prop where
  gap_eq : gap = data.take (p.off - off)
  onto_eq : onto = (data.drop (p.off - off)).take (next - max off p.off)
  more_eq : more = (data.drop (p.off - off)).drop (next - max off p.off)
  base_le : max off p.off ≤ next
  onto_le : next - max off p.off ≤ data.length - (p.off - off)
  before : ∀ q ∈ rest.head?, max off p.off + onto.length ≤ q.off
  goes : more ≠ [] → ∃ q ∈ rest.head?, q.off = next

/-- The item that was written over and beyond. -/
def Piece.overlay (p : Piece) (off : Nat) (onto : List UInt8) : Piece :=
  ⟨p.off, p.data.take (max off p.off - p.off) ++ onto ++ p.data.drop (max off p.off - p.off + onto.length)⟩

theorem roomFor_le (rest : List Piece) (off n : Nat) : roomFor rest off n ≤ n := by
  cases rest with
  | nil => exact Nat.le_refl n
  | cons q rest => exact Nat.min_le_left _ _

theorem flowWrite_cons {p : Piece} {rest : List Piece} {off : Nat} {data : List UInt8} (hdata : data ≠ [])
    (hrest : From p.stop rest) (hfits : nextFits rest off = false) (hoff : off ≤ p.stop) :
    ∃ gap onto more next, Parts p rest off data gap onto more next ∧
      flowWrite (p :: rest) off data =
        (if gap = [] then [] else [⟨off, gap⟩]) ++ p.overlay off onto :: flowWrite rest next more := by
  have hstop : p.stop = p.off + p.data.length := rfl
  obtain ⟨rem, hrem⟩ : ∃ rem, rem = data.drop (p.off - off) := ⟨_, rfl⟩
  obtain ⟨room, hroom⟩ : ∃ room, room = roomFor rest (max off p.off) rem.length := ⟨_, rfl⟩
  have hle : room ≤ rem.length := hroom ▸ roomFor_le _ _ _
  have hunit : min (max off p.off - p.off) p.data.length = max off p.off - p.off := by omega
  refine ⟨data.take (p.off - off), rem.take room, rem.drop room, max off p.off + room, ?_, ?_⟩
  · have hsub : max off p.off + room - max off p.off = room := Nat.add_sub_cancel_left _ _
    refine ⟨rfl, ?_, ?_, Nat.le_add_right _ _, ?_, fun q hq => ?_, fun hmore => ?_⟩
    · rw [hsub, hrem]
    · rw [hsub, hrem]
    · rw [hsub]
      rw [hrem, List.length_drop] at hle
      exact hle
    · cases rest with
      | nil => cases hq
      | cons q' rest =>
        obtain rfl := Option.some.inj hq
        have hq1 : ¬q'.off ≤ off := of_decide_eq_false hfits
        have hq2 := hrest.1
        have hmin : room ≤ q'.off - max off p.off := by
          rw [hroom]
          exact Nat.min_le_right _ _
        rw [List.length_take, Nat.min_eq_left hle]
        omega
    · have hlt : room < rem.length := by
        have := List.length_pos_iff.mpr hmore
        rw [List.length_drop] at this
        omega
      cases rest with
      | nil =>
        have heq : room = rem.length := hroom
        omega
      | cons q rest =>
        have hq1 : ¬q.off ≤ off := of_decide_eq_false hfits
        have hq2 := hrest.1
        have hmin : room = min rem.length (q.off - max off p.off) := hroom
        exact ⟨q, rfl, by omega⟩
  · rw [flowWrite, if_neg hdata, hfits, if_neg (by decide)]
    dsimp only
    rw [← hrem, ← hroom, hunit]
    rfl

section Written

variable {p : Piece} {rest : List Piece} {off next : Nat} {data gap onto more : List UInt8}

/-- The bytes that go to the item. -/
theorem Parts.onto_length (h : Parts p rest off data gap onto more next) : max off p.off + onto.length = next := by
  have h1 := h.onto_le
  have h2 := h.base_le
  rw [h.onto_eq, List.length_take, List.length_drop, Nat.min_eq_left h1]
  omega

theorem Parts.more_length (h : Parts p rest off data gap onto more next) :
    more.length = data.length - (p.off - off) - onto.length := by
  have hlen := h.onto_length
  have hbase := h.base_le
  rw [h.more_eq, List.length_drop, List.length_drop]
  omega

theorem Parts.gap_length (h : Parts p rest off data gap onto more next) : gap.length = min (p.off - off) data.length := by
  rw [h.gap_eq, List.length_take]

theorem Parts.over_stop (h : Parts p rest off data gap onto more next) (hoff : off ≤ p.stop) :
    (p.overlay off onto).stop = max p.stop next := by
  have hlen := h.onto_length
  have hstop : p.stop = p.off + p.data.length := rfl
  unfold Piece.overlay Piece.stop
  simp only [List.length_append, List.length_take, List.length_drop]
  omega

/-- The bytes of an item that was written over. -/
theorem Parts.over_get (h : Parts p rest off data gap onto more next) (hoff : off ≤ p.stop) {x : Nat}
    (hx : p.off ≤ x ∧ x < max p.stop next) :
    (p.overlay off onto).data[x - p.off]? =
      if off ≤ x ∧ x < next then data[x - off]? else p.data[x - p.off]? := by
  have hstop : p.stop = p.off + p.data.length := rfl
  have hlen := h.onto_length
  have htake : (p.data.take (max off p.off - p.off)).length = max off p.off - p.off := by
    rw [List.length_take]
    omega
  unfold Piece.overlay
  dsimp only
  rw [List.append_assoc]
  by_cases hfront : x < off
  · rw [List.getElem?_append_left (by omega), List.getElem?_take, if_pos (by omega), if_neg (by omega)]
  rw [List.getElem?_append_right (by omega), htake]
  by_cases hin : x < next
  · rw [List.getElem?_append_left (by omega), if_pos (by omega), h.onto_eq, List.getElem?_take, if_pos (by omega),
      List.getElem?_drop]
    refine congrArg (data[·]?) ?_
    omega
  · rw [List.getElem?_append_right (by omega), if_neg (by omega), List.getElem?_drop]
    refine congrArg (p.data[·]?) ?_
    omega

/-- The items behind stay behind the item, which goes up to the next one at most. -/
theorem Parts.behind (h : Parts p rest off data gap onto more next) (hrest : From p.stop rest) :
    From (max p.stop next) rest := by
  cases rest with
  | nil => trivial
  | cons q rest =>
    have hbefore := h.before q rfl
    rw [h.onto_length] at hbefore
    exact ⟨Nat.max_le.mpr ⟨hrest.1, hbefore⟩, hrest.2⟩

/-- What is left of a write joins the next item, at its start. -/
theorem Parts.joins (h : Parts p rest off data gap onto more next) (hmore : more ≠ []) : Joins rest next := by
  obtain ⟨q, hq, heq⟩ := h.goes hmore
  refine Or.inr ⟨q, List.mem_of_mem_head? hq, Nat.le_of_eq heq, ?_⟩
  unfold Piece.stop
  omega

/-- The rest begins at the next item, so behind this one. -/
theorem Parts.stop_le (h : Parts p rest off data gap onto more next) (hrest : From p.stop rest) (hmore : more ≠ []) :
    p.stop ≤ next := by
  obtain ⟨q, hq, heq⟩ := h.goes hmore
  exact heq ▸ hrest.le_off q (List.mem_of_mem_head? hq)

end Written

theorem flowWrite_nil (items : List Piece) (off : Nat) : flowWrite items off [] = items := by
  cases items with
  | nil => rfl
  | cons p rest => rw [flowWrite, if_pos rfl]

theorem byteAt_append_singleton {off x : Nat} {gap : List UInt8} {items : List Piece} :
    byteAt ((if gap = [] then [] else [⟨off, gap⟩]) ++ items) x =
      if off ≤ x ∧ x < off + gap.length then gap[x - off]? else byteAt items x := by
  by_cases hgap : gap = []
  · subst hgap
    rw [if_pos rfl, if_neg (by simp)]
    rfl
  · rw [if_neg hgap]
    rfl

/-- **A write that joins the body changes its range.** -/
theorem byteAt_flowWrite : ∀ {a : Nat} {items : List Piece}, From a items → ∀ {off : Nat} (data : List UInt8) (x : Nat),
    (data ≠ [] → Joins items off) → byteAt (flowWrite items off data) x =
      if off ≤ x ∧ x < off + data.length then data[x - off]? else byteAt items x
  | _, [], _, off, data, x, _ => by
    rw [flowWrite]
    by_cases hne : data = []
    · subst hne
      rw [if_pos rfl, if_neg (by simp)]
    · rw [if_neg hne]
      rfl
  | a, p :: rest, h, off, data, x, hj => by
    obtain ⟨-, hne, hrest⟩ := h
    by_cases hempty : data = []
    · subst hempty
      rw [flowWrite, if_pos rfl, if_neg (by simp)]
    have hstop : p.stop = p.off + p.data.length := rfl
    have hjoins := hj hempty
    cases hfits : nextFits rest off with
    | true =>
      have hnext := hjoins.next hrest hfits
      have hbehind : p.stop ≤ off := by
        cases rest with
        | nil => cases hfits
        | cons q rest => exact Nat.le_trans hrest.1 (of_decide_eq_true hfits)
      rw [flowWrite, if_neg hempty, if_pos hfits, byteAt, byteAt, byteAt_flowWrite hrest data x fun _ => hnext]
      by_cases hin : p.off ≤ x ∧ x < p.stop
      · rw [if_pos hin, if_pos hin, if_neg (by omega)]
      · rw [if_neg hin, if_neg hin]
    | false =>
      have hoff := hjoins.here hrest hfits
      obtain ⟨gap, onto, more, next, hp, heq⟩ := flowWrite_cons hempty hrest hfits hoff
      have hover := hp.over_stop hoff
      have hgaplen := hp.gap_length
      have hontolen := hp.onto_length
      have hontole := hp.onto_le
      have hmorelen := hp.more_length
      have hend : more.length = 0 ∨ p.stop ≤ next := by
        by_cases hmore : more = []
        · exact Or.inl (List.length_eq_zero_iff.mpr hmore)
        · exact Or.inr (hp.stop_le hrest hmore)
      rw [heq, byteAt_append_singleton]
      by_cases hgap : off ≤ x ∧ x < off + gap.length
      · rw [if_pos hgap, if_pos (by omega), hp.gap_eq, List.getElem?_take, if_pos (by omega)]
      rw [if_neg hgap, byteAt, byteAt, hover, show (p.overlay off onto).off = p.off from rfl]
      by_cases hin : p.off ≤ x ∧ x < max p.stop next
      · rw [if_pos hin, hp.over_get hoff hin]
        by_cases hnew : off ≤ x ∧ x < next
        · rw [if_pos hnew, if_pos (by omega)]
        · rw [if_neg hnew, if_neg (by omega), if_pos (by omega)]
      rw [if_neg hin, byteAt_flowWrite hrest more x hp.joins]
      by_cases hmore : next ≤ x ∧ x < next + more.length
      · rw [if_pos hmore, if_pos (by omega), hp.more_eq, List.getElem?_drop, List.getElem?_drop]
        refine congrArg (data[·]?) ?_
        omega
      · rw [if_neg hmore, if_neg (by omega), if_neg (by omega)]

theorem max_front {g a b c : Nat} (h : g ≤ a) : max g (max (max a b) c) = max (max a c) b := by omega

theorem max_behind {g a n c e : Nat} (h : g ≤ a) (hn : n ≤ e) : max g (max (max a n) (max c e)) = max (max a c) e := by
  omega

theorem stopOf_flowWrite : ∀ {a : Nat} {items : List Piece}, From a items → ∀ {off : Nat} {data : List UInt8},
    data ≠ [] → Joins items off → stopOf (flowWrite items off data) = max (stopOf items) (off + data.length)
  | _, [], _, off, data, hne, _ => by
    rw [flowWrite, if_neg hne, stopOf, stopOf]
    exact Nat.max_comm _ _
  | a, p :: rest, h, off, data, hne, hjoins => by
    obtain ⟨-, -, hrest⟩ := h
    have hstop : p.stop = p.off + p.data.length := rfl
    cases hfits : nextFits rest off with
    | true =>
      rw [flowWrite, if_neg hne, if_pos hfits, stopOf, stopOf, stopOf_flowWrite hrest hne (hjoins.next hrest hfits)]
      exact (Nat.max_assoc _ _ _).symm
    | false =>
      have hoff := hjoins.here hrest hfits
      obtain ⟨gap, onto, more, next, hp, heq⟩ := flowWrite_cons hne hrest hfits hoff
      have hover := hp.over_stop hoff
      have hgaplen := hp.gap_length
      have hontolen := hp.onto_length
      have hontole := hp.onto_le
      have hmorelen := hp.more_length
      have hpos := List.length_pos_iff.mpr hne
      have happ : ∀ items : List Piece, stopOf ((if gap = [] then [] else [⟨off, gap⟩]) ++ items) =
          max (if gap = [] then 0 else off + gap.length) (stopOf items) := by
        intro items
        split
        · rw [List.nil_append, Nat.zero_max]
        · rfl
      have hgap : (if gap = [] then 0 else off + gap.length) ≤ p.stop := by
        split <;> omega
      rw [heq, happ, stopOf, stopOf, hover]
      by_cases hmore : more = []
      · rw [hmore, List.length_nil] at hmorelen
        have hend : max p.stop next = max p.stop (off + data.length) := by omega
        rw [hmore, flowWrite_nil, hend]
        exact max_front hgap
      · have hmpos := List.length_pos_iff.mpr hmore
        have hend : next + more.length = off + data.length := by omega
        rw [stopOf_flowWrite hrest hmore (hp.joins hmore), hend]
        exact max_behind hgap (by omega)

/-- The items stay in order. -/
theorem From.flowWrite : ∀ {a : Nat} {items : List Piece}, From a items → ∀ {off : Nat} (data : List UInt8), a ≤ off →
    (data ≠ [] → Joins items off) → From a (flowWrite items off data)
  | a, [], _, off, data, hle, _ => by
    rw [Tree.flowWrite]
    split
    · trivial
    · next hne => exact ⟨hle, hne, trivial⟩
  | a, p :: rest, h, off, data, hle, hj => by
    obtain ⟨hoff, hne, hrest⟩ := h
    by_cases hempty : data = []
    · rw [Tree.flowWrite, if_pos hempty]
      exact ⟨hoff, hne, hrest⟩
    have hjoins := hj hempty
    cases hfits : nextFits rest off with
    | true =>
      have hbehind : p.stop ≤ off := by
        cases rest with
        | nil => cases hfits
        | cons q rest => exact Nat.le_trans hrest.1 (of_decide_eq_true hfits)
      rw [Tree.flowWrite, if_neg hempty, if_pos hfits]
      exact ⟨hoff, hne, hrest.flowWrite data hbehind fun _ => hjoins.next hrest hfits⟩
    | false =>
      have hmeets := hjoins.here hrest hfits
      obtain ⟨gap, onto, more, next, hp, heq⟩ := flowWrite_cons hempty hrest hfits hmeets
      have hlt := Piece.lt_stop hne
      have hover := hp.over_stop hmeets
      have hdata : (p.overlay off onto).data ≠ [] := by
        intro hnil
        have hstop : (p.overlay off onto).stop = p.off + (p.overlay off onto).data.length := rfl
        rw [hnil, List.length_nil, hover] at hstop
        omega
      have htail : From (p.overlay off onto).stop (Tree.flowWrite rest next more) := by
        rw [hover]
        by_cases hmore : more = []
        · rw [hmore, flowWrite_nil]
          exact hp.behind hrest
        · obtain ⟨q, hq, hnext⟩ := hp.goes hmore
          have hle' := (hp.behind hrest).le_off q (List.mem_of_mem_head? hq)
          exact (hp.behind hrest).flowWrite more (by omega) hp.joins
      rw [heq]
      by_cases hgap : gap = []
      · rw [if_pos hgap]
        exact ⟨hoff, hdata, htail⟩
      · rw [if_neg hgap]
        refine ⟨hle, hgap, ?_, hdata, htail⟩
        show off + gap.length ≤ p.off
        have hlen := hp.gap_length
        have hpos := List.length_pos_iff.mpr hgap
        omega

/-- A byte that is there is one of an item. -/
theorem byteAt_item {x : Nat} : ∀ {items : List Piece}, byteAt items x ≠ none → ∃ p ∈ items, p.off ≤ x ∧ x < p.stop
  | [], h => absurd rfl h
  | p :: rest, h => by
    rw [byteAt] at h
    split at h
    · next hin => exact ⟨p, List.mem_cons_self .., hin⟩
    · obtain ⟨q, hq, hin⟩ := byteAt_item h
      exact ⟨q, List.mem_cons_of_mem _ hq, hin⟩

/-- Behind a byte that is there a write joins. -/
theorem joins_behind {items : List Piece} {x : Nat} (h : byteAt items x ≠ none) : Joins items (x + 1) := by
  obtain ⟨p, hp, hle, hlt⟩ := byteAt_item h
  exact Or.inr ⟨p, hp, Nat.le_succ_of_le hle, hlt⟩

end Reiser4.Tree
