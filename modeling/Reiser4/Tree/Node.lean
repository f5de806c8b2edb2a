/-
  Search inside one node (`reiser4_node_lookup`).

  A node is its level and its items, in key order.  The search halves the item headers for the wanted
  key; when no item has it as its own key, the item before the place it stopped at is the one that may
  cover the key, and the search goes on inside that item, unless the key is past the largest key the
  item may hold.

  `reiser4NodeLookup_outcome` says once what the search can answer; all later proofs go by its four
  cases and never look into the definition again.
-/
import Reiser4.Aal
import Reiser4.Item.Lookup

namespace Reiser4

/-- A formatted node as its plugin shows it. -/
structure NodeImg where
  level : Nat
  items : List Item
  deriving DecidableEq, Repr

/-- `pos_t`; unit `none` is `MAX_UINT32`, the item as a whole. -/
structure Pos where
  item : Nat
  unit : Option Nat
  deriving DecidableEq, Repr

/-- `node40_lookup`. -/
def node40Lookup (items : List Item) (wanted : Key) : Bool × Nat :=
  auxBinSearch items.length fun i => Key.compfull ((items[i]?.map Item.key).getD wanted) wanted

/-- The wanted key is past the largest key the item may hold. -/
def Item.pastMaxposs (pol : KeyPol) (it : Item) (wanted : Key) : Bool :=
  match it.maxpossKey pol with
  | none => false
  | some m => 0 < Key.compfull wanted m

/-- `reiser4_node_lookup`; nothing, where the lookup of an item comes to no answer. -/
def reiser4NodeLookup (pol : KeyPol) (blksize : Nat) (items : List Item) (wanted : Key)
    (bias : LookupBias) : Option (Except Errno (Lookup × Pos)) :=
  match node40Lookup items wanted with
  | (true, i) => some (.ok (.present, ⟨i, some 0⟩))
  | (false, 0) => some (.ok (.absent, ⟨0, none⟩))
  | (false, i + 1) =>
    match items[i]? with
    | none => some (.error .eio)
    | some it =>
      if it.pastMaxposs pol wanted then some (.ok (.absent, ⟨i + 1, none⟩))
      else
        match it.lookup pol blksize wanted bias with
        | some answer => answer.map fun (res, unit) => .ok (res, ⟨i, some unit⟩)
        | none =>
          if it.downLink = none ∨ bias = .conv then some (.ok (.absent, ⟨i + 1, none⟩))
          else some (.ok (.absent, ⟨i, none⟩))

/-! ## What the search can answer -/

theorem Item.pastMaxposs_eq_true {pol : KeyPol} {it : Item} {k : Key} :
    it.pastMaxposs pol k = true ↔ ∃ m, it.maxpossKey pol = some m ∧ m < k := by
  unfold Item.pastMaxposs
  cases it.maxpossKey pol with
  | none => simp
  | some m => simp [Key.compfull_pos]

/-- A branch item has no lookup method and no largest key. -/
theorem Item.lookup_none_of_branch {it : Item} {blk : Nat} (h : it.downLink = some blk) (pol : KeyPol)
    (blksize : Nat) (k : Key) (bias : LookupBias) : it.lookup pol blksize k bias = none := by
  unfold Item.downLink at h
  unfold Item.lookup
  cases hb : it.body <;> simp [hb] at h ⊢

theorem Item.maxpossKey_none_of_branch {it : Item} {blk : Nat} (h : it.downLink = some blk)
    (pol : KeyPol) : it.maxpossKey pol = none := by
  unfold Item.downLink at h
  unfold Item.maxpossKey
  cases hb : it.body <;> simp [hb] at h ⊢

/-- An item with a lookup method has a largest key, and the other way round. -/
theorem Item.lookup_isSome_iff (pol : KeyPol) (it : Item) (blksize : Nat) (k : Key)
    (bias : LookupBias) : (it.lookup pol blksize k bias).isSome ↔ (it.maxpossKey pol).isSome := by
  unfold Item.lookup Item.maxpossKey
  cases it.body <;> simp

/-- A search for the key that comes to this item ends with an answer: the keys are large, or no entry
    is compared, because the item is no directory item, begins with the key or behind it, or may not
    hold it. -/
def Item.Reads (pol : KeyPol) (it : Item) (k : Key) : Prop :=
  pol = .large ∨ it.plug ≠ .cde40 ∨ k ≤ it.key ∨ it.pastMaxposs pol k = true

theorem Item.lookup_answers {pol : KeyPol} (blksize : Nat) {it : Item} {k : Key} (bias : LookupBias)
    (h : pol = .large ∨ it.plug ≠ .cde40) {answer : Option (Lookup × Nat)}
    (hlook : it.lookup pol blksize k bias = some answer) : ∃ r, answer = some r := by
  unfold Item.lookup at hlook
  cases hb : it.body with
  | cde40 es =>
    obtain rfl := h.resolve_right fun hne => hne (by simp [Item.plug, hb, Body.plug])
    simp only [hb, Item.cde40Lookup_large, Option.some.injEq] at hlook
    exact ⟨_, hlook.symm⟩
  | _ =>
    simp only [hb, Option.some.injEq, reduceCtorEq] at hlook
    try exact ⟨_, hlook.symm⟩

/-- Items in key order, as far as the item keys go. -/
def KeysSorted (items : List Item) : Prop := items.Pairwise fun a b => a.key ≤ b.key

theorem KeysSorted.le {items : List Item} (h : KeysSorted items) {i j : Nat} {a b : Item}
    (ha : items[i]? = some a) (hb : items[j]? = some b) (hij : i ≤ j) : a.key ≤ b.key := by
  obtain ⟨hi, rfl⟩ := List.getElem?_eq_some_iff.mp ha
  obtain ⟨hj, rfl⟩ := List.getElem?_eq_some_iff.mp hb
  rcases Nat.lt_or_eq_of_le hij with hlt | rfl
  · exact List.pairwise_iff_getElem.mp h i j hi hj hlt
  · exact le_refl _

/-- The answers of `reiser4_node_lookup` with bias `FIND_EXACT`. -/
inductive NodeOutcome (pol : KeyPol) (blksize : Nat) (items : List Item) (k : Key) :
    Lookup → Pos → Prop
  /-- An item has the key as its own. -/
  | here (i : Nat) (it : Item) (hit : items[i]? = some it) (hk : it.key = k) :
      NodeOutcome pol blksize items k .present ⟨i, some 0⟩
  /-- The item before the key was searched by its own lookup. -/
  | inside (i : Nat) (it : Item) (hit : items[i]? = some it) (hk : it.key < k)
      (hafter : ∀ j b, i < j → items[j]? = some b → k < b.key)
      (hpast : it.pastMaxposs pol k = false) (res : Lookup) (u : Nat)
      (hlook : it.lookup pol blksize k .exact = some (some (res, u))) :
      NodeOutcome pol blksize items k res ⟨i, some u⟩
  /-- The item before the key is a branch: the key belongs below it. -/
  | down (i : Nat) (it : Item) (hit : items[i]? = some it) (hk : it.key < k)
      (hafter : ∀ j b, i < j → items[j]? = some b → k < b.key) (blk : Nat)
      (hdown : it.downLink = some blk) :
      NodeOutcome pol blksize items k .absent ⟨i, none⟩
  /-- The key is between two items; the item before it ends before the key, or has a single key. -/
  | between (i : Nat) (hi : i ≤ items.length)
      (hbefore : ∀ j a, j < i → items[j]? = some a → a.key < k)
      (hafter : ∀ j b, i ≤ j → items[j]? = some b → k < b.key)
      (hprev : ∀ a, 0 < i → items[i - 1]? = some a → a.downLink = none ∧
        (a.pastMaxposs pol k = true ∨ a.maxpossKey pol = none)) :
      NodeOutcome pol blksize items k .absent ⟨i, none⟩

/-- **Node lookup**: on items in key order the search succeeds with one of the four answers, if it
    can compare what it meets. -/
theorem reiser4NodeLookup_outcome (pol : KeyPol) (blksize : Nat) {items : List Item}
    (hs : KeysSorted items) (k : Key) (hread : ∀ it ∈ items, it.Reads pol k) : ∃ res pos,
      reiser4NodeLookup pol blksize items k .exact = some (.ok (res, pos)) ∧
        NodeOutcome pol blksize items k res pos := by
  have hcomp : ∀ (i : Nat) (a : Item), items[i]? = some a →
      Key.compfull ((items[i]?.map Item.key).getD k) k = Key.compfull a.key k := by
    intro i a ha
    simp [ha]
  have hcm : CompMono items.length
      fun i => Key.compfull ((items[i]?.map Item.key).getD k) k := by
    refine ⟨fun i => Key.compfull_range _ _, fun i j hij hj => ?_⟩
    have hb := List.getElem?_eq_getElem hj
    have ha := List.getElem?_eq_getElem (Nat.lt_of_le_of_lt hij hj)
    show Key.compfull _ k ≤ Key.compfull _ k
    rw [hcomp i _ ha, hcomp j _ hb]
    exact Key.compfull_mono (hs.le ha hb hij) k
  unfold reiser4NodeLookup
  match hbin : node40Lookup items k with
  | (true, i) =>
    have hfound := auxBinSearch_found hcm (by rw [← node40Lookup, hbin])
    rw [← node40Lookup, hbin] at hfound
    obtain ⟨hi, hc⟩ := hfound
    have hit := List.getElem?_eq_getElem hi
    exact ⟨_, _, rfl, .here i _ hit (Key.compfull_zero.mp ((hcomp i _ hit).symm.trans hc))⟩
  | (false, stop) =>
    have habs := auxBinSearch_absent hcm (by rw [← node40Lookup, hbin])
    rw [← node40Lookup, hbin] at habs
    obtain ⟨hle, hlo, hup⟩ := habs
    have hbefore : ∀ (j : Nat) (a : Item), j < stop → items[j]? = some a → a.key < k := by
      intro j a hj ha
      exact Key.compfull_neg.mp ((hcomp j a ha).symm.trans (hlo j hj))
    have hafter : ∀ (j : Nat) (b : Item), stop ≤ j → items[j]? = some b → k < b.key := by
      intro j b hj hb
      have hlt : j < items.length := (List.getElem?_eq_some_iff.mp hb).1
      have := (hcomp j b hb).symm.trans (hup j hj hlt)
      exact Key.compfull_pos.mp (by omega)
    cases stop with
    | zero =>
      refine ⟨_, _, rfl, .between 0 hle hbefore hafter ?_⟩
      intro a h0 _
      omega
    | succ i =>
      have hi : i < items.length := by
        simp only at hle
        omega
      have hit := List.getElem?_eq_getElem hi
      have hprev : items[i].downLink = none →
          (items[i].pastMaxposs pol k = true ∨ items[i].maxpossKey pol = none) →
          ∀ a : Item, 0 < i + 1 → items[i + 1 - 1]? = some a → a.downLink = none ∧
            (a.pastMaxposs pol k = true ∨ a.maxpossKey pol = none) := by
        intro hd hp a _ ha
        have hia : items[i] = a := Option.some.inj (hit.symm.trans ha)
        rw [← hia]
        exact ⟨hd, hp⟩
      simp only [hit]
      by_cases hpast : items[i].pastMaxposs pol k = true
      · -- past the largest key: the place behind the item
        rw [if_pos hpast]
        refine ⟨_, _, rfl, .between (i + 1) hle hbefore hafter (hprev ?_ (Or.inl hpast))⟩
        cases hd : items[i].downLink with
        | none => rfl
        | some blk =>
          obtain ⟨m, hm, -⟩ := Item.pastMaxposs_eq_true.mp hpast
          rw [Item.maxpossKey_none_of_branch hd] at hm
          exact absurd hm (by simp)
      · rw [if_neg hpast]
        cases hlook : items[i].lookup pol blksize k .exact with
        | some answer =>
          have hlt := hbefore i _ (Nat.lt_succ_self i) hit
          have hcan : pol = .large ∨ items[i].plug ≠ .cde40 := by
            rcases hread _ (List.getElem_mem hi) with h | h | h | h
            · exact Or.inl h
            · exact Or.inr h
            · exact absurd hlt (not_lt.mpr h)
            · exact absurd h hpast
          obtain ⟨r, rfl⟩ := Item.lookup_answers blksize .exact hcan hlook
          exact ⟨_, _, rfl, .inside i _ hit hlt hafter (by simpa using hpast) r.1 r.2 hlook⟩
        | none =>
          cases hd : items[i].downLink with
          | none =>
            refine ⟨_, _, by simp, .between (i + 1) hle hbefore hafter (hprev hd (Or.inr ?_))⟩
            have := (Item.lookup_isSome_iff pol items[i] blksize k .exact).not
            rw [hlook] at this
            simpa using this
          | some blk =>
            exact ⟨_, _, by simp, .down i _ hit (hbefore i _ (Nat.lt_succ_self i) hit) hafter
              blk hd⟩

end Reiser4
