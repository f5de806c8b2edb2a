/-
  Searching in one directory item.

  `cde40_lookup` finds a key, `cde40_collision` a name among the entries of one key.  The first halves the
  item and then steps left to the first entry with the key; with the bias `FIND_CONV` a miss is answered
  `PRESENT` as well, with the same position.  The second is called for the first entry of a run of equal
  keys.  Its loop counts the units, but the entry it looks at each time is the one whose number is that of
  the item in its node (`pos.item`).

    1. `cde40Lookup_leftmost`      the position that a lookup gives;
    2. `cde40Collision_iff`        when the loop over a run ends at the entry with the name.
-/
import Reiser4.Dir40.Search

namespace Reiser4

open Reiser4.Lib

namespace Item

/-- The keys of the entries of an item. -/
def entryKeys (key : Key) (es : List Entry) : List Key := es.map (hashKey key)

/-! ## Lookup -/

section Lookup

variable {key k : Key} {es : List Entry}

/-- In a list that splits at a position into smaller elements and others, the position is the number of
    smaller ones. -/
theorem countP_split {α : Type} {p : α → Bool} : ∀ {l : List α} {n : Nat}, n ≤ l.length →
    (∀ i a, i < n → l[i]? = some a → p a = true) → (∀ i a, n ≤ i → l[i]? = some a → p a = false) →
    l.countP p = n
  | [], n, hn, _, _ => by
    rw [List.countP_nil]
    exact (Nat.le_zero.mp hn).symm
  | a :: l, 0, _, hlo, hhi => by
    rw [List.countP_cons, hhi 0 a (Nat.le_refl _) rfl,
      countP_split (n := 0) (Nat.zero_le _) (fun i _ hi => absurd hi (Nat.not_lt_zero i))
        fun i b _ hb => hhi (i + 1) b (Nat.zero_le _) hb]
    rfl
  | a :: l, n + 1, hn, hlo, hhi => by
    rw [List.countP_cons, hlo 0 a (Nat.succ_pos n) rfl,
      countP_split (n := n) (Nat.le_of_succ_le_succ hn)
        (fun i b hi hb => hlo (i + 1) b (Nat.succ_lt_succ hi) hb)
        fun i b hi hb => hhi (i + 1) b (Nat.succ_le_succ hi) hb]
    rfl

theorem compHash_eq {i : Nat} {a : Key} (ha : (entryKeys key es)[i]? = some a) :
    cde40CompHash key es k i = Key.compfull a k := by
  unfold entryKeys at ha
  rw [List.getElem?_map] at ha
  unfold cde40CompHash
  rw [ha]
  rfl

/-- Along entries in key order the comparison goes up. -/
theorem compHash_mono (hs : (entryKeys key es).Pairwise (· ≤ ·)) :
    CompMono es.length (cde40CompHash key es k) := by
  have hlen : (entryKeys key es).length = es.length := List.length_map _
  refine ⟨fun i => Key.compfull_range _ _, fun i j hij hj => ?_⟩
  have hi : (entryKeys key es)[i]? = some (entryKeys key es)[i] := List.getElem?_eq_getElem (by omega)
  have hj' : (entryKeys key es)[j]? = some (entryKeys key es)[j] := List.getElem?_eq_getElem (by omega)
  rw [compHash_eq hi, compHash_eq hj']
  refine Key.compfull_mono ?_ k
  rcases Nat.lt_or_eq_of_le hij with hlt | rfl
  · exact List.pairwise_iff_getElem.mp hs i j (by omega) (by omega) hlt
  · exact le_refl _

/-- Both biases stop at one position. -/
theorem cde40Lookup_bias (bias : LookupBias) : entryLookup key es k bias =
    (if (auxBinSearch es.length (cde40CompHash key es k)).1 = true then .present else missBias bias,
      (entryLookup key es k .exact).2) := by
  unfold entryLookup
  cases hbin : auxBinSearch es.length (cde40CompHash key es k) with
  | mk found i =>
    cases found with
    | true => rfl
    | false => rfl

/-- **The lookup in a directory item**: with the keys of the entries in order it answers `PRESENT` exactly
    where an entry has the key, or where a miss counts as a hit, and the position is the number of entries
    with smaller keys, which is that of the leftmost one with the key if there is one. -/
theorem cde40Lookup_leftmost (key : Key) (es : List Entry) (k : Key) (bias : LookupBias)
    (hs : (entryKeys key es).Pairwise (· ≤ ·)) :
    entryLookup key es k bias =
        (if k ∈ entryKeys key es then .present else missBias bias,
          (entryKeys key es).countP fun a => a < k) ∧
      (k ∈ entryKeys key es →
        (entryKeys key es)[(entryKeys key es).countP fun a => a < k]? = some k ∧
          ∀ i a, i < (entryKeys key es).countP (fun a => a < k) → (entryKeys key es)[i]? = some a →
            a < k) := by
  have hlen : (entryKeys key es).length = es.length := List.length_map _
  have hmono := @compHash_mono key k es hs
  rw [cde40Lookup_bias]
  have hmem : ∀ i, i < es.length → ∃ a, (entryKeys key es)[i]? = some a := fun i hi =>
    ⟨_, List.getElem?_eq_getElem (by omega)⟩
  unfold entryLookup
  match hbin : auxBinSearch es.length (cde40CompHash key es k) with
  | (true, u) =>
    have hfound := auxBinSearch_found hmono (by rw [hbin])
    rw [hbin] at hfound
    obtain ⟨hu, hzero⟩ := hfound
    -- the left loop stops behind the last smaller entry
    obtain ⟨hle, hhit, hstop⟩ := cde40LeftLoop_spec _ u hzero
    obtain ⟨p, hp⟩ : ∃ p, p = cde40LeftLoop (cde40CompHash key es k) u := ⟨_, rfl⟩
    rw [← hp] at hle hhit hstop
    obtain ⟨a, ha⟩ := hmem p (by omega)
    obtain rfl : a = k := by
      rw [compHash_eq ha] at hhit
      exact Key.compfull_zero.mp hhit
    have hsmaller : ∀ i b, i < p → (entryKeys key es)[i]? = some b → b < a := by
      intro i b hi hb
      rcases hstop with h0 | hne
      · omega
      · have hfront := hmono.mono i (p - 1) (by omega) (by omega)
        have hlast := hmono.mono (p - 1) p (by omega) (by omega)
        have hrange := hmono.range (p - 1)
        have hneg : cde40CompHash key es a i < 0 := by omega
        rw [compHash_eq hb] at hneg
        exact Key.compfull_lt.mp hneg
    have hcount : (entryKeys key es).countP (fun b => b < a) = p := by
      refine countP_split (by omega) (fun i b hi hb => decide_eq_true (hsmaller i b hi hb)) ?_
      intro i b hi hb
      have hib : i < es.length := hlen ▸ (List.getElem?_eq_some_iff.mp hb).1
      have hge := hmono.mono p i hi hib
      rw [hhit, compHash_eq hb] at hge
      exact decide_eq_false fun hlt => by
        have := Key.compfull_lt.mpr hlt
        omega
    have hin : a ∈ entryKeys key es := List.mem_of_getElem? ha
    rw [if_pos rfl, if_pos hin, hcount, hp]
    refine ⟨rfl, fun _ => ?_⟩
    rw [← hp]
    exact ⟨ha, hsmaller⟩
  | (false, u) =>
    have habsent := auxBinSearch_absent hmono (by rw [hbin])
    rw [hbin] at habsent
    obtain ⟨hu, hlo, hhi⟩ := habsent
    have hnot : k ∉ entryKeys key es := by
      intro hin
      obtain ⟨i, hi⟩ := List.mem_iff_getElem?.mp hin
      have hib : i < es.length := hlen ▸ (List.getElem?_eq_some_iff.mp hi).1
      have hzero : cde40CompHash key es k i = 0 := by
        rw [compHash_eq hi]
        exact Key.compfull_zero.mpr rfl
      rcases Nat.lt_or_ge i u with hlt | hge
      · have := hlo i hlt
        omega
      · have := hhi i hge hib
        omega
    have hcount : (entryKeys key es).countP (fun b => b < k) = u := by
      refine countP_split (by omega) (fun i b hi hb => ?_) fun i b hi hb => ?_
      · have hneg := hlo i hi
        rw [compHash_eq hb] at hneg
        exact decide_eq_true (Key.compfull_neg.mp hneg)
      · have hib : i < es.length := hlen ▸ (List.getElem?_eq_some_iff.mp hb).1
        have hone := hhi i hi hib
        rw [compHash_eq hb] at hone
        exact decide_eq_false fun hlt => by
          have := Key.compfull_neg.mpr hlt
          omega
    rw [if_neg Bool.false_ne_true, if_neg hnot, hcount]
    exact ⟨rfl, fun hin => absurd hin hnot⟩

/-- Three entries, two of them with one key. -/
def threeEntries : List Entry :=
  [⟨hashedNameMask, 1, 1, (81, 0, 42), [97]⟩, ⟨hashedNameMask, 1, 2, (81, 0, 43), [98]⟩,
    ⟨hashedNameMask, 1, 2, (81, 0, 44), [99]⟩]

theorem cde40Lookup_threeEntries :
    entryLookup ⟨80, hashedNameMask, 1, 1⟩ threeEntries ⟨80, hashedNameMask, 1, 2⟩ .exact = (.present, 1) :=
  (cde40Lookup_leftmost ⟨80, hashedNameMask, 1, 1⟩ threeEntries ⟨80, hashedNameMask, 1, 2⟩ .exact
    (by decide)).1.trans (by decide)

/-- A lookup with the bias `FIND_CONV` answers `PRESENT` for a key that no entry has. -/
theorem cde40Lookup_conv :
    (entryKeys ⟨80, hashedNameMask, 1, 1⟩ threeEntries).Pairwise (· ≤ ·) ∧
      (⟨80, hashedNameMask, 1, 3⟩ : Key) ∉ entryKeys ⟨80, hashedNameMask, 1, 1⟩ threeEntries ∧
      entryLookup ⟨80, hashedNameMask, 1, 1⟩ threeEntries ⟨80, hashedNameMask, 1, 3⟩ .conv =
        (.present, 3) := by
  refine ⟨by decide, by decide, by decide +kernel⟩

end Lookup

/-! ## Collisions -/

section Collision

/-- The name of an entry: the one stored beside it, or the one in its key. -/
def entryName (pol : KeyPol) (key : Key) (e : Entry) : List UInt8 := nameIn pol key e e.name.length

/-- Unit `i` has the key and the name. -/
def Matches (pol : KeyPol) (key : Key) (es : List Entry) (hash : Key) (name : List UInt8) (i : Nat) :
    Prop :=
  ∃ e ∈ es[i]?, hashKey key e = hash ∧ entryName pol key e = name

/-- What the search for a name in the run of equal keys from `unit` on has to answer: the first unit of
    the run with the name, or that there is none, with the position behind the run. -/
def FindsName (pol : KeyPol) (key : Key) (es : List Entry) (unit : Nat) (hash : Key)
    (name : List UInt8) : Lookup × Nat → Prop
  | (.present, p) => Matches pol key es hash name p ∧ ∀ i, i < p → ¬Matches pol key es hash name i
  | (.absent, p) => (∀ i, ¬Matches pol key es hash name i) ∧ unit < p ∧ p ≤ es.length ∧
      ∀ i e, unit ≤ i → es[i]? = some e → (i < p ↔ hashKey key e = hash)

/-- The entry that is read, numbered by the item, has the key of the run, and says of the name what the
    run does: it has it as the first unit does, or the run goes to the end of the item without it. -/
def ReadsRight (pol : KeyPol) (key : Key) (es : List Entry) (read : Entry) (unit : Nat) (hash : Key)
    (name : List UInt8) : Prop :=
  hashKey key read = hash ∧
    if nameIn pol key read 256 = name then Matches pol key es hash name unit
    else (∀ i, ¬Matches pol key es hash name i) ∧
      ∀ i e, unit ≤ i → es[i]? = some e → hashKey key e = hash

/-- **The search for a name** in a run of entries with one key, called for the first of them, comes to
    the right answer exactly where the keys are large and the entry with the number of the item stands
    for all of them. -/
theorem cde40Collision_iff (beyond : Item → Nat → Entry) (pol : KeyPol) (it : Item) (es : List Entry)
    (pos : Pos) (name : List UInt8) (e : Entry) (hunit : es[pos.unit.getD 0]? = some e)
    (hfirst : ∀ i f, i < pos.unit.getD 0 → es[i]? = some f →
      hashKey it.key f ≠ hashKey it.key e) :
    (∃ r, cde40Collision beyond pol it es pos name = some r ∧
        FindsName pol it.key es (pos.unit.getD 0) (hashKey it.key e) name r) ↔
      pol = .large ∧ ReadsRight pol it.key es (entryAt beyond it es pos.item) (pos.unit.getD 0)
        (hashKey it.key e) name := by
  have hlen := (List.getElem?_eq_some_iff.mp hunit).1
  have hat : entryAt beyond it es (pos.unit.getD 0) = e := by
    unfold entryAt
    rw [hunit]
    rfl
  cases pol with
  | short =>
    rw [cde40Collision_short beyond it es pos name hlen]
    constructor
    · rintro ⟨r, hr, -⟩
      cases hr
    · rintro ⟨hl, -⟩
      cases hl
  | large =>
    rw [cde40Collision_large beyond it es pos name hlen, hat]
    unfold ReadsRight
    simp only [Option.some.injEq, exists_eq_left', true_and]
    by_cases hk : hashKey it.key (entryAt beyond it es pos.item) = hashKey it.key e
    · rw [if_neg (not_not.mpr hk)]
      by_cases hn : nameIn .large it.key (entryAt beyond it es pos.item) 256 = name
      · rw [if_pos hn, if_pos hn]
        constructor
        · rintro ⟨hmatch, -⟩
          exact ⟨hk, hmatch⟩
        · rintro ⟨-, hmatch⟩
          refine ⟨hmatch, fun i hi ⟨f, hf, hkey, _⟩ => hfirst i f hi hf hkey⟩
      · rw [if_neg hn, if_neg hn]
        constructor
        · rintro ⟨hnone, -, -, hend⟩
          refine ⟨hk, hnone, fun i f hi hf => (hend i f hi hf).mp ?_⟩
          exact (List.getElem?_eq_some_iff.mp hf).1
        · rintro ⟨-, hnone, hall⟩
          refine ⟨hnone, hlen, Nat.le_refl _, fun i f hi hf => ⟨fun _ => hall i f hi hf, fun _ => ?_⟩⟩
          exact (List.getElem?_eq_some_iff.mp hf).1
    · -- the unit itself is in the run, so that the run is not empty
      rw [if_pos hk]
      constructor
      · rintro ⟨-, hlt, -⟩
        exact absurd hlt (Nat.lt_irrefl _)
      · rintro ⟨hkey, -⟩
        exact absurd hkey hk

/-- The item with the three entries. -/
def threeItem : Item := ⟨⟨80, hashedNameMask, 1, 1⟩, 0, .cde40 threeEntries⟩

/-- Zero bytes behind the entries. -/
def zeroBeyond (_ : Item) (_ : Nat) : Entry := ⟨0, 0, 0, (0, 0, 0), []⟩

theorem cde40Collision_threeItem :
    ∃ r, cde40Collision zeroBeyond .large threeItem threeEntries ⟨1, some 1⟩ [98] = some r ∧
      FindsName .large threeItem.key threeEntries 1 ⟨80, hashedNameMask, 1, 2⟩ [98] r := by
  refine (cde40Collision_iff zeroBeyond .large threeItem threeEntries ⟨1, some 1⟩ [98]
    ⟨hashedNameMask, 1, 2, (81, 0, 43), [98]⟩ rfl ?_).mpr ⟨rfl, ?_⟩
  · intro i f hi hf
    obtain rfl : i = 0 := Nat.lt_one_iff.mp hi
    obtain rfl := Option.some.inj hf
    decide
  · refine ⟨by decide, ?_⟩
    rw [if_pos (by decide)]
    exact ⟨⟨hashedNameMask, 1, 2, (81, 0, 43), [98]⟩, rfl, by decide, by decide⟩

/-- In the first item of a node the name of the second entry of a run is not found. -/
theorem cde40Collision_fail :
    (entryKeys threeItem.key threeEntries).Pairwise (· ≤ ·) ∧
      Matches .large threeItem.key threeEntries ⟨80, hashedNameMask, 1, 2⟩ [99] 2 ∧
      cde40Collision zeroBeyond .large threeItem threeEntries ⟨0, some 1⟩ [99] = some (.absent, 1) ∧
      ¬∃ r, cde40Collision zeroBeyond .large threeItem threeEntries ⟨0, some 1⟩ [99] = some r ∧
        FindsName .large threeItem.key threeEntries 1 ⟨80, hashedNameMask, 1, 2⟩ [99] r := by
  have hrun : cde40Collision zeroBeyond .large threeItem threeEntries ⟨0, some 1⟩ [99] =
      some (.absent, 1) := by decide
  refine ⟨by decide, ⟨⟨hashedNameMask, 1, 2, (81, 0, 44), [99]⟩, rfl, by decide, by decide⟩, hrun, ?_⟩
  rintro ⟨r, hr, hfind⟩
  obtain rfl := Option.some.inj (hrun.symm.trans hr)
  exact absurd hfind.2.1 (Nat.lt_irrefl 1)

end Collision

end Item

end Reiser4
