/-
  Search inside one item (`balance->lookup`).

  Three plugins search their units, each in its own way: a tail computes the unit from the offset, an
  extent walks its units adding up their widths, a directory item halves its entries and then steps
  left over equal ones.  What they have in common is stated once, as `FoundIn` and `MissedIn` over the
  key ranges the units cover, and `lookup_spec` proves it for all of them: on an item whose units
  are in key order, and for a key between the item key and the largest key the item may hold, the
  lookup answers `PRESENT` with the leftmost unit that covers the key, or `ABSENT` with the position
  between the smaller and the larger units.
-/
import Reiser4.Item.Body

namespace Reiser4

/-- `lookup_t`, without its error value. -/
inductive Lookup
  | absent | present
  deriving DecidableEq, Repr

/-- `lookup_bias_t`. -/
inductive LookupBias
  | exact | conv
  deriving DecidableEq, Repr

/-- The answer of an item that has run past its last unit: a miss, unless the caller looks for a
    place to insert at. -/
def missBias : LookupBias → Lookup
  | .exact => .absent
  | .conv => .present

namespace Item

/-! ## The lookup methods -/

/-- `tail40_lookup`; the end of the item is computed in 64 bits. -/
def tail40Lookup (key : Key) (units : Nat) (wanted : Key) (bias : LookupBias) : Lookup × Nat :=
  if wanted.offset ≥ key.offset ∧ wanted.offset < (key.offset + units) % two64 then
    (.present, wanted.offset - key.offset)
  else (missBias bias, units)

/-- The loop of `extent40_lookup`; `offset` is that of unit `i`. -/
def extent40LookupLoop (blksize wanted : Nat) : List ExtentUnit → Nat → Nat → Option Nat
  | [], _, _ => none
  | x :: us, offset, i =>
    let offset := (offset + x.width * blksize) % two64
    if wanted < offset then some i else extent40LookupLoop blksize wanted us offset (i + 1)

/-- `extent40_lookup`. -/
def extent40Lookup (blksize : Nat) (key : Key) (us : List ExtentUnit) (wanted : Key)
    (bias : LookupBias) : Lookup × Nat :=
  match extent40LookupLoop blksize wanted.offset us key.offset 0 with
  | some i => (.present, i)
  | none => (missBias bias, us.length)

/-- The loop of `cde40_lookup` that moves left over entries with the wanted key. -/
def cde40LeftLoop (comp : Nat → Int) : Nat → Nat
  | 0 => 0
  | u + 1 => if comp u = 0 then cde40LeftLoop comp u else u + 1

/-- `cb_comp_hash`: entry `i` against the wanted key, where its hash can be read. -/
def cde40CompHash (key : Key) (es : List Entry) (wanted : Key) (i : Nat) : Int :=
  Key.compfull ((es[i]?.map (hashKey key)).getD key) wanted

/-- The search of `cde40_lookup` over entries whose hashes can be read. -/
def entryLookup (key : Key) (es : List Entry) (wanted : Key) (bias : LookupBias) : Lookup × Nat :=
  match auxBinSearch es.length (cde40CompHash key es wanted) with
  | (true, i) => (.present, cde40LeftLoop (cde40CompHash key es wanted) i)
  | (false, i) => (missBias bias, i)

/-- `cde40_lookup`; every step of the search reads the hash of an entry, so there is no answer where
    that cannot be read. -/
def cde40Lookup (pol : KeyPol) (key : Key) (es : List Entry) (wanted : Key) (bias : LookupBias) :
    Option (Lookup × Nat) :=
  if es.all fun e => (cde40GetHash pol key e).isSome then some (entryLookup key es wanted bias)
  else none

/-- `balance->lookup`, where the plugin has it, and its answer, if it comes to one. -/
def lookup (pol : KeyPol) (blksize : Nat) (it : Item) (wanted : Key) (bias : LookupBias) :
    Option (Option (Lookup × Nat)) :=
  match it.body with
  | .stat40 _ | .bbox40 _ | .nodeptr40 _ => none
  | .cde40 es => some (cde40Lookup pol it.key es wanted bias)
  | .plain40 ds | .ctail40 _ ds => some (some (tail40Lookup it.key ds.length wanted bias))
  | .extent40 us => some (some (extent40Lookup blksize it.key us wanted bias))

end Item

/-! ## Key ranges of units -/

/-- The keys a unit covers. -/
structure URange where
  lo : Key
  hi : Key
  deriving DecidableEq, Repr

namespace URange

/-- `a` may stand before `b`: all its keys are smaller, or both are one and the same single key
    (entries whose names collide). -/
def Before (a b : URange) : Prop := a.hi < b.lo ∨ (a.lo = a.hi ∧ a.hi = b.lo ∧ b.lo = b.hi)

theorem Before.hi_le {a b : URange} (h : Before a b) : a.hi ≤ b.lo := by
  rcases h with h | ⟨-, h, -⟩
  · exact le_of_lt h
  · exact le_of_eq h

/-- The unit covers the key. -/
def Covers (r : URange) (k : Key) : Prop := r.lo ≤ k ∧ k ≤ r.hi

end URange

namespace Item

/-- The range of unit `u`. -/
def range (blksize : Nat) (it : Item) (u : Nat) : URange :=
  ⟨it.unitKey blksize u, it.unitHi blksize u⟩

/-- The ranges of all units. -/
def ranges (blksize : Nat) (it : Item) : List URange := (List.range it.units).map (it.range blksize)

@[simp] theorem ranges_length (blksize : Nat) (it : Item) :
    (it.ranges blksize).length = it.units := by
  simp [ranges]

theorem mem_ranges {blksize : Nat} {it : Item} {r : URange} :
    r ∈ it.ranges blksize ↔ ∃ u, u < it.units ∧ it.range blksize u = r := by
  simp [ranges]

/-- The units are in key order. -/
def Sorted (blksize : Nat) (it : Item) : Prop := (it.ranges blksize).Pairwise URange.Before

theorem Sorted.before {blksize : Nat} {it : Item} (h : it.Sorted blksize) {u v : Nat} (huv : u < v)
    (hv : v < it.units) : (it.range blksize u).Before (it.range blksize v) := by
  have hlen : v < (it.ranges blksize).length := by rw [ranges_length]; exact hv
  have := List.pairwise_iff_getElem.mp h u v (by omega) hlen huv
  simpa [ranges] using this

/-- Unit `u` is the leftmost one that covers the key. -/
def FoundIn (blksize : Nat) (it : Item) (k : Key) (u : Nat) : Prop :=
  u < it.units ∧ (it.range blksize u).Covers k ∧ ∀ v, v < u → it.unitHi blksize v < k

/-- Position `u` is between the units before the key and those after it. -/
def MissedIn (blksize : Nat) (it : Item) (k : Key) (u : Nat) : Prop :=
  u ≤ it.units ∧ (∀ v, v < u → it.unitHi blksize v < k) ∧
    ∀ v, u ≤ v → v < it.units → k < it.unitKey blksize v

/-! ## Offsets decide inside a file body -/

/-- A key between the key of a body item and the largest one it may hold is of the same object. -/
theorem body40_same_object {pol : KeyPol} {key k : Key} (h1 : key ≤ k)
    (h2 : k ≤ body40MaxpossKey pol key) :
    k.el0 = key.el0 ∧ k.ordering = key.ordering ∧ k.el2 = key.el2 ∧ key.offset ≤ k.offset := by
  have h1' := not_lt.mpr h1
  have h2' := not_lt.mpr h2
  rw [Key.lt_iff] at h1' h2'
  simp only [body40MaxpossKey, Key.setOffset] at h2'
  omega

/-- Keys of one object compare as their offsets do. -/
theorem setOffset_lt_iff {key k : Key} (he : k.el0 = key.el0 ∧ k.ordering = key.ordering ∧
    k.el2 = key.el2) (n : Nat) : k < key.setOffset n ↔ k.offset < n := by
  rw [Key.lt_iff]
  simp only [Key.setOffset]
  omega

theorem lt_setOffset_iff {key k : Key} (he : k.el0 = key.el0 ∧ k.ordering = key.ordering ∧
    k.el2 = key.el2) (n : Nat) : key.setOffset n < k ↔ n < k.offset := by
  rw [Key.lt_iff]
  simp only [Key.setOffset]
  omega

theorem setOffset_le_iff {key k : Key} (he : k.el0 = key.el0 ∧ k.ordering = key.ordering ∧
    k.el2 = key.el2) (n : Nat) : k ≤ key.setOffset n ↔ k.offset ≤ n := by
  rw [← not_lt, lt_setOffset_iff he, not_lt]

theorem le_setOffset_iff {key k : Key} (he : k.el0 = key.el0 ∧ k.ordering = key.ordering ∧
    k.el2 = key.el2) (n : Nat) : key.setOffset n ≤ k ↔ n ≤ k.offset := by
  rw [← not_lt, setOffset_lt_iff he, not_lt]

/-! ## The methods find the leftmost unit -/

/-- What `itemLookup_spec` says about an answer. -/
def Answers (blksize : Nat) (it : Item) (k : Key) : Lookup × Nat → Prop
  | (.present, u) => FoundIn blksize it k u
  | (.absent, u) => MissedIn blksize it k u

theorem tail40Lookup_spec {pol : KeyPol} {blksize : Nat} {it : Item} {ds : List UInt8} {k : Key}
    (hb : it.body = .plain40 ds ∨ ∃ shift, it.body = .ctail40 shift ds)
    (hfit : it.key.offset + ds.length < two64) (h1 : it.key ≤ k)
    (h2 : k ≤ body40MaxpossKey pol it.key) :
    Answers blksize it k (tail40Lookup it.key ds.length k .exact) := by
  obtain ⟨e0, e1, e2, hoff⟩ := body40_same_object h1 h2
  have he := And.intro e0 (And.intro e1 e2)
  have hunits : it.units = ds.length := by
    rcases hb with hb | ⟨s, hb⟩ <;> simp [units, hb]
  have hkey : ∀ u, it.unitKey blksize u = it.key.setOffset (it.key.offset + u) := by
    intro u
    rcases hb with hb | ⟨s, hb⟩ <;> simp [unitKey, hb]
  have hhi : ∀ u, it.unitHi blksize u = it.key.setOffset (it.key.offset + u) := by
    intro u
    rw [← hkey u]
    refine unitHi_of_ne_extent ?_ u
    rcases hb with hb | ⟨s, hb⟩ <;> simp [plug, hb, Body.plug]
  unfold tail40Lookup
  rw [Nat.mod_eq_of_lt hfit]
  by_cases hin : k.offset ≥ it.key.offset ∧ k.offset < it.key.offset + ds.length
  · -- the offset lies in the item: the unit is their difference
    rw [if_pos hin]
    refine ⟨by omega, ⟨?_, ?_⟩, ?_⟩
    · show it.unitKey blksize _ ≤ k
      rw [hkey, le_setOffset_iff he]
      omega
    · show k ≤ it.unitHi blksize _
      rw [hhi, setOffset_le_iff he]
      omega
    · intro v hv
      rw [hhi, lt_setOffset_iff he]
      omega
  · rw [if_neg hin]
    refine ⟨by omega, ?_, fun v hv hv' => by omega⟩
    intro v hv
    rw [hhi, lt_setOffset_iff he]
    omega

/-- The loop stops at the first unit that ends behind the wanted offset. -/
theorem extent40LookupLoop_spec (blksize wanted : Nat) : ∀ (us : List ExtentUnit) (offset i : Nat),
    offset + extentBlocks us us.length * blksize < two64 →
    match extent40LookupLoop blksize wanted us offset i with
    | some j => ∃ u, j = i + u ∧ u < us.length ∧ wanted < offset + extentBlocks us (u + 1) * blksize ∧
        ∀ v, v < u → offset + extentBlocks us (v + 1) * blksize ≤ wanted
    | none => ∀ v, v < us.length → offset + extentBlocks us (v + 1) * blksize ≤ wanted := by
  intro us
  induction us with
  | nil =>
    intro offset i _ v hv
    simp at hv
  | cons x us ih =>
    intro offset i hfit
    have hsum : extentBlocks (x :: us) (x :: us).length * blksize =
        x.width * blksize + extentBlocks us us.length * blksize := by
      rw [List.length_cons, extentBlocks_cons, Nat.add_mul]
    have hstep : ∀ v, offset + extentBlocks (x :: us) (v + 1) * blksize =
        offset + x.width * blksize + extentBlocks us v * blksize := by
      intro v
      rw [extentBlocks_cons, Nat.add_mul]
      omega
    rw [hsum] at hfit
    have hmod : (offset + x.width * blksize) % two64 = offset + x.width * blksize :=
      Nat.mod_eq_of_lt (by omega)
    simp only [extent40LookupLoop, hmod]
    by_cases hlt : wanted < offset + x.width * blksize
    · rw [if_pos hlt]
      refine ⟨0, by omega, by simp, ?_, fun v hv => absurd hv (Nat.not_lt_zero v)⟩
      rw [hstep 0]
      simpa using hlt
    · rw [if_neg hlt]
      have hrec := ih (offset + x.width * blksize) (i + 1) (by omega)
      split at hrec
      · next j hj =>
        obtain ⟨u, rfl, hu, hwu, hall⟩ := hrec
        refine ⟨u + 1, by omega, by simp only [List.length_cons]; omega, ?_, ?_⟩
        · rw [hstep]
          exact hwu
        · intro v hv
          rw [hstep]
          cases v with
          | zero => simpa using Nat.not_lt.mp hlt
          | succ v => exact hall v (by omega)
      · next hj =>
        intro v hv
        rw [hstep]
        cases v with
        | zero => simpa using Nat.not_lt.mp hlt
        | succ v => exact hrec v (by simp only [List.length_cons] at hv; omega)

theorem extent40Lookup_spec {pol : KeyPol} {blksize : Nat} (hblk : 0 < blksize) {it : Item}
    {us : List ExtentUnit} {k : Key} (hb : it.body = .extent40 us)
    (hw : ∀ u ∈ us, 0 < u.width)
    (hfit : it.key.offset + extentBlocks us us.length * blksize < two64) (h1 : it.key ≤ k)
    (h2 : k ≤ body40MaxpossKey pol it.key) :
    Answers blksize it k (extent40Lookup blksize it.key us k .exact) := by
  obtain ⟨e0, e1, e2, hoff⟩ := body40_same_object h1 h2
  have he := And.intro e0 (And.intro e1 e2)
  have hunits : it.units = us.length := by simp [units, hb]
  have hkey : ∀ u, it.unitKey blksize u =
      it.key.setOffset (it.key.offset + extentBlocks us u * blksize) := by
    intro u
    simp [unitKey, hb]
  have hhi : ∀ u, it.unitHi blksize u =
      it.key.setOffset (it.key.offset + extentBlocks us (u + 1) * blksize - 1) := by
    intro u
    simp [unitHi, hb]
  -- a unit is not empty, so its last offset is the one before the next unit
  have hpos : ∀ u, u < us.length → 0 < extentBlocks us (u + 1) * blksize := by
    intro u hu
    obtain ⟨x, hx⟩ : ∃ x, us[u]? = some x := ⟨us[u], List.getElem?_eq_getElem hu⟩
    have hpw := hw x (List.mem_of_getElem? hx)
    rw [extentBlocks_succ hx]
    exact Nat.mul_pos (by omega) hblk
  have hloop := extent40LookupLoop_spec blksize k.offset us it.key.offset 0 hfit
  unfold extent40Lookup
  split at hloop
  · next j hj =>
    obtain ⟨u, rfl, hu, hwu, hall⟩ := hloop
    rw [Nat.zero_add]
    have hbefore : ∀ v, v < u → it.unitHi blksize v < k := by
      intro v hv
      have := hall v hv
      have := hpos v (by omega)
      rw [hhi, lt_setOffset_iff he]
      omega
    refine ⟨by omega, ⟨?_, ?_⟩, hbefore⟩
    · show it.unitKey blksize u ≤ k
      rw [hkey, le_setOffset_iff he]
      cases u with
      | zero => simpa using hoff
      | succ u => exact hall u (by omega)
    · show k ≤ it.unitHi blksize u
      rw [hhi, setOffset_le_iff he]
      omega
  · next hj =>
    refine ⟨by omega, ?_, fun v hv hv' => by omega⟩
    intro v hv
    have := hloop v hv
    have := hpos v hv
    rw [hhi, lt_setOffset_iff he]
    omega

/-- The left loop stops behind the last entry with another key. -/
theorem cde40LeftLoop_spec (comp : Nat → Int) : ∀ u : Nat, comp u = 0 →
    cde40LeftLoop comp u ≤ u ∧ comp (cde40LeftLoop comp u) = 0 ∧
      (cde40LeftLoop comp u = 0 ∨ comp (cde40LeftLoop comp u - 1) ≠ 0)
  | 0, h => ⟨Nat.le_refl _, h, Or.inl rfl⟩
  | u + 1, h => by
    rw [cde40LeftLoop]
    by_cases hu : comp u = 0
    · rw [if_pos hu]
      obtain ⟨h1, h2, h3⟩ := cde40LeftLoop_spec comp u hu
      exact ⟨by omega, h2, h3⟩
    · rw [if_neg hu]
      exact ⟨Nat.le_refl _, h, Or.inr hu⟩

theorem entryLookup_spec {blksize : Nat} {it : Item} {es : List Entry} {k : Key}
    (hb : it.body = .cde40 es) (hs : it.Sorted blksize) :
    Answers blksize it k (entryLookup it.key es k .exact) := by
  have hunits : it.units = es.length := by simp [units, hb]
  have hcomp : ∀ u, cde40CompHash it.key es k u = Key.compfull (it.unitKey blksize u) k := by
    intro u
    simp [cde40CompHash, unitKey, hb]
  have hhi : ∀ u, it.unitHi blksize u = it.unitKey blksize u :=
    unitHi_of_ne_extent (by simp [plug, hb, Body.plug])
  have hmono : ∀ u v, u ≤ v → v < es.length → it.unitKey blksize u ≤ it.unitKey blksize v := by
    intro u v huv hv
    rcases Nat.lt_or_eq_of_le huv with h | h
    · have := (hs.before h (by omega)).hi_le
      simp only [range, hhi] at this
      exact this
    · rw [h]
  have hcm : CompMono es.length (cde40CompHash it.key es k) := by
    refine ⟨fun u => ?_, fun u v huv hv => ?_⟩
    · rw [hcomp]
      exact Key.compfull_range _ _
    · rw [hcomp, hcomp]
      exact Key.compfull_mono (hmono u v huv hv) k
  unfold entryLookup
  rcases hbin : auxBinSearch es.length (cde40CompHash it.key es k) with ⟨_ | _, i⟩
  · have habs := auxBinSearch_absent hcm (by rw [hbin])
    rw [hbin] at habs
    obtain ⟨hi, hlo, hup⟩ := habs
    refine ⟨by omega, ?_, ?_⟩
    · intro v hv
      have := hlo v hv
      rw [hcomp, Key.compfull_neg] at this
      rw [hhi]
      exact this
    · intro v hv hv'
      have := hup v hv (by omega)
      rw [hcomp] at this
      exact Key.compfull_pos.mp (by omega)
  · have hfound := auxBinSearch_found hcm (by rw [hbin])
    rw [hbin] at hfound
    obtain ⟨hi, hc⟩ := hfound
    obtain ⟨hle, hz, hleft⟩ := cde40LeftLoop_spec _ i hc
    have hkeq : it.unitKey blksize (cde40LeftLoop (cde40CompHash it.key es k) i) = k := by
      rw [hcomp] at hz
      exact Key.compfull_zero.mp hz
    refine ⟨by omega, ⟨?_, ?_⟩, ?_⟩
    · exact le_of_eq hkeq
    · simp only [range, hhi]
      exact ge_of_eq hkeq
    · -- the entry before the stop differs, so it and all before it are smaller
      intro v hv
      rcases hleft with h0 | hne
      · omega
      · rw [hcomp] at hne
        have hlt : it.unitKey blksize (cde40LeftLoop (cde40CompHash it.key es k) i - 1) < k := by
          refine lt_of_le_of_ne ?_ (fun e => hne (Key.compfull_zero.mpr e))
          exact le_of_le_of_eq (hmono _ _ (by omega) (by omega)) hkeq
        rw [hhi]
        exact lt_of_le_of_lt (hmono v _ (by omega) (by omega)) hlt

/-- With large keys every hash can be read. -/
@[simp] theorem cde40Lookup_large (key : Key) (es : List Entry) (k : Key) (bias : LookupBias) :
    cde40Lookup .large key es k bias = some (entryLookup key es k bias) :=
  if_pos (List.all_eq_true.mpr fun _ _ => rfl)

/-- An answer is that of the search over the entries. -/
theorem cde40Lookup_some {pol : KeyPol} {key k : Key} {es : List Entry} {bias : LookupBias}
    {r : Lookup × Nat} (h : cde40Lookup pol key es k bias = some r) : entryLookup key es k bias = r := by
  unfold cde40Lookup at h
  split at h
  · exact Option.some.inj h
  · cases h

/-- **Lookup inside an item**: for a key between the item key and the largest key the item may
    hold, the lookup method gives the leftmost unit that covers it, or the position between the
    smaller and the larger units. -/
theorem lookup_spec {pol : KeyPol} {blksize : Nat} (hblk : 0 < blksize) {it : Item}
    (hw : it.WF pol blksize) (hs : it.Sorted blksize) {k m : Key} (h1 : it.key ≤ k)
    (hm : it.maxpossKey pol = some m) (h2 : k ≤ m) {r : Lookup × Nat}
    (hr : it.lookup pol blksize k .exact = some (some r)) : Answers blksize it k r := by
  unfold lookup at hr
  unfold maxpossKey at hm
  cases hb : it.body with
  | stat40 d => simp [hb] at hr
  | bbox40 d => simp [hb] at hr
  | nodeptr40 p => simp [hb] at hr
  | cde40 es =>
    simp only [hb, Option.some.injEq] at hr
    rw [← cde40Lookup_some hr]
    exact entryLookup_spec hb hs
  | plain40 ds =>
    simp only [hb, Option.some.injEq] at hr hm
    rw [← hr]
    exact tail40Lookup_spec (Or.inl hb) (hw.tail ds (Or.inl hb)) h1 (hm ▸ h2)
  | ctail40 s ds =>
    simp only [hb, Option.some.injEq] at hr hm
    rw [← hr]
    exact tail40Lookup_spec (Or.inr ⟨s, hb⟩) (hw.tail ds (Or.inr ⟨s, hb⟩)) h1 (hm ▸ h2)
  | extent40 us =>
    simp only [hb, Option.some.injEq] at hr hm
    rw [← hr]
    exact extent40Lookup_spec hblk hb (hw.extent us hb).1 (hw.extent us hb).2 h1 (hm ▸ h2)

end Item
end Reiser4
