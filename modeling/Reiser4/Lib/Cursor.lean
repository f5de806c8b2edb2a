/-
  A cursor over a sorted sequence with repetitions.

  A mark is a key and a number.  It means the element that many places behind the first one not smaller than the
  key, but never one further than the first behind the elements with the key.  Reading gives the element at the
  mark and leaves the mark of the next one: its key, and how many elements with that key are in front of it, in a
  counter of limited size.  Behind the last element the key is bumped instead.  A mark can be kept and gone back
  to.

    1. `lt_below_iff`, `lt_upto_iff`   the ranks of a key;
    2. `Cursor.Marks.land`, `.next`    what a mark of an element means, and reading there;
    3. `Cursor.right_iff`              the crux: reading, keeping and going back walks the sequence in order exactly
                                       when the counter never runs over, the bumped key is behind the last element,
                                       and the first reading knows the key it reads.
-/
import Mathlib

namespace Reiser4.Lib

/-! ## Ranks -/

section Ranks

variable {α : Type} [LinearOrder α] {ks : List α} {k a : α} {i : Nat}

/-- How many elements are smaller. -/
def below (ks : List α) (k : α) : Nat := ks.countP fun a => a < k

/-- How many are not larger. -/
def upto (ks : List α) (k : α) : Nat := ks.countP fun a => a ≤ k

omit [LinearOrder α] in
/-- When the elements with a property come first, their number is where they end. -/
theorem lt_countP_iff {p : α → Bool} : ∀ {ks : List α} {i : Nat} {a : α},
    (ks.Pairwise fun a b => p b = true → p a = true) → ks[i]? = some a → (i < ks.countP p ↔ p a = true)
  | [], _, _, _, ha => by simp at ha
  | b :: ks, 0, a, hs, ha => by
    obtain rfl : b = a := by simpa using ha
    rw [List.countP_cons]
    cases hp : p b with
    | true => simp
    | false =>
      have hnone : ks.countP p = 0 := by
        rw [List.countP_eq_zero]
        intro x hx hpx
        rw [(List.pairwise_cons.mp hs).1 x hx hpx] at hp
        simp at hp
      simp [hnone]
  | b :: ks, i + 1, a, hs, ha => by
    obtain ⟨hfront, hs'⟩ := List.pairwise_cons.mp hs
    have ha' : ks[i]? = some a := by simpa using ha
    have ih := lt_countP_iff hs' ha'
    rw [List.countP_cons]
    cases hp : p b with
    | true =>
      rw [if_pos rfl, ← ih]
      omega
    | false =>
      have hno : ¬ p a = true := by
        intro hpa
        rw [hfront a (List.mem_of_getElem? ha') hpa] at hp
        simp at hp
      rw [if_neg (by simp), Nat.add_zero]
      constructor
      · intro h
        exact absurd (ih.mp (by omega)) hno
      · intro h
        exact absurd h hno

theorem lt_below_iff (hs : ks.Pairwise (· ≤ ·)) (ha : ks[i]? = some a) : i < below ks k ↔ a < k := by
  have h := lt_countP_iff (p := fun a => decide (a < k))
    (hs.imp fun {a b} hab hb => decide_eq_true (lt_of_le_of_lt hab (of_decide_eq_true hb))) ha
  rw [below, h, decide_eq_true_iff]

theorem lt_upto_iff (hs : ks.Pairwise (· ≤ ·)) (ha : ks[i]? = some a) : i < upto ks k ↔ a ≤ k := by
  have h := lt_countP_iff (p := fun a => decide (a ≤ k))
    (hs.imp fun {a b} hab hb => decide_eq_true (le_trans hab (of_decide_eq_true hb))) ha
  rw [upto, h, decide_eq_true_iff]

theorem below_le_upto (ks : List α) (k : α) : below ks k ≤ upto ks k :=
  List.countP_mono_left fun _ _ h => decide_eq_true (le_of_lt (of_decide_eq_true h))

theorem upto_le_length (ks : List α) (k : α) : upto ks k ≤ ks.length := List.countP_le_length

/-- The elements of a key lie from the one rank to the other. -/
theorem below_le_of_get (hs : ks.Pairwise (· ≤ ·)) (ha : ks[i]? = some a) : below ks a ≤ i ∧ i < upto ks a := by
  have h1 := (lt_below_iff (k := a) hs ha).not.mpr (lt_irrefl a)
  have h2 := (lt_upto_iff (k := a) hs ha).mpr (le_refl a)
  omega

/-- A rank from the elements around it. -/
theorem below_eq (hs : ks.Pairwise (· ≤ ·)) (hi : i ≤ ks.length) (hlo : ∀ j a, j < i → ks[j]? = some a → a < k)
    (hup : ∀ a, ks[i]? = some a → k ≤ a) : below ks k = i := by
  have hle : below ks k ≤ ks.length := Nat.le_trans (below_le_upto ks k) (upto_le_length ks k)
  rcases Nat.lt_trichotomy (below ks k) i with h | h | h
  · have hget : ks[below ks k]? = some ks[below ks k] := List.getElem?_eq_getElem (by omega)
    have hlt := (lt_below_iff hs hget).mpr (hlo _ _ h hget)
    omega
  · exact h
  · have hget : ks[i]? = some ks[i] := List.getElem?_eq_getElem (by omega)
    exact absurd ((lt_below_iff hs hget).mp h) (not_lt.mpr (hup _ hget))

theorem below_append {as bs : List α} (has : ∀ a ∈ as, a < k) (hbs : ∀ b ∈ bs, k ≤ b) :
    below (as ++ bs) k = as.length := by
  have h1 : as.countP (fun a => a < k) = as.length := List.countP_eq_length.mpr fun a ha => decide_eq_true (has a ha)
  have h2 : bs.countP (fun a => a < k) = 0 :=
    List.countP_eq_zero.mpr fun b hb => by simpa using hbs b hb
  rw [below, List.countP_append, h1, h2]
  rfl

theorem upto_append {as bs : List α} (has : ∀ a ∈ as, a ≤ k) (hbs : ∀ b ∈ bs, k < b) :
    upto (as ++ bs) k = as.length := by
  have h1 : as.countP (fun a => a ≤ k) = as.length := List.countP_eq_length.mpr fun a ha => decide_eq_true (has a ha)
  have h2 : bs.countP (fun a => a ≤ k) = 0 :=
    List.countP_eq_zero.mpr fun b hb => by simpa using hbs b hb
  rw [upto, List.countP_append, h1, h2]
  rfl

end Ranks

/-! ## The cursor -/

/-- What a cursor keeps: a key, and how many elements with it to pass over. -/
structure Mark (α : Type) where
  key : α
  adjust : Nat
  deriving DecidableEq, Repr

/-- A sequence with a way through it: the counter has `wrap` values, `bump` gives the key behind the end, and the
    walk begins with the mark of the key `start`. -/
structure Cursor (α : Type) where
  keys : List α
  wrap : Nat
  bump : α → α
  start : α

/-- What can be done with a cursor. -/
inductive CursorOp
  | read
  | tell
  | seek (n : Nat)
  deriving DecidableEq, Repr

/-- The walk that is meant: each reading is one place further, up to the end, and `seek` goes back to what the
    `n`-th `tell` kept. -/
def cursorWalk (len : Nat) : List CursorOp → Nat → List Nat → List Nat
  | [], _, _ => []
  | .read :: ops, i, kept => i :: cursorWalk len ops (min (i + 1) len) kept
  | .tell :: ops, i, kept => cursorWalk len ops i (kept ++ [i])
  | .seek n :: ops, i, kept => cursorWalk len ops (kept[n]?.getD i) kept

theorem cursorWalk_le {len : Nat} : ∀ (ops : List CursorOp) {i : Nat} {kept : List Nat}, i ≤ len →
    (∀ p ∈ kept, p ≤ len) → ∀ j ∈ cursorWalk len ops i kept, j ≤ len
  | [], _, _, _, _, _, hj => absurd hj List.not_mem_nil
  | .read :: ops, _, _, hi, hkept, j, hj => by
    rcases List.mem_cons.mp hj with rfl | hj
    · exact hi
    · exact cursorWalk_le ops (Nat.min_le_right _ _) hkept j hj
  | .tell :: ops, i, kept, hi, hkept, j, hj => by
    have hkept' : ∀ p ∈ kept ++ [i], p ≤ len := by
      intro p hp
      rcases List.mem_append.mp hp with hp | hp
      · exact hkept p hp
      · rw [List.mem_singleton.mp hp]
        exact hi
    exact cursorWalk_le ops hi hkept' j hj
  | .seek n :: ops, i, kept, hi, hkept, j, hj => by
    have hseek : kept[n]?.getD i ≤ len := by
      cases hget : kept[n]? with
      | none => exact hi
      | some p => exact hkept p (List.mem_of_getElem? hget)
    exact cursorWalk_le ops hseek hkept j hj

namespace Cursor

variable {α : Type} [LinearOrder α]

/-- The place of a mark. -/
def land (c : Cursor α) (m : Mark α) : Nat := min (below c.keys m.key + m.adjust) (upto c.keys m.key)

/-- Going over elements with the key one by one comes to the place of the mark. -/
theorem land_of_scan {c : Cursor α} (hs : c.keys.Pairwise (· ≤ ·)) {m : Mark α} {r : Nat} (hlen : r ≤ c.keys.length)
    (hlo : below c.keys m.key ≤ r) (hup : r ≤ below c.keys m.key + m.adjust)
    (hsame : ∀ j k, below c.keys m.key ≤ j → j < r → c.keys[j]? = some k → k = m.key)
    (hstop : r < below c.keys m.key + m.adjust → ∀ k, c.keys[r]? = some k → k ≠ m.key) : c.land m = r := by
  have hle := below_le_upto c.keys m.key
  have hlen' := upto_le_length c.keys m.key
  -- all that were gone over have the key
  have hupto : r ≤ upto c.keys m.key := by
    rcases Nat.lt_or_eq_of_le hlo with hlt | heq
    · obtain ⟨k, hk⟩ : ∃ k, c.keys[r - 1]? = some k := ⟨_, List.getElem?_eq_getElem (by omega)⟩
      have hlast := (lt_upto_iff (k := m.key) hs hk).mpr (le_of_eq (hsame _ k (by omega) (by omega) hk))
      omega
    · omega
  -- and the next one has it not, unless enough were gone over
  have hend : r < below c.keys m.key + m.adjust → upto c.keys m.key ≤ r := by
    intro hlt
    by_contra hnot
    obtain ⟨k, hk⟩ : ∃ k, c.keys[r]? = some k := ⟨_, List.getElem?_eq_getElem (by omega)⟩
    have h1 := (lt_upto_iff (k := m.key) hs hk).mp (by omega)
    have h2 := (lt_below_iff (k := m.key) hs hk).not.mp (by omega)
    exact hstop hlt k hk (le_antisymm h1 (not_lt.mp h2))
  show min (below c.keys m.key + m.adjust) (upto c.keys m.key) = r
  omega

/-- The mark that reading leaves; at the end it stays. -/
def next (c : Cursor α) (m : Mark α) : Mark α :=
  match c.keys[c.land m + 1]? with
  | some k => ⟨k, if k = m.key then (m.adjust + 1) % c.wrap else 0⟩
  | none => if c.land m < c.keys.length then ⟨c.bump m.key, m.adjust⟩ else m

/-- The places that the readings of a run come to. -/
def run (c : Cursor α) : List CursorOp → Mark α → List (Mark α) → List Nat
  | [], _, _ => []
  | .read :: ops, m, kept => c.land m :: c.run ops (c.next m) kept
  | .tell :: ops, m, kept => c.run ops m (kept ++ [m])
  | .seek n :: ops, m, kept => c.run ops (kept[n]?.getD m) kept

theorem land_le_length (c : Cursor α) (m : Mark α) : c.land m ≤ c.keys.length :=
  Nat.le_trans (Nat.min_le_right _ _) (upto_le_length _ _)

theorem run_le_length (c : Cursor α) : ∀ (ops : List CursorOp) (m : Mark α) (kept : List (Mark α)),
    ∀ i ∈ c.run ops m kept, i ≤ c.keys.length
  | [], _, _, _, hi => absurd hi List.not_mem_nil
  | .read :: ops, m, kept, i, hi => by
    rcases List.mem_cons.mp hi with rfl | hi
    · exact c.land_le_length m
    · exact run_le_length c ops _ kept i hi
  | .tell :: ops, m, kept, i, hi => run_le_length c ops m _ i hi
  | .seek _ :: ops, _, kept, i, hi => run_le_length c ops _ kept i hi

/-- All runs walk the sequence as they are meant to. -/
def Right (c : Cursor α) : Prop := ∀ ops, c.run ops ⟨c.start, 0⟩ [] = cursorWalk c.keys.length ops 0 []

/-- The sequence is sorted and begins at `start` or behind it, and the key behind a key is another one. -/
structure Lawful (c : Cursor α) : Prop where
  sorted : c.keys.Pairwise (· ≤ ·)
  start_le : ∀ k ∈ c.keys, c.start ≤ k
  bump_ne : ∀ k, c.bump k ≠ k
  bump_start : ∀ k ∈ c.keys, c.start < k → c.bump c.start ≤ k
  wrap_pos : 0 < c.wrap

/-- What a walk in order needs. -/
structure Fits (c : Cursor α) : Prop where
  /-- The first reading knows the key it reads, or the next element has another one. -/
  first : c.keys = [] ∨ c.keys[0]? = some c.start ∨
    ∃ a b, c.keys[0]? = some a ∧ c.keys[1]? = some b ∧ a ≠ b
  /-- Elements with one key fit the counter. -/
  runs : ∀ i k, c.keys[i]? = some k → i - below c.keys k < c.wrap
  /-- The key behind the last one is behind it. -/
  last : ∀ k, c.keys.getLast? = some k → k < c.bump k

/-- The mark means the place: it names the element there, or the walk begins or ends with it. -/
inductive Marks (c : Cursor α) : Nat → Mark α → Prop
  | element {i : Nat} {k : α} (hk : c.keys[i]? = some k) : Marks c i ⟨k, i - below c.keys k⟩
  | start : Marks c 0 ⟨c.start, 0⟩
  | done {k : α} (hk : c.keys.getLast? = some k) (adjust : Nat) : Marks c c.keys.length ⟨c.bump k, adjust⟩

/-! ## Reading at a mark -/

section Marks

variable {c : Cursor α} {i : Nat} {m : Mark α}

theorem Marks.le (hm : c.Marks i m) : i ≤ c.keys.length := by
  cases hm with
  | element hk => exact Nat.le_of_lt (List.getElem?_eq_some_iff.mp hk).1
  | start => exact Nat.zero_le _
  | done hk adjust => exact Nat.le_refl _

theorem Lawful.below_start (hl : c.Lawful) : below c.keys c.start = 0 := by
  refine below_eq hl.sorted (Nat.zero_le _) (fun j _ hj => absurd hj (Nat.not_lt_zero j)) fun a ha => ?_
  exact hl.start_le a (List.mem_of_getElem? ha)

/-- The last element is not smaller than any other. -/
theorem Lawful.le_last (hl : c.Lawful) {k a : α} (hk : c.keys.getLast? = some k) {j : Nat}
    (ha : c.keys[j]? = some a) : a ≤ k := by
  have hj := (List.getElem?_eq_some_iff.mp ha).1
  rw [List.getLast?_eq_getElem?] at hk
  rcases Nat.lt_or_eq_of_le (show j ≤ c.keys.length - 1 by omega) with hlt | rfl
  · obtain ⟨_, rfl⟩ := List.getElem?_eq_some_iff.mp ha
    obtain ⟨_, rfl⟩ := List.getElem?_eq_some_iff.mp hk
    exact List.pairwise_iff_getElem.mp hl.sorted j _ _ _ hlt
  · exact le_of_eq (Option.some.inj (ha.symm.trans hk))

theorem Lawful.land_element (hl : c.Lawful) {k : α} (hk : c.keys[i]? = some k) :
    c.land ⟨k, i - below c.keys k⟩ = i := by
  have h := below_le_of_get hl.sorted hk
  show min (below c.keys k + (i - below c.keys k)) (upto c.keys k) = i
  omega

/-- A mark means its place. -/
theorem Marks.land (hl : c.Lawful) (hf : c.Fits) (hm : c.Marks i m) : c.land m = i := by
  cases hm with
  | element hk => exact hl.land_element hk
  | start =>
    show min (below c.keys c.start + 0) _ = 0
    rw [hl.below_start]
    omega
  | @done k hk adjust =>
    have hlt := hf.last k hk
    have hbelow : below c.keys (c.bump k) = c.keys.length := by
      refine below_eq hl.sorted (Nat.le_refl _) (fun j a _ ha => lt_of_le_of_lt (hl.le_last hk ha) hlt) ?_
      intro a ha
      simp at ha
    have hle := below_le_upto c.keys (c.bump k)
    have hlen := upto_le_length c.keys (c.bump k)
    show min (below c.keys (c.bump k) + adjust) (upto c.keys (c.bump k)) = c.keys.length
    omega

/-- The number of equal elements in front goes up by one while the key stays. -/
theorem Lawful.ahead_succ (hl : c.Lawful) {k k' : α} (hk : c.keys[i]? = some k) (hk' : c.keys[i + 1]? = some k') :
    i + 1 - below c.keys k' = if k' = k then i - below c.keys k + 1 else 0 := by
  have h := below_le_of_get hl.sorted hk
  by_cases heq : k' = k
  · rw [if_pos heq, heq]
    omega
  · rw [if_neg heq]
    have hi := (List.getElem?_eq_some_iff.mp hk').1
    obtain ⟨_, hget⟩ := List.getElem?_eq_some_iff.mp hk
    obtain ⟨_, hget'⟩ := List.getElem?_eq_some_iff.mp hk'
    have hle : k ≤ k' := by
      rw [← hget, ← hget']
      exact List.pairwise_iff_getElem.mp hl.sorted i (i + 1) _ _ (Nat.lt_succ_self i)
    have hbelow := (lt_below_iff (k := k') hl.sorted hk).mpr (lt_of_le_of_ne hle fun e => heq e.symm)
    omega

omit [LinearOrder α] in
theorem getLast?_of_end {k : α} (hk : c.keys[i]? = some k) (hend : c.keys[i + 1]? = none) :
    c.keys.getLast? = some k ∧ i + 1 = c.keys.length := by
  have hi := (List.getElem?_eq_some_iff.mp hk).1
  have hend' := List.getElem?_eq_none_iff.mp hend
  have hlen : i + 1 = c.keys.length := by omega
  rw [List.getLast?_eq_getElem?, ← hlen, Nat.add_sub_cancel]
  exact ⟨hk, rfl⟩

/-- **Reading** at the mark of an element leaves that of the next one. -/
theorem next_element (hl : c.Lawful) (hf : c.Fits) {k : α} (hk : c.keys[i]? = some k) :
    c.Marks (i + 1) (c.next ⟨k, i - below c.keys k⟩) := by
  have hi := (List.getElem?_eq_some_iff.mp hk).1
  unfold next
  rw [hl.land_element hk]
  cases hnext : c.keys[i + 1]? with
  | none =>
    obtain ⟨hlast, hlen⟩ := getLast?_of_end hk hnext
    rw [hlen, if_pos hi]
    exact .done hlast _
  | some k' =>
    have hahead := hl.ahead_succ hk hnext
    have hwrap := hf.runs _ _ hnext
    have hmark : (if k' = k then (i - below c.keys k + 1) % c.wrap else 0) = i + 1 - below c.keys k' := by
      rw [hahead] at hwrap ⊢
      by_cases heq : k' = k
      · rw [if_pos heq] at hwrap ⊢
        rw [if_pos heq, Nat.mod_eq_of_lt hwrap]
      · rw [if_neg heq, if_neg heq]
    show c.Marks (i + 1) ⟨k', if k' = k then (i - below c.keys k + 1) % c.wrap else 0⟩
    rw [hmark]
    exact .element hnext

theorem Marks.next (hl : c.Lawful) (hf : c.Fits) (hm : c.Marks i m) :
    c.Marks (min (i + 1) c.keys.length) (c.next m) := by
  have hland := hm.land hl hf
  cases hm with
  | @element i k hk =>
    have hi := (List.getElem?_eq_some_iff.mp hk).1
    rw [Nat.min_eq_left hi]
    exact next_element hl hf hk
  | @done k hk adjust =>
    have hstay : c.next ⟨c.bump k, adjust⟩ = ⟨c.bump k, adjust⟩ := by
      unfold Cursor.next
      rw [hland, List.getElem?_eq_none (Nat.le_succ _)]
      exact if_neg (Nat.lt_irrefl _)
    rw [hstay, Nat.min_eq_right (Nat.le_succ _)]
    exact .done hk adjust
  | start =>
    rcases hf.first with hnil | hstart | ⟨a, b, ha, hb, hab⟩
    · have hstay : c.next ⟨c.start, 0⟩ = ⟨c.start, 0⟩ := by
        unfold Cursor.next
        rw [hland, hnil]
        rfl
      rw [hstay, hnil]
      exact .start
    · -- the first element has the key looked for
      have hi := (List.getElem?_eq_some_iff.mp hstart).1
      have hmark : (⟨c.start, 0⟩ : Mark α) = ⟨c.start, 0 - below c.keys c.start⟩ := by rw [Nat.zero_sub]
      rw [Nat.min_eq_left hi, hmark]
      exact next_element hl hf hstart
    · -- it has another one, and so has the next element
      have hi := (List.getElem?_eq_some_iff.mp hb).1
      have hahead := hl.ahead_succ ha hb
      rw [if_neg fun e => hab e.symm] at hahead
      have hrank := below_le_of_get hl.sorted hb
      have hlt : a < b := (lt_below_iff (k := b) hl.sorted ha).mp (by omega)
      have hne : b ≠ c.start :=
        ne_of_gt (lt_of_le_of_lt (hl.start_le a (List.mem_of_getElem? ha)) hlt)
      have hmark : c.next ⟨c.start, 0⟩ = ⟨b, 0 + 1 - below c.keys b⟩ := by
        unfold Cursor.next
        rw [hland, show (0 : Nat) + 1 = 1 from rfl, hb]
        simp only [if_neg hne]
        rw [hahead]
      rw [hmark, Nat.min_eq_left (by omega)]
      exact .element hb

end Marks

omit [LinearOrder α] in
/-- What was kept for a place is found again. -/
theorem getD_marks {R : Nat → Mark α → Prop} {i : Nat} {m : Mark α} (hm : R i m) : ∀ {places : List Nat}
    {kept : List (Mark α)} (n : Nat), List.Forall₂ R places kept → R (places[n]?.getD i) (kept[n]?.getD m)
  | _, _, _, .nil => by simpa using hm
  | _, _, 0, .cons h _ => by simpa using h
  | _ :: _, _ :: _, n + 1, .cons _ h => by simpa using getD_marks hm n h

/-- **All runs**: with marks that mean their places, a run is the walk over the places. -/
theorem run_eq_walk {c : Cursor α} (hl : c.Lawful) (hf : c.Fits) : ∀ (ops : List CursorOp) {i : Nat} {m : Mark α}
    {kept : List (Mark α)} {places : List Nat}, c.Marks i m → List.Forall₂ c.Marks places kept →
    c.run ops m kept = cursorWalk c.keys.length ops i places := by
  intro ops
  induction ops with
  | nil =>
    intro i m kept places _ _
    rfl
  | cons op ops ih =>
    intro i m kept places hm hkept
    cases op with
    | read =>
      rw [run, cursorWalk, hm.land hl hf, ih (hm.next hl hf) hkept]
    | tell => exact ih hm (List.rel_append hkept (.cons hm .nil))
    | seek n => exact ih (getD_marks hm n hkept) hkept

/-! ## What a walk in order needs -/

section Reads

variable {c : Cursor α}

theorem run_reads (c : Cursor α) : ∀ (n : Nat) (m : Mark α),
    c.run (List.replicate n .read) m [] = (List.range n).map fun j => c.land (c.next^[j] m)
  | 0, _ => rfl
  | n + 1, m => by
    rw [List.replicate_succ, run, run_reads c n, List.range_succ_eq_map, List.map_cons, List.map_map]
    rfl

theorem walk_reads (len : Nat) : ∀ {n i : Nat}, i ≤ len →
    cursorWalk len (List.replicate n .read) i [] = (List.range n).map fun j => min (i + j) len
  | 0, _, _ => rfl
  | n + 1, i, hi => by
    rw [List.replicate_succ, cursorWalk, walk_reads len (Nat.min_le_right (i + 1) len), List.range_succ_eq_map,
      List.map_cons, List.map_map]
    congr 1
    · show i = min (i + 0) len
      omega
    · refine List.map_congr_left fun j _ => ?_
      show min (min (i + 1) len + j) len = min (i + (j + 1)) len
      omega

/-- The mark after some readings. -/
def markAfter (c : Cursor α) (j : Nat) : Mark α := c.next^[j] ⟨c.start, 0⟩

theorem markAfter_succ (c : Cursor α) (j : Nat) : c.markAfter (j + 1) = c.next (c.markAfter j) :=
  Function.iterate_succ_apply' c.next j _

theorem Right.land (hr : c.Right) {j : Nat} (hj : j ≤ c.keys.length) : c.land (c.markAfter j) = j := by
  have h := hr (List.replicate (j + 1) .read)
  rw [run_reads, walk_reads c.keys.length (Nat.zero_le _)] at h
  have hget := congrArg (·[j]?) h
  simp only [List.getElem?_map, List.getElem?_range (Nat.lt_succ_self j), Option.map_some, Option.some.injEq] at hget
  have hmin : min (0 + j) c.keys.length = j := by omega
  exact hget.trans hmin

/-- A walk in order begins well. -/
theorem Right.first (hl : c.Lawful) (hr : c.Right) : c.keys = [] ∨ c.keys[0]? = some c.start ∨
    ∃ a b, c.keys[0]? = some a ∧ c.keys[1]? = some b ∧ a ≠ b := by
  rcases hkeys : c.keys with _ | ⟨a, ks⟩
  · exact Or.inl rfl
  by_cases hstart : a = c.start
  · refine Or.inr (Or.inl ?_)
    rw [hstart]
    rfl
  have hget : c.keys[0]? = some a := by rw [hkeys]; rfl
  have hlt : c.start < a :=
    lt_of_le_of_ne (hl.start_le a (List.mem_of_getElem? hget)) fun e => hstart e.symm
  have hland0 : c.land ⟨c.start, 0⟩ = 0 := by
    show min (below c.keys c.start + 0) _ = 0
    rw [hl.below_start]
    omega
  have hlen : 0 < c.keys.length := by rw [hkeys]; exact Nat.succ_pos _
  have hland1 := hr.land (j := 1) hlen
  -- a key that no element is smaller than: the first element is read again
  have hagain : ∀ k, k ≤ a → c.markAfter 1 = ⟨k, 0⟩ → False := by
    intro k hk hmark
    have hbelow : below c.keys k = 0 := by
      refine below_eq hl.sorted (Nat.zero_le _) (fun j _ hj => absurd hj (Nat.not_lt_zero j)) fun b hb => ?_
      exact hk.trans (le_of_eq (Option.some.inj (hget.symm.trans hb)))
    rw [hmark] at hland1
    have hmin : min (below c.keys k + 0) (upto c.keys k) = 1 := hland1
    omega
  have hnext : c.markAfter 1 = c.next ⟨c.start, 0⟩ := rfl
  rw [next, hland0] at hnext
  cases hget1 : c.keys[0 + 1]? with
  | none =>
    rw [hget1] at hnext
    simp only [if_pos hlen] at hnext
    exact absurd hnext (hagain _ (hl.bump_start a (List.mem_of_getElem? hget) hlt))
  | some b =>
    refine Or.inr (Or.inr ⟨a, b, rfl, by rw [← hkeys]; exact hget1, fun hab => ?_⟩)
    rw [hget1] at hnext
    simp only [if_neg (show b ≠ c.start from fun e => hstart (hab.trans e))] at hnext
    exact hagain b (le_of_eq hab.symm) hnext

/-- In a walk in order every mark is that of its element, or still that of the start. -/
theorem Right.marks (hl : c.Lawful) (hr : c.Right) : ∀ {i : Nat} {k : α}, c.keys[i]? = some k →
    i - below c.keys k < c.wrap ∧ (c.markAfter i = ⟨k, i - below c.keys k⟩ ∨ i = 0 ∧ c.keys[0]? ≠ some c.start) := by
  intro i
  induction i with
  | zero =>
    intro k hk
    refine ⟨by rw [Nat.zero_sub]; exact hl.wrap_pos, ?_⟩
    by_cases hstart : c.keys[0]? = some c.start
    · have hks : c.start = k := Option.some.inj (hstart.symm.trans hk)
      refine Or.inl ?_
      rw [Nat.zero_sub, ← hks]
      rfl
    · exact Or.inr ⟨rfl, hstart⟩
  | succ i ih =>
    intro k' hk'
    have hi := (List.getElem?_eq_some_iff.mp hk').1
    obtain ⟨k, hk⟩ : ∃ k, c.keys[i]? = some k := ⟨_, List.getElem?_eq_getElem (Nat.lt_of_succ_lt hi)⟩
    obtain ⟨hwrap, hmark⟩ := ih hk
    have hahead := hl.ahead_succ hk hk'
    have hland := hr.land (Nat.le_of_lt hi)
    have hnext : c.markAfter (i + 1) = ⟨k', if k' = (c.markAfter i).key then ((c.markAfter i).adjust + 1) % c.wrap
        else 0⟩ := by
      rw [markAfter_succ, next, hr.land (Nat.le_of_lt (Nat.lt_of_succ_lt hi)), hk']
    rcases hmark with hmark | ⟨rfl, hstart⟩
    · rw [hmark] at hnext
      simp only at hnext
      by_cases heq : k' = k
      · rw [if_pos heq] at hahead hnext
        -- were the counter to run over, the first of the equal elements would be read again
        have hlt : i - below c.keys k + 1 < c.wrap := by
          by_contra hge
          have hzero : (i - below c.keys k + 1) % c.wrap = 0 := by
            rw [show i - below c.keys k + 1 = c.wrap by omega, Nat.mod_self]
          rw [hnext, hzero] at hland
          have hmin : min (below c.keys k' + 0) (upto c.keys k') = i + 1 := hland
          omega
        rw [Nat.mod_eq_of_lt hlt, ← hahead] at hnext
        exact ⟨by omega, Or.inl hnext⟩
      · rw [if_neg heq] at hahead hnext
        rw [← hahead] at hnext
        exact ⟨by rw [hahead]; exact hl.wrap_pos, Or.inl hnext⟩
    · -- the walk began between keys, so the next element has another key than the first
      rcases hr.first hl with hnil | hfirst | ⟨a, b, ha, hb, hab⟩
      · rw [hnil] at hk
        simp at hk
      · exact absurd hfirst hstart
      · obtain rfl : a = k := Option.some.inj (ha.symm.trans hk)
        obtain rfl : b = k' := Option.some.inj (hb.symm.trans hk')
        rw [if_neg fun e => hab e.symm] at hahead
        have hmark0 : c.markAfter 0 = ⟨c.start, 0⟩ := rfl
        rw [hmark0] at hnext
        have hrank := below_le_of_get hl.sorted hb
        have hlt : a < b := (lt_below_iff (k := b) hl.sorted ha).mp (by omega)
        have hne : b ≠ c.start :=
          ne_of_gt (lt_of_le_of_lt (hl.start_le a (List.mem_of_getElem? ha)) hlt)
        simp only [if_neg hne] at hnext
        exact ⟨by rw [hahead]; exact hl.wrap_pos, Or.inl (by rw [hahead]; exact hnext)⟩

/-- A walk in order ends: the key behind the last element is behind it. -/
theorem Right.last (hl : c.Lawful) (hr : c.Right) {k : α} (hk : c.keys.getLast? = some k) : k < c.bump k := by
  have hget := hk
  rw [List.getLast?_eq_getElem?] at hget
  have hlen := (List.getElem?_eq_some_iff.mp hget).1
  have hsucc : c.keys.length - 1 + 1 = c.keys.length := by omega
  by_contra hnot
  have hbump : c.bump k < k := lt_of_le_of_ne (not_lt.mp hnot) (hl.bump_ne k)
  obtain ⟨-, hmark⟩ := hr.marks hl hget
  have hland := hr.land (Nat.le_refl c.keys.length)
  have hkey : (c.markAfter c.keys.length).key = c.bump k := by
    rw [← hsucc, markAfter_succ, next, hr.land (Nat.sub_le _ _), hsucc,
      List.getElem?_eq_none (Nat.le_refl _), if_pos hlen]
    rcases hmark with hmark | ⟨h0, hstart⟩
    · rw [hmark]
    · -- one element, and not at the start: excluded
      rcases hr.first hl with hnil | hfirst | ⟨a, b, -, hb, -⟩
      · rw [hnil] at hlen
        simp at hlen
      · exact absurd hfirst hstart
      · have := (List.getElem?_eq_some_iff.mp hb).1
        omega
  -- all elements up to the bumped key are in front of the last one
  have hupto := (lt_upto_iff (k := c.bump k) hl.sorted hget).not.mpr (not_le.mpr hbump)
  have hmin : min (below c.keys (c.markAfter c.keys.length).key + (c.markAfter c.keys.length).adjust)
      (upto c.keys (c.markAfter c.keys.length).key) = c.keys.length := hland
  rw [hkey] at hmin
  omega

end Reads

/-- **The cursor**: all runs walk the sequence in order exactly when the walk begins well, the counter does not run
    over and the key behind the last element is behind it. -/
theorem right_iff {c : Cursor α} (hl : c.Lawful) : c.Right ↔ c.Fits :=
  ⟨fun hr => ⟨hr.first hl, fun _ _ hk => (hr.marks hl hk).1, fun _ hk => hr.last hl hk⟩,
    fun hf ops => run_eq_walk hl hf ops .start .nil⟩

end Cursor
end Reiser4.Lib
