/-
  Following links.

  `next a` is the element that `a` links to, if it links to any.  A walk from `a` goes along the links
  until it is at `stop` or at an element without a link.

    1. `walk n a`   the element after `n` links, `none` when the walk has ended before;
    2. `Chain a l`  the walk ends at `stop`, and `l` are the elements before it;
    3. `noRepeat_of_ends`, `walk_none_of_noRepeat`   where only finitely many elements are linked to, a walk
       ends if and only if it meets no element twice.
-/
import Mathlib.Data.Finset.Card
import Mathlib.Order.Interval.Finset.Nat

namespace Reiser4.Lib

variable {α : Type} (next : α → Option α) (stop : α)

/-- The walk from `a` visits `l` and is then at `stop`. -/
def Chain : α → List α → Prop
  | a, [] => a = stop
  | a, b :: l => a ≠ stop ∧ b = a ∧ ∃ c, next a = some c ∧ Chain c l

variable {next stop} in
theorem Chain.unique : ∀ {l l' : List α} {a : α}, Chain next stop a l → Chain next stop a l' → l = l'
  | [], [], _, _, _ => rfl
  | [], _ :: _, _, h, h' => absurd h h'.1
  | _ :: _, [], _, h, h' => absurd h' h.1
  | _ :: l, _ :: l', _, ⟨_, h1, c, h2, h3⟩, ⟨_, h1', c', h2', h3'⟩ => by
    rw [h2, Option.some.injEq] at h2'
    rw [h1, h1', Chain.unique h3 (h2' ▸ h3')]

variable {next stop} in
/-- Away from the stop a chain goes on along the link. -/
theorem Chain.link {l : List α} {a : α} (h : Chain next stop a l) (ha : a ≠ stop) :
    ∃ c l', next a = some c ∧ l = a :: l' ∧ Chain next stop c l' := by
  cases l with
  | nil => exact absurd h ha
  | cons b l =>
    obtain ⟨-, rfl, c, hc, hl⟩ := h
    exact ⟨c, l, hc, rfl, hl⟩

variable {next stop} in
/-- Behind one of its elements a chain goes on along the link. -/
theorem Chain.behind {b : α} {l' : List α} : ∀ {l : List α} {a : α},
    Chain next stop a (l ++ b :: l') → ∃ c, next b = some c ∧ Chain next stop c l'
  | [], _, ⟨_, h1, c, h2, h3⟩ => ⟨c, by rw [h1, h2], h3⟩
  | _ :: _, _, ⟨_, _, _, _, h⟩ => Chain.behind h

variable [DecidableEq α]

/-- The element after `n` links. -/
def walk : Nat → α → Option α
  | 0, a => if a = stop then none else some a
  | n + 1, a => if a = stop then none else (next a).bind (walk n)

/-- The walk meets no element twice. -/
def NoRepeat (a : α) : Prop :=
  ∀ m n b, walk next stop m a = some b → walk next stop n a = some b → m = n

variable {next stop}

@[simp] theorem walk_stop (n : Nat) : walk next stop n stop = none := by
  cases n with
  | zero => exact if_pos rfl
  | succ n => exact if_pos rfl

theorem walk_zero {a : α} (h : a ≠ stop) : walk next stop 0 a = some a := if_neg h

theorem walk_succ {a b : α} (h : a ≠ stop) (hb : next a = some b) (n : Nat) :
    walk next stop (n + 1) a = walk next stop n b := by
  rw [walk, if_neg h, hb]
  rfl

theorem walk_add (m n : Nat) (a : α) :
    walk next stop (m + n) a = (walk next stop m a).bind (walk next stop n) := by
  induction m generalizing a with
  | zero =>
    by_cases h : a = stop
    · rw [h, walk_stop, walk_stop]
      rfl
    · rw [walk_zero h, Nat.zero_add]
      rfl
  | succ m ih =>
    rw [Nat.add_right_comm, walk, walk]
    by_cases h : a = stop
    · rw [if_pos h, if_pos h]
      rfl
    · rw [if_neg h, if_neg h]
      cases next a with
      | none => rfl
      | some b => exact ih b

/-- Once the walk has ended it stays ended. -/
theorem walk_none_of_le {m n : Nat} {a : α} (h : walk next stop m a = none) (hle : m ≤ n) :
    walk next stop n a = none := by
  obtain ⟨k, rfl⟩ := Nat.exists_eq_add_of_le hle
  rw [walk_add, h]
  rfl

theorem walk_isSome_of_le {m n : Nat} {a : α} (h : (walk next stop n a).isSome) (hle : m ≤ n) :
    (walk next stop m a).isSome := by
  by_contra hno
  rw [walk_none_of_le (by simpa using hno) hle] at h
  cases h

/-- From an element that is met twice, the walk goes round for ever. -/
theorem walk_ne_none_of_repeat {m k : Nat} {a b : α} (h : walk next stop m a = some b)
    (hagain : walk next stop (m + (k + 1)) a = some b) : ∀ n, walk next stop n a ≠ none := by
  have hround : walk next stop (k + 1) b = some b := by
    rw [walk_add, h] at hagain
    exact hagain
  have hrounds : ∀ i, walk next stop (i * (k + 1)) b = some b := by
    intro i
    induction i with
    | zero =>
      have hsome : (walk next stop 0 b).isSome := walk_isSome_of_le (by rw [hround]; rfl) (Nat.zero_le _)
      rw [Nat.zero_mul]
      by_cases hb : b = stop
      · rw [hb, walk_stop] at hsome
        cases hsome
      · exact walk_zero hb
    | succ i ih => rw [Nat.add_mul, Nat.one_mul, walk_add, ih, Option.bind_some, hround]
  intro n hn
  have hlater : walk next stop (m + n * (k + 1)) a = some b := by
    rw [walk_add, h]
    exact hrounds n
  have hle : n ≤ m + n * (k + 1) := by
    have := Nat.le_mul_of_pos_right n (show 0 < k + 1 from Nat.succ_pos k)
    omega
  rw [walk_none_of_le hn hle] at hlater
  cases hlater

/-- A walk that ends meets no element twice. -/
theorem noRepeat_of_ends {n : Nat} {a : α} (h : walk next stop n a = none) : NoRepeat next stop a := by
  intro i j b hi hj
  rcases Nat.lt_trichotomy i j with hlt | heq | hlt
  · obtain ⟨k, rfl⟩ := Nat.exists_eq_add_of_lt hlt
    exact absurd h (walk_ne_none_of_repeat hi hj n)
  · exact heq
  · obtain ⟨k, rfl⟩ := Nat.exists_eq_add_of_lt hlt
    exact absurd h (walk_ne_none_of_repeat hj hi n)

/-- Without repetition there are no more links to follow than elements that are linked to. -/
theorem walk_none_of_noRepeat {s : Finset α} (hs : ∀ a b, next a = some b → b ∈ s) {a : α}
    (h : NoRepeat next stop a) : walk next stop (s.card + 1) a = none := by
  by_contra hsome
  have hall : ∀ i ∈ Finset.Icc 1 (s.card + 1), ∃ b, walk next stop i a = some b ∧ b ∈ s := by
    intro i hi
    obtain ⟨h1, h2⟩ := Finset.mem_Icc.mp hi
    obtain ⟨k, rfl⟩ := Nat.exists_eq_add_of_le' h1
    obtain ⟨b, hb⟩ := Option.isSome_iff_exists.mp
      (walk_isSome_of_le (Option.isSome_iff_ne_none.mpr hsome) h2)
    refine ⟨b, hb, ?_⟩
    rw [walk_add] at hb
    obtain ⟨c, -, hc⟩ := Option.bind_eq_some_iff.mp hb
    rw [walk] at hc
    split at hc
    · cases hc
    · obtain ⟨d, hd, hdb⟩ := Option.bind_eq_some_iff.mp hc
      rw [walk] at hdb
      split at hdb
      · cases hdb
      · cases hdb
        exact hs c _ hd
  have : Nonempty α := ⟨a⟩
  choose! f hwalk hmem using hall
  have hcard : s.card < (Finset.Icc 1 (s.card + 1)).card := by
    rw [Nat.card_Icc]
    omega
  obtain ⟨i, hi, j, hj, hne, heq⟩ := Finset.exists_ne_map_eq_of_card_lt_of_maps_to hcard
    (fun i hi => hmem i hi)
  refine hne (h i j (f i) (hwalk i hi) ?_)
  rw [heq]
  exact hwalk j hj

/-! ## Chains -/

/-- The elements of a chain are those of the walk. -/
theorem Chain.walk_eq : ∀ {l : List α} {a : α}, Chain next stop a l →
    ∀ n, walk next stop n a = l[n]?
  | [], _, h, n => by
    rw [show _ = stop from h, walk_stop]
    rfl
  | b :: l, a, ⟨hne, hb, c, hc, hl⟩, n => by
    cases n with
    | zero => rw [walk_zero hne, hb]; rfl
    | succ n =>
      rw [walk_succ hne hc, hl.walk_eq n]
      rfl

theorem Chain.ends {l : List α} {a : α} (h : Chain next stop a l) :
    walk next stop l.length a = none := by
  rw [h.walk_eq]
  exact List.getElem?_eq_none (Nat.le_refl _)

theorem Chain.nodup {l : List α} {a : α} (h : Chain next stop a l) : l.Nodup := by
  rw [List.nodup_iff_getElem?_ne_getElem?]
  intro i j hij hj heq
  have hi : walk next stop i a = l[j]? := (h.walk_eq i).trans heq
  rw [List.getElem?_eq_getElem hj] at hi
  have hj' : walk next stop j a = some l[j] := (h.walk_eq j).trans (List.getElem?_eq_getElem hj)
  exact absurd (noRepeat_of_ends h.ends i j _ hi hj') (by omega)

end Reiser4.Lib
