/-
  A sorted list of counters.

  `add` walks the list for a key: an element of the same key is bumped, in front of the first element with a larger
  key a new one is put in, and behind the last one otherwise.  The list then has one element for each key that was
  added, and that element the number of times.

    1. `mem_add`, `add_ascending`  one key;
    2. `tallied_foldl`             a list of keys, from the empty list;
    3. `foldl_add_append`          keys behind all the elements of a list leave it alone.
-/
import Mathlib.Tactic.Common

namespace Reiser4.Lib

/-- Elements that carry a key and count it. -/
structure Counter (α β : Type) where
  key : β → α
  times : β → Nat
  /-- The element of a key that was seen once. -/
  one : α → β
  /-- The same element, seen once more. -/
  more : β → β
  key_one : ∀ a, key (one a) = a
  times_one : ∀ a, times (one a) = 1
  key_more : ∀ b, key (more b) = key b
  times_more : ∀ b, times (more b) = times b + 1

namespace Counter

variable {α β : Type} (c : Counter α β) (cmp : α → α → Ordering)

def add (a : α) : List β → List β
  | [] => [c.one a]
  | b :: l =>
    match cmp (c.key b) a with
    | .lt => b :: add a l
    | .eq => c.more b :: l
    | .gt => c.one a :: b :: l

/-- The keys increase. -/
def Ascending (l : List β) : Prop := l.Pairwise fun b b' => cmp (c.key b) (c.key b') = .lt

/-- The list counts these keys. -/
structure Tallied (as : List α) (l : List β) : Prop where
  ascending : c.Ascending cmp l
  key_mem : ∀ b ∈ l, c.key b ∈ as
  complete : ∀ a ∈ as, ∃ b ∈ l, cmp (c.key b) a = .eq
  times : ∀ b ∈ l, c.times b = as.countP fun a => cmp (c.key b) a == .eq

variable {c cmp}

/-- Two elements with equal keys are one. -/
theorem Ascending.unique [Std.OrientedCmp cmp] {l : List β} (h : c.Ascending cmp l) {b b' : β} (hb : b ∈ l)
    (hb' : b' ∈ l) (heq : cmp (c.key b) (c.key b') = .eq) : b = b' := by
  by_contra hne
  rcases List.pairwise_iff_getElem.mp h with hlt
  obtain ⟨i, hi, rfl⟩ := List.getElem_of_mem hb
  obtain ⟨j, hj, rfl⟩ := List.getElem_of_mem hb'
  rcases Nat.lt_trichotomy i j with hij | rfl | hij
  · have := hlt i j hi hj hij
    rw [heq] at this
    cases this
  · exact hne rfl
  · have := hlt j i hj hi hij
    rw [Std.OrientedCmp.eq_comm.mp heq] at this
    cases this

variable [Std.TransCmp cmp]

theorem mem_add {a : α} : ∀ {l : List β}, c.Ascending cmp l → ∀ b', b' ∈ c.add cmp a l ↔
    (b' ∈ l ∧ cmp (c.key b') a ≠ .eq) ∨ (∃ b ∈ l, cmp (c.key b) a = .eq ∧ b' = c.more b) ∨
      ((∀ b ∈ l, cmp (c.key b) a ≠ .eq) ∧ b' = c.one a)
  | [], _, b' => by simp [add]
  | b :: l, h, b' => by
    obtain ⟨hhead, htail⟩ := List.pairwise_cons.mp h
    rw [add]
    cases hcmp : cmp (c.key b) a with
    | lt =>
      simp only [List.mem_cons, mem_add htail b']
      constructor
      · rintro (rfl | ⟨hmem, hne⟩ | ⟨b1, hb1, heq, rfl⟩ | ⟨hno, rfl⟩)
        · exact Or.inl ⟨Or.inl rfl, by simp [hcmp]⟩
        · exact Or.inl ⟨Or.inr hmem, hne⟩
        · exact Or.inr (Or.inl ⟨b1, Or.inr hb1, heq, rfl⟩)
        · refine Or.inr (Or.inr ⟨?_, rfl⟩)
          rintro b1 (rfl | hb1)
          · simp [hcmp]
          · exact hno b1 hb1
      · rintro (⟨rfl | hmem, hne⟩ | ⟨b1, rfl | hb1, heq, rfl⟩ | ⟨hno, rfl⟩)
        · exact Or.inl rfl
        · exact Or.inr (Or.inl ⟨hmem, hne⟩)
        · rw [hcmp] at heq
          cases heq
        · exact Or.inr (Or.inr (Or.inl ⟨b1, hb1, heq, rfl⟩))
        · exact Or.inr (Or.inr (Or.inr ⟨fun b1 hb1 => hno b1 (Or.inr hb1), rfl⟩))
    | eq =>
      -- The elements behind it are larger.
      have hrest : ∀ b1 ∈ l, cmp (c.key b1) a ≠ .eq := by
        intro b1 hb1 heq
        have hlt := hhead b1 hb1
        rw [Std.TransCmp.congr_left hcmp, Std.OrientedCmp.eq_comm.mp heq] at hlt
        cases hlt
      simp only [List.mem_cons]
      constructor
      · rintro (rfl | hmem)
        · exact Or.inr (Or.inl ⟨b, Or.inl rfl, hcmp, rfl⟩)
        · exact Or.inl ⟨Or.inr hmem, hrest b' hmem⟩
      · rintro (⟨rfl | hmem, hne⟩ | ⟨b1, rfl | hb1, heq, rfl⟩ | ⟨hno, rfl⟩)
        · exact absurd hcmp hne
        · exact Or.inr hmem
        · exact Or.inl rfl
        · exact absurd heq (hrest b1 hb1)
        · exact absurd hcmp (hno b (Or.inl rfl))
    | gt =>
      have hall : ∀ b1 ∈ b :: l, cmp (c.key b1) a ≠ .eq := by
        intro b1 hb1 heq
        rcases List.mem_cons.mp hb1 with rfl | hb1
        · rw [hcmp] at heq
          cases heq
        · have hlt := hhead b1 hb1
          rw [Std.TransCmp.congr_right heq, hcmp] at hlt
          cases hlt
      rw [List.mem_cons]
      constructor
      · rintro (rfl | hmem)
        · exact Or.inr (Or.inr ⟨hall, rfl⟩)
        · exact Or.inl ⟨hmem, hall b' hmem⟩
      · rintro (⟨hmem, -⟩ | ⟨b1, hb1, heq, -⟩ | ⟨-, rfl⟩)
        · exact Or.inr hmem
        · exact absurd heq (hall b1 hb1)
        · exact Or.inl rfl

theorem add_ascending {a : α} : ∀ {l : List β}, c.Ascending cmp l → c.Ascending cmp (c.add cmp a l)
  | [], _ => List.pairwise_singleton _ _
  | b :: l, h => by
    obtain ⟨hhead, htail⟩ := List.pairwise_cons.mp h
    rw [add]
    cases hcmp : cmp (c.key b) a with
    | lt =>
      refine List.pairwise_cons.mpr ⟨fun b' hb' => ?_, add_ascending htail⟩
      rcases (mem_add htail b').mp hb' with ⟨hmem, -⟩ | ⟨b1, hb1, -, rfl⟩ | ⟨-, rfl⟩
      · exact hhead b' hmem
      · rw [c.key_more]
        exact hhead b1 hb1
      · rw [c.key_one]
        exact hcmp
    | eq =>
      refine List.pairwise_cons.mpr ⟨fun b' hb' => ?_, htail⟩
      rw [c.key_more]
      exact hhead b' hb'
    | gt =>
      refine List.pairwise_cons.mpr ⟨fun b' hb' => ?_, h⟩
      have hlt : cmp a (c.key b) = .lt := Std.OrientedCmp.gt_iff_lt.mp hcmp
      rw [c.key_one]
      rcases List.mem_cons.mp hb' with rfl | hb'
      · exact hlt
      · exact Std.TransCmp.lt_trans hlt (hhead b' hb')

/-- One more key is counted. -/
theorem Tallied.add {as : List α} {l : List β} (h : c.Tallied cmp as l) (a : α) :
    c.Tallied cmp (as ++ [a]) (c.add cmp a l) := by
  have hmem := @mem_add _ _ c cmp _ a l h.ascending
  have hcount : ∀ b, (as ++ [a]).countP (fun a' => cmp (c.key b) a' == .eq) =
      as.countP (fun a' => cmp (c.key b) a' == .eq) + if cmp (c.key b) a = .eq then 1 else 0 := by
    intro b
    simp [List.countP_append, List.countP_singleton]
  refine ⟨add_ascending h.ascending, fun b' hb' => ?_, fun a' ha' => ?_, fun b' hb' => ?_⟩
  · rcases (hmem b').mp hb' with ⟨hl, -⟩ | ⟨b, hb, -, rfl⟩ | ⟨-, rfl⟩
    · exact List.mem_append_left _ (h.key_mem b' hl)
    · rw [c.key_more]
      exact List.mem_append_left _ (h.key_mem b hb)
    · rw [c.key_one]
      exact List.mem_append_right _ (List.mem_singleton_self a)
  · rcases List.mem_append.mp ha' with hold | hnew
    · obtain ⟨b, hb, heq⟩ := h.complete a' hold
      by_cases hba : cmp (c.key b) a = .eq
      · refine ⟨c.more b, (hmem _).mpr (Or.inr (Or.inl ⟨b, hb, hba, rfl⟩)), ?_⟩
        rw [c.key_more]
        exact heq
      · exact ⟨b, (hmem _).mpr (Or.inl ⟨hb, hba⟩), heq⟩
    · obtain rfl := List.mem_singleton.mp hnew
      by_cases hin : ∃ b ∈ l, cmp (c.key b) a' = .eq
      · obtain ⟨b, hb, hba⟩ := hin
        refine ⟨c.more b, (hmem _).mpr (Or.inr (Or.inl ⟨b, hb, hba, rfl⟩)), ?_⟩
        rw [c.key_more]
        exact hba
      · refine ⟨c.one a', (hmem _).mpr (Or.inr (Or.inr ⟨fun b hb heq => hin ⟨b, hb, heq⟩, rfl⟩)), ?_⟩
        rw [c.key_one]
        exact Std.ReflCmp.compare_self
  · rw [hcount]
    rcases (hmem b').mp hb' with ⟨hl, hne⟩ | ⟨b, hb, heq, rfl⟩ | ⟨hno, rfl⟩
    · rw [if_neg hne]
      exact h.times b' hl
    · rw [c.key_more, c.times_more, if_pos heq, h.times b hb]
    · rw [c.key_one, c.times_one, if_pos Std.ReflCmp.compare_self]
      -- None of the keys before was this one: it would have its element.
      have hzero : as.countP (fun a' => cmp a a' == .eq) = 0 := by
        refine List.countP_eq_zero.mpr fun a' ha' heq => ?_
        obtain ⟨b, hb, hba⟩ := h.complete a' ha'
        refine hno b hb ?_
        rw [Std.TransCmp.congr_left hba]
        exact Std.OrientedCmp.eq_comm.mp (by simpa using heq)
      rw [hzero]

theorem Tallied.foldl {as : List α} : ∀ {as' : List α} {l : List β}, c.Tallied cmp as l →
    c.Tallied cmp (as ++ as') (as'.foldl (fun l a => c.add cmp a l) l)
  | [], l, h => by
    rw [List.append_nil]
    exact h
  | a :: as', l, h => by
    rw [List.append_cons]
    exact (h.add a).foldl

/-- **Each key is counted**, in one element. -/
theorem tallied_foldl (as : List α) : c.Tallied cmp as (as.foldl (fun l a => c.add cmp a l) []) := by
  have hnil : c.Tallied cmp [] [] := by
    constructor
    · exact List.Pairwise.nil
    · exact nofun
    · exact nofun
    · exact nofun
  exact hnil.foldl

omit [Std.TransCmp cmp] in
theorem foldl_add_append {base : List β} : ∀ {as : List α} {l : List β},
    (∀ a ∈ as, ∀ b ∈ base, cmp (c.key b) a = .lt) →
    as.foldl (fun l a => c.add cmp a l) (base ++ l) = base ++ as.foldl (fun l a => c.add cmp a l) l
  | [], _, _ => rfl
  | a :: as, l, h => by
    have hadd : ∀ base' : List β, (∀ b ∈ base', cmp (c.key b) a = .lt) →
        c.add cmp a (base' ++ l) = base' ++ c.add cmp a l := by
      intro base' hlt
      induction base' with
      | nil => rfl
      | cons b base' ih =>
        rw [List.cons_append, add, hlt b (List.mem_cons_self ..)]
        exact congrArg (b :: ·) (ih fun b1 hb1 => hlt b1 (List.mem_cons_of_mem _ hb1))
    rw [List.foldl_cons, List.foldl_cons, hadd base (h a (List.mem_cons_self ..))]
    exact foldl_add_append fun a' ha' => h a' (List.mem_cons_of_mem _ ha')

end Counter

end Reiser4.Lib
