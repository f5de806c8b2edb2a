/-
  Taking elements out of a list while going over it.

  A loop looks at one position after the other and takes out the element there if it is not to be kept.
  What stands behind a removed element moves up to its position, and the loop goes on with the next one:
  it never looks at the element right behind.

    1. `sweep`                  what such a loop leaves;
    2. `sweep_eq_filter_iff`    when that is what had to be kept.
-/
import Mathlib.Data.List.Chain

namespace Reiser4.Lib

variable {α : Type} (keep : α → Bool)

/-- What is left when the loop does not look at the element behind a removed one. -/
def sweep : List α → List α
  | [] => []
  | [a] => if keep a then [a] else []
  | a :: b :: l => if keep a then a :: sweep (b :: l) else b :: sweep l

variable {keep} {a b : α} {l : List α}

theorem sweep_keep (ha : keep a = true) : sweep keep (a :: l) = a :: sweep keep l := by
  cases l with
  | nil => exact if_pos ha
  | cons b l => exact if_pos ha

theorem sweep_drop (ha : keep a = false) :
    sweep keep (a :: b :: l) = b :: sweep keep l := if_neg (by rw [ha]; exact Bool.false_ne_true)

theorem sweep_last (ha : keep a = false) : sweep keep [a] = [] :=
  if_neg (by rw [ha]; exact Bool.false_ne_true)

/-- In front of an element that is kept there may be anything. -/
theorem chain_keep (hb : keep b = true) :
    List.IsChain (fun x y => keep x = true ∨ keep y = true) (b :: l) ↔
      List.IsChain (fun x y => keep x = true ∨ keep y = true) l := by
  rw [List.isChain_cons]
  constructor
  · exact fun h => h.2
  · exact fun h => ⟨fun _ _ => Or.inl hb, h⟩

/-- **The loop leaves what is to be kept** exactly if no two neighbours are to be removed. -/
theorem sweep_eq_filter_iff : ∀ {l : List α}, sweep keep l = l.filter keep ↔
    List.IsChain (fun x y => keep x = true ∨ keep y = true) l
  | [] => ⟨fun _ => List.IsChain.nil, fun _ => rfl⟩
  | [a] => by
    refine ⟨fun _ => List.IsChain.singleton a, fun _ => ?_⟩
    cases ha : keep a with
    | true => rw [sweep_keep ha, List.filter_cons_of_pos ha]; rfl
    | false => rw [sweep_last ha, List.filter_cons_of_neg (by rw [ha]; exact Bool.false_ne_true)]; rfl
  | a :: b :: l => by
    cases ha : keep a with
    | true =>
      rw [sweep_keep ha, List.filter_cons_of_pos ha, chain_keep ha, ← sweep_eq_filter_iff,
        List.cons.injEq]
      exact ⟨fun h => h.2, fun h => ⟨rfl, h⟩⟩
    | false =>
      rw [sweep_drop ha, List.filter_cons_of_neg (by rw [ha]; exact Bool.false_ne_true)]
      cases hb : keep b with
      | true =>
        rw [List.filter_cons_of_pos hb, List.cons.injEq, sweep_eq_filter_iff, List.isChain_cons,
          chain_keep hb]
        refine ⟨fun h => ⟨fun y hy => Or.inr ?_, h.2⟩, fun h => ⟨rfl, h.2⟩⟩
        obtain rfl : b = y := Option.some.inj hy
        exact hb
      | false =>
        -- the element behind the removed one is still there
        constructor
        · intro h
          have hmem : b ∈ (b :: l).filter keep := h ▸ List.mem_cons_self
          have := List.of_mem_filter hmem
          rw [hb] at this
          exact absurd this Bool.false_ne_true
        · intro h
          have := (List.isChain_cons.mp h).1 b rfl
          rw [ha, hb] at this
          rcases this with h | h <;> exact absurd h Bool.false_ne_true

end Reiser4.Lib
