/-
  Overlaying a list of writes on a store.

  A store is any function `κ → β`.  A log of `(key, value)` pairs is played on it from the oldest
  pair to the newest; what a key holds afterwards is the value of the LAST pair of the log that
  names it, or the old value when none does (`overlay_last`, `overlay_other`).  This is the general
  content of "redo log replay is last-writer-wins".

  Where the values are themselves read from the store while the log is being played, `replayed`
  interleaves the reads; `replayed_eq_overlay` says when this makes no difference: no pair may read
  a key that it or an older pair writes.
-/
import Mathlib.Data.List.Basic

namespace Reiser4.Lib

variable {κ β : Type} [DecidableEq κ]

/-- One write. -/
def put (s : κ → β) (k : κ) (v : β) : κ → β := fun x => if x = k then v else s x

@[simp] theorem put_same (s : κ → β) (k : κ) (v : β) : put s k v k = v := if_pos rfl

theorem put_other (s : κ → β) (k x : κ) (v : β) (h : x ≠ k) : put s k v x = s x := if_neg h

/-- Play the whole log, oldest pair first. -/
def overlay (s : κ → β) : List (κ × β) → κ → β
  | [] => s
  | (k, v) :: log => overlay (put s k v) log

theorem overlay_append (s : κ → β) (l m : List (κ × β)) :
    overlay s (l ++ m) = overlay (overlay s l) m := by
  induction l generalizing s with
  | nil => rfl
  | cons p l ih => exact ih (put s p.1 p.2)

/-- A key that the log does not name keeps its value. -/
theorem overlay_other (s : κ → β) (log : List (κ × β)) (x : κ) (h : ∀ p ∈ log, p.1 ≠ x) :
    overlay s log x = s x := by
  induction log generalizing s with
  | nil => rfl
  | cons p log ih =>
    have hx : x ≠ p.1 := fun e => h p (by simp) e.symm
    rw [overlay, ih (put s p.1 p.2) (fun q hq => h q (by simp [hq])), put_other s p.1 x p.2 hx]

/-- **Last writer wins**: a key holds the value of the last pair that names it. -/
theorem overlay_last (s : κ → β) (l m : List (κ × β)) (k : κ) (v : β) (h : ∀ p ∈ m, p.1 ≠ k) :
    overlay s (l ++ (k, v) :: m) k = v := by
  rw [overlay_append, overlay, overlay_other _ m k h, put_same]

/-! ## Writes that copy one key to another -/

/-- Play a log of copies `(from, to)`, each one reading the store as it then stands. -/
def replayed (s : κ → β) : List (κ × κ) → κ → β
  | [] => s
  | (w, o) :: log => replayed (put s o (s w)) log

theorem replayed_cons (s : κ → β) (w o : κ) (log : List (κ × κ)) :
    replayed s ((w, o) :: log) = replayed (put s o (s w)) log := rfl

theorem replayed_append (s : κ → β) (l m : List (κ × κ)) :
    replayed s (l ++ m) = replayed (replayed s l) m := by
  induction l generalizing s with
  | nil => rfl
  | cons p l ih => exact ih (put s p.2 (s p.1))

/-- No copy reads a key that an older copy has written. -/
def ReadsFresh (log : List (κ × κ)) : Prop := log.Pairwise (fun p q => q.1 ≠ p.2)

theorem replayed_other (s : κ → β) (log : List (κ × κ)) (x : κ) (h : ∀ p ∈ log, p.2 ≠ x) :
    replayed s log x = s x := by
  induction log generalizing s with
  | nil => rfl
  | cons p log ih =>
    have hx : x ≠ p.2 := fun e => h p (by simp) e.symm
    rw [replayed, ih _ (fun q hq => h q (by simp [hq])), put_other _ _ _ _ hx]

/-- When every read is fresh, the values may be taken from the store the log starts on. -/
theorem replayed_eq_overlay (s : κ → β) (log : List (κ × κ)) (h : ReadsFresh log) :
    replayed s log = overlay s (log.map (fun p => (p.2, s p.1))) := by
  induction log generalizing s with
  | nil => rfl
  | cons p log ih =>
    obtain ⟨hp, hlog⟩ := List.pairwise_cons.mp h
    have hmap : log.map (fun q => (q.2, put s p.2 (s p.1) q.1)) = log.map (fun q => (q.2, s q.1)) := by
      refine List.map_congr_left ?_
      intro q hq
      rw [put_other s p.2 q.1 _ (hp q hq)]
    rw [replayed, ih (put s p.2 (s p.1)) hlog, hmap]
    rfl

/-- **Last copy wins**: when every read is fresh, a key holds what the source of the last copy to
    it held at the start. -/
theorem replayed_last (s : κ → β) (l m : List (κ × κ)) (w o : κ)
    (hf : ReadsFresh (l ++ (w, o) :: m)) (h : ∀ p ∈ m, p.2 ≠ o) :
    replayed s (l ++ (w, o) :: m) o = s w := by
  rw [replayed_eq_overlay s _ hf, List.map_append, List.map_cons]
  refine overlay_last s _ _ o (s w) ?_
  intro p hp
  obtain ⟨q, hq, rfl⟩ := List.mem_map.mp hp
  exact h q hq

end Reiser4.Lib
