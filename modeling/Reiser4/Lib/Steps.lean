/-
  Runs of a partial step function.

  A program is `step : σ → α → Option σ`; `none` is a step whose result is undefined.  Two predicates on
  a run say the same thing from two sides: `Allowed` looks at the states in front of the steps, `Safe` at
  what the steps do.  `safe_iff_allowed` is the induction, once and for all: where they agree on every
  single step, they agree on every run.
-/
import Mathlib.Tactic.Common

namespace Reiser4.Lib.Steps

variable {σ α : Type} (step : σ → α → Option σ)

/-- `P` allows every step of the run, in the state in front of it. -/
def Allowed (P : σ → α → Prop) : σ → List α → Prop
  | _, [] => True
  | s, a :: as => P s a ∧ ∀ s', step s a = some s' → Allowed P s' as

/-- No step of the run is undefined, every step does what `Q` says, and `I` holds in every state. -/
def Safe (I : σ → Prop) (Q : σ → α → σ → Prop) : σ → List α → Prop
  | s, [] => I s
  | s, a :: as => I s ∧ ∃ s', step s a = some s' ∧ Q s a s' ∧ Safe I Q s' as

variable {step} {P : σ → α → Prop} {I : σ → Prop} {Q : σ → α → σ → Prop} {W : α → Prop}

/-- The invariant holds in front of a safe run. -/
theorem Safe.here : ∀ {as : List α} {s : σ}, Safe step I Q s as → I s
  | [], _, h => h
  | _ :: _, _, h => h.1

/-- Runs are safe exactly where every step of them is allowed, if that is so for single steps. -/
theorem safe_iff_allowed (hstep : ∀ s a, I s → W a →
    (P s a ↔ ∃ s', step s a = some s' ∧ Q s a s' ∧ I s')) :
    ∀ {as : List α} {s : σ}, I s → (∀ a ∈ as, W a) → (Safe step I Q s as ↔ Allowed step P s as)
  | [], _, hI, _ => ⟨fun _ => trivial, fun _ => hI⟩
  | a :: as, s, hI, hW => by
    have hone := hstep s a hI (hW a List.mem_cons_self)
    have hrest : ∀ b ∈ as, W b := fun b hb => hW b (List.mem_cons_of_mem a hb)
    constructor
    · rintro ⟨_, s', hs', hQ, hsafe⟩
      have hI' := hsafe.here
      refine ⟨hone.mpr ⟨s', hs', hQ, hI'⟩, fun t ht => ?_⟩
      obtain rfl : s' = t := Option.some.inj (hs'.symm.trans ht)
      exact (safe_iff_allowed hstep hI' hrest).mp hsafe
    · rintro ⟨hP, hall⟩
      obtain ⟨s', hs', hQ, hI'⟩ := hone.mp hP
      exact ⟨hI, s', hs', hQ, (safe_iff_allowed hstep hI' hrest).mpr (hall s' hs')⟩

end Reiser4.Lib.Steps
