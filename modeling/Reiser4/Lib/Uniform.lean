/-
  Routines that do the same from all states with an invariant.

  `Uniform I x` says that `x` keeps `I` and that, when it succeeds from one state with `I`, it succeeds
  from every other one too, with the same result: so neither depends on what `I` leaves open.

  `Guided I P` says that `P` is a property of routines that is proved along their text, where what a
  routine reads may be known from `I`.  Both `Keeps I` and `Uniform I` are, so one walk through a
  routine gives a frame condition for a variant of it that fails and uniformity for it itself.
-/
import Reiser4.Lib.Run

namespace Reiser4.Lib.Run

variable {σ ε : Type}

/-- From all states with `I` the routine succeeds alike, and it keeps `I`. -/
def Uniform (I : σ → Prop) {α : Type} (x : Run σ ε α) : Prop :=
  Keeps I x ∧ ∀ s t a s', I s → I t → x.run s = some (.ok a, s') →
    ∃ t', x.run t = some (.ok a, t')

/-- `P` is proved along the text of a routine; what is read is known from `I`. -/
structure Guided (I : σ → Prop) (P : (α : Type) → Run σ ε α → Prop) : Prop where
  ret : ∀ {α : Type} (a : α), P α (pure a)
  fail : ∀ {α : Type} (e : ε), P α (fail e)
  hang : ∀ {α : Type}, P α hang
  bind : ∀ {α β : Type} {x : Run σ ε α} {f : α → Run σ ε β}, P α x → (∀ a, P β (f a)) →
    P β (x >>= f)
  /-- The result of the first part is known. -/
  bind_known : ∀ {α β : Type} {x : Run σ ε α} {f : α → Run σ ε β} (a : α), P α x →
    (∀ s b s', I s → x.run s = some (.ok b, s') → b = a) → P β (f a) → P β (x >>= f)
  /-- What the rest takes from the state is known. -/
  get_known : ∀ {β : Type} {f : σ → Run σ ε β} {x : Run σ ε β}, (∀ s, I s → f s = x) → P β x →
    P β (get >>= f)

theorem keeps_guided (I : σ → Prop) : Guided (ε := ε) I fun _ x => Keeps I x where
  ret := Keeps.ret
  fail := Keeps.fail
  hang := Keeps.hang
  bind := Keeps.bind
  bind_known := by
    intro α β x f a hx hknown hf
    refine Keeps.bind_of (P := fun b => b = a) hx hknown ?_
    rintro _ rfl
    exact hf
  get_known := by
    intro β f x hknown hx s r s' hI h
    rw [get_bind, hknown s hI] at h
    exact hx s r s' hI h

theorem uniform_guided (I : σ → Prop) : Guided (ε := ε) I fun _ x => Uniform I x where
  ret a := ⟨Keeps.ret a, fun s t b s' _ _ h => by
    cases h
    exact ⟨t, rfl⟩⟩
  fail e := ⟨Keeps.fail e, fun s t a s' _ _ h => by cases h⟩
  hang := ⟨Keeps.hang, fun s t a s' _ _ h => by cases h⟩
  bind := by
    intro α β x f hx hf
    refine ⟨Keeps.bind hx.1 fun a => (hf a).1, fun s t b s' hs ht h => ?_⟩
    obtain ⟨a, s1, h1, h2⟩ := bind_ok.mp h
    obtain ⟨t1, h1'⟩ := hx.2 s t a s1 hs ht h1
    obtain ⟨t2, h2'⟩ := (hf a).2 s1 t1 b s' (hx.1 s _ s1 hs h1) (hx.1 t _ t1 ht h1') h2
    exact ⟨t2, bind_ok.mpr ⟨a, t1, h1', h2'⟩⟩
  bind_known := by
    intro α β x f a hx hknown hf
    refine ⟨(keeps_guided I).bind_known a hx.1 hknown hf.1, fun s t b s' hs ht h => ?_⟩
    obtain ⟨a', s1, h1, h2⟩ := bind_ok.mp h
    obtain rfl := hknown s a' s1 hs h1
    obtain ⟨t1, h1'⟩ := hx.2 s t a' s1 hs ht h1
    obtain ⟨t2, h2'⟩ := hf.2 s1 t1 b s' (hx.1 s _ s1 hs h1) (hx.1 t _ t1 ht h1') h2
    exact ⟨t2, bind_ok.mpr ⟨a', t1, h1', h2'⟩⟩
  get_known := by
    intro β f x hknown hx
    refine ⟨(keeps_guided I).get_known hknown hx.1, fun s t b s' hs ht h => ?_⟩
    rw [get_bind, hknown s hs] at h
    obtain ⟨t', h'⟩ := hx.2 s t b s' hs ht h
    exact ⟨t', by rw [get_bind, hknown t ht, h']⟩

end Reiser4.Lib.Run
