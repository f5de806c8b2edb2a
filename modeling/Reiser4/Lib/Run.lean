/-
  Routines with an error code, mutable state and loops that need not end.

  `Run σ ε α` is a routine on the state `σ` that ends with a result `α` or an error `ε`; in both
  cases it leaves a state behind (a C routine that fails half way has changed what it has changed),
  and it may also not end at all, which is `none`.  Loops are written with a fuel argument and run
  dry into `hang`.

  The rules are those of a small Hoare logic:

    1. `bind_of_ok`, `bind_ok`, `error_of_bind`, `forEach_inv`   sequences and loops, run by run;
    2. `Keeps I x`   `x` preserves `I` whether it succeeds or fails: one rule a constructor, so a frame
       condition of a whole routine is the frame conditions of its calls;
    3. `Total I x`   `x` also ends, with a result or an error;
    4. `Closed I P`  `P` is such a property of routines, so a proof that follows the text of a routine
       gives all of them (`keeps_closed`, `total_closed`).
-/
import Mathlib.Tactic.Common

namespace Reiser4.Lib

/-- A routine: `none` when it does not end, else the result or error code and the state left. -/
structure Run (σ ε α : Type) where
  run : σ → Option (Except ε α × σ)

namespace Run

variable {σ ε α β : Type}

/-! ## The constructors -/

def ret (a : α) : Run σ ε α := ⟨fun s => some (.ok a, s)⟩

/-- Return an error code; the state stays as the failing routine left it. -/
def fail (e : ε) : Run σ ε α := ⟨fun s => some (.error e, s)⟩

/-- A run that does not end. -/
def hang : Run σ ε α := ⟨fun _ => none⟩

def bind (x : Run σ ε α) (f : α → Run σ ε β) : Run σ ε β :=
  ⟨fun s =>
    match x.run s with
    | none => none
    | some (.error e, s') => some (.error e, s')
    | some (.ok a, s') => (f a).run s'⟩

/-- Answer any failure of the routine with one error code. -/
def orFail (x : Run σ ε α) (e : ε) : Run σ ε α :=
  ⟨fun s =>
    match x.run s with
    | some (.error _, s') => some (.error e, s')
    | r => r⟩

/-- Hand any failure of the routine to the caller as a value. -/
def attempt (x : Run σ ε α) : Run σ ε (Except ε α) :=
  ⟨fun s => (x.run s).map fun r => (.ok r.1, r.2)⟩

/-- A value that may be undefined; where it is, the routine does not end in any known way. -/
def lift (o : Option α) : Run σ ε α :=
  ⟨fun s => o.map fun a => (.ok a, s)⟩

instance : Monad (Run σ ε) where
  pure := ret
  bind := bind

def get : Run σ ε σ := ⟨fun s => some (.ok s, s)⟩

def modify (f : σ → σ) : Run σ ε Unit := ⟨fun s => some (.ok (), f s)⟩

@[simp] theorem run_pure (a : α) (s : σ) : (pure a : Run σ ε α).run s = some (.ok a, s) := rfl
@[simp] theorem run_fail (e : ε) (s : σ) : (fail e : Run σ ε α).run s = some (.error e, s) := rfl
@[simp] theorem run_hang (s : σ) : (hang : Run σ ε α).run s = none := rfl
@[simp] theorem run_get (s : σ) : (get : Run σ ε σ).run s = some (.ok s, s) := rfl
@[simp] theorem run_modify (f : σ → σ) (s : σ) :
    (modify f : Run σ ε Unit).run s = some (.ok (), f s) := rfl

theorem run_bind (x : Run σ ε α) (f : α → Run σ ε β) (s : σ) :
    (x >>= f).run s = match x.run s with
      | none => none
      | some (.error e, s') => some (.error e, s')
      | some (.ok a, s') => (f a).run s' := rfl

/-- The first routine succeeded: go on with its result in the state it left. -/
theorem bind_of_ok {x : Run σ ε α} {f : α → Run σ ε β} {s s' : σ} {a : α}
    (h : x.run s = some (.ok a, s')) : (x >>= f).run s = (f a).run s' := by
  rw [run_bind, h]

theorem run_attempt (x : Run σ ε α) (s : σ) :
    x.attempt.run s = (x.run s).map fun r => (.ok r.1, r.2) := rfl

theorem attempt_of_ok {x : Run σ ε α} {s s' : σ} {a : α} (h : x.run s = some (.ok a, s')) :
    x.attempt.run s = some (.ok (.ok a), s') := by
  rw [run_attempt, h]
  rfl

@[simp] theorem lift_some (a : α) (s : σ) :
    (lift (some a) : Run σ ε α).run s = some (.ok a, s) := rfl

@[simp] theorem lift_none (s : σ) : (lift none : Run σ ε α).run s = none := rfl

theorem orFail_of_ok {x : Run σ ε α} {e : ε} {s s' : σ} {a : α}
    (h : x.run s = some (.ok a, s')) : (x.orFail e).run s = some (.ok a, s') := by
  simp only [orFail, h]

theorem orFail_ok {x : Run σ ε α} {e : ε} {s s' : σ} {a : α} :
    (x.orFail e).run s = some (.ok a, s') ↔ x.run s = some (.ok a, s') := by
  refine ⟨fun h => ?_, orFail_of_ok⟩
  unfold orFail at h
  match hx : x.run s with
  | none => simp [hx] at h
  | some (.error e', s1) => simp [hx] at h
  | some (.ok b, s1) => simpa [hx] using h

/-- A sequence succeeded exactly when both of its parts did. -/
theorem bind_ok {x : Run σ ε α} {f : α → Run σ ε β} {s s'' : σ} {b : β} :
    (x >>= f).run s = some (.ok b, s'') ↔
      ∃ a s', x.run s = some (.ok a, s') ∧ (f a).run s' = some (.ok b, s'') := by
  constructor
  · intro h
    rw [run_bind] at h
    match hx : x.run s with
    | none => simp [hx] at h
    | some (.error e, s') => simp [hx] at h
    | some (.ok a, s') => exact ⟨a, s', rfl, by simpa [hx] using h⟩
  · rintro ⟨a, s', hx, hf⟩
    rw [bind_of_ok hx, hf]

/-- Where the first routine does not succeed, the sequence ends as it ends. -/
theorem error_of_bind {x : Run σ ε α} {f : α → Run σ ε β} {s s' : σ} {r : Except ε β}
    (hno : ∀ a s1, x.run s ≠ some (.ok a, s1)) (h : (x >>= f).run s = some (r, s')) :
    ∃ e, r = .error e ∧ x.run s = some (.error e, s') := by
  rw [run_bind] at h
  match hx : x.run s with
  | none => simp [hx] at h
  | some (.error e, s1) =>
    rw [hx] at h
    cases h
    exact ⟨e, rfl, rfl⟩
  | some (.ok a, s1) => exact absurd hx (hno a s1)

@[simp] theorem get_bind (f : σ → Run σ ε β) (s : σ) : (get >>= f).run s = (f s).run s := rfl

@[simp] theorem modify_bind (g : σ → σ) (f : Unit → Run σ ε β) (s : σ) :
    (modify g >>= f).run s = (f ()).run (g s) := rfl

@[simp] theorem pure_bind (a : α) (f : α → Run σ ε β) (s : σ) :
    (pure a >>= f).run s = (f a).run s := rfl

@[simp] theorem pure_ok {a b : α} {s s' : σ} :
    (pure a : Run σ ε α).run s = some (.ok b, s') ↔ a = b ∧ s = s' := by
  simp [run_pure]

@[simp] theorem fail_ok {e : ε} {b : α} {s s' : σ} :
    ¬ (fail e : Run σ ε α).run s = some (.ok b, s') := by
  simp [run_fail]

@[simp] theorem hang_ok {b : α} {s s' : σ} :
    ¬ (hang : Run σ ε α).run s = some (.ok b, s') := by
  simp [run_hang]

/-- Sequences agree when they agree behind their first part. -/
theorem bind_congr {x : Run σ ε α} {f g : α → Run σ ε β} {s : σ}
    (h : ∀ a s', x.run s = some (.ok a, s') → (f a).run s' = (g a).run s') :
    (x >>= f).run s = (x >>= g).run s := by
  rw [run_bind, run_bind]
  match hx : x.run s with
  | none => rfl
  | some (.error e, s') => rfl
  | some (.ok a, s') => exact h a s' hx

theorem bind_assoc_run {γ : Type} (x : Run σ ε α) (f : α → Run σ ε β) (g : β → Run σ ε γ) (s : σ) :
    ((x >>= f) >>= g).run s = (x >>= fun a => f a >>= g).run s := by
  rw [run_bind, run_bind, run_bind]
  match x.run s with
  | none => rfl
  | some (.error e, s') => rfl
  | some (.ok a, s') => rfl

/-! ## The routine on each element of a list -/

/-- Call the routine for the elements in order, up to the first failure. -/
def forEach {ι : Type} (f : ι → Run σ ε Unit) : List ι → Run σ ε Unit
  | [] => pure ()
  | i :: l => do
    f i
    forEach f l

@[simp] theorem forEach_nil {ι : Type} (f : ι → Run σ ε Unit) (s : σ) :
    (forEach f []).run s = some (.ok (), s) := rfl

theorem forEach_append_bind {ι : Type} (f : ι → Run σ ε Unit) (l l' : List ι)
    (k : Unit → Run σ ε β) (s : σ) :
    (forEach f (l ++ l') >>= k).run s = (forEach f l >>= fun _ => forEach f l' >>= k).run s := by
  induction l generalizing s with
  | nil => rfl
  | cons i l ih =>
    rw [List.cons_append, forEach, forEach, bind_assoc_run, bind_assoc_run]
    exact bind_congr fun _ s' _ => ih s'

theorem forEach_append {ι : Type} (f : ι → Run σ ε Unit) (l l' : List ι) (s : σ) :
    (forEach f (l ++ l')).run s = (forEach f l >>= fun _ => forEach f l').run s := by
  induction l generalizing s with
  | nil => rfl
  | cons i l ih =>
    rw [List.cons_append, forEach, forEach, bind_assoc_run]
    exact bind_congr fun _ s' _ => ih s'

theorem forEach_singleton {ι : Type} (f : ι → Run σ ε Unit) (i : ι) (s : σ) :
    (forEach f [i]).run s = (f i).run s := by
  rw [forEach, run_bind]
  match (f i).run s with
  | none => rfl
  | some (.error e, s') => rfl
  | some (.ok (), s') => rfl

theorem forEach_map {ι κ : Type} (f : κ → Run σ ε Unit) (g : ι → κ) (l : List ι) :
    forEach f (l.map g) = forEach (fun i => f (g i)) l := by
  induction l with
  | nil => rfl
  | cons i l ih => rw [List.map_cons, forEach, forEach, ih]

/-- Step lemma of `forEach`: the invariant may depend on the elements already seen. -/
theorem forEach_inv {ι : Type} {f : ι → Run σ ε Unit} {l : List ι} (I : List ι → σ → Prop)
    (hstep : ∀ seen i rest s, l = seen ++ i :: rest → I seen s →
      ∃ s', (f i).run s = some (.ok (), s') ∧ I (seen ++ [i]) s')
    {s : σ} (h : I [] s) : ∃ s', (forEach f l).run s = some (.ok (), s') ∧ I l s' := by
  have hrest : ∀ (rest seen : List ι) (s : σ), l = seen ++ rest → I seen s →
      ∃ s', (forEach f rest).run s = some (.ok (), s') ∧ I l s' := by
    intro rest
    induction rest with
    | nil =>
      intro seen s hl hI
      rw [List.append_nil] at hl
      exact ⟨s, rfl, by rwa [hl]⟩
    | cons i rest ih =>
      intro seen s hl hI
      obtain ⟨s1, h1, hI1⟩ := hstep seen i rest s hl hI
      obtain ⟨s2, h2, hI2⟩ := ih (seen ++ [i]) s1 (by simp [hl]) hI1
      refine ⟨s2, ?_, hI2⟩
      rw [forEach, bind_of_ok h1, h2]
  exact hrest l [] s rfl h

/-- The same step lemma for a run that is known to have succeeded. -/
theorem forEach_ensures {ι : Type} {f : ι → Run σ ε Unit} {l : List ι} (I : List ι → σ → Prop)
    (hstep : ∀ seen i rest s s', l = seen ++ i :: rest → I seen s →
      (f i).run s = some (.ok (), s') → I (seen ++ [i]) s') {s s' : σ} (h : I [] s)
    (hrun : (forEach f l).run s = some (.ok (), s')) : I l s' := by
  have hrest : ∀ (rest seen : List ι) (s : σ), l = seen ++ rest → I seen s →
      (forEach f rest).run s = some (.ok (), s') → I l s' := by
    intro rest
    induction rest with
    | nil =>
      intro seen s hl hI hr
      rw [List.append_nil] at hl
      cases hr
      rwa [hl]
    | cons i rest ih =>
      intro seen s hl hI hr
      obtain ⟨⟨⟩, s1, h1, h2⟩ := bind_ok.mp hr
      exact ih (seen ++ [i]) s1 (by simp [hl]) (hstep seen i rest s s1 hl hI h1) h2
  exact hrest l [] s rfl h hrun

/-- Did the run end with a result? -/
def succeeds (x : Run σ ε α) (s : σ) : Bool :=
  match x.run s with
  | some (.ok _, _) => true
  | _ => false

theorem succeeds_iff {x : Run σ ε α} {s : σ} :
    x.succeeds s = true ↔ ∃ a s', x.run s = some (.ok a, s') := by
  unfold succeeds
  match hx : x.run s with
  | none => simp
  | some (.error e, s') => simp
  | some (.ok a, s') => simp

/-! ## Invariants that also survive failure -/

/-- `x` preserves `I`, whether it succeeds or fails. -/
def Keeps (I : σ → Prop) (x : Run σ ε α) : Prop :=
  ∀ s r s', I s → x.run s = some (r, s') → I s'

theorem Keeps.bind {I : σ → Prop} {x : Run σ ε α} {f : α → Run σ ε β}
    (hx : Keeps I x) (hf : ∀ a, Keeps I (f a)) : Keeps I (x >>= f) := by
  intro s r s'' hI h
  rw [run_bind] at h
  match h1 : x.run s with
  | none => simp [h1] at h
  | some (.error e, s') =>
    simp only [h1, Option.some.injEq, Prod.mk.injEq] at h
    rw [← h.2]
    exact hx s _ s' hI h1
  | some (.ok a, s') =>
    simp only [h1] at h
    exact hf a s' r s'' (hx s _ s' hI h1) h

/-- The same where the first routine, when it succeeds, leaves a stronger invariant to the rest. -/
theorem Keeps.bind_then {I : σ → Prop} {J : α → σ → Prop} {x : Run σ ε α} {f : α → Run σ ε β}
    (hx : Keeps I x) (hJ : ∀ s a s', I s → x.run s = some (.ok a, s') → J a s')
    (hf : ∀ a, Keeps (J a) (f a)) (hJI : ∀ a s, J a s → I s) : Keeps I (x >>= f) := by
  intro s r s'' hI h
  rw [run_bind] at h
  match h1 : x.run s with
  | none => simp [h1] at h
  | some (.error e, s') =>
    simp only [h1, Option.some.injEq, Prod.mk.injEq] at h
    rw [← h.2]
    exact hx s _ s' hI h1
  | some (.ok a, s') =>
    simp only [h1] at h
    exact hJI a s'' (hf a s' r s'' (hJ s a s' hI h1) h)

/-- The same where something is known of the result of the first routine. -/
theorem Keeps.bind_of {I : σ → Prop} {P : α → Prop} {x : Run σ ε α} {f : α → Run σ ε β}
    (hx : Keeps I x) (hP : ∀ s a s', I s → x.run s = some (.ok a, s') → P a)
    (hf : ∀ a, P a → Keeps I (f a)) : Keeps I (x >>= f) :=
  Keeps.bind_then (J := fun a s => I s ∧ P a) hx
    (fun s a s' hI h => ⟨hx s _ s' hI h, hP s a s' hI h⟩)
    (fun a s r s' hJ h => ⟨hf a hJ.2 s r s' hJ.1 h, hJ.2⟩) fun _ _ hJ => hJ.1

theorem Keeps.ret {I : σ → Prop} (a : α) : Keeps I (pure a : Run σ ε α) := by
  intro s r s' hI e
  rw [run_pure] at e
  cases e
  exact hI

theorem Keeps.fail {I : σ → Prop} (e : ε) : Keeps I (fail e : Run σ ε α) := by
  intro s r s' hI h
  rw [run_fail] at h
  cases h
  exact hI

theorem Keeps.hang {I : σ → Prop} : Keeps I (hang : Run σ ε α) := by
  intro s r s' _ h
  rw [run_hang] at h
  cases h

theorem Keeps.attempt {I : σ → Prop} {x : Run σ ε α} (h : Keeps I x) : Keeps I x.attempt := by
  intro s r s' hI e
  rw [run_attempt] at e
  obtain ⟨⟨r1, s1⟩, h1, h2⟩ := Option.map_eq_some_iff.mp e
  cases h2
  exact h s r1 _ hI h1

theorem Keeps.lift {I : σ → Prop} (o : Option α) : Keeps I (lift o : Run σ ε α) := by
  intro s r s' hI e
  cases o with
  | none => cases e
  | some a =>
    cases e
    exact hI

theorem Keeps.forEach {ι : Type} {I : σ → Prop} {f : ι → Run σ ε Unit} (h : ∀ i, Keeps I (f i)) :
    ∀ l : List ι, Keeps I (forEach f l)
  | [] => Keeps.ret ()
  | i :: l => Keeps.bind (h i) fun _ => Keeps.forEach h l

theorem Keeps.get {I : σ → Prop} : Keeps I (get : Run σ ε σ) := by
  intro s r s' hI e
  rw [run_get] at e
  cases e
  exact hI

theorem Keeps.modify {I : σ → Prop} (f : σ → σ) (h : ∀ s, I s → I (f s)) :
    Keeps I (modify f : Run σ ε Unit) := by
  intro s r s' hI e
  rw [run_modify] at e
  cases e
  exact h s hI

/-! ## Total correctness -/

/-- From a state with `I` the routine ends, with a result or an error, and again in a state with
    `I`. -/
def Total (I : σ → Prop) (x : Run σ ε α) : Prop :=
  ∀ s, I s → ∃ r s', x.run s = some (r, s') ∧ I s'

theorem Total.ret {I : σ → Prop} (a : α) : Total I (pure a : Run σ ε α) :=
  fun s h => ⟨.ok a, s, rfl, h⟩

theorem Total.fail {I : σ → Prop} (e : ε) : Total I (fail e : Run σ ε α) :=
  fun s h => ⟨.error e, s, rfl, h⟩

theorem Total.get {I : σ → Prop} : Total I (get : Run σ ε σ) := fun s h => ⟨.ok s, s, rfl, h⟩

theorem Total.modify {I : σ → Prop} (f : σ → σ) (h : ∀ s, I s → I (f s)) :
    Total I (modify f : Run σ ε Unit) := fun s hI => ⟨.ok (), f s, rfl, h s hI⟩

theorem Total.bind {I : σ → Prop} {x : Run σ ε α} {f : α → Run σ ε β} (hx : Total I x)
    (hf : ∀ a, Total I (f a)) : Total I (x >>= f) := by
  intro s hI
  obtain ⟨r, s1, h1, hI1⟩ := hx s hI
  cases r with
  | error e => exact ⟨.error e, s1, by rw [run_bind, h1], hI1⟩
  | ok a =>
    obtain ⟨r2, s2, h2, hI2⟩ := hf a s1 hI1
    exact ⟨r2, s2, by rw [bind_of_ok h1, h2], hI2⟩

theorem Total.attempt {I : σ → Prop} {x : Run σ ε α} (hx : Total I x) : Total I x.attempt := by
  intro s hI
  obtain ⟨r, s1, h1, hI1⟩ := hx s hI
  exact ⟨.ok r, s1, by rw [run_attempt, h1]; rfl, hI1⟩

/-! ## Properties that follow the text of a routine -/

/-- `P` holds of a routine that is put together from routines with `P`, where all changes of the state
    keep `I`. -/
structure Closed (I : σ → Prop) (P : (α : Type) → Run σ ε α → Prop) : Prop where
  ret : ∀ {α : Type} (a : α), P α (pure a)
  fail : ∀ {α : Type} (e : ε), P α (fail e)
  get : P σ get
  modify : ∀ f : σ → σ, (∀ s, I s → I (f s)) → P Unit (modify f)
  bind : ∀ {α β : Type} {x : Run σ ε α} {f : α → Run σ ε β}, P α x → (∀ a, P β (f a)) → P β (x >>= f)
  attempt : ∀ {α : Type} {x : Run σ ε α}, P α x → P (Except ε α) x.attempt

theorem keeps_closed (I : σ → Prop) : Closed (ε := ε) I fun _ x => Keeps I x :=
  ⟨Keeps.ret, Keeps.fail, Keeps.get, Keeps.modify, Keeps.bind, Keeps.attempt⟩

theorem total_closed (I : σ → Prop) : Closed (ε := ε) I fun _ x => Total I x :=
  ⟨Total.ret, Total.fail, Total.get, Total.modify, Total.bind, Total.attempt⟩

end Run
end Reiser4.Lib
