/-
  Runs of creations, links and unlinks from a fresh root directory.

    1. `reiser4ObjCreate_spec`   a creation;
    2. `step_consistent`, `runs_consistent`   one harmless call, a run of them;
    3. `namespace_accounting`    the link counts of a run, and what a failing call leaves;
    4. `LinkCall.fine_harmless` and others   where the tree does not fail, every call is harmless.
-/
import Reiser4.Object.Unlink

namespace Reiser4.Object

open Reiser4.Lib

/-! ## Creation -/

/-- The entries that a creation may add. -/
def createNews (s : Ns) (parent : Nat) (name : String) : Finset DirEntry :=
  {s.dot, ⟨parent, name, s.next⟩, ⟨s.next, "..", parent⟩}

/-- No stat data is left of a failed creation without its ".", and the link is harmless. -/
def CreateCall.harmless (a : CreateCall) (s : Ns) (parent : Nat) (isDir : Bool) (name : String) :
    Prop :=
  s.isDir parent = true → a.inherit = none → (isDir = true → a.body = .done) →
    match a.stat with
    | .done => a.link.harmless (s.created isDir) parent s.next (some name)
    | .refused _ => True
    | .late _ => isDir = true → a.cleanup.made = false

namespace Consistent

variable {bare : Nat → Nat} {s : Ns}

/-- An id is used up. -/
theorem skip (h : Consistent bare s) : Consistent bare s.skip :=
  ⟨h.accounted, h.shape, fun oid hle => h.fresh oid (Nat.le_of_succ_le hle),
    fun oid hle => h.bare_fresh oid (Nat.le_of_succ_le hle), fun e he => by
      have hlt := h.below e he
      show e.dir < s.next + 1 ∧ e.object < s.next + 1
      omega⟩

/-- No entry names an id that is still free, or is in its directory. -/
theorem names_next (h : Consistent bare s) : s.names s.next = 0 := by
  unfold Ns.names
  rw [Finset.card_eq_zero, Finset.filter_eq_empty_iff]
  intro e he heq
  have hlt := (h.below e he).2
  omega

theorem dot_notMem (h : Consistent bare s) : s.dot ∉ s.entries :=
  fun hmem => Nat.lt_irrefl _ (h.below _ hmem).2

/-- A "." whose directory has no stat data. -/
theorem stray (h : Consistent bare s) : Consistent bare (s.skip.add s.dot) := by
  refine ⟨?_, ?_, h.skip.fresh, h.skip.bare_fresh, ?_⟩
  · intro oid o ho
    have hlt : oid < s.next := h.lt_next ho
    have hne : s.dot.object ≠ oid := fun heq => Nat.lt_irrefl s.next (by rwa [← heq] at hlt)
    rw [Ns.names_add (s := s.skip) h.dot_notMem oid, if_neg hne]
    exact h.accounted oid o ho
  · refine h.shape.insert_spcl (fun e' he' hdir => ?_) spcl_dot
    have hlt := (h.below e' he').1
    rw [hdir] at hlt
    exact absurd hlt (Nat.lt_irrefl _)
  · intro e he
    rcases Finset.mem_insert.mp he with rfl | hmem
    · exact ⟨Nat.lt_succ_self _, Nat.lt_succ_self _⟩
    · exact h.skip.below e hmem

/-- A stat data is written for an object that has at most its ".". -/
theorem setObj_new (h : Consistent bare s) {oid : Nat} (hlt : oid < s.next) {o : Obj}
    (ho : o.nlink = s.names oid + bare oid)
    (hplain : ∀ e ∈ s.entries, Ns.spcl e.name = false → e.object ≠ oid) :
    Consistent bare (s.setObj oid (some o)) := by
  have hisDir : ∀ i, i ≠ oid → (s.setObj oid (some o)).isDir i = s.isDir i := by
    intro i hne
    unfold Ns.isDir Ns.setObj
    dsimp only
    rw [if_neg hne]
  refine ⟨?_, ⟨h.shape.unique, ?_, ?_⟩, ?_, h.bare_fresh, h.below⟩
  · intro i o' ho'
    unfold Ns.setObj at ho'
    dsimp only at ho'
    split at ho'
    · next heq =>
      cases ho'
      rw [heq]
      exact ho
    · exact h.accounted i o' ho'
  · intro e he hp hd
    rw [hisDir _ (hplain e he hp)] at hd
    exact h.shape.dotdot e he hp hd
  · intro e1 h1 e2 h2 p1 p2 hobj hd
    rw [hisDir _ (hplain e1 h1 p1)] at hd
    exact h.shape.single e1 h1 e2 h2 p1 p2 hobj hd
  · intro i hle
    have hne : i ≠ oid := fun heq => Nat.lt_irrefl oid (Nat.lt_of_lt_of_le hlt (heq ▸ hle))
    show (if i = oid then _ else s.objs i) = none
    rw [if_neg hne]
    exact h.fresh i hle

/-- A stat data is removed. -/
theorem setObj_none (h : Consistent bare s) (oid : Nat) : Consistent bare (s.setObj oid none) := by
  have hobjs : ∀ i o, (s.setObj oid none).objs i = some o → s.objs i = some o := by
    intro i o hi
    unfold Ns.setObj at hi
    dsimp only at hi
    split at hi
    · cases hi
    · exact hi
  have hisDir : ∀ i, (s.setObj oid none).isDir i = true → s.isDir i = true := by
    intro i hd
    unfold Ns.isDir at hd ⊢
    obtain ⟨o, ho, hdir⟩ := (Option.any_eq_true _ _).mp hd
    exact (Option.any_eq_true _ _).mpr ⟨o, hobjs i o ho, hdir⟩
  refine ⟨fun i o ho => h.accounted i o (hobjs i o ho), ⟨h.shape.unique, ?_, ?_⟩, ?_, h.bare_fresh,
    h.below⟩
  · exact fun e he hp hd => h.shape.dotdot e he hp (hisDir _ hd)
  · exact fun e1 h1 e2 h2 p1 p2 hobj hd => h.shape.single e1 h1 e2 h2 p1 p2 hobj (hisDir _ hd)
  · intro i hle
    show (if i = oid then _ else s.objs i) = none
    split
    · rfl
    · exact h.fresh i hle

/-- An object is created. -/
theorem created (h : Consistent bare s) (isDir : Bool) : Consistent bare (s.created isDir) := by
  have hfree : ∀ e ∈ s.entries, e.object ≠ s.next :=
    fun e he heq => Nat.lt_irrefl s.next (heq ▸ (h.below e he).2)
  unfold Ns.created
  cases isDir with
  | false =>
    refine h.skip.setObj_new (Nat.lt_succ_self _) ?_ fun e he _ => hfree e he
    show 0 = s.names s.next + bare s.next
    rw [h.names_next, h.bare_fresh _ (Nat.le_refl _)]
  | true =>
    refine h.stray.setObj_new (Nat.lt_succ_self _) ?_ ?_
    · rw [Ns.names_add (s := s.skip) h.dot_notMem, h.bare_fresh _ (Nat.le_refl _)]
      show 1 = s.names s.next + (if s.next = s.next then 1 else 0) + 0
      rw [h.names_next, if_pos rfl]
    · intro e he hp
      rcases Finset.mem_insert.mp he with rfl | hmem
      · exact absurd (show Ns.spcl "." = false from hp) (by decide)
      · exact hfree e hmem

end Consistent

section Create

variable {find : Finset DirEntry → Nat → String → Option DirEntry} {s : Ns} {bare : Nat → Nat}

/-- The "." of a failed creation is taken back, or not. -/
theorem cleanup_spec (h : Consistent bare s) (a : CreateCall) :
    ∃ s', (ignored (treeChange a.cleanup (·.erase s.dot))).run (s.skip.add s.dot) =
      some (.ok (), s') ∧ Consistent bare s' := by
  have hskip : Consistent bare ((s.skip.add s.dot).erase s.dot) := by
    rw [Ns.erase_add (s := s.skip) h.dot_notMem]
    exact h.skip
  cases a.cleanup with
  | done => exact ⟨_, rfl, hskip⟩
  | refused e => exact ⟨_, rfl, h.stray⟩
  | late e => exact ⟨_, rfl, hskip⟩

theorem reiser4ObjectCreate_spec (h : Consistent bare s) {a : CreateCall} {isDir : Bool}
    (hlate : ∀ e, a.stat = .late e → isDir = true → a.body = .done → a.cleanup.made = false) :
    ((reiser4ObjectCreate a isDir).run s = some (.ok s.next, s.created isDir) ∧ a.stat = .done ∧
      (isDir = true → a.body = .done)) ∨
    ∃ e s', (reiser4ObjectCreate a isDir).run s = some (.error e, s') ∧ Consistent bare s' := by
  unfold reiser4ObjectCreate
  rw [Run.get_bind, Run.modify_bind]
  cases isDir with
  | false =>
    have hnew := h.created false
    cases hs : a.stat with
    | done => exact .inl ⟨rfl, rfl, fun hno => by cases hno⟩
    | refused e => exact .inr ⟨e, _, rfl, h.skip⟩
    | late e => exact .inr ⟨e, _, rfl, hnew⟩
  | true =>
    have hnew := h.created true
    rw [if_pos rfl]
    cases hb : a.body with
    | refused e => exact .inr ⟨e, _, rfl, h.skip⟩
    | late e => exact .inr ⟨e, _, rfl, h.stray⟩
    | done =>
      rw [Run.bind_of_ok (show (treeChange .done _).run s.skip = some (.ok (), s.skip.add s.dot)
        from rfl)]
      cases hs : a.stat with
      | done => exact .inl ⟨rfl, rfl, fun _ => rfl⟩
      | refused e =>
        obtain ⟨s', hrun, hs'⟩ := cleanup_spec h a
        refine .inr ⟨e, s', ?_, hs'⟩
        rw [attempt_bind (show (treeChange (.refused e) _).run _ = some (.error e, s.skip.add s.dot)
          from rfl)]
        dsimp only
        rw [Run.bind_of_ok hrun]
        rfl
      | late e =>
        refine .inr ⟨e, s.created true, ?_, hnew⟩
        have hrun : (treeChange (.late e) (·.setObj s.next (some ⟨true, 1⟩))).run
            (s.skip.add s.dot) = some (.error e, s.created true) := rfl
        rw [attempt_bind hrun]
        have hcleanup := hlate e hs rfl hb
        cases hc : a.cleanup with
        | done => rw [hc] at hcleanup; cases hcleanup
        | refused e' => rfl
        | late e' => rw [hc] at hcleanup; cases hcleanup

/-- The clobber of an object whose link failed: a directory is refused, having one link. -/
theorem clobber_spec {s1 : Ns} (h : Consistent bare s1) (a : CreateCall) {oid : Nat} {o : Obj}
    (ho : s1.objs oid = some o) (hdir : o.isDir = true → o.nlink = 1) :
    ∃ s', (ignored (reiser4ObjectClobber a oid)).run s1 = some (.ok (), s') ∧ Consistent bare s' := by
  have hrun : ∃ r s', (reiser4ObjectClobber a oid).run s1 = some (r, s') ∧ Consistent bare s' := by
    unfold reiser4ObjectClobber
    rw [objOf_bind ho]
    cases hd : o.isDir with
    | true =>
      rw [if_pos rfl]
      have hne : gotNlink a.clobberGet o.nlink ≠ 2 := by
        rw [hdir hd]
        cases a.clobberGet with
        | none => decide
        | some e => cases e <;> decide
      rw [if_pos hne]
      exact ⟨_, _, rfl, h⟩
    | false =>
      rw [if_neg Bool.false_ne_true]
      cases hb : a.clobberBody with
      | refused e => exact ⟨_, _, rfl, h⟩
      | late e => exact ⟨_, _, rfl, h⟩
      | done =>
        cases hs : a.clobberStat with
        | done => exact ⟨_, _, rfl, h.setObj_none oid⟩
        | refused e => exact ⟨_, _, rfl, h⟩
        | late e => exact ⟨_, _, rfl, h.setObj_none oid⟩
  obtain ⟨r, s', hrun, hs'⟩ := hrun
  exact ⟨s', ignored_run hrun, hs'⟩

theorem created_objs_old (h : Consistent bare s) (isDir : Bool) {oid : Nat} {o : Obj}
    (ho : s.objs oid = some o) : (s.created isDir).objs oid = some o := by
  have hne : oid ≠ s.next := Nat.ne_of_lt (h.lt_next ho)
  unfold Ns.created
  cases isDir
  · show (if oid = s.next then _ else s.objs oid) = _
    rw [if_neg hne, ho]
  · show (if oid = s.next then _ else s.objs oid) = _
    rw [if_neg hne, ho]

theorem created_objs_new (s : Ns) (isDir : Bool) :
    (s.created isDir).objs s.next = some ⟨isDir, if isDir then 1 else 0⟩ := by
  unfold Ns.created
  cases isDir
  · exact if_pos rfl
  · exact if_pos rfl

theorem created_small (hsmall : s.Small) (isDir : Bool) : (s.created isDir).Small := by
  intro oid o ho
  unfold Ns.created at ho
  cases isDir
  · change (if oid = s.next then _ else s.objs oid) = _ at ho
    split at ho
    · cases ho; decide
    · exact hsmall oid o ho
  · change (if oid = s.next then _ else s.objs oid) = _ at ho
    split at ho
    · cases ho; decide
    · exact hsmall oid o ho

/-- The link of an object that was created. -/
theorem createLink_spec (h : Consistent bare s) (hsmall : s.Small) {a : CreateCall}
    {parent : Nat} {isDir : Bool} {name : String}
    (hfind : SearchesRight find s (createNews s parent name)) {p : Obj}
    (hp : s.objs parent = some p)
    (hharm : a.link.harmless (s.created isDir) parent s.next (some name)) :
    ∃ r s', Run.run (do
      match ← (reiser4ObjectLink find a.link parent s.next (some name)).attempt with
      | .ok _ => pure ()
      | .error e => do
        ignored (reiser4ObjectClobber a s.next)
        Run.fail e : Run Ns Errno Unit) (s.created isDir) = some (r, s') ∧ Consistent bare s' := by
  have hnew := h.created isDir
  have hfind' : SearchesRight find (s.created isDir) (linkNews parent s.next (some name)) := by
    intro es hsub hu
    refine hfind es (hsub.trans ?_) hu
    intro e he
    rcases Finset.mem_union.mp he with he | he
    · unfold Ns.created at he
      cases isDir with
      | false => exact Finset.mem_union_left _ he
      | true =>
        rcases Finset.mem_insert.mp he with rfl | hmem
        · exact Finset.mem_union_right _ (Finset.mem_insert_self _ _)
        · exact Finset.mem_union_left _ hmem
    · exact Finset.mem_union_right _ (Finset.mem_insert_of_mem he)
  have hp' := created_objs_old h isDir hp
  have hc' := created_objs_new s isDir
  rcases reiser4ObjectLink_spec hnew.shape.unique (created_small hsmall isDir) hfind' hp' hc' hharm with
    ⟨hrun, hfresh, hdots⟩ | ⟨e, hrun⟩ | ⟨hno, -⟩
  · refine ⟨_, _, by rw [attempt_bind hrun]; rfl, ?_⟩
    exact hnew.attached hp' hc' (fun n hn => (hfresh n hn).2) hdots
  · obtain ⟨s', hclob, hs'⟩ := clobber_spec hnew a hc' fun hd => by
      simp only at hd
      rw [hd]
      rfl
    refine ⟨.error e, s', ?_, hs'⟩
    rw [attempt_bind hrun]
    dsimp only
    rw [Run.bind_of_ok hclob]
    rfl
  · cases hno

/-- A harmless creation. -/
theorem reiser4ObjCreate_spec (h : Consistent bare s) (hsmall : s.Small) {a : CreateCall}
    {parent : Nat} {isDir : Bool} {name : String}
    (hfind : SearchesRight find s (createNews s parent name)) {p : Obj}
    (hp : s.objs parent = some p) (hharm : a.harmless s parent isDir name) :
    ∃ r s', (reiser4ObjCreate find a parent isDir name).run s = some (r, s') ∧ Consistent bare s' := by
  unfold reiser4ObjCreate
  rw [objOf_bind hp]
  cases hi : a.inherit with
  | some e => exact ⟨_, _, rfl, h⟩
  | none =>
    cases hd : p.isDir with
    | false => exact ⟨_, _, rfl, h⟩
    | true =>
      have hcall := hharm ((isDir_of hp).trans hd) hi
      have hlate : ∀ e, a.stat = .late e → isDir = true → a.body = .done → a.cleanup.made = false := by
        intro e hs hdir hb
        have hlast := hcall fun _ => hb
        rw [hs] at hlast
        exact hlast hdir
      show ∃ r s', Run.run (reiser4ObjectCreate a isDir >>= _) s = _ ∧ _
      rcases reiser4ObjectCreate_spec h hlate with ⟨hrun, hstat, hbody⟩ | ⟨e, s', hrun, hs'⟩
      · have hlink := hcall hbody
        rw [hstat] at hlink
        rw [Run.bind_of_ok hrun]
        exact createLink_spec h hsmall hfind hp hlink
      · exact ⟨_, s', by rw [Run.run_bind, hrun], hs'⟩

end Create

/-! ## Runs -/

/-- A call of the namespace, with what the tree answers to its steps. -/
inductive Call
  | create (a : CreateCall) (parent : Nat) (isDir : Bool) (name : String)
  | link (a : LinkCall) (object child : Nat) (name : Option String)
  | unlink (a : UnlinkCall) (object : Nat) (name : String)

namespace Call

def exec (find : Finset DirEntry → Nat → String → Option DirEntry) : Call → Run Ns Errno Unit
  | create a parent isDir name => reiser4ObjCreate find a parent isDir name
  | link a object child name => reiser4ObjectLink find a object child name
  | unlink a object name => reiser4ObjectUnlink find a object name

/-- The objects the call is handed exist. -/
def opened (s : Ns) : Call → Prop
  | create _ parent _ _ => (s.objs parent).isSome = true
  | link _ object child _ => (s.objs object).isSome = true ∧ (s.objs child).isSome = true
  | unlink _ object _ => (s.objs object).isSome = true

/-- The call is not `reiser4_obj_create`. -/
def rollsBack : Call → Bool
  | create .. => false
  | _ => true

/-- The entries the call may add. -/
def news (s : Ns) : Call → Finset DirEntry
  | create _ parent _ name => createNews s parent name
  | link _ object child name => linkNews object child name
  | unlink .. => ∅

/-- The answers of the tree do no harm. -/
def answersHarmless (s : Ns) : Call → Prop
  | create a parent isDir name => a.harmless s parent isDir name
  | link a object child name => a.harmless s object child name
  | unlink a object name => a.harmless s object name

/-- The call meets the condition: its searches are exact, no link count is near its end, and no step
    fails where nothing undoes it. -/
def harmless (find : Finset DirEntry → Nat → String → Option DirEntry) (s : Ns) (c : Call) : Prop :=
  s.Small ∧ SearchesRight find s (c.news s) ∧ c.answersHarmless s

end Call

/-- Runs of calls that satisfy `P`, with what each returned. -/
inductive Runs (find : Finset DirEntry → Nat → String → Option DirEntry) (P : Ns → Call → Prop) :
    Ns → List (Call × Except Errno Unit) → Ns → Prop
  | nil (s : Ns) : Runs find P s [] s
  | snoc {s0 s s' : Ns} {tr : List (Call × Except Errno Unit)} {c : Call} {r : Except Errno Unit} :
      Runs find P s0 tr s → c.opened s → P s c → (c.exec find).run s = some (r, s') →
      Runs find P s0 (tr ++ [(c, r)]) s'

/-- The successful links of an object without an entry. -/
def bareLinks (tr : List (Call × Except Errno Unit)) (oid : Nat) : Nat :=
  tr.countP fun x =>
    match x with
    | (.link _ _ child none, .ok _) => child == oid
    | _ => false

/-- The root directory as it was created, with only its ".". -/
def freshRoot (root next : Nat) : Ns where
  objs i := if i = root then some ⟨true, 1⟩ else none
  entries := {⟨root, ".", root⟩}
  next := next

theorem freshRoot_consistent {root next : Nat} (h : root < next) :
    Consistent (fun _ => 0) (freshRoot root next) := by
  have hsole : ∀ e ∈ (freshRoot root next).entries, e = ⟨root, ".", root⟩ :=
    fun e he => Finset.mem_singleton.mp he
  have hplain : ∀ e ∈ (freshRoot root next).entries, Ns.spcl e.name ≠ false := by
    intro e he
    rw [hsole e he]
    show Ns.spcl "." ≠ false
    decide
  refine ⟨?_, ⟨?_, ?_, ?_⟩, ?_, fun _ _ => rfl, ?_⟩
  · intro oid o ho
    unfold freshRoot at ho
    dsimp only at ho
    split at ho
    · next heq =>
      cases ho
      unfold Ns.names freshRoot
      rw [Finset.filter_singleton, if_pos (by exact heq.symm)]
      rfl
    · cases ho
  · intro e1 h1 e2 h2 _ _
    rw [hsole e1 h1, hsole e2 h2]
  · exact fun e he hp => absurd hp (hplain e he)
  · exact fun e1 h1 _ _ hp => absurd hp (hplain e1 h1)
  · intro oid hle
    show (if oid = root then _ else none) = none
    have hle : next ≤ oid := hle
    rw [if_neg (by omega)]
  · intro e he
    rw [hsole e he]
    exact ⟨h, h⟩

section Theorem

variable {find : Finset DirEntry → Nat → String → Option DirEntry} {bare : Nat → Nat} {s : Ns}

theorem bareLinks_snoc (tr : List (Call × Except Errno Unit)) (c : Call) (r : Except Errno Unit)
    (oid : Nat) : bareLinks (tr ++ [(c, r)]) oid = bareLinks tr oid + bareLinks [(c, r)] oid := by
  unfold bareLinks
  rw [List.countP_append]

/-- One harmless call. -/
theorem step_consistent (h : Consistent bare s) {c : Call} (hopen : c.opened s)
    (hharm : c.harmless find s) {r : Except Errno Unit} {s' : Ns}
    (hrun : (c.exec find).run s = some (r, s')) :
    Consistent (fun oid => bare oid + bareLinks [(c, r)] oid) s' ∧
      (c.rollsBack = true → ∀ e, r = .error e → s' = s) := by
  obtain ⟨hsmall, hfind, hans⟩ := hharm
  cases c with
  | create a parent isDir name =>
    obtain ⟨p, hp⟩ := Option.isSome_iff_exists.mp hopen
    obtain ⟨r', s1, hrun', hs1⟩ := reiser4ObjCreate_spec h hsmall hfind hp hans
    have heq := hrun'.symm.trans hrun
    cases heq
    exact ⟨hs1, fun hno => by cases hno⟩
  | unlink a object name =>
    obtain ⟨o, ho⟩ := Option.isSome_iff_exists.mp hopen
    rcases reiser4ObjectUnlink_spec h hsmall hfind ho hans with ⟨s1, hrun', hs1⟩ | ⟨e, hrun'⟩
    · have heq := hrun'.symm.trans hrun
      cases heq
      exact ⟨hs1, fun _ e he => by cases he⟩
    · have heq := hrun'.symm.trans hrun
      cases heq
      exact ⟨h, fun _ _ _ => rfl⟩
  | link a object child name =>
    obtain ⟨o, ho⟩ := Option.isSome_iff_exists.mp hopen.1
    obtain ⟨c, hc⟩ := Option.isSome_iff_exists.mp hopen.2
    rcases reiser4ObjectLink_spec h.shape.unique hsmall hfind ho hc hans with
      ⟨hrun', hfresh, hdots⟩ | ⟨e, hrun'⟩ | ⟨-, hrun'⟩
    · have heq := hrun'.symm.trans hrun
      cases heq
      refine ⟨?_, fun _ e he => by cases he⟩
      have hatt := h.attached ho hc (fun n hn => (hfresh n hn).2) hdots
      have hbare : bareLink bare child name =
          fun oid => bare oid + bareLinks [(.link a object child name, .ok ())] oid := by
        funext oid
        cases name with
        | some n => rfl
        | none =>
          show bare oid + (if oid = child then 1 else 0) = _
          unfold bareLinks
          rw [List.countP_singleton]
          by_cases heq : oid = child
          · simp [heq]
          · simp [heq, Ne.symm heq]
      exact hbare ▸ hatt
    · have heq := hrun'.symm.trans hrun
      cases heq
      refine ⟨?_, fun _ _ _ => rfl⟩
      have hbare : bare =
          fun oid => bare oid + bareLinks [(.link a object child name, .error e)] oid := by
        funext oid
        cases name <;> rfl
      exact hbare ▸ h
    · have heq := hrun'.symm.trans hrun
      cases heq

theorem runs_consistent {s0 : Ns} (h0 : Consistent (fun _ => 0) s0)
    {tr : List (Call × Except Errno Unit)} (hrun : Runs find (Call.harmless find) s0 tr s) :
    Consistent (bareLinks tr) s := by
  induction hrun with
  | nil => exact h0
  | @snoc s s' tr c r hprev hopen hharm hstep ih =>
    have hs := (step_consistent ih hopen hharm hstep).1
    have hbare : bareLinks (tr ++ [(c, r)]) = fun oid => bareLinks tr oid + bareLinks [(c, r)] oid :=
      funext fun oid => bareLinks_snoc tr c r oid
    rw [hbare]
    exact hs

/-- **In runs of harmless calls every link count is the number of names**, with the links made without
    an entry, **and a link or an unlink that fails leaves everything as it was**. -/
theorem namespace_accounting {root next : Nat} (hroot : root < next)
    {tr : List (Call × Except Errno Unit)}
    (hrun : Runs find (Call.harmless find) (freshRoot root next) tr s) :
    (∀ oid o, s.objs oid = some o → o.nlink = s.names oid + bareLinks tr oid) ∧
      ∀ c : Call, c.rollsBack = true → c.opened s → c.harmless find s →
        ∀ e s', (c.exec find).run s = some (.error e, s') → s' = s := by
  have hs := runs_consistent (freshRoot_consistent hroot) hrun
  refine ⟨hs.accounted, fun c hback hopen hharm e s' hstep => ?_⟩
  exact (step_consistent hs hopen hharm hstep).2 hback e rfl

end Theorem

/-! ## Where the tree does not fail -/

/-- Every operation of the tree succeeds. -/
def EntryAnswers.fine : EntryAnswers := ⟨none, none, .done, none⟩
def LinkAnswers.fine : LinkAnswers := ⟨none, none, .done⟩
def AttachAnswers.fine : AttachAnswers := ⟨none, .fine, .fine⟩
def LinkCall.fine : LinkCall := ⟨.fine, .fine, .fine, .fine, .fine⟩
def UnlinkCall.fine : UnlinkCall := ⟨none, none, .fine, .fine, .fine, .fine, .fine⟩
def CreateCall.fine : CreateCall := ⟨none, .done, .done, .done, .fine, none, .done, .done⟩

theorem EntryAnswers.fine_adding (p : Bool) :
    EntryAnswers.fine.adding p = if p then .clean else .done := by
  cases p <;> rfl

theorem LinkCall.fine_harmless (s : Ns) (object child : Nat) (name : Option String) :
    LinkCall.fine.harmless s object child name := by
  have hentry : LinkCall.fine.entry s object name = .done ∨
      LinkCall.fine.entry s object name = .clean := by
    cases name with
    | none => exact .inl rfl
    | some n =>
      show (if s.isDir object then EntryAnswers.fine.adding (s.present object n) else .clean) = _ ∨
        (if s.isDir object then EntryAnswers.fine.adding (s.present object n) else .clean) = _
      rw [EntryAnswers.fine_adding]
      cases s.isDir object <;> cases s.present object n <;> simp
  have hattach : ∀ p, AttachAnswers.fine.outcome p = if p then .clean else .done := by
    intro p
    cases p <;> rfl
  unfold LinkCall.harmless
  rcases hentry with hentry | hentry
  · rw [hentry]
    intro _
    rw [show LinkCall.fine.attach = AttachAnswers.fine from rfl, hattach]
    cases (s.named object child name).present child ".."
    · trivial
    · exact ⟨rfl, rfl⟩
  · rw [hentry]
    trivial

theorem UnlinkCall.fine_harmless (s : Ns) (object : Nat) (name : String) :
    UnlinkCall.fine.harmless s object name := by
  intro _ _ _ _ e _ _ _
  split
  · trivial
  · trivial

theorem CreateCall.fine_harmless (s : Ns) (parent : Nat) (isDir : Bool) (name : String) :
    CreateCall.fine.harmless s parent isDir name :=
  fun _ _ _ => LinkCall.fine_harmless _ _ _ _

/-! ## Samples -/

/-- The search of an entry among those of the directory. -/
def findIn (es : Finset DirEntry) (dir : Nat) (name : String) : Option DirEntry :=
  ((List.range (es.sup DirEntry.object + 1)).map fun oid => (⟨dir, name, oid⟩ : DirEntry)).find?
    fun e => decide (e ∈ es)

theorem findIn_exact {es : Finset DirEntry} (h : Unique es) : Exact findIn es := by
  intro d n e
  unfold findIn
  constructor
  · intro hf
    have hmem := List.mem_of_find?_eq_some hf
    obtain ⟨oid, -, rfl⟩ := List.mem_map.mp hmem
    exact ⟨by simpa using List.find?_some hf, rfl, rfl⟩
  · rintro ⟨hmem, rfl, rfl⟩
    have hin : e ∈ (List.range (es.sup DirEntry.object + 1)).map
        fun oid => (⟨e.dir, e.name, oid⟩ : DirEntry) := by
      refine List.mem_map.mpr ⟨e.object, List.mem_range.mpr ?_, rfl⟩
      exact Nat.lt_succ_of_le (Finset.le_sup (f := DirEntry.object) hmem)
    cases hf : ((List.range (es.sup DirEntry.object + 1)).map
        fun oid => (⟨e.dir, e.name, oid⟩ : DirEntry)).find? fun e => decide (e ∈ es) with
    | none =>
      have hno := List.find?_eq_none.mp hf e hin
      simp [hmem] at hno
    | some e' =>
      obtain ⟨oid, -, heq⟩ := List.mem_map.mp (List.mem_of_find?_eq_some hf)
      have hmem' : e' ∈ es := by simpa using List.find?_some hf
      rw [h e' hmem' e hmem (by rw [← heq]) (by rw [← heq])]

/-- A directory "a" is made in the root, object 1. -/
def sampleCreate : Call := .create .fine 1 true "a"

/-- It is unlinked, and the link count of the root cannot be read. -/
def sampleUnlink : Call :=
  .unlink { UnlinkCall.fine with detach := { AttachAnswers.fine with
    parent := { LinkAnswers.fine with read := some .eio } } } 1 "a"

theorem freshRoot_small (root next : Nat) : (freshRoot root next).Small := by
  intro oid o ho
  unfold freshRoot at ho
  dsimp only at ho
  split at ho
  · cases ho
    decide
  · cases ho

/-- A directory in a fresh root. -/
theorem namespace_accounting_directory :
    ∃ s, Runs findIn (Call.harmless findIn) (freshRoot 1 2) [(sampleCreate, .ok ())] s ∧
      ∀ oid o, s.objs oid = some o → o.nlink = s.names oid := by
  obtain ⟨⟨⟩, s, hstep⟩ := Run.succeeds_iff.mp
    (show (sampleCreate.exec findIn).succeeds (freshRoot 1 2) = true by decide)
  have hharm : sampleCreate.harmless findIn (freshRoot 1 2) :=
    ⟨freshRoot_small 1 2, fun es _ hu => findIn_exact hu, CreateCall.fine_harmless _ _ _ _⟩
  have hrun : Runs findIn (Call.harmless findIn) (freshRoot 1 2) [(sampleCreate, .ok ())] s :=
    .snoc (.nil _) rfl hharm hstep
  exact ⟨s, hrun, (namespace_accounting (by decide) hrun).1⟩

/-- The unlink fails, and the ".." of the directory is gone. -/
theorem unlink_loses_dotdot :
    ∃ s s' e, Runs findIn (fun _ _ => True) (freshRoot 1 2) [(sampleCreate, .ok ())] s ∧
      sampleUnlink.opened s ∧ (sampleUnlink.exec findIn).run s = some (.error e, s') ∧
      (⟨2, "..", 1⟩ : DirEntry) ∈ s.entries ∧ (⟨2, "..", 1⟩ : DirEntry) ∉ s'.entries := by
  have hboth : (((do
      sampleCreate.exec findIn
      let s ← Run.get
      let r ← (sampleUnlink.exec findIn).attempt
      let s' ← Run.get
      pure (r.toOption.isNone && (s.objs 1).isSome && decide (⟨2, "..", 1⟩ ∈ s.entries) &&
        !decide (⟨2, "..", 1⟩ ∈ s'.entries)) : Run Ns Errno Bool).run (freshRoot 1 2)).map
        fun x => x.1.toOption) = some (some true) := by
    decide
  obtain ⟨⟨⟩, s, hstep⟩ := Run.succeeds_iff.mp
    (show (sampleCreate.exec findIn).succeeds (freshRoot 1 2) = true by decide)
  rw [Run.bind_of_ok hstep, Run.get_bind] at hboth
  cases hrun : (sampleUnlink.exec findIn).run s with
  | none =>
    rw [Run.run_bind, Run.run_attempt, hrun] at hboth
    cases hboth
  | some x =>
    obtain ⟨r, s'⟩ := x
    rw [attempt_bind hrun, Run.get_bind] at hboth
    simp only [Run.run_pure, Option.map_some, Except.toOption, Option.some.injEq, Bool.and_eq_true,
      Bool.not_eq_true', decide_eq_true_eq, decide_eq_false_iff_not] at hboth
    obtain ⟨⟨⟨hr, hopen⟩, hin⟩, hout⟩ := hboth
    cases r with
    | ok u => cases hr
    | error e => exact ⟨s, s', e, .snoc (.nil _) rfl trivial hstep, hopen, hrun, hin, hout⟩

end Reiser4.Object
