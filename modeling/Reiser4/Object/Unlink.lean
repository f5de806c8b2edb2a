/-
  What unlinking leaves behind where a step fails.

  The victim is detached first: its ".." goes, and a count of the parent.  Behind that the error path of
  `reiser4_object_unlink` attaches it again, but not where the detaching itself fails half way.

    1. `UnlinkCall.harmless`        when the error path restores what was there;
    2. `reiser4ObjectUnlink_spec`   such a call does all or nothing.
-/
import Reiser4.Object.Link

namespace Reiser4.Object

open Reiser4.Lib

/-! ## Unlinking -/

/-- The outcome of detaching a directory that has a "..". -/
def AttachAnswers.detaching (a : AttachAnswers) : Outcome :=
  if a.lookup.isSome then
    -- The ".." is left alone, and only the count goes down.
    if a.parent.outcome = .clean then .clean else .dirty
  else match a.entry.removing true with
    | .done => if a.parent.outcome = .done then .done else .dirty
    | o => o

/-- The error path attaches the victim again. -/
def UnlinkCall.back (a : UnlinkCall) (isDir : Bool) : Prop :=
  isDir = true → a.attach.attaches = true

/-- The steps behind the detaching of the victim. -/
def UnlinkCall.rest (a : UnlinkCall) (isDir : Bool) : Prop :=
  match a.unlink.outcome with
  | .clean => a.back isDir
  | .dirty => False
  | .done =>
    match a.rem.removing true with
    | .clean => a.link.counts = true ∧ a.back isDir
    | .dirty => False
    | .done => True

/-- Where a step fails, nothing of it stays, and the steps before it get undone. -/
def UnlinkCall.harmless (a : UnlinkCall) (s : Ns) (object : Nat) (name : String) : Prop :=
  s.isDir object = true → a.lookup = none → Ns.spcl name = false → a.victim = none →
    ∀ e ∈ s.entries, e.dir = object → e.name = name →
      if s.isDir e.object then
        match a.detach.detaching with
        | .clean => True
        | .dirty => False
        | .done => a.rest true
      else a.rest false

section Unlink

variable {find : Finset DirEntry → Nat → String → Option DirEntry} {s : Ns}

theorem dec_objs {i : Nat} {o : Obj} (oid : Nat) (h : s.objs i = some o) :
    ∃ o', (s.dec oid).objs i = some o' ∧ o'.isDir = o.isDir ∧ o'.nlink ≤ o.nlink := by
  unfold Ns.dec Ns.count
  dsimp only
  split
  · exact ⟨{ o with nlink := o.nlink - 1 }, by rw [h]; rfl, rfl, Nat.sub_le _ _⟩
  · exact ⟨o, h, rfl, Nat.le_refl _⟩

theorem Ns.link_unlink {e : DirEntry} (h : e ∈ s.entries)
    (hpos : ∀ o, s.objs e.object = some o → 0 < o.nlink) : (s.unlink e).link e = s := by
  have hadd := Ns.add_erase h
  show ((s.dec e.object).inc e.object |>.erase e |>.add e) = s
  rw [Ns.inc_dec hpos, hadd]

theorem detach_ends (h : Exact find s.entries) (a : AttachAnswers) {dir parent : Nat} {c p : Obj}
    (hc : s.objs dir = some c) (hd : c.isDir = true) (hp : s.objs parent = some p)
    (hpos : 0 < p.nlink) (hlt : p.nlink < two32) (hdd : ⟨dir, "..", parent⟩ ∈ s.entries) :
    Ends (reiser4ObjectDetach find a dir parent) s a.detaching (s.unlink ⟨dir, "..", parent⟩) := by
  unfold reiser4ObjectDetach dir40Detach AttachAnswers.detaching
  have hcount := obj40Unlink_ends hp hpos hlt a.parent
  have hrem := dir40RemEntry_ends h a.entry hdd
  have hcount' := obj40Unlink_ends (s := s.erase ⟨dir, "..", parent⟩) hp hpos hlt a.parent
  unfold Ends
  rw [objOf_bind hc, hd, if_pos rfl, Run.get_bind, (h dir ".." _).mpr ⟨hdd, rfl, rfl⟩]
  cases hl : a.lookup with
  | some e =>
    by_cases hpar : a.parent.outcome = .clean
    · rw [hpar] at hcount
      rw [if_pos (show (some e).isSome = true from rfl), if_pos hpar]
      exact hcount
    · rw [if_pos (show (some e).isSome = true from rfl), if_neg hpar]
      trivial
  | none =>
    cases hout : a.entry.removing true with
    | dirty => trivial
    | clean =>
      rw [hout] at hrem
      obtain ⟨e, hrun⟩ := hrem
      exact ⟨e, by rw [Run.run_bind, hrun]⟩
    | done =>
      rw [hout] at hrem
      have hrun : (dir40RemEntry find a.entry dir "..").run s =
        some (.ok (), s.erase ⟨dir, "..", parent⟩) := hrem
      dsimp only [Option.isSome]
      by_cases hpar : a.parent.outcome = .done
      · rw [hpar] at hcount'
        rw [if_neg Bool.false_ne_true, if_pos hpar, Run.bind_of_ok hrun]
        exact hcount'
      · rw [if_neg Bool.false_ne_true, if_neg hpar]
        trivial

/-- The error path of an unlink behind a victim that was detached. -/
theorem unlinkErrorAttach_dir (h : Exact find s.entries) {a : UnlinkCall} {object child : Nat}
    (ha : a.attach.attaches = true) {c p : Obj} (hc : s.objs child = some c) (hd : c.isDir = true)
    (hp : s.objs object = some p) (hlt : p.nlink + 1 < two32)
    (hno : s.present child ".." = false) (err : Errno) :
    (unlinkErrorAttach find a object child err).run s =
      some (.error err, s.link ⟨child, "..", object⟩) := by
  unfold AttachAnswers.attaches at ha
  rw [Bool.and_eq_true, beq_iff_eq] at ha
  have hadd := dir40AddEntry_ends h a.attach.entry ⟨child, "..", object⟩
  rw [hno, ha.1] at hadd
  obtain ⟨r, hlink⟩ := obj40Link_counts (s := s.add ⟨child, "..", object⟩) hp hlt ha.2
  have hattach : (reiser4ObjectAttach find a.attach child object).run s =
      some (r, s.link ⟨child, "..", object⟩) := by
    unfold reiser4ObjectAttach dir40Attach
    rw [objOf_bind hc, hd, if_pos rfl, Run.bind_of_ok hadd]
    exact hlink
  unfold unlinkErrorAttach
  rw [Run.bind_of_ok (ignored_run hattach)]
  rfl

theorem unlinkErrorAttach_file {a : UnlinkCall} {object child : Nat} {c : Obj}
    (hc : s.objs child = some c) (hd : c.isDir = false) (err : Errno) :
    (unlinkErrorAttach find a object child err).run s = some (.error err, s) := by
  have hattach : (reiser4ObjectAttach find a.attach child object).run s = some (.ok (), s) := by
    unfold reiser4ObjectAttach
    rw [objOf_bind hc, hd]
    rfl
  unfold unlinkErrorAttach
  rw [Run.bind_of_ok (ignored_run hattach)]
  rfl

/-- The steps of an unlink behind the detaching; `back` is what the error path comes to. -/
theorem unlinkRest_spec (h : Exact find s.entries) {a : UnlinkCall} {e : DirEntry} {isDir : Bool}
    {s0 : Ns} (he : e ∈ s.entries) {o c : Obj} (ho : s.objs e.dir = some o) (hod : o.isDir = true)
    (hc : s.objs e.object = some c) (hpos : 0 < c.nlink) (hlt : c.nlink + 1 < two32)
    (hrest : a.rest isDir)
    (hback : a.back isDir → ∀ err,
      (unlinkErrorAttach find a e.dir e.object err).run s = some (.error err, s0)) :
    let rest : Run Ns Errno Unit := do
      match ← (obj40Unlink a.unlink e.object).attempt with
      | .error err => unlinkErrorAttach find a e.dir e.object err
      | .ok _ =>
        match ← (reiser4ObjectRemEntry find a.rem e.dir e.name).attempt with
        | .ok _ => pure ()
        | .error err => do
          ignored (obj40Link a.link e.object)
          unlinkErrorAttach find a e.dir e.object err
    rest.run s = some (.ok (), s.unlink e) ∨ ∃ err, rest.run s = some (.error err, s0) := by
  intro rest
  have hunlink := obj40Unlink_ends hc hpos (by omega) a.unlink
  unfold UnlinkCall.rest at hrest
  cases hout : a.unlink.outcome with
  | dirty =>
    rw [hout] at hrest
    exact hrest.elim
  | clean =>
    rw [hout] at hunlink hrest
    obtain ⟨err, hrun⟩ := hunlink
    refine .inr ⟨err, ?_⟩
    show Run.run (Run.attempt _ >>= _) s = _
    rw [attempt_bind hrun]
    exact hback hrest err
  | done =>
    rw [hout] at hunlink hrest
    have hrem := dir40RemEntry_ends (s := s.dec e.object) h a.rem he
    obtain ⟨o', ho', hod', -⟩ := dec_objs e.object ho
    have hobj : ∀ r s', (dir40RemEntry find a.rem e.dir e.name).run (s.dec e.object) = some (r, s') →
        (reiser4ObjectRemEntry find a.rem e.dir e.name).run (s.dec e.object) = some (r, s') := by
      intro r s' hrun
      unfold reiser4ObjectRemEntry
      rw [objOf_bind ho', hod'.trans hod]
      exact hrun
    dsimp only at hrest
    cases hrout : a.rem.removing true with
    | dirty =>
      rw [hrout] at hrest
      exact hrest.elim
    | clean =>
      rw [hrout] at hrem hrest
      obtain ⟨err, hrun⟩ := hrem
      obtain ⟨c', hc', -, hle⟩ := dec_objs e.object hc
      obtain ⟨r, hlink⟩ := obj40Link_counts hc' (by omega) hrest.1
      rw [Ns.inc_dec (fun o ho => by rw [hc] at ho; cases ho; exact hpos)] at hlink
      refine .inr ⟨err, ?_⟩
      show Run.run (Run.attempt _ >>= _) s = _
      rw [attempt_bind hunlink]
      dsimp only
      rw [attempt_bind (hobj _ _ hrun)]
      dsimp only
      rw [Run.bind_of_ok (ignored_run hlink)]
      exact hback hrest.2 err
    | done =>
      rw [hrout] at hrem
      refine .inl ?_
      show Run.run (Run.attempt _ >>= _) s = _
      rw [attempt_bind hunlink]
      dsimp only
      rw [attempt_bind (hobj _ _ hrem)]
      rfl

theorem unlink_file {bare : Nat → Nat} {a : UnlinkCall} {e : DirEntry} (hexact : Exact find s.entries)
    (h : Consistent bare s) (hsmall : s.Small) (he : e ∈ s.entries) {o c : Obj}
    (ho : s.objs e.dir = some o) (hod : o.isDir = true) (hc : s.objs e.object = some c)
    (hd : c.isDir = false) (hspcl : Ns.spcl e.name = false) (hcall : a.rest false) :
    (∃ s', (unlinkVictim find a e.dir e).run s = some (.ok (), s') ∧ Consistent bare s') ∨
      ∃ err, (unlinkVictim find a e.dir e).run s = some (.error err, s) := by
  have hdetach : (reiser4ObjectDetach find a.detach e.object e.dir).run s = some (.ok (), s) := by
    unfold reiser4ObjectDetach
    rw [objOf_bind hc, hd]
    rfl
  unfold unlinkVictim
  rw [Run.bind_of_ok hdetach]
  have hless := hsmall _ c hc
  rcases unlinkRest_spec hexact he ho hod hc (h.accounted.pos he hc) (by omega) hcall
    (fun _ => unlinkErrorAttach_file hc hd) with hrun | hrun
  · exact .inl ⟨_, hrun, h.unlink he (h.shape.erase_name hspcl)⟩
  · exact .inr hrun

theorem unlink_dir {bare : Nat → Nat} {a : UnlinkCall} {e : DirEntry}
    (hfind : SearchesRight find s ∅) (h : Consistent bare s) (hsmall : s.Small) (he : e ∈ s.entries)
    {o c : Obj} (ho : s.objs e.dir = some o) (hod : o.isDir = true) (hc : s.objs e.object = some c)
    (hd : c.isDir = true) (hspcl : Ns.spcl e.name = false)
    (hcall : match a.detach.detaching with
      | .clean => True
      | .dirty => False
      | .done => a.rest true) :
    (∃ s', (unlinkVictim find a e.dir e).run s = some (.ok (), s') ∧ Consistent bare s') ∨
      ∃ err, (unlinkVictim find a e.dir e).run s = some (.error err, s) := by
  have hdd : (⟨e.object, "..", e.dir⟩ : DirEntry) ∈ s.entries :=
    h.shape.dotdot e he hspcl ((isDir_of hc).trans hd)
  have hne : e ≠ ⟨e.object, "..", e.dir⟩ := by
    intro heq
    have hname : e.name = ".." := congrArg DirEntry.name heq
    rw [hname] at hspcl
    exact absurd hspcl (by decide)
  have hpos : 0 < o.nlink := h.accounted.pos hdd ho
  have hless := hsmall _ o ho
  have hexact : Exact find s.entries := hfind _ Finset.subset_union_left h.shape.unique
  have hdetach := detach_ends hexact a.detach hc hd ho hpos (by omega) hdd
  unfold unlinkVictim
  cases hout : a.detach.detaching with
  | dirty =>
    rw [hout] at hcall
    exact hcall.elim
  | clean =>
    rw [hout] at hdetach
    obtain ⟨err, hrun⟩ := hdetach
    exact .inr ⟨err, by rw [Run.run_bind, hrun]⟩
  | done =>
    rw [hout] at hdetach hcall
    rw [Run.bind_of_ok (show Run.run _ s = some (.ok (), _) from hdetach)]
    have hsub : (s.unlink ⟨e.object, "..", e.dir⟩).entries ⊆ s.entries ∪ ∅ :=
      (Finset.erase_subset _ _).trans Finset.subset_union_left
    have hexact1 := hfind _ hsub (Shape.unique_subset h.shape.unique (Finset.erase_subset _ _))
    have he1 : e ∈ (s.unlink ⟨e.object, "..", e.dir⟩).entries := Finset.mem_erase.mpr ⟨hne, he⟩
    obtain ⟨o1, ho1, hod1, hole⟩ := dec_objs (s := s.erase ⟨e.object, "..", e.dir⟩) e.dir ho
    obtain ⟨c1, hc1, hcd1, hcle⟩ := dec_objs (s := s.erase ⟨e.object, "..", e.dir⟩) e.dir hc
    have hacc := h.accounted.unlink hdd
    have hclt := hsmall _ c hc
    have hgone : (s.unlink ⟨e.object, "..", e.dir⟩).present e.object ".." = false := by
      unfold Ns.present
      rw [decide_eq_false_iff_not]
      rintro ⟨e', he', hdir, hname⟩
      obtain ⟨hne', hmem⟩ := Finset.mem_erase.mp he'
      exact hne' (h.shape.unique e' hmem _ hdd hdir hname)
    have hback : a.back true → ∀ err, (unlinkErrorAttach find a e.dir e.object err).run
        (s.unlink ⟨e.object, "..", e.dir⟩) = some (.error err, s) := by
      intro ha err
      rw [unlinkErrorAttach_dir hexact1 (ha rfl) hc1 (hcd1.trans hd) ho1 (by omega) hgone err,
        Ns.link_unlink hdd fun o' ho' => by rw [ho] at ho'; cases ho'; exact hpos]
    rcases unlinkRest_spec hexact1 he1 ho1 (hod1.trans hod) hc1 (hacc.pos he1 hc1) (by omega) hcall
      hback with hrun | hrun
    · refine .inl ⟨_, hrun, ?_⟩
      -- Without the name the directory needs its ".." no more.
      have hshape : Shape s.isDir ((s.entries.erase e).erase ⟨e.object, "..", e.dir⟩) := by
        refine (h.shape.erase_name hspcl).erase_dotdot fun e' he' hplain hobj => ?_
        obtain ⟨hne', hmem⟩ := Finset.mem_erase.mp he'
        exact hne' (h.shape.single e' hmem e he hplain hspcl hobj
          (by rw [hobj, isDir_of hc, hd]))
      refine ⟨hacc.unlink he1, ?_, ?_, h.bare_fresh, ?_⟩
      · have hisDir : ((s.unlink ⟨e.object, "..", e.dir⟩).unlink e).isDir = s.isDir :=
          funext fun i => by rw [Ns.unlink_isDir, Ns.unlink_isDir]
        show Shape ((s.unlink ⟨e.object, "..", e.dir⟩).unlink e).isDir
          ((s.entries.erase ⟨e.object, "..", e.dir⟩).erase e)
        rw [hisDir, Finset.erase_right_comm]
        exact hshape
      · exact fun oid hle => Consistent.count_none (s := (s.unlink _).erase e) (f := (· - 1))
          (Consistent.count_none (s := s.erase _) (f := (· - 1)) (h.fresh oid hle))
      · exact fun e' he' => h.below e' (Finset.mem_of_mem_erase (Finset.mem_of_mem_erase he'))
    · exact .inr hrun

/-- A harmless unlink does all or nothing. -/
theorem reiser4ObjectUnlink_spec {bare : Nat → Nat} {a : UnlinkCall} {object : Nat} {name : String}
    (h : Consistent bare s) (hsmall : s.Small) (hfind : SearchesRight find s ∅) {o : Obj}
    (ho : s.objs object = some o) (hharm : a.harmless s object name) :
    (∃ s', (reiser4ObjectUnlink find a object name).run s = some (.ok (), s') ∧ Consistent bare s') ∨
      ∃ e, (reiser4ObjectUnlink find a object name).run s = some (.error e, s) := by
  have hexact : Exact find s.entries := hfind _ Finset.subset_union_left h.shape.unique
  unfold reiser4ObjectUnlink
  rw [objOf_bind ho, Run.get_bind]
  cases hod : o.isDir with
  | false => exact .inr ⟨.einval, rfl⟩
  | true =>
    cases hl : a.lookup with
    | some e => exact .inr ⟨.einval, rfl⟩
    | none =>
      cases hf : find s.entries object name with
      | none => exact .inr ⟨.einval, rfl⟩
      | some e =>
        obtain ⟨he, rfl, rfl⟩ := (hexact object name e).mp hf
        dsimp only
        cases hspcl : Ns.spcl e.name with
        | true => exact .inr ⟨.einval, rfl⟩
        | false =>
          rw [if_neg Bool.false_ne_true]
          cases hv : a.victim with
          | some err => exact .inr ⟨.einval, rfl⟩
          | none =>
            cases hc : s.objs e.object with
            | none => exact .inr ⟨.einval, rfl⟩
            | some c =>
              dsimp only
              have hcall := hharm ((isDir_of ho).trans hod) hl hspcl hv e he rfl rfl
              rw [isDir_of hc] at hcall
              cases hd : c.isDir with
              | false => exact unlink_file hexact h hsmall he ho hod hc hd hspcl (by rwa [hd] at hcall)
              | true => exact unlink_dir hfind h hsmall he ho hod hc hd hspcl (by rwa [hd] at hcall)

end Unlink

end Reiser4.Object
