/-
  What linking leaves behind where a step fails.

  An operation of the tree has one of three outcomes for its caller: it is `done`, it fails `clean`, or
  it is `dirty`: it fails with its change made, or changes what it should not.  The error path of
  `reiser4_object_link` undoes the steps before the failing one; nothing undoes the failing step itself.

    1. `Ends`                    an operation ends as its outcome says;
    2. `LinkCall.harmless`       when the error path restores what was there;
    3. `reiser4ObjectLink_spec`  what such a call comes to;
    4. `Consistent.attached`     a successful link keeps the link counts right.
-/
import Reiser4.Object.Namespace

namespace Reiser4.Object

open Reiser4.Lib

inductive Outcome
  | done | clean | dirty
  deriving DecidableEq

/-! ## The outcome of each operation -/

def TreeAnswer.outcome : TreeAnswer → Outcome
  | .done => .done
  | .refused _ => .clean
  | .late _ => .dirty

/-- The change is made, whatever is answered. -/
def TreeAnswer.made : TreeAnswer → Bool
  | .refused _ => false
  | _ => true

namespace EntryAnswers

/-- The change of the entries, then that of the stat data. -/
def changing (a : EntryAnswers) : Outcome :=
  match a.change.outcome with
  | .done => if a.touch.isSome then .dirty else .done
  | o => o

def adding (a : EntryAnswers) (present : Bool) : Outcome :=
  if a.search.isSome || present || a.fetch.isSome then .clean else a.changing

def removing (a : EntryAnswers) (present : Bool) : Outcome :=
  if a.search.isSome || !present then .clean else a.changing

/-- An entry that is there gets removed. -/
def removes (a : EntryAnswers) : Bool := !a.search.isSome && a.change.made

end EntryAnswers

namespace LinkAnswers

def outcome (a : LinkAnswers) : Outcome :=
  if a.read.isSome then .clean
  else match a.write.outcome with
    | .done => if a.get.isSome then .dirty else .done
    | o => o

/-- The link count gets changed as it should. -/
def counts (a : LinkAnswers) : Bool := !a.get.isSome && !a.read.isSome && a.write.made

end LinkAnswers

/-- The directory gets attached. -/
def AttachAnswers.attaches (a : AttachAnswers) : Bool :=
  a.entry.adding false == .done && a.parent.counts

/-! ## Operations by their outcome -/

/-- How a routine ends that has an outcome. -/
def Ends (x : Run Ns Errno Unit) (s : Ns) (o : Outcome) (s' : Ns) : Prop :=
  match o with
  | .done => x.run s = some (.ok (), s')
  | .clean => ∃ e, x.run s = some (.error e, s)
  | .dirty => True

theorem attempt_bind {α β : Type} {x : Run Ns Errno α} {f : Except Errno α → Run Ns Errno β}
    {s s' : Ns} {r : Except Errno α} (h : x.run s = some (r, s')) :
    (x.attempt >>= f).run s = (f r).run s' :=
  Run.bind_of_ok (by rw [Run.run_attempt, h]; rfl)

theorem ignored_run {x : Run Ns Errno Unit} {s s' : Ns} {r : Except Errno Unit}
    (h : x.run s = some (r, s')) : (ignored x).run s = some (.ok (), s') := by
  unfold ignored
  rw [attempt_bind h]
  rfl

theorem treeChange_made {a : TreeAnswer} (h : a.made = true) (f : Ns → Ns) (s : Ns) :
    ∃ r, (treeChange a f).run s = some (r, f s) := by
  cases a with
  | done => exact ⟨_, rfl⟩
  | refused e => cases h
  | late e => exact ⟨_, rfl⟩

section Entries

variable {find : Finset DirEntry → Nat → String → Option DirEntry} {s : Ns}

/-- The change of an entry with that of the stat data behind it. -/
theorem changing_ends (a : EntryAnswers) (f : Ns → Ns) (s : Ns) :
    Ends (treeChange a.change f >>= fun _ => answer a.touch) s a.changing (f s) := by
  unfold EntryAnswers.changing
  cases hc : a.change with
  | done =>
    cases ht : a.touch with
    | none => exact rfl
    | some e => trivial
  | refused e => exact ⟨e, rfl⟩
  | late e => trivial

theorem find_present (h : Exact find s.entries) (dir : Nat) (name : String) :
    (find s.entries dir name).isSome = s.present dir name := by
  unfold Ns.present
  rw [Bool.eq_iff_iff, decide_eq_true_iff, Option.isSome_iff_exists]
  exact exists_congr fun e => h dir name e

theorem dir40AddEntry_ends (h : Exact find s.entries) (a : EntryAnswers) (e : DirEntry) :
    Ends (dir40AddEntry find a e) s (a.adding (s.present e.dir e.name)) (s.add e) := by
  unfold dir40AddEntry EntryAnswers.adding
  rw [← find_present h]
  unfold Ends
  rw [Run.get_bind]
  cases hs : a.search with
  | some err => exact ⟨.einval, rfl⟩
  | none =>
    cases hf : find s.entries e.dir e.name with
    | some e' => exact ⟨.einval, rfl⟩
    | none =>
      cases hfetch : a.fetch with
      | some err => exact ⟨err, rfl⟩
      | none => exact changing_ends a (·.add e) s

theorem dir40RemEntry_ends (h : Exact find s.entries) (a : EntryAnswers) {e : DirEntry}
    (he : e ∈ s.entries) :
    Ends (dir40RemEntry find a e.dir e.name) s (a.removing true) (s.erase e) := by
  unfold dir40RemEntry EntryAnswers.removing Ends
  rw [Run.get_bind, (h e.dir e.name e).mpr ⟨he, rfl, rfl⟩]
  cases hs : a.search with
  | some err => exact ⟨.einval, rfl⟩
  | none => exact changing_ends a (·.erase e) s

theorem dir40RemEntry_removes (h : Exact find s.entries) {a : EntryAnswers} {e : DirEntry}
    (he : e ∈ s.entries) (ha : a.removes = true) :
    ∃ r, (dir40RemEntry find a e.dir e.name).run s = some (r, s.erase e) := by
  unfold EntryAnswers.removes at ha
  unfold dir40RemEntry
  rw [Run.get_bind, (h e.dir e.name e).mpr ⟨he, rfl, rfl⟩]
  cases hs : a.search with
  | some err => simp [hs] at ha
  | none =>
    rw [hs] at ha
    cases hc : a.change with
    | done =>
      cases ht : a.touch with
      | none => exact ⟨_, rfl⟩
      | some err => exact ⟨_, rfl⟩
    | refused err => simp [hc, TreeAnswer.made] at ha
    | late err => exact ⟨_, rfl⟩

end Entries

section Counts

variable {s : Ns}

theorem setObj_count {oid : Nat} {o : Obj} (h : s.objs oid = some o) (f : Nat → Nat) :
    s.setObj oid (some { o with nlink := f o.nlink }) = s.count oid f := by
  unfold Ns.setObj Ns.count
  congr 1
  funext i
  split
  · next heq => rw [heq, h]; rfl
  · rfl

/-- What a change of the link count writes, if nothing goes wrong. -/
theorem obj40IncLink_ends {oid : Nat} {o : Obj} (h : s.objs oid = some o) (a : LinkAnswers)
    (value : Int) (f : Nat → Nat) (hf : ((o.nlink + value) % (two32 : Int)).toNat = f o.nlink) :
    Ends (obj40IncLink a oid value) s a.outcome (s.count oid f) := by
  unfold obj40IncLink LinkAnswers.outcome Ends
  rw [Run.get_bind, h]
  cases hr : a.read with
  | some e => exact ⟨e, rfl⟩
  | none =>
    cases hg : a.get with
    | some e =>
      cases hw : a.write with
      | done => trivial
      | refused err => exact ⟨err, rfl⟩
      | late err => trivial
    | none =>
      rw [← setObj_count h, ← hf]
      cases hw : a.write with
      | done => exact rfl
      | refused err => exact ⟨err, rfl⟩
      | late err => trivial

theorem obj40IncLink_counts {oid : Nat} {o : Obj} (h : s.objs oid = some o) {a : LinkAnswers}
    (ha : a.counts = true) (value : Int) (f : Nat → Nat)
    (hf : ((o.nlink + value) % (two32 : Int)).toNat = f o.nlink) :
    ∃ r, (obj40IncLink a oid value).run s = some (r, s.count oid f) := by
  unfold LinkAnswers.counts at ha
  simp only [Bool.and_eq_true, Bool.not_eq_true', Option.isSome_eq_false_iff,
    Option.isNone_iff_eq_none] at ha
  obtain ⟨⟨hg, hr⟩, hw⟩ := ha
  unfold obj40IncLink
  rw [Run.get_bind, h, hg, hr, ← setObj_count h, ← hf]
  exact treeChange_made hw _ s

theorem inc_value {n : Nat} (h : n + 1 < two32) : (((n : Int) + 1) % (two32 : Int)).toNat = n + 1 := by
  unfold two32 at h ⊢
  omega

theorem dec_value {n : Nat} (hpos : 0 < n) (h : n < two32) :
    (((n : Int) + (-1)) % (two32 : Int)).toNat = n - 1 := by
  unfold two32 at h ⊢
  omega

theorem obj40Link_ends {oid : Nat} {o : Obj} (h : s.objs oid = some o) (hlt : o.nlink + 1 < two32)
    (a : LinkAnswers) : Ends (obj40Link a oid) s a.outcome (s.inc oid) :=
  obj40IncLink_ends h a 1 (· + 1) (inc_value hlt)

theorem obj40Unlink_ends {oid : Nat} {o : Obj} (h : s.objs oid = some o) (hpos : 0 < o.nlink)
    (hlt : o.nlink < two32) (a : LinkAnswers) :
    Ends (obj40Unlink a oid) s a.outcome (s.dec oid) :=
  obj40IncLink_ends h a (-1) (· - 1) (dec_value hpos hlt)

theorem obj40Link_counts {oid : Nat} {o : Obj} (h : s.objs oid = some o) (hlt : o.nlink + 1 < two32)
    {a : LinkAnswers} (ha : a.counts = true) :
    ∃ r, (obj40Link a oid).run s = some (r, s.inc oid) :=
  obj40IncLink_counts h ha 1 (· + 1) (inc_value hlt)

theorem obj40Unlink_counts {oid : Nat} {o : Obj} (h : s.objs oid = some o) (hpos : 0 < o.nlink)
    (hlt : o.nlink < two32) {a : LinkAnswers} (ha : a.counts = true) :
    ∃ r, (obj40Unlink a oid).run s = some (r, s.dec oid) :=
  obj40IncLink_counts h ha (-1) (· - 1) (dec_value hpos hlt)

end Counts

/-! ## Linking -/

namespace Ns

/-- The entry added by a link, if it names one. -/
def named (s : Ns) (object child : Nat) (name : Option String) : Ns :=
  match name with
  | none => s
  | some n => s.add ⟨object, n, child⟩

/-- The parent's side of a link, and the count of the child. -/
def linked (s : Ns) (object child : Nat) (name : Option String) : Ns :=
  (s.named object child name).inc child

/-- No link count comes near the end of its field. -/
def Small (s : Ns) : Prop := ∀ oid o, s.objs oid = some o → o.nlink + 2 < two32

@[simp] theorem named_objs (s : Ns) (object child : Nat) (name : Option String) :
    (s.named object child name).objs = s.objs := by
  cases name <;> rfl

end Ns

/-- The search is exact on what is there and on what the call may add. -/
def SearchesRight (find : Finset DirEntry → Nat → String → Option DirEntry) (s : Ns)
    (new : Finset DirEntry) : Prop :=
  ∀ es ⊆ s.entries ∪ new, Unique es → Exact find es

/-- What becomes of the entry of a link. -/
def LinkCall.entry (a : LinkCall) (s : Ns) (object : Nat) : Option String → Outcome
  | none => .done
  | some n => if s.isDir object then a.add.adding (s.present object n) else .clean

theorem adding_done {a : EntryAnswers} {p : Bool} (h : a.adding p = .done) : p = false := by
  unfold EntryAnswers.adding at h
  by_contra hp
  rw [Bool.not_eq_false] at hp
  rw [hp, Bool.or_true, Bool.true_or] at h
  cases h

/-- The outcome of attaching a directory. -/
def AttachAnswers.outcome (a : AttachAnswers) (present : Bool) : Outcome :=
  match a.entry.adding present with
  | .done => if a.parent.outcome = .done then .done else .dirty
  | o => o

theorem attach_done {a : AttachAnswers} {p : Bool} (h : a.outcome p = .done) : p = false := by
  unfold AttachAnswers.outcome at h
  cases hout : a.entry.adding p with
  | done => exact adding_done hout
  | clean => rw [hout] at h; cases h
  | dirty => rw [hout] at h; cases h

/-- Where a step fails, nothing of it stays, and the steps before it get undone. -/
def LinkCall.harmless (a : LinkCall) (s : Ns) (object child : Nat) (name : Option String) : Prop :=
  match a.entry s object name with
  | .clean => True
  | .dirty => False
  | .done =>
    match a.link.outcome with
    | .clean => a.rem.removes = true
    | .dirty => False
    | .done => s.isDir child = true →
      match a.attach.outcome ((s.named object child name).present child "..") with
      | .clean => a.unlink.counts = true ∧ a.rem.removes = true
      | .dirty => False
      | .done => True

section Link

variable {find : Finset DirEntry → Nat → String → Option DirEntry} {s : Ns}

theorem objOf_bind {oid : Nat} {o : Obj} (h : s.objs oid = some o) {α : Type}
    (f : Obj → Run Ns Errno α) : (objOf oid >>= f).run s = (f o).run s := by
  refine Run.bind_of_ok ?_
  unfold objOf
  rw [Run.get_bind, h]
  rfl

theorem isDir_of {oid : Nat} {o : Obj} (h : s.objs oid = some o) : s.isDir oid = o.isDir := by
  unfold Ns.isDir
  rw [h]
  rfl

/-- The entry of a link. -/
theorem linkEntry_ends (h : Exact find s.entries) (a : LinkCall) {object : Nat} {o : Obj}
    (ho : s.objs object = some o) (child : Nat) (name : Option String) :
    Ends (linkAddEntry find a object child name) s (a.entry s object name)
      (s.named object child name) := by
  cases name with
  | none => exact rfl
  | some n =>
    unfold linkAddEntry LinkCall.entry reiser4ObjectAddEntry
    dsimp only
    rw [isDir_of ho]
    cases hd : o.isDir with
    | false =>
      refine ⟨.einval, ?_⟩
      rw [objOf_bind ho, hd]
      rfl
    | true =>
      have hadd := dir40AddEntry_ends h a.add ⟨object, n, child⟩
      unfold Ends at hadd ⊢
      rw [objOf_bind ho, hd]
      exact hadd

/-- The entry is taken back. -/
theorem linkErrorRemEntry_run (h : Exact find s.entries) {a : LinkCall} (ha : a.rem.removes = true)
    {e : DirEntry} (he : e ∈ s.entries) {o : Obj} (ho : s.objs e.dir = some o)
    (hd : o.isDir = true) (err : Errno) :
    (linkErrorRemEntry find a e.dir (some e.name) err).run s = some (.error err, s.erase e) := by
  unfold linkErrorRemEntry
  obtain ⟨r, hrun⟩ := dir40RemEntry_removes h he ha
  have hrem : (reiser4ObjectRemEntry find a.rem e.dir e.name).run s = some (r, s.erase e) := by
    unfold reiser4ObjectRemEntry
    rw [objOf_bind ho, hd]
    exact hrun
  dsimp only
  rw [Run.bind_of_ok (ignored_run hrem)]
  rfl

theorem not_present {dir : Nat} {name : String} (h : s.present dir name = false) :
    ∀ e ∈ s.entries, e.dir = dir → e.name ≠ name := by
  intro e he hdir hname
  unfold Ns.present at h
  rw [decide_eq_false_iff_not] at h
  exact h ⟨e, he, hdir, hname⟩

/-- The error path of a link, from behind the entry: what was there before is there again. -/
theorem linkError_restores {a : LinkCall} {object child : Nat} {name : Option String}
    (h : Exact find (s.named object child name).entries) (ha : a.rem.removes = true)
    (hentry : a.entry s object name = .done) (hnew : ∀ n, name = some n → s.present object n = false)
    {o : Obj} (ho : s.objs object = some o) (err : Errno) :
    (∃ e, (linkErrorRemEntry find a object name err).run (s.named object child name) =
      some (.error e, s)) ∨
    name = none ∧ (linkErrorRemEntry find a object name err).run (s.named object child name) = none := by
  cases name with
  | none => exact .inr ⟨rfl, rfl⟩
  | some n =>
    have hd : o.isDir = true := by
      rw [← isDir_of ho]
      unfold LinkCall.entry at hentry
      dsimp only at hentry
      by_contra hno
      rw [if_neg hno] at hentry
      cases hentry
    have hnot : (⟨object, n, child⟩ : DirEntry) ∉ s.entries :=
      fun hmem => not_present (hnew n rfl) _ hmem rfl rfl
    have hrun := linkErrorRemEntry_run (s := s.add ⟨object, n, child⟩) h ha
      (Finset.mem_insert_self _ _) ho hd err
    rw [Ns.erase_add hnot] at hrun
    exact .inl ⟨err, hrun⟩

theorem entry_done {a : LinkCall} {object : Nat} {name : Option String}
    (h : a.entry s object name = .done) (n : String) (hn : name = some n) :
    s.isDir object = true ∧ s.present object n = false := by
  subst hn
  unfold LinkCall.entry at h
  dsimp only at h
  split at h
  · next hd =>
    refine ⟨hd, ?_⟩
    unfold EntryAnswers.adding at h
    by_contra hp
    rw [Bool.not_eq_false] at hp
    rw [hp, Bool.or_true, Bool.true_or] at h
    cases h
  · cases h

theorem inc_objs {i : Nat} {o : Obj} (oid : Nat) (h : s.objs i = some o) :
    ∃ o', (s.inc oid).objs i = some o' ∧ o'.isDir = o.isDir ∧ o'.nlink ≤ o.nlink + 1 ∧
      (i = oid → o'.nlink = o.nlink + 1) := by
  unfold Ns.inc Ns.count
  dsimp only
  split
  · exact ⟨{ o with nlink := o.nlink + 1 }, by rw [h]; rfl, rfl, Nat.le_refl _, fun _ => rfl⟩
  · next hne => exact ⟨o, h, rfl, by omega, fun heq => absurd heq hne⟩

theorem attach_ends (h : Exact find s.entries) {a : AttachAnswers} {dir parent : Nat} {c p : Obj}
    (hc : s.objs dir = some c) (hd : c.isDir = true) (hp : s.objs parent = some p)
    (hlt : p.nlink + 1 < two32) :
    Ends (reiser4ObjectAttach find a dir parent) s (a.outcome (s.present dir ".."))
      (s.link ⟨dir, "..", parent⟩) := by
  unfold reiser4ObjectAttach dir40Attach AttachAnswers.outcome
  have hadd := dir40AddEntry_ends h a.entry ⟨dir, "..", parent⟩
  have hlink := obj40Link_ends (s := s.add ⟨dir, "..", parent⟩) hp hlt a.parent
  unfold Ends
  rw [objOf_bind hc, hd, if_pos rfl]
  cases hout : a.entry.adding (s.present dir "..") with
  | dirty => trivial
  | clean =>
    rw [hout] at hadd
    obtain ⟨e, hrun⟩ := hadd
    exact ⟨e, by rw [Run.run_bind, hrun]⟩
  | done =>
    rw [hout] at hadd
    have hrun : (dir40AddEntry find a.entry ⟨dir, "..", parent⟩).run s =
      some (.ok (), s.add ⟨dir, "..", parent⟩) := hadd
    by_cases hpar : a.parent.outcome = .done
    · rw [hpar] at hlink
      rw [if_pos hpar, Run.bind_of_ok hrun]
      exact hlink
    · rw [if_neg hpar]
      trivial

end Link

/-- The namespace behind a successful link. -/
def Ns.attached (s : Ns) (object child : Nat) (name : Option String) : Ns :=
  if s.isDir child then (s.linked object child name).link ⟨child, "..", object⟩
  else s.linked object child name

/-- The entries a link may add. -/
def linkNews (object child : Nat) (name : Option String) : Finset DirEntry :=
  match name with
  | none => {⟨child, "..", object⟩}
  | some n => {⟨object, n, child⟩, ⟨child, "..", object⟩}

/-- A harmless link does all or nothing; or it has no entry, and its error path reads the null
    pointer. -/
theorem reiser4ObjectLink_spec {find : Finset DirEntry → Nat → String → Option DirEntry} {s : Ns}
    {a : LinkCall} {object child : Nat} {name : Option String} (hu : Unique s.entries)
    (hsmall : s.Small) (hfind : SearchesRight find s (linkNews object child name)) {o c : Obj}
    (ho : s.objs object = some o) (hc : s.objs child = some c)
    (hharm : a.harmless s object child name) :
    ((reiser4ObjectLink find a object child name).run s = some (.ok (), s.attached object child name) ∧
      (∀ n, name = some n → s.isDir object = true ∧ s.present object n = false) ∧
      (s.isDir child = true → (s.named object child name).present child ".." = false)) ∨
    (∃ e, (reiser4ObjectLink find a object child name).run s = some (.error e, s)) ∨
    name = none ∧ (reiser4ObjectLink find a object child name).run s = none := by
  have hexact : Exact find s.entries := hfind _ Finset.subset_union_left hu
  have hentry := linkEntry_ends hexact a ho child name
  unfold LinkCall.harmless at hharm
  unfold reiser4ObjectLink
  cases hout : a.entry s object name with
  | dirty =>
    rw [hout] at hharm
    exact hharm.elim
  | clean =>
    rw [hout] at hentry
    obtain ⟨e, hrun⟩ := hentry
    exact .inr (.inl ⟨e, by rw [Run.run_bind, hrun]⟩)
  | done =>
    rw [hout] at hentry hharm
    dsimp only at hharm
    have hrun : Run.run _ s = some (.ok (), s.named object child name) := hentry
    have hfresh := entry_done hout
    have hexact1 : Exact find (s.named object child name).entries := by
      refine hfind _ ?_ ?_
      · cases name with
        | none => exact Finset.subset_union_left
        | some n =>
          exact Finset.insert_subset (Finset.mem_union_right _ (Finset.mem_insert_self _ _))
            Finset.subset_union_left
      · cases hname : name with
        | none => exact hu
        | some n => exact Shape.unique_insert hu (not_present (hfresh n hname).2)
    have hrestore := linkError_restores (a := a) hexact1
    have hc1 : (s.named object child name).objs child = some c := by rw [Ns.named_objs, hc]
    have hlink := obj40Link_ends hc1 (by have := hsmall child c hc; omega) a.link
    rw [Run.bind_of_ok hrun]
    cases hlout : a.link.outcome with
    | dirty =>
      rw [hlout] at hharm
      exact hharm.elim
    | clean =>
      rw [hlout] at hlink hharm
      obtain ⟨e, hrun1⟩ := hlink
      rw [attempt_bind hrun1]
      exact .inr (hrestore hharm hout (fun n hn => (hfresh n hn).2) ho e)
    | done =>
      rw [hlout] at hlink hharm
      rw [attempt_bind hlink]
      dsimp only
      obtain ⟨c', hc', hcdir, hcle, hcinc⟩ := inc_objs child hc1
      rw [isDir_of hc] at hharm ⊢
      cases hd : c.isDir with
      | false =>
        refine .inl ⟨?_, hfresh, fun h => by cases h⟩
        have hskip : (reiser4ObjectAttach find a.attach child object).run
            ((s.named object child name).inc child) =
              some (.ok (), (s.named object child name).inc child) := by
          unfold reiser4ObjectAttach
          rw [objOf_bind hc', hcdir, hd]
          rfl
        rw [attempt_bind hskip]
        unfold Ns.attached Ns.linked
        rw [isDir_of hc, hd]
        rfl
      | true =>
        have ho1 : (s.named object child name).objs object = some o := by rw [Ns.named_objs, ho]
        obtain ⟨o', ho', -, hole, -⟩ := inc_objs child ho1
        have hattach := attach_ends (s := (s.named object child name).inc child) (a := a.attach)
          hexact1 hc' (hcdir.trans hd) ho' (by have := hsmall object o ho; omega)
        have hharm := hharm hd
        change Ends _ _ (a.attach.outcome ((s.named object child name).present child "..")) _ at hattach
        cases haout : a.attach.outcome ((s.named object child name).present child "..") with
        | dirty =>
          rw [haout] at hharm
          exact hharm.elim
        | clean =>
          rw [haout] at hattach hharm
          obtain ⟨e, hrun2⟩ := hattach
          have hless := hsmall child c hc
          have hinc := hcinc rfl
          obtain ⟨r, hback⟩ := obj40Unlink_counts hc' (by omega) (by omega) hharm.1
          rw [Ns.dec_inc] at hback
          rw [attempt_bind hrun2]
          dsimp only
          rw [Run.bind_of_ok (ignored_run hback)]
          exact .inr (hrestore hharm.2 hout (fun n hn => (hfresh n hn).2) ho e)
        | done =>
          rw [haout] at hattach
          refine .inl ⟨?_, hfresh, fun _ => ?_⟩
          · rw [attempt_bind hattach]
            unfold Ns.attached Ns.linked
            rw [isDir_of hc, hd]
            rfl
          · exact attach_done haout

/-- A successful link without an entry counts a name that is not there. -/
def bareLink (bare : Nat → Nat) (child : Nat) : Option String → Nat → Nat
  | none => fun i => bare i + if i = child then 1 else 0
  | some _ => bare

theorem spcl_dotdot : Ns.spcl ".." = true := by decide

theorem spcl_dot : Ns.spcl "." = true := by decide

namespace Consistent

variable {bare : Nat → Nat} {s : Ns}

theorem lt_next (h : Consistent bare s) {oid : Nat} {o : Obj} (ho : s.objs oid = some o) :
    oid < s.next := by
  by_contra hno
  rw [h.fresh oid (Nat.le_of_not_lt hno)] at ho
  cases ho

theorem count_none {oid i : Nat} {f : Nat → Nat} (h : s.objs i = none) :
    (s.count oid f).objs i = none := by
  unfold Ns.count
  dsimp only
  split
  · rw [h]; rfl
  · exact h

/-- A link without an entry. -/
theorem inc_bare (h : Consistent bare s) {child : Nat} {c : Obj} (hc : s.objs child = some c) :
    Consistent (bareLink bare child none) (s.inc child) := by
  have hlt := h.lt_next hc
  refine ⟨?_, ?_, fun oid hle => count_none (h.fresh oid hle), fun oid hle => ?_, h.below⟩
  rotate_left 2
  · show bare oid + (if oid = child then 1 else 0) = 0
    have hle : s.next ≤ oid := hle
    rw [h.bare_fresh oid hle, if_neg (by omega)]
  · intro oid o ho
    obtain ⟨o', ho', -, hn⟩ := Ns.count_objs (s := s) (f := (· + 1)) ho
    have hold := h.accounted oid o' ho'
    show o.nlink = s.names oid + (bare oid + if oid = child then 1 else 0)
    rw [hn]
    split
    · omega
    · omega
  · rw [show (s.inc child).isDir = s.isDir from funext (Ns.inc_isDir s child)]
    exact h.shape

/-- An entry with its count. -/
theorem link (h : Consistent bare s) {e : DirEntry} (hnot : e ∉ s.entries)
    (hshape : Shape s.isDir (insert e s.entries)) (hdir : e.dir < s.next) (hobj : e.object < s.next) :
    Consistent bare (s.link e) := by
  refine ⟨h.accounted.link hnot, ?_, fun oid hle => count_none (h.fresh oid hle), h.bare_fresh, ?_⟩
  · rw [show (s.link e).isDir = s.isDir from funext (Ns.link_isDir s e)]
    exact hshape
  · intro e' he'
    rcases Finset.mem_insert.mp he' with rfl | hmem
    · exact ⟨hdir, hobj⟩
    · exact h.below e' hmem

/-- A removed entry with its count. -/
theorem unlink (h : Consistent bare s) {e : DirEntry} (hmem : e ∈ s.entries)
    (hshape : Shape s.isDir (s.entries.erase e)) : Consistent bare (s.unlink e) := by
  refine ⟨h.accounted.unlink hmem, ?_,
    fun oid hle => count_none (s := s.erase e) (f := (· - 1)) (h.fresh oid hle), h.bare_fresh, ?_⟩
  · rw [show (s.unlink e).isDir = s.isDir from funext (Ns.unlink_isDir s e)]
    exact hshape
  · exact fun e' he' => h.below e' (Finset.mem_of_mem_erase he')

/-- A successful link of an object that is no directory. -/
theorem linked_file (h : Consistent bare s) {object child : Nat} {name : Option String} {o c : Obj}
    (ho : s.objs object = some o) (hc : s.objs child = some c) (hd : s.isDir child = false)
    (hnew : ∀ n, name = some n → s.present object n = false) :
    Consistent (bareLink bare child name) (s.linked object child name) := by
  cases name with
  | none => exact h.inc_bare hc
  | some n =>
    have hfree := not_present (hnew n rfl)
    refine h.link (e := ⟨object, n, child⟩) (fun hmem => hfree _ hmem rfl rfl) ?_ (h.lt_next ho)
      (h.lt_next hc)
    cases hspcl : Ns.spcl n with
    | true => exact h.shape.insert_spcl hfree hspcl
    | false => exact h.shape.insert_name hfree fun hdir => absurd hdir (by rw [hd]; decide)

/-- A successful link of a directory. -/
theorem linked_dir (h : Consistent bare s) {object child : Nat} {name : Option String} {o c : Obj}
    (ho : s.objs object = some o) (hc : s.objs child = some c) (hd : s.isDir child = true)
    (hnew : ∀ n, name = some n → s.present object n = false)
    (hdots : (s.named object child name).present child ".." = false) :
    Consistent (bareLink bare child name)
      ((s.linked object child name).link ⟨child, "..", object⟩) := by
  have hfree := not_present hdots
  cases name with
  | none =>
    refine (h.inc_bare hc).link (e := ⟨child, "..", object⟩) (fun hmem => hfree _ hmem rfl rfl) ?_
      (h.lt_next hc) (h.lt_next ho)
    rw [show (s.inc child).isDir = s.isDir from funext (Ns.inc_isDir s child)]
    exact h.shape.insert_spcl hfree spcl_dotdot
  | some n =>
    have hname := not_present (hnew n rfl)
    -- The shape is that of adding "..", and the name behind it.
    have hdot : ∀ e' ∈ s.entries, e'.dir = child → e'.name ≠ ".." :=
      fun e' he' => hfree e' (Finset.mem_insert_of_mem he')
    have hback : Shape s.isDir (insert ⟨child, "..", object⟩ s.entries) :=
      h.shape.insert_spcl hdot spcl_dotdot
    have hname' : ∀ e' ∈ insert (⟨child, "..", object⟩ : DirEntry) s.entries,
        e'.dir = object → e'.name ≠ n := by
      intro e' he' hdir hn
      rcases Finset.mem_insert.mp he' with rfl | hmem
      · exact hfree ⟨object, n, child⟩ (Finset.mem_insert_self _ _) hdir.symm hn.symm
      · exact hname e' hmem hdir hn
    have hboth : Shape s.isDir
        (insert ⟨object, n, child⟩ (insert ⟨child, "..", object⟩ s.entries)) := by
      cases hspcl : Ns.spcl n with
      | true => exact hback.insert_spcl hname' hspcl
      | false =>
        refine hback.insert_name hname' fun _ => ⟨Finset.mem_insert_self _ _, ?_⟩
        intro e' he' hplain
        rcases Finset.mem_insert.mp he' with rfl | hmem
        · exact absurd (show Ns.spcl ".." = false from hplain) (by decide)
        · exact h.shape.named hd hdot e' hmem hplain
    have hnot : (⟨object, n, child⟩ : DirEntry) ∉ s.entries := fun hmem => hname _ hmem rfl rfl
    have hnot' : (⟨child, "..", object⟩ : DirEntry) ∉ insert ⟨object, n, child⟩ s.entries :=
      fun hmem => hfree _ hmem rfl rfl
    refine ⟨(h.accounted.link hnot).link hnot', ?_, ?_, h.bare_fresh, ?_⟩
    · have hisDir : ((s.link ⟨object, n, child⟩).link ⟨child, "..", object⟩).isDir = s.isDir :=
        funext fun i => by rw [Ns.link_isDir, Ns.link_isDir]
      show Shape ((s.link ⟨object, n, child⟩).link ⟨child, "..", object⟩).isDir
        (insert ⟨child, "..", object⟩ (insert ⟨object, n, child⟩ s.entries))
      rw [hisDir, Finset.insert_comm]
      exact hboth
    · exact fun oid hle => count_none (count_none (h.fresh oid hle))
    · intro e' he'
      rcases Finset.mem_insert.mp he' with rfl | he'
      · exact ⟨h.lt_next hc, h.lt_next ho⟩
      · rcases Finset.mem_insert.mp he' with rfl | he'
        · exact ⟨h.lt_next ho, h.lt_next hc⟩
        · exact h.below e' he'

/-- A successful link. -/
theorem attached (h : Consistent bare s) {object child : Nat} {name : Option String} {o c : Obj}
    (ho : s.objs object = some o) (hc : s.objs child = some c)
    (hnew : ∀ n, name = some n → s.present object n = false)
    (hdots : s.isDir child = true → (s.named object child name).present child ".." = false) :
    Consistent (bareLink bare child name) (s.attached object child name) := by
  unfold Ns.attached
  cases hd : s.isDir child with
  | false => exact h.linked_file ho hc hd hnew
  | true => exact h.linked_dir ho hc hd hnew (hdots hd)

end Consistent

end Reiser4.Object
