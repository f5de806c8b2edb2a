/-
  The names of objects (`libreiser4/object.c`, `dir40.c`, `obj40.c`): creation, linking, unlinking.

  One link is an entry in the parent, a link count on the child and, where the child is a directory, an
  entry ".." in it with a link count on the parent.  The steps are done one behind another by three
  plugins, and each of them may fail in the tree below.

  A directory is the set of its entries and an object its kind and link count.  What the tree answers to
  each operation is data of the call: it succeeds, it fails with nothing changed, or it fails with its
  change made.  `dir40_search` is a parameter `find` that picks an entry of the directory.

    1. `reiser4ObjectLink`, `reiser4ObjectUnlink`, `reiser4ObjCreate`   the operations;
    2. `Ns.link`, `Ns.unlink`    an entry added or removed together with its count;
    3. `Consistent`              what holds of a namespace, and that these two keep it.
-/
import Reiser4.Bitmap
import Reiser4.Lib.Run
import Mathlib

namespace Reiser4.Object

open Reiser4.Lib

/-! ## The namespace -/

/-- An object with a stat data. -/
structure Obj where
  /-- The plugin is `dir40`, the only one with entries. -/
  isDir : Bool
  nlink : Nat
  deriving DecidableEq

/-- An entry `name` of the directory `dir`. -/
structure DirEntry where
  dir : Nat
  name : String
  object : Nat
  deriving DecidableEq

/-- The objects by their ids, the entries, and the next id of the oid allocator. -/
structure Ns where
  objs : Nat → Option Obj
  entries : Finset DirEntry
  next : Nat

namespace Ns

def add (s : Ns) (e : DirEntry) : Ns := { s with entries := insert e s.entries }
def erase (s : Ns) (e : DirEntry) : Ns := { s with entries := s.entries.erase e }

/-- The stat data of an object is written. -/
def setObj (s : Ns) (oid : Nat) (o : Option Obj) : Ns :=
  { s with objs := fun i => if i = oid then o else s.objs i }

/-- An id is allocated. -/
def skip (s : Ns) : Ns := { s with next := s.next + 1 }

/-- The "." of the next object. -/
def dot (s : Ns) : DirEntry := ⟨s.next, ".", s.next⟩

/-- The next object, with no name yet; a directory has its ".". -/
def created (s : Ns) (isDir : Bool) : Ns :=
  if isDir then (s.skip.add s.dot).setObj s.next (some ⟨true, 1⟩)
  else s.skip.setObj s.next (some ⟨false, 0⟩)

/-- `entry->type == ET_SPCL`. -/
def spcl (name : String) : Bool := name == "." || name == ".."

end Ns

/-! ## What the tree answers -/

/-- The answer to an operation that changes the tree. -/
inductive TreeAnswer
  | done
  /-- An error, and nothing is changed. -/
  | refused (e : Errno)
  /-- An error, and the change is made. -/
  | late (e : Errno)

/-- The answers to adding or removing an entry. -/
structure EntryAnswers where
  /-- `dir40_search`. -/
  search : Option Errno
  /-- `obj40_valid_item`, `obj40_fetch_item`; only where an entry is added. -/
  fetch : Option Errno
  /-- `obj40_insert`, `obj40_remove`. -/
  change : TreeAnswer
  /-- `obj40_touch`. -/
  touch : Option Errno

/-- The answers to changing a link count. -/
structure LinkAnswers where
  /-- `obj40_get_nlink`. -/
  get : Option Errno
  /-- `obj40_read_ext` of `obj40_set_nlink`. -/
  read : Option Errno
  /-- `obj40_write_ext`. -/
  write : TreeAnswer

/-- The answers to attaching or detaching a directory. -/
structure AttachAnswers where
  /-- `dir40_lookup`; only where it is detached. -/
  lookup : Option Errno
  entry : EntryAnswers
  parent : LinkAnswers

/-- The answers to `reiser4_object_link`. -/
structure LinkCall where
  add : EntryAnswers
  link : LinkAnswers
  attach : AttachAnswers
  /-- Of the error path. -/
  unlink : LinkAnswers
  rem : EntryAnswers

/-- The answers to `reiser4_object_unlink`. -/
structure UnlinkCall where
  lookup : Option Errno
  /-- The lookup of the stat data, `reiser4_object_open`. -/
  victim : Option Errno
  detach : AttachAnswers
  unlink : LinkAnswers
  rem : EntryAnswers
  /-- Of the error path. -/
  link : LinkAnswers
  attach : AttachAnswers

/-- The answers to `reiser4_obj_create`. -/
structure CreateCall where
  inherit : Option Errno
  /-- The "." of a directory. -/
  body : TreeAnswer
  stat : TreeAnswer
  /-- The "." is taken back. -/
  cleanup : TreeAnswer
  link : LinkCall
  /-- Of the clobber in the error path: the link count, the body, the stat data. -/
  clobberGet : Option Errno
  clobberBody : TreeAnswer
  clobberStat : TreeAnswer

/-- The number of an error code. -/
def Errno.code : Errno → Nat
  | .eio => 5
  | .enomem => 12
  | .einval => 22
  | .enospc => 28
  | .estruct => 50

/-- The result of `obj40_get_nlink` in a `uint32_t`: an error code is taken for a link count. -/
def gotNlink (get : Option Errno) (nlink : Nat) : Nat :=
  match get with
  | none => nlink
  | some e => two32 - Errno.code e

/-- An operation that changes nothing here. -/
def answer : Option Errno → Run Ns Errno Unit
  | none => pure ()
  | some e => Run.fail e

def treeChange (a : TreeAnswer) (f : Ns → Ns) : Run Ns Errno Unit :=
  match a with
  | .done => Run.modify f
  | .refused e => Run.fail e
  | .late e => do
    Run.modify f
    Run.fail e

/-- A routine whose result is not looked at. -/
def ignored (x : Run Ns Errno Unit) : Run Ns Errno Unit := do
  let _ ← x.attempt
  pure ()

/-! ## The operations -/

section Model

variable (find : Finset DirEntry → Nat → String → Option DirEntry)

/-- `dir40_add_entry`. -/
def dir40AddEntry (a : EntryAnswers) (e : DirEntry) : Run Ns Errno Unit := do
  let s ← Run.get
  match a.search, find s.entries e.dir e.name with
  | none, none => do
    answer a.fetch
    treeChange a.change (·.add e)
    answer a.touch
  | _, _ => Run.fail .einval

/-- `dir40_rem_entry`. -/
def dir40RemEntry (a : EntryAnswers) (dir : Nat) (name : String) : Run Ns Errno Unit := do
  let s ← Run.get
  match a.search, find s.entries dir name with
  | none, some e => do
    treeChange a.change (·.erase e)
    answer a.touch
  | _, _ => Run.fail .einval

/-- `obj40_inc_link`. -/
def obj40IncLink (a : LinkAnswers) (oid : Nat) (value : Int) : Run Ns Errno Unit := do
  let s ← Run.get
  match s.objs oid with
  | none => Run.hang
  | some o => do
    answer a.read
    treeChange a.write (·.setObj oid (some { o with
      nlink := ((gotNlink a.get o.nlink + value) % (two32 : Int)).toNat }))

/-- `obj40_link`, `obj40_unlink`. -/
def obj40Link (a : LinkAnswers) (oid : Nat) : Run Ns Errno Unit := obj40IncLink a oid 1
def obj40Unlink (a : LinkAnswers) (oid : Nat) : Run Ns Errno Unit := obj40IncLink a oid (-1)

/-- `dir40_attach`. -/
def dir40Attach (a : AttachAnswers) (dir parent : Nat) : Run Ns Errno Unit := do
  dir40AddEntry find a.entry ⟨dir, "..", parent⟩
  obj40Link a.parent parent

/-- `dir40_detach` from a parent. -/
def dir40Detach (a : AttachAnswers) (dir parent : Nat) : Run Ns Errno Unit := do
  let s ← Run.get
  match a.lookup, find s.entries dir ".." with
  | none, some _ => do
    dir40RemEntry find a.entry dir ".."
    obj40Unlink a.parent parent
  | _, _ => obj40Unlink a.parent parent

/-- The opened object; nothing is known of a call on one that does not exist. -/
def objOf (oid : Nat) : Run Ns Errno Obj := do
  let s ← Run.get
  Run.lift (s.objs oid)

/-- `reiser4_object_add_entry`. -/
def reiser4ObjectAddEntry (a : EntryAnswers) (e : DirEntry) : Run Ns Errno Unit := do
  let o ← objOf e.dir
  if o.isDir then dir40AddEntry find a e else Run.fail .einval

/-- `reiser4_object_rem_entry`. -/
def reiser4ObjectRemEntry (a : EntryAnswers) (dir : Nat) (name : String) : Run Ns Errno Unit := do
  let o ← objOf dir
  if o.isDir then dir40RemEntry find a dir name else Run.fail .einval

/-- `reiser4_object_attach`. -/
def reiser4ObjectAttach (a : AttachAnswers) (object parent : Nat) : Run Ns Errno Unit := do
  let o ← objOf object
  if o.isDir then dir40Attach find a object parent else pure ()

/-- `reiser4_object_detach`. -/
def reiser4ObjectDetach (a : AttachAnswers) (object parent : Nat) : Run Ns Errno Unit := do
  let o ← objOf object
  if o.isDir then dir40Detach find a object parent else pure ()

/-- The label `error_rem_entry`; without an entry the null pointer is read. -/
def linkErrorRemEntry (a : LinkCall) (object : Nat) (name : Option String) (e : Errno) :
    Run Ns Errno Unit :=
  match name with
  | none => Run.hang
  | some n => do
    ignored (reiser4ObjectRemEntry find a.rem object n)
    Run.fail e

/-- The entry of a link, if there is one. -/
def linkAddEntry (a : LinkCall) (object child : Nat) : Option String → Run Ns Errno Unit
  | none => pure ()
  | some n => reiser4ObjectAddEntry find a.add ⟨object, n, child⟩

/-- `reiser4_object_link`; `name` is that of the entry, if there is one. -/
def reiser4ObjectLink (a : LinkCall) (object child : Nat) (name : Option String) :
    Run Ns Errno Unit := do
  linkAddEntry find a object child name
  match ← (obj40Link a.link child).attempt with
  | .error e => linkErrorRemEntry find a object name e
  | .ok _ =>
    match ← (reiser4ObjectAttach find a.attach child object).attempt with
    | .ok _ => pure ()
    | .error e => do
      ignored (obj40Unlink a.unlink child)
      linkErrorRemEntry find a object name e

/-- The label `error_attach_child`. -/
def unlinkErrorAttach (a : UnlinkCall) (object child : Nat) (e : Errno) : Run Ns Errno Unit := do
  ignored (reiser4ObjectAttach find a.attach child object)
  Run.fail e

/-- `reiser4_object_unlink` from the opened victim on. -/
def unlinkVictim (a : UnlinkCall) (object : Nat) (e : DirEntry) : Run Ns Errno Unit := do
  reiser4ObjectDetach find a.detach e.object object
  match ← (obj40Unlink a.unlink e.object).attempt with
  | .error err => unlinkErrorAttach find a object e.object err
  | .ok _ =>
    match ← (reiser4ObjectRemEntry find a.rem object e.name).attempt with
    | .ok _ => pure ()
    | .error err => do
      ignored (obj40Link a.link e.object)
      unlinkErrorAttach find a object e.object err

/-- `reiser4_object_unlink`. -/
def reiser4ObjectUnlink (a : UnlinkCall) (object : Nat) (name : String) : Run Ns Errno Unit := do
  let o ← objOf object
  let s ← Run.get
  match o.isDir, a.lookup, find s.entries object name with
  | true, none, some e =>
    if Ns.spcl e.name then Run.fail .einval
    else
      match a.victim, s.objs e.object with
      | none, some _ => unlinkVictim find a object e
      | _, _ => Run.fail .einval
  | _, _, _ => Run.fail .einval

/-- `reiser4_object_create`: `dir40_create`, or `obj40_create` and those like it. -/
def reiser4ObjectCreate (a : CreateCall) (isDir : Bool) : Run Ns Errno Nat := do
  let s ← Run.get
  Run.modify Ns.skip
  if isDir then do
    treeChange a.body (·.add s.dot)
    match ← (treeChange a.stat (·.setObj s.next (some ⟨true, 1⟩))).attempt with
    | .ok _ => pure s.next
    | .error e => do
      ignored (treeChange a.cleanup (·.erase s.dot))
      Run.fail e
  else do
    treeChange a.stat (·.setObj s.next (some ⟨false, 0⟩))
    pure s.next

/-- `reiser4_object_clobber`: a directory has to have two links. -/
def reiser4ObjectClobber (a : CreateCall) (oid : Nat) : Run Ns Errno Unit := do
  let o ← objOf oid
  if o.isDir then
    if gotNlink a.clobberGet o.nlink ≠ 2 then Run.fail .einval
    else do
      treeChange a.clobberBody fun s => { s with entries := s.entries.filter (·.dir ≠ oid) }
      treeChange a.clobberStat (·.setObj oid none)
  else do
    treeChange a.clobberBody id
    treeChange a.clobberStat (·.setObj oid none)

/-- `reiser4_obj_create`; a null pointer is an error here. -/
def reiser4ObjCreate (a : CreateCall) (parent : Nat) (isDir : Bool) (name : String) :
    Run Ns Errno Unit := do
  let p ← objOf parent
  answer a.inherit
  -- Only a directory has the method `build_entry`.
  if !p.isDir then Run.fail .einval
  else do
    let oid ← reiser4ObjectCreate a isDir
    match ← (reiser4ObjectLink find a.link parent oid (some name)).attempt with
    | .ok _ => pure ()
    | .error e => do
      ignored (reiser4ObjectClobber a oid)
      Run.fail e

end Model

/-! ## What holds of a namespace -/

/-- The search finds the entry of the name, if there is one. -/
def Exact (find : Finset DirEntry → Nat → String → Option DirEntry) (es : Finset DirEntry) : Prop :=
  ∀ d n e, find es d n = some e ↔ e ∈ es ∧ e.dir = d ∧ e.name = n

/-- No directory has two entries of one name. -/
def Unique (es : Finset DirEntry) : Prop :=
  ∀ e ∈ es, ∀ e' ∈ es, e.dir = e'.dir → e.name = e'.name → e = e'

/-- A directory is named at most once but for "." and "..", and its ".." leads back. -/
structure Shape (isDir : Nat → Bool) (es : Finset DirEntry) : Prop where
  unique : Unique es
  dotdot : ∀ e ∈ es, Ns.spcl e.name = false → isDir e.object = true → ⟨e.object, "..", e.dir⟩ ∈ es
  single : ∀ e ∈ es, ∀ e' ∈ es, Ns.spcl e.name = false → Ns.spcl e'.name = false →
    e.object = e'.object → isDir e.object = true → e = e'

namespace Ns

def isDir (s : Ns) (oid : Nat) : Bool := (s.objs oid).any (·.isDir)

/-- The directory has an entry of the name. -/
def present (s : Ns) (dir : Nat) (name : String) : Bool :=
  decide (∃ e ∈ s.entries, e.dir = dir ∧ e.name = name)

/-- The number of entries that name an object. -/
def names (s : Ns) (oid : Nat) : Nat := (s.entries.filter (·.object = oid)).card

/-- The link count is changed. -/
def count (s : Ns) (oid : Nat) (f : Nat → Nat) : Ns :=
  { s with objs := fun i => if i = oid then (s.objs i).map fun o => { o with nlink := f o.nlink }
    else s.objs i }

def inc (s : Ns) (oid : Nat) : Ns := s.count oid (· + 1)
def dec (s : Ns) (oid : Nat) : Ns := s.count oid (· - 1)

/-- An entry is added, and the object counts it. -/
def link (s : Ns) (e : DirEntry) : Ns := (s.add e).inc e.object

/-- An entry is removed, and the object does not count it any more. -/
def unlink (s : Ns) (e : DirEntry) : Ns := (s.erase e).dec e.object

@[simp] theorem count_isDir (s : Ns) (oid : Nat) (f : Nat → Nat) (i : Nat) :
    (s.count oid f).isDir i = s.isDir i := by
  unfold isDir count
  dsimp only
  split
  · cases s.objs i <;> rfl
  · rfl

@[simp] theorem inc_isDir (s : Ns) (oid i : Nat) : (s.inc oid).isDir i = s.isDir i :=
  count_isDir s oid _ i

@[simp] theorem dec_isDir (s : Ns) (oid i : Nat) : (s.dec oid).isDir i = s.isDir i :=
  count_isDir s oid _ i

@[simp] theorem link_isDir (s : Ns) (e : DirEntry) (i : Nat) : (s.link e).isDir i = s.isDir i :=
  inc_isDir _ _ i

@[simp] theorem unlink_isDir (s : Ns) (e : DirEntry) (i : Nat) : (s.unlink e).isDir i = s.isDir i :=
  dec_isDir _ _ i

@[simp] theorem link_entries (s : Ns) (e : DirEntry) : (s.link e).entries = insert e s.entries := rfl

@[simp] theorem unlink_entries (s : Ns) (e : DirEntry) :
    (s.unlink e).entries = s.entries.erase e := rfl

theorem count_objs {s : Ns} {oid i : Nat} {f : Nat → Nat} {o : Obj}
    (h : (s.count oid f).objs i = some o) : ∃ o', s.objs i = some o' ∧ o'.isDir = o.isDir ∧
      o.nlink = if i = oid then f o'.nlink else o'.nlink := by
  unfold count at h
  dsimp only at h
  split at h
  · next heq =>
    obtain ⟨o', ho', rfl⟩ := Option.map_eq_some_iff.mp h
    exact ⟨o', ho', rfl, by rw [if_pos heq]⟩
  · next hne => exact ⟨o, h, rfl, by rw [if_neg hne]⟩

theorem names_add {s : Ns} {e : DirEntry} (h : e ∉ s.entries) (oid : Nat) :
    (s.add e).names oid = s.names oid + if e.object = oid then 1 else 0 := by
  unfold names add
  dsimp only
  rw [Finset.filter_insert]
  split
  · rw [Finset.card_insert_of_notMem fun hmem => h (Finset.mem_filter.mp hmem).1]
  · rfl

theorem names_erase {s : Ns} {e : DirEntry} (h : e ∈ s.entries) (oid : Nat) :
    (s.erase e).names oid + (if e.object = oid then 1 else 0) = s.names oid := by
  have hadd := names_add (s := s.erase e) (Finset.notMem_erase e s.entries) oid
  rw [← hadd]
  unfold names add erase
  rw [Finset.insert_erase h]

/-- `nlink` is the number of names, and of the links made without one. -/
def Accounted (bare : Nat → Nat) (s : Ns) : Prop :=
  ∀ oid o, s.objs oid = some o → o.nlink = s.names oid + bare oid

theorem Accounted.link {bare : Nat → Nat} {s : Ns} (h : s.Accounted bare) {e : DirEntry}
    (he : e ∉ s.entries) : (s.link e).Accounted bare := by
  intro oid o ho
  obtain ⟨o', ho', -, hn⟩ := count_objs ho
  have hnames : (s.link e).names oid = _ := names_add he oid
  rw [hnames, hn, h oid o' ho']
  by_cases heq : oid = e.object
  · rw [if_pos heq, if_pos heq.symm]
    omega
  · rw [if_neg heq, if_neg (Ne.symm heq)]
    omega

theorem Accounted.unlink {bare : Nat → Nat} {s : Ns} (h : s.Accounted bare) {e : DirEntry}
    (he : e ∈ s.entries) : (s.unlink e).Accounted bare := by
  intro oid o ho
  obtain ⟨o', ho', -, hn⟩ := count_objs (s := s.erase e) (f := (· - 1)) ho
  have hnames : (s.unlink e).names oid + _ = _ := names_erase he oid
  rw [hn, h oid o' ho', ← hnames]
  by_cases heq : oid = e.object
  · rw [if_pos heq, if_pos heq.symm]
    omega
  · rw [if_neg heq, if_neg (Ne.symm heq)]
    omega

/-- The object is named, so it has a link to lose. -/
theorem Accounted.pos {bare : Nat → Nat} {s : Ns} (h : s.Accounted bare) {e : DirEntry}
    (he : e ∈ s.entries) {o : Obj} (ho : s.objs e.object = some o) : 0 < o.nlink := by
  have hmem : e ∈ s.entries.filter (·.object = e.object) := Finset.mem_filter.mpr ⟨he, rfl⟩
  have hpos : 0 < s.names e.object := Finset.card_pos.mpr ⟨e, hmem⟩
  have := h _ o ho
  omega

theorem dec_inc (s : Ns) (oid : Nat) : (s.inc oid).dec oid = s := by
  unfold inc dec count
  cases s with
  | mk objs entries next =>
    simp only [Ns.mk.injEq, and_self, and_true]
    funext i
    split
    · cases objs i <;> rfl
    · rfl

theorem inc_dec {s : Ns} {oid : Nat} (h : ∀ o, s.objs oid = some o → 0 < o.nlink) :
    (s.dec oid).inc oid = s := by
  unfold inc dec count
  cases s with
  | mk objs entries next =>
    simp only [Ns.mk.injEq, and_self, and_true]
    funext i
    split
    · next heq =>
      rw [heq]
      cases ho : objs oid with
      | none => rfl
      | some o =>
        have hpos := h o ho
        simp only [Option.map_some, Option.some.injEq]
        rw [Nat.sub_add_cancel hpos]
    · rfl

theorem erase_add {s : Ns} {e : DirEntry} (h : e ∉ s.entries) : (s.add e).erase e = s := by
  unfold add erase
  cases s with
  | mk objs entries next => rw [Finset.erase_insert h]

theorem add_erase {s : Ns} {e : DirEntry} (h : e ∈ s.entries) : (s.erase e).add e = s := by
  unfold add erase
  cases s with
  | mk objs entries next => rw [Finset.insert_erase h]

end Ns

namespace Shape

variable {isDir : Nat → Bool} {es : Finset DirEntry}

theorem unique_insert (h : Unique es) {e : DirEntry}
    (hnew : ∀ e' ∈ es, e'.dir = e.dir → e'.name ≠ e.name) : Unique (insert e es) := by
  intro e1 h1 e2 h2 hdir hname
  rcases Finset.mem_insert.mp h1 with rfl | m1
  · rcases Finset.mem_insert.mp h2 with rfl | m2
    · rfl
    · exact absurd hname.symm (hnew e2 m2 hdir.symm)
  · rcases Finset.mem_insert.mp h2 with rfl | m2
    · exact absurd hname (hnew e1 m1 hdir)
    · exact h e1 m1 e2 m2 hdir hname

theorem unique_subset (h : Unique es) {es' : Finset DirEntry} (hsub : es' ⊆ es) : Unique es' :=
  fun e1 h1 e2 h2 => h e1 (hsub h1) e2 (hsub h2)

/-- A "." or a ".." is added. -/
theorem insert_spcl (h : Shape isDir es) {e : DirEntry}
    (hnew : ∀ e' ∈ es, e'.dir = e.dir → e'.name ≠ e.name) (hspcl : Ns.spcl e.name = true) :
    Shape isDir (insert e es) := by
  have hold : ∀ e' ∈ insert e es, Ns.spcl e'.name = false → e' ∈ es := by
    intro e' he' hplain
    rcases Finset.mem_insert.mp he' with rfl | he'
    · rw [hspcl] at hplain
      cases hplain
    · exact he'
  exact ⟨unique_insert h.unique hnew,
    fun e' he' hplain hdir => Finset.mem_insert_of_mem (h.dotdot e' (hold e' he' hplain) hplain hdir),
    fun e1 h1 e2 h2 p1 p2 => h.single e1 (hold e1 h1 p1) e2 (hold e2 h2 p2) p1 p2⟩

/-- A name is added; a directory gets it as its first, and has its ".." by then. -/
theorem insert_name (h : Shape isDir es) {e : DirEntry}
    (hnew : ∀ e' ∈ es, e'.dir = e.dir → e'.name ≠ e.name)
    (hdir : isDir e.object = true → ⟨e.object, "..", e.dir⟩ ∈ es ∧
      ∀ e' ∈ es, Ns.spcl e'.name = false → e'.object ≠ e.object) :
    Shape isDir (insert e es) := by
  refine ⟨unique_insert h.unique hnew, ?_, ?_⟩
  · intro e' he' hplain hd
    rcases Finset.mem_insert.mp he' with rfl | he'
    · exact Finset.mem_insert_of_mem (hdir hd).1
    · exact Finset.mem_insert_of_mem (h.dotdot e' he' hplain hd)
  · intro e1 h1 e2 h2 p1 p2 hobj hd
    rcases Finset.mem_insert.mp h1 with rfl | m1
    · rcases Finset.mem_insert.mp h2 with rfl | m2
      · rfl
      · exact absurd hobj.symm ((hdir hd).2 e2 m2 p2)
    · rcases Finset.mem_insert.mp h2 with rfl | m2
      · rw [hobj] at hd
        exact absurd hobj ((hdir hd).2 e1 m1 p1)
      · exact h.single e1 m1 e2 m2 p1 p2 hobj hd

/-- A name is removed. -/
theorem erase_name (h : Shape isDir es) {e : DirEntry} (hplain : Ns.spcl e.name = false) :
    Shape isDir (es.erase e) := by
  refine ⟨unique_subset h.unique (Finset.erase_subset _ _), ?_, ?_⟩
  · intro e' he' p hd
    refine Finset.mem_erase.mpr ⟨?_, h.dotdot e' (Finset.mem_of_mem_erase he') p hd⟩
    intro heq
    rw [← heq] at hplain
    exact absurd (show Ns.spcl ".." = false from hplain) (by decide)
  · intro e1 h1 e2 h2
    exact h.single e1 (Finset.mem_of_mem_erase h1) e2 (Finset.mem_of_mem_erase h2)

/-- The ".." of a directory without a name is removed. -/
theorem erase_dotdot (h : Shape isDir es) {c p : Nat}
    (hno : ∀ e ∈ es, Ns.spcl e.name = false → e.object ≠ c) :
    Shape isDir (es.erase ⟨c, "..", p⟩) := by
  refine ⟨unique_subset h.unique (Finset.erase_subset _ _), ?_, ?_⟩
  · intro e he plain hd
    have hmem := Finset.mem_of_mem_erase he
    refine Finset.mem_erase.mpr ⟨?_, h.dotdot e hmem plain hd⟩
    intro heq
    exact hno e hmem plain (congrArg DirEntry.dir heq)
  · intro e1 h1 e2 h2
    exact h.single e1 (Finset.mem_of_mem_erase h1) e2 (Finset.mem_of_mem_erase h2)

/-- A directory that is named has a "..". -/
theorem named (h : Shape isDir es) {c : Nat} (hd : isDir c = true)
    (hno : ∀ e ∈ es, e.dir = c → e.name ≠ "..") :
    ∀ e ∈ es, Ns.spcl e.name = false → e.object ≠ c := by
  rintro e he plain rfl
  exact hno _ (h.dotdot e he plain hd) rfl rfl

end Shape

/-- What holds of a namespace: the link counts are right but for the links in `bare`. -/
structure Consistent (bare : Nat → Nat) (s : Ns) : Prop where
  accounted : s.Accounted bare
  shape : Shape s.isDir s.entries
  fresh : ∀ oid, s.next ≤ oid → s.objs oid = none
  bare_fresh : ∀ oid, s.next ≤ oid → bare oid = 0
  below : ∀ e ∈ s.entries, e.dir < s.next ∧ e.object < s.next

end Reiser4.Object
