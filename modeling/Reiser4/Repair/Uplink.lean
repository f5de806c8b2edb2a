/-
  The way up from a lost object (`repair_semantic_uplink` of `librepair/semantic.c`).

  An object that is not reached from the root but knows its parent is tied to it again: if no entry of
  the parent points to the object, the parent gets one with a new name.  Then the parent is handled in
  the same way.  The objects on the way up are marked `ATTACHING`, which breaks loops, and an object
  whose parent cannot be used loses its "..".

  Objects are told apart by their keys without the offset (`reiser4_key_compshort`); such a key is a
  number here.  The plugin methods for recognizing and checking an object are `SemMethods`; what the
  tree answers to the other operations comes with the state.

    1. `repairSemanticUplink`       the model;
    2. `Holds.uplink`               an object marked `ATTACHING` is left alone further up;
    3. `uplink_shows`               what the way up from a directory does to its entries;
    4. `repairSemanticUplink_restores_iff`   when the name is restored.
-/
import Reiser4.Bitmap
import Reiser4.Lib.Run

namespace Reiser4.Repair

open Reiser4.Lib

/-- An entry of a directory: its name, and the object it points to. -/
structure SemEntry where
  name : String
  object : Nat
  deriving DecidableEq

/-- An object as the semantic pass sees it. -/
structure SemObj where
  /-- The object plugin is a directory plugin, the only kind with entries. -/
  isDir : Bool
  entries : List SemEntry
  /-- `OF_CHECKED`. -/
  checked : Bool
  /-- `OF_ATTACHING`. -/
  attaching : Bool

/-- The file system, and what its tree answers to the operations to come. -/
structure Sem where
  objs : Nat → Option SemObj
  /-- `sem->lost->info.object`. -/
  lost : Nat
  answers : List (Option Errno)

/-- An opened object (`reiser4_object_t`): `info.object` and `info.parent`. -/
structure SemHandle where
  id : Nat
  parent : Option Nat

/-- What `recognize` of an object plugin says. -/
inductive Recognized
  | object
  /-- Not an object of the plugin. -/
  | foreign
  | error

structure SemMethods where
  recognize : SemObj → Recognized
  /-- The entries that `check_struct` of a directory leaves. -/
  checkStruct : SemObj → List SemEntry
  /-- The search of a name in the directory fails. -/
  lookupFails : Nat → Bool
  /-- Where a new entry is inserted. -/
  slot : List SemEntry → SemEntry → Nat

/-- `LOST_PREFIX` with the key. -/
def repairSemanticLostName (object : Nat) : String := "lost_name_" ++ toString object

def dotdotName : String := ".."

/-- The entry is "..". -/
def SemEntry.isDotdot (e : SemEntry) : Bool := e.name == dotdotName

namespace Sem

def setObj (s : Sem) (id : Nat) (o : SemObj) : Sem :=
  { s with objs := fun i => if i = id then some o else s.objs i }

end Sem

section Model

variable (M : SemMethods)

/-- The next answer of the tree. -/
def treeAnswer : Run Sem Errno Unit := do
  let s ← Run.get
  match s.answers with
  | [] => pure ()
  | a :: rest => do
    Run.modify fun s => { s with answers := rest }
    match a with
    | none => pure ()
    | some e => Run.fail e

/-- The object in the tree. -/
def semObj (id : Nat) : Run Sem Errno SemObj := do
  let s ← Run.get
  match s.objs id with
  | none => Run.fail .einval
  | some o => pure o

def setSemObj (id : Nat) (o : SemObj) : Run Sem Errno Unit := Run.modify (·.setObj id o)

/-- `repair_object_obtain`: a lookup that fails finds nothing. -/
def repairObjectObtain (id : Nat) : Run Sem Errno (Option SemHandle) := do
  match ← treeAnswer.attempt with
  | .error _ => pure none
  | .ok _ => do
    let s ← Run.get
    match s.objs id with
    | none => pure none
    | some o =>
      match M.recognize o with
      | .object => pure (some ⟨id, none⟩)
      | .foreign => pure none
      | .error => Run.fail .einval

/-- `repair_object_refresh`. -/
def repairObjectRefresh (h : SemHandle) : Run Sem Errno SemHandle := do
  let o ← semObj h.id
  if !o.isDir then pure h
  else if M.lookupFails h.id then Run.fail .einval
  else pure ⟨h.id, (o.entries.find? SemEntry.isDotdot).map SemEntry.object⟩

/-- `repair_semantic_check_struct` of an object that was not checked. -/
def repairSemanticCheckStruct (h : SemHandle) : Run Sem Errno SemHandle := do
  let o ← semObj h.id
  treeAnswer
  setSemObj h.id { o with
    entries := if o.isDir then M.checkStruct o else o.entries
    checked := true }
  repairObjectRefresh M h

/-- The loop over the entries of the parent: was it left before their end? -/
def uplinkReaddir (object : Nat) : List SemEntry → Run Sem Errno Bool
  | [] => do
    treeAnswer
    pure false
  | e :: rest => do
    treeAnswer
    if e.object ≠ object then pure true else uplinkReaddir object rest

/-- `repair_semantic_add_entry`. -/
def repairSemanticAddEntry (dir : Nat) (e : SemEntry) : Run Sem Errno Unit := do
  let o ← semObj dir
  if !o.isDir || M.lookupFails dir || o.entries.any (·.name == e.name) then Run.fail .einval
  else do
    treeAnswer
    let i := M.slot o.entries e
    setSemObj dir { o with entries := o.entries.take i ++ e :: o.entries.drop i }

/-- `reiser4_object_detach` from no parent. -/
def reiser4ObjectDetachLost (object : Nat) : Run Sem Errno Unit := do
  let o ← semObj object
  if !o.isDir || M.lookupFails object || !o.entries.any SemEntry.isDotdot then pure ()
  else do
    treeAnswer
    setSemObj object { o with entries := o.entries.eraseP SemEntry.isDotdot }

/-- `repair_semantic_check_attach` in build mode; a ".." that leads elsewhere is a fatal error, which
    ends the work on the object, but is no failure. -/
def repairSemanticCheckAttach (parent object : Nat) : Run Sem Errno Unit := do
  let o ← semObj object
  if o.isDir then
    if M.lookupFails object then Run.fail .einval
    else
      match o.entries.find? SemEntry.isDotdot with
      | some e => if e.object = parent then treeAnswer else pure ()
      | none => do
        repairSemanticAddEntry M object ⟨dotdotName, parent⟩
        treeAnswer
  else treeAnswer

/-- `repair_semantic_link_lost`. -/
def repairSemanticLinkLost (parent object : Nat) : Run Sem Errno Unit := do
  reiser4ObjectDetachLost M object
  repairSemanticAddEntry M parent ⟨repairSemanticLostName object, object⟩
  repairSemanticCheckAttach M parent object

/-- `repair_object_mark`, `repair_object_clear` with `OF_ATTACHING`. -/
def repairObjectMark (object : Nat) (flag : Bool) : Run Sem Errno Unit := do
  treeAnswer
  let o ← semObj object
  setSemObj object { o with attaching := flag }

/-- The parent is ready: an entry for the object, if the loop did not leave early. -/
def uplinkEntry (object parent : Nat) : Run Sem Errno Unit := do
  let p ← semObj parent
  if !p.isDir then Run.fail .einval
  else do
    let found ← uplinkReaddir object p.entries
    if found then pure ()
    else repairSemanticAddEntry M parent ⟨repairSemanticLostName object, object⟩

/-- The parent was checked before. -/
def uplinkChecked (object : Nat) (parent : SemHandle) : Run Sem Errno (Option SemHandle) := do
  let s ← Run.get
  if parent.id = s.lost then do
    reiser4ObjectDetachLost M object
    pure none
  else do
    let _ ← repairObjectRefresh M parent
    repairSemanticLinkLost M parent.id object
    pure none

/-- If nothing above the parent is found, it is the parent. -/
def uplinkResult (parent : SemHandle) : Except Errno (Option SemHandle) →
    Run Sem Errno (Option SemHandle)
  | .error e => Run.fail e
  | .ok none => pure (some parent)
  | .ok (some upper) => pure (some upper)

/-- `repair_semantic_uplink`: the most upper parent, or none; `INVAL_PTR` is an error. -/
def repairSemanticUplink : Nat → SemHandle → Run Sem Errno (Option SemHandle)
  | 0, _ => Run.hang
  | fuel + 1, object =>
    match object.parent with
    | none => pure none
    | some id => do
      match ← repairObjectObtain M id with
      | none => do
        reiser4ObjectDetachLost M object.id
        pure none
      | some parent => do
        let p ← semObj parent.id
        if p.attaching then do
          reiser4ObjectDetachLost M object.id
          pure none
        else if p.checked then uplinkChecked M object.id parent
        else do
          let parent ← repairSemanticCheckStruct M parent
          uplinkEntry M object.id parent.id
          repairObjectMark object.id true
          let found ← (repairSemanticUplink fuel parent).attempt
          repairObjectMark object.id false
          uplinkResult parent found

end Model

/-! ## What the operations do -/

section Results

variable {M : SemMethods} {s s' : Sem}

theorem treeAnswer_objs {r : Except Errno Unit} (h : treeAnswer.run s = some (r, s')) :
    s'.objs = s.objs := by
  unfold treeAnswer at h
  rw [Run.get_bind] at h
  match ha : s.answers with
  | [] =>
    rw [ha] at h
    cases h
    rfl
  | none :: rest =>
    rw [ha] at h
    cases h
    rfl
  | some e :: rest =>
    rw [ha] at h
    cases h
    rfl

/-- An answer of the tree, and what follows it. -/
theorem answer_then {α : Type} {f : Unit → Run Sem Errno α} {r : Except Errno α}
    (h : (treeAnswer >>= f).run s = some (r, s')) :
    (∃ er, r = .error er) ∧ s'.objs = s.objs ∨
      ∃ s1, s1.objs = s.objs ∧ (f ()).run s1 = some (r, s') := by
  rw [Run.run_bind] at h
  match ht : treeAnswer.run s with
  | none =>
    rw [ht] at h
    cases h
  | some (.error er, s1) =>
    rw [ht] at h
    cases h
    exact .inl ⟨⟨_, rfl⟩, treeAnswer_objs ht⟩
  | some (.ok u, s1) =>
    rw [ht] at h
    exact .inr ⟨s1, treeAnswer_objs ht, h⟩

theorem semObj_run {id : Nat} {o : SemObj} (h : s.objs id = some o) :
    (semObj id).run s = some (.ok o, s) := by
  unfold semObj
  rw [Run.get_bind, h]
  rfl

/-- An object is read, and what follows. -/
theorem semObj_then {α : Type} {id : Nat} {f : SemObj → Run Sem Errno α} {r : Except Errno α}
    (h : (semObj id >>= f).run s = some (r, s')) :
    (∃ er, r = .error er) ∧ s' = s ∨ ∃ o, s.objs id = some o ∧ (f o).run s = some (r, s') := by
  cases ho : s.objs id with
  | none =>
    rw [Run.run_bind, semObj, Run.get_bind, ho] at h
    cases h
    exact .inl ⟨⟨_, rfl⟩, rfl⟩
  | some o =>
    rw [Run.bind_of_ok (semObj_run ho)] at h
    exact .inr ⟨o, rfl, h⟩

/-- Adding an entry succeeds and inserts it, or fails and leaves the objects as they are. -/
theorem addEntry_cases {dir : Nat} {e : SemEntry} {r : Except Errno Unit}
    (h : (repairSemanticAddEntry M dir e).run s = some (r, s')) :
    (∃ er, r = .error er) ∧ s'.objs = s.objs ∨
      r = .ok () ∧ ∃ o l₁ l₂, s.objs dir = some o ∧ (∀ x ∈ o.entries, x.name ≠ e.name) ∧
        o.entries = l₁ ++ l₂ ∧ s'.objs = (s.setObj dir { o with entries := l₁ ++ e :: l₂ }).objs := by
  unfold repairSemanticAddEntry at h
  rcases semObj_then h with ⟨her, rfl⟩ | ⟨o, ho, h⟩
  · exact .inl ⟨her, rfl⟩
  · split at h
    · cases h
      exact .inl ⟨⟨_, rfl⟩, rfl⟩
    · rename_i hguard
      have hfresh : ∀ x ∈ o.entries, x.name ≠ e.name := by
        intro x hx heq
        refine hguard ?_
        rw [Bool.or_eq_true]
        exact .inr (List.any_eq_true.mpr ⟨x, hx, by simpa using heq⟩)
      rcases answer_then h with hs' | ⟨s1, hs1, h2⟩
      · exact .inl hs'
      · cases h2
        refine .inr ⟨rfl, o, _, _, ho, hfresh, (List.take_append_drop (M.slot o.entries e) _).symm, ?_⟩
        show (s1.setObj dir _).objs = _
        simp only [Sem.setObj, hs1]

/-- Detaching changes the entries of the object, or nothing. -/
theorem detachLost_cases {object : Nat} {r : Except Errno Unit}
    (h : (reiser4ObjectDetachLost M object).run s = some (r, s')) :
    s'.objs = s.objs ∨ ∃ o, s.objs object = some o ∧
      s'.objs = (s.setObj object { o with entries := o.entries.eraseP SemEntry.isDotdot }).objs := by
  unfold reiser4ObjectDetachLost at h
  rcases semObj_then h with ⟨-, rfl⟩ | ⟨o, ho, h⟩
  · exact .inl rfl
  · split at h
    · cases h
      exact .inl rfl
    · rcases answer_then h with ⟨-, hs'⟩ | ⟨s1, hs1, h2⟩
      · exact .inl hs'
      · cases h2
        refine .inr ⟨o, ho, ?_⟩
        show (s1.setObj object _).objs = _
        simp only [Sem.setObj, hs1]

theorem semObj_ok {id : Nat} {p : SemObj} (h : (semObj id).run s = some (.ok p, s')) :
    s.objs id = some p ∧ s' = s := by
  unfold semObj at h
  rw [Run.get_bind] at h
  cases ho : s.objs id with
  | none =>
    rw [ho] at h
    cases h
  | some o =>
    rw [ho] at h
    cases h
    exact ⟨rfl, rfl⟩

theorem refresh_state {h : SemHandle} {r : Except Errno SemHandle}
    (hrun : (repairObjectRefresh M h).run s = some (r, s')) : s' = s := by
  unfold repairObjectRefresh at hrun
  rcases semObj_then hrun with ⟨-, rfl⟩ | ⟨o, -, h2⟩
  · rfl
  · split at h2
    · cases h2
      rfl
    · split at h2
      · cases h2
        rfl
      · cases h2
        rfl

/-- A directory that was refreshed knows where its ".." leads. -/
theorem refresh_ok {h h' : SemHandle} {o : SemObj} (ho : s.objs h.id = some o) (hdir : o.isDir = true)
    (hrun : (repairObjectRefresh M h).run s = some (.ok h', s')) :
    M.lookupFails h.id = false ∧
      h'.parent = (o.entries.find? SemEntry.isDotdot).map SemEntry.object := by
  unfold repairObjectRefresh at hrun
  rw [Run.bind_of_ok (semObj_run ho), hdir] at hrun
  simp only [Bool.not_true, Bool.false_eq_true, if_false] at hrun
  split at hrun
  · cases hrun
  · rename_i hlookup
    cases hrun
    exact ⟨by simpa using hlookup, rfl⟩

theorem refresh_id {h h' : SemHandle} (hrun : (repairObjectRefresh M h).run s = some (.ok h', s')) :
    h'.id = h.id := by
  unfold repairObjectRefresh at hrun
  obtain ⟨o, s1, -, h2⟩ := Run.bind_ok.mp hrun
  split at h2
  · cases h2
    rfl
  · split at h2
    · cases h2
    · cases h2
      rfl

/-- The structure check changes the entries of the object and marks it, or changes nothing. -/
theorem checkStruct_cases {h : SemHandle} {r : Except Errno SemHandle}
    (hrun : (repairSemanticCheckStruct M h).run s = some (r, s')) :
    (∃ er, r = .error er) ∧ s'.objs = s.objs ∨
      ∃ o, s.objs h.id = some o ∧ s'.objs = (s.setObj h.id { o with
        entries := if o.isDir then M.checkStruct o else o.entries
        checked := true }).objs := by
  unfold repairSemanticCheckStruct at hrun
  rcases semObj_then hrun with ⟨her, rfl⟩ | ⟨o, ho, h2⟩
  · exact .inl ⟨her, rfl⟩
  · rcases answer_then h2 with hs' | ⟨s1, hs1, h3⟩
    · exact .inl hs'
    · obtain rfl := refresh_state h3
      refine .inr ⟨o, ho, ?_⟩
      show (s1.setObj h.id _).objs = _
      simp only [Sem.setObj, hs1]

/-- A mark is set or cleared, or nothing changes. -/
theorem mark_cases {object : Nat} {flag : Bool} {r : Except Errno Unit}
    (hrun : (repairObjectMark object flag).run s = some (r, s')) :
    (∃ er, r = .error er) ∧ s'.objs = s.objs ∨ ∃ o, s.objs object = some o ∧
      s'.objs = (s.setObj object { o with attaching := flag }).objs := by
  unfold repairObjectMark at hrun
  rcases answer_then hrun with hs' | ⟨s1, hs1, h2⟩
  · exact .inl hs'
  · rcases semObj_then h2 with ⟨her, rfl⟩ | ⟨o, ho, h3⟩
    · exact .inl ⟨her, hs1⟩
    · cases h3
      rw [hs1] at ho
      refine .inr ⟨o, ho, ?_⟩
      show (s1.setObj object _).objs = _
      simp only [Sem.setObj, hs1]

theorem obtain_id {id : Nat} {h : SemHandle}
    (hrun : (repairObjectObtain M id).run s = some (.ok (some h), s')) : h.id = id := by
  unfold repairObjectObtain at hrun
  obtain ⟨found, s1, -, h2⟩ := Run.bind_ok.mp hrun
  cases found with
  | error e => cases h2
  | ok u =>
    dsimp only at h2
    rw [Run.get_bind] at h2
    cases ho : s1.objs id with
    | none =>
      rw [ho] at h2
      cases h2
    | some o =>
      rw [ho] at h2
      dsimp only at h2
      split at h2
      · cases h2
        rfl
      · cases h2
      · cases h2

theorem uplinkResult_ok {parent : SemHandle} {up : Except Errno (Option SemHandle)}
    {r : Option SemHandle} (hrun : (uplinkResult parent up).run s = some (.ok r, s')) :
    s = s' ∧ ∃ upper, up = .ok upper := by
  match up, hrun with
  | .ok none, hrun =>
    cases hrun
    exact ⟨rfl, none, rfl⟩
  | .ok (some upper), hrun =>
    cases hrun
    exact ⟨rfl, some upper, rfl⟩

theorem uplinkResult_keeps {I : Sem → Prop} {parent : SemHandle} :
    ∀ up : Except Errno (Option SemHandle), Run.Keeps I (uplinkResult parent up)
  | .error e => Run.Keeps.fail e
  | .ok none => Run.Keeps.ret _
  | .ok (some _) => Run.Keeps.ret _

theorem checkStruct_id {h h' : SemHandle}
    (hrun : (repairSemanticCheckStruct M h).run s = some (.ok h', s')) : h'.id = h.id := by
  unfold repairSemanticCheckStruct at hrun
  obtain ⟨o, s1, -, h2⟩ := Run.bind_ok.mp hrun
  obtain ⟨-, s2, -, h3⟩ := Run.bind_ok.mp h2
  obtain ⟨-, s3, -, h4⟩ := Run.bind_ok.mp h3
  exact refresh_id h4

end Results

/-! ## What is left alone -/

/-- `I` says nothing of the answers to come, and survives a check of an object in `W` and a change of
    its entries. -/
structure Stable (I : Sem → Prop) (W : Nat → Prop) : Prop where
  objs : ∀ {s s' : Sem}, s'.objs = s.objs → I s → I s'
  write : ∀ {s : Sem} {id : Nat} {o : SemObj} (es : List SemEntry) (checked : Bool), W id →
    s.objs id = some o → (o.checked = true → checked = true) → I s →
    I (s.setObj id { o with entries := es, checked := checked })

theorem semObj_keeps {I : Sem → Prop} (id : Nat) : Run.Keeps I (semObj id) := by
  unfold semObj
  refine Run.Keeps.bind Run.Keeps.get fun s => ?_
  cases s.objs id with
  | none => exact Run.Keeps.fail _
  | some o' => exact Run.Keeps.ret _

theorem refresh_keeps {M : SemMethods} {I : Sem → Prop} (h : SemHandle) : Run.Keeps I (repairObjectRefresh M h) := by
  unfold repairObjectRefresh
  refine Run.Keeps.bind (semObj_keeps _) fun o' => ?_
  split
  · exact Run.Keeps.ret _
  · split
    · exact Run.Keeps.fail _
    · exact Run.Keeps.ret _

namespace Stable

variable {M : SemMethods} {I : Sem → Prop} {W : Nat → Prop} (hI : Stable I W)
include hI

theorem treeAnswer : Run.Keeps I treeAnswer :=
  fun _ _ _ h hrun => hI.objs (treeAnswer_objs hrun) h

theorem obtain (id : Nat) : Run.Keeps I (repairObjectObtain M id) := by
  unfold repairObjectObtain
  refine Run.Keeps.bind hI.treeAnswer.attempt fun r => ?_
  cases r with
  | error e => exact Run.Keeps.ret _
  | ok u =>
    refine Run.Keeps.bind Run.Keeps.get fun s => ?_
    cases s.objs id with
    | none => exact Run.Keeps.ret _
    | some o' =>
      dsimp only
      cases M.recognize o' with
      | object => exact Run.Keeps.ret _
      | foreign => exact Run.Keeps.ret _
      | error => exact Run.Keeps.fail _

theorem readdir (object : Nat) : ∀ es, Run.Keeps I (uplinkReaddir object es)
  | [] => Run.Keeps.bind hI.treeAnswer fun _ => Run.Keeps.ret _
  | e :: rest => by
    rw [uplinkReaddir]
    refine Run.Keeps.bind hI.treeAnswer fun _ => ?_
    split
    · exact Run.Keeps.ret _
    · exact readdir object rest

theorem addEntry {dir : Nat} (hW : W dir) (e : SemEntry) :
    Run.Keeps I (repairSemanticAddEntry M dir e) := by
  intro s r s' h hrun
  rcases addEntry_cases hrun with ⟨-, hs'⟩ | ⟨-, o, l₁, l₂, ho, -, -, hs'⟩
  · exact hI.objs hs' h
  · exact hI.objs hs' (hI.write _ o.checked hW ho id h)

theorem detachLost {object : Nat} (hW : W object) :
    Run.Keeps I (reiser4ObjectDetachLost M object) := by
  intro s r s' h hrun
  rcases detachLost_cases hrun with hs' | ⟨o, ho, hs'⟩
  · exact hI.objs hs' h
  · exact hI.objs hs' (hI.write _ o.checked hW ho id h)

theorem checkAttach {parent object : Nat} (hW : W object) :
    Run.Keeps I (repairSemanticCheckAttach M parent object) := by
  unfold repairSemanticCheckAttach
  refine Run.Keeps.bind (semObj_keeps _) fun o' => ?_
  split
  · split
    · exact Run.Keeps.fail _
    · split
      · split
        · exact hI.treeAnswer
        · exact Run.Keeps.ret _
      · exact Run.Keeps.bind (hI.addEntry hW _) fun _ => hI.treeAnswer
  · exact hI.treeAnswer

theorem linkLost {parent object : Nat} (hparent : W parent) (hW : W object) :
    Run.Keeps I (repairSemanticLinkLost M parent object) :=
  Run.Keeps.bind (hI.detachLost hW) fun _ =>
    Run.Keeps.bind (hI.addEntry hparent _) fun _ => hI.checkAttach hW

theorem uplinkEntry {object parent : Nat} (hW : W parent) :
    Run.Keeps I (uplinkEntry M object parent) := by
  unfold Repair.uplinkEntry
  refine Run.Keeps.bind (semObj_keeps _) fun p => ?_
  split
  · exact Run.Keeps.fail _
  · refine Run.Keeps.bind (hI.readdir _ _) fun found => ?_
    split
    · exact Run.Keeps.ret _
    · exact hI.addEntry hW _

theorem uplinkChecked {object : Nat} {parent : SemHandle} (hparent : W parent.id)
    (hW : W object) : Run.Keeps I (uplinkChecked M object parent) := by
  unfold Repair.uplinkChecked
  refine Run.Keeps.bind Run.Keeps.get fun s => ?_
  split
  · exact Run.Keeps.bind (hI.detachLost hW) fun _ => Run.Keeps.ret _
  · refine Run.Keeps.bind (refresh_keeps _) fun _ => ?_
    exact Run.Keeps.bind (hI.linkLost hparent hW) fun _ => Run.Keeps.ret _

theorem checkStruct {h : SemHandle} (hW : W h.id) :
    Run.Keeps I (repairSemanticCheckStruct M h) := by
  intro s r s' hs hrun
  rcases checkStruct_cases hrun with ⟨-, hs'⟩ | ⟨o, ho, hs'⟩
  · exact hI.objs hs' hs
  · exact hI.objs hs' (hI.write _ true hW ho (fun _ => rfl) hs)

end Stable

/-- The object is this one. -/
def Holds (d : Nat) (o : SemObj) (s : Sem) : Prop := s.objs d = some o

/-- Work on other objects leaves an object as it is. -/
theorem Holds.stable (d : Nat) (o : SemObj) : Stable (Holds d o) (· ≠ d) where
  objs hobjs h := by rwa [Holds, hobjs]
  write es checked hne ho hchecked h := (if_neg (Ne.symm hne)).trans h

theorem Holds.mark {d : Nat} {o : SemObj} {object : Nat} (hne : object ≠ d) (flag : Bool) :
    Run.Keeps (Holds d o) (repairObjectMark object flag) := by
  intro s r s' h hrun
  rcases mark_cases hrun with ⟨-, hs'⟩ | ⟨o', -, hs'⟩
  · exact (Holds.stable d o).objs hs' h
  · exact (Holds.stable d o).objs hs' ((if_neg hne.symm).trans h)

/-- An object marked `ATTACHING` is left alone by the way up from another one. -/
theorem Holds.uplink {M : SemMethods} {d : Nat} {o : SemObj} (ho : o.attaching = true) :
    ∀ (fuel : Nat) {object : SemHandle}, object.id ≠ d →
      Run.Keeps (Holds d o) (repairSemanticUplink M fuel object)
  | 0, _, _ => Run.Keeps.hang
  | fuel + 1, object, hne => by
    rw [repairSemanticUplink]
    cases object.parent with
    | none => exact Run.Keeps.ret _
    | some id =>
      dsimp only
      refine Run.Keeps.bind ((Holds.stable d o).obtain id) fun found => ?_
      cases found with
      | none => exact Run.Keeps.bind ((Holds.stable d o).detachLost hne) fun _ => Run.Keeps.ret _
      | some parent =>
        dsimp only
        refine Run.Keeps.bind_of (P := fun p => parent.id = d → p = o) (semObj_keeps _) ?_ ?_
        · rintro s p s' hs hrun rfl
          have hp := (semObj_ok hrun).1
          rw [show s.objs parent.id = some o from hs] at hp
          exact (Option.some.inj hp).symm
        · intro p hp
          split
          · exact Run.Keeps.bind ((Holds.stable d o).detachLost hne) fun _ => Run.Keeps.ret _
          · next hattaching =>
            have hparent : parent.id ≠ d := fun heq => hattaching (by rw [hp heq, ho])
            split
            · exact (Holds.stable d o).uplinkChecked hparent hne
            · refine Run.Keeps.bind_of (P := fun h => h.id ≠ d) ((Holds.stable d o).checkStruct hparent) ?_ ?_
              · intro s h s' _ hrun
                rw [checkStruct_id hrun]
                exact hparent
              · intro parent' hparent'
                refine Run.Keeps.bind ((Holds.stable d o).uplinkEntry hparent') fun _ => ?_
                refine Run.Keeps.bind (Holds.mark hne true) fun _ => ?_
                refine Run.Keeps.bind (Holds.uplink ho fuel hparent').attempt fun found => ?_
                refine Run.Keeps.bind (Holds.mark hne false) fun _ => ?_
                exact uplinkResult_keeps found

/-! ## The entries of a directory -/

theorem mem_eraseP_insert {p : SemEntry → Bool} {x : SemEntry} (hx : p x = false)
    (l₁ l₂ : List SemEntry) {e : SemEntry} :
    e ∈ (l₁ ++ x :: l₂).eraseP p ↔ e = x ∨ e ∈ (l₁ ++ l₂).eraseP p := by
  have hcons : (x :: l₂).eraseP p = x :: l₂.eraseP p := by simp [hx]
  rw [List.eraseP_append, List.eraseP_append, hcons]
  split
  · simp only [List.mem_append, List.mem_cons]
    tauto
  · simp only [List.mem_append, List.mem_cons]
    tauto

/-- Only the first ".." is erased. -/
theorem mem_eraseP_of_find {p : SemEntry → Bool} {l : List SemEntry} {d e : SemEntry}
    (hfind : l.find? p = some d) (hne : e ≠ d) : e ∈ l.eraseP p ↔ e ∈ l := by
  obtain ⟨hd, l₁, l₂, rfl, hl₁⟩ := List.find?_eq_some_iff_append.mp hfind
  have hno : ∀ b ∈ l₁, ¬ p b = true := fun b hb => by simpa using hl₁ b hb
  rw [List.eraseP_append_right _ hno, List.eraseP_cons_of_pos hd]
  simp only [List.mem_append, List.mem_cons, hne, false_or]

theorem eraseP_of_find_none {p : SemEntry → Bool} {l : List SemEntry} (h : l.find? p = none) :
    l.eraseP p = l :=
  List.eraseP_of_forall_not fun a ha => List.find?_eq_none.mp h a ha

theorem lostName_ne_dotdot (object : Nat) : repairSemanticLostName object ≠ dotdotName := by
  intro h
  have hlen : (repairSemanticLostName object).length = dotdotName.length := by rw [h]
  have hprefix : "lost_name_".length = 10 := by decide
  have hdots : dotdotName.length = 2 := by decide
  rw [repairSemanticLostName, String.length_append] at hlen
  omega

theorem lostName_isDotdot (object target : Nat) :
    SemEntry.isDotdot ⟨repairSemanticLostName object, target⟩ = false := by
  simpa [SemEntry.isDotdot] using lostName_ne_dotdot object

/-- The directory `d` has, of the entries that point to `object`, those of `es`. -/
def Shows (d object : Nat) (es : List SemEntry) (s : Sem) : Prop :=
  ∃ o, s.objs d = some o ∧ ∀ e, e.object = object → (e ∈ o.entries ↔ e ∈ es)

namespace Shows

variable {M : SemMethods} {d object : Nat} {es : List SemEntry}

theorem of_holds {s : Sem} {o : SemObj} (h : Holds d o s) : Shows d object o.entries s :=
  ⟨o, h, fun _ _ => Iff.rfl⟩

variable (d object es) in
theorem stable : Stable (Shows d object es) (· ≠ d) where
  objs hobjs := by
    rintro ⟨o, ho, hes⟩
    exact ⟨o, by rw [hobjs, ho], hes⟩
  write es' checked hne _ _ := by
    rintro ⟨o, ho, hes⟩
    exact ⟨o, (if_neg (Ne.symm hne)).trans ho, hes⟩

/-- An entry that points to another object does not matter. -/
theorem addEntry {dir : Nat} {e : SemEntry} (hne : e.object ≠ object) :
    Run.Keeps (Shows d object es) (repairSemanticAddEntry M dir e) := by
  rintro s r s' ⟨o, ho, hes⟩ hrun
  rcases addEntry_cases hrun with ⟨-, hs'⟩ | ⟨-, o', l₁, l₂, ho', -, hl, hs'⟩
  · exact ⟨o, by rw [hs']; exact ho, hes⟩
  · by_cases hd : d = dir
    · subst hd
      obtain rfl : o = o' := Option.some.inj (ho.symm.trans ho')
      refine ⟨{ o with entries := l₁ ++ e :: l₂ }, by rw [hs']; exact if_pos rfl, fun x hx => ?_⟩
      rw [← hes x hx, hl]
      have hxe : x ≠ e := by
        rintro rfl
        exact hne hx
      simp only [List.mem_append, List.mem_cons, hxe, false_or]
    · exact ⟨o, by rw [hs']; exact (if_neg hd).trans ho, hes⟩

theorem checkAttach {parent dir : Nat} (hne : parent ≠ object) :
    Run.Keeps (Shows d object es) (repairSemanticCheckAttach M parent dir) := by
  have hI := stable d object es
  unfold repairSemanticCheckAttach
  refine Run.Keeps.bind (semObj_keeps _) fun o => ?_
  split
  · split
    · exact Run.Keeps.fail _
    · split
      · split
        · exact hI.treeAnswer
        · exact Run.Keeps.ret _
      · exact Run.Keeps.bind (addEntry hne) fun _ => hI.treeAnswer
  · exact hI.treeAnswer

theorem mark {dir : Nat} (hne : dir ≠ d) (flag : Bool) :
    Run.Keeps (Shows d object es) (repairObjectMark dir flag) := by
  rintro s r s' ⟨o, ho, hes⟩ hrun
  exact ⟨o, Holds.mark hne flag s r s' ho hrun, hes⟩

end Shows

/-! ## The way up from a directory -/

section Uplink

variable {M : SemMethods} {s s' : Sem} {d object : Nat} {o : SemObj}

/-- Detaching a directory erases its "..". -/
theorem detachLost_shows (ho : Holds d o s) (hdir : o.isDir = true) (hlookup : M.lookupFails d = false)
    {u : Unit} (h : (reiser4ObjectDetachLost M d).run s = some (.ok u, s')) :
    Shows d object (o.entries.eraseP SemEntry.isDotdot) s' := by
  unfold reiser4ObjectDetachLost at h
  rw [Run.bind_of_ok (semObj_run ho)] at h
  split at h
  · rename_i hguard
    cases h
    have hnone : ∀ e ∈ o.entries, ¬ e.isDotdot = true := by
      simpa [hdir, hlookup] using hguard
    rw [List.eraseP_of_forall_not hnone]
    exact Shows.of_holds ho
  · obtain ⟨-, s1, -, h2⟩ := Run.bind_ok.mp h
    cases h2
    exact Shows.of_holds (o := { o with entries := o.entries.eraseP SemEntry.isDotdot }) (if_pos rfl)

/-- The parent was checked before: the directory loses its ".." and may get a new one. -/
theorem uplinkChecked_shows (ho : Holds d o s) (hdir : o.isDir = true)
    (hlookup : M.lookupFails d = false) (hd : d ≠ object) {parent : SemHandle}
    (hparent : parent.id ≠ object) {found : Option SemHandle}
    (h : (uplinkChecked M d parent).run s = some (.ok found, s')) :
    Shows d object (o.entries.eraseP SemEntry.isDotdot) s' := by
  unfold uplinkChecked at h
  rw [Run.get_bind] at h
  split at h
  · obtain ⟨u, s1, h1, h2⟩ := Run.bind_ok.mp h
    cases h2
    exact detachLost_shows ho hdir hlookup h1
  · obtain ⟨_, s1, h1, h2⟩ := Run.bind_ok.mp h
    obtain ⟨_, s2, hlink, h3⟩ := Run.bind_ok.mp h2
    cases h3
    have ho1 : Holds d o s1 := refresh_keeps _ s _ s1 ho h1
    obtain ⟨_, s3, hdetach, h4⟩ := Run.bind_ok.mp hlink
    obtain ⟨_, s4, hadd, hattach⟩ := Run.bind_ok.mp h4
    have hs3 := @detachLost_shows _ _ _ _ object _ ho1 hdir hlookup _ hdetach
    have hs4 := Shows.addEntry hd s3 _ s4 hs3 hadd
    exact Shows.checkAttach hparent s4 _ s' hs4 hattach

theorem mark_holds (ho : Holds d o s) {flag : Bool} {u : Unit}
    (h : (repairObjectMark d flag).run s = some (.ok u, s')) :
    Holds d { o with attaching := flag } s' := by
  unfold repairObjectMark at h
  obtain ⟨_, s1, h1, h2⟩ := Run.bind_ok.mp h
  have ho1 : Holds d o s1 := (Holds.stable d o).treeAnswer s _ s1 ho h1
  rw [Run.bind_of_ok (semObj_run ho1)] at h2
  cases h2
  exact if_pos rfl

/-- The way up from a checked directory, below which `object` is marked `ATTACHING`: of the entries
    that point to `object` it takes at most the "..". -/
theorem uplink_shows {fuel : Nat} {h : SemHandle} (ho : Holds h.id o s) (hdir : o.isDir = true)
    (hlookup : M.lookupFails h.id = false) (hchecked : o.checked = true)
    (hparent : h.parent = (o.entries.find? SemEntry.isDotdot).map SemEntry.object)
    {below : SemObj} (hbelow : Holds object below s) (hattaching : below.attaching = true)
    (hd : h.id ≠ object) {found : Option SemHandle}
    (hrun : (repairSemanticUplink M fuel h).run s = some (.ok found, s')) :
    Shows h.id object (o.entries.eraseP SemEntry.isDotdot) s' := by
  cases fuel with
  | zero => cases hrun
  | succ fuel =>
    rw [repairSemanticUplink] at hrun
    cases hfind : o.entries.find? SemEntry.isDotdot with
    | none =>
      rw [hparent, hfind] at hrun
      cases hrun
      rw [eraseP_of_find_none hfind]
      exact Shows.of_holds ho
    | some dd =>
      have hI := Holds.stable h.id o
      rw [hparent, hfind] at hrun
      obtain ⟨answer, s1, hobtain, h2⟩ := Run.bind_ok.mp hrun
      have ho1 : Holds h.id o s1 := hI.obtain _ s _ s1 ho hobtain
      have hbelow1 : Holds object below s1 := (Holds.stable object below).obtain _ s _ s1 hbelow hobtain
      cases answer with
      | none =>
        obtain ⟨_, s2, hdetach, h3⟩ := Run.bind_ok.mp h2
        cases h3
        exact detachLost_shows ho1 hdir hlookup hdetach
      | some parent =>
        have hid : parent.id = dd.object := obtain_id hobtain
        obtain ⟨p, s2, hp, h3⟩ := Run.bind_ok.mp h2
        obtain ⟨hp, rfl⟩ := semObj_ok hp
        split at h3
        · obtain ⟨_, s3, hdetach, h4⟩ := Run.bind_ok.mp h3
          cases h4
          exact detachLost_shows ho1 hdir hlookup hdetach
        · rename_i hpattaching
          have hne : parent.id ≠ object := by
            intro he
            rw [he] at hp
            obtain rfl : below = p := Option.some.inj (hbelow1.symm.trans hp)
            exact hpattaching hattaching
          split at h3
          · exact uplinkChecked_shows ho1 hdir hlookup hd hne h3
          · -- the parent was not checked, so it is another directory
            rename_i hpchecked
            have hned : parent.id ≠ h.id := by
              intro he
              rw [he] at hp
              obtain rfl : o = p := Option.some.inj (ho1.symm.trans hp)
              exact hpchecked hchecked
            obtain ⟨above, s3, hcheck, h4⟩ := Run.bind_ok.mp h3
            have habove : above.id ≠ h.id := by rwa [checkStruct_id hcheck]
            obtain ⟨_, s4, hentry, h5⟩ := Run.bind_ok.mp h4
            obtain ⟨_, s5, hmark, h6⟩ := Run.bind_ok.mp h5
            obtain ⟨up, s6, hup, h7⟩ := Run.bind_ok.mp h6
            obtain ⟨_, s7, hclear, h8⟩ := Run.bind_ok.mp h7
            obtain ⟨rfl, -⟩ := uplinkResult_ok h8
            have ho3 : Holds h.id o s3 := hI.checkStruct hned s2 _ s3 ho1 hcheck
            have ho4 : Holds h.id o s4 := hI.uplinkEntry habove s3 _ s4 ho3 hentry
            have ho5 := mark_holds ho4 hmark
            have ho6 := (Holds.uplink rfl fuel habove).attempt s5 _ s6 ho5 hup
            have ho7 := mark_holds ho6 hclear
            obtain ⟨o', ho', hes⟩ := @Shows.of_holds _ object _ _ ho7
            refine ⟨o', ho', fun e he => ?_⟩
            have hdd : e ≠ dd := by
              rintro rfl
              exact hne (hid.trans he)
            rw [hes e he, mem_eraseP_of_find hfind hdd]

end Uplink

/-! ## Only checked objects are marked -/

/-- An object is marked `ATTACHING` after it was checked. -/
def AttachingChecked (s : Sem) : Prop :=
  ∀ id o, s.objs id = some o → o.attaching = true → o.checked = true

/-- The object was checked. -/
def Checked (d : Nat) (s : Sem) : Prop := ∃ o, s.objs d = some o ∧ o.checked = true

/-- The objects of `D`, those on the way up so far, are checked. -/
def Marked (D : List Nat) (s : Sem) : Prop := AttachingChecked s ∧ ∀ d ∈ D, Checked d s

namespace Marked

variable {M : SemMethods}

theorem of_objs {D : List Nat} {s s' : Sem} (hobjs : s'.objs = s.objs) (h : Marked D s) :
    Marked D s' := by
  unfold Marked AttachingChecked Checked at *
  rwa [hobjs]

/-- Setting an object that stays checked, if it has to be. -/
theorem setObj {D : List Nat} {s : Sem} {id : Nat} {o : SemObj}
    (hattaching : o.attaching = true → o.checked = true) (hchecked : id ∈ D → o.checked = true)
    (h : Marked D s) : Marked D (s.setObj id o) := by
  refine ⟨fun i o' ho' => ?_, fun d hd => ?_⟩
  · by_cases hi : i = id
    · obtain rfl : o = o' := Option.some.inj ((if_pos hi).symm.trans ho')
      exact hattaching
    · exact h.1 i o' ((if_neg hi).symm.trans ho')
  · by_cases hi : d = id
    · exact ⟨o, if_pos hi, hchecked (hi ▸ hd)⟩
    · obtain ⟨o', ho', ho'c⟩ := h.2 d hd
      exact ⟨o', (if_neg hi).trans ho', ho'c⟩

/-- What `Marked` says of an object of `D`. -/
theorem checked {D : List Nat} {s : Sem} (h : Marked D s) {id : Nat} (hid : id ∈ D) {o : SemObj}
    (ho : s.objs id = some o) : o.checked = true := by
  obtain ⟨o', ho', hchecked⟩ := h.2 id hid
  obtain rfl : o = o' := Option.some.inj (ho.symm.trans ho')
  exact hchecked

theorem stable (D : List Nat) : Stable (Marked D) fun _ => True where
  objs := of_objs
  write _ _ _ ho hle h :=
    h.setObj (fun ha => hle (h.1 _ _ ho ha)) fun hid => hle (h.checked hid ho)

theorem mark {D : List Nat} {object : Nat} (hobject : object ∈ D) (flag : Bool) :
    Run.Keeps (Marked D) (repairObjectMark object flag) := by
  intro s r s' h hrun
  rcases mark_cases hrun with ⟨-, hs'⟩ | ⟨o, ho, hs'⟩
  · exact h.of_objs hs'
  · have hchecked := h.checked hobject ho
    exact of_objs hs' (h.setObj (fun _ => hchecked) fun _ => hchecked)

/-- The structure check of the parent makes it one of the checked objects. -/
theorem checkStruct {D : List Nat} {parent above : SemHandle} {s s' : Sem} (h : Marked D s)
    (hrun : (repairSemanticCheckStruct M parent).run s = some (.ok above, s')) :
    Marked (above.id :: D) s' := by
  have h' := (stable D).checkStruct trivial s _ s' h hrun
  refine ⟨h'.1, List.forall_mem_cons.mpr ⟨?_, h'.2⟩⟩
  rcases checkStruct_cases hrun with ⟨⟨er, her⟩, -⟩ | ⟨o, -, hs'⟩
  · cases her
  · rw [checkStruct_id hrun]
    exact ⟨_, by rw [hs']; exact if_pos rfl, rfl⟩

end Marked

/-- From a checked object, the way up marks only checked objects. -/
theorem Marked.uplink {M : SemMethods} : ∀ (fuel : Nat) {D : List Nat} {object : SemHandle},
    object.id ∈ D → Run.Keeps (Marked D) (repairSemanticUplink M fuel object)
  | 0, _, _, _ => Run.Keeps.hang
  | fuel + 1, D, object, hobject => by
    have hI := Marked.stable D
    rw [repairSemanticUplink]
    cases object.parent with
    | none => exact Run.Keeps.ret _
    | some id =>
      dsimp only
      refine Run.Keeps.bind (hI.obtain id) fun found => ?_
      cases found with
      | none => exact Run.Keeps.bind (hI.detachLost trivial) fun _ => Run.Keeps.ret _
      | some parent =>
        dsimp only
        refine Run.Keeps.bind (semObj_keeps _) fun p => ?_
        split
        · exact Run.Keeps.bind (hI.detachLost trivial) fun _ => Run.Keeps.ret _
        · split
          · exact hI.uplinkChecked trivial trivial
          · refine Run.Keeps.bind_then (J := fun above => Marked (above.id :: D))
              (hI.checkStruct trivial) (fun s above s' h hrun => h.checkStruct hrun) ?_ ?_
            · intro above
              have hI' := Marked.stable (above.id :: D)
              have hmem : object.id ∈ above.id :: D := List.mem_cons_of_mem _ hobject
              refine Run.Keeps.bind (hI'.uplinkEntry trivial) fun _ => ?_
              refine Run.Keeps.bind (Marked.mark hmem true) fun _ => ?_
              refine Run.Keeps.bind (Marked.uplink fuel List.mem_cons_self).attempt fun found => ?_
              refine Run.Keeps.bind (Marked.mark hmem false) fun _ => ?_
              exact uplinkResult_keeps found
            · exact fun above s h => ⟨h.1, fun d hd => h.2 d (List.mem_cons_of_mem _ hd)⟩

/-- The pass keeps the rule that an object is marked `ATTACHING` after it was checked. -/
theorem AttachingChecked.uplink {M : SemMethods} {fuel : Nat} {object : SemHandle} {s s' : Sem}
    {r : Except Errno (Option SemHandle)} (hs : AttachingChecked s) (hobject : Checked object.id s)
    (hrun : (repairSemanticUplink M fuel object).run s = some (r, s')) : AttachingChecked s' :=
  (Marked.uplink (D := [object.id]) fuel List.mem_cons_self s r s'
    ⟨hs, List.forall_mem_singleton.mpr hobject⟩ hrun).1

/-! ## When the name is restored -/

section Restored

variable {M : SemMethods} {s s' : Sem}

theorem readdir_ok {object : Nat} : ∀ {es : List SemEntry} {s : Sem} {found : Bool},
    (uplinkReaddir object es).run s = some (.ok found, s') →
      (found = true ↔ ∃ e ∈ es, e.object ≠ object)
  | [], s, found, h => by
    obtain ⟨_, s1, -, h2⟩ := Run.bind_ok.mp h
    cases h2
    simp
  | e :: rest, s, found, h => by
    rw [uplinkReaddir] at h
    obtain ⟨_, s1, -, h2⟩ := Run.bind_ok.mp h
    split at h2
    · rename_i hne
      cases h2
      exact iff_of_true rfl ⟨e, List.mem_cons_self, hne⟩
    · rename_i heq
      rw [readdir_ok h2]
      simp only [List.exists_mem_cons_iff, heq, false_or]

/-- What the entry check leaves of the parent: its own entries, or, where all of these point to the
    object, one more. -/
inductive EntryMade (object : Nat) (es : List SemEntry) : List SemEntry → Prop
  | found : (∃ e ∈ es, e.object ≠ object) → EntryMade object es es
  | added (l₁ l₂ : List SemEntry) : (∀ e ∈ es, e.object = object) →
      (∀ e ∈ es, e.name ≠ repairSemanticLostName object) → es = l₁ ++ l₂ →
      EntryMade object es (l₁ ++ ⟨repairSemanticLostName object, object⟩ :: l₂)

theorem uplinkEntry_ok {object parent : Nat} {p : SemObj} (hp : Holds parent p s) {u : Unit}
    (h : (uplinkEntry M object parent).run s = some (.ok u, s')) :
    ∃ es, EntryMade object p.entries es ∧ Holds parent { p with entries := es } s' := by
  unfold uplinkEntry at h
  rw [Run.bind_of_ok (semObj_run hp)] at h
  split at h
  · cases h
  · obtain ⟨found, s1, hread, h2⟩ := Run.bind_ok.mp h
    have hp1 : Holds parent p s1 := (Holds.stable parent p).readdir _ _ s _ s1 hp hread
    have hfound := readdir_ok hread
    split at h2
    · rename_i htrue
      cases h2
      exact ⟨p.entries, .found (hfound.mp htrue), hp1⟩
    · rename_i hfalse
      have hall : ∀ e ∈ p.entries, e.object = object := by
        intro e he
        by_contra hne
        exact hfalse (hfound.mpr ⟨e, he, hne⟩)
      rcases addEntry_cases h2 with ⟨⟨er, her⟩, -⟩ | ⟨-, o, l₁, l₂, ho, hfresh, hl, hs'⟩
      · cases her
      · obtain rfl : p = o := Option.some.inj (hp1.symm.trans ho)
        refine ⟨_, .added l₁ l₂ hall hfresh hl, ?_⟩
        show s'.objs parent = _
        rw [hs']
        exact if_pos rfl

theorem EntryMade.find_dotdot {object : Nat} {es es' : List SemEntry} (h : EntryMade object es es') :
    es'.find? SemEntry.isDotdot = es.find? SemEntry.isDotdot := by
  cases h with
  | found _ => rfl
  | added l₁ l₂ _ _ hl =>
    rw [hl, List.find?_append, List.find?_append, List.find?_cons_of_neg]
    simp [lostName_isDotdot]

/-- Was the name of the object restored, where the parent had the entries `es`? -/
def NameRestored (object : Nat) (es : List SemEntry) (p : SemObj) : Prop :=
  ((∃ e ∈ es, e.object = object) → ∃ e ∈ p.entries, e.object = object ∧ e ∈ es) ∧
    ((¬ ∃ e ∈ es, e.object = object) → ⟨repairSemanticLostName object, object⟩ ∈ p.entries)

/-- With the entries made and the ".." gone, the name is there exactly when the parent was empty or
    another entry than its ".." points to the object. -/
theorem EntryMade.restored_iff {object : Nat} {es es' : List SemEntry} (h : EntryMade object es es')
    {p : SemObj}
    (hp : ∀ e, e.object = object → (e ∈ p.entries ↔ e ∈ es'.eraseP SemEntry.isDotdot)) :
    NameRestored object es p ↔ es = [] ∨ ∃ e ∈ es.eraseP SemEntry.isDotdot, e.object = object := by
  have hsub : ∀ {e}, e ∈ es.eraseP SemEntry.isDotdot → e ∈ es := List.mem_of_mem_eraseP
  cases h with
  | found hother =>
    have hnil : es ≠ [] := by
      rintro rfl
      obtain ⟨e, he, -⟩ := hother
      cases he
    constructor
    · rintro ⟨hold, hnew⟩
      by_cases hex : ∃ e ∈ es, e.object = object
      · obtain ⟨e, hep, he, -⟩ := hold hex
        exact .inr ⟨e, (hp e he).mp hep, he⟩
      · exact absurd ⟨_, hsub ((hp _ rfl).mp (hnew hex)), rfl⟩ hex
    · rintro (hes | ⟨e, hes, he⟩)
      · exact absurd hes hnil
      · exact ⟨fun _ => ⟨e, (hp e he).mpr hes, he, hsub hes⟩, fun hex => absurd ⟨e, hsub hes, he⟩ hex⟩
  | added l₁ l₂ hall hfresh hl =>
    have hp' : ∀ e, e.object = object → (e ∈ p.entries ↔
        e = ⟨repairSemanticLostName object, object⟩ ∨ e ∈ es.eraseP SemEntry.isDotdot) := by
      intro e he
      rw [hp e he, mem_eraseP_insert (lostName_isDotdot object object), ← hl]
    constructor
    · rintro ⟨hold, -⟩
      rcases List.eq_nil_or_concat es with hes | ⟨l, x, hes⟩
      · exact .inl hes
      · have hx : x ∈ es := by simp [hes]
        obtain ⟨e, hep, he, heses⟩ := hold ⟨x, hx, hall x hx⟩
        rcases (hp' e he).mp hep with rfl | her
        · exact absurd rfl (hfresh _ heses)
        · exact .inr ⟨e, her, he⟩
    · rintro (rfl | ⟨e, hes, he⟩)
      · refine ⟨?_, fun _ => (hp' _ rfl).mpr (.inl rfl)⟩
        rintro ⟨e, he, -⟩
        cases he
      · exact ⟨fun _ => ⟨e, (hp' e he).mpr (.inr hes), he, hsub hes⟩,
          fun hex => absurd ⟨e, hsub hes, he⟩ hex⟩

theorem checkStruct_ok {h h' : SemHandle} {p : SemObj} (hp : Holds h.id p s) (hdir : p.isDir = true)
    (hrun : (repairSemanticCheckStruct M h).run s = some (.ok h', s')) :
    Holds h.id { p with entries := M.checkStruct p, checked := true } s' ∧
      M.lookupFails h.id = false ∧
      h'.parent = ((M.checkStruct p).find? SemEntry.isDotdot).map SemEntry.object := by
  unfold repairSemanticCheckStruct at hrun
  rw [Run.bind_of_ok (semObj_run hp)] at hrun
  obtain ⟨_, s1, -, h2⟩ := Run.bind_ok.mp hrun
  obtain ⟨_, s2, hset, h3⟩ := Run.bind_ok.mp h2
  cases hset
  rw [if_pos hdir] at h3
  have hp2 : Holds h.id { p with entries := M.checkStruct p, checked := true }
      (s1.setObj h.id { p with entries := M.checkStruct p, checked := true }) := if_pos rfl
  obtain rfl := refresh_state h3
  exact ⟨hp2, refresh_ok hp2 hdir h3⟩

/-- A checked object knows its parent, and an unchecked directory is found for it.  When the way up
    returns without an error, the name of the object is restored exactly where the parent was empty
    or another entry than its ".." points to the object. -/
theorem repairSemanticUplink_restores_iff {fuel kp : Nat} {object parent : SemHandle} {child p : SemObj}
    {s1 : Sem} {found : Option SemHandle} (hs : AttachingChecked s)
    (hchild : s.objs object.id = some child) (hchecked : child.checked = true)
    (hknows : object.parent = some kp) (hp : s.objs kp = some p) (hdir : p.isDir = true)
    (hnew : p.checked = false)
    (hfound : (repairObjectObtain M kp).run s = some (.ok (some parent), s1))
    (hrun : (repairSemanticUplink M fuel object).run s = some (.ok found, s')) :
    (∃ p', s'.objs kp = some p' ∧ NameRestored object.id (M.checkStruct p) p') ↔
      M.checkStruct p = [] ∨
        ∃ e ∈ (M.checkStruct p).eraseP SemEntry.isDotdot, e.object = object.id := by
  have hne : kp ≠ object.id := by
    rintro rfl
    obtain rfl : child = p := Option.some.inj (hchild.symm.trans hp)
    simp [hnew] at hchecked
  have hattaching : p.attaching = false := by
    by_contra ha
    simp [hs kp p hp (by simpa using ha)] at hnew
  cases fuel with
  | zero => cases hrun
  | succ fuel =>
    rw [repairSemanticUplink, hknows] at hrun
    dsimp only at hrun
    rw [Run.bind_of_ok hfound] at hrun
    dsimp only at hrun
    obtain rfl : parent.id = kp := obtain_id hfound
    have hp1 : Holds parent.id p s1 := (Holds.stable _ p).obtain _ s _ s1 hp hfound
    have hchild1 : Holds object.id child s1 := (Holds.stable _ child).obtain _ s _ s1 hchild hfound
    rw [Run.bind_of_ok (semObj_run hp1)] at hrun
    simp only [hattaching, hnew, Bool.false_eq_true, if_false] at hrun
    obtain ⟨above, s2, hcheck, h3⟩ := Run.bind_ok.mp hrun
    obtain ⟨_, s3, hentry, h4⟩ := Run.bind_ok.mp h3
    obtain ⟨_, s4, hmark, h5⟩ := Run.bind_ok.mp h4
    obtain ⟨up, s5, hup, h6⟩ := Run.bind_ok.mp h5
    obtain ⟨_, s6, hclear, h7⟩ := Run.bind_ok.mp h6
    have hid : above.id = parent.id := checkStruct_id hcheck
    obtain ⟨hp2, hlookup, habove⟩ := checkStruct_ok hp1 hdir hcheck
    have hchild2 := (Holds.stable _ child).checkStruct hne s1 _ s2 hchild1 hcheck
    rw [← hid] at hp2
    have habovene : above.id ≠ object.id := by rwa [hid]
    obtain ⟨es, hmade, hp3⟩ := uplinkEntry_ok hp2 hentry
    have hchild3 := (Holds.stable _ child).uplinkEntry habovene s2 _ s3 hchild2 hentry
    have hp4 := Holds.mark habovene.symm true s3 _ s4 hp3 hmark
    have hchild4 := mark_holds hchild3 hmark
    obtain ⟨rfl, upper, rfl⟩ := uplinkResult_ok h7
    -- the rest of the way up, with the object marked
    have hshows : Shows above.id object.id (es.eraseP SemEntry.isDotdot) s5 := by
      rw [Run.run_attempt] at hup
      obtain ⟨⟨r, s7⟩, hrest, hr⟩ := Option.map_eq_some_iff.mp hup
      cases hr
      refine uplink_shows hp4 hdir (by rwa [hid]) rfl ?_ hchild4 rfl habovene hrest
      rw [habove, hmade.find_dotdot]
    obtain ⟨p', hp', hes⟩ := Shows.mark habovene.symm false s5 _ s6 hshows hclear
    rw [← hmade.restored_iff hes, ← hid]
    constructor
    · rintro ⟨q, hq, hrestored⟩
      obtain rfl : p' = q := Option.some.inj (hp'.symm.trans hq)
      exact hrestored
    · intro hrestored
      exact ⟨p', hp', hrestored⟩

end Restored

/-! ## A directory with its own "." -/

/-- An object plugin that accepts every object as it is. -/
def plainMethods : SemMethods where
  recognize _ := .object
  checkStruct o := o.entries
  lookupFails _ := false
  slot es _ := es.length

/-- File 10 was checked, directory 20 was not. -/
def lostFile (es : List SemEntry) : Sem where
  objs i :=
    if i = 10 then some ⟨false, [], true, false⟩
    else if i = 20 then some ⟨true, es, false, false⟩
    else none
  lost := 3
  answers := []

theorem lostFile_attachingChecked (es : List SemEntry) : AttachingChecked (lostFile es) := by
  intro id o ho ha
  simp only [lostFile] at ho
  split at ho
  · cases ho
    rfl
  · split at ho
    · cases ho
      cases ha
    · cases ho

/-- The loop leaves at ".", which points to the directory: the file gets no name. -/
theorem repairSemanticUplink_no_name :
    ∃ s' p', (repairSemanticUplink plainMethods 2 ⟨10, some 20⟩).run (lostFile [⟨".", 20⟩]) =
        some (.ok (some ⟨20, none⟩), s') ∧
      s'.objs 20 = some p' ∧ ¬ NameRestored 10 [⟨".", 20⟩] p' := by
  refine ⟨_, ⟨true, [⟨".", 20⟩], true, false⟩, rfl, rfl, ?_⟩
  rintro ⟨-, hnew⟩
  have h := hnew (by simp)
  simp at h

theorem repairSemanticUplink_keeps_name :
    ∃ s', (repairSemanticUplink plainMethods 2 ⟨10, some 20⟩).run
        (lostFile [⟨".", 20⟩, ⟨"name", 10⟩]) = some (.ok (some ⟨20, none⟩), s') ∧
      ∃ p', s'.objs 20 = some p' ∧ NameRestored 10 [⟨".", 20⟩, ⟨"name", 10⟩] p' := by
  have hmem : (⟨"name", 10⟩ : SemEntry) ∈
      [(⟨".", 20⟩ : SemEntry), ⟨"name", 10⟩].eraseP SemEntry.isDotdot := by decide
  obtain ⟨s', hrun⟩ : ∃ s', (repairSemanticUplink plainMethods 2 ⟨10, some 20⟩).run
      (lostFile [⟨".", 20⟩, ⟨"name", 10⟩]) = some (.ok (some ⟨20, none⟩), s') := ⟨_, rfl⟩
  exact ⟨s', hrun, (repairSemanticUplink_restores_iff (lostFile_attachingChecked _) rfl rfl rfl rfl rfl
    rfl rfl hrun).mpr (.inr ⟨_, hmem, rfl⟩)⟩

end Reiser4.Repair
