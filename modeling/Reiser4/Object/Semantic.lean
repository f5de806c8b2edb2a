/-
  The resolution of paths (`reiser4_semantic_open`, `aux_parse_path`, `sym40_follow`).

  A path is copied to a buffer of `MAX_PATH` bytes and taken apart at its slashes; each name is looked
  up in the object found last, and a symlink met is followed by opening its target from the directory
  it was found in, by the same routine.  What a namespace means is the relation `Resolves`.

  A path that fills the buffer leaves it without its end, a symlink that cannot be followed is closed
  twice, and a name is looked up in whatever was found, though only directories have the method: all
  three are undefined.  Nothing bounds the symlinks that are followed.

    1. `walk_ok`, `walk_fail`   what a run that ends says about the namespace;
    2. `resolves_walk`          enough fuel finds what there is to be found;
    3. `semanticOpen_iff`       when path resolution does what it should.
-/
import Mathlib.Tactic.Common

namespace Reiser4.Semantic

/-! ## The namespace -/

/-- A string without the zero that ends it; also a name. -/
abbrev Str := List UInt8

/-- An object: a directory with its lookup method, a symlink with its target (`none` when it cannot be
    read), or another, which has neither a lookup nor a follow method. -/
inductive Obj (κ : Type)
  | dir (lookup : Str → Option κ)
  | link (target : Option Str)
  | other

/-- `plug->follow`. -/
def Obj.isLink {κ : Type} : Obj κ → Bool
  | .link _ => true
  | _ => false

/-- The objects by the keys of their stat data, as `reiser4_object_obtain` opens them, and the root. -/
structure Namespace (κ : Type) where
  root : κ
  object : κ → Option (Obj κ)

/-- How a routine ends: with a result, with an error, in undefined behaviour, or not within its fuel. -/
inductive Res (α : Type)
  | ok (a : α)
  | fail
  | undefined
  | running
  deriving DecidableEq, Repr

namespace Res

variable {α β : Type}

def bind (x : Res α) (f : α → Res β) : Res β :=
  match x with
  | .ok a => f a
  | .fail => .fail
  | .undefined => .undefined
  | .running => .running

/-- An object or NULL. -/
def ofOption : Option α → Res α
  | some a => .ok a
  | none => .fail

theorem bind_ok {x : Res α} {f : α → Res β} {b : β} (h : x.bind f = .ok b) :
    ∃ a, x = .ok a ∧ f a = .ok b := by
  cases x with
  | ok a => exact ⟨a, rfl, h⟩
  | fail => cases h
  | undefined => cases h
  | running => cases h

theorem bind_fail {x : Res α} {f : α → Res β} (h : x.bind f = .fail) :
    x = .fail ∨ ∃ a, x = .ok a ∧ f a = .fail := by
  cases x with
  | ok a => exact Or.inr ⟨a, rfl, h⟩
  | fail => exact Or.inl rfl
  | undefined => cases h
  | running => cases h

end Res

/-! ## Taking a path apart -/

/-- The slash. -/
def slash : UInt8 := 47

/-- `MAX_PATH`. -/
def maxPath : Nat := 1024

/-- What `aal_strsep` gives one by one: the pieces between the slashes. -/
def pieces : Str → List Str
  | [] => [[]]
  | c :: cs =>
    if c = slash then [] :: pieces cs
    else
      match pieces cs with
      | [] => [[c]]
      | p :: ps => (c :: p) :: ps

/-- The loop of `aux_parse_path`, with the pieces behind `pointer`; `step` is what is done for an entry,
    `post_func` and the next `pre_func`.  In a buffer without an end the last piece has none. -/
def parseEntries {σ : Type} (ended : Bool) (step : Str → σ → Res σ) : List Str → σ → Res σ
  | [], s => .ok s
  | [entry], s =>
    if ended = false then .undefined
    else if entry = [] then .ok s
    else step entry s
  | entry :: rest, s =>
    if entry ≠ [] then (step entry s).bind (parseEntries ended step rest)
    else if ended = false then .undefined
    else if rest = [[]] then .ok s
    else parseEntries ended step rest s

/-! ## Opening a path -/

section Open

variable {κ : Type} (ns : Namespace κ)

/-- `resolve_t`: the parent, if there is one, and the object. -/
structure Resolve (κ : Type) where
  parent : Option κ
  object : κ

/-- `cb_find_statdata`, with what `sym40_follow` calls: the object at `key`, or the one a symlink there
    leads to.  When the follow method fails the object is closed a second time. -/
def cbFindStatdata (resolve : κ → Str → Res κ) (follow : Bool) (parent : Option κ) (key : κ) :
    Res (Resolve κ) :=
  match ns.object key with
  | none => .fail
  | some (.link target) =>
    if follow = false then .ok ⟨parent, key⟩
    else
      match target with
      | none => .undefined
      | some path =>
        match resolve (parent.getD ns.root) path with
        | .ok key => if (ns.object key).isSome then .ok ⟨parent, key⟩ else .fail
        | .fail => .undefined
        | .undefined => .undefined
        | .running => .running
  | some _ => .ok ⟨parent, key⟩

/-- `cb_find_entry`: the directory becomes the parent, and the key found is the next to open; an object
    that is no directory has no lookup method. -/
def cbFindEntry (name : Str) (r : Resolve κ) : Res (Resolve κ) :=
  match ns.object r.object with
  | some (.dir lookup) =>
    match lookup name with
    | none => .fail
    | some key => .ok ⟨some r.object, key⟩
  | _ => .undefined

/-- What is done for one name. -/
def parseStep (resolve : κ → Str → Res κ) (follow : Bool) (name : Str) (r : Resolve κ) : Res (Resolve κ) :=
  (cbFindEntry ns name r).bind fun r => cbFindStatdata ns resolve follow r.parent r.object

/-- The key a path starts from, and the string behind the slash of an absolute path. -/
def startOf (start : κ) : Str → κ × Str
  | [] => (start, [])
  | c :: cs => if c = slash then (ns.root, cs) else (start, c :: cs)

/-- `reiser4_semantic_open_object`: the key of the object; the fuel bounds the depth of the symlinks. -/
def semanticOpenObject : Nat → Bool → Option κ → Str → Res κ
  | 0, _, _, _ => .running
  | fuel + 1, follow, start, path =>
    let buffer := startOf ns (start.getD ns.root) (path.take maxPath)
    let resolve := fun key path => semanticOpenObject fuel true (some key) path
    (cbFindStatdata ns resolve follow none buffer.1).bind fun r =>
      (parseEntries (decide (path.length < maxPath)) (parseStep ns resolve follow) (pieces buffer.2) r).bind
        fun r => .ok r.object

/-- `reiser4_semantic_open`. -/
def semanticOpen (fuel : Nat) (start : Option κ) (path : Str) (follow : Bool) : Res κ :=
  semanticOpenObject ns fuel follow start path

/-! ## What a path means -/

/-- The components of a path. -/
def components (path : Str) : List Str := (pieces path).filter fun p => decide (p ≠ [])

/-- **Component by component**: the object at `key` is opened, a symlink by resolving its target from
    the directory it is in, and each name is looked up in the directory found last.  `fits` restricts the
    targets. -/
inductive Resolves (fits : Str → Prop) : Option κ → κ → List Str → κ → Prop
  | found {parent : Option κ} {key : κ} {o : Obj κ} (h : ns.object key = some o) (hl : o.isLink = false) :
    Resolves fits parent key [] key
  | entry {parent : Option κ} {key key' k : κ} {lookup : Str → Option κ} {name : Str} {names : List Str}
    (h : ns.object key = some (.dir lookup)) (hentry : lookup name = some key')
    (hrest : Resolves fits (some key) key' names k) : Resolves fits parent key (name :: names) k
  | link {parent : Option κ} {key key' k : κ} {path : Str} {names : List Str}
    (h : ns.object key = some (.link (some path))) (hfits : fits path)
    (hfollow : Resolves fits none (startOf ns (parent.getD ns.root) path).1
      (components (startOf ns (parent.getD ns.root) path).2) key')
    (hrest : Resolves fits parent key' names k) : Resolves fits parent key names k

/-- The object a path leads to. -/
def PathTo (start : Option κ) (path : Str) (k : κ) : Prop :=
  Resolves ns (fun _ => True) none (startOf ns (start.getD ns.root) path).1
    (components (startOf ns (start.getD ns.root) path).2) k

/-- **Path resolution is right**: it ends, with the object the path leads to, or with an error when
    there is none. -/
def OpensPath (start : Option κ) (path : Str) : Prop :=
  ∃ r : Option κ, (∃ enough, ∀ fuel, enough ≤ fuel → semanticOpen ns fuel start path true = .ofOption r) ∧
    ∀ k, r = some k ↔ PathTo ns start path k

/-- A string that is shorter than the buffer. -/
def Fits (path : Str) : Prop := path.length < maxPath

/-- **No step is undefined.**  A symlink met leads to an object, by targets that are shorter than the
    buffer; the names are looked up in directories, up to a key without an object, a name that is not
    there, or the end, which a buffer must have. -/
inductive Handled (ended : Bool) : Option κ → κ → List Str → Prop
  | missing {parent : Option κ} {key : κ} {names : List Str} (h : ns.object key = none) :
    Handled ended parent key names
  | last {parent : Option κ} {key k : κ} (hended : ended = true) (h : Resolves ns Fits parent key [] k) :
    Handled ended parent key []
  | noEntry {parent : Option κ} {key k : κ} {lookup : Str → Option κ} {name : Str} {names : List Str}
    (h : Resolves ns Fits parent key [] k) (hdir : ns.object k = some (.dir lookup))
    (hentry : lookup name = none) : Handled ended parent key (name :: names)
  | entry {parent : Option κ} {key k key' : κ} {lookup : Str → Option κ} {name : Str} {names : List Str}
    (h : Resolves ns Fits parent key [] k) (hdir : ns.object k = some (.dir lookup))
    (hentry : lookup name = some key') (hrest : Handled ended (some k) key' names) :
    Handled ended parent key (name :: names)

/-- The names of a buffer: all of them, or those before an empty one and before the last, which has no
    end. -/
def namesOf (ended : Bool) (ps : List Str) : List Str :=
  if ended then ps.filter fun p => decide (p ≠ []) else ps.dropLast.takeWhile fun p => decide (p ≠ [])

end Open

/-! ## The pieces -/

/-- The loop over the names of a buffer. -/
def namesLoop {σ : Type} (ended : Bool) (step : Str → σ → Res σ) : List Str → σ → Res σ
  | [], s => if ended then .ok s else .undefined
  | name :: names, s => (step name s).bind (namesLoop ended step names)

theorem Res.bind_ok_right {α : Type} (x : Res α) : x.bind .ok = x := by
  cases x <;> rfl

theorem Res.bind_assoc {α β γ : Type} (x : Res α) (f : α → Res β) (g : β → Res γ) :
    (x.bind f).bind g = x.bind fun a => (f a).bind g := by
  cases x <;> rfl

theorem pieces_ne_nil : ∀ path : Str, pieces path ≠ []
  | [] => List.cons_ne_nil _ _
  | c :: cs => by
    rw [pieces]
    split
    · exact List.cons_ne_nil _ _
    · split <;> exact List.cons_ne_nil _ _

/-- With its end, a buffer gives its names. -/
theorem parseEntries_ended {σ : Type} (step : Str → σ → Res σ) : ∀ (ps : List Str) (s : σ),
    parseEntries true step ps s = namesLoop true step (namesOf true ps) s
  | [], s => rfl
  | [entry], s => by
    by_cases he : entry = []
    · simp [parseEntries, namesOf, namesLoop, he]
    · have hb : (step entry s).bind (fun s => .ok s) = step entry s := Res.bind_ok_right _
      simp [parseEntries, namesOf, namesLoop, he, hb]
  | entry :: e :: rest, s => by
    have ih := parseEntries_ended step (e :: rest)
    rw [parseEntries]
    by_cases he : entry = []
    · rw [if_neg (not_not_intro he), if_neg Bool.true_eq_false.mp]
      split
      · next hr => simp [namesOf, namesLoop, he, hr]
      · rw [ih]
        simp [namesOf, he]
    · rw [if_pos he]
      have hnames : namesOf true (entry :: e :: rest) = entry :: namesOf true (e :: rest) := by
        simp [namesOf, he]
      rw [hnames, namesLoop]
      exact congrArg _ (funext ih)
    · exact fun h => by cases h

/-- Without it, those before its last piece that come before an empty one. -/
theorem parseEntries_cut {σ : Type} (step : Str → σ → Res σ) : ∀ (ps : List Str) (s : σ), ps ≠ [] →
    parseEntries false step ps s = namesLoop false step (namesOf false ps) s
  | [], s, h => absurd rfl h
  | [entry], s, _ => rfl
  | entry :: e :: rest, s, _ => by
    have ih := fun s => parseEntries_cut step (e :: rest) s (List.cons_ne_nil _ _)
    rw [parseEntries]
    by_cases he : entry = []
    · rw [if_neg (not_not_intro he), if_pos rfl]
      simp [namesOf, namesLoop, he]
    · rw [if_pos he]
      have hnames : namesOf false (entry :: e :: rest) = entry :: namesOf false (e :: rest) := by
        simp [namesOf, he]
      rw [hnames, namesLoop]
      exact congrArg _ (funext ih)
    · exact fun h => by cases h

theorem parseEntries_eq {σ : Type} (ended : Bool) (step : Str → σ → Res σ) {ps : List Str} (s : σ)
    (h : ps ≠ []) : parseEntries ended step ps s = namesLoop ended step (namesOf ended ps) s := by
  cases ended with
  | true => exact parseEntries_ended step ps s
  | false => exact parseEntries_cut step ps s h

/-- The pieces of the start of a string, but the last, are pieces of the string. -/
theorem pieces_prefix : ∀ a b : Str, (pieces a).dropLast <+: pieces (a ++ b)
  | [], b => List.nil_prefix
  | c :: cs, b => by
    have ih := pieces_prefix cs b
    rw [List.cons_append, pieces, pieces]
    split
    · rw [List.dropLast_cons_of_ne_nil (pieces_ne_nil cs)]
      exact List.cons_prefix_cons.mpr ⟨rfl, ih⟩
    · cases ha : pieces cs with
      | nil => exact absurd ha (pieces_ne_nil cs)
      | cons p ps =>
        cases hb : pieces (cs ++ b) with
        | nil => exact absurd hb (pieces_ne_nil _)
        | cons q qs =>
          rw [ha, hb] at ih
          cases ps with
          | nil => exact List.nil_prefix
          | cons p' ps =>
            obtain ⟨rfl, hps⟩ := List.cons_prefix_cons.mp ih
            exact List.cons_prefix_cons.mpr ⟨rfl, hps⟩

/-- The names of a buffer come first among the components of its path. -/
theorem namesOf_prefix (ended : Bool) (a b : Str) (h : ended = true → b = []) :
    namesOf ended (pieces a) <+: components (a ++ b) := by
  cases ended with
  | true =>
    rw [h rfl, List.append_nil]
    exact List.prefix_rfl
  | false =>
    obtain ⟨rest, hrest⟩ := pieces_prefix a b
    have htake : ∀ l : List Str, (l.takeWhile fun p => decide (p ≠ [])) <+:
        l.filter fun p => decide (p ≠ []) := by
      intro l
      induction l with
      | nil => exact List.nil_prefix
      | cons p l ih =>
        by_cases hp : p = []
        · simp [hp]
        · simpa [hp] using ih
    unfold components
    rw [← hrest, List.filter_append]
    exact (htake _).trans (List.prefix_append _ _)

/-! ## The relation -/

section Relation

variable {κ : Type} {ns : Namespace κ} {fits : Str → Prop}

/-- What a path leads to is an object, and no symlink. -/
theorem Resolves.plain {parent : Option κ} {key k : κ} {names : List Str}
    (h : Resolves ns fits parent key names k) : ∃ o, ns.object k = some o ∧ o.isLink = false := by
  induction h with
  | found h hl => exact ⟨_, h, hl⟩
  | entry _ _ _ ih => exact ih
  | link _ _ _ _ _ ih => exact ih

/-- There is an object at the key. -/
theorem Resolves.object {parent : Option κ} {key k : κ} {names : List Str}
    (h : Resolves ns fits parent key names k) (hnone : ns.object key = none) : False := by
  cases h with
  | found h => exact absurd (hnone.symm.trans h) nofun
  | entry h => exact absurd (hnone.symm.trans h) nofun
  | link h => exact absurd (hnone.symm.trans h) nofun

theorem Resolves.mono {fits' : Str → Prop} (hf : ∀ path, fits path → fits' path) {parent : Option κ}
    {key k : κ} {names : List Str} (h : Resolves ns fits parent key names k) :
    Resolves ns fits' parent key names k := by
  induction h with
  | found h hl => exact .found h hl
  | entry h hentry _ ih => exact .entry h hentry ih
  | link h hfits _ _ ih1 ih2 => exact .link h (hf _ hfits) ih1 ih2

/-- The object a key opens, and then a name. -/
theorem Resolves.into {parent : Option κ} {key cur key' k : κ} {lookup : Str → Option κ} {name : Str}
    {names : List Str} (h : Resolves ns fits parent key [] cur) (hdir : ns.object cur = some (.dir lookup))
    (hentry : lookup name = some key') (hrest : Resolves ns fits (some cur) key' names k) :
    Resolves ns fits parent key (name :: names) k := by
  generalize hnil : ([] : List Str) = none' at h
  induction h with
  | found h hl => exact .entry hdir hentry hrest
  | entry => cases hnil
  | link h hfits hfollow _ _ ih => exact .link h hfits hfollow (ih hdir hrest hnil)

/-- Before a name there is a directory. -/
theorem Resolves.split {parent : Option κ} {key k : κ} {name : Str} {names : List Str}
    (h : Resolves ns fits parent key (name :: names) k) : ∃ cur lookup key',
      Resolves ns fits parent key [] cur ∧ ns.object cur = some (.dir lookup) ∧
      lookup name = some key' ∧ Resolves ns fits (some cur) key' names k := by
  generalize hall : name :: names = all at h
  induction h with
  | found => cases hall
  | @entry parent key key' k lookup name' names' h hentry hrest _ =>
    obtain ⟨rfl, rfl⟩ := List.cons.inj hall
    exact ⟨key, lookup, key', .found h rfl, h, hentry, hrest⟩
  | link h hfits hfollow _ _ ih =>
    obtain ⟨cur, lookup, key', hcur, hdir, hentry, hrest⟩ := ih hall
    exact ⟨cur, lookup, key', .link h hfits hfollow hcur, hdir, hentry, hrest⟩

/-- **A path leads to one object.** -/
theorem Resolves.unique {parent : Option κ} {key k k' : κ} {names : List Str}
    (h : Resolves ns fits parent key names k) (h' : Resolves ns fits parent key names k') : k = k' := by
  induction h generalizing k' with
  | found h hl =>
    cases h' with
    | found => rfl
    | link h2 =>
      rw [h] at h2
      obtain rfl := Option.some.inj h2
      cases hl
  | entry h hentry _ ih =>
    cases h' with
    | entry h2 hentry2 hrest2 =>
      rw [h] at h2
      injection Option.some.inj h2 with hl
      rw [← hl, hentry] at hentry2
      exact ih (Option.some.inj hentry2 ▸ hrest2)
    | link h2 =>
      rw [h] at h2
      cases Option.some.inj h2
  | link h hfits _ _ ih1 ih2 =>
    cases h' with
    | found h2 hl2 =>
      rw [h] at h2
      obtain rfl := Option.some.inj h2
      cases hl2
    | entry h2 =>
      rw [h] at h2
      cases Option.some.inj h2
    | link h2 _ hfollow2 hrest2 =>
      rw [h] at h2
      injection Option.some.inj h2 with hp
      obtain rfl := Option.some.inj hp
      obtain rfl := ih1 hfollow2
      exact ih2 hrest2

end Relation

/-! ## What a run says -/

section Walk

variable {κ : Type} {ns : Namespace κ}

/-- The object at a key is opened, and the names are looked up one behind another. -/
def walk (ns : Namespace κ) (resolve : κ → Str → Res κ) (ended : Bool) (parent : Option κ) (key : κ)
    (names : List Str) : Res κ :=
  (cbFindStatdata ns resolve true parent key).bind fun r =>
    (namesLoop ended (parseStep ns resolve true) names r).bind fun r => .ok r.object

variable {resolve : κ → Str → Res κ} {ended : Bool} {parent : Option κ} {key : κ}

theorem walk_nil : walk ns resolve ended parent key [] =
    (cbFindStatdata ns resolve true parent key).bind fun r =>
      if ended then .ok r.object else .undefined := by
  unfold walk namesLoop
  cases ended <;> rfl

theorem walk_cons (name : Str) (names : List Str) : walk ns resolve ended parent key (name :: names) =
    (cbFindStatdata ns resolve true parent key).bind fun r =>
      (cbFindEntry ns name r).bind fun r => walk ns resolve ended r.parent r.object names := by
  unfold walk
  refine congrArg _ (funext fun r => ?_)
  show ((parseStep ns resolve true name r).bind _).bind _ = _
  unfold parseStep
  rw [Res.bind_assoc, Res.bind_assoc]

/-- `object_resolve`. -/
def resolveOf (ns : Namespace κ) (fuel : Nat) (key : κ) (path : Str) : Res κ :=
  semanticOpenObject ns fuel true (some key) path

/-- The routine is that walk, over the names of its buffer. -/
theorem semanticOpenObject_eq (fuel : Nat) (start : Option κ) (path : Str) :
    semanticOpenObject ns (fuel + 1) true start path =
      walk ns (resolveOf ns fuel) (decide (path.length < maxPath)) none
        (startOf ns (start.getD ns.root) (path.take maxPath)).1
        (namesOf (decide (path.length < maxPath))
          (pieces (startOf ns (start.getD ns.root) (path.take maxPath)).2)) := by
  unfold walk
  rw [semanticOpenObject]
  refine congrArg _ (funext fun r => ?_)
  rw [parseEntries_eq _ _ r (pieces_ne_nil _)]
  rfl

/-- What `cb_find_statdata` has opened. -/
theorem cbFindStatdata_ok {r : Resolve κ} (h : cbFindStatdata ns resolve true parent key = .ok r) :
    r.parent = parent ∧
      ((∃ o, ns.object key = some o ∧ o.isLink = false ∧ r.object = key) ∨
        ∃ path, ns.object key = some (.link (some path)) ∧
          resolve (parent.getD ns.root) path = .ok r.object) := by
  unfold cbFindStatdata at h
  split at h
  · cases h
  · next target ht =>
    rw [if_neg Bool.true_eq_false.mp] at h
    split at h
    · cases h
    · next path =>
      split at h
      · next k hk =>
        split at h
        · obtain rfl := Res.ok.inj h
          exact ⟨rfl, Or.inr ⟨path, ht, hk⟩⟩
        · cases h
      · cases h
      · cases h
      · cases h
  · next o hlink ho =>
    obtain rfl := Res.ok.inj h
    refine ⟨rfl, Or.inl ⟨o, ho, ?_, rfl⟩⟩
    cases o with
    | link target => exact absurd rfl (hlink target)
    | dir => rfl
    | other => rfl

/-- What is resolved is what a path that fits leads to. -/
def Sound (ns : Namespace κ) (resolve : κ → Str → Res κ) : Prop :=
  ∀ key path k, resolve key path = .ok k → Fits path ∧
    Resolves ns Fits none (startOf ns key path).1 (components (startOf ns key path).2) k

theorem cbFindStatdata_resolves (hs : Sound ns resolve) {r : Resolve κ}
    (h : cbFindStatdata ns resolve true parent key = .ok r) :
    r.parent = parent ∧ Resolves ns Fits parent key [] r.object := by
  obtain ⟨hp, ⟨o, ho, hl, hk⟩ | ⟨path, ho, hres⟩⟩ := cbFindStatdata_ok h
  · rw [hk]
    exact ⟨hp, .found ho hl⟩
  · obtain ⟨hfits, hfollow⟩ := hs _ _ _ hres
    obtain ⟨o', ho', hl'⟩ := hfollow.plain
    exact ⟨hp, .link ho hfits hfollow (.found ho' hl')⟩

/-- It fails where there is no object, and only there. -/
theorem cbFindStatdata_fail (hs : Sound ns resolve)
    (h : cbFindStatdata ns resolve true parent key = .fail) : ns.object key = none := by
  unfold cbFindStatdata at h
  split at h
  · next hnone => exact hnone
  · next target ht =>
    rw [if_neg Bool.true_eq_false.mp] at h
    split at h
    · cases h
    · next path =>
      split at h
      · next k hk =>
        obtain ⟨o, ho, -⟩ := (hs _ _ _ hk).2.plain
        rw [ho] at h
        cases h
      · cases h
      · cases h
      · cases h
  · cases h

theorem cbFindEntry_ok {name : Str} {r r' : Resolve κ} (h : cbFindEntry ns name r = .ok r') :
    ∃ lookup key, ns.object r.object = some (.dir lookup) ∧ lookup name = some key ∧
      r' = ⟨some r.object, key⟩ := by
  unfold cbFindEntry at h
  split at h
  · next lookup hdir =>
    split at h
    · cases h
    · next key hentry => exact ⟨lookup, key, hdir, hentry, (Res.ok.inj h).symm⟩
  · cases h

theorem cbFindEntry_fail {name : Str} {r : Resolve κ} (h : cbFindEntry ns name r = .fail) :
    ∃ lookup, ns.object r.object = some (.dir lookup) ∧ lookup name = none := by
  unfold cbFindEntry at h
  split at h
  · next lookup hdir =>
    split at h
    · next hnone => exact ⟨lookup, hdir, hnone⟩
    · cases h
  · cases h

/-- **A walk that succeeds** has found what the names lead to. -/
theorem walk_ok (hs : Sound ns resolve) : ∀ (names : List Str) (parent : Option κ) (key k : κ),
    walk ns resolve ended parent key names = .ok k →
      ended = true ∧ Resolves ns Fits parent key names k ∧ Handled ns ended parent key names
  | [], parent, key, k, h => by
    rw [walk_nil] at h
    obtain ⟨r, hr, h⟩ := Res.bind_ok h
    have hres := (cbFindStatdata_resolves hs hr).2
    split at h
    · next he =>
      obtain rfl := Res.ok.inj h
      exact ⟨he, hres, .last he hres⟩
    · cases h
  | name :: names, parent, key, k, h => by
    rw [walk_cons] at h
    obtain ⟨r, hr, h⟩ := Res.bind_ok h
    obtain ⟨r', hr', h⟩ := Res.bind_ok h
    have hres := (cbFindStatdata_resolves hs hr).2
    obtain ⟨lookup, key', hdir, hentry, rfl⟩ := cbFindEntry_ok hr'
    obtain ⟨he, hrest, hhandled⟩ := walk_ok hs names _ _ k h
    exact ⟨he, hres.into hdir hentry hrest, .entry hres hdir hentry hhandled⟩

/-- **A walk that fails** has met a key without an object or a name that is not there. -/
theorem walk_fail (hs : Sound ns resolve) : ∀ (names : List Str) (parent : Option κ) (key : κ),
    walk ns resolve ended parent key names = .fail → Handled ns ended parent key names ∧
      ∀ (more : List Str) (k : κ), ¬Resolves ns (fun _ => True) parent key (names ++ more) k
  | [], parent, key, h => by
    rw [walk_nil] at h
    rcases Res.bind_fail h with hf | ⟨r, -, h⟩
    · have hnone := cbFindStatdata_fail hs hf
      exact ⟨.missing hnone, fun more k hres => hres.object hnone⟩
    · split at h <;> cases h
  | name :: names, parent, key, h => by
    rw [walk_cons] at h
    rcases Res.bind_fail h with hf | ⟨r, hr, h⟩
    · have hnone := cbFindStatdata_fail hs hf
      exact ⟨.missing hnone, fun more k hres => hres.object hnone⟩
    · have hres := (cbFindStatdata_resolves hs hr).2
      have hres' := hres.mono (fun _ _ => True.intro)
      rcases Res.bind_fail h with hf | ⟨r', hr', h⟩
      · obtain ⟨lookup, hdir, hentry⟩ := cbFindEntry_fail hf
        refine ⟨.noEntry hres hdir hentry, fun more k hk => ?_⟩
        obtain ⟨cur, lookup', key', hcur, hdir', hentry', -⟩ := hk.split
        obtain rfl := hres'.unique hcur
        rw [hdir] at hdir'
        injection Option.some.inj hdir' with hl
        rw [← hl, hentry] at hentry'
        cases hentry'
      · obtain ⟨lookup, key', hdir, hentry, rfl⟩ := cbFindEntry_ok hr'
        obtain ⟨hhandled, hnone⟩ := walk_fail hs names _ _ h
        refine ⟨.entry hres hdir hentry hhandled, fun more k hk => ?_⟩
        obtain ⟨cur, lookup', key2, hcur, hdir', hentry', hrest⟩ := hk.split
        obtain rfl := hres'.unique hcur
        rw [hdir] at hdir'
        injection Option.some.inj hdir' with hl
        rw [← hl, hentry] at hentry'
        obtain rfl := Option.some.inj hentry'
        exact hnone more k hrest

/-- A string that fits is copied whole, with its end. -/
theorem Fits.take {path : Str} (h : Fits path) :
    path.take maxPath = path ∧ decide (path.length < maxPath) = true :=
  ⟨List.take_of_length_le (Nat.le_of_lt h), decide_eq_true (show path.length < maxPath from h)⟩

theorem resolveOf_sound : ∀ fuel : Nat, Sound ns (resolveOf ns fuel)
  | 0, _, _, _, h => by cases h
  | fuel + 1, key, path, k, h => by
    unfold resolveOf at h
    rw [semanticOpenObject_eq] at h
    obtain ⟨he, hres, -⟩ := walk_ok (resolveOf_sound fuel) _ _ _ _ h
    have hfits : Fits path := show path.length < maxPath from of_decide_eq_true he
    rw [he, hfits.take.1] at hres
    exact ⟨hfits, hres⟩

/-! ## Enough fuel -/

theorem cbFindStatdata_plain {o : Obj κ} (h : ns.object key = some o) (hl : o.isLink = false) :
    cbFindStatdata ns resolve true parent key = .ok ⟨parent, key⟩ := by
  unfold cbFindStatdata
  rw [h]
  cases o with
  | link => cases hl
  | dir => rfl
  | other => rfl

/-- **What there is to be found is found.** -/
theorem resolves_walk {names : List Str} {k : κ} (h : Resolves ns Fits parent key names k) :
    ∃ enough, ∀ fuel, enough ≤ fuel → walk ns (resolveOf ns fuel) true parent key names = .ok k := by
  induction h with
  | found h hl =>
    refine ⟨0, fun fuel _ => ?_⟩
    rw [walk_nil, cbFindStatdata_plain h hl]
    rfl
  | entry h hentry _ ih =>
    obtain ⟨enough, ih⟩ := ih
    refine ⟨enough, fun fuel hf => ?_⟩
    rw [walk_cons, cbFindStatdata_plain h rfl, Res.bind, cbFindEntry, h]
    dsimp only
    rw [hentry]
    exact ih fuel hf
  | @link parent key key' k path names h hfits hfollow _ ih1 ih2 =>
    obtain ⟨enough1, ih1⟩ := ih1
    obtain ⟨enough2, ih2⟩ := ih2
    refine ⟨max (enough1 + 1) enough2, fun fuel hf => ?_⟩
    obtain ⟨fuel, rfl⟩ : ∃ fuel', fuel = fuel' + 1 := ⟨fuel - 1, by omega⟩
    obtain ⟨o, ho, hl⟩ := hfollow.plain
    have hresolve : resolveOf ns (fuel + 1) (parent.getD ns.root) path = .ok key' := by
      unfold resolveOf
      rw [semanticOpenObject_eq, hfits.take.1, hfits.take.2]
      exact ih1 fuel (by omega)
    have hstat : cbFindStatdata ns (resolveOf ns (fuel + 1)) true parent key = .ok ⟨parent, key'⟩ := by
      unfold cbFindStatdata
      rw [h]
      dsimp only
      rw [if_neg Bool.true_eq_false.mp, hresolve]
      dsimp only
      rw [ho]
      rfl
    have hwalk := ih2 (fuel + 1) (by omega)
    unfold walk at hwalk ⊢
    rw [cbFindStatdata_plain ho hl] at hwalk
    rw [hstat]
    exact hwalk

/-- The object at a key is opened. -/
theorem resolves_opened {k : κ} (h : Resolves ns Fits parent key [] k) : ∃ enough, ∀ fuel,
    enough ≤ fuel → cbFindStatdata ns (resolveOf ns fuel) true parent key = .ok ⟨parent, k⟩ := by
  obtain ⟨enough, hwalk⟩ := resolves_walk h
  refine ⟨enough, fun fuel hf => ?_⟩
  have hw := hwalk fuel hf
  rw [walk_nil] at hw
  obtain ⟨⟨p, k'⟩, hr, hk⟩ := Res.bind_ok hw
  obtain rfl : p = parent := (cbFindStatdata_ok hr).1
  obtain rfl : k' = k := Res.ok.inj hk
  exact hr

/-- **Where no step is undefined the walk ends.** -/
theorem handled_walk {names : List Str} (h : Handled ns ended parent key names) : ∃ r : Option κ,
    ∃ enough, ∀ fuel, enough ≤ fuel → walk ns (resolveOf ns fuel) ended parent key names = .ofOption r := by
  induction h with
  | missing h =>
    refine ⟨none, 0, fun fuel _ => ?_⟩
    unfold walk cbFindStatdata
    rw [h]
    rfl
  | last hended h =>
    obtain ⟨enough, hwalk⟩ := resolves_walk h
    rw [hended]
    exact ⟨some _, enough, hwalk⟩
  | noEntry h hdir hentry =>
    obtain ⟨enough, hopened⟩ := resolves_opened h
    refine ⟨none, enough, fun fuel hf => ?_⟩
    rw [walk_cons, hopened fuel hf, Res.bind, cbFindEntry, hdir]
    dsimp only
    rw [hentry]
    rfl
  | entry h hdir hentry _ ih =>
    obtain ⟨enough1, hopened⟩ := resolves_opened h
    obtain ⟨r, enough2, hrest⟩ := ih
    refine ⟨r, max enough1 enough2, fun fuel hf => ?_⟩
    rw [walk_cons, hopened fuel (by omega), Res.bind, cbFindEntry, hdir]
    dsimp only
    rw [hentry]
    exact hrest fuel (by omega)

/-- The start of a path and what is behind its first slash, in the buffer and in the path. -/
theorem startOf_take (start : κ) (path : Str) :
    (startOf ns start (path.take maxPath)).1 = (startOf ns start path).1 ∧
      ∃ rest, (startOf ns start path).2 = (startOf ns start (path.take maxPath)).2 ++ rest ∧
        (Fits path → rest = []) := by
  cases path with
  | nil => exact ⟨rfl, [], rfl, fun _ => rfl⟩
  | cons c cs =>
    have htake : (c :: cs).take maxPath = c :: cs.take 1023 := rfl
    have hrest : Fits (c :: cs) → cs.drop 1023 = [] := fun h =>
      List.drop_eq_nil_of_le (by
        have hlen : cs.length + 1 < 1024 := h
        omega)
    rw [htake, startOf, startOf]
    by_cases hc : c = slash
    · rw [if_pos hc, if_pos hc]
      exact ⟨rfl, cs.drop 1023, (List.take_append_drop 1023 cs).symm, hrest⟩
    · rw [if_neg hc, if_neg hc]
      refine ⟨rfl, cs.drop 1023, ?_, hrest⟩
      rw [List.cons_append, List.take_append_drop]

end Walk

/-- **Path resolution is right if and only if** no step of it is undefined. -/
theorem semanticOpen_iff {κ : Type} (ns : Namespace κ) (start : Option κ) (path : Str) :
    OpensPath ns start path ↔
      Handled ns (decide (path.length < maxPath)) none (startOf ns (start.getD ns.root) path).1
        (namesOf (decide (path.length < maxPath))
          (pieces (startOf ns (start.getD ns.root) (path.take maxPath)).2)) := by
  obtain ⟨hstart, rest, hpath, hrest⟩ := @startOf_take _ ns (start.getD ns.root) path
  have hrun : ∀ fuel, semanticOpen ns (fuel + 1) start path true = _ := fun fuel =>
    semanticOpenObject_eq fuel start path
  rw [hstart] at hrun
  obtain ⟨more, hmore⟩ := namesOf_prefix (decide (path.length < maxPath))
    (startOf ns (start.getD ns.root) (path.take maxPath)).2 rest
    (fun he => hrest (show path.length < maxPath from of_decide_eq_true he))
  rw [← hpath] at hmore
  constructor
  · rintro ⟨r, ⟨enough, hr⟩, -⟩
    have h := (hrun enough).symm.trans (hr (enough + 1) (by omega))
    cases r with
    | some k => exact (walk_ok (resolveOf_sound enough) _ _ _ _ h).2.2
    | none => exact (walk_fail (resolveOf_sound enough) _ _ _ h).1
  · intro h
    obtain ⟨r, enough, hwalk⟩ := handled_walk h
    refine ⟨r, ⟨enough + 1, fun fuel hf => ?_⟩, fun k => ?_⟩
    · obtain ⟨fuel, rfl⟩ : ∃ fuel', fuel = fuel' + 1 := ⟨fuel - 1, by omega⟩
      rw [hrun]
      exact hwalk fuel (by omega)
    · have hw := hwalk enough (Nat.le_refl _)
      unfold PathTo
      rw [← hmore]
      cases r with
      | none =>
        obtain ⟨-, hnone⟩ := walk_fail (resolveOf_sound enough) _ _ _ hw
        exact ⟨nofun, fun hk => absurd hk (hnone more k)⟩
      | some k' =>
        obtain ⟨he, hres, -⟩ := walk_ok (resolveOf_sound enough) _ _ _ _ hw
        have hfits : Fits path := show path.length < maxPath from of_decide_eq_true he
        have hnil : more = [] := by
          rw [hpath, hrest hfits, List.append_nil, he] at hmore
          exact List.append_right_eq_self.mp hmore
        rw [hnil, List.append_nil]
        have hres' := hres.mono (fun _ _ => True.intro)
        refine ⟨fun hk => ?_, fun hk => congrArg some (hres'.unique hk)⟩
        obtain rfl := Option.some.inj hk
        exact hres'

/-! ## A link to nothing -/

/-- The root directory 0 with the symlink 1, called "l", to a name "x" that is not there. -/
def dangling : Namespace Nat where
  root := 0
  object key :=
    if key = 0 then some (.dir fun name => if name = [108] then some 1 else none)
    else if key = 1 then some (.link (some [120]))
    else none

/-- The symlink is closed twice, where the path leads nowhere. -/
theorem semanticOpen_dangling : ¬OpensPath dangling none [108] := by
  rintro ⟨r, ⟨enough, hr⟩, -⟩
  have hrun : semanticOpen dangling (enough + 2) none [108] true = .undefined := rfl
  have h := hrun.symm.trans (hr (enough + 2) (by omega))
  cases r <;> cases h

end Reiser4.Semantic
