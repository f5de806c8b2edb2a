/-
  The traversal of a tree (`reiser4_tree_trav`, `reiser4_tree_trav_node`).

  A node is passed to the before function, every child pointer of it to the open function, each child
  that comes back is traversed, the update function is called after it, and the after function is last.
  One result variable serves the recursion and the four functions: a negative result of a child ends
  the loop, a positive one does not; any result but zero of the before function skips the node, and of
  the update function ends its loop.

  The calls a traversal makes are its log.  `own d log` are the ones for the node `d`: they follow one
  pattern (`Calls`), and those of a child stand between the open and the update of its pointer.  Both
  need the subtrees of a node's pointers to be apart (`below_disjoint`).
-/
import Mathlib.Data.List.Nodup

namespace Reiser4.Trav

/-! ## The tree -/

/-- The place of a child pointer: the node, the item and the unit. -/
structure Ptr (ν : Type) where
  node : ν
  item : Nat
  unit : Nat
  deriving DecidableEq, Repr

/-- What `reiser4_place_open` finds: whether it is a branch item, and its units. -/
structure TravItem where
  branch : Bool
  units : Nat
  deriving DecidableEq, Repr

section Ptrs

variable {ν : Type}

/-- The child pointers of an item. -/
def unitPtrs (n : ν) (item units : Nat) : List (Ptr ν) := (List.range units).map (Ptr.mk n item)

/-- The child pointers in a list of items, the first of which is number `i`; `none` is an item that
    cannot be opened. -/
def itemPtrs (n : ν) : Nat → List (Option TravItem) → List (Ptr ν)
  | _, [] => []
  | i, none :: items => itemPtrs n (i + 1) items
  | i, some it :: items =>
    (if it.branch then unitPtrs n i it.units else []) ++ itemPtrs n (i + 1) items

theorem unitPtrs_node {n : ν} {item units : Nat} {p : Ptr ν} (h : p ∈ unitPtrs n item units) :
    p.node = n ∧ p.item = item := by
  obtain ⟨u, -, rfl⟩ := List.mem_map.mp h
  exact ⟨rfl, rfl⟩

theorem itemPtrs_node {n : ν} {p : Ptr ν} : ∀ (i : Nat) (items : List (Option TravItem)),
    p ∈ itemPtrs n i items → p.node = n ∧ i ≤ p.item
  | _, [], h => absurd h List.not_mem_nil
  | i, none :: items, h => by
    obtain ⟨hn, hi⟩ := itemPtrs_node (i + 1) items h
    exact ⟨hn, by omega⟩
  | i, some it :: items, h => by
    rcases List.mem_append.mp h with h | h
    · split at h
      · obtain ⟨hn, hi⟩ := unitPtrs_node h
        exact ⟨hn, by omega⟩
      · exact absurd h List.not_mem_nil
    · obtain ⟨hn, hi⟩ := itemPtrs_node (i + 1) items h
      exact ⟨hn, by omega⟩

theorem unitPtrs_nodup (n : ν) (item units : Nat) : (unitPtrs n item units).Nodup := by
  refine List.Nodup.map ?_ List.nodup_range
  intro u v huv
  exact congrArg Ptr.unit huv

theorem itemPtrs_nodup (n : ν) : ∀ (i : Nat) (items : List (Option TravItem)),
    (itemPtrs n i items).Nodup
  | _, [] => List.nodup_nil
  | i, none :: items => itemPtrs_nodup n (i + 1) items
  | i, some it :: items => by
    refine List.Nodup.append ?_ (itemPtrs_nodup n (i + 1) items) ?_
    · split
      · exact unitPtrs_nodup n i it.units
      · exact List.nodup_nil
    · intro p h1 h2
      have hi := (itemPtrs_node (i + 1) items h2).2
      split at h1
      · have := (unitPtrs_node h1).2
        omega
      · exact absurd h1 List.not_mem_nil

end Ptrs

/-- A tree: the items of its nodes and the nodes its child pointers lead to.  Each node but the root
    stands under one pointer, on a lower level; `loads` tells which can be loaded. -/
structure TravTree (ν : Type) where
  root : ν
  items : ν → List (Option TravItem)
  child : Ptr ν → ν
  loads : Ptr ν → Bool
  level : ν → Nat
  lower : ∀ p, p ∈ itemPtrs p.node 0 (items p.node) → level (child p) < level p.node
  inj : ∀ p q, p ∈ itemPtrs p.node 0 (items p.node) → q ∈ itemPtrs q.node 0 (items q.node) →
    child p = child q → p = q

/-- The child pointers of a node, in their order. -/
def TravTree.ptrs {ν : Type} (t : TravTree ν) (n : ν) : List (Ptr ν) := itemPtrs n 0 (t.items n)

/-! ## The traversal -/

/-- What an open function returns: `INVAL_PTR`, NULL, or the node the pointer leads to. -/
inductive OpenRes
  | invalid | absent | loaded
  deriving DecidableEq, Repr

/-- The functions of a traversal, NULL or a function on the caller's data. -/
structure TravFuncs (ν σ : Type) where
  openFunc : Option (Ptr ν → σ → OpenRes × σ)
  beforeFunc : Option (ν → σ → Int × σ)
  updateFunc : Option (Ptr ν → σ → Int × σ)
  afterFunc : Option (ν → σ → Int × σ)

/-- The calls of a traversal, and the item it could not open. -/
inductive Event (ν : Type)
  | before (n : ν) (res : Int)
  | unopened (n : ν) (item : Nat)
  | opened (p : Ptr ν) (o : OpenRes)
  | updated (p : Ptr ν) (res : Int)
  | after (n : ν) (res : Int)
  deriving DecidableEq, Repr

/-- The node a call is for. -/
def Event.node {ν : Type} : Event ν → ν
  | .before n _ => n
  | .unopened n _ => n
  | .opened p _ => p.node
  | .updated p _ => p.node
  | .after n _ => n

/-- Result, data and calls. -/
structure Out (ν σ : Type) where
  res : Int
  data : σ
  log : List (Event ν)

section Run

variable {ν σ : Type} (t : TravTree ν) (f : TravFuncs ν σ)

/-- `reiser4_tree_child_node`, for an open function that is NULL. -/
def childNode (p : Ptr ν) (s : σ) : OpenRes × σ := (if t.loads p then .loaded else .absent, s)

/-- `update`: the flag tells whether the loop ends. -/
def travUpdate (p : Ptr ν) (o : Out ν σ) : Bool × Out ν σ :=
  match f.updateFunc with
  | none => (false, o)
  | some update =>
    let (res, s) := update p o.data
    (decide (res ≠ 0), ⟨res, s, o.log ++ [.updated p res]⟩)

/-- A unit of a branch item. -/
def travUnit (visit : ν → σ → Option (Out ν σ)) (p : Ptr ν) (res : Int) (s : σ) :
    Option (Bool × Out ν σ) :=
  match (f.openFunc.getD (childNode t)) p s with
  | (.invalid, s) => some (true, ⟨res, s, [.opened p .invalid]⟩)
  | (.absent, s) => some (travUpdate f p ⟨res, s, [.opened p .absent]⟩)
  | (.loaded, s) =>
    match visit (t.child p) s with
    | none => none
    | some o =>
      let o := { o with log := .opened p .loaded :: o.log }
      if o.res < 0 then some (true, o) else some (travUpdate f p o)

/-- The loop over the units of an item. -/
def travUnits (visit : ν → σ → Option (Out ν σ)) : List (Ptr ν) → Int → σ → Option (Bool × Out ν σ)
  | [], res, s => some (false, ⟨res, s, []⟩)
  | p :: ps, res, s =>
    match travUnit t f visit p res s with
    | none => none
    | some (true, o) => some (true, o)
    | some (false, o) =>
      match travUnits visit ps o.res o.data with
      | none => none
      | some (stop, o') => some (stop, { o' with log := o.log ++ o'.log })

/-- The loop over the items of a node, from number `i` on. -/
def travItems (visit : ν → σ → Option (Out ν σ)) (n : ν) :
    Nat → List (Option TravItem) → Int → σ → Option (Bool × Out ν σ)
  | _, [], res, s => some (false, ⟨res, s, []⟩)
  | i, none :: _, res, s => some (true, ⟨res, s, [.unopened n i]⟩)
  | i, some it :: items, res, s =>
    if it.branch then
      match travUnits t f visit (unitPtrs n i it.units) res s with
      | none => none
      | some (true, o) => some (true, o)
      | some (false, o) =>
        match travItems visit n (i + 1) items o.res o.data with
        | none => none
        | some (stop, o') => some (stop, { o' with log := o.log ++ o'.log })
    else travItems visit n (i + 1) items res s

/-- The call of the before function. -/
def travBefore (n : ν) (s : σ) : Out ν σ :=
  match f.beforeFunc with
  | none => ⟨0, s, []⟩
  | some before =>
    let (res, s) := before n s
    ⟨res, s, [.before n res]⟩

/-- The call of the after function, whose result is dropped after a loop that was ended. -/
def travAfter (n : ν) (stop : Bool) (o : Out ν σ) : Out ν σ :=
  match f.afterFunc with
  | none => o
  | some after =>
    let (res, s) := after n o.data
    ⟨if stop then o.res else res, s, o.log ++ [.after n res]⟩

/-- `reiser4_tree_trav_node`; the fuel bounds the depth. -/
def travNode : Nat → ν → σ → Option (Out ν σ)
  | 0, _, _ => none
  | fuel + 1, n, s =>
    let b := travBefore f n s
    if b.res ≠ 0 then some b
    else
      match travItems t f (travNode fuel) n 0 (t.items n) b.res b.data with
      | none => none
      | some (stop, o) => some (travAfter f n stop { o with log := b.log ++ o.log })

/-- `reiser4_tree_trav`; `loadRoot` is the result of `reiser4_tree_load_root`. -/
def reiser4TreeTrav (loadRoot : Int) (fuel : Nat) (s : σ) : Option (Out ν σ) :=
  if loadRoot ≠ 0 then some ⟨loadRoot, s, []⟩ else travNode t f fuel t.root s

end Run

/-! ## The calls of one node -/

section Calls

variable {ν σ : Type} (t : TravTree ν) (f : TravFuncs ν σ)

/-- The call that lets a node pass. -/
def entry (n : ν) : List (Event ν) := if f.beforeFunc.isSome then [.before n 0] else []

/-- The calls for a pointer after which the loop goes on. -/
def pass (x : Ptr ν × OpenRes) : List (Event ν) :=
  .opened x.1 x.2 :: if f.updateFunc.isSome then [.updated x.1 0] else []

/-- The last call. -/
def leave (n : ν) (res : Int) : List (Event ν) :=
  if f.afterFunc.isSome then [.after n res] else []

/-- The calls that end the loop of a node, before the pointers `rest`. -/
inductive Halts (n : ν) : Int → List (Ptr ν) → List (Event ν) → Prop
  | unopened {res : Int} {rest : List (Ptr ν)} {i : Nat} (h : (t.items n)[i]? = some none) :
    Halts n res rest [.unopened n i]
  | invalid {res : Int} {rest : List (Ptr ν)} {p : Ptr ν} : Halts n res (p :: rest) [.opened p .invalid]
  | child {res : Int} {rest : List (Ptr ν)} {p : Ptr ν} (h : res < 0) :
    Halts n res (p :: rest) [.opened p .loaded]
  | update {res : Int} {rest : List (Ptr ν)} {p : Ptr ν} {o : OpenRes} (ho : o ≠ .invalid)
    (h : res ≠ 0) : Halts n res (p :: rest) [.opened p o, .updated p res]

/-- The calls for a node whose traversal gives `res`: the before function skips it, or its pointers
    are opened in order, each with its update, all of them or up to a call that ends the loop. -/
inductive Calls (n : ν) : Int → List (Event ν) → Prop
  | skipped {res : Int} (h : res ≠ 0) : Calls n res [.before n res]
  | finished {res : Int} (done : List (Ptr ν × OpenRes)) (hopen : none ∉ t.items n)
    (hall : done.map Prod.fst = t.ptrs n) (hvalid : ∀ x ∈ done, x.2 ≠ .invalid) :
    Calls n res (entry f n ++ done.flatMap (pass f) ++ leave f n res)
  | halted {res r : Int} (done : List (Ptr ν × OpenRes)) (rest : List (Ptr ν)) (last : List (Event ν))
    (hall : done.map Prod.fst ++ rest = t.ptrs n) (hvalid : ∀ x ∈ done, x.2 ≠ .invalid)
    (hlast : Halts t n res rest last) :
    Calls n res (entry f n ++ done.flatMap (pass f) ++ last ++ leave f n r)

/-- A node is the root of the traversal or was opened in it. -/
def Visited (n : ν) (log : List (Event ν)) (d : ν) : Prop :=
  d = n ∨ ∃ p, Event.opened p .loaded ∈ log ∧ t.child p = d

/-- The node is at or below another. -/
inductive Below (a : ν) : ν → Prop
  | refl : Below a a
  | step {p : Ptr ν} (hp : p ∈ t.ptrs p.node) (h : Below a p.node) : Below a (t.child p)

variable [DecidableEq ν]

/-- The calls for one node. -/
def own (d : ν) (log : List (Event ν)) : List (Event ν) := log.filter fun e => decide (e.node = d)

/-- **A traversal** of what is below `n`: the calls for every node it visits follow the pattern, and
    those for a child stand between the open and what comes next for its pointer. -/
structure Walked (n : ν) (res : Int) (log : List (Event ν)) : Prop where
  below : ∀ e ∈ log, Below t n e.node
  visited : ∀ e ∈ log, Visited t n log e.node
  ptrs : ∀ p o, Event.opened p o ∈ log → p ∈ t.ptrs p.node
  root : Calls t f n res (own n log)
  calls : ∀ d, Visited t n log d → ∃ r, Calls t f d r (own d log) ∧ (0 ≤ res → 0 ≤ r)
  nested : ∀ p, Event.opened p .loaded ∈ log → ∃ pre sub post,
    log = pre ++ .opened p .loaded :: sub ++ post ∧ own (t.child p) pre = [] ∧
      own (t.child p) post = [] ∧ own p.node sub = []

/-- No item failed to open and no open function reported a failure. -/
def Clean (log : List (Event ν)) : Prop :=
  ∀ e ∈ log, (∀ n i, e ≠ .unopened n i) ∧ ∀ p, e ≠ .opened p .invalid

/-- **The traversal is complete**: where the before and the update function did not end the work on a
    node, its items could be opened and its pointers were.  No function returned a negative result,
    and for the root none returned a positive one. -/
structure Complete (n : ν) (log : List (Event ν)) : Prop where
  before : ∀ d r, Event.before d r ∈ log → 0 ≤ r
  updated : ∀ p r, Event.updated p r ∈ log → 0 ≤ r
  opens : ∀ d, Visited t n log d → (∀ r, Event.before d r ∈ log → r = 0) →
    (∀ p r, p.node = d → Event.updated p r ∈ log → r = 0) →
    none ∉ t.items d ∧ (∀ p ∈ t.ptrs d, ∃ o, Event.opened p o ∈ log) ∧
      ∀ r, Event.after d r ∈ log → 0 ≤ r
  root : ∀ e ∈ log, e.node = n → (∀ r, e = .before n r → r = 0) ∧
    (∀ p r, e = .updated p r → r = 0) ∧ ∀ r, e = .after n r → r = 0

end Calls

/-! ## Subtrees are apart -/

section Below

variable {ν : Type} {t : TravTree ν}

theorem TravTree.ptrs_node {n : ν} {p : Ptr ν} (h : p ∈ t.ptrs n) : p.node = n :=
  (itemPtrs_node 0 (t.items n) h).1

theorem TravTree.ptrs_self {n : ν} {p : Ptr ν} (h : p ∈ t.ptrs n) : p ∈ t.ptrs p.node := by
  rw [TravTree.ptrs_node h]
  exact h

theorem TravTree.ptrs_nodup (n : ν) : (t.ptrs n).Nodup := itemPtrs_nodup n 0 (t.items n)

theorem below_trans {a b c : ν} (hab : Below t a b) (hbc : Below t b c) : Below t a c := by
  induction hbc with
  | refl => exact hab
  | step hp _ ih => exact .step hp ih

theorem below_level {a d : ν} (h : Below t a d) : d = a ∨ t.level d < t.level a := by
  induction h with
  | refl => exact Or.inl rfl
  | step hp _ ih =>
    have hlt := t.lower _ hp
    rcases ih with heq | hlt'
    · exact Or.inr (heq ▸ hlt)
    · exact Or.inr (Nat.lt_trans hlt hlt')

/-- A node is not below its children. -/
theorem not_below_child {n : ν} {p : Ptr ν} (hp : p ∈ t.ptrs n) : ¬Below t (t.child p) n := by
  intro h
  have hlt : t.level (t.child p) < t.level n := TravTree.ptrs_node hp ▸ t.lower p (TravTree.ptrs_self hp)
  rcases below_level h with heq | hlt'
  · exact absurd (heq ▸ hlt) (Nat.lt_irrefl _)
  · exact absurd hlt' (Nat.lt_asymm hlt)

/-- **No node is below two pointers of one node.** -/
theorem below_disjoint {n d : ν} {p q : Ptr ν} (hp : p ∈ t.ptrs n) (hq : q ∈ t.ptrs n) (hne : p ≠ q)
    (h1 : Below t (t.child p) d) (h2 : Below t (t.child q) d) : False := by
  have hp' := TravTree.ptrs_self hp
  have hq' := TravTree.ptrs_self hq
  induction h1 with
  | refl =>
    generalize hd : t.child p = d at h2
    cases h2 with
    | refl => exact hne (t.inj p q hp' hq' hd)
    | @step p1 hp1 h =>
      obtain rfl := t.inj p p1 hp' hp1 hd
      rw [TravTree.ptrs_node hp] at h
      exact not_below_child hq h
  | @step p1 hp1 h ih =>
    generalize hd : t.child p1 = d at h2
    cases h2 with
    | refl =>
      obtain rfl := t.inj p1 q hp1 hq' hd
      rw [TravTree.ptrs_node hq] at h
      exact not_below_child hp h
    | @step p2 hp2 h2 =>
      obtain rfl := t.inj p1 p2 hp1 hp2 hd
      exact ih h2

end Below

/-! ## Putting logs together -/

/-- The calls for a pointer: the open, the traversal of the child and the update. -/
structure Seg (ν : Type) where
  ptr : Ptr ν
  opened : OpenRes
  sub : List (Event ν)
  upd : List (Event ν)

def Seg.log {ν : Type} (g : Seg ν) : List (Event ν) := .opened g.ptr g.opened :: (g.sub ++ g.upd)

/-- Without those for the child. -/
def Seg.own {ν : Type} (g : Seg ν) : List (Event ν) := .opened g.ptr g.opened :: g.upd

section Assemble

variable {ν σ : Type} [DecidableEq ν] {t : TravTree ν} {f : TravFuncs ν σ}

theorem mem_own {d : ν} {log : List (Event ν)} {e : Event ν} : e ∈ own d log ↔ e ∈ log ∧ e.node = d := by
  unfold own
  rw [List.mem_filter, decide_eq_true_eq]

theorem own_append (d : ν) (l l' : List (Event ν)) : own d (l ++ l') = own d l ++ own d l' :=
  List.filter_append l l'

theorem own_eq_nil {d : ν} {log : List (Event ν)} (h : ∀ e ∈ log, e.node ≠ d) : own d log = [] :=
  List.filter_eq_nil_iff.mpr fun e he => by simpa using h e he

theorem own_eq_self {d : ν} {log : List (Event ν)} (h : ∀ e ∈ log, e.node = d) : own d log = log :=
  List.filter_eq_self.mpr fun e he => by simpa using h e he

/-- What is visited is below. -/
theorem Walked.visited_below {n d : ν} {res : Int} {log : List (Event ν)} (h : Walked t f n res log)
    (hd : Visited t n log d) : Below t n d := by
  rcases hd with rfl | ⟨p, hp, rfl⟩
  · exact .refl
  · exact .step (h.ptrs p .loaded hp) (h.below _ hp)

/-- The calls for a pointer of `n`, in a traversal whose result is `res`. -/
structure SegOf (t : TravTree ν) (f : TravFuncs ν σ) (n : ν) (res : Int) (g : Seg ν) : Prop where
  ptr : g.ptr ∈ t.ptrs n
  upd : ∀ e ∈ g.upd, e.node = n ∧ ∀ p o, e ≠ .opened p o
  sub : g.opened = .loaded ∧ (∃ r, Walked t f (t.child g.ptr) r g.sub ∧ (0 ≤ res → 0 ≤ r)) ∨
    g.opened ≠ .loaded ∧ g.sub = []

section Seg

variable {n : ν} {res : Int} {g : Seg ν}

/-- The calls for a pointer are of the node, or below its child. -/
theorem SegOf.node (h : SegOf t f n res g) {e : Event ν} (he : e ∈ g.log) :
    (e.node = n ∧ e ∈ g.own) ∨ (Below t (t.child g.ptr) e.node ∧ e ∈ g.sub) := by
  rcases List.mem_cons.mp he with rfl | he
  · exact Or.inl ⟨TravTree.ptrs_node h.ptr, List.mem_cons_self⟩
  · rcases List.mem_append.mp he with he | he
    · rcases h.sub with ⟨-, r, hw, -⟩ | ⟨-, hnil⟩
      · exact Or.inr ⟨hw.below e he, he⟩
      · rw [hnil] at he
        exact absurd he List.not_mem_nil
    · exact Or.inl ⟨(h.upd e he).1, List.mem_cons_of_mem _ he⟩

theorem SegOf.below (h : SegOf t f n res g) {e : Event ν} (he : e ∈ g.log) : Below t n e.node := by
  have hchild : Below t n (t.child g.ptr) :=
    .step (TravTree.ptrs_self h.ptr) (TravTree.ptrs_node h.ptr ▸ .refl)
  rcases h.node he with ⟨hn, -⟩ | ⟨hb, -⟩
  · exact hn ▸ .refl
  · exact below_trans hchild hb

theorem SegOf.own_sub (h : SegOf t f n res g) : own n g.sub = [] := by
  rcases h.sub with ⟨-, r, hw, -⟩ | ⟨-, hnil⟩
  · exact own_eq_nil fun e he hn => not_below_child h.ptr (hn ▸ hw.below e he)
  · rw [hnil]
    rfl

theorem SegOf.own_node (h : SegOf t f n res g) : own n g.log = g.own := by
  have hopen : own n [Event.opened g.ptr g.opened] = [.opened g.ptr g.opened] :=
    own_eq_self fun e he => by
      rw [List.mem_singleton.mp he]
      exact TravTree.ptrs_node h.ptr
  have hupd : own n g.upd = g.upd := own_eq_self fun e he => (h.upd e he).1
  unfold Seg.log Seg.own
  rw [← List.singleton_append, own_append, own_append, hopen, h.own_sub, hupd]
  rfl

/-- For a node below the child the calls are those of the child's traversal. -/
theorem SegOf.own_below (h : SegOf t f n res g) {d : ν} (hd : Below t (t.child g.ptr) d) :
    own d [Event.opened g.ptr g.opened] = [] ∧ own d g.upd = [] := by
  have hne : n ≠ d := fun heq => not_below_child h.ptr (heq ▸ hd)
  constructor
  · refine own_eq_nil fun e he => ?_
    rw [List.mem_singleton.mp he]
    exact fun heq => hne ((TravTree.ptrs_node h.ptr).symm.trans heq)
  · exact own_eq_nil fun e he heq => hne ((h.upd e he).1.symm.trans heq)

/-- For a node below another pointer there are none. -/
theorem SegOf.own_other (h : SegOf t f n res g) {p : Ptr ν} (hp : p ∈ t.ptrs n) (hne : g.ptr ≠ p) {d : ν}
    (hd : Below t (t.child p) d) : own d g.log = [] := by
  refine own_eq_nil fun e he heq => ?_
  rcases h.node he with ⟨hn, -⟩ | ⟨hb, -⟩
  · exact not_below_child hp (hn.symm.trans heq ▸ hd)
  · exact below_disjoint h.ptr hp hne hb (heq ▸ hd)

end Seg

/-- The calls of a node are its first ones, those for its pointers and its last ones. -/
structure Assembled (t : TravTree ν) (f : TravFuncs ν σ) (n : ν) (res : Int) (head : List (Event ν))
    (segs : List (Seg ν)) (tail : List (Event ν)) : Prop where
  first : ∀ e ∈ head, e.node = n ∧ ∀ p o, e ≠ .opened p o
  last : ∀ e ∈ tail, e.node = n ∧ ∀ p o, e ≠ .opened p o
  each : ∀ g ∈ segs, SegOf t f n res g
  nodup : (segs.map Seg.ptr).Nodup

section Assembled

variable {n : ν} {res : Int} {head tail : List (Event ν)} {segs : List (Seg ν)}

/-- The calls for the node itself. -/
theorem Assembled.own_node (h : Assembled t f n res head segs tail) :
    own n (head ++ segs.flatMap Seg.log ++ tail) = head ++ segs.flatMap Seg.own ++ tail := by
  have hhead : own n head = head := own_eq_self fun e he => (h.first e he).1
  have htail : own n tail = tail := own_eq_self fun e he => (h.last e he).1
  have hsegs : own n (segs.flatMap Seg.log) = segs.flatMap Seg.own := by
    unfold own
    rw [List.filter_flatMap]
    exact List.flatMap_congr fun g hg => (h.each g hg).own_node
  rw [own_append, own_append, hhead, htail, hsegs]

/-- An event is the node's own or belongs to the traversal of a child. -/
theorem Assembled.mem (h : Assembled t f n res head segs tail) {e : Event ν}
    (he : e ∈ head ++ segs.flatMap Seg.log ++ tail) : e.node = n ∨ ∃ g ∈ segs, e ∈ g.sub := by
  rcases List.mem_append.mp he with he | he
  · rcases List.mem_append.mp he with he | he
    · exact Or.inl (h.first e he).1
    · obtain ⟨g, hg, he⟩ := List.mem_flatMap.mp he
      rcases (h.each g hg).node he with ⟨hn, -⟩ | ⟨-, hs⟩
      · exact Or.inl hn
      · exact Or.inr ⟨g, hg, hs⟩
  · exact Or.inl (h.last e he).1

/-- Around the calls of one pointer there are none for what is below it. -/
theorem Assembled.around (h : Assembled t f n res head segs tail) {g : Seg ν} (hg : g ∈ segs) :
    ∃ pre post, head ++ segs.flatMap Seg.log ++ tail = pre ++ .opened g.ptr g.opened :: g.sub ++ post ∧
      ∀ d, Below t (t.child g.ptr) d → own d pre = [] ∧ own d post = [] := by
  obtain ⟨before, after, hsegs⟩ := List.append_of_mem hg
  have hok := h.each g hg
  have hnodup := h.nodup
  rw [hsegs, List.map_append, List.map_cons, List.nodup_append] at hnodup
  obtain ⟨-, hafter, hbefore⟩ := hnodup
  have hne : ∀ g' ∈ before ++ after, g'.ptr ≠ g.ptr := by
    intro g' hg'
    rcases List.mem_append.mp hg' with hg' | hg'
    · exact hbefore _ (List.mem_map_of_mem hg') _ List.mem_cons_self
    · intro heq
      exact (List.nodup_cons.mp hafter).1 (heq ▸ List.mem_map_of_mem hg')
  have hown : ∀ d, Below t (t.child g.ptr) d → ∀ l : List (Seg ν), (∀ g' ∈ l, g' ∈ before ++ after) →
      own d (l.flatMap Seg.log) = [] := by
    intro d hd l hl
    refine own_eq_nil fun e he heq => ?_
    obtain ⟨g', hg', he⟩ := List.mem_flatMap.mp he
    have hmem : g' ∈ segs := by
      rw [hsegs]
      rcases List.mem_append.mp (hl g' hg') with h' | h'
      · exact List.mem_append_left _ h'
      · exact List.mem_append_right _ (List.mem_cons_of_mem _ h')
    have hnil := (h.each g' hmem).own_other hok.ptr (hne g' (hl g' hg')) hd
    exact absurd (mem_own.mpr ⟨he, heq⟩) (hnil ▸ List.not_mem_nil)
  have houter : ∀ d, Below t (t.child g.ptr) d → ∀ l : List (Event ν), (∀ e ∈ l, e.node = n) →
      own d l = [] :=
    fun d hd l hl => own_eq_nil fun e he heq =>
      not_below_child hok.ptr ((hl e he).symm.trans heq ▸ hd)
  refine ⟨head ++ before.flatMap Seg.log, g.upd ++ (after.flatMap Seg.log ++ tail), ?_, fun d hd => ?_⟩
  · rw [hsegs, List.flatMap_append, List.flatMap_cons]
    simp only [Seg.log, List.append_assoc, List.cons_append]
  · rw [own_append, own_append, own_append, houter d hd head fun e he => (h.first e he).1,
      hown d hd before fun g' hg' => List.mem_append_left _ hg',
      hown d hd after fun g' hg' => List.mem_append_right _ hg',
      houter d hd tail fun e he => (h.last e he).1, (hok.own_below hd).2]
    exact ⟨rfl, rfl⟩

/-- A loaded child was opened by one of the segments, or below one. -/
theorem Assembled.loaded (h : Assembled t f n res head segs tail) {p : Ptr ν}
    (hp : Event.opened p .loaded ∈ head ++ segs.flatMap Seg.log ++ tail) :
    ∃ g ∈ segs, (g.ptr = p ∧ g.opened = .loaded) ∨ Event.opened p .loaded ∈ g.sub := by
  rcases List.mem_append.mp hp with hp | hp
  · rcases List.mem_append.mp hp with hp | hp
    · exact absurd rfl ((h.first _ hp).2 p _)
    · obtain ⟨g, hg, hp⟩ := List.mem_flatMap.mp hp
      refine ⟨g, hg, ?_⟩
      rcases (h.each g hg).node hp with ⟨-, hown⟩ | ⟨-, hsub⟩
      · rcases List.mem_cons.mp hown with heq | hupd
        · injection heq with hptr ho
          exact Or.inl ⟨hptr.symm, ho.symm⟩
        · exact absurd rfl (((h.each g hg).upd _ hupd).2 p _)
      · exact Or.inr hsub
  · exact absurd rfl ((h.last _ hp).2 p _)

/-- **The traversal of a node**, from those of its children. -/
theorem Assembled.walked (h : Assembled t f n res head segs tail)
    (hcalls : Calls t f n res (head ++ segs.flatMap Seg.own ++ tail)) :
    Walked t f n res (head ++ segs.flatMap Seg.log ++ tail) := by
  have hroot : Calls t f n res (own n (head ++ segs.flatMap Seg.log ++ tail)) := by
    rw [h.own_node]
    exact hcalls
  -- The traversal of the child a segment has loaded.
  have hsub : ∀ g ∈ segs, ∀ e ∈ g.sub,
      g.opened = .loaded ∧ ∃ r, Walked t f (t.child g.ptr) r g.sub ∧ (0 ≤ res → 0 ≤ r) := by
    intro g hg e he
    rcases (h.each g hg).sub with hload | ⟨-, hnil⟩
    · exact hload
    · rw [hnil] at he
      exact absurd he List.not_mem_nil
  refine ⟨fun e he => ?_, fun e he => ?_, fun p o he => ?_, hroot, ?_, ?_⟩
  · rcases List.mem_append.mp he with he | he
    · rcases List.mem_append.mp he with he | he
      · exact (h.first e he).1 ▸ .refl
      · obtain ⟨g, hg, he⟩ := List.mem_flatMap.mp he
        exact (h.each g hg).below he
    · exact (h.last e he).1 ▸ .refl
  · rcases h.mem he with hn | ⟨g, hg, hs⟩
    · exact Or.inl hn
    · obtain ⟨ho, r, hw, -⟩ := hsub g hg e hs
      refine Or.inr ?_
      have hin : ∀ e ∈ g.log, e ∈ head ++ segs.flatMap Seg.log ++ tail := fun e he =>
        List.mem_append_left _ (List.mem_append_right _ (List.mem_flatMap.mpr ⟨g, hg, he⟩))
      rcases hw.visited e hs with heq | ⟨p, hp, hpe⟩
      · exact ⟨g.ptr, hin _ (ho ▸ List.mem_cons_self), heq.symm⟩
      · exact ⟨p, hin _ (List.mem_cons_of_mem _ (List.mem_append_left _ hp)), hpe⟩
  · rcases List.mem_append.mp he with he | he
    · rcases List.mem_append.mp he with he | he
      · exact absurd rfl ((h.first _ he).2 p o)
      · obtain ⟨g, hg, he⟩ := List.mem_flatMap.mp he
        rcases (h.each g hg).node he with ⟨-, hown⟩ | ⟨-, hs⟩
        · rcases List.mem_cons.mp hown with heq | hu
          · injection heq with hptr
            exact hptr ▸ TravTree.ptrs_self (h.each g hg).ptr
          · exact absurd rfl (((h.each g hg).upd _ hu).2 p o)
        · obtain ⟨-, r, hw, -⟩ := hsub g hg _ hs
          exact hw.ptrs p o hs
    · exact absurd rfl ((h.last _ he).2 p o)
  · -- A visited node is the root, a loaded child or one below it.
    rintro d (rfl | ⟨p, hp, rfl⟩)
    · exact ⟨res, hroot, id⟩
    · obtain ⟨g, hg, hload⟩ := h.loaded hp
      obtain ⟨r, hw, hr, hvisited⟩ : ∃ r, Walked t f (t.child g.ptr) r g.sub ∧ (0 ≤ res → 0 ≤ r) ∧
          Visited t (t.child g.ptr) g.sub (t.child p) := by
        rcases hload with ⟨hptr, ho⟩ | hin
        · rcases (h.each g hg).sub with ⟨-, r, hw, hr⟩ | ⟨hne, -⟩
          · exact ⟨r, hw, hr, Or.inl (hptr ▸ rfl)⟩
          · exact absurd ho hne
        · obtain ⟨-, r, hw, hr⟩ := hsub g hg _ hin
          exact ⟨r, hw, hr, Or.inr ⟨p, hin, rfl⟩⟩
      obtain ⟨r', hc, hr'⟩ := hw.calls _ hvisited
      refine ⟨r', ?_, fun h0 => hr' (hr h0)⟩
      obtain ⟨pre, post, heq, haround⟩ := h.around hg
      have hb := hw.visited_below hvisited
      rw [heq, own_append, ← List.singleton_append, own_append, own_append, (haround _ hb).1,
        (haround _ hb).2, ((h.each g hg).own_below hb).1]
      simpa using hc
  · intro p hp
    obtain ⟨g, hg, hload⟩ := h.loaded hp
    obtain ⟨pre, post, heq, haround⟩ := h.around hg
    rcases hload with ⟨rfl, ho⟩ | hin
    · refine ⟨pre, g.sub, post, ho ▸ heq, (haround _ .refl).1, (haround _ .refl).2, ?_⟩
      rw [TravTree.ptrs_node (h.each g hg).ptr]
      exact (h.each g hg).own_sub
    · obtain ⟨-, r, hw, -⟩ := hsub g hg _ hin
      obtain ⟨pre', sub, post', heq', hpre, hpost, hown⟩ := hw.nested p hin
      have hb : Below t (t.child g.ptr) (t.child p) := .step (hw.ptrs p .loaded hin) (hw.below _ hin)
      refine ⟨pre ++ [.opened g.ptr g.opened] ++ pre', sub, post' ++ post, ?_, ?_, ?_, hown⟩
      · rw [heq, heq']
        simp
      · rw [own_append, own_append, (haround _ hb).1, ((h.each g hg).own_below hb).1, hpre]
        rfl
      · rw [own_append, hpost, (haround _ hb).2]
        rfl

end Assembled

/-! ## The loop over the pointers -/

/-- The calls for a pointer after which the loop goes on. -/
structure Passed (t : TravTree ν) (f : TravFuncs ν σ) (g : Seg ν) : Prop where
  valid : g.opened ≠ .invalid
  sub : g.opened = .loaded ∧ (∃ r, Walked t f (t.child g.ptr) r g.sub ∧ 0 ≤ r) ∨
    g.opened ≠ .loaded ∧ g.sub = []
  own : g.own = pass f (g.ptr, g.opened)

/-- The calls for a pointer that end the loop. -/
structure Halted (t : TravTree ν) (f : TravFuncs ν σ) (n : ν) (res : Int) (g : Seg ν) : Prop where
  sub : g.opened = .loaded ∧ (∃ r, Walked t f (t.child g.ptr) r g.sub ∧ (0 ≤ res → 0 ≤ r)) ∨
    g.opened ≠ .loaded ∧ g.sub = []
  own : ∀ rest, Halts t n res (g.ptr :: rest) g.own
  upd : ∀ e ∈ g.upd, ∃ r, e = .updated g.ptr r

/-- What a loop over the pointers `ps`, of the items `items` from number `i` on, has called. -/
inductive Loop (t : TravTree ν) (f : TravFuncs ν σ) (n : ν) (ps : List (Ptr ν)) (i : Nat)
    (items : List (Option TravItem)) : Bool → Int → List (Event ν) → Prop
  | finished {res : Int} (segs : List (Seg ν)) (hopen : none ∉ items) (hps : segs.map Seg.ptr = ps)
    (hpass : ∀ g ∈ segs, Passed t f g) : Loop t f n ps i items false res (segs.flatMap Seg.log)
  | halted {res : Int} (segs : List (Seg ν)) (g : Seg ν) (rest : List (Ptr ν))
    (hps : segs.map Seg.ptr ++ g.ptr :: rest = ps) (hpass : ∀ g ∈ segs, Passed t f g)
    (hhalt : Halted t f n res g) : Loop t f n ps i items true res (segs.flatMap Seg.log ++ g.log)
  | unopened {res : Int} (segs : List (Seg ν)) (rest : List (Ptr ν)) (j : Nat)
    (hps : segs.map Seg.ptr ++ rest = ps) (hpass : ∀ g ∈ segs, Passed t f g)
    (hitem : items[j]? = some none) :
    Loop t f n ps i items true res (segs.flatMap Seg.log ++ [.unopened n (i + j)])

section Loop

variable {n : ν} {ps : List (Ptr ν)} {i : Nat} {items : List (Option TravItem)} {stop : Bool} {res : Int}
  {log : List (Event ν)}

/-- Another pointer before the loop. -/
theorem Loop.cons {g : Seg ν} (hg : Passed t f g) (h : Loop t f n ps i items stop res log) :
    Loop t f n (g.ptr :: ps) i items stop res (g.log ++ log) := by
  have hmem : ∀ segs : List (Seg ν), (∀ g ∈ segs, Passed t f g) → ∀ g' ∈ g :: segs, Passed t f g' :=
    fun segs hpass => List.forall_mem_cons.mpr ⟨hg, hpass⟩
  cases h with
  | finished segs hopen hps hpass =>
    have hl : Loop t f n (g.ptr :: ps) i items false res ((g :: segs).flatMap Seg.log) :=
      .finished (g :: segs) hopen (congrArg (g.ptr :: ·) hps) (hmem segs hpass)
    rwa [List.flatMap_cons] at hl
  | halted segs g' rest hps hpass hhalt =>
    have hl : Loop t f n (g.ptr :: ps) i items true res ((g :: segs).flatMap Seg.log ++ g'.log) :=
      .halted (g :: segs) g' rest (congrArg (g.ptr :: ·) hps) (hmem segs hpass) hhalt
    rwa [List.flatMap_cons, List.append_assoc] at hl
  | unopened segs rest j hps hpass hitem =>
    have hl : Loop t f n (g.ptr :: ps) i items true res
        ((g :: segs).flatMap Seg.log ++ [.unopened n (i + j)]) :=
      .unopened (g :: segs) rest j (congrArg (g.ptr :: ·) hps) (hmem segs hpass) hitem
    rwa [List.flatMap_cons, List.append_assoc] at hl

/-- An item before the loop: its pointers `ps'`, all passed. -/
theorem Loop.item {it : TravItem} {ps' : List (Ptr ν)} {segs : List (Seg ν)}
    (hps' : segs.map Seg.ptr = ps') (hpass' : ∀ g ∈ segs, Passed t f g)
    (h : Loop t f n ps (i + 1) items stop res log) :
    Loop t f n (ps' ++ ps) i (some it :: items) stop res (segs.flatMap Seg.log ++ log) := by
  induction segs generalizing ps' with
  | nil =>
    subst hps'
    cases h with
    | finished segs hopen hps hpass =>
      refine .finished segs ?_ hps hpass
      rw [List.mem_cons]
      exact not_or.mpr ⟨nofun, hopen⟩
    | halted segs g rest hps hpass hhalt => exact .halted segs g rest hps hpass hhalt
    | unopened segs rest j hps hpass hitem =>
      rw [Nat.add_assoc, Nat.add_comm 1 j]
      exact .unopened segs rest (j + 1) hps hpass hitem
  | cons g segs ih =>
    subst hps'
    have hl := (ih rfl fun g' hg' => hpass' g' (List.mem_cons_of_mem _ hg')).cons
      (hpass' g List.mem_cons_self)
    rw [List.flatMap_cons, List.append_assoc]
    exact hl

end Loop

/-! ## The functions -/

section Spec

variable {visit : ν → σ → Option (Out ν σ)} {n : ν}

omit [DecidableEq ν] in
/-- What the update adds to the log. -/
theorem travUpdate_spec (p : Ptr ν) (o : Out ν σ) {stop : Bool} {o' : Out ν σ}
    (h : travUpdate f p o = (stop, o')) :
    (stop = false ∧ o'.log = o.log ++ if f.updateFunc.isSome then [.updated p 0] else []) ∨
      (stop = true ∧ o'.res ≠ 0 ∧ o'.log = o.log ++ [.updated p o'.res]) := by
  unfold travUpdate at h
  cases hu : f.updateFunc with
  | none =>
    rw [hu] at h
    obtain ⟨rfl, rfl⟩ := Prod.mk.inj h
    exact Or.inl ⟨rfl, by simp⟩
  | some update =>
    rw [hu] at h
    obtain ⟨rfl, rfl⟩ := Prod.mk.inj h
    by_cases hr : (update p o.data).1 = 0
    · exact Or.inl ⟨by simp [hr], by simp [hr]⟩
    · exact Or.inr ⟨by simp [hr], hr, rfl⟩

/-- One pointer: its calls let the loop go on, or end it. -/
theorem travUnit_spec (hv : ∀ m s o, visit m s = some o → Walked t f m o.res o.log) {p : Ptr ν} {res : Int}
    {s : σ} {stop : Bool} {o : Out ν σ} (h : travUnit t f visit p res s = some (stop, o)) :
    ∃ g : Seg ν, g.ptr = p ∧ o.log = g.log ∧ (stop = false → Passed t f g) ∧
      (stop = true → Halted t f n o.res g) := by
  unfold travUnit at h
  split at h
  · obtain ⟨rfl, rfl⟩ := Prod.mk.inj (Option.some.inj h)
    exact ⟨⟨p, .invalid, [], []⟩, rfl, rfl, nofun, fun _ => ⟨Or.inr ⟨nofun, rfl⟩, fun _ => .invalid,
      nofun⟩⟩
  · rcases travUpdate_spec p _ (Option.some.inj h) with ⟨rfl, hlog⟩ | ⟨rfl, hr, hlog⟩
    · exact ⟨⟨p, .absent, [], if f.updateFunc.isSome then [.updated p 0] else []⟩, rfl, hlog,
        fun _ => ⟨nofun, Or.inr ⟨nofun, rfl⟩, rfl⟩, nofun⟩
    · refine ⟨⟨p, .absent, [], [.updated p o.res]⟩, rfl, hlog, nofun, fun _ => ⟨Or.inr ⟨nofun, rfl⟩,
        fun _ => .update nofun hr, fun e he => ⟨o.res, List.mem_singleton.mp he⟩⟩⟩
  · split at h
    · cases h
    · next child hchild =>
      have hw := hv _ _ _ hchild
      dsimp only at h
      split at h
      · next hneg =>
        obtain ⟨rfl, rfl⟩ := Prod.mk.inj (Option.some.inj h)
        have hsub : 0 ≤ child.res → 0 ≤ child.res := id
        exact ⟨⟨p, .loaded, child.log, []⟩, rfl, by simp [Seg.log], nofun,
          fun _ => ⟨Or.inl ⟨rfl, child.res, hw, hsub⟩, fun _ => .child hneg, nofun⟩⟩
      · next hpos =>
        have hpos' : 0 ≤ child.res := Int.not_lt.mp hpos
        rcases travUpdate_spec p _ (Option.some.inj h) with ⟨rfl, hlog⟩ | ⟨rfl, hr, hlog⟩
        · exact ⟨⟨p, .loaded, child.log, if f.updateFunc.isSome then [.updated p 0] else []⟩, rfl, hlog,
            fun _ => ⟨nofun, Or.inl ⟨rfl, child.res, hw, hpos'⟩, rfl⟩, nofun⟩
        · exact ⟨⟨p, .loaded, child.log, [.updated p o.res]⟩, rfl, hlog, nofun,
            fun _ => ⟨Or.inl ⟨rfl, child.res, hw, fun _ => hpos'⟩, fun _ => .update nofun hr,
              fun e he => ⟨o.res, List.mem_singleton.mp he⟩⟩⟩

/-- The units of an item, before the rest of the items. -/
theorem travUnits_spec (hv : ∀ m s o, visit m s = some o → Walked t f m o.res o.log) {i : Nat}
    {items : List (Option TravItem)} {rest : List (Ptr ν)} :
    ∀ (ps : List (Ptr ν)) {res : Int} {s : σ} {stop : Bool} {o : Out ν σ},
      travUnits t f visit ps res s = some (stop, o) →
      (stop = false ∧ ∃ segs : List (Seg ν), segs.map Seg.ptr = ps ∧ (∀ g ∈ segs, Passed t f g) ∧
        o.log = segs.flatMap Seg.log) ∨
      (stop = true ∧ Loop t f n (ps ++ rest) i items true o.res o.log)
  | [], res, s, stop, o, h => by
    obtain ⟨rfl, rfl⟩ := Prod.mk.inj (Option.some.inj h)
    exact Or.inl ⟨rfl, [], rfl, nofun, rfl⟩
  | p :: ps, res, s, stop, o, h => by
    rw [travUnits] at h
    split at h
    · cases h
    · next o1 h1 =>
      obtain ⟨rfl, rfl⟩ := Prod.mk.inj (Option.some.inj h)
      obtain ⟨g, rfl, hlog, -, hhalt⟩ := travUnit_spec (n := n) hv h1
      rw [hlog]
      exact Or.inr ⟨rfl, .halted [] g (ps ++ rest) rfl nofun (hhalt rfl)⟩
    · next o1 h1 =>
      obtain ⟨g, rfl, hlog, hpass, -⟩ := travUnit_spec (n := n) hv h1
      split at h
      · cases h
      · next stop' o2 h2 =>
        obtain ⟨rfl, rfl⟩ := Prod.mk.inj (Option.some.inj h)
        rcases travUnits_spec hv ps h2 with ⟨rfl, segs, rfl, hsegs, hlog2⟩ | ⟨rfl, hloop⟩
        · refine Or.inl ⟨rfl, g :: segs, rfl, List.forall_mem_cons.mpr ⟨hpass rfl, hsegs⟩, ?_⟩
          show o1.log ++ o2.log = _
          rw [hlog, hlog2, List.flatMap_cons]
        · refine Or.inr ⟨rfl, ?_⟩
          show Loop t f n (g.ptr :: (ps ++ rest)) i items true o2.res (o1.log ++ o2.log)
          rw [hlog]
          exact hloop.cons (hpass rfl)

/-- The items. -/
theorem travItems_spec (hv : ∀ m s o, visit m s = some o → Walked t f m o.res o.log) :
    ∀ (i : Nat) (items : List (Option TravItem)) {res : Int} {s : σ} {stop : Bool} {o : Out ν σ},
      travItems t f visit n i items res s = some (stop, o) →
      Loop t f n (itemPtrs n i items) i items stop o.res o.log
  | i, [], res, s, stop, o, h => by
    obtain ⟨rfl, rfl⟩ := Prod.mk.inj (Option.some.inj h)
    exact .finished [] List.not_mem_nil rfl nofun
  | i, none :: items, res, s, stop, o, h => by
    obtain ⟨rfl, rfl⟩ := Prod.mk.inj (Option.some.inj h)
    exact .unopened [] _ 0 rfl nofun rfl
  | i, some it :: items, res, s, stop, o, h => by
    rw [travItems] at h
    rw [itemPtrs]
    split at h
    · next hb =>
      rw [if_pos hb]
      split at h
      · cases h
      · next o1 h1 =>
        obtain ⟨rfl, rfl⟩ := Prod.mk.inj (Option.some.inj h)
        rcases travUnits_spec hv _ h1 with ⟨hstop, -⟩ | ⟨-, hloop⟩
        · cases hstop
        · exact hloop
      · next o1 h1 =>
        rcases @travUnits_spec _ _ _ t f visit n hv i items [] _ _ _ _ _ h1 with
          ⟨-, segs, hps, hpass, hlog⟩ | ⟨hstop, -⟩
        · split at h
          · cases h
          · next stop' o2 h2 =>
            obtain ⟨rfl, rfl⟩ := Prod.mk.inj (Option.some.inj h)
            show Loop t f n _ i _ stop' o2.res (o1.log ++ o2.log)
            rw [hlog]
            exact (travItems_spec hv (i + 1) items h2).item hps hpass
        · cases hstop
    · next hb =>
      rw [if_neg hb]
      have hnil : ([] : List (Seg ν)).map Seg.ptr = [] := rfl
      exact (travItems_spec hv (i + 1) items h).item hnil nofun

end Spec

/-! ## A node -/

section Node

variable {n : ν} {res : Int}

omit [DecidableEq ν] in
theorem entry_node {e : Event ν} (he : e ∈ entry f n) : e.node = n ∧ ∀ p o, e ≠ .opened p o := by
  unfold entry at he
  split at he
  · rw [List.mem_singleton.mp he]
    exact ⟨rfl, nofun⟩
  · exact absurd he List.not_mem_nil

omit [DecidableEq ν] in
theorem leave_node {e : Event ν} (he : e ∈ leave f n res) : e.node = n ∧ ∀ p o, e ≠ .opened p o := by
  unfold leave at he
  split at he
  · rw [List.mem_singleton.mp he]
    exact ⟨rfl, nofun⟩
  · exact absurd he List.not_mem_nil

theorem Passed.segOf {g : Seg ν} (h : Passed t f g) (hp : g.ptr ∈ t.ptrs n) : SegOf t f n res g := by
  refine ⟨hp, fun e he => ?_, h.sub.imp_left fun ⟨ho, r, hw, hr⟩ => ⟨ho, r, hw, fun _ => hr⟩⟩
  have hupd : g.upd = if f.updateFunc.isSome then [.updated g.ptr 0] else [] :=
    (List.cons.inj h.own).2
  rw [hupd] at he
  split at he
  · rw [List.mem_singleton.mp he]
    exact ⟨TravTree.ptrs_node hp, nofun⟩
  · exact absurd he List.not_mem_nil

theorem Halted.segOf {g : Seg ν} (h : Halted t f n res g) (hp : g.ptr ∈ t.ptrs n) :
    SegOf t f n res g := by
  refine ⟨hp, fun e he => ?_, h.sub⟩
  obtain ⟨r, rfl⟩ := h.upd e he
  exact ⟨TravTree.ptrs_node hp, nofun⟩

/-- The own calls of passed pointers. -/
theorem flatMap_own {segs : List (Seg ν)} (hpass : ∀ g ∈ segs, Passed t f g) :
    segs.flatMap Seg.own = (segs.map fun g => (g.ptr, g.opened)).flatMap (pass f) := by
  rw [List.flatMap_map]
  exact List.flatMap_congr fun g hg => (hpass g hg).own

omit [DecidableEq ν] in
theorem map_fst (segs : List (Seg ν)) :
    (segs.map fun g => (g.ptr, g.opened)).map Prod.fst = segs.map Seg.ptr := by
  rw [List.map_map]
  rfl

theorem valid_of_passed {segs : List (Seg ν)} (hpass : ∀ g ∈ segs, Passed t f g) :
    ∀ x ∈ segs.map fun g => (g.ptr, g.opened), x.2 ≠ .invalid := by
  intro x hx
  obtain ⟨g, hg, rfl⟩ := List.mem_map.mp hx
  exact (hpass g hg).valid

/-- **The loop of a node with the calls around it.** -/
theorem Loop.walked {stop : Bool} {log : List (Event ν)}
    (h : Loop t f n (t.ptrs n) 0 (t.items n) stop res log) (r : Int) :
    Walked t f n (if stop then res else r) (entry f n ++ log ++ leave f n r) := by
  have hnodup := TravTree.ptrs_nodup (t := t) n
  have hsub : ∀ {segs : List (Seg ν)} {rest : List (Ptr ν)}, segs.map Seg.ptr ++ rest = t.ptrs n →
      (segs.map Seg.ptr).Nodup ∧ ∀ g ∈ segs, g.ptr ∈ t.ptrs n := by
    intro segs rest hps
    rw [← hps] at hnodup ⊢
    exact ⟨(List.nodup_append.mp hnodup).1,
      fun g hg => List.mem_append_left _ (List.mem_map_of_mem hg)⟩
  cases h with
  | finished segs hopen hps hpass =>
    obtain ⟨hnd, hmem⟩ := @hsub segs [] ((List.append_nil _).trans hps)
    have ha : Assembled t f n r (entry f n) segs (leave f n r) :=
      ⟨fun e => entry_node, fun e => leave_node, fun g hg => (hpass g hg).segOf (hmem g hg), hnd⟩
    refine ha.walked ?_
    rw [flatMap_own hpass]
    exact .finished _ hopen ((map_fst segs).trans hps) (valid_of_passed hpass)
  | halted segs g rest hps hpass hhalt =>
    have hps' : (segs ++ [g]).map Seg.ptr ++ rest = t.ptrs n := by
      rw [List.map_append, List.append_assoc]
      exact hps
    obtain ⟨hnd, hmem⟩ := hsub hps'
    have ha : Assembled t f n res (entry f n) (segs ++ [g]) (leave f n r) := by
      refine ⟨fun e => entry_node, fun e => leave_node, fun g' hg' => ?_, hnd⟩
      have hp := hmem g' hg'
      rcases List.mem_append.mp hg' with hg' | hg'
      · exact (hpass g' hg').segOf hp
      · obtain rfl := List.mem_singleton.mp hg'
        exact hhalt.segOf hp
    have hw := ha.walked (by
      rw [List.flatMap_append, flatMap_own hpass, List.flatMap_singleton, ← List.append_assoc]
      exact .halted _ (g.ptr :: rest) g.own ((congrArg (· ++ g.ptr :: rest) (map_fst segs)).trans hps)
        (valid_of_passed hpass) (hhalt.own rest))
    rw [List.flatMap_append, List.flatMap_singleton] at hw
    exact hw
  | unopened segs rest j hps hpass hitem =>
    obtain ⟨hnd, hmem⟩ := hsub hps
    have ha : Assembled t f n res (entry f n) segs ([.unopened n (0 + j)] ++ leave f n r) := by
      refine ⟨fun e => entry_node, fun e he => ?_, fun g hg => (hpass g hg).segOf (hmem g hg), hnd⟩
      rcases List.mem_append.mp he with he | he
      · rw [List.mem_singleton.mp he]
        exact ⟨rfl, nofun⟩
      · exact leave_node he
    have hw := ha.walked (by
      rw [flatMap_own hpass, ← List.append_assoc]
      refine .halted _ rest _ ((congrArg (· ++ rest) (map_fst segs)).trans hps)
        (valid_of_passed hpass) (.unopened ?_)
      rw [Nat.zero_add]
      exact hitem)
    rw [← List.append_assoc] at hw
    rw [← List.append_assoc]
    exact hw

omit [DecidableEq ν] in
theorem travBefore_spec (n : ν) (s : σ) : (travBefore f n s).res = 0 ∧ (travBefore f n s).log = entry f n ∨
    (travBefore f n s).res ≠ 0 ∧ (travBefore f n s).log = [.before n (travBefore f n s).res] := by
  unfold travBefore entry
  cases hb : f.beforeFunc with
  | none => exact Or.inl ⟨rfl, rfl⟩
  | some before =>
    by_cases hr : (before n s).1 = 0
    · exact Or.inl ⟨hr, by simp [hr]⟩
    · exact Or.inr ⟨hr, rfl⟩

omit [DecidableEq ν] in
theorem travAfter_spec (n : ν) (stop : Bool) (o : Out ν σ) : ∃ r,
    (travAfter f n stop o).res = (if stop then o.res else r) ∧
      (travAfter f n stop o).log = o.log ++ leave f n r := by
  unfold travAfter leave
  cases ha : f.afterFunc with
  | none =>
    exact ⟨o.res, (ite_self o.res).symm, by simp⟩
  | some after => exact ⟨(after n o.data).1, rfl, rfl⟩

/-- **What a traversal has called.** -/
theorem travNode_walked : ∀ (fuel : Nat) (n : ν) (s : σ) (o : Out ν σ),
    travNode t f fuel n s = some o → Walked t f n o.res o.log
  | 0, _, _, _, h => by cases h
  | fuel + 1, n, s, o, h => by
    unfold travNode at h
    rcases travBefore_spec (f := f) n s with ⟨hres, hlog⟩ | ⟨hres, hlog⟩
    · rw [if_neg (not_not_intro hres)] at h
      split at h
      · cases h
      · next stop o1 h1 =>
        obtain rfl := Option.some.inj h
        have hloop := travItems_spec (travNode_walked fuel) 0 (t.items n) h1
        obtain ⟨r, hr, hl⟩ := travAfter_spec (f := f) n stop
          { o1 with log := (travBefore f n s).log ++ o1.log }
        rw [hr, hl, hlog]
        exact hloop.walked r
    · rw [if_pos hres] at h
      obtain rfl := Option.some.inj h
      have hown : own n [Event.before n (travBefore f n s).res] = [.before n (travBefore f n s).res] :=
        own_eq_self fun e he => by
          rw [List.mem_singleton.mp he]
          rfl
      have hno : ∀ p o, Event.opened p o ∉ (travBefore f n s).log := by
        rw [hlog]
        exact fun p o hp => by cases List.mem_singleton.mp hp
      refine ⟨fun e he => ?_, fun e he => ?_, fun p o hp => absurd hp (hno p o), ?_, ?_,
        fun p hp => absurd hp (hno p _)⟩
      · rw [hlog] at he
        rw [List.mem_singleton.mp he]
        exact .refl
      · rw [hlog] at he
        rw [List.mem_singleton.mp he]
        exact Or.inl rfl
      · rw [hlog, hown]
        exact .skipped hres
      · rintro d (rfl | ⟨p, hp, -⟩)
        · refine ⟨_, ?_, id⟩
          rw [hlog, hown]
          exact .skipped hres
        · exact absurd hp (hno p _)

end Node

/-! ## It ends -/

section Ends

variable {visit : ν → σ → Option (Out ν σ)} {n : ν}

omit [DecidableEq ν]

theorem travUnits_total : ∀ (ps : List (Ptr ν)) (res : Int) (s : σ),
    (∀ p ∈ ps, ∀ s, ∃ o, visit (t.child p) s = some o) → ∃ x, travUnits t f visit ps res s = some x
  | [], res, s, _ => ⟨_, rfl⟩
  | p :: ps, res, s, h => by
    have hunit : ∃ x, travUnit t f visit p res s = some x := by
      unfold travUnit
      split
      · exact ⟨_, rfl⟩
      · exact ⟨_, rfl⟩
      · next s' _ =>
        obtain ⟨o, ho⟩ := h p List.mem_cons_self s'
        rw [ho]
        dsimp only
        split
        · exact ⟨_, rfl⟩
        · exact ⟨_, rfl⟩
    obtain ⟨⟨stop, o⟩, ho⟩ := hunit
    rw [travUnits, ho]
    cases stop with
    | true => exact ⟨_, rfl⟩
    | false =>
      obtain ⟨x, hx⟩ := travUnits_total ps o.res o.data fun p hp => h p (List.mem_cons_of_mem _ hp)
      dsimp only
      rw [hx]
      exact ⟨_, rfl⟩

theorem travItems_total : ∀ (i : Nat) (items : List (Option TravItem)) (res : Int) (s : σ),
    (∀ p ∈ itemPtrs n i items, ∀ s, ∃ o, visit (t.child p) s = some o) →
      ∃ x, travItems t f visit n i items res s = some x
  | i, [], res, s, _ => ⟨_, rfl⟩
  | i, none :: items, res, s, _ => ⟨_, rfl⟩
  | i, some it :: items, res, s, h => by
    rw [itemPtrs] at h
    rw [travItems]
    have hrest := fun p hp => h p (List.mem_append_right _ hp)
    split
    · next hb =>
      rw [if_pos hb] at h
      obtain ⟨⟨stop, o⟩, ho⟩ := travUnits_total (f := f) (unitPtrs n i it.units) res s
        fun p hp => h p (List.mem_append_left _ hp)
      rw [ho]
      cases stop with
      | true => exact ⟨_, rfl⟩
      | false =>
        obtain ⟨x, hx⟩ := travItems_total (i + 1) items o.res o.data hrest
        dsimp only
        rw [hx]
        exact ⟨_, rfl⟩
    · exact travItems_total (i + 1) items res s hrest

/-- The depth below a node is at most its level. -/
theorem travNode_total : ∀ (fuel : Nat) (n : ν) (s : σ), t.level n < fuel →
    ∃ o, travNode t f fuel n s = some o
  | 0, _, _, h => absurd h (Nat.not_lt_zero _)
  | fuel + 1, n, s, h => by
    unfold travNode
    dsimp only
    split
    · exact ⟨_, rfl⟩
    · obtain ⟨x, hx⟩ := travItems_total (t := t) (f := f) (n := n) 0 (t.items n) (travBefore f n s).res
        (travBefore f n s).data fun p hp s' => travNode_total fuel (t.child p) s' (by
          have hlt := t.lower p (TravTree.ptrs_self hp)
          rw [TravTree.ptrs_node hp] at hlt
          omega)
      rw [hx]
      exact ⟨_, rfl⟩

end Ends

/-! ## The result -/

/-- The own calls of a node are in the log. -/
theorem mem_log {d : ν} {log evs : List (Event ν)} (h : own d log = evs) {e : Event ν} (he : e ∈ evs) :
    e ∈ log := by
  rw [← h] at he
  exact (mem_own.mp he).1

/-- The calls of a node that was not ended by its before or update function, nor by a failure. -/
theorem calls_finished {d : ν} {r : Int} {log : List (Event ν)} (h : Calls t f d r (own d log))
    (hr : 0 ≤ r) (hc : Clean log) (hb : ∀ r, Event.before d r ∈ log → r = 0)
    (hu : ∀ p r, p.node = d → Event.updated p r ∈ log → r = 0) :
    ∃ done : List (Ptr ν × OpenRes), none ∉ t.items d ∧ done.map Prod.fst = t.ptrs d ∧
      own d log = entry f d ++ done.flatMap (pass f) ++ leave f d r := by
  generalize hevs : own d log = evs at h
  cases h with
  | skipped hne => exact absurd (hb r (mem_log hevs List.mem_cons_self)) hne
  | finished done hopen hall hvalid => exact ⟨done, hopen, hall, rfl⟩
  | @halted r' done rest last hall hvalid hlast =>
    have hin : ∀ e ∈ last, e ∈ own d log := fun e he => by
      rw [hevs]
      exact List.mem_append_left _ (List.mem_append_right _ he)
    cases hlast with
    | unopened hitem => exact absurd rfl ((hc _ (mem_own.mp (hin _ List.mem_cons_self)).1).1 _ _)
    | invalid => exact absurd rfl ((hc _ (mem_own.mp (hin _ List.mem_cons_self)).1).2 _)
    | child hneg => exact absurd hr (Int.not_le.mpr hneg)
    | @update _ p o ho hne =>
      obtain ⟨hmem, hnode⟩ := mem_own.mp (hin (.updated p r) (by simp))
      exact absurd (hu p r hnode hmem) hne

/-- The results of the before and the update function. -/
def Event.Gives (r : Int) : Event ν → Prop
  | .before _ r' => r' = 0 ∨ r' = r
  | .updated _ r' => r' = 0 ∨ r' = r
  | _ => True

omit [DecidableEq ν] in
/-- They are zero, or the one the traversal of the node ends with. -/
theorem calls_gives {d : ν} {r : Int} {evs : List (Event ν)} (h : Calls t f d r evs) :
    ∀ e ∈ evs, e.Gives r := by
  have hentry : ∀ e ∈ entry f d, e.Gives r := by
    intro e he
    unfold entry at he
    split at he
    · rw [List.mem_singleton.mp he]
      exact Or.inl rfl
    · exact absurd he List.not_mem_nil
  have hpass : ∀ (done : List (Ptr ν × OpenRes)), ∀ e ∈ done.flatMap (pass f), e.Gives r := by
    intro done e he
    obtain ⟨x, -, he⟩ := List.mem_flatMap.mp he
    rcases List.mem_cons.mp he with rfl | he
    · trivial
    · split at he
      · rw [List.mem_singleton.mp he]
        exact Or.inl rfl
      · exact absurd he List.not_mem_nil
  have hleave : ∀ r', ∀ e ∈ leave f d r', e.Gives r := by
    intro r' e he
    unfold leave at he
    split at he
    · rw [List.mem_singleton.mp he]
      trivial
    · exact absurd he List.not_mem_nil
  cases h with
  | skipped => exact List.forall_mem_singleton.mpr (Or.inr rfl)
  | finished done =>
    exact List.forall_mem_append.mpr ⟨List.forall_mem_append.mpr ⟨hentry, hpass done⟩, hleave r⟩
  | @halted r' done rest last hall hvalid hlast =>
    have hl : ∀ e ∈ last, e.Gives r := by
      cases hlast with
      | unopened => exact List.forall_mem_singleton.mpr trivial
      | invalid => exact List.forall_mem_singleton.mpr trivial
      | child => exact List.forall_mem_singleton.mpr trivial
      | update => exact List.forall_mem_cons.mpr ⟨trivial, List.forall_mem_singleton.mpr (Or.inr rfl)⟩
    exact List.forall_mem_append.mpr ⟨List.forall_mem_append.mpr
      ⟨List.forall_mem_append.mpr ⟨hentry, hpass done⟩, hl⟩, hleave r'⟩

/-- The result of the after function of a node whose loop was not ended. -/
theorem finished_after {d : ν} {r r' : Int} {log : List (Event ν)} {done : List (Ptr ν × OpenRes)}
    (h : own d log = entry f d ++ done.flatMap (pass f) ++ leave f d r) (he : Event.after d r' ∈ log) :
    r' = r := by
  have hin : Event.after d r' ∈ own d log := mem_own.mpr ⟨he, rfl⟩
  rw [h] at hin
  rcases List.mem_append.mp hin with hin | hin
  · rcases List.mem_append.mp hin with hin | hin
    · unfold entry at hin
      split at hin
      · cases List.mem_singleton.mp hin
      · exact absurd hin List.not_mem_nil
    · obtain ⟨x, -, hin⟩ := List.mem_flatMap.mp hin
      rcases List.mem_cons.mp hin with heq | hin
      · cases heq
      · split at hin
        · cases List.mem_singleton.mp hin
        · exact absurd hin List.not_mem_nil
  · unfold leave at hin
    split at hin
    · injection List.mem_singleton.mp hin
    · exact absurd hin List.not_mem_nil

/-- **A traversal without a failure and without a negative result is complete below its root.** -/
theorem Walked.complete {n : ν} {log : List (Event ν)} (h : Walked t f n 0 log) (hc : Clean log) :
    Complete t n log := by
  have hgives : ∀ e ∈ log, ∃ r, 0 ≤ r ∧ e.Gives r := by
    intro e he
    obtain ⟨r, hcalls, hr⟩ := h.calls _ (h.visited e he)
    exact ⟨r, hr (Int.le_refl 0), calls_gives hcalls e (mem_own.mpr ⟨he, rfl⟩)⟩
  have hroot : ∀ e ∈ log, e.node = n → e.Gives 0 := fun e he hn =>
    calls_gives h.root e (mem_own.mpr ⟨he, hn⟩)
  refine ⟨fun d r he => ?_, fun p r he => ?_, fun d hd hb hu => ?_, fun e he hn => ⟨?_, ?_, ?_⟩⟩
  · obtain ⟨r', hr', rfl | rfl⟩ := hgives _ he
    · exact Int.le_refl 0
    · exact hr'
  · obtain ⟨r', hr', rfl | rfl⟩ := hgives _ he
    · exact Int.le_refl 0
    · exact hr'
  · obtain ⟨r, hcalls, hr⟩ := h.calls d hd
    obtain ⟨done, hopen, hall, hown⟩ := calls_finished hcalls (hr (Int.le_refl 0)) hc hb hu
    refine ⟨hopen, fun p hp => ?_, fun r' he => ?_⟩
    · rw [← hall] at hp
      obtain ⟨x, hx, rfl⟩ := List.mem_map.mp hp
      exact ⟨x.2, mem_log hown (List.mem_append_left _ (List.mem_append_right _
        (List.mem_flatMap.mpr ⟨x, hx, List.mem_cons_self⟩)))⟩
    · rw [finished_after hown he]
      exact hr (Int.le_refl 0)
  · rintro r rfl
    exact (hroot _ he hn).elim id id
  · rintro p r rfl
    exact (hroot _ he hn).elim id id
  · rintro r rfl
    obtain ⟨done, -, -, hown⟩ := calls_finished h.root (Int.le_refl 0) hc
      (fun r hb => (hroot _ hb rfl).elim id id) (fun p r hp hu => (hroot _ hu hp).elim id id)
    exact finished_after hown he

/-- **The traversal of a tree** ends; each node it opens has its calls in order, those for a child
    stand right behind the open of its pointer, and a result of zero without a failure to open an item
    or a node means that it is complete. -/
theorem reiser4TreeTrav_complete (t : TravTree ν) (f : TravFuncs ν σ) (loadRoot : Int) (s : σ) (fuel : Nat)
    (hfuel : t.level t.root < fuel) :
    ∃ o : Out ν σ, reiser4TreeTrav t f loadRoot fuel s = some o ∧
      (loadRoot ≠ 0 → o.res = loadRoot ∧ o.log = []) ∧
      (loadRoot = 0 → Walked t f t.root o.res o.log ∧
        (o.res = 0 → Clean o.log → Complete t t.root o.log)) := by
  unfold reiser4TreeTrav
  by_cases hl : loadRoot = 0
  · obtain ⟨o, ho⟩ := travNode_total (f := f) fuel t.root s hfuel
    have hw := travNode_walked fuel t.root s o ho
    rw [if_neg (not_not_intro hl)]
    refine ⟨o, ho, absurd hl, fun _ => ⟨hw, fun h0 => ?_⟩⟩
    rw [h0] at hw
    exact hw.complete
  · rw [if_pos hl]
    exact ⟨_, rfl, fun _ => ⟨rfl, rfl⟩, fun h => absurd h hl⟩

end Assemble

/-! ## A chain of three nodes -/

/-- Every child pointer of every visited node is opened. -/
def AllOpened {ν : Type} (t : TravTree ν) (n : ν) (log : List (Event ν)) : Prop :=
  ∀ d, Visited t n log d → ∀ p ∈ t.ptrs d, ∃ o, Event.opened p o ∈ log

/-- The root 2 over the node 1 over the leaf 0. -/
def chain : TravTree Nat where
  root := 2
  items n := if n = 0 then [] else [some ⟨true, 1⟩]
  child p := p.node - 1
  loads _ := true
  level n := n
  lower p hp := by
    by_cases h : p.node = 0
    · rw [if_pos h] at hp
      exact absurd hp List.not_mem_nil
    · omega
  inj p q hp hq hpq := by
    have hsingle : ∀ p : Ptr Nat, p ∈ itemPtrs p.node 0 (if p.node = 0 then [] else [some ⟨true, 1⟩]) →
        0 < p.node ∧ p = ⟨p.node, 0, 0⟩ := by
      intro p hp
      by_cases h : p.node = 0
      · rw [if_pos h] at hp
        exact absurd hp List.not_mem_nil
      · rw [if_neg h] at hp
        exact ⟨Nat.pos_of_ne_zero h, List.mem_singleton.mp hp⟩
    obtain ⟨h1, hp'⟩ := hsingle p hp
    obtain ⟨h2, hq'⟩ := hsingle q hq
    have hnode : p.node = q.node := by omega
    rw [hp', hq', hnode]

/-- `RE_FATAL`. -/
def reFatal : Int := 8589934592

/-- A check that finds the node 1 fatally broken, like `repair_filter_node_check`. -/
def fatalFuncs : TravFuncs Nat Unit where
  openFunc := none
  beforeFunc := some fun n s => (if n = 1 then reFatal else 0, s)
  updateFunc := some fun _ s => (0, s)
  afterFunc := some fun _ s => (0, s)

/-- The chain is traversed. -/
theorem reiser4TreeTrav_chain : ∃ o : Out Nat Unit, reiser4TreeTrav chain fatalFuncs 0 3 () = some o ∧
    ((0 : Int) ≠ 0 → o.res = 0 ∧ o.log = []) ∧
    ((0 : Int) = 0 → Walked chain fatalFuncs 2 o.res o.log ∧
      (o.res = 0 → Clean o.log → Complete chain 2 o.log)) :=
  reiser4TreeTrav_complete chain fatalFuncs 0 () 3 (by decide)

/-- The children of a node whose before function gives `RE_FATAL` are not opened, and the result of
    the traversal is zero. -/
theorem reiser4TreeTrav_fatal : ∃ o : Out Nat Unit,
    reiser4TreeTrav chain fatalFuncs 0 3 () = some o ∧ o.res = 0 ∧ Event.before 1 reFatal ∈ o.log ∧
      ¬AllOpened chain 2 o.log := by
  refine ⟨_, rfl, rfl, by decide, fun h => ?_⟩
  obtain ⟨o, ho⟩ := h 1 (Or.inr ⟨⟨2, 0, 0⟩, by decide, rfl⟩) ⟨1, 0, 0⟩ (by decide)
  revert ho
  cases o <;> decide

end Reiser4.Trav
