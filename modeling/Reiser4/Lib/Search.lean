/-
  Depth-first search in a graph given by the links of each node.

  The search visits a node before what it links to, only nodes that are `inside`, and none twice; the
  list of the visited nodes, in order, is its state.

    1. `Explored`         what a search adds to the list: new nodes, each reached, and all that they
       link to is in the list too;
    2. `dfs_total`        where the inside is finite, some depth is enough;
    3. `mem_dfs_iff`      from the empty list a search visits exactly what can be reached.
-/
import Mathlib.Data.Finset.Card
import Mathlib.Logic.Relation

namespace Reiser4.Lib

variable {α : Type} (links : α → List α) (inside : α → Bool)

/-- A link to a node inside. -/
def LinkTo (a b : α) : Prop := b ∈ links a ∧ inside b = true

/-- The node is reached from `root` along links that stay inside. -/
def ReachedFrom (root b : α) : Prop :=
  inside root = true ∧ Relation.ReflTransGen (LinkTo links inside) root b

/-- What searches from the nodes `roots` add to the visited nodes. -/
structure Explored (roots seen seen' : List α) : Prop where
  grows : ∃ new, seen' = seen ++ new ∧ new.Nodup ∧ ∀ b ∈ new, b ∉ seen ∧ inside b = true ∧
    (∃ r ∈ roots, ReachedFrom links inside r b) ∧ ∀ c ∈ links b, inside c = true → c ∈ seen'
  roots : ∀ r ∈ roots, inside r = true → r ∈ seen'

/-- The search from a node, `seen` being the nodes visited before. -/
def dfs [DecidableEq α] : Nat → α → List α → Option (List α)
  | 0, _, _ => none
  | fuel + 1, a, seen =>
    if inside a = true ∧ a ∉ seen then
      (links a).foldlM (fun seen b => dfs fuel b seen) (seen ++ [a])
    else some seen

variable {links inside} {a root b : α} {roots roots' seen seen' seen'' : List α}

theorem ReachedFrom.isInside (h : ReachedFrom links inside root b) : inside b = true := by
  obtain ⟨hroot, hreach⟩ := h
  cases hreach with
  | refl => exact hroot
  | tail _ hlink => exact hlink.2

theorem ReachedFrom.tail {c : α} (h : ReachedFrom links inside root b) (hc : c ∈ links b)
    (hin : inside c = true) : ReachedFrom links inside root c :=
  ⟨h.1, h.2.tail ⟨hc, hin⟩⟩

theorem Explored.subset (h : Explored links inside roots seen seen') : ∀ b ∈ seen, b ∈ seen' := by
  obtain ⟨new, rfl, -⟩ := h.grows
  exact fun b hb => List.mem_append_left _ hb

theorem Explored.nil (seen : List α) : Explored links inside [] seen seen :=
  ⟨⟨[], by simp, List.nodup_nil, by simp⟩, by simp⟩

/-- One search after the other. -/
theorem Explored.append (h : Explored links inside roots seen seen')
    (h' : Explored links inside roots' seen' seen'') :
    Explored links inside (roots ++ roots') seen seen'' := by
  have hsub := h'.subset
  obtain ⟨new, rfl, hnodup, hnew⟩ := h.grows
  obtain ⟨new', rfl, hnodup', hnew'⟩ := h'.grows
  refine ⟨⟨new ++ new', List.append_assoc _ _ _, ?_, ?_⟩, ?_⟩
  · refine List.nodup_append.mpr ⟨hnodup, hnodup', ?_⟩
    rintro b hb c hc rfl
    exact (hnew' b hc).1 (List.mem_append_right _ hb)
  · intro b hb
    rcases List.mem_append.mp hb with hb | hb
    · obtain ⟨h1, h2, ⟨r, hr, hreach⟩, h4⟩ := hnew b hb
      exact ⟨h1, h2, ⟨r, List.mem_append_left _ hr, hreach⟩, fun c hc hin => hsub c (h4 c hc hin)⟩
    · obtain ⟨h1, h2, ⟨r, hr, hreach⟩, h4⟩ := hnew' b hb
      exact ⟨fun hs => h1 (List.mem_append_left _ hs), h2,
        ⟨r, List.mem_append_right _ hr, hreach⟩, h4⟩
  · intro r hr hin
    rcases List.mem_append.mp hr with hr | hr
    · exact hsub r (h.roots r hr hin)
    · exact h'.roots r hr hin

/-- A node that is visited now, and then all it links to. -/
theorem Explored.visit (hin : inside a = true) (hnew : a ∉ seen)
    (h : Explored links inside (links a) (seen ++ [a]) seen') :
    Explored links inside [a] seen seen' := by
  have hsub := h.subset
  have hroots := h.roots
  obtain ⟨new, rfl, hnodup, hadded⟩ := h.grows
  refine ⟨⟨a :: new, by simp, ?_, ?_⟩, ?_⟩
  · refine List.nodup_cons.mpr ⟨?_, hnodup⟩
    intro ha
    exact (hadded a ha).1 (by simp)
  · intro b hb
    rcases List.mem_cons.mp hb with rfl | hb
    · exact ⟨hnew, hin, ⟨b, by simp, hin, Relation.ReflTransGen.refl⟩, hroots⟩
    · obtain ⟨h1, h2, ⟨r, hr, hreach⟩, h4⟩ := hadded b hb
      refine ⟨fun hs => h1 (List.mem_append_left _ hs), h2, ⟨a, by simp, hin, ?_⟩, h4⟩
      exact hreach.2.head ⟨hr, hreach.1⟩
  · intro r hr _
    rw [List.mem_singleton.mp hr]
    exact hsub a (by simp)

/-- Searches from several nodes, one after the other. -/
theorem explored_foldlM {f : List α → α → Option (List α)}
    (hf : ∀ seen b seen', f seen b = some seen' → Explored links inside [b] seen seen') :
    ∀ {roots seen seen' : List α}, roots.foldlM f seen = some seen' →
      Explored links inside roots seen seen'
  | [], seen, _, h => by
    cases h
    exact Explored.nil seen
  | b :: roots, seen, seen', h => by
    rw [List.foldlM_cons] at h
    obtain ⟨mid, h1, h2⟩ := Option.bind_eq_some_iff.mp h
    exact (hf seen b mid h1).append (explored_foldlM hf h2)

variable [DecidableEq α]

/-- Step lemma of the search. -/
theorem dfs_explored : ∀ {fuel : Nat} {a : α} {seen seen' : List α},
    dfs links inside fuel a seen = some seen' → Explored links inside [a] seen seen'
  | 0, _, _, _, h => by cases h
  | fuel + 1, a, seen, seen', h => by
    rw [dfs] at h
    split at h
    · next hvisit =>
      exact Explored.visit hvisit.1 hvisit.2 (explored_foldlM (fun _ _ _ => dfs_explored) h)
    · next hskip =>
      cases h
      refine ⟨⟨[], by simp, List.nodup_nil, by simp⟩, ?_⟩
      intro r hr hin
      rw [List.mem_singleton.mp hr] at hin ⊢
      by_contra hno
      exact hskip ⟨hin, hno⟩

/-- The nodes inside that are not visited. -/
def unseen (s : Finset α) (seen : List α) : Finset α := s.filter (· ∉ seen)

theorem unseen_card_le {s : Finset α} (h : ∀ b ∈ seen, b ∈ seen') :
    (unseen s seen').card ≤ (unseen s seen).card := by
  apply Finset.card_le_card
  intro b hb
  obtain ⟨h1, h2⟩ := Finset.mem_filter.mp hb
  exact Finset.mem_filter.mpr ⟨h1, fun hs => h2 (h b hs)⟩

theorem unseen_card_lt {s : Finset α} (ha : a ∈ s) (hnew : a ∉ seen) :
    (unseen s (seen ++ [a])).card < (unseen s seen).card := by
  apply Finset.card_lt_card
  refine ⟨?_, ?_⟩
  · intro b hb
    obtain ⟨h1, h2⟩ := Finset.mem_filter.mp hb
    exact Finset.mem_filter.mpr ⟨h1, fun hs => h2 (List.mem_append_left _ hs)⟩
  · intro hsub
    have := hsub (Finset.mem_filter.mpr ⟨ha, hnew⟩)
    exact (Finset.mem_filter.mp this).2 (by simp)

/-- A search needs no more depth than there are nodes left. -/
theorem dfs_total {s : Finset α} (hs : ∀ a, inside a = true → a ∈ s) :
    ∀ {fuel : Nat} {a : α} {seen : List α}, (unseen s seen).card < fuel →
      ∃ seen', dfs links inside fuel a seen = some seen'
  | 0, _, _, h => absurd h (Nat.not_lt_zero _)
  | fuel + 1, a, seen, h => by
    rw [dfs]
    split
    · next hvisit =>
      have hlt := unseen_card_lt (hs a hvisit.1) hvisit.2
      have hall : ∀ (roots seen : List α), (unseen s seen).card < fuel →
          ∃ seen', roots.foldlM (fun seen b => dfs links inside fuel b seen) seen = some seen' := by
        intro roots
        induction roots with
        | nil => exact fun seen _ => ⟨seen, rfl⟩
        | cons b roots ih =>
          intro seen hseen
          obtain ⟨mid, hmid⟩ : ∃ mid, dfs links inside fuel b seen = some mid := dfs_total hs hseen
          have hle := unseen_card_le (s := s) (dfs_explored hmid).subset
          obtain ⟨seen', hseen'⟩ := ih mid (by omega)
          exact ⟨seen', by rw [List.foldlM_cons, hmid]; exact hseen'⟩
      exact hall (links a) (seen ++ [a]) (by omega)
    · exact ⟨seen, rfl⟩

/-- **A search visits exactly what can be reached**, each node once. -/
theorem mem_dfs_iff (h : dfs links inside fuel root [] = some seen) :
    seen.Nodup ∧ ∀ b, b ∈ seen ↔ ReachedFrom links inside root b := by
  have hexp := dfs_explored h
  have hroot := hexp.roots
  obtain ⟨new, hnew', hnodup, hnew⟩ := hexp.grows
  rw [List.nil_append] at hnew'
  rw [← hnew'] at hnew hnodup
  refine ⟨hnodup, ?_⟩
  intro b
  constructor
  · intro hb
    obtain ⟨-, -, ⟨r, hr, hreach⟩, -⟩ := hnew b hb
    rwa [List.mem_singleton.mp hr] at hreach
  · rintro ⟨hin, hreach⟩
    induction hreach with
    | refl => exact hroot root (by simp) hin
    | tail _ hlink ih => exact (hnew _ ih).2.2.2 _ hlink.1 hlink.2

end Reiser4.Lib
