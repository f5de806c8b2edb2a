/-
  Byte buffers with pointwise memory moves and little-endian numbers.

  A buffer is a total function `Nat → UInt8`; a C routine that owns `size` bytes only looks at the
  positions below `size`, and the lemmas say where an operation can change anything.  The point of
  the pointwise form is that `memmove`, `memcpy` and `memset` become one `if` on the position, so
  every frame condition of a byte-level program is linear arithmetic on positions.

    * `move b dst src n`     `memmove(b + dst, b + src, n)` inside one buffer (overlap allowed)
    * `copy b dst b' src n`  `memcpy(b + dst, b' + src, n)` between two buffers
    * `fill b o n v`         `memset(b + o, v, n)`
    * `getLe n b o`          the `n`-byte little-endian number at `o`
    * `setLe n b o v`        the same field overwritten with `v`, truncated to `n` bytes
    * `Reads`, `Writes`      which bytes a getter depends on and a setter changes
    * `strneq`, `strncpy`    the comparison and the copy of strings that end with a zero byte
    * `cstr`, `HoldsStr`     such a string as the list of its bytes

  The crux lemmas are `getLe_setLe` (a field reads back what was stored, modulo its width) and
  `getLe_congr` (a field depends on its own bytes only); the disjointness lemmas follow from it.
-/
import Mathlib.Tactic.Common
import Mathlib.Tactic.Ring

namespace Reiser4.Lib

/-- A buffer of bytes, addressed by offset. -/
abbrev Bytes := Nat → UInt8

namespace Bytes

/-! ## Moves, copies and fills -/

/-- The buffer that holds zero everywhere. -/
def zero : Bytes := fun _ => 0

/-- `memmove(b + dst, b + src, n)`: all sources are read before any target is written. -/
def move (b : Bytes) (dst src n : Nat) : Bytes :=
  fun i => if dst ≤ i ∧ i < dst + n then b (i - dst + src) else b i

/-- `memcpy(b + dst, b' + src, n)` from another buffer. -/
def copy (b : Bytes) (dst : Nat) (b' : Bytes) (src n : Nat) : Bytes :=
  fun i => if dst ≤ i ∧ i < dst + n then b' (i - dst + src) else b i

/-- `memset(b + o, v, n)`. -/
def fill (b : Bytes) (o n : Nat) (v : UInt8) : Bytes :=
  fun i => if o ≤ i ∧ i < o + n then v else b i

/-- The string `s` stored at offset `o`. -/
def putStr (b : Bytes) (o : Nat) (s : List UInt8) : Bytes :=
  fun i => if o ≤ i ∧ i < o + s.length then s.getD (i - o) 0 else b i

/-- The list of the `n` bytes from offset `o` on. -/
def slice (b : Bytes) (o n : Nat) : List UInt8 := (List.range n).map (fun i => b (o + i))

theorem move_in (b : Bytes) (dst src n i : Nat) (h1 : dst ≤ i) (h2 : i < dst + n) :
    move b dst src n i = b (i - dst + src) := if_pos ⟨h1, h2⟩

theorem move_out (b : Bytes) (dst src n i : Nat) (h : i < dst ∨ dst + n ≤ i) :
    move b dst src n i = b i := if_neg (by omega)

theorem copy_in (b : Bytes) (dst : Nat) (b' : Bytes) (src n i : Nat)
    (h1 : dst ≤ i) (h2 : i < dst + n) : copy b dst b' src n i = b' (i - dst + src) :=
  if_pos ⟨h1, h2⟩

theorem copy_out (b : Bytes) (dst : Nat) (b' : Bytes) (src n i : Nat)
    (h : i < dst ∨ dst + n ≤ i) : copy b dst b' src n i = b i := if_neg (by omega)

theorem fill_in (b : Bytes) (o n : Nat) (v : UInt8) (i : Nat) (h1 : o ≤ i) (h2 : i < o + n) :
    fill b o n v i = v := if_pos ⟨h1, h2⟩

theorem fill_out (b : Bytes) (o n : Nat) (v : UInt8) (i : Nat) (h : i < o ∨ o + n ≤ i) :
    fill b o n v i = b i := if_neg (by omega)

@[simp] theorem slice_length (b : Bytes) (o n : Nat) : (slice b o n).length = n := by
  simp [slice]

theorem slice_getElem? (b : Bytes) (o n i : Nat) (h : i < n) : (slice b o n)[i]? = some (b (o + i)) := by
  simp [slice, h]

/-- A slice depends only on the bytes it covers. -/
theorem slice_congr (b b' : Bytes) (o o' n : Nat) (h : ∀ i, i < n → b (o + i) = b' (o' + i)) :
    slice b o n = slice b' o' n := by
  refine List.map_congr_left ?_
  intro i hi
  exact h i (List.mem_range.mp hi)

/-! ## Little-endian numbers -/

/-- The `n`-byte little-endian number stored at offset `o`. -/
def getLe : Nat → Bytes → Nat → Nat
  | 0, _, _ => 0
  | n + 1, b, o => (b o).toNat + 256 * getLe n b (o + 1)

/-- The buffer with the `n`-byte field at `o` set to `v`; the digits above the width are lost. -/
def setLe (n : Nat) (b : Bytes) (o v : Nat) : Bytes :=
  fun i => if o ≤ i ∧ i < o + n then UInt8.ofNat (v / 256 ^ (i - o)) else b i

theorem setLe_out (n : Nat) (b : Bytes) (o v i : Nat) (h : i < o ∨ o + n ≤ i) :
    setLe n b o v i = b i := if_neg (by omega)

theorem getLe_lt : ∀ (n : Nat) (b : Bytes) (o : Nat), getLe n b o < 256 ^ n
  | 0, _, _ => by simp [getLe]
  | n + 1, b, o => by
    have ih := getLe_lt n b (o + 1)
    have hb : (b o).toNat < 256 := (b o).toNat_lt
    rw [getLe, pow_succ]
    omega

/-- A field depends on its own bytes only. -/
theorem getLe_congr : ∀ (n : Nat) (b b' : Bytes) (o o' : Nat),
    (∀ i, i < n → b (o + i) = b' (o' + i)) → getLe n b o = getLe n b' o'
  | 0, _, _, _, _, _ => rfl
  | n + 1, b, b', o, o', h => by
    have h0 : b o = b' o' := by simpa using h 0 (by omega)
    have ih := getLe_congr n b b' (o + 1) (o' + 1) (by
      intro i hi
      have := h (i + 1) (by omega)
      rwa [show o + (i + 1) = o + 1 + i by omega, show o' + (i + 1) = o' + 1 + i by omega] at this)
    rw [getLe, getLe, h0, ih]

/-- The digits of `v` read back as `v` modulo the width of the field. -/
theorem getLe_digits : ∀ (n : Nat) (b : Bytes) (o v : Nat),
    (∀ i, i < n → b (o + i) = UInt8.ofNat (v / 256 ^ i)) → getLe n b o = v % 256 ^ n
  | 0, _, _, v, _ => by simp [getLe, Nat.mod_one]
  | n + 1, b, o, v, h => by
    have h0 : b o = UInt8.ofNat v := by simpa using h 0 (by omega)
    have ih := getLe_digits n b (o + 1) (v / 256) (by
      intro i hi
      have := h (i + 1) (by omega)
      rw [show o + (i + 1) = o + 1 + i by omega] at this
      rw [this, Nat.div_div_eq_div_mul, pow_succ, Nat.mul_comm])
    rw [getLe, h0, ih, pow_succ, Nat.mul_comm (256 ^ n) 256, Nat.mod_mul]
    simp

/-- **A field reads back what was stored in it**, truncated to its width. -/
theorem getLe_setLe (n : Nat) (b : Bytes) (o v : Nat) :
    getLe n (setLe n b o v) o = v % 256 ^ n := by
  refine getLe_digits n _ o v ?_
  intro i hi
  rw [setLe, if_pos (by omega), Nat.add_sub_cancel_left]

theorem getLe_setLe_of_lt (n : Nat) (b : Bytes) (o v : Nat) (h : v < 256 ^ n) :
    getLe n (setLe n b o v) o = v := by
  rw [getLe_setLe, Nat.mod_eq_of_lt h]

/-- Storing one field leaves every disjoint field alone. -/
theorem getLe_setLe_disj (n m : Nat) (b : Bytes) (o p v : Nat) (h : p + m ≤ o ∨ o + n ≤ p) :
    getLe m (setLe n b o v) p = getLe m b p :=
  getLe_congr m _ _ p p (fun i hi => setLe_out n b o v (p + i) (by omega))

/-- `memcmp(b + o, s, length s) == 0`. -/
def memeq (b : Bytes) (o : Nat) (s : List UInt8) : Bool := slice b o s.length == s

theorem memeq_iff {b : Bytes} {o : Nat} {s : List UInt8} :
    memeq b o s = true ↔ ∀ i (h : i < s.length), b (o + i) = s.get ⟨i, h⟩ := by
  unfold memeq
  rw [beq_iff_eq, List.ext_getElem_iff]
  simp [slice]

/-! ## Strings that end with a zero byte -/

/-- `strncmp(b + o, b' + o', n) == 0`. -/
def strneq : Nat → Bytes → Nat → Bytes → Nat → Bool
  | 0, _, _, _, _ => true
  | n + 1, b, o, b', o' => b o == b' o' && (b o == 0 || strneq n b (o + 1) b' (o' + 1))

/-- `strncpy(b + dst, b' + src, n)`: behind the end of the string the field is zero. -/
def strncpy (b : Bytes) (dst : Nat) (b' : Bytes) (src n : Nat) : Bytes :=
  fun i => if dst ≤ i ∧ i < dst + n then
      if ∀ j, j < i - dst → b' (src + j) ≠ 0 then b' (src + (i - dst)) else 0
    else b i

/-- Strings are equal when their bytes agree up to the first zero byte. -/
theorem strneq_iff : ∀ {n : Nat} {b b' : Bytes} {o o' : Nat}, strneq n b o b' o' = true ↔
    ∀ i, i < n → (∀ j, j < i → b (o + j) ≠ 0) → b (o + i) = b' (o' + i)
  | 0, _, _, _, _ => by simp [strneq]
  | n + 1, b, b', o, o' => by
    rw [strneq, Bool.and_eq_true, beq_iff_eq, Bool.or_eq_true, beq_iff_eq, strneq_iff]
    constructor
    · rintro ⟨h0, hrest⟩ i hi hnz
      cases i with
      | zero => exact h0
      | succ i =>
        rcases hrest with hz | hrest
        · exact absurd hz (hnz 0 (Nat.succ_pos i))
        · have h := hrest i (by omega) fun j hj => by
            have := hnz (j + 1) (by omega)
            rwa [show o + (j + 1) = o + 1 + j by omega] at this
          rwa [show o + 1 + i = o + (i + 1) by omega, show o' + 1 + i = o' + (i + 1) by omega] at h
    · intro h
      refine ⟨h 0 (Nat.succ_pos n) nofun, ?_⟩
      by_cases hz : b o = 0
      · exact Or.inl hz
      · refine Or.inr fun i hi hnz => ?_
        have := h (i + 1) (by omega) fun j hj => by
          cases j with
          | zero => exact hz
          | succ j =>
            have := hnz j (by omega)
            rwa [show o + (j + 1) = o + 1 + j by omega]
        rwa [show o + 1 + i = o + (i + 1) by omega, show o' + 1 + i = o' + (i + 1) by omega]

theorem strneq_refl {n : Nat} {b b' : Bytes} {o o' : Nat}
    (h : ∀ i, i < n → b (o + i) = b' (o' + i)) : strneq n b o b' o' = true :=
  strneq_iff.mpr fun i hi _ => h i hi

/-- A comparison depends on the compared bytes only. -/
theorem strneq_congr : ∀ {n : Nat} {b c b' : Bytes} {o o' : Nat},
    (∀ i, i < n → b (o + i) = c (o + i)) → strneq n b o b' o' = strneq n c o b' o'
  | 0, _, _, _, _, _, _ => rfl
  | n + 1, b, c, b', o, o', h => by
    have h0 : b o = c o := h 0 (Nat.succ_pos n)
    have hrest : strneq n b (o + 1) b' (o' + 1) = strneq n c (o + 1) b' (o' + 1) :=
      strneq_congr fun i hi => by
        rw [show o + 1 + i = o + (i + 1) by omega]
        exact h (i + 1) (by omega)
    rw [strneq, strneq, h0, hrest]

theorem strncpy_out (b : Bytes) (dst : Nat) (b' : Bytes) (src n i : Nat)
    (h : i < dst ∨ dst + n ≤ i) : strncpy b dst b' src n i = b i := if_neg (by omega)

/-- The bytes of the string, with the zero byte that ends it. -/
theorem strncpy_in (b : Bytes) (dst : Nat) (b' : Bytes) (src n i : Nat) (hi : i < n)
    (h : ∀ j, j < i → b' (src + j) ≠ 0) : strncpy b dst b' src n (dst + i) = b' (src + i) := by
  unfold strncpy
  rw [if_pos (by omega), Nat.add_sub_cancel_left, if_pos h]

/-- The bytes behind it. -/
theorem strncpy_end (b : Bytes) (dst : Nat) (b' : Bytes) (src n i : Nat) (hi : i < n) {j : Nat}
    (hj : j < i) (h : b' (src + j) = 0) : strncpy b dst b' src n (dst + i) = 0 := by
  unfold strncpy
  rw [if_pos (by omega), Nat.add_sub_cancel_left, if_neg fun hall => hall j hj h]

/-- The copy of a string is the string. -/
theorem strneq_strncpy (b : Bytes) (dst : Nat) (b' : Bytes) (src n : Nat) :
    strneq n (strncpy b dst b' src n) dst b' src = true := by
  refine strneq_iff.mpr fun i hi hnz => strncpy_in _ _ _ _ _ _ hi ?_
  intro j
  induction j using Nat.strong_induction_on with
  | _ j ih =>
    intro hj hz
    have hcopy : strncpy b dst b' src n (dst + j) = b' (src + j) :=
      strncpy_in _ _ _ _ _ _ (by omega) fun l hl => ih l hl (by omega)
    exact hnz j hj (hcopy.trans hz)

/-! ## Strings as lists -/

theorem putStr_in (b : Bytes) (o : Nat) (s : List UInt8) (i : Nat) (hi : i < s.length) :
    putStr b o s (o + i) = s.get ⟨i, hi⟩ := by
  unfold putStr
  rw [if_pos (by omega), Nat.add_sub_cancel_left]
  simp [hi]

theorem putStr_out (b : Bytes) (o : Nat) (s : List UInt8) (i : Nat)
    (h : i < o ∨ o + s.length ≤ i) : putStr b o s i = b i := if_neg (by omega)

/-- The string at offset `o`: the bytes before the first zero, `n` of them at most. -/
def cstr : Nat → Bytes → Nat → List UInt8
  | 0, _, _ => []
  | n + 1, b, o => if b o = 0 then [] else b o :: cstr n b (o + 1)

/-- The string `s` with the zero byte that ends it is stored at offset `o`. -/
def HoldsStr (b : Bytes) (o : Nat) (s : List UInt8) : Prop :=
  (∀ i (h : i < s.length), b (o + i) = s.get ⟨i, h⟩) ∧ b (o + s.length) = 0

theorem HoldsStr.congr {b b' : Bytes} {o o' : Nat} {s : List UInt8} (h : HoldsStr b o s)
    (hb : ∀ i, i < s.length + 1 → b' (o' + i) = b (o + i)) : HoldsStr b' o' s := by
  constructor
  · intro i hi
    rw [hb i (by omega), h.1 i hi]
  · rw [hb s.length (by omega), h.2]

theorem cstr_no_zero : ∀ (n : Nat) (b : Bytes) (o : Nat), 0 ∉ cstr n b o
  | 0, _, _ => nofun
  | n + 1, b, o => by
    rw [cstr]
    by_cases h0 : b o = 0
    · rw [if_pos h0]
      nofun
    · rw [if_neg h0, List.mem_cons]
      rintro (h | h)
      · exact h0 h.symm
      · exact cstr_no_zero n b (o + 1) h

/-- A string that is stored with its zero byte reads back. -/
theorem HoldsStr.cstr_eq : ∀ {n : Nat} {b : Bytes} {o : Nat} {s : List UInt8}, HoldsStr b o s →
    0 ∉ s → s.length < n → cstr n b o = s
  | 0, _, _, _, _, _, hn => absurd hn (Nat.not_lt_zero _)
  | n + 1, b, o, [], h, _, _ => by
    rw [cstr, if_pos (show b o = 0 from h.2)]
  | n + 1, b, o, c :: s, h, h0, hn => by
    rw [List.mem_cons, not_or] at h0
    have hc : b o = c := h.1 0 (Nat.succ_pos _)
    have hrest : HoldsStr b (o + 1) s := by
      constructor
      · intro i hi
        have := h.1 (i + 1) (Nat.succ_lt_succ hi)
        rwa [← Nat.add_assoc, Nat.add_right_comm] at this
      · have := h.2
        rwa [List.length_cons, ← Nat.add_assoc, Nat.add_right_comm] at this
    rw [cstr, hc, if_neg fun hz => h0.1 hz.symm,
      hrest.cstr_eq h0.2 (Nat.lt_of_succ_lt_succ hn)]

/-- What is read as a string within the bound is stored there with its zero byte. -/
theorem holdsStr_cstr : ∀ {n : Nat} {b : Bytes} {o : Nat}, (cstr n b o).length < n →
    HoldsStr b o (cstr n b o)
  | 0, _, _, hn => absurd hn (Nat.not_lt_zero _)
  | n + 1, b, o, hn => by
    rw [cstr] at hn ⊢
    by_cases h0 : b o = 0
    · rw [if_pos h0]
      exact ⟨fun i hi => absurd hi (Nat.not_lt_zero i), h0⟩
    · rw [if_neg h0] at hn ⊢
      have ih := holdsStr_cstr (Nat.lt_of_succ_lt_succ hn)
      constructor
      · intro i hi
        cases i with
        | zero => rfl
        | succ i =>
          have := ih.1 i (Nat.lt_of_succ_lt_succ hi)
          rwa [Nat.add_right_comm, Nat.add_assoc] at this
      · have := ih.2
        rwa [Nat.add_right_comm, Nat.add_assoc] at this

/-- A string goes up to the first zero byte, or to the bound. -/
theorem cstr_spec : ∀ (n : Nat) (b : Bytes) (o : Nat), (cstr n b o).length ≤ n ∧
    (∀ i, i < (cstr n b o).length → b (o + i) ≠ 0) ∧
    ((cstr n b o).length < n → b (o + (cstr n b o).length) = 0)
  | 0, _, _ => ⟨Nat.le_refl _, fun _ hi => absurd hi (Nat.not_lt_zero _), fun h => absurd h (Nat.not_lt_zero _)⟩
  | n + 1, b, o => by
    rw [cstr]
    by_cases h0 : b o = 0
    · rw [if_pos h0]
      exact ⟨Nat.zero_le _, fun _ hi => absurd hi (Nat.not_lt_zero _), fun _ => h0⟩
    · obtain ⟨hle, hne, hend⟩ := cstr_spec n b (o + 1)
      rw [if_neg h0, List.length_cons]
      refine ⟨Nat.succ_le_succ hle, fun i hi => ?_, fun hlt => ?_⟩
      · cases i with
        | zero => exact h0
        | succ i =>
          have := hne i (Nat.lt_of_succ_lt_succ hi)
          rwa [Nat.add_assoc, Nat.add_comm 1 i] at this
      · have := hend (Nat.lt_of_succ_lt_succ hlt)
        rwa [Nat.add_assoc, Nat.add_comm 1] at this

/-- The length of a string, by its zero byte. -/
theorem cstr_length_eq {n k : Nat} {b : Bytes} {o : Nat} (hk : k < n) (hne : ∀ i, i < k → b (o + i) ≠ 0)
    (h0 : b (o + k) = 0) : (cstr n b o).length = k := by
  obtain ⟨-, hne', hend⟩ := cstr_spec n b o
  rcases Nat.lt_trichotomy (cstr n b o).length k with hlt | heq | hgt
  · exact absurd (hend (Nat.lt_trans hlt hk)) (hne _ hlt)
  · exact heq
  · exact absurd h0 (hne' _ hgt)

/-! ## Fields by their ranges -/

section Ranges

variable {α β : Type} {F : Bytes → α} {g : Bytes → Bytes} {o n p m : Nat}

/-- `F` depends on the `n` bytes from `o` on. -/
def Reads (F : Bytes → α) (o n : Nat) : Prop :=
  ∀ b b' : Bytes, (∀ i, i < n → b (o + i) = b' (o + i)) → F b = F b'

/-- `g` changes nothing but the `n` bytes from `o` on. -/
def Writes (g : Bytes → Bytes) (o n : Nat) : Prop :=
  ∀ (b : Bytes) (i : Nat), i < o ∨ o + n ≤ i → g b i = b i

/-- What is written beside a field does not change it. -/
theorem Reads.apart (hF : Reads F o n) (hg : Writes g p m) (h : o + n ≤ p ∨ p + m ≤ o) (b : Bytes) :
    F (g b) = F b :=
  hF (g b) b fun i hi => hg b (o + i) (by omega)

theorem Reads.comp (hF : Reads F o n) (f : α → β) : Reads (fun b => f (F b)) o n :=
  fun b b' h => congrArg f (hF b b' h)

theorem reads_getLe (n o : Nat) : Reads (fun b => getLe n b o) o n :=
  fun b b' h => getLe_congr n b b' o o h

theorem reads_strneq (n o : Nat) (b' : Bytes) (o' : Nat) : Reads (fun b => strneq n b o b' o') o n :=
  fun _ _ h => strneq_congr h

theorem writes_setLe (n o : Nat) (v : Bytes → Nat) : Writes (fun b => setLe n b o (v b)) o n :=
  fun b i h => setLe_out n b o (v b) i h

theorem writes_strncpy (dst : Nat) (b' : Bytes) (src n : Nat) :
    Writes (fun b => strncpy b dst b' src n) dst n :=
  fun b i h => strncpy_out b dst b' src n i h

end Ranges

-- Fields are reasoned about by the lemmas above; left reducible, a comparison of two fields would
-- be evaluated byte by byte whenever a term that contains it is unified.
attribute [irreducible] getLe setLe

end Bytes
end Reiser4.Lib
