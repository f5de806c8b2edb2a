/-
  Strings as big-endian numbers.

  `padNat w s` has the first `w` bytes of the string as its digits, the first byte as the highest one; where the
  string is shorter the digits are zero.  For strings without zero bytes nothing is lost by that.

    1. `padNat_append`      a string in two parts;
    2. `padDigits_padNat`   the digits of the number;
    3. `padNat_lt_iff`      the crux: the order of the numbers is the byte order of the strings.
-/
import Mathlib.Tactic.Common
import Mathlib.Tactic.Ring

namespace Reiser4.Lib

/-- The first `w` bytes as the digits of a number, the highest first. -/
def padNat : Nat → List UInt8 → Nat
  | 0, _ => 0
  | _ + 1, [] => 0
  | w + 1, c :: s => c.toNat * 256 ^ w + padNat w s

/-- The `w` lowest digits of a number, the highest first. -/
def padDigits : Nat → Nat → List UInt8
  | 0, _ => []
  | w + 1, v => UInt8.ofNat (v / 256 ^ w % 256) :: padDigits w v

theorem padNat_nil : ∀ w, padNat w [] = 0
  | 0 => rfl
  | _ + 1 => rfl

theorem padNat_lt : ∀ (w : Nat) (s : List UInt8), padNat w s < 256 ^ w
  | 0, _ => Nat.one_pos
  | w + 1, [] => Nat.pow_pos (by decide)
  | w + 1, c :: s => by
    have hc := c.toNat_lt
    have hs := padNat_lt w s
    calc c.toNat * 256 ^ w + padNat w s < c.toNat * 256 ^ w + 256 ^ w := Nat.add_lt_add_left hs _
      _ = (c.toNat + 1) * 256 ^ w := by rw [Nat.succ_mul]
      _ ≤ 256 * 256 ^ w := Nat.mul_le_mul_right _ hc
      _ = 256 ^ (w + 1) := by rw [Nat.pow_succ, Nat.mul_comm]

/-- A string in two parts. -/
theorem padNat_append (v : Nat) : ∀ (w : Nat) (s : List UInt8),
    padNat (w + v) s = padNat w s * 256 ^ v + padNat v (s.drop w)
  | 0, s => by rw [Nat.zero_add, padNat, Nat.zero_mul, Nat.zero_add, List.drop_zero]
  | w + 1, [] => by rw [padNat_nil, padNat_nil, List.drop_nil, padNat_nil, Nat.zero_mul]
  | w + 1, c :: s => by
    rw [show w + 1 + v = w + v + 1 by omega, padNat, padNat, padNat_append v w s, List.drop_succ_cons, Nat.pow_add]
    ring

/-- The digits of a number, less its higher digits. -/
theorem padDigits_mod : ∀ (w k v : Nat), padDigits w (k * 256 ^ w + v) = padDigits w v
  | 0, _, _ => rfl
  | w + 1, k, v => by
    have hsplit : k * 256 ^ (w + 1) + v = (k * 256) * 256 ^ w + v := by ring
    have hpos : 0 < 256 ^ w := Nat.pow_pos (by decide)
    rw [padDigits, padDigits, hsplit, padDigits_mod w, Nat.add_comm, Nat.add_mul_div_right _ _ hpos,
      Nat.add_mul_mod_self_right]

/-- The digits of a string, with the zeros behind it. -/
theorem padDigits_padNat : ∀ (w : Nat) (s : List UInt8),
    padDigits w (padNat w s) = s.take w ++ List.replicate (w - s.length) 0
  | 0, s => by
    rw [List.take_zero, Nat.zero_sub]
    rfl
  | w + 1, [] => by
    have ih := padDigits_padNat w []
    rw [padNat_nil, List.take_nil, List.nil_append, List.length_nil, Nat.sub_zero] at ih ⊢
    rw [padDigits, ih, Nat.zero_div]
    rfl
  | w + 1, c :: s => by
    have hpos : 0 < 256 ^ w := Nat.pow_pos (by decide)
    have hdigit : (c.toNat * 256 ^ w + padNat w s) / 256 ^ w % 256 = c.toNat := by
      rw [Nat.add_comm, Nat.add_mul_div_right _ _ hpos, Nat.div_eq_of_lt (padNat_lt w s), Nat.zero_add,
        Nat.mod_eq_of_lt c.toNat_lt]
    rw [padNat, padDigits, hdigit, padDigits_mod, padDigits_padNat w s, List.take_succ_cons, List.length_cons,
      Nat.add_sub_add_right, UInt8.ofNat_toNat]
    rfl

/-- The bytes of a string without zeros are the digits that are not zero. -/
theorem filter_padDigits {w : Nat} {s : List UInt8} (h : 0 ∉ s) :
    (padDigits w (padNat w s)).filter (· ≠ 0) = s.take w := by
  rw [padDigits_padNat, List.filter_append]
  have hzeros : (List.replicate (w - s.length) (0 : UInt8)).filter (· ≠ 0) = [] := by
    refine List.filter_eq_nil_iff.mpr fun c hc => ?_
    rw [List.eq_of_mem_replicate hc]
    decide
  rw [hzeros, List.append_nil]
  refine List.filter_eq_self.mpr fun c hc => ?_
  have hne : c ≠ 0 := fun heq => h (heq ▸ List.mem_of_mem_take hc)
  exact decide_eq_true hne

/-- **The order of the numbers is the byte order of the strings.** -/
theorem padNat_lt_iff : ∀ {w : Nat} {s t : List UInt8}, 0 ∉ s → 0 ∉ t → s.length ≤ w → t.length ≤ w →
    (padNat w s < padNat w t ↔ s < t)
  | w, [], [], _, _, _, _ => by
    rw [padNat_nil]
    exact iff_of_false (Nat.lt_irrefl 0) (List.lt_irrefl [])
  | 0, _ :: _, _, _, _, hs, _ => by
    rw [List.length_cons] at hs
    omega
  | 0, _, _ :: _, _, _, _, ht => by
    rw [List.length_cons] at ht
    omega
  | w + 1, [], d :: t, _, ht, _, _ => by
    have hd : 0 < d.toNat := by
      refine Nat.pos_of_ne_zero fun hz => ht ?_
      rw [show d = 0 from UInt8.toNat_inj.mp hz]
      exact List.mem_cons_self
    refine iff_of_true ?_ (List.nil_lt_cons d t)
    rw [padNat_nil, padNat]
    exact Nat.add_pos_left (Nat.mul_pos hd (Nat.pow_pos (by decide))) _
  | w + 1, c :: s, [], hs, _, _, _ => by
    refine iff_of_false ?_ (List.not_lt_nil _)
    rw [padNat_nil]
    exact Nat.not_lt_zero _
  | w + 1, c :: s, d :: t, hs, ht, hls, hlt => by
    have ih := @padNat_lt_iff w s t (fun h => hs (List.mem_cons_of_mem _ h)) (fun h => ht (List.mem_cons_of_mem _ h))
      (Nat.le_of_succ_le_succ hls) (Nat.le_of_succ_le_succ hlt)
    have hns := padNat_lt w s
    have hnt := padNat_lt w t
    rw [padNat, padNat, List.cons_lt_cons_iff, ← ih, UInt8.lt_iff_toNat_lt]
    rcases Nat.lt_trichotomy c.toNat d.toNat with h | h | h
    · refine iff_of_true ?_ (Or.inl h)
      calc c.toNat * 256 ^ w + padNat w s < c.toNat * 256 ^ w + 256 ^ w := Nat.add_lt_add_left hns _
        _ = (c.toNat + 1) * 256 ^ w := by rw [Nat.succ_mul]
        _ ≤ d.toNat * 256 ^ w := Nat.mul_le_mul_right _ h
        _ ≤ d.toNat * 256 ^ w + padNat w t := Nat.le_add_right _ _
    · have hcd : c = d := UInt8.toNat_inj.mp h
      rw [hcd]
      constructor
      · exact fun hlt => Or.inr ⟨rfl, Nat.lt_of_add_lt_add_left hlt⟩
      · rintro (hlt | ⟨-, hlt⟩)
        · exact absurd hlt (Nat.lt_irrefl _)
        · exact Nat.add_lt_add_left hlt _
    · refine iff_of_false ?_ ?_
      · have hle : d.toNat * 256 ^ w + 256 ^ w ≤ c.toNat * 256 ^ w := by
          rw [← Nat.succ_mul]
          exact Nat.mul_le_mul_right _ h
        omega
      · rintro (hlt | ⟨heq, -⟩)
        · omega
        · rw [heq] at h
          exact Nat.lt_irrefl _ h

end Reiser4.Lib
