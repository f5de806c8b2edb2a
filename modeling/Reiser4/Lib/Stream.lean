/-
  Memory that is written to a stream and read back.

  A writer sends spans of a buffer to a stream, one after the other.  A reader has a buffer of zeroes; it
  takes the bytes of each span from the stream again.  At any time its buffer is that of the writer on
  the spans it has read and zero elsewhere, `only b S`.

    1. `read`, `readAll`     a read of a number of bytes, without and with the check that all were there;
    2. `readAll_written`     reading back a span that was written adds it to the set;
    3. `setLe_only`          so does setting a field to the number that it has in the buffer of the writer;
    4. `bytesOf`, `numberOf` a number on its own.
-/
import Reiser4.Lib.Bytes
import Reiser4.Lib.Run
import Mathlib.Order.Interval.Set.Basic

namespace Reiser4.Lib.Stream

variable {ε : Type}

/-- Read `n` bytes to offset `o`, or what is left of the stream; the result is the number of bytes.
    The state is the buffer and the rest of the stream. -/
def read (o n : Nat) : Run (Bytes × List UInt8) ε Nat :=
  ⟨fun s => some (.ok (s.2.take n).length, s.1.putStr o (s.2.take n), s.2.drop n)⟩

/-- Read `n` bytes to offset `o`; fewer are an error. -/
def readAll (e : ε) (o n : Nat) : Run (Bytes × List UInt8) ε Unit := do
  let count ← read o n
  if count ≠ n then Run.fail e else pure ()

/-- Read a number of `n` bytes into a variable. -/
def readNumber (e : ε) (n : Nat) : Run (Bytes × List UInt8) ε Nat :=
  ⟨fun s =>
    if (s.2.take n).length ≠ n then some (.error e, s.1, s.2.drop n)
    else some (.ok ((Bytes.zero.putStr 0 (s.2.take n)).getLe n 0), s.1, s.2.drop n)⟩

open Classical in
/-- The buffer where the set is, and zero elsewhere. -/
noncomputable def only (b : Bytes) (S : Set Nat) : Bytes := fun a => if a ∈ S then b a else 0

variable {b : Bytes} {S : Set Nat} {o n v : Nat} {e : ε} {rest : List UInt8}

theorem only_in {a : Nat} (h : a ∈ S) : only b S a = b a := if_pos h

theorem only_out {a : Nat} (h : a ∉ S) : only b S a = 0 := if_neg h

theorem only_empty : only b ∅ = Bytes.zero := funext fun a => only_out (Set.notMem_empty a)

/-- A field is that of the buffer where the set covers it. -/
theorem getLe_only (h : ∀ i, i < n → o + i ∈ S) : (only b S).getLe n o = b.getLe n o :=
  Bytes.getLe_congr n _ _ _ _ fun i hi => only_in (h i hi)

theorem putStr_slice {m : Bytes} (a : Nat) :
    m.putStr o (b.slice o n) a = if o ≤ a ∧ a < o + n then b a else m a := by
  by_cases h : o ≤ a ∧ a < o + n
  · obtain ⟨i, rfl⟩ := Nat.exists_eq_add_of_le h.1
    rw [if_pos h, Bytes.putStr_in _ _ _ i (by rw [Bytes.slice_length]; omega)]
    have := Bytes.slice_getElem? b o n i (by omega)
    rw [List.getElem?_eq_getElem (by rw [Bytes.slice_length]; omega)] at this
    exact Option.some.inj this
  · rw [if_neg h, Bytes.putStr_out _ _ _ _ (by rw [Bytes.slice_length]; omega)]

theorem putStr_only : (only b S).putStr o (b.slice o n) = only b (S ∪ Set.Ico o (o + n)) := by
  funext a
  rw [putStr_slice]
  by_cases h : o ≤ a ∧ a < o + n
  · rw [if_pos h, only_in (Or.inr h)]
  · rw [if_neg h]
    by_cases ha : a ∈ S
    · rw [only_in ha, only_in (Or.inl ha)]
    · rw [only_out ha, only_out (not_or.mpr ⟨ha, h⟩)]

theorem take_slice : (b.slice o n ++ rest).take n = b.slice o n :=
  List.take_left' (Bytes.slice_length b o n)

theorem drop_slice : (b.slice o n ++ rest).drop n = rest :=
  List.drop_left' (Bytes.slice_length b o n)

/-- A span that was written is read back. -/
theorem read_written : (read o n : Run _ ε Nat).run (only b S, b.slice o n ++ rest) =
    some (.ok n, only b (S ∪ Set.Ico o (o + n)), rest) := by
  show some (Except.ok (List.take n (b.slice o n ++ rest)).length,
    (only b S).putStr o (List.take n (b.slice o n ++ rest)), List.drop n (b.slice o n ++ rest)) = _
  rw [take_slice, drop_slice, putStr_only, Bytes.slice_length]

/-- **A span that was written is read back**, and all of it is there. -/
theorem readAll_written : (readAll e o n).run (only b S, b.slice o n ++ rest) =
    some (.ok (), only b (S ∪ Set.Ico o (o + n)), rest) := by
  unfold readAll
  rw [Run.bind_of_ok read_written, if_neg (not_not_intro rfl)]
  rfl

/-- So is a number. -/
theorem readNumber_written {m : Bytes} :
    (readNumber e n).run (m, b.slice o n ++ rest) = some (.ok (b.getLe n o), m, rest) := by
  have hlen : ((b.slice o n ++ rest).take n).length = n := by rw [take_slice, Bytes.slice_length]
  have hnum : (Bytes.zero.putStr 0 (b.slice o n)).getLe n 0 = b.getLe n o := by
    refine Bytes.getLe_congr n _ _ _ _ fun i hi => ?_
    rw [Bytes.putStr_in _ _ _ i (by rw [Bytes.slice_length]; exact hi)]
    have := Bytes.slice_getElem? b o n i hi
    rw [List.getElem?_eq_getElem (by rw [Bytes.slice_length]; exact hi)] at this
    exact Option.some.inj this
  show (if ((b.slice o n ++ rest).take n).length ≠ n then _ else _) = _
  rw [if_neg (not_not_intro hlen), take_slice, drop_slice, hnum]

/-- The digits of a number are the bytes it was read from. -/
theorem ofNat_getLe : ∀ {n o i : Nat}, i < n →
    UInt8.ofNat (b.getLe n o / 256 ^ i) = b (o + i)
  | 0, _, _, h => absurd h (Nat.not_lt_zero _)
  | n + 1, o, 0, _ => by
    rw [Nat.pow_zero, Nat.div_one, Bytes.getLe]
    show UInt8.ofNat ((b o).toNat + 256 * b.getLe n (o + 1)) = b o
    have hb := (b o).toNat_lt
    apply UInt8.toNat_inj.mp
    rw [UInt8.toNat_ofNat']
    omega
  | n + 1, o, i + 1, h => by
    have hb := (b o).toNat_lt
    have hrest := @ofNat_getLe n (o + 1) i (by omega)
    rw [Bytes.getLe, pow_succ, Nat.mul_comm (256 ^ i), ← Nat.div_div_eq_div_mul,
      show ((b o).toNat + 256 * b.getLe n (o + 1)) / 256 = b.getLe n (o + 1) by omega, hrest]
    congr 1
    omega

/-- A field that is set to its number. -/
theorem setLe_only (h : b.getLe n o = v) : (only b S).setLe n o v = only b (S ∪ Set.Ico o (o + n)) := by
  funext a
  by_cases ha : o ≤ a ∧ a < o + n
  · rw [only_in (Or.inr ha), Bytes.setLe, if_pos ha, ← h, ofNat_getLe (by omega)]
    congr 1
    omega
  · rw [Bytes.setLe_out _ _ _ _ _ (by omega)]
    by_cases hS : a ∈ S
    · rw [only_in hS, only_in (Or.inl hS)]
    · rw [only_out hS, only_out (not_or.mpr ⟨hS, ha⟩)]

/-! ## Numbers as bytes -/

/-- A number in `n` bytes. -/
def bytesOf (n v : Nat) : List UInt8 := (Bytes.zero.setLe n 0 v).slice 0 n

/-- The number that `n` bytes stand for. -/
def numberOf (n : Nat) (s : List UInt8) : Nat := (Bytes.zero.putStr 0 s).getLe n 0

@[simp] theorem bytesOf_length : (bytesOf n v).length = n := Bytes.slice_length _ _ _

theorem numberOf_lt {s : List UInt8} : numberOf n s < 256 ^ n := Bytes.getLe_lt n _ _

/-- A number is read back from its bytes. -/
theorem numberOf_bytesOf (h : v < 256 ^ n) : numberOf n (bytesOf n v) = v := by
  unfold numberOf bytesOf
  refine Eq.trans (Bytes.getLe_congr n _ (Bytes.zero.setLe n 0 v) 0 0 fun i hi => ?_)
    (Bytes.getLe_setLe_of_lt n _ _ _ h)
  rw [putStr_slice, if_pos (by omega)]

end Reiser4.Lib.Stream
