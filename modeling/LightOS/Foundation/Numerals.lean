import Mathlib.Data.Nat.Digits.Lemmas

/-!
# Numerals

Numbers written in a base, the leading digit first.  A numeral has at least one digit, its
digits are smaller than the base, and zeros in front of it do not change its value.
-/

namespace LightOS
namespace Numeral

/-- The value of digits that are read one after the other, behind those read before. -/
def read (base : Nat) (before : Nat) (digits : List Nat) : Nat :=
  digits.foldl (fun value digit => value * base + digit) before

/-- The digits of a number.  Zero has one. -/
def digits (base number : Nat) : List Nat :=
  if number = 0 then [0] else (Nat.digits base number).reverse

variable {base number width : Nat}

@[simp] theorem read_nil (base before : Nat) : read base before [] = before := rfl

@[simp] theorem read_cons (base before digit : Nat) (digits : List Nat) :
    read base before (digit :: digits) = read base (before * base + digit) digits := rfl

/-- What was read before counts for a power of the base. -/
theorem read_eq (base before : Nat) (digits : List Nat) :
    read base before digits = before * base ^ digits.length + read base 0 digits := by
  induction digits generalizing before with
  | nil => simp
  | cons digit digits inductionHypothesis =>
      rw [read_cons, read_cons, inductionHypothesis, inductionHypothesis (0 * base + digit),
        List.length_cons, pow_succ]
      ring

/-- Remainders of what was read before give the same remainder. -/
theorem read_mod (base before : Nat) (digits : List Nat) (modulus : Nat) :
    read base (before % modulus) digits % modulus =
      read base before digits % modulus := by
  rw [read_eq, read_eq base before, Nat.add_mod, Nat.mod_mul_mod, ← Nat.add_mod]

theorem read_eq_ofDigits (base : Nat) (digits : List Nat) :
    read base 0 digits = Nat.ofDigits base digits.reverse := by
  induction digits with
  | nil => rfl
  | cons digit digits inductionHypothesis =>
      rw [read_cons, read_eq, inductionHypothesis, List.reverse_cons, Nat.ofDigits_append,
        Nat.ofDigits_singleton, List.length_reverse]
      ring

/-- Zeros in front of digits do not count. -/
theorem read_zeros (base count : Nat) (digits : List Nat) :
    read base 0 (List.replicate count 0 ++ digits) = read base 0 digits := by
  induction count with
  | zero => rfl
  | succ count inductionHypothesis =>
      rw [List.replicate_succ, List.cons_append, read_cons, Nat.zero_mul, Nat.add_zero]
      exact inductionHypothesis

/-- Reading the digits of a number gives the number. -/
theorem read_digits (base number : Nat) : read base 0 (digits base number) = number := by
  unfold digits
  split
  · rename_i isZero
    rw [isZero]
    simp
  · rw [read_eq_ofDigits, List.reverse_reverse, Nat.ofDigits_digits]

theorem digits_ne_nil (base number : Nat) : digits base number ≠ [] := by
  unfold digits
  split
  · simp
  · rename_i positive
    rw [ne_eq, List.reverse_eq_nil_iff]
    exact Nat.digits_ne_nil_iff_ne_zero.mpr positive

theorem digit_lt (large : 1 < base) {digit : Nat} (isDigit : digit ∈ digits base number) :
    digit < base := by
  unfold digits at isDigit
  split at isDigit
  · rw [List.mem_singleton] at isDigit
    omega
  · exact Nat.digits_lt_base large (List.mem_reverse.mp isDigit)

/-- A number has as many digits as its size asks for. -/
theorem digits_length_le (large : 1 < base) (positive : 0 < width) :
    (digits base number).length ≤ width ↔ number < base ^ width := by
  unfold digits
  split
  · rename_i isZero
    have one : 0 < base ^ width := Nat.pow_pos (by omega)
    rw [isZero]
    simp only [List.length_singleton]
    omega
  · rw [List.length_reverse, Nat.digits_length_le_iff large]

end Numeral
end LightOS
