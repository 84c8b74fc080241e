import Mathlib.Algebra.Group.Int.Defs
import Mathlib.Algebra.Group.Nat.Defs

/-!
# Machine words

Arithmetic of the 32-bit words of the target.  Unsigned words are natural
numbers below `2 ^ 32` and signed words are integers; the conversions between
them keep the word modulo `2 ^ 32`.
-/

namespace LightOS

/-- Addition of unsigned 32-bit integers. -/
def add32 (left right : Nat) : Nat :=
  (left + right) % 2 ^ 32

/-- Subtraction of unsigned 32-bit integers. -/
def sub32 (left right : Nat) : Nat :=
  if right ≤ left then left - right else left + 2 ^ 32 - right

/-- `EOF` as an unsigned word. -/
abbrev eof : Nat := 2 ^ 32 - 1

/-- A signed word converted to an unsigned one. -/
def toUnsigned (value : Int) : Nat :=
  (value % 2 ^ 32).toNat

/-- An unsigned word converted to a signed one. -/
def toSigned (value : Nat) : Int :=
  if value % 2 ^ 32 < 2 ^ 31 then
    (value % 2 ^ 32 : Nat)
  else
    (value % 2 ^ 32 : Nat) - 2 ^ 32

theorem sub32_eq {left right : Nat} (atMost : right ≤ left) :
    sub32 left right = left - right := by
  simp [sub32, atMost]

/-- A non-negative signed word is unchanged by the conversion. -/
theorem toUnsigned_natCast {value : Nat} (small : value < 2 ^ 32) :
    toUnsigned (value : Int) = value := by
  unfold toUnsigned
  omega

/-- An unsigned word below the sign bit is unchanged by the conversion. -/
theorem toSigned_of_lt {value : Nat} (small : value < 2 ^ 31) :
    toSigned value = value := by
  have unwrapped : value % 2 ^ 32 = value := by omega
  simp only [toSigned, unwrapped, small, if_true]

/-- A signed word is negative exactly when its sign bit is set. -/
theorem toSigned_nonneg (value : Nat) :
    0 ≤ toSigned value ↔ value % 2 ^ 32 < 2 ^ 31 := by
  unfold toSigned
  split <;> omega

end LightOS
