import Mathlib.Data.List.Basic

/-!
# Files as byte arrays

A file has a size and a byte for each position.  Writing past the end makes the
file longer, and the positions skipped hold zero.
-/

namespace LightOS

/-- A file.  Positions past the end hold zero. -/
structure ByteFile where
  size : Nat
  byte : Nat → UInt8
  beyond : ∀ i, size ≤ i → byte i = 0

namespace ByteFile

/-- The file without bytes. -/
def empty : ByteFile where
  size := 0
  byte := fun _ => 0
  beyond := fun _ _ => rfl

/-- Write `count` bytes of a source from a position on. -/
def write (file : ByteFile) (offset count : Nat) (source : Nat → UInt8) :
    ByteFile where
  size := if count = 0 then file.size else max file.size (offset + count)
  byte := fun i =>
    if offset ≤ i ∧ i < offset + count then source (i - offset) else file.byte i
  beyond := by
    intro i outside
    split at outside
    · rw [if_neg (by omega)]
      exact file.beyond i outside
    · rw [if_neg (by omega)]
      exact file.beyond i (by omega)

/-- Read at most `count` bytes from a position on. -/
def read (file : ByteFile) (offset count : Nat) : List UInt8 :=
  (List.range (min count (file.size - offset))).map fun i => file.byte (offset + i)

section Write

variable (file : ByteFile) (offset count : Nat) (source : Nat → UInt8)

theorem write_inside {i : Nat} (above : offset ≤ i) (below : i < offset + count) :
    (file.write offset count source).byte i = source (i - offset) := by
  simp [write, above, below]

theorem write_outside {i : Nat} (outside : i < offset ∨ offset + count ≤ i) :
    (file.write offset count source).byte i = file.byte i := by
  have notInside : ¬(offset ≤ i ∧ i < offset + count) := by omega
  simp [write, notInside]

theorem write_size (some : 0 < count) :
    (file.write offset count source).size = max file.size (offset + count) := by
  simp [write, Nat.ne_of_gt some]

theorem write_none : file.write offset 0 source = file := by
  unfold write
  congr 1
  funext i
  rw [if_neg (by omega)]

end Write

end ByteFile

end LightOS
