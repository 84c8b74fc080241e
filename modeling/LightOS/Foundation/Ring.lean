import Mathlib.Data.List.Basic
import Mathlib.Logic.Function.Basic

/-!
# Ring buffers

A sequence in the cells of an array that is closed to a ring: from the cell `tail`
on, up to the cell `head`, which is the next one to be filled.  One cell always
stays empty, so that the two positions tell an empty ring from a full one.
-/

namespace LightOS
namespace Ring

variable {α : Type*} {cells : Nat → α} {size tail head : Nat}

/-- The position behind another one. -/
def next (size position : Nat) : Nat :=
  (position + 1) % size

/-- The number of cells in use. -/
def span (size tail head : Nat) : Nat :=
  if tail ≤ head then head - tail else head + size - tail

/-- The sequence in the ring. -/
def items (cells : Nat → α) (size tail head : Nat) : List α :=
  (List.range (span size tail head)).map fun offset => cells ((tail + offset) % size)

@[simp] theorem items_length : (items cells size tail head).length = span size tail head := by
  simp [items]

theorem next_eq (inRing : tail < size) :
    next size tail = if tail + 1 = size then 0 else tail + 1 := by
  unfold next
  split
  · rename_i last
    rw [last, Nat.mod_self]
  · exact Nat.mod_eq_of_lt (by omega)

theorem next_lt (inRing : tail < size) : next size tail < size :=
  Nat.mod_lt _ (Nat.lt_of_le_of_lt (Nat.zero_le _) inRing)

@[simp] theorem span_self : span size tail tail = 0 := by
  simp [span]

theorem span_eq_zero (tailIn : tail < size) : span size tail head = 0 ↔ head = tail := by
  unfold span
  split <;> omega

/-- The ring never fills all of its cells. -/
theorem span_lt (headIn : head < size) (tailIn : tail < size) :
    span size tail head < size := by
  unfold span
  split <;> omega

/-- The ring is full when the next position to be filled meets the first one. -/
theorem span_full (tailIn : tail < size) (headIn : head < size) :
    next size head = tail ↔ span size tail head = size - 1 := by
  rw [next_eq headIn]
  unfold span
  split <;> split <;> omega

theorem items_empty : items cells size tail tail = [] := by
  simp [items]

/-- Taking the first item. -/
theorem items_cons (tailIn : tail < size) (headIn : head < size) (used : head ≠ tail) :
    items cells size tail head =
      cells tail :: items cells size (next size tail) head := by
  have later : span size tail head = span size (next size tail) head + 1 := by
    rw [next_eq tailIn]
    unfold span
    split <;> split <;> split <;> omega
  unfold items
  rw [later, List.range_succ_eq_map, List.map_cons, List.map_map]
  congr 1
  · rw [Nat.add_zero, Nat.mod_eq_of_lt tailIn]
  · apply List.map_congr_left
    intro offset _
    change cells ((tail + (offset + 1)) % size) = cells ((next size tail + offset) % size)
    unfold next
    rw [Nat.mod_add_mod]
    congr 2
    omega

/-- Adding an item behind the last one. -/
theorem items_snoc (tailIn : tail < size) (headIn : head < size)
    (room : next size head ≠ tail) (item : α) :
    items (Function.update cells head item) size tail (next size head) =
      items cells size tail head ++ [item] := by
  have longer : span size tail (next size head) = span size tail head + 1 := by
    rw [next_eq headIn] at room ⊢
    unfold span
    by_cases wraps : head + 1 = size
    · rw [if_pos wraps] at room ⊢
      split <;> split <;> omega
    · rw [if_neg wraps] at room ⊢
      split <;> split <;> omega
  have place (offset : Nat) (inRing : offset < size) :
      (tail + offset) % size =
        if tail + offset < size then tail + offset else tail + offset - size := by
    split
    · exact Nat.mod_eq_of_lt (by assumption)
    · rw [Nat.mod_eq_sub_mod (by omega), Nat.mod_eq_of_lt (by omega)]
  have bound := span_lt headIn tailIn
  unfold items
  rw [longer, List.range_succ, List.map_append, List.map_singleton]
  congr 1
  · apply List.map_congr_left
    intro offset inSpan
    have before := List.mem_range.mp inSpan
    apply Function.update_of_ne
    rw [place offset (by omega)]
    unfold span at before
    split at before <;> split <;> omega
  · have last : (tail + span size tail head) % size = head := by
      rw [place _ bound]
      unfold span
      split <;> split <;> omega
    rw [last, Function.update_self]

end Ring
end LightOS
