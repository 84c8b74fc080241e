import LightOS.Foundation.Ledger
import Mathlib.Algebra.BigOperators.Ring.Finset
import Mathlib.Algebra.Order.BigOperators.Group.Finset

/-!
# Tables of slots

A table has a row of slots for each line, and a slot may point to something.  The
number of slots that point to it is a sum over the rows, so a change of one row
changes that number by the difference of two rows.
-/

namespace LightOS

variable {Line Column Target : Type*} [DecidableEq Target]

/-- The number of slots of a row that point to a target. -/
def rowPointers (columns : Finset Column) (row : Column → Option Target)
    (target : Target) : Nat :=
  (columns.filter fun column => row column = some target).card

/-- The number of slots of a table that point to a target. -/
def pointers (lines : Finset Line) (columns : Finset Column)
    (table : Line → Column → Option Target) (target : Target) : Nat :=
  ∑ line ∈ lines, rowPointers columns (table line) target

section Row

variable {columns : Finset Column} {row other : Column → Option Target}
  {column : Column} {target pointed : Target}

theorem rowPointers_congr (same : ∀ column ∈ columns, row column = other column) :
    rowPointers columns row target = rowPointers columns other target := by
  unfold rowPointers
  congr 1
  apply Finset.filter_congr
  intro column inside
  rw [same column inside]

@[simp] theorem rowPointers_empty :
    rowPointers columns (fun _ => none) target = 0 := by
  simp [rowPointers]

theorem rowPointers_le : rowPointers columns row target ≤ columns.card :=
  Finset.card_filter_le _ _

/-- A slot that begins to point to a target. -/
theorem rowPointers_fill [DecidableEq Column] (inside : column ∈ columns)
    (free : row column = none) :
    rowPointers columns (Function.update row column (some pointed)) target =
      rowPointers columns row target + if pointed = target then 1 else 0 := by
  have kept (other : Column) (different : other ≠ column) :
      Function.update row column (some pointed) other = row other :=
    Function.update_of_ne different _ _
  unfold rowPointers
  rw [← Finset.insert_erase inside, Finset.filter_insert, Finset.filter_insert,
    Finset.filter_congr fun other present =>
      (by rw [kept other (Finset.ne_of_mem_erase present)])]
  split
  · rename_i points
    rw [Function.update_self, Option.some.injEq] at points
    rw [if_neg (by simp [free]), if_pos points,
      Finset.card_insert_of_notMem (by simp)]
  · rename_i misses
    rw [Function.update_self, Option.some.injEq] at misses
    rw [if_neg (by simp [free]), if_neg misses, Nat.add_zero]

/-- A slot that points to a target no longer. -/
theorem rowPointers_clear [DecidableEq Column] (inside : column ∈ columns)
    (full : row column = some pointed) :
    rowPointers columns row target =
      rowPointers columns (Function.update row column none) target +
        if pointed = target then 1 else 0 := by
  have filled : Function.update (Function.update row column none) column (some pointed) =
      row := by
    rw [Function.update_idem, ← full, Function.update_eq_self]
  rw [← rowPointers_fill inside (by simp), filled]

end Row

section Table

variable {lines : Finset Line} {columns : Finset Column}
  {table other : Line → Column → Option Target} {line : Line} {target : Target}

/-- A change of one row. -/
theorem pointers_update [DecidableEq Line] (inside : line ∈ lines)
    (row : Column → Option Target) :
    pointers lines columns (Function.update table line row) target +
        rowPointers columns (table line) target =
      pointers lines columns table target + rowPointers columns row target := by
  have others (other : Line) (different : other ≠ line) :
      rowPointers columns (Function.update table line row other) target =
        rowPointers columns (table other) target := by
    rw [Function.update_of_ne different]
  have changed := sum_change_one inside others
  rw [Function.update_self] at changed
  exact changed

theorem pointers_le : pointers lines columns table target ≤ lines.card * columns.card := by
  unfold pointers
  calc ∑ line ∈ lines, rowPointers columns (table line) target
      ≤ ∑ _line ∈ lines, columns.card :=
        Finset.sum_le_sum fun line _ => rowPointers_le
    _ = lines.card * columns.card := by simp

theorem rowPointers_le_pointers (inside : line ∈ lines) :
    rowPointers columns (table line) target ≤ pointers lines columns table target :=
  Finset.single_le_sum (f := fun line => rowPointers columns (table line) target)
    (fun _ _ => Nat.zero_le _) inside

/-- The pointers of a table, counted as pairs of a line and a column. -/
theorem card_slots :
    ((lines ×ˢ columns).filter fun slot => table slot.1 slot.2 = some target).card =
      pointers lines columns table target := by
  simp only [pointers, rowPointers, Finset.card_filter, Finset.sum_product]

end Table

end LightOS
