import LightOS.Foundation.Components
import LightOS.Foundation.Memory

/-!
# Strings

The functions of `string.c` that the file system uses.  A string is the list of
its bytes before the terminator and a pointer into a string is the list of the
bytes that follow, so two pointers into one string are equal exactly when the
lists are.
-/

namespace LightOS

/-- A pointer into a string. -/
abbrev Cursor := List UInt8

/-- `IS_SEPARATOR`: a slash or a backslash. -/
def isSeparator (byte : UInt8) : Bool :=
  byte = 47 || byte = 92

instance (priority := 2000) (cursor : Cursor) :
    Decidable (∀ byte ∈ cursor, isSeparator byte = false) :=
  List.decidableBAll _ cursor

/-- `strrsep`: the last separator of a string. -/
def strrsep : Cursor → Option Cursor
  | [] => none
  | byte :: rest =>
      match strrsep rest with
      | some last => some last
      | none => if isSeparator byte then some (byte :: rest) else none

/-- Move past leading separators. -/
def skipSeparators (cursor : Cursor) : Cursor :=
  cursor.dropWhile isSeparator

theorem skipSeparators_eq (cursor : Cursor) :
    skipSeparators cursor = Components.skip isSeparator cursor := rfl

/-- `strrsep` finds nothing in a string without separators. -/
theorem strrsep_plain {cursor : Cursor}
    (plain : Components.Plain isSeparator cursor) : strrsep cursor = none := by
  induction cursor with
  | nil => rfl
  | cons byte rest inductionHypothesis =>
      have notSep := plain byte List.mem_cons_self
      rw [strrsep, inductionHypothesis fun other inRest =>
        plain other (List.mem_cons_of_mem _ inRest)]
      simp [notSep]

/-- `strrsep` finds the separator with none behind it. -/
theorem strrsep_append (front : Cursor) {sep : UInt8} {back : Cursor}
    (separates : isSeparator sep) (plain : Components.Plain isSeparator back) :
    strrsep (front ++ sep :: back) = some (sep :: back) := by
  induction front with
  | nil =>
      rw [List.nil_append, strrsep, strrsep_plain plain]
      simp [separates]
  | cons byte rest inductionHypothesis =>
      rw [List.cons_append, strrsep, inductionHypothesis]

/-- A string has one last separator only. -/
theorem last_unique {front other back otherBack : Cursor} {sep otherSep : UInt8}
    (same : front ++ sep :: back = other ++ otherSep :: otherBack)
    (separates : isSeparator sep) (plain : Components.Plain isSeparator back)
    (otherSeparates : isSeparator otherSep)
    (otherPlain : Components.Plain isSeparator otherBack) : front = other := by
  have found := strrsep_append front separates plain
  rw [same, strrsep_append other otherSeparates otherPlain] at found
  rw [Option.some.inj found] at same
  exact List.append_cancel_right same

/-- A string has no separator or a last one. -/
theorem plain_or_last (cursor : Cursor) :
    Components.Plain isSeparator cursor ∨
      ∃ front sep back, cursor = front ++ sep :: back ∧ isSeparator sep = true ∧
        Components.Plain isSeparator back := by
  induction cursor with
  | nil => exact .inl fun _ impossible => by cases impossible
  | cons byte rest inductionHypothesis =>
      rcases inductionHypothesis with plain | ⟨front, sep, back, split, separates, plain⟩
      · cases isSep : isSeparator byte with
        | true => exact .inr ⟨[], byte, rest, rfl, isSep, plain⟩
        | false => exact .inl (List.forall_mem_cons.mpr ⟨isSep, plain⟩)
      · exact .inr ⟨byte :: front, sep, back, by rw [split]; rfl, separates, plain⟩

/-- `strcpy`. -/
def strcpy (memory : Memory) (dest : Nat) : Cursor → Memory
  | [] => memory.setByte dest 0
  | byte :: rest => strcpy (memory.setByte dest byte.toNat) (dest + 1) rest

/-- The loop of `strncpy`: `left` bytes may still be written. -/
def strncpyFrom (memory : Memory) (dest : Nat) : Cursor → Nat → Memory
  | _, 0 => memory.setByte (dest - 1) 0
  | [], _ + 1 => memory.setByte dest 0
  | byte :: rest, left + 1 =>
      strncpyFrom (memory.setByte dest byte.toNat) (dest + 1) rest left

/-- `strncpy`. -/
def strncpy (memory : Memory) (dest : Nat) (src : Cursor) (count : Nat) : Memory :=
  strncpyFrom memory dest src count

end LightOS
