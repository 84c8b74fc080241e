import LightOS.Foundation.Sharing
import LightOS.UserMemory.Machine

/-!
# Who refers to user pages

The entries of the directories of user tasks and of their tables refer to user pages.  The
page of a table is referred to once, by the entry of the directory, and any other user page
by the entries that map it.
-/

namespace LightOS
namespace UserMemory

open Sched (taskNr)

/-- An entry of a directory or of a table: the task, the number of the table, and 0 for the
entry of the directory or one more than the number of the entry of the table. -/
abbrev Place : Type := Nat × Nat × Nat

/-- The places of user memory. -/
@[irreducible] def places : Finset Place :=
  Finset.range taskNr ×ˢ Finset.range userTables ×ˢ Finset.range (entryNr + 1)

/-- The pages of the directories, with the number of entries that are in order. -/
abbrev Spaces : Type := Nat → Option (Nat × Nat)

/-- The page that an entry refers to. -/
def Entry.page (entry : Entry) : Option Nat :=
  if entry.present then some entry.index else none

/-- The page of a table. -/
def tableOf (frames : Nat → Nat → Entry) (spaces : Spaces) (pid index : Nat) : Option Nat :=
  match spaces pid with
  | none => none
  | some (dir, limit) => if index < limit then (frames dir index).page else none

/-- The page that a place refers to. -/
def refersIn (frames : Nat → Nat → Entry) (spaces : Spaces) : Place → Option Nat
  | (pid, index, 0) => tableOf frames spaces pid index
  | (pid, index, position + 1) =>
      match tableOf frames spaces pid index with
      | none => none
      | some table => if position < entryNr then (frames table position).page else none

/-- The pages that user programs get. -/
def UserPage (pages : PageMaps) (page : Nat) : Prop :=
  kernelMemSize / pageSize ≤ page ∧ page < pages.totalPages

/-- The directories lie in pages of the kernel of their own. -/
structure Apart (spaces : Spaces) : Prop where
  known : ∀ pid dir limit, spaces pid = some (dir, limit) →
    pid < taskNr ∧ limit ≤ userTables ∧ 256 ≤ dir ∧ dir < 4096
  own : ∀ pid other dir limit bound, spaces pid = some (dir, limit) →
    spaces other = some (dir, bound) → pid = other

/-- Entries refer to user pages, and no other entry refers to the page of a table. -/
structure Exclusive (refers : Place → Option Nat) (pages : PageMaps) : Prop where
  user : ∀ place page, refers place = some page → UserPage pages page
  sole : ∀ pid index place page, refers (pid, index, 0) = some page →
    refers place = some page → place = (pid, index, 0)

theorem mem_places {pid index position : Nat} : (pid, index, position) ∈ places ↔
    pid < taskNr ∧ index < userTables ∧ position < entryNr + 1 := by
  unfold places
  simp only [Finset.mem_product, Finset.mem_range]

section Refers

variable {frames later : Nat → Nat → Entry} {spaces : Spaces} {pages : PageMaps}
  {pid dir limit index position table page : Nat} {place : Place}

@[simp] theorem refersIn_zero : refersIn frames spaces (pid, index, 0) =
    tableOf frames spaces pid index := rfl

theorem tableOf_eq (space : spaces pid = some (dir, limit)) (inOrder : index < limit) :
    tableOf frames spaces pid index = (frames dir index).page := by
  unfold tableOf
  rw [space]
  exact if_pos inOrder

theorem refersIn_succ (isTable : tableOf frames spaces pid index = some table)
    (inTable : position < entryNr) :
    refersIn frames spaces (pid, index, position + 1) = (frames table position).page := by
  unfold refersIn
  dsimp only
  rw [isTable]
  exact if_pos inTable

theorem refersIn_behind (isTable : tableOf frames spaces pid index = some table)
    (behind : ¬position < entryNr) :
    refersIn frames spaces (pid, index, position + 1) = none := by
  unfold refersIn
  dsimp only
  rw [isTable]
  exact if_neg behind

theorem refersIn_succ_none (noTable : tableOf frames spaces pid index = none) :
    refersIn frames spaces (pid, index, position + 1) = none := by
  unfold refersIn
  dsimp only
  rw [noTable]

/-- A place that refers to a page is behind a table, in order. -/
theorem exists_of_tableOf (isTable : tableOf frames spaces pid index = some table) :
    ∃ dir limit, spaces pid = some (dir, limit) ∧ index < limit ∧
      (frames dir index).page = some table := by
  unfold tableOf at isTable
  split at isTable
  · cases isTable
  · rename_i dir limit space
    split at isTable
    · rename_i inOrder
      exact ⟨dir, limit, space, inOrder, isTable⟩
    · cases isTable

theorem exists_of_refersIn_succ
    (refersTo : refersIn frames spaces (pid, index, position + 1) = some page) :
    ∃ table, tableOf frames spaces pid index = some table ∧ position < entryNr ∧
      (frames table position).page = some page := by
  unfold refersIn at refersTo
  dsimp only at refersTo
  split at refersTo
  · cases refersTo
  · rename_i table isTable
    split at refersTo
    · rename_i inTable
      exact ⟨table, isTable, inTable, refersTo⟩
    · cases refersTo

/-- The entries of a table are places. -/
theorem Apart.mem_places_of_table (apart : Apart spaces)
    (isTable : tableOf frames spaces pid index = some table) (inTable : position < entryNr) :
    (pid, index, position + 1) ∈ places := by
  rw [UserMemory.mem_places]
  obtain ⟨dir, limit, space, inOrder, _⟩ := exists_of_tableOf isTable
  obtain ⟨isTask, bounded, _⟩ := apart.known pid dir limit space
  exact ⟨isTask, by omega, by omega⟩

/-- What places refer to depends on the directories and the tables only. -/
theorem refersIn_congr
    (sameDirs : ∀ pid dir limit index, spaces pid = some (dir, limit) → index < limit →
      later dir index = frames dir index)
    (sameTables : ∀ pid index table position, tableOf frames spaces pid index = some table →
      position < entryNr → later table position = frames table position) :
    refersIn later spaces = refersIn frames spaces := by
  have sameTable (pid index : Nat) :
      tableOf later spaces pid index = tableOf frames spaces pid index := by
    unfold tableOf
    split
    · rfl
    · rename_i dir limit space
      split
      · rename_i inOrder
        rw [sameDirs pid dir limit index space inOrder]
      · rfl
  funext place
  obtain ⟨pid, index, position⟩ := place
  cases position with
  | zero => exact sameTable pid index
  | succ position =>
      unfold refersIn
      dsimp only
      rw [sameTable]
      split
      · rfl
      · rename_i table isTable
        split
        · rename_i inTable
          rw [sameTables pid index table position isTable inTable]
        · rfl

/-! ## Writes -/

/-- A word of a page is changed. -/
def writeAt (frames : Nat → Nat → Entry) (frame index : Nat) (word : Entry) :
    Nat → Nat → Entry :=
  fun other position => if other = frame ∧ position = index then word else frames other position

theorem writeAt_same (frame index : Nat) (word : Entry) :
    writeAt frames frame index word frame index = word :=
  if_pos ⟨rfl, rfl⟩

theorem writeAt_frame {frame other : Nat} (different : other ≠ frame) (index : Nat)
    (word : Entry) : writeAt frames frame index word other = frames other := by
  funext position
  exact if_neg fun same => different same.1

theorem writeAt_position {index : Nat} (different : position ≠ index) (frame other : Nat)
    (word : Entry) : writeAt frames frame index word other position = frames other position :=
  if_neg fun same => different same.2

/-- A page that holds neither a directory nor a table is written. -/
theorem refersIn_data
    (notDir : ∀ pid dir limit, spaces pid = some (dir, limit) → dir ≠ page)
    (notTable : ∀ pid index, tableOf frames spaces pid index ≠ some page)
    (same : ∀ other, other ≠ page → later other = frames other) :
    refersIn later spaces = refersIn frames spaces := by
  refine refersIn_congr (fun pid dir limit index space _ => ?_)
    fun pid index table position isTable _ => ?_
  · rw [same dir (notDir pid dir limit space)]
  · have different : table ≠ page := fun isPage => notTable pid index (isPage ▸ isTable)
    rw [same table different]

/-- A page that holds no directory is replaced. -/
theorem tableOf_update (notDir : ∀ pid dir limit, spaces pid = some (dir, limit) → dir ≠ page)
    {words : Nat → Entry} (other number : Nat) :
    tableOf (Function.update frames page words) spaces other number =
      tableOf frames spaces other number := by
  unfold tableOf
  split
  · rfl
  · rename_i dir limit space
    rw [Function.update_of_ne (notDir _ _ _ space)]

/-- An entry of a directory is written. -/
theorem Apart.tableOf_writeAt (apart : Apart spaces) (space : spaces pid = some (dir, limit))
    (inOrder : index < limit) (entry : Entry) (other number : Nat) :
    tableOf (writeAt frames dir index entry) spaces other number =
      Function.update (refersIn frames spaces) (pid, index, 0) entry.page (other, number, 0) := by
  by_cases same : (other, number, 0) = (pid, index, 0)
  · cases same
    rw [Function.update_self]
    unfold tableOf
    rw [space]
    dsimp only
    rw [if_pos inOrder, writeAt_same]
  · rw [Function.update_of_ne same, refersIn_zero]
    unfold tableOf
    split
    · rfl
    · rename_i otherDir bound otherSpace
      split
      · congr 1
        by_cases sameDir : otherDir = dir
        · have samePid : other = pid := apart.own _ _ _ _ _ (sameDir ▸ otherSpace) space
          refine writeAt_position (fun isIndex => same ?_) _ _ _
          rw [samePid, isIndex]
        · rw [writeAt_frame sameDir]
      · rfl

namespace Exclusive

variable (apart : Apart spaces) (exclusive : Exclusive (refersIn frames spaces) pages)

include apart exclusive

/-- A page that is referred to holds no directory. -/
theorem ne_dir (refersTo : refersIn frames spaces place = some page) {other : Nat}
    (space : spaces other = some (dir, limit)) : dir ≠ page := by
  have above := (exclusive.user place page refersTo).1
  have below := (apart.known other dir limit space).2.2.2
  simp only [kernelMemSize, pageSize] at above
  omega

theorem table_ne_dir (isTable : tableOf frames spaces pid index = some table) {other : Nat}
    (space : spaces other = some (dir, limit)) : dir ≠ table :=
  ne_dir apart exclusive (refersIn_zero.trans isTable) space

/-- An entry of a table is written. -/
theorem refersIn_writeAt (isTable : tableOf frames spaces pid index = some table)
    (inTable : position < entryNr) (entry : Entry) :
    refersIn (writeAt frames table position entry) spaces =
      Function.update (refersIn frames spaces) (pid, index, position + 1) entry.page := by
  have sameTable (other number : Nat) :
      tableOf (writeAt frames table position entry) spaces other number =
        tableOf frames spaces other number := by
    unfold tableOf
    split
    · rfl
    · rename_i dir limit space
      rw [writeAt_frame (table_ne_dir apart exclusive isTable space)]
  funext ⟨other, number, offset⟩
  cases offset with
  | zero =>
      rw [refersIn_zero, sameTable, Function.update_of_ne (by simp)]
      rfl
  | succ offset =>
      by_cases same : (other, number, offset + 1) = (pid, index, position + 1)
      · cases same
        rw [Function.update_self, refersIn_succ ((sameTable _ _).trans isTable) inTable,
          writeAt_same]
      · rw [Function.update_of_ne same]
        unfold refersIn
        dsimp only
        rw [sameTable]
        split
        · rfl
        · rename_i found isFound
          split
          · by_cases sameFrame : found = table
            · subst sameFrame
              have isPlace := exclusive.sole _ _ _ _ (refersIn_zero.trans isTable)
                (refersIn_zero.trans isFound)
              have different : offset ≠ position := by
                rintro rfl
                cases isPlace
                exact same rfl
              rw [writeAt_position different]
            · rw [writeAt_frame sameFrame]
          · rfl

/-- A table is given to an entry of a directory that has none. -/
theorem refersIn_table (space : spaces pid = some (dir, limit)) (inOrder : index < limit)
    (noTable : tableOf frames spaces pid index = none)
    (unused : ∀ place, refersIn frames spaces place ≠ some table)
    (notDir : ∀ pid dir limit, spaces pid = some (dir, limit) → dir ≠ table)
    {entry : Entry} (refersTo : entry.page = some table) {words : Nat → Entry}
    (empty : ∀ position, position < entryNr → (words position).page = none) :
    refersIn (Function.update (writeAt frames dir index entry) table words) spaces =
      Function.update (refersIn frames spaces) (pid, index, 0) (some table) := by
  have sameTable (other number : Nat) :
      tableOf (Function.update (writeAt frames dir index entry) table words) spaces other
          number =
        Function.update (refersIn frames spaces) (pid, index, 0) (some table)
          (other, number, 0) := by
    rw [tableOf_update notDir, apart.tableOf_writeAt space inOrder, refersTo]
  funext ⟨other, number, offset⟩
  cases offset with
  | zero =>
      exact sameTable other number
  | succ offset =>
      rw [Function.update_of_ne (by simp)]
      by_cases same : (other, number, 0) = (pid, index, 0)
      · cases same
        rw [refersIn_succ_none noTable]
        unfold refersIn
        dsimp only
        rw [sameTable, Function.update_self]
        dsimp only
        split
        · rename_i inTable
          rw [Function.update_self]
          exact empty offset inTable
        · rfl
      · unfold refersIn
        dsimp only
        rw [sameTable, Function.update_of_ne same, refersIn_zero]
        split
        · rfl
        · rename_i found isFound
          have different : found ≠ table := by
            rintro rfl
            exact unused (other, number, 0) isFound
          rw [Function.update_of_ne different,
            writeAt_frame (table_ne_dir apart exclusive isFound space).symm]

/-- An entry of a directory gives up a table without entries. -/
theorem refersIn_noTable (space : spaces pid = some (dir, limit)) (inOrder : index < limit)
    (empty : ∀ position, refersIn frames spaces (pid, index, position + 1) = none)
    {entry : Entry} (absent : entry.page = none) :
    refersIn (writeAt frames dir index entry) spaces =
      Function.update (refersIn frames spaces) (pid, index, 0) none := by
  have sameTable (other number : Nat) :
      tableOf (writeAt frames dir index entry) spaces other number =
        Function.update (refersIn frames spaces) (pid, index, 0) none (other, number, 0) := by
    rw [apart.tableOf_writeAt space inOrder, absent]
  funext ⟨other, number, offset⟩
  cases offset with
  | zero =>
      exact sameTable other number
  | succ offset =>
      rw [Function.update_of_ne (by simp)]
      by_cases same : (other, number, 0) = (pid, index, 0)
      · cases same
        rw [empty offset]
        exact refersIn_succ_none ((sameTable _ _).trans (Function.update_self ..))
      · unfold refersIn
        dsimp only
        rw [sameTable, Function.update_of_ne same, refersIn_zero]
        split
        · rfl
        · rename_i found isFound
          rw [writeAt_frame (table_ne_dir apart exclusive isFound space).symm]

end Exclusive

end Refers

end UserMemory
end LightOS
