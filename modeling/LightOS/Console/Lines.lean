import LightOS.Console.Bounds

/-!
# Inserted and deleted lines

A line is inserted by moving the rows from the one of the cursor to the end of the memory
down by one, and deleted by moving those below it up.  `insert_line` does that.
`delete_line` counts the rows with a pointer to 16-bit words, and leaves every second row
where it is.
-/

namespace LightOS

namespace Display

open Console

/-- A row of the memory, counted from the one of the cursor. -/
def row (d : Display) (k : Nat) : List UInt8 :=
  (List.range rowSize).map fun offset => d.memory (d.rowStart + k * rowSize + offset)

/-- The number of rows from the one of the cursor to the end of the memory. -/
def rowCount (d : Display) : Nat :=
  (memEnd - d.rowStart) / rowSize

/-- A row of cells with the character that clears them. -/
def blankRow (d : Display) : List UInt8 :=
  (List.range rowSize).map fun offset => UInt8.ofNat (d.con.erase / 256 ^ (offset % 2))

/-- The screen is in the memory and begins with one of its rows, and the cursor is in a row
of the screen. -/
structure Placed (d : Display) : Prop where
  base : memBase ≤ d.con.screen
  fits : d.con.screen + scrSize ≤ memEnd
  aligned : (d.con.screen - memBase) % rowSize = 0
  y : d.con.y < height

/-- The rows are the given ones.  The console and the memory outside them are unchanged. -/
structure Shows (d after : Display) (rows : Nat → List UInt8) : Prop where
  con : after.con = d.con
  rows : ∀ k < d.rowCount, after.row k = rows k
  outside : ∀ address, address < d.rowStart ∨ memEnd ≤ address →
    after.memory address = d.memory address

/-- The rows after a new line at the cursor. -/
def insertedRows (d : Display) (k : Nat) : List UInt8 :=
  if k = 0 then d.blankRow else d.row (k - 1)

/-- The rows without the one of the cursor. -/
def deletedRows (d : Display) (k : Nat) : List UInt8 :=
  if k + 1 = d.rowCount then d.blankRow else d.row (k + 1)

/-- Lines are inserted and deleted as a display does it, and deleting an inserted line
restores every row but the last. -/
structure LinesMove (d : Display) : Prop where
  insert : ∃ after, d.insertLine = .ok after ∧ Shows d after d.insertedRows
  delete : ∃ after, d.deleteLine = .ok after ∧ Shows d after d.deletedRows
  restore : ∃ middle after, d.insertLine = .ok middle ∧ middle.deleteLine = .ok after ∧
    ∀ k, k + 1 < d.rowCount → after.row k = d.row k

variable {d middle after : Display} {rows : Nat → List UInt8}

/-! ## Rows -/

theorem Placed.rowStart (placed : d.Placed) :
    ∃ first, d.rowStart = 3221979136 + 160 * first ∧ first + d.rowCount = 102 ∧
      0 < d.rowCount := by
  obtain ⟨base, fits, aligned, y⟩ := placed
  rw [memBase_eq] at base aligned
  rw [scrSize_eq, memEnd_eq] at fits
  rw [rowSize_eq] at aligned
  rw [height_eq] at y
  have start : d.rowStart = d.con.screen + d.con.y * 160 := by
    unfold Display.rowStart add32
    rw [rowSize_eq]
    omega
  unfold rowCount
  rw [start, memEnd_eq, rowSize_eq]
  refine ⟨(d.con.screen - 3221979136) / 160 + d.con.y, ?_, ?_, ?_⟩
  all_goals omega

theorem rowStart_congr (same : after.con = d.con) : after.rowStart = d.rowStart := by
  unfold Display.rowStart
  rw [same]

theorem rowCount_congr (same : after.con = d.con) : after.rowCount = d.rowCount := by
  unfold rowCount
  rw [rowStart_congr same]

/-- Two rows are equal when their bytes are. -/
theorem row_eq {row : Nat} {bytes : Nat → UInt8}
    (same : ∀ offset < 160, d.memory (d.rowStart + row * 160 + offset) = bytes offset) :
    d.row row = (List.range rowSize).map bytes :=
  List.map_congr_left fun offset inRow => same offset (List.mem_range.mp inRow)

theorem Shows.refl (d : Display) : Shows d d d.row :=
  ⟨rfl, fun _ _ => rfl, fun _ _ => rfl⟩

theorem Shows.congr (shown : Shows d after rows) {others : Nat → List UInt8}
    (same : ∀ k < d.rowCount, rows k = others k) : Shows d after others :=
  ⟨shown.con, fun k inside => (shown.rows k inside).trans (same k inside), shown.outside⟩

/-- A store of one row. -/
theorem Shows.store (placed : d.Placed) (shown : Shows d middle rows) {target : Nat}
    (inside : target < d.rowCount) (bytes : Nat → UInt8) (sameCon : after.con = middle.con)
    (stored : after.memory = middle.memory.store (d.rowStart + target * 160) 160 bytes) :
    Shows d after (Function.update rows target ((List.range rowSize).map bytes)) := by
  obtain ⟨first, start, total, _⟩ := placed.rowStart
  have con : after.con = d.con := sameCon.trans shown.con
  refine ⟨con, fun k isRow => ?_, fun address outside => ?_⟩
  · by_cases same : k = target
    · subst same
      rw [Function.update_self]
      refine row_eq fun offset inRow => ?_
      rw [stored, rowStart_congr con, Memory.store_inside _ (by omega) (by omega)]
      congr 1
      omega
    · rw [Function.update_of_ne same, ← shown.rows k isRow]
      refine row_eq fun offset inRow => ?_
      rw [stored, rowStart_congr con, Memory.store_outside _ (by omega), rowSize_eq,
        rowStart_congr shown.con]
  · rw [← shown.outside address outside, stored]
    rw [memEnd_eq] at outside
    exact Memory.store_outside _ (by omega)

/-- A copy of one row. -/
theorem Shows.memcpy (placed : d.Placed) (shown : Shows d middle rows) {source target : Nat}
    (isSource : source < d.rowCount) (isTarget : target < d.rowCount) :
    Shows d (middle.memcpy (d.rowStart + target * 160) (d.rowStart + source * 160) 160)
      (Function.update rows target (rows source)) := by
  rw [← shown.rows source isSource, row, rowStart_congr shown.con]
  exact shown.store placed isTarget
    (fun offset => middle.memory (d.rowStart + source * 160 + offset)) rfl rfl

/-- Clearing cells is one store. -/
theorem eraseScreen_memory (d : Display) (start count : Nat)
    (below : start + 2 * count < 2 ^ 32) :
    (d.eraseScreen start count).memory =
      d.memory.store start (2 * count) fun offset =>
        UInt8.ofNat (d.con.erase / 256 ^ (offset % 2)) := by
  induction count generalizing d start with
  | zero => exact (Memory.store_none start _).symm
  | succ count inductionHypothesis =>
      have next : add32 start 2 = start + 2 := Nat.mod_eq_of_lt (by omega)
      have first : (d.putHalf start d.con.erase).memory = d.memory.store start 2 fun offset =>
          UInt8.ofNat (d.con.erase / 256 ^ offset) := rfl
      have same : (d.putHalf start d.con.erase).con = d.con := rfl
      rw [eraseScreen, next, inductionHypothesis _ _ (by omega), first, same, Memory.store_append,
        Nat.add_comm 2]
      refine Memory.store_congr fun offset _ => ?_
      split
      · rw [Nat.mod_eq_of_lt (by assumption)]
      · have parity : (offset - 2) % 2 = offset % 2 := by omega
        rw [parity]

/-- Clearing one row. -/
theorem Shows.erase (placed : d.Placed) (shown : Shows d middle rows) {target : Nat}
    (inside : target < d.rowCount) :
    Shows d (middle.eraseScreen (d.rowStart + target * 160) 80)
      (Function.update rows target d.blankRow) := by
  obtain ⟨first, start, total, _⟩ := placed.rowStart
  have erased := middle.eraseScreen_memory (d.rowStart + target * 160) 80 (by omega)
  rw [shown.con] at erased
  exact shown.store placed inside _ (eraseScreen_con _ _ _) erased

/-! ## Inserting -/

/-- The loop of `insert_line` moves the rows in front of those it has moved already. -/
theorem Shows.insertRows (placed : d.Placed) {left rounds : Nat} (enough : left < rounds)
    (shown : Shows d middle rows) (inside : left < d.rowCount) :
    ∃ after, Display.insertRows d.rowStart rounds (d.rowCount + 1 - left) middle = .ok after ∧
      Shows d after fun k => if 0 < k ∧ k ≤ left then rows (k - 1) else rows k := by
  obtain ⟨first, start, total, positive⟩ := placed.rowStart
  induction left generalizing middle rounds rows with
  | zero =>
      cases rounds with
      | zero => omega
      | succ rounds =>
          have ends : sub32 memEnd ((d.rowCount + 1 - 0) * rowSize % 2 ^ 32) < d.rowStart := by
            rw [memEnd_eq, rowSize_eq, Nat.mod_eq_of_lt (by omega), sub32_eq (by omega)]
            omega
          rw [Display.insertRows, if_pos ends]
          exact ⟨middle, rfl, shown.congr fun k _ => (if_neg (by omega)).symm⟩
  | succ left inductionHypothesis =>
      cases rounds with
      | zero => omega
      | succ rounds =>
          have source : sub32 memEnd ((d.rowCount + 1 - (left + 1)) * rowSize % 2 ^ 32) =
              d.rowStart + left * 160 := by
            rw [memEnd_eq, rowSize_eq, Nat.mod_eq_of_lt (by omega), sub32_eq (by omega)]
            omega
          have target : add32 (d.rowStart + left * 160) rowSize =
              d.rowStart + (left + 1) * 160 := by
            rw [rowSize_eq]
            unfold add32
            omega
          have next : d.rowCount + 1 - (left + 1) + 1 = d.rowCount + 1 - left := by omega
          rw [Display.insertRows, source, if_neg (by omega), target, next]
          obtain ⟨after, ran, shownAfter⟩ := inductionHypothesis (show left < rounds by omega)
            (shown.memcpy placed (show left < d.rowCount by omega) inside) (by omega)
          refine ⟨after, ran, shownAfter.congr fun k _ => ?_⟩
          simp only [Function.update_apply]
          by_cases last : k = left + 1
          · rw [if_neg (by omega), if_pos last, if_pos (by omega), last, Nat.add_sub_cancel]
          by_cases moved : 0 < k ∧ k ≤ left
          · rw [if_pos moved, if_neg (by omega), if_pos (by omega)]
          · rw [if_neg moved, if_neg last, if_neg (by omega)]

/-- `insert_line` moves every row from the one of the cursor down and blanks that one. -/
theorem Placed.insertLine (placed : d.Placed) :
    ∃ after, d.insertLine = .ok after ∧ Shows d after d.insertedRows := by
  obtain ⟨first, start, total, positive⟩ := placed.rowStart
  obtain ⟨moved, ran, shown⟩ := (Shows.refl d).insertRows placed
    (show d.rowCount - 1 < memSize by rw [memSize_eq]; omega) (by omega)
  have begins : d.rowCount + 1 - (d.rowCount - 1) = 2 := by omega
  rw [begins] at ran
  refine ⟨_, by rw [Display.insertLine, ran, ok_bind]; rfl, ?_⟩
  have here : moved.rowStart = d.rowStart + 0 * 160 := by
    rw [rowStart_congr shown.con, Nat.zero_mul, Nat.add_zero]
  rw [width_eq, here]
  refine (shown.erase placed positive).congr fun k inside => ?_
  unfold insertedRows
  by_cases top : k = 0
  · rw [top, Function.update_self, if_pos rfl]
  · rw [Function.update_of_ne top, if_pos (by omega), if_neg top]

/-! ## Deleting -/

/-- The rows as `delete_line` leaves them: it moves every second one. -/
def skippedRows (d : Display) (k : Nat) : List UInt8 :=
  if k + 1 = d.rowCount then d.blankRow else if k % 2 = 1 then d.row (k + 1) else d.row k

/-- The loop of `delete_line` moves every second row behind those it has moved already. -/
theorem Shows.deleteRows (placed : d.Placed) {left rounds i : Nat} (enough : left < rounds)
    (shown : Shows d middle rows) (least : 1 ≤ i) (split : i + left = (d.rowCount + 1) / 2) :
    ∃ after, Display.deleteRows d.rowStart rounds i middle = .ok after ∧
      Shows d after fun k =>
        if k % 2 = 1 ∧ 2 * i ≤ k + 1 ∧ k + 1 < d.rowCount then rows (k + 1) else rows k := by
  obtain ⟨first, start, total, positive⟩ := placed.rowStart
  induction left generalizing middle rounds rows i with
  | zero =>
      cases rounds with
      | zero => omega
      | succ rounds =>
          have ends : memEnd ≤ add32 d.rowStart (2 * (i * rowSize) % 2 ^ 32) := by
            unfold add32
            rw [memEnd_eq, rowSize_eq, Nat.mod_eq_of_lt (a := 2 * (i * 160)) (by omega),
              Nat.mod_eq_of_lt (by omega)]
            omega
          rw [Display.deleteRows, if_pos ends]
          exact ⟨middle, rfl, shown.congr fun k _ => (if_neg (by omega)).symm⟩
  | succ left inductionHypothesis =>
      cases rounds with
      | zero => omega
      | succ rounds =>
          have source : add32 d.rowStart (2 * (i * rowSize) % 2 ^ 32) =
              d.rowStart + 2 * i * 160 := by
            unfold add32
            rw [rowSize_eq, Nat.mod_eq_of_lt (a := 2 * (i * 160)) (by omega),
              Nat.mod_eq_of_lt (by omega)]
            omega
          have target : sub32 (d.rowStart + 2 * i * 160) rowSize =
              d.rowStart + (2 * i - 1) * 160 := by
            rw [rowSize_eq, sub32_eq (by omega)]
            omega
          rw [Display.deleteRows, source, if_neg (by rw [memEnd_eq]; omega), target]
          obtain ⟨after, ran, shownAfter⟩ := inductionHypothesis (show left < rounds by omega)
            (shown.memcpy placed (show 2 * i < d.rowCount by omega)
              (show 2 * i - 1 < d.rowCount by omega))
            (i := i + 1) (by omega) (by omega)
          refine ⟨after, ran, shownAfter.congr fun k _ => ?_⟩
          simp only [Function.update_apply]
          by_cases here : k = 2 * i - 1
          · have source : 2 * i = k + 1 := by omega
            rw [if_neg (by omega), if_pos here, if_pos (by omega), source]
          by_cases moved : k % 2 = 1 ∧ 2 * (i + 1) ≤ k + 1 ∧ k + 1 < d.rowCount
          · rw [if_pos moved, if_neg (by omega), if_pos (by omega)]
          · rw [if_neg moved, if_neg here, if_neg (by omega)]

/-- `delete_line` moves every second row and blanks the last one. -/
theorem Placed.deleteLine (placed : d.Placed) :
    ∃ after, d.deleteLine = .ok after ∧ Shows d after d.skippedRows := by
  obtain ⟨first, start, total, positive⟩ := placed.rowStart
  obtain ⟨moved, ran, shown⟩ := (Shows.refl d).deleteRows placed
    (show (d.rowCount + 1) / 2 - 1 < memSize by rw [memSize_eq]; omega) (Nat.le_refl 1) (by omega)
  refine ⟨_, by rw [Display.deleteLine, ran, ok_bind]; rfl, ?_⟩
  have last : sub32 memEnd rowSize = d.rowStart + (d.rowCount - 1) * 160 := by
    rw [memEnd_eq, rowSize_eq, sub32_eq (by omega)]
    omega
  rw [width_eq, last]
  refine (shown.erase placed (by omega)).congr fun k inside => ?_
  unfold skippedRows
  by_cases bottom : k + 1 = d.rowCount
  · have isLast : k = d.rowCount - 1 := by omega
    rw [if_pos bottom, isLast, Function.update_self]
  · rw [Function.update_of_ne (by omega), if_neg bottom]
    by_cases odd : k % 2 = 1
    · rw [if_pos odd, if_pos ⟨odd, by omega, by omega⟩]
    · rw [if_neg odd, if_neg fun moved => odd moved.1]

/-! ## When both do what they say -/

/-- Every row from the one of the cursor on is blank, except the last one of an odd number. -/
def BlankPairs (d : Display) : Prop :=
  ∀ k < d.rowCount - d.rowCount % 2, d.row k = d.blankRow

/-- `delete_line` deletes a line exactly when each row that it leaves equals the next one. -/
theorem deleted_iff (shown : Shows d after d.skippedRows) :
    Shows d after d.deletedRows ↔
      ∀ k, k % 2 = 0 → k + 1 < d.rowCount → d.row k = d.row (k + 1) := by
  constructor
  · intro deleted k even inside
    have left := shown.rows k (by omega)
    rw [deleted.rows k (by omega)] at left
    unfold deletedRows skippedRows at left
    rw [if_neg (by omega), if_neg (by omega), if_neg (by omega)] at left
    exact left.symm
  · intro pairs
    refine shown.congr fun k inside => ?_
    unfold deletedRows skippedRows
    by_cases bottom : k + 1 = d.rowCount
    · rw [if_pos bottom, if_pos bottom]
    · rw [if_neg bottom, if_neg bottom]
      by_cases odd : k % 2 = 1
      · rw [if_pos odd]
      · rw [if_neg odd, pairs k (by omega) (by omega)]

/-- `delete_line` after `insert_line` restores the rows exactly when each row that it leaves,
as `insert_line` has moved it, equals the one that was there. -/
theorem undoes_iff (inserted : Shows d middle d.insertedRows)
    (shown : Shows middle after middle.skippedRows) :
    (∀ k, k + 1 < d.rowCount → after.row k = d.row k) ↔
      ∀ k, k % 2 = 0 → k + 1 < d.rowCount → d.insertedRows k = d.row k := by
  have count := rowCount_congr inserted.con
  have left {k : Nat} (inside : k + 1 < d.rowCount) :
      after.row k = if k % 2 = 1 then d.row k else d.insertedRows k := by
    have moved : d.insertedRows (k + 1) = d.row k := if_neg (Nat.succ_ne_zero k)
    rw [shown.rows k (by omega), skippedRows, if_neg (by omega),
      inserted.rows (k + 1) inside, inserted.rows k (by omega), moved]
  constructor
  · intro restored k even inside
    rw [← restored k inside, left inside, if_neg (by omega)]
  · intro kept k inside
    rw [left inside]
    split
    · rfl
    · exact kept k (by omega) inside

/-- Rows that equal the next one, and the one before with a blank row in front, are blank. -/
theorem blankPairs_iff :
    BlankPairs d ↔ (∀ k, k % 2 = 0 → k + 1 < d.rowCount → d.row k = d.row (k + 1)) ∧
      ∀ k, k % 2 = 0 → k + 1 < d.rowCount → d.insertedRows k = d.row k := by
  constructor
  · intro blank
    refine ⟨fun k even inside => ?_, fun k even inside => ?_⟩
    · rw [blank k (by omega), blank (k + 1) (by omega)]
    · unfold insertedRows
      split
      · exact (blank k (by omega)).symm
      · rw [blank k (by omega), blank (k - 1) (by omega)]
  · rintro ⟨pairs, moved⟩ k
    induction k with
    | zero =>
        intro inside
        exact (moved 0 rfl (by omega)).symm.trans (if_pos rfl)
    | succ k inductionHypothesis =>
        intro inside
        have before := inductionHypothesis (by omega)
        by_cases even : k % 2 = 0
        · rw [← pairs k even (by omega), before]
        · have same : d.row k = d.row (k + 1) := moved (k + 1) (by omega) (by omega)
          rw [← same, before]

/-- `insert_line` always inserts a line.  `delete_line` deletes one, and undoes `insert_line`
but for the last row, exactly when the rows that it should move are blank. -/
theorem linesMove_iff_blankPairs (placed : d.Placed) : LinesMove d ↔ BlankPairs d := by
  obtain ⟨inserted, insertion, shownInserted⟩ := placed.insertLine
  obtain ⟨deleted, deletion, shownDeleted⟩ := placed.deleteLine
  have same := shownInserted.con
  have placedInserted : inserted.Placed :=
    ⟨same ▸ placed.base, same ▸ placed.fits, same ▸ placed.aligned, same ▸ placed.y⟩
  obtain ⟨restored, restoration, shownRestored⟩ := placedInserted.deleteLine
  rw [blankPairs_iff, ← deleted_iff shownDeleted, ← undoes_iff shownInserted shownRestored]
  constructor
  · rintro ⟨-, ⟨other, isOther, right⟩, middle, after, isMiddle, isAfter, back⟩
    cases deletion.symm.trans isOther
    cases insertion.symm.trans isMiddle
    cases restoration.symm.trans isAfter
    exact ⟨right, back⟩
  · rintro ⟨right, back⟩
    exact ⟨⟨inserted, insertion, shownInserted⟩, ⟨deleted, deletion, right⟩,
      inserted, restored, insertion, restoration, back⟩

/-- The display after the start, with the given memory and the cursor in the given row. -/
def started (memory : Memory) (y : Nat) : Display :=
  { con := {
      screen := memBase
      pos := memBase + y * rowSize
      x := 0
      y := y
      savedX := 0
      savedY := 0
      state := .nor
      args := fun _ => 0
      argc := 0
      erase := 0x0720
      style := 7 }
    memory := memory
    stores := [] }

theorem placed_started (memory : Memory) {y : Nat} (inside : y < height) :
    (started memory y).Placed where
  base := Nat.le_refl _
  fits := show memBase + scrSize ≤ memEnd by decide
  aligned := show (memBase - memBase) % rowSize = 0 by decide
  y := inside

/-- A memory of blanks between a row of letters and a last one. -/
def edged : Memory :=
  ⟨fun address =>
    if address < memBase + rowSize ∨ memBase + 101 * rowSize ≤ address then 65
    else UInt8.ofNat (0x0720 / 256 ^ (address % 2))⟩

/-- Lines of blanks are moved, with letters above the cursor and in the last of an odd number
of rows. -/
theorem linesMove_iff_blankPairs_edged : LinesMove (started edged 1) := by
  refine (linesMove_iff_blankPairs (placed_started edged (by decide))).mpr fun k inside => ?_
  refine row_eq fun offset inRow => ?_
  have start : (started edged 1).rowStart = 3221979136 + 160 := rfl
  have rows : (started edged 1).rowCount = 101 := by decide
  rw [rows] at inside
  have between : ¬((started edged 1).rowStart + k * 160 + offset < memBase + rowSize ∨
      memBase + 101 * rowSize ≤ (started edged 1).rowStart + k * 160 + offset) := by
    rw [memBase_eq, rowSize_eq, start]
    omega
  have even : ((started edged 1).rowStart + k * 160 + offset) % 2 = offset % 2 := by
    omega
  refine (if_neg between).trans ?_
  rw [even]
  rfl

/-- A memory with a row of one letter and rows of another one below it. -/
def lettered : Memory :=
  ⟨fun address => if address < memBase + rowSize then 65 else 66⟩

/-- A row with another one below it is not deleted. -/
theorem linesMove_fails : ¬∀ d : Display, d.Placed → LinesMove d := by
  intro always
  have placed : (started lettered 0).Placed := placed_started lettered (by decide)
  obtain ⟨after, deletion, right⟩ := (always _ placed).delete
  obtain ⟨other, isOther, shown⟩ := placed.deleteLine
  cases isOther.symm.trans deletion
  have same := (deleted_iff shown).mp right 0 rfl (by decide)
  have letters : (started lettered 0).row 0 = (started lettered 0).row 1 → (65 : UInt8) = 66 :=
    fun same => Option.some.inj (congrArg List.head? same)
  exact absurd (letters same) (by decide)

end Display
end LightOS
