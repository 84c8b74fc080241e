import LightOS.Console.State

/-!
# The cursor and the memory of the display

Whatever bytes are written, the cursor stays at its column and row of the screen, the screen
stays in the memory of the display with a row to spare, and no handler stores outside that
memory.
-/

namespace LightOS

namespace Display

open Console

/-- The cursor is at its column and row, the screen is in the memory with a row to spare, and
every store was. -/
structure Sound (d : Display) : Prop where
  pos : d.con.pos = d.con.screen + d.con.y * rowSize + 2 * d.con.x
  x : d.con.x ≤ width
  y : d.con.y < height
  base : memBase ≤ d.con.screen
  fits : d.con.screen + scrSize + rowSize ≤ memEnd
  stores : ∀ store ∈ d.stores, memBase ≤ store.1 ∧ store.1 + store.2 ≤ memEnd

/-- The invariant of the handlers.  The column may run up to a limit, and the screen begins
with a row of the memory. -/
structure Held (limit : Nat) (d : Display) : Prop where
  pos : d.con.pos = d.con.screen + d.con.y * 160 + 2 * d.con.x
  x : d.con.x ≤ limit
  y : d.con.y < 25
  screen : ∃ row, d.con.screen = 3221979136 + 160 * row ∧ row ≤ 76
  stores : ∀ store ∈ d.stores, 3221979136 ≤ store.1 ∧ store.1 + store.2 ≤ 3221995456

variable {limit : Nat} {d : Display}

theorem Held.sound (held : Held 80 d) : d.Sound := by
  obtain ⟨row, isRow, atMost⟩ := held.screen
  refine ⟨held.pos, held.x, held.y, ?_, ?_, held.stores⟩
  · rw [memBase_eq]
    omega
  · rw [scrSize_eq, rowSize_eq, memEnd_eq]
    omega

theorem Held.mono {more : Nat} (held : Held limit d) (atMost : limit ≤ more) : Held more d :=
  { held with x := Nat.le_trans held.x atMost }

/-- The screen and the cursor are in the memory. -/
theorem Held.bounds (held : Held limit d) :
    3221979136 ≤ d.con.screen ∧ d.con.screen + 4160 ≤ 3221995456 ∧
      d.con.pos ≤ d.con.screen + 3840 + 2 * limit := by
  obtain ⟨row, isRow, atMost⟩ := held.screen
  have pos := held.pos
  have x := held.x
  have y := held.y
  omega

/-! ## Stores -/

theorem Held.put (held : Held limit d) {address length : Nat} (bytes : Nat → UInt8)
    (above : 3221979136 ≤ address) (below : address + length ≤ 3221995456) :
    Held limit (d.put address length bytes) where
  pos := held.pos
  x := held.x
  y := held.y
  screen := held.screen
  stores := by
    intro store made
    rcases List.mem_cons.mp made with rfl | before
    · exact ⟨above, below⟩
    · exact held.stores store before

@[simp] theorem eraseScreen_con (d : Display) (start count : Nat) :
    (d.eraseScreen start count).con = d.con := by
  induction count generalizing d start with
  | zero => rfl
  | succ count inductionHypothesis =>
      rw [eraseScreen, inductionHypothesis]
      rfl

theorem Held.eraseScreen (held : Held limit d) {start count : Nat}
    (above : 3221979136 ≤ start) (below : start + 2 * count ≤ 3221995456) :
    Held limit (d.eraseScreen start count) := by
  induction count generalizing d start with
  | zero => exact held
  | succ count inductionHypothesis =>
      rw [Display.eraseScreen]
      have next : add32 start 2 = start + 2 := Nat.mod_eq_of_lt (by omega)
      rw [next]
      exact inductionHypothesis (held.put _ above (by omega)) (by omega) (by omega)

/-! ## The cursor -/

theorem Held.setXY (held : Held 80 d) (x y : Nat) : Held 80 (d.setXY x y) := by
  have bounds := held.bounds
  unfold Display.setXY
  rw [width_eq, height_eq, rowSize_eq]
  split
  · exact held
  · rename_i inside
    refine ⟨?_, by dsimp only; omega, by dsimp only; omega, held.screen, held.stores⟩
    dsimp only
    unfold add32
    omega

theorem Held.saveCursor (held : Held limit d) : Held limit d.saveCursor :=
  ⟨held.pos, held.x, held.y, held.screen, held.stores⟩

theorem Held.restoreCursor (held : Held 80 d) : Held 80 d.restoreCursor :=
  held.setXY _ _

/-- After the return to the beginning there is room for one more row. -/
theorem Held.rewindScreen (held : Held limit d) :
    Held limit d.rewindScreen ∧ d.rewindScreen.con.screen + 4320 ≤ 3221995456 := by
  obtain ⟨base, fits, _⟩ := held.bounds
  obtain ⟨row, isRow, atMost⟩ := held.screen
  have pos := held.pos
  have next : add32 (add32 d.con.screen 4000) 160 = d.con.screen + 4160 := by
    unfold add32
    omega
  unfold Display.rewindScreen
  rw [memEnd_eq, memBase_eq, scrSize_eq, rowSize_eq, next]
  by_cases full : 3221995456 ≤ d.con.screen + 4160
  · rw [if_pos full]
    have copied : Held limit (d.memcpy 3221979136 d.con.screen 4000) :=
      held.put _ (Nat.le_refl _) (by omega)
    refine ⟨⟨?_, copied.x, copied.y, ⟨0, rfl, by omega⟩, copied.stores⟩, by simp⟩
    have back : sub32 d.con.pos (sub32 d.con.screen 3221979136) =
        d.con.pos - (d.con.screen - 3221979136) := by
      rw [sub32_eq base, sub32_eq (by omega)]
    dsimp only [memcpy, Display.put]
    rw [back]
    omega
  · rw [if_neg full]
    refine ⟨held, ?_⟩
    omega

theorem Held.advanceScreen (held : Held limit d) (small : limit ≤ 80)
    (room : d.con.screen + 4320 ≤ 3221995456) : Held limit d.advanceScreen := by
  obtain ⟨base, _, atMost⟩ := held.bounds
  obtain ⟨row, isRow, _⟩ := held.screen
  have pos := held.pos
  have below : add32 d.con.screen 4000 = d.con.screen + 4000 := Nat.mod_eq_of_lt (by omega)
  have erased : Held limit (d.eraseScreen (d.con.screen + 4000) 80) :=
    held.eraseScreen (by omega) (by omega)
  have screen : add32 d.con.screen 160 = d.con.screen + 160 := Nat.mod_eq_of_lt (by omega)
  have cursor : add32 d.con.pos 160 = d.con.pos + 160 := Nat.mod_eq_of_lt (by omega)
  unfold Display.advanceScreen
  rw [scrSize_eq, rowSize_eq, width_eq, below]
  refine ⟨?_, erased.x, erased.y, ⟨row + 1, ?_, by omega⟩, erased.stores⟩
  · simp only [eraseScreen_con, screen, cursor]
    omega
  · simp only [eraseScreen_con, screen]
    omega

theorem Held.scrollUp (held : Held limit d) (small : limit ≤ 80) : Held limit d.scrollUp :=
  held.rewindScreen.1.advanceScreen small held.rewindScreen.2

/-! ## Control characters -/

theorem Held.lf (held : Held limit d) (small : limit ≤ 80) : Held limit d.lf := by
  have bounds := held.bounds
  have pos := held.pos
  have y := held.y
  have next : add32 d.con.y 1 = d.con.y + 1 := Nat.mod_eq_of_lt (by omega)
  unfold Display.lf
  rw [height_eq, rowSize_eq, next]
  split
  · refine ⟨?_, held.x, by assumption, held.screen, held.stores⟩
    dsimp only
    unfold add32
    omega
  · exact held.scrollUp small

theorem Held.cr (held : Held 80 d) : Held 80 d.cr := by
  have pos := held.pos
  have x := held.x
  refine ⟨?_, Nat.zero_le _, held.y, held.screen, held.stores⟩
  unfold Display.cr
  dsimp only
  rw [sub32_eq (by omega)]
  omega

/-- A column behind the end of the line becomes one of the next line. -/
theorem Held.wrapLine (held : Held limit d) (small : limit ≤ 88) : Held 79 d.wrapLine := by
  have pos := held.pos
  have x := held.x
  have bounds := held.bounds
  unfold Display.wrapLine
  rw [width_eq, rowSize_eq]
  by_cases ends : 80 ≤ d.con.x
  · have column : sub32 d.con.x 80 = d.con.x - 80 := sub32_eq ends
    have cursor : sub32 d.con.pos 160 = d.con.pos - 160 := sub32_eq (by omega)
    rw [if_pos ends, column, cursor]
    refine Held.lf ?_ (by omega)
    refine ⟨?_, ?_, held.y, held.screen, held.stores⟩
    · dsimp only
      omega
    · dsimp only
      omega
  · rw [if_neg ends]
    exact { held with x := by omega }

theorem Held.tab (held : Held 80 d) : Held 80 d.tab := by
  have pos := held.pos
  have x := held.x
  have bounds := held.bounds
  unfold Display.tab
  refine (Held.wrapLine ?_ (Nat.le_refl 88)).mono (by omega)
  refine ⟨?_, ?_, held.y, held.screen, held.stores⟩
  · dsimp only
    unfold add32
    omega
  · dsimp only
    unfold add32
    omega

theorem Held.bs (held : Held 80 d) : Held 80 d.bs := by
  have pos := held.pos
  have x := held.x
  have bounds := held.bounds
  unfold Display.bs
  split
  · exact held
  · have back : sub32 d.con.pos 2 = d.con.pos - 2 := sub32_eq (by omega)
    have left : sub32 d.con.x 1 = d.con.x - 1 := sub32_eq (by omega)
    have moved : Held 80 { d with con.x := d.con.x - 1, con.pos := d.con.pos - 2 } := by
      refine ⟨?_, ?_, held.y, held.screen, held.stores⟩
      · dsimp only
        omega
      · dsimp only
        omega
    rw [back, left]
    exact moved.put _ (by omega) (by omega)

theorem Held.del (held : Held 80 d) : Held 80 d.del := by
  have pos := held.pos
  have bounds := held.bounds
  exact held.put _ (by omega) (by omega)

theorem Held.chr (held : Held 80 d) (ch : UInt8) : Held 80 (d.chr ch) := by
  have wrapped := held.wrapLine (by omega)
  unfold Display.chr
  generalize d.wrapLine = line at wrapped
  have pos := wrapped.pos
  have x := wrapped.x
  have bounds := wrapped.bounds
  have next : add32 line.con.pos 1 = line.con.pos + 1 := Nat.mod_eq_of_lt (by omega)
  have first : Held 79 (line.putByte line.con.pos ch.toNat) :=
    wrapped.put _ (by omega) (by omega)
  have second : Held 79 ((line.putByte line.con.pos ch.toNat).putByte
      (add32 line.con.pos 1) line.con.style) := first.put _ (by omega) (by omega)
  refine ⟨?_, ?_, second.y, second.screen, second.stores⟩
  · dsimp only [putByte, Display.put]
    unfold add32
    omega
  · dsimp only [putByte, Display.put]
    unfold add32
    omega

theorem Held.stateNormal (held : Held 80 d) (ch : UInt8) : Held 80 (d.stateNormal ch) := by
  unfold Display.stateNormal
  split
  · exact held
  · exact held
  · exact held.bs
  · exact held.tab
  · exact (held.lf (Nat.le_refl _)).cr
  · exact held.lf (Nat.le_refl _)
  · exact held.lf (Nat.le_refl _)
  · exact held.cr
  · exact held.del
  · exact ⟨held.pos, held.x, held.y, held.screen, held.stores⟩
  · exact held.chr _

theorem Held.stateEsc (held : Held 80 d) (ch : UInt8) : Held 80 (d.stateEsc ch) := by
  unfold Display.stateEsc
  split
  · exact ⟨held.pos, held.x, held.y, held.screen, held.stores⟩
  · exact (held.lf (Nat.le_refl _)).cr
  · exact held.lf (Nat.le_refl _)
  · exact held.saveCursor
  · exact held.restoreCursor
  · exact held

theorem Held.stateArg (held : Held 80 d) (ch : UInt8) : Held 80 (d.stateArg ch).2 := by
  unfold Display.stateArg
  split
  · exact held
  split
  · exact ⟨held.pos, held.x, held.y, held.screen, held.stores⟩
  split
  · exact ⟨held.pos, held.x, held.y, held.screen, held.stores⟩
  · exact ⟨held.pos, held.x, held.y, held.screen, held.stores⟩

/-! ## Control sequences -/

theorem Held.csiJ (held : Held 80 d) : Held 80 d.csiJ := by
  have pos := held.pos
  have y := held.y
  have x := held.x
  have bounds := held.bounds
  have end_ : add32 d.con.screen 4000 = d.con.screen + 4000 := Nat.mod_eq_of_lt (by omega)
  have behind : sub32 (d.con.screen + 4000) d.con.pos = d.con.screen + 4000 - d.con.pos :=
    sub32_eq (by omega)
  have before : sub32 d.con.pos d.con.screen = d.con.pos - d.con.screen := sub32_eq (by omega)
  unfold Display.csiJ
  rw [scrSize_eq, end_, behind, before]
  split
  · exact held.eraseScreen (by omega) (by omega)
  · exact held.eraseScreen (by omega) (by omega)
  · exact held.eraseScreen (by omega) (by omega)
  · exact held

theorem Held.csiK (held : Held 80 d) : Held 80 d.csiK := by
  have pos := held.pos
  have x := held.x
  have bounds := held.bounds
  have behind : sub32 80 d.con.x = 80 - d.con.x := sub32_eq x
  have twice : 2 * d.con.x % 2 ^ 32 = 2 * d.con.x := Nat.mod_eq_of_lt (by omega)
  have row : sub32 d.con.pos (2 * d.con.x) = d.con.pos - 2 * d.con.x := sub32_eq (by omega)
  unfold Display.csiK
  rw [width_eq, behind, twice, row]
  split
  · exact held.eraseScreen (by omega) (by omega)
  · exact held.eraseScreen (by omega) (by omega)
  · exact held.eraseScreen (by omega) (by omega)
  · exact held

/-- The row of the cursor begins on the screen. -/
theorem Held.rowStart (held : Held 80 d) :
    d.rowStart = d.con.screen + 160 * d.con.y := by
  have bounds := held.bounds
  have y := held.y
  unfold Display.rowStart add32
  rw [rowSize_eq]
  omega

/-- What a round does to a display in order, a repetition does. -/
theorem Held.repeated (held : Held 80 d) {round : Display → Except Fault Display}
    (keeps : ∀ d, Held 80 d → ∃ after, round d = .ok after ∧ Held 80 after) :
    ∃ after, d.repeated round = .ok after ∧ Held 80 after := by
  unfold Display.repeated
  generalize List.range d.repetitions = rounds
  induction rounds generalizing d with
  | nil => exact ⟨d, rfl, held⟩
  | cons first rest inductionHypothesis =>
      obtain ⟨middle, ran, heldMiddle⟩ := keeps d held
      rw [List.foldlM_cons, ran, ok_bind]
      exact inductionHypothesis heldMiddle

/-- The rows from the end of the memory down to a start move by one. -/
theorem Held.insertRows (held : Held 80 d) (start rounds : Nat) {i : Nat}
    (above : 3221979136 ≤ start) (least : 2 ≤ i) (most : i ≤ 103)
    (enough : 104 ≤ i + rounds) :
    ∃ after, Display.insertRows start rounds i d = .ok after ∧ after.con = d.con ∧
      Held 80 after := by
  induction rounds generalizing d i with
  | zero => omega
  | succ rounds inductionHypothesis =>
      have src : sub32 3221995456 (i * 160 % 2 ^ 32) = 3221995456 - i * 160 := by
        rw [Nat.mod_eq_of_lt (by omega), sub32_eq (by omega)]
      have target : add32 (3221995456 - i * 160) 160 = 3221995456 - i * 160 + 160 :=
        Nat.mod_eq_of_lt (by omega)
      rw [Display.insertRows, memEnd_eq, rowSize_eq, src, target]
      by_cases ends : 3221995456 - i * 160 < start
      · rw [if_pos ends]
        exact ⟨d, rfl, rfl, held⟩
      · rw [if_neg ends]
        have copied : Held 80 (d.memcpy (3221995456 - i * 160 + 160)
            (3221995456 - i * 160) 160) := held.put _ (by omega) (by omega)
        exact inductionHypothesis copied (by omega) (by omega) (by omega)

theorem Held.insertLine (held : Held 80 d) :
    ∃ after, d.insertLine = .ok after ∧ Held 80 after := by
  have bounds := held.bounds
  have y := held.y
  have isStart := held.rowStart
  obtain ⟨moved, ran, same, heldMoved⟩ := held.insertRows d.rowStart memSize (by omega)
    (Nat.le_refl 2) (by omega) (by rw [memSize_eq]; omega)
  have sameStart : moved.rowStart = d.rowStart := by
    unfold Display.rowStart
    rw [same]
  refine ⟨_, by rw [Display.insertLine, ran, ok_bind]; rfl, ?_⟩
  rw [sameStart, width_eq]
  exact heldMoved.eraseScreen (by omega) (by omega)

/-- Every second row from a start to the end of the memory moves by one. -/
theorem Held.deleteRows (held : Held 80 d) (start rounds : Nat) {i : Nat}
    (above : 3221979136 ≤ start) (least : 1 ≤ i) (inside : start + 320 * (i - 1) < 3221995456)
    (enough : 3221995456 ≤ start + 320 * (i - 1 + rounds)) :
    ∃ after, Display.deleteRows start rounds i d = .ok after ∧ Held 80 after := by
  induction rounds generalizing d i with
  | zero => omega
  | succ rounds inductionHypothesis =>
      have src : add32 start (2 * (i * 160) % 2 ^ 32) = start + 320 * i := by
        unfold add32
        rw [Nat.mod_eq_of_lt (a := 2 * (i * 160)) (by omega), Nat.mod_eq_of_lt (by omega)]
        omega
      have target : sub32 (start + 320 * i) 160 = start + 320 * i - 160 := sub32_eq (by omega)
      rw [Display.deleteRows, memEnd_eq, rowSize_eq, src, target]
      by_cases ends : 3221995456 ≤ start + 320 * i
      · rw [if_pos ends]
        exact ⟨d, rfl, held⟩
      · rw [if_neg ends]
        have copied : Held 80 (d.memcpy (start + 320 * i - 160) (start + 320 * i) 160) :=
          held.put _ (by omega) (by omega)
        exact inductionHypothesis copied (by omega) (by omega) (by omega)

theorem Held.deleteLine (held : Held 80 d) :
    ∃ after, d.deleteLine = .ok after ∧ Held 80 after := by
  have bounds := held.bounds
  have y := held.y
  have isStart := held.rowStart
  obtain ⟨moved, ran, heldMoved⟩ := held.deleteRows d.rowStart memSize (by omega)
    (Nat.le_refl 1) (by omega) (by rw [memSize_eq]; omega)
  refine ⟨_, by rw [Display.deleteLine, ran, ok_bind]; rfl, ?_⟩
  have last : sub32 3221995456 160 = 3221995296 := rfl
  rw [memEnd_eq, rowSize_eq, width_eq, last]
  exact heldMoved.eraseScreen (by omega) (by omega)

/-- The cells from the cursor to the end of its row. -/
theorem Held.deleteCells (held : Held 80 d) {rounds i ptr : Nat} (most : i ≤ 80)
    (above : 3221979136 ≤ ptr) (below : ptr + 2 * (81 - i) ≤ 3221995456)
    (enough : 81 ≤ i + rounds) :
    ∃ after, Display.deleteCells rounds i ptr d = .ok after ∧ Held 80 after := by
  induction rounds generalizing d i ptr with
  | zero => omega
  | succ rounds inductionHypothesis =>
      have next : (i + 1) % 2 ^ 16 = i + 1 := Nat.mod_eq_of_lt (by omega)
      have cell : add32 ptr 2 = ptr + 2 := Nat.mod_eq_of_lt (by omega)
      rw [Display.deleteCells, next, width_eq, cell]
      by_cases more : i + 1 < 80
      · rw [if_pos more]
        exact inductionHypothesis (held.put _ above (by omega)) (by omega) (by omega)
          (by omega) (by omega)
      · rw [if_neg more]
        exact ⟨_, rfl, held.put _ above (by omega)⟩

theorem Held.deleteChar (held : Held 80 d) :
    ∃ after, d.deleteChar = .ok after ∧ Held 80 after := by
  have pos := held.pos
  have x := held.x
  have y := held.y
  have bounds := held.bounds
  unfold Display.deleteChar
  rw [Nat.mod_eq_of_lt (by omega), memSize_eq]
  exact held.deleteCells x (by omega) (by omega) (by omega)

/-- The cells from the end of a row back to the cursor.  With the cursor behind the row the
loop has nothing to do. -/
theorem Held.insertCells (held : Held 80 d) {rounds ptr : Nat}
    (above : d.con.pos ≤ ptr + 2) (below : ptr + 2 ≤ 3221995456)
    (enough : ptr + 2 < d.con.pos + 2 * rounds) :
    ∃ after, Display.insertCells rounds ptr d = .ok after ∧ Held 80 after := by
  have pos := held.pos
  have bounds := held.bounds
  induction rounds generalizing d ptr with
  | zero => omega
  | succ rounds inductionHypothesis =>
      rw [Display.insertCells]
      by_cases more : d.con.pos < ptr
      · have cell : sub32 ptr 2 = ptr - 2 := sub32_eq (by omega)
        rw [if_pos more, cell]
        have moved : Held 80 (d.putHalf ptr (d.memory.half (ptr - 2))) :=
          held.put _ (by omega) below
        have same : (d.putHalf ptr (d.memory.half (ptr - 2))).con = d.con := rfl
        exact inductionHypothesis moved (by rw [same]; omega) (by omega) (by rw [same]; omega)
          moved.pos moved.bounds
      · rw [if_neg more]
        exact ⟨_, rfl, held.put _ (by omega) (by omega)⟩

theorem Held.insertChar (held : Held 80 d) :
    ∃ after, d.insertChar = .ok after ∧ Held 80 after := by
  have pos := held.pos
  have x := held.x
  have y := held.y
  have bounds := held.bounds
  have last : add32 d.con.pos (2 * sub32 (sub32 80 d.con.x) 1 % 2 ^ 32) + 2 * d.con.x =
      d.con.pos + 158 := by
    rw [sub32_eq x]
    unfold add32 sub32
    split <;> omega
  unfold Display.insertChar
  rw [width_eq, memSize_eq]
  exact held.insertCells (by omega) (by omega) (by omega)

theorem Held.csiStyle (held : Held 80 d) : Held 80 d.csiStyle :=
  ⟨held.pos, held.x, held.y, held.screen, held.stores⟩

/-- Every control sequence returns. -/
theorem Held.csi (held : Held 80 d) (ch : UInt8) :
    ∃ after, d.csi ch = .ok after ∧ Held 80 after := by
  unfold Display.csi
  split
  all_goals try exact ⟨_, rfl, held.setXY _ _⟩
  · exact ⟨_, rfl, held.csiJ⟩
  · exact ⟨_, rfl, held.csiK⟩
  · exact held.repeated fun _ => insertLine
  · exact held.repeated fun _ => deleteLine
  · exact held.repeated fun _ => deleteChar
  · exact held.repeated fun _ => insertChar
  · exact ⟨_, rfl, held.csiStyle⟩
  · exact ⟨_, rfl, held.saveCursor.restoreCursor⟩
  · exact ⟨_, rfl, held⟩

/-! ## Runs -/

theorem Held.stateCsi (held : Held 80 d) (ch : UInt8) :
    ∃ after, d.stateCsi ch = .ok after ∧ Held 80 after := by
  have normal : Held 80 { d with con.state := .nor } :=
    ⟨held.pos, held.x, held.y, held.screen, held.stores⟩
  exact normal.csi ch

theorem Held.clearArgs (held : Held 80 d) : Held 80 d.clearArgs :=
  ⟨held.pos, held.x, held.y, held.screen, held.stores⟩

theorem Held.argument (held : Held 80 d) (ch : UInt8) :
    ∃ after, d.argument ch = .ok after ∧ Held 80 after := by
  have read := held.stateArg ch
  unfold Display.argument
  cases result : d.stateArg ch with
  | mk complete next =>
      rw [result] at read
      cases complete with
      | false => exact ⟨_, rfl, read⟩
      | true => exact read.stateCsi ch

/-- A byte leaves the display in order. -/
theorem Held.writeByte (held : Held 80 d) (ch : UInt8) :
    ∃ after, d.writeByte ch = .ok after ∧ Held 80 after := by
  unfold Display.writeByte
  cases d.con.state with
  | nor => exact ⟨_, rfl, held.stateNormal ch⟩
  | esc => exact ⟨_, rfl, held.stateEsc ch⟩
  | que =>
      dsimp only
      split
      · exact ⟨_, rfl, held.clearArgs⟩
      · exact held.clearArgs.argument ch
  | arg => exact held.argument ch
  | csi => exact held.stateCsi ch

/-- A write returns, and leaves the display in order. -/
theorem Held.consoleWrite (held : Held 80 d) (buf : List UInt8) :
    ∃ after, d.consoleWrite buf = .ok after ∧ Held 80 after := by
  unfold Display.consoleWrite
  induction buf generalizing d with
  | nil => exact ⟨d, rfl, held⟩
  | cons ch buf inductionHypothesis =>
      obtain ⟨middle, wrote, heldMiddle⟩ := held.writeByte ch
      rw [List.foldlM_cons, wrote, ok_bind]
      exact inductionHypothesis heldMiddle

theorem held_consoleInit (memory : Memory) : Held 80 (consoleInit memory) := by
  unfold consoleInit consoleClear
  rw [memBase_eq, memSize_eq]
  refine Held.eraseScreen ?_ (Nat.le_refl _) (by omega)
  refine ⟨rfl, Nat.zero_le _, Nat.succ_pos 24, ⟨0, rfl, Nat.zero_le _⟩, ?_⟩
  intro store made
  cases made

theorem held_of_reachable (reached : runs.Reachable d) : Held 80 d := by
  refine reached.invariant (Held 80) ?_ ?_
  · intro d isStart
    obtain ⟨memory, isInit⟩ := isStart
    rw [isInit]
    exact held_consoleInit memory
  · intro before buf after held _ taken
    obtain ⟨_, wrote, heldAfter⟩ := held.consoleWrite buf
    cases wrote.symm.trans taken
    exact heldAfter

/-- In every state that writes can reach, the cursor and the screen are in order, no handler
has stored outside the memory of the display, and the next write returns. -/
theorem inBounds_of_reachable (reached : runs.Reachable d) :
    d.Sound ∧ ∀ buf, ∃ after, d.consoleWrite buf = .ok after :=
  ⟨(held_of_reachable reached).sound, fun buf =>
    ((held_of_reachable reached).consoleWrite buf).imp fun _ => And.left⟩

/-- After the start, a clear screen and one more line. -/
theorem inBounds_of_reachable_start :
    ∃ d, (consoleInit ⟨fun _ => 0⟩).consoleWrite [0x1B, 0x5B, 0x32, 0x4A, 0x0A] = .ok d ∧
      d.Sound ∧ ∀ buf, ∃ after, d.consoleWrite buf = .ok after := by
  obtain ⟨d, wrote, _⟩ :=
    (held_consoleInit ⟨fun _ => 0⟩).consoleWrite [0x1B, 0x5B, 0x32, 0x4A, 0x0A]
  exact ⟨d, wrote, inBounds_of_reachable (.step (.initial ⟨_, rfl⟩) trivial wrote)⟩

end Display

end LightOS
