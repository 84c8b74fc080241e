import LightOS.Console.Bounds

/-!
# Where escape sequences end

A grammar of escape sequences, read one byte at a time, and the states of the driver beside
it.  The driver stays in `STATE_ESC` after any command but `ESC [`, and in `STATE_ARG` for
ever once a sequence has as many parameters as there is room for.  As long as the stream
completes no such sequence, the driver is in `STATE_NOR` whenever the grammar is outside a
sequence.
-/

namespace LightOS

namespace Console

/-- Where a stream is in the grammar of escape sequences.  Parameters are counted by the
semicolons between them. -/
inductive Phase
  | outside
  | escape
  | bracket
  | parameters (semicolons : Nat)
  | final
  deriving DecidableEq

namespace Phase

/-- A byte between the parameters of a sequence. -/
def readParameter (semicolons : Nat) (ch : UInt8) : Phase :=
  if ch = 0x3B then .parameters (semicolons + 1)
  else if 0x30 ≤ ch ∧ ch ≤ 0x39 then .parameters semicolons
  else .outside

/-- A byte of a stream. -/
def read : Phase → UInt8 → Phase
  | .outside, ch => if ch = 0x1B then .escape else .outside
  | .escape, ch => if ch = 0x5B then .bracket else .outside
  | .bracket, ch => if ch = 0x3F then .parameters 0 else readParameter 0 ch
  | .parameters semicolons, ch => readParameter semicolons ch
  | .final, _ => .outside

/-- Where a stream is after some bytes. -/
def after (phase : Phase) (buf : List UInt8) : Phase :=
  buf.foldl read phase

/-- The byte completes a sequence whose end the driver does not see: one without `[`, or one
with more parameters than there is room for. -/
def Misses : Phase → UInt8 → Prop
  | .escape, ch => ch ≠ 0x5B
  | .parameters semicolons, ch => argNr ≤ semicolons ∧ readParameter semicolons ch = .outside
  | _, _ => False

/-- A stream completes no sequence whose end the driver does not see. -/
def Tame : Phase → List UInt8 → Prop
  | _, [] => True
  | phase, ch :: rest => ¬phase.Misses ch ∧ (phase.read ch).Tame rest

instance : (phase : Phase) → (ch : UInt8) → Decidable (phase.Misses ch)
  | .outside, _ => .isFalse id
  | .escape, ch => inferInstanceAs (Decidable (ch ≠ 0x5B))
  | .bracket, _ => .isFalse id
  | .parameters semicolons, ch =>
      inferInstanceAs (Decidable (argNr ≤ semicolons ∧ readParameter semicolons ch = .outside))
  | .final, _ => .isFalse id

instance decideTame : (phase : Phase) → (buf : List UInt8) → Decidable (phase.Tame buf)
  | _, [] => .isTrue trivial
  | phase, ch :: rest =>
      have := decideTame (phase.read ch) rest
      inferInstanceAs (Decidable (¬phase.Misses ch ∧ (phase.read ch).Tame rest))

/-- Where a stream goes on that finds the driver in a state. -/
def ofConsole (con : Console) : Phase :=
  match con.state with
  | .nor => .outside
  | .esc => .escape
  | .que => .bracket
  | .arg => .parameters con.argc
  | .csi => .final

/-- The driver is where the stream is.  It does not count more parameters than there is room
for. -/
def Follows (con : Console) : Phase → Prop
  | .outside => con.state = .nor
  | .escape => con.state = .esc
  | .bracket => con.state = .que
  | .parameters semicolons =>
      con.state = .arg ∧ (con.argc = semicolons ∨ argNr ≤ con.argc ∧ argNr ≤ semicolons)
  | .final => con.state = .csi

theorem follows_ofConsole (con : Console) : (ofConsole con).Follows con := by
  unfold ofConsole
  cases isState : con.state with
  | arg => exact ⟨isState, .inl rfl⟩
  | nor | esc | que | csi => exact isState

end Phase
end Console

namespace Display

open Console

/-- A byte that is shown as a character. -/
def Printable (ch : UInt8) : Prop :=
  0x20 ≤ ch ∧ ch ≠ 0x7F

/-- The driver returns.  Whenever a stream that goes on from somewhere in the grammar is outside
a sequence, the driver is in `STATE_NOR` and shows a printable byte. -/
def EndsSequences (phase : Phase) (d : Display) (buf : List UInt8) : Prop :=
  ∀ front, front <+: buf → ∃ after, d.consoleWrite front = .ok after ∧
    (phase.after front = .outside →
      after.con.state = .nor ∧ ∀ ch, Printable ch → after.writeByte ch = .ok (after.chr ch))

variable {d after : Display}

/-! ## What leaves the state alone -/

theorem setXY_state (d : Display) (x y : Nat) : (d.setXY x y).con.state = d.con.state := by
  unfold setXY
  split <;> rfl

theorem scrollUp_state (d : Display) : d.scrollUp.con.state = d.con.state := by
  unfold scrollUp advanceScreen rewindScreen
  simp only [eraseScreen_con]
  split <;> rfl

theorem lf_state (d : Display) : d.lf.con.state = d.con.state := by
  unfold lf
  split
  · rfl
  · exact scrollUp_state d

theorem wrapLine_state (d : Display) : d.wrapLine.con.state = d.con.state := by
  unfold wrapLine
  split
  · exact lf_state _
  · rfl

theorem bs_state (d : Display) : d.bs.con.state = d.con.state := by
  unfold bs
  split <;> rfl

theorem chr_state (d : Display) (ch : UInt8) : (d.chr ch).con.state = d.con.state :=
  wrapLine_state d

/-- A character changes the state only when it begins a sequence. -/
theorem stateNormal_state (d : Display) (ch : UInt8) :
    (d.stateNormal ch).con.state = if ch = 0x1B then .esc else d.con.state := by
  unfold stateNormal
  split
  case h_10 => rfl
  case h_11 isNot => exact (chr_state d _).trans (if_neg (by assumption)).symm
  all_goals rw [if_neg (by decide)]
  · exact bs_state d
  · exact wrapLine_state _
  · exact lf_state d
  · exact lf_state d
  · exact lf_state d
  · rfl
  · rfl

/-- A printable byte is shown. -/
theorem stateNormal_printable (d : Display) {ch : UInt8} (printable : Printable ch) :
    d.stateNormal ch = d.chr ch := by
  unfold stateNormal
  obtain ⟨least, notDel⟩ := printable
  split
  case h_11 => rfl
  all_goals first | exact absurd least (by decide) | exact absurd rfl notDel

/-- The byte of a bracket. -/
theorem bracket_iff (ch : UInt8) : Char.ofNat ch.toNat = '[' ↔ ch = 0x5B := by
  constructor
  · intro isBracket
    have valid : ch.toNat.isValidChar := .inl (Nat.lt_trans ch.toNat_lt (by decide))
    have code : (Char.ofNat ch.toNat).toNat = ch.toNat := by
      unfold Char.ofNat
      rw [dif_pos valid]
      rfl
    rw [isBracket] at code
    exact UInt8.toNat_inj.mp code.symm
  · rintro rfl
    rfl

/-- A command after `ESC` changes the state only when it is `[`. -/
theorem stateEsc_state (d : Display) (ch : UInt8) :
    (d.stateEsc ch).con.state = if ch = 0x5B then .que else d.con.state := by
  simp only [← bracket_iff ch]
  unfold stateEsc
  split
  · rw [if_pos (by assumption)]
  all_goals rw [if_neg (by simp_all)]
  · exact lf_state d
  · exact lf_state d
  · rfl
  · exact setXY_state d _ _

/-- What a round leaves alone, a repetition does. -/
theorem repeated_state {round : Display → Except Fault Display}
    (keeps : ∀ d after, round d = .ok after → after.con.state = d.con.state)
    (ran : d.repeated round = .ok after) : after.con.state = d.con.state :=
  foldlM_invariant (fun middle => middle.con.state = d.con.state)
    (fun before _ next _ same stepped => (keeps before next stepped).trans same) rfl ran

theorem insertRows_con {start rounds i : Nat} (ran : insertRows start rounds i d = .ok after) :
    after.con = d.con := by
  induction rounds generalizing i d with
  | zero => cases ran
  | succ rounds inductionHypothesis =>
      simp only [insertRows] at ran
      split at ran
      · cases ran
        rfl
      · have same := inductionHypothesis ran
        exact same

theorem deleteRows_con {start rounds i : Nat} (ran : deleteRows start rounds i d = .ok after) :
    after.con = d.con := by
  induction rounds generalizing i d with
  | zero => cases ran
  | succ rounds inductionHypothesis =>
      simp only [deleteRows] at ran
      split at ran
      · cases ran
        rfl
      · have same := inductionHypothesis ran
        exact same

theorem deleteCells_con {rounds i ptr : Nat} (ran : deleteCells rounds i ptr d = .ok after) :
    after.con = d.con := by
  induction rounds generalizing i ptr d with
  | zero => cases ran
  | succ rounds inductionHypothesis =>
      simp only [deleteCells] at ran
      split at ran
      · have same := inductionHypothesis ran
        exact same
      · cases ran
        rfl

theorem insertCells_con {rounds ptr : Nat} (ran : insertCells rounds ptr d = .ok after) :
    after.con = d.con := by
  induction rounds generalizing ptr d with
  | zero => cases ran
  | succ rounds inductionHypothesis =>
      simp only [insertCells] at ran
      split at ran
      · have same := inductionHypothesis ran
        exact same
      · cases ran
        rfl

theorem insertLine_state (ran : d.insertLine = .ok after) : after.con.state = d.con.state := by
  simp only [insertLine, bind_eq_ok] at ran
  obtain ⟨moved, isMoved, result⟩ := ran
  cases result
  rw [eraseScreen_con, insertRows_con isMoved]

theorem deleteLine_state (ran : d.deleteLine = .ok after) : after.con.state = d.con.state := by
  simp only [deleteLine, bind_eq_ok] at ran
  obtain ⟨moved, isMoved, result⟩ := ran
  cases result
  rw [eraseScreen_con, deleteRows_con isMoved]

theorem csiJ_state (d : Display) : d.csiJ.con.state = d.con.state := by
  unfold csiJ
  split <;> simp only [eraseScreen_con]

theorem csiK_state (d : Display) : d.csiK.con.state = d.con.state := by
  unfold csiK
  split <;> simp only [eraseScreen_con]

/-- No control sequence changes the state. -/
theorem csi_state {ch : UInt8} (ran : d.csi ch = .ok after) : after.con.state = d.con.state := by
  unfold csi at ran
  split at ran
  all_goals try exact Except.ok.inj ran ▸ setXY_state _ _ _
  · exact Except.ok.inj ran ▸ csiJ_state d
  · exact Except.ok.inj ran ▸ csiK_state d
  · exact repeated_state (fun _ _ => insertLine_state) ran
  · exact repeated_state (fun _ _ => deleteLine_state) ran
  · exact repeated_state (fun _ _ ran => congrArg _ (deleteCells_con ran)) ran
  · exact repeated_state (fun _ _ ran => congrArg _ (insertCells_con ran)) ran
  · cases ran
    rfl
  · cases ran
    rfl

/-! ## One byte -/

theorem stateCsi_state {ch : UInt8} (ran : d.stateCsi ch = .ok after) :
    after.con.state = .nor :=
  csi_state ran

/-- With as many parameters as there is room for, the driver takes no more bytes. -/
theorem argument_full (ch : UInt8) (full : argNr ≤ d.con.argc) : d.argument ch = .ok d := by
  rw [argument, stateArg, if_pos full]

/-- A byte between the parameters of a sequence. -/
theorem argument_follows {semicolons : Nat} {ch : UInt8}
    (follows : (Phase.parameters semicolons).Follows d.con)
    (seen : ¬(Phase.parameters semicolons).Misses ch) (ran : d.argument ch = .ok after) :
    (Phase.readParameter semicolons ch).Follows after.con := by
  obtain ⟨isArg, counted⟩ := follows
  by_cases full : argNr ≤ d.con.argc
  · rw [argument_full ch full] at ran
    cases ran
    have many : argNr ≤ semicolons := by omega
    have more : argNr ≤ semicolons + 1 := Nat.le_succ_of_le many
    have goesOn : Phase.readParameter semicolons ch ≠ .outside := fun ends => seen ⟨many, ends⟩
    unfold Phase.readParameter at goesOn ⊢
    by_cases semicolon : ch = 0x3B
    · rw [if_pos semicolon]
      exact ⟨isArg, .inr ⟨full, more⟩⟩
    · rw [if_neg semicolon] at goesOn ⊢
      by_cases digit : 0x30 ≤ ch ∧ ch ≤ 0x39
      · rw [if_pos digit]
        exact ⟨isArg, .inr ⟨full, many⟩⟩
      · exact absurd (if_neg digit) goesOn
  · have same : d.con.argc = semicolons := by omega
    rw [argument, stateArg, if_neg full] at ran
    unfold Phase.readParameter
    by_cases semicolon : ch = 0x3B
    · rw [if_pos semicolon] at ran ⊢
      cases ran
      exact ⟨isArg, .inl (congrArg (· + 1) same)⟩
    · rw [if_neg semicolon] at ran ⊢
      by_cases digit : 0x30 ≤ ch ∧ ch ≤ 0x39
      · rw [if_pos digit] at ran ⊢
        cases ran
        exact ⟨isArg, .inl same⟩
      · rw [if_neg digit] at ran ⊢
        exact stateCsi_state ran

/-- The driver follows the stream, unless it misses the end of a sequence. -/
theorem writeByte_follows {phase : Phase} {ch : UInt8} (follows : phase.Follows d.con)
    (seen : ¬phase.Misses ch) (ran : d.writeByte ch = .ok after) :
    (phase.read ch).Follows after.con := by
  unfold writeByte at ran
  cases phase with
  | outside =>
      rw [show d.con.state = .nor from follows] at ran
      cases ran
      have state := stateNormal_state d ch
      rw [Phase.read]
      by_cases escape : ch = 0x1B
      · rw [if_pos escape] at state ⊢
        exact state
      · rw [if_neg escape] at state ⊢
        exact state.trans follows
  | escape =>
      have isBracket : ch = 0x5B := not_not.mp seen
      rw [show d.con.state = .esc from follows] at ran
      cases ran
      have state := stateEsc_state d ch
      rw [if_pos isBracket] at state
      rw [Phase.read, if_pos isBracket]
      exact state
  | bracket =>
      rw [show d.con.state = .que from follows] at ran
      dsimp only at ran
      rw [Phase.read]
      have cleared : (Phase.parameters 0).Follows d.clearArgs.con := ⟨rfl, .inl rfl⟩
      by_cases question : ch = 0x3F
      · rw [if_pos question] at ran ⊢
        cases ran
        exact cleared
      · rw [if_neg question] at ran ⊢
        exact argument_follows cleared (fun missed => absurd missed.1 (by decide)) ran
  | parameters semicolons =>
      rw [show d.con.state = .arg from follows.1] at ran
      exact argument_follows follows seen ran
  | final =>
      rw [show d.con.state = .csi from follows] at ran
      exact stateCsi_state ran

/-- A driver that misses the end of a sequence is not in `STATE_NOR` behind it. -/
theorem writeByte_misses {phase : Phase} {ch : UInt8} (follows : phase.Follows d.con)
    (missed : phase.Misses ch) (ran : d.writeByte ch = .ok after) :
    phase.read ch = .outside ∧ after.con.state ≠ .nor := by
  unfold writeByte at ran
  cases phase with
  | outside => exact missed.elim
  | escape =>
      have noBracket : ch ≠ 0x5B := missed
      rw [show d.con.state = .esc from follows] at ran
      cases ran
      rw [stateEsc_state, if_neg noBracket, show d.con.state = .esc from follows]
      exact ⟨if_neg noBracket, by decide⟩
  | bracket => exact missed.elim
  | parameters semicolons =>
      obtain ⟨isArg, counted⟩ := follows
      obtain ⟨full, ends⟩ := missed
      rw [isArg] at ran
      have stays := (argument_full ch (by omega)).symm.trans ran
      cases stays
      rw [isArg]
      exact ⟨ends, by decide⟩
  | final => exact missed.elim

/-! ## Streams -/

/-- With as many parameters as there is room for, the driver takes no more bytes, ever. -/
theorem consoleWrite_full (isArg : d.con.state = .arg) (full : argNr ≤ d.con.argc)
    (buf : List UInt8) : d.consoleWrite buf = .ok d := by
  unfold consoleWrite
  induction buf with
  | nil => rfl
  | cons ch buf inductionHypothesis =>
      have stays : d.writeByte ch = .ok d := by
        rw [writeByte, isArg]
        exact argument_full _ full
      rw [List.foldlM_cons, stays, ok_bind]
      exact inductionHypothesis

/-- Outside a sequence the driver shows a printable byte. -/
theorem writeByte_printable (normal : d.con.state = .nor) {ch : UInt8}
    (printable : Printable ch) : d.writeByte ch = .ok (d.chr ch) := by
  rw [writeByte, normal, stateNormal_printable d printable]

/-- Before the first byte the driver is where the stream is. -/
theorem endsSequences_nil {phase : Phase} (follows : phase.Follows d.con) :
    EndsSequences phase d [] := by
  intro front isPrefix
  obtain rfl := List.prefix_nil.mp isPrefix
  refine ⟨d, rfl, fun outside => ?_⟩
  have normal : d.con.state = .nor := by
    rw [show phase = .outside from outside] at follows
    exact follows
  exact ⟨normal, fun _ => writeByte_printable normal⟩

/-- The first byte of a stream that the driver follows. -/
theorem endsSequences_cons {phase : Phase} {middle : Display} {ch : UInt8} {buf : List UInt8}
    (follows : phase.Follows d.con) (wrote : d.writeByte ch = .ok middle) :
    EndsSequences phase d (ch :: buf) ↔ EndsSequences (phase.read ch) middle buf := by
  have later (front : List UInt8) : d.consoleWrite (ch :: front) = middle.consoleWrite front := by
    rw [consoleWrite, List.foldlM_cons, wrote, ok_bind, consoleWrite]
  constructor
  · intro ends front isPrefix
    rw [← later]
    exact ends (ch :: front) (List.cons_prefix_cons.mpr ⟨rfl, isPrefix⟩)
  · intro ends front isPrefix
    cases front with
    | nil => exact endsSequences_nil follows [] List.nil_prefix
    | cons first front =>
        obtain ⟨rfl, shorter⟩ := List.cons_prefix_cons.mp isPrefix
        rw [later]
        exact ends front shorter

/-- A driver that is where the stream is stays in step with it exactly when the stream
completes no sequence whose end the driver does not see. -/
theorem endsSequences_iff {phase : Phase} (held : Held 80 d) (follows : phase.Follows d.con)
    (buf : List UInt8) : EndsSequences phase d buf ↔ phase.Tame buf := by
  induction buf generalizing d phase with
  | nil => exact iff_of_true (endsSequences_nil follows) trivial
  | cons ch buf inductionHypothesis =>
      obtain ⟨middle, wrote, heldMiddle⟩ := held.writeByte ch
      rw [endsSequences_cons follows wrote]
      by_cases missed : phase.Misses ch
      · obtain ⟨outside, notNormal⟩ := writeByte_misses follows missed wrote
        refine iff_of_false (fun ends => ?_) fun tame => tame.1 missed
        obtain ⟨after, ran, normal⟩ := ends [] List.nil_prefix
        cases ran
        exact notNormal (normal outside).1
      · rw [inductionHypothesis heldMiddle (writeByte_follows follows missed wrote)]
        exact (and_iff_right missed).symm

/-- From every state of the driver on a display in order, whatever is written: whenever the
stream is outside a sequence, the driver is in `STATE_NOR` and shows printable bytes, exactly
as long as the stream completes no sequence without `[`, and none with too many parameters. -/
theorem endsSequences_iff_tame (held : Held 80 d) (buf : List UInt8) :
    EndsSequences (Phase.ofConsole d.con) d buf ↔ (Phase.ofConsole d.con).Tame buf :=
  endsSequences_iff held (Phase.follows_ofConsole d.con) buf

/-- At its start the driver is outside a sequence. -/
theorem ofConsole_consoleInit (memory : Memory) :
    Phase.ofConsole (consoleInit memory).con = .outside := by
  unfold consoleInit consoleClear
  rw [eraseScreen_con]
  rfl

/-- A clear screen and a letter. -/
theorem endsSequences_iff_tame_clear :
    EndsSequences (Phase.ofConsole (consoleInit ⟨fun _ => 0⟩).con) (consoleInit ⟨fun _ => 0⟩)
      [0x1B, 0x5B, 0x32, 0x4A, 0x41] := by
  refine (endsSequences_iff_tame (held_consoleInit _) _).mpr ?_
  rw [ofConsole_consoleInit]
  decide

/-- The driver does not leave `STATE_ESC` behind the command that saves the cursor. -/
theorem endsSequences_fails :
    ¬∀ d, runs.Reachable d → ∀ buf, EndsSequences (Phase.ofConsole d.con) d buf := by
  intro always
  have ends := always (consoleInit ⟨fun _ => 0⟩) (.initial ⟨_, rfl⟩) [0x1B, 0x37]
  rw [endsSequences_iff (held_consoleInit _) (Phase.follows_ofConsole _),
    ofConsole_consoleInit] at ends
  exact absurd ends (by decide)

end Display
end LightOS
