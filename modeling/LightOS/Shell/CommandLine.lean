import LightOS.Foundation.ByteStrings
import LightOS.Foundation.Components
import LightOS.Kernel.Fault

/-!
# The command line of the shell

`readline` and `cmd_parse` of the shell, with the arrays `cmd` and `argv` that `main` hands to
them.  A pointer into `cmd` is an index.  Both functions store through pointers that they do
not check, so the indexes of all stores are noted.
-/

namespace LightOS

variable {line : List UInt8} {reads : List (Option UInt8)}

/-- `MAX_CMD_LEN`. -/
abbrev maxCmdLen : Nat := 256

/-- `MAX_ARG_NR`. -/
abbrev maxArgNr : Nat := 16

/-- The arrays `cmd` and `argv` and what lies behind them, the indexes that were stored to, and
what was written to the terminal, the last first. -/
structure Shell where
  cmd : Memory
  argv : Nat → Option Nat
  cmdStores : List Nat
  argvStores : List Nat
  output : List UInt8

namespace Shell

/-- A store to `cmd`. -/
def store (s : Shell) (index : Nat) (byte : UInt8) : Shell :=
  { s with
    cmd := s.cmd.store index 1 fun _ => byte
    cmdStores := index :: s.cmdStores }

/-- A store to `argv`. -/
def storeArg (s : Shell) (index : Nat) (pointer : Option Nat) : Shell :=
  { s with
    argv := Function.update s.argv index pointer
    argvStores := index :: s.argvStores }

/-- `write` of one byte to `STDOUT_FILENO`. -/
def write (s : Shell) (byte : UInt8) : Shell :=
  { s with output := byte :: s.output }

/-- The loop of `readline`, over what `read` returns: a byte, or nothing when it returns -1.
The result says whether `readline` returns.  It waits when there is no more to read. -/
def readLoop (count : Nat) : List (Option UInt8) → (idx : Nat) → Shell → Bool × Shell
  | [], idx, s => if idx < count then (false, s) else (true, s.store idx 0)
  | ret :: rest, idx, s =>
      if idx < count then
        match ret with
        | none => (true, s.store idx 0)
        | some byte =>
            let s := s.store idx byte
            if byte = 0x0A ∨ byte = 0x0D then
              (true, (s.store idx 0).write 0x0A)
            else if byte = 0x08 then
              if 0 < idx then readLoop count rest (idx - 1) (s.write 0x08)
              else readLoop count rest idx s
            else if byte = 0x09 then
              readLoop count rest idx s
            else
              readLoop count rest (idx + 1) (s.write byte)
      else
        (true, s.store idx 0)

/-- `readline`. -/
def readline (s : Shell) (count : Nat) (reads : List (Option UInt8)) : Bool × Shell :=
  readLoop count reads 0 s

/-- Move a pointer over the bytes that pass a test. -/
def advance (test : UInt8 → Bool) (cmd : Memory) : Nat → Nat → Except Fault Nat
  | 0, _ => .error .blocked
  | rounds + 1, next => if test (cmd next) then advance test cmd rounds (next + 1) else .ok next

/-- The byte between words. -/
abbrev isToken (token byte : UInt8) : Bool :=
  byte = token

/-- The loop of `cmd_parse`.  Every round finds a word or is the last one. -/
def parseLoop (token : UInt8) : Nat → (next argc : Nat) → Shell → Except Fault (Nat × Shell)
  | 0, _, _, _ => .error .blocked
  | rounds + 1, next, argc, s =>
      if s.cmd next ≠ 0 ∧ argc < maxArgNr then do
        let next ← advance (isToken token) s.cmd (2 ^ 32) next
        if s.cmd next = 0 then
          return (argc, s)
        else
          let s := s.storeArg argc (some next)
          let next ← advance (fun byte => byte ≠ 0 ∧ byte ≠ token) s.cmd (2 ^ 32) next
          if s.cmd next ≠ 0 then
            parseLoop token rounds (next + 1) (argc + 1) (s.store next 0)
          else
            parseLoop token rounds next (argc + 1) s
      else
        return (argc, s)

/-- `cmd_parse`. -/
def cmdParse (s : Shell) (token : UInt8) : Except Fault (Nat × Shell) := do
  let (argc, s) ← parseLoop token (maxArgNr + 1) 0 0 s
  return (argc, s.storeArg argc none)

/-! ## Editing -/

/-- A character typed at the end of a line. -/
def edit (line : List UInt8) (byte : UInt8) : List UInt8 :=
  if byte = 0x08 then line.dropLast else if byte = 0x09 then line else line ++ [byte]

/-- The edited line, when the input ends one. -/
def edited : List UInt8 → List (Option UInt8) → Option (List UInt8)
  | _, [] => none
  | line, none :: _ => some line
  | line, some byte :: rest =>
      if byte = 0x0A ∨ byte = 0x0D then some line else edited (edit line byte) rest

/-- The line never fills the array while it is edited. -/
def Fits : List UInt8 → List (Option UInt8) → Prop
  | line, [] => line.length < maxCmdLen
  | line, none :: _ => line.length < maxCmdLen
  | line, some byte :: rest =>
      line.length < maxCmdLen ∧ (byte = 0x0A ∨ byte = 0x0D ∨ Fits (edit line byte) rest)

instance decideFits : (line : List UInt8) → (reads : List (Option UInt8)) →
    Decidable (Fits line reads)
  | line, [] => inferInstanceAs (Decidable (line.length < maxCmdLen))
  | line, none :: _ => inferInstanceAs (Decidable (line.length < maxCmdLen))
  | line, some byte :: rest =>
      have := decideFits (edit line byte) rest
      inferInstanceAs (Decidable (line.length < maxCmdLen ∧
        (byte = 0x0A ∨ byte = 0x0D ∨ Fits (edit line byte) rest)))

theorem Fits.here (fits : Fits line reads) : line.length < maxCmdLen := by
  cases reads with
  | nil => exact fits
  | cons ret rest =>
      cases ret with
      | none => exact fits
      | some byte => exact fits.1

/-- Every store was to an element of the arrays. -/
structure Inside (s : Shell) : Prop where
  cmd : ∀ index ∈ s.cmdStores, index < maxCmdLen
  argv : ∀ index ∈ s.argvStores, index < maxArgNr

variable {s : Shell}

theorem Inside.store (inside : s.Inside) {index : Nat} (isIndex : index < maxCmdLen)
    (byte : UInt8) : (s.store index byte).Inside := by
  refine ⟨fun other stored => ?_, inside.argv⟩
  rcases List.mem_cons.mp stored with rfl | before
  · exact isIndex
  · exact inside.cmd other before

theorem Inside.output (inside : s.Inside) (output : List UInt8) :
    Inside { s with output := output } :=
  ⟨inside.cmd, inside.argv⟩

theorem Inside.storeArg (inside : s.Inside) {index : Nat} (isIndex : index < maxArgNr)
    (pointer : Option Nat) : (s.storeArg index pointer).Inside := by
  refine ⟨inside.cmd, fun other stored => ?_⟩
  rcases List.mem_cons.mp stored with rfl | before
  · exact isIndex
  · exact inside.argv other before

/-- A byte stored behind a line belongs to it. -/
theorem holds_store (holds : s.cmd.Holds 0 line) (byte : UInt8) :
    (s.store line.length byte).cmd.Holds 0 (line ++ [byte]) := by
  rw [Memory.holds_append]
  constructor
  · have apart : Memory.AgreeOn (s.store line.length byte).cmd s.cmd 0 line.length :=
      Memory.agreeOn_store (fun _ => byte) (by omega)
    exact holds.congr apart
  · intro index inside
    rw [List.length_singleton] at inside
    have stored : (s.store line.length byte).cmd (0 + line.length + index) = byte :=
      Memory.store_inside (fun _ => byte) (by omega) (by omega)
    simpa using stored

/-- After a character is stored behind a line, the array holds the edited line. -/
theorem holds_edit (holds : s.cmd.Holds 0 line) (byte : UInt8) :
    (s.store line.length byte).cmd.Holds 0 (edit line byte) := by
  have added := holds_store holds byte
  have kept := (Memory.holds_append.mp added).1
  unfold edit
  by_cases backspace : byte = 0x08
  · rw [if_pos backspace]
    intro index inside
    rw [List.getElem_dropLast]
    exact kept index _
  rw [if_neg backspace]
  by_cases isTab : byte = 0x09
  · rw [if_pos isTab]
    exact kept
  · rw [if_neg isTab]
    exact added

/-- A character that does not end the line is stored behind it, and the loop goes on with the
edited line. -/
theorem readLoop_edit {byte : UInt8} (rest : List (Option UInt8)) (here : line.length < maxCmdLen)
    (goesOn : ¬(byte = 0x0A ∨ byte = 0x0D)) :
    ∃ output, readLoop maxCmdLen (some byte :: rest) line.length s =
      readLoop maxCmdLen rest (edit line byte).length
        { s.store line.length byte with output := output } := by
  rw [readLoop, if_pos here]
  dsimp only
  rw [if_neg goesOn]
  unfold edit
  by_cases backspace : byte = 0x08
  · rw [if_pos backspace, if_pos backspace, List.length_dropLast]
    by_cases positive : 0 < line.length
    · rw [if_pos positive]
      exact ⟨_, rfl⟩
    · have none : line.length - 1 = line.length := by omega
      rw [if_neg positive, none]
      exact ⟨_, rfl⟩
  rw [if_neg backspace, if_neg backspace]
  by_cases isTab : byte = 0x09
  · rw [if_pos isTab, if_pos isTab]
    exact ⟨_, rfl⟩
  · rw [if_neg isTab, if_neg isTab, List.length_append, List.length_singleton]
    exact ⟨_, rfl⟩

/-- As long as the line fits, `readline` stores inside the array, and it leaves the edited
line there with its terminator. -/
theorem readLoop_spec (fits : Fits line reads) (inside : s.Inside) (holds : s.cmd.Holds 0 line) :
    (readLoop maxCmdLen reads line.length s).2.Inside ∧
      (readLoop maxCmdLen reads line.length s).1 = (edited line reads).isSome ∧
      ∀ final, edited line reads = some final → final.length < maxCmdLen ∧
        (readLoop maxCmdLen reads line.length s).2.cmd.Holds 0 (final ++ [0]) := by
  induction reads generalizing line s with
  | nil =>
      rw [readLoop, if_pos fits.here]
      exact ⟨inside, rfl, nofun⟩
  | cons ret rest inductionHypothesis =>
      have here := fits.here
      cases ret with
      | none =>
          rw [readLoop, if_pos here]
          refine ⟨inside.store here 0, rfl, fun final isFinal => ?_⟩
          cases isFinal
          exact ⟨here, holds_store holds 0⟩
      | some byte =>
          have stored := inside.store here byte
          rw [edited]
          by_cases ends : byte = 0x0A ∨ byte = 0x0D
          · rw [readLoop, if_pos here, if_pos ends, if_pos ends]
            refine ⟨(stored.store here 0).output _, rfl, fun final isFinal => ?_⟩
            cases isFinal
            exact ⟨here, holds_store (Memory.holds_append.mp (holds_store holds byte)).1 0⟩
          · obtain ⟨output, goesOn⟩ := readLoop_edit (s := s) rest here ends
            have fitsRest : Fits (edit line byte) rest := by
              rcases fits.2 with isNewline | isReturn | fitsRest
              · exact absurd (.inl isNewline) ends
              · exact absurd (.inr isReturn) ends
              · exact fitsRest
            rw [if_neg ends, goesOn]
            exact inductionHypothesis fitsRest (stored.output output) (holds_edit holds byte)

/-- With a full line the loop ends, and the terminator is stored behind the array. -/
theorem readLoop_full {idx : Nat} (full : ¬idx < maxCmdLen) :
    ¬(readLoop maxCmdLen reads idx s).2.Inside := by
  intro inside
  have stored : idx ∈ (readLoop maxCmdLen reads idx s).2.cmdStores := by
    cases reads with
    | nil =>
        rw [readLoop, if_neg full]
        exact List.mem_cons_self
    | cons ret rest =>
        cases ret with
        | none =>
            rw [readLoop, if_neg full]
            exact List.mem_cons_self
        | some byte =>
            rw [readLoop, if_neg full]
            exact List.mem_cons_self
  exact full (inside.cmd idx stored)

/-- A line that fills the array makes `readline` store behind it. -/
theorem readLoop_overflows (overflows : ¬Fits line reads) :
    ¬(readLoop maxCmdLen reads line.length s).2.Inside := by
  induction reads generalizing line s with
  | nil => exact readLoop_full overflows
  | cons ret rest inductionHypothesis =>
      by_cases here : line.length < maxCmdLen
      · cases ret with
        | none => exact absurd here overflows
        | some byte =>
            have goesOn : ¬(byte = 0x0A ∨ byte = 0x0D) := fun ends =>
              overflows ⟨here, ends.elim .inl fun isReturn => .inr (.inl isReturn)⟩
            obtain ⟨output, next⟩ := readLoop_edit (s := s) rest here goesOn
            rw [next]
            exact inductionHypothesis fun fits => overflows ⟨here, .inr (.inr fits)⟩
      · exact readLoop_full here

/-- The arrays before anything is stored. -/
def start (cmd : Memory) (argv : Nat → Option Nat) : Shell :=
  ⟨cmd, argv, [], [], []⟩

/-- `readline` stores inside the array and leaves the edited line there as a string, as long
as the line fits and has no zero byte. -/
theorem readline_spec (cmd : Memory) (argv : Nat → Option Nat) (fits : Fits [] reads) :
    ((start cmd argv).readline maxCmdLen reads).2.Inside ∧
      ((start cmd argv).readline maxCmdLen reads).1 = (edited [] reads).isSome ∧
      ∀ line, edited [] reads = some line → line.length < maxCmdLen ∧
        (0 ∉ line → ((start cmd argv).readline maxCmdLen reads).2.cmd.StringAt 0 line) := by
  obtain ⟨inside, returns, holds⟩ := readLoop_spec (s := start cmd argv) fits ⟨nofun, nofun⟩
    (Memory.holds_nil cmd 0)
  refine ⟨inside, returns, fun line isLine => ?_⟩
  obtain ⟨short, bytes⟩ := holds line isLine
  refine ⟨short, fun nonzero => ⟨?_, bytes, nonzero⟩⟩
  rw [Nat.zero_add]
  exact Nat.lt_trans short (by decide)

/-- A line that fills the array makes `readline` store behind it. -/
theorem readline_overflows (cmd : Memory) (argv : Nat → Option Nat) (overflows : ¬Fits [] reads) :
    ¬((start cmd argv).readline maxCmdLen reads).2.Inside :=
  readLoop_overflows overflows

end Shell
end LightOS
