import LightOS.Foundation.Memory
import LightOS.Foundation.Transition
import LightOS.Foundation.Words
import LightOS.Kernel.Fault

/-!
# The console

The driver of the display in `kernel/console.c`.  The display shows a part of its memory,
the screen, which moves down by a row when the text scrolls and returns to the beginning at
the end of the memory.  Every store to the memory is recorded.
-/

namespace LightOS

namespace Console

/-- `WIDTH`, which `console_init` makes the field `width`. -/
def width : Nat := 80

/-- `HEIGHT`, which `console_init` makes the field `height`. -/
def height : Nat := 25

/-- The field `row_size`. -/
def rowSize : Nat := width * 2

/-- The field `scr_size`. -/
def scrSize : Nat := width * height * 2

/-- The field `mem_base`. -/
def memBase : Nat := 0xB8000 + 0xC0000000

/-- The field `mem_size`, a whole number of rows. -/
def memSize : Nat := 0x4000 / rowSize * rowSize

/-- The field `mem_end`. -/
def memEnd : Nat := memBase + memSize

/-- `ARG_NR`. -/
def argNr : Nat := 16

theorem width_eq : width = 80 := rfl

theorem height_eq : height = 25 := rfl

theorem rowSize_eq : rowSize = 160 := rfl

theorem scrSize_eq : scrSize = 4000 := rfl

theorem memBase_eq : memBase = 3221979136 := rfl

theorem memSize_eq : memSize = 16320 := rfl

theorem memEnd_eq : memEnd = 3221995456 := rfl

/-- The enumeration `state`. -/
inductive Mode
  | nor
  | esc
  | que
  | arg
  | csi
  deriving DecidableEq

end Console

/-- The fields of `console_t` that change after `console_init`. -/
structure Console where
  screen : Nat
  pos : Nat
  x : Nat
  y : Nat
  savedX : Nat
  savedY : Nat
  state : Console.Mode
  args : Nat → Nat
  argc : Nat
  erase : Nat
  style : Nat

/-- The console, the memory and the stores that the driver has made, each with its address
and its length. -/
structure Display where
  con : Console
  memory : Memory
  stores : List (Nat × Nat)

namespace Display

open Console

/-- A store of some bytes. -/
def put (d : Display) (address length : Nat) (bytes : Nat → UInt8) : Display :=
  { d with
    memory := d.memory.store address length bytes
    stores := (address, length) :: d.stores }

/-- A store of a 16-bit word. -/
def putHalf (d : Display) (address value : Nat) : Display :=
  d.put address 2 fun offset => UInt8.ofNat (value / 256 ^ offset)

/-- A store of a byte. -/
def putByte (d : Display) (address value : Nat) : Display :=
  d.put address 1 fun _ => UInt8.ofNat value

/-- `memcpy`. -/
def memcpy (d : Display) (target source length : Nat) : Display :=
  d.put target length fun offset => d.memory (source + offset)

/-! ## The cursor -/

/-- `set_xy`. -/
def setXY (d : Display) (x y : Nat) : Display :=
  if width < x ∨ height ≤ y then
    d
  else
    { d with
      con.x := x
      con.y := y
      con.pos := add32 (add32 d.con.screen (y * rowSize % 2 ^ 32)) (2 * x % 2 ^ 32) }

/-- `save_cursor`. -/
def saveCursor (d : Display) : Display :=
  { d with
    con.savedX := d.con.x
    con.savedY := d.con.y }

/-- Return to the cursor that was saved. -/
def restoreCursor (d : Display) : Display :=
  d.setXY d.con.savedX d.con.savedY

/-- `erase_screen`. -/
def eraseScreen (d : Display) (start : Nat) : Nat → Display
  | 0 => d
  | count + 1 => (d.putHalf start d.con.erase).eraseScreen (add32 start 2) count

/-- `console_clear`. -/
def consoleClear (d : Display) : Display :=
  { d with
    con.screen := memBase
    con.pos := memBase
    con.x := 0
    con.y := 0 }.eraseScreen memBase (memSize / 2)

/-- The part of `scroll_up` that returns to the beginning of the memory. -/
def rewindScreen (d : Display) : Display :=
  if memEnd ≤ add32 (add32 d.con.screen scrSize) rowSize then
    { d.memcpy memBase d.con.screen scrSize with
      con.pos := sub32 d.con.pos (sub32 d.con.screen memBase)
      con.screen := memBase }
  else
    d

/-- The part of `scroll_up` that takes one more row. -/
def advanceScreen (d : Display) : Display :=
  let d := d.eraseScreen (add32 d.con.screen scrSize) width
  { d with
    con.screen := add32 d.con.screen rowSize
    con.pos := add32 d.con.pos rowSize }

/-- `scroll_up`. -/
def scrollUp (d : Display) : Display :=
  d.rewindScreen.advanceScreen

/-! ## Control characters -/

/-- `lf`. -/
def lf (d : Display) : Display :=
  if add32 d.con.y 1 < height then
    { d with
      con.y := add32 d.con.y 1
      con.pos := add32 d.con.pos rowSize }
  else
    d.scrollUp

/-- `cr`. -/
def cr (d : Display) : Display :=
  { d with
    con.pos := sub32 d.con.pos (2 * d.con.x % 2 ^ 32)
    con.x := 0 }

/-- The end of a line goes on in the next one. -/
def wrapLine (d : Display) : Display :=
  if width ≤ d.con.x then
    { d with
      con.x := sub32 d.con.x width
      con.pos := sub32 d.con.pos rowSize }.lf
  else
    d

/-- `tab`. -/
def tab (d : Display) : Display :=
  let offset := 8 - d.con.x % 8
  { d with
    con.x := add32 d.con.x offset
    con.pos := add32 d.con.pos (2 * offset) }.wrapLine

/-- `bs`. -/
def bs (d : Display) : Display :=
  if d.con.x = 0 then
    d
  else
    { d with
      con.x := sub32 d.con.x 1
      con.pos := sub32 d.con.pos 2 }.putHalf (sub32 d.con.pos 2) d.con.erase

/-- `del`. -/
def del (d : Display) : Display :=
  d.putHalf d.con.pos d.con.erase

/-- `chr`. -/
def chr (d : Display) (ch : UInt8) : Display :=
  let d := d.wrapLine
  let d := d.putByte d.con.pos ch.toNat
  let d := d.putByte (add32 d.con.pos 1) d.con.style
  { d with
    con.pos := add32 d.con.pos 2
    con.x := add32 d.con.x 1 }

/-- `state_normal`.  The beep is left to the speaker. -/
def stateNormal (d : Display) (ch : UInt8) : Display :=
  match ch with
  | 0x00 => d
  | 0x07 => d
  | 0x08 => d.bs
  | 0x09 => d.tab
  | 0x0A => d.lf.cr
  | 0x0B => d.lf
  | 0x0C => d.lf
  | 0x0D => d.cr
  | 0x7F => d.del
  | 0x1B => { d with con.state := .esc }
  | ch => d.chr ch

/-- `state_esc`. -/
def stateEsc (d : Display) (ch : UInt8) : Display :=
  match Char.ofNat ch.toNat with
  | '[' => { d with con.state := .que }
  | 'E' => d.lf.cr
  | 'D' => d.lf
  | '7' => d.saveCursor
  | '8' => d.restoreCursor
  | _ => d

/-- `state_arg`, and whether the sequence is complete. -/
def stateArg (d : Display) (ch : UInt8) : Bool × Display :=
  if argNr ≤ d.con.argc then
    (false, d)
  else if ch = 0x3B then
    (false, { d with con.argc := d.con.argc + 1 })
  else if 0x30 ≤ ch ∧ ch ≤ 0x39 then
    (false, { d with
      con.args := fun index => if index = d.con.argc then
        (d.con.args index * 10 + ch.toNat - 0x30) % 2 ^ 32 else d.con.args index })
  else
    (true, { d with
      con.argc := d.con.argc + 1
      con.state := .csi })

/-! ## Control sequences -/

/-- `csi_J`. -/
def csiJ (d : Display) : Display :=
  match d.con.args 0 with
  | 0 => d.eraseScreen d.con.pos (sub32 (add32 d.con.screen scrSize) d.con.pos / 2)
  | 1 => d.eraseScreen d.con.screen (sub32 d.con.pos d.con.screen / 2)
  | 2 => d.eraseScreen d.con.screen (scrSize / 2)
  | _ => d

/-- `csi_K`. -/
def csiK (d : Display) : Display :=
  match d.con.args 0 with
  | 0 => d.eraseScreen d.con.pos (sub32 width d.con.x)
  | 1 => d.eraseScreen (sub32 d.con.pos (2 * d.con.x % 2 ^ 32)) d.con.x
  | 2 => d.eraseScreen (sub32 d.con.pos (2 * d.con.x % 2 ^ 32)) width
  | _ => d

/-- How often the sequences with a repetition do their work. -/
def repetitions (d : Display) : Nat :=
  if height < d.con.args 0 then height else if d.con.args 0 = 0 then 1 else d.con.args 0

/-- Do something as often as the argument says. -/
def repeated (d : Display) (round : Display → Except Fault Display) : Except Fault Display :=
  (List.range d.repetitions).foldlM (fun d _ => round d) d

/-- Where the row of the cursor begins. -/
def rowStart (d : Display) : Nat :=
  add32 d.con.screen (d.con.y * rowSize % 2 ^ 32)

/-- The loop of `insert_line`. -/
def insertRows (start : Nat) : Nat → Nat → Display → Except Fault Display
  | 0, _, _ => .error .blocked
  | rounds + 1, i, d =>
      let src := sub32 memEnd (i * rowSize % 2 ^ 32)
      if src < start then
        .ok d
      else
        insertRows start rounds (i + 1) (d.memcpy (add32 src rowSize) src rowSize)

/-- `insert_line`. -/
def insertLine (d : Display) : Except Fault Display := do
  let d ← insertRows d.rowStart memSize 2 d
  return d.eraseScreen d.rowStart width

/-- `csi_L`. -/
def csiL (d : Display) : Except Fault Display :=
  d.repeated insertLine

/-- The loop of `delete_line`.  The pointer `start` is one to 16-bit words. -/
def deleteRows (start : Nat) : Nat → Nat → Display → Except Fault Display
  | 0, _, _ => .error .blocked
  | rounds + 1, i, d =>
      let src := add32 start (2 * (i * rowSize) % 2 ^ 32)
      if memEnd ≤ src then
        .ok d
      else
        deleteRows start rounds (i + 1) (d.memcpy (sub32 src rowSize) src rowSize)

/-- `delete_line`. -/
def deleteLine (d : Display) : Except Fault Display := do
  let d ← deleteRows d.rowStart memSize 1 d
  return d.eraseScreen (sub32 memEnd rowSize) width

/-- `csi_M`. -/
def csiM (d : Display) : Except Fault Display :=
  d.repeated deleteLine

/-- The loop of `delete_char`, with the 16-bit counter, and the cell that is cleared. -/
def deleteCells : Nat → Nat → Nat → Display → Except Fault Display
  | 0, _, _, _ => .error .blocked
  | rounds + 1, i, ptr, d =>
      if (i + 1) % 2 ^ 16 < width then
        deleteCells rounds ((i + 1) % 2 ^ 16) (add32 ptr 2)
          (d.putHalf ptr (d.memory.half (add32 ptr 2)))
      else
        .ok (d.putHalf ptr d.con.erase)

/-- `delete_char`. -/
def deleteChar (d : Display) : Except Fault Display :=
  deleteCells memSize (d.con.x % 2 ^ 16) d.con.pos d

/-- `csi_P`. -/
def csiP (d : Display) : Except Fault Display :=
  d.repeated deleteChar

/-- The loop of `insert_char`, and the store through a pointer to bytes after it. -/
def insertCells : Nat → Nat → Display → Except Fault Display
  | 0, _, _ => .error .blocked
  | rounds + 1, ptr, d =>
      if d.con.pos < ptr then
        insertCells rounds (sub32 ptr 2) (d.putHalf ptr (d.memory.half (sub32 ptr 2)))
      else
        .ok (d.putByte d.con.pos d.con.erase)

/-- `insert_char`. -/
def insertChar (d : Display) : Except Fault Display :=
  insertCells memSize
    (add32 d.con.pos (2 * sub32 (sub32 width d.con.x) 1 % 2 ^ 32)) d

/-- `csi_at`. -/
def csiAt (d : Display) : Except Fault Display :=
  d.repeated insertChar

/-- What one argument of `csi_m` makes of a style. -/
def restyle (style arg : Nat) : Nat :=
  if arg = 0 then 0x07
  else if arg = 1 then 0x0F
  else if arg = 0x80 then style ||| 0x80
  else if arg = 7 then (style >>> 4 ||| style <<< 4) % 2 ^ 8
  else if 30 ≤ arg ∧ arg ≤ 37 then style &&& 0xF8 ||| (arg - 30)
  else if 40 ≤ arg ∧ arg ≤ 47 then style &&& 0x8F ||| (arg - 40) <<< 4
  else style

/-- `csi_m`. -/
def csiStyle (d : Display) : Display :=
  let style := (List.range d.con.argc).foldl
    (fun style index => restyle style (d.con.args index)) 0
  { d with
    con.style := style
    con.erase := (style <<< 8 ||| 0x20) % 2 ^ 16 }

/-- An argument that counts from 1, which may be missing. -/
def oneBased (d : Display) (index : Nat) : Nat :=
  if d.con.args index = 0 then 0 else d.con.args index - 1

/-- The distance that the cursor moves. -/
def distance (d : Display) : Nat :=
  if d.con.args 0 = 0 then 1 else d.con.args 0

/-- The switch of `state_csi`.  What it does to the arguments themselves is lost, as they are
cleared before the next sequence. -/
def csi (d : Display) (ch : UInt8) : Except Fault Display :=
  match Char.ofNat ch.toNat with
  | 'G' | '`' => .ok (d.setXY (d.oneBased 0) d.con.y)
  | 'A' => .ok (d.setXY d.con.x (sub32 d.con.y d.distance))
  | 'B' | 'e' => .ok (d.setXY d.con.x (add32 d.con.y d.distance))
  | 'C' | 'a' => .ok (d.setXY (add32 d.con.x d.distance) d.con.y)
  | 'D' => .ok (d.setXY (sub32 d.con.x d.distance) d.con.y)
  | 'E' => .ok (d.setXY 0 (add32 d.con.y d.distance))
  | 'F' => .ok (d.setXY 0 (sub32 d.con.y d.distance))
  | 'd' => .ok (d.setXY d.con.x (d.oneBased 0))
  | 'H' | 'f' => .ok (d.setXY (d.oneBased 1) (d.oneBased 0))
  | 'J' => .ok d.csiJ
  | 'K' => .ok d.csiK
  | 'L' => d.csiL
  | 'M' => d.csiM
  | 'P' => d.csiP
  | '@' => d.csiAt
  | 'm' => .ok d.csiStyle
  | 's' => .ok d.saveCursor.restoreCursor
  | 'u' => .ok d.restoreCursor
  | _ => .ok d

/-- `state_csi`. -/
def stateCsi (d : Display) (ch : UInt8) : Except Fault Display :=
  { d with con.state := .nor }.csi ch

/-- The arguments of a new sequence. -/
def clearArgs (d : Display) : Display :=
  { d with
    con.args := fun _ => 0
    con.argc := 0
    con.state := .arg }

/-- The states `STATE_ARG` and, when the sequence is complete, `STATE_CSI`. -/
def argument (d : Display) (ch : UInt8) : Except Fault Display :=
  match d.stateArg ch with
  | (false, d) => .ok d
  | (true, d) => d.stateCsi ch

/-- One byte of `console_write`. -/
def writeByte (d : Display) (ch : UInt8) : Except Fault Display :=
  match d.con.state with
  | .nor => .ok (d.stateNormal ch)
  | .esc => .ok (d.stateEsc ch)
  | .que => if ch = 0x3F then .ok d.clearArgs else d.clearArgs.argument ch
  | .arg => d.argument ch
  | .csi => d.stateCsi ch

/-- `console_write`. -/
def consoleWrite (d : Display) (buf : List UInt8) : Except Fault Display :=
  buf.foldlM writeByte d

/-- `console_init`.  The fields that it does not set are 0 from the start. -/
def consoleInit (memory : Memory) : Display :=
  consoleClear {
    con := {
      screen := 0
      pos := 0
      x := 0
      y := 0
      savedX := 0
      savedY := 0
      state := .nor
      args := fun _ => 0
      argc := 0
      erase := 0x0720
      style := 7 }
    memory := memory
    stores := [] }

/-- The console from its start on, with a chunk of bytes in each step. -/
def runs : System Display (List UInt8) where
  initial d := ∃ memory, d = consoleInit memory
  step before buf after := before.consoleWrite buf = .ok after

end Display

end LightOS
