import Mathlib.Data.List.Basic

/-!
# The keyboard

The function `keyboard_handler` of `keyboard.c` up to the character that it finds for a scan
code, and `tty_rx_notify` of `tty.c`, which looks at the character first.  The lights of the
keyboard and the ports of its controller are left out.
-/

namespace LightOS
namespace Terminal

/-- The first two columns of `keymap`: the character of a key, and the one with shift.  A
zero is `INV`. -/
def keymap : List (UInt8 × UInt8) :=
  [(0x00, 0x00), (0x1B, 0x1B), (0x31, 0x21), (0x32, 0x40), (0x33, 0x23), (0x34, 0x24),
    (0x35, 0x25), (0x36, 0x5E), (0x37, 0x26), (0x38, 0x2A), (0x39, 0x28), (0x30, 0x29),
    (0x2D, 0x5F), (0x3D, 0x2B), (0x08, 0x08), (0x09, 0x09), (0x71, 0x51), (0x77, 0x57),
    (0x65, 0x45), (0x72, 0x52), (0x74, 0x54), (0x79, 0x59), (0x75, 0x55), (0x69, 0x49),
    (0x6F, 0x4F), (0x70, 0x50), (0x5B, 0x7B), (0x5D, 0x7D), (0x0A, 0x0A), (0x00, 0x00),
    (0x61, 0x41), (0x73, 0x53), (0x64, 0x44), (0x66, 0x46), (0x67, 0x47), (0x68, 0x48),
    (0x6A, 0x4A), (0x6B, 0x4B), (0x6C, 0x4C), (0x3B, 0x3A), (0x27, 0x22), (0x60, 0x7E),
    (0x00, 0x00), (0x5C, 0x7C), (0x7A, 0x5A), (0x78, 0x58), (0x63, 0x43), (0x76, 0x56),
    (0x62, 0x42), (0x6E, 0x4E), (0x6D, 0x4D), (0x2C, 0x3C), (0x2E, 0x3E), (0x2F, 0x3F),
    (0x00, 0x00), (0x2A, 0x2A), (0x00, 0x00), (0x20, 0x20), (0x00, 0x00), (0x00, 0x00),
    (0x00, 0x00), (0x00, 0x00), (0x00, 0x00), (0x00, 0x00), (0x00, 0x00), (0x00, 0x00),
    (0x00, 0x00), (0x00, 0x00), (0x00, 0x00), (0x00, 0x00), (0x00, 0x00), (0x37, 0x00),
    (0x38, 0x00), (0x39, 0x00), (0x2D, 0x2D), (0x34, 0x00), (0x35, 0x00), (0x36, 0x00),
    (0x2B, 0x2B), (0x31, 0x00), (0x32, 0x00), (0x33, 0x00), (0x30, 0x00), (0x2E, 0x7F),
    (0x00, 0x00), (0x00, 0x00), (0x00, 0x00), (0x00, 0x00), (0x00, 0x00), (0x00, 0x00),
    (0x00, 0x00), (0x00, 0x00), (0x00, 0x00), (0x00, 0x00), (0x00, 0x00), (0x00, 0x00)]

/-- `KEY_CTRL_L`. -/
abbrev keyCtrl : Nat := 0x1D

/-- `KEY_SHIFT_L`. -/
abbrev keyShiftL : Nat := 0x2A

/-- `KEY_SLASH`. -/
abbrev keySlash : Nat := 0x35

/-- `KEY_SHIFT_R`. -/
abbrev keyShiftR : Nat := 0x36

/-- `KEY_CAPSLOCK`. -/
abbrev keyCapslock : Nat := 0x3A

/-- `KEY_NUMLOCK`. -/
abbrev keyNumlock : Nat := 0x45

/-- `KEY_SCRLOCK`. -/
abbrev keyScrlock : Nat := 0x46

/-- `KEY_PRINT_SCREEN`, the last key of the table. -/
abbrev keyPrintScreen : Nat := 0x5F

/-- The variables of the driver.  The last two columns of `keymap` tell which keys are down,
the second of them for scan codes with a prefix. -/
structure Keyboard where
  down : Nat → Bool → Bool
  capslock : Bool
  scrlock : Bool
  numlock : Bool
  extcode : Bool

/-- The variables when the kernel starts. -/
def Keyboard.initial : Keyboard where
  down := fun _ _ => false
  capslock := false
  scrlock := false
  numlock := true
  extcode := false

/-- An entry of the first two columns of `keymap`. -/
def column (makecode : Nat) (second : Bool) : UInt8 :=
  let row := keymap.getD makecode (0, 0)
  if second then row.2 else row.1

/-- The character of a key that goes down. -/
def character (shift capslock numlock : Bool) (makecode : Nat) (ext : Bool) : UInt8 :=
  if ext ∧ makecode ≠ keySlash then column makecode true
  else if 0x47 ≤ makecode ∧ makecode ≤ 0x53 then column makecode (!numlock)
  else if 0x61 ≤ column makecode false ∧ column makecode false ≤ 0x7A then
    column makecode (capslock ^^ shift)
  else column makecode shift

namespace Keyboard

/-- `ctrl_state`. -/
def ctrlState (kb : Keyboard) : Bool :=
  kb.down keyCtrl false || kb.down keyCtrl true

/-- `shift_state`. -/
def shiftState (kb : Keyboard) : Bool :=
  kb.down keyShiftL false || kb.down keyShiftR false

/-- Set an entry of the last two columns of `keymap`. -/
def set (kb : Keyboard) (makecode : Nat) (ext state : Bool) : Keyboard :=
  { kb with
    down := Function.update kb.down makecode (Function.update (kb.down makecode) ext state) }

/-- `keyboard_handler` up to the character: what a key types that goes down. -/
def keyDown (kb : Keyboard) (makecode : Nat) (ext : Bool) : Keyboard × Option UInt8 :=
  if makecode = keyNumlock then ({ kb with numlock := !kb.numlock }, none)
  else if makecode = keyCapslock then ({ kb with capslock := !kb.capslock }, none)
  else if makecode = keyScrlock then ({ kb with scrlock := !kb.scrlock }, none)
  else
    let ch := character kb.shiftState kb.capslock kb.numlock makecode ext
    (kb, if ch = 0 then none else some ch)

/-- `keyboard_handler` up to the character. -/
def handle (kb : Keyboard) (scancode : UInt8) : Keyboard × Option UInt8 :=
  if scancode = 0xE0 then
    ({ kb with extcode := true }, none)
  else
    let ext := kb.extcode
    let kb := { kb with extcode := false }
    let makecode := (scancode &&& 0x7F).toNat
    let makecode := if makecode = 0xB7 then keyPrintScreen else makecode
    if keyPrintScreen < makecode then
      (kb, none)
    else if scancode &&& 0x80 ≠ 0 then
      (kb.set makecode ext false, none)
    else
      (kb.set makecode ext true).keyDown makecode ext

end Keyboard

/-- What `tty_rx_notify` does besides changing the character. -/
inductive TtyAction
  | nothing
  /-- `tty_intr`. -/
  | interrupt
  /-- The screen is cleared. -/
  | clear
  /-- The character is kept from the driver. -/
  | swallow
  deriving DecidableEq

/-- `tty_rx_notify`. -/
def ttyRxNotify (ch : UInt8) (ctrl : Bool) : UInt8 × TtyAction :=
  let ch := if ch = 0x0D then 0x0A else ch
  if !ctrl then (ch, .nothing)
  else if ch = 0x63 ∨ ch = 0x43 then (0x0A, .interrupt)
  else if ch = 0x6C ∨ ch = 0x4C then (0x0D, .clear)
  else (ch, .swallow)

/-- `keyboard_handler` up to the queue: the character that is handed over, and what the
terminal does. -/
def Keyboard.type (kb : Keyboard) (scancode : UInt8) : Keyboard × Option UInt8 × TtyAction :=
  match kb.handle scancode with
  | (kb, none) => (kb, none, .nothing)
  | (kb, some ch) =>
      let (ch, action) := ttyRxNotify ch kb.ctrlState
      (kb, if action = .swallow then none else some ch, action)

/-! ## The events of the keys -/

/-- A key goes down or up.  Scan codes with a prefix are for the keys that old keyboards did
not have. -/
structure KeyEvent where
  key : Nat
  ext : Bool
  down : Bool
  deriving DecidableEq

/-- The events in a stream of scan codes, behind a prefix or not. -/
def keyEvents : Bool → List UInt8 → List KeyEvent
  | _, [] => []
  | ext, code :: codes =>
      if code = 0xE0 then keyEvents true codes
      else ⟨code.toNat % 128, ext, code < 0x80⟩ :: keyEvents false codes

/-- The stream of scan codes ends with a prefix. -/
def endsInPrefix : Bool → List UInt8 → Bool
  | ext, [] => ext
  | _, code :: codes => endsInPrefix (code = 0xE0) codes

/-- A key is down if its last event, the most recent first, says so. -/
def isDown (history : List KeyEvent) (key : Nat) (ext : Bool) : Bool :=
  match history.find? fun event => event.key = key ∧ event.ext = ext with
  | some event => event.down
  | none => false

/-- A lock key has gone down an odd number of times. -/
def isLocked (history : List KeyEvent) (key : Nat) : Bool :=
  (history.countP fun event => event.key = key ∧ event.down) % 2 = 1

/-- Scan codes one after the other, and the characters that are handed over for them. -/
def Keyboard.typeAll (kb : Keyboard) : List UInt8 → Keyboard × List UInt8
  | [] => (kb, [])
  | code :: codes =>
      let (kb, ch, _) := kb.type code
      let (kb, typed) := kb.typeAll codes
      (kb, ch.toList ++ typed)

/-- The variables of the driver are what the events before, the most recent first, make
them. -/
structure Keyboard.Shows (kb : Keyboard) (history : List KeyEvent) : Prop where
  down : ∀ key ≤ keyPrintScreen, ∀ ext, kb.down key ext = isDown history key ext
  capslock : kb.capslock = isLocked history keyCapslock
  scrlock : kb.scrlock = isLocked history keyScrlock
  numlock : kb.numlock = !isLocked history keyNumlock

namespace Keyboard

variable {kb : Keyboard} {history : List KeyEvent}

theorem Shows.initial : initial.Shows [] where
  down := fun _ _ _ => rfl
  capslock := rfl
  scrlock := rfl
  numlock := rfl

theorem isDown_cons (event : KeyEvent) (history : List KeyEvent) (key : Nat) (ext : Bool) :
    isDown (event :: history) key ext =
      if event.key = key ∧ event.ext = ext then event.down else isDown history key ext := by
  unfold isDown
  rw [List.find?_cons]
  by_cases same : event.key = key ∧ event.ext = ext
  · simp [same]
  · simp [same]

theorem isLocked_cons (event : KeyEvent) (history : List KeyEvent) (key : Nat) :
    isLocked (event :: history) key =
      (isLocked history key ^^ decide (event.key = key ∧ event.down)) := by
  unfold isLocked
  rw [List.countP_cons]
  by_cases toggles : event.key = key ∧ event.down = true
  · rw [if_pos (decide_eq_true toggles), decide_eq_true toggles, Bool.xor_true, ← decide_not,
      decide_eq_decide]
    omega
  · simp [toggles]

@[simp] theorem set_down (kb : Keyboard) (makecode key : Nat) (ext state other : Bool) :
    (kb.set makecode ext state).down key other =
      if makecode = key ∧ ext = other then state else kb.down key other := by
  unfold set
  dsimp only
  by_cases sameKey : makecode = key
  · subst sameKey
    rw [Function.update_self]
    by_cases sameExt : ext = other
    · simp [sameExt]
    · rw [Function.update_of_ne (Ne.symm sameExt)]
      simp [sameExt]
  · rw [Function.update_of_ne (Ne.symm sameKey)]
    simp [sameKey]

/-- An event sets the entry of its key, and changes the lock of its key when it goes down. -/
theorem Shows.after (shows : kb.Shows history) (event : KeyEvent) {after : Keyboard}
    (down : ∀ key ≤ keyPrintScreen, ∀ ext, after.down key ext =
      if event.key = key ∧ event.ext = ext then event.down else kb.down key ext)
    (capslock : after.capslock = (kb.capslock ^^ decide (event.key = keyCapslock ∧ event.down)))
    (scrlock : after.scrlock = (kb.scrlock ^^ decide (event.key = keyScrlock ∧ event.down)))
    (numlock : after.numlock = (kb.numlock ^^ decide (event.key = keyNumlock ∧ event.down))) :
    after.Shows (event :: history) where
  down := fun key known ext => by rw [down key known, isDown_cons, shows.down key known]
  capslock := by rw [capslock, isLocked_cons, shows.capslock]
  scrlock := by rw [scrlock, isLocked_cons, shows.scrlock]
  numlock := by rw [numlock, isLocked_cons, shows.numlock, Bool.not_xor]

/-- A lock stays when another key goes down. -/
theorem lock_stays {event : KeyEvent} {lock : Nat}
    (other : ¬(event.key = lock ∧ event.down = true)) (state : Bool) :
    state = (state ^^ decide (event.key = lock ∧ event.down)) := by
  rw [decide_eq_false other, Bool.xor_false]

/-- An event for another key than the locks changes the entry of its key only. -/
theorem Shows.set (shows : kb.Shows history) (event : KeyEvent)
    (noLock : ¬(event.down ∧ event.key ∈ [keyNumlock, keyCapslock, keyScrlock])) :
    (kb.set event.key event.ext event.down).Shows (event :: history) := by
  have other {lock : Nat} (isLock : lock ∈ [keyNumlock, keyCapslock, keyScrlock]) :=
    @lock_stays event lock fun same => noLock ⟨same.2, by rwa [same.1]⟩
  exact shows.after event (fun _ _ _ => set_down ..) (other (by simp) _) (other (by simp) _)
    (other (by simp) _)

/-- An event for a key that is not in the table changes nothing. -/
theorem Shows.unknown (shows : kb.Shows history) {event : KeyEvent}
    (unknown : keyPrintScreen < event.key) : kb.Shows (event :: history) := by
  have other {lock : Nat} (isKnown : lock ≤ keyPrintScreen) :=
    @lock_stays event lock fun same => by omega
  refine shows.after event (fun key known ext => ?_) (other (by decide) _) (other (by decide) _)
    (other (by decide) _)
  rw [if_neg fun same => by omega]

/-- A key that goes down changes a lock, or nothing but its entry. -/
theorem Shows.keyDown (shows : kb.Shows history) {event : KeyEvent}
    (down : event.down = true) :
    ((kb.set event.key event.ext true).keyDown event.key event.ext).1.Shows (event :: history) ∧
      ((kb.set event.key event.ext true).keyDown event.key event.ext).1.extcode = kb.extcode := by
  have setDown (key : Nat) (_ : key ≤ keyPrintScreen) (ext : Bool) :
      (kb.set event.key event.ext true).down key ext =
        if event.key = key ∧ event.ext = ext then event.down else kb.down key ext := by
    rw [set_down, down]
  have other {key lock : Nat} (isKey : event.key = key) (apart : key ≠ lock) :=
    @lock_stays event lock fun same => apart (isKey.symm.trans same.1)
  unfold Keyboard.keyDown
  by_cases isNumlock : event.key = keyNumlock
  · rw [if_pos isNumlock]
    exact ⟨shows.after event setDown (other isNumlock (by decide) _)
      (other isNumlock (by decide) _) (by simp [isNumlock, down, Keyboard.set]), rfl⟩
  by_cases isCapslock : event.key = keyCapslock
  · rw [if_neg isNumlock, if_pos isCapslock]
    exact ⟨shows.after event setDown (by simp [isCapslock, down, Keyboard.set])
      (other isCapslock (by decide) _) (other isCapslock (by decide) _), rfl⟩
  by_cases isScrlock : event.key = keyScrlock
  · rw [if_neg isNumlock, if_neg isCapslock, if_pos isScrlock]
    exact ⟨shows.after event setDown (other isScrlock (by decide) _)
      (by simp [isScrlock, down, Keyboard.set]) (other isScrlock (by decide) _), rfl⟩
  · rw [if_neg isNumlock, if_neg isCapslock, if_neg isScrlock]
    have set := shows.set event fun lock => by simp [isNumlock, isCapslock, isScrlock] at lock
    rw [down] at set
    exact ⟨set, rfl⟩

/-- The low bits of a scan code are the key, and the highest bit tells that it goes up. -/
theorem scancode_bits (code : UInt8) :
    (code &&& 0x7F).toNat = code.toNat % 128 ∧ (code &&& 0x80 ≠ 0 ↔ ¬code < 0x80) := by
  have table : ∀ value < 256, ((UInt8.ofNat value &&& 0x7F).toNat =
      (UInt8.ofNat value).toNat % 128) ∧
      (UInt8.ofNat value &&& 0x80 ≠ 0 ↔ ¬UInt8.ofNat value < 0x80) := by
    decide +kernel
  have entry := table code.toNat code.toNat_lt
  rwa [UInt8.ofNat_toNat] at entry

/-- The event of a scan code. -/
def eventOf (ext : Bool) (code : UInt8) : KeyEvent :=
  ⟨code.toNat % 128, ext, code < 0x80⟩

/-- A scan code that is no prefix is an event. -/
theorem Shows.handle (shows : kb.Shows history) {code : UInt8} (isCode : code ≠ 0xE0) :
    (kb.handle code).1.Shows (eventOf kb.extcode code :: history) ∧
      (kb.handle code).1.extcode = false := by
  obtain ⟨key, high⟩ := scancode_bits code
  have small : ¬code.toNat % 128 = 0xB7 := by omega
  have cleared : Shows { kb with extcode := false } history :=
    ⟨shows.down, shows.capslock, shows.scrlock, shows.numlock⟩
  unfold Keyboard.handle
  dsimp only
  rw [if_neg isCode, key, if_neg small]
  by_cases unknown : keyPrintScreen < code.toNat % 128
  · rw [if_pos unknown]
    exact ⟨cleared.unknown unknown, rfl⟩
  · rw [if_neg unknown]
    by_cases goesDown : code < 0x80
    · have down : (eventOf kb.extcode code).down = true := decide_eq_true goesDown
      rw [if_neg fun isHigh => high.mp isHigh goesDown]
      exact cleared.keyDown down
    · have up : (eventOf kb.extcode code).down = false := decide_eq_false goesDown
      have set := cleared.set (eventOf kb.extcode code) fun lock => by
        rw [up] at lock
        exact Bool.false_ne_true lock.1
      rw [up] at set
      rw [if_pos (high.mpr goesDown)]
      exact ⟨set, rfl⟩

/-- The terminal does not change the variables of the keyboard. -/
theorem type_fst (kb : Keyboard) (code : UInt8) : (kb.type code).1 = (kb.handle code).1 := by
  unfold Keyboard.type
  rcases kb.handle code with ⟨after, _ | ch⟩
  · rfl
  · rfl

theorem type_extcode (kb : Keyboard) :
    kb.type 0xE0 = ({ kb with extcode := true }, none, .nothing) := rfl

/-- The variables after a stream of scan codes are those that the events in it make. -/
theorem Shows.typeAll (shows : kb.Shows history) (codes : List UInt8) :
    (kb.typeAll codes).1.Shows ((keyEvents kb.extcode codes).reverse ++ history) ∧
      (kb.typeAll codes).1.extcode = endsInPrefix kb.extcode codes := by
  induction codes generalizing kb history with
  | nil => exact ⟨shows, rfl⟩
  | cons code codes inductionHypothesis =>
      rw [Keyboard.typeAll, keyEvents, endsInPrefix]
      dsimp only
      by_cases isPrefix : code = 0xE0
      · subst isPrefix
        rw [type_extcode, if_pos rfl]
        have prefixed : Shows { kb with extcode := true } history :=
          ⟨shows.down, shows.capslock, shows.scrlock, shows.numlock⟩
        exact inductionHypothesis prefixed
      · obtain ⟨shown, noPrefix⟩ := shows.handle isPrefix
        rw [← type_fst] at shown noPrefix
        have rest := inductionHypothesis shown
        rw [noPrefix] at rest
        rw [if_neg isPrefix, decide_eq_false isPrefix, List.reverse_cons, List.append_assoc,
          List.singleton_append]
        exact rest

/-- For every stream of scan codes, the driver takes those keys for down whose last event
was to go down, the locks for on or off as often as their keys went down, and a prefix at
the end for one that is still to be used. -/
theorem typeAll_initial (codes : List UInt8) :
    (initial.typeAll codes).1.Shows (keyEvents false codes).reverse ∧
      (initial.typeAll codes).1.extcode = endsInPrefix false codes := by
  have all := Shows.initial.typeAll codes
  rwa [List.append_nil] at all

end Keyboard
end Terminal
end LightOS
