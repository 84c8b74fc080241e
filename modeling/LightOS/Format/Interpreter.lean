import LightOS.Format.Number
import LightOS.Kernel.Strings

/-!
# The interpreter of formats

The functions `skip_atoi` and `vsprintf` of `lib/vsprintf.c`.  A pointer into the format is
the list of the bytes that follow up to the terminator.  What lies behind the format on the
stack is a list of arguments, and a conversion that asks for another kind of argument than
is there, or for one too many, is a misuse of the function.
-/

namespace LightOS
namespace Format

/-- An argument behind the format. -/
inductive Arg
  | word (value : Nat)
  /-- A pointer to a string. -/
  | string (bytes : Cursor)
  | double (value : Value)
  /-- A pointer to an integer. -/
  | place (address : Nat)
  /-- A pointer to bytes: a hardware address, or one of the network. -/
  | octets (bytes : List UInt8)
  deriving DecidableEq

/-- What has been stored from `buf` on, the words stored through the pointers of `%n`, and
the arguments that are left. -/
structure Printed where
  buf : List UInt8
  counts : List (Nat × Nat)
  args : List Arg
  deriving DecidableEq

/-- `is_digit`. -/
def isDigit (c : UInt8) : Bool :=
  0x30 ≤ c && c ≤ 0x39

/-- `skip_atoi`, with the word `i` so far. -/
def skipAtoi : Cursor → Nat → Nat × Cursor
  | [], i => (i, [])
  | c :: rest, i =>
      if isDigit c then skipAtoi rest ((i * 10 + (c.toNat - 0x30)) % 2 ^ 32) else (i, c :: rest)

/-- `va_arg` of an integer. -/
def vaWord : List Arg → Except Fault (Nat × List Arg)
  | .word value :: args => .ok (value % 2 ^ 32, args)
  | _ => .error .misuse

/-- `va_arg` of a pointer to a string. -/
def vaString : List Arg → Except Fault (Cursor × List Arg)
  | .string bytes :: args => .ok (bytes, args)
  | _ => .error .misuse

/-- `va_arg` of a floating-point number. -/
def vaDouble : List Arg → Except Fault (Value × List Arg)
  | .double value :: args =>
      .ok (⟨value.word % 2 ^ 32, value.negative, value.ival % 2 ^ 32, value.fval % 2 ^ 32⟩, args)
  | _ => .error .misuse

/-- `va_arg` of a pointer to an integer. -/
def vaPlace : List Arg → Except Fault (Nat × List Arg)
  | .place address :: args => .ok (address, args)
  | _ => .error .misuse

/-- `va_arg` of a pointer to bytes, as many as the conversion reads. -/
def vaOctets (count : Nat) : List Arg → Except Fault (List UInt8 × List Arg)
  | .octets bytes :: args =>
      if count ≤ bytes.length then .ok (bytes.take count, args) else .error .misuse
  | _ => .error .misuse

/-- The loop over the flags behind a `%`. -/
def scanFlags : Cursor → Flags → Flags × Cursor
  | [], flags => (flags, [])
  | c :: rest, flags =>
      if c = 0x2D then scanFlags rest { flags with left := true }
      else if c = 0x2B then scanFlags rest { flags with plus := true }
      else if c = 0x20 then scanFlags rest { flags with space := true }
      else if c = 0x23 then scanFlags rest { flags with special := true }
      else if c = 0x30 then scanFlags rest { flags with zeropad := true }
      else (flags, c :: rest)

/-- A conversion while it is read: the pointer into the format, the flags, the two numbers
and the arguments that are left. -/
structure Scan where
  fmt : Cursor
  flags : Flags
  fieldWidth : Int
  precision : Int
  args : List Arg

/-- The part of `vsprintf` that reads `field_width`. -/
def scanWidth (scan : Scan) : Except Fault Scan :=
  match scan.fmt with
  | [] => .ok { scan with fieldWidth := -1 }
  | c :: rest =>
      if isDigit c then
        let (width, fmt) := skipAtoi (c :: rest) 0
        .ok { scan with fieldWidth := toSigned width, fmt := fmt }
      else if c = 0x2A then do
        let (value, args) ← vaWord scan.args
        let width := toSigned value
        if width < 0 then
          return { scan with
            fieldWidth := int (-width), flags := { scan.flags with left := true }
            fmt := rest, args := args }
        else
          return { scan with fieldWidth := width, fmt := rest, args := args }
      else
        .ok { scan with fieldWidth := -1 }

/-- The number behind the point of a precision.  The pointer is not moved over a star. -/
def scanDigits (scan : Scan) : Except Fault Scan :=
  match scan.fmt with
  | [] => .ok { scan with precision := -1 }
  | c :: rest =>
      if isDigit c then
        let (precision, fmt) := skipAtoi (c :: rest) 0
        .ok { scan with precision := toSigned precision, fmt := fmt }
      else if c = 0x2A then do
        let (value, args) ← vaWord scan.args
        return { scan with precision := toSigned value, args := args }
      else
        .ok { scan with precision := -1 }

/-- The part of `vsprintf` that reads `precision`. -/
def scanPrecision (scan : Scan) : Except Fault Scan :=
  match scan.fmt with
  | [] => .ok { scan with precision := -1 }
  | c :: rest =>
      if c = 0x2E then do
        let scan ← scanDigits { scan with fmt := rest }
        return if scan.precision < 0 then { scan with precision := 0 } else scan
      else
        .ok { scan with precision := -1 }

/-- The part of `vsprintf` that moves over `qualifier`. -/
def skipQualifier : Cursor → Cursor
  | [] => []
  | c :: rest => if c = 0x68 ∨ c = 0x6C ∨ c = 0x4C then rest else c :: rest

/-- What the label of the switch over the conversion characters selects. -/
inductive Kind
  | character
  | string
  | pointer
  | number (base : Nat) (sign small : Bool)
  | count
  | double
  | mac
  | ip
  | other
  deriving DecidableEq

/-- The labels of the switch. -/
def kindOf (c : UInt8) : Kind :=
  if c = 0x63 then .character
  else if c = 0x73 then .string
  else if c = 0x6F then .number 8 false false
  else if c = 0x70 then .pointer
  else if c = 0x78 then .number 16 false true
  else if c = 0x58 then .number 16 false false
  else if c = 0x64 ∨ c = 0x69 then .number 10 true false
  else if c = 0x75 then .number 10 false false
  else if c = 0x6E then .count
  else if c = 0x66 then .double
  else if c = 0x62 then .number 2 false false
  else if c = 0x6D then .mac
  else if c = 0x72 then .ip
  else .other

/-- A call of `number`, which returns a null pointer for a base without digits. -/
def storeNumber (num : Value) (base : Nat) (size precision : Int) (flags : Flags) :
    Except Fault (List UInt8) :=
  match number num base size precision flags with
  | some bytes => .ok bytes
  | none => .error .wild

/-- The loop `while (--size > 0) *str++ = ch`: what it stores, and the size it leaves. -/
def fillBelow (size : Int) (ch : UInt8) : List UInt8 × Int :=
  (List.replicate (int (size - 1)).toNat ch, min (int (size - 1)) 0)

/-- The loop `while (len < size--) *str++ = ch`: what it stores, and the size it leaves. -/
def fillAbove (len size : Int) (ch : UInt8) : List UInt8 × Int :=
  (List.replicate (size - len).toNat ch, int (min size len - 1))

/-- The loops of `%c`: spaces, the character, spaces. -/
def storeCharacter (flags : Flags) (fieldWidth : Int) (byte : UInt8) : List UInt8 :=
  let spaces := if flags.left then ([], fieldWidth) else fillBelow fieldWidth 0x20
  spaces.1 ++ [byte] ++ (fillBelow spaces.2 0x20).1

/-- The loops of `%s`: spaces, as much of the string as the precision allows, spaces. -/
def storeString (flags : Flags) (fieldWidth precision : Int) (s : Cursor) : List UInt8 :=
  let len := int s.length
  let len := if precision < 0 then len else min len precision
  let spaces := if flags.left then ([], fieldWidth) else fillAbove len fieldWidth 0x20
  spaces.1 ++ s.take len.toNat ++ (fillAbove len spaces.2 0x20).1

/-- The loops of `%m` and `%r`: a number for each byte, and a separator behind each but the
last. -/
def storeOctets (base : Nat) (size precision : Int) (flags : Flags) (separator : UInt8)
    (octets : List UInt8) : Except Fault (List UInt8) := do
  let stored ← octets.foldlM (fun stored octet => do
    let bytes ← storeNumber (.ofWord octet.toNat) base size precision flags
    return stored ++ bytes ++ [separator]) []
  return stored.dropLast

/-- The switch over the conversion characters.  A format that ends in front of one is
treated as one with an unknown character, and the pointer stays at the terminator. -/
def convert (scan : Scan) (s : Printed) : Except Fault (Cursor × Printed) :=
  match scan.fmt with
  | [] => .ok ([], { s with buf := s.buf ++ [0x25], args := scan.args })
  | c :: rest => do
      let flags := scan.flags
      let width := scan.fieldWidth
      let precision := scan.precision
      match kindOf c with
      | .character =>
          let (value, args) ← vaWord scan.args
          let bytes := storeCharacter flags width (UInt8.ofNat value)
          return (rest, { s with buf := s.buf ++ bytes, args := args })
      | .string =>
          let (string, args) ← vaString scan.args
          let bytes := storeString flags width precision string
          return (rest, { s with buf := s.buf ++ bytes, args := args })
      | .pointer =>
          let (value, args) ← vaWord scan.args
          let (width, flags) := if width = -1 then (8, { flags with zeropad := true })
            else (width, flags)
          let bytes ← storeNumber (.ofWord value) 16 width precision flags
          return (rest, { s with buf := s.buf ++ bytes, args := args })
      | .number base sign small =>
          let (value, args) ← vaWord scan.args
          let bytes ← storeNumber (.ofWord value) base width precision
            { flags with sign := flags.sign || sign, small := flags.small || small }
          return (rest, { s with buf := s.buf ++ bytes, args := args })
      | .count =>
          let (address, args) ← vaPlace scan.args
          let count := s.buf.length % 2 ^ 32
          return (rest, { s with counts := s.counts ++ [(address, count)], args := args })
      | .double =>
          let (value, args) ← vaDouble scan.args
          let bytes ← storeNumber value 10 width precision
            { flags with sign := true, double := true }
          return (rest, { s with buf := s.buf ++ bytes, args := args })
      | .mac =>
          let (octets, args) ← vaOctets 6 scan.args
          let bytes ← storeOctets 16 2 precision { flags with small := true, zeropad := true }
            0x3A octets
          return (rest, { s with buf := s.buf ++ bytes, args := args })
      | .ip =>
          let (octets, args) ← vaOctets 4 scan.args
          let bytes ← storeOctets 10 width precision { flags with small := true } 0x2E octets
          return (rest, { s with buf := s.buf ++ bytes, args := args })
      | .other =>
          let bytes := if c ≠ 0x25 then [0x25, c] else [c]
          return (rest, { s with buf := s.buf ++ bytes, args := scan.args })

/-- What is done for a `%`, from the byte behind it on. -/
def directive (fmt : Cursor) (s : Printed) : Except Fault (Cursor × Printed) := do
  let (flags, fmt) := scanFlags fmt noFlags
  let scan ← scanWidth ⟨fmt, flags, -1, -1, s.args⟩
  let scan ← scanPrecision scan
  convert { scan with fmt := skipQualifier scan.fmt } s

/-- The loop of `vsprintf`.  Each round moves the pointer. -/
def formatLoop : Nat → Cursor → Printed → Except Fault Printed
  | 0, _, _ => .error .blocked
  | _ + 1, [], s => .ok s
  | rounds + 1, c :: rest, s =>
      if c ≠ 0x25 then
        formatLoop rounds rest { s with buf := s.buf ++ [c] }
      else do
        let (fmt, s) ← directive rest s
        formatLoop rounds fmt s

/-- `vsprintf`: what it stores, with the terminator, and what it returns.  The length is
checked when everything has been stored. -/
def vsprintf (fmt : Cursor) (args : List Arg) : Except Fault (Printed × Int) := do
  let s ← formatLoop (fmt.length + 1) fmt ⟨[], [], args⟩
  check (int s.buf.length < 2048)
  return ({ s with buf := s.buf ++ [0] }, int s.buf.length)

end Format
end LightOS
