import LightOS.Format.Interpreter

/-!
# What a format means

A format is a list of plain bytes and directives.  A directive takes its arguments, turns the
last of them into a text and puts the text into a field.  The interpreter stores what the
items of its format print, one behind the other, and it never reads behind the terminator of
the format.
-/

namespace LightOS
namespace Format

variable {args left : List Arg} {precision : Option Int} {s after : Printed}

/-- A number in a directive. -/
inductive Extent
  | absent
  | fixed (value : Nat)
  /-- The next argument. -/
  | argument
  deriving DecidableEq

/-- A directive. -/
structure Directive where
  flags : Flags
  width : Extent
  precision : Extent
  /-- The conversion character, unless the format ends in front of it. -/
  conversion : Option UInt8
  deriving DecidableEq

/-- An item of a format. -/
inductive Item
  | plain (byte : UInt8)
  | directive (directive : Directive)
  deriving DecidableEq

/-! ## Reading a format -/

/-- The bytes that are flags. -/
def isFlag (c : UInt8) : Bool :=
  c = 0x2D || c = 0x2B || c = 0x20 || c = 0x23 || c = 0x30

/-- The flags that a list of bytes sets. -/
def flagsIn (bytes : List UInt8) : Flags :=
  { noFlags with
    left := bytes.contains 0x2D
    plus := bytes.contains 0x2B
    space := bytes.contains 0x20
    special := bytes.contains 0x23
    zeropad := bytes.contains 0x30 }

/-- The value of a list of digits. -/
def decimal (digits : List UInt8) : Nat :=
  Numeral.read 10 0 (digits.map fun c => c.toNat - 0x30)

/-- The number at the beginning of a list of bytes. -/
def extent : Cursor → Extent × Cursor
  | [] => (.absent, [])
  | c :: rest =>
      if isDigit c then
        (.fixed (decimal ((c :: rest).takeWhile isDigit)), (c :: rest).dropWhile isDigit)
      else if c = 0x2A then (.argument, rest)
      else (.absent, c :: rest)

/-- A precision without a number is zero. -/
def Extent.orZero : Extent → Extent
  | .absent => .fixed 0
  | extent => extent

/-- The precision at the beginning of a list of bytes.  A star stays where it is and becomes
the conversion character. -/
def precisionOf : Cursor → Extent × Cursor
  | [] => (.absent, [])
  | c :: rest =>
      if c = 0x2E then
        ((extent rest).1.orZero, if rest.head? = some 0x2A then rest else (extent rest).2)
      else
        (.absent, c :: rest)

/-- The directive behind a `%`, and what comes behind it. -/
def readDirective (fmt : Cursor) : Directive × Cursor :=
  let (width, behindWidth) := extent (fmt.dropWhile isFlag)
  let (precision, behindPrecision) := precisionOf behindWidth
  let behind := skipQualifier behindPrecision
  (⟨flagsIn (fmt.takeWhile isFlag), width, precision, behind.head?⟩, behind.tail)

/-- The items of a format, as many as there are rounds for. -/
def itemsWithin : Nat → Cursor → List Item
  | 0, _ => []
  | _ + 1, [] => []
  | rounds + 1, c :: rest =>
      if c = 0x25 then
        let (directive, behind) := readDirective rest
        .directive directive :: itemsWithin rounds behind
      else
        .plain c :: itemsWithin rounds rest

/-- The items of a format. -/
def items (fmt : Cursor) : List Item :=
  itemsWithin fmt.length fmt

/-! ## Printing an item -/

/-- A text in a field that is filled with spaces. -/
def justify (left : Bool) (width : Nat) (text : List UInt8) : List UInt8 :=
  if left then text.rightpad width 0x20 else text.leftpad width 0x20

/-- A number in a field. -/
def numberText (flags : Flags) (base width precision : Nat) (num : Value) : List UInt8 :=
  field flags width (signOf flags num ++ prefixOf flags base)
    ((digitsOf flags base num).leftpad precision 0x30)

/-- A format has a meaning only if its conditions hold. -/
def ensure (condition : Prop) [Decidable condition] : Except Fault Unit :=
  if condition then .ok () else .error .misuse

@[simp] theorem ensure_eq_ok (condition : Prop) [Decidable condition] (result : Unit) :
    ensure condition = .ok result ↔ condition := by
  unfold ensure
  split <;> simp_all

/-- The number that an extent stands for, and the arguments that are left.  It has to be far
below the largest `int`. -/
def Extent.take : Extent → List Arg → Except Fault (Option Int × List Arg)
  | .absent, args => .ok (none, args)
  | .fixed value, args => do
      ensure (value < 2 ^ 30)
      return (some value, args)
  | .argument, args => do
      let (value, args) ← vaWord args
      ensure ((toSigned value).natAbs < 2 ^ 30)
      return (some (toSigned value), args)

/-- The text of a conversion of an argument, in a field.  A pointer fills eight digits when
no width is asked for. -/
def rendered (flags : Flags) (width precision : Option Nat) (args : List Arg) (s : Printed) :
    Kind → Except Fault Printed
  | .character => do
      let (value, args) ← vaWord args
      let text := justify flags.left (width.getD 0) [UInt8.ofNat value]
      return { s with buf := s.buf ++ text, args := args }
  | .string => do
      let (string, args) ← vaString args
      ensure (string.length < 2 ^ 31)
      let text := justify flags.left (width.getD 0) (string.take (precision.getD string.length))
      return { s with buf := s.buf ++ text, args := args }
  | .pointer => do
      let (value, args) ← vaWord args
      let flags := { flags with zeropad := flags.zeropad || width.isNone }
      let text := numberText flags 16 (width.getD 8) (precision.getD 0) (.ofWord value)
      return { s with buf := s.buf ++ text, args := args }
  | .number base sign small => do
      let (value, args) ← vaWord args
      let flags := { flags with sign := sign, small := small }
      let text := numberText flags base (width.getD 0) (precision.getD 0) (.ofWord value)
      return { s with buf := s.buf ++ text, args := args }
  | .count => do
      let (address, args) ← vaPlace args
      let count := s.buf.length % 2 ^ 32
      return { s with counts := s.counts ++ [(address, count)], args := args }
  | .double => do
      let (value, args) ← vaDouble args
      let flags := { flags with sign := true, double := true }
      let text := numberText flags 10 (width.getD 0) (precision.getD 0) value
      return { s with buf := s.buf ++ text, args := args }
  | .mac => do
      let (octets, args) ← vaOctets 6 args
      let flags := { flags with small := true, zeropad := true }
      let texts := octets.map fun octet =>
        numberText flags 16 2 (precision.getD 0) (.ofWord octet.toNat)
      return { s with buf := s.buf ++ [0x3A].intercalate texts, args := args }
  | .ip => do
      let (octets, args) ← vaOctets 4 args
      let flags := { flags with small := true }
      let texts := octets.map fun octet =>
        numberText flags 10 (width.getD 0) (precision.getD 0) (.ofWord octet.toNat)
      return { s with buf := s.buf ++ [0x2E].intercalate texts, args := args }
  | .other => .ok { s with args := args }

/-- The text of the conversion that a character selects.  Without one the percent sign is
printed, and behind it what stands in the place of the character. -/
def converted (flags : Flags) (width precision : Option Nat) (args : List Arg) (s : Printed) :
    Option UInt8 → Except Fault Printed
  | none => .ok { s with buf := s.buf ++ [0x25], args := args }
  | some c =>
      if kindOf c = .other then
        let text := if c = 0x25 then [c] else [0x25, c]
        .ok { s with buf := s.buf ++ text, args := args }
      else
        rendered flags width precision args s (kindOf c)

/-- What an item prints. -/
def Item.print (s : Printed) : Item → Except Fault Printed
  | .plain byte => .ok { s with buf := s.buf ++ [byte] }
  | .directive d => do
      let (width, args) ← d.width.take s.args
      let flags := { d.flags with left := d.flags.left || width.any (· < 0) }
      let (precision, args) ← d.precision.take args
      converted flags (width.map Int.natAbs) (precision.map Int.toNat) args s d.conversion

/-- What a format prints. -/
def denote (fmt : Cursor) (args : List Arg) : Except Fault Printed :=
  (items fmt).foldlM Item.print ⟨[], [], args⟩

/-! ## The interpreter -/

/-- A number as the interpreter keeps it: -1 when it is absent. -/
def encoded : Option Nat → Int
  | none => -1
  | some number => number

@[simp] theorem encoded_none : encoded none = -1 := rfl

@[simp] theorem encoded_some (number : Nat) : encoded (some number) = number := rfl

@[simp] theorem encoded_toNat (number : Option Nat) : (encoded number).toNat = number.getD 0 := by
  cases number <;> rfl

section Reading

/-- The loop over the flags sets those that it moves over. -/
theorem scanFlags_eq (fmt : Cursor) (flags : Flags) :
    scanFlags fmt flags =
      ({ flags with
          left := flags.left || (fmt.takeWhile isFlag).contains 0x2D
          plus := flags.plus || (fmt.takeWhile isFlag).contains 0x2B
          space := flags.space || (fmt.takeWhile isFlag).contains 0x20
          special := flags.special || (fmt.takeWhile isFlag).contains 0x23
          zeropad := flags.zeropad || (fmt.takeWhile isFlag).contains 0x30 },
        fmt.dropWhile isFlag) := by
  induction fmt generalizing flags with
  | nil => simp [scanFlags]
  | cons c rest inductionHypothesis =>
      rw [scanFlags]
      by_cases isLeft : c = 0x2D
      · subst isLeft
        simp [inductionHypothesis, isFlag]
      by_cases isPlus : c = 0x2B
      · subst isPlus
        simp [inductionHypothesis, isFlag]
      by_cases isSpace : c = 0x20
      · subst isSpace
        simp [inductionHypothesis, isFlag]
      by_cases isSpecial : c = 0x23
      · subst isSpecial
        simp [inductionHypothesis, isFlag]
      by_cases isZero : c = 0x30
      · subst isZero
        simp [inductionHypothesis, isFlag]
      · simp [isLeft, isPlus, isSpace, isSpecial, isZero, isFlag]

/-- `skip_atoi` reads the digits that it moves over, modulo the size of a word. -/
theorem skipAtoi_eq (fmt : Cursor) {i : Nat} (isWord : i < 2 ^ 32) :
    skipAtoi fmt i =
      (Numeral.read 10 i ((fmt.takeWhile isDigit).map fun c => c.toNat - 0x30) % 2 ^ 32,
        fmt.dropWhile isDigit) := by
  induction fmt generalizing i with
  | nil => exact congrArg (·, _) (Nat.mod_eq_of_lt isWord).symm
  | cons c rest inductionHypothesis =>
      rw [skipAtoi]
      by_cases digit : isDigit c
      · rw [if_pos digit, inductionHypothesis (Nat.mod_lt _ (by decide)), Numeral.read_mod,
          List.takeWhile_cons_of_pos digit, List.dropWhile_cons_of_pos digit, List.map_cons,
          Numeral.read_cons]
      · rw [if_neg digit, List.takeWhile_cons_of_neg digit, List.dropWhile_cons_of_neg digit]
        exact congrArg (·, _) (Nat.mod_eq_of_lt isWord).symm

/-- A small number in a format is what its digits say. -/
theorem skipAtoi_small {fmt : Cursor} (small : decimal (fmt.takeWhile isDigit) < 2 ^ 30) :
    ∃ word, skipAtoi fmt 0 = (word, fmt.dropWhile isDigit) ∧
      toSigned word = decimal (fmt.takeWhile isDigit) := by
  refine ⟨_, skipAtoi_eq fmt (by decide), ?_⟩
  change toSigned (decimal (fmt.takeWhile isDigit) % 2 ^ 32) = _
  rw [Nat.mod_eq_of_lt (Nat.lt_trans small (by decide)),
    toSigned_of_lt (Nat.lt_trans small (by decide))]

/-- A number in a format is not negative. -/
theorem natCast_not_neg (number : Nat) : ¬(number : Int) < 0 :=
  Int.not_lt.mpr (Int.natCast_nonneg number)

theorem Extent.take_fixed {value : Nat} {result : Option Int × List Arg} :
    (fixed value).take args = .ok result ↔
      value < 2 ^ 30 ∧ (some (value : Int), args) = result := by
  simp [Extent.take]

theorem Extent.take_argument {result : Option Int × List Arg} :
    argument.take args = .ok result ↔ ∃ value left, vaWord args = .ok (value, left) ∧
      (toSigned value).natAbs < 2 ^ 30 ∧ (some (toSigned value), left) = result := by
  simp [Extent.take]

/-- `field_width` is -1 when no width is asked for.  A negative argument asks for the text to
stand on the left. -/
theorem scanWidth_eq (scan : Scan) {width : Option Int}
    (taken : (extent scan.fmt).1.take scan.args = .ok (width, args)) :
    scanWidth scan = .ok { scan with
        fmt := (extent scan.fmt).2
        flags := { scan.flags with left := scan.flags.left || width.any (· < 0) }
        fieldWidth := encoded (width.map Int.natAbs)
        args := args } := by
  obtain ⟨fmt, flags, fieldWidth, precision, before⟩ := scan
  cases fmt with
  | nil =>
      cases taken
      simp [scanWidth, extent]
  | cons c rest =>
      by_cases digit : isDigit c
      · rw [extent, if_pos digit] at taken
        obtain ⟨small, returned⟩ := Extent.take_fixed.mp taken
        obtain ⟨word, skipped, value⟩ := skipAtoi_small small
        cases returned
        simp [scanWidth, extent, digit, skipped, value, natCast_not_neg]
      by_cases star : c = 0x2A
      · subst star
        obtain ⟨value, left, isWord, small, returned⟩ := Extent.take_argument.mp taken
        cases returned
        by_cases negative : toSigned value < 0
        · have same : int (-toSigned value) = -toSigned value := int_eq (by omega) (by omega)
          simp [scanWidth, extent, digit, isWord, negative, same, abs_of_neg negative]
        · have abs := abs_of_nonneg (not_lt.mp negative)
          simp [scanWidth, extent, digit, isWord, negative, abs]
      · rw [extent, if_neg digit, if_neg star] at taken
        cases taken
        simp [scanWidth, extent, digit, star]

/-- The number behind a point, with what comes behind it. -/
theorem scanDigits_eq (scan : Scan)
    (taken : (extent scan.fmt).1.orZero.take scan.args = .ok (precision, args)) :
    ∃ value, scanDigits scan = .ok { scan with
        fmt := if scan.fmt.head? = some 0x2A then scan.fmt else (extent scan.fmt).2
        precision := value
        args := args } ∧ encoded (precision.map Int.toNat) = max value 0 := by
  obtain ⟨fmt, flags, fieldWidth, unset, before⟩ := scan
  cases fmt with
  | nil =>
      obtain ⟨_, returned⟩ := Extent.take_fixed.mp taken
      cases returned
      exact ⟨-1, rfl, by decide⟩
  | cons c rest =>
      by_cases digit : isDigit c
      · have noStar : c ≠ 0x2A := by rintro rfl; exact absurd digit (by decide)
        rw [extent, if_pos digit] at taken
        obtain ⟨small, returned⟩ := Extent.take_fixed.mp taken
        obtain ⟨word, skipped, value⟩ := skipAtoi_small small
        cases returned
        exact ⟨toSigned word, by simp [scanDigits, extent, digit, skipped, noStar],
          by simp [value]⟩
      by_cases star : c = 0x2A
      · subst star
        obtain ⟨value, left, isWord, small, returned⟩ := Extent.take_argument.mp taken
        cases returned
        exact ⟨toSigned value, by simp [scanDigits, digit, isWord], by simp⟩
      · rw [extent, if_neg digit, if_neg star] at taken
        obtain ⟨_, returned⟩ := Extent.take_fixed.mp taken
        cases returned
        exact ⟨-1, by simp [scanDigits, extent, digit, star], by decide⟩

/-- `precision` is -1 when none is asked for, and 0 when the number behind the point is
missing or negative. -/
theorem scanPrecision_eq (scan : Scan)
    (taken : (precisionOf scan.fmt).1.take scan.args = .ok (precision, args)) :
    scanPrecision scan = .ok { scan with
        fmt := (precisionOf scan.fmt).2
        precision := encoded (precision.map Int.toNat)
        args := args } := by
  obtain ⟨fmt, flags, fieldWidth, unset, before⟩ := scan
  cases fmt with
  | nil =>
      cases taken
      simp [scanPrecision, precisionOf]
  | cons c rest =>
      by_cases isPoint : c = 0x2E
      · subst isPoint
        obtain ⟨value, scanned, isValue⟩ :=
          scanDigits_eq ⟨rest, flags, fieldWidth, unset, before⟩ taken
        simp only [scanPrecision, precisionOf, if_true, scanned, ok_bind, isValue]
        split
        · rw [max_eq_right (by omega)]
          rfl
        · rw [max_eq_left (by omega)]
          rfl
      · rw [precisionOf, if_neg isPoint] at taken
        cases taken
        simp [scanPrecision, precisionOf, isPoint]

end Reading

section Storing

variable {flags : Flags}

/-- The loops of `%c` put the character into a field. -/
theorem storeCharacter_eq (flags : Flags) {fieldWidth precision : Int}
    (moderate : Moderate fieldWidth precision) (byte : UInt8) :
    storeCharacter flags fieldWidth byte = justify flags.left fieldWidth.toNat [byte] := by
  obtain ⟨above, below, _⟩ := moderate
  have first : int (fieldWidth - 1) = fieldWidth - 1 := int_eq (by omega) (by omega)
  unfold storeCharacter justify
  cases flags.left with
  | true => simp [fillBelow, List.rightpad, first]
  | false =>
      have second : int (min (fieldWidth - 1) 0 - 1) = min (fieldWidth - 1) 0 - 1 :=
        int_eq (by omega) (by omega)
      simp [fillBelow, List.leftpad, first, second]

/-- The loops of `%s` put the beginning of the string into a field. -/
theorem storeString_eq (flags : Flags) {fieldWidth : Int} {precision : Option Nat}
    (moderate : Moderate fieldWidth (encoded precision)) {s : Cursor} (short : s.length < 2 ^ 31) :
    storeString flags fieldWidth (encoded precision) s =
      justify flags.left fieldWidth.toNat (s.take (precision.getD s.length)) := by
  obtain ⟨above, below, _⟩ := moderate
  have length : (s.take (precision.getD s.length)).length =
      (if encoded precision < 0 then (s.length : Int)
        else min s.length (encoded precision)) := by
    cases precision with
    | none => simp
    | some count =>
        simp [natCast_not_neg]
        omega
  have text : s.take (precision.getD s.length) =
      s.take (s.take (precision.getD s.length)).length := by
    rw [List.length_take, List.take_eq_take_iff]
    omega
  unfold storeString justify
  dsimp only
  rw [int_eq (by omega) (by omega), ← length, Int.toNat_natCast, ← text]
  generalize s.take (precision.getD s.length) = shown
  cases flags.left with
  | true =>
      simp [fillAbove, List.rightpad]
  | false =>
      have left : int (min fieldWidth shown.length - 1) = min fieldWidth shown.length - 1 :=
        int_eq (by omega) (by omega)
      have none : (min fieldWidth shown.length - 1 - shown.length : Int).toNat = 0 := by omega
      simp [fillAbove, List.leftpad, left, none]

theorem storeNumber_eq (flags : Flags) (base : Nat) (large : 1 < base) (atMost : base ≤ 36)
    {num : Value} (words : num.Words) {size precision : Int} (moderate : Moderate size precision) :
    storeNumber num base size precision flags =
      .ok (numberText flags base size.toNat precision.toNat num) := by
  unfold storeNumber
  rw [number_eq large atMost words moderate]
  rfl

/-- Texts with a separator behind each, but without the last one. -/
theorem flatMap_dropLast (separator : UInt8) (texts : List (List UInt8)) :
    (texts.flatMap (· ++ [separator])).dropLast = [separator].intercalate texts := by
  induction texts with
  | nil => rfl
  | cons text texts inductionHypothesis =>
      by_cases last : texts = []
      · simp [last]
      · rw [List.intercalate_cons_of_ne_nil last, ← inductionHypothesis, List.flatMap_cons,
          List.dropLast_append_of_ne_nil]
        simpa using List.exists_mem_of_ne_nil texts last

/-- The loop of `%m` and `%r` puts a separator between the numbers. -/
theorem storeOctets_eq (base : Nat) (large : 1 < base) (atMost : base ≤ 36)
    {size precision : Int} (moderate : Moderate size precision) (separator : UInt8)
    (octets : List UInt8) :
    storeOctets base size precision flags separator octets =
      .ok ([separator].intercalate (octets.map fun octet =>
        numberText flags base size.toNat precision.toNat (.ofWord octet.toNat))) := by
  have words (octet : UInt8) : (Value.ofWord octet.toNat).Words :=
    Value.ofWord_words (Nat.lt_trans octet.toNat_lt (by decide))
  have loop (stored : List UInt8) : octets.foldlM (fun stored octet => do
      let bytes ← storeNumber (.ofWord octet.toNat) base size precision flags
      return stored ++ bytes ++ [separator]) stored =
      (.ok (stored ++ (octets.map fun octet => numberText flags base size.toNat precision.toNat
        (.ofWord octet.toNat)).flatMap (· ++ [separator])) : Except Fault (List UInt8)) := by
    induction octets generalizing stored with
    | nil => simp
    | cons octet octets inductionHypothesis =>
        rw [List.foldlM_cons, storeNumber_eq _ base large atMost (words octet) moderate, ok_bind,
          pure_eq_ok, ok_bind, inductionHypothesis]
        simp
  unfold storeOctets
  rw [loop, ok_bind, List.nil_append, flatMap_dropLast]
  rfl

end Storing

/-- A conversion asks for a base that has digits. -/
def Kind.HasDigits : Kind → Prop
  | .number base _ _ => 1 < base ∧ base ≤ 36
  | _ => True

instance (kind : Kind) : Decidable kind.HasDigits := by
  cases kind <;> unfold Kind.HasDigits <;> infer_instance

theorem Kind.HasDigits.ite {condition : Prop} [Decidable condition] {kind rest : Kind}
    (has : kind.HasDigits) (restHas : rest.HasDigits) :
    (if condition then kind else rest).HasDigits := by
  split
  · exact has
  · exact restHas

/-- Every conversion of the switch asks for a base that has digits. -/
theorem kindOf_hasDigits (c : UInt8) : (kindOf c).HasDigits := by
  unfold kindOf
  repeat' apply Kind.HasDigits.ite
  all_goals decide

theorem words_of_vaWord {value : Nat} (taken : vaWord args = .ok (value, left)) :
    (Value.ofWord value).Words := by
  unfold vaWord at taken
  split at taken
  · cases taken
    exact Value.ofWord_words (Nat.mod_lt _ (by decide))
  · cases taken

theorem words_of_vaDouble {value : Value} (taken : vaDouble args = .ok (value, left)) :
    value.Words := by
  unfold vaDouble at taken
  split at taken
  · cases taken
    exact ⟨Nat.mod_lt _ (by decide), Nat.mod_lt _ (by decide), Nat.mod_lt _ (by decide)⟩
  · cases taken

/-- The switch prints the text of the conversion. -/
theorem convert_eq {flags : Flags} (unsigned : flags.sign = false) (large : flags.small = false)
    {width precision : Option Nat} (moderate : Moderate (encoded width) (encoded precision))
    {fmt : Cursor} (meaning : converted flags width precision args s fmt.head? = .ok after) :
    convert ⟨fmt, flags, encoded width, encoded precision, args⟩ s = .ok (fmt.tail, after) := by
  have precise := moderate.precise
  cases fmt with
  | nil =>
      cases meaning
      rfl
  | cons c rest =>
      simp only [List.head?_cons, converted] at meaning
      cases kind : kindOf c with
      | other =>
          rw [kind, if_pos rfl] at meaning
          cases meaning
          simp [convert, kind]
      | character =>
          simp [kind, rendered] at meaning
          obtain ⟨value, left, taken, rfl⟩ := meaning
          simp [convert, kind, taken, storeCharacter_eq flags moderate]
      | string =>
          simp [kind, rendered] at meaning
          obtain ⟨string, left, taken, short, rfl⟩ := meaning
          simp [convert, kind, taken, storeString_eq flags moderate short]
      | pointer =>
          simp [kind, rendered] at meaning
          obtain ⟨value, left, taken, rfl⟩ := meaning
          have words := words_of_vaWord taken
          cases width with
          | none =>
              have eight : Moderate 8 (encoded precision) := ⟨by decide, by decide, precise⟩
              simp [convert, kind, taken, storeNumber_eq _ 16 (by decide) (by decide) words eight]
          | some width =>
              have other : ¬(width : Int) = -1 := by omega
              have stored := storeNumber_eq flags 16 (by decide) (by decide) words moderate
              rw [encoded_some] at stored
              simp [convert, kind, taken, other, stored]
      | number base sign small =>
          have hasDigits := kindOf_hasDigits c
          rw [kind] at hasDigits
          obtain ⟨two, atMost⟩ := hasDigits
          simp [kind, rendered] at meaning
          obtain ⟨value, left, taken, rfl⟩ := meaning
          simp [convert, kind, taken, unsigned, large,
            storeNumber_eq _ base two atMost (words_of_vaWord taken) moderate]
      | count =>
          simp [kind, rendered] at meaning
          obtain ⟨address, left, taken, rfl⟩ := meaning
          simp [convert, kind, taken]
      | double =>
          simp [kind, rendered] at meaning
          obtain ⟨value, left, taken, rfl⟩ := meaning
          simp [convert, kind, taken,
            storeNumber_eq _ 10 (by decide) (by decide) (words_of_vaDouble taken) moderate]
      | mac =>
          have two : Moderate 2 (encoded precision) := ⟨by decide, by decide, precise⟩
          simp [kind, rendered] at meaning
          obtain ⟨octets, left, taken, rfl⟩ := meaning
          simp [convert, kind, taken, storeOctets_eq 16 (by decide) (by decide) two]
      | ip =>
          simp [kind, rendered] at meaning
          obtain ⟨octets, left, taken, rfl⟩ := meaning
          simp [convert, kind, taken, storeOctets_eq 10 (by decide) (by decide) moderate]

theorem Extent.take_small {extent : Extent} {value : Option Int}
    (taken : extent.take args = .ok (value, left)) : ∀ number ∈ value, number.natAbs < 2 ^ 30 := by
  intro number isValue
  cases extent with
  | absent =>
      cases taken
      cases isValue
  | fixed =>
      obtain ⟨small, returned⟩ := Extent.take_fixed.mp taken
      cases returned
      cases isValue
      exact small
  | argument =>
      obtain ⟨_, _, _, small, returned⟩ := Extent.take_argument.mp taken
      cases returned
      cases isValue
      exact small

/-- The numbers of a directive are small enough to compute with. -/
theorem moderate_encoded {width : Option Int}
    (smallWidth : ∀ number ∈ width, number.natAbs < 2 ^ 30)
    (smallPrecision : ∀ number ∈ precision, number.natAbs < 2 ^ 30) :
    Moderate (encoded (width.map Int.natAbs)) (encoded (precision.map Int.toNat)) := by
  have precise : encoded (precision.map Int.toNat) < 2 ^ 30 := by
    cases precision with
    | none => decide
    | some number =>
        have small := smallPrecision number rfl
        simp
        omega
  cases width with
  | none => exact ⟨by decide, by decide, precise⟩
  | some number =>
      have small := smallWidth number rfl
      refine ⟨?_, ?_, precise⟩ <;> simp only [Option.map_some, encoded_some] <;> omega

/-- What is done for a `%` is what the directive behind it prints. -/
theorem directive_eq {fmt : Cursor}
    (meaning : (Item.directive (readDirective fmt).1).print s = .ok after) :
    directive fmt s = .ok ((readDirective fmt).2, after) := by
  obtain ⟨⟨width, args⟩, widthTaken, meaning⟩ := (bind_eq_ok _ _ _).mp meaning
  obtain ⟨⟨precision, left⟩, precisionTaken, meaning⟩ := (bind_eq_ok _ _ _).mp meaning
  have moderate := moderate_encoded (Extent.take_small widthTaken)
    (Extent.take_small precisionTaken)
  unfold directive
  rw [scanFlags_eq]
  dsimp only
  rw [scanWidth_eq ⟨fmt.dropWhile isFlag, _, _, _, s.args⟩ widthTaken, ok_bind,
    scanPrecision_eq ⟨(extent (fmt.dropWhile isFlag)).2, _, _, _, args⟩ precisionTaken, ok_bind]
  exact convert_eq rfl rfl moderate meaning

theorem extent_length (fmt : Cursor) : (extent fmt).2.length ≤ fmt.length := by
  cases fmt with
  | nil => exact Nat.le_refl _
  | cons c rest =>
      rw [extent]
      split
      · exact (List.dropWhile_sublist _).length_le
      · split
        · exact Nat.le_succ _
        · exact Nat.le_refl _

theorem precisionOf_length (fmt : Cursor) : (precisionOf fmt).2.length ≤ fmt.length := by
  cases fmt with
  | nil => exact Nat.le_refl _
  | cons c rest =>
      rw [precisionOf]
      split
      · dsimp only
        split
        · exact Nat.le_succ _
        · exact Nat.le_succ_of_le (extent_length rest)
      · exact Nat.le_refl _

theorem skipQualifier_length (fmt : Cursor) : (skipQualifier fmt).length ≤ fmt.length := by
  cases fmt with
  | nil => exact Nat.le_refl _
  | cons c rest =>
      rw [skipQualifier]
      split
      · exact Nat.le_succ _
      · exact Nat.le_refl _

/-- A directive ends inside the format. -/
theorem readDirective_length (fmt : Cursor) : (readDirective fmt).2.length ≤ fmt.length := by
  unfold readDirective
  dsimp only
  rw [List.length_tail]
  calc (skipQualifier (precisionOf (extent (fmt.dropWhile isFlag)).2).2).length - 1
      ≤ (skipQualifier (precisionOf (extent (fmt.dropWhile isFlag)).2).2).length := Nat.sub_le _ _
    _ ≤ (precisionOf (extent (fmt.dropWhile isFlag)).2).2.length := skipQualifier_length _
    _ ≤ (extent (fmt.dropWhile isFlag)).2.length := precisionOf_length _
    _ ≤ (fmt.dropWhile isFlag).length := extent_length _
    _ ≤ fmt.length := (List.dropWhile_sublist _).length_le

theorem formatLoop_eq {rounds : Nat} {fmt : Cursor} (enough : fmt.length < rounds)
    (meaning : (itemsWithin rounds fmt).foldlM Item.print s = .ok after) :
    formatLoop rounds fmt s = .ok after := by
  induction rounds generalizing fmt s with
  | zero => omega
  | succ rounds inductionHypothesis =>
      cases fmt with
      | nil => exact meaning
      | cons c rest =>
          rw [List.length_cons] at enough
          rw [formatLoop]
          rw [itemsWithin] at meaning
          by_cases isPercent : c = 0x25
          · have shorter := readDirective_length rest
            rw [if_pos isPercent, List.foldlM_cons] at meaning
            obtain ⟨middle, printed, meaning⟩ := (bind_eq_ok _ _ _).mp meaning
            rw [if_neg (not_not.mpr isPercent), directive_eq printed, ok_bind]
            exact inductionHypothesis (by omega) meaning
          · rw [if_neg isPercent, List.foldlM_cons] at meaning
            rw [if_pos isPercent]
            exact inductionHypothesis (by omega) meaning

/-- Rounds enough for all bytes of a format give the same items. -/
theorem itemsWithin_eq {rounds others : Nat} {fmt : Cursor} (enough : fmt.length ≤ rounds)
    (otherEnough : fmt.length ≤ others) : itemsWithin rounds fmt = itemsWithin others fmt := by
  induction rounds generalizing others fmt with
  | zero =>
      rw [List.eq_nil_of_length_eq_zero (Nat.le_zero.mp enough)]
      cases others <;> rfl
  | succ rounds inductionHypothesis =>
      cases fmt with
      | nil => cases others <;> rfl
      | cons c rest =>
          rw [List.length_cons] at enough otherEnough
          cases others with
          | zero => omega
          | succ others =>
              have shorter := readDirective_length rest
              rw [itemsWithin, itemsWithin]
              split
              · dsimp only
                rw [@inductionHypothesis others _ (by omega) (by omega)]
              · rw [@inductionHypothesis others _ (by omega) (by omega)]

/-- The loop ends with what the items print. -/
theorem formatLoop_of_denote {fmt : Cursor} {args : List Arg} {s : Printed}
    (meaning : denote fmt args = .ok s) :
    formatLoop (fmt.length + 1) fmt ⟨[], [], args⟩ = .ok s := by
  unfold denote items at meaning
  rw [itemsWithin_eq (Nat.le_refl _) (Nat.le_succ _)] at meaning
  exact formatLoop_eq (Nat.lt_succ_self _) meaning

end Format
end LightOS
