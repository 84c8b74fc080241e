import LightOS.Format.Directives

/-!
# Reading printed numbers back

The digits that `number` stores have the value of the number, in every base, and `atoi` of
`lib/stdlib.c` reads every printed integer back.
-/

namespace LightOS
namespace Format

variable {rest digits : List UInt8} {num : Nat}

/-- The value of a digit. -/
def digitValue (c : UInt8) : Nat :=
  if c < 0x3A then c.toNat - 0x30 else if c < 0x5B then c.toNat - 55 else c.toNat - 87

variable {flags : Flags} {base : Nat} {small : Bool}

theorem digitValue_digit {index : Nat} (isIndex : index < 36) :
    digitValue (digit small index) = index := by
  have table : ∀ small : Bool, ∀ index < 36, digitValue (digit small index) = index := by
    decide
  exact table small index isIndex

/-- Digits of a number, with zeros in front, have its value. -/
theorem read_leftpad (large : 1 < base) (atMost : base ≤ 36) (width number : Nat) :
    Numeral.read base 0 ((((Numeral.digits base number).map (digit small)).leftpad width
      0x30).map digitValue) = number := by
  have values : ((Numeral.digits base number).map (digit small)).map digitValue =
      Numeral.digits base number := by
    rw [List.map_map]
    conv_rhs => rw [← List.map_id (Numeral.digits base number)]
    apply List.map_congr_left
    intro index isDigit
    exact digitValue_digit (Nat.lt_of_lt_of_le (Numeral.digit_lt large isDigit) atMost)
  rw [List.leftpad, List.map_append, List.map_replicate, values]
  exact (Numeral.read_zeros base _ _).trans (Numeral.read_digits base number)

theorem field_length (flags : Flags) (width : Nat) (front digits : List UInt8) :
    (field flags width front digits).length = max width (front.length + digits.length) := by
  unfold field
  split
  · rw [List.length_rightpad, List.length_append]
  · split
    · rw [List.length_append, List.length_leftpad]
      omega
    · rw [List.length_leftpad, List.length_append]

/-- The loop of `atoi` over the digits, with the result so far. -/
def atoiLoop : Cursor → Nat → Nat
  | [], result => result
  | c :: rest, result =>
      if isDigit c then atoiLoop rest ((result * 10 + (c.toNat - 0x30)) % 2 ^ 32) else result

/-- `atoi`. -/
def atoi (str : Cursor) : Nat :=
  match str.dropWhile (· = 0x20) with
  | [] => 0
  | c :: rest =>
      if c = 0x2D then sub32 0 (atoiLoop rest 0)
      else if c = 0x2B then atoiLoop rest 0
      else atoiLoop (c :: rest) 0

/-- A digit of a decimal number. -/
def Decimal (digits : List UInt8) : Prop :=
  ∀ c ∈ digits, isDigit c = true

/-- The loop reads the digits up to the first byte that is none, modulo the size of a word. -/
theorem atoiLoop_eq (areDigits : Decimal digits) (ends : ∀ c ∈ rest.head?, isDigit c = false)
    {result : Nat} (isWord : result < 2 ^ 32) :
    atoiLoop (digits ++ rest) result =
      Numeral.read 10 result (digits.map fun c => c.toNat - 0x30) % 2 ^ 32 := by
  induction digits generalizing result with
  | nil =>
      cases rest with
      | nil => exact (Nat.mod_eq_of_lt isWord).symm
      | cons c rest =>
          rw [List.nil_append, atoiLoop, ends c rfl]
          exact (Nat.mod_eq_of_lt isWord).symm
  | cons c digits inductionHypothesis =>
      have first := areDigits c List.mem_cons_self
      rw [List.cons_append, atoiLoop, if_pos first,
        inductionHypothesis (fun other present => areDigits other (.tail _ present))
          (Nat.mod_lt _ (by decide)), Numeral.read_mod, List.map_cons, Numeral.read_cons]

theorem isDigit_eq_true {c : UInt8} : isDigit c = true ↔ 0x30 ≤ c ∧ c ≤ 0x39 := by
  simp [isDigit]

/-- Spaces in front do not count. -/
theorem atoi_spaces (spaces : Nat) (text : Cursor) :
    atoi (List.replicate spaces 0x20 ++ text) = atoi text := by
  have skipped : (List.replicate spaces 0x20 ++ text).dropWhile (· = 0x20) =
      text.dropWhile (· = 0x20) :=
    List.dropWhile_append_of_pos fun c present => decide_eq_true (List.eq_of_mem_replicate present)
  unfold atoi
  rw [skipped]

/-- `atoi` reads a text of a sign and digits, up to the first byte that is no digit. -/
theorem atoi_eq {sign : List UInt8} (isSign : sign = [] ∨ sign = [0x2B] ∨ sign = [0x2D])
    (areDigits : Decimal digits) (some : digits ≠ []) (ends : ∀ c ∈ rest.head?, isDigit c = false) :
    atoi (sign ++ digits ++ rest) =
      if sign = [0x2D] then
        sub32 0 (Numeral.read 10 0 (digits.map fun c => c.toNat - 0x30) % 2 ^ 32)
      else Numeral.read 10 0 (digits.map fun c => c.toNat - 0x30) % 2 ^ 32 := by
  have loop := atoiLoop_eq areDigits ends (show 0 < 2 ^ 32 by decide)
  rcases isSign with rfl | rfl | rfl
  · cases digits with
    | nil => exact absurd rfl some
    | cons c digits =>
        have first := isDigit_eq_true.mp (areDigits c List.mem_cons_self)
        have notSpace : c ≠ 0x20 := by rintro rfl; exact absurd first.1 (by decide)
        have notMinus : c ≠ 0x2D := by rintro rfl; exact absurd first.1 (by decide)
        have notPlus : c ≠ 0x2B := by rintro rfl; exact absurd first.1 (by decide)
        rw [if_neg (by simp), ← loop]
        simp [atoi, notSpace, notMinus, notPlus]
  · rw [if_neg (by decide), ← loop]
    simp [atoi]
  · rw [if_pos rfl, ← loop]
    simp [atoi]

/-- The sign that `number` stores is one that `atoi` reads. -/
theorem atoi_signOf (num : Nat) (areDigits : Decimal digits) (some : digits ≠ [])
    (ends : ∀ c ∈ rest.head?, isDigit c = false) :
    atoi (signOf flags (.ofWord num) ++ digits ++ rest) =
      if isNegative flags (.ofWord num) then
        sub32 0 (Numeral.read 10 0 (digits.map fun c => c.toNat - 0x30) % 2 ^ 32)
      else Numeral.read 10 0 (digits.map fun c => c.toNat - 0x30) % 2 ^ 32 := by
  unfold signOf
  split
  · exact atoi_eq (.inr (.inr rfl)) areDigits some ends
  · split
    · exact atoi_eq (.inr (.inl rfl)) areDigits some ends
    · split
      · rw [List.append_assoc]
        exact (atoi_spaces 1 _).trans (atoi_eq (.inl rfl) areDigits some ends)
      · exact atoi_eq (.inl rfl) areDigits some ends

/-- The bytes of a decimal number are digits. -/
theorem decimal_leftpad (small : Bool) (width number : Nat) :
    Decimal (((Numeral.digits 10 number).map (digit small)).leftpad width 0x30) := by
  have table : ∀ small : Bool, ∀ index < 10, isDigit (digit small index) = true := by decide
  intro c present
  rw [List.leftpad, List.mem_append, List.mem_replicate, List.mem_map] at present
  rcases present with ⟨_, rfl⟩ | ⟨index, isIndex, rfl⟩
  · decide
  · exact table small index (Numeral.digit_lt (by decide) isIndex)

theorem digitValue_eq (areDigits : Decimal digits) :
    (digits.map fun c => c.toNat - 0x30) = digits.map digitValue := by
  apply List.map_congr_left
  intro c present
  have bound := (isDigit_eq_true.mp (areDigits c present)).2
  have below : c < 0x3A := UInt8.lt_of_le_of_lt bound (by decide)
  rw [digitValue, if_pos below]

/-- What is read for a number is the number, also for a negative one. -/
theorem negated_magnitude (isInteger : flags.double = false) (isWord : num < 2 ^ 32) :
    (if isNegative flags (.ofWord num) then sub32 0 (magnitude flags (.ofWord num) % 2 ^ 32)
      else magnitude flags (.ofWord num) % 2 ^ 32) = num := by
  unfold magnitude
  split
  · rename_i negative
    unfold isNegative at negative
    rw [isInteger, if_neg Bool.false_ne_true, Bool.and_eq_true, decide_eq_true_eq] at negative
    have isSigned : toSigned num < 0 := negative.2
    change sub32 0 (toUnsigned (-toSigned num) % 2 ^ 32) = num
    unfold toSigned at isSigned
    unfold toUnsigned toSigned sub32
    split at isSigned
    · omega
    · split <;> split <;> omega
  · exact Nat.mod_eq_of_lt isWord

/-- `atoi` reads the sign and the digits of a number, with any zeros in front. -/
theorem atoi_digitsOf (isWord : num < 2 ^ 32) {flags : Flags} (isInteger : flags.double = false)
    (zeros : Nat) (ends : ∀ c ∈ rest.head?, isDigit c = false) :
    atoi (signOf flags (.ofWord num) ++ (digitsOf flags 10 (.ofWord num)).leftpad zeros 0x30 ++
      rest) = num := by
  have decimal := decimal_leftpad flags.small zeros (magnitude flags (.ofWord num))
  have some : ((Numeral.digits 10 (magnitude flags (.ofWord num))).map
      (digit flags.small)).leftpad zeros 0x30 ≠ [] := by
    simp [List.leftpad, Numeral.digits_ne_nil]
  rw [digitsOf, if_neg (by rw [isInteger]; nofun), atoi_signOf num decimal some ends,
    digitValue_eq decimal, read_leftpad (by decide) (by decide)]
  exact negated_magnitude isInteger isWord

theorem leftpad_leftpad (outer inner : Nat) (byte : UInt8) (text : List UInt8) :
    (text.leftpad inner byte).leftpad outer byte = text.leftpad (max outer inner) byte := by
  rw [List.leftpad, List.leftpad, List.leftpad, ← List.append_assoc,
    List.replicate_append_replicate, List.length_append, List.length_replicate]
  congr 2
  omega

/-- Spaces are no digits. -/
theorem head_spaces (count : Nat) (ends : ∀ c ∈ rest.head?, isDigit c = false) :
    ∀ c ∈ (List.replicate count 0x20 ++ rest).head?, isDigit c = false := by
  cases count with
  | zero => exact ends
  | succ count =>
      intro c isFirst
      cases isFirst
      rfl

/-- `atoi` reads back every word that is printed in base 10: with any flags, in any field
and with any precision, if no digit comes behind it. -/
theorem atoi_numberText (isWord : num < 2 ^ 32) {flags : Flags} (isInteger : flags.double = false)
    (width precision : Nat) (ends : ∀ c ∈ rest.head?, isDigit c = false) :
    atoi (numberText flags 10 width precision (.ofWord num) ++ rest) = num := by
  have noPrefix : prefixOf flags 10 = [] := by
    unfold prefixOf
    split <;> rfl
  unfold numberText field
  rw [noPrefix, List.append_nil]
  split
  · rw [List.rightpad, List.append_assoc]
    exact atoi_digitsOf isWord isInteger precision (head_spaces _ ends)
  · split
    · rw [leftpad_leftpad]
      exact atoi_digitsOf isWord isInteger _ ends
    · rw [List.leftpad, List.append_assoc, atoi_spaces]
      exact atoi_digitsOf isWord isInteger precision ends

/-- The conversion prints an integer in base 10. -/
def Directive.IsInteger (d : Directive) : Prop :=
  d.conversion = some 0x64 ∨ d.conversion = some 0x69 ∨ d.conversion = some 0x75

instance (d : Directive) : Decidable d.IsInteger :=
  inferInstanceAs (Decidable (_ ∨ _ ∨ _))

theorem kindOf_integer {c : UInt8} (isInteger : c = 0x64 ∨ c = 0x69 ∨ c = 0x75) :
    ∃ sign, kindOf c = .number 10 sign false := by
  rcases isInteger with rfl | rfl | rfl
  · exact ⟨true, by decide⟩
  · exact ⟨true, by decide⟩
  · exact ⟨false, by decide⟩

/-- An integer is taken from an argument that is one. -/
theorem vaWord_eq_ok {args left : List Arg} {value : Nat} :
    vaWord args = .ok (value, left) ↔ ∃ number, args = .word number :: left ∧
      value = number % 2 ^ 32 := by
  unfold vaWord
  constructor
  · intro taken
    split at taken
    · rename_i number rest
      cases taken
      exact ⟨number, rfl, rfl⟩
    · cases taken
  · rintro ⟨number, rfl, rfl⟩
    rfl

/-- A number in a directive takes an argument only if it is one. -/
theorem Extent.take_eq {extent : Extent} {args left : List Arg} {value : Option Int}
    (taken : extent.take args = .ok (value, left)) :
    ∃ used, args = used ++ left ∧ used.length ≤ 1 := by
  cases extent with
  | absent =>
      cases taken
      exact ⟨[], rfl, Nat.zero_le _⟩
  | fixed number =>
      obtain ⟨_, returned⟩ := Extent.take_fixed.mp taken
      cases returned
      exact ⟨[], rfl, Nat.zero_le _⟩
  | argument =>
      obtain ⟨_, _, isWord, _, returned⟩ := Extent.take_argument.mp taken
      obtain ⟨number, isArgs, _⟩ := vaWord_eq_ok.mp isWord
      cases returned
      exact ⟨[.word number], isArgs, Nat.le_refl _⟩

/-- What a directive for an integer prints is read back as its argument, which comes behind
those for the width and the precision. -/
theorem print_integer {d : Directive} (isInteger : d.IsInteger)
    (isWord : d.flags.double = false) {s after : Printed}
    (printed : (Item.directive d).print s = .ok after) :
    ∃ text used number, after.buf = s.buf ++ text ∧ s.args = used ++ .word number :: after.args ∧
      used.length ≤ 2 ∧ ∀ rest : List UInt8, (∀ c ∈ rest.head?, isDigit c = false) →
        atoi (text ++ rest) = number % 2 ^ 32 := by
  obtain ⟨c, isConversion, isIntegerChar⟩ :
      ∃ c, d.conversion = some c ∧ (c = 0x64 ∨ c = 0x69 ∨ c = 0x75) := by
    rcases isInteger with is | is | is
    · exact ⟨_, is, .inl rfl⟩
    · exact ⟨_, is, .inr (.inl rfl)⟩
    · exact ⟨_, is, .inr (.inr rfl)⟩
  obtain ⟨sign, isKind⟩ := kindOf_integer isIntegerChar
  obtain ⟨⟨width, args⟩, widthTaken, printed⟩ := (bind_eq_ok _ _ _).mp printed
  obtain ⟨⟨precision, left⟩, precisionTaken, printed⟩ := (bind_eq_ok _ _ _).mp printed
  obtain ⟨usedWidth, isArgs, shortWidth⟩ := Extent.take_eq widthTaken
  obtain ⟨usedPrecision, isLeft, shortPrecision⟩ := Extent.take_eq precisionTaken
  rw [isConversion] at printed
  dsimp only [converted] at printed
  rw [if_neg (by rw [isKind]; nofun), isKind] at printed
  obtain ⟨⟨value, behind⟩, taken, returned⟩ := (bind_eq_ok _ _ _).mp printed
  obtain ⟨number, isLeftWord, rfl⟩ := vaWord_eq_ok.mp taken
  cases returned
  refine ⟨_, usedWidth ++ usedPrecision, number, rfl, ?args, ?short, ?back⟩
  case args => rw [isArgs, isLeft, isLeftWord, List.append_assoc]
  case short =>
    rw [List.length_append]
    omega
  case back =>
    intro rest ends
    apply atoi_numberText (Nat.mod_lt _ (by decide)) _ _ _ ends
    exact isWord

/-- No flag of a format asks for a floating-point number. -/
theorem items_double {fmt : Cursor} {d : Directive} (one : items fmt = [.directive d]) :
    d.flags.double = false := by
  cases fmt with
  | nil => cases one
  | cons c rest =>
      rw [items, List.length_cons, itemsWithin] at one
      split at one
      · obtain ⟨isDirective, _⟩ := List.cons.inj one
        cases isDirective
        rfl
      · obtain ⟨isPlain, _⟩ := List.cons.inj one
        cases isPlain

/-- `atoi` reads back what `vsprintf` stores for a format of one directive for an integer. -/
theorem atoi_vsprintf {fmt : Cursor} {args : List Arg} {d : Directive}
    (one : items fmt = [.directive d]) (isInteger : d.IsInteger) {after s : Printed} {length : Int}
    (meaning : denote fmt args = .ok after) (printed : vsprintf fmt args = .ok (s, length)) :
    ∃ used number, args = used ++ .word number :: s.args ∧ used.length ≤ 2 ∧
      atoi s.buf = number % 2 ^ 32 := by
  have stored : (Item.directive d).print ⟨[], [], args⟩ = .ok after := by
    rw [denote, one, List.foldlM_cons] at meaning
    obtain ⟨_, printed, returned⟩ := (bind_eq_ok _ _ _).mp meaning
    cases returned
    exact printed
  obtain ⟨text, used, number, isBuf, isArgs, short, back⟩ :=
    print_integer isInteger (items_double one) stored
  unfold vsprintf at printed
  rw [formatLoop_of_denote meaning, ok_bind] at printed
  obtain ⟨_, _, returned⟩ := (bind_eq_ok _ _ _).mp printed
  cases returned
  refine ⟨used, number, isArgs, short, ?_⟩
  rw [show after.buf = text from isBuf]
  exact back [0] (by simp [isDigit])

/-- The width is an argument as well. -/
theorem atoi_vsprintf_star : ∃ used number, [Arg.word 6, .word (2 ^ 32 - 42)] =
    used ++ .word number :: [] ∧ used.length ≤ 2 ∧
      atoi [0x20, 0x20, 0x2D, 0x30, 0x34, 0x32, 0] = number % 2 ^ 32 :=
  atoi_vsprintf
    (show items [0x25, 0x2A, 0x2E, 0x33, 0x64] =
      [.directive ⟨noFlags, .argument, .fixed 3, some 0x64⟩] by decide)
    (by decide)
    (show denote [0x25, 0x2A, 0x2E, 0x33, 0x64] [.word 6, .word (2 ^ 32 - 42)] =
      .ok ⟨[0x20, 0x20, 0x2D, 0x30, 0x34, 0x32], [], []⟩ by decide +kernel)
    (show vsprintf [0x25, 0x2A, 0x2E, 0x33, 0x64] [.word 6, .word (2 ^ 32 - 42)] =
      .ok (⟨[0x20, 0x20, 0x2D, 0x30, 0x34, 0x32, 0], [], []⟩, 6) by decide +kernel)

end Format
end LightOS
