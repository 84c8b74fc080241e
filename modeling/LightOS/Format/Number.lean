import LightOS.Foundation.Numerals
import LightOS.Foundation.Words
import LightOS.Kernel.Fault

/-!
# Numbers in formatted output

The function `number` of `lib/vsprintf.c`: the bytes it stores for a number.  They are a
sign, a prefix and the digits, put into a field of the width asked for.
-/

namespace LightOS
namespace Format

/-- The flags of a conversion. -/
structure Flags where
  zeropad : Bool
  sign : Bool
  plus : Bool
  space : Bool
  left : Bool
  special : Bool
  small : Bool
  double : Bool
  deriving DecidableEq

/-- No flag is set. -/
def noFlags : Flags :=
  ⟨false, false, false, false, false, false, false, false⟩

/-- The value of an expression of type `int`. -/
def int (value : Int) : Int :=
  toSigned (toUnsigned value)

theorem int_eq {value : Int} (above : -2 ^ 31 ≤ value) (below : value < 2 ^ 31) :
    int value = value := by
  unfold int toSigned toUnsigned
  split <;> omega

/-- What the pointer `num` points to: a word, and what it is as a floating-point number.  Of
that the code uses whether it is negative, and two words that it computes from the absolute
value. -/
structure Value where
  word : Nat
  negative : Bool
  ival : Nat
  fval : Nat
  deriving DecidableEq

/-- A word that is not used as a floating-point number. -/
def Value.ofWord (num : Nat) : Value :=
  ⟨num, false, 0, 0⟩

/-- The table `digits`. -/
def digit (small : Bool) (index : Nat) : UInt8 :=
  if index < 10 then UInt8.ofNat (48 + index)
  else if small then UInt8.ofNat (97 + (index - 10))
  else UInt8.ofNat (65 + (index - 10))

/-- The loop that puts the digits of a word into `tmp`, the last one first. -/
def digitLoop (small : Bool) (base : Nat) : Nat → Nat → List UInt8
  | 0, _ => []
  | rounds + 1, num =>
      if num ≠ 0 then digit small (num % base) :: digitLoop small base rounds (num / base)
      else []

/-- The same loop with its test at the end. -/
def digitDoLoop (small : Bool) (base num : Nat) : List UInt8 :=
  digit small (num % base) :: digitLoop small base 32 (num / base)

/-- The number is printed with a minus sign. -/
def isNegative (flags : Flags) (num : Value) : Bool :=
  if flags.double then num.negative else flags.sign && toSigned num.word < 0

/-- The variable `sign`: a byte, or none. -/
def signOf (flags : Flags) (num : Value) : List UInt8 :=
  if isNegative flags num then [0x2D] else if flags.plus then [0x2B]
  else if flags.space then [0x20] else []

/-- What a special conversion stores in front of the digits. -/
def prefixOf (flags : Flags) (base : Nat) : List UInt8 :=
  if flags.special then
    if base = 8 then [0x30] else if base = 16 then [0x30, digit flags.small 33] else []
  else []

/-- The array `tmp`, as far as it is filled: the digits, the last one first. -/
def tmp (flags : Flags) (base : Nat) (num : Value) : List UInt8 :=
  if flags.double then
    digitDoLoop flags.small base num.fval ++ [0x2E] ++ digitDoLoop flags.small base num.ival
  else
    let num := if isNegative flags num then toUnsigned (-toSigned num.word) else num.word
    if num = 0 then [0x30] else digitLoop flags.small base 32 num

/-- The loop `while (size-- > 0) *str++ = ch`: what it stores, and the size it leaves. -/
def fill (size : Int) (ch : UInt8) : List UInt8 × Int :=
  (List.replicate size.toNat ch, int (min size 0 - 1))

/-- The width that is left for padding. -/
def remaining (flags : Flags) (base : Nat) (sign : List UInt8) (size precision : Int) : Int :=
  let size := if sign = [] then size else int (size - 1)
  let size := if flags.special then
    if base = 16 then int (size - 2) else if base = 8 then int (size - 1) else size else size
  int (size - precision)

/-- `number`: the bytes stored at `str`, or nothing for a base without digits. -/
def number (num : Value) (base : Nat) (size precision : Int) (flags : Flags) :
    Option (List UInt8) :=
  let zeropad := if flags.left then false else flags.zeropad
  if base < 2 ∨ base > 36 then
    none
  else
    let pad : UInt8 := if zeropad then 0x30 else 0x20
    let sign := signOf flags num
    let tmp := tmp flags base num
    let precision := max (tmp.length : Int) precision
    let size := remaining flags base sign size precision
    let spaces := if zeropad || flags.left then ([], size) else fill size 0x20
    let pads := if flags.left then ([], spaces.2) else fill spaces.2 pad
    let zeros := List.replicate (precision - tmp.length).toNat 0x30
    let trailing := fill pads.2 0x20
    some (spaces.1 ++ sign ++ prefixOf flags base ++ pads.1 ++ zeros ++ tmp.reverse ++
      trailing.1)

/-! ## What a number looks like -/

/-- A text in a field: the part in front of the digits and the digits.  Zeros stand between
the two, spaces in front or behind. -/
def field (flags : Flags) (width : Nat) (front digits : List UInt8) : List UInt8 :=
  if flags.left then (front ++ digits).rightpad width 0x20
  else if flags.zeropad then front ++ digits.leftpad (width - front.length) 0x30
  else (front ++ digits).leftpad width 0x20

/-- The size of a word. -/
def magnitude (flags : Flags) (num : Value) : Nat :=
  if isNegative flags num then toUnsigned (-toSigned num.word) else num.word

/-- The digits of a number. -/
def digitsOf (flags : Flags) (base : Nat) (num : Value) : List UInt8 :=
  if flags.double then
    (Numeral.digits base num.ival).map (digit flags.small) ++ [0x2E] ++
      (Numeral.digits base num.fval).map (digit flags.small)
  else
    (Numeral.digits base (magnitude flags num)).map (digit flags.small)

variable {flags : Flags} {base : Nat} {num : Value} {small : Bool}

theorem digitLoop_eq (large : 1 < base) {rounds number : Nat} (fits : number < base ^ rounds) :
    digitLoop small base rounds number = (Nat.digits base number).map (digit small) := by
  induction rounds generalizing number with
  | zero =>
      have isZero : number = 0 := by simpa using fits
      simp [digitLoop, isZero]
  | succ rounds inductionHypothesis =>
      rw [digitLoop]
      by_cases isZero : number = 0
      · simp [isZero]
      · have rest : number / base < base ^ rounds := by
          rw [Nat.div_lt_iff_lt_mul (by omega), ← pow_succ]
          exact fits
        have positive := Nat.pos_of_ne_zero isZero
        rw [if_pos isZero, inductionHypothesis rest, Nat.digits_def' large positive,
          List.map_cons]

theorem word_lt_pow (large : 1 < base) {number : Nat} (isWord : number < 2 ^ 32) :
    number < base ^ 32 :=
  Nat.lt_of_lt_of_le isWord (Nat.pow_le_pow_left large 32)

theorem digitLoop_reverse (large : 1 < base) {number : Nat} (isWord : number < 2 ^ 32)
    (positive : number ≠ 0) : (digitLoop small base 32 number).reverse =
      (Numeral.digits base number).map (digit small) := by
  rw [digitLoop_eq large (word_lt_pow large isWord), Numeral.digits, if_neg positive,
    List.map_reverse]

theorem digitDoLoop_reverse (large : 1 < base) {number : Nat} (isWord : number < 2 ^ 32) :
    (digitDoLoop small base number).reverse =
      (Numeral.digits base number).map (digit small) := by
  unfold digitDoLoop
  by_cases isZero : number = 0
  · simp [isZero, Numeral.digits, digitLoop]
  · have rest : number / base < base ^ 32 :=
      Nat.lt_of_le_of_lt (Nat.div_le_self _ _) (word_lt_pow large isWord)
    rw [digitLoop_eq large rest, Numeral.digits, if_neg isZero,
      Nat.digits_def' large (Nat.pos_of_ne_zero isZero), List.map_reverse, List.map_cons]

/-- The words of a value are words. -/
structure Value.Words (num : Value) : Prop where
  word : num.word < 2 ^ 32
  ival : num.ival < 2 ^ 32
  fval : num.fval < 2 ^ 32

theorem Value.ofWord_words {number : Nat} (isWord : number < 2 ^ 32) : (ofWord number).Words :=
  ⟨isWord, show 0 < 2 ^ 32 by decide, show 0 < 2 ^ 32 by decide⟩

theorem magnitude_lt (flags : Flags) (words : num.Words) : magnitude flags num < 2 ^ 32 := by
  unfold magnitude toUnsigned
  split
  · omega
  · exact words.word

/-- The array holds the digits in the reverse order. -/
theorem tmp_reverse (flags : Flags) (large : 1 < base) (words : num.Words) :
    (tmp flags base num).reverse = digitsOf flags base num := by
  unfold tmp digitsOf
  split
  · rw [List.reverse_append, List.reverse_append, digitDoLoop_reverse large words.ival,
      digitDoLoop_reverse large words.fval, List.append_assoc]
    rfl
  · have same : (if isNegative flags num then toUnsigned (-toSigned num.word) else num.word) =
        magnitude flags num := rfl
    rw [same]
    dsimp only
    split
    · rename_i isZero
      rw [isZero]
      rfl
    · rename_i positive
      exact digitLoop_reverse large (magnitude_lt flags words) positive

/-- A word has 32 digits at most, so that the array `tmp` has room for them, and a
floating-point number 65. -/
theorem digitsOf_length_le (flags : Flags) (large : 1 < base) (words : num.Words) :
    (digitsOf flags base num).length ≤ if flags.double then 65 else 32 := by
  have short {number : Nat} (isWord : number < 2 ^ 32) :
      (Numeral.digits base number).length ≤ 32 :=
    (Numeral.digits_length_le large (by decide)).mpr (word_lt_pow large isWord)
  have ival := short words.ival
  have fval := short words.fval
  unfold digitsOf
  split
  · simp only [List.length_append, List.length_map, List.length_singleton]
    omega
  · rw [List.length_map]
    exact short (magnitude_lt flags words)

theorem signOf_length (flags : Flags) (num : Value) :
    (signOf flags num).length = if signOf flags num = [] then 0 else 1 := by
  unfold signOf
  split
  · simp
  · split
    · simp
    · split <;> simp

theorem prefixOf_length (flags : Flags) (base : Nat) : (prefixOf flags base).length =
    if flags.special then if base = 16 then 2 else if base = 8 then 1 else 0 else 0 := by
  unfold prefixOf
  split
  · by_cases isHex : base = 16
    · simp [isHex]
    · by_cases isOctal : base = 8
      · simp [isOctal]
      · simp [isHex, isOctal]
  · rfl

/-- A width and a precision with which `number` computes without overflow: they are not below
-1, which stands for none. -/
structure Moderate (size precision : Int) : Prop where
  above : -1 ≤ size
  below : size < 2 ^ 31
  precise : precision < 2 ^ 30

/-- What is left of the width is what sign, prefix and digits do not take up. -/
theorem remaining_eq (flags : Flags) (base : Nat) (num : Value) {size precision : Int}
    (moderate : Moderate size precision) {digits : List UInt8} (short : digits.length ≤ 65) :
    ∃ left, remaining flags base (signOf flags num) size
        (max (digits.length : Int) precision) = left ∧ -2 ^ 30 - 4 ≤ left ∧
      left.toNat = size.toNat - ((signOf flags num ++ prefixOf flags base).length +
        (digits.leftpad precision.toNat 0x30).length) := by
  obtain ⟨above, below, precise⟩ := moderate
  have atMost : max (digits.length : Int) precision ≤ 2 ^ 30 := by omega
  have step {value less : Int} (notLess : 0 ≤ less) (few : less ≤ 2 ^ 30)
      (valueAbove : -4 ≤ value) (valueBelow : value < 2 ^ 31) : int (value - less) = value - less :=
    int_eq (by omega) (by omega)
  refine ⟨_, rfl, ?_⟩
  rw [List.length_append, List.length_leftpad, signOf_length, prefixOf_length]
  unfold remaining
  dsimp only
  split <;> split <;> (try split) <;> (try split) <;>
    simp (disch := omega) only [step] <;> omega

/-- The loops for the padding store what is left of the width. -/
theorem fill_eq {size : Int} (above : -2 ^ 31 < size) (below : size < 2 ^ 31) (ch : UInt8) :
    fill size ch = (List.replicate size.toNat ch, min size 0 - 1) := by
  unfold fill
  rw [int_eq (by omega) (by omega)]

/-- A loop behind another one stores nothing. -/
theorem fill_below {size : Int} (above : -2 ^ 31 < size) (none : size ≤ 0) (ch : UInt8) :
    fill size ch = ([], size - 1) := by
  rw [fill_eq above (by omega), Int.toNat_of_nonpos none, min_eq_left none, List.replicate_zero]

/-- `number` puts the sign, the prefix and the digits into a field.  The precision is the
least number of digits. -/
theorem number_eq (large : 1 < base) (atMost : base ≤ 36) (words : num.Words)
    {size precision : Int} (moderate : Moderate size precision) :
    number num base size precision flags =
      some (field flags size.toNat (signOf flags num ++ prefixOf flags base)
        ((digitsOf flags base num).leftpad precision.toNat 0x30)) := by
  have inRange : ¬(base < 2 ∨ base > 36) := by omega
  have reversed := tmp_reverse flags large words
  have length := congrArg List.length reversed
  rw [List.length_reverse] at length
  have short : (digitsOf flags base num).length ≤ 65 :=
    (digitsOf_length_le flags large words).trans (by split <;> omega)
  have zeros : (max ((digitsOf flags base num).length : Int) precision -
      (digitsOf flags base num).length).toNat =
        precision.toNat - (digitsOf flags base num).length := by
    omega
  obtain ⟨left, isLeft, above, width⟩ := remaining_eq flags base num moderate short
  have below : left < 2 ^ 31 := by
    have := moderate.below
    omega
  unfold number field
  dsimp only
  rw [if_neg inRange, length, reversed, zeros, isLeft]
  generalize shown : (digitsOf flags base num).leftpad precision.toNat 0x30 = text at width ⊢
  rw [List.append_assoc _ _ (digitsOf flags base num)]
  change some (_ ++ (digitsOf flags base num).leftpad precision.toNat 0x30 ++ _) = _
  rw [shown]
  rw [List.length_append] at width
  have filled (ch : UInt8) := fill_eq (by omega : -2 ^ 31 < left) below ch
  have behind (ch : UInt8) := fill_below (by omega : -2 ^ 31 < min left 0 - 1) (by omega) ch
  have last (ch : UInt8) := fill_below (by omega : -2 ^ 31 < min left 0 - 1 - 1) (by omega) ch
  cases flags.left with
  | true =>
      simp [filled, width, List.rightpad, Nat.add_assoc]
  | false =>
      cases flags.zeropad with
      | true =>
          simp [filled, behind, width, List.leftpad, Nat.sub_sub]
      | false =>
          simp [filled, behind, last, width, List.leftpad, Nat.add_assoc]

end Format
end LightOS
