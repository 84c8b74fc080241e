import LightOS.Foundation.Words
import LightOS.Kernel.Fault

/-!
# Time stamps

The functions of `lib/time.c`, and those of `kernel/time.c` that read the clock of the CMOS.
A time stamp counts the seconds since the beginning of 1970.
-/

namespace LightOS

/-- The structure `tm`. -/
@[ext] structure Tm where
  sec : Int
  min : Int
  hour : Int
  mday : Int
  mon : Int
  /-- The years since 1900, or the last two digits of the year. -/
  year : Int
  wday : Int
  yday : Int
  isdst : Int
  deriving DecidableEq

namespace Time

/-- `MINUTE`. -/
abbrev minuteSecs : Nat := 60

/-- `HOUR`. -/
abbrev hourSecs : Nat := 60 * minuteSecs

/-- `DAY`. -/
abbrev daySecs : Nat := 24 * hourSecs

/-- `YEAR`. -/
abbrev yearSecs : Nat := 365 * daySecs

/-- The table `month`: the days of a leap year before each month. -/
def month : List Int :=
  [0, 0, 31, 60, 91, 121, 152, 182, 213, 244, 274, 305, 335]

/-- An entry of `month`. -/
def monthAt (index : Int) : Except Fault Int := do
  bounded (0 ≤ index ∧ index < 13)
  return month.getD index.toNat 0

/-- `elapsed_leap_years`. -/
def elapsedLeapYears (year : Int) : Int :=
  (year - 1).tdiv 4 - (year - 1).tdiv 100 + (year + 299).tdiv 400 - (1970 - 1900) / 4

/-- `is_leap_year`. -/
def isLeapYear (year : Int) : Bool :=
  year.tmod 4 = 0 ∧ year.tmod 100 ≠ 0 ∨ (year + 1900).tmod 400 = 0

/-- The loop of `localtime`: the first month whose entry is greater than the day. -/
def searchMonth (yday offset : Int) : Nat → Nat → Nat
  | 0, mon => mon
  | left + 1, mon =>
      if month.getD mon 0 - offset > yday then mon else searchMonth yday offset left (mon + 1)

/-- `localtime`.  The field `tm_isdst` is left as it is. -/
def localtime (stamp : Nat) (time : Tm) : Tm :=
  let remain := stamp / 60
  let days := remain / 60 / 24
  let years : Int := days / 365 + 70
  let offset : Int := if isLeapYear years then 0 else 1
  let yday : Int := sub32 days (toUnsigned (elapsedLeapYears years)) % (366 - offset)
  let mon := searchMonth yday offset 12 1 - 1
  { time with
    sec := (stamp % 60 : Nat)
    min := (remain % 60 : Nat)
    hour := (remain / 60 % 24 : Nat)
    wday := ((days + 4) % 7 : Nat)
    year := years
    yday := yday
    mon := mon
    mday := yday - month.getD mon 0 + offset + 1 }

/-- The years since 1970.  A year below 70 is one of the next century. -/
def sinceEpoch (year : Int) : Int :=
  if 70 ≤ year then year - 70 else year - 70 + 100

/-- February has passed, and the year is not a leap year. -/
def lacksLeapDay (time : Tm) : Bool :=
  time.mon > 2 ∧ (sinceEpoch time.year + 2).tmod 4 ≠ 0

/-- `mktime`.  A signed product that overflows is the same word as an unsigned one. -/
def mktime (time : Tm) : Except Fault Nat := do
  let year := sinceEpoch time.year
  let res := toUnsigned (yearSecs * year)
  let res := add32 res (toUnsigned (daySecs * (year + 1).tdiv 4))
  let res := add32 res (toUnsigned ((← monthAt time.mon) * daySecs))
  let res := if lacksLeapDay time then sub32 res daySecs else res
  let res := add32 res (toUnsigned (daySecs * (time.mday - 1)))
  let res := add32 res (toUnsigned (hourSecs * time.hour))
  let res := add32 res (toUnsigned (minuteSecs * time.min))
  return add32 res (toUnsigned time.sec)

/-- `get_yday`. -/
def getYday (time : Tm) : Except Fault Int := do
  let res := (← monthAt time.mon) + time.mday
  return if lacksLeapDay time then res - 1 else res

/-! ## The clock of the CMOS -/

/-- `bcd_to_bin`. -/
def bcdToBin (value : Nat) : Nat :=
  (value % 16 + value / 16 * 10) % 256

/-- The registers of the clock, each a byte, as one round of `time_read_bcd` finds them. -/
structure CmosRound where
  second : Nat
  minute : Nat
  hour : Nat
  weekday : Nat
  day : Nat
  month : Nat
  year : Nat
  century : Nat
  /-- The seconds again, read at the end of the round. -/
  again : Nat

/-- `time_read_bcd`: the first round in which the seconds stay the same. -/
def timeReadBcd : List CmosRound → Option CmosRound
  | [] => none
  | round :: rounds => if round.second ≠ round.again then timeReadBcd rounds else some round

/-- The fields as `time_read` converts them. -/
def CmosRound.toTm (round : CmosRound) : Tm where
  sec := bcdToBin round.second
  min := bcdToBin round.minute
  hour := bcdToBin round.hour
  wday := bcdToBin round.weekday
  mday := bcdToBin round.day
  mon := bcdToBin round.month
  year := bcdToBin round.year
  yday := 0
  isdst := -1

/-- `time_read`, with the rounds that the clock is about to answer. -/
def timeRead (rounds : List CmosRound) : Except Fault Tm :=
  match timeReadBcd rounds with
  | none => throw .blocked
  | some round => do
      let time := round.toTm
      return { time with yday := ← getYday time }

/-- `time_init`: the value of `startup_time`. -/
def timeInit (rounds : List CmosRound) : Except Fault Nat := do
  mktime (← timeRead rounds)

end Time

end LightOS
