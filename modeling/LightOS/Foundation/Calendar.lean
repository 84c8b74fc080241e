import Mathlib.Algebra.BigOperators.Intervals
import Mathlib.Algebra.Order.BigOperators.Group.Finset

/-!
# The Gregorian calendar

Dates of the proleptic Gregorian calendar and their numbers, counted from the first day of
the year 1.  The number of a date grows with the date, and every number is that of a date.
-/

namespace LightOS

namespace Calendar

/-- A year with a leap day. -/
def IsLeap (year : Nat) : Prop :=
  4 ∣ year ∧ ¬100 ∣ year ∨ 400 ∣ year

instance (year : Nat) : Decidable (IsLeap year) :=
  inferInstanceAs (Decidable (4 ∣ year ∧ ¬100 ∣ year ∨ 400 ∣ year))

/-- The days of a year. -/
def yearDays (year : Nat) : Nat :=
  if IsLeap year then 366 else 365

/-- The days of a month, which is counted from 1. -/
def monthDays (year : Nat) : Nat → Nat
  | 2 => if IsLeap year then 29 else 28
  | 4 | 6 | 9 | 11 => 30
  | _ => 31

/-- The days of the years before a year. -/
def daysBeforeYear (year : Nat) : Nat :=
  ∑ earlier ∈ Finset.Ico 1 year, yearDays earlier

/-- The days of the months before a month. -/
def daysBeforeMonth (year month : Nat) : Nat :=
  ∑ earlier ∈ Finset.Ico 1 month, monthDays year earlier

theorem daysBeforeYear_succ {year : Nat} (positive : 1 ≤ year) :
    daysBeforeYear (year + 1) = daysBeforeYear year + yearDays year :=
  Finset.sum_Ico_succ_top positive _

theorem daysBeforeYear_mono {year later : Nat} (atMost : year ≤ later) :
    daysBeforeYear year ≤ daysBeforeYear later :=
  Finset.sum_le_sum_of_subset (Finset.Ico_subset_Ico_right atMost)

/-- Every fourth year is a leap year, but of the centuries only every fourth. -/
theorem daysBeforeYear_eq (elapsed : Nat) :
    daysBeforeYear (elapsed + 1) + elapsed / 100 =
      365 * elapsed + elapsed / 4 + elapsed / 400 := by
  induction elapsed with
  | zero => rfl
  | succ elapsed inductionHypothesis =>
      rw [daysBeforeYear_succ (show 1 ≤ elapsed + 1 by omega), yearDays]
      by_cases leap : IsLeap (elapsed + 1)
      · rw [if_pos leap]
        unfold IsLeap at leap
        omega
      · rw [if_neg leap]
        unfold IsLeap at leap
        omega

theorem daysBeforeMonth_succ (year : Nat) {month : Nat} (positive : 1 ≤ month) :
    daysBeforeMonth year (month + 1) = daysBeforeMonth year month + monthDays year month :=
  Finset.sum_Ico_succ_top positive _

theorem daysBeforeMonth_mono (year : Nat) {month later : Nat} (atMost : month ≤ later) :
    daysBeforeMonth year month ≤ daysBeforeMonth year later :=
  Finset.sum_le_sum_of_subset (Finset.Ico_subset_Ico_right atMost)

/-- The twelve months make up the year. -/
theorem daysBeforeMonth_thirteen (year : Nat) : daysBeforeMonth year 13 = yearDays year := by
  unfold yearDays
  by_cases leap : IsLeap year <;>
    simp [daysBeforeMonth, Finset.sum_Ico_succ_top, monthDays, leap]

end Calendar

open Calendar

/-- A date of the Gregorian calendar. -/
@[ext] structure Date where
  year : Nat
  month : Nat
  day : Nat
  year_pos : 1 ≤ year
  month_pos : 1 ≤ month
  month_le : month ≤ 12
  day_pos : 1 ≤ day
  day_le : day ≤ monthDays year month

namespace Date

/-- The number of a date in its year, from 1. -/
def dayOfYear (date : Date) : Nat :=
  daysBeforeMonth date.year date.month + date.day

/-- The number of a date.  The first day of the year 1 has the number 1. -/
def number (date : Date) : Nat :=
  daysBeforeYear date.year + date.dayOfYear

/-- The day of the week, from Sunday on.  The first day of the year 1 is a Monday. -/
def weekday (date : Date) : Nat :=
  date.number % 7

/-- Dates in the order of the calendar. -/
instance : LT Date where
  lt left right := left.year < right.year ∨ left.year = right.year ∧
    (left.month < right.month ∨ left.month = right.month ∧ left.day < right.day)

variable (date : Date)

theorem dayOfYear_pos : 1 ≤ date.dayOfYear :=
  Nat.le_add_left_of_le date.day_pos

theorem dayOfYear_le_month :
    date.dayOfYear ≤ daysBeforeMonth date.year (date.month + 1) := by
  rw [daysBeforeMonth_succ _ date.month_pos]
  exact Nat.add_le_add_left date.day_le _

theorem dayOfYear_le : date.dayOfYear ≤ yearDays date.year := by
  rw [← daysBeforeMonth_thirteen]
  exact date.dayOfYear_le_month.trans
    (daysBeforeMonth_mono _ (Nat.succ_le_succ date.month_le))

theorem number_le_year : date.number ≤ daysBeforeYear (date.year + 1) := by
  rw [daysBeforeYear_succ date.year_pos]
  exact Nat.add_le_add_left date.dayOfYear_le _

theorem lt_number : daysBeforeYear date.year < date.number :=
  Nat.lt_add_of_pos_right date.dayOfYear_pos

/-- The numbers grow with the dates. -/
theorem number_lt {left right : Date} (before : left < right) :
    left.number < right.number := by
  obtain year | ⟨year, month | ⟨month, day⟩⟩ := before
  · calc left.number ≤ daysBeforeYear (left.year + 1) := left.number_le_year
      _ ≤ daysBeforeYear right.year := daysBeforeYear_mono year
      _ < right.number := right.lt_number
  · unfold number
    rw [year]
    apply Nat.add_lt_add_left
    calc left.dayOfYear ≤ daysBeforeMonth left.year (left.month + 1) :=
          left.dayOfYear_le_month
      _ ≤ daysBeforeMonth right.year right.month := by
          rw [year]
          exact daysBeforeMonth_mono _ month
      _ < right.dayOfYear := Nat.lt_add_of_pos_right right.day_pos
  · unfold number dayOfYear
    rw [year, month]
    omega

theorem number_injective : Function.Injective number := by
  intro left right same
  have notBefore : ¬left < right := fun before => absurd same (number_lt before).ne
  have notAfter : ¬right < left := fun after => absurd same (number_lt after).ne'
  change ¬(_ ∨ _) at notBefore
  change ¬(_ ∨ _) at notAfter
  ext <;> omega

/-- Every number but 0 is that of a date. -/
theorem exists_number (count : Nat) : ∃ date : Date, date.number = count + 1 := by
  induction count with
  | zero => exact ⟨⟨1, 1, 1, le_rfl, le_rfl, by decide, le_rfl, by decide⟩, rfl⟩
  | succ count inductionHypothesis =>
      obtain ⟨date, isNumber⟩ := inductionHypothesis
      rcases Nat.lt_or_ge date.day (monthDays date.year date.month) with inside | last
      · refine ⟨⟨date.year, date.month, date.day + 1, date.year_pos, date.month_pos,
          date.month_le, Nat.succ_pos _, inside⟩, ?_⟩
        rw [← isNumber]
        rfl
      · have isLast := le_antisymm date.day_le last
        have whole : date.dayOfYear = daysBeforeMonth date.year (date.month + 1) := by
          rw [daysBeforeMonth_succ _ date.month_pos, ← isLast]
          rfl
        rcases Nat.lt_or_ge date.month 12 with earlier | december
        · refine ⟨⟨date.year, date.month + 1, 1, date.year_pos, Nat.succ_pos _, earlier,
            le_rfl, ?_⟩, ?_⟩
          · unfold monthDays
            split <;> (try split) <;> omega
          · rw [← isNumber]
            unfold number
            rw [whole]
            rfl
        · have isDecember := le_antisymm date.month_le december
          refine ⟨⟨date.year + 1, 1, 1, Nat.succ_pos _, le_rfl, by decide, le_rfl,
            by simp [monthDays]⟩, ?_⟩
          rw [← isNumber]
          unfold number
          rw [whole, isDecember, daysBeforeMonth_thirteen, ← daysBeforeYear_succ date.year_pos]
          rfl

end Date

/-- A second of a date. -/
structure Moment where
  date : Date
  hour : Nat
  minute : Nat
  second : Nat
  hour_lt : hour < 24
  minute_lt : minute < 60
  second_lt : second < 60

namespace Moment

/-- The seconds of the day that have passed. -/
def secondOfDay (moment : Moment) : Nat :=
  (moment.hour * 60 + moment.minute) * 60 + moment.second

/-- Moments in the order of the calendar and the clock. -/
instance : LT Moment where
  lt left right := left.date < right.date ∨
    left.date = right.date ∧ left.secondOfDay < right.secondOfDay

/-- The seconds from the beginning of a day to a moment. -/
def secondsSince (start : Date) (moment : Moment) : Int :=
  ((moment.date.number : Int) - start.number) * 86400 + moment.secondOfDay

theorem secondOfDay_lt (moment : Moment) : moment.secondOfDay < 86400 := by
  have hour := moment.hour_lt
  have minute := moment.minute_lt
  have second := moment.second_lt
  unfold secondOfDay
  omega

/-- The seconds grow with the moments. -/
theorem secondsSince_lt (start : Date) {left right : Moment} (before : left < right) :
    left.secondsSince start < right.secondsSince start := by
  unfold secondsSince
  have inDay := left.secondOfDay_lt
  obtain date | ⟨date, second⟩ := before
  · have later := Date.number_lt date
    omega
  · rw [date]
    omega

/-- Every number of seconds leads to a moment. -/
theorem exists_secondsSince (start : Date) (seconds : Nat) :
    ∃ moment : Moment, moment.secondsSince start = seconds := by
  have positive : 0 < start.number := Nat.zero_lt_of_lt start.lt_number
  obtain ⟨date, isNumber⟩ := Date.exists_number (start.number + seconds / 86400 - 1)
  refine ⟨⟨date, seconds % 86400 / 3600, seconds % 3600 / 60, seconds % 60, by omega,
    by omega, by omega⟩, ?_⟩
  unfold secondsSince secondOfDay
  dsimp only
  omega

end Moment

end LightOS
