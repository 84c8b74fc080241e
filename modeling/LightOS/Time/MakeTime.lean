import LightOS.Foundation.Calendar
import LightOS.Time.Stamps
import Mathlib.Tactic.IntervalCases
import Mathlib.Tactic.Linarith

/-!
# Time stamps of dates

`mktime` gives the seconds from the beginning of 1970 to a moment, and `get_yday` the number
of the day in its year, for all moments of the hundred years that two digits can name.
-/

namespace LightOS

open Calendar

/-- The first of January 1970. -/
def Time.epoch : Date :=
  ⟨1970, 1, 1, by decide, by decide, by decide, by decide, by decide⟩

namespace Tm

/-- The fields that name a moment, apart from the year. -/
structure Shows (time : Tm) (moment : Moment) : Prop where
  sec : time.sec = moment.second
  min : time.min = moment.minute
  hour : time.hour = moment.hour
  mday : time.mday = moment.date.day
  mon : time.mon = moment.date.month

/-- The fields name a moment as the clock does, with the last two digits of the year. -/
structure ShowsDigits (time : Tm) (moment : Moment) : Prop extends Shows time moment where
  first : 1970 ≤ moment.date.year
  last : moment.date.year ≤ 2069
  year : time.year = (moment.date.year % 100 : Nat)

end Tm

namespace Time

theorem daysBeforeYear_epoch : daysBeforeYear 1970 = 719162 := by
  have closed : daysBeforeYear 1970 + 19 = 719181 := daysBeforeYear_eq 1969
  omega

theorem number_epoch : epoch.number = 719163 := by
  unfold Date.number
  rw [show epoch.year = 1970 from rfl, daysBeforeYear_epoch]
  rfl

/-- Among the hundred years every fourth is a leap year. -/
theorem isLeap_iff {year : Nat} (first : 1970 ≤ year) (last : year ≤ 2069) :
    IsLeap year ↔ year % 4 = 0 := by
  unfold IsLeap
  omega

/-- The days of the years since 1970. -/
theorem daysBeforeYear_since {year : Nat} (first : 1970 ≤ year) (last : year ≤ 2069) :
    daysBeforeYear year = 719162 + 365 * (year - 1970) + (year - 1970 + 1) / 4 := by
  have closed := daysBeforeYear_eq (year - 1)
  rw [Nat.sub_add_cancel (by omega)] at closed
  omega

/-- From month to month the table adds the days of a leap year. -/
theorem month_succ (year : Nat) {index : Nat} (first : 1 ≤ index) (last : index < 12) :
    month.getD (index + 1) 0 = month.getD index 0 + monthDays year index +
      if index = 2 ∧ ¬IsLeap year then 1 else 0 := by
  by_cases february : index = 2
  · subst february
    by_cases leap : IsLeap year <;> simp [month, monthDays, leap]
  · rw [if_neg fun both => february both.1]
    interval_cases index <;> first | rfl | exact absurd rfl february

/-- The table is right for leap years, and one too much after February for the others. -/
theorem month_eq (year : Nat) {index : Nat} (first : 1 ≤ index) (last : index ≤ 12) :
    month.getD index 0 = daysBeforeMonth year index +
      if 2 < index ∧ ¬IsLeap year then 1 else 0 := by
  induction index, first using Nat.le_induction with
  | base => rfl
  | succ index first inductionHypothesis =>
      rw [month_succ year first last, inductionHypothesis (Nat.le_of_succ_le last),
        daysBeforeMonth_succ year first]
      by_cases leap : IsLeap year
      · simp [leap]
      · by_cases february : index = 2
        · simp [leap, february]
        · have after : 2 < index + 1 ↔ 2 < index := by omega
          have notFebruary : ¬(index = 2 ∧ ¬IsLeap year) := fun both => february both.1
          rw [if_neg notFebruary, add_zero]
          simp only [after, Nat.cast_add]
          exact add_right_comm _ _ _

/-- The entry of the month of a date. -/
theorem month_date (date : Date) :
    month.getD date.month 0 = daysBeforeMonth date.year date.month +
      if 2 < date.month ∧ ¬IsLeap date.year then 1 else 0 :=
  month_eq date.year date.month_pos date.month_le

theorem monthAt_eq (date : Date) : monthAt date.month = .ok (month.getD date.month 0) := by
  have first := date.month_pos
  have last := date.month_le
  unfold monthAt
  rw [bounded_true (by omega), ok_bind]
  rfl

theorem sinceEpoch_digits {year : Nat} (first : 1970 ≤ year) (last : year ≤ 2069) :
    sinceEpoch (year % 100 : Nat) = (year : Int) - 1970 := by
  unfold sinceEpoch
  split <;> omega

section Moment

variable {time : Tm} {moment : Moment}

theorem lacksLeapDay_iff (shows : time.Shows moment)
    (year : sinceEpoch time.year = (moment.date.year : Int) - 1970)
    (first : 1970 ≤ moment.date.year) (last : moment.date.year ≤ 2069) :
    lacksLeapDay time = true ↔ 2 < moment.date.month ∧ ¬IsLeap moment.date.year := by
  unfold lacksLeapDay
  rw [decide_eq_true_eq, shows.mon, year, Int.tmod_eq_emod_of_nonneg (by omega),
    isLeap_iff first last]
  omega

/-- `get_yday` gives the number of the day in its year. -/
theorem getYday_eq (shows : time.Shows moment)
    (year : sinceEpoch time.year = (moment.date.year : Int) - 1970)
    (first : 1970 ≤ moment.date.year) (last : moment.date.year ≤ 2069) :
    getYday time = .ok (moment.date.dayOfYear : Int) := by
  have lacks := lacksLeapDay_iff shows year first last
  unfold getYday Date.dayOfYear
  rw [shows.mon, monthAt_eq, ok_bind, shows.mday, month_date, pure_eq_ok]
  by_cases after : 2 < moment.date.month ∧ ¬IsLeap moment.date.year
  · rw [if_pos after, if_pos (lacks.mpr after)]
    congr 1
    push_cast
    omega
  · rw [if_neg after, if_neg (mt lacks.mp after), add_zero]
    rfl

/-- A product of words that does not overflow. -/
theorem toUnsigned_mul {left right : Nat} (small : left * right < 2 ^ 32) :
    toUnsigned (left * right) = left * right := by
  rw [← Nat.cast_mul, toUnsigned_natCast small]

/-- `mktime` gives the seconds since the beginning of 1970. -/
theorem mktime_eq (shows : time.Shows moment)
    (year : sinceEpoch time.year = (moment.date.year : Int) - 1970)
    (first : 1970 ≤ moment.date.year) (last : moment.date.year ≤ 2069) :
    ∃ stamp : Nat, mktime time = .ok stamp ∧ (stamp : Int) = moment.secondsSince epoch := by
  have lacks := lacksLeapDay_iff shows year first last
  have before := daysBeforeYear_since first last
  obtain ⟨years, isYears⟩ := Nat.exists_eq_add_of_le first
  obtain ⟨day, isDay⟩ := Nat.exists_eq_add_of_le moment.date.day_pos
  obtain ⟨entry, isEntry, entryEq⟩ : ∃ entry : Nat, month.getD moment.date.month 0 = entry ∧
      entry = daysBeforeMonth moment.date.year moment.date.month +
        if 2 < moment.date.month ∧ ¬IsLeap moment.date.year then 1 else 0 :=
    ⟨_, by rw [month_date]; push_cast; rfl, rfl⟩
  have since : sinceEpoch time.year = years := by omega
  have leapDays : ((years : Int) + 1).tdiv 4 = ((years + 1) / 4 : Nat) := by
    rw [Int.tdiv_eq_ediv_of_nonneg (by omega)]
    omega
  have mday : (moment.date.day : Int) - 1 = day := by omega
  -- the days of the year are bounded, so that no sum overflows
  have inYear : entry + day ≤ 366 := by
    have atMost := moment.date.dayOfYear_le
    unfold Date.dayOfYear yearDays at atMost
    split at atMost <;> split at entryEq <;> omega
  have hour := moment.hour_lt
  have minute := moment.minute_lt
  have second := moment.second_lt
  refine ⟨?stamp, ?runs, ?counts⟩
  case runs =>
    unfold mktime
    rw [shows.mon, monthAt_eq, isEntry, ok_bind, since, leapDays, shows.mday, mday, shows.hour,
      shows.min, shows.sec, pure_eq_ok]
  case counts =>
    unfold Moment.secondsSince Moment.secondOfDay
    rw [number_epoch]
    unfold Date.number Date.dayOfYear
    simp only [yearSecs, daySecs, hourSecs, minuteSecs]
    simp (disch := omega) only [toUnsigned_mul, toUnsigned_natCast]
    by_cases after : 2 < moment.date.month ∧ ¬IsLeap moment.date.year
    · rw [if_pos (lacks.mpr after)]
      rw [if_pos after] at entryEq
      simp (disch := omega) only [add32, Nat.mod_eq_of_lt, sub32_eq]
      omega
    · rw [if_neg (mt lacks.mp after)]
      rw [if_neg after] at entryEq
      simp (disch := omega) only [add32, Nat.mod_eq_of_lt]
      omega

/-- `mktime` counts the seconds since 1970 and `get_yday` the days of the year, so that later
moments have greater stamps. -/
theorem mktime_exact (shows : time.ShowsDigits moment) :
    (∃ stamp : Nat, mktime time = .ok stamp ∧ (stamp : Int) = moment.secondsSince epoch) ∧
      getYday time = .ok (moment.date.dayOfYear : Int) ∧
      ∀ {later : Tm} {other : Moment}, later.ShowsDigits other → moment < other →
        ∃ stamp next : Nat, mktime time = .ok stamp ∧ mktime later = .ok next ∧
          stamp < next := by
  have digits {time : Tm} {moment : Moment} (shows : time.ShowsDigits moment) :
      sinceEpoch time.year = (moment.date.year : Int) - 1970 := by
    rw [shows.year, sinceEpoch_digits shows.first shows.last]
  obtain ⟨stamp, made, counts⟩ :=
    mktime_eq shows.toShows (digits shows) shows.first shows.last
  refine ⟨⟨stamp, made, counts⟩,
    getYday_eq shows.toShows (digits shows) shows.first shows.last, ?_⟩
  intro later other showsOther before
  obtain ⟨next, madeNext, countsNext⟩ :=
    mktime_eq showsOther.toShows (digits showsOther) showsOther.first showsOther.last
  have grows := Moment.secondsSince_lt epoch before
  exact ⟨stamp, next, made, madeNext, by omega⟩

/-- The last second of the year 2069, which the clock shows as 69. -/
theorem mktime_exact_last :
    let moment : Moment := ⟨⟨2069, 12, 31, by decide, by decide, by decide, by decide, by decide⟩,
      23, 59, 59, by decide, by decide, by decide⟩
    let time : Tm := ⟨59, 59, 23, 31, 12, 69, 2, 0, -1⟩
    (∃ stamp : Nat, mktime time = .ok stamp ∧ (stamp : Int) = moment.secondsSince epoch) ∧
      getYday time = .ok (moment.date.dayOfYear : Int) ∧
      ∀ {later : Tm} {other : Moment}, later.ShowsDigits other → moment < other →
        ∃ stamp next : Nat, mktime time = .ok stamp ∧ mktime later = .ok next ∧
          stamp < next :=
  mktime_exact ⟨⟨rfl, rfl, rfl, rfl, rfl⟩, by decide, by decide, rfl⟩

end Moment

/-! ## The start of the system -/

/-- `bin_to_bcd`. -/
def binToBcd (value : Nat) : Nat :=
  (value / 10 * 16 + value % 10) % 256

theorem bcdToBin_binToBcd {value : Nat} (digits : value < 100) :
    bcdToBin (binToBcd value) = value := by
  revert value
  decide

/-- The registers hold the two digits of each part of a moment. -/
structure CmosRound.Encodes (round : CmosRound) (moment : Moment) : Prop where
  second : round.second = binToBcd moment.second
  minute : round.minute = binToBcd moment.minute
  hour : round.hour = binToBcd moment.hour
  day : round.day = binToBcd moment.date.day
  month : round.month = binToBcd moment.date.month
  year : round.year = binToBcd (moment.date.year % 100)

theorem CmosRound.Encodes.toTm_shows {round : CmosRound} {moment : Moment}
    (encodes : round.Encodes moment) (first : 1970 ≤ moment.date.year)
    (last : moment.date.year ≤ 2069) : round.toTm.ShowsDigits moment := by
  have hour := moment.hour_lt
  have minute := moment.minute_lt
  have second := moment.second_lt
  have month := moment.date.month_le
  have day : moment.date.day ≤ 31 := by
    refine moment.date.day_le.trans ?_
    unfold monthDays
    split <;> (try split) <;> omega
  unfold toTm
  refine ⟨⟨?_, ?_, ?_, ?_, ?_⟩, first, last, ?_⟩
  · rw [encodes.second, bcdToBin_binToBcd (by omega)]
  · rw [encodes.minute, bcdToBin_binToBcd (by omega)]
  · rw [encodes.hour, bcdToBin_binToBcd (by omega)]
  · rw [encodes.day, bcdToBin_binToBcd (by omega)]
  · rw [encodes.month, bcdToBin_binToBcd (by omega)]
  · rw [encodes.year, bcdToBin_binToBcd (by omega)]

/-- The time that the system takes for that of its start is the moment that the clock of the
CMOS holds in the first round in which its seconds stay the same. -/
theorem timeInit_eq {rounds : List CmosRound} {round : CmosRound} {moment : Moment}
    (found : timeReadBcd rounds = some round) (encodes : round.Encodes moment)
    (first : 1970 ≤ moment.date.year) (last : moment.date.year ≤ 2069) :
    ∃ stamp : Nat, timeInit rounds = .ok stamp ∧
      (stamp : Int) = moment.secondsSince epoch := by
  have shows := encodes.toTm_shows first last
  have year : sinceEpoch round.toTm.year = (moment.date.year : Int) - 1970 := by
    rw [shows.year, sinceEpoch_digits first last]
  unfold timeInit timeRead
  rw [found]
  dsimp only
  rw [getYday_eq shows.toShows year first last, ok_bind, pure_eq_ok, ok_bind]
  exact mktime_eq ⟨shows.sec, shows.min, shows.hour, shows.mday, shows.mon⟩ year first last

end Time

end LightOS
