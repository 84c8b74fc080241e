import LightOS.Time.MakeTime

/-!
# Dates of time stamps

`localtime` takes the year from a division by 365, the day of a leap year from a remainder
by 366 and the month from a table for leap years.  The date it gives is right from March on
in the common years, but for the last days of a year, as many as there have been leap days
since 1970.
-/

namespace LightOS

open Calendar

namespace Time

/-- The leap years from 1970 on before a year. -/
def leapDays (year : Nat) : Nat :=
  ((Finset.Ico 1970 year).filter IsLeap).card

/-- The first stamp that is not in the hundred years. -/
def stampEnd : Nat :=
  (daysBeforeYear 2070 - daysBeforeYear 1970) * daySecs

theorem stampEnd_eq : stampEnd = 3155760000 := by
  have closed : daysBeforeYear 2070 + 20 = 755707 := daysBeforeYear_eq 2069
  have last : daysBeforeYear 2070 = 755687 := by omega
  unfold stampEnd
  simp only [daysBeforeYear_epoch, last, daySecs, hourSecs, minuteSecs]

theorem leapDays_eq {year : Nat} (first : 1970 ≤ year) (last : year ≤ 2070) :
    leapDays year = (year - 1970 + 1) / 4 := by
  induction year, first using Nat.le_induction with
  | base => rfl
  | succ year first inductionHypothesis =>
      have before := inductionHypothesis (by omega)
      have leap := isLeap_iff first (by omega)
      unfold leapDays at before ⊢
      rw [Nat.Ico_succ_right_eq_insert_Ico first, Finset.filter_insert]
      by_cases isLeap : IsLeap year
      · rw [if_pos isLeap, Finset.card_insert_of_notMem (by simp), before]
        have fourth := leap.mp isLeap
        omega
      · rw [if_neg isLeap, before]
        have notFourth := mt leap.mpr isLeap
        omega

end Time

/-- The date is after February of a common year, and comes before the last days of the
year: one for each leap day since 1970. -/
def Date.Counted (date : Date) : Prop :=
  ¬IsLeap date.year ∧ 2 < date.month ∧ Time.leapDays date.year + date.dayOfYear ≤ 365

/-- The fields name a moment, with the year since 1900 and the day of the week. -/
structure Tm.ShowsYears (time : Tm) (moment : Moment) : Prop extends Tm.Shows time moment where
  year : time.year = (moment.date.year : Int) - 1900
  wday : time.wday = moment.date.weekday

namespace Time

/-- `localtime` gives the moment of a stamp, and `mktime` gives the stamp back. -/
structure RoundTrips (stamp : Nat) (time : Tm) (moment : Moment) : Prop where
  shows : (localtime stamp time).ShowsYears moment
  back : mktime (localtime stamp time) = .ok stamp

/-- The loop stops at the first month whose entry is greater than the day. -/
theorem searchMonth_eq {yday offset : Int} {left mon stop : Nat} (inRange : mon ≤ stop)
    (stopLe : stop ≤ mon + left)
    (below : ∀ index, mon ≤ index → index < stop → month.getD index 0 - offset ≤ yday)
    (above : stop < mon + left → yday < month.getD stop 0 - offset) :
    searchMonth yday offset left mon = stop := by
  induction left generalizing mon with
  | zero => exact le_antisymm inRange stopLe
  | succ left inductionHypothesis =>
      rw [searchMonth]
      rcases Nat.lt_or_eq_of_le inRange with earlier | rfl
      · have small := below mon le_rfl earlier
        rw [if_neg (by omega)]
        exact inductionHypothesis earlier (by omega)
          (fun index from_ => below index (by omega)) fun inside => above (by omega)
      · rw [if_pos (above (by omega))]

section Stamp

variable {stamp : Nat} (time : Tm) {moment : Moment}

/-- The parts of a stamp. -/
theorem stamp_parts (isStamp : moment.secondsSince epoch = stamp) :
    stamp / 60 / 60 / 24 + 719163 = moment.date.number ∧ stamp / 60 / 60 % 24 = moment.hour ∧
      stamp / 60 % 60 = moment.minute ∧ stamp % 60 = moment.second := by
  have hour := moment.hour_lt
  have minute := moment.minute_lt
  have second := moment.second_lt
  unfold Moment.secondsSince Moment.secondOfDay at isStamp
  rw [number_epoch] at isStamp
  omega

/-- The stamps of the hundred years. -/
theorem exists_moment (inRange : stamp < stampEnd) :
    ∃ moment : Moment, moment.secondsSince epoch = stamp ∧ 1970 ≤ moment.date.year ∧
      moment.date.year ≤ 2069 := by
  obtain ⟨moment, isStamp⟩ := Moment.exists_secondsSince epoch stamp
  refine ⟨moment, isStamp, ?_, ?_⟩
  · by_contra early
    have atMost := daysBeforeYear_mono (show moment.date.year + 1 ≤ 1970 by omega)
    have upper := moment.date.number_le_year
    obtain ⟨days, _⟩ := stamp_parts isStamp
    rw [daysBeforeYear_epoch] at atMost
    omega
  · by_contra late
    have atLeast := daysBeforeYear_mono (show 2070 ≤ moment.date.year by omega)
    have lower := moment.date.lt_number
    obtain ⟨days, _⟩ := stamp_parts isStamp
    have end_ : daysBeforeYear 2070 + 20 = 755707 := daysBeforeYear_eq 2069
    rw [stampEnd_eq] at inRange
    omega

/-- The year that `localtime` gives is right but for the last days of a year. -/
theorem years_iff (isStamp : moment.secondsSince epoch = stamp)
    (first : 1970 ≤ moment.date.year) (last : moment.date.year ≤ 2069) :
    (localtime stamp time).year = (moment.date.year : Int) - 1900 ↔
      leapDays moment.date.year + moment.date.dayOfYear ≤ 365 := by
  have days := (stamp_parts isStamp).1
  have before := daysBeforeYear_since first last
  have inYear := moment.date.dayOfYear_le
  have positive := moment.date.dayOfYear_pos
  have atMost : yearDays moment.date.year ≤ 366 := by
    unfold yearDays
    split <;> omega
  unfold Date.number at days
  rw [leapDays_eq first (by omega)]
  unfold localtime
  dsimp only
  omega

/-- What `localtime` computes when the year is right. -/
theorem localtime_of_early (isStamp : moment.secondsSince epoch = stamp)
    (first : 1970 ≤ moment.date.year) (last : moment.date.year ≤ 2069)
    (early : leapDays moment.date.year + moment.date.dayOfYear ≤ 365) {offset : Nat}
    (isOffset : offset = if IsLeap moment.date.year then 0 else 1) :
    ∃ yday : Int, yday = (365 * (moment.date.year - 1970) + moment.date.dayOfYear - 1) %
        (366 - offset) ∧
      ∃ mon : Nat, mon = searchMonth yday offset 12 1 - 1 ∧
        (localtime stamp time).mon = mon ∧
        (localtime stamp time).mday = yday - month.getD mon 0 + offset + 1 := by
  obtain ⟨years, isYears⟩ := Nat.exists_eq_add_of_le first
  have days := (stamp_parts isStamp).1
  have before := daysBeforeYear_since first last
  have positive := moment.date.dayOfYear_pos
  rw [leapDays_eq first (by omega)] at early
  unfold Date.number at days
  have isYear : ((stamp / 60 / 60 / 24 : Nat) : Int) / 365 + 70 = years + 70 := by omega
  have leap : isLeapYear (years + 70) = decide (IsLeap moment.date.year) := by
    unfold isLeapYear
    rw [decide_eq_decide, isLeap_iff first last, Int.tmod_eq_emod_of_nonneg (by omega),
      Int.tmod_eq_emod_of_nonneg (by omega), Int.tmod_eq_emod_of_nonneg (by omega)]
    omega
  have elapsed : elapsedLeapYears (years + 70) = ((years + 1) / 4 : Nat) := by
    unfold elapsedLeapYears
    rw [Int.tdiv_eq_ediv_of_nonneg (by omega), Int.tdiv_eq_ediv_of_nonneg (by omega),
      Int.tdiv_eq_ediv_of_nonneg (by omega)]
    omega
  have offsets : (if isLeapYear (years + 70) then (0 : Int) else 1) = offset := by
    rw [leap, isOffset]
    by_cases isLeap : IsLeap moment.date.year <;> simp [isLeap]
  have yday : (sub32 (stamp / 60 / 60 / 24) (toUnsigned ((years + 1) / 4 : Nat)) : Int) =
      365 * (moment.date.year - 1970) + moment.date.dayOfYear - 1 := by
    rw [toUnsigned_natCast (by omega), sub32_eq (by omega)]
    omega
  refine ⟨_, rfl, _, rfl, ?_, ?_⟩
  · unfold localtime
    dsimp only
    rw [isYear, elapsed, offsets, yday]
  · unfold localtime
    dsimp only
    rw [isYear, elapsed, offsets, yday]

/-- The month and the day are right only if the day of the year is, and the entry of the
table takes the correction for common years. -/
theorem counted_of_shows (isStamp : moment.secondsSince epoch = stamp)
    (first : 1970 ≤ moment.date.year) (last : moment.date.year ≤ 2069)
    (shows : (localtime stamp time).ShowsYears moment) : moment.date.Counted := by
  have early := (years_iff time isStamp first last).mp shows.year
  obtain ⟨yday, isYday, mon, _, isMon, isMday⟩ :=
    localtime_of_early time isStamp first last early rfl
  have sameMon : mon = moment.date.month := by
    have shown := shows.mon
    rw [isMon] at shown
    exact_mod_cast shown
  have inYear := moment.date.dayOfYear_le
  have positive := moment.date.dayOfYear_pos
  have day : (moment.date.dayOfYear : Int) =
      daysBeforeMonth moment.date.year moment.date.month + moment.date.day := by
    unfold Date.dayOfYear
    push_cast
    rfl
  rw [shows.mday, sameMon, month_date] at isMday
  unfold yearDays at inYear
  by_cases leap : IsLeap moment.date.year
  · -- the remainder by 366 loses a day for each year since 1970
    have fourth := (isLeap_iff first last).mp leap
    simp only [leap, not_true_eq_false, and_false, if_true, if_false] at isMday isYday inYear
    omega
  · simp only [leap, not_false_eq_true, and_true, if_false] at isMday isYday inYear
    refine ⟨leap, ?_, early⟩
    by_contra winter
    rw [if_neg winter] at isMday
    omega

/-- After February of a common year the table is one too much, as the day is. -/
theorem shows_of_counted (isStamp : moment.secondsSince epoch = stamp)
    (first : 1970 ≤ moment.date.year) (last : moment.date.year ≤ 2069)
    (counted : moment.date.Counted) : (localtime stamp time).ShowsYears moment := by
  obtain ⟨common, afterFebruary, early⟩ := counted
  obtain ⟨yday, isYday, mon, found, isMon, isMday⟩ :=
    localtime_of_early time isStamp first last early rfl
  have inYear := moment.date.dayOfYear_le
  have positive := moment.date.dayOfYear_pos
  have day : moment.date.dayOfYear =
      daysBeforeMonth moment.date.year moment.date.month + moment.date.day := rfl
  have inMonth := moment.date.dayOfYear_le_month
  have dayPos := moment.date.day_pos
  have monthLe := moment.date.month_le
  simp only [yearDays, common, if_false] at inYear isYday
  have sameDay : yday = moment.date.dayOfYear - 1 := by omega
  have search : searchMonth yday 1 12 1 = moment.date.month + 1 := by
    apply searchMonth_eq (by omega) (by omega)
    · intro index least most
      rw [month_eq moment.date.year least (by omega)]
      have atMost := daysBeforeMonth_mono moment.date.year (Nat.lt_succ_iff.mp most)
      split <;> omega
    · intro inside
      rw [month_eq moment.date.year (by omega) (by omega), if_pos ⟨by omega, common⟩]
      omega
  rw [if_neg common] at found isMday
  have sameMon : mon = moment.date.month := by
    rw [found, Nat.cast_one, search]
    rfl
  rw [sameMon, month_date, if_pos ⟨afterFebruary, common⟩] at isMday
  obtain ⟨days, hour, minute, second⟩ := stamp_parts isStamp
  refine ⟨⟨?_, ?_, ?_, ?_, ?_⟩, (years_iff time isStamp first last).mpr early, ?_⟩
  · exact congrArg Nat.cast second
  · exact congrArg Nat.cast minute
  · exact congrArg Nat.cast hour
  · rw [isMday]
    omega
  · rw [isMon, sameMon]
  · unfold Date.weekday
    rw [← days]
    unfold localtime
    dsimp only
    omega

end Stamp

/-- The stamps for which `localtime` gives the right date are those of the dates that it
counts right, and `mktime` then gives the stamp back. -/
theorem roundTrips_iff_counted (stamp : Nat) (time : Tm) (inRange : stamp < stampEnd) :
    ∃ moment : Moment, moment.secondsSince epoch = stamp ∧ 1970 ≤ moment.date.year ∧
      moment.date.year ≤ 2069 ∧ (RoundTrips stamp time moment ↔ moment.date.Counted) := by
  obtain ⟨moment, isStamp, first, last⟩ := exists_moment inRange
  refine ⟨moment, isStamp, first, last, fun roundTrips => ?_, fun counted => ?_⟩
  · exact counted_of_shows time isStamp first last roundTrips.shows
  · have shows := shows_of_counted time isStamp first last counted
    refine ⟨shows, ?_⟩
    have year : sinceEpoch (localtime stamp time).year = (moment.date.year : Int) - 1970 := by
      rw [shows.year]
      unfold sinceEpoch
      rw [if_pos (by omega)]
      omega
    obtain ⟨value, made, isValue⟩ := mktime_eq shows.toShows year first last
    rw [made, show value = stamp by omega]

/-- The beginning of 1970 comes out as the second of January. -/
theorem roundTrips_fails :
    ¬∀ (stamp : Nat) (time : Tm), stamp < stampEnd →
      ∃ moment : Moment, moment.secondsSince epoch = stamp ∧ RoundTrips stamp time moment := by
  intro always
  have positive : 0 < stampEnd := by
    rw [stampEnd_eq]
    decide
  obtain ⟨moment, _, roundTrips⟩ := always 0 ⟨0, 0, 0, 0, 0, 0, 0, 0, 0⟩ positive
  have back := roundTrips.back
  revert back
  decide

/-- The first of March 1970. -/
theorem exists_firstOfMarch : ∃ date : Date, date.Counted ∧ date.number = epoch.number + 59 := by
  refine ⟨⟨1970, 3, 1, ?_, ?_, ?_, ?_, ?_⟩, ⟨?_, ?_, ?_⟩, ?_⟩
  iterate 8 decide
  rw [number_epoch, Date.number, daysBeforeYear_epoch]
  rfl

theorem roundTrips_iff_counted_march :
    ∃ moment : Moment, moment.secondsSince epoch = (5097600 : Nat) ∧ moment.date.Counted ∧
      RoundTrips 5097600 ⟨0, 0, 0, 0, 0, 0, 0, 0, 0⟩ moment := by
  obtain ⟨moment, isStamp, _, _, iff⟩ :=
    roundTrips_iff_counted 5097600 ⟨0, 0, 0, 0, 0, 0, 0, 0, 0⟩ (by rw [stampEnd_eq]; decide)
  obtain ⟨march, isCounted, number⟩ := exists_firstOfMarch
  have inDay := moment.secondOfDay_lt
  have isMarch : moment.date = march := Date.number_injective (by
    rw [number]
    unfold Moment.secondsSince at isStamp
    omega)
  have counted : moment.date.Counted := isMarch ▸ isCounted
  exact ⟨moment, isStamp, counted, iff.mpr counted⟩

end Time

end LightOS
