import Mathlib.Data.Nat.Find
import Mathlib.Order.Monotone.Basic

namespace ServerTech
namespace Calendar

/-!
# The Gregorian calendar

Days are counted from 1 January of the year 1, which was a Monday, in both
directions.  A year is the interval of days between two of its beginnings, a
month an interval of days of a year, and a week seven days from a Monday on.
`localtime` and `mktime` are the conversions of the C library for a fixed offset
from UTC, and they are inverse to each other.
-/

/-! ## Years -/

def isLeap (year : Int) : Bool :=
  decide (year % 4 = 0 ∧ year % 100 ≠ 0 ∨ year % 400 = 0)

def daysInYear (year : Int) : Int :=
  if isLeap year then 366 else 365

/-- The number of the first day of a year. -/
def daysBeforeYear (year : Int) : Int :=
  365 * (year - 1) + (year - 1) / 4 - (year - 1) / 100 + (year - 1) / 400

theorem daysBeforeYear_succ (year : Int) :
    daysBeforeYear (year + 1) = daysBeforeYear year + daysInYear year := by
  unfold daysBeforeYear daysInYear isLeap
  by_cases leap : year % 4 = 0 ∧ year % 100 ≠ 0 ∨ year % 400 = 0
  · rw [if_pos (decide_eq_true leap)]
    omega
  · rw [if_neg (by rw [decide_eq_true_eq]; exact leap)]
    omega

theorem daysInYear_cases (year : Int) : daysInYear year = 365 ∨ daysInYear year = 366 := by
  unfold daysInYear
  by_cases leap : isLeap year = true
  · exact .inr (if_pos leap)
  · exact .inl (if_neg leap)

theorem daysBeforeYear_mono {first second : Int} (ordered : first ≤ second) :
    daysBeforeYear first ≤ daysBeforeYear second := by
  unfold daysBeforeYear
  omega

/-- The year of a day.  The average length of a year gives it up to one. -/
def yearOf (day : Int) : Int :=
  let guess := 400 * day / 146097 + 1
  if day < daysBeforeYear guess then guess - 1
  else if daysBeforeYear (guess + 1) ≤ day then guess + 1
  else guess

theorem yearOf_spec (day : Int) :
    daysBeforeYear (yearOf day) ≤ day ∧ day < daysBeforeYear (yearOf day + 1) := by
  have near : daysBeforeYear (400 * day / 146097 + 1 - 1) ≤ day ∧
      day < daysBeforeYear (400 * day / 146097 + 1 + 1 + 1) := by
    unfold daysBeforeYear
    omega
  unfold yearOf
  by_cases early : day < daysBeforeYear (400 * day / 146097 + 1)
  · rw [if_pos early, Int.sub_add_cancel]
    exact ⟨near.1, early⟩
  · rw [if_neg early]
    by_cases late : daysBeforeYear (400 * day / 146097 + 1 + 1) ≤ day
    · rw [if_pos late]
      exact ⟨late, near.2⟩
    · rw [if_neg late]
      exact ⟨Int.not_lt.mp early, Int.not_le.mp late⟩

theorem yearOf_unique {day year : Int} (begun : daysBeforeYear year ≤ day)
    (lasting : day < daysBeforeYear (year + 1)) : yearOf day = year := by
  have spec := yearOf_spec day
  rcases Int.lt_trichotomy (yearOf day) year with earlier | same | later
  · have beyond := daysBeforeYear_mono (Int.add_one_le_of_lt earlier)
    omega
  · exact same
  · have beyond := daysBeforeYear_mono (Int.add_one_le_of_lt later)
    omega

theorem yearOf_mono {first second : Int} (ordered : first ≤ second) : yearOf first ≤ yearOf second := by
  by_contra later
  have beyond := daysBeforeYear_mono (Int.add_one_le_of_lt (Int.not_le.mp later))
  have firstSpec := yearOf_spec first
  have secondSpec := yearOf_spec second
  omega

/-- The number of a day in its year, from zero on. -/
def dayOfYear (day : Int) : Int :=
  day - daysBeforeYear (yearOf day)

theorem dayOfYear_bounds (day : Int) :
    0 ≤ dayOfYear day ∧ dayOfYear day < daysInYear (yearOf day) := by
  have spec := yearOf_spec day
  rw [daysBeforeYear_succ] at spec
  unfold dayOfYear
  omega

theorem dayOfYear_eq {day year : Int} (begun : daysBeforeYear year ≤ day)
    (lasting : day < daysBeforeYear (year + 1)) :
    dayOfYear day = day - daysBeforeYear year := by
  rw [dayOfYear, yearOf_unique begun lasting]

/-! ## Months -/

/-- The length of a month, from 1 to 12. -/
def daysInMonth (year month : Int) : Int :=
  if month = 2 then (if isLeap year then 29 else 28)
  else if month = 4 ∨ month = 6 ∨ month = 9 ∨ month = 11 then 30
  else 31

/-- The days of a year before a month, counted from 0 to 12 as `tm_mon` counts. -/
def daysBeforeMonth (year : Int) : Nat -> Int
  | 0 => 0
  | month + 1 => daysBeforeMonth year month + daysInMonth year (month + 1)

theorem daysInMonth_pos (year month : Int) : 0 < daysInMonth year month := by
  unfold daysInMonth
  split_ifs <;> decide

theorem daysInMonth_le (year month : Int) : daysInMonth year month ≤ 31 := by
  unfold daysInMonth
  split_ifs <;> decide

theorem daysBeforeMonth_mono (year : Int) {first second : Nat} (ordered : first ≤ second) :
    daysBeforeMonth year first ≤ daysBeforeMonth year second := by
  refine monotone_nat_of_le_succ ?_ ordered
  intro month
  have longer := daysInMonth_pos year (month + 1)
  rw [daysBeforeMonth]
  omega

theorem daysBeforeMonth_twelve (year : Int) : daysBeforeMonth year 12 = daysInYear year := by
  unfold daysInYear
  simp only [daysBeforeMonth, daysInMonth]
  cases isLeap year <;> decide

/-- The month of a day of a year: the last one that has begun. -/
def monthOf (year yday : Int) : Nat :=
  Nat.findGreatest (fun month => daysBeforeMonth year month ≤ yday) 11

theorem monthOf_le (year yday : Int) : monthOf year yday ≤ 11 :=
  Nat.findGreatest_le 11

theorem monthOf_spec {year yday : Int} (begun : 0 ≤ yday) (lasting : yday < daysInYear year) :
    daysBeforeMonth year (monthOf year yday) ≤ yday ∧
      yday < daysBeforeMonth year (monthOf year yday + 1) := by
  constructor
  · exact Nat.findGreatest_spec (P := fun month => daysBeforeMonth year month ≤ yday)
      (Nat.zero_le 11) begun
  · rcases Nat.lt_or_eq_of_le (monthOf_le year yday) with earlier | december
    · apply Int.not_le.mp
      exact Nat.findGreatest_is_greatest (Nat.lt_succ_self (monthOf year yday)) earlier
    · rw [december, daysBeforeMonth_twelve]
      exact lasting

theorem monthOf_unique {year yday : Int} {month : Nat} (small : month ≤ 11)
    (begun : daysBeforeMonth year month ≤ yday)
    (lasting : yday < daysBeforeMonth year (month + 1)) : monthOf year yday = month := by
  apply Nat.findGreatest_eq_iff.mpr
  refine ⟨small, fun _ => begun, ?_⟩
  intro later after _ reached
  have ordered := daysBeforeMonth_mono year (Nat.succ_le_of_lt after)
  exact absurd (Int.le_trans ordered reached) (Int.not_le.mpr lasting)

/-! ## Dates -/

/-- The number of the day with a year, a month from 0 on and a day of the month.
Months beyond a year count into the years around it. -/
def dayNumber (year month mday : Int) : Int :=
  daysBeforeYear (year + month / 12) +
    daysBeforeMonth (year + month / 12) (month % 12).toNat + (mday - 1)

/-- The day of the month, from 1 on. -/
def dayOfMonth (day : Int) : Int :=
  dayOfYear day - daysBeforeMonth (yearOf day) (monthOf (yearOf day) (dayOfYear day)) + 1

theorem dayNumber_month {year : Int} {month : Nat} (small : month ≤ 11) (mday : Int) :
    dayNumber year month mday =
      daysBeforeYear year + daysBeforeMonth year month + (mday - 1) := by
  have quotient : (month : Int) / 12 = 0 := by omega
  have remainder : ((month : Int) % 12).toNat = month := by omega
  rw [dayNumber, quotient, remainder, Int.add_zero]

/-- The date of a day has its number. -/
theorem dayNumber_date (day : Int) :
    dayNumber (yearOf day) (monthOf (yearOf day) (dayOfYear day)) (dayOfMonth day) = day := by
  rw [dayNumber_month (monthOf_le _ _), dayOfMonth]
  unfold dayOfYear
  omega

/-- A date is that of the day with its number. -/
theorem date_dayNumber {year mday : Int} {month : Nat} (small : month ≤ 11) (first : 1 ≤ mday)
    (last : mday ≤ daysInMonth year (month + 1)) :
    yearOf (dayNumber year month mday) = year ∧
      monthOf year (dayOfYear (dayNumber year month mday)) = month ∧
      dayOfMonth (dayNumber year month mday) = mday := by
  have before : 0 ≤ daysBeforeMonth year month := daysBeforeMonth_mono year (Nat.zero_le month)
  have next : daysBeforeMonth year month + daysInMonth year (month + 1) ≤ daysInYear year := by
    rw [← daysBeforeMonth_twelve]
    exact daysBeforeMonth_mono year (Nat.succ_le_succ small)
  have succ := daysBeforeYear_succ year
  have number : dayNumber year month mday =
      daysBeforeYear year + daysBeforeMonth year month + (mday - 1) := dayNumber_month small mday
  have begun : daysBeforeYear year ≤ dayNumber year month mday := by omega
  have lasting : dayNumber year month mday < daysBeforeYear (year + 1) := by omega
  have inYear := yearOf_unique begun lasting
  have yday := dayOfYear_eq begun lasting
  have inMonth : monthOf year (dayOfYear (dayNumber year month mday)) = month := by
    apply monthOf_unique small
    · omega
    · rw [daysBeforeMonth]
      omega
  refine ⟨inYear, inMonth, ?_⟩
  rw [dayOfMonth, inYear, inMonth]
  omega

/-! ## Weeks -/

/-- The day of the week, with 0 for Sunday. -/
def weekday (day : Int) : Int :=
  (day + 1) % 7

/-- The number of the week of a day.  Weeks begin on Mondays. -/
def weekOf (day : Int) : Int :=
  day / 7

/-! ## Clocks -/

/-- The fields of `struct tm`, without `tm_isdst`. -/
structure Tm where
  sec : Int
  min : Int
  hour : Int
  mday : Int
  mon : Int
  year : Int
  wday : Int
  yday : Int
  deriving DecidableEq

/-- The number of 1 January 1970. -/
def epoch : Int :=
  719162

/-- The local day of a time in seconds since the epoch. -/
def localDay (offset time : Int) : Int :=
  (time + offset) / 86400 + epoch

/-- The seconds since local midnight. -/
def secondOfDay (offset time : Int) : Int :=
  (time + offset) % 86400

/-- `localtime` at a fixed offset from UTC. -/
def localtime (offset time : Int) : Tm :=
  let day := localDay offset time
  let second := secondOfDay offset time
  { sec := second % 60
    min := second / 60 % 60
    hour := second / 3600
    mday := dayOfMonth day
    mon := monthOf (yearOf day) (dayOfYear day)
    year := yearOf day - 1900
    wday := weekday day
    yday := dayOfYear day }

@[simp] theorem localtime_wday (offset time : Int) :
    (localtime offset time).wday = weekday (localDay offset time) :=
  rfl

@[simp] theorem localtime_yday (offset time : Int) :
    (localtime offset time).yday = dayOfYear (localDay offset time) :=
  rfl

/-- `mktime` at a fixed offset from UTC.  Fields out of their range carry over. -/
def mktime (offset : Int) (tm : Tm) : Int :=
  (dayNumber (tm.year + 1900) tm.mon tm.mday - epoch) * 86400 +
    tm.hour * 3600 + tm.min * 60 + tm.sec - offset

/-- Setting the time of day keeps the day. -/
theorem mktime_setTime (offset time hour min sec : Int) :
    mktime offset { localtime offset time with hour := hour, min := min, sec := sec } =
      (localDay offset time - epoch) * 86400 + hour * 3600 + min * 60 + sec - offset := by
  simp only [mktime, localtime, Int.sub_add_cancel, dayNumber_date]

theorem mktime_localtime (offset time : Int) : mktime offset (localtime offset time) = time := by
  have kept := mktime_setTime offset time (localtime offset time).hour (localtime offset time).min
    (localtime offset time).sec
  refine kept.trans ?_
  simp only [localtime, localDay, secondOfDay]
  omega

/-- The fields of a date and a time of day are in their ranges. -/
structure Tm.Valid (tm : Tm) : Prop where
  sec : 0 ≤ tm.sec ∧ tm.sec ≤ 59
  min : 0 ≤ tm.min ∧ tm.min ≤ 59
  hour : 0 ≤ tm.hour ∧ tm.hour ≤ 23
  mon : 0 ≤ tm.mon ∧ tm.mon ≤ 11
  mday : 1 ≤ tm.mday ∧ tm.mday ≤ daysInMonth (tm.year + 1900) (tm.mon + 1)

theorem localtime_valid (offset time : Int) : (localtime offset time).Valid := by
  have inYear := dayOfYear_bounds (localDay offset time)
  have inMonth := monthOf_spec inYear.1 inYear.2
  have december := monthOf_le (yearOf (localDay offset time)) (dayOfYear (localDay offset time))
  rw [daysBeforeMonth] at inMonth
  have second : 0 ≤ secondOfDay offset time ∧ secondOfDay offset time < 86400 := by
    unfold secondOfDay
    omega
  constructor
  case mday =>
    simp only [localtime, dayOfMonth, Int.sub_add_cancel]
    omega
  all_goals
    simp only [localtime]
    omega

theorem localDay_mktime (offset : Int) {tm : Tm} (valid : tm.Valid) :
    localDay offset (mktime offset tm) = dayNumber (tm.year + 1900) tm.mon tm.mday ∧
      secondOfDay offset (mktime offset tm) = tm.hour * 3600 + tm.min * 60 + tm.sec := by
  have sec := valid.sec
  have min := valid.min
  have hour := valid.hour
  unfold localDay secondOfDay mktime
  omega

/-- The fields of a valid time are read back, and the two others are filled in. -/
theorem localtime_mktime (offset : Int) {tm : Tm} (valid : tm.Valid) :
    localtime offset (mktime offset tm) =
      { tm with
        wday := weekday (dayNumber (tm.year + 1900) tm.mon tm.mday)
        yday := dayOfYear (dayNumber (tm.year + 1900) tm.mon tm.mday) } := by
  rcases tm with ⟨sec, min, hour, mday, mon, year, wday, yday⟩
  rcases valid with ⟨secRange, minRange, hourRange, monRange, mdayRange⟩
  rcases Int.eq_ofNat_of_zero_le monRange.1 with ⟨month, rfl⟩
  have valid : Tm.Valid ⟨sec, min, hour, mday, month, year, wday, yday⟩ :=
    ⟨secRange, minRange, hourRange, monRange, mdayRange⟩
  have small : month ≤ 11 := Int.ofNat_le.mp monRange.2
  rcases date_dayNumber small mdayRange.1 mdayRange.2 with ⟨inYear, inMonth, inDay⟩
  rcases localDay_mktime offset valid with ⟨day, second⟩
  simp only at secRange minRange hourRange inYear inMonth inDay day second
  simp only [localtime, day, second, inYear, inMonth, inDay, Tm.mk.injEq, true_and, and_true]
  refine ⟨?_, ?_, ?_, ?_⟩ <;> omega

example : localtime 0 (mktime 0 ⟨0, 0, 0, 1, 0, 124, 0, 0⟩) = ⟨0, 0, 0, 1, 0, 124, 1, 0⟩ := by
  decide +kernel

end Calendar
end ServerTech
