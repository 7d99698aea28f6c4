import ServerTech.Foundation.Calendar

namespace ServerTech
namespace DarkEden

open Calendar

/-!
# Weeks

`Util.cpp` decides whether two times fall in the same week and whether one falls
in the week after the other.  Local time has a fixed offset from UTC, and a week
lasts from Monday 00:00 to Sunday 24:00.

`isNextWeek` goes through the end of the week of its first argument and is
exact.  `isSameWeek` compares days of the year and days of the week, and
neither knows the year.

A `time_t` is an integer here: the years that fit into `tm_year` stay far from
the ends of 64 bits.
-/

/-! ## The functions -/

/-- The days of the week from Monday, 1, to Sunday, 7. -/
def wdayFromMonday (wday : Int) : Int :=
  if wday = 0 then 7 else wday

/-- `GetTimeStamp(t, week, hour, min, sec)`. -/
def getTimeStamp (offset t : Int) (week hour min sec : UInt32) : Int :=
  let t0 := localtime offset t
  let t1 := { t0 with hour := hour.toInt32.toInt, min := min.toInt32.toInt, sec := sec.toInt32.toInt }
  let startTime := mktime offset t1
  let wk := UInt32.ofInt (wdayFromMonday t0.wday)
  if wk < week then startTime + ((week - wk) * 60 * 60 * 24).toNat
  else if week < wk then startTime + ((7 - wk + week) * 60 * 60 * 24).toNat
  else startTime

def isNextWeek (offset now nextweek : Int) : Bool :=
  if nextweek ≤ now then false
  else
    let thisweekend := getTimeStamp offset now 0 23 59 59
    let nextweekend := thisweekend + 7 * 60 * 60 * 24
    decide (thisweekend < nextweek ∧ nextweek ≤ nextweekend)

def isSameWeek (offset t1 t2 : Int) : Bool :=
  let big := if t2 ≤ t1 then t1 else t2
  let smal := if t2 ≤ t1 then t2 else t1
  let bigtm := localtime offset big
  let smaltm := localtime offset smal
  let days := bigtm.yday - smaltm.yday
  let weeks := wdayFromMonday bigtm.wday - wdayFromMonday smaltm.wday
  decide (days.natAbs < 7 ∧ 0 ≤ weeks)

/-- The week a time falls in. -/
def week (offset time : Int) : Int :=
  weekOf (localDay offset time)

/-! ## The next week -/

theorem wdayFromMonday_weekday (day : Int) :
    wdayFromMonday (weekday day) = day - 7 * weekOf day + 1 := by
  unfold wdayFromMonday weekday weekOf
  by_cases sunday : (day + 1) % 7 = 0
  · rw [if_pos sunday]
    omega
  · rw [if_neg sunday]
    omega

/-- Local midnight of a day. -/
def midnight (offset day : Int) : Int :=
  (day - epoch) * 86400 - offset

/-- The unsigned distance from a day of the week to Sunday. -/
theorem secondsToSunday {wday : Int} (first : 1 ≤ wday) (last : wday ≤ 7) :
    0 < UInt32.ofInt wday ∧
      (((7 - UInt32.ofInt wday + 0) * 60 * 60 * 24).toNat : Int) = (7 - wday) * 86400 := by
  have cases : wday = 1 ∨ wday = 2 ∨ wday = 3 ∨ wday = 4 ∨ wday = 5 ∨ wday = 6 ∨ wday = 7 := by
    omega
  rcases cases with rfl | rfl | rfl | rfl | rfl | rfl | rfl <;> decide

/-- With 0 for the day of the week, the time stamp is one of the Sunday that ends
the week. -/
theorem getTimeStamp_sunday (offset t : Int) :
    getTimeStamp offset t 0 23 59 59 = midnight offset (7 * (week offset t + 1)) - 1 := by
  have wday : wdayFromMonday (localtime offset t).wday =
      localDay offset t - 7 * weekOf (localDay offset t) + 1 := wdayFromMonday_weekday _
  have range : 1 ≤ wdayFromMonday (localtime offset t).wday ∧
      wdayFromMonday (localtime offset t).wday ≤ 7 := by
    unfold weekOf at wday
    omega
  rcases secondsToSunday range.1 range.2 with ⟨positive, distance⟩
  have start := mktime_setTime offset t 23 59 59
  simp only [getTimeStamp]
  rw [if_neg (UInt32.not_lt.mpr (UInt32.le_of_lt positive)), if_pos positive, distance, wday]
  refine (congrArg (· + _) start).trans ?_
  rw [midnight, week]
  omega

theorem week_eq_iff (offset time week : Int) :
    DarkEden.week offset time = week <->
      midnight offset (7 * week) ≤ time ∧ time < midnight offset (7 * (week + 1)) := by
  unfold DarkEden.week weekOf localDay midnight
  omega

/-- `isNextWeek` is exact. -/
theorem isNextWeek_iff (offset now nextweek : Int) :
    isNextWeek offset now nextweek = true <-> week offset nextweek = week offset now + 1 := by
  have current := (week_eq_iff offset now (week offset now)).mp rfl
  have later : midnight offset (7 * (week offset now + 1 + 1)) =
      midnight offset (7 * (week offset now + 1)) + 604800 := by
    unfold midnight
    omega
  rw [week_eq_iff, isNextWeek]
  by_cases past : nextweek ≤ now
  · rw [if_pos past]
    constructor
    · intro absurdity
      exact absurd absurdity Bool.false_ne_true
    · intro inside
      omega
  · rw [if_neg past, getTimeStamp_sunday, decide_eq_true_eq]
    omega

/-! ## The same week -/

theorem isSameWeek_comm (offset t1 t2 : Int) : isSameWeek offset t1 t2 = isSameWeek offset t2 t1 := by
  rcases Int.lt_trichotomy t1 t2 with less | rfl | greater
  · simp only [isSameWeek, if_neg (Int.not_le.mpr less), if_pos (Int.le_of_lt less)]
  · rfl
  · simp only [isSameWeek, if_neg (Int.not_le.mpr greater), if_pos (Int.le_of_lt greater)]

theorem isSameWeek_fields {offset earlier later : Int} (ordered : earlier ≤ later) :
    isSameWeek offset later earlier = true <->
      (dayOfYear (localDay offset later) - dayOfYear (localDay offset earlier)).natAbs < 7 ∧
        wdayFromMonday (weekday (localDay offset earlier)) ≤
          wdayFromMonday (weekday (localDay offset later)) := by
  simp only [isSameWeek, if_pos ordered, localtime_yday, localtime_wday, decide_eq_true_eq,
    Int.sub_nonneg]

theorem localDay_mono (offset : Int) {earlier later : Int} (ordered : earlier ≤ later) :
    localDay offset earlier ≤ localDay offset later := by
  unfold localDay
  omega

/-- Within a year, the days of the year are as far apart as the days. -/
theorem sameYear_fields {first second : Int} (ordered : first ≤ second)
    (year : yearOf first = yearOf second) :
    (dayOfYear second - dayOfYear first).natAbs < 7 ∧
        wdayFromMonday (weekday first) ≤ wdayFromMonday (weekday second) <->
      weekOf second = weekOf first := by
  have distance : dayOfYear second - dayOfYear first = second - first := by
    unfold dayOfYear
    rw [year]
    omega
  rw [distance, wdayFromMonday_weekday, wdayFromMonday_weekday]
  unfold weekOf
  omega

/-- Days of one week on both sides of a new year have days of the year that are
almost a year apart. -/
theorem newYear_fields {first second : Int} (ordered : first ≤ second)
    (year : yearOf first ≠ yearOf second) (same : weekOf second = weekOf first) :
    7 ≤ (dayOfYear second - dayOfYear first).natAbs := by
  have firstYear := yearOf_spec first
  have secondYear := yearOf_spec second
  have later : yearOf first < yearOf second := by
    rcases Int.lt_trichotomy (yearOf first) (yearOf second) with less | equal | greater
    · exact less
    · exact absurd equal year
    · have beyond := daysBeforeYear_mono (Int.add_one_le_of_lt greater)
      omega
  have boundary := daysBeforeYear_mono (Int.add_one_le_of_lt later)
  have length := daysBeforeYear_succ (yearOf first)
  have long := daysInYear_cases (yearOf first)
  unfold weekOf at same
  unfold dayOfYear
  omega

/-- The years are the same, or the weeks differ and so do the days of the year by
a week or the days of the week in the other direction. -/
def Comparable (offset earlier later : Int) : Prop :=
  (localtime offset earlier).year = (localtime offset later).year ∨
    week offset later ≠ week offset earlier ∧
      (7 ≤ ((localtime offset later).yday - (localtime offset earlier).yday).natAbs ∨
        wdayFromMonday (localtime offset later).wday < wdayFromMonday (localtime offset earlier).wday)

theorem isSameWeek_ordered {offset earlier later : Int} (ordered : earlier ≤ later) :
    (isSameWeek offset later earlier = true <-> week offset later = week offset earlier) <->
      Comparable offset earlier later := by
  have days := localDay_mono offset ordered
  have years : (localtime offset earlier).year = (localtime offset later).year <->
      yearOf (localDay offset earlier) = yearOf (localDay offset later) :=
    Int.sub_left_inj 1900
  rw [isSameWeek_fields ordered, Comparable, years, localtime_yday, localtime_yday, localtime_wday,
    localtime_wday]
  by_cases year : yearOf (localDay offset earlier) = yearOf (localDay offset later)
  · exact iff_of_true (sameYear_fields days year) (.inl year)
  · by_cases same : week offset later = week offset earlier
    · have apart := newYear_fields days year same
      constructor
      · intro exact
        have near := (exact.mpr same).1
        omega
      · rintro (equal | ⟨different, -⟩)
        · exact absurd equal year
        · exact absurd same different
    · constructor
      · intro exact
        refine .inr ⟨same, ?_⟩
        have not := mt exact.mp same
        omega
      · rintro (equal | ⟨-, apart⟩)
        · exact absurd equal year
        · refine iff_of_false ?_ same
          omega

/-- The comparison of weeks is right exactly on the pairs where the missing year
does no harm. -/
theorem isSameWeek_iff (offset t1 t2 : Int) :
    (isSameWeek offset t1 t2 = true <-> week offset t1 = week offset t2) <->
      Comparable offset (min t1 t2) (max t1 t2) := by
  rcases Int.le_total t1 t2 with ordered | ordered
  · rw [Int.min_eq_left ordered, Int.max_eq_right ordered, ← isSameWeek_ordered ordered,
      isSameWeek_comm, eq_comm (a := week offset t1)]
  · rw [Int.min_eq_right ordered, Int.max_eq_left ordered, ← isSameWeek_ordered ordered]

/-- Tuesday, 31 December 2024 and the day after it; 1 January 2020 and 2 January
2025, a Wednesday and a Thursday. -/
theorem isSameWeek_newYear :
    ¬ (isSameWeek 0 1735603200 1735689600 = true <-> week 0 1735603200 = week 0 1735689600) ∧
      ¬ (isSameWeek 0 1577836800 1735776000 = true <-> week 0 1577836800 = week 0 1735776000) := by
  decide +kernel

end DarkEden
end ServerTech
