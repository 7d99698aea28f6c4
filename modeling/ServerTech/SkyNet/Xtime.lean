import ServerTech.Foundation.Daily

namespace ServerTech
namespace SkyNet

open Calendar

/-!
# Logical days

A logical day begins at a full hour, for instance at five in the morning.
`getZeroTimeStamp` gives the beginning of the logical day of a time, and
`isOverDay` decides whether the current time lies in a later one.  Local time
has a fixed offset from UTC, here called the zone.
-/

/-! ## The functions -/

/-- `OneDay`. -/
def oneDay : Int :=
  86400

/-- `getZeroTimeStamp`, where `clock` is the current time. -/
def getZeroTimeStamp (zone clock timestamp offset : Int) : Int :=
  let timestamp := if timestamp = 0 then clock else timestamp
  let zeroTm := { localtime zone timestamp with min := 0, sec := 0 }
  if offset ≤ zeroTm.hour then mktime zone { zeroTm with hour := offset }
  else mktime zone { zeroTm with hour := offset } - oneDay

/-- `isOverDay`, where `now` is the current time. -/
def isOverDay (zone now timestamp offset : Int) : Bool :=
  if timestamp = 0 then true
  else
    let timestampZero := getZeroTimeStamp zone now timestamp offset
    if timestampZero + oneDay < timestamp then true
    else if timestampZero + oneDay < now then true
    else false

/-! ## The beginning of a day -/

/-- An hour from 0 to 23. -/
def IsHour (offset : Int) : Prop :=
  0 ≤ offset ∧ offset ≤ 23

/-- The function gives the last time at the full hour. -/
theorem getZeroTimeStamp_eq {timestamp offset : Int} (zone clock : Int) (hour : IsHour offset)
    (given : timestamp ≠ 0) :
    getZeroTimeStamp zone clock timestamp offset = lastAt zone (offset * 3600) timestamp := by
  rcases hour with ⟨low, high⟩
  have day := mktime_setTime zone timestamp offset 0 0
  have clockHour : (localtime zone timestamp).hour = secondOfDay zone timestamp / 3600 := rfl
  simp only [getZeroTimeStamp, if_neg given, day, clockHour]
  unfold lastAt localDay secondOfDay oneDay
  split_ifs with reached <;> omega

/-- The logical day of a time begins at the last full hour up to it. -/
structure DayBegins (zone offset timestamp zero : Int) : Prop where
  greatest : IsGreatest {time | time ≤ timestamp ∧ AtHour zone offset time} zero
  bracket : zero ≤ timestamp ∧ timestamp < zero + oneDay

theorem dayBegins_lastAt {offset : Int} (zone : Int) (hour : IsHour offset) (timestamp : Int) :
    DayBegins zone offset timestamp (lastAt zone (offset * 3600) timestamp) := by
  rcases hour with ⟨low, high⟩
  constructor
  · simp only [atHour_iff]
    exact lastAt_isGreatest (by omega) (by omega) timestamp
  · exact lastAt_bracket zone (offset * 3600) timestamp

/-- The function gives the beginning of the logical day, later times do not have
earlier beginnings, and a beginning is its own. -/
theorem getZeroTimeStamp_begins (zone clock : Int) {timestamp offset : Int} (hour : IsHour offset)
    (given : timestamp ≠ 0) :
    DayBegins zone offset timestamp (getZeroTimeStamp zone clock timestamp offset) ∧
      (forall later, later ≠ 0 -> timestamp ≤ later ->
        getZeroTimeStamp zone clock timestamp offset ≤ getZeroTimeStamp zone clock later offset) ∧
      (getZeroTimeStamp zone clock timestamp offset ≠ 0 ->
        getZeroTimeStamp zone clock (getZeroTimeStamp zone clock timestamp offset) offset =
          getZeroTimeStamp zone clock timestamp offset) := by
  have begins := dayBegins_lastAt zone hour timestamp
  rw [getZeroTimeStamp_eq zone clock hour given]
  refine ⟨begins, ?_, ?_⟩
  · intro later laterGiven ordered
    rw [getZeroTimeStamp_eq zone clock hour laterGiven]
    exact lastAt_mono zone (offset * 3600) ordered
  · intro beginning
    rw [getZeroTimeStamp_eq zone clock hour beginning]
    exact lastAt_of_at ((atHour_iff zone offset _).mp begins.greatest.1.2)

/-- Half past four on the morning of 1 March 2024: the day that begins at five
began on 29 February. -/
theorem getZeroTimeStamp_begins_march :
    getZeroTimeStamp 0 0 1709267400 5 = 1709182800 ∧
      DayBegins 0 5 1709267400 (getZeroTimeStamp 0 0 1709267400 5) :=
  ⟨by decide +kernel, (getZeroTimeStamp_begins 0 0 ⟨by decide, by decide⟩ (by decide)).1⟩

/-! ## A later day -/

/-- A time before the current one is taken to lie in an earlier day exactly when
more than a whole day has gone by since its day began. -/
theorem isOverDay_eq_true {zone now timestamp offset : Int} (hour : IsHour offset)
    (given : timestamp ≠ 0) :
    isOverDay zone now timestamp offset = true <->
      lastAt zone (offset * 3600) timestamp + oneDay < now := by
  have bracket := lastAt_bracket zone (offset * 3600) timestamp
  have notLater : ¬ lastAt zone (offset * 3600) timestamp + oneDay < timestamp := by
    unfold oneDay
    omega
  simp only [isOverDay, if_neg given, getZeroTimeStamp_eq zone now hour given, if_neg notLater]
  by_cases passed : lastAt zone (offset * 3600) timestamp + oneDay < now
  · rw [if_pos passed]
    exact iff_of_true rfl passed
  · rw [if_neg passed]
    exact iff_of_false Bool.false_ne_true passed

/-- The decision is right exactly when the current time is not the very second
in which the next logical day begins. -/
theorem isOverDay_iff (zone : Int) {now timestamp offset : Int} (hour : IsHour offset)
    (positive : 0 < timestamp) (past : timestamp ≤ now) :
    (isOverDay zone now timestamp offset = true <->
      getZeroTimeStamp zone now timestamp offset < getZeroTimeStamp zone now now offset) <->
    ¬ (AtHour zone offset now ∧ timestamp < now ∧ now ≤ timestamp + oneDay) := by
  have given : timestamp ≠ 0 := Int.ne_of_gt positive
  have nowGiven : now ≠ 0 := Int.ne_of_gt (Int.lt_of_lt_of_le positive past)
  rw [isOverDay_eq_true hour given, getZeroTimeStamp_eq zone now hour given,
    getZeroTimeStamp_eq zone now hour nowGiven, lastAt_lt_iff zone _ past, atHour_iff]
  rcases hour with ⟨low, high⟩
  unfold lastAt secondOfDay oneDay
  omega

/-- Ten minutes past midnight on 1 January 2024, with days that begin at one in
the morning. -/
theorem isOverDay_iff_january :
    isOverDay 0 1704074400 1704067800 1 = true <->
      getZeroTimeStamp 0 1704074400 1704067800 1 < getZeroTimeStamp 0 1704074400 1704074400 1 :=
  (isOverDay_iff 0 ⟨by decide, by decide⟩ (by decide) (by decide)).mpr (by decide +kernel)

/-- At midnight the day before is not over. -/
theorem isOverDay_midnight :
    ¬ (isOverDay 0 1704153600 1704110400 0 = true <->
      getZeroTimeStamp 0 1704153600 1704110400 0 <
        getZeroTimeStamp 0 1704153600 1704153600 0) := by
  decide +kernel

end SkyNet
end ServerTech
