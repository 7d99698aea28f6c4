import Mathlib.Order.Bounds.Basic
import ServerTech.Foundation.Calendar

namespace ServerTech
namespace Calendar

/-!
# Times of day

At a fixed offset from UTC every time of day comes once in 86400 seconds.  The
last time up to a given one with a time of day, and the first from a given one
on, are a remainder away.
-/

/-- The last time up to the given one at a second of the day. -/
def lastAt (offset second time : Int) : Int :=
  time - (secondOfDay offset time - second) % 86400

/-- The first time from the given one on at a second of the day. -/
def nextAt (offset second time : Int) : Int :=
  time + (second - secondOfDay offset time) % 86400

section

variable {offset second : Int} (begun : 0 ≤ second) (within : second < 86400)

include begun within

theorem secondOfDay_lastAt (time : Int) : secondOfDay offset (lastAt offset second time) = second := by
  unfold lastAt secondOfDay
  omega

theorem secondOfDay_nextAt (time : Int) : secondOfDay offset (nextAt offset second time) = second := by
  unfold nextAt secondOfDay
  omega

end

theorem lastAt_bracket (offset second time : Int) :
    lastAt offset second time ≤ time ∧ time < lastAt offset second time + 86400 := by
  unfold lastAt
  omega

theorem nextAt_bracket (offset second time : Int) :
    time ≤ nextAt offset second time ∧ nextAt offset second time < time + 86400 := by
  unfold nextAt
  omega

theorem lastAt_isGreatest {offset second : Int} (begun : 0 ≤ second) (within : second < 86400)
    (time : Int) :
    IsGreatest {earlier | earlier ≤ time ∧ secondOfDay offset earlier = second}
      (lastAt offset second time) := by
  refine ⟨⟨(lastAt_bracket offset second time).1, secondOfDay_lastAt begun within time⟩, ?_⟩
  rintro earlier ⟨before, same⟩
  unfold secondOfDay at same
  unfold lastAt secondOfDay
  omega

theorem nextAt_isLeast {offset second : Int} (begun : 0 ≤ second) (within : second < 86400)
    (time : Int) :
    IsLeast {later | time ≤ later ∧ secondOfDay offset later = second}
      (nextAt offset second time) := by
  refine ⟨⟨(nextAt_bracket offset second time).1, secondOfDay_nextAt begun within time⟩, ?_⟩
  rintro later ⟨after, same⟩
  unfold secondOfDay at same
  unfold nextAt secondOfDay
  omega

/-- A time at the second of the day is the last one up to itself. -/
theorem lastAt_of_at {offset second time : Int} (shown : secondOfDay offset time = second) :
    lastAt offset second time = time := by
  rw [lastAt, shown, Int.sub_self]
  exact Int.sub_zero time

theorem lastAt_mono (offset second : Int) {first last : Int} (ordered : first ≤ last) :
    lastAt offset second first ≤ lastAt offset second last := by
  unfold lastAt secondOfDay
  omega

/-- A later day has begun when a whole day has gone by since the last one began. -/
theorem lastAt_lt_iff (offset second : Int) {first last : Int} (ordered : first ≤ last) :
    lastAt offset second first < lastAt offset second last <->
      lastAt offset second first + 86400 ≤ last := by
  unfold lastAt secondOfDay
  omega

/-- The clock shows the full hour. -/
def AtHour (offset hour time : Int) : Prop :=
  (localtime offset time).hour = hour ∧ (localtime offset time).min = 0 ∧
    (localtime offset time).sec = 0

instance atHourDecidable (offset hour time : Int) : Decidable (AtHour offset hour time) :=
  inferInstanceAs (Decidable (_ ∧ _ ∧ _))

theorem atHour_iff (offset hour time : Int) :
    AtHour offset hour time <-> secondOfDay offset time = hour * 3600 := by
  have range : 0 ≤ secondOfDay offset time ∧ secondOfDay offset time < 86400 := by
    unfold secondOfDay
    omega
  simp only [AtHour, localtime]
  omega

end Calendar
end ServerTech
