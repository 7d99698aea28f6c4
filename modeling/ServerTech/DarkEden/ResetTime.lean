import ServerTech.Foundation.Daily

namespace ServerTech
namespace DarkEden

open Calendar

/-!
# The next five o'clock

`GetToday5Time` gives the five o'clock at which daily counters are reset.  Its
branch looks at the hour alone, so in the hour after five it gives the five
o'clock that has just passed.
-/

/-- `GetToday5Time` with a local time of a fixed offset from UTC. -/
def getToday5Time (offset : Int) (t : UInt32) : Int :=
  let now : Int := t.toNat
  let timeinfo := localtime offset now
  if 0 ≤ timeinfo.hour ∧ timeinfo.hour ≤ 5 then
    now - timeinfo.hour * 3600 - timeinfo.min * 60 - timeinfo.sec + 5 * 3600
  else now - timeinfo.hour * 3600 - timeinfo.min * 60 - timeinfo.sec + 29 * 3600

/-- The first five o'clock from a time on. -/
structure NextReset (offset now reset : Int) : Prop where
  least : IsLeast {time | now ≤ time ∧ AtHour offset 5 time} reset
  bracket : now ≤ reset ∧ reset < now + 86400

/-- The hour after five o'clock has begun. -/
def JustReset (offset now : Int) : Prop :=
  (localtime offset now).hour = 5 ∧ ¬ ((localtime offset now).min = 0 ∧ (localtime offset now).sec = 0)

instance justResetDecidable (offset now : Int) : Decidable (JustReset offset now) :=
  inferInstanceAs (Decidable (_ ∧ ¬ _))

theorem nextReset_nextAt (offset now : Int) : NextReset offset now (nextAt offset 18000 now) := by
  constructor
  · simp only [atHour_iff]
    exact nextAt_isLeast (by decide) (by decide) now
  · exact nextAt_bracket offset 18000 now

theorem nextReset_iff (offset now reset : Int) :
    NextReset offset now reset <-> reset = nextAt offset 18000 now := by
  constructor
  · intro next
    exact next.least.unique (nextReset_nextAt offset now).least
  · rintro rfl
    exact nextReset_nextAt offset now

/-- The seconds of the day as the clock shows them. -/
theorem clock_eq (offset now : Int) :
    (localtime offset now).hour * 3600 + (localtime offset now).min * 60 +
        (localtime offset now).sec = secondOfDay offset now ∧
      0 ≤ (localtime offset now).hour ∧ 0 ≤ (localtime offset now).min ∧
        (localtime offset now).min ≤ 59 ∧ 0 ≤ (localtime offset now).sec ∧
        (localtime offset now).sec ≤ 59 := by
  have valid := localtime_valid offset now
  refine ⟨?_, ?_, valid.min.1, valid.min.2, valid.sec.1, valid.sec.2⟩
  · simp only [localtime]
    unfold secondOfDay
    omega
  · exact valid.hour.1

/-- The function goes back to midnight and on to five o'clock of this day or the
next one. -/
theorem getToday5Time_eq (offset : Int) (t : UInt32) :
    getToday5Time offset t =
      t.toNat - secondOfDay offset t.toNat +
        if secondOfDay offset t.toNat < 21600 then 18000 else 104400 := by
  have clock := clock_eq offset t.toNat
  simp only [getToday5Time]
  split_ifs <;> omega

/-- The result is the next five o'clock except in the hour after one, and later
times do not have earlier results. -/
theorem getToday5Time_iff (offset : Int) :
    (forall t : UInt32, NextReset offset t.toNat (getToday5Time offset t) <->
      ¬ JustReset offset t.toNat) ∧
    forall first last : UInt32, first ≤ last ->
      getToday5Time offset first ≤ getToday5Time offset last := by
  constructor
  · intro t
    have clock := clock_eq offset t.toNat
    rw [nextReset_iff, getToday5Time_eq, JustReset]
    unfold nextAt
    have range : 0 ≤ secondOfDay offset t.toNat ∧ secondOfDay offset t.toNat < 86400 := by
      unfold secondOfDay
      omega
    split_ifs <;> omega
  · intro first last ordered
    have later : first.toNat ≤ last.toNat := UInt32.le_iff_toNat_le.mp ordered
    rw [getToday5Time_eq, getToday5Time_eq]
    unfold secondOfDay
    split_ifs <;> omega

/-- A second past five on 1 January 2024 gives five o'clock of that morning. -/
theorem getToday5Time_january :
    ¬ NextReset 0 (1704085201 : UInt32).toNat (getToday5Time 0 1704085201) := by
  intro next
  have passed : ¬ ((1704085201 : UInt32).toNat : Int) ≤ getToday5Time 0 1704085201 := by
    decide +kernel
  exact passed next.bracket.1

end DarkEden
end ServerTech
