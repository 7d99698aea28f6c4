import Mathlib.Algebra.Ring.Nat
import Mathlib.Algebra.Ring.Int.Defs
import ServerTech.Foundation.Calendar

namespace ServerTech
namespace DarkEden

open Calendar

/-!
# Packed decimal times

`Util.cpp` stores a time as a decimal number with four digits for the year and
two for each of the other fields, such as 20170101103000.  `validateTime` takes
such a number apart and decides whether it is a time.

The fields are of type `int` and the number is unsigned with 64 bits.  The
product of a month and 100000000 is one of `int` values and wraps for months
from 22 on.
-/

/-! ## The functions -/

/-- A value stored in an `int`. -/
def toInt32 (value : Int) : Int :=
  (BitVec.ofInt 32 value).toInt

/-- A value stored in a `uint64`. -/
def toUint64 (value : Int) : Int :=
  value % 2 ^ 64

/-- The parameter of `IsLeapYear` is a `uint16`. -/
def isLeapYear (year : Int) : Bool :=
  let year := year % 2 ^ 16
  decide (year % 4 = 0 ∧ year % 100 ≠ 0 ∨ year % 400 = 0)

/-- The fields of a packed time. -/
structure Fields where
  year : Int
  mon : Int
  day : Int
  hour : Int
  minu : Int
  sec : Int
  deriving DecidableEq

/-- The divisions and remainders of `validateTime`. -/
def extract (t : Int) : Fields :=
  let year := toInt32 (t / 10000000000)
  let t := toUint64 (t - year * 10000000000)
  let mon := toInt32 (t / 100000000)
  let t := toUint64 (t - toInt32 (mon * 100000000))
  let day := toInt32 (t / 1000000)
  let t := toUint64 (t - toInt32 (day * 1000000))
  let hour := toInt32 (t / 10000)
  let t := toUint64 (t - toInt32 (hour * 10000))
  let minu := toInt32 (t / 100)
  let t := toUint64 (t - toInt32 (minu * 100))
  ⟨year, mon, day, hour, minu, toInt32 t⟩

def isLegal (year mon day hour minu sec : Int) : Bool :=
  if year < 0 ∨ mon ≤ 0 ∨ mon > 12 ∨ day ≤ 0 ∨ day > 31 ∨ hour < 0 ∨ hour > 23 ∨ minu < 0 ∨
      minu > 59 ∨ sec < 0 ∨ sec > 60 then false
  else if 1 = mon ∨ 3 = mon ∨ 5 = mon ∨ 7 = mon ∨ 8 = mon ∨ 10 = mon ∨ 12 = mon then true
  else if isLeapYear year then
    if 2 = mon ∧ (28 = day ∨ 30 = day ∨ 31 = day) then false else true
  else if 2 = mon ∧ (29 = day ∨ 30 = day ∨ 31 = day) then false
  else true

def validateTime (t : UInt64) : Bool :=
  let st := t.toNat.repr
  if st.length = 0 ∨ st.length > 14 then false
  else
    let fields := extract t.toNat
    isLegal (fields.year - 1900) fields.mon fields.day fields.hour fields.minu fields.sec

/-! ## Digits -/

namespace Fields

/-- The number with the digits of the fields. -/
def pack (fields : Fields) : Int :=
  fields.year * 10000000000 + fields.mon * 100000000 + fields.day * 1000000 +
    fields.hour * 10000 + fields.minu * 100 + fields.sec

/-- Each field fits its digits. -/
structure Bounded (fields : Fields) : Prop where
  year : 0 ≤ fields.year ∧ fields.year < 10000
  mon : 0 ≤ fields.mon ∧ fields.mon < 100
  day : 0 ≤ fields.day ∧ fields.day < 100
  hour : 0 ≤ fields.hour ∧ fields.hour < 100
  minu : 0 ≤ fields.minu ∧ fields.minu < 100
  sec : 0 ≤ fields.sec ∧ fields.sec < 100

theorem pack_bounds {fields : Fields} (bounded : fields.Bounded) :
    0 ≤ fields.pack ∧ fields.pack < 100000000000000 := by
  rcases bounded with ⟨year, mon, day, hour, minu, sec⟩
  unfold pack
  omega

end Fields

/-- The digits of a number. -/
def digits (t : Int) : Fields where
  year := t / 10000000000
  mon := t / 100000000 % 100
  day := t / 1000000 % 100
  hour := t / 10000 % 100
  minu := t / 100 % 100
  sec := t % 100

theorem digits_bounded {t : Int} (nonneg : 0 ≤ t) (small : t < 100000000000000) :
    (digits t).Bounded := by
  constructor <;> simp only [digits] <;> omega

theorem pack_digits (t : Int) : (digits t).pack = t := by
  simp only [digits, Fields.pack]
  omega

theorem digits_pack {fields : Fields} (bounded : fields.Bounded) : digits fields.pack = fields := by
  rcases fields with ⟨year, mon, day, hour, minu, sec⟩
  rcases bounded with ⟨yearRange, monRange, dayRange, hourRange, minuRange, secRange⟩
  simp only at yearRange monRange dayRange hourRange minuRange secRange
  simp only [digits, Fields.pack, Fields.mk.injEq]
  refine ⟨?_, ?_, ?_, ?_, ?_, ?_⟩ <;> omega

theorem toInt32_of_range {value : Int} (low : -2147483648 ≤ value) (high : value < 2147483648) :
    toInt32 value = value := by
  rw [toInt32, BitVec.toInt_ofInt]
  exact Int.bmod_eq_of_le (by omega) (by omega)

theorem toUint64_of_range {value : Int} (low : 0 ≤ value) (high : value < 2 ^ 64) :
    toUint64 value = value :=
  Int.emod_eq_of_lt low high

/-- One division and the remainder after it, where the product does not wrap. -/
theorem divide_eq {t scale : Int} (remainder : 0 ≤ t % scale ∧ t % scale < 2147483648)
    (quotient : 0 ≤ t / scale ∧ t / scale < 2147483648)
    (product : 0 ≤ t / scale * scale ∧ t / scale * scale < 2147483648) :
    toInt32 (t / scale) = t / scale ∧ toUint64 (t - toInt32 (t / scale * scale)) = t % scale := by
  have split := Int.mul_ediv_add_emod t scale
  have comm := Int.mul_comm scale (t / scale)
  have difference : t - t / scale * scale = t % scale := by omega
  rw [toInt32_of_range (by omega) (by omega), toInt32_of_range (by omega) (by omega), difference]
  exact ⟨rfl, toUint64_of_range (by omega) (by omega)⟩

/-- The year and what is left after it. -/
theorem divide_year {t : Int} (nonneg : 0 ≤ t) (small : t < 100000000000000) :
    toInt32 (t / 10000000000) = t / 10000000000 ∧
      toUint64 (t - t / 10000000000 * 10000000000) = t % 10000000000 := by
  constructor
  · exact toInt32_of_range (by omega) (by omega)
  · rw [toUint64_of_range] <;> omega

theorem extract_month {t : Int} (nonneg : 0 ≤ t) (small : t < 100000000000000) :
    (extract t).mon = (digits t).mon := by
  rcases divide_year nonneg small with ⟨year, afterYear⟩
  simp only [extract, digits, year, afterYear]
  rw [toInt32_of_range] <;> omega

/-- The two digits in front of a rest. -/
theorem rest_digits (t : Int) {scale : Int} (positive : 0 < scale) :
    t % (scale * 100) / scale = t / scale % 100 := by
  have quotient : t / (scale * 100) = t / scale / 100 :=
    (Int.ediv_ediv_of_nonneg (Int.le_of_lt positive)).symm
  rw [Int.emod_def, Int.emod_def, quotient, Int.mul_assoc,
    Int.sub_mul_ediv_left _ _ (Int.ne_of_gt positive)]

/-- One division and the remainder after it, where the rest is small. -/
theorem divide_rest (t : Int) {scale : Int} (positive : 0 < scale)
    (small : scale * 100 ≤ 2147483648) :
    toInt32 (t % (scale * 100) / scale) = t / scale % 100 ∧
      toUint64 (t % (scale * 100) - toInt32 (t / scale % 100 * scale)) = t % scale := by
  have shorter : t % (scale * 100) % scale = t % scale :=
    Int.emod_emod_of_dvd t (Int.dvd_mul_right scale 100)
  have front := rest_digits t positive
  have low : 0 ≤ t % (scale * 100) := Int.emod_nonneg t (by omega)
  have high : t % (scale * 100) < scale * 100 := Int.emod_lt_of_pos t (by omega)
  have below : 0 ≤ t % scale ∧ t % scale < scale :=
    ⟨Int.emod_nonneg t (by omega), Int.emod_lt_of_pos t positive⟩
  have product : 0 ≤ t / scale % 100 * scale :=
    Int.mul_nonneg (Int.emod_nonneg _ (by decide)) (Int.le_of_lt positive)
  have split := Int.mul_ediv_add_emod (t % (scale * 100)) scale
  rw [front, shorter, Int.mul_comm] at split
  have divided := @divide_eq (t % (scale * 100)) scale
  rw [front, shorter] at divided
  rw [front]
  exact divided ⟨below.1, by omega⟩ ⟨by omega, by omega⟩ ⟨product, by omega⟩

/-- The fields are the digits of the number, if the product for the month does
not wrap. -/
theorem extract_eq {t : Int} (nonneg : 0 ≤ t) (small : t < 100000000000000)
    (month : (digits t).mon < 22) : extract t = digits t := by
  simp only [digits] at month
  rcases divide_year nonneg small with ⟨year, afterYear⟩
  have months := rest_digits t (show (0 : Int) < 100000000 by decide)
  have shorter : t % 10000000000 % 100000000 = t % 100000000 :=
    Int.emod_emod_of_dvd t (by decide)
  have divided := @divide_eq (t % 10000000000) 100000000
  rw [show (100000000 * 100 : Int) = 10000000000 from rfl] at months
  rw [months, shorter] at divided
  rcases divided (by omega) (by omega) (by omega) with ⟨mon, afterMon⟩
  have day := divide_rest t (show (0 : Int) < 1000000 by decide) (by decide)
  have hour := divide_rest t (show (0 : Int) < 10000 by decide) (by decide)
  have minu := divide_rest t (show (0 : Int) < 100 by decide) (by decide)
  have sec : toInt32 (t % 100) = t % 100 := toInt32_of_range (by omega) (by omega)
  simp only [Int.reduceMul] at day hour minu
  simp only [extract, digits, year, afterYear, months, mon, afterMon, day.1, day.2, hour.1, hour.2,
    minu.1, minu.2, sec]

/-- Some fields with a property have the digits of a number exactly when its own
digits have it. -/
theorem exists_pack_iff {property : Fields -> Prop}
    (bounded : forall fields : Fields, property fields -> fields.Bounded) (t : Int) :
    (Exists fun fields => t = fields.pack ∧ property fields) <->
      0 ≤ t ∧ t < 100000000000000 ∧ property (digits t) := by
  constructor
  · rintro ⟨fields, rfl, holds⟩
    have range := Fields.pack_bounds (bounded fields holds)
    rw [digits_pack (bounded fields holds)]
    exact ⟨range.1, range.2, holds⟩
  · rintro ⟨_, _, holds⟩
    exact ⟨digits t, (pack_digits t).symm, holds⟩

/-- A number of at most 14 digits is valid when its digits are legal. -/
theorem validateTime_eq {t : UInt64} (small : t.toNat < 100000000000000) :
    validateTime t =
      isLegal ((digits t.toNat).year - 1900) (digits t.toNat).mon (digits t.toNat).day
        (digits t.toNat).hour (digits t.toNat).minu (digits t.toNat).sec := by
  have nonneg : 0 ≤ (t.toNat : Int) := Int.natCast_nonneg _
  have bound : (t.toNat : Int) < 100000000000000 := by omega
  have positive : t.toNat.repr.length ≠ 0 := Nat.ne_of_gt Nat.length_repr_pos
  have short : t.toNat.repr.length ≤ 14 := (Nat.length_repr_le_iff (by decide)).mpr small
  simp only [validateTime]
  rw [if_neg (by omega)]
  by_cases month : (digits t.toNat).mon < 22
  · rw [extract_eq nonneg bound month]
  · rw [isLegal, isLegal, extract_month nonneg bound, if_pos (by omega), if_pos (by omega)]

theorem validateTime_of_long {t : UInt64} (long : 100000000000000 ≤ t.toNat) :
    validateTime t = false := by
  have digits : ¬ t.toNat.repr.length ≤ 14 := by
    rw [Nat.length_repr_le_iff (by decide)]
    omega
  simp only [validateTime]
  rw [if_pos (by omega)]

/-! ## Real times -/

/-- The years that `IsLeapYear` takes for leap years, once 1900 is subtracted. -/
def takenForLeap (year : Int) : Prop :=
  year % 4 = 0 ∧ year % 100 ≠ 0 ∨ year % 400 = 300

namespace Fields

/-- The fields other than month and day are those of a time from 1900 on. -/
structure Timely (fields : Fields) : Prop where
  year : 1900 ≤ fields.year ∧ fields.year ≤ 9999
  hour : 0 ≤ fields.hour ∧ fields.hour ≤ 23
  minu : 0 ≤ fields.minu ∧ fields.minu ≤ 59
  sec : 0 ≤ fields.sec ∧ fields.sec ≤ 60

/-- The fields of a time on a day of the Gregorian calendar. -/
structure Real (fields : Fields) : Prop extends fields.Timely where
  mon : 1 ≤ fields.mon ∧ fields.mon ≤ 12
  day : 1 ≤ fields.day ∧ fields.day ≤ daysInMonth fields.year fields.mon

/-- The dates that `IsLegal` decides wrongly: the 31st of the short months, 28
February of the years it takes for leap years, and 29 February of the years in
which it is mistaken, because the year is counted from 1900. -/
structure Misjudged (fields : Fields) : Prop extends fields.Timely where
  date : (fields.mon = 4 ∨ fields.mon = 6 ∨ fields.mon = 9 ∨ fields.mon = 11) ∧ fields.day = 31 ∨
    fields.mon = 2 ∧ fields.day = 28 ∧ takenForLeap fields.year ∨
    fields.mon = 2 ∧ fields.day = 29 ∧ (fields.year % 400 = 0 ∨ fields.year % 400 = 300)

theorem Real.bounded {fields : Fields} (real : fields.Real) : fields.Bounded := by
  rcases real with ⟨⟨year, hour, minu, sec⟩, mon, day⟩
  have length := daysInMonth_le fields.year fields.mon
  constructor <;> omega

theorem Misjudged.bounded {fields : Fields} (misjudged : fields.Misjudged) : fields.Bounded := by
  rcases misjudged with ⟨⟨year, hour, minu, sec⟩, date⟩
  constructor <;> omega

end Fields

theorem isLeapYear_iff {year : Int} (low : 1900 ≤ year) (high : year ≤ 9999) :
    isLeapYear (year - 1900) = true <-> takenForLeap year := by
  have fits : (year - 1900) % 2 ^ 16 = year - 1900 := Int.emod_eq_of_lt (by omega) (by omega)
  simp only [isLeapYear, takenForLeap, fits, decide_eq_true_eq]
  omega

theorem mistaken_iff (year : Int) :
    (year % 400 = 0 ∨ year % 400 = 300) <-> ¬ (takenForLeap year <-> isLeap year = true) := by
  simp only [takenForLeap, isLeap, decide_eq_true_eq]
  omega

/-- What `IsLegal` accepts. -/
theorem isLegal_iff {fields : Fields} (timely : fields.Timely) :
    isLegal (fields.year - 1900) fields.mon fields.day fields.hour fields.minu fields.sec = true <->
      (1 ≤ fields.mon ∧ fields.mon ≤ 12) ∧ (1 ≤ fields.day ∧ fields.day ≤ 31) ∧
        (fields.mon = 2 -> fields.day ≠ 30 ∧ fields.day ≠ 31 ∧
          (takenForLeap fields.year -> fields.day ≠ 28) ∧
          (¬ takenForLeap fields.year -> fields.day ≠ 29)) := by
  rcases timely with ⟨year, hour, minu, sec⟩
  rw [← isLeapYear_iff year.1 year.2, isLegal]
  by_cases range : (1 ≤ fields.mon ∧ fields.mon ≤ 12) ∧ 1 ≤ fields.day ∧ fields.day ≤ 31
  · rw [if_neg (by omega)]
    by_cases february : fields.mon = 2
    · rw [if_neg (by omega)]
      cases isLeapYear (fields.year - 1900) with
      | true =>
          simp [february, range]
          omega
      | false =>
          simp [february, range]
          omega
    · have other : ¬ 2 = fields.mon := fun equal => february equal.symm
      simp [february, other, range]
  · rw [if_pos (by omega)]
    constructor
    · intro absurdity
      exact absurd absurdity Bool.false_ne_true
    · rintro ⟨mon, day, -⟩
      exact absurd ⟨mon, day⟩ range

/-- The length of a month by its kind. -/
theorem daysInMonth_cases (year mon : Int) :
    mon = 2 ∧ isLeap year = true ∧ daysInMonth year mon = 29 ∨
      mon = 2 ∧ isLeap year = false ∧ daysInMonth year mon = 28 ∨
      (mon = 4 ∨ mon = 6 ∨ mon = 9 ∨ mon = 11) ∧ daysInMonth year mon = 30 ∨
      ¬ (mon = 2 ∨ mon = 4 ∨ mon = 6 ∨ mon = 9 ∨ mon = 11) ∧ daysInMonth year mon = 31 := by
  unfold daysInMonth
  cases isLeap year <;> split_ifs <;> simp_all

theorem isLegal_of_not_timely {fields : Fields} (not : ¬ fields.Timely)
    (high : fields.year ≤ 9999) :
    isLegal (fields.year - 1900) fields.mon fields.day fields.hour fields.minu fields.sec = false := by
  rw [isLegal, if_pos]
  apply Classical.byContradiction
  intro inside
  apply not
  constructor <;> omega

/-- `IsLegal` is right on a time exactly when it is none of the dates above. -/
theorem isLegal_real_iff (fields : Fields) (high : fields.year ≤ 9999) :
    (isLegal (fields.year - 1900) fields.mon fields.day fields.hour fields.minu fields.sec = true <->
      fields.Real) <-> ¬ fields.Misjudged := by
  by_cases timely : fields.Timely
  · have legal := isLegal_iff timely
    have real : fields.Real <-> (1 ≤ fields.mon ∧ fields.mon ≤ 12) ∧
        (1 ≤ fields.day ∧ fields.day ≤ daysInMonth fields.year fields.mon) :=
      ⟨fun real => ⟨real.mon, real.day⟩, fun date => ⟨timely, date.1, date.2⟩⟩
    have misjudged : fields.Misjudged <-> _ :=
      ⟨Fields.Misjudged.date, fun date => ⟨timely, date⟩⟩
    rw [legal, real, misjudged, mistaken_iff]
    rcases daysInMonth_cases fields.year fields.mon with
      ⟨february, isLeap, length⟩ | ⟨february, isLeap, length⟩ | ⟨short, length⟩ | ⟨long, length⟩
    · rw [length, isLeap, february]
      by_cases taken : takenForLeap fields.year
      · simp [taken]
        omega
      · simp [taken]
        omega
    · rw [length, isLeap, february]
      by_cases taken : takenForLeap fields.year
      · simp [taken]
        omega
      · simp [taken]
        omega
    · have range : 1 ≤ fields.mon ∧ fields.mon ≤ 12 := by omega
      have notFebruary : fields.mon ≠ 2 := by omega
      simp only [length, short, range, notFebruary, true_and, and_true, false_and, or_false,
        false_implies]
      omega
    · have notFebruary : fields.mon ≠ 2 := by omega
      have notShort : ¬ (fields.mon = 4 ∨ fields.mon = 6 ∨ fields.mon = 9 ∨ fields.mon = 11) := by
        omega
      simp only [length, notShort, notFebruary, and_true, false_and, or_false, false_implies,
        not_false_eq_true]
  · refine iff_of_true (iff_of_false ?_ ?_) ?_
    · rw [isLegal_of_not_timely timely high]
      exact Bool.false_ne_true
    · intro real
      exact timely real.toTimely
    · intro misjudged
      exact timely misjudged.toTimely

/-- A number is judged rightly exactly when it is none of the dates above. -/
theorem validateTime_iff (t : UInt64) :
    (validateTime t = true <-> Exists fun fields : Fields => t.toNat = fields.pack ∧ fields.Real) <->
      ¬ Exists fun fields : Fields => t.toNat = fields.pack ∧ fields.Misjudged := by
  rw [exists_pack_iff (fun _ => Fields.Real.bounded),
    exists_pack_iff (fun _ => Fields.Misjudged.bounded)]
  by_cases small : t.toNat < 100000000000000
  · have nonneg : 0 ≤ (t.toNat : Int) := Int.natCast_nonneg _
    have bound : (t.toNat : Int) < 100000000000000 := by omega
    have year := (digits_bounded nonneg bound).year
    have judged := isLegal_real_iff (digits t.toNat) (by omega)
    rw [validateTime_eq small]
    simp only [nonneg, bound, true_and]
    exact judged
  · rw [validateTime_of_long (by omega)]
    refine iff_of_true (iff_of_false Bool.false_ne_true ?_) ?_
    · rintro ⟨_, bound, _⟩
      omega
    · rintro ⟨_, bound, _⟩
      omega

/-- 31 April 2021. -/
theorem validateTime_april :
    ¬ (validateTime 20210431000000 = true <->
      Exists fun fields : Fields => (20210431000000 : UInt64).toNat = fields.pack ∧ fields.Real) := by
  intro judged
  have accepted : validateTime 20210431000000 = true := by
    rw [validateTime_eq (by decide)]
    decide +kernel
  rcases (exists_pack_iff (fun _ => Fields.Real.bounded) _).mp (judged.mp accepted) with ⟨_, _, real⟩
  have day := real.day.2
  revert day
  decide +kernel

end DarkEden
end ServerTech
