import ServerTech.DarkEden.PackedTime

namespace ServerTech
namespace DarkEden

open Calendar

/-!
# Packed times as a code

`TimeToUint64` writes the six fields of a time one behind the other as decimal
digits, and `uint64ToTime` reads them back.  The products of both functions are
of type `int` except those with the year, which have 64 bits.  A product or sum
of a signed type that overflows has no result here.
-/

/-! ## The functions -/

/-- The value of an expression of type `int`. -/
def int32 (value : Int) : Option Int :=
  if -2147483648 ≤ value ∧ value < 2147483648 then some value else none

/-- The value of an expression of type `long long`. -/
def int64 (value : Int) : Option Int :=
  if -9223372036854775808 ≤ value ∧ value < 9223372036854775808 then some value else none

/-- The value that `TimeToUint64` builds from the fields. -/
def codeOf (timeinfo : Tm) : Option UInt64 := do
  let year ← int32 (timeinfo.year + 1900)
  let years ← int64 (year * 10000000000)
  let mon ← int32 (timeinfo.mon + 1)
  let mons ← int32 (mon * 100000000)
  let sum ← int64 (years + mons)
  let days ← int32 (timeinfo.mday * 1000000)
  let sum ← int64 (sum + days)
  let hours ← int32 (timeinfo.hour * 10000)
  let sum ← int64 (sum + hours)
  let mins ← int32 (timeinfo.min * 100)
  let sum ← int64 (sum + mins)
  let sum ← int64 (sum + timeinfo.sec)
  some (UInt64.ofInt sum)

/-- The division of `t` by the scale, stored in an `int`, and what is left of `t`
when its product with the scale is subtracted. -/
def divide (t scale : Int) : Option (Int × Int) :=
  (int32 (toInt32 (t / scale) * scale)).map fun product =>
    (toInt32 (t / scale), toUint64 (t - product))

/-- The division by the scale of the year, whose product has 64 bits. -/
def divideYear (t : Int) : Option (Int × Int) :=
  (int64 (toInt32 (t / 10000000000) * 10000000000)).map fun product =>
    (toInt32 (t / 10000000000), toUint64 (t - product))

/-- The fields that `uint64ToTime` hands to `mktime`. -/
def fieldsOf (code : UInt64) : Option Tm := do
  let (year, t) ← divideYear code.toNat
  let tmYear ← int32 (year - 1900)
  let (mon, t) ← divide t 100000000
  let tmMon ← int32 (mon - 1)
  let (mday, t) ← divide t 1000000
  let (hour, t) ← divide t 10000
  let (min, t) ← divide t 100
  some ⟨toInt32 t, min, hour, mday, tmMon, tmYear, 0, 0⟩

def timeToUint64 (offset time : Int) : Option UInt64 :=
  codeOf (localtime offset time)

def uint64ToTime (offset : Int) (code : UInt64) : Option Int :=
  (fieldsOf code).map (mktime offset)

/-! ## Fields and codes -/

/-- The date and the time of day as people write them. -/
def dateOf (timeinfo : Tm) : Fields where
  year := timeinfo.year + 1900
  mon := timeinfo.mon + 1
  day := timeinfo.mday
  hour := timeinfo.hour
  minu := timeinfo.min
  sec := timeinfo.sec

/-- The fields one behind the other. -/
def Fields.tuple (fields : Fields) : List Int :=
  [fields.year, fields.mon, fields.day, fields.hour, fields.minu, fields.sec]

/-- A date of the years 1900 to 9999 whose month may have up to 31 days, and a
time of day. -/
structure Fields.InRange (fields : Fields) : Prop extends fields.Timely where
  mon : 1 ≤ fields.mon ∧ fields.mon ≤ 12
  day : 1 ≤ fields.day ∧ fields.day ≤ 31

theorem Fields.InRange.bounded {fields : Fields} (range : fields.InRange) : fields.Bounded := by
  rcases range with ⟨⟨year, hour, minu, sec⟩, mon, day⟩
  constructor <;> omega

theorem int32_of_range {value : Int} (low : -2147483648 ≤ value) (high : value < 2147483648) :
    int32 value = some value :=
  if_pos ⟨low, high⟩

theorem int64_of_range {value : Int} (low : -9223372036854775808 ≤ value)
    (high : value < 9223372036854775808) : int64 value = some value :=
  if_pos ⟨low, high⟩

/-- No product overflows, and the code is the number with the digits of the
fields. -/
theorem codeOf_eq {timeinfo : Tm} (range : (dateOf timeinfo).InRange) :
    codeOf timeinfo = some (UInt64.ofInt (dateOf timeinfo).pack) := by
  rcases range with ⟨⟨year, hour, minu, sec⟩, mon, day⟩
  simp only [dateOf] at year hour minu sec mon day
  simp (disch := omega) only [codeOf, dateOf, Fields.pack, int32_of_range, int64_of_range,
    Option.bind_eq_bind, Option.bind_some]

theorem toNat_ofInt_pack {fields : Fields} (range : fields.InRange) :
    ((UInt64.ofInt fields.pack).toNat : Int) = fields.pack := by
  have bounds := Fields.pack_bounds range.bounded
  have remainder : fields.pack % 2 ^ 64 = fields.pack := Int.emod_eq_of_lt (by omega) (by omega)
  have value : (UInt64.ofInt fields.pack).toNat = (fields.pack % 2 ^ 64).toNat :=
    Nat.mod_eq_of_lt (by omega)
  rw [value, remainder, Int.toNat_of_nonneg bounds.1]

theorem divide_digits (t : Int) {scale : Int} (positive : 0 < scale)
    (small : scale * 100 ≤ 2147483648) :
    divide (t % (scale * 100)) scale = some (t / scale % 100, t % scale) := by
  rcases divide_rest t positive small with ⟨quotient, remainder⟩
  have low : 0 ≤ t / scale % 100 * scale :=
    Int.mul_nonneg (Int.emod_nonneg _ (by decide)) (Int.le_of_lt positive)
  have high : t / scale % 100 * scale ≤ 99 * scale :=
    Int.mul_le_mul_of_nonneg_right (by omega) (Int.le_of_lt positive)
  rw [toInt32_of_range (by omega) (by omega)] at remainder
  rw [divide, quotient, int32_of_range (by omega) (by omega), Option.map_some, remainder]

theorem divideYear_digits {t : Int} (nonneg : 0 ≤ t) (small : t < 100000000000000) :
    divideYear t = some (t / 10000000000, t % 10000000000) := by
  rcases divide_year nonneg small with ⟨quotient, remainder⟩
  rw [divideYear, quotient, int64_of_range (by omega) (by omega), Option.map_some, remainder]

theorem divide_month {t : Int} (month : t / 100000000 % 100 ≤ 12) :
    divide (t % 10000000000) 100000000 = some (t / 100000000 % 100, t % 100000000) := by
  have months : t % 10000000000 / 100000000 = t / 100000000 % 100 := by omega
  have quotient : toInt32 (t / 100000000 % 100) = t / 100000000 % 100 :=
    toInt32_of_range (by omega) (by omega)
  have remainder : toUint64 (t % 10000000000 - t / 100000000 % 100 * 100000000) = t % 100000000 := by
    rw [toUint64_of_range] <;> omega
  rw [divide, months, quotient, int32_of_range (by omega) (by omega), Option.map_some, remainder]

/-- The digits of the number are read without an overflow, if the month is one. -/
theorem fieldsOf_eq {code : UInt64} (small : code.toNat < 100000000000000)
    (month : (digits code.toNat).mon ≤ 12) :
    Exists fun timeinfo => fieldsOf code = some timeinfo ∧ dateOf timeinfo = digits code.toNat := by
  have nonneg : 0 ≤ (code.toNat : Int) := Int.natCast_nonneg _
  have bound : (code.toNat : Int) < 100000000000000 := by omega
  simp only [fieldsOf]
  generalize (code.toNat : Int) = t at nonneg bound month ⊢
  have year := divideYear_digits nonneg bound
  have mon := divide_month month
  have day := divide_digits t (show (0 : Int) < 1000000 by decide) (by decide)
  have hour := divide_digits t (show (0 : Int) < 10000 by decide) (by decide)
  have minu := divide_digits t (show (0 : Int) < 100 by decide) (by decide)
  have sec : toInt32 (t % 100) = t % 100 := toInt32_of_range (by omega) (by omega)
  have tmYear : int32 (t / 10000000000 - 1900) = some (t / 10000000000 - 1900) :=
    int32_of_range (by omega) (by omega)
  have tmMon : int32 (t / 100000000 % 100 - 1) = some (t / 100000000 % 100 - 1) :=
    int32_of_range (by omega) (by omega)
  simp only [Int.reduceMul] at day hour minu
  refine ⟨⟨t % 100, t / 100 % 100, t / 10000 % 100, t / 1000000 % 100, t / 100000000 % 100 - 1,
    t / 10000000000 - 1900, 0, 0⟩, ?_, ?_⟩
  · simp only [year, mon, day, hour, minu, sec, tmYear, tmMon, Option.bind_eq_bind,
      Option.bind_some]
  · simp only [dateOf, digits, Int.sub_add_cancel]

/-- The numbers have the lexicographic order of the fields. -/
theorem pack_lt_iff {first second : Fields} (bounded : first.Bounded) (bounded' : second.Bounded) :
    first.pack < second.pack <-> first.tuple < second.tuple := by
  rcases bounded with ⟨year, mon, day, hour, minu, sec⟩
  rcases bounded' with ⟨year', mon', day', hour', minu', sec'⟩
  have nothing : ¬ ([] : List Int) < [] := List.not_lt_nil []
  simp only [Fields.tuple, List.cons_lt_cons_iff, nothing, and_false, or_false]
  unfold Fields.pack
  omega

theorem pack_injective {first second : Fields} (bounded : first.Bounded) (bounded' : second.Bounded)
    (same : first.pack = second.pack) : first = second := by
  rw [← digits_pack bounded, ← digits_pack bounded', same]

/-- What was packed is read back. -/
theorem fieldsOf_codeOf {timeinfo : Tm} (range : (dateOf timeinfo).InRange) :
    Exists fun code => Exists fun read =>
      codeOf timeinfo = some code ∧ fieldsOf code = some read ∧ dateOf read = dateOf timeinfo := by
  have number := toNat_ofInt_pack range
  have bounds := Fields.pack_bounds range.bounded
  have own := digits_pack range.bounded
  rw [← number] at own bounds
  have month : (digits (UInt64.ofInt (dateOf timeinfo).pack).toNat).mon ≤ 12 := by
    rw [own]
    exact range.mon.2
  rcases fieldsOf_eq (Int.ofNat_lt.mp bounds.2) month with ⟨read, found, date⟩
  exact ⟨_, read, codeOf_eq range, found, date.trans own⟩

/-- The fields in their ranges are packed and read back without an overflow,
packing what was read gives the same code, and the codes have the lexicographic
order of the fields. -/
theorem codeOf_faithful {first second : Tm} (range : (dateOf first).InRange)
    (range' : (dateOf second).InRange) :
    Exists fun code => Exists fun code' => Exists fun timeinfo =>
      codeOf first = some code ∧ codeOf second = some code' ∧ fieldsOf code = some timeinfo ∧
      dateOf timeinfo = dateOf first ∧ codeOf timeinfo = some code ∧
      (dateOf first ≠ dateOf second -> code ≠ code') ∧
      (code < code' <-> (dateOf first).tuple < (dateOf second).tuple) := by
  rcases fieldsOf_codeOf range with ⟨code, timeinfo, packed, read, date⟩
  have again : codeOf timeinfo = codeOf first := by
    rw [codeOf_eq range, codeOf_eq (date.symm ▸ range), date]
  refine ⟨code, _, timeinfo, packed, codeOf_eq range', read, date, again.trans packed, ?_, ?_⟩
  all_goals
    have number := toNat_ofInt_pack range
    have number' := toNat_ofInt_pack range'
    rw [codeOf_eq range] at packed
    cases packed
  · intro differ same
    apply differ
    apply pack_injective range.bounded range'.bounded
    rw [← number, ← number', same]
  · have order := pack_lt_iff range.bounded range'.bounded
    rw [← number, ← number', Int.ofNat_lt] at order
    exact UInt64.lt_iff_toNat_lt.trans order

/-- The last second of February 2024 and the first of March. -/
theorem codeOf_faithful_march :
    Exists fun code => Exists fun code' =>
      codeOf ⟨59, 59, 23, 29, 1, 124, 4, 59⟩ = some code ∧
      codeOf ⟨0, 0, 0, 1, 2, 124, 5, 60⟩ = some code' ∧
      code < code' := by
  rcases @codeOf_faithful ⟨59, 59, 23, 29, 1, 124, 4, 59⟩ ⟨0, 0, 0, 1, 2, 124, 5, 60⟩
    ⟨⟨by decide, by decide, by decide, by decide⟩, by decide, by decide⟩
    ⟨⟨by decide, by decide, by decide, by decide⟩, by decide, by decide⟩ with
    ⟨code, code', _, packed, packed', _, _, _, _, order⟩
  exact ⟨code, code', packed, packed', order.mpr (by decide)⟩

/-- `mktime` looks at the six fields only. -/
theorem mktime_of_date (offset : Int) {first second : Tm} (same : dateOf first = dateOf second) :
    mktime offset first = mktime offset second := by
  simp only [dateOf, Fields.mk.injEq] at same
  rcases same with ⟨year, mon, day, hour, minu, sec⟩
  have month : first.mon = second.mon := by omega
  rw [mktime, mktime, year, month, day, hour, minu, sec]

/-- A time of the years 1900 to 9999 survives both functions. -/
theorem uint64ToTime_timeToUint64 (offset : Int) {time : Int}
    (first : 0 ≤ (localtime offset time).year) (last : (localtime offset time).year ≤ 8099) :
    (timeToUint64 offset time).bind (uint64ToTime offset) = some time := by
  have valid := localtime_valid offset time
  have days := daysInMonth_le ((localtime offset time).year + 1900) ((localtime offset time).mon + 1)
  have range : (dateOf (localtime offset time)).InRange := by
    rcases valid with ⟨sec, min, hour, mon, mday⟩
    refine ⟨⟨?_, ?_, ?_, ?_⟩, ?_, ?_⟩ <;> simp only [dateOf] <;> omega
  rcases fieldsOf_codeOf range with ⟨code, timeinfo, packed, read, date⟩
  rw [timeToUint64, packed, Option.bind_some, uint64ToTime, read, Option.map_some,
    mktime_of_date offset date, mktime_localtime]

end DarkEden
end ServerTech
