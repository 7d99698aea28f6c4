import ServerTech.DarkEden.Tokens
import ServerTech.Foundation.Numeral

namespace ServerTech
namespace DarkEden

open Numeral

/-!
# Durations as text

`ConvertTimeStampToString` breaks a number of seconds up into minutes, hours,
days, months of 30 days and years of 12 months, and prints the numbers that are
not zero with their units.  It computes with signed numbers, so a timestamp from
`2 ^ 31` on is negative: it is not broken up, and is printed without its sign.
-/

/-! ## The function -/

/-- The variables of the function, which begin with zero. -/
structure Duration where
  years : Int := 0
  months : Int := 0
  days : Int := 0
  hours : Int := 0
  mins : Int := 0
  seconds : Int := 0

/-- The nested conversions. -/
def durationOf (timestamp : UInt32) : Duration :=
  let seconds := toInt timestamp.toNat
  if seconds ≥ 60 then
    let mins := seconds.tdiv 60
    if mins ≠ 0 then
      let seconds := seconds - mins * 60
      if mins ≥ 60 then
        let hours := mins.tdiv 60
        if hours ≠ 0 then
          let mins := mins - hours * 60
          if hours ≥ 24 then
            let days := hours.tdiv 24
            if days ≠ 0 then
              let hours := hours - days * 24
              if days ≥ 30 then
                let months := days.tdiv 30
                if months ≠ 0 then
                  let days := days - months * 30
                  if months ≥ 12 then
                    let years := months.tdiv 12
                    if years ≠ 0 then
                      let months := months - years * 12
                      { years, months, days, hours, mins, seconds }
                    else { years, months, days, hours, mins, seconds }
                  else { months, days, hours, mins, seconds }
                else { months, days, hours, mins, seconds }
              else { days, hours, mins, seconds }
            else { days, hours, mins, seconds }
          else { hours, mins, seconds }
        else { hours, mins, seconds }
      else { mins, seconds }
    else { mins, seconds }
  else { seconds }

/-- `%u` prints an `int` without its sign. -/
def makeIntStringNoZero (num : Int) : List UInt8 :=
  decimal (UInt32.ofInt num).toNat

/-- A number with its unit, if it is not zero. -/
def withUnit (num : Int) (unit : String) : List UInt8 :=
  if num ≠ 0 then makeIntStringNoZero num ++ bytes unit else []

def convertTimeStampToString (timestamp : UInt32) : List UInt8 :=
  let duration := durationOf timestamp
  withUnit duration.years " years, " ++ (withUnit duration.months " months, " ++
    (withUnit duration.days " days, " ++ (withUnit duration.hours " hours, " ++
      (withUnit duration.mins " minutes, " ++ withUnit duration.seconds " seconds"))))

/-! ## Expansions -/

/-- The numbers that a text holds, with zeros for those it leaves out. -/
structure Expansion where
  years : Nat
  months : Nat
  days : Nat
  hours : Nat
  minutes : Nat
  seconds : Nat

def Expansion.numbers (expansion : Expansion) : List Nat :=
  [expansion.years, expansion.months, expansion.days, expansion.hours, expansion.minutes,
    expansion.seconds]

def units : List (List UInt8) :=
  [bytes " years, ", bytes " months, ", bytes " days, ", bytes " hours, ", bytes " minutes, ",
    bytes " seconds"]

/-- The numbers are in their ranges, and together they are the timestamp. -/
structure Expansion.Normalised (expansion : Expansion) (timestamp : Nat) : Prop where
  seconds : expansion.seconds < 60
  minutes : expansion.minutes < 60
  hours : expansion.hours < 24
  days : expansion.days < 30
  months : expansion.months < 12
  total : expansion.years * (360 * 86400) + expansion.months * (30 * 86400) +
    expansion.days * 86400 + expansion.hours * 3600 + expansion.minutes * 60 + expansion.seconds =
      timestamp

/-- The text holds the expansion of the timestamp. -/
def Expanded (timestamp : UInt32) : Prop :=
  Exists fun expansion : Expansion =>
    convertTimeStampToString timestamp = labelled units expansion.numbers ∧
    expansion.Normalised timestamp.toNat

theorem units_labels : Labels units := by
  constructor
  · decide
  · decide
  · decide

/-- The text of a duration tells its numbers. -/
theorem units_injective {first second : Expansion}
    (same : labelled units first.numbers = labelled units second.numbers) : first = second := by
  have numbers := labelled_injective units_labels rfl rfl same
  rcases first with ⟨years, months, days, hours, minutes, seconds⟩
  simp only [Expansion.numbers, List.cons.injEq, and_true] at numbers
  rcases numbers with ⟨rfl, rfl, rfl, rfl, rfl, rfl⟩
  rfl

/-! ## The conversions -/

/-- The conversions of a timestamp that is not negative. -/
theorem durationOf_eq {timestamp : UInt32} (small : timestamp.toNat < 2 ^ 31) :
    durationOf timestamp =
      { years := (timestamp.toNat / 31104000 : Nat)
        months := (timestamp.toNat / 2592000 % 12 : Nat)
        days := (timestamp.toNat / 86400 % 30 : Nat)
        hours := (timestamp.toNat / 3600 % 24 : Nat)
        mins := (timestamp.toNat / 60 % 60 : Nat)
        seconds := (timestamp.toNat % 60 : Nat) } := by
  have signed := toInt_of_lt small
  have nonneg : (0 : Int) ≤ timestamp.toNat := Int.natCast_nonneg _
  simp only [durationOf, signed]
  generalize timestamp.toNat = seconds at nonneg
  by_cases minute : (seconds : Int) ≥ 60
  · rw [if_pos minute, Int.tdiv_eq_ediv_of_nonneg nonneg, if_pos (by omega)]
    by_cases hour : (seconds : Int) / 60 ≥ 60
    · rw [if_pos hour, Int.tdiv_eq_ediv_of_nonneg (by omega), if_pos (by omega)]
      by_cases day : (seconds : Int) / 60 / 60 ≥ 24
      · rw [if_pos day, Int.tdiv_eq_ediv_of_nonneg (by omega), if_pos (by omega)]
        by_cases month : (seconds : Int) / 60 / 60 / 24 ≥ 30
        · rw [if_pos month, Int.tdiv_eq_ediv_of_nonneg (by omega), if_pos (by omega)]
          by_cases year : (seconds : Int) / 60 / 60 / 24 / 30 ≥ 12
          · rw [if_pos year, Int.tdiv_eq_ediv_of_nonneg (by omega), if_pos (by omega)]
            simp only [Duration.mk.injEq]
            omega
          · rw [if_neg year]
            simp only [Duration.mk.injEq]
            omega
        · rw [if_neg month]
          simp only [Duration.mk.injEq]
          omega
      · rw [if_neg day]
        simp only [Duration.mk.injEq]
        omega
    · rw [if_neg hour]
      simp only [Duration.mk.injEq]
      omega
  · rw [if_neg minute]
    simp only [Duration.mk.injEq]
    omega

/-- A negative number of seconds is not converted. -/
theorem durationOf_negative {timestamp : UInt32} (large : 2 ^ 31 ≤ timestamp.toNat) :
    durationOf timestamp = { seconds := (timestamp.toNat : Int) - 2 ^ 32 } := by
  have bound := timestamp.toNat_lt
  have signed := toInt_of_le large bound
  simp only [durationOf, signed]
  rw [if_neg (by omega)]

/-! ## The result -/

/-- A number that is not negative is printed as it is. -/
theorem withUnit_natCast {number : Nat} (small : number < 2 ^ 32) (unit : String) :
    withUnit (number : Int) unit = if number = 0 then [] else decimal number ++ bytes unit := by
  have unsigned : (UInt32.ofInt (number : Int)).toNat = number :=
    toNat_ofInt (Int.natCast_nonneg _) (by omega)
  rw [withUnit, makeIntStringNoZero, unsigned]
  by_cases zero : number = 0
  · rw [if_pos zero, if_neg (by omega)]
  · rw [if_neg zero, if_pos (by omega)]

/-- Below `2 ^ 31` the text holds the expansion. -/
theorem expanded_of_small {timestamp : UInt32} (small : timestamp.toNat < 2 ^ 31) :
    Expanded timestamp := by
  refine ⟨⟨timestamp.toNat / 31104000, timestamp.toNat / 2592000 % 12, timestamp.toNat / 86400 % 30,
    timestamp.toNat / 3600 % 24, timestamp.toNat / 60 % 60, timestamp.toNat % 60⟩, ?_, ?_⟩
  · simp only [convertTimeStampToString, durationOf_eq small]
    rw [withUnit_natCast (by omega), withUnit_natCast (by omega), withUnit_natCast (by omega),
      withUnit_natCast (by omega), withUnit_natCast (by omega), withUnit_natCast (by omega)]
    simp only [units, Expansion.numbers, labelled, List.append_nil]
  · constructor <;> simp only <;> omega

example : convertTimeStampToString 90061 = bytes "1 days, 1 hours, 1 minutes, 1 seconds" := by
  decide +kernel

/-- From `2 ^ 31` on the text is the timestamp in seconds. -/
theorem convertTimeStampToString_negative {timestamp : UInt32} (large : 2 ^ 31 ≤ timestamp.toNat) :
    convertTimeStampToString timestamp =
      labelled units (Expansion.mk 0 0 0 0 0 timestamp.toNat).numbers := by
  have bound := timestamp.toNat_lt
  have unsigned : UInt32.ofInt ((timestamp.toNat : Int) - 2 ^ 32) = timestamp := by
    rw [UInt32.ofInt, Int.sub_emod_right, Int.emod_eq_of_lt (by omega) (by omega), Int.toNat_natCast,
      UInt32.ofNat_toNat]
  have seconds : withUnit ((timestamp.toNat : Int) - 2 ^ 32) " seconds" =
      decimal timestamp.toNat ++ bytes " seconds" := by
    rw [withUnit, if_pos (by omega), makeIntStringNoZero, unsigned]
  have zero : forall unit, withUnit 0 unit = [] := fun unit => if_neg (not_not_intro rfl)
  simp only [convertTimeStampToString, durationOf_negative large, zero, seconds, List.nil_append]
  simp only [units, Expansion.numbers, labelled, if_true, List.nil_append, List.append_nil]
  rw [if_neg (by omega)]

/-- The text holds the expansion of exactly the timestamps below `2 ^ 31`. -/
theorem convertTimeStampToString_iff (timestamp : UInt32) :
    Expanded timestamp <-> timestamp.toNat < 2 ^ 31 := by
  constructor
  · rintro ⟨expansion, text, normalised⟩
    by_contra large
    rw [convertTimeStampToString_negative (Nat.not_lt.mp large)] at text
    have seconds := normalised.seconds
    rw [← units_injective text] at seconds
    simp only at seconds
    omega
  · exact expanded_of_small

/-- The largest timestamp. -/
theorem convertTimeStampToString_largest : ¬ Expanded 4294967295 := by
  rintro ⟨expansion, text, normalised⟩
  rw [convertTimeStampToString_negative (by decide)] at text
  have seconds := normalised.seconds
  rw [← units_injective text] at seconds
  exact absurd seconds (by decide)

end DarkEden
end ServerTech
