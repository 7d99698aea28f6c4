import ServerTech.DarkEden.Tokens
import ServerTech.Foundation.Calendar
import ServerTech.Foundation.Numeral
import ServerTech.Foundation.Transition

namespace ServerTech
namespace DarkEden

open Calendar Numeral Transition

/-!
# Generated ids

`IDCreator` prints the time of a call, an index and the number of the server one
behind the other, and reads the text as a number.  The fields of the time are
padded with blanks, where the text ends for the reader, and a text that begins
with a zero is read in base 8.
-/

/-! ## Printing and reading -/

/-- `%2u` for the width 2. -/
def printWidth (width : Nat) (number : UInt32) : List UInt8 :=
  List.replicate (width - (decimal number.toNat).length) 32 ++ decimal number.toNat

/-- `%.3u` for the precision 3. -/
def printPrecision (precision : Nat) (number : UInt32) : List UInt8 :=
  (padded precision (numeral 10 number.toNat)).map digitByte

/-- What `snprintf` leaves in a buffer of the size, without the zero behind it. -/
def snprintf (size : Nat) (text : List UInt8) : List UInt8 :=
  text.take (size - 1)

/-- The digit that a byte stands for. -/
def digitOf (byte : UInt8) : Option Nat :=
  if 48 ≤ byte ∧ byte ≤ 57 then some (byte.toNat - 48)
  else if 65 ≤ byte ∧ byte ≤ 90 then some (byte.toNat - 55)
  else if 97 ≤ byte ∧ byte ≤ 122 then some (byte.toNat - 87)
  else none

/-- The digits of the base in front of a text. -/
def leadingDigits (base : Nat) : List UInt8 -> List Nat
  | [] => []
  | byte :: text =>
      match digitOf byte with
      | some digit => if digit < base then digit :: leadingDigits base text else []
      | none => []

/-- The base of a text and what is behind the prefix `0x`. -/
def baseOf (text : List UInt8) : Nat × List UInt8 :=
  if text.head? = some 48 then
    if text[1]? = some 120 ∨ text[1]? = some 88 then (16, text.drop 2) else (8, text)
  else (10, text)

/-- `_strtoui64(text, 0, 0)` for a text without a sign.  A value that is too
large gives the largest one. -/
def strtoui64 (text : List UInt8) : UInt64 :=
  let (base, digits) := baseOf (text.dropWhile isspace)
  let number := value base (leadingDigits base digits)
  if 2 ^ 64 ≤ number then 0xFFFFFFFFFFFFFFFF else UInt64.ofNat number

/-! ## The creator -/

structure IDCreator where
  index : UInt32 := 0

/-- The index that the next call counts up to. -/
def IDCreator.nextIndex (creator : IDCreator) : UInt32 :=
  let index := creator.index + 1
  if index > 999 then 1 else index

/-- The text of a call.  The remainder of a negative year is negative. -/
def idText (timeinfo : Tm) (index serverId : UInt32) : List UInt8 :=
  printWidth 2 (UInt32.ofInt (timeinfo.year.tmod 100)) ++
    (printWidth 2 (UInt32.ofInt timeinfo.mon) ++ (printWidth 2 (UInt32.ofInt timeinfo.mday) ++
      (printWidth 2 (UInt32.ofInt timeinfo.hour) ++ (printWidth 2 (UInt32.ofInt timeinfo.min) ++
        (printWidth 2 (UInt32.ofInt timeinfo.sec) ++ (printPrecision 3 index ++
          printPrecision 4 (serverId % 10000)))))))

def idOf (timeinfo : Tm) (index serverId : UInt32) : UInt64 :=
  strtoui64 (snprintf 512 (idText timeinfo index serverId))

/-- `GenerateNextID` at a time. -/
def IDCreator.generateNextID (creator : IDCreator) (offset time : Int) (serverId : UInt32) :
    IDCreator × UInt64 :=
  (⟨creator.nextIndex⟩, idOf (localtime offset time) creator.nextIndex serverId)

/-! ## Runs -/

/-- A call in a second of the clock. -/
structure Request where
  time : Int
  serverId : UInt32

structure Generated extends Request where
  index : UInt32
  id : UInt64

/-- A creator and the calls it has answered, the first one in front. -/
structure Life where
  creator : IDCreator := {}
  history : List Generated := []

/-- A call, while the clock does not go back and its second has calls left. -/
def Life.next (offset : Int) (life : Life) (call : Request) : Option Life :=
  if (forall earlier, earlier ∈ life.history -> earlier.time ≤ call.time) ∧
      (life.history.map fun earlier => earlier.time).count call.time < 999 then
    let (creator, id) := life.creator.generateNextID offset call.time call.serverId
    some ⟨creator, life.history ++ [⟨call, creator.index, id⟩]⟩
  else none

/-! ## Reading digits -/

theorem digitOf_digitByte {digit : Nat} (small : digit < 10) :
    digitOf (digitByte digit) = some digit := by
  have byte := toNat_digitByte small
  have range : 48 ≤ digitByte digit ∧ digitByte digit ≤ 57 := by
    rw [UInt8.le_iff_toNat_le, UInt8.le_iff_toNat_le, byte]
    exact ⟨Nat.le_add_right 48 digit, Nat.add_le_add_left (Nat.le_of_lt_succ small) 48⟩
  rw [digitOf, if_pos range, byte, Nat.add_sub_cancel_left]

theorem digitByte_eq_iff {digit : Nat} (small : digit < 10) (byte : UInt8) :
    digitByte digit = byte <-> 48 + digit = byte.toNat := by
  rw [← toNat_digitByte small]
  exact UInt8.toNat_inj.symm

theorem isspace_digitByte {digit : Nat} (small : digit < 10) : isspace (digitByte digit) = false := by
  have other : digitByte digit ≠ 32 := by
    rw [Ne, digitByte_eq_iff small]
    exact fun same => absurd same (by simp; omega)
  have above : ¬ (9 ≤ digitByte digit ∧ digitByte digit ≤ 13) := by
    rintro ⟨_, low⟩
    rw [UInt8.le_iff_toNat_le, toNat_digitByte small] at low
    exact absurd low (by simp; omega)
  rw [isspace, decide_eq_false above, Bool.or_false]
  exact beq_eq_false_iff_ne.mpr other

theorem leadingDigits_map {base : Nat} (small : base ≤ 10) (digits : List Nat)
    (below : forall digit, digit ∈ digits -> digit < base) :
    leadingDigits base (digits.map digitByte) = digits := by
  induction digits with
  | nil => rfl
  | cons digit digits inductionHypothesis =>
      have first : digit < base := below digit List.mem_cons_self
      have rest := inductionHypothesis fun other member => below other (List.mem_cons_of_mem digit member)
      simp only [List.map_cons, leadingDigits, digitOf_digitByte (Nat.lt_of_lt_of_le first small),
        if_pos first, rest]

/-- The base in which digits are read. -/
def baseFor (digits : List Nat) : Nat :=
  if digits.head? = some 0 then 8 else 10

theorem baseFor_cases (digits : List Nat) : baseFor digits = 8 ∨ baseFor digits = 10 := by
  unfold baseFor
  split_ifs
  · exact .inl rfl
  · exact .inr rfl

theorem baseOf_map {digits : List Nat} (small : forall digit, digit ∈ digits -> digit < 10) :
    baseOf (digits.map digitByte) = (baseFor digits, digits.map digitByte) := by
  have leading : (digits.map digitByte).head? = some 48 <-> digits.head? = some 0 := by
    cases digits with
    | nil => simp
    | cons digit digits =>
        have first := digitByte_eq_iff (small digit List.mem_cons_self) 48
        simp only [List.map_cons, List.head?_cons, Option.some.injEq, first]
        exact Nat.add_eq_left
  have letter : forall byte : UInt8, 58 ≤ byte.toNat -> ¬ (digits.map digitByte)[1]? = some byte := by
    intro byte high second
    rw [List.getElem?_map, Option.map_eq_some_iff] at second
    rcases second with ⟨digit, found, same⟩
    have below := small digit (List.mem_of_getElem? found)
    rw [digitByte_eq_iff below] at same
    omega
  unfold baseOf baseFor
  by_cases zero : digits.head? = some 0
  · rw [if_pos (leading.mpr zero), if_pos zero, if_neg]
    rintro (lower | upper)
    · exact letter 120 (by decide) lower
    · exact letter 88 (by decide) upper
  · rw [if_neg fun first => zero (leading.mp first), if_neg zero]

/-- Digits behind blanks are read to their end. -/
theorem strtoui64_digits (blanks : Nat) {digits : List Nat}
    (below : forall digit, digit ∈ digits -> digit < baseFor digits)
    (fits : value (baseFor digits) digits < 2 ^ 64) :
    (strtoui64 (List.replicate blanks 32 ++ digits.map digitByte)).toNat =
      value (baseFor digits) digits := by
  have decimal : baseFor digits ≤ 10 := by
    rcases baseFor_cases digits with octal | decimal <;> omega
  have small : forall digit, digit ∈ digits -> digit < 10 := fun digit member =>
    Nat.lt_of_lt_of_le (below digit member) decimal
  have skipped : (List.replicate blanks (32 : UInt8) ++ digits.map digitByte).dropWhile isspace =
      digits.map digitByte := by
    rw [List.dropWhile_append_of_pos]
    · cases digits with
      | nil => rfl
      | cons digit digits =>
          rw [List.map_cons, List.dropWhile_cons_of_neg]
          rw [isspace_digitByte (small digit List.mem_cons_self)]
          exact Bool.false_ne_true
    · intro byte member
      rw [List.eq_of_mem_replicate member]
      rfl
  simp only [strtoui64, skipped, baseOf_map small, leadingDigits_map decimal digits below]
  rw [if_neg (Nat.not_le_of_lt fits)]
  exact UInt64.toNat_ofNat_of_lt' fits

/-! ## The printed columns -/

/-- The numbers behind the year. -/
def numbersOf (timeinfo : Tm) (index serverId : UInt32) : List Nat :=
  [timeinfo.mon.toNat, timeinfo.mday.toNat, timeinfo.hour.toNat, timeinfo.min.toNat,
    timeinfo.sec.toNat, index.toNat, (serverId % 10000).toNat]

/-- The widths of these numbers. -/
def widths : List Nat :=
  [2, 2, 2, 2, 2, 3, 4]

/-- A number in its column. -/
def column (width number : Nat) : List Nat :=
  padded width (numeral 10 number)

/-- The digits behind the year. -/
def columns (timeinfo : Tm) (index serverId : UInt32) : List (List Nat) :=
  (widths.zip (numbersOf timeinfo index serverId)).map fun pair => column pair.1 pair.2

theorem column_injective {width first second : Nat}
    (same : column width first = column width second) : first = second := by
  have values := congrArg (value 10) same
  rw [column, column, value_padded, value_padded, value_numeral, value_numeral] at values
  exact values

theorem length_column {width number : Nat} (positive : 0 < width) (small : number < 10 ^ width) :
    (column width number).length = width :=
  length_padded (length_numeral_le (by decide) positive small)

/-- A number of two digits needs no padding. -/
theorem printWidth_two {number : Int} (low : 10 ≤ number) (high : number < 100) :
    printWidth 2 (UInt32.ofInt number) = (column 2 number.toNat).map digitByte := by
  have unsigned : (UInt32.ofInt number).toNat = number.toNat := toNat_ofInt (by omega) (by omega)
  have length : (numeral 10 number.toNat).length = 2 := by
    apply Nat.le_antisymm
    · exact length_numeral_le (by decide) (by decide) (by omega)
    · exact lt_length_numeral (by decide) (by omega)
  rw [printWidth, unsigned, column, padded, decimal, List.length_map, length, Nat.sub_self]
  rfl

/-- A text is read to its end if the fields behind the year have two digits and,
where a year that ends in 00 makes the base 8, no digit is above 7. -/
structure Legible (timeinfo : Tm) (index serverId : UInt32) : Prop where
  year : 0 ≤ timeinfo.year.tmod 100
  mon : 10 ≤ timeinfo.mon
  mday : 10 ≤ timeinfo.mday
  hour : 10 ≤ timeinfo.hour
  min : 10 ≤ timeinfo.min
  sec : 10 ≤ timeinfo.sec
  octal : timeinfo.year.tmod 100 = 0 -> forall number, number ∈ numbersOf timeinfo index serverId ->
    forall digit, digit ∈ numeral 10 number -> digit < 8

/-- The digits of a legible text. -/
def digitsOf (timeinfo : Tm) (index serverId : UInt32) : List Nat :=
  numeral 10 (timeinfo.year.tmod 100).toNat ++ (columns timeinfo index serverId).flatten

section

variable {timeinfo : Tm} {index serverId : UInt32}

theorem idText_eq (valid : timeinfo.Valid) (legible : Legible timeinfo index serverId) :
    Exists fun blanks => blanks ≤ 2 ∧
      idText timeinfo index serverId =
        List.replicate blanks 32 ++ (digitsOf timeinfo index serverId).map digitByte := by
  have days := daysInMonth_le (timeinfo.year + 1900) (timeinfo.mon + 1)
  rcases valid with ⟨sec, min, hour, mon, mday⟩
  have small := Int.tmod_lt_of_pos timeinfo.year (show (0 : Int) < 100 by decide)
  have unsigned := toNat_ofInt legible.year (show timeinfo.year.tmod 100 < 2 ^ 32 by omega)
  refine ⟨2 - (decimal (timeinfo.year.tmod 100).toNat).length, Nat.sub_le _ _, ?_⟩
  rw [idText, printWidth_two legible.mon (by omega), printWidth_two legible.mday (by omega),
    printWidth_two legible.hour (by omega), printWidth_two legible.min (by omega),
    printWidth_two legible.sec (by omega), printWidth, unsigned, List.append_assoc]
  simp only [digitsOf, columns, widths, numbersOf, List.zip_cons_cons, List.zip_nil_right,
    List.map_cons, List.map_nil, List.flatten_cons, List.flatten_nil, List.append_nil,
    List.map_append]
  rfl

theorem length_columns (valid : timeinfo.Valid) (counted : index.toNat ≤ 999) :
    (columns timeinfo index serverId).map List.length = widths := by
  have days := daysInMonth_le (timeinfo.year + 1900) (timeinfo.mon + 1)
  have server : (serverId % 10000).toNat < 10000 := by
    rw [UInt32.toNat_mod]
    exact Nat.mod_lt _ (by decide)
  rcases valid with ⟨sec, min, hour, mon, mday⟩
  simp only [columns, widths, numbersOf, List.zip_cons_cons, List.zip_nil_right, List.map_cons,
    List.map_nil]
  rw [length_column, length_column, length_column, length_column, length_column, length_column,
    length_column] <;> omega

theorem length_flatten_columns (valid : timeinfo.Valid) (counted : index.toNat ≤ 999) :
    (columns timeinfo index serverId).flatten.length = 17 := by
  rw [List.length_flatten, length_columns valid counted]
  rfl

theorem mem_columns {digit : Nat} (member : digit ∈ (columns timeinfo index serverId).flatten) :
    Exists fun width => Exists fun number =>
      number ∈ numbersOf timeinfo index serverId ∧ digit ∈ column width number := by
  rcases List.mem_flatten.mp member with ⟨digits, listed, inside⟩
  rcases List.mem_map.mp listed with ⟨⟨width, number⟩, paired, rfl⟩
  exact ⟨width, number, (List.of_mem_zip paired).2, inside⟩

/-- The base of a legible text is 8 in a year that ends in 00. -/
theorem baseFor_digitsOf (legible : Legible timeinfo index serverId) :
    timeinfo.year.tmod 100 = 0 ∧ baseFor (digitsOf timeinfo index serverId) = 8 ∨
      timeinfo.year.tmod 100 ≠ 0 ∧ baseFor (digitsOf timeinfo index serverId) = 10 := by
  have nonneg := legible.year
  have leading := head_numeral 10 (timeinfo.year.tmod 100).toNat
  rw [baseFor, digitsOf, List.head?_append_of_ne_nil _ (numeral_ne_nil 10 _)]
  by_cases zero : timeinfo.year.tmod 100 = 0
  · exact .inl ⟨zero, if_pos (leading.mpr (by omega))⟩
  · exact .inr ⟨zero, if_neg fun first => zero (by have digits := leading.mp first; omega)⟩

theorem digitsOf_lt (legible : Legible timeinfo index serverId) :
    forall digit, digit ∈ digitsOf timeinfo index serverId ->
      digit < baseFor (digitsOf timeinfo index serverId) := by
  intro digit member
  rcases baseFor_digitsOf legible with ⟨zero, octal⟩ | ⟨_, decimal⟩
  · rw [octal]
    rcases List.mem_append.mp member with year | behind
    · rw [zero] at year
      rw [List.mem_singleton.mp year]
      decide
    · rcases mem_columns behind with ⟨width, number, listed, inside⟩
      exact padded_lt (by decide) width (legible.octal zero number listed) digit inside
  · rw [decimal]
    rcases List.mem_append.mp member with year | behind
    · exact numeral_lt (by decide) _ digit year
    · rcases mem_columns behind with ⟨width, number, _, inside⟩
      exact padded_lt (by decide) width (numeral_lt (by decide) number) digit inside

/-- The digits behind the year are digits of the base. -/
theorem columns_lt (legible : Legible timeinfo index serverId) :
    forall digit, digit ∈ (columns timeinfo index serverId).flatten ->
      digit < baseFor (digitsOf timeinfo index serverId) :=
  fun digit member => digitsOf_lt legible digit (List.mem_append_right _ member)

/-- The value of a legible text: the year, and the columns behind it. -/
theorem value_digitsOf (valid : timeinfo.Valid) (legible : Legible timeinfo index serverId)
    (counted : index.toNat ≤ 999) :
    value (baseFor (digitsOf timeinfo index serverId)) (digitsOf timeinfo index serverId) =
      (timeinfo.year.tmod 100).toNat * 10 ^ 17 +
        value (baseFor (digitsOf timeinfo index serverId)) (columns timeinfo index serverId).flatten := by
  have length : (columns timeinfo index serverId).flatten.length = 17 :=
    length_flatten_columns valid counted
  rcases baseFor_digitsOf legible with ⟨zero, octal⟩ | ⟨_, decimal⟩
  · have leading : value 8 (numeral 10 (0 : Int).toNat) = 0 := rfl
    rw [octal, digitsOf, value_append, zero, leading, Int.toNat_zero, Nat.zero_mul, Nat.zero_mul]
  · rw [decimal, digitsOf, value_append, value_numeral, length]

theorem value_columns_lt (valid : timeinfo.Valid) (legible : Legible timeinfo index serverId)
    (counted : index.toNat ≤ 999) :
    value (baseFor (digitsOf timeinfo index serverId)) (columns timeinfo index serverId).flatten <
      10 ^ 17 := by
  have below := columns_lt legible
  have length : (columns timeinfo index serverId).flatten.length = 17 :=
    length_flatten_columns valid counted
  rcases baseFor_digitsOf legible with ⟨_, octal⟩ | ⟨_, decimal⟩
  · rw [octal] at below ⊢
    have small := value_lt (by decide) below
    rw [length] at small
    exact Nat.lt_trans small (by decide)
  · rw [decimal] at below ⊢
    have small := value_lt (by decide) below
    rw [length] at small
    exact small

/-- A legible text is read to its end. -/
theorem toNat_idOf (valid : timeinfo.Valid) (legible : Legible timeinfo index serverId)
    (counted : index.toNat ≤ 999) :
    (idOf timeinfo index serverId).toNat =
      value (baseFor (digitsOf timeinfo index serverId)) (digitsOf timeinfo index serverId) := by
  have year := Int.tmod_lt_of_pos timeinfo.year (show (0 : Int) < 100 by decide)
  have rest := value_columns_lt valid legible counted
  have fits : value (baseFor (digitsOf timeinfo index serverId)) (digitsOf timeinfo index serverId) <
      2 ^ 64 := by
    rw [value_digitsOf valid legible counted]
    omega
  rcases idText_eq valid legible with ⟨blanks, few, text⟩
  have whole : snprintf 512 (idText timeinfo index serverId) = idText timeinfo index serverId := by
    apply List.take_of_length_le
    have short := length_numeral_le (show 1 < 10 by decide) (show 0 < 2 by decide)
      (show (timeinfo.year.tmod 100).toNat < 10 ^ 2 by omega)
    rw [text, List.length_append, List.length_replicate, List.length_map, digitsOf,
      List.length_append, length_flatten_columns valid counted]
    omega
  rw [idOf, whole, text]
  exact strtoui64_digits blanks (digitsOf_lt legible) fits

example : (idOf (localtime 0 1731673845) 1 7).toNat = 2410151230450010007 := by
  decide +kernel

end

/-! ## Different ids -/

/-- Two legible texts with one id have the same columns. -/
theorem columns_of_idOf {first second : Tm} {index other serverId server : UInt32}
    (firstValid : first.Valid) (secondValid : second.Valid)
    (firstLegible : Legible first index serverId) (secondLegible : Legible second other server)
    (firstCounted : index.toNat ≤ 999) (secondCounted : other.toNat ≤ 999)
    (same : idOf first index serverId = idOf second other server) :
    first.year.tmod 100 = second.year.tmod 100 ∧
      numbersOf first index serverId = numbersOf second other server := by
  have values := congrArg UInt64.toNat same
  rw [toNat_idOf firstValid firstLegible firstCounted,
    toNat_idOf secondValid secondLegible secondCounted,
    value_digitsOf firstValid firstLegible firstCounted,
    value_digitsOf secondValid secondLegible secondCounted] at values
  have firstRest := value_columns_lt firstValid firstLegible firstCounted
  have secondRest := value_columns_lt secondValid secondLegible secondCounted
  have years : first.year.tmod 100 = second.year.tmod 100 := by
    have firstYear := firstLegible.year
    have secondYear := secondLegible.year
    omega
  have bases : baseFor (digitsOf first index serverId) = baseFor (digitsOf second other server) := by
    have firstBase := baseFor_digitsOf firstLegible
    have secondBase := baseFor_digitsOf secondLegible
    omega
  have large : 1 < baseFor (digitsOf first index serverId) := by
    rcases baseFor_cases (digitsOf first index serverId) with octal | decimal <;> omega
  have flat : (columns first index serverId).flatten = (columns second other server).flatten := by
    apply value_injective large (columns_lt firstLegible)
    · rw [bases]
      exact columns_lt secondLegible
    · rw [length_flatten_columns firstValid firstCounted,
        length_flatten_columns secondValid secondCounted]
    · rw [years, bases] at values
      rw [bases]
      exact Nat.add_left_cancel values
  have split := List.eq_iff_flatten_eq.mpr ⟨flat,
    (length_columns firstValid firstCounted).trans (length_columns secondValid secondCounted).symm⟩
  refine ⟨years, ?_⟩
  simp only [columns, widths, numbersOf, List.zip_cons_cons, List.zip_nil_right, List.map_cons,
    List.map_nil, List.cons.injEq, and_true] at split
  rcases split with ⟨mon, mday, hour, min, sec, counter, number⟩
  rw [numbersOf, numbersOf, column_injective mon, column_injective mday, column_injective hour,
    column_injective min, column_injective sec, column_injective counter, column_injective number]

/-- Legible ids tell the times of a century apart, and the indices and servers
of one second. -/
theorem idOf_injective (offset : Int) {first second : Int} {index other serverId server : UInt32}
    (firstLegible : Legible (localtime offset first) index serverId)
    (secondLegible : Legible (localtime offset second) other server)
    (firstCounted : index.toNat ≤ 999) (secondCounted : other.toNat ≤ 999)
    (after : (localtime offset first).year < (localtime offset second).year + 100)
    (before : (localtime offset second).year < (localtime offset first).year + 100)
    (same : idOf (localtime offset first) index serverId =
      idOf (localtime offset second) other server) :
    first = second ∧ index = other ∧ serverId % 10000 = server % 10000 := by
  have firstValid := localtime_valid offset first
  have secondValid := localtime_valid offset second
  rcases columns_of_idOf firstValid secondValid firstLegible secondLegible firstCounted secondCounted
      same with ⟨years, numbers⟩
  have firstYear := Int.mul_tdiv_add_tmod (localtime offset first).year 100
  have secondYear := Int.mul_tdiv_add_tmod (localtime offset second).year 100
  rw [numbersOf, numbersOf] at numbers
  simp only [List.cons.injEq, and_true, UInt32.toNat_inj] at numbers
  rcases numbers with ⟨mon, mday, hour, min, sec, counter, number⟩
  refine ⟨?_, counter, number⟩
  rcases firstLegible with ⟨_, firstMon, firstMday, firstHour, firstMin, firstSec, _⟩
  rcases secondLegible with ⟨_, secondMon, secondMday, secondHour, secondMin, secondSec, _⟩
  have year : (localtime offset first).year = (localtime offset second).year := by omega
  have times : mktime offset (localtime offset first) = mktime offset (localtime offset second) := by
    rw [mktime, mktime, year, show (localtime offset first).mon = (localtime offset second).mon by omega,
      show (localtime offset first).mday = (localtime offset second).mday by omega,
      show (localtime offset first).hour = (localtime offset second).hour by omega,
      show (localtime offset first).min = (localtime offset second).min by omega,
      show (localtime offset first).sec = (localtime offset second).sec by omega]
  rw [mktime_localtime, mktime_localtime] at times
  exact times

/-! ## Unique ids -/

/-- In a sorted list, equal elements are closer to each other than their number. -/
theorem distance_lt_count {times : List Int} (sorted : times.Pairwise (· ≤ ·)) {i j : Nat}
    (ordered : i ≤ j) (inside : j < times.length) (same : times[i] = times[j]) :
    j - i < times.count times[j] := by
  have segment : forall time, time ∈ (times.drop i).take (j - i + 1) -> times[j] = time := by
    intro time member
    rcases List.mem_iff_getElem.mp member with ⟨k, bound, rfl⟩
    rw [List.length_take, List.length_drop] at bound
    rw [List.getElem_take, List.getElem_drop]
    apply Int.le_antisymm
    · rw [← same]
      exact sorted.rel_get_of_le (a := ⟨i, by omega⟩) (b := ⟨i + k, by omega⟩) (Nat.le_add_right i k)
    · exact sorted.rel_get_of_le (a := ⟨i + k, by omega⟩) (b := ⟨j, inside⟩) (show i + k ≤ j by omega)
  have among := ((List.take_sublist (j - i + 1) (times.drop i)).trans
    (List.drop_sublist i times)).count_le times[j]
  rw [List.count_eq_length.mpr segment, List.length_take, List.length_drop] at among
  omega

/-- All ids of a history are different, and so are those of two calls that differ
in their second, their index or their server. -/
structure Unique (history : List Generated) : Prop where
  distinct : forall first, first ∈ history -> forall second, second ∈ history ->
    first.time ≠ second.time ∨ first.index ≠ second.index ∨
      first.serverId % 10000 ≠ second.serverId % 10000 -> first.id ≠ second.id
  nodup : (history.map Generated.id).Nodup

/-- The next call has a legible text, less than a hundred years after every
earlier one. -/
structure Readable (offset : Int) (life : Life) (call : Request) : Prop where
  legible : Legible (localtime offset call.time) life.creator.nextIndex call.serverId
  century : forall earlier, earlier ∈ life.history ->
    (localtime offset call.time).year < (localtime offset earlier.time).year + 100

/-- What holds of the calls of a run. -/
structure Recorded (offset : Int) (life : Life) : Prop where
  next : life.creator.nextIndex.toNat = life.history.length % 999 + 1
  indices : forall (k : Nat) (record : Generated), life.history[k]? = some record ->
    record.index.toNat = k % 999 + 1
  sorted : (life.history.map fun earlier => earlier.time).Pairwise (· ≤ ·)
  few : forall time, (life.history.map fun earlier => earlier.time).count time ≤ 999
  legible : forall record, record ∈ life.history ->
    Legible (localtime offset record.time) record.index record.serverId
  ids : forall record, record ∈ life.history ->
    record.id = idOf (localtime offset record.time) record.index record.serverId
  century : forall first, first ∈ life.history -> forall second, second ∈ life.history ->
    (localtime offset first.time).year < (localtime offset second.time).year + 100

section

variable {offset : Int} {life after : Life} {call : Request}

theorem Recorded.unique (recorded : Recorded offset life) : Unique life.history := by
  have counted : forall record, record ∈ life.history -> record.index.toNat ≤ 999 := by
    intro record member
    rcases List.mem_iff_getElem?.mp member with ⟨k, found⟩
    have index := recorded.indices k record found
    omega
  have told : forall first, first ∈ life.history -> forall second, second ∈ life.history ->
      first.id = second.id -> first.time = second.time ∧ first.index = second.index ∧
        first.serverId % 10000 = second.serverId % 10000 := by
    intro first firstMember second secondMember same
    rw [recorded.ids first firstMember, recorded.ids second secondMember] at same
    exact idOf_injective offset (recorded.legible first firstMember)
      (recorded.legible second secondMember) (counted first firstMember)
      (counted second secondMember) (recorded.century first firstMember second secondMember)
      (recorded.century second secondMember first firstMember) same
  constructor
  · intro first firstMember second secondMember differ same
    rcases told first firstMember second secondMember same with ⟨time, index, server⟩
    rcases differ with other | other | other
    · exact other time
    · exact other index
    · exact other server
  · rw [List.Nodup, List.pairwise_map, List.pairwise_iff_getElem]
    intro i j iInside jInside ordered same
    rcases told _ (List.getElem_mem iInside) _ (List.getElem_mem jInside) same with ⟨time, index, _⟩
    have iIndex := recorded.indices i _ (List.getElem?_eq_getElem iInside)
    have jIndex := recorded.indices j _ (List.getElem?_eq_getElem jInside)
    rw [index] at iIndex
    have inside : j < (life.history.map fun earlier => earlier.time).length := by
      rw [List.length_map]
      exact jInside
    have near := distance_lt_count recorded.sorted (Nat.le_of_lt ordered) inside
      (by rw [List.getElem_map, List.getElem_map, time])
    have few := recorded.few (life.history.map fun earlier => earlier.time)[j]
    omega

/-- What a call does. -/
theorem next_cases (taken : life.next offset call = some after) :
    ((forall earlier, earlier ∈ life.history -> earlier.time ≤ call.time) ∧
      (life.history.map fun earlier => earlier.time).count call.time < 999) ∧
    after = ⟨⟨life.creator.nextIndex⟩, life.history ++ [⟨call, life.creator.nextIndex,
      idOf (localtime offset call.time) life.creator.nextIndex call.serverId⟩]⟩ := by
  unfold Life.next at taken
  split_ifs at taken with open'
  exact ⟨open', (Option.some.inj taken).symm⟩

theorem nextIndex_next {creator : IDCreator} {length : Nat}
    (index : creator.index.toNat = length % 999 + 1) :
    creator.nextIndex.toNat = (length + 1) % 999 + 1 := by
  have counted : (creator.index + 1).toNat = length % 999 + 2 := by
    rw [UInt32.toNat_add, index, UInt32.toNat_one]
    omega
  unfold IDCreator.nextIndex
  by_cases full : creator.index + 1 > 999
  · rw [if_pos full, UInt32.toNat_one]
    have above := UInt32.lt_iff_toNat_lt.mp full
    rw [counted, show (999 : UInt32).toNat = 999 from rfl] at above
    omega
  · rw [if_neg full, counted]
    have below : ¬ 999 < length % 999 + 2 := by
      rw [← counted]
      exact fun above => full (UInt32.lt_iff_toNat_lt.mpr above)
    omega

theorem recorded_new (offset : Int) : Recorded offset {} := by
  constructor
  case next => rfl
  case sorted => exact .nil
  case few => exact fun _ => Nat.zero_le 999
  all_goals simp

theorem localtime_year_mono (offset : Int) {first second : Int} (ordered : first ≤ second) :
    (localtime offset first).year ≤ (localtime offset second).year := by
  apply Int.sub_le_sub_right
  apply yearOf_mono
  unfold localDay
  omega

theorem recorded_next (recorded : Recorded offset life)
    (taken : Restrict (Readable offset) (Stepping (Life.next offset)) life call after) :
    Recorded offset after := by
  rcases taken with ⟨readable, stepped⟩
  rcases next_cases stepped with ⟨⟨ordered, few⟩, rfl⟩
  constructor
  case next =>
    rw [List.length_append]
    exact nextIndex_next recorded.next
  case indices =>
    intro k record found
    rcases Nat.lt_trichotomy k life.history.length with earlier | last | beyond
    · rw [List.getElem?_append_left earlier] at found
      exact recorded.indices k record found
    · rw [last, List.getElem?_concat_length] at found
      rw [← Option.some.inj found, last]
      exact recorded.next
    · rw [List.getElem?_eq_none (by rw [List.length_append, List.length_singleton]; omega)] at found
      cases found
  case sorted =>
    rw [List.map_append, List.pairwise_append]
    refine ⟨recorded.sorted, List.pairwise_singleton _ _, ?_⟩
    intro time member last lastMember
    rcases List.mem_map.mp member with ⟨earlier, listed, rfl⟩
    rw [List.mem_singleton.mp lastMember]
    exact ordered earlier listed
  case few =>
    intro time
    have before := recorded.few time
    rw [List.map_append, List.count_append, List.map_singleton, List.count_singleton]
    by_cases same : call.time = time
    · rw [if_pos (beq_iff_eq.mpr same), ← same]
      exact Nat.succ_le_of_lt few
    · rw [if_neg (by simpa using same)]
      exact before
  case legible =>
    intro record member
    rcases List.mem_append.mp member with earlier | last
    · exact recorded.legible record earlier
    · rw [List.mem_singleton.mp last]
      exact readable.legible
  case ids =>
    intro record member
    rcases List.mem_append.mp member with earlier | last
    · exact recorded.ids record earlier
    · rw [List.mem_singleton.mp last]
  case century =>
    intro first firstMember second secondMember
    rcases List.mem_append.mp firstMember with firstEarlier | firstLast
    · rcases List.mem_append.mp secondMember with secondEarlier | secondLast
      · exact recorded.century first firstEarlier second secondEarlier
      · rw [List.mem_singleton.mp secondLast]
        have later := localtime_year_mono offset (ordered first firstEarlier)
        simp only
        omega
    · rw [List.mem_singleton.mp firstLast]
      rcases List.mem_append.mp secondMember with secondEarlier | secondLast
      · exact readable.century second secondEarlier
      · rw [List.mem_singleton.mp secondLast]
        exact Int.lt_add_of_pos_right _ (by decide)

end

/-- The ids of one creator are unique while the texts are read to their end. -/
theorem generateNextID_unique (offset : Int) {calls : List Request} {life : Life}
    (run : Run (Restrict (Readable offset) (Stepping (Life.next offset))) {} calls life) :
    Unique life.history :=
  (run.invariant (fun _ _ _ recorded taken => recorded_next recorded taken)
    (recorded_new offset)).unique

instance (timeinfo : Tm) (index serverId : UInt32) :
    Decidable (Legible timeinfo index serverId) :=
  decidable_of_iff
    (0 ≤ timeinfo.year.tmod 100 ∧ 10 ≤ timeinfo.mon ∧ 10 ≤ timeinfo.mday ∧ 10 ≤ timeinfo.hour ∧
      10 ≤ timeinfo.min ∧ 10 ≤ timeinfo.sec ∧
      (timeinfo.year.tmod 100 = 0 -> forall number, number ∈ numbersOf timeinfo index serverId ->
        forall digit, digit ∈ numeral 10 number -> digit < 8))
    ⟨fun ⟨year, mon, mday, hour, min, sec, octal⟩ => ⟨year, mon, mday, hour, min, sec, octal⟩,
      fun ⟨year, mon, mday, hour, min, sec, octal⟩ => ⟨year, mon, mday, hour, min, sec, octal⟩⟩

instance (offset : Int) (life : Life) (call : Request) : Decidable (Readable offset life call) :=
  decidable_of_iff
    (Legible (localtime offset call.time) life.creator.nextIndex call.serverId ∧
      forall earlier, earlier ∈ life.history ->
        (localtime offset call.time).year < (localtime offset earlier.time).year + 100)
    ⟨fun ⟨legible, century⟩ => ⟨legible, century⟩, fun ⟨legible, century⟩ => ⟨legible, century⟩⟩

/-- A call on 15 November 2000, and two in one second of that day in 2024. -/
theorem generateNextID_unique_november : Exists fun life : Life =>
    Unique life.history ∧ life.history.map Generated.id =
      [288711000461319, 2410151230450020007, 2410151230450030007] := by
  have executed : (execute (guarded (Readable 0) (Life.next 0)) {}
      [⟨974291445, 7⟩, ⟨1731673845, 7⟩, ⟨1731673845, 7⟩]).map
        (fun life => life.history.map Generated.id) =
      some [288711000461319, 2410151230450020007, 2410151230450030007] := by
    decide +kernel
  rcases Run.of_guarded_map executed with ⟨life, run, ids⟩
  exact ⟨life, generateNextID_unique 0 run, ids⟩

/-- Two calls in the first second of April 2024. -/
theorem generateNextID_april :
    ¬ forall (offset : Int) (calls : List Request) (life : Life),
      Run (Stepping (Life.next offset)) {} calls life -> Unique life.history := by
  intro unique
  have executed : (execute (Life.next 0) {} [⟨1711929600, 7⟩, ⟨1711929600, 7⟩]).map
      (fun life => life.history.map Generated.id) = some [24, 24] := by
    decide +kernel
  rcases Run.of_execute_map executed with ⟨life, run, ids⟩
  have distinct := (unique 0 _ life run).nodup
  rw [ids] at distinct
  exact absurd distinct (by decide)

end DarkEden
end ServerTech
