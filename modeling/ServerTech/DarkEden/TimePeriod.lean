import Mathlib.Data.List.TakeWhile
import ServerTech.DarkEden.Tokens

namespace ServerTech
namespace DarkEden

/-!
# Ban periods

`GetTimePeriodFromString` adds up groups of digits and a letter for the unit, and
returns -1 when a number is followed by something else.  The sum has 32 bits and
no sign, and the result is the same 32 bits with a sign, so a large sum is
negative as well.
-/

/-! ## The function -/

/-- `enum TimeVariables`. -/
def timeMinute : UInt32 := 60
def timeHour : UInt32 := timeMinute * 60
def timeDay : UInt32 := timeHour * 24
def timeMonth : UInt32 := timeDay * 30
def timeYear : UInt32 := timeMonth * 12

def isdigit (byte : UInt8) : Bool :=
  decide (48 ≤ byte ∧ byte ≤ 57)

def tolower (byte : UInt8) : UInt8 :=
  if 65 ≤ byte ∧ byte ≤ 90 then byte + 32 else byte

/-- The numbers from here on are no `double`: they are nearer to `2 ^ 1024` than to
the largest value. -/
def doubleLimit : Nat :=
  2 ^ 1024 - 2 ^ 970

/-- `isNum` of a run of digits, which a stream reads as a `double`. -/
def isNum (val : List UInt8) : Bool :=
  decide (decimalValue val < doubleLimit)

def strtouint32 (val : List UInt8) : UInt32 :=
  if isNum val then strtoul val else 0

/-- The multiplier for a letter behind a number. -/
def multiplierOf (letter : UInt8) : Option UInt32 :=
  let lower := tolower letter
  if lower = 121 then some timeYear
  else if lower = 109 then some timeMonth
  else if lower = 100 then some timeDay
  else if lower = 104 then some timeHour
  else none

/-- The loop of `GetTimePeriodFromString` with a bound on its rounds.  The end of
the list is the zero at the end of the string. -/
def periodLoop : Nat -> List UInt8 -> UInt32 -> Option Int
  | 0, _, _ => none
  | _ + 1, [], timeToBan => some (toInt timeToBan.toNat)
  | rounds + 1, byte :: p, timeToBan =>
      if isdigit byte then
        let numberTemp := (byte :: p).takeWhile isdigit
        match (byte :: p).dropWhile isdigit with
        | [] => periodLoop rounds [] (timeToBan + timeMinute * strtouint32 numberTemp)
        | letter :: p =>
            match multiplierOf letter with
            | none => some (-1)
            | some multiplier =>
                periodLoop rounds p (timeToBan + multiplier * strtouint32 numberTemp)
      else some (toInt timeToBan.toNat)

/-- `GetTimePeriodFromString` for the bytes of a string. -/
def getTimePeriodFromString (str : List UInt8) : Option Int :=
  periodLoop (str.length + 1) str 0

/-! ## Periods -/

/-- A run of digits. -/
structure Number where
  digits : List UInt8
  nonempty : digits ≠ []
  decimal : forall byte, byte ∈ digits -> isdigit byte = true

/-- A number with the letter of a unit. -/
structure Group where
  number : Number
  letter : UInt8
  multiplier : UInt32
  unit : multiplierOf letter = some multiplier

/-- Groups, and minutes at the end. -/
structure Period where
  groups : List Group
  minutes : Option Number

def groupsText (groups : List Group) : List UInt8 :=
  groups.flatMap fun group => group.number.digits ++ [group.letter]

def Period.text (period : Period) : List UInt8 :=
  groupsText period.groups ++ (period.minutes.map Number.digits).getD []

def Number.value (number : Number) : Nat :=
  decimalValue number.digits

/-- The exact number of seconds. -/
def Period.seconds (period : Period) : Nat :=
  (period.groups.map fun group => group.multiplier.toNat * group.number.value).sum +
    60 * (period.minutes.map Number.value).getD 0

/-- Some number is followed by a byte that is no unit. -/
def Broken (str : List UInt8) : Prop :=
  Exists fun front => Exists fun number : Number => Exists fun byte => Exists fun rest =>
    str = front ++ (number.digits ++ byte :: rest) ∧ isdigit byte = false ∧ multiplierOf byte = none

/-- A period gives its seconds, and only strings with a broken number give a
negative value. -/
structure Unambiguous (str : List UInt8) : Prop where
  exact : forall period : Period, str = period.text ->
    getTimePeriodFromString str = some (period.seconds : Int)
  negative : forall result, getTimePeriodFromString str = some result -> result < 0 -> Broken str

/-! ## Numbers -/

theorem isdigit_iff (byte : UInt8) : isdigit byte = true <-> 48 ≤ byte.toNat ∧ byte.toNat ≤ 57 := by
  rw [isdigit, decide_eq_true_eq, UInt8.le_iff_toNat_le, UInt8.le_iff_toNat_le]
  rfl

theorem isdigit_ne {byte other : UInt8} (digit : isdigit byte = true) (not : isdigit other = false) :
    byte ≠ other := by
  rintro rfl
  rw [digit] at not
  cases not

/-- The letter of a unit is no digit. -/
theorem isdigit_of_multiplierOf {letter : UInt8} {multiplier : UInt32}
    (unit : multiplierOf letter = some multiplier) : isdigit letter = false := by
  rw [Bool.eq_false_iff]
  intro digit
  have range := (isdigit_iff letter).mp digit
  have same : tolower letter = letter := by
    rw [tolower, if_neg]
    rintro ⟨upper, _⟩
    rw [UInt8.le_iff_toNat_le, show (65 : UInt8).toNat = 65 from rfl] at upper
    omega
  simp only [multiplierOf, same, if_neg (isdigit_ne digit (show isdigit 121 = false from rfl)),
    if_neg (isdigit_ne digit (show isdigit 109 = false from rfl)),
    if_neg (isdigit_ne digit (show isdigit 100 = false from rfl)),
    if_neg (isdigit_ne digit (show isdigit 104 = false from rfl))] at unit
  cases unit

theorem isspace_of_isdigit {byte : UInt8} (digit : isdigit byte = true) : isspace byte = false := by
  have range := (isdigit_iff byte).mp digit
  have low : ¬ (9 ≤ byte ∧ byte ≤ 13) := by
    rintro ⟨_, high⟩
    rw [UInt8.le_iff_toNat_le, show (13 : UInt8).toNat = 13 from rfl] at high
    omega
  rw [isspace, decide_eq_false low, Bool.or_false]
  exact beq_eq_false_iff_ne.mpr (isdigit_ne digit rfl)

theorem strtoul_digits (number : Number) :
    (strtoul number.digits).toNat = min number.value (2 ^ 32 - 1) := by
  rcases number with ⟨digits, nonempty, decimal⟩
  rcases List.exists_cons_of_ne_nil nonempty with ⟨first, others, rfl⟩
  have digit := decimal first List.mem_cons_self
  have whole : (first :: others).takeWhile (· != 0) = first :: others := by
    apply List.takeWhile_eq_self_iff.mpr
    intro byte member
    exact bne_iff_ne.mpr (isdigit_ne (decimal byte member) rfl)
  have trimmed : (first :: others).dropWhile isspace = first :: others := by
    rw [List.dropWhile_cons_of_neg]
    rw [isspace_of_isdigit digit]
    exact Bool.false_ne_true
  have minus : (some first == some (45 : UInt8)) = false := by
    rw [Option.some_beq_some]
    exact beq_eq_false_iff_ne.mpr (isdigit_ne digit rfl)
  have plus : (some first == some (43 : UInt8)) = false := by
    rw [Option.some_beq_some]
    exact beq_eq_false_iff_ne.mpr (isdigit_ne digit rfl)
  have all : (first :: others).takeWhile (fun byte => decide (48 ≤ byte ∧ byte ≤ 57)) =
      first :: others := List.takeWhile_eq_self_iff.mpr decimal
  simp only [strtoul, whole, trimmed, List.head?_cons, minus, plus, Bool.or_false, Bool.false_eq_true,
    if_false, all, Number.value]
  by_cases large : 2 ^ 32 ≤ decimalValue (first :: others)
  · rw [if_pos large, Nat.min_eq_right (by omega)]
    rfl
  · rw [if_neg large, Nat.min_eq_left (by omega)]
    exact UInt32.toNat_ofNat_of_lt' (Nat.not_le.mp large)

/-- The value that `strtouint32` reads: numbers beyond 32 bits become the largest
one, and those beyond a `double` zero. -/
def readValue (value : Nat) : Nat :=
  if value < doubleLimit then min value (2 ^ 32 - 1) else 0

theorem toNat_strtouint32 (number : Number) :
    (strtouint32 number.digits).toNat = readValue number.value := by
  rw [strtouint32, isNum, readValue]
  by_cases small : decimalValue number.digits < doubleLimit
  · rw [if_pos (decide_eq_true small), strtoul_digits, if_pos (show number.value < _ from small)]
  · rw [if_neg (by rw [decide_eq_false small]; exact Bool.false_ne_true),
      if_neg (show ¬ number.value < _ from small)]
    rfl

/-! ## The loop -/

/-- The sum of groups as the loop has it, before it is cut to 32 bits. -/
def readSeconds (groups : List Group) : Nat :=
  (groups.map fun group => group.multiplier.toNat * readValue group.number.value).sum

section

variable (rounds : Nat) (number : Number) (timeToBan : UInt32)

/-- The digits that a round collects. -/
theorem collect (tail : List UInt8) (ended : tail.head?.any isdigit = false) :
    (number.digits ++ tail).takeWhile isdigit = number.digits ∧
      (number.digits ++ tail).dropWhile isdigit = tail := by
  rw [List.takeWhile_append_of_pos number.decimal, List.dropWhile_append_of_pos number.decimal]
  cases tail with
  | nil => exact ⟨List.append_nil _, rfl⟩
  | cons byte tail =>
      have other : ¬ isdigit byte = true := by
        rw [List.head?_cons, Option.any_some] at ended
        rw [ended]
        exact Bool.false_ne_true
      rw [List.takeWhile_cons_of_neg other, List.dropWhile_cons_of_neg other, List.append_nil]
      exact ⟨rfl, rfl⟩

theorem periodLoop_minutes :
    periodLoop (rounds + 1) number.digits timeToBan =
      periodLoop rounds [] (timeToBan + timeMinute * strtouint32 number.digits) := by
  rcases collect number [] rfl with ⟨taken, dropped⟩
  rw [List.append_nil] at taken dropped
  rcases List.exists_cons_of_ne_nil number.nonempty with ⟨first, others, same⟩
  have digit : isdigit first = true := number.decimal first (by rw [same]; exact List.mem_cons_self)
  rw [same] at taken dropped ⊢
  simp only [periodLoop, if_pos digit, taken, dropped]

theorem periodLoop_letter {letter : UInt8} (other : isdigit letter = false) (p : List UInt8) :
    periodLoop (rounds + 1) (number.digits ++ letter :: p) timeToBan =
      match multiplierOf letter with
      | none => some (-1)
      | some multiplier =>
          periodLoop rounds p (timeToBan + multiplier * strtouint32 number.digits) := by
  rcases collect number (letter :: p) other with ⟨taken, dropped⟩
  rcases List.exists_cons_of_ne_nil number.nonempty with ⟨first, others, same⟩
  have digit : isdigit first = true := number.decimal first (by rw [same]; exact List.mem_cons_self)
  rw [same, List.cons_append] at taken dropped ⊢
  simp only [periodLoop, if_pos digit, taken, dropped]

theorem periodLoop_stop {byte : UInt8} (other : isdigit byte = false) (p : List UInt8) :
    periodLoop (rounds + 1) (byte :: p) timeToBan = some (toInt timeToBan.toNat) := by
  rw [periodLoop, other, if_neg Bool.false_ne_true]

theorem groupsText_cons (group : Group) (groups : List Group) (p : List UInt8) :
    groupsText (group :: groups) ++ p =
      group.number.digits ++ group.letter :: (groupsText groups ++ p) := by
  rw [groupsText, List.flatMap_cons, List.append_assoc, List.append_assoc]
  rfl

/-- A run over groups adds their seconds. -/
theorem periodLoop_groups (groups : List Group) (p : List UInt8) (total : Nat) :
    periodLoop (groups.length + rounds) (groupsText groups ++ p) (UInt32.ofNat total) =
      periodLoop rounds p (UInt32.ofNat (total + readSeconds groups)) := by
  induction groups generalizing total with
  | nil => rw [List.length_nil, Nat.zero_add]; rfl
  | cons group groups inductionHypothesis =>
      have added : UInt32.ofNat total + group.multiplier * strtouint32 group.number.digits =
          UInt32.ofNat (total + group.multiplier.toNat * readValue group.number.value) := by
        rw [← toNat_strtouint32, UInt32.ofNat_add, UInt32.ofNat_mul, UInt32.ofNat_toNat,
          UInt32.ofNat_toNat]
      rw [List.length_cons, Nat.succ_add, groupsText_cons,
        periodLoop_letter _ _ _ (isdigit_of_multiplierOf group.unit), group.unit]
      simp only [added]
      rw [inductionHypothesis, Nat.add_assoc, readSeconds, readSeconds, List.map_cons, List.sum_cons]

end

/-! ## The result -/

theorem length_groupsText (groups : List Group) :
    2 * groups.length ≤ (groupsText groups).length := by
  induction groups with
  | nil => exact Nat.le_refl 0
  | cons group groups inductionHypothesis =>
      have number := List.length_pos_iff.mpr group.number.nonempty
      rw [groupsText, List.flatMap_cons, List.length_append, List.length_append,
        List.length_singleton, List.length_cons]
      rw [groupsText] at inductionHypothesis
      omega

/-- What the loop makes of the text behind some groups. -/
theorem getTimePeriodFromString_groups (groups : List Group) (p : List UInt8) :
    Exists fun rounds => getTimePeriodFromString (groupsText groups ++ p) =
      periodLoop (rounds + p.length + 1) p (UInt32.ofNat (readSeconds groups)) := by
  have enough := length_groupsText groups
  refine ⟨(groupsText groups).length - groups.length, ?_⟩
  have rounds : (groupsText groups ++ p).length + 1 =
      groups.length + ((groupsText groups).length - groups.length + p.length + 1) := by
    rw [List.length_append]
    omega
  have run := periodLoop_groups ((groupsText groups).length - groups.length + p.length + 1) groups p 0
  rw [Nat.zero_add] at run
  rw [getTimePeriodFromString, rounds]
  exact run

/-- The seconds of a period as the loop has them. -/
def Period.readSeconds (period : Period) : Nat :=
  DarkEden.readSeconds period.groups +
    60 * (period.minutes.map fun number => readValue number.value).getD 0

theorem getTimePeriodFromString_text (period : Period) :
    getTimePeriodFromString period.text = some (toInt (period.readSeconds % 2 ^ 32)) := by
  rcases period with ⟨groups, minutes⟩
  cases minutes with
  | none =>
      rcases getTimePeriodFromString_groups groups [] with ⟨rounds, run⟩
      rw [periodLoop, UInt32.toNat_ofNat'] at run
      exact run
  | some number =>
      rcases getTimePeriodFromString_groups groups number.digits with ⟨rounds, run⟩
      have added : UInt32.ofNat (readSeconds groups) + timeMinute * strtouint32 number.digits =
          UInt32.ofNat (readSeconds groups + 60 * readValue number.value) := by
        rw [← toNat_strtouint32, UInt32.ofNat_add, UInt32.ofNat_mul, UInt32.ofNat_toNat]
        rfl
      have positive := List.length_pos_iff.mpr number.nonempty
      have again : rounds + number.digits.length = rounds + (number.digits.length - 1) + 1 := by omega
      rw [periodLoop_minutes, added, again, periodLoop, UInt32.toNat_ofNat'] at run
      rw [Period.text, Period.readSeconds, Option.map_some, Option.map_some, Option.getD_some,
        Option.getD_some]
      exact run

example : getTimePeriodFromString [49, 100, 50, 72, 51, 48] = some 95400 := by
  decide +kernel

theorem getTimePeriodFromString_stop (groups : List Group) {byte : UInt8}
    (other : isdigit byte = false) (rest : List UInt8) :
    getTimePeriodFromString (groupsText groups ++ byte :: rest) =
      some (toInt (readSeconds groups % 2 ^ 32)) := by
  rcases getTimePeriodFromString_groups groups (byte :: rest) with ⟨rounds, run⟩
  rw [periodLoop_stop _ _ other, UInt32.toNat_ofNat'] at run
  exact run

/-- The number in front of a string. -/
theorem collected {first : UInt8} (digit : isdigit first = true) (others : List UInt8) :
    Exists fun number : Number => Exists fun rest =>
      first :: others = number.digits ++ rest ∧ rest.head?.any isdigit = false := by
  refine ⟨⟨(first :: others).takeWhile isdigit, ?_, fun byte member => List.mem_takeWhile_imp member⟩,
    (first :: others).dropWhile isdigit, List.takeWhile_append_dropWhile.symm, ?_⟩
  · rw [List.takeWhile_cons_of_pos digit]
    exact List.cons_ne_nil _ _
  · cases ended : ((first :: others).dropWhile isdigit).head? with
    | none => rfl
    | some byte =>
        have other := List.head?_dropWhile_not isdigit (first :: others)
        rw [ended] at other
        exact other

/-- Every string begins with groups, and it ends there, with a number, with
something else or with a broken number. -/
theorem exists_groups (str : List UInt8) :
    (Exists fun period : Period => str = period.text) ∨
    (Exists fun groups => Exists fun byte => Exists fun rest =>
      str = groupsText groups ++ byte :: rest ∧ isdigit byte = false) ∨ Broken str := by
  induction length : str.length using Nat.strongRecOn generalizing str with
  | ind size inductionHypothesis =>
      cases str with
      | nil => exact .inl ⟨⟨[], none⟩, rfl⟩
      | cons byte str =>
          by_cases digit : isdigit byte = true
          · rcases collected digit str with ⟨number, rest, split, ended⟩
            cases rest with
            | nil =>
                rw [List.append_nil] at split
                exact .inl ⟨⟨[], some number⟩, split⟩
            | cons letter rest =>
                rw [List.head?_cons, Option.any_some] at ended
                cases unit : multiplierOf letter with
                | none => exact .inr (.inr ⟨[], number, letter, rest, split, ended, unit⟩)
                | some multiplier =>
                    have shorter : rest.length < size := by
                      rw [← length, split, List.length_append, List.length_cons]
                      omega
                    have extend : forall groups p, rest = groupsText groups ++ p -> byte :: str =
                        groupsText (⟨number, letter, multiplier, unit⟩ :: groups) ++ p := by
                      intro groups p same
                      rw [groupsText_cons, ← same]
                      exact split
                    rcases inductionHypothesis rest.length shorter rest rfl with
                      ⟨⟨groups, minutes⟩, same⟩ | ⟨groups, other, behind, same, not⟩ |
                      ⟨front, next, other, behind, same, not, none⟩
                    · exact .inl ⟨⟨_, minutes⟩, extend groups _ same⟩
                    · exact .inr (.inl ⟨_, other, behind, extend groups _ same, not⟩)
                    · refine .inr (.inr
                        ⟨number.digits ++ letter :: front, next, other, behind, ?_, not, none⟩)
                      rw [split, same, List.append_assoc, List.cons_append]
          · exact .inr (.inl ⟨[], byte, str, rfl, Bool.eq_false_iff.mpr digit⟩)

theorem multiplier_pos (group : Group) : 1 ≤ group.multiplier.toNat := by
  have unit := group.unit
  simp only [multiplierOf] at unit
  split_ifs at unit
  all_goals
    rw [← Option.some.inj unit]
    decide

theorem readValue_eq {value : Nat} (small : value < 2 ^ 31) : readValue value = value := by
  have double : 2 ^ 31 ≤ doubleLimit := by
    decide +kernel
  rw [readValue, if_pos (Nat.lt_of_lt_of_le small double), Nat.min_eq_left (by omega)]

/-- Sums below 31 bits are read exactly. -/
theorem readSeconds_eq (groups : List Group)
    (small : (groups.map fun group => group.multiplier.toNat * group.number.value).sum < 2 ^ 31) :
    readSeconds groups =
      (groups.map fun group => group.multiplier.toNat * group.number.value).sum := by
  induction groups with
  | nil => rw [readSeconds, List.map_nil, List.map_nil]
  | cons group groups inductionHypothesis =>
      rw [List.map_cons, List.sum_cons] at small
      have value : group.number.value ≤ group.multiplier.toNat * group.number.value :=
        Nat.le_mul_of_pos_left _ (multiplier_pos group)
      have rest := inductionHypothesis (by omega)
      rw [readSeconds] at rest
      rw [readSeconds, List.map_cons, List.map_cons, List.sum_cons, List.sum_cons, rest,
        readValue_eq (by omega)]

theorem Period.readSeconds_eq {period : Period} (small : period.seconds < 2 ^ 31) :
    period.readSeconds = period.seconds := by
  rcases period with ⟨groups, minutes⟩
  simp only [Period.seconds] at small
  rw [Period.readSeconds, Period.seconds, DarkEden.readSeconds_eq groups (by omega)]
  cases minutes with
  | none => rw [Option.map_none, Option.map_none]
  | some number =>
      rw [Option.map_some, Option.getD_some] at small
      rw [Option.map_some, Option.map_some, Option.getD_some, Option.getD_some,
        readValue_eq (by omega)]

/-- Periods below 31 bits give their seconds. -/
theorem getTimePeriodFromString_seconds {period : Period} (small : period.seconds < 2 ^ 31) :
    getTimePeriodFromString period.text = some (period.seconds : Int) := by
  rw [getTimePeriodFromString_text, period.readSeconds_eq small, Nat.mod_eq_of_lt (by omega),
    toInt_of_lt small]

/-- The error value is unambiguous for exactly the strings that, as a period, have
fewer than `2 ^ 31` seconds, and otherwise, unless a number is broken, begin with
groups whose seconds, as they are read, have a remainder below `2 ^ 31`. -/
theorem getTimePeriodFromString_iff (str : List UInt8) :
    Unambiguous str <->
      (forall period : Period, str = period.text -> period.seconds < 2 ^ 31) ∧
      forall groups byte rest, str = groupsText groups ++ byte :: rest -> isdigit byte = false ->
        ¬ Broken str -> readSeconds groups % 2 ^ 32 < 2 ^ 31 := by
  constructor
  · intro unambiguous
    constructor
    · rintro period rfl
      have exact' := unambiguous.exact period rfl
      rw [getTimePeriodFromString_text, Option.some.injEq] at exact'
      have bound : period.readSeconds % 2 ^ 32 < 2 ^ 32 := Nat.mod_lt _ (by decide)
      by_contra large
      rcases Nat.lt_or_ge (period.readSeconds % 2 ^ 32) (2 ^ 31) with small | negative
      · rw [toInt_of_lt small] at exact'
        omega
      · rw [toInt_of_le negative bound] at exact'
        omega
    · rintro groups byte rest rfl other whole
      by_contra large
      have bound : readSeconds groups % 2 ^ 32 < 2 ^ 32 := Nat.mod_lt _ (by decide)
      have returned := getTimePeriodFromString_stop groups other rest
      rw [toInt_of_le (Nat.not_lt.mp large) bound] at returned
      exact whole (unambiguous.negative _ returned (by omega))
  · rintro ⟨periods, others⟩
    constructor
    · rintro period rfl
      exact getTimePeriodFromString_seconds (periods period rfl)
    · intro result returned negative
      rcases exists_groups str with ⟨period, rfl⟩ | ⟨groups, byte, rest, rfl, other⟩ | broken
      · rw [getTimePeriodFromString_seconds (periods period rfl), Option.some.injEq] at returned
        omega
      · by_contra whole
        have small := others groups byte rest rfl other whole
        rw [getTimePeriodFromString_stop groups other, toInt_of_lt small, Option.some.injEq] at returned
        omega
      · exact broken

/-- `35791395` minutes. -/
theorem getTimePeriodFromString_minutes :
    ¬ Unambiguous [51, 53, 55, 57, 49, 51, 57, 53] := by
  intro unambiguous
  have returned : getTimePeriodFromString [51, 53, 55, 57, 49, 51, 57, 53] = some (-2147483596) := by
    decide +kernel
  have exact' := unambiguous.exact
    ⟨[], some ⟨[51, 53, 55, 57, 49, 51, 57, 53], by decide, List.all_eq_true.mp rfl⟩⟩ rfl
  rw [returned, Option.some.injEq] at exact'
  omega

end DarkEden
end ServerTech
