import Mathlib.Data.Nat.Digits.Lemmas

namespace ServerTech
namespace Numeral

/-!
# Numerals

Numbers as they are printed and read: digits with the highest one first.  The
value of digits is that of `Nat.ofDigits` on the reversed list, and equally long
lists of digits with one value are equal.  Digits below ten have bytes of their
own in a text.
-/

section

variable {base : Nat}

/-! ## Digits and values -/

/-- The value of digits in a base. -/
def value (base : Nat) (digits : List Nat) : Nat :=
  Nat.ofDigits base digits.reverse

/-- The digits of a number, at least one. -/
def numeral (base number : Nat) : List Nat :=
  if number = 0 then [0] else (Nat.digits base number).reverse

/-- Digits with zeros in front of them up to a width. -/
def padded (width : Nat) (digits : List Nat) : List Nat :=
  List.replicate (width - digits.length) 0 ++ digits

theorem value_append (base : Nat) (high low : List Nat) :
    value base (high ++ low) = value base high * base ^ low.length + value base low := by
  rw [value, List.reverse_append, Nat.ofDigits_append, List.length_reverse, Nat.add_comm,
    Nat.mul_comm]
  rfl

theorem value_lt (large : 1 < base) {digits : List Nat}
    (below : forall digit, digit ∈ digits -> digit < base) :
    value base digits < base ^ digits.length := by
  rw [value, ← List.length_reverse]
  apply Nat.ofDigits_lt_base_pow_length large
  intro digit member
  exact below digit (List.mem_reverse.mp member)

/-- Equally long lists of digits with one value are equal. -/
theorem value_injective (large : 1 < base) {first second : List Nat}
    (firstBelow : forall digit, digit ∈ first -> digit < base)
    (secondBelow : forall digit, digit ∈ second -> digit < base)
    (lengths : first.length = second.length) (same : value base first = value base second) :
    first = second := by
  apply List.reverse_injective
  apply Nat.ofDigits_inj_of_len_eq large
  · rw [List.length_reverse, List.length_reverse, lengths]
  · intro digit member
    exact firstBelow digit (List.mem_reverse.mp member)
  · intro digit member
    exact secondBelow digit (List.mem_reverse.mp member)
  · exact same

/-! ## The numeral of a number -/

theorem value_numeral (base number : Nat) : value base (numeral base number) = number := by
  rw [value, numeral]
  by_cases zero : number = 0
  · rw [if_pos zero, zero, List.reverse_singleton, Nat.ofDigits_singleton]
  · rw [if_neg zero, List.reverse_reverse, Nat.ofDigits_digits]

theorem numeral_ne_nil (base number : Nat) : numeral base number ≠ [] := by
  rw [numeral]
  by_cases zero : number = 0
  · rw [if_pos zero]
    exact List.cons_ne_nil 0 []
  · rw [if_neg zero, Ne, List.reverse_eq_nil_iff, Nat.digits_eq_nil_iff_eq_zero]
    exact zero

theorem numeral_lt (large : 1 < base) (number : Nat) :
    forall digit, digit ∈ numeral base number -> digit < base := by
  intro digit member
  rw [numeral] at member
  by_cases zero : number = 0
  · rw [if_pos zero] at member
    rw [List.mem_singleton.mp member]
    exact Nat.lt_trans Nat.zero_lt_one large
  · rw [if_neg zero] at member
    exact Nat.digits_lt_base large (List.mem_reverse.mp member)

theorem length_numeral_le (large : 1 < base) {number width : Nat} (positive : 0 < width)
    (small : number < base ^ width) : (numeral base number).length ≤ width := by
  rw [numeral]
  by_cases zero : number = 0
  · rw [if_pos zero]
    exact positive
  · rw [if_neg zero, List.length_reverse]
    exact (Nat.digits_length_le_iff large number).mpr small

theorem lt_length_numeral (large : 1 < base) {number width : Nat} (reached : base ^ width ≤ number) :
    width < (numeral base number).length := by
  have nonzero : number ≠ 0 := by
    have positive := Nat.pow_pos (n := width) (Nat.lt_trans Nat.zero_lt_one large)
    omega
  rw [numeral, if_neg nonzero, List.length_reverse]
  exact (Nat.lt_digits_length_iff large number).mpr reached

/-- A number is nonzero exactly when its numeral does not begin with a zero. -/
theorem head_numeral (base number : Nat) :
    (numeral base number).head? = some 0 <-> number = 0 := by
  constructor
  · intro leading
    by_contra nonzero
    rw [numeral, if_neg nonzero, List.head?_reverse] at leading
    have last := List.getLast_eq_iff_getLast?_eq_some
      (Nat.digits_ne_nil_iff_ne_zero.mpr nonzero) |>.mpr leading
    exact Nat.getLast_digit_ne_zero base nonzero last
  · intro zero
    rw [numeral, if_pos zero]
    rfl

/-! ## Zeros in front -/

theorem value_padded (base width : Nat) (digits : List Nat) :
    value base (padded width digits) = value base digits := by
  rw [padded, value_append, value, List.reverse_replicate, Nat.ofDigits_replicate_zero,
    Nat.zero_mul, Nat.zero_add]

theorem length_padded {width : Nat} {digits : List Nat} (short : digits.length ≤ width) :
    (padded width digits).length = width := by
  rw [padded, List.length_append, List.length_replicate, Nat.sub_add_cancel short]

theorem padded_lt (positive : 0 < base) (width : Nat) {digits : List Nat}
    (below : forall digit, digit ∈ digits -> digit < base) :
    forall digit, digit ∈ padded width digits -> digit < base := by
  intro digit member
  rcases List.mem_append.mp member with zero | listed
  · rw [List.eq_of_mem_replicate zero]
    exact positive
  · exact below digit listed

end

/-! ## Texts -/

/-- The byte of a digit below ten. -/
def digitByte (digit : Nat) : UInt8 :=
  UInt8.ofNat (48 + digit)

/-- A number in decimal. -/
def decimal (number : Nat) : List UInt8 :=
  (numeral 10 number).map digitByte

/-- The bytes of a text in ASCII. -/
def bytes (text : String) : List UInt8 :=
  text.toList.map fun letter => UInt8.ofNat letter.toNat

def isDigit (byte : UInt8) : Bool :=
  decide (48 ≤ byte.toNat ∧ byte.toNat ≤ 57)

theorem toNat_digitByte {digit : Nat} (small : digit < 10) :
    (digitByte digit).toNat = 48 + digit :=
  UInt8.toNat_ofNat_of_lt' (show 48 + digit < 256 by omega)

theorem isDigit_of_mem_decimal {number : Nat} {byte : UInt8} (member : byte ∈ decimal number) :
    isDigit byte = true := by
  rcases List.mem_map.mp member with ⟨digit, listed, rfl⟩
  have small := numeral_lt (by decide) number digit listed
  rw [isDigit, decide_eq_true_eq, toNat_digitByte small]
  omega

theorem decimal_ne_nil (number : Nat) : decimal number ≠ [] :=
  fun empty => numeral_ne_nil 10 number (List.map_eq_nil_iff.mp empty)

theorem decimal_injective : Function.Injective decimal := by
  intro first second same
  have digits : forall number, (decimal number).map (fun byte => byte.toNat - 48) = numeral 10 number := by
    intro number
    rw [decimal, List.map_map]
    refine (List.map_congr_left ?_).trans (List.map_id _)
    intro digit listed
    have small := numeral_lt (by decide) number digit listed
    rw [Function.comp_apply, toNat_digitByte small, Nat.add_sub_cancel_left]
    rfl
  have numerals := congrArg (List.map fun byte => byte.toNat - 48) same
  rw [digits, digits] at numerals
  have values := congrArg (value 10) numerals
  rw [value_numeral, value_numeral] at values
  exact values

/-- A number ends where its digits end. -/
theorem decimal_append {first second : Nat} {behind other : List UInt8}
    (ended : behind.head?.any isDigit = false) (otherEnded : other.head?.any isDigit = false)
    (same : decimal first ++ behind = decimal second ++ other) : first = second ∧ behind = other := by
  have taken : forall (number : Nat) (rest : List UInt8), rest.head?.any isDigit = false ->
      (decimal number ++ rest).takeWhile isDigit = decimal number := by
    intro number rest none
    rw [List.takeWhile_append_of_pos fun byte => isDigit_of_mem_decimal]
    cases rest with
    | nil => exact List.append_nil _
    | cons byte rest =>
        rw [List.head?_cons, Option.any_some] at none
        rw [List.takeWhile_cons_of_neg (by rw [none]; exact Bool.false_ne_true), List.append_nil]
  have numbers := congrArg (List.takeWhile isDigit) same
  rw [taken first behind ended, taken second other otherEnded] at numbers
  rw [numbers] at same
  exact ⟨decimal_injective numbers, List.append_cancel_left same⟩

/-! ## Labelled numbers -/

/-- Numbers with labels behind them, without the zeros. -/
def labelled : List (List UInt8) -> List Nat -> List UInt8
  | label :: labels, number :: numbers =>
      (if number = 0 then [] else decimal number ++ label) ++ labelled labels numbers
  | _, _ => []

/-- Labels that end a number and cannot be taken for each other. -/
structure Labels (labels : List (List UInt8)) : Prop where
  nonempty : forall label, label ∈ labels -> label ≠ []
  ended : forall label, label ∈ labels -> label.head?.any isDigit = false
  distinct : labels.Pairwise fun first second => ¬ first <+: second ∧ ¬ second <+: first

theorem Labels.tail {label : List UInt8} {labels : List (List UInt8)} (all : Labels (label :: labels)) :
    Labels labels :=
  ⟨fun other member => all.nonempty other (List.mem_cons_of_mem _ member),
    fun other member => all.ended other (List.mem_cons_of_mem _ member),
    (List.pairwise_cons.mp all.distinct).2⟩

theorem Labels.ends {labels : List (List UInt8)} (all : Labels labels) {label : List UInt8}
    (member : label ∈ labels) (rest : List UInt8) : (label ++ rest).head?.any isDigit = false := by
  rw [List.head?_append_of_ne_nil _ (all.nonempty label member)]
  exact all.ended label member

/-- A text of labelled numbers is empty, or it begins with a number and its label. -/
theorem labelled_cases (labels : List (List UInt8)) (numbers : List Nat) :
    labelled labels numbers = [] ∨
      Exists fun number => Exists fun label => Exists fun rest => label ∈ labels ∧
        labelled labels numbers = decimal number ++ (label ++ rest) := by
  induction labels generalizing numbers with
  | nil => exact .inl rfl
  | cons label labels inductionHypothesis =>
      cases numbers with
      | nil => exact .inl rfl
      | cons number numbers =>
          rw [labelled]
          by_cases zero : number = 0
          · rw [if_pos zero, List.nil_append]
            rcases inductionHypothesis numbers with empty | ⟨next, behind, rest, member, text⟩
            · exact .inl empty
            · exact .inr ⟨next, behind, rest, List.mem_cons_of_mem _ member, text⟩
          · rw [if_neg zero, List.append_assoc]
            exact .inr ⟨number, label, _, List.mem_cons_self, rfl⟩

/-- The label behind a nonzero number tells it from the numbers behind it. -/
theorem labelled_ne {label : List UInt8} {labels : List (List UInt8)} (all : Labels (label :: labels))
    (number : Nat) (rest : List UInt8) (numbers : List Nat) :
    decimal number ++ (label ++ rest) ≠ labelled labels numbers := by
  intro same
  rcases labelled_cases labels numbers with empty | ⟨next, behind, rest', member, text⟩
  · rw [empty] at same
    exact decimal_ne_nil number (List.append_eq_nil_iff.mp same).1
  · rw [text] at same
    have labelsSame := (decimal_append (all.ends List.mem_cons_self rest)
      (all.ends (List.mem_cons_of_mem _ member) rest') same).2
    have apart := (List.pairwise_cons.mp all.distinct).1 behind member
    rcases List.prefix_or_prefix_of_prefix (List.prefix_append label rest)
        (labelsSame ▸ List.prefix_append behind rest') with front | back
    · exact apart.1 front
    · exact apart.2 back

/-- The text tells the numbers. -/
theorem labelled_injective {labels : List (List UInt8)} (all : Labels labels) {first second : List Nat}
    (firstLength : first.length = labels.length) (secondLength : second.length = labels.length)
    (same : labelled labels first = labelled labels second) : first = second := by
  induction labels generalizing first second with
  | nil => rw [List.length_eq_zero_iff.mp firstLength, List.length_eq_zero_iff.mp secondLength]
  | cons label labels inductionHypothesis =>
      cases first with
      | nil => cases firstLength
      | cons number first =>
          cases second with
          | nil => cases secondLength
          | cons other second =>
              have rest := fun equal => inductionHypothesis all.tail (Nat.succ.inj firstLength)
                (Nat.succ.inj secondLength) equal
              rw [labelled, labelled] at same
              by_cases zero : number = 0
              · by_cases otherZero : other = 0
                · rw [if_pos zero, if_pos otherZero, List.nil_append, List.nil_append] at same
                  rw [zero, otherZero, rest same]
                · rw [if_pos zero, if_neg otherZero, List.nil_append, List.append_assoc] at same
                  exact absurd same.symm (labelled_ne all other _ first)
              · by_cases otherZero : other = 0
                · rw [if_neg zero, if_pos otherZero, List.nil_append, List.append_assoc] at same
                  exact absurd same (labelled_ne all number _ second)
                · rw [if_neg zero, if_neg otherZero, List.append_assoc, List.append_assoc] at same
                  rcases decimal_append (all.ends List.mem_cons_self _)
                    (all.ends List.mem_cons_self _) same with ⟨numbers, texts⟩
                  rw [numbers, rest (List.append_cancel_left texts)]

end Numeral
end ServerTech
