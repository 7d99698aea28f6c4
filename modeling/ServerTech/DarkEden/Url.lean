import Mathlib.Data.List.Basic

namespace ServerTech
namespace DarkEden

/-!
# URL coding

`UrlEncode` keeps letters, digits and four punctuation marks, writes a space as
a plus sign and every other byte as a percent sign with two hexadecimal digits.
`UrlDecode` goes back, and asserts that two characters follow every percent
sign.

`FromHex` is declared in the header and defined nowhere, so it is a parameter.
What the coding needs of it is that it inverts `ToHex` on the sixteen digits.
-/

/-! ## Coding -/

/-- `isalnum` of the C locale. -/
def isalnum (character : UInt8) : Bool :=
  decide (48 ≤ character ∧ character ≤ 57) || decide (65 ≤ character ∧ character ≤ 90) ||
    decide (97 ≤ character ∧ character ≤ 122)

/-- Letters, digits, `-`, `_`, `.` and `~`. -/
def unreserved (character : UInt8) : Bool :=
  isalnum character || character == 45 || character == 95 || character == 46 || character == 126

def toHex (x : UInt8) : UInt8 :=
  if 9 < x then x + 55 else x + 48

/-- What `UrlEncode` appends for one byte. -/
def urlEncodeByte (byte : UInt8) : List UInt8 :=
  if unreserved byte then [byte]
  else if byte = 32 then [43]
  else [37, toHex (byte >>> 4), toHex (byte % 16)]

def urlEncode (str : List UInt8) : List UInt8 :=
  str.flatMap urlEncodeByte

/-- `UrlDecode`, without a result when its assertion fails. -/
def urlDecode (fromHex : UInt8 -> UInt8) : List UInt8 -> Option (List UInt8)
  | [] => some []
  | character :: rest =>
      if character = 43 then (urlDecode fromHex rest).map (32 :: ·)
      else if character = 37 then
        match rest with
        | high :: low :: rest =>
            (urlDecode fromHex rest).map ((fromHex high * 16 + fromHex low) :: ·)
        | _ => none
      else (urlDecode fromHex rest).map (character :: ·)

/-! ## The form of the output -/

/-- `0` to `9` and `A` to `F`. -/
def upperHex (character : UInt8) : Bool :=
  decide (48 ≤ character ∧ character ≤ 57) || decide (65 ≤ character ∧ character ≤ 70)

/-- Unreserved characters, plus signs, and percent signs with two uppercase
hexadecimal digits. -/
inductive Escaped : List UInt8 -> Prop
  | nil : Escaped []
  | plain {character : UInt8} {rest : List UInt8} : unreserved character = true ->
      Escaped rest -> Escaped (character :: rest)
  | plus {rest : List UInt8} : Escaped rest -> Escaped (43 :: rest)
  | percent {high low : UInt8} {rest : List UInt8} : upperHex high = true -> upperHex low = true ->
      Escaped rest -> Escaped (37 :: high :: low :: rest)

theorem toHex_upperHex {digit : UInt8} (small : digit < 16) : upperHex (toHex digit) = true := by
  have each : forall value, value < 16 -> upperHex (toHex (UInt8.ofNat value)) = true := by decide
  have own := each digit.toNat (UInt8.lt_iff_toNat_lt.mp small)
  rw [UInt8.ofNat_toNat] at own
  exact own

theorem halves_lt (byte : UInt8) : byte >>> 4 < 16 ∧ byte % 16 < 16 := by
  refine ⟨?_, ?_⟩
  · rw [UInt8.lt_iff_toNat_lt, UInt8.toNat_shiftRight]
    have bound := byte.toNat_lt
    simp only [UInt8.reduceToNat, Nat.shiftRight_eq_div_pow, Nat.reduceMod, Nat.reducePow]
    omega
  · rw [UInt8.lt_iff_toNat_lt, UInt8.toNat_mod]
    exact Nat.mod_lt _ (by decide)

/-- A byte is sixteen times its upper half and its lower half. -/
theorem halves_eq (byte : UInt8) : byte >>> 4 * 16 + byte % 16 = byte := by
  apply UInt8.toNat_inj.mp
  have bound := byte.toNat_lt
  rw [UInt8.toNat_add, UInt8.toNat_mul, UInt8.toNat_shiftRight, UInt8.toNat_mod]
  simp only [UInt8.reduceToNat, Nat.shiftRight_eq_div_pow, Nat.reduceMod, Nat.reducePow]
  omega

/-! ## The round trip -/

theorem unreserved_ne {character : UInt8} (kept : unreserved character = true) :
    character ≠ 43 ∧ character ≠ 37 := by
  refine ⟨?_, ?_⟩
  · rintro rfl
    exact absurd kept (by decide)
  · rintro rfl
    exact absurd kept (by decide)

/-- The decoder takes the code of one byte and goes on behind it. -/
theorem urlDecode_urlEncodeByte {fromHex : UInt8 -> UInt8}
    (inverts : forall digit, digit < 16 -> fromHex (toHex digit) = digit) (byte : UInt8)
    (rest : List UInt8) :
    urlDecode fromHex (urlEncodeByte byte ++ rest) = (urlDecode fromHex rest).map (byte :: ·) := by
  unfold urlEncodeByte
  by_cases kept : unreserved byte = true
  · rcases unreserved_ne kept with ⟨noPlus, noPercent⟩
    rw [if_pos kept, List.singleton_append, urlDecode.eq_def]
    simp only [if_neg noPlus, if_neg noPercent]
  · rw [if_neg kept]
    by_cases space : byte = 32
    · rw [if_pos space, List.singleton_append, urlDecode.eq_def, space]
      simp only [if_true]
    · have code : fromHex (toHex (byte >>> 4)) * 16 + fromHex (toHex (byte % 16)) = byte := by
        rw [inverts _ (halves_lt byte).1, inverts _ (halves_lt byte).2, halves_eq]
      have different : (37 : UInt8) ≠ 43 := by decide
      rw [if_neg space, List.cons_append, urlDecode.eq_def]
      simp only [List.cons_append, List.nil_append, if_neg different, if_true, code]

theorem urlEncodeByte_escaped (byte : UInt8) {rest : List UInt8} (escaped : Escaped rest) :
    Escaped (urlEncodeByte byte ++ rest) := by
  unfold urlEncodeByte
  by_cases kept : unreserved byte = true
  · rw [if_pos kept]
    exact .plain kept escaped
  · rw [if_neg kept]
    by_cases space : byte = 32
    · rw [if_pos space]
      exact .plus escaped
    · rw [if_neg space]
      exact .percent (toHex_upperHex (halves_lt byte).1) (toHex_upperHex (halves_lt byte).2) escaped

/-- Every byte string is read back from its code, the assertion holds on the
way, and the code has only the characters it may have. -/
theorem urlDecode_urlEncode {fromHex : UInt8 -> UInt8}
    (inverts : forall digit, digit < 16 -> fromHex (toHex digit) = digit) (str : List UInt8) :
    urlDecode fromHex (urlEncode str) = some str ∧ Escaped (urlEncode str) := by
  induction str with
  | nil => exact ⟨rfl, .nil⟩
  | cons byte str inductionHypothesis =>
      rw [urlEncode, List.flatMap_cons]
      refine ⟨?_, urlEncodeByte_escaped byte inductionHypothesis.2⟩
      rw [urlDecode_urlEncodeByte inverts]
      exact congrArg (Option.map (byte :: ·)) inductionHypothesis.1

/-- The body that the source has for `FromHex` in a comment. -/
def commentedFromHex (x : UInt8) : UInt8 :=
  if 65 ≤ x ∧ x ≤ 90 then x - 65 + 10
  else if 97 ≤ x ∧ x ≤ 122 then x - 97 + 10
  else x - 48

/-- A plus sign, a percent sign, a space and a byte above 127. -/
theorem urlDecode_urlEncode_signs :
    urlEncode [43, 37, 32, 200] = [37, 50, 66, 37, 50, 53, 43, 37, 67, 56] ∧
      urlDecode commentedFromHex (urlEncode [43, 37, 32, 200]) = some [43, 37, 32, 200] ∧
      Escaped (urlEncode [43, 37, 32, 200]) := by
  have each : forall value, value < 16 ->
      commentedFromHex (toHex (UInt8.ofNat value)) = UInt8.ofNat value := by decide
  refine ⟨by decide, urlDecode_urlEncode ?_ _⟩
  intro digit small
  have own := each digit.toNat (UInt8.lt_iff_toNat_lt.mp small)
  rw [UInt8.ofNat_toNat] at own
  exact own

end DarkEden
end ServerTech
