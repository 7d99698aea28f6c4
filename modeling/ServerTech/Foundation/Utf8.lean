import Mathlib.Data.List.Forall2

namespace ServerTech
namespace Utf8

/-!
# UTF-8

The grammar of RFC 3629 gives nine forms of a character, each as the range of
every byte of it.  `Character` reads the grammar off the table, and
`character_iff` says that it describes the encodings of the Unicode scalar
values and nothing else.

`Shaped` is the looser pattern that the first byte alone describes: the number
of ones it starts with is the number of bytes of the character, and all bytes
after it are of the form `10xxxxxx`.  A text is cut into shaped characters in
one way only.  A shaped character that the grammar refuses is `Irregular`: it
is longer than it need be, a surrogate, or beyond the last scalar value.
-/

/-- The forms of a character, with the least and the greatest value of every byte. -/
def forms : List (List (Nat × Nat)) :=
  [[(0x00, 0x7F)],
    [(0xC2, 0xDF), (0x80, 0xBF)],
    [(0xE0, 0xE0), (0xA0, 0xBF), (0x80, 0xBF)],
    [(0xE1, 0xEC), (0x80, 0xBF), (0x80, 0xBF)],
    [(0xED, 0xED), (0x80, 0x9F), (0x80, 0xBF)],
    [(0xEE, 0xEF), (0x80, 0xBF), (0x80, 0xBF)],
    [(0xF0, 0xF0), (0x90, 0xBF), (0x80, 0xBF), (0x80, 0xBF)],
    [(0xF1, 0xF3), (0x80, 0xBF), (0x80, 0xBF), (0x80, 0xBF)],
    [(0xF4, 0xF4), (0x80, 0x8F), (0x80, 0xBF), (0x80, 0xBF)]]

/-- The byte lies in the range. -/
def Within (byte : UInt8) (range : Nat × Nat) : Prop :=
  range.1 ≤ byte.toNat ∧ byte.toNat ≤ range.2

/-- The bytes of one character. -/
def Character (bytes : List UInt8) : Prop :=
  Exists fun form => form ∈ forms ∧ List.Forall₂ Within bytes form

/-- A sequence of parts of a kind, one after the other. -/
def Sequence (part : List UInt8 -> Prop) (text : List UInt8) : Prop :=
  Exists fun parts : List (List UInt8) => (forall bytes, bytes ∈ parts -> part bytes) ∧ parts.flatten = text

theorem Sequence.cons {part : List UInt8 -> Prop} {bytes text : List UInt8} (first : part bytes)
    (rest : Sequence part text) : Sequence part (bytes ++ text) := by
  rcases rest with ⟨parts, each, rfl⟩
  exact ⟨bytes :: parts, List.forall_mem_cons.mpr ⟨first, each⟩, rfl⟩

/-- Well-formed text: a sequence of characters. -/
def WellFormed (text : List UInt8) : Prop :=
  Sequence Character text

/-- A byte that is not the code of an ASCII character. -/
def NonAscii (byte : UInt8) : Prop :=
  0x80 ≤ byte.toNat

/-- A byte `10xxxxxx`. -/
def Trailing (byte : UInt8) : Prop :=
  Within byte (0x80, 0xBF)

/-- The number of bytes of the character that a byte announces: one for ASCII,
none for a trailing byte, and otherwise the ones the byte starts with. -/
def width (byte : UInt8) : Nat :=
  if byte.toNat < 0x80 then 1
  else if byte.toNat < 0xC0 then 0
  else if byte.toNat < 0xE0 then 2
  else if byte.toNat < 0xF0 then 3
  else if byte.toNat < 0xF8 then 4
  else if byte.toNat < 0xFC then 5
  else if byte.toNat < 0xFE then 6
  else if byte.toNat < 0xFF then 7
  else 8

/-- As many bytes as the first one announces, and trailing bytes behind it. -/
def Shaped : List UInt8 -> Prop
  | [] => False
  | lead :: trail =>
      width lead = trail.length + 1 ∧ forall byte, byte ∈ trail -> Trailing byte

/-- What the grammar refuses in a shaped character: the first bytes C0, C1 and
those from F5 on, and second bytes that make the form longer than it need be, a
surrogate, or greater than the last scalar value. -/
def Irregular : List UInt8 -> Prop
  | lead :: second :: _ =>
      lead.toNat < 0xC2 ∨ 0xF4 < lead.toNat ∨ (lead.toNat = 0xE0 ∧ second.toNat < 0xA0) ∨
        (lead.toNat = 0xED ∧ 0x9F < second.toNat) ∨ (lead.toNat = 0xF0 ∧ second.toNat < 0x90) ∨
        (lead.toNat = 0xF4 ∧ 0x8F < second.toNat)
  | _ => False

/-! ## The grammar and the pattern -/

/-- The first byte of a form announces its length, and the others trail. -/
theorem forms_shaped {form : List (Nat × Nat)} (member : form ∈ forms) :
    Exists fun first => Exists fun rest => form = first :: rest ∧
      (forall byte, Within byte first -> width byte = rest.length + 1) ∧
      forall range, range ∈ rest -> 0x80 ≤ range.1 ∧ range.2 ≤ 0xBF := by
  simp only [forms, List.mem_cons, List.not_mem_nil, or_false] at member
  rcases member with rfl | rfl | rfl | rfl | rfl | rfl | rfl | rfl | rfl <;>
    refine ⟨_, _, rfl, ?_, by decide⟩ <;> intro byte within <;> grind [width, Within]

theorem trailing_of_within {trail : List UInt8} {ranges : List (Nat × Nat)}
    (fits : List.Forall₂ Within trail ranges)
    (narrow : forall range, range ∈ ranges -> 0x80 ≤ range.1 ∧ range.2 ≤ 0xBF) :
    forall byte, byte ∈ trail -> Trailing byte := by
  induction fits with
  | nil => exact fun _ member => nomatch member
  | cons within _ inductionHypothesis =>
      intro other member
      rcases List.mem_cons.mp member with rfl | later
      · have bounds := narrow _ (List.mem_cons_self ..)
        exact ⟨Nat.le_trans bounds.1 within.1, Nat.le_trans within.2 bounds.2⟩
      · exact inductionHypothesis (fun range further => narrow range (List.mem_cons_of_mem _ further))
          other later

theorem Character.shaped {bytes : List UInt8} (character : Character bytes) : Shaped bytes := by
  rcases character with ⟨form, member, fits⟩
  rcases forms_shaped member with ⟨first, rest, rfl, announces, narrow⟩
  rcases List.forall₂_cons_right_iff.mp fits with ⟨lead, trail, within, others, rfl⟩
  refine ⟨?_, trailing_of_within others narrow⟩
  rw [announces lead within, others.length_eq]

theorem Character.regular {bytes : List UInt8} (character : Character bytes) : ¬ Irregular bytes := by
  rcases character with ⟨form, member, fits⟩
  simp only [forms, List.mem_cons, List.not_mem_nil, or_false] at member
  rcases member with rfl | rfl | rfl | rfl | rfl | rfl | rfl | rfl | rfl <;>
    rcases List.forall₂_cons_right_iff.mp fits with ⟨lead, trail, within, others, rfl⟩
  · rw [List.forall₂_nil_right_iff.mp others]
    exact id
  all_goals
    rcases List.forall₂_cons_right_iff.mp others with ⟨second, rest, next, _, rfl⟩
    simp only [Within] at within next
    simp only [Irregular]
    omega

/-- A first byte up to F7 announces at most four bytes. -/
theorem width_cases {lead : UInt8} (announces : 0 < width lead) (low : lead.toNat < 0xF8) :
    (width lead = 1 ∧ lead.toNat < 0x80) ∨
      (width lead = 2 ∧ 0xC0 ≤ lead.toNat ∧ lead.toNat < 0xE0) ∨
      (width lead = 3 ∧ 0xE0 ≤ lead.toNat ∧ lead.toNat < 0xF0) ∨
      (width lead = 4 ∧ 0xF0 ≤ lead.toNat) := by
  grind [width]

theorem character_one {lead : UInt8} (ascii : lead.toNat < 0x80) : Character [lead] := by
  refine ⟨[(0x00, 0x7F)], by simp [forms], .cons ⟨Nat.zero_le _, ?_⟩ .nil⟩
  exact Nat.le_of_lt_succ ascii

theorem character_two {lead second : UInt8} (least : 0xC2 ≤ lead.toNat) (low : lead.toNat < 0xE0)
    (next : Trailing second) : Character [lead, second] := by
  refine ⟨[(0xC2, 0xDF), (0x80, 0xBF)], by simp [forms], .cons ⟨least, ?_⟩ (.cons next .nil)⟩
  exact Nat.le_of_lt_succ low

/-- The second byte of three is bounded from below after E0 and from above after ED. -/
theorem character_three {lead second third : UInt8} (least : 0xE0 ≤ lead.toNat)
    (low : lead.toNat < 0xF0) (next : Trailing second) (last : Trailing third)
    (short : lead.toNat = 0xE0 -> 0xA0 ≤ second.toNat)
    (scalar : lead.toNat = 0xED -> second.toNat ≤ 0x9F) : Character [lead, second, third] := by
  by_cases first : lead.toNat = 0xE0
  · refine ⟨[(0xE0, 0xE0), (0xA0, 0xBF), (0x80, 0xBF)], by simp [forms], ?_⟩
    exact .cons ⟨least, Nat.le_of_eq first⟩ (.cons ⟨short first, next.2⟩ (.cons last .nil))
  by_cases surrogate : lead.toNat = 0xED
  · refine ⟨[(0xED, 0xED), (0x80, 0x9F), (0x80, 0xBF)], by simp [forms], ?_⟩
    exact .cons ⟨Nat.le_of_eq surrogate.symm, Nat.le_of_eq surrogate⟩
      (.cons ⟨next.1, scalar surrogate⟩ (.cons last .nil))
  by_cases before : lead.toNat < 0xED
  · refine ⟨[(0xE1, 0xEC), (0x80, 0xBF), (0x80, 0xBF)], by simp [forms], ?_⟩
    exact .cons ⟨by omega, by omega⟩ (.cons next (.cons last .nil))
  · refine ⟨[(0xEE, 0xEF), (0x80, 0xBF), (0x80, 0xBF)], by simp [forms], ?_⟩
    exact .cons ⟨by omega, by omega⟩ (.cons next (.cons last .nil))

/-- The second byte of four is bounded from below after F0 and from above after F4. -/
theorem character_four {lead second third fourth : UInt8} (least : 0xF0 ≤ lead.toNat)
    (low : lead.toNat ≤ 0xF4) (next : Trailing second) (after : Trailing third)
    (last : Trailing fourth) (short : lead.toNat = 0xF0 -> 0x90 ≤ second.toNat)
    (scalar : lead.toNat = 0xF4 -> second.toNat ≤ 0x8F) :
    Character [lead, second, third, fourth] := by
  by_cases first : lead.toNat = 0xF0
  · refine ⟨[(0xF0, 0xF0), (0x90, 0xBF), (0x80, 0xBF), (0x80, 0xBF)], by simp [forms], ?_⟩
    exact .cons ⟨least, Nat.le_of_eq first⟩
      (.cons ⟨short first, next.2⟩ (.cons after (.cons last .nil)))
  by_cases greatest : lead.toNat = 0xF4
  · refine ⟨[(0xF4, 0xF4), (0x80, 0x8F), (0x80, 0xBF), (0x80, 0xBF)], by simp [forms], ?_⟩
    exact .cons ⟨Nat.le_of_eq greatest.symm, low⟩
      (.cons ⟨next.1, scalar greatest⟩ (.cons after (.cons last .nil)))
  · refine ⟨[(0xF1, 0xF3), (0x80, 0xBF), (0x80, 0xBF), (0x80, 0xBF)], by simp [forms], ?_⟩
    exact .cons ⟨by omega, by omega⟩ (.cons next (.cons after (.cons last .nil)))

/-- The lengths of a shaped character that is not irregular, with what is left
to its bytes. -/
inductive Regular : List UInt8 -> Prop
  | one {lead : UInt8} (low : lead.toNat < 0x80) : Regular [lead]
  | two {lead second : UInt8} (least : 0xC2 ≤ lead.toNat) (low : lead.toNat < 0xE0)
      (next : Trailing second) : Regular [lead, second]
  | three {lead second third : UInt8} (least : 0xE0 ≤ lead.toNat) (low : lead.toNat < 0xF0)
      (next : Trailing second) (last : Trailing third)
      (short : lead.toNat = 0xE0 -> 0xA0 ≤ second.toNat)
      (scalar : lead.toNat = 0xED -> second.toNat ≤ 0x9F) : Regular [lead, second, third]
  | four {lead second third fourth : UInt8} (least : 0xF0 ≤ lead.toNat) (low : lead.toNat ≤ 0xF4)
      (next : Trailing second) (after : Trailing third) (last : Trailing fourth)
      (short : lead.toNat = 0xF0 -> 0x90 ≤ second.toNat)
      (scalar : lead.toNat = 0xF4 -> second.toNat ≤ 0x8F) : Regular [lead, second, third, fourth]

theorem regular_of_shaped {bytes : List UInt8} (shaped : Shaped bytes)
    (regular : ¬ Irregular bytes) : Regular bytes := by
  match bytes, shaped, regular with
  | [lead], ⟨announces, _⟩, _ =>
      rw [List.length_nil] at announces
      apply Regular.one
      grind [width]
  | lead :: second :: trail, ⟨announces, trailing⟩, regular =>
      simp only [Irregular, not_or, not_and, Nat.not_lt] at regular
      rcases regular with ⟨least, low, shortThree, scalarThree, shortFour, scalarFour⟩
      have next := trailing second (List.mem_cons_self ..)
      rw [List.length_cons] at announces
      rcases width_cases (by omega) (by omega : lead.toNat < 0xF8) with
        ⟨one, _⟩ | ⟨two, _, high⟩ | ⟨three, first, high⟩ | ⟨four, first⟩
      · omega
      · cases List.length_eq_zero_iff.mp (by omega : trail.length = 0)
        exact .two least high next
      · rcases List.length_eq_one_iff.mp (by omega : trail.length = 1) with ⟨third, rfl⟩
        exact .three first high next (trailing third (by simp)) shortThree scalarThree
      · rcases List.length_eq_two.mp (by omega : trail.length = 2) with ⟨third, fourth, rfl⟩
        exact .four first low next (trailing third (by simp)) (trailing fourth (by simp))
          shortFour scalarFour

theorem Regular.character {bytes : List UInt8} (regular : Regular bytes) : Character bytes := by
  cases regular with
  | one low => exact character_one low
  | two least low next => exact character_two least low next
  | three least low next last short scalar =>
      exact character_three least low next last short scalar
  | four least low next after last short scalar =>
      exact character_four least low next after last short scalar

/-- The grammar takes exactly the shaped characters that are not irregular. -/
theorem character_iff_shaped {bytes : List UInt8} :
    Character bytes <-> Shaped bytes ∧ ¬ Irregular bytes :=
  ⟨fun character => ⟨character.shaped, character.regular⟩,
    fun ⟨shaped, regular⟩ => (regular_of_shaped shaped regular).character⟩

/-! ## Scalar values -/

theorem ofNat_eq (byte : UInt8) {value : Nat} (same : value = byte.toNat) : UInt8.ofNat value = byte := by
  rw [same, UInt8.ofNat_toNat]

theorem exists_scalar (value : Nat) (valid : value.isValidChar) :
    Exists fun scalar : Char => scalar.val.toNat = value :=
  ⟨Char.ofNatAux value valid, rfl⟩

/-- The encoding of a scalar value is a character. -/
theorem encode_character (scalar : Char) : Character (String.utf8EncodeChar scalar) := by
  have valid := scalar.valid
  simp only [UInt32.isValidChar, Nat.isValidChar] at valid
  fun_cases String.utf8EncodeChar scalar with
  | case1 v one =>
      apply character_one
      rw [UInt8.toNat_ofNat']
      omega
  | case2 v one two =>
      apply character_two
      all_goals simp only [Trailing, Within, UInt8.toNat_ofNat']; omega
  | case3 v one two three =>
      apply character_three
      all_goals simp only [Trailing, Within, UInt8.toNat_ofNat']; omega
  | case4 v one two three =>
      apply character_four
      all_goals simp only [Trailing, Within, UInt8.toNat_ofNat']; omega

/-- A character is the encoding of the value its bytes hold. -/
theorem Regular.encode {bytes : List UInt8} (regular : Regular bytes) :
    Exists fun scalar : Char => String.utf8EncodeChar scalar = bytes := by
  cases regular with
  | @one lead low =>
      rcases exists_scalar lead.toNat (Or.inl (by omega)) with ⟨scalar, value⟩
      refine ⟨scalar, ?_⟩
      simp only [String.utf8EncodeChar, value]
      rw [if_pos (by omega), UInt8.ofNat_toNat]
  | @two lead second least low next =>
      simp only [Trailing, Within] at next
      rcases exists_scalar ((lead.toNat - 0xC0) * 64 + (second.toNat - 0x80))
        (Or.inl (by omega)) with ⟨scalar, value⟩
      refine ⟨scalar, ?_⟩
      simp only [String.utf8EncodeChar, value]
      rw [if_neg (by omega), if_pos (by omega), ofNat_eq lead (by omega),
        ofNat_eq second (by omega)]
  | @three lead second third least low next last short scalarValue =>
      simp only [Trailing, Within] at next last
      rcases exists_scalar ((lead.toNat - 0xE0) * 4096 + (second.toNat - 0x80) * 64 +
          (third.toNat - 0x80)) (by simp only [Nat.isValidChar]; omega) with ⟨scalar, value⟩
      refine ⟨scalar, ?_⟩
      simp only [String.utf8EncodeChar, value]
      rw [if_neg (by omega), if_neg (by omega), if_pos (by omega), ofNat_eq lead (by omega),
        ofNat_eq second (by omega), ofNat_eq third (by omega)]
  | @four lead second third fourth least low next after last short scalarValue =>
      simp only [Trailing, Within] at next after last
      rcases exists_scalar ((lead.toNat - 0xF0) * 262144 + (second.toNat - 0x80) * 4096 +
          (third.toNat - 0x80) * 64 + (fourth.toNat - 0x80))
          (by simp only [Nat.isValidChar]; omega) with ⟨scalar, value⟩
      refine ⟨scalar, ?_⟩
      simp only [String.utf8EncodeChar, value]
      rw [if_neg (by omega), if_neg (by omega), if_neg (by omega), ofNat_eq lead (by omega),
        ofNat_eq second (by omega), ofNat_eq third (by omega),
        ofNat_eq fourth (by omega)]

/-- The characters of the grammar are the encodings of the scalar values. -/
theorem character_iff {bytes : List UInt8} :
    Character bytes <-> Exists fun scalar : Char => String.utf8EncodeChar scalar = bytes := by
  refine ⟨?_, fun ⟨scalar, same⟩ => same ▸ encode_character scalar⟩
  intro character
  exact (regular_of_shaped character.shaped character.regular).encode

/-- Well-formed text is the encoding of a sequence of scalar values. -/
theorem wellFormed_iff {text : List UInt8} :
    WellFormed text <-> Exists fun scalars : List Char => scalars.flatMap String.utf8EncodeChar = text := by
  constructor
  · rintro ⟨characters, each, rfl⟩
    induction characters with
    | nil => exact ⟨[], rfl⟩
    | cons bytes characters inductionHypothesis =>
        rcases character_iff.mp (each bytes (List.mem_cons_self ..)) with ⟨scalar, same⟩
        rcases inductionHypothesis fun other member => each other (List.mem_cons_of_mem _ member) with
          ⟨scalars, later⟩
        refine ⟨scalar :: scalars, ?_⟩
        rw [List.flatMap_cons, List.flatten_cons, same, later]
  · rintro ⟨scalars, rfl⟩
    refine ⟨scalars.map String.utf8EncodeChar, ?_, rfl⟩
    intro bytes member
    rcases List.mem_map.mp member with ⟨scalar, _, rfl⟩
    exact encode_character scalar

/-! ## Cutting a text -/

/-- Two shaped characters at the start of one text are the same. -/
theorem shaped_append_inj {first second firstRest secondRest : List UInt8} (left : Shaped first)
    (right : Shaped second) (same : first ++ firstRest = second ++ secondRest) :
    first = second ∧ firstRest = secondRest := by
  apply List.append_inj same
  match first, second, left, right with
  | lead :: trail, other :: others, ⟨leftWidth, _⟩, ⟨rightWidth, _⟩ =>
      rw [List.cons_append, List.cons_append] at same
      cases List.head_eq_of_cons_eq same
      rw [List.length_cons, List.length_cons, ← leftWidth, ← rightWidth]

/-- A text is cut into shaped characters in one way. -/
theorem shaped_unique {first second : List (List UInt8)}
    (left : forall bytes, bytes ∈ first -> Shaped bytes)
    (right : forall bytes, bytes ∈ second -> Shaped bytes)
    (same : first.flatten = second.flatten) : first = second := by
  have nonempty : forall {bytes : List UInt8}, Shaped bytes -> bytes ≠ [] := by
    rintro _ shaped rfl
    exact shaped
  induction first generalizing second with
  | nil =>
      cases second with
      | nil => rfl
      | cons other others =>
          have empty := List.append_eq_nil_iff.mp same.symm
          exact absurd empty.1 (nonempty (right other (List.mem_cons_self ..)))
  | cons bytes rest inductionHypothesis =>
      cases second with
      | nil =>
          have empty := List.append_eq_nil_iff.mp same
          exact absurd empty.1 (nonempty (left bytes (List.mem_cons_self ..)))
      | cons other others =>
          rw [List.flatten_cons, List.flatten_cons] at same
          rcases shaped_append_inj (left bytes (List.mem_cons_self ..))
            (right other (List.mem_cons_self ..)) same with ⟨rfl, later⟩
          rw [inductionHypothesis (fun bytes member => left bytes (List.mem_cons_of_mem _ member))
            (fun bytes member => right bytes (List.mem_cons_of_mem _ member)) later]

/-- A sequence of shaped characters with an irregular one among them. -/
def HasIrregular (text : List UInt8) : Prop :=
  Exists fun characters : List (List UInt8) =>
    (forall bytes, bytes ∈ characters -> Shaped bytes) ∧ characters.flatten = text ∧
      Exists fun bytes => bytes ∈ characters ∧ Irregular bytes

theorem HasIrregular.shaped {text : List UInt8} (irregular : HasIrregular text) :
    Sequence Shaped text := by
  rcases irregular with ⟨characters, each, same, _⟩
  exact ⟨characters, each, same⟩

/-- An irregular character starts with a byte that is not ASCII. -/
theorem HasIrregular.nonAscii {text : List UInt8} (irregular : HasIrregular text) :
    Exists fun byte => byte ∈ text ∧ NonAscii byte := by
  rcases irregular with ⟨characters, each, rfl, bytes, member, refused⟩
  match bytes, each bytes member, refused with
  | lead :: second :: trail, ⟨announces, _⟩, _ =>
      refine ⟨lead, List.mem_flatten.mpr ⟨_, member, List.mem_cons_self ..⟩, ?_⟩
      rw [List.length_cons] at announces
      grind [width, NonAscii]

theorem WellFormed.shaped {text : List UInt8} (wellFormed : WellFormed text) :
    Sequence Shaped text := by
  rcases wellFormed with ⟨characters, each, same⟩
  exact ⟨characters, fun bytes member => (each bytes member).shaped, same⟩

/-- A text is well formed exactly when it is a sequence of shaped characters
none of which is irregular. -/
theorem wellFormed_iff_shaped {text : List UInt8} :
    WellFormed text <-> Sequence Shaped text ∧ ¬ HasIrregular text := by
  constructor
  · intro wellFormed
    refine ⟨wellFormed.shaped, ?_⟩
    rintro ⟨others, shaped, same, bytes, member, irregular⟩
    rcases wellFormed with ⟨characters, each, cut⟩
    have one := shaped_unique (fun bytes member => (each bytes member).shaped) shaped
      (cut.trans same.symm)
    exact (each bytes (one ▸ member)).regular irregular
  · rintro ⟨⟨characters, shaped, same⟩, regular⟩
    refine ⟨characters, ?_, same⟩
    intro bytes member
    apply character_iff_shaped.mpr
    exact ⟨shaped bytes member, fun irregular => regular ⟨characters, shaped, same, bytes, member, irregular⟩⟩

end Utf8
end ServerTech
