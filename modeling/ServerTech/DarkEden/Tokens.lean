import Mathlib.Algebra.Ring.Nat
import Mathlib.Algebra.Ring.Int.Defs
import Mathlib.Data.List.Basic

namespace ServerTech
namespace DarkEden

/-!
# Tokenisers

`Util.cpp` splits strings in seven ways.  Four functions search for the next
delimiter with `find_first_of` and keep their positions in variables of type
`int`, three collect characters one by one.  They differ in what they do with
empty tokens and with the end of the string, and some of them convert the
tokens to numbers.

A position of type `size_t` is cut to 32 bits where it is stored, so the result
`npos` of a failed search becomes -1.
-/

/-! ## Strings -/

/-- `string::npos`. -/
def npos : Nat := 2 ^ 64 - 1

/-- A `size_t` stored in an `int`. -/
def toInt (position : Nat) : Int :=
  (BitVec.ofNat 32 position).toInt

/-- An `int` passed as a `size_t`. -/
def toSize (position : Int) : Nat :=
  (BitVec.ofInt 64 position).toNat

/-- The first position from `pos` on with a byte of the given kind. -/
def find (kind : UInt8 -> Bool) (src : List UInt8) (pos : Nat) : Nat :=
  match (src.drop pos).findIdx? kind with
  | some offset => pos + offset
  | none => npos

/-- The bytes of the delimiter set. -/
def isDelimiter (delim : List UInt8) (byte : UInt8) : Bool :=
  delim.contains byte

def findFirstOf (src delim : List UInt8) (pos : Nat) : Nat :=
  find (isDelimiter delim) src pos

def findFirstNotOf (src delim : List UInt8) (pos : Nat) : Nat :=
  find (fun byte => !isDelimiter delim byte) src pos

/-- `substr(pos)`, which throws behind the end. -/
def substr (src : List UInt8) (pos : Nat) : Option (List UInt8) :=
  if pos ≤ src.length then some (src.drop pos) else none

/-- `substr(pos, count)`. -/
def substrCount (src : List UInt8) (pos count : Nat) : Option (List UInt8) :=
  (substr src pos).map (List.take count)

/-- `isspace` of the C locale. -/
def isspace (byte : UInt8) : Bool :=
  byte == 32 || decide (9 ≤ byte ∧ byte ≤ 13)

/-- The value of a run of digits. -/
def decimalValue (digits : List UInt8) : Nat :=
  digits.foldl (fun value digit => value * 10 + (digit.toNat - 48)) 0

/-- `strtoul(text, NULL, 10)`, with 32 bits in an `unsigned long`.  A value that
is too large gives the largest one, and a minus sign negates what fits. -/
def strtoul (text : List UInt8) : UInt32 :=
  let trimmed := (text.takeWhile (· != 0)).dropWhile isspace
  let negative := trimmed.head? == some 45
  let unsigned := if negative || trimmed.head? == some 43 then trimmed.drop 1 else trimmed
  let value := decimalValue (unsigned.takeWhile fun byte => decide (48 ≤ byte ∧ byte ≤ 57))
  if 2 ^ 32 ≤ value then 0xFFFFFFFF
  else if negative then 0 - UInt32.ofNat value else UInt32.ofNat value

/-! ## Searching for delimiters -/

/-- The loop of `split`.  Each round consumes a byte, so the rounds are bounded
by the length of the string. -/
def splitLoop (src delim : List UInt8) : Nat -> Int -> List (List UInt8) ->
    Option (List (List UInt8))
  | 0, _, _ => none
  | rounds + 1, pos1, dest =>
      let pos2 := toInt (findFirstOf src delim (toSize pos1))
      if pos2 = -1 then (substr src (toSize pos1)).map fun token => dest ++ [token]
      else
        (substrCount src (toSize pos1) (toSize (pos2 - pos1))).bind fun token =>
          splitLoop src delim rounds (pos2 + 1) (dest ++ [token])

/-- `split` into strings. -/
def split (src delim : List UInt8) : Option (List (List UInt8)) :=
  splitLoop src delim (src.length + 1) 0 []

/-- The loop of `split` into numbers, which ends before the end of the string
and passes over empty tokens. -/
def splitNumbersLoop (src delim : List UInt8) (len : Int) : Nat -> Int -> List UInt32 ->
    Option (List UInt32)
  | 0, _, _ => none
  | rounds + 1, pos1, dest =>
      if pos1 < len then
        let pos2 := toInt (findFirstOf src delim (toSize pos1))
        if pos2 = -1 then (substr src (toSize pos1)).map fun token => dest ++ [strtoul token]
        else if pos1 < pos2 then
          (substrCount src (toSize pos1) (toSize (pos2 - pos1))).bind fun token =>
            splitNumbersLoop src delim len rounds (pos2 + 1) (dest ++ [strtoul token])
        else splitNumbersLoop src delim len rounds (pos2 + 1) dest
      else some dest

/-- `split` into numbers. -/
def splitNumbers (src delim : List UInt8) : Option (List UInt32) :=
  splitNumbersLoop src delim (toInt src.length) (src.length + 1) 0 []

section

variable {β : Type} (value : List UInt8 -> β)

/-- The loop of both `split_ign`. -/
def splitIgnLoop (src delim : List UInt8) : Nat -> Int -> List β -> Option (List β)
  | 0, _, _ => none
  | rounds + 1, pos2, dest =>
      let pos1 := toInt (findFirstNotOf src delim (toSize pos2))
      if pos1 = -1 then some dest
      else
        let pos2 := toInt (findFirstOf src delim (toSize pos1))
        if pos2 = -1 then (substr src (toSize pos1)).map fun token => dest ++ [value token]
        else
          (substrCount src (toSize pos1) (toSize (pos2 - pos1))).bind fun token =>
            splitIgnLoop src delim rounds pos2 (dest ++ [value token])

end

/-- `split_ign` into strings. -/
def splitIgn (src delim : List UInt8) : Option (List (List UInt8)) :=
  splitIgnLoop id src delim (src.length + 1) 0 []

/-- `split_ign` into numbers. -/
def splitIgnNumbers (src delim : List UInt8) : Option (List UInt32) :=
  splitIgnLoop strtoul src delim (src.length + 1) 0 []

/-! ## Collecting characters -/

section

variable {β : Type} (push last : List UInt8 -> List β)

/-- The loop of the three `StrSplit` functions: what a separator pushes, and
what the end of the string pushes. -/
def strSplitLoop (sep : List UInt8) : List UInt8 -> List UInt8 -> List β
  | [], s => last s
  | byte :: src, s =>
      if isDelimiter sep byte then push s ++ strSplitLoop sep src []
      else strSplitLoop sep src (s ++ [byte])

end

/-- A string that is not empty. -/
def pushNonempty (s : List UInt8) : List (List UInt8) :=
  if s.length ≠ 0 then [s] else []

def strSplit (src sep : List UInt8) : List (List UInt8) :=
  strSplitLoop pushNonempty pushNonempty sep src []

/-- Empty strings are pushed too, except at the end. -/
def strSplitEx (src sep : List UInt8) : List (List UInt8) :=
  strSplitLoop (fun s => if s.length ≠ 0 then [s] else [[]]) pushNonempty sep src []

def strSplitToInt (src sep : List UInt8) : List UInt32 :=
  strSplitLoop (fun s => (pushNonempty s).map strtoul) (fun s => (pushNonempty s).map strtoul)
    sep src []

/-! ## What a search finds -/

theorem toInt_of_lt {position : Nat} (small : position < 2 ^ 31) : toInt position = position := by
  rw [toInt, BitVec.toInt_eq_toNat_of_lt, BitVec.toNat_ofNat, Nat.mod_eq_of_lt (by omega)]
  rw [BitVec.toNat_ofNat, Nat.mod_eq_of_lt (by omega)]
  omega

theorem toInt_of_le {position : Nat} (large : 2 ^ 31 ≤ position) (small : position < 2 ^ 32) :
    toInt position = (position : Int) - 2 ^ 32 := by
  rw [toInt, BitVec.toInt_eq_toNat_cond, BitVec.toNat_ofNat, Nat.mod_eq_of_lt small,
    if_neg (by omega)]
  rfl

/-- An `int` that is not negative, taken for an `unsigned int`. -/
theorem toNat_ofInt {number : Int} (nonneg : 0 ≤ number) (small : number < 2 ^ 32) :
    (UInt32.ofInt number).toNat = number.toNat := by
  rw [UInt32.ofInt, Int.emod_eq_of_lt nonneg small]
  exact UInt32.toNat_ofNat_of_lt' ((Int.toNat_lt nonneg).mpr small)

theorem toInt_npos : toInt npos = -1 := by
  decide

theorem toSize_natCast {position : Nat} (small : position < 2 ^ 31) :
    toSize (position : Int) = position := by
  rw [toSize, BitVec.ofInt_natCast, BitVec.toNat_ofNat, Nat.mod_eq_of_lt (by omega)]

/-- A search finds no byte of the kind, or the first one with its position. -/
theorem find_cases (kind : UInt8 -> Bool) {src : List UInt8} (short : src.length < 2 ^ 31)
    (pos : Nat) :
    (toInt (find kind src pos) = -1 ∧ forall byte, byte ∈ src.drop pos -> kind byte = false) ∨
    Exists fun piece => Exists fun byte => Exists fun rest =>
      src.drop pos = piece ++ byte :: rest ∧ (forall other, other ∈ piece -> kind other = false) ∧
      kind byte = true ∧ toInt (find kind src pos) = ((pos + piece.length : Nat) : Int) := by
  unfold find
  cases found : (src.drop pos).findIdx? kind with
  | none => exact .inl ⟨toInt_npos, List.findIdx?_eq_none_iff.mp found⟩
  | some offset =>
      rcases List.findIdx?_eq_some_iff_getElem.mp found with ⟨inside, hit, before⟩
      refine .inr ⟨(src.drop pos).take offset, (src.drop pos)[offset],
        (src.drop pos).drop (offset + 1), ?_, ?_, hit, ?_⟩
      · rw [List.getElem_cons_drop, List.take_append_drop]
      · intro other member
        rcases List.mem_iff_getElem.mp member with ⟨index, bound, rfl⟩
        rw [List.length_take] at bound
        rw [List.getElem_take]
        exact Bool.eq_false_iff.mpr (before index (by omega))
      · rw [List.length_drop] at inside
        rw [List.length_take, List.length_drop, Nat.min_eq_left (by omega)]
        change toInt (pos + offset) = _
        exact toInt_of_lt (by omega)

/-- The string behind a piece and the byte after it. -/
theorem drop_behind {src piece rest : List UInt8} {pos : Nat} {byte : UInt8}
    (split : src.drop pos = piece ++ byte :: rest) :
    src.drop (pos + piece.length) = byte :: rest ∧ src.drop (pos + piece.length + 1) = rest := by
  have behind : src.drop (pos + piece.length) = byte :: rest := by
    rw [← List.drop_drop, split, List.drop_left]
  refine ⟨behind, ?_⟩
  rw [← List.drop_drop, behind]
  rfl

theorem length_behind {src piece rest : List UInt8} {pos : Nat} {byte : UInt8}
    (split : src.drop pos = piece ++ byte :: rest) :
    pos + piece.length + 1 + rest.length = src.length := by
  have lengths := congrArg List.length split
  rw [List.length_drop, List.length_append, List.length_cons] at lengths
  omega

/-- The piece between two positions. -/
theorem substrCount_piece {src piece rest : List UInt8} {pos : Nat} {byte : UInt8}
    (short : src.length < 2 ^ 31) (split : src.drop pos = piece ++ byte :: rest) :
    substrCount src (toSize (pos : Int)) (toSize (((pos + piece.length : Nat) : Int) - (pos : Int))) =
      some piece := by
  have total := length_behind split
  have distance : ((pos + piece.length : Nat) : Int) - (pos : Int) = (piece.length : Int) := by omega
  rw [distance, toSize_natCast (by omega), toSize_natCast (by omega), substrCount, substr,
    if_pos (by omega), Option.map_some, split, List.take_left]

/-! ## Tokens -/

/-- The tokens of a string, the empty ones among them. -/
noncomputable def tokens (src delim : List UInt8) : List (List UInt8) :=
  src.splitOnP (isDelimiter delim)

/-- The tokens that are not empty. -/
noncomputable def fields (src delim : List UInt8) : List (List UInt8) :=
  (tokens src delim).filter fun token => !token.isEmpty

section

variable {delim piece rest : List UInt8} {byte : UInt8}

theorem tokens_of_none (src : List UInt8)
    (none : forall byte, byte ∈ src -> isDelimiter delim byte = false) :
    tokens src delim = [src] :=
  List.splitOnP_eq_singleton none

theorem tokens_of_first (clear : forall other, other ∈ piece -> isDelimiter delim other = false)
    (hit : isDelimiter delim byte = true) :
    tokens (piece ++ byte :: rest) delim = piece :: tokens rest delim :=
  List.splitOnP_append_cons_of_forall_mem clear byte hit rest

theorem fields_of_first (clear : forall other, other ∈ piece -> isDelimiter delim other = false)
    (hit : isDelimiter delim byte = true) :
    fields (piece ++ byte :: rest) delim =
      (if piece.isEmpty then [] else [piece]) ++ fields rest delim := by
  rw [fields, tokens_of_first clear hit, List.filter_cons]
  cases piece with
  | nil => rfl
  | cons first piece => rfl

theorem fields_of_none {src : List UInt8}
    (none : forall byte, byte ∈ src -> isDelimiter delim byte = false) (nonempty : src ≠ []) :
    fields src delim = [src] := by
  rw [fields, tokens_of_none src none]
  cases src with
  | nil => exact absurd rfl nonempty
  | cons first src => rfl

/-- Delimiters at the front belong to no field. -/
theorem fields_skip (all : forall other, other ∈ piece -> isDelimiter delim other = true)
    (rest : List UInt8) : fields (piece ++ rest) delim = fields rest delim := by
  induction piece with
  | nil => rfl
  | cons first piece inductionHypothesis =>
      have skipped := @fields_of_first delim [] (piece ++ rest) first
        (fun other member => absurd member List.not_mem_nil) (all first (List.mem_cons_self ..))
      rw [List.nil_append] at skipped
      rw [List.cons_append, skipped]
      exact inductionHypothesis fun other member => all other (List.mem_cons_of_mem _ member)

end

theorem splitLoop_eq {src : List UInt8} (delim : List UInt8) (short : src.length < 2 ^ 31)
    (rounds pos : Nat) (dest : List (List UInt8)) (inside : pos ≤ src.length)
    (enough : src.length < pos + rounds) :
    splitLoop src delim rounds (pos : Int) dest = some (dest ++ tokens (src.drop pos) delim) := by
  induction rounds generalizing pos dest with
  | zero => omega
  | succ rounds inductionHypothesis =>
      simp only [splitLoop, findFirstOf, toSize_natCast (Nat.lt_of_le_of_lt inside short)]
      rcases find_cases (isDelimiter delim) short pos with
        ⟨missing, none⟩ | ⟨piece, byte, rest, split, clear, hit, position⟩
      · rw [if_pos missing, tokens_of_none _ none, substr, if_pos inside]
        rfl
      · have total := length_behind split
        have found : ((pos + piece.length : Nat) : Int) ≠ -1 := by omega
        have token := substrCount_piece short split
        have next : ((pos + piece.length : Nat) : Int) + 1 =
            ((pos + piece.length + 1 : Nat) : Int) := by omega
        rw [toSize_natCast (Nat.lt_of_le_of_lt inside short)] at token
        rw [position, if_neg found, token, Option.bind_some, next,
          inductionHypothesis (pos + piece.length + 1) (dest ++ [piece]) (by omega) (by omega),
          (drop_behind split).2, split, tokens_of_first clear hit, List.append_assoc]
        rfl

theorem splitNumbersLoop_eq {src : List UInt8} (delim : List UInt8) (short : src.length < 2 ^ 31)
    (rounds pos : Nat) (dest : List UInt32) (inside : pos ≤ src.length)
    (enough : src.length < pos + rounds) :
    splitNumbersLoop src delim (toInt src.length) rounds (pos : Int) dest =
      some (dest ++ (fields (src.drop pos) delim).map strtoul) := by
  induction rounds generalizing pos dest with
  | zero => omega
  | succ rounds inductionHypothesis =>
      simp only [splitNumbersLoop, findFirstOf, toSize_natCast (Nat.lt_of_le_of_lt inside short),
        toInt_of_lt short]
      by_cases more : (pos : Int) < (src.length : Int)
      · rw [if_pos more]
        rcases find_cases (isDelimiter delim) short pos with
          ⟨missing, none⟩ | ⟨piece, byte, rest, split, clear, hit, position⟩
        · have nonempty : src.drop pos ≠ [] := by
            intro empty
            have lengths := congrArg List.length empty
            rw [List.length_drop, List.length_nil] at lengths
            omega
          rw [if_pos missing, fields_of_none none nonempty, substr, if_pos inside]
          rfl
        · have total := length_behind split
          have found : ((pos + piece.length : Nat) : Int) ≠ -1 := by omega
          have token := substrCount_piece short split
          have next : ((pos + piece.length : Nat) : Int) + 1 =
              ((pos + piece.length + 1 : Nat) : Int) := by omega
          have later := fun dest => inductionHypothesis (pos + piece.length + 1) dest (by omega)
            (by omega)
          rw [toSize_natCast (Nat.lt_of_le_of_lt inside short)] at token
          rw [toInt_of_lt short] at later
          rw [position, if_neg found, next, split, fields_of_first clear hit]
          cases piece with
          | nil =>
              rw [if_neg (by simp), later, (drop_behind split).2]
              rfl
          | cons first piece =>
              rw [if_pos (by simp only [List.length_cons]; omega), token, Option.bind_some, later,
                (drop_behind split).2, List.append_assoc]
              rfl
      · have ended : src.drop pos = [] := List.drop_eq_nil_of_le (by omega)
        rw [if_neg more, ended]
        exact congrArg some (List.append_nil dest).symm

section

variable {β : Type} (value : List UInt8 -> β)

theorem splitIgnLoop_eq {src : List UInt8} (delim : List UInt8) (short : src.length < 2 ^ 31)
    (rounds pos : Nat) (dest : List β) (inside : pos ≤ src.length)
    (enough : src.length < pos + rounds) :
    splitIgnLoop value src delim rounds (pos : Int) dest =
      some (dest ++ (fields (src.drop pos) delim).map value) := by
  induction rounds generalizing pos dest with
  | zero => omega
  | succ rounds inductionHypothesis =>
      simp only [splitIgnLoop, findFirstOf, findFirstNotOf,
        toSize_natCast (Nat.lt_of_le_of_lt inside short)]
      rcases find_cases (fun byte => !isDelimiter delim byte) short pos with
        ⟨missing, none⟩ | ⟨skipped, byte, rest, split, all, hit, position⟩
      · have ended := @fields_skip delim (src.drop pos)
          (fun other member => by simpa using none other member) []
        rw [List.append_nil] at ended
        rw [if_pos missing, ended]
        exact congrArg some (List.append_nil dest).symm
      · have total := length_behind split
        have found : ((pos + skipped.length : Nat) : Int) ≠ -1 := by omega
        have start := (drop_behind split).1
        have remaining : fields (src.drop pos) delim = fields (byte :: rest) delim := by
          rw [split]
          exact fields_skip (fun other member => by simpa using all other member) _
        rw [position, if_neg found, toSize_natCast (by omega), remaining, ← start]
        rcases find_cases (isDelimiter delim) short (pos + skipped.length) with
          ⟨missing, none⟩ | ⟨token, stop, behind, tokenSplit, clear, stopHit, tokenPosition⟩
        · have nonempty : src.drop (pos + skipped.length) ≠ [] := by
            rw [start]
            exact List.cons_ne_nil _ _
          rw [if_pos missing, fields_of_none none nonempty, substr, if_pos (by omega)]
          rfl
        · have tokenTotal := length_behind tokenSplit
          have tokenFound : ((pos + skipped.length + token.length : Nat) : Int) ≠ -1 := by omega
          have piece := substrCount_piece short tokenSplit
          have consumed : token ≠ [] := by
            rintro rfl
            rw [start, List.nil_append] at tokenSplit
            have same : byte = stop := (List.cons.inj tokenSplit).1
            simp [same, stopHit] at hit
          have longer : 0 < token.length := List.length_pos_iff.mpr consumed
          rw [toSize_natCast (by omega)] at piece
          rw [tokenPosition, if_neg tokenFound, piece, Option.bind_some,
            inductionHypothesis _ (dest ++ [value token]) (by omega) (by omega),
            (drop_behind tokenSplit).1, tokenSplit, fields_of_first clear stopHit,
            if_neg (by simpa using consumed), List.append_assoc]
          have behindStop := @fields_of_first delim [] behind stop
            (fun other member => absurd member List.not_mem_nil) stopHit
          rw [List.nil_append] at behindStop
          rw [behindStop]
          rfl

end

section

variable {β : Type} (push last : List UInt8 -> List β)

/-- The collected characters are the token in progress: the loop pushes the
tokens of what it has collected and has not read yet. -/
theorem strSplitLoop_eq {sep : List UInt8} (src s : List UInt8)
    (clear : forall byte, byte ∈ s -> isDelimiter sep byte = false)
    {init : List (List UInt8)} {final : List UInt8}
    (split : tokens (s ++ src) sep = init ++ [final]) :
    strSplitLoop push last sep src s = init.flatMap push ++ last final := by
  induction src generalizing s init with
  | nil =>
      rw [List.append_nil, tokens_of_none s clear] at split
      rcases List.append_eq_singleton_iff.mp split.symm with ⟨rfl, single⟩ | ⟨-, absurdity⟩
      · rw [(List.cons.inj single).1]
        rfl
      · exact absurd absurdity (List.cons_ne_nil _ _)
  | cons byte src inductionHypothesis =>
      rw [strSplitLoop]
      by_cases hit : isDelimiter sep byte = true
      · rw [if_pos hit]
        rw [tokens_of_first clear hit] at split
        cases init with
        | nil =>
            have ended : tokens src sep = [] := (List.cons.inj split).2
            exact absurd ended (List.splitOnP_ne_nil _ _)
        | cons first init =>
            rcases List.cons.inj split with ⟨rfl, later⟩
            rw [inductionHypothesis [] (fun other member => absurd member List.not_mem_nil) later,
              List.flatMap_cons, List.append_assoc]
      · rw [if_neg hit]
        refine inductionHypothesis (s ++ [byte]) ?_ ?_
        · intro other member
          rcases List.mem_append.mp member with old | new
          · exact clear other old
          · rw [List.mem_singleton.mp new]
            exact Bool.eq_false_iff.mpr hit
        · rw [List.append_assoc]
          exact split

end

theorem tokens_eq_append (src delim : List UInt8) :
    Exists fun init => Exists fun final => tokens src delim = init ++ [final] :=
  ⟨_, _, (List.dropLast_append_getLast (List.splitOnP_ne_nil _ _)).symm⟩

/-- The strings a list of tokens leaves when the empty ones are passed over. -/
theorem flatMap_pushNonempty (list : List (List UInt8)) :
    list.flatMap pushNonempty = list.filter fun token => !token.isEmpty := by
  induction list with
  | nil => rfl
  | cons token list inductionHypothesis =>
      rw [List.flatMap_cons, inductionHypothesis, List.filter_cons]
      cases token with
      | nil => rfl
      | cons first token => rfl

theorem strSplit_eq (src sep : List UInt8) : strSplit src sep = fields src sep := by
  rcases tokens_eq_append src sep with ⟨init, final, split⟩
  have collected := strSplitLoop_eq pushNonempty pushNonempty src []
    (fun other member => absurd member List.not_mem_nil) split
  rw [strSplit, collected, fields, split, ← flatMap_pushNonempty, List.flatMap_append,
    List.flatMap_singleton]

theorem strSplitToInt_eq (src sep : List UInt8) :
    strSplitToInt src sep = (fields src sep).map strtoul := by
  rcases tokens_eq_append src sep with ⟨init, final, split⟩
  have collected := strSplitLoop_eq (fun s => (pushNonempty s).map strtoul)
    (fun s => (pushNonempty s).map strtoul) src []
    (fun other member => absurd member List.not_mem_nil) split
  rw [strSplitToInt, collected, fields, split, ← flatMap_pushNonempty, List.flatMap_append,
    List.flatMap_singleton, List.map_append, List.map_flatMap]

theorem strSplitEx_eq (src sep : List UInt8) :
    strSplitEx src sep =
      if (tokens src sep).getLast? = some [] then (tokens src sep).dropLast else tokens src sep := by
  rcases tokens_eq_append src sep with ⟨init, final, split⟩
  have collected := strSplitLoop_eq (fun s => if s.length ≠ 0 then [s] else [[]]) pushNonempty src []
    (fun other member => absurd member List.not_mem_nil) split
  have every : (fun s : List UInt8 => if s.length ≠ 0 then [s] else [[]]) = fun s => [s] := by
    funext s
    cases s with
    | nil => rfl
    | cons first s => rfl
  rw [strSplitEx, collected, every, split, List.getLast?_concat, List.dropLast_concat,
    List.flatMap_singleton']
  cases final with
  | nil => exact List.append_nil init
  | cons first final => rfl

/-! ## Agreement -/

/-- Each token with the delimiter byte behind it. -/
def interleave (list : List (List UInt8)) (bytes : List UInt8) : List UInt8 :=
  (List.zipWith (· ++ ·) list (bytes.map (fun byte => [byte]) ++ [[]])).flatten

theorem tokens_clear {src delim token : List UInt8} (member : token ∈ tokens src delim) :
    forall byte, byte ∈ token -> isDelimiter delim byte = false := by
  induction src generalizing token with
  | nil =>
      rw [List.mem_singleton.mp member]
      intro byte inEmpty
      exact absurd inEmpty List.not_mem_nil
  | cons first src inductionHypothesis =>
      rw [tokens, List.splitOnP_cons_eq_if_modifyHead] at member
      rcases List.exists_cons_of_ne_nil (List.splitOnP_ne_nil (isDelimiter delim) src) with
        ⟨head, later, split⟩
      have known : forall other, other ∈ head :: later ->
          forall byte, byte ∈ other -> isDelimiter delim byte = false := by
        intro other inTokens
        rw [← split] at inTokens
        exact inductionHypothesis inTokens
      rw [split] at member
      by_cases hit : isDelimiter delim first = true
      · rw [if_pos hit] at member
        rcases List.mem_cons.mp member with rfl | old
        · intro byte inEmpty
          exact absurd inEmpty List.not_mem_nil
        · exact known token old
      · rw [if_neg hit] at member
        rcases List.mem_cons.mp member with rfl | old
        · intro byte inToken
          rcases List.mem_cons.mp inToken with rfl | behind
          · exact Bool.eq_false_iff.mpr hit
          · exact known head (List.mem_cons_self ..) byte behind
        · exact known token (List.mem_cons_of_mem _ old)

theorem length_tokens (src delim : List UInt8) :
    (tokens src delim).length = src.countP (isDelimiter delim) + 1 := by
  induction src with
  | nil => rfl
  | cons first src inductionHypothesis =>
      rw [tokens, List.splitOnP_cons_eq_if_modifyHead, List.countP_cons]
      by_cases hit : isDelimiter delim first = true
      · rw [if_pos hit, if_pos hit, List.length_cons]
        exact congrArg (· + 1) inductionHypothesis
      · rw [if_neg hit, if_neg hit, List.length_modifyHead]
        exact inductionHypothesis

theorem interleave_tokens (src delim : List UInt8) :
    interleave (tokens src delim) (src.filter (isDelimiter delim)) = src :=
  List.splitOnP_spec src

theorem split_eq {src : List UInt8} (delim : List UInt8) (short : src.length < 2 ^ 31) :
    split src delim = some (tokens src delim) :=
  splitLoop_eq delim short (src.length + 1) 0 [] (Nat.zero_le _) (by omega)

/-- The seven tokenisers yield the tokens of `split`, with or without the empty
ones, as strings or as numbers. -/
theorem tokenisers_agree (src delim : List UInt8) (short : src.length < 2 ^ 31) :
    Exists fun list => split src delim = some list ∧
      list.length = src.countP (isDelimiter delim) + 1 ∧
      (forall token, token ∈ list -> forall byte, byte ∈ token -> byte ∉ delim) ∧
      interleave list (src.filter (isDelimiter delim)) = src ∧
      strSplit src delim = list.filter (fun token => !token.isEmpty) ∧
      splitIgn src delim = some (list.filter fun token => !token.isEmpty) ∧
      strSplitEx src delim = (if list.getLast? = some [] then list.dropLast else list) ∧
      strSplitToInt src delim = (list.filter fun token => !token.isEmpty).map strtoul ∧
      splitNumbers src delim = some ((list.filter fun token => !token.isEmpty).map strtoul) ∧
      splitIgnNumbers src delim = some ((list.filter fun token => !token.isEmpty).map strtoul) := by
  refine ⟨tokens src delim, split_eq delim short, length_tokens src delim, ?_,
    interleave_tokens src delim, strSplit_eq src delim, ?_, strSplitEx_eq src delim,
    strSplitToInt_eq src delim, ?_, ?_⟩
  · intro token member byte inToken inDelim
    have clear := tokens_clear member byte inToken
    rw [isDelimiter, List.contains_eq_mem, decide_eq_false_iff_not] at clear
    exact clear inDelim
  · have strings := splitIgnLoop_eq id delim short (src.length + 1) 0 [] (Nat.zero_le _) (by omega)
    rw [List.map_id] at strings
    exact strings
  · exact splitNumbersLoop_eq delim short (src.length + 1) 0 [] (Nat.zero_le _) (by omega)
  · exact splitIgnLoop_eq strtoul delim short (src.length + 1) 0 [] (Nat.zero_le _) (by omega)

/-- The string ",12,,7," with a comma as the delimiter. -/
theorem tokenisers_agree_commas :
    Exists fun list => split [44, 49, 50, 44, 44, 55, 44] [44] = some list ∧
      list = [[], [49, 50], [], [55], []] ∧
      strSplit [44, 49, 50, 44, 44, 55, 44] [44] = [[49, 50], [55]] ∧
      strSplitEx [44, 49, 50, 44, 44, 55, 44] [44] = [[], [49, 50], [], [55]] ∧
      splitNumbers [44, 49, 50, 44, 44, 55, 44] [44] = some [12, 7] := by
  rcases tokenisers_agree [44, 49, 50, 44, 44, 55, 44] [44] (by decide) with
    ⟨list, result, -, -, -, strings, -, ended, -, numbers, -⟩
  have value : list = [[], [49, 50], [], [55], []] := by
    rw [show split [44, 49, 50, 44, 44, 55, 44] [44] = some [[], [49, 50], [], [55], []] by
      decide +kernel] at result
    exact (Option.some.inj result).symm
  subst value
  exact ⟨_, result, rfl, strings, ended, numbers⟩

end DarkEden
end ServerTech
