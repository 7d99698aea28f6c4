import Mathlib.Data.List.TakeWhile
import ServerTech.DarkEden.FilePath
import ServerTech.DarkEden.Tokens

namespace ServerTech
namespace DarkEden

/-!
# Directories and their paths

A directory tree holds places, which are lists of names below a root.  A path is
a text for a place: a drive, and names with separators between them.  The text up
to each name is a text for a directory above it.
-/

/-! ## Directory trees -/

/-- A place in the directory trees of the current directory or of a drive, which
has trees below its root and below its own current directory. -/
structure Place where
  drive : Option UInt8
  rooted : Bool
  names : List (List UInt8)
  deriving DecidableEq

def Place.parent (place : Place) : Place :=
  { place with names := place.names.dropLast }

/-- The directories that exist: with each of them its parent. -/
structure Tree where
  has : Place -> Bool
  roots : forall place, place.names = [] -> has place = true
  closed : forall place, has place = true -> has place.parent = true

/-- A new directory in an existing one. -/
def Tree.insert (tree : Tree) (place : Place) (parent : tree.has place.parent = true) : Tree where
  has other := other == place || tree.has other
  roots other root := by rw [tree.roots other root, Bool.or_true]
  closed other held := by
    rcases (Bool.or_eq_true _ _).mp held with same | old
    · rw [beq_iff_eq.mp same, parent, Bool.or_true]
    · rw [tree.closed other old, Bool.or_true]

def separators : List UInt8 :=
  [92, 47]

def isPathDelimiter (path : List UInt8) (index : Int) : Bool :=
  if 0 ≤ index ∧ index < toInt path.length then
    path[index.toNat]?.any fun symbol => symbol == 92 || symbol == 47
  else false

inductive Separator where
  | backslash
  | slash

def Separator.byte : Separator -> UInt8
  | backslash => 92
  | slash => 47

/-- A component of a path. -/
structure Name where
  bytes : List UInt8
  nonempty : bytes ≠ []
  plain : forall byte, byte ∈ bytes -> isSymbol byte = false ∧ byte ≠ 0

/-- A drive prefix with or without a separator behind it. -/
structure Drive where
  letter : UInt8
  alphabetic : 65 ≤ letter ∧ letter ≤ 90 ∨ 97 ≤ letter ∧ letter ≤ 122
  separator : Option Separator

/-- A path of components with single separators between them. -/
structure Path where
  drive : Option Drive
  first : Name
  rest : List (Separator × Name)
  last : Option Separator

/-- What stands for a separator that may be missing. -/
def tail (separator : Option Separator) : List UInt8 :=
  (separator.map Separator.byte).toList

/-- Components with their separators. -/
def join (first : Name) (rest : List (Separator × Name)) : List UInt8 :=
  first.bytes ++ (rest.map fun component => component.1.byte :: component.2.bytes).flatten

namespace Path

/-- The drive prefix. -/
def front (path : Path) : List UInt8 :=
  match path.drive with
  | none => []
  | some drive => drive.letter :: 58 :: tail drive.separator

/-- The text up to a component, which is numbered from zero on. -/
def upTo (path : Path) (i : Nat) : List UInt8 :=
  path.front ++ join path.first (path.rest.take i)

def text (path : Path) : List UInt8 :=
  path.upTo path.rest.length ++ tail path.last

/-- The separator behind a component. -/
def behind (path : Path) (i : Nat) : Option Separator :=
  (path.rest[i]?.map Prod.fst).or path.last

/-- The text up to a component with the separator behind it. -/
def level (path : Path) (i : Nat) : List UInt8 :=
  path.upTo i ++ tail (path.behind i)

/-- The directory that the text up to a component names. -/
def place (path : Path) (i : Nat) : Place where
  drive := path.drive.map Drive.letter
  rooted := path.drive.any fun drive => drive.separator.isSome
  names := path.first.bytes :: (path.rest.take i).map fun component => component.2.bytes

end Path

/-! ## Trailing separators -/

theorem isDelimiter_separators (byte : UInt8) :
    isDelimiter separators byte = (byte == 92 || byte == 47) := by
  simp only [isDelimiter, separators, List.contains_cons, List.contains_nil, Bool.or_false]

/-- `IsPathDelimiter` tells whether a text ends in a separator.  It may be
mistaken when the length of the text does not fit an `int`. -/
def Judged (text : List UInt8) : Prop :=
  isPathDelimiter text (toInt ((text.length + npos) % 2 ^ 64)) =
    text.getLast?.any (isDelimiter separators)

instance (text : List UInt8) : Decidable (Judged text) :=
  inferInstanceAs (Decidable (_ = _))

section

variable {front : List UInt8} {byte : UInt8}

end

/-! ## Texts and places -/

theorem isDelimiter_of_isSymbol {byte : UInt8} (clear : isSymbol byte = false) :
    isDelimiter separators byte = false := by
  rw [isSymbol, Bool.or_eq_false_iff] at clear
  rw [isDelimiter_separators]
  exact clear.1

theorem Separator.isDelimiter (separator : Separator) :
    DarkEden.isDelimiter separators separator.byte = true := by
  cases separator <;> rfl

theorem Separator.isSymbol (separator : Separator) : DarkEden.isSymbol separator.byte = true := by
  cases separator <;> rfl

theorem Name.clear (name : Name) :
    forall byte, byte ∈ name.bytes -> isDelimiter separators byte = false :=
  fun byte member => isDelimiter_of_isSymbol (name.plain byte member).1

section

variable (path : Path) (i : Nat) (last : Option Separator)

/-- What stands between the drive letter and the components. -/
def Path.slash : List UInt8 :=
  tail (path.drive.bind Drive.separator)

end

/-! ## Components -/

section

variable {path : Path}

end

end DarkEden
end ServerTech
