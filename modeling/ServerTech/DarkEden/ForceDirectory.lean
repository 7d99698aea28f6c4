import ServerTech.DarkEden.Directories

namespace ServerTech
namespace DarkEden

/-!
# Missing directories

`ForceDirectory` creates a directory behind its missing parents.  It strips the
separator at the end of a path, takes the directory part for the parent and calls
itself on it, until the directory part is the path again.  The directory part of
a path without a backslash is the whole path, so such a path ends the recursion
whatever is missing above it.
-/

/-! ## The function -/

section

variable {path : Path} (tree : Tree) (depth : Nat) {text : List UInt8}

/-- The text up to a component has a backslash, and it is stripped to it. -/
def Deep (path : Path) (i : Nat) : Prop :=
  92 ∈ path.upTo i ∧ Judged (path.level i)

instance (path : Path) (i : Nat) : Decidable (Deep path i) :=
  inferInstanceAs (Decidable (_ ∧ _))

end

/-! ## The recursion -/

section

variable {path : Path}

/-- For each missing directory in front of a component, the text up to the next
component is deep. -/
def Reached (tree : Tree) (path : Path) (i : Nat) : Prop :=
  forall j, j < i -> tree.has (path.place j) = false -> Deep path (j + 1)

/-- A name without its last byte. -/
def Name.shorter (name : Name) (longer : name.bytes.dropLast ≠ []) : Name where
  bytes := name.bytes.dropLast
  nonempty := longer
  plain byte member := name.plain byte ((List.dropLast_sublist _).subset member)

end

/-! ## The result -/

end DarkEden
end ServerTech
