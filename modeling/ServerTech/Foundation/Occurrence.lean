import Mathlib.Data.List.Infix
import Mathlib.Data.List.Nodup

namespace ServerTech

universe u

variable {α : Type u} [DecidableEq α]

/-!
# Occurrences of a list in another

How often a list stands inside another one, with all its elements one behind
the other.  Occurrences may overlap.  Each of them begins with the first element
of the list, so a list without repeated elements holds no list twice.
-/

/-- The number of places of `list` at which `whole` begins.  The empty list has
no occurrences. -/
def occurrences (whole list : List α) : Nat :=
  list.tails.countP fun rest => decide (whole ≠ [] ∧ whole <+: rest)

end ServerTech
