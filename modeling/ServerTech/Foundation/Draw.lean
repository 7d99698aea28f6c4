import Mathlib.Data.List.Perm.Basic

namespace ServerTech
namespace Draw

universe u

variable {α : Type u}

/-!
# Drawing without replacement

A draw takes an entry from the first entries of a list, brings the last of these
into its place and leaves that one out from then on.  What was drawn and what is
left are together a permutation of what was there.
-/

/-- Exchange the entries at two places. -/
def swap (list : List α) (i j : Nat) : Option (List α) :=
  list[i]?.bind fun first => list[j]?.map fun second => (list.set i second).set j first

/-- The exchange of two places of the list, spelled out. -/
theorem swap_eq {list : List α} {i j : Nat} (first : i < list.length) (second : j < list.length) :
    swap list i j = some ((list.set i list[j]).set j list[i]) := by
  rw [swap, List.getElem?_eq_getElem first, List.getElem?_eq_getElem second]
  rfl

/-- A draw from the first `size + 1` entries leaves the first `size` of the
exchanged list. -/
theorem perm_of_swap {list : List α} {index size : Nat} (drawn : index ≤ size)
    (inside : size < list.length) :
    Exists fun value => Exists fun swapped =>
      list[index]? = some value ∧ swap list index size = some swapped ∧
      swapped.length = list.length ∧
      (value :: swapped.take size).Perm (list.take (size + 1)) := by
  have within : index < list.length := Nat.lt_of_le_of_lt drawn inside
  refine ⟨list[index], _, List.getElem?_eq_getElem within, swap_eq within inside, ?_, ?_⟩
  · rw [List.length_set, List.length_set]
  · have room : size < (list.take (size + 1)).length := by
      rw [List.length_take]
      omega
    have place : index < (list.take (size + 1)).length := Nat.lt_of_le_of_lt drawn room
    have exchanged := List.set_set_perm place room
    rw [List.getElem_take, List.getElem_take, ← List.take_set, ← List.take_set] at exchanged
    have last : size < ((list.set index list[size]).set size list[index]).length := by
      rw [List.length_set, List.length_set]
      exact inside
    rw [List.take_succ_eq_append_getElem last, List.getElem_set_self] at exchanged
    exact (List.perm_append_singleton _ _).symm.trans exchanged

end Draw
end ServerTech
