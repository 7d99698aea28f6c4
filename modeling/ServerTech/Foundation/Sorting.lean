import Mathlib.Data.List.Basic

namespace ServerTech
namespace Sorting

universe u

/-!
# Sorting with a strict weak order

A list sorts another one when it is a permutation of it in which no later
element is less than an earlier one.  With equivalent elements there is more
than one such list; when different elements are always ordered there is only
one.

A partition puts the elements that satisfy a predicate in front of the others
and may arrange both groups in any way, a different one each time it is called.
-/

variable {α : Type u}

/-- Irreflexive, transitive, and with transitive incomparability. -/
structure StrictWeakOrder (less : α -> α -> Bool) : Prop where
  irrefl : forall a, less a a = false
  trans : forall a b c, less a b = true -> less b c = true -> less a c = true
  incomparable : forall a b c, less a b = false -> less b a = false -> less b c = false ->
    less c b = false -> less a c = false ∧ less c a = false

theorem StrictWeakOrder.asymm {less : α -> α -> Bool} (order : StrictWeakOrder less) {a b : α}
    (before : less a b = true) : less b a = false := by
  by_contra after
  have loop := order.trans a b a before (Bool.not_eq_false _ |>.mp after)
  rw [order.irrefl a] at loop
  exact Bool.false_ne_true loop

/-- Different elements are always ordered. -/
def Comparable (less : α -> α -> Bool) : Prop :=
  forall a b, less a b = true ∨ a = b ∨ less b a = true

/-- The output is a permutation of the input in which no later element is less
than an earlier one. -/
structure Sorts (less : α -> α -> Bool) (input output : List α) : Prop where
  perm : output.Perm input
  ordered : output.Pairwise fun earlier later => less later earlier = false

theorem Sorts.nil (less : α -> α -> Bool) : Sorts less [] [] :=
  ⟨.nil, .nil⟩

/-- Two sorted parts around a pivot: the lower part is less than the pivot, and
nothing of the higher part is. -/
theorem Sorts.join {less : α -> α -> Bool} (order : StrictWeakOrder less) {pivot : α}
    {input lower higher newLower newHigher : List α} (parts : (lower ++ higher).Perm input)
    (below : forall value, value ∈ lower -> less value pivot = true)
    (above : forall value, value ∈ higher -> less value pivot = false)
    (lowerSorted : Sorts less lower newLower) (higherSorted : Sorts less higher newHigher) :
    Sorts less (pivot :: input) (newLower ++ ([pivot] ++ newHigher)) where
  perm := by
    have swapped : (newLower ++ ([pivot] ++ newHigher)).Perm (pivot :: (newLower ++ newHigher)) :=
      List.perm_middle
    have sides := lowerSorted.perm.append higherSorted.perm
    exact swapped.trans ((sides.trans parts).cons pivot)
  ordered := by
    have low : forall value, value ∈ newLower -> less value pivot = true :=
      fun value member => below value (lowerSorted.perm.mem_iff.mp member)
    have high : forall value, value ∈ newHigher -> less value pivot = false :=
      fun value member => above value (higherSorted.perm.mem_iff.mp member)
    refine List.pairwise_append.mpr ⟨lowerSorted.ordered, ?_, ?_⟩
    · exact List.pairwise_cons.mpr ⟨high, higherSorted.ordered⟩
    · intro first firstMember second secondMember
      rcases List.mem_cons.mp secondMember with rfl | later
      · exact order.asymm (low first firstMember)
      · by_contra less_
        have under := order.trans second first pivot (Bool.not_eq_false _ |>.mp less_)
          (low first firstMember)
        rw [high second later] at under
        exact Bool.false_ne_true under

/-- Where different elements are always ordered, there is one way to sort. -/
theorem Sorts.unique {less : α -> α -> Bool} (comparable : Comparable less) {input first second : List α}
    (sortsFirst : Sorts less input first) (sortsSecond : Sorts less input second) :
    first = second := by
  refine List.Perm.eq_of_pairwise ?_ sortsFirst.ordered sortsSecond.ordered
    (sortsFirst.perm.trans sortsSecond.perm.symm)
  intro a b _ _ notAfter notBefore
  rcases comparable a b with before | same | after
  · rw [before] at notBefore
    cases notBefore
  · exact same
  · rw [after] at notAfter
    cases notAfter

/-- The behaviour of a partition.  The first argument of `arrange` says which
call it is; the result is the rearranged range and the position behind the
elements that satisfy the predicate. -/
structure Partition (α : Type u) where
  arrange : List Bool -> (α -> Bool) -> List α -> List α × Nat
  perm : forall call satisfies input, (arrange call satisfies input).1.Perm input
  front : forall call satisfies input value,
    value ∈ (arrange call satisfies input).1.take (arrange call satisfies input).2 ->
      satisfies value = true
  back : forall call satisfies input value,
    value ∈ (arrange call satisfies input).1.drop (arrange call satisfies input).2 ->
      satisfies value = false

/-- A partition that keeps the order in both groups. -/
def Partition.stable : Partition α where
  arrange := fun _ satisfies input =>
    (input.filter satisfies ++ input.filter fun value => !satisfies value,
      (input.filter satisfies).length)
  perm := fun _ satisfies input => List.filter_append_perm satisfies input
  front := by
    intro _ satisfies input value member
    rw [List.take_left] at member
    exact (List.mem_filter.mp member).2
  back := by
    intro _ satisfies input value member
    rw [List.drop_left, List.mem_filter, Bool.not_eq_true'] at member
    exact member.2

end Sorting
end ServerTech
