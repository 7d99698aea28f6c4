import ServerTech.Foundation.Sorting

namespace ServerTech
namespace ConcInAction

open Sorting

universe u

/-!
# Four quicksorts

The four functions take the first element as the pivot, call `std::partition`
on the rest, and sort what is less than the pivot and what is not by two calls
of their own.  The versions for lists cut the rest at the point that
`std::partition` returns.  The versions for vectors ignore that point and walk
over the rearranged rest once more, erasing what is less than the pivot.  The
parallel versions leave the lower part to a future.

Lists and vectors are lists.  The calls that sort one range form a tree, and a
call is named by its way down from the root, `true` for the lower part; so
`std::partition` may behave in another way in each of them.
-/

variable {α : Type u}

/-! ## Splitting the rest at the pivot -/

/-- A way to split the rest into what is less than the pivot and what is not. -/
structure Split (less : α -> α -> Bool) where
  parts : List Bool -> α -> List α -> List α × List α
  perm : forall call pivot input,
    ((parts call pivot input).1 ++ (parts call pivot input).2).Perm input
  below : forall call pivot input value, value ∈ (parts call pivot input).1 ->
    less value pivot = true
  above : forall call pivot input value, value ∈ (parts call pivot input).2 ->
    less value pivot = false

theorem Split.length_lower {less : α -> α -> Bool} (split : Split less) (call : List Bool) (pivot : α)
    (input : List α) : (split.parts call pivot input).1.length ≤ input.length := by
  have length := (split.perm call pivot input).length_eq
  rw [List.length_append] at length
  omega

theorem Split.length_higher {less : α -> α -> Bool} (split : Split less) (call : List Bool)
    (pivot : α) (input : List α) : (split.parts call pivot input).2.length ≤ input.length := by
  have length := (split.perm call pivot input).length_eq
  rw [List.length_append] at length
  omega

/-- `std::partition`, and the splice of everything before the point it returns. -/
def Split.splice (less : α -> α -> Bool) (partition : Partition α) : Split less where
  parts := fun call pivot input =>
    let arranged := partition.arrange call (fun value => less value pivot) input
    (arranged.1.take arranged.2, arranged.1.drop arranged.2)
  perm := by
    intro call pivot input
    rw [List.take_append_drop]
    exact partition.perm call _ input
  below := fun call pivot input => partition.front call (fun value => less value pivot) input
  above := fun call pivot input => partition.back call (fun value => less value pivot) input

/-- The loop over the rest.  `it` is the position of the iterator: it stays
where it is when the element there is moved to the lower part and erased. -/
def eraseLower (less : α -> α -> Bool) (pivot : α) (it : Nat) (input lowerPart : List α) :
    List α × List α :=
  if inside : it < input.length then
    if less input[it] pivot then
      eraseLower less pivot it (input.eraseIdx it) (lowerPart ++ [input[it]])
    else eraseLower less pivot (it + 1) input lowerPart
  else (lowerPart, input)
termination_by input.length - it
decreasing_by
  · rw [List.length_eraseIdx_of_lt inside]
    omega
  · omega

/-- The loop moves every element from `it` on that is less than the pivot. -/
theorem eraseLower_eq (less : α -> α -> Bool) (pivot : α) (it : Nat) (input lowerPart : List α) :
    eraseLower less pivot it input lowerPart =
      (lowerPart ++ (input.drop it).filter (fun value => less value pivot),
        input.take it ++ (input.drop it).filter fun value => !less value pivot) := by
  fun_induction eraseLower less pivot it input lowerPart with
  | case1 it input lowerPart inside moved inductionHypothesis =>
      have rest : input.drop it = input[it] :: input.drop (it + 1) := List.drop_eq_getElem_cons inside
      have erased : input.eraseIdx it = input.take it ++ input.drop (it + 1) :=
        List.eraseIdx_eq_take_drop_succ input it
      have length : (input.take it).length = it := List.length_take_of_le (Nat.le_of_lt inside)
      rw [inductionHypothesis, rest, erased, List.drop_left' length, List.take_left' length]
      simp only [List.filter_cons, moved, Bool.not_true, Bool.false_eq_true, if_true, if_false,
        List.append_assoc, List.singleton_append]
  | case2 it input lowerPart inside kept inductionHypothesis =>
      have rest : input.drop it = input[it] :: input.drop (it + 1) := List.drop_eq_getElem_cons inside
      have stays : less input[it] pivot = false := eq_false_of_ne_true kept
      rw [inductionHypothesis, rest, List.take_succ_eq_append_getElem inside]
      simp only [List.filter_cons, stays, Bool.not_false, Bool.false_eq_true, if_true, if_false,
        List.append_assoc, List.singleton_append]
  | case3 it input lowerPart outside =>
      have past : input.length ≤ it := Nat.le_of_not_lt outside
      rw [List.drop_eq_nil_of_le past, List.take_of_length_le past, List.filter_nil, List.filter_nil,
        List.append_nil, List.append_nil]

/-- `std::partition`, and the loop over what it leaves. -/
def Split.erase (less : α -> α -> Bool) (partition : Partition α) : Split less where
  parts := fun call pivot input =>
    let arranged := partition.arrange call (fun value => less value pivot) input
    eraseLower less pivot 0 arranged.1 []
  perm := by
    intro call pivot input
    rw [eraseLower_eq, List.drop_zero, List.take_zero, List.nil_append, List.nil_append]
    exact (List.filter_append_perm _ _).trans (partition.perm call _ input)
  below := by
    intro call pivot input value member
    rw [eraseLower_eq, List.drop_zero, List.nil_append] at member
    exact (List.mem_filter.mp member).2
  above := by
    intro call pivot input value member
    simp only [eraseLower_eq, List.drop_zero, List.take_zero, List.nil_append, List.mem_filter,
      Bool.not_eq_true'] at member
    exact member.2

/-! ## The sorts -/

/-- What `std::async` returns: its task runs in another thread, or when the
result is asked for. -/
structure Future (α : Type u) where
  task : Unit -> α

def async (task : Unit -> α) : Future α :=
  ⟨task⟩

def Future.get (future : Future α) : α :=
  future.task ()

/-- How the call for the lower part is made. -/
inductive Launch where
  | direct
  | async
  deriving DecidableEq, Repr

def Launch.run : Launch -> (Unit -> α) -> α
  | direct, task => task ()
  | async, task => (ConcInAction.async task).get

theorem Launch.run_eq (launch : Launch) (task : Unit -> α) : launch.run task = task () := by
  cases launch <;> rfl

/-- The common body.  The recursion ends because a part is shorter than its
pivot and the rest together, whatever `std::partition` does. -/
def quickSort {less : α -> α -> Bool} (launch : Launch) (split : Split less) (call : List Bool) :
    List α -> List α
  | [] => []
  | pivot :: input =>
      let lowerPart := (split.parts call pivot input).1
      let higherPart := (split.parts call pivot input).2
      let newLower := launch.run fun _ => quickSort launch split (call ++ [true]) lowerPart
      let newHigher := quickSort launch split (call ++ [false]) higherPart
      newLower ++ ([pivot] ++ newHigher)
termination_by input => input.length
decreasing_by
  · exact Nat.lt_succ_of_le (split.length_lower call pivot input)
  · exact Nat.lt_succ_of_le (split.length_higher call pivot input)

/-- `sequential_quick_sort` on lists. -/
def sequentialQuickSort (less : α -> α -> Bool) (partition : Partition α) (input : List α) : List α :=
  quickSort .direct (.splice less partition) [] input

def parallelQuickSort (less : α -> α -> Bool) (partition : Partition α) (input : List α) : List α :=
  quickSort .async (.splice less partition) [] input

/-- `sequential_quick_sort` on vectors. -/
def vsequentialQuickSort (less : α -> α -> Bool) (partition : Partition α) (input : List α) : List α :=
  quickSort .direct (.erase less partition) [] input

def vparallelQuickSort (less : α -> α -> Bool) (partition : Partition α) (input : List α) : List α :=
  quickSort .async (.erase less partition) [] input

/-- Every call sorts its range. -/
theorem quickSort_sorts {less : α -> α -> Bool} (order : StrictWeakOrder less) (launch : Launch)
    (split : Split less) (call : List Bool) (input : List α) :
    Sorts less input (quickSort launch split call input) := by
  fun_induction quickSort launch split call input with
  | case1 => exact Sorts.nil less
  | case2 call pivot input lowerPart higherPart newLower newHigher lowerSorted higherSorted =>
      have lower : Sorts less lowerPart newLower := by
        change Sorts less lowerPart (launch.run _)
        rw [launch.run_eq]
        exact lowerSorted
      exact Sorts.join order (split.perm call pivot input) (split.below call pivot input)
        (split.above call pivot input) lower higherSorted

/-- All four functions sort every input with every strict weak order, whatever
their calls of `std::partition` do within its contract.  Where different values
are always ordered, all four return the same sequence. -/
theorem quickSorts_sort {less : α -> α -> Bool} (order : StrictWeakOrder less)
    (first second third fourth : Partition α) (input : List α) :
    Sorts less input (sequentialQuickSort less first input) ∧
    Sorts less input (parallelQuickSort less second input) ∧
    Sorts less input (vsequentialQuickSort less third input) ∧
    Sorts less input (vparallelQuickSort less fourth input) ∧
    (Comparable less ->
      sequentialQuickSort less first input = parallelQuickSort less second input ∧
      sequentialQuickSort less first input = vsequentialQuickSort less third input ∧
      sequentialQuickSort less first input = vparallelQuickSort less fourth input) := by
  have sequential := quickSort_sorts order .direct (.splice less first) [] input
  have parallel := quickSort_sorts order .async (.splice less second) [] input
  have vsequential := quickSort_sorts order .direct (.erase less third) [] input
  have vparallel := quickSort_sorts order .async (.erase less fourth) [] input
  refine ⟨sequential, parallel, vsequential, vparallel, ?_⟩
  intro comparable
  exact ⟨sequential.unique comparable parallel, sequential.unique comparable vsequential,
    sequential.unique comparable vparallel⟩

theorem natural_order : StrictWeakOrder fun a b : Nat => decide (a < b) where
  irrefl := by
    intro a
    exact decide_eq_false (Nat.lt_irrefl a)
  trans := by
    intro a b c first second
    exact decide_eq_true (Nat.lt_trans (of_decide_eq_true first) (of_decide_eq_true second))
  incomparable := by
    intro a b c
    simp only [decide_eq_false_iff_not]
    omega

/-- Three numbers, the rest of which is partitioned already. -/
theorem quickSorts_sort_three :
    Sorts (fun a b : Nat => decide (a < b)) [2, 1, 3]
      (vparallelQuickSort (fun a b => decide (a < b)) .stable [2, 1, 3]) ∧
    sequentialQuickSort (fun a b : Nat => decide (a < b)) .stable [2, 1, 3] =
      vparallelQuickSort (fun a b => decide (a < b)) .stable [2, 1, 3] := by
  have comparable : Comparable fun a b : Nat => decide (a < b) := by
    intro a b
    simp only [decide_eq_true_eq]
    omega
  rcases quickSorts_sort natural_order .stable .stable .stable .stable [2, 1, 3] with
    ⟨_, _, _, sorts, same⟩
  exact ⟨sorts, (same comparable).2.2⟩

end ConcInAction
end ServerTech
