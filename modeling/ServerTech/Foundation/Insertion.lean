import Mathlib.Data.List.Basic

namespace ServerTech
namespace Insertion

universe u v w

/-!
# Calls that nobody notices

An object answers each operation with a result and becomes a new object.  A
sequence of operations is marked: an operation with the mark `true` has been
inserted into the sequence of the others.  The inserted operations are
invisible when the others are answered as if they had not been inserted.

The rule at the end takes a relation between the objects with and without the
insertions.  It has to be kept by every operation on both sides, with the same
answer, and by an operation of the inserted kind on the first side alone.
-/

variable {State : Type u} {Operation : Type v} {Result : Type w}

/-- The results of a sequence of operations, as long as each of them has one. -/
def results (call : State -> Operation -> Option (Result × State)) :
    State -> List Operation -> Option (List Result)
  | _, [] => some []
  | state, operation :: operations =>
      (call state operation).bind fun (result, after) =>
        (results call after operations).map fun rest => result :: rest

theorem results_cons {call : State -> Operation -> Option (Result × State)} {state after : State}
    {operation : Operation} {result : Result} (called : call state operation = some (result, after))
    (operations : List Operation) :
    results call state (operation :: operations) =
      (results call after operations).map fun rest => result :: rest := by
  rw [results, called]
  rfl

/-- The entries that have not been inserted. -/
def unmarked {Entry : Type v} (entries : List (Bool × Entry)) : List Entry :=
  (entries.filter fun entry => !entry.1).map Prod.snd

theorem unmarked_inserted {Entry : Type v} (entry : Entry) (entries : List (Bool × Entry)) :
    unmarked ((true, entry) :: entries) = unmarked entries :=
  rfl

theorem unmarked_other {Entry : Type v} (entry : Entry) (entries : List (Bool × Entry)) :
    unmarked ((false, entry) :: entries) = entry :: unmarked entries :=
  rfl

/-- Every inserted operation was of the kind that may be inserted. -/
def Silently (silent : Operation -> Result -> Prop) (calls : List (Bool × Operation))
    (answers : List Result) : Prop :=
  forall entry, entry ∈ calls.zip answers -> entry.1.1 = true -> silent entry.1.2 entry.2

theorem Silently.tail {silent : Operation -> Result -> Prop} {call : Bool × Operation}
    {calls : List (Bool × Operation)} {answer : Result} {answers : List Result}
    (silently : Silently silent (call :: calls) (answer :: answers)) :
    Silently silent calls answers :=
  fun entry member => silently entry (List.mem_cons_of_mem _ member)

/-- A relation between the objects with and without inserted operations.  The
operations that are called at all satisfy `ordinary`. -/
structure Invisible (call : State -> Operation -> Option (Result × State))
    (ordinary : Operation -> Prop) (silent : Operation -> Result -> Prop)
    (Alike : State -> State -> Prop) : Prop where
  same : forall left right operation, Alike left right -> ordinary operation ->
    Exists fun result => Exists fun leftAfter => Exists fun rightAfter =>
      call left operation = some (result, leftAfter) ∧
      call right operation = some (result, rightAfter) ∧ Alike leftAfter rightAfter
  skip : forall left right operation result after, Alike left right -> ordinary operation ->
    call left operation = some (result, after) -> silent operation result -> Alike after right

namespace Invisible

variable {call : State -> Operation -> Option (Result × State)} {ordinary : Operation -> Prop}
  {silent : Operation -> Result -> Prop} {Alike : State -> State -> Prop}

/-- Ordinary operations always have their results. -/
theorem answered (invisible : Invisible call ordinary silent Alike) {left right : State}
    (alike : Alike left right) {operations : List Operation}
    (ordinaries : forall operation, operation ∈ operations -> ordinary operation) :
    Exists fun answers => results call left operations = some answers := by
  induction operations generalizing left right with
  | nil => exact ⟨[], rfl⟩
  | cons operation operations inductionHypothesis =>
      rcases invisible.same left right operation alike (ordinaries _ List.mem_cons_self) with
        ⟨result, leftAfter, rightAfter, called, _, alikeAfter⟩
      rcases inductionHypothesis alikeAfter
        (fun other member => ordinaries other (List.mem_cons_of_mem _ member)) with ⟨rest, run⟩
      refine ⟨result :: rest, ?_⟩
      rw [results_cons called, run, Option.map_some]

/-- The operations that were not inserted are answered as without the others. -/
theorem unnoticed (invisible : Invisible call ordinary silent Alike) {left right : State}
    (alike : Alike left right) {calls : List (Bool × Operation)} {answers : List Result}
    (ordinaries : forall entry, entry ∈ calls -> ordinary entry.2)
    (run : results call left (calls.map Prod.snd) = some answers)
    (silently : Silently silent calls answers) :
    results call right (unmarked calls) = some (unmarked ((calls.map Prod.fst).zip answers)) := by
  induction calls generalizing left right answers with
  | nil => rfl
  | cons entry calls inductionHypothesis =>
      rcases entry with ⟨inserted, operation⟩
      have ordinaryFirst : ordinary operation := ordinaries _ List.mem_cons_self
      have ordinaryRest : forall other, other ∈ calls -> ordinary other.2 :=
        fun other member => ordinaries other (List.mem_cons_of_mem _ member)
      rcases invisible.same left right operation alike ordinaryFirst with
        ⟨result, leftAfter, rightAfter, called, calledRight, alikeAfter⟩
      rw [List.map_cons, results_cons called, Option.map_eq_some_iff] at run
      rcases run with ⟨rest, runRest, rfl⟩
      rw [List.map_cons, List.zip_cons_cons]
      cases inserted with
      | true =>
          have quiet : silent operation result := silently _ List.mem_cons_self rfl
          have alikeSkipped := invisible.skip left right operation result leftAfter alike
            ordinaryFirst called quiet
          rw [unmarked_inserted, unmarked_inserted]
          exact inductionHypothesis alikeSkipped ordinaryRest runRest silently.tail
      | false =>
          rw [unmarked_other, unmarked_other, results_cons calledRight,
            inductionHypothesis alikeAfter ordinaryRest runRest silently.tail, Option.map_some]

end Invisible
end Insertion
end ServerTech
