import Mathlib.Data.List.Forall2

namespace ServerTech
namespace Codec

universe u v w x

/-!
# Writers and readers over one stream

A format without framing is a stream of cells in which nothing marks where a
value ends.  It can be read back only if every reader takes exactly the cells
its writer put, and this is a property of the two alone: neither has to know
what stands before or behind them.

A writer is a function on a sink that may fail, and a reader a function on a
source that may fail.  How cells sit in a sink or a source is a parameter.
`holds sink written` says what has been written so far, and
`cut source before after` says that the reading position lies between `before`
and `after`.  `Produces` and `Consumes` say what one writer puts and one reader
takes.  Each has a rule for a sequence and a rule for a loop.
-/

variable {Sink : Type u} {Source : Type u} {Cell : Type v} {α : Type w} {β : Type w}

/-! ## Writers -/

section Writers

variable (holds : Sink -> List Cell -> Prop) (limit : Nat)

/-- The writer puts these cells behind what the sink holds.  It succeeds
whenever the result stays within the limit. -/
structure Produces (writer : Sink -> Option Sink) (cells : List Cell) : Prop where
  puts : forall sink written after, holds sink written -> writer sink = some after ->
    holds after (written ++ cells)
  succeeds : forall sink written, holds sink written -> written.length + cells.length ≤ limit ->
    Exists fun after => writer sink = some after

/-- Write every value of a list. -/
def each (writer : α -> Sink -> Option Sink) : List α -> Sink -> Option Sink
  | [], sink => some sink
  | value :: values, sink => (writer value sink).bind (each writer values)

variable {holds limit}

/-- Two writers, one after the other. -/
theorem Produces.bind {first second : Sink -> Option Sink} {cells others : List Cell}
    (left : Produces holds limit first cells) (right : Produces holds limit second others) :
    Produces holds limit (fun sink => (first sink).bind second) (cells ++ others) where
  puts := by
    intro sink written after held returned
    rcases Option.bind_eq_some_iff.mp returned with ⟨middle, early, late⟩
    rw [← List.append_assoc]
    exact right.puts _ _ _ (left.puts _ _ _ held early) late
  succeeds := by
    intro sink written held room
    rw [List.length_append] at room
    rcases left.succeeds sink written held (by omega) with ⟨middle, early⟩
    have heldMiddle := left.puts _ _ _ held early
    rcases right.succeeds middle _ heldMiddle (by rw [List.length_append]; omega) with
      ⟨after, late⟩
    exact ⟨after, by rw [early]; exact late⟩

/-- A loop that writes every value puts the cells of every value in order. -/
theorem Produces.each {writer : α -> Sink -> Option Sink} {format : α -> List Cell}
    {values : List α} (one : forall value, value ∈ values ->
      Produces holds limit (writer value) (format value)) :
    Produces holds limit (each writer values) (values.flatMap format) := by
  induction values with
  | nil =>
      refine ⟨?_, fun sink _ _ _ => ⟨sink, rfl⟩⟩
      intro sink written after held returned
      cases returned
      rw [List.flatMap_nil, List.append_nil]
      exact held
  | cons value values inductionHypothesis =>
      rw [List.flatMap_cons]
      apply Produces.bind (one value (List.mem_cons_self ..))
      exact inductionHypothesis fun other member => one other (List.mem_cons_of_mem _ member)

end Writers

/-! ## Readers -/

section Readers

variable (cut : Source -> List Cell -> List Cell -> Prop)

/-- The reader takes exactly these cells, whatever stands before and behind
them, and returns this value. -/
def Consumes (reader : Source -> Option (α × Source)) (cells : List Cell) (value : α) : Prop :=
  forall source before after, cut source before (cells ++ after) ->
    Exists fun rest => reader source = some (value, rest) ∧ cut rest (before ++ cells) after

/-- Read a number of values, each one put into what has been collected so far. -/
def into (reader : Source -> Option (α × Source)) (insert : β -> α -> β) :
    Nat -> β -> Source -> Option (β × Source)
  | 0, collected, source => some (collected, source)
  | count + 1, collected, source =>
      (reader source).bind fun step =>
        into reader insert count (insert collected step.1) step.2

/-- Read a number of values. -/
def many (reader : Source -> Option (α × Source)) : Nat -> Source -> Option (List α × Source)
  | 0, source => some ([], source)
  | count + 1, source =>
      (reader source).bind fun step =>
        (many reader count step.2).map fun rest => (step.1 :: rest.1, rest.2)

/-- Collecting values while they are read is collecting them afterwards. -/
theorem into_eq_many (reader : Source -> Option (α × Source)) (insert : β -> α -> β) (count : Nat)
    (collected : β) (source : Source) :
    into reader insert count collected source =
      (many reader count source).map fun out => (out.1.foldl insert collected, out.2) := by
  induction count generalizing collected source with
  | zero => rfl
  | succ count inductionHypothesis =>
      rw [into, many]
      cases reader source with
      | none => rfl
      | some step =>
          rw [Option.bind_some, Option.bind_some, inductionHypothesis, Option.map_map]
          rfl

theorem length_many {reader : Source -> Option (α × Source)} {count : Nat} {source : Source}
    {out : List α × Source} (returned : many reader count source = some out) : out.1.length = count := by
  induction count generalizing source out with
  | zero =>
      cases returned
      rfl
  | succ count inductionHypothesis =>
      rw [many] at returned
      rcases Option.bind_eq_some_iff.mp returned with ⟨step, _, later⟩
      rcases Option.map_eq_some_iff.mp later with ⟨rest, others, rfl⟩
      exact congrArg (· + 1) (inductionHypothesis others)

/-- Reading goes on where it stopped. -/
theorem many_add (reader : Source -> Option (α × Source)) (first second : Nat) (source : Source) :
    many reader (first + second) source =
      (many reader first source).bind fun left =>
        (many reader second left.2).map fun right => (left.1 ++ right.1, right.2) := by
  induction first generalizing source with
  | zero =>
      rw [Nat.zero_add, many, Option.bind_some]
      exact Option.map_id'.symm
  | succ first inductionHypothesis =>
      rw [Nat.succ_add, many, many]
      cases reader source with
      | none => rfl
      | some step =>
          rw [Option.bind_some, Option.bind_some, inductionHypothesis, Option.map_bind,
            Option.bind_map]
          cases many reader first step.2 with
          | none => rfl
          | some left =>
              rw [Option.bind_some, Option.bind_some, Function.comp, Option.map_map]
              rfl

variable {cut}

/-- Reading does not depend on what is made of the value. -/
theorem Consumes.map {reader : Source -> Option (α × Source)} {cells : List Cell} {value : α}
    (takes : Consumes cut reader cells value) (convert : α -> β) :
    Consumes cut (fun source => (reader source).map fun step => (convert step.1, step.2)) cells
      (convert value) := by
  intro source before after position
  rcases takes source before after position with ⟨rest, returned, moved⟩
  refine ⟨rest, ?_, moved⟩
  exact congrArg (Option.map fun step => (convert step.1, step.2)) returned

/-- Two readers, one after the other. -/
theorem Consumes.bind {first : Source -> Option (α × Source)}
    {second : α -> Source -> Option (β × Source)} {cells others : List Cell} {value : α}
    {result : β} (left : Consumes cut first cells value)
    (right : Consumes cut (second value) others result) :
    Consumes cut (fun source => (first source).bind fun step => second step.1 step.2)
      (cells ++ others) result := by
  intro source before after position
  rw [List.append_assoc] at position
  rcases left source before (others ++ after) position with ⟨middle, early, moved⟩
  rcases right middle (before ++ cells) after moved with ⟨rest, late, arrived⟩
  refine ⟨rest, ?_, ?_⟩
  · apply Option.bind_eq_some_iff.mpr
    exact ⟨(value, middle), early, late⟩
  · rw [← List.append_assoc]
    exact arrived

/-- A loop reads the values whose cells stand one after the other. -/
theorem Consumes.many {reader : Source -> Option (α × Source)} {values : List α}
    {pieces : List (List Cell)}
    (one : List.Forall₂ (fun value piece => Consumes cut reader piece value) values pieces) :
    Consumes cut (many reader values.length) pieces.flatten values := by
  induction one with
  | nil =>
      intro source before after position
      refine ⟨source, rfl, ?_⟩
      rw [List.flatten_nil, List.append_nil]
      exact position
  | @cons value piece values pieces first _ inductionHypothesis =>
      exact @Consumes.bind _ _ _ _ _ reader (fun value source =>
        (Codec.many reader values.length source).map fun rest => (value :: rest.1, rest.2)) _ _ _ _
        first (inductionHypothesis.map (value :: ·))

/-- A loop that reads as many values as were written collects them in order. -/
theorem Consumes.into {reader : Source -> Option (α × Source)} {insert : β -> α -> β}
    {format : α -> List Cell} {values : List α}
    (one : forall value, value ∈ values -> Consumes cut reader (format value) value)
    (collected : β) :
    Consumes cut (into reader insert values.length collected) (values.flatMap format)
      (values.foldl insert collected) := by
  have each : List.Forall₂ (fun value piece => Consumes cut reader piece value) values
      (values.map format) := by
    rw [List.forall₂_map_right_iff, List.forall₂_same]
    exact one
  have taken := (Consumes.many each).map fun values => values.foldl insert collected
  rw [← List.flatMap_def] at taken
  intro source before after position
  rw [into_eq_many]
  exact taken source before after position

end Readers

end Codec
end ServerTech
