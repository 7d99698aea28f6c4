import Mathlib.Data.List.Induction

namespace ServerTech
namespace Transition

universe u v w x

variable {State : Type u} {Label : Type v}

/-!
# Runs of labelled transition systems

A transition system is a step relation between states with a label on every
step.  A run lists the labels of its steps in order.  The rules below carry a
property from one step to every run: an invariant, and a simulation by another
system.  `Restrict` keeps the steps that meet a condition on the label and on
the state before the step, which is how a result about well-behaved runs is
stated.  `execute` runs an executable step function over a list of labels, so
that a concrete run is found by evaluation.
-/

/-- The finite runs of a step relation. -/
inductive Run (step : State -> Label -> State -> Prop) : State -> List Label -> State -> Prop
  | refl (start : State) : Run step start [] start
  | snoc {start middle final : State} {labels : List Label} {label : Label} :
      Run step start labels middle -> step middle label final ->
      Run step start (labels ++ [label]) final

/-- The steps of `step` that meet the condition. -/
def Restrict (condition : State -> Label -> Prop) (step : State -> Label -> State -> Prop) :
    State -> Label -> State -> Prop :=
  fun before label after => condition before label ∧ step before label after

/-- The step relation of an executable step function. -/
def Stepping (next : State -> Label -> Option State) : State -> Label -> State -> Prop :=
  fun before label after => next before label = some after

/-- Run an executable step function over a list of labels. -/
def execute (next : State -> Label -> Option State) : State -> List Label -> Option State
  | state, [] => some state
  | state, label :: labels =>
      match next state label with
      | none => none
      | some following => execute next following labels

/-- An execution with one more label at the end. -/
theorem execute_snoc (next : State -> Label -> Option State) (labels : List Label) (label : Label)
    (start : State) :
    execute next start (labels ++ [label]) =
      (execute next start labels).bind fun middle => next middle label := by
  induction labels generalizing start with
  | nil =>
      simp only [List.nil_append, execute, Option.bind_some]
      cases next start label <;> rfl
  | cons first labels inductionHypothesis =>
      simp only [List.cons_append, execute]
      cases next start first with
      | none => rfl
      | some following => exact inductionHypothesis following

/-- What an observer of the single steps has noted along an execution. -/
def history {Note : Type w} (next : State -> Label -> Option State)
    (note : State -> Label -> List Note) : State -> List Label -> List Note
  | _, [] => []
  | state, label :: labels =>
      note state label ++
        match next state label with
        | none => []
        | some following => history next note following labels

/-- A history with one more label at the end. -/
theorem history_snoc {Note : Type w} {next : State -> Label -> Option State}
    (note : State -> Label -> List Note) {labels : List Label} {start middle : State}
    (executed : execute next start labels = some middle) (label : Label) :
    history next note start (labels ++ [label]) =
      history next note start labels ++ note middle label := by
  induction labels generalizing start with
  | nil =>
      cases executed
      simp only [List.nil_append, history]
      split <;> exact List.append_nil _
  | cons first labels inductionHypothesis =>
      simp only [List.cons_append, history, List.append_assoc]
      simp only [execute] at executed
      cases taken : next start first with
      | none =>
          rw [taken] at executed
          cases executed
      | some following =>
          rw [taken] at executed
          exact congrArg (note start first ++ ·) (inductionHypothesis executed)

/-- The steps of an executable step function that meet a decidable condition. -/
def guarded (condition : State -> Label -> Prop) [forall state label, Decidable (condition state label)]
    (next : State -> Label -> Option State) : State -> Label -> Option State :=
  fun state label => if condition state label then next state label else none

/-- What every step preserves holds at the end of every run. -/
theorem Run.invariant {step : State -> Label -> State -> Prop} {Inv : State -> Prop}
    (preserved : forall before label after, Inv before -> step before label after -> Inv after)
    {start final : State} {labels : List Label} (run : Run step start labels final)
    (initial : Inv start) : Inv final := by
  induction run with
  | refl => exact initial
  | snoc _ last inductionHypothesis => exact preserved _ _ _ inductionHypothesis last

/-- A run of a system is a run of every system that simulates it step by step
on the states of an invariant. -/
theorem Run.simulation {Abstract : Type w} {Action : Type x}
    {step : State -> Label -> State -> Prop} {abstractStep : Abstract -> Action -> Abstract -> Prop}
    {Inv : State -> Prop} (view : State -> Abstract) (action : Label -> Action)
    (preserved : forall before label after, Inv before -> step before label after -> Inv after)
    (simulates : forall before label after, Inv before -> step before label after ->
      abstractStep (view before) (action label) (view after))
    {start final : State} {labels : List Label} (run : Run step start labels final)
    (initial : Inv start) :
    Run abstractStep (view start) (labels.map action) (view final) := by
  induction run with
  | refl => exact .refl _
  | snoc earlier last inductionHypothesis =>
      rw [List.map_append]
      exact .snoc inductionHypothesis
        (simulates _ _ _ (earlier.invariant preserved initial) last)

/-- A restricted run is a run. -/
theorem Run.unrestrict {condition : State -> Label -> Prop}
    {step : State -> Label -> State -> Prop} {start final : State} {labels : List Label}
    (run : Run (Restrict condition step) start labels final) : Run step start labels final := by
  induction run with
  | refl => exact .refl _
  | snoc _ last inductionHypothesis => exact .snoc inductionHypothesis last.2

/-- A run that starts with one more step. -/
theorem Run.cons {step : State -> Label -> State -> Prop} {start middle final : State}
    {label : Label} {labels : List Label} (first : step start label middle)
    (run : Run step middle labels final) : Run step start (label :: labels) final := by
  induction run with
  | refl => exact .snoc (.refl _) first
  | snoc _ last inductionHypothesis => exact .snoc inductionHypothesis last

/-- Two runs, one after the other. -/
theorem Run.append {step : State -> Label -> State -> Prop} {start middle final : State}
    {first second : List Label} (run : Run step start first middle)
    (rest : Run step middle second final) : Run step start (first ++ second) final := by
  induction rest with
  | refl =>
      rw [List.append_nil]
      exact run
  | snoc _ last inductionHypothesis =>
      rw [← List.append_assoc]
      exact .snoc inductionHypothesis last

/-- The last step of a run. -/
theorem Run.last {step : State -> Label -> State -> Prop} {start final : State}
    {labels : List Label} {label : Label} (run : Run step start (labels ++ [label]) final) :
    Exists fun middle => Run step start labels middle ∧ step middle label final := by
  generalize same : labels ++ [label] = all at run
  cases run with
  | refl => exact absurd same (List.concat_ne_nil _ _)
  | snoc earlier last =>
      rcases List.append_inj' same rfl with ⟨rfl, singleton⟩
      cases singleton
      exact ⟨_, earlier, last⟩

/-- A run can be cut anywhere. -/
theorem Run.split {step : State -> Label -> State -> Prop} {start final : State}
    {first second : List Label} (run : Run step start (first ++ second) final) :
    Exists fun middle => Run step start first middle ∧ Run step middle second final := by
  induction second using List.reverseRecOn generalizing final with
  | nil =>
      rw [List.append_nil] at run
      exact ⟨final, run, .refl _⟩
  | append_singleton labels label inductionHypothesis =>
      rw [← List.append_assoc] at run
      rcases run.last with ⟨before, earlier, last⟩
      rcases inductionHypothesis earlier with ⟨middle, left, right⟩
      exact ⟨middle, left, .snoc right last⟩

/-- A run through a given step. -/
theorem Run.through {step : State -> Label -> State -> Prop} {start final : State}
    {first second : List Label} {label : Label} (run : Run step start (first ++ label :: second) final) :
    Exists fun before => Exists fun after => Run step start first before ∧ step before label after ∧
      Run step after second final := by
  rw [← List.singleton_append, ← List.append_assoc] at run
  rcases run.split with ⟨after, left, right⟩
  rcases left.last with ⟨before, earlier, taken⟩
  exact ⟨before, after, earlier, taken, right⟩

/-- A successful execution is a run. -/
theorem Run.of_execute {next : State -> Label -> Option State} {labels : List Label}
    {start final : State} (executed : execute next start labels = some final) :
    Run (Stepping next) start labels final := by
  induction labels generalizing start with
  | nil =>
      cases executed
      exact .refl _
  | cons label labels inductionHypothesis =>
      simp only [execute] at executed
      cases taken : next start label with
      | none =>
          rw [taken] at executed
          cases executed
      | some middle =>
          rw [taken] at executed
          exact .cons taken (inductionHypothesis executed)

/-- A run of an executable step function is an execution. -/
theorem Run.to_execute {next : State -> Label -> Option State} {labels : List Label}
    {start final : State} (run : Run (Stepping next) start labels final) :
    execute next start labels = some final := by
  induction run with
  | refl => rfl
  | snoc _ last inductionHypothesis =>
      rw [execute_snoc, inductionHypothesis]
      exact last

/-- What every step preserves, with what is noted at the step added to the
notes, holds at the end of every run with its history. -/
theorem Run.invariant_history {Note : Type w} {next : State -> Label -> Option State}
    {note : State -> Label -> List Note} {Inv : State -> List Note -> Prop}
    (preserved : forall before label after notes, Inv before notes ->
      next before label = some after -> Inv after (notes ++ note before label))
    {start final : State} {labels : List Label} (run : Run (Stepping next) start labels final)
    (initial : Inv start []) : Inv final (history next note start labels) := by
  induction run with
  | refl => exact initial
  | snoc earlier last inductionHypothesis =>
      rw [history_snoc note earlier.to_execute]
      exact preserved _ _ _ _ inductionHypothesis last

/-- What an execution shows is what a run ends with. -/
theorem Run.of_execute_map {Shown : Type w} {next : State -> Label -> Option State}
    {labels : List Label} {start : State} {view : State -> Shown} {value : Shown}
    (executed : (execute next start labels).map view = some value) :
    Exists fun final => Run (Stepping next) start labels final ∧ view final = value := by
  rcases Option.map_eq_some_iff.mp executed with ⟨final, reached, same⟩
  exact ⟨final, .of_execute reached, same⟩

theorem guarded_eq_some {condition : State -> Label -> Prop}
    [forall state label, Decidable (condition state label)] {next : State -> Label -> Option State}
    {state following : State} {label : Label}
    (taken : guarded condition next state label = some following) :
    Restrict condition (Stepping next) state label following := by
  unfold guarded at taken
  by_cases met : condition state label
  · rw [if_pos met] at taken
    exact ⟨met, taken⟩
  · rw [if_neg met] at taken
    cases taken

/-- A successful guarded execution is a restricted run. -/
theorem Run.of_guarded {condition : State -> Label -> Prop}
    [forall state label, Decidable (condition state label)] {next : State -> Label -> Option State}
    {labels : List Label} {start final : State}
    (executed : execute (guarded condition next) start labels = some final) :
    Run (Restrict condition (Stepping next)) start labels final := by
  have run := Run.of_execute executed
  clear executed
  induction run with
  | refl => exact .refl _
  | snoc _ last inductionHypothesis => exact .snoc inductionHypothesis (guarded_eq_some last)

/-- What a guarded execution shows is what a restricted run ends with. -/
theorem Run.of_guarded_map {Shown : Type w} {condition : State -> Label -> Prop}
    [forall state label, Decidable (condition state label)] {next : State -> Label -> Option State}
    {labels : List Label} {start : State} {view : State -> Shown} {value : Shown}
    (executed : (execute (guarded condition next) start labels).map view = some value) :
    Exists fun final =>
      Run (Restrict condition (Stepping next)) start labels final ∧ view final = value := by
  rcases Option.map_eq_some_iff.mp executed with ⟨final, reached, same⟩
  exact ⟨final, .of_guarded reached, same⟩

end Transition
end ServerTech
