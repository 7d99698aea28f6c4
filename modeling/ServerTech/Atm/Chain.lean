import ServerTech.Atm.Messaging

namespace ServerTech
namespace Messaging

open Transition

universe u v w

/-!
# Waiting with a chain of handlers

`wait().handle<M1>(f1)…handle<Mn>(fn)` is one expression.  It makes a temporary
for `wait` and one more for every `handle`, which points to the one before it and
marks it as chained.  At the end of the expression the temporaries are destroyed,
the last one first, and the destructor of one that is not chained waits: it pops
objects and asks its own handler first and then those before it.

The queue of the model is what the receiver can pop in order, with the messages
that are sent while it waits.
-/

variable {ι : Type u} {Content : ι -> Type v} {ε : Type w}

/-- The arguments of one `handle`: the type, and the function that gets the
contents of a message.  Its effect is a value. -/
structure Handler (Content : ι -> Type v) (ε : Type w) where
  type : ι
  run : Content type -> ε

/-- A `TemplateDispatcher`, or the `dispatcher` of `wait`, which has no handler. -/
structure Temporary (Content : ι -> Type v) (ε : Type w) where
  handler : Option (Handler Content ε)
  chained : Bool

/-- The temporaries of an expression, the last one first.  Each one points to the
next one in the list. -/
abbrev Chain (Content : ι -> Type v) (ε : Type w) :=
  List (Temporary Content ε)

namespace Chain

/-! ## The expression -/

def wait : Chain Content ε :=
  [⟨none, false⟩]

def handle (handler : Handler Content ε) : Chain Content ε -> Chain Content ε
  | [] => []
  | prev :: earlier => ⟨some handler, false⟩ :: { prev with chained := true } :: earlier

/-- The temporaries at the end of the expression. -/
def temporaries (handlers : List (Handler Content ε)) : Chain Content ε :=
  handlers.foldl (fun chain handler => handle handler chain) wait

/-- How a destructor ends, or that it still waits. -/
inductive Ending
  | returned
  | thrown
  | waiting
  deriving DecidableEq

/-- What executing the expression does to the queue, with the effects of the
handlers that ran. -/
structure Execution (Content : ι -> Type v) (ε : Type w) where
  popped : List (Wrapped Content)
  queue : List (Wrapped Content)
  effects : List ε
  ending : Ending

/-- What `dispatch` does with an object. -/
inductive Reaction (ε : Type w)
  | ran (effect : ε)
  | unmatched
  | closed

section Dispatching

variable [DecidableEq ι] (closeQueue : ι)

/-- `dispatch`: the cast to the type of the handler succeeds, or the one before is
asked.  The `dispatcher` throws on `close_queue`. -/
def dispatch (object : Wrapped Content) : Chain Content ε -> Reaction ε
  | [] => .unmatched
  | temporary :: earlier =>
      match temporary.handler with
      | none => if object.1 = closeQueue then .closed else .unmatched
      | some handler =>
          if same : object.1 = handler.type then .ran (handler.run (same ▸ object.2))
          else dispatch object earlier

/-- `wait_and_dispatch`.  The loop of the `dispatcher` ignores the result of
`dispatch`, which has no handler to run there. -/
def waitAndDispatch (chain : Chain Content ε) : List (Wrapped Content) -> Execution Content ε
  | [] => ⟨[], [], [], .waiting⟩
  | object :: queue =>
      match dispatch closeQueue object chain with
      | .ran effect => ⟨[object], queue, [effect], .returned⟩
      | .closed => ⟨[object], queue, [], .thrown⟩
      | .unmatched =>
          let rest := waitAndDispatch chain queue
          { rest with popped := object :: rest.popped }

/-- The destructors of the temporaries.  Those behind one that throws run as
well. -/
def destructors : Chain Content ε -> List (Wrapped Content) -> Execution Content ε
  | [], queue => ⟨[], queue, [], .returned⟩
  | temporary :: earlier, queue =>
      if temporary.chained then destructors earlier queue
      else
        let first := waitAndDispatch closeQueue (temporary :: earlier) queue
        if first.ending = .waiting then first
        else
          let rest := destructors earlier first.queue
          { popped := first.popped ++ rest.popped
            queue := rest.queue
            effects := first.effects ++ rest.effects
            ending := if rest.ending = .returned then first.ending else rest.ending }

/-- Execute `wait().handle<M1>(f1)…handle<Mn>(fn)`. -/
def execute (handlers : List (Handler Content ε)) (queue : List (Wrapped Content)) :
    Execution Content ε :=
  destructors closeQueue (temporaries handlers) queue

end Dispatching

/-! ## One temporary waits -/

theorem temporaries_concat (handlers : List (Handler Content ε)) (handler : Handler Content ε) :
    temporaries (handlers ++ [handler]) = handle handler (temporaries handlers) := by
  rw [temporaries, List.foldl_append]
  rfl

/-- The last temporary has the last handler and is not chained, and all before it
are chained. -/
theorem temporaries_eq (handlers : List (Handler Content ε)) :
    Exists fun last => Exists fun earlier => temporaries handlers = last :: earlier ∧
      last.chained = false ∧ forall temporary, temporary ∈ earlier -> temporary.chained = true := by
  induction handlers using List.reverseRecOn with
  | nil => exact ⟨_, [], rfl, rfl, nofun⟩
  | append_singleton handlers handler inductionHypothesis =>
      rcases inductionHypothesis with ⟨prev, earlier, same, _, chained⟩
      rw [temporaries_concat, same]
      exact ⟨_, _, rfl, rfl, List.forall_mem_cons.mpr ⟨rfl, chained⟩⟩

section Dispatching

variable [DecidableEq ι] {closeQueue : ι}

/-- Destructors of chained temporaries do nothing. -/
theorem destructors_chained {chain : Chain Content ε}
    (chained : forall temporary, temporary ∈ chain -> temporary.chained = true)
    (queue : List (Wrapped Content)) : destructors closeQueue chain queue = ⟨[], queue, [], .returned⟩ := by
  induction chain with
  | nil => rfl
  | cons temporary earlier inductionHypothesis =>
      rw [destructors, if_pos (chained temporary List.mem_cons_self)]
      exact inductionHypothesis fun other listed => chained other (List.mem_cons_of_mem _ listed)

/-- Executing the expression is the loop of its last temporary. -/
theorem execute_eq (handlers : List (Handler Content ε)) (queue : List (Wrapped Content)) :
    execute closeQueue handlers queue = waitAndDispatch closeQueue (temporaries handlers) queue := by
  rcases temporaries_eq handlers with ⟨last, earlier, same, waits, chained⟩
  rw [execute, same, destructors, waits, if_neg Bool.false_ne_true]
  simp only [destructors_chained chained, List.append_nil, if_true]
  split <;> rfl

/-! ## What is asked -/

theorem dispatch_wait (object : Wrapped Content) :
    dispatch closeQueue object (temporaries ([] : List (Handler Content ε))) =
      if object.1 = closeQueue then .closed else .unmatched :=
  rfl

theorem dispatch_handle (object : Wrapped Content) (handlers : List (Handler Content ε))
    (handler : Handler Content ε) :
    dispatch closeQueue object (temporaries (handlers ++ [handler])) =
      if same : object.1 = handler.type then .ran (handler.run (same ▸ object.2))
      else dispatch closeQueue object (temporaries handlers) := by
  rcases temporaries_eq handlers with ⟨last, earlier, same, _, _⟩
  rw [temporaries_concat, same]
  rfl

/-- No handler gets an object of another type. -/
theorem dispatch_other {object : Wrapped Content} {handlers : List (Handler Content ε)}
    (other : object.1 ∉ handlers.map Handler.type) :
    dispatch closeQueue object (temporaries handlers) =
      if object.1 = closeQueue then .closed else .unmatched := by
  induction handlers using List.reverseRecOn with
  | nil => rfl
  | append_singleton handlers handler inductionHypothesis =>
      rw [List.map_append, List.mem_append, not_or] at other
      have fails : ¬ object.1 = handler.type := fun same => other.2 (List.mem_singleton.mpr same)
      rw [dispatch_handle, dif_neg fails]
      exact inductionHypothesis other.1

/-- The handler of the type gets the object, whatever its place is. -/
theorem dispatch_own {object : Wrapped Content} {handlers : List (Handler Content ε)}
    (distinct : (handlers.map Handler.type).Nodup) {handler : Handler Content ε}
    (member : handler ∈ handlers) (same : object.1 = handler.type) :
    dispatch closeQueue object (temporaries handlers) = .ran (handler.run (same ▸ object.2)) := by
  induction handlers using List.reverseRecOn with
  | nil => cases member
  | append_singleton handlers last inductionHypothesis =>
      rw [List.map_append, List.map_singleton, List.nodup_append] at distinct
      rw [dispatch_handle]
      rcases List.mem_append.mp member with earlier | latest
      · have fails : ¬ object.1 = last.type := by
          intro taken
          exact distinct.2.2 handler.type (List.mem_map_of_mem earlier) last.type
            (List.mem_singleton_self _) (same.symm.trans taken)
        rw [dif_neg fails]
        exact inductionHypothesis distinct.1 earlier
      · cases List.mem_singleton.mp latest
        exact dif_pos same

/-! ## What is popped -/

/-- Some handler or the exception ends the wait at an object of the type. -/
def Ends (closeQueue : ι) (handlers : List (Handler Content ε)) (type : ι) : Prop :=
  type ∈ handlers.map Handler.type ∨ type = closeQueue

variable {handlers : List (Handler Content ε)}

theorem dispatch_unmatched {object : Wrapped Content} (goesOn : ¬ Ends closeQueue handlers object.1) :
    dispatch closeQueue object (temporaries handlers) = .unmatched := by
  rw [Ends, not_or] at goesOn
  rw [dispatch_other goesOn.1, if_neg goesOn.2]

/-- Objects that end nothing are popped and discarded. -/
theorem waitAndDispatch_discards {before : List (Wrapped Content)}
    (goesOn : forall object, object ∈ before -> ¬ Ends closeQueue handlers object.1)
    (queue : List (Wrapped Content)) :
    waitAndDispatch closeQueue (temporaries handlers) (before ++ queue) =
      { waitAndDispatch closeQueue (temporaries handlers) queue with
        popped := before ++ (waitAndDispatch closeQueue (temporaries handlers) queue).popped } := by
  induction before with
  | nil => rfl
  | cons object before inductionHypothesis =>
      rw [List.cons_append, waitAndDispatch, dispatch_unmatched (goesOn object List.mem_cons_self)]
      simp only [inductionHypothesis fun other listed => goesOn other (List.mem_cons_of_mem _ listed),
        List.cons_append]

/-- A chain of handlers for different types, none of them for `close_queue`, is
one that waits once, in its last temporary.  It pops up to the first object of a
type with a handler or of `close_queue`: the handler of the type runs once, with
the object, or no handler runs and the exception is thrown.  Without such an
object it pops all there is and waits for more. -/
theorem execute_first_match (closeQueue : ι) (handlers : List (Handler Content ε))
    (distinct : (handlers.map Handler.type).Nodup) (unclosed : closeQueue ∉ handlers.map Handler.type) :
    ((temporaries handlers).filter fun temporary => !temporary.chained) = (temporaries handlers).take 1 ∧
    (forall (before : List (Wrapped Content)) (object : Wrapped Content) (rest : List (Wrapped Content)),
      (forall earlier, earlier ∈ before -> ¬ Ends closeQueue handlers earlier.1) ->
      (forall handler, handler ∈ handlers -> forall same : object.1 = handler.type,
        execute closeQueue handlers (before ++ object :: rest) =
          ⟨before ++ [object], rest, [handler.run (same ▸ object.2)], .returned⟩) ∧
      (object.1 = closeQueue ->
        execute closeQueue handlers (before ++ object :: rest) =
          ⟨before ++ [object], rest, [], .thrown⟩)) ∧
    forall queue : List (Wrapped Content),
      (forall object, object ∈ queue -> ¬ Ends closeQueue handlers object.1) ->
      execute closeQueue handlers queue = ⟨queue, [], [], .waiting⟩ := by
  refine ⟨?_, ?_, ?_⟩
  · rcases temporaries_eq handlers with ⟨last, earlier, same, waits, chained⟩
    have none_ : (earlier.filter fun temporary => !temporary.chained) = [] := by
      rw [List.filter_eq_nil_iff]
      intro temporary listed
      rw [chained temporary listed]
      decide
    rw [same, List.filter_cons, waits, none_]
    rfl
  · intro before object rest goesOn
    refine ⟨?_, ?_⟩
    · intro handler member same
      rw [execute_eq, waitAndDispatch_discards goesOn, waitAndDispatch, dispatch_own distinct member same]
    · intro closes
      have other : object.1 ∉ handlers.map Handler.type := by
        rw [closes]
        exact unclosed
      rw [execute_eq, waitAndDispatch_discards goesOn, waitAndDispatch, dispatch_other other, if_pos closes]
  · intro queue goesOn
    have discarded := waitAndDispatch_discards goesOn []
    rw [List.append_nil] at discarded
    rw [execute_eq, discarded, waitAndDispatch, List.append_nil]

/-- Waiting for a digit or for `cancel_pressed`, when a card comes first. -/
theorem execute_digit :
    let handlers : List (Handler AtmContent Char) :=
      [⟨.digitPressed, fun digit => digit⟩, ⟨.cancelPressed, fun _ => 'c'⟩]
    execute AtmType.closeQueue handlers
      [⟨.cardInserted, ("acc1234" : String)⟩, ⟨.digitPressed, ('7' : Char)⟩, ⟨.cancelPressed, ()⟩] =
        ⟨[⟨.cardInserted, ("acc1234" : String)⟩, ⟨.digitPressed, ('7' : Char)⟩], [⟨.cancelPressed, ()⟩],
          ['7'], .returned⟩ := by
  intro handlers
  have matched := (execute_first_match AtmType.closeQueue handlers (by decide) (by decide)).2.1
    [⟨.cardInserted, ("acc1234" : String)⟩] ⟨.digitPressed, ('7' : Char)⟩ [⟨.cancelPressed, ()⟩] ?_
  · exact matched.1 ⟨.digitPressed, fun digit => digit⟩ List.mem_cons_self rfl
  · intro earlier listed ends
    cases List.mem_singleton.mp listed
    revert ends
    change ¬ (AtmType.cardInserted ∈ [AtmType.digitPressed, .cancelPressed] ∨ _)
    decide

/-! ## The order of the handlers -/

/-- The handlers may be given in any order. -/
theorem dispatch_perm {others : List (Handler Content ε)} (order : handlers.Perm others)
    (distinct : (handlers.map Handler.type).Nodup) (object : Wrapped Content) :
    dispatch closeQueue object (temporaries handlers) = dispatch closeQueue object (temporaries others) := by
  have types := order.map Handler.type
  by_cases own : object.1 ∈ handlers.map Handler.type
  · rcases List.mem_map.mp own with ⟨handler, member, same⟩
    rw [dispatch_own distinct member same.symm,
      dispatch_own (types.nodup_iff.mp distinct) (order.mem_iff.mp member) same.symm]
  · rw [dispatch_other own, dispatch_other fun other => own (types.mem_iff.mpr other)]

theorem execute_perm {others : List (Handler Content ε)} (order : handlers.Perm others)
    (distinct : (handlers.map Handler.type).Nodup) (queue : List (Wrapped Content)) :
    execute closeQueue handlers queue = execute closeQueue others queue := by
  rw [execute_eq, execute_eq]
  induction queue with
  | nil => rfl
  | cons object queue inductionHypothesis =>
      rw [waitAndDispatch, waitAndDispatch, dispatch_perm order distinct, inductionHypothesis]

/-! ## The receiver of a channel -/

/-- The chain in which a channel waits. -/
def dispatcher (handlers : List (Handler Content ε)) : Dispatcher ι :=
  handlers.foldl (fun previous handler => .handle previous handler.type) .base

def Reaction.outcome (type : ι) : Reaction ε -> Outcome ι
  | ran _ => .handled type
  | unmatched => .unmatched
  | closed => .closed

theorem dispatch_outcome (object : Wrapped Content) (handlers : List (Handler Content ε)) :
    (dispatch closeQueue object (temporaries handlers)).outcome object.1 =
      (dispatcher handlers).dispatch closeQueue object.1 := by
  induction handlers using List.reverseRecOn with
  | nil =>
      rw [dispatch_wait, dispatcher, List.foldl_nil, Dispatcher.dispatch]
      split <;> rfl
  | append_singleton handlers handler inductionHypothesis =>
      have last : dispatcher (handlers ++ [handler]) = .handle (dispatcher handlers) handler.type := by
        rw [dispatcher, List.foldl_append]
        rfl
      rw [dispatch_handle, last, Dispatcher.dispatch]
      by_cases same : object.1 = handler.type
      · rw [dif_pos same, if_pos same]
        exact congrArg Outcome.handled same
      · rw [dif_neg same, if_neg same]
        exact inductionHypothesis

/-- The channel after the receiver has executed the expression. -/
def received (channel : Channel Content) (closeQueue : ι) (handlers : List (Handler Content ε))
    (execution : Execution Content ε) : Channel Content :=
  { channel with
    queue := execution.queue
    waiting := if execution.ending = .waiting then channel.waiting else none
    popped := channel.popped ++ execution.popped.map fun object =>
      (object, (dispatcher handlers).dispatch closeQueue object.1) }

/-- Executing the expression is a run of pops of the receiver that waits with it. -/
theorem run_execute (handlers : List (Handler Content ε)) (channel : Channel Content)
    (waits : channel.waiting = some (dispatcher handlers)) :
    Run (Stepping (Channel.next closeQueue)) channel
      (List.replicate (execute closeQueue handlers channel.queue).popped.length .pop)
      (received channel closeQueue handlers (execute closeQueue handlers channel.queue)) := by
  rw [execute_eq]
  generalize content : channel.queue = queue
  induction queue generalizing channel with
  | nil =>
      have same : received channel closeQueue handlers
          (waitAndDispatch closeQueue (temporaries handlers) []) = channel := by
        rcases channel with ⟨queue, waiting, pushed, popped⟩
        cases content
        simp only [received, waitAndDispatch, if_true, List.map_nil, List.append_nil]
      rw [same]
      exact .refl _
  | cons object queue inductionHypothesis =>
      have asked := @dispatch_outcome _ _ _ _ closeQueue object handlers
      have popped : channel.next closeQueue .pop = some
          { channel with
            queue := queue
            waiting :=
              if (dispatcher handlers).dispatch closeQueue object.1 = .unmatched then
                some (dispatcher handlers)
              else none
            popped := channel.popped ++ [(object, (dispatcher handlers).dispatch closeQueue object.1)] } := by
        simp only [Channel.next, waits, content]
      rw [waitAndDispatch]
      cases reaction : dispatch closeQueue object (temporaries handlers) with
      | unmatched =>
          rw [reaction] at asked
          rw [← asked] at popped
          have rest := inductionHypothesis
            { channel with
              queue := queue
              waiting := some (dispatcher handlers)
              popped := channel.popped ++ [(object, .unmatched)] } rfl rfl
          refine Run.cons popped ?_
          simp only [received, Reaction.outcome, if_true, waits, List.map_cons, ← asked,
            List.append_assoc, List.singleton_append] at rest ⊢
          exact rest
      | ran effect =>
          rw [reaction] at asked
          rw [← asked] at popped
          refine Run.snoc (.refl _) (popped.trans ?_)
          simp only [received, Reaction.outcome, reduceCtorEq, if_false, List.map_cons, List.map_nil, ← asked]
      | closed =>
          rw [reaction] at asked
          rw [← asked] at popped
          refine Run.snoc (.refl _) (popped.trans ?_)
          simp only [received, Reaction.outcome, reduceCtorEq, if_false, List.map_cons, List.map_nil, ← asked]

end Dispatching

end Chain
end Messaging
end ServerTech
