import ServerTech.Atm.Machine

namespace ServerTech
namespace Messaging

open Transition

universe u v

/-!
# The message queue under the cash machine

A message of any type is wrapped into an object with a common base class and
put into a queue.  The receiver waits with a chain of handlers, pops objects
until one of them has a handler, and finds its type with `dynamic_cast`.
Senders and the receiver hold a mutex for one push or one pop, so these are
the steps of a run.

The constructor of the wrapper takes the message as `contents_` and
initialises its member with `contents { contents }`: the member is copied from
itself, and the message is not used.  What the member then holds is what the
memory of the new object held, which is an input of the model.
-/

variable {ι : Type u} {Content : ι -> Type v}

/-- An object in the queue: the type it was wrapped with and its contents. -/
abbrev Wrapped (Content : ι -> Type v) : Type (max u v) :=
  (type : ι) × Content type

/-- A call of `send`: the type, the message, and the contents of the memory
that the new object gets. -/
structure Sent (Content : ι -> Type v) where
  type : ι
  message : Content type
  memory : Content type

namespace Sent

/-- The object that `wrapped_message` constructs. -/
def wrapped (sent : Sent Content) : Wrapped Content :=
  ⟨sent.type, sent.memory⟩

end Sent

/-! ## Chains of handlers -/

/-- A chain `wait().handle<M1>(f1).handle<M2>(f2)…`: the dispatcher that
`wait` returns, and one more for each `handle`. -/
inductive Dispatcher (ι : Type u)
  | base
  | handle (previous : Dispatcher ι) (type : ι)

/-- What becomes of a popped object. -/
inductive Outcome (ι : Type u)
  | handled (type : ι)
  | unmatched
  | closed
  deriving DecidableEq

def Outcome.isHandled : Outcome ι -> Bool
  | handled _ => true
  | unmatched => false
  | closed => false

/-- `dispatch`: the last handler is asked first, and the base throws on
`close_queue`. -/
def Dispatcher.dispatch [DecidableEq ι] (closeQueue type : ι) : Dispatcher ι -> Outcome ι
  | base => if type = closeQueue then .closed else .unmatched
  | handle previous handles =>
      if type = handles then .handled handles else dispatch closeQueue type previous

/-- The queue and the chain the receiver waits in, with the calls of `send`
and the popped objects. -/
structure Channel (Content : ι -> Type v) where
  queue : List (Wrapped Content)
  waiting : Option (Dispatcher ι)
  pushed : List (Sent Content)
  popped : List (Wrapped Content × Outcome ι)

/-- Some sender sends, or the receiver starts to wait or pops. -/
inductive ChannelLabel (Content : ι -> Type v)
  | send (sent : Sent Content)
  | wait (chain : Dispatcher ι)
  | pop

namespace Channel

def empty : Channel Content :=
  ⟨[], none, [], []⟩

section Steps

variable [DecidableEq ι] (closeQueue : ι)

/-- A chain ends with a handler or with the exception, and goes on after an
object without a handler. -/
def next (channel : Channel Content) : ChannelLabel Content -> Option (Channel Content)
  | .send sent =>
      some { channel with
        queue := channel.queue ++ [sent.wrapped]
        pushed := channel.pushed ++ [sent] }
  | .wait chain =>
      match channel.waiting with
      | none => some { channel with waiting := some chain }
      | some _ => none
  | .pop =>
      match channel.waiting, channel.queue with
      | some chain, object :: queue =>
          let outcome := chain.dispatch closeQueue object.1
          some { channel with
            queue := queue
            waiting := if outcome = .unmatched then some chain else none
            popped := channel.popped ++ [(object, outcome)] }
      | _, _ => none

/-- The popped objects and those in the queue are the objects of all calls of
`send`, in order, and a handler got an object of its own type. -/
structure Conserved (channel : Channel Content) : Prop where
  order : channel.popped.map Prod.fst ++ channel.queue = channel.pushed.map Sent.wrapped
  types : forall object type, (object, Outcome.handled type) ∈ channel.popped -> object.1 = type

end Steps

end Channel

/-! ## The messages to the cash machine -/

/-- The types of the messages in the queue of the cash machine. -/
inductive AtmType
  | cardInserted
  | digitPressed
  | clearLastPressed
  | cancelPressed
  | withdrawPressed
  | balancePressed
  | pinVerified
  | pinIncorrect
  | withdrawOk
  | withdrawDenied
  | balance
  | closeQueue
  deriving DecidableEq

/-- The members of each type. -/
def AtmContent : AtmType -> Type
  | .cardInserted => String
  | .digitPressed => Char
  | .withdrawPressed => UInt32
  | .balance => UInt32
  | _ => Unit

/-- The type of a message. -/
def typeOf : Atm.AtmMsg -> AtmType
  | .cardInserted _ => .cardInserted
  | .digitPressed _ => .digitPressed
  | .clearLastPressed => .clearLastPressed
  | .cancelPressed => .cancelPressed
  | .withdrawPressed _ => .withdrawPressed
  | .balancePressed => .balancePressed
  | .pinVerified => .pinVerified
  | .pinIncorrect => .pinIncorrect
  | .withdrawOk => .withdrawOk
  | .withdrawDenied => .withdrawDenied
  | .balance _ => .balance
  | .closeQueue => .closeQueue

/-- The chain each state function waits with.  `done_processing` does not
wait. -/
def chainOf : Atm.AtmState -> Dispatcher AtmType
  | .waitingForCard => .handle .base .cardInserted
  | .gettingPin =>
      .handle (.handle (.handle .base .digitPressed) .clearLastPressed) .cancelPressed
  | .verifingPin => .handle (.handle (.handle .base .pinVerified) .pinIncorrect) .cancelPressed
  | .waitForAction =>
      .handle (.handle (.handle .base .withdrawPressed) .balancePressed) .cancelPressed
  | .processWithdrawal =>
      .handle (.handle (.handle .base .withdrawOk) .withdrawDenied) .cancelPressed
  | .processBalance => .handle (.handle .base .balance) .cancelPressed
  | .doneProcessing => .base

/-- The state functions of the cash machine react to a message exactly when the
chain they wait with has a handler for its type. -/
theorem handle_isSome (a : Atm.Machine) (message : Atm.AtmMsg) :
    (a.handle message).isSome =
      ((chainOf a.state).dispatch .closeQueue (typeOf message)).isHandled := by
  unfold Atm.Machine.handle
  cases a.state with
  | waitingForCard => cases message <;> rfl
  | gettingPin =>
      cases message with
      | digitPressed digit =>
          change (if (a.pin ++ [digit]).length = Atm.Machine.pinLen then some _ else some _).isSome =
            true
          by_cases complete : (a.pin ++ [digit]).length = Atm.Machine.pinLen
          · rw [if_pos complete]
            rfl
          · rw [if_neg complete]
            rfl
      | _ => rfl
  | verifingPin => cases message <;> rfl
  | waitForAction => cases message <;> rfl
  | processWithdrawal => cases message <;> rfl
  | processBalance => cases message <;> rfl
  | doneProcessing => cases message <;> rfl

end Messaging
end ServerTech
