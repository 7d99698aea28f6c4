import ServerTech.Foundation.Transition

namespace ServerTech
namespace Atm

open Transition

/-!
# The cash machine, the bank and the interface

Three threads exchange messages over FIFO queues.  A thread that waits on its
queue drops what the current `handle` chain does not name.  Between two waits
it only changes its own members and sends, and other threads can run between
any two sends, so a thread is modelled by its members and the list of what it
still has to do before it waits again.  The bank sends `withdraw_ok` before it
deducts the amount, so the deduction is an entry of that list too.

Messages carry no request number.  The model adds one that no thread reads:
every message to the bank is stamped with the number of the card session it
was sent in, and the bank's answer takes over the stamp of the request.
-/

inductive AtmMsg where
  | cardInserted (account : String)
  | digitPressed (digit : Char)
  | clearLastPressed
  | cancelPressed
  | withdrawPressed (amount : UInt32)
  | balancePressed
  | pinVerified
  | pinIncorrect
  | withdrawOk
  | withdrawDenied
  | balance (amount : UInt32)
  | closeQueue
  deriving DecidableEq, Repr

inductive BankMsg where
  | verifyPin (account : String) (pin : List Char)
  | withdraw (account : String) (amount : UInt32)
  | getBalance (account : String)
  | withdrawalProcessed (account : String) (amount : UInt32)
  | cancelWithdrawal (account : String) (amount : UInt32)
  | closeQueue
  deriving DecidableEq, Repr

inductive InterfaceMsg where
  | issueMoney (amount : UInt32)
  | displayInsufficientFunds
  | displayEnterPin
  | displayEnterCard
  | displayBalance (amount : UInt32)
  | displayWithdrawalOptions
  | displayWithdrawalCancelled
  | displayPinIncorrectMessage
  | ejectCard
  | closeQueue
  deriving DecidableEq, Repr

/-- The messages the user sends to the cash machine. -/
def AtmMsg.fromUser : AtmMsg -> Bool
  | .cardInserted _ | .digitPressed _ | .clearLastPressed | .cancelPressed
  | .withdrawPressed _ | .balancePressed => true
  | _ => false

/-- A message with the number of a card session. -/
structure Envelope (Message : Type) where
  session : Nat
  message : Message
  deriving DecidableEq, Repr

/-! ## The cash machine -/

/-- The state functions of the class `atm`. -/
inductive AtmState where
  | waitingForCard
  | gettingPin
  | verifingPin
  | waitForAction
  | processWithdrawal
  | processBalance
  | doneProcessing
  deriving DecidableEq, Repr

inductive Action where
  | bank (message : BankMsg)
  | interface (message : InterfaceMsg)
  deriving DecidableEq, Repr

/-- The members of `atm`, what the thread sends before it waits again, and the
number of cards accepted. -/
structure Machine where
  state : AtmState
  account : String
  pin : List Char
  withdrawalAmount : UInt32
  todo : List Action
  running : Bool
  session : Nat
  deriving DecidableEq, Repr

namespace Machine

def send (a : Machine) (actions : List Action) : Machine :=
  { a with todo := a.todo ++ actions }

/-- Call a state function up to its wait.  `done_processing` does not wait, it
goes on to `waiting_for_card`. -/
def enter (a : Machine) : AtmState -> Machine
  | .waitingForCard => { a.send [.interface .displayEnterCard] with state := .waitingForCard }
  | .waitForAction => { a.send [.interface .displayWithdrawalOptions] with state := .waitForAction }
  | .doneProcessing =>
      { a.send [.interface .ejectCard, .interface .displayEnterCard] with state := .waitingForCard }
  | state => { a with state := state }

/-- The thread at the start of `run`. -/
def start : Machine :=
  enter
    { state := .waitingForCard
      account := ""
      pin := []
      withdrawalAmount := 0
      todo := []
      running := true
      session := 0 } .waitingForCard

def processWithdrawal (a : Machine) : AtmMsg -> Option Machine
  | .withdrawOk => some ((a.send [.interface (.issueMoney a.withdrawalAmount),
      .bank (.withdrawalProcessed a.account a.withdrawalAmount)]).enter .doneProcessing)
  | .withdrawDenied =>
      some ((a.send [.interface .displayInsufficientFunds]).enter .doneProcessing)
  | .cancelPressed => some ((a.send [.bank (.cancelWithdrawal a.account a.withdrawalAmount),
      .interface .displayWithdrawalCancelled]).enter .doneProcessing)
  | _ => none

def processBalance (a : Machine) : AtmMsg -> Option Machine
  | .balance amount => some ((a.send [.interface (.displayBalance amount)]).enter .waitForAction)
  | .cancelPressed => some (a.enter .doneProcessing)
  | _ => none

def waitForAction (a : Machine) : AtmMsg -> Option Machine
  | .withdrawPressed amount =>
      some (({ a with withdrawalAmount := amount }.send
        [.bank (.withdraw a.account amount)]).enter .processWithdrawal)
  | .balancePressed => some ((a.send [.bank (.getBalance a.account)]).enter .processBalance)
  | .cancelPressed => some (a.enter .doneProcessing)
  | _ => none

def verifingPin (a : Machine) : AtmMsg -> Option Machine
  | .pinVerified => some (a.enter .waitForAction)
  | .pinIncorrect =>
      some ((a.send [.interface .displayPinIncorrectMessage]).enter .doneProcessing)
  | .cancelPressed => some (a.enter .doneProcessing)
  | _ => none

def pinLen : Nat :=
  4

def gettingPin (a : Machine) : AtmMsg -> Option Machine
  | .digitPressed digit =>
      let pin := a.pin ++ [digit]
      if pin.length = pinLen then
        some (({ a with pin := pin }.send [.bank (.verifyPin a.account pin)]).enter .verifingPin)
      else some ({ a with pin := pin }.enter .gettingPin)
  | .clearLastPressed => some ({ a with pin := a.pin.dropLast }.enter .gettingPin)
  | .cancelPressed => some (a.enter .doneProcessing)
  | _ => none

def waitingForCard (a : Machine) : AtmMsg -> Option Machine
  | .cardInserted account =>
      some (({ a with account := account, pin := [], session := a.session + 1 }.send
        [.interface .displayEnterPin]).enter .gettingPin)
  | _ => none

/-- The `handle` chain of the state the machine waits in. -/
def handle (a : Machine) (message : AtmMsg) : Option Machine :=
  match a.state with
  | .waitingForCard => a.waitingForCard message
  | .gettingPin => a.gettingPin message
  | .verifingPin => a.verifingPin message
  | .waitForAction => a.waitForAction message
  | .processWithdrawal => a.processWithdrawal message
  | .processBalance => a.processBalance message
  | .doneProcessing => none

/-- What a popped message does: `close_queue` ends the thread, and a message
without a handler is dropped. -/
def dispatch (a : Machine) (message : AtmMsg) : Machine :=
  match message with
  | .closeQueue => { a with running := false }
  | message => (a.handle message).getD a

/-- The handlers, each with the state it belongs to and what it does. -/
inductive Handles (a : Machine) : AtmMsg -> Machine -> Prop
  | cardInserted {account : String} : a.state = .waitingForCard ->
      Handles a (.cardInserted account) { a with
        state := .gettingPin
        account := account
        pin := []
        session := a.session + 1
        todo := a.todo ++ [.interface .displayEnterPin] }
  | digitPressed {digit : Char} : a.state = .gettingPin -> (a.pin ++ [digit]).length ≠ pinLen ->
      Handles a (.digitPressed digit) { a with state := .gettingPin, pin := a.pin ++ [digit] }
  | pinComplete {digit : Char} : a.state = .gettingPin -> (a.pin ++ [digit]).length = pinLen ->
      Handles a (.digitPressed digit) { a with
        state := .verifingPin
        pin := a.pin ++ [digit]
        todo := a.todo ++ [.bank (.verifyPin a.account (a.pin ++ [digit]))] }
  | clearLastPressed : a.state = .gettingPin ->
      Handles a .clearLastPressed { a with state := .gettingPin, pin := a.pin.dropLast }
  | pinVerified : a.state = .verifingPin ->
      Handles a .pinVerified { a with
        state := .waitForAction
        todo := a.todo ++ [.interface .displayWithdrawalOptions] }
  | pinIncorrect : a.state = .verifingPin ->
      Handles a .pinIncorrect { a with
        state := .waitingForCard
        todo := a.todo ++ [.interface .displayPinIncorrectMessage] ++
          [.interface .ejectCard, .interface .displayEnterCard] }
  | withdrawPressed {amount : UInt32} : a.state = .waitForAction ->
      Handles a (.withdrawPressed amount) { a with
        state := .processWithdrawal
        withdrawalAmount := amount
        todo := a.todo ++ [.bank (.withdraw a.account amount)] }
  | balancePressed : a.state = .waitForAction ->
      Handles a .balancePressed { a with
        state := .processBalance
        todo := a.todo ++ [.bank (.getBalance a.account)] }
  | balance {amount : UInt32} : a.state = .processBalance ->
      Handles a (.balance amount) { a with
        state := .waitForAction
        todo := a.todo ++ [.interface (.displayBalance amount)] ++
          [.interface .displayWithdrawalOptions] }
  | withdrawOk : a.state = .processWithdrawal ->
      Handles a .withdrawOk { a with
        state := .waitingForCard
        todo := a.todo ++ [.interface (.issueMoney a.withdrawalAmount),
            .bank (.withdrawalProcessed a.account a.withdrawalAmount)] ++
          [.interface .ejectCard, .interface .displayEnterCard] }
  | withdrawDenied : a.state = .processWithdrawal ->
      Handles a .withdrawDenied { a with
        state := .waitingForCard
        todo := a.todo ++ [.interface .displayInsufficientFunds] ++
          [.interface .ejectCard, .interface .displayEnterCard] }
  | withdrawalCancelled : a.state = .processWithdrawal ->
      Handles a .cancelPressed { a with
        state := .waitingForCard
        todo := a.todo ++ [.bank (.cancelWithdrawal a.account a.withdrawalAmount),
            .interface .displayWithdrawalCancelled] ++
          [.interface .ejectCard, .interface .displayEnterCard] }
  | cancelPressed : a.state ≠ .waitingForCard -> a.state ≠ .processWithdrawal ->
      Handles a .cancelPressed { a with
        state := .waitingForCard
        todo := a.todo ++ [.interface .ejectCard, .interface .displayEnterCard] }

theorem handle_handles {a b : Machine} {message : AtmMsg} (handled : a.handle message = some b) :
    Handles a message b := by
  unfold handle at handled
  cases state : a.state with
  | waitingForCard =>
      rw [state] at handled
      cases message with
      | cardInserted account =>
          cases handled
          exact .cardInserted state
      | _ => cases handled
  | gettingPin =>
      rw [state] at handled
      cases message with
      | digitPressed digit =>
          change (if (a.pin ++ [digit]).length = pinLen then _ else _) = some b at handled
          by_cases complete : (a.pin ++ [digit]).length = pinLen
          · rw [if_pos complete] at handled
            cases handled
            exact .pinComplete state complete
          · rw [if_neg complete] at handled
            cases handled
            exact .digitPressed state complete
      | clearLastPressed =>
          cases handled
          exact .clearLastPressed state
      | cancelPressed =>
          cases handled
          exact .cancelPressed (by rw [state]; decide) (by rw [state]; decide)
      | _ => cases handled
  | verifingPin =>
      rw [state] at handled
      cases message with
      | pinVerified =>
          cases handled
          exact .pinVerified state
      | pinIncorrect =>
          cases handled
          exact .pinIncorrect state
      | cancelPressed =>
          cases handled
          exact .cancelPressed (by rw [state]; decide) (by rw [state]; decide)
      | _ => cases handled
  | waitForAction =>
      rw [state] at handled
      cases message with
      | withdrawPressed amount =>
          cases handled
          exact .withdrawPressed state
      | balancePressed =>
          cases handled
          exact .balancePressed state
      | cancelPressed =>
          cases handled
          exact .cancelPressed (by rw [state]; decide) (by rw [state]; decide)
      | _ => cases handled
  | processWithdrawal =>
      rw [state] at handled
      cases message with
      | withdrawOk =>
          cases handled
          exact .withdrawOk state
      | withdrawDenied =>
          cases handled
          exact .withdrawDenied state
      | cancelPressed =>
          cases handled
          exact .withdrawalCancelled state
      | _ => cases handled
  | processBalance =>
      rw [state] at handled
      cases message with
      | balance amount =>
          cases handled
          exact .balance state
      | cancelPressed =>
          cases handled
          exact .cancelPressed (by rw [state]; decide) (by rw [state]; decide)
      | _ => cases handled
  | doneProcessing =>
      rw [state] at handled
      cases handled

/-- A popped message is dropped, ends the thread, or is handled. -/
theorem dispatch_cases (a : Machine) (message : AtmMsg) :
    (a.dispatch message = a ∧ a.handle message = none) ∨
      (a.dispatch message = { a with running := false } ∧ message = .closeQueue) ∨
      Handles a message (a.dispatch message) := by
  cases handled : a.handle message with
  | none =>
      cases message with
      | closeQueue => exact Or.inr (Or.inl ⟨rfl, rfl⟩)
      | _ => exact Or.inl ⟨by simp only [dispatch, handled, Option.getD_none], rfl⟩
  | some b =>
      refine Or.inr (Or.inr ?_)
      have same : a.dispatch message = b := by
        cases message with
        | closeQueue =>
            unfold handle at handled
            cases state : a.state <;> rw [state] at handled <;> cases handled
        | _ => simp only [dispatch, handled, Option.getD_some]
      rw [same]
      exact handle_handles handled

end Machine

/-! ## The bank -/

inductive BankAction where
  | reply (message : Envelope AtmMsg)
  | deduct (amount : UInt32)
  deriving DecidableEq, Repr

structure Bank where
  balance : UInt32
  todo : List BankAction
  running : Bool
  deriving DecidableEq, Repr

namespace Bank

def start : Bank where
  balance := 199
  todo := []
  running := true

/-- The PIN every card has. -/
def goodPin : List Char :=
  ['1', '9', '3', '7']

/-- The handlers of `bank_machine::run`.  Those of `withdrawal_processed` and
`cancel_withdrawal` are empty. -/
def dispatch (b : Bank) (request : Envelope BankMsg) : Bank :=
  match request.message with
  | .verifyPin _ pin =>
      if pin = goodPin then { b with todo := [.reply ⟨request.session, .pinVerified⟩] }
      else { b with todo := [.reply ⟨request.session, .pinIncorrect⟩] }
  | .withdraw _ amount =>
      if amount ≤ b.balance then
        { b with todo := [.reply ⟨request.session, .withdrawOk⟩, .deduct amount] }
      else { b with todo := [.reply ⟨request.session, .withdrawDenied⟩] }
  | .getBalance _ => { b with todo := [.reply ⟨request.session, .balance b.balance⟩] }
  | .withdrawalProcessed _ _ => b
  | .cancelWithdrawal _ _ => b
  | .closeQueue => { b with running := false }

end Bank

/-! ## The interface -/

/-- The lines `interface_machine::run` prints for a message. -/
def InterfaceMsg.lines : InterfaceMsg -> List String
  | .issueMoney amount => ["Issuing " ++ toString amount]
  | .displayInsufficientFunds => ["Insufficient funds"]
  | .displayEnterPin => ["Please enter you PIN(0-9)"]
  | .displayEnterCard => ["Please enter your card(I)"]
  | .displayBalance amount => ["The balance of your account is " ++ toString amount]
  | .displayWithdrawalOptions => ["Withdraw 50?(w)", "Display Balance? (b)", "Cancel? (c)"]
  | .displayWithdrawalCancelled => ["Withdrawal cancelled"]
  | .displayPinIncorrectMessage => ["PIN incorrect"]
  | .ejectCard => ["Ejecting card"]
  | .closeQueue => []

structure Interface where
  screen : List String
  running : Bool
  deriving DecidableEq, Repr

def Interface.dispatch (i : Interface) (message : InterfaceMsg) : Interface :=
  match message with
  | .closeQueue => { i with running := false }
  | message => { i with screen := i.screen ++ message.lines }

/-! ## The system -/

/-- The threads, their queues, and every message sent to the interface. -/
structure System where
  atm : Machine
  bank : Bank
  interface : Interface
  atmQueue : List (Envelope AtmMsg)
  bankQueue : List (Envelope BankMsg)
  interfaceQueue : List InterfaceMsg
  sent : List InterfaceMsg
  deriving DecidableEq, Repr

/-- Who moves: the user sends a message, one of the threads takes its next
step, or the `done` of a machine is called. -/
inductive Label where
  | user (message : AtmMsg)
  | atm
  | bank
  | interface
  | atmDone
  | bankDone
  | interfaceDone
  deriving DecidableEq, Repr

namespace System

def start : System where
  atm := .start
  bank := .start
  interface := ⟨[], true⟩
  atmQueue := []
  bankQueue := []
  interfaceQueue := []
  sent := []

/-- The next step of the cash machine: the next send, or a wait that pops. -/
def atmNext (s : System) : Option System :=
  match s.atm.todo with
  | .bank message :: todo =>
      some { s with
        atm := { s.atm with todo := todo }
        bankQueue := s.bankQueue ++ [⟨s.atm.session, message⟩] }
  | .interface message :: todo =>
      some { s with
        atm := { s.atm with todo := todo }
        interfaceQueue := s.interfaceQueue ++ [message]
        sent := s.sent ++ [message] }
  | [] =>
      match s.atm.running, s.atmQueue with
      | true, envelope :: queue =>
          some { s with atm := s.atm.dispatch envelope.message, atmQueue := queue }
      | _, _ => none

def bankNext (s : System) : Option System :=
  match s.bank.todo with
  | .reply message :: todo =>
      some { s with bank := { s.bank with todo := todo }, atmQueue := s.atmQueue ++ [message] }
  | .deduct amount :: todo =>
      some { s with bank := { s.bank with todo := todo, balance := s.bank.balance - amount } }
  | [] =>
      match s.bank.running, s.bankQueue with
      | true, envelope :: queue =>
          some { s with bank := s.bank.dispatch envelope, bankQueue := queue }
      | _, _ => none

def interfaceNext (s : System) : Option System :=
  match s.interface.running, s.interfaceQueue with
  | true, message :: queue =>
      some { s with interface := s.interface.dispatch message, interfaceQueue := queue }
  | _, _ => none

def next (s : System) : Label -> Option System
  | .user message =>
      if message.fromUser then some { s with atmQueue := s.atmQueue ++ [⟨0, message⟩] } else none
  | .atm => s.atmNext
  | .bank => s.bankNext
  | .interface => s.interfaceNext
  | .atmDone => some { s with atmQueue := s.atmQueue ++ [⟨0, .closeQueue⟩] }
  | .bankDone => some { s with bankQueue := s.bankQueue ++ [⟨0, .closeQueue⟩] }
  | .interfaceDone => some { s with interfaceQueue := s.interfaceQueue ++ [.closeQueue] }

/-- The message that the cash machine pops when it takes its next step. -/
def pops (s : System) : Option AtmMsg :=
  match s.atm.todo, s.atm.running, s.atmQueue with
  | [], true, envelope :: _ => some envelope.message
  | _, _, _ => none

theorem pops_eq {s : System} {envelope : Envelope AtmMsg} {queue : List (Envelope AtmMsg)}
    (idle : s.atm.todo = []) (runs : s.atm.running = true) (popped : s.atmQueue = envelope :: queue) :
    s.pops = some envelope.message := by
  simp only [pops, idle, runs, popped]

/-- Everything a step can do. -/
inductive Moves (s : System) : Label -> System -> Prop
  | user {message : AtmMsg} : message.fromUser = true ->
      Moves s (.user message) { s with atmQueue := s.atmQueue ++ [⟨0, message⟩] }
  | atmToBank {message : BankMsg} {todo : List Action} : s.atm.todo = .bank message :: todo ->
      Moves s .atm { s with
        atm := { s.atm with todo := todo }
        bankQueue := s.bankQueue ++ [⟨s.atm.session, message⟩] }
  | atmToInterface {message : InterfaceMsg} {todo : List Action} :
      s.atm.todo = .interface message :: todo ->
      Moves s .atm { s with
        atm := { s.atm with todo := todo }
        interfaceQueue := s.interfaceQueue ++ [message]
        sent := s.sent ++ [message] }
  | atmPops {envelope : Envelope AtmMsg} {queue : List (Envelope AtmMsg)} :
      s.atm.todo = [] -> s.atm.running = true -> s.atmQueue = envelope :: queue ->
      Moves s .atm { s with atm := s.atm.dispatch envelope.message, atmQueue := queue }
  | bankReplies {message : Envelope AtmMsg} {todo : List BankAction} :
      s.bank.todo = .reply message :: todo ->
      Moves s .bank { s with
        bank := { s.bank with todo := todo }, atmQueue := s.atmQueue ++ [message] }
  | bankDeducts {amount : UInt32} {todo : List BankAction} : s.bank.todo = .deduct amount :: todo ->
      Moves s .bank { s with
        bank := { s.bank with todo := todo, balance := s.bank.balance - amount } }
  | bankPops {envelope : Envelope BankMsg} {queue : List (Envelope BankMsg)} :
      s.bank.todo = [] -> s.bank.running = true -> s.bankQueue = envelope :: queue ->
      Moves s .bank { s with bank := s.bank.dispatch envelope, bankQueue := queue }
  | interfacePops {message : InterfaceMsg} {queue : List InterfaceMsg} :
      s.interface.running = true -> s.interfaceQueue = message :: queue ->
      Moves s .interface { s with
        interface := s.interface.dispatch message, interfaceQueue := queue }
  | atmDone : Moves s .atmDone { s with atmQueue := s.atmQueue ++ [⟨0, .closeQueue⟩] }
  | bankDone : Moves s .bankDone { s with bankQueue := s.bankQueue ++ [⟨0, .closeQueue⟩] }
  | interfaceDone :
      Moves s .interfaceDone { s with interfaceQueue := s.interfaceQueue ++ [.closeQueue] }

theorem atmNext_moves {s t : System} (step : s.atmNext = some t) : Moves s .atm t := by
  unfold atmNext at step
  cases doing : s.atm.todo with
  | cons action todo =>
      cases action with
      | bank message =>
          simp only [doing, Option.some.injEq] at step
          exact step ▸ .atmToBank doing
      | interface message =>
          simp only [doing, Option.some.injEq] at step
          exact step ▸ .atmToInterface doing
  | nil =>
      cases runs : s.atm.running with
      | false => cases waiting : s.atmQueue <;> simp only [doing, waiting, runs, reduceCtorEq] at step
      | true =>
          cases waiting : s.atmQueue with
          | nil => simp only [doing, waiting, runs, reduceCtorEq] at step
          | cons envelope queue =>
              simp only [doing, waiting, runs, Option.some.injEq] at step
              exact step ▸ .atmPops doing runs waiting

theorem bankNext_moves {s t : System} (step : s.bankNext = some t) : Moves s .bank t := by
  unfold bankNext at step
  cases doing : s.bank.todo with
  | cons action todo =>
      cases action with
      | reply message =>
          simp only [doing, Option.some.injEq] at step
          exact step ▸ .bankReplies doing
      | deduct amount =>
          simp only [doing, Option.some.injEq] at step
          exact step ▸ .bankDeducts doing
  | nil =>
      cases runs : s.bank.running with
      | false => cases waiting : s.bankQueue <;> simp only [doing, waiting, runs, reduceCtorEq] at step
      | true =>
          cases waiting : s.bankQueue with
          | nil => simp only [doing, waiting, runs, reduceCtorEq] at step
          | cons envelope queue =>
              simp only [doing, waiting, runs, Option.some.injEq] at step
              exact step ▸ .bankPops doing runs waiting

theorem next_moves {s t : System} {label : Label} (step : s.next label = some t) :
    Moves s label t := by
  cases label with
  | user message =>
      simp only [next] at step
      by_cases allowed : message.fromUser = true
      · rw [if_pos allowed, Option.some.injEq] at step
        exact step ▸ .user allowed
      · rw [if_neg allowed] at step
        cases step
  | atm => exact atmNext_moves step
  | bank => exact bankNext_moves step
  | interface =>
      simp only [next, interfaceNext] at step
      cases runs : s.interface.running with
      | false => cases waiting : s.interfaceQueue <;> simp only [waiting, runs, reduceCtorEq] at step
      | true =>
          cases waiting : s.interfaceQueue with
          | nil => simp only [waiting, runs, reduceCtorEq] at step
          | cons message queue =>
              simp only [waiting, runs, Option.some.injEq] at step
              exact step ▸ .interfacePops runs waiting
  | atmDone =>
      cases step
      exact .atmDone
  | bankDone =>
      cases step
      exact .bankDone
  | interfaceDone =>
      cases step
      exact .interfaceDone

/-! ## Schedules -/

/-- A number of steps by the same party. -/
def turns (count : Nat) (label : Label) : List Label :=
  List.replicate count label

/-- The user inserts a card and types four digits. -/
def typing (first second third fourth : Char) : List Label :=
  [.user (.cardInserted "acc1234"), .user (.digitPressed first), .user (.digitPressed second),
    .user (.digitPressed third), .user (.digitPressed fourth)]

end System
end Atm
end ServerTech
