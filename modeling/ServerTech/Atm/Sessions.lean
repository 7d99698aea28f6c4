import ServerTech.Atm.Machine

namespace ServerTech
namespace Atm

open Transition

/-!
# The grammar of card sessions

What the interface is told during one card session follows a fixed pattern:
the prompt for the card, the prompt for the PIN, what the session comes to,
and the ejected card.  The result holds whatever arrives in the queue of the
cash machine.  The machine is therefore taken alone, with an environment that
may put any message into the queue at any time, the bank's answers included,
and the system of three threads is one such environment.
-/

/-! ## The grammar -/

/-- How a session ends after the last menu. -/
inductive Ending : List InterfaceMsg -> Prop
  | nothing : Ending []
  | issued (amount : UInt32) : Ending [.issueMoney amount]
  | refused : Ending [.displayInsufficientFunds]
  | cancelled : Ending [.displayWithdrawalCancelled]

/-- Balances, each followed by a new menu. -/
def inquiries (balances : List UInt32) : List InterfaceMsg :=
  balances.flatMap fun amount => [.displayBalance amount, .displayWithdrawalOptions]

theorem inquiries_snoc (balances : List UInt32) (amount : UInt32) :
    inquiries (balances ++ [amount]) =
      inquiries balances ++ [.displayBalance amount, .displayWithdrawalOptions] := by
  rw [inquiries, List.flatMap_append, List.flatMap_singleton]
  rfl

/-- What happens between the prompt for the PIN and the ejection of the card. -/
inductive Body : List InterfaceMsg -> Prop
  | nothing : Body []
  | incorrect : Body [.displayPinIncorrectMessage]
  | menu (balances : List UInt32) {ending : List InterfaceMsg} : Ending ending ->
      Body (.displayWithdrawalOptions :: (inquiries balances ++ ending))

/-- One card session. -/
inductive Session : List InterfaceMsg -> Prop
  | card {body : List InterfaceMsg} : Body body ->
      Session ([.displayEnterCard, .displayEnterPin] ++ body ++ [.ejectCard])

/-- The messages of a session that has come to a state. -/
inductive Shown : AtmState -> List InterfaceMsg -> Prop
  | waitingForCard : Shown .waitingForCard [.displayEnterCard]
  | gettingPin : Shown .gettingPin [.displayEnterCard, .displayEnterPin]
  | verifingPin : Shown .verifingPin [.displayEnterCard, .displayEnterPin]
  | waitForAction (balances : List UInt32) : Shown .waitForAction
      ([.displayEnterCard, .displayEnterPin] ++ .displayWithdrawalOptions :: inquiries balances)
  | processWithdrawal (balances : List UInt32) : Shown .processWithdrawal
      ([.displayEnterCard, .displayEnterPin] ++ .displayWithdrawalOptions :: inquiries balances)
  | processBalance (balances : List UInt32) : Shown .processBalance
      ([.displayEnterCard, .displayEnterPin] ++ .displayWithdrawalOptions :: inquiries balances)

/-- What may still be shown in a state before the card is ejected. -/
inductive Closing : AtmState -> List InterfaceMsg -> Prop
  | cancel {state : AtmState} : state ≠ .waitingForCard -> Closing state []
  | incorrect : Closing .verifingPin [.displayPinIncorrectMessage]
  | ending {ending : List InterfaceMsg} : Ending ending -> Closing .processWithdrawal ending

/-- A session with a menu. -/
theorem session_of_menu (balances : List UInt32) {ending : List InterfaceMsg} (valid : Ending ending) :
    Session ([.displayEnterCard, .displayEnterPin] ++
      .displayWithdrawalOptions :: inquiries balances ++ ending ++ [.ejectCard]) := by
  have session := Session.card (Body.menu balances valid)
  simp only [List.append_assoc, List.cons_append, List.nil_append] at session ⊢
  exact session

/-- What was shown up to a state, with what may follow there, is a session. -/
theorem Shown.session {state : AtmState} {shown tail : List InterfaceMsg} (soFar : Shown state shown)
    (closing : Closing state tail) : Session (shown ++ tail ++ [.ejectCard]) := by
  cases closing with
  | cancel accepted =>
      cases soFar with
      | waitingForCard => exact absurd rfl accepted
      | gettingPin => exact .card .nothing
      | verifingPin => exact .card .nothing
      | waitForAction balances => exact session_of_menu balances .nothing
      | processWithdrawal balances => exact session_of_menu balances .nothing
      | processBalance balances => exact session_of_menu balances .nothing
  | incorrect =>
      cases soFar with
      | verifingPin => exact .card .incorrect
  | ending valid =>
      cases soFar with
      | processWithdrawal balances => exact session_of_menu balances valid

/-! In a session one card is accepted and one is ejected, and money is issued
at most once. -/

/-- The message issues money. -/
def InterfaceMsg.issues : InterfaceMsg -> Bool
  | .issueMoney _ => true
  | _ => false

theorem inquiries_counts (balances : List UInt32) :
    (inquiries balances).count .displayEnterPin = 0 ∧ (inquiries balances).count .ejectCard = 0 ∧
      (inquiries balances).countP InterfaceMsg.issues = 0 := by
  induction balances with
  | nil => exact ⟨rfl, rfl, rfl⟩
  | cons amount balances inductionHypothesis =>
      rcases inductionHypothesis with ⟨accepted, ejected, issued⟩
      have grown : inquiries (amount :: balances) =
          [.displayBalance amount, .displayWithdrawalOptions] ++ inquiries balances := rfl
      refine ⟨?_, ?_, ?_⟩
      · rw [grown, List.count_append, accepted]
        rfl
      · rw [grown, List.count_append, ejected]
        rfl
      · rw [grown, List.countP_append, issued]
        rfl

theorem Ending.counts {ending : List InterfaceMsg} (valid : Ending ending) :
    ending.count .displayEnterPin = 0 ∧ ending.count .ejectCard = 0 ∧
      ending.countP InterfaceMsg.issues ≤ 1 := by
  cases valid with
  | nothing => exact ⟨rfl, rfl, Nat.zero_le 1⟩
  | issued amount => exact ⟨rfl, rfl, Nat.le_refl 1⟩
  | refused => exact ⟨rfl, rfl, Nat.zero_le 1⟩
  | cancelled => exact ⟨rfl, rfl, Nat.zero_le 1⟩

theorem Body.counts {body : List InterfaceMsg} (valid : Body body) :
    body.count .displayEnterPin = 0 ∧ body.count .ejectCard = 0 ∧
      body.countP InterfaceMsg.issues ≤ 1 := by
  cases valid with
  | nothing => exact ⟨rfl, rfl, Nat.zero_le 1⟩
  | incorrect => exact ⟨rfl, rfl, Nat.zero_le 1⟩
  | @menu balances ending ends =>
      rcases inquiries_counts balances with ⟨accepted, ejected, issued⟩
      rcases ends.counts with ⟨acceptedLast, ejectedLast, issuedLast⟩
      have split : InterfaceMsg.displayWithdrawalOptions :: (inquiries balances ++ ending) =
          [.displayWithdrawalOptions] ++ (inquiries balances ++ ending) := rfl
      refine ⟨?_, ?_, ?_⟩
      · rw [split, List.count_append, List.count_append, accepted, acceptedLast]
        rfl
      · rw [split, List.count_append, List.count_append, ejected, ejectedLast]
        rfl
      · rw [split, List.countP_append, List.countP_append, issued, Nat.zero_add]
        exact Nat.add_le_add (Nat.le_refl 0) issuedLast

theorem Session.counts {session : List InterfaceMsg} (valid : Session session) :
    session.count .displayEnterPin = 1 ∧ session.count .ejectCard = 1 ∧
      session.countP InterfaceMsg.issues ≤ 1 := by
  cases valid with
  | @card body inside =>
      rcases inside.counts with ⟨accepted, ejected, issued⟩
      refine ⟨?_, ?_, ?_⟩
      · rw [List.count_append, List.count_append, accepted]
        rfl
      · rw [List.count_append, List.count_append, ejected]
        rfl
      · rw [List.countP_append, List.countP_append]
        have card : [InterfaceMsg.displayEnterCard, .displayEnterPin].countP InterfaceMsg.issues = 0 :=
          rfl
        have eject : [InterfaceMsg.ejectCard].countP InterfaceMsg.issues = 0 := rfl
        omega

/-! ## The machine in any environment -/

/-- The messages to the interface among what the machine has to send. -/
def outputs (todo : List Action) : List InterfaceMsg :=
  todo.filterMap fun action =>
    match action with
    | .bank _ => none
    | .interface message => some message

/-- The cash machine, its queue, and the messages sent to the interface. -/
structure Terminal where
  atm : Machine
  queue : List AtmMsg
  sent : List InterfaceMsg

/-- Someone sends to the machine, or the machine takes its next step. -/
inductive TerminalLabel
  | push (message : AtmMsg)
  | step

namespace Terminal

def start : Terminal :=
  ⟨.start, [], []⟩

def next (terminal : Terminal) : TerminalLabel -> Option Terminal
  | .push message => some { terminal with queue := terminal.queue ++ [message] }
  | .step =>
      match terminal.atm.todo with
      | .bank _ :: todo => some { terminal with atm := { terminal.atm with todo := todo } }
      | .interface message :: todo =>
          some { terminal with
            atm := { terminal.atm with todo := todo }
            sent := terminal.sent ++ [message] }
      | [] =>
          match terminal.atm.running, terminal.queue with
          | true, message :: queue =>
              some { terminal with atm := terminal.atm.dispatch message, queue := queue }
          | _, _ => none

/-- What the machine has sent and still has to send to the interface is a
number of sessions and the part of one that its state tells. -/
def Told (terminal : Terminal) : Prop :=
  Exists fun sessions => Exists fun shown => (forall session, session ∈ sessions -> Session session) ∧
    Shown terminal.atm.state shown ∧
    terminal.sent ++ outputs terminal.atm.todo = List.flatten sessions ++ shown

end Terminal

/-- A handler goes on with the session, or closes it and starts the next one. -/
theorem handles_shown {a b : Machine} {message : AtmMsg} {shown : List InterfaceMsg}
    (handled : Machine.Handles a message b) (idle : a.todo = []) (soFar : Shown a.state shown) :
    Shown b.state (shown ++ outputs b.todo) ∨
    (b.state = .waitingForCard ∧ Exists fun tail => Closing a.state tail ∧
      outputs b.todo = tail ++ [.ejectCard] ++ [.displayEnterCard]) := by
  cases handled with
  | cardInserted state =>
      rw [state] at soFar
      cases soFar
      simp only [idle]
      exact .inl .gettingPin
  | digitPressed state partial_ =>
      rw [state] at soFar
      cases soFar
      simp only [idle]
      exact .inl .gettingPin
  | pinComplete state complete =>
      rw [state] at soFar
      cases soFar
      simp only [idle]
      exact .inl .verifingPin
  | clearLastPressed state =>
      rw [state] at soFar
      cases soFar
      simp only [idle]
      exact .inl .gettingPin
  | pinVerified state =>
      rw [state] at soFar
      cases soFar
      simp only [idle]
      exact .inl (.waitForAction [])
  | pinIncorrect state =>
      rw [state]
      simp only [idle]
      exact .inr ⟨trivial, _, .incorrect, rfl⟩
  | withdrawPressed state =>
      rw [state] at soFar
      cases soFar with
      | waitForAction balances =>
          simp only [idle, List.nil_append, outputs, List.filterMap_cons_none, List.filterMap_nil,
            List.append_nil]
          exact .inl (.processWithdrawal balances)
  | balancePressed state =>
      rw [state] at soFar
      cases soFar with
      | waitForAction balances =>
          simp only [idle, List.nil_append, outputs, List.filterMap_cons_none, List.filterMap_nil,
            List.append_nil]
          exact .inl (.processBalance balances)
  | @balance amount state =>
      rw [state] at soFar
      cases soFar with
      | processBalance balances =>
          have further := Shown.waitForAction (balances ++ [amount])
          rw [inquiries_snoc] at further
          simp only [idle]
          exact .inl further
  | withdrawOk state =>
      rw [state]
      simp only [idle]
      exact .inr ⟨trivial, _, .ending (.issued _), rfl⟩
  | withdrawDenied state =>
      rw [state]
      simp only [idle]
      exact .inr ⟨trivial, _, .ending .refused, rfl⟩
  | withdrawalCancelled state =>
      rw [state]
      simp only [idle]
      exact .inr ⟨trivial, _, .ending .cancelled, rfl⟩
  | cancelPressed accepted pending =>
      simp only [idle]
      exact .inr ⟨trivial, _, .cancel accepted, rfl⟩

namespace Terminal

theorem dispatch_told {terminal : Terminal} (told : terminal.Told) (message : AtmMsg)
    (queue : List AtmMsg) (idle : terminal.atm.todo = []) :
    Told { terminal with atm := terminal.atm.dispatch message, queue := queue } := by
  rcases told with ⟨sessions, shown, valid, soFar, same⟩
  rw [idle, outputs, List.filterMap_nil, List.append_nil] at same
  rcases terminal.atm.dispatch_cases message with ⟨dropped, _⟩ | ⟨closed, _⟩ | handled
  · refine ⟨sessions, shown, valid, ?_, ?_⟩
    · simp only [dropped]
      exact soFar
    · simp only [dropped, idle, outputs, List.filterMap_nil, List.append_nil]
      exact same
  · refine ⟨sessions, shown, valid, ?_, ?_⟩
    · simp only [closed]
      exact soFar
    · simp only [closed, idle, outputs, List.filterMap_nil, List.append_nil]
      exact same
  · rcases handles_shown handled idle soFar with further | ⟨state, tail, closing, output⟩
    · refine ⟨sessions, _, valid, further, ?_⟩
      simp only [same, List.append_assoc]
    · refine ⟨sessions ++ [shown ++ tail ++ [.ejectCard]], [.displayEnterCard], ?_, ?_, ?_⟩
      · intro session member
        rcases List.mem_append.mp member with earlier | latest
        · exact valid session earlier
        · rw [List.mem_singleton.mp latest]
          exact soFar.session closing
      · simp only [state]
        exact .waitingForCard
      · simp only [same, output, List.flatten_append, List.flatten_singleton, List.append_assoc]

theorem next_told {before after : Terminal} {label : TerminalLabel} (told : before.Told)
    (taken : before.next label = some after) : after.Told := by
  cases label with
  | push message =>
      cases taken
      exact told
  | step =>
      simp only [next] at taken
      cases doing : before.atm.todo with
      | cons action todo =>
          rcases told with ⟨sessions, shown, valid, soFar, same⟩
          rw [doing] at same
          cases action with
          | bank message =>
              simp only [doing] at taken
              cases taken
              exact ⟨sessions, shown, valid, soFar, same⟩
          | interface message =>
              simp only [doing] at taken
              cases taken
              refine ⟨sessions, shown, valid, soFar, ?_⟩
              rw [← same]
              exact List.append_assoc _ _ _
      | nil =>
          cases runs : before.atm.running with
          | false => simp only [doing, runs, reduceCtorEq] at taken
          | true =>
              cases waiting : before.queue with
              | nil => simp only [doing, runs, waiting, reduceCtorEq] at taken
              | cons message queue =>
                  simp only [doing, runs, waiting, Option.some.injEq] at taken
                  rw [← taken]
                  exact dispatch_told told message queue doing

theorem start_told : start.Told :=
  ⟨[], [.displayEnterCard], fun _ member => absurd member List.not_mem_nil, .waitingForCard, rfl⟩

/-- A part of a session can be completed. -/
theorem shown_prefix {state : AtmState} {shown : List InterfaceMsg} (soFar : Shown state shown) :
    Exists fun session => Session session ∧ shown <+: session := by
  by_cases waiting : state = .waitingForCard
  · subst waiting
    cases soFar
    exact ⟨_, .card .nothing, ⟨[.displayEnterPin, .ejectCard], rfl⟩⟩
  · refine ⟨_, soFar.session (.cancel waiting), ?_⟩
    rw [List.append_nil]
    exact List.prefix_append _ _

/-- What a told machine has sent is the beginning of a sequence of sessions. -/
theorem Told.sessions {terminal : Terminal} (told : terminal.Told) :
    Exists fun sessions => (forall session, session ∈ sessions -> Session session) ∧
      terminal.sent <+: List.flatten sessions := by
  rcases told with ⟨sessions, shown, valid, soFar, same⟩
  rcases shown_prefix soFar with ⟨last, lastValid, start⟩
  refine ⟨sessions ++ [last], ?_, ?_⟩
  · intro session member
    rcases List.mem_append.mp member with earlier | latest
    · exact valid session earlier
    · rw [List.mem_singleton.mp latest]
      exact lastValid
  · have sent : terminal.sent <+: List.flatten sessions ++ shown := by
      rw [← same]
      exact List.prefix_append _ _
    rw [List.flatten_append, List.flatten_singleton]
    exact sent.trans ((List.prefix_append_right_inj _).mpr start)

/-- In any environment, what the machine sends to the interface is the
beginning of a sequence of sessions, and in each session one card is accepted
and ejected and money is issued at most once. -/
theorem run_sessions {labels : List TerminalLabel} {final : Terminal}
    (run : Run (Stepping next) start labels final) :
    Exists fun sessions => final.sent <+: List.flatten sessions ∧
      forall session, session ∈ sessions -> Session session ∧
        session.count .displayEnterPin = 1 ∧ session.count .ejectCard = 1 ∧
        session.countP InterfaceMsg.issues ≤ 1 := by
  have told : final.Told := run.invariant (fun _ _ _ held taken => next_told held taken) start_told
  rcases told.sessions with ⟨sessions, valid, sent⟩
  exact ⟨sessions, sent, fun session member => ⟨valid session member, (valid session member).counts⟩⟩

/-- A card, a PIN, a balance and a withdrawal. -/
def withdrawal : List TerminalLabel :=
  [.push (.cardInserted "acc1234"), .push (.digitPressed '1'), .push (.digitPressed '9'),
    .push (.digitPressed '3'), .push (.digitPressed '7'), .push .pinVerified,
    .push .balancePressed, .push (.balance 199), .push (.withdrawPressed 50),
    .push .withdrawOk] ++ List.replicate 22 .step

theorem run_sessions_withdrawal :
    Exists fun final : Terminal => Run (Stepping next) start withdrawal final ∧
      final.sent = [.displayEnterCard, .displayEnterPin, .displayWithdrawalOptions,
        .displayBalance 199, .displayWithdrawalOptions, .issueMoney 50, .ejectCard,
        .displayEnterCard] ∧
      Exists fun sessions => final.sent <+: List.flatten sessions ∧
        forall session, session ∈ sessions -> Session session ∧
          session.count .displayEnterPin = 1 ∧ session.count .ejectCard = 1 ∧
          session.countP InterfaceMsg.issues ≤ 1 := by
  have facts : (execute next start withdrawal).map Terminal.sent =
      some [.displayEnterCard, .displayEnterPin, .displayWithdrawalOptions, .displayBalance 199,
        .displayWithdrawalOptions, .issueMoney 50, .ejectCard, .displayEnterCard] := by
    decide +kernel
  rcases Run.of_execute_map facts with ⟨final, run, sent⟩
  exact ⟨final, run, sent, run_sessions run⟩

end Terminal

/-! ## The three threads -/

namespace System

/-- The cash machine of the system, with what the others put into its queue. -/
def terminal (s : System) : Terminal :=
  ⟨s.atm, s.atmQueue.map Envelope.message, s.sent⟩

/-- A step of the system is a step of the cash machine, a message for it, or
nothing it can see. -/
theorem moves_terminal {s t : System} {label : Label} (moves : Moves s label t) :
    t.terminal = s.terminal ∨
      Exists fun action => s.terminal.next action = some t.terminal := by
  cases moves with
  | @user message allowed =>
      refine .inr ⟨.push message, ?_⟩
      simp only [terminal, Terminal.next, List.map_append, List.map_cons, List.map_nil]
  | atmToBank doing =>
      refine .inr ⟨.step, ?_⟩
      simp only [terminal, Terminal.next, doing]
  | atmToInterface doing =>
      refine .inr ⟨.step, ?_⟩
      simp only [terminal, Terminal.next, doing]
  | atmPops doing runs waiting =>
      refine .inr ⟨.step, ?_⟩
      simp only [terminal, Terminal.next, doing, runs, waiting, List.map_cons]
  | @bankReplies message todo doing =>
      refine .inr ⟨.push message.message, ?_⟩
      simp only [terminal, Terminal.next, List.map_append, List.map_cons, List.map_nil]
  | bankDeducts doing => exact .inl rfl
  | bankPops doing runs waiting => exact .inl rfl
  | interfacePops runs waiting => exact .inl rfl
  | atmDone =>
      refine .inr ⟨.push .closeQueue, ?_⟩
      simp only [terminal, Terminal.next, List.map_append, List.map_cons, List.map_nil]
  | bankDone => exact .inl rfl
  | interfaceDone => exact .inl rfl

/-- The system of three threads follows the grammar. -/
theorem run_told {labels : List Label} {final : System}
    (run : Run (Stepping next) start labels final) : final.terminal.Told := by
  have preserved : forall before label after, before.terminal.Told ->
      Stepping next before label after -> after.terminal.Told := by
    intro before label after told taken
    rcases moves_terminal (next_moves taken) with same | ⟨action, moved⟩
    · rw [same]
      exact told
    · exact Terminal.next_told told moved
  exact Run.invariant preserved run Terminal.start_told

end System

end Atm
end ServerTech
