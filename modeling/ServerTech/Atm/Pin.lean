import ServerTech.Atm.Machine

namespace ServerTech
namespace Atm

open Transition

/-!
# The PIN that is sent is the PIN that was typed

The members `account` and `pin` are shared by all card sessions.  The PIN is
edited by digits and deletions, while messages without a handler are dropped
and a cancellation can end the session at any length.  What was typed is read
off the messages the machine consumed, each with the state it waited in: a
session begins with the last card consumed in `waiting_for_card`, and the
messages consumed in `getting_pin` after it are replayed in order.
-/

/-! ## What was typed -/

/-- What a message does to a PIN that is being typed. -/
def AtmMsg.edit (pin : List Char) : AtmMsg -> List Char
  | .digitPressed digit => pin ++ [digit]
  | .clearLastPressed => pin.dropLast
  | _ => pin

/-- The PIN that a sequence of messages types. -/
def replay (messages : List AtmMsg) : List Char :=
  messages.foldl AtmMsg.edit []

theorem replay_snoc (messages : List AtmMsg) (message : AtmMsg) :
    replay (messages ++ [message]) = message.edit (replay messages) := by
  rw [replay, replay, List.foldl_append]
  rfl

/-- A consumed message with the state the machine waited in. -/
abbrev Consumption : Type :=
  AtmState × AtmMsg

/-- The messages consumed in `getting_pin`. -/
def inGettingPin (log : List Consumption) : List AtmMsg :=
  (log.filter fun entry => entry.1 = .gettingPin).map Prod.snd

theorem inGettingPin_snoc (log : List Consumption) (state : AtmState) (message : AtmMsg) :
    inGettingPin (log ++ [(state, message)]) =
      inGettingPin log ++ if state = .gettingPin then [message] else [] := by
  rw [inGettingPin, List.filter_append, List.map_append]
  by_cases getting : state = .gettingPin
  · simp only [List.filter_cons, getting, decide_true, if_true, List.filter_nil]
    rfl
  · simp only [List.filter_cons, getting, decide_false, Bool.false_eq_true, if_false,
      List.filter_nil]
    rfl

/-- The last card that was accepted is of `account`, and `since` has been
consumed after it. -/
def Opened (log : List Consumption) (account : String) (since : List Consumption) : Prop :=
  (Exists fun earlier => log = earlier ++ (.waitingForCard, .cardInserted account) :: since) ∧
    forall entry, entry ∈ since -> entry.1 ≠ .waitingForCard

theorem Opened.snoc {log since : List Consumption} {account : String}
    (opened : Opened log account since) {state : AtmState} (accepted : state ≠ .waitingForCard)
    (message : AtmMsg) : Opened (log ++ [(state, message)]) account (since ++ [(state, message)]) := by
  rcases opened with ⟨⟨earlier, split⟩, later⟩
  refine ⟨⟨earlier, ?_⟩, ?_⟩
  · rw [split, List.append_assoc, List.cons_append]
  · intro entry member
    rcases List.mem_append.mp member with before | last
    · exact later entry before
    · rw [List.mem_singleton.mp last]
      exact accepted

/-! ## What one message does to the members -/

namespace Machine

/-- A handler of an open session edits the PIN in `getting_pin` only, and keeps
the account. -/
theorem Handles.edits {a b : Machine} {message : AtmMsg} (handles : Handles a message b)
    (accepted : a.state ≠ .waitingForCard) :
    b.account = a.account ∧
      b.pin = if a.state = .gettingPin then message.edit a.pin else a.pin := by
  cases handles with
  | cardInserted state => exact absurd state accepted
  | digitPressed state => exact ⟨rfl, (if_pos state).symm⟩
  | pinComplete state => exact ⟨rfl, (if_pos state).symm⟩
  | clearLastPressed state => exact ⟨rfl, (if_pos state).symm⟩
  | _ => exact ⟨rfl, (ite_self _).symm⟩

/-- A message without a handler is no digit and no deletion in `getting_pin`. -/
theorem edit_dropped {a : Machine} {message : AtmMsg} (dropped : a.handle message = none) :
    (if a.state = .gettingPin then message.edit a.pin else a.pin) = a.pin := by
  by_cases getting : a.state = .gettingPin
  · rw [if_pos getting]
    unfold handle at dropped
    rw [getting] at dropped
    cases message with
    | digitPressed digit =>
        change (if (a.pin ++ [digit]).length = pinLen then _ else _) = none at dropped
        split at dropped <;> cases dropped
    | clearLastPressed => cases dropped
    | _ => rfl
  · rw [if_neg getting]

theorem dispatch_edits (a : Machine) (message : AtmMsg) (accepted : a.state ≠ .waitingForCard) :
    (a.dispatch message).account = a.account ∧
      (a.dispatch message).pin = if a.state = .gettingPin then message.edit a.pin else a.pin := by
  rcases a.dispatch_cases message with ⟨same, dropped⟩ | ⟨same, closed⟩ | handles
  · rw [same, edit_dropped dropped]
    exact ⟨rfl, rfl⟩
  · rw [same, closed]
    exact ⟨rfl, (ite_self _).symm⟩
  · exact handles.edits accepted

/-- Between two sessions only a card is accepted. -/
theorem dispatch_accepts {a : Machine} {message : AtmMsg} (waiting : a.state = .waitingForCard)
    (accepted : (a.dispatch message).state ≠ .waitingForCard) :
    Exists fun account => message = .cardInserted account ∧
      (a.dispatch message).account = account ∧ (a.dispatch message).pin = [] := by
  rcases a.dispatch_cases message with ⟨same, _⟩ | ⟨same, _⟩ | handles
  · rw [same] at accepted
    exact absurd waiting accepted
  · rw [same] at accepted
    exact absurd waiting accepted
  · generalize a.dispatch message = b at *
    cases handles with
    | @cardInserted account state => exact ⟨account, rfl, rfl, rfl⟩
    | cancelPressed state => exact absurd waiting state
    | digitPressed state | pinComplete state | clearLastPressed state | pinVerified state
    | pinIncorrect state | withdrawPressed state | balancePressed state | balance state
    | withdrawOk state | withdrawDenied state | withdrawalCancelled state =>
        rw [waiting] at state
        cases state

/-- A digit that leaves the machine in `getting_pin` does not complete the PIN. -/
theorem dispatch_short {a : Machine} {message : AtmMsg}
    (short : a.state = .gettingPin -> a.pin.length < pinLen)
    (getting : (a.dispatch message).state = .gettingPin) :
    (a.dispatch message).pin.length < pinLen := by
  rcases a.dispatch_cases message with ⟨same, _⟩ | ⟨same, _⟩ | handles
  · rw [same] at getting ⊢
    exact short getting
  · rw [same] at getting ⊢
    exact short getting
  · generalize a.dispatch message = b at *
    cases handles with
    | cardInserted state => exact Nat.succ_pos 3
    | @digitPressed digit state partial_ =>
        have before := short state
        rw [List.length_append, List.length_singleton] at partial_
        change (a.pin ++ [digit]).length < pinLen
        rw [List.length_append, List.length_singleton]
        omega
    | clearLastPressed state =>
        have before := short state
        change a.pin.dropLast.length < pinLen
        rw [List.length_dropLast]
        omega
    | _ => cases getting

/-- A machine with nothing left to send sends a PIN only when it is complete. -/
theorem dispatch_asks {a : Machine} {message : AtmMsg} {account : String} {pin : List Char}
    (idle : a.todo = []) (asks : .bank (.verifyPin account pin) ∈ (a.dispatch message).todo) :
    (a.dispatch message).state ≠ .waitingForCard ∧ account = (a.dispatch message).account ∧
      pin = (a.dispatch message).pin ∧ pin.length = pinLen := by
  rcases a.dispatch_cases message with ⟨same, _⟩ | ⟨same, _⟩ | handles
  · rw [same, idle] at asks
    cases asks
  · rw [same] at asks
    change _ ∈ a.todo at asks
    rw [idle] at asks
    cases asks
  · generalize a.dispatch message = b at *
    cases handles with
    | pinComplete state complete =>
        simp only [idle, List.nil_append, List.mem_singleton, Action.bank.injEq,
          BankMsg.verifyPin.injEq] at asks
        rcases asks with ⟨rfl, rfl⟩
        exact ⟨nofun, rfl, rfl, complete⟩
    | _ => simp [idle] at asks

end Machine

/-! ## Every run -/

namespace System

/-- What a step consumes from the queue of the cash machine. -/
def consumes (s : System) : Label -> List Consumption
  | .atm => (s.pops.map fun message => (s.atm.state, message)).toList
  | _ => []

/-- Everything that the cash machine consumes along a schedule. -/
def consumed (labels : List Label) : List Consumption :=
  history next consumes start labels

/-- The stored PIN of an open session is the one typed since its card was
accepted.  A PIN that is still to be sent is the stored one, and complete. -/
structure Typed (s : System) (log : List Consumption) : Prop where
  stored : s.atm.state ≠ .waitingForCard -> Exists fun since =>
    Opened log s.atm.account since ∧ s.atm.pin = replay (inGettingPin since)
  short : s.atm.state = .gettingPin -> s.atm.pin.length < Machine.pinLen
  asked : forall account pin, .bank (.verifyPin account pin) ∈ s.atm.todo ->
    s.atm.state ≠ .waitingForCard ∧ account = s.atm.account ∧ pin = s.atm.pin ∧
      pin.length = Machine.pinLen

theorem start_typed : start.Typed [] where
  stored := fun impossible => absurd rfl impossible
  short := nofun
  asked := by
    intro account pin asks
    cases asks with
    | tail _ impossible => cases impossible

/-- A step that consumes nothing and only sends. -/
theorem Typed.carried {s t : System} {log : List Consumption} (typed : s.Typed log)
    (state : t.atm.state = s.atm.state) (account : t.atm.account = s.atm.account)
    (pin : t.atm.pin = s.atm.pin)
    (fewer : forall action, action ∈ t.atm.todo -> action ∈ s.atm.todo) : t.Typed (log ++ []) := by
  rw [List.append_nil]
  constructor
  · rw [state, account, pin]
    exact typed.stored
  · rw [state, pin]
    exact typed.short
  · intro asker typedPin asks
    rw [state, account, pin]
    exact typed.asked asker typedPin (fewer _ asks)

/-- Consuming a message keeps the invariant. -/
theorem Typed.pops {s : System} {log : List Consumption} (typed : s.Typed log)
    {message : AtmMsg} {queue : List (Envelope AtmMsg)} (idle : s.atm.todo = []) :
    Typed { s with atm := s.atm.dispatch message, atmQueue := queue }
      (log ++ [(s.atm.state, message)]) where
  stored := by
    intro open_
    change (s.atm.dispatch message).state ≠ .waitingForCard at open_
    by_cases waiting : s.atm.state = .waitingForCard
    · rcases Machine.dispatch_accepts waiting open_ with ⟨account, rfl, sameAccount, empty⟩
      refine ⟨[], ⟨⟨log, ?_⟩, nofun⟩, empty⟩
      simp only [waiting, sameAccount]
    · rcases typed.stored waiting with ⟨since, opened, pin⟩
      rcases s.atm.dispatch_edits message waiting with ⟨account, edited⟩
      refine ⟨since ++ [(s.atm.state, message)], ?_, ?_⟩
      · simp only [account]
        exact opened.snoc waiting message
      · simp only [edited, inGettingPin_snoc]
        by_cases getting : s.atm.state = .gettingPin
        · rw [if_pos getting, if_pos getting, replay_snoc, pin]
        · rw [if_neg getting, if_neg getting, List.append_nil, pin]
  short := Machine.dispatch_short typed.short
  asked := fun _ _ asks => Machine.dispatch_asks idle asks

/-- A machine with something left to send consumes nothing. -/
theorem pops_busy {s : System} {action : Action} {todo : List Action}
    (doing : s.atm.todo = action :: todo) : s.pops = none := by
  rw [pops, doing]

theorem next_typed {s t : System} {label : Label} {log : List Consumption} (typed : s.Typed log)
    (step : s.next label = some t) : t.Typed (log ++ s.consumes label) := by
  cases next_moves step with
  | atmPops idle runs popped =>
      rw [consumes, pops_eq idle runs popped]
      exact typed.pops idle
  | atmToBank doing =>
      rw [consumes, pops_busy doing]
      exact typed.carried rfl rfl rfl fun _ member => doing ▸ List.mem_cons_of_mem _ member
  | atmToInterface doing =>
      rw [consumes, pops_busy doing]
      exact typed.carried rfl rfl rfl fun _ member => doing ▸ List.mem_cons_of_mem _ member
  | _ => exact typed.carried rfl rfl rfl fun _ member => member

theorem run_typed {labels : List Label} {s : System} (run : Run (Stepping next) start labels s) :
    s.Typed (consumed labels) :=
  run.invariant_history (fun _ _ _ _ typed step => next_typed typed step) start_typed

/-- A message gets to the bank only when the cash machine sends it, or as the
`close_queue` of `done`. -/
theorem Moves.toBank {s t : System} {label : Label} (move : Moves s label t)
    {envelope : Envelope BankMsg} (sent : t.bankQueue = s.bankQueue ++ [envelope]) :
    .bank envelope.message ∈ s.atm.todo ∨ envelope.message = .closeQueue := by
  cases move with
  | atmToBank doing =>
      rw [← (List.singleton_inj.mp (List.append_cancel_left sent)), doing]
      exact Or.inl List.mem_cons_self
  | bankDone =>
      rw [← (List.singleton_inj.mp (List.append_cancel_left sent))]
      exact Or.inr rfl
  | @bankPops popped rest idle runs queue =>
      have length : rest.length = (s.bankQueue ++ [envelope]).length := congrArg List.length sent
      rw [List.length_append, queue, List.length_cons, List.length_singleton] at length
      omega
  | _ =>
      have length := congrArg List.length sent
      rw [List.length_append, List.length_singleton] at length
      exact absurd length (Nat.ne_of_lt (Nat.lt_succ_self _))

/-- In every run, the stored PIN is shorter than four characters in
`getting_pin`.  Every `verify_pin` that a step sends carries the account of the
card that opened the current session, and four characters: those typed by the
messages consumed in `getting_pin` since that card was accepted. -/
theorem verifyPin_typed {labels : List Label} {s : System}
    (run : Run (Stepping next) start labels s) :
    (s.atm.state = .gettingPin -> s.atm.pin.length < 4) ∧
    forall label t session account pin, s.next label = some t ->
      t.bankQueue = s.bankQueue ++ [⟨session, .verifyPin account pin⟩] ->
      pin.length = 4 ∧ Exists fun since =>
        Opened (consumed labels) account since ∧ pin = replay (inGettingPin since) := by
  have typed := run_typed run
  refine ⟨typed.short, ?_⟩
  intro label t session account pin step sent
  rcases (next_moves step).toBank sent with asks | closed
  · rcases typed.asked account pin asks with ⟨open_, sameAccount, samePin, complete⟩
    rw [sameAccount, samePin]
    exact ⟨samePin ▸ complete, typed.stored open_⟩
  · cases closed

/-- The user makes a mistake and takes it back. -/
def correctedLabels : List Label :=
  List.flatten [[.user (.cardInserted "acc1234"), .user (.digitPressed '1'),
    .user (.digitPressed '5'), .user .clearLastPressed, .user .balancePressed,
    .user (.digitPressed '9'), .user (.digitPressed '3'), .user (.digitPressed '7')], turns 10 .atm]

theorem verifyPin_typed_corrected :
    Exists fun s => Run (Stepping next) start correctedLabels s ∧
      (Exists fun t => s.next .atm = some t ∧
        t.bankQueue = s.bankQueue ++ [⟨1, .verifyPin "acc1234" ['1', '9', '3', '7']⟩]) ∧
      Exists fun since => Opened (consumed correctedLabels) "acc1234" since ∧
        ['1', '9', '3', '7'] = replay (inGettingPin since) := by
  have facts : (execute next start correctedLabels).map (fun s =>
      (s.bankQueue, (s.next .atm).map fun t => t.bankQueue)) =
        some ([], some [⟨1, .verifyPin "acc1234" ['1', '9', '3', '7']⟩]) := by decide
  rcases Run.of_execute_map facts with ⟨s, run, values⟩
  rcases Prod.mk.inj values with ⟨empty, sends⟩
  rcases Option.map_eq_some_iff.mp sends with ⟨t, step, sent⟩
  have appended : t.bankQueue =
      s.bankQueue ++ [⟨1, .verifyPin "acc1234" ['1', '9', '3', '7']⟩] := by
    rw [sent, empty, List.nil_append]
  exact ⟨s, run, ⟨t, step, appended⟩, ((verifyPin_typed run).2 _ _ _ _ _ step appended).2⟩

end System
end Atm
end ServerTech
