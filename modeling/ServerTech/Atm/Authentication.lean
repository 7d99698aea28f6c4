import ServerTech.Atm.Machine

namespace ServerTech
namespace Atm

open Transition

/-!
# Which PIN opens a session

The cash machine takes the next `pin_verified` it pops while it verifies a PIN
for the answer to its own request.  A session that is cancelled before the
answer arrives leaves that answer behind, and the next session may pop it.
The machine is right as long as it does not send a PIN to the bank while an
earlier accepted PIN is still unanswered.
-/

def AtmMsg.isDigit : AtmMsg -> Bool
  | .digitPressed _ => true
  | _ => false

namespace System

/-- An accepted PIN of a session is on its way: as a request the bank will
accept, as an answer the bank is about to send, or as one in the queue of the
cash machine. -/
def Pending (s : System) (session : Nat) : Prop :=
  (Exists fun account => ⟨session, .verifyPin account Bank.goodPin⟩ ∈ s.bankQueue) ∨
    .reply ⟨session, .pinVerified⟩ ∈ s.bank.todo ∨ ⟨session, .pinVerified⟩ ∈ s.atmQueue

/-- The sessions whose accepted PINs are on their way. -/
def accepted (s : System) : List Nat :=
  s.bankQueue.filterMap (fun request => match request.message with
    | .verifyPin _ pin => if pin = Bank.goodPin then some request.session else none
    | _ => none) ++
  s.bank.todo.filterMap (fun action => match action with
    | .reply ⟨session, .pinVerified⟩ => some session
    | _ => none) ++
  s.atmQueue.filterMap (fun reply => match reply.message with
    | .pinVerified => some reply.session
    | _ => none)

theorem Pending.mem_accepted {s : System} {session : Nat} (pending : s.Pending session) :
    session ∈ s.accepted := by
  rw [accepted, List.mem_append, List.mem_append]
  rcases pending with ⟨account, asked⟩ | replying | waiting
  · exact Or.inl (Or.inl (List.mem_filterMap.mpr ⟨_, asked, if_pos rfl⟩))
  · exact Or.inl (Or.inr (List.mem_filterMap.mpr ⟨_, replying, rfl⟩))
  · exact Or.inr (List.mem_filterMap.mpr ⟨_, waiting, rfl⟩)

/-- The cash machine is about to pop the digit that completes a PIN. -/
def CompletesPin (s : System) : Prop :=
  s.atm.state = .gettingPin ∧ s.atm.pin.length + 1 = Machine.pinLen ∧
    s.pops.any AtmMsg.isDigit = true

/-- No PIN is completed while an earlier accepted PIN is unanswered. -/
def FreshPin (s : System) (label : Label) : Prop :=
  label = .atm -> s.CompletesPin -> s.accepted = []

instance (s : System) (label : Label) : Decidable (s.FreshPin label) :=
  inferInstanceAs (Decidable (label = .atm -> (s.atm.state = .gettingPin ∧
    s.atm.pin.length + 1 = Machine.pinLen ∧ s.pops.any AtmMsg.isDigit = true) ->
      s.accepted = []))

/-- While the machine verifies a PIN, every accepted PIN on its way is its
own. -/
structure Authentic (s : System) : Prop where
  own : s.atm.state = .verifingPin -> forall session, s.Pending session ->
    session = s.atm.session ∧ s.atm.pin = Bank.goodPin
  asked : s.atm.state = .verifingPin -> forall account pin,
    .bank (.verifyPin account pin) ∈ s.atm.todo -> pin = s.atm.pin

theorem start_authentic : start.Authentic where
  own := by
    intro state
    cases state
  asked := by
    intro state
    cases state

/-- The bank answers `pin_verified` only to an accepted PIN. -/
theorem reply_verified {b : Bank} {request : Envelope BankMsg} {session : Nat} (idle : b.todo = [])
    (member : .reply ⟨session, .pinVerified⟩ ∈ (b.dispatch request).todo) :
    Exists fun account => request = ⟨session, .verifyPin account Bank.goodPin⟩ := by
  rcases request with ⟨stamp, message⟩
  cases message with
  | verifyPin account pin =>
      by_cases good : pin = Bank.goodPin
      · simp only [Bank.dispatch, if_pos good, List.mem_singleton, BankAction.reply.injEq,
          Envelope.mk.injEq, and_true] at member
        exact ⟨account, by rw [good, member]⟩
      · simp only [Bank.dispatch, if_neg good, List.mem_singleton, BankAction.reply.injEq,
          Envelope.mk.injEq, reduceCtorEq, and_false] at member
  | withdraw account amount =>
      by_cases covered : amount ≤ b.balance
      · simp [Bank.dispatch, if_pos covered] at member
      · simp [Bank.dispatch, if_neg covered] at member
  | getBalance account => simp [Bank.dispatch] at member
  | withdrawalProcessed account amount => simp [Bank.dispatch, idle] at member
  | cancelWithdrawal account amount => simp [Bank.dispatch, idle] at member
  | closeQueue => simp [Bank.dispatch, idle] at member

/-- An accepted PIN gets on its way only when the cash machine sends it. -/
theorem Moves.pending {s t : System} {label : Label} (move : Moves s label t) {session : Nat}
    (pending : t.Pending session) :
    s.Pending session ∨ (session = s.atm.session ∧ Exists fun account =>
      .bank (.verifyPin account Bank.goodPin) ∈ s.atm.todo) := by
  cases move with
  | user allowed =>
      rcases pending with asked | replying | waiting
      · exact Or.inl (Or.inl asked)
      · exact Or.inl (Or.inr (Or.inl replying))
      · rcases List.mem_append.mp waiting with waiting | added
        · exact Or.inl (Or.inr (Or.inr waiting))
        · simp only [List.mem_singleton, Envelope.mk.injEq] at added
          rw [← added.2] at allowed
          cases allowed
  | atmToBank doing =>
      rcases pending with ⟨account, asked⟩ | replying | waiting
      · rcases List.mem_append.mp asked with asked | added
        · exact Or.inl (Or.inl ⟨account, asked⟩)
        · simp only [List.mem_singleton, Envelope.mk.injEq] at added
          refine Or.inr ⟨added.1, account, ?_⟩
          rw [doing, added.2]
          exact List.mem_cons_self
      · exact Or.inl (Or.inr (Or.inl replying))
      · exact Or.inl (Or.inr (Or.inr waiting))
  | atmToInterface doing => exact Or.inl pending
  | atmPops idle runs queue =>
      rcases pending with asked | replying | waiting
      · exact Or.inl (Or.inl asked)
      · exact Or.inl (Or.inr (Or.inl replying))
      · exact Or.inl (Or.inr (Or.inr (queue ▸ List.mem_cons_of_mem _ waiting)))
  | bankReplies doing =>
      rcases pending with asked | replying | waiting
      · exact Or.inl (Or.inl asked)
      · exact Or.inl (Or.inr (Or.inl (doing ▸ List.mem_cons_of_mem _ replying)))
      · rcases List.mem_append.mp waiting with waiting | added
        · exact Or.inl (Or.inr (Or.inr waiting))
        · refine Or.inl (Or.inr (Or.inl ?_))
          rw [doing, List.mem_singleton.mp added]
          exact List.mem_cons_self
  | bankDeducts doing =>
      rcases pending with asked | replying | waiting
      · exact Or.inl (Or.inl asked)
      · exact Or.inl (Or.inr (Or.inl (doing ▸ List.mem_cons_of_mem _ replying)))
      · exact Or.inl (Or.inr (Or.inr waiting))
  | bankPops idle runs queue =>
      rcases pending with ⟨account, asked⟩ | replying | waiting
      · exact Or.inl (Or.inl ⟨account, queue ▸ List.mem_cons_of_mem _ asked⟩)
      · rcases reply_verified idle replying with ⟨account, rfl⟩
        exact Or.inl (Or.inl ⟨account, queue ▸ List.mem_cons_self⟩)
      · exact Or.inl (Or.inr (Or.inr waiting))
  | interfacePops runs queue => exact Or.inl pending
  | atmDone =>
      rcases pending with asked | replying | waiting
      · exact Or.inl (Or.inl asked)
      · exact Or.inl (Or.inr (Or.inl replying))
      · rcases List.mem_append.mp waiting with waiting | added
        · exact Or.inl (Or.inr (Or.inr waiting))
        · simp only [List.mem_singleton, Envelope.mk.injEq, reduceCtorEq, and_false] at added
  | bankDone =>
      rcases pending with ⟨account, asked⟩ | replying | waiting
      · rcases List.mem_append.mp asked with asked | added
        · exact Or.inl (Or.inl ⟨account, asked⟩)
        · simp only [List.mem_singleton, Envelope.mk.injEq, reduceCtorEq, and_false] at added
      · exact Or.inl (Or.inr (Or.inl replying))
      · exact Or.inl (Or.inr (Or.inr waiting))
  | interfaceDone => exact Or.inl pending

/-- Popping a message keeps the invariant when completed PINs are fresh. -/
theorem atmPops_authentic {s : System} {envelope : Envelope AtmMsg}
    {queue : List (Envelope AtmMsg)} (authentic : s.Authentic) (fresh : s.FreshPin .atm)
    (idle : s.atm.todo = []) (runs : s.atm.running = true)
    (popped : s.atmQueue = envelope :: queue) :
    Authentic { s with atm := s.atm.dispatch envelope.message, atmQueue := queue } := by
  have earlier : forall session,
      Pending { s with atm := s.atm.dispatch envelope.message, atmQueue := queue } session ->
      s.Pending session := by
    intro session pending
    rcases Moves.pending (.atmPops idle runs popped) pending with before | ⟨_, account, sending⟩
    · exact before
    · rw [idle] at sending
      cases sending
  have kept : (s.atm.dispatch envelope.message).state = s.atm.state ->
      (s.atm.dispatch envelope.message).todo = s.atm.todo ->
      (s.atm.dispatch envelope.message).pin = s.atm.pin ->
      (s.atm.dispatch envelope.message).session = s.atm.session ->
      Authentic { s with atm := s.atm.dispatch envelope.message, atmQueue := queue } := by
    intro state todo pin session
    constructor
    · intro verifing other pending
      rcases authentic.own (state.symm.trans verifing) other (earlier other pending) with
        ⟨same, good⟩
      exact ⟨same.trans session.symm, pin.trans good⟩
    · intro _ account asked sending
      change _ ∈ (s.atm.dispatch envelope.message).todo at sending
      rw [todo, idle] at sending
      cases sending
  rcases s.atm.dispatch_cases envelope.message with ⟨same, _⟩ | ⟨same, _⟩ | handles
  · exact kept (by rw [same]) (by rw [same]) (by rw [same]) (by rw [same])
  · exact kept (by rw [same]) (by rw [same]) (by rw [same]) (by rw [same])
  · generalize pop : envelope.message = message at *
    generalize outcome : s.atm.dispatch message = after at *
    cases handles with
    | @pinComplete digit state complete =>
        rw [List.length_append, List.length_singleton] at complete
        have digits : s.pops.any AtmMsg.isDigit = true := by
          rw [pops_eq idle runs popped, pop]
          rfl
        have none_ := fresh rfl ⟨state, complete, digits⟩
        constructor
        · intro _ session pending
          have member := (earlier session pending).mem_accepted
          rw [none_] at member
          cases member
        · intro _ account pin sending
          change _ ∈ s.atm.todo ++ _ at sending
          rw [idle, List.nil_append, List.mem_singleton] at sending
          cases sending
          rfl
    | _ =>
        constructor
        · intro state
          cases state
        · intro state
          cases state

/-- Every step keeps the invariant when completed PINs are fresh. -/
theorem Moves.authentic {s t : System} {label : Label} (authentic : s.Authentic)
    (fresh : s.FreshPin label) (move : Moves s label t) : t.Authentic := by
  have carried : t.atm.state = s.atm.state -> t.atm.pin = s.atm.pin ->
      t.atm.session = s.atm.session ->
      (forall action, action ∈ t.atm.todo -> action ∈ s.atm.todo) -> t.Authentic := by
    intro state pin session fewer
    constructor
    · intro verifing other pending
      rw [pin, session]
      have before := state.symm.trans verifing
      rcases move.pending pending with old | ⟨own, account, sending⟩
      · exact authentic.own before other old
      · exact ⟨own, (authentic.asked before account _ sending).symm⟩
    · intro verifing account asked sending
      rw [pin]
      exact authentic.asked (state.symm.trans verifing) account asked (fewer _ sending)
  cases move with
  | atmPops idle runs popped => exact atmPops_authentic authentic fresh idle runs popped
  | atmToBank doing =>
      exact carried rfl rfl rfl fun _ member => doing ▸ List.mem_cons_of_mem _ member
  | atmToInterface doing =>
      exact carried rfl rfl rfl fun _ member => doing ▸ List.mem_cons_of_mem _ member
  | _ => exact carried rfl rfl rfl fun _ member => member

theorem run_authentic {labels : List Label} {s : System}
    (run : Run (Restrict FreshPin (Stepping next)) start labels s) : s.Authentic := by
  apply @Run.invariant System Label _ Authentic _ _ _ _ run start_authentic
  intro before label after authentic taken
  exact Moves.authentic authentic taken.1 (next_moves taken.2)

/-- In a run with fresh PINs, the cash machine opens a session only on the
bank's answer to the PIN of that session, and that PIN is the good one. -/
theorem session_opened_by_own_pin {labels : List Label} {s t : System}
    (run : Run (Restrict FreshPin (Stepping next)) start labels s) (step : s.next .atm = some t)
    (verifing : s.atm.state = .verifingPin) (opened : t.atm.state = .waitForAction) :
    Exists fun envelope => Exists fun queue => s.atmQueue = envelope :: queue ∧
      envelope.message = .pinVerified ∧ envelope.session = s.atm.session ∧
      s.atm.pin = Bank.goodPin := by
  have authentic := run_authentic run
  cases next_moves step with
  | atmToBank doing =>
      change s.atm.state = _ at opened
      rw [verifing] at opened
      cases opened
  | atmToInterface doing =>
      change s.atm.state = _ at opened
      rw [verifing] at opened
      cases opened
  | @atmPops envelope queue idle runs popped =>
      change (s.atm.dispatch envelope.message).state = _ at opened
      have verified : envelope.message = .pinVerified := by
        rcases s.atm.dispatch_cases envelope.message with ⟨same, _⟩ | ⟨same, _⟩ | handles
        · rw [same, verifing] at opened
          cases opened
        · rw [same] at opened
          change s.atm.state = _ at opened
          rw [verifing] at opened
          cases opened
        · generalize envelope.message = message at *
          generalize s.atm.dispatch message = after at *
          cases handles with
          | pinVerified state => rfl
          | balance state =>
              rw [verifing] at state
              cases state
          | _ => cases opened
      refine ⟨envelope, queue, popped, verified, ?_⟩
      apply authentic.own verifing
      refine Or.inr (Or.inr ?_)
      rw [popped, ← verified]
      exact List.mem_cons_self

/-- A session with the good PIN, up to the answer in the queue. -/
def goodLabels : List Label :=
  List.flatten [typing '1' '9' '3' '7', turns 8 .atm, turns 2 .bank]

theorem session_opened_by_own_pin_good :
    Exists fun s => Run (Restrict FreshPin (Stepping next)) start goodLabels s ∧
      Exists fun envelope => Exists fun queue => s.atmQueue = envelope :: queue ∧
        envelope.message = .pinVerified ∧ envelope.session = s.atm.session ∧
        s.atm.pin = Bank.goodPin := by
  have facts : (execute (guarded FreshPin next) start goodLabels).map (fun s =>
      (s.atm.state, (s.next .atm).map fun t => t.atm.state)) =
        some (.verifingPin, some .waitForAction) := by decide
  rcases Run.of_guarded_map facts with ⟨s, run, values⟩
  rcases Prod.mk.inj values with ⟨verifing, opens⟩
  rcases Option.map_eq_some_iff.mp opens with ⟨t, step, opened⟩
  exact ⟨s, run, session_opened_by_own_pin run step verifing opened⟩

/-- A first session with the good PIN is cancelled before its answer arrives,
and a second one with a wrong PIN is typed. -/
def staleLabels : List Label :=
  List.flatten [typing '1' '9' '3' '7', [.user .cancelPressed], typing '0' '0' '0' '0',
    turns 18 .atm, turns 2 .bank]

/-- The second session is opened by the answer to the first one. -/
theorem session_opened_by_stale_pin :
    ¬ forall (labels : List Label) (s t : System), Run (Stepping next) start labels s ->
      s.next .atm = some t -> s.atm.state = .verifingPin -> t.atm.state = .waitForAction ->
      Exists fun envelope => Exists fun queue => s.atmQueue = envelope :: queue ∧
        envelope.message = .pinVerified ∧ envelope.session = s.atm.session ∧
        s.atm.pin = Bank.goodPin := by
  intro claim
  have facts : (execute next start staleLabels).map (fun s =>
      ((s.atm.state, (s.next .atm).map fun t => t.atm.state), s.atm.pin)) =
        some ((.verifingPin, some .waitForAction), ['0', '0', '0', '0']) := by decide
  rcases Run.of_execute_map facts with ⟨s, run, values⟩
  rcases Prod.mk.inj values with ⟨states, pin⟩
  rcases Prod.mk.inj states with ⟨verifing, opens⟩
  rcases Option.map_eq_some_iff.mp opens with ⟨t, step, opened⟩
  rcases claim staleLabels s t run step verifing opened with ⟨_, _, _, _, _, good⟩
  rw [pin] at good
  exact absurd good (by decide)

end System
end Atm
end ServerTech
