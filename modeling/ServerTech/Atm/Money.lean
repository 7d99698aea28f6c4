import ServerTech.Atm.Machine
import ServerTech.Foundation.Tally

namespace ServerTech
namespace Atm

open Transition

/-!
# What the cash machine hands out

`withdraw_ok` carries no amount, so the cash machine hands out the amount it
holds itself, and it takes the next `withdraw_ok` it pops for the answer to
its own request.  The bank sends `withdraw_ok` before it deducts, and its
handler of `cancel_withdrawal` is empty.

The money that was handed out and the balance are at most the initial balance
when no withdrawal is requested while an earlier one may still be granted, and
`withdraw_ok` is not popped before the deduction.
-/

/-! ## Weights of the messages -/

def InterfaceMsg.money : InterfaceMsg -> Nat
  | .issueMoney amount => amount.toNat
  | _ => 0

def Action.money : Action -> Nat
  | .interface message => message.money
  | .bank _ => 0

def BankAction.deduction : BankAction -> Nat
  | .deduct amount => amount.toNat
  | .reply _ => 0

def AtmMsg.grants : AtmMsg -> Nat
  | .withdrawOk => 1
  | _ => 0

def AtmMsg.answers : AtmMsg -> Nat
  | .withdrawOk | .withdrawDenied => 1
  | _ => 0

def BankAction.grants : BankAction -> Nat
  | .reply envelope => envelope.message.grants
  | .deduct _ => 0

def BankAction.answers : BankAction -> Nat
  | .reply envelope => envelope.message.answers
  | .deduct _ => 0

def BankMsg.requests : BankMsg -> Nat
  | .withdraw _ _ => 1
  | _ => 0

def Action.requests : Action -> Nat
  | .bank message => message.requests
  | .interface _ => 0

theorem AtmMsg.grants_le_answers (message : AtmMsg) : message.grants ≤ message.answers := by
  cases message with
  | withdrawOk => exact Nat.le_refl 1
  | _ => exact Nat.zero_le _

theorem AtmMsg.answers_of_fromUser {message : AtmMsg} (allowed : message.fromUser = true) :
    message.answers = 0 := by
  cases message with
  | withdrawOk => cases allowed
  | withdrawDenied => cases allowed
  | _ => rfl

theorem AtmMsg.grants_of_answers {message : AtmMsg} (none_ : message.answers = 0) :
    message.grants = 0 :=
  Nat.eq_zero_of_le_zero (none_ ▸ message.grants_le_answers)

def AtmMsg.isWithdrawPressed : AtmMsg -> Bool
  | .withdrawPressed _ => true
  | _ => false

def initialBalance : Nat :=
  199

namespace System

/-- The amounts of the `issue_money` messages sent so far. -/
def issued (s : System) : Nat :=
  tally InterfaceMsg.money s.sent

/-- The amounts the cash machine is about to send. -/
def issuing (s : System) : Nat :=
  tally Action.money s.atm.todo

/-- The amounts the bank is about to deduct. -/
def deducting (s : System) : Nat :=
  tally BankAction.deduction s.bank.todo

/-- The number of `withdraw_ok` on their way to the cash machine. -/
def granted (s : System) : Nat :=
  tally BankAction.grants s.bank.todo + tally (AtmMsg.grants ∘ Envelope.message) s.atmQueue

/-- The number of `withdraw` in the queue of the bank. -/
def requested (s : System) : Nat :=
  tally (BankMsg.requests ∘ Envelope.message) s.bankQueue

/-- The withdrawal requests the bank has not popped. -/
def Requests (s : System) (amount : UInt32) : Prop :=
  (Exists fun account => .bank (.withdraw account amount) ∈ s.atm.todo) ∨
    Exists fun session => Exists fun account => ⟨session, .withdraw account amount⟩ ∈ s.bankQueue

end System

/-! ## The bank -/

namespace Bank

/-- The four kinds of decisions of the bank. -/
inductive Decides (b : Bank) (request : Envelope BankMsg) : Bank -> Prop
  | granted {account : String} {amount : UInt32} :
      request.message = .withdraw account amount -> amount ≤ b.balance ->
      Decides b request { b with
        todo := [.reply ⟨request.session, .withdrawOk⟩, .deduct amount] }
  | denied {account : String} {amount : UInt32} :
      request.message = .withdraw account amount -> b.balance < amount ->
      Decides b request { b with todo := [.reply ⟨request.session, .withdrawDenied⟩] }
  | answers {reply : AtmMsg} : request.message.requests = 0 -> reply.answers = 0 ->
      Decides b request { b with todo := [.reply ⟨request.session, reply⟩] }
  | silent {running : Bool} : request.message.requests = 0 ->
      Decides b request { b with running := running }

theorem dispatch_decides (b : Bank) (request : Envelope BankMsg) :
    Decides b request (b.dispatch request) := by
  rcases request with ⟨session, message⟩
  cases message with
  | verifyPin account pin =>
      by_cases good : pin = Bank.goodPin
      · simp only [Bank.dispatch, if_pos good]
        exact .answers rfl rfl
      · simp only [Bank.dispatch, if_neg good]
        exact .answers rfl rfl
  | withdraw account amount =>
      by_cases enough : amount ≤ b.balance
      · simp only [Bank.dispatch, if_pos enough]
        exact .granted rfl enough
      · simp only [Bank.dispatch, if_neg enough]
        exact .denied rfl (UInt32.not_le.mp enough)
  | getBalance account => exact .answers rfl rfl
  | withdrawalProcessed account amount => exact @Decides.silent b _ b.running rfl
  | cancelWithdrawal account amount => exact @Decides.silent b _ b.running rfl
  | closeQueue => exact .silent rfl

/-- An answer, a deduction, or one after the other. -/
inductive Shape : List BankAction -> Prop
  | nothing : Shape []
  | reply (answer : Envelope AtmMsg) : Shape [.reply answer]
  | deduct (amount : UInt32) : Shape [.deduct amount]
  | both (answer : Envelope AtmMsg) (amount : UInt32) : Shape [.reply answer, .deduct amount]

theorem Shape.tail {action : BankAction} {todo : List BankAction} (shape : Shape (action :: todo)) :
    Shape todo := by
  cases shape with
  | reply => exact .nothing
  | deduct => exact .nothing
  | both answer amount => exact .deduct amount

theorem Shape.last {amount : UInt32} {todo : List BankAction}
    (shape : Shape (.deduct amount :: todo)) : todo = [] := by
  cases shape
  rfl

end Bank

namespace System

/-- The bank's list of things to do has the right shape, and the balance
covers the deduction in it. -/
structure Orderly (s : System) : Prop where
  covered : s.deducting ≤ s.bank.balance.toNat
  shape : Bank.Shape s.bank.todo

theorem start_orderly : start.Orderly where
  covered := Nat.zero_le _
  shape := .nothing

theorem Moves.orderly {s t : System} {label : Label} (orderly : s.Orderly)
    (move : Moves s label t) : t.Orderly := by
  rcases orderly with ⟨covered, shape⟩
  cases move with
  | bankReplies doing =>
      rw [doing] at shape
      rw [deducting, doing, tally_cons] at covered
      exact ⟨Nat.le_trans (Nat.le_add_left _ _) covered, shape.tail⟩
  | bankDeducts doing =>
      rw [doing] at shape
      have none_ := shape.last
      subst none_
      exact ⟨Nat.zero_le _, shape.tail⟩
  | @bankPops envelope queue idle runs popped =>
      have decides := s.bank.dispatch_decides envelope
      generalize s.bank.dispatch envelope = after at *
      cases decides with
      | granted asked enough =>
          refine ⟨?_, .both _ _⟩
          simpa only [deducting, tally_cons, tally_nil, BankAction.deduction, Nat.zero_add,
            Nat.add_zero] using UInt32.le_iff_toNat_le.mp enough
      | denied asked short => exact ⟨Nat.zero_le _, .reply _⟩
      | answers other none_ => exact ⟨Nat.zero_le _, .reply _⟩
      | silent other => exact ⟨covered, shape⟩
  | _ => exact ⟨covered, shape⟩

theorem deducting_of_idle {s : System} (idle : s.bank.todo = []) : s.deducting = 0 := by
  rw [deducting, idle, tally_nil]

theorem issuing_of_idle {s : System} (idle : s.atm.todo = []) : s.issuing = 0 := by
  rw [issuing, idle, tally_nil]

/-! ## Handing out no more than was deducted -/

/-- The condition on the pops of the cash machine: a withdrawal is requested
only when no earlier one can still be granted, and `withdraw_ok` is popped only
after the deduction. -/
def OneGrant (s : System) (label : Label) : Prop :=
  label = .atm ->
    (s.atm.state = .waitForAction -> s.pops.any AtmMsg.isWithdrawPressed = true ->
      s.requested = 0 ∧ s.granted = 0) ∧
    (s.atm.state = .processWithdrawal -> s.pops = some .withdrawOk -> s.deducting = 0)

instance (s : System) (label : Label) : Decidable (s.OneGrant label) :=
  inferInstanceAs (Decidable (label = .atm ->
    (s.atm.state = .waitForAction -> s.pops.any AtmMsg.isWithdrawPressed = true ->
      s.requested = 0 ∧ s.granted = 0) ∧
    (s.atm.state = .processWithdrawal -> s.pops = some .withdrawOk -> s.deducting = 0)))

/-- While a withdrawal is processed, only its own amount is requested, and once
it is granted that amount is still there. -/
structure Covered (s : System) : Prop where
  bound : s.issued + s.issuing + s.bank.balance.toNat ≤ initialBalance
  asked : s.atm.state = .processWithdrawal -> forall amount, s.Requests amount ->
    amount = s.atm.withdrawalAmount
  paid : s.atm.state = .processWithdrawal -> 0 < s.granted ->
    s.issued + s.issuing + s.bank.balance.toNat + s.atm.withdrawalAmount.toNat ≤
      initialBalance + s.deducting

theorem start_covered : start.Covered where
  bound := Nat.le_refl 199
  asked := by
    intro state
    cases state
  paid := by
    intro state
    cases state

/-- Only the bound matters when no withdrawal is processed. -/
theorem Covered.of_bound {s : System} (away : s.atm.state ≠ .processWithdrawal)
    (bound : s.issued + s.issuing + s.bank.balance.toNat ≤ initialBalance) : s.Covered where
  bound := bound
  asked := fun state => absurd state away
  paid := fun state => absurd state away

theorem not_requests_of_none {s : System} (idle : s.atm.todo = []) (none_ : s.requested = 0)
    (amount : UInt32) : ¬ s.Requests amount := by
  rintro (⟨account, sending⟩ | ⟨session, account, waiting⟩)
  · rw [idle] at sending
    cases sending
  · have one := weight_le_tally (BankMsg.requests ∘ Envelope.message) waiting
    change 1 ≤ s.requested at one
    rw [none_] at one
    exact absurd one (by decide)

theorem atmPops_covered {s : System} {envelope : Envelope AtmMsg}
    {queue : List (Envelope AtmMsg)} (covered : s.Covered) (careful : s.OneGrant .atm)
    (idle : s.atm.todo = []) (runs : s.atm.running = true)
    (popped : s.atmQueue = envelope :: queue) :
    Covered { s with atm := s.atm.dispatch envelope.message, atmQueue := queue } := by
  have pops := pops_eq idle runs popped
  have nothing := issuing_of_idle idle
  have grants : s.granted = tally BankAction.grants s.bank.todo +
      (envelope.message.grants + tally (AtmMsg.grants ∘ Envelope.message) queue) := by
    rw [granted, popped]
    rfl
  rcases careful rfl with ⟨alone, deducted⟩
  rcases covered with ⟨bound, asked, paid⟩
  rcases s.atm.dispatch_cases envelope.message with ⟨same, _⟩ | ⟨same, _⟩ | handles
  · rw [same]
    refine ⟨bound, asked, ?_⟩
    intro state more
    exact paid state (by rw [grants]; simp only [granted] at more; omega)
  · rw [same]
    refine ⟨bound, asked, ?_⟩
    intro state more
    exact paid state (by rw [grants]; simp only [granted] at more; omega)
  · generalize envelope.message = message at *
    generalize s.atm.dispatch message = after at *
    cases handles with
    | @withdrawPressed amount state =>
        have pressed : s.pops.any AtmMsg.isWithdrawPressed = true := by
          rw [pops]
          rfl
        rcases alone state pressed with ⟨unasked, ungranted⟩
        refine ⟨?_, ?_, ?_⟩
        · simp only [issued, issuing, idle, List.nil_append, tally_cons, tally_nil, Action.money]
          simp only [nothing] at bound
          exact bound
        · rintro _ other (⟨account, sending⟩ | ⟨session, account, waiting⟩)
          · simp only [idle, List.nil_append, List.mem_singleton, Action.bank.injEq,
              BankMsg.withdraw.injEq] at sending
            exact sending.2
          · exact absurd (Or.inr ⟨session, account, waiting⟩)
              (not_requests_of_none idle unasked other)
        · intro _ more
          simp only [granted] at more
          omega
    | withdrawOk state =>
        have enough := paid state (by rw [grants]; simp only [AtmMsg.grants]; omega)
        have done := deducted state pops
        refine Covered.of_bound ?_ ?_
        · intro state
          cases state
        · simp only [issued, issuing, idle, List.nil_append, List.cons_append, tally_cons,
            tally_nil, Action.money, InterfaceMsg.money]
          rw [nothing, done, issued] at enough
          omega
    | _ =>
        refine Covered.of_bound ?_ ?_
        · intro state
          cases state
        · rw [nothing] at bound
          simpa only [issued, issuing, idle, List.nil_append, List.cons_append, tally_cons,
            tally_nil, Action.money, InterfaceMsg.money] using bound

/-- A request appears only on the list of the cash machine. -/
theorem Moves.requests {s t : System} {label : Label} {amount : UInt32} (move : Moves s label t)
    (fewer : forall action, action ∈ t.atm.todo -> action ∈ s.atm.todo)
    (requests : t.Requests amount) : s.Requests amount := by
  rcases requests with ⟨account, sending⟩ | ⟨session, account, waiting⟩
  · exact Or.inl ⟨account, fewer _ sending⟩
  · cases move with
    | atmToBank doing =>
        rcases List.mem_append.mp waiting with waiting | added
        · exact Or.inr ⟨session, account, waiting⟩
        · simp only [List.mem_singleton, Envelope.mk.injEq] at added
          refine Or.inl ⟨account, ?_⟩
          rw [doing, ← added.2]
          exact List.mem_cons_self
    | bankPops idle runs popped =>
        exact Or.inr ⟨session, account, popped ▸ List.mem_cons_of_mem _ waiting⟩
    | bankDone =>
        rcases List.mem_append.mp waiting with waiting | added
        · exact Or.inr ⟨session, account, waiting⟩
        · simp only [List.mem_singleton, Envelope.mk.injEq, reduceCtorEq, and_false] at added
    | _ => exact Or.inr ⟨session, account, waiting⟩

/-- A step that moves messages along but no money, and adds no request and no
grant. -/
theorem Covered.transfer {s t : System} (covered : s.Covered) (state : t.atm.state = s.atm.state)
    (amount : t.atm.withdrawalAmount = s.atm.withdrawalAmount)
    (money : t.issued + t.issuing = s.issued + s.issuing) (balance : t.bank.balance = s.bank.balance)
    (granted : t.granted ≤ s.granted) (deducting : t.deducting = s.deducting)
    (requests : forall amount, t.Requests amount -> s.Requests amount) : t.Covered where
  bound := by
    rw [money, balance]
    exact covered.bound
  asked := by
    intro processing other wanted
    rw [state] at processing
    rw [amount]
    exact covered.asked processing other (requests other wanted)
  paid := by
    intro processing more
    rw [state] at processing
    rw [money, balance, amount, deducting]
    exact covered.paid processing (Nat.lt_of_lt_of_le more granted)

/-- The bank grants a withdrawal, which is the one that is processed. -/
theorem bankGrants_covered {s : System} {envelope : Envelope BankMsg}
    {queue : List (Envelope BankMsg)} {account : String} {amount : UInt32} (covered : s.Covered)
    (popped : s.bankQueue = envelope :: queue)
    (request : envelope.message = .withdraw account amount)
    (requests : forall other, Requests { s with
      bank := { s.bank with todo := [.reply ⟨envelope.session, .withdrawOk⟩, .deduct amount] }
      bankQueue := queue } other -> s.Requests other) :
    Covered { s with
      bank := { s.bank with todo := [.reply ⟨envelope.session, .withdrawOk⟩, .deduct amount] }
      bankQueue := queue } := by
  have bound := covered.bound
  refine ⟨bound, fun state other wanted => covered.asked state other (requests other wanted), ?_⟩
  intro state _
  have own : amount = s.atm.withdrawalAmount := by
    apply covered.asked state
    refine Or.inr ⟨envelope.session, account, ?_⟩
    rw [popped, ← request]
    exact List.mem_cons_self
  change s.issued + s.issuing + s.bank.balance.toNat + s.atm.withdrawalAmount.toNat ≤
    _ + (0 + (amount.toNat + 0))
  rw [own]
  omega

theorem bankPops_covered {s : System} {envelope : Envelope BankMsg} {queue : List (Envelope BankMsg)}
    (covered : s.Covered) (idle : s.bank.todo = []) (popped : s.bankQueue = envelope :: queue)
    (requests : forall other, Requests { s with
      bank := s.bank.dispatch envelope, bankQueue := queue } other -> s.Requests other) :
    Covered { s with bank := s.bank.dispatch envelope, bankQueue := queue } := by
  have zero := deducting_of_idle idle
  have decides := s.bank.dispatch_decides envelope
  generalize s.bank.dispatch envelope = after at *
  cases decides with
  | granted request enough => exact bankGrants_covered covered popped request requests
  | denied request short =>
      refine covered.transfer rfl rfl rfl rfl ?_ zero.symm requests
      simp only [granted, idle, tally_cons, tally_nil, BankAction.grants, AtmMsg.grants, Nat.zero_add,
        Nat.le_refl]
  | answers other none_ =>
      refine covered.transfer rfl rfl rfl rfl ?_ zero.symm requests
      simp only [granted, idle, tally_cons, tally_nil, BankAction.grants,
        AtmMsg.grants_of_answers none_, Nat.zero_add, Nat.le_refl]
  | silent other => exact covered.transfer rfl rfl rfl rfl (Nat.le_refl _) rfl requests

theorem bankDeducts_covered {s : System} {amount : UInt32} {todo : List BankAction}
    (orderly : s.Orderly) (covered : s.Covered) (doing : s.bank.todo = .deduct amount :: todo) :
    Covered { s with bank := { s.bank with balance := s.bank.balance - amount, todo := todo } } := by
  have same : s.deducting = amount.toNat + tally BankAction.deduction todo := by
    rw [deducting, doing, tally_cons, BankAction.deduction]
  have least := orderly.covered
  have lower : (s.bank.balance - amount).toNat = s.bank.balance.toNat - amount.toNat := by
    apply UInt32.toNat_sub_of_le
    rw [UInt32.le_iff_toNat_le]
    omega
  rcases covered with ⟨bound, asked, paid⟩
  refine ⟨?_, asked, ?_⟩
  · change s.issued + s.issuing + (s.bank.balance - amount).toNat ≤ _
    omega
  · intro state more
    have enough := paid state (by
      simpa only [granted, doing, tally_cons, BankAction.grants, Nat.zero_add] using more)
    change s.issued + s.issuing + (s.bank.balance - amount).toNat +
      s.atm.withdrawalAmount.toNat ≤ _ + tally BankAction.deduction todo
    omega

theorem Moves.covered {s t : System} {label : Label} (orderly : s.Orderly) (covered : s.Covered)
    (careful : s.OneGrant label) (move : Moves s label t) : t.Covered := by
  have whole := move
  cases move with
  | atmPops idle runs popped => exact atmPops_covered covered careful idle runs popped
  | bankPops idle runs popped =>
      exact bankPops_covered covered idle popped fun _ => whole.requests fun _ member => member
  | bankDeducts doing => exact bankDeducts_covered orderly covered doing
  | @user message allowed =>
      have none_ := AtmMsg.grants_of_answers (AtmMsg.answers_of_fromUser allowed)
      refine covered.transfer rfl rfl rfl rfl ?_ rfl fun _ requests => requests
      simp only [granted, tally_append, tally_cons, tally_nil, Function.comp_apply, none_,
        Nat.add_zero, Nat.le_refl]
  | @atmToBank message todo doing =>
      refine covered.transfer rfl rfl ?_ rfl (Nat.le_refl _) rfl fun _ =>
        whole.requests fun _ member => doing ▸ List.mem_cons_of_mem _ member
      simp only [issued, issuing, doing, tally_cons, Action.money, Nat.zero_add]
  | @atmToInterface message todo doing =>
      refine covered.transfer rfl rfl ?_ rfl (Nat.le_refl _) rfl fun _ =>
        whole.requests fun _ member => doing ▸ List.mem_cons_of_mem _ member
      simp only [issued, issuing, doing, tally_append, tally_cons, tally_nil, Action.money]
      omega
  | @bankReplies reply todo doing =>
      refine covered.transfer rfl rfl rfl rfl ?_ ?_ fun _ requests => requests
      · simp only [granted, doing, tally_append, tally_cons, tally_nil, Function.comp_apply,
          BankAction.grants]
        omega
      · simp only [deducting, doing, tally_cons, BankAction.deduction, Nat.zero_add]
  | interfacePops runs popped =>
      exact covered.transfer rfl rfl rfl rfl (Nat.le_refl _) rfl fun _ requests => requests
  | atmDone =>
      refine covered.transfer rfl rfl rfl rfl ?_ rfl fun _ requests => requests
      simp only [granted, tally_append, tally_cons, tally_nil, Function.comp_apply, AtmMsg.grants,
        Nat.add_zero, Nat.le_refl]
  | bankDone =>
      exact covered.transfer rfl rfl rfl rfl (Nat.le_refl _) rfl fun _ =>
        whole.requests fun _ member => member
  | interfaceDone =>
      exact covered.transfer rfl rfl rfl rfl (Nat.le_refl _) rfl fun _ requests => requests

theorem run_covered {labels : List Label} {s : System}
    (run : Run (Restrict OneGrant (Stepping next)) start labels s) : s.Orderly ∧ s.Covered := by
  apply @Run.invariant System Label _ (fun s => s.Orderly ∧ s.Covered) _ _ _ _ run
    ⟨start_orderly, start_covered⟩
  intro before label after both taken
  have move := next_moves taken.2
  exact ⟨move.orderly both.1, move.covered both.1 both.2 taken.1⟩

/-- In a run with one grant at a time, the money sent out and the balance are
at most the initial balance. -/
theorem issued_le_deducted {labels : List Label} {s : System}
    (run : Run (Restrict OneGrant (Stepping next)) start labels s) :
    s.issued + s.bank.balance.toNat ≤ start.bank.balance.toNat := by
  have bound := (run_covered run).2.bound
  change _ ≤ initialBalance
  omega

/-- Withdraw 50 and let every thread finish. -/
def withdrawLabels : List Label :=
  List.flatten [typing '1' '9' '3' '7', turns 8 .atm, turns 2 .bank,
    [.user (.withdrawPressed 50)], turns 4 .atm, turns 3 .bank, turns 5 .atm]

theorem issued_le_deducted_fifty :
    Exists fun s => Run (Restrict OneGrant (Stepping next)) start withdrawLabels s ∧
      s.issued = 50 ∧ s.issued + s.bank.balance.toNat ≤ start.bank.balance.toNat := by
  have facts : (execute (guarded OneGrant next) start withdrawLabels).map issued = some 50 := by
    decide
  rcases Run.of_guarded_map facts with ⟨s, run, fifty⟩
  exact ⟨s, run, fifty, issued_le_deducted run⟩

/-- Three sessions, each opened by the PIN of the one before.  The second is
cancelled while it withdraws 1, and the third withdraws 200. -/
def overpaidLabels : List Label :=
  List.flatten [typing '1' '9' '3' '7', [.user .cancelPressed], typing '1' '9' '3' '7',
    turns 18 .atm, turns 2 .bank, [.user (.withdrawPressed 1), .user .cancelPressed],
    typing '1' '9' '3' '7', turns 16 .atm, turns 2 .bank, turns 2 .atm,
    [.user (.withdrawPressed 200)], turns 2 .atm, turns 3 .bank, turns 5 .atm, turns 6 .bank]

/-- The third session is paid by the grant of the second one, and the bank,
which has 198 left, refuses the 200 that were handed out. -/
theorem issued_more_than_deducted :
    ¬ forall (labels : List Label) (s : System), Run (Stepping next) start labels s ->
      s.issued + s.bank.balance.toNat ≤ start.bank.balance.toNat := by
  intro claim
  have facts : (execute next start overpaidLabels).map (fun s =>
      (s.issued, s.bank.balance.toNat)) = some (200, 198) := by decide
  rcases Run.of_execute_map facts with ⟨s, run, values⟩
  rcases Prod.mk.inj values with ⟨issued, balance⟩
  have bound := claim overpaidLabels s run
  rw [issued, balance] at bound
  exact absurd bound (by decide)

end System
end Atm
end ServerTech
