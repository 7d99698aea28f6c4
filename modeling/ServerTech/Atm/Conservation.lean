import ServerTech.Atm.Money

namespace ServerTech
namespace Atm

open Transition

/-!
# Withdrawals that are all or nothing

When everything has come to rest, the money handed out and the balance should
be the initial balance.  The bank's handler of `cancel_withdrawal` is empty, so
a withdrawal that is cancelled after the bank granted it, or before it grants
it, is deducted and never handed out.

The accounts balance in a run in which a withdrawal is requested only when no
earlier one is unanswered, and is cancelled only when nothing is lost: the
amount is zero, or the bank refused it, or it exceeds what is left.
-/

/-- A handler that neither starts nor ends a withdrawal requests nothing and
hands out nothing. -/
theorem Machine.Handles.quiet {a b : Machine} {message : AtmMsg} (handles : Handles a message b)
    (before : a.state ≠ .processWithdrawal) (after : b.state ≠ .processWithdrawal) :
    Exists fun added => b.todo = a.todo ++ added ∧ tally Action.money added = 0 ∧
      tally Action.requests added = 0 := by
  cases handles with
  | cardInserted state => exact ⟨_, rfl, rfl, rfl⟩
  | digitPressed state short => exact ⟨[], (List.append_nil _).symm, rfl, rfl⟩
  | pinComplete state complete => exact ⟨_, rfl, rfl, rfl⟩
  | clearLastPressed state => exact ⟨[], (List.append_nil _).symm, rfl, rfl⟩
  | pinVerified state => exact ⟨_, rfl, rfl, rfl⟩
  | pinIncorrect state => exact ⟨_, List.append_assoc _ _ _, rfl, rfl⟩
  | withdrawPressed state => exact absurd rfl after
  | balancePressed state => exact ⟨_, rfl, rfl, rfl⟩
  | balance state => exact ⟨_, List.append_assoc _ _ _, rfl, rfl⟩
  | withdrawOk state => exact absurd state before
  | withdrawDenied state => exact absurd state before
  | withdrawalCancelled state => exact absurd state before
  | cancelPressed card processing => exact ⟨_, rfl, rfl, rfl⟩

namespace System

/-- The number of answers to a `withdraw` on their way. -/
def answered (s : System) : Nat :=
  tally BankAction.answers s.bank.todo + tally (AtmMsg.answers ∘ Envelope.message) s.atmQueue

/-- The number of `withdraw` the cash machine is about to send. -/
def sending (s : System) : Nat :=
  tally Action.requests s.atm.todo

/-- What the cash machine will hand out for a grant on its way. -/
def owed (s : System) : Nat :=
  if s.atm.state = .processWithdrawal ∧ 0 < s.granted then s.atm.withdrawalAmount.toNat else 0

/-- A `withdrawal_processed` on its way to the bank. -/
def Processed (s : System) : Prop :=
  (Exists fun account => Exists fun amount =>
      .bank (.withdrawalProcessed account amount) ∈ s.atm.todo) ∨
    Exists fun session => Exists fun account => Exists fun amount =>
      ⟨session, .withdrawalProcessed account amount⟩ ∈ s.bankQueue

/-- The condition on the pops of the cash machine. -/
def OneRequest (s : System) (label : Label) : Prop :=
  label = .atm ->
    (s.atm.state = .waitForAction -> s.pops.any AtmMsg.isWithdrawPressed = true ->
      s.requested = 0 ∧ s.answered = 0) ∧
    (s.atm.state = .processWithdrawal -> s.pops = some .cancelPressed ->
      s.atm.withdrawalAmount = 0 ∨ (s.granted = 0 ∧ (s.requested = 0 ∨
        s.bank.balance.toNat < s.atm.withdrawalAmount.toNat + s.deducting)))

instance (s : System) (label : Label) : Decidable (s.OneRequest label) :=
  inferInstanceAs (Decidable (label = .atm ->
    (s.atm.state = .waitForAction -> s.pops.any AtmMsg.isWithdrawPressed = true ->
      s.requested = 0 ∧ s.answered = 0) ∧
    (s.atm.state = .processWithdrawal -> s.pops = some .cancelPressed ->
      s.atm.withdrawalAmount = 0 ∨ (s.granted = 0 ∧ (s.requested = 0 ∨
        s.bank.balance.toNat < s.atm.withdrawalAmount.toNat + s.deducting)))))

/-- At most one withdrawal is on its way, the accounts balance when the grant
on its way is counted as owed, and a withdrawal nobody waits for is refused. -/
structure Balanced (s : System) : Prop where
  single : s.sending + s.requested + s.answered ≤ 1
  asked : s.atm.state = .processWithdrawal -> forall amount, s.Requests amount ->
    amount = s.atm.withdrawalAmount
  balanced : s.issued + s.issuing + s.bank.balance.toNat + s.owed = initialBalance + s.deducting
  refused : s.atm.state ≠ .processWithdrawal -> forall amount, s.Requests amount ->
    amount = 0 ∨ s.bank.balance.toNat < amount.toNat + s.deducting
  settled : 0 < s.deducting -> s.Processed ∨ (s.atm.state = .processWithdrawal ∧
    0 < s.granted ∧ s.deducting = s.atm.withdrawalAmount.toNat)

theorem start_balanced : start.Balanced where
  single := Nat.zero_le 1
  asked := by
    intro state
    cases state
  balanced := rfl
  refused := by
    rintro _ amount (⟨account, sending⟩ | ⟨session, account, waiting⟩)
    · cases List.mem_singleton.mp sending
    · cases waiting
  settled := by
    intro more
    exact absurd more (Nat.lt_irrefl 0)

theorem granted_le_answered (s : System) : s.granted ≤ s.answered := by
  apply Nat.add_le_add
  · apply tally_le_tally
    intro action
    cases action with
    | reply envelope => exact envelope.message.grants_le_answers
    | deduct amount => exact Nat.le_refl 0
  · exact tally_le_tally (fun envelope => envelope.message.grants_le_answers) _

theorem owed_of_away {s : System} (away : s.atm.state ≠ .processWithdrawal) : s.owed = 0 :=
  if_neg fun both => away both.1

theorem owed_of_none {s : System} (none_ : s.granted = 0) : s.owed = 0 :=
  if_neg fun both => Nat.ne_of_gt both.2 none_

theorem owed_of_granted {s : System} (state : s.atm.state = .processWithdrawal)
    (some_ : 0 < s.granted) : s.owed = s.atm.withdrawalAmount.toNat :=
  if_pos ⟨state, some_⟩

theorem requested_pos {s : System} {amount : UInt32} (idle : s.atm.todo = [])
    (requests : s.Requests amount) : 0 < s.requested := by
  apply Nat.pos_of_ne_zero
  intro none_
  exact not_requests_of_none idle none_ amount requests

/-- A step that moves messages along and pays what was promised. -/
theorem Balanced.transfer {s t : System} (balanced : s.Balanced)
    (state : t.atm.state = s.atm.state)
    (amount : t.atm.withdrawalAmount = s.atm.withdrawalAmount)
    (fewer : t.sending + t.requested + t.answered ≤ s.sending + s.requested + s.answered)
    (granted : t.granted = s.granted)
    (money : t.issued + t.issuing = s.issued + s.issuing)
    (balance : t.bank.balance = s.bank.balance) (deducting : t.deducting = s.deducting)
    (requests : forall amount, t.Requests amount -> s.Requests amount)
    (processed : 0 < t.deducting -> s.Processed -> t.Processed) : t.Balanced where
  single := Nat.le_trans fewer balanced.single
  asked := by
    intro processing other asked
    rw [amount]
    exact balanced.asked (state.symm.trans processing) other (requests other asked)
  balanced := by
    have same : t.owed = s.owed := by rw [owed, owed, state, granted, amount]
    rw [money, balance, same, deducting]
    exact balanced.balanced
  refused := by
    intro away other asked
    rw [balance, deducting]
    exact balanced.refused (state ▸ away) other (requests other asked)
  settled := by
    intro more
    rw [state, granted, deducting, amount]
    rcases balanced.settled (deducting ▸ more) with sent | promised
    · exact Or.inl (processed more sent)
    · exact Or.inr promised

/-- What the invariant asks for when no withdrawal is processed. -/
theorem Balanced.of_away {s : System} (away : s.atm.state ≠ .processWithdrawal)
    (single : s.sending + s.requested + s.answered ≤ 1)
    (balanced : s.issued + s.issuing + s.bank.balance.toNat = initialBalance + s.deducting)
    (refused : forall amount, s.Requests amount ->
      amount = 0 ∨ s.bank.balance.toNat < amount.toNat + s.deducting)
    (settled : 0 < s.deducting -> s.Processed) : s.Balanced where
  single := single
  asked := fun processing => absurd processing away
  balanced := by
    rw [owed_of_away away]
    exact balanced
  refused := fun _ => refused
  settled := fun more => Or.inl (settled more)

section Pops

variable {s : System} {envelope : Envelope AtmMsg} {queue : List (Envelope AtmMsg)}

/-- The weights of the answers before a message is popped. -/
theorem answers_popped (popped : s.atmQueue = envelope :: queue) (after : Machine) :
    s.granted = envelope.message.grants + granted { s with atm := after, atmQueue := queue } ∧
      s.answered =
        envelope.message.answers + answered { s with atm := after, atmQueue := queue } := by
  simp only [granted, answered, popped, tally_cons, Function.comp_apply]
  omega

/-- After a pop the requests are those in the queue of the bank and those just
put on the list. -/
theorem requests_popped {after : Machine} {amount : UInt32} (none_ : tally Action.requests after.todo = 0)
    (requests : Requests { s with atm := after, atmQueue := queue } amount) : s.Requests amount := by
  rcases requests with ⟨account, sending⟩ | waiting
  · have one := weight_le_tally Action.requests sending
    change 1 ≤ tally Action.requests after.todo at one
    rw [none_] at one
    exact absurd one (by decide)
  · exact Or.inr waiting

theorem processed_popped (idle : s.atm.todo = []) (after : Machine) (processed : s.Processed) :
    Processed { s with atm := after, atmQueue := queue } := by
  rcases processed with ⟨account, amount, sending⟩ | waiting
  · rw [idle] at sending
    cases sending
  · exact Or.inr waiting

/-- A handler that ends a withdrawal, or runs outside of one. -/
theorem Balanced.pops_away (balanced : s.Balanced) (idle : s.atm.todo = [])
    (popped : s.atmQueue = envelope :: queue) {after : Machine} {paid : Nat}
    (away : after.state ≠ .processWithdrawal) (quiet : tally Action.requests after.todo = 0)
    (money : tally Action.money after.todo = paid) (due : s.owed = paid)
    (refused : forall amount, s.Requests amount ->
      amount = 0 ∨ s.bank.balance.toNat < amount.toNat + s.deducting)
    (settled : 0 < s.deducting -> Processed { s with atm := after, atmQueue := queue }) :
    Balanced { s with atm := after, atmQueue := queue } := by
  have nothing := issuing_of_idle idle
  have answers := (answers_popped popped after).2
  have single := balanced.single
  have law := balanced.balanced
  refine Balanced.of_away away ?_ ?_ ?_ settled
  · change tally Action.requests after.todo + s.requested + _ ≤ 1
    omega
  · change s.issued + tally Action.money after.todo + s.bank.balance.toNat = _ + s.deducting
    omega
  · intro amount requests
    exact refused amount (requests_popped quiet requests)

/-- A dropped message that is no answer, or one dropped outside of a
withdrawal. -/
theorem Balanced.pops_kept (balanced : s.Balanced) (idle : s.atm.todo = [])
    (popped : s.atmQueue = envelope :: queue) {after : Machine}
    (state : after.state = s.atm.state) (todo : after.todo = s.atm.todo)
    (amount : after.withdrawalAmount = s.atm.withdrawalAmount)
    (other : s.atm.state = .processWithdrawal -> envelope.message.answers = 0) :
    Balanced { s with atm := after, atmQueue := queue } := by
  have nothing := issuing_of_idle idle
  have quiet : tally Action.requests after.todo = 0 := by rw [todo, idle, tally_nil]
  have money : tally Action.money after.todo = 0 := by rw [todo, idle, tally_nil]
  by_cases processing : s.atm.state = .processWithdrawal
  · have none_ := other processing
    have weights := answers_popped popped after
    rw [AtmMsg.grants_of_answers none_, none_] at weights
    apply balanced.transfer state amount
    · change tally Action.requests after.todo + s.requested + _ ≤ _
      omega
    · omega
    · change s.issued + tally Action.money after.todo = _
      omega
    · rfl
    · rfl
    · intro amount requests
      exact requests_popped quiet requests
    · intro _ processed
      exact processed_popped idle after processed
  · apply balanced.pops_away idle popped (state ▸ processing) quiet money
      (owed_of_away processing) (balanced.refused processing)
    intro more
    rcases balanced.settled more with processed | ⟨contrary, _⟩
    · exact processed_popped idle after processed
    · exact absurd contrary processing

/-- In a withdrawal, a message without a handler is no answer. -/
theorem answers_of_dropped (processing : s.atm.state = .processWithdrawal) {message : AtmMsg}
    (dropped : s.atm.handle message = none) : message.answers = 0 := by
  rw [Machine.handle, processing] at dropped
  cases message with
  | withdrawOk => cases dropped
  | withdrawDenied => cases dropped
  | _ => rfl

/-- The three handlers of `process_withdrawal`. -/
theorem processing_balanced (balanced : s.Balanced) (careful : s.OneRequest .atm)
    (idle : s.atm.todo = []) (runs : s.atm.running = true)
    (popped : s.atmQueue = envelope :: queue) (processing : s.atm.state = .processWithdrawal)
    {after : Machine} (handles : Machine.Handles s.atm envelope.message after) :
    Balanced { s with atm := after, atmQueue := queue } := by
  have pops := pops_eq idle runs popped
  have single := balanced.single
  have few := s.granted_le_answered
  have fewAfter := granted_le_answered { s with atm := after, atmQueue := queue }
  have weights := answers_popped popped after
  have lossless := (careful rfl).2 processing
  generalize envelope.message = message at *
  have unrequested : message.answers = 1 -> forall amount, ¬ s.Requests amount := by
    intro one amount requests
    have some_ := requested_pos idle requests
    omega
  cases handles with
  | withdrawOk state =>
      have some_ : 0 < s.granted := by
        rw [weights.1]
        exact Nat.lt_of_lt_of_le Nat.one_pos (Nat.le_add_right _ _)
      refine balanced.pops_away idle popped (fun contrary => AtmState.noConfusion contrary) ?_ ?_
        (owed_of_granted processing some_)
        (fun amount requests => absurd requests (unrequested rfl amount)) ?_
      · simp only [idle, List.nil_append]
        rfl
      · simp only [idle, List.nil_append]
        rfl
      · intro _
        refine Or.inl ⟨s.atm.account, s.atm.withdrawalAmount, ?_⟩
        simp only [idle, List.nil_append, List.cons_append, List.mem_cons, true_or, or_true]
  | withdrawDenied state =>
      have none_ : s.granted = 0 := by
        simp only [AtmMsg.grants, AtmMsg.answers] at weights
        omega
      refine balanced.pops_away idle popped (fun contrary => AtmState.noConfusion contrary) ?_ ?_
        (owed_of_none none_) (fun amount requests => absurd requests (unrequested rfl amount)) ?_
      · simp only [idle, List.nil_append]
        rfl
      · simp only [idle, List.nil_append]
        rfl
      · intro more
        rcases balanced.settled more with processed | ⟨_, contrary, _⟩
        · exact processed_popped idle _ processed
        · omega
  | withdrawalCancelled state =>
      have safe := lossless pops
      have zero : s.owed = 0 := by
        rcases safe with nothing | ⟨none_, _⟩
        · rw [owed, nothing]
          split <;> rfl
        · exact owed_of_none none_
      refine balanced.pops_away idle popped (fun contrary => AtmState.noConfusion contrary) ?_ ?_
        zero ?_ ?_
      · simp only [idle, List.nil_append]
        rfl
      · simp only [idle, List.nil_append]
        rfl
      · intro amount requests
        have some_ := requested_pos idle requests
        have own := balanced.asked processing amount requests
        subst own
        rcases safe with nothing | ⟨_, unasked | short⟩
        · exact Or.inl nothing
        · omega
        · exact Or.inr short
      · intro more
        rcases balanced.settled more with processed | ⟨_, contrary, same⟩
        · exact processed_popped idle _ processed
        · rcases safe with nothing | ⟨none_, _⟩
          · rw [nothing] at same
            change s.deducting = 0 at same
            omega
          · omega
  | cancelPressed card contrary => exact absurd processing contrary
  | cardInserted state => exact absurd (processing.symm.trans state) AtmState.noConfusion
  | digitPressed state => exact absurd (processing.symm.trans state) AtmState.noConfusion
  | pinComplete state => exact absurd (processing.symm.trans state) AtmState.noConfusion
  | clearLastPressed state => exact absurd (processing.symm.trans state) AtmState.noConfusion
  | pinVerified state => exact absurd (processing.symm.trans state) AtmState.noConfusion
  | pinIncorrect state => exact absurd (processing.symm.trans state) AtmState.noConfusion
  | withdrawPressed state => exact absurd (processing.symm.trans state) AtmState.noConfusion
  | balancePressed state => exact absurd (processing.symm.trans state) AtmState.noConfusion
  | balance state => exact absurd (processing.symm.trans state) AtmState.noConfusion

/-- The handler that starts a withdrawal. -/
theorem pressed_balanced (balanced : s.Balanced) (idle : s.atm.todo = [])
    (popped : s.atmQueue = envelope :: queue) {after : Machine} {account : String}
    (before : s.atm.state ≠ .processWithdrawal) (state : after.state = .processWithdrawal)
    (todo : after.todo = [.bank (.withdraw account after.withdrawalAmount)])
    (unasked : s.requested = 0) (unanswered : s.answered = 0) :
    Balanced { s with atm := after, atmQueue := queue } := by
  have few := s.granted_le_answered
  have weights := answers_popped popped after
  have nothing := issuing_of_idle idle
  have ungranted : granted { s with atm := after, atmQueue := queue } = 0 := by omega
  constructor
  · change tally Action.requests after.todo + s.requested + _ ≤ 1
    rw [todo]
    change 1 + 0 + s.requested + _ ≤ 1
    omega
  · rintro _ amount (⟨other, sending⟩ | waiting)
    · simp only [todo, List.mem_singleton, Action.bank.injEq, BankMsg.withdraw.injEq] at sending
      exact sending.2
    · exact absurd (Or.inr waiting) (not_requests_of_none idle unasked amount)
  · have law := balanced.balanced
    rw [owed_of_away before] at law
    rw [owed_of_none ungranted]
    change s.issued + tally Action.money after.todo + s.bank.balance.toNat + 0 = _ + s.deducting
    rw [todo]
    change s.issued + 0 + s.bank.balance.toNat + 0 = _
    omega
  · intro away
    exact absurd state away
  · intro more
    rcases balanced.settled more with processed | ⟨contrary, _⟩
    · exact Or.inl (processed_popped idle after processed)
    · exact absurd contrary before

theorem atmPops_balanced (balanced : s.Balanced) (careful : s.OneRequest .atm)
    (idle : s.atm.todo = []) (runs : s.atm.running = true)
    (popped : s.atmQueue = envelope :: queue) :
    Balanced { s with atm := s.atm.dispatch envelope.message, atmQueue := queue } := by
  rcases s.atm.dispatch_cases envelope.message with ⟨same, dropped⟩ | ⟨same, closes⟩ | handles
  · exact balanced.pops_kept idle popped (by rw [same]) (by rw [same]) (by rw [same])
      fun processing => answers_of_dropped processing dropped
  · exact balanced.pops_kept idle popped (by rw [same]) (by rw [same]) (by rw [same])
      fun _ => by rw [closes]; rfl
  · by_cases processing : s.atm.state = .processWithdrawal
    · exact processing_balanced balanced careful idle runs popped processing handles
    · have pops := pops_eq idle runs popped
      have alone := (careful rfl).1
      generalize s.atm.dispatch envelope.message = after at *
      by_cases entering : after.state = .processWithdrawal
      · generalize envelope.message = message at *
        cases handles with
        | @withdrawPressed amount state =>
            have pressed : s.pops.any AtmMsg.isWithdrawPressed = true := by
              rw [pops]
              rfl
            rcases alone state pressed with ⟨unasked, unanswered⟩
            have todo : s.atm.todo ++ [.bank (.withdraw s.atm.account amount)] =
                [.bank (.withdraw s.atm.account amount)] := by rw [idle, List.nil_append]
            exact pressed_balanced balanced idle popped processing rfl todo unasked unanswered
        | _ => cases entering
      · rcases handles.quiet processing entering with ⟨added, todo, money, requests⟩
        rw [idle, List.nil_append] at todo
        apply balanced.pops_away idle popped entering (by rw [todo, requests])
          (by rw [todo, money]) (owed_of_away processing) (balanced.refused processing)
        intro more
        rcases balanced.settled more with processed | ⟨contrary, _⟩
        · exact processed_popped idle after processed
        · exact absurd contrary processing

end Pops

/-- The bank grants the withdrawal: either the cash machine waits for it, or
nothing is deducted. -/
theorem bankGrants_balanced {s : System} {envelope : Envelope BankMsg}
    {queue : List (Envelope BankMsg)} {account : String} {amount : UInt32} (balanced : s.Balanced)
    (idle : s.bank.todo = []) (popped : s.bankQueue = envelope :: queue)
    (request : envelope.message = .withdraw account amount) (enough : amount ≤ s.bank.balance)
    {after : Bank} (balance : after.balance = s.bank.balance)
    (todo : after.todo = [.reply ⟨envelope.session, .withdrawOk⟩, .deduct amount])
    (requests : forall other, Requests { s with bank := after, bankQueue := queue } other ->
      s.Requests other) :
    Balanced { s with bank := after, bankQueue := queue } := by
  have zero := deducting_of_idle idle
  have few := s.granted_le_answered
  have single := balanced.single
  have law := balanced.balanced
  have asked : s.requested = 1 + tally (BankMsg.requests ∘ Envelope.message) queue := by
    rw [requested, popped, tally_cons, Function.comp_apply, request]
    rfl
  have head : s.Requests amount := by
    refine Or.inr ⟨envelope.session, account, ?_⟩
    rw [popped, ← request]
    exact List.mem_cons_self
  have deducts : deducting { s with bank := after, bankQueue := queue } = amount.toNat := by
    simp only [deducting, todo, tally_cons, tally_nil, BankAction.deduction, Nat.zero_add,
      Nat.add_zero]
  have grants : granted { s with bank := after, bankQueue := queue } = 1 + s.granted := by
    simp only [granted, todo, idle, tally_cons, tally_nil, BankAction.grants, AtmMsg.grants,
      Nat.zero_add]
  have answers : answered { s with bank := after, bankQueue := queue } = 1 + s.answered := by
    simp only [answered, todo, idle, tally_cons, tally_nil, BankAction.answers, AtmMsg.answers,
      Nat.zero_add]
  have one : sending { s with bank := after, bankQueue := queue } +
      requested { s with bank := after, bankQueue := queue } +
      answered { s with bank := after, bankQueue := queue } ≤ 1 := by
    rw [answers]
    change s.sending + tally (BankMsg.requests ∘ Envelope.message) queue + _ ≤ 1
    omega
  have before : s.owed = 0 := owed_of_none (by omega)
  by_cases processing : s.atm.state = .processWithdrawal
  · have own := balanced.asked processing amount head
    have due : owed { s with bank := after, bankQueue := queue } = amount.toNat := by
      rw [own]
      exact owed_of_granted processing (by omega)
    refine ⟨one, ?_, ?_, fun away => absurd processing away, ?_⟩
    · exact fun _ other wanted => balanced.asked processing other (requests other wanted)
    · rw [due, deducts]
      change s.issued + s.issuing + after.balance.toNat + _ = _
      rw [balance]
      omega
    · intro _
      exact Or.inr ⟨processing, by omega, by rw [deducts, own]⟩
  · have nothing : amount.toNat = 0 := by
      rcases balanced.refused processing amount head with none_ | short
      · rw [none_]
        rfl
      · have covered := UInt32.le_iff_toNat_le.mp enough
        omega
    refine Balanced.of_away processing one ?_ ?_ ?_
    · rw [deducts]
      change s.issued + s.issuing + after.balance.toNat = _
      rw [balance]
      omega
    · intro other wanted
      rw [deducts, nothing, ← zero]
      change _ ∨ after.balance.toNat < _
      rw [balance]
      exact balanced.refused processing other (requests other wanted)
    · intro more
      omega

/-- Any other answer of the bank. -/
theorem bankAnswers_balanced {s : System} {envelope : Envelope BankMsg}
    {queue : List (Envelope BankMsg)} (balanced : s.Balanced) (idle : s.bank.todo = [])
    (popped : s.bankQueue = envelope :: queue) {after : Bank}
    (balance : after.balance = s.bank.balance)
    (deducts : tally BankAction.deduction after.todo = 0)
    (grants : tally BankAction.grants after.todo = 0)
    (answers : tally BankAction.answers after.todo ≤ envelope.message.requests)
    (requests : forall other, Requests { s with bank := after, bankQueue := queue } other ->
      s.Requests other) :
    Balanced { s with bank := after, bankQueue := queue } := by
  refine balanced.transfer rfl rfl ?_ ?_ rfl balance ?_ requests ?_
  · simp only [sending, requested, answered, popped, idle, tally_cons, tally_nil,
      Function.comp_apply]
    omega
  · simp only [granted, grants, idle, tally_nil]
  · rw [deducting_of_idle idle]
    exact deducts
  · intro more
    change 0 < tally BankAction.deduction after.todo at more
    omega

theorem bankPops_balanced {s : System} {envelope : Envelope BankMsg}
    {queue : List (Envelope BankMsg)} (balanced : s.Balanced) (idle : s.bank.todo = [])
    (runs : s.bank.running = true) (popped : s.bankQueue = envelope :: queue) :
    Balanced { s with bank := s.bank.dispatch envelope, bankQueue := queue } := by
  have whole : Moves s .bank { s with bank := s.bank.dispatch envelope, bankQueue := queue } :=
    .bankPops idle runs popped
  have requests := fun amount => @Moves.requests s _ _ amount whole fun _ member => member
  have decides := s.bank.dispatch_decides envelope
  clear whole
  generalize s.bank.dispatch envelope = after at *
  cases decides with
  | granted request enough =>
      exact bankGrants_balanced balanced idle popped request enough rfl rfl requests
  | denied request short =>
      refine bankAnswers_balanced balanced idle popped rfl rfl rfl ?_ requests
      rw [request]
      exact Nat.le_refl 1
  | @answers reply other none_ =>
      refine bankAnswers_balanced balanced idle popped rfl rfl ?_ ?_ requests
      · simp only [tally_cons, tally_nil, BankAction.grants, AtmMsg.grants_of_answers none_]
      · simp only [tally_cons, tally_nil, BankAction.answers, none_, Nat.add_zero, Nat.zero_le]
  | silent other =>
      refine bankAnswers_balanced balanced idle popped rfl ?_ ?_ ?_ requests
      · rw [idle, tally_nil]
      · rw [idle, tally_nil]
      · rw [idle, tally_nil]
        exact Nat.zero_le _

/-- The deduction that was promised. -/
theorem bankDeducts_balanced {s : System} {amount : UInt32} (orderly : s.Orderly)
    (balanced : s.Balanced) (doing : s.bank.todo = [.deduct amount]) :
    Balanced { s with bank := { s.bank with todo := [], balance := s.bank.balance - amount } } := by
  have same : s.deducting = amount.toNat := by
    rw [deducting, doing]
    rfl
  have least := orderly.covered
  have lower : (s.bank.balance - amount).toNat = s.bank.balance.toNat - amount.toNat := by
    apply UInt32.toNat_sub_of_le
    rw [UInt32.le_iff_toNat_le]
    omega
  have grants : s.granted =
      granted { s with bank := { s.bank with todo := [], balance := s.bank.balance - amount } } := by
    simp only [granted, doing, tally_cons, tally_nil, BankAction.grants]
  have answers : s.answered =
      answered { s with bank := { s.bank with todo := [], balance := s.bank.balance - amount } } := by
    simp only [answered, doing, tally_cons, tally_nil, BankAction.answers]
  constructor
  · rw [← answers]
    exact balanced.single
  · exact balanced.asked
  · have law := balanced.balanced
    rw [owed, grants] at law
    change s.issued + s.issuing + (s.bank.balance - amount).toNat + owed _ = _ + 0
    rw [owed]
    change _ + (if s.atm.state = .processWithdrawal ∧ _ then s.atm.withdrawalAmount.toNat
      else 0) = _
    omega
  · intro away other requests
    rcases balanced.refused away other requests with zero | short
    · exact Or.inl zero
    · refine Or.inr ?_
      change (s.bank.balance - amount).toNat < other.toNat + 0
      omega
  · intro more
    exact absurd more (Nat.lt_irrefl 0)

theorem Moves.balanced {s t : System} {label : Label} (orderly : s.Orderly) (balanced : s.Balanced)
    (careful : s.OneRequest label) (move : Moves s label t) : t.Balanced := by
  have whole := move
  cases move with
  | atmPops idle runs popped => exact atmPops_balanced balanced careful idle runs popped
  | bankPops idle runs popped => exact bankPops_balanced balanced idle runs popped
  | @user message allowed =>
      have none_ := AtmMsg.answers_of_fromUser allowed
      refine balanced.transfer rfl rfl ?_ ?_ rfl rfl rfl (fun _ requests => requests)
        (fun _ processed => processed)
      · simp only [sending, requested, answered, tally_append, tally_cons, tally_nil,
          Function.comp_apply, none_, Nat.add_zero, Nat.le_refl]
      · simp only [granted, tally_append, tally_cons, tally_nil, Function.comp_apply,
          AtmMsg.grants_of_answers none_, Nat.add_zero]
  | @atmToBank message todo doing =>
      refine balanced.transfer rfl rfl ?_ rfl ?_ rfl rfl ?_ ?_
      · simp only [sending, requested, answered, doing, tally_append, tally_cons, tally_nil,
          Function.comp_apply, Action.requests]
        omega
      · simp only [issued, issuing, doing, tally_cons, Action.money, Nat.zero_add]
      · intro amount
        exact whole.requests fun _ member => doing ▸ List.mem_cons_of_mem _ member
      · rintro _ (⟨account, amount, sends⟩ | ⟨session, account, amount, waiting⟩)
        · rw [doing] at sends
          rcases List.mem_cons.mp sends with now | later
          · cases now
            exact Or.inr ⟨_, account, amount, List.mem_append.mpr (Or.inr List.mem_cons_self)⟩
          · exact Or.inl ⟨account, amount, later⟩
        · exact Or.inr ⟨session, account, amount, List.mem_append.mpr (Or.inl waiting)⟩
  | @atmToInterface message todo doing =>
      refine balanced.transfer rfl rfl ?_ rfl ?_ rfl rfl ?_ ?_
      · simp only [sending, requested, answered, doing, tally_cons, Action.requests, Nat.zero_add,
          Nat.le_refl]
      · simp only [issued, issuing, doing, tally_append, tally_cons, tally_nil, Action.money]
        omega
      · intro amount
        exact whole.requests fun _ member => doing ▸ List.mem_cons_of_mem _ member
      · rintro _ (⟨account, amount, sends⟩ | waiting)
        · rw [doing] at sends
          rcases List.mem_cons.mp sends with now | later
          · cases now
          · exact Or.inl ⟨account, amount, later⟩
        · exact Or.inr waiting
  | @bankReplies reply todo doing =>
      refine balanced.transfer rfl rfl ?_ ?_ rfl rfl ?_ (fun _ requests => requests)
        (fun _ processed => processed)
      · simp only [sending, requested, answered, doing, tally_append, tally_cons, tally_nil,
          Function.comp_apply, BankAction.answers]
        omega
      · simp only [granted, doing, tally_append, tally_cons, tally_nil, Function.comp_apply,
          BankAction.grants]
        omega
      · simp only [deducting, doing, tally_cons, BankAction.deduction, Nat.zero_add]
  | @bankDeducts amount todo doing =>
      have shape := orderly.shape
      rw [doing] at shape
      have none_ := shape.last
      subst none_
      exact bankDeducts_balanced orderly balanced doing
  | interfacePops runs popped =>
      exact balanced.transfer rfl rfl (Nat.le_refl _) rfl rfl rfl rfl
        (fun _ requests => requests) (fun _ processed => processed)
  | atmDone =>
      refine balanced.transfer rfl rfl ?_ ?_ rfl rfl rfl (fun _ requests => requests)
        (fun _ processed => processed)
      · simp only [sending, requested, answered, tally_append, tally_cons, tally_nil,
          Function.comp_apply, AtmMsg.answers, Nat.add_zero, Nat.le_refl]
      · simp only [granted, tally_append, tally_cons, tally_nil, Function.comp_apply,
          AtmMsg.grants, Nat.add_zero]
  | bankDone =>
      refine balanced.transfer rfl rfl ?_ rfl rfl rfl rfl ?_ ?_
      · simp only [sending, requested, answered, tally_append, tally_cons, tally_nil,
          Function.comp_apply, BankMsg.requests, Nat.add_zero, Nat.le_refl]
      · intro amount
        exact whole.requests fun _ member => member
      · rintro _ (sends | ⟨session, account, amount, waiting⟩)
        · exact Or.inl sends
        · exact Or.inr ⟨session, account, amount, List.mem_append.mpr (Or.inl waiting)⟩
  | interfaceDone =>
      exact balanced.transfer rfl rfl (Nat.le_refl _) rfl rfl rfl rfl
        (fun _ requests => requests) (fun _ processed => processed)

theorem run_balanced {labels : List Label} {s : System}
    (run : Run (Restrict OneRequest (Stepping next)) start labels s) : s.Orderly ∧ s.Balanced := by
  apply @Run.invariant System Label _ (fun s => s.Orderly ∧ s.Balanced) _ _ _ _ run
    ⟨start_orderly, start_balanced⟩
  intro before label after both taken
  have move := next_moves taken.2
  exact ⟨move.orderly both.1, move.balanced both.1 both.2 taken.1⟩

/-- All queues are empty and the cash machine waits for a card. -/
structure Quiescent (s : System) : Prop where
  atmQueue : s.atmQueue = []
  bankQueue : s.bankQueue = []
  interfaceQueue : s.interfaceQueue = []
  state : s.atm.state = .waitingForCard
  waiting : s.atm.todo = []

instance (s : System) : Decidable s.Quiescent :=
  decidable_of_iff (s.atmQueue = [] ∧ s.bankQueue = [] ∧ s.interfaceQueue = [] ∧
      s.atm.state = .waitingForCard ∧ s.atm.todo = [])
    ⟨fun ⟨atmQueue, bankQueue, interfaceQueue, state, waiting⟩ =>
        ⟨atmQueue, bankQueue, interfaceQueue, state, waiting⟩,
      fun ⟨atmQueue, bankQueue, interfaceQueue, state, waiting⟩ =>
        ⟨atmQueue, bankQueue, interfaceQueue, state, waiting⟩⟩

/-- In a run whose withdrawals are requested one by one and cancelled without
loss, the accounts balance in every quiescent state. -/
theorem quiescent_balanced {labels : List Label} {s : System}
    (run : Run (Restrict OneRequest (Stepping next)) start labels s) (quiescent : s.Quiescent) :
    s.issued + s.bank.balance.toNat = start.bank.balance.toNat := by
  have balanced := (run_balanced run).2
  have away : s.atm.state ≠ .processWithdrawal := by
    rw [quiescent.state]
    decide
  have law := balanced.balanced
  rw [owed_of_away away, issuing_of_idle quiescent.waiting] at law
  have done : s.deducting = 0 := by
    apply Nat.eq_zero_of_not_pos
    intro more
    rcases balanced.settled more with processed | ⟨contrary, _⟩
    · rcases processed with ⟨account, amount, sends⟩ | ⟨session, account, amount, waiting⟩
      · rw [quiescent.waiting] at sends
        cases sends
      · rw [quiescent.bankQueue] at waiting
        cases waiting
    · exact absurd contrary away
  change _ = initialBalance
  omega

/-- Withdraw 50, and let every thread come to rest. -/
def paidLabels : List Label :=
  List.flatten [withdrawLabels, turns 1 .bank, turns 6 .interface]

theorem quiescent_balanced_fifty :
    Exists fun s => Run (Restrict OneRequest (Stepping next)) start paidLabels s ∧ s.issued = 50 ∧
      s.issued + s.bank.balance.toNat = start.bank.balance.toNat := by
  have facts : (execute (guarded OneRequest next) start paidLabels).map (fun s =>
      (s.issued, decide s.Quiescent)) = some (50, true) := by decide
  rcases Run.of_guarded_map facts with ⟨s, run, values⟩
  rcases Prod.mk.inj values with ⟨fifty, quiescent⟩
  exact ⟨s, run, fifty, quiescent_balanced run (of_decide_eq_true quiescent)⟩

/-- Withdraw 50 and cancel before the answer is popped. -/
def cancelledLabels : List Label :=
  List.flatten [typing '1' '9' '3' '7', turns 8 .atm, turns 2 .bank,
    [.user (.withdrawPressed 50), .user .cancelPressed], turns 9 .atm, turns 4 .bank, turns 1 .atm,
    turns 6 .interface]

/-- The cancelled amount is deducted and never handed out. -/
theorem quiescent_short :
    ¬ forall (labels : List Label) (s : System), Run (Stepping next) start labels s ->
      s.Quiescent -> s.issued + s.bank.balance.toNat = start.bank.balance.toNat := by
  intro claim
  have facts : (execute next start cancelledLabels).map (fun s =>
      (s.issued, s.bank.balance.toNat, decide s.Quiescent)) = some (0, 149, true) := by decide
  rcases Run.of_execute_map facts with ⟨s, run, values⟩
  simp only [Prod.mk.injEq] at values
  rcases values with ⟨issued, balance, quiescent⟩
  have equal := claim cancelledLabels s run (of_decide_eq_true quiescent)
  rw [issued, balance] at equal
  exact absurd equal (by decide)

end System
end Atm
end ServerTech
