import Mathlib.Data.List.Basic

namespace ServerTech
namespace Kcp

/-!
# The echo of a connection

`Connection::recv_data` feeds a datagram to KCP, takes one message from it and
sends it back.  KCP itself is not modelled.  A datagram completes some
messages, none or several: `ikcp_input` puts them behind those that wait, and
`ikcp_recv` takes the oldest one.

Between taking a message and sending it back the function prints the peer's
address from the connection's own socket.  The connection has one only in the
`CON_CLIENT` build.  In the other one the pointer is null, and a call that
takes a message does not return.
-/

/-- The state of a connection: whether it has a socket of its own, and the
messages of its KCP object that are complete and not taken.  The messages
passed to `ikcp_send` and all messages completed so far are recorded. -/
structure Connection where
  ownSocket : Bool
  waiting : List (List UInt8)
  sent : List (List UInt8)
  available : List (List UInt8)
  deriving DecidableEq, Repr

namespace Connection

/-- A connection after its construction. -/
def new (conClient : Bool) : Connection :=
  ⟨conClient, [], [], []⟩

/-- `ikcp_input` of a datagram that completes the given messages. -/
def input (connection : Connection) (completed : List (List UInt8)) : Connection :=
  { connection with
    waiting := connection.waiting ++ completed
    available := connection.available ++ completed }

/-- Take the oldest message, print the peer's address and send the message
back. -/
def echo (connection : Connection) : Option Connection :=
  match connection.waiting with
  | [] => some connection
  | message :: others =>
      match connection.ownSocket with
      | true => some { connection with waiting := others, sent := connection.sent ++ [message] }
      | false => none

/-- `recv_data`. -/
def recvData (connection : Connection) (completed : List (List UInt8)) : Option Connection :=
  (connection.input completed).echo

/-- The number of messages one call can echo. -/
def capacity (connection : Connection) : Nat :=
  if connection.ownSocket then 1 else 0

/-- Every message completed so far has been sent once, in order, and none is
waiting. -/
structure Drained (connection : Connection) : Prop where
  sent : connection.sent = connection.available
  waiting : connection.waiting = []

/-- Every call of the sequence returns and leaves a drained connection. -/
def DrainsAll : Connection -> List (List (List UInt8)) -> Prop
  | _, [] => True
  | connection, completed :: calls =>
      Exists fun after => connection.recvData completed = some after ∧ after.Drained ∧
        after.DrainsAll calls

/-! ## One call -/

/-- What an echo does: nothing, or one message from the front of the queue. -/
theorem echo_cases {connection after : Connection} (returned : connection.echo = some after) :
    (connection.waiting = [] ∧ after = connection) ∨
    Exists fun message => Exists fun others => connection.waiting = message :: others ∧
      connection.ownSocket = true ∧
      after = { connection with waiting := others, sent := connection.sent ++ [message] } := by
  unfold echo at returned
  cases oldest : connection.waiting with
  | nil =>
      rw [oldest] at returned
      cases returned
      exact .inl ⟨rfl, rfl⟩
  | cons message others =>
      rw [oldest] at returned
      cases present : connection.ownSocket with
      | true =>
          rw [present] at returned
          cases returned
          exact .inr ⟨message, others, rfl, rfl, rfl⟩
      | false =>
          rw [present] at returned
          cases returned

/-- An echo returns when nothing waits or the connection has a socket. -/
theorem echo_returns (connection : Connection)
    (few : connection.waiting.length ≤ connection.capacity) :
    Exists fun after => connection.echo = some after := by
  unfold echo
  cases oldest : connection.waiting with
  | nil => exact ⟨_, rfl⟩
  | cons message others =>
      cases present : connection.ownSocket with
      | true => exact ⟨_, rfl⟩
      | false =>
          have none_fit : connection.capacity = 0 := if_neg (by rw [present]; decide)
          rw [oldest, none_fit] at few
          exact absurd few (Nat.not_succ_le_zero _)

theorem recvData_capacity {connection after : Connection} {completed : List (List UInt8)}
    (returned : connection.recvData completed = some after) :
    after.capacity = connection.capacity := by
  rcases echo_cases returned with ⟨_, rfl⟩ | ⟨_, _, _, _, rfl⟩
  · rfl
  · rfl

/-- The messages sent and those that wait are all messages completed. -/
def Conserved (connection : Connection) : Prop :=
  connection.sent ++ connection.waiting = connection.available

/-- A call keeps the order of the messages and neither loses nor repeats one. -/
theorem recvData_conserved {connection after : Connection} {completed : List (List UInt8)}
    (held : connection.Conserved) (returned : connection.recvData completed = some after) :
    after.Conserved := by
  have fed : (connection.input completed).Conserved := by
    change connection.sent ++ (connection.waiting ++ completed) =
      connection.available ++ completed
    rw [← List.append_assoc, held]
  rcases echo_cases returned with ⟨_, rfl⟩ | ⟨message, others, oldest, _, rfl⟩
  · exact fed
  · have split : connection.sent ++ message :: others = connection.available ++ completed := by
      rw [← oldest]
      exact fed
    change connection.sent ++ [message] ++ others = connection.available ++ completed
    rw [List.append_assoc]
    exact split

/-- A conserved connection is drained when nothing waits. -/
theorem Conserved.drained {connection : Connection} (held : connection.Conserved)
    (waiting : connection.waiting = []) : connection.Drained := by
  unfold Conserved at held
  rw [waiting, List.append_nil] at held
  exact ⟨held, waiting⟩

theorem Drained.conserved {connection : Connection} (drained : connection.Drained) :
    connection.Conserved := by
  unfold Conserved
  rw [drained.waiting, List.append_nil]
  exact drained.sent

/-- A call on a drained connection drains it again exactly when the datagram
completes no more messages than the call can echo. -/
theorem recvData_drains_iff {connection : Connection} (drained : connection.Drained)
    (completed : List (List UInt8)) :
    (Exists fun after => connection.recvData completed = some after ∧ after.Drained) <->
      completed.length ≤ connection.capacity := by
  have fed : (connection.input completed).waiting = completed := by
    change connection.waiting ++ completed = completed
    rw [drained.waiting, List.nil_append]
  constructor
  · rintro ⟨after, returned, clear⟩
    rcases echo_cases returned with ⟨nothing, _⟩ | ⟨message, others, oldest, present, rfl⟩
    · rw [← fed, nothing]
      exact Nat.zero_le _
    · have none_left : others = [] := clear.waiting
      have single : connection.capacity = 1 := if_pos present
      rw [← fed, oldest, none_left, single]
      exact Nat.le_refl 1
  · intro few
    rcases echo_returns (connection.input completed) (by rw [fed]; exact few) with
      ⟨after, returned⟩
    refine ⟨after, returned, (recvData_conserved drained.conserved returned).drained ?_⟩
    rcases echo_cases returned with ⟨nothing, rfl⟩ | ⟨message, others, oldest, present, rfl⟩
    · exact nothing
    · have single : connection.capacity = 1 := if_pos present
      rw [← fed, oldest, single, List.length_cons] at few
      exact List.length_eq_zero_iff.mp (Nat.le_zero.mp (Nat.le_of_succ_le_succ few))

/-! ## Sequences of calls -/

theorem drainsAll_of_drained {connection : Connection} (drained : connection.Drained)
    (calls : List (List (List UInt8))) :
    connection.DrainsAll calls <->
      forall completed, completed ∈ calls -> completed.length ≤ connection.capacity := by
  induction calls generalizing connection with
  | nil => exact ⟨fun _ _ member => absurd member List.not_mem_nil, fun _ => trivial⟩
  | cons completed calls inductionHypothesis =>
      rw [List.forall_mem_cons, ← recvData_drains_iff drained]
      constructor
      · rintro ⟨after, returned, clear, later⟩
        refine ⟨⟨after, returned, clear⟩, ?_⟩
        rw [← recvData_capacity returned]
        exact (inductionHypothesis clear).mp later
      · rintro ⟨⟨after, returned, clear⟩, later⟩
        refine ⟨after, returned, clear, (inductionHypothesis clear).mpr ?_⟩
        rw [recvData_capacity returned]
        exact later

/-- Every call returns with every message echoed and none waiting exactly when
no datagram completes more than one message, or, for a connection without a
socket of its own, any message at all. -/
theorem new_drainsAll_iff (conClient : Bool) (calls : List (List (List UInt8))) :
    (new conClient).DrainsAll calls <->
      forall completed, completed ∈ calls -> completed.length ≤ (new conClient).capacity :=
  drainsAll_of_drained ⟨rfl, rfl⟩ calls

/-- A datagram that completes two messages leaves the second one waiting, and
without a socket of its own a connection does not echo even one. -/
theorem recvData_leaves_message :
    (Exists fun after => (new true).recvData [[1], [2]] = some after ∧ after.sent = [[1]] ∧
      after.waiting = [[2]] ∧ ¬ (new true).DrainsAll [[[1], [2]]]) ∧
    (new false).recvData [[1]] = none ∧ ¬ (new false).DrainsAll [[[1]]] := by
  have two : ¬ (new true).DrainsAll [[[1], [2]]] := by
    intro drains
    exact absurd ((drainsAll_of_drained ⟨rfl, rfl⟩ _).mp drains _ (List.mem_singleton_self _))
      (by decide)
  have one : ¬ (new false).DrainsAll [[[1]]] := by
    intro drains
    exact absurd ((drainsAll_of_drained ⟨rfl, rfl⟩ _).mp drains _ (List.mem_singleton_self _))
      (by decide)
  exact ⟨⟨_, rfl, rfl, rfl, two⟩, rfl, one⟩

end Connection

end Kcp
end ServerTech
