import ServerTech.Iocp.SendLock

namespace ServerTech
namespace Iocp

open Transition

/-!
# The write mutex is not re-entrant

`m_writeMutex` is declared as a `std::mutex`.  A thread that locks it while it
holds it waits for itself, so here such an operation has no step.

`Send`, a burst and `HandleWriteComplete` hold the mutex when they reach
`WriteCallback`, and `WriteCallback` locks it again once it finds the socket
connected.  So no `Send` that wins the send lock, no completion that leaves
bytes and no `BurstPush` inside a burst may come to a connected socket there.
Which of them a thread is in is not part of the socket, so the calls are
recorded beside it.
-/

/-- The operations that begin with locking the mutex. -/
def Op.locks : Op -> Bool
  | .send _ | .sendHeader _ | .sendPayload _ | .burstBegin | .submit | .remove _ => true
  | _ => false

/-- The operations that are a whole call of a thread. -/
def Op.whole : Op -> Bool
  | .burstBegin | .handleWriteComplete _ | .handleReadComplete _ _ => true
  | _ => false

/-- The operations that may come to `WriteCallback`. -/
def Op.pushes : Op -> Nat
  | .send _ | .sendHeader _ | .sendPayload _ | .burstPush | .writeCallback
  | .handleWriteComplete _ | .remove _ | .handleReadComplete _ _ => 1
  | _ => 0

/-- The calls that begin with locking the mutex. -/
def Entry.locks : Entry -> Bool
  | .send _ | .sendPacket _ | .burstBegin => true
  | _ => false

namespace Socket

/-- A thread is about to lock the mutex that it holds. -/
def Relocks (s : Socket) (thread : Nat) : Prop :=
  ((s.stack thread).head?.any Op.locks) = true ∧ 0 < s.mutex.depth thread

instance (s : Socket) (thread : Nat) : Decidable (s.Relocks thread) :=
  inferInstanceAs (Decidable (_ ∧ _))

/-- The steps with a mutex that is not re-entrant. -/
def nextStd : Socket -> Event -> Option Socket :=
  guarded (fun s event => ¬ s.Relocks event.thread) next

/-- The operations that find they have to lock the mutex next. -/
def goesOn (s : Socket) : Op -> Bool
  | .writeCallback => !s.deleted && s.connected
  | .handleWriteComplete _ => !s.deleted
  | .handleReadComplete len replies => !s.deleted && decide (len ≠ 0) && !replies.isEmpty
  | _ => false

/-- Where an operation of the list locks the mutex, nothing behind it gives the
mutex back, and the thread is in no burst.  Nothing is left to do behind an
operation that is a whole call. -/
def LocksFree (bursts : Nat) : List Op -> Prop
  | [] => True
  | op :: rest =>
      (op.locks = true -> bursts = 0 ∧ tally Op.unlocks rest = 0) ∧
        (op.whole = true -> rest = []) ∧ LocksFree bursts rest

/-- The mutex is accounted for, and every lock comes where the mutex is free. -/
structure Unlocked (s : Socket) : Prop where
  exclusive : s.Exclusive
  free : forall thread, LocksFree (s.bursts thread) (s.stack thread)

theorem new_unlocked (block : List UInt8) : (new block).Unlocked where
  exclusive := new_exclusive block
  free := fun _ => trivial

variable {s after : Socket} {thread : Nat} {op : Op} {ops rest : List Op} {bursts : Nat}

/-! ## Lists of operations -/

theorem LocksFree.push (free : LocksFree bursts rest)
    (quiet : ops.all (fun op => !op.locks && !op.whole) = true) : LocksFree bursts (ops ++ rest) := by
  induction ops with
  | nil => exact free
  | cons op ops inductionHypothesis =>
      rcases Bool.and_eq_true_iff.mp quiet with ⟨first, others⟩
      rcases Bool.and_eq_true_iff.mp first with ⟨unlocked, part⟩
      refine ⟨?_, ?_, inductionHypothesis others⟩
      · intro locks
        rw [locks] at unlocked
        cases unlocked
      · intro whole
        rw [whole] at part
        cases part

theorem LocksFree.lock (free : LocksFree bursts rest) (outside : bursts = 0)
    (unlocks : tally Op.unlocks rest = 0) (part : op.whole = false) :
    LocksFree bursts (op :: rest) := by
  refine ⟨fun _ => ⟨outside, unlocks⟩, ?_, free⟩
  intro whole
  rw [part] at whole
  cases whole

theorem LocksFree.single (outside : op.locks = true -> bursts = 0) : LocksFree bursts [op] :=
  ⟨fun locks => ⟨outside locks, rfl⟩, fun _ => rfl, trivial⟩

theorem LocksFree.replies (free : LocksFree bursts rest) (outside : bursts = 0)
    (unlocks : tally Op.unlocks rest = 0) (packets : List PacketBuffer) :
    LocksFree bursts (packets.map .sendHeader ++ [.setupReadEvent] ++ rest) := by
  induction packets with
  | nil => exact @LocksFree.push [.setupReadEvent] _ _ free rfl
  | cons packet packets inductionHypothesis =>
      refine inductionHypothesis.lock outside ?_ rfl
      rw [tally_append, unlocks]
      exact tally_replies (fun _ => rfl) rfl packets

/-- What the caller of `Send` does next, where `Send` could lock the mutex. -/
theorem LocksFree.following {bytes : List UInt8} {following : List Op}
    (free : LocksFree bursts (op :: rest)) (sends : payload op = some (bytes, following)) :
    LocksFree bursts (following ++ rest) := by
  rcases free with ⟨lock, _, later⟩
  rcases payload_cases sends with ⟨rfl, rfl⟩ | ⟨packet, rfl, rfl, rfl⟩ | ⟨packet, rfl, rfl, rfl⟩
  · exact later
  · exact later.lock (lock rfl).1 (lock rfl).2 rfl
  · exact later

/-! ## Steps and runs -/

/-- Only `BurstBegin` changes the bursts while a thread is in a function. -/
theorem Performs.bursts_eq (performs : Performs s thread op after ops) (proper : op ≠ .burstBegin) :
    after.bursts = s.bursts := by
  cases performs with
  | burstBegin taken => exact absurd rfl proper
  | _ => rfl

theorem Performs.locksFree (performs : Performs s thread op after ops)
    (free : LocksFree (s.bursts thread) (op :: rest))
    (unheld : s.goesOn op = true -> s.bursts thread = 0 ∧ tally Op.unlocks rest = 0) :
    LocksFree (after.bursts thread) (ops ++ rest) := by
  have later := free.2.2
  cases performs with
  | accept sends taken room =>
      exact @LocksFree.push [.burstPush, .unlock] _ _ (free.following sends) rfl
  | burstBegin taken =>
      rw [free.2.1 rfl]
      trivial
  | callback opened =>
      have goes : s.goesOn .writeCallback = true := by
        rw [not_or, Decidable.not_not] at opened
        rw [goesOn, eq_false_of_ne_true opened.1, opened.2]
        rfl
      exact later.lock (unheld goes).1 (unheld goes).2 rfl
  | handled alive =>
      rename_i len
      have goes : s.goesOn (.handleWriteComplete len) = true := by
        rw [goesOn, alive]
        rfl
      exact later.lock (unheld goes).1 (unheld goes).2 rfl
  | received alive some_ =>
      rename_i len replies
      cases replies with
      | nil => exact @LocksFree.push [.setupReadEvent] _ _ later rfl
      | cons packet replies =>
          have goes : s.goesOn (.handleReadComplete len (packet :: replies)) = true := by
            rw [goesOn, alive, decide_eq_true some_]
            rfl
          exact later.replies (unheld goes).1 (unheld goes).2 (packet :: replies)
  | _ => exact later.push rfl

theorem Unlocked.change (unlocked : s.Unlocked) (exclusive : after.Exclusive)
    (stack : after.stack = Function.update s.stack thread ops)
    (others : forall other, other ≠ thread -> after.bursts other = s.bursts other)
    (own : LocksFree (after.bursts thread) ops) : after.Unlocked := by
  refine ⟨exclusive, ?_⟩
  rw [stack, Function.forall_update_iff s.stack fun other ops => LocksFree (after.bursts other) ops]
  refine ⟨own, ?_⟩
  intro other apart
  rw [others other apart]
  exact unlocked.free other

/-- Every lock stays where the mutex is free, when a thread calls what locks the
mutex outside its bursts, and goes on to a lock only where it does not hold the
mutex. -/
theorem Moves.unlocked {event : Event} (moves : Moves s event after) (unlocked : s.Unlocked)
    (calls : forall thread entry, event = .call thread entry -> entry.locks = true ->
      s.bursts thread = 0)
    (unheld : forall thread succeeds op rest, event = .step thread succeeds ->
      s.stack thread = op :: rest -> s.goesOn op = true ->
        s.bursts thread = 0 ∧ tally Op.unlocks rest = 0) : after.Unlocked := by
  have exclusive := moves.exclusive unlocked.exclusive
  cases moves with
  | call idle inside =>
      rename_i thread entry
      refine unlocked.change exclusive rfl ?_ ?_
      · intro other apart
        change (if _ then Function.update _ _ _ else _) other = _
        split
        · exact Function.update_of_ne apart _ _
        · rfl
      · cases entry with
        | send bytes => exact .single fun _ => calls thread _ rfl rfl
        | sendPacket packet => exact .single fun _ => calls thread _ rfl rfl
        | burstBegin => exact .single fun _ => calls thread _ rfl rfl
        | connect =>
            exact @LocksFree.push [.setConnected, .setupReadEvent, .addSocket] [] _ trivial rfl
        | _ => exact .single fun locks => nomatch locks
  | step top performs =>
      rename_i thread succeeds op rest ops middle
      have free := unlocked.free thread
      rw [top] at free
      refine unlocked.change exclusive (stack_setStack performs.stack _ _) ?_ ?_
      · intro other apart
        by_cases begins : op = .burstBegin
        · subst begins
          cases performs with
          | accept sends taken room => cases sends
          | refuse sends taken full => cases sends
          | burstBegin taken => exact Function.update_of_ne apart _ _
        · exact congrFun (performs.bursts_eq begins) other
      · exact performs.locksFree free (unheld thread succeeds op rest rfl top)
  | dequeue idle outstanding some_ part =>
      exact unlocked.change exclusive rfl (fun _ _ => rfl) (.single fun locks => nomatch locks)
  | dequeueError idle outstanding => exact ⟨exclusive, unlocked.free⟩

/-- Where every lock comes with the mutex free, no thread locks it twice. -/
theorem Unlocked.not_relocks (unlocked : s.Unlocked) (thread : Nat) : ¬ s.Relocks thread := by
  rintro ⟨locks, held⟩
  have free := unlocked.free thread
  have depth := unlocked.exclusive.depth thread
  cases top : s.stack thread with
  | nil =>
      rw [top] at locks
      cases locks
  | cons op rest =>
      rw [top] at locks free depth
      have outside := free.1 locks
      have first : op.unlocks = 0 := by
        cases op with
        | unlock => cases locks
        | _ => rfl
      rw [tally_cons] at depth
      omega

/-- An operation that goes on to lock the mutex stands before the lock. -/
theorem Performs.locks_next (performs : Performs s thread op after ops)
    (goes : s.goesOn op = true) :
    ops.head?.any Op.locks = true ∧ after.mutex = s.mutex := by
  cases performs with
  | callback opened => exact ⟨rfl, rfl⟩
  | handled alive => exact ⟨rfl, rfl⟩
  | received alive some_ =>
      rename_i len replies
      cases replies with
      | nil =>
          rw [goesOn, Bool.and_eq_true] at goes
          cases goes.2
      | cons packet replies => exact ⟨rfl, rfl⟩
  | early closed =>
      rw [goesOn, Bool.and_eq_true, Bool.not_eq_true'] at goes
      rcases closed with gone | closed
      · rw [goes.1] at gone
        cases gone
      · exact absurd goes.2 closed
  | ignored gone =>
      rw [goesOn, gone] at goes
      cases goes
  | readIgnored gone =>
      rw [goesOn, gone] at goes
      cases goes
  | readNothing alive =>
      rw [goesOn, Bool.and_eq_true, Bool.and_eq_true] at goes
      cases goes.1.2
  | accept sends taken room =>
      rcases payload_cases sends with ⟨rfl, _⟩ | ⟨packet, rfl, _⟩ | ⟨packet, rfl, _⟩ <;> cases goes
  | refuse sends taken full =>
      rcases payload_cases sends with ⟨rfl, _⟩ | ⟨packet, rfl, _⟩ | ⟨packet, rfl, _⟩ <;> cases goes
  | _ => cases goes

end Socket

/-! ## The calls of the threads -/

/-- The socket, and the call that each thread has made last.  A completion that
a worker has dequeued is none. -/
structure Called where
  socket : Socket
  call : Nat -> Option Entry

namespace Called

def new (block : List UInt8) : Called where
  socket := Socket.new block
  call := fun _ => none

/-- The last calls after a step. -/
def record (call : Nat -> Option Entry) : Event -> Nat -> Option Entry
  | .call thread entry => Function.update call thread (some entry)
  | .dequeue thread _ _ => Function.update call thread none
  | .step _ _ | .dequeueError _ _ => call

def next (c : Called) (event : Event) : Option Called :=
  (c.socket.nextStd event).map fun socket => ⟨socket, record c.call event⟩

/-- The condition on the steps.  A thread calls what locks the mutex outside its
bursts.  It comes to a connected socket in `WriteCallback` only in a `BurstPush`
made outside its bursts, and handles a completion outside its bursts. -/
def Permitted (c : Called) : Event -> Prop
  | .call thread entry => entry.locks = true -> c.socket.bursts thread = 0
  | .step thread _ =>
      ((c.socket.stack thread).head?.any c.socket.goesOn) = true ->
        c.socket.bursts thread = 0 ∧
          ((c.socket.stack thread).head? = some .writeCallback -> c.call thread = some .burstPush)
  | .dequeue _ _ _ | .dequeueError _ _ => True

instance (c : Called) (event : Event) : Decidable (c.Permitted event) :=
  match event with
  | .call thread entry =>
      inferInstanceAs (Decidable (entry.locks = true -> c.socket.bursts thread = 0))
  | .step thread _ =>
      inferInstanceAs (Decidable (((c.socket.stack thread).head?.any c.socket.goesOn) = true ->
        c.socket.bursts thread = 0 ∧
          ((c.socket.stack thread).head? = some .writeCallback -> c.call thread = some .burstPush)))
  | .dequeue _ _ _ | .dequeueError _ _ => inferInstanceAs (Decidable True)

/-- What is left of a `BurstPush`: the push, or `WriteCallback`, or nothing that
comes to it. -/
def Pushing (ops : List Op) : Prop :=
  ops = [.burstPush] ∨ ops = [.writeCallback] ∨ tally Op.pushes ops = 0

/-- Behind every push and every `WriteCallback` the mutex is given back. -/
def Covered : List Op -> Prop
  | [] => True
  | op :: rest => (op = .burstPush ∨ op = .writeCallback -> 0 < tally Op.unlocks rest) ∧ Covered rest

/-- What the threads have left to do agrees with their last calls. -/
structure Traced (c : Called) : Prop where
  pushing : forall thread, c.call thread = some .burstPush -> Pushing (c.socket.stack thread)
  covered : forall thread, c.call thread ≠ some .burstPush -> Covered (c.socket.stack thread)

theorem new_traced (block : List UInt8) : (new block).Traced where
  pushing := fun _ _ => .inr (.inr rfl)
  covered := fun _ _ => trivial

variable {c following : Called} {s after : Socket} {thread : Nat} {op : Op} {ops rest : List Op}
  {event : Event}

theorem Covered.push (covered : Covered rest)
    (quiet : ops.all (fun op => op ≠ .burstPush ∧ op ≠ .writeCallback) = true) :
    Covered (ops ++ rest) := by
  induction ops with
  | nil => exact covered
  | cons op ops inductionHypothesis =>
      rcases Bool.and_eq_true_iff.mp quiet with ⟨first, others⟩
      rcases of_decide_eq_true first with ⟨noPush, noCallback⟩
      refine ⟨?_, inductionHypothesis others⟩
      rintro (push | callback)
      · exact absurd push noPush
      · exact absurd callback noCallback

theorem Covered.replies (covered : Covered rest) (packets : List PacketBuffer) :
    Covered (packets.map .sendHeader ++ [.setupReadEvent] ++ rest) := by
  induction packets with
  | nil => exact @Covered.push [.setupReadEvent] _ covered rfl
  | cons packet packets inductionHypothesis =>
      exact @Covered.push [.sendHeader packet] _ inductionHypothesis rfl

theorem payload_covered {bytes : List UInt8} {later : List Op}
    (sends : Socket.payload op = some (bytes, later)) (covered : Covered rest) :
    Covered (later ++ rest) := by
  rcases Socket.payload_cases sends with ⟨rfl, rfl⟩ | ⟨packet, rfl, rfl, rfl⟩ | ⟨packet, rfl, rfl, rfl⟩
  · exact covered
  · exact @Covered.push [.sendPayload packet] _ covered rfl
  · exact covered

/-- `Send` and a completion come to `WriteCallback` before they give the mutex
back. -/
theorem performs_covered (performs : Socket.Performs s thread op after ops)
    (covered : Covered (op :: rest)) : Covered (ops ++ rest) := by
  rcases covered with ⟨unlocks, later⟩
  cases performs with
  | accept sends taken room =>
      refine ⟨?_, @Covered.push [.unlock] _ (payload_covered sends later) rfl⟩
      exact fun _ => Nat.add_pos_left Nat.one_pos _
  | acquired idle => exact ⟨fun _ => unlocks (.inl rfl), later⟩
  | more taken left_ =>
      refine ⟨?_, @Covered.push [.unlock] _ later rfl⟩
      exact fun _ => Nat.add_pos_left Nat.one_pos _
  | received alive some_ => exact later.replies _
  | _ => exact later.push rfl

/-- A `BurstPush` comes to `WriteCallback` with nothing behind it. -/
theorem performs_pushing (performs : Socket.Performs s thread op after ops)
    (pushing : Pushing (op :: rest)) : Pushing (ops ++ rest) := by
  rcases pushing with push | callback | none_
  · cases push
    cases performs with
    | accept sends taken room => cases sends
    | refuse sends taken full => cases sends
    | acquired idle => exact .inr (.inl rfl)
    | busy locked => exact .inr (.inr rfl)
  · cases callback
    cases performs with
    | accept sends taken room => cases sends
    | refuse sends taken full => cases sends
    | early closed => exact .inr (.inr rfl)
    | callback opened => exact .inr (.inr rfl)
  · rw [tally_cons, Nat.add_eq_zero_iff] at none_
    rcases none_ with ⟨first, later⟩
    refine .inr (.inr ?_)
    rw [tally_append, later, Nat.add_zero]
    cases performs with
    | accept sends taken room =>
        rcases Socket.payload_cases sends with ⟨rfl, _⟩ | ⟨packet, rfl, _⟩ | ⟨packet, rfl, _⟩ <;>
          cases first
    | refuse sends taken full => rfl
    | acquired idle => cases first
    | busy locked => rfl
    | more taken left_ => cases first
    | handled alive => cases first
    | received alive some_ => cases first
    | _ => rfl

theorem next_cases (taken : c.next event = some following) :
    Socket.Moves c.socket event following.socket ∧ following.call = record c.call event := by
  rcases Option.map_eq_some_iff.mp taken with ⟨socket, moved, rfl⟩
  exact ⟨Socket.next_moves (guarded_eq_some moved).2, rfl⟩

/-- A change of one thread's list and last call. -/
theorem Traced.change (traced : c.Traced)
    (stack : following.socket.stack = Function.update c.socket.stack thread ops)
    (others : forall other, other ≠ thread -> following.call other = c.call other)
    (pushing : following.call thread = some .burstPush -> Pushing ops)
    (covered : following.call thread ≠ some .burstPush -> Covered ops) : following.Traced := by
  constructor
  · rw [stack, Function.forall_update_iff c.socket.stack fun other ops =>
      following.call other = some .burstPush -> Pushing ops]
    refine ⟨pushing, ?_⟩
    intro other apart
    rw [others other apart]
    exact traced.pushing other
  · rw [stack, Function.forall_update_iff c.socket.stack fun other ops =>
      following.call other ≠ some .burstPush -> Covered ops]
    refine ⟨covered, ?_⟩
    intro other apart
    rw [others other apart]
    exact traced.covered other

theorem step_traced (traced : c.Traced) (taken : c.next event = some following) :
    following.Traced := by
  rcases next_cases taken with ⟨moves, calls⟩
  cases c with
  | mk before call =>
  cases following with
  | mk after recorded =>
  dsimp only at moves calls
  subst calls
  cases moves with
  | call idle inside =>
      rename_i thread entry
      refine traced.change rfl (fun other apart => Function.update_of_ne apart _ _) ?_ ?_
      · intro last
        cases (Function.update_self _ _ call).symm.trans last
        exact .inl rfl
      · intro last
        have other : entry ≠ .burstPush := by
          rintro rfl
          exact last (Function.update_self _ _ _)
        cases entry with
        | burstPush => exact absurd rfl other
        | connect =>
            exact @Covered.push [.setConnected, .setupReadEvent, .addSocket] [] trivial rfl
        | _ => exact @Covered.push [_] [] trivial rfl
  | step top performs =>
      refine traced.change (Socket.stack_setStack performs.stack _ _) (fun _ _ => rfl) ?_ ?_
      · intro last
        have pushing := traced.pushing _ last
        rw [top] at pushing
        exact performs_pushing performs pushing
      · intro last
        have covered := traced.covered _ last
        rw [top] at covered
        exact performs_covered performs covered
  | dequeue idle outstanding some_ part =>
      refine traced.change rfl (fun other apart => Function.update_of_ne apart _ _) ?_ ?_
      · intro last
        cases (Function.update_self _ _ call).symm.trans last
      · intro _
        exact @Covered.push [_] [] trivial rfl
  | dequeueError idle outstanding => exact ⟨traced.pushing, traced.covered⟩

/-- A permitted step goes on to a lock only where its thread does not hold the
mutex. -/
theorem Traced.unheld {succeeds : Bool} (traced : c.Traced) (unlocked : c.socket.Unlocked)
    (permitted : c.Permitted (.step thread succeeds)) (top : c.socket.stack thread = op :: rest)
    (goes : c.socket.goesOn op = true) :
    c.socket.bursts thread = 0 ∧ tally Op.unlocks rest = 0 := by
  rw [Permitted, top] at permitted
  rcases permitted goes with ⟨outside, pushed⟩
  refine ⟨outside, ?_⟩
  by_cases callback : op = .writeCallback
  · subst callback
    have pushing := traced.pushing thread (pushed rfl)
    rw [top] at pushing
    rcases pushing with push | alone | none_
    · cases push
    · cases alone
      rfl
    · rw [tally_cons, Nat.add_eq_zero_iff] at none_
      cases none_.1
  · have whole : op.whole = true := by
      cases op with
      | writeCallback => exact absurd rfl callback
      | handleWriteComplete len => rfl
      | handleReadComplete len replies => rfl
      | _ => cases goes
    have free := unlocked.free thread
    rw [top] at free
    rw [free.2.1 whole]
    rfl

theorem step_unlocked (traced : c.Traced) (unlocked : c.socket.Unlocked)
    (permitted : c.Permitted event) (taken : c.next event = some following) :
    following.socket.Unlocked := by
  refine (next_cases taken).1.unlocked unlocked ?_ ?_
  · rintro thread entry rfl
    exact permitted
  · rintro thread succeeds op rest rfl top goes
    exact traced.unheld unlocked permitted top goes

/-- A thread that goes on to a lock in a step that is not permitted holds the
mutex. -/
theorem Traced.held {succeeds : Bool} (traced : c.Traced) (exclusive : c.socket.Exclusive)
    (forbidden : ¬ c.Permitted (.step thread succeeds)) (top : c.socket.stack thread = op :: rest) :
    c.socket.goesOn op = true ∧ 0 < c.socket.mutex.depth thread := by
  rw [Permitted, top] at forbidden
  rcases Classical.not_imp.mp forbidden with ⟨goes, inside⟩
  refine ⟨goes, ?_⟩
  rw [exclusive.depth, top, tally_cons]
  by_cases outside : c.socket.bursts thread = 0
  · have other : ¬ (op = .writeCallback -> c.call thread = some .burstPush) := by
      intro pushed
      exact inside ⟨outside, fun first => pushed (Option.some.inj first)⟩
    rcases Classical.not_imp.mp other with ⟨callback, called⟩
    have covered := traced.covered thread called
    rw [top] at covered
    have unlocks := covered.1 (.inr callback)
    omega
  · omega

/-- A step that is not permitted puts its thread before a lock of the mutex that
it holds. -/
theorem step_relocks (traced : c.Traced) (exclusive : c.socket.Exclusive)
    (taken : c.next event = some following) (forbidden : ¬ c.Permitted event) :
    following.socket.Relocks event.thread := by
  have moves := (next_cases taken).1
  clear taken
  cases c with
  | mk before call =>
  cases following with
  | mk after recorded =>
  cases moves with
  | call idle inside =>
      rename_i thread entry
      have depth := exclusive.depth thread
      rcases Classical.not_imp.mp forbidden with ⟨locks, burst⟩
      refine ⟨?_, ?_⟩
      · change ((Function.update before.stack thread entry.ops thread).head?.any Op.locks) = true
        rw [Function.update_self]
        cases entry with
        | send bytes => rfl
        | sendPacket packet => rfl
        | burstBegin => rfl
        | _ => cases locks
      · change 0 < before.mutex.depth thread
        rw [depth]
        exact Nat.add_pos_left (Nat.pos_of_ne_zero burst) _
  | step top performs =>
      rename_i thread succeeds op rest ops middle
      rcases traced.held exclusive forbidden top with ⟨goes, held⟩
      rcases performs.locks_next goes with ⟨locks, mutex⟩
      refine ⟨?_, ?_⟩
      · change ((Function.update middle.stack thread (ops ++ rest) thread).head?.any Op.locks) = true
        rw [Function.update_self]
        cases ops with
        | nil => cases locks
        | cons first ops => exact locks
      · change 0 < middle.mutex.depth thread
        rw [mutex]
        exact held
  | dequeue idle outstanding some_ part => exact absurd trivial forbidden
  | dequeueError idle outstanding => exact absurd trivial forbidden

/-- Every run of the socket is a run with its calls. -/
theorem exists_called {block : List UInt8} {events : List Event}
    (run : Run (Stepping Socket.nextStd) (Socket.new block) events s) :
    Exists fun c : Called => c.socket = s ∧ Run (Stepping next) (new block) events c := by
  induction run with
  | refl => exact ⟨new block, rfl, .refl _⟩
  | @snoc middle final labels label _ last inductionHypothesis =>
      rcases inductionHypothesis with ⟨c, rfl, run⟩
      refine ⟨⟨final, record c.call label⟩, rfl, run.snoc ?_⟩
      exact Option.map_eq_some_iff.mpr ⟨final, last, rfl⟩

theorem run_accounted {block : List UInt8} {events : List Event}
    (run : Run (Restrict Permitted (Stepping next)) (new block) events c) :
    c.Traced ∧ c.socket.Unlocked := by
  refine @Run.invariant _ _ _ (fun c => c.Traced ∧ c.socket.Unlocked) ?_ _ _ _ run
    ⟨new_traced block, Socket.new_unlocked block⟩
  rintro before event after ⟨traced, unlocked⟩ ⟨permitted, taken⟩
  exact ⟨step_traced traced taken, step_unlocked traced unlocked permitted taken⟩

/-- In a run whose steps are permitted no thread ever attempts to lock the mutex
while it holds it, and the first step that is not permitted is followed by such
an attempt. -/
theorem mutex_locked_once {block : List UInt8} {events : List Event}
    (run : Run (Restrict Permitted (Stepping next)) (new block) events c) :
    (forall thread, ¬ c.socket.Relocks thread) ∧
      forall event following, c.next event = some following -> ¬ c.Permitted event ->
        following.socket.Relocks event.thread := by
  rcases run_accounted run with ⟨traced, unlocked⟩
  refine ⟨unlocked.not_relocks, ?_⟩
  intro event following taken forbidden
  exact step_relocks traced unlocked.exclusive taken forbidden

/-- A burst that is pushed after it has ended, and a `Send` while its bytes are
outstanding. -/
def pushedOutside : List Event :=
  [.call 0 .connect, .step 0 true, .step 0 true, .step 0 true, .call 0 .burstBegin, .step 0 true,
    .call 0 (.burstSend [1]), .step 0 true, .call 0 .burstEnd, .step 0 true, .call 0 .burstPush,
    .step 0 true, .step 0 true, .step 0 true, .step 0 true, .call 1 (.send [2]), .step 1 true,
    .step 1 true, .step 1 true]

theorem mutex_locked_once_pushedOutside :
    Exists fun c => Run (Restrict Permitted (Stepping next)) (new (List.replicate 8 0))
        pushedOutside c ∧
      (c.socket.connected = true ∧ c.socket.inflight = [⟨0, [1]⟩] ∧
        c.socket.accepted = [[1], [2]]) ∧
      forall thread, ¬ c.socket.Relocks thread := by
  have facts : (execute (guarded Permitted next) (new (List.replicate 8 0)) pushedOutside).map
      (fun c => (c.socket.connected, c.socket.inflight, c.socket.accepted)) =
      some (true, [⟨0, [1]⟩], [[1], [2]]) := by
    decide
  rcases Run.of_guarded_map facts with ⟨c, run, same⟩
  simp only [Prod.mk.injEq] at same
  exact ⟨c, run, same, (mutex_locked_once run).1⟩

end Called

namespace Socket

/-- One `Send` on a connected socket. -/
def oneSender : List Event :=
  [.call 0 .connect, .step 0 true, .step 0 true, .step 0 true, .call 0 (.send [1]), .step 0 true,
    .step 0 true, .step 0 true]

/-- The thread of `Send` stands in `WriteCallback` before the mutex that it
holds, for ever. -/
theorem mutex_relocked :
    Exists fun s => Run (Stepping nextStd) (new (List.replicate 8 0)) oneSender s ∧
      s.connected = true ∧ s.Relocks 0 := by
  have facts : (execute nextStd (new (List.replicate 8 0)) oneSender).map
      (fun s => (s.connected, decide (s.Relocks 0))) = some (true, true) := by
    decide
  rcases Run.of_execute_map facts with ⟨s, run, same⟩
  simp only [Prod.mk.injEq, decide_eq_true_eq] at same
  exact ⟨s, run, same⟩

end Socket
end Iocp
end ServerTech
