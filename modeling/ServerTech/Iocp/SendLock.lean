import ServerTech.Iocp.SendOrder

namespace ServerTech
namespace Iocp

open Transition

/-!
# The send lock and the outstanding write

When no thread is inside the socket, the send lock should be one exactly when a
write is outstanding.  Two paths lose the lock.  `WriteCallback` returns early
on a socket that is not connected, without the `DecSendLock` of its other
exits, and `WorkerRun` ignores a completion with an error status.

A lock that is given back can leave bytes behind only after a failed `WSASend`,
and then the socket is about to be disconnected.  The bytes stay in the buffer,
so connecting the socket again finds them with nobody to send them.

In a run without these three kinds of steps the lock is paired with a write, and
the write buffer of a connected socket is being sent.
-/

/-! ## The mutex -/

/-- The times an operation gives the mutex back. -/
def Op.unlocks : Op -> Nat
  | .unlock => 1
  | _ => 0

/-- The operations that need a burst of their thread. -/
def Op.insideBurst : Op -> Nat
  | .burstSend _ => 1
  | _ => 0

namespace Socket

/-- Every acquisition of the mutex is a burst or an operation that gives it
back, and bytes are added in a burst only. -/
structure Exclusive (s : Socket) : Prop where
  depth : forall thread, s.mutex.depth thread = s.bursts thread + tally Op.unlocks (s.stack thread)
  inside : forall thread, 0 < tally Op.insideBurst (s.stack thread) -> 0 < s.bursts thread

theorem new_exclusive (block : List UInt8) : (new block).Exclusive where
  depth := fun _ => rfl
  inside := fun _ some_ => absurd some_ (Nat.lt_irrefl 0)

variable {s after : Socket} {holder : Holder} {thread : Nat} {op : Op} {ops rest : List Op}
  {mutex : Mutex}

/-- A change of one thread's list, acquisitions and bursts. -/
theorem Exclusive.change (exclusive : s.Exclusive)
    (stack : after.stack = Function.update s.stack thread ops)
    (others : forall other, other ≠ thread ->
      after.mutex.depth other = s.mutex.depth other ∧ after.bursts other = s.bursts other)
    (own : after.mutex.depth thread = after.bursts thread + tally Op.unlocks ops)
    (inside : 0 < tally Op.insideBurst ops -> 0 < after.bursts thread) : after.Exclusive := by
  constructor
  · rw [stack, Function.forall_update_iff s.stack fun other ops =>
      after.mutex.depth other = after.bursts other + tally Op.unlocks ops]
    refine ⟨own, ?_⟩
    intro other apart
    rw [(others other apart).1, (others other apart).2]
    exact exclusive.depth other
  · rw [stack, Function.forall_update_iff s.stack fun other ops =>
      0 < tally Op.insideBurst ops -> 0 < after.bursts other]
    refine ⟨inside, ?_⟩
    intro other apart
    rw [(others other apart).2]
    exact exclusive.inside other

/-- An operation that accounts for its acquisitions. -/
theorem Exclusive.step (exclusive : s.Exclusive) (top : s.stack thread = op :: rest)
    (stack : after.stack = s.stack)
    (others : forall other, other ≠ thread ->
      after.mutex.depth other = s.mutex.depth other ∧ after.bursts other = s.bursts other)
    (own : after.mutex.depth thread + op.unlocks + s.bursts thread =
      s.mutex.depth thread + tally Op.unlocks ops + after.bursts thread)
    (grows : s.bursts thread ≤ after.bursts thread)
    (outside : tally Op.insideBurst ops = 0) :
    (after.setStack thread (ops ++ rest)).Exclusive := by
  have before := exclusive.depth thread
  have burst := exclusive.inside thread
  rw [top, tally_cons] at before burst
  refine exclusive.change (stack_setStack stack _ _) others ?_ ?_
  · rw [tally_append]
    change after.mutex.depth thread = after.bursts thread + _
    omega
  · rw [tally_append, outside, Nat.zero_add]
    intro some_
    exact Nat.lt_of_lt_of_le (burst (by omega)) grows

theorem Exclusive.keep (exclusive : s.Exclusive) (top : s.stack thread = op :: rest)
    (stack : after.stack = s.stack) (mutex : after.mutex = s.mutex)
    (bursts : after.bursts = s.bursts) (unlocks : tally Op.unlocks ops = op.unlocks)
    (outside : tally Op.insideBurst ops = 0) :
    (after.setStack thread (ops ++ rest)).Exclusive := by
  refine exclusive.step top stack ?_ ?_ ?_ outside
  · intro other _
    rw [mutex, bursts]
    exact ⟨rfl, rfl⟩
  · rw [mutex, bursts, unlocks]
  · exact Nat.le_of_eq (congrFun bursts.symm thread)

theorem Exclusive.take (exclusive : s.Exclusive) (top : s.stack thread = op :: rest)
    (taken : s.mutex.acquire thread = some mutex) (stack : after.stack = s.stack)
    (held : after.mutex = mutex) (bursts : after.bursts = s.bursts)
    (unlocks : tally Op.unlocks ops = op.unlocks + 1)
    (outside : tally Op.insideBurst ops = 0) :
    (after.setStack thread (ops ++ rest)).Exclusive := by
  rcases Mutex.acquire_spec taken with ⟨own, others⟩
  refine exclusive.step top stack ?_ ?_ ?_ outside
  · intro other apart
    rw [held, bursts, (others other apart).1, (others other apart).2]
    exact ⟨rfl, rfl⟩
  · rw [held, bursts, unlocks, own]
    omega
  · exact Nat.le_of_eq (congrFun bursts.symm thread)

theorem payload_locks {bytes : List UInt8} {following : List Op}
    (sends : payload op = some (bytes, following)) :
    op.unlocks = 0 ∧ tally Op.unlocks following = 0 ∧ tally Op.insideBurst following = 0 := by
  rcases payload_cases sends with ⟨rfl, rfl⟩ | ⟨packet, rfl, rfl, rfl⟩ | ⟨packet, rfl, rfl, rfl⟩ <;>
    exact ⟨rfl, rfl, rfl⟩

theorem Performs.exclusive (performs : Performs s thread op after ops) (exclusive : s.Exclusive)
    (top : s.stack thread = op :: rest) : (after.setStack thread (ops ++ rest)).Exclusive := by
  cases performs with
  | accept sends taken room =>
      rcases payload_locks sends with ⟨none_, following, outside⟩
      refine exclusive.take top taken rfl rfl rfl ?_ ?_
      · rw [none_, tally_cons, tally_cons, following]
        rfl
      · rw [tally_cons, tally_cons, outside]
        rfl
  | refuse sends taken full =>
      refine exclusive.take top taken rfl rfl rfl ?_ rfl
      rw [(payload_locks sends).1]
      rfl
  | unlock =>
      have holds : 0 < s.mutex.depth thread := by
        rw [exclusive.depth, top, tally_cons]
        change 0 < _ + (1 + _)
        omega
      rcases Mutex.release_spec holds with ⟨own, others⟩
      refine exclusive.step top rfl ?_ ?_ (Nat.le_refl _) rfl
      · intro other apart
        change s.mutex.release.depth other = _ ∧ _
        rw [(others other apart).1, (others other apart).2]
        exact ⟨rfl, rfl⟩
      · exact congrArg (. + s.bursts thread) own
  | burstBegin taken =>
      rcases Mutex.acquire_spec taken with ⟨own, others⟩
      refine exclusive.step top rfl ?_ ?_ ?_ rfl
      · intro other apart
        refine ⟨?_, Function.update_of_ne apart _ _⟩
        exact (others other apart).2.trans (others other apart).1.symm
      · change _ + 0 + _ = _ + 0 + Function.update s.bursts thread _ thread
        rw [Function.update_self]
        rw [show Mutex.depth _ thread = s.mutex.depth thread + 1 from own]
        omega
      · change _ ≤ Function.update s.bursts thread _ thread
        rw [Function.update_self]
        exact Nat.le_succ _
  | submitted taken some_ => exact exclusive.take top taken rfl rfl rfl rfl rfl
  | failed taken some_ => exact exclusive.take top taken rfl rfl rfl rfl rfl
  | nothing taken none_ => exact exclusive.take top taken rfl rfl rfl rfl rfl
  | more taken left_ => exact exclusive.take top taken rfl rfl rfl rfl rfl
  | last taken none_ => exact exclusive.take top taken rfl rfl rfl rfl rfl
  | received alive some_ =>
      exact exclusive.keep top rfl rfl rfl (tally_replies (fun _ => rfl) rfl _)
        (tally_replies (fun _ => rfl) rfl _)
  | _ => exact exclusive.keep top rfl rfl rfl rfl rfl

/-- A call puts the mutex it gives back on the list instead of the burst. -/
theorem Moves.exclusive {event : Event} (moves : Moves s event after) (exclusive : s.Exclusive) :
    after.Exclusive := by
  cases moves with
  | call idle inside =>
      rename_i thread entry
      have before := exclusive.depth thread
      rw [idle] at before
      refine exclusive.change rfl ?_ ?_ ?_
      · intro other apart
        refine ⟨rfl, ?_⟩
        change (if _ then Function.update _ _ _ else _) other = _
        split
        · exact Function.update_of_ne apart _ _
        · rfl
      · cases entry with
        | burstEnd =>
            have some_ := inside rfl
            change s.mutex.depth thread = Function.update s.bursts thread _ thread + 1
            rw [Function.update_self]
            change _ = _ + 0 at before
            omega
        | _ => exact before
      · cases entry with
        | burstSend bytes => exact fun _ => inside rfl
        | _ => exact fun none_ => absurd none_ (Nat.lt_irrefl 0)
  | step top performs => exact performs.exclusive exclusive top
  | dequeue idle outstanding some_ part =>
      rename_i thread index len span
      have before := exclusive.depth thread
      rw [idle] at before
      exact exclusive.change rfl (fun _ _ => ⟨rfl, rfl⟩) before
        fun none_ => absurd none_ (Nat.lt_irrefl 0)
  | dequeueError idle outstanding => exact ⟨exclusive.depth, exclusive.inside⟩

/-! ## Giving the lock back -/

/-- A thread is about to clear the connected flag, if it is set. -/
def Closing (s : Socket) : Prop :=
  Exists fun thread => .disconnect ∈ s.stack thread ∨ .clearConnected ∈ s.stack thread

/-- The lock is given back by a thread that has the mutex and found nothing to
send, or whose `WSASend` failed.  While it is free, a connected socket has
nothing to send but what was not pushed yet, unless it is being disconnected. -/
structure Served (s : Socket) : Prop where
  releasing : forall thread, .decSendLock ∈ s.stack thread -> Exists fun rest =>
    (s.stack thread = .decSendLock :: .unlock :: rest ∧ s.writeBuffer.content = []) ∨
      s.stack thread = .decSendLock :: .disconnect :: .unlock :: rest
  served : s.writeLock = 0 -> s.connected = true -> s.writeBuffer.content ≠ [] ->
    s.unpushed = true ∨ s.Closing

theorem new_served (block : List UInt8) : (new block).Served where
  releasing := by
    intro thread member
    cases member
  served := fun _ _ some_ => absurd (Ring.allocate_content block) some_

theorem Closing.persist (closing : s.Closing) (top : s.stack thread = op :: rest)
    (stack : after.stack = s.stack) (stays : op ≠ .disconnect) (stays' : op ≠ .clearConnected) :
    (after.setStack thread (ops ++ rest)).Closing := by
  rcases closing with ⟨owner, member⟩
  refine ⟨owner, ?_⟩
  change _ ∈ Function.update after.stack thread (ops ++ rest) owner ∨
    _ ∈ Function.update after.stack thread (ops ++ rest) owner
  by_cases same : owner = thread
  · subst same
    rw [top] at member
    rw [Function.update_self]
    refine member.imp ?_ ?_
    · intro found
      exact List.mem_append_right _ ((List.mem_cons.mp found).resolve_left stays.symm)
    · intro found
      exact List.mem_append_right _ ((List.mem_cons.mp found).resolve_left stays'.symm)
  · rw [Function.update_of_ne same, stack]
    exact member

theorem not_mem_of_token (none_ : tally Op.token ops = 0) : .decSendLock ∉ ops := by
  intro member
  have one := weight_le_tally Op.token member
  rw [none_] at one
  exact absurd one (Nat.not_succ_le_zero 0)

/-- An operation that gives the lock back stands first in its list. -/
theorem Served.not_later (served : s.Served) (order : s.Order holder)
    (top : s.stack thread = op :: rest) : .decSendLock ∉ rest := by
  intro later
  have member : .decSendLock ∈ s.stack thread := by
    rw [top]
    exact List.mem_cons_of_mem op later
  have first : op = .decSendLock := by
    rcases served.releasing thread member with ⟨_, ⟨list, _⟩ | list⟩
    · rw [top] at list
      exact (List.cons.inj list).1
    · rw [top] at list
      exact (List.cons.inj list).1
  exact not_mem_of_token (order.holds top (by rw [first]; rfl)).2 later

/-- No other thread adds bytes while a thread has the mutex. -/
theorem Performs.content_eq_nil (performs : Performs s thread op after ops)
    (exclusive : s.Exclusive) (top : s.stack thread = op :: rest) {other : Nat}
    (apart : other ≠ thread) (held : 0 < s.mutex.depth other)
    (empty : s.writeBuffer.content = []) : after.writeBuffer.content = [] := by
  cases performs with
  | accept sends taken room =>
      have alone := ((Mutex.acquire_spec taken).2 other apart).1
      omega
  | refuse sends taken full =>
      have alone := ((Mutex.acquire_spec taken).2 other apart).1
      omega
  | burstAccept room =>
      have burst := exclusive.inside thread (by rw [top]; exact Nat.add_pos_left Nat.one_pos _)
      have own : 0 < s.mutex.depth thread := by
        rw [exclusive.depth]
        omega
      have alone := s.mutex.depth_exclusive apart own
      omega
  | burstRefuse full =>
      exact (s.writeBuffer.write_content_of_full full).trans empty
  | more taken left_ =>
      change (s.writeBuffer.remove _).content = []
      rw [s.writeBuffer.remove_content, empty, List.drop_nil]
  | last taken none_ =>
      change (s.writeBuffer.remove _).content = []
      rw [s.writeBuffer.remove_content, empty, List.drop_nil]
  | _ => exact empty

/-- What an operation puts on the list to give the lock back. -/
theorem Performs.release (performs : Performs s thread op after ops)
    (member : .decSendLock ∈ ops) :
    (ops = [.decSendLock, .unlock] ∧ after.writeBuffer.content = []) ∨
      ops = [.decSendLock, .disconnect, .unlock] := by
  cases performs with
  | accept sends taken room =>
      refine absurd member (not_mem_of_token ?_)
      rw [tally_cons, tally_cons, (payload_quiet sends).2.2]
      rfl
  | received alive some_ =>
      exact absurd member (not_mem_of_token (tally_replies (fun _ => rfl) rfl _))
  | failed taken some_ => exact Or.inr rfl
  | nothing taken none_ => exact Or.inl ⟨rfl, s.writeBuffer.content_eq_nil none_⟩
  | last taken none_ => exact Or.inl ⟨rfl, (s.writeBuffer.remove _).content_eq_nil none_⟩
  | _ => simp only [List.mem_cons, List.not_mem_nil, reduceCtorEq, or_false] at member

theorem Performs.releasing (performs : Performs s thread op after ops)
    (exclusive : s.Exclusive) (served : s.Served) (order : s.Order holder)
    (top : s.stack thread = op :: rest) (other : Nat)
    (member : .decSendLock ∈ Function.update s.stack thread (ops ++ rest) other) :
    Exists fun left =>
      (Function.update s.stack thread (ops ++ rest) other = .decSendLock :: .unlock :: left ∧
        after.writeBuffer.content = []) ∨
      Function.update s.stack thread (ops ++ rest) other =
        .decSendLock :: .disconnect :: .unlock :: left := by
  by_cases same : other = thread
  · subst same
    rw [Function.update_self] at member ⊢
    have first := (List.mem_append.mp member).resolve_right (served.not_later order top)
    refine ⟨rest, (performs.release first).imp ?_ ?_⟩
    · rintro ⟨list, empty⟩
      rw [list]
      exact ⟨rfl, empty⟩
    · intro list
      rw [list]
      rfl
  · rw [Function.update_of_ne same] at member ⊢
    rcases served.releasing other member with ⟨left, ⟨list, empty⟩ | list⟩
    · have held : 0 < s.mutex.depth other := by
        rw [exclusive.depth, list]
        exact Nat.add_pos_right _ (Nat.add_pos_right _ (Nat.add_pos_left Nat.one_pos _))
      exact ⟨left, Or.inl ⟨list, performs.content_eq_nil exclusive top same held empty⟩⟩
    · exact ⟨left, Or.inr list⟩

theorem Served.keep (served : s.Served) (top : s.stack thread = op :: rest)
    (stack : after.stack = s.stack) (stays : op ≠ .disconnect ∧ op ≠ .clearConnected)
    (lock : after.writeLock = s.writeLock) (connected : after.connected = s.connected)
    (content : after.writeBuffer.content = s.writeBuffer.content)
    (unpushed : after.unpushed = s.unpushed) (idle : after.writeLock = 0)
    (opened : after.connected = true) (some_ : after.writeBuffer.content ≠ []) :
    after.unpushed = true ∨ (after.setStack thread (ops ++ rest)).Closing := by
  rw [lock] at idle
  rw [connected] at opened
  rw [content] at some_
  rw [unpushed]
  refine (served.served idle opened some_).imp_right ?_
  intro closing
  exact closing.persist top stack stays.1 stays.2

/-- While the lock is free after an operation, there is nothing to send but what
was not pushed, or the socket is being disconnected. -/
theorem Performs.served (performs : Performs s thread op after ops) (served : s.Served)
    (order : s.Order holder) (top : s.stack thread = op :: rest)
    (connects : op = .setConnected ->
      s.writeBuffer.getSize = 0 ∨ s.writeLock ≠ 0 ∨ s.unpushed = true)
    (idle : after.writeLock = 0) (opened : after.connected = true)
    (some_ : after.writeBuffer.content ≠ []) :
    after.unpushed = true ∨ (after.setStack thread (ops ++ rest)).Closing := by
  cases performs with
  | accept sends taken room => exact Or.inl rfl
  | refuse sends taken full =>
      have stays : op ≠ .disconnect ∧ op ≠ .clearConnected := by
        constructor <;> rintro rfl <;> cases sends
      exact served.keep top rfl stays rfl rfl (s.writeBuffer.write_content_of_full full) rfl idle opened some_
  | burstAccept room => exact Or.inl rfl
  | burstRefuse full =>
      exact served.keep top rfl ⟨nofun, nofun⟩ rfl rfl (s.writeBuffer.write_content_of_full full) rfl idle opened some_
  | acquired zero => cases idle
  | busy locked => cases idle
  | decSendLock =>
      right
      refine ⟨thread, Or.inl ?_⟩
      change _ ∈ Function.update s.stack thread rest thread
      rw [Function.update_self]
      rcases served.releasing thread (by rw [top]; exact List.mem_cons_self) with
        ⟨left, ⟨list, empty⟩ | list⟩
      · exact absurd empty some_
      · rw [top] at list
        rw [(List.cons.inj list).2]
        exact List.mem_cons_self
  | more taken left_ =>
      have locked := order.locked top rfl
      change s.writeLock = 0 at idle
      omega
  | last taken none_ =>
      have locked := order.locked top rfl
      change s.writeLock = 0 at idle
      omega
  | setConnected =>
      rcases connects rfl with empty | locked | unpushed
      · rw [s.writeBuffer.getSize_eq] at empty
        exact absurd (List.length_eq_zero_iff.mp empty) some_
      · exact absurd idle locked
      · exact Or.inl unpushed
  | disconnect connected =>
      right
      refine ⟨thread, Or.inr ?_⟩
      change _ ∈ Function.update s.stack thread _ thread
      rw [Function.update_self]
      exact List.mem_cons_self
  | disconnected closed =>
      rw [closed] at opened
      cases opened
  | clearConnected => cases opened
  | _ => exact served.keep top rfl ⟨nofun, nofun⟩ rfl rfl rfl rfl idle opened some_

/-! ## Runs -/

/-- The condition on the steps: `WriteCallback` finds the socket connected, no
completion has an error status, and the socket is connected only while its
write buffer is empty, is being sent, or was not pushed. -/
def KeepsLock (s : Socket) : Event -> Prop
  | .step thread _ =>
      ((s.stack thread).head? = some .writeCallback -> s.connected = true) ∧
        ((s.stack thread).head? = some .setConnected ->
          s.writeBuffer.getSize = 0 ∨ s.writeLock ≠ 0 ∨ s.unpushed = true)
  | .dequeueError _ _ => False
  | _ => True

instance (s : Socket) (event : Event) : Decidable (s.KeepsLock event) :=
  match event with
  | .step thread _ => inferInstanceAs (Decidable
      (((s.stack thread).head? = some .writeCallback -> s.connected = true) ∧
        ((s.stack thread).head? = some .setConnected ->
          s.writeBuffer.getSize = 0 ∨ s.writeLock ≠ 0 ∨ s.unpushed = true)))
  | .dequeueError _ _ => inferInstanceAs (Decidable False)
  | .call _ _ | .dequeue _ _ _ => inferInstanceAs (Decidable True)

/-- The token has a place and is not lost, the mutex excludes, and bytes are
served. -/
structure Paired (s : Socket) : Prop where
  order : Exists fun holder => s.Order holder ∧ holder ≠ .lost
  exclusive : s.Exclusive
  served : s.Served

theorem new_paired (block : List UInt8) : (new block).Paired where
  order := ⟨.free, new_order block, fun lost => nomatch lost⟩
  exclusive := new_exclusive block
  served := new_served block

theorem KeepsLock.not_loses {event : Event} (keeps : s.KeepsLock event) : ¬ s.Loses event := by
  intro loses
  cases event with
  | step thread succeeds =>
      have connected := keeps.1 loses.1
      rw [loses.2] at connected
      cases connected
  | dequeueError thread index => exact keeps
  | _ => exact loses

/-- A thread that was idle enters the socket. -/
theorem Served.enter (served : s.Served) (idle : s.stack thread = [])
    (stack : after.stack = Function.update s.stack thread ops) (quiet : .decSendLock ∉ ops)
    (content : after.writeBuffer.content = s.writeBuffer.content)
    (lock : after.writeLock = s.writeLock) (connected : after.connected = s.connected)
    (unpushed : after.unpushed = s.unpushed) : after.Served := by
  constructor
  · intro other member
    rw [stack] at member ⊢
    rw [content]
    by_cases same : other = thread
    · rw [same, Function.update_self] at member
      exact absurd member quiet
    · rw [Function.update_of_ne same] at member ⊢
      exact served.releasing other member
  · intro free opened some_
    rw [lock] at free
    rw [connected] at opened
    rw [content] at some_
    rw [unpushed]
    refine (served.served free opened some_).imp_right ?_
    rintro ⟨owner, member⟩
    refine ⟨owner, ?_⟩
    by_cases same : owner = thread
    · rw [same, idle] at member
      rcases member with found | found <;> cases found
    · rw [stack, Function.update_of_ne same]
      exact member

theorem Moves.served {event : Event} (moves : Moves s event after) (keeps : s.KeepsLock event)
    (exclusive : s.Exclusive) (served : s.Served) (order : s.Order holder) : after.Served := by
  cases moves with
  | call idle inside =>
      rename_i thread entry
      exact served.enter idle rfl (not_mem_of_token (token_ops entry)) rfl rfl rfl rfl
  | step top performs =>
      refine ⟨?_, ?_⟩
      · intro other member
        rw [stack_setStack performs.stack] at member ⊢
        exact performs.releasing exclusive served order top other member
      · intro idle opened some_
        refine performs.served served order top ?_ idle opened some_
        intro connects
        apply keeps.2
        rw [top, connects]
        rfl
  | dequeue idle outstanding some_ part =>
      refine served.enter idle rfl ?_ rfl rfl rfl rfl
      intro member
      cases List.mem_singleton.mp member
  | dequeueError idle outstanding => exact keeps.elim

theorem Paired.step {event : Event} (paired : s.Paired) (keeps : s.KeepsLock event)
    (moves : Moves s event after) : after.Paired := by
  rcases paired with ⟨⟨holder, order, kept⟩, exclusive, served⟩
  rcases moves.order order with ⟨holder', order', lost⟩
  refine ⟨⟨holder', order', ?_⟩, moves.exclusive exclusive,
    moves.served keeps exclusive served order⟩
  intro gone
  exact (lost gone).elim kept keeps.not_loses

theorem run_paired {block : List UInt8} {events : List Event}
    (run : Run (Restrict KeepsLock (Stepping next)) (new block) events s) : s.Paired := by
  refine @Run.invariant _ _ _ Paired ?_ _ _ _ run (new_paired block)
  rintro before event after paired ⟨keeps, taken⟩
  exact paired.step keeps (next_moves taken)

/-- In a run whose steps keep the lock, whenever no thread is inside the socket
the lock is one exactly when a write is outstanding, and the bytes of a
connected socket are being sent if they were pushed. -/
theorem lock_iff_outstanding {block : List UInt8} {events : List Event}
    (run : Run (Restrict KeepsLock (Stepping next)) (new block) events s)
    (idle : forall thread, s.stack thread = []) :
    (s.writeLock = 1 ↔ s.inflight.length = 1) ∧
      (s.connected = true -> s.writeBuffer.getSize ≠ 0 -> s.unpushed = false ->
        s.inflight.length = 1) := by
  rcases run_paired run with ⟨⟨holder, order, kept⟩, _, served⟩
  have lock : s.writeLock = holder.lock := order.sound.lock
  have spans : s.inflight = holder.spans := order.sound.spans
  rw [lock, spans]
  cases holder with
  | free =>
      refine ⟨by decide, ?_⟩
      intro connected some_ pushed
      rw [s.writeBuffer.getSize_eq] at some_
      have content : s.writeBuffer.content ≠ [] := fun empty => some_ (by rw [empty]; rfl)
      rcases served.served lock connected content with unpushed | ⟨thread, member⟩
      · rw [pushed] at unpushed
        cases unpushed
      · rw [idle] at member
        rcases member with found | found <;> cases found
  | thread number count =>
      have tokens := order.tokens number
      rw [idle, Holder.tokens_thread] at tokens
      cases tokens
  | kernel span => exact ⟨⟨fun _ => rfl, fun _ => rfl⟩, fun _ _ _ => rfl⟩
  | lost => exact absurd rfl kept

theorem lock_iff_outstanding_twoSenders :
    Exists fun s => Run (Restrict KeepsLock (Stepping next)) (new (List.replicate 8 0)) twoSenders s ∧
      (forall thread, s.stack thread = []) ∧ (s.connected = true ∧ s.writeBuffer.getSize = 3) ∧
      (s.writeLock = 1 ↔ s.inflight.length = 1) ∧ s.inflight.length = 1 := by
  have facts : (execute (guarded KeepsLock next) (new (List.replicate 8 0)) twoSenders).map
      (fun s => (twoSenders.all fun event => s.stack event.thread = [], s.connected,
        s.writeBuffer.getSize, s.unpushed)) = some (true, true, 3, false) := by
    decide
  rcases Run.of_guarded_map facts with ⟨s, run, same⟩
  simp only [Prod.mk.injEq] at same
  rcases same with ⟨outside, connected, size, pushed⟩
  have idle := run_idle run.unrestrict outside
  have paired := lock_iff_outstanding run idle
  refine ⟨s, run, idle, ⟨connected, size⟩, paired.1, paired.2 connected ?_ pushed⟩
  rw [size]
  decide

/-- A thread sends before the socket is connected. -/
def earlySender : List Event :=
  [.call 0 (.send [1]), .step 0 true, .step 0 true, .step 0 true, .step 0 true, .call 0 .connect,
    .step 0 true, .step 0 true, .step 0 true]

/-- The lock stays one with nothing outstanding, so the byte is never sent. -/
theorem lock_leaked :
    Exists fun s => Run (Stepping next) (new (List.replicate 8 0)) earlySender s ∧
      (forall thread, s.stack thread = []) ∧ (s.writeLock = 1 ∧ s.inflight = []) ∧
      s.connected = true ∧ s.writeBuffer.getSize = 1 ∧ s.unpushed = false := by
  have facts : (execute next (new (List.replicate 8 0)) earlySender).map
      (fun s => (earlySender.all fun event => s.stack event.thread = [],
        (s.writeLock, s.inflight), s.connected, s.writeBuffer.getSize, s.unpushed)) =
        some (true, (1, []), true, 1, false) := by
    decide
  rcases Run.of_execute_map facts with ⟨s, run, same⟩
  simp only [Prod.mk.injEq] at same
  rcases same with ⟨outside, same⟩
  exact ⟨s, run, run_idle run outside, same⟩

end Socket
end Iocp
end ServerTech
