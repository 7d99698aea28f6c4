import ServerTech.Iocp.Socket

namespace ServerTech
namespace Iocp

open Transition

/-!
# Teardown never closes the descriptor

`Disconnect` clears the connected flag, takes the socket off the list of the
manager and calls `Delete`.  `Delete` is meant to run once, but its guard
returns while the socket is not deleted, and nothing but the line behind the
guard marks it deleted.  So no socket is ever deleted and no descriptor is
ever closed, whichever of the four ways into the teardown is taken, in any
order and by any number of threads.
-/

/-- The calls of `CloseSocket` that an operation makes. -/
def Op.closings : Op -> Nat
  | .closeSocket => 1
  | _ => 0

namespace Socket

/-- What a teardown should leave behind. -/
structure TornDown (s : Socket) : Prop where
  disconnected : s.connected = false
  deleted : s.deleted = true
  unlisted : s.registered = false
  notified : s.disconnects = 1
  closed : s.closes = 1

/-- The socket is not deleted, and nobody is about to close its descriptor. -/
structure Undeleted (s : Socket) : Prop where
  alive : s.deleted = false
  unclosed : s.closes = 0
  quiet : forall thread, tally Op.closings (s.stack thread) = 0

theorem new_undeleted (block : List UInt8) : (new block).Undeleted where
  alive := rfl
  unclosed := rfl
  quiet := fun _ => rfl

variable {s after : Socket} {thread : Nat} {op : Op} {ops rest : List Op}

theorem Undeleted.change (undeleted : s.Undeleted)
    (stack : after.stack = Function.update s.stack thread ops) (deleted : after.deleted = s.deleted)
    (closes : after.closes = s.closes) (quiet : tally Op.closings ops = 0) : after.Undeleted where
  alive := deleted.trans undeleted.alive
  unclosed := closes.trans undeleted.unclosed
  quiet := by
    rw [stack, Function.forall_update_iff s.stack fun _ ops => tally Op.closings ops = 0]
    exact ⟨quiet, fun other _ => undeleted.quiet other⟩

theorem Performs.undeleted (performs : Performs s thread op after ops) (alive : s.deleted = false)
    (first : op.closings = 0) :
    after.deleted = s.deleted ∧ after.closes = s.closes ∧ tally Op.closings ops = 0 := by
  cases performs with
  | accept sends taken room =>
      refine ⟨rfl, rfl, ?_⟩
      rcases payload_cases sends with ⟨_, rfl⟩ | ⟨packet, _, _, rfl⟩ | ⟨packet, _, _, rfl⟩ <;> rfl
  | received present some_ => exact ⟨rfl, rfl, tally_replies (fun _ => rfl) rfl _⟩
  | delete gone =>
      rw [alive] at gone
      cases gone
  | closeSocket => cases first
  | _ => exact ⟨rfl, rfl, rfl⟩

theorem Moves.undeleted {event : Event} (moves : Moves s event after) (undeleted : s.Undeleted) :
    after.Undeleted := by
  cases moves with
  | call idle inside =>
      rename_i thread entry
      refine undeleted.change rfl rfl rfl ?_
      cases entry with
      | _ => rfl
  | step top performs =>
      rename_i thread succeeds op rest ops middle
      have quiet := undeleted.quiet thread
      rw [top, tally_cons] at quiet
      rcases performs.undeleted undeleted.alive (by omega) with ⟨deleted, closes, pushed⟩
      refine undeleted.change (stack_setStack performs.stack _ _) deleted closes ?_
      rw [tally_append, pushed]
      omega
  | dequeue idle outstanding some_ part => exact undeleted.change rfl rfl rfl rfl
  | dequeueError idle outstanding =>
      exact ⟨undeleted.alive, undeleted.unclosed, undeleted.quiet⟩

theorem run_undeleted {events : List Event} (run : Run (Stepping next) s events after)
    (undeleted : s.Undeleted) : after.Undeleted := by
  refine @Run.invariant _ _ _ Undeleted ?_ _ _ _ run undeleted
  intro before event after undeleted taken
  exact (next_moves taken).undeleted undeleted

/-- Whatever a socket is put through, before and after it is connected, it is
never torn down: it is not deleted and its descriptor is not closed. -/
theorem teardown_incomplete {block : List UInt8} {earlier teardown : List Event}
    (run : Run (Stepping next) (new block) earlier s) (tears : Run (Stepping next) s teardown after) :
    after.deleted = false ∧ after.closes = 0 ∧ ¬ after.TornDown := by
  have undeleted := run_undeleted tears (run_undeleted run (new_undeleted block))
  refine ⟨undeleted.alive, undeleted.unclosed, ?_⟩
  intro torn
  have gone := torn.deleted
  rw [undeleted.alive] at gone
  cases gone

/-- A socket is connected. -/
def connecting : List Event :=
  [.call 0 .connect, .step 0 true, .step 0 true, .step 0 true]

/-- Every way into the teardown, each run to its end: a failed `WSASend`, a read
completion without bytes, `Delete`, and `Disconnect`. -/
def tearing : List Event :=
  [.call 0 (.send [1]), .step 0 true, .step 0 true, .step 0 true, .step 0 false] ++
    List.replicate 9 (.step 0 true) ++
    [.call 1 (.readComplete 0 []), .step 1 true, .step 1 true, .call 2 .delete, .step 2 true,
      .call 0 .disconnect, .step 0 true]

theorem teardown_incomplete_tearing :
    Exists fun s => Exists fun after =>
      Run (Stepping next) (new (List.replicate 8 0)) connecting s ∧
      Run (Stepping next) s tearing after ∧
      (s.connected = true ∧ after.connected = false ∧ after.disconnects = 1) ∧
      after.deleted = false ∧ after.closes = 0 ∧ ¬ after.TornDown := by
  have facts : (execute next (new (List.replicate 8 0)) connecting).bind (fun s =>
      (execute next s tearing).map fun after =>
        (s.connected, after.connected, after.disconnects)) = some (true, false, 1) := by
    decide
  rcases Option.bind_eq_some_iff.mp facts with ⟨s, connected, facts⟩
  rcases Run.of_execute_map facts with ⟨after, tears, same⟩
  simp only [Prod.mk.injEq] at same
  have run := Run.of_execute connected
  exact ⟨s, after, run, tears, same, teardown_incomplete run tears⟩

/-- One `Disconnect` of a connected socket, run to its end, leaves the socket
undeleted and its descriptor open. -/
theorem disconnect_incomplete :
    Exists fun s => Exists fun after =>
      Run (Stepping next) (new (List.replicate 8 0)) connecting s ∧
      Run (Stepping next) s (.call 0 .disconnect :: List.replicate 6 (.step 0 true)) after ∧
      (s.connected = true ∧ after.stack 0 = []) ∧
      after.deleted = false ∧ after.closes = 0 ∧ ¬ after.TornDown := by
  have facts : (execute next (new (List.replicate 8 0)) connecting).bind (fun s =>
      (execute next s (.call 0 .disconnect :: List.replicate 6 (.step 0 true))).map fun after =>
        ((s.connected, after.stack 0), after.deleted, after.closes)) =
          some ((true, []), false, 0) := by
    decide
  rcases Option.bind_eq_some_iff.mp facts with ⟨s, connected, facts⟩
  rcases Run.of_execute_map facts with ⟨after, tears, same⟩
  simp only [Prod.mk.injEq] at same
  rcases same with ⟨idle, alive, unclosed⟩
  refine ⟨s, after, .of_execute connected, tears, idle, alive, unclosed, ?_⟩
  intro complete
  have gone := complete.deleted
  rw [alive] at gone
  cases gone

end Socket
end Iocp
end ServerTech
