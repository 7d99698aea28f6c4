import ServerTech.CoroutineSets.PrivateStacks

namespace ServerTech
namespace CoroutineSets

open Transition

variable {stackSize : Nat} {Func Data Registers Memory : Type}
  {m after : Machine stackSize Func Data Registers Memory}
  {program : Program Func Data Registers Memory}

/-!
# The scheduler over whole runs

When the scheduler stops, what its counters say, and that the coroutines do not
notice that they share a stack.
-/

/-- The program ends, misuses the scheduler, or leaves its own bounds. -/
inductive Misuse (program : Program Func Data Registers Memory)
    (m : Machine stackSize Func Data Registers Memory) : Stop -> Prop
  | exit : m.self = none -> m.move program = .finish -> Misuse program m .exit
  | nested {id : Int} {back : Registers} :
      m.self ≠ none -> m.move program = .resume id back -> Misuse program m .nested
  | badId {id : Int} {back : Registers} :
      m.self = none -> m.move program = .resume id back -> ¬(0 ≤ id ∧ id < m.schedule.cap) ->
      Misuse program m .badId
  | badStatus {id : Int} {back : Status -> Registers} :
      m.move program = .status id back -> ¬(0 ≤ id ∧ id < m.schedule.cap) -> Misuse program m .badId
  | notRunning {back : Registers} :
      m.self = none -> m.move program = .yield back -> Misuse program m .notRunning
  | stackOverflow {registers : Registers} {stack : List UInt8} {memory : Memory} :
      m.self ≠ none -> m.move program = .work registers stack memory -> stackSize < stack.length ->
      Misuse program m .stackOverflow
  | intOverflow {func : Func} {ud : Data} {back : Int -> Registers} :
      m.move program = .new func ud back -> m.schedule.nco = 1073741824 ->
      Misuse program m .intOverflow

/-- Where the machine stops, the program has given the reason. -/
theorem Valid.misuse (valid : Valid m) {stop : Stop} (stopped : m.tick program = .error stop) :
    Misuse program m stop := by
  rw [Machine.tick] at stopped
  cases moves : m.move program with
  | work registers stack memory =>
      rw [moves, Machine.perform, Machine.work] at stopped
      cases self : m.self with
      | none =>
          rw [self] at stopped
          cases stopped
      | some context =>
          rw [self] at stopped
          by_cases fits : stack.length ≤ stackSize
          · simp only [dif_pos fits] at stopped
            cases stopped
          · simp only [dif_neg fits] at stopped
            cases stopped
            refine .stackOverflow ?_ moves (Nat.lt_of_not_le fits)
            rw [self]
            exact Option.some_ne_none _
  | new func ud back =>
      rw [moves, Machine.perform] at stopped
      rcases coroutineNew_cases valid.table func ud with ⟨failed, full⟩ | ⟨_, _, made, _⟩
      · rw [failed] at stopped
        cases stopped
        exact .intOverflow moves full
      · rw [made] at stopped
        cases stopped
  | resume id back =>
      rw [moves, Machine.perform] at stopped
      have went : Valid (m.goOn back) := valid.goOn
      have resumed := coroutineResume_cases went program id
      rw [stopped] at resumed
      cases resumed with
      | nested some_ =>
          rw [Machine.goOn_self, Ne, Option.map_eq_none_iff] at some_
          exact .nested some_ moves
      | badId none_ outside =>
          rw [Machine.goOn_schedule] at outside
          exact .badId (Machine.goOn_main none_).1 moves outside
  | yield back =>
      rw [moves, Machine.perform] at stopped
      have went : Valid (m.goOn back) := valid.goOn
      have yielded := coroutineYield_cases went
      rw [stopped] at yielded
      cases yielded with
      | notRunning none_ => exact .notRunning (Machine.goOn_main none_).1 moves
  | status id back =>
      rw [moves, Machine.perform, coroutineStatus] at stopped
      by_cases within : 0 ≤ id ∧ id < m.schedule.cap
      · rw [if_pos within, valid.table.slot_cases within] at stopped
        cases there : m.schedule.occupant id <;> rw [there] at stopped <;> cases stopped
      · rw [if_neg within] at stopped
        cases stopped
        exact .badStatus moves within
  | running back =>
      rw [moves, Machine.perform] at stopped
      cases stopped
  | finish =>
      rw [moves, Machine.perform] at stopped
      have finished := finish_cases valid
      rw [stopped] at finished
      cases finished with
      | exit none_ => exact .exit none_ moves

/-- The machine stops where the program gives the reason. -/
theorem Misuse.stops {stop : Stop} (misuse : Misuse program m stop) (valid : Valid m) :
    m.tick program = .error stop := by
  rw [Machine.tick]
  cases misuse with
  | exit none_ moves =>
      rw [moves, Machine.perform, finish, none_]
  | @nested id back some_ moves =>
      rw [moves, Machine.perform]
      have went : Valid (m.goOn back) := valid.goOn
      have resumed := coroutineResume_cases went program id
      have busy : (m.goOn back).self ≠ none := by
        rw [Machine.goOn_self, Ne, Option.map_eq_none_iff]
        exact some_
      generalize coroutineResume program (m.goOn back) id = result at resumed ⊢
      cases resumed with
      | nested => rfl
      | badId none_ | dead none_ | entered none_ | returned none_ => exact absurd none_ busy
  | @badId id back none_ moves outside =>
      rw [moves, Machine.perform]
      have went : Valid (m.goOn back) := valid.goOn
      have resumed := coroutineResume_cases went program id
      have idle : (m.goOn back).self = none := by
        rw [Machine.goOn_self, none_]
        rfl
      generalize coroutineResume program (m.goOn back) id = result at resumed ⊢
      cases resumed with
      | nested some_ => exact absurd idle some_
      | badId => rfl
      | dead _ within =>
          rw [Machine.goOn_schedule] at within
          exact absurd within outside
      | entered _ there | returned _ there =>
          have within := went.table.within_of_occupant there
          rw [Machine.goOn_schedule] at within
          exact absurd within outside
  | badStatus moves outside => rw [moves, Machine.perform, coroutineStatus, if_neg outside]
  | @notRunning back none_ moves =>
      rw [moves, Machine.perform]
      have went : Valid (m.goOn back) := valid.goOn
      have yielded := coroutineYield_cases went
      have idle : (m.goOn back).self = none := by
        rw [Machine.goOn_self, none_]
        rfl
      generalize coroutineYield (m.goOn back) = result at yielded ⊢
      cases yielded with
      | notRunning => rfl
      | saved some_ =>
          rw [idle] at some_
          cases some_
  | @stackOverflow registers stack memory some_ moves deep =>
      rw [moves, Machine.perform, Machine.work]
      cases self : m.self with
      | none => exact absurd self some_
      | some context => exact dif_neg (Nat.not_le.mpr deep)
  | @intOverflow func ud back moves full =>
      rw [moves, Machine.perform]
      rcases coroutineNew_cases valid.table func ud with ⟨failed, _⟩ | ⟨_, _, _, room, _⟩
      · rw [failed]
      · omega

section Runs

variable {stack : StackSpace stackSize UInt8} {main : Registers} {memory : Memory}
  {calls : List Call}

/-- In every run the machine stops exactly where the program ends, misuses the
scheduler or leaves its own bounds.  `assert(0)` is never reached, no access leaves
its object, and `_save_stack` never finds too much on the stack. -/
theorem stops_iff_of_run
    (run : Run (Stepping (Machine.next program)) (Machine.start stack main memory) calls m)
    (stop : Stop) : m.tick program = .error stop ↔ Misuse program m stop :=
  ⟨(valid_of_run run).misuse, fun misuse => misuse.stops (valid_of_run run)⟩

/-- What stops the machine in its next step. -/
def Machine.stop (program : Program Func Data Registers Memory)
    (m : Machine stackSize Func Data Registers Memory) : Option Stop :=
  match m.tick program with
  | .error stop => some stop
  | .ok _ => none

theorem stops_iff_of_run_numbering :
    Exists fun m => Run (Stepping (Machine.next numbering))
        (Machine.start ⟨[0, 0, 0], rfl⟩ 0 []) (numberingCalls ++ [.finish]) m ∧
      Misuse numbering m .exit := by
  have executed : (execute (Machine.next numbering) (Machine.start ⟨[0, 0, 0], rfl⟩ 0 [])
      (numberingCalls ++ [.finish])).map (Machine.stop numbering) = some (some .exit) := by decide
  rcases Run.of_execute_map executed with ⟨m, run, exit⟩
  refine ⟨m, run, (stops_iff_of_run run .exit).mp ?_⟩
  rw [Machine.stop] at exit
  split at exit
  case h_1 stop stopped =>
    cases exit
    exact stopped
  case h_2 => cases exit

/-- The counters of the schedule in every run.  Only the coroutine that executes is
running, and `running` names it. -/
theorem orderly_of_run
    (run : Run (Stepping (Machine.next program)) (Machine.start stack main memory) calls m) :
    m.schedule.nco = m.schedule.co.countP Option.isSome ∧
      (Exists fun doublings => m.schedule.co.length = 16 * 2 ^ doublings) ∧
      m.schedule.cap = m.schedule.co.length ∧
      m.schedule.running = (m.self.map Context.id).getD (-1) ∧
      forall id c, m.schedule.occupant id = some c ->
        c.status ≠ .dead ∧ (c.status = .running ↔ m.self.map Context.id = some id) := by
  have valid := valid_of_run run
  rcases valid.table.grown with ⟨doublings, grown⟩
  refine ⟨valid.table.counted, ⟨doublings, ?_⟩, valid.table.whole.symm, valid.running, ?_⟩
  · exact_mod_cast valid.table.whole.trans grown
  · intro id c there
    refine ⟨?_, ?_, ?_⟩
    · cases valid.suits id c there with
      | ready status | running status | suspend status =>
          rw [status]
          exact Status.noConfusion
    · intro running
      by_contra elsewhere
      exact valid.idle there elsewhere running
    · intro executes
      rcases Option.map_eq_some_iff.mp executes with ⟨context, self, rfl⟩
      rcases valid.self self with ⟨_, _, d, there_, status, _⟩
      rw [there] at there_
      cases there_
      exact status

theorem orderly_of_run_numbering :
    Exists fun m => Run (Stepping (Machine.next numbering))
        (Machine.start ⟨[0, 0, 0], rfl⟩ 0 []) numberingCalls m ∧ m.schedule.nco = 2 ∧
      m.schedule.running = (m.self.map Context.id).getD (-1) := by
  have executed : (execute (Machine.next numbering) (Machine.start ⟨[0, 0, 0], rfl⟩ 0 [])
      numberingCalls).map (fun m => m.schedule.nco) = some 2 := by decide
  rcases Run.of_execute_map executed with ⟨m, run, two⟩
  exact ⟨m, run, two, (orderly_of_run run).2.2.2.1⟩

end Runs

end CoroutineSets
end ServerTech
