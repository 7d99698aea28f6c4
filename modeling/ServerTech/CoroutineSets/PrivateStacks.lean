import ServerTech.CoroutineSets.Switching

namespace ServerTech
namespace CoroutineSets

open Transition

variable {stackSize : Nat} {Func Data Registers Memory : Type}

/-!
# Coroutines with stacks of their own

What the scheduler is for: every coroutine has a stack that nobody else touches,
and a new one gets any identifier that is free.  The machine of `coroutine.c`,
with one stack for all of them, behaves like this one.
-/

namespace Private

/-- Where a coroutine is, with its registers and its stack. -/
inductive Mode (Registers : Type) where
  | ready
  | running (registers : Registers) (stack : List UInt8)
  | suspend (registers : Registers) (stack : List UInt8)

/-- A coroutine with its own stack. -/
structure Thread (Func Data Registers : Type) where
  func : Func
  ud : Data
  mode : Mode Registers

/-- The coroutines, the shared memory, `main`, and the coroutine that executes. -/
@[ext]
structure State (Func Data Registers Memory : Type) where
  threads : Int -> Option (Thread Func Data Registers)
  memory : Memory
  main : Registers
  self : Option Int

/-- The code with these registers and this stack executes. -/
inductive Executes (s : State Func Data Registers Memory) : Registers -> List UInt8 -> Prop
  | main : s.self = none -> Executes s s.main []
  | thread {id : Int} {func : Func} {ud : Data} {registers : Registers} {stack : List UInt8} :
      s.self = some id -> s.threads id = some ⟨func, ud, .running registers stack⟩ ->
      Executes s registers stack

/-- What executes goes on with these registers, this stack and this memory. -/
def State.goOn (s : State Func Data Registers Memory) (registers : Registers)
    (stack : List UInt8) (memory : Memory) : State Func Data Registers Memory :=
  match s.self with
  | none => { s with main := registers, memory := memory }
  | some id =>
      { s with
        threads := Function.update s.threads id
          ((s.threads id).map fun thread => { thread with mode := .running registers stack })
        memory := memory }

theorem State.goOn_main {s : State Func Data Registers Memory} (none_ : s.self = none)
    (registers : Registers) (stack : List UInt8) (memory : Memory) :
    s.goOn registers stack memory = { s with main := registers, memory := memory } := by
  rw [goOn, none_]

theorem State.goOn_thread {s : State Func Data Registers Memory} {id : Int}
    {thread : Thread Func Data Registers} (some_ : s.self = some id)
    (there : s.threads id = some thread) (registers : Registers) (stack : List UInt8)
    (memory : Memory) :
    s.goOn registers stack memory = { s with
      threads := Function.update s.threads id
        (some { thread with mode := .running registers stack })
      memory := memory } := by
  rw [goOn, some_]
  change State.mk (Function.update s.threads id _) _ _ _ = _
  rw [there]
  rfl

/-- What `coroutine_status` is to say. -/
def State.status (s : State Func Data Registers Memory) (id : Int) : Status :=
  match s.threads id with
  | none => .dead
  | some thread =>
      match thread.mode with
      | .ready => .ready
      | .running _ _ => .running
      | .suspend _ _ => .suspend

/-- The steps of coroutines with stacks of their own. -/
inductive Step (program : Program Func Data Registers Memory) :
    State Func Data Registers Memory -> Call -> State Func Data Registers Memory -> Prop
  | work {s : State Func Data Registers Memory} {registers later : Registers}
      {stack next : List UInt8} {memory : Memory} :
      Executes s registers stack -> program.move registers stack s.memory = .work later next memory ->
      Step program s .work (s.goOn later next memory)
  | new {s : State Func Data Registers Memory} {registers : Registers} {stack : List UInt8}
      {func : Func} {ud : Data} {back : Int -> Registers} {id : Int} :
      Executes s registers stack -> program.move registers stack s.memory = .new func ud back ->
      0 ≤ id -> s.threads id = none ->
      Step program s .new
        (State.goOn { s with threads := Function.update s.threads id (some ⟨func, ud, .ready⟩) }
          (back id) stack s.memory)
  | dead {s : State Func Data Registers Memory} {id : Int} {back : Registers} :
      s.self = none -> program.move s.main [] s.memory = .resume id back -> s.threads id = none ->
      Step program s (.resume id) { s with main := back }
  | enter {s : State Func Data Registers Memory} {id : Int} {back : Registers} {func : Func}
      {ud : Data} :
      s.self = none -> program.move s.main [] s.memory = .resume id back ->
      s.threads id = some ⟨func, ud, .ready⟩ ->
      Step program s (.resume id) { s with
        threads := Function.update s.threads id
          (some ⟨func, ud, .running (program.enter func ud) []⟩)
        main := back
        self := some id }
  | resume {s : State Func Data Registers Memory} {id : Int} {back registers : Registers}
      {func : Func} {ud : Data} {stack : List UInt8} :
      s.self = none -> program.move s.main [] s.memory = .resume id back ->
      s.threads id = some ⟨func, ud, .suspend registers stack⟩ ->
      Step program s (.resume id) { s with
        threads := Function.update s.threads id (some ⟨func, ud, .running registers stack⟩)
        main := back
        self := some id }
  | yield {s : State Func Data Registers Memory} {id : Int} {back registers : Registers}
      {func : Func} {ud : Data} {stack : List UInt8} :
      s.self = some id -> s.threads id = some ⟨func, ud, .running registers stack⟩ ->
      program.move registers stack s.memory = .yield back ->
      Step program s .yield { s with
        threads := Function.update s.threads id (some ⟨func, ud, .suspend back stack⟩)
        self := none }
  | status {s : State Func Data Registers Memory} {registers : Registers} {stack : List UInt8}
      {id : Int} {back : Status -> Registers} :
      Executes s registers stack -> program.move registers stack s.memory = .status id back ->
      Step program s (.status id) (s.goOn (back (s.status id)) stack s.memory)
  | running {s : State Func Data Registers Memory} {registers : Registers} {stack : List UInt8}
      {back : Int -> Registers} :
      Executes s registers stack -> program.move registers stack s.memory = .running back ->
      Step program s .running (s.goOn (back (s.self.getD (-1))) stack s.memory)
  | finish {s : State Func Data Registers Memory} {id : Int} {registers : Registers} {func : Func}
      {ud : Data} {stack : List UInt8} :
      s.self = some id -> s.threads id = some ⟨func, ud, .running registers stack⟩ ->
      program.move registers stack s.memory = .finish ->
      Step program s .finish { s with
        threads := Function.update s.threads id none
        self := none }

end Private

namespace Machine

/-- Where a coroutine is.  The stack of the one that executes is on the stack of the
schedule, and that of one that has yielded is in its block. -/
def mode (m : Machine stackSize Func Data Registers Memory) (c : Coroutine Func Data Registers) :
    Private.Mode Registers :=
  match c.status, m.self, c.ctx with
  | .running, some context, _ => .running context.registers m.live
  | .suspend, _, some context => .suspend context.registers (c.stack.take c.size)
  | _, _, _ => .ready

/-- The coroutine with its own stack. -/
def thread (m : Machine stackSize Func Data Registers Memory) (c : Coroutine Func Data Registers) :
    Private.Thread Func Data Registers :=
  ⟨c.func, c.ud, m.mode c⟩

/-- The machine with a stack for every coroutine. -/
def view (m : Machine stackSize Func Data Registers Memory) :
    Private.State Func Data Registers Memory where
  threads := fun id => (m.schedule.occupant id).map m.thread
  memory := m.memory
  main := m.main
  self := m.self.map Context.id

end Machine

variable {m after : Machine stackSize Func Data Registers Memory}

/-- A coroutine that does not run does not depend on what executes. -/
theorem Machine.thread_idle {c : Coroutine Func Data Registers} (idle : c.status ≠ .running) :
    after.thread c = m.thread c := by
  have same : after.mode c = m.mode c := by
    rw [Machine.mode, Machine.mode]
    cases status : c.status with
    | running => exact absurd status idle
    | suspend => cases c.ctx <;> rfl
    | ready => rfl
    | dead => rfl
  rw [Machine.thread, Machine.thread, same]

theorem Machine.thread_running {c : Coroutine Func Data Registers} {context : Context Registers}
    (status : c.status = .running) (self : m.self = some context) :
    m.thread c = ⟨c.func, c.ud, .running context.registers m.live⟩ := by
  rw [Machine.thread, Machine.mode, status, self]

theorem Machine.thread_ready {c : Coroutine Func Data Registers} (status : c.status = .ready) :
    m.thread c = ⟨c.func, c.ud, .ready⟩ := by
  rw [Machine.thread, Machine.mode, status]

theorem Machine.thread_suspend {c : Coroutine Func Data Registers} {context : Context Registers}
    (status : c.status = .suspend) (ctx : c.ctx = some context) :
    m.thread c = ⟨c.func, c.ud, .suspend context.registers (c.stack.take c.size)⟩ := by
  rw [Machine.thread, Machine.mode, status, ctx]

/-- A coroutine that does not execute is not running. -/
theorem Valid.idle (valid : Valid m) {id : Int} {c : Coroutine Func Data Registers}
    (there : m.schedule.occupant id = some c) (elsewhere : m.self.map Context.id ≠ some id) :
    c.status ≠ .running := by
  intro running
  cases valid.suits id c there with
  | ready ready =>
      rw [running] at ready
      cases ready
  | running _ executes same =>
      apply elsewhere
      rw [executes, ← same]
      rfl
  | suspend suspended =>
      rw [running] at suspended
      cases suspended

/-- What happens in one slot is all that happens to the coroutines. -/
theorem Machine.threads_update {id : Int} {co : Option (Coroutine Func Data Registers)}
    (occupant : after.schedule.occupant = Function.update m.schedule.occupant id co)
    (others : forall other c, other ≠ id -> m.schedule.occupant other = some c ->
      after.thread c = m.thread c) :
    after.view.threads = Function.update m.view.threads id (co.map after.thread) := by
  funext other
  change (after.schedule.occupant other).map after.thread = _
  rw [occupant]
  by_cases same : other = id
  · subst same
    rw [Function.update_self, Function.update_self]
  · rw [Function.update_of_ne same, Function.update_of_ne same]
    change _ = (m.schedule.occupant other).map m.thread
    cases there : m.schedule.occupant other with
    | none => rfl
    | some c => exact congrArg some (others other c same there)

theorem Valid.others (valid : Valid m) {id : Int}
    (own : forall other, m.self.map Context.id = some other -> other = id) (other : Int)
    (c : Coroutine Func Data Registers) (different : other ≠ id)
    (there : m.schedule.occupant other = some c) : after.thread c = m.thread c :=
  Machine.thread_idle (valid.idle there fun executes => different (own other executes))

theorem Valid.self (valid : Valid m) {context : Context Registers} (self : m.self = some context) :
    m.view.self = some context.id ∧
      (forall other, m.self.map Context.id = some other -> other = context.id) ∧
      Exists fun c => m.schedule.occupant context.id = some c ∧ c.status = .running ∧
        m.view.threads context.id = some ⟨c.func, c.ud, .running context.registers m.live⟩ := by
  have executing := valid.executing
  rw [self] at executing
  cases executing with
  | @coroutine _ c _ _ there status =>
      refine ⟨?_, ?_, c, there, status, ?_⟩
      · rw [Machine.view, self]
        rfl
      · intro other executes
        rw [self] at executes
        exact (Option.some.inj executes).symm
      · change (m.schedule.occupant context.id).map m.thread = _
        rw [there, Option.map_some, Machine.thread_running status self]

/-- The code that executes is that of `main`, or of the coroutine that executes. -/
theorem Valid.executes (valid : Valid m) :
    Private.Executes m.view m.registers m.live := by
  rw [Machine.registers]
  cases self : m.self with
  | none =>
      rw [Machine.live, self]
      apply Private.Executes.main
      rw [Machine.view, self]
      rfl
  | some context =>
      rcases valid.self self with ⟨some_, _, c, _, _, thread⟩
      exact .thread some_ thread

theorem Machine.view_main (self : m.self = none) (later : after.self = none)
    (occupant : after.schedule.occupant = m.schedule.occupant) (stack : List UInt8) :
    after.view = m.view.goOn after.main stack after.memory := by
  have none_ : m.view.self = none := by
    rw [view, self]
    rfl
  rw [Private.State.goOn_main none_]
  apply Private.State.ext
  · funext id
    change (after.schedule.occupant id).map after.thread = (m.schedule.occupant id).map m.thread
    rw [occupant]
    have same : after.thread = m.thread := by
      funext c
      rw [thread, thread, mode, mode, later, self]
      cases c.status <;> cases c.ctx <;> rfl
    rw [same]
  · rfl
  · rfl
  · change after.self.map Context.id = m.self.map Context.id
    rw [later, self]

/-- The coroutine that executes goes on. -/
theorem Valid.view_coroutine (valid : Valid m) {context next : Context Registers}
    (self : m.self = some context) (later : after.self = some next) (same : next.id = context.id)
    (occupant : after.schedule.occupant = m.schedule.occupant) (main : after.main = m.main) :
    after.view = m.view.goOn next.registers after.live after.memory := by
  rcases valid.self self with ⟨some_, own, c, there, status, thread⟩
  have unchanged : after.schedule.occupant =
      Function.update m.schedule.occupant context.id (some c) := by
    rw [occupant, ← there, Function.update_eq_self]
  rw [Private.State.goOn_thread some_ thread]
  apply Private.State.ext
  · rw [Machine.threads_update unchanged (valid.others own), Option.map_some,
      Machine.thread_running status later]
  · rfl
  · exact main
  · change after.self.map Context.id = m.self.map Context.id
    rw [later, self, Option.map_some, Option.map_some, same]

/-- The registers of the code that executes are its own. -/
theorem Valid.view_goOn (valid : Valid m) (registers : Registers) :
    (m.goOn registers).view = m.view.goOn registers m.live m.memory := by
  have goes : (m.goOn registers).self =
      m.self.map fun context => { context with registers := registers } := Machine.goOn_self
  cases self : m.self with
  | none =>
      have later : (m.goOn registers).self = none := by
        rw [goes, self]
        rfl
      rw [Machine.view_main self later (by rw [Machine.goOn_schedule]) m.live, Machine.goOn_memory,
        Machine.goOn, self]
  | some context =>
      have later : (m.goOn registers).self = some { context with registers := registers } := by
        rw [goes, self]
        rfl
      have main : (m.goOn registers).main = m.main := by
        rw [Machine.goOn, self]
      rw [valid.view_coroutine self later rfl (by rw [Machine.goOn_schedule]) main,
        Machine.goOn_live, Machine.goOn_memory]

/-- What the code that executes computes is its own, but for the memory. -/
theorem Valid.work (valid : Valid m) {registers : Registers} {stack : List UInt8}
    {memory : Memory} (worked : m.work registers stack memory = .ok after) :
    Valid after ∧ after.view = m.view.goOn registers stack memory := by
  have executing := valid.executing
  rw [Machine.work] at worked
  cases self : m.self with
  | none =>
      rw [self] at worked executing
      have equal := (Except.ok.inj worked).symm
      refine ⟨⟨?_, ?_, ?_, ?_⟩, ?_⟩
      · rw [equal]
        exact valid.table
      · rw [equal]
        exact valid.block
      · rw [equal]
        intro id c there
        have suits := valid.suits id c there
        rw [self] at suits
        exact suits
      · rw [equal]
        exact executing
      · rw [Machine.view_main self (by rw [equal]) (by rw [equal]) stack, equal]
  | some context =>
      rw [self] at worked executing
      by_cases fits : stack.length ≤ stackSize
      · simp only [dif_pos fits] at worked
        have equal := (Except.ok.inj worked).symm
        have table := valid.table
        refine ⟨⟨?_, ?_, ?_, ?_⟩, ?_⟩
        · rw [equal]
          exact ⟨table.whole, table.grown, table.small, table.counted⟩
        · rw [equal]
          exact valid.block
        · rw [equal]
          intro id c there
          have suits := valid.suits id c there
          rw [self] at suits
          cases suits with
          | ready ready => exact .ready ready
          | running running executes same =>
              cases executes
              exact .running running rfl same
          | suspend suspended saved same deep fits => exact .suspend suspended saved same deep fits
        · rw [equal]
          cases executing with
          | coroutine running _ there status => exact .coroutine running fits there status
        · have later : after.self = some ⟨context.id, registers, stack.length⟩ := by rw [equal]
          have live : after.live = stack := by
            rw [Machine.live, later, equal]
            exact StackSpace.live_place m.schedule.stack fits
          rw [valid.view_coroutine self later rfl (by rw [equal]; rfl) (by rw [equal]), live, equal]
      · simp only [dif_neg fits] at worked
        cases worked

/-- A new coroutine changes nothing for the others. -/
theorem Valid.new (valid : Valid m) {func : Func} {ud : Data}
    {schedule : Schedule stackSize Func Data Registers} {id : Int}
    (created : coroutineNew m.schedule func ud = .ok (schedule, id))
    (equal : after = { m with schedule := schedule }) :
    Valid after ∧ 0 ≤ id ∧ m.view.threads id = none ∧ after.live = m.live ∧
      after.view = { m.view with
        threads := Function.update m.view.threads id (some ⟨func, ud, .ready⟩) } := by
  rcases coroutineNew_cases valid.table func ud with ⟨failed, _⟩ |
    ⟨_, _, made, _, table, ⟨least, free⟩, occupant, stack, running⟩
  · rw [failed] at created
    cases created
  · rw [made] at created
    cases created
    have self : after.self = m.self := by rw [equal]
    have live : after.live = m.live := by
      rw [Machine.live, Machine.live, self, equal]
      cases m.self with
      | none => rfl
      | some context => exact congrArg (fun space => space.live context.depth) stack
    have unoccupied : m.view.threads id = none := by
      change (m.schedule.occupant id).map m.thread = none
      rw [free]
      rfl
    have same : after.thread = m.thread := by
      funext c
      rw [Machine.thread, Machine.thread, Machine.mode, Machine.mode, self, live]
    rw [show schedule = after.schedule by rw [equal]] at table occupant stack running
    refine ⟨?_, least, unoccupied, live, ?_⟩
    · refine valid.update table occupant ?_ ?_ ?_ ?_
      · rintro c ⟨⟩
        exact ⟨rfl, Nat.le_refl _⟩
      · rintro c ⟨⟩
        exact .ready rfl
      · intro other c _ there
        rw [self]
        exact valid.suits other c there
      · rw [self]
        exact valid.executing.fill running free occupant
    · apply Private.State.ext
      · rw [Machine.threads_update occupant fun _ _ _ _ => congrFun same _]
        rfl
      · change after.memory = m.memory
        rw [equal]
      · change after.main = m.main
        rw [equal]
      · change after.self.map Context.id = m.self.map Context.id
        rw [self]

/-- A coroutine that goes on from the main context has its registers and its stack,
and the main context has its own registers. -/
theorem Valid.view_resumed (valid : Valid m) {id : Int} {back : Registers}
    {c entry : Coroutine Func Data Registers} {context : Context Registers}
    (idle : (m.goOn back).self = none) (same : context.id = id)
    (memory : after.memory = (m.goOn back).memory) (main_ : after.main = (m.goOn back).main)
    (self : after.self = some context)
    (occupant : after.schedule.occupant =
      Function.update (m.goOn back).schedule.occupant id (some entry))
    (func : entry.func = c.func) (ud : entry.ud = c.ud) (status : entry.status = .running) :
    after.view = { m.view with
      threads := Function.update m.view.threads id
        (some ⟨c.func, c.ud, .running context.registers after.live⟩)
      main := back
      self := some id } := by
  rcases Machine.goOn_main idle with ⟨none_, goes⟩
  have caller : m.view.self = none := by
    rw [Machine.view, none_]
    rfl
  have own : forall other, (m.goOn back).self.map Context.id = some other -> other = id := by
    intro other executes
    rw [idle] at executes
    cases executes
  have unchanged : (m.goOn back).view.threads = m.view.threads := by
    rw [valid.view_goOn, Private.State.goOn_main caller]
  have threads := Machine.threads_update occupant (valid.goOn.others own)
  rw [unchanged, Option.map_some, Machine.thread_running status self, func, ud] at threads
  apply Private.State.ext threads
  · exact memory.trans Machine.goOn_memory
  · rw [goes] at main_
    exact main_
  · rw [← same]
    exact congrArg (Option.map Context.id) self

/-- `coroutine_resume` executes a coroutine on its own stack. -/
theorem Valid.resume (valid : Valid m) {program : Program Func Data Registers Memory} {id : Int}
    {back : Registers} (moves : m.move program = .resume id back)
    (resumed : coroutineResume program (m.goOn back) id = .ok after) :
    Valid after ∧ Private.Step program m.view (.resume id) after.view := by
  have went : Valid (m.goOn back) := valid.goOn
  have cases_ := coroutineResume_cases went program id
  rw [resumed] at cases_
  have idle : (m.goOn back).self = none := by
    cases cases_ <;> assumption
  have self := (Machine.goOn_main idle).1
  have caller : m.view.self = none := by
    rw [Machine.view, self]
    rfl
  have main : program.move m.view.main [] m.view.memory = .resume id back := by
    rw [← moves, Machine.move, Machine.registers, Machine.live, self]
    rfl
  have occupants : forall co, (m.schedule.occupant id) = co ->
      m.view.threads id = co.map m.thread := fun co there => congrArg (Option.map m.thread) there
  cases cases_ with
  | dead _ _ free =>
      refine ⟨went, ?_⟩
      rw [Machine.goOn_schedule] at free
      rw [valid.view_goOn, Private.State.goOn_main caller]
      exact .dead caller main (occupants none free)
  | @entered c entry _ _ there ready later memory main_ self_ occupant func ud status =>
      have view := valid.view_resumed idle rfl memory main_ self_ occupant func ud status
      rw [Machine.goOn_schedule] at there
      have thread := occupants (some c) there
      rw [Option.map_some, Machine.thread_ready ready] at thread
      have live : after.live = [] := by
        rw [Machine.live, self_]
        exact StackSpace.live_zero _
      rw [live] at view
      rw [view]
      exact ⟨later, .enter caller main thread⟩
  | @returned c entry context _ _ there suspended ctx same later memory main_ self_ live occupant func
      ud status =>
      have view := valid.view_resumed idle same memory main_ self_ occupant func ud status
      rw [Machine.goOn_schedule] at there
      have thread := occupants (some c) there
      rw [Option.map_some, Machine.thread_suspend suspended ctx] at thread
      rw [live] at view
      rw [view]
      exact ⟨later, .resume caller main thread⟩

/-- `coroutine_yield` leaves the coroutine with its stack. -/
theorem Valid.yield (valid : Valid m) {program : Program Func Data Registers Memory}
    {back : Registers} (moves : m.move program = .yield back)
    (yielded : coroutineYield (m.goOn back) = .ok after) :
    Valid after ∧ Private.Step program m.view .yield after.view := by
  have went : Valid (m.goOn back) := valid.goOn
  have cases_ := coroutineYield_cases went
  rw [yielded] at cases_
  cases cases_ with
  | @saved c kept context _ self there status later memory main none_ occupant func ud suspended ctx
      saved =>
      refine ⟨later, ?_⟩
      rcases went.self self with ⟨_, own, _⟩
      rw [Machine.goOn_self, Option.map_eq_some_iff] at self
      rcases self with ⟨context, self, rfl⟩
      have goes : m.goOn back = { m with self := some { context with registers := back } } :=
        Machine.goOn_coroutine self
      rcases valid.self self with ⟨executes, _, d, there_, _, thread⟩
      rw [Machine.goOn_schedule, there_] at there
      cases there
      have threads := Machine.threads_update occupant (went.others own)
      rw [valid.view_goOn, Private.State.goOn_thread executes thread, Function.update_idem,
        Option.map_some, Machine.thread_suspend suspended ctx, func, ud, saved,
        Machine.goOn_live] at threads
      have view : after.view = { m.view with
          threads := Function.update m.view.threads context.id
            (some ⟨c.func, c.ud, .suspend back m.live⟩)
          self := none } := by
        apply Private.State.ext threads
        · exact memory.trans Machine.goOn_memory
        · rw [goes] at main
          exact main
        · exact congrArg (Option.map Context.id) none_
      have move : program.move context.registers m.live m.view.memory = .yield back := by
        rw [← moves, Machine.move, Machine.registers, self]
        rfl
      rw [view]
      exact .yield executes thread move

theorem Valid.finish (valid : Valid m) {program : Program Func Data Registers Memory}
    (moves : m.move program = .finish) (finished : CoroutineSets.finish m = .ok after) :
    Valid after ∧ Private.Step program m.view .finish after.view := by
  have cases_ := finish_cases valid
  rw [finished] at cases_
  cases cases_ with
  | @deleted context _ self there later memory main none_ occupant =>
      refine ⟨later, ?_⟩
      rcases valid.self self with ⟨executes, own, c, _, _, thread⟩
      have view : after.view = { m.view with
          threads := Function.update m.view.threads context.id none
          self := none } := by
        apply Private.State.ext (Machine.threads_update occupant (valid.others own)) memory main
        exact congrArg (Option.map Context.id) none_
      have move : program.move context.registers m.live m.view.memory = .finish := by
        rw [← moves, Machine.move, Machine.registers, self]
        rfl
      rw [view]
      exact .finish executes thread move

theorem Valid.status (valid : Valid m) {id : Int} {status : Status}
    (seen : coroutineStatus m.schedule id = .ok status) : m.view.status id = status := by
  have view : m.view.threads id = (m.schedule.occupant id).map m.thread := rfl
  rw [coroutineStatus] at seen
  by_cases within : 0 ≤ id ∧ id < m.schedule.cap
  · rw [if_pos within, valid.table.slot_cases within] at seen
    rw [Private.State.status, view]
    cases there : m.schedule.occupant id with
    | none =>
        rw [there] at seen
        cases seen
        rfl
    | some c =>
        rw [there] at seen
        cases seen
        cases valid.suits id c there with
        | ready ready => simp only [Option.map_some, Machine.thread_ready ready, ready]
        | running running executes => 
            simp only [Option.map_some, Machine.thread_running running executes, running]
        | suspend suspended ctx =>
            simp only [Option.map_some, Machine.thread_suspend suspended ctx, suspended]
  · rw [if_neg within] at seen
    cases seen

theorem Valid.running (valid : Valid m) : coroutineRunning m.schedule = m.view.self.getD (-1) := by
  have executing := valid.executing
  rw [coroutineRunning, Machine.view]
  cases self : m.self with
  | none =>
      rw [self] at executing
      cases executing with
      | main idle => exact idle
  | some context =>
      rw [self] at executing
      cases executing with
      | coroutine running => exact running

/-- One step of the machine is a step of coroutines with stacks of their own. -/
theorem Valid.tick (valid : Valid m) {program : Program Func Data Registers Memory}
    (ticked : m.tick program = .ok after) :
    Valid after ∧ Private.Step program m.view (m.move program).call after.view := by
  have executes := valid.executes
  have move : program.move m.registers m.live m.view.memory = m.move program := rfl
  rw [Machine.tick] at ticked
  cases moves : m.move program with
  | work registers stack memory =>
      rw [moves, Machine.perform] at ticked
      rcases valid.work ticked with ⟨later, view⟩
      rw [view]
      exact ⟨later, .work executes (move.trans moves)⟩
  | new func ud back =>
      rw [moves, Machine.perform] at ticked
      cases created : coroutineNew m.schedule func ud with
      | error stop =>
          rw [created] at ticked
          cases ticked
      | ok result =>
          rcases result with ⟨schedule, id⟩
          rw [created] at ticked
          cases ticked
          rcases valid.new created rfl with ⟨middle, least, free, live, view⟩
          refine ⟨middle.goOn, ?_⟩
          rw [middle.view_goOn, live, view]
          exact .new executes (move.trans moves) least free
  | resume id back =>
      rw [moves, Machine.perform] at ticked
      exact valid.resume moves ticked
  | yield back =>
      rw [moves, Machine.perform] at ticked
      exact valid.yield moves ticked
  | status id back =>
      rw [moves, Machine.perform] at ticked
      cases seen : coroutineStatus m.schedule id with
      | error stop =>
          rw [seen] at ticked
          cases ticked
      | ok status =>
          rw [seen] at ticked
          cases ticked
          refine ⟨valid.goOn, ?_⟩
          rw [valid.view_goOn, ← valid.status seen]
          exact .status executes (move.trans moves)
  | running back =>
      rw [moves, Machine.perform] at ticked
      cases ticked
      refine ⟨valid.goOn, ?_⟩
      rw [valid.view_goOn, valid.running]
      exact .running executes (move.trans moves)
  | finish =>
      rw [moves, Machine.perform] at ticked
      exact valid.finish moves ticked

/-- The state at the start of `main`. -/
def Private.start (main : Registers) (memory : Memory) : Private.State Func Data Registers Memory where
  threads := fun _ => none
  memory := memory
  main := main
  self := none

theorem Machine.view_start (stack : StackSpace stackSize UInt8) (main : Registers)
    (memory : Memory) :
    (start stack main memory : Machine stackSize Func Data Registers Memory).view =
      Private.start main memory := by
  have empty : (start stack main memory :
      Machine stackSize Func Data Registers Memory).view.threads = fun _ => none := by
    funext id
    change ((coroutineOpen stack : Schedule stackSize Func Data Registers).occupant id).map _ = none
    rw [occupant_open]
    rfl
  exact Private.State.ext empty rfl rfl rfl

theorem Machine.next_some {program : Program Func Data Registers Memory} {call : Call}
    (taken : m.next program call = some after) :
    (m.move program).call = call ∧ m.tick program = .ok after := by
  rw [next] at taken
  split at taken
  case isTrue same =>
    refine ⟨same, ?_⟩
    cases ticked : m.tick program with
    | error stop =>
        rw [ticked] at taken
        cases taken
    | ok next =>
        rw [ticked] at taken
        cases taken
        rfl
  case isFalse => cases taken

section Runs

variable {program : Program Func Data Registers Memory} {stack : StackSpace stackSize UInt8}
  {main : Registers} {memory : Memory} {calls : List Call}

theorem valid_of_run
    (run : Run (Stepping (Machine.next program)) (Machine.start stack main memory) calls m) :
    Valid m := by
  apply run.invariant _ (valid_start stack main memory)
  intro before call after valid taken
  exact (valid.tick (Machine.next_some taken).2).1

/-- The coroutines behave as if each of them had a stack of its own. -/
theorem private_of_run
    (run : Run (Stepping (Machine.next program)) (Machine.start stack main memory) calls m) :
    Run (Private.Step program) (Private.start main memory) calls m.view := by
  have simulated : Run (Private.Step program)
      (Machine.start stack main memory : Machine stackSize Func Data Registers Memory).view
      (calls.map id) m.view := by
    apply run.simulation Machine.view id
    · intro before call after valid taken
      exact (Valid.tick valid (Machine.next_some taken).2).1
    · intro before call after valid taken
      rcases Machine.next_some taken with ⟨same, ticked⟩
      have step := (Valid.tick valid ticked).2
      rw [same] at step
      exact step
    · exact valid_start stack main memory
  rw [List.map_id, Machine.view_start] at simulated
  exact simulated

/-- Two coroutines that write their number on the stack, yield, and show their stack
when they go on. -/
def numbering : Program Unit UInt8 Nat (List UInt8) where
  enter := fun _ number => 10 + number.toNat
  move := fun registers stack memory =>
    let number := registers.toUInt8 % 10
    match registers / 10, registers with
    | 0, 0 => .new () 1 fun _ => 1
    | 0, 1 => .new () 2 fun _ => 2
    | 0, 2 => .resume 0 3
    | 0, 3 => .resume 1 4
    | 0, 4 => .resume 0 5
    | 0, _ => .finish
    | 1, _ => .work (registers + 10) [number, number] memory
    | 2, _ => .yield (registers + 10)
    | 3, _ => .work (registers + 10) stack (memory ++ stack)
    | _, _ => .finish

/-- The calls of a run of the two coroutines. -/
def numberingCalls : List Call :=
  [.new, .new, .resume 0, .work, .yield, .resume 1, .work, .yield, .resume 0, .work]

theorem private_of_run_numbering :
    Exists fun m => Run (Stepping (Machine.next numbering))
        (Machine.start ⟨[0, 0, 0], rfl⟩ 0 []) numberingCalls m ∧ m.memory = [1, 1] ∧
      Run (Private.Step numbering) (Private.start 0 []) numberingCalls m.view := by
  have executed : (execute (Machine.next numbering) (Machine.start ⟨[0, 0, 0], rfl⟩ 0 [])
      numberingCalls).map Machine.memory = some [1, 1] := by decide
  rcases Run.of_execute_map executed with ⟨m, run, memory⟩
  exact ⟨m, run, memory, private_of_run run⟩

end Runs

end CoroutineSets
end ServerTech
