import ServerTech.Foundation.StackSpace
import ServerTech.Foundation.Transition

namespace ServerTech
namespace CoroutineSets

/-!
# The coroutine scheduler

`coroutine.c`.  All coroutines run on one stack, that of the schedule.  A
coroutine that yields copies what is live on it into a block of its own, and
`coroutine_resume` copies the block back.

The code of the coroutines and of `main` is any program: from its registers, the
live part of its stack and the memory that all share it finds what it does next.
`main` runs on a stack of its own, which counts as part of its registers.  The
machine below runs the program; where an assertion fails, or the code leaves an
object or the range of `int`, it stops with the reason.  No part of a program
holds on to an address of another one's stack.
-/

/-- The states of a coroutine. -/
inductive Status where
  | dead
  | ready
  | running
  | suspend
  deriving DecidableEq, Repr

/-- Why the machine stops. -/
inductive Stop where
  /-- `main` returns. -/
  | exit
  /-- `assert(S->running == -1)`. -/
  | nested
  /-- `assert(id >=0 && id < S->cap)`. -/
  | badId
  /-- `assert(id >= 0)`. -/
  | notRunning
  /-- `assert(top - &dummy <= STACK_SIZE)`. -/
  | deep
  /-- `assert(0)`. -/
  | unreachable
  /-- The live part of a stack gets larger than the stack. -/
  | stackOverflow
  /-- The result of an operation does not fit an `int`. -/
  | intOverflow
  /-- An access outside an object. -/
  | outside
  deriving DecidableEq, Repr

/-- `ucontext_t`: the registers, the depth of the stack pointer, and the local `id` of
`mainfunc`. -/
structure Context (Registers : Type) where
  id : Int
  registers : Registers
  depth : Nat
  deriving DecidableEq

/-- `struct coroutine`. -/
structure Coroutine (Func Data Registers : Type) where
  func : Func
  ud : Data
  ctx : Option (Context Registers)
  cap : Nat
  size : Nat
  status : Status
  stack : List UInt8
  deriving DecidableEq

/-- `struct schedule`, with `STACK_SIZE` for a parameter. -/
structure Schedule (stackSize : Nat) (Func Data Registers : Type) where
  stack : StackSpace stackSize UInt8
  nco : Int
  cap : Int
  running : Int
  co : List (Option (Coroutine Func Data Registers))
  deriving DecidableEq

variable {stackSize : Nat} {Func Data Registers Memory : Type}

/-- `DEFAULT_COROUTINE`. -/
def defaultCoroutine : Nat := 16

/-- `_co_new`. -/
def coNew (func : Func) (ud : Data) : Coroutine Func Data Registers where
  func := func
  ud := ud
  ctx := none
  cap := 0
  size := 0
  status := .ready
  stack := []

/-- `coroutine_open`, on a stack as `malloc` left it. -/
def coroutineOpen (stack : StackSpace stackSize UInt8) : Schedule stackSize Func Data Registers where
  stack := stack
  nco := 0
  cap := defaultCoroutine
  running := -1
  co := List.replicate defaultCoroutine none

/-- `S->co[id]`, where the table has such a slot. -/
def Schedule.slot (s : Schedule stackSize Func Data Registers) (id : Int) :
    Option (Option (Coroutine Func Data Registers)) :=
  if 0 ≤ id then s.co[id.toNat]? else none

/-- `S->co[id] = co`. -/
def Schedule.store (s : Schedule stackSize Func Data Registers) (id : Int)
    (co : Option (Coroutine Func Data Registers)) : Schedule stackSize Func Data Registers :=
  { s with co := s.co.set id.toNat co }

/-- The coroutine in the slot `id`. -/
def Schedule.occupant (s : Schedule stackSize Func Data Registers) (id : Int) :
    Option (Coroutine Func Data Registers) :=
  (s.slot id).join

/-- The loop of `coroutine_new` from `i` on, with this many rounds to go. -/
def Schedule.freeId (s : Schedule stackSize Func Data Registers) (i : Int) : Nat -> Option Int
  | 0 => none
  | rounds + 1 =>
      let id := (i + s.nco) % s.cap
      match s.slot id with
      | some none => some id
      | _ => s.freeId (i + 1) rounds

/-- `coroutine_new`.  A full table is doubled by `realloc`, and `memset` clears
the new half. -/
def coroutineNew (s : Schedule stackSize Func Data Registers) (func : Func) (ud : Data) :
    Except Stop (Schedule stackSize Func Data Registers × Int) :=
  if s.cap ≤ s.nco then
    if 2147483647 < s.cap * 2 then
      .error .intOverflow
    else
      let co := s.co ++ List.replicate s.cap.toNat none
      .ok ({ s with co := co.set s.cap.toNat (some (coNew func ud)), cap := s.cap * 2,
                    nco := s.nco + 1 }, s.cap)
  else
    match s.freeId 0 s.cap.toNat with
    | some id => .ok ({ s.store id (some (coNew func ud)) with nco := s.nco + 1 }, id)
    | none => .error .unreachable

/-- `_save_stack`.  The live part of the stack ends with `dummy`. -/
def saveStack (stackSize : Nat) (c : Coroutine Func Data Registers) (live : List UInt8) :
    Except Stop (Coroutine Func Data Registers) :=
  if stackSize < live.length then
    .error .deep
  else
    let c :=
      if c.cap < live.length then
        { c with cap := live.length, stack := List.replicate live.length 0 }
      else c
    if c.stack.length < live.length then
      .error .outside
    else
      .ok { c with size := live.length, stack := live ++ c.stack.drop live.length }

/-- `coroutine_status`. -/
def coroutineStatus (s : Schedule stackSize Func Data Registers) (id : Int) : Except Stop Status :=
  if 0 ≤ id ∧ id < s.cap then
    match s.slot id with
    | none => .error .outside
    | some none => .ok .dead
    | some (some c) => .ok c.status
  else
    .error .badId

/-- `coroutine_running`. -/
def coroutineRunning (s : Schedule stackSize Func Data Registers) : Int :=
  s.running

/-- What a program does next.  Where it calls the scheduler, `back` gives the
registers with which the call returns. -/
inductive Move (Func Data Registers Memory : Type) where
  | work (registers : Registers) (stack : List UInt8) (memory : Memory)
  | new (func : Func) (ud : Data) (back : Int -> Registers)
  | resume (id : Int) (back : Registers)
  | yield (back : Registers)
  | status (id : Int) (back : Status -> Registers)
  | running (back : Int -> Registers)
  | finish

/-- The kind of a move. -/
inductive Call where
  | work
  | new
  | resume (id : Int)
  | yield
  | status (id : Int)
  | running
  | finish
  deriving DecidableEq, Repr

def Move.call : Move Func Data Registers Memory -> Call
  | .work _ _ _ => .work
  | .new _ _ _ => .new
  | .resume id _ => .resume id
  | .yield _ => .yield
  | .status id _ => .status id
  | .running _ => .running
  | .finish => .finish

/-- The code of `main` and of all coroutines. -/
structure Program (Func Data Registers Memory : Type) where
  /-- The registers at the start of `C->func(S,C->ud)`. -/
  enter : Func -> Data -> Registers
  move : Registers -> List UInt8 -> Memory -> Move Func Data Registers Memory

/-- The whole machine.  `self` is the context of the coroutine that executes, and
`main` the registers of `main`, which `S->main` keeps meanwhile. -/
structure Machine (stackSize : Nat) (Func Data Registers Memory : Type) where
  schedule : Schedule stackSize Func Data Registers
  memory : Memory
  main : Registers
  self : Option (Context Registers)
  deriving DecidableEq

namespace Machine

/-- The registers of the code that executes. -/
def registers (m : Machine stackSize Func Data Registers Memory) : Registers :=
  match m.self with
  | none => m.main
  | some context => context.registers

/-- The live part of the stack of the coroutine that executes. -/
def live (m : Machine stackSize Func Data Registers Memory) : List UInt8 :=
  match m.self with
  | none => []
  | some context => m.schedule.stack.live context.depth

/-- The code that executes goes on with these registers. -/
def goOn (m : Machine stackSize Func Data Registers Memory) (registers : Registers) :
    Machine stackSize Func Data Registers Memory :=
  match m.self with
  | none => { m with main := registers }
  | some context => { m with self := some { context with registers := registers } }

/-- The code that executes computes. -/
def work (m : Machine stackSize Func Data Registers Memory) (registers : Registers)
    (stack : List UInt8) (memory : Memory) :
    Except Stop (Machine stackSize Func Data Registers Memory) :=
  match m.self with
  | none => .ok { m with main := registers, memory := memory }
  | some context =>
      if fits : stack.length ≤ stackSize then
        .ok { m with
          schedule := { m.schedule with stack := m.schedule.stack.place stack fits }
          memory := memory
          self := some { context with registers := registers, depth := stack.length } }
      else
        .error .stackOverflow

end Machine

/-- `coroutine_resume`, which returns when the machine executes its caller again.
A ready coroutine starts in `mainfunc` on an empty stack. -/
def coroutineResume (program : Program Func Data Registers Memory)
    (m : Machine stackSize Func Data Registers Memory) (id : Int) :
    Except Stop (Machine stackSize Func Data Registers Memory) :=
  let s := m.schedule
  if s.running ≠ -1 then
    .error .nested
  else if ¬(0 ≤ id ∧ id < s.cap) then
    .error .badId
  else
    match s.slot id with
    | none => .error .outside
    | some none => .ok m
    | some (some c) =>
        match c.status with
        | .ready =>
            let context := ⟨id, program.enter c.func c.ud, 0⟩
            .ok { m with
              schedule := { s.store id (some { c with status := .running, ctx := some context }) with
                              running := id }
              self := some context }
        | .suspend =>
            if c.stack.length < c.size then
              .error .outside
            else if fits : (c.stack.take c.size).length ≤ stackSize then
              match c.ctx with
              | none => .error .outside
              | some context =>
                  .ok { m with
                    schedule := { s.store id (some { c with status := .running }) with
                                    stack := s.stack.place (c.stack.take c.size) fits,
                                    running := id }
                    self := some context }
            else
              .error .outside
        | _ => .error .unreachable

/-- `coroutine_yield`.  Its local `C` lies above `dummy`, so that its second
assertion holds where that of `_save_stack` does.  `swapcontext` saves the
context and executes `main`. -/
def coroutineYield (m : Machine stackSize Func Data Registers Memory) :
    Except Stop (Machine stackSize Func Data Registers Memory) :=
  let s := m.schedule
  let id := s.running
  if id < 0 then
    .error .notRunning
  else
    match s.slot id with
    | some (some c) =>
        match saveStack stackSize c m.live with
        | .error stop => .error stop
        | .ok c =>
            let c := { c with status := .suspend, ctx := m.self }
            .ok { m with schedule := { s.store id (some c) with running := -1 }, self := none }
    | _ => .error .outside

/-- The function returns.  For a coroutine this is the end of `mainfunc`. -/
def finish (m : Machine stackSize Func Data Registers Memory) :
    Except Stop (Machine stackSize Func Data Registers Memory) :=
  match m.self with
  | none => .error .exit
  | some context =>
      let s := m.schedule
      match s.slot context.id with
      | some (some _) =>
          .ok { m with
            schedule := { s.store context.id none with nco := s.nco - 1, running := -1 }
            self := none }
      | _ => .error .outside

namespace Machine

/-- What the code that executes does next. -/
def move (program : Program Func Data Registers Memory)
    (m : Machine stackSize Func Data Registers Memory) : Move Func Data Registers Memory :=
  program.move m.registers m.live m.memory

/-- The machine makes a move. -/
def perform (program : Program Func Data Registers Memory)
    (m : Machine stackSize Func Data Registers Memory) :
    Move Func Data Registers Memory -> Except Stop (Machine stackSize Func Data Registers Memory)
  | .work registers stack memory => m.work registers stack memory
  | .new func ud back =>
      match coroutineNew m.schedule func ud with
      | .error stop => .error stop
      | .ok (schedule, id) => .ok ({ m with schedule := schedule }.goOn (back id))
  | .resume id back => coroutineResume program (m.goOn back) id
  | .yield back => coroutineYield (m.goOn back)
  | .status id back =>
      match coroutineStatus m.schedule id with
      | .error stop => .error stop
      | .ok status => .ok (m.goOn (back status))
  | .running back => .ok (m.goOn (back (coroutineRunning m.schedule)))
  | .finish => finish m

/-- One step of the machine. -/
def tick (program : Program Func Data Registers Memory)
    (m : Machine stackSize Func Data Registers Memory) :
    Except Stop (Machine stackSize Func Data Registers Memory) :=
  m.perform program (m.move program)

/-- The machine at the start of `main`, which has opened a schedule. -/
def start (stack : StackSpace stackSize UInt8) (main : Registers) (memory : Memory) :
    Machine stackSize Func Data Registers Memory where
  schedule := coroutineOpen stack
  memory := memory
  main := main
  self := none

/-- One step of the machine, with the kind of the move. -/
def next (program : Program Func Data Registers Memory)
    (m : Machine stackSize Func Data Registers Memory) (call : Call) :
    Option (Machine stackSize Func Data Registers Memory) :=
  if (m.move program).call = call then (m.tick program).toOption else none

end Machine

end CoroutineSets
end ServerTech
